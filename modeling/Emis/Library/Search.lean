import Mathlib.Algebra.BigOperators.Group.List.Basic
import Mathlib.Algebra.GroupWithZero.Nat
import Mathlib.Logic.Relation

/-!
# Searching a graph with a stack

A search that visits what its stack leads to until it meets its target, and what it
says of cycles: a graph without one, in which the edges of one node are replaced, gets a
cycle exactly when the search from the new edges meets that node.
-/

namespace Search

open Relation

variable {α : Type} [DecidableEq α]

/-- At most `n` rounds of the search, `none` while it goes on. The next node to visit is
the head of the stack. -/
def run (next : α → List α) (target : α) : ℕ → List α → List α → Option Bool
  | 0, _, _ => none
  | _ + 1, [], _ => some false
  | n + 1, current :: stack, seen =>
      if current = target then some true
      else if current ∈ seen then run next target n stack seen
      else run next target n ((next current).reverse ++ stack) (current :: seen)

variable {next : α → List α} {target : α}

/-! ## It ends -/

/-- The edges that are still to be put on the stack. -/
def left (next : α → List α) (keys seen : List α) : ℕ :=
  (keys.map fun k => if k ∈ seen then 0 else (next k).length).sum

theorem left_cons (k : α) (keys seen : List α) :
    left next (k :: keys) seen = (if k ∈ seen then 0 else (next k).length) + left next keys seen := by
  rw [left, List.map_cons, List.sum_cons, left]

theorem left_mono (keys seen : List α) (current : α) :
    left next keys (current :: seen) ≤ left next keys seen := by
  induction keys with
  | nil => exact Nat.le_refl _
  | cons k keys ih =>
      rw [left_cons, left_cons]
      refine Nat.add_le_add ?_ ih
      by_cases hk : k ∈ seen
      · simp [hk]
      · rw [if_neg hk]
        split
        · exact Nat.zero_le _
        · exact Nat.le_refl _

theorem left_visit {keys seen : List α} {current : α} (hkey : current ∈ keys) (hnew : current ∉ seen) :
    left next keys (current :: seen) + (next current).length ≤ left next keys seen := by
  induction keys with
  | nil => simp at hkey
  | cons k keys ih =>
      rw [left_cons, left_cons]
      by_cases hkc : k = current
      · subst hkc
        have hrest : left next keys (k :: seen) ≤ left next keys seen := left_mono keys seen k
        rw [if_pos List.mem_cons_self, if_neg hnew]
        omega
      · have hrest := ih ((List.mem_cons.1 hkey).resolve_left fun h => hkc h.symm)
        have hsame : k ∈ current :: seen ↔ k ∈ seen := by simp [hkc]
        rw [if_congr hsame rfl rfl]
        omega

theorem left_of_not_key {keys seen : List α} {current : α} (hkey : current ∉ keys) :
    left next keys (current :: seen) = left next keys seen := by
  rw [left, left]
  refine congrArg List.sum (List.map_congr_left fun k hk => ?_)
  have hne : k ≠ current := fun h => hkey (h ▸ hk)
  simp [hne]

/-- Where only finitely many nodes have edges, the search ends on every graph. -/
theorem run_ends {keys : List α} (hkeys : ∀ a, a ∉ keys → next a = []) (n : ℕ) (stack seen : List α)
    (hn : stack.length + left next keys seen < n) : (run next target n stack seen).isSome := by
  induction n generalizing stack seen with
  | zero => omega
  | succ n ih =>
      cases stack with
      | nil => rfl
      | cons current stack =>
          rw [run]
          simp only [List.length_cons] at hn
          split
          · rfl
          · split
            · exact ih stack seen (by omega)
            · rename_i hnew
              refine ih _ _ ?_
              rw [List.length_append, List.length_reverse]
              by_cases hkey : current ∈ keys
              · have hvisit : left next keys (current :: seen) + (next current).length ≤ left next keys seen :=
                  left_visit hkey hnew
                omega
              · have hnone := hkeys current hkey
                rw [hnone, left_of_not_key hkey]
                simp only [List.length_nil]
                omega

/-- With more rounds it finds the same. -/
theorem run_more {b : Bool} {n : ℕ} {stack seen : List α} (h : run next target n stack seen = some b)
    (k : ℕ) : run next target (n + k) stack seen = some b := by
  induction n generalizing stack seen with
  | zero => cases h
  | succ n ih =>
      rw [Nat.succ_add]
      cases stack with
      | nil => exact h
      | cons current stack =>
          rw [run] at h ⊢
          split at h
          · rename_i htarget
            rw [if_pos htarget]
            exact h
          · rename_i htarget
            rw [if_neg htarget]
            split at h
            · rename_i hseen
              rw [if_pos hseen]
              exact ih h
            · rename_i hseen
              rw [if_neg hseen]
              exact ih h

/-! ## It finds what is there -/

/-- The edges of the graph. -/
def Edge (next : α → List α) (a b : α) : Prop := b ∈ next a

omit [DecidableEq α] in
theorem run_sound_step {stack : List α} {current p : α} (hp : p ∈ (next current).reverse ++ stack)
    (hreach : ReflTransGen (Edge next) p target) :
    ∃ p ∈ current :: stack, ReflTransGen (Edge next) p target := by
  rcases List.mem_append.1 hp with hp | hp
  · exact ⟨current, List.mem_cons_self, .head (List.mem_reverse.1 hp) hreach⟩
  · exact ⟨p, List.mem_cons_of_mem _ hp, hreach⟩

theorem run_sound {n : ℕ} {stack seen : List α} (h : run next target n stack seen = some true) :
    ∃ p ∈ stack, ReflTransGen (Edge next) p target := by
  induction n generalizing stack seen with
  | zero => cases h
  | succ n ih =>
      cases stack with
      | nil => cases h
      | cons current stack =>
          rw [run] at h
          split at h
          · rename_i htarget
            exact ⟨current, List.mem_cons_self, htarget ▸ .refl⟩
          · split at h
            · obtain ⟨p, hp, hreach⟩ := ih h
              exact ⟨p, List.mem_cons_of_mem _ hp, hreach⟩
            · obtain ⟨p, hp, hreach⟩ := ih h
              exact run_sound_step hp hreach

/-- What the search has visited leads to what it has visited or is about to. -/
def Explored (next : α → List α) (target : α) (stack seen : List α) : Prop :=
  ∀ a ∈ seen, a ≠ target ∧ ∀ b ∈ next a, b ∈ seen ∨ b ∈ stack

/-- A search that ends without its target leaves a set that nothing leads out of. -/
theorem run_closed {n : ℕ} {stack seen : List α} (hseen : Explored next target stack seen)
    (h : run next target n stack seen = some false) :
    ∃ visited : List α, seen ⊆ visited ∧ stack ⊆ visited ∧ Explored next target [] visited := by
  induction n generalizing stack seen with
  | zero => cases h
  | succ n ih =>
      cases stack with
      | nil => exact ⟨seen, List.Subset.refl _, List.nil_subset _, hseen⟩
      | cons current stack =>
          rw [run] at h
          split at h
          · cases h
          · rename_i htarget
            split at h
            · rename_i hcurrent
              have hseen' : Explored next target stack seen := by
                intro a ha
                obtain ⟨hne, hnext⟩ := hseen a ha
                refine ⟨hne, fun b hb => ?_⟩
                rcases hnext b hb with hb | hb
                · exact .inl hb
                · rcases List.mem_cons.1 hb with rfl | hb
                  · exact .inl hcurrent
                  · exact .inr hb
              obtain ⟨visited, hsub, hstack, hclosed⟩ := ih hseen' h
              exact ⟨visited, hsub, List.cons_subset.2 ⟨hsub hcurrent, hstack⟩, hclosed⟩
            · have hseen' : Explored next target ((next current).reverse ++ stack) (current :: seen) := by
                intro a ha
                rcases List.mem_cons.1 ha with rfl | ha
                · exact ⟨htarget, fun b hb => .inr (List.mem_append_left _ (List.mem_reverse.2 hb))⟩
                · obtain ⟨hne, hnext⟩ := hseen a ha
                  refine ⟨hne, fun b hb => ?_⟩
                  rcases hnext b hb with hb | hb
                  · exact .inl (List.mem_cons_of_mem _ hb)
                  · rcases List.mem_cons.1 hb with rfl | hb
                    · exact .inl List.mem_cons_self
                    · exact .inr (List.mem_append_right _ hb)
              obtain ⟨visited, hsub, hstack, hclosed⟩ := ih hseen' h
              refine ⟨visited, fun a ha => hsub (List.mem_cons_of_mem _ ha), ?_, hclosed⟩
              exact List.cons_subset.2 ⟨hsub List.mem_cons_self,
                fun a ha => hstack (List.mem_append_right _ ha)⟩

theorem run_complete {n : ℕ} {stack : List α} (h : run next target n stack [] = some false) :
    ∀ p ∈ stack, ¬ ReflTransGen (Edge next) p target := by
  obtain ⟨visited, -, hstack, hclosed⟩ := run_closed (fun a ha => by simp at ha) h
  intro p hp hreach
  have hmem : ∀ a, ReflTransGen (Edge next) p a → a ∈ visited := by
    intro a ha
    induction ha with
    | refl => exact hstack hp
    | tail _ hedge ih => exact ((hclosed _ ih).2 _ hedge).resolve_right List.not_mem_nil
  exact (hclosed target (hmem target hreach)).1 rfl

/-! ## Cycles -/

omit [DecidableEq α]

variable {R : α → α → Prop} {c : α} {new : α → Prop}

/-- Some node leads back to itself. -/
def Cyclic (R : α → α → Prop) : Prop := ∃ a, TransGen R a a

/-- The edges of one node are replaced. -/
def Replaced (R : α → α → Prop) (c : α) (new : α → Prop) (a b : α) : Prop := (a = c ∧ new b) ∨ (a ≠ c ∧ R a b)

/-- Until a path meets the node, both graphs have it. -/
theorem reach_replaced_iff {p : α} : ReflTransGen (Replaced R c new) p c ↔ ReflTransGen R p c := by
  constructor
  · intro h
    induction h using ReflTransGen.head_induction_on with
    | refl => exact .refl
    | head hedge _ ih =>
        rcases hedge with ⟨rfl, -⟩ | ⟨-, hedge⟩
        · exact .refl
        · exact .head hedge ih
  · intro h
    induction h using ReflTransGen.head_induction_on with
    | refl => exact .refl
    | @head a b hedge _ ih =>
        by_cases hac : a = c
        · subst hac
          exact .refl
        · exact .head (.inr ⟨hac, hedge⟩) ih

/-- A path of the new graph is one of the old, or meets the node. -/
theorem trans_replaced {a b : α} (h : TransGen (Replaced R c new) a b) :
    TransGen R a b ∨ ReflTransGen (Replaced R c new) a c ∧ TransGen (Replaced R c new) c b := by
  induction h with
  | single hedge =>
      rcases hedge with ⟨rfl, hnew⟩ | ⟨-, hedge⟩
      · exact .inr ⟨.refl, .single (.inl ⟨rfl, hnew⟩)⟩
      · exact .inl (.single hedge)
  | tail hpath hedge ih =>
      rcases ih with hold | ⟨hto, hfrom⟩
      · rcases hedge with ⟨rfl, hnew⟩ | ⟨-, hedge⟩
        · exact .inr ⟨hpath.to_reflTransGen, .single (.inl ⟨rfl, hnew⟩)⟩
        · exact .inl (hold.tail hedge)
      · exact .inr ⟨hto, hfrom.tail hedge⟩

theorem cyclic_replaced_iff (hR : ¬ Cyclic R) :
    Cyclic (Replaced R c new) ↔ ∃ p, new p ∧ ReflTransGen R p c := by
  constructor
  · rintro ⟨a, ha⟩
    have hcycle : TransGen (Replaced R c new) c c := by
      rcases trans_replaced ha with hold | ⟨hto, hfrom⟩
      · exact (hR ⟨a, hold⟩).elim
      · exact hfrom.trans_left hto
    obtain ⟨p, hedge, hrest⟩ := TransGen.head'_iff.1 hcycle
    rcases hedge with ⟨-, hnew⟩ | ⟨hne, -⟩
    · exact ⟨p, hnew, reach_replaced_iff.1 hrest⟩
    · exact (hne rfl).elim
  · rintro ⟨p, hnew, hreach⟩
    exact ⟨c, TransGen.head' (.inl ⟨rfl, hnew⟩) (reach_replaced_iff.2 hreach)⟩

end Search
