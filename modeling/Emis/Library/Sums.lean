import Emis.Library.Table
import Mathlib.Algebra.BigOperators.Group.List.Basic
import Mathlib.Algebra.Order.BigOperators.Group.List
import Mathlib.Algebra.Order.Group.Int
import Mathlib.Tactic.Ring

/-!
# Sums over the rows of a table

`total p f rows` is what `SELECT sum(f) … WHERE p` gives, and how it moves when
rows are added or changed.
-/

namespace Transactions

variable {ρ κ : Type}

def total (p : ρ → Bool) (f : ρ → ℤ) (rows : List ρ) : ℤ :=
  ((rows.filter p).map f).sum

section Total

variable {p q : ρ → Bool} {f g : ρ → ℤ} {rows rows' : List ρ}

@[simp] theorem total_nil : total p f [] = 0 := rfl

theorem total_cons (r : ρ) (rows : List ρ) :
    total p f (r :: rows) = (if p r then f r else 0) + total p f rows := by
  by_cases hp : p r <;> simp [total, hp]

theorem total_append (rows rows' : List ρ) :
    total p f (rows ++ rows') = total p f rows + total p f rows' := by
  simp [total]

theorem total_perm (h : rows.Perm rows') : total p f rows = total p f rows' :=
  ((h.filter p).map f).sum_eq

theorem total_filter : total p f (rows.filter q) = total (fun r => p r && q r) f rows := by
  rw [total, total, List.filter_filter]

theorem total_congr (h : ∀ r ∈ rows, p r = q r) (h' : ∀ r ∈ rows, p r = true → f r = g r) :
    total p f rows = total q g rows := by
  induction rows with
  | nil => rfl
  | cons r rows ih =>
      have hrest : total p f rows = total q g rows := by
        apply ih
        · exact fun s hs => h s (List.mem_cons_of_mem _ hs)
        · exact fun s hs => h' s (List.mem_cons_of_mem _ hs)
      have hr := h r List.mem_cons_self
      have hf := h' r List.mem_cons_self
      rw [total_cons, total_cons, hrest, ← hr]
      by_cases hp : p r
      · rw [if_pos hp, if_pos hp, hf hp]
      · rw [if_neg hp, if_neg hp]

theorem total_eq_zero (h : ∀ r ∈ rows, p r = false) : total p f rows = 0 := by
  have hnil : rows.filter p = [] := List.filter_eq_nil_iff.2 fun r hr => by simp [h r hr]
  rw [total, hnil]
  rfl

theorem total_nonneg (h : ∀ r ∈ rows, p r = true → 0 ≤ f r) : 0 ≤ total p f rows := by
  apply List.sum_nonneg
  intro x hx
  obtain ⟨r, hr, rfl⟩ := List.mem_map.1 hx
  obtain ⟨hmem, hp⟩ := List.mem_filter.1 hr
  exact h r hmem hp

theorem total_le (h : ∀ r ∈ rows, p r = true → f r ≤ g r) : total p f rows ≤ total p g rows := by
  induction rows with
  | nil => exact le_rfl
  | cons r rows ih =>
      have hrest : total p f rows ≤ total p g rows :=
        ih fun s hs => h s (List.mem_cons_of_mem _ hs)
      have hr := h r List.mem_cons_self
      rw [total_cons, total_cons]
      split
      · rename_i hp
        have hfg := hr hp
        omega
      · omega

theorem total_add : total p (fun r => f r + g r) rows = total p f rows + total p g rows := by
  induction rows with
  | nil => rfl
  | cons r rows ih =>
      rw [total_cons, total_cons, total_cons, ih]
      split
      · ring
      · ring

theorem total_split (q : ρ → Bool) :
    total p f rows = total (fun r => p r && q r) f rows + total (fun r => p r && !q r) f rows := by
  induction rows with
  | nil => rfl
  | cons r rows ih =>
      rw [total_cons, total_cons, total_cons, ih]
      cases p r <;> cases q r <;> simp <;> ring

theorem total_neg : total p (fun r => -f r) rows = -total p f rows := by
  induction rows with
  | nil => rfl
  | cons r rows ih =>
      rw [total_cons, total_cons, ih]
      split
      · ring
      · ring

theorem total_all : total (fun _ => true) f rows = (rows.map f).sum := by
  simp [total]

/-- A sum over rows made from others. -/
theorem total_map {rows : List κ} {h : κ → ρ} :
    total p f (rows.map h) = total (p ∘ h) (f ∘ h) rows := by
  induction rows with
  | nil => rfl
  | cons r rows ih =>
      rw [List.map_cons, total_cons, total_cons, ih]
      rfl

theorem total_zero : total p (fun _ => 0) rows = 0 := by
  simp [total]

/-- The row with a key is summed alone. -/
theorem total_key [DecidableEq κ] {key : ρ → κ} (hkeys : (rows.map key).Nodup) {r : ρ}
    (hr : r ∈ rows) : total (fun s => key s == key r) f rows = f r := by
  induction rows with
  | nil => simp at hr
  | cons s rows ih =>
      have hnodup := List.nodup_cons.1 hkeys
      rw [total_cons]
      rcases List.mem_cons.1 hr with rfl | hmem
      · have hzero : total (fun s => key s == key r) f rows = 0 := by
          apply total_eq_zero
          intro s hs
          have hne : key s ≠ key r := fun h => hnodup.1 (h ▸ List.mem_map_of_mem hs)
          simpa using hne
        simp [hzero]
      · have hne : key s ≠ key r := fun h => hnodup.1 (h ▸ List.mem_map_of_mem hmem)
        simp [hne, ih hnodup.2 hmem]

end Total

/-! ## Amounts put on keyed rows -/

/-- What a list of amounts with keys puts on one key. -/
def put [DecidableEq κ] (moves : List (κ × ℤ)) (k : κ) : ℤ :=
  total (fun m => m.1 == k) Prod.snd moves

section Put

variable [DecidableEq κ] {moves : List (κ × ℤ)} {key : ρ → κ} {rows : List ρ} {p : ρ → Bool}

theorem put_cons (m : κ × ℤ) (moves : List (κ × ℤ)) (k : κ) :
    put (m :: moves) k = (if m.1 = k then m.2 else 0) + put moves k := by
  rw [put, total_cons]
  simp [put]

theorem put_of_notMem {k : κ} (h : k ∉ moves.map Prod.fst) : put moves k = 0 := by
  apply total_eq_zero
  intro m hm
  have hne : m.1 ≠ k := fun heq => h (heq ▸ List.mem_map_of_mem hm)
  simpa using hne

theorem put_of_mem (hmoves : (moves.map Prod.fst).Nodup) {m : κ × ℤ} (hm : m ∈ moves) :
    put moves m.1 = m.2 := total_key hmoves hm

theorem total_single (hkeys : (rows.map key).Nodup) {r : ρ} (hr : r ∈ rows) (hp : p r = true)
    (x : ℤ) : total p (fun s => if key r = key s then x else 0) rows = x := by
  induction rows with
  | nil => simp at hr
  | cons s rows ih =>
      have hnodup := List.nodup_cons.1 hkeys
      rw [total_cons]
      rcases List.mem_cons.1 hr with rfl | hmem
      · have hzero : total p (fun s => if key r = key s then x else 0) rows = 0 := by
          have hne : ∀ s ∈ rows, key r ≠ key s := fun s hs heq =>
            hnodup.1 (heq ▸ List.mem_map_of_mem hs)
          rw [total_congr (fun _ _ => rfl) fun s hs _ => if_neg (hne s hs), total_zero]
        simp [hp, hzero]
      · have hne : key r ≠ key s := fun h => hnodup.1 (h ▸ List.mem_map_of_mem hmem)
        simp [hne, ih hnodup.2 hmem]

/-- What is put on the rows of a table comes from all the amounts, when each of
them has its row. -/
theorem total_put (hkeys : (rows.map key).Nodup)
    (hmoves : ∀ m ∈ moves, ∃ r ∈ rows, p r = true ∧ key r = m.1) :
    total p (fun r => put moves (key r)) rows = (moves.map Prod.snd).sum := by
  induction moves with
  | nil => exact total_zero
  | cons m moves ih =>
      have hrest := ih fun m' hm' => hmoves m' (List.mem_cons_of_mem _ hm')
      obtain ⟨r, hr, hp, hkey⟩ := hmoves m List.mem_cons_self
      simp only [put_cons]
      rw [total_add, hrest, ← hkey, total_single hkeys hr hp, List.map_cons, List.sum_cons]

end Put

end Transactions
