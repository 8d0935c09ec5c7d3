import Mathlib.Algebra.BigOperators.Group.List.Basic
import Mathlib.Algebra.Order.BigOperators.Group.List
import Mathlib.Algebra.Order.Group.Int
import Mathlib.Algebra.Order.Group.MinMax
import Mathlib.Algebra.Ring.Int.Defs
import Mathlib.Data.List.Pairwise

/-!
# Pouring an amount down a list

Each row takes what it has room for, until nothing is left.
-/

namespace Waterfall

variable {ρ : Type} (room : ρ → ℤ)

/-- Every row with what it takes. -/
def fill : ℤ → List ρ → List (ρ × ℤ)
  | _, [] => []
  | left, r :: rows => (r, min left (room r)) :: fill (left - min left (room r)) rows

variable {room} {left : ℤ} {rows : List ρ}

theorem fill_fst (room : ρ → ℤ) (left : ℤ) (rows : List ρ) :
    (fill room left rows).map Prod.fst = rows := by
  induction rows generalizing left with
  | nil => rfl
  | cons r rows ih => rw [fill, List.map_cons, ih]

theorem mem_of_mem_fill {p : ρ × ℤ} (hp : p ∈ fill room left rows) : p.1 ∈ rows := by
  have hmem : p.1 ∈ (fill room left rows).map Prod.fst := List.mem_map_of_mem hp
  rwa [fill_fst] at hmem

theorem exists_fill (room : ρ → ℤ) {r : ρ} (hr : r ∈ rows) (left : ℤ) :
    ∃ x, (r, x) ∈ fill room left rows := by
  rw [← fill_fst room left rows] at hr
  obtain ⟨⟨_, x⟩, hp, rfl⟩ := List.mem_map.1 hr
  exact ⟨x, hp⟩

variable (hroom : ∀ r ∈ rows, 0 ≤ room r)
include hroom

theorem fill_range (hleft : 0 ≤ left) {p : ρ × ℤ} (hp : p ∈ fill room left rows) :
    0 ≤ p.2 ∧ p.2 ≤ room p.1 := by
  induction rows generalizing left with
  | nil => simp [fill] at hp
  | cons r rows ih =>
      have hr := hroom r List.mem_cons_self
      rcases List.mem_cons.1 hp with rfl | hp
      · exact ⟨le_min hleft hr, min_le_right _ _⟩
      · exact ih (fun s hs => hroom s (List.mem_cons_of_mem _ hs)) (by omega) hp

/-- From nothing nothing is poured. -/
theorem fill_zero : fill room 0 rows = rows.map fun r => (r, 0) := by
  induction rows with
  | nil => rfl
  | cons r rows ih =>
      rw [fill, min_eq_left (hroom r List.mem_cons_self), sub_zero,
        ih fun s hs => hroom s (List.mem_cons_of_mem _ hs), List.map_cons]

/-- As much is poured as there is room for. -/
theorem fill_sum (hleft : 0 ≤ left) :
    ((fill room left rows).map Prod.snd).sum = min left (rows.map room).sum := by
  induction rows generalizing left with
  | nil => simp [fill, hleft]
  | cons r rows ih =>
      have hrest : ∀ s ∈ rows, 0 ≤ room s := fun s hs => hroom s (List.mem_cons_of_mem _ hs)
      have hr := hroom r List.mem_cons_self
      have hsum : 0 ≤ (rows.map room).sum := by
        apply List.sum_nonneg
        simpa using hrest
      rw [fill, List.map_cons, List.sum_cons, ih hrest (by omega), List.map_cons, List.sum_cons]
      omega

/-- A row takes something only if all before it are full. -/
theorem fill_order (hleft : 0 ≤ left) :
    (fill room left rows).Pairwise fun p q => 0 < q.2 → p.2 = room p.1 := by
  induction rows generalizing left with
  | nil => exact List.Pairwise.nil
  | cons r rows ih =>
      have hrest : ∀ s ∈ rows, 0 ≤ room s := fun s hs => hroom s (List.mem_cons_of_mem _ hs)
      rw [fill, List.pairwise_cons]
      refine ⟨fun q hq hpos => ?_, ih hrest (by omega)⟩
      by_contra hpart
      have hnone : left - min left (room r) = 0 := by
        simp only at hpart
        omega
      rw [hnone, fill_zero hrest] at hq
      obtain ⟨s, -, rfl⟩ := List.mem_map.1 hq
      exact lt_irrefl _ hpos

/-- The same of two rows by the order of the list. -/
theorem full_of_before (hleft : 0 ≤ left) {r : ρ → ρ → Prop} (hsorted : rows.Pairwise r) {p q : ρ × ℤ}
    (hp : p ∈ fill room left rows) (hq : q ∈ fill room left rows) (hqp : ¬ r q.1 p.1) (hne : p.1 ≠ q.1)
    (hpos : 0 < q.2) : p.2 = room p.1 := by
  have hboth : (fill room left rows).Pairwise fun p q => (0 < q.2 → p.2 = room p.1) ∧ r p.1 q.1 := by
    apply (fill_order hroom hleft).and
    rw [← fill_fst room left rows, List.pairwise_map] at hsorted
    exact hsorted
  have hor : (fill room left rows).Pairwise fun p q => ((0 < q.2 → p.2 = room p.1) ∧ r p.1 q.1) ∨
      ((0 < p.2 → q.2 = room q.1) ∧ r q.1 p.1) := hboth.imp Or.inl
  have hsymm : Std.Symm fun p q : ρ × ℤ => ((0 < q.2 → p.2 = room p.1) ∧ r p.1 q.1) ∨
      ((0 < p.2 → q.2 = room q.1) ∧ r q.1 p.1) := ⟨fun _ _ => Or.symm⟩
  rcases hor.forall hp hq fun heq => hne (congrArg Prod.fst heq) with ⟨hfull, -⟩ | ⟨-, hr⟩
  · exact hfull hpos
  · exact absurd hr hqp

/-- Of the rows that take something only the last may be left with room. -/
theorem full_of_dropLast (hleft : 0 ≤ left) {p : ρ × ℤ}
    (hp : p ∈ ((fill room left rows).filter fun p => decide (0 < p.2)).dropLast) :
    p.2 = room p.1 := by
  have horder := (fill_order hroom hleft).sublist (List.filter_sublist (p := fun p => decide (0 < p.2)))
  have hne := List.ne_nil_of_mem ((List.dropLast_sublist _).subset hp)
  have hlast := List.getLast_mem hne
  apply horder.rel_dropLast_getLast hp
  simpa using (List.mem_filter.1 hlast).2

/-- What two pourings leave in each row is what one of the sum leaves. -/
theorem fill_add {put : ℤ → ρ → ρ} (hput : ∀ r x, room (put x r) = room r - x) {a b : ℤ} (ha : 0 ≤ a)
    (hb : 0 ≤ b) : (fill room (a + b) rows).map Prod.snd =
      List.zipWith (· + ·) ((fill room a rows).map Prod.snd)
        ((fill room b ((fill room a rows).map fun p => put p.2 p.1)).map Prod.snd) := by
  induction rows generalizing a b with
  | nil => rfl
  | cons r rows ih =>
      have hrest : ∀ s ∈ rows, 0 ≤ room s := fun s hs => hroom s (List.mem_cons_of_mem _ hs)
      have hr := hroom r List.mem_cons_self
      have hhead : min (a + b) (room r) = min a (room r) + min b (room r - min a (room r)) := by omega
      have htail : a + b - min (a + b) (room r) =
          (a - min a (room r)) + (b - min b (room r - min a (room r))) := by omega
      simp only [fill, List.map_cons, List.zipWith_cons_cons, hput]
      rw [← hhead, htail, ih hrest (by omega) (by omega)]

end Waterfall
