import Emis.Library.Table
import Mathlib.Algebra.BigOperators.Group.List.Basic
import Mathlib.Data.List.Dedup
import Mathlib.Data.List.Sort

/-!
# Joins and groups

What `JOIN` and `GROUP BY` make of lists of rows. A join on a key that is unique
in the joined table finds at most one row there, so it looks each row up. The
groups of a list are a partition of it.
-/

namespace Transactions

variable {α β γ κ ρ M : Type}

/-- `FROM rows JOIN table ON on`; `put` is the joined row. -/
def innerJoin (on : α → β → Bool) (put : α → β → γ) (table : List β) (rows : List α) : List γ :=
  rows.flatMap fun r => (table.filter (on r)).map (put r)

/-- `FROM rows LEFT JOIN table ON on`. -/
def leftJoin (on : α → β → Bool) (put : α → Option β → γ) (table : List β) (rows : List α) : List γ :=
  rows.flatMap fun r =>
    match table.filter (on r) with
    | [] => [put r none]
    | found => found.map fun s => put r (some s)

section Joins

variable {on : α → β → Bool} {key : β → κ} {table : List β}

theorem filter_eq_toList_find? {p : β → Bool} (h : table.Pairwise fun s t => ¬ (p s = true ∧ p t = true)) :
    table.filter p = (table.find? p).toList := by
  induction table with
  | nil => rfl
  | cons s table ih =>
      obtain ⟨hs, hrest⟩ := List.pairwise_cons.1 h
      cases hp : p s with
      | true =>
          have hnone : table.filter p = [] :=
            List.filter_eq_nil_iff.2 fun t ht htrue => hs t ht ⟨hp, htrue⟩
          simp [hp, hnone]
      | false => simp [hp, ih hrest]

/-- A row is found by a unique key, or not at all. -/
theorem filter_unique (hkeys : (table.map key).Nodup) {p : β → Bool} {k : κ}
    (hon : ∀ s, p s = true → key s = k) : table.filter p = (table.find? p).toList := by
  apply filter_eq_toList_find?
  rw [List.Nodup, List.pairwise_map] at hkeys
  apply hkeys.imp
  rintro s t hne ⟨hs, ht⟩
  exact hne ((hon s hs).trans (hon t ht).symm)

/-- The same where what refers to a row may be null. -/
theorem filter_unique_some [DecidableEq κ] (hkeys : (table.map key).Nodup) (o : Option κ) :
    table.filter (fun s => o == some (key s)) = (table.find? fun s => o == some (key s)).toList := by
  cases o with
  | none => simp
  | some k => exact filter_unique (k := k) hkeys fun s hs => (Option.some.inj (by simpa using hs)).symm

variable (hone : ∀ r, table.filter (on r) = (table.find? (on r)).toList)
include hone

/-- A left join on a unique key looks the row up. -/
theorem leftJoin_unique (put : α → Option β → γ) (rows : List α) :
    leftJoin on put table rows = rows.map fun r => put r (table.find? (on r)) := by
  induction rows with
  | nil => rfl
  | cons r rows ih =>
      rw [leftJoin, List.flatMap_cons, ← leftJoin, ih, List.map_cons, hone r]
      cases table.find? (on r) with
      | none => rfl
      | some s => rfl

/-- Every row of an inner join comes from one row; with a foreign key no row is lost. -/
theorem innerJoin_foreign (put : α → β → γ) (back : γ → α) (hback : ∀ r s, back (put r s) = r)
    {rows : List α} (hforeign : ∀ r ∈ rows, ∃ s ∈ table, on r s = true) :
    (innerJoin on put table rows).map back = rows := by
  induction rows with
  | nil => rfl
  | cons r rows ih =>
      obtain ⟨s, hs, hon⟩ := hforeign r List.mem_cons_self
      have hfound : table.find? (on r) ≠ none := fun hnone => List.find?_eq_none.1 hnone s hs hon
      obtain ⟨t, ht⟩ := Option.ne_none_iff_exists'.1 hfound
      rw [innerJoin, List.flatMap_cons, ← innerJoin, List.map_append,
        ih fun r' hr' => hforeign r' (List.mem_cons_of_mem _ hr'), hone r, ht]
      simp [hback]

/-- On a unique key no row comes twice. -/
theorem innerJoin_sublist (put : α → β → γ) (back : γ → α) (hback : ∀ r s, back (put r s) = r)
    (rows : List α) : ((innerJoin on put table rows).map back).Sublist rows := by
  induction rows with
  | nil => exact List.Sublist.slnil
  | cons r rows ih =>
      rw [innerJoin, List.flatMap_cons, ← innerJoin, List.map_append, hone r]
      cases table.find? (on r) with
      | none => exact ih.cons r
      | some s => simpa [hback] using ih

/-- An inner join on a unique key drops the rows that refer to nothing. -/
theorem innerJoin_unique (put : α → β → γ) (rows : List α) :
    innerJoin on put table rows = rows.filterMap fun r => (table.find? (on r)).map (put r) := by
  induction rows with
  | nil => rfl
  | cons r rows ih =>
      rw [innerJoin, List.flatMap_cons, ← innerJoin, ih, List.filterMap_cons, hone r]
      cases table.find? (on r) with
      | none => rfl
      | some s => rfl

end Joins

/-! ## Groups -/

section Groups

variable [DecidableEq κ] (key : ρ → κ)

/-- `GROUP BY key`: each key with its rows. -/
def groupBy (rows : List ρ) : List (κ × List ρ) :=
  (rows.map key).dedup.map fun k => (k, rows.filter fun r => key r == k)

variable {key} {rows : List ρ}

theorem mem_groupBy {g : κ × List ρ} :
    g ∈ groupBy key rows ↔ (∃ r ∈ rows, key r = g.1) ∧ g.2 = rows.filter fun r => key r == g.1 := by
  simp only [groupBy, List.mem_map, List.mem_dedup]
  constructor
  · rintro ⟨k, hk, rfl⟩
    exact ⟨hk, rfl⟩
  · rintro ⟨hk, hg⟩
    exact ⟨g.1, hk, by rw [← hg]⟩

theorem exists_group (key : ρ → κ) {r : ρ} (hr : r ∈ rows) : ∃ g ∈ groupBy key rows, g.1 = key r :=
  ⟨(key r, rows.filter fun s => key s == key r), mem_groupBy.2 ⟨⟨r, hr, rfl⟩, rfl⟩, rfl⟩

/-- The rows of a group, by any test for its key. -/
theorem group_eq_filter {g : κ × List ρ} (hg : g ∈ groupBy key rows) {p : ρ → Bool}
    (hp : ∀ r ∈ rows, p r = true ↔ key r = g.1) : g.2 = rows.filter p := by
  rw [(mem_groupBy.1 hg).2]
  apply List.filter_congr
  intro r hr
  rw [Bool.eq_iff_iff, hp r hr, beq_iff_eq]

theorem groupBy_keys_nodup (key : ρ → κ) (rows : List ρ) : ((groupBy key rows).map Prod.fst).Nodup := by
  have hkeys : (groupBy key rows).map Prod.fst = (rows.map key).dedup := by
    simp [groupBy, Function.comp_def]
  rw [hkeys]
  exact List.nodup_dedup _

/-- What is found under a key: its rows, if it has any. -/
theorem find?_groupBy (k : κ) :
    ((groupBy key rows).find? fun g => g.1 == k).elim [] Prod.snd = rows.filter fun r => key r == k := by
  cases hfind : (groupBy key rows).find? fun g => g.1 == k with
  | none =>
      have hnone : ∀ r ∈ rows, ¬ (key r == k) = true := by
        intro r hr hk
        have hgroup := List.find?_eq_none.1 hfind (key r, rows.filter fun s => key s == key r)
          (mem_groupBy.2 ⟨⟨r, hr, rfl⟩, rfl⟩)
        exact hgroup hk
      exact (List.filter_eq_nil_iff.2 hnone).symm
  | some g =>
      have hk : g.1 = k := by simpa using List.find?_some hfind
      rw [← hk]
      exact (mem_groupBy.1 (List.mem_of_find?_eq_some hfind)).2

theorem sum_single [AddCommMonoid M] {ks : List κ} (hks : ks.Nodup) {k : κ} (hk : k ∈ ks) (x : M) :
    (ks.map fun k' => if k = k' then x else 0).sum = x := by
  induction ks with
  | nil => simp at hk
  | cons k' ks ih =>
      have hnodup := List.nodup_cons.1 hks
      rw [List.map_cons, List.sum_cons]
      rcases List.mem_cons.1 hk with rfl | hmem
      · have hzero : ks.map (fun k' => if k = k' then x else 0) = ks.map fun _ => 0 := by
          apply List.map_congr_left
          intro k' hk'
          exact if_neg fun heq : k = k' => hnodup.1 (heq ▸ hk')
        simp [hzero]
      · have hne : k ≠ k' := fun heq => hnodup.1 (heq ▸ hmem)
        rw [if_neg hne, ih hnodup.2 hmem, zero_add]

/-- With a group for every key, a sum over all rows is the sum over the groups. -/
theorem sum_filter_keys [AddCommMonoid M] (a : ρ → M) {ks : List κ} (hks : ks.Nodup)
    (hcover : ∀ r ∈ rows, key r ∈ ks) :
    (ks.map fun k => ((rows.filter fun r => key r == k).map a).sum).sum = (rows.map a).sum := by
  induction rows with
  | nil => simp
  | cons r rows ih =>
      have hstep : ∀ k, (((r :: rows).filter fun s => key s == k).map a).sum =
          (if key r = k then a r else 0) + ((rows.filter fun s => key s == k).map a).sum := by
        intro k
        by_cases hk : key r = k
        · simp [hk]
        · simp [hk]
      simp only [hstep]
      rw [List.sum_map_add, sum_single hks (hcover r List.mem_cons_self), ih fun s hs => hcover s (List.mem_cons_of_mem _ hs), List.map_cons,
        List.sum_cons]

theorem sum_groupBy [AddCommMonoid M] (a : ρ → M) :
    ((groupBy key rows).map fun g => (g.2.map a).sum).sum = (rows.map a).sum := by
  rw [groupBy, List.map_map]
  apply sum_filter_keys a (List.nodup_dedup _)
  exact fun r hr => List.mem_dedup.2 (List.mem_map_of_mem hr)

end Groups

end Transactions
