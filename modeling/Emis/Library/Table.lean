import Mathlib.Data.List.Forall2
import Mathlib.Data.List.Nodup
import Mathlib.Data.List.Sort

/-!
# Tables as lists of rows

Rows changed in place, rows found by a key, and two versions of a table compared
row by row.
-/

namespace Transactions

variable {ρ κ : Type}

/-- `UPDATE … SET f WHERE p`. -/
def changeWhere (p : ρ → Bool) (f : ρ → ρ) (rows : List ρ) : List ρ :=
  rows.map fun r => if p r then f r else r

section ChangeWhere

variable {p : ρ → Bool} {f : ρ → ρ} {rows : List ρ}

/-- What an update does not set is what it was. -/
theorem map_changeWhere {key : ρ → κ} (hkey : ∀ r, key (f r) = key r) :
    (changeWhere p f rows).map key = rows.map key := by
  rw [changeWhere, List.map_map]
  refine List.map_congr_left fun r _ => ?_
  by_cases hp : p r <;> simp [hp, hkey]

theorem find?_changeWhere {q : ρ → Bool} (hq : ∀ r, q (f r) = q r) :
    (changeWhere p f rows).find? q = (rows.find? q).map fun r => if p r then f r else r := by
  rw [changeWhere, List.find?_map]
  congr 1
  refine congrArg (fun q => rows.find? q) (funext fun r => ?_)
  by_cases hp : p r <;> simp [hp, hq]

theorem mem_changeWhere {r' : ρ} :
    r' ∈ changeWhere p f rows ↔ ∃ r ∈ rows, (if p r then f r else r) = r' := List.mem_map

theorem filter_changeWhere {q : ρ → Bool} (hq : ∀ r, q (f r) = q r) :
    (changeWhere p f rows).filter q = changeWhere p f (rows.filter q) := by
  rw [changeWhere, List.filter_map]
  refine congrArg (List.map _) (congrArg (fun q => rows.filter q) (funext fun r => ?_))
  by_cases hp : p r <;> simp [hp, hq]

theorem changeWhere_of_forall (hp : ∀ r ∈ rows, p r = false) : changeWhere p f rows = rows := by
  conv_rhs => rw [← List.map_id rows]
  refine List.map_congr_left fun r hr => ?_
  simp [hp r hr]

/-- What is counted after an update, and what no longer is, was counted before or
has come in. -/
theorem countP_changeWhere (p : ρ → Bool) (f : ρ → ρ) (rows : List ρ) (q : ρ → Bool) :
    (changeWhere p f rows).countP q + rows.countP (fun r => p r && q r) =
      rows.countP q + rows.countP fun r => p r && q (f r) := by
  induction rows with
  | nil => rfl
  | cons r rows ih =>
      have hcons : changeWhere p f (r :: rows) = (if p r then f r else r) :: changeWhere p f rows :=
        rfl
      simp only [hcons, List.countP_cons]
      cases hp : p r <;> simp <;> omega

theorem forall₂_changeWhere {R : ρ → ρ → Prop} :
    List.Forall₂ R rows (changeWhere p f rows) ↔ ∀ r ∈ rows, R r (if p r then f r else r) := by
  rw [changeWhere, List.forall₂_map_right_iff, List.forall₂_same]

end ChangeWhere

/-- The row with a key is the only one that has it. -/
theorem eq_of_key_eq {key : ρ → κ} {rows : List ρ} (hkeys : (rows.map key).Nodup) {r r' : ρ}
    (hr : r ∈ rows) (hr' : r' ∈ rows) (h : key r = key r') : r = r' :=
  List.inj_on_of_nodup_map hkeys hr hr' h

/-- Among the rows with its key, a row is counted alone. -/
theorem countP_key {key : ρ → κ} [DecidableEq κ] {rows : List ρ} (hkeys : (rows.map key).Nodup)
    {r : ρ} (hr : r ∈ rows) (q : ρ → Bool) :
    rows.countP (fun s => key s == key r && q s) = if q r then 1 else 0 := by
  induction rows with
  | nil => simp at hr
  | cons s rows ih =>
      have hnodup := List.nodup_cons.1 hkeys
      rw [List.countP_cons]
      rcases List.mem_cons.1 hr with rfl | hmem
      · have hzero : rows.countP (fun s => key s == key r && q s) = 0 := by
          refine List.countP_eq_zero.2 fun s hs hboth => hnodup.1 ?_
          have hkey : key s = key r := by
            simp only [Bool.and_eq_true, beq_iff_eq] at hboth
            exact hboth.1
          exact hkey ▸ List.mem_map_of_mem hs
        simp [hzero]
      · have hne : key s ≠ key r := fun h => hnodup.1 (h ▸ List.mem_map_of_mem hmem)
        simp [hne, ih hnodup.2 hmem]

/-- The rows after the one with a key has been changed. -/
theorem mem_changeKey {key : ρ → κ} [BEq κ] [LawfulBEq κ] {rows : List ρ}
    (hkeys : (rows.map key).Nodup) {r : ρ} (hr : r ∈ rows) {f : ρ → ρ} {r' : ρ} :
    r' ∈ changeWhere (fun s => key s == key r) f rows ↔
      r' ∈ rows ∧ key r' ≠ key r ∨ r' = f r := by
  rw [mem_changeWhere]
  constructor
  · rintro ⟨s, hs, rfl⟩
    by_cases hkey : key s = key r
    · obtain rfl := eq_of_key_eq hkeys hs hr hkey
      right
      simp
    · left
      simpa [hkey] using hs
  · rintro (⟨hr', hkey⟩ | rfl)
    · exact ⟨r', hr', by simp [hkey]⟩
    · exact ⟨r, hr, by simp⟩

/-- After a deletion the row with a key is found if it has been left. -/
theorem find?_filter_key {key : ρ → κ} [BEq κ] [LawfulBEq κ] {rows : List ρ} (hkeys : (rows.map key).Nodup)
    (p : ρ → Bool) (k : κ) :
    (rows.filter p).find? (fun r => key r == k) = (rows.find? fun r => key r == k).filter p := by
  induction rows with
  | nil => rfl
  | cons r rows ih =>
      obtain ⟨hnew, hrest⟩ := List.nodup_cons.1 hkeys
      by_cases hk : key r = k
      · have hnone : (rows.filter p).find? (fun s => key s == k) = none := by
          refine List.find?_eq_none.2 fun s hs hsame => hnew ?_
          have hkey : key s = key r := (beq_iff_eq.1 hsame).trans hk.symm
          exact hkey ▸ List.mem_map_of_mem (List.mem_of_mem_filter hs)
        cases hp : p r <;> simp [hp, hk, hnone, Option.filter]
      · cases hp : p r <;> simp [hp, hk, ih hrest]

theorem nodup_snoc {key : ρ → κ} {rows : List ρ} (hkeys : (rows.map key).Nodup) {r : ρ}
    (hnew : ∀ s ∈ rows, key s ≠ key r) : ((rows ++ [r]).map key).Nodup := by
  rw [List.map_append, List.nodup_append]
  refine ⟨hkeys, List.nodup_singleton _, ?_⟩
  intro x hx y hy
  obtain ⟨s, hs, rfl⟩ := List.mem_map.1 hx
  obtain rfl : y = key r := by simpa using hy
  exact hnew s hs

theorem nodup_eraseDups [BEq ρ] [LawfulBEq ρ] (rows : List ρ) : rows.eraseDups.Nodup := by
  induction hn : rows.length using Nat.strong_induction_on generalizing rows with
  | _ n ih =>
      cases rows with
      | nil => exact List.nodup_nil
      | cons r rows =>
          rw [List.eraseDups_cons, List.nodup_cons]
          refine ⟨by simp [List.mem_eraseDups], ih _ ?_ _ rfl⟩
          rw [← hn]
          exact Nat.lt_succ_of_le (List.length_filter_le _ _)

/-- One row gets a key that no other one has. -/
theorem nodup_changeWhere {κ' : Type} {key : ρ → κ} {other : ρ → κ'} {p : ρ → Bool} {f : ρ → ρ}
    {rows : List ρ} {k : κ} (hother : (rows.map other).Nodup) (hfother : ∀ r, other (f r) = other r)
    (hkeys : (rows.map key).Nodup) (hhit : ∀ r ∈ rows, p r = true → key (f r) = k)
    (hmiss : ∀ r ∈ rows, p r = false → key r ≠ k)
    (hsame : ∀ r ∈ rows, ∀ s ∈ rows, p r = true → p s = true → r = s) :
    ((changeWhere p f rows).map key).Nodup := by
  have hrows : (changeWhere p f rows).Nodup := by
    refine List.Nodup.of_map other ?_
    rw [map_changeWhere hfother]
    exact hother
  refine hrows.map_on fun r' hr' s' hs' hkey => ?_
  obtain ⟨r, hr, rfl⟩ := mem_changeWhere.1 hr'
  obtain ⟨s, hs, rfl⟩ := mem_changeWhere.1 hs'
  cases hpr : p r with
  | true =>
      cases hps : p s with
      | true => rw [hsame r hr s hs hpr hps]
      | false =>
          simp only [hpr, hps, if_true, Bool.false_eq_true, if_false] at hkey
          exact (hmiss s hs hps (hkey.symm.trans (hhit r hr hpr))).elim
  | false =>
      cases hps : p s with
      | true =>
          simp only [hpr, hps, if_true, Bool.false_eq_true, if_false] at hkey
          exact (hmiss r hr hpr (hkey.trans (hhit s hs hps))).elim
      | false =>
          simp only [hpr, hps, Bool.false_eq_true, if_false] at hkey ⊢
          exact eq_of_key_eq hkeys hr hs hkey

/-! ## Tables that grow -/

/-- Every row is kept, moved as `R` allows, and every other row is `New`. -/
structure Evolves (R : ρ → ρ → Prop) (New : ρ → Prop) (rows rows' : List ρ) : Prop where
  kept : ∀ r ∈ rows, ∃ r' ∈ rows', R r r'
  made : ∀ r' ∈ rows', (∃ r ∈ rows, R r r') ∨ New r'

namespace Evolves

variable {R : ρ → ρ → Prop} {New : ρ → Prop} {rows : List ρ}

theorem refl (hR : ∀ r, R r r) : Evolves R New rows rows where
  kept r hr := ⟨r, hr, hR r⟩
  made r hr := .inl ⟨r, hr, hR r⟩

/-- One more row. -/
theorem add {rows' : List ρ} (h : Evolves R New rows rows') {r : ρ} (hr : New r) :
    Evolves R New rows (rows' ++ [r]) where
  kept s hs := by
    obtain ⟨s', hs', hstep⟩ := h.kept s hs
    exact ⟨s', List.mem_append_left _ hs', hstep⟩
  made s hs := by
    rcases List.mem_append.1 hs with hs | hs
    · exact h.made s hs
    · obtain rfl : s = r := by simpa using hs
      exact .inr hr

theorem snoc (hR : ∀ r, R r r) {r : ρ} (hr : New r) : Evolves R New rows (rows ++ [r]) :=
  (refl hR).add hr

theorem trans {rows' rows'' : List ρ} (hR : ∀ {a b c}, R a b → R b c → R a c)
    (hNew : ∀ {a b}, New a → R a b → New b) (h : Evolves R New rows rows') (h' : Evolves R New rows' rows'') :
    Evolves R New rows rows'' where
  kept r hr := by
    obtain ⟨r', hr', hstep⟩ := h.kept r hr
    obtain ⟨r'', hr'', hstep'⟩ := h'.kept r' hr'
    exact ⟨r'', hr'', hR hstep hstep'⟩
  made r'' hr'' := by
    rcases h'.made r'' hr'' with ⟨r', hr', hstep'⟩ | hnew
    · rcases h.made r' hr' with ⟨r, hr, hstep⟩ | hnew
      · exact .inl ⟨r, hr, hR hstep hstep'⟩
      · exact .inr (hNew hnew hstep')
    · exact .inr hnew

theorem changeWhere {p : ρ → Bool} {f : ρ → ρ} (hR : ∀ r, R r r)
    (hf : ∀ r ∈ rows, p r = true → R r (f r)) : Evolves R New rows (changeWhere p f rows) := by
  have hrow : ∀ r ∈ rows, R r (if p r then f r else r) := by
    intro r hr
    split
    · exact hf r hr ‹_›
    · exact hR r
  constructor
  · exact fun r hr => ⟨_, mem_changeWhere.2 ⟨r, hr, rfl⟩, hrow r hr⟩
  · intro r' hr'
    obtain ⟨r, hr, rfl⟩ := mem_changeWhere.1 hr'
    exact .inl ⟨r, hr, hrow r hr⟩

end Evolves

/-! ## Row by row -/

section Rowwise

variable {R : ρ → ρ → Prop} {rows rows' rows'' : List ρ}

theorem rowwise_trans (htrans : ∀ a b c, R a b → R b c → R a c)
    (h : List.Forall₂ R rows rows') (h' : List.Forall₂ R rows' rows'') :
    List.Forall₂ R rows rows'' := by
  induction h generalizing rows'' with
  | nil => cases h'; exact .nil
  | cons hab _ ih =>
      cases h' with
      | cons hbc hrest => exact .cons (htrans _ _ _ hab hbc) (ih hrest)

theorem rowwise_exists {R : ρ → κ → Prop} {rows' : List κ} (h : List.Forall₂ R rows rows') {r : ρ}
    (hr : r ∈ rows) : ∃ r' ∈ rows', R r r' := by
  induction h with
  | nil => simp at hr
  | cons hab _ ih =>
      rcases List.mem_cons.1 hr with rfl | hr
      · exact ⟨_, List.mem_cons_self, hab⟩
      · obtain ⟨r', hr', hrow⟩ := ih hr
        exact ⟨r', List.mem_cons_of_mem _ hr', hrow⟩

theorem Evolves.of_rowwise {New : ρ → Prop} (h : List.Forall₂ R rows rows') :
    Evolves R New rows rows' where
  kept _ hr := rowwise_exists h hr
  made _ hr' := .inl (rowwise_exists h.flip hr')

theorem rowwise_map {key : ρ → κ} (hkey : ∀ r r', R r r' → key r' = key r)
    (h : List.Forall₂ R rows rows') : rows'.map key = rows.map key := by
  induction h with
  | nil => rfl
  | cons hab _ ih => simp [hkey _ _ hab, ih]

/-- Rows that keep what the filter looks at are filtered alike. -/
theorem rowwise_filter {p : ρ → Bool} (hp : ∀ r r', R r r' → p r' = p r)
    (h : List.Forall₂ R rows rows') :
    List.Forall₂ (fun r r' => p r = true ∧ R r r') (rows.filter p) (rows'.filter p) := by
  induction h with
  | nil => exact .nil
  | @cons r r' rows rows' hab _ ih =>
      cases hr : p r with
      | true =>
          have hr' : p r' = true := (hp _ _ hab).trans hr
          simpa only [List.filter_cons, hr, hr', ↓reduceIte] using List.Forall₂.cons ⟨hr, hab⟩ ih
      | false =>
          have hr' : p r' = false := (hp _ _ hab).trans hr
          simpa only [List.filter_cons, hr, hr', Bool.false_eq_true, ↓reduceIte] using ih

/-- What is counted later was counted before. -/
theorem rowwise_countP {p : ρ → Bool} (hp : ∀ r r', R r r' → p r' = true → p r = true)
    (h : List.Forall₂ R rows rows') : rows'.countP p ≤ rows.countP p := by
  induction h with
  | nil => exact Nat.le_refl _
  | @cons r r' rows rows' hab _ ih =>
      rw [List.countP_cons, List.countP_cons]
      have hpr := hp r r' hab
      split <;> split <;> grind

end Rowwise

section Order

variable [LinearOrder κ] {key : ρ → κ}

/-- `ORDER BY key`. -/
def orderBy (key : ρ → κ) (rows : List ρ) : List ρ := rows.insertionSort fun r s => key r ≤ key s

theorem orderBy_perm (key : ρ → κ) (rows : List ρ) : (orderBy key rows).Perm rows :=
  List.perm_insertionSort _ rows

theorem orderBy_sorted (key : ρ → κ) (rows : List ρ) :
    (orderBy key rows).Pairwise fun r s => key r ≤ key s := by
  have htotal : Std.Total fun r s : ρ => key r ≤ key s := ⟨fun r s => le_total _ _⟩
  have htrans : IsTrans ρ fun r s => key r ≤ key s := ⟨fun _ _ _ => le_trans⟩
  exact List.pairwise_insertionSort _ rows

/-- Distinct keys have one order. -/
theorem orderBy_eq {rows sorted : List ρ} (hkeys : (rows.map key).Nodup) (hperm : sorted.Perm rows)
    (hsorted : sorted.Pairwise fun r s => key r ≤ key s) : orderBy key rows = sorted := by
  apply List.Perm.eq_of_pairwise _ (orderBy_sorted key rows) hsorted
    ((orderBy_perm key rows).trans hperm.symm)
  intro r s hr hs hrs hsr
  have hr : r ∈ rows := (orderBy_perm key rows).mem_iff.1 hr
  exact List.inj_on_of_nodup_map hkeys hr (hperm.mem_iff.1 hs) (le_antisymm hrs hsr)

theorem orderBy_of_sorted {rows : List ρ} (h : rows.Pairwise fun r s => key r < key s) :
    orderBy key rows = rows := by
  have hkeys : (rows.map key).Nodup := List.pairwise_map.2 (h.imp fun hlt => hlt.ne)
  exact orderBy_eq hkeys (List.Perm.refl _) (h.imp fun hlt => hlt.le)

theorem orderBy_filter {rows : List ρ} (hkeys : (rows.map key).Nodup) (p : ρ → Bool) :
    orderBy key (rows.filter p) = (orderBy key rows).filter p := by
  apply orderBy_eq (hkeys.sublist (List.filter_sublist.map key)) ((orderBy_perm key rows).filter p)
  exact (orderBy_sorted key rows).sublist List.filter_sublist

/-- The rows behind a key, in their order. -/
def behind (key : ρ → κ) (k : κ) (rows : List ρ) : List ρ :=
  orderBy key (rows.filter fun r => k < key r)

/-- What is behind the last row of a batch is the rest. -/
theorem behind_of_append {rows batch rest : List ρ} {k : κ} {r : ρ} (hkeys : (rows.map key).Nodup)
    (h : behind key k rows = batch ++ r :: rest) : behind key (key r) rows = rest := by
  have hbehind : ∀ k, behind key k rows = (orderBy key rows).filter fun r => k < key r :=
    fun k => orderBy_filter hkeys _
  have hstrict : (batch ++ r :: rest).Pairwise fun r s => key r < key s := by
    have hle := orderBy_sorted key (rows.filter fun r => k < key r)
    have hne : ((orderBy key (rows.filter fun r => k < key r)).map key).Nodup :=
      ((orderBy_perm key _).map key).nodup_iff.2 (hkeys.sublist (List.filter_sublist.map key))
    rw [← h]
    exact (hle.and (List.pairwise_map.1 hne)).imp fun hrs => lt_of_le_of_ne hrs.1 hrs.2
  have hk : k < key r := by
    have hmem : r ∈ behind key k rows := by simp [h]
    rw [hbehind, List.mem_filter] at hmem
    simpa using hmem.2
  have hcut : behind key (key r) rows = (behind key k rows).filter fun s => key r < key s := by
    rw [hbehind, hbehind, List.filter_filter]
    apply List.filter_congr
    intro s _
    by_cases hs : key r < key s
    · simp [hs, hk.trans hs]
    · simp [hs]
  obtain ⟨-, hrest, hbatch⟩ := List.pairwise_append.1 hstrict
  rw [hcut, h, List.filter_append, List.filter_cons, List.filter_eq_nil_iff.2, List.filter_eq_self.2]
  · simp
  · intro s hs
    simpa using (List.pairwise_cons.1 hrest).1 s hs
  · intro s hs
    simpa using (hbatch s hs r (by simp)).le

end Order

end Transactions
