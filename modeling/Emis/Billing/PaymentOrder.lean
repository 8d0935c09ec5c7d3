import Emis.Billing.PaymentsService
import Emis.Library.Waterfall

/-!
# The payment waterfall

`allocatePayment` pours an amount down the instalments, the oldest due first.
-/

namespace Emis.Billing

open Transactions Waterfall PaymentsService

section Spread

variable {left : ℤ} {rows : List InstallmentRow}

/-- The loop keeps what is poured into each instalment, where that is something. -/
theorem spread_eq (hleft : 0 ≤ left) (hrows : ∀ i ∈ rows, 0 ≤ owed i) :
    (spread left rows).1 = (fill owed left rows).filter (fun p => decide (0 < p.2)) ∧
      (spread left rows).2 = left - ((fill owed left rows).map Prod.snd).sum := by
  induction rows generalizing left with
  | nil => simp [spread, fill]
  | cons i rows ih =>
      have hrest : ∀ j ∈ rows, 0 ≤ owed j := fun j hj => hrows j (List.mem_cons_of_mem _ hj)
      have hi := hrows i List.mem_cons_self
      obtain ⟨htaken, hremainder⟩ := @ih (left - min left (owed i)) (by omega) hrest
      rw [spread, fill, List.filter_cons, List.map_cons, List.sum_cons]
      dsimp only
      by_cases hzero : left = 0
      · subst hzero
        rw [if_pos rfl, min_eq_left hi, sub_zero, fill_zero hrest]
        simp [Function.comp_def]
      · rw [if_neg hzero]
        by_cases htake : 0 < min left (owed i)
        · rw [if_pos htake, if_pos (by simpa using htake)]
          simp only [htaken, hremainder, true_and]
          omega
        · have hnone : min left (owed i) = 0 := by omega
          rw [if_neg htake, if_neg (by simpa using htake)]
          rw [hnone, sub_zero] at htaken hremainder ⊢
          exact ⟨htaken, by rw [hremainder]; omega⟩

end Spread

/-! ## Sorted instalments -/

section Sorted

variable {rows : List InstallmentRow}

theorem byDueDate_total (a b : InstallmentRow) : byDueDate a b ∨ byDueDate b a := by
  unfold byDueDate
  simp only [Day] at *
  omega

theorem byDueDate_trans {a b c : InstallmentRow} (hab : byDueDate a b) (hbc : byDueDate b c) :
    byDueDate a c := by
  unfold byDueDate at *
  simp only [Day] at *
  omega

theorem sorted_pairwise (rows : List InstallmentRow) :
    (rows.insertionSort byDueDate).Pairwise byDueDate := by
  have htotal : Std.Total byDueDate := ⟨byDueDate_total⟩
  have htrans : IsTrans InstallmentRow byDueDate := ⟨fun _ _ _ => byDueDate_trans⟩
  exact List.pairwise_insertionSort _ _

/-- Due earlier, or on the same day with a smaller number. -/
def Earlier (i j : InstallmentRow) : Prop :=
  i.dueDate < j.dueDate ∨ i.dueDate = j.dueDate ∧ i.sequence < j.sequence

theorem Earlier.not_byDueDate {i j : InstallmentRow} (hij : Earlier i j) : ¬ byDueDate j i := by
  unfold Earlier at hij
  unfold byDueDate
  simp only [Day] at *
  omega

/-- With distinct sequences two instalments are never tied. -/
theorem eq_of_byDueDate (hseq : (rows.map InstallmentRow.sequence).Nodup) {a b : InstallmentRow}
    (ha : a ∈ rows) (hb : b ∈ rows) (hab : byDueDate a b) (hba : byDueDate b a) : a = b := by
  apply eq_of_key_eq hseq ha hb
  unfold byDueDate at hab hba
  simp only [Day] at *
  omega

end Sorted

/-- Instalments as the tables have them: nothing is overpaid, an invoice numbers its
instalments, and an id is a primary key. -/
structure Instalments (rows : List InstallmentRow) : Prop where
  range : ∀ i ∈ rows, 0 ≤ i.paidAmount ∧ i.paidAmount ≤ i.amount
  sequences : (rows.map InstallmentRow.sequence).Nodup
  ids : (rows.map InstallmentRow.id).Nodup

namespace Instalments

variable {rows rows' : List InstallmentRow}

theorem owed_nonneg (h : Instalments rows) : ∀ i ∈ rows, 0 ≤ owed i := by
  intro i hi
  have hrange := h.range i hi
  rw [owed]
  omega

theorem of_perm (h : Instalments rows) (hperm : rows'.Perm rows) : Instalments rows' where
  range i hi := h.range i (hperm.subset hi)
  sequences := (hperm.map _).nodup_iff.2 h.sequences
  ids := (hperm.map _).nodup_iff.2 h.ids

end Instalments

/-! ## What reaches each instalment -/

/-- What the loop takes for the instalment with an id. -/
def poured (left : ℤ) (rows : List InstallmentRow) (id : Uuid) : ℤ :=
  put ((spread left rows).1.map fun t => (t.1.id, t.2)) id

section Poured

variable {left : ℤ} {rows : List InstallmentRow}

theorem poured_of_mem (h : Instalments rows) (hleft : 0 ≤ left) {p : InstallmentRow × ℤ}
    (hp : p ∈ fill owed left rows) : poured left rows p.1.id = p.2 := by
  have hids : ((fill owed left rows).map fun t => t.1.id).Nodup := by
    have hrows := h.ids
    rw [← fill_fst owed left rows, List.map_map] at hrows
    exact hrows
  have hkeys : (((fill owed left rows).filter fun p => decide (0 < p.2)).map fun t =>
      (t.1.id, t.2)).map Prod.fst = ((fill owed left rows).filter fun p => decide (0 < p.2)).map fun t =>
        t.1.id := by
    rw [List.map_map]
    rfl
  rw [poured, (spread_eq hleft h.owed_nonneg).1]
  have hrange := fill_range h.owed_nonneg hleft hp
  by_cases hpos : 0 < p.2
  · apply put_of_mem (m := (p.1.id, p.2))
    · rw [hkeys]
      exact (List.filter_sublist.map _).nodup hids
    · exact List.mem_map_of_mem (f := fun t : InstallmentRow × ℤ => (t.1.id, t.2))
        (List.mem_filter.2 ⟨hp, by simpa using hpos⟩)
  · have hzero : p.2 = 0 := by omega
    rw [hzero]
    apply put_of_notMem
    rw [hkeys]
    intro hmem
    obtain ⟨q, hq, hid⟩ := List.mem_map.1 hmem
    obtain ⟨hqmem, hqpos⟩ := List.mem_filter.1 hq
    have hsame : q = p := List.inj_on_of_nodup_map hids hqmem hp hid
    rw [hsame] at hqpos
    exact hpos (by simpa using hqpos)

theorem map_poured (h : Instalments rows) (hleft : 0 ≤ left) :
    rows.map (fun i => poured left rows i.id) = (fill owed left rows).map Prod.snd := by
  have hrows : rows.map (fun i => poured left rows i.id) =
      ((fill owed left rows).map Prod.fst).map fun i => poured left rows i.id := by
    rw [fill_fst]
  rw [hrows, List.map_map]
  exact List.map_congr_left fun p hp => poured_of_mem h hleft hp

theorem exists_fill_poured (h : Instalments rows) (hleft : 0 ≤ left) {i : InstallmentRow}
    (hi : i ∈ rows) : (i, poured left rows i.id) ∈ fill owed left rows := by
  obtain ⟨x, hx⟩ := exists_fill owed hi left
  rw [poured_of_mem h hleft hx]
  exact hx

theorem poured_range (h : Instalments rows) (hleft : 0 ≤ left) {i : InstallmentRow} (hi : i ∈ rows) :
    0 ≤ poured left rows i.id ∧ poured left rows i.id ≤ owed i :=
  fill_range h.owed_nonneg hleft (exists_fill_poured h hleft hi)

/-- Something reaches an instalment only if those before it in the order are full. -/
theorem poured_order (h : Instalments rows) (hleft : 0 ≤ left) {r : InstallmentRow → InstallmentRow → Prop}
    (hsorted : rows.Pairwise r) {i j : InstallmentRow} (hi : i ∈ rows) (hj : j ∈ rows)
    (hij : ¬ r j i) (hne : i ≠ j) (hpos : 0 < poured left rows j.id) :
    poured left rows i.id = owed i := by
  exact full_of_before h.owed_nonneg hleft hsorted (exists_fill_poured h hleft hi)
    (exists_fill_poured h hleft hj) hij hne hpos

end Poured

/-! ## Payments -/

/-- The instalments once a payment is spread over them. -/
def paidIn (rows : List InstallmentRow) (amount : ℤ) : List InstallmentRow :=
  rows.map fun i =>
    addPaid (put ((allocatePayment rows amount).1.map fun a => (a.installmentId, a.amount)) i.id) i

section Payments

variable {rows : List InstallmentRow} {amount : ℤ}

theorem put_allocations (rows : List InstallmentRow) (amount : ℤ) (id : Uuid) :
    put ((allocatePayment rows amount).1.map fun a => (a.installmentId, a.amount)) id =
      poured amount (rows.insertionSort byDueDate) id := by
  rw [allocatePayment, poured, List.map_map]
  rfl

theorem sort_paidIn (rows : List InstallmentRow) (amount : ℤ) :
    (paidIn rows amount).insertionSort byDueDate =
      (rows.insertionSort byDueDate).map fun i =>
        addPaid (put ((allocatePayment rows amount).1.map fun a => (a.installmentId, a.amount)) i.id) i := by
  rw [paidIn]
  symm
  apply List.map_insertionSort
  exact fun _ _ _ _ => Iff.rfl

theorem instalments_paidIn (h : Instalments rows) (hamount : 0 ≤ amount) :
    Instalments (paidIn rows amount) := by
  have hsorted := h.of_perm (List.perm_insertionSort byDueDate rows)
  constructor
  · intro i' hi'
    obtain ⟨i, hi, rfl⟩ := List.mem_map.1 hi'
    have hrange := h.range i hi
    have hpoured := poured_range hsorted hamount ((List.mem_insertionSort byDueDate).2 hi)
    rw [owed] at hpoured
    simp only [put_allocations, addPaid]
    omega
  · rw [paidIn, List.map_map]
    exact h.sequences
  · rw [paidIn, List.map_map]
    exact h.ids

/-- What reaches an instalment in two payments is what reaches it in one of both. -/
theorem poured_add (h : Instalments rows) (hamount : 0 ≤ amount) {b : ℤ} (hb : 0 ≤ b)
    {i : InstallmentRow} (hi : i ∈ rows) :
    poured (amount + b) (rows.insertionSort byDueDate) i.id =
      poured amount (rows.insertionSort byDueDate) i.id +
        poured b ((paidIn rows amount).insertionSort byDueDate) i.id := by
  set sorted := rows.insertionSort byDueDate with hsortedDef
  have hsorted : Instalments sorted := h.of_perm (List.perm_insertionSort _ _)
  set after := (paidIn rows amount).insertionSort byDueDate with hafterDef
  have hafter : Instalments after := (instalments_paidIn h hamount).of_perm (List.perm_insertionSort _ _)
  have hrows : after = (fill owed amount sorted).map fun p => addPaid p.2 p.1 := by
    rw [hafterDef, sort_paidIn, ← hsortedDef]
    conv_lhs => rw [← fill_fst owed amount sorted]
    rw [List.map_map]
    apply List.map_congr_left
    intro p hp
    rw [Function.comp_apply, put_allocations, ← hsortedDef, poured_of_mem hsorted hamount hp]
  have howed : ∀ (i : InstallmentRow) (x : ℤ), owed (addPaid x i) = owed i - x := by
    intro i x
    simp only [owed, addPaid]
    omega
  have hadd := fill_add hsorted.owed_nonneg howed hamount hb
  rw [← hrows, ← map_poured hsorted (by omega), ← map_poured hsorted hamount,
    ← map_poured hafter hb] at hadd
  have hids : after.map (fun i => poured b after i.id) = sorted.map fun i => poured b after i.id := by
    rw [hafterDef, sort_paidIn, List.map_map]
    rfl
  rw [hids, List.zipWith_map_left, List.zipWith_map_right, List.zipWith_self] at hadd
  exact List.map_inj_left.1 hadd i ((List.mem_insertionSort byDueDate).2 hi)

/-- Positive allocations to distinct instalments, the oldest first; with what is
left over they come to the amount; an instalment gets money only once all earlier
ones are paid, and only the last one to get any may be left part-paid. To pay
twice is to pay once. -/
theorem allocatePayment_exact (h : Instalments rows) (hamount : 0 ≤ amount) :
    ((allocatePayment rows amount).1.map Allocation.installmentId).Sublist
        ((rows.insertionSort byDueDate).map InstallmentRow.id) ∧
      ((allocatePayment rows amount).1.map Allocation.installmentId).Nodup ∧
      (∀ a ∈ (allocatePayment rows amount).1, 0 < a.amount) ∧
      ((allocatePayment rows amount).1.map Allocation.amount).sum + (allocatePayment rows amount).2 =
        amount ∧
      (allocatePayment rows amount).2 = max 0 (amount - (rows.map owed).sum) ∧
      (∀ i ∈ rows, ∀ j ∈ rows, Earlier i j → ∀ a ∈ (allocatePayment rows amount).1,
        a.installmentId = j.id → ∀ i' ∈ paidIn rows amount, i'.id = i.id → i'.paidAmount = i'.amount) ∧
      (∀ a ∈ (allocatePayment rows amount).1.dropLast, ∀ i ∈ rows, i.id = a.installmentId →
        a.amount = owed i) ∧
      ∀ b, 0 ≤ b → paidIn (paidIn rows amount) b = paidIn rows (amount + b) := by
  have hsorted := h.of_perm (List.perm_insertionSort byDueDate rows)
  obtain ⟨htaken, hsublist, hsum, -⟩ := @spread_spec amount (rows.insertionSort byDueDate) hamount
  obtain ⟨htake, hrest⟩ := spread_eq hamount hsorted.owed_nonneg
  have hids : (allocatePayment rows amount).1.map Allocation.installmentId =
      ((spread amount (rows.insertionSort byDueDate)).1.map fun t => t.1).map InstallmentRow.id := by
    simp only [allocatePayment, List.map_map]
    rfl
  have hmem : ∀ a ∈ (allocatePayment rows amount).1,
      ∃ t ∈ (spread amount (rows.insertionSort byDueDate)).1, a = ⟨t.1.id, t.2⟩ := by
    intro a ha
    obtain ⟨t, ht, rfl⟩ := List.mem_map.1 ha
    exact ⟨t, ht, rfl⟩
  refine ⟨?_, ?_, ?_, ?_, ?_, ?_, ?_, ?_⟩
  · rw [hids]
    exact hsublist.map _
  · rw [hids]
    exact (hsublist.map _).nodup hsorted.ids
  · intro a ha
    obtain ⟨t, ht, rfl⟩ := hmem a ha
    exact (htaken t ht).2.1
  · simp only [allocatePayment, List.map_map]
    exact hsum
  · have hall := (List.perm_insertionSort byDueDate rows).map owed
    simp only [allocatePayment]
    rw [hrest, fill_sum hsorted.owed_nonneg hamount, hall.sum_eq]
    omega
  · intro i hi j hj hij a ha haj i' hi' hid
    obtain ⟨i₀, hi₀, rfl⟩ := List.mem_map.1 hi'
    obtain rfl : i₀ = i := eq_of_key_eq h.ids hi₀ hi hid
    obtain ⟨t, ht, rfl⟩ := hmem a ha
    obtain ⟨hrow, hpos, -⟩ := htaken t ht
    have hjs := (List.mem_insertionSort byDueDate).2 hj
    obtain rfl : t.1 = j := eq_of_key_eq hsorted.ids hrow hjs haj
    rw [htake] at ht
    have hpoured := poured_of_mem hsorted hamount (List.mem_filter.1 ht).1
    have hne : i₀ ≠ t.1 := by
      rintro rfl
      exact hij.not_byDueDate (by simp [byDueDate])
    have hfull := poured_order hsorted hamount (sorted_pairwise rows)
      ((List.mem_insertionSort byDueDate).2 hi₀) hjs hij.not_byDueDate hne (hpoured ▸ hpos)
    simp only [addPaid, put_allocations, hfull, owed]
    omega
  · intro a ha i hi hid
    rw [allocatePayment, ← List.map_dropLast, htake] at ha
    obtain ⟨t, ht, rfl⟩ := List.mem_map.1 ha
    have htmem := List.mem_filter.1 ((List.dropLast_sublist _).subset ht)
    have hrow := mem_of_mem_fill htmem.1
    obtain rfl : i = t.1 :=
      eq_of_key_eq hsorted.ids ((List.mem_insertionSort byDueDate).2 hi) hrow hid
    exact full_of_dropLast hsorted.owed_nonneg hamount ht
  · intro b hb
    conv_lhs => rw [paidIn]
    conv_lhs => arg 2; rw [paidIn]
    conv_rhs => rw [paidIn]
    rw [List.map_map]
    apply List.map_congr_left
    intro i hi
    have hadd := poured_add h hamount hb hi
    simp only [Function.comp_apply, put_allocations]
    rw [hadd]
    simp only [addPaid, InstallmentRow.mk.injEq, true_and]
    omega

/-- Two instalments due on one day, the first part-paid: 70 and then 40. -/
theorem allocatePayment_exact_sameDay :
    let rows : List InstallmentRow := [⟨2, 9, 2, 20000, 50, 0⟩, ⟨1, 9, 1, 20000, 100, 40⟩]
    (allocatePayment rows 70).1 = [⟨1, 60⟩, ⟨2, 10⟩] ∧
      paidIn (paidIn rows 70) 40 = paidIn rows (70 + 40) := by
  intro rows
  have hrows : Instalments rows := ⟨by decide, by decide, by decide⟩
  obtain ⟨-, -, -, -, -, -, -, htwice⟩ := @allocatePayment_exact rows 70 hrows (by decide)
  exact ⟨by decide, htwice 40 (by decide)⟩

end Payments

end Emis.Billing
