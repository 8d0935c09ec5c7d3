import Emis.Billing.Balanced
import Emis.Billing.PaymentOrder
import Mathlib.Data.Rat.Floor

/-!
# A discount, latest due first
-/

namespace Emis.Billing

open Transactions Waterfall

/-- The instalments once the changes are written. -/
def cutDown (rows : List InstallmentRow) (cuts : List Cut) : List InstallmentRow :=
  rows.map fun i =>
    match cuts.find? fun c => c.installmentId == i.id with
    | some c => InvoicesService.setAmount c.newAmount i
    | none => i

section Cuts

variable {rows : List InstallmentRow} {amount : ℤ}

theorem perm_latest (rows : List InstallmentRow) :
    (rows.insertionSort byDueDate).reverse.Perm rows :=
  (List.reverse_perm _).trans (List.perm_insertionSort _ _)

theorem sum_owed_latest (rows : List InstallmentRow) :
    ((rows.insertionSort byDueDate).reverse.map owed).sum = (rows.map owed).sum :=
  ((perm_latest rows).map owed).sum_eq

theorem throws_iff (hrows : ∀ i ∈ rows, 0 ≤ owed i) (hamount : 0 ≤ amount) :
    (∃ e, Billing.applyDiscount rows amount = .error e) ↔ (rows.map owed).sum < amount := by
  have hlatest : ∀ i ∈ (rows.insertionSort byDueDate).reverse, 0 ≤ owed i :=
    fun i hi => hrows i ((perm_latest rows).subset hi)
  have hleft := (spread_eq hamount hlatest).2
  rw [fill_sum hlatest hamount, sum_owed_latest] at hleft
  rw [Billing.applyDiscount]
  dsimp only
  constructor
  · rintro ⟨e, he⟩
    split at he
    · omega
    · cases he
  · intro hmore
    rw [if_pos (by omega)]
    exact ⟨_, rfl⟩

/-- The change written for an instalment is what is poured off it, latest first. -/
theorem cutDown_eq (h : Instalments rows) (hamount : 0 ≤ amount) {cuts : List Cut}
    (hcuts : Billing.applyDiscount rows amount = .ok cuts) :
    cutDown rows cuts = rows.map fun i =>
      InvoicesService.setAmount
        (i.amount - poured amount (rows.insertionSort byDueDate).reverse i.id) i := by
  obtain ⟨-, rfl⟩ := applyDiscount_ok hcuts
  have hlatest := h.of_perm (perm_latest rows)
  set latest := (rows.insertionSort byDueDate).reverse with hlatestDef
  obtain ⟨htake, -⟩ := spread_eq hamount hlatest.owed_nonneg
  apply List.map_congr_left
  intro i hi
  have hilatest : i ∈ latest := (perm_latest rows).symm.subset hi
  split
  · rename_i c hfind
    obtain ⟨t, ht, rfl⟩ := List.mem_map.1 (List.mem_of_find?_eq_some hfind)
    have hid : t.1.id = i.id := by simpa using List.find?_some hfind
    rw [htake] at ht
    have htmem := (List.mem_filter.1 ht).1
    have hsame : t.1 = i := eq_of_key_eq hlatest.ids (mem_of_mem_fill htmem) hilatest hid
    have hpoured := poured_of_mem hlatest hamount htmem
    rw [hid] at hpoured
    rw [hpoured, hsame]
  · rename_i hnone
    have hzero : poured amount latest i.id = 0 := by
      apply put_of_notMem
      intro hmem
      rw [List.map_map] at hmem
      obtain ⟨t, ht, hid⟩ := List.mem_map.1 hmem
      have hne := List.find?_eq_none.1 hnone _ (List.mem_map_of_mem ht)
      exact hne (by simpa using hid)
    rw [hzero, sub_zero]
    rfl

theorem sum_cutDown (h : Instalments rows) (hamount : 0 ≤ amount) {cuts : List Cut}
    (hcuts : Billing.applyDiscount rows amount = .ok cuts) :
    ((cutDown rows cuts).map InstallmentRow.amount).sum =
      (rows.map InstallmentRow.amount).sum - amount := by
  have hlatest := h.of_perm (perm_latest rows)
  have hcovered : amount ≤ (rows.map owed).sum := by
    by_contra hmore
    obtain ⟨e, he⟩ := (throws_iff h.owed_nonneg hamount).2 (by omega)
    rw [hcuts] at he
    cases he
  have hpoured : (rows.map fun i => poured amount (rows.insertionSort byDueDate).reverse i.id).sum =
      amount := by
    have hsum := ((perm_latest rows).map fun i =>
      poured amount (rows.insertionSort byDueDate).reverse i.id).sum_eq
    rw [← hsum, map_poured hlatest hamount, fill_sum hlatest.owed_nonneg hamount, sum_owed_latest]
    omega
  have hadd := List.sum_map_add (l := rows)
    (f := fun i => i.amount - poured amount (rows.insertionSort byDueDate).reverse i.id)
    (g := fun i => poured amount (rows.insertionSort byDueDate).reverse i.id)
  simp only [sub_add_cancel] at hadd
  change (rows.map InstallmentRow.amount).sum = _ at hadd
  rw [cutDown_eq h hamount hcuts, List.map_map]
  change (rows.map fun i =>
    i.amount - poured amount (rows.insertionSort byDueDate).reverse i.id).sum = _
  omega

end Cuts

/-! ## On an invoice -/

/-- What `applyDiscount` throws. -/
def tooLarge : Error := .internal "Discount is larger than what is unpaid"

section Invoice

variable {d : Db}

theorem instalments_installmentsOf (h : Ledgers d) (id : Uuid) :
    (∀ i ∈ d.installmentsOf id, 0 ≤ owed i) ∧
      ((d.installmentsOf id).map owed).sum = d.amountOf id - d.paidOf id := by
  have hperm : (d.installmentsOf id).Perm (d.installments.filter fun r => r.invoiceId == id) :=
    List.perm_insertionSort _ _
  constructor
  · intro i hi
    have hrange := h.range i (mem_installmentsOf.1 hi).1
    rw [owed]
    omega
  · have hadd : ((d.installmentsOf id).map InstallmentRow.amount).sum =
        ((d.installmentsOf id).map owed).sum +
          ((d.installmentsOf id).map InstallmentRow.paidAmount).sum := by
      rw [← List.sum_map_add]
      simp only [owed, sub_add_cancel]
    rw [(hperm.map InstallmentRow.amount).sum_eq, (hperm.map InstallmentRow.paidAmount).sum_eq] at hadd
    rw [Db.amountOf, Db.paidOf, total, total]
    omega

theorem wlp_forM_any {E : Error → Prop} {α : Type} {c : α → Tx PUnit} (xs : List α)
    (hc : ∀ a v, (c a).wlp (fun _ _ => True) E v) (v : Db) :
    (xs.forM c).wlp (fun _ _ => True) E v := by
  induction xs generalizing v with
  | nil => trivial
  | cons x xs ih =>
      rw [Prog.wlp_forM_cons]
      exact Prog.wlp_mono (fun _ v _ => ih v) (fun _ he => he) (hc x v)

theorem not_tooLarge (h : Books d) (env : Env) (invoiceId : Uuid) (discount : ApprovedDiscount) :
    (InvoicesService.applyDiscount env invoiceId discount).wlp (fun _ _ => True) (· ≠ tooLarge) d := by
  simp only [InvoicesService.applyDiscount, InvoicesService.lock, InvoicesService.installmentsOf,
    Prog.wlp_bind, Prog.wlp_expect, Prog.wlp_require, Prog.wlp_acquire, Prog.wlp_get, Prog.wlp_pure,
    Prog.wlp_ofExcept]
  refine ⟨fun invoice hinvoice => ⟨fun _ => ⟨fun hamount => ⟨fun hbound => ⟨fun cuts hcuts => ?_,
    fun e he => ?_⟩, fun _ h => by cases h⟩, fun _ h => by cases h⟩, fun _ h => by cases h⟩, fun _ h => by cases h⟩
  · have hcuts : ∀ (c : Cut) (v : Db), (updateInstallment c.installmentId
        (InvoicesService.setAmount c.newAmount)).wlp (fun _ _ => True) (· ≠ tooLarge) v := by
      intro c v
      simp [updateInstallment, tooLarge]
    apply Prog.wlp_mono _ (fun _ he => he) (wlp_forM_any cuts hcuts d)
    intro _ v _
    simp only [insertDiscount, InvoicesService.settle, InvoicesService.row, updateInvoice,
      InvoicesService.installmentsOf, Prog.wlp_bind, Prog.wlp_acquire, Prog.wlp_get, wlp_enforce,
      Prog.wlp_require, Prog.wlp_modify, Prog.wlp_expect, Prog.wlp_pure]
    exact ⟨fun _ => ⟨fun _ => ⟨fun _ _ => ⟨fun _ => ⟨fun _ _ => trivial, fun _ h => by cases h⟩,
      fun _ _ h => by cases h⟩, fun _ h => by cases h⟩, fun _ h => by cases h⟩, fun _ _ h => by cases h⟩
  · exfalso
    obtain ⟨himem, rfl⟩ := mem_of_invoice? hinvoice
    obtain ⟨howed, hsum⟩ := instalments_installmentsOf h.toLedgers invoice.id
    have hsettled := h.settled invoice himem
    have hamount : 0 ≤ discountAmount discount.kind discount.value invoice.total := by
      have hpos := of_decide_eq_true hamount
      omega
    have hmore := (throws_iff howed hamount).1 ⟨e, he⟩
    have hbound := of_decide_eq_true hbound
    rw [hsum, ← hsettled.total, ← hsettled.paidTotal] at hmore
    omega

theorem percent_floor {value total : ℤ} (hvalue : 0 ≤ value) (htotal : 0 ≤ total) :
    discountAmount .percent value total = ⌊((total * value : ℤ) : ℚ) / 10000⌋ := by
  rw [discountAmount, Int.tdiv_eq_ediv_of_nonneg (Int.mul_nonneg htotal hvalue)]
  exact (Rat.floor_intCast_div_natCast _ 10000).symm

/-- Up to the whole it is no more than the total, so that as a number it is exact. -/
theorem percent_le {value total : ℤ} (hvalue : 0 ≤ value) (hwhole : value ≤ 10000) (htotal : 0 ≤ total) :
    discountAmount .percent value total ≤ total := by
  have hprod : total * value ≤ total * 10000 := Int.mul_le_mul_of_nonneg_left hwhole htotal
  rw [discountAmount, Int.tdiv_eq_ediv_of_nonneg (Int.mul_nonneg htotal hvalue)]
  omega

/-- A discount is refused when it is more than what is owed, and else comes off
exactly, the latest instalment first, with what is paid left alone; a percentage is
rounded down; and what the service lets through is never refused. -/
theorem applyDiscount_exact {rows : List InstallmentRow} {amount value total : ℤ}
    (hrows : Instalments rows) (hamount : 0 ≤ amount) (hvalue : 0 ≤ value) (htotal : 0 ≤ total)
    (hstart : NoBills d) (calls : List Call) (env : Env) (invoiceId : Uuid)
    (discount : ApprovedDiscount) :
    ((∃ e, Billing.applyDiscount rows amount = .error e) ↔ (rows.map owed).sum < amount) ∧
      (∀ cuts, Billing.applyDiscount rows amount = .ok cuts →
        ((cutDown rows cuts).map InstallmentRow.amount).sum =
            (rows.map InstallmentRow.amount).sum - amount ∧
          (∀ i ∈ rows, ∀ i' ∈ cutDown rows cuts, i'.id = i.id →
            i.paidAmount ≤ i'.amount ∧ i'.amount ≤ i.amount) ∧
          ∀ i ∈ rows, ∀ j ∈ rows, Earlier i j → ∀ i' ∈ cutDown rows cuts, ∀ j' ∈ cutDown rows cuts,
            i'.id = i.id → j'.id = j.id → i'.amount < i.amount → j'.amount = j.paidAmount) ∧
      discountAmount .percent value total = ⌊((total * value : ℤ) : ℚ) / 10000⌋ ∧
      (value ≤ 10000 → discountAmount .percent value total ≤ total) ∧
      ((InvoicesService.applyDiscount env invoiceId discount).alone (afterAll d calls)).1 ≠
          .error tooLarge ∧
        ∀ i ∈ ((InvoicesService.applyDiscount env invoiceId discount).alone
          (afterAll d calls)).2.installments, i.paidAmount ≤ i.amount := by
  have hbooks := hstart.books.afterAll calls
  refine ⟨throws_iff hrows.owed_nonneg hamount, fun cuts hcuts => ?_, percent_floor hvalue htotal,
    fun hwhole => percent_le hvalue hwhole htotal, ?_, ?_⟩
  · have hlatest := hrows.of_perm (perm_latest rows)
    have hmem : ∀ i ∈ rows, i ∈ (rows.insertionSort byDueDate).reverse :=
      fun i hi => (perm_latest rows).symm.subset hi
    have hcut : ∀ i ∈ rows, ∀ i' ∈ cutDown rows cuts, i'.id = i.id →
        i'.amount = i.amount - poured amount (rows.insertionSort byDueDate).reverse i.id := by
      intro i hi i' hi' hid
      rw [cutDown_eq hrows hamount hcuts] at hi'
      obtain ⟨i₀, hi₀, rfl⟩ := List.mem_map.1 hi'
      obtain rfl : i₀ = i := eq_of_key_eq hrows.ids hi₀ hi hid
      rfl
    refine ⟨sum_cutDown hrows hamount hcuts, fun i hi i' hi' hid => ?_,
      fun i hi j hj hij i' hi' j' hj' hid hjd hless => ?_⟩
    · have hpoured := poured_range hlatest hamount (hmem i hi)
      rw [owed] at hpoured
      rw [hcut i hi i' hi' hid]
      omega
    · rw [hcut i hi i' hi' hid] at hless
      have hne : j ≠ i := by
        rintro rfl
        exact hij.not_byDueDate (by simp [byDueDate])
      have hlater : (rows.insertionSort byDueDate).reverse.Pairwise fun a b => byDueDate b a :=
        List.pairwise_reverse.2 (sorted_pairwise rows)
      have hfull := poured_order hlatest hamount hlater (hmem j hj) (hmem i hi) hij.not_byDueDate hne
        (by omega)
      rw [hcut j hj j' hj' hjd, hfull, owed]
      omega
  · rcases Prog.alone_cases (not_tooLarge hbooks env invoiceId discount) with ⟨a, d', hrun, -⟩ |
      ⟨e, hrun, he⟩
    · rw [hrun]
      exact fun h => by cases h
    · rw [hrun]
      exact fun heq => he (Except.error.inj heq)
  · rcases Prog.alone_cases (wlp_applyDiscount hbooks env invoiceId discount) with
      ⟨a, d', hrun, hd', -⟩ | ⟨e, hrun, -⟩
    · rw [hrun]
      exact fun i hi => (hd'.range i hi).2
    · rw [hrun]
      exact fun i hi => (hbooks.range i hi).2

end Invoice

/-- 25 off three instalments, and 40 % of what is left at the office. -/
theorem applyDiscount_exact_office :
    let rows : List InstallmentRow :=
      [⟨1, 9, 1, 20000, 50, 50⟩, ⟨2, 9, 2, 20030, 30, 10⟩, ⟨3, 9, 3, 20060, 20, 0⟩]
    Billing.applyDiscount rows 25 = .ok [⟨3, 0⟩, ⟨2, 25⟩] ∧
      ((InvoicesService.applyDiscount (idsFrom 50) 10 ⟨.percent, 4000, "sibling", 30⟩).alone
        (afterAll office [bill, pay])).1 ≠ .error tooLarge ∧
      ((InvoicesService.applyDiscount (idsFrom 50) 10 ⟨.percent, 4000, "sibling", 30⟩).alone
        (afterAll office [bill, pay])).2.installments.map (fun i => (i.amount, i.paidAmount)) =
          [(50000, 50000), (10000, 10000)] := by
  intro rows
  have hrows : Instalments rows := ⟨by decide, by decide, by decide⟩
  have hstart : NoBills office := ⟨rfl, rfl, rfl, rfl, rfl, rfl, rfl⟩
  obtain ⟨-, -, -, -, hrefused, -⟩ := @applyDiscount_exact office rows 25 4000 100000 hrows (by decide)
    (by decide) (by decide) hstart [bill, pay] (idsFrom 50) 10 ⟨.percent, 4000, "sibling", 30⟩
  exact ⟨by decide +kernel, hrefused, by decide +kernel⟩

end Emis.Billing
