import Emis.Billing.ApprovalsService

/-!
# Books that balance

What the tables say about one invoice, one instalment and one payment, and how
issuing, paying, reversing and discounting change it.
-/

namespace Emis.Billing

open Transactions

namespace Db

variable (d : Db)

def amountOf (invoiceId : Uuid) : ℤ :=
  total (fun r => r.invoiceId == invoiceId) InstallmentRow.amount d.installments

def paidOf (invoiceId : Uuid) : ℤ :=
  total (fun r => r.invoiceId == invoiceId) InstallmentRow.paidAmount d.installments

def discountOf (invoiceId : Uuid) : ℤ :=
  total (fun r => r.invoiceId == invoiceId) DiscountRow.amount d.discounts

def posted (paymentId : Uuid) : Bool :=
  d.payments.any fun p => p.id == paymentId && p.status == .posted

/-- What payments that are still posted put on an instalment. -/
def given (installmentId : Uuid) : ℤ :=
  total (fun a => a.installmentId == installmentId && d.posted a.paymentId) AllocationRow.amount
    d.paymentAllocations

def allocated (paymentId : Uuid) : ℤ :=
  total (fun a => a.paymentId == paymentId) AllocationRow.amount d.paymentAllocations

end Db

/-- Everything but the totals written on the invoices, and the receipts. -/
structure Ledgers (d : Db) : Prop where
  invoiceIds : (d.invoices.map InvoiceRow.id).Nodup
  installmentIds : (d.installments.map InstallmentRow.id).Nodup
  paymentIds : (d.payments.map PaymentRow.id).Nodup
  installmentOf : ∀ p ∈ d.installments, ∃ i ∈ d.invoices, i.id = p.invoiceId
  discountOf : ∀ x ∈ d.discounts, 0 < x.amount ∧ ∃ i ∈ d.invoices, i.id = x.invoiceId
  allocationOf : ∀ a ∈ d.paymentAllocations, 0 < a.amount ∧
    ∃ p ∈ d.payments, p.id = a.paymentId ∧
      ∃ q ∈ d.installments, q.id = a.installmentId ∧ q.invoiceId = p.invoiceId
  split : ∀ i ∈ d.invoices, 0 < i.subtotal ∧ i.subtotal = d.amountOf i.id + d.discountOf i.id
  range : ∀ p ∈ d.installments, 0 ≤ p.paidAmount ∧ p.paidAmount ≤ p.amount
  paid : ∀ p ∈ d.installments, p.paidAmount = d.given p.id
  allocated : ∀ p ∈ d.payments, 0 < p.amount ∧ d.allocated p.id = p.amount

/-- The totals on an invoice are those of its instalments. -/
structure Settled (d : Db) (i : InvoiceRow) : Prop where
  total : i.total = d.amountOf i.id
  paidTotal : i.paidTotal = d.paidOf i.id
  discountTotal : i.discountTotal = i.subtotal - i.total
  status : i.status = invoiceStatusFor i.total i.paidTotal

/-- A payment has one receipt, void with it. -/
def Receipted (d : Db) (p : PaymentRow) : Prop :=
  ∃ r, d.receipts.filter (fun r => r.paymentId == p.id) = [r] ∧
    (r.status = .void ↔ p.status = .void)

structure Books (d : Db) : Prop extends Ledgers d where
  approvalIds : (d.approvalRequests.map ApprovalRow.id).Nodup
  settled : ∀ i ∈ d.invoices, Settled d i
  receipted : ∀ p ∈ d.payments, Receipted d p

section Facts

variable {d : Db}

theorem amountOf_nonneg (h : Ledgers d) (i : Uuid) : 0 ≤ d.amountOf i := by
  apply total_nonneg
  intro p hp _
  have hrange := h.range p hp
  omega

theorem paidOf_nonneg (h : Ledgers d) (i : Uuid) : 0 ≤ d.paidOf i :=
  total_nonneg fun p hp _ => (h.range p hp).1

theorem paidOf_le (h : Ledgers d) (i : Uuid) : d.paidOf i ≤ d.amountOf i :=
  total_le fun p hp _ => (h.range p hp).2

theorem discountOf_nonneg (h : Ledgers d) (i : Uuid) : 0 ≤ d.discountOf i :=
  total_nonneg fun x hx _ => (h.discountOf x hx).1.le

theorem posted_of_mem (h : Ledgers d) {p : PaymentRow} (hp : p ∈ d.payments) :
    d.posted p.id = (p.status == .posted) := by
  rw [Db.posted, Bool.eq_iff_iff, List.any_eq_true]
  constructor
  · rintro ⟨q, hq, hboth⟩
    simp only [Bool.and_eq_true, beq_iff_eq] at hboth
    have hqp : q = p := eq_of_key_eq h.paymentIds hq hp hboth.1
    simpa [hqp] using hboth.2
  · intro hstatus
    exact ⟨p, hp, by simpa using hstatus⟩

theorem invoice?_of_mem (h : Ledgers d) {i : InvoiceRow} (hi : i ∈ d.invoices) :
    d.invoice? i.id = some i := by
  cases hfind : d.invoice? i.id with
  | none =>
      have hne := List.find?_eq_none.1 hfind i hi
      simp at hne
  | some j =>
      have hid : j.id = i.id := by simpa using List.find?_some hfind
      rw [eq_of_key_eq h.invoiceIds (List.mem_of_find?_eq_some hfind) hi hid]

theorem mem_of_invoice? {id : Uuid} {i : InvoiceRow} (h : d.invoice? id = some i) :
    i ∈ d.invoices ∧ i.id = id :=
  ⟨List.mem_of_find?_eq_some h, by simpa using List.find?_some h⟩

theorem mem_of_payment? {id : Uuid} {p : PaymentRow} (h : d.payment? id = some p) :
    p ∈ d.payments ∧ p.id = id :=
  ⟨List.mem_of_find?_eq_some h, by simpa using List.find?_some h⟩

theorem sum_installmentsOf (d : Db) (i : Uuid) (f : InstallmentRow → ℤ) :
    ((d.installmentsOf i).map f).sum = total (fun r => r.invoiceId == i) f d.installments := by
  have hperm : (d.installmentsOf i).Perm (d.installments.filter fun r => r.invoiceId == i) :=
    List.perm_insertionSort _ _
  exact (hperm.map f).sum_eq

theorem mem_installmentsOf {i : Uuid} {p : InstallmentRow} :
    p ∈ d.installmentsOf i ↔ p ∈ d.installments ∧ p.invoiceId = i := by
  simp [Db.installmentsOf, List.mem_insertionSort]

theorem nodup_installmentsOf (h : Ledgers d) (i : Uuid) :
    ((d.installmentsOf i).map InstallmentRow.id).Nodup := by
  have hperm : (d.installmentsOf i).Perm (d.installments.filter fun r => r.invoiceId == i) :=
    List.perm_insertionSort _ _
  refine (hperm.map _).nodup_iff.2 ?_
  exact (List.filter_sublist.map _).nodup h.installmentIds

end Facts

/-- What the ledgers do not look at. -/
theorem Ledgers.frame {d d' : Db} (h : Ledgers d) (hinvoices : d'.invoices = d.invoices)
    (hinstallments : d'.installments = d.installments) (hpayments : d'.payments = d.payments)
    (hallocations : d'.paymentAllocations = d.paymentAllocations)
    (hdiscounts : d'.discounts = d.discounts) : Ledgers d' := by
  obtain ⟨_, _, _, _, _, _, _, _, _, _, _, _, _, _⟩ := d
  obtain ⟨_, _, _, _, _, _, _, _, _, _, _, _, _, _⟩ := d'
  simp only at hinvoices hinstallments hpayments hallocations hdiscounts
  subst hinvoices hinstallments hpayments hallocations hdiscounts
  exact ⟨h.1, h.2, h.3, h.4, h.5, h.6, h.7, h.8, h.9, h.10⟩

theorem Settled.of_sums {d d' : Db} {i : InvoiceRow} (h : Settled d i)
    (hamount : d'.amountOf i.id = d.amountOf i.id) (hpaid : d'.paidOf i.id = d.paidOf i.id) :
    Settled d' i :=
  ⟨h.total.trans hamount.symm, h.paidTotal.trans hpaid.symm, h.discountTotal, h.status⟩

theorem Settled.not_void {d : Db} {i : InvoiceRow} (h : Settled d i) : i.status ≠ .void := by
  rw [h.status, invoiceStatusFor]
  split
  · simp
  · split
    · simp
    · simp

/-! ## Settling -/

namespace InvoicesService

/-- The store after `settle`. -/
def settleIn (before : InvoiceRow) (d : Db) : Db :=
  { d with
    invoices := changeWhere (fun r => r.id == before.id)
      (settledRow before (d.installmentsOf before.id)) d.invoices }

end InvoicesService

open InvoicesService

section Settle

variable {d : Db} {before : InvoiceRow}

theorem checkInvoice_settled (h : Ledgers d) (hbefore : before ∈ d.invoices) :
    checkInvoice (settledRow before (d.installmentsOf before.id) before) = none := by
  have hsplit := h.split before hbefore
  have hamount := amountOf_nonneg h before.id
  have hpaid := paidOf_nonneg h before.id
  have hle := paidOf_le h before.id
  have hdiscount := discountOf_nonneg h before.id
  have htotal : (settledRow before (d.installmentsOf before.id) before).total =
      d.amountOf before.id := sum_installmentsOf d _ _
  have hpaidTotal : (settledRow before (d.installmentsOf before.id) before).paidTotal =
      d.paidOf before.id := sum_installmentsOf d _ _
  have hdiscountTotal : (settledRow before (d.installmentsOf before.id) before).discountTotal =
      before.subtotal - d.amountOf before.id :=
    congrArg (before.subtotal - ·) (sum_installmentsOf d _ _)
  have hsubtotal : (settledRow before (d.installmentsOf before.id) before).subtotal =
      before.subtotal := rfl
  simp only [checkInvoice, htotal, hpaidTotal, hdiscountTotal, hsubtotal]
  rw [if_neg (by omega), if_neg (by omega), if_neg (by omega)]

theorem mem_settleIn (h : Ledgers d) (hbefore : before ∈ d.invoices) {j : InvoiceRow}
    (hj : j ∈ (settleIn before d).invoices) :
    j ∈ d.invoices ∧ j.id ≠ before.id ∨
      j = settledRow before (d.installmentsOf before.id) before := by
  obtain ⟨r, hr, rfl⟩ := mem_changeWhere.1 hj
  by_cases hid : r.id = before.id
  · have hrb : r = before := eq_of_key_eq h.invoiceIds hr hbefore hid
    right
    simp [hrb]
  · left
    simp [hid, hr]

theorem Ledgers.settle (h : Ledgers d) : Ledgers (settleIn before d) := by
  have hids : ((settleIn before d).invoices.map InvoiceRow.id) = d.invoices.map InvoiceRow.id :=
    map_changeWhere fun _ => rfl
  have hkeep : ∀ x, (∃ i ∈ d.invoices, i.id = x) → ∃ i ∈ (settleIn before d).invoices, i.id = x := by
    rintro x ⟨i, hi, rfl⟩
    have hmem : i.id ∈ (settleIn before d).invoices.map InvoiceRow.id := by
      rw [hids]
      exact List.mem_map_of_mem hi
    exact List.mem_map.1 hmem
  refine { h with
    invoiceIds := by rw [hids]; exact h.invoiceIds
    installmentOf := fun p hp => hkeep _ (h.installmentOf p hp)
    discountOf := fun x hx => ⟨(h.discountOf x hx).1, hkeep _ (h.discountOf x hx).2⟩
    split := fun i hi => ?_ }
  obtain ⟨r, hr, rfl⟩ := mem_changeWhere.1 hi
  by_cases hid : r.id = before.id
  · rw [if_pos (by simpa using hid)]
    exact h.split r hr
  · rw [if_neg (by simpa using hid)]
    exact h.split r hr

/-- After settling one invoice all are settled, if the others were. -/
theorem settled_settleIn (h : Ledgers d) (hbefore : before ∈ d.invoices)
    (hopen : before.status ≠ .void)
    (hothers : ∀ j ∈ d.invoices, j.id ≠ before.id → Settled d j) :
    ∀ j ∈ (settleIn before d).invoices, Settled (settleIn before d) j := by
  intro j hj
  rcases mem_settleIn h hbefore hj with ⟨hmem, hne⟩ | rfl
  · exact ⟨(hothers j hmem hne).total, (hothers j hmem hne).paidTotal,
      (hothers j hmem hne).discountTotal, (hothers j hmem hne).status⟩
  · have htotal := sum_installmentsOf d before.id InstallmentRow.amount
    have hpaid := sum_installmentsOf d before.id InstallmentRow.paidAmount
    exact ⟨htotal, hpaid, rfl, if_neg hopen⟩

end Settle

/-! ## Moving money on the instalments -/

/-- The paid amounts after an amount is put on each key. -/
def payIn (moves : List (Uuid × ℤ)) (d : Db) : Db :=
  { d with
    installments := d.installments.map fun r => PaymentsService.addPaid (put moves r.id) r }

/-- The amounts after a cut is taken off each key. -/
def cutIn (moves : List (Uuid × ℤ)) (d : Db) : Db :=
  { d with
    installments := d.installments.map fun r => { r with amount := r.amount - put moves r.id } }

/-- All amounts go to instalments of one invoice. -/
def MovesOn (d : Db) (invoiceId : Uuid) (moves : List (Uuid × ℤ)) : Prop :=
  ∀ m ∈ moves, ∃ q ∈ d.installments, q.invoiceId = invoiceId ∧ q.id = m.1

section Moves

variable {d : Db} {i : Uuid} {moves : List (Uuid × ℤ)}

theorem put_of_otherInvoice (h : Ledgers d) (hmoves : MovesOn d i moves) {q : InstallmentRow}
    (hq : q ∈ d.installments) (hother : q.invoiceId ≠ i) : put moves q.id = 0 := by
  apply put_of_notMem
  intro hmem
  obtain ⟨m, hm, hid⟩ := List.mem_map.1 hmem
  obtain ⟨q', hq', hinvoice, hkey⟩ := hmoves m hm
  have hsame : q' = q := eq_of_key_eq h.installmentIds hq' hq (hkey.trans hid)
  exact hother (hsame ▸ hinvoice)

theorem total_put_installments (h : Ledgers d) (hmoves : MovesOn d i moves) :
    total (fun r => r.invoiceId == i) (fun r => put moves (InstallmentRow.id r)) d.installments =
      (moves.map Prod.snd).sum := by
  apply total_put h.installmentIds
  intro m hm
  obtain ⟨q, hq, hinvoice, hkey⟩ := hmoves m hm
  exact ⟨q, hq, by simpa using hinvoice, hkey⟩

theorem total_put_other (h : Ledgers d) (hmoves : MovesOn d i moves) {j : Uuid} (hj : j ≠ i) :
    total (fun r => r.invoiceId == j) (fun r => put moves (InstallmentRow.id r)) d.installments =
      0 := by
  have hzero : ∀ r ∈ d.installments, (r.invoiceId == j) = true → put moves r.id = 0 := by
    intro r hr hinvoice
    have hne : r.invoiceId ≠ i := fun heq => hj ((by simpa using hinvoice : r.invoiceId = j) ▸ heq)
    exact put_of_otherInvoice h hmoves hr hne
  rw [total_congr (fun _ _ => rfl) hzero, total_zero]

theorem amountOf_payIn (j : Uuid) : (payIn moves d).amountOf j = d.amountOf j :=
  total_map

theorem paidOf_payIn_other (h : Ledgers d) (hmoves : MovesOn d i moves) {j : Uuid} (hj : j ≠ i) :
    (payIn moves d).paidOf j = d.paidOf j := by
  have hmap : (payIn moves d).paidOf j = total (fun r => r.invoiceId == j)
      (fun r => InstallmentRow.paidAmount r + put moves r.id) d.installments := total_map
  rw [hmap, total_add, total_put_other h hmoves hj, Int.add_zero]
  rfl

theorem amountOf_cutIn (h : Ledgers d) (hmoves : MovesOn d i moves) (j : Uuid) :
    (cutIn moves d).amountOf j =
      d.amountOf j - if j = i then (moves.map Prod.snd).sum else 0 := by
  have hmap : (cutIn moves d).amountOf j = total (fun r => r.invoiceId == j)
      (fun r => InstallmentRow.amount r + -put moves r.id) d.installments := total_map
  rw [hmap, total_add, total_neg, ← Int.sub_eq_add_neg]
  by_cases hj : j = i
  · rw [if_pos hj, hj, total_put_installments h hmoves]
    rfl
  · rw [if_neg hj, total_put_other h hmoves hj]
    rfl

theorem paidOf_cutIn (j : Uuid) : (cutIn moves d).paidOf j = d.paidOf j :=
  total_map

end Moves

/-! ## A payment -/

/-- The store after `record` has put a payment on the instalments. -/
def postIn (payment : PaymentRow) (moves : List (Uuid × ℤ)) (d : Db) : Db :=
  { payIn moves d with
    payments := d.payments ++ [payment]
    paymentAllocations := d.paymentAllocations ++
      moves.map fun m => ⟨payment.id, m.1, m.2⟩ }

section Post

variable {d : Db} {payment : PaymentRow} {moves : List (Uuid × ℤ)}

theorem posted_post (hstatus : payment.status = .posted) (id : Uuid) :
    (postIn payment moves d).posted id = (d.posted id || payment.id == id) := by
  simp [Db.posted, postIn, hstatus]

theorem given_post (h : Ledgers d) (hnew : ∀ p ∈ d.payments, p.id ≠ payment.id)
    (hstatus : payment.status = .posted) (k : Uuid) :
    (postIn payment moves d).given k = d.given k + put moves k := by
  have happend : (postIn payment moves d).given k =
      total (fun a => a.installmentId == k && (postIn payment moves d).posted a.paymentId)
          AllocationRow.amount d.paymentAllocations +
        total (fun a => a.installmentId == k && (postIn payment moves d).posted a.paymentId)
          AllocationRow.amount (moves.map fun m => ⟨payment.id, m.1, m.2⟩) :=
    total_append _ _
  rw [happend]
  congr 1
  · apply total_congr
    · intro a ha
      obtain ⟨-, p, hp, hid, -⟩ := h.allocationOf a ha
      have hne : payment.id ≠ a.paymentId := fun heq => hnew p hp (hid.trans heq.symm)
      rw [posted_post hstatus, beq_eq_false_iff_ne.2 hne, Bool.or_false]
    · exact fun _ _ _ => rfl
  · rw [total_map]
    apply total_congr
    · intro m _
      simp [posted_post hstatus]
    · exact fun _ _ _ => rfl

theorem Ledgers.post (h : Ledgers d) (hnew : ∀ p ∈ d.payments, p.id ≠ payment.id)
    (hstatus : payment.status = .posted) (hmoves : MovesOn d payment.invoiceId moves)
    (hpos : ∀ m ∈ moves, 0 < m.2) (hamount : 0 < payment.amount)
    (hsum : (moves.map Prod.snd).sum = payment.amount)
    (hfits : ∀ q ∈ d.installments, put moves q.id ≤ q.amount - q.paidAmount) :
    Ledgers (postIn payment moves d) := by
  have hids : (postIn payment moves d).installments.map InstallmentRow.id =
      d.installments.map InstallmentRow.id := by
    simp [postIn, payIn, PaymentsService.addPaid, Function.comp_def]
  have hput : ∀ k, 0 ≤ put moves k := fun k => total_nonneg fun m hm _ => (hpos m hm).le
  have hqs : ∀ k x, (∃ q ∈ d.installments, q.id = k ∧ q.invoiceId = x) →
      ∃ q ∈ (postIn payment moves d).installments, q.id = k ∧ q.invoiceId = x := by
    rintro k x ⟨q, hq, hboth⟩
    exact ⟨_, List.mem_map_of_mem hq, hboth⟩
  refine
    { invoiceIds := h.invoiceIds
      installmentIds := by rw [hids]; exact h.installmentIds
      paymentIds := ?_
      installmentOf := ?_
      discountOf := h.discountOf
      allocationOf := ?_
      split := fun i hi => ?_
      range := ?_
      paid := ?_
      allocated := ?_ }
  · change ((d.payments ++ [payment]).map PaymentRow.id).Nodup
    rw [List.map_append, List.nodup_append]
    refine ⟨h.paymentIds, List.nodup_singleton _, ?_⟩
    intro x hx y hy
    obtain ⟨p, hp, rfl⟩ := List.mem_map.1 hx
    obtain rfl : y = payment.id := by simpa using hy
    exact hnew p hp
  · intro p hp
    obtain ⟨q, hq, rfl⟩ := List.mem_map.1 hp
    exact h.installmentOf q hq
  · intro a ha
    rcases List.mem_append.1 ha with ha | ha
    · obtain ⟨hamount, p, hp, hid, hq⟩ := h.allocationOf a ha
      exact ⟨hamount, p, List.mem_append_left _ hp, hid, hqs _ _ hq⟩
    · obtain ⟨m, hm, rfl⟩ := List.mem_map.1 ha
      obtain ⟨q, hq, hinvoice, hkey⟩ := hmoves m hm
      exact ⟨hpos m hm, payment, List.mem_append_right _ (List.mem_singleton_self _), rfl,
        hqs _ _ ⟨q, hq, hkey, hinvoice⟩⟩
  · have hsame : (postIn payment moves d).amountOf i.id = d.amountOf i.id := total_map
    rw [hsame]
    exact h.split i hi
  · intro p hp
    obtain ⟨q, hq, rfl⟩ := List.mem_map.1 hp
    have hrange := h.range q hq
    have hfit := hfits q hq
    have hnonneg := hput q.id
    change 0 ≤ q.paidAmount + put moves q.id ∧ q.paidAmount + put moves q.id ≤ q.amount
    omega
  · intro p hp
    obtain ⟨q, hq, rfl⟩ := List.mem_map.1 hp
    change q.paidAmount + put moves q.id = (postIn payment moves d).given q.id
    rw [given_post h hnew hstatus, h.paid q hq]
  · intro p hp
    have happend : (postIn payment moves d).allocated p.id = d.allocated p.id +
        total (fun a => a.paymentId == p.id) AllocationRow.amount
          (moves.map fun m => ⟨payment.id, m.1, m.2⟩) := total_append _ _
    rw [happend]
    rcases List.mem_append.1 hp with hp | hp
    · have hzero : total (fun a => a.paymentId == p.id) AllocationRow.amount
          (moves.map fun m => ⟨payment.id, m.1, m.2⟩) = 0 := by
        apply total_eq_zero
        intro a ha
        obtain ⟨m, -, rfl⟩ := List.mem_map.1 ha
        simpa using Ne.symm (hnew p hp)
      rw [hzero, Int.add_zero]
      exact h.allocated p hp
    · obtain rfl : p = payment := by simpa using hp
      have hzero : d.allocated p.id = 0 := by
        apply total_eq_zero
        intro a ha
        obtain ⟨-, p', hp', hid, -⟩ := h.allocationOf a ha
        have hne : a.paymentId ≠ p.id := fun heq => hnew p' hp' (hid.trans heq)
        simpa using hne
      refine ⟨hamount, ?_⟩
      rw [hzero, Int.zero_add, ← hsum, total_map, ← total_all]
      apply total_congr
      · intro m _
        simp
      · exact fun _ _ _ => rfl

end Post

/-! ## A payment that is reversed -/

/-- What a payment put on the instalments, taken back. -/
def backMoves (d : Db) (paymentId : Uuid) : List (Uuid × ℤ) :=
  (d.paymentAllocations.filter fun a => a.paymentId == paymentId).map fun a =>
    (a.installmentId, -a.amount)

def reverseIn (env : Env) (payment : PaymentRow) (d : Db) : Db :=
  { payIn (backMoves d payment.id) d with
    payments := changeWhere (fun r => r.id == payment.id)
      (PaymentsService.voidedRow env payment) d.payments }

section Reverse

variable {d : Db} {env : Env} {payment : PaymentRow}

theorem put_backMoves (d : Db) (paymentId k : Uuid) :
    put (backMoves d paymentId) k =
      -total (fun a => a.installmentId == k && a.paymentId == paymentId) AllocationRow.amount
        d.paymentAllocations := by
  rw [put, backMoves, total_map, total_filter, ← total_neg]
  rfl

theorem movesOn_backMoves (h : Ledgers d) (hpayment : payment ∈ d.payments) :
    MovesOn d payment.invoiceId (backMoves d payment.id) := by
  intro m hm
  obtain ⟨a, ha, rfl⟩ := List.mem_map.1 hm
  obtain ⟨ha, hid⟩ := List.mem_filter.1 ha
  obtain ⟨-, p, hp, hpid, q, hq, hkey, hinvoice⟩ := h.allocationOf a ha
  have hsame : p = payment :=
    eq_of_key_eq h.paymentIds hp hpayment (hpid.trans (by simpa using hid))
  exact ⟨q, hq, hsame ▸ hinvoice, hkey⟩

theorem posted_reverse (id : Uuid) :
    (reverseIn env payment d).posted id = (d.posted id && id != payment.id) := by
  have hany : (reverseIn env payment d).posted id = (changeWhere (fun r => r.id == payment.id)
      (PaymentsService.voidedRow env payment) d.payments).any
        fun p => p.id == id && p.status == .posted := rfl
  rw [hany, changeWhere, List.any_map, Db.posted]
  by_cases hid : id = payment.id
  · have hfalse : (id != payment.id) = false := by simpa using hid
    rw [hfalse, Bool.and_false, List.any_eq_false]
    intro p _
    by_cases hp : p.id = payment.id
    · simp [hp, PaymentsService.voidedRow]
    · have hne : p.id ≠ id := fun heq => hp (heq.trans hid)
      simp [hp, hne]
  · have htrue : (id != payment.id) = true := by simpa using hid
    rw [htrue, Bool.and_true]
    congr 1
    funext p
    by_cases hp : p.id = payment.id
    · have hne : (payment.id == id) = false := by simpa using Ne.symm hid
      simp [hp, hne, PaymentsService.voidedRow]
    · simp [hp]

theorem given_reverse (h : Ledgers d) (hpayment : payment ∈ d.payments)
    (hposted : payment.status = .posted) (k : Uuid) :
    (reverseIn env payment d).given k = d.given k + put (backMoves d payment.id) k := by
  have hsplit : d.given k = _ := total_split fun a => a.paymentId == payment.id
  have hmine : total (fun a => (a.installmentId == k && d.posted a.paymentId) &&
        a.paymentId == payment.id) AllocationRow.amount d.paymentAllocations =
      total (fun a => a.installmentId == k && a.paymentId == payment.id) AllocationRow.amount
        d.paymentAllocations := by
    apply total_congr
    · intro a _
      by_cases hid : a.paymentId = payment.id
      · simp [hid, posted_of_mem h hpayment, hposted]
      · have hne : (a.paymentId == payment.id) = false := by simpa using hid
        rw [hne, Bool.and_false, Bool.and_false]
    · exact fun _ _ _ => rfl
  have hrest : (reverseIn env payment d).given k =
      total (fun a => (a.installmentId == k && d.posted a.paymentId) &&
        !(a.paymentId == payment.id)) AllocationRow.amount d.paymentAllocations := by
    apply total_congr
    · intro a _
      rw [posted_reverse, Bool.and_assoc]
      rfl
    · exact fun _ _ _ => rfl
  rw [hrest, put_backMoves, hsplit, hmine]
  ring

theorem Ledgers.reverse (h : Ledgers d) (hpayment : payment ∈ d.payments)
    (hposted : payment.status = .posted) : Ledgers (reverseIn env payment d) := by
  have hids : (reverseIn env payment d).installments.map InstallmentRow.id =
      d.installments.map InstallmentRow.id := by
    simp [reverseIn, payIn, PaymentsService.addPaid, Function.comp_def]
  have hpids : (reverseIn env payment d).payments.map PaymentRow.id =
      d.payments.map PaymentRow.id := map_changeWhere fun _ => rfl
  have hpayments : ∀ p ∈ (reverseIn env payment d).payments, ∃ q ∈ d.payments,
      p.id = q.id ∧ p.invoiceId = q.invoiceId ∧ p.amount = q.amount := by
    intro p hp
    obtain ⟨q, hq, rfl⟩ := mem_changeWhere.1 hp
    refine ⟨q, hq, ?_⟩
    by_cases hid : q.id = payment.id
    · rw [if_pos (by simpa using hid)]
      exact ⟨rfl, rfl, rfl⟩
    · rw [if_neg (by simpa using hid)]
      exact ⟨rfl, rfl, rfl⟩
  refine
    { invoiceIds := h.invoiceIds
      installmentIds := by rw [hids]; exact h.installmentIds
      paymentIds := by rw [hpids]; exact h.paymentIds
      installmentOf := ?_
      discountOf := h.discountOf
      allocationOf := ?_
      split := ?_
      range := ?_
      paid := ?_
      allocated := ?_ }
  · intro p hp
    obtain ⟨q, hq, rfl⟩ := List.mem_map.1 hp
    exact h.installmentOf q hq
  · intro a ha
    obtain ⟨hamount, p, hp, hid, q, hq, hkey, hinvoice⟩ := h.allocationOf a ha
    refine ⟨hamount, ?_⟩
    refine ⟨_, List.mem_map_of_mem hp, ?_, _, List.mem_map_of_mem hq, hkey, ?_⟩
    · split
      · exact hid
      · exact hid
    · split
      · exact hinvoice
      · exact hinvoice
  · intro i hi
    have hamount : (reverseIn env payment d).amountOf i.id = d.amountOf i.id := total_map
    rw [hamount]
    exact h.split i hi
  · intro p hp
    obtain ⟨q, hq, rfl⟩ := List.mem_map.1 hp
    have hrange := h.range q hq
    have hgiven := @given_reverse d env payment h hpayment hposted q.id
    have hnonneg : 0 ≤ (reverseIn env payment d).given q.id :=
      total_nonneg fun a ha _ => (h.allocationOf a ha).1.le
    have hput : put (backMoves d payment.id) q.id ≤ 0 := by
      rw [put_backMoves, Int.neg_nonpos_iff]
      exact total_nonneg fun a ha _ => (h.allocationOf a ha).1.le
    have hpaid := h.paid q hq
    change 0 ≤ q.paidAmount + put (backMoves d payment.id) q.id ∧
      q.paidAmount + put (backMoves d payment.id) q.id ≤ q.amount
    omega
  · intro p hp
    obtain ⟨q, hq, rfl⟩ := List.mem_map.1 hp
    change q.paidAmount + put (backMoves d payment.id) q.id = (reverseIn env payment d).given q.id
    rw [given_reverse h hpayment hposted, h.paid q hq]
  · intro p hp
    obtain ⟨q, hq, hid, -, hamount⟩ := hpayments p hp
    rw [hid, hamount]
    exact h.allocated q hq

end Reverse

/-! ## A discount -/

/-- The store after a discount has been cut off the instalments. -/
def discountIn (row : DiscountRow) (moves : List (Uuid × ℤ)) (d : Db) : Db :=
  { cutIn moves d with discounts := d.discounts ++ [row] }

theorem Ledgers.discount {d : Db} {row : DiscountRow} {moves : List (Uuid × ℤ)} (h : Ledgers d)
    (hinvoice : ∃ i ∈ d.invoices, i.id = row.invoiceId) (hmoves : MovesOn d row.invoiceId moves)
    (hpos : 0 < row.amount) (hsum : (moves.map Prod.snd).sum = row.amount)
    (hfits : ∀ q ∈ d.installments, put moves q.id ≤ q.amount - q.paidAmount) :
    Ledgers (discountIn row moves d) := by
  have hids : (discountIn row moves d).installments.map InstallmentRow.id =
      d.installments.map InstallmentRow.id := by
    simp [discountIn, cutIn, Function.comp_def]
  refine
    { invoiceIds := h.invoiceIds
      installmentIds := by rw [hids]; exact h.installmentIds
      paymentIds := h.paymentIds
      installmentOf := ?_
      discountOf := ?_
      allocationOf := ?_
      split := ?_
      range := ?_
      paid := ?_
      allocated := h.allocated }
  · intro p hp
    obtain ⟨q, hq, rfl⟩ := List.mem_map.1 hp
    exact h.installmentOf q hq
  · intro x hx
    rcases List.mem_append.1 hx with hx | hx
    · exact h.discountOf x hx
    · obtain rfl : x = row := by simpa using hx
      exact ⟨hpos, hinvoice⟩
  · intro a ha
    obtain ⟨hamount, p, hp, hid, q, hq, hkey⟩ := h.allocationOf a ha
    exact ⟨hamount, p, hp, hid, _, List.mem_map_of_mem hq, hkey⟩
  · intro i hi
    have hsplit := h.split i hi
    have hamount : (discountIn row moves d).amountOf i.id = _ := amountOf_cutIn h hmoves i.id
    have hdiscount : (discountIn row moves d).discountOf i.id = d.discountOf i.id +
        total (fun r => r.invoiceId == i.id) DiscountRow.amount [row] := total_append _ _
    rw [total_cons, total_nil] at hdiscount
    rw [hamount, hdiscount, hsum]
    by_cases hid : i.id = row.invoiceId
    · rw [if_pos hid, if_pos (by simpa using hid.symm)]
      omega
    · rw [if_neg hid, if_neg (by simpa using Ne.symm hid)]
      omega
  · intro p hp
    obtain ⟨q, hq, rfl⟩ := List.mem_map.1 hp
    have hrange := h.range q hq
    have hfit := hfits q hq
    change 0 ≤ q.paidAmount ∧ q.paidAmount ≤ q.amount - put moves q.id
    omega
  · intro p hp
    obtain ⟨q, hq, rfl⟩ := List.mem_map.1 hp
    exact h.paid q hq

/-! ## A new invoice -/

def issueIn (invoice : InvoiceRow) (rows : List InstallmentRow) (d : Db) : Db :=
  { d with invoices := d.invoices ++ [invoice], installments := d.installments ++ rows }

theorem Ledgers.issue {d : Db} {invoice : InvoiceRow} {rows : List InstallmentRow} (h : Ledgers d)
    (hnew : ∀ i ∈ d.invoices, i.id ≠ invoice.id)
    (hids : ((d.installments ++ rows).map InstallmentRow.id).Nodup)
    (hrows : ∀ r ∈ rows, r.invoiceId = invoice.id ∧ r.paidAmount = 0 ∧ 0 ≤ r.amount)
    (hpos : 0 < invoice.subtotal)
    (hsum : (rows.map InstallmentRow.amount).sum = invoice.subtotal) :
    Ledgers (issueIn invoice rows d) := by
  have hnewRow : ∀ p ∈ d.installments, p.invoiceId ≠ invoice.id := by
    intro p hp heq
    obtain ⟨i, hi, hid⟩ := h.installmentOf p hp
    exact hnew i hi (hid.trans heq)
  have hkeep : ∀ x, (∃ i ∈ d.invoices, i.id = x) →
      ∃ i ∈ (issueIn invoice rows d).invoices, i.id = x := by
    rintro x ⟨i, hi, hid⟩
    exact ⟨i, List.mem_append_left _ hi, hid⟩
  have hamount : ∀ x, (issueIn invoice rows d).amountOf x = d.amountOf x +
      total (fun r => r.invoiceId == x) InstallmentRow.amount rows := fun x => total_append _ _
  refine
    { invoiceIds := ?_
      installmentIds := hids
      paymentIds := h.paymentIds
      installmentOf := ?_
      discountOf := fun x hx => ⟨(h.discountOf x hx).1, hkeep _ (h.discountOf x hx).2⟩
      allocationOf := ?_
      split := ?_
      range := ?_
      paid := ?_
      allocated := h.allocated }
  · change ((d.invoices ++ [invoice]).map InvoiceRow.id).Nodup
    rw [List.map_append, List.nodup_append]
    refine ⟨h.invoiceIds, List.nodup_singleton _, ?_⟩
    intro x hx y hy
    obtain ⟨i, hi, rfl⟩ := List.mem_map.1 hx
    obtain rfl : y = invoice.id := by simpa using hy
    exact hnew i hi
  · intro p hp
    rcases List.mem_append.1 hp with hp | hp
    · exact hkeep _ (h.installmentOf p hp)
    · exact ⟨invoice, List.mem_append_right _ (List.mem_singleton_self _), ((hrows p hp).1).symm⟩
  · intro a ha
    obtain ⟨hpos', p, hp, hid, q, hq, hkey⟩ := h.allocationOf a ha
    exact ⟨hpos', p, hp, hid, q, List.mem_append_left _ hq, hkey⟩
  · intro i hi
    rw [hamount]
    rcases List.mem_append.1 hi with hi | hi
    · have hzero : total (fun r => r.invoiceId == i.id) InstallmentRow.amount rows = 0 := by
        apply total_eq_zero
        intro r hr
        have hne : r.invoiceId ≠ i.id := fun heq => hnew i hi (heq.symm.trans (hrows r hr).1)
        simpa using hne
      rw [hzero, Int.add_zero]
      exact h.split i hi
    · obtain rfl : i = invoice := by simpa using hi
      have hold : d.amountOf i.id = 0 := total_eq_zero fun p hp => by simpa using hnewRow p hp
      have hdiscount : d.discountOf i.id = 0 := by
        apply total_eq_zero
        intro x hx
        obtain ⟨-, j, hj, hid⟩ := h.discountOf x hx
        have hne : x.invoiceId ≠ i.id := fun heq => hnew j hj (hid.trans heq)
        simpa using hne
      have hall : total (fun r => r.invoiceId == i.id) InstallmentRow.amount rows =
          i.subtotal := by
        rw [← hsum, ← total_all]
        apply total_congr
        · intro r hr
          simpa using (hrows r hr).1
        · exact fun _ _ _ => rfl
      refine ⟨hpos, ?_⟩
      change i.subtotal = _ + d.discountOf i.id
      rw [hold, hdiscount, hall]
      ring
  · intro p hp
    rcases List.mem_append.1 hp with hp | hp
    · exact h.range p hp
    · have hrow := hrows p hp
      omega
  · intro p hp
    change p.paidAmount = d.given p.id
    rcases List.mem_append.1 hp with hp | hp
    · exact h.paid p hp
    · have hzero : d.given p.id = 0 := by
        apply total_eq_zero
        intro a ha
        obtain ⟨-, -, -, -, q, hq, hkey, -⟩ := h.allocationOf a ha
        have hne : a.installmentId ≠ p.id := by
          intro heq
          rw [List.map_append, List.nodup_append] at hids
          exact hids.2.2 _ (List.mem_map_of_mem hq) _ (List.mem_map_of_mem hp) (hkey.trans heq)
        simp [hne]
      rw [hzero]
      exact (hrows p hp).2.1

end Emis.Billing
