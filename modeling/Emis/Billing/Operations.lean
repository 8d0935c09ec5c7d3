import Emis.Billing.Balance

/-!
# Recording, discounting and issuing

The remaining operations of the invoices and payments services keep the books.
-/

namespace Emis.Billing

open Transactions InvoicesService PaymentsService

section Statements

variable {d : Db} {Φ : Unit → Db → Prop}

theorem wlp_insertPayment {row : PaymentRow} (hpos : 0 < row.amount)
    (hΦ : (∀ p ∈ d.payments, p.id ≠ row.id) → Φ () { d with payments := d.payments ++ [row] }) :
    (insertPayment row).wlp Φ NoCheck d := by
  simp only [insertPayment, Prog.wlp_bind, wlp_enforce, Prog.wlp_acquire, Prog.wlp_get,
    Prog.wlp_require, Prog.wlp_modify, checkPayment_eq_none.2 hpos]
  constructor
  · intro _
    constructor
    · intro hnew
      apply hΦ
      simpa using hnew
    · exact fun _ => noCheck_unique _
  · simp

theorem wlp_insertAllocations {rows : List AllocationRow} (hpos : ∀ a ∈ rows, 0 < a.amount)
    (hΦ : Φ () { d with paymentAllocations := d.paymentAllocations ++ rows }) :
    (insertAllocations rows).wlp Φ NoCheck d := by
  have hnone : rows.findSome? checkAllocation = none := by
    apply findSome?_check
    intro a ha
    simpa [checkAllocation] using hpos a ha
  simp only [insertAllocations, Prog.wlp_bind, wlp_enforce, Prog.wlp_get, Prog.wlp_require,
    Prog.wlp_modify, hnone]
  constructor
  · intro _
    exact ⟨fun _ => hΦ, fun _ => noCheck_unique _⟩
  · simp

theorem wlp_insertReceipt {row : ReceiptRow}
    (hΦ : (∀ r ∈ d.receipts, r.paymentId ≠ row.paymentId) →
      Φ () { d with receipts := d.receipts ++ [row] }) :
    (insertReceipt row).wlp Φ NoCheck d := by
  simp only [insertReceipt, Prog.wlp_bind, Prog.wlp_acquire, Prog.wlp_get, Prog.wlp_require,
    Prog.wlp_modify]
  refine ⟨fun _ => ⟨fun hnew => ⟨fun _ => ?_, fun _ => noCheck_unique _⟩,
    fun _ => noCheck_unique _⟩, fun _ => noCheck_unique _⟩
  apply hΦ
  simpa using hnew

theorem wlp_insertDiscount {row : DiscountRow} (hpos : 0 < row.amount)
    (hΦ : Φ () { d with discounts := d.discounts ++ [row] }) :
    (insertDiscount row).wlp Φ NoCheck d := by
  have hnone : checkDiscount row = none := by simpa [checkDiscount] using hpos
  simp only [insertDiscount, Prog.wlp_bind, wlp_enforce, Prog.wlp_acquire, Prog.wlp_get,
    Prog.wlp_require, Prog.wlp_modify, hnone]
  constructor
  · intro _
    exact ⟨fun _ => hΦ, fun _ => noCheck_unique _⟩
  · simp

theorem wlp_lockEach {α : Type} {E : Error → Prop} (xs : List α) (l : α → Lock)
    {Φ : PUnit → Db → Prop} (hΦ : Φ () d) :
    (xs.forM fun x => (Prog.acquire (l x) : Tx PUnit)).wlp Φ E d := by
  induction xs with
  | nil => exact hΦ
  | cons x xs ih =>
      rw [Prog.wlp_forM_cons]
      exact ih

theorem wlp_insertInvoice {row : InvoiceRow} (hcheck : checkInvoice row = none)
    (hΦ : (∀ i ∈ d.invoices, i.id ≠ row.id) → Φ () { d with invoices := d.invoices ++ [row] }) :
    (insertInvoice row).wlp Φ NoCheck d := by
  simp only [insertInvoice, Prog.wlp_bind, wlp_enforce, Prog.wlp_acquire, hcheck]
  constructor
  · intro _
    apply wlp_lockEach
    simp only [Prog.wlp_get, Prog.wlp_require, Prog.wlp_modify]
    constructor
    · intro hnew
      apply hΦ
      intro i hi hid
      have hrow := List.any_eq_false.1 (by simpa only [Bool.not_eq_true'] using hnew) i hi
      simp [hid] at hrow
    · exact fun _ => noCheck_http _
  · simp

theorem wlp_insertInstallments {rows : List InstallmentRow}
    (hrows : ∀ r ∈ rows, checkInstallment r = none)
    (hΦ : ((d.installments ++ rows).map InstallmentRow.id).Nodup →
      Φ () { d with installments := d.installments ++ rows }) :
    (insertInstallments rows).wlp Φ NoCheck d := by
  simp only [insertInstallments, Prog.wlp_bind, wlp_enforce, findSome?_check hrows]
  constructor
  · intro _
    apply wlp_lockEach
    simp only [Prog.wlp_get, Prog.wlp_require, Prog.wlp_modify]
    exact ⟨fun hnodup => hΦ (by simpa using hnodup), fun _ => noCheck_unique _⟩
  · simp

end Statements

section Reads

variable {d : Db}

theorem wlp_invoiceView {Φ : Invoice → Db → Prop} (env : Env) (id : Uuid) (hΦ : ∀ v, Φ v d) :
    (InvoicesService.view env id).wlp Φ NoCheck d := by
  simp only [InvoicesService.view, InvoicesService.row, present, Prog.wlp_bind, Prog.wlp_get,
    Prog.wlp_expect, Prog.wlp_pure]
  constructor
  · intro found _
    apply wlp_today
    exact fun _ => hΦ _
  · exact fun _ => noCheck_http _

theorem wlp_paymentView {Φ : Payment → Db → Prop} (id : Uuid) (hΦ : ∀ v, Φ v d) :
    (PaymentsService.view id).wlp Φ NoCheck d := by
  simp only [PaymentsService.view, Prog.wlp_bind, Prog.wlp_get, Prog.wlp_expect, Prog.wlp_pure]
  exact ⟨fun _ _ => hΦ _, fun _ => noCheck_http _⟩

theorem wlp_assertScope {Φ : Unit → Db → Prop} (grants : List Grant) (p : Permission)
    (target : Option Target) (hΦ : Φ () d) :
    (assertScope grants p target : Tx Unit).wlp Φ NoCheck d := by
  simp only [assertScope, Prog.wlp_require]
  exact ⟨fun _ => hΦ, fun _ => noCheck_http _⟩

end Reads

/-! ## Recording a payment -/

theorem allocatePayment_eq (rows : List InstallmentRow) (amount : ℤ) :
    allocatePayment rows amount =
      ((movesOf (spread amount (rows.insertionSort byDueDate)).1).map fun m => ⟨m.1, m.2⟩,
        (spread amount (rows.insertionSort byDueDate)).2) := by
  rw [allocatePayment, movesOf, List.map_map]
  rfl

theorem receipted_insert {d d' : Db} {payment : PaymentRow} {receipt : ReceiptRow}
    (h : ∀ p ∈ d.payments, Receipted d p) (hpayments : d'.payments = d.payments ++ [payment])
    (hreceipts : d'.receipts = d.receipts ++ [receipt])
    (hnew : ∀ p ∈ d.payments, p.id ≠ payment.id)
    (hfirst : ∀ r ∈ d.receipts, r.paymentId ≠ payment.id) (hid : receipt.paymentId = payment.id)
    (hstatus : receipt.status = .void ↔ payment.status = .void) :
    ∀ p ∈ d'.payments, Receipted d' p := by
  intro p hp
  rw [hpayments, List.mem_append, List.mem_singleton] at hp
  rcases hp with hp | rfl
  · obtain ⟨r, hr, hvoid⟩ := h p hp
    refine ⟨r, ?_, hvoid⟩
    have hother : (receipt.paymentId == p.id) = false := by
      rw [hid]
      simpa using Ne.symm (hnew p hp)
    rw [hreceipts, List.filter_append, hr, List.filter_cons, hother]
    rfl
  · refine ⟨receipt, ?_, hstatus⟩
    have hnone : d.receipts.filter (fun r => r.paymentId == p.id) = [] := by
      rw [List.filter_eq_nil_iff]
      intro r hr
      simpa using hfirst r hr
    rw [hreceipts, List.filter_append, hnone, List.nil_append, List.filter_cons]
    simp [hid]

theorem wlp_record {d : Db} (h : Books d) (env : Env) (input : RecordPaymentValues)
    (grants : List Grant) (providerKey : String) :
    (record env input grants providerKey).wlp (fun _ d' => Books d') NoCheck d := by
  simp only [record, InvoicesService.lock, InvoicesService.installmentsOf, Prog.wlp_bind,
    Prog.wlp_expect, Prog.wlp_require, Prog.wlp_acquire, Prog.wlp_get, Prog.wlp_pure,
    allocatePayment_eq]
  refine ⟨fun provider _ => ⟨fun _ => ⟨fun invoice hinvoice => ?_, fun _ => noCheck_http _⟩,
    fun _ => noCheck_http _⟩, fun _ => noCheck_http _⟩
  apply wlp_assertScope
  refine ⟨fun _ => ⟨fun hrest => ?_, fun _ => noCheck_http _⟩, fun _ => noCheck_http _⟩
  obtain ⟨himem, -⟩ := mem_of_invoice? hinvoice
  have hamount : 0 < input.amount := input.positive
  set rows := (d.installmentsOf invoice.id).insertionSort byDueDate with hrows
  have hperm : rows.Perm (d.installmentsOf invoice.id) := List.perm_insertionSort _ _
  obtain ⟨hmoves, hpos, hsum, -, hfits⟩ := spread_moves h.toLedgers hperm hamount.le
  have hleft := (@spread_spec input.amount rows hamount.le).2.2.2
  set moves := movesOf (spread input.amount rows).1 with hmovesDef
  have hspent : (moves.map Prod.snd).sum = input.amount := by
    have hzero : (spread input.amount rows).2 ≤ 0 := by simpa using hrest
    omega
  set payment := newPayment env invoice provider input with hpayment
  apply wlp_insertPayment hamount
  intro hnew
  have hledgers : Ledgers (postIn payment moves d) :=
    h.toLedgers.post hnew rfl hmoves hpos hamount hspent hfits
  apply wlp_insertAllocations
  · intro a ha
    rw [List.map_map] at ha
    obtain ⟨m, hm, rfl⟩ := List.mem_map.1 ha
    exact hpos m hm
  rw [Prog.wlp_forM_map]
  apply wlp_payLoop (.inl fun m hm => (hpos m hm).le)
  · exact h.range
  · intro q hq
    exact hledgers.range _ (List.mem_map_of_mem hq)
  have hstore : payIn moves { d with
      payments := d.payments ++ [payment]
      paymentAllocations := d.paymentAllocations ++
        (moves.map fun m => (⟨m.1, m.2⟩ : Allocation)).map fun a =>
          (⟨payment.id, a.installmentId, a.amount⟩ : AllocationRow) } =
      postIn payment moves d := by
    rw [List.map_map]
    rfl
  rw [hstore]
  apply wlp_settle hledgers himem
  intro _
  apply wlp_next
  intro issued n
  apply wlp_insertReceipt
  intro hfirst
  apply wlp_paymentView
  intro _
  have hsettled := settled_settleIn hledgers himem (h.settled invoice himem).not_void
    fun j hj hne => (h.settled j hj).of_sums (amountOf_payIn j.id)
      (paidOf_payIn_other h.toLedgers hmoves hne)
  exact { hledgers.settle.frame rfl rfl rfl rfl rfl with
    approvalIds := h.approvalIds
    settled := fun i hi => (hsettled i hi).of_sums rfl rfl
    receipted := receipted_insert h.receipted rfl rfl hnew hfirst rfl (by simp [hpayment, newPayment]) }

/-! ## An approved discount -/

theorem applyDiscount_ok {rows : List InstallmentRow} {amount : ℤ} {cuts : List Cut}
    (h : Billing.applyDiscount rows amount = .ok cuts) :
    (spread amount (rows.insertionSort byDueDate).reverse).2 ≤ 0 ∧
      cuts = (spread amount (rows.insertionSort byDueDate).reverse).1.map fun t =>
        ⟨t.1.id, t.1.amount - t.2⟩ := by
  rw [Billing.applyDiscount] at h
  dsimp only at h
  split at h
  · cases h
  · rename_i hleft
    exact ⟨not_lt.1 hleft, (Except.ok.inj h).symm⟩

theorem applyDiscount_error {rows : List InstallmentRow} {amount : ℤ} {e : Error}
    (h : Billing.applyDiscount rows amount = .error e) : NoCheck e := by
  rw [Billing.applyDiscount] at h
  dsimp only at h
  split at h
  · obtain rfl := Except.error.inj h
    exact noCheck_internal _
  · cases h

theorem wlp_applyDiscount {d : Db} (h : Books d) (env : Env) (invoiceId : Uuid)
    (discount : ApprovedDiscount) :
    (InvoicesService.applyDiscount env invoiceId discount).wlp (Kept d) NoCheck d := by
  simp only [InvoicesService.applyDiscount, InvoicesService.lock, InvoicesService.installmentsOf,
    Prog.wlp_bind, Prog.wlp_expect, Prog.wlp_require, Prog.wlp_acquire, Prog.wlp_get, Prog.wlp_pure,
    Prog.wlp_ofExcept]
  refine ⟨fun invoice hinvoice => ⟨fun _ => ⟨fun hamount => ⟨fun _ => ⟨fun cuts hcuts => ?_,
    fun e he => applyDiscount_error he⟩, fun _ => noCheck_http _⟩, fun _ => noCheck_http _⟩,
    fun _ => noCheck_http _⟩, fun _ => noCheck_http _⟩
  obtain ⟨himem, rfl⟩ := mem_of_invoice? hinvoice
  set amount := discountAmount discount.kind discount.value invoice.total
  have hamount : 0 < amount := Int.lt_iff_add_one_le.2 (by simpa using hamount)
  obtain ⟨hrest, rfl⟩ := applyDiscount_ok hcuts
  set rows := ((d.installmentsOf invoice.id).insertionSort byDueDate).reverse with hrows
  have hperm : rows.Perm (d.installmentsOf invoice.id) :=
    (List.reverse_perm _).trans (List.perm_insertionSort _ _)
  obtain ⟨hmoves, -, hsum, hnodup, hfits⟩ := spread_moves h.toLedgers hperm hamount.le
  obtain ⟨htaken, -, -, hleft⟩ := @spread_spec amount rows hamount.le
  set taken := (spread amount rows).1
  have hspent : ((movesOf taken).map Prod.snd).sum = amount := by omega
  set row : DiscountRow := ⟨env.newId 0, invoice.id, discount.kind, discount.value, amount,
    discount.reasonCode, discount.approvalId⟩ with hrow
  have hledgers : Ledgers (discountIn row (movesOf taken) d) :=
    h.toLedgers.discount ⟨invoice, himem, rfl⟩ hmoves hamount hspent hfits
  rw [Prog.wlp_forM_map]
  apply wlp_cutLoop h.installmentIds h.range
  · intro t ht
    obtain ⟨hmem, -, hfit⟩ := htaken t ht
    exact ⟨(mem_installmentsOf.1 (hperm.subset hmem)).1, hfit⟩
  · exact hnodup
  apply wlp_insertDiscount hamount
  have hsettled := settled_settleIn hledgers himem (h.settled invoice himem).not_void
    fun j hj hne => by
      apply (h.settled j hj).of_sums
      · have hsame := amountOf_cutIn h.toLedgers hmoves j.id
        rw [if_neg hne, Int.sub_zero] at hsame
        exact hsame
      · exact paidOf_cutIn j.id
  exact wlp_settle hledgers himem fun _ => ⟨{ hledgers.settle with
    approvalIds := h.approvalIds
    settled := hsettled
    receipted := h.receipted }, rfl⟩

/-! ## A new invoice -/

theorem wlp_billingContext {d : Db} {Φ : Option BillingContext → Db → Prop} {E : Error → Prop}
    (id : Uuid) (hΦ : ∀ ctx, Φ ctx d) : (billingContext id).wlp Φ E d := hΦ _

theorem wlp_resolve {d : Db} {Φ : Option FeeStructureRow → Db → Prop} {E : Error → Prop}
    (courseId : Uuid) (category : Option String) (asOf : Day) (hΦ : ∀ s, Φ s d) :
    (resolve courseId category asOf).wlp Φ E d := hΦ _

theorem wlp_priceFor {d : Db} {Φ : Option FeeStructureRow → Db → Prop} {E : Error → Prop}
    (ctx : BillingContext) (student : StudentRow) (day : Day) (hΦ : ∀ s, Φ s d) :
    (priceFor ctx student day).wlp Φ E d := by
  rw [priceFor, Prog.wlp_bind]
  apply wlp_resolve
  intro atStart
  cases atStart with
  | some found => exact hΦ _
  | none => exact wlp_resolve _ _ _ hΦ

theorem wlp_planFor {d : Db} {Φ : PaymentPlanRow → Db → Prop} (planId : Option Uuid)
    (hΦ : ∀ plan, Φ plan d) : (planFor planId).wlp Φ NoCheck d := by
  cases planId with
  | some id =>
      simp only [planFor, findPlan, Prog.wlp_bind, Prog.wlp_get, Prog.wlp_pure, Prog.wlp_require,
        Prog.wlp_expect]
      exact ⟨fun _ => ⟨fun plan _ => hΦ plan, fun _ => noCheck_http _⟩, fun _ => noCheck_http _⟩
  | none =>
      simp only [planFor, defaultPlan, Prog.wlp_bind, Prog.wlp_get, Prog.wlp_pure, Prog.wlp_expect]
      exact ⟨fun plan _ => hΦ plan, fun _ => noCheck_http _⟩

theorem splitByBasisPoints_error {total : ℤ} {shares : List ℕ} {e : Error}
    (h : splitByBasisPoints total shares = .error e) : NoCheck e := by
  rw [splitByBasisPoints] at h
  split_ifs at h
  · obtain rfl := Except.error.inj h
    exact noCheck_internal _
  · obtain rfl := Except.error.inj h
    exact noCheck_internal _

theorem buildInstallments_error {total : ℤ} {plan : List PlanInstallment} {day : Day} {e : Error}
    (h : buildInstallments total plan day = .error e) : NoCheck e := by
  rw [buildInstallments] at h
  cases hsplit : splitByBasisPoints total (plan.map PlanInstallment.shareBp) with
  | error e' =>
      obtain rfl : e' = e := by simpa [hsplit, bind, Except.bind] using h
      exact splitByBasisPoints_error hsplit
  | ok amounts => simp [hsplit, bind, Except.bind, pure, Except.pure] at h

/-- A new invoice is settled, as nothing has been paid on it. -/
theorem settled_issue {d : Db} {invoice : InvoiceRow} {rows : List InstallmentRow}
    (hd : ∀ i ∈ d.invoices, Settled d i)
    (hnew : ∀ i ∈ d.invoices, i.id ≠ invoice.id)
    (hrows : ∀ r ∈ rows, r.invoiceId = invoice.id ∧ r.paidAmount = 0 ∧ 0 ≤ r.amount)
    (hold : ∀ r ∈ d.installments, r.invoiceId ≠ invoice.id)
    (hsum : (rows.map InstallmentRow.amount).sum = invoice.total) (hpos : 0 < invoice.total)
    (htotal : invoice.total = invoice.subtotal) (hdiscount : invoice.discountTotal = 0)
    (hpaid : invoice.paidTotal = 0) (hstatus : invoice.status = .issued) :
    ∀ i ∈ (issueIn invoice rows d).invoices, Settled (issueIn invoice rows d) i := by
  have happend : ∀ (f : InstallmentRow → ℤ) x,
      total (fun r => r.invoiceId == x) f (d.installments ++ rows) =
        total (fun r => r.invoiceId == x) f d.installments +
          total (fun r => r.invoiceId == x) f rows := fun f x => total_append _ _
  have hrest : ∀ (f : InstallmentRow → ℤ) i, i ∈ d.invoices →
      total (fun r => r.invoiceId == i.id) f rows = 0 := by
    intro f i hi
    apply total_eq_zero
    intro r hr
    have hne : r.invoiceId ≠ i.id := fun heq => hnew i hi (heq.symm.trans (hrows r hr).1)
    simpa using hne
  have hnone : ∀ f : InstallmentRow → ℤ,
      total (fun r => r.invoiceId == invoice.id) f d.installments = 0 :=
    fun f => total_eq_zero fun r hr => by simpa using hold r hr
  intro i hi
  rcases List.mem_append.1 hi with hi | hi
  · apply (hd i hi).of_sums
    · exact (happend _ _).trans (by rw [hrest _ i hi, Int.add_zero]; rfl)
    · exact (happend _ _).trans (by rw [hrest _ i hi, Int.add_zero]; rfl)
  · obtain rfl : i = invoice := by simpa using hi
    have hamount : (issueIn i rows d).amountOf i.id = i.total := by
      refine (happend _ _).trans ?_
      rw [hnone, Int.zero_add, ← hsum, ← total_all]
      apply total_congr
      · intro r hr
        simpa using (hrows r hr).1
      · exact fun _ _ _ => rfl
    have hzero : (issueIn i rows d).paidOf i.id = 0 := by
      refine (happend _ _).trans ?_
      rw [hnone, Int.zero_add, total_congr (fun _ _ => rfl) fun r hr _ => (hrows r hr).2.1,
        total_zero]
    refine ⟨hamount.symm, hpaid.trans hzero.symm, by omega, ?_⟩
    rw [hstatus, hpaid, invoiceStatusFor, if_neg (by omega), if_neg (by omega)]

theorem wlp_create {d : Db} (h : Books d) (env : Env) (input : CreateInvoiceValues)
    (grants : List Grant) :
    (InvoicesService.create env input grants).wlp (fun _ d' => Books d') NoCheck d := by
  simp only [InvoicesService.create, requireExisting, Prog.wlp_bind, Prog.wlp_expect,
    Prog.wlp_require, Prog.wlp_get, Prog.wlp_ofExcept]
  apply wlp_billingContext
  intro ctx?
  refine ⟨fun ctx _ => ?_, fun _ => noCheck_http _⟩
  apply wlp_assertScope
  refine ⟨fun _ => ⟨fun _ => ⟨fun student _ => ?_, fun _ => noCheck_http _⟩,
    fun _ => noCheck_http _⟩, fun _ => noCheck_http _⟩
  apply wlp_today
  intro day
  apply wlp_priceFor
  intro structure?
  refine ⟨fun fee _ => ?_, fun _ => noCheck_http _⟩
  apply wlp_planFor
  intro plan
  apply wlp_next
  intro issued n
  set invoice := newInvoice env issued.number ctx fee with hinvoice
  have hpos : 0 < invoice.total := fee.total_pos
  apply wlp_insertInvoice
  · have hcheck : checkInvoice invoice = none := by
      have hamounts : invoice.subtotal = fee.total ∧ invoice.total = fee.total ∧
          invoice.discountTotal = 0 ∧ invoice.paidTotal = 0 := ⟨rfl, rfl, rfl, rfl⟩
      have hfee := fee.total_pos
      simp only [checkInvoice, hamounts]
      rw [if_neg (by omega), if_neg (by omega), if_neg (by omega)]
    exact hcheck
  intro hnew
  refine ⟨fun parts hparts => ?_, fun e he => buildInstallments_error he⟩
  obtain ⟨hsum, hnonneg⟩ := buildInstallments_ok fee.total_pos.le hparts
  set rows := newInstallments env invoice.id parts with hrowsDef
  have hrows : ∀ r ∈ rows, r.invoiceId = invoice.id ∧ r.paidAmount = 0 ∧ 0 ≤ r.amount := by
    intro r hr
    obtain ⟨k, hk, rfl⟩ := List.mem_mapIdx.1 hr
    exact ⟨rfl, rfl, hnonneg _ (List.getElem_mem hk)⟩
  have hrowSum : (rows.map InstallmentRow.amount).sum = fee.total := by
    rw [← hsum, hrowsDef, newInstallments]
    congr 1
    apply List.ext_getElem
    · simp
    · simp
  have hold : ∀ r ∈ d.installments, r.invoiceId ≠ invoice.id := by
    intro r hr heq
    obtain ⟨i, hi, hid⟩ := h.installmentOf r hr
    exact hnew i hi (hid.trans heq)
  apply wlp_insertInstallments
  · intro r hr
    have hrow := hrows r hr
    exact checkInstallment_eq_none.2 (by omega)
  intro hids
  apply wlp_invoiceView
  intro _
  have hledgers : Ledgers (issueIn invoice rows d) :=
    h.toLedgers.issue hnew hids hrows hpos hrowSum
  have hsettled := settled_issue h.settled hnew hrows hold hrowSum hpos rfl rfl rfl rfl
  exact { hledgers.frame rfl rfl rfl rfl rfl with
    approvalIds := h.approvalIds
    settled := fun i hi => (hsettled i hi).of_sums rfl rfl
    receipted := h.receipted }

end Emis.Billing
