import Emis.Billing.MakerChecker

/-!
# What the billing services leave alone

Reading a view writes nothing. The statements on invoices and instalments leave
the other tables alone, and the services that issue invoices leave requests,
discounts and payments alone.
-/

namespace Emis.Billing

open Transactions

/-- All but the invoices and their instalments. -/
def Db.others (d : Db) : Db := { d with invoices := [], installments := [] }

section Reads

variable {τ : Type} {φ : Db → τ}

theorem keeps_enforce (v : Option Violation) : (enforce v).Keeps φ := by
  cases v with
  | none => exact .pure _
  | some v => exact .throw _

theorem keeps_invoiceLock (id : Uuid) : (InvoicesService.lock id).Keeps φ :=
  .bind (.acquire _) fun _ => .bind .get fun _ => .expect _ _

theorem keeps_invoiceRow (id : Uuid) : (InvoicesService.row id).Keeps φ :=
  .bind .get fun _ => .expect _ _

theorem keeps_installmentsOf (id : Uuid) : (InvoicesService.installmentsOf id).Keeps φ :=
  .bind .get fun _ => .pure _

theorem keeps_paymentView (id : Uuid) : (PaymentsService.view id).Keeps φ :=
  .bind .get fun _ => .bind (.expect _ _) fun _ => .bind .get fun _ => .pure _

theorem keeps_inSettings {υ α : Type} {ψ : Numbering.Db → υ} {p : Numbering.Tx α} (hp : p.Keeps ψ)
    (hput : ∀ n d, ψ n = ψ d.numbering → φ { d with numbering := n } = φ d) :
    (inSettings p).Keeps φ := hp.zoom hput

theorem keeps_today (env : Env) : (today env).Keeps φ := by
  have hrow : (Numbering.institutionRow).Keeps (id : Numbering.Db → _) :=
    .bind .get fun _ => .expect _ _
  apply Prog.Keeps.bind _ fun _ => .pure _
  apply keeps_inSettings hrow
  intro n d hn
  obtain rfl : n = d.numbering := hn
  rfl

theorem keeps_invoiceView (env : Env) (id : Uuid) : (InvoicesService.view env id).Keeps φ :=
  .bind (keeps_invoiceRow id) fun _ => .bind .get fun _ => .bind (keeps_today env) fun _ => .pure _

theorem keeps_lockEach {α : Type} (xs : List α) (l : α → Lock) :
    (xs.forM fun x => (Prog.acquire (l x) : Tx PUnit)).Keeps φ := .forM xs fun _ => .acquire _

end Reads

section Writes

variable {τ : Type} {φ : Db → τ}

theorem keeps_updateInstallment (id : Uuid) (f : InstallmentRow → InstallmentRow)
    (hφ : ∀ d, φ { d with installments := changeWhere (fun r => r.id == id) f d.installments } = φ d) :
    (updateInstallment id f).Keeps φ :=
  .bind (.acquire _) fun _ => .bind .get fun _ => .bind (keeps_enforce _) fun _ => .modify hφ

theorem keeps_settle (id : Uuid) (hφ : ∀ d before parts, φ { d with
      invoices := changeWhere (fun r => r.id == id) (InvoicesService.settledRow before parts) d.invoices } = φ d) :
    (InvoicesService.settle id).Keeps φ := by
  apply Prog.Keeps.bind (keeps_invoiceRow id)
  intro before
  apply Prog.Keeps.bind (keeps_installmentsOf id)
  intro parts
  apply Prog.Keeps.bind _ fun _ => keeps_invoiceRow id
  exact .bind (.acquire _) fun _ => .bind .get fun _ => .bind (keeps_enforce _) fun _ =>
    .modify fun d => hφ d before parts

theorem keeps_next (hφ : ∀ d n, n.institution = d.numbering.institution → φ { d with numbering := n } = φ d)
    (env : Numbering.Env)
    (key : Numbering.NumberSeriesKey) (branchId : Option Uuid) :
    (inSettings (Numbering.NumberingService.next env key branchId none)).Keeps φ :=
  keeps_inSettings (Numbering.keeps_next env key branchId none) fun n d hn => hφ d n hn

theorem keeps_insertReceipt (hφ : ∀ d rows, φ { d with receipts := rows } = φ d) (row : ReceiptRow) :
    (insertReceipt row).Keeps φ :=
  .bind (.acquire _) fun _ => .bind (.acquire _) fun _ => .bind .get fun _ =>
    .bind (.require _ _) fun _ => .bind (.require _ _) fun _ => .bind (.require _ _) fun _ =>
      .modify fun d => hφ d _

theorem keeps_insertAllocations (hφ : ∀ d rows, φ { d with paymentAllocations := rows } = φ d)
    (rows : List AllocationRow) : (insertAllocations rows).Keeps φ :=
  .bind (keeps_enforce _) fun _ => .bind .get fun _ => .bind (.require _ _) fun _ =>
    .modify fun d => hφ d _

theorem keeps_insertInvoice (hφ : ∀ d rows, φ { d with invoices := rows } = φ d) (row : InvoiceRow) :
    (insertInvoice row).Keeps φ :=
  .bind (keeps_enforce _) fun _ => .bind (.acquire _) fun _ => .bind (.acquire _) fun _ =>
    .bind (keeps_lockEach _ _) fun _ => .bind .get fun _ => .bind (.require _ _) fun _ =>
      .modify fun d => hφ d _

theorem keeps_insertInstallments (hφ : ∀ d rows, φ { d with installments := rows } = φ d)
    (rows : List InstallmentRow) : (insertInstallments rows).Keeps φ :=
  .bind (keeps_enforce _) fun _ => .bind (keeps_lockEach _ _) fun _ => .bind .get fun _ =>
    .bind (.require _ _) fun _ => .modify fun d => hφ d _

end Writes

theorem keeps_priceFor {τ : Type} {φ : Db → τ} (ctx : BillingContext) (student : StudentRow) (day : Day) :
    (InvoicesService.priceFor ctx student day).Keeps φ := by
  apply Prog.Keeps.bind (.bind .get fun _ => .pure _)
  intro atStart
  cases atStart with
  | none => exact .bind .get fun _ => .pure _
  | some found => exact .pure _

theorem keeps_planFor {τ : Type} {φ : Db → τ} (planId : Option Uuid) : (InvoicesService.planFor planId).Keeps φ := by
  cases planId with
  | none => exact .bind (.bind .get fun _ => .pure _) fun _ => .expect _ _
  | some id => exact .bind (.bind .get fun _ => .pure _) fun _ => .bind (.require _ _) fun _ => .expect _ _

/-- Issuing an invoice has nothing to do with what it does not insert. -/
theorem keeps_create {τ : Type} {φ : Db → τ}
    (hnumbering : ∀ d n, n.institution = d.numbering.institution → φ { d with numbering := n } = φ d)
    (hinvoices : ∀ d rows, φ { d with invoices := rows } = φ d)
    (hinstallments : ∀ d rows, φ { d with installments := rows } = φ d)
    (env : Env) (input : CreateInvoiceValues) (grants : List Grant) :
    (InvoicesService.create env input grants).Keeps φ := by
  apply Prog.Keeps.bind (.bind .get fun _ => .pure _)
  intro ctx?
  apply Prog.Keeps.bind (.expect _ _)
  intro ctx
  apply Prog.Keeps.bind (keeps_assertScope _ _ _)
  intro _
  apply Prog.Keeps.bind (.require _ _)
  intro _
  apply Prog.Keeps.bind .get
  intro d
  apply Prog.Keeps.bind (.require _ _)
  intro _
  apply Prog.Keeps.bind (.bind .get fun _ => .expect _ _)
  intro student
  apply Prog.Keeps.bind (keeps_today env)
  intro day
  apply Prog.Keeps.bind (keeps_priceFor _ _ _)
  intro structure?
  apply Prog.Keeps.bind (.expect _ _)
  intro fee
  apply Prog.Keeps.bind (keeps_planFor _)
  intro plan
  apply Prog.Keeps.bind (keeps_next hnumbering _ _ _)
  intro issued
  apply Prog.Keeps.bind (keeps_insertInvoice hinvoices _)
  intro _
  apply Prog.Keeps.bind (.ofExcept _)
  intro parts
  apply Prog.Keeps.bind (keeps_insertInstallments hinstallments _)
  exact fun _ => keeps_invoiceView env _

/-- What `record` does once the payment is in. -/
theorem keeps_afterPayment (env : Env) (invoice : InvoiceRow) (payment : PaymentRow)
    (allocations : List Allocation) :
    (do
      insertAllocations (allocations.map fun a => ⟨payment.id, a.installmentId, a.amount⟩)
      allocations.forM fun (a : Allocation) => updateInstallment a.installmentId (PaymentsService.addPaid a.amount)
      let _ ← InvoicesService.settle invoice.id
      let issued ← inSettings <|
        Numbering.NumberingService.next { now := env.now, zone := env.zone } .receipt
          (some invoice.branchId) none
      insertReceipt ⟨env.newId 1, payment.id, issued.number, invoice.branchId, .issued, none⟩
      PaymentsService.view payment.id : Tx Payment).Keeps Db.checked := by
  apply Prog.Keeps.bind (keeps_insertAllocations (fun _ _ => rfl) _)
  intro _
  apply Prog.Keeps.bind (.forM _ fun _ => keeps_updateInstallment _ _ fun _ => rfl)
  intro _
  apply Prog.Keeps.bind (keeps_settle _ fun _ _ _ => rfl)
  intro _
  apply Prog.Keeps.bind (keeps_next (fun _ _ _ => rfl) _ _ _)
  intro issued
  apply Prog.Keeps.bind (keeps_insertReceipt (fun _ _ => rfl) _)
  exact fun _ => keeps_paymentView _

/-! ## All but new invoices -/

/-- What payments and requests leave alone: none of the tables they write in is seen,
but for what of an invoice or an instalment is no amount. -/
structure Apart {τ : Type} (φ : Db → τ) : Prop where
  numbering : ∀ d n, n.institution = d.numbering.institution → φ { d with numbering := n } = φ d
  payments : ∀ d rows, φ { d with payments := rows } = φ d
  allocations : ∀ d rows, φ { d with paymentAllocations := rows } = φ d
  receipts : ∀ d rows, φ { d with receipts := rows } = φ d
  discounts : ∀ d rows, φ { d with discounts := rows } = φ d
  requests : ∀ d rows, φ { d with approvalRequests := rows } = φ d
  paid : ∀ d id amount, φ { d with
    installments := changeWhere (fun r => r.id == id) (PaymentsService.addPaid amount) d.installments } = φ d
  cut : ∀ d id amount, φ { d with
    installments := changeWhere (fun r => r.id == id) (InvoicesService.setAmount amount) d.installments } = φ d
  settled : ∀ d id before parts, φ { d with
    invoices := changeWhere (fun r => r.id == id) (InvoicesService.settledRow before parts) d.invoices } = φ d

section Apart

variable {τ : Type} {φ : Db → τ}

theorem keeps_record (hφ : Apart φ) (env : Env) (input : RecordPaymentValues) (grants : List Grant)
    (providerKey : String) : (PaymentsService.record env input grants providerKey).Keeps φ := by
  apply Prog.Keeps.bind (.expect _ _)
  intro provider
  apply Prog.Keeps.bind (.require _ _)
  intro _
  apply Prog.Keeps.bind (keeps_invoiceLock _)
  intro invoice
  apply Prog.Keeps.bind (keeps_assertScope _ _ _)
  intro _
  apply Prog.Keeps.bind (.require _ _)
  intro _
  apply Prog.Keeps.bind (keeps_installmentsOf _)
  intro parts
  rcases allocatePayment parts input.amount with ⟨allocations, remainder⟩
  apply Prog.Keeps.bind (.require _ _)
  intro _
  apply Prog.Keeps.bind
  · exact .bind (keeps_enforce _) fun _ => .bind (.acquire _) fun _ => .bind .get fun _ =>
      .bind (.require _ _) fun _ => .modify fun d => hφ.payments d _
  intro _
  apply Prog.Keeps.bind (keeps_insertAllocations hφ.allocations _)
  intro _
  apply Prog.Keeps.bind (.forM _ fun _ => keeps_updateInstallment _ _ fun d => hφ.paid d _ _)
  intro _
  apply Prog.Keeps.bind (keeps_settle _ fun d => hφ.settled d _)
  intro _
  apply Prog.Keeps.bind (keeps_next hφ.numbering _ _ _)
  intro issued
  apply Prog.Keeps.bind (keeps_insertReceipt hφ.receipts _)
  exact fun _ => keeps_paymentView _

theorem keeps_createApproval (hφ : Apart φ) (env : Env) (payload : Payload) (subjectId : Uuid)
    (summary reason : String) (actor : Actor) :
    (ApprovalsService.create env payload subjectId summary reason actor).Keeps φ := by
  apply Prog.Keeps.bind _ fun _ => .pure _
  exact .bind (keeps_enforce _) fun _ => .bind (.acquire _) fun _ => .bind (.acquire _) fun _ =>
    .bind .get fun _ => .bind (.require _ _) fun _ => .modify fun d => hφ.requests d _

theorem keeps_requestDiscount (hφ : Apart φ) (env : Env) (invoiceId : Uuid) (input : RequestDiscountValues)
    (grants : List Grant) (actor : Actor) :
    (ApprovalsService.requestDiscount env invoiceId input grants actor).Keeps φ := by
  apply Prog.Keeps.bind (keeps_invoiceRow _)
  intro invoice
  apply Prog.Keeps.bind (keeps_assertScope _ _ _)
  intro _
  exact .bind (.require _ _) fun _ => .bind .get fun _ => .bind (.require _ _) fun _ =>
    .bind (.require _ _) fun _ => .bind (.require _ _) fun _ =>
      keeps_createApproval hφ _ _ _ _ _ _

theorem keeps_requestVoid (hφ : Apart φ) (env : Env) (paymentId : Uuid) (reason : String)
    (grants : List Grant) (actor : Actor) :
    (ApprovalsService.requestVoid env paymentId reason grants actor).Keeps φ := by
  apply Prog.Keeps.bind (.bind .get fun _ => .expect _ _)
  intro payment
  apply Prog.Keeps.bind (keeps_assertScope _ _ _)
  intro _
  exact .bind (.require _ _) fun _ => .bind (keeps_paymentView _) fun _ =>
    keeps_createApproval hφ _ _ _ _ _ _

theorem keeps_applyEffect (hφ : Apart φ) (env : Env) (request : ApprovalRow) :
    (ApprovalsService.applyEffect env request).Keeps φ := by
  unfold ApprovalsService.applyEffect
  cases request.payload with
  | discount kind value reasonCode note =>
      apply Prog.Keeps.bind (keeps_invoiceLock _)
      intro invoice
      apply Prog.Keeps.bind (.require _ _)
      intro _
      apply Prog.Keeps.bind (keeps_installmentsOf _)
      intro parts
      apply Prog.Keeps.bind (.require _ _)
      intro _
      apply Prog.Keeps.bind (.require _ _)
      intro _
      apply Prog.Keeps.bind (.ofExcept _)
      intro cuts
      apply Prog.Keeps.bind (.forM _ fun _ => keeps_updateInstallment _ _ fun d => hφ.cut d _ _)
      intro _
      apply Prog.Keeps.bind
      · exact .bind (keeps_enforce _) fun _ => .bind (.acquire _) fun _ => .bind .get fun _ =>
          .bind (.require _ _) fun _ => .modify fun d => hφ.discounts d _
      intro _
      exact .bind (keeps_settle _ fun d => hφ.settled d _) fun _ => .pure _
  | paymentVoid receiptNumber amount =>
      apply Prog.Keeps.bind (.bind .get fun _ => .expect _ _)
      intro found
      apply Prog.Keeps.bind (keeps_invoiceLock _)
      intro invoice
      apply Prog.Keeps.bind (.bind .get fun _ => .expect _ _)
      intro payment
      apply Prog.Keeps.bind (.require _ _)
      intro _
      apply Prog.Keeps.bind .get
      intro d
      apply Prog.Keeps.bind (.forM _ fun _ => keeps_updateInstallment _ _ fun d => hφ.paid d _ _)
      intro _
      apply Prog.Keeps.bind
      · exact .bind (.acquire _) fun _ => .bind .get fun _ => .bind (keeps_enforce _) fun _ =>
          .modify fun d => hφ.payments d _
      intro _
      apply Prog.Keeps.bind
      · exact .bind (.acquire _) fun _ => .modify fun d => hφ.receipts d _
      intro _
      exact .bind (keeps_settle _ fun d => hφ.settled d _) fun _ => .pure _

theorem keeps_decide (hφ : Apart φ) (env : Env) (id : Uuid) (input : DecideApprovalValues) (actor : Actor) :
    (ApprovalsService.decide env id input actor).Keeps φ := by
  apply Prog.Keeps.bind (.acquire _)
  intro _
  apply Prog.Keeps.bind .get
  intro d
  apply Prog.Keeps.bind (.expect _ _)
  intro request
  apply Prog.Keeps.bind (.require _ _)
  intro _
  apply Prog.Keeps.bind (.require _ _)
  intro _
  apply Prog.Keeps.bind (.when _ (keeps_applyEffect hφ env request))
  intro _
  exact .bind (.acquire _) fun _ => .bind .get fun _ => .bind (keeps_enforce _) fun _ =>
    keeps_versioned approvalsTable fun d => hφ.requests d _

end Apart

/-- No statement of a request ends the transaction. -/
theorem transactional_code (call : Call) : call.code.Keeps fun _ => () := by
  have hapart : Apart fun _ : Db => () := ⟨fun _ _ _ => rfl, fun _ _ => rfl, fun _ _ => rfl, fun _ _ => rfl,
    fun _ _ => rfl, fun _ _ => rfl, fun _ _ _ => rfl, fun _ _ _ => rfl, fun _ _ _ _ => rfl⟩
  cases call with
  | create env input grants => exact .map _ (keeps_create (fun _ _ _ => rfl) (fun _ _ => rfl) (fun _ _ => rfl) env input grants)
  | record => exact .map _ (keeps_record hapart _ _ _ _)
  | requestDiscount => exact .map _ (keeps_requestDiscount hapart _ _ _ _ _)
  | requestVoid => exact .map _ (keeps_requestVoid hapart _ _ _ _ _)
  | decide => exact .map _ (keeps_decide hapart _ _ _ _)

end Emis.Billing
