import Emis.Billing.InvoicesService

/-!
# Payments

`payments.service.ts` (`record` and `voidPayment`) with `domain/providers.ts`.
-/

namespace Emis.Billing

open Transactions

structure PaymentProvider where
  key : String
  name : String
  methods : List PaymentMethod

def manualProvider : PaymentProvider := ⟨"manual", "Manual", [.cash, .bankTransfer, .cheque]⟩

def defaultProviders : List PaymentProvider := [manualProvider]

def MAX_MINOR_UNITS : ℤ := 1000000000000

/-- `recordPaymentRequestSchema`: a positive amount, and a reference where the
method needs one. -/
structure RecordPaymentValues where
  invoiceId : Uuid
  amount : ℤ
  method : PaymentMethod
  reference : Option String
  positive : 1 ≤ amount
  bounded : amount ≤ MAX_MINOR_UNITS
  traced : method ≠ .cash → reference.isSome
  deriving DecidableEq

/-! ## Statements -/

def insertPayment (row : PaymentRow) : Tx Unit := do
  enforce (checkPayment row)
  Prog.acquire (.payment row.id)
  let d ← Prog.get
  Prog.require (!d.payments.any fun r => r.id == row.id) (.database (.unique "payments_pkey"))
  Prog.modify fun d => { d with payments := d.payments ++ [row] }

/-- The key of an allocation is its payment with its instalment. -/
def insertAllocations (rows : List AllocationRow) : Tx Unit := do
  enforce (rows.findSome? checkAllocation)
  let d ← Prog.get
  Prog.require
    (((d.paymentAllocations ++ rows).map fun r => (r.paymentId, r.installmentId)).Nodup)
    (.database (.unique "payment_allocations_payment_id_installment_id_pk"))
  Prog.modify fun d => { d with paymentAllocations := d.paymentAllocations ++ rows }

def insertReceipt (row : ReceiptRow) : Tx Unit := do
  Prog.acquire (.receipt row.paymentId)
  Prog.acquire (.receiptNumber row.number)
  let d ← Prog.get
  Prog.require (!d.receipts.any fun r => r.id == row.id) (.database (.unique "receipts_pkey"))
  Prog.require (!d.receipts.any fun r => r.paymentId == row.paymentId)
    (.database (.unique "receipts_payment_id_key"))
  Prog.require (!d.receipts.any fun r => r.number == row.number)
    (.database (.unique "receipts_number_key"))
  Prog.modify fun d => { d with receipts := d.receipts ++ [row] }

/-- `UPDATE payments SET f WHERE id`. -/
def updatePayment (id : Uuid) (f : PaymentRow → PaymentRow) : Tx Unit := do
  Prog.acquire (.payment id)
  let d ← Prog.get
  enforce ((d.payments.filter fun r => r.id == id).findSome? fun r => checkPayment (f r))
  Prog.modify fun d => { d with payments := changeWhere (fun r => r.id == id) f d.payments }

/-- `UPDATE receipts SET f WHERE payment_id`. -/
def updateReceipt (paymentId : Uuid) (f : ReceiptRow → ReceiptRow) : Tx Unit := do
  Prog.acquire (.receipt paymentId)
  Prog.modify fun d =>
    { d with receipts := changeWhere (fun r => r.paymentId == paymentId) f d.receipts }

/-! ## The service -/

structure AllocationView where
  installmentId : Uuid
  sequence : ℕ
  amount : ℤ

structure Payment where
  row : PaymentRow
  invoiceNumber : Numbering.Text
  receiptNumber : Numbering.Text
  allocations : List AllocationView

namespace PaymentsService

def row (id : Uuid) : Tx PaymentRow := do
  let d ← Prog.get
  Prog.expect (d.payment? id) billingErrors.paymentNotFound

/-- A payment joined with its invoice and its receipt. -/
def joined (d : Db) (id : Uuid) : Option (PaymentRow × InvoiceRow × ReceiptRow) :=
  (d.payment? id).bind fun payment => (d.invoice? payment.invoiceId).bind fun invoice =>
    (d.receipts.find? fun r => r.paymentId == payment.id).map fun receipt =>
      (payment, invoice, receipt)

def view (id : Uuid) : Tx Payment := do
  let d ← Prog.get
  let (payment, invoice, receipt) ← Prog.expect (joined d id) billingErrors.paymentNotFound
  let d ← Prog.get
  let allocations := (d.paymentAllocations.filter fun a => a.paymentId == id).filterMap fun a =>
    (d.installments.find? fun i => i.id == a.installmentId).map fun i =>
      (⟨a.installmentId, i.sequence, a.amount⟩ : AllocationView)
  return {
    row := payment
    invoiceNumber := invoice.number
    receiptNumber := receipt.number
    allocations := allocations.insertionSort fun a b => a.sequence ≤ b.sequence }

def newPayment (env : Env) (invoice : InvoiceRow) (provider : PaymentProvider)
    (input : RecordPaymentValues) : PaymentRow where
  id := env.newId 0
  invoiceId := invoice.id
  studentId := invoice.studentId
  branchId := invoice.branchId
  providerKey := provider.key
  method := input.method
  reference := input.reference
  amount := input.amount
  currency := invoice.currency
  receivedAt := env.now

def addPaid (amount : ℤ) (r : InstallmentRow) : InstallmentRow :=
  { r with paidAmount := r.paidAmount + amount }

def record (env : Env) (input : RecordPaymentValues) (grants : List Grant)
    (providerKey : String) : Tx Payment := do
  let provider ← Prog.expect (defaultProviders.find? fun p => p.key == providerKey)
    (billingErrors.unknownProvider providerKey)
  Prog.require (provider.methods.contains input.method)
    (billingErrors.unsupportedMethod provider.name input.method)
  let invoice ← InvoicesService.lock input.invoiceId
  assertScope grants .billingReceive (some { branchId := some invoice.branchId })
  Prog.require (invoice.status != .void && invoice.status != .paid) billingErrors.invoiceClosed
  let parts ← InvoicesService.installmentsOf invoice.id
  let (allocations, remainder) := allocatePayment parts input.amount
  Prog.require (remainder ≤ 0) (billingErrors.overpayment (invoice.total - invoice.paidTotal))
  let payment := newPayment env invoice provider input
  insertPayment payment
  insertAllocations (allocations.map fun a => ⟨payment.id, a.installmentId, a.amount⟩)
  allocations.forM fun a => updateInstallment a.installmentId (addPaid a.amount)
  let _ ← InvoicesService.settle invoice.id
  let issued ← inSettings <|
    Numbering.NumberingService.next { now := env.now, zone := env.zone } .receipt
      (some invoice.branchId) none
  insertReceipt
    { id := env.newId 1
      paymentId := payment.id
      number := issued.number
      branchId := invoice.branchId }
  view payment.id

/-- What `voidPayment` makes of the row of `payment`. -/
def voidedRow (env : Env) (payment r : PaymentRow) : PaymentRow :=
  { r with status := .void, voidedAt := some env.now, version := payment.version + 1 }

def voidedReceipt (env : Env) (r : ReceiptRow) : ReceiptRow :=
  { r with status := .void, voidedAt := some env.now }

/-- Reverse a payment, after an approval. -/
def voidPayment (env : Env) (paymentId : Uuid) : Tx Unit := do
  let found ← row paymentId
  let invoice ← InvoicesService.lock found.invoiceId
  let payment ← row paymentId
  Prog.require (payment.status == .posted) billingErrors.paymentNotPosted
  let d ← Prog.get
  let allocations := d.paymentAllocations.filter fun a => a.paymentId == paymentId
  allocations.forM fun a => updateInstallment a.installmentId (addPaid (-a.amount))
  updatePayment paymentId (voidedRow env payment)
  updateReceipt paymentId (voidedReceipt env)
  let _ ← InvoicesService.settle invoice.id

end PaymentsService

end Emis.Billing
