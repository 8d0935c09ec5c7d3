import Emis.Billing.MoneyFlow

/-!
# Invoices

`invoices.service.ts`, with the look-ups it makes in other modules:
`EnrollmentsService.billingContext`, `StudentsService.requireExisting`,
`FeesService.resolve`, the payment plans and the institution's date. The names
of students and the audit entries are left out: nothing here reads them.
-/

namespace Emis.Billing

open Transactions

namespace Db

variable (d : Db)

def invoice? (id : Uuid) : Option InvoiceRow := d.invoices.find? fun r => r.id == id

def payment? (id : Uuid) : Option PaymentRow := d.payments.find? fun r => r.id == id

/-- `ORDER BY sequence`. -/
def installmentsOf (invoiceId : Uuid) : List InstallmentRow :=
  (d.installments.filter fun r => r.invoiceId == invoiceId).insertionSort
    fun r s => r.sequence ≤ s.sequence

end Db

/-! ## Look-ups -/

structure BillingContext where
  enrollmentId : Uuid
  status : Cohorts.EnrollmentStatus
  studentId : Uuid
  cohortId : Uuid
  courseId : Uuid
  branchId : Uuid
  startDate : Day

/-- Enrollments joined with their cohorts. -/
def billingContext (id : Uuid) : Tx (Option BillingContext) := do
  let d ← Prog.get
  return (d.enrollments.find? fun e => e.id == id).bind fun e =>
    (d.cohorts.find? fun c => c.id == e.cohortId).map fun c =>
      { enrollmentId := e.id
        status := e.status
        studentId := e.studentId
        cohortId := e.cohortId
        courseId := c.courseId
        branchId := c.branchId
        startDate := c.startDate }

def requireExisting (id : Uuid) : Tx StudentRow := do
  let d ← Prog.get
  Prog.expect (d.students.find? fun s => s.id == id) Cohorts.studentNotFound

/-- `InstitutionService.today`. -/
def today (env : Env) : Tx Day := do
  let inst ← inSettings Numbering.institutionRow
  return env.zone env.now inst.timezone

/-- A structure for the category beats the general one, then the latest wins. -/
def preferred (a b : FeeStructureRow) : Prop :=
  a.categoryCode.isSome ∧ ¬ b.categoryCode.isSome ∨
    (a.categoryCode.isSome ↔ b.categoryCode.isSome) ∧ b.effectiveFrom ≤ a.effectiveFrom

instance : DecidableRel preferred := fun a b => by
  unfold preferred
  infer_instance

/-- `FeesService.resolve`: the price for a course on a date. -/
def resolve (courseId : Uuid) (categoryCode : Option String) (asOf : Day) :
    Tx (Option FeeStructureRow) := do
  let d ← Prog.get
  let rows := d.feeStructures.filter fun r =>
    r.courseId == courseId && r.isActive && decide (r.effectiveFrom ≤ asOf) &&
      (r.categoryCode == none ||
        (categoryCode.any fun code => code ≠ "" && r.categoryCode == some code))
  return (rows.insertionSort preferred).head?

def findPlan (id : Uuid) : Tx (Option PaymentPlanRow) := do
  let d ← Prog.get
  return d.paymentPlans.find? fun p => p.id == id

def defaultPlan : Tx (Option PaymentPlanRow) := do
  let d ← Prog.get
  return d.paymentPlans.find? fun p => p.isDefault && p.isActive

/-! ## Statements -/

/-- The two unique indexes and the primary key of `invoices`; `isUniqueViolation`
makes one error of them. -/
def insertInvoice (row : InvoiceRow) : Tx Unit := do
  enforce (checkInvoice row)
  Prog.acquire (.invoice row.id)
  Prog.acquire (.invoiceNumber row.number)
  row.enrollmentId.toList.forM fun enrollmentId => Prog.acquire (.invoiceOf enrollmentId)
  let d ← Prog.get
  Prog.require (!d.invoices.any fun r => r.id == row.id || r.number == row.number ||
    (r.enrollmentId.isSome && r.enrollmentId == row.enrollmentId)) billingErrors.alreadyInvoiced
  Prog.modify fun d => { d with invoices := d.invoices ++ [row] }

def insertInstallments (rows : List InstallmentRow) : Tx Unit := do
  enforce (rows.findSome? checkInstallment)
  rows.forM fun r => Prog.acquire (.installment r.id)
  let d ← Prog.get
  Prog.require (((d.installments ++ rows).map InstallmentRow.id).Nodup)
    (.database (.unique "installments_pkey"))
  Prog.modify fun d => { d with installments := d.installments ++ rows }

/-- `UPDATE installments SET f WHERE id`. -/
def updateInstallment (id : Uuid) (f : InstallmentRow → InstallmentRow) : Tx Unit := do
  Prog.acquire (.installment id)
  let d ← Prog.get
  enforce ((d.installments.filter fun r => r.id == id).findSome? fun r => checkInstallment (f r))
  Prog.modify fun d =>
    { d with installments := changeWhere (fun r => r.id == id) f d.installments }

/-- `UPDATE invoices SET f WHERE id`. -/
def updateInvoice (id : Uuid) (f : InvoiceRow → InvoiceRow) : Tx Unit := do
  Prog.acquire (.invoice id)
  let d ← Prog.get
  enforce ((d.invoices.filter fun r => r.id == id).findSome? fun r => checkInvoice (f r))
  Prog.modify fun d => { d with invoices := changeWhere (fun r => r.id == id) f d.invoices }

def insertDiscount (row : DiscountRow) : Tx Unit := do
  enforce (checkDiscount row)
  Prog.acquire (.discount row.id)
  let d ← Prog.get
  Prog.require (!d.discounts.any fun r => r.id == row.id)
    (.database (.unique "discounts_pkey"))
  Prog.modify fun d => { d with discounts := d.discounts ++ [row] }

/-! ## The service -/

structure Invoice where
  row : InvoiceRow
  balance : ℤ
  installments : List (InstallmentRow × InstallmentStatus)

structure CreateInvoiceValues where
  enrollmentId : Uuid
  planId : Option Uuid

/-- What `approvals.service.ts` passes on of an approved discount. -/
structure ApprovedDiscount where
  kind : DiscountKind
  value : ℤ
  reasonCode : String
  approvalId : Uuid

namespace InvoicesService

def row (id : Uuid) : Tx InvoiceRow := do
  let d ← Prog.get
  Prog.expect (d.invoice? id) billingErrors.invoiceNotFound

/-- `present` of one row. -/
def present (env : Env) (row : InvoiceRow) : Tx Invoice := do
  let d ← Prog.get
  let today ← today env
  return {
    row := row
    balance := if row.status = .void then 0 else row.total - row.paidTotal
    installments := (d.installmentsOf row.id).map fun p => (p, installmentStatusFor p today) }

def view (env : Env) (id : Uuid) : Tx Invoice := do
  let found ← row id
  present env found

/-- Take the invoice's row lock. -/
def lock (id : Uuid) : Tx InvoiceRow := do
  Prog.acquire (.invoice id)
  let d ← Prog.get
  Prog.expect (d.invoice? id) billingErrors.invoiceNotFound

def installmentsOf (invoiceId : Uuid) : Tx (List InstallmentRow) := do
  let d ← Prog.get
  return d.installmentsOf invoiceId

/-- What `settle` makes of the row, from its instalments. -/
def settledRow (before : InvoiceRow) (parts : List InstallmentRow) (r : InvoiceRow) :
    InvoiceRow :=
  let total := (parts.map InstallmentRow.amount).sum
  let paidTotal := (parts.map InstallmentRow.paidAmount).sum
  { r with
    total := total
    paidTotal := paidTotal
    discountTotal := before.subtotal - total
    status := if before.status = .void then .void else invoiceStatusFor total paidTotal
    version := before.version + 1 }

/-- Recompute the invoice's totals and status from its instalments. -/
def settle (invoiceId : Uuid) : Tx InvoiceRow := do
  let before ← row invoiceId
  let parts ← installmentsOf invoiceId
  updateInvoice invoiceId (settledRow before parts)
  row invoiceId

def newInvoice (env : Env) (number : Numbering.Text) (ctx : BillingContext)
    (structure_ : FeeStructureRow) : InvoiceRow where
  id := env.newId 0
  number := number
  studentId := ctx.studentId
  enrollmentId := some ctx.enrollmentId
  cohortId := some ctx.cohortId
  branchId := ctx.branchId
  currency := structure_.currency
  lines := structure_.components.map fun c => ⟨c.name, c.amount⟩
  subtotal := structure_.total
  total := structure_.total
  createdAt := env.now

def newInstallments (env : Env) (invoiceId : Uuid) (parts : List InstallmentPart) :
    List InstallmentRow :=
  parts.mapIdx fun n part =>
    { id := env.newId (n + 1)
      invoiceId := invoiceId
      sequence := part.sequence
      dueDate := part.dueDate
      amount := part.amount }

/-- `fees.resolve` at the start of the class, else today. -/
def priceFor (ctx : BillingContext) (student : StudentRow) (today : Day) :
    Tx (Option FeeStructureRow) := do
  let atStart ← resolve ctx.courseId student.categoryCode ctx.startDate
  match atStart with
  | some found => return some found
  | none => resolve ctx.courseId student.categoryCode today

/-- The plan asked for, which has to be active, or the default. -/
def planFor (planId : Option Uuid) : Tx PaymentPlanRow := do
  match planId with
  | some planId =>
      let plan ← findPlan planId
      Prog.require (plan.any PaymentPlanRow.isActive) billingErrors.paymentPlanNotFound
      Prog.expect plan billingErrors.noPaymentPlan
  | none =>
      let plan ← defaultPlan
      Prog.expect plan billingErrors.noPaymentPlan

/-- Bill an enrollment. -/
def create (env : Env) (input : CreateInvoiceValues) (grants : List Grant) : Tx Invoice := do
  let ctx? ← billingContext input.enrollmentId
  let ctx ← Prog.expect ctx? billingErrors.enrollmentNotBillable
  assertScope grants .billingInvoice (some { branchId := some ctx.branchId })
  Prog.require (ctx.status == .active || ctx.status == .completed)
    billingErrors.enrollmentNotBillable
  let d ← Prog.get
  Prog.require (!d.invoices.any fun r => r.enrollmentId == some ctx.enrollmentId)
    billingErrors.alreadyInvoiced
  let student ← requireExisting ctx.studentId
  let today ← today env
  let structure? ← priceFor ctx student today
  let structure_ ← Prog.expect structure? billingErrors.noFeeStructure
  let plan ← planFor input.planId
  let issued ← inSettings <|
    Numbering.NumberingService.next { now := env.now, zone := env.zone } .invoice
      (some ctx.branchId) none
  let invoice := newInvoice env issued.number ctx structure_
  insertInvoice invoice
  let parts ← Prog.ofExcept (buildInstallments structure_.total plan.installments today)
  insertInstallments (newInstallments env invoice.id parts)
  view env invoice.id

def setAmount (newAmount : ℤ) (r : InstallmentRow) : InstallmentRow :=
  { r with amount := newAmount }

/-- Cut the unpaid instalments and record the discount. -/
def applyDiscount (env : Env) (invoiceId : Uuid) (discount : ApprovedDiscount) : Tx Unit := do
  let invoice ← lock invoiceId
  Prog.require (invoice.status != .void && invoice.status != .paid) billingErrors.invoiceClosed
  let parts ← installmentsOf invoiceId
  let amount := discountAmount discount.kind discount.value invoice.total
  Prog.require (1 ≤ amount) billingErrors.discountTooSmall
  Prog.require (amount ≤ invoice.total - invoice.paidTotal) billingErrors.discountTooLarge
  let changes ← Prog.ofExcept (Billing.applyDiscount parts amount)
  changes.forM fun change =>
    updateInstallment change.installmentId (setAmount change.newAmount)
  insertDiscount
    { id := env.newId 0
      invoiceId := invoiceId
      kind := discount.kind
      value := discount.value
      amount := amount
      reasonCode := discount.reasonCode
      approvalId := discount.approvalId }
  let _ ← settle invoiceId

end InvoicesService

end Emis.Billing
