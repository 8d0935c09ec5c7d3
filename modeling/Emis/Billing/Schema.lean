import Emis.Cohorts.Schema
import Emis.Library.Sums
import Emis.Numbering.NumberingService

/-!
# Invoices, payments and approvals

The tables of migration `0008_billing.sql` with the columns the billing services
use, the CHECK constraints on them, and of the other modules' tables what these
services read. Money is a whole number of minor units.
-/

namespace Emis.Billing

open Transactions Emis.Numbering

inductive InvoiceStatus where
  | issued
  | partiallyPaid
  | paid
  | void
  deriving DecidableEq, Repr

inductive PaymentMethod where
  | cash
  | bankTransfer
  | cheque
  deriving DecidableEq, Repr

/-- `method.replaceAll('_', ' ')`. -/
def PaymentMethod.text : PaymentMethod → String
  | .cash => "cash"
  | .bankTransfer => "bank transfer"
  | .cheque => "cheque"

inductive PaymentStatus where
  | posted
  | void
  deriving DecidableEq, Repr

inductive ReceiptStatus where
  | issued
  | void
  deriving DecidableEq, Repr

inductive DiscountKind where
  | percent
  | fixed
  deriving DecidableEq, Repr

inductive ApprovalStatus where
  | pending
  | approved
  | rejected
  deriving DecidableEq, Repr

inductive ApprovalType where
  | discount
  | paymentVoid
  deriving DecidableEq, Repr

/-- The `payload` column; each type of request has its own. -/
inductive Payload where
  | discount (kind : DiscountKind) (value : ℤ) (reasonCode note : String)
  | paymentVoid (receiptNumber : Text) (amount : ℤ)
  deriving DecidableEq, Repr

def Payload.type : Payload → ApprovalType
  | .discount .. => .discount
  | .paymentVoid .. => .paymentVoid

structure StudentRow where
  id : Uuid
  categoryCode : Option String
  deriving DecidableEq, Repr

structure FeeComponent where
  name : String
  amount : ℤ
  deriving DecidableEq, Repr

/-- `fee_structures_total_check` is a field. -/
structure FeeStructureRow where
  id : Uuid
  courseId : Uuid
  categoryCode : Option String
  effectiveFrom : Day
  currency : String
  components : List FeeComponent
  total : ℤ
  isActive : Bool
  total_pos : 0 < total
  deriving DecidableEq, Repr

structure PlanInstallment where
  /-- Share of the total, in basis points. -/
  shareBp : ℕ
  dueOffsetDays : ℕ
  deriving DecidableEq, Repr

structure PaymentPlanRow where
  id : Uuid
  name : String
  installments : List PlanInstallment
  isDefault : Bool := false
  isActive : Bool := true
  version : ℕ := 1
  deriving DecidableEq, Repr

structure InvoiceLine where
  description : String
  amount : ℤ
  deriving DecidableEq, Repr

structure InvoiceRow where
  id : Uuid
  number : Text
  studentId : Uuid
  enrollmentId : Option Uuid
  cohortId : Option Uuid
  branchId : Uuid
  currency : String
  status : InvoiceStatus := .issued
  lines : List InvoiceLine
  subtotal : ℤ
  discountTotal : ℤ := 0
  total : ℤ
  paidTotal : ℤ := 0
  version : ℕ := 1
  createdAt : Instant := 0
  deriving DecidableEq, Repr

structure InstallmentRow where
  id : Uuid
  invoiceId : Uuid
  sequence : ℕ
  dueDate : Day
  amount : ℤ
  paidAmount : ℤ := 0
  deriving DecidableEq, Repr

structure PaymentRow where
  id : Uuid
  invoiceId : Uuid
  studentId : Uuid
  branchId : Uuid
  providerKey : String
  method : PaymentMethod
  reference : Option String
  amount : ℤ
  currency : String
  status : PaymentStatus := .posted
  voidedAt : Option Instant := none
  version : ℕ := 1
  receivedAt : Instant := 0
  deriving DecidableEq, Repr

structure AllocationRow where
  paymentId : Uuid
  installmentId : Uuid
  amount : ℤ
  deriving DecidableEq, Repr

structure ReceiptRow where
  id : Uuid
  paymentId : Uuid
  number : Text
  branchId : Uuid
  status : ReceiptStatus := .issued
  voidedAt : Option Instant := none
  deriving DecidableEq, Repr

structure DiscountRow where
  id : Uuid
  invoiceId : Uuid
  kind : DiscountKind
  value : ℤ
  amount : ℤ
  reasonCode : String
  approvalId : Uuid
  deriving DecidableEq, Repr

structure ApprovalRow where
  id : Uuid
  payload : Payload
  status : ApprovalStatus := .pending
  subjectId : Uuid
  summary : String
  reason : String
  requestedBy : Uuid
  decidedBy : Option Uuid := none
  decisionNote : Option String := none
  decidedAt : Option Instant := none
  version : ℕ := 1
  deriving DecidableEq, Repr

def ApprovalRow.type (r : ApprovalRow) : ApprovalType := r.payload.type

structure Db where
  numbering : Numbering.Db := {}
  enrollments : List Cohorts.EnrollmentRow := []
  cohorts : List Cohorts.CohortRow := []
  students : List StudentRow := []
  descriptors : List Cohorts.DescriptorRow := []
  feeStructures : List FeeStructureRow := []
  paymentPlans : List PaymentPlanRow := []
  invoices : List InvoiceRow := []
  installments : List InstallmentRow := []
  payments : List PaymentRow := []
  paymentAllocations : List AllocationRow := []
  receipts : List ReceiptRow := []
  discounts : List DiscountRow := []
  approvalRequests : List ApprovalRow := []

/-- Row locks, the locks of the number counters, and entries of unique indexes. -/
inductive Lock where
  | numbering (l : Numbering.Lock)
  | invoice (id : Uuid)
  | installment (id : Uuid)
  | payment (id : Uuid)
  | receipt (paymentId : Uuid)
  | discount (id : Uuid)
  | approval (id : Uuid)
  | pending (type : ApprovalType) (subjectId : Uuid)
  | invoiceOf (enrollmentId : Uuid)
  | invoiceNumber (number : Text)
  | receiptNumber (number : Text)
  | paymentPlan (id : Uuid)
  | planName (name : String)
  | defaultPlan
  deriving DecidableEq, Repr

/-- What a call takes from its surroundings: the clock, the time zones, and the
`uuidv7()` of the rows it inserts. -/
structure Env where
  now : Instant := 0
  zone : Instant → String → Day := fun date _ => date / 86400000
  newId : ℕ → Uuid := fun n => n

abbrev Tx := Prog Db Lock Error

/-- A statement of the settings module. -/
def inSettings {α : Type} (p : Numbering.Tx α) : Tx α :=
  p.zoom Db.numbering (fun n d => { d with numbering := n }) Lock.numbering

/-! ## Constraints -/

def checkInvoice (r : InvoiceRow) : Option Violation :=
  if ¬ (0 < r.subtotal ∧ 0 ≤ r.discountTotal ∧ r.discountTotal ≤ r.subtotal) then
    some (.check "invoices_amounts_check")
  else if ¬ (0 ≤ r.paidTotal ∧ r.paidTotal ≤ r.total) then some (.check "invoices_paid_check")
  else if r.total ≠ r.subtotal - r.discountTotal then some (.check "invoices_total_check")
  else none

def checkInstallment (r : InstallmentRow) : Option Violation :=
  if ¬ 0 ≤ r.amount then some (.check "installments_amount_check")
  else if ¬ (0 ≤ r.paidAmount ∧ r.paidAmount ≤ r.amount) then
    some (.check "installments_paid_check")
  else none

def checkAllocation (r : AllocationRow) : Option Violation :=
  if ¬ 0 < r.amount then some (.check "payment_allocations_amount_check") else none

def checkPayment (r : PaymentRow) : Option Violation :=
  if ¬ 0 < r.amount then some (.check "payments_amount_check") else none

def checkDiscount (r : DiscountRow) : Option Violation :=
  if ¬ 0 < r.amount then some (.check "discounts_amount_check") else none

def checkApproval (r : ApprovalRow) : Option Violation :=
  if (r.status = .pending) ≠ (r.decidedBy = none) then
    some (.check "approval_requests_decided_check")
  else if r.decidedBy = some r.requestedBy then
    some (.check "approval_requests_separation_check")
  else none

/-- A statement whose new rows violate a constraint throws. -/
def enforce (v : Option Violation) : Tx Unit :=
  match v with
  | none => pure ()
  | some v => Prog.throw (.database v)

/-! ## Errors -/

/-- `(minorUnits / 100).toFixed(2)`. -/
def toFixed2 (minorUnits : ℤ) : String :=
  let cents := minorUnits.natAbs % 100
  (if minorUnits < 0 then "-" else "") ++ toString (minorUnits.natAbs / 100) ++ "." ++
    (if cents < 10 then "0" else "") ++ toString cents

namespace billingErrors

def paymentPlanNotFound : Error :=
  .http <| notFound "PAYMENT_PLAN_NOT_FOUND" "Payment plan not found."

def codeTaken (what : String) : Error :=
  .http <| conflict "CODE_TAKEN" <| "A " ++ what ++ " with that name already exists."

def noFeeStructure : Error :=
  .http <| unprocessable "NO_FEE_STRUCTURE"
    "No fee is set up for this course yet. Add a fee structure first."

def noPaymentPlan : Error :=
  .http <| unprocessable "NO_PAYMENT_PLAN"
    "There is no payment plan to split the invoice by. Add one (and mark a default)."

def invoiceNotFound : Error := .http <| notFound "INVOICE_NOT_FOUND" "Invoice not found."

def alreadyInvoiced : Error :=
  .http <| conflict "ALREADY_INVOICED" "This enrollment already has an invoice."

def enrollmentNotBillable : Error :=
  .http <| unprocessable "ENROLLMENT_NOT_BILLABLE"
    "Only students who have a seat (or finished the class) can be invoiced."

def paymentNotFound : Error := .http <| notFound "PAYMENT_NOT_FOUND" "Payment not found."

def invoiceClosed : Error :=
  .http <| conflict "INVOICE_CLOSED"
    "This invoice is already fully paid or void, so nothing more can be applied to it."

def overpayment (balance : ℤ) : Error :=
  .http <| unprocessable "OVERPAYMENT" <|
    "That is more than the invoice still owes (" ++ toFixed2 balance ++ ")."

def unknownProvider (key : String) : Error :=
  .http <| unprocessable "UNKNOWN_PAYMENT_PROVIDER" <|
    "Payments can't be taken through \"" ++ key ++ "\" here."

def unsupportedMethod (provider : String) (method : PaymentMethod) : Error :=
  .http <| unprocessable "UNSUPPORTED_PAYMENT_METHOD" <|
    provider ++ " doesn't take " ++ method.text ++ " payments."

def paymentNotPosted : Error :=
  .http <| conflict "PAYMENT_NOT_POSTED" "This payment has already been voided."

def approvalNotFound : Error := .http <| notFound "APPROVAL_NOT_FOUND" "Request not found."

def approvalDecided : Error :=
  .http <| conflict "APPROVAL_ALREADY_DECIDED" "This request has already been decided."

def selfApproval : Error :=
  .http <| forbidden "SELF_APPROVAL"
    "You can't approve or reject your own request. Someone else needs to decide it."

def requestPending : Error :=
  .http <| conflict "REQUEST_ALREADY_PENDING"
    "There is already a request waiting for a decision on this."

def discountTooSmall : Error :=
  .http <| unprocessable "DISCOUNT_TOO_SMALL"
    "That discount comes to nothing. Enter a larger amount or percentage."

def discountTooLarge : Error :=
  .http <| unprocessable "DISCOUNT_TOO_LARGE"
    "That discount is more than what is still unpaid on the invoice."

end billingErrors

end Emis.Billing
