import Emis.Billing.PaymentsService

/-!
# Maker-checker

`approvals.service.ts`: requesting a discount or a void, and deciding. The names
of the people are left out of the answers.
-/

namespace Emis.Billing

open Transactions

def approvalsTable : VersionedTable Db Lock ApprovalRow where
  rows d := d.approvalRequests
  put rows d := { d with approvalRequests := rows }
  id r := r.id
  version r := r.version
  withVersion n r := { r with version := n }
  rowLock := .approval

structure Actor where
  userId : Uuid

structure RequestDiscountValues where
  kind : DiscountKind
  value : ℤ
  reasonCode : String
  note : String
  positive : 1 ≤ value
  bounded : value ≤ MAX_MINOR_UNITS
  percent : kind = .percent → value ≤ 10000

inductive Decision where
  | approve
  | reject
  deriving DecidableEq, Repr

structure DecideApprovalValues where
  decision : Decision
  note : String
  deriving DecidableEq, Repr

/-! ## Texts -/

/-- Thousands separators, on the digits from the last to the first. -/
def groupThousands : List Char → List Char
  | a :: b :: c :: d :: rest => a :: b :: c :: ',' :: groupThousands (d :: rest)
  | digits => digits

def formatMoney (minorUnits : ℤ) (currency : String) : String :=
  let cents := minorUnits.natAbs % 100
  (if minorUnits < 0 then "-" else "") ++ currency ++ " " ++
    String.ofList (groupThousands (Nat.toDigits 10 (minorUnits.natAbs / 100)).reverse).reverse ++
    "." ++ (if cents < 10 then "0" else "") ++ toString cents

/-- `input.value / 100` as JavaScript writes it. -/
def percentText (value : ℤ) : String :=
  let cents := value.natAbs % 100
  toString (value.natAbs / 100) ++
    (if cents = 0 then "" else if cents % 10 = 0 then "." ++ toString (cents / 10)
      else "." ++ (if cents < 10 then "0" else "") ++ toString cents)

/-! ## Statements -/

/-- The trigger `approval_requests_final`. -/
def approvalIsFinal (old : ApprovalRow) : Option Violation :=
  if old.status = .pending then none else some (.raised "A decided approval cannot be changed")

/-- The partial unique index `approval_requests_one_pending_key` and the primary
key; `isUniqueViolation` makes one error of them. -/
def insertApproval (row : ApprovalRow) : Tx Unit := do
  enforce (checkApproval row)
  Prog.acquire (.approval row.id)
  Prog.acquire (.pending row.type row.subjectId)
  let d ← Prog.get
  Prog.require (!d.approvalRequests.any fun r => r.id == row.id ||
      (r.status == .pending && r.type == row.type && r.subjectId == row.subjectId))
    billingErrors.requestPending
  Prog.modify fun d => { d with approvalRequests := d.approvalRequests ++ [row] }

/-- `updateWithVersion` on `approval_requests`, with the trigger and the checks
of the table. -/
def updateApproval (id : Uuid) (expectedVersion : ℕ) (values : ApprovalRow → ApprovalRow) :
    Tx ApprovalRow := do
  Prog.acquire (.approval id)
  let d ← Prog.get
  enforce ((d.approvalRequests.filter fun r => r.id == id && r.version == expectedVersion).findSome?
    fun r => (approvalIsFinal r).or (checkApproval (values r)))
  let result ← updateWithVersion approvalsTable id expectedVersion values
  versionedRow result billingErrors.approvalNotFound

namespace ApprovalsService

/-- `create`; the new row is the answer. -/
def create (env : Env) (payload : Payload) (subjectId : Uuid) (summary reason : String)
    (actor : Actor) : Tx ApprovalRow := do
  let row : ApprovalRow :=
    { id := env.newId 0
      payload := payload
      subjectId := subjectId
      summary := summary
      reason := reason
      requestedBy := actor.userId }
  insertApproval row
  return row

def requestDiscount (env : Env) (invoiceId : Uuid) (input : RequestDiscountValues)
    (grants : List Grant) (actor : Actor) : Tx ApprovalRow := do
  let invoice ← InvoicesService.row invoiceId
  assertScope grants .billingRequest (some { branchId := some invoice.branchId })
  Prog.require (invoice.status != .void && invoice.status != .paid) billingErrors.invoiceClosed
  let d ← Prog.get
  Prog.require (d.descriptors.any fun r =>
      r.ns == "discount_reason" && r.code == input.reasonCode && r.isActive)
    (Cohorts.invalidListValue "discount_reason")
  let amount := discountAmount input.kind input.value invoice.total
  Prog.require (1 ≤ amount) billingErrors.discountTooSmall
  Prog.require (amount ≤ invoice.total - invoice.paidTotal) billingErrors.discountTooLarge
  let what := match input.kind with
    | .percent => percentText input.value ++ "% off"
    | .fixed => formatMoney input.value invoice.currency ++ " off"
  create env (.discount input.kind input.value input.reasonCode input.note) invoiceId
    (what ++ " invoice " ++ String.ofList invoice.number ++ " (" ++
      formatMoney amount invoice.currency ++ ")")
    (if input.note = "" then input.reasonCode else input.note) actor

def requestVoid (env : Env) (paymentId : Uuid) (reason : String) (grants : List Grant)
    (actor : Actor) : Tx ApprovalRow := do
  let payment ← PaymentsService.row paymentId
  assertScope grants .billingRequest (some { branchId := some payment.branchId })
  Prog.require (payment.status == .posted) billingErrors.paymentNotPosted
  let view ← PaymentsService.view paymentId
  create env (.paymentVoid view.receiptNumber payment.amount) paymentId
    ("Void receipt " ++ String.ofList view.receiptNumber ++ " (" ++
      formatMoney payment.amount payment.currency ++ ") on invoice " ++
      String.ofList view.invoiceNumber)
    reason actor

/-- The change an approved request asks for. -/
def applyEffect (env : Env) (request : ApprovalRow) : Tx Unit :=
  match request.payload with
  | .discount kind value reasonCode _ =>
      InvoicesService.applyDiscount env request.subjectId
        { kind := kind, value := value, reasonCode := reasonCode, approvalId := request.id }
  | .paymentVoid _ _ => PaymentsService.voidPayment env request.subjectId

/-- What a decision makes of the row, but for its version. -/
def decidedRow (env : Env) (input : DecideApprovalValues) (actor : Actor) (r : ApprovalRow) :
    ApprovalRow :=
  { r with
    status := match input.decision with
      | .approve => .approved
      | .reject => .rejected
    decidedBy := some actor.userId
    decisionNote := if input.note = "" then none else some input.note
    decidedAt := some env.now }

/-- Approve, which makes the change in this transaction, or reject. -/
def decide (env : Env) (id : Uuid) (input : DecideApprovalValues) (actor : Actor) :
    Tx ApprovalRow := do
  Prog.acquire (.approval id)
  let d ← Prog.get
  let request ← Prog.expect (d.approvalRequests.find? fun r => r.id == id)
    billingErrors.approvalNotFound
  Prog.require (request.status == .pending) billingErrors.approvalDecided
  Prog.require (request.requestedBy != actor.userId) billingErrors.selfApproval
  Prog.when (input.decision == .approve) (applyEffect env request)
  updateApproval id request.version (decidedRow env input actor)

end ApprovalsService

end Emis.Billing
