import Emis.Library.Keyset
import Emis.Reports.Range
import Emis.Reports.Schema
import Mathlib.Data.Prod.Lex

/-!
# The finance reports

`reports.service.ts`, without the CSV files made of the reports and the audit
entries about them.
-/

namespace Emis.Reports

open Transactions Billing

/-- `count(*)` and `coalesce(sum(…), 0)` of some rows. -/
structure Tally where
  count : ℕ
  amount : ℤ
  deriving DecidableEq, Repr

def tally {ρ : Type} (amount : ρ → ℤ) (rows : List ρ) : Tally :=
  ⟨rows.length, (rows.map amount).sum⟩

namespace ReportsService

/-- What the caller's grant lets them see. -/
def scope (grants : List Grant) (branchId : Uuid) (departmentId : Option Uuid) : Bool :=
  let reach := scopesFor grants .reportsFinance
  reach.all || reach.branchIds.contains branchId || departmentId.any reach.departmentIds.contains

/-! ## Revenue -/

inductive RevenueGrouping where
  | day
  | month
  | branch
  | department
  | program
  | method
  deriving DecidableEq, Repr

structure RevenueValues where
  start : Option Day := none
  stop : Option Day := none
  groupBy : RevenueGrouping := .day
  branchId : Option Uuid := none
  departmentId : Option Uuid := none
  method : Option PaymentMethod := none

/-- A key or label of a row: a date, a month or an id for its text, or the text itself. -/
inductive Caption where
  | day (date : Day)
  | month (year : ℤ) (month : ℕ)
  | id (id : Uuid)
  | text (text : String)
  deriving DecidableEq, Repr

structure RevenueRow extends Tally where
  key : Caption
  label : Caption
  deriving DecidableEq, Repr

structure RevenueResponse where
  range : DateRange
  groupBy : RevenueGrouping
  currency : String
  rows : List RevenueRow
  totals : Tally
  voided : Tally

/-- The `method` column. -/
def methodText : PaymentMethod → String
  | .cash => "cash"
  | .bankTransfer => "bank_transfer"
  | .cheque => "cheque"

def METHOD_LABELS (key : Caption) : Option Caption :=
  if key = .text "cash" then some (.text "Cash")
  else if key = .text "bank_transfer" then some (.text "Bank transfer")
  else if key = .text "cheque" then some (.text "Cheque")
  else none

/-- A payment with its branch, its invoice and the class of the invoice. -/
abbrev Received := Joined (PaymentRow × Numbering.BranchRow)

/-- The key and the label a payment is grouped by. -/
def grouping (env : Env) (tz : String) (by_ : RevenueGrouping) (r : Received) : Caption × Caption :=
  let date := env.zone r.row.1.receivedAt tz
  let parts := civilOf date
  match by_ with
  | .day => (.day date, .day date)
  | .month => (.month parts.year parts.month, .month parts.year parts.month)
  | .branch => (.id r.row.2.id, .text r.row.2.name)
  | .department => ((r.department.map fun p => Caption.id p.id).getD (.text "none"),
      .text ((r.department.map DepartmentRow.name).getD "No class"))
  | .program => ((r.program.map fun p => Caption.id p.id).getD (.text "none"),
      .text ((r.program.map ProgramRow.name).getD "No class"))
  | .method => (.text (methodText r.row.1.method), .text (methodText r.row.1.method))

/-- The payments with all that is joined to them. -/
def received (d : Db) : List Received :=
  Joined.withDepartment d <| Joined.withProgram d <|
    Joined.with_ Numbering.BranchRow.id (fun r => r.row.branchId) d.billing.numbering.branches <|
      Joined.withInvoice d PaymentRow.invoiceId d.billing.payments

/-- `received_at` from the midnight that starts the range to the one that ends it. -/
def inWindow (env : Env) (tz : String) (range : DateRange) (r : Received) : Bool :=
  decide (env.midnight tz range.start ≤ r.row.1.receivedAt) &&
    decide (r.row.1.receivedAt < env.midnight tz (range.stop + 1))

/-- The filters of the query, and what the caller may see. -/
def covered (query : RevenueValues) (grants : List Grant) (r : Received) : Bool :=
  query.branchId.all (fun id => r.row.1.branchId == id) &&
    query.departmentId.all (fun id => r.departmentId == some id) &&
    query.method.all (fun method => r.row.1.method == method) &&
    scope grants r.row.1.branchId r.departmentId

/-- The rows of one status, by key and label. -/
def revenueRows (env : Env) (tz : String) (range : DateRange) (query : RevenueValues)
    (grants : List Grant) (status : PaymentStatus) (d : Db) : List RevenueRow :=
  let rows := (received d).filter fun r =>
    r.row.1.status == status && inWindow env tz range r && covered query grants r
  (groupBy (grouping env tz query.groupBy) rows).map fun g =>
    { tally (fun r : Received => r.row.1.amount) g.2 with key := g.1.1, label := g.1.2 }

/-- The order of two texts. -/
def Caption.le : Caption → Caption → Bool
  | .day date, .day date' => decide (date ≤ date')
  | .month y m, .month y' m' => decide (y < y' ∨ y = y' ∧ m ≤ m')
  | .text s, .text s' => decide (s ≤ s')
  | _, _ => true

/-- `ORDER BY 1` for days and months, `ORDER BY 4 DESC, 2` for the others. -/
def revenueOrder (by_ : RevenueGrouping) (r s : RevenueRow) : Bool :=
  match by_ with
  | RevenueGrouping.day | RevenueGrouping.month => Caption.le r.key s.key
  | _ => decide (s.amount < r.amount) || r.amount == s.amount && Caption.le r.label s.label

/-- The sums over the rows. -/
def addUp (rows : List RevenueRow) : Tally :=
  ⟨(rows.map fun r => r.count).sum, (rows.map fun r => r.amount).sum⟩

def revenue (env : Env) (query : RevenueValues) (grants : List Grant) : Tx RevenueResponse := do
  let (inst, currency) ← institution
  let today ← today env
  let range ← Prog.ofExcept (resolveRange query.start query.stop today)
  let tz := inst.timezone
  let d ← Prog.get
  let posted := (revenueRows env tz range query grants .posted d).insertionSort fun r s =>
    revenueOrder query.groupBy r s = true
  let d ← Prog.get
  let voidedRows := revenueRows env tz range query grants .void d
  let rows := posted.map fun r =>
    if query.groupBy = .method then { r with label := (METHOD_LABELS r.key).getD r.key } else r
  return {
    range := range
    groupBy := query.groupBy
    currency := currency
    rows := rows
    totals := addUp rows
    voided := addUp voidedRows }

/-! ## Outstanding balances -/

structure OutstandingQuery where
  asOf : Option Day := none
  branchId : Option Uuid := none
  departmentId : Option Uuid := none

/-- Instalments with something left to pay on an invoice that is not void. -/
def owedConditions (query : OutstandingQuery) (grants : List Grant) (r : Joined InstallmentRow) : Bool :=
  r.invoice.status != .void && decide (r.row.paidAmount < r.row.amount) &&
    query.branchId.all (fun id => r.invoice.branchId == id) &&
    query.departmentId.all (fun id => r.departmentId == some id) &&
    scope grants r.invoice.branchId r.departmentId

/-- The `CASE` on `asOf - due_date`. -/
def bucketExpr (asOf due : Day) : AgingBucket :=
  let days := asOf - due
  if days ≤ 0 then .notDue
  else if days ≤ 30 then .d1To30
  else if days ≤ 60 then .d31To60
  else if days ≤ 90 then .d61To90
  else .d90Plus

structure AgingRow extends Tally where
  bucket : AgingBucket
  label : String
  deriving DecidableEq, Repr

structure OutstandingResponse where
  asOf : Day
  currency : String
  buckets : List AgingRow
  totals : Tally
  overdue : Tally

/-- `query.asOf`, or today. -/
def measuredOn (env : Env) (asOf : Option Day) : Tx Day :=
  match asOf with
  | some asOf => pure asOf
  | none => today env

/-- The instalments with what the summary joins to them. -/
def instalments (d : Db) : List (Joined InstallmentRow) :=
  Joined.withProgram d (Joined.withInvoice d InstallmentRow.invoiceId d.billing.installments)

def outstanding (env : Env) (query : OutstandingQuery) (grants : List Grant) :
    Tx OutstandingResponse := do
  let (_, currency) ← institution
  let asOf ← measuredOn env query.asOf
  let d ← Prog.get
  let rows := (groupBy (fun r => bucketExpr asOf r.row.dueDate)
    ((instalments d).filter (owedConditions query grants))).map fun g =>
      (g.1, tally (fun r : Joined InstallmentRow => r.row.amount - r.row.paidAmount) g.2)
  let buckets := AGING_BUCKETS.map fun bucket =>
    let row := (rows.find? fun r => r.1 == bucket).map Prod.snd
    ({ count := (row.map Tally.count).getD 0
       amount := (row.map Tally.amount).getD 0
       bucket := bucket
       label := AGING_LABELS bucket } : AgingRow)
  let overdue := buckets.filter fun b => b.bucket != .notDue
  return {
    asOf := asOf
    currency := currency
    buckets := buckets
    totals := ⟨(buckets.map fun b => b.count).sum, (buckets.map fun b => b.amount).sum⟩
    overdue := ⟨(overdue.map fun b => b.count).sum, (overdue.map fun b => b.amount).sum⟩ }

/-- `[dueDate, installmentId]`. -/
abbrev DueCursor := Day ×ₗ Uuid

structure OutstandingItemsQuery extends OutstandingQuery where
  bucket : Option AgingBucket := none
  cursor : Option DueCursor := none
  limit : ℕ := 50
  limit_range : 1 ≤ limit ∧ limit ≤ 100 := by decide

structure OutstandingItem where
  installmentId : Uuid
  invoiceId : Uuid
  invoiceNumber : Numbering.Text
  studentId : Uuid
  studentNumber : String
  studentName : String
  branchId : Uuid
  sequence : ℕ
  dueDate : Day
  owed : ℤ
  daysOverdue : ℤ
  bucket : AgingBucket
  deriving DecidableEq, Repr

structure OutstandingItemsResponse where
  items : List OutstandingItem
  nextCursor : Option DueCursor

/-- An instalment with its student, its invoice and the class of the invoice. -/
abbrev Owed := Joined (InstallmentRow × StudentRow)

/-- The instalments with what the listing joins to them. -/
def studentInstalments (d : Db) : List Owed :=
  Joined.withProgram d <|
    Joined.with_ StudentRow.id (fun r => r.invoice.studentId) d.students <|
      Joined.withInvoice d InstallmentRow.invoiceId d.billing.installments

def dueKey (r : Owed) : DueCursor := toLex (r.row.1.dueDate, r.row.1.id)

def toItem (r : Owed) (asOf : Day) : OutstandingItem :=
  let daysOverdue := roundDays (dateParse asOf - dateParse r.row.1.dueDate)
  { installmentId := r.row.1.id
    invoiceId := r.invoice.id
    invoiceNumber := r.invoice.number
    studentId := r.row.2.id
    studentNumber := r.row.2.studentNumber
    studentName := r.row.2.givenName ++ " " ++ r.row.2.fatherName
    branchId := r.invoice.branchId
    sequence := r.row.1.sequence
    dueDate := r.row.1.dueDate
    owed := r.row.1.amount - r.row.1.paidAmount
    daysOverdue := daysOverdue
    bucket := agingBucketFor daysOverdue }

def outstandingItems (env : Env) (query : OutstandingItemsQuery) (grants : List Grant) :
    Tx OutstandingItemsResponse := do
  let asOf ← measuredOn env query.asOf
  let range := (query.bucket.map fun bucket => bucketDueRange bucket asOf).getD {}
  let d ← Prog.get
  let matching := (studentInstalments d).filter fun r =>
    owedConditions query.toOutstandingQuery grants r.fst && range.contains r.row.1.dueDate &&
      query.cursor.all fun cursor => decide (cursor < dueKey r)
  let rows := (Keyset.ascending dueKey matching).take (query.limit + 1)
  -- `toPage`
  let (items, nextCursor) := Keyset.cut dueKey query.limit rows
  return { items := items.map fun r => toItem r asOf, nextCursor := nextCursor }

end ReportsService

def accountant : List Grant := [⟨.reportsFinance, .global⟩]

end Emis.Reports
