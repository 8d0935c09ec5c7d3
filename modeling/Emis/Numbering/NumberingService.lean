import Emis.Common.Dates
import Emis.Library.Program
import Emis.Numbering.Frames
import Mathlib.Data.List.Sort

/-!
# Issuing numbers

`numbering.service.ts` with `domain/calendar.ts` of the settings module, and the
tables of migration `0004_settings.sql` it uses. Counters are natural numbers;
the source reads a `bigint` as a JavaScript number, which is exact below `2^53`.
-/

namespace Emis.Numbering

open Numerals Transactions

inductive NumberSeriesKey where
  | student
  | application
  | invoice
  | receipt
  | certificate
  deriving DecidableEq, Repr

def NumberSeriesKey.text : NumberSeriesKey → String
  | .student => "student"
  | .application => "application"
  | .invoice => "invoice"
  | .receipt => "receipt"
  | .certificate => "certificate"

def NUMBER_SERIES_KEYS : List NumberSeriesKey :=
  [.student, .application, .invoice, .receipt, .certificate]

structure SeriesDefinition where
  name : String
  defaultPattern : NumberPattern

/-- The built-in series. Every default passes the check of its own. -/
def NUMBER_SERIES : NumberSeriesKey → SeriesDefinition
  | .student => ⟨"Student numbers",
      ⟨['S', 'T', 'U', '-'] ++ Token.text ⟨YYYY, none⟩ ++ ['-'] ++ Token.text ⟨SEQ, some ['5']⟩,
        by decide, by decide⟩⟩
  | .application => ⟨"Application references",
      ⟨['A', 'P', 'P', '-'] ++ Token.text ⟨YY, none⟩ ++ Token.text ⟨MM, none⟩ ++ ['-'] ++
        Token.text ⟨SEQ, some ['4']⟩, by decide, by decide⟩⟩
  | .invoice => ⟨"Invoices",
      ⟨['I', 'N', 'V', '-'] ++ Token.text ⟨FY, none⟩ ++ ['-'] ++ Token.text ⟨SEQ, some ['6']⟩,
        by decide, by decide⟩⟩
  | .receipt => ⟨"Receipts",
      ⟨['R', 'C', 'P', '-'] ++ Token.text ⟨BRANCH, none⟩ ++ ['-'] ++ Token.text ⟨FY, none⟩ ++
        ['-'] ++ Token.text ⟨SEQ, some ['6']⟩, by decide, by decide⟩⟩
  | .certificate => ⟨"Certificates",
      ⟨['C', 'E', 'R', 'T', '-'] ++ Token.text ⟨YYYY, none⟩ ++ ['-'] ++
        Token.text ⟨SEQ, some ['5']⟩, by decide, by decide⟩⟩

/-- The month and day the fiscal year starts. -/
structure MonthDay where
  month : ℕ
  day : ℕ
  deriving DecidableEq, Repr

structure InstitutionRow where
  timezone : String
  fiscalYearStart : MonthDay
  deriving DecidableEq, Repr

structure BranchRow where
  id : Uuid
  code : OrgCode
  name : String
  isActive : Bool
  deriving DecidableEq, Repr

/-- A table is what it has for each value of its primary key. -/
structure Db where
  institution : Option InstitutionRow := none
  branches : List BranchRow := []
  numberSeries : NumberSeriesKey → Option NumberPattern := fun _ => none
  numberCounters : NumberSeriesKey → Text → Option ℕ := fun _ _ => none

inductive Lock where
  | series (key : NumberSeriesKey)
  | counter (key : NumberSeriesKey) (scope : Text)
  deriving DecidableEq, Repr

/-- The current instant, and the date `Intl.DateTimeFormat` gives an instant in
a time zone. -/
structure Env where
  now : Instant := 0
  zone : Instant → String → Day := fun date _ => date / 86400000

abbrev Tx := Prog Db Lock Error

namespace settingsErrors

def branchNotFound : Error := .http <| notFound "BRANCH_NOT_FOUND" "Branch not found."

def unknownSeries : Error := .http <| notFound "UNKNOWN_NUMBER_SERIES" "Unknown number series."

end settingsErrors

/-! ## Calendar -/

/-- The calendar year the fiscal year of a date started in. -/
def fiscalYearOf (year : ℕ) (parts : CalendarParts) (fiscalYearStart : MonthDay) : ℕ :=
  let beforeStart := parts.month < fiscalYearStart.month ∨
    parts.month = fiscalYearStart.month ∧ parts.day < fiscalYearStart.day
  if beforeStart then year - 1 else year

/-- `numberContextAt`, for the date an instant falls on. Years before the first
are counted backwards from it, as `Intl` writes them. -/
def numberContextAt (date : Day) (institution : InstitutionRow) (branchCode : Option OrgCode) :
    NumberContext :=
  let parts := civilOf date
  let year := if 1 ≤ parts.year then parts.year.toNat else (1 - parts.year).toNat
  { year := year
    month := parts.month
    fiscalYear := fiscalYearOf year parts institution.fiscalYearStart
    branchCode := branchCode }

/-- `InstitutionService.row`. -/
def institutionRow : Tx InstitutionRow := do
  let d ← Prog.get
  Prog.expect d.institution
    (.http ⟨500, "INTERNAL_SERVER_ERROR", "Institution row is missing"⟩)

/-! ## The service -/

structure IssuedNumber where
  number : Text
  sequence : ℕ
  deriving DecidableEq, Repr

structure NumberSeries where
  key : NumberSeriesKey
  name : String
  pattern : Text
  defaultPattern : Text
  exampleNumber : Text

/-- The pattern of a series: the stored one, or its default. -/
def Db.patternOf (d : Db) (key : NumberSeriesKey) : NumberPattern :=
  (d.numberSeries key).getD (NUMBER_SERIES key).defaultPattern

/-- `INSERT INTO number_counters … ON CONFLICT DO UPDATE SET last_value + 1`. -/
def Db.count (key : NumberSeriesKey) (scope : Text) (d : Db) : Db :=
  let counters := Function.update (d.numberCounters key) scope
    (some (match d.numberCounters key scope with
      | none => 1
      | some lastValue => lastValue + 1))
  { d with numberCounters := Function.update d.numberCounters key counters }

/-- `INSERT INTO number_series … ON CONFLICT DO UPDATE SET pattern`. -/
def Db.setSeries (key : NumberSeriesKey) (pattern : NumberPattern) (d : Db) : Db :=
  { d with numberSeries := Function.update d.numberSeries key (some pattern) }

def MAIN : OrgCode := ⟨['M', 'A', 'I', 'N'], by decide, by decide⟩

def AB : OrgCode := ⟨['A', 'B'], by decide, by decide⟩

namespace NumberingService

def list (env : Env) : Tx (List NumberSeries) := do
  let stored ← Prog.get
  let inst ← institutionRow
  let d ← Prog.get
  let firstBranch :=
    ((d.branches.filter BranchRow.isActive).insertionSort fun b b' => b.name ≤ b'.name).head?
  let ctx := numberContextAt (env.zone env.now inst.timezone) inst
    (some ((firstBranch.map BranchRow.code).getD MAIN))
  NUMBER_SERIES_KEYS.mapM fun key => do
    let exampleNumber ← Prog.ofExcept (formatNumber (stored.patternOf key).text ctx 1)
    return {
      key := key
      name := (NUMBER_SERIES key).name
      pattern := (stored.patternOf key).text
      defaultPattern := (NUMBER_SERIES key).defaultPattern.text
      exampleNumber := exampleNumber }

def setPattern (env : Env) (key : String) (pattern : NumberPattern) :
    Tx (List NumberSeries) := do
  let key ← Prog.expect (NUMBER_SERIES_KEYS.find? fun k => k.text == key)
    settingsErrors.unknownSeries
  let d ← Prog.get
  Prog.when (d.patternOf key ≠ pattern) do
    Prog.acquire (.series key)
    Prog.modify (Db.setSeries key pattern)
  list env

/-- The code of the branch, for patterns that use it. -/
def branchCodeFor (key : NumberSeriesKey) (pattern : NumberPattern) (branchId : Option Uuid) :
    Tx (Option OrgCode) :=
  if patternUsesBranch pattern.text then do
    let branchId ← Prog.expect branchId
      (.internal ("Number series \"" ++ key.text ++ "\" needs a branch"))
    let d ← Prog.get
    let branch ← Prog.expect (d.branches.find? fun b => b.id == branchId)
      settingsErrors.branchNotFound
    return some branch.code
  else
    return none

/-- Issue the next number in a series. -/
def next (env : Env) (key : NumberSeriesKey) (branchId : Option Uuid) (date : Option Instant) :
    Tx IssuedNumber := do
  let d ← Prog.get
  let pattern := d.patternOf key
  let inst ← institutionRow
  let branchCode ← branchCodeFor key pattern branchId
  let ctx := numberContextAt (env.zone (date.getD env.now) inst.timezone) inst branchCode
  let scope ← Prog.ofExcept (numberScope pattern.text ctx)
  Prog.acquire (.counter key scope)
  Prog.modify (Db.count key scope)
  let d ← Prog.get
  let lastValue ← Prog.expect (d.numberCounters key scope)
    (.internal "Counter upsert returned nothing")
  let number ← Prog.ofExcept (formatNumber pattern.text ctx lastValue)
  return { number := number, sequence := lastValue }

end NumberingService

theorem keeps_institutionRow {τ : Type} {φ : Db → τ} : institutionRow.Keeps φ := .bind .get fun _ => .expect _ _

/-- Drawing a number writes counters only. -/
theorem keeps_next (env : Env) (key : NumberSeriesKey) (branchId : Option Uuid) (date : Option Instant) :
    (NumberingService.next env key branchId date).Keeps Db.institution := by
  apply Prog.Keeps.bind .get
  intro d
  apply Prog.Keeps.bind keeps_institutionRow
  intro inst
  apply Prog.Keeps.bind
  · unfold NumberingService.branchCodeFor
    apply Prog.Keeps.ite
    · exact .bind (.expect _ _) fun _ => .bind .get fun _ => .bind (.expect _ _) fun _ => .pure _
    · exact .pure _
  intro code
  exact .bind (.ofExcept _) fun _ => .bind (.acquire _) fun _ => .bind (.modify fun _ => rfl) fun _ =>
    .bind .get fun _ => .bind (.expect _ _) fun _ => .bind (.ofExcept _) fun _ => .pure _

end Emis.Numbering
