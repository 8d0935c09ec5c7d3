import Emis.Imports.Csv
import Emis.Imports.PersonSchema

/-!
# Importing students

`modules/imports/application/student-import.service.ts`. The audit entries are left out.
-/

namespace Emis.Imports

open Transactions Admissions
open Cohorts (DescriptorRow)

/-- What an import takes from its surroundings: those of the registrations it makes, with
the ids of the rows each of them inserts. -/
structure ImportEnv extends Admissions.Env where
  classes : Classes := {}
  newStudentIds : ℕ → Uuid := fun n => n
  newGuardianIds : ℕ → Uuid := fun n => n

/-- The surroundings of the row at this position of the file. -/
def ImportEnv.row (env : ImportEnv) (n : ℕ) : Admissions.Env :=
  { env.toEnv with newStudentId := env.newStudentIds n, newGuardianId := fun _ => env.newGuardianIds n }

namespace importErrors

def invalidFile (message : String) : Error := .http <| unprocessable "INVALID_IMPORT_FILE" message

def tooManyRows : Error :=
  .http <| unprocessable "TOO_MANY_ROWS"
    "A file can have at most 2,000 students. Split it into smaller files."

def missingColumns (columns : List StudentImportColumn) : Error :=
  .http <| unprocessable "MISSING_COLUMNS" <|
    "The file has no column for: " ++ ", ".intercalate (columns.map StudentImportColumn.key) ++
      ". Check the first line against the template."

end importErrors

def STUDENT_IMPORT_MAX_ROWS : ℕ := 2000

def MAX_REPORTED_ISSUES : ℕ := 500

inductive OnDuplicate where
  | skip
  | importAnyway
  deriving DecidableEq, Repr

structure StudentImportValues where
  csv : Str
  onDuplicate : OnDuplicate := .skip

inductive IssueKind where
  | error
  | duplicate
  deriving DecidableEq, Repr

structure ImportIssue where
  row : ℕ
  kind : IssueKind
  field : Option String
  message : String
  deriving DecidableEq, Repr

structure StudentImportResult where
  dryRun : Bool
  totalRows : ℕ
  imported : ℕ
  skippedDuplicates : ℕ
  skippedErrors : ℕ
  ignoredColumns : List Str
  issues : List ImportIssue
  issuesTruncated : Bool
  deriving DecidableEq, Repr

/-- The variables of the loop over the rows. -/
structure Tally where
  issues : List ImportIssue := []
  truncated : Bool := false
  imported : ℕ := 0
  skippedDuplicates : ℕ := 0
  skippedErrors : ℕ := 0
  deriving DecidableEq, Repr

def Tally.report (t : Tally) (issue : ImportIssue) : Tally :=
  if t.issues.length < MAX_REPORTED_ISSUES then { t with issues := t.issues ++ [issue] }
  else { t with truncated := true }

/-- The student of a row, and what is wrong with the row: a column, if one is at fault, and
a message. -/
structure Problems where
  student : Option CreateStudentValues
  errors : List (Option String × String)

namespace StudentImportService

structure Parsed where
  map : HeaderMap
  rows : List CsvRow

def parse (env : ImportEnv) (csv : Str) : Except Error Parsed :=
  match parseCsv csv with
  | .error e => .error (importErrors.invalidFile ("Line " ++ toString e.line ++ ": " ++ e.message ++ "."))
  | .ok [] | .ok [_] =>
      .error <| importErrors.invalidFile
        "The file has no students in it: it needs a header line and at least one row."
  | .ok (header :: rows) =>
      if STUDENT_IMPORT_MAX_ROWS < rows.length then .error importErrors.tooManyRows
      else
        let map := mapHeader env.toEnv env.classes header.cells
        if missingColumns map ≠ [] then .error (importErrors.missingColumns (missingColumns map))
        else .ok ⟨map, rows⟩

/-- What `Map.set` has left: the last value of a key. -/
def lookup (table : List (Str × Uuid)) (key : Str) : Option Uuid :=
  (table.reverse.find? fun e => e.1 == key).map Prod.snd

/-- `branchByKey`: the active branches in the order of their names, by code and by name. -/
def branchByKey (env : ImportEnv) (d : Db) : List (Str × Uuid) :=
  ((orderBy (fun b => b.name) d.numbering.branches).filter fun b => b.isActive).flatMap fun b =>
    [(lowered env.toEnv b.code.text, b.id), (lowered env.toEnv b.name.toList, b.id)]

/-- The codes of the categories that are in use. -/
def categories (d : Db) : List String :=
  (d.descriptors.filter fun r => r.ns == "student_category" && r.isActive).map DescriptorRow.code

/-- Required custom fields cannot be filled from a file. -/
def customFieldsBlock (env : ImportEnv) : Tx (Option String) :=
  ((fun _ => none) <$> validateValues env.toEnv "student" []).catching fun _ =>
    pure <| some <|
      "This institution has required custom fields on students, which an import can't fill in yet. " ++
        "Make them optional first."

/-- `shorten`. -/
def shorten (value : Str) : String :=
  String.ofList (if 40 < value.length then value.take 40 ++ ['…'] else value)

def fieldErrors (issues : List FieldIssue) : List (Option String × String) :=
  issues.map fun issue => (some issue.1.key, friendlyMessage issue.1 issue.2)

/-- What is wrong with the branch of a row. -/
def branchErrors (branchText : Str) (branchId : Option Uuid) (grants : List Grant) :
    List (Option String × String) :=
  match branchId with
  | none =>
      [(some "branch", if branchText = [] then "Branch is missing."
        else "No active branch matches “" ++ shorten branchText ++ "”.")]
  | some branchId =>
      if hasPermission grants .studentsManage (some { branchId := some branchId }) then []
      else [(some "branch", "You can't add students to this branch.")]

def categoryErrors (category : Str) (categories : List String) : List (Option String × String) :=
  if category ≠ [] ∧ ¬ categories.contains (String.ofList category) then
    [(some "category", "“" ++ shorten category ++ "” is not a student category.")]
  else []

/-- The guardian of a row, where it names one. -/
def guardiansOf (env : ImportEnv) (cell : StudentImportColumn → Str) :
    Except (List FieldIssue) (List GuardianValues) :=
  if cell .guardianName ≠ [] ∨ cell .guardianPhone ≠ [] then
    (fun guardian => [guardian]) <$> guardianInputSchema env.toEnv env.classes cell
  else .ok []

def validate (env : ImportEnv) (map : HeaderMap) (cells : List Str) (branchByKey : List (Str × Uuid))
    (categories : List String) (grants : List Grant) : Problems :=
  let cell := cellOf map cells
  let person := personFieldsSchema env.toEnv env.classes cell
  let branchId := lookup branchByKey (lowered env.toEnv (cell .branch))
  let guardians := guardiansOf env cell
  let issues {α : Type} : Except (List FieldIssue) α → List (Option String × String)
    | .ok _ => []
    | .error issues => fieldErrors issues
  let errors := issues person ++ branchErrors (cell .branch) branchId grants ++
    categoryErrors (cell .category) categories ++ issues guardians
  match errors, person, branchId, guardians with
  | [], .ok person, some branchId, .ok guardians =>
      { student := some {
          person := person
          branchId := branchId
          categoryCode := if cell .category = [] then none else some (String.ofList (cell .category))
          customFields := []
          guardians := guardians
          confirmNotDuplicate := false }
        errors := [] }
  | errors, _, _, _ => { student := none, errors := errors }

/-- Why a student is taken for a duplicate, in words. -/
def reasons (c : DuplicatesService.Candidate) : List String :=
  (if c.samePhone then ["same phone"] else []) ++ (if c.sameEmail then ["same email"] else []) ++
    (if c.similarName then ["similar name"] else [])

def duplicateMessage : List DuplicatesService.Candidate → String
  | [] => "Looks like an existing student (similar details)."
  | first :: rest =>
      "Looks like " ++ String.ofList first.student.studentNumber ++ " (" ++ ", ".intercalate (reasons first) ++
        ")" ++ (if rest = [] then "" else " and " ++ toString rest.length ++ " more") ++ "."

/-- What the rows are checked against. -/
structure Lists where
  map : HeaderMap
  branchByKey : List (Str × Uuid)
  categories : List String
  customFieldsBlock : Option String

/-- One turn of the loop: the row is an error, a duplicate, or a new student. -/
def runRow (env : ImportEnv) (input : StudentImportValues) (grants : List Grant) (lists : Lists)
    (row : CsvRow × ℕ) (tally : Tally) : Tx Tally := do
  let problems := validate env lists.map row.1.cells lists.branchByKey lists.categories grants
  let errors := problems.errors ++ (lists.customFieldsBlock.map fun message => (none, message)).toList
  match errors, problems.student with
  | [], some student =>
      let candidates ← DuplicatesService.find (env.row row.2) student.person
      if candidates ≠ [] ∧ input.onDuplicate = .skip then
        return { tally with skippedDuplicates := tally.skippedDuplicates + 1 }.report
          ⟨row.1.line, .duplicate, none, duplicateMessage candidates⟩
      else
        let _ ← StudentsService.create (env.row row.2) { student with confirmNotDuplicate := true } grants
        return { tally with imported := tally.imported + 1 }
  | errors, _ =>
      return errors.foldl (fun t e => t.report ⟨row.1.line, .error, e.1, e.2⟩)
        { tally with skippedErrors := tally.skippedErrors + 1 }

/-- The rows share one transaction, and each sees the ones before it. -/
def runRows (env : ImportEnv) (input : StudentImportValues) (grants : List Grant) (lists : Lists) :
    List (CsvRow × ℕ) → Tally → Tx Tally
  | [], tally => return tally
  | row :: rows, tally => do
      let tally ← runRow env input grants lists row tally
      runRows env input grants lists rows tally

def run (env : ImportEnv) (input : StudentImportValues) (grants : List Grant) (dryRun : Bool) :
    Tx StudentImportResult := do
  let parsed ← Prog.ofExcept (parse env input.csv)
  Prog.acquire .studentImport
  let d ← Prog.get
  let branchByKey := branchByKey env d
  let d ← Prog.get
  let categories := categories d
  let customFieldsBlock ← customFieldsBlock env
  let lists : Lists := ⟨parsed.map, branchByKey, categories, customFieldsBlock⟩
  let tally ← runRows env input grants lists parsed.rows.zipIdx {}
  return {
    dryRun := dryRun
    totalRows := parsed.rows.length
    imported := tally.imported
    skippedDuplicates := tally.skippedDuplicates
    skippedErrors := tally.skippedErrors
    ignoredColumns := parsed.map.ignored
    issues := tally.issues
    issuesTruncated := tally.truncated }

def commit (env : ImportEnv) (input : StudentImportValues) (grants : List Grant) : Tx StudentImportResult :=
  run env input grants false

end StudentImportService

end Emis.Imports
