import Emis.Common.Calendar
import Emis.Imports.Branches

/-!
# What the database takes of a row

PostgreSQL refuses a text that contains U+0000, and a date that is no calendar date. The
services of the import as they run on such a database: a statement fails on what it sends.
-/

namespace Emis.Imports

open Transactions Admissions

/-- U+0000. -/
def NUL : Char := Char.ofNat 0

def Clean (texts : List String) : Prop := ∀ t ∈ texts, NUL ∉ t.toList

instance : DecidablePred Clean := fun texts => inferInstanceAs (Decidable (∀ t ∈ texts, NUL ∉ t.toList))

def textRefused : Error := .database (.raised "invalid byte sequence for encoding UTF8: 0x00")

def dateRefused : Error := .database (.raised "date/time field value out of range")

/-- The parameters of a statement; a date is sent as the text that was checked. -/
def send (texts : List String) (dates : List Day) : Tx Unit := do
  Prog.require (Clean texts) textRefused
  Prog.require (dates.all fun day => isoDate (dateText day) == some day) dateRefused

/-- What the search for duplicates sends. -/
def probeTexts (env : Admissions.Env) (p : Person) : List String :=
  (DuplicatesService.probeName env p).toList ++ p.phone :: (p.email.map env.lower).toList

def personTexts (p : Person) : List String :=
  p.givenName :: p.fatherName :: p.phone ::
    (p.grandfatherName.toList ++ p.email.toList ++ p.address.toList ++ p.city.toList)

def guardianTexts (g : GuardianValues) : List String := g.name :: g.relationship :: g.phone :: g.email.toList

/-- All texts of a student that are stored. -/
def storedTexts (input : CreateStudentValues) : List String :=
  personTexts input.person ++ input.categoryCode.toList ++ input.guardians.flatMap guardianTexts

namespace Postgres

def find (env : Admissions.Env) (p : Person) : Tx (List DuplicatesService.Candidate) := do
  send (probeTexts env p) []
  DuplicatesService.find env p

def create (env : Admissions.Env) (input : CreateStudentValues) (grants : List Grant) : Tx Student := do
  assertScope grants .studentsManage (some { branchId := some input.branchId })
  let active ← isActiveBranch input.branchId
  Prog.require active studentErrors.branchNotFound
  send input.categoryCode.toList []
  DescriptorsService.assertActiveCode "student_category" input.categoryCode
  let customFields ← validateValues env "student" input.customFields
  Prog.when (!input.confirmNotDuplicate) do
    let candidates ← find env input.person
    Prog.require candidates.isEmpty studentErrors.duplicateSuspected
  let issued ← nextNumber env .student none
  let row := StudentsService.newStudent env input customFields issued.number
  send (personTexts input.person ++ input.categoryCode.toList) input.person.dateOfBirth.toList
  StudentsService.insertStudent row
  send (input.guardians.flatMap guardianTexts) []
  let guardians ← StudentsService.insertGuardians env row.id input.guardians
  return ⟨row, guardians⟩

def runRow (env : ImportEnv) (input : StudentImportValues) (grants : List Grant)
    (lists : StudentImportService.Lists) (row : CsvRow × ℕ) (tally : Tally) : Tx Tally := do
  let problems := StudentImportService.validate env lists.map row.1.cells lists.branchByKey lists.categories grants
  let errors := problems.errors ++ (lists.customFieldsBlock.map fun message => (none, message)).toList
  match errors, problems.student with
  | [], some student =>
      let candidates ← find (env.row row.2) student.person
      if candidates ≠ [] ∧ input.onDuplicate = .skip then
        return { tally with skippedDuplicates := tally.skippedDuplicates + 1 }.report
          ⟨row.1.line, .duplicate, none, StudentImportService.duplicateMessage candidates⟩
      else
        let _ ← create (env.row row.2) { student with confirmNotDuplicate := true } grants
        return { tally with imported := tally.imported + 1 }
  | errors, _ =>
      return errors.foldl (fun t e => t.report ⟨row.1.line, .error, e.1, e.2⟩)
        { tally with skippedErrors := tally.skippedErrors + 1 }

def runRows (env : ImportEnv) (input : StudentImportValues) (grants : List Grant)
    (lists : StudentImportService.Lists) : List (CsvRow × ℕ) → Tally → Tx Tally
  | [], tally => return tally
  | row :: rows, tally => do
      let tally ← runRow env input grants lists row tally
      runRows env input grants lists rows tally

def run (env : ImportEnv) (input : StudentImportValues) (grants : List Grant) (dryRun : Bool) :
    Tx StudentImportResult := do
  let parsed ← Prog.ofExcept (StudentImportService.parse env input.csv)
  Prog.acquire .studentImport
  let d ← Prog.get
  let branchByKey := StudentImportService.branchByKey env d
  let d ← Prog.get
  let categories := StudentImportService.categories d
  let customFieldsBlock ← StudentImportService.customFieldsBlock env
  let lists : StudentImportService.Lists := ⟨parsed.map, branchByKey, categories, customFieldsBlock⟩
  let tally ← runRows env input grants lists parsed.rows.zipIdx {}
  return {
    dryRun := dryRun
    totalRows := parsed.rows.length
    imported := tally.imported
    skippedDuplicates := tally.skippedDuplicates
    skippedErrors := tally.skippedErrors
    ignoredColumns := parsed.map.ignored
    issues := tally.issues
    issuesTruncated := tally.truncated }

end Postgres

/-- What stops an import whatever its rows contain: drawing the student number, and the
keys of the new row. -/
inductive Elsewhere : Error → Prop where
  | institution : Elsewhere (.http ⟨500, "INTERNAL_SERVER_ERROR", "Institution row is missing"⟩)
  | numbering (message : String) : Elsewhere (.internal message)
  | number : Elsewhere (.database (.unique "students_student_number_key"))
  | id : Elsewhere (.database (.unique "students_pkey"))

end Emis.Imports
