import Emis.Admissions.Schema
import Mathlib.Algebra.Order.Ring.Rat

/-!
# Student records

`modules/students/application`: registering, changing and reading students, with
the search for duplicates. The audit entries are left out.
-/

namespace Emis.Admissions

open Transactions
open Cohorts (StudentStatus)

namespace studentErrors

def notFound : Error := .http <| Emis.notFound "STUDENT_NOT_FOUND" "Student not found."

def duplicateSuspected : Error :=
  .http <| conflict "DUPLICATE_STUDENT_SUSPECTED" <|
    "A student with the same phone, email or a very similar name already exists. " ++
      "Check the matches, and if this is someone new, confirm it and try again."

def branchNotFound : Error := .http <| unprocessable "BRANCH_NOT_FOUND" "That branch doesn't exist."

end studentErrors

/-! ## Requests and answers -/

/-- A field of an update request: absent, or the value to set. -/
abbrev Change (α : Type) := Option α

structure UpdatePerson where
  givenName : Change String := none
  fatherName : Change String := none
  grandfatherName : Change (Option String) := none
  gender : Change Gender := none
  dateOfBirth : Change (Option Day) := none
  phone : Change String := none
  email : Change (Option String) := none
  address : Change (Option String) := none
  city : Change (Option String) := none

def UpdatePerson.apply (input : UpdatePerson) (p : Person) : Person where
  givenName := input.givenName.getD p.givenName
  fatherName := input.fatherName.getD p.fatherName
  grandfatherName := input.grandfatherName.getD p.grandfatherName
  gender := input.gender.getD p.gender
  dateOfBirth := input.dateOfBirth.getD p.dateOfBirth
  phone := input.phone.getD p.phone
  email := input.email.getD p.email
  address := input.address.getD p.address
  city := input.city.getD p.city

structure GuardianValues where
  name : String
  relationship : String
  phone : String
  email : Option String := none
  isPrimary : Bool := false
  isPayer : Bool := false

structure CreateStudentValues where
  person : Person
  branchId : Uuid
  categoryCode : Option String := none
  customFields : CustomValues := []
  guardians : List GuardianValues := []
  confirmNotDuplicate : Bool := false

structure UpdateStudentValues where
  person : UpdatePerson := {}
  categoryCode : Change (Option String) := none
  customFields : Change CustomValues := none
  status : Change StudentStatus := none

/-- `toStudent`. -/
structure Student where
  row : StudentRow
  guardians : List GuardianRow

/-! ## Duplicates -/

namespace DuplicatesService

/-- Trigram similarity (0–1) from which two names count as "possibly the same person". -/
def NAME_SIMILARITY_THRESHOLD : ℚ := 45 / 100

def MAX_CANDIDATES : ℕ := 10

/-- The generated column `search_name`. -/
def searchName (env : Env) (p : Person) : String :=
  env.lower (p.givenName ++ " " ++ p.fatherName ++ " " ++ p.grandfatherName.getD "")

/-- The name to look for: both names are needed, the third is optional. -/
def probeName (env : Env) (p : Person) : Option String :=
  if p.givenName ≠ "" ∧ p.fatherName ≠ "" then
    some <| env.lower <| " ".intercalate <|
      ([p.givenName, p.fatherName] ++ p.grandfatherName.toList).filter fun part => part ≠ ""
  else none

structure Candidate where
  student : StudentRow
  samePhone : Bool
  sameEmail : Bool
  similarName : Bool
  similarity : ℚ

/-- `find`: same phone, same email or a very similar name, in every branch. The
phone of a record is normalized already, and so is its email. -/
def find (env : Env) (p : Person) : Tx (List Candidate) := do
  let name := probeName env p
  let d ← Prog.get
  let candidates := d.students.map fun s : StudentRow =>
    let similarity := (name.map (env.similarity (searchName env s.person))).getD 0
    { student := s
      samePhone := s.person.phone == p.phone
      sameEmail := p.email.isSome && s.person.email.map env.lower == p.email.map env.lower
      similarName := name.isSome && decide (NAME_SIMILARITY_THRESHOLD ≤ similarity)
      similarity := similarity : Candidate }
  let matching := candidates.filter fun c => c.samePhone || c.sameEmail || c.similarName
  return (orderBy (fun c => toLex (-c.similarity, -c.student.createdAt)) matching).take
    MAX_CANDIDATES

end DuplicatesService

/-! ## The service -/

namespace StudentsService

/-- `withGuardians` of one row: the primary contact first, then the oldest. -/
def withGuardians (row : StudentRow) : Tx Student := do
  let d ← Prog.get
  let guardians := d.studentGuardians.filter fun g => g.studentId == row.id
  return ⟨row, orderBy (fun g => toLex (!g.isPrimary, g.createdAt)) guardians⟩

def row (id : Uuid) : Tx StudentRow := do
  let d ← Prog.get
  Prog.expect (studentsTable.row? d id) studentErrors.notFound

def get (id : Uuid) (grants : List Grant) : Tx Student := do
  let row ← row id
  assertBranchAccess grants .studentsRead row.branchId
  withGuardians row

/-- For other modules that need to know a student exists. -/
def requireExisting (id : Uuid) : Tx StudentRow := row id

def newGuardian (env : Env) (studentId : Uuid) (g : GuardianValues) (n : ℕ) : GuardianRow where
  id := env.newGuardianId n
  studentId := studentId
  name := g.name
  relationship := g.relationship
  phone := g.phone
  email := g.email
  isPrimary := g.isPrimary
  isPayer := g.isPayer
  createdAt := env.now

/-- The partial unique indexes allow one primary contact and one payer. -/
def insertGuardians (env : Env) (studentId : Uuid) (guardians : List GuardianValues) :
    Tx (List GuardianRow) := do
  let rows := guardians.zipIdx.map fun g => newGuardian env studentId g.1 g.2
  Prog.require ((rows.filter GuardianRow.isPrimary).length ≤ 1)
    (.database (.unique "student_guardians_one_primary_key"))
  Prog.require ((rows.filter GuardianRow.isPayer).length ≤ 1)
    (.database (.unique "student_guardians_one_payer_key"))
  Prog.modify fun d => { d with studentGuardians := d.studentGuardians ++ rows }
  return rows

/-- `INSERT INTO students`: entries of the unique indexes are taken first. -/
def insertStudent (row : StudentRow) : Tx Unit := do
  Prog.acquire (.studentNumber row.studentNumber)
  let d ← Prog.get
  Prog.require (!d.students.any fun s => s.studentNumber == row.studentNumber)
    (.database (.unique "students_student_number_key"))
  Prog.acquire (.student row.id)
  let d ← Prog.get
  Prog.require (!d.students.any fun s => s.id == row.id) (.database (.unique "students_pkey"))
  Prog.modify fun d => { d with students := d.students ++ [row] }

def newStudent (env : Env) (input : CreateStudentValues) (customFields : CustomValues)
    (number : Str) : StudentRow where
  id := env.newStudentId
  studentNumber := number
  person := input.person
  branchId := input.branchId
  categoryCode := input.categoryCode
  customFields := customFields
  createdAt := env.now

def create (env : Env) (input : CreateStudentValues) (grants : List Grant) : Tx Student := do
  assertScope grants .studentsManage (some { branchId := some input.branchId })
  let active ← isActiveBranch input.branchId
  Prog.require active studentErrors.branchNotFound
  DescriptorsService.assertActiveCode "student_category" input.categoryCode
  let customFields ← validateValues env "student" input.customFields
  Prog.when (!input.confirmNotDuplicate) do
    let candidates ← DuplicatesService.find env input.person
    Prog.require candidates.isEmpty studentErrors.duplicateSuspected
  let issued ← nextNumber env .student none
  let row := newStudent env input customFields issued.number
  insertStudent row
  let guardians ← insertGuardians env row.id input.guardians
  return ⟨row, guardians⟩

def updatedStudent (input : UpdateStudentValues) (customFields : Change CustomValues)
    (s : StudentRow) : StudentRow :=
  { s with
    person := input.person.apply s.person
    categoryCode := input.categoryCode.getD s.categoryCode
    customFields := customFields.getD s.customFields
    status := input.status.getD s.status }

def update (env : Env) (id : Uuid) (input : UpdateStudentValues) (expectedVersion : ℕ)
    (grants : List Grant) : Tx Student := do
  let before ← row id
  assertScope grants .studentsManage (some { branchId := some before.branchId })
  Prog.when (input.categoryCode.isSome && input.categoryCode != some before.categoryCode) <|
    DescriptorsService.assertActiveCode "student_category" (input.categoryCode.getD none)
  let customFields ← validateChange env "student" input.customFields
  let result ← updateWithVersion studentsTable id expectedVersion (updatedStudent input customFields)
  let row ← versionedRow result studentErrors.notFound
  withGuardians row

/-- Replace the student's guardians; the student's version moves on. -/
def setGuardians (env : Env) (id : Uuid) (guardians : List GuardianValues) (expectedVersion : ℕ)
    (grants : List Grant) : Tx Student := do
  let before ← row id
  assertScope grants .studentsManage (some { branchId := some before.branchId })
  let result ← updateWithVersion studentsTable id expectedVersion fun s => s
  let row ← versionedRow result studentErrors.notFound
  Prog.modify fun d => { d with
    studentGuardians := d.studentGuardians.filter fun g => g.studentId != id }
  let rows ← insertGuardians env id guardians
  return ⟨row, rows⟩

end StudentsService

end Emis.Admissions
