import Emis.Cohorts.Schema
import Emis.Common.Json
import Emis.Numbering.NumberingService
import Mathlib.Data.Prod.Lex
import Mathlib.Data.String.Basic

/-!
# Students and applications

The tables of migration `0006_students.sql`, and of the catalog and the settings
what their services read. `created_by`, `updated_by` and `updated_at` are written
and never read; the generated column `search_name` is a function of the row.
-/

namespace Emis.Admissions

open Transactions
open Cohorts (ApplicationStatus StudentStatus DescriptorRow)

inductive Gender where
  | female
  | male
  deriving DecidableEq, Repr

/-- The personal details shared by students and applicants. -/
structure Person where
  givenName : String
  fatherName : String
  grandfatherName : Option String := none
  gender : Gender
  dateOfBirth : Option Day := none
  phone : String
  email : Option String := none
  address : Option String := none
  city : Option String := none
  deriving DecidableEq, Repr

/-- Values of the institution's custom fields by their keys. -/
abbrev CustomValues := List (String × Json)

structure ApplicationRow where
  id : Uuid
  reference : Str
  status : ApplicationStatus := .submitted
  person : Person
  branchId : Uuid
  source : Option String := none
  desiredCourseId : Option Uuid := none
  preferredShiftId : Option Uuid := none
  preferredIntakeId : Option Uuid := none
  notes : Option String := none
  customFields : CustomValues := []
  placementScore : Option ℚ := none
  placementCourseId : Option Uuid := none
  placementNotes : Option String := none
  placedAt : Option Instant := none
  studentId : Option Uuid := none
  createdAt : Instant := 0
  version : ℕ := 1

structure StudentRow where
  id : Uuid
  studentNumber : Str
  person : Person
  status : StudentStatus := .active
  branchId : Uuid
  categoryCode : Option String := none
  customFields : CustomValues := []
  createdAt : Instant := 0
  version : ℕ := 1

structure GuardianRow where
  id : Uuid
  studentId : Uuid
  name : String
  relationship : String
  phone : String
  email : Option String := none
  isPrimary : Bool := false
  isPayer : Bool := false
  createdAt : Instant := 0
  deriving DecidableEq, Repr

inductive CustomFieldType where
  | text
  | longText
  | number
  | date
  | select
  | checkbox
  deriving DecidableEq, Repr

structure CustomFieldRow where
  entityType : String
  key : String
  label : String
  fieldType : CustomFieldType
  options : List String := []
  required : Bool := false
  isActive : Bool := true
  sortOrder : ℕ := 0
  deriving DecidableEq, Repr

structure DepartmentRow where
  id : Uuid
  isActive : Bool := true
  deriving DecidableEq, Repr

structure ProgramRow where
  id : Uuid
  departmentId : Uuid
  isPublished : Bool := false
  deriving DecidableEq, Repr

structure CourseRow where
  id : Uuid
  programId : Uuid
  name : String
  isActive : Bool := true
  deriving DecidableEq, Repr

structure ShiftRow where
  id : Uuid
  isActive : Bool := true
  deriving DecidableEq, Repr

/-- The branches are among the tables that numbering reads. -/
structure Db where
  applications : List ApplicationRow := []
  students : List StudentRow := []
  studentGuardians : List GuardianRow := []
  descriptors : List DescriptorRow := []
  customFieldDefinitions : List CustomFieldRow := []
  moduleSettings : List (String × Bool) := []
  departments : List DepartmentRow := []
  programs : List ProgramRow := []
  courses : List CourseRow := []
  shifts : List ShiftRow := []
  intakes : List Uuid := []
  numbering : Numbering.Db := {}

/-- Row locks, entries of the unique indexes, the advisory lock of a phone number, which
is named by a hash of it, and that of all imports. -/
inductive Lock where
  | application (id : Uuid)
  | applicationReference (reference : Str)
  | student (id : Uuid)
  | studentNumber (number : Str)
  | guardian (id : Uuid)
  | preRegistration (key : ℤ)
  | studentImport
  | numbering (l : Numbering.Lock)
  deriving DecidableEq, Repr

/-- What a call takes from its surroundings: the clock, the ids of the rows it
inserts, PostgreSQL's `similarity`, `lower` and `hashtext`, and the zod schema that
`customFieldValuesSchema` builds from the definitions. -/
structure Env where
  now : Instant := 0
  newId : Uuid := 0
  newStudentId : Uuid := 0
  newGuardianId : ℕ → Uuid := id
  zone : Instant → String → Day := fun date _ => date / 86400000
  lower : String → String := String.toLower
  hashtext : String → ℤ := fun s => s.length
  similarity : String → String → ℚ := fun s t => if s = t then 1 else 0
  parseCustomFields : List CustomFieldRow → CustomValues → Except Error CustomValues :=
    fun _ values => .ok values

abbrev Tx := Prog Db Lock Error

/-- The tables of numbering inside the others. -/
def numberingPart : Part Db Lock Numbering.Db Numbering.Lock where
  view d := d.numbering
  put s d := { d with numbering := s }
  name := .numbering
  view_put _ _ := rfl

def applicationsTable : VersionedTable Db Lock ApplicationRow where
  rows d := d.applications
  put rows d := { d with applications := rows }
  id r := r.id
  version r := r.version
  withVersion n r := { r with version := n }
  rowLock := .application

def studentsTable : VersionedTable Db Lock StudentRow where
  rows d := d.students
  put rows d := { d with students := rows }
  id r := r.id
  version r := r.version
  withVersion n r := { r with version := n }
  rowLock := .student

/-! ## What the other modules are asked -/

/-- `OrganizationService.isActiveUnit('branch', id)`. -/
def isActiveBranch (id : Uuid) : Tx Bool := do
  let d ← Prog.get
  return d.numbering.branches.any fun b => b.id == id && b.isActive

namespace DescriptorsService

def isActiveCode (ns code : String) : Tx Bool := do
  let d ← Prog.get
  return d.descriptors.any fun r => r.ns == ns && r.code == code && r.isActive

/-- Nothing chosen always passes. -/
def assertActiveCode (ns : String) : Option String → Tx Unit
  | none => return
  | some code => do
      let active ← isActiveCode ns code
      Prog.require active (Cohorts.invalidListValue ns)

end DescriptorsService

/-- `CustomFieldsService.validateValues`. -/
def validateValues (env : Env) (entityType : String) (values : CustomValues) : Tx CustomValues := do
  let d ← Prog.get
  let definitions := orderBy (fun r => toLex (r.sortOrder, r.label))
    (d.customFieldDefinitions.filter fun r => r.entityType == entityType)
  Prog.ofExcept (env.parseCustomFields definitions values)

/-- The same for an update, where absent values are not checked. -/
def validateChange (env : Env) (entityType : String) :
    Option CustomValues → Tx (Option CustomValues)
  | none => return none
  | some values => some <$> validateValues env entityType values

/-- `ModulesService.isEnabled`: a module without a stored row is on. -/
def isEnabled (key : String) : Tx Bool := do
  let d ← Prog.get
  return ((d.moduleSettings.find? fun m => m.1 == key).map Prod.snd).getD true

structure CourseWithDepartment where
  course : CourseRow
  departmentId : Uuid

/-- `CoursesService.findWithDepartment`. -/
def findWithDepartment (id : Uuid) : Tx (Option CourseWithDepartment) := do
  let d ← Prog.get
  match d.courses.find? fun c => c.id == id with
  | none => return none
  | some course =>
      let d ← Prog.get
      let program ← Prog.expect (d.programs.find? fun p => p.id == course.programId)
        Cohorts.programNotFound
      return some ⟨course, program.departmentId⟩

/-- The next number of a caller, drawn in the caller's transaction. -/
def nextNumber (env : Env) (key : Numbering.NumberSeriesKey) (branchId : Option Uuid) :
    Tx Numbering.IssuedNumber :=
  (Numbering.NumberingService.next { now := env.now, zone := env.zone } key branchId none).inside
    numberingPart

end Emis.Admissions
