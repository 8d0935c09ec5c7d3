import Emis.Admissions.StudentsService

/-!
# Applications

`modules/admissions`: applications from first contact to enrollment, with the
pipeline of `packages/contracts/src/admissions.ts` and `domain/pipeline.ts`.
-/

namespace Emis.Admissions

open Transactions
open Cohorts (ApplicationStatus)

/-! ## The pipeline -/

/-- `APPLICATION_TRANSITIONS`. -/
def APPLICATION_TRANSITIONS : ApplicationStatus → List ApplicationStatus
  | .submitted => [.contacted, .placementScheduled, .placed, .offered, .rejected, .withdrawn]
  | .contacted => [.placementScheduled, .placed, .offered, .rejected, .withdrawn]
  | .placementScheduled => [.placed, .contacted, .offered, .rejected, .withdrawn]
  | .placed => [.offered, .rejected, .withdrawn]
  | .offered => [.confirmed, .rejected, .withdrawn, .expired]
  | .confirmed => [.enrolled, .withdrawn]
  | .enrolled => []
  | .rejected => []
  | .withdrawn => []
  | .expired => []

/-- Finished applications: nothing more happens to them. -/
def CLOSED_STATUSES : List ApplicationStatus := [.rejected, .withdrawn, .expired, .enrolled]

/-- Statuses from which a placement result may be recorded (or corrected). -/
def PLACEMENT_FROM : List ApplicationStatus := [.submitted, .contacted, .placementScheduled, .placed]

/-- `MANUAL_TARGETS`: what a person may set through the transition endpoint. -/
inductive ManualTarget where
  | contacted
  | placementScheduled
  | offered
  | rejected
  | withdrawn
  | expired
  deriving DecidableEq, Repr

def ManualTarget.status : ManualTarget → ApplicationStatus
  | .contacted => .contacted
  | .placementScheduled => .placementScheduled
  | .offered => .offered
  | .rejected => .rejected
  | .withdrawn => .withdrawn
  | .expired => .expired

def canTransition (before after : ApplicationStatus) : Bool :=
  (APPLICATION_TRANSITIONS before).contains after

def isClosed (status : ApplicationStatus) : Bool := CLOSED_STATUSES.contains status

def canPlace (before : ApplicationStatus) : Bool := PLACEMENT_FROM.contains before

/-- Statuses with blanks for underscores. -/
def statusText : ApplicationStatus → String
  | .submitted => "submitted"
  | .contacted => "contacted"
  | .placementScheduled => "placement scheduled"
  | .placed => "placed"
  | .offered => "offered"
  | .confirmed => "confirmed"
  | .enrolled => "enrolled"
  | .rejected => "rejected"
  | .withdrawn => "withdrawn"
  | .expired => "expired"

namespace admissionsErrors

def notFound : Error := .http <| Emis.notFound "APPLICATION_NOT_FOUND" "Application not found."

def invalidTransition (before after : ApplicationStatus) : Error :=
  .http <| conflict "INVALID_TRANSITION" <|
    "An application that is \"" ++ statusText before ++ "\" can't move to \"" ++
      statusText after ++ "\"."

def closed : Error :=
  .http <| conflict "APPLICATION_CLOSED"
    "This application is finished and can no longer be changed."

def placementNotAllowed : Error :=
  .http <| conflict "PLACEMENT_NOT_ALLOWED"
    "A placement result can't be recorded at this stage of the application."

def placementDisabled : Error :=
  .http <| unprocessable "PLACEMENT_DISABLED"
    "Placement tests are switched off for this institution."

def alreadyConverted : Error :=
  .http <| conflict "ALREADY_CONVERTED" "This applicant has already been registered as a student."

def notReadyToConvert : Error :=
  .http <| conflict "NOT_READY_TO_CONVERT"
    "Make the applicant an offer first, then register them as a student."

def referenceNotFound (what : String) : Error :=
  .http <| unprocessable "REFERENCE_NOT_FOUND" <| "That " ++ what ++ " doesn't exist."

def branchNotFound : Error := .http <| unprocessable "BRANCH_NOT_FOUND" "That branch doesn't exist."

end admissionsErrors

/-! ## Requests and answers -/

structure CreateApplicationValues where
  person : Person
  branchId : Uuid
  source : Option String := none
  desiredCourseId : Option Uuid := none
  preferredShiftId : Option Uuid := none
  preferredIntakeId : Option Uuid := none
  notes : Option String := none
  customFields : CustomValues := []

structure UpdateApplicationValues where
  person : UpdatePerson := {}
  source : Change (Option String) := none
  desiredCourseId : Change (Option Uuid) := none
  preferredShiftId : Change (Option Uuid) := none
  preferredIntakeId : Change (Option Uuid) := none
  notes : Change (Option String) := none
  customFields : Change CustomValues := none

structure PlacementValues where
  score : ℚ
  recommendedCourseId : Uuid
  notes : Option String := none

structure ConvertValues where
  existingStudentId : Option Uuid := none
  confirmNotDuplicate : Bool := false
  categoryCode : Option String := none
  customFields : CustomValues := []

structure PreRegistrationValues where
  givenName : String
  fatherName : String
  grandfatherName : Option String := none
  gender : Gender
  dateOfBirth : Option Day := none
  phone : String
  email : Option String := none
  city : Option String := none
  branchId : Uuid
  desiredCourseId : Uuid
  preferredShiftId : Option Uuid := none
  preferredIntakeId : Option Uuid := none
  guardianName : Option String := none
  guardianPhone : Option String := none
  message : Option String := none
  companyWebsite : String := ""

structure Placement where
  score : ℚ
  recommendedCourseId : Uuid
  notes : Option String
  placedAt : Instant

/-- `toApplication`: the row, with the placement in one piece. -/
structure Application where
  row : ApplicationRow
  placement : Option Placement

def toApplication (row : ApplicationRow) : Application where
  row := row
  placement :=
    match row.placementScore, row.placementCourseId, row.placedAt with
    | some score, some recommendedCourseId, some placedAt =>
        some { score, recommendedCourseId, notes := row.placementNotes, placedAt }
    | _, _, _ => none

structure ConvertResponse where
  application : Application
  student : Student

/-! ## The service -/

namespace ApplicationsService

def row (id : Uuid) : Tx ApplicationRow := do
  let d ← Prog.get
  Prog.expect (applicationsTable.row? d id) admissionsErrors.notFound

/-- `row` with `FOR UPDATE`. -/
def rowForUpdate (id : Uuid) : Tx ApplicationRow := do
  Prog.acquire (.application id)
  row id

/-- An id that is given must be known. -/
def requireReference (what : String) (id : Option Uuid) (known : Uuid → Tx Bool) : Tx Unit :=
  match id with
  | none => pure ()
  | some id => do
      let found ← known id
      Prog.require found (admissionsErrors.referenceNotFound what)

def shiftExists (id : Uuid) : Tx Bool := do
  let d ← Prog.get
  return d.shifts.any fun s => s.id == id

def intakeExists (id : Uuid) : Tx Bool := do
  let d ← Prog.get
  return d.intakes.contains id

/-- Course, shift and intake ids must point at something real. -/
def checkReferences (desiredCourseId preferredShiftId preferredIntakeId : Option Uuid) : Tx Unit := do
  requireReference "course" desiredCourseId fun id => Option.isSome <$> findWithDepartment id
  requireReference "shift" preferredShiftId shiftExists
  requireReference "intake" preferredIntakeId intakeExists

/-- `INSERT INTO applications`: entries of the unique indexes are taken first. -/
def insertApplication (row : ApplicationRow) : Tx Unit := do
  Prog.acquire (.applicationReference row.reference)
  let d ← Prog.get
  Prog.require (!d.applications.any fun a => a.reference == row.reference)
    (.database (.unique "applications_reference_key"))
  Prog.acquire (.application row.id)
  let d ← Prog.get
  Prog.require (!d.applications.any fun a => a.id == row.id)
    (.database (.unique "applications_pkey"))
  Prog.modify fun d => { d with applications := d.applications ++ [row] }

def create (env : Env) (input : CreateApplicationValues) (grants : List Grant) : Tx Application := do
  assertScope grants .admissionsManage (some { branchId := some input.branchId })
  let active ← isActiveBranch input.branchId
  Prog.require active admissionsErrors.branchNotFound
  DescriptorsService.assertActiveCode "lead_source" input.source
  checkReferences input.desiredCourseId input.preferredShiftId input.preferredIntakeId
  let customFields ← validateValues env "application" input.customFields
  let issued ← nextNumber env .application none
  let row : ApplicationRow :=
    { id := env.newId
      reference := issued.number
      person := input.person
      branchId := input.branchId
      source := input.source
      desiredCourseId := input.desiredCourseId
      preferredShiftId := input.preferredShiftId
      preferredIntakeId := input.preferredIntakeId
      notes := input.notes
      customFields := customFields
      createdAt := env.now }
  insertApplication row
  return toApplication row

/-- The lines about the guardian and the message; an empty text counts as none. -/
def websiteNotes (input : PreRegistrationValues) : Option String :=
  let filled (value : Option String) : Option String := value.filter fun v => v ≠ ""
  let guardian := (filled input.guardianName).toList ++ (filled input.guardianPhone).toList
  let lines :=
    (if guardian.isEmpty then [] else ["Parent or guardian: " ++ ", ".intercalate guardian]) ++
      ((filled input.message).map ("Message: " ++ ·)).toList
  if lines.isEmpty then none else some ("\n".intercalate lines)

/-- The open application of the same phone and course. -/
def Db.openApplication (d : Db) (phone : String) (desiredCourseId : Uuid) : Option ApplicationRow :=
  d.applications.find? fun a => a.person.phone == phone && a.desiredCourseId == some desiredCourseId &&
    !isClosed a.status

def websiteApplication (env : Env) (input : PreRegistrationValues) (source : Option String)
    (reference : Str) : ApplicationRow where
  id := env.newId
  reference := reference
  person :=
    { givenName := input.givenName
      fatherName := input.fatherName
      grandfatherName := input.grandfatherName
      gender := input.gender
      dateOfBirth := input.dateOfBirth
      phone := input.phone
      email := input.email
      city := input.city }
  branchId := input.branchId
  source := source
  desiredCourseId := some input.desiredCourseId
  preferredShiftId := input.preferredShiftId
  preferredIntakeId := input.preferredIntakeId
  notes := websiteNotes input
  createdAt := env.now

/-- An application from the public website. Returns the new reference, or none. -/
def submitFromWebsite (env : Env) (input : PreRegistrationValues) : Tx (Option Str) := do
  let active ← isActiveBranch input.branchId
  Prog.require active (admissionsErrors.referenceNotFound "branch")
  checkReferences (some input.desiredCourseId) input.preferredShiftId input.preferredIntakeId
  Prog.acquire (.preRegistration (env.hashtext input.phone))
  let d ← Prog.get
  if (Db.openApplication d input.phone input.desiredCourseId).isSome then
    return none
  else
    let website ← DescriptorsService.isActiveCode "lead_source" "website"
    let issued ← nextNumber env .application (some input.branchId)
    insertApplication
      (websiteApplication env input (if website then some "website" else none) issued.number)
    return some issued.number

def updatedApplication (input : UpdateApplicationValues) (customFields : Change CustomValues)
    (a : ApplicationRow) : ApplicationRow :=
  { a with
    person := input.person.apply a.person
    source := input.source.getD a.source
    desiredCourseId := input.desiredCourseId.getD a.desiredCourseId
    preferredShiftId := input.preferredShiftId.getD a.preferredShiftId
    preferredIntakeId := input.preferredIntakeId.getD a.preferredIntakeId
    notes := input.notes.getD a.notes
    customFields := customFields.getD a.customFields }

def update (env : Env) (id : Uuid) (input : UpdateApplicationValues) (expectedVersion : ℕ)
    (grants : List Grant) : Tx Application := do
  let before ← row id
  assertScope grants .admissionsManage (some { branchId := some before.branchId })
  Prog.require (!isClosed before.status) admissionsErrors.closed
  Prog.when (input.source.isSome && input.source != some before.source) <|
    DescriptorsService.assertActiveCode "lead_source" (input.source.getD none)
  checkReferences (input.desiredCourseId.getD none) (input.preferredShiftId.getD none)
    (input.preferredIntakeId.getD none)
  let customFields ← validateChange env "application" input.customFields
  let result ← updateWithVersion applicationsTable id expectedVersion
    (updatedApplication input customFields)
  let row ← versionedRow result admissionsErrors.notFound
  return toApplication row

def statusRow (status : ApplicationStatus) (a : ApplicationRow) : ApplicationRow :=
  { a with status := status }

/-- Move to a stage a person may choose (contacted, offered, rejected…). -/
def transition (id : Uuid) (target : ManualTarget) (expectedVersion : ℕ) (grants : List Grant) :
    Tx Application := do
  let before ← row id
  assertScope grants .admissionsManage (some { branchId := some before.branchId })
  Prog.require (canTransition before.status target.status)
    (admissionsErrors.invalidTransition before.status target.status)
  Prog.when (target == .placementScheduled) do
    let enabled ← isEnabled "placement"
    Prog.require enabled admissionsErrors.placementDisabled
  let result ← updateWithVersion applicationsTable id expectedVersion (statusRow target.status)
  let row ← versionedRow result admissionsErrors.notFound
  return toApplication row

def placedRow (env : Env) (input : PlacementValues) (a : ApplicationRow) : ApplicationRow :=
  { a with
    status := .placed
    placementScore := some input.score
    placementCourseId := some input.recommendedCourseId
    placementNotes := input.notes
    placedAt := some env.now }

/-- Record the placement result, which moves the application to `placed`. -/
def recordPlacement (env : Env) (id : Uuid) (input : PlacementValues) (expectedVersion : ℕ)
    (grants : List Grant) : Tx Application := do
  let before ← row id
  let enabled ← isEnabled "placement"
  Prog.require enabled admissionsErrors.placementDisabled
  Prog.require (canPlace before.status) admissionsErrors.placementNotAllowed
  let found ← findWithDepartment input.recommendedCourseId
  let target ← Prog.expect (found.filter fun c => c.course.isActive)
    (admissionsErrors.referenceNotFound "course")
  assertScope grants .placementRecord
    (some { branchId := some before.branchId, departmentId := some target.departmentId })
  let result ← updateWithVersion applicationsTable id expectedVersion (placedRow env input)
  let row ← versionedRow result admissionsErrors.notFound
  return toApplication row

def enrolledRow (a : ApplicationRow) : ApplicationRow :=
  { a with status := .enrolled, version := a.version + 1 }

/-- The student's confirmed applications are finished. -/
def markEnrolled (studentId : Uuid) : Tx Unit := do
  let confirmed (a : ApplicationRow) : Bool :=
    a.studentId == some studentId && a.status == .confirmed
  let d ← Prog.get
  (d.applications.filter confirmed).forM fun a => do
    let hit (b : ApplicationRow) : Bool := b.id == a.id && confirmed b
    let _ ← Prog.updateWhere (.application a.id) (fun d => d.applications.any hit) fun d =>
      { d with applications := changeWhere hit enrolledRow d.applications }

def confirmedRow (studentId : Uuid) (a : ApplicationRow) : ApplicationRow :=
  { a with status := .confirmed, studentId := some studentId }

/-- The student that is registered for an applicant. -/
def studentValues (before : ApplicationRow) (input : ConvertValues) : CreateStudentValues where
  person := before.person
  branchId := before.branchId
  categoryCode := input.categoryCode
  customFields := input.customFields
  guardians := []
  confirmNotDuplicate := input.confirmNotDuplicate

/-- The existing student, or one who is registered now. -/
def studentFor (env : Env) (before : ApplicationRow) (input : ConvertValues) (grants : List Grant) :
    Tx Uuid :=
  match input.existingStudentId with
  | some existing => StudentRow.id <$> StudentsService.requireExisting existing
  | none =>
      (fun created => created.row.id) <$>
        StudentsService.create env (studentValues before input) grants

/-- Register an offered applicant as a student, or link them to one who exists. -/
def convert (env : Env) (id : Uuid) (input : ConvertValues) (expectedVersion : ℕ)
    (grants : List Grant) : Tx ConvertResponse := do
  let before ← rowForUpdate id
  assertScope grants .admissionsManage (some { branchId := some before.branchId })
  Prog.require before.studentId.isNone admissionsErrors.alreadyConverted
  Prog.require (before.status == .offered) admissionsErrors.notReadyToConvert
  let studentId ← studentFor env before input grants
  let result ← updateWithVersion applicationsTable id expectedVersion (confirmedRow studentId)
  let row ← versionedRow result admissionsErrors.notFound
  let student ← StudentsService.get studentId grants
  return { application := toApplication row, student := student }

end ApplicationsService

end Emis.Admissions
