import Emis.Admissions.ApplicationsService
import Emis.Numbering.Pattern

/-!
# Pre-registrations from the website

`modules/public`: what is checked of a web form before it becomes an application,
and what the visitor is told.
-/

namespace Emis.PublicSite

open Transactions Admissions

namespace publicErrors

def courseNotFound : Error := .http <| notFound "COURSE_NOT_FOUND" "That course is not on our list."

def referenceNotFound (what : String) : Error :=
  .http <| unprocessable "REFERENCE_NOT_FOUND" <|
    "That " ++ what ++ " is not available. Please pick again."

end publicErrors

/-- `settingsErrors.departmentNotFound`. -/
def departmentNotFound : Error := .http <| notFound "DEPARTMENT_NOT_FOUND" "Department not found."

/-! ## The public catalog -/

namespace PublicCatalogService

/-- `ProgramsService.get`. -/
def getProgram (id : Uuid) : Admissions.Tx ProgramRow := do
  let d ← Prog.get
  Prog.expect (d.programs.find? fun p => p.id == id) Cohorts.programNotFound

/-- `OrganizationService.getDepartment`. -/
def getDepartment (id : Uuid) : Admissions.Tx DepartmentRow := do
  let d ← Prog.get
  Prog.expect (d.departments.find? fun r => r.id == id) departmentNotFound

/-- `FacilitiesService.findShift`. -/
def findShift (id : Uuid) : Admissions.Tx (Option ShiftRow) := do
  let d ← Prog.get
  return d.shifts.find? fun s => s.id == id

structure VisibleCourse where
  course : CourseRow
  program : ProgramRow
  department : DepartmentRow

/-- A course that is on the public catalog, with where it sits, or a 404. -/
def visibleCourse (id : Uuid) : Admissions.Tx VisibleCourse := do
  let result ← findWithDepartment id
  let found ← Prog.expect (result.filter fun c => c.course.isActive) publicErrors.courseNotFound
  let program ← getProgram found.course.programId
  let department ← getDepartment found.departmentId
  Prog.require (program.isPublished && department.isActive) publicErrors.courseNotFound
  return ⟨found.course, program, department⟩

/-- The shift, if named, is in use. -/
def assertShift : Option Uuid → Admissions.Tx Unit
  | none => return
  | some shiftId => do
      let shift ← findShift shiftId
      Prog.require (shift.any ShiftRow.isActive) (publicErrors.referenceNotFound "shift")

/-- The course must be on the public catalog and the shift, if named, in use. -/
def assertPreRegistrable (courseId : Uuid) (shiftId : Option Uuid) : Admissions.Tx String := do
  let visible ← (visibleCourse courseId).catching fun _ =>
    Prog.throw (publicErrors.referenceNotFound "course")
  assertShift shiftId
  return visible.course.name

end PublicCatalogService

/-! ## The confirmation email -/

structure OutgoingEmail where
  recipient : String
  subject : String
  text : String
  html : String
  deriving DecidableEq, Repr

structure PreRegistrationEmailInput where
  applicantName : String
  institutionName : String
  reference : String
  courseName : String

def escapeChar : Char → String
  | '&' => "&amp;"
  | '<' => "&lt;"
  | '>' => "&gt;"
  | '"' => "&quot;"
  | '\'' => "&#39;"
  | c => c.toString

def esc (value : String) : String := String.join (value.toList.map escapeChar)

def emailLines (input : PreRegistrationEmailInput) : List String :=
  ["Dear " ++ input.applicantName ++ ",", "",
    "Thank you for your interest in " ++ input.courseName ++
      ". We have received your request and our staff will contact you soon.", "",
    "Your reference number is " ++ input.reference ++ ". Quote it if you call or visit us.", "",
    input.institutionName]

def preRegistrationEmail (recipient : String) (input : PreRegistrationEmailInput) : OutgoingEmail where
  recipient := recipient
  subject := "We received your request (" ++ input.reference ++ ")"
  text := "\n".intercalate (emailLines input)
  html := String.join <| ((emailLines input).filter fun line => line ≠ "").map fun line =>
    "<p>" ++ esc line ++ "</p>"

/-! ## The service -/

/-- The tables of admissions, the name in the institution's row, and the emails
that wait in the outbox. -/
structure Db where
  admissions : Admissions.Db := {}
  institutionName : String := ""
  outbox : List OutgoingEmail := []

abbrev Tx := Prog Db Lock Error

def admissionsPart : Part Db Lock Admissions.Db Lock where
  view d := d.admissions
  put s d := { d with admissions := s }
  name := id
  view_put _ _ := rfl

structure PreRegistrationResponse where
  received : Bool := true
  reference : Option Str
  deriving DecidableEq, Repr

namespace PreRegistrationsService

/-- `InstitutionService.get`, of which the email needs the name. -/
def institutionName : Tx String := do
  let _ ← (Numbering.institutionRow.inside numberingPart).inside admissionsPart
  let d ← Prog.get
  return d.institutionName

/-- The email of an applicant who gave an address and got a reference. -/
def confirm (input : PreRegistrationValues) (courseName : String) (reference : Option Str) : Tx Unit :=
  match reference.filter fun r => r ≠ [], input.email.filter fun e => e ≠ "" with
  | some reference, some email => do
      let institutionName ← institutionName
      let message := preRegistrationEmail email
        { applicantName := input.givenName
          institutionName := institutionName
          reference := String.ofList reference
          courseName := courseName }
      Prog.modify fun d => { d with outbox := d.outbox ++ [message] }
  | _, _ => return

/-- Has the field been filled that real people never see? -/
def isBot (input : PreRegistrationValues) : Bool := Numbering.trim input.companyWebsite.toList != []

def submit (env : Env) (input : PreRegistrationValues) : Tx PreRegistrationResponse := do
  if isBot input then
    return { reference := none }
  else
    let courseName ← (PublicCatalogService.assertPreRegistrable input.desiredCourseId
      input.preferredShiftId).inside admissionsPart
    let reference ← (ApplicationsService.submitFromWebsite env input).inside admissionsPart
    confirm input courseName reference
    return { reference := reference }

end PreRegistrationsService

end Emis.PublicSite
