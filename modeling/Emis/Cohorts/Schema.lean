import Emis.Common.Dates
import Emis.Common.Permissions
import Emis.Common.Versioning
import Mathlib.Data.Rat.Defs

/-!
# Cohorts, enrollments and what they refer to

The tables of migration `0007_cohorts.sql` with the columns the cohort and
enrollment services use, and of the other modules' tables what these services
read or update.
-/

namespace Emis.Cohorts

open Transactions

inductive CohortStatus where
  | planned
  | open
  | running
  | completed
  | cancelled
  deriving DecidableEq, Repr

def CohortStatus.text : CohortStatus → String
  | .planned => "planned"
  | .open => "open"
  | .running => "running"
  | .completed => "completed"
  | .cancelled => "cancelled"

/-- `COHORT_TRANSITIONS`. -/
def COHORT_TRANSITIONS : CohortStatus → List CohortStatus
  | .planned => [.open, .cancelled]
  | .open => [.planned, .running, .cancelled]
  | .running => [.completed]
  | .completed => []
  | .cancelled => []

/-- Statuses in which a student can be enrolled or added to the waitlist. -/
def ENROLLING_COHORT_STATUSES : List CohortStatus := [.open, .running]

inductive EnrollmentStatus where
  | waitlisted
  | active
  | completed
  | failed
  | withdrawn
  deriving DecidableEq, Repr

inductive StudentStatus where
  | active
  | onHold
  | graduated
  | withdrawn
  | alumni
  deriving DecidableEq, Repr

/-- `APPLICATION_STATUSES`, of which enrolling moves `confirmed` to `enrolled`. -/
inductive ApplicationStatus where
  | submitted
  | contacted
  | placementScheduled
  | placed
  | offered
  | confirmed
  | enrolled
  | rejected
  | withdrawn
  | expired
  deriving DecidableEq, Repr

structure CohortRow where
  id : Uuid
  name : String
  courseId : Uuid
  intakeId : Option Uuid
  shiftId : Uuid
  roomId : Uuid
  instructorId : Option Uuid
  branchId : Uuid
  startDate : Day
  endDate : Day
  maxSize : ℕ
  status : CohortStatus
  version : ℕ
  deriving DecidableEq, Repr

structure EnrollmentRow where
  id : Uuid
  studentId : Uuid
  cohortId : Uuid
  status : EnrollmentStatus
  waitlistedAt : Option Instant
  enrolledAt : Option Instant
  withdrawnAt : Option Instant
  withdrawalReason : Option String
  score : Option ℚ
  attendancePercent : Option ℚ
  completedAt : Option Instant
  version : ℕ
  deriving DecidableEq, Repr

structure ClassSessionRow where
  cohortId : Uuid
  roomId : Uuid
  instructorId : Option Uuid
  sessionDate : Day
  startsAt : Instant
  endsAt : Instant
  deriving DecidableEq, Repr

structure RoomRow where
  id : Uuid
  branchId : Uuid
  name : String
  capacity : ℕ
  isActive : Bool
  version : ℕ
  deriving DecidableEq, Repr

/-- Times of day are minutes since midnight. -/
structure ShiftRow where
  id : Uuid
  daysOfWeek : List ℕ
  startTime : ℕ
  endTime : ℕ
  isActive : Bool
  deriving DecidableEq, Repr

structure CourseRow where
  id : Uuid
  programId : Uuid
  minAttendancePercent : Option ℚ
  minScore : Option ℚ
  isActive : Bool
  deriving DecidableEq, Repr

structure ProgramRow where
  id : Uuid
  departmentId : Uuid
  deriving DecidableEq, Repr

structure PrerequisiteRow where
  courseId : Uuid
  prerequisiteCourseId : Uuid
  deriving DecidableEq, Repr

/-- A holiday: a date, whether it repeats yearly, and its branch (none = all). -/
structure HolidayRule where
  date : Day
  isRecurringAnnually : Bool
  branchId : Option Uuid
  deriving DecidableEq, Repr

structure StudentRow where
  id : Uuid
  status : StudentStatus
  deriving DecidableEq, Repr

structure ApplicationRow where
  id : Uuid
  studentId : Option Uuid
  status : ApplicationStatus
  version : ℕ
  deriving DecidableEq, Repr

structure DescriptorRow where
  ns : String
  code : String
  isActive : Bool
  deriving DecidableEq, Repr

structure Db where
  cohorts : List CohortRow := []
  enrollments : List EnrollmentRow := []
  classSessions : List ClassSessionRow := []
  rooms : List RoomRow := []
  shifts : List ShiftRow := []
  courses : List CourseRow := []
  programs : List ProgramRow := []
  coursePrerequisites : List PrerequisiteRow := []
  intakes : List Uuid := []
  /-- Active users who hold the role `instructor`. -/
  instructors : List Uuid := []
  holidays : List HolidayRule := []
  students : List StudentRow := []
  applications : List ApplicationRow := []
  descriptors : List DescriptorRow := []
  timezone : String := "Africa/Addis_Ababa"

/-- Row locks, and the entry of a live enrollment in the partial unique index
`enrollments_one_live_per_student_key`. -/
inductive Lock where
  | cohort (id : Uuid)
  | enrollment (id : Uuid)
  | liveEnrollment (studentId cohortId : Uuid)
  | application (id : Uuid)
  | room (id : Uuid)
  deriving DecidableEq, Repr

/-- What one call takes from its surroundings: `new Date()`, the `uuidv7()` of
the row it inserts, and PostgreSQL's `AT TIME ZONE`. -/
structure Env where
  now : Instant := 0
  newId : Uuid := 0
  atTimeZone : String → Day → ℕ → Instant := fun _ day minutes => day * 86400000 + minutes * 60000

abbrev Tx := Prog Db Lock Error

def cohortsTable : VersionedTable Db Lock CohortRow where
  rows d := d.cohorts
  put rows d := { d with cohorts := rows }
  id r := r.id
  version r := r.version
  withVersion n r := { r with version := n }
  rowLock := .cohort

def enrollmentsTable : VersionedTable Db Lock EnrollmentRow where
  rows d := d.enrollments
  put rows d := { d with enrollments := rows }
  id r := r.id
  version r := r.version
  withVersion n r := { r with version := n }
  rowLock := .enrollment

def roomsTable : VersionedTable Db Lock RoomRow where
  rows d := d.rooms
  put rows d := { d with rooms := rows }
  id r := r.id
  version r := r.version
  withVersion n r := { r with version := n }
  rowLock := .room

/-! ## Errors -/

namespace cohortErrors

def cohortNotFound : Error := .http <| notFound "COHORT_NOT_FOUND" "Cohort not found."

def enrollmentNotFound : Error :=
  .http <| notFound "ENROLLMENT_NOT_FOUND" "Enrollment not found."

def roomConflict : Error :=
  .http <| conflict "ROOM_CONFLICT"
    "That room is already in use at one of those times by another cohort."

def instructorConflict : Error :=
  .http <| conflict "INSTRUCTOR_CONFLICT"
    "That instructor is already teaching another cohort at one of those times."

def invalidTransition (before after : CohortStatus) : Error :=
  .http <| conflict "INVALID_COHORT_TRANSITION" <|
    "A cohort that is \"" ++ before.text ++ "\" can't become \"" ++ after.text ++ "\"."

def notEnrolling : Error :=
  .http <| conflict "COHORT_NOT_ENROLLING"
    "This cohort isn't taking enrollments. Open it first, or pick another cohort."

def alreadyEnrolled : Error :=
  .http <| conflict "ALREADY_ENROLLED"
    "This student is already enrolled in, or waiting for, this cohort."

def prerequisitesNotMet : Error :=
  .http <| unprocessable "PREREQUISITES_NOT_MET"
    "The student hasn't completed the courses this one requires."

def hasEnrollments (what : String) : Error :=
  .http <| conflict "COHORT_HAS_ENROLLMENTS" <|
    "Still has students enrolled or waiting. " ++ what

def noSessions : Error :=
  .http <| unprocessable "NO_SESSIONS"
    "No classes fall on the shift days between those dates (after holidays)."

def tooManySessions : Error :=
  .http <| unprocessable "TOO_MANY_SESSIONS"
    "That date range has too many classes. Check the end date."

def invalidEnrollmentState (message : String) : Error :=
  .http <| conflict "INVALID_ENROLLMENT_STATE" message

/-- The names of the missing numbers, joined by `and`. -/
def resultIncomplete (missing : List String) : Error :=
  .http <| unprocessable "RESULT_INCOMPLETE" <|
    "This course's completion rules need: " ++
      " and ".intercalate (missing.map fun m =>
        if m = "score" then "a score" else "an attendance percentage") ++ "."

def notAnInstructor : Error :=
  .http <| unprocessable "NOT_AN_INSTRUCTOR" "That person isn't an active instructor."

def referenceNotFound (what : String) : Error :=
  .http <| unprocessable "REFERENCE_NOT_FOUND" <|
    "That " ++ what ++ " doesn't exist or isn't in use."

def scheduleLocked : Error :=
  .http <| conflict "SCHEDULE_LOCKED"
    "The schedule can't be changed once classes have started or the cohort is finished."

def capacityBelowEnrolled : Error :=
  .http <| conflict "CAPACITY_BELOW_ENROLLED"
    "That would leave fewer seats than students already enrolled."

def studentNotActive : Error :=
  .http <| unprocessable "STUDENT_NOT_ACTIVE"
    "Only active students can be enrolled. Change the student's status first."

end cohortErrors

def studentNotFound : Error := .http <| notFound "STUDENT_NOT_FOUND" "Student not found."

def courseNotFound : Error := .http <| notFound "COURSE_NOT_FOUND" "Course not found."

def programNotFound : Error := .http <| notFound "PROGRAM_NOT_FOUND" "Program not found."

def roomNotFound : Error := .http <| notFound "ROOM_NOT_FOUND" "Room not found."

/-- `settingsErrors.invalidListValue`. -/
def invalidListValue (ns : String) : Error :=
  .http <| unprocessable "INVALID_LIST_VALUE" <|
    "That isn't one of the choices in the \"" ++ ns.replace "_" " " ++ "\" list."

end Emis.Cohorts
