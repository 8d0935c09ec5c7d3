import Emis.Cohorts.Schedule

/-!
# Changing a cohort

`cohorts.service.ts` (`update`, `setStatus` and what they call) and
`FacilitiesService.updateRoom`. The audit entries these operations also write
are left out: nothing here reads them.
-/

namespace Emis.Cohorts

open Transactions

/-! ## Reading -/

namespace Db

variable (d : Db)

def cohort? (id : Uuid) : Option CohortRow := d.cohorts.find? fun c => c.id == id

def enrollment? (id : Uuid) : Option EnrollmentRow := d.enrollments.find? fun e => e.id == id

def room? (id : Uuid) : Option RoomRow := d.rooms.find? fun r => r.id == id

/-- Enrollments of a cohort with the given status. -/
def inStatus (cohortId : Uuid) (status : EnrollmentStatus) : List EnrollmentRow :=
  d.enrollments.filter fun e => e.cohortId == cohortId && e.status == status

def activeCount (cohortId : Uuid) : ℕ := (d.inStatus cohortId .active).length

/-- The smaller of the cohort's own limit and its room's seats. -/
def seatsOf (cohort : CohortRow) : ℕ :=
  min cohort.maxSize (((d.room? cohort.roomId).map RoomRow.capacity).getD cohort.maxSize)

end Db

/-- A cohort with its live numbers. -/
structure Cohort where
  row : CohortRow
  capacity : ℕ
  enrolledCount : ℕ
  waitlistCount : ℕ
  seatsLeft : ℕ
  sessionCount : ℕ

def withNumbers (row : CohortRow) : Tx Cohort := do
  let rooms ← Prog.get
  let seats ← Prog.get
  let sessions ← Prog.get
  let capacity := rooms.seatsOf row
  let enrolled := seats.activeCount row.id
  return {
    row := row
    capacity := capacity
    enrolledCount := enrolled
    waitlistCount := (seats.inStatus row.id .waitlisted).length
    seatsLeft := capacity - enrolled
    sessionCount := (sessions.classSessions.filter fun s => s.cohortId == row.id).length }

/-- The row for the services of this module; `forUpdate` takes the seat lock. -/
def cohortRow (id : Uuid) (forUpdate : Bool) : Tx CohortRow := do
  Prog.when forUpdate (Prog.acquire (.cohort id))
  let d ← Prog.get
  Prog.expect (d.cohort? id) cohortErrors.cohortNotFound

/-- `CohortsService.get`. -/
def getCohort (id : Uuid) (grants : List Grant) : Tx Cohort := do
  let row ← cohortRow id false
  assertBranchAccess grants .cohortsRead row.branchId
  withNumbers row

/-! ## What a cohort points at -/

structure CourseWithDepartment where
  course : CourseRow
  departmentId : Uuid

/-- `CoursesService.findWithDepartment`. -/
def findWithDepartment (id : Uuid) : Tx (Option CourseWithDepartment) := do
  let d ← Prog.get
  match d.courses.find? fun c => c.id == id with
  | none => return none
  | some course =>
      let d ← Prog.get
      let program ← Prog.expect (d.programs.find? fun p => p.id == course.programId) programNotFound
      return some ⟨course, program.departmentId⟩

structure References where
  courseId : Uuid
  shiftId : Uuid
  roomId : Uuid
  intakeId : Option Uuid
  instructorId : Option Uuid

/-- Everything a cohort points at must exist and be in use. -/
def resolve (input : References) : Tx (CourseWithDepartment × ShiftRow × RoomRow) := do
  let found ← findWithDepartment input.courseId
  let course ← Prog.expect (found.filter fun c => c.course.isActive)
    (cohortErrors.referenceNotFound "course")
  let d ← Prog.get
  let shift ← Prog.expect (d.shifts.find? fun s => s.id == input.shiftId && s.isActive)
    (cohortErrors.referenceNotFound "shift")
  let d ← Prog.get
  let room ← Prog.expect ((d.room? input.roomId).filter RoomRow.isActive)
    (cohortErrors.referenceNotFound "room")
  let d ← Prog.get
  Prog.require (input.intakeId.all d.intakes.contains) (cohortErrors.referenceNotFound "intake")
  let d ← Prog.get
  Prog.require (input.instructorId.all d.instructors.contains) cohortErrors.notAnInstructor
  return (course, shift, room)

/-! ## Sessions -/

def overlaps (s t : ClassSessionRow) : Bool := s.startsAt < t.endsAt && t.startsAt < s.endsAt

/-- The error of the first constraint that refuses the session, if one does. -/
def sessionRefused (existing : List ClassSessionRow) (s : ClassSessionRow) : Option Error :=
  if s.endsAt ≤ s.startsAt then some (.database (.check "class_sessions_time_range_check"))
  else if existing.any fun t => t.roomId == s.roomId && overlaps t s then
    some cohortErrors.roomConflict
  else if existing.any fun t =>
      s.instructorId.isSome && t.instructorId == s.instructorId && overlaps t s then
    some cohortErrors.instructorConflict
  else none

/-- The rows of one `INSERT`, each checked against those already there. -/
def insertSessions : List ClassSessionRow → List ClassSessionRow →
    Except Error (List ClassSessionRow)
  | existing, [] => .ok existing
  | existing, s :: rest =>
      match sessionRefused existing s with
      | some e => .error e
      | none => insertSessions (existing ++ [s]) rest

/-- The days on which the cohort meets. -/
def Db.datesOf (d : Db) (cohort : CohortRow) (shift : ShiftRow) : List Day :=
  sessionDates {
    startDate := cohort.startDate
    endDate := cohort.endDate
    daysOfWeek := shift.daysOfWeek
    branchId := cohort.branchId
    holidays := d.holidays }

/-- The rows of the class sessions on these days. -/
def sessionsOf (env : Env) (timezone : String) (cohort : CohortRow) (shift : ShiftRow)
    (dates : List Day) : List ClassSessionRow :=
  let at_ := env.atTimeZone timezone
  dates.map fun day =>
    { cohortId := cohort.id, roomId := cohort.roomId, instructorId := cohort.instructorId,
      sessionDate := day, startsAt := at_ day shift.startTime, endsAt := at_ day shift.endTime }

def generateSessions (env : Env) (cohort : CohortRow) (shift : ShiftRow) : Tx ℕ := do
  let d ← Prog.get
  let dates := d.datesOf cohort shift
  Prog.require (dates.length != 0) cohortErrors.noSessions
  Prog.require (dates.length ≤ MAX_SESSIONS) cohortErrors.tooManySessions
  let institution ← Prog.get
  let new := sessionsOf env institution.timezone cohort shift dates
  Prog.modify fun d =>
    { d with classSessions := d.classSessions.filter fun s => s.cohortId != cohort.id }
  let d ← Prog.get
  match insertSessions d.classSessions new with
  | .error e => Prog.throw e
  | .ok rows =>
      Prog.modify fun d => { d with classSessions := rows }
      return dates.length

/-! ## Writing -/

/-- A body in which every field may be absent; `some none` is an explicit `null`. -/
structure UpdateCohortValues where
  name : Option String := none
  intakeId : Option (Option Uuid) := none
  shiftId : Option Uuid := none
  roomId : Option Uuid := none
  instructorId : Option (Option Uuid) := none
  startDate : Option Day := none
  endDate : Option Day := none
  maxSize : Option ℕ := none

namespace UpdateCohortValues

variable (input : UpdateCohortValues) (before : CohortRow)

/-- Some field of `SCHEDULE_FIELDS` is given and differs. -/
def changesSchedule : Bool :=
  input.shiftId.any (· != before.shiftId) || input.roomId.any (· != before.roomId) ||
    input.instructorId.any (· != before.instructorId) ||
      input.startDate.any (· != before.startDate) || input.endDate.any (· != before.endDate)

/-- The row that `{ ...input, branchId }` makes of the row before. -/
def apply (branchId : Uuid) : CohortRow :=
  { before with
    name := input.name.getD before.name
    intakeId := input.intakeId.getD before.intakeId
    shiftId := input.shiftId.getD before.shiftId
    roomId := input.roomId.getD before.roomId
    instructorId := input.instructorId.getD before.instructorId
    startDate := input.startDate.getD before.startDate
    endDate := input.endDate.getD before.endDate
    maxSize := input.maxSize.getD before.maxSize
    branchId := branchId }

end UpdateCohortValues

/-- The CHECK constraints of `cohorts` that an update can violate. -/
def checkCohort (row : CohortRow) : Tx Unit := do
  Prog.require (row.startDate ≤ row.endDate) (.database (.check "cohorts_date_range_check"))
  Prog.require (row.maxSize != 0) (.database (.check "cohorts_max_size_check"))

namespace CohortsService

def update (env : Env) (id : Uuid) (input : UpdateCohortValues) (expectedVersion : ℕ)
    (grants : List Grant) : Tx Cohort := do
  -- Locked so the seat count can't change between the check and the commit.
  let before ← cohortRow id true
  let course ← findWithDepartment before.courseId
  let departmentId := course.map CourseWithDepartment.departmentId
  assertScope grants .cohortsManage (some { departmentId, branchId := some before.branchId })
  Prog.require (before.status != .completed && before.status != .cancelled)
    cohortErrors.scheduleLocked
  let changesSchedule := input.changesSchedule before
  Prog.require (!(changesSchedule && before.status == .running)) cohortErrors.scheduleLocked
  let (_, shift, room) ← resolve {
    courseId := before.courseId
    shiftId := input.shiftId.getD before.shiftId
    roomId := input.roomId.getD before.roomId
    intakeId := input.intakeId.getD before.intakeId
    instructorId := input.instructorId.getD before.instructorId }
  Prog.when (room.branchId != before.branchId) <|
    assertScope grants .cohortsManage (some { departmentId, branchId := some room.branchId })
  let maxSize := input.maxSize.getD before.maxSize
  let d ← Prog.get
  let enrolled := d.activeCount id
  Prog.require (enrolled ≤ min maxSize room.capacity) cohortErrors.capacityBelowEnrolled
  let result ← updateWithVersion cohortsTable id expectedVersion (input.apply · room.branchId)
  let row ← versionedRow result cohortErrors.cohortNotFound
  checkCohort row
  Prog.when changesSchedule do
    let _ ← generateSessions env row shift
  getCohort id grants

/-- What `setStatus` makes of a row, but for its version. -/
def statusRow (next : CohortStatus) (row : CohortRow) : CohortRow := { row with status := next }

def setStatus (id : Uuid) (next : CohortStatus) (expectedVersion : ℕ) (grants : List Grant) :
    Tx Cohort := do
  let before ← cohortRow id true
  let course ← findWithDepartment before.courseId
  assertScope grants .cohortsManage
    (some { departmentId := course.map CourseWithDepartment.departmentId,
            branchId := some before.branchId })
  Prog.require ((COHORT_TRANSITIONS before.status).contains next)
    (cohortErrors.invalidTransition before.status next)
  Prog.when (next == .cancelled || next == .completed) do
    let d ← Prog.get
    let live := d.activeCount id +
      if next == .cancelled then (d.inStatus id .waitlisted).length else 0
    Prog.require (live == 0) <| cohortErrors.hasEnrollments <|
      if next == .cancelled then "Withdraw or move them before cancelling."
      else "Record their results before finishing the cohort."
  let result ← updateWithVersion cohortsTable id expectedVersion (statusRow next)
  let _ ← versionedRow result cohortErrors.cohortNotFound
  Prog.when (next == .cancelled) <| Prog.modify fun d =>
    { d with classSessions := d.classSessions.filter fun s => s.cohortId != id }
  getCohort id grants

end CohortsService

/-! ## Rooms -/

structure UpdateRoomRequest where
  name : Option String := none
  capacity : Option ℕ := none
  isActive : Option Bool := none

/-- What `updateRoom` makes of a row, but for its version. -/
def UpdateRoomRequest.apply (input : UpdateRoomRequest) (row : RoomRow) : RoomRow :=
  { row with
    name := input.name.getD row.name
    capacity := input.capacity.getD row.capacity
    isActive := input.isActive.getD row.isActive }

/-- `FacilitiesService.updateRoom`. -/
def updateRoom (id : Uuid) (input : UpdateRoomRequest) (expectedVersion : ℕ) : Tx RoomRow := do
  let d ← Prog.get
  let _ ← Prog.expect (d.room? id) roomNotFound
  let result ← updateWithVersion roomsTable id expectedVersion input.apply
  versionedRow result roomNotFound

end Emis.Cohorts
