import Emis.Cohorts.CohortsService
import Mathlib.Data.List.Sort

/-!
# Enrolling, leaving, results

`enrollments.service.ts`: seats, the waitlist, withdrawals and results, with
`ApplicationsService.markEnrolled` and the look-ups they make in other modules.
-/

namespace Emis.Cohorts

open Transactions

/-! ## The waitlist -/

/-- `ORDER BY waitlisted_at ASC, id ASC`, with nulls last. -/
def waitsBefore (e e' : EnrollmentRow) : Prop :=
  match e.waitlistedAt, e'.waitlistedAt with
  | some s, some t => s < t ∨ s = t ∧ e.id ≤ e'.id
  | some _, none => True
  | none, some _ => False
  | none, none => e.id ≤ e'.id

instance : DecidableRel waitsBefore := fun e e' => by
  unfold waitsBefore
  split <;> infer_instance

/-- The waiting students of one cohort, longest first. -/
def Db.waitlist (d : Db) (cohortId : Uuid) : List EnrollmentRow :=
  (d.inStatus cohortId .waitlisted).insertionSort waitsBefore

/-- The loop of `positions`: `next` has the last place given out per cohort. -/
def givePlaces : List EnrollmentRow → (Uuid → Option ℕ) → (Uuid → Option ℕ) → Uuid → Option ℕ
  | [], _, positions => positions
  | e :: queue, next, positions =>
      let place := (next e.cohortId).getD 0 + 1
      givePlaces queue (Function.update next e.cohortId (some place))
        (Function.update positions e.id (some place))

/-- 1-based place in each cohort's waitlist, oldest first, for the cohorts given. -/
def Db.positions (d : Db) (cohortIds : List Uuid) : Uuid → Option ℕ :=
  let queue := (d.enrollments.filter fun e =>
    cohortIds.contains e.cohortId && e.status == .waitlisted).insertionSort waitsBefore
  givePlaces queue (fun _ => none) fun _ => none

/-- `toEnrollment`, without the names of the student and the cohort. -/
structure Enrollment where
  row : EnrollmentRow
  waitlistPosition : Option ℕ

def toEnrollment (e : EnrollmentRow) (waitlistPosition : Option ℕ) : Enrollment :=
  { row := e
    waitlistPosition := if e.status == .waitlisted then waitlistPosition else none }

def present (ids : List Uuid) : Tx (List Enrollment) := do
  if ids.isEmpty then
    return []
  else
    let d ← Prog.get
    let rows := d.enrollments.filter fun e =>
      ids.contains e.id && d.students.any (fun s => s.id == e.studentId) &&
        (d.cohort? e.cohortId).isSome
    let d ← Prog.get
    let positions := d.positions (rows.map EnrollmentRow.cohortId)
    return ids.filterMap fun id =>
      (rows.find? fun e => e.id == id).map fun e => toEnrollment e (positions e.id)

/-! ## Look-ups -/

/-- `DescriptorsService.assertActiveCode`. -/
def assertActiveCode (ns code : String) : Tx Unit := do
  let d ← Prog.get
  Prog.require (d.descriptors.any fun r => r.ns == ns && r.code == code && r.isActive)
    (invalidListValue ns)

/-- `CoursesService.get`, of which only `prerequisiteIds` is used. -/
def prerequisiteIdsOf (courseId : Uuid) : Tx (List Uuid) := do
  let d ← Prog.get
  let _ ← Prog.expect (d.courses.find? fun c => c.id == courseId) courseNotFound
  let d ← Prog.get
  return (d.coursePrerequisites.filter fun p => p.courseId == courseId).map
    PrerequisiteRow.prerequisiteCourseId

/-- The courses the student has completed, in any cohort, each once. -/
def Db.completedCourses (d : Db) (studentId : Uuid) : List Uuid :=
  ((d.enrollments.filter fun e => e.studentId == studentId && e.status == .completed).filterMap
    fun e => (d.cohort? e.cohortId).map CohortRow.courseId).dedup

/-- The student must have completed every prerequisite course. -/
def assertPrerequisites (studentId courseId : Uuid) : Tx Unit := do
  let prerequisiteIds ← prerequisiteIdsOf courseId
  Prog.when (!prerequisiteIds.isEmpty) do
    let d ← Prog.get
    let done := (d.completedCourses studentId).filter prerequisiteIds.contains
    Prog.require (prerequisiteIds.length ≤ done.length) cohortErrors.prerequisitesNotMet

/-- `ApplicationsService.markEnrolled`: the student's confirmed applications are
done. -/
def markEnrolled (studentId : Uuid) : Tx Unit := do
  let confirmed (a : ApplicationRow) : Bool :=
    a.studentId == some studentId && a.status == .confirmed
  let d ← Prog.get
  (d.applications.filter confirmed).forM fun a => do
    let _ ← Prog.updateWhere (.application a.id)
      (fun d => d.applications.any fun b => b.id == a.id && confirmed b)
      fun d => { d with
        applications := d.applications.map fun b =>
          if b.id == a.id then { b with status := .enrolled, version := b.version + 1 } else b }

/-! ## Enrolling -/

/-- Waiting for a place or holding one: the predicate of the partial index. -/
def EnrollmentStatus.live : EnrollmentStatus → Bool
  | .waitlisted | .active => true
  | .completed | .failed | .withdrawn => false

/-- `INSERT INTO enrollments`: an entry of a unique index is taken first, which
waits for anybody who is adding the same entry. -/
def insertEnrollment (row : EnrollmentRow) : Tx Unit := do
  Prog.acquire (.liveEnrollment row.studentId row.cohortId)
  let d ← Prog.get
  Prog.require (!(row.status.live && d.enrollments.any fun e =>
      e.studentId == row.studentId && e.cohortId == row.cohortId && e.status.live))
    cohortErrors.alreadyEnrolled
  Prog.acquire (.enrollment row.id)
  let d ← Prog.get
  Prog.require (!d.enrollments.any fun e => e.id == row.id) cohortErrors.alreadyEnrolled
  Prog.modify fun d => { d with enrollments := d.enrollments ++ [row] }

inductive EnrollOutcome where
  | enrolled
  | waitlisted
  deriving DecidableEq, Repr

structure EnrollResponse where
  outcome : EnrollOutcome
  enrollment : Enrollment

namespace EnrollmentsService

/-- `row`. -/
def row (id : Uuid) : Tx EnrollmentRow := do
  let d ← Prog.get
  Prog.expect (d.enrollment? id) cohortErrors.enrollmentNotFound

/-- The row that `enroll` inserts, with a seat or on the waitlist. -/
def newEnrollment (env : Env) (studentId cohortId : Uuid) (hasSeat : Bool) : EnrollmentRow where
  id := env.newId
  studentId := studentId
  cohortId := cohortId
  status := if hasSeat then .active else .waitlisted
  waitlistedAt := if hasSeat then none else some env.now
  enrolledAt := if hasSeat then some env.now else none
  withdrawnAt := none
  withdrawalReason := none
  score := none
  attendancePercent := none
  completedAt := none
  version := 1

/-- Enroll a student, or put them on the waitlist if the class is full. -/
def enroll (env : Env) (studentId cohortId : Uuid) (grants : List Grant) : Tx EnrollResponse := do
  let cohort ← cohortRow cohortId true
  assertScope grants .enrollmentsManage (some { branchId := some cohort.branchId })
  Prog.require (ENROLLING_COHORT_STATUSES.contains cohort.status) cohortErrors.notEnrolling
  let d ← Prog.get
  let student ← Prog.expect (d.students.find? fun s => s.id == studentId) studentNotFound
  Prog.require (student.status == .active) cohortErrors.studentNotActive
  let d ← Prog.get
  Prog.require
    (!d.enrollments.any fun e => e.studentId == studentId && e.cohortId == cohortId &&
      [EnrollmentStatus.waitlisted, .active, .completed].contains e.status)
    cohortErrors.alreadyEnrolled
  assertPrerequisites studentId cohort.courseId
  let counted ← Prog.get
  let seats ← Prog.get
  let hasSeat : Bool := counted.activeCount cohort.id < seats.seatsOf cohort
  insertEnrollment (newEnrollment env studentId cohort.id hasSeat)
  Prog.when hasSeat (markEnrolled studentId)
  let presented ← present [env.newId]
  let enrollment ← Prog.expect presented.head? cohortErrors.enrollmentNotFound
  return { outcome := if hasSeat then .enrolled else .waitlisted, enrollment := enrollment }

/-! ## Leaving -/

structure WithdrawResponse where
  enrollment : Enrollment
  promoted : Option Enrollment

/-- What `promoteWaiting` makes of the row of `next`. -/
def promotedRow (env : Env) (next e : EnrollmentRow) : EnrollmentRow :=
  { e with status := .active, enrolledAt := some env.now, version := next.version + 1 }

/-- What `withdraw` makes of a row, but for its version. -/
def withdrawnRow (env : Env) (reasonCode : String) (e : EnrollmentRow) : EnrollmentRow :=
  { e with
    status := .withdrawn
    withdrawnAt := some env.now
    withdrawalReason := some reasonCode }

/-- Give a free seat to the longest-waiting student. The caller holds the cohort
lock. -/
def promoteWaiting (env : Env) (cohort : CohortRow) : Tx (Option Uuid) := do
  let counted ← Prog.get
  let seats ← Prog.get
  if seats.seatsOf cohort ≤ counted.activeCount cohort.id then
    return none
  else
    let d ← Prog.get
    match (d.waitlist cohort.id).head? with
    | none => return none
    | some next =>
        let _ ← Prog.updateWhere (.enrollment next.id)
          (fun d => d.enrollments.any fun e => e.id == next.id)
          (enrollmentsTable.updateRow next.id (promotedRow env next))
        markEnrolled next.studentId
        return some next.id

/-- Withdraw a student from a seat or from the waitlist. -/
def withdraw (env : Env) (id : Uuid) (reasonCode : String) (expectedVersion : ℕ)
    (grants : List Grant) : Tx WithdrawResponse := do
  let found ← row id
  let cohort ← cohortRow found.cohortId true
  assertScope grants .enrollmentsManage (some { branchId := some cohort.branchId })
  Prog.require found.status.live <|
    cohortErrors.invalidEnrollmentState "Only students who are enrolled or waiting can withdraw."
  assertActiveCode "withdrawal_reason" reasonCode
  let result ← updateWithVersion enrollmentsTable id expectedVersion (withdrawnRow env reasonCode)
  let updated ← versionedRow result cohortErrors.enrollmentNotFound
  let promotedId ← (if found.status == .active && cohort.status != .cancelled then
    promoteWaiting env cohort else pure none)
  let presented ← present [updated.id]
  let promoted ← present promotedId.toList
  let enrollment ← Prog.expect presented.head? cohortErrors.enrollmentNotFound
  return { enrollment := enrollment, promoted := promoted.head? }

/-! ## Results -/

structure RecordResultValues where
  score : Option ℚ
  attendancePercent : Option ℚ

/-- The CHECK constraints on the two numbers of a result. -/
def checkResult (input : RecordResultValues) : Tx Unit := do
  Prog.require (input.score.all fun n => 0 ≤ n && n ≤ 100)
    (.database (.check "enrollments_score_check"))
  Prog.require (input.attendancePercent.all fun n => 0 ≤ n && n ≤ 100)
    (.database (.check "enrollments_attendance_check"))

/-- What `recordResult` makes of a row, but for its version. -/
def resultRow (env : Env) (status : EnrollmentStatus) (input : RecordResultValues)
    (e : EnrollmentRow) : EnrollmentRow :=
  { e with
    status := status
    score := input.score
    attendancePercent := input.attendancePercent
    completedAt := some env.now }

/-- Record the final result and let the course's completion rules decide. -/
def recordResult (env : Env) (id : Uuid) (input : RecordResultValues) (expectedVersion : ℕ)
    (grants : List Grant) : Tx Enrollment := do
  let found ← row id
  let cohort ← cohortRow found.cohortId false
  let found? ← findWithDepartment cohort.courseId
  let course ← Prog.expect found? cohortErrors.cohortNotFound
  assertScope grants .resultsRecord
    (some { departmentId := some course.departmentId, branchId := some cohort.branchId })
  Prog.require (found.status == .active) <|
    cohortErrors.invalidEnrollmentState
      "Results can only be recorded for students who are enrolled."
  let status ←
    match evaluateCompletion course.course input.score input.attendancePercent with
    | .incomplete missing => Prog.throw (cohortErrors.resultIncomplete missing)
    | .passed => pure EnrollmentStatus.completed
    | .failed _ => pure EnrollmentStatus.failed
  let result ← updateWithVersion enrollmentsTable id expectedVersion (resultRow env status input)
  let updated ← versionedRow result cohortErrors.enrollmentNotFound
  checkResult input
  let presented ← present [updated.id]
  Prog.expect presented.head? cohortErrors.enrollmentNotFound

end EnrollmentsService

end Emis.Cohorts
