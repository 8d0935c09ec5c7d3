import Emis.Cohorts.EnrollmentsService

/-!
# The requests of the cohort services
-/

namespace Emis.Cohorts

/-- A request to the cohort services. -/
inductive Call where
  | enroll (env : Env) (studentId cohortId : Uuid) (grants : List Grant)
  | withdraw (env : Env) (id : Uuid) (reasonCode : String) (expectedVersion : ℕ)
    (grants : List Grant)
  | recordResult (env : Env) (id : Uuid) (input : EnrollmentsService.RecordResultValues)
    (expectedVersion : ℕ) (grants : List Grant)
  | update (env : Env) (id : Uuid) (input : UpdateCohortValues) (expectedVersion : ℕ)
    (grants : List Grant)
  | setStatus (id : Uuid) (next : CohortStatus) (expectedVersion : ℕ) (grants : List Grant)
  | updateRoom (id : Uuid) (input : UpdateRoomRequest) (expectedVersion : ℕ)

inductive Reply where
  | enroll (r : EnrollResponse)
  | withdraw (r : EnrollmentsService.WithdrawResponse)
  | result (r : Enrollment)
  | cohort (r : Cohort)
  | room (r : RoomRow)

def Call.code : Call → Tx Reply
  | .enroll env studentId cohortId grants =>
      .enroll <$> EnrollmentsService.enroll env studentId cohortId grants
  | .withdraw env id reasonCode v grants =>
      .withdraw <$> EnrollmentsService.withdraw env id reasonCode v grants
  | .recordResult env id input v grants =>
      .result <$> EnrollmentsService.recordResult env id input v grants
  | .update env id input v grants => .cohort <$> CohortsService.update env id input v grants
  | .setStatus id next v grants => .cohort <$> CohortsService.setStatus id next v grants
  | .updateRoom id input v => .room <$> Cohorts.updateRoom id input v

/-- The store after one request that is served alone. -/
def Call.after (call : Call) (d : Db) : Db := (call.code.alone d).2

/-! ## A class of one seat -/

/-- One cohort with one seat and three students, nobody enrolled. -/
def smallClass : Db where
  cohorts := [⟨1, "A1 morning", 1, none, 1, 1, none, 1, 20700, 20760, 1, .open, 1⟩]
  rooms := [⟨1, 1, "Room 1", 1, true, 1⟩]
  courses := [⟨1, 1, none, none, true⟩]
  programs := [⟨1, 1⟩]
  students := [⟨1, .active⟩, ⟨2, .active⟩, ⟨3, .active⟩]
  descriptors := [⟨"withdrawal_reason", "moved", true⟩]

def registrar : List Grant := [⟨.enrollmentsManage, .global⟩, ⟨.resultsRecord, .global⟩]

/-- Student `n` asks for a place at time `10 * n`; the row gets the id `10 + n`. -/
def asks (n : ℕ) : Call := .enroll { now := 10 * n, newId := 10 + n } n 1 registrar

end Emis.Cohorts
