import Emis.Cohorts.EnrollmentsService

/-!
# What the helpers of the cohort services leave alone

Most of what a service calls only reads. `markEnrolled` and `generateSessions`
write, but not to a table that the seats of a cohort depend on.
-/

namespace Emis.Cohorts

open Transactions

/-- The tables that decide who has a seat. -/
def Db.places (d : Db) : List CohortRow × List EnrollmentRow × List RoomRow :=
  (d.cohorts, d.enrollments, d.rooms)

section Reads

variable {τ : Type} {φ : Db → τ}

theorem keeps_cohortRow (id : Uuid) (forUpdate : Bool) : (cohortRow id forUpdate).Keeps φ :=
  .bind (.when _ (.acquire _)) fun _ => .bind .get fun _ => .expect _ _

theorem keeps_withNumbers (row : CohortRow) : (withNumbers row).Keeps φ :=
  .bind .get fun _ => .bind .get fun _ => .bind .get fun _ => .pure _

theorem keeps_getCohort (id : Uuid) (grants : List Grant) : (getCohort id grants).Keeps φ :=
  .bind (keeps_cohortRow _ _) fun _ =>
    .bind (keeps_assertBranchAccess _ _ _) fun _ => keeps_withNumbers _

theorem keeps_findWithDepartment (id : Uuid) : (findWithDepartment id).Keeps φ := by
  refine .bind .get fun d => ?_
  cases d.courses.find? fun c => c.id == id with
  | none => exact .pure _
  | some course => exact .bind .get fun _ => .bind (.expect _ _) fun _ => .pure _

theorem keeps_resolve (input : References) : (resolve input).Keeps φ :=
  .bind (keeps_findWithDepartment _) fun _ => .bind (.expect _ _) fun _ =>
    .bind .get fun _ => .bind (.expect _ _) fun _ => .bind .get fun _ => .bind (.expect _ _) fun _ =>
      .bind .get fun _ => .bind (.require _ _) fun _ => .bind .get fun _ =>
        .bind (.require _ _) fun _ => .pure _

theorem keeps_checkCohort (row : CohortRow) : (checkCohort row).Keeps φ :=
  .bind (.require _ _) fun _ => .require _ _

theorem keeps_assertActiveCode (ns code : String) : (assertActiveCode ns code).Keeps φ :=
  .bind .get fun _ => .require _ _

theorem keeps_assertPrerequisites (studentId courseId : Uuid) :
    (assertPrerequisites studentId courseId).Keeps φ := by
  refine .bind (.bind .get fun _ => .bind (.expect _ _) fun _ => .bind .get fun _ => .pure _)
    fun ids => ?_
  exact .when _ (.bind .get fun _ => .require _ _)

theorem keeps_present (ids : List Uuid) : (present ids).Keeps φ :=
  .ite (.pure _) (.bind .get fun _ => .bind .get fun _ => .pure _)

theorem keeps_checkResult (input : EnrollmentsService.RecordResultValues) :
    (EnrollmentsService.checkResult input).Keeps φ :=
  .bind (.require _ _) fun _ => .require _ _

end Reads

theorem keeps_markEnrolled (studentId : Uuid) : (markEnrolled studentId).Keeps Db.places := by
  refine .bind .get fun d => .forM _ fun a => .bind (.updateWhere _ _ fun d => ?_) fun _ => .pure _
  rfl

theorem keeps_generateSessions (env : Env) (cohort : CohortRow) (shift : ShiftRow) :
    (generateSessions env cohort shift).Keeps Db.places := by
  refine .bind .get fun d => .bind (.require _ _) fun _ => .bind (.require _ _) fun _ =>
    .bind .get fun _ => .bind (.modify fun _ => rfl) fun _ => .bind .get fun d => ?_
  split
  · exact .throw _
  · exact .bind (.modify fun _ => rfl) fun _ => .pure _

end Emis.Cohorts
