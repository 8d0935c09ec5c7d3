import Emis.Admissions.ApplicationsService

/-!
# What the services only look at

The look-ups of the student and application services leave every table alone, and
drawing a number leaves alone what is not numbering.
-/

namespace Emis.Admissions

open Transactions ApplicationsService

variable {τ : Type} {φ : Db → τ}

theorem keeps_findWithDepartment (id : Uuid) : (findWithDepartment id).Keeps φ := by
  refine .bind .get fun d => ?_
  split
  · exact .pure _
  · exact .bind .get fun _ => .bind (.expect _ _) fun _ => .pure _

theorem keeps_isActiveCode (ns code : String) : (DescriptorsService.isActiveCode ns code).Keeps φ :=
  .bind .get fun _ => .pure _

theorem keeps_assertActiveCode (ns : String) (code : Option String) :
    (DescriptorsService.assertActiveCode ns code).Keeps φ := by
  cases code with
  | none => exact .pure _
  | some code => exact .bind (keeps_isActiveCode ns code) fun _ => .require _ _

theorem keeps_isActiveBranch (id : Uuid) : (isActiveBranch id).Keeps φ :=
  .bind .get fun _ => .pure _

theorem keeps_isEnabled (key : String) : (isEnabled key).Keeps φ := .bind .get fun _ => .pure _

theorem keeps_validateValues (env : Env) (entityType : String) (values : CustomValues) :
    (validateValues env entityType values).Keeps φ := .bind .get fun _ => .ofExcept _

theorem keeps_validateChange (env : Env) (entityType : String) (values : Option CustomValues) :
    (validateChange env entityType values).Keeps φ := by
  cases values with
  | none => exact .pure _
  | some values => exact .map _ (keeps_validateValues _ _ _)

theorem keeps_requireReference (what : String) (id : Option Uuid) {known : Uuid → Tx Bool}
    (hknown : ∀ id, (known id).Keeps φ) : (requireReference what id known).Keeps φ := by
  cases id with
  | none => exact .pure _
  | some id => exact .bind (hknown id) fun _ => .require _ _

theorem keeps_checkReferences (course shift intake : Option Uuid) :
    (checkReferences course shift intake).Keeps φ :=
  .bind (keeps_requireReference _ _ fun id => .map _ (keeps_findWithDepartment id)) fun _ =>
    .bind (keeps_requireReference _ _ fun _ => .bind .get fun _ => .pure _) fun _ =>
      keeps_requireReference _ _ fun _ => .bind .get fun _ => .pure _

theorem keeps_find (env : Env) (p : Person) : (DuplicatesService.find env p).Keeps φ :=
  .bind .get fun _ => .pure _

theorem keeps_withGuardians (row : StudentRow) : (StudentsService.withGuardians row).Keeps φ :=
  .bind .get fun _ => .pure _

theorem keeps_studentRow (id : Uuid) : (StudentsService.row id).Keeps φ :=
  .bind .get fun _ => .expect _ _

theorem keeps_getStudent (id : Uuid) (grants : List Grant) :
    (StudentsService.get id grants).Keeps φ :=
  .bind (keeps_studentRow id) fun _ =>
    .bind (keeps_assertBranchAccess _ _ _) fun _ => keeps_withGuardians _

/-! ## Drawing numbers -/

/-- Everything but numbering and the guardians. -/
def Db.records (d : Db) : List ApplicationRow × List StudentRow := (d.applications, d.students)

theorem keeps_nextNumber (env : Env) (key : Numbering.NumberSeriesKey) (branchId : Option Uuid) :
    (nextNumber env key branchId).Keeps Db.records :=
  .zoom (Numbering.keeps_next _ key branchId none) fun _ _ _ => rfl

theorem keeps_insertGuardians (env : Env) (studentId : Uuid) (guardians : List GuardianValues) :
    (StudentsService.insertGuardians env studentId guardians).Keeps Db.records :=
  .bind (.require _ _) fun _ => .bind (.require _ _) fun _ => .bind (.modify fun _ => rfl) fun _ =>
    .pure _

end Emis.Admissions
