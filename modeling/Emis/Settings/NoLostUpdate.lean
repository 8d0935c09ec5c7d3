import Emis.Common.EditHistory
import Emis.Settings.Effects

/-!
# No lost updates

Of the edits of a branch, a department, a list value or a custom field, those that go
through name its versions one after another.
-/

namespace Emis.Settings

open Transactions

def branchEdit? (q : Call) : Option (Edit BranchRow) :=
  match q.request with
  | .updateBranch id input expectedVersion => some ⟨id, expectedVersion, OrganizationService.editBranch input⟩
  | _ => none

def departmentEdit? (q : Call) : Option (Edit DepartmentRow) :=
  match q.request with
  | .updateDepartment id input expectedVersion => some ⟨id, expectedVersion, OrganizationService.editDepartment input⟩
  | _ => none

def descriptorEdit? (q : Call) : Option (Edit DescriptorRow) :=
  match q.request with
  | .updateDescriptor id input expectedVersion => some ⟨id, expectedVersion, DescriptorsService.edit input⟩
  | _ => none

def fieldEdit? (q : Call) : Option (Edit CustomFieldRow) :=
  match q.request with
  | .updateField id input expectedVersion => some ⟨id, expectedVersion, CustomFieldsService.edit input⟩
  | _ => none

section Effects

variable {d d' : Db} {a : Reply}

theorem Updates.edits {ρ κ : Type} {t : CodedTable Db Lock ρ κ} {values : ρ → ρ} {id : Uuid} {version : ℕ} {r row : ρ}
    (h : Updates t values id version r row d d') (he : t.Edits values) :
    t.Edits values ∧ (∃ r ∈ t.rows d, t.id r = id ∧ t.version r = version) ∧
      t.rows d' = changeWhere (fun r => t.id r == id) (t.edited values) (t.rows d) :=
  ⟨he, ⟨r, h.1, h.2.1, h.2.2.1⟩, h.rows⟩

end Effects

theorem branches_edits : EditsOnly branches branchEdit? Call.code Inv := by
  intro q a d d' hd halone
  have heffect := (effect_of_alone hd halone).2
  refine ⟨inv_of_effect hd heffect, ?_⟩
  rcases q with ⟨request, grants⟩
  cases request with
  | updateBranch id input v =>
      obtain ⟨r, row, -, -, h⟩ := heffect
      exact h.edits (editBranch_edits input)
  | _ => exact (kept_of_effect heffect).1 (by simp)

theorem departments_edits : EditsOnly departments departmentEdit? Call.code Inv := by
  intro q a d d' hd halone
  have heffect := (effect_of_alone hd halone).2
  refine ⟨inv_of_effect hd heffect, ?_⟩
  rcases q with ⟨request, grants⟩
  cases request with
  | updateDepartment id input v =>
      obtain ⟨r, row, -, h⟩ := heffect
      exact h.edits ⟨fun _ => rfl, fun _ => rfl⟩
  | _ => exact (kept_of_effect heffect).2.1 (by simp)

theorem descriptors_edits : EditsOnly descriptors descriptorEdit? Call.code Inv := by
  intro q a d d' hd halone
  have heffect := (effect_of_alone hd halone).2
  refine ⟨inv_of_effect hd heffect, ?_⟩
  rcases q with ⟨request, grants⟩
  cases request with
  | updateDescriptor id input v =>
      obtain ⟨r, row, -, h⟩ := heffect
      exact h.edits ⟨fun _ => rfl, fun _ => rfl⟩
  | _ => exact (kept_of_effect heffect).2.2.1 (by simp)

theorem fields_edits : EditsOnly customFields fieldEdit? Call.code Inv := by
  intro q a d d' hd halone
  have heffect := (effect_of_alone hd halone).2
  refine ⟨inv_of_effect hd heffect, ?_⟩
  rcases q with ⟨request, grants⟩
  cases request with
  | updateField id input v =>
      obtain ⟨r, row, -, -, h⟩ := heffect
      exact h.edits ⟨fun _ => rfl, fun _ => rfl⟩
  | _ => exact (kept_of_effect heffect).2.2.2 (by simp)

/-- Every row of the store is in order after the edits that were made of it. -/
structure AllInOrder (d : Db) (done : List (Call × Reply)) (d' : Db) : Prop where
  branches : ∀ r ∈ d.branches, InOrder branches r (editsOf branchEdit? r.id done) d'
  departments : ∀ r ∈ d.departments, InOrder departments r (editsOf departmentEdit? r.id done) d'
  descriptors : ∀ r ∈ d.descriptors, InOrder descriptors r (editsOf descriptorEdit? r.id done) d'
  customFields : ∀ r ∈ d.customFields, InOrder customFields r (editsOf fieldEdit? r.id done) d'

def languages : Db where
  departments := [{ id := 7, code := ⟨['L', 'A', 'N', 'G', '1'], by decide, by decide⟩, name := "Languages" }]

def rename (name : String) : Call := ⟨.updateDepartment 7 { name := some name } 1, administrator⟩

/-- Two administrators rename the department, having seen it at its first version. -/
def renamings : List (Move Call) :=
  [.begins true (rename "Language"), .begins false (rename "Modern languages"), .turns true 2, .turns false 2,
    .turns true 6, .turns false 6]

def renamed : Duo Call Db Lock Error Reply := (Duo.idle languages).play Call.code renamings

theorem inv_languages : Inv languages where
  branches := branches.rowsKept_nil
  departments := ⟨by decide, by decide, by decide⟩
  descriptors := descriptors.rowsKept_nil
  customFields := customFields.rowsKept_nil

end Emis.Settings
