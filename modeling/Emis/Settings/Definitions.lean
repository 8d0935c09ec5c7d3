import Emis.Settings.Effects

/-!
# Definitions of custom fields

Stored values depend on the key and the type of a field, and the check of a value on the
choices of a list: what every definition is, and what never changes of it.
-/

namespace Emis.Settings

open Transactions Protocol

/-- A list has at least two choices, all different, and another field none. -/
structure CustomFieldRow.WellFormed (r : CustomFieldRow) : Prop where
  choices : r.fieldType = .select → 2 ≤ r.options.length
  plain : r.fieldType ≠ .select → r.options = []
  distinct : r.options.Nodup

/-- Is it the same field, whatever was edited since? -/
structure CustomFieldRow.SameField (r r' : CustomFieldRow) : Prop where
  id : r'.id = r.id
  entityType : r'.entityType = r.entityType
  key : r'.key = r.key
  fieldType : r'.fieldType = r.fieldType

section Checks

variable {fieldType : CustomFieldType} {options : List String}

theorem refined_iff : requireOptionsForSelect fieldType options = [] ↔
    (fieldType = .select → 2 ≤ options.length) ∧ options.Nodup := by
  rw [requireOptionsForSelect, List.append_eq_nil_iff]
  constructor
  · rintro ⟨hcount, hdistinct⟩
    refine ⟨fun hselect => ?_, ?_⟩
    · by_contra hfew
      simp [hselect, Nat.lt_of_not_le hfew] at hcount
    · by_contra hrepeated
      simp [hrepeated] at hdistinct
  · rintro ⟨hcount, hdistinct⟩
    refine ⟨if_neg fun h => ?_, if_pos hdistinct⟩
    exact absurd (hcount h.1) (Nat.not_le.2 h.2)

theorem noProblem_iff : CustomFieldsService.optionsProblem fieldType options = none ↔
    (fieldType ≠ .select → options = []) ∧ (fieldType = .select → 2 ≤ options.length) ∧ options.Nodup := by
  rw [CustomFieldsService.optionsProblem]
  split_ifs with hplain hfew hdistinct
  · simp only [false_iff, not_and]
    exact fun h => absurd (h hplain.1) (List.length_pos_iff.1 hplain.2)
  · simp only [false_iff, not_and]
    exact fun _ h => absurd (h hfew.1) (Nat.not_le.2 hfew.2)
  · simp only [true_iff]
    refine ⟨fun hother => ?_, fun hselect => ?_, hdistinct⟩
    · by_contra hne
      exact hplain ⟨hother, List.length_pos_iff.2 hne⟩
    · by_contra hcount
      exact hfew ⟨hselect, Nat.lt_of_not_le hcount⟩
  · simp [hdistinct]

theorem newField_wellFormed (id : Uuid) (input : CreateCustomFieldRequest) :
    (CustomFieldsService.newField id input).WellFormed := by
  obtain ⟨hcount, hdistinct⟩ := refined_iff.1 input.optionsRefined
  by_cases hselect : input.fieldType = .select
  · have hoptions : (CustomFieldsService.newField id input).options = input.options := if_pos hselect
    exact ⟨fun _ => hoptions ▸ hcount hselect, fun hne => (hne hselect).elim, hoptions ▸ hdistinct⟩
  · have hoptions : (CustomFieldsService.newField id input).options = [] := if_neg hselect
    exact ⟨fun h => (hselect h).elim, fun _ => hoptions, hoptions ▸ .nil⟩

theorem edit_wellFormed {input : UpdateCustomFieldRequest} {r : CustomFieldRow} (hr : r.WellFormed)
    (hchecked : input.options.bind (CustomFieldsService.optionsProblem r.fieldType) = none) :
    (customFields.edited (CustomFieldsService.edit input) r).WellFormed := by
  cases hgiven : input.options with
  | none =>
      have hoptions : (customFields.edited (CustomFieldsService.edit input) r).options = r.options := by
        simp [CodedTable.edited, customFields, CustomFieldsService.edit, hgiven]
      exact ⟨fun h => hoptions ▸ hr.choices h, fun h => hoptions ▸ hr.plain h, hoptions ▸ hr.distinct⟩
  | some options =>
      have hoptions : (customFields.edited (CustomFieldsService.edit input) r).options = options := by
        simp [CodedTable.edited, customFields, CustomFieldsService.edit, hgiven]
      rw [hgiven] at hchecked
      obtain ⟨hplain, hcount, hdistinct⟩ := noProblem_iff.1 hchecked
      exact ⟨fun h => hoptions ▸ hcount h, fun h => hoptions ▸ hplain h, hoptions ▸ hdistinct⟩

theorem wellFormed_of_effect {d d' : Db} {a : Reply} (hd : Inv d) (hall : ∀ r ∈ d.customFields, r.WellFormed)
    {request : Request} (h : request.Effect d a d') : ∀ r ∈ d'.customFields, r.WellFormed := by
  cases request with
  | createField env input =>
      obtain ⟨-, -, rfl⟩ := h
      intro r hr
      rcases List.mem_append.1 hr with hr | hr
      · exact hall r hr
      · exact List.mem_singleton.1 hr ▸ newField_wellFormed _ input
  | updateField id input v =>
      obtain ⟨r, row, -, hchecked, hmem, hrid, -, -, rfl⟩ := h
      intro r' hr'
      obtain ⟨s, hs, rfl⟩ := mem_changeWhere.1 hr'
      split
      · rename_i hhit
        have hsid : s.id = id := by simpa [customFields] using hhit
        obtain rfl : s = r := eq_of_key_eq hd.customFields.ids hs hmem (hsid.trans hrid.symm)
        exact edit_wellFormed (hall s hs) hchecked
      · exact hall s hs
  | setModule value enabled =>
      obtain ⟨key, -, -, -, rfl⟩ := h
      split <;> exact hall
  | createBranch env input | createDepartment env input | createDescriptor env input =>
      obtain ⟨-, -, rfl⟩ := h
      exact hall
  | updateBranch id input v =>
      obtain ⟨r, row, -, -, -, -, -, -, rfl⟩ := h
      exact hall
  | updateDepartment id input v | updateDescriptor id input v =>
      obtain ⟨r, row, -, -, -, -, -, rfl⟩ := h
      exact hall
  | updateInstitution input v =>
      obtain ⟨r, -, -, -, rfl⟩ := h
      exact hall
  | completeSetup env input =>
      obtain ⟨current, fromPresets, -, -, -, -, rfl⟩ := h
      rw [setUp, inserted_eq]
      exact hall

theorem CustomFieldRow.SameField.refl (r : CustomFieldRow) : r.SameField r := ⟨rfl, rfl, rfl, rfl⟩

theorem CustomFieldRow.SameField.trans {r r' r'' : CustomFieldRow} (h : r.SameField r') (h' : r'.SameField r'') :
    r.SameField r'' where
  id := h'.id.trans h.id
  entityType := h'.entityType.trans h.entityType
  key := h'.key.trans h.key
  fieldType := h'.fieldType.trans h.fieldType

theorem sameField_of_effect {d d' : Db} {a : Reply} {request : Request} (h : request.Effect d a d') :
    ∀ r ∈ d.customFields, ∃ r' ∈ d'.customFields, r.SameField r' := by
  intro r hr
  by_cases hedit : ∃ id input v, request = .updateField id input v
  · obtain ⟨id, input, v, rfl⟩ := hedit
    obtain ⟨s, row, -, -, -, -, -, -, rfl⟩ := h
    refine ⟨_, mem_changeWhere.2 ⟨r, hr, rfl⟩, ?_⟩
    split
    · exact ⟨rfl, rfl, rfl, rfl⟩
    · exact .refl r
  · have hkept := (kept_of_effect h).2.2.2 fun id input v hr => hedit ⟨id, input, v, hr⟩
    exact ⟨r, hkept r hr, .refl r⟩

end Checks

/-! ## Runs -/

section Runs

variable {ι : Type} [DecidableEq ι] {start w w' : World ι Call Db Lock Error Reply}

end Runs

/-! ## A list of choices -/

def cohortFields : Db where
  customFields :=
    [{ id := 4, entityType := .cohort, key := "language", label := "Language", fieldType := .select,
       options := ["am", "en"] }]

def rechoose (options : List String) (expectedVersion : ℕ) : Call :=
  ⟨.updateField 4 { options := some options } expectedVersion, administrator⟩

/-- One administrator drops a choice, and another one adds a third. -/
def rechoosing : List (Move Call) :=
  [.begins true (rechoose ["am"] 1), .begins false (rechoose ["am", "en", "om"] 1), .turns true 2, .turns false 7,
    .turns true 7]

def rechosen : Duo Call Db Lock Error Reply := (Duo.idle cohortFields).play Call.code rechoosing

theorem inv_cohortFields : Inv cohortFields where
  branches := branches.rowsKept_nil
  departments := departments.rowsKept_nil
  descriptors := descriptors.rowsKept_nil
  customFields := ⟨by decide, by decide, by decide⟩

end Emis.Settings
