import Emis.Settings.Serial

/-!
# What each request does

The effect of every request of the settings services that is answered.
-/

namespace Emis.Settings

open Transactions

variable {ρ κ : Type} [DecidableEq κ]

def Creates (t : CodedTable Db Lock ρ κ) (row : ρ) (d d' : Db) : Prop := t.taken row d = false ∧ d' = t.add row d

/-- The row `r` of this id and version is edited, and becomes `row`. -/
def Updates (t : CodedTable Db Lock ρ κ) (values : ρ → ρ) (id : Uuid) (version : ℕ) (r row : ρ) (d d' : Db) : Prop :=
  r ∈ t.rows d ∧ t.id r = id ∧ t.version r = version ∧ row = t.edited values r ∧ d' = t.bump id values d

def Request.Effect : Request → Db → Reply → Db → Prop
  | .setModule value enabled, d, a, d' => ∃ key, moduleKey? value = some key ∧
      ModulesService.allowed d key enabled = true ∧ a = .modules (ModulesService.states d') ∧
      d' = if ModulesService.enabledIn d key != enabled then ModulesService.switch key enabled d else d
  | .createBranch env input, d, a, d' =>
      let row := OrganizationService.newBranch (env.newId 0) input
      a = .branch row ∧ Creates branches row d d'
  | .updateBranch id input expectedVersion, d, a, d' => ∃ r row, a = .branch row ∧
      (input.isActive = some false → r.isActive = true → OrganizationService.otherActive d id = true) ∧
      Updates branches (OrganizationService.editBranch input) id expectedVersion r row d d'
  | .createDepartment env input, d, a, d' =>
      let row := OrganizationService.newDepartment (env.newId 0) input
      a = .department row ∧ Creates departments row d d'
  | .updateDepartment id input expectedVersion, d, a, d' => ∃ r row, a = .department row ∧
      Updates departments (OrganizationService.editDepartment input) id expectedVersion r row d d'
  | .createDescriptor env input, d, a, d' =>
      let row := DescriptorsService.newDescriptor (env.newId 0) input
      a = .descriptor row ∧ Creates descriptors row d d'
  | .updateDescriptor id input expectedVersion, d, a, d' => ∃ r row, a = .descriptor row ∧
      Updates descriptors (DescriptorsService.edit input) id expectedVersion r row d d'
  | .createField env input, d, a, d' =>
      let row := CustomFieldsService.newField (env.newId 0) input
      a = .field row ∧ Creates customFields row d d'
  | .updateField id input expectedVersion, d, a, d' => ∃ r row, a = .field row ∧
      input.options.bind (CustomFieldsService.optionsProblem r.fieldType) = none ∧
      Updates customFields (CustomFieldsService.edit input) id expectedVersion r row d d'
  | .updateInstitution input expectedVersion, d, a, d' => ∃ r, d.institution = some r ∧ r.version = expectedVersion ∧
      a = .institution (toInstitution (editedInstitution input r)) ∧
      d' = { d with institution := some (editedInstitution input r) }
  | .completeSetup env input, d, a, d' => ∃ current fromPresets, d.institution = some current ∧
      current.setupCompletedAt = none ∧ input.presets.mapM SetupService.presetDepartments = .ok fromPresets ∧
      a = .institution (toInstitution (SetupService.completedRow env.now input.institution current)) ∧
      d' = setUp env input fromPresets current d

section Wlp

variable {d : Db} {t : CodedTable Db Lock ρ κ} {row : ρ}

theorem wlp_create {codeTaken : Error} :
    (do t.insert row codeTaken; return row : Tx ρ).wlp (fun b d' => b = row ∧ Creates t row d d') (fun _ => True) d := by
  rw [Prog.wlp_bind, CodedTable.wlp_insert]
  exact ⟨fun hfree => ⟨rfl, hfree, rfl⟩, fun _ => trivial⟩

omit [DecidableEq κ] in
theorem row_of_found {id : Uuid} {before : ρ} (hfound : t.row? d id = some before) :
    before ∈ t.rows d ∧ t.id before = id :=
  ⟨List.mem_of_find?_eq_some hfound, by simpa using List.find?_some hfound⟩

omit [DecidableEq κ] in
/-- An update that goes through changes the row that was read before. -/
theorem wlp_edit {Φ : ρ → Db → Prop} {values : ρ → ρ} {id : Uuid} (version : ℕ) (notFound : Error) {before : ρ}
    (he : t.Edits values) (hd : t.WellKept d) (hfound : t.row? d id = some before)
    (hΦ : ∀ row d', Updates t values id version before row d d' → Φ row d') :
    (updateWithVersion t.toVersionedTable id version values : Tx _).wlp
      (fun result => (versionedRow result notFound : Tx ρ).wlp Φ fun _ => True) (fun _ => True) d := by
  obtain ⟨hmem, rfl⟩ := row_of_found hfound
  refine wlp_versioned _ (fun row hat hrow => ?_) trivial trivial
  obtain ⟨r, hr, hid, hversion⟩ := CodedTable.isAt_iff.1 hat
  obtain rfl : r = before := eq_of_key_eq hd.ids hr hmem hid
  have hedited := CodedTable.row?_bump he hd hr
  exact hΦ _ _ ⟨hr, rfl, hversion, Option.some.inj (hrow.symm.trans hedited), rfl⟩

end Wlp

variable {d d' : Db} {a : Reply}

theorem effect_wlp (hd : Inv d) (request : Request) :
    request.service.wlp (request.Effect d) (fun _ => True) d := by
  cases request with
  | setModule value enabled =>
      rw [Request.service, Prog.wlp_map]
      simp only [ModulesService.set, Prog.wlp_bind, Prog.wlp_expect, Prog.wlp_acquire, Prog.wlp_get, Prog.wlp_require,
        Prog.wlp_when, Prog.wlp_modify, Prog.wlp_pure, implies_true, and_true]
      refine fun key hkey hallowed => ⟨fun hchanges => ?_, fun hsame => ?_⟩
      · exact ⟨key, hkey, hallowed, rfl, (if_pos hchanges).symm⟩
      · exact ⟨key, hkey, hallowed, rfl, (if_neg (by simp [hsame])).symm⟩
  | createBranch env input =>
      rw [Request.service, Prog.wlp_map]
      exact Prog.wlp_mono (fun _ _ h => ⟨congrArg _ h.1, h.2⟩) (fun _ h => h) wlp_create
  | updateBranch id input expectedVersion =>
      rw [Request.service, Prog.wlp_map]
      simp only [OrganizationService.updateBranch, OrganizationService.getBranch,
        OrganizationService.assertAnotherActiveBranch, Prog.wlp_bind, Prog.wlp_get, Prog.wlp_expect, Prog.wlp_when,
        Prog.wlp_acquire, Prog.wlp_require, implies_true, and_true]
      intro before hbefore
      refine ⟨fun _ hother => ?_, fun hquiet => ?_⟩
      · exact wlp_edit _ _ (editBranch_edits input) hd.branches hbefore fun row d' hrow =>
          ⟨before, row, rfl, fun _ _ => hother, hrow⟩
      · refine wlp_edit _ _ (editBranch_edits input) hd.branches hbefore fun row d' hrow =>
          ⟨before, row, rfl, fun hoff hactive => ?_, hrow⟩
        simp [hoff, hactive] at hquiet
  | createDepartment env input =>
      rw [Request.service, Prog.wlp_map]
      exact Prog.wlp_mono (fun _ _ h => ⟨congrArg _ h.1, h.2⟩) (fun _ h => h) wlp_create
  | updateDepartment id input expectedVersion =>
      rw [Request.service, Prog.wlp_map]
      simp only [OrganizationService.updateDepartment, Prog.wlp_bind, Prog.wlp_get, Prog.wlp_expect, implies_true,
        and_true]
      exact fun before hbefore => wlp_edit _ _ ⟨fun _ => rfl, fun _ => rfl⟩ hd.departments hbefore fun row d' hrow =>
        ⟨before, row, rfl, hrow⟩
  | createDescriptor env input =>
      rw [Request.service, Prog.wlp_map]
      exact Prog.wlp_mono (fun _ _ h => ⟨congrArg _ h.1, h.2⟩) (fun _ h => h) wlp_create
  | updateDescriptor id input expectedVersion =>
      rw [Request.service, Prog.wlp_map]
      simp only [DescriptorsService.update, Prog.wlp_bind, Prog.wlp_get, Prog.wlp_expect, implies_true, and_true]
      exact fun before hbefore => wlp_edit _ _ ⟨fun _ => rfl, fun _ => rfl⟩ hd.descriptors hbefore fun row d' hrow =>
        ⟨before, row, rfl, hrow⟩
  | createField env input =>
      rw [Request.service, Prog.wlp_map]
      exact Prog.wlp_mono (fun _ _ h => ⟨congrArg _ h.1, h.2⟩) (fun _ h => h) wlp_create
  | updateField id input expectedVersion =>
      rw [Request.service, Prog.wlp_map]
      simp only [CustomFieldsService.update, CustomFieldsService.checkOptions, Prog.wlp_bind, Prog.wlp_get,
        Prog.wlp_expect, implies_true, and_true]
      intro before hbefore
      cases hproblem : input.options.bind (CustomFieldsService.optionsProblem before.fieldType) with
      | some problem => trivial
      | none =>
          exact wlp_edit _ _ ⟨fun _ => rfl, fun _ => rfl⟩ hd.customFields hbefore fun row d' hrow =>
            ⟨before, row, rfl, hproblem, hrow⟩
  | updateInstitution input expectedVersion =>
      rw [Request.service, Prog.wlp_map]
      simp only [InstitutionService.update, InstitutionService.row, Prog.wlp_bind, Prog.wlp_get, Prog.wlp_expect,
        Prog.wlp_map, implies_true, and_true]
      intro before hbefore
      refine wlp_versioned institutionTable (fun row hat hrow => ?_) trivial trivial
      obtain ⟨r, hr, hid, hversion⟩ := isAt_institution.1 hat
      obtain rfl : r = before := Option.some.inj (hr.symm.trans hbefore)
      rw [bump_institution hbefore, row_institution rfl] at hrow
      obtain rfl : editedInstitution input r = row := Option.some.inj ((if_pos rfl).symm.trans hrow)
      exact ⟨r, hbefore, hversion, rfl, bump_institution hbefore⟩
  | completeSetup env input =>
      rw [Request.service, Prog.wlp_map]
      simp only [SetupService.complete, InstitutionService.lockedRow, InstitutionService.row, Prog.wlp_bind,
        Prog.wlp_get, Prog.wlp_expect, Prog.wlp_acquire, Prog.wlp_require, Prog.wlp_ofExcept,
        CodedTable.wlp_insertAll, Prog.wlp_modify, Prog.wlp_pure, implies_true, and_true]
      intro _ _ current hrow hfirst fromPresets hpresets
      exact ⟨current, fromPresets, hrow, by simpa using hfirst, hpresets, rfl, rfl⟩

/-- The effect of a call that is answered. -/
theorem effect_of_alone (hd : Inv d) {q : Call} (h : q.code.alone d = (.ok a, d')) :
    hasPermission q.grants .settingsManage = true ∧ q.request.Effect d a d' := by
  refine Prog.wlp_of_alone (Φ := fun a d' => hasPermission q.grants .settingsManage = true ∧ q.request.Effect d a d')
    (E := fun _ => True) ?_ h
  rw [Call.code, Prog.wlp_bind, Prog.wlp_require]
  refine ⟨fun hmay => ?_, fun _ => trivial⟩
  exact Prog.wlp_mono (fun _ _ heffect => ⟨hmay, heffect⟩) (fun _ h => h) (effect_wlp hd q.request)

/-! ## What every request keeps -/

section Kept

variable {t : CodedTable Db Lock ρ κ} {row r : ρ}

theorem Creates.rows (h : Creates t row d d') : t.rows d' = t.rows d ++ [row] := by
  rw [h.2, CodedTable.rows_add]

omit [DecidableEq κ] in
theorem Updates.rows {values : ρ → ρ} {id : Uuid} {version : ℕ} (h : Updates t values id version r row d d') :
    t.rows d' = changeWhere (fun r => t.id r == id) (t.edited values) (t.rows d) := by
  rw [h.2.2.2.2, CodedTable.rows_bump]

theorem Creates.kept (h : Creates t row d d') (hd : t.WellKept d) (hversion : 1 ≤ t.version row) : t.WellKept d' :=
  h.2 ▸ CodedTable.wellKept_add hd h.1 hversion

omit [DecidableEq κ] in
theorem Updates.kept {values : ρ → ρ} {id : Uuid} {version : ℕ} (h : Updates t values id version r row d d')
    (he : t.Edits values) (hd : t.WellKept d) : t.WellKept d' :=
  h.2.2.2.2 ▸ (CodedTable.moves_bump (S := Set.univ) he (Set.mem_univ _) hd).2

end Kept

theorem inv_of_effect (hd : Inv d) {request : Request} (h : request.Effect d a d') : Inv d' := by
  cases request with
  | setModule value enabled =>
      obtain ⟨key, -, -, -, rfl⟩ := h
      split <;> exact { hd with }
  | createBranch env input =>
      have hkept := h.2.kept hd.branches (Nat.le_refl 1)
      obtain ⟨-, -, rfl⟩ := h
      exact { hd with branches := hkept }
  | updateBranch id input expectedVersion =>
      obtain ⟨r, row, -, -, h⟩ := h
      have hkept := h.kept (editBranch_edits input) hd.branches
      obtain ⟨-, -, -, -, rfl⟩ := h
      exact { hd with branches := hkept }
  | createDepartment env input =>
      have hkept := h.2.kept hd.departments (Nat.le_refl 1)
      obtain ⟨-, -, rfl⟩ := h
      exact { hd with departments := hkept }
  | updateDepartment id input expectedVersion =>
      obtain ⟨r, row, -, h⟩ := h
      have hkept := h.kept ⟨fun _ => rfl, fun _ => rfl⟩ hd.departments
      obtain ⟨-, -, -, -, rfl⟩ := h
      exact { hd with departments := hkept }
  | createDescriptor env input =>
      have hkept := h.2.kept hd.descriptors (Nat.le_refl 1)
      obtain ⟨-, -, rfl⟩ := h
      exact { hd with descriptors := hkept }
  | updateDescriptor id input expectedVersion =>
      obtain ⟨r, row, -, h⟩ := h
      have hkept := h.kept ⟨fun _ => rfl, fun _ => rfl⟩ hd.descriptors
      obtain ⟨-, -, -, -, rfl⟩ := h
      exact { hd with descriptors := hkept }
  | createField env input =>
      have hkept := h.2.kept hd.customFields (Nat.le_refl 1)
      obtain ⟨-, -, rfl⟩ := h
      exact { hd with customFields := hkept }
  | updateField id input expectedVersion =>
      obtain ⟨r, row, -, -, h⟩ := h
      have hkept := h.kept ⟨fun _ => rfl, fun _ => rfl⟩ hd.customFields
      obtain ⟨-, -, -, -, rfl⟩ := h
      exact { hd with customFields := hkept }
  | updateInstitution input expectedVersion =>
      obtain ⟨r, -, -, -, rfl⟩ := h
      exact { hd with }
  | completeSetup env input =>
      obtain ⟨current, fromPresets, hrow, -, -, -, rfl⟩ := h
      exact (setUp_kept (S := Set.univ) hd hrow (Set.mem_univ _) (fun _ _ => ⟨Set.mem_univ _, Set.mem_univ _⟩)
        (fun _ _ => ⟨Set.mem_univ _, Set.mem_univ _⟩) fun _ _ => ⟨Set.mem_univ _, Set.mem_univ _⟩).2

theorem inv_of_replay {done : List (Call × Reply)} (hd : Inv d) (h : Replay Call.code d done d') : Inv d' :=
  h.inv (fun _ _ _ _ hd halone => inv_of_effect hd (effect_of_alone hd halone).2) hd

/-- A request changes no row of a table but by an edit of that table. -/
theorem kept_of_effect {request : Request} (h : request.Effect d a d') :
    ((∀ id input v, request ≠ .updateBranch id input v) → ∀ r ∈ d.branches, r ∈ d'.branches) ∧
    ((∀ id input v, request ≠ .updateDepartment id input v) → ∀ r ∈ d.departments, r ∈ d'.departments) ∧
    ((∀ id input v, request ≠ .updateDescriptor id input v) → ∀ r ∈ d.descriptors, r ∈ d'.descriptors) ∧
    ((∀ id input v, request ≠ .updateField id input v) → ∀ r ∈ d.customFields, r ∈ d'.customFields) := by
  cases request with
  | setModule value enabled =>
      obtain ⟨key, -, -, -, rfl⟩ := h
      split <;> exact ⟨fun _ _ hr => hr, fun _ _ hr => hr, fun _ _ hr => hr, fun _ _ hr => hr⟩
  | createBranch env input =>
      obtain ⟨-, -, rfl⟩ := h
      exact ⟨fun _ _ hr => List.mem_append_left _ hr, fun _ _ hr => hr, fun _ _ hr => hr, fun _ _ hr => hr⟩
  | createDepartment env input =>
      obtain ⟨-, -, rfl⟩ := h
      exact ⟨fun _ _ hr => hr, fun _ _ hr => List.mem_append_left _ hr, fun _ _ hr => hr, fun _ _ hr => hr⟩
  | createDescriptor env input =>
      obtain ⟨-, -, rfl⟩ := h
      exact ⟨fun _ _ hr => hr, fun _ _ hr => hr, fun _ _ hr => List.mem_append_left _ hr, fun _ _ hr => hr⟩
  | createField env input =>
      obtain ⟨-, -, rfl⟩ := h
      exact ⟨fun _ _ hr => hr, fun _ _ hr => hr, fun _ _ hr => hr, fun _ _ hr => List.mem_append_left _ hr⟩
  | updateBranch id input v =>
      obtain ⟨r, row, -, -, -, -, -, -, rfl⟩ := h
      exact ⟨fun hne => (hne id input v rfl).elim, fun _ _ hr => hr, fun _ _ hr => hr, fun _ _ hr => hr⟩
  | updateDepartment id input v =>
      obtain ⟨r, row, -, -, -, -, -, rfl⟩ := h
      exact ⟨fun _ _ hr => hr, fun hne => (hne id input v rfl).elim, fun _ _ hr => hr, fun _ _ hr => hr⟩
  | updateDescriptor id input v =>
      obtain ⟨r, row, -, -, -, -, -, rfl⟩ := h
      exact ⟨fun _ _ hr => hr, fun _ _ hr => hr, fun hne => (hne id input v rfl).elim, fun _ _ hr => hr⟩
  | updateField id input v =>
      obtain ⟨r, row, -, -, -, -, -, -, rfl⟩ := h
      exact ⟨fun _ _ hr => hr, fun _ _ hr => hr, fun _ _ hr => hr, fun hne => (hne id input v rfl).elim⟩
  | updateInstitution input v =>
      obtain ⟨r, -, -, -, rfl⟩ := h
      exact ⟨fun _ _ hr => hr, fun _ _ hr => hr, fun _ _ hr => hr, fun _ _ hr => hr⟩
  | completeSetup env input =>
      obtain ⟨current, fromPresets, -, -, -, -, rfl⟩ := h
      rw [setUp, inserted_eq]
      exact ⟨fun _ _ hr => CodedTable.mem_addRows hr, fun _ _ hr => CodedTable.mem_addRows hr,
        fun _ _ hr => CodedTable.mem_addRows hr, fun _ _ hr => hr⟩

/-- What every effect keeps holds in every world. -/
theorem always {ι : Type} [DecidableEq ι] {start w : World ι Call Db Lock Error Reply} {I : Db → Prop}
    (hidle : start.Idle) (hstart : Inv start.db) (hI : I start.db)
    (hkeep : ∀ (request : Request) d a d', Inv d → I d → request.Effect d a d' → I d')
    (hw : Admitted Call.code Call.known start w) : Inv w.db ∧ I w.db := by
  refine Protocol.serial_inv (P := settings) (I := fun d => Inv d ∧ I d) code_whole hidle hstart
    (fun q _ _ hq => code_acts q hq) (fun _ _ _ h => h) ?_ ⟨hstart, hI⟩ hw
  intro q a d d' ⟨hd, hId⟩ halone
  have heffect := (effect_of_alone hd halone).2
  exact ⟨inv_of_effect hd heffect, hkeep _ _ _ _ hd hId heffect⟩

end Emis.Settings
