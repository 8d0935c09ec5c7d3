import Emis.Library.Script
import Emis.Settings.Services

/-!
# Settings among other administrators

Every request that is answered has done what it would have done alone at that moment.
For a branch this needs that the version named is one the branch has reached.
-/

namespace Emis.Settings

open Transactions Protocol

structure Inv (d : Db) : Prop where
  branches : branches.WellKept d
  departments : departments.WellKept d
  descriptors : descriptors.WellKept d
  customFields : customFields.WellKept d

/-- Who turns off a branch, or a module, or writes the institution, holds the lock for that. -/
structure Guar (S : Set Lock) (d d' : Db) : Prop where
  branches : branches.Moves S d d' := by exact CodedTable.moves_of_rows rfl
  departments : departments.Moves S d d' := by exact CodedTable.moves_of_rows rfl
  descriptors : descriptors.Moves S d d' := by exact CodedTable.moves_of_rows rfl
  customFields : customFields.Moves S d d' := by exact CodedTable.moves_of_rows rfl
  active : .activeBranches ∈ S ∨ ∀ b ∈ d.branches, b.isActive = true →
    ∃ b' ∈ d'.branches, b'.id = b.id ∧ b'.isActive = true := by exact .inr fun b hb h => ⟨b, hb, rfl, h⟩
  types : ∀ r ∈ d.customFields, ∃ r' ∈ d'.customFields, r'.id = r.id ∧ r'.fieldType = r.fieldType := by
    exact fun r hr => ⟨r, hr, rfl, rfl⟩
  modules : .modules ∈ S ∨ d'.modules = d.modules := by exact .inr rfl
  institution : .institution ∈ S ∨ d'.institution = d.institution := by exact .inr rfl
  institutionId : d'.institution.map InstitutionRow.id = d.institution.map InstitutionRow.id := by exact rfl

def settings : Protocol Db Lock where
  Inv := Inv
  Guar := Guar

/-- No version that the branch has yet to reach. -/
def Call.known (q : Call) (d : Db) : Prop :=
  match q.request with
  | .updateBranch id _ expectedVersion =>
      expectedVersion ≤ 1 ∨ ∃ b ∈ d.branches, b.id = id ∧ expectedVersion ≤ b.version
  | _ => True

section Tables

theorem branches_kept : branches.KeptBy settings := ⟨fun _ hd => hd.branches, fun _ _ _ h => h.branches⟩

theorem departments_kept : departments.KeptBy settings := ⟨fun _ hd => hd.departments, fun _ _ _ h => h.departments⟩

theorem descriptors_kept : descriptors.KeptBy settings := ⟨fun _ hd => hd.descriptors, fun _ _ _ h => h.descriptors⟩

theorem customFields_kept : customFields.KeptBy settings :=
  ⟨fun _ hd => hd.customFields, fun _ _ _ h => h.customFields⟩

end Tables

theorem Guar.refl (S : Set Lock) (d : Db) : Guar S d d := {}

section Rely

variable {S : Set Lock} {d d' : Db} (h : settings.Rely S d d')

include h

theorem rely_modules (hlock : .modules ∈ S) : d'.modules = d.modules := by
  refine h.same fun d₁ d₂ ⟨_, T, hdisj, hguar⟩ => ?_
  exact hguar.modules.resolve_left fun hheld => Set.disjoint_left.1 hdisj hlock hheld

theorem rely_institution (hlock : .institution ∈ S) : d'.institution = d.institution := by
  refine h.same fun d₁ d₂ ⟨_, T, hdisj, hguar⟩ => ?_
  exact hguar.institution.resolve_left fun hheld => Set.disjoint_left.1 hdisj hlock hheld

/-- Under the lock, the other active branch stays one. -/
theorem rely_otherActive (hlock : .activeBranches ∈ S) {id : Uuid}
    (hd : OrganizationService.otherActive d id = true) : OrganizationService.otherActive d' id = true := by
  refine h.stable (φ := fun d => OrganizationService.otherActive d id = true) ?_ hd
  rintro d₁ d₂ ⟨-, T, hdisj, hguar⟩ hother
  obtain ⟨b, hb, hboth⟩ := List.any_eq_true.1 hother
  obtain ⟨hactive, hid⟩ : b.isActive = true ∧ b.id ≠ id := by simpa using hboth
  have hkept := hguar.active.resolve_left fun hheld => Set.disjoint_left.1 hdisj hlock hheld
  obtain ⟨b', hb', hid', hactive'⟩ := hkept b hb hactive
  exact List.any_eq_true.2 ⟨b', hb', by simp [hactive', hid', hid]⟩

/-- A field keeps its type. -/
theorem rely_type (hd : Inv d) {r r' : CustomFieldRow} (hr : r ∈ d.customFields) (hr' : r' ∈ d'.customFields)
    (hid : r'.id = r.id) : r'.fieldType = r.fieldType := by
  obtain ⟨r₂, hr₂, hid₂, htype⟩ : ∃ r₂ ∈ d'.customFields, r₂.id = r.id ∧ r₂.fieldType = r.fieldType := by
    refine h.stable (φ := fun d => ∃ r₂ ∈ d.customFields, r₂.id = r.id ∧ r₂.fieldType = r.fieldType) ?_
      ⟨r, hr, rfl, rfl⟩
    rintro d₁ d₂ ⟨-, T, -, hguar⟩ ⟨r₁, hr₁, hid₁, htype₁⟩
    obtain ⟨r₂, hr₂, hid₂, htype₂⟩ := hguar.types r₁ hr₁
    exact ⟨r₂, hr₂, hid₂.trans hid₁, htype₂.trans htype₁⟩
  rw [eq_of_key_eq (h.inv hd).customFields.ids hr' hr₂ (hid.trans hid₂.symm), htype]

end Rely

/-! ## The requests -/

section Requests

variable {d : Db}

theorem createBranch_acts (env : Env) (input : CreateBranchRequest) :
    settings.Acts (OrganizationService.createBranch env input) d := by
  refine CodedTable.acts_create branches_kept fun S d hd hnew hfree => ?_
  refine ⟨{ Guar.refl S d with branches := CodedTable.moves_add hnew, active := .inr fun b hb hactive => ?_ }, { hd with branches := ?_ }⟩
  · exact ⟨b, List.mem_append_left _ hb, rfl, hactive⟩
  · exact CodedTable.wellKept_add hd.branches hfree (Nat.le_refl 1)

theorem createDepartment_acts (env : Env) (input : CreateDepartmentRequest) :
    settings.Acts (OrganizationService.createDepartment env input) d := by
  refine CodedTable.acts_create departments_kept fun S d hd hnew hfree => ?_
  refine ⟨{ Guar.refl S d with departments := CodedTable.moves_add hnew }, { hd with departments := ?_ }⟩
  exact CodedTable.wellKept_add hd.departments hfree (Nat.le_refl 1)

theorem createDescriptor_acts (env : Env) (input : CreateDescriptorRequest) :
    settings.Acts (DescriptorsService.create env input) d := by
  refine CodedTable.acts_create descriptors_kept fun S d hd hnew hfree => ?_
  refine ⟨{ Guar.refl S d with descriptors := CodedTable.moves_add hnew }, { hd with descriptors := ?_ }⟩
  exact CodedTable.wellKept_add hd.descriptors hfree (Nat.le_refl 1)

theorem createField_acts (env : Env) (input : CreateCustomFieldRequest) :
    settings.Acts (CustomFieldsService.create env input) d := by
  refine CodedTable.acts_create customFields_kept fun S d hd hnew hfree => ?_
  refine ⟨{ Guar.refl S d with customFields := CodedTable.moves_add hnew, types := fun r hr => ?_ }, { hd with customFields := ?_ }⟩
  · exact ⟨r, List.mem_append_left _ hr, rfl, rfl⟩
  · exact CodedTable.wellKept_add hd.customFields hfree (Nat.le_refl 1)

theorem editBranch_edits (input : UpdateBranchRequest) : branches.Edits (OrganizationService.editBranch input) :=
  ⟨fun _ => rfl, fun _ => rfl⟩

/-- The version named has been reached by the row that is read. -/
theorem reached_of_known {id : Uuid} {input : UpdateBranchRequest} {expectedVersion : ℕ} {grants : List Grant}
    {d₁ : Db} {before : BranchRow} (hd : (⟨.updateBranch id input expectedVersion, grants⟩ : Call).known d)
    (hr : settings.Rely ∅ d d₁) (hi : Inv d₁) (hbefore : before ∈ d₁.branches) (hid : before.id = id) :
    expectedVersion ≤ before.version := by
  rcases hd with hfirst | ⟨b, hb, hbid, hversion⟩
  · exact hfirst.trans (hi.branches.versions before hbefore)
  · obtain ⟨b', hb', hid', hlater⟩ := (CodedTable.advances_of_kept branches_kept).row hr hb
    obtain rfl : b' = before := eq_of_key_eq hi.branches.ids hb' hbefore (hid'.trans (hbid.trans hid.symm))
    rcases hlater with rfl | hlt
    · exact hversion
    · exact hversion.trans (Nat.le_of_lt hlt)

theorem updateBranch_acts {id : Uuid} {input : UpdateBranchRequest} {expectedVersion : ℕ} {grants : List Grant}
    (hd : (⟨.updateBranch id input expectedVersion, grants⟩ : Call).known d) :
    settings.Acts (OrganizationService.updateBranch id input expectedVersion) d := by
  refine CodedTable.acts_update id expectedVersion settingsErrors.branchNotFound
    (fun before => Prog.when (input.isActive == some false && before.isActive)
      (OrganizationService.assertAnotherActiveBranch id))
    (fun before S d₂ => input.isActive = some false → before.isActive = true →
      .activeBranches ∈ S ∧ OrganizationService.otherActive d₂ id = true)
    branches_kept (editBranch_edits input) (fun before d₁ _ hi₁ _ => ?_) ?_
  · rw [wp_when]
    refine ⟨fun _ => ?_, fun hquiet => ⟨rfl, .refl, fun hoff hactive => by simp [hoff, hactive] at hquiet⟩⟩
    simp only [OrganizationService.assertAnotherActiveBranch, wp_bind, wp_acquire, wp_get, wp_require]
    intro d₂ hr₂ _ d₃ hr₃ _
    refine ⟨fun hother => ⟨trivial, hr₂.trans (hr₃.anti (Set.empty_subset _)), fun _ _ => ?_⟩, fun _ => trivial⟩
    exact ⟨Set.mem_insert _ _, hother⟩
  · intro before r S S' d₁ d₂ d₃ hr₁ hi₁ hbefore hr hpass hS hr₂ hi₃ hlock hmem hrid hversion
    have hbid : before.id = id := by simpa [branches] using List.find?_some hbefore
    have hbmem : before ∈ d₁.branches := List.mem_of_find?_eq_some hbefore
    have hle := reached_of_known hd hr₁ hi₁ hbmem hbid
    have hat : branches.isAt d₃ before.id expectedVersion = true :=
      CodedTable.isAt_iff.2 ⟨r, hmem, hrid.trans hbid.symm, hversion⟩
    have hseen : before ∈ d₃.branches :=
      (CodedTable.advances_of_kept branches_kept).seen hr hi₃.branches.ids hbmem hle hat
    obtain rfl : r = before := eq_of_key_eq hi₃.branches.ids hmem hseen (hrid.trans hbid.symm)
    have hother : input.isActive = some false → r.isActive = true →
        .activeBranches ∈ S ∧ OrganizationService.otherActive d₃ id = true := fun hoff hactive =>
      ⟨(hpass hoff hactive).1, rely_otherActive hr₂ (hpass hoff hactive).1 (hpass hoff hactive).2⟩
    obtain ⟨hmoves, hkept⟩ := CodedTable.moves_bump (editBranch_edits input) hlock hi₃.branches
    refine ⟨?_, { Guar.refl S' d₃ with branches := hmoves, active := ?_ }, { hi₃ with branches := hkept }⟩
    · simp only [Prog.Performs, Prog.wlp_when, OrganizationService.assertAnotherActiveBranch, Prog.wlp_bind,
        Prog.wlp_acquire, Prog.wlp_get, Prog.wlp_require]
      refine ⟨fun hoff => ⟨fun _ => ⟨trivial, trivial⟩, fun hnone => ?_⟩, fun _ => ⟨trivial, trivial⟩⟩
      obtain ⟨hfalse, hactive⟩ : input.isActive = some false ∧ r.isActive = true := by simpa using hoff
      simp [(hother hfalse hactive).2] at hnone
    · by_cases hoff : input.isActive = some false ∧ r.isActive = true
      · exact .inl (hS (hother hoff.1 hoff.2).1)
      · refine .inr fun b hb hactive => ?_
        refine ⟨_, mem_changeWhere.2 ⟨b, hb, rfl⟩, ?_⟩
        split
        · rename_i hhit
          have hb_id : b.id = id := by simpa [branches] using hhit
          obtain rfl : b = r := eq_of_key_eq hi₃.branches.ids hb hmem (hb_id.trans hrid.symm)
          have hstays : input.isActive ≠ some false := fun hfalse => hoff ⟨hfalse, hactive⟩
          refine ⟨rfl, ?_⟩
          cases hset : input.isActive with
          | none => simpa [branches, OrganizationService.editBranch, hset] using hactive
          | some active => cases active <;> simp_all [branches, OrganizationService.editBranch]
        · exact ⟨rfl, hactive⟩

theorem updateDepartment_acts (id : Uuid) (input : UpdateDepartmentRequest) (expectedVersion : ℕ) :
    settings.Acts (OrganizationService.updateDepartment id input expectedVersion) d := by
  have he : departments.Edits (OrganizationService.editDepartment input) := ⟨fun _ => rfl, fun _ => rfl⟩
  refine CodedTable.acts_edit id expectedVersion settingsErrors.departmentNotFound departments_kept he
    fun S d hd hlock => ?_
  obtain ⟨hmoves, hkept⟩ := CodedTable.moves_bump he hlock hd.departments
  exact ⟨{ Guar.refl S d with departments := hmoves }, { hd with departments := hkept }⟩

theorem updateDescriptor_acts (id : Uuid) (input : UpdateDescriptorRequest) (expectedVersion : ℕ) :
    settings.Acts (DescriptorsService.update id input expectedVersion) d := by
  have he : descriptors.Edits (DescriptorsService.edit input) := ⟨fun _ => rfl, fun _ => rfl⟩
  refine CodedTable.acts_edit id expectedVersion settingsErrors.descriptorNotFound descriptors_kept he
    fun S d hd hlock => ?_
  obtain ⟨hmoves, hkept⟩ := CodedTable.moves_bump he hlock hd.descriptors
  exact ⟨{ Guar.refl S d with descriptors := hmoves }, { hd with descriptors := hkept }⟩

theorem updateField_acts (id : Uuid) (input : UpdateCustomFieldRequest) (expectedVersion : ℕ) :
    settings.Acts (CustomFieldsService.update id input expectedVersion) d := by
  have he : customFields.Edits (CustomFieldsService.edit input) := ⟨fun _ => rfl, fun _ => rfl⟩
  have hacts := CodedTable.acts_update (d := d) id expectedVersion settingsErrors.customFieldNotFound
    (fun before => CustomFieldsService.checkOptions input.options before.fieldType)
    (fun before _ _ => input.options.bind (CustomFieldsService.optionsProblem before.fieldType) = none)
    customFields_kept he
  refine hacts (fun before d₁ _ _ _ => ?_) ?_
  · unfold CustomFieldsService.checkOptions
    cases hproblem : input.options.bind (CustomFieldsService.optionsProblem before.fieldType) with
    | none => exact ⟨rfl, .refl, rfl⟩
    | some problem => trivial
  · intro before r S S' d₁ d₂ d₃ _ hi₁ hbefore hr hpass _ _ hi₃ hlock hmem hrid _
    have hbid : before.id = id := by simpa [customFields] using List.find?_some hbefore
    have htype : r.fieldType = before.fieldType :=
      rely_type hr hi₁ (List.mem_of_find?_eq_some hbefore) hmem (hrid.trans hbid.symm)
    obtain ⟨hmoves, hkept⟩ := CodedTable.moves_bump he hlock hi₃.customFields
    refine ⟨?_, { Guar.refl S' d₃ with customFields := hmoves, types := fun b hb => ?_ }, { hi₃ with customFields := hkept }⟩
    · rw [CustomFieldsService.checkOptions, htype, hpass]
      exact ⟨rfl, rfl⟩
    · refine ⟨_, mem_changeWhere.2 ⟨b, hb, rfl⟩, ?_⟩
      split <;> exact ⟨rfl, rfl⟩

/-- What the modules service reads of the store is the switches. -/
theorem modules_same {d' : Db} (h : d'.modules = d.modules) (key : ModuleKey) (enabled : Bool) :
    ModulesService.enabledIn d' = ModulesService.enabledIn d ∧
      ModulesService.allowed d' key enabled = ModulesService.allowed d key enabled ∧
      ModulesService.states d' = ModulesService.states d ∧
      ModulesService.states (ModulesService.switch key enabled d') =
        ModulesService.states (ModulesService.switch key enabled d) := by
  have henabled : ∀ {a b : Db}, a.modules = b.modules → ModulesService.enabledIn a = ModulesService.enabledIn b := by
    intro a b hab
    funext key
    rw [ModulesService.enabledIn, ModulesService.enabledIn, hab]
  have hswitch : (ModulesService.switch key enabled d').modules = (ModulesService.switch key enabled d).modules := by
    simp only [ModulesService.switch, h]
  refine ⟨henabled h, ?_, ?_, ?_⟩
  · simp only [ModulesService.allowed, ModulesService.missing, ModulesService.dependents, henabled h]
  · simp only [ModulesService.states, henabled h]
  · simp only [ModulesService.states, henabled hswitch]

theorem setModule_performs {value : String} {enabled : Bool} {key : ModuleKey} (hkey : moduleKey? value = some key)
    (hallowed : ModulesService.allowed d key enabled = true) {d' : Db}
    (hd' : d' = if ModulesService.enabledIn d key != enabled then ModulesService.switch key enabled d else d) :
    (ModulesService.set value enabled).Performs d (ModulesService.states d') d' := by
  subst hd'
  simp only [Prog.Performs, ModulesService.set, Prog.wlp_bind, Prog.wlp_expect, Prog.wlp_acquire, Prog.wlp_get,
    Prog.wlp_require, Prog.wlp_when, Prog.wlp_modify, Prog.wlp_pure, hkey, Option.some.injEq]
  refine ⟨fun a ha => ?_, fun hnone => by cases hnone⟩
  subst ha
  refine ⟨fun _ => ⟨fun hchanges => ?_, fun hsame => ?_⟩, fun hno => by simp [hallowed] at hno⟩
  · rw [if_pos hchanges]
    exact ⟨rfl, rfl⟩
  · rw [if_neg (by simp [hsame])]
    exact ⟨rfl, rfl⟩

theorem setModule_acts (value : String) (enabled : Bool) : settings.Acts (ModulesService.set value enabled) d := by
  simp only [Acts, ModulesService.set, wp_bind, wp_expect, wp_acquire, wp_get, wp_require, wp_when, wp_modify,
    wp_pure, id_eq, Function.comp_id]
  refine ⟨fun key hkey d₁ _ _ d₂ _ _ => ⟨fun hallowed => ⟨fun hchanges d₃ hr₃ _ d₄ hr₄ _ d' hr hi => ?_,
    fun hsame d₃ hr₃ _ d' hr hi => ?_⟩, fun _ => trivial⟩, fun _ => trivial⟩
  · have hlock : Lock.modules ∈ insert (Lock.moduleSwitch key) (insert Lock.modules ∅) :=
      Set.mem_insert_of_mem _ (Set.mem_insert _ _)
    have hlast : d'.modules = d₄.modules := rely_modules hr hlock
    have hmodules : d'.modules = d₂.modules :=
      hlast.trans ((rely_modules hr₄ hlock).trans (rely_modules hr₃ (Set.mem_insert _ _)))
    obtain ⟨henabled, hallowed', -, -⟩ := modules_same hmodules key enabled
    refine ⟨{ Guar.refl _ d' with modules := .inl hlock }, { hi with }, ?_⟩
    have hreply := (modules_same hlast key enabled).2.2.2
    have hperforms := setModule_performs (d := d') hkey (hallowed'.trans hallowed) rfl
    rw [henabled, if_pos hchanges] at hperforms
    exact hreply ▸ hperforms
  · have hlock : Lock.modules ∈ insert Lock.modules (∅ : Set Lock) := Set.mem_insert _ _
    have hlast : d'.modules = d₃.modules := rely_modules hr hlock
    have hmodules : d'.modules = d₂.modules := hlast.trans (rely_modules hr₃ hlock)
    obtain ⟨henabled, hallowed', -, -⟩ := modules_same hmodules key enabled
    refine ⟨.refl _ _, hi, ?_⟩
    have hreply := (modules_same hlast key enabled).2.2.1
    have hperforms := setModule_performs (d := d') hkey (hallowed'.trans hallowed) rfl
    rw [henabled, if_neg (by simpa using hsame)] at hperforms
    exact hreply ▸ hperforms

/-- The edit of the institution that an update makes. -/
def editedInstitution (input : UpdateInstitutionRequest) (r : InstitutionRow) : InstitutionRow :=
  { InstitutionService.edit input r with version := r.version + 1 }

section Institution

variable {r : InstitutionRow} {input : UpdateInstitutionRequest}

theorem bump_institution (h : d.institution = some r) :
    institutionTable.bump r.id (InstitutionService.edit input) d =
      { d with institution := some (editedInstitution input r) } := by
  simp [VersionedTable.bump, VersionedTable.updateRow, institutionTable, changeWhere, h, editedInstitution]

theorem row_institution (h : d.institution = some r) (id : Uuid) :
    institutionTable.row? d id = if r.id = id then some r else none := by
  by_cases hid : r.id = id <;> simp [VersionedTable.row?, institutionTable, h, hid]

theorem isAt_institution {id : Uuid} {version : ℕ} :
    institutionTable.isAt d id version = true ↔ ∃ r, d.institution = some r ∧ r.id = id ∧ r.version = version := by
  cases h : d.institution <;> simp [VersionedTable.isAt, institutionTable, h]

theorem updateInstitution_performs (h : d.institution = some r) :
    (InstitutionService.update input r.version).Performs d (toInstitution (editedInstitution input r))
      { d with institution := some (editedInstitution input r) } := by
  simp only [Prog.Performs, InstitutionService.update, InstitutionService.row, Prog.wlp_bind, Prog.wlp_get,
    Prog.wlp_expect, h, Option.some.injEq, forall_eq', Prog.wlp_map]
  refine ⟨?_, fun hnone => by cases hnone⟩
  refine wlp_versioned_exact institutionTable (fun _ => ⟨editedInstitution input r, ?_, rfl, ?_⟩) fun hmiss => ?_
  · rw [bump_institution h, row_institution rfl]
    exact if_pos rfl
  · exact bump_institution h
  · have hat : institutionTable.isAt d r.id r.version = true := isAt_institution.2 ⟨r, h, rfl, rfl⟩
    rw [hat] at hmiss
    cases hmiss

end Institution

theorem updateInstitution_acts (input : UpdateInstitutionRequest) (expectedVersion : ℕ) :
    settings.Acts (InstitutionService.update input expectedVersion) d := by
  simp only [Acts, InstitutionService.update, InstitutionService.row, wp_bind, wp_get, wp_expect, wp_map]
  refine fun d₁ _ _ => ⟨fun before hbefore => ?_, fun _ => trivial⟩
  refine wp_versioned institutionTable fun d₂ d₃ row hr₂ _ hat hr₃ _ hrow d' hr hi => ?_
  have hlock : Lock.institution ∈ insert Lock.institution (∅ : Set Lock) := Set.mem_insert _ _
  obtain ⟨r, hr₂', hid, rfl⟩ := isAt_institution.1 hat
  have h₃ : d₃.institution = some r := (rely_institution hr₃ hlock).trans hr₂'
  have hlast : d'.institution = some r := (rely_institution hr hlock).trans h₃
  have hrow' : row = editedInstitution input r := by
    have hfound : institutionTable.row? (institutionTable.bump r.id (InstitutionService.edit input) d₃) r.id = some row :=
      hid ▸ hrow
    rw [bump_institution h₃, row_institution rfl] at hfound
    exact (Option.some.inj ((if_pos rfl).symm.trans hfound)).symm
  have hbump : institutionTable.bump before.id (InstitutionService.edit input) d' =
      { d' with institution := some (editedInstitution input r) } := hid ▸ bump_institution hlast
  subst hrow'
  simp only [Function.comp_id, hbump]
  refine ⟨{ Guar.refl _ d' with institution := .inl hlock, institutionId := ?_ }, { hi with }, updateInstitution_performs hlast⟩
  simp [hlast, editedInstitution, InstitutionService.edit]

section Setup

variable {env : Env} {input : CompleteSetupRequest} {fromPresets : List (List CreateDepartmentRequest)}
  {current : InstitutionRow}

/-- What the three statements of setup insert. -/
def inserted (env : Env) (input : CompleteSetupRequest) (fromPresets : List (List CreateDepartmentRequest)) (d : Db) : Db :=
  (SetupService.descriptorRows env input).foldl descriptors.addNew
    ((SetupService.departmentRows env input fromPresets).foldl departments.addNew
      ((SetupService.branchRows env input).foldl branches.addNew d))

/-- What setup leaves. -/
def setUp (env : Env) (input : CompleteSetupRequest) (fromPresets : List (List CreateDepartmentRequest))
    (current : InstitutionRow) (d : Db) : Db :=
  { inserted env input fromPresets d with
    institution := some (SetupService.completedRow env.now input.institution current) }

theorem inserted_eq (d : Db) : inserted env input fromPresets d =
    { d with
      branches := (SetupService.branchRows env input).foldl branches.addRow d.branches
      departments := (SetupService.departmentRows env input fromPresets).foldl departments.addRow d.departments
      descriptors := (SetupService.descriptorRows env input).foldl descriptors.addRow d.descriptors } := by
  rw [inserted, CodedTable.addAll_eq, CodedTable.addAll_eq, CodedTable.addAll_eq]
  rfl

theorem complete_performs (hrow : d.institution = some current) (hfirst : current.setupCompletedAt = none)
    (hpresets : input.presets.mapM SetupService.presetDepartments = .ok fromPresets) :
    (SetupService.complete env input).Performs d
      (toInstitution (SetupService.completedRow env.now input.institution current))
      (setUp env input fromPresets current d) := by
  simp only [Prog.Performs, SetupService.complete, InstitutionService.lockedRow, InstitutionService.row,
    Prog.wlp_bind, Prog.wlp_get, Prog.wlp_expect, Prog.wlp_acquire, Prog.wlp_require, Prog.wlp_ofExcept,
    CodedTable.wlp_insertAll, Prog.wlp_modify, Prog.wlp_pure, hrow, hpresets]
  simp [setUp, inserted, hfirst]

/-- Setup inserts, under the locks of all entries, what it would insert at its end. -/
theorem wp_complete {K : Institution → Set Lock → (Db → Db) → Db → Prop}
    (hK : ∀ fromPresets current S f d', current.setupCompletedAt = none →
      input.presets.mapM SetupService.presetDepartments = .ok fromPresets → .institution ∈ S →
      d'.institution = some current → (∀ row ∈ SetupService.branchRows env input, branches.NewRow S row) →
      (∀ row ∈ SetupService.departmentRows env input fromPresets, departments.NewRow S row) →
      (∀ row ∈ SetupService.descriptorRows env input, descriptors.NewRow S row) →
      (∀ d'', settings.Rely S d' d'' → f d'' = inserted env input fromPresets d'') →
      K (toInstitution (SetupService.completedRow env.now input.institution current)) S
        ((fun d => { d with institution := some (SetupService.completedRow env.now input.institution current) }) ∘ f) d') :
    settings.wp K Anyway (SetupService.complete env input) ∅ id d := by
  simp only [SetupService.complete, InstitutionService.lockedRow, InstitutionService.row, wp_bind, wp_get,
    wp_expect, wp_acquire, wp_require, wp_ofExcept, id_eq]
  refine fun d₁ _ _ => ⟨fun _ _ d₂ hr₂ _ d₃ hr₃ hi₃ => ⟨fun current hrow => ⟨fun hfirst =>
    ⟨fun fromPresets hpresets => ?_, fun _ _ => trivial⟩, fun _ => trivial⟩, fun _ => trivial⟩, fun _ => trivial⟩
  refine CodedTable.wp_insertAll branches_kept id [] _ (fun _ => rfl) (by simp) (fun _ _ => rfl) hi₃
    fun S₁ f₁ d₄ hS₁ hnew₁ hr₄ hi₄ hf₁ => ?_
  refine CodedTable.wp_insertAll departments_kept
    (fun d => (SetupService.branchRows env input).foldl branches.addNew d) [] _
    (fun d => by rw [CodedTable.addAll_eq]; rfl) (by simp) (fun d' hr => hf₁ d' hr) hi₄
    fun S₂ f₂ d₅ hS₂ hnew₂ hr₅ hi₅ hf₂ => ?_
  refine CodedTable.wp_insertAll descriptors_kept
    (fun d => (SetupService.departmentRows env input fromPresets).foldl departments.addNew
      ((SetupService.branchRows env input).foldl branches.addNew d)) [] _
    (fun d => by rw [CodedTable.addAll_eq, CodedTable.addAll_eq]; rfl) (by simp) (fun d' hr => hf₂ d' hr) hi₅
    fun S₃ f₃ d₆ hS₃ hnew₃ hr₆ _ hf₃ => ?_
  have hlock : Lock.institution ∈ insert Lock.institution (∅ : Set Lock) := Set.mem_insert _ _
  have hr := hr₄.trans ((hr₅.anti hS₁).trans (hr₆.anti (hS₁.trans hS₂)))
  have hsub : S₁ ⊆ S₃ := hS₂.trans hS₃
  refine hK fromPresets current S₃ f₃ d₆ (by simpa using hfirst) hpresets (hsub (hS₁ hlock))
    ((rely_institution hr hlock).trans hrow) (fun row h => ?_) (fun row h => ?_) hnew₃ hf₃
  · exact ⟨hsub (hnew₁ row h).id, hsub (hnew₁ row h).code⟩
  · exact ⟨hS₃ (hnew₂ row h).id, hS₃ (hnew₂ row h).code⟩

theorem numbered_version {α β : Type} (version : β → ℕ) {offset : ℕ} {row : Uuid → α → β} {values : List α}
    (h : ∀ id value, version (row id value) = 1) : ∀ r ∈ SetupService.numbered env offset row values, 1 ≤ version r := by
  intro r hr
  obtain ⟨i, _, rfl⟩ := List.mem_mapIdx.1 hr
  exact (h _ _).ge

theorem setUp_kept {S : Set Lock} (hd : Inv d) (hrow : d.institution = some current) (hlock : .institution ∈ S)
    (hbranches : ∀ row ∈ SetupService.branchRows env input, branches.NewRow S row)
    (hdepartments : ∀ row ∈ SetupService.departmentRows env input fromPresets, departments.NewRow S row)
    (hdescriptors : ∀ row ∈ SetupService.descriptorRows env input, descriptors.NewRow S row) :
    Guar S d (setUp env input fromPresets current d) ∧ Inv (setUp env input fromPresets current d) := by
  obtain ⟨hmoves₁, hkept₁⟩ := CodedTable.evolves_addRows (t := branches)
    (fun row h => ⟨hbranches row h, numbered_version BranchRow.version (fun _ _ => rfl) row h⟩) hd.branches
  obtain ⟨hmoves₂, hkept₂⟩ := CodedTable.evolves_addRows (t := departments)
    (fun row h => ⟨hdepartments row h, numbered_version DepartmentRow.version (fun _ _ => rfl) row h⟩) hd.departments
  obtain ⟨hmoves₃, hkept₃⟩ := CodedTable.evolves_addRows (t := descriptors)
    (fun row h => ⟨hdescriptors row h, numbered_version DescriptorRow.version (fun _ _ => rfl) row h⟩) hd.descriptors
  rw [setUp, inserted_eq]
  refine ⟨?_, ⟨hkept₁, hkept₂, hkept₃, hd.customFields⟩⟩
  exact { Guar.refl S d with
    branches := hmoves₁
    departments := hmoves₂
    descriptors := hmoves₃
    active := .inr fun b hb hactive => ⟨b, CodedTable.mem_addRows hb, rfl, hactive⟩
    institution := .inl hlock
    institutionId := by simp [hrow, SetupService.completedRow] }

theorem complete_acts (env : Env) (input : CompleteSetupRequest) : settings.Acts (SetupService.complete env input) d := by
  refine wp_complete fun fromPresets current S f d₁ hfirst hpresets hlock hrow hnew₁ hnew₂ hnew₃ hf d' hr hi => ?_
  have hrow' : d'.institution = some current := (rely_institution hr hlock).trans hrow
  simp only [Function.comp_apply, hf d' hr]
  obtain ⟨hguar, hinv⟩ := setUp_kept hi hrow' hlock hnew₁ hnew₂ hnew₃
  exact ⟨hguar, hinv, complete_performs hrow' hfirst hpresets⟩

end Setup

theorem code_acts (q : Call) (hq : q.known d) : settings.Acts q.code d := by
  obtain ⟨request, grants⟩ := q
  refine Acts.require ?_
  cases request with
  | setModule key enabled => exact .map _ (setModule_acts key enabled)
  | createBranch env input => exact .map _ (createBranch_acts env input)
  | updateBranch id input expectedVersion => exact .map _ (updateBranch_acts hq)
  | createDepartment env input => exact .map _ (createDepartment_acts env input)
  | updateDepartment id input expectedVersion => exact .map _ (updateDepartment_acts id input expectedVersion)
  | createDescriptor env input => exact .map _ (createDescriptor_acts env input)
  | updateDescriptor id input expectedVersion => exact .map _ (updateDescriptor_acts id input expectedVersion)
  | createField env input => exact .map _ (createField_acts env input)
  | updateField id input expectedVersion => exact .map _ (updateField_acts id input expectedVersion)
  | updateInstitution input expectedVersion => exact .map _ (updateInstitution_acts input expectedVersion)
  | completeSetup env input => exact .map _ (complete_acts env input)

end Requests

/-! ## Runs -/

section Keeps

variable {τ : Type} {φ : Db → τ} {ρ κ : Type} [DecidableEq κ]

theorem insert_keeps (t : CodedTable Db Lock ρ κ) (hput : ∀ rows d, φ (t.put rows d) = φ d) (row : ρ) (e : Error) :
    (t.insert row e).Keeps φ :=
  .bind (.bind (.acquire _) fun _ => .bind (.acquire _) fun _ => .bind .get fun _ => .pure _) fun _ =>
    .bind (.require _ _) fun _ => .modify fun _ => hput _ _

theorem insertNew_keeps (t : CodedTable Db Lock ρ κ) (hput : ∀ rows d, φ (t.put rows d) = φ d) (row : ρ) :
    (t.insertNew row : Tx Unit).Keeps φ :=
  .bind (.bind (.acquire _) fun _ => .bind (.acquire _) fun _ => .bind .get fun _ => .pure _) fun _ =>
    .when _ (.modify fun _ => hput _ _)

/-- A request keeps what no table but the switches, and no switch it turns, changes. -/
theorem service_keeps (hbranches : ∀ rows d, φ (branches.put rows d) = φ d)
    (hdepartments : ∀ rows d, φ (departments.put rows d) = φ d)
    (hdescriptors : ∀ rows d, φ (descriptors.put rows d) = φ d)
    (hfields : ∀ rows d, φ (customFields.put rows d) = φ d)
    (hinstitution : ∀ rows d, φ (institutionTable.put rows d) = φ d) (request : Request)
    (hswitch : ∀ value enabled, request = .setModule value enabled →
      ∀ key d, φ (ModulesService.switch key enabled d) = φ d) :
    request.service.Keeps φ := by
  cases request with
  | setModule value enabled =>
      exact .map _ <| .bind (.expect _ _) fun _ => .bind (.acquire _) fun _ => .bind .get fun _ =>
        .bind (.require _ _) fun _ => .bind (.when _ <| .bind (.acquire _) fun _ =>
          .modify fun _ => hswitch value enabled rfl _ _) fun _ => .bind .get fun _ => .pure _
  | createBranch => exact .map _ <| .bind (insert_keeps _ hbranches _ _) fun _ => .pure _
  | createDepartment => exact .map _ <| .bind (insert_keeps _ hdepartments _ _) fun _ => .pure _
  | createDescriptor => exact .map _ <| .bind (insert_keeps _ hdescriptors _ _) fun _ => .pure _
  | createField => exact .map _ <| .bind (insert_keeps _ hfields _ _) fun _ => .pure _
  | updateBranch =>
      exact .map _ <| .bind (.bind .get fun _ => .expect _ _) fun _ =>
        .bind (.when _ <| .bind (.acquire _) fun _ => .bind .get fun _ => .require _ _) fun _ =>
          keeps_versioned _ fun _ => hbranches _ _
  | updateDepartment =>
      exact .map _ <| .bind .get fun _ => .bind (.expect _ _) fun _ => keeps_versioned _ fun _ => hdepartments _ _
  | updateDescriptor =>
      exact .map _ <| .bind .get fun _ => .bind (.expect _ _) fun _ => keeps_versioned _ fun _ => hdescriptors _ _
  | updateField id input =>
      refine .map _ <| .bind .get fun _ => .bind (.expect _ _) fun _ => .bind ?_ fun _ =>
        keeps_versioned _ fun _ => hfields _ _
      unfold CustomFieldsService.checkOptions
      split
      · exact .throw _
      · exact .pure _
  | updateInstitution =>
      refine .map _ <| .bind (.bind .get fun _ => .expect _ _) fun before => ?_
      rw [← map_bind]
      exact .map _ (keeps_versioned _ fun _ => hinstitution _ _)
  | completeSetup =>
      have hrow : InstitutionService.row.Keeps φ := .bind .get fun _ => .expect _ _
      exact .map _ <| .bind (.bind hrow fun _ => .bind (.acquire _) fun _ => hrow) fun _ => .bind (.require _ _) fun _ =>
        .bind (.ofExcept _) fun _ => .bind (.forM _ (insertNew_keeps _ hbranches)) fun _ =>
          .bind (.forM _ (insertNew_keeps _ hdepartments)) fun _ =>
            .bind (.forM _ (insertNew_keeps _ hdescriptors)) fun _ =>
              .bind (.modify fun d => hinstitution [_] d) fun _ => .pure _

end Keeps

theorem code_whole (q : Call) : q.code.Whole (id : Db → Db) :=
  (Prog.Keeps.bind (φ := fun _ : Db => ()) (.require _ _) fun _ =>
    service_keeps (fun _ _ => rfl) (fun _ _ => rfl) (fun _ _ => rfl) (fun _ _ => rfl) (fun _ _ => rfl) q.request
      fun _ _ _ _ _ => rfl).whole

variable {ι : Type} [DecidableEq ι] {start w : World ι Call Db Lock Error Reply}

/-- Where no request names a version that a branch has yet to reach, a run leaves what
its answered requests leave, performed alone in the order of their answers, and each of
them is answered as it would be alone. -/
theorem settings_serial {labels : List (Label ι Call Error Reply)} (hidle : start.Idle) (hstart : Inv start.db)
    (hrun : Served Call.code Call.known start labels w) :
    Replay Call.code start.db (performed labels) w.db ∧
      ∀ lab w', Step Call.code w lab w' →
        (∀ i q a, lab = .answers i q (.ok a) → q.code.alone w.db = (.ok a, w'.db)) ∧
          (lab.performed? = none → w'.db = w.db) :=
  ⟨serial_run code_whole hidle hstart (fun q _ _ hq => code_acts q hq) (fun _ _ _ h => h) hrun,
    fun _ _ hstep => serial_step code_whole hidle hstart (fun q _ _ hq => code_acts q hq) (fun _ _ _ h => h)
      hrun.admitted hstep⟩

/-! ## Two departments of one code -/

def addDepartment (id : Uuid) (name : String) : Call :=
  ⟨.createDepartment { newId := fun _ => id } { code := ⟨['M', 'A', 'T', 'H'], by decide, by decide⟩, name := name },
    administrator⟩

/-- Both administrators have an id of their own before either has the code. -/
def additions : List (Move Call) :=
  [.begins true (addDepartment 1 "Mathematics"), .begins false (addDepartment 2 "Maths"), .turns true 1,
    .turns false 6, .turns true 6]

def added : Duo Call Db Lock Error Reply := (Duo.idle {}).play Call.code additions

theorem inv_empty : Inv {} :=
  ⟨branches.rowsKept_nil, departments.rowsKept_nil, descriptors.rowsKept_nil, customFields.rowsKept_nil⟩

/-- One of them is answered. -/
theorem settings_serial_added : ∃ labels, Served Call.code Call.known
    (Duo.idle {} : Duo Call Db Lock Error Reply).world labels added.world ∧
      Replay Call.code {} (performed labels) added.world.db ∧
      added.world.db.departments.map DepartmentRow.name = ["Maths"] := by
  have hreach : Admitted Call.code Call.known (Duo.idle {} : Duo Call Db Lock Error Reply).world added.world := by
    refine Duo.play_admitted Call.code Call.known _ additions fun i q hq d => ?_
    simp only [additions, List.mem_cons, Move.begins.injEq, reduceCtorEq, List.not_mem_nil, or_false] at hq
    rcases hq with ⟨-, rfl⟩ | ⟨-, rfl⟩ <;> trivial
  obtain ⟨labels, hrun⟩ := hreach.served
  exact ⟨labels, hrun, (settings_serial (fun _ => rfl) inv_empty hrun).1, by rfl⟩

end Emis.Settings
