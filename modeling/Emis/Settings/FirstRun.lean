import Emis.Settings.Effects

/-!
# The first run

Setup completes once, whoever runs it, and it takes nothing back that an administrator
added before.
-/

namespace Emis.Settings

open Transactions Protocol
open Emis.Numbering (OrgCode)

def Db.completed (d : Db) : Bool := d.institution.any fun r => r.setupCompletedAt.isSome

def Request.setsUp : Request → Bool
  | .completeSetup _ _ => true
  | _ => false

/-- The ids of a statement are new, and all different. -/
structure Env.Fresh (env : Env) (d : Db) : Prop where
  injective : ∀ m n, env.newId m = env.newId n → m = n
  branches : ∀ n, ∀ r ∈ d.branches, r.id ≠ env.newId n
  departments : ∀ n, ∀ r ∈ d.departments, r.id ≠ env.newId n
  descriptors : ∀ n, ∀ r ∈ d.descriptors, r.id ≠ env.newId n

/-- The row of a code. -/
def byCode? {ρ κ : Type} [DecidableEq κ] (t : CodedTable Db Lock ρ κ) (d : Db) (code : κ) : Option ρ :=
  (t.rows d).find? fun r => t.code r == code

/-- What setup makes of the store: a code that is there keeps its row, a branch or a
list value is the first that is asked for, and a department the last. -/
structure SeededFrom (env : Env) (input : CompleteSetupRequest) (fromPresets : List (List CreateDepartmentRequest))
    (d d' : Db) : Prop where
  institution : ∃ r, d.institution = some r ∧
    d'.institution = some (SetupService.completedRow env.now input.institution r)
  modules : d'.modules = d.modules
  customFields : d'.customFields = d.customFields
  branches : env.Fresh d → ∀ code,
    (byCode? branches d' code).map (fun r => (r.name, r.address, r.phone, r.isActive)) =
      ((byCode? branches d code).map fun r => (r.name, r.address, r.phone, r.isActive)).or
        ((input.branches.find? fun b => b.code == code).map fun b => (b.name, b.address, b.phone, true))
  departments : env.Fresh d → ∀ code,
    (byCode? departments d' code).map (fun r => (r.name, r.description, r.isActive)) =
      ((byCode? departments d code).map fun r => (r.name, r.description, r.isActive)).or
        (((fromPresets.flatten ++ input.departments).reverse.find? fun r => r.code == code).map fun r =>
          (r.name, r.description, true))
  descriptors : env.Fresh d → ∀ code,
    (byCode? descriptors d' code).map (fun r => (r.label, r.isActive)) =
      ((byCode? descriptors d code).map fun r => (r.label, r.isActive)).or
        (((if input.seedDefaultLists then SetupService.listValues else []).find? fun v => decide ((v.ns, v.code) = code)).map
          fun v => (v.label, true))

section Seeds

variable {env : Env} {d : Db} {α β γ κ : Type} [DecidableEq κ]

omit [DecidableEq κ] in
theorem find?_mapIdx {f : ℕ → α → β} {p : β → Bool} {q : α → Bool} {g : β → γ} {g' : α → γ}
    (hp : ∀ i a, p (f i a) = q a) (hg : ∀ i a, g (f i a) = g' a) (values : List α) :
    ((values.mapIdx f).find? p).map g = (values.find? q).map g' := by
  induction values generalizing f with
  | nil => rfl
  | cons a values ih =>
      rw [List.mapIdx_cons, List.find?_cons, List.find?_cons, hp]
      split
      · simp [hg]
      · exact ih (fun i a => hp (i + 1) a) fun i a => hg (i + 1) a

theorem id_numbered {row : Uuid → α → β} {id : β → Uuid} (hid : ∀ u a, id (row u a) = u) {offset : ℕ} {values : List α} :
    ∀ r ∈ SetupService.numbered env offset row values, ∃ n, id r = env.newId (offset + n) := by
  intro r hr
  obtain ⟨i, _, rfl⟩ := List.mem_mapIdx.1 hr
  exact ⟨i, hid _ _⟩

theorem ids_numbered {row : Uuid → α → β} {id : β → Uuid} (hid : ∀ u a, id (row u a) = u)
    (hinjective : ∀ m n, env.newId m = env.newId n → m = n) (offset : ℕ) (values : List α) :
    ((SetupService.numbered env offset row values).map id).Nodup := by
  induction values generalizing offset with
  | nil => exact .nil
  | cons a values ih =>
      have hcons : SetupService.numbered env offset row (a :: values) =
          row (env.newId offset) a :: SetupService.numbered env (offset + 1) row values := by
        simp only [SetupService.numbered, List.mapIdx_cons, Nat.add_zero]
        congr 1
        exact List.mapIdx_eq_mapIdx_iff.2 fun i _ => by rw [Nat.add_assoc, Nat.add_comm 1 i]
      rw [hcons, List.map_cons, hid]
      refine List.nodup_cons.2 ⟨fun hmem => ?_, ih (offset + 1)⟩
      obtain ⟨r, hr, hsame⟩ := List.mem_map.1 hmem
      obtain ⟨n, hn⟩ := id_numbered hid r hr
      have hoffset := hinjective _ _ (hn.symm.trans hsame)
      omega

/-- What a statement of setup leaves of the rows of a code. -/
theorem seeded (t : CodedTable Db Lock β κ) (row : Uuid → α → β) (codeOf : α → κ) (g : β → γ) (g' : α → γ)
    (hid : ∀ u a, t.id (row u a) = u) (hcode : ∀ u a, t.code (row u a) = codeOf a)
    (hg : ∀ u a, g (row u a) = g' a) (hinjective : ∀ m n, env.newId m = env.newId n → m = n) {old : List β}
    (hnew : ∀ n, ∀ r ∈ old, t.id r ≠ env.newId n) (offset : ℕ) (values : List α) (code : κ) :
    (((SetupService.numbered env offset row values).foldl t.addRow old).find? fun r => t.code r == code).map g =
      ((old.find? fun r => t.code r == code).map g).or ((values.find? fun a => codeOf a == code).map g') := by
  rw [CodedTable.find?_addRows (ids_numbered hid hinjective offset values), List.find?_append, Option.map_or,
    SetupService.numbered, find?_mapIdx (fun i a => by rw [hcode]) fun i a => hg _ a]
  intro r hr s hs
  obtain ⟨n, hn⟩ := id_numbered hid r hr
  exact hn ▸ hnew _ s hs

omit [DecidableEq κ] in
/-- The same from the end on. -/
theorem findLast?_mapIdx {f : ℕ → α → β} {p : β → Bool} (q : α → Bool) {g : β → γ} (g' : α → γ)
    (hp : ∀ i a, p (f i a) = q a) (hg : ∀ i a, g (f i a) = g' a) (values : List α) :
    ((values.mapIdx f).reverse.find? p).map g = (values.reverse.find? q).map g' := by
  induction values generalizing f with
  | nil => rfl
  | cons a values ih =>
      rw [List.mapIdx_cons, List.reverse_cons, List.reverse_cons, List.find?_append, List.find?_append, Option.map_or,
        Option.map_or, ih (fun i a => hp (i + 1) a) fun i a => hg (i + 1) a]
      cases hq : q a <;> simp [hp, hq, hg]

theorem find?_setByCode (entries : List CreateDepartmentRequest) (e : CreateDepartmentRequest) (code : OrgCode) :
    (SetupService.setByCode entries e).find? (fun r => r.code == code) =
      if e.code = code then some e else entries.find? fun r => r.code == code := by
  have hreplaced : ∀ entries : List CreateDepartmentRequest,
      (changeWhere (fun r => r.code == e.code) (fun _ => e) entries).find? (fun r => r.code == code) =
        if e.code = code then (entries.find? fun r => r.code == code).map fun _ => e
        else entries.find? fun r => r.code == code := by
    intro entries
    induction entries with
    | nil => simp [changeWhere]
    | cons r entries ih =>
        rw [changeWhere, List.map_cons, List.find?_cons, ← changeWhere, ih, List.find?_cons]
        by_cases hsame : r.code = e.code <;> by_cases hcode : e.code = code
        · simp [hsame, hcode]
        · have hother : (e.code == code) = false := by simpa using hcode
          simp [hsame, hcode, hother]
        · have hother : (r.code == code) = false := by simpa using fun h : r.code = code => hsame (h.trans hcode.symm)
          simp [hcode, hother]
        · simp [hsame, hcode]
  rw [SetupService.setByCode]
  split
  · rename_i hthere
    rw [hreplaced]
    split
    · rename_i hcode
      obtain ⟨r, hr, hrcode⟩ := List.any_eq_true.1 hthere
      cases hfound : entries.find? fun r => r.code == code with
      | none => exact absurd (hcode ▸ hrcode) (List.find?_eq_none.1 hfound r hr)
      | some s => rfl
    · rfl
  · rename_i habsent
    rw [List.find?_append]
    split
    · rename_i hcode
      have hnone : entries.find? (fun r => r.code == code) = none := by
        refine List.find?_eq_none.2 fun r hr hrcode => habsent ?_
        exact List.any_eq_true.2 ⟨r, hr, hcode ▸ hrcode⟩
      simp [hnone, hcode]
    · rename_i hother
      simp [hother]

/-- Of the departments with one code the last is created. -/
theorem find?_departmentsByCode (all : List CreateDepartmentRequest) (code : OrgCode) :
    ((SetupService.departmentsByCode all).find? fun r => r.code == code).map (fun r => (r.name, r.description, true)) =
      (all.reverse.find? fun r => r.code == code).map fun r => (r.name, r.description, true) := by
  have hfold : ∀ (all entries : List CreateDepartmentRequest),
      (all.foldl SetupService.setByCode entries).find? (fun r => r.code == code) =
        (all.reverse.find? fun r => r.code == code).or (entries.find? fun r => r.code == code) := by
    intro all
    induction all with
    | nil => exact fun entries => rfl
    | cons e all ih =>
        intro entries
        rw [List.foldl_cons, ih, find?_setByCode, List.reverse_cons, List.find?_append, Option.or_assoc]
        by_cases hcode : e.code = code <;> simp [hcode]
  rw [SetupService.departmentsByCode, hfold, List.find?_nil, Option.or_none]
  exact findLast?_mapIdx (fun r : CreateDepartmentRequest => r.code == code)
    (fun r : CreateDepartmentRequest => (r.name, r.description, true)) (fun _ _ => rfl) (fun _ _ => rfl) all

end Seeds

/-! ## Effects -/

section Effects

variable {d d' : Db} {a : Reply}

theorem seededFrom_setUp {env : Env} {input : CompleteSetupRequest} {fromPresets : List (List CreateDepartmentRequest)}
    {current : InstitutionRow} (hrow : d.institution = some current) :
    SeededFrom env input fromPresets d (setUp env input fromPresets current d) := by
  rw [setUp, inserted_eq]
  refine ⟨⟨current, hrow, rfl⟩, rfl, rfl, fun hfresh code => ?_, fun hfresh code => ?_, fun hfresh code => ?_⟩
  · exact seeded branches OrganizationService.newBranch CreateBranchRequest.code
      (fun r => (r.name, r.address, r.phone, r.isActive)) (fun b => (b.name, b.address, b.phone, true))
      (fun _ _ => rfl) (fun _ _ => rfl) (fun _ _ => rfl) hfresh.injective hfresh.branches 0 input.branches code
  · have hrows := seeded departments OrganizationService.newDepartment CreateDepartmentRequest.code
      (fun r => (r.name, r.description, r.isActive)) (fun r => (r.name, r.description, true))
      (fun _ _ => rfl) (fun _ _ => rfl) (fun _ _ => rfl) hfresh.injective hfresh.departments 50
      (SetupService.departmentsByCode (fromPresets.flatten ++ input.departments)) code
    refine hrows.trans ?_
    exact congrArg _ (find?_departmentsByCode _ code)
  · exact seeded descriptors DescriptorsService.newDescriptor (fun v => (v.ns, v.code))
      (fun r => (r.label, r.isActive)) (fun v => (v.label, true)) (fun _ _ => rfl) (fun _ _ => rfl) (fun _ _ => rfl)
      hfresh.injective hfresh.descriptors 200 _ code

/-- Setup finds the institution as it was created, and nothing but setup completes it. -/
theorem completed_of_effect {request : Request} (h : request.Effect d a d') :
    if request.setsUp then d.completed = false ∧ d'.completed = true else d'.completed = d.completed := by
  cases request with
  | completeSetup env input =>
      obtain ⟨current, fromPresets, hrow, hfirst, -, -, rfl⟩ := h
      simp [Request.setsUp, Db.completed, hrow, hfirst, setUp, SetupService.completedRow]
  | updateInstitution input v =>
      obtain ⟨r, hrow, -, -, rfl⟩ := h
      simp [Request.setsUp, Db.completed, hrow, editedInstitution, InstitutionService.edit]
  | setModule value enabled =>
      obtain ⟨key, -, -, -, rfl⟩ := h
      change Db.completed (if _ then _ else _) = _
      split <;> rfl
  | createBranch env input | createDepartment env input | createDescriptor env input | createField env input =>
      obtain ⟨-, -, rfl⟩ := h
      rfl
  | updateBranch id input v | updateField id input v =>
      obtain ⟨r, row, -, -, -, -, -, -, rfl⟩ := h
      rfl
  | updateDepartment id input v | updateDescriptor id input v =>
      obtain ⟨r, row, -, -, -, -, -, rfl⟩ := h
      rfl

end Effects

/-! ## Runs -/

/-- The answered requests that complete the setup. -/
def completions (done : List (Call × Reply)) : List (Call × Reply) := done.filter fun p => p.1.request.setsUp

theorem completions_of_replay {start d : Db} {done : List (Call × Reply)} (hstart : Inv start)
    (hnew : start.completed = false) (h : Replay Call.code start done d) :
    (completions done).length = if d.completed then 1 else 0 := by
  have hall : Inv d ∧ (completions done).length = if d.completed then 1 else 0 := by
    refine h.history (G := fun done d => Inv d ∧ (completions done).length = if d.completed then 1 else 0) ?_
      ⟨hstart, by simp [completions, hnew]⟩
    rintro done q a d d' ⟨hd, hcount⟩ halone
    have heffect := (effect_of_alone hd halone).2
    refine ⟨inv_of_effect hd heffect, ?_⟩
    have hcompleted := completed_of_effect heffect
    rw [completions, List.filter_append, List.length_append, ← completions, hcount]
    cases hsets : q.request.setsUp with
    | true =>
        rw [hsets, if_pos rfl] at hcompleted
        simp [hsets, hcompleted.1, hcompleted.2]
    | false =>
        rw [hsets, if_neg (by simp)] at hcompleted
        simp [hsets, hcompleted]
  exact hall.2

def school (name : String) : InstitutionValues where
  name := name
  shortName := "School"
  country := "ET"
  primaryColor := "#1d4ed8"
  locale := .en
  currency := "ETB"
  timezone := "Africa/Addis_Ababa"
  calendarDisplay := .both
  fiscalYearStart := ⟨7, 8⟩

def unconfigured : Db where
  institution := some { school "Institution" with id := 1 }

def firstRun (offset : ℕ) (name : String) : Call :=
  ⟨.completeSetup { now := 5, newId := fun n => offset + n }
    { institution := school name
      branches := [{ code := Emis.Numbering.MAIN, name := "Main" }]
      presets := ["language"]
      seedDefaultLists := false
      branches_ok := by decide }, administrator⟩

/-- Both have read the institution before either of them locks it. -/
def wizards : List (Move Call) :=
  [.begins true (firstRun 1000 "Abay"), .begins false (firstRun 2000 "Awash"), .turns true 1, .turns false 14,
    .turns true 3]

def configured : Duo Call Db Lock Error Reply := (Duo.idle unconfigured).play Call.code wizards

theorem inv_unconfigured : Inv unconfigured :=
  ⟨branches.rowsKept_nil, departments.rowsKept_nil, descriptors.rowsKept_nil, customFields.rowsKept_nil⟩

end Emis.Settings
