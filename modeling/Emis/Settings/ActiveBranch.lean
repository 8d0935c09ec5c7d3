import Emis.Settings.Effects

/-!
# An active branch

Once there are branches one of them is active, whoever turns them off at once.
-/

namespace Emis.Settings

open Transactions
open Emis.Numbering (OrgCode)

def Db.HasActive (d : Db) : Prop := ∃ b ∈ d.branches, b.isActive = true

/-- There is an active branch where there is any, and there is one once setup is complete. -/
structure Staffed (d : Db) : Prop where
  active : d.branches ≠ [] → d.HasActive
  completed : ∀ r, d.institution = some r → r.setupCompletedAt ≠ none → d.branches ≠ []

section Effects

variable {d d' : Db} {a : Reply}

theorem staffed_of_same (hbranches : d'.branches = d.branches)
    (hcompleted : ∀ r, d'.institution = some r → r.setupCompletedAt ≠ none →
      ∃ r₀, d.institution = some r₀ ∧ r₀.setupCompletedAt ≠ none) (hd : Staffed d) : Staffed d' := by
  constructor
  · rw [Db.HasActive, hbranches]
    exact hd.active
  · intro r hr hdone
    obtain ⟨r₀, hr₀, hdone₀⟩ := hcompleted r hr hdone
    rw [hbranches]
    exact hd.completed r₀ hr₀ hdone₀

/-- The first of the rows that setup inserts is active, unless there are branches already. -/
theorem active_of_addRows {old rows : List BranchRow} (hrows : ∀ row ∈ rows, row.isActive = true) (hne : rows ≠ [])
    (hold : old ≠ [] → ∃ b ∈ old, b.isActive = true) : ∃ b ∈ rows.foldl branches.addRow old, b.isActive = true := by
  cases rows with
  | nil => exact (hne rfl).elim
  | cons row rows =>
      have hone : ∃ b ∈ branches.addRow old row, b.isActive = true := by
        cases old with
        | nil => exact ⟨row, by simp [CodedTable.addRow], hrows row List.mem_cons_self⟩
        | cons b₀ old =>
            obtain ⟨b, hb, hactive⟩ := hold (by simp)
            have hkept : b ∈ [row].foldl branches.addRow (b₀ :: old) := CodedTable.mem_addRows hb
            exact ⟨b, hkept, hactive⟩
      obtain ⟨b, hb, hactive⟩ := hone
      rw [List.foldl_cons]
      exact ⟨b, CodedTable.mem_addRows hb, hactive⟩

theorem branchRows_active (env : Env) (input : CompleteSetupRequest) :
    (∀ row ∈ SetupService.branchRows env input, row.isActive = true) ∧ SetupService.branchRows env input ≠ [] := by
  constructor
  · intro row hrow
    obtain ⟨i, _, rfl⟩ := List.mem_mapIdx.1 hrow
    rfl
  · intro hnil
    have hlength : (SetupService.branchRows env input).length = input.branches.length := List.length_mapIdx
    have hmin := input.branches_ok.1
    rw [hnil] at hlength
    simp at hlength
    omega

/-- An edit turns off at most the branch it is about. -/
theorem staffed_bump {id : Uuid} {input : UpdateBranchRequest} {r : BranchRow} (hd : Inv d) (hs : Staffed d)
    (hmem : r ∈ d.branches) (hrid : r.id = id)
    (hother : input.isActive = some false → r.isActive = true → OrganizationService.otherActive d id = true) :
    Staffed (branches.bump id (OrganizationService.editBranch input) d) := by
  have hkept : ∀ b ∈ d.branches, ∃ b' ∈ (branches.bump id (OrganizationService.editBranch input) d).branches,
      b'.id = b.id ∧ (b.isActive = true → b.id ≠ id ∨ input.isActive ≠ some false → b'.isActive = true) := by
    intro b hb
    refine ⟨_, mem_changeWhere.2 ⟨b, hb, rfl⟩, ?_⟩
    split
    · rename_i hhit
      have hbid : b.id = id := by simpa [branches] using hhit
      refine ⟨rfl, fun hactive hstays => ?_⟩
      have hset := hstays.resolve_left fun hne => hne hbid
      cases hgiven : input.isActive with
      | none => simpa [branches, OrganizationService.editBranch, hgiven] using hactive
      | some active => cases active <;> simp_all [branches, OrganizationService.editBranch]
    · exact ⟨rfl, fun hactive _ => hactive⟩
  have hne : d.branches ≠ [] := List.ne_nil_of_mem hmem
  obtain ⟨r', hr', -⟩ := hkept r hmem
  refine ⟨fun _ => ?_, fun _ _ _ => List.ne_nil_of_mem hr'⟩
  obtain ⟨b, hb, hactive⟩ := hs.active hne
  by_cases hoff : b.id = id ∧ input.isActive = some false
  · obtain rfl : b = r := eq_of_key_eq hd.branches.ids hb hmem (hoff.1.trans hrid.symm)
    obtain ⟨c, hc, hboth⟩ := List.any_eq_true.1 (hother hoff.2 hactive)
    obtain ⟨hc_active, hc_id⟩ : c.isActive = true ∧ c.id ≠ id := by simpa using hboth
    obtain ⟨c', hc', -, hstays⟩ := hkept c hc
    exact ⟨c', hc', hstays hc_active (.inl hc_id)⟩
  · obtain ⟨b', hb', -, hstays⟩ := hkept b hb
    exact ⟨b', hb', hstays hactive (not_and_or.1 hoff)⟩

theorem staffed_of_effect (hd : Inv d) (hs : Staffed d) {request : Request} (h : request.Effect d a d') : Staffed d' := by
  have hsame : ∀ {d' : Db}, d'.branches = d.branches → d'.institution = d.institution → Staffed d' :=
    fun hbranches hinstitution => staffed_of_same hbranches (fun r hr hdone => ⟨r, hinstitution ▸ hr, hdone⟩) hs
  cases request with
  | setModule value enabled =>
      obtain ⟨key, -, -, -, rfl⟩ := h
      split <;> exact hsame rfl rfl
  | createBranch env input =>
      obtain ⟨-, -, rfl⟩ := h
      set row := OrganizationService.newBranch (env.newId 0) input
      have hnew : row ∈ (branches.add row d).branches := List.mem_append_right _ (List.mem_singleton_self _)
      exact ⟨fun _ => ⟨row, hnew, rfl⟩, fun _ _ _ => List.ne_nil_of_mem hnew⟩
  | updateBranch id input expectedVersion =>
      obtain ⟨r, row, -, hother, h⟩ := h
      obtain ⟨hmem, hrid, -, -, rfl⟩ := h
      exact staffed_bump hd hs hmem hrid hother
  | createDepartment env input =>
      obtain ⟨-, -, rfl⟩ := h
      exact hsame rfl rfl
  | updateDepartment id input expectedVersion =>
      obtain ⟨r, row, -, -, -, -, -, rfl⟩ := h
      exact hsame rfl rfl
  | createDescriptor env input =>
      obtain ⟨-, -, rfl⟩ := h
      exact hsame rfl rfl
  | updateDescriptor id input expectedVersion =>
      obtain ⟨r, row, -, -, -, -, -, rfl⟩ := h
      exact hsame rfl rfl
  | createField env input =>
      obtain ⟨-, -, rfl⟩ := h
      exact hsame rfl rfl
  | updateField id input expectedVersion =>
      obtain ⟨r, row, -, -, -, -, -, -, rfl⟩ := h
      exact hsame rfl rfl
  | updateInstitution input expectedVersion =>
      obtain ⟨r, hr, -, -, rfl⟩ := h
      refine staffed_of_same (d := d) rfl (fun r' hr' hdone => ⟨r, hr, ?_⟩) hs
      obtain rfl := Option.some.inj hr'
      exact hdone
  | completeSetup env input =>
      obtain ⟨current, fromPresets, -, -, -, -, rfl⟩ := h
      obtain ⟨hactive, hne⟩ := branchRows_active env input
      have hafter : (setUp env input fromPresets current d).HasActive := by
        rw [Db.HasActive, setUp, inserted_eq]
        exact active_of_addRows hactive hne hs.active
      refine ⟨fun _ => hafter, fun _ _ _ => ?_⟩
      obtain ⟨b, hb, -⟩ := hafter
      exact List.ne_nil_of_mem hb

end Effects

/-! ## Runs -/

/-- Where no request names a version that a branch has yet to reach, there is always an
active branch if there are any, and from setup on there are. -/
theorem active_branch_remains {ι : Type} [DecidableEq ι] {start w : World ι Call Db Lock Error Reply}
    (hidle : start.Idle) (hstart : Inv start.db) (hstaffed : Staffed start.db)
    (hw : Admitted Call.code Call.known start w) :
    (w.db.branches ≠ [] → w.db.HasActive) ∧
      ∀ r, w.db.institution = some r → r.setupCompletedAt ≠ none → w.db.HasActive := by
  obtain ⟨-, hs⟩ := always hidle hstart hstaffed
    (fun request d a d' hd hs heffect => staffed_of_effect hd hs heffect) hw
  exact ⟨hs.active, fun r hr hdone => hs.active (hs.completed r hr hdone)⟩

/-! ## Two branches -/

def PIAS : OrgCode := ⟨['P', 'I', 'A', 'S'], by decide, by decide⟩

def MEGE : OrgCode := ⟨['M', 'E', 'G', 'E'], by decide, by decide⟩

def campuses (first : Bool) : Db where
  branches := [{ id := 1, code := PIAS, name := "Piassa", isActive := first }, { id := 2, code := MEGE, name := "Megenagna" }]

def turnBranch (id : Uuid) (active : Bool) (expectedVersion : ℕ) : Call :=
  ⟨.updateBranch id { isActive := some active } expectedVersion, administrator⟩

/-- Each of two administrators closes one of the last two branches. -/
def closings : List (Move Call) :=
  [.begins true (turnBranch 1 false 1), .begins false (turnBranch 2 false 1), .turns true 3, .turns false 1,
    .turns true 7, .turns false 9]

def remaining : Duo Call Db Lock Error Reply := (Duo.idle (campuses true)).play Call.code closings

theorem inv_campuses (first : Bool) : Inv (campuses first) where
  branches := by cases first <;> exact ⟨by decide, by decide, by decide⟩
  departments := departments.rowsKept_nil
  descriptors := descriptors.rowsKept_nil
  customFields := customFields.rowsKept_nil

theorem staffed_campuses (first : Bool) : Staffed (campuses first) where
  active _ := ⟨_, List.mem_cons_of_mem _ (List.mem_singleton_self _), rfl⟩
  completed r hr := by cases hr

/-- The second is refused. -/
theorem active_branch_remains_closing : remaining.world.db.HasActive ∧
    remaining.world.db.branches.map BranchRow.isActive = [false, true] := by
  have hreach : Admitted Call.code Call.known (Duo.idle (campuses true) : Duo Call Db Lock Error Reply).world
      remaining.world := by
    refine Duo.play_admitted Call.code Call.known _ closings fun i q hq d => ?_
    simp only [closings, List.mem_cons, Move.begins.injEq, reduceCtorEq, List.not_mem_nil, or_false] at hq
    rcases hq with ⟨-, rfl⟩ | ⟨-, rfl⟩ <;> exact .inl (Nat.le_refl 1)
  obtain ⟨hactive, -⟩ := active_branch_remains (fun _ => rfl) (inv_campuses true) (staffed_campuses true) hreach
  have hbranches : remaining.world.db.branches.map BranchRow.isActive = [false, true] := by rfl
  refine ⟨hactive fun hnil => ?_, hbranches⟩
  rw [hnil] at hbranches
  cases hbranches

/-- A branch that is closed is named at its next version by a request that closes it; it
is opened, the other one is closed, and then the request goes through. -/
def guesses : List (Move Call) :=
  [.begins true (turnBranch 1 false 2), .turns true 1, .begins false (turnBranch 1 true 1), .turns false 9,
    .begins false (turnBranch 2 false 1), .turns false 9, .turns true 9]

/-- With a version that the branch has yet to reach, no active branch remains. -/
theorem active_branch_lost : ∃ w : World Bool Call Db Lock Error Reply,
    Reachable Call.code ⟨campuses false, fun _ => none⟩ w ∧ w.db.branches.map BranchRow.isActive = [false, false] :=
  ⟨_, Duo.play_reachable Call.code (Duo.idle (campuses false) : Duo Call Db Lock Error Reply) guesses, by rfl⟩

end Emis.Settings
