import Emis.Admissions.Frames
import Emis.Admissions.Pipeline

/-!
# The pipeline is respected

`update`, `transition` and `recordPlacement` check the pipeline on a row that is
read before any lock is held. What they saw still holds when the row is written if
the client's version is not ahead of the row's. `convert` locks the row first.
-/

namespace Emis.Admissions

open Transactions Protocol ApplicationsService
open Cohorts (ApplicationStatus)

inductive Call where
  | update (env : Env) (id : Uuid) (input : UpdateApplicationValues) (expectedVersion : ℕ)
    (grants : List Grant)
  | transition (id : Uuid) (target : ManualTarget) (expectedVersion : ℕ) (grants : List Grant)
  | recordPlacement (env : Env) (id : Uuid) (input : PlacementValues) (expectedVersion : ℕ)
    (grants : List Grant)
  | convert (env : Env) (id : Uuid) (input : ConvertValues) (expectedVersion : ℕ)
    (grants : List Grant)
  | markEnrolled (studentId : Uuid)

inductive Reply where
  | application (application : Application)
  | converted (response : ConvertResponse)
  | enrolled

def Call.code : Call → Tx Reply
  | .update env id input v grants =>
      .application <$> ApplicationsService.update env id input v grants
  | .transition id target v grants =>
      .application <$> ApplicationsService.transition id target v grants
  | .recordPlacement env id input v grants =>
      .application <$> ApplicationsService.recordPlacement env id input v grants
  | .convert env id input v grants =>
      .converted <$> ApplicationsService.convert env id input v grants
  | .markEnrolled studentId => (fun _ => .enrolled) <$> ApplicationsService.markEnrolled studentId

/-- The If-Match version is not ahead of the application's. -/
def Call.current : Call → Db → Prop
  | .update _ id _ v _, d | .transition id _ v _, d | .recordPlacement _ id _ v _, d =>
      ∀ a, applicationsTable.row? d id = some a → v ≤ a.version
  | _, _ => True

/-! ## Where the guards let an application go -/

theorem unfinished_of_edge {s s' : ApplicationStatus} (h : canTransition s s' = true) :
    isClosed s = false := by
  cases s <;> simp_all [canTransition, APPLICATION_TRANSITIONS, isClosed, CLOSED_STATUSES]

theorem place_edge {s : ApplicationStatus} (h : canPlace s = true) :
    isClosed s = false ∧ (ApplicationStatus.placed = s ∨ canTransition s .placed = true) := by
  cases s <;> simp_all [canPlace, PLACEMENT_FROM, canTransition, APPLICATION_TRANSITIONS, isClosed,
    CLOSED_STATUSES]

/-! ## The calls -/

section Calls

variable {S : Set Lock} {d : Db} {f : Db → Db}

theorem wp_row {K : ApplicationRow → Set Lock → (Db → Db) → Db → Prop} {i : Uuid}
    (hK : ∀ d' a, pipeProtocol.Rely S d d' → PipeInv d' → a ∈ d'.applications → a.id = i →
      K a S id d') :
    pipeProtocol.wp K Anyway (ApplicationsService.row i) S id d := by
  simp only [ApplicationsService.row, wp_bind, wp_get, wp_expect]
  intro d₁ hr₁ hi₁
  refine ⟨fun a ha => ?_, fun _ => trivial⟩
  exact hK d₁ a hr₁ hi₁ (List.mem_of_find?_eq_some ha) (by simpa [applicationsTable] using List.find?_some ha)

/-- A row that was read without a lock is written with a version that was not ahead
of it. -/
theorem wp_write {found : ApplicationRow} {expectedVersion : ℕ}
    {values : ApplicationRow → ApplicationRow} {d₀ : Db} (hr : pipeProtocol.Rely ∅ d₀ d)
    (hmem : found ∈ d₀.applications) (hle : expectedVersion ≤ found.version)
    (hid : (values found).id = found.id)
    (hmoves : Moves found { values found with version := found.version + 1 }) :
    pipeProtocol.wp (fun result => pipeProtocol.wp (fun row => pipeProtocol.wp pipeProtocol.Kept Anyway
        (pure (toApplication row) : Tx Application)) Anyway
          (versionedRow result admissionsErrors.notFound)) Anyway
      (updateWithVersion applicationsTable found.id expectedVersion values :
        Tx (VersionedUpdateResult ApplicationRow)) S id d := by
  refine wp_versioned applicationsTable fun d₁ d₂ row hr₁ hi₁ hat hr₂ hi₂ _ => ?_
  have hmem₁ : found ∈ d₁.applications :=
    applications_advance.seen (hr.trans (hr₁.anti (Set.empty_subset S))) hi₁.applications hmem hle hat
  intro d₃ hr₃ hi₃
  have hlock : Lock.application found.id ∈ insert (Lock.application found.id) S := Set.mem_insert _ _
  have hmem₃ : found ∈ d₃.applications := pipe_locked hlock (hr₂.trans hr₃) hmem₁
  exact pipe_of_change (F := fun a => { values a with version := a.version + 1 }) hi₃ hmem₃
    ⟨hid, .inr ⟨hlock, hmoves⟩⟩

theorem update_kept (env : Env) (i : Uuid) (input : UpdateApplicationValues) (expectedVersion : ℕ)
    (grants : List Grant) (hversion : Reached i expectedVersion d) :
    pipeProtocol.wp pipeProtocol.Kept Anyway
      (ApplicationsService.update env i input expectedVersion grants) ∅ id d := by
  rw [ApplicationsService.update, wp_bind]
  refine wp_row fun d₁ found hr₁ hi₁ hmem hid => ?_
  subst hid
  have hle := pipe_reached hr₁ hversion found hmem rfl
  simp only [wp_bind, assertScope, wp_require, implies_true, and_true]
  intro _ hopen
  refine wp_of_silent (.when _ (keeps_assertActiveCode _ _)) hi₁ fun _ S₂ d₂ hS₂ hr₂ hi₂ => ?_
  refine wp_of_silent (keeps_checkReferences _ _ _) hi₂ fun _ S₃ d₃ hS₃ hr₃ hi₃ => ?_
  refine wp_of_silent (keeps_validateChange _ _ _) hi₃ fun customFields S₄ d₄ hS₄ hr₄ hi₄ => ?_
  have hr₁₄ : pipeProtocol.Rely ∅ d₁ d₄ :=
    hr₂.trans ((hr₃.trans (hr₄.anti hS₃)).anti (Set.empty_subset _))
  refine wp_write hr₁₄ hmem hle rfl ⟨Nat.lt_succ_self _, ?_, ?_, ?_⟩
  · simpa using hopen
  · exact .inl rfl
  · exact .inl ⟨rfl, fun h => h⟩

theorem transition_kept (i : Uuid) (target : ManualTarget) (expectedVersion : ℕ)
    (grants : List Grant) (hversion : Reached i expectedVersion d) :
    pipeProtocol.wp pipeProtocol.Kept Anyway
      (ApplicationsService.transition i target expectedVersion grants) ∅ id d := by
  rw [ApplicationsService.transition, wp_bind]
  refine wp_row fun d₁ found hr₁ hi₁ hmem hid => ?_
  subst hid
  have hle := pipe_reached hr₁ hversion found hmem rfl
  simp only [wp_bind, assertScope, wp_require, implies_true, and_true]
  intro _ hedge
  refine wp_of_silent (.when _ (.bind (keeps_isEnabled _) fun _ => .require _ _)) hi₁
    fun _ S₂ d₂ _ hr₂ _ => ?_
  refine wp_write hr₂ hmem hle rfl ⟨Nat.lt_succ_self _, unfinished_of_edge hedge, ?_, ?_⟩
  · exact .inr hedge
  · refine .inl ⟨rfl, fun hconfirmed => ?_⟩
    cases target <;> simp [statusRow, ManualTarget.status] at hconfirmed

theorem recordPlacement_kept (env : Env) (i : Uuid) (input : PlacementValues) (expectedVersion : ℕ)
    (grants : List Grant) (hversion : Reached i expectedVersion d) :
    pipeProtocol.wp pipeProtocol.Kept Anyway
      (ApplicationsService.recordPlacement env i input expectedVersion grants) ∅ id d := by
  rw [ApplicationsService.recordPlacement, wp_bind]
  refine wp_row fun d₁ found hr₁ hi₁ hmem hid => ?_
  subst hid
  have hle := pipe_reached hr₁ hversion found hmem rfl
  rw [wp_bind]
  refine wp_of_silent (keeps_isEnabled _) hi₁ fun _ S₂ d₂ hS₂ hr₂ hi₂ => ?_
  simp only [wp_bind, wp_require, implies_true, and_true]
  intro _ hplace
  refine wp_of_silent (keeps_findWithDepartment _) hi₂ fun course S₃ d₃ hS₃ hr₃ hi₃ => ?_
  simp only [wp_expect, assertScope, wp_require, implies_true, and_true]
  intro _ _ _
  have hr₁₃ : pipeProtocol.Rely ∅ d₁ d₃ := hr₂.trans (hr₃.anti hS₂)
  obtain ⟨hopen, hedge⟩ := place_edge hplace
  refine wp_write hr₁₃ hmem hle rfl ⟨Nat.lt_succ_self _, hopen, ?_, ?_⟩
  · exact hedge
  · refine .inl ⟨rfl, fun hconfirmed => ?_⟩
    simp [placedRow] at hconfirmed

/-! ## Registering -/

theorem wp_insertStudent {K : Unit → Set Lock → (Db → Db) → Db → Prop} {row : StudentRow}
    (hK : ∀ S' d', S ⊆ S' → .student row.id ∈ S' → pipeProtocol.Rely S d d' → PipeInv d' →
      (∀ s ∈ (f d').students, s.id ≠ row.id) →
      K () S' ((fun d => { d with students := d.students ++ [row] }) ∘ f) d') :
    pipeProtocol.wp K Anyway (StudentsService.insertStudent row) S f d := by
  simp only [StudentsService.insertStudent, wp_bind, wp_acquire, wp_get, wp_require, wp_modify,
    implies_true, and_true]
  intro d₁ hr₁ _ d₂ hr₂ _ _ d₃ hr₃ _ d₄ hr₄ hi₄ hfresh
  have hS₁ : S ⊆ insert (.studentNumber row.studentNumber) S := Set.subset_insert _ _
  have hS₂ := hS₁.trans (Set.subset_insert (.student row.id) _)
  refine hK _ d₄ hS₂ (Set.mem_insert _ _) ?_ hi₄ ?_
  · exact hr₁.trans (((hr₂.trans hr₃).anti hS₁).trans (hr₄.anti hS₂))
  · simpa using hfresh

/-- Registering a student draws a number and adds the student and the guardians. -/
theorem wp_create {K : Student → Set Lock → (Db → Db) → Db → Prop} {env : Env}
    {input : CreateStudentValues} {grants : List Grant} (hd : PipeInv d)
    (hK : ∀ student S' g d', S ⊆ S' → .student student.row.id ∈ S' →
      (∀ s, (g s).applications = s.applications) →
      (∀ s, (g s).students = s.students ++ [student.row]) → pipeProtocol.Rely S d d' → PipeInv d' →
      (∀ s ∈ d'.students, s.id ≠ student.row.id) → K student S' g d') :
    pipeProtocol.wp K Anyway (StudentsService.create env input grants) S id d := by
  rw [StudentsService.create]
  simp only [wp_bind, assertScope, wp_require, implies_true, and_true]
  intro _
  refine wp_of_silent (keeps_isActiveBranch _) hd fun _ S₁ d₁ hS₁ hr₁ hi₁ => ?_
  simp only [wp_require, implies_true, and_true]
  intro _
  refine wp_of_silent (keeps_assertActiveCode _ _) hi₁ fun _ S₂ d₂ hS₂ hr₂ hi₂ => ?_
  refine wp_of_silent (keeps_validateValues _ _ _) hi₂ fun customFields S₃ d₃ hS₃ hr₃ hi₃ => ?_
  refine wp_of_silent (.when _ (.bind (keeps_find _ _) fun _ => .require _ _)) hi₃
    fun _ S₄ d₄ hS₄ hr₄ hi₄ => ?_
  refine wp_of_keeps (keeps_nextNumber _ _ _) hi₄ fun issued S₅ g₅ d₅ hS₅ hg₅ hr₅ hi₅ => ?_
  refine wp_insertStudent fun S₆ d₆ hS₆ hlock hr₆ hi₆ hfresh => ?_
  refine wp_of_keeps (keeps_insertGuardians _ _ _) hi₆ fun guardians S₇ g₇ d₇ hS₇ hg₇ hr₇ hi₇ => ?_
  set row := StudentsService.newStudent env input customFields issued.number
  have hrecords : ∀ s, (g₅ s).applications = s.applications ∧ (g₅ s).students = s.students :=
    fun s => Prod.mk.inj (hg₅ s)
  have hadded := fun s => Prod.mk.inj (hg₇ s)
  have hr : pipeProtocol.Rely S d d₆ := by
    refine hr₁.trans ((hr₂.trans ?_).anti hS₁)
    exact (hr₃.trans ((hr₄.trans ((hr₅.trans (hr₆.anti hS₅)).anti hS₄)).anti hS₃)).anti hS₂
  have hS : S ⊆ S₆ := fun _ hl => hS₆ (hS₅ (hS₄ (hS₃ (hS₂ (hS₁ hl)))))
  have hfresh₆ : ∀ s ∈ d₆.students, s.id ≠ row.id := by
    simpa only [Function.comp_apply, id_eq, (hrecords d₆).2] using hfresh
  refine hK ⟨row, guardians⟩ S₇ _ d₇ (hS.trans hS₇) (hS₇ hlock) ?_ ?_ ?_ hi₇ ?_
  · intro s
    exact (hadded _).1.trans (hrecords s).1
  · intro s
    refine (hadded _).2.trans ?_
    exact congrArg (· ++ [row]) (hrecords s).2
  · exact hr.trans (hr₇.anti hS)
  · exact pipe_fresh hlock hr₇ hfresh₆

/-- The link of an offered application to a student, with or without the student's
registration. -/
theorem convert_kept (env : Env) (i : Uuid) (input : ConvertValues) (expectedVersion : ℕ)
    (grants : List Grant) :
    pipeProtocol.wp pipeProtocol.Kept Anyway
      (ApplicationsService.convert env i input expectedVersion grants) ∅ id d := by
  rw [ApplicationsService.convert, wp_bind, rowForUpdate, wp_bind, wp_acquire]
  intro d₀ _ _
  refine wp_row fun d₁ found hr₁ hi₁ hmem hid => ?_
  subst hid
  simp only [wp_bind, assertScope, wp_require, implies_true, and_true]
  intro _ hnone hoffered
  have hnone : found.studentId = none := by simpa using hnone
  have hoffered : found.status = .offered := by simpa using hoffered
  set S₁ : Set Lock := insert (.application found.id) ∅
  set F : Uuid → ApplicationRow → ApplicationRow := fun studentId a =>
    { confirmedRow studentId a with version := a.version + 1 }
  have hlock : Lock.application found.id ∈ S₁ := Set.mem_insert _ _
  have hstep : ∀ studentId S, S₁ ⊆ S → AppStep S found (F studentId found) := by
    intro studentId S hS
    refine ⟨rfl, .inr ⟨hS hlock, Nat.lt_succ_self _, ?_, ?_, ?_⟩⟩
    · rw [hoffered]
      rfl
    · right
      rw [hoffered]
      rfl
    · refine .inr ⟨hnone, ?_, rfl, ?_⟩
      · simp [hoffered]
      · simp [F, confirmedRow]
  -- What is left when the student is there.
  have hrest : ∀ studentId S₂ g d₂, S₁ ⊆ S₂ → pipeProtocol.Rely S₁ d₁ d₂ →
      (∀ S₃ d₃, S₂ ⊆ S₃ → pipeProtocol.Rely S₂ d₂ d₃ → PipeInv d₃ → found ∈ d₃.applications →
        PipeGuar S₃ d₃ (applicationsTable.bump found.id (confirmedRow studentId) (g d₃)) ∧
          PipeInv (applicationsTable.bump found.id (confirmedRow studentId) (g d₃))) →
      pipeProtocol.wp pipeProtocol.Kept Anyway (do
        let result ← updateWithVersion applicationsTable found.id expectedVersion
          (confirmedRow studentId)
        let row ← versionedRow result admissionsErrors.notFound
        let student ← StudentsService.get studentId grants
        return ({ application := toApplication row, student := student } : ConvertResponse))
        S₂ g d₂ := by
    intro studentId S₂ g d₂ hS₂ hr₂ hpublish
    simp only [wp_bind]
    refine wp_versioned applicationsTable fun d₃ d₄ row hr₃ hi₃ _ hr₄ hi₄ _ => ?_
    refine wp_of_silent (keeps_getStudent _ _) hi₄ fun student S₅ d₅ hS₅ hr₅ _ d' hr' hi' => ?_
    have hS₂₅ : S₂ ⊆ S₅ := (Set.subset_insert _ _).trans hS₅
    have hr₂' : pipeProtocol.Rely S₂ d₂ d' :=
      hr₃.trans (((hr₄.trans hr₅).anti (Set.subset_insert _ _)).trans (hr'.anti hS₂₅))
    refine hpublish S₅ d' hS₂₅ hr₂' hi' ?_
    exact pipe_locked hlock (hr₂.trans (hr₂'.anti hS₂)) hmem
  simp only [← wp_bind]
  rw [wp_bind, studentFor]
  cases input.existingStudentId with
  | some existing =>
      dsimp only
      rw [wp_map]
      refine wp_of_silent (keeps_studentRow _) hi₁ fun student S₂ d₂ hS₂ hr₂ _ => ?_
      refine hrest _ S₂ id d₂ hS₂ hr₂ fun S₃ d₃ hS₃ _ hi₃ hmem₃ => ?_
      exact pipe_of_change (F := F student.id) hi₃ hmem₃ (hstep _ S₃ (hS₂.trans hS₃))
  | none =>
      dsimp only
      rw [wp_map]
      refine wp_create hi₁ fun student S₂ g d₂ hS₂ hstudent happlications hstudents hr₂ _ hfresh => ?_
      refine hrest _ S₂ g d₂ hS₂ hr₂ fun S₃ d₃ hS₃ hr₃ hi₃ hmem₃ => ?_
      refine pipe_of_register (F := F student.row.id) hi₃ hmem₃ ?_ (hstudents d₃)
        (hstep _ S₃ (hS₂.trans hS₃)) (hS₃ hstudent) (pipe_fresh hstudent hr₃ hfresh) hnone rfl
      exact congrArg (changeWhere _ _) (happlications d₃)

/-- What the loop of `markEnrolled` has pending. -/
def Finishing (S : Set Lock) (f : Db → Db) (_ : Db) : Prop :=
  ∀ s, List.Forall₂ (Enrolls S) s.applications (f s).applications ∧ (f s).students = s.students

theorem markEnrolled_kept (studentId : Uuid) :
    pipeProtocol.wp pipeProtocol.Kept Anyway (ApplicationsService.markEnrolled studentId) ∅ id d := by
  rw [ApplicationsService.markEnrolled, wp_bind, wp_get]
  intro d₁ _ _
  refine wp_mono (K := fun _ => Finishing) (X := Anyway) ?_ (fun _ _ _ _ => trivial) (wp_forM _ ?_ ?_)
  · intro _ S f d hpending d' _ hi'
    obtain ⟨hrows, hstudents⟩ := hpending d'
    exact pipe_of_rows hi' (hrows.imp fun _ _ henrolls => henrolls.step) hstudents
  · intro a S f d hpending
    rw [wp_bind]
    apply wp_updateWhere
    · intro S' d' hS _ _ s
      exact ⟨(hpending s).1.imp fun _ _ henrolls => henrolls.mono hS, (hpending s).2⟩
    · intro d' _ _ _ s
      obtain ⟨hrows, hstudents⟩ := hpending s
      refine ⟨?_, hstudents⟩
      exact List.forall₂_map_right_iff.2 (hrows.imp fun r r' henrolls => henrolls.enroll)
  · exact fun s => ⟨List.forall₂_same.2 fun _ _ => .inl rfl, rfl⟩

theorem reached_of_current {i : Uuid} {version : ℕ} (hd : PipeInv d)
    (h : ∀ a, applicationsTable.row? d i = some a → version ≤ a.version) : Reached i version d := by
  intro a ha hid
  obtain ⟨found, hfound⟩ : ∃ found, applicationsTable.row? d i = some found := by
    apply Option.isSome_iff_exists.1
    exact List.find?_isSome.2 ⟨a, ha, by simp [applicationsTable, hid]⟩
  have hfid : found.id = i := by simpa [applicationsTable] using List.find?_some hfound
  obtain rfl : a = found :=
    eq_of_key_eq hd.applications ha (List.mem_of_find?_eq_some hfound) (hid.trans hfid.symm)
  exact h a hfound

theorem code_kept (call : Call) (d : Db) (hd : PipeInv d) (hcurrent : call.current d) :
    pipeProtocol.wp (pipeProtocol.Done fun _ _ _ => True) (pipeProtocol.Failed fun _ _ => True)
      call.code ∅ id d := by
  cases call with
  | update => exact done_of_kept _ (update_kept _ _ _ _ _ (reached_of_current hd hcurrent))
  | transition => exact done_of_kept _ (transition_kept _ _ _ _ (reached_of_current hd hcurrent))
  | recordPlacement =>
      exact done_of_kept _ (recordPlacement_kept _ _ _ _ _ (reached_of_current hd hcurrent))
  | convert => exact done_of_kept _ (convert_kept _ _ _ _ _)
  | markEnrolled => exact done_of_kept _ (markEnrolled_kept _)

end Calls

end Emis.Admissions
