import Emis.Cohorts.Effects
import Emis.Cohorts.Lifecycle
import Emis.Cohorts.Rules
import Emis.Cohorts.Waitlist
import Emis.Library.Script

/-!
# Lifecycles only go forward

The guards of `withdraw` and `recordResult` look at a row that is read before any
lock is held. What they saw still holds when the row is written if the version
that the client sends is not ahead of the row's; one that is ahead lets a stale
guard through.
-/

namespace Emis.Cohorts

open Transactions Protocol EnrollmentsService

variable {S : Set Lock} {f : Db → Db} {d : Db}

/-! ## The requests -/

theorem enroll_kept (env : Env) (studentId cohortId : Uuid) (grants : List Grant) :
    lifeProtocol.wp lifeProtocol.Kept Anyway (enroll env studentId cohortId grants) ∅ id d := by
  rw [enroll, wp_bind]
  refine wp_cohortRow fun d₁ cohort hr₁ hi₁ hcohort => ?_
  have hcid : cohort.id = cohortId := by simpa using List.find?_some hcohort
  simp only [wp_bind, assertScope, wp_require, wp_get, wp_expect, implies_true, and_true]
  intro _ hopen d₂ hr₂ hi₂ student _ _ d₃ hr₃ hi₃ _
  refine wp_of_silent (keeps_assertPrerequisites _ _) hi₃ fun _ S₄ d₄ hS₄ hr₄ hi₄ => ?_
  intro d₅ hr₅ _ d₆ hr₆ _
  set hasSeat : Bool := decide ((id d₅).activeCount cohort.id < (id d₆).seatsOf cohort)
  set row := newEnrollment env studentId cohort.id hasSeat
  have hclock₄ : Lock.cohort cohortId ∈ S₄ := hS₄ (Set.mem_insert _ _)
  refine wp_insertEnrollment fun d₇ d₈ S₈ hS₈ hr₇ hr₈ hi₈ _ hfresh => ?_
  have hS₄₈ : S₄ ⊆ S₈ := hS₈ ▸ (Set.subset_insert _ _).trans (Set.subset_insert _ _)
  have hlock₈ : Lock.enrollment row.id ∈ S₈ := hS₈ ▸ Set.mem_insert _ _
  refine wp_of_keeps (.when hasSeat (keeps_markEnrolled studentId)) hi₈
    fun _ S₉ g d₉ hS₉ hg hr₉ hi₉ => ?_
  refine wp_of_silent (keeps_present _) hi₉ fun _ S₁₀ d₁₀ hS₁₀ hr₁₀ hi₁₀ => ?_
  simp only [wp_expect, wp_pure, implies_true, and_true]
  intro _ _ d' hr' hi'
  -- From here on the cohort's lock and the new row's are held.
  have hr₈' : lifeProtocol.Rely S₈ d₈ d' := (hr₉.trans (hr₁₀.anti hS₉)).trans (hr'.anti (hS₉.trans hS₁₀))
  have hr₅' : lifeProtocol.Rely S₄ d₅ d' := (hr₆.trans hr₇).trans (hr₈.trans (hr₈'.anti hS₄₈))
  have hr₁' : lifeProtocol.Rely (insert (.cohort cohortId) ∅) d₁ d' :=
    (hr₂.trans (hr₃.trans hr₄)).trans ((hr₅.trans hr₅').anti hS₄)
  have hrow : d'.cohort? cohortId = some cohort :=
    (life_cohort (Set.mem_insert _ _) hr₁').trans hcohort
  have hentered : Entered S₁₀ row := by
    refine ⟨?_, hS₁₀ (hS₉ hlock₈), Nat.le_refl 1⟩
    rw [show row.cohortId = cohortId from hcid]
    exact hS₁₀ (hS₉ (hS₄₈ hclock₄))
  obtain ⟨hguar, hinv⟩ := life_of_insert hi' hentered (life_fresh hlock₈ hr₈' hfresh) fun c hc => by
    obtain rfl : cohort = c := by
      rw [show row.cohortId = cohortId from hcid, hrow] at hc
      exact Option.some.inj hc
    revert hopen
    cases cohort.status <;> simp [ENROLLING_COHORT_STATUSES, CohortStatus.allows]
  exact ⟨.of_lives (lives_of_places (hg _)) hguar, .of_lives (lives_of_places (hg _)) hinv⟩

theorem recordResult_kept (env : Env) (eid : Uuid) (input : RecordResultValues)
    (expectedVersion : ℕ) (grants : List Grant) (hversion : Reached eid expectedVersion d) :
    lifeProtocol.wp lifeProtocol.Kept Anyway (recordResult env eid input expectedVersion grants)
      ∅ id d := by
  simp only [recordResult, row, wp_bind, wp_get, wp_expect, implies_true, and_true]
  intro d₁ hr₁ hi₁ found hfound
  have hmem : found ∈ d₁.enrollments := List.mem_of_find?_eq_some hfound
  obtain rfl : found.id = eid := by simpa using List.find?_some hfound
  have hle : expectedVersion ≤ found.version := (life_reached hr₁ hversion).1 found hmem rfl
  refine wp_of_silent (keeps_cohortRow _ _) hi₁ fun cohort S₂ d₂ hS₂ hr₂ hi₂ => ?_
  refine wp_of_silent (keeps_findWithDepartment _) hi₂ fun course S₃ d₃ hS₃ hr₃ hi₃ => ?_
  simp only [wp_expect, assertScope, wp_require, implies_true, and_true]
  intro course _ _ hactive
  have hactive' : found.status = .active := by simpa using hactive
  have hrest : ∀ status : EnrollmentStatus, status ∈ found.status.next → status.live = false →
      lifeProtocol.wp lifeProtocol.Kept Anyway (do
        let result ← updateWithVersion enrollmentsTable found.id expectedVersion
          (resultRow env status input)
        let updated ← versionedRow result cohortErrors.enrollmentNotFound
        checkResult input
        let presented ← present [updated.id]
        Prog.expect presented.head? cohortErrors.enrollmentNotFound) S₃ id d₃ := by
    intro status hnext hdead
    simp only [wp_bind]
    refine wp_versioned enrollmentsTable fun d₄ d₅ updated hr₄ hi₄ hat hr₅ hi₅ _ => ?_
    have hmem₄ : found ∈ d₄.enrollments :=
      life_seen hmem hle (hr₂.trans ((hr₃.trans (hr₄.anti hS₃)).anti hS₂)) hi₄ hat
    refine wp_of_silent (keeps_checkResult _) hi₅ fun _ S₆ d₆ hS₆ hr₆ hi₆ => ?_
    refine wp_of_silent (keeps_present _) hi₆ fun presented S₇ d₇ hS₇ hr₇ hi₇ => ?_
    simp only [wp_expect, implies_true, and_true]
    intro _ _ d' hr' hi'
    have hlock : Lock.enrollment found.id ∈ S₇ := hS₇ (hS₆ (Set.mem_insert _ _))
    have hmem' : found ∈ d'.enrollments :=
      life_locked (Set.mem_insert _ _) ((hr₅.trans hr₆).trans ((hr₇.anti hS₆).trans
        (hr'.anti (hS₆.trans hS₇)))) hmem₄
    refine life_of_change (F := fun e =>
      { resultRow env status input e with version := e.version + 1 }) hi' hmem' ?_ fun c _ => ?_
    · exact ⟨rfl, rfl, .inr ⟨hlock, Nat.lt_succ_self _, hnext, .inr ⟨hactive', hdead⟩⟩⟩
    · exact CohortStatus.allows_of_dead hdead _
  cases evaluateCompletion course.course input.score input.attendancePercent with
  | incomplete missing => trivial
  | passed => exact hrest .completed (by simp [hactive', EnrollmentStatus.next]) rfl
  | failed reasons => exact hrest .failed (by simp [hactive', EnrollmentStatus.next]) rfl

theorem withdraw_kept (env : Env) (eid : Uuid) (reasonCode : String) (expectedVersion : ℕ)
    (grants : List Grant) (hversion : Reached eid expectedVersion d) :
    lifeProtocol.wp lifeProtocol.Kept Anyway (withdraw env eid reasonCode expectedVersion grants)
      ∅ id d := by
  simp only [withdraw, row, wp_bind, wp_get, wp_expect, implies_true, and_true]
  intro d₁ hr₁ hi₁ found hfound
  have hmem : found ∈ d₁.enrollments := List.mem_of_find?_eq_some hfound
  obtain rfl : found.id = eid := by simpa using List.find?_some hfound
  have hle : expectedVersion ≤ found.version := (life_reached hr₁ hversion).1 found hmem rfl
  refine wp_cohortRow fun d₂ cohort hr₂ hi₂ hcohort => ?_
  have hcid : cohort.id = found.cohortId := by simpa using List.find?_some hcohort
  simp only [assertScope, wp_require, implies_true, and_true]
  intro _ hlive
  refine wp_of_silent (keeps_assertActiveCode _ _) hi₂ fun _ S₃ d₃ hS₃ hr₃ hi₃ => ?_
  have hclock₃ : Lock.cohort found.cohortId ∈ S₃ := hS₃ (Set.mem_insert _ _)
  refine wp_versioned enrollmentsTable fun d₄ d₅ updated hr₄ hi₄ hat hr₅ hi₅ _ => ?_
  have hr₁₄ : lifeProtocol.Rely ∅ d₁ d₄ :=
    hr₂.trans ((hr₃.trans (hr₄.anti hS₃)).anti (Set.empty_subset _))
  have hmem₄ : found ∈ d₄.enrollments := life_seen hmem hle hr₁₄ hi₄ hat
  set S₅ : Set Lock := insert (.enrollment found.id) S₃
  set F : EnrollmentRow → EnrollmentRow := fun e =>
    { withdrawnRow env reasonCode e with version := e.version + 1 }
  have hclock₅ : Lock.cohort found.cohortId ∈ S₅ := Set.mem_insert_of_mem _ hclock₃
  have hmem₅ : found ∈ d₅.enrollments := life_locked (Set.mem_insert _ _) hr₅ hmem₄
  have hwithdrawn : ∀ T, S₅ ⊆ T → LifeStep T found (F found) := by
    intro T hT
    refine ⟨rfl, rfl, .inr ⟨hT (Set.mem_insert _ _), Nat.lt_succ_self _, ?_, .inl (hT hclock₅)⟩⟩
    revert hlive
    cases found.status <;> simp [EnrollmentStatus.live, EnrollmentStatus.next, F, withdrawnRow]
  -- What is left after the promotion only reads.
  have hclosing : ∀ (promotedId : Option Uuid) {T : Set Lock} {g : Db → Db} {d₆ : Db}, LifeInv d₆ →
      (∀ T' d', T ⊆ T' → lifeProtocol.Rely T d₆ d' → LifeInv d' →
        LifeGuar T' d' (g d') ∧ LifeInv (g d')) →
      lifeProtocol.wp lifeProtocol.Kept Anyway (do
        let presented ← present [updated.id]
        let promoted ← present promotedId.toList
        let enrollment ← Prog.expect presented.head? cohortErrors.enrollmentNotFound
        return ({ enrollment := enrollment, promoted := promoted.head? } : WithdrawResponse)) T g d₆ := by
    intro promotedId T g d₆ hi₆ hkept
    refine wp_of_silent (.bind (keeps_present _) fun _ => .bind (keeps_present _) fun _ =>
      .bind (.expect _ _) fun _ => .pure _) hi₆ fun _ S₇ d₇ hS₇ hr₇ _ d' hr' hi' => ?_
    exact hkept S₇ d' hS₇ (hr₇.trans (hr'.anti hS₇)) hi'
  have hunpromoted : ∀ {S₆ T : Set Lock} {g : Db → Db} {d₆ d' : Db}, S₅ ⊆ S₆ → S₆ ⊆ T →
      (∀ s, Db.places (g s) = s.places) → lifeProtocol.Rely S₅ d₅ d₆ →
      lifeProtocol.Rely S₆ d₆ d' → LifeInv d' →
      LifeGuar T d' (g (enrollmentsTable.bump found.id (withdrawnRow env reasonCode) d')) ∧
        LifeInv (g (enrollmentsTable.bump found.id (withdrawnRow env reasonCode) d')) := by
    intro S₆ T g d₆ d' hS₆ hT hg hr₆ hr' hi'
    have hmem' : found ∈ d'.enrollments :=
      life_locked (Set.mem_insert _ _) (hr₆.trans (hr'.anti hS₆)) hmem₅
    obtain ⟨hguar, hinv⟩ := life_of_change hi' hmem' (hwithdrawn T (hS₆.trans hT)) fun c _ =>
      CohortStatus.allows_of_dead rfl _
    exact ⟨.of_lives (lives_of_places (hg _)) hguar, .of_lives (lives_of_places (hg _)) hinv⟩
  simp only [← wp_bind]
  rw [wp_bind, wp_ite]
  refine ⟨fun hfree => wp_promoteWaiting ?_ ?_, fun _ => ?_⟩
  · intro promotedId S₆ g d₆ hS₆ hg hr₆ hi₆
    exact hclosing promotedId hi₆ fun T d' hT hr' hi' => hunpromoted hS₆ hT hg hr₆ hr' hi'
  · intro next S₆ g d₇ d₈ d₉ d₆ hS₆ hlock hg hr₇ hr₈ hr₉ hr₆ hi₆ _ hnext
    refine hclosing _ hi₆ fun T d' hT hr' hi' => ?_
    have hr₉' : lifeProtocol.Rely S₅ d₉ d' := hr₆.trans (hr'.anti hS₆)
    have hmem' : found ∈ d'.enrollments :=
      life_locked (Set.mem_insert _ _) (hr₇.trans (hr₈.trans (hr₉.trans hr₉'))) hmem₅
    obtain ⟨hin, hnc, hnw⟩ := mem_waitlist.1 hnext
    rw [hcid] at hnc
    -- Whoever waits in the client's view is not the one who leaves.
    obtain ⟨e, he, hchange⟩ : ∃ e ∈ d₉.enrollments, (if e.id == found.id then F e else e) = next :=
      mem_changeWhere.1 hin
    have hne : e.id ≠ found.id := by
      intro hid
      have hF : F e = next := by simpa [hid] using hchange
      simp [← hF, F, withdrawnRow] at hnw
    obtain rfl : e = next := by simpa [hne] using hchange
    have hnext' : e ∈ d'.enrollments := life_waiting (hnc ▸ hclock₅) hnw hr₉' he
    have hactive : found.status = .active := by
      have hboth := hfree
      simp only [Bool.and_eq_true, beq_iff_eq] at hboth
      exact hboth.1
    have hpromoted : LifeStep T e (promotedRow env e e) := by
      refine ⟨rfl, rfl, .inr ⟨hT hlock, Nat.lt_succ_self _, ?_, .inl ?_⟩⟩
      · simp [hnw, EnrollmentStatus.next, promotedRow]
      · rw [hnc]
        exact hT (hS₆ hclock₅)
    obtain ⟨hguar, hinv⟩ := life_of_changes (G := promotedRow env e) hi' hmem' hnext' hne
      (hwithdrawn T (hS₆.trans hT)) hpromoted (fun c _ => CohortStatus.allows_of_dead rfl _)
      fun c hc => by
        rw [hnc] at hc
        have hallowed := hi'.allowed found hmem' c hc
        rwa [hactive] at hallowed
    exact ⟨.of_lives (lives_of_places (hg _)) hguar, .of_lives (lives_of_places (hg _)) hinv⟩
  · exact hclosing none hi₅ fun T d' hT hr' hi' =>
      hunpromoted (g := id) subset_rfl hT (fun _ => rfl) .refl hr' hi'

/-- The count that `setStatus` makes before it ends a cohort. -/
theorem allows_of_count {next : CohortStatus} {cid : Uuid}
    (hcount : next = .cancelled ∨ next = .completed → d.activeCount cid +
      (if next == .cancelled then (d.inStatus cid .waitlisted).length else 0) = 0) :
    ∀ e ∈ d.enrollments, e.cohortId = cid → next.allows e.status = true := by
  intro e he hcid
  have hin : ∀ s, (d.inStatus cid s).length = 0 → e.status ≠ s := by
    intro s hzero hs
    have hmem : e ∈ d.inStatus cid s := List.mem_filter.2 ⟨he, by simp [hcid, hs]⟩
    exact List.not_mem_nil (List.eq_nil_of_length_eq_zero hzero ▸ hmem)
  cases next with
  | planned | «open» | running => rfl
  | completed =>
      have hzero : d.activeCount cid = 0 := by simpa using hcount (.inr rfl)
      simpa [CohortStatus.allows] using hin .active hzero
  | cancelled =>
      have hzero : d.activeCount cid = 0 ∧ (d.inStatus cid .waitlisted).length = 0 := by
        simpa using hcount (.inl rfl)
      have hactive := hin .active hzero.1
      have hwaiting := hin .waitlisted hzero.2
      cases hs : e.status <;> simp_all [CohortStatus.allows, EnrollmentStatus.live]

theorem setStatus_kept (cid : Uuid) (next : CohortStatus) (expectedVersion : ℕ)
    (grants : List Grant) :
    lifeProtocol.wp lifeProtocol.Kept Anyway
      (CohortsService.setStatus cid next expectedVersion grants) ∅ id d := by
  simp only [CohortsService.setStatus, wp_bind]
  refine wp_cohortRow fun d₁ before hr₁ hi₁ hbefore => ?_
  refine wp_of_silent (keeps_findWithDepartment _) hi₁ fun course S₂ d₂ hS₂ hr₂ hi₂ => ?_
  simp only [assertScope, wp_require, implies_true, and_true]
  intro _ htransition
  have hlock₂ : Lock.cohort cid ∈ S₂ := hS₂ (Set.mem_insert _ _)
  have hrest : ∀ d₃, lifeProtocol.Rely S₂ d₂ d₃ → LifeInv d₃ →
      (∀ e ∈ d₃.enrollments, e.cohortId = cid → next.allows e.status = true) →
      lifeProtocol.wp lifeProtocol.Kept Anyway (do
        let result ← updateWithVersion cohortsTable cid expectedVersion
          (CohortsService.statusRow next)
        let _ ← versionedRow result cohortErrors.cohortNotFound
        Prog.when (next == .cancelled) <| Prog.modify fun d =>
          { d with classSessions := d.classSessions.filter fun s => s.cohortId != cid }
        getCohort cid grants) S₂ id d₃ := by
    intro d₃ hr₃ hi₃ hallows
    simp only [wp_bind]
    refine wp_versioned cohortsTable fun d₄ d₅ row hr₄ hi₄ _ hr₅ hi₅ _ => ?_
    refine wp_of_keeps (φ := Db.lives) (.when _ (.modify fun _ => rfl)) hi₅
      fun _ S₆ g d₆ hS₆ hg hr₆ hi₆ => ?_
    refine wp_of_silent (keeps_getCohort _ _) hi₆ fun _ S₇ d₇ hS₇ hr₇ hi₇ d' hr' hi' => ?_
    have hS₂₆ : S₂ ⊆ S₆ := (Set.subset_insert _ _).trans hS₆
    have hr₃' : lifeProtocol.Rely S₂ d₃ d' := by
      refine hr₄.trans ((hr₅.trans hr₆).anti (Set.subset_insert _ _) |>.trans ?_)
      exact (hr₇.trans (hr'.anti hS₇)).anti hS₂₆
    have hrow : d'.cohort? cid = some before := by
      have hr₁' := hr₂.trans ((hr₃.trans hr₃').anti hS₂)
      exact (life_cohort (Set.mem_insert _ _) hr₁').trans hbefore
    obtain ⟨hguar, hinv⟩ := life_of_cohort (F := fun row =>
      { CohortsService.statusRow next row with version := row.version + 1 }) hi' (fun _ => rfl)
      (hS₇ (hS₂₆ hlock₂)) (fun c hc => by
        obtain rfl : before = c := Option.some.inj (hrow.symm.trans hc)
        exact .inr (by simpa [CohortsService.statusRow] using htransition))
      fun _ _ => life_allows hlock₂ hr₃' hallows
    exact ⟨.of_lives (hg _) hguar, .of_lives (hg _) hinv⟩
  simp only [← wp_bind]
  rw [wp_bind, wp_when]
  constructor
  · intro _
    simp only [wp_bind, wp_get, wp_require, implies_true, and_true]
    intro d₃ hr₃ hi₃ hzero
    simp only [← wp_bind]
    exact hrest d₃ hr₃ hi₃ (allows_of_count fun _ => by simpa using hzero)
  · intro hnot
    refine hrest d₂ .refl hi₂ (allows_of_count fun hends => ?_)
    rcases hends with rfl | rfl <;> simp at hnot

theorem update_kept (env : Env) (cid : Uuid) (input : UpdateCohortValues) (expectedVersion : ℕ)
    (grants : List Grant) :
    lifeProtocol.wp lifeProtocol.Kept Anyway
      (CohortsService.update env cid input expectedVersion grants) ∅ id d := by
  simp only [CohortsService.update, wp_bind]
  refine wp_cohortRow fun d₁ before hr₁ hi₁ hbefore => ?_
  refine wp_of_silent (keeps_findWithDepartment _) hi₁ fun course S₂ d₂ hS₂ hr₂ hi₂ => ?_
  simp only [assertScope, wp_require, implies_true, and_true]
  intro _ _ _
  refine wp_resolve hi₂ fun course' shift room S₃ d₃ d₄ hS₃ hr₃ hr₄ hi₄ _ => ?_
  refine wp_of_silent (.when _ (.require _ _)) hi₄ fun _ S₅ d₅ hS₅ hr₅ hi₅ => ?_
  simp only [wp_get, wp_require, implies_true, and_true]
  intro d₆ hr₆ hi₆ _
  refine wp_versioned cohortsTable fun d₇ d₈ row hr₇ hi₇ _ hr₈ hi₈ _ => ?_
  refine wp_of_silent (keeps_checkCohort _) hi₈ fun _ S₉ d₉ hS₉ hr₉ hi₉ => ?_
  refine wp_of_keeps (.when _ (.bind (keeps_generateSessions _ _ _) fun _ => .pure _)) hi₉
    fun _ S₁₀ g d₁₀ hS₁₀ hg hr₁₀ hi₁₀ => ?_
  refine wp_of_silent (keeps_getCohort _ _) hi₁₀ fun _ S₁₁ d₁₁ hS₁₁ hr₁₁ hi₁₁ d' hr' hi' => ?_
  have hlock : Lock.cohort cid ∈ S₁₁ :=
    hS₁₁ (hS₁₀ (hS₉ (Set.mem_insert_of_mem _ (hS₅ (hS₃ (hS₂ (Set.mem_insert _ _)))))))
  obtain ⟨hguar, hinv⟩ := life_of_cohort (F := fun row =>
    { input.apply row room.branchId with version := row.version + 1 }) hi' (fun _ => rfl) hlock
    (fun _ _ => .inl rfl) fun c hc e he hcid => hi'.allowed e he c (hcid ▸ hc)
  exact ⟨.of_lives (lives_of_places (hg _)) hguar, .of_lives (lives_of_places (hg _)) hinv⟩

theorem updateRoom_kept (rid : Uuid) (input : UpdateRoomRequest) (expectedVersion : ℕ)
    (hd : LifeInv d) :
    lifeProtocol.wp lifeProtocol.Kept Anyway (updateRoom rid input expectedVersion) ∅ id d := by
  have hkeeps : (updateRoom rid input expectedVersion).Keeps Db.lives :=
    .bind .get fun _ => .bind (.expect _ _) fun _ => keeps_versioned roomsTable fun _ => rfl
  refine wp_of_keeps hkeeps hd fun _ S g d₁ _ hg _ _ d' _ hi' => ?_
  exact ⟨.of_lives (hg _) (.refl d'), .of_lives (hg _) hi'⟩

/-! ## Every interleaving -/

/-- The If-Match version is not ahead of the enrollment's. A row that is not there
yet will come with version 1. -/
def Call.current : Call → Db → Prop
  | .withdraw _ id _ expectedVersion _, d | .recordResult _ id _ expectedVersion _, d =>
      expectedVersion ≤ ((d.enrollment? id).map EnrollmentRow.version).getD 1
  | _, _ => True

theorem reached_of_current {id : Uuid} {expectedVersion : ℕ} (hd : LifeInv d)
    (h : expectedVersion ≤ ((d.enrollment? id).map EnrollmentRow.version).getD 1) :
    Reached id expectedVersion d := by
  cases hrow : d.enrollment? id with
  | none =>
      have hnone : ∀ e ∈ d.enrollments, e.id ≠ id := by simpa using List.find?_eq_none.1 hrow
      refine ⟨fun e he hid => (hnone e he hid).elim, fun _ => ?_⟩
      simpa [hrow] using h
  | some e =>
      have hmem : e ∈ d.enrollments := List.mem_of_find?_eq_some hrow
      have hid : e.id = id := by simpa using List.find?_some hrow
      refine ⟨fun e' he' hid' => ?_, fun hnot => (hnot (hid ▸ List.mem_map_of_mem hmem)).elim⟩
      obtain rfl : e' = e := eq_of_key_eq hd.ids he' hmem (hid'.trans hid.symm)
      simpa [hrow] using h

theorem code_kept (call : Call) (d : Db) (hd : LifeInv d) (hcurrent : call.current d) :
    lifeProtocol.wp (lifeProtocol.Done fun _ _ _ => True) (lifeProtocol.Failed fun _ _ => True)
      call.code ∅ id d := by
  cases call with
  | enroll => exact done_of_kept _ (enroll_kept _ _ _ _)
  | withdraw => exact done_of_kept _ (withdraw_kept _ _ _ _ _ (reached_of_current hd hcurrent))
  | recordResult =>
      exact done_of_kept _ (recordResult_kept _ _ _ _ _ (reached_of_current hd hcurrent))
  | update => exact done_of_kept _ (update_kept _ _ _ _ _)
  | setStatus => exact done_of_kept _ (setStatus_kept _ _ _ _)
  | updateRoom => exact done_of_kept _ (updateRoom_kept _ _ _ hd)

/-- What happens to enrollments and cohorts from one committed store to the next. -/
structure Forward (d d' : Db) : Prop where
  enrollments : ∀ e ∈ d.enrollments, ∃ e' ∈ d'.enrollments, e'.id = e.id ∧
    (e'.status = e.status ∨ e'.status ∈ e.status.next)
  completed : ∀ id c, d.cohort? id = some c → c.status = .completed →
    ∃ c', d'.cohort? id = some c' ∧ c'.status = .completed

theorem forward_of_guar {d' : Db} (h : LifeGuar S d d') : Forward d d' where
  enrollments e he := by
    obtain ⟨e', he', hstep⟩ := h.rows.kept e he
    refine ⟨e', he', hstep.id, ?_⟩
    rcases hstep.change with rfl | ⟨-, -, hnext, -⟩
    · exact .inl rfl
    · exact .inr hnext
  completed id c hc hcompleted := by
    obtain ⟨c', hc', hstep⟩ := h.statuses id c hc
    refine ⟨c', hc', ?_⟩
    rcases hstep with heq | hnext
    · exact heq.trans hcompleted
    · simp [hcompleted, COHORT_TRANSITIONS] at hnext

/-- Where no request carries a version that is ahead of its enrollment's, every
change is along the edges and a cohort that is over stays empty. -/
theorem lifecycles_forward {ι : Type} [DecidableEq ι] {start w : World ι Call Db Lock Error Reply}
    (hidle : start.Idle) (hstart : LifeInv start.db)
    (hw : Admitted Call.code Call.current start w) :
    (∀ e ∈ w.db.enrollments, ∀ c, w.db.cohort? e.cohortId = some c →
      (c.status = .cancelled → e.status ≠ .active ∧ e.status ≠ .waitlisted) ∧
      (c.status = .completed → e.status ≠ .active)) ∧
    ∀ lab w', Step Call.code w lab w' → Forward w.db w'.db := by
  have hsafe := fun (call : Call) (d : Db) (hd : lifeProtocol.Inv d) => code_kept call d hd
  have hsound : lifeProtocol.Sound (fun _ _ _ _ => True) (fun _ _ _ => True) w :=
    (Sound.of_idle hidle hstart).admitted hsafe hw
  constructor
  · intro e he c hc
    have hallowed := hsound.inv.allowed e he c hc
    constructor
    · intro hstatus
      rw [hstatus] at hallowed
      cases hs : e.status <;> simp_all [CohortStatus.allows, EnrollmentStatus.live]
    · intro hstatus
      rw [hstatus] at hallowed
      simpa [CohortStatus.allows] using hallowed
  · intro lab w' hstep
    rcases hsound.change hstep with hdb | ⟨S, hguar⟩
    · rw [hdb]
      exact forward_of_guar (S := ∅) (.refl w.db)
    · exact forward_of_guar hguar

/-- A small class whose first student has the seat. -/
def seated : Db := (asks 1).after smallClass

theorem seated_inv : LifeInv seated := by
  have hrows : seated.enrollments.map (fun e => (e.id, e.cohortId, e.status)) = [(11, 1, .active)] ∧
      seated.cohorts.map CohortRow.status = [.open] := by decide
  obtain ⟨e, henrollments, he⟩ := List.map_eq_singleton_iff.1 hrows.1
  obtain ⟨c, hcohorts, hc⟩ := List.map_eq_singleton_iff.1 hrows.2
  constructor
  · simp [henrollments]
  · intro e' _ c' hc'
    have hmem : c' ∈ seated.cohorts := List.mem_of_find?_eq_some hc'
    obtain rfl : c' = c := by simpa [hcohorts] using hmem
    simp [hc, CohortStatus.allows]

def manager : List Grant := ⟨.cohortsManage, .global⟩ :: ⟨.cohortsRead, .global⟩ :: registrar

/-- The requests that teach the class and finish it. -/
def finishing : List Call :=
  [.recordResult {} 11 ⟨none, none⟩ 1 manager, .setStatus 1 .running 1 manager,
    .setStatus 1 .completed 2 manager]

/-- The class is finished, and nobody is active in it. -/
theorem lifecycles_forward_finished :
    let d := finishing.foldl (fun d call => call.after d) seated
    d.cohorts.map CohortRow.status = [.completed] ∧
      ∀ e ∈ d.enrollments, ∀ c, d.cohort? e.cohortId = some c → c.status = .completed →
        e.status ≠ .active := by
  have hcurrent : 1 ≤ ((seated.enrollment? 11).map EnrollmentRow.version).getD 1 := by
    decide
  have hresult : Admitted Call.code Call.current ⟨seated, fun _ => none⟩ _ :=
    Admitted.serve Call.code .start 1 (.recordResult {} 11 ⟨none, none⟩ 1 manager) hcurrent
      (code_transaction _)
  have hrunning := Admitted.serve Call.code hresult 2 (.setStatus 1 .running 1 manager) trivial
    (code_transaction _)
  have hcompleted := Admitted.serve Call.code hrunning 3 (.setStatus 1 .completed 2 manager) trivial
    (code_transaction _)
  refine ⟨by decide, fun e he c hc => ?_⟩
  exact ((lifecycles_forward (fun _ => rfl) seated_inv hcompleted).1 e he c hc).2

/-- A result whose guard has seen the student active is recorded after the
student has left, because the client sends the version that leaving gives. -/
theorem withdrawn_completed :
    LifeInv seated ∧ ∃ w w' : World Bool Call Db Lock Error Reply,
      Reachable Call.code ⟨seated, fun _ => none⟩ w ∧ Reachable Call.code w w' ∧
      w.db.enrollments.map (fun e => (e.id, e.status)) = [(11, .withdrawn)] ∧
      w'.db.enrollments.map (fun e => (e.id, e.status)) = [(11, .completed)] := by
  set left : Duo Call Db Lock Error Reply := (Duo.idle seated).play Call.code
    [.begins false (.recordResult {} 11 ⟨none, none⟩ 2 registrar), .turns false 1,
      .begins true (.withdraw {} 11 "moved" 1 registrar), .turns true 40] with hleft
  refine ⟨seated_inv, left.world, (left.play Call.code [.turns false 40]).world, ?_, ?_, ?_, ?_⟩
  · exact Duo.play_reachable Call.code (Duo.idle seated) _
  · exact Duo.play_reachable Call.code left _
  · decide
  · decide

end Emis.Cohorts
