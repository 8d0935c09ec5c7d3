import Emis.Cohorts.Effects
import Emis.Cohorts.Rules
import Emis.Cohorts.Seats

/-!
# No seat is sold twice

Each request of the cohort services keeps to the seat protocol, so every
interleaving of them does.
-/

namespace Emis.Cohorts

open Transactions Protocol EnrollmentsService

variable {S : Set Lock} {f : Db → Db} {d : Db} {α : Type}

/-- The request may be answered: what it has written is within the guarantee. -/
def Safe (_ : α) (S : Set Lock) (f : Db → Db) (d : Db) : Prop :=
  ∀ d', seatProtocol.Rely S d d' → SeatInv d' → SeatGuar S d' (f d') ∧ SeatInv (f d')

/-! ## Enrolling -/

/-- A student with no live place under the cohort's lock gets none from others. -/
theorem rely_noLive {studentId c : Uuid} {d' : Db} (hc : .cohort c ∈ S)
    (hr : seatProtocol.Rely S d d')
    (hnone : ∀ e ∈ d.enrollments, e.status.live → e.studentId = studentId → e.cohortId ≠ c) :
    ∀ e ∈ d'.enrollments, e.status.live → e.studentId = studentId → e.cohortId ≠ c := by
  intro e he hl hs hec
  have hroll : e ∈ d'.roll c := List.mem_filter.2 ⟨he, by simpa using hec⟩
  obtain ⟨e₀, he₀, hfades⟩ := rowwise_exists (rely_roll hc hr).flip hroll
  have hmem := List.mem_filter.1 he₀
  exact hnone e₀ hmem.1 (hfades.live hl) (hfades.student ▸ hs) (hfades.cohort ▸ hec)

theorem rely_activeCount {c : Uuid} {d' : Db} (hc : .cohort c ∈ S)
    (hr : seatProtocol.Rely S d d') : d'.activeCount c ≤ d.activeCount c := by
  rw [activeCount_eq, activeCount_eq]
  refine rowwise_countP (fun e e' hfades hactive => ?_) (rely_roll hc hr)
  rcases hfades.change with rfl | ⟨-, -, hdead⟩
  · exact hactive
  · have hstatus : e'.status = .active := by simpa using hactive
    simp [hstatus, EnrollmentStatus.live] at hdead

theorem enroll_safe (env : Env) (studentId cohortId : Uuid) (grants : List Grant) :
    seatProtocol.wp Safe Anyway (enroll env studentId cohortId grants) ∅ id d := by
  rw [enroll, wp_bind]
  refine wp_cohortRow fun d₁ cohort hr₁ hi₁ hcohort => ?_
  have hcid : cohort.id = cohortId := by simpa using List.find?_some hcohort
  set S₁ : Set Lock := insert (.cohort cohortId) ∅ with hS₁
  simp only [wp_bind, assertScope, wp_require, wp_get, wp_expect, implies_true, and_true]
  intro _ _ d₂ hr₂ hi₂ student _ _ d₃ hr₃ hi₃ _
  refine wp_of_silent (keeps_assertPrerequisites _ _) hi₃ fun _ S₄ d₄ hS₄ hr₄ hi₄ => ?_
  simp only [wp_get]
  intro d₅ hr₅ _ d₆ hr₆ _
  set hasSeat : Bool := decide ((id d₅).activeCount cohort.id < (id d₆).seatsOf cohort)
    with hseat
  have hlock₄ : .cohort cohortId ∈ S₄ := hS₄ (Set.mem_insert _ _)
  refine wp_insertEnrollment fun d₇ d₈ S₈ hS₈ hr₇ hr₈ hi₈ hfree hfresh => ?_
  refine wp_of_keeps (.when hasSeat (keeps_markEnrolled studentId)) hi₈
    fun _ S₉ g d₉ hS₉ hg hr₉ hi₉ => ?_
  refine wp_of_silent (keeps_present _) hi₉ fun _ S₁₀ d₁₀ hS₁₀ hr₁₀ hi₁₀ => ?_
  simp only [wp_expect, wp_pure, implies_true, and_true]
  intro _ _ d' hr' hi'
  -- From here on the cohort's lock and the new row's are held.
  have hS₄₈ : S₄ ⊆ S₈ := hS₈ ▸ (Set.subset_insert _ _).trans (Set.subset_insert _ _)
  have hr₈' : seatProtocol.Rely S₈ d₈ d' :=
    ((hr₉.trans (hr₁₀.anti hS₉)).trans (hr'.anti (hS₉.trans hS₁₀)))
  have hr₅' : seatProtocol.Rely S₄ d₅ d' :=
    (hr₆.trans hr₇).trans (hr₈.trans (hr₈'.anti hS₄₈))
  have hr₁' : seatProtocol.Rely S₁ d₁ d' :=
    (hr₂.trans (hr₃.trans hr₄)).trans ((hr₅.trans hr₅').anti hS₄)
  have hrow : d'.cohort? cohortId = some cohort :=
    (rely_cohort (Set.mem_insert _ _) hr₁').trans hcohort
  set row := newEnrollment env studentId cohort.id hasSeat 
  have hplaces : ((g ∘ (fun d : Db => { d with enrollments := d.enrollments ++ [row] }) ∘ id) d').places =
      Db.places { d' with enrollments := d'.enrollments ++ [row] } := hg _
  have hrowc : row.cohortId = cohortId := hcid
  have hlocks : .cohort row.cohortId ∈ S₁₀ ∧ .enrollment row.id ∈ S₁₀ := by
    refine ⟨hrowc ▸ (hS₄₈.trans (hS₉.trans hS₁₀)) hlock₄, (hS₉.trans hS₁₀) ?_⟩
    rw [hS₈]
    exact Set.mem_insert _ _
  refine ⟨.of_places hplaces (guar_of_insert hlocks.1 hlocks.2), .of_places hplaces ?_⟩
  refine inv_of_insert hi' ?_ (fun hl => ?_) fun hactive c hc => ?_
  · exact rely_fresh (by rw [hS₈]; exact Set.mem_insert _ _) hr₈' hfresh
  · have hnone := hfree hl
    rw [hrowc] at hnone ⊢
    exact rely_noLive hlock₄ (hr₈.trans (hr₈'.anti hS₄₈)) hnone
  · have hlt : d₅.activeCount cohortId < d₆.seatsOf cohort := by
      have hyes : hasSeat = true := by
        change (if hasSeat then EnrollmentStatus.active else .waitlisted) = .active at hactive
        by_contra hno
        simp [hno] at hactive
      simpa only [hseat, id_eq, decide_eq_true_eq, hcid] using hyes
    rw [hrowc] at hc ⊢
    obtain rfl : cohort = c := Option.some.inj (hrow.symm.trans hc)
    have hcount := rely_activeCount hlock₄ hr₅'
    rw [rely_seatsOf (hr₇.trans (hr₈.trans (hr₈'.anti hS₄₈))) cohort]
    omega

/-! ## Results -/

/-- A row that does not wait never will. -/
theorem rely_notWaiting {id : Uuid} {d' : Db} (hr : seatProtocol.Rely S d d')
    (hi : SeatInv d') (h : ∃ e ∈ d.enrollments, e.id = id ∧ e.status ≠ .waitlisted) :
    ∀ e ∈ d'.enrollments, e.id = id → e.status ≠ .waitlisted := by
  obtain ⟨e', he', hid', hw'⟩ := rely_row (fun T e e' _ _ hstep hw => by
    rcases hstep.change with rfl | ⟨-, hnew, -⟩
    · exact hw
    · exact hnew) hr h
  intro e he hid
  obtain rfl := eq_of_key_eq hi.ids he he' (hid.trans hid'.symm)
  exact hw'

theorem recordResult_safe (env : Env) (eid : Uuid) (input : RecordResultValues)
    (expectedVersion : ℕ) (grants : List Grant) :
    seatProtocol.wp Safe Anyway (recordResult env eid input expectedVersion grants) ∅ id d := by
  simp only [recordResult, row, wp_bind, wp_get, wp_expect, implies_true, and_true]
  intro d₁ hr₁ hi₁ found hfound
  refine wp_of_silent (keeps_cohortRow _ _) hi₁ fun cohort S₂ d₂ hS₂ hr₂ hi₂ => ?_
  refine wp_of_silent (keeps_findWithDepartment _) hi₂ fun course S₃ d₃ hS₃ hr₃ hi₃ => ?_
  simp only [wp_expect, assertScope, wp_require, implies_true, and_true]
  intro course _ _ hactive
  -- The status comes from the completion rules and is never a live one.
  have hrest : ∀ status : EnrollmentStatus, status.live = false →
      seatProtocol.wp Safe Anyway (do
        let result ← updateWithVersion enrollmentsTable eid expectedVersion
          (resultRow env status input)
        let updated ← versionedRow result cohortErrors.enrollmentNotFound
        checkResult input
        let presented ← present [updated.id]
        Prog.expect presented.head? cohortErrors.enrollmentNotFound) S₃ id d₃ := by
    intro status hdead
    simp only [wp_bind]
    refine wp_versioned enrollmentsTable fun d₄ d₅ updated hr₄ hi₄ _ hr₅ hi₅ _ => ?_
    refine wp_of_silent (keeps_checkResult _) hi₅ fun _ S₆ d₆ hS₆ hr₆ hi₆ => ?_
    refine wp_of_silent (keeps_present _) hi₆ fun presented S₇ d₇ hS₇ hr₇ hi₇ => ?_
    simp only [wp_expect, implies_true, and_true]
    intro _ _ d' hr' hi'
    have hlock : Lock.enrollment eid ∈ S₇ := hS₇ (hS₆ (Set.mem_insert _ _))
    have hr : seatProtocol.Rely ∅ d₁ d' := by
      refine (hr₂.trans (hr₃.anti hS₂)).trans ?_
      exact ((hr₄.trans (hr₅.anti (Set.subset_insert _ _))).anti (Set.empty_subset _)).trans
        ((hr₆.trans ((hr₇.anti hS₆).trans (hr'.anti (hS₆.trans hS₇)))).anti (Set.empty_subset _))
    have hfound' : ∃ e ∈ d₁.enrollments, e.id = eid ∧ e.status ≠ .waitlisted := by
      refine ⟨found, List.mem_of_find?_eq_some hfound, by simpa using List.find?_some hfound, ?_⟩
      have hstatus : found.status = .active := by simpa using hactive
      simp [hstatus]
    have hnot := rely_notWaiting hr hi' hfound'
    exact ended_of_change hi' (fun _ => rfl) (fun _ => rfl) (fun _ => rfl) (fun _ => hdead) hlock
      fun e he hid => .inr (hnot e he hid)
  cases evaluateCompletion course.course input.score input.attendancePercent with
  | incomplete missing => trivial
  | passed => exact hrest .completed rfl
  | failed reasons => exact hrest .failed rfl

/-! ## Leaving -/

/-- A row keeps its cohort. -/
theorem rely_cohortId {eid c : Uuid} {d' : Db} (hr : seatProtocol.Rely S d d') (hi : SeatInv d')
    (h : ∃ e ∈ d.enrollments, e.id = eid ∧ e.cohortId = c) :
    ∀ e ∈ d'.enrollments, e.id = eid → e.cohortId = c := by
  obtain ⟨e', he', hid', hc'⟩ := rely_row (fun T e e' _ _ hstep hc => hstep.cohort.trans hc) hr h
  intro e he hid
  obtain rfl := eq_of_key_eq hi.ids he he' (hid.trans hid'.symm)
  exact hc'

/-- Seats counted in the view of a client that has withdrawn a row. -/
theorem rely_activeCount_changed {F : EnrollmentRow → EnrollmentRow} {eid c : Uuid} {d' : Db}
    (hcohort : ∀ e, (F e).cohortId = e.cohortId) (hdead : ∀ e, (F e).status.live = false)
    (hc : .cohort c ∈ S) (hr : seatProtocol.Rely S d d') :
    Db.activeCount { d' with
        enrollments := changeWhere (fun e => e.id == eid) F d'.enrollments } c ≤
      Db.activeCount { d with
        enrollments := changeWhere (fun e => e.id == eid) F d.enrollments } c := by
  set h : EnrollmentRow → EnrollmentRow := fun e => if e.id == eid then F e else e with hh
  have hcohort' : ∀ e, (h e).cohortId = e.cohortId := fun e => by
    by_cases he : e.id = eid <;> simp [hh, he, hcohort]
  have hroll : ∀ d : Db, Db.roll { d with
      enrollments := changeWhere (fun e => e.id == eid) F d.enrollments } c = (d.roll c).map h :=
    fun d => roll_map hcohort' c
  rw [activeCount_eq, activeCount_eq, hroll, hroll, List.countP_map, List.countP_map]
  refine rowwise_countP (fun e e' hfades hactive => ?_) (rely_roll hc hr)
  rcases hfades.change with rfl | ⟨-, -, hdead'⟩
  · exact hactive
  · have hlive : (h e').status = .active := by simpa using hactive
    by_cases he : e'.id = eid
    · have hF : (F e').status = .active := by simpa [hh, he] using hlive
      simpa [hF, EnrollmentStatus.live] using hdead e'
    · have hF : e'.status = .active := by simpa [hh, he] using hlive
      simp [hF, EnrollmentStatus.live] at hdead'

/-- The student whom `promoteWaiting` picked in the view of a client that has
withdrawn a row still waits when the client commits. -/
theorem rely_next {F : EnrollmentRow → EnrollmentRow} {eid c : Uuid} {d' : Db}
    {next : EnrollmentRow} (hdead : ∀ e, (F e).status.live = false)
    (hc : .cohort c ∈ S) (hr : seatProtocol.Rely S d d')
    (hnext : next ∈ Db.waitlist { d with
      enrollments := changeWhere (fun e => e.id == eid) F d.enrollments } c) :
    next ∈ Db.waitlist { d' with
      enrollments := changeWhere (fun e => e.id == eid) F d'.enrollments } c := by
  obtain ⟨hmem, hnc, hnw⟩ := mem_waitlist.1 hnext
  obtain ⟨e, he, hchange⟩ := mem_changeWhere.1 hmem
  by_cases hid : e.id = eid
  · have hF : F e = next := by simpa [hid] using hchange
    have hnot := hdead e
    rw [hF, hnw] at hnot
    simp [EnrollmentStatus.live] at hnot
  · obtain rfl : e = next := by simpa [hid] using hchange
    have hroll : e ∈ d.roll c := List.mem_filter.2 ⟨he, by simpa using hnc⟩
    obtain ⟨e', he', hfades⟩ := rowwise_exists (rely_roll hc hr) hroll
    obtain rfl := hfades.eq_of_waitlisted (.inl hnw)
    refine mem_waitlist.2 ⟨mem_changeWhere.2 ⟨e', (List.mem_filter.1 he').1, ?_⟩, hnc, hnw⟩
    simp [hid]

theorem withdraw_safe (env : Env) (eid : Uuid) (reasonCode : String) (expectedVersion : ℕ)
    (grants : List Grant) :
    seatProtocol.wp Safe Anyway (withdraw env eid reasonCode expectedVersion grants) ∅ id d := by
  simp only [withdraw, row, wp_bind, wp_get, wp_expect, implies_true, and_true]
  intro d₁ hr₁ hi₁ found hfound
  refine wp_cohortRow fun d₂ cohort hr₂ hi₂ hcohort => ?_
  have hcid : cohort.id = found.cohortId := by simpa using List.find?_some hcohort
  simp only [assertScope, wp_require, implies_true, and_true]
  intro _ _
  refine wp_of_silent (keeps_assertActiveCode _ _) hi₂ fun _ S₃ d₃ hS₃ hr₃ hi₃ => ?_
  have hclock₃ : Lock.cohort found.cohortId ∈ S₃ := hS₃ (Set.mem_insert _ _)
  refine wp_versioned enrollmentsTable fun d₄ d₅ updated hr₄ hi₄ _ hr₅ hi₅ _ => ?_
  set S₅ : Set Lock := insert (.enrollment eid) S₃ with hS₅
  set F : EnrollmentRow → EnrollmentRow := fun e =>
    { withdrawnRow env reasonCode e with version := e.version + 1 } with hF
  set w : Db → Db := fun d =>
    { d with enrollments := changeWhere (fun e => e.id == eid) F d.enrollments } with hw
  have hclock₅ : Lock.cohort found.cohortId ∈ S₅ := Set.mem_insert_of_mem _ hclock₃
  have hrow₅ : d₅.cohort? found.cohortId = some cohort :=
    (rely_cohort (Set.mem_insert _ _) ((hr₃.trans (hr₄.anti hS₃)).trans
      (hr₅.anti (hS₃.trans (Set.subset_insert _ _))))).trans hcohort
  -- Withdrawing is safe whatever comes after it under the two locks.
  have hwithdrawn : ∀ {T d'}, S₅ ⊆ T → seatProtocol.Rely S₅ d₅ d' → SeatInv d' →
      SeatGuar T d' (w d') ∧ SeatInv (w d') := by
    intro T d' hT hr hi
    have hall : seatProtocol.Rely ∅ d₁ d' := by
      refine hr₂.trans ?_
      refine (hr₃.anti (Set.empty_subset _)).trans ((hr₄.anti (Set.empty_subset _)).trans ?_)
      exact (hr₅.trans hr).anti (Set.empty_subset _)
    have hkept := rely_cohortId hall hi ⟨found, List.mem_of_find?_eq_some hfound,
      by simpa using List.find?_some hfound, rfl⟩
    refine ended_of_change hi (fun _ => rfl) (fun _ => rfl) (fun _ => rfl) (fun _ => rfl)
      (hT (Set.mem_insert _ _)) fun e he hid => .inl ?_
    rw [hkept e he hid]
    exact hT hclock₅
  -- The answer only reads.
  have hclosing : ∀ (promotedId : Option Uuid) {T : Set Lock} {g : Db → Db} {d₆ : Db},
      SeatInv d₆ → (∀ T', T ⊆ T' → ∀ d', seatProtocol.Rely T d₆ d' → SeatInv d' →
        SeatGuar T' d' (g d') ∧ SeatInv (g d')) →
      seatProtocol.wp (fun presented => seatProtocol.wp (fun promoted =>
          seatProtocol.wp (fun enrollment => seatProtocol.wp Safe Anyway
            (pure { enrollment := enrollment, promoted := promoted.head? } : Tx WithdrawResponse))
            Anyway (Prog.expect presented.head? cohortErrors.enrollmentNotFound))
          Anyway (present promotedId.toList))
        Anyway (present [updated.id]) T g d₆ := by
    intro promotedId T g d₆ hi₆ hsafe
    refine wp_of_silent (keeps_present _) hi₆ fun presented S₇ d₇ hS₇ hr₇ hi₇ => ?_
    refine wp_of_silent (keeps_present _) hi₇ fun promoted S₈ d₈ hS₈ hr₈ hi₈ => ?_
    simp only [wp_expect, wp_pure, implies_true, and_true]
    intro _ _ d' hr' hi'
    exact hsafe S₈ (hS₇.trans hS₈) d'
      ((hr₇.trans (hr₈.anti hS₇)).trans (hr'.anti (hS₇.trans hS₈))) hi'
  rw [wp_ite]
  refine ⟨fun _ => wp_promoteWaiting ?_ ?_, fun _ => ?_⟩
  · intro a S₆ g d₆ hS₆ hg hr₆ hi₆
    refine hclosing a hi₆ fun T hT d' hr' hi' => ?_
    have hsafe := hwithdrawn (hS₆.trans hT) (hr₆.trans (hr'.anti hS₆)) hi'
    exact ⟨.of_places (hg _) hsafe.1, .of_places (hg _) hsafe.2⟩
  · intro next S₆ g d₇ d₈ d₉ d₆ hS₆ hlock hg hr₇ hr₈ hr₉ hr₆ hi₆ hfree hnext
    refine hclosing _ hi₆ fun T hT d' hr' hi' => ?_
    have hr₉' : seatProtocol.Rely S₅ d₉ d' := hr₆.trans (hr'.anti hS₆)
    have hr₈' : seatProtocol.Rely S₅ d₈ d' := hr₉.trans hr₉'
    have hr₇' : seatProtocol.Rely S₅ d₇ d' := hr₈.trans hr₈'
    obtain ⟨hguar, hinv⟩ := hwithdrawn (hS₆.trans hT) (hr₇.trans hr₇') hi'
    rw [hcid] at hfree hnext
    have hnext' : next ∈ (w d').waitlist found.cohortId :=
      rely_next (fun _ => rfl) hclock₅ hr₉' hnext
    have hcount : (w d').activeCount found.cohortId ≤ (w d₇).activeCount found.cohortId :=
      rely_activeCount_changed (fun _ => rfl) (fun _ => rfl) hclock₅ hr₇'
    have hfree' : ∀ row, (w d').cohort? found.cohortId = some row →
        (w d').activeCount found.cohortId < (w d').seatsOf row := by
      intro row hrow
      have hrow' : d'.cohort? found.cohortId = some cohort :=
        (rely_cohort hclock₅ (hr₇.trans hr₇')).trans hrow₅
      obtain rfl : cohort = row := Option.some.inj (hrow'.symm.trans hrow)
      have hseats : (w d').seatsOf cohort = (w d₈).seatsOf cohort := rely_seatsOf hr₈' cohort
      rw [hseats]
      exact Nat.lt_of_le_of_lt hcount hfree
    obtain ⟨hguar', hinv'⟩ := safe_of_promotion (F := promotedRow env next) hinv (fun _ => rfl)
      (fun _ => rfl) (fun _ => rfl) (fun _ => rfl) hnext' (hT hlock) (hT (hS₆ hclock₅)) hfree'
    exact ⟨.of_places (hg _) (hguar.trans hguar'), .of_places (hg _) hinv'⟩
  · rw [wp_pure]
    exact hclosing none hi₅ fun T hT d' hr' hi' => hwithdrawn hT hr' hi'

/-! ## Changing cohorts and rooms -/

theorem update_safe (env : Env) (cid : Uuid) (input : UpdateCohortValues) (expectedVersion : ℕ)
    (grants : List Grant) :
    seatProtocol.wp Safe Anyway (CohortsService.update env cid input expectedVersion grants) ∅ id d := by
  simp only [CohortsService.update, wp_bind]
  refine wp_cohortRow fun d₁ before hr₁ hi₁ hbefore => ?_
  refine wp_of_silent (keeps_findWithDepartment _) hi₁ fun course S₂ d₂ hS₂ hr₂ hi₂ => ?_
  simp only [assertScope, wp_require, implies_true, and_true]
  intro _ _ _
  refine wp_resolve hi₂ fun course' shift room S₃ d₃ d₄ hS₃ hr₃ hr₄ hi₄ hroom => ?_
  refine wp_of_silent (.when _ (.require _ _)) hi₄ fun _ S₅ d₅ hS₅ hr₅ hi₅ => ?_
  simp only [wp_get, wp_require, implies_true, and_true]
  intro d₆ hr₆ _ henough
  refine wp_versioned cohortsTable fun d₇ d₈ row hr₇ hi₇ _ hr₈ hi₈ _ => ?_
  refine wp_of_silent (keeps_checkCohort _) hi₈ fun _ S₉ d₉ hS₉ hr₉ hi₉ => ?_
  refine wp_of_keeps (.when _ (.bind (keeps_generateSessions _ _ _) fun _ => .pure _)) hi₉
    fun _ S₁₀ g d₁₀ hS₁₀ hg hr₁₀ hi₁₀ => ?_
  refine wp_of_silent (keeps_getCohort _ _) hi₁₀ fun _ S₁₁ d₁₁ hS₁₁ hr₁₁ hi₁₁ d' hr' hi' => ?_
  have hlock₅ : Lock.cohort cid ∈ S₅ := hS₅ (hS₃ (hS₂ (Set.mem_insert _ _)))
  have hS₅₉ : S₅ ⊆ S₉ := (Set.subset_insert _ _).trans hS₉
  have hr₆' : seatProtocol.Rely S₅ d₆ d' := by
    refine (hr₇.trans (hr₈.anti (Set.subset_insert _ _))).trans ?_
    refine (hr₉.anti (Set.subset_insert _ _)).trans ((hr₁₀.anti hS₅₉).trans ?_)
    exact (hr₁₁.trans (hr'.anti hS₁₁)).anti (hS₅₉.trans hS₁₀)
  have hr₃' : seatProtocol.Rely S₂ d₃ d' :=
    (hr₄.anti hS₃).trans (((hr₅.trans (hr₆.anti hS₅)).trans (hr₆'.anti hS₅)).anti hS₃)
  have hr₁' : seatProtocol.Rely (insert (.cohort cid) ∅) d₁ d' :=
    hr₂.trans ((hr₃.trans hr₃').anti hS₂)
  have hrow : d'.cohort? cid = some before :=
    (rely_cohort (Set.mem_insert _ _) hr₁').trans hbefore
  have hroomId : room.id = input.roomId.getD before.roomId := by
    simpa using List.find?_some hroom
  have hcapacity : (d'.room? room.id).map RoomRow.capacity = some room.capacity := by
    rw [hroomId, rely_capacity hr₃']
    exact congrArg (Option.map RoomRow.capacity) hroom
  obtain ⟨hguar, hinv⟩ := safe_of_cohort (F := fun row =>
    { input.apply row room.branchId with version := row.version + 1 }) hi' (fun _ => rfl)
    (hS₁₁ (hS₁₀ (hS₅₉ hlock₅))) fun row hrow' => by
      obtain rfl : before = row := Option.some.inj (hrow.symm.trans hrow')
      have hcount : d'.activeCount cid ≤ d₆.activeCount cid := rely_activeCount hlock₅ hr₆'
      refine Nat.le_trans hcount ?_
      simp only [Db.seatsOf, UpdateCohortValues.apply, ← hroomId, hcapacity, Option.getD_some]
      exact of_decide_eq_true henough
  exact ⟨.of_places (hg _) hguar, .of_places (hg _) hinv⟩

theorem setStatus_safe (cid : Uuid) (next : CohortStatus) (expectedVersion : ℕ)
    (grants : List Grant) :
    seatProtocol.wp Safe Anyway (CohortsService.setStatus cid next expectedVersion grants) ∅ id d := by
  simp only [CohortsService.setStatus, wp_bind]
  refine wp_cohortRow fun d₁ before hr₁ hi₁ hbefore => ?_
  refine wp_of_silent (keeps_findWithDepartment _) hi₁ fun course S₂ d₂ hS₂ hr₂ hi₂ => ?_
  simp only [assertScope, wp_require, implies_true, and_true]
  intro _ _
  refine wp_of_silent (.when _ (.bind .get fun _ => .require _ _)) hi₂ fun _ S₃ d₃ hS₃ hr₃ hi₃ => ?_
  refine wp_versioned cohortsTable fun d₄ d₅ row hr₄ hi₄ _ hr₅ hi₅ _ => ?_
  refine wp_of_keeps (φ := Db.places) (.when _ (.modify fun _ => rfl)) hi₅
    fun _ S₆ g d₆ hS₆ hg hr₆ hi₆ => ?_
  refine wp_of_silent (keeps_getCohort _ _) hi₆ fun _ S₇ d₇ hS₇ hr₇ hi₇ d' hr' hi' => ?_
  have hlock : Lock.cohort cid ∈ S₇ :=
    hS₇ (hS₆ (Set.mem_insert_of_mem _ (hS₃ (hS₂ (Set.mem_insert _ _)))))
  obtain ⟨hguar, hinv⟩ := safe_of_cohort (F := fun row =>
    { CohortsService.statusRow next row with version := row.version + 1 }) hi' (fun _ => rfl) hlock
    fun row hrow => hi'.seats cid row hrow
  exact ⟨.of_places (hg _) hguar, .of_places (hg _) hinv⟩

theorem updateRoom_safe (rid : Uuid) (input : UpdateRoomRequest) (expectedVersion : ℕ)
    (hcapacity : input.capacity = none) :
    seatProtocol.wp Safe Anyway (updateRoom rid input expectedVersion) ∅ id d := by
  simp only [updateRoom, wp_bind, wp_get, wp_expect, implies_true, and_true]
  intro d₁ hr₁ hi₁ found _
  refine wp_versioned roomsTable fun d₂ d₃ row hr₂ hi₂ _ hr₃ hi₃ _ d' hr' hi' => ?_
  exact safe_of_room hi' (fun _ => rfl) fun r => by simp [roomsTable, UpdateRoomRequest.apply, hcapacity]

/-! ## Every interleaving -/

/-- The call does not touch the capacity of a room. -/
def Call.fixesCapacities : Call → Prop
  | .updateRoom _ input _ => input.capacity = none
  | _ => True

abbrev SeatCall := { c : Call // c.fixesCapacities }

def SeatCall.code (call : SeatCall) : Tx Reply := call.1.code

theorem code_safe (call : SeatCall) (d : Db) :
    seatProtocol.wp (seatProtocol.Done fun _ _ _ => True) (seatProtocol.Failed fun _ _ => True)
      call.code ∅ id d := by
  have hmap : ∀ {β : Type} {p : Tx β} {g : β → Reply}, seatProtocol.wp Safe Anyway p ∅ id d →
      seatProtocol.wp (seatProtocol.Done fun _ _ _ => True)
        (seatProtocol.Failed fun _ _ => True) (g <$> p) ∅ id d := by
    intro β p g hp
    rw [wp_map]
    refine wp_mono (fun a S f d hsafe d' hr hi => ?_) (fun _ _ _ _ _ _ _ => trivial) hp
    obtain ⟨hguar, hinv⟩ := hsafe d' hr hi
    exact ⟨hguar, hinv, trivial⟩
  obtain ⟨call, hcall⟩ := call
  cases call with
  | enroll => exact hmap (enroll_safe _ _ _ _)
  | withdraw => exact hmap (withdraw_safe _ _ _ _ _)
  | recordResult => exact hmap (recordResult_safe _ _ _ _ _)
  | update => exact hmap (update_safe _ _ _ _ _)
  | setStatus => exact hmap (setStatus_safe _ _ _ _)
  | updateRoom => exact hmap (updateRoom_safe _ _ _ hcall)

/-- The seat invariant of every world that clients of the cohort services reach. -/
theorem seatInv_of_reachable {ι : Type} [DecidableEq ι]
    {start w : World ι SeatCall Db Lock Error Reply}
    (hidle : start.Idle) (hinv : SeatInv start.db)
    (hw : Reachable SeatCall.code start w) : SeatInv w.db :=
  (Sound.reachable (fun q d _ => code_safe q d) (.of_idle hidle hinv) hw).inv

/-- A live enrollment of a student in a cohort. -/
def Db.livePlaces (d : Db) (studentId cohortId : Uuid) : List EnrollmentRow :=
  d.enrollments.filter fun e =>
    e.studentId == studentId && e.cohortId == cohortId && e.status.live

theorem SeatInv.one_place {d : Db} (hd : SeatInv d) (studentId cohortId : Uuid) :
    (d.livePlaces studentId cohortId).length ≤ 1 := by
  have hnodup : (d.livePlaces studentId cohortId).Nodup := (List.Nodup.of_map _ hd.ids).filter _
  cases hlist : d.livePlaces studentId cohortId with
  | nil => simp
  | cons e rest =>
      cases rest with
      | nil => simp
      | cons e' rest =>
          have hmem : ∀ x ∈ [e, e'], x ∈ d.enrollments ∧ x.studentId = studentId ∧
              x.cohortId = cohortId ∧ x.status.live := by
            intro x hx
            have hx' : x ∈ d.livePlaces studentId cohortId := by
              rw [hlist]
              simp only [List.mem_cons] at hx ⊢
              tauto
            simpa [Db.livePlaces, and_assoc] using hx'
          obtain ⟨he, hs, hc, hl⟩ := hmem e (by simp)
          obtain ⟨he', hs', hc', hl'⟩ := hmem e' (by simp)
          have heq := eq_of_key_eq hd.ids he he'
            (hd.live e he e' he' hl hl' (hs.trans hs'.symm) (hc.trans hc'.symm))
          rw [hlist, heq] at hnodup
          simp at hnodup

/-- Seats are never oversold, nobody has two live places in a cohort, and those
who wait for it are numbered 1, 2, … in the order in which they joined. -/
theorem seats_never_oversold {ι : Type} [DecidableEq ι]
    {start w : World ι SeatCall Db Lock Error Reply}
    (hidle : start.Idle) (hinv : SeatInv start.db)
    (hw : Reachable SeatCall.code start w) :
    (∀ id row, w.db.cohort? id = some row →
      (w.db.inStatus id .active).length ≤
        min row.maxSize (((w.db.room? row.roomId).map RoomRow.capacity).getD row.maxSize)) ∧
    (∀ studentId cohortId, (w.db.livePlaces studentId cohortId).length ≤ 1) ∧
    ∀ cohortIds, ∀ cohortId ∈ cohortIds,
      (w.db.waitlist cohortId).Perm (w.db.inStatus cohortId .waitlisted) ∧
      (w.db.waitlist cohortId).Pairwise waitsBefore ∧
      (w.db.waitlist cohortId).map (fun e => w.db.positions cohortIds e.id) =
        (List.range' 1 (w.db.waitlist cohortId).length).map some := by
  have hw' := seatInv_of_reachable hidle hinv hw
  refine ⟨hw'.seats, hw'.one_place, fun cohortIds cohortId hc => ?_⟩
  exact ⟨waitlist_perm cohortId, waitlist_sorted cohortId, positions_waitlist hw'.ids hc⟩

/-- Two students ask for the one seat of a class. -/
theorem seats_never_oversold_smallClass :
    let d := (asks 2).after ((asks 1).after smallClass)
    (d.inStatus 1 .active).length ≤ min 1 1 ∧ (d.livePlaces 2 1).length ≤ 1 ∧
      (d.waitlist 1).map (fun e => d.positions [1] e.id) = [some 1] := by
  have hstart : SeatInv smallClass := ⟨by decide, fun _ _ _ => Nat.zero_le _, by simp [smallClass]⟩
  have hfirst : Reachable SeatCall.code (⟨smallClass, fun _ => none⟩ : World ℕ _ _ _ _ _)
      ⟨(asks 1).after smallClass, fun _ => none⟩ :=
    Reachable.serve _ .start 1 (⟨asks 1, trivial⟩ : SeatCall) (code_transaction _)
  have hboth := Reachable.serve _ hfirst 2 (⟨asks 2, trivial⟩ : SeatCall) (code_transaction _)
  obtain ⟨hseats, hplaces, hpositions⟩ := seats_never_oversold (fun _ => rfl) hstart hboth
  exact ⟨hseats 1 _ rfl, hplaces 2 1, (hpositions [1] 1 (by simp)).2.2⟩

end Emis.Cohorts
