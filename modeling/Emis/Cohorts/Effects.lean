import Emis.Cohorts.Calls
import Emis.Cohorts.Frames
import Emis.Cohorts.Waitlist

/-!
# What a request does when nobody else is around

One lemma for each request: when it is accepted, what it has checked and what it
has written to the tables that decide who has a seat.
-/

namespace Emis.Cohorts

open Transactions Prog EnrollmentsService

variable {v : Db}

/-- The same enrollments and seats as in `d'`. -/
def SamePlaces (d d' : Db) : Prop := d.places = d'.places

theorem wlp_cohortRow {Φ : CohortRow → Db → Prop} {id : Uuid} {forUpdate : Bool}
    (h : ∀ row, v.cohort? id = some row → Φ row v) :
    (cohortRow id forUpdate).wlp Φ (fun _ => True) v := by
  cases forUpdate <;> simpa [cohortRow] using h

/-- A program that only reads leaves the store as it is. -/
theorem wlp_of_silent {α : Type} {p : Tx α} (hp : p.Keeps id) {Φ : α → Db → Prop}
    (h : ∀ a, Φ a v) : p.wlp Φ (fun _ => True) v :=
  hp.wlp (fun a v' hv' => by obtain rfl : v' = v := hv'; exact h a) fun _ => trivial

/-! ## Enrolling -/

/-- An accepted `enroll` adds one row: active if a seat is free, else waiting. -/
structure Enrolled (d d' : Db) (cohort : CohortRow) (row : EnrollmentRow) : Prop where
  found : d.cohort? row.cohortId = some cohort
  enrolling : cohort.status = .open ∨ cohort.status = .running
  fresh : row.id ∉ d.enrollments.map EnrollmentRow.id
  seat : row.status = .active ∧ d.activeCount row.cohortId < d.seatsOf cohort ∨
    row.status = .waitlisted ∧ d.seatsOf cohort ≤ d.activeCount row.cohortId
  rows : SamePlaces d' { d with enrollments := d.enrollments ++ [row] }

theorem wlp_insertEnrollment {Φ : Unit → Db → Prop} {row : EnrollmentRow}
    (h : row.id ∉ v.enrollments.map EnrollmentRow.id →
      Φ () { v with enrollments := v.enrollments ++ [row] }) :
    (insertEnrollment row).wlp Φ (fun _ => True) v := by
  simp only [insertEnrollment, wlp_bind, wlp_acquire, wlp_get, wlp_require, wlp_modify,
    implies_true, and_true]
  intro _ hfresh
  refine h fun hmem => ?_
  obtain ⟨e, he, hid⟩ := List.mem_map.1 hmem
  simp only [Bool.not_eq_true', List.any_eq_false] at hfresh
  simpa [hid] using hfresh e he

theorem enroll_effect (env : Env) (studentId cohortId : Uuid) (grants : List Grant) :
    (enroll env studentId cohortId grants).wlp
      (fun _ v' => ∃ cohort row, Enrolled v v' cohort row) (fun _ => True) v := by
  simp only [enroll, wlp_bind]
  refine wlp_cohortRow fun cohort hcohort => ?_
  have hcid : cohort.id = cohortId := by simpa using List.find?_some hcohort
  simp only [assertScope, wlp_require, wlp_get, wlp_expect, wlp_pure, implies_true, and_true]
  intro _ henrolling student _ _ _
  refine wlp_of_silent (keeps_assertPrerequisites _ _) fun _ => ?_
  set hasSeat : Bool := decide (v.activeCount cohort.id < v.seatsOf cohort) with hseat
  refine wlp_insertEnrollment fun hfresh => ?_
  refine (Keeps.when hasSeat (keeps_markEnrolled studentId)).wlp (fun _ v' hv' => ?_)
    fun _ => trivial
  refine wlp_of_silent (keeps_present _) fun _ => ?_
  intro _ _
  refine ⟨cohort, newEnrollment env studentId cohort.id hasSeat, ?_, ?_, hfresh, ?_, hv'⟩
  · change v.cohort? cohort.id = some cohort
    rw [hcid]
    exact hcohort
  · cases hstatus : cohort.status <;> simp [ENROLLING_COHORT_STATUSES, hstatus] at henrolling ⊢
  · change (if hasSeat then EnrollmentStatus.active else .waitlisted) = .active ∧
      v.activeCount cohort.id < v.seatsOf cohort ∨
        (if hasSeat then EnrollmentStatus.active else .waitlisted) = .waitlisted ∧
          v.seatsOf cohort ≤ v.activeCount cohort.id
    by_cases hlt : v.activeCount cohort.id < v.seatsOf cohort
    · exact .inl ⟨by simp [hseat, hlt], hlt⟩
    · exact .inr ⟨by simp [hseat, hlt], Nat.le_of_not_lt hlt⟩

/-! ## Leaving -/

/-- What became of the seat that an accepted `withdraw` freed: `w` is the store
without the student who left. -/
inductive Refilled (env : Env) (found : EnrollmentRow) (cohort : CohortRow) (w : Db) : Db → Prop
  /-- No seat was given: none was freed, the cohort is off, or it is still full,
  or nobody waits. -/
  | kept {d'} : SamePlaces d' w →
      (found.status = .waitlisted ∨ cohort.status = .cancelled ∨
        w.seatsOf cohort ≤ w.activeCount cohort.id ∨ w.waitlist cohort.id = []) →
      Refilled env found cohort w d'
  | given {d' next} : found.status = .active → w.activeCount cohort.id < w.seatsOf cohort →
      (w.waitlist cohort.id).head? = some next →
      SamePlaces d' (enrollmentsTable.updateRow next.id (promotedRow env next) w) →
      Refilled env found cohort w d'

theorem wlp_promoteWaiting {Φ : Option Uuid → Db → Prop} {env : Env} {cohort : CohortRow}
    (hnot : v.seatsOf cohort ≤ v.activeCount cohort.id ∨ v.waitlist cohort.id = [] → Φ none v)
    (hby : ∀ next v', v.activeCount cohort.id < v.seatsOf cohort →
      (v.waitlist cohort.id).head? = some next →
      SamePlaces v' (enrollmentsTable.updateRow next.id (promotedRow env next) v) →
      Φ (some next.id) v') :
    (promoteWaiting env cohort).wlp Φ (fun _ => True) v := by
  simp only [promoteWaiting, wlp_bind, wlp_get, wlp_ite, wlp_pure]
  refine ⟨fun hfull => hnot (.inl hfull), fun hfree => ?_⟩
  cases hnext : (v.waitlist cohort.id).head? with
  | none => exact hnot (.inr (List.head?_eq_none_iff.1 hnext))
  | some next =>
      have hmem := (mem_waitlist.1 (List.mem_of_head? hnext)).1
      simp only [wlp_bind, wlp_updateWhere]
      refine ⟨fun _ => ?_, fun hmiss => ?_⟩
      · refine (keeps_markEnrolled _).wlp (fun _ v' hv' => ?_) fun _ => trivial
        exact hby next v' (Nat.lt_of_not_le hfree) hnext hv'
      · rw [List.any_eq_false] at hmiss
        simpa using hmiss next hmem

theorem withdraw_effect (env : Env) (eid : Uuid) (reasonCode : String) (expectedVersion : ℕ)
    (grants : List Grant) :
    (withdraw env eid reasonCode expectedVersion grants).wlp
      (fun _ v' => ∃ found cohort, v.enrollment? eid = some found ∧
        v.cohort? found.cohortId = some cohort ∧ found.status.live = true ∧
        Refilled env found cohort (enrollmentsTable.bump eid (withdrawnRow env reasonCode) v) v')
      (fun _ => True) v := by
  simp only [withdraw, row, wlp_bind, wlp_get, wlp_expect, wlp_pure, implies_true, and_true]
  intro found hfound
  refine wlp_cohortRow fun cohort hcohort => ?_
  simp only [assertScope, wlp_require, implies_true, and_true]
  intro _ hlive
  refine wlp_of_silent (keeps_assertActiveCode _ _) fun _ => ?_
  refine wlp_versioned enrollmentsTable (fun updated _ _ => ?_) trivial trivial
  set w := enrollmentsTable.bump eid (withdrawnRow env reasonCode) v with hw
  have hanswer : ∀ (promotedId : Option Uuid) (v' : Db), Refilled env found cohort w v' →
      (present [updated.id]).wlp (fun presented v₁ => (present promotedId.toList).wlp
        (fun _ v₂ => ∀ enrollment, presented.head? = some enrollment →
          ∃ found cohort, v.enrollment? eid = some found ∧
            v.cohort? found.cohortId = some cohort ∧ found.status.live = true ∧
            Refilled env found cohort w v₂) (fun _ => True) v₁) (fun _ => True) v' := by
    intro promotedId v' hv'
    refine wlp_of_silent (keeps_present _) fun _ => wlp_of_silent (keeps_present _) fun _ => ?_
    exact fun _ _ => ⟨found, cohort, hfound, hcohort, hlive, hv'⟩
  rw [wlp_ite]
  refine ⟨fun hseat => ?_, fun hno => ?_⟩
  · have hactive : found.status = .active ∧ cohort.status ≠ .cancelled := by simpa using hseat
    refine wlp_promoteWaiting (fun hfull => ?_) fun next v' hfree hnext hv' => ?_
    · exact hanswer none w (.kept rfl (.inr (.inr hfull)))
    · exact hanswer _ v' (.given hactive.1 hfree hnext hv')
  · rw [wlp_pure]
    refine hanswer none w (.kept rfl ?_)
    by_cases hwait : found.status = .waitlisted
    · exact .inl hwait
    · have hactive : found.status = .active := by
        cases hstatus : found.status <;> simp [hstatus, EnrollmentStatus.live] at hlive hwait ⊢
      exact .inr (.inl (by simpa [hactive] using hno))

/-! ## Results -/

/-- A course with its department, when both rows are there. -/
def Db.courseWithDepartment? (d : Db) (id : Uuid) : Option CourseWithDepartment :=
  (d.courses.find? fun c => c.id == id).bind fun course =>
    (d.programs.find? fun p => p.id == course.programId).map fun program =>
      ⟨course, program.departmentId⟩

theorem wlp_findWithDepartment {Φ : Option CourseWithDepartment → Db → Prop} {id : Uuid}
    (h : Φ (v.courseWithDepartment? id) v) :
    (findWithDepartment id).wlp Φ (fun _ => True) v := by
  simp only [findWithDepartment, wlp_bind, wlp_get]
  unfold Db.courseWithDepartment? at h
  cases hcourse : v.courses.find? fun c => c.id == id with
  | none => simpa [hcourse] using h
  | some course =>
      simp only [wlp_bind, wlp_get, wlp_expect, wlp_pure, implies_true, and_true]
      intro program hprogram
      simpa [hcourse, hprogram] using h

/-- What `recordResult` checks before it writes a result. -/
structure ResultAccepted (d : Db) (eid : Uuid) (input : RecordResultValues) (version : ℕ)
    (grants : List Grant) (e : EnrollmentRow) (c : CohortRow) (course : CourseWithDepartment) :
    Prop where
  found : d.enrollment? eid = some e
  cohort : d.cohort? e.cohortId = some c
  known : d.courseWithDepartment? c.courseId = some course
  permitted : hasPermission grants .resultsRecord
    (some { departmentId := some course.departmentId, branchId := some c.branchId }) = true
  active : e.status = .active
  complete : ∀ missing,
    evaluateCompletion course.course input.score input.attendancePercent ≠ .incomplete missing
  version : enrollmentsTable.isAt d eid version = true
  score : input.score.all (fun n => 0 ≤ n && n ≤ 100) = true
  attendance : input.attendancePercent.all (fun n => 0 ≤ n && n ≤ 100) = true

theorem recordResult_effect (env : Env) (eid : Uuid) (input : RecordResultValues)
    (expectedVersion : ℕ) (grants : List Grant) :
    (recordResult env eid input expectedVersion grants).wlp
      (fun _ v' => ∃ e c course status,
        ResultAccepted v eid input expectedVersion grants e c course ∧ status.live = false ∧
        v' = enrollmentsTable.bump eid (resultRow env status input) v)
      (fun _ => True) v := by
  simp only [recordResult, row, wlp_bind, wlp_get, wlp_expect, implies_true, and_true]
  intro e hfound
  refine wlp_cohortRow fun c hcohort => wlp_findWithDepartment ?_
  simp only [assertScope, wlp_require, implies_true, and_true]
  intro course hcourse hpermitted hactive
  have hrest : ∀ status : EnrollmentStatus, status.live = false →
      (∀ missing, evaluateCompletion course.course input.score input.attendancePercent ≠
        .incomplete missing) →
      (do
        let result ← updateWithVersion enrollmentsTable eid expectedVersion
          (resultRow env status input)
        let updated ← versionedRow result cohortErrors.enrollmentNotFound
        checkResult input
        let presented ← present [updated.id]
        Prog.expect presented.head? cohortErrors.enrollmentNotFound : Tx Enrollment).wlp
      (fun _ v' => ∃ e c course status,
        ResultAccepted v eid input expectedVersion grants e c course ∧ status.live = false ∧
        v' = enrollmentsTable.bump eid (resultRow env status input) v)
      (fun _ => True) v := by
    intro status hdead hcomplete
    simp only [wlp_bind]
    refine wlp_versioned enrollmentsTable (fun updated hversion _ => ?_) trivial trivial
    simp only [checkResult, wlp_bind, wlp_require, implies_true, and_true]
    intro hscore hattendance
    refine wlp_of_silent (keeps_present _) fun _ => ?_
    simp only [wlp_expect, implies_true, and_true]
    exact fun _ _ => ⟨e, c, course, status, ⟨hfound, hcohort, hcourse, hpermitted,
      by simpa using hactive, hcomplete, hversion, hscore, hattendance⟩, hdead, rfl⟩
  cases houtcome : evaluateCompletion course.course input.score input.attendancePercent with
  | incomplete missing => trivial
  | passed => exact hrest .completed rfl (by simp [houtcome])
  | failed reasons => exact hrest .failed rfl (by simp [houtcome])

/-! ## Changing a cohort -/

/-- `assertBranchAccess` lets the caller through. -/
def BranchAccess (grants : List Grant) (permission : Permission) (branchId : Uuid) : Prop :=
  (branchReach grants permission).all (·.contains branchId) = true

theorem wlp_getCohort {Φ : Cohort → Db → Prop} {id : Uuid} {grants : List Grant}
    (h : ∀ row r, v.cohort? id = some row → BranchAccess grants .cohortsRead row.branchId → Φ r v) :
    (getCohort id grants).wlp Φ (fun _ => True) v := by
  simp only [getCohort, wlp_bind]
  refine wlp_cohortRow fun row hrow => ?_
  have hnumbers : BranchAccess grants .cohortsRead row.branchId →
      (withNumbers row).wlp Φ (fun _ => True) v :=
    fun haccess => wlp_of_silent (keeps_withNumbers row) fun r => h row r hrow haccess
  unfold assertBranchAccess
  cases hreach : branchReach grants .cohortsRead with
  | none => exact hnumbers (by simp [BranchAccess, hreach])
  | some reach =>
      rw [wlp_ite]
      refine ⟨fun hin => hnumbers (by simpa [BranchAccess, hreach] using hin), fun _ => ?_⟩
      simp [assertScope, hasPermission]

/-- Everything a cohort points at exists and is in use. -/
structure Resolves (d : Db) (input : References) (course : CourseWithDepartment)
    (shift : ShiftRow) (room : RoomRow) : Prop where
  course : (d.courseWithDepartment? input.courseId).filter (fun c => c.course.isActive) =
    some course
  shift : (d.shifts.find? fun s => s.id == input.shiftId && s.isActive) = some shift
  room : (d.room? input.roomId).filter RoomRow.isActive = some room
  intake : input.intakeId.all d.intakes.contains = true
  instructor : input.instructorId.all d.instructors.contains = true

theorem wlp_resolve {Φ : CourseWithDepartment × ShiftRow × RoomRow → Db → Prop}
    {input : References}
    (h : ∀ course shift room, Resolves v input course shift room → Φ (course, shift, room) v) :
    (resolve input).wlp Φ (fun _ => True) v := by
  simp only [resolve, wlp_bind]
  refine wlp_findWithDepartment ?_
  simp only [wlp_expect, wlp_get, wlp_require, wlp_pure, implies_true, and_true]
  intro course hcourse shift hshift room hroom hintake hinstructor
  exact h course shift room ⟨hcourse, hshift, hroom, hintake, hinstructor⟩

/-- The new sessions of the cohort fit into the timetable. -/
def SessionsFit (d : Db) (env : Env) (cohort : CohortRow) (shift : ShiftRow) : Prop :=
  let dates := d.datesOf cohort shift
  dates.length ≠ 0 ∧ dates.length ≤ MAX_SESSIONS ∧
    ∃ rows, insertSessions (d.classSessions.filter fun s => s.cohortId != cohort.id)
      (sessionsOf env d.timezone cohort shift dates) = .ok rows

theorem wlp_generateSessions {Φ : ℕ → Db → Prop} {env : Env} {cohort : CohortRow}
    {shift : ShiftRow}
    (h : ∀ n v', SessionsFit v env cohort shift → SamePlaces v' v → Φ n v') :
    (generateSessions env cohort shift).wlp Φ (fun _ => True) v := by
  simp only [generateSessions, wlp_bind, wlp_get, wlp_require, wlp_modify, implies_true, and_true]
  intro hsome hmax
  cases hinsert : insertSessions (v.classSessions.filter fun s => s.cohortId != cohort.id)
      (sessionsOf env v.timezone cohort shift (v.datesOf cohort shift)) with
  | error e => trivial
  | ok rows =>
      exact h _ _ ⟨by simpa using hsome, of_decide_eq_true hmax, rows, hinsert⟩ rfl

/-- The row that an update leaves. -/
def UpdateCohortValues.after (input : UpdateCohortValues) (before : CohortRow) (branchId : Uuid) :
    CohortRow :=
  { input.apply before branchId with version := before.version + 1 }

/-- What `CohortsService.update` checks. -/
structure UpdateAccepted (d : Db) (env : Env) (cid : Uuid) (input : UpdateCohortValues)
    (version : ℕ) (grants : List Grant) (before : CohortRow) (room : RoomRow) : Prop where
  found : d.cohort? cid = some before
  permitted : hasPermission grants .cohortsManage (some {
    departmentId := (d.courseWithDepartment? before.courseId).map CourseWithDepartment.departmentId
    branchId := some before.branchId }) = true
  unfinished : before.status ≠ .completed ∧ before.status ≠ .cancelled
  unlocked : ¬ (input.changesSchedule before = true ∧ before.status = .running)
  resolves : ∃ course shift, Resolves d {
      courseId := before.courseId
      shiftId := input.shiftId.getD before.shiftId
      roomId := input.roomId.getD before.roomId
      intakeId := input.intakeId.getD before.intakeId
      instructorId := input.instructorId.getD before.instructorId } course shift room ∧
    (input.changesSchedule before = true →
      SessionsFit d env (input.after before room.branchId) shift)
  elsewhere : room.branchId ≠ before.branchId → hasPermission grants .cohortsManage (some {
    departmentId := (d.courseWithDepartment? before.courseId).map CourseWithDepartment.departmentId
    branchId := some room.branchId }) = true
  enough : d.activeCount cid ≤ min (input.maxSize.getD before.maxSize) room.capacity
  version : cohortsTable.isAt d cid version = true
  dates : (input.after before room.branchId).startDate ≤ (input.after before room.branchId).endDate
  size : (input.after before room.branchId).maxSize ≠ 0
  access : BranchAccess grants .cohortsRead room.branchId

theorem cohort?_bump {cid c : Uuid} (F : CohortRow → CohortRow) (hid : ∀ r, (F r).id = r.id) :
    (cohortsTable.bump cid F v).cohort? c = (v.cohort? c).map fun r =>
      if r.id == cid then { F r with version := r.version + 1 } else r :=
  find?_changeWhere fun r => by simp [cohortsTable, hid]

theorem cohort?_of_samePlaces {d d' : Db} (h : SamePlaces d d') (c : Uuid) :
    d.cohort? c = d'.cohort? c := by
  have hcohorts : d.cohorts = d'.cohorts := congrArg Prod.fst h
  simp only [Db.cohort?, hcohorts]

theorem wlp_when_require {Φ : Unit → Db → Prop} {b c : Bool} {e : Error}
    (h : (b = true → c = true) → Φ () v) :
    (Prog.when b (Prog.require c e) : Tx Unit).wlp Φ (fun _ => True) v := by
  cases b <;> cases c <;> simp_all [Prog.when, Prog.require, Prog.wlp]

theorem update_effect (env : Env) (cid : Uuid) (input : UpdateCohortValues) (expectedVersion : ℕ)
    (grants : List Grant) :
    (CohortsService.update env cid input expectedVersion grants).wlp
      (fun _ v' => ∃ before room,
        UpdateAccepted v env cid input expectedVersion grants before room ∧
        SamePlaces v' (cohortsTable.bump cid (input.apply · room.branchId) v))
      (fun _ => True) v := by
  simp only [CohortsService.update, wlp_bind]
  refine wlp_cohortRow fun before hbefore => wlp_findWithDepartment ?_
  have hid : before.id = cid := by simpa using List.find?_some hbefore
  simp only [assertScope, wlp_require, implies_true, and_true]
  intro hpermitted hunfinished hunlocked
  refine wlp_resolve fun course shift room hresolves => ?_
  refine wlp_when_require fun helsewhere => ?_
  rw [wlp_get]
  intro henough
  refine wlp_versioned cohortsTable (fun row hversion hrow => ?_) trivial trivial
  set w := cohortsTable.bump cid (input.apply · room.branchId) v with hw
  have hafter : w.cohort? cid = some (input.after before room.branchId) := by
    rw [hw, cohort?_bump (input.apply · room.branchId) fun _ => rfl, hbefore]
    simp [hid, UpdateCohortValues.after]
  obtain rfl : row = input.after before room.branchId := Option.some.inj (hrow.symm.trans hafter)
  simp only [checkCohort, wlp_bind, wlp_require, implies_true, and_true]
  intro hdates hsize
  have hclosing : ∀ v', SamePlaces v' w →
      (input.changesSchedule before = true →
        SessionsFit v env (input.after before room.branchId) shift) →
      (getCohort cid grants).wlp (fun _ v' => ∃ before room,
        UpdateAccepted v env cid input expectedVersion grants before room ∧
        SamePlaces v' (cohortsTable.bump cid (input.apply · room.branchId) v))
        (fun _ => True) v' := by
    intro v' hv' hfit
    refine wlp_getCohort fun row' r hrow' haccess => ⟨before, room, ?_, hv'⟩
    obtain rfl : input.after before room.branchId = row' := by
      rw [cohort?_of_samePlaces hv', hafter] at hrow'
      exact Option.some.inj hrow'
    exact {
      found := hbefore
      permitted := hpermitted
      unfinished := by simpa using hunfinished
      unlocked := by simpa [imp_iff_not_or] using hunlocked
      resolves := ⟨course, shift, hresolves, hfit⟩
      elsewhere := by simpa using helsewhere
      enough := of_decide_eq_true henough
      version := hversion
      dates := of_decide_eq_true hdates
      size := by simpa using hsize
      access := haccess }
  rw [wlp_when]
  refine ⟨fun hchanges => ?_, fun hsame => hclosing w rfl fun hchanges => ?_⟩
  · simp only [wlp_bind, wlp_pure]
    exact wlp_generateSessions fun n v' hfit hv' => hclosing v' hv' fun _ => hfit
  · simp [hsame] at hchanges

/-- What `setStatus` checks before a cohort is opened. -/
structure StatusAccepted (d : Db) (cid : Uuid) (next : CohortStatus) (version : ℕ)
    (grants : List Grant) (before : CohortRow) : Prop where
  found : d.cohort? cid = some before
  permitted : hasPermission grants .cohortsManage (some {
    departmentId := (d.courseWithDepartment? before.courseId).map CourseWithDepartment.departmentId
    branchId := some before.branchId }) = true
  transition : next ∈ COHORT_TRANSITIONS before.status
  empty : next = .cancelled ∨ next = .completed → d.activeCount cid = 0
  alone : next = .cancelled → d.inStatus cid .waitlisted = []
  version : cohortsTable.isAt d cid version = true
  access : BranchAccess grants .cohortsRead before.branchId

theorem setStatus_effect (cid : Uuid) (next : CohortStatus) (expectedVersion : ℕ)
    (grants : List Grant) :
    (CohortsService.setStatus cid next expectedVersion grants).wlp
      (fun _ v' => ∃ before, StatusAccepted v cid next expectedVersion grants before ∧
        SamePlaces v' (cohortsTable.bump cid (CohortsService.statusRow next) v))
      (fun _ => True) v := by
  simp only [CohortsService.setStatus, wlp_bind]
  refine wlp_cohortRow fun before hbefore => wlp_findWithDepartment ?_
  have hid : before.id = cid := by simpa using List.find?_some hbefore
  simp only [assertScope, wlp_require, implies_true, and_true]
  intro hpermitted htransition
  have hrest : (next = .cancelled ∨ next = .completed → v.activeCount cid = 0) →
      (next = .cancelled → v.inStatus cid .waitlisted = []) →
      (updateWithVersion cohortsTable cid expectedVersion
        (CohortsService.statusRow next) : Tx _).wlp
        (fun result v₁ => (versionedRow result cohortErrors.cohortNotFound : Tx _).wlp
          (fun _ v₂ => (Prog.when (next == .cancelled) (Prog.modify fun d =>
              { d with classSessions := d.classSessions.filter fun s => s.cohortId != cid }) :
              Tx Unit).wlp
            (fun _ v₃ => (getCohort cid grants).wlp (fun _ v' => ∃ before,
              StatusAccepted v cid next expectedVersion grants before ∧
              SamePlaces v' (cohortsTable.bump cid (CohortsService.statusRow next) v))
              (fun _ => True) v₃) (fun _ => True) v₂) (fun _ => True) v₁) (fun _ => True) v := by
    intro hempty halone
    refine wlp_versioned cohortsTable (fun row hversion hrow => ?_) trivial trivial
    set w := cohortsTable.bump cid (CohortsService.statusRow next) v with hw
    have hafter : (w.cohort? cid).map CohortRow.branchId = some before.branchId := by
      rw [hw, cohort?_bump (CohortsService.statusRow next) fun _ => rfl, hbefore]
      simp [hid, CohortsService.statusRow]
    have hkeeps : (Prog.when (next == .cancelled) (Prog.modify fun d =>
        { d with classSessions := d.classSessions.filter fun s => s.cohortId != cid }) :
        Tx Unit).Keeps Db.places := .when _ (.modify fun _ => rfl)
    refine hkeeps.wlp (fun _ v' hv' => ?_) fun _ => trivial
    refine wlp_getCohort fun row' r hrow' haccess => ⟨before, ?_, hv'⟩
    rw [cohort?_of_samePlaces hv'] at hrow'
    rw [hrow'] at hafter
    have hbranch : row'.branchId = before.branchId := Option.some.inj hafter
    exact ⟨hbefore, hpermitted, by simpa using htransition, hempty, halone, hversion,
      hbranch ▸ haccess⟩
  rw [wlp_when]
  refine ⟨fun hends => ?_, fun hgoes => ?_⟩
  · simp only [wlp_bind, wlp_get, wlp_require, implies_true, and_true]
    intro hlive
    have hzero : v.activeCount cid +
        (if next == .cancelled then (v.inStatus cid .waitlisted).length else 0) = 0 := by
      simpa using hlive
    refine hrest (fun _ => by omega) fun hc => ?_
    simp only [hc, beq_self_eq_true, ↓reduceIte] at hzero
    exact List.eq_nil_of_length_eq_zero (by omega)
  · refine hrest (fun h => ?_) fun h => ?_
    · rcases h with rfl | rfl <;> simp at hgoes
    · simp [h] at hgoes

/-! ## Rooms -/

theorem updateRoom_effect (rid : Uuid) (input : UpdateRoomRequest) (expectedVersion : ℕ) :
    (updateRoom rid input expectedVersion).wlp
      (fun _ v' => roomsTable.isAt v rid expectedVersion = true ∧
        v' = roomsTable.bump rid input.apply v)
      (fun _ => True) v := by
  simp only [updateRoom, wlp_bind, wlp_get, wlp_expect, implies_true, and_true]
  intro _ _
  exact wlp_versioned roomsTable (fun row hversion _ => ⟨hversion, rfl⟩) trivial trivial

/-- Every request is one transaction. -/
theorem code_transaction (call : Call) : call.code.wlp (fun _ _ => True) (fun _ => True) v := by
  have hmap : ∀ {α : Type} {p : Tx α} {g : α → Reply} {Φ : α → Db → Prop},
      p.wlp Φ (fun _ => True) v → (g <$> p).wlp (fun _ _ => True) (fun _ => True) v := by
    intro α p g Φ hp
    rw [wlp_map]
    exact wlp_mono (fun _ _ _ => trivial) (fun _ _ => trivial) hp
  cases call with
  | enroll => exact hmap (enroll_effect _ _ _ _)
  | withdraw => exact hmap (withdraw_effect _ _ _ _ _)
  | recordResult => exact hmap (recordResult_effect _ _ _ _ _)
  | update => exact hmap (update_effect _ _ _ _ _)
  | setStatus => exact hmap (setStatus_effect _ _ _ _)
  | updateRoom => exact hmap (updateRoom_effect _ _ _)

end Emis.Cohorts
