import Emis.Cohorts.Effects

/-!
# Free seats and the queue

Requests are served one after another here. A free seat goes to the student who
has waited longest only when somebody withdraws: a recorded result frees a seat,
and a larger class, a larger room or a cohort that is opened again adds seats,
without anybody being promoted. Runs in which this leaves nobody waiting for a
free seat keep the law, and in them nobody overtakes the queue.
-/

namespace Emis.Cohorts

open Transactions Prog EnrollmentsService

def CohortStatus.enrolls : CohortStatus → Bool
  | .open | .running => true
  | .planned | .completed | .cancelled => false

/-- No seat of a cohort that is open or running is empty while somebody waits. -/
def SeatsFilled (d : Db) : Prop :=
  ∀ id row, d.cohort? id = some row → row.status.enrolls = true →
    d.inStatus id .waitlisted ≠ [] → d.seatsOf row ≤ d.activeCount id

/-- Whoever becomes active between `d` and `d'` was waiting, and before everybody
who still waits for that cohort. -/
def FirstCome (d d' : Db) : Prop :=
  ∀ e' ∈ d'.enrollments, e'.status = .active →
    (∀ e ∈ d.enrollments, e.id = e'.id → e.status ≠ .active) →
    ∀ x ∈ d'.waitlist e'.cohortId, ∃ e ∈ d.waitlist e'.cohortId, e.id = e'.id ∧ waitsBefore e x

/-- The request frees or adds no seat that somebody waits for, other than by a
withdrawal. -/
def Call.KeepsQueue (d : Db) : Call → Prop
  | .recordResult _ eid input version grants => ∀ e c course,
      ResultAccepted d eid input version grants e c course →
      c.status.enrolls = true →
      d.inStatus c.id .waitlisted = [] ∨ d.seatsOf c < d.activeCount c.id
  | .update env cid input version grants => ∀ before room,
      UpdateAccepted d env cid input version grants before room → before.status.enrolls = true →
      d.inStatus cid .waitlisted = [] ∨
        min (input.maxSize.getD before.maxSize) room.capacity ≤ d.activeCount cid
  | .setStatus cid next version grants => ∀ before,
      StatusAccepted d cid next version grants before → next = .open →
      d.inStatus cid .waitlisted = [] ∨ d.seatsOf before ≤ d.activeCount cid
  | .updateRoom rid input version => roomsTable.isAt d rid version = true →
      ∀ capacity, input.capacity = some capacity →
      ∀ cid row, d.cohort? cid = some row → row.roomId = rid → row.status.enrolls = true →
        d.inStatus cid .waitlisted = [] ∨ min row.maxSize capacity ≤ d.activeCount cid
  | _ => True

/-- The stores of the runs in which every request keeps the queue. -/
inductive Runs (start : Db) : Db → Prop
  | start : Runs start start
  | step {d} (call : Call) : Runs start d → call.KeepsQueue d → Runs start (call.after d)

/-! ## What the law looks at -/

section Places

variable {d d' : Db}

theorem enrollments_of_samePlaces (h : SamePlaces d d') : d.enrollments = d'.enrollments :=
  congrArg (fun p => p.2.1) h

theorem inStatus_of_samePlaces (h : SamePlaces d d') (c : Uuid) (s : EnrollmentStatus) :
    d.inStatus c s = d'.inStatus c s := by
  simp only [Db.inStatus, enrollments_of_samePlaces h]

theorem seatsOf_of_samePlaces (h : SamePlaces d d') (row : CohortRow) :
    d.seatsOf row = d'.seatsOf row := by
  have hrooms : d.rooms = d'.rooms := congrArg (fun p => p.2.2) h
  simp only [Db.seatsOf, Db.room?, hrooms]

theorem SeatsFilled.of_samePlaces (h : SamePlaces d' d) (hd : SeatsFilled d) : SeatsFilled d' := by
  intro id row hrow henrolls hwait
  rw [cohort?_of_samePlaces h] at hrow
  rw [inStatus_of_samePlaces h] at hwait
  rw [seatsOf_of_samePlaces h, Db.activeCount, inStatus_of_samePlaces h]
  exact hd id row hrow henrolls hwait

theorem FirstCome.of_samePlaces {d'' : Db} (h : SamePlaces d'' d') (hd : FirstCome d d') :
    FirstCome d d'' := by
  have henr := enrollments_of_samePlaces h
  intro e' he' hactive hnew x hx
  rw [Db.waitlist, inStatus_of_samePlaces h] at hx
  exact hd e' (henr ▸ he') hactive hnew x hx

theorem firstCome_of_enrollments_eq (h : d'.enrollments = d.enrollments) : FirstCome d d' :=
  fun e' he' hactive hnew => (hnew e' (h ▸ he') rfl hactive).elim

theorem status_of_inStatus {c : Uuid} {s : EnrollmentStatus} {e : EnrollmentRow}
    (he : e ∈ d.inStatus c s) : e ∈ d.enrollments ∧ e.cohortId = c ∧ e.status = s :=
  mem_inStatus.1 he

theorem activeCount_eq_countP (c : Uuid) :
    d.activeCount c = d.enrollments.countP fun e => e.cohortId == c && e.status == .active := by
  rw [Db.activeCount, Db.inStatus, List.countP_eq_length_filter]

end Places

/-! ## A row that ends -/

section Ends

variable {d : Db} {F : EnrollmentRow → EnrollmentRow} {found : EnrollmentRow}

theorem waiting_of_ended (hdead : ∀ e, (F e).status.live = false) {k c : Uuid} {x : EnrollmentRow}
    (hx : x ∈ (enrollmentsTable.updateRow k F d).inStatus c .waitlisted) :
    x ∈ d.inStatus c .waitlisted := by
  obtain ⟨hmem, hc, hw⟩ := mem_inStatus.1 hx
  obtain ⟨e, he, hchange⟩ := mem_changeWhere.1 hmem
  by_cases hid : enrollmentsTable.id e == k
  · have hF : F e = x := by simpa [hid] using hchange
    have hnot := hdead e
    rw [hF, hw] at hnot
    simp [EnrollmentStatus.live] at hnot
  · obtain rfl : e = x := by simpa [hid] using hchange
    exact mem_inStatus.2 ⟨he, hc, hw⟩

/-- At most the seat of the row that ends becomes free. -/
theorem activeCount_of_ended (hids : (d.enrollments.map EnrollmentRow.id).Nodup)
    (hfound : found ∈ d.enrollments) (c : Uuid) :
    d.activeCount c ≤ (enrollmentsTable.updateRow found.id F d).activeCount c +
      if found.cohortId = c ∧ found.status = .active then 1 else 0 := by
  have hcount := countP_changeWhere (fun e => e.id == found.id) F d.enrollments
    fun e => e.cohortId == c && e.status == .active
  rw [countP_key hids hfound] at hcount
  rw [activeCount_eq_countP, activeCount_eq_countP]
  change _ ≤ (changeWhere (fun e => e.id == found.id) F d.enrollments).countP _ + _
  by_cases hseat : found.cohortId = c ∧ found.status = .active
  · simp only [hseat.1, hseat.2, beq_self_eq_true, Bool.and_self, ↓reduceIte, and_self] at hcount ⊢
    omega
  · have hno : (found.cohortId == c && found.status == .active) = false := by
      simpa using hseat
    simp only [hno, Bool.false_eq_true, ↓reduceIte] at hcount
    omega

theorem firstCome_of_ended (hdead : ∀ e, (F e).status.live = false) (k : Uuid) :
    FirstCome d (enrollmentsTable.updateRow k F d) := by
  intro e' he' hactive hnew
  obtain ⟨e, he, hchange⟩ := mem_changeWhere.1 he'
  by_cases hid : enrollmentsTable.id e == k
  · have hF : F e = e' := by simpa [hid] using hchange
    have hnot := hdead e
    rw [hF, hactive] at hnot
    simp [EnrollmentStatus.live] at hnot
  · obtain rfl : e = e' := by simpa [hid] using hchange
    exact (hnew e he rfl hactive).elim

end Ends

/-! ## Steps -/

section Steps

variable {d d' : Db}

/-- The ids of the enrollments, which are a primary key. -/
def Db.enrollmentIds (d : Db) : List Uuid := d.enrollments.map EnrollmentRow.id

theorem enrollmentIds_updateRow {k : Uuid} (F : EnrollmentRow → EnrollmentRow)
    (hF : ∀ e, (F e).id = e.id) :
    (enrollmentsTable.updateRow k F d).enrollmentIds = d.enrollmentIds := map_changeWhere hF

theorem enrollmentIds_bump {k : Uuid} (F : EnrollmentRow → EnrollmentRow)
    (hF : ∀ e, (F e).id = e.id) :
    (enrollmentsTable.bump k F d).enrollmentIds = d.enrollmentIds := map_changeWhere hF

theorem filled_of_enrolled {cohort : CohortRow} {row : EnrollmentRow}
    (h : Enrolled d d' cohort row) (hd : SeatsFilled d) : SeatsFilled d' := by
  refine .of_samePlaces h.rows fun id c hc henrolls hwait => ?_
  change d.cohort? id = some c at hc
  have hin : ∀ s, Db.inStatus { d with enrollments := d.enrollments ++ [row] } id s =
      d.inStatus id s ++ [row].filter fun e => e.cohortId == id && e.status == s :=
    fun s => List.filter_append ..
  have hmore : d.activeCount id ≤
      Db.activeCount { d with enrollments := d.enrollments ++ [row] } id := by
    rw [Db.activeCount, Db.activeCount, hin, List.length_append]
    exact Nat.le_add_right _ _
  refine Nat.le_trans ?_ hmore
  by_cases hwaiting : d.inStatus id .waitlisted = []
  · -- Only the new row waits, so it found no seat.
    have hrow : row.cohortId = id ∧ row.status = .waitlisted := by
      rw [hin, hwaiting] at hwait
      simpa using hwait
    obtain ⟨rfl, hstatus⟩ := hrow
    obtain rfl : cohort = c := Option.some.inj (h.found.symm.trans hc)
    rcases h.seat with ⟨hactive, -⟩ | ⟨-, hfull⟩
    · simp [hstatus] at hactive
    · exact hfull
  · exact hd id c hc henrolls hwaiting

theorem firstCome_of_enrolled {cohort : CohortRow} {row : EnrollmentRow}
    (h : Enrolled d d' cohort row) (hd : SeatsFilled d) : FirstCome d d' := by
  refine .of_samePlaces h.rows fun e' he' hactive hnew x hx => ?_
  rcases List.mem_append.1 he' with hold | hone
  · exact (hnew e' hold rfl hactive).elim
  · obtain rfl : e' = row := by simpa using hone
    rcases h.seat with ⟨-, hfree⟩ | ⟨hwait, -⟩
    · have henrolls : cohort.status.enrolls = true := by
        rcases h.enrolling with hs | hs <;> simp [hs, CohortStatus.enrolls]
      have hnone : d.inStatus e'.cohortId .waitlisted = [] := by
        by_contra hsome
        exact absurd (hd _ _ h.found henrolls hsome) (by omega)
      obtain ⟨hmem, hxc, hxw⟩ := mem_waitlist.1 hx
      rcases List.mem_append.1 hmem with hold | hone'
      · have hx' : x ∈ d.inStatus e'.cohortId .waitlisted := mem_inStatus.2 ⟨hold, hxc, hxw⟩
        simp [hnone] at hx'
      · obtain rfl : x = e' := by simpa using hone'
        simp [hactive] at hxw
    · simp [hwait] at hactive

/-- A row that ends keeps the law if its seat was one too many or not given. -/
theorem filled_of_ended {F : EnrollmentRow → EnrollmentRow} {found : EnrollmentRow}
    (hids : d.enrollmentIds.Nodup) (hd : SeatsFilled d) (hfound : found ∈ d.enrollments)
    (hdead : ∀ e, (F e).status.live = false)
    (hseat : found.status = .active → ∀ c, d.cohort? found.cohortId = some c →
      c.status.enrolls = true →
      (enrollmentsTable.updateRow found.id F d).inStatus found.cohortId .waitlisted ≠ [] →
      d.seatsOf c ≤ (enrollmentsTable.updateRow found.id F d).activeCount found.cohortId) :
    SeatsFilled (enrollmentsTable.updateRow found.id F d) := by
  intro id c hc henrolls hwait
  change d.cohort? id = some c at hc
  change d.seatsOf c ≤ _
  have hcount := activeCount_of_ended (F := F) hids hfound id
  by_cases hmine : found.cohortId = id ∧ found.status = .active
  · obtain ⟨rfl, hactive⟩ := hmine
    exact hseat hactive c hc henrolls hwait
  · have hwaiting : d.inStatus id .waitlisted ≠ [] := by
      obtain ⟨x, hx⟩ := List.exists_mem_of_ne_nil _ hwait
      exact List.ne_nil_of_mem (waiting_of_ended hdead hx)
    have hold := hd id c hc henrolls hwaiting
    simp only [hmine, ↓reduceIte] at hcount
    omega

/-- The seat that the head of the waitlist takes is filled. -/
theorem activeCount_of_promoted (env : Env) {next : EnrollmentRow} (hids : d.enrollmentIds.Nodup)
    {c : Uuid} (hnext : next ∈ d.waitlist c) (id : Uuid) :
    d.activeCount id + (if id = c then 1 else 0) ≤
      (enrollmentsTable.updateRow next.id (promotedRow env next) d).activeCount
        id := by
  obtain ⟨hmem, hnc, hnw⟩ := mem_waitlist.1 hnext
  have hcount := countP_changeWhere (fun e => e.id == next.id)
    (promotedRow env next) d.enrollments
    fun e => e.cohortId == id && e.status == .active
  have hafter := countP_key hids hmem fun e =>
    (promotedRow env next e).cohortId == id &&
      (promotedRow env next e).status == .active
  rw [countP_key hids hmem, hafter] at hcount
  rw [activeCount_eq_countP, activeCount_eq_countP]
  change _ ≤ (changeWhere (fun e => e.id == next.id) _ d.enrollments).countP _
  have hpromoted : ((promotedRow env next next).cohortId == id &&
      (promotedRow env next next).status == .active) = decide (id = c) := by
    rw [Bool.eq_iff_iff]
    simpa [promotedRow, hnc] using eq_comm
  simp only [hpromoted, hnw, decide_eq_true_eq] at hcount
  have hno : (next.cohortId == id && EnrollmentStatus.waitlisted == .active) = false := by simp
  simp only [hno, Bool.false_eq_true, ↓reduceIte, Nat.add_zero] at hcount
  omega

theorem waiting_of_promoted {env : Env} {next x : EnrollmentRow} {id : Uuid}
    (hx : x ∈ (enrollmentsTable.updateRow next.id
      (promotedRow env next) d).inStatus id .waitlisted) :
    x ∈ d.inStatus id .waitlisted := by
  obtain ⟨hmem, hc, hw⟩ := mem_inStatus.1 hx
  obtain ⟨e, he, hchange⟩ := mem_changeWhere.1 hmem
  by_cases hid : enrollmentsTable.id e == next.id
  · have hF : promotedRow env next e = x := by simpa [hid] using hchange
    rw [← hF] at hw
    simp [promotedRow] at hw
  · obtain rfl : e = x := by simpa [hid] using hchange
    exact mem_inStatus.2 ⟨he, hc, hw⟩

theorem SeatsFilled.of_refilled {env : Env} {reasonCode : String} {found : EnrollmentRow}
    {cohort : CohortRow} (hids : d.enrollmentIds.Nodup) (hd : SeatsFilled d)
    (hfound : found ∈ d.enrollments) (hcohort : d.cohort? found.cohortId = some cohort)
    (h : Refilled env found cohort
      (enrollmentsTable.bump found.id (withdrawnRow env reasonCode) d) d') :
    SeatsFilled d' := by
  set w := enrollmentsTable.bump found.id (withdrawnRow env reasonCode) d with hw
  have hcid : cohort.id = found.cohortId := by simpa using List.find?_some hcohort
  cases h with
  | kept hsame hwhy =>
      refine .of_samePlaces hsame ?_
      refine filled_of_ended hids hd hfound (fun _ => rfl) fun hactive c hc henrolls hwait => ?_
      obtain rfl : cohort = c := Option.some.inj (hcohort.symm.trans hc)
      rcases hwhy with hstatus | hstatus | hfull | hnobody
      · simp [hstatus] at hactive
      · simp [hstatus, CohortStatus.enrolls] at henrolls
      · exact hcid ▸ hfull
      · refine absurd ?_ hwait
        have hperm := waitlist_perm (d := w) cohort.id
        rw [hnobody, hcid] at hperm
        exact List.nil_perm.1 hperm
  | @given next hactive hfree hnext hsame =>
      refine .of_samePlaces hsame fun id c hc henrolls hwait => ?_
      change d.cohort? id = some c at hc
      change d.seatsOf c ≤ _
      have hwids : w.enrollmentIds.Nodup := by
        have hmap : w.enrollmentIds = d.enrollmentIds := enrollmentIds_bump _ fun _ => rfl
        exact hmap ▸ hids
      have hpromoted := activeCount_of_promoted env hwids (List.mem_of_head? hnext) id
      have hended := activeCount_of_ended (F := fun e =>
        { withdrawnRow env reasonCode e with version := e.version + 1 })
        hids hfound id
      change d.activeCount id ≤ w.activeCount id + _ at hended
      have hwaiting : d.inStatus id .waitlisted ≠ [] := by
        obtain ⟨x, hx⟩ := List.exists_mem_of_ne_nil _ hwait
        exact List.ne_nil_of_mem (waiting_of_ended (fun _ => rfl) (waiting_of_promoted hx))
      have hold := hd id c hc henrolls hwaiting
      rw [hcid] at hpromoted
      by_cases hmine : found.cohortId = id
      · simp only [hmine, ↓reduceIte] at hpromoted
        have hone : (if found.cohortId = id ∧ found.status = .active then 1 else 0) ≤ 1 := by
          split <;> omega
        omega
      · simp only [hmine, false_and, ↓reduceIte] at hended
        omega

theorem FirstCome.of_refilled {env : Env} {reasonCode : String} {found : EnrollmentRow}
    {cohort : CohortRow} (hids : d.enrollmentIds.Nodup)
    (h : Refilled env found cohort
      (enrollmentsTable.bump found.id (withdrawnRow env reasonCode) d) d') :
    FirstCome d d' := by
  set w := enrollmentsTable.bump found.id (withdrawnRow env reasonCode) d with hw
  have hleft : FirstCome d w := firstCome_of_ended (fun _ => rfl) found.id
  have hback : ∀ {c x}, x ∈ w.inStatus c .waitlisted → x ∈ d.inStatus c .waitlisted :=
    fun hx => waiting_of_ended (fun _ => rfl) hx
  cases h with
  | kept hsame _ => exact .of_samePlaces hsame hleft
  | @given next hactive hfree hnext hsame =>
      refine .of_samePlaces hsame fun e' he' hactive' hnew x hx => ?_
      have hwids : w.enrollmentIds.Nodup := by
        have hmap : w.enrollmentIds = d.enrollmentIds := enrollmentIds_bump _ fun _ => rfl
        exact hmap ▸ hids
      obtain ⟨hmem, hnc, hnw⟩ := mem_waitlist.1 (List.mem_of_head? hnext)
      have hxw : x ∈ w.inStatus e'.cohortId .waitlisted :=
        waiting_of_promoted ((waitlist_perm _).mem_iff.1 hx)
      obtain ⟨e, he, hchange⟩ := mem_changeWhere.1 he'
      by_cases hid : enrollmentsTable.id e == next.id
      · have hF : promotedRow env next e = e' := by simpa [hid] using hchange
        obtain rfl : e = next := eq_of_key_eq hwids he hmem (beq_iff_eq.1 hid)
        subst hF
        have hcohort : (promotedRow env e e).cohortId = cohort.id := hnc
        rw [hcohort] at hxw ⊢
        refine ⟨e, ?_, rfl, waitsBefore_of_head? hnext ((waitlist_perm _).mem_iff.2 hxw)⟩
        exact (waitlist_perm _).mem_iff.2 (hback (mem_inStatus.2 ⟨hmem, hnc, hnw⟩))
      · obtain rfl : e = e' := by simpa [hid] using hchange
        exact hleft e he hactive' hnew x ((waitlist_perm _).mem_iff.2 hxw)

theorem SeatsFilled.of_cohort {cid : Uuid} {F : CohortRow → CohortRow} (hd : SeatsFilled d)
    (hF : ∀ r, (F r).id = r.id)
    (hseats : ∀ row, d.cohort? cid = some row → (F row).status.enrolls = true →
      d.inStatus cid .waitlisted ≠ [] → d.seatsOf (F row) ≤ d.activeCount cid) :
    SeatsFilled (cohortsTable.bump cid F d) := by
  intro id c hc henrolls hwait
  change d.inStatus id .waitlisted ≠ [] at hwait
  change d.seatsOf c ≤ d.activeCount id
  rw [cohort?_bump F hF] at hc
  obtain ⟨row, hrow, rfl⟩ := Option.map_eq_some_iff.1 hc
  have hid : row.id = id := by simpa using List.find?_some hrow
  by_cases hcid : row.id = cid
  · obtain rfl : id = cid := hid.symm.trans hcid
    simp only [hcid, beq_self_eq_true, ↓reduceIte] at henrolls ⊢
    exact hseats row hrow henrolls hwait
  · have hb : (row.id == cid) = false := by simpa using hcid
    simp only [hb, Bool.false_eq_true, ↓reduceIte] at henrolls ⊢
    exact hd id row hrow henrolls hwait

theorem room?_bump {rid id : Uuid} {F : RoomRow → RoomRow} (hF : ∀ r, (F r).id = r.id) :
    (roomsTable.bump rid F d).room? id = (d.room? id).map fun r =>
      if r.id == rid then { F r with version := r.version + 1 } else r :=
  find?_changeWhere fun r => by simp [roomsTable, hF]

theorem SeatsFilled.of_room {rid : Uuid} {input : UpdateRoomRequest} {version : ℕ}
    (hd : SeatsFilled d) (hat : roomsTable.isAt d rid version = true)
    (hseats : ∀ capacity, input.capacity = some capacity →
      ∀ cid row, d.cohort? cid = some row → row.roomId = rid → row.status.enrolls = true →
        d.inStatus cid .waitlisted = [] ∨ min row.maxSize capacity ≤ d.activeCount cid) :
    SeatsFilled (roomsTable.bump rid input.apply d) := by
  intro id c hc henrolls hwait
  change d.cohort? id = some c at hc
  change d.inStatus id .waitlisted ≠ [] at hwait
  change _ ≤ d.activeCount id
  have hsame : (c.roomId ≠ rid ∨ input.capacity = none) →
      (roomsTable.bump rid input.apply d).seatsOf c = d.seatsOf c := by
    intro hwhy
    simp only [Db.seatsOf, room?_bump (F := input.apply) fun _ => rfl, Option.map_map]
    cases hroom : d.room? c.roomId with
    | none => rfl
    | some room =>
        have hid : room.id = c.roomId := by simpa using List.find?_some hroom
        rcases hwhy with hne | hnone
        · have hb : room.id ≠ rid := hid ▸ hne
          simp [hb]
        · by_cases hb : room.id = rid <;> simp [hb, UpdateRoomRequest.apply, hnone]
  by_cases hroom : c.roomId = rid
  · cases hcap : input.capacity with
    | none => exact hsame (.inr hcap) ▸ hd id c hc henrolls hwait
    | some capacity =>
        have henough := (hseats capacity hcap id c hc hroom henrolls).resolve_left hwait
        obtain ⟨room, hrow⟩ : ∃ room, d.room? rid = some room := by
          obtain ⟨room, hmem, hboth⟩ := List.any_eq_true.1 hat
          have hid : room.id = rid := by
            simp only [Bool.and_eq_true, beq_iff_eq] at hboth
            exact hboth.1
          refine Option.isSome_iff_exists.1 (List.find?_isSome.2 ⟨room, hmem, by simpa using hid⟩)
        have hid : room.id = rid := by simpa using List.find?_some hrow
        have hseatsOf : (roomsTable.bump rid input.apply d).seatsOf c = min c.maxSize capacity := by
          simp only [Db.seatsOf, room?_bump (F := input.apply) fun _ => rfl, hroom, hrow]
          simp [hid, UpdateRoomRequest.apply, hcap]
        rw [hseatsOf]
        exact henough
  · exact hsame (.inl hroom) ▸ hd id c hc henrolls hwait

/-- A request is refused and changes nothing, or it has the effect it has. -/
theorem after_cases {α : Type} (call : Call) (g : α → Reply) {p : Tx α} {φ : Db → Prop}
    (hcode : call.code = g <$> p) (hp : p.wlp (fun _ v' => φ v') (fun _ => True) d) :
    call.after d = d ∨ φ (call.after d) := by
  have hmap : (g <$> p).wlp (fun _ v' => φ v') (fun _ => True) d := by
    rw [wlp_map]
    exact hp
  rw [Call.after, hcode]
  rcases alone_cases hmap with ⟨a, v', halone, hφ⟩ | ⟨e, halone, -⟩
  · exact .inr (by rw [halone]; exact hφ)
  · exact .inl (by rw [halone])

theorem firstCome_refl : FirstCome d d := firstCome_of_enrollments_eq rfl

/-- What a request does to the queue and to the seats: in one case analysis for
the law, for the order and for the primary key. -/
theorem step_queue (hids : d.enrollmentIds.Nodup) (hd : SeatsFilled d) (call : Call) :
    (call.after d).enrollmentIds.Nodup ∧ FirstCome d (call.after d) ∧
      (call.KeepsQueue d → SeatsFilled (call.after d)) := by
  have hrefused : ∀ {d'}, d' = d → d'.enrollmentIds.Nodup ∧ FirstCome d d' ∧
      (call.KeepsQueue d → SeatsFilled d') := by
    rintro d' rfl
    exact ⟨hids, firstCome_refl, fun _ => hd⟩
  have hsameIds : ∀ {d' w : Db}, SamePlaces d' w → w.enrollmentIds = d.enrollmentIds →
      d'.enrollmentIds.Nodup := by
    intro d' w hsame hw
    rw [Db.enrollmentIds, enrollments_of_samePlaces hsame]
    change w.enrollmentIds.Nodup
    exact hw ▸ hids
  cases call with
  | enroll env studentId cohortId grants =>
      rcases after_cases (.enroll env studentId cohortId grants) .enroll rfl
        (enroll_effect env studentId cohortId grants) with h | ⟨cohort, row, h⟩
      · exact hrefused h
      · refine ⟨?_, firstCome_of_enrolled h hd, fun _ => filled_of_enrolled h hd⟩
        rw [Db.enrollmentIds, enrollments_of_samePlaces h.rows, List.map_append, List.nodup_append]
        refine ⟨hids, by simp, fun a ha b hb hab => h.fresh ?_⟩
        obtain rfl : b = row.id := by simpa using hb
        exact hab ▸ ha
  | withdraw env eid reasonCode version grants =>
      rcases after_cases (.withdraw env eid reasonCode version grants) .withdraw rfl
        (withdraw_effect env eid reasonCode version grants) with h | ⟨found, cohort, hfound, hcohort, -, h⟩
      · exact hrefused h
      · have hmem : found ∈ d.enrollments := List.mem_of_find?_eq_some hfound
        obtain rfl : found.id = eid := by simpa using List.find?_some hfound
        refine ⟨?_, .of_refilled hids h, fun _ => hd.of_refilled hids hmem hcohort h⟩
        cases h with
        | kept hsame => exact hsameIds hsame (enrollmentIds_bump _ fun _ => rfl)
        | @given next _ _ _ hsame =>
            have hpromoted := enrollmentIds_updateRow (d := enrollmentsTable.bump found.id
              (withdrawnRow env reasonCode) d) (k := next.id) (promotedRow env next) fun _ => rfl
            exact hsameIds hsame (hpromoted.trans (enrollmentIds_bump _ fun _ => rfl))
  | recordResult env eid input version grants =>
      rcases after_cases (.recordResult env eid input version grants) .result rfl
        (recordResult_effect env eid input version grants) with h | ⟨e, c, course, status, haccepted, hdead, h⟩
      · exact hrefused h
      · have hmem : e ∈ d.enrollments := List.mem_of_find?_eq_some haccepted.found
        have hcid : c.id = e.cohortId := by simpa using List.find?_some haccepted.cohort
        obtain rfl : e.id = eid := by simpa using List.find?_some haccepted.found
        rw [h]
        refine ⟨hsameIds rfl (enrollmentIds_bump _ fun _ => rfl),
          firstCome_of_ended (fun _ => hdead) e.id, fun hkeeps => ?_⟩
        refine filled_of_ended hids hd hmem (fun _ => hdead) fun hactive c' hc' henrolls hwait => ?_
        obtain rfl : c = c' := Option.some.inj (haccepted.cohort.symm.trans hc')
        have hcount := activeCount_of_ended (F := fun e =>
          { resultRow env status input e with version := e.version + 1 }) hids hmem e.cohortId
        change d.activeCount _ ≤ (enrollmentsTable.bump e.id (resultRow env status input) d).activeCount
          _ + _ at hcount
        change d.seatsOf c ≤ (enrollmentsTable.bump e.id (resultRow env status input) d).activeCount _
        simp only [hactive, and_self, ↓reduceIte] at hcount
        rcases hkeeps e c course haccepted henrolls with hnobody | hmore
        · obtain ⟨x, hx⟩ := List.exists_mem_of_ne_nil _ hwait
          have hx' := waiting_of_ended (fun _ => hdead) hx
          rw [← hcid, hnobody] at hx'
          simp at hx'
        · rw [hcid] at hmore
          omega
  | update env cid input version grants =>
      rcases after_cases (.update env cid input version grants) .cohort rfl
        (update_effect env cid input version grants) with h | ⟨before, room, haccepted, hsame⟩
      · exact hrefused h
      · refine ⟨hsameIds hsame rfl,
          .of_samePlaces hsame (firstCome_of_enrollments_eq rfl), fun hkeeps => ?_⟩
        refine .of_samePlaces hsame (hd.of_cohort (fun _ => rfl) fun row hrow henrolls hwait => ?_)
        obtain rfl : before = row := Option.some.inj (haccepted.found.symm.trans hrow)
        have henough := (hkeeps before room haccepted henrolls).resolve_left hwait
        obtain ⟨course, shift, hresolves, -⟩ := haccepted.resolves
        have hroom := (Option.filter_eq_some_iff.1 hresolves.room).1
        have hseats : d.seatsOf (input.apply before room.branchId) =
            min (input.maxSize.getD before.maxSize) room.capacity := by
          simp [Db.seatsOf, UpdateCohortValues.apply, hroom]
        rw [hseats]
        exact henough
  | setStatus cid next version grants =>
      rcases after_cases (.setStatus cid next version grants) .cohort rfl
        (setStatus_effect cid next version grants) with h | ⟨before, haccepted, hsame⟩
      · exact hrefused h
      · refine ⟨hsameIds hsame rfl,
          .of_samePlaces hsame (firstCome_of_enrollments_eq rfl), fun hkeeps => ?_⟩
        refine .of_samePlaces hsame (hd.of_cohort (fun _ => rfl) fun row hrow henrolls hwait => ?_)
        obtain rfl : before = row := Option.some.inj (haccepted.found.symm.trans hrow)
        change d.seatsOf before ≤ _
        change next.enrolls = true at henrolls
        have htransition := haccepted.transition
        cases next with
        | «open» => exact (hkeeps before haccepted rfl).resolve_left hwait
        | running =>
            -- Classes start in a cohort that is open.
            refine hd cid before hrow ?_ hwait
            cases hs : before.status <;> simp [hs, COHORT_TRANSITIONS] at htransition ⊢
            rfl
        | planned | completed | cancelled => simp [CohortStatus.enrolls] at henrolls
  | updateRoom rid input version =>
      rcases after_cases (.updateRoom rid input version) .room rfl
        (updateRoom_effect rid input version) with h | ⟨hat, h⟩
      · exact hrefused h
      · rw [h]
        exact ⟨hids, firstCome_of_enrollments_eq rfl, fun hkeeps =>
          hd.of_room hat (hkeeps hat)⟩

end Steps

/-- In a run whose requests keep the queue no seat stays empty while somebody
waits, and whatever is requested next, nobody overtakes the queue. -/
theorem queue_fair {start d : Db} (hids : start.enrollmentIds.Nodup) (hstart : SeatsFilled start)
    (hrun : Runs start d) : SeatsFilled d ∧ ∀ call : Call, FirstCome d (call.after d) := by
  have hboth : d.enrollmentIds.Nodup ∧ SeatsFilled d := by
    induction hrun with
    | start => exact ⟨hids, hstart⟩
    | step call _ hkeeps ih =>
        obtain ⟨hids', -, hfilled⟩ := step_queue ih.1 ih.2 call
        exact ⟨hids', hfilled hkeeps⟩
  exact ⟨hboth.2, fun call => (step_queue hboth.1 hboth.2 call).2.1⟩

/-- The stores of all runs. -/
inductive Served (start : Db) : Db → Prop
  | start : Served start start
  | step {d} (call : Call) : Served start d → Served start (call.after d)

theorem seatsFilled_smallClass : SeatsFilled smallClass :=
  fun _ _ _ _ hwait => (hwait rfl).elim

/-- The seat of the first student goes to the second when the first withdraws. -/
theorem queue_fair_smallClass :
    let d := (Call.withdraw { now := 30 } 11 "moved" 1 registrar).after
      ((asks 2).after ((asks 1).after smallClass))
    (d.inStatus 1 .active).map EnrollmentRow.id = [12] ∧ SeatsFilled d ∧
      ∀ call : Call, FirstCome d (call.after d) := by
  refine ⟨by decide, queue_fair (by decide) seatsFilled_smallClass ?_⟩
  exact .step _ (.step (asks 2) (.step (asks 1) .start trivial) trivial) trivial

/-- When the result of the first student is recorded instead, the second goes on
waiting for a free seat, and the third gets it. -/
theorem seat_left_empty :
    ∃ d, Served smallClass d ∧ ¬ SeatsFilled d ∧ ¬ FirstCome d ((asks 3).after d) := by
  refine ⟨_, .step (.recordResult { now := 30 } 11 ⟨none, none⟩ 1 registrar)
    (.step (asks 2) (.step (asks 1) .start)), fun hfilled => ?_, ?_⟩
  · exact absurd (hfilled 1 _ rfl rfl (by decide)) (by decide)
  · unfold FirstCome
    decide

end Emis.Cohorts
