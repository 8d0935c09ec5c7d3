import Emis.Cohorts.Frames
import Emis.Cohorts.Waitlist

/-!
# Seats under interleaved requests

Clients enroll, withdraw, record results and change cohorts side by side. The
lock of a cohort keeps its row, its waitlist and the set of its enrollments
still; only `recordResult`, which does not take it, may go on to finish an
enrollment that is not waiting. That is enough for a seat counted free under the
lock to be free when the transaction commits.
-/

namespace Emis.Cohorts

open Transactions

/-- The enrollments of a cohort. -/
def Db.roll (d : Db) (cohortId : Uuid) : List EnrollmentRow :=
  d.enrollments.filter fun e => e.cohortId == cohortId

structure SeatInv (d : Db) : Prop where
  ids : (d.enrollments.map EnrollmentRow.id).Nodup
  seats : ∀ id row, d.cohort? id = some row → d.activeCount id ≤ d.seatsOf row
  live : ∀ e ∈ d.enrollments, ∀ e' ∈ d.enrollments, e.status.live → e'.status.live →
    e.studentId = e'.studentId → e.cohortId = e'.cohortId → e.id = e'.id

/-- What the holder of the locks `S` may do to a row. -/
structure RowStep (S : Set Lock) (e e' : EnrollmentRow) : Prop where
  id : e'.id = e.id
  student : e'.studentId = e.studentId
  cohort : e'.cohortId = e.cohortId
  change : e' = e ∨ .enrollment e.id ∈ S ∧ e'.status ≠ .waitlisted ∧
    (.cohort e.cohortId ∈ S ∨ e.status ≠ .waitlisted ∧ e'.status.live = false)

/-- What the holder of the locks `S` may do to the store. -/
structure SeatGuar (S : Set Lock) (d d' : Db) : Prop where
  rooms : ∀ id, (d'.room? id).map RoomRow.capacity = (d.room? id).map RoomRow.capacity
  cohorts : ∀ id, .cohort id ∉ S → d'.cohort? id = d.cohort? id
  rows : ∃ olds news, d'.enrollments = olds ++ news ∧
    List.Forall₂ (RowStep S) d.enrollments olds ∧
    ∀ e ∈ news, .cohort e.cohortId ∈ S ∧ .enrollment e.id ∈ S

def seatProtocol : Protocol Db Lock where
  Inv := SeatInv
  Guar := SeatGuar

/-! ## What the holder of a cohort's lock relies on -/

/-- What others may do to the enrollments of a cohort whose lock they lack. -/
structure Fades (e e' : EnrollmentRow) : Prop where
  id : e'.id = e.id
  student : e'.studentId = e.studentId
  cohort : e'.cohortId = e.cohortId
  change : e' = e ∨ e.status ≠ .waitlisted ∧ e'.status ≠ .waitlisted ∧ e'.status.live = false

theorem Fades.refl (e : EnrollmentRow) : Fades e e := ⟨rfl, rfl, rfl, .inl rfl⟩

theorem Fades.trans {e₁ e₂ e₃ : EnrollmentRow} (h : Fades e₁ e₂) (h' : Fades e₂ e₃) :
    Fades e₁ e₃ where
  id := h'.id.trans h.id
  student := h'.student.trans h.student
  cohort := h'.cohort.trans h.cohort
  change := by
    rcases h'.change with rfl | ⟨hwait, hrest⟩
    · exact h.change
    · rcases h.change with rfl | ⟨hwait', -⟩
      · exact .inr ⟨hwait, hrest⟩
      · exact .inr ⟨hwait', hrest⟩

theorem Fades.eq_of_waitlisted {e e' : EnrollmentRow} (h : Fades e e')
    (he : e.status = .waitlisted ∨ e'.status = .waitlisted) : e' = e := by
  rcases h.change with heq | ⟨hold, hnew, -⟩
  · exact heq
  · exact (he.elim hold hnew).elim

theorem Fades.live {e e' : EnrollmentRow} (h : Fades e e') (he : e'.status.live) :
    e.status.live := by
  rcases h.change with rfl | ⟨-, -, hdead⟩
  · exact he
  · simp [hdead] at he

theorem RowStep.fades {T : Set Lock} {e e' : EnrollmentRow} (h : RowStep T e e')
    (hc : .cohort e.cohortId ∉ T) : Fades e e' where
  id := h.id
  student := h.student
  cohort := h.cohort
  change := by
    rcases h.change with heq | ⟨-, hnew, hlock | ⟨hold, hdead⟩⟩
    · exact .inl heq
    · exact (hc hlock).elim
    · exact .inr ⟨hold, hnew, hdead⟩

section Rely

variable {S T : Set Lock} {d d' : Db} {c id : Uuid}

theorem other_rooms (h : seatProtocol.Other S d d') (id : Uuid) :
    (d'.room? id).map RoomRow.capacity = (d.room? id).map RoomRow.capacity := by
  obtain ⟨-, T, -, hguar⟩ := h
  exact hguar.rooms id

theorem rely_capacity (h : seatProtocol.Rely S d d') (id : Uuid) :
    (d'.room? id).map RoomRow.capacity = (d.room? id).map RoomRow.capacity :=
  h.same (χ := fun d => (d.room? id).map RoomRow.capacity) fun _ _ hstep => other_rooms hstep id

theorem rely_seatsOf (h : seatProtocol.Rely S d d') (row : CohortRow) :
    d'.seatsOf row = d.seatsOf row := by
  simp only [Db.seatsOf, rely_capacity h row.roomId]

theorem rely_cohort (hc : .cohort c ∈ S) (h : seatProtocol.Rely S d d') :
    d'.cohort? c = d.cohort? c := by
  refine h.same (χ := fun d => d.cohort? c) fun d₁ d₂ hstep => ?_
  obtain ⟨-, T, hdisj, hguar⟩ := hstep
  exact hguar.cohorts c fun hT => Set.disjoint_left.1 hdisj hc hT

theorem guar_roll (hguar : SeatGuar T d d') (hc : .cohort c ∉ T) :
    List.Forall₂ Fades (d.roll c) (d'.roll c) := by
  obtain ⟨olds, news, hrows, hstep, hnews⟩ := hguar.rows
  have hnone : news.filter (fun e => e.cohortId == c) = [] := by
    refine List.filter_eq_nil_iff.2 fun e he hec => hc ?_
    have hcohort : e.cohortId = c := by simpa using hec
    exact hcohort ▸ (hnews e he).1
  have hfilter := rowwise_filter (p := fun e => e.cohortId == c)
    (fun e e' h => by simp only [h.cohort]) hstep
  rw [Db.roll, Db.roll, hrows, List.filter_append, hnone, List.append_nil]
  refine hfilter.imp fun e e' h => h.2.fades ?_
  have hcohort : e.cohortId = c := by simpa using h.1
  exact hcohort ▸ hc

theorem rely_roll (hc : .cohort c ∈ S) (h : seatProtocol.Rely S d d') :
    List.Forall₂ Fades (d.roll c) (d'.roll c) := by
  refine h.stable (φ := fun x => List.Forall₂ Fades (d.roll c) (x.roll c)) ?_
    (List.forall₂_same.2 fun e _ => .refl e)
  rintro d₁ d₂ ⟨-, T, hdisj, hguar⟩ hroll
  refine rowwise_trans (fun _ _ _ => Fades.trans) hroll (guar_roll hguar fun hT => ?_)
  exact Set.disjoint_left.1 hdisj hc hT

/-- A fact about the row with a given id that no step of a row destroys. -/
theorem rely_row {P : EnrollmentRow → Prop}
    (hP : ∀ T e e', Disjoint S T → e.id = id → RowStep T e e' → P e → P e')
    (h : seatProtocol.Rely S d d') (he : ∃ e ∈ d.enrollments, e.id = id ∧ P e) :
    ∃ e ∈ d'.enrollments, e.id = id ∧ P e := by
  refine h.stable (φ := fun d => ∃ e ∈ d.enrollments, e.id = id ∧ P e) ?_ he
  rintro d₁ d₂ ⟨-, T, hdisj, hguar⟩ ⟨e, hmem, hid, hPe⟩
  obtain ⟨olds, news, hrows, hstep, -⟩ := hguar.rows
  obtain ⟨e', hmem', hrow⟩ := rowwise_exists hstep hmem
  refine ⟨e', ?_, hrow.id.trans hid, hP T e e' hdisj hid hrow hPe⟩
  rw [hrows]
  exact List.mem_append_left _ hmem'

/-- A new id stays unused while its entry in the primary key is locked. -/
theorem rely_fresh (hid : .enrollment id ∈ S) (h : seatProtocol.Rely S d d')
    (hfresh : id ∉ d.enrollments.map EnrollmentRow.id) :
    id ∉ d'.enrollments.map EnrollmentRow.id := by
  refine h.stable (φ := fun d => id ∉ d.enrollments.map EnrollmentRow.id) ?_ hfresh
  rintro d₁ d₂ ⟨-, T, hdisj, hguar⟩ hfresh
  obtain ⟨olds, news, hrows, hstep, hnews⟩ := hguar.rows
  have holds : olds.map EnrollmentRow.id = d₁.enrollments.map EnrollmentRow.id :=
    rowwise_map (fun _ _ h => h.id) hstep
  rw [hrows, List.map_append, holds, List.mem_append, not_or]
  refine ⟨hfresh, fun hmem => ?_⟩
  obtain ⟨e, he, rfl⟩ := List.mem_map.1 hmem
  exact Set.disjoint_left.1 hdisj hid (hnews e he).2

end Rely

/-! ## Changes within the guarantee -/

theorem countP_or_le {ρ : Type} (p q : ρ → Bool) (rows : List ρ) :
    rows.countP (fun r => p r || q r) ≤ rows.countP p + rows.countP q := by
  induction rows with
  | nil => exact Nat.le_refl _
  | cons r rows ih =>
      simp only [List.countP_cons]
      cases p r <;> cases q r <;> simp <;> omega

theorem activeCount_eq (d : Db) (c : Uuid) :
    d.activeCount c = (d.roll c).countP fun e => e.status == .active := by
  rw [Db.activeCount, Db.inStatus, Db.roll, List.countP_filter, List.countP_eq_length_filter]
  refine congrArg List.length (List.filter_congr fun e _ => ?_)
  exact Bool.and_comm _ _

/-- Seats are counted alike in stores that agree on places. -/
theorem SeatInv.of_places {d d' : Db} (h : d'.places = d.places) (hd : SeatInv d) :
    SeatInv d' := by
  simp only [Db.places, Prod.mk.injEq] at h
  obtain ⟨hcohorts, henrollments, hrooms⟩ := h
  refine ⟨henrollments ▸ hd.ids, fun id row hrow => ?_, henrollments ▸ hd.live⟩
  have hseats := hd.seats id row (by simpa only [Db.cohort?, hcohorts] using hrow)
  simpa only [Db.activeCount, Db.inStatus, Db.seatsOf, Db.room?, henrollments, hrooms] using hseats

theorem SeatGuar.of_places {S : Set Lock} {d d' d'' : Db} (h : d''.places = d'.places)
    (hd : SeatGuar S d d') : SeatGuar S d d'' := by
  simp only [Db.places, Prod.mk.injEq] at h
  obtain ⟨hcohorts, henrollments, hrooms⟩ := h
  refine ⟨fun id => ?_, fun id hid => ?_, henrollments ▸ hd.rows⟩
  · simpa only [Db.room?, hrooms] using hd.rooms id
  · simpa only [Db.cohort?, hcohorts] using hd.cohorts id hid

section Effects

variable {S : Set Lock} {d : Db}

theorem RowStep.refl (e : EnrollmentRow) : RowStep S e e := ⟨rfl, rfl, rfl, .inl rfl⟩

theorem RowStep.trans {e₁ e₂ e₃ : EnrollmentRow} (h : RowStep S e₁ e₂) (h' : RowStep S e₂ e₃) :
    RowStep S e₁ e₃ where
  id := h'.id.trans h.id
  student := h'.student.trans h.student
  cohort := h'.cohort.trans h.cohort
  change := by
    rcases h'.change with rfl | ⟨hlock', hnew', hhow'⟩
    · exact h.change
    · rcases h.change with rfl | ⟨hlock, -, hhow⟩
      · exact .inr ⟨hlock', hnew', hhow'⟩
      · refine .inr ⟨hlock, hnew', ?_⟩
        rcases hhow with hc | ⟨hold, -⟩
        · exact .inl hc
        · exact hhow'.imp (fun hc => h.cohort ▸ hc) fun hdead => ⟨hold, hdead.2⟩

theorem SeatGuar.trans {d' d'' : Db} (h : SeatGuar S d d') (h' : SeatGuar S d' d'') :
    SeatGuar S d d'' where
  rooms id := (h'.rooms id).trans (h.rooms id)
  cohorts id hid := (h'.cohorts id hid).trans (h.cohorts id hid)
  rows := by
    obtain ⟨olds, news, hrows, hstep, hnews⟩ := h.rows
    obtain ⟨olds', news', hrows', hstep', hnews'⟩ := h'.rows
    rw [hrows] at hstep'
    obtain ⟨olds₁, olds₂, h₁, h₂, rfl⟩ : ∃ l₁ l₂, List.Forall₂ (RowStep S) olds l₁ ∧
        List.Forall₂ (RowStep S) news l₂ ∧ olds' = l₁ ++ l₂ :=
      ⟨olds'.take olds.length, olds'.drop olds.length,
        (List.forall₂_take_append _ _ _ hstep'.flip).flip,
        (List.forall₂_drop_append _ _ _ hstep'.flip).flip, (List.take_append_drop _ _).symm⟩
    refine ⟨olds₁, olds₂ ++ news', by rw [hrows', List.append_assoc],
      rowwise_trans (fun _ _ _ => RowStep.trans) hstep h₁, fun e he => ?_⟩
    rcases List.mem_append.1 he with hold | hnew
    · obtain ⟨e₀, he₀, hrow⟩ := rowwise_exists h₂.flip hold
      exact hrow.cohort ▸ hrow.id ▸ hnews e₀ he₀
    · exact hnews' e hnew

/-- Rows may change in place. -/
theorem guar_of_rows {h : EnrollmentRow → EnrollmentRow}
    (hstep : ∀ e ∈ d.enrollments, RowStep S e (h e)) :
    SeatGuar S d { d with enrollments := d.enrollments.map h } where
  rooms _ := rfl
  cohorts _ _ := rfl
  rows := by
    refine ⟨d.enrollments.map h, [], (List.append_nil _).symm, ?_, by simp⟩
    exact List.forall₂_map_right_iff.2 (List.forall₂_same.2 hstep)

theorem roll_map {h : EnrollmentRow → EnrollmentRow} (hcohort : ∀ e, (h e).cohortId = e.cohortId)
    (c : Uuid) :
    Db.roll { d with enrollments := d.enrollments.map h } c = (d.roll c).map h := by
  rw [Db.roll, Db.roll, List.filter_map]
  refine congrArg (List.map h) (List.filter_congr fun e _ => ?_)
  simp [hcohort]

/-- A change in place that revives nobody keeps the invariant if the seats are
still enough. -/
theorem inv_of_rows {h : EnrollmentRow → EnrollmentRow} (hd : SeatInv d)
    (hid : ∀ e, (h e).id = e.id) (hstudent : ∀ e, (h e).studentId = e.studentId)
    (hcohort : ∀ e, (h e).cohortId = e.cohortId)
    (hlive : ∀ e ∈ d.enrollments, (h e).status.live → e.status.live)
    (hseats : ∀ c row, d.cohort? c = some row →
      ((d.roll c).map h).countP (fun e => e.status == .active) ≤ d.seatsOf row) :
    SeatInv { d with enrollments := d.enrollments.map h } where
  ids := by
    rw [List.map_map]
    exact (List.map_congr_left fun e _ => hid e) ▸ hd.ids
  seats c row hrow := by
    rw [activeCount_eq, roll_map hcohort]
    exact hseats c row hrow
  live := by
    intro e he e' he' hl hl' hs hc
    obtain ⟨e₀, he₀, rfl⟩ := List.mem_map.1 he
    obtain ⟨e₁, he₁, rfl⟩ := List.mem_map.1 he'
    rw [hid, hid]
    refine hd.live e₀ he₀ e₁ he₁ (hlive _ he₀ hl) (hlive _ he₁ hl') ?_ ?_
    · rw [← hstudent e₀, ← hstudent e₁, hs]
    · rw [← hcohort e₀, ← hcohort e₁, hc]

/-- A row changed under its own lock that ends, or that waits for nothing. -/
theorem ended_of_change {F : EnrollmentRow → EnrollmentRow} {id : Uuid} (hd : SeatInv d)
    (hid : ∀ e, (F e).id = e.id) (hstudent : ∀ e, (F e).studentId = e.studentId)
    (hcohort : ∀ e, (F e).cohortId = e.cohortId) (hdead : ∀ e, (F e).status.live = false)
    (hlock : .enrollment id ∈ S)
    (hrow : ∀ e ∈ d.enrollments, e.id = id → .cohort e.cohortId ∈ S ∨ e.status ≠ .waitlisted) :
    SeatGuar S d { d with enrollments := changeWhere (fun e => e.id == id) F d.enrollments } ∧
      SeatInv { d with enrollments := changeWhere (fun e => e.id == id) F d.enrollments } := by
  set h : EnrollmentRow → EnrollmentRow := fun e => if e.id == id then F e else e with hh
  have hcases : ∀ e, e.id = id ∧ h e = F e ∨ e.id ≠ id ∧ h e = e := fun e => by
    by_cases he : e.id = id <;> simp [hh, he]
  refine ⟨guar_of_rows (h := h) fun e he => ?_,
    inv_of_rows (h := h) hd (fun e => ?_) (fun e => ?_) (fun e => ?_) (fun e _ hl => ?_)
      fun c row hc => ?_⟩
  · rcases hcases e with ⟨heid, hF⟩ | ⟨-, hF⟩
    · have hnew : (F e).status ≠ .waitlisted := fun hw => by
        simpa [hw, EnrollmentStatus.live] using hdead e
      rw [hF]
      refine ⟨hid e, hstudent e, hcohort e, .inr ⟨heid ▸ hlock, hnew, ?_⟩⟩
      exact (hrow e he heid).imp_right fun hw => ⟨hw, hdead e⟩
    · rw [hF]
      exact .refl e
  · rcases hcases e with ⟨-, hF⟩ | ⟨-, hF⟩ <;> simp [hF, hid]
  · rcases hcases e with ⟨-, hF⟩ | ⟨-, hF⟩ <;> simp [hF, hstudent]
  · rcases hcases e with ⟨-, hF⟩ | ⟨-, hF⟩ <;> simp [hF, hcohort]
  · rcases hcases e with ⟨-, hF⟩ | ⟨-, hF⟩
    · simp [hF, hdead] at hl
    · exact hF ▸ hl
  · refine Nat.le_trans ?_ (activeCount_eq d c ▸ hd.seats c row hc)
    rw [List.countP_map]
    refine List.countP_mono_left fun e _ he => ?_
    rcases hcases e with ⟨-, hF⟩ | ⟨-, hF⟩
    · have hactive : (F e).status = .active := by simpa [hF] using he
      simpa [hactive, EnrollmentStatus.live] using hdead e
    · simpa [hF] using he

/-- The longest-waiting student may get a seat that is free. -/
theorem safe_of_promotion {F : EnrollmentRow → EnrollmentRow} {next : EnrollmentRow}
    {c : Uuid} (hd : SeatInv d)
    (hid : ∀ e, (F e).id = e.id) (hstudent : ∀ e, (F e).studentId = e.studentId)
    (hcohort : ∀ e, (F e).cohortId = e.cohortId) (hactive : ∀ e, (F e).status = .active)
    (hnext : next ∈ d.waitlist c) (hlock : .enrollment next.id ∈ S) (hclock : .cohort c ∈ S)
    (hfree : ∀ row, d.cohort? c = some row → d.activeCount c < d.seatsOf row) :
    SeatGuar S d { d with enrollments := changeWhere (fun e => e.id == next.id) F d.enrollments } ∧
      SeatInv { d with
        enrollments := changeWhere (fun e => e.id == next.id) F d.enrollments } := by
  obtain ⟨hmem, hnc, hnw⟩ := mem_waitlist.1 hnext
  set h : EnrollmentRow → EnrollmentRow := fun e => if e.id == next.id then F e else e with hh
  have hcases : ∀ e, e.id = next.id ∧ h e = F e ∨ e.id ≠ next.id ∧ h e = e := fun e => by
    by_cases he : e.id = next.id <;> simp [hh, he]
  have honly : ∀ e ∈ d.enrollments, e.id = next.id → e = next := fun e he heid =>
    eq_of_key_eq hd.ids he hmem heid
  refine ⟨guar_of_rows (h := h) fun e he => ?_,
    inv_of_rows (h := h) hd (fun e => ?_) (fun e => ?_) (fun e => ?_) (fun e he hl => ?_)
      fun c' row hc' => ?_⟩
  · rcases hcases e with ⟨heid, hF⟩ | ⟨-, hF⟩
    · obtain rfl := honly e he heid
      rw [hF]
      exact ⟨hid e, hstudent e, hcohort e,
        .inr ⟨hlock, by simp [hactive], .inl (hnc ▸ hclock)⟩⟩
    · rw [hF]
      exact .refl e
  · rcases hcases e with ⟨-, hF⟩ | ⟨-, hF⟩ <;> simp [hF, hid]
  · rcases hcases e with ⟨-, hF⟩ | ⟨-, hF⟩ <;> simp [hF, hstudent]
  · rcases hcases e with ⟨-, hF⟩ | ⟨-, hF⟩ <;> simp [hF, hcohort]
  · rcases hcases e with ⟨heid, -⟩ | ⟨-, hF⟩
    · simp [honly e he heid, hnw, EnrollmentStatus.live]
    · exact hF ▸ hl
  · -- One row at most turns active, and only in this cohort.
    have hmono : (d.roll c').countP (fun e => (h e).status == .active) ≤
        (d.roll c').countP fun e => e.status == .active || e == next := by
      refine List.countP_mono_left fun e he hac => ?_
      rcases hcases e with ⟨heid, -⟩ | ⟨-, hF⟩
      · simp [honly e (List.mem_filter.1 he).1 heid]
      · simpa [hF] using Or.inl hac
    have hsplit : (d.roll c').countP (fun e => e.status == .active || e == next) ≤
        (d.roll c').countP (fun e => e.status == .active) + (d.roll c').count next :=
      countP_or_le _ _ _
    rw [List.countP_map]
    refine Nat.le_trans hmono (Nat.le_trans hsplit ?_)
    rw [← activeCount_eq]
    by_cases hcc : c' = c
    · subst hcc
      have hone : (d.roll c').count next ≤ 1 :=
        List.nodup_iff_count_le_one.1 ((List.Nodup.of_map _ hd.ids).filter _) next
      have hlt := hfree row hc'
      omega
    · have hzero : (d.roll c').count next = 0 := by
        refine List.count_eq_zero_of_not_mem fun hroll => hcc ?_
        have hrc : next.cohortId = c' := by simpa using (List.mem_filter.1 hroll).2
        exact hrc.symm.trans hnc
      rw [hzero]
      exact hd.seats c' row hc'

/-- A row may be added under the cohort's lock and its own. -/
theorem guar_of_insert {row : EnrollmentRow} (hc : .cohort row.cohortId ∈ S)
    (hid : .enrollment row.id ∈ S) :
    SeatGuar S d { d with enrollments := d.enrollments ++ [row] } where
  rooms _ := rfl
  cohorts _ _ := rfl
  rows := ⟨d.enrollments, [row], rfl, List.forall₂_same.2 fun e _ => .refl e, by simp [hc, hid]⟩

theorem inv_of_insert {row : EnrollmentRow} (hd : SeatInv d)
    (hid : row.id ∉ d.enrollments.map EnrollmentRow.id)
    (hlive : row.status.live → ∀ e ∈ d.enrollments, e.status.live →
      e.studentId = row.studentId → e.cohortId ≠ row.cohortId)
    (hseats : row.status = .active → ∀ c, d.cohort? row.cohortId = some c →
      d.activeCount row.cohortId < d.seatsOf c) :
    SeatInv { d with enrollments := d.enrollments ++ [row] } where
  ids := by
    rw [List.map_append, List.nodup_append]
    refine ⟨hd.ids, by simp, fun a ha b hb hab => hid ?_⟩
    obtain rfl : b = row.id := by simpa using hb
    exact hab ▸ ha
  seats c cohort hrow := by
    have hold := hd.seats c cohort hrow
    rw [activeCount_eq] at hold ⊢
    rw [Db.roll, List.filter_append, List.countP_append]
    by_cases hnew : row.cohortId = c ∧ row.status = .active
    · obtain ⟨rfl, hactive⟩ := hnew
      have hlt := hseats hactive cohort hrow
      rw [activeCount_eq] at hlt
      have hone : (List.filter (fun e => e.cohortId == row.cohortId) [row]).countP
          (fun e => e.status == .active) ≤ 1 :=
        (List.countP_le_length).trans (List.length_filter_le _ _)
      exact Nat.le_trans (Nat.add_le_add_left hone _) hlt
    · have hzero : (List.filter (fun e => e.cohortId == c) [row]).countP
          (fun e => e.status == .active) = 0 := by
        refine List.countP_eq_zero.2 fun e he => ?_
        obtain ⟨rfl, hc⟩ : e = row ∧ e.cohortId = c := by simpa using he
        simpa [hc] using hnew
      rw [hzero]
      exact hold
  live := by
    have hside : ∀ e ∈ d.enrollments, e.status.live → row.status.live →
        e.studentId = row.studentId → e.cohortId = row.cohortId → False :=
      fun e he hl hl' hs hc => hlive hl' e he hl hs hc
    intro e he e' he' hl hl' hs hc
    rcases List.mem_append.1 he with hold | hnew <;>
      rcases List.mem_append.1 he' with hold' | hnew'
    · exact hd.live e hold e' hold' hl hl' hs hc
    · obtain rfl : e' = row := by simpa using hnew'
      exact (hside e hold hl hl' hs hc).elim
    · obtain rfl : e = row := by simpa using hnew
      exact (hside e' hold' hl' hl hs.symm hc.symm).elim
    · obtain rfl : e = row := by simpa using hnew
      obtain rfl : e' = e := by simpa using hnew'
      rfl

theorem cohort?_change {F : CohortRow → CohortRow} (hid : ∀ c, (F c).id = c.id) (cid c : Uuid) :
    Db.cohort? { d with cohorts := changeWhere (fun c => c.id == cid) F d.cohorts } c =
      (d.cohort? c).map fun row => if row.id == cid then F row else row :=
  find?_changeWhere fun row => by rw [hid]

/-- A cohort may change under its lock if it keeps seats enough. -/
theorem safe_of_cohort {F : CohortRow → CohortRow} {cid : Uuid} (hd : SeatInv d)
    (hid : ∀ c, (F c).id = c.id) (hlock : .cohort cid ∈ S)
    (hseats : ∀ row, d.cohort? cid = some row → d.activeCount cid ≤ d.seatsOf (F row)) :
    SeatGuar S d { d with cohorts := changeWhere (fun c => c.id == cid) F d.cohorts } ∧
      SeatInv { d with cohorts := changeWhere (fun c => c.id == cid) F d.cohorts } := by
  have hother : ∀ {c row}, d.cohort? c = some row → row.id = c := fun h => by
    simpa using List.find?_some h
  refine ⟨⟨fun _ => rfl, fun c hc => ?_, d.enrollments, [], (List.append_nil _).symm,
    List.forall₂_same.2 fun e _ => .refl e, by simp⟩, hd.ids, fun c row hrow => ?_, hd.live⟩
  · rw [cohort?_change hid]
    cases h : d.cohort? c with
    | none => rfl
    | some row =>
        have hne : row.id ≠ cid := fun heq => hc (by rw [← hother h, heq]; exact hlock)
        simp [hne]
  · rw [cohort?_change hid] at hrow
    obtain ⟨row₀, hrow₀, rfl⟩ := Option.map_eq_some_iff.1 hrow
    by_cases hcid : row₀.id = cid
    · obtain rfl : c = cid := (hother hrow₀).symm.trans hcid
      have hF : (if row₀.id == c then F row₀ else row₀) = F row₀ := by simp [hcid]
      rw [hF]
      exact hseats row₀ hrow₀
    · have hF : (if row₀.id == cid then F row₀ else row₀) = row₀ := by simp [hcid]
      rw [hF]
      exact hd.seats c row₀ hrow₀

/-- A room may change in anything but its capacity. -/
theorem safe_of_room {F : RoomRow → RoomRow} {rid : Uuid} (hd : SeatInv d)
    (hid : ∀ r, (F r).id = r.id) (hcapacity : ∀ r, (F r).capacity = r.capacity) :
    SeatGuar S d { d with rooms := changeWhere (fun r => r.id == rid) F d.rooms } ∧
      SeatInv { d with rooms := changeWhere (fun r => r.id == rid) F d.rooms } := by
  have hrooms : ∀ id, (Db.room? { d with
      rooms := changeWhere (fun r => r.id == rid) F d.rooms } id).map RoomRow.capacity =
        (d.room? id).map RoomRow.capacity := by
    intro id
    rw [Db.room?, find?_changeWhere fun r => by rw [hid], Option.map_map, Db.room?]
    refine congrArg (fun g => Option.map g _) (funext fun r => ?_)
    by_cases hr : r.id = rid <;> simp [hr, hcapacity]
  refine ⟨⟨hrooms, fun _ _ => rfl, d.enrollments, [], (List.append_nil _).symm,
    List.forall₂_same.2 fun e _ => .refl e, by simp⟩, hd.ids, fun c row hrow => ?_, hd.live⟩
  have hseats := hd.seats c row hrow
  simp only [Db.seatsOf, ← hrooms row.roomId] at hseats
  exact hseats

end Effects

end Emis.Cohorts
