import Emis.Cohorts.Calls
import Emis.Cohorts.Queue

/-!
# Lowering capacity

A cohort update counts the active enrollments against the new size and room. An
update of a room counts nobody, and the room bounds every cohort that uses it.
-/

namespace Emis.Cohorts

open Transactions

/-- The edits that can lower what bounds a cohort. -/
inductive Edit where
  | cohort (env : Env) (id : Uuid) (input : UpdateCohortValues) (expectedVersion : ℕ)
    (grants : List Grant)
  | room (id : Uuid) (input : UpdateRoomRequest) (expectedVersion : ℕ)

def Edit.call : Edit → Call
  | .cohort env id input v grants => .update env id input v grants
  | .room id input v => .updateRoom id input v

/-- No cohort has more active enrollments than seats. -/
def Seated (d : Db) : Prop := ∀ id row, d.cohort? id = some row → d.activeCount id ≤ d.seatsOf row

/-- An edit of a room that is not refused leaves it a capacity for the active
enrollments of every cohort in it. -/
def Edit.Spacious : Edit → Db → Prop
  | .cohort .., _ => True
  | .room id input v, d => roomsTable.isAt d id v = true → ∀ capacity, input.capacity = some capacity →
      ∀ cid row, d.cohort? cid = some row → row.roomId = id → d.activeCount cid ≤ capacity

/-! ## Cohort updates -/

theorem seated_update {d d' : Db} {env : Env} {cid : Uuid} {input : UpdateCohortValues} {version : ℕ}
    {grants : List Grant} {before : CohortRow} {room : RoomRow} (hd : Seated d)
    (haccepted : UpdateAccepted d env cid input version grants before room)
    (hsame : SamePlaces d' (cohortsTable.bump cid (input.apply · room.branchId) d)) : Seated d' := by
  set w := cohortsTable.bump cid (input.apply · room.branchId) d with hw
  have hplaces : d'.cohorts = w.cohorts ∧ d'.enrollments = w.enrollments ∧ d'.rooms = w.rooms := by
    simpa [SamePlaces, Db.places] using hsame
  intro id row hrow
  have hrow' : w.cohort? id = some row := (cohort?_of_samePlaces hsame id).symm.trans hrow
  have hseats : d'.seatsOf row = d.seatsOf row := by
    simp only [Db.seatsOf, Db.room?, hplaces.2.2]
    rfl
  have hcount : d'.activeCount id = d.activeCount id := by
    simp only [Db.activeCount, Db.inStatus, hplaces.2.1]
    rfl
  rw [hseats, hcount]
  rw [hw, cohort?_bump (input.apply · room.branchId) fun _ => rfl] at hrow'
  obtain ⟨old, hold, hchanged⟩ := Option.map_eq_some_iff.1 hrow'
  have hid : old.id = id := by simpa using List.find?_some hold
  by_cases hcid : id = cid
  · subst hcid
    obtain rfl : old = before := Option.some.inj (hold.symm.trans haccepted.found)
    simp only [hid, beq_self_eq_true, if_true] at hchanged
    obtain ⟨course, shift, hresolves, -⟩ := haccepted.resolves
    obtain ⟨hroom, -⟩ := Option.filter_eq_some_iff.1 hresolves.room
    have henough := haccepted.enough
    simp only [← hchanged, Db.seatsOf, UpdateCohortValues.apply, hroom, Option.map_some,
      Option.getD_some]
    exact henough
  · have hne : (old.id == cid) = false := by simpa [hid] using hcid
    simp only [hne, Bool.false_eq_true, if_false] at hchanged
    exact hd id row (hchanged ▸ hold)

/-! ## Room updates -/

theorem room_of_isAt {d : Db} {rid : Uuid} {version : ℕ} (hat : roomsTable.isAt d rid version = true) :
    ∃ room, d.room? rid = some room := by
  obtain ⟨room, hroom, hboth⟩ := List.any_eq_true.1 hat
  have hid : room.id = rid ∧ room.version = version := by simpa [roomsTable] using hboth
  refine Option.isSome_iff_exists.1 (List.find?_isSome.2 ⟨room, hroom, ?_⟩)
  simp [hid.1]

/-- A room update whose version is current commits, and any other is refused. -/
theorem updateRoom_exact (d : Db) (rid : Uuid) (input : UpdateRoomRequest) (version : ℕ) :
    (updateRoom rid input version).wlp
      (fun _ d' => roomsTable.isAt d rid version = true ∧ d' = roomsTable.bump rid input.apply d)
      (fun _ => roomsTable.isAt d rid version = false) d := by
  simp only [updateRoom, Prog.wlp_bind, Prog.wlp_get, Prog.wlp_expect]
  refine ⟨fun _ _ => wlp_versioned_exact roomsTable (fun hat => ?_) fun hnot => ⟨hnot, hnot⟩, fun hnone => ?_⟩
  · obtain ⟨room, hroom⟩ := room_of_isAt hat
    refine ⟨_, (room?_bump (F := input.apply) fun _ => rfl).trans (congrArg _ hroom), hat, rfl⟩
  · by_contra hat
    obtain ⟨room, hroom⟩ := room_of_isAt (by simpa using hat)
    simp [hnone] at hroom

theorem seatsOf_roomBump {d : Db} {rid : Uuid} {input : UpdateRoomRequest} {room : RoomRow}
    (hroom : d.room? rid = some room) (row : CohortRow) :
    (roomsTable.bump rid input.apply d).seatsOf row =
      if row.roomId = rid then min row.maxSize (input.capacity.getD room.capacity)
      else d.seatsOf row := by
  simp only [Db.seatsOf, room?_bump (F := input.apply) fun _ => rfl]
  have hid : ∀ id r, d.room? id = some r → r.id = id := fun id r hr => by
    simpa using List.find?_some hr
  by_cases hrow : row.roomId = rid
  · simp [hrow, hroom, hid rid room hroom, UpdateRoomRequest.apply]
  · cases hother : d.room? row.roomId with
    | none => simp [hrow]
    | some other => simp [hrow, hid _ _ hother]

theorem seated_room_iff {d : Db} {rid : Uuid} {input : UpdateRoomRequest} {room : RoomRow}
    (hd : Seated d) (hroom : d.room? rid = some room) :
    Seated (roomsTable.bump rid input.apply d) ↔ ∀ capacity, input.capacity = some capacity →
      ∀ cid row, d.cohort? cid = some row → row.roomId = rid → d.activeCount cid ≤ capacity := by
  constructor
  · intro hafter capacity hcapacity cid row hrow hin
    have hle : d.activeCount cid ≤ (roomsTable.bump rid input.apply d).seatsOf row := hafter cid row hrow
    rw [seatsOf_roomBump hroom, if_pos hin, hcapacity] at hle
    exact hle.trans (Nat.min_le_right _ _)
  · intro hspacious cid row hrow
    have hle : d.activeCount cid ≤ d.seatsOf row := hd cid row hrow
    change d.activeCount cid ≤ _
    rw [seatsOf_roomBump hroom]
    split
    · rename_i hin
      rw [Db.seatsOf, hin, hroom] at hle
      cases hcapacity : input.capacity with
      | none => simpa using hle
      | some capacity =>
          have hroomy := hspacious capacity hcapacity cid row hrow hin
          exact Nat.le_min.2 ⟨hle.trans (Nat.min_le_left _ _), hroomy⟩
    · exact hle

/-! ## Every edit -/

/-- An edit is refused and changes nothing, or keeps every cohort within its seats,
exactly if it leaves the room it concerns spacious enough. -/
theorem edit_seated_iff {d : Db} (hd : Seated d) (edit : Edit) :
    (∃ e, edit.call.code.alone d = (.error e, d)) ∨ Seated (edit.call.after d) ↔ edit.Spacious d := by
  cases edit with
  | cohort env cid input v grants =>
      refine iff_of_true ?_ trivial
      rcases Prog.alone_map_cases Reply.cohort (update_effect env cid input v grants) with
        ⟨a, d', hrun, before, room, haccepted, hsame⟩ | ⟨e, hrun, -⟩
      · right
        have hafter : (Edit.cohort env cid input v grants).call.after d = d' := by
          rw [Call.after, Edit.call, Call.code, hrun]
        rw [hafter]
        exact seated_update hd haccepted hsame
      · exact .inl ⟨e, hrun⟩
  | room rid input v =>
      rcases Prog.alone_map_cases Reply.room (updateRoom_exact d rid input v) with
        ⟨a, d', hrun, hat, rfl⟩ | ⟨e, hrun, hnot⟩
      · obtain ⟨room, hroom⟩ := room_of_isAt hat
        have hcode : (Edit.room rid input v).call.code.alone d =
            (.ok (.room a), roomsTable.bump rid input.apply d) := hrun
        have hafter : (Edit.room rid input v).call.after d = roomsTable.bump rid input.apply d :=
          congrArg Prod.snd hcode
        rw [hcode, hafter]
        simp only [Prod.mk.injEq, reduceCtorEq, false_and, exists_false, false_or, Edit.Spacious, hat,
          true_implies]
        exact seated_room_iff hd hroom
      · refine iff_of_true (.inl ⟨e, hrun⟩) fun hat => ?_
        simp [hnot] at hat

/-! ## A class that is full -/

/-- Two students are active in a room for two. -/
def fullClass : Db :=
  { smallClass with
    cohorts := [⟨1, "A1 morning", 1, none, 1, 1, none, 1, 20700, 20760, 2, .open, 1⟩]
    rooms := [⟨1, 1, "Room 1", 2, true, 1⟩]
    enrollments :=
      [EnrollmentsService.newEnrollment { newId := 11 } 1 1 true,
        EnrollmentsService.newEnrollment { newId := 12 } 2 1 true] }

theorem fullClass_seated : Seated fullClass := by
  intro id row hrow
  have hmem := List.mem_of_find?_eq_some hrow
  have hid : row.id = id := by simpa using List.find?_some hrow
  obtain rfl := List.mem_singleton.1 hmem
  subst hid
  decide

/-- A larger room is no harm. -/
theorem edit_seated_larger :
    (∃ e, (Edit.room 1 { capacity := some 3 } 1).call.code.alone fullClass = (.error e, fullClass)) ∨
      Seated ((Edit.room 1 { capacity := some 3 } 1).call.after fullClass) := by
  refine (edit_seated_iff fullClass_seated (.room 1 { capacity := some 3 } 1)).2 fun _ capacity hcapacity => ?_
  obtain rfl : 3 = capacity := by simpa using hcapacity
  intro cid row _ _
  exact (List.length_filter_le _ _).trans (by decide)

/-- A smaller room strands a student. -/
theorem room_strands :
    Seated fullClass ∧ ¬ Seated ((Edit.room 1 { capacity := some 1 } 1).call.after fullClass) := by
  refine ⟨fullClass_seated, fun hafter => ?_⟩
  have hrow := hafter 1 ⟨1, "A1 morning", 1, none, 1, 1, none, 1, 20700, 20760, 2, .open, 1⟩
    (by decide)
  revert hrow
  decide

end Emis.Cohorts
