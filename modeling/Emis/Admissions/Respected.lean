import Emis.Admissions.Interleaved
import Emis.Library.Script

/-!
# The pipeline is respected

What the applications and students go through in every interleaving whose
requests do not run ahead of the versions they name, and a run that shows what
happens when one does.
-/

namespace Emis.Admissions

open Transactions Protocol
open Cohorts (ApplicationStatus)

/-- What one committed step may do to an application. -/
structure Respected (a a' : ApplicationRow) : Prop where
  id : a'.id = a.id
  status : a'.status = a.status ∨ canTransition a.status a'.status = true
  closed : isClosed a.status = true → a' = a
  student : Linked a a'

theorem Respected.of_step {S : Set Lock} {a a' : ApplicationRow} (h : AppStep S a a') :
    Respected a a' := by
  rcases h.change with rfl | ⟨-, hmoves⟩
  · exact ⟨rfl, .inl rfl, fun _ => rfl, .inl ⟨rfl, fun hc => hc⟩⟩
  · refine ⟨h.id, hmoves.status, fun hclosed => ?_, hmoves.linked⟩
    simp [hmoves.unfinished] at hclosed

/-- Those who were registered on the way, each for an application of their own that
had no student before. -/
def Created (d d' : Db) : Prop :=
  ∃ created : List StudentRow, ∃ origins : List Uuid,
    d'.students = d.students ++ created ∧ origins.Nodup ∧
      List.Forall₂ (fun s i => (∀ a ∈ d.applications, a.id = i → a.studentId = none) ∧
        ∃ a ∈ d'.applications, a.id = i ∧ a.studentId = some s.id) created origins

/-- What a stretch of a run may have done. -/
structure Forward (d d' : Db) : Prop where
  ids : d'.applications.map ApplicationRow.id = d.applications.map ApplicationRow.id
  closed : ∀ a ∈ d.applications, isClosed a.status = true → a ∈ d'.applications
  student : ∀ a ∈ d.applications, a.studentId ≠ none →
    ∃ a' ∈ d'.applications, a'.id = a.id ∧ a'.studentId = a.studentId
  created : Created d d'

section Runs

variable {S : Set Lock} {d d' d'' : Db}

theorem Forward.refl (d : Db) : Forward d d where
  ids := rfl
  closed _ ha _ := ha
  student a ha _ := ⟨a, ha, rfl, rfl⟩
  created := ⟨[], [], by simp⟩

/-- A student who is there is never replaced. -/
theorem student_stays (h : PipeGuar S d d') {a : ApplicationRow} (ha : a ∈ d.applications)
    (hsome : a.studentId ≠ none) : ∃ a' ∈ d'.applications, a'.id = a.id ∧ a'.studentId = a.studentId := by
  obtain ⟨a', ha', hstep⟩ := rowwise_exists h.rows ha
  refine ⟨a', ha', hstep.id, ?_⟩
  rcases (Respected.of_step hstep).student with ⟨heq, -⟩ | ⟨hnone, -⟩
  · exact heq
  · exact (hsome hnone).elim

theorem Forward.tail (h : Forward d d') (hd' : PipeInv d') (hguar : PipeGuar S d' d'') : Forward d d'' := by
  refine ⟨?_, fun a ha hclosed => ?_, fun a ha hsome => ?_, ?_⟩
  · rw [rowwise_map (fun _ _ hstep => hstep.id) hguar.rows]
    exact h.ids
  · obtain ⟨a', ha', hstep⟩ := rowwise_exists hguar.rows (h.closed a ha hclosed)
    rwa [← (Respected.of_step hstep).closed hclosed]
  · obtain ⟨a', ha', hid', hstudent'⟩ := h.student a ha hsome
    obtain ⟨a'', ha'', hid'', hstudent''⟩ := student_stays hguar ha' (hstudent' ▸ hsome)
    exact ⟨a'', ha'', hid''.trans hid', hstudent''.trans hstudent'⟩
  · obtain ⟨created, origins, hstudents, hnodup, hrows⟩ := h.created
    have hrows' : List.Forall₂ (fun s i => (∀ a ∈ d.applications, a.id = i → a.studentId = none) ∧
        ∃ a ∈ d''.applications, a.id = i ∧ a.studentId = some s.id) created origins := by
      refine hrows.imp fun s i hsi => ⟨hsi.1, ?_⟩
      obtain ⟨-, a, ha, rfl, hsome⟩ := hsi
      obtain ⟨a', ha', hid', hstudent'⟩ := student_stays hguar ha (by simp [hsome])
      exact ⟨a', ha', hid', hstudent'.trans hsome⟩
    rcases hguar.students with hsame | ⟨new, hnew, -, a, ha, a', ha', hid', hnone, hlinked⟩
    · exact ⟨created, origins, hsame.trans hstudents, hnodup, hrows'⟩
    · refine ⟨created ++ [new], origins ++ [a.id], ?_, ?_, ?_⟩
      · rw [hnew, hstudents, List.append_assoc]
      · -- The application had no student yet, those of the others have theirs.
        rw [List.nodup_append]
        refine ⟨hnodup, List.nodup_singleton _, fun i hi j hj => ?_⟩
        obtain rfl : j = a.id := by simpa using hj
        obtain ⟨s, -, -, b, hb, hbid, hsome⟩ := rowwise_exists hrows.flip hi
        rintro rfl
        obtain rfl := eq_of_key_eq hd'.applications hb ha hbid
        simp [hnone] at hsome
      · refine List.rel_append hrows' (.cons ⟨fun b hb hid => ?_, a', ha', hid', hlinked⟩ .nil)
        by_contra hsome
        obtain ⟨b', hb', hbid', hstudent'⟩ := h.student b hb hsome
        obtain rfl := eq_of_key_eq hd'.applications hb' ha (hbid'.trans hid)
        exact hsome (hstudent'.symm.trans hnone)

end Runs

theorem respected_of_sound {ι : Type} [DecidableEq ι] {w w' : World ι Call Db Lock Error Reply}
    {lab : Label ι Call Error Reply}
    (hsound : pipeProtocol.Sound (fun _ _ _ _ => True) (fun _ _ _ => True) w)
    (hstep : Step Call.code w lab w') :
    List.Forall₂ Respected w.db.applications w'.db.applications := by
  rcases hsound.change hstep with hdb | ⟨S, hguar⟩
  · rw [hdb]
    exact List.forall₂_same.2 fun a _ => .of_step (S := ∅) (.refl a)
  · exact hguar.rows.imp fun _ _ hstep => .of_step hstep

/-- Where no request begins with a version that is ahead of its application's, the
pipeline is respected: in every step, and over any stretch of the run. -/
theorem pipeline_respected {ι : Type} [DecidableEq ι] {start w w' : World ι Call Db Lock Error Reply}
    (hidle : start.Idle) (hstart : PipeInv start.db) (hw : Admitted Call.code Call.current start w)
    (hw' : Admitted Call.code Call.current w w') :
    Forward w.db w'.db ∧ ∀ lab w'', Step Call.code w' lab w'' →
      List.Forall₂ Respected w'.db.applications w''.db.applications := by
  have hsafe := fun (call : Call) (d : Db) (hd : pipeProtocol.Inv d) => code_kept call d hd
  have hsound : pipeProtocol.Sound (fun _ _ _ _ => True) (fun _ _ _ => True) w :=
    (Sound.of_idle hidle hstart).admitted hsafe hw
  have hsound' := hsound.admitted hsafe hw'
  refine ⟨?_, fun lab w'' hstep => respected_of_sound hsound' hstep⟩
  clear hsound'
  induction hw' with
  | start => exact .refl w.db
  | step hw₁ _ hstep ih =>
      have hsound₁ := hsound.admitted hsafe hw₁
      rcases hsound₁.change hstep with hdb | ⟨S, hguar⟩
      · rw [hdb]
        exact ih
      · exact ih.tail hsound₁.inv hguar

/-! ## An office -/

def applicant : Person :=
  { givenName := "Abel", fatherName := "Bekele", gender := .male, phone := "+251911" }

/-- One applicant has an offer, and one student is there already. -/
def offered : Db where
  applications := [{ id := 1, reference := [], status := .offered, person := applicant, branchId := 1 }]
  students := [{ id := 7, studentNumber := [], person := applicant, branchId := 1 }]
  numbering :=
    { institution := some ⟨"Africa/Addis_Ababa", ⟨7, 8⟩⟩
      branches := [⟨1, Numbering.AB, "Bole", true⟩] }

theorem offered_inv : PipeInv offered := ⟨by decide, by decide⟩

def officer : List Grant :=
  [⟨.admissionsManage, .global⟩, ⟨.studentsManage, .global⟩, ⟨.studentsRead, .global⟩]

/-- The applicant is registered and enrolled. -/
def registering : List (Move Call) :=
  [.begins true (.convert { newStudentId := 8 } 1 { confirmNotDuplicate := true } 1 officer),
    .turns true 60, .begins false (.markEnrolled 8), .turns false 20]

theorem pipeline_respected_registering :
    let w := (Duo.idle offered).play Call.code registering
    w.db.applications.map (fun a => (a.status, a.studentId)) = [(.enrolled, some 8)] ∧
      Forward offered w.db := by
  have hplayed : Admitted Call.code Call.current (⟨offered, fun _ => none⟩ : World Bool _ _ _ _ _)
      ((Duo.idle offered).play Call.code registering).world := by
    refine Duo.play_admitted Call.code Call.current (Duo.idle offered) registering fun i q hq => ?_
    simp only [registering, List.mem_cons, Move.begins.injEq, reduceCtorEq, List.not_mem_nil, or_false,
      false_or] at hq
    rcases hq with ⟨-, rfl⟩ | ⟨-, rfl⟩ <;> exact fun _ => trivial
  have hforward : ∀ w : World Bool Call Db Lock Error Reply,
      Admitted Call.code Call.current ⟨offered, fun _ => none⟩ w → Forward offered w.db :=
    fun w hw => (pipeline_respected (fun _ => rfl) offered_inv .start hw).1
  refine ⟨by decide +kernel, ?_⟩
  rw [← Duo.world_db]
  exact hforward _ hplayed

/-- A rejection whose guard has seen the offer is written after the applicant has
been registered, because the client names the version that registering gives. -/
theorem confirmed_rejected :
    PipeInv offered ∧ ∃ w w' : World Bool Call Db Lock Error Reply,
      Reachable Call.code ⟨offered, fun _ => none⟩ w ∧ Reachable Call.code w w' ∧
      w.db.applications.map (fun a => (a.status, a.studentId)) = [(.confirmed, some 7)] ∧
      w'.db.applications.map (fun a => (a.status, a.studentId)) = [(.rejected, some 7)] := by
  set linked : Duo Call Db Lock Error Reply := (Duo.idle offered).play Call.code
    [.begins false (.transition 1 .rejected 2 officer), .turns false 1,
      .begins true (.convert {} 1 { existingStudentId := some 7 } 1 officer), .turns true 60]
    with hlinked
  refine ⟨offered_inv, linked.world, (linked.play Call.code [.turns false 40]).world, ?_, ?_, ?_, ?_⟩
  · exact Duo.play_reachable Call.code (Duo.idle offered) _
  · exact Duo.play_reachable Call.code linked _
  · decide +kernel
  · decide +kernel

end Emis.Admissions
