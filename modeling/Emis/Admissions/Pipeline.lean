import Emis.Admissions.ApplicationsService

/-!
# The pipeline under interleaved requests

What the holder of a set of locks may do to the applications and the students,
and which changes stay within it.
-/

namespace Emis.Admissions

open Transactions Protocol
open Cohorts (ApplicationStatus)

structure PipeInv (d : Db) : Prop where
  applications : (d.applications.map ApplicationRow.id).Nodup
  students : (d.students.map StudentRow.id).Nodup

/-- The student of an application stays, or comes with the step that confirms it. -/
def Linked (a a' : ApplicationRow) : Prop :=
  a'.studentId = a.studentId ∧ (a'.status = .confirmed → a.status = .confirmed) ∨
    a.studentId = none ∧ a.status ≠ .confirmed ∧ a'.status = .confirmed ∧ a'.studentId ≠ none

/-- One move of an application: it is open, and its status stays or takes an edge. -/
structure Moves (a a' : ApplicationRow) : Prop where
  version : a.version < a'.version
  unfinished : isClosed a.status = false
  status : a'.status = a.status ∨ canTransition a.status a'.status = true
  linked : Linked a a'

/-- What the holder of the locks `S` may do to a row. -/
structure AppStep (S : Set Lock) (a a' : ApplicationRow) : Prop where
  id : a'.id = a.id
  change : a' = a ∨ .application a.id ∈ S ∧ Moves a a'

theorem AppStep.refl {S : Set Lock} (a : ApplicationRow) : AppStep S a a := ⟨rfl, .inl rfl⟩

/-- Nobody is registered, or one student for an application that had none. -/
def Registers (S : Set Lock) (d d' : Db) : Prop :=
  d'.students = d.students ∨ ∃ s, d'.students = d.students ++ [s] ∧ .student s.id ∈ S ∧
    ∃ a ∈ d.applications, ∃ a' ∈ d'.applications, a'.id = a.id ∧ a.studentId = none ∧
      a'.studentId = some s.id

structure PipeGuar (S : Set Lock) (d d' : Db) : Prop where
  rows : List.Forall₂ (AppStep S) d.applications d'.applications
  students : Registers S d d'

def pipeProtocol : Protocol Db Lock where
  Inv := PipeInv
  Guar := PipeGuar

/-! ## What a client relies on -/

section Rely

variable {S : Set Lock} {d d' : Db}

theorem applications_advance : applicationsTable.Advances pipeProtocol := by
  rintro S d₁ d₂ ⟨-, T, -, hguar⟩ a ha
  obtain ⟨a', ha', hstep⟩ := rowwise_exists hguar.rows ha
  refine ⟨a', ha', hstep.id, ?_⟩
  rcases hstep.change with rfl | ⟨-, hmoves⟩
  · exact .inl rfl
  · exact .inr hmoves.version

theorem pipe_locked {a : ApplicationRow} (hlock : .application a.id ∈ S)
    (h : pipeProtocol.Rely S d d') (ha : a ∈ d.applications) : a ∈ d'.applications := by
  refine h.stable (φ := fun d => a ∈ d.applications) ?_ ha
  rintro d₁ d₂ ⟨-, T, hdisj, hguar⟩ ha₁
  obtain ⟨a', ha', hstep⟩ := rowwise_exists hguar.rows ha₁
  rcases hstep.change with rfl | ⟨hT, -⟩
  · exact ha'
  · exact (Set.disjoint_left.1 hdisj hlock hT).elim

/-- The version is not ahead of the row's. -/
def Reached (id : Uuid) (version : ℕ) (d : Db) : Prop :=
  ∀ a ∈ d.applications, a.id = id → version ≤ a.version

theorem pipe_reached {id : Uuid} {version : ℕ} (h : pipeProtocol.Rely S d d')
    (hd : Reached id version d) : Reached id version d' := by
  refine h.stable (φ := Reached id version) ?_ hd
  rintro d₁ d₂ ⟨-, T, -, hguar⟩ hreached a' ha' hid
  obtain ⟨a, ha, hstep⟩ := rowwise_exists hguar.rows.flip ha'
  have hle := hreached a ha (hstep.id.symm.trans hid)
  rcases hstep.change with rfl | ⟨-, hmoves⟩
  · exact hle
  · exact hle.trans hmoves.version.le

/-- A student number's id stays unused while its entry is locked. -/
theorem pipe_fresh {id : Uuid} (hlock : .student id ∈ S) (h : pipeProtocol.Rely S d d')
    (hfresh : ∀ s ∈ d.students, s.id ≠ id) : ∀ s ∈ d'.students, s.id ≠ id := by
  refine h.stable (φ := fun d => ∀ s ∈ d.students, s.id ≠ id) ?_ hfresh
  rintro d₁ d₂ ⟨-, T, hdisj, hguar⟩ hfresh s hs
  rcases hguar.students with hsame | ⟨new, hnew, hheld, -⟩
  · exact hfresh s (hsame ▸ hs)
  · rw [hnew, List.mem_append, List.mem_singleton] at hs
    rcases hs with hs | rfl
    · exact hfresh s hs
    · rintro rfl
      exact Set.disjoint_left.1 hdisj hlock hheld

end Rely

/-! ## Changes within the guarantee -/

section Effects

variable {S : Set Lock} {d d' : Db}

/-- Applications may move while the students stay. -/
theorem pipe_of_rows (hd : PipeInv d) (hrows : List.Forall₂ (AppStep S) d.applications d'.applications)
    (hstudents : d'.students = d.students) : PipeGuar S d d' ∧ PipeInv d' := by
  refine ⟨⟨hrows, .inl hstudents⟩, ?_, ?_⟩
  · rw [rowwise_map (fun _ _ hstep => hstep.id) hrows]
    exact hd.applications
  · rw [hstudents]
    exact hd.students

theorem appStep_changeWhere {F : ApplicationRow → ApplicationRow} {found : ApplicationRow}
    (hd : PipeInv d) (hmem : found ∈ d.applications) (hstep : AppStep S found (F found)) :
    List.Forall₂ (AppStep S) d.applications
      (changeWhere (fun a => a.id == found.id) F d.applications) := by
  rw [forall₂_changeWhere]
  intro a ha
  by_cases hid : a.id = found.id
  · obtain rfl := eq_of_key_eq hd.applications ha hmem hid
    simpa using hstep
  · simpa [hid] using AppStep.refl a

/-- One application may move. -/
theorem pipe_of_change {F : ApplicationRow → ApplicationRow} {found : ApplicationRow} (hd : PipeInv d)
    (hmem : found ∈ d.applications) (hstep : AppStep S found (F found)) :
    PipeGuar S d { d with applications := changeWhere (fun a => a.id == found.id) F d.applications } ∧
      PipeInv { d with
        applications := changeWhere (fun a => a.id == found.id) F d.applications } :=
  pipe_of_rows hd (appStep_changeWhere hd hmem hstep) rfl

/-- One application may be confirmed with a student who is registered for it. -/
theorem pipe_of_register {F : ApplicationRow → ApplicationRow} {found : ApplicationRow}
    {student : StudentRow} (hd : PipeInv d) (hmem : found ∈ d.applications)
    (happlications : d'.applications =
      changeWhere (fun a => a.id == found.id) F d.applications)
    (hstudents : d'.students = d.students ++ [student]) (hstep : AppStep S found (F found))
    (hlock : .student student.id ∈ S) (hfresh : ∀ s ∈ d.students, s.id ≠ student.id)
    (hnone : found.studentId = none) (hlinked : (F found).studentId = some student.id) :
    PipeGuar S d d' ∧ PipeInv d' := by
  have hrows : List.Forall₂ (AppStep S) d.applications d'.applications := by
    rw [happlications]
    exact appStep_changeWhere hd hmem hstep
  have hmem' : F found ∈ d'.applications := by
    rw [happlications, mem_changeWhere]
    exact ⟨found, hmem, by simp⟩
  refine ⟨⟨hrows, .inr ⟨student, hstudents, hlock, found, hmem, F found, hmem', hstep.id, hnone,
    hlinked⟩⟩, ?_, ?_⟩
  · rw [rowwise_map (fun _ _ hstep => hstep.id) hrows]
    exact hd.applications
  · rw [hstudents]
    exact nodup_snoc hd.students hfresh

/-- Confirmed applications that the holder of their locks may finish. -/
def Enrolls (S : Set Lock) (a a' : ApplicationRow) : Prop :=
  a' = a ∨ .application a.id ∈ S ∧ a.status = .confirmed ∧ a' = ApplicationsService.enrolledRow a

theorem Enrolls.step {a a' : ApplicationRow} (h : Enrolls S a a') : AppStep S a a' := by
  rcases h with rfl | ⟨hlock, hconfirmed, rfl⟩
  · exact .refl _
  · refine ⟨rfl, .inr ⟨hlock, ?_, ?_, ?_, ?_⟩⟩
    · exact Nat.lt_succ_self _
    · rw [hconfirmed]
      rfl
    · right
      rw [hconfirmed]
      rfl
    · left
      refine ⟨rfl, fun henrolled => ?_⟩
      simp [ApplicationsService.enrolledRow] at henrolled

theorem Enrolls.mono {S' : Set Lock} (hS : S ⊆ S') {a a' : ApplicationRow} (h : Enrolls S a a') :
    Enrolls S' a a' := by
  rcases h with rfl | ⟨hlock, hrest⟩
  · exact .inl rfl
  · exact .inr ⟨hS hlock, hrest⟩

/-- One more row may be finished; one that is finished already no longer matches. -/
theorem Enrolls.enroll {a a' : ApplicationRow} {i studentId : Uuid} (h : Enrolls S a a') :
    Enrolls (insert (.application i) S) a
      (if a'.id == i && (a'.studentId == some studentId && a'.status == .confirmed) then
        ApplicationsService.enrolledRow a' else a') := by
  rcases h with rfl | ⟨hlock, hconfirmed, rfl⟩
  · split
    · rename_i hhit
      simp only [Bool.and_eq_true, beq_iff_eq] at hhit
      obtain ⟨rfl, -, hconfirmed⟩ := hhit
      exact .inr ⟨Set.mem_insert _ _, hconfirmed, rfl⟩
    · exact .inl rfl
  · rw [if_neg]
    · exact .inr ⟨Set.mem_insert_of_mem _ hlock, hconfirmed, rfl⟩
    · simp [ApplicationsService.enrolledRow]

end Effects

end Emis.Admissions
