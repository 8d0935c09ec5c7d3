import Emis.Catalog.CoursesService
import Emis.Library.Script
import Mathlib.Data.List.Perm.Subperm

/-!
# Prerequisites among other editors

The check for loops is exact because nobody else changes the edges of the program
while its lock is held.
-/

namespace Emis.Catalog

open Transactions Protocol Relation Search

def CourseRow.place (c : CourseRow) : Uuid × Uuid := (c.id, c.programId)

/-- The course is one of the program. -/
def Db.InProgram (d : Db) (program a : Uuid) : Prop := (a, program) ∈ d.courses.map CourseRow.place

/-- Course `a` requires course `b`. -/
def Db.Requires (d : Db) (a b : Uuid) : Prop := ⟨a, b⟩ ∈ d.prerequisites

/-- The edges join courses of one program, and never lead back. -/
structure Inv (d : Db) : Prop where
  ids : (d.courses.map CourseRow.id).Nodup
  joined : ∀ e ∈ d.prerequisites,
    ∃ program, d.InProgram program e.courseId ∧ d.InProgram program e.prerequisiteCourseId
  acyclic : ¬ Cyclic d.Requires

/-- Courses stay in their program, and a program's edges change under its lock. -/
structure Guar (S : Set Lock) (d d' : Db) : Prop where
  programs : d'.programs = d.programs
  places : d'.courses.map CourseRow.place = d.courses.map CourseRow.place
  edges : ∀ a program, d.InProgram program a → .prerequisites program ∉ S →
    ∀ b, d'.Requires a b ↔ d.Requires a b

def editors : Protocol Db Lock where
  Inv := Inv
  Guar := Guar

/-! ## What requests ask for -/

/-- The requested prerequisites in place of the course's own make a loop. -/
def Call.Loops (q : Call) (d : Db) : Prop := Cyclic (Replaced d.Requires q.id (· ∈ q.courseIds))

/-- The course exists, its department is in the caller's scope, and the ids are other
courses of its program. -/
def Call.Proper (q : Call) (d : Db) : Prop :=
  ∃ program row, d.InProgram program q.id ∧ (d.programs.find? fun p => p.id == program) = some row ∧
    hasPermission q.grants .catalogManage (some { departmentId := some row.departmentId }) = true ∧
    ∀ p ∈ q.courseIds, p ≠ q.id ∧ d.InProgram program p

/-- What a proper request is answered. -/
def Call.Judged (q : Call) (r : Except Error Course) (d : Db) : Prop :=
  q.Proper d → (r = .error catalogErrors.prerequisiteCycle ↔ q.Loops d)

/-! ## Courses and their programs -/

section Places

variable {d d' : Db} {program program' a : Uuid}

theorem inProgram_of_row {c : CourseRow} (hc : c ∈ d.courses) : d.InProgram c.programId c.id :=
  List.mem_map.2 ⟨c, hc, rfl⟩

theorem inProgram_iff : d.InProgram program a ↔ ∃ c ∈ d.courses, c.id = a ∧ c.programId = program := by
  simp [Db.InProgram, CourseRow.place]

theorem inProgram_unique (hd : Inv d) (h : d.InProgram program a) (h' : d.InProgram program' a) :
    program = program' := by
  obtain ⟨c, hc, rfl, rfl⟩ := inProgram_iff.1 h
  obtain ⟨c', hc', hid, rfl⟩ := inProgram_iff.1 h'
  rw [eq_of_key_eq hd.ids hc hc' hid.symm]

theorem inProgram_of_places (h : d'.courses.map CourseRow.place = d.courses.map CourseRow.place) :
    d'.InProgram program a ↔ d.InProgram program a := by
  rw [Db.InProgram, Db.InProgram, h]

theorem ids_of_places (h : d'.courses.map CourseRow.place = d.courses.map CourseRow.place) :
    d'.courses.map CourseRow.id = d.courses.map CourseRow.id := by
  have hfst : ∀ d : Db, d.courses.map CourseRow.id = (d.courses.map CourseRow.place).map Prod.fst := fun d => by
    rw [List.map_map]
    rfl
  rw [hfst, hfst, h]

theorem proper_of_places {q : Call} (hprograms : d'.programs = d.programs)
    (h : d'.courses.map CourseRow.place = d.courses.map CourseRow.place) : q.Proper d' ↔ q.Proper d := by
  simp only [Call.Proper, hprograms, inProgram_of_places h]

end Places

section Rely

variable {S : Set Lock} {d d' : Db}

theorem rely_programs (h : editors.Rely S d d') : d'.programs = d.programs :=
  h.same fun _ _ ⟨_, _, _, hguar⟩ => hguar.programs

theorem rely_places (h : editors.Rely S d d') :
    d'.courses.map CourseRow.place = d.courses.map CourseRow.place :=
  h.same (χ := fun d => d.courses.map CourseRow.place) fun _ _ ⟨_, _, _, hguar⟩ => hguar.places

/-- Under the program's lock its edges stay. -/
theorem rely_edges {program : Uuid} (hlock : .prerequisites program ∈ S) (h : editors.Rely S d d') :
    ∀ a, d.InProgram program a → ∀ b, d'.Requires a b ↔ d.Requires a b := by
  intro a ha b
  have hstays : d'.InProgram program a ∧ (d'.Requires a b ↔ d.Requires a b) := by
    refine h.stable (φ := fun x => x.InProgram program a ∧ (x.Requires a b ↔ d.Requires a b)) ?_ ⟨ha, Iff.rfl⟩
    rintro d₁ d₂ ⟨-, T, hdisj, hguar⟩ ⟨hin, hedges⟩
    refine ⟨(inProgram_of_places hguar.places).2 hin, (hguar.edges a program hin ?_ b).trans hedges⟩
    exact Set.disjoint_left.1 hdisj hlock
  exact hstays.2

end Rely

/-! ## The graph of one program -/

section Graph

variable {d d' : Db} {program : Uuid} {ids : List Uuid} {id : Uuid}

theorem mem_addEdges (edges : List PrerequisiteRow) (graph : PrerequisiteGraph) (a b : Uuid) :
    b ∈ (edges.foldl CoursesService.addEdge graph).get a ↔ b ∈ graph.get a ∨ ⟨a, b⟩ ∈ edges := by
  induction edges generalizing graph with
  | nil => simp
  | cons e edges ih =>
      rw [List.foldl_cons, ih, CoursesService.addEdge, get_set, List.mem_cons]
      by_cases ha : a = e.courseId
      · subst ha
        have hedge : (⟨e.courseId, b⟩ : PrerequisiteRow) = e ↔ b = e.prerequisiteCourseId := by
          cases e
          simp
        simp [hedge, or_assoc]
      · have hne : (⟨a, b⟩ : PrerequisiteRow) ≠ e := fun h => ha (h ▸ rfl)
        simp [ha, hne]

theorem requires_graphOf (a b : Uuid) : Catalog.Requires (CoursesService.graphOf (CoursesService.edgesOf d program)) a b ↔
    d.InProgram program a ∧ d.Requires a b := by
  have hgraph := mem_addEdges (CoursesService.edgesOf d program) [] a b
  refine hgraph.trans ?_
  have hempty : b ∉ PrerequisiteGraph.get [] a := List.not_mem_nil
  simp [hempty, CoursesService.edgesOf, inProgram_iff, Db.Requires, and_comm]

/-- From a course of the program, its graph leads wherever the whole graph does. -/
theorem reach_graphOf (hd : Inv d) {p c : Uuid} (hp : d.InProgram program p) :
    ReflTransGen (Catalog.Requires (CoursesService.graphOf (CoursesService.edgesOf d program))) p c ↔
      ReflTransGen d.Requires p c := by
  constructor
  · exact ReflTransGen.mono (fun a b hedge => ((requires_graphOf a b).1 hedge).2) p c
  · intro h
    have hboth : ReflTransGen (Catalog.Requires (CoursesService.graphOf (CoursesService.edgesOf d program))) p c ∧
        d.InProgram program c := by
      induction h with
      | refl => exact ⟨.refl, hp⟩
      | @tail b c _ hedge ih =>
          obtain ⟨program', hb, hc⟩ := hd.joined _ hedge
          obtain rfl : program' = program := inProgram_unique hd hb ih.2
          exact ⟨ih.1.tail ((requires_graphOf b c).2 ⟨hb, hedge⟩), hc⟩
    exact hboth.1

/-- Neither too strict nor too lax. -/
theorem wouldCreateCycle_exact (id : Uuid) (hd : Inv d) (hids : ∀ p ∈ ids, d.InProgram program p) :
    wouldCreateCycle (CoursesService.graphOf (CoursesService.edgesOf d program)) id ids = true ↔
      Cyclic (Replaced d.Requires id (· ∈ ids)) := by
  rw [wouldCreateCycle_iff, cyclic_replaced_iff hd.acyclic]
  refine exists_congr fun p => and_congr_right fun hp => ?_
  exact reach_graphOf hd (hids p hp)

/-- As many courses of the program are found as were asked for, if all are. -/
theorem found_iff (hd : Inv d) (hids : ids.Nodup) :
    (d.courses.filter fun c => ids.contains c.id && c.programId == program).length = ids.length ↔
      ∀ p ∈ ids, d.InProgram program p := by
  set found := d.courses.filter fun c => ids.contains c.id && c.programId == program with hfound
  have hmem : ∀ p, p ∈ found.map CourseRow.id ↔ p ∈ ids ∧ d.InProgram program p := by
    intro p
    simp only [hfound, List.mem_map, List.mem_filter, inProgram_iff, Bool.and_eq_true, List.contains_iff_mem,
      beq_iff_eq]
    constructor
    · rintro ⟨c, ⟨hc, hin, hprogram⟩, rfl⟩
      exact ⟨hin, c, hc, rfl, hprogram⟩
    · rintro ⟨hin, c, hc, rfl, hprogram⟩
      exact ⟨c, ⟨hc, hin, hprogram⟩, rfl⟩
  have hnodup : (found.map CourseRow.id).Nodup := hd.ids.sublist (List.filter_sublist.map _)
  have hlength : (found.map CourseRow.id).length = found.length := List.length_map _
  have hsub : found.map CourseRow.id ⊆ ids := fun p hp => ((hmem p).1 hp).1
  rw [← hlength]
  constructor
  · intro hall p hp
    have hperm : (found.map CourseRow.id).Perm ids := (List.subperm_of_subset hnodup hsub).perm_of_length_le hall.ge
    exact ((hmem p).1 (hperm.mem_iff.2 hp)).2
  · intro hall
    have hsup : ids ⊆ found.map CourseRow.id := fun p hp => (hmem p).2 ⟨hp, hall p hp⟩
    exact Nat.le_antisymm (List.subperm_of_subset hnodup hsub).length_le (List.subperm_of_subset hids hsup).length_le

/-- The edges of one course are replaced, under the lock of its program. -/
theorem kept_of_replaced {S : Set Lock} (hd : Inv d) (hprograms : d'.programs = d.programs)
    (hplaces : d'.courses.map CourseRow.place = d.courses.map CourseRow.place)
    (hedges : ∀ a b, d'.Requires a b ↔ Replaced d.Requires id (· ∈ ids) a b) (hid : d.InProgram program id)
    (hids : ∀ p ∈ ids, d.InProgram program p) (hacyclic : ¬ Cyclic (Replaced d.Requires id (· ∈ ids)))
    (hlock : .prerequisites program ∈ S) : Guar S d d' ∧ Inv d' := by
  refine ⟨⟨hprograms, hplaces, fun a program' ha hfree b => ?_⟩, ⟨?_, fun e he => ?_, ?_⟩⟩
  · have hne : a ≠ id := by
      rintro rfl
      exact hfree (inProgram_unique hd hid ha ▸ hlock)
    rw [hedges]
    simp [Replaced, hne]
  · rw [ids_of_places hplaces]
    exact hd.ids
  · simp only [inProgram_of_places hplaces]
    rcases (hedges e.courseId e.prerequisiteCourseId).1 he with ⟨hfrom, hto⟩ | ⟨-, hold⟩
    · exact ⟨program, hfrom ▸ hid, hids _ hto⟩
    · exact hd.joined _ hold
  · have hsame : d'.Requires = Replaced d.Requires id (· ∈ ids) := by
      funext a b
      exact propext (hedges a b)
    rw [hsame]
    exact hacyclic

end Graph

/-! ## The requests -/

section Requests

variable {d : Db} {S : Set Lock} {q : Call}

theorem hasPermission_of_target {grants : List Grant} {permission : Permission} {target : Option Target}
    (h : hasPermission grants permission target = true) : hasPermission grants permission = true := by
  obtain ⟨grant, hgrant, hboth⟩ := List.any_eq_true.1 h
  have hkind : (grant.permission == permission) = true := (Bool.and_eq_true_iff.1 hboth).1
  refine List.any_eq_true.2 ⟨grant, hgrant, Bool.and_eq_true_iff.2 ⟨hkind, ?_⟩⟩
  cases grant.scope <;> rfl

/-- A proper request, told about the row it finds. -/
theorem proper_of_row {before : CourseRow} (hd : Inv d) (hid : d.InProgram before.programId q.id)
    (h : q.Proper d) : ∃ row, (d.programs.find? fun p => p.id == before.programId) = some row ∧
      hasPermission q.grants .catalogManage (some { departmentId := some row.departmentId }) = true ∧
      ∀ p ∈ q.courseIds, p ≠ q.id ∧ d.InProgram before.programId p := by
  obtain ⟨program, row, hin, hrow⟩ := h
  obtain rfl : program = before.programId := inProgram_unique hd hin hid
  exact ⟨row, hrow⟩

theorem failed_of_improper (h : ¬ q.Proper d) (e : Error) :
    editors.Failed (fun e => q.Judged (.error e)) e S d := fun _ hr _ hproper =>
  (h ((proper_of_places (rely_programs hr) (rely_places hr)).1 hproper)).elim

/-- The check passes on prerequisites that do not loop, and blames those that do. -/
theorem wp_requirePrerequisites {K : Unit → Set Lock → (Db → Db) → Db → Prop}
    {X : Error → Set Lock → Db → Prop} {before : CourseRow} {ids : List Uuid} (hd : Inv d) (hids : ids.Nodup)
    (hK : ∀ d', editors.Rely S d d' → Inv d' →
      (∀ p ∈ ids, p ≠ before.id ∧ d'.InProgram before.programId p) →
      ¬ Cyclic (Replaced d'.Requires before.id (· ∈ ids)) → K () S id d')
    (hcross : ∀ d', editors.Rely S d d' →
      ¬ (∀ p ∈ ids, p ≠ before.id ∧ d'.InProgram before.programId p) →
      X catalogErrors.crossProgramPrerequisite S d')
    (hcycle : ∀ d', editors.Rely S d d' → Inv d' → (∀ p ∈ ids, d'.InProgram before.programId p) →
      Cyclic (Replaced d'.Requires before.id (· ∈ ids)) → X catalogErrors.prerequisiteCycle S d') :
    editors.wp K X (CoursesService.requirePrerequisites before ids) S id d := by
  simp only [CoursesService.requirePrerequisites, wp_bind, wp_require, wp_when, wp_get]
  refine ⟨fun hself => ⟨fun _ d₁ hr₁ hi₁ => ⟨fun hlength d₂ hr₂ hi₂ => ?_, fun hlength => ?_⟩, fun hnone => ?_⟩,
    fun hself => ?_⟩
  · have hother : ∀ p ∈ ids, p ≠ before.id := by
      rintro p hp rfl
      simp [hp] at hself
    have hr := hr₁.trans hr₂
    have hin₁ : ∀ p ∈ ids, d₁.InProgram before.programId p := (found_iff hi₁ hids).1 (by simpa using hlength)
    have hin : ∀ p ∈ ids, d₂.InProgram before.programId p := fun p hp =>
      (inProgram_of_places (rely_places hr₂)).2 (hin₁ p hp)
    have hexact := wouldCreateCycle_exact before.id hi₂ hin
    refine ⟨fun hfree => hK d₂ hr hi₂ (fun p hp => ⟨hother p hp, hin p hp⟩) ?_, fun hloop => ?_⟩
    · rw [← hexact]
      simpa using hfree
    · exact hcycle d₂ hr hi₂ hin (hexact.1 (by simpa using hloop))
  · refine hcross d₁ hr₁ fun hall => ?_
    have hsame := (found_iff hi₁ hids).2 fun p hp => (hall p hp).2
    exact (beq_eq_false_iff_ne.1 hlength) hsame
  · obtain rfl : ids = [] := by simpa using hnone
    refine hK d .refl hd (by simp) ?_
    rw [cyclic_replaced_iff hd.acyclic]
    simp
  · refine hcross d .refl fun hall => ?_
    have hmem : before.id ∈ ids := by simpa using hself
    exact (hall _ hmem).1 rfl

/-- What the request leaves: the old edges of the course are gone, and the new ones there. -/
def replaceEdges (id : Uuid) (ids : List Uuid) (d : Db) : Db :=
  let bumped := coursesTable.bump id (fun c => c) d
  { bumped with
    prerequisites := (bumped.prerequisites.filter fun e => e.courseId != id) ++ ids.map fun p => ⟨id, p⟩ }

theorem replaceEdges_places (id : Uuid) (ids : List Uuid) (d : Db) :
    (replaceEdges id ids d).courses.map CourseRow.place = d.courses.map CourseRow.place :=
  map_changeWhere fun _ => rfl

theorem replaceEdges_requires (id : Uuid) (ids : List Uuid) (d : Db) (a b : Uuid) :
    (replaceEdges id ids d).Requires a b ↔ Replaced d.Requires id (· ∈ ids) a b := by
  have hkept : (coursesTable.bump id (fun c => c) d).prerequisites = d.prerequisites := rfl
  simp only [Db.Requires, replaceEdges, hkept, List.mem_append, List.mem_filter, List.mem_map,
    PrerequisiteRow.mk.injEq, Replaced, bne_iff_ne, ne_eq]
  constructor
  · rintro (⟨hold, hne⟩ | ⟨p, hp, rfl, rfl⟩)
    · exact .inr ⟨hne, hold⟩
    · exact .inl ⟨rfl, hp⟩
  · rintro (⟨rfl, hp⟩ | ⟨hne, hold⟩)
    · exact .inr ⟨b, hp, rfl, rfl⟩
    · exact .inl ⟨hold, hne⟩

/-- Under the program's lock, what the check has found is still so. -/
theorem replaced_stays {program : Uuid} {ids : List Uuid} {id : Uuid} {d' : Db} (hd : Inv d)
    (hlock : .prerequisites program ∈ S) (hids : ∀ p ∈ ids, d.InProgram program p)
    (hr : editors.Rely S d d') (hd' : Inv d') :
    Cyclic (Replaced d'.Requires id (· ∈ ids)) ↔ Cyclic (Replaced d.Requires id (· ∈ ids)) := by
  have hgraph : Catalog.Requires (CoursesService.graphOf (CoursesService.edgesOf d' program)) =
      Catalog.Requires (CoursesService.graphOf (CoursesService.edgesOf d program)) := by
    funext a b
    rw [requires_graphOf, requires_graphOf, inProgram_of_places (rely_places hr)]
    exact propext (and_congr_right fun ha => rely_edges hlock hr a ha b)
  rw [cyclic_replaced_iff hd.acyclic, cyclic_replaced_iff hd'.acyclic]
  refine exists_congr fun p => and_congr_right fun hp => ?_
  have hp' : d'.InProgram program p := (inProgram_of_places (rely_places hr)).2 (hids p hp)
  rw [← reach_graphOf hd (hids p hp), ← reach_graphOf hd' hp', hgraph]

/-- From where the check has passed, the call can only be refused for other reasons, and
what it commits has no loop. -/
theorem wp_replace {program : Uuid} {ids : List Uuid} (hd : Inv d)
    (hlock : .prerequisites program ∈ S) (hids : ∀ p, p ∈ ids ↔ p ∈ q.courseIds)
    (hid : d.InProgram program q.id) (hin : ∀ p ∈ ids, d.InProgram program p)
    (hfree : ¬ Cyclic (Replaced d.Requires q.id (· ∈ ids))) :
    editors.wp (editors.Done fun c d _ => q.Judged (.ok c) d) (editors.Failed fun e => q.Judged (.error e)) (do
      let result ← updateWithVersion coursesTable q.id q.expectedVersion fun c => c
      let bumped ← versionedRow result catalogErrors.courseNotFound
      Prog.modify fun d => { d with prerequisites := d.prerequisites.filter fun e => e.courseId != q.id }
      Prog.when (!ids.isEmpty) (CoursesService.insertPrerequisites (ids.map fun p => ⟨q.id, p⟩))
      return (⟨bumped, ids⟩ : Course)) S id d := by
  have hloops : ∀ d', q.Loops d' ↔ Cyclic (Replaced d'.Requires q.id (· ∈ ids)) := fun d' => by
    simp only [Call.Loops, hids]
  have hnone : ∀ {S' d'}, S ⊆ S' → editors.Rely S' d d' → Inv d' → ¬ q.Loops d' := fun hS hr hi => by
    rw [hloops, replaced_stays hd (hS hlock) hin hr hi]
    exact hfree
  have hother : ∀ {S' d' e}, S ⊆ S' → editors.Rely S d d' → Inv d' → e ≠ catalogErrors.prerequisiteCycle →
      editors.Failed (fun e => q.Judged (.error e)) e S' d' := by
    intro S' d' e hS hr hi hne d'' hr' hi' _
    have hfree' := hnone subset_rfl (hr.trans (hr'.anti hS)) hi'
    simp [hne, hfree']
  have hdone : ∀ {S' d'} {c : Course}, S ⊆ S' → editors.Rely S d d' →
      editors.Done (fun c d _ => q.Judged (.ok c) d) c S' (replaceEdges q.id ids) d' := by
    intro S' d' c hS hr d'' hr' hi'
    have hrely : editors.Rely S d d'' := hr.trans (hr'.anti hS)
    have hplaces := rely_places hrely
    have hcycle : ¬ Cyclic (Replaced d''.Requires q.id (· ∈ ids)) := by
      rw [← hloops]
      exact hnone subset_rfl hrely hi'
    obtain ⟨hguar, hinv⟩ : Guar S' d'' (replaceEdges q.id ids d'') ∧ Inv (replaceEdges q.id ids d'') :=
      kept_of_replaced hi' rfl (replaceEdges_places q.id ids d'')
      (replaceEdges_requires q.id ids d'') ((inProgram_of_places hplaces).2 hid)
      (fun p hp => (inProgram_of_places hplaces).2 (hin p hp)) hcycle (hS hlock)
    refine ⟨hguar, hinv, fun _ => ?_⟩
    have hfree' := hnone subset_rfl hrely hi'
    simp [hfree']
  have hrefused : ∀ {S' d' e}, S ⊆ S' → editors.Rely S d d' → Inv d' →
      e = versionConflict ∨ e = catalogErrors.courseNotFound →
      editors.Failed (fun e => q.Judged (.error e)) e S' d' := fun hS hr hi he => by
    rcases he with rfl | rfl
    · exact hother hS hr hi (by decide)
    · exact hother hS hr hi (by decide)
  simp only [wp_bind]
  refine wp_versioned coursesTable (fun d₁ d₂ row hr₁ _ _ hr₂ hi₂ _ => ?_) fun e S' d' he hS hr hi =>
    hrefused hS hr hi he
  have hS : S ⊆ insert (Lock.course q.id) S := Set.subset_insert _ _
  have hr : editors.Rely S d d₂ := hr₁.trans (hr₂.anti hS)
  simp only [wp_modify, wp_when, CoursesService.insertPrerequisites, wp_bind, wp_require, wp_get, wp_pure]
  refine ⟨fun _ => ⟨fun _ d₃ hr₃ hi₃ => ⟨fun _ => ?_, fun _ => ?_⟩, fun _ => ?_⟩, fun hempty => ?_⟩
  · exact hdone hS (hr.trans (hr₃.anti hS))
  · exact hother hS (hr.trans (hr₃.anti hS)) hi₃ (by decide)
  · exact hother hS hr hi₂ (by decide)
  · obtain rfl : ids = [] := by simpa using hempty
    have hsame : (fun d : Db => { d with prerequisites := d.prerequisites.filter fun e => e.courseId != q.id }) ∘
        coursesTable.bump q.id (fun c => c) ∘ id = replaceEdges q.id [] := by
      funext d
      simp [replaceEdges]
    exact hsame ▸ hdone hS hr

theorem code_judged (q : Call) {d : Db} :
    editors.wp (editors.Done fun c d _ => q.Judged (.ok c) d) (editors.Failed fun e => q.Judged (.error e))
      q.code ∅ id d := by
  simp only [Call.code, CoursesService.setPrerequisites, CoursesService.row, CoursesService.programRow, assertScope,
    wp_bind, wp_require, wp_get, wp_expect, wp_acquire]
  have hfound : ∀ {d₁ d₂ : Db} {before : CourseRow}, coursesTable.row? d₁ q.id = some before →
      editors.Rely ∅ d₁ d₂ → d₂.InProgram before.programId q.id := by
    intro d₁ d₂ before hbefore hr
    have hid : before.id = q.id := by simpa [coursesTable] using List.find?_some hbefore
    rw [inProgram_of_places (rely_places hr), ← hid]
    exact inProgram_of_row (List.mem_of_find?_eq_some hbefore)
  refine ⟨fun _ d₁ hr₁ hi₁ => ⟨fun before hbefore d₂ hr₂ hi₂ => ⟨fun program hprogram => ⟨fun hscope d₃ hr₃ hi₃ => ?_,
    fun hscope => ?_⟩, fun hprogram => ?_⟩, fun hbefore => ?_⟩, fun hpermission => ?_⟩
  · have hid : before.id = q.id := by simpa [coursesTable] using List.find?_some hbefore
    have hin : d₃.InProgram before.programId q.id := hfound hbefore (hr₂.trans hr₃)
    have hlock : Lock.prerequisites before.programId ∈ insert (Lock.prerequisites before.programId) ∅ :=
      Set.mem_insert _ _
    have hids : ∀ p, p ∈ q.courseIds.eraseDups ↔ p ∈ q.courseIds := fun p => List.mem_eraseDups
    refine wp_requirePrerequisites hi₃ (nodup_eraseDups _) (fun d₄ hr₄ hi₄ hproper hfree => ?_)
      (fun d₄ hr₄ hcross => ?_) fun d₄ hr₄ hi₄ hprogram₄ hcycle => ?_
    · have hin₄ := (inProgram_of_places (rely_places hr₄)).2 hin
      rw [hid] at hfree
      have htail := wp_replace hi₄ hlock hids hin₄ (fun p hp => (hproper p hp).2) hfree
      simpa only [wp_bind] using htail
    · refine failed_of_improper (fun hproper => hcross fun p hp => ?_) _
      have hin₄ := (inProgram_of_places (rely_places hr₄)).2 hin
      obtain ⟨-, -, -, hall⟩ := proper_of_row (hr₄.inv hi₃) hin₄ hproper
      rw [hid]
      exact hall p ((hids p).1 hp)
    · intro d' hr hi _
      have hcycle' := (replaced_stays hi₄ hlock hprogram₄ hr hi).2 hcycle
      simpa [Call.Loops, hids, hid] using hcycle'
  · refine failed_of_improper (fun hproper => ?_) _
    obtain ⟨row, hrow, hmay, -⟩ := proper_of_row hi₂ (hfound hbefore hr₂) hproper
    obtain rfl : row = program := Option.some.inj (hrow.symm.trans hprogram)
    rw [hmay] at hscope
    cases hscope
  · refine failed_of_improper (fun hproper => ?_) _
    obtain ⟨row, hrow, -⟩ := proper_of_row hi₂ (hfound hbefore hr₂) hproper
    simp [hrow] at hprogram
  · refine failed_of_improper ?_ _
    rintro ⟨program, row, hin, -⟩
    obtain ⟨c, hc, hid, -⟩ := inProgram_iff.1 hin
    have hnone := List.find?_eq_none.1 hbefore c hc
    simp [coursesTable, hid] at hnone
  · refine failed_of_improper ?_ _
    rintro ⟨program, row, -, -, hscope, -⟩
    rw [hasPermission_of_target hscope] at hpermission
    cases hpermission

end Requests

/-! ## Runs -/

/-- Prerequisites never loop and stay inside their program, a proper request is refused
for a loop exactly when it asks for one, and the search for loops ends on every graph. -/
theorem prerequisites_acyclic {ι : Type} [DecidableEq ι] {start w : World ι Call Db Lock Error Course}
    (hidle : start.Idle) (hstart : Inv start.db) (hw : Reachable Call.code start w) :
    (¬ Cyclic w.db.Requires ∧ ∀ a b, w.db.Requires a b →
      ∃ program, w.db.InProgram program a ∧ w.db.InProgram program b) ∧
    (∀ i q r w', Step Call.code w (.answers i q r) w' → q.Proper w.db →
      (r = .error catalogErrors.prerequisiteCycle ↔ q.Loops w.db)) ∧
    ∀ existing courseId newPrerequisites n, rounds existing newPrerequisites ≤ n →
      Search.run existing.get courseId n newPrerequisites.reverse [] =
        some (wouldCreateCycle existing courseId newPrerequisites) := by
  have hsound : editors.Sound (fun (q : Call) c d _ => q.Judged (.ok c) d) (fun q e => q.Judged (.error e)) w :=
    Sound.reachable (fun q _ _ => code_judged q) (.of_idle hidle hstart) hw
  refine ⟨⟨hsound.inv.acyclic, fun a b hab => hsound.inv.joined ⟨a, b⟩ hab⟩, ?_, ?_⟩
  · intro i q r w' hstep
    cases r with
    | ok c => exact Sound.answer hsound hstep
    | error e => exact (Sound.error hsound hstep).2
  · exact fun existing courseId newPrerequisites n => wouldCreateCycle_ends existing courseId newPrerequisites

/-! ## Two courses -/

def language : Db where
  programs := [⟨9, 5⟩]
  courses := [{ id := 1, programId := 9, code := "A1", name := "Beginner" },
    { id := 2, programId := 9, code := "A2", name := "Elementary" }]

def requires (a b : Uuid) : Call := ⟨a, [b], 1, [⟨.catalogManage, .department 5⟩]⟩

/-- Both editors read their courses, and the one who gets the lock second has been
refused, up to the answer. -/
def edits : List (Move Call) :=
  [.begins true (requires 2 1), .begins false (requires 1 2), .turns true 2, .turns false 2, .turns true 12,
    .turns false 3]

def crossed : Duo Call Db Lock Error Course := (Duo.idle language).play Call.code edits

theorem inv_language : Inv language where
  ids := by decide
  joined e he := by simp [language] at he
  acyclic := by
    rintro ⟨a, ha⟩
    obtain ⟨b, hab, -⟩ := TransGen.head'_iff.1 ha
    simp [Db.Requires, language] at hab

/-- Of two edits that would close a loop together the second is refused. -/
theorem prerequisites_acyclic_crossed : crossed.world.db.prerequisites = [⟨2, 1⟩] ∧
    ¬ Cyclic crossed.world.db.Requires ∧ (requires 1 2).Loops crossed.world.db := by
  have hreach : Reachable Call.code (Duo.idle language : Duo Call Db Lock Error Course).world crossed.world :=
    Duo.play_reachable Call.code _ edits
  obtain ⟨⟨hacyclic, -⟩, hjudged, -⟩ := prerequisites_acyclic (fun _ => rfl) inv_language hreach
  have hrefused : Step Call.code crossed.world
      (.answers false (requires 1 2) (.error catalogErrors.prerequisiteCycle)) _ :=
    Duo.turn_fail Call.code (S := _) (f := _) rfl
  have hproper : (requires 1 2).Proper crossed.world.db := by
    refine ⟨9, ⟨9, 5⟩, ?_, ?_, ?_, ?_⟩
    · simp only [Db.InProgram]
      decide
    · decide
    · decide
    · simp only [requires, List.forall_mem_singleton, Db.InProgram]
      decide
  exact ⟨by decide, hacyclic, (hjudged _ _ _ _ hrefused hproper).1 rfl⟩

end Emis.Catalog
