import Emis.Cohorts.Frames

/-!
# Lifecycles under interleaved requests

An enrollment moves along its edges only, a cohort along `COHORT_TRANSITIONS`.
A row of an enrollment changes under its own lock, with a new version; without
the lock of its cohort only an active one does, and it ends.
-/

namespace Emis.Cohorts

open Transactions Protocol

/-- Where an enrollment can go from here. -/
def EnrollmentStatus.next : EnrollmentStatus → List EnrollmentStatus
  | .waitlisted => [.active, .withdrawn]
  | .active => [.completed, .failed, .withdrawn]
  | .completed | .failed | .withdrawn => []

/-- Nobody is active in a cohort that is over, and nobody waits for one that has
been cancelled. -/
def CohortStatus.allows : CohortStatus → EnrollmentStatus → Bool
  | .cancelled, s => !s.live
  | .completed, s => s != .active
  | .planned, _ | .open, _ | .running, _ => true

theorem CohortStatus.allows_of_dead {s : EnrollmentStatus} (h : s.live = false) (c : CohortStatus) :
    c.allows s = true := by
  cases c <;> cases s <;> simp_all [CohortStatus.allows, EnrollmentStatus.live]

structure LifeInv (d : Db) : Prop where
  ids : (d.enrollments.map EnrollmentRow.id).Nodup
  allowed : ∀ e ∈ d.enrollments, ∀ c, d.cohort? e.cohortId = some c → c.status.allows e.status = true

/-- What the holder of the locks `S` may do to a row. -/
structure LifeStep (S : Set Lock) (e e' : EnrollmentRow) : Prop where
  id : e'.id = e.id
  cohort : e'.cohortId = e.cohortId
  change : e' = e ∨ .enrollment e.id ∈ S ∧ e.version < e'.version ∧ e'.status ∈ e.status.next ∧
    (.cohort e.cohortId ∈ S ∨ e.status = .active ∧ e'.status.live = false)

/-- What the holder of the locks `S` may add. -/
def Entered (S : Set Lock) (e : EnrollmentRow) : Prop :=
  .cohort e.cohortId ∈ S ∧ .enrollment e.id ∈ S ∧ 1 ≤ e.version

/-- A cohort keeps its status, or it takes one of its transitions. -/
def CohortStep (c c' : CohortRow) : Prop :=
  c'.status = c.status ∨ c'.status ∈ COHORT_TRANSITIONS c.status

structure LifeGuar (S : Set Lock) (d d' : Db) : Prop where
  cohorts : ∀ id, .cohort id ∉ S → d'.cohort? id = d.cohort? id
  statuses : ∀ id c, d.cohort? id = some c → ∃ c', d'.cohort? id = some c' ∧ CohortStep c c'
  rows : Evolves (LifeStep S) (Entered S) d.enrollments d'.enrollments

def lifeProtocol : Protocol Db Lock where
  Inv := LifeInv
  Guar := LifeGuar

theorem LifeStep.refl {S : Set Lock} (e : EnrollmentRow) : LifeStep S e e := ⟨rfl, rfl, .inl rfl⟩

/-! ## What a client relies on -/

section Rely

variable {S : Set Lock} {d d' : Db} {c id : Uuid}

theorem life_cohort (hc : .cohort c ∈ S) (h : lifeProtocol.Rely S d d') :
    d'.cohort? c = d.cohort? c := by
  apply h.same (χ := fun d => d.cohort? c)
  rintro d₁ d₂ ⟨-, T, hdisj, hguar⟩
  exact hguar.cohorts c (Set.disjoint_left.1 hdisj hc)

theorem enrollments_advance : enrollmentsTable.Advances lifeProtocol := by
  rintro S d₁ d₂ ⟨-, T, -, hguar⟩ e he
  obtain ⟨e', he', hstep⟩ := hguar.rows.kept e he
  refine ⟨e', he', hstep.id, ?_⟩
  rcases hstep.change with rfl | ⟨-, hlt, -⟩
  · exact .inl rfl
  · exact .inr hlt

/-- A row stays what it is if no step that others may take changes it. -/
theorem life_still {e : EnrollmentRow} (h : lifeProtocol.Rely S d d') (he : e ∈ d.enrollments)
    (hstill : ∀ T e', Disjoint S T → LifeStep T e e' → e' = e) : e ∈ d'.enrollments := by
  refine h.stable (φ := fun d => e ∈ d.enrollments) ?_ he
  rintro d₁ d₂ ⟨-, T, hdisj, hguar⟩ he₁
  obtain ⟨e₂, he₂, hstep⟩ := hguar.rows.kept e he₁
  rwa [← hstill T e₂ hdisj hstep]

theorem life_locked {e : EnrollmentRow} (hlock : .enrollment e.id ∈ S)
    (h : lifeProtocol.Rely S d d') (he : e ∈ d.enrollments) : e ∈ d'.enrollments := by
  refine life_still h he fun T e' hdisj hstep => ?_
  rcases hstep.change with heq | ⟨hT, -⟩
  · exact heq
  · exact (Set.disjoint_left.1 hdisj hlock hT).elim

/-- Under the lock of the cohort those who wait for it keep waiting. -/
theorem life_waiting {e : EnrollmentRow} (hlock : .cohort e.cohortId ∈ S)
    (hwait : e.status = .waitlisted) (h : lifeProtocol.Rely S d d') (he : e ∈ d.enrollments) :
    e ∈ d'.enrollments := by
  refine life_still h he fun T e' hdisj hstep => ?_
  rcases hstep.change with heq | ⟨-, -, -, hT | ⟨hactive, -⟩⟩
  · exact heq
  · exact (Set.disjoint_left.1 hdisj hlock hT).elim
  · simp [hwait] at hactive

/-- Under the lock of a cohort nobody comes to have a place in it that `s` does
not allow. -/
theorem life_allows {s : CohortStatus} (hlock : .cohort c ∈ S) (h : lifeProtocol.Rely S d d')
    (hall : ∀ e ∈ d.enrollments, e.cohortId = c → s.allows e.status = true) :
    ∀ e ∈ d'.enrollments, e.cohortId = c → s.allows e.status = true := by
  refine h.stable (φ := fun d => ∀ e ∈ d.enrollments, e.cohortId = c → s.allows e.status = true) ?_ hall
  rintro d₁ d₂ ⟨-, T, hdisj, hguar⟩ hall e he hc
  have hT : Lock.cohort c ∉ T := Set.disjoint_left.1 hdisj hlock
  rcases hguar.rows.made e he with ⟨e₁, he₁, hstep⟩ | ⟨hcohort, -⟩
  · have hc₁ : e₁.cohortId = c := hstep.cohort.symm.trans hc
    rcases hstep.change with rfl | ⟨-, -, -, hcohort | ⟨-, hdead⟩⟩
    · exact hall e he₁ hc
    · exact (hT (hc₁ ▸ hcohort)).elim
    · exact CohortStatus.allows_of_dead hdead s
  · exact (hT (hc ▸ hcohort)).elim

/-- An id stays unused while its entry in the primary key is locked. -/
theorem life_fresh (hid : .enrollment id ∈ S) (h : lifeProtocol.Rely S d d')
    (hfresh : id ∉ d.enrollments.map EnrollmentRow.id) :
    id ∉ d'.enrollments.map EnrollmentRow.id := by
  refine h.stable (φ := fun d => id ∉ d.enrollments.map EnrollmentRow.id) ?_ hfresh
  rintro d₁ d₂ ⟨-, T, hdisj, hguar⟩ hfresh hmem
  obtain ⟨e, he, rfl⟩ := List.mem_map.1 hmem
  rcases hguar.rows.made e he with ⟨e₁, he₁, hstep⟩ | ⟨-, hlock, -⟩
  · exact hfresh (hstep.id ▸ List.mem_map_of_mem he₁)
  · exact Set.disjoint_left.1 hdisj hid hlock

/-- The version is not ahead of the row's; a row that is not there yet will come
with version 1. -/
def Reached (id : Uuid) (version : ℕ) (d : Db) : Prop :=
  (∀ e ∈ d.enrollments, e.id = id → version ≤ e.version) ∧
    (id ∉ d.enrollments.map EnrollmentRow.id → version ≤ 1)

theorem life_reached {version : ℕ} (h : lifeProtocol.Rely S d d') (hd : Reached id version d) :
    Reached id version d' := by
  refine h.stable (φ := Reached id version) ?_ hd
  rintro d₁ d₂ ⟨hinv, T, -, hguar⟩ ⟨hrow, habsent⟩
  have hkept : id ∈ d₁.enrollments.map EnrollmentRow.id →
      id ∈ d₂.enrollments.map EnrollmentRow.id := by
    intro hmem
    obtain ⟨e₁, he₁, rfl⟩ := List.mem_map.1 hmem
    obtain ⟨e₂, he₂, hstep⟩ := hguar.rows.kept e₁ he₁
    exact hstep.id ▸ List.mem_map_of_mem he₂
  constructor
  · intro e he hid
    by_cases hmem : id ∈ d₁.enrollments.map EnrollmentRow.id
    · obtain ⟨e₁, he₁, hid₁⟩ := List.mem_map.1 hmem
      obtain ⟨e₂, he₂, hstep⟩ := hguar.rows.kept e₁ he₁
      obtain rfl : e₂ = e := eq_of_key_eq hinv.ids he₂ he ((hstep.id.trans hid₁).trans hid.symm)
      have hle := hrow e₁ he₁ hid₁
      rcases hstep.change with rfl | ⟨-, hlt, -⟩
      · exact hle
      · exact Nat.le_trans hle (Nat.le_of_lt hlt)
    · rcases hguar.rows.made e he with ⟨e₁, he₁, hstep⟩ | ⟨-, -, hone⟩
      · exact (hmem (hid ▸ hstep.id ▸ List.mem_map_of_mem he₁)).elim
      · exact Nat.le_trans (habsent hmem) hone
  · exact fun hnot => habsent fun hmem => hnot (hkept hmem)

theorem life_seen {found : EnrollmentRow} {version : ℕ} (hfound : found ∈ d.enrollments)
    (hle : version ≤ found.version) (h : lifeProtocol.Rely S d d') (hd' : LifeInv d')
    (hat : enrollmentsTable.isAt d' found.id version = true) : found ∈ d'.enrollments :=
  enrollments_advance.seen h hd'.ids hfound hle hat

end Rely

/-! ## Changes within the guarantee -/

section Effects

variable {S : Set Lock} {d : Db}

/-- The tables that the lifecycles are about. -/
def Db.lives (d : Db) : List CohortRow × List EnrollmentRow := (d.cohorts, d.enrollments)

theorem lives_of_places {d' : Db} (h : d'.places = d.places) : d'.lives = d.lives :=
  congrArg (fun p : List CohortRow × List EnrollmentRow × List RoomRow => (p.1, p.2.1)) h

theorem LifeInv.of_lives {d' : Db} (h : d'.lives = d.lives) (hd : LifeInv d) : LifeInv d' := by
  simp only [Db.lives, Prod.mk.injEq] at h
  obtain ⟨hcohorts, henrollments⟩ := h
  refine ⟨henrollments ▸ hd.ids, ?_⟩
  simpa only [Db.cohort?, hcohorts, henrollments] using hd.allowed

theorem LifeGuar.of_lives {d' d'' : Db} (h : d''.lives = d'.lives) (hd : LifeGuar S d d') :
    LifeGuar S d d'' := by
  simp only [Db.lives, Prod.mk.injEq] at h
  obtain ⟨hcohorts, henrollments⟩ := h
  refine ⟨?_, ?_, henrollments ▸ hd.rows⟩
  · simpa only [Db.cohort?, hcohorts] using hd.cohorts
  · simpa only [Db.cohort?, hcohorts] using hd.statuses

theorem LifeGuar.refl (d : Db) : LifeGuar S d d :=
  ⟨fun _ _ => rfl, fun _ c hc => ⟨c, hc, .inl rfl⟩, .refl LifeStep.refl⟩

/-- Rows may move where their cohort allows it. -/
theorem life_of_rows {h : EnrollmentRow → EnrollmentRow} (hd : LifeInv d)
    (hstep : ∀ e ∈ d.enrollments, LifeStep S e (h e))
    (hallowed : ∀ e ∈ d.enrollments, h e ≠ e → ∀ c, d.cohort? e.cohortId = some c →
      c.status.allows (h e).status = true) :
    LifeGuar S d { d with enrollments := d.enrollments.map h } ∧
      LifeInv { d with enrollments := d.enrollments.map h } := by
  have hrows : Evolves (LifeStep S) (Entered S) d.enrollments (d.enrollments.map h) := by
    constructor
    · exact fun e he => ⟨h e, List.mem_map_of_mem he, hstep e he⟩
    · intro e' he'
      obtain ⟨e, he, rfl⟩ := List.mem_map.1 he'
      exact .inl ⟨e, he, hstep e he⟩
  refine ⟨⟨fun _ _ => rfl, fun _ c hc => ⟨c, hc, .inl rfl⟩, hrows⟩, ?_, ?_⟩
  · rw [List.map_map]
    exact (List.map_congr_left fun e he => (hstep e he).id) ▸ hd.ids
  · intro e' he' c hc
    obtain ⟨e, he, rfl⟩ := List.mem_map.1 he'
    rw [(hstep e he).cohort] at hc
    by_cases hsame : h e = e
    · rw [hsame]
      exact hd.allowed e he c hc
    · exact hallowed e he hsame c hc

/-- One row may move where its cohort allows it. -/
theorem life_of_change {F : EnrollmentRow → EnrollmentRow} {found : EnrollmentRow} (hd : LifeInv d)
    (hmem : found ∈ d.enrollments) (hstep : LifeStep S found (F found))
    (hallowed : ∀ c, d.cohort? found.cohortId = some c → c.status.allows (F found).status = true) :
    LifeGuar S d { d with enrollments := changeWhere (fun e => e.id == found.id) F d.enrollments } ∧
      LifeInv { d with
        enrollments := changeWhere (fun e => e.id == found.id) F d.enrollments } := by
  have hrow : ∀ e ∈ d.enrollments, e.id = found.id → e = found :=
    fun e he hid => eq_of_key_eq hd.ids he hmem hid
  refine life_of_rows (h := fun e => if e.id == found.id then F e else e) hd ?_ ?_
  · intro e he
    by_cases hid : e.id = found.id
    · simpa [hid, hrow e he hid] using hstep
    · simpa [hid] using LifeStep.refl e
  · intro e he hchanged
    by_cases hid : e.id = found.id
    · simpa [hid, hrow e he hid] using hallowed
    · simp [hid] at hchanged

/-- Two rows may move, one after the other. -/
theorem life_of_changes {F G : EnrollmentRow → EnrollmentRow} {found next : EnrollmentRow}
    (hd : LifeInv d) (hmem : found ∈ d.enrollments) (hmem' : next ∈ d.enrollments)
    (hne : next.id ≠ found.id) (hstep : LifeStep S found (F found)) (hstep' : LifeStep S next (G next))
    (hallowed : ∀ c, d.cohort? found.cohortId = some c → c.status.allows (F found).status = true)
    (hallowed' : ∀ c, d.cohort? next.cohortId = some c → c.status.allows (G next).status = true) :
    LifeGuar S d { d with
        enrollments := changeWhere (fun e => e.id == next.id) G
          (changeWhere (fun e => e.id == found.id) F d.enrollments) } ∧
      LifeInv { d with
        enrollments := changeWhere (fun e => e.id == next.id) G
          (changeWhere (fun e => e.id == found.id) F d.enrollments) } := by
  set h : EnrollmentRow → EnrollmentRow := fun e =>
    if e.id == found.id then F e else if e.id == next.id then G e else e with hh
  have hrow : ∀ e ∈ d.enrollments, ∀ e' ∈ d.enrollments, e.id = e'.id → e = e' :=
    fun e he e' he' hid => eq_of_key_eq hd.ids he he' hid
  have hcases : ∀ e ∈ d.enrollments, e = found ∧ h e = F found ∨ e = next ∧ h e = G next ∨ h e = e := by
    intro e he
    by_cases hfound : e.id = found.id
    · left
      obtain rfl := hrow e he found hmem hfound
      simp [hh]
    · right
      by_cases hnext : e.id = next.id
      · left
        obtain rfl := hrow e he next hmem' hnext
        simp [hh, hne]
      · right
        simp [hh, hfound, hnext]
  have hboth : changeWhere (fun e => e.id == next.id) G
      (changeWhere (fun e => e.id == found.id) F d.enrollments) = d.enrollments.map h := by
    rw [changeWhere, changeWhere, List.map_map]
    refine List.map_congr_left fun e he => ?_
    by_cases hfound : e.id = found.id
    · obtain rfl := hrow e he found hmem hfound
      simp [hh, hstep.id, Ne.symm hne]
    · simp [hh, hfound]
  rw [hboth]
  apply life_of_rows hd
  · intro e he
    rcases hcases e he with ⟨rfl, heq⟩ | ⟨rfl, heq⟩ | heq
    · exact heq ▸ hstep
    · exact heq ▸ hstep'
    · rw [heq]
      exact .refl e
  · intro e he hchanged
    rcases hcases e he with ⟨rfl, heq⟩ | ⟨rfl, heq⟩ | heq
    · exact heq ▸ hallowed
    · exact heq ▸ hallowed'
    · exact (hchanged heq).elim

theorem life_of_insert {row : EnrollmentRow} (hd : LifeInv d) (hnew : Entered S row)
    (hid : row.id ∉ d.enrollments.map EnrollmentRow.id)
    (hallowed : ∀ c, d.cohort? row.cohortId = some c → c.status.allows row.status = true) :
    LifeGuar S d { d with enrollments := d.enrollments ++ [row] } ∧
      LifeInv { d with enrollments := d.enrollments ++ [row] } := by
  refine ⟨⟨fun _ _ => rfl, fun _ c hc => ⟨c, hc, .inl rfl⟩, .snoc LifeStep.refl hnew⟩, ?_, ?_⟩
  · exact nodup_snoc hd.ids fun e he heq => hid (heq ▸ List.mem_map_of_mem he)
  · intro e he c hc
    rcases List.mem_append.1 he with he | he
    · exact hd.allowed e he c hc
    · obtain rfl : e = row := by simpa using he
      exact hallowed c hc

/-- A cohort may change under its lock to a status that allows its enrollments. -/
theorem life_of_cohort {F : CohortRow → CohortRow} {cid : Uuid} (hd : LifeInv d)
    (hid : ∀ c, (F c).id = c.id) (hlock : .cohort cid ∈ S)
    (hstep : ∀ c, d.cohort? cid = some c → CohortStep c (F c))
    (hallowed : ∀ c, d.cohort? cid = some c → ∀ e ∈ d.enrollments, e.cohortId = cid →
      (F c).status.allows e.status = true) :
    LifeGuar S d { d with cohorts := changeWhere (fun c => c.id == cid) F d.cohorts } ∧
      LifeInv { d with cohorts := changeWhere (fun c => c.id == cid) F d.cohorts } := by
  have hfind : ∀ id, Db.cohort? { d with
      cohorts := changeWhere (fun c => c.id == cid) F d.cohorts } id =
        (d.cohort? id).map fun c => if id = cid then F c else c := by
    intro id
    refine (find?_changeWhere fun c => by rw [hid]).trans ?_
    rw [Db.cohort?]
    cases hrow : d.cohorts.find? fun c => c.id == id with
    | none => rfl
    | some c =>
        have hcid : c.id = id := by simpa using List.find?_some hrow
        simp [hcid]
  refine ⟨⟨?_, ?_, .refl LifeStep.refl⟩, hd.ids, ?_⟩
  · intro id hnot
    have hne : id ≠ cid := by
      rintro rfl
      exact hnot hlock
    simp [hfind, hne]
  · intro id c hc
    rw [hfind, hc]
    by_cases heq : id = cid
    · subst heq
      exact ⟨F c, by simp, hstep c hc⟩
    · exact ⟨c, by simp [heq], .inl rfl⟩
  · intro e he c' hc'
    rw [hfind] at hc'
    obtain ⟨c, hc, rfl⟩ := Option.map_eq_some_iff.1 hc'
    by_cases heq : e.cohortId = cid
    · rw [if_pos heq]
      exact hallowed c (heq ▸ hc) e he heq
    · rw [if_neg heq]
      exact hd.allowed e he c hc

end Effects

end Emis.Cohorts
