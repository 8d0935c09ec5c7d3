import Emis.Imports.OneBadRow
import Emis.Library.Rollback

/-!
# An import does what its preview said

The preview and the import share their code, and a second import finds what the first one
registered by the phone.
-/

namespace Emis.Imports

open Transactions Admissions
open StudentImportService (Lists parse)

namespace Postgres

def commit (env : ImportEnv) (input : StudentImportValues) (grants : List Grant) : Tx StudentImportResult :=
  run env input grants false

/-- `DryRunRollback`: the transaction throws what it has found, which is caught outside of it. -/
def preview (env : ImportEnv) (input : StudentImportValues) (grants : List Grant) (d : Db) :
    Except Error StudentImportResult × Db :=
  match ((run env input grants true).dryRun : Prog Db Lock (Error ⊕ StudentImportResult) Empty).alone d with
  | (.error (.inr result), d') => (.ok result, d')
  | (.error (.inl e), d') => (.error e, d')
  | (.ok never, _) => nomatch never

/-- `runRows`, with the positions of the rows that are imported. -/
def runRowsTraced (env : ImportEnv) (input : StudentImportValues) (grants : List Grant) (lists : Lists) :
    List (CsvRow × ℕ) → Tally → List ℕ → Tx (Tally × List ℕ)
  | [], tally, positions => return (tally, positions)
  | row :: rows, tally, positions => do
      let next ← runRow env input grants lists row tally
      runRowsTraced env input grants lists rows next
        (if next.imported = tally.imported then positions else positions ++ [row.2])

/-- `run`, with these positions. -/
def runTraced (env : ImportEnv) (input : StudentImportValues) (grants : List Grant) (dryRun : Bool) :
    Tx (StudentImportResult × List ℕ) := do
  let parsed ← Prog.ofExcept (parse env input.csv)
  Prog.acquire .studentImport
  let d ← Prog.get
  let branchByKey := StudentImportService.branchByKey env d
  let d ← Prog.get
  let categories := StudentImportService.categories d
  let customFieldsBlock ← StudentImportService.customFieldsBlock env
  let lists : Lists := ⟨parsed.map, branchByKey, categories, customFieldsBlock⟩
  let (tally, positions) ← runRowsTraced env input grants lists parsed.rows.zipIdx {} []
  return ({
    dryRun := dryRun
    totalRows := parsed.rows.length
    imported := tally.imported
    skippedDuplicates := tally.skippedDuplicates
    skippedErrors := tally.skippedErrors
    ignoredColumns := parsed.map.ignored
    issues := tally.issues
    issuesTruncated := tally.truncated }, positions)

/-- The positions of the rows that an import adds to the students. -/
def importedRows (env : ImportEnv) (input : StudentImportValues) (grants : List Grant) (d : Db) : List ℕ :=
  match ((runTraced env input grants false).alone d).1 with
  | .ok (_, positions) => positions
  | .error _ => []

section Traced

variable (env : ImportEnv) (input : StudentImportValues) (grants : List Grant)

theorem fst_runRowsTraced (lists : Lists) (rows : List (CsvRow × ℕ)) (tally : Tally) (positions : List ℕ) :
    Prod.fst <$> runRowsTraced env input grants lists rows tally positions =
      runRows env input grants lists rows tally := by
  induction rows generalizing tally positions with
  | nil => rfl
  | cons row rows ih => simp only [runRowsTraced, runRows, map_bind, ih]

theorem fst_runTraced (dryRun : Bool) :
    Prod.fst <$> runTraced env input grants dryRun = run env input grants dryRun := by
  simp only [runTraced, run, map_bind, ← fst_runRowsTraced env input grants _ _ _ [], bind_map_left, map_pure]

theorem run_flag (dryRun : Bool) :
    run env input grants dryRun = (fun r => { r with dryRun := dryRun }) <$> commit env input grants := by
  simp only [commit, run, map_bind, map_pure]

/-! ## The preview -/

theorem keeps_send (texts : List String) (dates : List Day) : (send texts dates).Keeps (id : Db → Db) :=
  .bind (.require _ _) fun _ => .require _ _

theorem keeps_search (env : Admissions.Env) (p : Person) : (find env p).Keeps (id : Db → Db) :=
  .bind (keeps_send _ _) fun _ => keeps_find _ _

theorem keeps_runRows (lists : Lists) (rows : List (CsvRow × ℕ)) (tally : Tally) :
    (runRows env input grants lists rows tally).Keeps fun _ : Db => () := by
  have hcreate : ∀ (env : Admissions.Env) (input : CreateStudentValues),
      (create env input grants).Keeps fun _ : Db => () := fun env input =>
    .bind (keeps_assertScope _ _ _) fun _ => .bind (keeps_isActiveBranch _) fun _ => .bind (.require _ _) fun _ =>
      .bind ((keeps_send _ _).comp fun _ => ()) fun _ => .bind (keeps_assertActiveCode _ _) fun _ =>
        .bind (keeps_validateValues _ _ _) fun _ =>
          .bind (.when _ (.bind ((keeps_search _ _).comp fun _ => ()) fun _ => .require _ _)) fun _ =>
            .bind ((keeps_nextNumber _ _ _).comp fun _ => ()) fun _ =>
              .bind ((keeps_send _ _).comp fun _ => ()) fun _ =>
                .bind (.bind (.acquire _) fun _ => .bind .get fun _ => .bind (.require _ _) fun _ =>
                  .bind (.acquire _) fun _ => .bind .get fun _ => .bind (.require _ _) fun _ =>
                    .modify fun _ => rfl) fun _ =>
                  .bind ((keeps_send _ _).comp fun _ => ()) fun _ =>
                    .bind ((keeps_insertGuardians _ _ _).comp fun _ => ()) fun _ => .pure _
  induction rows generalizing tally with
  | nil => exact .pure _
  | cons row rows ih =>
      refine .bind ?_ fun tally' => ih tally'
      unfold runRow
      dsimp only
      split
      · exact .bind ((keeps_search _ _).comp fun _ => ()) fun _ =>
          .ite (.pure _) (.bind (hcreate _ _) fun _ => .pure _)
      · exact .pure _

theorem keeps_run (dryRun : Bool) : (run env input grants dryRun).Keeps fun _ : Db => () :=
  .bind (.ofExcept _) fun _ => .bind (.acquire _) fun _ => .bind .get fun _ => .bind .get fun _ =>
    .bind ((keeps_customFieldsBlock env).comp fun _ => ()) fun _ =>
      .bind (keeps_runRows _ _ _ _ _ _) fun _ => .pure _

/-- A preview answers what the import would have answered, and changes nothing. -/
theorem preview_eq (d : Db) :
    preview env input grants d =
      (((commit env input grants).alone d).1.map fun r => { r with dryRun := true }, d) := by
  rw [preview, Prog.alone_dryRun (keeps_run env input grants true), run_flag, Prog.alone_map]
  cases ((commit env input grants).alone d).1 <;> rfl

end Traced

end Postgres

/-! ## Who is registered by a row -/

/-- The phone of a row. -/
def phoneOf (map : HeaderMap) (row : CsvRow) : Option String :=
  (phoneField (cellOf map row.cells .phone)).toOption

theorem phone_of_schema {env : Admissions.Env} {classes : Classes} {cell : StudentImportColumn → Str}
    {person : Person} (h : personFieldsSchema env classes cell = .ok person) :
    phoneField (cell .phone) = .ok person.phone := by
  unfold personFieldsSchema at h
  dsimp only at h
  split at h
  · rename_i hphone _ _ _
    obtain rfl := Except.ok.inj h
    exact hphone
  · cases h

theorem wlp_search {env : Admissions.Env} {p : Person} {v : Db}
    {Φ : List DuplicatesService.Candidate → Db → Prop}
    (hfound : ∀ candidates, (candidates = [] → ∀ s ∈ v.students, s.person.phone ≠ p.phone) → Φ candidates v) :
    (Postgres.find env p).wlp Φ (fun _ => True) v := by
  simp only [Postgres.find, send, DuplicatesService.find, Prog.wlp_bind, Prog.wlp_require, Prog.wlp_get,
    Prog.wlp_pure, implies_true, and_true]
  intro _ _
  refine hfound _ fun hnil s hs hphone => ?_
  have hrow := not_matching_of_take (by decide) hnil _ (List.mem_map_of_mem hs)
  have hdiffers := (Bool.or_eq_false_iff.1 (Bool.or_eq_false_iff.1 hrow).1).1
  simp [hphone] at hdiffers

theorem wlp_added {env : Admissions.Env} {student : CreateStudentValues} {grants : List Grant} {v : Db} :
    (Postgres.create env student grants).wlp
      (fun _ v' => ∃ s : StudentRow, s.person = student.person ∧ v'.students = v.students ++ [s])
      (fun _ => True) v := by
  have hsend : ∀ {texts : List String} {dates : List Day} {Φ : Unit → Db → Prop} {u : Db}, Φ () u →
      (send texts dates).wlp Φ (fun _ => True) u := by
    intro texts dates Φ u hΦ
    refine (Postgres.keeps_send _ _).wlp (fun _ u' hsame => ?_) fun _ => trivial
    obtain rfl : u' = u := hsame
    exact hΦ
  unfold Postgres.create
  rw [Prog.wlp_bind]
  refine (keeps_assertScope (φ := Db.records) _ _ _).wlp (fun _ v₁ h₁ => ?_) fun _ => trivial
  rw [Prog.wlp_bind]
  refine (keeps_isActiveBranch (φ := Db.records) _).wlp (fun _ v₂ h₂ => ?_) fun _ => trivial
  rw [Prog.wlp_bind, Prog.wlp_require]
  refine ⟨fun _ => ?_, fun _ => trivial⟩
  rw [Prog.wlp_bind]
  refine hsend ?_
  rw [Prog.wlp_bind]
  refine (keeps_assertActiveCode (φ := Db.records) _ _).wlp (fun _ v₃ h₃ => ?_) fun _ => trivial
  rw [Prog.wlp_bind]
  refine (keeps_validateValues (φ := Db.records) _ _ _).wlp (fun _ v₄ h₄ => ?_) fun _ => trivial
  rw [Prog.wlp_bind]
  refine (Prog.Keeps.when (φ := Db.records) _ (.bind ((Postgres.keeps_search _ _).comp Db.records) fun _ =>
    .require _ _)).wlp (fun _ v₅ h₅ => ?_) fun _ => trivial
  rw [Prog.wlp_bind]
  refine (keeps_nextNumber _ _ _).wlp (fun issued v₆ h₆ => ?_) fun _ => trivial
  rw [Prog.wlp_bind]
  refine hsend ?_
  have hstudents : v₆.students = v.students :=
    congrArg Prod.snd (h₆.trans (h₅.trans (h₄.trans (h₃.trans (h₂.trans h₁)))))
  simp only [StudentsService.insertStudent, Prog.wlp_bind, Prog.wlp_acquire, Prog.wlp_get, Prog.wlp_require,
    Prog.wlp_modify]
  refine ⟨fun _ => ⟨fun _ => hsend ?_, fun _ => trivial⟩, fun _ => trivial⟩
  refine (keeps_insertGuardians _ _ _).wlp (fun _ v₇ h₇ => ?_) fun _ => trivial
  have hadded : v₇.students = _ := congrArg Prod.snd h₇
  rw [hstudents] at hadded
  exact ⟨_, rfl, hadded⟩

section Loop

variable {env : ImportEnv} {input : StudentImportValues} {grants : List Grant} {lists : Lists}

theorem counts_of_reports (line : ℕ) (errors : List (Option String × String)) (t : Tally) :
    let t' := errors.foldl (fun t e => t.report ⟨line, .error, e.1, e.2⟩) t
    t'.imported = t.imported ∧ t'.skippedDuplicates = t.skippedDuplicates ∧ t'.skippedErrors = t.skippedErrors := by
  induction errors generalizing t with
  | nil => exact ⟨rfl, rfl, rfl⟩
  | cons e errors ih =>
      obtain ⟨himported, hduplicates, herrors⟩ := ih (t.report ⟨line, .error, e.1, e.2⟩)
      obtain ⟨h₁, h₂, h₃⟩ := @Tally.report_counts t ⟨line, .error, e.1, e.2⟩
      exact ⟨himported.trans h₁, hduplicates.trans h₂, herrors.trans h₃⟩

/-- What one row does: it is skipped, or one student with its phone is added, who has it
alone where duplicates are skipped. -/
inductive Turn (input : StudentImportValues) (map : HeaderMap) (row : CsvRow) (t : Tally) (v : Db) :
    Tally → Db → Prop where
  | skipped (t' : Tally) (himported : t'.imported = t.imported)
      (hcount : t'.skippedDuplicates + t'.skippedErrors = t.skippedDuplicates + t.skippedErrors + 1) :
      Turn input map row t v t' v
  | added (v' : Db) (s : StudentRow) (hphone : phoneOf map row = some s.person.phone)
      (hstudents : v'.students = v.students ++ [s])
      (hnew : input.onDuplicate = .skip → ∀ other ∈ v.students, other.person.phone ≠ s.person.phone) :
      Turn input map row t v { t with imported := t.imported + 1 } v'

theorem wlp_turn (row : CsvRow × ℕ) (t : Tally) (v : Db) :
    (Postgres.runRow env input grants lists row t).wlp (Turn input lists.map row.1 t v) (fun _ => True) v := by
  unfold Postgres.runRow
  dsimp only
  split
  · rename_i student hnone hstudent
    have hphone := phone_of_schema (person_of_validate hstudent)
    rw [Prog.wlp_bind]
    refine wlp_search fun candidates hfound => ?_
    rw [Prog.wlp_ite]
    refine ⟨fun _ => ?_, fun hcreate => ?_⟩
    · obtain ⟨himported, hduplicates, herrors⟩ :=
        @Tally.report_counts { t with skippedDuplicates := t.skippedDuplicates + 1 }
          ⟨row.1.line, .duplicate, none, StudentImportService.duplicateMessage candidates⟩
      refine .skipped _ himported ?_
      rw [hduplicates, herrors]
      exact Nat.add_right_comm _ _ _
    · rw [Prog.wlp_bind]
      refine Prog.wlp_mono ?_ (fun _ he => he) wlp_added
      rintro - v' ⟨s, hperson, hstudents⟩
      refine .added v' s ?_ hstudents fun hskip => ?_
      · rw [phoneOf, hphone, hperson]
        rfl
      · rw [hperson]
        refine hfound ?_
        by_contra hsome
        exact hcreate ⟨hsome, hskip⟩
  · obtain ⟨himported, hduplicates, herrors⟩ :=
      counts_of_reports row.1.line _ { t with skippedErrors := t.skippedErrors + 1 }
    refine .skipped _ himported ?_
    rw [hduplicates, herrors]
    exact (Nat.add_assoc _ _ _).symm

/-- Where the loop stands after these rows. -/
structure Traced (input : StudentImportValues) (map : HeaderMap) (d : Db) (done : List (CsvRow × ℕ)) (t : Tally)
    (positions : List ℕ) (v : Db) : Prop where
  total : t.imported + t.skippedDuplicates + t.skippedErrors = done.length
  length : positions.length = t.imported
  students : ∀ s ∈ d.students, s ∈ v.students
  registered : ∀ n ∈ positions, ∃ row s, (row, n) ∈ done ∧ s ∈ v.students ∧ phoneOf map row = some s.person.phone ∧
    (input.onDuplicate = .skip → ∀ other ∈ d.students, other.person.phone ≠ s.person.phone)

theorem Traced.turn {map : HeaderMap} {d v v' : Db} {done : List (CsvRow × ℕ)} {row : CsvRow × ℕ} {t t' : Tally}
    {positions : List ℕ} (h : Traced input map d done t positions v) (hturn : Turn input map row.1 t v t' v') :
    Traced input map d (done ++ [row]) t' (if t'.imported = t.imported then positions else positions ++ [row.2])
      v' := by
  have htotal := h.total
  cases hturn with
  | skipped t' himported hcount =>
      rw [if_pos himported]
      refine ⟨?_, h.length.trans himported.symm, h.students, fun n hn => ?_⟩
      · rw [List.length_append, List.length_singleton]
        omega
      · obtain ⟨r, s, hr, hrest⟩ := h.registered n hn
        exact ⟨r, s, List.mem_append_left _ hr, hrest⟩
  | added v' s hphone hstudents hnew =>
      rw [if_neg (Nat.succ_ne_self _)]
      have hkept : ∀ s ∈ v.students, s ∈ v'.students := fun s hs => by
        rw [hstudents]
        exact List.mem_append_left _ hs
      refine ⟨?_, ?_, fun s hs => hkept s (h.students s hs), fun n hn => ?_⟩
      · rw [List.length_append, List.length_singleton]
        dsimp only
        omega
      · rw [List.length_append, h.length]
        rfl
      · rcases List.mem_append.1 hn with hn | hn
        · obtain ⟨r, s', hr, hs', hrest⟩ := h.registered n hn
          exact ⟨r, s', List.mem_append_left _ hr, hkept s' hs', hrest⟩
        · obtain rfl := List.mem_singleton.1 hn
          refine ⟨row.1, s, List.mem_append_right _ List.mem_cons_self, ?_, hphone,
            fun hskip other hother => hnew hskip other (h.students other hother)⟩
          rw [hstudents]
          exact List.mem_append_right _ List.mem_cons_self

theorem wlp_runRowsTraced {d v : Db} {done : List (CsvRow × ℕ)} {t : Tally} {positions : List ℕ}
    (rows : List (CsvRow × ℕ)) (h : Traced input lists.map d done t positions v) :
    (Postgres.runRowsTraced env input grants lists rows t positions).wlp
      (fun r v' => Traced input lists.map d (done ++ rows) r.1 r.2 v') (fun _ => True) v := by
  induction rows generalizing done t positions v with
  | nil =>
      rw [Postgres.runRowsTraced, Prog.wlp_pure, List.append_nil]
      exact h
  | cons row rows ih =>
      rw [Postgres.runRowsTraced, Prog.wlp_bind]
      refine Prog.wlp_mono (fun t' v' hturn => ?_) (fun _ he => he) (wlp_turn row t v)
      have hrest := ih (h.turn hturn)
      rwa [List.append_assoc] at hrest

end Loop

/-! ## The import -/

section Import

variable {env : ImportEnv} {input : StudentImportValues} {grants : List Grant} {d : Db}

/-- What an import leaves behind. -/
structure Left (env : ImportEnv) (input : StudentImportValues) (d : Db) (result : StudentImportResult)
    (positions : List ℕ) (d' : Db) : Prop where
  total : result.imported + result.skippedDuplicates + result.skippedErrors = result.totalRows
  length : positions.length = result.imported
  students : ∀ s ∈ d.students, s ∈ d'.students
  registered : ∀ n ∈ positions, ∃ parsed row s, parse env input.csv = .ok parsed ∧ parsed.rows[n]? = some row ∧
    s ∈ d'.students ∧ phoneOf parsed.map row = some s.person.phone ∧
    (input.onDuplicate = .skip → ∀ other ∈ d.students, other.person.phone ≠ s.person.phone)

theorem wlp_runTraced {dryRun : Bool} :
    (Postgres.runTraced env input grants dryRun).wlp (fun r d' => Left env input d r.1 r.2 d') (fun _ => True) d := by
  simp only [Postgres.runTraced, Prog.wlp_bind, Prog.wlp_ofExcept, Prog.wlp_acquire, Prog.wlp_get, implies_true,
    and_true]
  intro parsed hparse
  refine (keeps_customFieldsBlock env).wlp (fun block v hv => ?_) fun _ => trivial
  obtain rfl : v = d := hv
  have hstart : Traced input parsed.map v [] {} [] v :=
    ⟨rfl, rfl, fun _ hs => hs, fun n hn => absurd hn List.not_mem_nil⟩
  refine Prog.wlp_mono (fun r d' h => ?_) (fun _ he => he) (wlp_runRowsTraced parsed.rows.zipIdx hstart)
  refine ⟨?_, h.length, h.students, fun n hn => ?_⟩
  · have htotal := h.total
    rwa [List.nil_append, List.length_zipIdx] at htotal
  · obtain ⟨row, s, hrow, hrest⟩ := h.registered n hn
    exact ⟨parsed, row, s, hparse, List.mem_zipIdx_iff_getElem?.1 hrow, hrest⟩

theorem left_of_commit (env : ImportEnv) (input : StudentImportValues) (grants : List Grant) (d : Db) :
    (∃ result, ((Postgres.commit env input grants).alone d).1 = .ok result ∧
      Left env input d result (Postgres.importedRows env input grants d) ((Postgres.commit env input grants).alone d).2) ∨
    ∃ e, (Postgres.commit env input grants).alone d = (.error e, d) ∧ Postgres.importedRows env input grants d = [] := by
  rw [Postgres.commit, ← Postgres.fst_runTraced, Prog.alone_map, Postgres.importedRows]
  rcases Prog.alone_cases (@wlp_runTraced env input grants d false) with ⟨⟨result, positions⟩, d', hrun, hleft⟩ | ⟨e, hrun, -⟩
  · rw [hrun]
    exact .inl ⟨result, rfl, hleft⟩
  · rw [hrun]
    exact .inr ⟨e, rfl, rfl⟩

/-- The preview changes nothing and tells what the import answers. Each row is counted once, and
importing the file again, without the duplicates, adds none of the rows that were added before. -/
theorem import_as_previewed (env later : ImportEnv) (input : StudentImportValues) (grants grants' : List Grant)
    (d : Db) :
    Postgres.preview env input grants d =
        (((Postgres.commit env input grants).alone d).1.map fun r => { r with dryRun := true }, d) ∧
      (∀ result, ((Postgres.commit env input grants).alone d).1 = .ok result →
        result.imported + result.skippedDuplicates + result.skippedErrors = result.totalRows ∧
          (Postgres.importedRows env input grants d).length = result.imported) ∧
      (Postgres.importedRows { later with lower := env.lower, classes := env.classes }
        { input with onDuplicate := .skip } grants' ((Postgres.commit env input grants).alone d).2).Disjoint
        (Postgres.importedRows env input grants d) := by
  refine ⟨Postgres.preview_eq env input grants d, ?_, ?_⟩
  · intro result hresult
    rcases left_of_commit env input grants d with ⟨result', hrun, hleft⟩ | ⟨e, hrun, -⟩
    · rw [hrun] at hresult
      obtain rfl := Except.ok.inj hresult
      exact ⟨hleft.total, hleft.length⟩
    · rw [hrun] at hresult
      cases hresult
  · rcases left_of_commit env input grants d with ⟨result, -, hleft⟩ | ⟨e, -, hnone⟩
    · set d₁ := ((Postgres.commit env input grants).alone d).2
      set env' : ImportEnv := { later with lower := env.lower, classes := env.classes }
      rcases left_of_commit env' { input with onDuplicate := .skip } grants' d₁ with ⟨result', -, hagain⟩ | ⟨e, -, hnone⟩
      · intro n hsecond hfirst
        obtain ⟨parsed, row, s, hparse, hrow, hs, hphone, -⟩ := hleft.registered n hfirst
        obtain ⟨parsed', row', s', hparse', hrow', -, hphone', hnew⟩ := hagain.registered n hsecond
        have hsame : parse env' input.csv = parse env input.csv := rfl
        obtain rfl : parsed' = parsed := Except.ok.inj (hparse'.symm.trans (hsame.trans hparse))
        obtain rfl : row' = row := Option.some.inj (hrow'.symm.trans hrow)
        exact hnew rfl s hs (Option.some.inj (hphone.symm.trans hphone'))
      · rw [hnone]
        exact List.disjoint_nil_left _
    · rw [hnone]
      exact List.disjoint_nil_right _

end Import

end Emis.Imports
