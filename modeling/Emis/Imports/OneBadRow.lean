import Emis.Imports.Inserted

/-!
# One bad row

Every row of a file is an error, a duplicate or a new student, and the errors are the rows
that cannot be stored, as long as no row that passes its checks has U+0000 in a text.
-/

namespace Emis.Imports

open Transactions Admissions
open StudentImportService (validate branchByKey categories Lists parse guardiansOf branchErrors categoryErrors)

/-! ## An error is told -/

/-- What is refused is refused for a reason. -/
def Told {α β : Type} (x : Except (List β) α) : Prop := x ≠ .error []

section Told

variable {value : Str}

theorem told_textSchema (low high : ℕ) : Told (textSchema low high value) := by
  unfold Told textSchema
  dsimp only
  split
  · simp
  · split <;> simp

theorem told_genderSchema : Told (genderSchema value) := by
  unfold Told genderSchema
  split
  · simp
  · split <;> simp

theorem told_dateOfBirthSchema (env : Admissions.Env) : Told (dateOfBirthSchema env value) := by
  unfold Told dateOfBirthSchema
  dsimp only
  split
  · simp
  · rename_i hnot
    intro h
    have hnil := Except.error.inj h
    cases hiso : isoDate value with
    | none =>
        have hformat := (List.append_eq_nil_iff.1 hnil).1
        rw [hiso] at hformat
        exact List.cons_ne_nil _ _ hformat
    | some day => exact hnot day hiso hnil

theorem told_phoneField : Told (phoneField value) := by
  unfold phoneField
  intro h
  by_cases hlong : 30 < jsLength (Numbering.trim value)
  · rw [if_pos hlong] at h
    cases h
  · rw [if_neg hlong] at h
    cases hphone : phoneSchema (String.ofList value) with
    | none =>
        rw [hphone] at h
        cases h
    | some phone =>
        rw [hphone] at h
        cases h

theorem told_emailSchema (env : Admissions.Env) (classes : Classes) : Told (emailSchema env classes value) := by
  unfold Told emailSchema
  dsimp only
  split
  · simp
  · rename_i hnot
    intro h
    exact hnot (Except.error.inj h)

theorem told_emptyToNull {α : Type} {schema : Str → Checked α} {isEmpty : α → Bool} (h : Told (schema value)) :
    Told (emptyToNull schema isEmpty value) := by
  unfold Told emptyToNull
  split
  · simp
  · split
    · simp
    · rename_i issues hissues
      rintro hnil
      obtain rfl := Except.error.inj hnil
      exact h hissues

theorem ok_of_issuesOf {α : Type} {column : StudentImportColumn} {x : Checked α} (htold : Told x)
    (h : issuesOf column x = []) : ∃ a, x = .ok a := by
  cases x with
  | ok a => exact ⟨a, rfl⟩
  | error issues =>
      obtain rfl := List.map_eq_nil_iff.1 h
      exact absurd rfl htold

theorem told_personFieldsSchema (env : Admissions.Env) (classes : Classes) (cell : StudentImportColumn → Str) :
    Told (personFieldsSchema env classes cell) := by
  unfold Told personFieldsSchema
  dsimp only
  split
  · simp
  · rename_i hnot
    intro h
    have hnil := Except.error.inj h
    simp only [List.append_eq_nil_iff] at hnil
    obtain ⟨⟨⟨⟨⟨⟨⟨⟨h₁, h₂⟩, h₃⟩, h₄⟩, h₅⟩, h₆⟩, h₇⟩, h₈⟩, h₉⟩ := hnil
    obtain ⟨_, hgivenName⟩ := ok_of_issuesOf (told_textSchema _ _) h₁
    obtain ⟨_, hfatherName⟩ := ok_of_issuesOf (told_textSchema _ _) h₂
    obtain ⟨_, hgrandfatherName⟩ := ok_of_issuesOf (told_emptyToNull (told_textSchema _ _)) h₃
    obtain ⟨_, hgender⟩ := ok_of_issuesOf told_genderSchema h₄
    obtain ⟨_, hdateOfBirth⟩ := ok_of_issuesOf (told_emptyToNull (told_dateOfBirthSchema env)) h₅
    obtain ⟨_, hphone⟩ := ok_of_issuesOf told_phoneField h₆
    obtain ⟨_, hemail⟩ := ok_of_issuesOf (told_emptyToNull (told_emailSchema env classes)) h₇
    obtain ⟨_, haddress⟩ := ok_of_issuesOf (told_emptyToNull (told_textSchema _ _)) h₈
    obtain ⟨_, hcity⟩ := ok_of_issuesOf (told_emptyToNull (told_textSchema _ _)) h₉
    exact hnot _ _ _ _ _ _ _ _ _ hgivenName hfatherName hgrandfatherName hgender hdateOfBirth hphone hemail
      haddress hcity

theorem told_guardiansOf (env : ImportEnv) (cell : StudentImportColumn → Str) : Told (guardiansOf env cell) := by
  unfold guardiansOf
  split
  · have hguardian : Told (guardianInputSchema env.toEnv env.classes cell) := by
      unfold Told guardianInputSchema
      dsimp only
      split
      · simp
      · rename_i hnot
        intro h
        have hnil := Except.error.inj h
        simp only [List.append_eq_nil_iff] at hnil
        obtain ⟨⟨⟨h₁, h₂⟩, h₃⟩, h₄⟩ := hnil
        obtain ⟨_, hname⟩ := ok_of_issuesOf (told_textSchema _ _) h₁
        obtain ⟨_, hrelationship⟩ := ok_of_issuesOf (told_textSchema _ _) h₂
        obtain ⟨_, hphone⟩ := ok_of_issuesOf told_phoneField h₃
        obtain ⟨_, hemail⟩ := ok_of_issuesOf (told_emptyToNull (told_emailSchema env.toEnv env.classes)) h₄
        exact hnot _ _ _ _ hname hrelationship hphone hemail
    intro h
    cases hschema : guardianInputSchema env.toEnv env.classes cell with
    | ok guardian =>
        rw [hschema] at h
        cases h
    | error issues =>
        rw [hschema] at h
        obtain rfl : issues = [] := Except.error.inj h
        exact hguardian hschema
  · exact fun h => by cases h

/-- A row without errors has a student. -/
theorem student_of_no_errors {env : ImportEnv} {map : HeaderMap} {cells : List Str} {table : List (Str × Uuid)}
    {categories : List String} {grants : List Grant}
    (h : (validate env map cells table categories grants).errors = []) :
    ∃ student, (validate env map cells table categories grants).student = some student := by
  unfold validate at h ⊢
  dsimp only at h ⊢
  split
  · exact ⟨_, rfl⟩
  · rename_i hnot
    split at h
    · rename_i herrors hperson hbranch hguardians
      exact (hnot _ _ _ herrors hperson hbranch hguardians).elim
    · have hnil := h
      simp only [List.append_eq_nil_iff] at hnil
      obtain ⟨⟨⟨hperson, hbranch⟩, -⟩, hguardians⟩ := hnil
      have hp : ∃ person, personFieldsSchema env.toEnv env.classes (cellOf map cells) = .ok person := by
        cases hschema : personFieldsSchema env.toEnv env.classes (cellOf map cells) with
        | ok person => exact ⟨person, rfl⟩
        | error issues =>
            rw [hschema] at hperson
            obtain rfl := List.map_eq_nil_iff.1 hperson
            exact absurd hschema (told_personFieldsSchema _ _ _)
      have hb : ∃ id, StudentImportService.lookup table (lowered env.toEnv (cellOf map cells .branch)) = some id := by
        cases hfound : StudentImportService.lookup table (lowered env.toEnv (cellOf map cells .branch)) with
        | some id => exact ⟨id, rfl⟩
        | none =>
            rw [hfound] at hbranch
            cases hbranch
      have hg : ∃ guardians, guardiansOf env (cellOf map cells) = .ok guardians := by
        cases hguardian : guardiansOf env (cellOf map cells) with
        | ok guardians => exact ⟨guardians, rfl⟩
        | error issues =>
            rw [hguardian] at hguardians
            obtain rfl := List.map_eq_nil_iff.1 hguardians
            exact absurd hguardian (told_guardiansOf _ _)
      obtain ⟨person, hp⟩ := hp
      obtain ⟨id, hb⟩ := hb
      obtain ⟨guardians, hg⟩ := hg
      exact (hnot person id guardians h hp hb hg).elim

end Told

/-! ## Reports -/

namespace Tally

variable {t : Tally} {issue : ImportIssue}

theorem report_counts : (t.report issue).imported = t.imported ∧
    (t.report issue).skippedDuplicates = t.skippedDuplicates ∧ (t.report issue).skippedErrors = t.skippedErrors := by
  unfold report
  split <;> exact ⟨rfl, rfl, rfl⟩

/-- The row with this line is reported as an error, or no more is reported. -/
def Reported (line : ℕ) (t : Tally) : Prop :=
  (∃ issue ∈ t.issues, issue.row = line ∧ issue.kind = .error) ∨ t.issues.length = MAX_REPORTED_ISSUES

theorem Reported.report {line : ℕ} (h : t.Reported line) : (t.report issue).Reported line := by
  unfold Tally.report
  split
  · rename_i hroom
    rcases h with ⟨i, hi, hrow, hkind⟩ | hfull
    · exact .inl ⟨i, List.mem_append_left _ hi, hrow, hkind⟩
    · omega
  · exact h

theorem report_limit (h : t.issues.length ≤ MAX_REPORTED_ISSUES) :
    (t.report issue).issues.length ≤ MAX_REPORTED_ISSUES := by
  unfold Tally.report
  split
  · rename_i hroom
    rw [List.length_append]
    exact hroom
  · exact h

theorem reported_report (h : t.issues.length ≤ MAX_REPORTED_ISSUES) (hkind : issue.kind = .error) :
    (t.report issue).Reported issue.row := by
  unfold Tally.report
  split
  · exact .inl ⟨issue, List.mem_append_right _ List.mem_cons_self, rfl, hkind⟩
  · rename_i hfull
    exact .inr (Nat.le_antisymm h (Nat.le_of_not_lt hfull))

end Tally

/-- All errors of a row are reported one after the other. -/
theorem report_errors (line : ℕ) (errors : List (Option String × String)) (t : Tally)
    (hlimit : t.issues.length ≤ MAX_REPORTED_ISSUES) :
    let t' := errors.foldl (fun t e => t.report ⟨line, .error, e.1, e.2⟩) t
    t'.imported = t.imported ∧ t'.skippedDuplicates = t.skippedDuplicates ∧ t'.skippedErrors = t.skippedErrors ∧
      t'.issues.length ≤ MAX_REPORTED_ISSUES ∧ (∀ l, t.Reported l → t'.Reported l) ∧
      (errors ≠ [] → t'.Reported line) := by
  induction errors generalizing t with
  | nil => exact ⟨rfl, rfl, rfl, hlimit, fun _ h => h, fun h => absurd rfl h⟩
  | cons e errors ih =>
      obtain ⟨himported, hduplicates, herrors, hlimit', hkept, -⟩ :=
        ih (t.report ⟨line, .error, e.1, e.2⟩) (Tally.report_limit hlimit)
      obtain ⟨h₁, h₂, h₃⟩ := @Tally.report_counts t ⟨line, .error, e.1, e.2⟩
      exact ⟨himported.trans h₁, hduplicates.trans h₂, herrors.trans h₃, hlimit',
        fun l hl => hkept l hl.report, fun _ => hkept line (Tally.reported_report hlimit rfl)⟩

/-! ## One turn -/

section Turns

variable {env : ImportEnv} {input : StudentImportValues} {grants : List Grant} {lists : Lists}

/-- The student of a row that passes its checks. -/
def accepted (env : ImportEnv) (grants : List Grant) (lists : Lists) (row : CsvRow) : Option CreateStudentValues :=
  let problems := validate env lists.map row.cells lists.branchByKey lists.categories grants
  if problems.errors ++ (lists.customFieldsBlock.map fun message => (none, message)).toList = [] then
    problems.student
  else none

theorem runRow_of_accepted {row : CsvRow × ℕ} {student : CreateStudentValues} {tally : Tally}
    (h : accepted env grants lists row.1 = some student) :
    Postgres.runRow env input grants lists row tally = (do
      let candidates ← Postgres.find (env.row row.2) student.person
      if candidates ≠ [] ∧ input.onDuplicate = .skip then
        return { tally with skippedDuplicates := tally.skippedDuplicates + 1 }.report
          ⟨row.1.line, .duplicate, none, StudentImportService.duplicateMessage candidates⟩
      else
        let _ ← Postgres.create (env.row row.2) { student with confirmNotDuplicate := true } grants
        return { tally with imported := tally.imported + 1 }) := by
  unfold accepted at h
  dsimp only at h
  split at h
  · rename_i hnone
    rw [Postgres.runRow]
    simp only [hnone, h]
  · cases h

theorem runRow_of_not_accepted {row : CsvRow × ℕ} {tally : Tally} (h : accepted env grants lists row.1 = none) :
    ∃ errors : List (Option String × String), errors ≠ [] ∧ Postgres.runRow env input grants lists row tally =
      pure (errors.foldl (fun t e => t.report ⟨row.1.line, .error, e.1, e.2⟩)
        { tally with skippedErrors := tally.skippedErrors + 1 }) := by
  unfold accepted at h
  dsimp only at h
  have herrors : (validate env lists.map row.1.cells lists.branchByKey lists.categories grants).errors ++
      (lists.customFieldsBlock.map fun message => (none, message)).toList ≠ [] := by
    intro hnil
    rw [if_pos hnil] at h
    obtain ⟨student, hstudent⟩ := student_of_no_errors (List.append_eq_nil_iff.1 hnil).1
    rw [h] at hstudent
    cases hstudent
  refine ⟨_, herrors, ?_⟩
  rw [Postgres.runRow]
  split
  · rename_i hnil _
    exact absurd hnil herrors
  · rfl

/-- Where the loop stands after these rows. -/
structure Counted (env : ImportEnv) (grants : List Grant) (lists : Lists) (d : Db) (done : List CsvRow) (t : Tally)
    (v : Db) : Prop where
  checks : checks v = checks d
  students : v.students.length = d.students.length + t.imported
  errors : t.skippedErrors = done.countP fun row => (accepted env grants lists row).isNone
  rest : t.imported + t.skippedDuplicates = done.countP fun row => (accepted env grants lists row).isSome
  reported : ∀ row ∈ done, accepted env grants lists row = none → t.Reported row.line
  limit : t.issues.length ≤ MAX_REPORTED_ISSUES

/-- A row that is accepted, but not by the database. -/
def Unstorable (env : ImportEnv) (grants : List Grant) (lists : Lists) (row : CsvRow) : Prop :=
  ∃ student, accepted env grants lists row = some student ∧ ¬ Clean (storedTexts student)

/-- What may stop the import. -/
def Stops (env : ImportEnv) (grants : List Grant) (lists : Lists) (rows : List CsvRow) (e : Error) : Prop :=
  Elsewhere e ∨ e = textRefused ∧ ∃ row ∈ rows, Unstorable env grants lists row

theorem Counted.turn_error {d v : Db} {done : List CsvRow} {t : Tally} {row : CsvRow}
    (h : Counted env grants lists d done t v) (hrow : accepted env grants lists row = none)
    {errors : List (Option String × String)} (herrors : errors ≠ []) :
    Counted env grants lists d (done ++ [row]) (errors.foldl (fun t e => t.report ⟨row.line, .error, e.1, e.2⟩)
      { t with skippedErrors := t.skippedErrors + 1 }) v := by
  obtain ⟨himported, hduplicates, hskipped, hlimit, hkept, htold⟩ :=
    report_errors row.line errors { t with skippedErrors := t.skippedErrors + 1 } h.limit
  refine ⟨h.checks, ?_, ?_, ?_, ?_, hlimit⟩
  · rw [himported]
    exact h.students
  · rw [hskipped, List.countP_append, ← h.errors]
    simp [hrow]
  · rw [himported, hduplicates, List.countP_append, ← h.rest]
    simp [hrow]
  · intro r hr hnone
    rcases List.mem_append.1 hr with hr | hr
    · exact hkept r.line (h.reported r hr hnone)
    · rw [List.mem_singleton.1 hr]
      exact htold herrors

theorem Counted.turn_accepted {d v v' : Db} {done : List CsvRow} {t t' : Tally} {row : CsvRow}
    {student : CreateStudentValues} (h : Counted env grants lists d done t v)
    (hrow : accepted env grants lists row = some student) (hchecks : Imports.checks v' = Imports.checks v)
    (hstudents : v'.students.length + t.imported = v.students.length + t'.imported)
    (hcount : t'.imported + t'.skippedDuplicates = t.imported + t.skippedDuplicates + 1)
    (herrors : t'.skippedErrors = t.skippedErrors) (hkept : ∀ l, t.Reported l → t'.Reported l)
    (hlimit : t'.issues.length ≤ MAX_REPORTED_ISSUES) :
    Counted env grants lists d (done ++ [row]) t' v' := by
  refine ⟨hchecks.trans h.checks, ?_, ?_, ?_, ?_, hlimit⟩
  · have hbefore := h.students
    omega
  · rw [herrors, List.countP_append, h.errors]
    simp [hrow]
  · rw [hcount, List.countP_append, h.rest]
    simp [hrow]
  · intro r hr hnone
    rcases List.mem_append.1 hr with hr | hr
    · exact hkept r.line (h.reported r hr hnone)
    · rw [List.mem_singleton.1 hr, hrow] at hnone
      cases hnone

theorem mem_of_intercalate {sep : Str} {parts : List Str} {c : Char} (h : c ∈ sep.intercalate parts) :
    c ∈ sep ∨ ∃ part ∈ parts, c ∈ part := by
  induction parts with
  | nil => cases h
  | cons part parts ih =>
      cases parts with
      | nil => exact .inr ⟨part, List.mem_cons_self, by simpa using h⟩
      | cons next parts =>
          rw [List.intercalate_cons_cons, List.mem_append, List.mem_append] at h
          rcases h with (hpart | hsep) | hrest
          · exact .inr ⟨part, List.mem_cons_self, hpart⟩
          · exact .inl hsep
          · rcases ih hrest with hsep | ⟨p, hp, hc⟩
            · exact .inl hsep
            · exact .inr ⟨p, List.mem_cons_of_mem _ hp, hc⟩

/-- What the search sends is stored too. -/
theorem clean_probe {p : Person} (hlower : ∀ s : String, NUL ∈ (env.lower s).toList → NUL ∈ s.toList)
    (h : Clean (personTexts p)) (n : ℕ) : Clean (probeTexts (env.row n) p) := by
  have hmem : ∀ t, t ∈ personTexts p → NUL ∉ t.toList := h
  intro t ht
  rw [probeTexts, List.mem_append, List.mem_cons, Option.mem_toList, Option.mem_toList] at ht
  rcases ht with hname | rfl | hemail
  · rw [DuplicatesService.probeName] at hname
    split at hname
    · obtain rfl := Option.some.inj hname
      intro hnul
      have hjoined := hlower _ hnul
      rw [String.toList_intercalate] at hjoined
      rcases mem_of_intercalate hjoined with hblank | ⟨part, hpart, hc⟩
      · revert hblank
        decide
      · obtain ⟨text, htext, rfl⟩ := List.mem_map.1 hpart
        refine hmem text ?_ hc
        have hin := (List.mem_filter.1 htext).1
        simp only [List.mem_append, List.mem_cons, List.not_mem_nil, or_false] at hin
        rcases hin with (rfl | rfl) | hin
        · simp [personTexts]
        · simp [personTexts]
        · simp [personTexts, Option.mem_toList.1 hin]
    · cases hname
  · exact hmem _ (by simp [personTexts])
  · obtain ⟨email, hsome, rfl⟩ := Option.map_eq_some_iff.1 hemail
    intro hnul
    exact hmem email (by simp [personTexts, hsome]) (hlower email hnul)

theorem wlp_runRow {d v : Db} {done : List CsvRow} {t : Tally} {row : CsvRow × ℕ}
    (hlower : ∀ s : String, NUL ∈ (env.lower s).toList → NUL ∈ s.toList)
    (hadmissible : ∀ student, accepted env grants lists row.1 = some student →
      Admissible env.toEnv grants d student)
    (h : Counted env grants lists d done t v) :
    (Postgres.runRow env input grants lists row t).wlp
      (fun t' v' => Counted env grants lists d (done ++ [row.1]) t' v') (Stops env grants lists [row.1]) v := by
  cases hrow : accepted env grants lists row.1 with
  | none =>
      obtain ⟨errors, herrors, hturn⟩ := @runRow_of_not_accepted env input grants lists row t hrow
      rw [hturn, Prog.wlp_pure]
      exact h.turn_error hrow herrors
  | some student =>
      have hrefused : ¬ Clean (storedTexts student) → Stops env grants lists [row.1] textRefused :=
        fun hnot => .inr ⟨rfl, row.1, List.mem_singleton_self _, student, hrow, hnot⟩
      have hperson : Clean (storedTexts student) → Clean (personTexts student.person) := fun hall =>
        (clean_append.1 (clean_append.1 hall).1).1
      rw [runRow_of_accepted hrow, Prog.wlp_bind]
      refine wlp_find (fun candidates => ?_) fun hnot => hrefused fun hall =>
        hnot (clean_probe hlower (hperson hall) row.2)
      rw [Prog.wlp_ite]
      refine ⟨fun _ => ?_, fun _ => ?_⟩
      · rw [Prog.wlp_pure]
        obtain ⟨himported, hduplicates, herrors⟩ :=
          @Tally.report_counts { t with skippedDuplicates := t.skippedDuplicates + 1 }
            ⟨row.1.line, .duplicate, none, StudentImportService.duplicateMessage candidates⟩
        refine h.turn_accepted hrow rfl ?_ ?_ herrors (fun l hl => ?_) (Tally.report_limit h.limit)
        · rw [himported]
        · rw [himported, hduplicates, Nat.add_assoc]
        · have hl' : Tally.Reported l { t with skippedDuplicates := t.skippedDuplicates + 1 } := hl
          exact hl'.report
      · rw [Prog.wlp_bind]
        obtain ⟨hpermitted, hbranch, hcategory, hfields, hguardians, hdate⟩ :=
          (hadmissible student hrow).congr h.checks
        have hstudent : Admissible (env.row row.2) grants v student :=
          ⟨hpermitted, hbranch, hcategory, hfields, hguardians, hdate⟩
        refine Prog.wlp_mono ?_ ?_ (wlp_create hstudent)
        · rintro - v' ⟨hchecks, hstudents⟩
          rw [Prog.wlp_pure]
          refine h.turn_accepted hrow hchecks ?_ ?_ rfl (fun l hl => hl) h.limit
          · rw [hstudents]
            dsimp only
            omega
          · dsimp only
            omega
        · rintro e (helse | ⟨rfl, hnot⟩)
          · exact .inl helse
          · exact hrefused hnot

theorem wlp_runRows {d v : Db} {done : List CsvRow} {t : Tally} (rows : List (CsvRow × ℕ))
    (hlower : ∀ s : String, NUL ∈ (env.lower s).toList → NUL ∈ s.toList)
    (hadmissible : ∀ row student, accepted env grants lists row = some student →
      Admissible env.toEnv grants d student)
    (h : Counted env grants lists d done t v) :
    (Postgres.runRows env input grants lists rows t).wlp
      (fun t' v' => Counted env grants lists d (done ++ rows.map Prod.fst) t' v')
      (Stops env grants lists (rows.map Prod.fst)) v := by
  induction rows generalizing done t v with
  | nil =>
      rw [Postgres.runRows, Prog.wlp_pure, List.map_nil, List.append_nil]
      exact h
  | cons row rows ih =>
      rw [Postgres.runRows, Prog.wlp_bind]
      refine Prog.wlp_mono (fun t' v' h' => ?_) ?_ (wlp_runRow hlower (hadmissible row.1) h)
      · refine Prog.wlp_mono (fun t'' v'' h'' => ?_) ?_ (ih h')
        · rwa [List.append_assoc] at h''
        · rintro e (helse | ⟨rfl, r, hr, hbad⟩)
          · exact .inl helse
          · exact .inr ⟨rfl, r, List.mem_cons_of_mem _ hr, hbad⟩
      · rintro e (helse | ⟨rfl, r, hr, hbad⟩)
        · exact .inl helse
        · exact .inr ⟨rfl, r, List.mem_cons.2 (.inl (List.mem_singleton.1 hr)), hbad⟩

end Turns

/-! ## The import -/

section Import

variable (env : ImportEnv) (grants : List Grant) (d : Db)

/-- The definitions that `validateValues` is given. -/
def studentFields : List CustomFieldRow :=
  orderBy (fun r => toLex (r.sortOrder, r.label)) (d.customFieldDefinitions.filter fun r => r.entityType == "student")

/-- What the rows of a file with this header are checked against. -/
def listsAt (map : HeaderMap) : Lists where
  map := map
  branchByKey := branchByKey env d
  categories := categories d
  customFieldsBlock := match env.parseCustomFields (studentFields d) [] with
    | .ok _ => none
    | .error _ => some <|
        "This institution has required custom fields on students, which an import can't fill in yet. " ++
          "Make them optional first."

/-- The row passes its checks, and its texts are texts to the database. -/
def storable (lists : Lists) (row : CsvRow) : Bool :=
  (accepted env grants lists row).any fun student => Clean (storedTexts student)

/-- Every row is counted once: the rows that cannot be stored as errors, which are reported, and the
others as imported, with a new student each, or as duplicates. -/
structure CountedRight (lists : Lists) (rows : List CsvRow) (result : StudentImportResult) (d' : Db) : Prop where
  total : result.totalRows = rows.length
  errors : result.skippedErrors = rows.countP fun row => !storable env grants lists row
  rest : result.imported + result.skippedDuplicates = rows.countP (storable env grants lists)
  students : d'.students.length = d.students.length + result.imported
  reported : ∀ row ∈ rows, storable env grants lists row = false →
    (∃ issue ∈ result.issues, issue.row = row.line ∧ issue.kind = .error) ∨
      result.issues.length = MAX_REPORTED_ISSUES

variable {env grants d}

theorem storable_iff {lists : Lists} {row : CsvRow} (h : ¬ Unstorable env grants lists row) :
    storable env grants lists row = (accepted env grants lists row).isSome := by
  unfold storable
  cases hrow : accepted env grants lists row with
  | none => rfl
  | some student =>
      have hclean : Clean (storedTexts student) := by
        by_contra hnot
        exact h ⟨student, hrow, hnot⟩
      simp [hclean]

theorem not_storable_of_unstorable {lists : Lists} {row : CsvRow} (h : Unstorable env grants lists row) :
    storable env grants lists row = false ∧ (accepted env grants lists row).isSome = true := by
  obtain ⟨student, hrow, hnot⟩ := h
  simp [storable, hrow, hnot]

theorem isSome_of_storable {lists : Lists} {row : CsvRow} (h : storable env grants lists row = true) :
    (accepted env grants lists row).isSome = true := by
  unfold storable at h
  cases hrow : accepted env grants lists row with
  | none =>
      rw [hrow] at h
      cases h
  | some student => rfl

/-- A loop that ends has counted right exactly if no accepted row is refused by the database. -/
theorem countedRight_iff {lists : Lists} {rows : List CsvRow} {t : Tally} {d' : Db} {result : StudentImportResult}
    (h : Counted env grants lists d rows t d') (htotal : result.totalRows = rows.length)
    (himported : result.imported = t.imported) (hduplicates : result.skippedDuplicates = t.skippedDuplicates)
    (herrors : result.skippedErrors = t.skippedErrors) (hissues : result.issues = t.issues) :
    CountedRight env grants d lists rows result d' ↔ ∀ row ∈ rows, ¬ Unstorable env grants lists row := by
  constructor
  · intro hright row hrow hbad
    obtain ⟨hnot, hsome⟩ := not_storable_of_unstorable hbad
    have hcount : rows.countP (storable env grants lists) =
        rows.countP fun row => (accepted env grants lists row).isSome := by
      rw [← hright.rest, himported, hduplicates, h.rest]
    have hsub : (rows.filter (storable env grants lists)).Sublist
        (rows.filter fun row => (accepted env grants lists row).isSome) :=
      List.monotone_filter_right rows fun row => isSome_of_storable
    rw [List.countP_eq_length_filter, List.countP_eq_length_filter] at hcount
    have hmem : row ∈ rows.filter (storable env grants lists) := by
      rw [hsub.eq_of_length hcount]
      exact List.mem_filter.2 ⟨hrow, hsome⟩
    rw [(List.mem_filter.1 hmem).2] at hnot
    cases hnot
  · intro hgood
    have hsame : ∀ row ∈ rows, storable env grants lists row = (accepted env grants lists row).isSome :=
      fun row hrow => storable_iff (hgood row hrow)
    refine ⟨htotal, ?_, ?_, ?_, ?_⟩
    · rw [herrors, h.errors]
      apply List.countP_congr
      intro row hrow
      rw [hsame row hrow]
      cases accepted env grants lists row <;> simp
    · rw [himported, hduplicates, h.rest]
      apply List.countP_congr
      intro row hrow
      rw [hsame row hrow]
    · rw [himported]
      exact h.students
    · intro row hrow hnot
      rw [hissues]
      apply h.reported row hrow
      rw [hsame row hrow] at hnot
      exact Option.isNone_iff_eq_none.1 (by simpa using hnot)

theorem admissible_of_accepted {map : HeaderMap} {row : CsvRow} {student : CreateStudentValues}
    (h : accepted env grants (listsAt env d map) row = some student) : Admissible env.toEnv grants d student := by
  unfold accepted at h
  dsimp only at h
  split at h
  · rename_i hnone
    apply admissible_of_validate h
    have hblock := (List.append_eq_nil_iff.1 hnone).2
    cases hfields : env.parseCustomFields (studentFields d) [] with
    | ok values => exact ⟨values, hfields⟩
    | error e => simp [listsAt, hfields] at hblock
  · cases h

theorem wlp_run {input : StudentImportValues} {dryRun : Bool} {parsed : StudentImportService.Parsed}
    (hlower : ∀ s : String, NUL ∈ (env.lower s).toList → NUL ∈ s.toList)
    (hparse : parse env input.csv = .ok parsed) :
    (Postgres.run env input grants dryRun).wlp
      (fun result d' => ∃ t, Counted env grants (listsAt env d parsed.map) d parsed.rows t d' ∧
        result.totalRows = parsed.rows.length ∧ result.imported = t.imported ∧
        result.skippedDuplicates = t.skippedDuplicates ∧ result.skippedErrors = t.skippedErrors ∧
        result.issues = t.issues)
      (Stops env grants (listsAt env d parsed.map) parsed.rows) d := by
  have hstart : Counted env grants (listsAt env d parsed.map) d [] {} d :=
    ⟨rfl, rfl, rfl, rfl, fun _ h => absurd h List.not_mem_nil, Nat.zero_le _⟩
  have hloop := @wlp_runRows env input grants (listsAt env d parsed.map) d d [] {} parsed.rows.zipIdx hlower
    (fun row student => @admissible_of_accepted env grants d parsed.map row student) hstart
  rw [List.nil_append, List.zipIdx_map_fst] at hloop
  simp only [Postgres.run, Prog.wlp_bind, Prog.wlp_ofExcept, hparse, Prog.wlp_acquire, Prog.wlp_get]
  refine ⟨?_, fun e he => by cases he⟩
  rintro _ ⟨rfl⟩
  rw [StudentImportService.customFieldsBlock, Prog.wlp_catching ((keeps_validateValues _ _ _).map _)]
  simp only [validateValues, Prog.wlp_map, Prog.wlp_bind, Prog.wlp_get, Prog.wlp_ofExcept, Prog.wlp_pure,
    -String.reduceAppend]
  have hrest : ∀ block, (listsAt env d parsed.map).customFieldsBlock = block →
      (Postgres.runRows env input grants ⟨parsed.map, branchByKey env d, categories d, block⟩
        parsed.rows.zipIdx {}).wlp (fun t d' => ∃ t', Counted env grants (listsAt env d parsed.map) d
          parsed.rows t' d' ∧ True ∧ t.imported = t'.imported ∧
          t.skippedDuplicates = t'.skippedDuplicates ∧ t.skippedErrors = t'.skippedErrors ∧ t.issues = t'.issues)
        (Stops env grants (listsAt env d parsed.map) parsed.rows) d := by
    rintro _ rfl
    exact Prog.wlp_mono (fun t d' h => ⟨t, h, trivial, rfl, rfl, rfl, rfl⟩) (fun _ he => he) hloop
  constructor
  · intro values hvalues
    exact hrest none (by simp [listsAt, studentFields, hvalues])
  · intro e he
    exact hrest _ (by simp only [listsAt, studentFields, he, -String.reduceAppend])

/-- Unless the numbering or the keys stop it, an import of a file that can be read ends with every
row counted right if and only if no row that passes its checks has U+0000 in a text to store. -/
theorem rows_counted_iff {input : StudentImportValues} {dryRun : Bool} {parsed : StudentImportService.Parsed}
    (hlower : ∀ s : String, NUL ∈ (env.lower s).toList → NUL ∈ s.toList)
    (hparse : parse env input.csv = .ok parsed) :
    (∃ e, ((Postgres.run env input grants dryRun).alone d).1 = .error e ∧ Elsewhere e) ∨
      ((∃ result, ((Postgres.run env input grants dryRun).alone d).1 = .ok result ∧
          CountedRight env grants d (listsAt env d parsed.map) parsed.rows result
            ((Postgres.run env input grants dryRun).alone d).2) ↔
        ∀ row ∈ parsed.rows, ¬ Unstorable env grants (listsAt env d parsed.map) row) := by
  rcases Prog.alone_cases (@wlp_run env grants d input dryRun parsed hlower hparse) with
    ⟨result, d', hrun, t, hcounted, htotal, himported, hduplicates, herrors, hissues⟩ | ⟨e, hrun, hstops⟩
  · right
    rw [hrun, ← countedRight_iff hcounted htotal himported hduplicates herrors hissues]
    exact ⟨fun ⟨_, hresult, hright⟩ => Except.ok.inj hresult ▸ hright, fun hright => ⟨result, rfl, hright⟩⟩
  · rw [hrun]
    rcases hstops with helse | ⟨rfl, row, hrow, hbad⟩
    · exact .inl ⟨e, rfl, helse⟩
    · right
      exact ⟨fun ⟨_, hresult, _⟩ => (by cases hresult), fun hgood => absurd hbad (hgood row hrow)⟩

end Import

/-! ## Two students -/

def bole : Db where
  numbering :=
    { institution := some ⟨"Africa/Addis_Ababa", ⟨7, 8⟩⟩
      branches := [⟨1, BOLE, "Bole", true⟩] }

def roster (second : String) : StudentImportValues where
  csv := ("given_name,father_name,gender,phone,branch\nHana,Bekele,f,0911223344,BOLE\n" ++ second ++
    ",Alemu,f,0922334455,BOLE\n").toList

def manager : List Grant := [⟨.studentsManage, .global⟩]

theorem nul_of_toLower {s : String} (h : NUL ∈ s.toLower.toList) : NUL ∈ s.toList := by
  delta String.toLower at h
  rw [String.toList_map, List.mem_map] at h
  obtain ⟨c, hc, hlower⟩ := h
  have hsame : c.toLower = c := by
    by_contra hne
    obtain ⟨hlow, hhigh⟩ := range_of_toLower hne
    rw [← Char.ofNat_toNat c] at hlower
    generalize c.toNat = n at hlow hhigh hlower
    revert hlower
    interval_cases n <;> decide
  rw [hsame] at hlower
  exact hlower ▸ hc

theorem rows_counted_iff_roster : ∃ parsed, parse {} (roster "Sara").csv = .ok parsed ∧
    ((∃ e, ((Postgres.run {} (roster "Sara") manager false).alone bole).1 = .error e ∧ Elsewhere e) ∨
      ((∃ result, ((Postgres.run {} (roster "Sara") manager false).alone bole).1 = .ok result ∧
          CountedRight {} manager bole (listsAt {} bole parsed.map) parsed.rows result
            ((Postgres.run {} (roster "Sara") manager false).alone bole).2) ↔
        ∀ row ∈ parsed.rows, ¬ Unstorable {} manager (listsAt {} bole parsed.map) row)) := by
  have hok : (parse {} (roster "Sara").csv).toOption.isSome = true := by decide +kernel
  cases hparse : parse {} (roster "Sara").csv with
  | error e =>
      rw [hparse] at hok
      cases hok
  | ok parsed => exact ⟨parsed, rfl, rows_counted_iff (fun _ => nul_of_toLower) hparse⟩

/-- One name with U+0000, and none of the two students is imported. -/
theorem import_spoiled :
    (parse {} (roster "Sa\x00ra").csv).toOption.isSome = true ∧
      ((Postgres.run {} (roster "Sara") manager false).alone bole).2.students.length = 2 ∧
      (match ((Postgres.run {} (roster "Sa\x00ra") manager false).alone bole).1 with
        | .error e => e == textRefused
        | .ok _ => false) = true ∧
      ((Postgres.run {} (roster "Sa\x00ra") manager false).alone bole).2.students.length = 0 := by
  decide +kernel

end Emis.Imports
