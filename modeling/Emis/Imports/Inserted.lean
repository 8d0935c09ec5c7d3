import Emis.Imports.Storing

/-!
# An accepted row is inserted

What a row that passes its checks can still be stopped by: a text with U+0000 among those
that are stored, or something that no row decides.
-/

namespace Emis.Imports

open Transactions Admissions
open StudentImportService (validate branchByKey categories guardiansOf branchErrors categoryErrors)

/-! ## Statements -/

section Statements

variable {Φ : Unit → Db → Prop} {E : Error → Prop} {v : Db}

theorem wlp_send {texts : List String} {dates : List Day}
    (hdates : ∀ day ∈ dates, isoDate (dateText day) = some day) (hclean : Clean texts → Φ () v)
    (hrefused : ¬ Clean texts → E textRefused) : (send texts dates).wlp Φ E v := by
  simp only [send, Prog.wlp_bind, Prog.wlp_require, decide_eq_true_eq, decide_eq_false_iff_not]
  refine ⟨fun htexts => ⟨fun _ => hclean htexts, fun hbad => ?_⟩, hrefused⟩
  have hall : dates.all (fun day => isoDate (dateText day) == some day) = true :=
    List.all_eq_true.2 fun day hday => by simp [hdates day hday]
  rw [hall] at hbad
  cases hbad

end Statements

section Numbers

open Emis.Numbering

theorem internal_of_fillToken {ctx : NumberContext} {seq name : Text} {e : Error}
    (h : fillToken ctx seq name = .error e) : Elsewhere e := by
  unfold fillToken at h
  split_ifs at h
  cases hcode : ctx.branchCode with
  | none =>
      rw [hcode] at h
      obtain rfl := Except.error.inj h
      exact .numbering _
  | some code =>
      rw [hcode] at h
      cases h

theorem internal_of_fillPieces {ctx : NumberContext} {seq : Text} {ps : List Piece} {e : Error}
    (h : fillPieces ctx seq ps = .error e) : Elsewhere e := by
  induction ps with
  | nil => cases h
  | cons p ps ih =>
      cases p with
      | literal c =>
          rw [fillPieces] at h
          cases hrest : fillPieces ctx seq ps with
          | error e' =>
              rw [hrest] at h
              obtain rfl := Except.error.inj h
              exact ih hrest
          | ok rest =>
              rw [hrest] at h
              cases h
      | token t =>
          rw [fillPieces] at h
          cases hvalue : fillToken ctx seq t.name with
          | error e' =>
              rw [hvalue] at h
              obtain rfl := Except.error.inj h
              exact internal_of_fillToken hvalue
          | ok value =>
              cases hrest : fillPieces ctx seq ps with
              | error e' =>
                  rw [hvalue, hrest] at h
                  obtain rfl := Except.error.inj h
                  exact ih hrest
              | ok rest =>
                  rw [hvalue, hrest] at h
                  cases h

theorem wlp_next_elsewhere (env : Numbering.Env) (key : NumberSeriesKey) (d : Numbering.Db) :
    (NumberingService.next env key none none).wlp (fun _ d' => d'.branches = d.branches) Elsewhere d := by
  simp only [NumberingService.next, institutionRow, NumberingService.branchCodeFor, Prog.wlp_bind,
    Prog.wlp_get, Prog.wlp_expect, Prog.wlp_ite, Prog.wlp_pure, Prog.wlp_ofExcept, Prog.wlp_acquire,
    Prog.wlp_modify]
  refine ⟨fun inst _ => ⟨fun _ => ⟨fun id hid => (by cases hid), fun _ => .numbering _⟩, fun _ => ?_⟩,
    fun _ => .institution⟩
  refine ⟨fun scope _ => ⟨fun lastValue _ => ⟨fun number _ => rfl, fun e he => ?_⟩, fun _ => .numbering _⟩,
    fun e he => ?_⟩
  · exact internal_of_fillPieces he
  · exact internal_of_fillPieces he

end Numbers

/-- The tables that rows are checked against. -/
def checks (d : Db) : List Numbering.BranchRow × List Cohorts.DescriptorRow × List CustomFieldRow :=
  (d.numbering.branches, d.descriptors, d.customFieldDefinitions)

theorem wlp_nextNumber (env : Admissions.Env) (v : Db) :
    (nextNumber env .student none).wlp (fun _ v' => checks v' = checks v ∧ v'.students = v.students)
      Elsewhere v := by
  unfold nextNumber Prog.inside
  rw [Prog.wlp_zoom numberingPart.view_put (fun _ _ _ => rfl) (fun _ => rfl)]
  refine Prog.wlp_mono (fun _ s hs => ?_) (fun _ he => he) (wlp_next_elsewhere _ _ _)
  refine ⟨?_, rfl⟩
  exact congrArg (fun b => (b, v.descriptors, v.customFieldDefinitions)) hs

/-! ## The services -/

theorem wlp_find {env : Admissions.Env} {p : Person} {v : Db} {E : Error → Prop}
    {Φ : List DuplicatesService.Candidate → Db → Prop} (hfound : ∀ candidates, Φ candidates v)
    (hrefused : ¬ Clean (probeTexts env p) → E textRefused) : (Postgres.find env p).wlp Φ E v := by
  rw [Postgres.find, Prog.wlp_bind]
  refine wlp_send (fun _ h => absurd h List.not_mem_nil) (fun _ => ?_) hrefused
  simp only [DuplicatesService.find, Prog.wlp_bind, Prog.wlp_get, Prog.wlp_pure]
  exact hfound _

/-- What the checks of a row make sure of. -/
structure Admissible (env : Admissions.Env) (grants : List Grant) (v : Db) (student : CreateStudentValues) :
    Prop where
  permitted : hasPermission grants .studentsManage (some { branchId := some student.branchId }) = true
  branch : (v.numbering.branches.any fun b => b.id == student.branchId && b.isActive) = true
  category : ∀ code ∈ student.categoryCode,
    (v.descriptors.any fun r => r.ns == "student_category" && r.code == code && r.isActive) = true
  fields : ∃ values, env.parseCustomFields (orderBy (fun r => toLex (r.sortOrder, r.label))
    (v.customFieldDefinitions.filter fun r => r.entityType == "student")) student.customFields = .ok values
  guardians : student.guardians.length ≤ 1
  date : ∀ day ∈ student.person.dateOfBirth, isoDate (dateText day) = some day

theorem Admissible.congr {env : Admissions.Env} {grants : List Grant} {v v' : Db}
    {student : CreateStudentValues} (h : Admissible env grants v student) (hsame : checks v' = checks v) :
    Admissible env grants v' student := by
  obtain ⟨hbranches, hrest⟩ := Prod.ext_iff.1 hsame
  obtain ⟨hdescriptors, hfields⟩ := Prod.ext_iff.1 hrest
  simp only [checks] at hbranches hdescriptors hfields
  exact ⟨h.permitted, hbranches ▸ h.branch, hdescriptors ▸ h.category, hfields ▸ h.fields, h.guardians, h.date⟩

theorem clean_append {left right : List String} : Clean (left ++ right) ↔ Clean left ∧ Clean right := by
  unfold Clean
  exact List.forall_mem_append

section Creating

variable {env : Admissions.Env} {grants : List Grant} {v : Db} {student : CreateStudentValues}

theorem wlp_insertGuardians {E : Error → Prop} {Φ : List GuardianRow → Db → Prop} {id : Uuid}
    {guardians : List GuardianValues} (hone : guardians.length ≤ 1)
    (hdone : ∀ rows v', checks v' = checks v → v'.students = v.students → Φ rows v') :
    (StudentsService.insertGuardians env id guardians).wlp Φ E v := by
  have hfew : ∀ q : GuardianRow → Bool, ((guardians.zipIdx.map fun g =>
      StudentsService.newGuardian env id g.1 g.2).filter q).length ≤ 1 := by
    intro q
    refine (List.length_filter_le _ _).trans ?_
    rwa [List.length_map, List.length_zipIdx]
  simp only [StudentsService.insertGuardians, Prog.wlp_bind, Prog.wlp_require, decide_eq_true_eq,
    decide_eq_false_iff_not, Prog.wlp_modify, Prog.wlp_pure]
  refine ⟨fun _ => ⟨fun _ => hdone _ _ rfl rfl, fun h => absurd (hfew _) h⟩, fun h => absurd (hfew _) h⟩

theorem wlp_create (h : Admissible env grants v student) :
    (Postgres.create env { student with confirmNotDuplicate := true } grants).wlp
      (fun _ v' => checks v' = checks v ∧ v'.students.length = v.students.length + 1)
      (fun e => Elsewhere e ∨ e = textRefused ∧ ¬ Clean (storedTexts student)) v := by
  have hperson : ¬ Clean (personTexts student.person ++ student.categoryCode.toList) →
      ¬ Clean (storedTexts student) := fun hnot hall => hnot (clean_append.1 hall).1
  have hcategory : ¬ Clean student.categoryCode.toList → ¬ Clean (storedTexts student) :=
    fun hnot => hperson fun hall => hnot (clean_append.1 hall).2
  have hguardians : ¬ Clean (student.guardians.flatMap guardianTexts) → ¬ Clean (storedTexts student) :=
    fun hnot hall => hnot (clean_append.1 hall).2
  obtain ⟨values, hvalues⟩ := h.fields
  simp only [Postgres.create, assertScope, h.permitted, isActiveBranch, Prog.wlp_bind, Prog.wlp_require,
    Prog.wlp_get, Prog.wlp_pure, h.branch, true_implies, Bool.true_eq_false, false_implies, and_true]
  refine wlp_send (fun _ hday => absurd hday List.not_mem_nil) (fun _ => ?_) fun hnot => .inr ⟨rfl, hcategory hnot⟩
  have hactive : (DescriptorsService.assertActiveCode "student_category" student.categoryCode).wlp
      (fun _ v' => v' = v) (fun _ => False) v := by
    cases hcode : student.categoryCode with
    | none => exact rfl
    | some code =>
        have hin := h.category code (by rw [hcode]; rfl)
        simp only [DescriptorsService.assertActiveCode, DescriptorsService.isActiveCode, Prog.wlp_bind,
          Prog.wlp_get, Prog.wlp_pure, Prog.wlp_require, hin, true_implies, Bool.true_eq_false,
          false_implies, and_true]
  refine Prog.wlp_mono ?_ (fun _ hfalse => hfalse.elim) hactive
  rintro - _ rfl
  simp only [validateValues, Prog.wlp_bind, Prog.wlp_get, Prog.wlp_ofExcept, hvalues, Except.ok.injEq,
    forall_eq', reduceCtorEq, false_implies, implies_true, and_true, Bool.not_true, Prog.wlp_when,
    Bool.false_eq_true, true_implies, true_and]
  refine Prog.wlp_mono ?_ (fun _ he => .inl he) (wlp_nextNumber env _)
  rintro issued v₁ ⟨hchecks, hstudents⟩
  refine wlp_send ?_ (fun _ => ?_) fun hnot => .inr ⟨rfl, hperson hnot⟩
  · intro day hday
    exact h.date day (by simpa using hday)
  simp only [StudentsService.insertStudent, Prog.wlp_bind, Prog.wlp_acquire, Prog.wlp_get, Prog.wlp_require,
    Prog.wlp_modify]
  refine ⟨fun _ => ⟨fun _ => ?_, fun _ => .inl .id⟩, fun _ => .inl .number⟩
  refine wlp_send (fun _ hday => absurd hday List.not_mem_nil) (fun _ => ?_)
    fun hnot => .inr ⟨rfl, hguardians hnot⟩
  refine wlp_insertGuardians h.guardians fun rows v₂ hchecks' hstudents' => ?_
  refine ⟨hchecks'.trans hchecks, ?_⟩
  rw [hstudents', List.length_append, hstudents]
  rfl

end Creating

/-! ## The checks -/

section Validate

variable {env : ImportEnv} {map : HeaderMap} {cells : List Str} {grants : List Grant} {d : Db}
  {student : CreateStudentValues}

theorem date_of_schema {cell : StudentImportColumn → Str} {person : Person}
    (h : personFieldsSchema env.toEnv env.classes cell = .ok person) :
    ∀ day ∈ person.dateOfBirth, isoDate (dateText day) = some day := by
  unfold personFieldsSchema at h
  dsimp only at h
  split at h
  · rename_i dateOfBirth _ _ _ _ _ _ _ _ hdate _ _ _ _
    obtain rfl := Except.ok.inj h
    intro day hday
    obtain rfl : dateOfBirth = some day := hday
    unfold emptyToNull at hdate
    split at hdate
    · cases hdate
    · split at hdate
      · rename_i found hfound
        obtain rfl : found = day := by simpa using hdate
        unfold dateOfBirthSchema at hfound
        dsimp only at hfound
        split at hfound
        · rename_i hiso _
          obtain rfl := Except.ok.inj hfound
          exact isoDate_dateText (dateText_of_isoDate hiso).1
        · cases hfound
      · cases hdate
  · cases h

theorem admissible_of_validate
    (h : (validate env map cells (branchByKey env d) (categories d) grants).student = some student)
    (hblock : ∃ values, env.parseCustomFields (orderBy (fun r => toLex (r.sortOrder, r.label))
      (d.customFieldDefinitions.filter fun r => r.entityType == "student")) [] = .ok values) :
    Admissible env.toEnv grants d student := by
  unfold validate at h
  dsimp only at h
  split at h
  · rename_i person branchId guardians herrors hperson hbranch hguardians
    obtain rfl := Option.some.inj h
    simp only [List.append_eq_nil_iff] at herrors
    obtain ⟨⟨⟨-, hpermitted⟩, hcategory⟩, -⟩ := herrors
    rw [hbranch] at hpermitted
    constructor
    · by_contra hnot
      rw [branchErrors, if_neg hnot] at hpermitted
      cases hpermitted
    · obtain ⟨b, hb, hid, -⟩ := mem_entries (branchByKey_eq env d ▸ mem_of_lookup hbranch)
      obtain ⟨hmem, hactive⟩ := List.mem_filter.1 hb
      have hbranchId : b.id = branchId := hid.symm
      refine List.any_eq_true.2 ⟨b, (orderBy_perm _ _).mem_iff.1 hmem, ?_⟩
      simp [hactive, hbranchId]
    · intro code hcode
      dsimp only at hcode
      split at hcode
      · cases hcode
      · rename_i hsome
        obtain rfl := Option.some.inj hcode
        have hin : (categories d).contains (String.ofList (cellOf map cells .category)) = true := by
          by_contra hnot
          rw [categoryErrors, if_pos ⟨hsome, hnot⟩] at hcategory
          cases hcategory
        rw [List.contains_iff_mem, categories, List.mem_map] at hin
        obtain ⟨r, hr, hcode⟩ := hin
        obtain ⟨hmem, htest⟩ := List.mem_filter.1 hr
        refine List.any_eq_true.2 ⟨r, hmem, ?_⟩
        rw [Bool.and_eq_true] at htest
        simp [htest.1, htest.2, hcode]
    · exact hblock
    · unfold guardiansOf at hguardians
      split at hguardians
      · cases hguardian : guardianInputSchema env.toEnv env.classes (cellOf map cells) with
        | error issues =>
            rw [hguardian] at hguardians
            cases hguardians
        | ok guardian =>
            rw [hguardian] at hguardians
            obtain rfl := Except.ok.inj hguardians
            exact Nat.le_refl 1
      · obtain rfl := Except.ok.inj hguardians
        exact Nat.zero_le 1
    · exact date_of_schema hperson
  · cases h

end Validate

end Emis.Imports
