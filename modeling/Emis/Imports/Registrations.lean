import Emis.Admissions.Frames
import Emis.Imports.StudentImportService
import Emis.Library.Script

/-!
# Registering somebody once

The search for duplicates and the insert are separate statements. A registration is new
when it commits if nobody with its phone or e-mail was registered meanwhile.
-/

namespace Emis.Imports

open Transactions Protocol Admissions

inductive Call where
  | create (env : Admissions.Env) (input : CreateStudentValues) (grants : List Grant)
  | convert (env : Admissions.Env) (id : Uuid) (input : ConvertValues) (expectedVersion : ℕ)
      (grants : List Grant)
  | importStudents (env : ImportEnv) (input : StudentImportValues) (grants : List Grant)

inductive Reply where
  | student (s : Student)
  | converted (response : ConvertResponse)
  | imported (result : StudentImportResult)

def Call.code : Call → Admissions.Tx Reply
  | .create env input grants => Reply.student <$> StudentsService.create env input grants
  | .convert env id input expectedVersion grants =>
      Reply.converted <$> ApplicationsService.convert env id input expectedVersion grants
  | .importStudents env input grants => Reply.imported <$> StudentImportService.commit env input grants

def Call.env : Call → Admissions.Env
  | .create env _ _ | .convert env _ _ _ _ => env
  | .importStudents env _ _ => env.toEnv

/-- Are suspected duplicates registered anyway? -/
def Call.confirmed : Call → Bool
  | .create _ input _ => input.confirmNotDuplicate
  | .convert _ _ input _ _ => input.confirmNotDuplicate
  | .importStudents _ input _ => input.onDuplicate == .importAnyway

/-- The lock that is taken before the search for duplicates. -/
def Call.lock : Call → Option Lock
  | .create .. => none
  | .convert _ id _ _ _ => some (.application id)
  | .importStudents .. => some .studentImport

/-- The persons of the rows that pass the schema. -/
def filePersons (env : ImportEnv) (input : StudentImportValues) : List Person :=
  match StudentImportService.parse env input.csv with
  | .error _ => []
  | .ok parsed => parsed.rows.filterMap fun row =>
      (personFieldsSchema env.toEnv env.classes (cellOf parsed.map row.cells)).toOption

def applicantOf (a : ApplicationRow) : Uuid × Person := (a.id, a.person)

/-- Whom the request may register. -/
def Call.persons (q : Call) (d : Db) : List Person :=
  match q with
  | .create _ input _ => [input.person]
  | .convert _ id input _ _ =>
      if input.existingStudentId.isSome then []
      else ((d.applications.map applicantOf).filter fun a => a.1 == id).map Prod.snd
  | .importStudents env input _ => filePersons env input

/-- The same phone or the same e-mail, as `DuplicatesService.find` compares them. -/
def sameContact (env : Admissions.Env) (p other : Person) : Bool :=
  other.phone == p.phone || (p.email.isSome && other.email.map env.lower == p.email.map env.lower)

/-- No student has the person's phone or e-mail. -/
def Call.IsNew (q : Call) (p : Person) (d : Db) : Prop :=
  ∀ s ∈ d.students, sameContact q.env p s.person = false

/-- What may be committed while the request is under way: a lock keeps them apart, or
they register different people. -/
def Call.clear (d : Db) (q q' : Call) : Prop :=
  (q.lock ≠ none ∧ q'.lock = q.lock) ∨ q.confirmed = true ∨
    ∀ p ∈ q.persons d, ∀ p' ∈ q'.persons d, sameContact q.env p p' = false

/-! ## What a request may do and expects -/

/-- Students are added, and applicants stay who they are. -/
structure Own (q : Call) (S : Set Lock) (d d' : Db) : Prop where
  made : ∃ made, d'.students = d.students ++ made ∧ (∀ s ∈ made, s.person ∈ q.persons d) ∧
    (made ≠ [] → ∀ l, q.lock = some l → l ∈ S)
  applicants : d'.applications.map applicantOf = d.applications.map applicantOf

def Call.view (q : Call) : Protocol Db Lock where
  Inv _ := True
  Guar := Own q
  Intf T d d' := ∃ q' : Call, q.clear d q' ∧ Own q' T d d'

theorem agree : Agree (fun _ => True) Call.view Call.clear where
  inv _ _ := Iff.rfl
  expects hclear hown := ⟨_, hclear, hown⟩

section Rely

variable {q : Call} {S : Set Lock} {d d' : Db} {p : Person}

theorem persons_of_applicants (h : d'.applications.map applicantOf = d.applications.map applicantOf) :
    q.persons d' = q.persons d := by
  cases q with
  | create | importStudents => rfl
  | convert => simp only [Call.persons, h]

theorem rely_applicants (h : q.view.Rely S d d') :
    d'.applications.map applicantOf = d.applications.map applicantOf := by
  refine h.same (χ := fun d => d.applications.map applicantOf) ?_
  rintro d₁ d₂ ⟨-, T, -, q', -, hown⟩
  exact hown.applicants

theorem rely_persons (h : q.view.Rely S d d') : q.persons d' = q.persons d :=
  persons_of_applicants (rely_applicants h)

/-- Somebody who is new stays new. -/
theorem isNew_stays (hnot : q.confirmed = false) (hlock : ∀ l, q.lock = some l → l ∈ S)
    (hp : p ∈ q.persons d) (h : q.view.Rely S d d') (hnew : q.IsNew p d) : q.IsNew p d' := by
  have hstays : p ∈ q.persons d' ∧ q.IsNew p d' := by
    refine h.stable (φ := fun d => p ∈ q.persons d ∧ q.IsNew p d) ?_ ⟨hp, hnew⟩
    rintro d₁ d₂ ⟨-, T, hdisj, q', hclear, hown⟩ ⟨hp₁, hnew₁⟩
    refine ⟨persons_of_applicants hown.applicants ▸ hp₁, fun s hs => ?_⟩
    obtain ⟨made, hmade, hpersons, hheld⟩ := hown.made
    rw [hmade] at hs
    rcases List.mem_append.1 hs with hs | hs
    · exact hnew₁ s hs
    · rcases hclear with ⟨hsome, hsame⟩ | hconfirmed | hother
      · obtain ⟨l, hl⟩ := Option.ne_none_iff_exists'.1 hsome
        have hmine : l ∈ S := hlock l hl
        have htheirs : l ∈ T := hheld (List.ne_nil_of_mem hs) l (hsame.trans hl)
        exact (Set.disjoint_left.1 hdisj hmine htheirs).elim
      · simp [hnot] at hconfirmed
      · exact hother p hp₁ s.person (hpersons s hs)
  exact hstays.2

end Rely

/-! ## One registration -/

section Create

variable {q : Call} {S : Set Lock} {f : Db → Db} {d : Db} {env : Admissions.Env}

/-- A search that gives its first matches gives none only where there are none. -/
theorem not_matching_of_take {α κ : Type} [LinearOrder κ] {key : α → κ} {matching : α → Bool} {rows : List α} {n : ℕ}
    (hn : n ≠ 0) (h : (orderBy key (rows.filter matching)).take n = []) : ∀ r ∈ rows, matching r = false := by
  have hnone := (List.take_eq_nil_iff.1 h).resolve_left hn
  rw [← List.length_eq_zero_iff, (orderBy_perm _ _).length_eq, List.length_eq_zero_iff,
    List.filter_eq_nil_iff] at hnone
  exact fun r hr => Bool.eq_false_iff.2 (hnone r hr)

/-- Whoever is not found has neither the person's phone nor the e-mail. -/
theorem wp_find {p : Person} {K : List DuplicatesService.Candidate → Set Lock → (Db → Db) → Db → Prop}
    (hK : ∀ d' candidates, q.view.Rely S d d' →
      (candidates = [] → ∀ s ∈ (f d').students, sameContact env p s.person = false) → K candidates S f d') :
    q.view.wp K Anyway (DuplicatesService.find env p) S f d := by
  simp only [DuplicatesService.find, wp_bind, wp_get, wp_pure]
  intro d₁ hr₁ _
  refine hK d₁ _ hr₁ fun hnil s hs => ?_
  have hrow := not_matching_of_take (by decide) hnil _ (List.mem_map_of_mem hs)
  exact (Bool.or_eq_false_iff.1 hrow).1

/-- What a registration adds to the store. -/
structure Adds (g : Db → Db) (row : StudentRow) : Prop where
  students : ∀ d, (g d).students = d.students ++ [row]
  applications : ∀ d, (g d).applications = d.applications

theorem wp_insertStudent {row : StudentRow} {K : Unit → Set Lock → (Db → Db) → Db → Prop}
    (hK : ∀ S' g d', S ⊆ S' → Adds g row → q.view.Rely S d d' → K () S' (g ∘ f) d') :
    q.view.wp K Anyway (StudentsService.insertStudent row) S f d := by
  simp only [StudentsService.insertStudent, wp_bind, wp_acquire, wp_get, wp_require, wp_modify, implies_true,
    and_true]
  intro d₁ hr₁ _ d₂ hr₂ _ _ d₃ hr₃ _ d₄ hr₄ _ _
  have hS₁ : S ⊆ insert (Lock.studentNumber row.studentNumber) S := Set.subset_insert _ _
  have hS₂ := hS₁.trans (Set.subset_insert (Lock.student row.id) _)
  refine hK _ _ _ hS₂ ⟨fun _ => rfl, fun _ => rfl⟩ ?_
  exact hr₁.trans ((hr₂.anti hS₁).trans ((hr₃.anti hS₁).trans (hr₄.anti hS₂)))

/-- The statements behind the checks. -/
theorem wp_register (env : Admissions.Env) (row : Str → StudentRow) (guardians : List GuardianValues)
    {K : Student → Set Lock → (Db → Db) → Db → Prop}
    (hK : ∀ S' g d' number guardians, S ⊆ S' → Adds g (row number) → q.view.Rely S d d' →
      K ⟨row number, guardians⟩ S' (g ∘ f) d') :
    q.view.wp K Anyway (do
      let issued ← nextNumber env .student none
      StudentsService.insertStudent (row issued.number)
      let guardians ← StudentsService.insertGuardians env (row issued.number).id guardians
      return (⟨row issued.number, guardians⟩ : Student)) S f d := by
  have hsame : ∀ {g : Db → Db}, (∀ x, (g x).records = x.records) →
      ∀ x, (g x).students = x.students ∧ (g x).applications = x.applications := fun hg x =>
    ⟨congrArg Prod.snd (hg x), congrArg Prod.fst (hg x)⟩
  rw [wp_bind]
  refine wp_of_keeps (keeps_nextNumber _ _ _) trivial fun issued S₁ g₁ d₁ hS₁ hg₁ hr₁ _ => ?_
  rw [wp_bind]
  refine wp_insertStudent fun S₂ g₂ d₂ hS₂ hadds hr₂ => ?_
  rw [wp_bind]
  refine wp_of_keeps (keeps_insertGuardians _ _ _) trivial fun guardians S₃ g₃ d₃ hS₃ hg₃ hr₃ _ => ?_
  refine hK S₃ (g₃ ∘ g₂ ∘ g₁) d₃ _ guardians (hS₁.trans (hS₂.trans hS₃)) ⟨fun x => ?_, fun x => ?_⟩ ?_
  · rw [Function.comp_apply, (hsame hg₃ _).1, Function.comp_apply, hadds.students, (hsame hg₁ _).1]
  · rw [Function.comp_apply, (hsame hg₃ _).2, Function.comp_apply, hadds.applications, (hsame hg₁ _).2]
  · exact hr₁.trans ((hr₂.anti hS₁).trans (hr₃.anti (hS₁.trans hS₂)))

theorem wp_create {input : CreateStudentValues} {grants : List Grant}
    {K : Student → Set Lock → (Db → Db) → Db → Prop}
    (hK : ∀ S' g d' row guardians, S ⊆ S' → Adds g row → row.person = input.person → q.view.Rely S d d' →
      (input.confirmNotDuplicate = false → ∃ d₁, q.view.Rely S d d₁ ∧ q.view.Rely S d₁ d' ∧
        ∀ s ∈ (f d₁).students, sameContact env input.person s.person = false) →
      K ⟨row, guardians⟩ S' (g ∘ f) d') :
    q.view.wp K Anyway (StudentsService.create env input grants) S f d := by
  simp only [StudentsService.create, assertScope, wp_bind, wp_require, implies_true, and_true]
  intro _
  refine wp_of_silent (keeps_isActiveBranch _) trivial fun active S₁ d₁ hS₁ hr₁ _ => ?_
  rw [wp_require]
  refine ⟨fun _ => ?_, fun _ => trivial⟩
  refine wp_of_silent (keeps_assertActiveCode _ _) trivial fun _ S₂ d₂ hS₂ hr₂ _ => ?_
  refine wp_of_silent (keeps_validateValues _ _ _) trivial fun customFields S₃ d₃ hS₃ hr₃ _ => ?_
  have hS : S ⊆ S₃ := hS₁.trans (hS₂.trans hS₃)
  have hr : q.view.Rely S d d₃ := hr₁.trans ((hr₂.anti hS₁).trans (hr₃.anti (hS₁.trans hS₂)))
  have hregister := fun d₄ (hr₄ : q.view.Rely S₃ d₃ d₄)
      (hfound : input.confirmNotDuplicate = false → ∀ s ∈ (f d₄).students,
        sameContact env input.person s.person = false) =>
    wp_register (q := q) (S := S₃) (f := f) (d := d₄) (K := K) env
      (StudentsService.newStudent env input customFields) input.guardians
      fun S' g d' number guardians hS' hadds hr' =>
        hK S' g d' _ guardians (hS.trans hS') hadds rfl (hr.trans ((hr₄.trans hr').anti hS)) fun hconfirm =>
          ⟨d₄, hr.trans (hr₄.anti hS), hr'.anti hS, hfound hconfirm⟩
  simp only [wp_bind] at hregister
  rw [wp_when]
  refine ⟨fun hask => ?_, fun hask => ?_⟩
  · rw [wp_bind]
    refine wp_find fun d₄ candidates hr₄ hfound => ?_
    rw [wp_require]
    exact ⟨fun hempty => hregister d₄ hr₄ fun _ => hfound (by simpa using hempty), fun _ => trivial⟩
  · refine hregister d₃ .refl fun hconfirm => ?_
    simp [hconfirm] at hask

end Create

/-! ## The requests -/

section Requests

variable {q : Call} {S : Set Lock} {f : Db → Db} {d : Db}

/-- Students that were created have contacts of their own. -/
def Call.fresh (q : Call) (_ : Reply) (d d' : Db) : Prop :=
  q.confirmed = false → ∃ made, d'.students = d.students ++ made ∧ ∀ s ∈ made, q.IsNew s.person d

/-- What is pending adds persons of the request, who are new. -/
structure Pending (q : Call) (f : Db → Db) (d : Db) (made : List StudentRow) : Prop where
  students : ∀ x, (f x).students = x.students ++ made
  applicants : ∀ x, (f x).applications.map applicantOf = x.applications.map applicantOf
  persons : ∀ s ∈ made, s.person ∈ q.persons d
  isNew : q.confirmed = false → ∀ s ∈ made, q.IsNew s.person d

theorem Pending.start : Pending q id d [] where
  students x := (List.append_nil _).symm
  applicants _ := rfl
  persons s hs := by simp at hs
  isNew _ s hs := by simp at hs

theorem Pending.later {d' : Db} {made : List StudentRow} (hlock : ∀ l, q.lock = some l → l ∈ S)
    (hr : q.view.Rely S d d') (h : Pending q f d made) : Pending q f d' made where
  students := h.students
  applicants := h.applicants
  persons s hs := rely_persons hr ▸ h.persons s hs
  isNew hnot s hs := isNew_stays hnot hlock (h.persons s hs) hr (h.isNew hnot s hs)

theorem Pending.add {g : Db → Db} {row : StudentRow} {made : List StudentRow} (h : Pending q f d made)
    (hadds : Adds g row) (hperson : row.person ∈ q.persons d) (hnew : q.confirmed = false → q.IsNew row.person d) :
    Pending q (g ∘ f) d (made ++ [row]) where
  students x := by rw [Function.comp_apply, hadds.students, h.students, List.append_assoc]
  applicants x := by rw [Function.comp_apply, hadds.applications, h.applicants]
  persons s hs := by
    rcases List.mem_append.1 hs with hs | hs
    · exact h.persons s hs
    · rw [List.mem_singleton.1 hs]
      exact hperson
  isNew hnot s hs := by
    rcases List.mem_append.1 hs with hs | hs
    · exact h.isNew hnot s hs
    · rw [List.mem_singleton.1 hs]
      exact hnew hnot

theorem Pending.done {made : List StudentRow} {a : Reply} (hlock : ∀ l, q.lock = some l → l ∈ S)
    (h : Pending q f d made) : q.view.Done q.fresh a S f d := by
  intro d' hr _
  have hlate := h.later hlock hr
  refine ⟨⟨⟨made, hlate.students d', hlate.persons, fun _ => hlock⟩, hlate.applicants d'⟩, trivial, fun hnot => ?_⟩
  exact ⟨made, hlate.students d', hlate.isNew hnot⟩

/-- One more student, who is known to be new or is looked for. -/
theorem wp_create_pending {env : Admissions.Env} {input : CreateStudentValues} {grants : List Grant}
    {made : List StudentRow} {K : Student → Set Lock → (Db → Db) → Db → Prop}
    (hlock : ∀ l, q.lock = some l → l ∈ S) (hpending : Pending q f d made) (hperson : input.person ∈ q.persons d)
    (hlower : env.lower = q.env.lower)
    (hnew : q.confirmed = false → q.IsNew input.person d ∨ input.confirmNotDuplicate = false)
    (hK : ∀ S' g d' row guardians, S ⊆ S' → q.view.Rely S d d' → Pending q (g ∘ f) d' (made ++ [row]) →
      K ⟨row, guardians⟩ S' (g ∘ f) d') :
    q.view.wp K Anyway (StudentsService.create env input grants) S f d := by
  refine wp_create fun S' g d' row guardians hS hadds hrow hr hfound => hK S' g d' row guardians hS hr ?_
  refine (hpending.later hlock hr).add hadds (hrow ▸ rely_persons hr ▸ hperson) fun hnot => ?_
  rw [hrow]
  rcases hnew hnot with hknown | hasked
  · exact isNew_stays hnot hlock hperson hr hknown
  · obtain ⟨d₁, hr₁, hr₁', hnone⟩ := hfound hasked
    refine isNew_stays hnot hlock (rely_persons hr₁ ▸ hperson) hr₁' fun s hs => ?_
    have hsame : ∀ p, sameContact q.env input.person p = sameContact env input.person p := fun p => by
      rw [sameContact, sameContact, hlower]
    rw [hsame]
    refine hnone s ?_
    rw [hpending.students]
    exact List.mem_append_left _ hs

theorem create_fresh (env : Admissions.Env) (input : CreateStudentValues) (grants : List Grant) :
    (Call.create env input grants).view.wp ((Call.create env input grants).view.Done
      (Call.create env input grants).fresh) Anyway (Call.create env input grants).code ∅ id d := by
  have hlock : ∀ l, (Call.create env input grants).lock = some l → l ∈ (∅ : Set Lock) := fun l hl => by cases hl
  rw [Call.code, wp_map]
  refine wp_create_pending hlock .start (by simp [Call.persons]) rfl (fun hnot => .inr hnot)
    fun S' g d' row guardians hS hr hpending => hpending.done fun l hl => hS (hlock l hl)

theorem convert_fresh (env : Admissions.Env) (i : Uuid) (input : ConvertValues) (expectedVersion : ℕ)
    (grants : List Grant) :
    (Call.convert env i input expectedVersion grants).view.wp
      ((Call.convert env i input expectedVersion grants).view.Done
        (Call.convert env i input expectedVersion grants).fresh) Anyway
      (Call.convert env i input expectedVersion grants).code ∅ id d := by
  set q : Call := .convert env i input expectedVersion grants with hq
  rw [hq, Call.code, wp_map, ← hq]
  simp only [ApplicationsService.convert, ApplicationsService.rowForUpdate, ApplicationsService.row, assertScope,
    wp_bind, wp_acquire, wp_get, wp_expect, wp_require, implies_true, and_true]
  intro d₁ hr₁ _ d₂ hr₂ _ before hbefore _ _ _
  set S₁ : Set Lock := insert (.application i) ∅ with hS₁
  have hlock : ∀ l, q.lock = some l → l ∈ S₁ := by
    rintro _ ⟨rfl⟩
    exact Set.mem_insert _ _
  have htail : ∀ {S' : Set Lock} {f : Db → Db} {d' : Db} {made : List StudentRow} (studentId : Uuid), S₁ ⊆ S' →
      Pending q f d' made → q.view.wp (fun a => q.view.Done q.fresh (.converted a)) Anyway (do
        let result ← updateWithVersion applicationsTable i expectedVersion
          (ApplicationsService.confirmedRow studentId)
        let row ← versionedRow result admissionsErrors.notFound
        let student ← StudentsService.get studentId grants
        return ({ application := toApplication row, student := student } : ConvertResponse)) S' f d' := by
    intro S' f d' made studentId hS hpending
    have hlock' : ∀ l, q.lock = some l → l ∈ S' := fun l hl => hS (hlock l hl)
    rw [wp_bind]
    simp only [wp_bind]
    refine wp_versioned applicationsTable fun d₃ d₄ row hr₃ _ _ hr₄ _ _ => ?_
    have hsub : S' ⊆ insert (applicationsTable.rowLock i) S' := Set.subset_insert _ _
    have hlate := hpending.later hlock' (hr₃.trans (hr₄.anti hsub))
    have hbump : ∀ x : Db, (applicationsTable.bump i (ApplicationsService.confirmedRow studentId) x).applications.map
        applicantOf = x.applications.map applicantOf := fun x => map_changeWhere fun _ => rfl
    have hbumped : Pending q (applicationsTable.bump i (ApplicationsService.confirmedRow studentId) ∘ f) d₄ made :=
      ⟨hlate.students, fun x => (hbump (f x)).trans (hlate.applicants x), hlate.persons, hlate.isNew⟩
    refine wp_of_silent (keeps_getStudent _ _) trivial fun student S₅ d₅ hS₅ hr₅ _ => ?_
    have hheld : ∀ l, q.lock = some l → l ∈ insert (applicationsTable.rowLock i) S' := fun l hl =>
      hsub (hlock' l hl)
    exact (hbumped.later hheld hr₅).done fun l hl => hS₅ (hheld l hl)
  simp only [wp_bind] at htail
  rw [ApplicationsService.studentFor]
  cases hexisting : input.existingStudentId with
  | some existing =>
      rw [wp_map]
      refine wp_of_silent (keeps_studentRow _) trivial fun row S₂ d₃ hS₂ _ _ => ?_
      exact htail row.id hS₂ .start
  | none =>
      rw [wp_map]
      have hperson : before.person ∈ q.persons d₂ := by
        have hid : before.id = i := by simpa [applicationsTable] using List.find?_some hbefore
        have hrow : before ∈ d₂.applications := List.mem_of_find?_eq_some hbefore
        simp only [q, Call.persons, hexisting, Option.isSome_none, Bool.false_eq_true, if_false, List.mem_map,
          List.mem_filter]
        exact ⟨applicantOf before, ⟨⟨before, hrow, rfl⟩, by simp [applicantOf, hid]⟩, rfl⟩
      refine wp_create_pending hlock .start hperson rfl (fun hnot => .inr hnot)
        fun S' g d' row guardians hS hr hpending => htail row.id hS hpending

/-- The student that is validated passed the schema, and is not confirmed. -/
theorem person_of_validate {env : ImportEnv} {map : HeaderMap} {cells : List Str} {branches : List (Str × Uuid)}
    {categories : List String} {grants : List Grant} {student : CreateStudentValues}
    (h : (StudentImportService.validate env map cells branches categories grants).student = some student) :
    personFieldsSchema env.toEnv env.classes (cellOf map cells) = .ok student.person := by
  unfold StudentImportService.validate at h
  dsimp only at h
  split at h
  · rename_i hperson _ _
    obtain rfl := Option.some.inj h
    exact hperson
  · cases h

theorem row_pending {env : ImportEnv} {input : StudentImportValues} {grants : List Grant}
    {lists : StudentImportService.Lists} {row : CsvRow × ℕ} {tally : Tally} {made : List StudentRow}
    (hq : q = .importStudents env input grants) (hlock : .studentImport ∈ S)
    (hrow : ∀ student, (StudentImportService.validate env lists.map row.1.cells lists.branchByKey lists.categories
      grants).student = some student → student.person ∈ q.persons d)
    (hpending : Pending q f d made) {K : Tally → Set Lock → (Db → Db) → Db → Prop}
    (hK : ∀ tally S' f' d' made', S ⊆ S' → q.view.Rely S d d' → Pending q f' d' made' → K tally S' f' d') :
    q.view.wp K Anyway (StudentImportService.runRow env input grants lists row tally) S f d := by
  have hlock' : ∀ l, q.lock = some l → l ∈ S := by
    subst hq
    rintro _ ⟨rfl⟩
    exact hlock
  rw [StudentImportService.runRow]
  split
  · rename_i student _ hstudent
    rw [wp_bind]
    refine wp_find fun d₁ candidates hr₁ hfound => ?_
    rw [wp_ite]
    refine ⟨fun _ => hK _ S f d₁ made subset_rfl hr₁ (hpending.later hlock' hr₁), fun hcreate => ?_⟩
    rw [wp_bind]
    have hperson : student.person ∈ q.persons d₁ := rely_persons hr₁ ▸ hrow student hstudent
    refine wp_create_pending hlock' (hpending.later hlock' hr₁) hperson ?_ (fun hnot => .inl ?_)
      fun S' g d' made' guardians hS hr hpending' => hK _ S' _ d' _ hS (hr₁.trans hr) hpending'
    · subst hq
      rfl
    · subst hq
      have hskip : input.onDuplicate = .skip := by
        have hne : input.onDuplicate ≠ .importAnyway := by simpa [Call.confirmed] using hnot
        cases honDuplicate : input.onDuplicate with
        | skip => rfl
        | importAnyway => exact (hne honDuplicate).elim
      have hnil : candidates = [] := by
        by_contra hne
        exact hcreate ⟨hne, hskip⟩
      intro s hs
      refine hfound hnil s ?_
      rw [hpending.students]
      exact List.mem_append_left _ hs
  · exact hK _ S f d made subset_rfl .refl hpending

/-- Each row sees the ones before it, and what it adds is pending with theirs. -/
theorem rows_pending {env : ImportEnv} {input : StudentImportValues} {grants : List Grant}
    {lists : StudentImportService.Lists} {K : Tally → Set Lock → (Db → Db) → Db → Prop}
    (hq : q = .importStudents env input grants) (rows : List (CsvRow × ℕ)) (tally : Tally)
    (hlock : .studentImport ∈ S)
    (hrows : ∀ row ∈ rows, ∀ student, (StudentImportService.validate env lists.map row.1.cells lists.branchByKey
      lists.categories grants).student = some student → student.person ∈ q.persons d)
    {made : List StudentRow} (hpending : Pending q f d made)
    (hK : ∀ tally S' f' d' made', S ⊆ S' → Pending q f' d' made' → K tally S' f' d') :
    q.view.wp K Anyway (StudentImportService.runRows env input grants lists rows tally) S f d := by
  induction rows generalizing S f d made tally with
  | nil => exact hK tally S f d made subset_rfl hpending
  | cons row rows ih =>
      rw [StudentImportService.runRows, wp_bind]
      refine row_pending hq hlock (hrows row List.mem_cons_self) hpending
        fun tally' S' f' d' made' hS hr hpending' => ?_
      refine ih tally' (hS hlock) (fun row' hrow' student hstudent => ?_) hpending'
        fun tally'' S'' f'' d'' made'' hS' => hK tally'' S'' f'' d'' made'' (hS.trans hS')
      exact rely_persons hr ▸ hrows row' (List.mem_cons_of_mem _ hrow') student hstudent

theorem keeps_customFieldsBlock (env : ImportEnv) :
    (StudentImportService.customFieldsBlock env).Keeps (id : Db → Db) :=
  .catching (fun _ => .pure _) (.map _ (keeps_validateValues _ _ _))

theorem import_fresh (env : ImportEnv) (input : StudentImportValues) (grants : List Grant) :
    (Call.importStudents env input grants).view.wp ((Call.importStudents env input grants).view.Done
      (Call.importStudents env input grants).fresh) Anyway (Call.importStudents env input grants).code ∅ id d := by
  set q : Call := .importStudents env input grants with hq
  rw [hq, Call.code, wp_map, ← hq]
  simp only [StudentImportService.commit, StudentImportService.run, wp_bind, wp_ofExcept, wp_acquire, wp_get,
    implies_true, and_true]
  intro parsed hparsed d₁ hr₁ _ d₂ hr₂ _ d₃ hr₃ _
  refine wp_of_silent (keeps_customFieldsBlock env) trivial fun block S₄ d₄ hS₄ hr₄ _ => ?_
  have hlock : Lock.studentImport ∈ S₄ := hS₄ (Set.mem_insert _ _)
  refine rows_pending rfl parsed.rows.zipIdx {} hlock (fun row hrow student hstudent => ?_) .start
    fun tally S' f' d' made hS hpending => hpending.done fun l hl => ?_
  · have hmem : row.1 ∈ parsed.rows := by
      rw [List.mem_zipIdx_iff_getElem?] at hrow
      exact List.mem_of_getElem? hrow
    have hperson := person_of_validate hstudent
    simp only [Call.persons, filePersons, hparsed, List.mem_filterMap]
    exact ⟨row.1, hmem, by rw [hperson]; rfl⟩
  · obtain rfl : Lock.studentImport = l := Option.some.inj hl
    exact hS hlock

theorem code_fresh (q : Call) (d : Db) : q.view.wp (q.view.Done q.fresh) Anyway q.code ∅ id d := by
  cases q with
  | create env input grants => exact create_fresh env input grants
  | convert env i input expectedVersion grants => exact convert_fresh env i input expectedVersion grants
  | importStudents env input grants => exact import_fresh env input grants

theorem keeps_create (env : Admissions.Env) (input : CreateStudentValues) (grants : List Grant) :
    (StudentsService.create env input grants).Keeps fun _ : Db => () :=
  .bind (keeps_assertScope _ _ _) fun _ => .bind (keeps_isActiveBranch _) fun _ => .bind (.require _ _) fun _ =>
    .bind (keeps_assertActiveCode _ _) fun _ => .bind (keeps_validateValues _ _ _) fun _ =>
      .bind (.when _ (.bind (keeps_find _ _) fun _ => .require _ _)) fun _ =>
        .bind ((keeps_nextNumber _ _ _).comp fun _ => ()) fun _ =>
          .bind (.bind (.acquire _) fun _ => .bind .get fun _ => .bind (.require _ _) fun _ =>
            .bind (.acquire _) fun _ => .bind .get fun _ => .bind (.require _ _) fun _ => .modify fun _ => rfl) fun _ =>
              .bind ((keeps_insertGuardians _ _ _).comp fun _ => ()) fun _ => .pure _

theorem keeps_convert (env : Admissions.Env) (i : Uuid) (input : ConvertValues) (expectedVersion : ℕ)
    (grants : List Grant) :
    (ApplicationsService.convert env i input expectedVersion grants).Keeps fun _ : Db => () := by
  refine .bind (.bind (.acquire _) fun _ => .bind .get fun _ => .expect _ _) fun before =>
    .bind (keeps_assertScope _ _ _) fun _ => .bind (.require _ _) fun _ => .bind (.require _ _) fun _ =>
      .bind ?_ fun studentId => ?_
  · unfold ApplicationsService.studentFor
    split
    · exact .map _ (keeps_studentRow _)
    · exact .map _ (keeps_create _ _ _)
  · rw [← bind_assoc]
    exact .bind (keeps_versioned applicationsTable fun _ => rfl) fun _ =>
      .bind (keeps_getStudent _ _) fun _ => .pure _

theorem keeps_runRows (env : ImportEnv) (input : StudentImportValues) (grants : List Grant)
    (lists : StudentImportService.Lists) (rows : List (CsvRow × ℕ)) (tally : Tally) :
    (StudentImportService.runRows env input grants lists rows tally).Keeps fun _ : Db => () := by
  induction rows generalizing tally with
  | nil => exact .pure _
  | cons row rows ih =>
      refine .bind ?_ fun tally' => ih tally'
      unfold StudentImportService.runRow
      dsimp only
      split
      · exact .bind (keeps_find _ _) fun _ => .ite (.pure _) (.bind (keeps_create _ _ _) fun _ => .pure _)
      · exact .pure _

theorem code_keeps (q : Call) : q.code.Keeps fun _ : Db => () := by
  cases q with
  | create => exact .map _ (keeps_create _ _ _)
  | convert => exact .map _ (keeps_convert _ _ _ _ _)
  | importStudents env input grants =>
      exact .map _ (.bind (.ofExcept _) fun _ => .bind (.acquire _) fun _ => .bind .get fun _ => .bind .get fun _ =>
        .bind ((keeps_customFieldsBlock env).comp fun _ => ()) fun _ =>
          .bind (keeps_runRows _ _ _ _ _ _) fun _ => .pure _)

end Requests

/-! ## Runs -/

/-- Where no registration commits while another one of the same phone or e-mail is under
way, unless a lock taken before the search keeps them apart: students that were created
share neither phone nor e-mail with anybody registered before, unless somebody confirmed it. -/
theorem registered_once {ι : Type} [DecidableEq ι] {start w w' : World ι Call Db Lock Error Reply}
    {lab : Label ι Call Error Reply} (hidle : start.Idle)
    (hw : Guarded Call.code Call.clear (fun _ _ _ => True) start w) (hstep : Step Call.code w lab w') :
    w'.db = w.db ∨ ∃ i q a, lab = .answers i q (.ok a) ∧ (q.confirmed = false →
      ∃ made, w'.db.students = w.db.students ++ made ∧
        ∀ s ∈ made, ∀ t ∈ w.db.students, sameContact q.env s.person t.person = false) := by
  have hcode : ∀ (q : Call) d, True → Safe Call.view (fun _ _ _ => True) Call.fresh (fun _ _ _ => True) q
      ⟨q.code, ∅, id⟩ d := by
    exact fun q d _ => wp_mono (X := Anyway) (fun _ _ _ _ hdone d' hr hi _ => hdone d' hr hi)
      (fun _ _ _ _ _ _ _ => trivial) (code_fresh q d)
  have hsound : SoundAmong (fun _ => True) Call.view (fun _ _ _ => True) Call.fresh (fun _ _ _ => True) w :=
    (SoundAmong.of_idle hidle trivial).guarded agree hcode hw
  have hwhole : ∀ q : Call, q.code.Whole (id : Db → Db) := fun q => (code_keeps q).whole
  rcases (hstep.oneTransaction _ hwhole
    (Reachable.oneTransaction _ hwhole hidle hw.permitted.reachable)).2 with hsame | ⟨i, q, a, rfl⟩
  · exact .inl hsame
  · exact .inr ⟨i, q, a, rfl, hsound.answer agree (fun _ _ => trivial) hstep⟩

/-! ## Two front desks -/

def campus : Db where
  numbering :=
    { institution := some ⟨"Africa/Addis_Ababa", ⟨7, 8⟩⟩
      branches := [⟨1, Numbering.AB, "Bole", true⟩] }

def abel : Person := { givenName := "Abel", fatherName := "Bekele", gender := .male, phone := "+251911223344" }

def registers (id : Uuid) : Call :=
  .create { newStudentId := id } { person := abel, branchId := 1 } [⟨.studentsManage, .global⟩]

abbrev Desks := Duo Call Db Lock Error Reply

def desks : Desks := Duo.idle campus

/-- One desk registers the person, up to its answer. -/
def calm : List (Move Call) := [.begins true (registers 7), .turns true 14]

def registered : Desks := desks.play Call.code calm

theorem registered_once_alone : ∃ made, (registered.turn true).db.students = registered.db.students ++ made ∧
    ∀ s ∈ made, ∀ t ∈ registered.db.students, sameContact (registers 7).env s.person t.person = false := by
  have hscript : ∀ m ∈ calm, m.client = true := by simp [calm, Move.client]
  have hrun : Guarded Call.code Call.clear (fun _ _ _ => True) desks.world registered.world :=
    (Duo.play_guarded Call.code calm hscript fun _ _ => rfl).1
  have hanswers : Step Call.code registered.world (.answers true (registers 7) (.ok _)) (registered.turn true).world :=
    Duo.turn_ret Call.code (S := _) (f := _) rfl
  rcases registered_once (fun _ => rfl) hrun hanswers with hsame | ⟨i, q, a, hlab, hmade⟩
  · have hlength : (registered.turn true).world.db.students.length = registered.world.db.students.length := by
      rw [hsame]
    have hdiffers : (registered.turn true).world.db.students.length ≠ registered.world.db.students.length := by
      decide +kernel
    exact (hdiffers hlength).elim
  · cases hlab
    exact hmade rfl

/-- Both desks look for the person, and register them one after the other, up to the
second one's answer. -/
def race : Desks := desks.play Call.code
  [.begins true (registers 7), .turns true 3, .begins false (registers 8), .turns false 15, .turns true 11]

/-- The second registration is not refused, though the person is a student by then. -/
theorem registered_twice : Reachable Call.code desks.world race.world ∧
    (∃ a, Step Call.code race.world (.answers true (registers 7) (.ok a)) (race.turn true).world) ∧
    (registers 7).confirmed = false ∧ (registers 8).confirmed = false ∧
    race.db.students.map (fun s => (s.id, s.person.phone)) = [(8, "+251911223344")] ∧
    (race.turn true).db.students.map (fun s => (s.id, s.person.phone)) =
      [(8, "+251911223344"), (7, "+251911223344")] := by
  refine ⟨Duo.play_reachable Call.code desks _, ⟨_, Duo.turn_ret Call.code (S := _) (f := _) rfl⟩, rfl, rfl, ?_, ?_⟩
  · decide +kernel
  · decide +kernel

end Emis.Imports
