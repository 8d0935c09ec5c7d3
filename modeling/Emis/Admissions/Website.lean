import Emis.Admissions.Frames
import Emis.Admissions.Phone
import Emis.Library.Evidence
import Emis.Library.Rules
import Emis.Library.Script

/-!
# Requests from the website do not pile up

Any number of submissions, side by side with staff who move applications along the
pipeline. `hashtext` names the lock of a phone number, and may name two alike.
-/

namespace Emis.Admissions.Website

open Transactions Protocol ApplicationsService

/-- A submission with its phone number as typed, or a staff transaction, of which
only the change it commits matters here. -/
inductive Call where
  | submit (env : Env) (input : PreRegistrationValues) (typed : String)
  | staff (change : Db → Db)

inductive Reply where
  | submitted (reference : Option Str)
  | done

/-- `InvalidRequestException`. -/
def invalidRequest : Error :=
  .http <| badRequest "VALIDATION_FAILED" "The request contains invalid fields."

def submission (hashtext : String → ℤ) (env : Env) (input : PreRegistrationValues) (typed : String) :
    Tx (Option Str) := do
  let phone ← Prog.expect (phoneSchema typed) invalidRequest
  submitFromWebsite { env with hashtext := hashtext } { input with phone := phone }

def Call.code (hashtext : String → ℤ) : Call → Tx Reply
  | .submit env input typed => Reply.submitted <$> submission hashtext env input typed
  | .staff change => (fun _ => Reply.done) <$> Prog.modify change

/-- A staff transaction keeps who applied for what, and the status takes an edge of
the pipeline or stays. -/
structure Follows (a a' : ApplicationRow) : Prop where
  id : a'.id = a.id
  phone : a'.person.phone = a.person.phone
  course : a'.desiredCourseId = a.desiredCourseId
  status : a'.status = a.status ∨ canTransition a.status a'.status = true

/-- What staff commit follows the pipeline. -/
def Call.follows : Call → Set Lock → Db → Prop
  | .submit .., _, _ => True
  | .staff change, _, d => List.Forall₂ Follows d.applications (change d).applications

/-- `web` says which applications the website created. -/
structure Inv (web : Uuid → Prop) (d : Db) : Prop where
  ids : (d.applications.map ApplicationRow.id).Nodup
  normal : ∀ a ∈ d.applications, web a.id → phoneSchema a.person.phone = some a.person.phone
  single : ∀ a ∈ d.applications, ∀ b ∈ d.applications, web a.id → web b.id →
    isClosed a.status = false → isClosed b.status = false → a.person.phone = b.person.phone →
    ∀ course, a.desiredCourseId = some course → b.desiredCourseId = some course → a = b

/-- Rows follow the pipeline, and new ones come under the lock of their phone number. -/
def Guar (hashtext : String → ℤ) (S : Set Lock) (d d' : Db) : Prop :=
  ∃ olds news, d'.applications = olds ++ news ∧ List.Forall₂ Follows d.applications olds ∧
    ∀ a ∈ news, .preRegistration (hashtext a.person.phone) ∈ S ∧ .application a.id ∈ S

def websiteProtocol (hashtext : String → ℤ) (web : Uuid → Prop) : Protocol Db Lock where
  Inv := Inv web
  Guar := Guar hashtext

/-! ## What a submission relies on -/

theorem Follows.refl (a : ApplicationRow) : Follows a a := ⟨rfl, rfl, rfl, .inl rfl⟩

/-- Nothing reopens. -/
theorem Follows.opened {a a' : ApplicationRow} (h : Follows a a') (hopen : isClosed a'.status = false) :
    isClosed a.status = false := by
  rcases h.status with hsame | hedge
  · rwa [← hsame]
  · revert hedge
    cases a.status <;> simp [canTransition, APPLICATION_TRANSITIONS, isClosed, CLOSED_STATUSES]

theorem openApplication_none {d : Db} {phone : String} {course : Uuid} :
    Db.openApplication d phone course = none ↔ ∀ a ∈ d.applications, a.person.phone = phone →
      a.desiredCourseId = some course → isClosed a.status = true := by
  simp only [Db.openApplication, List.find?_eq_none, Bool.and_eq_true, beq_iff_eq, Bool.not_eq_true',
    not_and, Bool.not_eq_false]
  exact ⟨fun h a ha hphone hcourse => h a ha ⟨hphone, hcourse⟩,
    fun h a ha hboth => h a ha hboth.1 hboth.2⟩

section Rely

variable {hashtext : String → ℤ} {web : Uuid → Prop} {S : Set Lock} {d d' : Db}

/-- Under the lock of its phone number nobody else applies with it. -/
theorem none_opens {phone : String} {course : Uuid} (hlock : .preRegistration (hashtext phone) ∈ S)
    (h : (websiteProtocol hashtext web).Rely S d d') (hnone : Db.openApplication d phone course = none) :
    Db.openApplication d' phone course = none := by
  refine h.stable (φ := fun d => Db.openApplication d phone course = none) ?_ hnone
  rintro d₁ d₂ ⟨-, T, hdisj, olds, news, hrows, hfollows, hnews⟩ hnone
  rw [openApplication_none] at hnone ⊢
  intro a' ha' hphone hcourse
  rw [hrows, List.mem_append] at ha'
  rcases ha' with ha' | ha'
  · obtain ⟨a, ha, hstep⟩ := rowwise_exists hfollows.flip ha'
    have hclosed := hnone a ha (hstep.phone.symm.trans hphone) (hstep.course.symm.trans hcourse)
    by_contra hopen
    simp [hstep.opened (Bool.not_eq_true _ ▸ hopen)] at hclosed
  · have hheld := (hnews a' ha').1
    rw [hphone] at hheld
    exact (Set.disjoint_left.1 hdisj hlock hheld).elim

theorem stays_fresh {id : Uuid} (hlock : .application id ∈ S)
    (h : (websiteProtocol hashtext web).Rely S d d') (hfresh : ∀ a ∈ d.applications, a.id ≠ id) :
    ∀ a ∈ d'.applications, a.id ≠ id := by
  refine h.stable (φ := fun d => ∀ a ∈ d.applications, a.id ≠ id) ?_ hfresh
  rintro d₁ d₂ ⟨-, T, hdisj, olds, news, hrows, hfollows, hnews⟩ hfresh a' ha'
  rw [hrows, List.mem_append] at ha'
  rcases ha' with ha' | ha'
  · obtain ⟨a, ha, hstep⟩ := rowwise_exists hfollows.flip ha'
    exact hstep.id ▸ hfresh a ha
  · rintro rfl
    exact Set.disjoint_left.1 hdisj hlock (hnews a' ha').2

/-! ## Changes within the guarantee -/

theorem inv_of_follows (hd : Inv web d) (hrows : List.Forall₂ Follows d.applications d'.applications) :
    Guar hashtext S d d' ∧ Inv web d' := by
  refine ⟨⟨d'.applications, [], by simp, hrows, by simp⟩, ?_, ?_, ?_⟩
  · rw [rowwise_map (fun _ _ hstep => hstep.id) hrows]
    exact hd.ids
  · intro a' ha' hweb
    obtain ⟨a, ha, hstep⟩ := rowwise_exists hrows.flip ha'
    rw [hstep.phone]
    exact hd.normal a ha (hstep.id ▸ hweb)
  · intro a' ha' b' hb' hwa hwb hoa hob hphone course hca hcb
    obtain ⟨a, ha, hsa⟩ := rowwise_exists hrows.flip ha'
    obtain ⟨b, hb, hsb⟩ := rowwise_exists hrows.flip hb'
    have hab : a = b := by
      refine hd.single a ha b hb (hsa.id ▸ hwa) (hsb.id ▸ hwb) (hsa.opened hoa) (hsb.opened hob) ?_
        course (hsa.course.symm.trans hca) (hsb.course.symm.trans hcb)
      rw [← hsa.phone, ← hsb.phone, hphone]
    have hids : (d'.applications.map ApplicationRow.id).Nodup := by
      rw [rowwise_map (fun _ _ hstep => hstep.id) hrows]
      exact hd.ids
    exact eq_of_key_eq hids ha' hb' (by rw [hsa.id, hsb.id, hab])

theorem inv_of_submission {row : ApplicationRow} {course : Uuid} (hd : Inv web d)
    (hrows : d'.applications = d.applications ++ [row])
    (hnormal : phoneSchema row.person.phone = some row.person.phone)
    (hcourse : row.desiredCourseId = some course)
    (hnone : Db.openApplication d row.person.phone course = none)
    (hfresh : ∀ a ∈ d.applications, a.id ≠ row.id)
    (hlock : .preRegistration (hashtext row.person.phone) ∈ S) (hid : .application row.id ∈ S) :
    Guar hashtext S d d' ∧ Inv web d' := by
  have hfollows : List.Forall₂ Follows d.applications d.applications :=
    List.forall₂_same.2 fun a _ => .refl a
  refine ⟨⟨d.applications, [row], hrows, hfollows, by simp [hlock, hid]⟩, ?_, ?_, ?_⟩
  · rw [hrows]
    exact nodup_snoc hd.ids hfresh
  · intro a ha hweb
    rw [hrows, List.mem_append, List.mem_singleton] at ha
    rcases ha with ha | rfl
    · exact hd.normal a ha hweb
    · exact hnormal
  · -- An old application of the same phone and course is closed.
    have hclosed : ∀ a ∈ d.applications, isClosed a.status = false →
        a.person.phone = row.person.phone → a.desiredCourseId ≠ some course := by
      intro a ha hopen hphone hsame
      simp [openApplication_none.1 hnone a ha hphone hsame] at hopen
    intro a ha b hb hwa hwb hoa hob hphone c hca hcb
    rw [hrows, List.mem_append, List.mem_singleton] at ha hb
    rcases ha with ha | rfl <;> rcases hb with hb | rfl
    · exact hd.single a ha b hb hwa hwb hoa hob hphone c hca hcb
    · obtain rfl : course = c := Option.some.inj (hcourse.symm.trans hcb)
      exact (hclosed a ha hoa hphone hca).elim
    · obtain rfl : course = c := Option.some.inj (hcourse.symm.trans hca)
      exact (hclosed b hb hob hphone.symm hcb).elim
    · rfl

end Rely

/-! ## A submission among others -/

/-- What a submission has done when it is answered. -/
inductive Served (phone : String) (course : Uuid) (d d' : Db) : Option Str → Prop
  | again : d'.applications = d.applications → Served phone course d d' none
  | created (row : ApplicationRow) : d'.applications = d.applications ++ [row] →
      row.person.phone = phone → row.desiredCourseId = some course → isClosed row.status = false →
      Db.openApplication d phone course = none → Served phone course d d' (some row.reference)

/-- The answer, with the phone number as the schema reads it. -/
def Call.served : Call → Reply → Db → Db → Prop
  | .submit _ input typed, .submitted reference, d, d' =>
      ∃ phone, phoneSchema typed = some phone ∧ Served phone input.desiredCourseId d d' reference
  | .submit .., .done, _, _ => False
  | .staff _, _, _, _ => True

section Submissions

variable {hashtext : String → ℤ} {web : Uuid → Prop} {S : Set Lock} {d : Db} {f : Db → Db}

theorem wp_insertApplication {K : Unit → Set Lock → (Db → Db) → Db → Prop} {row : ApplicationRow}
    (hK : ∀ S' d', S ⊆ S' → .application row.id ∈ S' → (websiteProtocol hashtext web).Rely S d d' →
      Inv web d' → (∀ a ∈ (f d').applications, a.id ≠ row.id) →
      K () S' ((fun d => { d with applications := d.applications ++ [row] }) ∘ f) d') :
    (websiteProtocol hashtext web).wp K Anyway (insertApplication row) S f d := by
  simp only [insertApplication, wp_bind, wp_acquire, wp_get, wp_require, wp_modify, implies_true,
    and_true]
  intro d₁ hr₁ _ d₂ hr₂ _ _ d₃ hr₃ _ d₄ hr₄ hi₄ hfresh
  have hS₁ : S ⊆ insert (.applicationReference row.reference) S := Set.subset_insert _ _
  have hS₂ := hS₁.trans (Set.subset_insert (.application row.id) _)
  refine hK _ d₄ hS₂ (Set.mem_insert _ _) ?_ hi₄ ?_
  · exact hr₁.trans (((hr₂.trans hr₃).anti hS₁).trans (hr₄.anti hS₂))
  · simpa using hfresh

theorem submission_served (env : Env) (input : PreRegistrationValues) (typed : String)
    (hd : Inv web d) :
    (websiteProtocol hashtext web).wp
      (fun reference => (websiteProtocol hashtext web).Done (Call.submit env input typed).served
        (.submitted reference)) Anyway (submission hashtext env input typed) ∅ id d := by
  simp only [submission, wp_bind, wp_expect, implies_true, and_true]
  intro phone hphone
  rw [submitFromWebsite, wp_bind]
  refine wp_of_silent (keeps_isActiveBranch _) hd fun _ S₁ d₁ hS₁ hr₁ hi₁ => ?_
  simp only [wp_bind, wp_require, implies_true, and_true]
  intro _
  refine wp_of_silent (keeps_checkReferences _ _ _) hi₁ fun _ S₂ d₂ hS₂ hr₂ hi₂ => ?_
  simp only [wp_acquire, wp_get, wp_ite]
  intro d₃ _ _ d₄ _ hi₄
  set S₄ : Set Lock := insert (.preRegistration (hashtext phone)) S₂ with hS₄
  have hlock : Lock.preRegistration (hashtext phone) ∈ S₄ := Set.mem_insert _ _
  refine ⟨fun _ d' _ hi' => ?_, fun hsome => ?_⟩
  · obtain ⟨hguar, hinv⟩ : Guar hashtext S₄ d' d' ∧ Inv web d' :=
      inv_of_follows hi' (List.forall₂_same.2 fun a _ => .refl a)
    exact ⟨hguar, hinv, phone, hphone, .again rfl⟩
  · have hnone : Db.openApplication d₄ phone input.desiredCourseId = none := by simpa using hsome
    rw [wp_bind]
    refine wp_of_silent (keeps_isActiveCode _ _) hi₄ fun website S₅ d₅ hS₅ hr₅ hi₅ => ?_
    rw [wp_bind]
    refine wp_of_keeps (keeps_nextNumber _ _ _) hi₅ fun issued S₆ g d₆ hS₆ hg hr₆ hi₆ => ?_
    rw [wp_bind]
    refine wp_insertApplication fun S₇ d₇ hS₇ hid hr₇ hi₇ hfresh d' hr' hi' => ?_
    have hrecords : ∀ s, (g s).applications = s.applications := fun s => (Prod.mk.inj (hg s)).1
    set row := websiteApplication { env with hashtext := hashtext } { input with phone := phone }
      (if website then some "website" else none) issued.number with hrow
    have hr : (websiteProtocol hashtext web).Rely S₄ d₄ d' :=
      hr₅.trans ((hr₆.trans ((hr₇.trans (hr'.anti hS₇)).anti hS₆)).anti hS₅)
    have hnone' : Db.openApplication d' row.person.phone input.desiredCourseId = none :=
      none_opens hlock hr hnone
    have hfresh' : ∀ a ∈ d'.applications, a.id ≠ row.id := by
      refine stays_fresh hid hr' ?_
      simpa only [Function.comp_apply, id_eq, hrecords] using hfresh
    have happend : ((fun d : Db => { d with applications := d.applications ++ [row] }) ∘ g ∘ id) d' =
        { g d' with applications := (g d').applications ++ [row] } := rfl
    have hrows : { g d' with applications := (g d').applications ++ [row] }.applications =
        d'.applications ++ [row] := congrArg (· ++ [row]) (hrecords d')
    have hlock' : Lock.preRegistration (hashtext row.person.phone) ∈ S₇ := hS₇ (hS₆ (hS₅ hlock))
    obtain ⟨hguar, hinv⟩ := inv_of_submission hi' hrows (phoneSchema_idem hphone) rfl hnone' hfresh'
      hlock' hid
    rw [happend]
    exact ⟨hguar, hinv, phone, hphone, .created row hrows rfl rfl rfl hnone'⟩

theorem code_served (call : Call) (d : Db) (hd : Inv web d) :
    (websiteProtocol hashtext web).wp
      ((websiteProtocol hashtext web).DoneIf call.follows call.served)
      ((websiteProtocol hashtext web).Failed fun _ _ => True) (call.code hashtext) ∅ id d := by
  cases call with
  | submit env input typed =>
      rw [Call.code, wp_map]
      refine wp_mono (fun _ _ _ _ hdone d' hr hi _ => hdone d' hr hi)
        (fun _ _ _ _ _ _ _ => trivial) (submission_served env input typed hd)
  | staff change =>
      rw [Call.code, wp_map, wp_modify]
      intro d' _ hi' hfollows
      obtain ⟨hguar, hinv⟩ : Guar hashtext ∅ d' (change d') ∧ Inv web (change d') :=
        inv_of_follows hi' hfollows
      exact ⟨hguar, hinv, trivial⟩

/-- The answer says what the submission found when it looked, under the lock of its
phone number. -/
def Call.looked (hashtext : String → ℤ) : Call → Reply → Set Lock → Set (Set Lock × Db) →
    (Db → Db) → Prop
  | .submit _ input typed, .submitted reference, _, D, _ => ∃ phone, phoneSchema typed = some phone ∧
      ∃ x ∈ D, .preRegistration (hashtext phone) ∈ x.1 ∧
        (reference = none ↔ (Db.openApplication x.2 phone input.desiredCourseId).isSome = true)
  | _, _, _, _, _ => True

theorem keeps_insertApplication (row : ApplicationRow) :
    (insertApplication row).Keeps fun d => d.students :=
  .bind (.acquire _) fun _ => .bind .get fun _ => .bind (.require _ _) fun _ =>
    .bind (.acquire _) fun _ => .bind .get fun _ => .bind (.require _ _) fun _ => .modify fun _ => rfl

theorem code_looked (call : Call) : (call.code hashtext).seeing (call.looked hashtext) ∅ ∅ id := by
  cases call with
  | staff change => exact trivial
  | submit env input typed =>
      rw [Call.code, Prog.seeing_map, submission, Prog.seeing_bind]
      cases hphone : phoneSchema typed with
      | none => trivial
      | some phone =>
          change (submitFromWebsite _ _).seeing _ ∅ ∅ id
          rw [submitFromWebsite, Prog.seeing_bind]
          refine Prog.seeing_of_silent (keeps_isActiveBranch _) fun _ S₁ D₁ _ _ => ?_
          simp only [Prog.seeing_bind, Prog.seeing_require]
          intro _
          refine Prog.seeing_of_silent (keeps_checkReferences _ _ _) fun _ S₂ D₂ _ _ => ?_
          simp only [Prog.seeing_bind, Prog.seeing_acquire, Prog.seeing_get, Prog.seeing_ite]
          intro d
          have hlock : Lock.preRegistration (hashtext phone) ∈
              insert (Lock.preRegistration (hashtext phone)) S₂ := Set.mem_insert _ _
          refine ⟨fun hsome => ?_, fun hnone => ?_⟩
          · exact ⟨phone, hphone, _, Set.mem_insert _ _, hlock, iff_of_true rfl hsome⟩
          · refine Prog.seeing_of_silent (keeps_isActiveCode _ _) fun _ S₃ D₃ _ hD₃ => ?_
            refine Prog.seeing_of_keeps (keeps_nextNumber _ _ _) fun _ S₄ D₄ _ _ hD₄ _ => ?_
            refine Prog.seeing_of_keeps (keeps_insertApplication _) fun _ S₅ D₅ _ _ hD₅ _ => ?_
            exact ⟨phone, hphone, _, hD₅ (hD₄ (hD₃ (Set.mem_insert _ _))), hlock,
              iff_of_false (by simp) hnone⟩

theorem code_whole (call : Call) : (call.code hashtext).Whole (id : Db → Db) := by
  cases call with
  | staff change => exact .map _ (.modify change)
  | submit env input typed =>
      refine .map _ (.bind (Prog.Keeps.whole (.expect (φ := id) _ _)) fun phone => ?_)
      refine .bind (keeps_isActiveBranch (φ := id) _).whole fun _ => .bind (.require _ _) fun _ => ?_
      refine .bind (keeps_checkReferences (φ := id) _ _ _).whole fun _ => .bind (.acquire _) fun _ => ?_
      refine .bind .get fun d => ?_
      split
      · exact (Prog.Keeps.pure (φ := id) _).whole
      · refine .bind (keeps_isActiveCode (φ := id) _ _).whole fun _ => ?_
        refine .bind (keeps_nextNumber _ _ _).whole fun _ => ?_
        exact .bind (keeps_insertApplication _).whole fun _ => (Prog.Keeps.pure (φ := id) _).whole

end Submissions

/-! ## Runs -/

/-- Created by the website before the run, or in it. -/
def fromWebsite (known : Uuid → Prop) (start : Db) (id : Uuid) : Prop :=
  known id ∨ ∀ a ∈ start.applications, a.id ≠ id

/-- At most one open application of the website for a phone number, however it is
spelled, and a course. -/
def AtMostOne (web : Uuid → Prop) (d : Db) : Prop :=
  (d.applications.map ApplicationRow.id).Nodup ∧
    ∀ a ∈ d.applications, ∀ b ∈ d.applications, web a.id → web b.id → isClosed a.status = false →
      isClosed b.status = false → phoneSchema a.person.phone = phoneSchema b.person.phone →
      ∀ course, a.desiredCourseId = some course → b.desiredCourseId = some course → a = b

theorem Inv.atMostOne {web : Uuid → Prop} {d : Db} (hd : Inv web d) : AtMostOne web d := by
  refine ⟨hd.ids, fun a ha b hb hwa hwb hoa hob hphone course hca hcb => ?_⟩
  rw [hd.normal a ha hwa, hd.normal b hb hwb] at hphone
  exact hd.single a ha b hb hwa hwb hoa hob (Option.some.inj hphone) course hca hcb

/-- Submissions and staff who follow the pipeline, in any order: at most one open
application of the website for a phone number and a course at any time, and a
submission creates none exactly if it finds an open one at its turn. -/
theorem website_never_piles_up {ι : Type} [DecidableEq ι] (hashtext : String → ℤ)
    (known : Uuid → Prop) {start w : World ι Call Db Lock Error Reply} (hidle : start.Idle)
    (hstart : Inv (fromWebsite known start.db) start.db)
    (hw : Permitted (Call.code hashtext) Call.follows start w) :
    AtMostOne (fromWebsite known start.db) w.db ∧
      ∀ lab w', Step (Call.code hashtext) w lab w' →
        (lab.answer? = none → w'.db = w.db) ∧
        ∀ i env input typed reply, lab = .answers i (.submit env input typed) (.ok reply) →
          ∃ phone reference turn S, phoneSchema typed = some phone ∧ reply = .submitted reference ∧
            .preRegistration (hashtext phone) ∈ S ∧
            Looked (Call.code hashtext) start w i (.submit env input typed) S turn ∧
            (reference = none ↔ (Db.openApplication turn phone input.desiredCourseId).isSome = true) ∧
            Served phone input.desiredCourseId w.db w'.db reference := by
  set web := fromWebsite known start.db with hweb
  have hsound : (websiteProtocol hashtext web).SoundIf Call.follows Call.served (fun _ _ _ => True) w :=
    (SoundIf.of_idle hidle hstart).permitted (fun call d hd => code_served call d hd) hw
  have hreach := hw.reachable
  refine ⟨hsound.inv.atMostOne, fun lab w' hstep => ⟨fun hquiet => ?_, ?_⟩⟩
  · have hone : Throughout (Prog.Whole (id : Db → Db)) w :=
      Reachable.oneTransaction _ code_whole hidle hreach
    exact hstep.quiet _ code_whole hone hquiet
  · rintro i env input typed reply rfl
    have hlooks : ∀ call : Call, (call.code hashtext).seeing (call.looked hashtext) ∅ ∅ id := code_looked
    obtain ⟨_, D, _, hlooked, -, hD⟩ := answer_traced hlooks hidle hreach hstep
    cases hstep with
    | ret hi =>
        obtain ⟨-, -, hserved⟩ := hsound.ok _ _ _ hi _ .refl hsound.inv trivial
        cases reply with
        | done => exact hserved.elim
        | submitted reference =>
            obtain ⟨phone, hphone, x, hx, hlock, hiff⟩ := hlooked
            obtain ⟨phone', hphone', hserved⟩ := hserved
            obtain rfl : phone = phone' := Option.some.inj (hphone.symm.trans hphone')
            exact ⟨phone, reference, x.2, x.1, hphone, rfl, hlock, hD x hx, hiff, hserved⟩

/-! ## A visitor who tries again -/

def form : PreRegistrationValues :=
  { givenName := "Sara", fatherName := "Tesfaye", gender := .female, phone := "", branchId := 1
    desiredCourseId := 5 }

def campus : Db where
  programs := [{ id := 4, departmentId := 3, isPublished := true }]
  courses := [{ id := 5, programId := 4, name := "English" }]
  numbering :=
    { institution := some ⟨"Africa/Addis_Ababa", ⟨7, 8⟩⟩
      branches := [⟨1, Numbering.AB, "Bole", true⟩] }

/-- Every new application is rejected. -/
def rejecting (d : Db) : Db :=
  { d with applications :=
      changeWhere (fun a => a.status == .submitted) (statusRow .rejected) d.applications }

theorem rejecting_follows (d : Db) : List.Forall₂ Follows d.applications (rejecting d).applications := by
  refine forall₂_changeWhere.2 fun a _ => ?_
  split
  · rename_i hsubmitted
    refine ⟨rfl, rfl, rfl, .inr ?_⟩
    rw [beq_iff_eq.1 hsubmitted]
    rfl
  · exact .refl a

/-- Two spellings of one number at once, a rejection, and the number once more. -/
def trying : List (Move Call) :=
  [.begins true (.submit { newId := 1 } form "0911 22 33 44"),
    .begins false (.submit { newId := 2 } form "+251 911-223344"), .turns true 9, .turns false 20,
    .turns true 20, .turns false 20, .begins false (.staff rejecting), .turns false 9,
    .begins true (.submit { newId := 3 } form "251911223344"), .turns true 40]

/-- All numbers share one lock. -/
def oneLock : String → ℤ := fun _ => 0

theorem website_never_piles_up_trying :
    let w := (Duo.idle campus).play (Call.code oneLock) trying
    w.db.applications.map (fun a => (a.id, a.status)) = [(1, .rejected), (3, .submitted)] ∧
      AtMostOne (fromWebsite (fun _ => False) campus) w.db := by
  have hplayed : Admitted (Call.code oneLock) (fun call _ => ∀ S d, call.follows S d)
      (⟨campus, fun _ => none⟩ : World Bool _ _ _ _ _)
      ((Duo.idle campus).play (Call.code oneLock) trying).world := by
    refine Duo.play_admitted (Call.code oneLock) _ (Duo.idle campus) trying fun i q hq d => ?_
    simp only [trying, List.mem_cons, Move.begins.injEq, reduceCtorEq, List.not_mem_nil, or_false,
      false_or] at hq
    rcases hq with ⟨-, rfl⟩ | ⟨-, rfl⟩ | ⟨-, rfl⟩ | ⟨-, rfl⟩
    · exact fun _ _ => trivial
    · exact fun _ _ => trivial
    · exact fun _ d => rejecting_follows d
    · exact fun _ _ => trivial
  have hinv : Inv (fromWebsite (fun _ => False) campus) campus := by
    refine ⟨List.nodup_nil, fun a ha => ?_, fun a ha => ?_⟩ <;> simp [campus] at ha
  have hone : ∀ w : World Bool Call Db Lock Error Reply,
      Permitted (Call.code oneLock) Call.follows ⟨campus, fun _ => none⟩ w →
      AtMostOne (fromWebsite (fun _ => False) campus) w.db := fun w hw =>
    (website_never_piles_up oneLock (fun _ => False) (fun _ => rfl) hinv hw).1
  refine ⟨by decide +kernel, ?_⟩
  rw [← Duo.world_db]
  exact hone _ (hplayed.permitted _ fun _ => rfl)

end Emis.Admissions.Website
