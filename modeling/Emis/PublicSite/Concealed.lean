import Emis.Admissions.Frames
import Emis.Library.Noninterference
import Emis.PublicSite.PreRegistrationsService

/-!
# What a pre-registration tells a stranger

Two states that differ in an open application of the same phone and course give
answers with and without a reference, unless the request does not get as far as
the look-up.
-/

namespace Emis.PublicSite

open Transactions Admissions ApplicationsService PublicCatalogService PreRegistrationsService

variable {env : Env} {input : PreRegistrationValues}

/-- The applications that the look-up is for. -/
def sameRequest (input : PreRegistrationValues) (a : ApplicationRow) : Bool :=
  a.person.phone == input.phone && a.desiredCourseId == some input.desiredCourseId &&
    !isClosed a.status

/-- The state without them. -/
def Db.withoutOpen (input : PreRegistrationValues) (d : Db) : Db :=
  { d with admissions := { d.admissions with
      applications := d.admissions.applications.filter fun a => !sameRequest input a } }

/-- What the visitor sees, up to the text of a new reference. -/
def seen (answer : Except Error PreRegistrationResponse) : Except Error Bool :=
  answer.map fun response => response.reference.isSome

/-- The course is on the public catalog. -/
def listed (d : Admissions.Db) (courseId : Uuid) : Bool :=
  (d.courses.find? fun c => c.id == courseId).any fun course =>
    course.isActive && (d.programs.find? fun p => p.id == course.programId).any fun program =>
      program.isPublished && (d.departments.find? fun r => r.id == program.departmentId).any
        DepartmentRow.isActive

/-- Everything that the form refers to is there and in use. -/
def accepts (d : Admissions.Db) (input : PreRegistrationValues) : Bool :=
  listed d input.desiredCourseId &&
    input.preferredShiftId.all (fun id => (d.shifts.find? fun s => s.id == id).any ShiftRow.isActive) &&
    (d.numbering.branches.any fun b => b.id == input.branchId && b.isActive) &&
    input.preferredIntakeId.all fun id => d.intakes.contains id

/-! ## The checks and what follows them -/

/-- The checks of `submit`, in their order. -/
def checks (input : PreRegistrationValues) : Admissions.Tx String := do
  let courseName ← assertPreRegistrable input.desiredCourseId input.preferredShiftId
  let active ← isActiveBranch input.branchId
  Prog.require active (admissionsErrors.referenceNotFound "branch")
  checkReferences (some input.desiredCourseId) input.preferredShiftId input.preferredIntakeId
  return courseName

/-- `submitFromWebsite` after its checks. -/
def lookUp (env : Env) (input : PreRegistrationValues) : Admissions.Tx (Option Str) := do
  Prog.acquire (.preRegistration (env.hashtext input.phone))
  let d ← Prog.get
  if (Db.openApplication d input.phone input.desiredCourseId).isSome then
    return none
  else
    let website ← DescriptorsService.isActiveCode "lead_source" "website"
    let issued ← nextNumber env .application (some input.branchId)
    insertApplication
      (websiteApplication env input (if website then some "website" else none) issued.number)
    return some issued.number

theorem submit_eq (hbot : isBot input = false) : submit env input = (do
    let courseName ← (checks input).inside admissionsPart
    let reference ← (lookUp env input).inside admissionsPart
    confirm input courseName reference
    return { reference := reference }) := by
  simp only [submit, hbot, Bool.false_eq_true, if_false, checks, submitFromWebsite, lookUp, Prog.inside,
    Prog.zoom_bind, Prog.zoom_pure, bind_assoc, pure_bind]

theorem wlp_assertShift {Φ : Unit → Admissions.Db → Prop} {E : Error → Prop} {d : Admissions.Db}
    (shiftId : Option Uuid) : (assertShift shiftId).wlp Φ E d ↔
      if shiftId.all fun id => (d.shifts.find? fun s => s.id == id).any ShiftRow.isActive then Φ () d
      else E (publicErrors.referenceNotFound "shift") := by
  cases shiftId with
  | none => simp [assertShift]
  | some id =>
      simp only [assertShift, findShift, Prog.wlp_bind, Prog.wlp_get, Prog.wlp_pure, Prog.wlp_require,
        Option.all_some]
      split <;> simp_all

theorem wlp_requireReference {Φ : Unit → Admissions.Db → Prop} {E : Error → Prop} {d : Admissions.Db}
    {known : Uuid → Admissions.Tx Bool} (found : Uuid → Bool) (what : String) (id : Option Uuid)
    (hknown : ∀ id (Ψ : Bool → Admissions.Db → Prop), (known id).wlp Ψ E d ↔ Ψ (found id) d) :
    (requireReference what id known).wlp Φ E d ↔
      if id.all found then Φ () d else E (admissionsErrors.referenceNotFound what) := by
  cases id with
  | none => simp [requireReference]
  | some id =>
      simp only [requireReference, Prog.wlp_bind, hknown, Prog.wlp_require, Option.all_some]
      split <;> simp_all

theorem wlp_visibleCourse (d : Admissions.Db) (id : Uuid) :
    (visibleCourse id).wlp (fun _ v => v = d ∧ listed d id = true) (fun _ => listed d id = false) d := by
  simp only [visibleCourse, findWithDepartment, getProgram, getDepartment, Prog.wlp_bind, Prog.wlp_get]
  cases hcourse : d.courses.find? fun c => c.id == id with
  | none => simp [listed, hcourse]
  | some course =>
      simp only [Prog.wlp_bind, Prog.wlp_get, Prog.wlp_expect, Prog.wlp_pure, Prog.wlp_require]
      cases hprogram : d.programs.find? fun p => p.id == course.programId with
      | none => simp [listed, hcourse, hprogram]
      | some program =>
          cases hactive : course.isActive with
          | false => simp [listed, hcourse, hactive]
          | true =>
              cases hdepartment : d.departments.find? fun r => r.id == program.departmentId with
              | none => simp [listed, hcourse, hactive, hprogram, hdepartment]
              | some department =>
                  have hlisted : listed d id = (program.isPublished && department.isActive) := by
                    simp [listed, hcourse, hactive, hprogram, hdepartment]
                  simp only [Option.filter_some, hactive, if_true, Option.some.injEq, forall_eq',
                    hprogram, hdepartment, reduceCtorEq, false_implies, and_true, hlisted]
                  cases program.isPublished && department.isActive <;> simp

theorem keeps_visibleCourse {τ : Type} {φ : Admissions.Db → τ} (id : Uuid) :
    (visibleCourse id).Keeps φ :=
  .bind (keeps_findWithDepartment id) fun _ => .bind (.expect _ _) fun _ =>
    .bind (.bind .get fun _ => .expect _ _) fun _ =>
      .bind (.bind .get fun _ => .expect _ _) fun _ => .bind (.require _ _) fun _ => .pure _

/-- A listed course is known. -/
theorem wlp_findWithDepartment {Φ : Option CourseWithDepartment → Admissions.Db → Prop}
    {E : Error → Prop} {d : Admissions.Db} {id : Uuid} (hlisted : listed d id = true)
    (hΦ : ∀ found, Φ (some found) d) : (findWithDepartment id).wlp Φ E d := by
  simp only [findWithDepartment, Prog.wlp_bind, Prog.wlp_get]
  cases hcourse : d.courses.find? fun c => c.id == id with
  | none => simp [listed, hcourse] at hlisted
  | some course =>
      cases hprogram : d.programs.find? fun p => p.id == course.programId with
      | none => simp [listed, hcourse, hprogram] at hlisted
      | some program =>
          simp only [Prog.wlp_bind, Prog.wlp_get, hprogram, Prog.wlp_expect, Prog.wlp_pure]
          exact ⟨fun _ _ => hΦ _, fun hnone => by simp at hnone⟩

/-- The checks pass on what is accepted, and throw on what is not. -/
theorem wlp_checks (d : Admissions.Db) (input : PreRegistrationValues) :
    (checks input).wlp (fun _ v => v = d ∧ accepts d input = true)
      (fun _ => accepts d input = false) d := by
  simp only [checks, assertPreRegistrable, bind_assoc, Prog.wlp_bind,
    Prog.wlp_catching (keeps_visibleCourse _)]
  refine Prog.wlp_mono ?_ ?_ (wlp_visibleCourse d input.desiredCourseId)
  · intro visible v hvisible
    obtain ⟨hv, hlisted⟩ := hvisible
    rw [hv, wlp_assertShift]
    split
    · rename_i hshift
      simp only [Prog.wlp_pure, isActiveBranch, Prog.wlp_bind, Prog.wlp_get, Prog.wlp_require]
      refine ⟨fun hbranch => ?_, fun hbranch => by simp [accepts, hbranch]⟩
      have hknown : input.preferredShiftId.all (fun id => d.shifts.any fun s => s.id == id) = true := by
        cases hid : input.preferredShiftId with
        | none => rfl
        | some id =>
            obtain ⟨s, hs, -⟩ := (Option.any_eq_true _ _).1 (by simpa [hid] using hshift)
            have hsid : (s.id == id) = true := by simpa using List.find?_some hs
            exact List.any_eq_true.2 ⟨s, List.mem_of_find?_eq_some hs, hsid⟩
      simp only [checkReferences, requireReference, Prog.wlp_bind, Prog.wlp_map]
      refine wlp_findWithDepartment hlisted fun found => ?_
      simp only [Option.isSome_some, Prog.wlp_require, reduceCtorEq, false_implies, and_true,
        forall_const]
      refine (wlp_requireReference (fun id => d.shifts.any fun s => s.id == id) "shift" _
        fun _ _ => Iff.rfl).2 ?_
      rw [if_pos hknown]
      refine (wlp_requireReference (fun id => d.intakes.contains id) "intake" _
        fun _ _ => Iff.rfl).2 ?_
      split
      · rename_i hintake
        exact ⟨rfl, by simp only [accepts, hlisted, hshift, hbranch, hintake, Bool.and_self]⟩
      · rename_i hintake
        simp only [Bool.not_eq_true] at hintake
        simp only [accepts, hintake, Bool.and_false]
    · rename_i hshift
      simp [accepts, hshift]
  · intro _ hlisted
    simp [accepts, hlisted]

/-! ## The checks do not look at applications -/

/-- Everything but the applications. -/
def background (d : Admissions.Db) : Admissions.Db := { d with applications := [] }

theorem sees_findWithDepartment (id : Uuid) : (findWithDepartment id).Sees background := by
  refine .inPart (fun _ => rfl) fun d => ?_
  split
  · exact .pure _
  · exact .inPart (fun _ => rfl) fun _ => .bind (.expect _ _) fun _ => .pure _

theorem sees_requireReference (what : String) (id : Option Uuid) {known : Uuid → Admissions.Tx Bool}
    (hknown : ∀ id, (known id).Sees background) : (requireReference what id known).Sees background := by
  cases id with
  | none => exact .pure _
  | some id => exact .bind (hknown id) fun _ => .require _ _

theorem sees_checks (input : PreRegistrationValues) : (checks input).Sees background := by
  refine .bind ?_ fun _ => .bind ?_ fun _ => .bind (.require _ _) fun _ => .bind ?_ fun _ => .pure _
  · refine .bind (.catching (fun _ => .throw _) ?_) fun _ => .bind ?_ fun _ => .pure _
    · refine .bind (sees_findWithDepartment _) fun _ => .bind (.expect _ _) fun _ => ?_
      refine .bind (.inPart (fun _ => rfl) fun _ => .expect _ _) fun _ => ?_
      refine .bind (.inPart (fun _ => rfl) fun _ => .expect _ _) fun _ => ?_
      exact .bind (.require _ _) fun _ => .pure _
    · cases input.preferredShiftId with
      | none => exact .pure _
      | some id =>
          exact .bind (.inPart (fun _ => rfl) fun _ => .pure _) fun _ => .require _ _
  · exact .inPart (fun _ => rfl) fun _ => .pure _
  · refine .bind (sees_requireReference _ _ fun id => .map _ (sees_findWithDepartment id)) fun _ => ?_
    refine .bind (sees_requireReference _ _ fun id => ?_) fun _ => sees_requireReference _ _ fun id => ?_
    · exact .inPart (fun _ => rfl) fun _ => .pure _
    · exact .inPart (fun _ => rfl) fun _ => .pure _

/-! ## The two answers -/

theorem wlp_admissions {α : Type} {Φ : α → Db → Prop} {E : Error → Prop} {d : Db}
    (p : Admissions.Tx α) : (p.inside admissionsPart).wlp Φ E d ↔
      p.wlp (fun a s => Φ a { d with admissions := s }) E d.admissions := by
  apply Prog.wlp_zoom
  · exact fun _ _ => rfl
  · exact fun _ _ _ => rfl
  · exact fun _ => rfl

theorem wlp_lookUp_open {d : Admissions.Db}
    (hopen : (Db.openApplication d input.phone input.desiredCourseId).isSome = true) :
    (lookUp env input).wlp (fun reference _ => reference = none) (fun _ => False) d := by
  simp only [lookUp, Prog.wlp_bind, Prog.wlp_acquire, Prog.wlp_get, hopen, if_true, Prog.wlp_pure]

theorem wlp_lookUp_fresh {d : Admissions.Db}
    (hfresh : (Db.openApplication d input.phone input.desiredCourseId).isSome = false) :
    (lookUp env input).wlp (fun reference _ => reference.isSome = true) (fun _ => True) d := by
  simp only [lookUp, Prog.wlp_bind, Prog.wlp_acquire, Prog.wlp_get, hfresh, Bool.false_eq_true, if_false]
  refine (keeps_isActiveCode (φ := fun _ => ()) _ _).wlp (fun _ _ _ => ?_) fun _ => trivial
  refine ((keeps_nextNumber _ _ _).comp fun _ => ()).wlp (fun _ _ _ => ?_) fun _ => trivial
  simp [insertApplication]

theorem wlp_confirm_none {Φ : Unit → Db → Prop} {E : Error → Prop} {d : Db} (courseName : String) :
    (confirm input courseName none).wlp Φ E d ↔ Φ () d := Iff.rfl

theorem keeps_confirm (courseName : String) (reference : Option Str) :
    (confirm input courseName reference).Keeps fun d : Db => d.admissions := by
  unfold confirm
  split
  · refine .bind (.bind ?_ fun _ => .bind .get fun _ => .pure _) fun _ => .modify fun _ => rfl
    have hrow : (Numbering.institutionRow.inside numberingPart).Keeps id :=
      .zoom (ψ := id) (.bind .get fun _ => .expect _ _) fun s d h => by
        obtain rfl : s = numberingPart.view d := h
        rfl
    exact .zoom hrow fun _ _ h => h
  · exact .pure _

section TwoStates

variable {d d' : Db}

theorem wlp_submit_open (env : Env) (hbot : isBot input = false)
    (hopen : (Db.openApplication d.admissions input.phone input.desiredCourseId).isSome = true) :
    (submit env input).wlp (fun response _ => response.reference = none)
      (fun _ => accepts d.admissions input = false) d := by
  rw [submit_eq hbot]
  simp only [Prog.wlp_bind, wlp_admissions]
  refine Prog.wlp_mono ?_ (fun _ h => h) (wlp_checks d.admissions input)
  intro courseName v hchecked
  obtain ⟨hv, -⟩ := hchecked
  rw [hv]
  refine Prog.wlp_mono ?_ (fun _ h => h.elim) (wlp_lookUp_open hopen)
  intro reference v' hnone
  rw [hnone, wlp_confirm_none]
  rfl

theorem wlp_submit_fresh (env : Env) (hbot : isBot input = false)
    (hfresh : (Db.openApplication d.admissions input.phone input.desiredCourseId).isSome = false) :
    (submit env input).wlp (fun response _ => response.reference.isSome = true) (fun _ => True) d := by
  rw [submit_eq hbot]
  simp only [Prog.wlp_bind, wlp_admissions]
  refine Prog.wlp_mono ?_ (fun _ _ => trivial) (wlp_checks d.admissions input)
  intro courseName v hchecked
  obtain ⟨hv, -⟩ := hchecked
  rw [hv]
  refine Prog.wlp_mono ?_ (fun _ _ => trivial) (wlp_lookUp_fresh hfresh)
  intro reference v' hsome
  exact (keeps_confirm courseName reference).wlp (fun _ _ _ => hsome) fun _ => trivial

theorem refused_alike (hbot : isBot input = false) (hrefused : accepts d.admissions input = false)
    (hbackground : background d.admissions = background d'.admissions) :
    ((submit env input).alone d).1 = ((submit env input).alone d').1 := by
  have hsees : ((checks input).inside admissionsPart).Sees fun d : Db => background d.admissions :=
    (sees_checks input).zoom (fun _ _ h => h) fun _ _ _ _ h _ => h
  have hchecked : ((checks input).inside admissionsPart).wlp (fun _ _ => False) (fun _ => True) d := by
    rw [wlp_admissions]
    refine Prog.wlp_mono ?_ (fun _ _ => trivial) (wlp_checks d.admissions input)
    intro _ _ haccepted
    simp [hrefused] at haccepted
  rcases Prog.alone_cases hchecked with ⟨_, _, -, hfalse⟩ | ⟨e, herror, -⟩
  · exact hfalse.elim
  · have hd : (((checks input).inside admissionsPart).alone d).1 = .error e := by rw [herror]
    have hd' : (((checks input).inside admissionsPart).alone d').1 = .error e :=
      (hsees.alone hbackground).symm.trans hd
    rw [submit_eq hbot, Prog.alone_bind_error hd, Prog.alone_bind_error hd']

end TwoStates

theorem openApplication_isSome (d : Admissions.Db) :
    (Db.openApplication d input.phone input.desiredCourseId).isSome =
      d.applications.any (sameRequest input) := by
  rw [Db.openApplication, List.isSome_find?]
  rfl

/-- Two states that differ in the open applications of the request are told apart by
the answer, unless the request is a bot's or refused before the look-up. -/
theorem reply_conceals_iff (env : Env) (input : PreRegistrationValues) {d d' : Db}
    (hsame : d.withoutOpen input = d'.withoutOpen input)
    (hopen : d.admissions.applications.any (sameRequest input) = true)
    (hfresh : d'.admissions.applications.any (sameRequest input) = false) :
    seen ((submit env input).alone d).1 = seen ((submit env input).alone d').1 ↔
      isBot input = true ∨ accepts d.admissions input = false := by
  have hbackground : background d.admissions = background d'.admissions := by
    change background (d.withoutOpen input).admissions = background (d'.withoutOpen input).admissions
    rw [hsame]
  rw [← openApplication_isSome] at hopen hfresh
  constructor
  · intro hseen
    by_contra hneither
    obtain ⟨hbot, haccepts⟩ : isBot input = false ∧ accepts d.admissions input = true := by
      simpa using hneither
    rcases Prog.alone_cases (wlp_submit_open env hbot hopen) with
      ⟨response, v, hd, hnone⟩ | ⟨e, -, hrefused⟩
    · rcases Prog.alone_cases (wlp_submit_fresh env hbot hfresh) with
        ⟨response', v', hd', hsome⟩ | ⟨e, hd', -⟩
      · simp [seen, hd, hd', Except.map, hnone, hsome] at hseen
      · simp [seen, hd, hd', Except.map] at hseen
    · simp [haccepts] at hrefused
  · intro hcondition
    cases hbot : isBot input with
    | true =>
        have hanswer : ∀ d, ((submit env input).alone d).1 = .ok { reference := none } := by
          intro d
          rw [submit, if_pos hbot]
          rfl
        rw [hanswer, hanswer]
    | false =>
        have hrefused : accepts d.admissions input = false := by simpa [hbot] using hcondition
        rw [refused_alike hbot hrefused hbackground]

/-! ## A visitor -/

def visitor : PreRegistrationValues :=
  { givenName := "Sara", fatherName := "Tesfaye", gender := .female, phone := "+251922", branchId := 1
    desiredCourseId := 5 }

/-- One course on the public catalog. -/
def site : Db where
  admissions :=
    { departments := [{ id := 3 }]
      programs := [{ id := 4, departmentId := 3, isPublished := true }]
      courses := [{ id := 5, programId := 4, name := "English" }]
      numbering :=
        { institution := some ⟨"Africa/Addis_Ababa", ⟨7, 8⟩⟩
          branches := [⟨1, Numbering.AB, "Bole", true⟩] } }

/-- The same with the visitor's own request on file. -/
def siteWithRequest : Db :=
  { site with admissions := { site.admissions with
      applications := [websiteApplication {} visitor none ['A']] } }

/-- A bot that fills every field. -/
def bot : PreRegistrationValues := { visitor with companyWebsite := "example" }

theorem reply_conceals_bot :
    seen ((submit {} bot).alone siteWithRequest).1 = seen ((submit {} bot).alone site).1 := by
  have hsame : siteWithRequest.withoutOpen bot = site.withoutOpen bot := rfl
  exact (reply_conceals_iff {} bot hsame (by decide) (by decide)).2 (.inl (by decide))

theorem reply_reveals :
    siteWithRequest.withoutOpen visitor = site.withoutOpen visitor ∧
      seen ((submit {} visitor).alone siteWithRequest).1 = .ok false ∧
      seen ((submit {} visitor).alone site).1 = .ok true := by
  refine ⟨rfl, ?_, ?_⟩
  · rfl
  · rfl

end Emis.PublicSite
