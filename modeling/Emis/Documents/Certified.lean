import Emis.Cohorts.Frames
import Emis.Documents.CertificatesService
import Emis.Library.Script

/-!
# Certificates are issued once and revoked for good

The entry in the partial unique index admits one certificate in force for an enrollment.
That a revocation is final, and a completed enrollment stays completed, holds where no
request writes to a row that has changed since its own check of the status.
-/

namespace Emis.Documents

open Transactions Protocol CertificatesService

inductive CertificateCall where
  | issue (env : Env) (enrollmentId : Uuid) (grants : List Grant)
  | revoke (env : Env) (id : Uuid) (reason : Str) (expectedVersion : ℕ) (grants : List Grant)
  | recordResult (env : Cohorts.Env) (id : Uuid) (input : Cohorts.EnrollmentsService.RecordResultValues)
    (expectedVersion : ℕ) (grants : List Grant)

namespace CertificateCall

def code : CertificateCall → Tx (Option Certificate)
  | issue env enrollmentId grants => some <$> CertificatesService.issue env enrollmentId grants
  | revoke env id reason expectedVersion grants => some <$> CertificatesService.revoke env id reason expectedVersion grants
  | recordResult env id input expectedVersion grants =>
      (fun _ => none) <$> inCohorts (Cohorts.EnrollmentsService.recordResult env id input expectedVersion grants)

/-- The row that is written is still in the status that the request has seen. -/
def permitted : CertificateCall → Db → Prop
  | issue .., _ => True
  | revoke _ id .., d => ∀ c ∈ d.certificates, c.id = id → c.status = .issued
  | recordResult _ id .., d => ∀ e ∈ d.cohorts.enrollments, e.id = id → e.status = .active

instance : ∀ (q : CertificateCall) (d : Db), Decidable (q.permitted d)
  | issue .., _ => .isTrue trivial
  | revoke _ id .., d => inferInstanceAs (Decidable (∀ c ∈ d.certificates, c.id = id → c.status = .issued))
  | recordResult _ id .., d => inferInstanceAs (Decidable (∀ e ∈ d.cohorts.enrollments, e.id = id → e.status = .active))

end CertificateCall

/-- The enrollment has been completed. -/
def Completed (d : Db) (enrollmentId : Uuid) : Prop :=
  ∃ e ∈ d.cohorts.enrollments, e.id = enrollmentId ∧ e.status = .completed

variable (final : Prop)

structure CertificateInv (d : Db) : Prop where
  institution : d.numbering.institution ≠ none
  ids : (d.certificates.map CertificateRow.id).Nodup
  tokens : (d.certificates.map CertificateRow.token).Nodup
  single : ∀ c ∈ d.certificates, ∀ c' ∈ d.certificates, c.status = .issued → c'.status = .issued →
    c.enrollmentId = c'.enrollmentId → c.id = c'.id
  completed : final → ∀ c ∈ d.certificates, Completed d c.enrollmentId

/-- A certificate stays what it is or is revoked, once if that is final. -/
def CertificateStep (S : Set Lock) (c c' : CertificateRow) : Prop :=
  c' = c ∨ .certificate c.id ∈ S ∧ (final → c.status = .issued) ∧
    ∃ env reason, c' = { revokedRow env reason c with version := c.version + 1 }

/-- A new certificate, with its entries in the indexes. -/
structure NewCertificate (S : Set Lock) (c : CertificateRow) : Prop where
  id : .certificate c.id ∈ S
  token : .certificateToken c.token ∈ S
  inForce : .inForce c.enrollmentId ∈ S
  issued : c.status = .issued

structure CertificateGuar (S : Set Lock) (d d' : Db) : Prop where
  institution : d'.numbering.institution = d.numbering.institution
  certificates : Evolves (CertificateStep final S) (NewCertificate S) d.certificates d'.certificates
  completed : final → ∀ i, Completed d i → Completed d' i

def certificateProtocol : Protocol Db Lock where
  Inv := CertificateInv final
  Guar := CertificateGuar final

variable {final} {S : Set Lock} {f : Db → Db} {d d' : Db}

namespace CertificateStep

variable {c c' : CertificateRow}

@[simp] theorem id (h : CertificateStep final S c c') : c'.id = c.id := by
  rcases h with rfl | ⟨-, -, env, reason, rfl⟩ <;> rfl

@[simp] theorem token (h : CertificateStep final S c c') : c'.token = c.token := by
  rcases h with rfl | ⟨-, -, env, reason, rfl⟩ <;> rfl

theorem of_issued (h : CertificateStep final S c c') (hissued : c'.status = .issued) : c' = c := by
  rcases h with rfl | ⟨-, -, env, reason, rfl⟩
  · rfl
  · simp [revokedRow] at hissued

theorem revoked (h : CertificateStep final S c c') (hrevoked : c.status = .revoked) : c'.status = .revoked := by
  rcases h with rfl | ⟨-, -, env, reason, rfl⟩
  · exact hrevoked
  · rfl

theorem final_of_revoked (h : CertificateStep final S c c') (hfinal : final) (hrevoked : c.status = .revoked) :
    c' = c := by
  rcases h with rfl | ⟨-, hissued, -⟩
  · rfl
  · simp [hrevoked] at hissued
    exact (hissued hfinal).elim

end CertificateStep

/-! ## What the others leave -/

section Rely

variable (h : (certificateProtocol final).Rely S d d')

include h

theorem completed_stays (hfinal : final) {i : Uuid} (hi : Completed d i) : Completed d' i := by
  refine h.stable (φ := fun d => Completed d i) ?_ hi
  rintro d₁ d₂ ⟨-, T, -, hguar⟩ hi₁
  exact hguar.completed hfinal i hi₁

/-- A fact about every certificate that survives its revocation and holds of those that
somebody else may insert. -/
theorem certificate_rely {p : CertificateRow → Prop} (hnew : ∀ T c, Disjoint S T → NewCertificate T c → p c)
    (hstep : ∀ T c c', CertificateStep final T c c' → p c → p c')
    (hp : ∀ c ∈ d.certificates, p c) : ∀ c ∈ d'.certificates, p c := by
  refine h.stable (φ := fun d => ∀ c ∈ d.certificates, p c) ?_ hp
  rintro d₁ d₂ ⟨-, T, hdisj, hguar⟩ hp₁ c hc
  rcases hguar.certificates.made c hc with ⟨c₀, hc₀, hmove⟩ | hfresh
  · exact hstep T c₀ c hmove (hp₁ c₀ hc₀)
  · exact hnew T c hdisj hfresh

end Rely

/-! ## Issuing -/

/-- The entries of the new row are held, and free. -/
structure Vacant (row : CertificateRow) (S : Set Lock) (d : Db) : Prop where
  held : NewCertificate S row
  ids : ∀ c ∈ d.certificates, c.id ≠ row.id
  tokens : ∀ c ∈ d.certificates, c.token ≠ row.token
  inForce : ∀ c ∈ d.certificates, c.status = .issued → c.enrollmentId ≠ row.enrollmentId

theorem Vacant.later {row : CertificateRow} (h : Vacant row S d) (hr : (certificateProtocol final).Rely S d d') :
    Vacant row S d' where
  held := h.held
  ids := by
    refine certificate_rely hr (fun T c hdisj hnew hid => ?_) (fun T c c' hstep hc => by rwa [hstep.id]) h.ids
    exact Set.disjoint_left.1 hdisj h.held.id (hid ▸ hnew.id)
  tokens := by
    refine certificate_rely hr (fun T c hdisj hnew htoken => ?_) (fun T c c' hstep hc => by rwa [hstep.token]) h.tokens
    exact Set.disjoint_left.1 hdisj h.held.token (htoken ▸ hnew.token)
  inForce := by
    refine certificate_rely hr (fun T c hdisj hnew _ hsame => ?_) (fun T c c' hstep hc hissued => ?_) h.inForce
    · exact Set.disjoint_left.1 hdisj h.held.inForce (hsame ▸ hnew.inForce)
    · obtain rfl := hstep.of_issued hissued
      exact hc hissued

/-- What a transaction sees of the certificates and of what they depend on. -/
def Db.certified (d : Db) : List CertificateRow × Cohorts.Db × Option Numbering.InstitutionRow :=
  (d.certificates, d.cohorts, d.numbering.institution)

theorem completed_of_certified {g : Db → Db} (hg : (g d).certified = d.certified) {i : Uuid} :
    Completed (g d) i ↔ Completed d i := by
  have hcohorts : (g d).cohorts = d.cohorts := congrArg (fun x => x.2.1) hg
  rw [Completed, Completed, hcohorts]

/-- One more certificate is published. -/
theorem done_insertCertificate (reply : Option Certificate) {row : CertificateRow} {g : Db → Db}
    {Ok : Set Lock → Db → Prop} (hd : Vacant row S d) (hg : ∀ s, (g s).certified = s.certified)
    (hcompleted : final → Completed d row.enrollmentId) :
    (certificateProtocol final).DoneIf Ok (fun _ _ _ => True) reply S (addCertificate row ∘ g) d := by
  intro d' hr hi _
  have hvacant := hd.later hr
  have hrows : (addCertificate row (g d')).certificates = d'.certificates ++ [row] :=
    congrArg (fun x : List CertificateRow × Cohorts.Db × Option Numbering.InstitutionRow => x.1 ++ [row]) (hg d')
  have hinst : (addCertificate row (g d')).numbering.institution = d'.numbering.institution :=
    congrArg (fun x => x.2.2) (hg d')
  have hsame : ∀ i, Completed (addCertificate row (g d')) i ↔ Completed d' i := fun i => completed_of_certified (hg d')
  refine ⟨⟨hinst, hrows ▸ .snoc (fun _ => .inl rfl) hvacant.held, fun _ i hci => (hsame i).2 hci⟩, ?_, trivial⟩
  refine ⟨fun hnone => hi.institution (hinst.symm.trans hnone), hrows ▸ nodup_snoc hi.ids hvacant.ids,
    hrows ▸ nodup_snoc hi.tokens hvacant.tokens, fun c hc c' hc' hissued hissued' heq => ?_, fun hfinal c hc => ?_⟩
  · rw [Function.comp_apply, hrows] at hc hc'
    rcases List.mem_append.1 hc with hold | hnew
    · rcases List.mem_append.1 hc' with hold' | hnew'
      · exact hi.single c hold c' hold' hissued hissued' heq
      · rw [List.mem_singleton.1 hnew'] at heq
        exact (hvacant.inForce c hold hissued heq).elim
    · rw [List.mem_singleton.1 hnew] at heq ⊢
      rcases List.mem_append.1 hc' with hold' | hnew'
      · exact (hvacant.inForce c' hold' hissued' heq.symm).elim
      · rw [List.mem_singleton.1 hnew']
  · rw [Function.comp_apply, hrows] at hc
    refine (hsame _).2 ?_
    rcases List.mem_append.1 hc with hc | hc
    · exact hi.completed hfinal c hc
    · exact List.mem_singleton.1 hc ▸ completed_stays hr hfinal (hcompleted hfinal)

/-- The insert goes through, with its entries in the indexes. -/
theorem wp_insertCertificate (reply : Option Certificate) {row : CertificateRow} {g : Db → Db}
    {Ok : Set Lock → Db → Prop} (hissued : row.status = .issued) (hg : ∀ s, (g s).certified = s.certified)
    (hcompleted : final → Completed d row.enrollmentId) :
    (certificateProtocol final).wp (fun _ => (certificateProtocol final).DoneIf Ok (fun _ _ _ => True) reply) Anyway
      (insertCertificate row) S g d := by
  simp only [insertCertificate, wp_bind, wp_acquire, wp_get]
  intro d₁ hr₁ _ d₂ hr₂ _ d₃ hr₃ _ d₄ hr₄ _ d₅ hr₅ hi₅
  rw [wp_require]
  refine ⟨fun hfree => ?_, fun _ => trivial⟩
  have hrows : (g d₅).certificates = d₅.certificates := congrArg Prod.fst (hg d₅)
  have hnone : ∀ c ∈ d₅.certificates, c.id ≠ row.id ∧ c.token ≠ row.token ∧
      (c.status = .issued → c.enrollmentId ≠ row.enrollmentId) := by
    intro c hc
    rw [hrows, Bool.not_eq_true', List.any_eq_false] at hfree
    have hno := hfree c hc
    simp only [Bool.or_eq_true, Bool.and_eq_true, beq_iff_eq, not_or, not_and] at hno
    exact ⟨hno.1.1.1, hno.1.2, fun hstatus heq => hno.2 heq hstatus⟩
  refine done_insertCertificate reply ⟨⟨?_, ?_, ?_, hissued⟩, fun c hc => (hnone c hc).1, fun c hc => (hnone c hc).2.1,
    fun c hc => (hnone c hc).2.2⟩ hg fun hfinal => ?_
  · simp
  · simp
  · simp
  · refine completed_stays (S := S) ?_ hfinal (hcompleted hfinal)
    refine hr₁.trans ((hr₂.anti ?_).trans ((hr₃.anti ?_).trans ((hr₄.anti ?_).trans (hr₅.anti ?_))))
    all_goals intro l hl; simp [hl]

section Frames

variable {τ : Type} {φ : Db → τ}

theorem keeps_institutionRow : (inSettings Numbering.institutionRow).Keeps φ :=
  .zoom (ψ := id) Numbering.keeps_institutionRow fun _ _ hs => by rw [id_eq] at hs; rw [hs, id_eq]

theorem keeps_localDate (env : Env) (date : Instant) : (localDate env date).Keeps φ :=
  .bind keeps_institutionRow fun _ => .pure _

theorem keeps_institution : institution.Keeps φ := .bind keeps_institutionRow fun _ => .bind .get fun _ => .pure _

theorem keeps_requireExisting (id : Uuid) : (requireExisting id).Keeps φ := .bind .get fun _ => .expect _ _

theorem keeps_findWithDepartment (id : Uuid) : (findWithDepartment id).Keeps φ := by
  refine .bind .get fun d => ?_
  cases d.courses.find? fun c => c.id == id with
  | none => exact .pure _
  | some course => exact .bind .get fun _ => .bind (.expect _ _) fun _ => .pure _

theorem keeps_balanceForEnrollment (id : Uuid) : (balanceForEnrollment id).Keeps φ := .bind .get fun _ => .pure _

end Frames

theorem issue_safe (env : Env) (enrollmentId : Uuid) (grants : List Grant) {Ok : Set Lock → Db → Prop} :
    (certificateProtocol final).wp ((certificateProtocol final).DoneIf Ok fun _ _ _ => True) Anyway
      (CertificateCall.issue env enrollmentId grants).code ∅ id d := by
  simp only [CertificateCall.code, wp_map, issue, billingContext, wp_bind, wp_get, wp_pure]
  intro d₁ hr₁ hi₁
  rw [wp_expect]
  refine ⟨fun ctx hctx => ?_, fun _ => trivial⟩
  obtain ⟨e, he, hcontext⟩ := Option.bind_eq_some_iff.1 hctx
  obtain ⟨cohort, -, rfl⟩ := Option.map_eq_some_iff.1 hcontext
  refine wp_of_silent (keeps_findWithDepartment _) hi₁ fun course? S₂ d₂ _ hr₂ hi₂ => ?_
  rw [wp_expect]
  refine ⟨fun course _ => ?_, fun _ => trivial⟩
  rw [assertScope, wp_require]
  refine ⟨fun _ => ?_, fun _ => trivial⟩
  rw [wp_expect]
  refine ⟨fun completedAt hstatus => ?_, fun _ => trivial⟩
  rw [wp_require]
  refine ⟨fun _ => ?_, fun _ => trivial⟩
  have hcompleted : Completed d₁ enrollmentId := by
    refine ⟨e, List.mem_of_find?_eq_some he, by simpa using List.find?_some he, ?_⟩
    split at hstatus
    · assumption
    · simp at hstatus
  refine wp_of_silent keeps_institution hi₂ fun inst S₃ d₃ hS₃ hr₃ hi₃ => ?_
  refine wp_of_silent (.when _ (.bind (keeps_balanceForEnrollment _) fun _ => .require _ _)) hi₃
    fun _ S₄ d₄ hS₄ hr₄ hi₄ => ?_
  refine wp_of_silent (keeps_requireExisting _) hi₄ fun student S₅ d₅ hS₅ hr₅ hi₅ => ?_
  have hnext : (inSettings (Numbering.NumberingService.next env.toEnv .certificate none none)).Keeps Db.certified := by
    refine .zoom (Numbering.keeps_next env.toEnv .certificate none none) fun n d hn => ?_
    simp only [Db.certified, hn]
  refine wp_of_keeps hnext hi₅ fun issued S₆ g d₆ hS₆ hg hr₆ hi₆ => ?_
  refine wp_of_silent (keeps_localDate _ _) hi₆ fun completedOn S₇ d₇ hS₇ hr₇ hi₇ => ?_
  set row := newCertificate env enrollmentId student course.course issued.number completedOn
  have hrely : (certificateProtocol final).Rely ∅ d₁ d₇ := by
    refine hr₂.trans ((hr₃.anti (Set.empty_subset _)).trans ((hr₄.anti (Set.empty_subset _)).trans ?_))
    exact (hr₅.anti (Set.empty_subset _)).trans ((hr₆.anti (Set.empty_subset _)).trans (hr₇.anti (Set.empty_subset _)))
  exact wp_insertCertificate (some (toCertificate row)) rfl hg fun hfinal => completed_stays hrely hfinal hcompleted

/-! ## Revoking -/

/-- A row that a revocation has changed. -/
def revokedOnce (env : Env) (reason : Str) (c : CertificateRow) : CertificateRow :=
  { revokedRow env reason c with version := c.version + 1 }

theorem revoke_safe (env : Env) (id' : Uuid) (reason : Str) (expectedVersion : ℕ) (grants : List Grant)
    {Ok : Set Lock → Db → Prop}
    (hok : final → ∀ S d, Ok S d → (CertificateCall.revoke env id' reason expectedVersion grants).permitted d) :
    (certificateProtocol final).wp ((certificateProtocol final).DoneIf Ok fun _ _ _ => True) Anyway
      (CertificateCall.revoke env id' reason expectedVersion grants).code ∅ id d := by
  simp only [CertificateCall.code, wp_map, revoke, row, wp_bind, wp_get]
  intro d₁ hr₁ hi₁
  rw [wp_expect]
  refine ⟨fun found _ => ?_, fun _ => trivial⟩
  refine wp_of_silent (keeps_requireExisting _) hi₁ fun student S₂ d₂ _ _ hi₂ => ?_
  refine wp_of_silent (keeps_assertBranchAccess _ _ _) hi₂ fun _ S₃ d₃ _ _ hi₃ => ?_
  rw [wp_pure, wp_require]
  refine ⟨fun _ => ?_, fun _ => trivial⟩
  refine wp_versioned certificatesTable fun d₄ d₅ row _ _ _ _ hi₅ _ => ?_
  intro d' hr hi hpermitted
  set D := certificatesTable.bump id' (revokedRow env reason) d' with hD
  have hrows : D.certificates = changeWhere (fun c => c.id == id') (revokedOnce env reason) d'.certificates := rfl
  have hmem : ∀ c' ∈ D.certificates, ∃ c ∈ d'.certificates, c'.id = c.id ∧ c'.enrollmentId = c.enrollmentId ∧
      (c'.status = .issued → c' = c) := by
    intro c' hc'
    obtain ⟨c, hc, rfl⟩ := mem_changeWhere.1 (hrows ▸ hc')
    refine ⟨c, hc, ?_⟩
    split
    · exact ⟨rfl, rfl, fun hissued => by simp [revokedOnce, revokedRow] at hissued⟩
    · exact ⟨rfl, rfl, fun _ => rfl⟩
  refine ⟨⟨rfl, ?_, fun _ _ hci => hci⟩, ⟨hi.institution, ?_, ?_, ?_, fun hfinal c' hc' => ?_⟩, trivial⟩
  · refine .changeWhere (fun _ => .inl rfl) fun c hc hhit => .inr ⟨?_, fun hfinal => ?_, env, reason, rfl⟩
    · have hid : c.id = id' := by simpa [certificatesTable] using hhit
      exact hid ▸ Set.mem_insert _ _
    · exact hok hfinal _ _ hpermitted c hc (by simpa [certificatesTable] using hhit)
  · have hsame : D.certificates.map CertificateRow.id = d'.certificates.map CertificateRow.id :=
      map_changeWhere fun _ => rfl
    exact hsame.symm ▸ hi.ids
  · have hsame : D.certificates.map CertificateRow.token = d'.certificates.map CertificateRow.token :=
      map_changeWhere fun _ => rfl
    exact hsame.symm ▸ hi.tokens
  · intro c₁ hc₁ c₂ hc₂ hissued₁ hissued₂ heq
    obtain ⟨b₁, hb₁, hid₁, henrollment₁, hsame₁⟩ := hmem c₁ hc₁
    obtain ⟨b₂, hb₂, hid₂, henrollment₂, hsame₂⟩ := hmem c₂ hc₂
    obtain rfl := hsame₁ hissued₁
    obtain rfl := hsame₂ hissued₂
    exact hi.single _ hb₁ _ hb₂ hissued₁ hissued₂ heq
  · obtain ⟨c, hc, -, henrollment, -⟩ := hmem c' hc'
    exact henrollment ▸ hi.completed hfinal c hc

/-! ## Results -/

/-- A result changes the row of its enrollment only. -/
theorem keeps_recordResult (env : Cohorts.Env) (id : Uuid) (input : Cohorts.EnrollmentsService.RecordResultValues)
    (expectedVersion : ℕ) (grants : List Grant) :
    (Cohorts.EnrollmentsService.recordResult env id input expectedVersion grants).Keeps
      fun d => d.enrollments.filter fun e => e.id != id := by
  have hrows : ∀ status d, (Cohorts.enrollmentsTable.bump id (Cohorts.EnrollmentsService.resultRow env status input)
      d).enrollments.filter (fun e => e.id != id) = d.enrollments.filter fun e => e.id != id := by
    intro status d
    set F : Cohorts.EnrollmentRow → Cohorts.EnrollmentRow := fun e =>
      { Cohorts.EnrollmentsService.resultRow env status input e with version := e.version + 1 }
    have hchange : (changeWhere (fun e => e.id == id) F d.enrollments).filter (fun e => e.id != id) =
        changeWhere (fun e => e.id == id) F (d.enrollments.filter fun e => e.id != id) :=
      filter_changeWhere fun _ => rfl
    refine hchange.trans (changeWhere_of_forall fun e he => ?_)
    simpa using (List.mem_filter.1 he).2
  refine .bind (.bind .get fun _ => .expect _ _) fun found => .bind (Cohorts.keeps_cohortRow _ _) fun cohort => ?_
  refine .bind (Cohorts.keeps_findWithDepartment _) fun course? => .bind (.expect _ _) fun course => ?_
  refine .bind (.require _ _) fun _ => .bind (.require _ _) fun _ => ?_
  have hwrite : ∀ status, (updateWithVersion Cohorts.enrollmentsTable id expectedVersion
      (Cohorts.EnrollmentsService.resultRow env status input) >>= fun result =>
        (versionedRow result Cohorts.cohortErrors.enrollmentNotFound >>= fun updated => do
          Cohorts.EnrollmentsService.checkResult input
          let presented ← Cohorts.present [updated.id]
          Prog.expect presented.head? Cohorts.cohortErrors.enrollmentNotFound)).Keeps
      fun d : Cohorts.Db => d.enrollments.filter fun e => e.id != id := by
    intro status
    rw [← bind_assoc]
    refine .bind (keeps_versioned Cohorts.enrollmentsTable (hrows status)) fun updated => ?_
    exact .bind (Cohorts.keeps_checkResult _) fun _ => .bind (Cohorts.keeps_present _) fun presented => .expect _ _
  cases Cohorts.evaluateCompletion course.course input.score input.attendancePercent with
  | incomplete missing => exact .bind (.throw _) hwrite
  | passed | failed => exact .bind (.pure _) hwrite

theorem recordResult_safe (env : Cohorts.Env) (id' : Uuid) (input : Cohorts.EnrollmentsService.RecordResultValues)
    (expectedVersion : ℕ) (grants : List Grant) {Ok : Set Lock → Db → Prop} (hd : CertificateInv final d)
    (hok : final → ∀ S d, Ok S d → (CertificateCall.recordResult env id' input expectedVersion grants).permitted d) :
    (certificateProtocol final).wp ((certificateProtocol final).DoneIf Ok fun _ _ _ => True) Anyway
      (CertificateCall.recordResult env id' input expectedVersion grants).code ∅ id d := by
  have hkeeps : (inCohorts (Cohorts.EnrollmentsService.recordResult env id' input expectedVersion grants)).Keeps
      fun d => (d.certificates, d.numbering, d.cohorts.enrollments.filter fun e => e.id != id') :=
    .zoom (keeps_recordResult env id' input expectedVersion grants) fun c d hc => by simp only [hc]
  rw [CertificateCall.code, wp_map]
  refine wp_of_keeps hkeeps hd fun _ S g d₁ _ hg _ _ d' _ hi hpermitted => ?_
  have hrows : (g d').certificates = d'.certificates := congrArg Prod.fst (hg d')
  have hnumbering : (g d').numbering = d'.numbering := congrArg (fun x => x.2.1) (hg d')
  have henrollments : (g d').cohorts.enrollments.filter (fun e => e.id != id') =
      d'.cohorts.enrollments.filter fun e => e.id != id' := congrArg (fun x => x.2.2) (hg d')
  -- The enrollment that gets the result is not one of those that have been completed.
  have hcompleted : final → ∀ i, Completed d' i → Completed (g d') i := by
    rintro hfinal i ⟨e, he, hid, hstatus⟩
    have hother : e.id ≠ id' := by
      intro heq
      simp [hok hfinal _ _ hpermitted e he heq] at hstatus
    have hmem : e ∈ (g d').cohorts.enrollments.filter fun e => e.id != id' := by
      rw [henrollments]
      exact List.mem_filter.2 ⟨he, by simpa using hother⟩
    exact ⟨e, (List.mem_filter.1 hmem).1, hid, hstatus⟩
  refine ⟨⟨congrArg _ hnumbering, ?_, hcompleted⟩, ⟨?_, ?_, ?_, ?_, fun hfinal c hc => ?_⟩, trivial⟩
  · exact hrows ▸ .refl fun _ => .inl rfl
  · exact hnumbering ▸ hi.institution
  · exact hrows ▸ hi.ids
  · exact hrows ▸ hi.tokens
  · exact hrows ▸ hi.single
  · exact hcompleted hfinal _ (hi.completed hfinal c (hrows ▸ hc))

theorem code_safe (q : CertificateCall) {Ok : Set Lock → Db → Prop} (hok : final → ∀ S d, Ok S d → q.permitted d)
    (hd : CertificateInv final d) :
    (certificateProtocol final).wp ((certificateProtocol final).DoneIf Ok fun _ _ _ => True) Anyway q.code ∅ id d := by
  cases q with
  | issue => exact issue_safe _ _ _
  | revoke => exact revoke_safe _ _ _ _ _ hok
  | recordResult => exact recordResult_safe _ _ _ _ _ hd hok

/-! ## Every interleaving -/

/-- Whoever scans the certificate's code is told that it is valid. -/
def Verified (env : Env) (d : Db) (c : CertificateRow) : Prop :=
  ∃ v, ((VerificationService.verify env c.token).alone d).1 = .ok v ∧ v.status = .valid

theorem verified_iff (env : Env) (hd : CertificateInv final d) {c : CertificateRow} (hc : c ∈ d.certificates) :
    Verified env d c ↔ c.status = .issued := by
  have hfind : (d.certificates.find? fun c' => c'.token == c.token) = some c := by
    cases hfound : d.certificates.find? fun c' => c'.token == c.token with
    | none => exact absurd (List.find?_eq_none.1 hfound c hc) (by simp)
    | some c' =>
        have htoken : c'.token = c.token := by simpa using List.find?_some hfound
        rw [eq_of_key_eq hd.tokens (List.mem_of_find?_eq_some hfound) hc htoken]
  have hjudged : (VerificationService.verify env c.token).wlp
      (fun v _ => v.status = .valid ↔ c.status = .issued) (fun _ => False) d := by
    simp only [VerificationService.verify, institution, today, localDate, inSettings, Numbering.institutionRow,
      Prog.zoom_bind, Prog.zoom_get, Prog.zoom_expect, bind_map_left, bind_assoc, pure_bind, Prog.wlp_bind,
      Prog.wlp_get, Prog.wlp_expect, hfind, Prog.wlp_pure]
    refine ⟨fun inst _ => ⟨fun inst' _ => ?_, hd.institution⟩, hd.institution⟩
    cases hstatus : c.status <;> simp [VerificationService.ofCertificate, hstatus]
  rcases Prog.alone_cases hjudged with ⟨v, d', hanswer, hiff⟩ | ⟨e, -, hfalse⟩
  · rw [← hiff, Verified, hanswer]
    exact ⟨by rintro ⟨v', ⟨⟩, hvalid⟩; exact hvalid, fun hvalid => ⟨v, rfl, hvalid⟩⟩
  · exact hfalse.elim

theorem certificates_sound {ι : Type} [DecidableEq ι]
    {start w : World ι CertificateCall Db Lock Error (Option Certificate)} {Ok : CertificateCall → Set Lock → Db → Prop}
    (hok : final → ∀ q S d, Ok q S d → q.permitted d)
    (hsound : (certificateProtocol final).SoundIf Ok (fun _ _ _ _ => True) (fun _ _ _ => True) start)
    (hw : Permitted CertificateCall.code Ok start w) :
    (certificateProtocol final).SoundIf Ok (fun _ _ _ _ => True) (fun _ _ _ => True) w := by
  refine hsound.permitted (fun q d hd => ?_) hw
  refine wp_mono (X := Anyway) (fun _ _ _ _ h => h) (fun _ _ _ _ _ _ _ => trivial) ?_
  exact code_safe q (fun hfinal S d hq => hok hfinal q S d hq) hd

/-- In every run an enrollment has one certificate in force at most, the public check says
valid of exactly those that are, and what is revoked never comes back. Where requests write
only to rows that are still in the status they have seen, certificates are for completed
enrollments and a revoked one never changes. -/
theorem certificates_final {ι : Type} [DecidableEq ι]
    {start : World ι CertificateCall Db Lock Error (Option Certificate)} (hidle : start.Idle)
    (hstart : CertificateInv True start.db) :
    (∀ w, Reachable CertificateCall.code start w →
      (∀ c ∈ w.db.certificates, ∀ c' ∈ w.db.certificates, c.status = .issued → c'.status = .issued →
        c.enrollmentId = c'.enrollmentId → c = c') ∧
      (∀ env, ∀ c ∈ w.db.certificates, Verified env w.db c ↔ c.status = .issued) ∧
      ∀ c ∈ w.db.certificates, c.status = .revoked → ∀ w', Reachable CertificateCall.code w w' →
        ∃ c' ∈ w'.db.certificates, c'.id = c.id ∧ c'.token = c.token ∧ c'.status = .revoked) ∧
    ∀ w, Permitted CertificateCall.code (fun q _ d => q.permitted d) start w →
      (∀ c ∈ w.db.certificates, Completed w.db c.enrollmentId) ∧
      ∀ c ∈ w.db.certificates, c.status = .revoked → ∀ w',
        Permitted CertificateCall.code (fun q _ d => q.permitted d) w w' → c ∈ w'.db.certificates := by
  have hany : CertificateInv False start.db :=
    ⟨hstart.institution, hstart.ids, hstart.tokens, hstart.single, fun hfalse => hfalse.elim⟩
  have hanyone : ∀ q S (d : Db), (fun (_ : CertificateCall) (_ : Set Lock) (_ : Db) => True) q S d :=
    fun _ _ _ => trivial
  refine ⟨fun w hw => ?_, fun w hw => ?_⟩
  · have hsound := certificates_sound (fun hfalse => hfalse.elim) (.of_idle hidle hany)
      (hw.permitted CertificateCall.code hanyone)
    refine ⟨fun c hc c' hc' hissued hissued' heq => ?_, fun env c hc => verified_iff env hsound.inv hc,
      fun c hc hrevoked w' hw' => ?_⟩
    · exact eq_of_key_eq hsound.inv.ids hc hc' (hsound.inv.single c hc c' hc' hissued hissued' heq)
    · induction hw' with
      | start => exact ⟨c, hc, rfl, rfl, hrevoked⟩
      | @step w₁ lab w₂ hw₁ hstep ih =>
          obtain ⟨c₁, hc₁, hid, htoken, hrevoked₁⟩ := ih
          have hsound₁ := certificates_sound (fun hfalse => hfalse.elim) hsound
            (hw₁.permitted CertificateCall.code hanyone)
          rcases hsound₁.change (fun _ _ _ _ _ _ => trivial) hstep with hdb | ⟨S, hguar⟩
          · exact ⟨c₁, hdb ▸ hc₁, hid, htoken, hrevoked₁⟩
          · obtain ⟨c₂, hc₂, hmove⟩ := hguar.certificates.kept c₁ hc₁
            exact ⟨c₂, hc₂, hmove.id.trans hid, hmove.token.trans htoken, hmove.revoked hrevoked₁⟩
  · have hsound := certificates_sound (fun _ _ _ _ hq => hq) (.of_idle hidle hstart) hw
    refine ⟨hsound.inv.completed trivial, fun c hc hrevoked w' hw' => ?_⟩
    induction hw' with
    | start => exact hc
    | @step w₁ lab w₂ hw₁ hok hstep ih =>
        have hsound₁ := certificates_sound (fun _ _ _ _ hq => hq) hsound hw₁
        rcases hsound₁.change hok hstep with hdb | ⟨S, hguar⟩
        · exact hdb ▸ ih
        · obtain ⟨c₂, hc₂, hmove⟩ := hguar.certificates.kept c ih
          exact hmove.final_of_revoked trivial hrevoked ▸ hc₂

/-! ## A certificate is replaced -/

/-- One student who has completed a course. -/
def graduated : Db where
  cohorts :=
    { cohorts := [⟨1, "A1", 5, none, 1, 1, none, 1, 0, 30, 10, .completed, 1⟩]
      enrollments := [⟨11, 7, 1, .completed, none, some 0, none, none, none, none, some 0, 2⟩]
      programs := [⟨6, 9⟩] }
  numbering := { institution := some ⟨"UTC", ⟨1, 1⟩⟩ }
  students := [⟨7, ['7'], ['A'], ['B'], none, 1, .active⟩]
  courses := [⟨5, 6, ['C'], true⟩]

theorem graduated_inv : CertificateInv True graduated := by constructor <;> simp [graduated]

def registry : List Grant := [⟨.certificatesIssue, .global⟩, ⟨.certificatesRead, .global⟩]

def issueCall (n : ℕ) : CertificateCall := .issue { newId := n, token := [Char.ofNat (n + 65)] } 11 registry

def revokeCall (now : Instant) (reason : Str) (expectedVersion : ℕ) : CertificateCall :=
  .revoke { now := now } 1 reason expectedVersion registry

abbrev Registry := Duo CertificateCall Db Lock Error (Option Certificate)

def registryOffice : Registry := Duo.idle graduated

/-- What the public check depends on. -/
def standing (d : Db) : List (Uuid × CertificateState × Option Instant × Option Str) :=
  d.certificates.map fun c => (c.id, c.status, c.revokedAt, c.revokedReason)

/-- A certificate is issued, revoked and issued again. -/
def reissues : List (Move CertificateCall) :=
  [.begins true (issueCall 1), .turns true 40, .begins true (revokeCall 20 ['r'] 1), .turns true 20,
    .begins true (issueCall 2), .turns true 40]

/-- The second certificate is in force, and the revocation of the first one is as it was. -/
theorem certificates_final_reissued :
    let w := (registryOffice.play CertificateCall.code reissues).world
    standing w.db = [(1, .revoked, some 20, some ['r']), (2, .issued, none, none)] ∧
      (∀ env, ∀ c ∈ w.db.certificates, Verified env w.db c ↔ c.status = .issued) ∧
      ∀ c ∈ w.db.certificates, Completed w.db c.enrollmentId := by
  intro w
  have hidle : registryOffice.world.Idle := fun _ => rfl
  have hfinal := certificates_final hidle graduated_inv
  have hmay : Duo.playOk CertificateCall.code (fun q _ d => decide (q.permitted d)) registryOffice reissues = true := by
    decide +kernel
  have hpermitted : Permitted CertificateCall.code (fun q _ d => q.permitted d) registryOffice.world w :=
    Duo.play_permitted CertificateCall.code (fun q held d hok => of_decide_eq_true hok) registryOffice reissues hmay
  have hreach := hpermitted.reachable CertificateCall.code
  exact ⟨by decide +kernel, (hfinal.1 w hreach).2.1, (hfinal.2 w hpermitted).1⟩

/-- A certificate is revoked twice at once, the second time with the version that the
first one gives it. -/
def revokedTwice : Registry :=
  registryOffice.play CertificateCall.code
    [.begins true (issueCall 1), .turns true 40, .begins false (revokeCall 30 ['s'] 2), .turns false 2,
      .begins true (revokeCall 20 ['r'] 1), .turns true 20]

/-- The time and the reason of the revocation change. -/
theorem revocation_overwritten : CertificateInv True registryOffice.db ∧
    Reachable CertificateCall.code registryOffice.world revokedTwice.world ∧
    standing revokedTwice.db = [(1, .revoked, some 20, some ['r'])] ∧
    ∃ w', Reachable CertificateCall.code revokedTwice.world w' ∧
      standing w'.db = [(1, .revoked, some 30, some ['s'])] := by
  refine ⟨graduated_inv, Duo.play_reachable CertificateCall.code registryOffice _, by decide +kernel, ?_⟩
  exact ⟨_, Duo.play_reachable CertificateCall.code revokedTwice [.turns false 20], by decide +kernel⟩

end Emis.Documents
