import Emis.Common.Calendar
import Emis.Documents.Certified

/-!
# The dates that verification shows

`issuedOn` is a date of the institution's calendar, stored when the certificate was issued, and
`revokedOn` is cut out of an instant in UTC.
-/

namespace Emis.Documents

open Transactions Protocol CertificatesService

/-- A certificate of a course that was completed at `completedAt`, as it is issued and revoked. -/
structure Dated (zone : Instant → String → Day) (timezone : String) (completedAt : Instant) (c : CertificateRow) :
    Prop where
  completedOn : c.completedOn = zone completedAt timezone
  issued : completedAt ≤ c.issuedAt
  revoked : ∀ revokedAt ∈ c.revokedAt, c.issuedAt ≤ revokedAt

/-- Verification shows the institution's dates, the first not after the second. -/
structure ShowsDates (zone : Instant → String → Day) (timezone : String) (completedAt : Instant) (c : CertificateRow)
    (v : Verification) : Prop where
  issuedOn : v.issuedOn = zone completedAt timezone
  revokedOn : v.revokedOn.map isoDate = c.revokedAt.map fun revokedAt => some (zone revokedAt timezone)
  inOrder : ∀ text ∈ v.revokedOn, ∀ date ∈ isoDate text, v.issuedOn ≤ date

/-- At a revocation the institution has the date of UTC, which is not before the date of completion. -/
def SameDate (zone : Instant → String → Day) (timezone : String) (completedAt : Instant) (c : CertificateRow) : Prop :=
  ∀ revokedAt ∈ c.revokedAt, zone revokedAt timezone = revokedAt / 86400000 ∧ FourDigits (revokedAt / 86400000) ∧
    zone completedAt timezone ≤ zone revokedAt timezone

theorem dateOf_some (date : Instant) : VerificationService.dateOf (some date) = some (dateText (date / 86400000)) := by
  rw [VerificationService.dateOf, Option.map_some, take_toISOString]

theorem showsDates_iff {zone : Instant → String → Day} {timezone : String} {completedAt : Instant} {c : CertificateRow}
    (hc : Dated zone timezone completedAt c) (name : Str) :
    ShowsDates zone timezone completedAt c (VerificationService.ofCertificate name c) ↔
      SameDate zone timezone completedAt c := by
  have hissued : (VerificationService.ofCertificate name c).issuedOn = zone completedAt timezone := hc.completedOn
  have hrevoked : (VerificationService.ofCertificate name c).revokedOn = VerificationService.dateOf c.revokedAt := rfl
  cases hat : c.revokedAt with
  | none =>
      have hnone : (VerificationService.ofCertificate name c).revokedOn = none := by
        rw [hrevoked, hat]
        rfl
      refine iff_of_true ⟨hissued, ?_, ?_⟩ ?_
      · rw [hnone, hat, Option.map_none, Option.map_none]
      · simp [hnone]
      · simp [SameDate, hat]
  | some revokedAt =>
      have htext : (VerificationService.ofCertificate name c).revokedOn = some (dateText (revokedAt / 86400000)) := by
        rw [hrevoked, hat, dateOf_some]
      constructor
      · intro h r hr
        obtain rfl : revokedAt = r := by simpa [hat] using hr
        have hdate := h.revokedOn
        rw [htext, hat, Option.map_some, Option.map_some, Option.some.injEq, isoDate_dateText_iff] at hdate
        have horder := h.inOrder _ htext _ (isoDate_dateText hdate.1)
        rw [hissued, hdate.2] at horder
        exact ⟨hdate.2.symm, hdate.1, horder⟩
      · intro h
        obtain ⟨hzone, hfour, horder⟩ := h revokedAt hat
        refine ⟨hissued, ?_, ?_⟩
        · rw [htext, hat, Option.map_some, Option.map_some, isoDate_dateText hfour, hzone]
        · intro text htext' date hdate
          obtain rfl : dateText (revokedAt / 86400000) = text := by simpa [htext] using htext'
          rw [isoDate_dateText hfour] at hdate
          obtain rfl := Option.some.inj hdate
          rwa [hissued, ← hzone]

/-! ## What is stored -/

theorem Dated.revokedRow {zone : Instant → String → Day} {timezone : String} {completedAt : Instant}
    {c : CertificateRow} (h : Dated zone timezone completedAt c) {env : Env} (hnow : c.issuedAt ≤ env.now)
    (reason : Str) : Dated zone timezone completedAt (revokedRow env reason c) where
  completedOn := h.completedOn
  issued := h.issued
  revoked := by
    intro revokedAt hrevoked
    obtain rfl : env.now = revokedAt := by simpa [CertificatesService.revokedRow] using hrevoked
    exact hnow

/-- What `issue` inserts carries the institution's date of the completion. -/
theorem wlp_issue (env : Env) (enrollmentId : Uuid) (grants : List Grant) (d : Db) :
    (issue env enrollmentId grants).wlp (fun cert d' => ∃ e ∈ d.cohorts.enrollments, e.id = enrollmentId ∧
      ∃ completedAt ∈ e.completedAt, ∃ inst ∈ d'.numbering.institution, ∃ c ∈ d'.certificates,
        cert = toCertificate c ∧ (completedAt ≤ env.now → Dated env.zone inst.timezone completedAt c))
      (fun _ => True) d := by
  simp only [issue, billingContext, Prog.wlp_bind, Prog.wlp_get, Prog.wlp_pure, Prog.wlp_expect, implies_true, and_true]
  intro ctx hctx
  obtain ⟨e, he, hcontext⟩ := Option.bind_eq_some_iff.1 hctx
  obtain ⟨cohort, -, rfl⟩ := Option.map_eq_some_iff.1 hcontext
  refine (keeps_findWithDepartment (φ := fun _ => ()) _).wlp (fun course? d₂ _ => ?_) fun _ => trivial
  simp only [assertScope, Prog.wlp_require, implies_true, and_true]
  intro course _ _ completedAt hstatus _
  have hcompleted : e.completedAt = some completedAt := by
    split at hstatus
    · exact hstatus
    · cases hstatus
  refine (keeps_institution (φ := fun _ => ())).wlp (fun _ d₃ _ => ?_) fun _ => trivial
  refine (Prog.Keeps.when (φ := fun _ => ()) _ (.bind (keeps_balanceForEnrollment _) fun _ => .require _ _)).wlp
    (fun _ d₄ _ => ?_) fun _ => trivial
  refine (keeps_requireExisting (φ := fun _ => ()) _).wlp (fun student d₅ _ => ?_) fun _ => trivial
  have hnext : (inSettings (Numbering.NumberingService.next env.toEnv .certificate none none)).Keeps fun _ => () :=
    .zoom (ψ := fun _ => ()) (.comp (fun _ => ()) (Numbering.keeps_next env.toEnv .certificate none none)) fun _ _ _ => rfl
  refine hnext.wlp (fun issued d₆ _ => ?_) fun _ => trivial
  simp only [localDate, inSettings, Numbering.institutionRow, Prog.zoom_bind, Prog.zoom_get, Prog.zoom_expect,
    bind_map_left, bind_assoc, Prog.wlp_bind, Prog.wlp_get, Prog.wlp_expect, Prog.wlp_pure,
    insertCertificate, Prog.wlp_acquire, Prog.wlp_require, Prog.wlp_modify, implies_true, and_true]
  intro inst hinst _
  refine ⟨e, List.mem_of_find?_eq_some he, by simpa using List.find?_some he, completedAt, hcompleted, inst, hinst, _,
    List.mem_append_right _ (List.mem_singleton_self _), rfl, fun hnow => ⟨rfl, hnow, ?_⟩⟩
  simp [newCertificate]

/-- The token finds its certificate. -/
theorem alone_verify {d : Db} (env : Env) (hd : CertificateInv False d) {c : CertificateRow} (hc : c ∈ d.certificates) :
    ∃ name, ((VerificationService.verify env c.token).alone d).1 = .ok (VerificationService.ofCertificate name c) := by
  have hfind : (d.certificates.find? fun c' => c'.token == c.token) = some c := by
    cases hfound : d.certificates.find? fun c' => c'.token == c.token with
    | none => exact absurd (List.find?_eq_none.1 hfound c hc) (by simp)
    | some c' =>
        have htoken : c'.token = c.token := by simpa using List.find?_some hfound
        rw [eq_of_key_eq hd.tokens (List.mem_of_find?_eq_some hfound) hc htoken]
  have hjudged : (VerificationService.verify env c.token).wlp
      (fun v _ => ∃ name, v = VerificationService.ofCertificate name c) (fun _ => False) d := by
    simp only [VerificationService.verify, institution, today, localDate, inSettings, Numbering.institutionRow,
      Prog.zoom_bind, Prog.zoom_get, Prog.zoom_expect, bind_map_left, bind_assoc, pure_bind, Prog.wlp_bind,
      Prog.wlp_get, Prog.wlp_expect, hfind, Prog.wlp_pure]
    exact ⟨fun inst _ => ⟨fun inst' _ => ⟨_, rfl⟩, hd.institution⟩, hd.institution⟩
  rcases Prog.alone_cases hjudged with ⟨v, d', hanswer, name, rfl⟩ | ⟨e, -, hfalse⟩
  · exact ⟨name, by rw [hanswer]⟩
  · exact hfalse.elim

/-! ## Every run -/

theorem inv_of_reachable {ι : Type} [DecidableEq ι]
    {start w : World ι CertificateCall Db Lock Error (Option Certificate)} (hidle : start.Idle)
    (hstart : CertificateInv False start.db) (hw : Reachable CertificateCall.code start w) :
    CertificateInv False w.db := by
  have hanyone : ∀ q S (d : Db), (fun (_ : CertificateCall) (_ : Set Lock) (_ : Db) => True) q S d :=
    fun _ _ _ => trivial
  exact (certificates_sound (fun hfalse => hfalse.elim) (.of_idle hidle hstart)
    (hw.permitted CertificateCall.code hanyone)).inv

/-- In every state of every run, verification shows the dates of a certificate as the institution
counts them, and in order, exactly if the day of its revocation there was the day in UTC. -/
theorem verify_dates_iff {ι : Type} [DecidableEq ι]
    {start w : World ι CertificateCall Db Lock Error (Option Certificate)} (hidle : start.Idle)
    (hstart : CertificateInv False start.db) (hw : Reachable CertificateCall.code start w) (env : Env)
    {c : CertificateRow} (hc : c ∈ w.db.certificates) {timezone : String} {completedAt : Instant}
    (hdated : Dated env.zone timezone completedAt c) :
    (∃ v, ((VerificationService.verify env c.token).alone w.db).1 = .ok v ∧
      ShowsDates env.zone timezone completedAt c v) ↔ SameDate env.zone timezone completedAt c := by
  obtain ⟨name, hanswer⟩ := alone_verify env (inv_of_reachable hidle hstart hw) hc
  rw [← showsDates_iff hdated name]
  constructor
  · rintro ⟨v, hv, hshows⟩
    rw [hanswer] at hv
    exact Except.ok.inj hv ▸ hshows
  · exact fun hshows => ⟨_, hanswer, hshows⟩

/-! ## Three hours ahead of UTC -/

def addisAbaba (date : Instant) (_ : String) : Day := (date + 10800000) / 86400000

/-- The course was completed at 21:30 UTC of 2026-09-14. -/
def completedLate : Db :=
  { graduated with
    cohorts := { graduated.cohorts with
      enrollments := [⟨11, 7, 1, .completed, none, some 0, none, none, none, none, some 1789421400000, 2⟩] }
    numbering := { institution := some ⟨"Africa/Addis_Ababa", ⟨1, 1⟩⟩ } }

theorem completedLate_inv : CertificateInv False completedLate := by constructor <;> simp [completedLate, graduated]

/-- The certificate is issued at once and revoked at `revokedAt`. -/
def issuedAndRevoked (revokedAt : Instant) : Registry :=
  (Duo.idle completedLate : Registry).play CertificateCall.code
    [.begins true (.issue { newId := 1, token := ['T'], now := 1789421500000, zone := addisAbaba } 11 registry),
      .turns true 40, .begins true (.revoke { now := revokedAt, zone := addisAbaba } 1 ['r'] 1 registry), .turns true 40]

def revokedCertificate (revokedAt : Instant) : CertificateRow :=
  ⟨1, "CERT-2026-00001".toList, 11, 7, 5, ['A', ' ', 'B'], ['C'], 20711, ['T'], .revoked, 1789421500000, some revokedAt,
    some ['r'], 2⟩

theorem revokedCertificate_dated {revokedAt : Instant} (h : 1789421500000 ≤ revokedAt) :
    Dated addisAbaba "Africa/Addis_Ababa" 1789421400000 (revokedCertificate revokedAt) where
  completedOn := by rw [addisAbaba]; rfl
  issued := by
    have hlate : (1789421400000 : Instant) ≤ 1789421500000 := by decide
    exact hlate
  revoked := by
    rintro r hr
    obtain rfl : revokedAt = r := by simpa [revokedCertificate] using hr
    exact h

/-- Revoked at 08:00 UTC of the next day. -/
theorem verify_dates_next_morning :
    let w := (issuedAndRevoked 1789459200000).world
    ∃ v, ((VerificationService.verify { zone := addisAbaba } ['T']).alone w.db).1 = .ok v ∧
      ShowsDates addisAbaba "Africa/Addis_Ababa" 1789421400000 (revokedCertificate 1789459200000) v := by
  intro w
  have hidle : (Duo.idle completedLate : Registry).world.Idle := fun _ => rfl
  have hreach : Reachable CertificateCall.code (Duo.idle completedLate : Registry).world w :=
    Duo.play_reachable CertificateCall.code _ _
  have hc : revokedCertificate 1789459200000 ∈ w.db.certificates := by decide +kernel
  refine (verify_dates_iff hidle completedLate_inv hreach { zone := addisAbaba } hc
    (revokedCertificate_dated (by decide))).2 ?_
  intro revokedAt hrevoked
  obtain rfl : 1789459200000 = revokedAt := by simpa [revokedCertificate] using hrevoked
  exact ⟨by decide, ⟨by decide, by decide⟩, by decide⟩

/-- Revoked at 22:00 UTC of the same day: the certificate is shown as revoked the day before it was issued. -/
theorem revokedOn_before_issuedOn :
    let w := (issuedAndRevoked 1789423200000).world
    let c := revokedCertificate 1789423200000
    let shown := ((VerificationService.verify { zone := addisAbaba } c.token).alone w.db).1
    Reachable CertificateCall.code (Duo.idle completedLate : Registry).world w ∧ c ∈ w.db.certificates ∧
      Dated addisAbaba "Africa/Addis_Ababa" 1789421400000 c ∧
      (∃ v, shown = .ok v ∧ v.issuedOn = 20711 ∧ v.revokedOn.map isoDate = some (some 20710)) ∧
      ¬ ∃ v, shown = .ok v ∧ ShowsDates addisAbaba "Africa/Addis_Ababa" 1789421400000 c v := by
  intro w c shown
  have hreach : Reachable CertificateCall.code (Duo.idle completedLate : Registry).world w :=
    Duo.play_reachable CertificateCall.code _ _
  have hc : c ∈ w.db.certificates := by decide +kernel
  have hdated : Dated addisAbaba "Africa/Addis_Ababa" 1789421400000 c := revokedCertificate_dated (by decide)
  have hdb : CertificateInv False w.db := inv_of_reachable (fun _ => rfl) completedLate_inv hreach
  obtain ⟨name, hshown⟩ := alone_verify { zone := addisAbaba } hdb hc
  refine ⟨hreach, hc, hdated, ⟨_, hshown, rfl, ?_⟩, ?_⟩
  · have htext : (VerificationService.ofCertificate name c).revokedOn = some (dateText 20710) := dateOf_some 1789423200000
    have hread : isoDate (dateText 20710) = some 20710 := isoDate_dateText ⟨by decide, by decide⟩
    rw [htext, Option.map_some, hread]
  · rintro ⟨v, hv, hshows⟩
    obtain rfl : VerificationService.ofCertificate name c = v := Except.ok.inj (hshown.symm.trans hv)
    have hsame := (showsDates_iff hdated name).1 hshows 1789423200000 rfl
    exact absurd hsame.1 (by decide)

end Emis.Documents
