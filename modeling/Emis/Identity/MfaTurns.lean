import Emis.Identity.MfaCalls
import Mathlib.Data.List.Basic

/-!
# What a statement of a call can do
-/

namespace Emis.Identity

open Transactions

/-! ## Statements -/

section Statements

variable {d : Db} {E : Error → Prop}

theorem changeWhere_of_none {ρ : Type} {rows : List ρ} {p : ρ → Bool} {f : ρ → ρ} (h : rows.any p = false) :
    changeWhere p f rows = rows :=
  changeWhere_of_forall fun r hr => Bool.not_eq_true _ ▸ List.any_eq_false.1 h r hr

/-- An update of the factors that meet a condition, of which there may be none. -/
theorem wlp_updateFactors {Φ : Bool → Db → Prop} {l : Lock} {p : FactorRow → Bool} {f : FactorRow → FactorRow}
    (h : Φ (d.factors.any p) { d with factors := changeWhere p f d.factors }) :
    (Prog.updateWhere l (fun d => d.factors.any p) fun d =>
      { d with factors := changeWhere p f d.factors } : Tx Bool).wlp Φ E d := by
  rw [Prog.wlp_updateWhere]
  refine ⟨fun hany => hany ▸ h, fun hnone => ?_⟩
  rwa [changeWhere_of_none hnone, hnone] at h

theorem wlp_updateSessions {Φ : Bool → Db → Prop} {l : Lock} {p : SessionRow → Bool} {f : SessionRow → SessionRow}
    (h : Φ (d.sessions.any p) { d with sessions := changeWhere p f d.sessions }) :
    (Prog.updateWhere l (fun d => d.sessions.any p) fun d =>
      { d with sessions := changeWhere p f d.sessions } : Tx Bool).wlp Φ E d := by
  rw [Prog.wlp_updateWhere]
  refine ⟨fun hany => hany ▸ h, fun hnone => ?_⟩
  rwa [changeWhere_of_none hnone, hnone] at h

theorem wlp_rotate (env : Env) (sessionId : Uuid) (mark : Bool) {Φ : String → Db → Prop} (hE : ∀ e, E e)
    (h : Φ env.token { d with
      sessions := changeWhere (fun s => s.id == sessionId) (SessionsService.rotated env mark) d.sessions }) :
    (SessionsService.rotate env sessionId mark).wlp Φ E d := by
  rw [SessionsService.rotate, SessionsService.changeSession, Prog.wlp_bind]
  refine wlp_updateSessions ?_
  simp only [Prog.wlp_bind, Prog.wlp_when, Prog.wlp_acquire, Prog.wlp_get, Prog.wlp_require, Prog.wlp_pure]
  exact ⟨fun _ => ⟨fun _ => h, fun _ => hE _⟩, fun _ => h⟩

/-- The factors after `setup`. -/
def storedSecret (env : MfaEnv) (userId : Uuid) (secretCiphertext : String) (factors : List FactorRow) :
    List FactorRow :=
  if factors.any fun f => f.userId == userId then
    changeWhere (MfaService.replaceable userId)
      (fun f => { f with secretCiphertext := secretCiphertext, confirmedAt := none, lastUsedTimeStep := none }) factors
  else factors ++ [{ id := env.newFactorId, userId := userId, secretCiphertext := secretCiphertext }]

theorem wlp_storeSecret (env : MfaEnv) (userId : Uuid) (secretCiphertext : String) {Φ : Unit → Db → Prop}
    (h : Φ () { d with factors := storedSecret env userId secretCiphertext d.factors }) :
    (MfaService.storeSecret env userId secretCiphertext).wlp Φ E d := by
  simp only [MfaService.storeSecret, Prog.wlp_bind, Prog.wlp_acquire, Prog.wlp_get, Prog.wlp_ite, Prog.wlp_modify]
  refine ⟨fun hany => ?_, fun hnone => ?_⟩
  · rwa [storedSecret, if_pos hany] at h
  · rwa [storedSecret, if_neg hnone] at h

/-- What `enable` leaves. -/
def enabled (env : MfaEnv) (auth : AuthContext) (factorId : Uuid) (step : ℕ) (d : Db) : Db :=
  { d with
    factors := changeWhere (fun f => f.id == factorId)
      (fun f => { f with confirmedAt := some env.now, lastUsedTimeStep := some step }) d.factors
    recoveryCodes := (d.recoveryCodes.filter fun c => c.userId != auth.userId) ++ MfaService.codeRows env auth.userId
    sessions := changeWhere (fun s => s.id == auth.sessionId) (SessionsService.rotated env.toEnv true) d.sessions }

theorem wlp_enable (env : MfaEnv) (auth : AuthContext) (factorId : Uuid) (step : ℕ)
    {Φ : String × List String → Db → Prop} (hE : ∀ e, E e)
    (h : Φ (env.token, env.codes.map Prod.snd) (enabled env auth factorId step d)) :
    (MfaService.enable env auth factorId step).wlp Φ E d := by
  rw [MfaService.enable, Prog.wlp_bind]
  refine wlp_updateFactors ?_
  simp only [Prog.wlp_bind, Prog.wlp_modify, Prog.wlp_require, Prog.wlp_pure]
  refine ⟨fun _ => wlp_rotate _ _ _ hE h, fun _ => hE _⟩

theorem wlp_consume (env : MfaEnv) (userId : Uuid) (code : String) {Φ : Bool → Db → Prop}
    (h : Φ (d.recoveryCodes.any (MfaService.unusedCode env userId code)) { d with
      recoveryCodes := changeWhere (MfaService.unusedCode env userId code)
        (fun c => { c with usedAt := some env.now }) d.recoveryCodes }) :
    (MfaService.consumeRecoveryCode env userId code).wlp Φ E d := by
  rw [MfaService.consumeRecoveryCode, Prog.wlp_bind, Prog.wlp_get]
  cases hfind : d.recoveryCodes.find? (MfaService.unusedCode env userId code) with
  | none =>
      have hnone : d.recoveryCodes.any (MfaService.unusedCode env userId code) = false := by
        rw [List.any_eq_false]
        exact List.find?_eq_none.1 hfind
      rwa [changeWhere_of_none hnone, hnone] at h
  | some row =>
      have hany : d.recoveryCodes.any (MfaService.unusedCode env userId code) = true :=
        List.any_eq_true.2 ⟨row, List.mem_of_find?_eq_some hfind, List.find?_some hfind⟩
      simp only [Prog.wlp_updateWhere]
      exact ⟨fun _ => hany ▸ h, fun hnone => absurd (hany.symm.trans hnone) (by decide)⟩

/-- How many wrong codes a session has, as `recordMfaFailure` returns it. -/
def attempts (sessionId : Uuid) (d : Db) : ℕ :=
  ((d.sessions.find? fun s => s.id == sessionId).map fun s => s.mfaFailedAttempts + 1).getD MAX_MFA_ATTEMPTS

theorem wlp_recordMfaFailure (sessionId : Uuid) {Φ : ℕ → Db → Prop}
    (h : Φ (attempts sessionId d) { d with
      sessions := changeWhere (fun s => s.id == sessionId)
        (fun s => { s with mfaFailedAttempts := s.mfaFailedAttempts + 1 }) d.sessions }) :
    (SessionsService.recordMfaFailure sessionId).wlp Φ E d := h

theorem wlp_revoke (env : Env) (sessionId : Uuid) (reason : String) {Φ : Unit → Db → Prop}
    (h : Φ () { d with
      sessions := changeWhere (fun s => s.id == sessionId && true && s.revokedAt.isNone)
        (SessionsService.revoked env reason) d.sessions }) :
    (SessionsService.revoke env sessionId reason).wlp Φ E d := by
  rw [SessionsService.revoke, SessionsService.revokeWhere, Prog.wlp_bind]
  exact wlp_updateSessions h

theorem wlp_removeFactor (userId : Uuid) {Φ : Unit → Db → Prop}
    (h : Φ () { d with
      recoveryCodes := d.recoveryCodes.filter fun c => c.userId != userId
      factors := d.factors.filter fun f => f.userId != userId }) :
    (MfaService.removeFactor userId).wlp Φ E d := h

end Statements

/-! ## Turns -/

namespace MfaState

variable {Key : Type} (crypto : Crypto Key) (box : SecretBox Key)

/-- The secret of a factor. -/
def secretOf (f : FactorRow) (userId : Uuid) : Except Error Str :=
  box.decrypt crypto f.secretCiphertext.toList (secretContext userId)

/-- The account's factor is read. -/
def Loads (s : MfaState) (auth : AuthContext) (factor : FactorRow) (seen : ℕ) : Prop :=
  MfaService.loadFactor s.db auth.userId = some factor ∧ seen = s.stored auth.userId

/-- Where a call goes that writes nothing. -/
def Goes (s : MfaState) (auth : AuthContext) : MfaPoint → Prop
  | .enable factor secret seen _ =>
      s.Loads auth factor seen ∧ factor.confirmedAt = none ∧ secretOf crypto box factor auth.userId = .ok secret
  | .claim factor _ => MfaService.loadFactor s.db auth.userId = some factor ∧ factor.confirmedAt.isSome = true
  | .check factor seen _ _ => s.Loads auth factor seen
  | .consume _ | .fail | .remove | .answered (.error _) => True
  | .setup | .confirm _ | .verify _ | .rotate | .revoke | .disable _ _ | .answered (.ok _) => False

/-- What a call leaves to be sealed anew. -/
def Reseals (s : MfaState) (auth : AuthContext) (p : MfaPoint) (r : Resealing) : Prop :=
  ∃ factor secret iv, (s.Loads auth factor r.seen ∨ ∃ password code, p = .check factor r.seen password code) ∧
    secretOf crypto box factor auth.userId = .ok secret ∧
    box.encrypt crypto iv secret (secretContext auth.userId) = .ok r.secretCiphertext ∧
    r.factorId = factor.id ∧ r.userId = auth.userId

inductive Turn (s : MfaState) (i : ℕ) (auth : AuthContext) (env : MfaEnv) : MfaPoint → MfaState → Prop
  | goes {p q rs} : p ≠ .revoke → s.Goes crypto box auth q → (∀ r ∈ rs, s.Reseals crypto box auth p r) →
      Turn s i auth env p { s.goto i auth q with resealings := s.resealings ++ rs }
  | refuses {factor seen password code e rs} :
      (∀ r ∈ rs, s.Reseals crypto box auth (.check factor seen password code) r) →
      Turn s i auth env (.check factor seen password code)
        (note { s.goto i auth (.answered (.error e)) with resealings := s.resealings ++ rs }
          [.wrong i auth.sessionId false])
  | stores {sealed notes} :
      notes = (if (MfaService.loadFactor s.db auth.userId).any fun f => f.confirmedAt.isSome then []
        else [.stored auth.userId]) →
      Turn s i auth env .setup
        ((({ s with db := { s.db with factors := storedSecret env auth.userId sealed s.db.factors } }).goto i auth
          (.answered (.ok (.secret env.secret)))).note notes)
  | enables {factor secret seen step} :
      Turn s i auth env (.enable factor secret seen step)
        ((({ s with db := enabled env auth factor.id step s.db }).goto i auth
          (.answered (.ok (.recoveryCodes env.token (env.codes.map Prod.snd))))).note
          [.accepted i factor.id step, .handed factor.id (MfaService.codeRows env auth.userId), .passed i auth.sessionId])
  | claims {factor step} :
      (s.db.factors.any fun f => f.userId == auth.userId && f.lastUsedTimeStep.all fun t => t < step) = true →
      Turn s i auth env (.claim factor step)
        ((({ s with db := { s.db with
            factors := changeWhere (fun f => f.userId == auth.userId && f.lastUsedTimeStep.all fun t => t < step)
              (fun f => { f with lastUsedTimeStep := some step }) s.db.factors } }).goto i auth .rotate).note
          [.accepted i factor.id step])
  | consumes {code : String} : s.db.recoveryCodes.any (MfaService.unusedCode env auth.userId code) = true →
      Turn s i auth env (.consume code)
        ((({ s with db := { s.db with
            recoveryCodes := changeWhere (MfaService.unusedCode env auth.userId code)
              (fun c => { c with usedAt := some env.now }) s.db.recoveryCodes } }).goto i auth .rotate).note
          ((s.db.recoveryCodes.filter (MfaService.unusedCode env auth.userId code)).map
            fun c : RecoveryCodeRow => .consumed i c.id))
  | rotates :
      Turn s i auth env .rotate
        ((({ s with db := { s.db with
            sessions := changeWhere (fun x => x.id == auth.sessionId) (SessionsService.rotated env.toEnv true)
              s.db.sessions } }).goto i auth (.answered (.ok (.token env.token)))).note [.passed i auth.sessionId])
  | fails :
      Turn s i auth env .fail
        ((({ s with db := { s.db with
            sessions := changeWhere (fun x => x.id == auth.sessionId)
              (fun x => { x with mfaFailedAttempts := x.mfaFailedAttempts + 1 }) s.db.sessions } }).goto i auth
          (if MAX_MFA_ATTEMPTS ≤ attempts auth.sessionId s.db then .revoke
            else .answered (.error authErrors.invalidMfaCode))).note [.wrong i auth.sessionId true])
  | revokes :
      Turn s i auth env .revoke
        (({ s with db := { s.db with
            sessions := changeWhere (fun x => x.id == auth.sessionId && true && x.revokedAt.isNone)
              (SessionsService.revoked env.toEnv "too_many_mfa_attempts") s.db.sessions } }).goto i auth
          (.answered (.error authErrors.unauthenticated)))
  | removes :
      Turn s i auth env .remove
        (({ s with db := { s.db with
            recoveryCodes := s.db.recoveryCodes.filter fun c => c.userId != auth.userId
            factors := s.db.factors.filter fun f => f.userId != auth.userId } }).goto i auth (.answered (.ok .disabled)))

variable {crypto box} {s s' : MfaState} {i : ℕ} {auth : AuthContext} {env : MfaEnv} {p : MfaPoint}

theorem Turn.went {q : MfaPoint} (hp : p ≠ .revoke) (h : s.Goes crypto box auth q) :
    Turn crypto box s i auth env p (s.goto i auth q) := by
  have hturn : Turn crypto box s i auth env p { s.goto i auth q with resealings := s.resealings ++ [] } :=
    .goes hp h (by simp)
  rwa [List.append_nil] at hturn

/-- A statement that goes through, or an error. -/
theorem turn_after {α : Type} {t : Tx α} {goOn : α → MfaPoint} {noted : α → List MfaNote}
    (h : t.wlp (fun a db => Turn crypto box s i auth env p
      ((({ s with db := db }).goto i auth (goOn a)).note (noted a))) (fun _ => p ≠ .revoke) s.db) :
    Turn crypto box s i auth env p (s.after i auth t goOn noted) := by
  unfold after
  rcases Prog.alone_cases h with ⟨a, db, halone, hturn⟩ | ⟨e, halone, he⟩
  · rwa [halone]
  · rw [halone]
    exact .went he trivial

@[simp] theorem note_nil (s : MfaState) : s.note [] = s := by rw [note, List.append_nil]

/-- The factor is opened, and perhaps sealed anew. -/
theorem opened_cases {factor : FactorRow} {seen : ℕ} (iv : Encoded) (goOn : Str → MfaPoint)
    (hread : s.Loads auth factor seen ∨ ∃ password code, p = .check factor seen password code) :
    ∃ q rs, s.opened crypto box i auth iv factor seen goOn =
        { s.goto i auth q with resealings := s.resealings ++ rs } ∧
      (∀ r ∈ rs, s.Reseals crypto box auth p r) ∧
      ((∃ e, q = .answered (.error e)) ∨ ∃ secret, secretOf crypto box factor auth.userId = .ok secret ∧ q = goOn secret) := by
  have hnone : ∀ q, s.goto i auth q = { s.goto i auth q with resealings := s.resealings ++ [] } := by
    intro q
    rw [List.append_nil]
    rfl
  have hsecret : box.decrypt crypto factor.secretCiphertext.toList (secretContext auth.userId) =
      secretOf crypto box factor auth.userId := rfl
  unfold opened
  rw [hsecret]
  cases hopen : secretOf crypto box factor auth.userId with
  | error e => exact ⟨_, [], hnone _, by simp, .inl ⟨e, rfl⟩⟩
  | ok secret =>
      dsimp only
      split
      · exact ⟨_, [], hnone _, by simp, .inr ⟨secret, rfl, rfl⟩⟩
      · cases hsealed : box.encrypt crypto iv secret (secretContext auth.userId) with
        | error e => exact ⟨_, [], hnone _, by simp, .inl ⟨e, rfl⟩⟩
        | ok sealed =>
            refine ⟨_, _, rfl, fun r hr => ?_, .inr ⟨secret, rfl, rfl⟩⟩
            obtain rfl := List.mem_singleton.1 hr
            exact ⟨factor, secret, iv, hread, hopen, hsealed, rfl, rfl⟩

theorem turn_opened {factor : FactorRow} {seen : ℕ} {iv : Encoded} {goOn : Str → MfaPoint}
    (hp : p ≠ .revoke) (hread : s.Loads auth factor seen ∨ ∃ password code, p = .check factor seen password code)
    (hgoes : ∀ secret, secretOf crypto box factor auth.userId = .ok secret → s.Goes crypto box auth (goOn secret)) :
    Turn crypto box s i auth env p (s.opened crypto box i auth iv factor seen goOn) := by
  obtain ⟨q, rs, heq, hrs, hq⟩ : ∃ q rs, s.opened crypto box i auth iv factor seen goOn = _ ∧ _ ∧ _ :=
    opened_cases iv goOn hread
  rw [heq]
  rcases hq with ⟨e, rfl⟩ | ⟨secret, hsecret, rfl⟩
  · exact .goes hp trivial hrs
  · exact .goes hp (hgoes secret hsecret) hrs

theorem loadFactor_confirmed {d : Db} {userId : Uuid} {factor : FactorRow}
    (h : (MfaService.loadFactor d userId).filter (fun f => f.confirmedAt.isSome) = some factor) :
    MfaService.loadFactor d userId = some factor ∧ factor.confirmedAt.isSome = true :=
  Option.filter_eq_some_iff.1 h

theorem continue?_turn (h : s.continue? crypto box i auth env p = some s') : Turn crypto box s i auth env p s' := by
  cases p with
  | setup =>
      simp only [continue?] at h
      split at h
      · obtain rfl := Option.some.inj h
        exact .went (by simp) trivial
      split at h
      · obtain rfl := Option.some.inj h
        exact .went (by simp) trivial
      · obtain rfl := Option.some.inj h
        exact turn_after (wlp_storeSecret env _ _ (.stores rfl))
  | confirm code =>
      simp only [continue?] at h
      split at h
      · obtain rfl := Option.some.inj h
        exact .went (by simp) trivial
      · rename_i factor hload
        split at h
        · obtain rfl := Option.some.inj h
          exact .went (by simp) trivial
        · rename_i hconfirmed
          obtain rfl := Option.some.inj h
          refine turn_opened (by simp) (.inl ⟨hload, rfl⟩) fun secret hsecret => ?_
          cases env.verifyTotp secret code none with
          | none => trivial
          | some step => exact ⟨⟨hload, rfl⟩, by simpa using hconfirmed, hsecret⟩
  | enable factor secret seen step =>
      obtain rfl := Option.some.inj h
      exact turn_after (wlp_enable env auth factor.id step (fun _ => by simp) .enables)
  | verify input =>
      simp only [continue?] at h
      split at h
      · obtain rfl := Option.some.inj h
        exact .went (by simp) trivial
      · rename_i factor hfilter
        obtain ⟨hload, hconfirmed⟩ := loadFactor_confirmed hfilter
        cases input with
        | code code =>
            obtain rfl := Option.some.inj h
            refine turn_opened (by simp) (.inl ⟨hload, rfl⟩) fun secret _ => ?_
            cases env.verifyTotp secret code factor.lastUsedTimeStep with
            | none => trivial
            | some step => exact ⟨hload, hconfirmed⟩
        | recoveryCode code =>
            obtain rfl := Option.some.inj h
            exact .went (by simp) trivial
  | claim factor step =>
      obtain rfl := Option.some.inj h
      refine turn_after (wlp_updateFactors ?_)
      cases hany : s.db.factors.any fun f => f.userId == auth.userId && f.lastUsedTimeStep.all fun t => t < step with
      | true => exact .claims hany
      | false =>
          rw [changeWhere_of_none hany]
          simp only [Bool.false_eq_true, if_false, note_nil]
          exact .went (by simp) trivial
  | consume code =>
      obtain rfl := Option.some.inj h
      refine turn_after (wlp_consume env auth.userId code ?_)
      cases hany : s.db.recoveryCodes.any (MfaService.unusedCode env auth.userId code) with
      | true => exact .consumes hany
      | false =>
          have hnone : s.db.recoveryCodes.filter (MfaService.unusedCode env auth.userId code) = [] :=
            List.filter_eq_nil_iff.2 (List.any_eq_false.1 hany)
          rw [changeWhere_of_none hany, hnone]
          simp only [Bool.false_eq_true, if_false, List.map_nil, note_nil]
          exact .went (by simp) trivial
  | rotate =>
      obtain rfl := Option.some.inj h
      exact turn_after (wlp_rotate _ _ _ (fun _ => by simp) .rotates)
  | fail =>
      obtain rfl := Option.some.inj h
      exact turn_after (wlp_recordMfaFailure _ .fails)
  | revoke =>
      obtain rfl := Option.some.inj h
      refine turn_after (wlp_revoke _ _ _ ?_)
      rw [note_nil]
      exact .revokes
  | disable password code =>
      simp only [continue?] at h
      split at h
      · obtain rfl := Option.some.inj h
        exact .went (by simp) trivial
      split at h
      · obtain rfl := Option.some.inj h
        exact .went (by simp) trivial
      · rename_i factor hfilter
        obtain rfl := Option.some.inj h
        exact .went (by simp) ⟨(loadFactor_confirmed hfilter).1, rfl⟩
  | check factor seen password code =>
      have hsecret : box.decrypt crypto factor.secretCiphertext.toList (secretContext auth.userId) =
          secretOf crypto box factor auth.userId := rfl
      simp only [continue?, hsecret] at h
      cases hopen : secretOf crypto box factor auth.userId with
      | error e =>
          rw [hopen] at h
          obtain rfl := Option.some.inj h
          exact turn_opened (by simp) (.inr ⟨password, code, rfl⟩) fun secret hsecret => by cases hopen.symm.trans hsecret
      | ok secret =>
          rw [hopen] at h
          dsimp only at h
          split at h
          · rename_i hwrong
            obtain rfl := Option.some.inj h
            have hread : s.Loads auth factor seen ∨ ∃ password' code',
                MfaPoint.check factor seen password code = .check factor seen password' code' := .inr ⟨_, _, rfl⟩
            obtain ⟨q, rs, heq, hrs, hq⟩ : ∃ q rs, s.opened crypto box i auth env.iv factor seen (fun secret =>
                if !((s.db.accountById auth.userId).bind AccountRow.passwordHash).any
                    (fun h => env.verifyHash h password) ||
                    (env.verifyTotp secret code factor.lastUsedTimeStep).isNone then
                  .answered (.error authErrors.invalidMfaCode) else .remove) = _ ∧ _ ∧ _ := opened_cases env.iv _ hread
            rw [heq]
            rcases hq with ⟨e, rfl⟩ | ⟨secret', hsecret, rfl⟩
            · exact .refuses hrs
            · obtain rfl := Except.ok.inj (hopen.symm.trans hsecret)
              rw [if_pos (by rw [hwrong, Bool.or_true])]
              exact .refuses hrs
          · rename_i hright
            obtain rfl := Option.some.inj h
            refine turn_opened (by simp) (.inr ⟨password, code, rfl⟩) fun secret' hsecret => ?_
            split
            · trivial
            · trivial
  | remove =>
      obtain rfl := Option.some.inj h
      refine turn_after (wlp_removeFactor auth.userId ?_)
      rw [note_nil]
      exact .removes
  | answered reply => cases h

end MfaState

end Emis.Identity
