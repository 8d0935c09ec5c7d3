import Emis.Access.Frames
import Emis.Library.Rules

/-!
# Sessions while others change them

What each request may do to the sessions: nobody's limits move apart, the absolute limit
and a revocation stay, and a token comes from the request that issued it.
-/

namespace Emis.Access.Sessions

open Transactions Protocol Identity

inductive Call where
  | create (env : Env) (userId : Uuid) (mfaVerified : Bool)
  | authenticate (env : Env) (token : String)
  | rotate (env : Env) (sessionId : Uuid) (markMfaVerified : Bool)
  | revoke (env : Env) (sessionId : Uuid) (reason : String)
  | revokeOwn (env : Env) (userId sessionId : Uuid) (reason : String)
  | revokeAllForUser (env : Env) (userId : Uuid) (reason : String) (exceptSessionId : Option Uuid)
  | setStatus (env : Env) (userId : Uuid) (status : AccountStatus) (actorId : Uuid)

inductive Reply where
  | created (token : String) (sessionId : Uuid)
  | context (context : Option AuthContext)
  | token (token : String)
  | done
  | revoked (any : Bool)
  | user (user : StaffUser)

def Call.code : Call → Tx Reply
  | .create env userId mfaVerified =>
      (fun r => .created r.1 r.2) <$> SessionsService.create env userId mfaVerified
  | .authenticate env token => .context <$> SessionsService.authenticate env token
  | .rotate env sessionId markMfaVerified => .token <$> SessionsService.rotate env sessionId markMfaVerified
  | .revoke env sessionId reason => (fun _ => .done) <$> SessionsService.revoke env sessionId reason
  | .revokeOwn env userId sessionId reason =>
      .revoked <$> SessionsService.revokeOwn env userId sessionId reason
  | .revokeAllForUser env userId reason except =>
      (fun _ => .done) <$> SessionsService.revokeAllForUser env userId reason except
  | .setStatus env userId status actorId => .user <$> UsersService.setStatus env userId status actorId

/-- The hash of the token that a request issues. -/
def Call.newHash : Call → Option String
  | .create env .. | .rotate env .. => some (env.hashToken env.token)
  | _ => none

/-! ## What a request may do -/

structure Inv (d : Db) : Prop where
  ids : (d.sessions.map SessionRow.id).Nodup
  hashes : (d.sessions.map SessionRow.tokenHash).Nodup
  limits : ∀ s ∈ d.sessions, s.idleExpiresAt ≤ s.absoluteExpiresAt

structure SessionStep (q : Call) (S : Set Lock) (s s' : SessionRow) : Prop where
  id : s'.id = s.id
  userId : s'.userId = s.userId
  createdAt : s'.createdAt = s.createdAt
  absolute : s'.absoluteExpiresAt = s.absoluteExpiresAt
  revoked : s.revokedAt ≠ none → s'.revokedAt = s.revokedAt
  token : s'.tokenHash = s.tokenHash ∨
    .sessionToken s'.tokenHash ∈ S ∧ q.newHash = some s'.tokenHash

structure New (q : Call) (S : Set Lock) (s : SessionRow) : Prop where
  id : .session s.id ∈ S
  locked : .sessionToken s.tokenHash ∈ S
  token : q.newHash = some s.tokenHash

def Own (q : Call) (S : Set Lock) (d d' : Db) : Prop :=
  Evolves (SessionStep q S) (New q S) d.sessions d'.sessions

def Call.view (q : Call) : Protocol Db Lock where
  Inv := Inv
  Guar := Own q
  Intf T d d' := ∃ q' : Call, Own q' T d d'

theorem agree : Agree Inv Call.view fun _ _ _ => True where
  inv _ _ := Iff.rfl
  expects _ hown := ⟨_, hown⟩

section Steps

variable {q : Call} {S S' : Set Lock} {d d' d'' : Db}

theorem SessionStep.refl (s : SessionRow) : SessionStep q S s s :=
  ⟨rfl, rfl, rfl, rfl, fun _ => rfl, .inl rfl⟩

theorem SessionStep.trans {s s' s'' : SessionRow} (h : SessionStep q S s s') (h' : SessionStep q S s' s'') :
    SessionStep q S s s'' where
  id := h'.id.trans h.id
  userId := h'.userId.trans h.userId
  createdAt := h'.createdAt.trans h.createdAt
  absolute := h'.absolute.trans h.absolute
  revoked hrevoked := by
    have hsame := h.revoked hrevoked
    exact (h'.revoked (hsame ▸ hrevoked)).trans hsame
  token := by
    rcases h'.token with hsame | hnew
    · rw [hsame]
      exact h.token
    · exact .inr hnew

theorem New.step {s s' : SessionRow} (h : New q S s) (h' : SessionStep q S s s') : New q S s' where
  id := h'.id ▸ h.id
  locked := h'.token.elim (fun hsame => hsame ▸ h.locked) fun hnew => hnew.1
  token := h'.token.elim (fun hsame => hsame ▸ h.token) fun hnew => hnew.2

theorem Own.refl (d : Db) : Own q S d d := Evolves.refl SessionStep.refl

theorem Own.trans (h : Own q S d d') (h' : Own q S d' d'') : Own q S d d'' :=
  Evolves.trans SessionStep.trans New.step h h'

theorem Own.mono (hS : S ⊆ S') (h : Own q S d d') : Own q S' d d' := by
  have hstep : ∀ {s s'}, SessionStep q S s s' → SessionStep q S' s s' := fun h =>
    ⟨h.id, h.userId, h.createdAt, h.absolute, h.revoked, h.token.imp_right fun hnew => ⟨hS hnew.1, hnew.2⟩⟩
  refine ⟨fun s hs => ?_, fun s' hs' => ?_⟩
  · obtain ⟨s', hs', hchange⟩ := h.kept s hs
    exact ⟨s', hs', hstep hchange⟩
  · rcases h.made s' hs' with ⟨s, hs, hchange⟩ | hnew
    · exact .inl ⟨s, hs, hstep hchange⟩
    · exact .inr ⟨hS hnew.id, hS hnew.locked, hnew.token⟩

end Steps

/-! ## What a request relies on -/

section Rely

variable {q : Call} {S : Set Lock} {d d' : Db}

theorem session_stays (h : q.view.Rely S d d') {s : SessionRow} (hs : s ∈ d.sessions) :
    ∃ s' ∈ d'.sessions, s'.id = s.id ∧ s'.absoluteExpiresAt = s.absoluteExpiresAt := by
  refine h.stable (φ := fun d => ∃ s' ∈ d.sessions, s'.id = s.id ∧
    s'.absoluteExpiresAt = s.absoluteExpiresAt) ?_ ⟨s, hs, rfl, rfl⟩
  rintro d₁ d₂ ⟨-, T, -, q', hown⟩ ⟨s₁, hs₁, hid, habsolute⟩
  obtain ⟨s₂, hs₂, hstep⟩ := hown.kept s₁ hs₁
  exact ⟨s₂, hs₂, hstep.id.trans hid, hstep.absolute.trans habsolute⟩

/-- An id that nobody has stays so while it is locked. -/
theorem id_fresh {sessionId : Uuid} (hlock : .session sessionId ∈ S) (h : q.view.Rely S d d')
    (hd : ∀ s ∈ d.sessions, s.id ≠ sessionId) : ∀ s ∈ d'.sessions, s.id ≠ sessionId := by
  refine h.stable (φ := fun d => ∀ s ∈ d.sessions, s.id ≠ sessionId) ?_ hd
  rintro d₁ d₂ ⟨-, T, hdisj, q', hown⟩ hfresh s' hs'
  rcases hown.made s' hs' with ⟨s, hs, hstep⟩ | hnew
  · exact hstep.id ▸ hfresh s hs
  · rintro rfl
    exact Set.disjoint_left.1 hdisj hlock hnew.id

/-- A token that nobody else has stays so while it is locked. -/
theorem token_fresh {hash : String} {p : Uuid → Prop} (hlock : .sessionToken hash ∈ S)
    (h : q.view.Rely S d d') (hd : ∀ s ∈ d.sessions, p s.id → s.tokenHash ≠ hash) :
    ∀ s ∈ d'.sessions, p s.id → s.tokenHash ≠ hash := by
  refine h.stable (φ := fun d => ∀ s ∈ d.sessions, p s.id → s.tokenHash ≠ hash) ?_ hd
  rintro d₁ d₂ ⟨-, T, hdisj, q', hown⟩ hfresh s' hs' hp
  have hfree : .sessionToken hash ∉ T := Set.disjoint_left.1 hdisj hlock
  rcases hown.made s' hs' with ⟨s, hs, hstep⟩ | hnew
  · rcases hstep.token with hsame | hnew
    · rw [hsame]
      exact hfresh s hs (hstep.id ▸ hp)
    · rintro rfl
      exact hfree hnew.1
  · rintro rfl
    exact hfree hnew.locked

end Rely

end Emis.Access.Sessions
