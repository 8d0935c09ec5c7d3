import Emis.Access.SessionRequests
import Emis.Library.Evidence
import Emis.Library.Script

/-!
# Sessions are not revived and do not outlive their limit
-/

namespace Emis.Access.Sessions

open Transactions Protocol Identity SessionsService

/-- A look at the store at this moment of the clock accepts the token for the session. -/
structure Accepts (d : Db) (now : Instant) (hash : String) (s : SessionRow) : Prop where
  mem : s ∈ d.sessions
  token : s.tokenHash = hash
  unrevoked : s.revokedAt = none
  idle : now < s.idleExpiresAt
  absolute : now < s.absoluteExpiresAt
  active : ∃ a ∈ d.accounts, a.id = s.userId ∧ a.status = .active

theorem accepts_of_find {d : Db} {now : Instant} {hash : String} {s : SessionRow}
    (h : d.sessions.find? (opens d now hash) = some s) : Accepts d now hash s := by
  have hopens := List.find?_some h
  simp only [opens, Bool.and_eq_true, beq_iff_eq, Option.isNone_iff_eq_none, decide_eq_true_eq,
    List.any_eq_true, gt_iff_lt] at hopens
  obtain ⟨⟨⟨⟨htoken, hunrevoked⟩, hidle⟩, habsolute⟩, hactive⟩ := hopens
  exact ⟨List.mem_of_find?_eq_some h, htoken, hunrevoked, hidle, habsolute, hactive⟩

/-! ## What an answer rests on -/

/-- A token is accepted because of a store that was looked at. -/
def Call.rests (q : Call) (a : Reply) (_ : Set Lock) (D : Set (Set Lock × Db)) (_ : Db → Db) : Prop :=
  match q, a with
  | .authenticate env token, .context (some context) =>
      ∃ x ∈ D, ∃ s, s.id = context.sessionId ∧ Accepts x.2 env.now (env.hashToken token) s
  | _, _ => True

theorem code_rests (q : Call) : q.code.seeing q.rests ∅ ∅ id := by
  cases q with
  | authenticate env token =>
      rw [Call.code, Prog.seeing_map, authenticate, Prog.seeing_bind, Prog.seeing_get]
      intro d
      rw [id_eq]
      cases hfind : d.sessions.find? (opens d env.now (env.hashToken token)) with
      | none => trivial
      | some s =>
          have hkeeps : (Prog.when (env.now - s.lastSeenAt > TOUCH_INTERVAL_MS) (do
              let _ ← changeSession s.id (touched env s.absoluteExpiresAt)) : Tx Unit).Keeps
                fun _ : Db => () := .when _ (.bind (.updateWhere _ _ fun _ => rfl) fun _ => .pure _)
          dsimp only
          rw [Prog.seeing_bind]
          refine Prog.seeing_of_keeps hkeeps fun _ S' D' g _ hD _ => ?_
          rw [Prog.seeing_pure]
          cases d.accountById s.userId with
          | none => trivial
          | some account =>
              exact ⟨(∅, d), hD (Set.mem_insert _ _), s, rfl, accepts_of_find hfind⟩
  | create | rotate | revoke | revokeOwn | revokeAllForUser | setStatus =>
      exact Prog.seeing_of_keeps (code_keeps _) fun _ _ _ _ _ _ _ => trivial

/-! ## Runs -/

section Runs

variable {ι : Type} [DecidableEq ι] {start w w' : World ι Call Db Lock Error Reply}

abbrev Kept (w : World ι Call Db Lock Error Reply) : Prop :=
  SoundAmong Inv Call.view (fun _ _ _ => True) (fun _ _ _ _ => True) (fun _ _ _ => True) w

theorem kept_of_run (hw : Kept w) (hrun : Reachable Call.code w w') : Kept w' := by
  induction hrun with
  | start => exact hw
  | step _ hstep ih =>
      refine ih.step agree (fun i q _ => ?_) (fun _ _ _ _ _ _ _ _ => .inr trivial)
        (fun _ _ _ _ _ _ => trivial) hstep
      exact wp_mono (fun _ _ _ _ hdone d' hr hi _ => hdone d' hr hi) (fun _ _ _ h => h)
        (code_kept q _ ih.inv)

/-- What a step changes is within what the request that answers may do. -/
theorem own_of_step (hidle : start.Idle) (hinv : Inv start.db) (hw : Reachable Call.code start w)
    {lab : Label ι Call Error Reply} (hstep : Step Call.code w lab w') :
    w'.db = w.db ∨ ∃ i q a S, lab = .answers i q (.ok a) ∧ Own q S w.db w'.db := by
  have hwhole : ∀ q : Call, q.code.Whole (id : Db → Db) := fun q => (code_keeps q).whole
  have hkept : Kept w := kept_of_run (.of_idle hidle hinv) hw
  rcases (hstep.oneTransaction _ hwhole (Reachable.oneTransaction _ hwhole hidle hw)).2 with
    hsame | ⟨i, q, a, rfl⟩
  · exact .inl hsame
  · rcases hkept.change agree (fun _ _ _ _ _ _ => trivial) hstep with hsame | ⟨j, q', S, hlab, hown⟩
    · exact .inl hsame
    · obtain ⟨rfl, rfl⟩ : i = j ∧ q = q' := by simpa [Label.publisher?] using hlab
      exact .inr ⟨i, q, a, S, rfl, hown⟩

/-- A session keeps its absolute limit, and a revocation. -/
theorem session_persists (hidle : start.Idle) (hinv : Inv start.db) (hw : Reachable Call.code start w)
    (hrun : Reachable Call.code w w') {s : SessionRow} (hs : s ∈ w.db.sessions) :
    ∃ s' ∈ w'.db.sessions, s'.id = s.id ∧ s'.absoluteExpiresAt = s.absoluteExpiresAt ∧
      (s.revokedAt ≠ none → s'.revokedAt ≠ none) := by
  induction hrun with
  | start => exact ⟨s, hs, rfl, rfl, id⟩
  | step hrun hstep ih =>
      obtain ⟨s', hs', hid, habsolute, hrevoked⟩ := ih
      rcases own_of_step hidle hinv (hw.trans _ hrun) hstep with hsame | ⟨-, q, -, S, -, hown⟩
      · exact ⟨s', hsame ▸ hs', hid, habsolute, hrevoked⟩
      · obtain ⟨s'', hs'', hchange⟩ := hown.kept s' hs'
        refine ⟨s'', hs'', hchange.id.trans hid, hchange.absolute.trans habsolute, fun hsome => ?_⟩
        rw [hchange.revoked (hrevoked hsome)]
        exact hrevoked hsome

/-- Nobody has a token that no request of the run issues. -/
theorem token_gone (hidle : start.Idle) (hinv : Inv start.db) (hw : Reachable Call.code start w)
    {hash : String} (hrun : Permitted Call.code (fun q _ _ => q.newHash ≠ some hash) w w')
    (hgone : ∀ s ∈ w.db.sessions, s.tokenHash ≠ hash) : ∀ s ∈ w'.db.sessions, s.tokenHash ≠ hash := by
  induction hrun with
  | start => exact hgone
  | @step w₁ lab w₂ hrun hok hstep ih =>
      rcases own_of_step hidle hinv (hw.trans _ (hrun.reachable _)) hstep with
        hsame | ⟨i, q, a, S, rfl, hown⟩
      · exact hsame ▸ ih
      · have hother : q.newHash ≠ some hash := by
          cases hstep with
          | ret hi => exact hok i q a _ rfl hi
        intro s' hs'
        rcases hown.made s' hs' with ⟨s, hs, hchange⟩ | hnew
        · rcases hchange.token with hsame | ⟨-, hnew⟩
          · rw [hsame]
            exact ih s hs
          · rintro rfl
            exact hother hnew
        · rintro rfl
          exact hother hnew.token

/-- A step that gives a session another token leaves nobody with the old one. -/
theorem token_replaced (hidle : start.Idle) (hinv : Inv start.db) (hw : Reachable Call.code start w)
    {lab : Label ι Call Error Reply} (hstep : Step Call.code w lab w') {s s' : SessionRow}
    (hs : s ∈ w.db.sessions) (hs' : s' ∈ w'.db.sessions) (hid : s'.id = s.id)
    (htoken : s'.tokenHash ≠ s.tokenHash) : ∀ x ∈ w'.db.sessions, x.tokenHash ≠ s.tokenHash := by
  have hkept : Kept w := kept_of_run (.of_idle hidle hinv) hw
  have hkept' : Kept w' := kept_of_run (.of_idle hidle hinv) (.step hw hstep)
  rcases own_of_step hidle hinv hw hstep with hsame | ⟨i, q, a, S, rfl, hown⟩
  · obtain rfl := eq_of_key_eq hkept.inv.ids (hsame ▸ hs') hs hid
    exact (htoken rfl).elim
  · -- The request issues the new token and no other one.
    have hnew : q.newHash = some s'.tokenHash := by
      rcases hown.made s' hs' with ⟨s₀, hs₀, hchange⟩ | hnew
      · obtain rfl := eq_of_key_eq hkept.inv.ids hs₀ hs (hchange.id.symm.trans hid)
        exact (hchange.token.resolve_left htoken).2
      · exact hnew.token
    have hother : ∀ hash, q.newHash = some hash → hash ≠ s.tokenHash := by
      intro hash hhash
      obtain rfl : s'.tokenHash = hash := Option.some.inj (hnew.symm.trans hhash)
      exact htoken
    intro x hx
    rcases hown.made x hx with ⟨x₀, hx₀, hchange⟩ | hmade
    · rcases hchange.token with hsame | ⟨-, hissued⟩
      · intro hold
        obtain rfl := eq_of_key_eq hkept.inv.hashes hx₀ hs (hsame.symm.trans hold)
        obtain rfl := eq_of_key_eq hkept'.inv.ids hx hs' (hchange.id.trans hid.symm)
        exact htoken hold
      · exact hother _ hissued
    · exact hother _ hmade.token

/-- In every interleaving, and whatever the clock says: the idle limit is at most the
absolute one, which never changes; a token is accepted because of a look, while the
request was served, at a session that had it, was not revoked, was within both limits and
whose account was active; a token that was replaced is accepted at no later look, as long
as nobody issues it again; and a session that was revoked is accepted at no later look. -/
theorem sessions_not_revived (hidle : start.Idle) (hinv : Inv start.db) (hw : Reachable Call.code start w) :
    (∀ s ∈ w.db.sessions, s.idleExpiresAt ≤ s.absoluteExpiresAt) ∧
    (∀ w', Reachable Call.code w w' → ∀ s ∈ w.db.sessions, ∀ s' ∈ w'.db.sessions, s'.id = s.id →
      s'.absoluteExpiresAt = s.absoluteExpiresAt) ∧
    (∀ i env token context w', Step Call.code w (.answers i (.authenticate env token)
        (.ok (.context (some context)))) w' →
      ∃ w₀, Reachable Call.code start w₀ ∧ Serving Call.code i (.authenticate env token) w₀ w ∧
        ∃ s, s.id = context.sessionId ∧ Accepts w₀.db env.now (env.hashToken token) s) ∧
    (∀ lab w₁, Step Call.code w lab w₁ → ∀ s ∈ w.db.sessions, ∀ s₁ ∈ w₁.db.sessions, s₁.id = s.id →
      s₁.tokenHash ≠ s.tokenHash →
      ∀ w₂, Permitted Call.code (fun q _ _ => q.newHash ≠ some s.tokenHash) w₁ w₂ →
        ∀ now s₂, ¬ Accepts w₂.db now s.tokenHash s₂) ∧
    ∀ w', Reachable Call.code w w' → ∀ s ∈ w.db.sessions, s.revokedAt ≠ none →
      ∀ now hash s', s'.id = s.id → ¬ Accepts w'.db now hash s' := by
  have hkept : ∀ {w}, Reachable Call.code start w → Kept w := fun hw =>
    kept_of_run (.of_idle hidle hinv) hw
  refine ⟨(hkept hw).inv.limits, ?_, ?_, ?_, ?_⟩
  · intro w' hrun s hs s' hs' hid
    obtain ⟨s₁, hs₁, hid₁, habsolute, -⟩ := session_persists hidle hinv hw hrun hs
    rw [eq_of_key_eq (hkept (hw.trans _ hrun)).inv.ids hs' hs₁ (hid.trans hid₁.symm)]
    exact habsolute
  · intro i env token context w' hstep
    obtain ⟨S, D, f, hrests, -, hlooked⟩ := answer_traced code_rests hidle hw hstep
    obtain ⟨⟨S₀, d₀⟩, hmem, s, hid, haccepts⟩ := hrests
    obtain ⟨w₀, -, hreach, rfl, -, -, hserving⟩ := hlooked _ hmem
    exact ⟨w₀, hreach, hserving, s, hid, haccepts⟩
  · intro lab w₁ hstep s hs s₁ hs₁ hid htoken w₂ hrun now s₂ haccepts
    have hgone := token_replaced hidle hinv hw hstep hs hs₁ hid htoken
    exact token_gone hidle hinv (.step hw hstep) hrun hgone s₂ haccepts.mem haccepts.token
  · intro w' hrun s hs hrevoked now hash s' hid haccepts
    obtain ⟨s₁, hs₁, hid₁, -, hstays⟩ := session_persists hidle hinv hw hrun hs
    obtain rfl := eq_of_key_eq (hkept (hw.trans _ hrun)).inv.ids haccepts.mem hs₁ (hid.trans hid₁.symm)
    exact hstays hrevoked haccepts.unrevoked

end Runs

/-! ## One session -/

def staff : Db := { accounts := [{ id := 1, email := "r@x", displayName := "R" }] }

abbrev Pair := Duo Call Db Lock Error Reply

def signs : Call := .create { token := "first" } 1 true

def rotates : Call := .rotate { now := 1000, token := "second" } 0 true

def returns : Call := .authenticate { now := 2000 } "second"

/-- A session is created, its token is replaced, and the new one comes back, up to the
answer. -/
def visit : Pair := (Duo.idle staff : Pair).play Call.code
  [.begins true signs, .turns true 6, .begins true rotates, .turns true 7, .begins true returns, .turns true 1]

def cameBack : AuthContext where
  sessionId := 0
  userId := 1
  email := "r@x"
  displayName := "R"
  mfaEnabled := false
  mfaEnforced := false
  mfaVerified := true
  sessionCreatedAt := 0
  absoluteExpiresAt := 43200000
  nextStep := .none

theorem sessions_not_revived_visit :
    ∃ w₀, Reachable Call.code (Duo.idle staff : Pair).world w₀ ∧
      Serving Call.code true returns w₀ visit.world ∧ ∃ s, s.id = 0 ∧ Accepts w₀.db 2000 "second" s := by
  have hinv : Inv staff := ⟨List.nodup_nil, List.nodup_nil, by simp [staff]⟩
  have hrun : Reachable Call.code (Duo.idle staff : Pair).world visit.world :=
    Duo.play_reachable Call.code (Duo.idle staff : Pair) _
  have hanswers : Step Call.code visit.world (.answers true returns (.ok (.context (some cameBack)))) _ :=
    Duo.turn_ret Call.code (S := _) (f := _) rfl
  exact (sessions_not_revived (fun _ => rfl) hinv hrun).2.2.1 true _ _ _ _ hanswers

end Emis.Access.Sessions
