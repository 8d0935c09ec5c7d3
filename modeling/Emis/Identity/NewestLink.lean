import Emis.Identity.RetiredLinks

/-!
# Only the newest link works, and once

What holds of every run in which no link comes between a request and its answer.
-/

namespace Emis.Identity.ResetLinks

open Transactions Protocol PasswordService

/-- The account whose password a request sets. -/
def Call.passwordOf (d : Db) : Call → Option Uuid
  | .requestReset .. => none
  | .resetPassword env token _ => (d.resetTokens.find? fun t => t.tokenHash == env.hashToken token).map
      ResetTokenRow.userId
  | .changePassword _ auth _ _ => some auth.userId

theorem code_links (q : Call) (d : Db) (hd : LinkInv d) :
    linkProtocol.wp (linkProtocol.DoneIf q.retired q.links) (linkProtocol.Failed fun _ _ => True)
      q.code ∅ id d := by
  refine wp_mono (X := Anyway) (fun _ _ _ _ h => h) (fun _ _ _ _ _ _ _ => trivial) ?_
  cases q with
  | requestReset env email =>
      rw [Call.code, wp_map]
      exact requestReset_links env email
  | resetPassword env token password =>
      rw [Call.code, wp_map]
      exact resetPassword_links env token password
  | changePassword env auth current new =>
      rw [Call.code, wp_map]
      exact changePassword_links env auth current new hd

section Runs

variable {ι : Type} [DecidableEq ι] {w w₁ w' : World ι Call Db Lock Error Reply}

/-- Every request that has begun keeps the links as it should. -/
abbrev Kept (w : World ι Call Db Lock Error Reply) : Prop :=
  linkProtocol.SoundIf Call.retired Call.links (fun _ _ _ => True) w

theorem kept_of_run (hidle : w.Idle) (hinv : LinkInv w.db)
    (hw : Permitted Call.code Call.retired w w') : Kept w' :=
  SoundIf.permitted (.of_idle hidle hinv) code_links hw

/-- A link that has been used stays so. -/
theorem used_stays (hw : Kept w) (hrun : Permitted Call.code Call.retired w w') :
    Kept w' ∧ ∀ t ∈ w.db.resetTokens, t.usedAt ≠ none → t ∈ w'.db.resetTokens := by
  induction hrun with
  | start => exact ⟨hw, fun _ ht _ => ht⟩
  | @step w₁ lab w₂ hrun hok hstep ih =>
      obtain ⟨hkept, hstays⟩ := ih
      refine ⟨hkept.permitted code_links (.step .start hok hstep), fun t ht hused => ?_⟩
      rcases hkept.change hok hstep with hsame | ⟨S, hguar⟩
      · exact hsame ▸ hstays t ht hused
      · obtain ⟨olds, news, hrows, hsteps, -⟩ := hguar.links
        obtain ⟨t', ht', hlink⟩ := rowwise_exists hsteps (hstays t ht hused)
        rcases hlink.change with rfl | ⟨-, hnone, -⟩
        · exact hrows ▸ List.mem_append_left _ ht'
        · exact (hused hnone).elim

/-- The link of a token that is accepted has not been used. -/
theorem accepted_unused (hw : Kept w) {i : ι} {env : Env} {token password : String} {a : Reply}
    (hstep : Step Call.code w (.answers i (.resetPassword env token password) (.ok a)) w') :
    ∃ link ∈ w.db.resetTokens, link.tokenHash = env.hashToken token ∧ link.usedAt = none ∧
      ∀ t ∈ w'.db.resetTokens, t.userId = link.userId → t.usedAt ≠ none := by
  have hok : ∀ s, w.sessions i = some (.resetPassword env token password, s) →
      (Call.resetPassword env token password).retired s.held w.db := fun _ _ => trivial
  exact hw.answer (.const fun _ _ _ h => h) hok hstep

/-- After a change of the password the account has no open link. -/
theorem passwordOf_closed (hw : Kept w) {i : ι} {q : Call} {a : Reply}
    (hok : ∀ s, w.sessions i = some (q, s) → q.retired s.held w.db)
    (hstep : Step Call.code w (.answers i q (.ok a)) w') {userId : Uuid}
    (huser : q.passwordOf w.db = some userId) :
    ∀ t ∈ w'.db.resetTokens, t.userId = userId → t.usedAt ≠ none := by
  have hlinks := hw.answer (.const fun _ _ _ h => h) hok hstep
  cases q with
  | requestReset => cases huser
  | changePassword env auth current new =>
      obtain rfl : auth.userId = userId := Option.some.inj huser
      exact hlinks
  | resetPassword env token password =>
      obtain ⟨link, hlink, hhash, -, hclosed⟩ := hlinks
      obtain ⟨found, hfind, rfl⟩ := Option.map_eq_some_iff.1 huser
      have hfound : found.tokenHash = env.hashToken token := by simpa using List.find?_some hfind
      obtain rfl : found = link := eq_of_key_eq hw.inv.hashes (List.mem_of_find?_eq_some hfind) hlink
        (hfound.trans hhash.symm)
      exact hclosed

/-- Where no link comes between what a request retires and its commit, and none is
open when a password is changed while signed in: an account has one open link at most,
and after a change of its password no link is accepted that was there before, so that
each is accepted once. -/
theorem newest_link_works_once {start w₂ w₃ : World ι Call Db Lock Error Reply} (hidle : start.Idle)
    (hinv : LinkInv start.db) (hw : Permitted Call.code Call.retired start w) :
    (∀ t ∈ w.db.resetTokens, ∀ t' ∈ w.db.resetTokens, t.userId = t'.userId → t.usedAt = none →
      t'.usedAt = none → t = t') ∧
    ∀ i q a userId, (∀ s, w.sessions i = some (q, s) → q.retired s.held w.db) →
      Step Call.code w (.answers i q (.ok a)) w₁ → q.passwordOf w.db = some userId →
      Permitted Call.code Call.retired w₁ w₂ →
      ∀ j env token password b,
        Step Call.code w₂ (.answers j (.resetPassword env token password) (.ok b)) w₃ →
        (∃ link ∈ w₂.db.resetTokens, link.tokenHash = env.hashToken token ∧ link.usedAt = none) ∧
          ∀ t ∈ w₁.db.resetTokens, t.userId = userId → t.tokenHash ≠ env.hashToken token := by
  have hkept := kept_of_run hidle hinv hw
  refine ⟨hkept.inv.single, fun i q a userId hok hstep huser hrun j env token password b haccept => ?_⟩
  have hstepOk : ∀ i' q' a' s, (Label.answers i q (.ok a) : Label ι Call Error Reply) =
      .answers i' q' (.ok a') → w.sessions i' = some (q', s) → q'.retired s.held w.db := by
    rintro i' q' a' s ⟨rfl, rfl, rfl⟩ hs
    exact hok s hs
  have hkept₁ : Kept w₁ := hkept.permitted code_links (.step .start hstepOk hstep)
  obtain ⟨hkept₂, hstays⟩ := used_stays hkept₁ hrun
  obtain ⟨link, hlink, hhash, hunused, -⟩ := accepted_unused hkept₂ haccept
  refine ⟨⟨link, hlink, hhash, hunused⟩, fun t ht hid hsame => ?_⟩
  have hused := passwordOf_closed hkept hok hstep huser t ht hid
  obtain rfl := eq_of_key_eq hkept₂.inv.hashes (hstays t ht hused) hlink (hsame.trans hhash.symm)
  exact hused hunused

end Runs

/-! ## One account -/

def registrar : Db := {
  accounts := [{ id := 1, email := "r@x", displayName := "R", status := .active, passwordHash := some "old" }]
  sessions := [{ id := 1, userId := 1, tokenHash := "cookie" }] }

def requests (id : Uuid) (token : String) : Call := .requestReset { newTokenId := id, token := token } "r@x"

def resets (token : String) : Call := .resetPassword {} token "a new password"

def signedIn : AuthContext := {
  sessionId := 1, userId := 1, email := "r@x", displayName := "R", mfaEnabled := false, mfaEnforced := false,
  mfaVerified := false, sessionCreatedAt := 0, absoluteExpiresAt := 0, nextStep := .none }

def changes : Call := .changePassword { token := "fresh" } signedIn "old" "a new password"

def Call.retiredAt (q : Call) (held : List Lock) (d : Db) : Bool :=
  match q with
  | .requestReset _ email => d.resetTokens.all fun t =>
      userOf d email != some t.userId || t.usedAt.isSome || held.contains (.resetToken t.id)
  | .resetPassword .. => true
  | .changePassword _ auth _ _ => d.resetTokens.all fun t => t.userId != auth.userId || t.usedAt.isSome

theorem retired_of_retiredAt (q : Call) (held : List Lock) (d : Db) (h : q.retiredAt held d = true) :
    q.retired {l | l ∈ held} d := by
  cases q with
  | resetPassword => trivial
  | requestReset env email =>
      intro t ht huser hnone
      have hall := List.all_eq_true.1 h t ht
      simpa [huser, hnone] using hall
  | changePassword env auth current new =>
      intro t ht huser hnone
      have hall := List.all_eq_true.1 h t ht
      simp [huser, hnone] at hall

abbrev Pair := Duo Call Db Lock Error Reply

def office : Pair := Duo.idle registrar

/-- A link is requested and opened, up to the answer. -/
def opening : List (Move Call) :=
  [.begins true (requests 1 "first"), .turns true 7, .begins true (resets "first"), .turns true 12]

def opened : Pair := office.play Call.code opening

/-- The same once more. The session is revoked by now. -/
def openingAgain : List (Move Call) :=
  [.begins true (requests 2 "second"), .turns true 7, .begins true (resets "second"), .turns true 8]

def openedAgain : Pair := (opened.turn true).play Call.code openingAgain

/-- The second link is open when it is accepted, and the first one is not it. -/
theorem newest_link_works_once_again :
    (∃ link ∈ openedAgain.world.db.resetTokens, link.tokenHash = "second" ∧ link.usedAt = none) ∧
      ∀ t ∈ (opened.turn true).world.db.resetTokens, t.userId = 1 → t.tokenHash ≠ "second" := by
  have hinv : LinkInv registrar := ⟨List.nodup_nil, List.nodup_nil, by simp [registrar]⟩
  have hfirst : Permitted Call.code Call.retired office.world opened.world :=
    Duo.play_permitted Call.code retired_of_retiredAt office opening (by decide +kernel)
  have hsecond : Permitted Call.code Call.retired (opened.turn true).world openedAgain.world :=
    Duo.play_permitted Call.code retired_of_retiredAt (opened.turn true) openingAgain (by decide +kernel)
  have hok : ∀ s, opened.world.sessions true = some (resets "first", s) →
      (resets "first").retired s.held opened.world.db := fun _ _ => trivial
  have hanswers : Step Call.code opened.world (.answers true (resets "first") (.ok .done)) _ :=
    Duo.turn_ret Call.code (S := _) (f := _) rfl
  have haccepts : Step Call.code openedAgain.world (.answers true (resets "second") (.ok .done)) _ :=
    Duo.turn_ret Call.code (S := _) (f := _) rfl
  exact (newest_link_works_once (fun _ => rfl) hinv hfirst).2 true _ _ 1 hok hanswers
    (by decide +kernel) hsecond true _ _ _ _ haccepts

/-- The second request looks before the first one has committed. -/
def race : Pair := office.play Call.code
  [.begins true (requests 1 "first"), .turns true 6, .begins false (requests 2 "second"), .turns false 2,
    .turns true 1, .turns false 5]

/-- A link is requested, and the password is changed while signed in, up to the answer. -/
def changed : Pair := office.play Call.code
  [.begins true (requests 1 "first"), .turns true 7, .begins true changes, .turns true 10]

def reopened : Pair := (changed.turn true).play Call.code [.begins true (resets "first"), .turns true 12]

/-- Two requests in one moment leave two links that work, and a change of the password
while signed in leaves the link that was there. -/
theorem old_link_works :
    (Reachable Call.code office.world race.world ∧
      race.db.resetTokens.map (fun t => (t.tokenHash, t.userId, t.usedAt)) =
        [("first", 1, none), ("second", 1, none)]) ∧
    Reachable Call.code office.world changed.world ∧
      Step Call.code changed.world (.answers true changes (.ok (.token "fresh"))) (changed.turn true).world ∧
      (changed.turn true).db.resetTokens.map ResetTokenRow.tokenHash = ["first"] ∧
      Reachable Call.code (changed.turn true).world reopened.world ∧
      Step Call.code reopened.world (.answers true (resets "first") (.ok .done)) (reopened.turn true).world := by
  refine ⟨⟨Duo.play_reachable Call.code office _, by decide +kernel⟩, ?_⟩
  refine ⟨Duo.play_reachable Call.code office _, Duo.turn_ret Call.code (S := _) (f := _) rfl, ?_⟩
  refine ⟨by decide +kernel, Duo.play_reachable Call.code (changed.turn true) _, ?_⟩
  exact Duo.turn_ret Call.code (S := _) (f := _) rfl

end Emis.Identity.ResetLinks
