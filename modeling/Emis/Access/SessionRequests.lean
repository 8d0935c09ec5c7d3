import Emis.Access.Sessions

/-!
# The requests keep to what they may do with sessions
-/

namespace Emis.Access.Sessions

open Transactions Protocol Identity SessionsService

variable {q : Call} {S : Set Lock} {d d' : Db} {f : Db → Db}

/-! ## Writes -/

theorem own_of_same (hd : Inv d) (h : d'.sessions = d.sessions) : Own q S d d' ∧ Inv d' := by
  refine ⟨?_, ?_, ?_, ?_⟩
  · rw [Own, h]
    exact Own.refl d
  · exact h ▸ hd.ids
  · exact h ▸ hd.hashes
  · exact h ▸ hd.limits

/-- Rows that keep their tokens change. -/
theorem own_of_change {hit : SessionRow → Bool} {g : SessionRow → SessionRow} (hd : Inv d)
    (hg : ∀ s ∈ d.sessions, hit s = true → SessionStep q S s (g s) ∧
      (g s).idleExpiresAt ≤ (g s).absoluteExpiresAt)
    (hid : ∀ s, (g s).id = s.id) (htoken : ∀ s, (g s).tokenHash = s.tokenHash) :
    Own q S d { d with sessions := changeWhere hit g d.sessions } ∧
      Inv { d with sessions := changeWhere hit g d.sessions } := by
  have hids : (changeWhere hit g d.sessions).map SessionRow.id = d.sessions.map SessionRow.id :=
    map_changeWhere hid
  have hhashes : (changeWhere hit g d.sessions).map SessionRow.tokenHash =
      d.sessions.map SessionRow.tokenHash := map_changeWhere htoken
  refine ⟨.changeWhere .refl fun s hs hhit => (hg s hs hhit).1, ?_, ?_, fun s' hs' => ?_⟩
  · exact hids ▸ hd.ids
  · exact hhashes ▸ hd.hashes
  · obtain ⟨s, hs, rfl⟩ := mem_changeWhere.1 hs'
    split
    · exact (hg s hs ‹_›).2
    · exact hd.limits s hs

theorem own_of_revoke {hit : SessionRow → Bool} (env : Env) (reason : String) (hd : Inv d)
    (hhit : ∀ s, hit s = true → s.revokedAt = none) :
    Own q S d { d with sessions := changeWhere hit (revoked env reason) d.sessions } ∧
      Inv { d with sessions := changeWhere hit (revoked env reason) d.sessions } := by
  refine own_of_change hd (fun s hs h => ⟨?_, hd.limits s hs⟩) (fun _ => rfl) fun _ => rfl
  exact ⟨rfl, rfl, rfl, rfl, fun hsome => (hsome (hhit s h)).elim, .inl rfl⟩

/-- The session gets a token that no other one has. -/
theorem own_of_rotate {sessionId : Uuid} {env : Env} {markMfaVerified : Bool} (hd : Inv d)
    (hhash : q.newHash = some (env.hashToken env.token))
    (hlock : .sessionToken (env.hashToken env.token) ∈ S)
    (hfresh : ∀ s ∈ d.sessions, s.id ≠ sessionId → s.tokenHash ≠ env.hashToken env.token) :
    Own q S d { d with
      sessions := changeWhere (fun s => s.id == sessionId) (rotated env markMfaVerified) d.sessions } ∧
    Inv { d with
      sessions := changeWhere (fun s => s.id == sessionId) (rotated env markMfaVerified) d.sessions } := by
  have hids : (changeWhere (fun s => s.id == sessionId) (rotated env markMfaVerified) d.sessions).map
      SessionRow.id = d.sessions.map SessionRow.id := map_changeWhere fun _ => rfl
  refine ⟨.changeWhere .refl fun s _ _ => ?_, ?_, ?_, fun s' hs' => ?_⟩
  · exact ⟨rfl, rfl, rfl, rfl, fun _ => rfl, .inr ⟨hlock, hhash⟩⟩
  · exact hids ▸ hd.ids
  · refine nodup_changeWhere hd.ids (fun _ => rfl) hd.hashes (k := env.hashToken env.token)
      (fun _ _ _ => rfl) (fun s hs hmiss => hfresh s hs (by simpa using hmiss)) fun r hr s hs hhit hhit' => ?_
    exact eq_of_key_eq hd.ids hr hs ((by simpa using hhit : r.id = sessionId).trans
      (by simpa using hhit' : s.id = sessionId).symm)
  · obtain ⟨s, hs, rfl⟩ := mem_changeWhere.1 hs'
    split
    · exact hd.limits s hs
    · exact hd.limits s hs

theorem own_of_create {row : SessionRow} (hd : Inv d) (hnew : New q S row)
    (hlimit : row.idleExpiresAt ≤ row.absoluteExpiresAt) (hid : ∀ s ∈ d.sessions, s.id ≠ row.id)
    (htoken : ∀ s ∈ d.sessions, s.tokenHash ≠ row.tokenHash) :
    Own q S d { d with sessions := d.sessions ++ [row] } ∧
      Inv { d with sessions := d.sessions ++ [row] } := by
  refine ⟨.snoc .refl hnew, nodup_snoc hd.ids hid, nodup_snoc hd.hashes htoken, fun s hs => ?_⟩
  rcases List.mem_append.1 hs with hs | hs
  · exact hd.limits s hs
  · obtain rfl : s = row := by simpa using hs
    exact hlimit

/-! ## Statements -/

theorem kept_id : q.view.Kept () S id d := fun d' _ hi => ⟨Own.refl d', hi⟩

/-- Pending writes stay allowed with more locks and later. -/
theorem kept_later {S' : Set Lock} (h : q.view.Kept () S f d) (hS : S ⊆ S') (hr : q.view.Rely S d d') :
    q.view.Kept () S' f d' := h.later (fun hown => Own.mono hS hown) hS hr

theorem kept_write {g : Db → Db} (h : q.view.Kept () S f d)
    (hg : ∀ d', q.view.Rely S d d' → Inv (f d') → Own q S (f d') (g (f d')) ∧ Inv (g (f d'))) :
    q.view.Kept () S (g ∘ f) d := h.write Own.trans hg

theorem wp_revokeWhere (env : Env) (sessionId : Uuid) (p : SessionRow → Bool) (reason : String)
    (h : q.view.Kept () S f d) :
    q.view.wp (fun _ => q.view.Kept ()) Anyway (revokeWhere env sessionId p reason) S f d := by
  refine wp_updateWhere_cases (fun d' hr _ _ => kept_later h subset_rfl hr)
    (fun d' hr _ _ => kept_later h (Set.subset_insert _ _) hr) fun d' hr _ _ => ?_
  refine kept_write (kept_later h (Set.subset_insert _ _) hr) fun d'' _ hi => ?_
  refine own_of_revoke env reason hi fun s hhit => ?_
  simp only [Bool.and_eq_true, Option.isNone_iff_eq_none] at hhit
  exact hhit.2

theorem wp_revokeAllForUser (env : Env) (userId : Uuid) (reason : String) (except : Option Uuid)
    (h : q.view.Kept () S f d) :
    q.view.wp (fun _ => q.view.Kept ()) Anyway (revokeAllForUser env userId reason except) S f d := by
  rw [revokeAllForUser, wp_bind, wp_get]
  intro d₁ hr₁ _
  refine wp_forM _ (fun row S f d hkept => ?_) (kept_later h subset_rfl hr₁)
  rw [wp_bind]
  exact wp_revokeWhere env row.id _ reason hkept

theorem expiries_le (env : Env) (absolute : Option Instant) :
    (expiries env absolute).idle ≤ (expiries env absolute).absolute := min_le_right _ _

theorem wp_create (env : Env) (userId : Uuid) (mfaVerified : Bool)
    (hhash : q.newHash = some (env.hashToken env.token)) :
    q.view.wp (fun _ => q.view.Kept ()) Anyway (create env userId mfaVerified) S id d := by
  simp only [create, wp_bind, wp_acquire, wp_get, wp_require, wp_modify, wp_pure, implies_true, and_true]
  intro d₁ _ _ d₂ hr₂ _ htoken d₃ hr₃ _ d₄ hr₄ _ hid
  set S₁ : Set Lock := insert (.sessionToken (env.hashToken env.token)) S with hS₁
  have hsub : S₁ ⊆ insert (.session env.newSessionId) S₁ := Set.subset_insert _ _
  have hlock : Lock.sessionToken (env.hashToken env.token) ∈ S₁ := Set.mem_insert _ _
  refine kept_write (f := id) kept_id fun d' hr' hi' => ?_
  simp only [id_eq, Bool.not_eq_true', List.any_eq_false, beq_iff_eq] at htoken hid
  refine own_of_create hi' ⟨Set.mem_insert _ _, hsub hlock, hhash⟩ (expiries_le env none) ?_ ?_
  · exact id_fresh (Set.mem_insert _ _) hr' hid
  · intro s hs
    refine token_fresh (p := fun _ => True) hlock (hr₃.trans ((hr₄.trans hr').anti hsub))
      (fun s hs _ => htoken s hs) s hs trivial

theorem wp_authenticate (env : Env) (token : String) :
    q.view.wp (fun _ => q.view.Kept ()) Anyway (authenticate env token) ∅ id d := by
  rw [authenticate, wp_bind, wp_get]
  intro d₁ _ hi₁
  cases hfind : d₁.sessions.find? (opens d₁ env.now (env.hashToken token)) with
  | none =>
      rw [id_eq, hfind]
      exact kept_id
  | some s =>
      rw [id_eq, hfind]
      have hs : s ∈ d₁.sessions := List.mem_of_find?_eq_some hfind
      refine wp_mono (X := Anyway) (fun _ _ _ _ h => h) (fun _ _ _ h => h) ?_
      rw [wp_bind, wp_when]
      refine ⟨fun _ => ?_, fun _ => kept_id⟩
      rw [wp_bind]
      refine wp_updateWhere_cases (fun _ _ _ _ => kept_id) (fun _ _ _ _ => kept_id) fun d₂ hr₂ _ _ => ?_
      refine kept_write (f := id) kept_id fun d' hr' hi' => ?_
      refine own_of_change hi' (fun s' hs' hhit => ?_) (fun _ => rfl) fun _ => rfl
      -- The absolute limit that was read is still the one of the row.
      have habsolute : s'.absoluteExpiresAt = s.absoluteExpiresAt := by
        obtain ⟨s₁, hs₁, hid, habsolute⟩ := session_stays (hr₂.trans (hr'.anti (Set.subset_insert _ _))) hs
        have hid' : s'.id = s.id := by simpa using hhit
        rw [eq_of_key_eq hi'.ids hs' hs₁ (hid'.trans hid.symm)]
        exact habsolute
      refine ⟨⟨rfl, rfl, rfl, rfl, fun _ => rfl, .inl rfl⟩, ?_⟩
      calc (touched env s.absoluteExpiresAt s').idleExpiresAt
          ≤ s.absoluteExpiresAt := expiries_le env (some s.absoluteExpiresAt)
        _ = (touched env s.absoluteExpiresAt s').absoluteExpiresAt := habsolute.symm

theorem wp_rotate (env : Env) (sessionId : Uuid) (markMfaVerified : Bool)
    (hhash : q.newHash = some (env.hashToken env.token)) :
    q.view.wp (fun _ => q.view.Kept ()) Anyway (rotate env sessionId markMfaVerified) ∅ id d := by
  rw [rotate, wp_bind]
  refine wp_updateWhere_cases (fun d₁ hr₁ _ _ => ?_) (fun d₁ hr₁ _ _ => ?_) fun d₁ hr₁ _ _ => ?_
  · rw [wp_bind, wp_when]
    exact ⟨fun h => by simp at h, fun _ => kept_id⟩
  · rw [wp_bind, wp_when]
    exact ⟨fun h => by simp at h, fun _ => kept_id⟩
  · rw [wp_bind, wp_when]
    refine ⟨fun _ => ?_, fun h => by simp at h⟩
    simp only [wp_bind, wp_acquire, wp_get, wp_require, wp_pure, implies_true, and_true]
    intro d₂ _ _ d₃ hr₃ _ hother
    have hlock : Lock.sessionToken (env.hashToken env.token) ∈
        insert (Lock.sessionToken (env.hashToken env.token)) (insert (Lock.session sessionId) ∅) :=
      Set.mem_insert _ _
    refine kept_write (f := id) kept_id fun d' hr' hi' => own_of_rotate hi' hhash hlock ?_
    refine token_fresh (p := fun i => i ≠ sessionId) hlock hr' fun s hs hne => ?_
    have hnone := hother
    simp only [Bool.not_eq_true', List.any_eq_false, Bool.and_eq_true, bne_iff_ne, beq_iff_eq, not_and,
      Function.comp_apply, id_eq] at hnone
    refine hnone s (mem_changeWhere.2 ⟨s, hs, ?_⟩) hne
    simp [hne]

theorem wp_get_kept (userId : Uuid) (h : q.view.Kept () S f d) :
    q.view.wp (fun _ => q.view.Kept ()) Anyway (UsersService.get userId) S f d := by
  simp only [UsersService.get, UsersService.load, wp_bind, wp_get, wp_pure, wp_expect, implies_true, and_true]
  exact fun d₁ hr₁ _ d₂ hr₂ _ _ _ => kept_later h subset_rfl (hr₁.trans hr₂)

theorem wp_setStatus (env : Env) (userId : Uuid) (status : AccountStatus) (actorId : Uuid) (hd : Inv d) :
    q.view.wp (fun _ => q.view.Kept ()) Anyway (UsersService.setStatus env userId status actorId) ∅ id d := by
  have hchange : ∀ {S d}, q.view.wp (fun _ => q.view.Kept ()) Anyway (do
      AccountsService.setStatus userId status
      Prog.when (status == .disabled) (revokeAllForUser env userId "account_disabled")
      UsersService.get userId) S id d := by
    intro S d
    simp only [AccountsService.setStatus, wp_bind, wp_acquire, wp_modify]
    intro d₁ _ _
    have hkept : q.view.Kept () (insert (.account userId) S)
        (Db.changeAccount userId (fun a => { a with status := status }) ∘ id) d₁ :=
      kept_write (f := id) kept_id fun _ _ hi => own_of_same hi rfl
    rw [wp_when]
    refine ⟨fun _ => ?_, fun _ => wp_get_kept userId hkept⟩
    exact wp_mono (X := Anyway) (fun _ _ _ _ h => wp_get_kept userId h) (fun _ _ _ h => h)
      (wp_revokeAllForUser env userId "account_disabled" none hkept)
  rw [UsersService.setStatus, wp_bind, wp_require]
  refine ⟨fun _ => ?_, fun _ => trivial⟩
  rw [wp_bind]
  refine wp_of_reading (keeps_get userId) (takes_get userId) hd fun before d₁ _ hi₁ => ?_
  rw [wp_bind, wp_when]
  refine ⟨fun _ => ?_, fun _ => hchange⟩
  refine wp_of_silent ?_ hi₁ fun _ _ _ _ _ _ => hchange
  exact .bind (.acquire _) fun _ => .bind .get fun _ => .require _ _

/-! ## Every request -/

theorem code_kept (q : Call) (d : Db) (hd : Inv d) :
    q.view.wp (q.view.Done fun _ _ _ => True) (q.view.Failed fun _ _ => True) q.code ∅ id d := by
  cases q with
  | create env userId mfaVerified => exact done_of_kept _ (wp_create env userId mfaVerified rfl)
  | authenticate env token => exact done_of_kept _ (wp_authenticate env token)
  | rotate env sessionId markMfaVerified => exact done_of_kept _ (wp_rotate env sessionId markMfaVerified rfl)
  | revoke env sessionId reason =>
      refine done_of_kept _ ?_
      rw [revoke, wp_bind]
      exact wp_revokeWhere env sessionId _ reason kept_id
  | revokeOwn env userId sessionId reason =>
      exact done_of_kept _ (wp_revokeWhere env sessionId _ reason kept_id)
  | revokeAllForUser env userId reason except =>
      exact done_of_kept _ (wp_revokeAllForUser env userId reason except kept_id)
  | setStatus env userId status actorId => exact done_of_kept _ (wp_setStatus env userId status actorId hd)

theorem code_keeps (q : Call) : q.code.Keeps fun _ : Db => () := by
  have hrevokeAll : ∀ env userId reason except,
      (revokeAllForUser env userId reason except).Keeps fun _ : Db => () := fun _ _ _ _ =>
    .bind .get fun _ => .forM _ fun _ => .bind (.updateWhere _ _ fun _ => rfl) fun _ => .pure _
  cases q with
  | create =>
      exact .map _ <| .bind (.acquire _) fun _ => .bind .get fun _ => .bind (.require _ _) fun _ =>
        .bind (.acquire _) fun _ => .bind .get fun _ => .bind (.require _ _) fun _ =>
          .bind (.modify fun _ => rfl) fun _ => .pure _
  | authenticate env token =>
      refine .map _ (.bind .get fun d => ?_)
      cases d.sessions.find? (opens d env.now (env.hashToken token)) with
      | none => exact .pure _
      | some s =>
          exact .bind (.when _ (.bind (.updateWhere _ _ fun _ => rfl) fun _ => .pure _)) fun _ => .pure _
  | rotate =>
      exact .map _ <| .bind (.updateWhere _ _ fun _ => rfl) fun _ =>
        .bind (.when _ (.bind (.acquire _) fun _ => .bind .get fun _ => .require _ _)) fun _ => .pure _
  | revoke => exact .map _ (.bind (.updateWhere _ _ fun _ => rfl) fun _ => .pure _)
  | revokeOwn => exact .map _ (.updateWhere _ _ fun _ => rfl)
  | revokeAllForUser => exact .map _ (hrevokeAll _ _ _ _)
  | setStatus =>
      refine .map _ (.bind (.require _ _) fun _ => .bind (keeps_get _) fun _ => ?_)
      refine .bind (.when _ (.bind (.acquire _) fun _ => .bind .get fun _ => .require _ _)) fun _ => ?_
      refine .bind (.bind (.acquire _) fun _ => .modify fun _ => rfl) fun _ => ?_
      exact .bind (.when _ (hrevokeAll _ _ _ _)) fun _ => keeps_get _

end Emis.Access.Sessions
