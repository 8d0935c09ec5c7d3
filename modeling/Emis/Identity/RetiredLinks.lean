import Emis.Identity.ResetLinks

/-!
# Links are retired before the next one

The requests keep the invariant of the reset links where no link comes in between.
-/

namespace Emis.Identity.ResetLinks

open Transactions Protocol PasswordService

/-! ## Links that are retired -/

/-- An open link of a person, with one of these ids. -/
def openAmong (userId : Uuid) (ids : List Uuid) (t : ResetTokenRow) : Bool :=
  ids.contains t.id && t.userId == userId && t.usedAt.isNone

/-- They are used. -/
def retiring (now : Instant) (userId : Uuid) (ids : List Uuid) : Db → Db :=
  useLinks now (openAmong userId ids)

theorem retiring_nil (now : Instant) (userId : Uuid) : retiring now userId [] = id := by
  funext d
  have hrows : changeWhere (openAmong userId []) (used now) d.resetTokens = d.resetTokens :=
    changeWhere_of_forall fun _ _ => by simp [openAmong]
  rw [retiring, useLinks, hrows, id_eq]

theorem retiring_cons (now : Instant) (userId i : Uuid) (ids : List Uuid) :
    useLinks now (fun t => t.id == i && t.userId == userId && t.usedAt.isNone) ∘
      retiring now userId ids = retiring now userId (i :: ids) := by
  funext d
  simp only [Function.comp_apply, retiring, useLinks, changeWhere, List.map_map]
  refine congrArg (fun rows => { d with resetTokens := rows }) (List.map_congr_left fun t _ => ?_)
  have hsome : (used now t).usedAt = some now := rfl
  cases hids : openAmong userId ids t with
  | true =>
      have hcons : openAmong userId (i :: ids) t = true := by
        simp only [openAmong, Bool.and_eq_true, List.contains_cons, Bool.or_eq_true] at hids ⊢
        exact ⟨⟨.inr hids.1.1, hids.1.2⟩, hids.2⟩
      simp [hids, hcons, hsome]
  | false =>
      simp only [Function.comp_apply, hids, Bool.false_eq_true, if_false]
      by_cases hi : t.id = i
      · simp [openAmong, hi]
      · have hcons : openAmong userId (i :: ids) t = openAmong userId ids t := by
          simp [openAmong, hi]
        simp [hcons, hids, hi]

theorem retiring_steps {S : Set Lock} (now : Instant) (userId : Uuid) {ids : List Uuid} (d : Db)
    (hlocks : ∀ i ∈ ids, .resetToken i ∈ S) :
    List.Forall₂ (LinkStep S) d.resetTokens (retiring now userId ids d).resetTokens := by
  refine forall₂_changeWhere.2 fun t _ => ?_
  split
  · rename_i hhit
    simp only [openAmong, Bool.and_eq_true, List.contains_iff_mem, Option.isNone_iff_eq_none] at hhit
    exact ⟨rfl, rfl, rfl, .inr ⟨hlocks _ hhit.1.1, hhit.2, by simp [used]⟩⟩
  · exact .refl t

/-! ## Changes within the guarantee -/

section Effects

variable {S : Set Lock} {d d' : Db}

theorem inv_of_steps (hd : LinkInv d) (hsteps : List.Forall₂ (LinkStep S) d.resetTokens d'.resetTokens) :
    LinkInv d' := by
  have hids : (d'.resetTokens.map ResetTokenRow.id).Nodup := by
    rw [rowwise_map (fun _ _ hstep => hstep.id) hsteps]
    exact hd.ids
  refine ⟨hids, ?_, fun t' ht' u' hu' huser htn hun => ?_⟩
  · rw [rowwise_map (fun _ _ hstep => hstep.tokenHash) hsteps]
    exact hd.hashes
  · -- A link that is open was open, so the two come from one.
    have hopen : ∀ {t t' : ResetTokenRow}, LinkStep S t t' → t'.usedAt = none → t.usedAt = none := by
      intro t t' hstep hnone
      rcases hstep.change with rfl | ⟨-, -, hused⟩
      · exact hnone
      · exact (hused hnone).elim
    obtain ⟨t, ht, hst⟩ := rowwise_exists hsteps.flip ht'
    obtain ⟨u, hu, hsu⟩ := rowwise_exists hsteps.flip hu'
    have htu : t = u := by
      refine hd.single t ht u hu ?_ (hopen hst htn) (hopen hsu hun)
      rw [← hst.userId, ← hsu.userId, huser]
    exact eq_of_key_eq hids ht' hu' (by rw [hst.id, hsu.id, htu])

theorem guar_of_steps (haccounts : Db.identities d' = Db.identities d)
    (hsteps : List.Forall₂ (LinkStep S) d.resetTokens d'.resetTokens) : Guar S d d' :=
  ⟨haccounts, d'.resetTokens, [], by simp, hsteps, by simp⟩

theorem guar_of_same (haccounts : Db.identities d' = Db.identities d)
    (hrows : d'.resetTokens = d.resetTokens) : Guar S d d' :=
  guar_of_steps haccounts (hrows ▸ List.forall₂_same.2 fun t _ => .refl t)

theorem inv_of_same (hd : LinkInv d) (hrows : d'.resetTokens = d.resetTokens) : LinkInv d' :=
  ⟨hrows ▸ hd.ids, hrows ▸ hd.hashes, hrows ▸ hd.single⟩

/-- Everything open is retired before the new link comes. -/
theorem link_issued {now : Instant} {ids : List Uuid} (link : ResetTokenRow) (hd : LinkInv d)
    (haccounts : Db.identities d' = Db.identities d)
    (hrows : d'.resetTokens = (retiring now link.userId ids d).resetTokens ++ [link])
    (hlocks : ∀ i ∈ ids, .resetToken i ∈ S) (hid : .resetToken link.id ∈ S)
    (hhash : .resetTokenHash link.tokenHash ∈ S) (hfresh : ∀ t ∈ d.resetTokens, t.id ≠ link.id)
    (hunused : ∀ t ∈ d.resetTokens, t.tokenHash ≠ link.tokenHash)
    (hretired : ∀ t ∈ d.resetTokens, t.userId = link.userId → t.usedAt = none → t.id ∈ ids) :
    Guar S d d' ∧ LinkInv d' := by
  have hsteps := retiring_steps now link.userId d hlocks
  have hd' : LinkInv (retiring now link.userId ids d) := inv_of_steps hd hsteps
  have hspent : ∀ t ∈ (retiring now link.userId ids d).resetTokens, t.userId = link.userId →
      t.usedAt ≠ none := by
    intro t' ht' huser
    obtain ⟨t, ht, rfl⟩ := mem_changeWhere.1 ht'
    split
    · simp [used]
    · rename_i hmiss
      rw [if_neg hmiss] at huser
      intro hnone
      exact hmiss (by simp [openAmong, hretired t ht huser hnone, huser, hnone])
  have hkept : ∀ t' ∈ (retiring now link.userId ids d).resetTokens,
      t'.id ≠ link.id ∧ t'.tokenHash ≠ link.tokenHash := by
    intro t' ht'
    obtain ⟨t, ht, hstep⟩ := rowwise_exists hsteps.flip ht'
    exact ⟨hstep.id ▸ hfresh t ht, hstep.tokenHash ▸ hunused t ht⟩
  refine ⟨⟨haccounts, _, _, hrows, hsteps, by simp [hid, hhash]⟩, ?_, ?_, ?_⟩
  · rw [hrows]
    exact nodup_snoc hd'.ids fun t ht => (hkept t ht).1
  · rw [hrows]
    exact nodup_snoc hd'.hashes fun t ht => (hkept t ht).2
  · intro t ht t' ht' huser hnone hnone'
    rw [hrows, List.mem_append, List.mem_singleton] at ht ht'
    rcases ht with ht | rfl <;> rcases ht' with ht' | rfl
    · exact hd'.single t ht t' ht' huser hnone hnone'
    · exact (hspent t ht huser hnone).elim
    · exact (hspent t' ht' huser.symm hnone').elim
    · rfl

end Effects

/-! ## The requests -/

section Requests

variable {S : Set Lock} {d : Db} {f : Db → Db}

/-- What an answer says of the links before and after it. -/
def Call.links : Call → Reply → Db → Db → Prop
  | .requestReset .., _, _, _ => True
  | .resetPassword env token _, _, d, d' => ∃ link ∈ d.resetTokens,
      link.tokenHash = env.hashToken token ∧ link.usedAt = none ∧
        ∀ t ∈ d'.resetTokens, t.userId = link.userId → t.usedAt ≠ none
  | .changePassword _ auth _ _, _, _, d' => ∀ t ∈ d'.resetTokens, t.userId = auth.userId → t.usedAt ≠ none

/-- What the loop of `issueToken` has pending: the links it has retired, and every
other one it holds was used by somebody else. -/
structure Retiring (now : Instant) (email : String) (userId : Uuid) (S : Set Lock) (f : Db → Db)
    (d : Db) (ids : List Uuid) : Prop where
  pending : f = retiring now userId ids
  locks : ∀ i ∈ ids, .resetToken i ∈ S
  held : ∀ i, .resetToken i ∈ S → i ∈ ids ∨
    ∀ t ∈ d.resetTokens, t.id = i → t.userId = userId → t.usedAt ≠ none
  owner : userOf d email = some userId

theorem Retiring.rely {now : Instant} {email : String} {userId : Uuid} {ids : List Uuid} {d' : Db}
    (h : Retiring now email userId S f d ids) (hr : linkProtocol.Rely S d d') :
    Retiring now email userId S f d' ids where
  pending := h.pending
  locks := h.locks
  held i hi := (h.held i hi).imp_right fun hused =>
    locked_stays (χ := fun t => t.userId = userId → t.usedAt ≠ none) hi hr hused
  owner := (rely_userOf hr email).trans h.owner

theorem spend_retiring {now : Instant} {email : String} {userId i : Uuid}
    (h : ∃ ids, Retiring now email userId S f d ids) :
    linkProtocol.wp (fun _ S f d => ∃ ids, Retiring now email userId S f d ids) Anyway
      (spend now i (fun t => t.userId == userId) >>= fun _ => (pure () : Tx PUnit)) S f d := by
  obtain ⟨ids, h⟩ := h
  rw [wp_bind, spend]
  refine wp_updateWhere_cases (fun d' hr _ _ => ⟨ids, h.rely hr⟩) (fun d' hr _ hlate => ?_)
    fun d' hr _ _ => ?_
  · obtain ⟨rfl, hlocks, hheld, howner⟩ := h.rely hr
    refine ⟨ids, rfl, fun j hj => .inr (hlocks j hj), fun j hj => ?_, howner⟩
    rcases hj with hj | hj
    · obtain rfl : j = i := by simpa using hj
      by_cases hmem : j ∈ ids
      · exact .inl hmem
      · refine .inr fun t ht hid huser hnone => ?_
        -- The row is not retired, so the second look has seen it as it is.
        have hmiss : openAmong userId ids t = false := by simp [openAmong, hid, hmem]
        have hseen : t ∈ (retiring now userId ids d').resetTokens :=
          mem_changeWhere.2 ⟨t, ht, by simp [hmiss]⟩
        have hhit := List.any_eq_false.1 hlate t hseen
        simp [hid, huser, hnone] at hhit
    · exact hheld j hj
  · obtain ⟨rfl, hlocks, hheld, howner⟩ := h.rely hr
    refine ⟨i :: ids, retiring_cons now userId i ids, fun j hj => ?_, fun j hj => ?_, howner⟩
    · rcases List.mem_cons.1 hj with rfl | hj
      · exact Set.mem_insert _ _
      · exact .inr (hlocks j hj)
    · rcases hj with hj | hj
      · obtain rfl : j = i := by simpa using hj
        exact .inl List.mem_cons_self
      · exact (hheld j hj).imp_left fun hmem => List.mem_cons_of_mem i hmem

theorem issueToken_links (env : Env) (email : String) {userId : Uuid} (huser : userOf d email = some userId) :
    linkProtocol.wp (fun _ => linkProtocol.DoneIf (Call.requestReset env email).retired
      (Call.requestReset env email).links .done) Anyway (issueToken env userId) ∅ id d := by
  rw [issueToken, wp_bind, wp_get]
  intro d₁ hr₁ _
  have hstart : Retiring env.now email userId ∅ id d₁ [] :=
    ⟨(retiring_nil _ _).symm, by simp, fun _ hi => hi.elim, (rely_userOf hr₁ email).trans huser⟩
  rw [wp_bind]
  refine wp_mono (X := Anyway) ?_ (fun _ _ _ h => h)
    (wp_forM _ (fun _ _ _ _ h => spend_retiring h) ⟨[], hstart⟩)
  rintro - S f d₂ ⟨ids, hretiring⟩
  obtain rfl := hretiring.pending
  simp only [wp_bind, wp_acquire, wp_get, wp_require, wp_modify, implies_true, and_true]
  intro d₃ hr₃ _ d₄ hr₄ _ d₅ hr₅ _ hid hhash d' hr' hi' hretired
  set S₁ : Set Lock := insert (.resetToken env.newTokenId) S with hS₁
  set S₂ : Set Lock := insert (.resetTokenHash (env.hashToken env.token)) S₁ with hS₂
  have hsub : S ⊆ S₁ := Set.subset_insert _ _
  have hsub₂ : S₁ ⊆ S₂ := Set.subset_insert _ _
  have hlockId : Lock.resetToken env.newTokenId ∈ S₂ := hsub₂ (Set.mem_insert _ _)
  have hlockHash : Lock.resetTokenHash (env.hashToken env.token) ∈ S₂ := Set.mem_insert _ _
  have hr : linkProtocol.Rely S d₂ d' :=
    hr₃.trans ((hr₄.anti hsub).trans ((hr₅.trans hr').anti (hsub.trans hsub₂)))
  obtain ⟨-, hlocks, hheld, howner⟩ := hretiring.rely hr
  -- The unused hash and id of `d₅` are still unused.
  have hsteps := retiring_steps env.now userId d₅ fun i hi => hlocks i hi
  have hfreshId : ∀ t ∈ d'.resetTokens, t.id ≠ env.newTokenId := by
    refine fun t ht htid => locked_stays (χ := fun _ => False) hlockId hr' (fun t₅ ht₅ htid₅ => ?_) t ht htid
    obtain ⟨t₆, ht₆, hstep⟩ := rowwise_exists hsteps ht₅
    have hnone := hid
    simp only [Bool.not_eq_true', List.any_eq_false, beq_iff_eq] at hnone
    exact hnone t₆ ht₆ (hstep.id.trans htid₅)
  have hfreshHash : ∀ t ∈ d'.resetTokens, t.tokenHash ≠ env.hashToken env.token := by
    refine hash_fresh hlockHash hr' fun t₅ ht₅ hsame => ?_
    obtain ⟨t₆, ht₆, hstep⟩ := rowwise_exists hsteps ht₅
    have hnone := hhash
    simp only [Bool.not_eq_true', List.any_eq_false, beq_iff_eq] at hnone
    exact hnone t₆ ht₆ (hstep.tokenHash.trans hsame)
  have hopen : ∀ t ∈ d'.resetTokens, t.userId = userId → t.usedAt = none → t.id ∈ ids := by
    intro t ht huser' hnone
    have hlock := hretired t ht (howner.trans (congrArg some huser'.symm)) hnone
    have hheldS : Lock.resetToken t.id ∈ S := by
      rcases hlock with hlock | hlock | hlock
      · cases hlock
      · exact (hfreshId t ht (by simpa using hlock)).elim
      · exact hlock
    exact (hheld t.id hheldS).resolve_right fun hused => hused t ht rfl huser' hnone
  let link : ResetTokenRow := ⟨env.newTokenId, userId, env.hashToken env.token,
    env.now + RESET_TOKEN_TTL_MINUTES * 60000, none⟩
  have hissued : ∀ d'' : Db, Db.identities d'' = Db.identities d' →
      d''.resetTokens = (retiring env.now userId ids d').resetTokens ++ [link] →
      Guar S₂ d' d'' ∧ LinkInv d'' := fun d'' haccounts hrows =>
    link_issued link hi' haccounts hrows (fun i hi => hsub₂ (hsub (hlocks i hi))) hlockId
      hlockHash hfreshId hfreshHash hopen
  refine and_assoc.1 ⟨hissued _ ?_ ?_, trivial⟩
  · rfl
  · rfl

theorem requestReset_links (env : Env) (email : String) :
    linkProtocol.wp (fun _ => linkProtocol.DoneIf (Call.requestReset env email).retired
      (Call.requestReset env email).links .done) Anyway (PasswordService.requestReset env email) ∅ id d := by
  rw [PasswordService.requestReset, wp_bind, AccountsService.findByEmail, wp_bind, wp_get]
  intro d₁ hr₁ hi₁
  rw [wp_pure]
  cases haccount : ((d₁.accounts.find? fun a => a.email == email).filter fun a => a.status == .active) with
  | none =>
      rw [id_eq, haccount]
      exact fun d' _ hi' _ => ⟨guar_of_same rfl rfl, hi', trivial⟩
  | some account =>
      rw [id_eq, haccount]
      exact issueToken_links env email (by rw [userOf, haccount, Option.map_some])

/-- What a change of the password leaves alone. -/
def untouched (d : Db) : List ResetTokenRow × List (Uuid × String × AccountStatus) :=
  (d.resetTokens, Db.identities d)

theorem keeps_checkPolicy {τ : Type} {φ : Db → τ} (env : Env) (password : String) (account : AccountRow) :
    (checkPolicy env password account).Keeps φ := by
  rw [checkPolicy]
  split
  · exact .throw _
  · exact .pure _

theorem keeps_changeAccount (userId : Uuid) {g : AccountRow → AccountRow}
    (hg : ∀ a, ((g a).id, (g a).email, (g a).status) = (a.id, a.email, a.status)) (d : Db) :
    untouched (d.changeAccount userId g) = untouched d :=
  congrArg (d.resetTokens, ·) (map_changeWhere hg)

theorem keeps_revokeAllForUser (env : Env) (userId : Uuid) (reason : String) (except : Option Uuid) :
    (SessionsService.revokeAllForUser env userId reason except).Keeps untouched :=
  .bind .get fun _ => .forM _ fun _ => .bind (.updateWhere _ _ fun _ => rfl) fun _ => .pure _

theorem keeps_rotate (env : Env) (sessionId : Uuid) (markMfaVerified : Bool) :
    (SessionsService.rotate env sessionId markMfaVerified).Keeps untouched :=
  .bind (.updateWhere _ _ fun _ => rfl) fun _ =>
    .bind (.when _ (.bind (.acquire _) fun _ => .bind .get fun _ => .require _ _)) fun _ => .pure _

theorem keeps_changePassword (env : Env) (auth : AuthContext) (current new : String) :
    (PasswordService.changePassword env auth current new).Keeps untouched := by
  refine .bind (.bind .get fun _ => .pure _) fun _ => .bind (.expect _ _) fun _ => ?_
  refine .bind (keeps_checkPolicy env new _) fun _ => ?_
  refine .bind (.acquire _) fun _ => .bind (.modify (keeps_changeAccount _ fun _ => rfl)) fun _ => ?_
  exact .bind (keeps_revokeAllForUser env _ _ _) fun _ => keeps_rotate env _ _

theorem changePassword_links (env : Env) (auth : AuthContext) (current new : String) (hd : LinkInv d) :
    linkProtocol.wp (fun token => linkProtocol.DoneIf (Call.changePassword env auth current new).retired
      (Call.changePassword env auth current new).links (.token token)) Anyway
      (PasswordService.changePassword env auth current new) ∅ id d := by
  refine wp_of_keeps (keeps_changePassword env auth current new) hd fun token S g d₁ _ hg _ _ d' _ hi' hused => ?_
  obtain ⟨hrows, haccounts⟩ : (g d').resetTokens = d'.resetTokens ∧ Db.identities (g d') = Db.identities d' :=
    Prod.mk.inj (hg d')
  refine ⟨guar_of_same haccounts hrows, inv_of_same hi' hrows, fun t ht => ?_⟩
  exact hused t (hrows ▸ ht)

/-- The link of a reset is used with what is written for its account. -/
theorem link_spent (now : Instant) {link : ResetTokenRow} {d' : Db} (hd : LinkInv d) (hlink : link ∈ d.resetTokens)
    (hunused : link.usedAt = none) (hlock : .resetToken link.id ∈ S)
    (haccounts : Db.identities d' = Db.identities d)
    (hrows : d'.resetTokens =
      changeWhere (fun t => t.id == link.id && true && t.usedAt.isNone) (used now) d.resetTokens) :
    Guar S d d' ∧ LinkInv d' ∧ ∀ t ∈ d'.resetTokens, t.userId = link.userId → t.usedAt ≠ none := by
  have hsteps : List.Forall₂ (LinkStep S) d.resetTokens d'.resetTokens := by
    rw [hrows]
    refine forall₂_changeWhere.2 fun t _ => ?_
    split
    · rename_i hhit
      simp only [Bool.and_true, Bool.and_eq_true, beq_iff_eq, Option.isNone_iff_eq_none] at hhit
      exact ⟨rfl, rfl, rfl, .inr ⟨hhit.1 ▸ hlock, hhit.2, by simp [used]⟩⟩
    · exact .refl t
  refine ⟨guar_of_steps haccounts hsteps, inv_of_steps hd hsteps, fun t' ht' huser => ?_⟩
  rw [hrows] at ht'
  obtain ⟨t, ht, rfl⟩ := mem_changeWhere.1 ht'
  split
  · simp [used]
  · rename_i hmiss
    rw [if_neg hmiss] at huser
    intro hnone
    obtain rfl := hd.single t ht link hlink huser hnone hunused
    exact hmiss (by simp [hnone])

theorem keeps_afterClaim (env : Env) (userId : Uuid) (password : String) :
    (do
      Prog.acquire (.account userId)
      Prog.modify (Db.changeAccount userId (AccountsService.withPassword env password))
      SessionsService.revokeAllForUser env userId "password_reset" : Tx Unit).Keeps untouched := by
  refine .bind (.acquire _) fun _ => .bind (.modify (keeps_changeAccount _ fun _ => rfl)) fun _ => ?_
  exact keeps_revokeAllForUser env _ _ none

theorem resetPassword_links (env : Env) (token password : String) :
    linkProtocol.wp (fun _ => linkProtocol.DoneIf (Call.resetPassword env token password).retired
      (Call.resetPassword env token password).links .done) Anyway
      (PasswordService.resetPassword env token password) ∅ id d := by
  simp only [PasswordService.resetPassword, findLink, wp_bind, wp_get, wp_pure, wp_expect, implies_true, and_true]
  intro d₁ hr₁ hi₁ found hfound
  obtain ⟨link, hfind, hmap⟩ := Option.bind_eq_some_iff.1 hfound
  obtain ⟨account, -, rfl⟩ := Option.map_eq_some_iff.1 hmap
  have hlink : link ∈ d₁.resetTokens := List.mem_of_find?_eq_some hfind
  have hhash : link.tokenHash = env.hashToken token := by
    have hopen := List.find?_some hfind
    simp only [Bool.and_eq_true, beq_iff_eq] at hopen
    exact hopen.1.1.1
  refine wp_of_reading (keeps_checkPolicy env password account) ?_ hi₁ fun _ d₂ hr₂ hi₂ => ?_
  · rw [checkPolicy]
    split <;> trivial
  rw [applyReset, wp_bind]
  refine wp_updateWhere (fun S' d₃ _ _ _ => ?_) fun d₃ hr₃ hi₃ hhit => ?_
  · rw [wp_bind, wp_require]
    exact ⟨fun h => by simp at h, fun _ => trivial⟩
  · rw [wp_bind, wp_require]
    refine ⟨fun _ => ?_, fun h => by simp at h⟩
    obtain ⟨row, hrow, hrowhit⟩ := List.any_eq_true.1 hhit
    obtain ⟨hrowid, hunused⟩ : row.id = link.id ∧ row.usedAt = none := by simpa using hrowhit
    -- The row that was looked up is the one that is claimed.
    obtain ⟨hrowuser, hrowhash⟩ : row.userId = link.userId ∧ row.tokenHash = link.tokenHash := by
      obtain ⟨kept, hkept, hid, huser, hkepthash⟩ := link_kept (hr₂.trans hr₃) hlink
      obtain rfl := eq_of_key_eq hi₃.ids hrow hkept (hrowid.trans hid.symm)
      exact ⟨huser, hkepthash⟩
    have hlock : Lock.resetToken row.id ∈ insert (Lock.resetToken link.id) (∅ : Set Lock) :=
      hrowid ▸ Set.mem_insert _ _
    refine wp_of_keeps (keeps_afterClaim env link.userId password) hi₃ fun _ S g d₄ hS hg hr₄ _ d' hr' hi' _ => ?_
    have hrow' : row ∈ d'.resetTokens :=
      link_stays hlock (hr₄.trans (hr'.anti hS)) hi₃ hrow
    obtain ⟨hrows, haccounts⟩ := Prod.mk.inj (hg (useLinks env.now _ d'))
    obtain ⟨hguar, hinv, hused⟩ := link_spent env.now hi' hrow' hunused (hS hlock) haccounts
      (by rw [hrowid]; exact hrows)
    exact ⟨hguar, hinv, row, hrow', hrowhash.trans hhash, hunused, hused⟩

end Requests

end Emis.Identity.ResetLinks
