import Emis.Access.Frames
import Emis.Access.Invitations

/-!
# An invitation sets a password once

What the requests write, and what follows for every run.
-/

namespace Emis.Access.Invitations

open Transactions Protocol Identity

/-! ## Writes -/

section Writes

variable {q : Call} {S : Set Lock} {d d' : Db} {f : Db → Db}

def linkOf (env : Env) (userId : Uuid) : InvitationRow := {
  id := env.newInvitationId
  userId := userId
  tokenHash := env.hashToken env.token
  expiresAt := env.now + INVITATION_TTL_HOURS * 3600000 }

def personOf (env : Env) (input : UsersService.InviteInput) (role : RoleRow) : AccountRow := {
  id := env.newUserId
  email := input.email
  displayName := input.displayName
  mfaEnforced := role.mfaRequired
  createdAt := env.now }

/-- What the requests here change. -/
def tables (d : Db) : List AccountRow × List InvitationRow := (d.accounts, d.invitations)

theorem own_of_link (link : InvitationRow) (hd : Inv d) (hopens : ∀ i, ¬ q.opens i)
    (hpeople : Evolves (PersonStep q d) (fun a => a.passwordHash = none ∧ .account a.id ∈ S)
      d.accounts d'.accounts) (hids : (d'.accounts.map AccountRow.id).Nodup) {olds : List InvitationRow}
    (hsteps : List.Forall₂ (LinkStep q S d) d.invitations olds) (hrows : d'.invitations = olds ++ [link])
    (hid : .invitation link.id ∈ S) (hhash : .invitationToken link.tokenHash ∈ S)
    (hfresh : ∀ i ∈ d.invitations, i.id ≠ link.id ∧ i.tokenHash ≠ link.tokenHash) :
    Own q S d d' ∧ Inv d' := by
  have hkept : ∀ i' ∈ olds, i'.id ≠ link.id ∧ i'.tokenHash ≠ link.tokenHash := by
    intro i' hi'
    obtain ⟨i, hi, hstep⟩ := rowwise_exists hsteps.flip hi'
    exact ⟨hstep.id ▸ (hfresh i hi).1, hstep.tokenHash ▸ (hfresh i hi).2⟩
  refine ⟨⟨hpeople, ?_, fun i _ h => (hopens i h).elim⟩, hids, ?_, ?_⟩
  · rw [hrows]
    exact (Evolves.of_rowwise hsteps).add ⟨hid, hhash⟩
  · rw [hrows]
    refine nodup_snoc ?_ fun i' hi' => (hkept i' hi').1
    rw [rowwise_map (fun _ _ hstep => hstep.id) hsteps]
    exact hd.ids
  · rw [hrows]
    refine nodup_snoc ?_ fun i' hi' => (hkept i' hi').2
    rw [rowwise_map (fun _ _ hstep => hstep.tokenHash) hsteps]
    exact hd.hashes

/-- A new person with a link. -/
theorem own_of_person (row : AccountRow) (link : InvitationRow) (hd : Inv d) (hopens : ∀ i, ¬ q.opens i)
    (htables : tables d' = (d.accounts ++ [row], d.invitations ++ [link])) (hunset : row.passwordHash = none)
    (hlock : .account row.id ∈ S) (hnew : ∀ a ∈ d.accounts, a.id ≠ row.id)
    (hid : .invitation link.id ∈ S) (hhash : .invitationToken link.tokenHash ∈ S)
    (hfresh : ∀ i ∈ d.invitations, i.id ≠ link.id ∧ i.tokenHash ≠ link.tokenHash) :
    Own q S d d' ∧ Inv d' := by
  obtain ⟨haccounts, hrows⟩ := Prod.mk.inj htables
  refine own_of_link link hd hopens ?_ ?_ (List.forall₂_same.2 fun i _ => .refl i) hrows hid hhash hfresh
  · rw [haccounts]
    exact .snoc .refl ⟨hunset, hlock⟩
  · rw [haccounts]
    exact nodup_snoc hd.accounts hnew

/-- The entries of the unique indexes are locked and unused. -/
theorem wp_issueInvitationToken {K : String → Set Lock → (Db → Db) → Db → Prop} (env : Env) (userId : Uuid)
    (hkeys : ∀ s, (f s).invitations.map (fun i => (i.id, i.tokenHash)) =
      s.invitations.map fun i => (i.id, i.tokenHash))
    (hK : ∀ S' d', S ⊆ S' → .invitation env.newInvitationId ∈ S' →
      .invitationToken (env.hashToken env.token) ∈ S' → q.view.Rely S d d' → Inv d' →
      (∀ i ∈ d'.invitations, i.id ≠ env.newInvitationId ∧ i.tokenHash ≠ env.hashToken env.token) →
        K env.token S' ((fun s => { s with invitations := s.invitations ++ [linkOf env userId] }) ∘ f) d') :
    q.view.wp K Anyway (UsersService.issueInvitationToken env userId) S f d := by
  simp only [UsersService.issueInvitationToken, wp_bind, wp_acquire, wp_get, wp_require, wp_modify, wp_pure,
    implies_true, and_true]
  intro d₁ hr₁ _ d₂ hr₂ _ d₃ hr₃ hi₃ hid hhash
  have hS₁ : S ⊆ insert (.invitation env.newInvitationId) S := Set.subset_insert _ _
  have hS₂ := Set.subset_insert (Lock.invitationToken (env.hashToken env.token))
    (insert (.invitation env.newInvitationId) S)
  refine hK _ d₃ (hS₁.trans hS₂) (hS₂ (Set.mem_insert _ _)) (Set.mem_insert _ _)
    (hr₁.trans ((hr₂.anti hS₁).trans (hr₃.anti (hS₁.trans hS₂)))) hi₃ fun i hi => ?_
  have hmem : (i.id, i.tokenHash) ∈ (f d₃).invitations.map fun i => (i.id, i.tokenHash) :=
    hkeys d₃ ▸ List.mem_map_of_mem hi
  obtain ⟨i', hi', hsame⟩ := List.mem_map.1 hmem
  obtain ⟨hsameId, hsameHash⟩ := Prod.mk.inj hsame
  simp only [Bool.not_eq_true', List.any_eq_false, beq_iff_eq] at hid hhash
  exact ⟨hsameId ▸ hid i' hi', hsameHash ▸ hhash i' hi'⟩

/-- The links of a person are revoked one after the other. -/
structure Revoking (q : Call) (S : Set Lock) (f : Db → Db) : Prop where
  accounts : ∀ s, (f s).accounts = s.accounts
  links : ∀ s, List.Forall₂ (LinkStep q S s) s.invitations (f s).invitations

theorem Revoking.mono {S' : Set Lock} (hS : S ⊆ S') (h : Revoking q S f) : Revoking q S' f :=
  ⟨h.accounts, fun s => (h.links s).imp fun _ _ hstep => hstep.mono hS⟩

theorem Revoking.revoke {env : Env} {userId linkId : Uuid} (h : Revoking (.resend env userId) S f) :
    Revoking (.resend env userId) (insert (.invitation linkId) S) ((fun s => { s with
      invitations := changeWhere (fun i => i.id == linkId && (i.userId == userId && UsersService.isOpen i))
        (UsersService.revoked env.now) s.invitations }) ∘ f) := by
  refine ⟨h.accounts, fun s => ?_⟩
  refine rowwise_trans (fun _ _ _ => LinkStep.trans) ((h.mono (Set.subset_insert _ _)).links s) ?_
  refine forall₂_changeWhere.2 fun i _ => ?_
  split
  · rename_i hhit
    simp only [UsersService.isOpen, Bool.and_eq_true, beq_iff_eq, Option.isNone_iff_eq_none] at hhit
    obtain ⟨rfl, rfl, haccepted, -⟩ := hhit
    exact ⟨rfl, rfl, rfl, fun hsome => (hsome haccepted).elim, fun _ => by simp [UsersService.revoked],
      .inr ⟨Set.mem_insert _ _, rfl⟩⟩
  · exact .refl i

theorem own_of_same (hd : Inv d) (hopens : ∀ i ∈ d.invitations, q.opens i → i.acceptedAt ≠ none)
    (h : tables d' = tables d) : Own q S d d' ∧ Inv d' := by
  obtain ⟨haccounts, hrows⟩ := Prod.mk.inj h
  refine ⟨⟨haccounts ▸ .refl .refl, hrows ▸ .refl .refl, hrows ▸ hopens⟩, ?_, ?_, ?_⟩
  · exact haccounts ▸ hd.accounts
  · exact hrows ▸ hd.ids
  · exact hrows ▸ hd.hashes

end Writes

/-! ## The requests -/

section Requests

variable {S : Set Lock} {d : Db} {f : Db → Db}

/-- An accepted link was open, and its person had no password. -/
def Call.sets : Call → Reply → Db → Db → Prop
  | .accept env token _, _, d, d' => ∃ i ∈ d.invitations, i.tokenHash = env.hashToken token ∧ Usable d i ∧
      ∃ a ∈ d'.accounts, a.id = i.userId ∧ a.passwordHash ≠ none
  | .invite .., _, _, _ | .resend .., _, _, _ => True

theorem invite_sets (env : Env) (input : UsersService.InviteInput) (hd : Inv d) :
    (Call.invite env input).view.wp (fun user => (Call.invite env input).view.Done
      (Call.invite env input).sets (.user user)) Anyway (UsersService.invite env input) ∅ id d := by
  set q := Call.invite env input with hq
  rw [UsersService.invite, wp_bind]
  refine wp_of_silent (keeps_requireGrantableRole _ _) hd fun role S₁ d₁ _ _ _ => ?_
  simp only [AccountsService.create, bind_assoc, pure_bind]
  simp only [wp_bind, wp_acquire, wp_get, wp_require, wp_modify, implies_true, and_true]
  intro d₂ _ _ d₃ _ _ _ d₄ _ _ d₅ _ hi₅ hperson
  set S₅ : Set Lock := insert (.account env.newUserId) (insert (.email input.email) S₁) with hS₅
  have hlock : Lock.account env.newUserId ∈ S₅ := Set.mem_insert _ _
  have hfresh₅ : ∀ a ∈ d₅.accounts, a.id ≠ env.newUserId := by
    simpa [List.any_eq_false] using hperson
  refine wp_of_keeps (φ := tables) (keeps_insertAssignment (fun _ _ => rfl) _ _) hi₅
    fun _ S₆ g d₆ hS₆ hg hr₆ hi₆ => ?_
  refine wp_issueInvitationToken env _ (fun s => ?_) fun S₇ d₇ hS₇ hid hhash hr₇ hi₇ hfresh₇ => ?_
  · exact congrArg (fun x => x.2.map fun i : InvitationRow => (i.id, i.tokenHash)) (hg _)
  refine wp_of_keeps (φ := tables) (keeps_get _) hi₇ fun user S₈ g' d₈ hS₈ hg' hr₈ hi₈ d' hr' hi' => ?_
  have hr₇' : q.view.Rely S₇ d₇ d' := hr₈.trans (hr'.anti hS₈)
  have hnew : ∀ a ∈ d'.accounts, a.id ≠ env.newUserId :=
    person_fresh hlock ((hr₆.trans (hr₇.anti hS₆)).trans (hr₇'.anti (hS₆.trans hS₇))) hfresh₅
  refine and_assoc.1 ⟨own_of_person (personOf env input role) (linkOf env env.newUserId) hi' (fun _ h => h)
    ((hg' _).trans ?_) ?_ (hS₈ (hS₇ (hS₆ hlock))) hnew (hS₈ hid) (hS₈ hhash) (link_fresh hid hhash hr₇' hfresh₇), trivial⟩
  · obtain ⟨haccounts, hrows⟩ :=
      Prod.mk.inj (hg { d' with accounts := d'.accounts ++ [personOf env input role] })
    exact Prod.ext haccounts (congrArg (· ++ [linkOf env env.newUserId]) hrows)
  · rfl

theorem resend_sets (env : Env) (userId : Uuid) (hd : Inv d) :
    (Call.resend env userId).view.wp (fun _ => (Call.resend env userId).view.Done
      (Call.resend env userId).sets .resent) Anyway (UsersService.resendInvitation env userId) ∅ id d := by
  rw [UsersService.resendInvitation, wp_bind]
  refine wp_of_reading (keeps_get userId) (takes_get userId) hd fun user d₁ _ _ => ?_
  rw [wp_bind, wp_require]
  refine ⟨fun _ => ?_, fun _ => trivial⟩
  simp only [UsersService.reissueInvitation, bind_assoc, wp_bind, wp_get]
  intro d₂ _ _
  refine wp_mono (X := Anyway) ?_ (fun _ _ _ h => h)
    (wp_forM (I := fun S f _ => Revoking (.resend env userId) S f) _ (fun row S f d h => ?_)
      ⟨fun _ => rfl, fun s => List.forall₂_same.2 fun i _ => .refl i⟩)
  · rintro - S f d₃ hrevoking
    refine wp_issueInvitationToken env userId (fun s => ?_) fun S₄ d₄ hS₄ hid hhash _ _ hfresh => ?_
    · exact rowwise_map (fun _ _ hstep => by rw [hstep.id, hstep.tokenHash]) (hrevoking.links s)
    · intro d' hr' hi'
      have haccounts : (f d').accounts = d'.accounts := hrevoking.accounts d'
      refine and_assoc.1 ⟨own_of_link (linkOf env userId) hi' (fun _ h => h) ?_ ?_
        ((hrevoking.mono hS₄).links d') rfl hid hhash (link_fresh hid hhash hr' hfresh), trivial⟩
      · exact haccounts.symm ▸ .refl .refl
      · exact haccounts.symm ▸ hi'.accounts
  · rw [wp_bind]
    refine wp_updateWhere_cases (fun _ _ _ _ => h) (fun _ _ _ _ => ?_) fun _ _ _ _ => ?_
    · exact h.mono (Set.subset_insert _ _)
    · exact h.revoke

/-- The link is claimed and the password set. -/
theorem own_of_accepted {env : Env} {token password : String} {i : InvitationRow} {d' : Db} (hd : Inv d)
    (hi : i ∈ d.invitations) (hhash : i.tokenHash = env.hashToken token) (hopen : i.acceptedAt = none)
    (hlock : .invitation i.id ∈ S)
    (haccounts : d'.accounts = changeWhere (fun a => a.id == i.userId)
      (AccountsService.withPassword env password) d.accounts)
    (hrows : d'.invitations = changeWhere (fun j => j.id == i.id && j.acceptedAt.isNone)
      (fun j => { j with acceptedAt := some env.now }) d.invitations) :
    Own (.accept env token password) S d d' ∧ Inv d' := by
  have habout : (Call.accept env token password).about d i.userId := ⟨i, hi, hhash, rfl⟩
  refine ⟨⟨?_, ?_, ?_⟩, ?_, ?_, ?_⟩
  · rw [haccounts]
    refine .changeWhere .refl fun a _ hhit => ⟨rfl, fun _ => by simp [AccountsService.withPassword], .inr ?_⟩
    have haid : a.id = i.userId := by simpa using hhit
    exact haid ▸ habout
  · rw [hrows]
    refine .changeWhere .refl fun j hj hhit => ?_
    obtain ⟨hid, hnone⟩ : j.id = i.id ∧ j.acceptedAt = none := by simpa using hhit
    obtain rfl := eq_of_key_eq hd.ids hj hi hid
    exact ⟨rfl, rfl, rfl, fun _ => by simp, id, .inr ⟨hlock, habout⟩⟩
  · rw [hrows]
    intro j' hj' hopens
    obtain ⟨j, hj, rfl⟩ := mem_changeWhere.1 hj'
    split
    · simp
    · rename_i hmiss
      rw [if_neg hmiss] at hopens
      obtain rfl : j = i := eq_of_key_eq hd.hashes hj hi (hopens.trans hhash.symm)
      exact (hmiss (by simp [hopen])).elim
  · have hids : d'.accounts.map AccountRow.id = d.accounts.map AccountRow.id :=
      haccounts ▸ map_changeWhere fun _ => rfl
    exact hids ▸ hd.accounts
  · have hids : d'.invitations.map InvitationRow.id = d.invitations.map InvitationRow.id :=
      hrows ▸ map_changeWhere fun _ => rfl
    exact hids ▸ hd.ids
  · have hhashes : d'.invitations.map InvitationRow.tokenHash = d.invitations.map InvitationRow.tokenHash :=
      hrows ▸ map_changeWhere fun _ => rfl
    exact hhashes ▸ hd.hashes

theorem accept_sets (env : Env) (token password : String) :
    (Call.accept env token password).view.wp (fun _ => (Call.accept env token password).view.Done
      (Call.accept env token password).sets .accepted) Anyway
      (InvitationsService.accept env token password) ∅ id d := by
  set q := Call.accept env token password with hq
  simp only [InvitationsService.accept, InvitationsService.findOpen, bind_assoc, pure_bind, wp_bind, wp_get,
    wp_expect, implies_true, and_true]
  intro d₁ _ hi₁ link hfind
  have hlink : link ∈ d₁.invitations := List.mem_of_find?_eq_some hfind
  have hfound := List.find?_some hfind
  simp only [Bool.and_eq_true, beq_iff_eq, Option.isNone_iff_eq_none, List.any_eq_true, id_eq] at hfound
  obtain ⟨⟨⟨⟨hhash, hnone⟩, hunrevoked⟩, -⟩, a, ha, ⟨haid, -⟩, hpassword⟩ := hfound
  have hunset : Unset d₁ link.userId := by
    intro a' ha' hid
    obtain rfl := eq_of_key_eq hi₁.accounts ha' ha (hid.trans haid.symm)
    exact hpassword
  have hknows : q.knows link d₁ := ⟨link, hlink, rfl, rfl, hhash, fun _ => ⟨hnone, hunrevoked, hunset⟩⟩
  refine wp_updateWhere (fun S' d₂ _ _ _ => ?_) fun d₂ hr₂ hi₂ hhit => ?_
  · rw [wp_require]
    exact ⟨fun h => by simp at h, fun _ => trivial⟩
  rw [wp_require]
  refine ⟨fun _ => ?_, fun h => by simp at h⟩
  obtain ⟨row, hrow, hrowhit⟩ := List.any_eq_true.1 hhit
  obtain ⟨hrowid, hopen⟩ : row.id = link.id ∧ row.acceptedAt = none := by simpa using hrowhit
  have hlock : Lock.invitation row.id ∈ insert (Lock.invitation link.id) (∅ : Set Lock) :=
    hrowid ▸ Set.mem_insert _ _
  simp only [AccountsService.setPassword, AccountsService.findById, bind_assoc, pure_bind, wp_bind, wp_get,
    wp_expect, implies_true, and_true]
  intro d₃ hr₃ hi₃ account haccount
  cases env.weakness password [account.email, account.displayName] with
  | some reason => trivial
  | none =>
      simp only [wp_bind, wp_acquire, wp_modify]
      intro d₄ hr₄ hi₄ d' hr' hi'
      have hr : q.view.Rely (insert (Lock.invitation link.id) ∅) d₂ d' :=
        hr₃.trans (hr₄.trans (hr'.anti (Set.subset_insert _ _)))
      have hrow' : row ∈ d'.invitations := link_stays hlock hr hrow
      -- What was known of the link when it was found is known of the row that is claimed.
      obtain ⟨known, hknown, hid, huser, hopens, husable⟩ :=
        knows_stays ((hr₂.anti (Set.empty_subset _)).trans (hr.anti (Set.empty_subset _))) hknows
      obtain rfl : known = row := eq_of_key_eq hi'.ids hknown hrow' (hid.trans hrowid.symm)
      have hlock' : Lock.invitation known.id ∈ insert (Lock.account link.userId) (insert (Lock.invitation link.id) ∅) :=
        Set.mem_insert_of_mem _ hlock
      refine and_assoc.1 ⟨own_of_accepted hi' hrow' hopens hopen hlock' ?_ ?_, ?_⟩
      · exact huser ▸ rfl
      · exact hrowid ▸ rfl
      · refine ⟨known, hrow', hopens, husable hopen, ?_⟩
        obtain ⟨person, hperson, hpersonId⟩ : ∃ a ∈ d'.accounts, a.id = link.userId := by
          refine person_stays (hr₂.anti (Set.empty_subset _) |>.trans (hr.anti (Set.empty_subset _))) ?_
          exact ⟨a, ha, haid⟩
        refine ⟨_, mem_changeWhere.2 ⟨person, hperson, rfl⟩, ?_⟩
        have hhitPerson : (person.id == link.userId) = true := by simp [hpersonId]
        rw [if_pos hhitPerson]
        exact ⟨hpersonId.trans huser.symm, by simp [AccountsService.withPassword]⟩

theorem code_sets (q : Call) (d : Db) (hd : Inv d) :
    q.view.wp (q.view.Done q.sets) (q.view.Failed fun _ _ => True) q.code ∅ id d := by
  refine wp_mono (X := Anyway) (fun _ _ _ _ h => h) (fun _ _ _ _ _ _ _ => trivial) ?_
  cases q with
  | invite env input =>
      rw [Call.code, wp_map]
      exact invite_sets env input hd
  | resend env userId =>
      rw [Call.code, wp_map]
      exact resend_sets env userId hd
  | accept env token password =>
      rw [Call.code, wp_map]
      exact accept_sets env token password

end Requests

/-! ## Runs -/

section Runs

variable {ι : Type} [DecidableEq ι] {start w w' : World ι Call Db Lock Error Reply}

theorem code_keeps (q : Call) : q.code.Keeps fun _ : Db => () := by
  cases q with
  | invite env input =>
      refine .map _ (.bind (keeps_requireGrantableRole _ _) fun role => .bind ?_ fun _ => ?_)
      · exact .bind (.acquire _) fun _ => .bind .get fun _ => .bind (.require _ _) fun _ =>
          .bind (.acquire _) fun _ => .bind .get fun _ => .bind (.require _ _) fun _ =>
            .bind (.modify fun _ => rfl) fun _ => .pure _
      · exact .bind (keeps_insertAssignment (fun _ _ => rfl) _ _) fun _ =>
          .bind (keeps_issueInvitationToken (fun _ _ => rfl) env _) fun _ => keeps_get _
  | resend env userId =>
      refine .map _ (.bind (keeps_get _) fun _ => .bind (.require _ _) fun _ => .bind ?_ fun _ => .pure _)
      exact .bind .get fun _ => .bind (.forM _ fun _ => .bind (.updateWhere _ _ fun _ => rfl) fun _ => .pure _)
        fun _ => keeps_issueInvitationToken (fun _ _ => rfl) env _
  | accept env token password =>
      refine .map _ (.bind (.bind .get fun _ => .pure _) fun _ => .bind (.expect _ _) fun link => ?_)
      refine .bind (.updateWhere _ _ fun _ => rfl) fun _ => .bind (.require _ _) fun _ => ?_
      refine .bind (.bind .get fun _ => .pure _) fun _ => .bind (.expect _ _) fun account => ?_
      cases env.weakness password [account.email, account.displayName] with
      | some reason => exact .throw _
      | none => exact .bind (.acquire _) fun _ => .modify fun _ => rfl

/-- Every request that has begun keeps to what it may do. -/
abbrev Kept (w : World ι Call Db Lock Error Reply) : Prop :=
  SoundAmong Inv Call.view (fun _ _ _ => True) Call.sets (fun _ _ _ => True) w

abbrev Undisturbed (w w' : World ι Call Db Lock Error Reply) : Prop :=
  Guarded Call.code Call.clear (fun _ _ _ => True) w w'

theorem kept_of_run (hw : Kept w) (hrun : Undisturbed w w') : Kept w' :=
  hw.guarded agree (fun q d hd => wp_mono (fun _ _ _ _ hdone d' hr hi _ => hdone d' hr hi)
    (fun _ _ _ h => h) (code_sets q d hd)) hrun

/-- Passwords and revocations stay. -/
theorem stays (hw : Kept w) (hrun : Undisturbed w w') :
    (∀ u, (∃ a ∈ w.db.accounts, a.id = u ∧ a.passwordHash ≠ none) →
      ∃ a ∈ w'.db.accounts, a.id = u ∧ a.passwordHash ≠ none) ∧
    ∀ hash, (∃ i ∈ w.db.invitations, i.tokenHash = hash ∧ i.revokedAt ≠ none) →
      ∃ i ∈ w'.db.invitations, i.tokenHash = hash ∧ i.revokedAt ≠ none := by
  induction hrun with
  | start => exact ⟨fun _ h => h, fun _ h => h⟩
  | @step w₁ lab w₂ hrun _ _ hstep ih =>
      rcases (kept_of_run hw hrun).change agree (fun _ _ _ _ _ _ => trivial) hstep with
        hsame | ⟨-, q, S, -, hown⟩
      · rw [hsame]
        exact ih
      · refine ⟨fun u hu => ?_, fun hash hhash => ?_⟩
        · obtain ⟨a, ha, hid, hpassword⟩ := ih.1 u hu
          obtain ⟨a', ha', hchange⟩ := Own.people hown |>.kept a ha
          exact ⟨a', ha', hchange.id.trans hid, hchange.password hpassword⟩
        · obtain ⟨i, hi, htoken, hrevoked⟩ := ih.2 hash hhash
          obtain ⟨i', hi', hchange⟩ := Own.links hown |>.kept i hi
          exact ⟨i', hi', hchange.tokenHash.trans htoken, hchange.revoked hrevoked⟩

/-- Where nobody else changes a person's links or password while one of the links is
being opened: a link that is accepted is neither accepted nor revoked before and its
person has no password, no link of that person is accepted afterwards, and a request
that fails changes nothing. -/
theorem invitation_sets_password_once (hidle : start.Idle) (hinv : Inv start.db) (hw : Undisturbed start w) :
    (∀ lab w', Step Call.code w lab w' → w'.db = w.db ∨ ∃ i q a, lab = .answers i q (.ok a)) ∧
    (∀ w' hash, Undisturbed w w' → (∃ i ∈ w.db.invitations, i.tokenHash = hash ∧ i.revokedAt ≠ none) →
      ∀ j env token password b w'', Step Call.code w' (.answers j (.accept env token password) (.ok b)) w'' →
        env.hashToken token ≠ hash) ∧
    ∀ i env token password a w₁, Step Call.code w (.answers i (.accept env token password) (.ok a)) w₁ →
      ∃ link ∈ w.db.invitations, link.tokenHash = env.hashToken token ∧ link.acceptedAt = none ∧
        link.revokedAt = none ∧ Unset w.db link.userId ∧
        ∀ w₂, Undisturbed w w₁ → Undisturbed w₁ w₂ → ∀ j env' token' password' b w₃,
          Step Call.code w₂ (.answers j (.accept env' token' password') (.ok b)) w₃ →
          ∀ link' ∈ w₂.db.invitations, link'.tokenHash = env'.hashToken token' →
            link'.userId ≠ link.userId := by
  have hkept : Kept w := kept_of_run (.of_idle hidle hinv) hw
  have haccepted : ∀ {w w' : World ι Call Db Lock Error Reply} {i env token password a}, Kept w →
      Step Call.code w (.answers i (.accept env token password) (.ok a)) w' →
      (Call.accept env token password).sets a w.db w'.db := fun hw hstep =>
    hw.answer agree (fun _ _ => trivial) hstep
  refine ⟨fun lab w' hstep => ?_, fun w' hash hrun hrevoked j env token password b w'' hstep hsame => ?_,
    fun i env token password a w₁ hstep => ?_⟩
  · have hwhole : ∀ q : Call, q.code.Whole (id : Db → Db) := fun q => (code_keeps q).whole
    exact (hstep.oneTransaction _ hwhole
      (Reachable.oneTransaction _ hwhole hidle hw.permitted.reachable)).2
  · have hkept' := kept_of_run hkept hrun
    obtain ⟨link, hlink, hhash, husable, -⟩ := haccepted hkept' hstep
    obtain ⟨i, hi, htoken, hsome⟩ := (stays hkept hrun).2 hash hrevoked
    obtain rfl := eq_of_key_eq hkept'.inv.hashes hi hlink (htoken.trans (hsame.symm.trans hhash.symm))
    exact hsome husable.revoked
  · obtain ⟨link, hlink, hhash, husable, hset⟩ := haccepted hkept hstep
    refine ⟨link, hlink, hhash, husable.accepted, husable.revoked, husable.unset, ?_⟩
    intro w₂ hrun₁ hrun₂ j env' token' password' b w₃ hstep' link' hlink' hhash' hsame
    have hkept₁ := kept_of_run hkept hrun₁
    have hkept₂ := kept_of_run hkept₁ hrun₂
    obtain ⟨person, hperson, hid, hpassword⟩ := (stays hkept₁ hrun₂).1 link.userId hset
    obtain ⟨second, hsecond, hsecondHash, husable', -⟩ := haccepted hkept₂ hstep'
    obtain rfl := eq_of_key_eq hkept₂.inv.hashes hsecond hlink' (hsecondHash.trans hhash'.symm)
    exact hpassword (husable'.unset person hperson (hid.trans hsame.symm))

end Runs

/-! ## One invitation -/

def school : Db := { roles := [{ id := 7, key := "registrar", name := "Registrar" }] }

abbrev Pair := Duo Call Db Lock Error Reply

def invites : Call :=
  .invite { newUserId := 1, newId := 1, newInvitationId := 1, token := "first" } ⟨"r@x", "R", "registrar", .global⟩

def resends : Call := .resend { now := 5, newInvitationId := 2, token := "second" } 1

def accepts (token password : String) : Call := .accept { now := 6 } token password

def idle : Pair := Duo.idle school

/-- Invited, invited again, and the second link is opened, up to the answer. -/
def welcome : List (Move Call) :=
  [.begins true invites, .turns true 19, .begins true resends, .turns true 12,
    .begins true (accepts "second" "mine"), .turns true 8]

def welcomed : Pair := idle.play Call.code welcome

theorem invitation_sets_password_once_resent :
    ∃ link ∈ welcomed.world.db.invitations, link.tokenHash = "second" ∧ link.acceptedAt = none ∧
      link.revokedAt = none ∧ Unset welcomed.world.db link.userId := by
  have hinv : Inv school := ⟨List.nodup_nil, List.nodup_nil, List.nodup_nil⟩
  have hscript : ∀ m ∈ welcome, m.client = true := by simp [welcome, Move.client]
  have hrun : Undisturbed idle.world welcomed.world :=
    (Duo.play_guarded Call.code welcome hscript fun _ _ => rfl).1
  have haccepts : Step Call.code welcomed.world (.answers true (accepts "second" "mine") (.ok .accepted)) _ :=
    Duo.turn_ret Call.code (S := _) (f := _) rfl
  obtain ⟨link, hlink, hhash, haccepted, hrevoked, hunset, -⟩ :=
    (invitation_sets_password_once (fun _ => rfl) hinv hrun).2.2 true _ _ _ _ _ haccepts
  exact ⟨link, hlink, hhash, haccepted, hrevoked, hunset⟩

/-- The first link is looked up, a second one is sent and opened, and then the first
request goes on, up to its answer. -/
def race : Pair := idle.play Call.code
  [.begins true invites, .turns true 19, .begins true (accepts "first" "theirs"), .turns true 1,
    .begins false resends, .turns false 12, .begins false (accepts "second" "mine"), .turns false 9,
    .turns true 7]

/-- A link that has been revoked is accepted, and replaces a password that was chosen
through the link that came after it. -/
theorem invitation_overwritten : Reachable Call.code idle.world race.world ∧
    Step Call.code race.world (.answers true (accepts "first" "theirs") (.ok .accepted)) (race.turn true).world ∧
    race.db.invitations.map (fun i => (i.tokenHash, i.acceptedAt, i.revokedAt)) =
      [("first", none, some 5), ("second", some 6, none)] ∧
    race.db.accounts.map AccountRow.passwordHash = [some "mine"] ∧
    (race.turn true).db.accounts.map AccountRow.passwordHash = [some "theirs"] := by
  refine ⟨Duo.play_reachable Call.code idle _, Duo.turn_ret Call.code (S := _) (f := _) rfl, ?_, ?_, ?_⟩
  · decide
  · decide
  · decide

end Emis.Access.Invitations
