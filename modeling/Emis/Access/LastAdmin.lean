import Emis.Access.Admins
import Emis.Access.Frames
import Emis.Library.Script
import Mathlib.Data.List.Dedup

/-!
# The last admin

`assertAnotherAdmin` counts the other admins under the guard lock, but
`setStatus` decides by a look before the lock whether to call it at all. The
admins are safe as long as nobody is disabled who became one after that look.
-/

namespace Emis.Access

open Transactions Protocol Identity

inductive Call where
  | setStatus (env : Env) (userId : Uuid) (status : AccountStatus) (actorId : Uuid)
  | assignRole (env : Env) (userId : Uuid) (roleKey : String) (scope : Scope)
  | removeAssignment (userId assignmentId : Uuid)
  | invite (env : Env) (input : UsersService.InviteInput)
  | accept (env : Env) (token password : String)

inductive Reply where
  | user (user : StaffUser)
  | accepted

def Call.code : Call → Tx Reply
  | .setStatus env userId status actorId =>
      .user <$> UsersService.setStatus env userId status actorId
  | .assignRole env userId roleKey scope =>
      .user <$> UsersService.assignRole env userId roleKey scope
  | .removeAssignment userId assignmentId =>
      .user <$> UsersService.removeAssignment userId assignmentId
  | .invite env input => .user <$> UsersService.invite env input
  | .accept env token password => (fun _ => .accepted) <$> InvitationsService.accept env token password

/-- Whoever is disabled by a call that does not hold the guard is no admin at
that moment either. -/
def Call.Unpromoted : Call → Set Lock → Db → Prop
  | .setStatus _ userId .disabled _, S, d =>
      .adminGuard ∉ S → Db.isActiveAdmin d userId = false
  | _, _, _ => True

/-! ## Statements that nobody counts -/

theorem keeps_revokeAllForUser (env : Env) (u : Uuid) (reason : String) :
    (SessionsService.revokeAllForUser env u reason).Keeps core :=
  .bind .get fun _ => .forM _ fun _ => .bind (.updateWhere _ _ fun _ => rfl) fun _ => .pure _

theorem takes_revokeAllForUser (env : Env) (u : Uuid) (reason : String) :
    (SessionsService.revokeAllForUser env u reason).Takes {l | l ≠ .adminGuard} :=
  .bind .get fun _ => .forM _ fun _ =>
    .bind (.updateWhere (by simp) _ _) fun _ => .pure _

/-! ## The calls -/

section Calls

variable {S : Set Lock} {d : Db} {f : Db → Db}

/-- A transaction that ends with a look is done if its writes are allowed. -/
theorem wp_get_done {Ok : Set Lock → Db → Prop} (hd : Keys d) (u : Uuid)
    (h : ∀ d', protocol.Rely S d d' → Keys d' → Ok S d' → Allowed S d' (f d')) :
    protocol.wp (protocol.DoneIf Ok fun _ _ _ => True) Anyway (UsersService.get u) S f d := by
  refine wp_of_reading (keeps_get u) (takes_get u) hd fun _ d₁ hr₁ hi₁ => ?_
  intro d₂ hr₂ hi₂ hok
  obtain ⟨hguar, hkeys⟩ := h d₂ (hr₁.trans hr₂) hi₂ hok
  exact ⟨hguar, hkeys, trivial⟩

/-- Under the guard another admin has been counted. -/
theorem wp_assertAnotherAdmin {K : Unit → Set Lock → (Db → Db) → Db → Prop} {u : Uuid}
    (hK : ∀ d', protocol.Rely S d d' → Keys d' →
      (∃ v, v ≠ u ∧ Db.isActiveAdmin d' v = true) → K () (insert .adminGuard S) id d') :
    protocol.wp K Anyway (UsersService.assertAnotherAdmin u) S id d := by
  simp only [UsersService.assertAnotherAdmin, wp_bind, wp_acquire, wp_get, wp_require]
  intro d₁ hr₁ hi₁ d₂ hr₂ hi₂
  refine ⟨fun hsome => ?_, fun _ => trivial⟩
  refine hK d₂ (hr₁.trans (hr₂.anti (Set.subset_insert _ S))) hi₂ ?_
  simp only [bne_iff_ne, ne_eq, id_eq] at hsome
  obtain ⟨v, hv⟩ := List.exists_mem_of_length_pos (Nat.pos_of_ne_zero hsome)
  simp only [List.mem_dedup, List.mem_map, List.mem_filter, Bool.and_eq_true, bne_iff_ne] at hv
  obtain ⟨a, ⟨ha, ⟨hrole, hsign⟩, hne⟩, rfl⟩ := hv
  refine ⟨a.userId, hne, ?_⟩
  simp only [Db.isActiveAdmin, Bool.and_eq_true, List.any_eq_true, beq_iff_eq]
  exact ⟨⟨a, ha, rfl, hrole⟩, hsign⟩

theorem promotes_activate : Promotes fun a => { a with status := .active } :=
  ⟨fun _ => rfl, fun _ _ => rfl, fun _ h => h⟩

theorem promotes_enforceMfa : Promotes fun a => { a with mfaEnforced := true } :=
  ⟨fun _ => rfl, fun _ h => h, fun _ h => h⟩

theorem promotes_withPassword (env : Env) (password : String) :
    Promotes (AccountsService.withPassword env password) :=
  ⟨fun _ => rfl, fun _ h => h, fun _ _ => rfl⟩

/-- What follows the look of `setStatus`. -/
theorem wp_changeStatus {Ok : Set Lock → Db → Prop} (env : Env) (u : Uuid) (status : AccountStatus)
    (h : status = .disabled → ∀ T d', S ⊆ T → T ⊆ S ∪ {l | l ≠ .adminGuard} →
      protocol.Rely S d d' → Ok T d' →
      (.adminGuard ∈ T ∧ ∃ v, v ≠ u ∧ Db.isActiveAdmin d' v = true) ∨
        Db.isActiveAdmin d' u = false) :
    protocol.wp (protocol.DoneIf Ok fun _ _ _ => True) Anyway (do
      AccountsService.setStatus u status
      Prog.when (status == .disabled) (SessionsService.revokeAllForUser env u "account_disabled")
      UsersService.get u) S id d := by
  simp only [AccountsService.setStatus, wp_bind, wp_acquire, wp_modify, wp_when]
  intro d₁ hr₁ hi₁
  cases status with
  | active =>
      refine ⟨by simp, fun _ => wp_get_done hi₁ u fun d₂ _ hi₂ _ => ?_⟩
      exact allowed_promote hi₂ promotes_activate
  | disabled =>
      refine ⟨fun _ => ?_, by simp⟩
      refine wp_of_keeps_takes (keeps_revokeAllForUser env u _) (takes_revokeAllForUser env u _) hi₁
        fun _ T g d₂ hST hTA hg hr₂ hi₂ => ?_
      refine wp_get_done hi₂ u fun d₃ hr₃ hi₃ hok => ?_
      have hST' : S ⊆ T := (Set.subset_insert _ S).trans hST
      have hTA' : T ⊆ S ∪ {l | l ≠ .adminGuard} := by
        refine hTA.trans (Set.union_subset (Set.insert_subset (.inr ?_) Set.subset_union_left)
          Set.subset_union_right)
        simp
      have hr : protocol.Rely S d d₃ :=
        hr₁.trans ((hr₂.anti (Set.subset_insert _ S)).trans (hr₃.anti hST'))
      have hdisabled : Allowed T d₃ (disable u d₃) :=
        allowed_disable hi₃ (h rfl T d₃ hST' hTA' hr hok)
      exact hdisabled.trans (allowed_core hdisabled.2 (hg _))

theorem wp_setStatus (env : Env) (u : Uuid) (status : AccountStatus) (actorId : Uuid)
    (hd : Keys d) :
    protocol.wp (protocol.DoneIf (Call.Unpromoted (.setStatus env u status actorId))
      fun _ _ _ => True) Anyway (UsersService.setStatus env u status actorId) ∅ id d := by
  rw [UsersService.setStatus, wp_bind, wp_require]
  refine ⟨fun _ => ?_, fun _ => trivial⟩
  rw [wp_bind]
  refine wp_of_reading (keeps_get u) (takes_get u) hd fun before d₁ _ hi₁ => ?_
  rw [wp_bind, wp_when]
  refine ⟨fun _ => ?_, fun _ => ?_⟩
  · refine wp_assertAnotherAdmin fun d₂ _ _ hadmin => wp_changeStatus env u status ?_
    intro _ T d₃ hST _ hr₃ _
    obtain ⟨v, hvu, hv⟩ := hadmin
    have hguard : Lock.adminGuard ∈ insert Lock.adminGuard (∅ : Set Lock) := Set.mem_insert _ _
    exact .inl ⟨hST hguard, v, hvu, rely_admin hguard hr₃ hv⟩
  · refine wp_changeStatus env u status ?_
    -- no lock taken from here on is the guard, so the condition speaks of `u`
    rintro rfl T d₂ - hTA - hok
    refine .inr (hok fun hheld => ?_)
    rcases hTA hheld with hempty | hother
    · exact hempty
    · exact hother rfl

theorem wp_insertAssignment {K : Unit → Set Lock → (Db → Db) → Db → Prop} {taken : Error}
    {row : AssignmentRow} (hf : Ready S f d)
    (hsame : ∀ s, (f s).assignments = s.assignments ∧ (f s).spentAssignments = s.spentAssignments)
    (hK : ∀ S' g d', Keys d' → Ready S' g d' → K () S' g d') :
    protocol.wp K Anyway (UsersService.insertAssignment taken row) S f d := by
  simp only [UsersService.insertAssignment, wp_bind, wp_acquire, wp_get, wp_require, wp_modify]
  intro d₁ hr₁ _ d₂ hr₂ _
  refine ⟨fun _ d₃ hr₃ _ d₄ hr₄ hi₄ => ⟨fun hfree => ?_, fun _ => trivial⟩, fun _ => trivial⟩
  have hS₁ : S ⊆ insert (.grant row.userId row.roleId row.scope) S := Set.subset_insert _ _
  have hS₂ := Set.subset_insert (Lock.assignment row.id) (insert (.grant row.userId row.roleId row.scope) S)
  have hr : protocol.Rely S d d₄ :=
    (hr₁.trans ((hr₂.trans hr₃).anti hS₁)).trans (hr₄.anti (hS₁.trans hS₂))
  have hunused : Unused row.id d₄ := by
    simp only [hsame d₄, Bool.and_eq_true, Bool.not_eq_true', List.any_eq_false,
      beq_iff_eq, List.contains_eq_mem, decide_eq_false_iff_not] at hfree
    exact ⟨hfree.2, hfree.1⟩
  refine hK _ _ d₄ hi₄ ((hf.later (hS₁.trans hS₂) hr).write fun d₅ hr₅ hi₅ => ?_)
  have hlock : Lock.assignment row.id ∈
      insert (Lock.assignment row.id) (insert (.grant row.userId row.roleId row.scope) S) :=
    Set.mem_insert _ _
  have hnew : Unused row.id (f d₅) := by
    have hlater : Unused row.id d₅ := rely_unused hlock hr₅ hunused
    simpa only [Unused, hsame d₅] using hlater
  exact allowed_addAssignment hi₅ hlock hnew

theorem wp_get_ready {Ok : Set Lock → Db → Prop} (hd : Keys d) (u : Uuid) (hf : Ready S f d) :
    protocol.wp (protocol.DoneIf Ok fun _ _ _ => True) Anyway (UsersService.get u) S f d :=
  wp_get_done hd u fun d' hr hi _ => hf d' hr hi

theorem wp_assignRole {Ok : Set Lock → Db → Prop} (env : Env) (u : Uuid) (key : String)
    (scope : Scope) (hd : Keys d) :
    protocol.wp (protocol.DoneIf Ok fun _ _ _ => True) Anyway
      (UsersService.assignRole env u key scope) ∅ id d := by
  rw [UsersService.assignRole, wp_bind]
  refine wp_of_reading (keeps_get u) (takes_get u) hd fun _ d₁ _ hi₁ => ?_
  rw [wp_bind]
  refine wp_of_silent (keeps_requireGrantableRole key scope) hi₁ fun role S₂ d₂ _ _ hi₂ => ?_
  rw [wp_bind]
  refine wp_insertAssignment (ready_id _ _) (fun _ => ⟨rfl, rfl⟩) fun S₃ g d₃ hi₃ hg => ?_
  rw [wp_bind, wp_when]
  refine ⟨fun _ => ?_, fun _ => wp_get_ready hi₃ u hg⟩
  simp only [AccountsService.enforceMfa, wp_bind, wp_acquire, wp_modify]
  intro d₄ hr₄ hi₄
  refine wp_get_ready hi₄ u ((hg.later (Set.subset_insert _ _) hr₄).write fun _ _ hi => ?_)
  exact allowed_promote hi promotes_enforceMfa

theorem wp_invite {Ok : Set Lock → Db → Prop} (env : Env) (input : UsersService.InviteInput)
    (hd : Keys d) :
    protocol.wp (protocol.DoneIf Ok fun _ _ _ => True) Anyway (UsersService.invite env input)
      ∅ id d := by
  rw [UsersService.invite, wp_bind]
  refine wp_of_silent (keeps_requireGrantableRole _ _) hd fun role S₁ d₁ _ _ _ => ?_
  simp only [AccountsService.create, bind_assoc, pure_bind]
  simp only [wp_bind, wp_acquire, wp_get, wp_require, wp_modify]
  intro d₂ _ _ d₃ _ _
  refine ⟨fun _ d₄ _ _ d₅ _ hi₅ => ⟨fun _ => ?_, fun _ => trivial⟩, fun _ => trivial⟩
  refine wp_insertAssignment ((ready_id _ _).write fun _ _ hi => allowed_addAccount hi _)
    (fun _ => ⟨rfl, rfl⟩) fun S₆ g d₆ hi₆ hg => ?_
  refine wp_of_keeps (φ := core) (keeps_issueInvitationToken (fun _ _ => rfl) env _) hi₆
    fun _ S₇ g' d₇ hS hg' hr₇ hi₇ => ?_
  refine wp_get_ready hi₇ env.newUserId ((hg.later hS hr₇).write fun d₈ _ hi => ?_)
  exact allowed_core hi (hg' (g d₈))

theorem exists_of_mem_rolesOf {u : Uuid} {x : RoleAssignment} (h : x ∈ rolesOf d u) :
    ∃ r ∈ d.assignments, r.userId = u ∧ r.id = x.id ∧
      ∃ role ∈ d.roles, role.id = r.roleId ∧ role.key = x.roleKey := by
  simp only [rolesOf, List.mem_flatMap, List.mem_filter, List.mem_map, beq_iff_eq] at h
  obtain ⟨r, ⟨hr, hu⟩, role, ⟨hrole, hid⟩, rfl⟩ := h
  exact ⟨r, hr, hu, rfl, role, hrole, hid, rfl⟩

/-- Roles are told apart by their ids. -/
theorem hasRoleKey_eq_false (hd : Keys d) {role : RoleRow} (hrole : role ∈ d.roles)
    {r : AssignmentRow} (hid : role.id = r.roleId) {key : String} (hkey : role.key ≠ key) :
    Db.hasRoleKey d key r = false := by
  rw [Db.hasRoleKey, List.any_eq_false]
  intro role' hrole'
  simp only [Bool.and_eq_true, beq_iff_eq, not_and]
  intro hid' hkey'
  obtain rfl := List.inj_on_of_nodup_map hd.roles hrole hrole' (hid.trans hid'.symm)
  exact hkey hkey'

/-- What follows the look and the count of `removeAssignment`. -/
theorem wp_deleteAssignment {Ok : Set Lock → Db → Prop} {u : Uuid} {r : AssignmentRow}
    (hseen : Seen r d)
    (h : (.adminGuard ∈ S ∧ ∃ v, v ≠ r.userId ∧ Db.isActiveAdmin d v = true) ∨
      Db.hasRoleKey d ADMIN_ROLE r = false) :
    protocol.wp (protocol.DoneIf Ok fun _ _ _ => True) Anyway (do
      Prog.acquire (.assignment r.id)
      Prog.modify (withoutAssignment r.id)
      UsersService.get u) S id d := by
  simp only [wp_bind, wp_acquire, wp_modify]
  intro d₁ hr₁ hi₁
  refine wp_get_done hi₁ u fun d₂ hr₂ hi₂ _ => ?_
  have hr : protocol.Rely S d d₂ := hr₁.trans (hr₂.anti (Set.subset_insert _ S))
  refine allowed_without hi₂ (rely_seen hr hseen) ?_
  rcases h with ⟨hguard, v, hvu, hv⟩ | hrole
  · exact .inl ⟨.inr hguard, v, hvu, rely_admin hguard hr hv⟩
  · exact .inr ((hasRoleKey_congr (rely_roles hr) _ _).trans hrole)

theorem wp_removeAssignment {Ok : Set Lock → Db → Prop} (u i : Uuid) :
    protocol.wp (protocol.DoneIf Ok fun _ _ _ => True) Anyway
      (UsersService.removeAssignment u i) ∅ id d := by
  rw [UsersService.removeAssignment, wp_bind, wp_get]
  intro d₁ _ hi₁
  rw [wp_bind, wp_expect]
  refine ⟨fun assignment hfind => ?_, fun _ => trivial⟩
  obtain ⟨r, hr, rfl, hid, role, hrole, hroleId, hkey⟩ :=
    exists_of_mem_rolesOf (List.mem_of_find?_eq_some hfind)
  obtain rfl : assignment.id = i := by simpa using List.find?_some hfind
  have hseen : Seen r d₁ := .inl hr
  rw [wp_bind, wp_when, ← hid]
  refine ⟨fun _ => ?_, fun hother => ?_⟩
  · refine wp_assertAnotherAdmin fun d₂ hr₂ _ hadmin => ?_
    exact wp_deleteAssignment (rely_seen hr₂ hseen) (.inl ⟨Set.mem_insert _ _, hadmin⟩)
  · refine wp_deleteAssignment hseen (.inr (hasRoleKey_eq_false hi₁ hrole hroleId ?_))
    simpa [hkey] using hother

theorem wp_accept {Ok : Set Lock → Db → Prop} (env : Env) (token password : String) :
    protocol.wp (protocol.DoneIf Ok fun _ _ _ => True) Anyway
      (InvitationsService.accept env token password) ∅ id d := by
  simp only [InvitationsService.accept, InvitationsService.findOpen, bind_assoc, pure_bind]
  simp only [wp_bind, wp_get, wp_expect]
  intro d₁ _ hi₁
  refine ⟨fun invitation _ => ?_, fun _ => trivial⟩
  -- the claim writes no table that counts; the password comes on top of it
  refine wp_of_keeps (φ := core) (.updateWhere _ _ fun _ => rfl) hi₁ fun claimed S₂ g d₂ _ hg _ _ => ?_
  rw [wp_require]
  refine ⟨fun _ => ?_, fun _ => trivial⟩
  have hready : Ready S₂ g d₂ := fun d₃ _ hi₃ => allowed_core hi₃ (hg d₃)
  rw [AccountsService.setPassword, AccountsService.findById]
  simp only [wp_bind, wp_get, wp_pure, wp_expect]
  intro d₃ hr₃ hi₃
  refine ⟨fun account _ => ?_, fun _ => trivial⟩
  cases env.weakness password [account.email, account.displayName] with
  | some reason => trivial
  | none =>
      simp only [wp_bind, wp_acquire, wp_modify]
      intro d₄ hr₄ hi₄ d₅ hr₅ hi₅ _
      have hS := Set.subset_insert (Lock.account invitation.userId) S₂
      have hall := (hready.later hS (hr₃.trans hr₄)).write
        (g := Db.changeAccount invitation.userId (AccountsService.withPassword env password))
        fun _ _ hi => allowed_promote hi (promotes_withPassword env password)
      obtain ⟨hguar, hkeys⟩ := hall d₅ hr₅ hi₅
      exact ⟨hguar, hkeys, trivial⟩

theorem wp_code (q : Call) (d : Db) (hd : Keys d) :
    protocol.wp (protocol.DoneIf q.Unpromoted fun _ _ _ => True) (protocol.Failed fun _ _ => True)
      q.code ∅ id d := by
  have hwrap : ∀ {α : Type} {p : Tx α} (g : α → Reply),
      protocol.wp (protocol.DoneIf q.Unpromoted fun _ _ _ => True) Anyway p ∅ id d →
      protocol.wp (protocol.DoneIf q.Unpromoted fun _ _ _ => True) (protocol.Failed fun _ _ => True)
        (g <$> p) ∅ id d := by
    intro α p g hp
    rw [wp_map]
    exact wp_mono (fun _ _ _ _ hdone => hdone) (fun _ _ _ _ _ _ _ => trivial) hp
  cases q with
  | setStatus env u status actorId => exact hwrap _ (wp_setStatus env u status actorId hd)
  | assignRole env u key scope => exact hwrap _ (wp_assignRole env u key scope hd)
  | removeAssignment u i => exact hwrap _ (wp_removeAssignment u i)
  | invite env input => exact hwrap _ (wp_invite env input hd)
  | accept env token password => exact hwrap _ (wp_accept env token password)

end Calls

/-! ## Runs -/

theorem admin_after_step {ι : Type} [DecidableEq ι] {w w' : World ι Call Db Lock Error Reply}
    {lab : Label ι Call Error Reply}
    (hsound : protocol.SoundIf Call.Unpromoted (fun _ _ _ _ => True) (fun _ _ _ => True) w)
    (hanswer : ∀ i q a s, lab = .answers i q (.ok a) → w.sessions i = some (q, s) →
      q.Unpromoted s.held w.db)
    (hstep : Step Call.code w lab w') (hadmin : HasAdmin w.db) : HasAdmin w'.db := by
  rcases hsound.change hanswer hstep with hsame | ⟨S, hguar⟩
  · rw [hsame]
    exact hadmin
  · exact Guarantee.admin hguar hadmin

/-- Once there is an active admin there is always one, as long as nobody is
disabled who was promoted after the disabling call looked. -/
theorem admin_remains {ι : Type} [DecidableEq ι] {start w w' : World ι Call Db Lock Error Reply}
    (hidle : start.Idle) (hkeys : Keys start.db)
    (hw : Permitted Call.code Call.Unpromoted start w) (hadmin : HasAdmin w.db)
    (hw' : Permitted Call.code Call.Unpromoted w w') : HasAdmin w'.db := by
  have hsound := (SoundIf.of_idle (P := protocol) hidle hkeys).permitted wp_code hw
  induction hw' with
  | start => exact hadmin
  | step hprefix hanswer hstep ih =>
      exact admin_after_step (hsound.permitted wp_code hprefix) hanswer hstep ih

/-- An office with one admin, and a registrar beside her. -/
def office : Db where
  accounts :=
    [{ id := 1, email := "admin@emis.test", displayName := "Admin", passwordHash := some "a" },
      { id := 2, email := "registrar@emis.test", displayName := "Registrar", passwordHash := some "b" }]
  roles := [{ id := 10, key := "admin", name := "Administrator" }]
  assignments := [{ id := 100, userId := 1, roleId := 10, scope := .global }]

theorem office_keys : Keys office := by
  constructor
  · decide
  · decide
  · intro r _
    exact List.not_mem_nil

theorem hasAdmin_iff {d : Db} : HasAdmin d ↔ d.assignments.any
    (fun a => Db.hasRoleKey d ADMIN_ROLE a && Db.canSignIn d a.userId) = true := by
  simp only [HasAdmin, Db.isActiveAdmin, Bool.and_eq_true, List.any_eq_true, beq_iff_eq]
  constructor
  · rintro ⟨u, ⟨a, ha, rfl, hrole⟩, hsign⟩
    exact ⟨a, ha, hrole, hsign⟩
  · rintro ⟨a, ha, hrole, hsign⟩
    exact ⟨a.userId, ⟨a, ha, rfl, hrole⟩, hsign⟩

instance (d : Db) : Decidable (HasAdmin d) := decidable_of_iff _ hasAdmin_iff.symm

/-- The admin hands over: the registrar is promoted, then her own role goes. -/
def handover : List (Move Call) :=
  [.begins true (.assignRole { newId := 101 } 2 "admin" .global), .turns true 40,
    .begins false (.removeAssignment 1 100), .turns false 40]

theorem admin_remains_handover :
    (Duo.play Call.code (Duo.idle office) handover).db.assignments.map AssignmentRow.userId = [2] ∧
      HasAdmin (Duo.play Call.code (Duo.idle office) handover).db := by
  have hsafe : ∀ w : World Bool Call Db Lock Error Reply,
      Permitted Call.code Call.Unpromoted ⟨office, fun _ => none⟩ w → HasAdmin w.db :=
    fun w hw => admin_remains (fun _ => rfl) office_keys .start (by decide) hw
  have hplayed : Admitted Call.code (fun q _ => ∀ S d, q.Unpromoted S d)
      ⟨office, fun _ => none⟩ (Duo.play Call.code (Duo.idle office) handover).world := by
    refine Duo.play_admitted Call.code _ (Duo.idle office) handover fun i q hq => ?_
    simp only [handover, List.mem_cons, Move.begins.injEq, reduceCtorEq, false_or, or_false,
      List.not_mem_nil] at hq
    rcases hq with ⟨-, rfl⟩ | ⟨-, rfl⟩ <;> exact fun _ _ _ => trivial
  refine ⟨by decide +kernel, ?_⟩
  rw [← Duo.world_db]
  exact hsafe _ (hplayed.permitted Call.code fun _ => rfl)

/-- The registrar is looked at, promoted, and left as the only admin before the
call that disables him goes on. -/
def lockOut : List (Move Call) :=
  [.begins true (.setStatus {} 2 .disabled 1), .turns true 3,
    .begins false (.assignRole { newId := 101 } 2 "admin" .global), .turns false 40,
    .begins false (.removeAssignment 1 100), .turns false 40, .turns true 40]

theorem admin_lost : Keys office ∧ HasAdmin office ∧
    ∃ w : World Bool Call Db Lock Error Reply,
      Reachable Call.code ⟨office, fun _ => none⟩ w ∧ ¬ HasAdmin w.db := by
  refine ⟨office_keys, by decide, (Duo.play Call.code (Duo.idle office) lockOut).world, ?_, ?_⟩
  · exact Duo.play_reachable Call.code (Duo.idle office) lockOut
  · rw [Duo.world_db]
    decide +kernel

end Emis.Access
