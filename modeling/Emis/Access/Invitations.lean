import Emis.Access.UsersService
import Emis.Library.Rules
import Emis.Library.Script

/-!
# Invitation links

Invitations, invitations that are sent again, and people who open them, in any order.
What was looked up when a link is opened still holds when the password is set, unless
somebody else changed the person's links or password in between.
-/

namespace Emis.Access.Invitations

open Transactions Protocol Identity

inductive Call where
  | invite (env : Env) (input : UsersService.InviteInput)
  | resend (env : Env) (userId : Uuid)
  | accept (env : Env) (token password : String)

inductive Reply where
  | user (user : StaffUser)
  | resent
  | accepted

def Call.code : Call → Tx Reply
  | .invite env input => .user <$> UsersService.invite env input
  | .resend env userId => (fun _ => .resent) <$> UsersService.resendInvitation env userId
  | .accept env token password => (fun _ => .accepted) <$> InvitationsService.accept env token password

/-- Does the request open this link? -/
def Call.opens : Call → InvitationRow → Prop
  | .accept env token _, i => i.tokenHash = env.hashToken token
  | .invite .., _ | .resend .., _ => False

/-- Does the request change the links or the password of this person? -/
def Call.about (d : Db) : Call → Uuid → Prop
  | .invite .., _ => False
  | .resend _ userId, u => userId = u
  | .accept env token _, u => ∃ i ∈ d.invitations, i.tokenHash = env.hashToken token ∧ i.userId = u

/-- The person has not set a password. -/
def Unset (d : Db) (userId : Uuid) : Prop := ∀ a ∈ d.accounts, a.id = userId → a.passwordHash = none

structure Usable (d : Db) (i : InvitationRow) : Prop where
  accepted : i.acceptedAt = none
  revoked : i.revokedAt = none
  unset : Unset d i.userId

/-- Nobody who does not open the same link changes anything about the person while it
can be used. -/
def Call.clear (d : Db) (q q' : Call) : Prop :=
  ∀ i ∈ d.invitations, q.opens i → Usable d i → q'.about d i.userId → q'.opens i

/-! ## What a request may do and expects -/

structure Inv (d : Db) : Prop where
  accounts : (d.accounts.map AccountRow.id).Nodup
  ids : (d.invitations.map InvitationRow.id).Nodup
  hashes : (d.invitations.map InvitationRow.tokenHash).Nodup

structure LinkStep (q : Call) (S : Set Lock) (d : Db) (i i' : InvitationRow) : Prop where
  id : i'.id = i.id
  userId : i'.userId = i.userId
  tokenHash : i'.tokenHash = i.tokenHash
  accepted : i.acceptedAt ≠ none → i'.acceptedAt ≠ none
  revoked : i.revokedAt ≠ none → i'.revokedAt ≠ none
  change : i' = i ∨ .invitation i.id ∈ S ∧ q.about d i.userId

structure PersonStep (q : Call) (d : Db) (a a' : AccountRow) : Prop where
  id : a'.id = a.id
  password : a.passwordHash ≠ none → a'.passwordHash ≠ none
  change : a' = a ∨ q.about d a.id

/-- What the request may do while it holds the locks `S`. -/
structure Own (q : Call) (S : Set Lock) (d d' : Db) : Prop where
  people : Evolves (PersonStep q d) (fun a => a.passwordHash = none ∧ .account a.id ∈ S)
    d.accounts d'.accounts
  links : Evolves (LinkStep q S d) (fun i => .invitation i.id ∈ S ∧ .invitationToken i.tokenHash ∈ S)
    d.invitations d'.invitations
  opened : ∀ i ∈ d'.invitations, q.opens i → i.acceptedAt ≠ none

def Call.view (q : Call) : Protocol Db Lock where
  Inv := Inv
  Guar := Own q
  Intf T d d' := ∃ q' : Call, q.clear d q' ∧ Own q' T d d'

theorem agree : Agree Inv Call.view Call.clear where
  inv _ _ := Iff.rfl
  expects hclear hown := ⟨_, hclear, hown⟩

/-- The link that was found can be used as long as nobody has accepted it. -/
def Call.knows (q : Call) (link : InvitationRow) (d : Db) : Prop :=
  ∃ i ∈ d.invitations, i.id = link.id ∧ i.userId = link.userId ∧ q.opens i ∧
    (i.acceptedAt = none → Usable d i)

section Steps

variable {q q' : Call} {S : Set Lock} {d d' : Db}

theorem opens_congr {i i' : InvitationRow} (h : i'.tokenHash = i.tokenHash) : q.opens i' ↔ q.opens i := by
  cases q with
  | invite | resend => exact Iff.rfl
  | accept => rw [Call.opens, Call.opens, h]

theorem LinkStep.refl (i : InvitationRow) : LinkStep q S d i i := ⟨rfl, rfl, rfl, fun h => h, fun h => h, .inl rfl⟩

theorem LinkStep.mono {S' : Set Lock} (hS : S ⊆ S') {i i' : InvitationRow} (h : LinkStep q S d i i') :
    LinkStep q S' d i i' where
  id := h.id
  userId := h.userId
  tokenHash := h.tokenHash
  accepted := h.accepted
  revoked := h.revoked
  change := h.change.imp_right fun hchange => ⟨hS hchange.1, hchange.2⟩

theorem LinkStep.trans {i i' i'' : InvitationRow} (h : LinkStep q S d i i') (h' : LinkStep q S d i' i'') :
    LinkStep q S d i i'' where
  id := h'.id.trans h.id
  userId := h'.userId.trans h.userId
  tokenHash := h'.tokenHash.trans h.tokenHash
  accepted haccepted := h'.accepted (h.accepted haccepted)
  revoked hrevoked := h'.revoked (h.revoked hrevoked)
  change := by
    rcases h'.change with rfl | ⟨hlock, habout⟩
    · exact h.change
    · exact .inr ⟨h.id ▸ hlock, h.userId ▸ habout⟩

theorem PersonStep.refl (a : AccountRow) : PersonStep q d a a := ⟨rfl, fun h => h, .inl rfl⟩

end Steps

/-! ## What a request relies on -/

section Rely

variable {q : Call} {S : Set Lock} {d d' : Db}

theorem knows_stays {link : InvitationRow} (h : q.view.Rely S d d') (hd : q.knows link d) :
    q.knows link d' := by
  refine h.stable (φ := q.knows link) ?_ hd
  rintro d₁ d₂ ⟨-, T, -, q', hclear, hown⟩ ⟨i₁, hi₁, hid, huser, hopens, husable⟩
  obtain ⟨i₂, hi₂, hstep⟩ := hown.links.kept i₁ hi₁
  refine ⟨i₂, hi₂, hstep.id.trans hid, hstep.userId.trans huser, (opens_congr hstep.tokenHash).2 hopens,
    fun hnone => ?_⟩
  have hnone₁ : i₁.acceptedAt = none := by
    by_contra hsome
    exact hstep.accepted hsome hnone
  have husable₁ := husable hnone₁
  -- Whoever changes something about the person has accepted this very link.
  have hother : ¬ q'.about d₁ i₁.userId := fun habout =>
    hown.opened i₂ hi₂ ((opens_congr hstep.tokenHash).2 (hclear i₁ hi₁ hopens husable₁ habout)) hnone
  obtain rfl : i₂ = i₁ := hstep.change.resolve_right fun hchange => hother hchange.2
  refine ⟨hnone, husable₁.revoked, fun a' ha' hperson => ?_⟩
  rcases hown.people.made a' ha' with ⟨a, ha, hchange⟩ | hnew
  · have haid : a.id = i₂.userId := hchange.id.symm.trans hperson
    obtain rfl : a' = a := hchange.change.resolve_right fun habout => hother (haid ▸ habout)
    exact husable₁.unset a' ha hperson
  · exact hnew.1

/-- A locked link stays as it is. -/
theorem link_stays {i : InvitationRow} (hlock : .invitation i.id ∈ S) (h : q.view.Rely S d d')
    (hi : i ∈ d.invitations) : i ∈ d'.invitations := by
  refine h.stable (φ := fun d => i ∈ d.invitations) ?_ hi
  rintro d₁ d₂ ⟨-, T, hdisj, q', -, hown⟩ hi₁
  obtain ⟨i₂, hi₂, hstep⟩ := hown.links.kept i hi₁
  obtain rfl : i₂ = i := hstep.change.resolve_right fun hchange =>
    Set.disjoint_left.1 hdisj hlock hchange.1
  exact hi₂

theorem person_stays (h : q.view.Rely S d d') {u : Uuid} (hu : ∃ a ∈ d.accounts, a.id = u) :
    ∃ a ∈ d'.accounts, a.id = u := by
  refine h.stable (φ := fun d => ∃ a ∈ d.accounts, a.id = u) ?_ hu
  rintro d₁ d₂ ⟨-, T, -, q', -, hown⟩ ⟨a, ha, rfl⟩
  obtain ⟨a', ha', hstep⟩ := hown.people.kept a ha
  exact ⟨a', ha', hstep.id⟩

/-- Entries of unique indexes stay unused while they are locked. -/
theorem link_fresh {linkId : Uuid} {hash : String} (hid : .invitation linkId ∈ S)
    (hhash : .invitationToken hash ∈ S) (h : q.view.Rely S d d')
    (hd : ∀ i ∈ d.invitations, i.id ≠ linkId ∧ i.tokenHash ≠ hash) :
    ∀ i ∈ d'.invitations, i.id ≠ linkId ∧ i.tokenHash ≠ hash := by
  refine h.stable (φ := fun d => ∀ i ∈ d.invitations, i.id ≠ linkId ∧ i.tokenHash ≠ hash) ?_ hd
  rintro d₁ d₂ ⟨-, T, hdisj, q', -, hown⟩ hfresh i' hi'
  rcases hown.links.made i' hi' with ⟨i, hi, hstep⟩ | ⟨hheld, hheld'⟩
  · exact ⟨hstep.id ▸ (hfresh i hi).1, hstep.tokenHash ▸ (hfresh i hi).2⟩
  · constructor
    · rintro rfl
      exact Set.disjoint_left.1 hdisj hid hheld
    · rintro rfl
      exact Set.disjoint_left.1 hdisj hhash hheld'

theorem person_fresh {u : Uuid} (hlock : .account u ∈ S) (h : q.view.Rely S d d')
    (hd : ∀ a ∈ d.accounts, a.id ≠ u) : ∀ a ∈ d'.accounts, a.id ≠ u := by
  refine h.stable (φ := fun d => ∀ a ∈ d.accounts, a.id ≠ u) ?_ hd
  rintro d₁ d₂ ⟨-, T, hdisj, q', -, hown⟩ hfresh a' ha'
  rcases hown.people.made a' ha' with ⟨a, ha, hstep⟩ | ⟨-, hheld⟩
  · exact hstep.id ▸ hfresh a ha
  · rintro rfl
    exact Set.disjoint_left.1 hdisj hlock hheld

end Rely

end Emis.Access.Invitations
