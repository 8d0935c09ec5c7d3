import Emis.Identity.PasswordService
import Emis.Library.Rules
import Emis.Library.Script

/-!
# Reset links

Requests for a reset link, resets by a link and changes while signed in, in any order.
-/

namespace Emis.Identity.ResetLinks

open Transactions Protocol PasswordService

inductive Call where
  | requestReset (env : Env) (email : String)
  | resetPassword (env : Env) (token password : String)
  | changePassword (env : Env) (auth : AuthContext) (currentPassword newPassword : String)

inductive Reply where
  | done
  | token (token : String)

def Call.code : Call → Tx Reply
  | .requestReset env email => (fun _ => Reply.done) <$> PasswordService.requestReset env email
  | .resetPassword env token password => (fun _ => Reply.done) <$> PasswordService.resetPassword env token password
  | .changePassword env auth current new =>
      Reply.token <$> PasswordService.changePassword env auth current new

/-- The account that a reset is requested for. -/
def userOf (d : Db) (email : String) : Option Uuid :=
  ((d.accounts.find? fun a => a.email == email).filter fun a => a.status == .active).map AccountRow.id

/-- No link came in between: what is open is what the request has retired, and nothing
is open when the password is changed while signed in. -/
def Call.retired : Call → Set Lock → Db → Prop
  | .requestReset _ email, S, d => ∀ t ∈ d.resetTokens, userOf d email = some t.userId →
      t.usedAt = none → .resetToken t.id ∈ S
  | .resetPassword .., _, _ => True
  | .changePassword _ auth _ _, _, d => ∀ t ∈ d.resetTokens, t.userId = auth.userId → t.usedAt ≠ none

/-! ## What a request may do -/

structure LinkInv (d : Db) : Prop where
  ids : (d.resetTokens.map ResetTokenRow.id).Nodup
  hashes : (d.resetTokens.map ResetTokenRow.tokenHash).Nodup
  single : ∀ t ∈ d.resetTokens, ∀ t' ∈ d.resetTokens, t.userId = t'.userId → t.usedAt = none →
    t'.usedAt = none → t = t'

/-- A link is used once, by who holds its row. -/
structure LinkStep (S : Set Lock) (t t' : ResetTokenRow) : Prop where
  id : t'.id = t.id
  userId : t'.userId = t.userId
  tokenHash : t'.tokenHash = t.tokenHash
  change : t' = t ∨ .resetToken t.id ∈ S ∧ t.usedAt = none ∧ t'.usedAt ≠ none

/-- What is never set again of an account. -/
def Db.identities (d : Db) : List (Uuid × String × AccountStatus) :=
  d.accounts.map fun a => (a.id, a.email, a.status)

structure Guar (S : Set Lock) (d d' : Db) : Prop where
  accounts : Db.identities d' = Db.identities d
  links : ∃ olds news, d'.resetTokens = olds ++ news ∧
    List.Forall₂ (LinkStep S) d.resetTokens olds ∧
    ∀ t ∈ news, .resetToken t.id ∈ S ∧ .resetTokenHash t.tokenHash ∈ S

def linkProtocol : Protocol Db Lock where
  Inv := LinkInv
  Guar := Guar

/-! ## What a request relies on -/

theorem LinkStep.refl {S : Set Lock} (t : ResetTokenRow) : LinkStep S t t := ⟨rfl, rfl, rfl, .inl rfl⟩

theorem userOf_congr {d d' : Db} (h : Db.identities d' = Db.identities d) (email : String) :
    userOf d' email = userOf d email := by
  have hfind : ∀ d : Db, userOf d email = ((Db.identities d).find? fun x => x.2.1 == email).bind fun x =>
      if x.2.2 == .active then some x.1 else none := by
    intro d
    rw [userOf, Db.identities, List.find?_map]
    change _ = ((d.accounts.find? fun a => a.email == email).map _).bind _
    cases d.accounts.find? fun a => a.email == email with
    | none => rfl
    | some a => cases hstatus : a.status <;> simp [Option.filter, hstatus]
  rw [hfind, hfind, h]

section Rely

variable {S : Set Lock} {d d' : Db}

theorem rely_userOf (h : linkProtocol.Rely S d d') (email : String) : userOf d' email = userOf d email :=
  Rely.same (χ := fun d => userOf d email)
    (fun _ _ ⟨_, _, _, hguar⟩ => userOf_congr hguar.accounts email) h

/-- A link stays, with its hash and its owner. -/
theorem link_kept (h : linkProtocol.Rely S d d') {t : ResetTokenRow} (ht : t ∈ d.resetTokens) :
    ∃ t' ∈ d'.resetTokens, t'.id = t.id ∧ t'.userId = t.userId ∧ t'.tokenHash = t.tokenHash := by
  refine h.stable (φ := fun d => ∃ t' ∈ d.resetTokens, t'.id = t.id ∧ t'.userId = t.userId ∧
    t'.tokenHash = t.tokenHash) ?_ ⟨t, ht, rfl, rfl, rfl⟩
  rintro d₁ d₂ ⟨-, T, -, hguar⟩ ⟨t₁, ht₁, hid, huser, hhash⟩
  obtain ⟨olds, news, hrows, hsteps, -⟩ := hguar.links
  obtain ⟨t₂, ht₂, hstep⟩ := rowwise_exists hsteps ht₁
  refine ⟨t₂, hrows ▸ List.mem_append_left _ ht₂, ?_, ?_, ?_⟩
  · exact hstep.id.trans hid
  · exact hstep.userId.trans huser
  · exact hstep.tokenHash.trans hhash

/-- What is said of the rows with a locked id stays true. -/
theorem locked_stays {id : Uuid} {χ : ResetTokenRow → Prop} (hlock : .resetToken id ∈ S)
    (h : linkProtocol.Rely S d d') (hd : ∀ t ∈ d.resetTokens, t.id = id → χ t) :
    ∀ t ∈ d'.resetTokens, t.id = id → χ t := by
  refine h.stable (φ := fun d => ∀ t ∈ d.resetTokens, t.id = id → χ t) ?_ hd
  rintro d₁ d₂ ⟨-, T, hdisj, hguar⟩ hχ t' ht' hid
  obtain ⟨olds, news, hrows, hsteps, hnews⟩ := hguar.links
  rw [hrows, List.mem_append] at ht'
  rcases ht' with ht' | ht'
  · obtain ⟨t, ht, hstep⟩ := rowwise_exists hsteps.flip ht'
    have htid : t.id = id := hstep.id.symm.trans hid
    rcases hstep.change with rfl | ⟨hheld, -⟩
    · exact hχ _ ht hid
    · rw [htid] at hheld
      exact (Set.disjoint_left.1 hdisj hlock hheld).elim
  · have hheld := (hnews t' ht').1
    rw [hid] at hheld
    exact (Set.disjoint_left.1 hdisj hlock hheld).elim

/-- A locked row stays as it is. -/
theorem link_stays {t : ResetTokenRow} (hlock : .resetToken t.id ∈ S) (h : linkProtocol.Rely S d d')
    (hd : LinkInv d) (ht : t ∈ d.resetTokens) : t ∈ d'.resetTokens := by
  obtain ⟨t', ht', hid, -⟩ := link_kept h ht
  have hsame : t' = t := locked_stays (χ := fun t' => t' = t) hlock h
    (fun t₁ ht₁ hid₁ => eq_of_key_eq hd.ids ht₁ ht hid₁) t' ht' hid
  exact hsame ▸ ht'

/-- The entry of a hash stays unused while it is locked. -/
theorem hash_fresh {hash : String} (hlock : .resetTokenHash hash ∈ S) (h : linkProtocol.Rely S d d')
    (hd : ∀ t ∈ d.resetTokens, t.tokenHash ≠ hash) : ∀ t ∈ d'.resetTokens, t.tokenHash ≠ hash := by
  refine h.stable (φ := fun d => ∀ t ∈ d.resetTokens, t.tokenHash ≠ hash) ?_ hd
  rintro d₁ d₂ ⟨-, T, hdisj, hguar⟩ hfresh t' ht'
  obtain ⟨olds, news, hrows, hsteps, hnews⟩ := hguar.links
  rw [hrows, List.mem_append] at ht'
  rcases ht' with ht' | ht'
  · obtain ⟨t, ht, hstep⟩ := rowwise_exists hsteps.flip ht'
    exact hstep.tokenHash ▸ hfresh t ht
  · rintro rfl
    exact Set.disjoint_left.1 hdisj hlock (hnews t' ht').2

end Rely

end Emis.Identity.ResetLinks
