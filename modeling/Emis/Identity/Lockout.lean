import Emis.Identity.AuthService
import Emis.Library.Rules
import Emis.Library.Script
import Emis.Library.Unfailing
import Mathlib.Tactic.Positivity

/-!
# Lockout after failed sign-ins

The counter of an account and the end of its lockout follow from the answers given, as long
as the database can compute the end of the lockout.
-/

namespace Emis.Identity.Lockout

open Transactions Protocol
open AuthService (Failure Outcome countFailure LOCKOUT_THRESHOLD)

/-- The requests that write accounts; a sign-in up to its answer, and the rest of it. -/
inductive Call where
  | login (env : LoginEnv) (input : LoginRequest)
  | openSession (env : LoginEnv) (account : AccountRow)
  | setPassword (env : Env) (userId : Uuid) (password : String)
  | resetPassword (env : Env) (token password : String)
  | changePassword (env : Env) (auth : AuthContext) (currentPassword newPassword : String)
  | create (env : Env) (input : NewAccount)
  | setStatus (userId : Uuid) (status : AccountStatus)
  | enforceMfa (userId : Uuid)

inductive Reply where
  | signIn (outcome : Outcome)
  | passwordSet (userId : Uuid)
  | created (userId : Uuid)
  | done

/-- `resetPassword`, answered with the account. -/
def resetOf (env : Env) (token password : String) : Tx Uuid := do
  let link ← PasswordService.findLink env token
  let found ← Prog.expect link authErrors.invalidResetToken
  PasswordService.checkPolicy env password found.2
  PasswordService.applyReset env found.1.id found.1.userId password
  return found.1.userId

theorem resetOf_eq (env : Env) (token password : String) :
    (fun _ => ()) <$> resetOf env token password = PasswordService.resetPassword env token password := by
  simp only [resetOf, PasswordService.resetPassword, map_bind, map_pure, bind_pure_unit]

def Call.code : Call → Tx Reply
  | .login env input => Reply.signIn <$> AuthService.signIn env input
  | .openSession env account => (fun _ => Reply.done) <$> AuthService.openSession env account
  | .setPassword env userId password =>
      (fun _ => Reply.passwordSet userId) <$> AccountsService.setPassword env userId password
  | .resetPassword env token password => Reply.passwordSet <$> resetOf env token password
  | .changePassword env auth current new =>
      (fun _ => Reply.done) <$> PasswordService.changePassword env auth current new
  | .create env input => Reply.created <$> AccountsService.create env input
  | .setStatus userId status => (fun _ => Reply.done) <$> AccountsService.setStatus userId status
  | .enforceMfa userId => (fun _ => Reply.done) <$> AccountsService.enforceMfa userId

/-! ## The ledger of an account -/

/-- The failures since the counter was reset, and the end of the lockout. -/
abbrev Ledger := ℤ × Option Instant

def ledgerOf (d : Db) (id : Uuid) : Option Ledger :=
  (d.accountById id).map fun a => (a.failedLoginCount, a.lockedUntil)

/-- The end of the lockout after the `n`-th failure: from the fifth on, minutes that double up
to an hour. -/
def lockAfter (now : Instant) (n : ℤ) (lockedUntil : Option Instant) : Option Instant :=
  if 5 ≤ n then some (now + min 60 (2 ^ (n - 5).toNat) * 60000) else lockedUntil

/-- What an answer enters into the ledger. -/
def noted (id : Uuid) : Call → Reply → Option Ledger → Option Ledger
  | .login env _, .signIn (.wrongPassword userId _), l =>
      if userId = id then l.map fun l => (l.1 + 1, lockAfter env.dbNow (l.1 + 1) l.2) else l
  | .login .., .signIn (.passed account), l => if account.id = id then l.map fun _ => (0, none) else l
  | _, .passwordSet userId, l => if userId = id then l.map fun _ => (0, none) else l
  | _, .created userId, l => if userId = id then some (0, none) else l
  | _, _, l => l

def observe {ι : Type} (id : Uuid) (l : Option Ledger) : Label ι Call Error Reply → Option Ledger
  | .answers _ q (.ok a) => noted id q a l
  | _ => l

theorem ledgerOf_changeAccount {g : AccountRow → AccountRow} (hg : ∀ a, (g a).id = a.id) (d : Db)
    (userId id : Uuid) :
    ledgerOf (d.changeAccount userId g) id =
      if userId = id then (d.accountById id).map fun a => ((g a).failedLoginCount, (g a).lockedUntil)
      else ledgerOf d id := by
  rw [ledgerOf, Db.accountById, Db.changeAccount, find?_changeWhere fun a => by rw [hg a], Option.map_map, ledgerOf,
    Db.accountById]
  cases hfind : d.accounts.find? fun a => a.id == id with
  | none => simp
  | some a =>
      have hid : a.id = id := by simpa using List.find?_some hfind
      by_cases hsame : userId = id
      · simp [hsame, hid]
      · have hother : ¬ a.id = userId := fun h => hsame (h.symm.trans hid)
        simp [hsame, hother]

/-- An update that sets neither column. -/
theorem ledgerOf_of_columns {g : AccountRow → AccountRow}
    (hg : ∀ a, ((g a).id, (g a).failedLoginCount, (g a).lockedUntil) = (a.id, a.failedLoginCount, a.lockedUntil))
    (d : Db) (userId : Uuid) : ledgerOf (d.changeAccount userId g) = ledgerOf d := by
  funext id
  have hcolumns : ∀ a, ((g a).failedLoginCount, (g a).lockedUntil) = (a.failedLoginCount, a.lockedUntil) :=
    fun a => (Prod.mk.inj (hg a)).2
  rw [ledgerOf_changeAccount fun a => (Prod.mk.inj (hg a)).1]
  split
  · simp only [hcolumns]
    rfl
  · rfl

/-! ## The update -/

theorem bind_eq_ok {ε α β : Type} {x : Except ε α} {f : α → Except ε β} {b : β} :
    x >>= f = .ok b ↔ ∃ a, x = .ok a ∧ f a = .ok b := by
  cases x with
  | error e => exact ⟨fun h => (by cases h), fun ⟨_, h, _⟩ => by cases h⟩
  | ok a => exact ⟨fun h => ⟨a, rfl, h⟩, fun ⟨_, h, hf⟩ => Except.ok.inj h ▸ hf⟩

theorem int4_eq_ok {x y : ℤ} : int4 x = .ok y ↔ y = x ∧ -2147483648 ≤ x ∧ x ≤ 2147483647 := by
  unfold int4 INT4_MAX
  split
  · rename_i hrange
    exact ⟨fun h => ⟨(Except.ok.inj h).symm, hrange⟩, fun h => by rw [h.1]⟩
  · rename_i hout
    exact ⟨fun h => (by cases h), fun h => absurd h.2 hout⟩

theorem powerOfTwo_eq_ok {n : ℕ} {y : ℤ} : powerOfTwo n = .ok y ↔ y = 2 ^ n ∧ n < 1024 := by
  unfold powerOfTwo
  split
  · rename_i hsmall
    exact ⟨fun h => ⟨(Except.ok.inj h).symm, hsmall⟩, fun h => by rw [h.1]⟩
  · rename_i hlarge
    exact ⟨fun h => (by cases h), fun h => absurd h.2 hlarge⟩

theorem lockoutMinutes_eq_ok {next m : ℤ} (h : AuthService.lockoutMinutes next = .ok m) :
    m = min 60 (2 ^ (next - 5).toNat) ∧ (2 : ℤ) ^ (next - 5).toNat ≤ 2147483647 := by
  obtain ⟨exponent, hexponent, h⟩ := bind_eq_ok.1 h
  obtain ⟨power, hpower, h⟩ := bind_eq_ok.1 h
  obtain ⟨minutes, hminutes, h⟩ := bind_eq_ok.1 h
  obtain ⟨rfl, -⟩ := int4_eq_ok.1 hexponent
  obtain ⟨rfl, -⟩ := powerOfTwo_eq_ok.1 hpower
  obtain ⟨rfl, -, hmax⟩ := int4_eq_ok.1 hminutes
  exact ⟨(Except.ok.inj h).symm, hmax⟩

/-- What the database computes is right. -/
theorem failure_eq_ok {now : Instant} {a : AccountRow} {f : Failure} (h : AuthService.failure now a = .ok f) :
    f = ⟨a.failedLoginCount + 1, lockAfter now (a.failedLoginCount + 1) a.lockedUntil⟩ := by
  obtain ⟨next, hnext, h⟩ := bind_eq_ok.1 h
  obtain ⟨rfl, -⟩ := int4_eq_ok.1 hnext
  by_cases hthreshold : LOCKOUT_THRESHOLD ≤ a.failedLoginCount + 1
  · have hfive : 5 ≤ a.failedLoginCount + 1 := hthreshold
    rw [if_pos hthreshold] at h
    obtain ⟨minutes, hminutes, h⟩ := bind_eq_ok.1 h
    obtain ⟨rfl, -⟩ := lockoutMinutes_eq_ok hminutes
    rw [lockAfter, if_pos hfive]
    exact (Except.ok.inj h).symm
  · have hfive : ¬ 5 ≤ a.failedLoginCount + 1 := hthreshold
    rw [if_neg hthreshold] at h
    rw [lockAfter, if_neg hfive]
    exact (Except.ok.inj h).symm

/-- It fails exactly where there are 35 failures already. -/
theorem failure_ok_iff {now : Instant} {a : AccountRow} (hcount : 0 ≤ a.failedLoginCount) :
    (∃ f, AuthService.failure now a = .ok f) ↔ a.failedLoginCount ≤ 34 := by
  constructor
  · rintro ⟨f, h⟩
    by_contra hmany
    obtain ⟨next, hnext, h⟩ := bind_eq_ok.1 h
    obtain ⟨rfl, -⟩ := int4_eq_ok.1 hnext
    rw [if_pos (by simp only [LOCKOUT_THRESHOLD]; omega)] at h
    obtain ⟨minutes, hminutes, -⟩ := bind_eq_ok.1 h
    have hmax := (lockoutMinutes_eq_ok hminutes).2
    have hpower : (2 : ℤ) ^ 31 ≤ 2 ^ (a.failedLoginCount + 1 - 5).toNat :=
      pow_le_pow_right₀ (by decide) (by omega)
    omega
  · intro hfew
    have hnext : int4 (a.failedLoginCount + 1) = .ok (a.failedLoginCount + 1) :=
      int4_eq_ok.2 ⟨rfl, by omega, by omega⟩
    by_cases hthreshold : LOCKOUT_THRESHOLD ≤ a.failedLoginCount + 1
    · have hpower : (2 : ℤ) ^ (a.failedLoginCount + 1 - LOCKOUT_THRESHOLD).toNat ≤ 2 ^ 30 :=
        pow_le_pow_right₀ (by decide) (by simp only [LOCKOUT_THRESHOLD]; omega)
      have hminutes : ∃ m, AuthService.lockoutMinutes (a.failedLoginCount + 1) = .ok m := by
        refine ⟨_, bind_eq_ok.2 ⟨_, int4_eq_ok.2 ⟨rfl, ?_, ?_⟩, bind_eq_ok.2 ⟨_, powerOfTwo_eq_ok.2 ⟨rfl, ?_⟩,
          bind_eq_ok.2 ⟨_, int4_eq_ok.2 ⟨rfl, ?_, ?_⟩, rfl⟩⟩⟩⟩
        · simp only [LOCKOUT_THRESHOLD] at *
          omega
        · simp only [LOCKOUT_THRESHOLD] at *
          omega
        · simp only [LOCKOUT_THRESHOLD] at *
          omega
        · have hpositive : (0 : ℤ) < 2 ^ (a.failedLoginCount + 1 - LOCKOUT_THRESHOLD).toNat := by positivity
          omega
        · exact hpower.trans (by decide)
      obtain ⟨m, hm⟩ := hminutes
      exact ⟨_, bind_eq_ok.2 ⟨_, hnext, by rw [if_pos hthreshold]; exact bind_eq_ok.2 ⟨m, hm, rfl⟩⟩⟩
    · exact ⟨_, bind_eq_ok.2 ⟨_, hnext, by rw [if_neg hthreshold]; rfl⟩⟩

/-! ## The requests -/

/-- Only the holder of an account's row changes its ledger. -/
def lockProtocol : Protocol Db Lock where
  Inv _ := True
  Guar S d d' := ∀ id, .account id ∉ S → ledgerOf d' id = ledgerOf d id

/-- An answer says what has become of every ledger. -/
def Call.enters (q : Call) (a : Reply) (d d' : Db) : Prop := ∀ id, ledgerOf d' id = noted id q a (ledgerOf d id)

abbrev Call.Safe (q : Call) (d : Db) : Prop :=
  lockProtocol.wp (lockProtocol.Done q.enters) (lockProtocol.Failed fun _ _ => True) q.code ∅ id d

section Requests

variable {S : Set Lock} {d d' : Db}

theorem ledger_stays {id : Uuid} (hlock : .account id ∈ S) (h : lockProtocol.Rely S d d') :
    ledgerOf d' id = ledgerOf d id := by
  refine h.same (χ := fun d => ledgerOf d id) ?_
  rintro d₁ d₂ ⟨-, T, hdisj, hguar⟩
  exact hguar id (Set.disjoint_left.1 hdisj hlock)

theorem done_of_same {q : Call} {a : Reply} {f : Db → Db} (hf : ∀ d, ledgerOf (f d) = ledgerOf d)
    (ha : ∀ id l, noted id q a l = l) : lockProtocol.Done q.enters a S f d := by
  intro d' _ _
  refine ⟨fun id _ => congrFun (hf d') id, trivial, fun id => ?_⟩
  rw [ha, hf]

/-- A request that keeps the ledgers. -/
theorem safe_of_keeps {α : Type} {p : Tx α} {q : Call} {g : α → Reply} (hcode : q.code = g <$> p)
    (hp : p.Keeps ledgerOf) (hg : ∀ a id l, noted id q (g a) l = l) : q.Safe d := by
  rw [Call.Safe, hcode, wp_map]
  refine wp_of_keeps hp trivial (fun a S f d' _ hf _ _ => ?_) fun _ _ _ _ _ _ _ _ _ => trivial
  exact done_of_same (f := f ∘ id) hf (hg a)

/-- One row is changed by its holder. -/
theorem done_of_change {q : Call} {a : Reply} {userId : Uuid} {f : Db → Db} {g : AccountRow → AccountRow}
    (hlock : .account userId ∈ S) (hid : ∀ a, (g a).id = a.id)
    (hf : ∀ d, ledgerOf (f d) = ledgerOf (d.changeAccount userId g))
    (hnoted : ∀ id, id ≠ userId → ∀ l, noted id q a l = l)
    (hown : ∀ d', ledgerOf d' userId = ledgerOf d userId →
      (d'.accountById userId).map (fun a => ((g a).failedLoginCount, (g a).lockedUntil)) =
        noted userId q a (ledgerOf d userId)) :
    lockProtocol.Done q.enters a S f d := by
  intro d' hr _
  refine ⟨fun id hfree => ?_, trivial, fun id => ?_⟩
  · have hother : userId ≠ id := by
      rintro rfl
      exact hfree hlock
    rw [hf, ledgerOf_changeAccount hid, if_neg hother]
  · rw [hf, ledgerOf_changeAccount hid]
    by_cases hsame : userId = id
    · subst hsame
      have hstays := ledger_stays hlock hr
      rw [if_pos rfl, hown d' hstays, hstays]
    · rw [if_neg hsame, hnoted id (Ne.symm hsame)]

/-- A password is set, with the columns of the lockout. -/
theorem done_of_reset {q : Call} {a : Reply} {userId : Uuid} {f : Db → Db} {g : AccountRow → AccountRow}
    (hlock : .account userId ∈ S)
    (hg : ∀ a, ((g a).id, (g a).failedLoginCount, (g a).lockedUntil) = (a.id, 0, none))
    (hf : ∀ d, ledgerOf (f d) = ledgerOf (d.changeAccount userId g))
    (hnoted : ∀ id l, noted id q a l = if userId = id then l.map fun _ => (0, none) else l) :
    lockProtocol.Done q.enters a S f d := by
  refine done_of_change hlock (fun a => (Prod.mk.inj (hg a)).1) hf (fun id hne l => ?_) fun d' hsame => ?_
  · rw [hnoted, if_neg (Ne.symm hne)]
  · rw [hnoted, if_pos rfl, ← hsame, ledgerOf, Option.map_map]
    refine congrArg (fun h => (d'.accountById userId).map h) (funext fun a => ?_)
    exact (Prod.mk.inj (hg a)).2

theorem login_safe (env : LoginEnv) (input : LoginRequest) : (Call.login env input).Safe d := by
  have hrefused : ∀ d, lockProtocol.Done (Call.login env input).enters (.signIn .refused) ∅ id d :=
    fun d => done_of_same (fun _ => rfl) fun _ _ => rfl
  rw [Call.Safe, Call.code, wp_map, AuthService.signIn, AccountsService.findByEmail]
  simp only [wp_bind, wp_get, wp_pure]
  intro d₁ _ _
  cases haccount : (id d₁ : Db).accounts.find? fun a => a.email == input.email with
  | none => exact hrefused d₁
  | some account =>
      dsimp only
      rw [AuthService.attempt, wp_ite]
      refine ⟨fun _ => hrefused d₁, fun _ => ?_⟩
      rw [wp_ite]
      refine ⟨fun _ => ?_, fun _ => ?_⟩
      · simp only [wp_map, AuthService.registerFailure, countFailure, wp_bind, wp_acquire, wp_get]
        intro d₂ _ _ d₃ _ _
        have hlock : Lock.account account.id ∈ insert (Lock.account account.id) (∅ : Set Lock) := Set.mem_insert _ _
        cases hrow : (id d₃ : Db).accountById account.id with
        | none =>
            intro d' hr _
            have hnone : ledgerOf d' account.id = none := by
              rw [ledger_stays hlock hr, ledgerOf, show d₃.accountById account.id = none from hrow]
              rfl
            refine ⟨fun _ _ => rfl, trivial, fun id => ?_⟩
            rw [noted]
            split
            · rename_i hid
              subst hid
              rw [id_eq, hnone]
              rfl
            · rfl
        | some a =>
            simp only [wp_bind, wp_ofExcept, wp_modify, wp_pure]
            refine ⟨fun f hf => ?_, fun _ _ _ _ _ => trivial⟩
            obtain rfl := failure_eq_ok hf
            refine done_of_change (g := fun row => { row with
                failedLoginCount := a.failedLoginCount + 1
                lockedUntil := lockAfter env.dbNow (a.failedLoginCount + 1) a.lockedUntil })
              hlock (fun _ => rfl) (fun _ => rfl) (fun id hne l => ?_) fun d' hsame => ?_
            · rw [noted, if_neg (Ne.symm hne)]
            · have hledger : ledgerOf d₃ account.id = some (a.failedLoginCount, a.lockedUntil) := by
                rw [ledgerOf, show d₃.accountById account.id = some a from hrow]
                rfl
              rw [noted, if_pos rfl, hledger]
              rw [hledger, ledgerOf, Option.map_eq_some_iff] at hsame
              obtain ⟨a', ha', -⟩ := hsame
              rw [ha']
              rfl
      · simp only [wp_bind, wp_acquire, wp_modify, wp_pure]
        intro d₂ _ _
        exact done_of_reset (g := AuthService.signedIn env input account) (Set.mem_insert _ _) (fun _ => rfl)
          (fun _ => rfl) fun _ _ => rfl

theorem setPassword_safe (env : Env) (userId : Uuid) (password : String) :
    (Call.setPassword env userId password).Safe d := by
  rw [Call.Safe, Call.code, wp_map, AccountsService.setPassword, AccountsService.findById]
  simp only [wp_bind, wp_get, wp_pure, wp_expect]
  intro d₁ _ _
  refine ⟨fun account _ => ?_, fun _ _ _ _ => trivial⟩
  split
  · exact fun _ _ _ => trivial
  · simp only [wp_bind, wp_acquire, wp_modify]
    intro d₂ _ _
    exact done_of_reset (g := AccountsService.withPassword env password) (Set.mem_insert _ _) (fun _ => rfl)
      (fun _ => rfl) fun _ _ => rfl

theorem keeps_spend (now : Instant) (tokenId : Uuid) (p : ResetTokenRow → Bool) :
    (PasswordService.spend now tokenId p).Keeps Db.accounts := .updateWhere _ _ fun _ => rfl

theorem keeps_revocations (env : Env) (userId : Uuid) (reason : String) (except : Option Uuid) :
    (SessionsService.revokeAllForUser env userId reason except).Keeps Db.accounts :=
  .bind .get fun _ => .forM _ fun _ => .bind (.updateWhere _ _ fun _ => rfl) fun _ => .pure _

theorem keeps_policy {τ : Type} {φ : Db → τ} (env : Env) (password : String) (account : AccountRow) :
    (PasswordService.checkPolicy env password account).Keeps φ := by
  rw [PasswordService.checkPolicy]
  split
  · exact .throw _
  · exact .pure _

theorem ledgerOf_congr (h : d'.accounts = d.accounts) : ledgerOf d' = ledgerOf d := by
  funext id
  rw [ledgerOf, ledgerOf, Db.accountById, Db.accountById, h]

theorem keeps_ledgers {α : Type} {p : Tx α} (hp : p.Keeps Db.accounts) : p.Keeps ledgerOf := by
  have h := hp.comp fun rows id => ((rows.find? fun a => a.id == id).map fun a =>
    (a.failedLoginCount, a.lockedUntil) : Option Ledger)
  exact h

theorem resetPassword_safe (env : Env) (token password : String) :
    (Call.resetPassword env token password).Safe d := by
  rw [Call.Safe, Call.code, wp_map, resetOf, PasswordService.findLink]
  simp only [wp_bind, wp_get, wp_pure, wp_expect]
  intro d₁ _ _
  refine ⟨fun found _ => ?_, fun _ _ _ _ => trivial⟩
  refine wp_of_silent (keeps_policy env password found.2) trivial (fun _ S₂ d₂ _ _ _ => ?_)
    fun _ _ _ _ _ _ _ _ _ => trivial
  rw [PasswordService.applyReset, wp_bind]
  refine wp_of_keeps (keeps_spend _ _ _) trivial (fun claimed S₃ f₃ d₃ _ hf₃ _ _ => ?_)
    fun _ _ _ _ _ _ _ _ _ => trivial
  simp only [wp_bind, wp_require, wp_acquire, wp_modify]
  refine ⟨fun _ d₄ _ _ => ?_, fun _ _ _ _ => trivial⟩
  refine wp_of_keeps (keeps_revocations _ _ _ _) trivial (fun _ S₅ f₅ d₅ hS₅ hf₅ _ _ => ?_)
    fun _ _ _ _ _ _ _ _ _ => trivial
  refine done_of_reset (g := AccountsService.withPassword env password) (hS₅ (Set.mem_insert _ _)) (fun _ => rfl)
    (fun d => ?_) fun _ _ => rfl
  refine ledgerOf_congr ((hf₅ _).trans ?_)
  exact congrArg (changeWhere _ _) (hf₃ d)

theorem create_safe (env : Env) (input : NewAccount) : (Call.create env input).Safe d := by
  rw [Call.Safe, Call.code, wp_map, AccountsService.create]
  simp only [wp_bind, wp_acquire, wp_get, wp_require, wp_modify, wp_pure]
  intro d₁ _ _ d₂ _ _
  refine ⟨fun _ d₃ _ _ d₄ _ _ => ⟨fun hfresh => ?_, fun _ _ _ _ => trivial⟩, fun _ _ _ _ => trivial⟩
  have hnone : ledgerOf d₄ env.newUserId = none := by
    rw [ledgerOf, Db.accountById, List.find?_eq_none.2]
    · rfl
    · intro a ha
      simp only [Bool.not_eq_true', List.any_eq_false] at hfresh
      exact hfresh a ha
  have hlock : Lock.account env.newUserId ∈
      insert (Lock.account env.newUserId) (insert (Lock.email input.email) (∅ : Set Lock)) := Set.mem_insert _ _
  intro d' hr _
  have hlate := (ledger_stays hlock hr).trans hnone
  have hadded : ∀ id, ledgerOf { d' with accounts := d'.accounts ++ [{
      id := env.newUserId
      email := input.email
      displayName := input.displayName
      mfaEnforced := input.mfaEnforced
      createdAt := env.now }] } id = if env.newUserId = id then some (0, none) else ledgerOf d' id := by
    intro id
    by_cases hid : env.newUserId = id
    · subst hid
      rw [ledgerOf, Option.map_eq_none_iff, Db.accountById] at hlate
      simp [ledgerOf, Db.accountById, List.find?_append, hlate]
    · simp [ledgerOf, Db.accountById, List.find?_append, hid]
  refine ⟨fun id hfree => ?_, trivial, fun id => ?_⟩
  · have hother : env.newUserId ≠ id := by
      rintro rfl
      exact hfree hlock
    exact (hadded id).trans (if_neg hother)
  · exact hadded id

theorem keeps_openSession (env : LoginEnv) (account : AccountRow) :
    (AuthService.openSession env account).Keeps Db.accounts :=
  .bind (.bind .get fun _ => .pure _) fun _ => .bind (.bind (.acquire _) fun _ => .bind .get fun _ =>
    .bind (.require _ _) fun _ => .bind (.acquire _) fun _ => .bind .get fun _ => .bind (.require _ _) fun _ =>
      .bind (.modify fun _ => rfl) fun _ => .pure _) fun _ => .pure _

theorem keeps_columns {g : AccountRow → AccountRow} (userId : Uuid)
    (hg : ∀ a, ((g a).id, (g a).failedLoginCount, (g a).lockedUntil) = (a.id, a.failedLoginCount, a.lockedUntil)) :
    (do
      Prog.acquire (.account userId)
      Prog.modify (Db.changeAccount userId g) : Tx Unit).Keeps ledgerOf :=
  .bind (.acquire _) fun _ => .modify fun d => ledgerOf_of_columns hg d _

theorem keeps_changePassword (env : Env) (auth : AuthContext) (current new : String) :
    (PasswordService.changePassword env auth current new).Keeps ledgerOf := by
  refine .bind (.bind .get fun _ => .pure _) fun _ => .bind (.expect _ _) fun _ =>
    .bind (keeps_policy env new _) fun _ => .bind (.acquire _) fun _ => .bind (.modify fun d => ?_) fun _ =>
      .bind (keeps_ledgers (keeps_revocations _ _ _ _)) fun _ => keeps_ledgers ?_
  · exact ledgerOf_of_columns (g := PasswordService.withNewPassword env new) (fun _ => rfl) d _
  · exact .bind (.updateWhere _ _ fun _ => rfl) fun _ =>
      .bind (.when _ (.bind (.acquire _) fun _ => .bind .get fun _ => .require _ _)) fun _ => .pure _

theorem code_safe (q : Call) (d : Db) : q.Safe d := by
  cases q with
  | login env input => exact login_safe env input
  | setPassword env userId password => exact setPassword_safe env userId password
  | resetPassword env token password => exact resetPassword_safe env token password
  | create env input => exact create_safe env input
  | openSession env account =>
      exact safe_of_keeps rfl (keeps_ledgers (keeps_openSession env account)) fun _ _ _ => rfl
  | changePassword env auth current new =>
      exact safe_of_keeps rfl (keeps_changePassword env auth current new) fun _ _ _ => rfl
  | setStatus userId status => exact safe_of_keeps rfl (keeps_columns userId fun _ => rfl) fun _ _ _ => rfl
  | enforceMfa userId => exact safe_of_keeps rfl (keeps_columns userId fun _ => rfl) fun _ _ _ => rfl

theorem code_keeps (q : Call) : q.code.Keeps fun _ : Db => () := by
  cases q with
  | openSession => exact .map _ ((keeps_openSession _ _).comp fun _ => ())
  | changePassword => exact .map _ ((keeps_changePassword _ _ _ _).comp fun _ => ())
  | setStatus | enforceMfa => exact .map _ (.bind (.acquire _) fun _ => .modify fun _ => rfl)
  | create env input =>
      exact .map _ (.bind (.acquire _) fun _ => .bind .get fun _ => .bind (.require _ _) fun _ =>
        .bind (.acquire _) fun _ => .bind .get fun _ => .bind (.require _ _) fun _ =>
          .bind (.modify fun _ => rfl) fun _ => .pure _)
  | resetPassword env token password =>
      exact .map _ (.bind (.bind .get fun _ => .pure _) fun _ => .bind (.expect _ _) fun _ =>
        .bind (keeps_policy _ _ _) fun _ => .bind (.bind ((keeps_spend _ _ _).comp fun _ => ()) fun _ =>
          .bind (.require _ _) fun _ => .bind (.acquire _) fun _ => .bind (.modify fun _ => rfl) fun _ =>
            (keeps_revocations _ _ _ _).comp fun _ => ()) fun _ => .pure _)
  | setPassword env userId password =>
      refine .map _ (.bind (.bind .get fun _ => .pure _) fun _ => .bind (.expect _ _) fun account => ?_)
      split
      · exact .throw _
      · exact .bind (.acquire _) fun _ => .modify fun _ => rfl
  | login env input =>
      refine .map _ (.bind (.bind .get fun _ => .pure _) fun found => ?_)
      cases found with
      | none => exact .pure _
      | some account =>
          refine .ite (.pure _) (.ite (.map _ (.bind (.acquire _) fun _ => .bind .get fun d => ?_)) ?_)
          · split
            · exact .pure _
            · exact .bind (.ofExcept _) fun _ => .bind (.modify fun _ => rfl) fun _ => .pure _
          · exact .bind (.acquire _) fun _ => .bind (.modify fun _ => rfl) fun _ => .pure _

end Requests

/-! ## Runs -/

section Runs

variable {ι : Type} [DecidableEq ι] {start w w' : World ι Call Db Lock Error Reply}
  {labels : List (Label ι Call Error Reply)}

/-- In every run the ledgers are what the answers have entered into them. -/
theorem ledger_of_run (hidle : start.Idle) (hrun : Run Call.code start labels w) (id : Uuid) :
    ledgerOf w.db id = labels.foldl (observe id) (ledgerOf start.db id) := by
  have hwhole : ∀ q : Call, q.code.Whole (fun d : Db => d) := fun q => (code_keeps q).whole
  induction hrun with
  | start => rfl
  | @step labels w lab w' hrun hstep ih =>
      have hsound : lockProtocol.Sound Call.enters (fun _ _ _ => True) w :=
        Sound.reachable (fun q d _ => code_safe q d) (.of_idle hidle trivial) (hrun.reachable Call.code)
      rw [List.foldl_append, List.foldl_cons, List.foldl_nil, ← ih]
      have hquiet : lab.answer? = none → w'.db = w.db := hstep.quiet Call.code hwhole
        (Reachable.oneTransaction Call.code hwhole hidle (hrun.reachable Call.code))
      cases lab with
      | answers i q r =>
          cases r with
          | ok a => exact hsound.answer hstep id
          | error e =>
              rw [hquiet rfl]
              rfl
      | begins | works | publishes | crashes =>
          rw [hquiet rfl]
          rfl

/-- The program that is about to count a failure. -/
def counting (env : LoginEnv) (userId : Uuid) : Tx Reply :=
  Reply.signIn <$> (Outcome.wrongPassword userId <$> countFailure env userId)

/-- A failure is counted where there are at most 34. No counter is negative. -/
def Call.Countable (q : Call) (p : Tx Reply) (v : Db) : Prop :=
  ∀ env input userId a, q = .login env input → p = counting env userId → v.accountById userId = some a →
    0 ≤ a.failedLoginCount ∧ a.failedLoginCount ≤ 34

/-- What follows once the account has been read. -/
def answerTo (env : LoginEnv) (input : LoginRequest) : Option AccountRow → Tx Reply
  | none => .ret (.signIn .refused)
  | some account => Reply.signIn <$> AuthService.attempt env input account

theorem login_code (env : LoginEnv) (input : LoginRequest) :
    (Call.login env input).code =
      .read fun d => answerTo env input (d.accounts.find? fun a => a.email == input.email) := by
  refine congrArg Prog.read (funext fun d => ?_)
  change Reply.signIn <$> (match d.accounts.find? fun a => a.email == input.email with
    | none => pure Outcome.refused
    | some account => AuthService.attempt env input account : Tx Outcome) = _
  cases d.accounts.find? fun a => a.email == input.email <;> rfl

theorem login_unfailing (env : LoginEnv) (input : LoginRequest) :
    (Call.login env input).code.Unfailing (Call.login env input).Countable := by
  rw [login_code]
  intro d _
  dsimp only
  cases d.accounts.find? fun a => a.email == input.email with
  | none => trivial
  | some account =>
      rw [answerTo, AuthService.attempt]
      split
      · trivial
      · split
        · intro v hcount
          change Prog.Unfailing _ (Reply.signIn <$> (Outcome.wrongPassword account.id <$>
            (match v.accountById account.id with
              | none => pure ⟨0, none⟩
              | some a => do
                  let f ← Prog.ofExcept (AuthService.failure env.dbNow a)
                  Prog.modify (Db.changeAccount account.id fun a =>
                    { a with failedLoginCount := f.count, lockedUntil := f.lockedUntil })
                  return f : Tx Failure)))
          cases hrow : v.accountById account.id with
          | none => trivial
          | some a =>
              obtain ⟨hlow, hhigh⟩ := hcount env input account.id a rfl rfl hrow
              obtain ⟨f, hf⟩ := (@failure_ok_iff env.dbNow a hlow).2 hhigh
              dsimp only
              rw [hf]
              trivial
        · trivial

/-- An attempt that finds the account locked is refused, whatever the password. -/
theorem refused_while_locked {i : ι} {env : LoginEnv} {input : LoginRequest} {a : AccountRow}
    (hbegun : w.sessions i = some (.login env input, ⟨(Call.login env input).code, ∅, id⟩))
    (hfind : (w.db.accounts.find? fun a => a.email == input.email) = some a)
    (hlocked : AuthService.locked env.now a = true)
    (hstep : Step Call.code w (.works i (.login env input)) w') :
    w'.sessions i = some (.login env input, ⟨.ret (.signIn .refused), ∅, id⟩) := by
  have hrefused : answerTo env input (some a) = .ret (.signIn .refused) := by
    rw [answerTo, AuthService.attempt, if_pos (by simp [hlocked])]
    rfl
  rw [login_code] at hbegun
  cases hstep with
  | read hi =>
      have hsame := (Prod.mk.inj (Option.some.inj (hi.symm.trans hbegun))).2
      injection hsame with hprog hheld hpending
      injection hprog with hk
      subst hk hheld hpending
      simp only [World.set, Function.update_self, id_eq, hfind, hrefused]
  | write hi | lock hi | tryLock hi | skipLock hi =>
      have hsame := (Prod.mk.inj (Option.some.inj (hi.symm.trans hbegun))).2
      injection hsame with hprog
      cases hprog

/-- While every failure finds at most 34 failures, the ledger of an account is what the
answers have entered into it and no sign-in ends with an error; whoever finds the account
locked is refused. The database counts as far as that and no further. -/
theorem lockout_stays (hidle : start.Idle) (hrun : Wary Call.code Call.Countable start labels w) (userId : Uuid) :
    ledgerOf w.db userId = labels.foldl (observe userId) (ledgerOf start.db userId) ∧
      (∀ i env input e, Label.answers i (.login env input) (.error e) ∉ labels) ∧
      (∀ i env input a w', w.sessions i = some (.login env input, ⟨(Call.login env input).code, ∅, id⟩) →
        (w.db.accounts.find? fun a => a.email == input.email) = some a → AuthService.locked env.now a = true →
        Step Call.code w (.works i (.login env input)) w' →
        w'.sessions i = some (.login env input, ⟨.ret (.signIn .refused), ∅, id⟩)) ∧
      ∀ now a, 0 ≤ a.failedLoginCount →
        ((∃ f, AuthService.failure now a = .ok f) ↔ a.failedLoginCount ≤ 34) := by
  refine ⟨ledger_of_run hidle hrun.run userId, fun i env input e => ?_, fun i env input a w' => ?_,
    fun now a hcount => failure_ok_iff hcount⟩
  · refine hrun.answered (p := fun q => ∃ env input, q = .login env input) hidle ?_ ⟨env, input, rfl⟩
    rintro _ ⟨env, input, rfl⟩
    exact login_unfailing env input
  · exact fun hbegun hfind hlocked hstep => refused_while_locked hbegun hfind hlocked hstep

end Runs

/-! ## Somebody who keeps trying -/

def registrar : Db := {
  accounts := [{ id := 1, email := "r@x", displayName := "R", passwordHash := some "right" }] }

/-- One attempt every two hours. -/
def guess (n : ℕ) : Call := .login { now := n * 7200000, dbNow := n * 7200000 } ⟨"r@x", "wrong"⟩

abbrev Office := Duo Call Db Lock Error Reply

def office : Office := Duo.idle registrar

def guesses (n : ℕ) : List (Move Call) := (List.range n).flatMap fun k => [.begins true (guess k), .turns true 5]

def guessed (n : ℕ) : Office := office.play Call.code (guesses n)

def fewFailures (d : Db) : Bool := d.accounts.all fun a => 0 ≤ a.failedLoginCount && a.failedLoginCount ≤ 34

theorem countable_of_few {q : Call} {p : Tx Reply} {v : Db} (h : fewFailures v = true) : q.Countable p v := by
  intro env input userId a _ _ ha
  have hcount := List.all_eq_true.1 h a (List.mem_of_find?_eq_some ha)
  simpa using hcount

theorem lockout_stays_six : ∃ labels : List (Label Bool Call Error Reply),
    ledgerOf (guessed 6).db 1 = labels.foldl (@observe Bool 1) (ledgerOf office.db 1) ∧
      ∀ i env input e, Label.answers i (.login env input) (.error e) ∉ labels := by
  obtain ⟨labels, hrun⟩ := @Duo.play_wary _ _ _ _ _ _ Call.code fewFailures Call.Countable
    (fun _ _ _ h => countable_of_few h) office (guesses 6) (by decide +kernel)
  have hstays := lockout_stays (fun _ => rfl) hrun 1
  exact ⟨labels, hstays.1, hstays.2.1⟩

/-- The sixth failure locks the account for two minutes. -/
example : ledgerOf (guessed 6).db 1 = some (6, some (5 * 7200000 + 2 * 60000)) := by decide +kernel

/-- After 35 failures the account is locked for an hour, and then no more: the next failure
ends with an error and is not counted. -/
theorem lockout_gone :
    Reachable Call.code office.world (guessed 35).world ∧
      ledgerOf (guessed 35).db 1 = some (35, some (34 * 7200000 + 60 * 60000)) ∧
      (match ((guess 35).code.alone (guessed 35).db).1 with
        | .error e => e == outOfRange
        | .ok _ => false) = true ∧
      ledgerOf ((guess 35).code.alone (guessed 35).db).2 1 = some (35, some (34 * 7200000 + 60 * 60000)) :=
  ⟨Duo.play_reachable Call.code office _, by decide +kernel, by decide +kernel, by decide +kernel⟩

end Emis.Identity.Lockout
