import Emis.Identity.Schema

/-!
# Accounts

`modules/identity/application/accounts.service.ts`.
-/

namespace Emis.Identity

open Transactions

structure NewAccount where
  email : String
  displayName : String
  mfaEnforced : Bool := false

namespace AccountsService

def findByEmail (email : String) : Tx (Option AccountRow) := do
  let d ← Prog.get
  return d.accounts.find? fun a => a.email == email

def findById (id : Uuid) : Tx (Option AccountRow) := do
  let d ← Prog.get
  return d.accountById id

/-- `create` of an account whose owner will set the password. An entry of the
unique index on the email is taken first, which waits for anybody who is adding
the same entry. -/
def create (env : Env) (input : NewAccount) : Tx Uuid := do
  Prog.acquire (.email input.email)
  let d ← Prog.get
  Prog.require (!d.accounts.any fun a => a.email == input.email) authErrors.emailTaken
  Prog.acquire (.account env.newUserId)
  let d ← Prog.get
  Prog.require (!d.accounts.any fun a => a.id == env.newUserId) authErrors.emailTaken
  Prog.modify fun d => { d with
    accounts := d.accounts ++ [{
      id := env.newUserId
      email := input.email
      displayName := input.displayName
      mfaEnforced := input.mfaEnforced
      createdAt := env.now }] }
  return env.newUserId

/-- What `setPassword` sets. -/
def withPassword (env : Env) (password : String) (a : AccountRow) : AccountRow :=
  { a with
    passwordHash := some (env.hash password)
    passwordChangedAt := some env.now
    failedLoginCount := 0
    lockedUntil := none }

/-- Set (or replace) a password after checking it against the policy. -/
def setPassword (env : Env) (userId : Uuid) (password : String) : Tx Unit := do
  let account ← findById userId
  let account ← Prog.expect account (.internal s!"Account {userId} not found")
  match env.weakness password [account.email, account.displayName] with
  | some reason => Prog.throw (authErrors.weakPassword reason)
  | none =>
      Prog.acquire (.account userId)
      Prog.modify (Db.changeAccount userId (withPassword env password))

def setStatus (userId : Uuid) (status : AccountStatus) : Tx Unit := do
  Prog.acquire (.account userId)
  Prog.modify (Db.changeAccount userId fun a => { a with status := status })

/-- From now on this account must use two-factor authentication. -/
def enforceMfa (userId : Uuid) : Tx Unit := do
  Prog.acquire (.account userId)
  Prog.modify (Db.changeAccount userId fun a => { a with mfaEnforced := true })

end AccountsService

end Emis.Identity
