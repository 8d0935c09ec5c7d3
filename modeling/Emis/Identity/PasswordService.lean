import Emis.Identity.AccountsService
import Emis.Identity.SessionsService

/-!
# Passwords

`modules/identity/application/password.service.ts`: reset links and changes while
signed in. The security events and the emails are left out.
-/

namespace Emis.Identity

open Transactions

def RESET_TOKEN_TTL_MINUTES : ℤ := 30

namespace PasswordService

def used (now : Instant) (t : ResetTokenRow) : ResetTokenRow := { t with usedAt := some now }

def useLinks (now : Instant) (hit : ResetTokenRow → Bool) (d : Db) : Db :=
  { d with resetTokens := changeWhere hit (used now) d.resetTokens }

/-- `UPDATE … SET used_at` on one row that matches. -/
def spend (now : Instant) (tokenId : Uuid) (p : ResetTokenRow → Bool) : Tx Bool :=
  let hit (t : ResetTokenRow) : Bool := t.id == tokenId && p t && t.usedAt.isNone
  Prog.updateWhere (.resetToken tokenId) (fun d => d.resetTokens.any hit) (useLinks now hit)

/-- Only the newest link works. -/
def issueToken (env : Env) (userId : Uuid) : Tx Unit := do
  let d ← Prog.get
  let rows := d.resetTokens.filter fun t => t.userId == userId && t.usedAt.isNone
  rows.forM fun row => do
    let _ ← spend env.now row.id fun t => t.userId == userId
  let hash := env.hashToken env.token
  Prog.acquire (.resetToken env.newTokenId)
  Prog.acquire (.resetTokenHash hash)
  let d ← Prog.get
  Prog.require (!d.resetTokens.any fun t => t.id == env.newTokenId)
    (.database (.unique "password_reset_tokens_pkey"))
  Prog.require (!d.resetTokens.any fun t => t.tokenHash == hash)
    (.database (.unique "password_reset_tokens_token_hash_key"))
  Prog.modify fun d => { d with
    resetTokens := d.resetTokens ++ [{
      id := env.newTokenId
      userId := userId
      tokenHash := hash
      expiresAt := env.now + RESET_TOKEN_TTL_MINUTES * 60000 }] }

/-- Always succeeds from the caller's point of view. -/
def requestReset (env : Env) (email : String) : Tx Unit := do
  let account ← AccountsService.findByEmail email
  match account.filter fun a => a.status == .active with
  | none => return
  | some account => issueToken env account.id

/-- The link of a token, with the account it is for. -/
def findLink (env : Env) (token : String) : Tx (Option (ResetTokenRow × AccountRow)) := do
  let d ← Prog.get
  return (d.resetTokens.find? fun t =>
    t.tokenHash == env.hashToken token && t.usedAt.isNone && t.expiresAt > env.now &&
      d.accounts.any fun a => a.id == t.userId && a.status == .active).bind fun t =>
        (d.accountById t.userId).map fun account => (t, account)

def checkPolicy (env : Env) (password : String) (account : AccountRow) : Tx Unit :=
  match env.weakness password [account.email, account.displayName] with
  | some reason => Prog.throw (authErrors.weakPassword reason)
  | none => return

/-- Claim the token atomically: two concurrent resets with the same link can't both succeed. -/
def applyReset (env : Env) (tokenId userId : Uuid) (password : String) : Tx Unit := do
  let claimed ← spend env.now tokenId fun _ => true
  Prog.require claimed authErrors.invalidResetToken
  Prog.acquire (.account userId)
  Prog.modify (Db.changeAccount userId (AccountsService.withPassword env password))
  SessionsService.revokeAllForUser env userId "password_reset"

def resetPassword (env : Env) (token password : String) : Tx Unit := do
  let link ← findLink env token
  let found ← Prog.expect link authErrors.invalidResetToken
  checkPolicy env password found.2
  applyReset env found.1.id found.1.userId password

/-- What `applyChange` sets; the counter of failed logins stays. -/
def withNewPassword (env : Env) (password : String) (a : AccountRow) : AccountRow :=
  { a with passwordHash := some (env.hash password), passwordChangedAt := some env.now }

def applyChange (env : Env) (auth : AuthContext) (password : String) : Tx String := do
  Prog.acquire (.account auth.userId)
  Prog.modify (Db.changeAccount auth.userId (withNewPassword env password))
  SessionsService.revokeAllForUser env auth.userId "password_changed" (some auth.sessionId)
  SessionsService.rotate env auth.sessionId false

/-- Change while signed in: other sessions end, this one continues with a fresh token. -/
def changePassword (env : Env) (auth : AuthContext) (currentPassword newPassword : String) : Tx String := do
  let account ← AccountsService.findById auth.userId
  let account ← Prog.expect
    (account.filter fun a => a.passwordHash.any fun h => env.verifyHash h currentPassword)
    authErrors.invalidCurrentPassword
  checkPolicy env newPassword account
  applyChange env auth newPassword

end PasswordService

end Emis.Identity
