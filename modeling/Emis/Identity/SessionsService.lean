import Emis.Identity.Schema

/-!
# Sessions

`modules/identity/application/sessions.service.ts`. The address and the browser of a
session are left out.
-/

namespace Emis.Identity

open Transactions

def TOUCH_INTERVAL_MS : ℤ := 60000

def MAX_MFA_ATTEMPTS : ℕ := 5

inductive AuthNextStep where
  | none
  | mfa
  | mfaEnrollment
  deriving DecidableEq, Repr

/-- What is still to be done before a session may be used. -/
def nextStepFor (mfaEnabled mfaEnforced mfaVerified : Bool) : AuthNextStep :=
  if mfaVerified then .none
  else if mfaEnabled then .mfa
  else if mfaEnforced then .mfaEnrollment
  else .none

structure AuthContext where
  sessionId : Uuid
  userId : Uuid
  email : String
  displayName : String
  mfaEnabled : Bool
  mfaEnforced : Bool
  mfaVerified : Bool
  sessionCreatedAt : Instant
  absoluteExpiresAt : Instant
  nextStep : AuthNextStep
  deriving DecidableEq, Repr

namespace SessionsService

structure Expiries where
  idle : Instant
  absolute : Instant

def expiries (env : Env) (absoluteExpiresAt : Option Instant) : Expiries :=
  let absolute := absoluteExpiresAt.getD (env.now + env.sessionAbsoluteHours * 3600000)
  { idle := min (env.now + env.sessionIdleMinutes * 60000) absolute, absolute := absolute }

def create (env : Env) (userId : Uuid) (mfaVerified : Bool) : Tx (String × Uuid) := do
  let hash := env.hashToken env.token
  let limits := expiries env none
  Prog.acquire (.sessionToken hash)
  let d ← Prog.get
  Prog.require (!d.sessions.any fun s => s.tokenHash == hash)
    (.database (.unique "user_sessions_token_hash_key"))
  Prog.acquire (.session env.newSessionId)
  let d ← Prog.get
  Prog.require (!d.sessions.any fun s => s.id == env.newSessionId)
    (.database (.unique "user_sessions_pkey"))
  Prog.modify fun d => { d with
    sessions := d.sessions ++ [{
      id := env.newSessionId
      userId := userId
      tokenHash := hash
      createdAt := env.now
      lastSeenAt := env.now
      idleExpiresAt := limits.idle
      absoluteExpiresAt := limits.absolute
      mfaVerifiedAt := if mfaVerified then some env.now else none }] }
  return (env.token, env.newSessionId)

/-- A session that a token opens at a moment. -/
def opens (d : Db) (now : Instant) (hash : String) (s : SessionRow) : Bool :=
  s.tokenHash == hash && s.revokedAt.isNone && s.idleExpiresAt > now && s.absoluteExpiresAt > now &&
    d.accounts.any fun a => a.id == s.userId && a.status == .active

/-- A session's row, whatever it is by now. -/
def changeSession (sessionId : Uuid) (f : SessionRow → SessionRow) : Tx Bool :=
  let hit (s : SessionRow) : Bool := s.id == sessionId
  Prog.updateWhere (.session sessionId) (fun d => d.sessions.any hit) fun d =>
    { d with sessions := changeWhere hit f d.sessions }

def contextOf (d : Db) (s : SessionRow) (account : AccountRow) : AuthContext :=
  let mfaEnabled := d.factors.any fun f => f.userId == s.userId && f.confirmedAt.isSome
  { sessionId := s.id
    userId := account.id
    email := account.email
    displayName := account.displayName
    mfaEnabled := mfaEnabled
    mfaEnforced := account.mfaEnforced
    mfaVerified := s.mfaVerifiedAt.isSome
    sessionCreatedAt := s.createdAt
    absoluteExpiresAt := s.absoluteExpiresAt
    nextStep := nextStepFor mfaEnabled account.mfaEnforced s.mfaVerifiedAt.isSome }

def touched (env : Env) (absoluteExpiresAt : Instant) (s : SessionRow) : SessionRow :=
  { s with lastSeenAt := env.now, idleExpiresAt := (expiries env (some absoluteExpiresAt)).idle }

/-- Resolve a cookie token to a live session, sliding the idle timeout. -/
def authenticate (env : Env) (token : String) : Tx (Option AuthContext) := do
  let d ← Prog.get
  match d.sessions.find? (opens d env.now (env.hashToken token)) with
  | none => return none
  | some s =>
      Prog.when (env.now - s.lastSeenAt > TOUCH_INTERVAL_MS) do
        let _ ← changeSession s.id (touched env s.absoluteExpiresAt)
      return (d.accountById s.userId).map (contextOf d s)

def rotated (env : Env) (markMfaVerified : Bool) (s : SessionRow) : SessionRow :=
  { s with
    tokenHash := env.hashToken env.token
    lastSeenAt := env.now
    mfaFailedAttempts := 0
    mfaVerifiedAt := if markMfaVerified then some env.now else s.mfaVerifiedAt }

/-- New token for the same session. The row is written before the unique index finds
another one with its token. -/
def rotate (env : Env) (sessionId : Uuid) (markMfaVerified : Bool) : Tx String := do
  let hash := env.hashToken env.token
  let found ← changeSession sessionId (rotated env markMfaVerified)
  Prog.when found do
    Prog.acquire (.sessionToken hash)
    let d ← Prog.get
    Prog.require (!d.sessions.any fun s => s.id != sessionId && s.tokenHash == hash)
      (.database (.unique "user_sessions_token_hash_key"))
  return env.token

def revoked (env : Env) (reason : String) (s : SessionRow) : SessionRow :=
  { s with revokedAt := some env.now, revokedReason := some reason }

/-- Revoke the session if it is `p` and not revoked yet. -/
def revokeWhere (env : Env) (sessionId : Uuid) (p : SessionRow → Bool) (reason : String) : Tx Bool :=
  let hit (s : SessionRow) : Bool := s.id == sessionId && p s && s.revokedAt.isNone
  Prog.updateWhere (.session sessionId) (fun d => d.sessions.any hit) fun d =>
    { d with sessions := changeWhere hit (revoked env reason) d.sessions }

def revoke (env : Env) (sessionId : Uuid) (reason : String) : Tx Unit := do
  let _ ← revokeWhere env sessionId (fun _ => true) reason

/-- Revoke a session only if it belongs to the user. -/
def revokeOwn (env : Env) (userId sessionId : Uuid) (reason : String) : Tx Bool :=
  revokeWhere env sessionId (fun s => s.userId == userId) reason

/-- `revokeAllForUser`; how many there were goes into the audit trail only. -/
def revokeAllForUser (env : Env) (userId : Uuid) (reason : String)
    (exceptSessionId : Option Uuid := none) : Tx Unit := do
  let d ← Prog.get
  let rows := d.sessions.filter fun s =>
    s.userId == userId && s.revokedAt.isNone && exceptSessionId != some s.id
  rows.forM fun row => do
    let _ ← revokeWhere env row.id (fun s => s.userId == userId) reason

/-- Counts a wrong code; returns the running total for this session. -/
def recordMfaFailure (sessionId : Uuid) : Tx ℕ := do
  Prog.acquire (.session sessionId)
  let d ← Prog.get
  Prog.modify fun d => { d with
    sessions := changeWhere (fun s => s.id == sessionId)
      (fun s => { s with mfaFailedAttempts := s.mfaFailedAttempts + 1 }) d.sessions }
  return ((d.sessions.find? fun s => s.id == sessionId).map fun s => s.mfaFailedAttempts + 1).getD MAX_MFA_ATTEMPTS

end SessionsService

end Emis.Identity
