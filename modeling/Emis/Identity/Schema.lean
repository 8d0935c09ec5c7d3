import Emis.Common.Dates
import Emis.Common.Permissions
import Emis.Library.Table

/-!
# Accounts, sessions, second factors and roles

The tables of `schema/identity.ts` and `schema/access.ts` with the columns the
services use. Emails come in the form the request schemas give them.
-/

namespace Emis.Identity

open Transactions

inductive AccountStatus where
  | active
  | disabled
  deriving DecidableEq, Repr

structure AccountRow where
  id : Uuid
  email : String
  displayName : String
  /-- Null until the person sets a password. -/
  passwordHash : Option String := none
  status : AccountStatus := .active
  mfaEnforced : Bool := false
  failedLoginCount : ℤ := 0
  lockedUntil : Option Instant := none
  lastLoginAt : Option Instant := none
  passwordChangedAt : Option Instant := none
  createdAt : Instant := 0
  deriving DecidableEq, Repr

structure SessionRow where
  id : Uuid
  userId : Uuid
  tokenHash : String
  createdAt : Instant := 0
  lastSeenAt : Instant := 0
  idleExpiresAt : Instant := 0
  absoluteExpiresAt : Instant := 0
  mfaVerifiedAt : Option Instant := none
  mfaFailedAttempts : ℕ := 0
  revokedAt : Option Instant := none
  revokedReason : Option String := none
  deriving DecidableEq, Repr

/-- One authenticator per account. -/
structure FactorRow where
  id : Uuid
  userId : Uuid
  secretCiphertext : String
  confirmedAt : Option Instant := none
  lastUsedTimeStep : Option ℕ := none
  deriving DecidableEq, Repr

structure RecoveryCodeRow where
  id : Uuid
  userId : Uuid
  codeHash : String
  usedAt : Option Instant := none
  deriving DecidableEq, Repr

structure ResetTokenRow where
  id : Uuid
  userId : Uuid
  tokenHash : String
  expiresAt : Instant
  usedAt : Option Instant := none
  deriving DecidableEq, Repr

inductive ScopeType where
  | global
  | branch
  | department
  deriving DecidableEq, Repr

structure RoleRow where
  id : Uuid
  key : String
  name : String
  mfaRequired : Bool := false
  allowedScopes : List ScopeType := [.global]
  deriving DecidableEq, Repr

structure AssignmentRow where
  id : Uuid
  userId : Uuid
  roleId : Uuid
  scope : Scope
  deriving DecidableEq, Repr

structure InvitationRow where
  id : Uuid
  userId : Uuid
  tokenHash : String
  expiresAt : Instant
  acceptedAt : Option Instant := none
  revokedAt : Option Instant := none
  deriving DecidableEq, Repr

/-- `spentAssignments` are the ids of assignments that were removed: `uuidv7()`
gives none of them again. `branches` and `departments` are the active ones. -/
structure Db where
  accounts : List AccountRow := []
  sessions : List SessionRow := []
  factors : List FactorRow := []
  recoveryCodes : List RecoveryCodeRow := []
  resetTokens : List ResetTokenRow := []
  roles : List RoleRow := []
  assignments : List AssignmentRow := []
  spentAssignments : List Uuid := []
  invitations : List InvitationRow := []
  branches : List Uuid := []
  departments : List Uuid := []

inductive Lock where
  | account (id : Uuid)
  | email (email : String)
  | session (id : Uuid)
  | sessionToken (tokenHash : String)
  | factor (userId : Uuid)
  | recoveryCode (id : Uuid)
  | resetToken (id : Uuid)
  | resetTokenHash (tokenHash : String)
  | assignment (id : Uuid)
  | grant (userId roleId : Uuid) (scope : Scope)
  | invitation (id : Uuid)
  | invitationToken (tokenHash : String)
  /-- `pg_advisory_xact_lock(hashtext('emis.admin_guard'))`. -/
  | adminGuard
  deriving DecidableEq, Repr

/-- What a call takes from its surroundings: the clock, the ids of the rows it
inserts, the random token, the password hasher, the password policy, which gives a
reason to refuse, and the limits of sessions. -/
structure Env where
  now : Instant := 0
  newUserId : Uuid := 0
  newId : Uuid := 0
  newInvitationId : Uuid := 0
  newTokenId : Uuid := 0
  newSessionId : Uuid := 0
  token : String := ""
  hashToken : String → String := id
  hash : String → String := id
  verifyHash : String → String → Bool := fun hash password => hash == password
  needsRehash : String → Bool := fun _ => false
  weakness : String → List String → Option String := fun _ _ => none
  sessionIdleMinutes : ℤ := 30
  sessionAbsoluteHours : ℤ := 12

abbrev Tx := Prog Db Lock Error

def Db.accountById (d : Db) (id : Uuid) : Option AccountRow := d.accounts.find? fun a => a.id == id

def Db.changeAccount (id : Uuid) (f : AccountRow → AccountRow) (d : Db) : Db :=
  { d with accounts := changeWhere (fun a => a.id == id) f d.accounts }

namespace authErrors

def invalidCredentials : Error :=
  .http <| unauthorized "INVALID_CREDENTIALS" "Incorrect email or password."

def unauthenticated : Error := .http <| unauthorized "UNAUTHENTICATED" "Sign in to continue."

def invalidMfaCode : Error := .http <| unauthorized "INVALID_MFA_CODE" "That code is not valid."

def mfaAlreadyEnabled : Error :=
  .http <| conflict "MFA_ALREADY_ENABLED" "Two-factor authentication is already on."

def mfaNotEnabled : Error :=
  .http <| conflict "MFA_NOT_ENABLED" "Two-factor authentication is not set up."

def mfaEnforced : Error :=
  .http <| forbidden "MFA_ENFORCED" "Your account requires two-factor authentication."

def invalidResetToken : Error :=
  .http <| badRequest "INVALID_RESET_TOKEN"
    "This reset link is invalid or has expired. Request a new one."

def invalidCurrentPassword : Error :=
  .http <| badRequest "INVALID_CURRENT_PASSWORD" "Your current password is incorrect."

def weakPassword (reason : String) : Error := .http <| unprocessable "WEAK_PASSWORD" reason

def emailTaken : Error := .http <| conflict "EMAIL_TAKEN" "That email is already in use."

end authErrors

end Emis.Identity
