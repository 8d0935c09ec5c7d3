import Emis.Identity.PasswordService
import Mathlib.Algebra.Group.Int.Defs

/-!
# Signing in

`modules/identity/application/auth.service.ts`. A sign-in is no transaction: each of its
statements is one. The security events and the email about a lockout are left out.
-/

namespace Emis.Identity

open Transactions

structure LoginRequest where
  email : String
  password : String

/-- `now()` of the database is a clock of its own. -/
structure LoginEnv extends Env where
  dbNow : Instant := 0

structure LoginResponse where
  userId : Uuid
  email : String
  displayName : String
  nextStep : AuthNextStep
  deriving DecidableEq, Repr

/-! ## Numbers of the database -/

def INT4_MAX : ℤ := 2147483647

def outOfRange : Error := .database (.raised "integer out of range")

/-- A value of type `integer`. -/
def int4 (x : ℤ) : Except Error ℤ := if -INT4_MAX - 1 ≤ x ∧ x ≤ INT4_MAX then .ok x else .error outOfRange

/-- `power(2, n)` in double precision, which is exact up to the largest exponent. -/
def powerOfTwo (n : ℕ) : Except Error ℤ :=
  if n < 1024 then .ok (2 ^ n) else .error (.database (.raised "value out of range: overflow"))

namespace AuthService

def LOCKOUT_THRESHOLD : ℤ := 5

def MAX_LOCKOUT_MINUTES : ℤ := 60

structure Failure where
  count : ℤ
  lockedUntil : Option Instant
  deriving DecidableEq, Repr

/-- `LEAST(60, power(2, next - 5)::int)`. -/
def lockoutMinutes (next : ℤ) : Except Error ℤ := do
  let exponent ← int4 (next - LOCKOUT_THRESHOLD)
  let power ← powerOfTwo exponent.toNat
  let minutes ← int4 power
  return min MAX_LOCKOUT_MINUTES minutes

/-- The counter and the end of the lockout that the update gives a row. -/
def failure (now : Instant) (a : AccountRow) : Except Error Failure := do
  let next ← int4 (a.failedLoginCount + 1)
  if LOCKOUT_THRESHOLD ≤ next then
    let minutes ← lockoutMinutes next
    return ⟨next, some (now + minutes * 60000)⟩
  else
    return ⟨next, a.lockedUntil⟩

/-- The update of `registerFailure`, once it has the row. -/
def countFailure (env : LoginEnv) (userId : Uuid) : Tx Failure := do
  let d ← Prog.get
  match d.accountById userId with
  | none => return ⟨0, none⟩
  | some a =>
      let f ← Prog.ofExcept (failure env.dbNow a)
      Prog.modify (Db.changeAccount userId fun a =>
        { a with failedLoginCount := f.count, lockedUntil := f.lockedUntil })
      return f

/-- Atomically count a failure and lock the account. -/
def registerFailure (env : LoginEnv) (userId : Uuid) : Tx Failure := do
  Prog.acquire (.account userId)
  countFailure env userId

def usable (a : AccountRow) : Bool := a.status == .active && a.passwordHash.isSome

def locked (now : Instant) (a : AccountRow) : Bool := a.lockedUntil.any fun t => now < t

/-- How a sign-in goes on. -/
inductive Outcome where
  | refused
  | wrongPassword (userId : Uuid) (failure : Failure)
  | passed (account : AccountRow)
  deriving DecidableEq, Repr

/-- The update after a password that was right. -/
def signedIn (env : LoginEnv) (input : LoginRequest) (account : AccountRow) (a : AccountRow) : AccountRow :=
  { a with
    failedLoginCount := 0
    lockedUntil := none
    lastLoginAt := some env.now
    passwordHash :=
      if account.passwordHash.any env.needsRehash then some (env.hash input.password) else a.passwordHash }

/-- The account as it was read is unusable, locked, or has the password checked. -/
def attempt (env : LoginEnv) (input : LoginRequest) (account : AccountRow) : Tx Outcome :=
  if !usable account || locked env.now account then
    return .refused
  else if !account.passwordHash.any fun h => env.verifyHash h input.password then
    Outcome.wrongPassword account.id <$> registerFailure env account.id
  else do
    Prog.acquire (.account account.id)
    Prog.modify (Db.changeAccount account.id (signedIn env input account))
    return .passed account

/-- `login` up to the update of the account. -/
def signIn (env : LoginEnv) (input : LoginRequest) : Tx Outcome := do
  let account ← AccountsService.findByEmail input.email
  match account with
  | none => return .refused
  | some account => attempt env input account

def hasConfirmedFactor (userId : Uuid) : Tx Bool := do
  let d ← Prog.get
  return d.factors.any fun f => f.userId == userId && f.confirmedAt.isSome

/-- `login` after it. -/
def openSession (env : LoginEnv) (account : AccountRow) : Tx (String × LoginResponse) := do
  let mfaEnabled ← hasConfirmedFactor account.id
  let created ← SessionsService.create env.toEnv account.id false
  return (created.1, {
    userId := account.id
    email := account.email
    displayName := account.displayName
    nextStep := nextStepFor mfaEnabled account.mfaEnforced false })

def login (env : LoginEnv) (input : LoginRequest) : Tx (String × LoginResponse) := do
  let outcome ← signIn env input
  Prog.commit <| match outcome with
    | .refused | .wrongPassword .. => Prog.throw authErrors.invalidCredentials
    | .passed account => openSession env account

end AuthService

end Emis.Identity
