import Emis.Common.SecretBox
import Emis.Identity.SessionsService

/-!
# Second factors

`modules/identity/application/mfa.service.ts`, statement by statement. The security events and
the picture of the QR code are left out.
-/

namespace Emis.Identity

open Transactions

/-- What a statement takes from its surroundings besides: the random values, the ids of new rows, and
the step that a code is accepted for, if any. -/
structure MfaEnv extends Env where
  newFactorId : Uuid := 0
  secret : Str := []
  iv : Encoded := ⟨[], List.not_mem_nil⟩
  /-- `generateRecoveryCodes()`, with the ids of their rows. -/
  codes : List (Uuid × String) := []
  hashRecoveryCode : String → String := id
  /-- `TotpProvider.verify`. -/
  verifyTotp : Str → String → Option ℕ → Option ℕ := fun _ _ _ => none

inductive MfaVerifyRequest where
  | code (code : String)
  | recoveryCode (recoveryCode : String)
  deriving DecidableEq, Repr

def secretContext (userId : Uuid) : Str := "totp-secret:".toList ++ (toString userId).toList

namespace MfaService

def loadFactor (d : Db) (userId : Uuid) : Option FactorRow := d.factors.find? fun f => f.userId == userId

/-- A factor that is not confirmed yet may be set up anew. -/
def replaceable (userId : Uuid) (f : FactorRow) : Bool := f.userId == userId && f.confirmedAt.isNone

/-- The statement of `setup`. -/
def storeSecret (env : MfaEnv) (userId : Uuid) (secretCiphertext : String) : Tx Unit := do
  Prog.acquire (.factor userId)
  let d ← Prog.get
  if d.factors.any fun f => f.userId == userId then
    Prog.modify fun d => { d with
      factors := changeWhere (replaceable userId)
        (fun f => { f with secretCiphertext := secretCiphertext, confirmedAt := none, lastUsedTimeStep := none })
        d.factors }
  else
    Prog.modify fun d => { d with
      factors := d.factors ++ [{ id := env.newFactorId, userId := userId, secretCiphertext := secretCiphertext }] }

def removeFactor (userId : Uuid) : Tx Unit := do
  Prog.modify fun d => { d with recoveryCodes := d.recoveryCodes.filter fun c => c.userId != userId }
  Prog.acquire (.factor userId)
  Prog.modify fun d => { d with factors := d.factors.filter fun f => f.userId != userId }

/-- The rows of the new recovery codes. -/
def codeRows (env : MfaEnv) (userId : Uuid) : List RecoveryCodeRow :=
  env.codes.map fun c => { id := c.1, userId := userId, codeHash := env.hashRecoveryCode c.2 }

def enable (env : MfaEnv) (auth : AuthContext) (factorId : Uuid) (step : ℕ) : Tx (String × List String) := do
  let _ ← Prog.updateWhere (.factor auth.userId) (fun d => d.factors.any fun f => f.id == factorId) fun d => { d with
    factors := changeWhere (fun f => f.id == factorId)
      (fun f => { f with confirmedAt := some env.now, lastUsedTimeStep := some step }) d.factors }
  Prog.modify fun d => { d with recoveryCodes := d.recoveryCodes.filter fun c => c.userId != auth.userId }
  Prog.require ((codeRows env auth.userId).map RecoveryCodeRow.codeHash).Nodup
    (.database (.unique "user_recovery_codes_user_code_key"))
  Prog.modify fun d => { d with recoveryCodes := d.recoveryCodes ++ codeRows env auth.userId }
  let token ← SessionsService.rotate env.toEnv auth.sessionId true
  return (token, env.codes.map Prod.snd)

/-- Record the step as used; false if a concurrent request already used this or a later step. -/
def claimTimeStep (userId : Uuid) (step : ℕ) : Tx Bool :=
  let hit (f : FactorRow) : Bool := f.userId == userId && f.lastUsedTimeStep.all fun t => t < step
  Prog.updateWhere (.factor userId) (fun d => d.factors.any hit) fun d =>
    { d with factors := changeWhere hit (fun f => { f with lastUsedTimeStep := some step }) d.factors }

def unusedCode (env : MfaEnv) (userId : Uuid) (code : String) (c : RecoveryCodeRow) : Bool :=
  c.userId == userId && c.codeHash == env.hashRecoveryCode code && c.usedAt.isNone

def consumeRecoveryCode (env : MfaEnv) (userId : Uuid) (code : String) : Tx Bool := do
  let d ← Prog.get
  match d.recoveryCodes.find? (unusedCode env userId code) with
  | none => return false
  | some row =>
      Prog.updateWhere (.recoveryCode row.id) (fun d => d.recoveryCodes.any (unusedCode env userId code)) fun d =>
        { d with
          recoveryCodes := changeWhere (unusedCode env userId code) (fun c => { c with usedAt := some env.now })
            d.recoveryCodes }

/-- The background update of `secretOf`. -/
def reseal (factorId userId : Uuid) (secretCiphertext : String) : Tx Unit := do
  let _ ← Prog.updateWhere (.factor userId) (fun d => d.factors.any fun f => f.id == factorId) fun d => { d with
    factors := changeWhere (fun f => f.id == factorId) (fun f => { f with secretCiphertext := secretCiphertext })
      d.factors }

end MfaService

end Emis.Identity
