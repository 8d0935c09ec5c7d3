import Emis.Identity.MfaService
import Emis.Library.Machines

/-!
# Calls of the second factor

The calls of `MfaService` side by side. A statement outside of a transaction is one step, and so is a
transaction, whose rows are locked until it ends.
-/

namespace Emis.Identity

open Transactions

inductive MfaReply where
  | secret (secret : Str)
  | recoveryCodes (token : String) (codes : List String)
  | token (token : String)
  | disabled
  deriving DecidableEq, Repr

/-- How far a call has come; `seen` is how often the account's secret had been stored when it was read. -/
inductive MfaPoint where
  | setup
  | confirm (code : String)
  | enable (factor : FactorRow) (secret : Str) (seen step : ℕ)
  | verify (input : MfaVerifyRequest)
  | claim (factor : FactorRow) (step : ℕ)
  | consume (recoveryCode : String)
  | rotate
  | fail
  | revoke
  | disable (password code : String)
  | check (factor : FactorRow) (seen : ℕ) (password code : String)
  | remove
  | answered (reply : Except Error MfaReply)

structure MfaCall where
  auth : AuthContext
  point : MfaPoint

/-- A background update of `secretOf`. -/
structure Resealing where
  factorId : Uuid
  userId : Uuid
  secretCiphertext : Str
  seen : ℕ

/-- What has happened, for the calls by their numbers. -/
inductive MfaNote where
  | stored (userId : Uuid)
  | accepted (call : ℕ) (factorId : Uuid) (step : ℕ)
  | consumed (call : ℕ) (codeId : Uuid)
  | handed (factorId : Uuid) (codes : List RecoveryCodeRow)
  | wrong (call : ℕ) (sessionId : Uuid) (counted : Bool)
  | passed (call : ℕ) (sessionId : Uuid)
  deriving DecidableEq, Repr

/-- `given` are the ids that the database has given to rows: `uuidv7()` gives none of them again. -/
structure MfaState where
  db : Db
  calls : List MfaCall := []
  resealings : List Resealing := []
  given : List Uuid := []
  notes : List MfaNote := []

inductive MfaRequest where
  | setup
  | confirm (code : String)
  | verify (input : MfaVerifyRequest)
  | disable (password code : String)

def MfaRequest.start : MfaRequest → MfaPoint
  | setup => .setup
  | confirm code => .confirm code
  | verify input => .verify input
  | disable password code => .disable password code

inductive MfaEvent where
  | begins (auth : AuthContext) (request : MfaRequest)
  | continues (call : ℕ) (env : MfaEnv)
  | reseals (k : ℕ)

namespace MfaState

variable {Key : Type} (crypto : Crypto Key) (box : SecretBox Key)

def goto (s : MfaState) (i : ℕ) (auth : AuthContext) (point : MfaPoint) : MfaState :=
  { s with calls := s.calls.set i ⟨auth, point⟩ }

def note (s : MfaState) (notes : List MfaNote) : MfaState := { s with notes := s.notes ++ notes }

/-- How often the account's secret has been stored. -/
def stored (s : MfaState) (userId : Uuid) : ℕ := s.notes.count (.stored userId)

/-- After a statement, or a transaction, the call goes on. -/
def after {α : Type} (s : MfaState) (i : ℕ) (auth : AuthContext) (p : Tx α) (goOn : α → MfaPoint)
    (noted : α → List MfaNote) : MfaState :=
  match p.alone s.db with
  | (.ok a, db) => (({ s with db := db }).goto i auth (goOn a)).note (noted a)
  | (.error e, _) => s.goto i auth (.answered (.error e))

/-- `secretOf`: the secret of the factor as it was read, which is sealed anew if it was sealed with an
older key. -/
def opened (s : MfaState) (i : ℕ) (auth : AuthContext) (iv : Encoded) (factor : FactorRow) (seen : ℕ)
    (goOn : Str → MfaPoint) : MfaState :=
  match box.decrypt crypto factor.secretCiphertext.toList (secretContext auth.userId) with
  | .error e => s.goto i auth (.answered (.error e))
  | .ok secret =>
      if box.isCurrent factor.secretCiphertext.toList then s.goto i auth (goOn secret)
      else
        match box.encrypt crypto iv secret (secretContext auth.userId) with
        | .error e => s.goto i auth (.answered (.error e))
        | .ok sealed => { s.goto i auth (goOn secret) with
            resealings := s.resealings ++ [⟨factor.id, auth.userId, sealed, seen⟩] }

/-- The next statement of a call. -/
def continue? (s : MfaState) (i : ℕ) (auth : AuthContext) (env : MfaEnv) : MfaPoint → Option MfaState
  | .setup =>
      if auth.mfaEnabled then some (s.goto i auth (.answered (.error authErrors.mfaAlreadyEnabled)))
      else
        match box.encrypt crypto env.iv env.secret (secretContext auth.userId) with
        | .error e => some (s.goto i auth (.answered (.error e)))
        | .ok sealed =>
            let confirmed := (MfaService.loadFactor s.db auth.userId).any fun f => f.confirmedAt.isSome
            some (s.after i auth (MfaService.storeSecret env auth.userId (String.ofList sealed))
              (fun _ => .answered (.ok (.secret env.secret)))
              fun _ => if confirmed then [] else [.stored auth.userId])
  | .confirm code =>
      match MfaService.loadFactor s.db auth.userId with
      | none => some (s.goto i auth (.answered (.error authErrors.mfaNotEnabled)))
      | some factor =>
          if factor.confirmedAt.isSome then
            some (s.goto i auth (.answered (.error authErrors.mfaAlreadyEnabled)))
          else
            let seen := s.stored auth.userId
            some (s.opened crypto box i auth env.iv factor seen fun secret =>
              match env.verifyTotp secret code none with
              | none => .fail
              | some step => .enable factor secret seen step)
  | .enable factor _ _ step =>
      some (s.after i auth (MfaService.enable env auth factor.id step)
        (fun r => .answered (.ok (.recoveryCodes r.1 r.2)))
        fun _ => [.accepted i factor.id step, .handed factor.id (MfaService.codeRows env auth.userId),
          .passed i auth.sessionId])
  | .verify input =>
      match (MfaService.loadFactor s.db auth.userId).filter fun f => f.confirmedAt.isSome with
      | none => some (s.goto i auth (.answered (.error authErrors.mfaNotEnabled)))
      | some factor =>
          match input with
          | .code code =>
              some (s.opened crypto box i auth env.iv factor (s.stored auth.userId) fun secret =>
                match env.verifyTotp secret code factor.lastUsedTimeStep with
                | none => .fail
                | some step => .claim factor step)
          | .recoveryCode recoveryCode => some (s.goto i auth (.consume recoveryCode))
  | .claim factor step =>
      some (s.after i auth (MfaService.claimTimeStep auth.userId step) (fun ok => if ok then .rotate else .fail)
        fun ok => if ok then [.accepted i factor.id step] else [])
  | .consume recoveryCode =>
      let hits := s.db.recoveryCodes.filter (MfaService.unusedCode env auth.userId recoveryCode)
      some (s.after i auth (MfaService.consumeRecoveryCode env auth.userId recoveryCode)
        (fun ok => if ok then .rotate else .fail)
        fun _ => hits.map fun c => .consumed i c.id)
  | .rotate =>
      some (s.after i auth (SessionsService.rotate env.toEnv auth.sessionId true)
        (fun token => .answered (.ok (.token token))) fun _ => [.passed i auth.sessionId])
  | .fail =>
      some (s.after i auth (SessionsService.recordMfaFailure auth.sessionId)
        (fun attempts =>
          if MAX_MFA_ATTEMPTS ≤ attempts then .revoke else .answered (.error authErrors.invalidMfaCode))
        fun _ => [.wrong i auth.sessionId true])
  | .revoke =>
      some (s.after i auth (SessionsService.revoke env.toEnv auth.sessionId "too_many_mfa_attempts")
        (fun _ => .answered (.error authErrors.unauthenticated)) fun _ => [])
  | .disable password code =>
      if auth.mfaEnforced then some (s.goto i auth (.answered (.error authErrors.mfaEnforced)))
      else
        match (MfaService.loadFactor s.db auth.userId).filter fun f => f.confirmedAt.isSome with
        | none => some (s.goto i auth (.answered (.error authErrors.mfaNotEnabled)))
        | some factor => some (s.goto i auth (.check factor (s.stored auth.userId) password code))
  | .check factor seen password code =>
      let passwordHash := (s.db.accountById auth.userId).bind AccountRow.passwordHash
      let passwordOk := passwordHash.any fun h => env.verifyHash h password
      let wrong (secret : Str) : Bool := (env.verifyTotp secret code factor.lastUsedTimeStep).isNone
      let checked := s.opened crypto box i auth env.iv factor seen fun secret =>
        if !passwordOk || wrong secret then .answered (.error authErrors.invalidMfaCode) else .remove
      some <| match box.decrypt crypto factor.secretCiphertext.toList (secretContext auth.userId) with
        | .ok secret => if wrong secret then checked.note [.wrong i auth.sessionId false] else checked
        | .error _ => checked
  | .remove =>
      some (s.after i auth (MfaService.removeFactor auth.userId) (fun _ => .answered (.ok .disabled)) fun _ => [])
  | .answered _ => none

/-- The ids that a statement may give to rows. -/
def ids (env : MfaEnv) : List Uuid := env.newFactorId :: env.codes.map Prod.fst

def giving (s : MfaState) (env : MfaEnv) : MfaState := { s with given := s.given ++ ids env }

def next (s : MfaState) : MfaEvent → Option MfaState
  | .begins auth request => some { s with calls := s.calls ++ [⟨auth, request.start⟩] }
  | .continues i env =>
      if (ids env).Nodup ∧ ∀ id ∈ ids env, id ∉ s.given then
        s.calls[i]?.bind fun call =>
          (s.giving env).continue? crypto box i call.auth env call.point
      else none
  | .reseals k =>
      s.resealings[k]?.map fun r => { s with
        db := ((MfaService.reseal r.factorId r.userId (String.ofList r.secretCiphertext)).alone s.db).2
        resealings := s.resealings.eraseIdx k }

end MfaState

end Emis.Identity
