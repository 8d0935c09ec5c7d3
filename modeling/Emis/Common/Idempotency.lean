import Emis.Common.Dates
import Emis.Common.Errors
import Emis.Common.JsonText
import Emis.Library.Rollback

/-!
# Idempotent requests

`common/idempotency/idempotency.interceptor.ts`, with the job of `messaging/maintenance.service.ts`
that removes expired keys. A handler works on a store of its own, of any kind. What JavaScript
calls `undefined` is `none`.
-/

namespace Emis.Idempotency

open Transactions

variable {σ L ε : Type}

/-- Who sent the request, and the key it came with. -/
abbrev Slot := Str × Str

/-- `idempotency_keys`; `createdAt` is read by nobody. -/
structure IdempotencyRow where
  slot : Slot
  method : Str
  path : Str
  requestHash : Str
  responseStatus : ℕ
  responseBody : Json
  expiresAt : Instant

/-- A handler that ran and committed. -/
structure Execution where
  slot : Slot
  method : Str
  path : Str
  body : Json
  query : Json
  responseStatus : ℕ
  responseBody : Json
  /-- When the key was looked up. -/
  checkedAt : Instant
  expiresAt : Instant

/-- The handlers' store, the keys, and the clock. `executions` is no table: nothing reads it. -/
structure Store (σ : Type) where
  data : σ
  keys : List IdempotencyRow := []
  clock : Instant := 0
  executions : List Execution := []

inductive Lock (L : Type) where
  /-- `pg_advisory_xact_lock` with two numbers. -/
  | advisory (principal key : ℤ)
  /-- A row of `idempotency_keys`, or the entry of its unique index. -/
  | row (slot : Slot)
  | own (l : L)
  deriving DecidableEq

/-- `sha256`, and PostgreSQL's `hashtext`. -/
structure Env where
  sha256 : Str → Str
  hashtext : Str → ℤ

inductive Refusal where
  | keyRequired
  | invalidKey
  | keyReused
  deriving DecidableEq, Repr

def Refusal.error : Refusal → HttpError
  | .keyRequired =>
      badRequest "IDEMPOTENCY_KEY_REQUIRED" "Send an Idempotency-Key header (a UUID) with this request."
  | .invalidKey => badRequest "INVALID_IDEMPOTENCY_KEY" "Idempotency-Key must be a UUID."
  | .keyReused =>
      unprocessable "IDEMPOTENCY_KEY_REUSED" "This Idempotency-Key was already used for a different request."

abbrev Tx (σ L ε : Type) := Prog (Store σ) (Lock L) (Refusal ⊕ ε)

/-- A handler's statements are part of the transaction it is called in. -/
structure Handler (σ L ε : Type) where
  run : Prog σ L ε (Option Json)
  joins : run.Keeps fun _ => ()

structure IdempotentOptions where
  required : Bool := true

structure Request (σ L ε : Type) where
  /-- `request.auth?.userId`. -/
  userId : Option Str := none
  idempotencyKey : Option Str := none
  method : Str
  path : Str
  body : Option Json := none
  query : Option Json := none
  options : Option IdempotentOptions := some {}
  /-- `HTTP_CODE_METADATA` of the handler. -/
  httpCode : Option ℕ := none
  handler : Handler σ L ε

inductive Reply where
  | plain (result : Option Json)
  | executed (status : ℕ) (result : Option Json)
  | replayed (status : ℕ) (body : Json)

def TTL_MS : Instant := 24 * 3600000

/-! ## Keys -/

def isKeyChar (c : Char) : Bool := c.isAlphanum || ['_', '.', ':', '-'].contains c

/-- `/^[A-Za-z0-9_.:-]{8,255}$/`. -/
def keyPattern (key : Str) : Bool := 8 ≤ key.length && key.length ≤ 255 && key.all isKeyChar

def isHex (c : Char) : Bool := c.isDigit || ('a' ≤ c && c ≤ 'f') || ('A' ≤ c && c ≤ 'F')

/-- `/^[0-9a-f]{8}-[0-9a-f]{4}-[0-9a-f]{4}-[0-9a-f]{4}-[0-9a-f]{12}$/i`. -/
def uuidPattern (key : Str) : Bool :=
  key.length == 36 && key.zipIdx.all fun c => if [8, 13, 18, 23].contains c.2 then c.1 == '-' else isHex c.1

def anonymous : Str := "anonymous".toList

namespace Request

variable (r : Request σ L ε)

def principal : Str := r.userId.getD anonymous

/-- `request.body ?? null`. -/
def bodyJson : Json := r.body.getD .null

def queryJson : Json := r.query.getD .null

def requestHash (env : Env) : Str :=
  env.sha256 (canonicalJson (.obj [("body".toList, r.bodyJson), ("query".toList, r.queryJson)]))

def status : ℕ := r.httpCode.getD (if r.method = "POST".toList then 201 else 200)

end Request

/-! ## The interceptor -/

/-- `next.handle()`. -/
def handle (h : Handler σ L ε) : Tx σ L ε (Option Json) :=
  (h.run.mapError Sum.inr).zoom Store.data (fun data s => { s with data := data }) Lock.own

def Store.row? (s : Store σ) (slot : Slot) : Option IdempotencyRow := s.keys.find? fun k => k.slot == slot

/-- `new Date()`. -/
def clock : Tx σ L ε Instant := Store.clock <$> Prog.get

def withResponse (row : IdempotencyRow) (slot : Slot) (s : Store σ) : Store σ :=
  { s with keys := changeWhere (fun k => k.slot == slot) (fun _ => row) s.keys }

def addResponse (row : IdempotencyRow) (s : Store σ) : Store σ := { s with keys := s.keys ++ [row] }

def Store.executed (e : Execution) (s : Store σ) : Store σ := { s with executions := s.executions ++ [e] }

/-- `INSERT … ON CONFLICT DO UPDATE`, where each branch has a time of its own. -/
def storeResponse (slot : Slot) (row : Instant → IdempotencyRow) (execution : Instant → Execution) :
    Tx σ L ε Unit := do
  let inserted ← clock
  let updated ← clock
  Prog.acquire (.row slot)
  let s ← Prog.get
  if (s.row? slot).isSome then
    Prog.modify (Store.executed (execution (updated + TTL_MS)) ∘ withResponse (row (updated + TTL_MS)) slot)
  else
    Prog.modify (Store.executed (execution (inserted + TTL_MS)) ∘ addResponse (row (inserted + TTL_MS)))

/-- Run the handler and store its response in the same transaction. -/
def execute (env : Env) (slot : Slot) (r : Request σ L ε) (checkedAt : Instant) : Tx σ L ε Reply := do
  let result ← handle r.handler
  let body := result.getD .null
  storeResponse slot (fun expiresAt => ⟨slot, r.method, r.path, r.requestHash env, r.status, body, expiresAt⟩)
    fun expiresAt => ⟨slot, r.method, r.path, r.bodyJson, r.queryJson, r.status, body, checkedAt, expiresAt⟩
  return .executed r.status result

/-- The request of a key is another one. -/
def reused (env : Env) (r : Request σ L ε) (stored : IdempotencyRow) : Bool :=
  stored.method != r.method || stored.path != r.path || stored.requestHash != r.requestHash env

/-- A concurrent duplicate waits for the lock; a stored response is replayed. -/
def once (env : Env) (slot : Slot) (r : Request σ L ε) : Tx σ L ε Reply := do
  Prog.acquire (.advisory (env.hashtext slot.1) (env.hashtext slot.2))
  let s ← Prog.get
  let now ← clock
  match (s.row? slot).filter fun stored => now < stored.expiresAt with
  | some stored =>
      Prog.require (!reused env r stored) (.inl .keyReused)
      return .replayed stored.responseStatus stored.responseBody
  | none => execute env slot r now

def intercept (env : Env) (r : Request σ L ε) : Tx σ L ε Reply :=
  match r.options with
  | none => Reply.plain <$> handle r.handler
  | some options =>
      match r.idempotencyKey with
      | none | some [] =>
          if options.required then Prog.throw (.inl .keyRequired) else Reply.plain <$> handle r.handler
      | some key =>
          if !keyPattern key || (r.principal == anonymous && !uuidPattern key) then Prog.throw (.inl .invalidKey)
          else once env (r.principal, key) r

/-! ## Maintenance -/

/-- The rows of these keys that expired before `now`. -/
def purged (now : Instant) (slots : List Slot) (s : Store σ) : Store σ :=
  { s with keys := s.keys.filter fun k => !(slots.contains k.slot && k.expiresAt < now) }

/-- `purge-idempotency-keys`: one statement, which waits for each row and looks again. -/
def purge : Tx σ L ε ℕ := do
  let now ← clock
  let s ← Prog.get
  let slots := (s.keys.filter fun k => k.expiresAt < now).map IdempotencyRow.slot
  slots.forM fun slot => do
    Prog.acquire (.row slot)
    Prog.modify (purged now [slot])
  return slots.length

/-- Time goes by. -/
def tick (n : ℕ) : Tx σ L ε Unit := Prog.atOnce fun s => { s with clock := s.clock + n }

end Emis.Idempotency
