import Emis.Common.Dates
import Emis.Library.Machines
import Mathlib.Logic.Function.Basic

/-!
# The website's cache

`apps/web/src/lib/cache.ts`. The callbacks of one promise chain run one by one, and anything
may happen between them: other calls, other loads, and time. A load has ended when the first
callback after it runs; until then no call can tell.
-/

namespace Emis.PublicSite

structure Entry (α : Type) where
  value : α
  fetchedAt : Instant
  expiresAt : Instant
  deriving DecidableEq, Repr

/-- A promise that `get` has made of a load, and when it was given out. -/
structure Request (ε α : Type) where
  key : String
  ttlMs : ℤ
  entry : Option (Entry α)
  callers : List Instant
  /-- What `.then` or `.catch` has made of the load. -/
  outcome : Option (Except ε α) := none
  /-- `.finally` has run. -/
  done : Bool := false

/-- A load that has succeeded. -/
structure Loaded (α : Type) where
  key : String
  ttlMs : ℤ
  value : α
  finishedAt : Instant
  deriving DecidableEq, Repr

/-- What a call has got. -/
structure Handed (ε α : Type) where
  key : String
  result : Except ε α
  calledAt : Instant

/-- The cache with its clock and the promises that it has made. -/
structure TtlCache (ε α : Type) where
  now : Instant
  staleFor : ℕ := 10 * 60000
  entries : String → Option (Entry α) := fun _ => none
  inflight : String → Option ℕ := fun _ => none
  requests : List (Request ε α) := []
  loads : List (Loaded α) := []
  handed : List (Handed ε α) := []

namespace TtlCache

variable {ε α : Type}

/-- `entry && entry.expiresAt > this.now()`. -/
def fresh? (c : TtlCache ε α) (key : String) : Option (Entry α) :=
  (c.entries key).filter fun entry => c.now < entry.expiresAt

def get (c : TtlCache ε α) (key : String) (ttlMs : ℤ) : TtlCache ε α :=
  match c.fresh? key with
  | some entry => { c with handed := c.handed ++ [⟨key, .ok entry.value, c.now⟩] }
  | none =>
      match c.inflight key with
      | some running =>
          { c with requests := c.requests.modify running fun r => { r with callers := r.callers ++ [c.now] } }
      | none =>
          { c with
            requests := c.requests ++ [{ key := key, ttlMs := ttlMs, entry := c.entries key, callers := [c.now] }]
            inflight := Function.update c.inflight key (some c.requests.length) }

/-- `.then`. -/
def onValue (c : TtlCache ε α) (i : ℕ) (request : Request ε α) (value : α) : TtlCache ε α :=
  { c with
    entries := Function.update c.entries request.key (some ⟨value, c.now, c.now + request.ttlMs⟩)
    requests := c.requests.set i { request with outcome := some (.ok value) }
    loads := ⟨request.key, request.ttlMs, value, c.now⟩ :: c.loads }

/-- The entry that `.catch` falls back on. -/
def fallback? (c : TtlCache ε α) (request : Request ε α) : Option (Entry α) :=
  request.entry.filter fun entry => c.now - entry.fetchedAt < c.staleFor

/-- `.catch`, with the time that passes between its two looks at the clock. -/
def onError (c : TtlCache ε α) (i : ℕ) (request : Request ε α) (error : ε) (ms : ℕ) : TtlCache ε α :=
  match c.fallback? request with
  | some entry =>
      { c with
        now := c.now + ms
        entries := Function.update c.entries request.key (some { entry with expiresAt := c.now + ms + 5000 })
        requests := c.requests.set i { request with outcome := some (.ok entry.value) } }
  | none => { c with requests := c.requests.set i { request with outcome := some (.error error) } }

/-- `.finally`, after which the promise is settled. -/
def onFinally (c : TtlCache ε α) (i : ℕ) (request : Request ε α) (outcome : Except ε α) : TtlCache ε α :=
  { c with
    inflight := Function.update c.inflight request.key none
    requests := c.requests.set i { request with done := true }
    handed := c.handed ++ request.callers.map fun calledAt => ⟨request.key, outcome, calledAt⟩ }

/-- The latest load of the key; `loads` has the latest one first. -/
def lastLoad (c : TtlCache ε α) (key : String) : Option (Loaded α) := c.loads.find? fun l => l.key == key

end TtlCache

inductive CacheEvent (ε α : Type) where
  | waits (ms : ℕ)
  | get (key : String) (ttlMs : ℤ)
  | resolves (i : ℕ) (value : α)
  | rejects (i : ℕ) (error : ε) (ms : ℕ)
  | settles (i : ℕ)

/-- The promise, while its load is running. -/
def TtlCache.running? {ε α : Type} (c : TtlCache ε α) (i : ℕ) : Option (Request ε α) :=
  c.requests[i]?.filter fun r => r.outcome.isNone

/-- The promise and its outcome, while `.finally` is due. -/
def TtlCache.passing? {ε α : Type} (c : TtlCache ε α) (i : ℕ) : Option (Request ε α × Except ε α) := do
  let r ← c.requests[i]?
  let outcome ← r.outcome
  if r.done then none else some (r, outcome)

def TtlCache.next {ε α : Type} (c : TtlCache ε α) : CacheEvent ε α → Option (TtlCache ε α)
  | .waits ms => some { c with now := c.now + ms }
  | .get key ttlMs => some (c.get key ttlMs)
  | .resolves i value => (c.running? i).map fun r => c.onValue i r value
  | .rejects i error ms => (c.running? i).map fun r => c.onError i r error ms
  | .settles i => (c.passing? i).map fun p => c.onFinally i p.1 p.2

end Emis.PublicSite
