import Emis.Library.Rules
import Emis.Library.Table
import Emis.Messaging.OutboxService

/-!
# From the outbox to the handlers

`outbox-relay.service.ts`, `event-dispatcher.service.ts`, `OutboxService.publish`, and the job of
`maintenance.service.ts` that removes what has been delivered. The queue is outside the database:
what is put into it stays there when the transaction is rolled back.
-/

namespace Emis.Messaging

open Transactions

variable {σ L Key α : Type}

/-- What a module does in a transaction: statements on its own tables, and `publish`. -/
inductive Work (σ L Key α : Type) : Type where
  | ret (a : α)
  | fail (e : Error)
  | read (k : σ → Work σ L Key α)
  | write (f : σ → σ) (k : Work σ L Key α)
  | lock (l : L) (k : Work σ L Key α)
  | tryLock (l : L) (k : Bool → Work σ L Key α)
  | publish (env : Env Key) (type : Str) (payload : Payload) (options : PublishOptions) (k : Work σ L Key α)

structure EventHandler (σ L Key : Type) where
  name : Str
  eventType : Str
  handle : DomainEvent → Work σ L Key Unit

/-- `processed_events`. -/
structure ProcessedRow where
  consumer : Str
  eventId : Uuid
  processedAt : Instant

/-- A handler's run for an event. -/
structure Effect (σ L Key : Type) where
  handler : EventHandler σ L Key
  event : StoredEvent

/-- The modules' tables, the outbox, the inbox and the queue. The last three are no tables: nothing
reads them. -/
structure Store (σ L Key : Type) where
  data : σ
  outbox : List OutboxRow := []
  processed : List ProcessedRow := []
  /-- What is in the queue; a job's id is its event's. -/
  jobs : List StoredEvent := []
  /-- The events of transactions that have committed. -/
  committed : List StoredEvent := []
  /-- What has ever been handed to the queue. -/
  added : List StoredEvent := []
  /-- The handlers' runs that have committed. -/
  effects : List (Effect σ L Key) := []

inductive Lock (L : Type) where
  | own (l : L)
  | outbox (id : Uuid)
  /-- The entry of the primary key of `processed_events`. -/
  | inbox (consumer : Str) (eventId : Uuid)
  deriving DecidableEq

abbrev Tx (σ L Key α : Type) := Prog (Store σ L Key) (Lock L) Error α

def duplicateId : Error := .database (.unique "outbox_events_pkey")

def addRow (row : OutboxRow) (s : Store σ L Key) : Store σ L Key :=
  { s with outbox := s.outbox ++ [row], committed := s.committed ++ [storedEvent row] }

/-- `OutboxService.publish`. -/
def publish (env : Env Key) (type : Str) (payload : Payload) (options : PublishOptions) : Tx σ L Key Unit := do
  let row ← Prog.ofExcept (outboxRow env type payload options)
  Prog.acquire (.outbox row.id)
  let s ← Prog.get
  Prog.require (!s.outbox.any fun r => r.id == row.id) duplicateId
  Prog.modify (addRow row)

def onData (f : σ → σ) (s : Store σ L Key) : Store σ L Key := { s with data := f s.data }

def Work.code : Work σ L Key α → Tx σ L Key α
  | ret a => .ret a
  | fail e => .fail e
  | read k => .read fun s => (k s.data).code
  | write f k => .write (onData f) k.code
  | lock l k => .lock (.own l) k.code
  | tryLock l k => .tryLock (.own l) fun b => (k b).code
  | publish env type payload options k => Messaging.publish env type payload options >>= fun _ => k.code

/-! ## The relay -/

def BATCH_SIZE : ℕ := 100

/-- Not published, and available. -/
def due (now : Instant) (row : OutboxRow) : Bool := row.publishedAt.isNone && row.availableAt ≤ now

/-- `FOR UPDATE SKIP LOCKED` with a limit: a row that somebody else holds is skipped, and one that
is no longer due once it is locked. -/
def claim (now : Instant) : ℕ → List OutboxRow → Tx σ L Key (List OutboxRow)
  | 0, _ => pure []
  | _ + 1, [] => pure []
  | n + 1, row :: rows => do
      if ← Prog.tryAcquire (.outbox row.id) then
        let s ← Prog.get
        match s.outbox.find? fun r => r.id == row.id && due now r with
        | some latest => (latest :: ·) <$> claim now n rows
        | none => claim now (n + 1) rows
      else claim now (n + 1) rows

/-- A job whose id the queue has already is not added again. -/
def addJob (event : StoredEvent) (s : Store σ L Key) : Store σ L Key :=
  { s with
    jobs := if s.jobs.any fun e => e.id == event.id then s.jobs else s.jobs ++ [event]
    added := s.added ++ [event] }

/-- `queue.addBulk`. -/
def addBulk (events : List StoredEvent) : Tx σ L Key Unit := events.forM fun e => Prog.atOnce (addJob e)

def markPublished (publishedAt : Instant) (ids : List Uuid) (s : Store σ L Key) : Store σ L Key :=
  { s with
    outbox := changeWhere (fun r => ids.contains r.id) (fun r => { r with publishedAt := some publishedAt }) s.outbox }

def relayBatch (now publishedAt : Instant) : Tx σ L Key ℕ := do
  let s ← Prog.get
  let rows ← claim now BATCH_SIZE (orderBy OutboxRow.id (s.outbox.filter (due now)))
  if rows.isEmpty then
    return 0
  else
    addBulk (rows.map storedEvent)
    Prog.modify (markPublished publishedAt (rows.map OutboxRow.id))
    return rows.length

/-- `removeOnComplete` and `removeOnFail`. -/
def removeJob (id : Uuid) : Tx σ L Key Unit :=
  Prog.atOnce fun s => { s with jobs := s.jobs.filter fun e => e.id != id }

/-! ## The dispatcher -/

def Store.hasProcessed (s : Store σ L Key) (consumer : Str) (eventId : Uuid) : Bool :=
  s.processed.any fun r => r.consumer == consumer && r.eventId == eventId

def addProcessed (row : ProcessedRow) (s : Store σ L Key) : Store σ L Key :=
  { s with processed := s.processed ++ [row] }

def addEffect (e : Effect σ L Key) (s : Store σ L Key) : Store σ L Key := { s with effects := s.effects ++ [e] }

/-- One handler in a transaction of its own: `INSERT … ON CONFLICT DO NOTHING` waits for whoever is
inserting the same row. -/
def handleOnce (handler : EventHandler σ L Key) (stored : StoredEvent) (event : DomainEvent)
    (processedAt : Instant) : Tx σ L Key Bool := do
  Prog.acquire (.inbox handler.name event.id)
  let s ← Prog.get
  if s.hasProcessed handler.name event.id then
    Prog.commits
    return false
  else
    Prog.modify (addProcessed ⟨handler.name, event.id, processedAt⟩)
    (handler.handle event).code
    Prog.modify (addEffect ⟨handler, stored⟩)
    Prog.commits
    return true

structure Dispatched where
  handled : ℕ := 0
  skipped : ℕ := 0
  deriving DecidableEq

def runHandlers (stored : StoredEvent) (event : DomainEvent) (processedAt : Str → Instant) :
    List (EventHandler σ L Key) → Dispatched → Tx σ L Key Dispatched
  | [], result => pure result
  | handler :: handlers, result => do
      if ← handleOnce handler stored event (processedAt handler.name) then
        runHandlers stored event processedAt handlers { result with handled := result.handled + 1 }
      else
        runHandlers stored event processedAt handlers { result with skipped := result.skipped + 1 }

/-- `dispatch`; `processedAt` is when the transaction of a handler starts. -/
def dispatch (handlers : List (EventHandler σ L Key)) (env : Env Key) (stored : StoredEvent)
    (processedAt : Str → Instant) : Tx σ L Key Dispatched := do
  let event ← Prog.ofExcept (domainEvent env stored)
  runHandlers stored event processedAt (handlers.filter fun h => h.eventType == event.type) {}

/-! ## Maintenance -/

def daysAgo (now : Instant) (days : ℤ) : Instant := now - days * 86400000

/-- Published more than seven days ago. -/
def delivered (now : Instant) (row : OutboxRow) : Bool :=
  row.publishedAt.any fun publishedAt => publishedAt < daysAgo now 7

/-- Processed more than thirty days ago. -/
def forgotten (now : Instant) (row : ProcessedRow) : Bool := row.processedAt < daysAgo now 30

def ProcessedRow.key (row : ProcessedRow) : Str × Uuid := (row.consumer, row.eventId)

def removeDelivered (now : Instant) (id : Uuid) (s : Store σ L Key) : Store σ L Key :=
  { s with outbox := s.outbox.filter fun r => !(r.id == id && delivered now r) }

def removeForgotten (now : Instant) (key : Str × Uuid) (s : Store σ L Key) : Store σ L Key :=
  { s with processed := s.processed.filter fun r => !(r.key == key && forgotten now r) }

/-- `purge-delivered-events`: two statements, which wait for each row and look again. -/
def purgeDelivered (now : Instant) : Tx σ L Key ℕ := do
  let s ← Prog.get
  let events := (s.outbox.filter (delivered now)).map OutboxRow.id
  events.forM fun id => do
    Prog.acquire (.outbox id)
    Prog.modify (removeDelivered now id)
  let s ← Prog.get
  let claims := (s.processed.filter (forgotten now)).map ProcessedRow.key
  claims.forM fun key => do
    Prog.acquire (.inbox key.1 key.2)
    Prog.modify (removeForgotten now key)
  return events.length

end Emis.Messaging
