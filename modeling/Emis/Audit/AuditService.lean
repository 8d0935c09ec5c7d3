import Emis.Audit.HashChain
import Emis.Common.Dates
import Emis.Common.Errors
import Emis.Library.Program

/-!
# The audit trail

`modules/audit/application/audit.service.ts` and the table `audit_log`. `seq` is
a natural number; the source reads a `bigint` as a JavaScript number, which is
exact below `2^53`. The column `id` is neither hashed nor looked at.
-/

namespace Emis.Audit

open Transactions

/-- The object a caller passes as `changes`, as `JSON.stringify` sees it. -/
structure Changes where
  fields : List (Str × Json)
  distinct : (Json.obj fields).Distinct

structure Actor where
  userId : Str
  email : Str

structure RequestMeta where
  requestId : Option Str
  ip : Option Str
  userAgent : Option Str

structure AuditRecord where
  action : Str
  entityType : Str
  entityId : Option Str := none
  changes : Option Changes := none
  actor : Option Actor := none

/-- The clock, and what the request context holds when it is active. -/
structure Env where
  now : Instant := 0
  request : Option RequestMeta := none
  actor : Option Actor := none

/-- `occurredAt` is a `timestamptz`, in microseconds. -/
structure AuditRow where
  seq : ℕ
  occurredAt : ℤ
  actorUserId : Option Str
  actorEmail : Option Str
  action : Str
  entityType : Str
  entityId : Option Str
  changes : Json
  requestId : Option Str
  ipAddress : Option Str
  userAgent : Option Str
  prevHash : Option Str
  hash : Str

/-- `lastSeq` is the state of the sequence behind the identity column. -/
structure Db where
  auditLog : List AuditRow := []
  lastSeq : ℕ := 0

/-- `pg_advisory_xact_lock(hashtext('emis.audit_log'))`. -/
inductive Lock where
  | auditLog
  deriving DecidableEq

abbrev Tx := Prog Db Lock Error

/-- A `timestamptz` as the driver gives it: a `Date` has whole milliseconds. -/
def toDate (timestamp : ℤ) : Instant := timestamp / 1000

def fromDate (date : Instant) : ℤ := date * 1000

theorem toDate_fromDate (date : Instant) : toDate (fromDate date) = date :=
  Int.mul_ediv_cancel date (by decide)

def contentOf (row : AuditRow) : AuditContent where
  occurredAt := toISOString (toDate row.occurredAt)
  actorUserId := row.actorUserId
  actorEmail := row.actorEmail
  action := row.action
  entityType := row.entityType
  entityId := row.entityId
  changes := row.changes
  requestId := row.requestId
  ipAddress := row.ipAddress
  userAgent := row.userAgent

/-! ## What the table takes -/

def NUL : Char := '\x00'

/-- PostgreSQL stores no U+0000, neither in a text nor in a `jsonb`. -/
@[irreducible] def AuditContent.storable (content : AuditContent) : Bool :=
  content.json.all fun s => !s.contains NUL

def invalidText : Error := .database (.raised "unsupported Unicode escape sequence")

def hashTaken : Error := .database (.unique "audit_log_hash_key")

def Db.nextSeq (d : Db) : Db := { d with lastSeq := d.lastSeq + 1 }

def Db.append (rows : List AuditRow) (d : Db) : Db := { d with auditLog := d.auditLog ++ rows }

/-- The values of a row. -/
def rowOf (jsonb : Json → Json) (content : AuditContent) (occurredAt : Instant)
    (prevHash : Option Str) (hash : Str) (seq : ℕ) : AuditRow where
  seq := seq
  occurredAt := fromDate occurredAt
  actorUserId := content.actorUserId
  actorEmail := content.actorEmail
  action := content.action
  entityType := content.entityType
  entityId := content.entityId
  changes := jsonb content.changes
  requestId := content.requestId
  ipAddress := content.ipAddress
  userAgent := content.userAgent
  prevHash := prevHash
  hash := hash

/-- `INSERT INTO audit_log`: the number comes from the sequence, which a rollback
does not set back. -/
def insert (jsonb : Json → Json) (content : AuditContent) (occurredAt : Instant)
    (prevHash : Option Str) (hash : Str) : Tx Unit := do
  Prog.require content.storable invalidText
  Prog.atOnce Db.nextSeq
  let d ← Prog.get
  Prog.require (!d.auditLog.any fun r => r.hash == hash) hashTaken
  Prog.modify (Db.append [rowOf jsonb content occurredAt prevHash hash d.lastSeq])

/-! ## The service -/

structure AuditVerifyResponse where
  intact : Bool
  checked : ℕ
  brokenAtSeq : Option ℕ
  deriving DecidableEq, Repr

def VERIFY_BATCH : ℕ := 1000

/-- How far `verify` has got. -/
structure Progress where
  prevHash : Option Str := none
  checked : ℕ := 0
  afterSeq : ℕ := 0

namespace AuditService

/-- `ORDER BY seq DESC LIMIT 1`. -/
def last (d : Db) : Option AuditRow := (orderBy AuditRow.seq d.auditLog).getLast?

/-- What is hashed of an entry. -/
def newContent (env : Env) (entry : AuditRecord) : AuditContent :=
  let request := env.request
  let actor := entry.actor.or env.actor
  { occurredAt := toISOString env.now
    actorUserId := actor.map Actor.userId
    actorEmail := actor.map Actor.email
    action := entry.action
    entityType := entry.entityType
    entityId := entry.entityId
    changes := .obj ((entry.changes.map Changes.fields).getD [])
    requestId := request.bind RequestMeta.requestId
    ipAddress := request.bind RequestMeta.ip
    userAgent := request.bind RequestMeta.userAgent }

/-- Append an entry in the caller's transaction. `Date` reads the text of
`toISOString` back as the instant it was written for. -/
def record (sha256 : Str → Str) (jsonb : Json → Json) (env : Env) (entry : AuditRecord) : Tx Unit := do
  Prog.acquire .auditLog
  let d ← Prog.get
  let prevHash := (last d).map AuditRow.hash
  let content := newContent env entry
  insert jsonb content env.now prevHash (chainHash sha256 content prevHash)

/-- The rows of one batch, up to the first that does not follow. -/
def checkRows (sha256 : Str → Str) : Progress → List AuditRow → Except AuditVerifyResponse Progress
  | p, [] => .ok p
  | p, row :: rows =>
      if row.prevHash ≠ p.prevHash ∨ chainHash sha256 (contentOf row) row.prevHash ≠ row.hash then
        .error { intact := false, checked := p.checked, brokenAtSeq := some row.seq }
      else
        checkRows sha256
          { prevHash := some row.hash, checked := p.checked + 1, afterSeq := row.seq } rows

/-- The loop of `verify`, which asks for one batch after the other; `none` while
it is still at work after `fuel` batches. -/
def verifyFrom (sha256 : Str → Str) : ℕ → Progress → Tx (Option AuditVerifyResponse)
  | 0, _ => pure none
  | fuel + 1, p => do
      let d ← Prog.get
      let batch := (behind AuditRow.seq p.afterSeq d.auditLog).take VERIFY_BATCH
      if batch.isEmpty then
        return some { intact := true, checked := p.checked, brokenAtSeq := none }
      else
        match checkRows sha256 p batch with
        | .error broken => return some broken
        | .ok p => verifyFrom sha256 fuel p

/-- Recompute the whole chain in order. -/
def verify (sha256 : Str → Str) (fuel : ℕ) : Tx (Option AuditVerifyResponse) :=
  verifyFrom sha256 fuel {}

end AuditService

end Emis.Audit
