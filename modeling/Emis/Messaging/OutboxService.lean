import Emis.Common.Dates
import Emis.Common.JsonParse
import Emis.Common.SecretBox
import Emis.Library.Program

/-!
# The outbox

`outbox.service.ts` and the events of `events.ts`. The `jsonb` column keeps a value up
to the order of its keys, or refuses it for a character it cannot store.
-/

namespace Emis.Messaging

open Transactions

/-- A JSON object. -/
abbrev Payload := List (Str × Json)

/-- `payload[key]`. -/
def Payload.get (payload : Payload) (key : Str) : Option Json :=
  (payload.find? fun f => f.1 == key).map Prod.snd

structure OutboxRow where
  id : Uuid
  type : Str
  payload : Payload
  occurredAt : Instant
  availableAt : Instant
  correlationId : Option Str
  actorUserId : Option Uuid
  publishedAt : Option Instant := none

/-- What is put into the queue. -/
structure StoredEvent where
  id : Uuid
  type : Str
  payload : Payload
  occurredAt : Instant
  correlationId : Option Str
  actorUserId : Option Uuid

/-- What handlers see. -/
structure DomainEvent where
  id : Uuid
  type : Str
  payload : Json
  occurredAt : Instant
  correlationId : Option Str
  actorUserId : Option Uuid

structure PublishOptions where
  sensitive : Bool := false
  availableAt : Option Instant := none

/-- The server a call runs on: its ciphers and keys, its clock and what of the request it
knows; and how the database stores an object. -/
structure Env (Key : Type) where
  crypto : Crypto Key
  box : SecretBox Key
  /-- The random bytes of the next encryption. -/
  iv : Encoded
  now : Instant
  newId : Uuid
  requestId : Option Str
  actorUserId : Option Uuid
  jsonb : Payload → Except Error Payload

def sealedContext (type : Str) : Str := "outbox:".toList ++ type

def SEALED : Str := "sealed".toList

variable {Key : Type}

/-- The payload as it is stored. -/
def sealPayload (env : Env Key) (type : Str) (payload : Payload) (sensitive : Bool) : Except Error Payload :=
  if sensitive then
    env.box.encrypt env.crypto env.iv (Json.print (.obj payload)) (sealedContext type) >>= fun sealed =>
      env.jsonb [(SEALED, .str sealed)]
  else env.jsonb payload

def newRow (env : Env Key) (type : Str) (options : PublishOptions) (stored : Payload) : OutboxRow where
  id := env.newId
  type := type
  payload := stored
  occurredAt := env.now
  availableAt := options.availableAt.getD env.now
  correlationId := env.requestId
  actorUserId := env.actorUserId

/-- The row `publish` inserts. -/
def outboxRow (env : Env Key) (type : Str) (payload : Payload) (options : PublishOptions) : Except Error OutboxRow :=
  newRow env type options <$> sealPayload env type payload options.sensitive

/-- What the relay puts into the queue for a row. -/
def storedEvent (row : OutboxRow) : StoredEvent where
  id := row.id
  type := row.type
  payload := row.payload
  occurredAt := row.occurredAt
  correlationId := row.correlationId
  actorUserId := row.actorUserId

/-- `JSON.parse`, which throws. -/
def parseJson (text : Str) : Except Error Json :=
  match Json.parse text with
  | some value => .ok value
  | none => .error (.internal "Unexpected token in JSON")

/-- `EventDispatcher.unseal`. -/
def unsealed (env : Env Key) (stored : StoredEvent) : Except Error Json :=
  match stored.payload.get SEALED with
  | some (.str sealed) => env.box.decrypt env.crypto sealed (sealedContext stored.type) >>= parseJson
  | _ => .ok (.obj stored.payload)

def eventOf (stored : StoredEvent) (payload : Json) : DomainEvent where
  id := stored.id
  type := stored.type
  payload := payload
  occurredAt := stored.occurredAt
  correlationId := stored.correlationId
  actorUserId := stored.actorUserId

/-- The event `dispatch` hands to the handlers of its type. -/
def domainEvent (env : Env Key) (stored : StoredEvent) : Except Error DomainEvent :=
  eventOf stored <$> unsealed env stored

end Emis.Messaging
