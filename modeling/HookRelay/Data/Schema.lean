import HookRelay.Lib.Table
import HookRelay.Data.Json

/-!
# The database schema

The tables of `schema.prisma` that delivery rests on, with all their columns:
endpoints and their subscriptions, events, the outbox, deliveries and delivery
attempts.  Rows with a UUID key are kept in a `Table`; rows numbered by a
`BIGSERIAL` column in a `Serial` table, which carries its sequence.

The other unique indexes of the schema are checked by the statements that insert
or update rows: `urlTaken` for `@@unique([tenantId, url])`, `keyTaken` for
`@@unique([tenantId, idempotencyKey])`, `attemptTaken` for
`@@unique([deliveryId, attemptNo])`.  A time is the number of microseconds since
the epoch, the precision of a `timestamptz(6)` column; `jsDate` is what is left of
it in a JavaScript `Date`.
-/

namespace HookRelay

open Lib

/-- A point in time, in microseconds. -/
abbrev Micros := ℕ

/-- A `timestamptz(6)` read back as a JavaScript `Date`: milliseconds only. -/
def jsDate (t : Micros) : ℕ := t / 1000

inductive EndpointStatus where
  | active | disabledAuto | disabledManual
  deriving DecidableEq, Repr

inductive OutboxStatus where
  | pending | published
  deriving DecidableEq, Repr

inductive DeliveryStatus where
  | pending | succeeded | failedRetrying | dead
  deriving DecidableEq, Repr

inductive AttemptErrorClass where
  | timeout | connRefused | http4xx | http5xx | ssrfBlocked | circuitOpen
  deriving DecidableEq, Repr

/-- `delivery.status === 'SUCCEEDED' || delivery.status === 'DEAD'`. -/
def DeliveryStatus.isDone : DeliveryStatus → Bool
  | .succeeded | .dead => true
  | .pending | .failedRetrying => false

structure EndpointRow where
  id : Uuid
  tenantId : Uuid
  url : Text
  secretEnc : Text
  status : EndpointStatus
  description : Option Text
  consecutiveFailures : ℕ
  createdAt : Micros
  updatedAt : Micros
  deriving DecidableEq

structure SubscriptionRow where
  id : ℕ
  endpointId : Uuid
  eventType : Text
  deriving DecidableEq

structure EventRow where
  id : Uuid
  tenantId : Uuid
  type : Text
  payload : Json
  idempotencyKey : Text
  createdAt : Micros

/-- `deliveryId = none` stands for the whole fan-out of the event; otherwise the
row names the one delivery to enqueue. -/
structure OutboxRow where
  id : ℕ
  eventId : Uuid
  deliveryId : Option Uuid
  status : OutboxStatus
  publishedAt : Option Micros
  createdAt : Micros
  deriving DecidableEq

structure DeliveryRow where
  id : Uuid
  eventId : Uuid
  endpointId : Uuid
  status : DeliveryStatus
  attemptCount : ℕ
  nextRetryAt : Option Micros
  createdAt : Micros
  updatedAt : Micros
  deriving DecidableEq

structure AttemptRow where
  id : ℕ
  deliveryId : Uuid
  attemptNo : ℕ
  requestHeadersDigest : Text
  responseStatus : Option ℕ
  responseBodyHead : Option CodeUnits
  errorClass : Option AttemptErrorClass
  durationMs : Option ℤ
  attemptedAt : Micros
  deriving DecidableEq

/-- The database. -/
structure Database where
  endpoints : Table Uuid EndpointRow EndpointRow.id
  subscriptions : Serial SubscriptionRow SubscriptionRow.id
  events : Table Uuid EventRow EventRow.id
  deliveries : Table Uuid DeliveryRow DeliveryRow.id
  attempts : Serial AttemptRow AttemptRow.id
  outbox : Serial OutboxRow OutboxRow.id

namespace Database

/-- A database with no rows. -/
def empty : Database := ⟨∅, ∅, ∅, ∅, ∅, ∅⟩

/-- Another endpoint than `self` of the tenant has this URL. -/
def urlTaken (db : Database) (tenantId : Uuid) (url : Text) (self : Option Uuid) : Bool :=
  db.endpoints.rows.any fun e => e.tenantId = tenantId && e.url = url && some e.id ≠ self

/-- The event of the tenant with this idempotency key. -/
def eventByKey (db : Database) (tenantId : Uuid) (idempotencyKey : Text) : Option EventRow :=
  db.events.rows.find? fun e => e.tenantId = tenantId && e.idempotencyKey = idempotencyKey

/-- The tenant has published an event under this idempotency key. -/
def keyTaken (db : Database) (tenantId : Uuid) (idempotencyKey : Text) : Bool :=
  (db.eventByKey tenantId idempotencyKey).isSome

/-- Attempt `attemptNo` of the delivery has been claimed. -/
def attemptTaken (db : Database) (deliveryId : Uuid) (attemptNo : ℕ) : Bool :=
  db.attempts.rows.any fun a => a.deliveryId = deliveryId && a.attemptNo = attemptNo

/-- The deliveries of an event. -/
def deliveriesOf (db : Database) (eventId : Uuid) : List DeliveryRow :=
  db.deliveries.rows.filter fun d => d.eventId = eventId

theorem attemptTaken_iff {db : Database} {d : Uuid} {n : ℕ} :
    db.attemptTaken d n = true ↔ ∃ a ∈ db.attempts.rows, a.deliveryId = d ∧ a.attemptNo = n := by
  simp [attemptTaken]

theorem mem_deliveriesOf {db : Database} {e : Uuid} {d : DeliveryRow} :
    d ∈ db.deliveriesOf e ↔ d ∈ db.deliveries ∧ d.eventId = e := by
  simp [deliveriesOf, Table.mem_def]

end Database

end HookRelay
