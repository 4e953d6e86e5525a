import HookRelay.Data.Indexes
import HookRelay.Api.Endpoints

/-!
# The events service

`events.service.ts`: publishing an event, and the state of its deliveries.  `publish` is
given as one call here, with its transaction executed at once; `Api.Publishing` takes it
apart into the steps between which other requests run.  Its deliveries are for different
endpoints (`nodup_targets`), and they can be inserted unless a UUID is in use
(`insertDeliveries?_isSome_of_fresh`).
-/

namespace HookRelay

open Lib

namespace EventsService

/-- `MAX_PAYLOAD_BYTES`. -/
def maxPayloadBytes : ℕ := 64 * 1024

/-- `PublishResult`. -/
structure PublishResult where
  eventId : Uuid
  deliveries : List (Uuid × Uuid)
  deriving DecidableEq

/-- `Buffer.byteLength(JSON.stringify(payload), 'utf8')`. -/
def sizeBytes (payload : Json) : ℕ := utf8ByteLength payload.stringify

/-- `data` of `event.create`. -/
def newEvent (env : Env) (tenantId : Uuid) (type : Text) (payload : Json) (idempotencyKey : Text) :
    EventRow :=
  { id := env.randomUuid 0, tenantId := tenantId, type := type, payload := payload,
    idempotencyKey := idempotencyKey, createdAt := env.now }

/-- The endpoint is `ACTIVE` and subscribed to the type. -/
def wants (db : Database) (type : Text) (e : EndpointRow) : Bool :=
  e.status = .active &&
    db.subscriptions.rows.any fun row => row.endpointId = e.id && row.eventType = type

/-- The endpoints to deliver to, the oldest first. -/
def targets (db : Database) (tenantId : Uuid) (type : Text) : List Uuid :=
  ((db.endpoints.rows.filter fun e => e.tenantId = tenantId && wants db type e).insertionSort
    fun a b => a.createdAt ≤ b.createdAt).map EndpointRow.id

/-- A delivery id is drawn for each target. -/
def newTargets (env : Env) (endpoints : List Uuid) : List (Uuid × Uuid) :=
  endpoints.zipIdx.map fun p => (env.randomUuid (p.2 + 1), p.1)

/-- `publish`. -/
def publish (env : Env) (tenantId : Uuid) (type : Text) (payload : Json) (idempotencyKey : Text)
    (db : Database) : Outcome PublishResult :=
  if sizeBytes payload > maxPayloadBytes then
    .error (.domain (Errors.payloadTooLarge (sizeBytes payload) maxPayloadBytes))
  else
    let event := newEvent env tenantId type payload idempotencyKey
    let pairs := newTargets env (targets db tenantId type)
    match db.publishTx env.now event
        (pairs.map fun p => Database.newDelivery env.now p.1 event.id p.2) db.outbox.next with
    | some db' => .ok (⟨event.id, pairs⟩, db')
    | none =>
        match db.eventByKey tenantId idempotencyKey with
        | some existing => .error (.domain (Errors.duplicateEvent existing.id))
        | none => .error .uniqueViolation

/-- A delivery in the answer of `getDeliveries`. -/
structure DeliveryView where
  deliveryId : Uuid
  endpointId : Uuid
  endpointUrl : Option Text
  status : DeliveryStatus
  attemptCount : ℕ
  nextRetryAt : Option ℕ
  updatedAt : ℕ
  deriving DecidableEq

/-- The answer of `getDeliveries`. -/
structure EventView where
  eventId : Uuid
  type : Text
  createdAt : ℕ
  deliveries : List DeliveryView
  deriving DecidableEq

def toView (db : Database) (d : DeliveryRow) : DeliveryView :=
  { deliveryId := d.id, endpointId := d.endpointId,
    endpointUrl := (db.endpoints.find? d.endpointId).map EndpointRow.url, status := d.status,
    attemptCount := d.attemptCount, nextRetryAt := d.nextRetryAt.map jsDate,
    updatedAt := jsDate d.updatedAt }

/-- `findFirst({ where: { id: eventId, tenantId } })`. -/
def findScoped (db : Database) (tenantId eventId : Uuid) : Option EventRow :=
  db.events.rows.find? fun e => e.id = eventId && e.tenantId = tenantId

/-- `getDeliveries`: the oldest delivery first. -/
def getDeliveries (tenantId eventId : Uuid) (db : Database) : Outcome EventView :=
  match findScoped db tenantId eventId with
  | none => .error (.domain Errors.eventNotFound)
  | some event =>
      let deliveries := (db.deliveriesOf eventId).insertionSort fun a b => a.createdAt ≤ b.createdAt
      .ok (⟨event.id, event.type, jsDate event.createdAt, deliveries.map (toView db)⟩, db)

/-! ## The deliveries of an event -/

theorem nodup_targets (db : Database) (tenantId : Uuid) (type : Text) :
    (targets db tenantId type).Nodup := by
  rw [targets, ((List.perm_insertionSort _ _).map EndpointRow.id).nodup_iff]
  exact db.endpoints.nodup.sublist (List.filter_sublist.map _)

theorem length_targets_le (db : Database) (tenantId : Uuid) (type : Text) :
    (targets db tenantId type).length ≤ db.endpoints.rows.length := by
  rw [targets, List.length_map, List.length_insertionSort]
  exact List.length_filter_le _ _

/-- The deliveries of an event to some endpoints. -/
def newDeliveries (env : Env) (eventId : Uuid) (endpoints : List Uuid) : List DeliveryRow :=
  (newTargets env endpoints).map fun p => Database.newDelivery env.now p.1 eventId p.2

theorem length_newDeliveries (env : Env) (eventId : Uuid) (endpoints : List Uuid) :
    (newDeliveries env eventId endpoints).length = endpoints.length := by
  simp [newDeliveries, newTargets]

theorem getElem_newDeliveries (env : Env) (eventId : Uuid) (endpoints : List Uuid) (i : ℕ)
    (hi : i < (newDeliveries env eventId endpoints).length) (hi' : i < endpoints.length) :
    (newDeliveries env eventId endpoints)[i] =
      Database.newDelivery env.now (env.randomUuid (i + 1)) eventId endpoints[i] := by
  simp [newDeliveries, newTargets]

/-- Deliveries for different endpoints can be inserted if the UUIDs are fresh. -/
theorem insertDeliveries?_isSome_of_fresh {db : Database} {env : Env} {eventId : Uuid}
    {endpoints : List Uuid} (hnodup : endpoints.Nodup)
    (hevent : ∀ x ∈ db.deliveries.rows, x.eventId ≠ eventId)
    (hid : ∀ x ∈ db.deliveries.rows, ∀ i < endpoints.length, x.id ≠ env.randomUuid (i + 1))
    (hdistinct : ∀ i j, i < j → j < endpoints.length →
      env.randomUuid (i + 1) ≠ env.randomUuid (j + 1)) :
    ∃ db', db.insertDeliveries? (newDeliveries env eventId endpoints) = some db' := by
  have hlen := length_newDeliveries env eventId endpoints
  rw [Database.insertDeliveries?_isSome_iff, List.pairwise_iff_getElem]
  simp only [Database.clashes_eq_false_iff]
  refine ⟨fun x hx d hd => ?_, fun i j hi hj hij => ?_⟩
  · obtain ⟨i, hi, rfl⟩ := List.getElem_of_mem hd
    rw [getElem_newDeliveries _ _ _ _ _ (hlen ▸ hi)]
    exact ⟨hid x hx i (hlen ▸ hi), fun hpair => hevent x hx hpair.1⟩
  · rw [getElem_newDeliveries _ _ _ _ _ (hlen ▸ hi), getElem_newDeliveries _ _ _ _ _ (hlen ▸ hj)]
    refine ⟨hdistinct i j hij (hlen ▸ hj), fun hpair => ?_⟩
    exact absurd (hnodup.getElem_inj_iff.1 hpair.2) (Nat.ne_of_lt hij)

end EventsService

end HookRelay
