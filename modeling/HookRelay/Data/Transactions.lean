import HookRelay.Data.Schema

/-!
# Transactions

The transactions with which the API reserves deliveries.  Each is atomic: it is
refused whole when a unique index refuses one of its inserts.

* `publishTx` — an event with its deliveries and, if there are any, the fan-out row of
  the outbox.
* `pingTx` — an event with one delivery and an outbox row that names it.
* `redeliverTx` — a delivery back to `PENDING`, and an outbox row that names it.
* `setSubscriptionsTx` — the subscriptions of an endpoint, replaced.

The number of the outbox row is an argument: it is drawn from the sequence when the
row is inserted, and transactions may commit in another order.  For each transaction a
lemma says what it does to every table (`publishTx_eq_some`, `pingTx_eq_some`,
`redeliverTx_eq_some`).
-/

namespace HookRelay

open Lib

namespace Database

/-- `@@unique([eventId, endpointId])`. -/
def pairTaken (db : Database) (eventId endpointId : Uuid) : Bool :=
  db.deliveries.rows.any fun d => d.eventId = eventId && d.endpointId = endpointId

/-- `event.create`. -/
def insertEvent? (db : Database) (e : EventRow) : Option Database :=
  if db.keyTaken e.tenantId e.idempotencyKey then none
  else (db.events.insert? e).map fun events => { db with events := events }

/-- `delivery.create`. -/
def insertDelivery? (db : Database) (d : DeliveryRow) : Option Database :=
  if db.pairTaken d.eventId d.endpointId then none
  else (db.deliveries.insert? d).map fun deliveries => { db with deliveries := deliveries }

/-- `delivery.createMany`. -/
def insertDeliveries? (db : Database) : List DeliveryRow → Option Database
  | [] => some db
  | d :: ds => (db.insertDelivery? d).bind fun db => db.insertDeliveries? ds

/-- `outboxMessage.create`, under a number drawn from the sequence. -/
def insertOutbox? (db : Database) (row : OutboxRow) : Option Database :=
  (db.outbox.insertAt? row).map fun outbox => { db with outbox := outbox }

/-- A new delivery: `PENDING`, no attempt made. -/
def newDelivery (now : Micros) (id eventId endpointId : Uuid) : DeliveryRow :=
  { id := id, eventId := eventId, endpointId := endpointId, status := .pending,
    attemptCount := 0, nextRetryAt := none, createdAt := now, updatedAt := now }

/-- A new outbox row: `PENDING`. -/
def newOutbox (now : Micros) (id : ℕ) (eventId : Uuid) (deliveryId : Option Uuid) : OutboxRow :=
  { id := id, eventId := eventId, deliveryId := deliveryId, status := .pending,
    publishedAt := none, createdAt := now }

/-- The rest of the publish transaction after the targets were read: the deliveries
and, if there are any, the fan-out row. -/
def fanOut? (db : Database) (now : Micros) (eventId : Uuid) (ds : List DeliveryRow) (outboxId : ℕ) :
    Option Database :=
  if ds = [] then some db
  else (db.insertDeliveries? ds).bind fun db =>
    db.insertOutbox? (newOutbox now outboxId eventId none)

/-- The transaction of `publish`. -/
def publishTx (db : Database) (now : Micros) (e : EventRow) (ds : List DeliveryRow)
    (outboxId : ℕ) : Option Database :=
  (db.insertEvent? e).bind fun db => db.fanOut? now e.id ds outboxId

/-- The transaction of `ping`. -/
def pingTx (db : Database) (now : Micros) (e : EventRow) (deliveryId endpointId : Uuid)
    (outboxId : ℕ) : Option Database :=
  (db.insertEvent? e).bind fun db =>
    (db.insertDelivery? (newDelivery now deliveryId e.id endpointId)).bind fun db =>
      db.insertOutbox? (newOutbox now outboxId e.id (some deliveryId))

/-- `data: { status: 'PENDING', nextRetryAt: null }`. -/
def reopen (now : Micros) (d : DeliveryRow) : DeliveryRow :=
  { d with status := .pending, nextRetryAt := none, updatedAt := now }

theorem reopen_id (now : Micros) (d : DeliveryRow) : (reopen now d).id = d.id := rfl

/-- The transaction of `redeliver`. -/
def redeliverTx (db : Database) (now : Micros) (d : DeliveryRow) (outboxId : ℕ) :
    Option Database :=
  { db with deliveries := db.deliveries.modify d.id (reopen now) (reopen_id now) }.insertOutbox?
    (newOutbox now outboxId d.eventId (some d.id))

/-- A new subscription. -/
def newSubscription (endpointId : Uuid) (eventType : Text) (id : ℕ) : SubscriptionRow :=
  ⟨id, endpointId, eventType⟩

theorem newSubscription_id (endpointId : Uuid) (eventType : Text) (n : ℕ) :
    (newSubscription endpointId eventType n).id = n := rfl

/-- The transaction of `setSubscriptions`. -/
def setSubscriptionsTx (db : Database) (endpointId : Uuid) (eventTypes : List Text) : Database :=
  { db with
    subscriptions := (db.subscriptions.deleteMany fun row => row.endpointId = endpointId).insertMany
      (newSubscription endpointId) (newSubscription_id endpointId) eventTypes }

/-! ## What they do -/

variable {db db' : Database} {now : Micros} {e : EventRow} {d : DeliveryRow}
  {ds : List DeliveryRow} {outboxId : ℕ} {deliveryId endpointId : Uuid}

theorem insertEvent?_eq_some (h : db.insertEvent? e = some db') :
    db.keyTaken e.tenantId e.idempotencyKey = false ∧ db.events.find? e.id = none ∧
    ∃ events, db.events.insert? e = some events ∧ db' = { db with events := events } := by
  unfold insertEvent? at h
  split_ifs at h with hkey
  obtain ⟨events, hins, rfl⟩ := Option.map_eq_some_iff.1 h
  exact ⟨by simpa using hkey, (Table.insert?_eq_some_iff.1 hins).1, events, hins, rfl⟩

theorem insertDelivery?_eq_some (h : db.insertDelivery? d = some db') :
    db.deliveries.find? d.id = none ∧ db'.deliveries.rows = db.deliveries.rows ++ [d] ∧
    db' = { db with deliveries := db'.deliveries } := by
  unfold insertDelivery? at h
  split_ifs at h with hpair
  obtain ⟨deliveries, hins, rfl⟩ := Option.map_eq_some_iff.1 h
  obtain ⟨hfresh, hrows⟩ := Table.insert?_eq_some_iff.1 hins
  exact ⟨hfresh, hrows, rfl⟩

theorem insertDeliveries?_eq_some (h : db.insertDeliveries? ds = some db') :
    (∀ d ∈ ds, db.deliveries.find? d.id = none) ∧
    db'.deliveries.rows = db.deliveries.rows ++ ds ∧
    db' = { db with deliveries := db'.deliveries } := by
  induction ds generalizing db with
  | nil =>
      cases h
      simp
  | cons d ds ih =>
      obtain ⟨db₁, h₁, h₂⟩ := Option.bind_eq_some_iff.1 h
      obtain ⟨hfresh, hrows, heq⟩ := insertDelivery?_eq_some h₁
      obtain ⟨hfresh', hrows', heq'⟩ := ih h₂
      refine ⟨?_, by rw [hrows', hrows]; simp, by rw [heq', heq]⟩
      intro x hx
      rcases List.mem_cons.1 hx with rfl | hx
      · exact hfresh
      · rw [Table.find?_eq_none_iff]
        intro r hr
        refine Table.find?_eq_none_iff.1 (hfresh' x hx) r ?_
        rw [Table.mem_def, hrows]
        exact List.mem_append_left _ hr

theorem insertOutbox?_eq_some {row : OutboxRow} (h : db.insertOutbox? row = some db') :
    (∀ x ∈ db.outbox.rows, x.id ≠ row.id) ∧ db'.outbox.rows = db.outbox.rows ++ [row] ∧
    db' = { db with outbox := db'.outbox } := by
  obtain ⟨outbox, hins, rfl⟩ := Option.map_eq_some_iff.1 h
  obtain ⟨hfresh, hrows⟩ := Serial.insertAt?_eq_some_iff hins
  exact ⟨hfresh, hrows, rfl⟩

/-- What a committed publish leaves behind. -/
theorem publishTx_eq_some (h : db.publishTx now e ds outboxId = some db') :
    db.keyTaken e.tenantId e.idempotencyKey = false ∧
    db.events.find? e.id = none ∧ (∀ d ∈ ds, db.deliveries.find? d.id = none) ∧
    db'.events.rows = db.events.rows ++ [e] ∧ db'.deliveries.rows = db.deliveries.rows ++ ds ∧
    (ds = [] ∧ db'.outbox = db.outbox ∨ ds ≠ [] ∧ (∀ x ∈ db.outbox.rows, x.id ≠ outboxId) ∧
      db'.outbox.rows = db.outbox.rows ++ [newOutbox now outboxId e.id none]) ∧
    db'.endpoints = db.endpoints ∧ db'.subscriptions = db.subscriptions ∧
    db'.attempts = db.attempts := by
  obtain ⟨db₁, h₁, h₂⟩ := Option.bind_eq_some_iff.1 h
  obtain ⟨hkey, hfresh, events, hins, rfl⟩ := insertEvent?_eq_some h₁
  have hevents := (Table.insert?_eq_some_iff.1 hins).2
  unfold fanOut? at h₂
  split_ifs at h₂ with hnil
  · cases h₂
    subst hnil
    exact ⟨hkey, hfresh, by simp, hevents, by simp, .inl ⟨rfl, rfl⟩, rfl, rfl, rfl⟩
  · obtain ⟨db₂, h₂, h₃⟩ := Option.bind_eq_some_iff.1 h₂
    obtain ⟨hds, hrows, heq⟩ := insertDeliveries?_eq_some h₂
    obtain ⟨hout, hrows', heq'⟩ := insertOutbox?_eq_some h₃
    rw [heq] at hout hrows' heq'
    rw [heq']
    exact ⟨hkey, hfresh, hds, hevents, hrows, .inr ⟨hnil, hout, hrows'⟩, rfl, rfl, rfl⟩

/-- What a committed ping leaves behind. -/
theorem pingTx_eq_some (h : db.pingTx now e deliveryId endpointId outboxId = some db') :
    db.keyTaken e.tenantId e.idempotencyKey = false ∧
    db.events.find? e.id = none ∧ db.deliveries.find? deliveryId = none ∧
    (∀ x ∈ db.outbox.rows, x.id ≠ outboxId) ∧
    db'.events.rows = db.events.rows ++ [e] ∧
    db'.deliveries.rows = db.deliveries.rows ++ [newDelivery now deliveryId e.id endpointId] ∧
    db'.outbox.rows = db.outbox.rows ++ [newOutbox now outboxId e.id (some deliveryId)] ∧
    db'.endpoints = db.endpoints ∧ db'.subscriptions = db.subscriptions ∧
    db'.attempts = db.attempts := by
  obtain ⟨db₁, h₁, h₂⟩ := Option.bind_eq_some_iff.1 h
  obtain ⟨hkey, hfresh, events, hins, rfl⟩ := insertEvent?_eq_some h₁
  have hevents := (Table.insert?_eq_some_iff.1 hins).2
  obtain ⟨db₂, h₂, h₃⟩ := Option.bind_eq_some_iff.1 h₂
  obtain ⟨hd, hrows, heq⟩ := insertDelivery?_eq_some h₂
  obtain ⟨hout, hrows', heq'⟩ := insertOutbox?_eq_some h₃
  rw [heq] at hout hrows' heq'
  rw [heq']
  exact ⟨hkey, hfresh, hd, hout, hevents, hrows, hrows', rfl, rfl, rfl⟩

/-- What a committed redelivery leaves behind. -/
theorem redeliverTx_eq_some (h : db.redeliverTx now d outboxId = some db') :
    (∀ x ∈ db.outbox.rows, x.id ≠ outboxId) ∧
    db'.deliveries = db.deliveries.modify d.id (reopen now) (reopen_id now) ∧
    db'.outbox.rows = db.outbox.rows ++ [newOutbox now outboxId d.eventId (some d.id)] ∧
    db'.events = db.events ∧ db'.endpoints = db.endpoints ∧
    db'.subscriptions = db.subscriptions ∧ db'.attempts = db.attempts := by
  obtain ⟨hout, hrows, heq⟩ := insertOutbox?_eq_some h
  rw [heq]
  exact ⟨hout, rfl, hrows, rfl, rfl, rfl, rfl⟩

/-- The subscriptions afterwards: those of other endpoints, and new ones of this one. -/
theorem setSubscriptionsTx_rows (db : Database) (endpointId : Uuid) (eventTypes : List Text) : ∃ new,
    (db.setSubscriptionsTx endpointId eventTypes).subscriptions.rows =
      (db.subscriptions.rows.filter fun row => !decide (row.endpointId = endpointId)) ++ new ∧
    ∀ row ∈ new, row.endpointId = endpointId := by
  obtain ⟨new, hrows, hnew⟩ := Serial.insertMany_rows (newSubscription endpointId)
    (newSubscription_id endpointId) eventTypes
    (db.subscriptions.deleteMany fun row => row.endpointId = endpointId)
  refine ⟨new, hrows, fun row hrow => ?_⟩
  obtain ⟨t, -, n, rfl⟩ := hnew row hrow
  rfl

/-- The same, but for their numbers. -/
theorem setSubscriptionsTx_map {β : Type} (eventTypes : List Text) (f : SubscriptionRow → β)
    (h : ∀ t n, f (newSubscription endpointId t n) = f (newSubscription endpointId t 0)) :
    (db.setSubscriptionsTx endpointId eventTypes).subscriptions.rows.map f =
      (db.subscriptions.rows.filter fun row => !decide (row.endpointId = endpointId)).map f ++
        eventTypes.map fun t => f (newSubscription endpointId t 0) :=
  Serial.insertMany_map _ _ f _ h eventTypes _

/-- A subscription afterwards was there before, or is of the endpoint. -/
theorem mem_setSubscriptionsTx {eventTypes : List Text} {row : SubscriptionRow}
    (h : row ∈ (db.setSubscriptionsTx endpointId eventTypes).subscriptions.rows) :
    row ∈ db.subscriptions.rows ∨ row.endpointId = endpointId := by
  obtain ⟨new, hrows, hnew⟩ := db.setSubscriptionsTx_rows endpointId eventTypes
  rw [hrows, List.mem_append] at h
  rcases h with h | h
  · exact .inl (List.mem_of_mem_filter h)
  · exact .inr (hnew row h)

end Database

end HookRelay
