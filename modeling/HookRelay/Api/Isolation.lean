import HookRelay.Api.Scoped

/-!
# Tenants do not interfere

What an operation of the API returns, and what it does, depends on the rows of the calling
tenant only, and it leaves those of the others alone.

* `Request`, `handle` — the operations of the three services.
* `noninterference` — the theorem, for any two reachable states.
* `numbers_differ_after_ping` — it is about rows without the numbers they get from sequences.
-/

namespace HookRelay

open Lib Database

variable {db db₁ db₂ : Database} {b : Uuid}

/-! ## Requests -/

/-- The operations of the services. -/
inductive Request where
  | createEndpoint (url : Text) (description : Option Text)
  | listEndpoints
  | getEndpoint (id : Uuid)
  | updateEndpoint (id : Uuid) (url : Option Text) (description : Option (Option Text))
      (status : Option EndpointStatus)
  | setSubscriptions (id : Uuid) (eventTypes : List Text)
  | ping (endpointId : Uuid)
  | publish (type : Text) (payload : Json) (idempotencyKey : Text)
  | getDeliveries (eventId : Uuid)
  | listDeliveries (status : Option DeliveryStatus) (cursor : Option Text)
  | attempts (deliveryId : Uuid)
  | redeliver (deliveryId : Uuid)

/-- Their answers. -/
inductive Answer where
  | created (view : EndpointsService.View) (secret : Text)
  | endpoints (views : List (EndpointsService.View × List Text))
  | endpoint (view : EndpointsService.View) (eventTypes : List Text)
  | updated (view : EndpointsService.View)
  | subscriptions (endpointId : Uuid) (eventTypes : List Text)
  | pinged (eventId deliveryId endpointId : Uuid)
  | published (result : EventsService.PublishResult)
  | event (view : EventsService.EventView)
  | deliveries (page : DeliveriesService.Page)
  | attempts (view : DeliveriesService.AttemptsView)
  | redelivered (deliveryId : Uuid) (status : DeliveryStatus)
  deriving DecidableEq

/-- The answer of an operation, as one of the API. -/
def respond {α : Type} (f : α → Answer) (outcome : Outcome α) : Outcome Answer :=
  outcome.map fun p => (f p.1, p.2)

/-- An operation called for a tenant. -/
def handle (env : Env) (codec : DeliveriesService.CursorCodec) (tenantId : Uuid) (db : Database) :
    Request → Outcome Answer
  | .createEndpoint url description =>
      respond (fun p => .created p.1 p.2) (EndpointsService.create env tenantId url description db)
  | .listEndpoints => respond .endpoints (EndpointsService.list tenantId db)
  | .getEndpoint id => respond (fun p => .endpoint p.1 p.2) (EndpointsService.get tenantId id db)
  | .updateEndpoint id url description status =>
      respond .updated (EndpointsService.update env tenantId id url description status db)
  | .setSubscriptions id eventTypes =>
      respond (fun p => .subscriptions p.1 p.2)
        (EndpointsService.setSubscriptions tenantId id eventTypes db)
  | .ping endpointId =>
      respond (fun p => .pinged p.1 p.2.1 p.2.2) (EndpointsService.ping env tenantId endpointId db)
  | .publish type payload idempotencyKey =>
      respond .published (EventsService.publish env tenantId type payload idempotencyKey db)
  | .getDeliveries eventId => respond .event (EventsService.getDeliveries tenantId eventId db)
  | .listDeliveries status cursor =>
      respond .deliveries (DeliveriesService.list codec tenantId status cursor db)
  | .attempts deliveryId => respond .attempts (DeliveriesService.attempts tenantId deliveryId db)
  | .redeliver deliveryId =>
      respond (fun p => .redelivered p.1 p.2) (DeliveriesService.redeliver env tenantId deliveryId db)

/-- What a call returns. -/
def result {α : Type} (outcome : Outcome α) : Except ServiceError α := outcome.map Prod.fst

/-- The database after a call; a call that fails leaves it as it was. -/
def after {α : Type} (db : Database) : Outcome α → Database
  | .error _ => db
  | .ok (_, db') => db'

theorem SameOutcome.respond {α : Type} {o₁ o₂ : Outcome α} (h : SameOutcome b db₁ db₂ o₁ o₂)
    (f : α → Answer) : SameOutcome b db₁ db₂ (respond f o₁) (respond f o₂) := by
  cases h with
  | error e => exact .error e
  | ok answer hagree hu₁ hu₂ => exact .ok (f answer) hagree hu₁ hu₂

theorem handle_same {env : Env} (codec : DeliveriesService.CursorCodec)
    (hagree : Agree b db₁ db₂) (h₁ : db₁.Sound) (h₂ : db₂.Sound) (hf₁ : Fresh env db₁)
    (hf₂ : Fresh env db₂) (request : Request) :
    SameOutcome b db₁ db₂ (handle env codec b db₁ request) (handle env codec b db₂ request) := by
  unfold handle
  cases request with
  | createEndpoint url description =>
      apply SameOutcome.respond
      exact EndpointsService.create_same hagree h₁ h₂ hf₁ hf₂ url description
  | listEndpoints =>
      apply SameOutcome.respond
      exact EndpointsService.list_same hagree
  | getEndpoint id =>
      apply SameOutcome.respond
      exact EndpointsService.get_same hagree id
  | updateEndpoint id url description status =>
      apply SameOutcome.respond
      exact EndpointsService.update_same hagree id url description status
  | setSubscriptions id eventTypes =>
      apply SameOutcome.respond
      exact EndpointsService.setSubscriptions_same hagree id eventTypes
  | ping endpointId =>
      apply SameOutcome.respond
      exact EndpointsService.ping_same hagree h₁ h₂ hf₁ hf₂ endpointId
  | publish type payload idempotencyKey =>
      apply SameOutcome.respond
      exact EventsService.publish_same hagree h₁ h₂ hf₁ hf₂ type payload idempotencyKey
  | getDeliveries eventId =>
      apply SameOutcome.respond
      exact EventsService.getDeliveries_same hagree h₁ h₂ eventId
  | listDeliveries status cursor =>
      apply SameOutcome.respond
      exact DeliveriesService.list_same codec hagree h₁ h₂ status cursor
  | attempts deliveryId =>
      apply SameOutcome.respond
      exact DeliveriesService.attempts_same hagree deliveryId
  | redeliver deliveryId =>
      apply SameOutcome.respond
      exact DeliveriesService.redeliver_same hagree deliveryId

theorem SameOutcome.result_eq {α : Type} {o₁ o₂ : Outcome α} (h : SameOutcome b db₁ db₂ o₁ o₂) :
    result o₁ = result o₂ := by
  cases h with
  | error e => rfl
  | ok answer _ _ _ => rfl

theorem SameOutcome.agree_after {α : Type} {o₁ o₂ : Outcome α} (h : SameOutcome b db₁ db₂ o₁ o₂)
    (hagree : Agree b db₁ db₂) : Agree b (after db₁ o₁) (after db₂ o₂) := by
  cases h with
  | error e => exact hagree
  | ok answer hagree' _ _ => exact hagree'

theorem SameOutcome.untouched {α : Type} {o₁ o₂ : Outcome α} (h : SameOutcome b db₁ db₂ o₁ o₂) :
    Untouched b db₁ (after db₁ o₁) ∧ Untouched b db₂ (after db₂ o₂) := by
  cases h with
  | error e => exact ⟨.refl b db₁, .refl b db₂⟩
  | ok answer _ hu₁ hu₂ => exact ⟨hu₁, hu₂⟩

/-- **Tenants do not interfere.**  In two reachable states that agree on the rows of a tenant,
but for numbers from sequences, every operation called for that tenant returns the same, the
states agree again afterwards, and the rows of the other tenants are as they were.  In every
reachable state the endpoint and the event of a delivery have the same tenant. -/
theorem noninterference {cfg₁ cfg₂ : WorkerConfig} {s₁ s₂ : System.State}
    (h₁ : System.Reach cfg₁ s₁) (h₂ : System.Reach cfg₂ s₂) (env : Env)
    (codec : DeliveriesService.CursorCodec) (tenantId : Uuid) (request : Request)
    (hf₁ : Fresh env s₁.db) (hf₂ : Fresh env s₂.db) (hagree : Agree tenantId s₁.db s₂.db) :
    (∀ d ∈ s₁.db.deliveries, s₁.db.SameTenant d) ∧
    result (handle env codec tenantId s₁.db request) =
      result (handle env codec tenantId s₂.db request) ∧
    Agree tenantId (after s₁.db (handle env codec tenantId s₁.db request))
      (after s₂.db (handle env codec tenantId s₂.db request)) ∧
    Untouched tenantId s₁.db (after s₁.db (handle env codec tenantId s₁.db request)) ∧
    Untouched tenantId s₂.db (after s₂.db (handle env codec tenantId s₂.db request)) := by
  have hsound₁ := System.path_soundDb h₁
  have hsame := handle_same codec hagree hsound₁ (System.path_soundDb h₂) hf₁ hf₂ request
  exact ⟨hsound₁.delivery, hsame.result_eq, hsame.agree_after hagree, hsame.untouched⟩

/-! ## Numbers

Two states in which a tenant has the same rows: in one of them another tenant has sent a
ping. -/

/-- The UUIDs are fresh, by trying them. -/
def freshCheck (env : Env) (db : Database) : Bool :=
  (List.range (db.endpoints.rows.length + 2)).all fun i =>
    ((List.range i).all fun j => env.randomUuid j ≠ env.randomUuid i) &&
    (db.endpoints.find? (env.randomUuid i)).isNone && (db.events.find? (env.randomUuid i)).isNone &&
    (db.deliveries.find? (env.randomUuid i)).isNone

theorem fresh_of_check {env : Env} (h : freshCheck env db = true) : Fresh env db := by
  simp only [freshCheck, List.all_eq_true, List.mem_range, Bool.and_eq_true, decide_eq_true_eq,
    Option.isNone_iff_eq_none] at h
  refine ⟨fun i j hij hj => ?_, fun i hi => ?_, fun i hi => ?_, fun i hi => ?_⟩
  · exact (h j (by omega)).1.1.1 i hij
  · exact (h i (by omega)).1.1.2
  · exact (h i (by omega)).1.2
  · exact (h i (by omega)).2

namespace Neighbours

def env : Env :=
  { now := 0, ssrf := ⟨false, false⟩, newUrl := fun _ => none, resolve := fun _ => none,
    randomUuid := fun i => .ofNat (1000 + i), secret := [], encrypt := id }

def codec : DeliveriesService.CursorCodec := ⟨fun _ => none, fun _ => none⟩

/-- An endpoint of a tenant, with ten times its number. -/
def endpointOf (k : ℕ) : EndpointRow :=
  { id := .ofNat (10 * k), tenantId := .ofNat k, url := "https://example.com/".toList,
    secretEnc := [], status := .active, description := none, consecutiveFailures := 0,
    createdAt := 0, updatedAt := 0 }

/-- The tenant is alone. -/
def alone : List System.Action := [.createEndpoint (endpointOf 2)]

/-- Another tenant has sent a ping. -/
def together : List System.Action :=
  [.createEndpoint (endpointOf 2), .createEndpoint (endpointOf 1),
    .ping ⟨.ofNat 11, .ofNat 1, "endpoint.ping".toList, .null, "ping".toList, 0⟩ (.ofNat 12)
      (.ofNat 10) 0]

/-- The tenant has an endpoint and nothing else, and the outbox row of a ping will have this
number. -/
def check (number : ℕ) (s : System.State) : Bool :=
  let rows := s.db.rowsOf (.ofNat 2)
  let later := (after s.db (handle env codec (.ofNat 2) s.db (.ping (.ofNat 20)))).rowsOf (.ofNat 2)
  freshCheck env s.db && rows.endpoints = [endpointOf 2] && rows.subscriptions = [] &&
    rows.events.isEmpty && rows.deliveries = [] && rows.attempts = [] && rows.outbox = [] &&
    later.outbox.map OutboxRow.id = [number]

theorem check_iff {number : ℕ} {s : System.State} (h : check number s = true) :
    Fresh env s.db ∧ s.db.rowsOf (.ofNat 2) = ⟨[endpointOf 2], [], [], [], [], []⟩ ∧
    ((after s.db (handle env codec (.ofNat 2) s.db (.ping (.ofNat 20)))).rowsOf
      (.ofNat 2)).outbox.map OutboxRow.id = [number] := by
  simp only [check, Bool.and_eq_true, decide_eq_true_eq, List.isEmpty_iff] at h
  obtain ⟨⟨⟨⟨⟨⟨⟨hfresh, he⟩, hs⟩, hev⟩, hd⟩, ha⟩, ho⟩, hlater⟩ := h
  exact ⟨fresh_of_check hfresh, Owned.ext he hs hev hd ha ho, hlater⟩

theorem exists_alone : ∃ s, System.Reach System.Sample.cfg s ∧ check 0 s = true :=
  Path.exists_of_runChecked (p := fun _ _ => true) _ (fun _ _ _ => trivial) System.init alone
    (check 0) (by decide +kernel)

theorem exists_together : ∃ s, System.Reach System.Sample.cfg s ∧ check 1 s = true :=
  Path.exists_of_runChecked (p := fun _ _ => true) _ (fun _ _ _ => trivial) System.init together
    (check 1) (by decide +kernel)

theorem agree_of_check {m k : ℕ} {s₁ s₂ : System.State} (h₁ : check m s₁ = true)
    (h₂ : check k s₂ = true) : s₁.db.rowsOf (.ofNat 2) = s₂.db.rowsOf (.ofNat 2) :=
  (check_iff h₁).2.1.trans (check_iff h₂).2.1.symm

theorem Agree.of_eq {s₁ s₂ : System.State} (h : s₁.db.rowsOf b = s₂.db.rowsOf b) :
    Agree b s₁.db s₂.db := by
  rw [Agree, h]
  exact ⟨rfl, rfl, rfl, rfl, rfl, rfl⟩

/-- A ping is answered the same with a neighbour as without. -/
theorem noninterference_at_ping : ∃ s₁ s₂, System.Reach System.Sample.cfg s₁ ∧
    System.Reach System.Sample.cfg s₂ ∧ Fresh env s₁.db ∧ Fresh env s₂.db ∧
    Agree (.ofNat 2) s₁.db s₂.db ∧
    result (handle env codec (.ofNat 2) s₁.db (.ping (.ofNat 20))) =
      result (handle env codec (.ofNat 2) s₂.db (.ping (.ofNat 20))) := by
  obtain ⟨s₁, hs₁, h₁⟩ := exists_alone
  obtain ⟨s₂, hs₂, h₂⟩ := exists_together
  have hf₁ := (check_iff h₁).1
  have hf₂ := (check_iff h₂).1
  have hagree := Agree.of_eq (agree_of_check h₁ h₂)
  have hsame := noninterference hs₁ hs₂ env codec (.ofNat 2) (.ping (.ofNat 20)) hf₁ hf₂ hagree
  exact ⟨s₁, s₂, hs₁, hs₂, hf₁, hf₂, hagree, hsame.2.1⟩

/-- **The numbers of new rows do interfere**: they are drawn from sequences that all the tenants
share, so the rows of a tenant are not the same afterwards, number by number. -/
theorem numbers_differ_after_ping :
    ¬ ∀ (cfg : WorkerConfig) (s₁ s₂ : System.State), System.Reach cfg s₁ → System.Reach cfg s₂ →
      ∀ (env : Env) (codec : DeliveriesService.CursorCodec) (tenantId : Uuid) (request : Request),
        Fresh env s₁.db → Fresh env s₂.db → s₁.db.rowsOf tenantId = s₂.db.rowsOf tenantId →
        (∀ d ∈ s₁.db.deliveries, s₁.db.SameTenant d) ∧
        result (handle env codec tenantId s₁.db request) =
          result (handle env codec tenantId s₂.db request) ∧
        (after s₁.db (handle env codec tenantId s₁.db request)).rowsOf tenantId =
          (after s₂.db (handle env codec tenantId s₂.db request)).rowsOf tenantId ∧
        Untouched tenantId s₁.db (after s₁.db (handle env codec tenantId s₁.db request)) ∧
        Untouched tenantId s₂.db (after s₂.db (handle env codec tenantId s₂.db request)) := by
  intro hall
  obtain ⟨s₁, hs₁, h₁⟩ := exists_alone
  obtain ⟨s₂, hs₂, h₂⟩ := exists_together
  obtain ⟨hf₁, -, hnumber₁⟩ := check_iff h₁
  obtain ⟨hf₂, -, hnumber₂⟩ := check_iff h₂
  obtain ⟨-, -, hrows, -⟩ := hall System.Sample.cfg s₁ s₂ hs₁ hs₂ env codec (.ofNat 2)
    (.ping (.ofNat 20)) hf₁ hf₂ (agree_of_check h₁ h₂)
  rw [hrows, hnumber₂] at hnumber₁
  cases hnumber₁

end Neighbours

end HookRelay
