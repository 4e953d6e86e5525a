import HookRelay.Lib.Transition
import HookRelay.Api.Endpoints
import HookRelay.Relay.Tick
import HookRelay.Worker.Processor

/-!
# The whole system, step by step

One database, one queue, any number of relays and workers.  A step is one transaction
of the API, one access of a relay's tick, one awaited call of a worker's run, or one of
the things that can go wrong: a database call throws, a process dies, a job's lock
expires.  Steps of different parties interleave in any order.

* `step` — one step; `none` when it is not possible.
* `init` — nothing has happened; `Reach` — the states the system can get to.
* `Sample` — a small instance, for the examples of the following modules.

Two fields record the past and are read by no step: `accepted`, the jobs the queue
took, and `sent`, the requests that went out.
-/

namespace HookRelay
namespace System

open Lib

/-- A job that the queue took, and the outbox row it was made for. -/
structure Accepted where
  outboxId : ℕ
  jobId : Text
  deliveryId : Uuid
  tenantId : Option Uuid
  deriving DecidableEq

structure State where
  now : Micros
  db : Database
  queue : Queue
  ticks : ℕ → Option Tick
  runs : ℕ → Option Run
  /-- The number of the next run. -/
  nextRun : ℕ
  /-- The endpoint cache of each worker process. -/
  cache : ℕ → EndpointCache
  accepted : List Accepted
  sent : List (Uuid × ℕ)

def init : State :=
  { now := 0, db := .empty, queue := ∅, ticks := fun _ => none, runs := fun _ => none,
    nextRun := 0, cache := fun _ _ => none, accepted := [], sent := [] }

inductive Action where
  /-- Time passes. -/
  | clock (us : ℕ)
  /-- An endpoint is registered. -/
  | createEndpoint (e : EndpointRow)
  /-- An endpoint is changed: `EndpointsService.update`. -/
  | updateEndpoint (id : Uuid) (url : Option Text) (description : Option (Option Text))
      (status : Option EndpointStatus)
  /-- The subscriptions of an endpoint are replaced. -/
  | setSubscriptions (endpointId : Uuid) (eventTypes : List Text)
  /-- `publish` commits.  The targets (a delivery id for each endpoint) were read earlier
  in the transaction. -/
  | publish (e : EventRow) (targets : List (Uuid × Uuid)) (outboxId : ℕ)
  /-- `ping` commits. -/
  | ping (e : EventRow) (deliveryId endpointId : Uuid) (outboxId : ℕ)
  /-- `redeliver` commits. -/
  | redeliver (tenantId deliveryId : Uuid) (outboxId : ℕ)
  /-- Relay `k` begins a tick and reads its batch. -/
  | tickRead (k batchSize : ℕ)
  /-- `addBulk` for the next row succeeds. -/
  | tickAdd (k : ℕ)
  /-- `addBulk` for the next row fails after adding some of its jobs. -/
  | tickFail (k : ℕ) (mask : List Bool)
  /-- The tick marks the rows it added and ends. -/
  | tickMark (k : ℕ)
  /-- The relay dies. -/
  | tickCrash (k : ℕ)
  /-- Worker `w` is handed a job. -/
  | take (w : ℕ) (jobId : Text)
  /-- A run makes its next step. -/
  | run (r : ℕ) (i : Input)
  /-- The awaited call of a run throws. -/
  | throw (r : ℕ)
  /-- The process of a run dies. -/
  | crash (r : ℕ)
  /-- The lock of a job expires; it can be handed out again. -/
  | unlock (jobId : Text)
  /-- The queue gives up a job whose lock expired too often. -/
  | discard (jobId : Text)

/-! ## The queue and the log of accepted jobs -/

/-- Add the jobs of an outbox row to the queue. -/
def addJobs (s : State) (outboxId : ℕ) : List Job → State
  | [] => s
  | j :: js =>
      let s' := match s.queue.insert? j with
        | some queue => { s with
            queue := queue
            accepted := s.accepted ++ [⟨outboxId, j.id, j.deliveryId, j.tenantId⟩] }
        | none => s
      addJobs s' outboxId js

/-- Put a run where it stands after a step. -/
def setRun (s : State) (r : ℕ) (run : Option Run) : State :=
  { s with runs := Function.update s.runs r run }

/-- The state after a step of run `r` as planned. -/
def applyNext (s : State) (r : ℕ) (run : Run) (next : Next) : State :=
  { s with
    db := next.write.exec s.now s.db
    runs := Function.update s.runs r (some next.run)
    cache := Function.update s.cache run.worker (next.cache.exec (s.cache run.worker))
    sent := match run.phase with
      | .attempt d _ _ .send => s.sent ++ [(d.id, d.attemptCount + 1)]
      | _ => s.sent }

/-- The last step of a run: it lets go of its job. -/
def letGo (s : State) (r : ℕ) (run : Run) : Option State :=
  match run.phase with
  | .delay => some { setRun s r none with queue := s.queue.release run.jobId r }
  | .finish .returned => some { setRun s r none with queue := s.queue.complete run.jobId r }
  | .finish _ => some { setRun s r none with queue := s.queue.fail run.jobId r }
  | _ => none

/-- A step of a run. -/
def stepRun (cfg : WorkerConfig) (s : State) (r : ℕ) (i : Input) : Option State :=
  match s.runs r with
  | none => none
  | some run =>
      match letGo s r run with
      | some s' => some s'
      | none => (plan cfg s.now s.db (s.cache run.worker) run i).map (applyNext s r run)

/-- One step of the system. -/
def step (cfg : WorkerConfig) (s : State) : Action → Option State
  | .clock us => some { s with now := s.now + us }
  | .createEndpoint e =>
      if s.db.urlTaken e.tenantId e.url none then none
      else (s.db.endpoints.insert? e).map fun endpoints =>
        { s with db := { s.db with endpoints := endpoints } }
  | .updateEndpoint id url description status =>
      match s.db.endpoints.find? id with
      | none => none
      | some e =>
          if s.db.urlTaken e.tenantId (url.getD e.url) (some id) then none
          else
            let endpoints := s.db.endpoints.modify id
              (EndpointsService.updateData s.now url description status)
              (EndpointsService.updateData_id s.now url description status)
            some { s with db := { s.db with endpoints := endpoints } }
  | .setSubscriptions endpointId eventTypes =>
      match s.db.endpoints.find? endpointId with
      | none => none
      | some _ => some { s with db := s.db.setSubscriptionsTx endpointId eventTypes }
  | .publish e targets outboxId =>
      if ∀ t ∈ targets, ∃ ep ∈ s.db.endpoints.find? t.2, ep.tenantId = e.tenantId then
        (s.db.publishTx s.now e (targets.map fun t => Database.newDelivery s.now t.1 e.id t.2)
          outboxId).map fun db => { s with db := db }
      else none
  | .ping e deliveryId endpointId outboxId =>
      if ∃ ep ∈ s.db.endpoints.find? endpointId, ep.tenantId = e.tenantId then
        (s.db.pingTx s.now e deliveryId endpointId outboxId).map fun db => { s with db := db }
      else none
  | .redeliver tenantId deliveryId outboxId =>
      match s.db.deliveries.find? deliveryId with
      | none => none
      | some d =>
          if ∃ e ∈ s.db.events.find? d.eventId, e.tenantId = tenantId then
            (s.db.redeliverTx s.now d outboxId).map fun db => { s with db := db }
          else none
  | .tickRead k batchSize =>
      match s.ticks k with
      | some _ => none
      | none =>
          some { s with ticks := Function.update s.ticks k (some ⟨readBatch s.db batchSize, []⟩) }
  | .tickAdd k =>
      match s.ticks k with
      | some ⟨m :: ms, published⟩ =>
          let s' := addJobs s m.id (jobsOf cfg.maxAttempts m)
          some { s' with ticks := Function.update s.ticks k (some ⟨ms, published ++ [m.id]⟩) }
      | _ => none
  | .tickFail k mask =>
      match s.ticks k with
      | some ⟨m :: _, published⟩ =>
          let s' := addJobs s m.id (addedBeforeFailure mask (jobsOf cfg.maxAttempts m))
          some { s' with ticks := Function.update s.ticks k (some ⟨[], published⟩) }
      | _ => none
  | .tickMark k =>
      match s.ticks k with
      | some ⟨[], published⟩ =>
          some { s with
            db := markPublished s.db s.now published
            ticks := Function.update s.ticks k none }
      | _ => none
  | .tickCrash k => some { s with ticks := Function.update s.ticks k none }
  | .take w jobId =>
      match s.queue.find? jobId with
      | some j =>
          if j.lock = none then
            some { s with
              queue := s.queue.hand jobId s.nextRun
              runs := Function.update s.runs s.nextRun
                (some ⟨jobId, j.deliveryId, j.tenantId, w, false, none, .tenant⟩)
              nextRun := s.nextRun + 1 }
          else none
      | none => none
  | .run r i => stepRun cfg s r i
  | .throw r =>
      match s.runs r with
      | some run =>
          if run.phase.isFinish then none
          else some (setRun s r (some { run with phase := .finish .threw }))
      | none => none
  | .crash r =>
      match s.runs r with
      | some _ => some (setRun s r none)
      | none => none
  | .unlock jobId => some { s with queue := s.queue.unlock jobId }
  | .discard jobId => some { s with queue := s.queue.remove jobId }

/-- The states the system can reach. -/
abbrev Reach (cfg : WorkerConfig) (s : State) : Prop := Reachable (step cfg) init s

/-! ## A small instance

One tenant, one endpoint, one event with one delivery: the state in which the examples of
the following modules start. -/

namespace Sample

/-- At most two attempts; any destination; secrets are stored as they are. -/
def cfg : WorkerConfig := ⟨2, true, fun _ => none, id⟩

def tenant : Uuid := .ofNat 1

def endpoint : Uuid := .ofNat 2

def event : Uuid := .ofNat 3

def delivery : Uuid := .ofNat 4

def endpointRow : EndpointRow :=
  { id := endpoint, tenantId := tenant, url := "https://example.com/".toList, secretEnc := [],
    status := .active, description := none, consecutiveFailures := 0, createdAt := 0,
    updatedAt := 0 }

def eventRow : EventRow :=
  { id := event, tenantId := tenant, type := "order.created".toList, payload := .obj [],
    idempotencyKey := "k".toList, createdAt := 0 }

/-- The job of the fan-out row. -/
def job : Text := deliveryJobId delivery none

/-- The endpoint is registered, the event published, and its delivery enqueued. -/
def enqueued : List Action :=
  [.createEndpoint endpointRow, .publish eventRow [(delivery, endpoint)] 0, .tickRead 0 100,
    .tickAdd 0, .tickMark 0]

/-- Run `r` goes up to its claim, reading the endpoint from the database. -/
def toClaim (r : ℕ) : List Action :=
  [.run r .none, .run r (.answer true), .run r .none, .run r .none, .run r .none, .run r .none]

/-- Run `r` claims an attempt, sends it, gets this status and records it. -/
def attempt (r : ℕ) (statusCode : ℕ) : List Action :=
  [.run r (.digest []), .run r (.answer true), .run r .none,
    .run r (.response (.ok ⟨statusCode, []⟩) 5), .run r .none]

/-- Run `r` settles an attempt that succeeded. -/
def settleSuccess (r : ℕ) : List Action := [.run r .none, .run r .none, .run r .none]

/-- Run `r` settles an attempt that failed. -/
def settleFailure (r : ℕ) : List Action := [.run r (.answer false), .run r .none, .run r .none]

/-- Run 0 of the delivery is about to claim. -/
def beforeClaim : List Action := enqueued ++ [.take 0 job] ++ toClaim 0

/-- Run 0 makes an attempt that fails, and ends with `RetrySignal`. -/
def failedOnce : List Action :=
  beforeClaim ++ attempt 0 500 ++ settleFailure 0 ++
    [.run 0 .none, .run 0 .none, .run 0 (.delay 0), .run 0 .none]

/-- No call throws and no process dies. -/
def noFault : Action → Bool
  | .throw _ | .crash _ => false
  | _ => true

/-- The delivery's status and number of attempts. -/
def statusIs (s : State) (status : DeliveryStatus) (n : ℕ) : Bool :=
  (s.db.deliveries.find? delivery).any fun row => row.status = status && row.attemptCount = n

theorem statusIs_iff {s : State} {status : DeliveryStatus} {n : ℕ} :
    statusIs s status n = true ↔ ∃ row, s.db.deliveries.find? delivery = some row ∧
      row.status = status ∧ row.attemptCount = n := by
  simp [statusIs, Option.any_eq_true]

/-- Run `r` holds a claim of the delivery. -/
def holds (s : State) (r : ℕ) : Bool :=
  match s.runs r with
  | some run =>
      match run.phase with
      | .attempt _ _ _ _ => run.deliveryId = delivery
      | _ => false
  | none => false

end Sample

end System
end HookRelay
