import HookRelay.Lib.Transition
import HookRelay.Data.Indexes
import HookRelay.Api.Events

/-!
# Publishing, step by step

Any number of calls of `EventsService.publish` at once, each taken apart at its awaits.  What
a transaction has written is seen by nobody before it commits, except by the unique indexes:
an insert waits for a transaction that has inserted the same key and has not ended yet, and
violates the index if that one committed.  In between, endpoints are registered and changed.

* `Phase` — where a call stands; `step` — one step of a call, a failure of one, or a change
  of the endpoints.
* `Effect` — what a step does (`effect_of_step`).
-/

namespace HookRelay

open Lib EventsService Database

namespace Publishing

/-- A call of `publish`, with what it takes from outside. -/
structure Call where
  env : Env
  tenantId : Uuid
  type : Text
  payload : Json
  idempotencyKey : Text

/-- The payload is over the limit. -/
def Call.tooLarge (c : Call) : Bool := sizeBytes c.payload > maxPayloadBytes

/-- The event that the call inserts. -/
def Call.event (c : Call) : EventRow :=
  newEvent c.env c.tenantId c.type c.payload c.idempotencyKey

/-- The deliveries that the call inserts; `pairs` are their ids and their endpoints. -/
def Call.deliveries (c : Call) (pairs : List (Uuid × Uuid)) : List DeliveryRow :=
  pairs.map fun p => Database.newDelivery c.env.now p.1 c.event.id p.2

/-- The calls are of the same tenant, with the same idempotency key. -/
def Call.SameKey (c c' : Call) : Prop :=
  c.tenantId = c'.tenantId ∧ c.idempotencyKey = c'.idempotencyKey

instance (c c' : Call) : Decidable (c.SameKey c') := by unfold Call.SameKey; infer_instance

/-- Where a call stands: what it does next. -/
inductive Phase where
  /-- It checks the size of the payload. -/
  | size
  /-- It inserts the event. -/
  | insert
  /-- The event is inserted; it reads the endpoints to deliver to. -/
  | targets
  /-- It inserts the deliveries. -/
  | deliveries (pairs : List (Uuid × Uuid))
  /-- It inserts the fan-out row. -/
  | outbox (pairs : List (Uuid × Uuid))
  /-- It commits.  The number is that of the fan-out row, if there are deliveries. -/
  | commit (pairs : List (Uuid × Uuid)) (outboxId : ℕ)
  /-- A unique index was violated, and the transaction is rolled back; it looks for the event
  that has the key. -/
  | lookup
  | done (result : Except ServiceError PublishResult)

namespace Phase

/-- The transaction has inserted its event and not ended. -/
def holds : Phase → Bool
  | targets | deliveries _ | outbox _ | commit _ _ => true
  | size | insert | lookup | done _ => false

/-- The deliveries the transaction has inserted. -/
def written : Phase → List (Uuid × Uuid)
  | outbox pairs | commit pairs _ => pairs
  | size | insert | targets | deliveries _ | lookup | done _ => []

def isDone : Phase → Bool
  | done _ => true
  | _ => false

end Phase

/-- What a call has committed. -/
structure Commit (n : ℕ) where
  call : Fin n
  pairs : List (Uuid × Uuid)
  outboxId : ℕ

variable {n : ℕ}

/-- The state.  What is in the database is committed; `commits` records who did it, and is
read by no step. -/
structure State (n : ℕ) where
  db : Database
  phase : Fin n → Phase
  commits : List (Commit n)

/-- No call has begun. -/
def init (db : Database) : State n := ⟨db, fun _ => .size, []⟩

inductive Action (n : ℕ) where
  /-- A call makes its next step. -/
  | call (r : Fin n)
  /-- The awaited call of a call throws. -/
  | fail (r : Fin n)
  /-- The transaction commits, but the answer of the database is lost. -/
  | lose (r : Fin n)
  /-- An endpoint is registered. -/
  | createEndpoint (e : EndpointRow)
  /-- An endpoint is changed. -/
  | updateEndpoint (id : Uuid) (f : EndpointRow → EndpointRow) (hf : ∀ e, (f e).id = e.id)
  /-- The subscriptions of an endpoint are replaced. -/
  | setSubscriptions (endpointId : Uuid) (eventTypes : List Text)

variable (calls : Fin n → Call)

/-- The insert of the event waits for another transaction. -/
def waitsForEvent (s : State n) (r : Fin n) : Bool :=
  decide (∃ r', (s.phase r').holds = true ∧ clash (calls r').event (calls r).event = true)

/-- The insert of the deliveries waits for another transaction. -/
def waitsForDeliveries (s : State n) (pairs : List (Uuid × Uuid)) : Bool :=
  decide (∃ r', ∃ p ∈ (s.phase r').written, p.1 ∈ pairs.map Prod.fst)

def setPhase (s : State n) (r : Fin n) (p : Phase) : State n :=
  { s with phase := Function.update s.phase r p }

/-- The end of the transaction; `result` is what the call makes of it. -/
def commit (s : State n) (r : Fin n) (result : PublishResult → Except ServiceError PublishResult) :
    Option (State n) :=
  match s.phase r with
  | .commit pairs outboxId =>
      (s.db.publishTx (calls r).env.now (calls r).event ((calls r).deliveries pairs)
          outboxId).map fun db =>
        { db := db
          phase := Function.update s.phase r (.done (result ⟨(calls r).event.id, pairs⟩))
          commits := s.commits ++ [⟨r, pairs, outboxId⟩] }
  | _ => none

/-- The next step of a call. -/
def stepCall (s : State n) (r : Fin n) : Option (State n) :=
  let c := calls r
  match s.phase r with
  | .size =>
      if c.tooLarge then
        let error := Errors.payloadTooLarge (sizeBytes c.payload) maxPayloadBytes
        some (setPhase s r (.done (.error (.domain error))))
      else some (setPhase s r .insert)
  | .insert =>
      if waitsForEvent calls s r then none
      else match s.db.insertEvent? c.event with
        | some _ => some (setPhase s r .targets)
        | none => some (setPhase s r .lookup)
  | .targets =>
      let pairs := newTargets c.env (targets s.db c.tenantId c.type)
      if pairs = [] then some (setPhase s r (.commit [] 0))
      else some (setPhase s r (.deliveries pairs))
  | .deliveries pairs =>
      if waitsForDeliveries s pairs then none
      else match s.db.insertDeliveries? (c.deliveries pairs) with
        | some _ => some (setPhase s r (.outbox pairs))
        | none => some (setPhase s r .lookup)
  | .outbox pairs =>
      let s' := setPhase s r (.commit pairs s.db.outbox.next)
      some { s' with db := { s.db with outbox := s.db.outbox.draw } }
  | .commit _ _ => commit calls s r .ok
  | .lookup =>
      match s.db.eventByKey c.tenantId c.idempotencyKey with
      | some e => some (setPhase s r (.done (.error (.domain (Errors.duplicateEvent e.id)))))
      | none => some (setPhase s r (.done (.error .uniqueViolation)))
  | .done _ => none

/-- One step. -/
def step (s : State n) : Action n → Option (State n)
  | .call r => stepCall calls s r
  | .fail r =>
      if (s.phase r).isDone then none else some (setPhase s r (.done (.error .unavailable)))
  | .lose r => commit calls s r fun _ => .error .unavailable
  | .createEndpoint e =>
      if s.db.urlTaken e.tenantId e.url none then none
      else (s.db.endpoints.insert? e).map fun endpoints =>
        { s with db := { s.db with endpoints := endpoints } }
  | .updateEndpoint id f hf =>
      some { s with db := { s.db with endpoints := s.db.endpoints.modify id f hf } }
  | .setSubscriptions endpointId eventTypes =>
      some { s with db := s.db.setSubscriptionsTx endpointId eventTypes }

/-! ## What a step does -/

variable {calls}

/-- A step of a call that changes nothing but its phase. -/
inductive Move (calls : Fin n → Call) (s : State n) (r : Fin n) : Phase → Phase → Prop
  | tooLarge : (calls r).tooLarge = true → Move calls s r .size (.done (.error (.domain
      (Errors.payloadTooLarge (sizeBytes (calls r).payload) maxPayloadBytes))))
  | small : (calls r).tooLarge = false → Move calls s r .size .insert
  | inserted {db : Database} : waitsForEvent calls s r = false →
      s.db.insertEvent? (calls r).event = some db → Move calls s r .insert .targets
  | violated : s.db.insertEvent? (calls r).event = none → Move calls s r .insert .lookup
  | readNone : targets s.db (calls r).tenantId (calls r).type = [] →
      Move calls s r .targets (.commit [] 0)
  | read : targets s.db (calls r).tenantId (calls r).type ≠ [] → Move calls s r .targets
      (.deliveries (newTargets (calls r).env (targets s.db (calls r).tenantId (calls r).type)))
  | wrote {pairs : List (Uuid × Uuid)} {db : Database} : waitsForDeliveries s pairs = false →
      s.db.insertDeliveries? ((calls r).deliveries pairs) = some db →
      Move calls s r (.deliveries pairs) (.outbox pairs)
  | collided {pairs : List (Uuid × Uuid)} :
      s.db.insertDeliveries? ((calls r).deliveries pairs) = none →
      Move calls s r (.deliveries pairs) .lookup
  | found {e : EventRow} :
      s.db.eventByKey (calls r).tenantId (calls r).idempotencyKey = some e →
      Move calls s r .lookup (.done (.error (.domain (Errors.duplicateEvent e.id))))
  | notFound : s.db.eventByKey (calls r).tenantId (calls r).idempotencyKey = none →
      Move calls s r .lookup (.done (.error .uniqueViolation))
  | failed {p : Phase} : p.isDone = false → Move calls s r p (.done (.error .unavailable))

/-- What a step of a call does. -/
inductive CallEffect (calls : Fin n → Call) (s t : State n) (r : Fin n) : Prop
  /-- The call moves on. -/
  | move {p : Phase} : Move calls s r (s.phase r) p → t.db = s.db →
      t.phase = Function.update s.phase r p → t.commits = s.commits → CallEffect calls s t r
  /-- It inserts its fan-out row and draws a number for it. -/
  | draw {pairs : List (Uuid × Uuid)} : s.phase r = .outbox pairs →
      t.db = { s.db with outbox := s.db.outbox.draw } →
      t.phase = Function.update s.phase r (.commit pairs s.db.outbox.next) →
      t.commits = s.commits → CallEffect calls s t r
  /-- It commits. -/
  | commit {pairs : List (Uuid × Uuid)} {outboxId : ℕ}
      {result : Except ServiceError PublishResult} : s.phase r = .commit pairs outboxId →
      (result = .ok ⟨(calls r).event.id, pairs⟩ ∨ result = .error .unavailable) →
      s.db.publishTx (calls r).env.now (calls r).event ((calls r).deliveries pairs) outboxId =
        some t.db →
      t.phase = Function.update s.phase r (.done result) →
      t.commits = s.commits ++ [⟨r, pairs, outboxId⟩] → CallEffect calls s t r

/-- What a step does. -/
inductive Effect (calls : Fin n → Call) (s t : State n) : Prop
  /-- The endpoints change. -/
  | endpoints : t.db.events = s.db.events → t.db.deliveries = s.db.deliveries →
      t.db.outbox = s.db.outbox → t.phase = s.phase → t.commits = s.commits → Effect calls s t
  /-- A call makes its next step, or it ends. -/
  | call {r : Fin n} : stepCall calls s r = some t ∨ (t.phase r).isDone = true →
      CallEffect calls s t r → Effect calls s t

theorem newTargets_eq_nil_iff {env : Env} {endpoints : List Uuid} :
    newTargets env endpoints = [] ↔ endpoints = [] := by
  simp [newTargets]

theorem effect_of_commit {s t : State n} {r : Fin n}
    {result : PublishResult → Except ServiceError PublishResult}
    (hresult : ∀ x, result x = .ok x ∨ result x = .error .unavailable)
    (h : commit calls s r result = some t) : CallEffect calls s t r := by
  unfold commit at h
  split at h
  · rename_i pairs outboxId hphase
    obtain ⟨db, hdb, rfl⟩ := Option.map_eq_some_iff.1 h
    exact .commit hphase (hresult _) hdb rfl rfl
  · cases h

theorem effect_of_stepCall {s t : State n} {r : Fin n} (h : stepCall calls s r = some t) :
    CallEffect calls s t r := by
  unfold stepCall at h
  cases hphase : s.phase r with
  | size =>
      simp only [hphase] at h
      split_ifs at h with hsize
      · cases h
        exact .move (hphase ▸ .tooLarge hsize) rfl rfl rfl
      · cases h
        exact .move (hphase ▸ .small (by simpa using hsize)) rfl rfl rfl
  | insert =>
      simp only [hphase] at h
      split_ifs at h with hwait
      split at h
      · rename_i db hdb
        cases h
        exact .move (hphase ▸ .inserted (by simpa using hwait) hdb) rfl rfl rfl
      · rename_i hdb
        cases h
        exact .move (hphase ▸ .violated hdb) rfl rfl rfl
  | targets =>
      simp only [hphase, newTargets_eq_nil_iff] at h
      split_ifs at h with hnone
      · cases h
        exact .move (hphase ▸ .readNone hnone) rfl rfl rfl
      · cases h
        exact .move (hphase ▸ .read hnone) rfl rfl rfl
  | deliveries pairs =>
      simp only [hphase] at h
      split_ifs at h with hwait
      split at h
      · rename_i db hdb
        cases h
        exact .move (hphase ▸ .wrote (by simpa using hwait) hdb) rfl rfl rfl
      · rename_i hdb
        cases h
        exact .move (hphase ▸ .collided hdb) rfl rfl rfl
  | outbox pairs =>
      simp only [hphase] at h
      cases h
      exact .draw hphase rfl rfl rfl
  | commit pairs outboxId =>
      simp only [hphase] at h
      exact effect_of_commit (fun x => .inl rfl) h
  | lookup =>
      simp only [hphase] at h
      split at h
      · rename_i e he
        cases h
        exact .move (hphase ▸ .found he) rfl rfl rfl
      · rename_i he
        cases h
        exact .move (hphase ▸ .notFound he) rfl rfl rfl
  | done result =>
      simp only [hphase] at h
      cases h

/-- **What a step does.** -/
theorem effect_of_step {s t : State n} {a : Action n} (h : step calls s a = some t) :
    Effect calls s t := by
  cases a with
  | call r => exact .call (.inl h) (effect_of_stepCall h)
  | fail r =>
      rw [step] at h
      split_ifs at h with hdone
      cases h
      refine .call (.inr ?_) (.move (.failed (by simpa using hdone)) rfl rfl rfl)
      simp [setPhase, Phase.isDone]
  | lose r =>
      refine .call (.inr ?_) (effect_of_commit (fun x => .inr rfl) h)
      rw [step, commit] at h
      split at h
      · obtain ⟨db, -, rfl⟩ := Option.map_eq_some_iff.1 h
        simp [Phase.isDone]
      · cases h
  | createEndpoint e =>
      rw [step] at h
      split_ifs at h
      obtain ⟨endpoints, -, rfl⟩ := Option.map_eq_some_iff.1 h
      exact .endpoints rfl rfl rfl rfl rfl
  | updateEndpoint id f hf =>
      cases h
      exact .endpoints rfl rfl rfl rfl rfl
  | setSubscriptions endpointId eventTypes =>
      cases h
      exact .endpoints rfl rfl rfl rfl rfl

end Publishing

end HookRelay
