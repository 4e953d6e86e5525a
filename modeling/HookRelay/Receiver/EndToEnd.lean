import HookRelay.Data.Varchar
import HookRelay.Receiver.Acknowledging
import HookRelay.System.Origins

/-!
# From `publish` to the receiver's table

The whole system and the demo receiver together.  The worker sends a delivery any number of
times, a request may come late, more than once or never, and its answer may get lost; the
receiver consumes a delivery id once.  Its `INSERT` may fail for another reason than the key, and
then it answers 200 all the same.

* `step` — the steps of the system, and arrivals of requests that are on their way;
  `World.unstored` are the ids whose `INSERT` has failed so.
* `World.arrival_acknowledging` — an arrival is a step of the receiver.
* `About`, `SignedWith` — what a request of `process` says, and what it is signed with.
* `Inv` — what ties deliveries, runs, requests and the receiver's table together.
* `processed_once` — so every delivery is in the table at most once, with its own event, and
  every delivery that is `SUCCEEDED` is there, but for those whose `INSERT` has failed.
* `arrival_accepted` — a request that comes in time is answered with 200, if the receiver knows
  the secret that the endpoint was created with, and is in the table if its `INSERT` does not fail.
-/

namespace HookRelay

open Lib JsonText

/-- The request of the run has not gone out yet. -/
def Phase.unsentYet : Phase → Bool
  | .attempt _ _ _ .allow | .attempt _ _ _ .send => true
  | .attempt _ _ _ _ | .returned _ | .retryRead | .retryWrite _ | .finish _ => false
  | _ => true

/-- The copies from which the request of the run was made up. -/
def Phase.makes : Phase → Option (DeliveryRow × EndpointConfig)
  | .claim d e => some (d, e)
  | .attempt d e _ _ => some (d, e)
  | _ => none

/-- The answer that the run has got was a success. -/
def Stage.good : Stage → Bool
  | .record (.ok _ _ _) | .success | .endpointSuccess | .deliverySuccess => true
  | _ => false

namespace EndToEnd

open Receiver (Processed hooks verify)
open Receiver.Acknowledging (Ack State accepted insertFor isNull tryConsume)

/-- The request as it arrives. -/
def received (g : Outgoing) : Receiver.Request :=
  ⟨some g.headers.deliveryId, some g.headers.timestamp, some g.headers.signature, g.body⟩

/-- The status of an answer; an exception in the handler is a 500. -/
def statusCode : Receiver.Answer → ℕ
  | .refused status _ => status
  | .failed => 500
  | .duplicate | .consumed => 200

/-- The system, the requests its runs have made and sent, and the receiver. -/
structure World where
  sys : System.State
  /-- The request that a run has made up before its claim. -/
  made : ℕ → Option Outgoing
  /-- The request of a run that is on its way to the receiver. -/
  wire : ℕ → Option Outgoing
  rows : Processed
  /-- What the receiver has answered to the request of a run, the last answer first. -/
  answers : ℕ → List Receiver.Answer
  /-- The delivery ids that were new and whose `INSERT` has failed, the last one first. -/
  unstored : List CodeUnits

def init : World := ⟨System.init, fun _ => none, fun _ => none, [], fun _ => [], []⟩

inductive Action where
  /-- A step of the system. -/
  | sys (a : System.Action)
  /-- The request of run `r` comes to `POST /hooks`; `fault` says that an `INSERT` fails for a
  reason of the storage. -/
  | arrive (r : ℕ) (secrets : List CodeUnits) (nowMs : ℕ) (fault : Bool)

section

variable (cfg : WorkerConfig) (hmac : Hmac) (here : Uuid → Bool)

/-- The request that `process` makes up when it has the endpoint. -/
def requestOf (s : System.State) : Phase → Option Outgoing
  | .claim d e => (s.db.events.find? d.eventId).bind fun ev =>
      outgoing hmac (codeUnits e.secret) (jsDate s.now) d.id ev
  | _ => none

/-- The request of a run after a step of its own. -/
def madeBy (w : World) (s' : System.State) (r : ℕ) : Option Outgoing :=
  match (s'.runs r).map Run.phase with
  | some (.claim d e) => requestOf hmac s' (.claim d e)
  | _ => w.made r

/-- What is on its way for a run after a step of its own, if it is for an endpoint here. -/
def wireBy (w : World) (r : ℕ) : Option Outgoing :=
  match (w.sys.runs r).map Run.phase with
  | some (.attempt d _ _ .send) => if here d.endpointId then w.made r else w.wire r
  | _ => w.wire r

def madeAfter (w : World) (s' : System.State) : System.Action → ℕ → Option Outgoing
  | .run r _ => Function.update w.made r (madeBy hmac w s' r)
  | _ => w.made

def wireAfter (w : World) : System.Action → ℕ → Option Outgoing
  | .run r _ => Function.update w.wire r (wireBy here w r)
  | _ => w.wire

/-- A run whose request is for an endpoint here gets an answer of the receiver, or an error. -/
def fits (w : World) : System.Action → Bool
  | .run r (.response (.ok res) _) =>
      match (w.sys.runs r).map Run.phase with
      | some (.attempt d _ _ .sending) =>
          !here d.endpointId || (w.answers r).any fun a => statusCode a = res.statusCode
      | _ => true
  | _ => true

/-- What an arrival does.  The `catch` of `consume` takes every error for a duplicate. -/
def World.arrival (w : World) (r : ℕ) (g : Outgoing) (secrets : List CodeUnits) (nowMs : ℕ)
    (fault : Bool) : World :=
  let res := hooks hmac secrets w.rows nowMs (received g)
  if fault && decide (res.2 = .consumed) then
    { w with
      answers := Function.update w.answers r (.duplicate :: w.answers r)
      unstored := g.headers.deliveryId :: w.unstored }
  else { w with rows := res.1, answers := Function.update w.answers r (res.2 :: w.answers r) }

/-- One step.  `here` are the endpoints whose URLs lead to `POST /hooks` of the receiver. -/
def step (w : World) : Action → Option World
  | .sys a =>
      if fits here w a then
        (System.step cfg w.sys a).map fun s' =>
          { w with sys := s', made := madeAfter hmac w s' a, wire := wireAfter here w a }
      else none
  | .arrive r secrets nowMs fault => (w.wire r).map fun g => w.arrival hmac r g secrets nowMs fault

/-- The payload of an event is a JSON value, as `JSON.parse` gives it. -/
def Proper : Action → Prop
  | .sys (.publish e _ _) | .sys (.ping e _ _ _) => e.payload.valid = true
  | _ => True

end

/-! ## Requests -/

theorem codeUnits_injective {t u : Text} (h : codeUnits t = codeUnits u) : t = u := by
  have heq : some t = some u := by rw [← decodeUnits_codeUnits, h, decodeUnits_codeUnits]
  exact Option.some.inj heq

/-- The row of the receiver's table for a delivery. -/
def entry (id eventId : Uuid) : CodeUnits × Json :=
  (codeUnits id.text, .str (codeUnits eventId.text))

theorem entry_fst (id eventId : Uuid) : (entry id eventId).1 = codeUnits id.text := by
  simp only [entry]

/-- The delivery is in the table, or its `INSERT` has failed when it was not. -/
def World.Recorded (w : World) (id eventId : Uuid) : Prop :=
  entry id eventId ∈ w.rows ∨ codeUnits id.text ∈ w.unstored

/-- The request says that it is about this delivery of this event. -/
structure About (id eventId : Uuid) (g : Outgoing) : Prop where
  deliveryId : g.headers.deliveryId = codeUnits id.text
  body : ∃ fields, parse g.body = some (.obj fields) ∧
    field? (ascii "eventId") (.obj fields) = some (.str (codeUnits eventId.text))

/-- The request is signed with the secret, under a timestamp that is a number. -/
structure SignedWith (hmac : Hmac) (secret : CodeUnits) (g : Outgoing) : Prop where
  timestamp : ∃ n, g.headers.timestamp = decimalText n
  signature : g.headers.signature =
    versioned hmac secret (signedText g.headers.timestamp g.body)

theorem field?_eventId (eventId type occurredAt payload : Json) :
    field? (ascii "eventId") (.obj [(ascii "eventId", eventId), (ascii "type", type),
      (ascii "occurredAt", occurredAt), (ascii "payload", payload)]) = some eventId := by
  have h₁ : ascii "payload" ≠ ascii "eventId" := by decide
  have h₂ : ascii "occurredAt" ≠ ascii "eventId" := by decide
  have h₃ : ascii "type" ≠ ascii "eventId" := by decide
  simp [field?, h₁, h₂, h₃]

theorem about_outgoing {hmac : Hmac} {secret : CodeUnits} {nowMs : ℕ} {id : Uuid} {ev : EventRow}
    {g : Outgoing} (hvalid : ev.payload.valid = true)
    (h : outgoing hmac secret nowMs id ev = some g) :
    About id ev.id g ∧ SignedWith hmac secret g := by
  obtain ⟨occurredAt, -, rfl⟩ := Option.map_eq_some_iff.1 h
  refine ⟨⟨?_, ?_⟩, ⟨nowMs / 1000, ?_⟩, ?_⟩
  · simp only [buildDeliveryHeaders]
  · exact ⟨_, parse_deliveryBody hvalid, field?_eventId _ _ _ _⟩
  · simp only [buildDeliveryHeaders]
  · simp only [buildDeliveryHeaders, signDeliveryBody]

/-- A request is about one delivery and one event. -/
theorem About.unique {id id' eventId eventId' : Uuid} {g : Outgoing} (h : About id eventId g)
    (h' : About id' eventId' g) : id = id' ∧ eventId = eventId' := by
  obtain ⟨v, hv, hfield⟩ := h.body
  obtain ⟨v', hv', hfield'⟩ := h'.body
  rw [hv] at hv'
  cases hv'
  rw [hfield] at hfield'
  constructor
  · apply Uuid.text_injective
    exact codeUnits_injective (h.deliveryId.symm.trans h'.deliveryId)
  · apply Uuid.text_injective
    apply codeUnits_injective
    exact Json.str.inj (Option.some.inj hfield')

/-- `verify` refuses with 400 or 401. -/
theorem status_of_refused {hmac : Hmac} {secrets : List CodeUnits} {nowMs status : ℕ}
    {req : Receiver.Request} {error : String} (h : verify hmac secrets nowMs req = .refused status error) :
    400 ≤ status := by
  unfold verify at h
  split at h
  · split_ifs at h
    · cases h; decide
    · split at h <;> cases h
    · cases h; decide
  · cases h; decide

/-- **An arrival.**  The request is not accepted and the table stays as it is, or the delivery is
known, or it is stored. -/
theorem hooks_received {id eventId : Uuid} {g : Outgoing} (h : About id eventId g) (hmac : Hmac)
    (secrets : List CodeUnits) (rows : Processed) (nowMs : ℕ) :
    ((∀ key v, verify hmac secrets nowMs (received g) ≠ .ok key v) ∧
      400 ≤ statusCode (hooks hmac secrets rows nowMs (received g)).2 ∧
      (hooks hmac secrets rows nowMs (received g)).1 = rows) ∨
    ((∃ row ∈ rows, row.1 = codeUnits id.text) ∧
      hooks hmac secrets rows nowMs (received g) = (rows, .duplicate)) ∨
    ((∀ row ∈ rows, row.1 ≠ codeUnits id.text) ∧
      hooks hmac secrets rows nowMs (received g) = (rows ++ [entry id eventId], .consumed)) := by
  obtain ⟨fields, hparse, hfield⟩ := h.body
  unfold hooks
  cases hv : verify hmac secrets nowMs (received g) with
  | refused status error => exact .inl ⟨by simp, status_of_refused hv, rfl⟩
  | threw => exact .inl ⟨by simp, by simp [statusCode], rfl⟩
  | ok key v =>
      right
      obtain ⟨hkey, hbody, -⟩ := Receiver.verify_ok hv
      simp only [received, hparse, Option.some.injEq] at hkey hbody
      subst hbody
      have hid : key = codeUnits id.text := by rw [← hkey, h.deliveryId]
      rw [hid]
      simp only [hfield]
      by_cases hnew : ∀ row ∈ rows, row.1 ≠ codeUnits id.text
      · have hall : (rows.all fun row => row.1 ≠ codeUnits id.text) = true :=
          List.all_eq_true.2 fun row hrow => by simpa using hnew row hrow
        refine .inr ⟨hnew, ?_⟩
        simp only [Receiver.consume, Receiver.bindable, hall, Bool.and_self, if_true, entry]
      · have hall : (rows.all fun row => row.1 ≠ codeUnits id.text) = false := by
          push Not at hnew
          obtain ⟨row, hrow, heq⟩ := hnew
          exact List.all_eq_false.2 ⟨row, hrow, by simpa using heq⟩
        push Not at hnew
        refine .inl ⟨hnew, ?_⟩
        simp only [Receiver.consume, hall, Bool.and_false, Bool.false_eq_true, if_false]

/-! ## What the steps of a run do to its request -/

section Steps

variable {cfg : WorkerConfig} {hmac : Hmac} {here : Uuid → Bool} {w : World} {s' : System.State}
  {now : Micros} {db : Database} {cache : EndpointCache} {run : Run} {p : Phase} {next : Next}

theorem makes_afterEndpoint {d x : DeliveryRow} {c e : EndpointConfig}
    (h : (afterEndpoint d c).makes = some (x, e)) : afterEndpoint d c = .claim x e := by
  unfold afterEndpoint at h ⊢
  split_ifs at h ⊢
  · cases h; rfl
  · cases h

/-- A run begins to make up its request, or has made it up. -/
theorem makes_of_planned (h : Planned cfg now db cache run p next) {x : DeliveryRow}
    {e : EndpointConfig} (hm : next.run.phase.makes = some (x, e)) :
    next.run.phase = .claim x e ∨
      (p.makes = some (x, e) ∧ ∃ claimed stage, next.run.phase = .attempt x e claimed stage) := by
  cases h with
  | cached d entry _ => exact .inl (makes_afterEndpoint hm)
  | stored d c => exact .inl (makes_afterEndpoint hm)
  | claimed d c text _ =>
      cases hm
      exact .inr ⟨rfl, _, _, rfl⟩
  | attempt d c claimed stage _ ha =>
      cases ha <;> first | (cases hm; exact .inr ⟨rfl, _, _, rfl⟩) | cases hm
  | _ => cases hm

/-- A request that is still to be sent was so before, and is not sent in this step. -/
theorem unsentYet_of_planned (h : Planned cfg now db cache run p next)
    (hu : next.run.phase.unsentYet = true) :
    p.unsentYet = true ∧ ∀ x e claimed, p ≠ .attempt x e claimed .send := by
  cases h with
  | attempt d c claimed stage _ ha =>
      cases ha with
      | allowed => exact ⟨rfl, by simp⟩
      | _ => cases hu
  | _ => first | exact ⟨rfl, by simp⟩ | cases hu

/-- An attempt that is under way has just been claimed, or was under way before. -/
theorem attempt_of_planned (h : Planned cfg now db cache run p next) {x : DeliveryRow}
    {e : EndpointConfig} {claimed : ℕ} {stage : Stage}
    (ha : next.run.phase = .attempt x e claimed stage) :
    (p = .claim x e ∧ stage = .allow) ∨ ∃ before, p = .attempt x e claimed before := by
  have after : ∀ (y : DeliveryRow) (c : EndpointConfig),
      afterEndpoint y c ≠ .attempt x e claimed stage := by
    intro y c
    unfold afterEndpoint
    split_ifs <;> simp
  cases h with
  | cached d entry _ => exact absurd ha (after _ _)
  | stored d c => exact absurd ha (after _ _)
  | claimed d c text _ =>
      cases ha
      exact .inl ⟨rfl, rfl⟩
  | attempt d c k before _ hp => cases hp <;> first | (cases ha; exact .inr ⟨_, rfl⟩) | cases ha
  | _ => cases ha

/-- A run that has a good answer had it before, or gets it in this step. -/
theorem good_of_planned (h : Planned cfg now db cache run p next) {x : DeliveryRow}
    {e : EndpointConfig} {claimed : ℕ} {stage : Stage}
    (ha : next.run.phase = .attempt x e claimed stage) (hg : stage.good = true) :
    ∃ before, p = .attempt x e claimed before ∧ (before.good = true ∨ before = .sending) := by
  rcases attempt_of_planned h ha with ⟨-, rfl⟩ | ⟨before, rfl⟩
  · cases hg
  · refine ⟨before, rfl, ?_⟩
    cases h with
    | attempt _ _ _ _ _ hp =>
        cases hp <;> first | (cases ha; first | exact .inl rfl | exact .inr rfl | cases hg) | cases ha

/-- The step in which a run gets its answer. -/
theorem answer_of_step {r : ℕ} {i : Input} {x : DeliveryRow} {e : EndpointConfig} {claimed : ℕ}
    {s : System.State} (hrun : s.runs r = some run)
    (hp : run.phase = .attempt x e claimed .sending)
    (hs : System.step cfg s (.run r i) = some s') :
    ∃ res ms, i = .response res ms ∧ s' = System.applyNext s r run
      (run.goto (.attempt x e claimed (.record (send cfg.allowPrivate cfg.newUrl e.url res ms)))) := by
  have hgo : System.letGo s r run = none := by rw [System.letGo, hp]
  simp only [System.step, System.stepRun, hrun, hgo, plan, hp, planAttempt] at hs
  cases i with
  | response res ms =>
      simp only [Option.map_some, Option.some.injEq] at hs
      exact ⟨res, ms, rfl, hs.symm⟩
  | _ => cases hs

/-- A success is an answer with a 2xx status. -/
theorem response_of_good {allowPrivate : Bool} {newUrl : Text → Option Url} {url : Text}
    {res : Except Thrown Response} {ms : ℤ}
    (h : (Stage.record (send allowPrivate newUrl url res ms)).good = true) :
    ∃ resp, res = .ok resp ∧ 200 ≤ resp.statusCode ∧ resp.statusCode < 300 := by
  unfold send at h
  cases hcheck : literalCheck allowPrivate newUrl url with
  | error thrown =>
      rw [hcheck] at h
      cases h
  | ok u =>
      rw [hcheck] at h
      cases res with
      | error thrown => cases h
      | ok resp =>
          simp only [Except.bind, outcomeOf] at h
          split_ifs at h with hstatus
          · exact ⟨resp, rfl, hstatus⟩
          all_goals cases h

/-- The steps of the others leave a run's request alone. -/
theorem madeAfter_of_ne {a : System.Action} {r : ℕ} (h : ∀ i, a ≠ .run r i) :
    madeAfter hmac w s' a r = w.made r := by
  cases a with
  | run k i => exact Function.update_of_ne (fun heq => h i (by rw [heq])) _ _
  | _ => rfl

theorem wireAfter_of_ne {a : System.Action} {r : ℕ} (h : ∀ i, a ≠ .run r i) :
    wireAfter here w a r = w.wire r := by
  cases a with
  | run k i => exact Function.update_of_ne (fun heq => h i (by rw [heq])) _ _
  | _ => rfl

@[simp] theorem madeAfter_run (r : ℕ) (i : Input) :
    madeAfter hmac w s' (.run r i) r = madeBy hmac w s' r := Function.update_self _ _ _

@[simp] theorem wireAfter_run (r : ℕ) (i : Input) :
    wireAfter here w (.run r i) r = wireBy here w r := Function.update_self _ _ _

/-- A run puts its request on the wire in one step only. -/
theorem wireBy_of_ne {r : ℕ} (hrun : w.sys.runs r = some run)
    (h : ∀ x e claimed, run.phase ≠ .attempt x e claimed .send) :
    wireBy here w r = w.wire r := by
  simp only [wireBy, hrun, Option.map_some]
  split
  · rename_i x e claimed hp
    exact absurd (Option.some.inj hp) (h x e claimed)
  · rfl

end Steps

/-! ## The invariant -/

section Invariant

variable {cfg : WorkerConfig} {hmac : Hmac} {here : Uuid → Bool} {w w' : World}

/-- The request is for this delivery, of an endpoint here, and signed with the endpoint's
secret; it has been sent. -/
structure ForDelivery (cfg : WorkerConfig) (hmac : Hmac) (here : Uuid → Bool) (s : System.State)
    (y : DeliveryRow) (g : Outgoing) : Prop where
  delivery : s.db.deliveries.find? y.id = some y
  here : here y.endpointId = true
  about : About y.id y.eventId g
  signed : ∃ secret, System.HasSecret cfg s.db y.endpointId secret ∧
    SignedWith hmac (codeUnits secret) g
  sent : ∃ n, (y.id, n) ∈ s.sent

/-- What ties the system, the requests and the receiver's table together. -/
structure Inv (cfg : WorkerConfig) (hmac : Hmac) (here : Uuid → Bool) (w : World) : Prop where
  wf : System.Wf w.sys
  carried : System.Carried w.sys
  keyed : System.Keyed cfg w.sys
  payloads : ∀ ev ∈ w.sys.db.events, ev.payload.valid = true
  made : ∀ r run x e g, w.sys.runs r = some run → run.phase.makes = some (x, e) →
    w.made r = some g → About x.id x.eventId g ∧ SignedWith hmac (codeUnits e.secret) g
  unsent : ∀ r run, w.sys.runs r = some run → run.phase.unsentYet = true → w.wire r = none
  fresh : ∀ r, w.sys.nextRun ≤ r → w.wire r = none
  wire : ∀ r g, w.wire r = some g → ∃ y, ForDelivery cfg hmac here w.sys y g
  own : ∀ r run x e claimed stage g, w.sys.runs r = some run →
    run.phase = .attempt x e claimed stage → w.wire r = some g → About x.id x.eventId g
  answered : ∀ r, ∀ a ∈ w.answers r, statusCode a < 400 →
    ∃ id eventId g, w.wire r = some g ∧ About id eventId g ∧ w.Recorded id eventId
  distinct : (w.rows.map Prod.fst).Nodup
  rows : ∀ row ∈ w.rows, ∃ y, w.sys.db.deliveries.find? y.id = some y ∧
    here y.endpointId = true ∧ row = entry y.id y.eventId ∧ ∃ n, (y.id, n) ∈ w.sys.sent
  good : ∀ r run x e claimed stage, w.sys.runs r = some run →
    run.phase = .attempt x e claimed stage → stage.good = true → here x.endpointId = true →
    w.Recorded x.id x.eventId
  done : ∀ y ∈ w.sys.db.deliveries, y.status = .succeeded → here y.endpointId = true →
    w.Recorded y.id y.eventId

theorem inv_init : Inv cfg hmac here init where
  wf := System.wf_init
  carried := fun _ _ _ h => by cases h
  keyed := System.copies_init _
  payloads := fun _ h => by cases h
  made := fun _ _ _ _ _ h => by cases h
  unsent := fun _ _ _ _ => rfl
  fresh := fun _ _ => rfl
  wire := fun _ _ h => by cases h
  own := fun _ _ _ _ _ _ _ h => by cases h
  answered := fun _ _ h => by cases h
  distinct := List.nodup_nil
  rows := fun _ h => by cases h
  good := fun _ _ _ _ _ _ h => by cases h
  done := fun _ h => by cases h

/-! ### An arrival -/

@[simp] theorem World.arrival_sys (w : World) (r : ℕ) (g : Outgoing) (secrets : List CodeUnits)
    (nowMs : ℕ) (fault : Bool) : (w.arrival hmac r g secrets nowMs fault).sys = w.sys := by
  unfold World.arrival
  simp only
  split_ifs <;> rfl

@[simp] theorem World.arrival_wire (w : World) (r : ℕ) (g : Outgoing) (secrets : List CodeUnits)
    (nowMs : ℕ) (fault : Bool) : (w.arrival hmac r g secrets nowMs fault).wire = w.wire := by
  unfold World.arrival
  simp only
  split_ifs <;> rfl

@[simp] theorem World.arrival_made (w : World) (r : ℕ) (g : Outgoing) (secrets : List CodeUnits)
    (nowMs : ℕ) (fault : Bool) : (w.arrival hmac r g secrets nowMs fault).made = w.made := by
  unfold World.arrival
  simp only
  split_ifs <;> rfl

/-- What `POST /hooks` does with a verified request. -/
theorem hooks_of_ok {secrets : List CodeUnits} {rows : Processed} {nowMs : ℕ}
    {req : Receiver.Request} {key : CodeUnits} {v : Json}
    (hv : verify hmac secrets nowMs req = .ok key v) (hnull : isNull v = false) :
    hooks hmac secrets rows nowMs req =
      ((Receiver.consume rows key (field? (ascii "eventId") v)).1,
        if (Receiver.consume rows key (field? (ascii "eventId") v)).2 then .duplicate
        else .consumed) := by
  unfold hooks
  rw [hv]
  cases hc : Receiver.consume rows key (field? (ascii "eventId") v) with
  | mk rows' duplicate =>
      cases v with
      | null => cases hnull
      | _ => cases duplicate <;> simp [hc]

/-- The 200 of an answer. -/
def acksOf (deliveryId : CodeUnits) : Receiver.Answer → List Ack
  | .duplicate => [⟨deliveryId, true⟩]
  | .consumed => [⟨deliveryId, false⟩]
  | .refused _ _ | .failed => []

/-- **An arrival is a step of the receiver** with a storage that may fail: it has the same table
afterwards, and answers with the same 200. -/
theorem World.arrival_acknowledging (w : World) (r : ℕ) (g : Outgoing) {nowMs : ℕ} {fault : Bool}
    {t t' : Receiver.Acknowledging.State} (hrows : t.rows = w.rows)
    (ht : Receiver.Acknowledging.step hmac t (.hooks nowMs (received g) fault) = some t') :
    t'.rows = (w.arrival hmac r g t.secrets nowMs fault).rows ∧
    ∃ answer, (w.arrival hmac r g t.secrets nowMs fault).answers r = answer :: w.answers r ∧
      t'.acks = acksOf g.headers.deliveryId answer ++ t.acks := by
  unfold Receiver.Acknowledging.step at ht
  split_ifs at ht
  simp only [Option.some.injEq] at ht
  unfold World.arrival
  cases hv : verify hmac t.secrets nowMs (received g) with
  | refused status error =>
      rw [hv] at ht
      subst ht
      simp [hooks, hv, accepted, acksOf, hrows]
  | threw =>
      rw [hv] at ht
      subst ht
      simp [hooks, hv, accepted, acksOf, hrows]
  | ok key v =>
      obtain ⟨hkey, -⟩ := Receiver.verify_ok hv
      obtain rfl : g.headers.deliveryId = key := by simpa [received] using hkey
      rw [hv] at ht
      cases hnull : isNull v with
      | true =>
          obtain rfl : v = .null := by cases v <;> first | rfl | cases hnull
          subst ht
          simp [hooks, hv, accepted, isNull, acksOf, hrows]
      | false =>
          simp only [accepted, Option.elim_some, hnull, Bool.false_eq_true, if_false] at ht
          subst ht
          rw [hooks_of_ok hv hnull]
          simp only [State.acknowledge, insertFor, tryConsume, hrows]
          cases hc : Receiver.consume w.rows g.headers.deliveryId (field? (ascii "eventId") v) with
          | mk rows' duplicate =>
              cases duplicate with
              | false => cases fault <;> simp [acksOf]
              | true =>
                  rw [Receiver.consume_eq_true hc]
                  cases fault <;> simp [acksOf]

/-- The request is refused, or the delivery is known, or it is new and stored, or it is new and
its `INSERT` fails. -/
theorem Inv.arrival (h : Inv cfg hmac here w) {g : Outgoing} {y : DeliveryRow}
    (hy : ForDelivery cfg hmac here w.sys y g) (secrets : List CodeUnits) (nowMs : ℕ)
    (fault : Bool) (r : ℕ) :
    ((∀ key v, verify hmac secrets nowMs (received g) ≠ .ok key v) ∧
      ∃ answer, 400 ≤ statusCode answer ∧ w.arrival hmac r g secrets nowMs fault =
        { w with answers := Function.update w.answers r (answer :: w.answers r) }) ∨
    (entry y.id y.eventId ∈ w.rows ∧ w.arrival hmac r g secrets nowMs fault =
      { w with answers := Function.update w.answers r (.duplicate :: w.answers r) }) ∨
    ((∀ row ∈ w.rows, row.1 ≠ codeUnits y.id.text) ∧ fault = false ∧
      w.arrival hmac r g secrets nowMs fault =
        { w with
          rows := w.rows ++ [entry y.id y.eventId]
          answers := Function.update w.answers r (.consumed :: w.answers r) }) ∨
    ((∀ row ∈ w.rows, row.1 ≠ codeUnits y.id.text) ∧ fault = true ∧
      w.arrival hmac r g secrets nowMs fault =
        { w with
          answers := Function.update w.answers r (.duplicate :: w.answers r)
          unstored := codeUnits y.id.text :: w.unstored }) := by
  have hid := hy.about.deliveryId
  unfold World.arrival
  rcases hooks_received hy.about hmac secrets w.rows nowMs with
    ⟨hno, hstatus, hrows⟩ | ⟨⟨row, hrow, hkey⟩, hres⟩ | ⟨hnew, hres⟩
  · refine .inl ⟨hno, _, hstatus, ?_⟩
    have hne : (hooks hmac secrets w.rows nowMs (received g)).2 ≠ .consumed := by
      intro heq
      rw [heq] at hstatus
      exact absurd hstatus (by decide)
    simp only [hne, decide_false, Bool.and_false, Bool.false_eq_true, if_false, hrows]
  · -- the row with that id is of this delivery
    obtain ⟨z, hz, -, hentry, -⟩ := h.rows row hrow
    have hzid : z.id = y.id := by
      apply Uuid.text_injective
      apply codeUnits_injective
      rw [← hkey, hentry, entry]
    have hzy : z = y := by
      have heq : some z = some y := by rw [← hz, hzid, hy.delivery]
      exact Option.some.inj heq
    rw [hentry, hzy] at hrow
    have hne : ¬ (Receiver.Answer.duplicate = .consumed) := by decide
    refine .inr (.inl ⟨hrow, ?_⟩)
    simp only [hres, hne, decide_false, Bool.and_false, Bool.false_eq_true, if_false]
  · cases fault with
    | false =>
        refine .inr (.inr (.inl ⟨hnew, rfl, ?_⟩))
        simp only [hres, Bool.false_and, Bool.false_eq_true, if_false]
    | true =>
        refine .inr (.inr (.inr ⟨hnew, rfl, ?_⟩))
        simp only [hres, hid, decide_true, Bool.and_self, if_true]

/-- Whatever the answer is, rows stay, no id is there twice, and a 200 means that the delivery
is there or its `INSERT` has failed. -/
theorem Inv.table (h : Inv cfg hmac here w) {g : Outgoing} {y : DeliveryRow}
    (hy : ForDelivery cfg hmac here w.sys y g) (secrets : List CodeUnits) (nowMs : ℕ)
    (fault : Bool) (r : ℕ) (heq : w' = w.arrival hmac r g secrets nowMs fault) :
    (∀ id eventId, w.Recorded id eventId → w'.Recorded id eventId) ∧
    (∃ answer, w'.answers = Function.update w.answers r (answer :: w.answers r) ∧
      (statusCode answer < 400 → w'.Recorded y.id y.eventId)) ∧
    (w'.rows.map Prod.fst).Nodup ∧
    ∀ row ∈ w'.rows, row ∈ w.rows ∨ row = entry y.id y.eventId := by
  rcases h.arrival hy secrets nowMs fault r with ⟨-, answer, hstatus, harr⟩ | ⟨hmem, harr⟩ |
    ⟨hnew, -, harr⟩ | ⟨hnew, -, harr⟩ <;> rw [harr] at heq <;> subst heq
  · exact ⟨fun _ _ => id, ⟨_, rfl, fun hlt => absurd hlt (not_lt.2 hstatus)⟩, h.distinct,
      fun _ => .inl⟩
  · exact ⟨fun _ _ => id, ⟨_, rfl, fun _ => .inl hmem⟩, h.distinct, fun _ => .inl⟩
  · refine ⟨fun id eventId hrec => hrec.imp_left (List.mem_append_left _),
      ⟨_, rfl, fun _ => .inl (List.mem_append_right _ (List.mem_singleton_self _))⟩, ?_,
      fun row hrow => (List.mem_append.1 hrow).imp_right List.mem_singleton.1⟩
    rw [List.map_append, List.nodup_append]
    refine ⟨h.distinct, List.nodup_singleton _, fun k hk k' hk' => ?_⟩
    obtain ⟨row, hrow, rfl⟩ := List.mem_map.1 hk
    rw [List.map_singleton, List.mem_singleton] at hk'
    rw [hk', entry_fst]
    exact hnew row hrow
  · exact ⟨fun id eventId hrec => hrec.imp_right (List.mem_cons_of_mem _),
      ⟨_, rfl, fun _ => .inr List.mem_cons_self⟩, h.distinct, fun _ => .inl⟩

theorem arrive_inv (h : Inv cfg hmac here w) {r nowMs : ℕ} {secrets : List CodeUnits} {fault : Bool}
    (hs : step cfg hmac here w (.arrive r secrets nowMs fault) = some w') :
    Inv cfg hmac here w' := by
  obtain ⟨g, hg, heq⟩ := Option.map_eq_some_iff.1 hs
  obtain ⟨y, hy⟩ := h.wire r g hg
  obtain ⟨hkeep, ⟨answer, hanswers, hgot⟩, hdistinct, horigin⟩ :=
    h.table hy secrets nowMs fault r heq.symm
  have hsys : w'.sys = w.sys := by rw [← heq, World.arrival_sys]
  have hwire : w'.wire = w.wire := by rw [← heq, World.arrival_wire]
  have hmade : w'.made = w.made := by rw [← heq, World.arrival_made]
  constructor <;> try rw [hsys]
  case wf => exact h.wf
  case carried => exact h.carried
  case keyed => exact h.keyed
  case payloads => exact h.payloads
  case made =>
    rw [hmade]
    exact h.made
  case unsent =>
    rw [hwire]
    exact h.unsent
  case fresh =>
    rw [hwire]
    exact h.fresh
  case wire =>
    rw [hwire]
    exact h.wire
  case own =>
    rw [hwire]
    exact h.own
  case distinct => exact hdistinct
  case answered =>
    rw [hwire, hanswers]
    intro k a ha hstatus
    by_cases hk : k = r
    · subst hk
      simp only [Function.update_self, List.mem_cons] at ha
      rcases ha with rfl | ha
      · exact ⟨y.id, y.eventId, g, hg, hy.about, hgot hstatus⟩
      · obtain ⟨id, eventId, g', hg', habout, hrec⟩ := h.answered k a ha hstatus
        exact ⟨id, eventId, g', hg', habout, hkeep _ _ hrec⟩
    · rw [Function.update_of_ne hk] at ha
      obtain ⟨id, eventId, g', hg', habout, hrec⟩ := h.answered k a ha hstatus
      exact ⟨id, eventId, g', hg', habout, hkeep _ _ hrec⟩
  case rows =>
    intro row hrow
    rcases horigin row hrow with hrow | hrow
    · exact h.rows row hrow
    · exact ⟨y, hy.delivery, hy.here, hrow, hy.sent⟩
  case good =>
    intro k run x e claimed stage hrun hp hgood hhere
    exact hkeep _ _ (h.good k run x e claimed stage hrun hp hgood hhere)
  case done =>
    intro z hz hstatus hhere
    exact hkeep _ _ (h.done z hz hstatus hhere)

/-! ### A step of the system -/

variable {a : System.Action} {s' : System.State}

theorem ForDelivery.step {y : DeliveryRow} {g : Outgoing}
    (h : ForDelivery cfg hmac here w.sys y g) (hs : System.step cfg w.sys a = some s') :
    ∃ y', ForDelivery cfg hmac here s' y' g := by
  obtain ⟨y', hy', hev, hep⟩ := System.step_fixed hs h.delivery
  have hid : y'.id = y.id := (Table.find?_eq_some_iff.1 hy').2
  obtain ⟨secret, hsecret, hsigned⟩ := h.signed
  obtain ⟨n, hn⟩ := h.sent
  refine ⟨y', ⟨by rw [hid]; exact hy', by rw [hep]; exact h.here, by rw [hid, hev]; exact h.about,
    ⟨secret, ?_, hsigned⟩, n, by rw [hid]; exact System.sent_subset hs hn⟩⟩
  rw [hep]
  exact System.step_hasSecret hs hsecret

/-- The request that a run puts on the wire. -/
theorem wireBy_eq_some {r : ℕ} {g : Outgoing} (hg : wireBy here w r = some g) :
    w.wire r = some g ∨ ∃ run x e claimed, w.sys.runs r = some run ∧
      run.phase = .attempt x e claimed .send ∧ here x.endpointId = true ∧ w.made r = some g := by
  unfold wireBy at hg
  split at hg
  · rename_i x e claimed hp
    obtain ⟨run, hrun, hphase⟩ := Option.map_eq_some_iff.1 hp
    split_ifs at hg with hhere
    · exact .inr ⟨run, x, e, claimed, hrun, hphase, hhere, hg⟩
    · exact .inl hg
  · exact .inl hg

section

variable (h : Inv cfg hmac here w) (hs : System.step cfg w.sys a = some s')

include h hs

theorem made_step (hpayload : ∀ ev ∈ s'.db.events, ev.payload.valid = true) {r : ℕ} {run : Run}
    {x : DeliveryRow} {e : EndpointConfig} {g : Outgoing} (hrun : s'.runs r = some run)
    (hm : run.phase.makes = some (x, e)) (hg : madeAfter hmac w s' a r = some g) :
    About x.id x.eventId g ∧ SignedWith hmac (codeUnits e.secret) g := by
  cases System.run_origin hs hrun with
  | old hne hold =>
      rw [madeAfter_of_ne hne] at hg
      exact h.made r run x e g hold hm hg
  | stepped i before next ha hbefore hp _ hnext =>
      subst ha hnext
      rw [madeAfter_run] at hg
      unfold madeBy at hg
      rw [hrun, Option.map_some] at hg
      rcases makes_of_planned hp hm with hclaim | ⟨hbefore', claimed, stage, hattempt⟩
      · -- the request is made up now
        rw [hclaim] at hg
        obtain ⟨ev, hev, hout⟩ := Option.bind_eq_some_iff.1 hg
        obtain ⟨hmem, hid⟩ := Table.find?_eq_some_iff.1 hev
        rw [← hid]
        exact about_outgoing (hpayload ev hmem) hout
      · rw [hattempt] at hg
        exact h.made r before x e g hbefore hbefore' hg
  | bare _ hbare => rcases hbare with ⟨-, hp⟩ | hp <;> rw [hp] at hm <;> cases hm

theorem unsent_step {r : ℕ} {run : Run} (hrun : s'.runs r = some run)
    (hu : run.phase.unsentYet = true) : wireAfter here w a r = none := by
  cases System.run_origin hs hrun with
  | old hne hold =>
      rw [wireAfter_of_ne hne]
      exact h.unsent r run hold hu
  | stepped i before next ha hbefore hp _ hnext =>
      subst ha hnext
      obtain ⟨hbefore', hne⟩ := unsentYet_of_planned hp hu
      rw [wireAfter_run, wireBy_of_ne hbefore hne]
      exact h.unsent r before hbefore hbefore'
  | bare hne hbare =>
      rw [wireAfter_of_ne hne]
      rcases hbare with ⟨rfl, -⟩ | hp
      · exact h.fresh _ (le_refl _)
      · rw [hp] at hu
        cases hu

/-- What is on the wire stays there. -/
theorem wire_kept {r : ℕ} {g : Outgoing} (hg : w.wire r = some g) :
    wireAfter here w a r = some g := by
  cases a with
  | run k i =>
      by_cases hk : r = k
      · subst hk
        obtain ⟨run, hrun, -⟩ := System.run_eq_some hs
        rw [wireAfter_run, wireBy_of_ne hrun, hg]
        intro x e claimed hp
        have hnone := h.unsent r run hrun (by rw [hp]; rfl)
        rw [hg] at hnone
        cases hnone
      · rw [wireAfter_of_ne (by simpa using fun heq => (hk heq.symm).elim), hg]
  | _ => exact hg

theorem fresh_step {r : ℕ} (hr : s'.nextRun ≤ r) : wireAfter here w a r = none := by
  have hle : w.sys.nextRun ≤ r := (System.step_nextRun hs).trans hr
  rw [wireAfter_of_ne]
  · exact h.fresh r hle
  · rintro i rfl
    obtain ⟨run, hrun, -⟩ := System.run_eq_some hs
    rw [h.wf.fresh r hle] at hrun
    cases hrun

theorem wire_step {r : ℕ} {g : Outgoing} (hg : wireAfter here w a r = some g) :
    ∃ y, ForDelivery cfg hmac here s' y g := by
  have stays : w.wire r = some g → ∃ y, ForDelivery cfg hmac here s' y g := by
    intro hold
    obtain ⟨y, hy⟩ := h.wire r g hold
    exact hy.step hs
  cases a with
  | run k i =>
      by_cases hk : r = k
      · subst hk
        rw [wireAfter_run] at hg
        rcases wireBy_eq_some hg with hold | ⟨run, x, e, claimed, hrun, hp, hhere, hmade⟩
        · exact stays hold
        · obtain ⟨y, hy, hev, hep⟩ := h.carried r run x hrun (by rw [hp]; rfl)
          have hid : y.id = x.id := (Table.find?_eq_some_iff.1 hy).2
          obtain ⟨habout, hsigned⟩ := h.made r run x e g hrun (by rw [hp]; rfl) hmade
          obtain ⟨y', hy', hev', hep'⟩ := System.step_fixed hs hy
          have hid' : y'.id = x.id := (Table.find?_eq_some_iff.1 hy').2
          have hsecret := h.keyed.run r run x e hrun (by rw [hp]; rfl)
          refine ⟨y', ⟨by rw [hid']; exact hy', by rw [hep', hep]; exact hhere,
            by rw [hid', hev', hev]; exact habout, ⟨e.secret, ?_, hsigned⟩,
            x.attemptCount + 1, ?_⟩⟩
          · rw [hep', hep]
            exact System.step_hasSecret hs hsecret
          · rw [hid']
            obtain ⟨run', hrun', hgo | ⟨next, -, rfl⟩⟩ := System.run_eq_some hs
            · rw [hrun] at hrun'
              cases hrun'
              rw [System.letGo, hp] at hgo
              cases hgo
            · rw [hrun] at hrun'
              cases hrun'
              simp [System.applyNext, hp]
      · rw [wireAfter_of_ne (by simpa using fun heq => (hk heq.symm).elim)] at hg
        exact stays hg
  | _ => exact stays hg

theorem own_step {r : ℕ} {run : Run} {x : DeliveryRow} {e : EndpointConfig} {claimed : ℕ}
    {stage : Stage} {g : Outgoing} (hrun : s'.runs r = some run)
    (hp' : run.phase = .attempt x e claimed stage) (hg : wireAfter here w a r = some g) :
    About x.id x.eventId g := by
  cases System.run_origin hs hrun with
  | old hne hold =>
      rw [wireAfter_of_ne hne] at hg
      exact h.own r run x e claimed stage g hold hp' hg
  | stepped i before next ha hbefore hp _ hnext =>
      subst ha hnext
      rw [wireAfter_run] at hg
      rcases wireBy_eq_some hg with hold | ⟨run', x', e', claimed', hrun', hsend, -, hmade⟩
      · rcases attempt_of_planned hp hp' with ⟨hclaim, -⟩ | ⟨stage', hattempt⟩
        · have hnone := h.unsent r before hbefore (by rw [hclaim]; rfl)
          rw [hold] at hnone
          cases hnone
        · exact h.own r before x e claimed stage' g hbefore hattempt hold
      · rw [hbefore] at hrun'
        cases hrun'
        rcases attempt_of_planned hp hp' with ⟨hclaim, -⟩ | ⟨stage', hattempt⟩
        · rw [hclaim] at hsend
          cases hsend
        · exact (h.made r before x e g hbefore (by rw [hattempt]; rfl) hmade).1
  | bare _ hbare => rcases hbare with ⟨-, hp⟩ | hp <;> rw [hp] at hp' <;> cases hp'

theorem good_step (hfits : fits here w a = true) {r : ℕ} {run : Run} {x : DeliveryRow}
    {e : EndpointConfig} {claimed : ℕ} {stage : Stage} (hrun : s'.runs r = some run)
    (hp' : run.phase = .attempt x e claimed stage) (hgood : stage.good = true)
    (hhere : here x.endpointId = true) : w.Recorded x.id x.eventId := by
  cases System.run_origin hs hrun with
  | old _ hold => exact h.good r run x e claimed stage hold hp' hgood hhere
  | stepped i before next ha hbefore hp _ hnext =>
      subst ha hnext
      obtain ⟨stage', hattempt, hgood' | rfl⟩ := good_of_planned hp hp' hgood
      · exact h.good r before x e claimed stage' hbefore hattempt hgood' hhere
      · -- the answer comes from the receiver, which has the delivery
        obtain ⟨res, ms, rfl, rfl⟩ := answer_of_step hbefore hattempt hs
        simp only [System.applyNext, Function.update_self, Option.some.injEq, Run.goto] at hrun
        rw [← hrun] at hp'
        cases hp'
        obtain ⟨resp, rfl, -, hlt⟩ := response_of_good hgood
        simp only [fits, hbefore, Option.map_some, hattempt, hhere, Bool.not_true, Bool.false_or,
          List.any_eq_true, decide_eq_true_eq] at hfits
        obtain ⟨ans, hans, hstatus⟩ := hfits
        obtain ⟨id, eventId, g, hg, habout, hmem⟩ :=
          h.answered r ans hans (by rw [hstatus]; omega)
        have hown := h.own r before x e claimed _ g hbefore hattempt hg
        obtain ⟨rfl, rfl⟩ := hown.unique habout
        exact hmem
  | bare _ hbare => rcases hbare with ⟨-, hp⟩ | hp <;> rw [hp] at hp' <;> cases hp'

theorem done_step {y : DeliveryRow} (hy : y ∈ s'.db.deliveries) (hstatus : y.status = .succeeded)
    (hhere : here y.endpointId = true) : w.Recorded y.id y.eventId := by
  rcases System.succeeded_origin hs hy hstatus with ⟨z, hz, hstatus', hid, hev, hep⟩ |
    ⟨r, run, x, e, claimed, hrun, hp, hid⟩
  · rw [hid, hev]
    exact h.done z hz hstatus' (hep ▸ hhere)
  · obtain ⟨z, hz, hev, hep⟩ := h.carried r run x hrun (by rw [hp]; rfl)
    obtain ⟨z', hz', hev', hep'⟩ := System.step_fixed hs hz
    have hy' := Table.find?_of_mem hy
    rw [← hid, hz'] at hy'
    cases hy'
    rw [← hid, hev', hev]
    exact h.good r run x e claimed _ hrun hp rfl (by rw [← hep, ← hep']; exact hhere)

end

/-- **Every step keeps the invariant.** -/
theorem step_inv {b : Action} (h : Inv cfg hmac here w) (hb : Proper b)
    (hs : step cfg hmac here w b = some w') : Inv cfg hmac here w' := by
  cases b with
  | arrive r secrets nowMs fault => exact arrive_inv h hs
  | sys a =>
      simp only [step] at hs
      split_ifs at hs with hfits
      obtain ⟨s', hsys, rfl⟩ := Option.map_eq_some_iff.1 hs
      have hpayload : ∀ ev ∈ s'.db.events, ev.payload.valid = true := by
        intro ev hev
        rcases System.event_origin hsys hev with hold | ⟨targets, o, rfl⟩ | ⟨d, k, o, rfl⟩
        · exact h.payloads ev hold
        · exact hb
        · exact hb
      exact
        { wf := System.step_wf h.wf hsys
          carried := System.step_carried h.carried hsys
          keyed := System.step_keyed h.keyed hsys
          payloads := hpayload
          made := fun r run x e g => made_step h hsys hpayload
          unsent := fun r run => unsent_step h hsys
          fresh := fun r => fresh_step h hsys
          wire := fun r g => wire_step h hsys
          own := fun r run x e claimed stage g => own_step h hsys
          answered := fun r a ha hstatus => by
            obtain ⟨id, eventId, g, hg, habout, hmem⟩ := h.answered r a ha hstatus
            exact ⟨id, eventId, g, wire_kept h hsys hg, habout, hmem⟩
          distinct := h.distinct
          rows := fun row hrow => by
            obtain ⟨y, hy, hhere, hentry, n, hn⟩ := h.rows row hrow
            obtain ⟨y', hy', hev, hep⟩ := System.step_fixed hsys hy
            have hid : y'.id = y.id := (Table.find?_eq_some_iff.1 hy').2
            exact ⟨y', by rw [hid]; exact hy', by rw [hep]; exact hhere,
              by rw [hid, hev]; exact hentry, n, by rw [hid]; exact System.sent_subset hsys hn⟩
          good := fun r run x e claimed stage => good_step h hsys hfits
          done := fun y => done_step h hsys }

theorem path_inv (h : Path (step cfg hmac here) (fun _ b => Proper b) init w) :
    Inv cfg hmac here w :=
  h.invariant (fun _ _ _ hI hb hs => step_inv hI hb hs) inv_init

end Invariant

/-! ## The results -/

/-- **Every delivery once.**  In every run of the system and the receiver, whatever is sent again,
comes late or twice or not at all, and whatever answers get lost and `INSERT`s fail: no delivery
id is in the receiver's table twice; every row is that of a delivery that was sent to an endpoint
here, with the event of that delivery; and every such delivery that is `SUCCEEDED` is in the
table, unless an `INSERT` of it has failed for another reason than the key. -/
theorem processed_once (cfg : WorkerConfig) (hmac : Hmac) (here : Uuid → Bool) (w : World)
    (h : Path (step cfg hmac here) (fun _ b => Proper b) init w) :
    (w.rows.map Prod.fst).Nodup ∧
    (∀ row ∈ w.rows, ∃ y ∈ w.sys.db.deliveries, here y.endpointId = true ∧
      row = entry y.id y.eventId ∧ ∃ n, (y.id, n) ∈ w.sys.sent) ∧
    ∀ y ∈ w.sys.db.deliveries, here y.endpointId = true → y.status = .succeeded →
      entry y.id y.eventId ∈ w.rows ∨ codeUnits y.id.text ∈ w.unstored := by
  have hinv := path_inv h
  refine ⟨hinv.distinct, fun row hrow => ?_, fun y hy hhere hstatus => hinv.done y hy hstatus hhere⟩
  obtain ⟨y, hy, hhere, hentry, hsent⟩ := hinv.rows row hrow
  exact ⟨y, (Table.find?_eq_some_iff.1 hy).1, hhere, hentry, hsent⟩

namespace Sample

/-- A digest that is empty. -/
def hmac : Hmac := fun _ _ => []

def ofSys (as : List System.Action) : List Action := as.map .sys

def proper : Action → Bool
  | .sys (.publish e _ _) | .sys (.ping e _ _ _) => e.payload.valid
  | _ => true

theorem proper_spec {b : Action} (h : proper b = true) : Proper b := by
  unfold proper at h
  split at h
  · exact h
  · exact h
  · rename_i hpublish hping
    unfold Proper
    split
    · exact absurd rfl (hpublish _ _ _)
    · exact absurd rfl (hping _ _ _ _)
    · trivial

/-- Run `r` claims an attempt and sends it. -/
def sends (r : ℕ) : List System.Action :=
  [.run r (.digest []), .run r (.answer true), .run r .none]

/-- The answer to the first request gets lost, and the request comes once more after that to the
second one. -/
def answerLost : List Action :=
  ofSys (System.Sample.beforeClaim ++ sends 0) ++ [.arrive 0 [[]] 0 false] ++
  ofSys ([.run 0 (.response (.error (.error none none [])) 5), .run 0 .none] ++
    System.Sample.settleFailure 0 ++
    [.run 0 .none, .run 0 .none, .run 0 (.delay 0), .run 0 .none, .take 1 System.Sample.job] ++
    System.Sample.toClaim 1 ++ sends 1) ++
  [.arrive 1 [[]] 0 true, .arrive 0 [[]] 0 false] ++
  ofSys ([.run 1 (.response (.ok ⟨200, []⟩) 5), .run 1 .none] ++ System.Sample.settleSuccess 1)

/-- Somebody's request for the delivery is on the wire, under the timestamp 0. -/
def onWire (w : World) : Bool :=
  ((w.wire 0).any fun g => g.headers.deliveryId = codeUnits System.Sample.delivery.text &&
    g.headers.timestamp = decimalText 0) &&
  (w.sys.db.deliveries.find? System.Sample.delivery).any fun y =>
    y.endpointId = System.Sample.endpoint

theorem onWire_spec {w : World} (h : onWire w = true) : ∃ y g, y ∈ w.sys.db.deliveries ∧
    y.endpointId = System.Sample.endpoint ∧ w.wire 0 = some g ∧
    g.headers.deliveryId = codeUnits y.id.text ∧ g.headers.timestamp = decimalText 0 := by
  simp only [onWire, Bool.and_eq_true, Option.any_eq_true, decide_eq_true_eq] at h
  obtain ⟨⟨g, hg, hid, htime⟩, y, hy, hep⟩ := h
  obtain ⟨hmem, hyid⟩ := Table.find?_eq_some_iff.1 hy
  exact ⟨y, g, hmem, hep, hg, by rw [hid, hyid], htime⟩

def hasSecret (w : World) : Bool :=
  (w.sys.db.endpoints.find? System.Sample.endpoint).any fun row => row.secretEnc = []

theorem hasSecret_spec {w : World} (h : hasSecret w = true) :
    System.HasSecret System.Sample.cfg w.sys.db System.Sample.endpoint [] := by
  obtain ⟨row, hrow, hsecret⟩ := (Option.any_eq_true _ _).1 h
  exact ⟨row, hrow, of_decide_eq_true hsecret⟩

end Sample

/-- At a delivery that succeeds at its second attempt, after the receiver had it from the first:
three arrivals, at the second of which the storage fails, and one row. -/
theorem processed_once_after_lost_answer : ∃ w,
    Path (step System.Sample.cfg Sample.hmac fun _ => true) (fun _ b => Proper b) init w ∧
    w.answers 0 = [.duplicate, .consumed] ∧ w.answers 1 = [.duplicate] ∧ w.rows.length = 1 ∧
    ∃ y ∈ w.sys.db.deliveries, y.status = .succeeded ∧ entry y.id y.eventId ∈ w.rows := by
  obtain ⟨w, hpath, hw⟩ := Path.exists_of_runChecked
    (step System.Sample.cfg Sample.hmac fun _ => true) (P := fun _ b => Proper b)
    (p := fun _ => Sample.proper) (fun _ _ => Sample.proper_spec) init Sample.answerLost
    (fun w => (w.answers 0 = [.duplicate, .consumed]) && (w.answers 1 = [.duplicate]) &&
      (w.rows.length = 1) && (w.unstored = []) && System.Sample.statusIs w.sys .succeeded 2)
    (by decide +kernel)
  simp only [Bool.and_eq_true, decide_eq_true_eq] at hw
  obtain ⟨⟨⟨⟨h0, h1⟩, hlen⟩, hstored⟩, hdone⟩ := hw
  obtain ⟨y, hy, hstatus, -⟩ := System.Sample.statusIs_iff.1 hdone
  have hmem := (Table.find?_eq_some_iff.1 hy).1
  obtain ⟨-, -, hall⟩ := processed_once System.Sample.cfg Sample.hmac (fun _ => true) w hpath
  have hrow := (hall y hmem rfl hstatus).resolve_right (by rw [hstored]; exact List.not_mem_nil)
  exact ⟨w, hpath, h0, h1, hlen, y, hmem, hstatus, hrow⟩

/-! ### With the right secret -/

theorem path_hasSecret {cfg : WorkerConfig} {hmac : Hmac} {here : Uuid → Bool} {w w' : World}
    {P : World → Action → Prop} {k : Uuid} {secret : Text}
    (h : Path (step cfg hmac here) P w w') (hsecret : System.HasSecret cfg w.sys.db k secret) :
    System.HasSecret cfg w'.sys.db k secret := by
  refine h.invariant (I := fun v => System.HasSecret cfg v.sys.db k secret)
    (fun v b v' hI _ hs => ?_) hsecret
  cases b with
  | arrive r secrets nowMs fault =>
      obtain ⟨g, -, rfl⟩ := Option.map_eq_some_iff.1 hs
      rw [World.arrival_sys]
      exact hI
  | sys a =>
      simp only [step] at hs
      split_ifs at hs
      obtain ⟨s', hsys, rfl⟩ := Option.map_eq_some_iff.1 hs
      exact System.step_hasSecret hsys hI

/-- A request that is signed with a secret of the receiver's, and comes in time, is verified. -/
theorem verify_received {hmac : Hmac} {secret : CodeUnits} {secrets : List CodeUnits}
    {nowMs n : ℕ} {id eventId : Uuid} {g : Outgoing} (habout : About id eventId g)
    (hsigned : SignedWith hmac secret g) (hknown : secret ∈ secrets)
    (htime : g.headers.timestamp = decimalText n) (htol : |(nowMs : ℚ) / 1000 - n| ≤ 300) :
    ∃ v, verify hmac secrets nowMs (received g) = .ok (codeUnits id.text) v := by
  obtain ⟨fields, hparse, -⟩ := habout.body
  refine ⟨.obj fields, Receiver.verify_eq_ok (congrArg some habout.deliveryId) rfl rfl
    ⟨?_, ?_, ?_⟩ ?_ ?_ hparse⟩
  · intro hnil
    have hlen := Uuid.length_text id
    rw [codeUnits_injective (u := []) hnil] at hlen
    cases hlen
  · rw [htime]
    exact decimalText_ne_nil n
  · rw [hsigned.signature]
    simp [versioned, ascii]
  · rw [htime, toNumber_decimalText]
    apply decide_eq_false
    simpa [Receiver.toleranceSec] using htol
  · exact List.any_eq_true.2 ⟨secret, hknown, decide_eq_true hsigned.signature.symm⟩

/-- The secret that `create` returns is the one that workers decrypt. -/
theorem hasSecret_of_create {cfg : WorkerConfig} {env : Env} {tenantId : Uuid} {url : Text}
    {description : Option Text} {db db' : Database} {view : EndpointsService.View} {secret : Text}
    (hdec : cfg.decrypt (env.encrypt env.secret) = env.secret)
    (h : EndpointsService.create env tenantId url description db = .ok ((view, secret), db')) :
    System.HasSecret cfg db' view.id secret := by
  unfold EndpointsService.create at h
  split at h
  · cases h
  · split_ifs at h
    split at h
    · cases h
    · rename_i endpoints hins
      cases h
      refine ⟨EndpointsService.newEndpoint env tenantId url description, ?_, hdec⟩
      rw [Table.find?_insert? hins]
      exact if_pos rfl

/-- **A request that comes in time is accepted.**  Let the receiver know the secret that an
endpoint had at some time, for instance the one that `create` has returned.  Then whatever has
happened since, a request for a delivery to this endpoint that arrives, by the receiver's clock,
within 300 seconds of its timestamp is answered with 200; and the delivery is in the table then,
unless the `INSERT` fails for another reason than the key. -/
theorem arrival_accepted (cfg : WorkerConfig) (hmac : Hmac) (here : Uuid → Bool) (w₀ w : World)
    (h₀ : Path (step cfg hmac here) (fun _ b => Proper b) init w₀)
    (h : Path (step cfg hmac here) (fun _ b => Proper b) w₀ w)
    (y : DeliveryRow) (secret : Text) (hsecret : System.HasSecret cfg w₀.sys.db y.endpointId secret)
    (hy : y ∈ w.sys.db.deliveries) (r : ℕ) (g : Outgoing) (hg : w.wire r = some g)
    (hid : g.headers.deliveryId = codeUnits y.id.text) (secrets : List CodeUnits)
    (hknown : codeUnits secret ∈ secrets) (nowMs n : ℕ)
    (htime : g.headers.timestamp = decimalText n) (htol : |(nowMs : ℚ) / 1000 - n| ≤ 300)
    (fault : Bool) :
    ∃ w' answer, step cfg hmac here w (.arrive r secrets nowMs fault) = some w' ∧
      w'.answers r = answer :: w.answers r ∧ statusCode answer = 200 ∧
      (fault = false → entry y.id y.eventId ∈ w'.rows) := by
  have hinv := path_inv (h₀.trans h)
  obtain ⟨z, hz⟩ := hinv.wire r g hg
  -- the request is for this delivery
  have hzy : z = y := by
    have hsame : z.id = y.id := by
      apply Uuid.text_injective
      apply codeUnits_injective
      rw [← hz.about.deliveryId, hid]
    have hfind := Table.find?_of_mem hy
    rw [← hsame, hz.delivery] at hfind
    exact Option.some.inj hfind
  subst hzy
  -- it is signed with the secret that the endpoint had
  obtain ⟨secret', ⟨row, hrow, hdec⟩, hsigned⟩ := hz.signed
  obtain ⟨row', hrow', hdec'⟩ := path_hasSecret h hsecret
  rw [hrow] at hrow'
  cases hrow'
  rw [← hdec, hdec'] at hsigned
  obtain ⟨v, hverify⟩ := verify_received hz.about hsigned hknown htime htol
  refine ⟨w.arrival hmac r g secrets nowMs fault, ?_⟩
  rcases hinv.arrival hz secrets nowMs fault r with ⟨hno, -⟩ | ⟨hmem, harr⟩ | ⟨-, rfl, harr⟩ |
    ⟨-, rfl, harr⟩
  · exact absurd hverify (hno _ v)
  · refine ⟨.duplicate, by rw [step, hg]; rfl, ?_, rfl, fun _ => ?_⟩
    · rw [harr]
      exact Function.update_self _ _ _
    · rw [harr]
      exact hmem
  · refine ⟨.consumed, by rw [step, hg]; rfl, ?_, rfl, fun _ => ?_⟩
    · rw [harr]
      exact Function.update_self _ _ _
    · rw [harr]
      exact List.mem_append_right _ (List.mem_singleton_self _)
  · refine ⟨.duplicate, by rw [step, hg]; rfl, ?_, rfl, fun h => by cases h⟩
    rw [harr]
    exact Function.update_self _ _ _

/-- At a request that comes 100 seconds after it was made. -/
theorem arrival_accepted_in_time : ∃ w w' answer,
    step System.Sample.cfg Sample.hmac (fun _ => true) w (.arrive 0 [[]] 100000 false) = some w' ∧
    w'.answers 0 = answer :: w.answers 0 ∧ statusCode answer = 200 ∧
    ∃ y ∈ w.sys.db.deliveries, entry y.id y.eventId ∈ w'.rows := by
  obtain ⟨w₀, h₀, hw₀⟩ := Path.exists_of_runChecked
    (step System.Sample.cfg Sample.hmac fun _ => true) (P := fun _ b => Proper b)
    (p := fun _ => Sample.proper) (fun _ _ => Sample.proper_spec) init
    (Sample.ofSys System.Sample.beforeClaim)
    (fun w => Sample.hasSecret w &&
      (runChecked (step System.Sample.cfg Sample.hmac fun _ => true) (fun _ => Sample.proper) w
        (Sample.ofSys (Sample.sends 0))).any Sample.onWire) (by decide +kernel)
  rw [Bool.and_eq_true] at hw₀
  obtain ⟨w, h, hw⟩ := Path.exists_of_runChecked
    (step System.Sample.cfg Sample.hmac fun _ => true) (P := fun _ b => Proper b)
    (fun _ _ => Sample.proper_spec) w₀ _ _ hw₀.2
  obtain ⟨y, g, hy, hep, hg, hid, htime⟩ := Sample.onWire_spec hw
  obtain ⟨w', answer, hs, hanswers, hstatus, hrow⟩ := arrival_accepted System.Sample.cfg Sample.hmac
    (fun _ => true) w₀ w h₀ h y [] (by rw [hep]; exact Sample.hasSecret_spec hw₀.1) hy 0 g hg hid
    [[]] (List.mem_singleton.2 rfl) 100000 0 htime (by norm_num) false
  exact ⟨w, w', answer, hs, hanswers, hstatus, y, hy, hrow rfl⟩

end EndToEnd
end HookRelay
