import HookRelay.Worker.HttpClient
import HookRelay.Queue.Jobs

/-!
# The worker's job handler

`worker.service.ts` and `delivery.processor.ts`: what a worker does with a job, cut at
every `await`.  A `Run` is one call of the handler; its `Phase` says which awaited call
comes next and carries the local variables that are still alive.  `plan` is one step of a
run: it reads the database and the worker's endpoint cache as they are at that moment,
and says how the run goes on, what it writes to the database (`Write`, one statement) and
what it does to the cache.

What Redis answers (the tenant limiter, the circuit) and what comes of the HTTP request
are inputs of the step; so are the digest of the signed headers and the random delay.
-/

namespace HookRelay

open Lib

/-- `ProcessResult`. -/
inductive ProcessResult where
  | succeeded | failed | dead | skippedAlreadyDone | skippedEndpointInactive
  | skippedDuplicateClaim | skippedMissing
  deriving DecidableEq

/-- `EndpointConfig`. -/
structure EndpointConfig where
  url : Text
  secret : Text
  status : EndpointStatus
  deriving DecidableEq

/-- An entry of the endpoint cache. -/
structure CacheEntry where
  value : EndpointConfig
  expiresAt : ℕ
  deriving DecidableEq

/-- One worker process's endpoint cache. -/
abbrev EndpointCache := Uuid → Option CacheEntry

/-- `TTL_MS` of the endpoint cache. -/
def cacheTtlMs : ℕ := 30000

/-- The configuration of a worker: `HR_MAX_ATTEMPTS`, `HR_ALLOW_PRIVATE_DESTINATIONS`, the
URL parser and the decryption of secrets. -/
structure WorkerConfig where
  maxAttempts : ℤ
  allowPrivate : Bool
  newUrl : Text → Option Url
  decrypt : Text → Text

/-! ## Runs -/

/-- Where a run stands that has claimed an attempt. -/
inductive Stage where
  /-- `circuit.allow` -/
  | allow
  /-- `httpClient.send` is about to be called. -/
  | send
  /-- The request is outstanding. -/
  | sending
  /-- `deliveryAttempt.update` with the outcome -/
  | record (o : AttemptOutcome)
  /-- `circuit.success` -/
  | success
  /-- `endpoint.update` after a success -/
  | endpointSuccess
  /-- the final `delivery.update` after a success -/
  | deliverySuccess
  /-- `circuit.failure` -/
  | failure
  /-- `endpoint.update` after a failure -/
  | endpointFailure (disable : Bool)
  /-- the final `delivery.update` after a failure -/
  | deliveryFailure
  /-- `finishFailure`: `deliveryAttempt.update` when the circuit is open -/
  | skipRecord
  /-- `finishFailure`: the final `delivery.update` -/
  | skipDelivery

/-- How the handler ends. -/
inductive Ending where
  /-- It returns. -/
  | returned
  /-- It throws `RetrySignal`. -/
  | retrySignal
  /-- It throws any other error. -/
  | threw
  deriving DecidableEq

/-- The awaited call that comes next. -/
inductive Phase where
  /-- `job.data.tenantId ?? delivery.findUnique(...)` -/
  | tenant
  /-- `limiter.acquire` -/
  | acquire
  /-- `job.moveToDelayed`, and then `DelayedError` -/
  | delay
  /-- `process`: `delivery.findUnique` -/
  | find
  /-- `endpointCache.get`: the look into the map -/
  | lookup (d : DeliveryRow)
  /-- `endpointCache.get`: `endpoint.findUnique` -/
  | load (d : DeliveryRow)
  /-- `endpointCache.get`: `entries.set` -/
  | store (d : DeliveryRow) (e : EndpointConfig)
  /-- `claim`: `deliveryAttempt.create` -/
  | claim (d : DeliveryRow) (e : EndpointConfig)
  /-- `process` after the claim; `claimed` is the id of the attempt row. -/
  | attempt (d : DeliveryRow) (e : EndpointConfig) (claimed : ℕ) (stage : Stage)
  /-- `process` has returned. -/
  | returned (res : ProcessResult)
  /-- the handler's `delivery.findUnique` after `FAILED` -/
  | retryRead
  /-- the handler's `delivery.update` of `nextRetryAt` -/
  | retryWrite (attemptCount : ℕ)
  /-- `limiter.release`, and then the end -/
  | finish (ending : Ending)

/-- The run is through, but for its last step. -/
def Phase.isFinish : Phase → Bool
  | .finish _ => true
  | _ => false

/-- One call of the handler.  `claimedNo` is the number of the attempt it has claimed, kept
for stating what holds of it. -/
structure Run where
  jobId : Text
  deliveryId : Uuid
  tenantId : Option Uuid
  worker : ℕ
  limited : Bool
  claimedNo : Option ℕ
  phase : Phase

/-- What comes from outside in a step. -/
inductive Input where
  | none
  /-- The answer of the limiter or the circuit. -/
  | answer (b : Bool)
  /-- The digest of the request's headers. -/
  | digest (text : Text)
  /-- What came of the request, and how long it took. -/
  | response (res : Except Thrown Response) (durationMs : ℤ)
  /-- The delay until the next attempt. -/
  | delay (ms : ℕ)

/-! ## Writes -/

/-- The statements of a run that write to the database. -/
inductive Write where
  | skip
  | insertAttempt (deliveryId : Uuid) (attemptNo : ℕ) (digest : Text)
  | recordOutcome (attemptId : ℕ) (o : AttemptOutcome)
  | recordCircuitOpen (attemptId : ℕ)
  | resetFailures (endpointId : Uuid)
  | countFailure (endpointId : Uuid) (disable : Bool)
  | settleSuccess (deliveryId : Uuid) (attemptNo : ℕ)
  | settleFailure (deliveryId : Uuid) (attemptNo : ℕ) (dead : Bool)
  | scheduleRetry (deliveryId : Uuid) (retryAt : Micros)

namespace Write

/-- A claimed attempt whose result is not recorded yet. -/
def newAttempt (now : Micros) (deliveryId : Uuid) (attemptNo : ℕ) (digest : Text) (id : ℕ) :
    AttemptRow :=
  { id := id, deliveryId := deliveryId, attemptNo := attemptNo, requestHeadersDigest := digest,
    responseStatus := none, responseBodyHead := none, errorClass := none, durationMs := none,
    attemptedAt := now }

theorem newAttempt_id (now : Micros) (d : Uuid) (attemptNo : ℕ) (digest : Text) (n : ℕ) :
    (newAttempt now d attemptNo digest n).id = n := rfl

/-- `data` of the `deliveryAttempt.update` after a request. -/
def outcomeData (o : AttemptOutcome) (a : AttemptRow) : AttemptRow :=
  match o with
  | .ok status bodyHead durationMs =>
      { a with
        responseStatus := some status, responseBodyHead := some bodyHead,
        errorClass := none, durationMs := some durationMs }
  | .failed errorClass status bodyHead durationMs =>
      { a with
        responseStatus := status, responseBodyHead := bodyHead,
        errorClass := some errorClass, durationMs := some durationMs }

theorem outcomeData_id (o : AttemptOutcome) (a : AttemptRow) : (outcomeData o a).id = a.id := by
  cases o <;> rfl

/-- `data` of the `deliveryAttempt.update` of `finishFailure`. -/
def circuitOpenData (a : AttemptRow) : AttemptRow :=
  { a with
    errorClass := some .circuitOpen
    responseBodyHead := some (codeUnits "circuit open — HTTP skipped".toList)
    durationMs := some 0 }

theorem circuitOpenData_id (a : AttemptRow) : (circuitOpenData a).id = a.id := rfl

/-- `data` of the `endpoint.update` after a success. -/
def resetData (now : Micros) (e : EndpointRow) : EndpointRow :=
  { e with consecutiveFailures := 0, updatedAt := now }

theorem resetData_id (now : Micros) (e : EndpointRow) : (resetData now e).id = e.id := rfl

/-- `data` of the `endpoint.update` after a failure. -/
def countedFailure (now : Micros) (disable : Bool) (e : EndpointRow) : EndpointRow :=
  { e with
    consecutiveFailures := e.consecutiveFailures + 1
    status := if disable then .disabledAuto else e.status
    updatedAt := now }

theorem countedFailure_id (now : Micros) (disable : Bool) (e : EndpointRow) :
    (countedFailure now disable e).id = e.id := rfl

/-- `data` of the final `delivery.update` after a success. -/
def succeededData (now : Micros) (attemptNo : ℕ) (d : DeliveryRow) : DeliveryRow :=
  { d with status := .succeeded, attemptCount := attemptNo, nextRetryAt := none, updatedAt := now }

theorem succeededData_id (now : Micros) (n : ℕ) (d : DeliveryRow) :
    (succeededData now n d).id = d.id := rfl

/-- `data` of the final `delivery.update` after a failure. -/
def failedData (now : Micros) (attemptNo : ℕ) (dead : Bool) (d : DeliveryRow) : DeliveryRow :=
  { d with
    status := if dead then .dead else .failedRetrying, attemptCount := attemptNo, updatedAt := now }

theorem failedData_id (now : Micros) (n : ℕ) (dead : Bool) (d : DeliveryRow) :
    (failedData now n dead d).id = d.id := rfl

/-- `data` of the handler's `delivery.update`. -/
def retryData (now retryAt : Micros) (d : DeliveryRow) : DeliveryRow :=
  { d with nextRetryAt := some retryAt, updatedAt := now }

theorem retryData_id (now retryAt : Micros) (d : DeliveryRow) :
    (retryData now retryAt d).id = d.id := rfl

/-- The effect of a statement. -/
def exec (now : Micros) (db : Database) : Write → Database
  | .skip => db
  | .insertAttempt d n digest =>
      { db with
        attempts := db.attempts.insert (newAttempt now d n digest) (newAttempt_id now d n digest) }
  | .recordOutcome id o =>
      { db with attempts := db.attempts.modify id (outcomeData o) (outcomeData_id o) }
  | .recordCircuitOpen id =>
      { db with attempts := db.attempts.modify id circuitOpenData circuitOpenData_id }
  | .resetFailures e =>
      { db with endpoints := db.endpoints.modify e (resetData now) (resetData_id now) }
  | .countFailure e disable =>
      { db with
        endpoints := db.endpoints.modify e (countedFailure now disable)
          (countedFailure_id now disable) }
  | .settleSuccess d n =>
      { db with deliveries := db.deliveries.modify d (succeededData now n) (succeededData_id now n) }
  | .settleFailure d n dead =>
      { db with
        deliveries := db.deliveries.modify d (failedData now n dead) (failedData_id now n dead) }
  | .scheduleRetry d retryAt =>
      { db with
        deliveries := db.deliveries.modify d (retryData now retryAt) (retryData_id now retryAt) }

end Write

/-- What a step does to the worker's cache. -/
inductive CacheWrite where
  | keep
  | set (endpointId : Uuid) (entry : CacheEntry)
  | invalidate (endpointId : Uuid)

def CacheWrite.exec (cache : EndpointCache) : CacheWrite → EndpointCache
  | .keep => cache
  | .set e entry => Function.update cache e (some entry)
  | .invalidate e => Function.update cache e none

/-! ## One step of a run -/

/-- How a run goes on. -/
structure Next where
  run : Run
  write : Write
  cache : CacheWrite

/-- Go on to a phase, with nothing written. -/
def Run.goto (run : Run) (phase : Phase) : Next := ⟨{ run with phase := phase }, .skip, .keep⟩

/-- Go on to a phase after a statement. -/
def Run.writing (run : Run) (w : Write) (phase : Phase) : Next :=
  ⟨{ run with phase := phase }, w, .keep⟩

/-- `attemptNo >= this.maxAttempts`. -/
def isDead (cfg : WorkerConfig) (attemptNo : ℕ) : Bool := cfg.maxAttempts ≤ (attemptNo : ℤ)

/-- `dead ? 'DEAD' : 'FAILED'`. -/
def failureResult (dead : Bool) : ProcessResult := if dead then .dead else .failed

/-- The check of the endpoint's status after `endpointCache.get`. -/
def afterEndpoint (d : DeliveryRow) (e : EndpointConfig) : Phase :=
  if e.status = .active then .claim d e else .returned .skippedEndpointInactive

/-- A step of `process` after the claim. -/
def planAttempt (cfg : WorkerConfig) (run : Run) (d : DeliveryRow) (e : EndpointConfig)
    (claimed : ℕ) (stage : Stage) (i : Input) : Option Next :=
  let attemptNo := d.attemptCount + 1
  let go (stage : Stage) : Phase := .attempt d e claimed stage
  match stage, i with
  | .allow, .answer true => some (run.goto (go .send))
  | .allow, .answer false => some (run.goto (go .skipRecord))
  | .send, .none => some (run.goto (go .sending))
  | .sending, .response res ms =>
      some (run.goto (go (.record (send cfg.allowPrivate cfg.newUrl e.url res ms))))
  | .record (.ok status bodyHead ms), .none =>
      some (run.writing (.recordOutcome claimed (.ok status bodyHead ms)) (go .success))
  | .record (.failed errorClass status bodyHead ms), .none =>
      some (run.writing (.recordOutcome claimed (.failed errorClass status bodyHead ms))
        (go .failure))
  | .success, .none => some (run.goto (go .endpointSuccess))
  | .endpointSuccess, .none =>
      some (run.writing (.resetFailures d.endpointId) (go .deliverySuccess))
  | .deliverySuccess, .none =>
      some (run.writing (.settleSuccess d.id attemptNo) (.returned .succeeded))
  | .failure, .answer disable => some (run.goto (go (.endpointFailure disable)))
  | .endpointFailure disable, .none =>
      some ⟨{ run with phase := go .deliveryFailure }, .countFailure d.endpointId disable,
        if disable then .invalidate d.endpointId else .keep⟩
  | .deliveryFailure, .none =>
      let dead := isDead cfg attemptNo
      some (run.writing (.settleFailure d.id attemptNo dead) (.returned (failureResult dead)))
  | .skipRecord, .none => some (run.writing (.recordCircuitOpen claimed) (go .skipDelivery))
  | .skipDelivery, .none =>
      let dead := isDead cfg attemptNo
      some (run.writing (.settleFailure d.id attemptNo dead) (.returned (failureResult dead)))
  | _, _ => none

/-- A step of a run, except for its last one. -/
def plan (cfg : WorkerConfig) (now : Micros) (db : Database) (cache : EndpointCache) (run : Run)
    (i : Input) : Option Next :=
  match run.phase, i with
  | .tenant, .none =>
      match run.tenantId with
      | some _ => some (run.goto .acquire)
      | none =>
          match (db.deliveries.find? run.deliveryId).bind fun d => db.events.find? d.eventId with
          | some e => some ⟨{ run with tenantId := some e.tenantId, phase := .acquire }, .skip, .keep⟩
          | none => some (run.goto .find)
  | .acquire, .answer true => some ⟨{ run with limited := true, phase := .find }, .skip, .keep⟩
  | .acquire, .answer false => some (run.goto .delay)
  | .find, .none =>
      match db.deliveries.find? run.deliveryId with
      | none => some (run.goto (.returned .skippedMissing))
      | some d =>
          if d.status.isDone then some (run.goto (.returned .skippedAlreadyDone))
          else some (run.goto (.lookup d))
  | .lookup d, .none =>
      match cache d.endpointId with
      | some entry =>
          if entry.expiresAt > jsDate now then some (run.goto (afterEndpoint d entry.value))
          else some (run.goto (.load d))
      | none => some (run.goto (.load d))
  | .load d, .none =>
      match db.endpoints.find? d.endpointId with
      | none => some (run.goto (.returned .skippedMissing))
      | some e => some (run.goto (.store d ⟨e.url, cfg.decrypt e.secretEnc, e.status⟩))
  | .store d e, .none =>
      some ⟨{ run with phase := afterEndpoint d e }, .skip,
        .set d.endpointId ⟨e, jsDate now + cacheTtlMs⟩⟩
  | .claim d e, .digest text =>
      let attemptNo := d.attemptCount + 1
      if db.attemptTaken d.id attemptNo then some (run.goto (.returned .skippedDuplicateClaim))
      else some
        ⟨{ run with claimedNo := some attemptNo, phase := .attempt d e db.attempts.next .allow },
          .insertAttempt d.id attemptNo text, .keep⟩
  | .attempt d e claimed stage, i => planAttempt cfg run d e claimed stage i
  | .returned res, .none =>
      if run.limited ∧ res = .failed then some (run.goto .retryRead)
      else some (run.goto (.finish .returned))
  | .retryRead, .none =>
      let attemptCount := ((db.deliveries.find? run.deliveryId).map (·.attemptCount)).getD 1
      some (run.goto (.retryWrite attemptCount))
  | .retryWrite _, .delay ms =>
      some (run.writing (.scheduleRetry run.deliveryId ((jsDate now + ms) * 1000))
        (.finish .retrySignal))
  | _, _ => none

/-! ## What a step can be -/

section Planned

variable (cfg : WorkerConfig) (now : Micros) (db : Database) (cache : EndpointCache) (run : Run)

/-- The steps of `process` after the claim, one by one. -/
inductive PlannedAttempt (d : DeliveryRow) (e : EndpointConfig) (claimed : ℕ) :
    Stage → Next → Prop
  | allowed : PlannedAttempt d e claimed .allow (run.goto (.attempt d e claimed .send))
  | refused : PlannedAttempt d e claimed .allow (run.goto (.attempt d e claimed .skipRecord))
  | sent : PlannedAttempt d e claimed .send (run.goto (.attempt d e claimed .sending))
  | answered (res : Except Thrown Response) (ms : ℤ) :
      PlannedAttempt d e claimed .sending
        (run.goto (.attempt d e claimed (.record (send cfg.allowPrivate cfg.newUrl e.url res ms))))
  | recordedOk (status : ℕ) (bodyHead : CodeUnits) (ms : ℤ) :
      PlannedAttempt d e claimed (.record (.ok status bodyHead ms))
        (run.writing (.recordOutcome claimed (.ok status bodyHead ms))
          (.attempt d e claimed .success))
  | recordedFailed (errorClass : AttemptErrorClass) (status : Option ℕ)
      (bodyHead : Option CodeUnits) (ms : ℤ) :
      PlannedAttempt d e claimed (.record (.failed errorClass status bodyHead ms))
        (run.writing (.recordOutcome claimed (.failed errorClass status bodyHead ms))
          (.attempt d e claimed .failure))
  | circuitSuccess : PlannedAttempt d e claimed .success
      (run.goto (.attempt d e claimed .endpointSuccess))
  | endpointReset : PlannedAttempt d e claimed .endpointSuccess
      (run.writing (.resetFailures d.endpointId) (.attempt d e claimed .deliverySuccess))
  | succeeded : PlannedAttempt d e claimed .deliverySuccess
      (run.writing (.settleSuccess d.id (d.attemptCount + 1)) (.returned .succeeded))
  | circuitFailure (disable : Bool) : PlannedAttempt d e claimed .failure
      (run.goto (.attempt d e claimed (.endpointFailure disable)))
  | endpointCounted (disable : Bool) : PlannedAttempt d e claimed (.endpointFailure disable)
      ⟨{ run with phase := .attempt d e claimed .deliveryFailure },
        .countFailure d.endpointId disable, if disable then .invalidate d.endpointId else .keep⟩
  | failed : PlannedAttempt d e claimed .deliveryFailure
      (run.writing (.settleFailure d.id (d.attemptCount + 1) (isDead cfg (d.attemptCount + 1)))
        (.returned (failureResult (isDead cfg (d.attemptCount + 1)))))
  | recordedOpen : PlannedAttempt d e claimed .skipRecord
      (run.writing (.recordCircuitOpen claimed) (.attempt d e claimed .skipDelivery))
  | failedOpen : PlannedAttempt d e claimed .skipDelivery
      (run.writing (.settleFailure d.id (d.attemptCount + 1) (isDead cfg (d.attemptCount + 1)))
        (.returned (failureResult (isDead cfg (d.attemptCount + 1)))))

/-- The steps of a run, one by one. -/
inductive Planned : Phase → Next → Prop
  | tenantKnown (t : Uuid) : run.tenantId = some t → Planned .tenant (run.goto .acquire)
  | tenantFound (t : Uuid) :
      Planned .tenant ⟨{ run with tenantId := some t, phase := .acquire }, .skip, .keep⟩
  | tenantMissing : Planned .tenant (run.goto .find)
  | acquired : Planned .acquire ⟨{ run with limited := true, phase := .find }, .skip, .keep⟩
  | notAcquired : Planned .acquire (run.goto .delay)
  | missing : db.deliveries.find? run.deliveryId = none →
      Planned .find (run.goto (.returned .skippedMissing))
  | done (d : DeliveryRow) : db.deliveries.find? run.deliveryId = some d →
      d.status.isDone = true → Planned .find (run.goto (.returned .skippedAlreadyDone))
  | found (d : DeliveryRow) : db.deliveries.find? run.deliveryId = some d →
      d.status.isDone = false → Planned .find (run.goto (.lookup d))
  | cached (d : DeliveryRow) (entry : CacheEntry) : cache d.endpointId = some entry →
      Planned (.lookup d) (run.goto (afterEndpoint d entry.value))
  | notCached (d : DeliveryRow) : Planned (.lookup d) (run.goto (.load d))
  | endpointMissing (d : DeliveryRow) : db.endpoints.find? d.endpointId = none →
      Planned (.load d) (run.goto (.returned .skippedMissing))
  | loaded (d : DeliveryRow) (e : EndpointRow) : db.endpoints.find? d.endpointId = some e →
      Planned (.load d) (run.goto (.store d ⟨e.url, cfg.decrypt e.secretEnc, e.status⟩))
  | stored (d : DeliveryRow) (e : EndpointConfig) : Planned (.store d e)
      ⟨{ run with phase := afterEndpoint d e }, .skip,
        .set d.endpointId ⟨e, jsDate now + cacheTtlMs⟩⟩
  | duplicate (d : DeliveryRow) (e : EndpointConfig) :
      db.attemptTaken d.id (d.attemptCount + 1) = true →
      Planned (.claim d e) (run.goto (.returned .skippedDuplicateClaim))
  | claimed (d : DeliveryRow) (e : EndpointConfig) (text : Text) :
      db.attemptTaken d.id (d.attemptCount + 1) = false → Planned (.claim d e)
        ⟨{ run with
            claimedNo := some (d.attemptCount + 1)
            phase := .attempt d e db.attempts.next .allow },
          .insertAttempt d.id (d.attemptCount + 1) text, .keep⟩
  | attempt (d : DeliveryRow) (e : EndpointConfig) (claimed : ℕ) (stage : Stage) (next : Next) :
      PlannedAttempt cfg run d e claimed stage next → Planned (.attempt d e claimed stage) next
  | retries : run.limited = true → Planned (.returned .failed) (run.goto .retryRead)
  | ends (res : ProcessResult) : ¬ (run.limited = true ∧ res = .failed) →
      Planned (.returned res) (run.goto (.finish .returned))
  | retryCounted (n : ℕ) : Planned .retryRead (run.goto (.retryWrite n))
  | retryScheduled (n : ℕ) (retryAt : Micros) : Planned (.retryWrite n)
      (run.writing (.scheduleRetry run.deliveryId retryAt) (.finish .retrySignal))

variable {cfg now db cache run} {i : Input} {next : Next}

theorem planAttempt_cases {d : DeliveryRow} {e : EndpointConfig} {claimed : ℕ} {stage : Stage}
    (h : planAttempt cfg run d e claimed stage i = some next) :
    PlannedAttempt cfg run d e claimed stage next := by
  unfold planAttempt at h
  split at h <;> simp only [Option.some.injEq, reduceCtorEq] at h <;> subst h <;> constructor

/-- **The inversion lemma**: `plan` gives one of these steps. -/
theorem plan_cases (h : plan cfg now db cache run i = some next) :
    Planned cfg now db cache run run.phase next := by
  unfold plan at h
  split at h
  · rename_i hp
    rw [hp]
    split at h
    · rename_i ht
      cases h
      exact .tenantKnown _ ht
    · split at h <;> cases h
      · exact .tenantFound _
      · exact .tenantMissing
  · rename_i hp
    rw [hp]
    cases h
    exact .acquired
  · rename_i hp
    rw [hp]
    cases h
    exact .notAcquired
  · rename_i hp
    rw [hp]
    split at h
    · rename_i hf
      cases h
      exact .missing hf
    · rename_i d hf
      split_ifs at h with hd <;> cases h
      · exact .done d hf hd
      · exact .found d hf (by simpa using hd)
  · rename_i d hp
    rw [hp]
    split at h
    · rename_i entry hc
      split_ifs at h <;> cases h
      · exact .cached d entry hc
      · exact .notCached d
    · cases h
      exact .notCached d
  · rename_i d hp
    rw [hp]
    split at h
    · rename_i hf
      cases h
      exact .endpointMissing d hf
    · rename_i e hf
      cases h
      exact .loaded d e hf
  · rename_i d e hp
    rw [hp]
    cases h
    exact .stored d e
  · rename_i d e text hp
    rw [hp]
    simp only at h
    split_ifs at h with ht <;> cases h
    · exact .duplicate d e ht
    · exact .claimed d e text (by simpa using ht)
  · rename_i d e claimed stage hp
    rw [hp]
    exact .attempt d e claimed stage next (planAttempt_cases h)
  · rename_i res hp
    rw [hp]
    split_ifs at h with hr <;> cases h
    · obtain ⟨hl, rfl⟩ := hr
      exact .retries hl
    · exact .ends res hr
  · rename_i hp
    rw [hp]
    cases h
    exact .retryCounted _
  · rename_i n ms hp
    rw [hp]
    cases h
    exact .retryScheduled n _
  · exact absurd h (by simp)

end Planned

end HookRelay
