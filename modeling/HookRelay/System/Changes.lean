import HookRelay.System.Steps

/-!
# What a step can do to deliveries, attempts, runs and caches

`Stepped` says once what each kind of step needs and what it makes of the state, and what the
invariants need to know about a step is read off it.  Most steps leave the deliveries, their
attempts and the runs alone: `Change` says what is left, and `step_change` that every step is
one of these.  The invariants of delivery are derived from it.

* `Wf` — runs are numbered in order, and the row a run carries is its delivery's.
* `step_wf`, `path_wf` — every reachable state is well-formed.
* `step_fixed` — a delivery stays, with its event and its endpoint.
-/

namespace HookRelay

open Lib

/-- The copy of the delivery's row that a run carries with it. -/
def Phase.row? : Phase → Option DeliveryRow
  | .lookup d => some d
  | .load d => some d
  | .store d _ => some d
  | .claim d _ => some d
  | .attempt d _ _ _ => some d
  | _ => none

theorem row?_afterEndpoint {d row : DeliveryRow} {e : EndpointConfig}
    (h : (afterEndpoint d e).row? = some row) : d = row := by
  unfold afterEndpoint at h
  split_ifs at h
  · simpa [Phase.row?] using h
  · exact absurd h (by simp [Phase.row?])

/-- A step of a run does not change what the run is about. -/
theorem Planned.deliveryId_eq {cfg : WorkerConfig} {now : Micros} {db : Database}
    {cache : EndpointCache} {run : Run}
    {p : Phase} {next : Next} (h : Planned cfg now db cache run p next) :
    next.run.deliveryId = run.deliveryId ∧ next.run.jobId = run.jobId ∧
      next.run.worker = run.worker := by
  cases h with
  | attempt d e claimed stage _ ha => cases ha <;> exact ⟨rfl, rfl, rfl⟩
  | _ => exact ⟨rfl, rfl, rfl⟩

/-- The row a run carries after a step is the one it carried before, or was just read. -/
theorem Planned.row_id {cfg : WorkerConfig} {now : Micros} {db : Database}
    {cache : EndpointCache} {run : Run}
    {p : Phase} {next : Next} {row : DeliveryRow} (h : Planned cfg now db cache run p next)
    (hrow : next.run.phase.row? = some row) :
    p.row? = some row ∨ db.deliveries.find? run.deliveryId = some row := by
  cases h with
  | found d hd _ =>
      cases hrow
      exact .inr hd
  | cached d entry _ => exact .inl (congrArg some (row?_afterEndpoint hrow))
  | stored d e => exact .inl (congrArg some (row?_afterEndpoint hrow))
  | attempt d e claimed stage _ ha => cases ha <;> first | exact .inl hrow | cases hrow
  | _ => first | exact .inl hrow | cases hrow

/-- The endpoint and the event of the delivery belong to the same tenant. -/
def Database.SameTenant (db : Database) (d : DeliveryRow) : Prop :=
  ∃ ep e, db.endpoints.find? d.endpointId = some ep ∧ db.events.find? d.eventId = some e ∧
    ep.tenantId = e.tenantId

namespace System

variable {cfg : WorkerConfig} {s s' : State} {a : Action}

/-- The steps, with what each needs and what it makes of the state. -/
inductive Stepped (cfg : WorkerConfig) (s : State) : Action → State → Prop
  | clock (us : ℕ) : Stepped cfg s (.clock us) { s with now := s.now + us }
  | createEndpoint (e : EndpointRow) (endpoints : Table Uuid EndpointRow EndpointRow.id) :
      s.db.urlTaken e.tenantId e.url none = false → s.db.endpoints.insert? e = some endpoints →
      Stepped cfg s (.createEndpoint e) { s with db := { s.db with endpoints := endpoints } }
  | updateEndpoint (id : Uuid) (url : Option Text) (description : Option (Option Text))
      (status : Option EndpointStatus) (e : EndpointRow) : s.db.endpoints.find? id = some e →
      s.db.urlTaken e.tenantId (url.getD e.url) (some id) = false →
      Stepped cfg s (.updateEndpoint id url description status) { s with db := { s.db with
        endpoints := s.db.endpoints.modify id
          (EndpointsService.updateData s.now url description status)
          (EndpointsService.updateData_id s.now url description status) } }
  | setSubscriptions (endpointId : Uuid) (eventTypes : List Text) (e : EndpointRow) :
      s.db.endpoints.find? endpointId = some e →
      Stepped cfg s (.setSubscriptions endpointId eventTypes)
        { s with db := s.db.setSubscriptionsTx endpointId eventTypes }
  | publish (e : EventRow) (targets : List (Uuid × Uuid)) (outboxId : ℕ) (db : Database) :
      (∀ t ∈ targets, ∃ ep ∈ s.db.endpoints.find? t.2, ep.tenantId = e.tenantId) →
      s.db.publishTx s.now e (targets.map fun t => Database.newDelivery s.now t.1 e.id t.2)
        outboxId = some db → Stepped cfg s (.publish e targets outboxId) { s with db := db }
  | ping (e : EventRow) (deliveryId endpointId : Uuid) (outboxId : ℕ) (db : Database) :
      (∃ ep ∈ s.db.endpoints.find? endpointId, ep.tenantId = e.tenantId) →
      s.db.pingTx s.now e deliveryId endpointId outboxId = some db →
      Stepped cfg s (.ping e deliveryId endpointId outboxId) { s with db := db }
  | redeliver (tenantId deliveryId : Uuid) (outboxId : ℕ) (d : DeliveryRow) (db : Database) :
      s.db.deliveries.find? deliveryId = some d →
      (∃ e ∈ s.db.events.find? d.eventId, e.tenantId = tenantId) →
      s.db.redeliverTx s.now d outboxId = some db →
      Stepped cfg s (.redeliver tenantId deliveryId outboxId) { s with db := db }
  | tickRead (k n : ℕ) : s.ticks k = none → Stepped cfg s (.tickRead k n)
      { s with ticks := Function.update s.ticks k (some ⟨readBatch s.db n, []⟩) }
  | tickAdd (k : ℕ) (m : Message) (ms : List Message) (published : List ℕ) :
      s.ticks k = some ⟨m :: ms, published⟩ → Stepped cfg s (.tickAdd k)
        { addJobs s m.id (jobsOf cfg.maxAttempts m) with
          ticks := Function.update s.ticks k (some ⟨ms, published ++ [m.id]⟩) }
  | tickFail (k : ℕ) (mask : List Bool) (m : Message) (ms : List Message) (published : List ℕ) :
      s.ticks k = some ⟨m :: ms, published⟩ → Stepped cfg s (.tickFail k mask)
        { addJobs s m.id (addedBeforeFailure mask (jobsOf cfg.maxAttempts m)) with
          ticks := Function.update s.ticks k (some ⟨[], published⟩) }
  | tickMark (k : ℕ) (published : List ℕ) : s.ticks k = some ⟨[], published⟩ →
      Stepped cfg s (.tickMark k) { s with
        db := markPublished s.db s.now published
        ticks := Function.update s.ticks k none }
  | tickCrash (k : ℕ) :
      Stepped cfg s (.tickCrash k) { s with ticks := Function.update s.ticks k none }
  | take (w : ℕ) (jobId : Text) (j : Job) : s.queue.find? jobId = some j → j.lock = none →
      Stepped cfg s (.take w jobId) { s with
        queue := s.queue.hand jobId s.nextRun
        runs := Function.update s.runs s.nextRun
          (some ⟨jobId, j.deliveryId, j.tenantId, w, false, none, .tenant⟩)
        nextRun := s.nextRun + 1 }
  /-- A run makes a planned step. -/
  | planned (r : ℕ) (i : Input) (run : Run) (next : Next) : s.runs r = some run →
      Planned cfg s.now s.db (s.cache run.worker) run run.phase next →
      Stepped cfg s (.run r i) (applyNext s r run next)
  /-- A run lets go of its job. -/
  | left (r : ℕ) (i : Input) (run : Run) (s' : State) : s.runs r = some run →
      letGo s r run = some s' → Stepped cfg s (.run r i) s'
  | threw (r : ℕ) (run : Run) : s.runs r = some run → run.phase.isFinish = false →
      Stepped cfg s (.throw r) (setRun s r (some { run with phase := .finish .threw }))
  | crashed (r : ℕ) (run : Run) : s.runs r = some run →
      Stepped cfg s (.crash r) (setRun s r none)
  | unlock (jobId : Text) :
      Stepped cfg s (.unlock jobId) { s with queue := s.queue.unlock jobId }
  | discard (jobId : Text) :
      Stepped cfg s (.discard jobId) { s with queue := s.queue.remove jobId }

/-- **Every step is one of these.** -/
theorem stepped_of_step (h : step cfg s a = some s') : Stepped cfg s a s' := by
  cases a with
  | clock us =>
      cases h
      exact .clock us
  | createEndpoint e =>
      simp only [step] at h
      split_ifs at h with htaken
      obtain ⟨endpoints, hins, rfl⟩ := Option.map_eq_some_iff.1 h
      exact .createEndpoint e endpoints (by simpa using htaken) hins
  | updateEndpoint id url description status =>
      simp only [step] at h
      split at h
      · cases h
      · rename_i e he
        split_ifs at h with htaken
        cases h
        exact .updateEndpoint id url description status e he (by simpa using htaken)
  | setSubscriptions endpointId eventTypes =>
      simp only [step] at h
      split at h
      · cases h
      · rename_i e he
        cases h
        exact .setSubscriptions endpointId eventTypes e he
  | publish e targets outboxId =>
      simp only [step] at h
      split_ifs at h with htargets
      obtain ⟨db, hdb, rfl⟩ := Option.map_eq_some_iff.1 h
      exact .publish e targets outboxId db htargets hdb
  | ping e deliveryId endpointId outboxId =>
      simp only [step] at h
      split_ifs at h with htarget
      obtain ⟨db, hdb, rfl⟩ := Option.map_eq_some_iff.1 h
      exact .ping e deliveryId endpointId outboxId db htarget hdb
  | redeliver tenantId deliveryId outboxId =>
      simp only [step] at h
      split at h
      · cases h
      · rename_i d hd
        split_ifs at h with hevent
        obtain ⟨db, hdb, rfl⟩ := Option.map_eq_some_iff.1 h
        exact .redeliver tenantId deliveryId outboxId d db hd hevent hdb
  | tickRead k n =>
      simp only [step] at h
      split at h
      · cases h
      · rename_i hk
        cases h
        exact .tickRead k n hk
  | tickAdd k =>
      simp only [step] at h
      split at h
      · rename_i m ms published hk
        cases h
        exact .tickAdd k m ms published hk
      · cases h
  | tickFail k mask =>
      simp only [step] at h
      split at h
      · rename_i m ms published hk
        cases h
        exact .tickFail k mask m ms published hk
      · cases h
  | tickMark k =>
      simp only [step] at h
      split at h
      · rename_i published hk
        cases h
        exact .tickMark k published hk
      · cases h
  | tickCrash k =>
      cases h
      exact .tickCrash k
  | take w jobId =>
      simp only [step] at h
      split at h
      · rename_i j hj
        split_ifs at h with hlock
        cases h
        exact .take w jobId j hj hlock
      · cases h
  | run r i =>
      simp only [step, stepRun] at h
      split at h
      · cases h
      · rename_i run hrun
        split at h
        · rename_i s₁ hs₁
          cases h
          exact .left r i run s' hrun hs₁
        · obtain ⟨next, hnext, rfl⟩ := Option.map_eq_some_iff.1 h
          exact .planned r i run next hrun (plan_cases hnext)
  | throw r =>
      simp only [step] at h
      split at h
      · rename_i run hrun
        split_ifs at h with hfin
        cases h
        exact .threw r run hrun (by simpa using hfin)
      · cases h
  | crash r =>
      simp only [step] at h
      split at h
      · rename_i run hrun
        cases h
        exact .crashed r run hrun
      · cases h
  | unlock jobId =>
      cases h
      exact .unlock jobId
  | discard jobId =>
      cases h
      exact .discard jobId

/-- The steps, by what they do to deliveries, attempts and runs. -/
inductive Change (cfg : WorkerConfig) (s s' : State) : Action → Prop
  /-- Nothing. -/
  | outside {a : Action} : s'.db.deliveries = s.db.deliveries →
      s'.db.attempts = s.db.attempts → s'.runs = s.runs → s'.nextRun = s.nextRun →
      s'.sent = s.sent → s'.cache = s.cache → Change cfg s s' a
  /-- New deliveries. -/
  | reserved {a : Action} (ds : List DeliveryRow) :
      (∀ d ∈ ds, s.db.deliveries.find? d.id = none ∧ d.status = .pending ∧ d.attemptCount = 0 ∧
        d.nextRetryAt = none) →
      s'.db.deliveries.rows = s.db.deliveries.rows ++ ds → s'.db.attempts = s.db.attempts →
      s'.runs = s.runs → s'.nextRun = s.nextRun → s'.sent = s.sent → s'.cache = s.cache →
      (∀ d ∈ ds, s'.db.SameTenant d) → Change cfg s s' a
  /-- A delivery is to be made again. -/
  | reopened (tenantId deliveryId : Uuid) (outboxId : ℕ) (d : DeliveryRow) :
      s.db.deliveries.find? deliveryId = some d →
      s'.db.deliveries = s.db.deliveries.modify d.id (Database.reopen s.now) (Database.reopen_id s.now) →
      s'.db.attempts = s.db.attempts → s'.runs = s.runs → s'.nextRun = s.nextRun →
      s'.sent = s.sent → s'.cache = s.cache →
      Change cfg s s' (.redeliver tenantId deliveryId outboxId)
  /-- A run starts. -/
  | started (w : ℕ) (jobId : Text) (j : Job) : s.queue.find? jobId = some j → j.lock = none →
      s' = { s with
        queue := s.queue.hand jobId s.nextRun
        runs := Function.update s.runs s.nextRun
          (some ⟨jobId, j.deliveryId, j.tenantId, w, false, none, .tenant⟩)
        nextRun := s.nextRun + 1 } → Change cfg s s' (.take w jobId)
  /-- A run makes a step. -/
  | planned (r : ℕ) (i : Input) (run : Run) (next : Next) : s.runs r = some run →
      Planned cfg s.now s.db (s.cache run.worker) run run.phase next →
      s' = applyNext s r run next → Change cfg s s' (.run r i)
  /-- A run lets go of its job. -/
  | left (r : ℕ) (i : Input) (run : Run) : s.runs r = some run → letGo s r run = some s' →
      Change cfg s s' (.run r i)
  /-- The awaited call of a run throws. -/
  | threw (r : ℕ) (run : Run) : s.runs r = some run → run.phase.isFinish = false →
      s' = setRun s r (some { run with phase := .finish .threw }) → Change cfg s s' (.throw r)
  /-- A run is cut off. -/
  | crashed (r : ℕ) (run : Run) : s.runs r = some run → s' = setRun s r none →
      Change cfg s s' (.crash r)

theorem addJobs_frame (outboxId : ℕ) (jobs : List Job) (s : State) :
    ∃ queue accepted, addJobs s outboxId jobs = { s with queue := queue, accepted := accepted } := by
  induction jobs generalizing s with
  | nil => exact ⟨s.queue, s.accepted, rfl⟩
  | cons j js ih =>
      unfold addJobs
      cases s.queue.insert? j with
      | none => exact ih s
      | some queue => exact ih _

/-- A new event is found in the table. -/
theorem find?_inserted {db db' : Database} {e : EventRow}
    (hrows : db'.events.rows = db.events.rows ++ [e]) : db'.events.find? e.id = some e := by
  refine Table.find?_eq_some_iff.2 ⟨?_, rfl⟩
  rw [Table.mem_def, hrows]
  exact List.mem_append_right _ (List.mem_singleton_self e)

/-- A run starts when a job without a lock is handed out. -/
theorem take_eq_some {w : ℕ} {jobId : Text} (h : step cfg s (.take w jobId) = some s') :
    ∃ j, s.queue.find? jobId = some j ∧ j.lock = none ∧ s' = { s with
      queue := s.queue.hand jobId s.nextRun
      runs := Function.update s.runs s.nextRun
        (some ⟨jobId, j.deliveryId, j.tenantId, w, false, none, .tenant⟩)
      nextRun := s.nextRun + 1 } := by
  cases stepped_of_step h with
  | take _ _ j hj hlock => exact ⟨j, hj, hlock, rfl⟩

/-- A run lets go of its job, or makes a planned step. -/
theorem run_eq_some {r : ℕ} {i : Input} (h : step cfg s (.run r i) = some s') :
    ∃ run, s.runs r = some run ∧ (letGo s r run = some s' ∨ ∃ next,
      Planned cfg s.now s.db (s.cache run.worker) run run.phase next ∧
      s' = applyNext s r run next) := by
  cases stepped_of_step h with
  | left _ _ run _ hrun hgo => exact ⟨run, hrun, .inl hgo⟩
  | planned _ _ run next hrun hp => exact ⟨run, hrun, .inr ⟨next, hp, rfl⟩⟩

/-- **Every step is one of these.** -/
theorem step_change (h : step cfg s a = some s') : Change cfg s s' a := by
  cases stepped_of_step h with
  | clock | createEndpoint | updateEndpoint | setSubscriptions | tickRead | tickMark | tickCrash
  | unlock | discard => exact .outside rfl rfl rfl rfl rfl rfl
  | publish e targets outboxId db htargets hdb =>
      obtain ⟨-, -, hfresh, hevents, hrows, -, hep, -, hatt⟩ := Database.publishTx_eq_some hdb
      refine .reserved _ (fun d hd => ?_) hrows hatt rfl rfl rfl rfl (fun d hd => ?_)
      · obtain ⟨t, -, rfl⟩ := List.mem_map.1 hd
        exact ⟨hfresh _ hd, rfl, rfl, rfl⟩
      · obtain ⟨t, ht, rfl⟩ := List.mem_map.1 hd
        obtain ⟨ep, hfind, htenant⟩ := htargets t ht
        exact ⟨ep, e, hep ▸ hfind, find?_inserted hevents, htenant⟩
  | ping e deliveryId endpointId outboxId db htarget hdb =>
      obtain ⟨-, -, hfresh, -, hevents, hrows, -, hep, -, hatt⟩ := Database.pingTx_eq_some hdb
      refine .reserved _ (fun d hd => ?_) hrows hatt rfl rfl rfl rfl (fun d hd => ?_)
      · rw [List.mem_singleton] at hd
        subst hd
        exact ⟨hfresh, rfl, rfl, rfl⟩
      · rw [List.mem_singleton] at hd
        subst hd
        obtain ⟨ep, hfind, htenant⟩ := htarget
        exact ⟨ep, e, hep ▸ hfind, find?_inserted hevents, htenant⟩
  | redeliver tenantId deliveryId outboxId d db hd _ hdb =>
      obtain ⟨-, hdel, -, -, -, -, hatt⟩ := Database.redeliverTx_eq_some hdb
      exact .reopened tenantId deliveryId outboxId d hd hdel hatt rfl rfl rfl rfl
  | tickAdd k m ms published =>
      obtain ⟨queue, accepted, heq⟩ := addJobs_frame m.id (jobsOf cfg.maxAttempts m) s
      rw [heq]
      exact .outside rfl rfl rfl rfl rfl rfl
  | tickFail k mask m ms published =>
      obtain ⟨queue, accepted, heq⟩ :=
        addJobs_frame m.id (addedBeforeFailure mask (jobsOf cfg.maxAttempts m)) s
      rw [heq]
      exact .outside rfl rfl rfl rfl rfl rfl
  | take w jobId j hj hlock => exact .started w jobId j hj hlock rfl
  | planned r i run next hrun hp => exact .planned r i run next hrun hp rfl
  | left r i run _ hrun hgo => exact .left r i run hrun hgo
  | threw r run hrun hfin => exact .threw r run hrun hfin rfl
  | crashed r run hrun => exact .crashed r run hrun rfl

/-- What letting go leaves of the state. -/
theorem letGo_eq_some {r : ℕ} {run : Run} (h : letGo s r run = some s') :
    (run.phase = .delay ∨ ∃ ending, run.phase = .finish ending) ∧
    ∃ queue, s' = { setRun s r none with queue := queue } := by
  unfold letGo at h
  split at h
  · rename_i hp
    cases h
    exact ⟨.inl hp, _, rfl⟩
  · rename_i hp
    cases h
    exact ⟨.inr ⟨_, hp⟩, _, rfl⟩
  · rename_i ending _ hp
    cases h
    exact ⟨.inr ⟨ending, hp⟩, _, rfl⟩
  · exact absurd h (by simp)

/-- What letting go does to the queue. -/
theorem letGo_queue {r : ℕ} {run : Run} (h : letGo s r run = some s') :
    (run.phase = .delay ∧ s'.queue = s.queue.release run.jobId r) ∨
    (run.phase = .finish .returned ∧ s'.queue = s.queue.complete run.jobId r) ∨
    ∃ ending, ending ≠ .returned ∧ run.phase = .finish ending ∧
      s'.queue = s.queue.fail run.jobId r := by
  unfold letGo at h
  split at h
  · rename_i hp
    cases h
    exact .inl ⟨hp, rfl⟩
  · rename_i hp
    cases h
    exact .inr (.inl ⟨hp, rfl⟩)
  · rename_i ending hne hp
    cases h
    exact .inr (.inr ⟨ending, hne, hp, rfl⟩)
  · cases h

/-! ## Well-formed states -/

/-- Runs are numbered in order; the row a run carries is its delivery's. -/
structure Wf (s : State) : Prop where
  fresh : ∀ r, s.nextRun ≤ r → s.runs r = none
  row_id : ∀ r run row, s.runs r = some run → run.phase.row? = some row →
    row.id = run.deliveryId

theorem Wf.lt_nextRun (h : Wf s) {r : ℕ} {run : Run} (hr : s.runs r = some run) :
    r < s.nextRun := by
  by_contra hge
  rw [h.fresh r (by omega)] at hr
  exact absurd hr (by simp)

theorem Wf.setRun (h : Wf s) {r : ℕ} {run : Run} {new : Option Run} (hr : s.runs r = some run)
    (hnew : ∀ run' row, new = some run' → run'.phase.row? = some row → row.id = run'.deliveryId)
    (hs : s'.runs = Function.update s.runs r new) (hn : s'.nextRun = s.nextRun) : Wf s' := by
  have hlt := h.lt_nextRun hr
  constructor
  · intro r' hr'
    rw [hn] at hr'
    rw [hs, Function.update_of_ne (by omega)]
    exact h.fresh r' hr'
  · intro r' run' row hrun' hrow
    rw [hs] at hrun'
    by_cases hrr : r' = r
    · subst hrr
      rw [Function.update_self] at hrun'
      exact hnew run' row hrun' hrow
    · rw [Function.update_of_ne hrr] at hrun'
      exact h.row_id r' run' row hrun' hrow

theorem step_wf (h : Wf s) (hs : step cfg s a = some s') : Wf s' := by
  cases step_change hs with
  | outside _ _ hr hn _ _ => exact ⟨by rw [hr, hn]; exact h.fresh, by rw [hr]; exact h.row_id⟩
  | reserved _ _ _ _ hr hn _ _ _ => exact ⟨by rw [hr, hn]; exact h.fresh, by rw [hr]; exact h.row_id⟩
  | reopened _ _ _ _ _ _ _ hr hn _ _ =>
      exact ⟨by rw [hr, hn]; exact h.fresh, by rw [hr]; exact h.row_id⟩
  | started w jobId j _ _ heq =>
      subst heq
      constructor
      · intro r hr
        simp only at hr ⊢
        rw [Function.update_of_ne (by omega)]
        exact h.fresh r (by omega)
      · intro r run row hrun hrow
        simp only at hrun
        by_cases hrr : r = s.nextRun
        · subst hrr
          rw [Function.update_self, Option.some.injEq] at hrun
          subst hrun
          cases hrow
        · rw [Function.update_of_ne hrr] at hrun
          exact h.row_id r run row hrun hrow
  | planned r i run next hrun hp heq =>
      subst heq
      refine h.setRun hrun (fun run' row hrun' hrow => ?_) rfl rfl
      cases hrun'
      rw [hp.deliveryId_eq.1]
      rcases hp.row_id hrow with hrow | hfind
      · exact h.row_id r run row hrun hrow
      · exact (Table.find?_eq_some_iff.1 hfind).2
  | left r i run hrun hgo =>
      obtain ⟨-, queue, rfl⟩ := letGo_eq_some hgo
      exact h.setRun hrun (fun run' row hrun' => by cases hrun') rfl rfl
  | threw r run hrun _ heq =>
      subst heq
      refine h.setRun hrun (fun run' row hrun' hrow => ?_) rfl rfl
      cases hrun'
      cases hrow
  | crashed r run hrun heq =>
      subst heq
      exact h.setRun hrun (fun run' row hrun' => by cases hrun') rfl rfl

theorem wf_init : Wf init :=
  ⟨fun _ _ => rfl, fun _ _ _ h => by cases h⟩

theorem path_wf {P : State → Action → Prop} (h : Path (step cfg) P init s) : Wf s :=
  h.invariant (fun _ _ _ hI _ hs => step_wf hI hs) wf_init

theorem step_nextRun (hs : step cfg s a = some s') : s.nextRun ≤ s'.nextRun := by
  cases step_change hs with
  | outside _ _ _ hn _ _ => exact hn.ge
  | reserved _ _ _ _ _ hn _ _ _ => exact hn.ge
  | reopened _ _ _ _ _ _ _ _ hn _ _ => exact hn.ge
  | started _ _ _ _ _ heq => subst heq; exact Nat.le_succ _
  | planned _ _ _ _ _ _ heq => subst heq; exact le_refl _
  | left _ _ _ _ hgo =>
      obtain ⟨-, queue, rfl⟩ := letGo_eq_some hgo
      exact le_refl _
  | threw _ _ _ _ heq => subst heq; exact le_refl _
  | crashed _ _ _ heq => subst heq; exact le_refl _

/-- What a step can do to a run that has been started: nothing, a step of its own, or an
error. -/
theorem runs_cases {r : ℕ} {run' : Run} (hlt : r < s.nextRun) (hs : step cfg s a = some s')
    (h : s'.runs r = some run') :
    s.runs r = some run' ∨
    (∃ i run next, a = .run r i ∧ s.runs r = some run ∧
      Planned cfg s.now s.db (s.cache run.worker) run run.phase next ∧
      s' = applyNext s r run next ∧ run' = next.run) ∨
    ∃ run, a = .throw r ∧ s.runs r = some run ∧ run' = { run with phase := .finish .threw } ∧
      s' = setRun s r (some run') := by
  have other : ∀ {k : ℕ} {new : Option Run}, s'.runs = Function.update s.runs k new → r ≠ k →
      s.runs r = some run' := by
    intro k new hupd hr
    rwa [hupd, Function.update_of_ne hr] at h
  have own : ∀ new : Option Run, s'.runs = Function.update s.runs r new → new = some run' := by
    intro new hupd
    rwa [hupd, Function.update_self] at h
  cases step_change hs with
  | outside _ _ hr _ _ _ => exact .inl (hr ▸ h)
  | reserved _ _ _ _ hr _ _ _ _ => exact .inl (hr ▸ h)
  | reopened _ _ _ _ _ _ _ hr _ _ _ => exact .inl (hr ▸ h)
  | started w jobId j hj _ heq =>
      subst heq
      exact .inl (other rfl (Nat.ne_of_lt hlt))
  | planned k i run next hk hp heq =>
      subst heq
      by_cases hr : r = k
      · subst hr
        exact .inr (.inl ⟨i, run, next, rfl, hk, hp, rfl, (Option.some.inj (own _ rfl)).symm⟩)
      · exact .inl (other rfl hr)
  | left k i run hk hgo =>
      obtain ⟨-, queue, rfl⟩ := letGo_eq_some hgo
      by_cases hr : r = k
      · subst hr
        cases own none rfl
      · exact .inl (other rfl hr)
  | threw k run hk _ heq =>
      subst heq
      by_cases hr : r = k
      · subst hr
        obtain rfl := Option.some.inj (own _ rfl)
        exact .inr (.inr ⟨run, rfl, hk, rfl, rfl⟩)
      · exact .inl (other rfl hr)
  | crashed k run hk heq =>
      subst heq
      by_cases hr : r = k
      · subst hr
        cases own none rfl
      · exact .inl (other rfl hr)

/-! ## What never changes about a delivery -/

theorem exec_fixed {now : Micros} {db : Database} {d : Uuid} {row : DeliveryRow} (w : Write)
    (h : db.deliveries.find? d = some row) : ∃ row', (w.exec now db).deliveries.find? d = some row' ∧
      row'.eventId = row.eventId ∧ row'.endpointId = row.endpointId := by
  have modified : ∀ {k : Uuid} {f : DeliveryRow → DeliveryRow} (hf : ∀ x, (f x).id = x.id),
      (∀ x, (f x).eventId = x.eventId ∧ (f x).endpointId = x.endpointId) →
      ∃ row', (db.deliveries.modify k f hf).find? d = some row' ∧
        row'.eventId = row.eventId ∧ row'.endpointId = row.endpointId := by
    intro k f hf hsame
    rw [Table.find?_modify]
    split_ifs with hd
    · rw [← hd, h]
      exact ⟨f row, rfl, hsame row⟩
    · exact ⟨row, h, rfl, rfl⟩
  cases w with
  | settleSuccess k n => exact modified (Write.succeededData_id now n) fun _ => ⟨rfl, rfl⟩
  | settleFailure k n dead => exact modified (Write.failedData_id now n dead) fun _ => ⟨rfl, rfl⟩
  | scheduleRetry k retryAt => exact modified (Write.retryData_id now retryAt) fun _ => ⟨rfl, rfl⟩
  | _ => exact ⟨row, h, rfl, rfl⟩

/-- A delivery stays in the table, with its event and its endpoint. -/
theorem step_fixed {d : Uuid} {row : DeliveryRow} (hs : step cfg s a = some s')
    (h : s.db.deliveries.find? d = some row) : ∃ row', s'.db.deliveries.find? d = some row' ∧
      row'.eventId = row.eventId ∧ row'.endpointId = row.endpointId := by
  cases step_change hs with
  | outside hd _ _ _ _ _ => exact ⟨row, hd ▸ h, rfl, rfl⟩
  | reserved ds _ hrows _ _ _ _ _ _ =>
      refine ⟨row, ?_, rfl, rfl⟩
      unfold Table.find? at h ⊢
      rw [hrows, List.find?_append, h]
      rfl
  | reopened tenantId deliveryId outboxId x hx hdel _ _ _ _ _ =>
      rw [hdel, Table.find?_modify]
      split_ifs with hd
      · rw [← hd, h]
        exact ⟨_, rfl, rfl, rfl⟩
      · exact ⟨row, h, rfl, rfl⟩
  | started _ _ _ _ _ heq => exact ⟨row, heq ▸ h, rfl, rfl⟩
  | planned r i run next _ _ heq =>
      subst heq
      exact exec_fixed next.write h
  | left r i run _ hgo =>
      obtain ⟨-, queue, rfl⟩ := letGo_eq_some hgo
      exact ⟨row, h, rfl, rfl⟩
  | threw _ _ _ _ heq => exact ⟨row, heq ▸ h, rfl, rfl⟩
  | crashed _ _ _ heq => exact ⟨row, heq ▸ h, rfl, rfl⟩

end System
end HookRelay
