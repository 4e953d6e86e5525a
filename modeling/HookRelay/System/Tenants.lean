import HookRelay.System.Outbox

/-!
# Deliveries do not cross tenants

A delivery is made for an endpoint of the event's own tenant, and neither its event, nor
its endpoint, nor their tenants ever change.

* `step_endpoints`, `Flow.extends` — endpoints and events keep their tenants.
* `path_sameTenant` — in every reachable state the endpoint and the event of a delivery
  exist and belong to the same tenant.
* `Database.Sound`, `path_soundDb` — in every reachable state every row has the rows it
  refers to.
-/

namespace HookRelay

open Lib

/-- An endpoint keeps its tenant when rows are updated. -/
theorem find?_modify_tenant {t : Table Uuid EndpointRow EndpointRow.id} {k k' : Uuid}
    {f : EndpointRow → EndpointRow} {e : EndpointRow} (hf : ∀ x, (f x).id = x.id)
    (htenant : ∀ x, (f x).tenantId = x.tenantId) (h : t.find? k = some e) :
    ∃ e', (t.modify k' f hf).find? k = some e' ∧ e'.tenantId = e.tenantId := by
  rw [Table.find?_modify]
  split_ifs with hk
  · rw [← hk, h]
    exact ⟨f e, rfl, htenant e⟩
  · exact ⟨e, h, rfl⟩

theorem Write.exec_endpoints {now : Micros} {db : Database} {k : Uuid} {e : EndpointRow} (w : Write)
    (h : db.endpoints.find? k = some e) :
    ∃ e', (w.exec now db).endpoints.find? k = some e' ∧ e'.tenantId = e.tenantId := by
  cases w with
  | resetFailures k' => exact find?_modify_tenant (Write.resetData_id now) (fun _ => rfl) h
  | countFailure k' disable =>
      exact find?_modify_tenant (Write.countedFailure_id now disable) (fun _ => rfl) h
  | _ => exact ⟨e, h, rfl⟩

/-- The statements of a run leave the subscriptions alone. -/
theorem Write.exec_subscriptions (now : Micros) (db : Database) (w : Write) :
    (w.exec now db).subscriptions = db.subscriptions := by
  cases w <;> rfl

/-- An attempt was there before, or is the one inserted. -/
theorem Write.mem_exec_attempts {now : Micros} {db : Database} {w : Write} {a : AttemptRow}
    (h : a ∈ (w.exec now db).attempts.rows) :
    (∃ a₀ ∈ db.attempts.rows, a.deliveryId = a₀.deliveryId) ∨
      ∃ n text, w = .insertAttempt a.deliveryId n text := by
  have modified : ∀ {k : ℕ} {f : AttemptRow → AttemptRow} (hf : ∀ x, (f x).id = x.id),
      (∀ x, (f x).deliveryId = x.deliveryId) → a ∈ (db.attempts.modify k f hf).rows →
      ∃ a₀ ∈ db.attempts.rows, a.deliveryId = a₀.deliveryId := by
    intro k f hf hd ha
    obtain ⟨x, hx, rfl⟩ := List.mem_map.1 ha
    refine ⟨x, hx, ?_⟩
    split_ifs
    · exact hd x
    · rfl
  cases w with
  | insertAttempt d n text =>
      rcases List.mem_append.1 h with h | h
      · exact .inl ⟨a, h, rfl⟩
      · rw [List.mem_singleton] at h
        subst h
        exact .inr ⟨n, text, rfl⟩
  | recordOutcome id o =>
      exact .inl (modified (outcomeData_id o) (fun x => by cases o <;> rfl) h)
  | recordCircuitOpen id => exact .inl (modified circuitOpenData_id (fun _ => rfl) h)
  | _ => exact .inl ⟨a, h, rfl⟩

/-- A run claims an attempt for the delivery whose row it has read. -/
theorem Planned.insertAttempt {cfg : WorkerConfig} {now : Micros} {db : Database}
    {cache : EndpointCache} {run : Run} {p : Phase} {next : Next} {d : Uuid} {n : ℕ} {text : Text}
    (h : Planned cfg now db cache run p next) (hw : next.write = .insertAttempt d n text) :
    ∃ x, p.row? = some x ∧ x.id = d := by
  cases h with
  | claimed x e t _ =>
      cases hw
      exact ⟨x, rfl, rfl⟩
  | attempt x e claimed stage _ ha => cases ha <;> cases hw
  | _ => cases hw

namespace System

variable {cfg : WorkerConfig} {s s' : State} {a : Action}

/-- Every endpoint is there afterwards, with its tenant. -/
def KeepsEndpoints (db db' : Database) : Prop :=
  ∀ k e, db.endpoints.find? k = some e →
    ∃ e', db'.endpoints.find? k = some e' ∧ e'.tenantId = e.tenantId

/-- Endpoints stay, with their tenants, and new subscriptions are for endpoints there are. -/
theorem step_endpoints (hs : step cfg s a = some s') : KeepsEndpoints s.db s'.db ∧
    ∀ row ∈ s'.db.subscriptions.rows, row ∈ s.db.subscriptions.rows ∨
      ∃ e, s.db.endpoints.find? row.endpointId = some e := by
  have same : s'.db.endpoints = s.db.endpoints → s'.db.subscriptions = s.db.subscriptions →
      KeepsEndpoints s.db s'.db ∧ ∀ row ∈ s'.db.subscriptions.rows,
        row ∈ s.db.subscriptions.rows ∨ ∃ e, s.db.endpoints.find? row.endpointId = some e :=
    fun hep hsub => ⟨fun k e h => ⟨e, hep ▸ h, rfl⟩, fun row hrow => .inl (hsub ▸ hrow)⟩
  cases stepped_of_step hs with
  | createEndpoint e₁ endpoints _ hins =>
      refine ⟨fun k e h => ⟨e, ?_, rfl⟩, fun row hrow => .inl hrow⟩
      have hne : e₁.id ≠ k := by
        rintro rfl
        rw [(Table.insert?_eq_some_iff.1 hins).1] at h
        cases h
      rw [Table.find?_insert? hins, if_neg hne, h]
  | updateEndpoint id url description status =>
      exact ⟨fun k e h => find?_modify_tenant
        (EndpointsService.updateData_id s.now url description status) (fun _ => rfl) h,
        fun row hrow => .inl hrow⟩
  | setSubscriptions endpointId eventTypes e he =>
      refine ⟨fun k e h => ⟨e, h, rfl⟩, fun row hrow => ?_⟩
      rcases Database.mem_setSubscriptionsTx hrow with hrow | hnew
      · exact .inl hrow
      · exact .inr ⟨e, hnew ▸ he⟩
  | publish e₁ targets outboxId db _ hdb =>
      obtain ⟨-, -, -, -, -, -, hep, hsub, -⟩ := Database.publishTx_eq_some hdb
      exact same hep hsub
  | ping e₁ deliveryId endpointId outboxId db _ hdb =>
      obtain ⟨-, -, -, -, -, -, -, hep, hsub, -⟩ := Database.pingTx_eq_some hdb
      exact same hep hsub
  | redeliver tenantId deliveryId outboxId d db _ _ hdb =>
      obtain ⟨-, -, -, -, hep, hsub, -⟩ := Database.redeliverTx_eq_some hdb
      exact same hep hsub
  | planned r i run next =>
      exact ⟨fun k e h => next.write.exec_endpoints h,
        fun row hrow => .inl (next.write.exec_subscriptions s.now s.db ▸ hrow)⟩
  | left r i run _ _ hgo =>
      obtain ⟨-, queue, rfl⟩ := letGo_eq_some hgo
      exact same rfl rfl
  | tickAdd k m ms published =>
      obtain ⟨queue, accepted, heq⟩ := addJobs_frame m.id (jobsOf cfg.maxAttempts m) s
      exact same (by rw [heq]) (by rw [heq])
  | tickFail k mask m ms published =>
      obtain ⟨queue, accepted, heq⟩ :=
        addJobs_frame m.id (addedBeforeFailure mask (jobsOf cfg.maxAttempts m)) s
      exact same (by rw [heq]) (by rw [heq])
  | clock | tickRead | tickMark | tickCrash | take | threw | crashed | unlock | discard =>
      exact same rfl rfl

/-- Where a delivery comes from: it was there before the step, or has just been reserved. -/
theorem deliveries_origin {d' : DeliveryRow} (hs : step cfg s a = some s')
    (h : d' ∈ s'.db.deliveries) :
    (∃ d ∈ s.db.deliveries, d'.id = d.id ∧ d'.eventId = d.eventId ∧ d'.endpointId = d.endpointId) ∨
      s'.db.SameTenant d' := by
  have modified : ∀ {k : Uuid} {f : DeliveryRow → DeliveryRow} (hf : ∀ x, (f x).id = x.id),
      (∀ x, (f x).eventId = x.eventId ∧ (f x).endpointId = x.endpointId) →
      d' ∈ s.db.deliveries.modify k f hf →
      ∃ d ∈ s.db.deliveries, d'.id = d.id ∧ d'.eventId = d.eventId ∧ d'.endpointId = d.endpointId := by
    intro k f hf hsame hd'
    obtain ⟨d, hd, rfl⟩ := Table.mem_modify.1 hd'
    refine ⟨d, hd, ?_⟩
    split_ifs
    · exact ⟨hf d, hsame d⟩
    · exact ⟨rfl, rfl, rfl⟩
  cases step_change hs with
  | outside hd _ _ _ _ _ => exact .inl ⟨d', hd ▸ h, rfl, rfl, rfl⟩
  | reserved ds _ hrows _ _ _ _ _ hnew =>
      rw [Table.mem_def, hrows, List.mem_append] at h
      rcases h with h | h
      · exact .inl ⟨d', h, rfl, rfl, rfl⟩
      · exact .inr (hnew d' h)
  | reopened tenantId deliveryId outboxId x hx hdel _ _ _ _ _ =>
      rw [hdel] at h
      exact .inl (modified (Database.reopen_id s.now) (fun _ => ⟨rfl, rfl⟩) h)
  | started _ _ _ _ _ heq => subst heq; exact .inl ⟨d', h, rfl, rfl, rfl⟩
  | planned r i run next _ _ heq =>
      subst heq
      left
      simp only [applyNext] at h
      cases hw : next.write with
      | settleSuccess k n =>
          rw [hw] at h
          exact modified (Write.succeededData_id s.now n) (fun _ => ⟨rfl, rfl⟩) h
      | settleFailure k n dead =>
          rw [hw] at h
          exact modified (Write.failedData_id s.now n dead) (fun _ => ⟨rfl, rfl⟩) h
      | scheduleRetry k retryAt =>
          rw [hw] at h
          exact modified (Write.retryData_id s.now retryAt) (fun _ => ⟨rfl, rfl⟩) h
      | _ => rw [hw] at h; exact ⟨d', h, rfl, rfl, rfl⟩
  | left r i run _ hgo =>
      obtain ⟨-, queue, rfl⟩ := letGo_eq_some hgo
      exact .inl ⟨d', h, rfl, rfl, rfl⟩
  | threw _ _ _ _ heq => subst heq; exact .inl ⟨d', h, rfl, rfl, rfl⟩
  | crashed _ _ _ heq => subst heq; exact .inl ⟨d', h, rfl, rfl, rfl⟩

theorem step_sameTenant (h : ∀ d ∈ s.db.deliveries, s.db.SameTenant d)
    (hs : step cfg s a = some s') : ∀ d ∈ s'.db.deliveries, s'.db.SameTenant d := by
  intro d' hd'
  rcases deliveries_origin hs hd' with ⟨d, hd, -, hev, hep⟩ | hnew
  · obtain ⟨ep, e, hfind, hevent, htenant⟩ := h d hd
    obtain ⟨ep', hfind', htenant'⟩ := (step_endpoints hs).1 _ _ hfind
    refine ⟨ep', e, hep ▸ hfind', ?_, htenant'.trans htenant⟩
    rw [hev]
    exact (step_flow hs).extends.events _ _ hevent
  · exact hnew

/-- In every reachable state the endpoint and the event of a delivery exist and belong to
the same tenant. -/
theorem path_sameTenant {P : State → Action → Prop} (h : Path (step cfg) P init s) :
    ∀ d ∈ s.db.deliveries, s.db.SameTenant d :=
  h.invariant (I := fun t => ∀ d ∈ t.db.deliveries, t.db.SameTenant d)
    (fun _ _ _ hI _ hs => step_sameTenant hI hs) (fun _ hd => by cases hd)

theorem step_subscribed (h : ∀ row ∈ s.db.subscriptions.rows,
      ∃ e, s.db.endpoints.find? row.endpointId = some e) (hs : step cfg s a = some s') :
    ∀ row ∈ s'.db.subscriptions.rows, ∃ e, s'.db.endpoints.find? row.endpointId = some e := by
  obtain ⟨hkeeps, hrows⟩ := step_endpoints hs
  intro row hrow
  obtain ⟨e, he⟩ : ∃ e, s.db.endpoints.find? row.endpointId = some e := by
    rcases hrows row hrow with hold | hnew
    · exact h row hold
    · exact hnew
  obtain ⟨e', he', -⟩ := hkeeps _ e he
  exact ⟨e', he'⟩

/-- The deliveries of which rows are carried along, and of attempts, are there. -/
structure Rooted (s : State) : Prop where
  carried : ∀ r run x, s.runs r = some run → run.phase.row? = some x →
    ∃ y, s.db.deliveries.find? x.id = some y
  attempt : ∀ a ∈ s.db.attempts.rows, ∃ y, s.db.deliveries.find? a.deliveryId = some y

theorem step_rooted (h : Rooted s) (hs : step cfg s a = some s') : Rooted s' := by
  have stays : ∀ {k : Uuid}, (∃ y, s.db.deliveries.find? k = some y) →
      ∃ y, s'.db.deliveries.find? k = some y := by
    rintro k ⟨y, hy⟩
    obtain ⟨y', hy', -⟩ := step_fixed hs hy
    exact ⟨y', hy'⟩
  have kept : s'.db.attempts = s.db.attempts →
      ∀ a ∈ s'.db.attempts.rows, ∃ y, s'.db.deliveries.find? a.deliveryId = some y :=
    fun heq a ha => stays (h.attempt a (heq ▸ ha))
  have replaced : ∀ (k : ℕ) (new : Option Run), s'.runs = Function.update s.runs k new →
      (∀ run x, new = some run → run.phase.row? = some x →
        ∃ y, s.db.deliveries.find? x.id = some y) →
      ∀ r run x, s'.runs r = some run → run.phase.row? = some x →
        ∃ y, s'.db.deliveries.find? x.id = some y := by
    intro k new hupd hnew r run x hrun hx
    rw [hupd] at hrun
    by_cases hr : r = k
    · subst hr
      rw [Function.update_self] at hrun
      exact stays (hnew run x hrun hx)
    · rw [Function.update_of_ne hr] at hrun
      exact stays (h.carried r run x hrun hx)
  cases step_change hs with
  | outside _ ha hr _ _ _ =>
      exact ⟨fun r run x hrun hx => stays (h.carried r run x (hr ▸ hrun) hx), kept ha⟩
  | reserved _ _ _ ha hr _ _ _ _ =>
      exact ⟨fun r run x hrun hx => stays (h.carried r run x (hr ▸ hrun) hx), kept ha⟩
  | reopened _ _ _ _ _ _ ha hr _ _ _ =>
      exact ⟨fun r run x hrun hx => stays (h.carried r run x (hr ▸ hrun) hx), kept ha⟩
  | started w jobId j _ _ heq =>
      subst heq
      refine ⟨replaced s.nextRun _ rfl fun run x hrun hx => ?_, kept rfl⟩
      cases hrun
      cases hx
  | planned r i run next hrun hp heq =>
      subst heq
      refine ⟨replaced r _ rfl fun run' x hrun' hx => ?_, fun a ha => ?_⟩
      · cases hrun'
        rcases hp.row_id hx with hx | hfind
        · exact h.carried r run x hrun hx
        · exact ⟨x, (Table.find?_eq_some_iff.1 hfind).2 ▸ hfind⟩
      · rcases Write.mem_exec_attempts ha with ⟨a₀, ha₀, hd⟩ | ⟨n, text, hw⟩
        · exact stays (hd ▸ h.attempt a₀ ha₀)
        · obtain ⟨x, hx, hid⟩ := hp.insertAttempt hw
          exact stays (hid ▸ h.carried r run x hrun hx)
  | left r i run _ hgo =>
      obtain ⟨-, queue, rfl⟩ := letGo_eq_some hgo
      exact ⟨replaced r none rfl fun run x hrun => (by cases hrun), kept rfl⟩
  | threw r run _ _ heq =>
      subst heq
      refine ⟨replaced r _ rfl fun run x hrun hx => ?_, kept rfl⟩
      cases hrun
      cases hx
  | crashed r run _ heq =>
      subst heq
      exact ⟨replaced r none rfl fun run x hrun => (by cases hrun), kept rfl⟩

end System

/-- Every row has the rows it refers to, and a delivery those of one tenant. -/
structure Database.Sound (db : Database) : Prop where
  subscription : ∀ row ∈ db.subscriptions.rows, ∃ e, db.endpoints.find? row.endpointId = some e
  delivery : ∀ d ∈ db.deliveries, db.SameTenant d
  attempt : ∀ a ∈ db.attempts.rows, ∃ d, db.deliveries.find? a.deliveryId = some d
  outbox : ∀ row ∈ db.outbox.rows, ∃ e, db.events.find? row.eventId = some e

/-- The database is sound in every reachable state. -/
theorem System.path_soundDb {cfg : WorkerConfig} {s : State} {P : State → Action → Prop}
    (h : Path (step cfg) P init s) : s.db.Sound := by
  refine ⟨?_, path_sameTenant h, ?_, (path_linked h).rowEvent⟩
  · exact h.invariant (I := fun t => ∀ row ∈ t.db.subscriptions.rows,
      ∃ e, t.db.endpoints.find? row.endpointId = some e)
      (fun _ _ _ hI _ hs => step_subscribed hI hs) (fun _ hrow => by cases hrow)
  · have hrooted : Rooted s := h.invariant (fun _ _ _ hI _ hs => step_rooted hI hs)
      ⟨fun _ _ _ hr => (by cases hr), fun _ ha => (by cases ha)⟩
    exact hrooted.attempt

end HookRelay
