import HookRelay.System.Redelivery

/-!
# Where copies and rows come from

A run works on copies: the row of its delivery, and the URL, the secret and the status of the
endpoint, which come from its worker's cache or from the database.

* `run_origin`, `event_origin`, `succeeded_origin` — where a run, an event and the status
  `SUCCEEDED` come from that are there after a step.
* `Carried` — the delivery of a run is there, with the event and the endpoint of the copy.
* `Copies` — what holds of every copy of an endpoint's configuration.
* `step_copies` — it does, if it holds of the rows they are made from.
* `step_hasSecret`, `step_keyed` — the secret of an endpoint never changes, and every copy
  has it.
-/

namespace HookRelay

open Lib

/-- The endpoint's configuration that a run carries with it, beside the delivery's row. -/
def Phase.config? : Phase → Option (DeliveryRow × EndpointConfig)
  | .store d e => some (d, e)
  | .claim d e => some (d, e)
  | .attempt d e _ _ => some (d, e)
  | _ => none

theorem config?_afterEndpoint {d x : DeliveryRow} {c e : EndpointConfig}
    (h : (afterEndpoint d c).config? = some (x, e)) : d = x ∧ c = e := by
  unfold afterEndpoint at h
  split_ifs at h
  · simpa [Phase.config?] using h
  · cases h

/-- `endpointCache.get`: what it makes of the row it reads. -/
def configOf (cfg : WorkerConfig) (e : EndpointRow) : EndpointConfig :=
  ⟨e.url, cfg.decrypt e.secretEnc, e.status⟩

/-- The configuration a run carries after a step is the one it carried before, or one from the
cache, or was just read. -/
theorem Planned.config {cfg : WorkerConfig} {now : Micros} {db : Database} {cache : EndpointCache}
    {run : Run} {p : Phase} {next : Next} {x : DeliveryRow} {e : EndpointConfig}
    (h : Planned cfg now db cache run p next) (hc : next.run.phase.config? = some (x, e)) :
    p.config? = some (x, e) ∨ (∃ entry, cache x.endpointId = some entry ∧ e = entry.value) ∨
      ∃ row, db.endpoints.find? x.endpointId = some row ∧ e = configOf cfg row := by
  cases h with
  | loaded d row hrow =>
      cases hc
      exact .inr (.inr ⟨row, hrow, rfl⟩)
  | cached d entry hentry =>
      obtain ⟨rfl, rfl⟩ := config?_afterEndpoint hc
      exact .inr (.inl ⟨entry, hentry, rfl⟩)
  | stored d c =>
      obtain ⟨rfl, rfl⟩ := config?_afterEndpoint hc
      exact .inl rfl
  | claimed d c text _ =>
      cases hc
      exact .inl rfl
  | attempt d c claimed stage _ ha => cases ha <;> first | exact .inl hc | cases hc
  | _ => cases hc

namespace System

variable {cfg : WorkerConfig} {s s' : State} {a : Action}

/-- Where a run comes from that is there after a step. -/
inductive RunOrigin (cfg : WorkerConfig) (s s' : State) (a : Action) (r : ℕ) (run : Run) : Prop
  /-- It was there before, and somebody else has made the step. -/
  | old : (∀ i, a ≠ .run r i) → s.runs r = some run → RunOrigin cfg s s' a r run
  /-- It has made a step. -/
  | stepped (i : Input) (before : Run) (next : Next) : a = .run r i → s.runs r = some before →
      Planned cfg s.now s.db (s.cache before.worker) before before.phase next →
      s' = applyNext s r before next → run = next.run → RunOrigin cfg s s' a r run
  /-- It begins, or has failed, and carries nothing. -/
  | bare : (∀ i, a ≠ .run r i) →
      (r = s.nextRun ∧ run.phase = .tenant ∨ run.phase = .finish .threw) →
      RunOrigin cfg s s' a r run

theorem run_origin {r : ℕ} {run : Run} (hs : step cfg s a = some s')
    (hrun : s'.runs r = some run) : RunOrigin cfg s s' a r run := by
  -- a step of somebody else that leaves the runs alone, or the run `r` at least
  have same : (∀ i, a ≠ .run r i) → s'.runs r = s.runs r → RunOrigin cfg s s' a r run :=
    fun hne heq => .old hne (heq ▸ hrun)
  cases stepped_of_step hs with
  | take w jobId j _ _ =>
      by_cases hr : r = s.nextRun
      · subst hr
        simp only [Function.update_self, Option.some.injEq] at hrun
        subst hrun
        exact .bare (by simp) (.inl ⟨rfl, rfl⟩)
      · exact same (by simp) (Function.update_of_ne hr _ _)
  | planned k i before next hbefore hp =>
      by_cases hr : r = k
      · subst hr
        refine .stepped i before next rfl hbefore hp rfl ?_
        simpa [applyNext] using hrun.symm
      · exact same (by simpa using fun h => (hr h.symm).elim) (Function.update_of_ne hr _ _)
  | left k i before _ _ hgo =>
      obtain ⟨-, queue, rfl⟩ := letGo_eq_some hgo
      by_cases hr : r = k
      · subst hr
        simp [setRun] at hrun
      · exact same (by simpa using fun h => (hr h.symm).elim) (Function.update_of_ne hr _ _)
  | threw k before _ _ =>
      by_cases hr : r = k
      · subst hr
        simp only [setRun, Function.update_self, Option.some.injEq] at hrun
        subst hrun
        exact .bare (by simp) (.inr rfl)
      · exact same (by simp) (Function.update_of_ne hr _ _)
  | crashed k before _ =>
      by_cases hr : r = k
      · subst hr
        simp [setRun] at hrun
      · exact same (by simp) (Function.update_of_ne hr _ _)
  | tickAdd k m ms published =>
      obtain ⟨queue, accepted, heq⟩ := addJobs_frame m.id (jobsOf cfg.maxAttempts m) s
      exact same (by simp) (by rw [heq])
  | tickFail k mask m ms published =>
      obtain ⟨queue, accepted, heq⟩ :=
        addJobs_frame m.id (addedBeforeFailure mask (jobsOf cfg.maxAttempts m)) s
      exact same (by simp) (by rw [heq])
  | _ => exact same (by simp) rfl

/-- An event was there before, or is published or sent as a ping in this step. -/
theorem event_origin {ev : EventRow} (hs : step cfg s a = some s') (h : ev ∈ s'.db.events) :
    ev ∈ s.db.events ∨ (∃ targets o, a = .publish ev targets o) ∨
      ∃ d k o, a = .ping ev d k o := by
  have same : s'.db.events = s.db.events → ev ∈ s.db.events ∨
      (∃ targets o, a = .publish ev targets o) ∨ ∃ d k o, a = .ping ev d k o :=
    fun heq => .inl (heq ▸ h)
  have added : ∀ {e : EventRow}, s'.db.events.rows = s.db.events.rows ++ [e] →
      ev ∈ s.db.events ∨ ev = e := by
    intro e hrows
    rw [Table.mem_def, hrows, List.mem_append, List.mem_singleton] at h
    exact h
  cases stepped_of_step hs with
  | publish e targets o db _ hdb =>
      obtain ⟨-, -, -, hevents, -⟩ := Database.publishTx_eq_some hdb
      rcases added hevents with hold | rfl
      · exact .inl hold
      · exact .inr (.inl ⟨targets, o, rfl⟩)
  | ping e d k o db _ hdb =>
      obtain ⟨-, -, -, -, hevents, -⟩ := Database.pingTx_eq_some hdb
      rcases added hevents with hold | rfl
      · exact .inl hold
      · exact .inr (.inr ⟨d, k, o, rfl⟩)
  | redeliver tenantId deliveryId o d db _ _ hdb =>
      obtain ⟨-, -, -, hev, -⟩ := Database.redeliverTx_eq_some hdb
      exact same hev
  | planned r i run next => exact same (next.write.exec_links s.now s.db).1
  | left r i run _ _ hgo =>
      obtain ⟨-, queue, rfl⟩ := letGo_eq_some hgo
      exact same rfl
  | tickAdd k m ms published =>
      obtain ⟨queue, accepted, heq⟩ := addJobs_frame m.id (jobsOf cfg.maxAttempts m) s
      exact same (by rw [heq])
  | tickFail k mask m ms published =>
      obtain ⟨queue, accepted, heq⟩ :=
        addJobs_frame m.id (addedBeforeFailure mask (jobsOf cfg.maxAttempts m)) s
      exact same (by rw [heq])
  | _ => exact same rfl

/-- What was sent stays on record. -/
theorem sent_subset (hs : step cfg s a = some s') : s.sent ⊆ s'.sent := by
  cases step_change hs with
  | outside _ _ _ _ hsent _ => rw [hsent]; exact List.Subset.refl _
  | reserved _ _ _ _ _ _ hsent _ _ => rw [hsent]; exact List.Subset.refl _
  | reopened _ _ _ _ _ _ _ _ _ hsent _ => rw [hsent]; exact List.Subset.refl _
  | started _ _ _ _ _ heq => rw [heq]; exact List.Subset.refl _
  | planned r i run next _ _ heq =>
      subst heq
      simp only [applyNext]
      split
      · exact List.subset_append_left _ _
      · exact List.Subset.refl _
  | left r i run _ hgo =>
      obtain ⟨-, queue, rfl⟩ := letGo_eq_some hgo
      exact List.Subset.refl _
  | threw _ _ _ _ heq => rw [heq]; exact List.Subset.refl _
  | crashed _ _ _ heq => rw [heq]; exact List.Subset.refl _

/-- A delivery that is `SUCCEEDED` was so before, or a run has just made its final update after a
success. -/
theorem succeeded_origin {y' : DeliveryRow} (hs : step cfg s a = some s')
    (h : y' ∈ s'.db.deliveries) (hstatus : y'.status = .succeeded) :
    (∃ y ∈ s.db.deliveries, y.status = .succeeded ∧ y'.id = y.id ∧ y'.eventId = y.eventId ∧
      y'.endpointId = y.endpointId) ∨
    ∃ r run x e claimed, s.runs r = some run ∧ run.phase = .attempt x e claimed .deliverySuccess ∧
      x.id = y'.id := by
  have same : y' ∈ s.db.deliveries → (∃ y ∈ s.db.deliveries, y.status = .succeeded ∧
      y'.id = y.id ∧ y'.eventId = y.eventId ∧ y'.endpointId = y.endpointId) ∨
      ∃ r run x e claimed, s.runs r = some run ∧
        run.phase = .attempt x e claimed .deliverySuccess ∧ x.id = y'.id :=
    fun hold => .inl ⟨y', hold, hstatus, rfl, rfl, rfl⟩
  -- an update of one delivery that does not give it the status
  have modified : ∀ {k : Uuid} {f : DeliveryRow → DeliveryRow} (hf : ∀ x, (f x).id = x.id),
      (∀ x, (f x).status = .succeeded → x.status = .succeeded) →
      (∀ x, (f x).eventId = x.eventId ∧ (f x).endpointId = x.endpointId) →
      y' ∈ s.db.deliveries.modify k f hf → (∃ y ∈ s.db.deliveries, y.status = .succeeded ∧
        y'.id = y.id ∧ y'.eventId = y.eventId ∧ y'.endpointId = y.endpointId) := by
    intro k f hf hkeep hsame hmem
    obtain ⟨y, hy, rfl⟩ := Table.mem_modify.1 hmem
    split_ifs at hstatus ⊢
    · exact ⟨y, hy, hkeep y hstatus, hf y, hsame y⟩
    · exact ⟨y, hy, hstatus, rfl, rfl, rfl⟩
  cases step_change hs with
  | outside hd _ _ _ _ _ => exact same (hd ▸ h)
  | reserved ds hds hrows _ _ _ _ _ _ =>
      rw [Table.mem_def, hrows, List.mem_append] at h
      rcases h with h | h
      · exact same h
      · rw [(hds y' h).2.1] at hstatus
        cases hstatus
  | reopened tenantId deliveryId o x _ hdel _ _ _ _ _ =>
      rw [hdel] at h
      exact .inl (modified (Database.reopen_id s.now) (fun _ h => by cases h)
        (fun _ => ⟨rfl, rfl⟩) h)
  | started _ _ _ _ _ heq => subst heq; exact same h
  | planned r i run next hrun hp heq =>
      subst heq
      simp only [applyNext] at h
      cases hw : next.write with
      | settleSuccess k n =>
          rw [hw] at h
          have h : y' ∈ s.db.deliveries.modify k (Write.succeededData s.now n)
            (Write.succeededData_id s.now n) := h
          obtain ⟨y, hy, rfl⟩ := Table.mem_modify.1 h
          split_ifs at hstatus ⊢ with hk
          · right
            -- only the final update after a success writes this
            generalize hphase : run.phase = p at hp
            cases hp with
            | attempt x e claimed stage _ ha =>
                cases ha with
                | succeeded =>
                    cases hw
                    exact ⟨r, run, x, e, claimed, hrun, hphase, hk.symm⟩
                | _ => cases hw
            | _ => cases hw
          · exact .inl ⟨y, hy, hstatus, rfl, rfl, rfl⟩
      | settleFailure k n dead =>
          rw [hw] at h
          refine .inl (modified (Write.failedData_id s.now n dead) (fun x hx => ?_)
            (fun _ => ⟨rfl, rfl⟩) h)
          cases dead <;> cases hx
      | scheduleRetry k n =>
          rw [hw] at h
          exact .inl (modified (Write.retryData_id s.now n) (fun _ => id) (fun _ => ⟨rfl, rfl⟩) h)
      | _ => rw [hw] at h; exact same h
  | left r i run _ hgo =>
      obtain ⟨-, queue, rfl⟩ := letGo_eq_some hgo
      exact same h
  | threw _ _ _ _ heq => subst heq; exact same h
  | crashed _ _ _ heq => subst heq; exact same h

/-! ## The delivery's row -/

/-- The delivery of a run has the event and the endpoint of the run's copy. -/
def Carried (s : State) : Prop :=
  ∀ r run x, s.runs r = some run → run.phase.row? = some x →
    ∃ y, s.db.deliveries.find? x.id = some y ∧ y.eventId = x.eventId ∧
      y.endpointId = x.endpointId

theorem step_carried (h : Carried s) (hs : step cfg s a = some s') : Carried s' := by
  have stays : ∀ {x : DeliveryRow}, (∃ y, s.db.deliveries.find? x.id = some y ∧
      y.eventId = x.eventId ∧ y.endpointId = x.endpointId) →
      ∃ y, s'.db.deliveries.find? x.id = some y ∧ y.eventId = x.eventId ∧
        y.endpointId = x.endpointId := by
    rintro x ⟨y, hy, hev, hep⟩
    obtain ⟨y', hy', hev', hep'⟩ := step_fixed hs hy
    exact ⟨y', hy', hev'.trans hev, hep'.trans hep⟩
  intro r run x hrun hx
  cases run_origin hs hrun with
  | old _ hold => exact stays (h r run x hold hx)
  | stepped i before next _ hbefore hp _ hnext =>
      subst hnext
      rcases hp.row_id hx with hcarried | hfind
      · exact stays (h r before x hbefore hcarried)
      · have hid := (Table.find?_eq_some_iff.1 hfind).2
        exact stays ⟨x, by rw [hid]; exact hfind, rfl, rfl⟩
  | bare _ hbare => rcases hbare with ⟨-, hp⟩ | hp <;> rw [hp] at hx <;> cases hx

theorem path_carried {P : State → Action → Prop} (h : Path (step cfg) P init s) : Carried s :=
  h.invariant (fun _ _ _ hI _ hs => step_carried hI hs) fun _ _ _ hr => by cases hr

/-! ## The endpoint's configuration -/

/-- Every copy of an endpoint's configuration is as `P` says. -/
structure Copies (P : Uuid → EndpointConfig → Prop) (s : State) : Prop where
  cache : ∀ w k entry, s.cache w k = some entry → P k entry.value
  run : ∀ r run x e, s.runs r = some run → run.phase.config? = some (x, e) → P x.endpointId e

theorem copies_init (P : Uuid → EndpointConfig → Prop) : Copies P init :=
  ⟨fun _ _ _ h => (by cases h), fun _ _ _ _ h => (by cases h)⟩

/-- Copies are as `P` says, if they were and the rows are. -/
theorem step_copies {P : Uuid → EndpointConfig → Prop} (h : Copies P s)
    (hrows : ∀ k row, s.db.endpoints.find? k = some row → P k (configOf cfg row))
    (hs : step cfg s a = some s') : Copies P s' := by
  refine ⟨?_, fun r run x e hrun hconfig => ?_⟩
  · cases step_change hs with
    | outside _ _ _ _ _ hc => rw [hc]; exact h.cache
    | reserved _ _ _ _ _ _ _ hc _ => rw [hc]; exact h.cache
    | reopened _ _ _ _ _ _ _ _ _ _ hc => rw [hc]; exact h.cache
    | started _ _ _ _ _ heq => rw [heq]; exact h.cache
    | planned r i run next hrun hp heq =>
        subst heq
        intro w k entry hentry
        simp only [applyNext] at hentry
        by_cases hw : w = run.worker
        · subst hw
          rw [Function.update_self] at hentry
          rcases hp.cache_entry hentry with hold | ⟨x, hphase, rfl⟩
          · exact h.cache _ k entry hold
          · exact h.run r run x _ hrun (by rw [hphase]; rfl)
        · rw [Function.update_of_ne hw] at hentry
          exact h.cache w k entry hentry
    | left r i run _ hgo =>
        obtain ⟨-, queue, rfl⟩ := letGo_eq_some hgo
        exact h.cache
    | threw _ _ _ _ heq => rw [heq]; exact h.cache
    | crashed _ _ _ heq => rw [heq]; exact h.cache
  · cases run_origin hs hrun with
    | old _ hold => exact h.run r run x e hold hconfig
    | stepped i before next _ hbefore hp _ hnext =>
        subst hnext
        rcases hp.config hconfig with hcarried | ⟨entry, hentry, rfl⟩ | ⟨row, hrow, rfl⟩
        · exact h.run r before x e hbefore hcarried
        · exact h.cache _ _ entry hentry
        · exact hrows _ row hrow
    | bare _ hbare =>
        rcases hbare with ⟨-, hp⟩ | hp <;> rw [hp] at hconfig <;> cases hconfig

theorem Copies.mono {P Q : Uuid → EndpointConfig → Prop} (h : Copies P s)
    (hPQ : ∀ k e, P k e → Q k e) : Copies Q s :=
  ⟨fun w k entry hc => hPQ _ _ (h.cache w k entry hc),
    fun r run x e hrun hconfig => hPQ _ _ (h.run r run x e hrun hconfig)⟩

/-! ## Secrets -/

/-- The secret of the endpoint, as a worker decrypts it. -/
def HasSecret (cfg : WorkerConfig) (db : Database) (k : Uuid) (secret : Text) : Prop :=
  ∃ row, db.endpoints.find? k = some row ∧ cfg.decrypt row.secretEnc = secret

/-- Updates of an endpoint leave its secret alone. -/
theorem hasSecret_modify {db db' : Database} {k k' : Uuid} {secret : Text}
    {f : EndpointRow → EndpointRow} (hf : ∀ x, (f x).id = x.id)
    (hsame : ∀ x, (f x).secretEnc = x.secretEnc)
    (hdb : db'.endpoints = db.endpoints.modify k' f hf) (h : HasSecret cfg db k secret) :
    HasSecret cfg db' k secret := by
  obtain ⟨row, hrow, hdec⟩ := h
  unfold HasSecret
  rw [hdb, Table.find?_modify]
  split_ifs with hk
  · rw [← hk, hrow]
    exact ⟨f row, rfl, by rw [hsame, hdec]⟩
  · exact ⟨row, hrow, hdec⟩

/-- The secret of an endpoint never changes. -/
theorem step_hasSecret {k : Uuid} {secret : Text} (hs : step cfg s a = some s')
    (h : HasSecret cfg s.db k secret) : HasSecret cfg s'.db k secret := by
  have same : s'.db.endpoints = s.db.endpoints → HasSecret cfg s'.db k secret := by
    intro heq
    unfold HasSecret
    rw [heq]
    exact h
  cases stepped_of_step hs with
  | createEndpoint e endpoints _ hins =>
      obtain ⟨row, hrow, hdec⟩ := h
      have hne : e.id ≠ k := by
        rintro rfl
        rw [(Table.insert?_eq_some_iff.1 hins).1] at hrow
        cases hrow
      exact ⟨row, by rw [Table.find?_insert? hins, if_neg hne, hrow], hdec⟩
  | updateEndpoint id url description status e _ _ =>
      exact hasSecret_modify (EndpointsService.updateData_id s.now url description status)
        (fun _ => rfl) rfl h
  | setSubscriptions endpointId eventTypes e _ => exact same rfl
  | publish e targets outboxId db _ hdb =>
      obtain ⟨-, -, -, -, -, -, hep, -⟩ := Database.publishTx_eq_some hdb
      exact same hep
  | ping e deliveryId endpointId outboxId db _ hdb =>
      obtain ⟨-, -, -, -, -, -, -, hep, -⟩ := Database.pingTx_eq_some hdb
      exact same hep
  | redeliver tenantId deliveryId outboxId d db _ _ hdb =>
      obtain ⟨-, -, -, -, hep, -⟩ := Database.redeliverTx_eq_some hdb
      exact same hep
  | planned r i run next =>
      cases hw : next.write with
      | resetFailures k' =>
          have hdb : (applyNext s r run next).db.endpoints = s.db.endpoints.modify k'
              (Write.resetData s.now) (Write.resetData_id s.now) := by
            simp only [applyNext, hw, Write.exec]
          exact hasSecret_modify (Write.resetData_id s.now) (fun _ => rfl) hdb h
      | countFailure k' disable =>
          have hdb : (applyNext s r run next).db.endpoints = s.db.endpoints.modify k'
              (Write.countedFailure s.now disable) (Write.countedFailure_id s.now disable) := by
            simp only [applyNext, hw, Write.exec]
          exact hasSecret_modify (Write.countedFailure_id s.now disable) (fun _ => rfl) hdb h
      | _ => exact same (by simp only [applyNext, hw, Write.exec])
  | left r i run _ _ hgo =>
      obtain ⟨-, queue, rfl⟩ := letGo_eq_some hgo
      exact same rfl
  | tickAdd k' m ms published =>
      obtain ⟨queue, accepted, heq⟩ := addJobs_frame m.id (jobsOf cfg.maxAttempts m) s
      exact same (by rw [heq])
  | tickFail k' mask m ms published =>
      obtain ⟨queue, accepted, heq⟩ :=
        addJobs_frame m.id (addedBeforeFailure mask (jobsOf cfg.maxAttempts m)) s
      exact same (by rw [heq])
  | clock | tickRead | tickMark | tickCrash | take | threw | crashed | unlock | discard =>
      exact same rfl

/-- Every copy of an endpoint's configuration has the endpoint's secret. -/
def Keyed (cfg : WorkerConfig) (s : State) : Prop :=
  Copies (fun k e => HasSecret cfg s.db k e.secret) s

theorem step_keyed (h : Keyed cfg s) (hs : step cfg s a = some s') : Keyed cfg s' := by
  have hcopies : Copies (fun k e => HasSecret cfg s.db k e.secret) s' :=
    step_copies h (fun k row hrow => ⟨row, hrow, rfl⟩) hs
  exact hcopies.mono fun k e hsecret => step_hasSecret hs hsecret

end System
end HookRelay
