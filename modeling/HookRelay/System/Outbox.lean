import HookRelay.System.Changes

/-!
# Between the database and the queue

An API transaction reserves a delivery in the outbox; a relay makes jobs of the row and
then marks it.  Relays overlap, fail halfway and die; the queue drops jobs that it has
already.

* `Flow` and `step_flow` — what a step can do to events, outbox, ticks and queue.
* `Linked` — every delivery and every outbox row has its event, a row names a delivery
  of its own event, and every delivery is covered by a row.
* `Enqueued` — every target of a row was accepted by the queue, with the row's job id
  and the tenant of its event.
* `no_delivery_lost` — every delivery is covered, every `PUBLISHED` row is enqueued, and
  no job was made for a delivery that is no target of its row.
-/

namespace HookRelay

open Lib

namespace Database

variable {db db' : Database}

/-- The deliveries with the events they belong to. -/
def links (db : Database) : List (Uuid × Uuid) := db.deliveries.rows.map fun d => (d.id, d.eventId)

theorem map_id_deliveriesOf (db : Database) (eventId : Uuid) :
    (db.deliveriesOf eventId).map DeliveryRow.id =
      (db.links.filter fun l => l.2 = eventId).map Prod.fst := by
  rw [links, List.filter_map, List.map_map]
  rfl

theorem mem_links {d eventId : Uuid} :
    (d, eventId) ∈ db.links ↔ ∃ x, db.deliveries.find? d = some x ∧ x.eventId = eventId := by
  simp only [links, List.mem_map, Prod.mk.injEq, Table.find?_eq_some_iff, Table.mem_def]
  constructor
  · rintro ⟨x, hx, hid, he⟩
    exact ⟨x, ⟨hx, hid⟩, he⟩
  · rintro ⟨x, ⟨hx, hid⟩, he⟩
    exact ⟨x, hx, hid, he⟩

/-- A delivery belongs to one event. -/
theorem links_unique {d e e' : Uuid} (h : (d, e) ∈ db.links) (h' : (d, e') ∈ db.links) :
    e = e' := by
  obtain ⟨x, hx, rfl⟩ := mem_links.1 h
  obtain ⟨y, hy, rfl⟩ := mem_links.1 h'
  rw [hx, Option.some.injEq] at hy
  rw [hy]

/-- Updating rows does not change what they belong to. -/
theorem links_modify {k : Uuid} {f : DeliveryRow → DeliveryRow} (hf : ∀ x, (f x).id = x.id)
    (he : ∀ x, (f x).eventId = x.eventId) (h : db'.deliveries = db.deliveries.modify k f hf) :
    db'.links = db.links := by
  unfold links
  rw [h, Table.modify, Table.modifyMany, List.map_map]
  refine List.map_congr_left fun x _ => ?_
  simp only [Function.comp_apply]
  split_ifs
  · rw [hf, he]
  · rfl

end Database

/-- The statements of a run leave events, outbox and links alone. -/
theorem Write.exec_links (now : Micros) (db : Database) (w : Write) :
    (w.exec now db).events = db.events ∧ (w.exec now db).outbox = db.outbox ∧
      (w.exec now db).links = db.links := by
  cases w with
  | settleSuccess k n =>
      exact ⟨rfl, rfl, Database.links_modify (succeededData_id now n) (fun _ => rfl) rfl⟩
  | settleFailure k n dead =>
      exact ⟨rfl, rfl, Database.links_modify (failedData_id now n dead) (fun _ => rfl) rfl⟩
  | scheduleRetry k retryAt =>
      exact ⟨rfl, rfl, Database.links_modify (retryData_id now retryAt) (fun _ => rfl) rfl⟩
  | _ => exact ⟨rfl, rfl, rfl⟩

/-- Every job of the second queue is one of the first, but for its lock and its failures. -/
def Queue.Within (q q' : Queue) : Prop :=
  ∀ j' ∈ q', ∃ j ∈ q, j'.id = j.id ∧ j'.deliveryId = j.deliveryId ∧ j'.tenantId = j.tenantId

namespace Queue

variable {q : Queue} {id : Text} {r : ℕ}

theorem Within.refl (q : Queue) : q.Within q := fun j hj => ⟨j, hj, rfl, rfl, rfl⟩

theorem within_modify {f : Job → Job} (hf : ∀ j, (f j).id = j.id)
    (hsame : ∀ j, (f j).deliveryId = j.deliveryId ∧ (f j).tenantId = j.tenantId) :
    q.Within (q.modify id f hf) := by
  intro j' hj'
  obtain ⟨j, hj, rfl⟩ := Table.mem_modify.1 hj'
  refine ⟨j, hj, ?_⟩
  split_ifs
  · exact ⟨hf j, hsame j⟩
  · exact ⟨rfl, rfl, rfl⟩

theorem within_hand : q.Within (q.hand id r) := within_modify (Job.locked_id _) fun _ => ⟨rfl, rfl⟩

theorem within_unlock : q.Within (q.unlock id) := within_modify (Job.locked_id _) fun _ => ⟨rfl, rfl⟩

theorem within_remove : q.Within (q.remove id) :=
  fun j hj => ⟨j, (Table.mem_deleteMany.1 hj).1, rfl, rfl, rfl⟩

theorem within_release : q.Within (q.release id r) := by
  unfold release
  split_ifs
  · exact within_unlock
  · exact .refl q

theorem within_complete : q.Within (q.complete id r) := by
  unfold complete
  split_ifs
  · exact within_remove
  · exact .refl q

theorem within_fail : q.Within (q.fail id r) := by
  unfold fail
  split_ifs
  · exact within_remove
  · exact within_modify Job.counted_id fun _ => ⟨rfl, rfl⟩
  · exact .refl q

end Queue

namespace System

variable {cfg : WorkerConfig} {s s' : State} {a : Action}

/-! ## What a step can do -/

/-- The steps, by what they do to events, outbox, ticks and queue. -/
inductive Flow (cfg : WorkerConfig) (s s' : State) : Action → Prop
  /-- Nothing, but that jobs may be handed out, put back or removed. -/
  | aside {a : Action} : s'.db.events = s.db.events → s'.db.outbox = s.db.outbox →
      s'.db.links = s.db.links → s'.ticks = s.ticks → s'.accepted = s.accepted →
      s.queue.Within s'.queue → Flow cfg s s' a
  /-- A new event with its deliveries and the outbox row that covers them, if there are any. -/
  | reserved {a : Action} (e : EventRow) (ds : List DeliveryRow) (rows : List OutboxRow) :
      s.db.events.find? e.id = none → s'.db.events.rows = s.db.events.rows ++ [e] →
      (∀ d ∈ ds, d.eventId = e.id) → s'.db.deliveries.rows = s.db.deliveries.rows ++ ds →
      s'.db.outbox.rows = s.db.outbox.rows ++ rows →
      (∀ row ∈ rows, row.eventId = e.id ∧ row.status = .pending ∧
        ∀ d, row.deliveryId = some d → ∃ x ∈ ds, x.id = d) →
      (∀ d ∈ ds, ∃ row ∈ rows, row.deliveryId = none ∨ row.deliveryId = some d.id) →
      s'.ticks = s.ticks → s'.accepted = s.accepted → s'.queue = s.queue → Flow cfg s s' a
  /-- A new outbox row for a delivery. -/
  | reopened {tenantId deliveryId : Uuid} {outboxId : ℕ} (d : DeliveryRow) :
      s.db.deliveries.find? deliveryId = some d → s'.db.events = s.db.events →
      s'.db.links = s.db.links → s'.db.outbox.rows =
        s.db.outbox.rows ++ [Database.newOutbox s.now outboxId d.eventId (some d.id)] →
      s'.ticks = s.ticks → s'.accepted = s.accepted → s'.queue = s.queue →
      Flow cfg s s' (.redeliver tenantId deliveryId outboxId)
  /-- A relay reads its batch. -/
  | read (k batchSize : ℕ) : s.ticks k = none →
      s' = { s with ticks := Function.update s.ticks k (some ⟨readBatch s.db batchSize, []⟩) } →
      Flow cfg s s' (.tickRead k batchSize)
  /-- A relay adds jobs of a row: all of them, or some before a failure. -/
  | added {a : Action} (k : ℕ) (m : Message) (ms : List Message) (published : List ℕ)
      (jobs : List Job) (rest : Tick) : s.ticks k = some ⟨m :: ms, published⟩ →
      (∀ j ∈ jobs, j ∈ jobsOf cfg.maxAttempts m) →
      (rest = ⟨[], published⟩ ∨
        jobs = jobsOf cfg.maxAttempts m ∧ rest = ⟨ms, published ++ [m.id]⟩) →
      s' = { addJobs s m.id jobs with ticks := Function.update s.ticks k (some rest) } →
      Flow cfg s s' a
  /-- A relay marks the rows it added. -/
  | marked (k : ℕ) (published : List ℕ) : s.ticks k = some ⟨[], published⟩ →
      s' = { s with
        db := markPublished s.db s.now published
        ticks := Function.update s.ticks k none } → Flow cfg s s' (.tickMark k)
  /-- A relay dies. -/
  | died (k : ℕ) : s' = { s with ticks := Function.update s.ticks k none } →
      Flow cfg s s' (.tickCrash k)

theorem letGo_within {r : ℕ} {run : Run} (h : letGo s r run = some s') :
    s.queue.Within s'.queue := by
  obtain ⟨-, hq⟩ | ⟨-, hq⟩ | ⟨-, -, -, hq⟩ := letGo_queue h
  · rw [hq]
    exact Queue.within_release
  · rw [hq]
    exact Queue.within_complete
  · rw [hq]
    exact Queue.within_fail

/-- **Every step is one of these.** -/
theorem step_flow (h : step cfg s a = some s') : Flow cfg s s' a := by
  cases stepped_of_step h with
  | clock | createEndpoint | updateEndpoint | setSubscriptions | threw | crashed =>
      exact .aside rfl rfl rfl rfl rfl (.refl _)
  | publish e targets outboxId db _ hdb =>
      obtain ⟨-, hfresh, -, hevents, hrows, hout, -⟩ := Database.publishTx_eq_some hdb
      have hds : ∀ d ∈ targets.map fun t => Database.newDelivery s.now t.1 e.id t.2,
          d.eventId = e.id := by
        intro d hd
        obtain ⟨t, -, rfl⟩ := List.mem_map.1 hd
        rfl
      rcases hout with ⟨hnil, hout⟩ | ⟨-, -, hout⟩
      · refine .reserved e _ [] hfresh hevents hds hrows (by rw [hout, List.append_nil])
          (fun _ h => by cases h) (fun d hd => ?_) rfl rfl rfl
        rw [hnil] at hd
        cases hd
      · refine .reserved e _ _ hfresh hevents hds hrows hout (fun row hrow => ?_)
          (fun d _ => ⟨_, List.mem_singleton_self _, .inl rfl⟩) rfl rfl rfl
        rw [List.mem_singleton] at hrow
        subst hrow
        exact ⟨rfl, rfl, fun d hd => by cases hd⟩
  | ping e deliveryId endpointId outboxId db _ hdb =>
      obtain ⟨-, hfresh, -, -, hevents, hrows, hout, -⟩ := Database.pingTx_eq_some hdb
      refine .reserved e _ _ hfresh hevents (fun d hd => ?_) hrows hout (fun row hrow => ?_)
        (fun d hd => ⟨_, List.mem_singleton_self _, .inr ?_⟩) rfl rfl rfl
      · rw [List.mem_singleton.1 hd]
        rfl
      · rw [List.mem_singleton] at hrow
        subst hrow
        refine ⟨rfl, rfl, fun d hd => ⟨_, List.mem_singleton_self _, ?_⟩⟩
        simpa [Database.newOutbox, Database.newDelivery] using hd
      · rw [List.mem_singleton.1 hd]
        rfl
  | redeliver tenantId deliveryId outboxId d db hd _ hdb =>
      obtain ⟨-, hdel, hout, hev, -⟩ := Database.redeliverTx_eq_some hdb
      exact .reopened d hd hev
        (Database.links_modify (Database.reopen_id s.now) (fun _ => rfl) hdel) hout rfl rfl rfl
  | tickRead k n hk => exact .read k n hk rfl
  | tickAdd k m ms published hk =>
      exact .added k m ms published _ _ hk (fun _ => id) (.inr ⟨rfl, rfl⟩) rfl
  | tickFail k mask m ms published hk =>
      exact .added k m ms published _ _ hk (fun _ => mem_addedBeforeFailure) (.inl rfl) rfl
  | tickMark k published hk => exact .marked k published hk rfl
  | tickCrash k => exact .died k rfl
  | take => exact .aside rfl rfl rfl rfl rfl Queue.within_hand
  | planned r i run next =>
      obtain ⟨hev, hout, hlinks⟩ := next.write.exec_links s.now s.db
      exact .aside hev hout hlinks rfl rfl (.refl _)
  | left r i run _ _ hgo =>
      have hwithin := letGo_within hgo
      obtain ⟨-, queue, rfl⟩ := letGo_eq_some hgo
      exact .aside rfl rfl rfl rfl rfl hwithin
  | unlock => exact .aside rfl rfl rfl rfl rfl Queue.within_unlock
  | discard => exact .aside rfl rfl rfl rfl rfl Queue.within_remove

end System

/-! ## Rows, events and deliveries belong together -/

namespace Database

variable {db db' : Database} {m : Message} {row row' : OutboxRow}

/-- Every delivery and every outbox row has its event; a row that names a delivery names
one of its own event; and every delivery is covered by a row. -/
structure Linked (db : Database) : Prop where
  event : ∀ l ∈ db.links, ∃ e, db.events.find? l.2 = some e
  rowEvent : ∀ row ∈ db.outbox.rows, ∃ e, db.events.find? row.eventId = some e
  named : ∀ row ∈ db.outbox.rows, ∀ d, row.deliveryId = some d → (d, row.eventId) ∈ db.links
  covered : ∀ l ∈ db.links, ∃ row ∈ db.outbox.rows, row.eventId = l.2 ∧
    (row.deliveryId = none ∨ row.deliveryId = some l.1)

/-- Events, the deliveries of an event and outbox rows stay as they are, but for the
status of a row. -/
structure Extends (db db' : Database) : Prop where
  events : ∀ k e, db.events.find? k = some e → db'.events.find? k = some e
  deliveries : ∀ k e, db.events.find? k = some e →
    (db'.deliveriesOf k).map DeliveryRow.id = (db.deliveriesOf k).map DeliveryRow.id
  outbox : ∀ row ∈ db.outbox.rows, ∃ row' ∈ db'.outbox.rows,
    row'.id = row.id ∧ row'.eventId = row.eventId ∧ row'.deliveryId = row.deliveryId

/-- The message is what a relay reads for some row. -/
def Described (db : Database) (m : Message) : Prop :=
  ∃ row ∈ db.outbox.rows, messageOf db row = some m

theorem Extends.messageOf (h : Extends db db') (hm : messageOf db row = some m)
    (hid : row'.id = row.id) (he : row'.eventId = row.eventId)
    (hd : row'.deliveryId = row.deliveryId) : HookRelay.messageOf db' row' = some m := by
  obtain ⟨h₁, h₂, h₃, e, hev, ht⟩ := messageOf_eq_some hm
  rw [HookRelay.messageOf, he, h.events _ e hev, Option.map_some, h.deliveries _ e hev, hid, hd,
    ← h₁, ← h₂, ← h₃, ← ht]

theorem Extends.described (h : Extends db db') (hm : Described db m) : Described db' m := by
  obtain ⟨row, hrow, hmsg⟩ := hm
  obtain ⟨row', hrow', hid, he, hd⟩ := h.outbox row hrow
  exact ⟨row', hrow', h.messageOf hmsg hid he hd⟩

/-- A target of a row is a delivery of the row's event. -/
theorem Described.target (hm : Described db m) (h : Linked db) {d : Uuid} (hd : d ∈ targetsOf m) :
    ∃ k e, (d, k) ∈ db.links ∧ db.events.find? k = some e ∧ m.tenantId = e.tenantId := by
  obtain ⟨row, hrow, hmsg⟩ := hm
  obtain ⟨-, h₂, h₃, e, he, ht⟩ := messageOf_eq_some hmsg
  refine ⟨row.eventId, e, ?_, he, ht⟩
  unfold targetsOf at hd
  split at hd
  · rename_i k hk
    rw [List.mem_singleton.1 hd]
    exact h.named row hrow k (by rw [← h₂, hk])
  · rw [h₃] at hd
    obtain ⟨x, hx, rfl⟩ := List.mem_map.1 hd
    obtain ⟨hx, hev⟩ := mem_deliveriesOf.1 hx
    exact mem_links.2 ⟨x, Table.find?_of_mem hx, hev⟩

/-- The tenant of a job depends on its delivery only. -/
theorem Described.tenantId_eq {m' : Message} (hm : Described db m) (hm' : Described db m')
    (h : Linked db) {d : Uuid} (hd : d ∈ targetsOf m) (hd' : d ∈ targetsOf m') :
    m.tenantId = m'.tenantId := by
  obtain ⟨k, e, hk, he, ht⟩ := hm.target h hd
  obtain ⟨k', e', hk', he', ht'⟩ := hm'.target h hd'
  rw [links_unique hk' hk, he, Option.some.injEq] at he'
  rw [ht, ht', he']

theorem Linked.of_eq (h : Linked db) (hev : db'.events = db.events) (hout : db'.outbox = db.outbox)
    (hlinks : db'.links = db.links) : Linked db' :=
  ⟨by rw [hlinks, hev]; exact h.event, by rw [hout, hev]; exact h.rowEvent,
    by rw [hout, hlinks]; exact h.named, by rw [hlinks, hout]; exact h.covered⟩

/-- A new event is added to the table. -/
theorem find?_append {e : EventRow}
    (hrows : db'.events.rows = db.events.rows ++ [e]) (k : Uuid) :
    db'.events.find? k = (db.events.find? k).or (if e.id = k then some e else none) := by
  unfold Table.find?
  rw [hrows, List.find?_append]
  by_cases hk : e.id = k <;> simp [hk]

/-- A new event, with deliveries and rows of its own that cover them. -/
theorem Linked.reserve (h : Linked db) {e : EventRow} {ds : List DeliveryRow}
    {rows : List OutboxRow} (hfresh : db.events.find? e.id = none)
    (hevents : db'.events.rows = db.events.rows ++ [e]) (hds : ∀ d ∈ ds, d.eventId = e.id)
    (hdel : db'.deliveries.rows = db.deliveries.rows ++ ds)
    (hout : db'.outbox.rows = db.outbox.rows ++ rows)
    (hrows : ∀ row ∈ rows, row.eventId = e.id ∧ row.status = .pending ∧
      ∀ d, row.deliveryId = some d → ∃ x ∈ ds, x.id = d)
    (hcov : ∀ d ∈ ds, ∃ row ∈ rows, row.deliveryId = none ∨ row.deliveryId = some d.id) :
    Linked db' := by
  have hfind : ∀ k e', db.events.find? k = some e' → db'.events.find? k = some e' := by
    intro k e' hk
    rw [find?_append hevents, hk]
    rfl
  have hnew : db'.events.find? e.id = some e := by
    rw [find?_append hevents, hfresh]
    simp
  have hlinks : db'.links = db.links ++ ds.map fun d => (d.id, d.eventId) := by
    rw [Database.links, hdel, List.map_append]
    rfl
  refine ⟨fun l hl => ?_, fun row hrow => ?_, fun row hrow d hd => ?_, fun l hl => ?_⟩
  · rw [hlinks, List.mem_append] at hl
    rcases hl with hl | hl
    · obtain ⟨e', he'⟩ := h.event l hl
      exact ⟨e', hfind _ _ he'⟩
    · obtain ⟨d, hd, rfl⟩ := List.mem_map.1 hl
      exact ⟨e, by simp only [hds d hd, hnew]⟩
  · rw [hout, List.mem_append] at hrow
    rcases hrow with hrow | hrow
    · obtain ⟨e', he'⟩ := h.rowEvent row hrow
      exact ⟨e', hfind _ _ he'⟩
    · exact ⟨e, by rw [(hrows row hrow).1, hnew]⟩
  · rw [hlinks, List.mem_append]
    rw [hout, List.mem_append] at hrow
    rcases hrow with hrow | hrow
    · exact .inl (h.named row hrow d hd)
    · obtain ⟨x, hx, rfl⟩ := (hrows row hrow).2.2 d hd
      refine .inr (List.mem_map.2 ⟨x, hx, ?_⟩)
      rw [hds x hx, (hrows row hrow).1]
  · rw [hlinks, List.mem_append] at hl
    rw [hout]
    rcases hl with hl | hl
    · obtain ⟨row, hrow, hc⟩ := h.covered l hl
      exact ⟨row, List.mem_append_left _ hrow, hc⟩
    · obtain ⟨d, hd, rfl⟩ := List.mem_map.1 hl
      obtain ⟨row, hrow, hc⟩ := hcov d hd
      exact ⟨row, List.mem_append_right _ hrow, by rw [(hrows row hrow).1, hds d hd], hc⟩

/-- A new row for a delivery. -/
theorem Linked.reopen (h : Linked db) {d : DeliveryRow} {now : Micros} {outboxId : ℕ}
    (hd : (d.id, d.eventId) ∈ db.links) (hev : db'.events = db.events)
    (hlinks : db'.links = db.links) (hout : db'.outbox.rows =
      db.outbox.rows ++ [Database.newOutbox now outboxId d.eventId (some d.id)]) :
    Linked db' := by
  refine ⟨by rw [hlinks, hev]; exact h.event, fun row hrow => ?_, fun row hrow x hx => ?_,
    fun l hl => ?_⟩
  · rw [hev]
    rw [hout, List.mem_append, List.mem_singleton] at hrow
    rcases hrow with hrow | rfl
    · exact h.rowEvent row hrow
    · exact h.event _ hd
  · rw [hlinks]
    rw [hout, List.mem_append, List.mem_singleton] at hrow
    rcases hrow with hrow | rfl
    · exact h.named row hrow x hx
    · cases hx
      exact hd
  · rw [hlinks] at hl
    rw [hout]
    obtain ⟨row, hrow, hc⟩ := h.covered l hl
    exact ⟨row, List.mem_append_left _ hrow, hc⟩

/-- Rows are marked. -/
theorem Linked.markPublished (h : Linked db) (now : Micros) (published : List ℕ) :
    Linked (HookRelay.markPublished db now published) := by
  refine ⟨h.event, fun x hx => ?_, fun x hx => ?_, fun l hl => ?_⟩
  · obtain ⟨row, hrow, -, he, -⟩ := mem_markPublished hx
    rw [he]
    exact h.rowEvent row hrow
  · obtain ⟨row, hrow, -, he, hd, -⟩ := mem_markPublished hx
    rw [he, hd]
    exact h.named row hrow
  · obtain ⟨row, hrow, he, hd⟩ := h.covered l hl
    obtain ⟨x, hx, -, he', hd'⟩ := exists_markPublished now hrow
    exact ⟨x, hx, he'.trans he, by rw [hd']; exact hd⟩

theorem Extends.of_eq (hev : db'.events = db.events)
    (hout : ∀ row ∈ db.outbox.rows, ∃ row' ∈ db'.outbox.rows,
      row'.id = row.id ∧ row'.eventId = row.eventId ∧ row'.deliveryId = row.deliveryId)
    (hlinks : db'.links = db.links) : Extends db db' :=
  ⟨fun _ _ => by rw [hev]; exact id,
    fun _ _ _ => by rw [map_id_deliveriesOf, hlinks, ← map_id_deliveriesOf], hout⟩

end Database

namespace System

variable {cfg : WorkerConfig} {s s' : State} {a : Action}

theorem Flow.linked (hf : Flow cfg s s' a) (h : s.db.Linked) : s'.db.Linked := by
  cases hf with
  | aside hev hout hlinks _ _ _ => exact h.of_eq hev hout hlinks
  | reserved e ds rows hfresh hevents hds hdel hout hrows hcov _ _ _ =>
      exact h.reserve hfresh hevents hds hdel hout hrows hcov
  | reopened d hd hev hlinks hout _ _ _ =>
      obtain ⟨hmem, -⟩ := Table.find?_eq_some_iff.1 hd
      exact h.reopen (Database.mem_links.2 ⟨d, Table.find?_of_mem hmem, rfl⟩) hev hlinks hout
  | read k n _ heq => subst heq; exact h
  | added k m ms published jobs rest _ _ _ heq =>
      obtain ⟨queue, accepted, hadd⟩ := addJobs_frame m.id jobs s
      rw [hadd] at heq
      subst heq
      exact h
  | marked k published _ heq =>
      subst heq
      exact h.markPublished s.now published
  | died k heq => subst heq; exact h

theorem Flow.extends (hf : Flow cfg s s' a) : s.db.Extends s'.db := by
  have kept : ∀ rows : List OutboxRow, s'.db.outbox.rows = s.db.outbox.rows ++ rows →
      ∀ row ∈ s.db.outbox.rows, ∃ row' ∈ s'.db.outbox.rows,
        row'.id = row.id ∧ row'.eventId = row.eventId ∧ row'.deliveryId = row.deliveryId := by
    intro rows hout row hrow
    exact ⟨row, by rw [hout]; exact List.mem_append_left _ hrow, rfl, rfl, rfl⟩
  cases hf with
  | aside hev hout hlinks _ _ _ =>
      exact .of_eq hev (kept [] (by rw [hout, List.append_nil])) hlinks
  | reserved e ds rows hfresh hevents hds hdel hout _ _ _ _ _ =>
      refine ⟨fun k e' hk => ?_, fun k e' hk => ?_, kept _ hout⟩
      · rw [Database.find?_append hevents, hk]
        rfl
      · -- the new deliveries are of the new event
        have hne : ∀ d ∈ ds, d.eventId ≠ k := by
          intro d hd hdk
          rw [hds d hd] at hdk
          rw [hdk, hk] at hfresh
          cases hfresh
        have hnil : (ds.filter fun d => decide (d.eventId = k)) = [] := by
          rw [List.filter_eq_nil_iff]
          intro d hd
          simpa using hne d hd
        unfold Database.deliveriesOf
        rw [hdel, List.filter_append, hnil, List.append_nil]
  | reopened d hd hev hlinks hout _ _ _ => exact .of_eq hev (kept _ hout) hlinks
  | read k n _ heq => subst heq; exact .of_eq rfl (kept [] (by simp)) rfl
  | added k m ms published jobs rest _ _ _ heq =>
      obtain ⟨queue, accepted, hadd⟩ := addJobs_frame m.id jobs s
      rw [hadd] at heq
      subst heq
      exact .of_eq rfl (kept [] (by simp)) rfl
  | marked k published _ heq =>
      subst heq
      exact .of_eq rfl (fun row hrow => exists_markPublished s.now hrow) rfl
  | died k heq => subst heq; exact .of_eq rfl (kept [] (by simp)) rfl

theorem linked_init : init.db.Linked :=
  ⟨(fun _ h => by cases h), (fun _ h => by cases h), (fun _ h => by cases h), (fun _ h => by cases h)⟩

theorem path_linked {P : State → Action → Prop} (h : Path (step cfg) P init s) : s.db.Linked :=
  h.invariant (I := fun t => t.db.Linked) (fun _ _ _ hI _ hs => (step_flow hs).linked hI) linked_init

/-! ## What the queue has accepted -/

/-- The id of the job that a message asks for. -/
def jobIdOf (m : Message) (d : Uuid) : Text :=
  deliveryJobId d (m.deliveryId.map fun _ => outboxSuffix m.id)

/-- Every target of the message has been accepted by the queue. -/
def Enqueued (accepted : List Accepted) (m : Message) : Prop :=
  ∀ d ∈ targetsOf m, ∃ x ∈ accepted, x.jobId = jobIdOf m d ∧ x.deliveryId = d ∧
    x.tenantId = some m.tenantId

theorem Enqueued.mono {acc acc' : List Accepted} {m : Message} (h : Enqueued acc m)
    (hsub : ∀ x ∈ acc, x ∈ acc') : Enqueued acc' m := by
  intro d hd
  obtain ⟨x, hx, hrest⟩ := h d hd
  exact ⟨x, hsub x hx, hrest⟩

/-- The accepted job was made for a target of a row. -/
def Accepted.MadeFor (db : Database) (x : Accepted) : Prop :=
  ∃ m, db.Described m ∧ x.outboxId = m.id ∧ x.deliveryId ∈ targetsOf m ∧
    x.jobId = jobIdOf m x.deliveryId ∧ x.tenantId = some m.tenantId

/-- What is in the queue has been accepted, and for a reason. -/
structure Logged (s : State) : Prop where
  queued : ∀ j ∈ s.queue, ∃ x ∈ s.accepted, x.jobId = j.id ∧ x.deliveryId = j.deliveryId ∧
    x.tenantId = j.tenantId
  madeFor : ∀ x ∈ s.accepted, x.MadeFor s.db

theorem Accepted.MadeFor.mono {db db' : Database} {x : Accepted} (h : x.MadeFor db)
    (hext : db.Extends db') : x.MadeFor db' := by
  obtain ⟨m, hm, hrest⟩ := h
  exact ⟨m, hext.described hm, hrest⟩

/-- Two jobs with the same id are for the same delivery and tenant. -/
theorem Accepted.MadeFor.eq_of_jobId {db : Database} {x : Accepted} {m : Message} {d : Uuid}
    (h : x.MadeFor db) (hlinked : db.Linked) (hm : db.Described m) (hd : d ∈ targetsOf m)
    (hid : x.jobId = jobIdOf m d) : x.deliveryId = d ∧ x.tenantId = some m.tenantId := by
  obtain ⟨m', hm', -, hd', hid', ht'⟩ := h
  obtain ⟨rfl, -⟩ := deliveryJobId_inj (hid'.symm.trans hid)
  rw [ht', hm'.tenantId_eq hm hlinked hd' hd]
  exact ⟨rfl, rfl⟩

/-- Adding one job keeps the log. -/
theorem Logged.insert {m : Message} {d : Uuid} {queue : Queue} (h : Logged s)
    (hm : s.db.Described m) (hd : d ∈ targetsOf m)
    (hins : s.queue.insert? (jobOf cfg.maxAttempts m d) = some queue) :
    Logged { s with
      queue := queue
      accepted := s.accepted ++ [⟨m.id, jobIdOf m d, d, some m.tenantId⟩] } := by
  constructor
  · intro j hj
    rcases (Table.mem_insert? hins).1 hj with hj | rfl
    · obtain ⟨x, hx, hrest⟩ := h.queued j hj
      exact ⟨x, List.mem_append_left _ hx, hrest⟩
    · exact ⟨_, List.mem_append_right _ (List.mem_singleton_self _), rfl, rfl, rfl⟩
  · intro x hx
    rcases List.mem_append.1 hx with hx | hx
    · exact h.madeFor x hx
    · rw [List.mem_singleton.1 hx]
      exact ⟨m, hm, rfl, hd, rfl, rfl⟩

/-- Adding jobs of a row keeps the log, and afterwards each of them is in it. -/
theorem addJobs_logged {m : Message} {jobs : List Job}
    (hjobs : ∀ j ∈ jobs, j ∈ jobsOf cfg.maxAttempts m) (hm : s.db.Described m) (h : Logged s) :
    Logged (addJobs s m.id jobs) ∧ (∀ x ∈ s.accepted, x ∈ (addJobs s m.id jobs).accepted) ∧
      ∀ j ∈ jobs, ∃ x ∈ (addJobs s m.id jobs).accepted, x.jobId = j.id := by
  induction jobs generalizing s with
  | nil => exact ⟨h, fun _ => id, fun _ hj => by cases hj⟩
  | cons j js ih =>
      have hjs : ∀ i ∈ js, i ∈ jobsOf cfg.maxAttempts m :=
        fun i hi => hjobs i (List.mem_cons_of_mem _ hi)
      obtain ⟨d, hd, rfl⟩ := mem_jobsOf.1 (hjobs j List.mem_cons_self)
      cases hins : s.queue.insert? (jobOf cfg.maxAttempts m d) with
      | some queue =>
          obtain ⟨hlog, hsub, hall⟩ := ih hjs (by exact hm) (h.insert hm hd hins)
          simp only [addJobs, hins]
          refine ⟨hlog, fun x hx => hsub x (List.mem_append_left _ hx), fun i hi => ?_⟩
          rcases List.mem_cons.1 hi with rfl | hi
          · exact ⟨_, hsub _ (List.mem_append_right _ (List.mem_singleton_self _)), rfl⟩
          · exact hall i hi
      | none =>
          -- a job with this id is in the queue, so it has been accepted before
          obtain ⟨hlog, hsub, hall⟩ := ih hjs hm h
          simp only [addJobs, hins]
          refine ⟨hlog, hsub, fun i hi => ?_⟩
          rcases List.mem_cons.1 hi with rfl | hi
          · cases hf : s.queue.find? (jobOf cfg.maxAttempts m d).id with
            | none =>
                obtain ⟨u, hu⟩ := Table.insert?_isSome hf
                rw [hins] at hu
                cases hu
            | some j' =>
                obtain ⟨hj', hid⟩ := Table.find?_eq_some_iff.1 hf
                obtain ⟨x, hx, hxid, -⟩ := h.queued j' hj'
                exact ⟨x, hsub x hx, hxid.trans hid⟩
          · exact hall i hi

/-- After all jobs of a message have been added, it is enqueued. -/
theorem enqueued_addJobs {m : Message} (hlinked : s.db.Linked) (hm : s.db.Described m)
    (h : Logged s) : Enqueued (addJobs s m.id (jobsOf cfg.maxAttempts m)).accepted m := by
  obtain ⟨hlog, -, hall⟩ := addJobs_logged (fun _ => id) hm h
  obtain ⟨queue, accepted, hadd⟩ := addJobs_frame m.id (jobsOf cfg.maxAttempts m) s
  intro d hd
  obtain ⟨x, hx, hid⟩ := hall _ (mem_jobsOf.2 ⟨d, hd, rfl⟩)
  have hmade : x.MadeFor s.db := by
    have := hlog.madeFor x hx
    rw [hadd] at this
    exact this
  exact ⟨x, hx, hid, hmade.eq_of_jobId hlinked hm hd hid⟩

/-! ## The invariant of the relays -/

/-- What a tick has still to do is described by rows, and what it has done is enqueued. -/
structure TickOk (s : State) (t : Tick) : Prop where
  todo : ∀ m ∈ t.todo, s.db.Described m
  added : ∀ n ∈ t.published, ∃ m, s.db.Described m ∧ m.id = n ∧ Enqueued s.accepted m

/-- The log is kept, every tick is in order, and every `PUBLISHED` row is enqueued. -/
structure Tracked (s : State) : Prop extends Logged s where
  ticks : ∀ k t, s.ticks k = some t → TickOk s t
  marked : ∀ row ∈ s.db.outbox.rows, row.status = .published →
    ∃ m, messageOf s.db row = some m ∧ Enqueued s.accepted m

theorem TickOk.mono {t : Tick} (h : TickOk s t) (hext : s.db.Extends s'.db)
    (hacc : ∀ x ∈ s.accepted, x ∈ s'.accepted) : TickOk s' t := by
  refine ⟨fun m hm => hext.described (h.todo m hm), fun n hn => ?_⟩
  obtain ⟨m, hm, hid, henq⟩ := h.added n hn
  exact ⟨m, hext.described hm, hid, henq.mono hacc⟩

/-- A step that publishes no row and touches no tick, but for one that is in order. -/
theorem Tracked.mono (h : Tracked s) (hext : s.db.Extends s'.db)
    (hacc : ∀ x ∈ s.accepted, x ∈ s'.accepted) (hlog : Logged s')
    (hticks : ∀ k t, s'.ticks k = some t → s.ticks k = some t ∨ TickOk s' t)
    (hrows : ∀ row ∈ s'.db.outbox.rows, row.status = .published → row ∈ s.db.outbox.rows) :
    Tracked s' := by
  refine ⟨hlog, fun k t ht => ?_, fun row hrow hpub => ?_⟩
  · rcases hticks k t ht with ht | hok
    · exact (h.ticks k t ht).mono hext hacc
    · exact hok
  · obtain ⟨m, hm, henq⟩ := h.marked row (hrows row hrow hpub) hpub
    exact ⟨m, hext.messageOf hm rfl rfl rfl, henq.mono hacc⟩

theorem Logged.mono (h : Logged s) (hext : s.db.Extends s'.db) (hacc : s'.accepted = s.accepted)
    (hqueue : s.queue.Within s'.queue) : Logged s' := by
  constructor
  · intro j' hj'
    obtain ⟨j, hj, h₁, h₂, h₃⟩ := hqueue j' hj'
    rw [h₁, h₂, h₃, hacc]
    exact h.queued j hj
  · intro x hx
    exact (h.madeFor x (hacc ▸ hx)).mono hext

/-- A tick has added all jobs of its first message. -/
theorem TickOk.next {m : Message} {ms : List Message} {published : List ℕ}
    (h : TickOk s ⟨m :: ms, published⟩) (henq : Enqueued s.accepted m) :
    TickOk s ⟨ms, published ++ [m.id]⟩ where
  todo := fun m' hm' => h.todo m' (List.mem_cons_of_mem _ hm')
  added := by
    intro n hn
    rcases List.mem_append.1 hn with hn | hn
    · exact h.added n hn
    · exact ⟨m, h.todo m List.mem_cons_self, (List.mem_singleton.1 hn).symm, henq⟩

/-- A step touches one tick. -/
theorem tick_update {k : ℕ} {new : Option Tick} (hnew : ∀ t, new = some t → TickOk s' t)
    (hupd : s'.ticks = Function.update s.ticks k new) (i : ℕ) (t : Tick)
    (ht : s'.ticks i = some t) : s.ticks i = some t ∨ TickOk s' t := by
  rw [hupd] at ht
  by_cases hik : i = k
  · rw [hik, Function.update_self] at ht
    exact .inr (hnew t ht)
  · rw [Function.update_of_ne hik] at ht
    exact .inl ht

theorem step_tracked (hlinked : s.db.Linked) (h : Tracked s) (hs : step cfg s a = some s') :
    Tracked s' := by
  have hext := (step_flow hs).extends
  cases step_flow hs with
  | aside hev hout hlinks hticks hacc hqueue =>
      refine h.mono hext (by rw [hacc]; exact fun _ => id) (h.toLogged.mono hext hacc hqueue)
        (fun k t ht => .inl (hticks ▸ ht)) (fun row hrow _ => hout ▸ hrow)
  | reserved e ds rows hfresh hevents hds hdel hout hrows hcov hticks hacc hqueue =>
      refine h.mono hext (by rw [hacc]; exact fun _ => id)
        (h.toLogged.mono hext hacc (hqueue ▸ .refl _)) (fun k t ht => .inl (hticks ▸ ht))
        (fun row hrow hpub => ?_)
      rw [hout, List.mem_append] at hrow
      rcases hrow with hrow | hrow
      · exact hrow
      · rw [(hrows row hrow).2.1] at hpub
        cases hpub
  | reopened d hd hev hlinks hout hticks hacc hqueue =>
      refine h.mono hext (by rw [hacc]; exact fun _ => id)
        (h.toLogged.mono hext hacc (hqueue ▸ .refl _)) (fun k t ht => .inl (hticks ▸ ht))
        (fun row hrow hpub => ?_)
      rw [hout, List.mem_append, List.mem_singleton] at hrow
      rcases hrow with hrow | rfl
      · exact hrow
      · cases hpub
  | read k n hk heq =>
      subst heq
      refine h.mono hext (fun _ => id) ⟨h.queued, h.madeFor⟩
        (tick_update (k := k) (fun t ht => ?_) rfl) (fun row hrow _ => hrow)
      cases ht
      refine ⟨fun m hm => ?_, fun _ hn => by cases hn⟩
      obtain ⟨row, hrow, -, hmsg⟩ := mem_readBatch hm
      exact ⟨row, hrow, hmsg⟩
  | added k m ms published jobs rest hk hjobs hrest heq =>
      have htick := h.ticks k _ hk
      have hm : s.db.Described m := htick.todo m List.mem_cons_self
      obtain ⟨hlog, hsub, -⟩ := addJobs_logged hjobs hm h.toLogged
      obtain ⟨queue, accepted, hadd⟩ := addJobs_frame m.id jobs s
      have hacc : ∀ x ∈ s.accepted, x ∈ s'.accepted := by
        rw [heq]
        exact hsub
      refine h.mono hext hacc (by rw [heq]; exact ⟨hlog.queued, hlog.madeFor⟩)
        (tick_update (k := k) (fun t ht => ?_) (by rw [heq])) (fun row hrow _ => ?_)
      · cases ht
        rcases hrest with rfl | ⟨rfl, rfl⟩
        · exact ⟨(fun _ hm => by cases hm), (htick.mono hext hacc).added⟩
        · refine (htick.mono hext hacc).next ?_
          rw [heq]
          exact enqueued_addJobs hlinked hm h.toLogged
      · rw [heq, hadd] at hrow
        exact hrow
  | marked k published hk heq =>
      subst heq
      refine ⟨⟨h.queued, fun x hx => (h.madeFor x hx).mono hext⟩, fun i t ht => ?_,
        fun x hx hpub => ?_⟩
      · rcases tick_update (k := k) (fun _ hnone => by cases hnone) rfl i t ht with ht | hok
        · exact (h.ticks i t ht).mono hext fun _ => id
        · exact hok
      · obtain ⟨row, hrow, hid, he, hd, rfl | ⟨hmem, -, -⟩⟩ := mem_markPublished hx
        · obtain ⟨m, hm, henq⟩ := h.marked x hrow hpub
          exact ⟨m, hext.messageOf hm rfl rfl rfl, henq⟩
        · -- the row is one that the tick has added
          obtain ⟨m, ⟨row', hrow', hm⟩, hmid, henq⟩ := (h.ticks k _ hk).added _ hmem
          have hrr : row' = row :=
            Table.eq_of_key hrow' hrow ((messageOf_eq_some hm).1.symm.trans hmid)
          subst hrr
          exact ⟨m, hext.messageOf hm hid he hd, henq⟩
  | died k heq =>
      subst heq
      exact h.mono hext (fun _ => id) ⟨h.queued, h.madeFor⟩
        (tick_update (k := k) (fun _ hnone => by cases hnone) rfl) (fun row hrow _ => hrow)

theorem tracked_init : Tracked init :=
  ⟨⟨(fun _ h => by cases h), (fun _ h => by cases h)⟩, (fun _ _ h => by cases h),
    (fun _ h => by cases h)⟩

theorem path_tracked {P : State → Action → Prop} (h : Path (step cfg) P init s) : Tracked s :=
  h.invariant_along (J := fun t => t.db.Linked) (fun _ ht => path_linked ht)
    (fun _ _ _ hJ hI _ hs => step_tracked hJ hI hs) tracked_init

end System

/-! ## The result -/

/-- The row is the fan-out row of the delivery's event, or names the delivery. -/
def OutboxRow.Covers (row : OutboxRow) (d : DeliveryRow) : Prop :=
  row.eventId = d.eventId ∧ (row.deliveryId = none ∨ row.deliveryId = some d.id)

/-- The delivery a row names, or all deliveries of its event. -/
def Database.targets (db : Database) (row : OutboxRow) : List Uuid :=
  match row.deliveryId with
  | some d => [d]
  | none => (db.deliveriesOf row.eventId).map DeliveryRow.id

/-- A relay makes jobs for the targets of a row. -/
theorem targetsOf_messageOf {db : Database} {row : OutboxRow} {m : Message}
    (h : messageOf db row = some m) : targetsOf m = db.targets row := by
  obtain ⟨-, hd, hds, -⟩ := messageOf_eq_some h
  unfold targetsOf Database.targets
  cases hrow : row.deliveryId with
  | none => simp only [hd, hrow, hds]
  | some d => simp only [hd, hrow]

namespace System

/-- **No delivery is lost.**  In every reachable state every delivery is covered by an
outbox row; each target of a `PUBLISHED` row was accepted by the queue, under the row's
job id and with the tenant of its event; and the queue has nothing that it did not
accept, and accepted nothing but for targets of the row it was made for. -/
theorem no_delivery_lost (cfg : WorkerConfig) (s : State) (h : Reach cfg s) :
    (∀ d ∈ s.db.deliveries, ∃ row ∈ s.db.outbox.rows, row.Covers d) ∧
    (∀ row ∈ s.db.outbox.rows, row.status = .published → ∀ d ∈ s.db.targets row,
      ∃ x ∈ s.accepted, x.deliveryId = d ∧
        x.jobId = deliveryJobId d (row.deliveryId.map fun _ => outboxSuffix row.id) ∧
        ∃ e, s.db.events.find? row.eventId = some e ∧ x.tenantId = some e.tenantId) ∧
    (∀ j ∈ s.queue, ∃ x ∈ s.accepted, x.jobId = j.id ∧ x.deliveryId = j.deliveryId ∧
      x.tenantId = j.tenantId) ∧
    (∀ x ∈ s.accepted, ∃ row ∈ s.db.outbox.rows, row.id = x.outboxId ∧
      x.deliveryId ∈ s.db.targets row) := by
  have hlinked := path_linked h
  have htracked := path_tracked h
  refine ⟨fun d hd => ?_, fun row hrow hpub d hd => ?_, htracked.queued, fun x hx => ?_⟩
  · exact hlinked.covered _ (Database.mem_links.2 ⟨d, Table.find?_of_mem hd, rfl⟩)
  · obtain ⟨m, hm, henq⟩ := htracked.marked row hrow hpub
    rw [← targetsOf_messageOf hm] at hd
    obtain ⟨x, hx, hjob, hdel, htenant⟩ := henq d hd
    obtain ⟨hid, hdid, -, e, he, ht⟩ := messageOf_eq_some hm
    rw [jobIdOf, hid, hdid] at hjob
    rw [ht] at htenant
    exact ⟨x, hx, hdel, hjob, e, he, htenant⟩
  · obtain ⟨m, ⟨row, hrow, hm⟩, hid, hd, -⟩ := htracked.madeFor x hx
    rw [targetsOf_messageOf hm] at hd
    exact ⟨row, hrow, by rw [hid, (messageOf_eq_some hm).1], hd⟩

/-- At a state in which one relay died before it marked its row, and another one has
marked it. -/
theorem no_delivery_lost_after_relay_crash : ∃ s row, Reach Sample.cfg s ∧
    row ∈ s.db.outbox.rows ∧ row.status = .published ∧ s.db.targets row = [Sample.delivery] ∧
    ∃ x ∈ s.accepted, x.deliveryId = Sample.delivery ∧ x.jobId = Sample.job := by
  obtain ⟨s, hpath, hs⟩ := Path.exists_of_runChecked (step Sample.cfg) (P := anyAction)
    (p := fun _ _ => true) (fun _ _ _ => trivial) init
    [.createEndpoint Sample.endpointRow, .publish Sample.eventRow [(Sample.delivery, Sample.endpoint)] 0,
      .tickRead 0 100, .tickAdd 0, .tickCrash 0, .tickRead 1 100, .tickAdd 1, .tickMark 1]
    (fun s => s.db.outbox.rows.any fun row => row.status = .published && row.deliveryId = none &&
      s.db.targets row = [Sample.delivery]) (by decide +kernel)
  simp only [List.any_eq_true, Bool.and_eq_true, decide_eq_true_eq] at hs
  obtain ⟨row, hrow, ⟨hpub, hnone⟩, htargets⟩ := hs
  obtain ⟨x, hx, hdel, hjob, -⟩ := (no_delivery_lost Sample.cfg s hpath).2.1 row hrow hpub
    Sample.delivery (by rw [htargets]; exact List.mem_singleton_self _)
  refine ⟨s, row, hpath, hrow, hpub, htargets, x, hx, hdel, ?_⟩
  rw [hjob, hnone]
  rfl

end System
end HookRelay
