import HookRelay.System.Outbox

/-!
# Jobs that are handed to the queue more than once

A relay that dies before it marks a row hands the jobs of the row to the queue again, and so
does a relay that reads the row while another one works on it.  The system is run with a log
of every job that was handed to the queue and of what became of it.

* `WithHanded`, `stepHanded` — the system with this log.
* `FromFanOut`, `FromNamed` — the kind of row that a job comes from.
* `Handing`, `step_handing` — what a step hands to the queue and does to the outbox.
* `reenqueueing_absorbed` — two handed jobs have the same id exactly when they are for the
  same delivery and come from the same row, and a job of a redelivery is only absorbed by
  itself.
-/

namespace HookRelay

open Lib

namespace Queue

/-- A job that is in the queue after an insertion was there or is the new one. -/
theorem mem_add {q : Queue} {j j' : Job} (h : j' ∈ q.add j) :
    j' ∈ q ∨ j' = j ∧ q.find? j.id = none := by
  unfold add at h
  cases hins : q.insert? j with
  | none =>
      rw [hins] at h
      exact .inl h
  | some q' =>
      rw [hins] at h
      rcases (Table.mem_insert? hins).1 h with h | h
      · exact .inl h
      · exact .inr ⟨h, (Table.insert?_eq_some_iff.1 hins).1⟩

end Queue

namespace System

/-- A job that was handed to the queue. -/
structure Handed where
  outboxId : ℕ
  job : Job
  /-- The job of its id that was in the queue: it absorbed this one. -/
  absorbedBy : Option Job
  deriving DecidableEq

/-- The system, and every job that was handed to its queue. -/
structure WithHanded where
  sys : State
  handed : List Handed

def initHanded : WithHanded := ⟨init, []⟩

/-- The jobs of a row, one after the other. -/
def handedBy (q : Queue) (outboxId : ℕ) : List Job → List Handed
  | [] => []
  | j :: js => ⟨outboxId, j, q.find? j.id⟩ :: handedBy (q.add j) outboxId js

/-- The row that a tick comes to next. -/
def nextMessage (s : State) (k : ℕ) : Option Message := (s.ticks k).bind fun t => t.todo.head?

/-- What a step hands to the queue. -/
def handedIn (cfg : WorkerConfig) (s : State) : Action → List Handed
  | .tickAdd k => (nextMessage s k).elim [] fun m =>
      handedBy s.queue m.id (jobsOf cfg.maxAttempts m)
  | .tickFail k mask => (nextMessage s k).elim [] fun m =>
      handedBy s.queue m.id (addedBeforeFailure mask (jobsOf cfg.maxAttempts m))
  | _ => []

/-- One step of the system with its log. -/
def stepHanded (cfg : WorkerConfig) (s : WithHanded) (a : Action) : Option WithHanded :=
  (step cfg s.sys a).map fun sys => ⟨sys, s.handed ++ handedIn cfg s.sys a⟩

/-- The job comes from the fan-out row of its delivery's event. -/
def FromFanOut (db : Database) (x : Handed) : Prop :=
  ∃ row ∈ db.outbox.rows, row.id = x.outboxId ∧ row.deliveryId = none ∧
    (x.job.deliveryId, row.eventId) ∈ db.links

/-- The job comes from a row that names its delivery: one of `redeliver` or `ping`. -/
def FromNamed (db : Database) (x : Handed) : Prop :=
  ∃ row ∈ db.outbox.rows, row.id = x.outboxId ∧ row.deliveryId = some x.job.deliveryId

/-! ## What a step hands to the queue -/

/-- The row was there, but for its status. -/
def OldRow (db : Database) (x : OutboxRow) : Prop :=
  ∃ row ∈ db.outbox.rows, row.id = x.id ∧ row.eventId = x.eventId ∧ row.deliveryId = x.deliveryId

/-- The steps, by what they hand to the queue and do to the outbox. -/
inductive Handing (cfg : WorkerConfig) (s s' : State) (a : Action) : Prop
  /-- Nothing, but that rows may be marked and jobs handed out, put back or removed. -/
  | aside : handedIn cfg s a = [] → s.queue.Within s'.queue →
      (∀ x ∈ s'.db.outbox.rows, OldRow s.db x) → Handing cfg s s' a
  /-- A new row: a fan-out row belongs to a new event. -/
  | reserved (row : OutboxRow) : handedIn cfg s a = [] → s'.queue = s.queue →
      s'.db.outbox.rows = s.db.outbox.rows ++ [row] →
      (row.deliveryId = none → s.db.events.find? row.eventId = none) → Handing cfg s s' a
  /-- Jobs of a row. -/
  | handed (k : ℕ) (t : Tick) (m : Message) (jobs : List Job) : s.ticks k = some t → m ∈ t.todo →
      (∀ j ∈ jobs, j ∈ jobsOf cfg.maxAttempts m) →
      handedIn cfg s a = handedBy s.queue m.id jobs → s'.queue = (addJobs s m.id jobs).queue →
      s'.db = s.db → Handing cfg s s' a

variable {cfg : WorkerConfig} {s s' : State} {a : Action}

theorem OldRow.refl {db : Database} {x : OutboxRow} (h : x ∈ db.outbox.rows) : OldRow db x :=
  ⟨x, h, rfl, rfl, rfl⟩

theorem Handing.same (hh : handedIn cfg s a = []) (hq : s'.queue = s.queue)
    (hout : s'.db.outbox = s.db.outbox) : Handing cfg s s' a :=
  .aside hh (hq ▸ .refl _) fun _ hx => .refl (hout ▸ hx)

/-- **Every step is one of these.** -/
theorem step_handing (h : step cfg s a = some s') : Handing cfg s s' a := by
  cases stepped_of_step h with
  | clock | createEndpoint | updateEndpoint | setSubscriptions | tickRead | tickCrash | threw
  | crashed => exact .same rfl rfl rfl
  | publish e targets outboxId db _ hdb =>
      obtain ⟨-, hfresh, -, -, -, hout, -⟩ := Database.publishTx_eq_some hdb
      rcases hout with ⟨-, hout⟩ | ⟨-, -, hout⟩
      · exact .aside rfl (.refl _) fun x hx => .refl (hout ▸ hx)
      · exact .reserved _ rfl rfl hout fun _ => hfresh
  | ping e deliveryId endpointId outboxId db _ hdb =>
      obtain ⟨-, -, -, -, -, -, hout, -⟩ := Database.pingTx_eq_some hdb
      refine .reserved _ rfl rfl hout ?_
      rintro ⟨⟩
  | redeliver tenantId deliveryId outboxId d db _ _ hdb =>
      obtain ⟨-, -, hout, -⟩ := Database.redeliverTx_eq_some hdb
      refine .reserved _ rfl rfl hout ?_
      rintro ⟨⟩
  | tickAdd k m ms published hk =>
      obtain ⟨queue, accepted, hadd⟩ := addJobs_frame m.id (jobsOf cfg.maxAttempts m) s
      refine .handed k _ m _ hk List.mem_cons_self (fun _ => id) ?_ rfl ?_
      · simp [handedIn, nextMessage, hk]
      · rw [hadd]
  | tickFail k mask m ms published hk =>
      obtain ⟨queue, accepted, hadd⟩ :=
        addJobs_frame m.id (addedBeforeFailure mask (jobsOf cfg.maxAttempts m)) s
      refine .handed k _ m _ hk List.mem_cons_self (fun _ => mem_addedBeforeFailure) ?_ rfl ?_
      · simp [handedIn, nextMessage, hk]
      · rw [hadd]
  | tickMark k published hk =>
      refine .aside rfl (.refl _) fun x hx => ?_
      obtain ⟨row, hrow, hid, he, hd, -⟩ := mem_markPublished hx
      exact ⟨row, hrow, hid.symm, he.symm, hd.symm⟩
  | take => exact .aside rfl Queue.within_hand fun _ => .refl
  | planned r i run next => exact .same rfl rfl (next.write.exec_links s.now s.db).2.1
  | left r i run _ _ hgo =>
      have hwithin := letGo_within hgo
      obtain ⟨-, queue, rfl⟩ := letGo_eq_some hgo
      exact .aside rfl hwithin fun _ => .refl
  | unlock => exact .aside rfl Queue.within_unlock fun _ => .refl
  | discard => exact .aside rfl Queue.within_remove fun _ => .refl

/-! ## Where a job comes from -/

/-- The job was made from a row for one of its targets. -/
def Handed.MadeFor (cfg : WorkerConfig) (db : Database) (x : Handed) : Prop :=
  ∃ m, db.Described m ∧ x.outboxId = m.id ∧ x.job ∈ jobsOf cfg.maxAttempts m

/-- The job of the queue was handed to it, and not absorbed. -/
def Source (handed : List Handed) (j : Job) : Prop :=
  ∃ x ∈ handed, x.absorbedBy = none ∧ x.job.id = j.id ∧ x.job.deliveryId = j.deliveryId

/-- An event has one fan-out row. -/
def OneFanOut (db : Database) : Prop :=
  ∀ row ∈ db.outbox.rows, ∀ row' ∈ db.outbox.rows, row.deliveryId = none →
    row'.deliveryId = none → row.eventId = row'.eventId → row.id = row'.id

variable {db : Database} {x y : Handed} {j : Job} {handed : List Handed}

theorem Source.mono (h : Source handed j) (new : List Handed) : Source (handed ++ new) j := by
  obtain ⟨x, hx, hrest⟩ := h
  exact ⟨x, List.mem_append_left _ hx, hrest⟩

theorem Handed.MadeFor.mono {db' : Database} (h : x.MadeFor cfg db) (hext : db.Extends db') :
    x.MadeFor cfg db' := by
  obtain ⟨m, hm, hrest⟩ := h
  exact ⟨m, hext.described hm, hrest⟩

/-- The two kinds of rows, and the id of a job of each. -/
theorem Handed.MadeFor.cases (h : x.MadeFor cfg db) :
    FromFanOut db x ∧ x.job.id = deliveryJobId x.job.deliveryId none ∨
    FromNamed db x ∧ x.job.id = deliveryJobId x.job.deliveryId (some (outboxSuffix x.outboxId)) := by
  obtain ⟨m, hm, hid, hj⟩ := h
  obtain ⟨d, hd, hjob⟩ := mem_jobsOf.1 hj
  obtain ⟨row, hrow, hmsg⟩ := hm
  obtain ⟨hrowId, hrowDel, hds, -⟩ := messageOf_eq_some hmsg
  have hdel : x.job.deliveryId = d := by rw [← hjob]; rfl
  have hjobId : x.job.id = deliveryJobId d (m.deliveryId.map fun _ => outboxSuffix m.id) := by
    rw [← hjob]; rfl
  cases hnamed : m.deliveryId with
  | none =>
      rw [hnamed] at hjobId
      have hmem : d ∈ (db.deliveriesOf row.eventId).map DeliveryRow.id := by
        simpa [targetsOf, hnamed, hds] using hd
      obtain ⟨z, hz, rfl⟩ := List.mem_map.1 hmem
      obtain ⟨hz, hevent⟩ := Database.mem_deliveriesOf.1 hz
      refine .inl ⟨⟨row, hrow, ?_, ?_, ?_⟩, ?_⟩
      · rw [hid, hrowId]
      · rw [← hrowDel, hnamed]
      · rw [hdel]
        exact Database.mem_links.2 ⟨z, Table.find?_of_mem hz, hevent⟩
      · rw [hdel]
        exact hjobId
  | some d' =>
      rw [hnamed] at hjobId
      have hd' : d = d' := by simpa [targetsOf, hnamed] using hd
      refine .inr ⟨⟨row, hrow, ?_, ?_⟩, ?_⟩
      · rw [hid, hrowId]
      · rw [← hrowDel, hnamed, hdel, hd']
      · rw [hdel, hid]
        exact hjobId

/-- A row is of one kind. -/
theorem FromFanOut.not_named (h : FromFanOut db x) (h' : FromNamed db y)
    (hid : x.outboxId = y.outboxId) : False := by
  obtain ⟨row, hrow, hrowId, hnone, -⟩ := h
  obtain ⟨row', hrow', hrowId', hsome⟩ := h'
  have heq : row = row' := Table.eq_of_key hrow hrow' ((hrowId.trans hid).trans hrowId'.symm)
  rw [heq, hsome] at hnone
  cases hnone

/-- The fan-out row is the same for two jobs for one delivery. -/
theorem FromFanOut.outboxId_eq (hone : OneFanOut db) (h : FromFanOut db x) (h' : FromFanOut db y)
    (hd : x.job.deliveryId = y.job.deliveryId) : x.outboxId = y.outboxId := by
  obtain ⟨row, hrow, hrowId, hnone, hlink⟩ := h
  obtain ⟨row', hrow', hrowId', hnone', hlink'⟩ := h'
  rw [hd] at hlink
  have hevent := Database.links_unique hlink hlink'
  rw [← hrowId, ← hrowId', hone row hrow row' hrow' hnone hnone' hevent]

/-- Jobs of one row for one delivery have the same id. -/
theorem Handed.MadeFor.id_eq (hx : x.MadeFor cfg db) (hy : y.MadeFor cfg db)
    (hd : x.job.deliveryId = y.job.deliveryId) (hrow : x.outboxId = y.outboxId) :
    x.job.id = y.job.id := by
  rcases hx.cases with ⟨hfx, hidx⟩ | ⟨hnx, hidx⟩ <;>
    rcases hy.cases with ⟨hfy, hidy⟩ | ⟨hny, hidy⟩
  · rw [hidx, hidy, hd]
  · exact (hfx.not_named hny hrow).elim
  · exact (hfy.not_named hnx hrow.symm).elim
  · rw [hidx, hidy, hd, hrow]

/-- What two jobs with the same id have in common. -/
theorem Handed.MadeFor.of_id_eq (hone : OneFanOut db) (hx : x.MadeFor cfg db)
    (hy : y.MadeFor cfg db) (h : x.job.id = y.job.id) :
    x.job.deliveryId = y.job.deliveryId ∧ x.outboxId = y.outboxId ∧
      (FromFanOut db x ∧ FromFanOut db y ∨ FromNamed db x ∧ FromNamed db y) := by
  rcases hx.cases with ⟨hfx, hidx⟩ | ⟨hnx, hidx⟩ <;>
    rcases hy.cases with ⟨hfy, hidy⟩ | ⟨hny, hidy⟩ <;>
    rw [hidx, hidy] at h <;> obtain ⟨hd, hsuffix⟩ := deliveryJobId_inj h
  · exact ⟨hd, hfx.outboxId_eq hone hfy hd, .inl ⟨hfx, hfy⟩⟩
  · exact absurd hsuffix.symm (outboxSuffix_ne_nil _)
  · exact absurd hsuffix (outboxSuffix_ne_nil _)
  · exact ⟨hd, outboxSuffix_injective hsuffix, .inr ⟨hnx, hny⟩⟩

/-! ## The invariant -/

structure Absorbed (cfg : WorkerConfig) (s : WithHanded) : Prop where
  fanOut : OneFanOut s.sys.db
  made : ∀ x ∈ s.handed, x.MadeFor cfg s.sys.db
  queued : ∀ j ∈ s.sys.queue, Source s.handed j
  absorbed : ∀ x ∈ s.handed, ∀ j ∈ x.absorbedBy, j.id = x.job.id ∧ Source s.handed j

theorem absorbed_init : Absorbed cfg initHanded where
  fanOut := by intro row hrow; cases hrow
  made := by intro x hx; cases hx
  queued := by intro j hj; cases hj
  absorbed := by intro x hx; cases hx

/-- The queue after the jobs of a row were added. -/
theorem addJobs_queue (outboxId : ℕ) (jobs : List Job) (s : State) :
    (addJobs s outboxId jobs).queue = jobs.foldl Queue.add s.queue := by
  induction jobs generalizing s with
  | nil => rfl
  | cons j js ih =>
      rw [addJobs, List.foldl_cons, Queue.add]
      cases s.queue.insert? j with
      | none => exact ih s
      | some queue => exact ih _

theorem mem_handedBy {q : Queue} {outboxId : ℕ} {jobs : List Job}
    (h : x ∈ handedBy q outboxId jobs) : x.outboxId = outboxId ∧ x.job ∈ jobs := by
  induction jobs generalizing q with
  | nil => cases h
  | cons j js ih =>
      rcases List.mem_cons.1 h with rfl | h
      · exact ⟨rfl, List.mem_cons_self⟩
      · obtain ⟨hid, hjob⟩ := ih h
        exact ⟨hid, List.mem_cons_of_mem _ hjob⟩

/-- Afterwards every job of the queue has its source in the log, and a job that was absorbed
was absorbed by one of them. -/
theorem handedBy_source {q : Queue} (outboxId : ℕ) (jobs : List Job)
    (h : ∀ j ∈ q, Source handed j) :
    (∀ j ∈ jobs.foldl Queue.add q, Source (handed ++ handedBy q outboxId jobs) j) ∧
    ∀ x ∈ handedBy q outboxId jobs, ∀ j ∈ x.absorbedBy,
      j.id = x.job.id ∧ Source (handed ++ handedBy q outboxId jobs) j := by
  induction jobs generalizing q handed with
  | nil => exact ⟨fun j hj => by rw [handedBy, List.append_nil]; exact h j hj,
      fun _ hx => by cases hx⟩
  | cons job js ih =>
      -- the job itself is the source of what it adds
      have hadd : ∀ j ∈ q.add job, Source (handed ++ [⟨outboxId, job, q.find? job.id⟩]) j := by
        intro j hj
        rcases Queue.mem_add hj with hj | ⟨rfl, hfree⟩
        · exact (h j hj).mono _
        · exact ⟨_, List.mem_append_right _ (List.mem_singleton_self _), hfree, rfl, rfl⟩
      obtain ⟨hqueue, habsorbed⟩ := ih hadd
      rw [List.append_assoc, List.singleton_append] at hqueue habsorbed
      refine ⟨hqueue, ?_⟩
      intro x hx j hj
      rcases List.mem_cons.1 hx with rfl | hx
      · obtain ⟨hmem, hid⟩ := Table.find?_eq_some_iff.1 hj
        exact ⟨hid, (h j hmem).mono _⟩
      · exact habsorbed x hx j hj

/-- What a step leaves of the log and the queue when it hands over nothing. -/
theorem Absorbed.aside {s : WithHanded} {sys : State} (h : Absorbed cfg s)
    (hext : s.sys.db.Extends sys.db) (hone : OneFanOut sys.db)
    (hqueue : s.sys.queue.Within sys.queue) : Absorbed cfg ⟨sys, s.handed ++ []⟩ := by
  rw [List.append_nil]
  refine ⟨hone, fun x hx => (h.made x hx).mono hext, ?_, h.absorbed⟩
  intro j' hj'
  obtain ⟨j, hj, hid, hd, -⟩ := hqueue j' hj'
  obtain ⟨x, hx, hnone, hxid, hxd⟩ := h.queued j hj
  exact ⟨x, hx, hnone, hxid.trans hid.symm, hxd.trans hd.symm⟩

/-- One step. -/
theorem step_absorbed {s s' : WithHanded} (hlinked : s.sys.db.Linked) (htracked : Tracked s.sys)
    (h : Absorbed cfg s) (hs : stepHanded cfg s a = some s') : Absorbed cfg s' := by
  obtain ⟨sys, hsys, rfl⟩ := Option.map_eq_some_iff.1 hs
  have hext := (step_flow hsys).extends
  cases step_handing hsys with
  | aside hnone hqueue hrows =>
      rw [hnone]
      refine h.aside hext ?_ hqueue
      intro row hrow row' hrow' hd hd' he
      obtain ⟨x, hx, hid, hev, hdel⟩ := hrows row hrow
      obtain ⟨x', hx', hid', hev', hdel'⟩ := hrows row' hrow'
      rw [← hid, ← hid']
      exact h.fanOut x hx x' hx' (hdel.trans hd) (hdel'.trans hd') (by rw [hev, hev', he])
  | reserved new hnone hqueue hrows hfresh =>
      rw [hnone]
      refine h.aside hext ?_ (hqueue ▸ .refl _)
      -- an old row is not of the new event
      have hold : ∀ row ∈ s.sys.db.outbox.rows, new.deliveryId = none → row.eventId ≠ new.eventId := by
        intro row hrow hd he
        obtain ⟨e, hevent⟩ := hlinked.rowEvent row hrow
        rw [he, hfresh hd] at hevent
        cases hevent
      intro row hrow row' hrow' hd hd' he
      rw [hrows, List.mem_append, List.mem_singleton] at hrow hrow'
      rcases hrow with hrow | rfl <;> rcases hrow' with hrow' | rfl
      · exact h.fanOut row hrow row' hrow' hd hd' he
      · exact absurd he (hold row hrow hd')
      · exact absurd he.symm (hold row' hrow' hd)
      · rfl
  | handed k t m jobs hk hm hjobs hhanded hqueue hdb =>
      have hdescribed : s.sys.db.Described m := (htracked.ticks k t hk).todo m hm
      rw [addJobs_queue] at hqueue
      obtain ⟨hsource, habsorbed⟩ := handedBy_source m.id jobs h.queued
      rw [hhanded]
      refine ⟨hdb ▸ h.fanOut, ?_, hqueue ▸ hsource, ?_⟩
      · intro x hx
        rcases List.mem_append.1 hx with hx | hx
        · exact (h.made x hx).mono hext
        · obtain ⟨hid, hjob⟩ := mem_handedBy hx
          exact ⟨m, hext.described hdescribed, hid, hjobs _ hjob⟩
      · intro x hx j hj
        rcases List.mem_append.1 hx with hx | hx
        · obtain ⟨hid, hsrc⟩ := h.absorbed x hx j hj
          exact ⟨hid, hsrc.mono _⟩
        · exact habsorbed x hx j hj

/-! ## Whole runs -/

/-- A run of the system with its log is a run of the system. -/
theorem reach_of_handed {P : WithHanded → Action → Prop} {s : WithHanded}
    (h : Path (stepHanded cfg) P initHanded s) : Reach cfg s.sys := by
  induction h with
  | refl => exact .refl
  | snoc _ _ hs ih =>
      obtain ⟨sys, hsys, rfl⟩ := Option.map_eq_some_iff.1 hs
      exact ih.snoc trivial hsys

theorem path_absorbed {s : WithHanded} (h : Reachable (stepHanded cfg) initHanded s) :
    Absorbed cfg s :=
  h.invariant_along (J := fun s => s.sys.db.Linked ∧ Tracked s.sys)
    (fun _ hp => ⟨path_linked (reach_of_handed hp), path_tracked (reach_of_handed hp)⟩)
    (fun _ _ _ hJ hI _ hs => step_absorbed hJ.1 hJ.2 hI hs) absorbed_init

/-- **Re-enqueueing is absorbed.**  Two jobs that were handed to the queue have the same id
exactly when they are for the same delivery and come from the same row, the fan-out row of
the delivery's event or a row that names the delivery.  So the queue holds at most one job
for a row and a target of it, and what absorbs the job of a row that names a delivery is a
job of this row. -/
theorem reenqueueing_absorbed (cfg : WorkerConfig) (s : WithHanded)
    (h : Reachable (stepHanded cfg) initHanded s) :
    (∀ x ∈ s.handed, ∀ y ∈ s.handed, x.job.id = y.job.id ↔
      x.job.deliveryId = y.job.deliveryId ∧ x.outboxId = y.outboxId ∧
      (FromFanOut s.sys.db x ∧ FromFanOut s.sys.db y ∨
        FromNamed s.sys.db x ∧ FromNamed s.sys.db y)) ∧
    (∀ j ∈ s.sys.queue, Source s.handed j) ∧
    (∀ j ∈ s.sys.queue, ∀ j' ∈ s.sys.queue, ∀ x ∈ s.handed, ∀ y ∈ s.handed, x.job.id = j.id →
      y.job.id = j'.id → x.outboxId = y.outboxId → x.job.deliveryId = y.job.deliveryId → j = j') ∧
    (∀ x ∈ s.handed, FromNamed s.sys.db x → ∀ j ∈ x.absorbedBy,
      Source s.handed j ∧ ∀ y ∈ s.handed, y.job.id = j.id →
        y.outboxId = x.outboxId ∧ y.job.deliveryId = x.job.deliveryId) := by
  have hinv := path_absorbed h
  have common : ∀ x ∈ s.handed, ∀ y ∈ s.handed, x.job.id = y.job.id → _ := fun x hx y hy =>
    (hinv.made x hx).of_id_eq hinv.fanOut (hinv.made y hy)
  have same : ∀ x ∈ s.handed, ∀ y ∈ s.handed, x.job.deliveryId = y.job.deliveryId →
      x.outboxId = y.outboxId → x.job.id = y.job.id := fun x hx y hy =>
    (hinv.made x hx).id_eq (hinv.made y hy)
  refine ⟨?_, hinv.queued, ?_, ?_⟩
  · intro x hx y hy
    exact ⟨common x hx y hy, fun ⟨hd, hrow, _⟩ => same x hx y hy hd hrow⟩
  · intro j hj j' hj' x hx y hy hxj hyj hrow hd
    exact Table.eq_of_key hj hj' ((hxj.symm.trans (same x hx y hy hd hrow)).trans hyj)
  · intro x hx _ j hj
    obtain ⟨hid, hsource⟩ := hinv.absorbed x hx j hj
    refine ⟨hsource, ?_⟩
    intro y hy hyj
    obtain ⟨hd, hrow, -⟩ := common y hy x hx (hyj.trans hid)
    exact ⟨hrow, hd⟩

/-- A relay dies before it marks the fan-out row, and another one before it marks this row and
that of a redelivery. -/
def handedAgain : List Action :=
  [.createEndpoint Sample.endpointRow,
    .publish Sample.eventRow [(Sample.delivery, Sample.endpoint)] 0, .tickRead 0 100, .tickAdd 0,
    .tickCrash 0, .redeliver Sample.tenant Sample.delivery 1, .tickRead 1 100, .tickAdd 1,
    .tickAdd 1, .tickCrash 1, .tickRead 0 100, .tickAdd 0, .tickAdd 0]

/-- At a run in which the job of each row is handed over again and absorbed. -/
theorem reenqueueing_absorbed_after_crashes : ∃ s, Reachable (stepHanded Sample.cfg) initHanded s ∧
    s.handed.map (fun x => (x.outboxId, x.absorbedBy.isSome)) =
      [(0, false), (0, true), (1, false), (0, true), (1, true)] ∧
    ∀ x ∈ s.handed, FromNamed s.sys.db x → ∀ j ∈ x.absorbedBy,
      Source s.handed j ∧ ∀ y ∈ s.handed, y.job.id = j.id →
        y.outboxId = x.outboxId ∧ y.job.deliveryId = x.job.deliveryId := by
  obtain ⟨s, hpath, hs⟩ := Path.exists_of_runChecked (stepHanded Sample.cfg) (P := anyAction)
    (p := fun _ _ => true) (fun _ _ _ => trivial) initHanded handedAgain
    (fun s => decide (s.handed.map (fun x => (x.outboxId, x.absorbedBy.isSome)) =
      [(0, false), (0, true), (1, false), (0, true), (1, true)])) (by decide +kernel)
  exact ⟨s, hpath, of_decide_eq_true hs, (reenqueueing_absorbed Sample.cfg s hpath).2.2.2⟩

end System

end HookRelay
