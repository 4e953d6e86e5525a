import HookRelay.Lib.Front
import HookRelay.System.Outbox

/-!
# The order in which the outbox is published

A tick takes the `PENDING` rows with the smallest ids, stops at the first row that fails, and
marks what it has added.  Relays overlap, fail and die, and each of them acts on a batch that
it read some time ago.

* `pendingIds`, `Tick.ids` — the rows that wait, and the rows of a batch.
* `InSequence` — a row is committed with an id above those of all rows that are there.
* `Ordered`, `path_ordered` — every batch is a front of the waiting rows, `PUBLISHED` rows
  come before `PENDING` ones, and a job is accepted after those of all earlier rows.
* `published_in_order` — the result.
* `late` — the rows that come in before a given one, as ids are drawn before the commit.
* `Draining`, `outbox_drains` — a row is published once a working relay has come past all rows
  in front of it, `batchSize` at a time, whatever the other relays do.
-/

namespace HookRelay

open Lib

/-- The ids of the rows that are `PENDING`. -/
def Database.pendingIds (db : Database) : Finset ℕ :=
  ((db.outbox.rows.filter fun row => row.status = .pending).map OutboxRow.id).toFinset

/-- The rows of the batch, those that were added and those that are still to be. -/
def Tick.ids (t : Tick) : List ℕ := t.published ++ t.todo.map Message.id

/-- The number under which the step commits an outbox row, if it commits one. -/
def System.Action.outboxId? : System.Action → Option ℕ
  | .publish _ targets outboxId => if targets = [] then none else some outboxId
  | .ping _ _ _ outboxId | .redeliver _ _ outboxId => some outboxId
  | _ => none

theorem Database.mem_pendingIds {db : Database} {i : ℕ} :
    i ∈ db.pendingIds ↔ ∃ row ∈ db.outbox.rows, row.status = .pending ∧ row.id = i := by
  simp [Database.pendingIds, and_assoc]

/-! ## The batch -/

/-- The ids of a batch: every row has its event, so none is left out. -/
theorem readBatch_ids {db : Database} (h : db.Linked) (n : ℕ) :
    (readBatch db n).map Message.id =
      (((db.outbox.rows.filter fun row => row.status = .pending).insertionSort
        fun a b => a.id ≤ b.id).take n).map OutboxRow.id := by
  rw [readBatch, List.map_filterMap, ← List.filterMap_eq_map]
  refine List.filterMap_congr fun row hrow => ?_
  have hmem := (List.mem_insertionSort _).1 (List.mem_of_mem_take hrow)
  obtain ⟨e, he⟩ := h.rowEvent row (List.mem_of_mem_filter hmem)
  rw [messageOf, he]
  rfl

/-- The ids of the waiting rows in order. -/
theorem sorted_ids (db : Database) :
    ((db.outbox.rows.filter fun row => row.status = .pending).insertionSort
      fun a b => a.id ≤ b.id).map OutboxRow.id |>.Pairwise (· < ·) := by
  obtain ⟨rows, hrows⟩ : ∃ rows, rows = db.outbox.rows.filter fun row => row.status = .pending :=
    ⟨_, rfl⟩
  rw [← hrows]
  have hle : (rows.insertionSort fun a b => a.id ≤ b.id).Pairwise fun a b => a.id ≤ b.id :=
    List.pairwise_insertionSort _ rows
  have hne : ((rows.insertionSort fun a b => a.id ≤ b.id).map OutboxRow.id).Nodup := by
    refine (((List.perm_insertionSort _ rows).map OutboxRow.id).nodup_iff).2 ?_
    rw [hrows]
    exact db.outbox.nodup.sublist (List.filter_sublist.map _)
  rw [List.pairwise_map]
  refine (hle.and (List.pairwise_map.1 hne)).imp fun h => ?_
  exact lt_of_le_of_ne h.1 h.2

/-- **A batch is a front** of the waiting rows: the first of them, and all of them if there are
fewer than it may hold. -/
theorem front_readBatch {db : Database} (h : db.Linked) (n : ℕ) :
    Front (· ∈ db.pendingIds) ((readBatch db n).map Message.id) ∧
    (∀ i ∈ (readBatch db n).map Message.id, i ∈ db.pendingIds) ∧
    (n ≤ ((readBatch db n).map Message.id).length ∨
      ∀ i ∈ db.pendingIds, i ∈ (readBatch db n).map Message.id) := by
  obtain ⟨xs, hxs⟩ : ∃ xs, xs = ((db.outbox.rows.filter fun row => row.status = .pending).insertionSort
    fun a b => a.id ≤ b.id).map OutboxRow.id := ⟨_, rfl⟩
  have hmem : ∀ i, i ∈ xs ↔ i ∈ db.pendingIds := by
    intro i
    rw [hxs, Database.mem_pendingIds]
    simp [and_assoc]
  have hids : (readBatch db n).map Message.id = xs.take n := by
    rw [readBatch_ids h, hxs, List.map_take]
  rw [hids]
  refine ⟨front_take (hxs ▸ sorted_ids db) (fun i => (hmem i).2) n,
    fun i hi => (hmem i).1 (List.mem_of_mem_take hi), ?_⟩
  rcases le_total n xs.length with hle | hle
  · exact .inl (by rw [List.length_take, min_eq_left hle])
  · exact .inr fun i hi => by rw [List.take_of_length_le hle]; exact (hmem i).2 hi

namespace System

variable {cfg : WorkerConfig} {s s' : State} {a : Action}

/-! ## The rows of the outbox -/

/-- A row is committed with an id above those of the rows that are there. -/
def InSequence (s : State) (a : Action) : Prop :=
  ∀ o, a.outboxId? = some o → ∀ row ∈ s.db.outbox.rows, row.id < o

/-- A row was there before, or was just committed. -/
theorem step_rowIds (hs : step cfg s a = some s') {row : OutboxRow}
    (hrow : row ∈ s'.db.outbox.rows) :
    (∃ old ∈ s.db.outbox.rows, old.id = row.id) ∨ a.outboxId? = some row.id := by
  have appended : ∀ {new : OutboxRow}, s'.db.outbox.rows = s.db.outbox.rows ++ [new] →
      a.outboxId? = some new.id →
      (∃ old ∈ s.db.outbox.rows, old.id = row.id) ∨ a.outboxId? = some row.id := by
    intro new hout ha
    rw [hout, List.mem_append, List.mem_singleton] at hrow
    rcases hrow with hrow | rfl
    · exact .inl ⟨row, hrow, rfl⟩
    · exact .inr ha
  cases stepped_of_step hs with
  | publish e targets outboxId db _ hdb =>
      obtain ⟨-, -, -, -, -, ⟨-, hout⟩ | ⟨hne, -, hout⟩, -⟩ := Database.publishTx_eq_some hdb
      · exact .inl ⟨row, hout ▸ hrow, rfl⟩
      · have htargets : targets ≠ [] := fun h => hne (by rw [h]; rfl)
        exact appended hout (if_neg htargets)
  | ping e deliveryId endpointId outboxId db _ hdb =>
      obtain ⟨-, -, -, -, -, -, hout, -⟩ := Database.pingTx_eq_some hdb
      exact appended hout rfl
  | redeliver tenantId deliveryId outboxId d db _ _ hdb =>
      obtain ⟨-, -, hout, -⟩ := Database.redeliverTx_eq_some hdb
      exact appended hout rfl
  | tickAdd k m ms published =>
      obtain ⟨queue, accepted, heq⟩ := addJobs_frame m.id (jobsOf cfg.maxAttempts m) s
      rw [heq] at hrow
      exact .inl ⟨row, hrow, rfl⟩
  | tickFail k mask m ms published =>
      obtain ⟨queue, accepted, heq⟩ :=
        addJobs_frame m.id (addedBeforeFailure mask (jobsOf cfg.maxAttempts m)) s
      rw [heq] at hrow
      exact .inl ⟨row, hrow, rfl⟩
  | tickMark k published =>
      obtain ⟨old, hold, hid, -⟩ := mem_markPublished hrow
      exact .inl ⟨old, hold, hid.symm⟩
  | planned r i run next =>
      obtain ⟨-, hout, -⟩ := next.write.exec_links s.now s.db
      exact .inl ⟨row, hout ▸ hrow, rfl⟩
  | left r i run _ _ hgo =>
      obtain ⟨-, queue, rfl⟩ := letGo_eq_some hgo
      exact .inl ⟨row, hrow, rfl⟩
  | _ => exact .inl ⟨row, hrow, rfl⟩

/-- Rows that are appended have ids above the others. -/
theorem above_of_appended {rows : List OutboxRow} (hseq : InSequence s a)
    (hs : step cfg s a = some s') (hout : s'.db.outbox.rows = s.db.outbox.rows ++ rows)
    {row : OutboxRow} (hrow : row ∈ rows) : ∀ old ∈ s.db.outbox.rows, old.id < row.id := by
  rcases step_rowIds hs (by rw [hout]; exact List.mem_append_right _ hrow) with
    ⟨old, hold, hid⟩ | ho
  · have hnodup := s'.db.outbox.nodup
    rw [hout, List.map_append] at hnodup
    exact absurd (hid ▸ List.mem_map_of_mem hrow)
      ((List.nodup_append'.1 hnodup).2.2 (List.mem_map_of_mem hold))
  · exact hseq row.id ho

/-- A row that was `PUBLISHED` stays so. -/
theorem pending_of_step (hs : step cfg s a = some s') {old : OutboxRow}
    (hold : old ∈ s.db.outbox.rows) (hi : old.id ∈ s'.db.pendingIds) :
    old.id ∈ s.db.pendingIds := by
  obtain ⟨row, hrow, hp, hid⟩ := Database.mem_pendingIds.1 hi
  refine Database.mem_pendingIds.2 ⟨old, hold, ?_, rfl⟩
  by_contra hpub
  have kept : ∀ rows : List OutboxRow, s'.db.outbox.rows = s.db.outbox.rows ++ rows → False := by
    intro rows hout
    have hold' : old ∈ s'.db.outbox.rows := by
      rw [hout]
      exact List.mem_append_left _ hold
    rw [Table.eq_of_key (t := s'.db.outbox.toTable) hrow hold' hid] at hp
    exact hpub hp
  cases step_flow hs with
  | aside _ hout _ _ _ _ => exact kept [] (by rw [hout, List.append_nil])
  | reserved _ _ rows _ _ _ _ hout _ _ _ _ _ => exact kept rows hout
  | reopened _ _ _ _ hout _ _ _ => exact kept _ hout
  | read _ _ _ heq => exact kept [] (by rw [heq, List.append_nil])
  | added k m ms published jobs rest _ _ _ heq =>
      obtain ⟨queue, accepted, hadd⟩ := addJobs_frame m.id jobs s
      exact kept [] (by rw [heq, hadd, List.append_nil])
  | marked k published _ heq =>
      rw [heq] at hrow
      obtain ⟨y, hy, hxy, -, -, rfl | ⟨-, -, hpub'⟩⟩ := mem_markPublished hrow
      · rw [Table.eq_of_key (t := s.db.outbox.toTable) hy hold hid] at hp
        exact hpub hp
      · rw [hpub'] at hp
        cases hp
  | died _ heq => exact kept [] (by rw [heq, List.append_nil])

/-- What waits after a step waited before, or was just committed. -/
theorem step_pendingIds (hs : step cfg s a = some s') {i : ℕ} (hi : i ∈ s'.db.pendingIds) :
    i ∈ s.db.pendingIds ∨ a.outboxId? = some i := by
  obtain ⟨row, hrow, -, rfl⟩ := Database.mem_pendingIds.1 hi
  refine (step_rowIds hs hrow).imp_left ?_
  rintro ⟨old, hold, hid⟩
  rw [← hid] at hi ⊢
  exact pending_of_step hs hold hi

/-! ## The invariant -/

/-- All jobs of a row are among the accepted ones. -/
def RowEnqueued (db : Database) (accepted : List Accepted) (row : OutboxRow) : Prop :=
  ∃ m, messageOf db row = some m ∧ Enqueued accepted m

structure Ordered (s : State) : Prop where
  /-- The `PUBLISHED` rows come before the `PENDING` ones. -/
  rows : ∀ x ∈ s.db.outbox.rows, ∀ y ∈ s.db.outbox.rows, x.id < y.id →
    y.status = .published → x.status = .published
  /-- Every batch is a front of the rows that wait. -/
  ticks : ∀ k t, s.ticks k = some t → Front (· ∈ s.db.pendingIds) t.ids ∧
    ∀ i ∈ t.ids, ∃ row ∈ s.db.outbox.rows, row.id = i
  /-- Before a job of a row is accepted, all jobs of earlier rows are. -/
  accepted : ∀ earlier x later, s.accepted = earlier ++ x :: later →
    ∀ row ∈ s.db.outbox.rows, row.id < x.outboxId → RowEnqueued s.db earlier row

/-- The rows that were there keep their jobs. -/
theorem RowEnqueued.mono {db db' : Database} {acc acc' : List Accepted} {row row' : OutboxRow}
    (h : RowEnqueued db acc row) (hext : db.Extends db') (hacc : ∀ x ∈ acc, x ∈ acc')
    (hid : row'.id = row.id) (he : row'.eventId = row.eventId)
    (hd : row'.deliveryId = row.deliveryId) : RowEnqueued db' acc' row' := by
  obtain ⟨m, hm, henq⟩ := h
  exact ⟨m, hext.messageOf hm hid he hd, henq.mono hacc⟩

/-- Adding jobs of a row appends to what was accepted. -/
theorem addJobs_accepted (outboxId : ℕ) (jobs : List Job) (s : State) : ∃ new,
    (addJobs s outboxId jobs).accepted = s.accepted ++ new ∧ ∀ x ∈ new, x.outboxId = outboxId := by
  induction jobs generalizing s with
  | nil => exact ⟨[], by simp [addJobs], fun _ hx => by cases hx⟩
  | cons j js ih =>
      unfold addJobs
      cases s.queue.insert? j with
      | none => exact ih s
      | some queue =>
          obtain ⟨new, heq, hnew⟩ := ih { s with
            queue := queue
            accepted := s.accepted ++ [⟨outboxId, j.id, j.deliveryId, j.tenantId⟩] }
          refine ⟨⟨outboxId, j.id, j.deliveryId, j.tenantId⟩ :: new, ?_, fun x hx => ?_⟩
          · rw [heq, List.append_assoc]
            rfl
          · rcases List.mem_cons.1 hx with rfl | hx
            · rfl
            · exact hnew x hx

/-- A row that is still `PENDING` after marking was so before, and was not to be marked. -/
theorem pending_of_markPublished {db : Database} {now : Micros} {ids : List ℕ} {row : OutboxRow}
    (hrow : row ∈ (markPublished db now ids).outbox.rows) (hp : row.status = .pending) :
    ∃ old ∈ db.outbox.rows, (old.status = .pending ∧ old.id = row.id) ∧ row.id ∉ ids := by
  obtain ⟨old, hold, rfl⟩ := List.mem_map.1 hrow
  split_ifs at hp ⊢ with hmark
  · cases hp
  · refine ⟨old, hold, ⟨hp, rfl⟩, fun hin => hmark ?_⟩
    simp [hin, hp]

/-- A row that is not `PENDING` is `PUBLISHED`. -/
theorem published_of_notMem {row : OutboxRow} (hrow : row ∈ s.db.outbox.rows)
    (h : row.id ∉ s.db.pendingIds) : row.status = .published := by
  cases hstatus : row.status with
  | published => rfl
  | pending => exact absurd (Database.mem_pendingIds.2 ⟨row, hrow, hstatus, rfl⟩) h

/-- Batches stay fronts while rows are published and committed in sequence. -/
theorem Ordered.front {k : ℕ} {t : Tick} (h : Ordered s) (hseq : InSequence s a)
    (hs : step cfg s a = some s') (ht : s.ticks k = some t) :
    Front (· ∈ s'.db.pendingIds) t.ids ∧ ∀ i ∈ t.ids, ∃ row ∈ s'.db.outbox.rows, row.id = i := by
  obtain ⟨hfront, hrows⟩ := h.ticks k t ht
  refine ⟨hfront.mono fun i hi => ?_, fun i hi => ?_⟩
  · refine (step_pendingIds hs hi).imp_right fun ho x hx => ?_
    obtain ⟨row, hrow, rfl⟩ := hrows x hx
    exact hseq i ho row hrow
  · obtain ⟨row, hrow, rfl⟩ := hrows i hi
    obtain ⟨row', hrow', hid, -⟩ := (step_flow hs).extends.outbox row hrow
    exact ⟨row', hrow', hid⟩

/-- Steps that publish nothing and add no job: rows may be appended, and one tick replaced. -/
theorem Ordered.of_appended (rows : List OutboxRow) (h : Ordered s) (htracked : Tracked s)
    (hseq : InSequence s a) (hs : step cfg s a = some s')
    (hout : s'.db.outbox.rows = s.db.outbox.rows ++ rows)
    (hpending : ∀ row ∈ rows, row.status = .pending) (hacc : s'.accepted = s.accepted)
    (hticks : ∀ k t, s'.ticks k = some t → s.ticks k = some t ∨
      Front (· ∈ s'.db.pendingIds) t.ids ∧ ∀ i ∈ t.ids, ∃ row ∈ s'.db.outbox.rows, row.id = i) :
    Ordered s' := by
  refine ⟨fun x hx y hy hlt hpub => ?_, fun k t ht => ?_, fun earlier x later hx row hrow hlt => ?_⟩
  · rw [hout, List.mem_append] at hx hy
    rcases hy with hy | hy
    · rcases hx with hx | hx
      · exact h.rows x hx y hy hlt hpub
      · exact absurd hlt (not_lt.2 (above_of_appended hseq hs hout hx y hy).le)
    · rw [hpending y hy] at hpub
      cases hpub
  · rcases hticks k t ht with ht | hok
    · exact h.front hseq hs ht
    · exact hok
  · rw [hacc] at hx
    -- the job is of a row that was there, so an earlier row was there as well
    obtain ⟨m, ⟨owner, howner, hm⟩, hid, -⟩ := htracked.madeFor x (by rw [hx]; simp)
    rw [hid, (messageOf_eq_some hm).1] at hlt
    rw [hout, List.mem_append] at hrow
    rcases hrow with hrow | hrow
    · have hold := h.accepted earlier x later hx row hrow
        (by rw [hid, (messageOf_eq_some hm).1]; exact hlt)
      exact hold.mono (step_flow hs).extends (fun _ => id) rfl rfl rfl
    · exact absurd hlt (not_lt.2 (above_of_appended hseq hs hout hrow owner howner).le)

/-- The rows before the one whose jobs a relay adds are enqueued already. -/
theorem Ordered.enqueued_before {k : ℕ} {m : Message} {ms : List Message} {published : List ℕ}
    (h : Ordered s) (htracked : Tracked s) (hk : s.ticks k = some ⟨m :: ms, published⟩)
    {row : OutboxRow} (hrow : row ∈ s.db.outbox.rows) (hlt : row.id < m.id) :
    RowEnqueued s.db s.accepted row := by
  by_cases hp : row.id ∈ s.db.pendingIds
  · -- it waits, so the relay has added it
    have hfront : Front (· ∈ s.db.pendingIds) (published ++ m.id :: ms.map Message.id) :=
      (h.ticks k _ hk).1
    obtain ⟨m', ⟨row', hrow', hm'⟩, hid, henq⟩ :=
      (htracked.ticks k _ hk).added row.id (hfront.mem_left hp hlt)
    have heq : row' = row := Table.eq_of_key (t := s.db.outbox.toTable) hrow' hrow
      ((messageOf_eq_some hm').1.symm.trans hid)
    exact ⟨m', heq ▸ hm', henq⟩
  · exact htracked.marked row hrow (published_of_notMem hrow hp)

/-- A relay adds jobs of the first row that it has still to do. -/
theorem Ordered.added {k : ℕ} {m : Message} {ms : List Message} {published : List ℕ}
    {jobs : List Job} {rest : Tick} (h : Ordered s) (htracked : Tracked s)
    (hs : step cfg s a = some s') (hk : s.ticks k = some ⟨m :: ms, published⟩)
    (hrest : rest = ⟨[], published⟩ ∨ rest = ⟨ms, published ++ [m.id]⟩)
    (heq : s' = { addJobs s m.id jobs with ticks := Function.update s.ticks k (some rest) }) :
    Ordered s' := by
  obtain ⟨queue, accepted, hadd⟩ := addJobs_frame m.id jobs s
  have hdb : s'.db = s.db := by rw [heq, hadd]
  have hext : s.db.Extends s'.db := (step_flow hs).extends
  -- the jobs that are new are of row `m`
  obtain ⟨new, hacc, hnew⟩ : ∃ new, s'.accepted = s.accepted ++ new ∧
      ∀ x ∈ new, x.outboxId = m.id := by
    rw [heq]
    exact addJobs_accepted m.id jobs s
  refine ⟨by rw [hdb]; exact h.rows, fun i t ht => ?_, fun earlier x later hx row hrow hlt => ?_⟩
  · rw [hdb]
    rw [heq] at ht
    by_cases hik : i = k
    · rw [hik] at ht
      simp only [Function.update_self, Option.some.injEq] at ht
      subst ht
      obtain ⟨hfront, hrows⟩ := h.ticks k _ hk
      rcases hrest with rfl | rfl
      · refine ⟨?_, fun i hi => hrows i ?_⟩
        · rw [Tick.ids, List.map_nil, List.append_nil]
          exact hfront.of_append
        · rw [Tick.ids, List.map_nil, List.append_nil] at hi
          exact List.mem_append_left _ hi
      · have hids : Tick.ids ⟨ms, published ++ [m.id]⟩ = Tick.ids ⟨m :: ms, published⟩ := by
          simp [Tick.ids]
        rw [hids]
        exact ⟨hfront, hrows⟩
    · simp only [Function.update_of_ne hik] at ht
      have hold : s.ticks i = some t := ht
      exact h.ticks i t hold
  · rw [hdb] at hrow
    -- a new job comes after all that were accepted before
    have after : ∀ before, earlier = s.accepted ++ before → x ∈ new →
        RowEnqueued s'.db earlier row := by
      rintro before rfl hmem
      exact (h.enqueued_before htracked hk hrow (hnew x hmem ▸ hlt)).mono hext
        (fun y hy => List.mem_append_left _ hy) rfl rfl rfl
    rw [hacc] at hx
    rcases List.append_eq_append_iff.1 hx with ⟨before, hearlier, hrest'⟩ | ⟨rest', hold, hnews⟩
    · exact after before hearlier (by rw [hrest']; simp)
    · cases rest' with
      | nil =>
          rw [List.append_nil] at hold
          rw [List.nil_append] at hnews
          exact after [] (by rw [hold, List.append_nil]) (by rw [← hnews]; simp)
      | cons y ys =>
          obtain ⟨rfl, -⟩ := List.cons.inj hnews
          exact (h.accepted earlier x ys hold row hrow hlt).mono hext (fun _ => id) rfl rfl rfl

/-- A relay marks the rows that it added. -/
theorem Ordered.marked {k : ℕ} {published : List ℕ} (h : Ordered s) (hseq : InSequence s a)
    (hs : step cfg s a = some s') (hk : s.ticks k = some ⟨[], published⟩)
    (heq : s' = { s with
      db := markPublished s.db s.now published, ticks := Function.update s.ticks k none }) :
    Ordered s' := by
  have hext : s.db.Extends s'.db := (step_flow hs).extends
  have hfront : Front (· ∈ s.db.pendingIds) published := by
    have := (h.ticks k _ hk).1
    rwa [Tick.ids, List.map_nil, List.append_nil] at this
  refine ⟨fun x hx y hy hlt hpub => ?_, fun i t ht => ?_, fun earlier x later hx row hrow hlt => ?_⟩
  · rw [heq] at hx hy
    obtain ⟨x₀, hx₀, hxid, -, -, hxcase⟩ := mem_markPublished hx
    obtain ⟨y₀, hy₀, hyid, -, -, hycase⟩ := mem_markPublished hy
    rw [hxid, hyid] at hlt
    rcases hxcase with rfl | ⟨-, -, hx'⟩
    · by_contra hpend
      have hmem : x.id ∈ s.db.pendingIds := by
        by_contra hno
        exact hpend (published_of_notMem hx₀ hno)
      rcases hycase with rfl | ⟨hin, -, -⟩
      · exact hpend (h.rows x hx₀ y hy₀ hlt hpub)
      · -- the row before a marked one is marked as well
        have hxin := hfront.closed y₀.id hin x.id hmem hlt
        obtain ⟨row, hrow, hst, hrowid⟩ := Database.mem_pendingIds.1 hmem
        have hrx : row = x := Table.eq_of_key (t := s.db.outbox.toTable) hrow hx₀ hrowid
        have hmarked : publishedData s.now x ∈
            (markPublished s.db s.now published).outbox.rows := by
          refine List.mem_map.2 ⟨x, hx₀, if_pos ?_⟩
          simp [hxin, hrx ▸ hst]
        have hsame : publishedData s.now x = x :=
          Table.eq_of_key (t := (markPublished s.db s.now published).outbox.toTable) hmarked hx rfl
        rw [← hsame] at hpend
        exact hpend rfl
    · exact hx'
  · rw [heq] at ht
    by_cases hik : i = k
    · rw [hik] at ht
      simp only [Function.update_self] at ht
      cases ht
    · simp only [Function.update_of_ne hik] at ht
      exact h.front hseq hs ht
  · rw [heq] at hx hrow
    obtain ⟨old, hold, hid, he, hd, -⟩ := mem_markPublished hrow
    exact (h.accepted earlier x later hx old hold (hid ▸ hlt)).mono hext (fun _ => id) hid he hd

theorem step_ordered (hlinked : s.db.Linked) (htracked : Tracked s) (h : Ordered s)
    (hseq : InSequence s a) (hs : step cfg s a = some s') : Ordered s' := by
  cases step_flow hs with
  | aside _ hout _ hticks hacc _ =>
      exact h.of_appended [] htracked hseq hs (by rw [hout, List.append_nil])
        (fun _ hrow => by cases hrow) hacc fun k t ht => .inl (hticks ▸ ht)
  | reserved e ds rows _ _ _ _ hout hrows _ hticks hacc _ =>
      exact h.of_appended _ htracked hseq hs hout (fun row hrow => (hrows row hrow).2.1) hacc
        fun k t ht => .inl (hticks ▸ ht)
  | reopened d _ _ _ hout hticks hacc _ =>
      refine h.of_appended _ htracked hseq hs hout (fun row hrow => ?_) hacc
        fun k t ht => .inl (hticks ▸ ht)
      rw [List.mem_singleton.1 hrow]
      rfl
  | read k n _ heq =>
      refine h.of_appended [] htracked hseq hs (by rw [heq, List.append_nil])
        (fun _ hrow => by cases hrow) (by rw [heq]) fun i t ht => ?_
      rw [heq] at ht ⊢
      by_cases hik : i = k
      · rw [hik] at ht
        simp only [Function.update_self, Option.some.injEq] at ht
        subst ht
        obtain ⟨hfront, hsub, -⟩ := front_readBatch hlinked n
        refine .inr ⟨hfront, fun i hi => ?_⟩
        obtain ⟨row, hrow, -, hid⟩ := Database.mem_pendingIds.1 (hsub i hi)
        exact ⟨row, hrow, hid⟩
      · simp only [Function.update_of_ne hik] at ht
        exact .inl ht
  | added k m ms published jobs rest hk _ hrest heq =>
      exact h.added htracked hs hk (hrest.imp_right And.right) heq
  | marked k published hk heq => exact h.marked hseq hs hk heq
  | died k heq =>
      refine h.of_appended [] htracked hseq hs (by rw [heq, List.append_nil])
        (fun _ hrow => by cases hrow) (by rw [heq]) fun i t ht => ?_
      rw [heq] at ht
      by_cases hik : i = k
      · rw [hik] at ht
        simp only [Function.update_self] at ht
        cases ht
      · simp only [Function.update_of_ne hik] at ht
        exact .inl ht

theorem ordered_init : Ordered init :=
  ⟨(fun _ h => by cases h), (fun _ _ h => by cases h), (fun earlier x later h => by simp [init] at h)⟩

theorem path_ordered (h : Path (step cfg) InSequence init s) : Ordered s :=
  h.invariant_along (J := fun t => t.db.Linked ∧ Tracked t)
    (fun _ ht => ⟨path_linked ht, path_tracked ht⟩)
    (fun _ _ _ hJ hI hseq hs => step_ordered hJ.1 hJ.2 hI hseq hs) ordered_init

/-- **The outbox is published in order.**  In every run of any number of relays, which overlap,
fail halfway and die, with rows committed in the order of their ids: no row is `PUBLISHED`
while a row before it is `PENDING`; and before the queue accepts any job of a row, it has
accepted every job of every row before it. -/
theorem published_in_order (cfg : WorkerConfig) (s : State)
    (h : Path (step cfg) InSequence init s) :
    (∀ x ∈ s.db.outbox.rows, ∀ y ∈ s.db.outbox.rows, x.id < y.id → y.status = .published →
      x.status = .published) ∧
    (∀ earlier x later, s.accepted = earlier ++ x :: later →
      ∀ row ∈ s.db.outbox.rows, row.id < x.outboxId → ∀ d ∈ s.db.targets row,
        ∃ y ∈ earlier, y.deliveryId = d ∧
          y.jobId = deliveryJobId d (row.deliveryId.map fun _ => outboxSuffix row.id)) := by
  have hordered := path_ordered h
  refine ⟨hordered.rows, fun earlier x later hx row hrow hlt d hd => ?_⟩
  obtain ⟨m, hm, henq⟩ := hordered.accepted earlier x later hx row hrow hlt
  rw [← targetsOf_messageOf hm] at hd
  obtain ⟨y, hy, hjob, hdel, -⟩ := henq d hd
  obtain ⟨hid, hdid, -⟩ := messageOf_eq_some hm
  rw [jobIdOf, hid, hdid] at hjob
  exact ⟨y, hy, hdel, hjob⟩

namespace Sample

def inSequence (s : State) (a : Action) : Bool :=
  match a.outboxId? with
  | some o => s.db.outbox.rows.all fun row => row.id < o
  | none => true

theorem inSequence_spec {s : State} {a : Action} (h : inSequence s a = true) : InSequence s a := by
  intro o ho row hrow
  rw [inSequence, ho] at h
  simpa using List.all_eq_true.1 h row hrow

/-- The event is published, and its delivery redelivered before a relay has come to it. -/
def twoRows : List Action :=
  [.createEndpoint endpointRow, .publish eventRow [(delivery, endpoint)] 0,
    .redeliver tenant delivery 1]

/-- The statuses of the two rows. -/
def statuses (s : State) : List (ℕ × OutboxStatus) :=
  s.db.outbox.rows.map fun row => (row.id, row.status)

end Sample

/-- At a state in which one relay has failed at the second row, and another one still holds the
batch with both. -/
theorem published_in_order_after_failure : ∃ s, Path (step Sample.cfg) InSequence init s ∧
    Sample.statuses s = [(0, .published), (1, .pending)] ∧
    ∀ x ∈ s.db.outbox.rows, ∀ y ∈ s.db.outbox.rows, x.id < y.id → y.status = .published →
      x.status = .published := by
  obtain ⟨s, hpath, hs⟩ := Path.exists_of_runChecked (step Sample.cfg) (P := InSequence)
    (p := Sample.inSequence) (fun _ _ => Sample.inSequence_spec) init
    (Sample.twoRows ++ [.tickRead 0 100, .tickRead 1 100, .tickAdd 0, .tickAdd 1, .tickFail 0 [],
      .tickMark 0])
    (fun s => Sample.statuses s = [(0, .published), (1, .pending)]) (by decide +kernel)
  exact ⟨s, hpath, of_decide_eq_true hs, (published_in_order Sample.cfg s hpath).1⟩

/-! ## How long a row waits -/

/-- The rows up to `x` that are `PENDING`. -/
def waiting (s : State) (x : ℕ) : Finset ℕ := s.db.pendingIds.filter (· ≤ x)

/-- Relay `k` reads batches of `b` rows, and its ticks neither fail nor are cut off. -/
def Works (k b : ℕ) (a : Action) : Prop :=
  (∀ n, a = .tickRead k n → n = b) ∧ (∀ mask, a ≠ .tickFail k mask) ∧ a ≠ .tickCrash k

def isMarkOf (k : ℕ) : Action → Bool
  | .tickMark k' => k' = k
  | _ => false

/-- How many ticks relay `k` has completed. -/
def marks (k : ℕ) (as : List Action) : ℕ := as.countP (isMarkOf k)

/-- A row is committed with an id below `x`: the sequence gave it out before `x`, and the
transaction has taken longer. -/
def isLate (x : ℕ) (a : Action) : Bool := a.outboxId?.any (· < x)

/-- How many rows come in before `x`. -/
def late (x : ℕ) (as : List Action) : ℕ := as.countP (isLate x)

/-- While row `x` waits, `b` of the `p` rows up to it are gone for each of the `n` ticks; and
another `b` when the tick under way is done without it. -/
structure Draining (k b x p n : ℕ) (s : State) : Prop where
  row : ∃ row ∈ s.db.outbox.rows, row.id = x
  waiting : x ∈ s.db.pendingIds → (waiting s x).card + n * b ≤ p
  ahead : ∀ t, s.ticks k = some t → x ∈ s.db.pendingIds → x ∉ t.ids →
    (s.db.pendingIds.filter fun i => i ≤ x ∧ i ∉ t.ids).card + (n + 1) * b ≤ p

variable {k b x p n : ℕ}

/-- Up to row `x` no row comes in but a late one. -/
theorem card_pending_le (hs : step cfg s a = some s')
    (hx : ∃ row ∈ s.db.outbox.rows, row.id = x) {q : ℕ → Prop} [DecidablePred q]
    (hq : ∀ i, q i → i ≤ x) :
    (s'.db.pendingIds.filter q).card ≤
      (s.db.pendingIds.filter q).card + if isLate x a then 1 else 0 := by
  obtain ⟨row, hrow, rfl⟩ := hx
  cases hlate : isLate row.id a with
  | true =>
      obtain ⟨o, ho, -⟩ := (Option.any_eq_true _ _).1 hlate
      have hsub : s'.db.pendingIds.filter q ⊆ insert o (s.db.pendingIds.filter q) := by
        intro i hi
        obtain ⟨hp, hqi⟩ := Finset.mem_filter.1 hi
        rcases step_pendingIds hs hp with hp | hi
        · exact Finset.mem_insert_of_mem (Finset.mem_filter.2 ⟨hp, hqi⟩)
        · rw [ho, Option.some.injEq] at hi
          exact hi ▸ Finset.mem_insert_self _ _
      exact (Finset.card_le_card hsub).trans (Finset.card_insert_le _ _)
  | false =>
      refine (Finset.card_le_card fun i hi => ?_).trans (Nat.le_add_right _ _)
      obtain ⟨hp, hqi⟩ := Finset.mem_filter.1 hi
      refine Finset.mem_filter.2 ⟨?_, hqi⟩
      rcases step_pendingIds hs hp with hold | ho
      · exact hold
      · -- it is not below the row, and so it is the row
        have hge : ¬ i < row.id := by simpa [isLate, ho] using hlate
        obtain rfl : i = row.id := le_antisymm (hq i hqi) (not_lt.1 hge)
        exact pending_of_step hs hrow hp

/-- A step that completes no tick of relay `k`; if it begins one, the batch is read now. -/
theorem Draining.keep (h : Draining k b x p n s) (hs : step cfg s a = some s')
    (htick : ∀ t', s'.ticks k = some t' → (∃ t, s.ticks k = some t ∧ t'.ids = t.ids) ∨
      (x ∈ s.db.pendingIds → x ∉ t'.ids →
        (s.db.pendingIds.filter fun i => i ≤ x ∧ i ∉ t'.ids).card + b ≤
          (System.waiting s x).card)) :
    Draining k b x (p + if isLate x a then 1 else 0) n s' := by
  obtain ⟨row, hrow, rfl⟩ := h.row
  have waited : row.id ∈ s'.db.pendingIds → row.id ∈ s.db.pendingIds := pending_of_step hs hrow
  refine ⟨?_, fun hx => ?_, fun t' ht' hx hnot => ?_⟩
  · obtain ⟨row', hrow', hid, -⟩ := (step_flow hs).extends.outbox row hrow
    exact ⟨row', hrow', hid⟩
  · have hbefore := h.waiting (waited hx)
    have hcard : (System.waiting s' row.id).card ≤ _ := card_pending_le hs h.row fun _ => id
    change _ ≤ (System.waiting s row.id).card + _ at hcard
    omega
  · have hcard := card_pending_le hs h.row (q := fun i => i ≤ row.id ∧ i ∉ t'.ids) fun _ => And.left
    have hbound : (s.db.pendingIds.filter fun i => i ≤ row.id ∧ i ∉ t'.ids).card +
        (n + 1) * b ≤ p := by
      rcases htick t' ht' with ⟨t, ht, hids⟩ | hread
      · rw [hids] at hnot ⊢
        exact h.ahead t ht (waited hx) hnot
      · have hwait := h.waiting (waited hx)
        have hbatch := hread (waited hx) hnot
        rw [Nat.succ_mul]
        omega
    omega

/-- Relay `k` completes its tick. -/
theorem Draining.mark {published : List ℕ} (h : Draining k b x p n s)
    (hk : s.ticks k = some ⟨[], published⟩) (hs : step cfg s a = some s') (heq : s' = { s with
      db := markPublished s.db s.now published, ticks := Function.update s.ticks k none }) :
    Draining k b x p (n + 1) s' := by
  obtain ⟨row, hrow, rfl⟩ := h.row
  have hids : Tick.ids ⟨[], published⟩ = published := by simp [Tick.ids]
  have left : ∀ {i : ℕ}, i ∈ s'.db.pendingIds → i ∈ s.db.pendingIds ∧ i ∉ published := by
    intro i hi
    rw [heq] at hi
    obtain ⟨x, hx, hst, rfl⟩ := Database.mem_pendingIds.1 hi
    obtain ⟨old, hold, hpend, hnot⟩ := pending_of_markPublished hx hst
    exact ⟨Database.mem_pendingIds.2 ⟨old, hold, hpend.1, hpend.2⟩, hnot⟩
  refine ⟨?_, fun hx => ?_, fun t ht => ?_⟩
  · obtain ⟨row', hrow', hid, -⟩ := (step_flow hs).extends.outbox row hrow
    exact ⟨row', hrow', hid⟩
  · -- what still waits was not in the batch
    obtain ⟨hp, hnot⟩ := left hx
    have hahead := h.ahead _ hk hp (hids.symm ▸ hnot)
    rw [hids] at hahead
    refine (Nat.add_le_add_right (Finset.card_le_card fun i hi => ?_) _).trans hahead
    obtain ⟨hp, hle⟩ := Finset.mem_filter.1 hi
    exact Finset.mem_filter.2 ⟨(left hp).1, hle, (left hp).2⟩
  · rw [heq] at ht
    simp only [Function.update_self] at ht
    cases ht

theorem step_draining (hlinked : s.db.Linked) (h : Draining k b x p n s) (hw : Works k b a)
    (hs : step cfg s a = some s') :
    Draining k b x (p + if isLate x a then 1 else 0) (n + if isMarkOf k a then 1 else 0) s' := by
  have other : isMarkOf k a = false → Draining k b x (p + if isLate x a then 1 else 0) n s' →
      Draining k b x (p + if isLate x a then 1 else 0) (n + if isMarkOf k a then 1 else 0) s' := by
    intro ha hd
    simpa [ha] using hd
  have same : s'.ticks = s.ticks → ∀ t', s'.ticks k = some t' →
      (∃ t, s.ticks k = some t ∧ t'.ids = t.ids) ∨ (x ∈ s.db.pendingIds → x ∉ t'.ids →
        (s.db.pendingIds.filter fun i => i ≤ x ∧ i ∉ t'.ids).card + b ≤
          (System.waiting s x).card) :=
    fun hticks t' ht' => .inl ⟨t', hticks ▸ ht', rfl⟩
  have elsewhere : ∀ {j : ℕ} {new : Option Tick}, s'.ticks = Function.update s.ticks j new →
      j ≠ k → s'.ticks k = s.ticks k := by
    intro j new hupd hjk
    rw [hupd, Function.update_of_ne (Ne.symm hjk)]
  have unmarked : (∀ j, a ≠ .tickMark j) → isMarkOf k a = false := by
    intro ha
    cases a <;> first | rfl | exact absurd rfl (ha _)
  have hkeep := hs
  cases stepped_of_step hs with
  | tickRead j m hj =>
      refine other rfl (h.keep hkeep fun t' ht' => ?_)
      by_cases hjk : j = k
      · subst hjk
        simp only [Function.update_self, Option.some.injEq] at ht'
        subst ht'
        obtain ⟨hfront, hsub, hfull⟩ := front_readBatch hlinked m
        rw [hw.1 m rfl] at hfront hsub hfull ⊢
        exact .inr (hfront.card_outside_add_le hsub hfull)
      · exact .inl ⟨t', (elsewhere rfl hjk).symm.trans ht', rfl⟩
  | tickAdd j m ms published hj =>
      refine other rfl (h.keep hkeep fun t' ht' => .inl ?_)
      by_cases hjk : j = k
      · subst hjk
        simp only [Function.update_self, Option.some.injEq] at ht'
        subst ht'
        exact ⟨_, hj, by simp [Tick.ids]⟩
      · exact ⟨t', (elsewhere rfl hjk).symm.trans ht', rfl⟩
  | tickFail j mask m ms published hj =>
      refine other rfl (h.keep hkeep fun t' ht' => .inl ?_)
      have hjk : j ≠ k := fun hjk => hw.2.1 mask (by rw [hjk])
      exact ⟨t', (elsewhere rfl hjk).symm.trans ht', rfl⟩
  | tickMark j published hj =>
      by_cases hjk : j = k
      · subst hjk
        have hmark : isMarkOf j (.tickMark j) = true := decide_eq_true rfl
        rw [if_pos hmark]
        exact h.mark hj hkeep rfl
      · refine other (decide_eq_false hjk) (h.keep hkeep fun t' ht' => .inl ?_)
        exact ⟨t', (elsewhere rfl hjk).symm.trans ht', rfl⟩
  | tickCrash j =>
      refine other rfl (h.keep hkeep fun t' ht' => .inl ?_)
      have hjk : j ≠ k := fun hjk => hw.2.2 (by rw [hjk])
      exact ⟨t', (elsewhere rfl hjk).symm.trans ht', rfl⟩
  | left r i run _ _ hgo =>
      obtain ⟨-, queue, rfl⟩ := letGo_eq_some hgo
      exact other (unmarked (by simp)) (h.keep hkeep (same rfl))
  | _ => exact other (unmarked (by simp)) (h.keep hkeep (same rfl))

theorem run_draining {as : List Action} (hreach : Reach cfg s) (hidle : s.ticks k = none)
    (hrow : ∃ row ∈ s.db.outbox.rows, row.id = x) (hw : ∀ a ∈ as, Works k b a)
    (hrun : run (step cfg) s as = some s') :
    Draining k b x ((waiting s x).card + late x as) (marks k as) s' := by
  have hstart : Draining k b x ((waiting s x).card + late x []) (marks k []) s :=
    ⟨hrow, fun _ => by simp [late, marks], fun t ht => by rw [hidle] at ht; cases ht⟩
  have hall : (∀ a ∈ as, Works k b a) → Reach cfg s' ∧
      Draining k b x ((waiting s x).card + late x as) (marks k as) s' := by
    refine run_induction (I := fun bs t => (∀ a ∈ bs, Works k b a) → Reach cfg t ∧
      Draining k b x ((waiting s x).card + late x bs) (marks k bs) t)
      (fun bs t a u hI hs hbs => ?_) (fun _ => ⟨hreach, hstart⟩) hrun
    obtain ⟨ht, hd⟩ := hI fun c hc => hbs c (List.mem_append_left _ hc)
    have hstep := step_draining (path_linked ht) hd
      (hbs a (List.mem_append_right _ (List.mem_singleton_self a))) hs
    refine ⟨ht.snoc trivial hs, ?_⟩
    rwa [marks, late, List.countP_append, List.countP_singleton, List.countP_append,
      List.countP_singleton, ← Nat.add_assoc]
  exact (hall hw).2

/-- **A working relay empties the outbox from the front.**  Let relay `k` stand idle in any
reachable state, read batches of `b` rows and complete its ticks, while other relays, workers
and the API do whatever they do.  Once it has completed enough ticks, `b` rows a tick, for the
`PENDING` rows up to the given one and the rows that have come in before it since, the row is
`PUBLISHED`. -/
theorem outbox_drains (cfg : WorkerConfig) (k b : ℕ) (s s' : State) (as : List Action)
    (row : OutboxRow) (hreach : Reach cfg s) (hidle : s.ticks k = none)
    (hrow : row ∈ s.db.outbox.rows) (hw : ∀ a ∈ as, Works k b a)
    (hrun : run (step cfg) s as = some s')
    (henough : (waiting s row.id).card + late row.id as ≤ marks k as * b) :
    ∃ row' ∈ s'.db.outbox.rows, row'.id = row.id ∧ row'.status = .published := by
  have hdrained := run_draining hreach hidle ⟨row, hrow, rfl⟩ hw hrun
  obtain ⟨row', hrow', hid⟩ := hdrained.row
  refine ⟨row', hrow', hid, published_of_notMem hrow' fun hp => ?_⟩
  have hmem : row'.id ∈ waiting s' row.id := Finset.mem_filter.2 ⟨hp, hid.le⟩
  have hsome := Finset.card_pos.2 ⟨_, hmem⟩
  have hleft := hdrained.waiting (hid ▸ hp)
  omega

/-- At a relay that takes one row a tick and comes to the last of three rows with its third tick;
the first of them has come in meanwhile. -/
theorem outbox_drains_three_rows : ∃ s as s' row, Reach Sample.cfg s ∧
    Sample.statuses s = [(1, .pending), (2, .pending)] ∧ row ∈ s.db.outbox.rows ∧ row.id = 2 ∧
    run (step Sample.cfg) s as = some s' ∧ late 2 as = 1 ∧ marks 0 as = 3 ∧
    ∃ row' ∈ s'.db.outbox.rows, row'.id = row.id ∧ row'.status = .published := by
  obtain ⟨as, has⟩ : ∃ as : List Action, as = [.tickRead 1 100, .tickAdd 1,
    .redeliver Sample.tenant Sample.delivery 0, .tickCrash 1, .tickRead 0 1, .tickAdd 0,
    .tickMark 0, .tickRead 0 1, .tickAdd 0, .tickMark 0, .tickRead 0 1, .tickAdd 0, .tickMark 0] :=
    ⟨_, rfl⟩
  obtain ⟨s, hpath, hs⟩ := Path.exists_of_runChecked (step Sample.cfg) (P := anyAction)
    (p := fun _ _ => true) (fun _ _ _ => trivial) init
    [.createEndpoint Sample.endpointRow,
      .publish Sample.eventRow [(Sample.delivery, Sample.endpoint)] 1,
      .redeliver Sample.tenant Sample.delivery 2]
    (fun s => (s.ticks 0).isNone && Sample.statuses s = [(1, .pending), (2, .pending)] &&
      (run (step Sample.cfg) s as).isSome) (by rw [has]; decide +kernel)
  simp only [Bool.and_eq_true, decide_eq_true_eq, Option.isNone_iff_eq_none] at hs
  obtain ⟨⟨hidle, hst⟩, hrun⟩ := hs
  obtain ⟨s', hs'⟩ := Option.isSome_iff_exists.1 hrun
  obtain ⟨row, hrow, hid⟩ : ∃ row ∈ s.db.outbox.rows, row.id = 2 := by
    have hmem : ((2, .pending) : ℕ × OutboxStatus) ∈ Sample.statuses s := by rw [hst]; simp
    obtain ⟨row, hrow, heq⟩ := List.mem_map.1 hmem
    exact ⟨row, hrow, congrArg Prod.fst heq⟩
  have hlate : late 2 as = 1 := by rw [has]; decide
  have hmarks : marks 0 as = 3 := by rw [has]; decide
  have henough : (waiting s row.id).card + late row.id as ≤ marks 0 as * 1 := by
    have hids : s.db.pendingIds ⊆ {1, 2} := by
      intro i hi
      obtain ⟨y, hy, hp, rfl⟩ := Database.mem_pendingIds.1 hi
      have hmem : (y.id, y.status) ∈ Sample.statuses s := List.mem_map.2 ⟨y, hy, rfl⟩
      rw [hst, hp] at hmem
      simpa using hmem
    have hcard := Finset.card_le_card ((Finset.filter_subset (· ≤ row.id) _).trans hids)
    rw [hid, hlate, hmarks]
    rw [hid] at hcard
    exact Nat.add_le_add_right hcard 1
  refine ⟨s, as, s', row, hpath, hst, hrow, hid, hs', hlate, hmarks, ?_⟩
  refine outbox_drains Sample.cfg 0 1 s s' as row hpath hidle hrow (fun a ha => ?_) hs' henough
  rw [has] at ha
  simp only [List.mem_cons, List.not_mem_nil, or_false] at ha
  rcases ha with rfl | rfl | rfl | rfl | rfl | rfl | rfl | rfl | rfl | rfl | rfl | rfl | rfl <;>
    exact ⟨by simp, by simp, by simp⟩

end System
end HookRelay
