import HookRelay.Queue.Jobs

/-!
# The outbox relay

`relay.service.ts`: one pass over the `PENDING` rows of the outbox.  A tick reads a
batch, adds the jobs of each row to the queue, stops at the first row for which that
fails, and marks the rows whose jobs were added.  It is cut into the steps between which
other processes run, and between which the relay may die.

* `readBatch`, `jobsOf`, `markPublished` — the three accesses of a tick.
* `mem_readBatch`, `mem_jobsOf`, `mem_markPublished` — what they read and write.
-/

namespace HookRelay

open Lib

/-- A row of the batch, with the event's tenant and deliveries. -/
structure Message where
  id : ℕ
  deliveryId : Option Uuid
  tenantId : Uuid
  deliveries : List Uuid
  deriving DecidableEq

/-- A tick under way: the rows still to be added, and the rows added so far. -/
structure Tick where
  todo : List Message
  published : List ℕ

/-- A row with the event it belongs to. -/
def messageOf (db : Database) (row : OutboxRow) : Option Message :=
  (db.events.find? row.eventId).map fun e =>
    { id := row.id, deliveryId := row.deliveryId, tenantId := e.tenantId,
      deliveries := (db.deliveriesOf row.eventId).map DeliveryRow.id }

/-- The `PENDING` rows in the order of their ids, at most `batchSize` of them. -/
def readBatch (db : Database) (batchSize : ℕ) : List Message :=
  (((db.outbox.rows.filter fun row => row.status = .pending).insertionSort
    fun a b => a.id ≤ b.id).take batchSize).filterMap (messageOf db)

/-- `targetsOf(message)`. -/
def targetsOf (m : Message) : List Uuid :=
  match m.deliveryId with
  | some deliveryId => [deliveryId]
  | none => m.deliveries

/-- The job for one target of a row. -/
def jobOf (maxAttempts : ℤ) (m : Message) (deliveryId : Uuid) : Job :=
  { id := deliveryJobId deliveryId (m.deliveryId.map fun _ => outboxSuffix m.id)
    deliveryId := deliveryId, tenantId := some m.tenantId, attempts := maxAttempts,
    attemptsMade := 0, lock := none }

/-- What `addBulk` is given for a row. -/
def jobsOf (maxAttempts : ℤ) (m : Message) : List Job := (targetsOf m).map (jobOf maxAttempts m)

/-- The jobs that were added before `addBulk` failed: any of them. -/
def addedBeforeFailure (mask : List Bool) (jobs : List Job) : List Job :=
  (jobs.zip mask).filterMap fun p => if p.2 then some p.1 else none

/-- `data` of the `updateMany`. -/
def publishedData (now : Micros) (row : OutboxRow) : OutboxRow :=
  { row with status := .published, publishedAt := some now }

theorem publishedData_id (now : Micros) (row : OutboxRow) : (publishedData now row).id = row.id :=
  rfl

/-- `updateMany` of the rows that were added and are still `PENDING`. -/
def markPublished (db : Database) (now : Micros) (ids : List ℕ) : Database :=
  { db with
    outbox := db.outbox.modifyMany (fun row => row.id ∈ ids && row.status = .pending)
      (publishedData now) (publishedData_id now) }

/-! ## What they read and write -/

variable {db : Database} {m : Message} {n : ℕ} {j : Job} {maxAttempts : ℤ}

/-- A message in the batch is a `PENDING` row with its event and the deliveries of it. -/
theorem mem_readBatch (h : m ∈ readBatch db n) :
    ∃ row ∈ db.outbox.rows, row.status = .pending ∧ messageOf db row = some m := by
  obtain ⟨row, hrow, hm⟩ := List.mem_filterMap.1 h
  have hsorted := (List.mem_insertionSort _).1 (List.mem_of_mem_take hrow)
  obtain ⟨hmem, hstatus⟩ := List.mem_filter.1 hsorted
  exact ⟨row, hmem, by simpa using hstatus, hm⟩

theorem messageOf_eq_some {row : OutboxRow} (h : messageOf db row = some m) :
    m.id = row.id ∧ m.deliveryId = row.deliveryId ∧
    m.deliveries = (db.deliveriesOf row.eventId).map DeliveryRow.id ∧
    ∃ e, db.events.find? row.eventId = some e ∧ m.tenantId = e.tenantId := by
  obtain ⟨e, he, rfl⟩ := Option.map_eq_some_iff.1 h
  exact ⟨rfl, rfl, rfl, e, he, rfl⟩

theorem mem_jobsOf : j ∈ jobsOf maxAttempts m ↔ ∃ d ∈ targetsOf m, jobOf maxAttempts m d = j := by
  simp [jobsOf]

theorem mem_addedBeforeFailure {mask : List Bool} {jobs : List Job}
    (h : j ∈ addedBeforeFailure mask jobs) : j ∈ jobs := by
  obtain ⟨⟨x, b⟩, hp, hx⟩ := List.mem_filterMap.1 h
  cases b with
  | false => simp at hx
  | true =>
      simp only [if_true, Option.some.injEq] at hx
      exact hx ▸ (List.of_mem_zip hp).1

/-- Marking changes the status of rows it was told to mark, and nothing else about them. -/
theorem mem_markPublished {now : Micros} {ids : List ℕ} {x : OutboxRow}
    (h : x ∈ (markPublished db now ids).outbox.rows) :
    ∃ row ∈ db.outbox.rows, x.id = row.id ∧ x.eventId = row.eventId ∧
      x.deliveryId = row.deliveryId ∧
      (x = row ∨ (row.id ∈ ids ∧ row.status = .pending ∧ x.status = .published)) := by
  rw [markPublished, ← Table.mem_def, Serial.modifyMany_toTable, Table.mem_modifyMany] at h
  obtain ⟨row, hrow, rfl⟩ := h
  refine ⟨row, hrow, ?_⟩
  split_ifs with hp
  · rw [Bool.and_eq_true, decide_eq_true_eq, decide_eq_true_eq] at hp
    exact ⟨rfl, rfl, rfl, .inr ⟨hp.1, hp.2, rfl⟩⟩
  · exact ⟨rfl, rfl, rfl, .inl rfl⟩

/-- No row is lost by marking. -/
theorem exists_markPublished {ids : List ℕ} {row : OutboxRow} (now : Micros)
    (h : row ∈ db.outbox.rows) : ∃ x ∈ (markPublished db now ids).outbox.rows,
      x.id = row.id ∧ x.eventId = row.eventId ∧ x.deliveryId = row.deliveryId := by
  refine ⟨_, List.mem_map_of_mem h, ?_⟩
  split_ifs
  · exact ⟨rfl, rfl, rfl⟩
  · exact ⟨rfl, rfl, rfl⟩

/-- A row that was not to be marked stays as it is. -/
theorem markPublished_of_notMem {ids : List ℕ} {row : OutboxRow} (now : Micros)
    (h : row ∈ db.outbox.rows) (hid : row.id ∉ ids) :
    row ∈ (markPublished db now ids).outbox.rows := by
  refine List.mem_map.2 ⟨row, h, if_neg ?_⟩
  simp [hid]

end HookRelay
