import HookRelay.Data.Transactions

/-!
# The unique indexes

When the inserts of the API's transactions go through, in terms of the rows that are there.

* `insertEvent?_isSome_iff`, `insertDeliveries?_isSome_iff` — rows are inserted exactly if they
  clash with none.
* `publishTx_isSome`, `pingTx_isSome` — a transaction goes through if all its rows are free.
* `eventByKey_append` — an event keeps being found by its key.
-/

namespace HookRelay

open Lib

namespace Database

/-- Two events that a unique index does not let stand together. -/
def clash (a b : EventRow) : Bool :=
  a.id = b.id || (a.tenantId = b.tenantId && a.idempotencyKey = b.idempotencyKey)

theorem clash_eq_false_iff {a b : EventRow} : clash a b = false ↔
    a.id ≠ b.id ∧ ¬ (a.tenantId = b.tenantId ∧ a.idempotencyKey = b.idempotencyKey) := by
  simp [clash]

theorem clash_comm (a b : EventRow) : clash a b = clash b a := by
  simp only [clash, eq_comm]

theorem keyTaken_eq_false_iff {db : Database} {tenantId : Uuid} {key : Text} :
    db.keyTaken tenantId key = false ↔
      ∀ x ∈ db.events.rows, ¬ (x.tenantId = tenantId ∧ x.idempotencyKey = key) := by
  rw [keyTaken, eventByKey, Option.isSome_eq_false_iff, Option.isNone_iff_eq_none,
    List.find?_eq_none]
  simp

/-- An event is inserted exactly if it clashes with none. -/
theorem insertEvent?_isSome_iff {db : Database} {e : EventRow} :
    (∃ db', db.insertEvent? e = some db') ↔ ∀ x ∈ db.events.rows, clash x e = false := by
  simp only [clash_eq_false_iff]
  constructor
  · rintro ⟨db', h⟩ x hx
    obtain ⟨hkey, hid, -⟩ := insertEvent?_eq_some h
    exact ⟨Table.find?_eq_none_iff.1 hid x hx, keyTaken_eq_false_iff.1 hkey x hx⟩
  · intro h
    have hkey : db.keyTaken e.tenantId e.idempotencyKey = false :=
      keyTaken_eq_false_iff.2 fun x hx => (h x hx).2
    obtain ⟨events, hevents⟩ := Table.insert?_isSome
      (Table.find?_eq_none_iff.2 fun x hx => (h x hx).1 : db.events.find? e.id = none)
    refine ⟨{ db with events := events }, ?_⟩
    rw [insertEvent?, hkey, hevents]
    rfl

/-- Two deliveries that a unique index does not let stand together. -/
def clashes (a b : DeliveryRow) : Bool :=
  a.id = b.id || (a.eventId = b.eventId && a.endpointId = b.endpointId)

theorem clashes_eq_false_iff {a b : DeliveryRow} : clashes a b = false ↔
    a.id ≠ b.id ∧ ¬ (a.eventId = b.eventId ∧ a.endpointId = b.endpointId) := by
  simp [clashes]

theorem insertDelivery?_isSome_iff {db : Database} {d : DeliveryRow} :
    (∃ db', db.insertDelivery? d = some db') ↔ ∀ x ∈ db.deliveries.rows, clashes x d = false := by
  simp only [clashes_eq_false_iff]
  have hpair : db.pairTaken d.eventId d.endpointId = false ↔
      ∀ x ∈ db.deliveries.rows, ¬ (x.eventId = d.eventId ∧ x.endpointId = d.endpointId) := by
    simp [pairTaken]
  constructor
  · rintro ⟨db', h⟩ x hx
    have hid := (insertDelivery?_eq_some h).1
    refine ⟨Table.find?_eq_none_iff.1 hid x hx, ?_⟩
    unfold insertDelivery? at h
    split_ifs at h with htaken
    exact hpair.1 (by simpa using htaken) x hx
  · intro h
    obtain ⟨deliveries, hdeliveries⟩ := Table.insert?_isSome
      (Table.find?_eq_none_iff.2 fun x hx => (h x hx).1 : db.deliveries.find? d.id = none)
    refine ⟨{ db with deliveries := deliveries }, ?_⟩
    rw [insertDelivery?, hpair.2 fun x hx => (h x hx).2, hdeliveries]
    rfl

/-- Deliveries are inserted exactly if they clash with none, and with each other neither. -/
theorem insertDeliveries?_isSome_iff {db : Database} {ds : List DeliveryRow} :
    (∃ db', db.insertDeliveries? ds = some db') ↔
      (∀ x ∈ db.deliveries.rows, ∀ d ∈ ds, clashes x d = false) ∧
      ds.Pairwise fun a b => clashes a b = false := by
  induction ds generalizing db with
  | nil => simp [insertDeliveries?]
  | cons d ds ih =>
      have hfirst : (∃ db', db.insertDeliveries? (d :: ds) = some db') ↔
          ∃ db₁, db.insertDelivery? d = some db₁ ∧ ∃ db', db₁.insertDeliveries? ds = some db' := by
        simp only [insertDeliveries?, Option.bind_eq_some_iff]
        constructor
        · rintro ⟨db', db₁, h₁, h₂⟩
          exact ⟨db₁, h₁, db', h₂⟩
        · rintro ⟨db₁, h₁, db', h₂⟩
          exact ⟨db', db₁, h₁, h₂⟩
      rw [hfirst, List.pairwise_cons]
      constructor
      · rintro ⟨db₁, h₁, h₂⟩
        have hd := insertDelivery?_isSome_iff.1 ⟨db₁, h₁⟩
        have hrows := (insertDelivery?_eq_some h₁).2.1
        obtain ⟨hds, hpair⟩ := ih.1 h₂
        rw [hrows] at hds
        refine ⟨fun x hx y hy => ?_, fun y hy => hds d (by simp) y hy, hpair⟩
        rcases List.mem_cons.1 hy with rfl | hy
        · exact hd x hx
        · exact hds x (List.mem_append_left _ hx) y hy
      · rintro ⟨hrows, hd, hpair⟩
        obtain ⟨db₁, h₁⟩ := insertDelivery?_isSome_iff.2 fun x hx => hrows x hx d (by simp)
        refine ⟨db₁, h₁, ih.2 ⟨fun x hx y hy => ?_, hpair⟩⟩
        rw [(insertDelivery?_eq_some h₁).2.1, List.mem_append, List.mem_singleton] at hx
        rcases hx with hx | rfl
        · exact hrows x hx y (List.mem_cons_of_mem _ hy)
        · exact hd y hy

/-- An event that was found by its key is found when others are added. -/
theorem eventByKey_append {db db' : Database} {new : List EventRow} {tenantId : Uuid} {key : Text}
    {e : EventRow} (hrows : db'.events.rows = db.events.rows ++ new)
    (h : db.eventByKey tenantId key = some e) : db'.eventByKey tenantId key = some e := by
  rw [eventByKey] at h ⊢
  rw [hrows, List.find?_append, h]
  rfl

/-- A new event is found by its key. -/
theorem eventByKey_append_self {db db' : Database} {e : EventRow}
    (hrows : db'.events.rows = db.events.rows ++ [e])
    (h : db.keyTaken e.tenantId e.idempotencyKey = false) :
    db'.eventByKey e.tenantId e.idempotencyKey = some e := by
  rw [keyTaken, Option.isSome_eq_false_iff, Option.isNone_iff_eq_none,
    eventByKey] at h
  rw [eventByKey, hrows, List.find?_append, h]
  simp

theorem eventByKey_eq_some {db : Database} {tenantId : Uuid} {key : Text} {e : EventRow}
    (h : db.eventByKey tenantId key = some e) :
    e ∈ db.events.rows ∧ e.tenantId = tenantId ∧ e.idempotencyKey = key := by
  refine ⟨List.mem_of_find?_eq_some h, ?_⟩
  simpa using List.find?_some h

/-! ## The transactions -/

theorem next_le_of_publishTx {db db' : Database} {now : Micros} {e : EventRow}
    {ds : List DeliveryRow} {outboxId : ℕ} (h : db.publishTx now e ds outboxId = some db') :
    db.outbox.next ≤ db'.outbox.next := by
  obtain ⟨db₁, h₁, h₂⟩ := Option.bind_eq_some_iff.1 h
  obtain ⟨-, -, events, -, rfl⟩ := insertEvent?_eq_some h₁
  unfold fanOut? at h₂
  split_ifs at h₂ with hnil
  · cases h₂
    exact le_rfl
  · obtain ⟨db₂, hds, hrow⟩ := Option.bind_eq_some_iff.1 h₂
    have hsame : db₂.outbox = db.outbox := by rw [(insertDeliveries?_eq_some hds).2.2]
    obtain ⟨outbox, hout, rfl⟩ := Option.map_eq_some_iff.1 hrow
    rw [← hsame]
    exact Serial.next_le_of_insertAt? hout

/-- A publish goes through if its event, its deliveries and its number are free. -/
theorem publishTx_isSome {db : Database} {now : Micros} {e : EventRow} {ds : List DeliveryRow}
    {outboxId : ℕ} (hevent : ∃ db', db.insertEvent? e = some db')
    (hds : ∃ db', db.insertDeliveries? ds = some db')
    (hnumber : ds ≠ [] → ∀ x ∈ db.outbox.rows, x.id ≠ outboxId) :
    ∃ db', db.publishTx now e ds outboxId = some db' := by
  obtain ⟨db₁, h₁⟩ := hevent
  rw [publishTx, h₁, Option.bind_some, fanOut?]
  obtain ⟨-, -, events, -, rfl⟩ := insertEvent?_eq_some h₁
  by_cases hnil : ds = []
  · rw [if_pos hnil]
    exact ⟨_, rfl⟩
  · rw [insertDeliveries?_isSome_iff] at hds
    obtain ⟨db₂, h₂⟩ : ∃ db', ({ db with events := events } : Database).insertDeliveries? ds =
        some db' := insertDeliveries?_isSome_iff.2 hds
    have hsame : db₂.outbox = db.outbox := by rw [(insertDeliveries?_eq_some h₂).2.2]
    obtain ⟨outbox, hout⟩ : ∃ outbox, db₂.outbox.insertAt? (newOutbox now outboxId e.id none) =
        some outbox := by
      refine Serial.insertAt?_isSome ?_
      rw [hsame]
      exact hnumber hnil
    rw [if_neg hnil, h₂, Option.bind_some, insertOutbox?, hout]
    exact ⟨_, rfl⟩

/-- The same for a ping. -/
theorem pingTx_isSome {db : Database} {now : Micros} {e : EventRow} {deliveryId endpointId : Uuid}
    {outboxId : ℕ} (hevent : ∃ db', db.insertEvent? e = some db')
    (hdelivery : ∃ db', db.insertDelivery? (newDelivery now deliveryId e.id endpointId) = some db')
    (hnumber : ∀ x ∈ db.outbox.rows, x.id ≠ outboxId) :
    ∃ db', db.pingTx now e deliveryId endpointId outboxId = some db' := by
  obtain ⟨db₁, h₁⟩ := hevent
  obtain ⟨-, -, events, -, rfl⟩ := insertEvent?_eq_some h₁
  rw [insertDelivery?_isSome_iff] at hdelivery
  obtain ⟨db₂, h₂⟩ : ∃ db', ({ db with events := events } : Database).insertDelivery?
      (newDelivery now deliveryId e.id endpointId) = some db' :=
    insertDelivery?_isSome_iff.2 hdelivery
  have hsame : db₂.outbox = db.outbox := by rw [(insertDelivery?_eq_some h₂).2.2]
  obtain ⟨outbox, hout⟩ : ∃ outbox, db₂.outbox.insertAt?
      (newOutbox now outboxId e.id (some deliveryId)) = some outbox := by
    refine Serial.insertAt?_isSome ?_
    rw [hsame]
    exact hnumber
  rw [pingTx, h₁, Option.bind_some, h₂, Option.bind_some, insertOutbox?, hout]
  exact ⟨_, rfl⟩

/-! ## Drawing the number of the outbox row first -/

/-- The database with another outbox. -/
def withOutbox (outbox : Serial OutboxRow OutboxRow.id) (db : Database) : Database :=
  { db with outbox := outbox }

theorem insertEvent?_withOutbox (db : Database) (outbox : Serial OutboxRow OutboxRow.id)
    (e : EventRow) :
    (db.withOutbox outbox).insertEvent? e = (db.insertEvent? e).map (withOutbox outbox) := by
  have hsame : (db.withOutbox outbox).keyTaken e.tenantId e.idempotencyKey =
      db.keyTaken e.tenantId e.idempotencyKey := rfl
  unfold insertEvent?
  rw [hsame]
  split_ifs
  · rfl
  · rw [Option.map_map]
    rfl

theorem insertDelivery?_withOutbox (db : Database) (outbox : Serial OutboxRow OutboxRow.id)
    (d : DeliveryRow) :
    (db.withOutbox outbox).insertDelivery? d = (db.insertDelivery? d).map (withOutbox outbox) := by
  have hsame : (db.withOutbox outbox).pairTaken d.eventId d.endpointId =
      db.pairTaken d.eventId d.endpointId := rfl
  unfold insertDelivery?
  rw [hsame]
  split_ifs
  · rfl
  · rw [Option.map_map]
    rfl

theorem insertDeliveries?_withOutbox (outbox : Serial OutboxRow OutboxRow.id)
    (ds : List DeliveryRow) (db : Database) :
    (db.withOutbox outbox).insertDeliveries? ds =
      (db.insertDeliveries? ds).map (withOutbox outbox) := by
  induction ds generalizing db with
  | nil => rfl
  | cons d ds ih =>
      rw [insertDeliveries?, insertDeliveries?, insertDelivery?_withOutbox]
      cases db.insertDelivery? d with
      | none => rfl
      | some db₁ => exact ih db₁

/-- A publish that has drawn the number of its outbox row before it commits. -/
theorem publishTx_draw {db : Database} {now : Micros} {e : EventRow} {ds : List DeliveryRow}
    (hne : ds ≠ []) :
    (db.withOutbox db.outbox.draw).publishTx now e ds db.outbox.next =
      db.publishTx now e ds db.outbox.next := by
  rw [publishTx, publishTx, insertEvent?_withOutbox]
  cases hevent : db.insertEvent? e with
  | none => rfl
  | some db₁ =>
      obtain ⟨-, -, events, -, rfl⟩ := insertEvent?_eq_some hevent
      simp only [Option.map_some, Option.bind_some, fanOut?, if_neg hne,
        insertDeliveries?_withOutbox]
      cases hds : insertDeliveries? { db with events := events } ds with
      | none => rfl
      | some db₂ =>
          have hsame : db₂.outbox = db.outbox := by rw [(insertDeliveries?_eq_some hds).2.2]
          have hnumber : (newOutbox now db.outbox.next e.id none).id = db.outbox.next := rfl
          simp only [Option.map_some, Option.bind_some, insertOutbox?, withOutbox,
            Serial.insertAt?_draw hnumber, hsame]

end Database

end HookRelay
