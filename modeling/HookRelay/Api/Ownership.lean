import HookRelay.Data.Indexes
import HookRelay.System.Tenants

/-!
# The rows of a tenant

An endpoint or an event belongs to its tenant, a subscription to that of its endpoint, and a
delivery, an attempt or an outbox row to that of its event.

* `rowsOf` — the rows of a tenant; `Agree` — two databases have the same rows of a tenant, but
  for the numbers that were drawn from sequences.
* For each kind of write, what it does to the rows of every tenant (`rowsOf_createEndpoint`,
  `rowsOf_updateEndpoint`, `rowsOf_setSubscriptions`, `rowsOf_addEvent`, `rowsOf_redeliver`).
-/

namespace HookRelay

open Lib

namespace Database

/-- The tenant of an endpoint. -/
def endpointTenant (db : Database) (id : Uuid) : Option Uuid :=
  (db.endpoints.find? id).map EndpointRow.tenantId

/-- The tenant of an event. -/
def eventTenant (db : Database) (id : Uuid) : Option Uuid :=
  (db.events.find? id).map EventRow.tenantId

/-- The tenant of a delivery, by its event. -/
def deliveryTenant (db : Database) (id : Uuid) : Option Uuid :=
  (db.deliveries.find? id).bind fun d => db.eventTenant d.eventId

/-- Rows of all the tables. -/
@[ext] structure Owned where
  endpoints : List EndpointRow
  subscriptions : List SubscriptionRow
  events : List EventRow
  deliveries : List DeliveryRow
  attempts : List AttemptRow
  outbox : List OutboxRow

/-- The rows of a tenant. -/
def rowsOf (db : Database) (tenantId : Uuid) : Owned where
  endpoints := db.endpoints.rows.filter fun e => e.tenantId = tenantId
  subscriptions := db.subscriptions.rows.filter fun row =>
    db.endpointTenant row.endpointId = some tenantId
  events := db.events.rows.filter fun e => e.tenantId = tenantId
  deliveries := db.deliveries.rows.filter fun d => db.eventTenant d.eventId = some tenantId
  attempts := db.attempts.rows.filter fun a => db.deliveryTenant a.deliveryId = some tenantId
  outbox := db.outbox.rows.filter fun row => db.eventTenant row.eventId = some tenantId

/-- A subscription without its number. -/
def unnumberSubscription (row : SubscriptionRow) : SubscriptionRow := { row with id := 0 }

/-- An attempt without its number. -/
def unnumberAttempt (a : AttemptRow) : AttemptRow := { a with id := 0 }

/-- An outbox row without its number. -/
def unnumberOutbox (row : OutboxRow) : OutboxRow := { row with id := 0 }

/-- The same rows, but for the numbers from sequences. -/
structure Owned.Agree (o₁ o₂ : Owned) : Prop where
  endpoints : o₁.endpoints = o₂.endpoints
  subscriptions : o₁.subscriptions.map unnumberSubscription =
    o₂.subscriptions.map unnumberSubscription
  events : o₁.events = o₂.events
  deliveries : o₁.deliveries = o₂.deliveries
  attempts : o₁.attempts.map unnumberAttempt = o₂.attempts.map unnumberAttempt
  outbox : o₁.outbox.map unnumberOutbox = o₂.outbox.map unnumberOutbox

/-- Two databases agree on the rows of a tenant, but for the numbers from sequences. -/
def Agree (t : Uuid) (db₁ db₂ : Database) : Prop := (db₁.rowsOf t).Agree (db₂.rowsOf t)

/-! ## Owners -/

variable {db db' : Database} {t : Uuid}

theorem endpointTenant_of_find? {id : Uuid} {e : EndpointRow}
    (h : db.endpoints.find? id = some e) : db.endpointTenant id = some e.tenantId := by
  rw [endpointTenant, h]
  rfl

theorem eventTenant_of_find? {id : Uuid} {e : EventRow} (h : db.events.find? id = some e) :
    db.eventTenant id = some e.tenantId := by
  rw [eventTenant, h]
  rfl

/-- The endpoint and the event of a delivery have the same tenant. -/
theorem Sound.endpointTenant (hsound : db.Sound) {d : DeliveryRow} (hd : d ∈ db.deliveries) :
    db.endpointTenant d.endpointId = db.eventTenant d.eventId := by
  obtain ⟨ep, e, hep, he, htenant⟩ := hsound.delivery d hd
  rw [endpointTenant_of_find? hep, eventTenant_of_find? he, htenant]

/-- The event of a delivery is there. -/
theorem Sound.eventTenant_isSome (hsound : db.Sound) {d : DeliveryRow} (hd : d ∈ db.deliveries) :
    ∃ e, db.events.find? d.eventId = some e := by
  obtain ⟨-, e, -, he, -⟩ := hsound.delivery d hd
  exact ⟨e, he⟩

/-- A row whose owner is the same before and after is a row of the same tenants. -/
theorem filter_owner_congr {ρ : Type} {rows : List ρ} {owner owner' : ρ → Option Uuid}
    (h : ∀ r ∈ rows, owner' r = owner r) (t : Uuid) :
    (rows.filter fun r => owner' r = some t) = rows.filter fun r => owner r = some t :=
  List.filter_congr fun r hr => by rw [h r hr]

/-- New rows that all have the same owner. -/
theorem filter_owner_append {ρ : Type} {rows new : List ρ} {owner owner' : ρ → Option Uuid}
    {b : Uuid} (h : ∀ r ∈ rows, owner' r = owner r) (hnew : ∀ r ∈ new, owner' r = some b) (t : Uuid) :
    ((rows ++ new).filter fun r => owner' r = some t) =
      (rows.filter fun r => owner r = some t) ++ if b = t then new else [] := by
  rw [List.filter_append, filter_owner_congr h]
  congr 1
  split_ifs with hb
  · exact List.filter_eq_self.2 fun r hr => by simp [hnew r hr, hb]
  · exact List.filter_eq_nil_iff.2 fun r hr => by simp [hnew r hr, hb]

/-! ## Writes -/

/-- An endpoint is registered. -/
theorem rowsOf_createEndpoint (hsound : db.Sound) {e : EndpointRow}
    {endpoints : Table Uuid EndpointRow EndpointRow.id} (h : db.endpoints.insert? e = some endpoints)
    (t : Uuid) :
    { db with endpoints := endpoints }.rowsOf t = { db.rowsOf t with
      endpoints := (db.rowsOf t).endpoints ++ if e.tenantId = t then [e] else [] } := by
  obtain ⟨hfresh, hrows⟩ := Table.insert?_eq_some_iff.1 h
  have howner : ∀ row ∈ db.subscriptions.rows, endpointTenant { db with endpoints := endpoints }
      row.endpointId = db.endpointTenant row.endpointId := by
    intro row hrow
    obtain ⟨x, hx⟩ := hsound.subscription row hrow
    rw [endpointTenant, endpointTenant, Table.find?_insert? h, hx]
    split_ifs with hid
    · rw [hid, hx] at hfresh
      cases hfresh
    · rfl
  refine Owned.ext ?_ (filter_owner_congr howner t) rfl rfl rfl rfl
  show endpoints.rows.filter _ = _
  rw [hrows, List.filter_append]
  split_ifs with ht
  · simp [rowsOf, ht]
  · simp [rowsOf, ht]

/-- An update of the rows that keeps their tenants. -/
theorem filter_map_if {ρ : Type} (rows : List ρ) (owned p : ρ → Bool) (f : ρ → ρ)
    (h : ∀ r, owned (f r) = owned r) :
    (rows.map fun r => if p r then f r else r).filter owned =
      (rows.filter owned).map fun r => if p r then f r else r := by
  rw [List.filter_map]
  refine congrArg (List.map _) (List.filter_congr fun r _ => ?_)
  rw [Function.comp_apply]
  split_ifs
  · exact h r
  · rfl

theorem map_if_eq_self {ρ : Type} {rows : List ρ} {p : ρ → Bool} (f : ρ → ρ)
    (h : ∀ r ∈ rows, p r = false) : (rows.map fun r => if p r then f r else r) = rows := by
  refine (List.map_congr_left fun r hr => ?_).trans (List.map_id rows)
  rw [h r hr]
  rfl

/-- An endpoint is changed. -/
theorem rowsOf_updateEndpoint {id : Uuid} {f : EndpointRow → EndpointRow}
    (hf : ∀ e, (f e).id = e.id) (htenant : ∀ e, (f e).tenantId = e.tenantId) (t : Uuid) :
    { db with endpoints := db.endpoints.modify id f hf }.rowsOf t = { db.rowsOf t with
      endpoints := (db.rowsOf t).endpoints.map fun e => if e.id = id then f e else e } := by
  have howner : ∀ row ∈ db.subscriptions.rows,
      endpointTenant { db with endpoints := db.endpoints.modify id f hf } row.endpointId =
        db.endpointTenant row.endpointId := by
    intro row _
    rw [endpointTenant, endpointTenant, Table.find?_modify]
    split_ifs with hid
    · rw [hid, Option.map_map]
      exact congrArg (Option.map · _) (funext htenant)
    · rfl
  refine Owned.ext ?_ (filter_owner_congr howner t) rfl rfl rfl rfl
  show (db.endpoints.modify id f hf).rows.filter _ = _
  have hmap := filter_map_if db.endpoints.rows (fun e => e.tenantId = t) (fun e => e.id = id) f
    fun e => by rw [htenant]
  simpa [Table.modify, Table.modifyMany, rowsOf] using hmap

/-- The subscriptions of an endpoint are replaced. -/
theorem rowsOf_setSubscriptions {id b : Uuid} (hid : db.endpointTenant id = some b)
    (eventTypes : List Text) : ∃ new, (∀ t, (db.setSubscriptionsTx id eventTypes).rowsOf t =
      { db.rowsOf t with subscriptions := if b = t then
          ((db.rowsOf t).subscriptions.filter fun row => row.endpointId ≠ id) ++ new
        else (db.rowsOf t).subscriptions }) ∧
      new.map unnumberSubscription = eventTypes.map fun x => newSubscription id x 0 := by
  obtain ⟨new, hrows, hnew⟩ := db.setSubscriptionsTx_rows id eventTypes
  refine ⟨new, fun t => ?_, ?_⟩
  · refine Owned.ext rfl ?_ rfl rfl rfl rfl
    show (db.setSubscriptionsTx id eventTypes).subscriptions.rows.filter _ = _
    have hkept : ∀ row ∈ db.subscriptions.rows.filter fun row => !decide (row.endpointId = id),
        (db.setSubscriptionsTx id eventTypes).endpointTenant row.endpointId =
          db.endpointTenant row.endpointId := fun _ _ => rfl
    have hadded : ∀ row ∈ new,
        (db.setSubscriptionsTx id eventTypes).endpointTenant row.endpointId = some b := by
      intro row hrow
      rw [hnew row hrow]
      exact hid
    rw [hrows]
    refine (filter_owner_append hkept hadded t).trans ?_
    rw [List.filter_filter]
    split_ifs with hb
    · simp only [rowsOf, List.filter_filter]
      refine congrArg (· ++ new) (List.filter_congr fun row _ => ?_)
      rw [Bool.and_comm]
      simp
    · rw [List.append_nil]
      -- what is deleted is of the other tenant
      refine List.filter_congr fun row _ => ?_
      by_cases hrow : row.endpointId = id
      · simp [hrow, hid, hb]
      · simp [hrow]
  · have hmap : (db.setSubscriptionsTx id eventTypes).subscriptions.rows.map unnumberSubscription =
        _ ++ eventTypes.map fun x => unnumberSubscription (newSubscription id x 0) :=
      db.setSubscriptionsTx_map eventTypes unnumberSubscription fun _ _ => rfl
    rw [hrows, List.map_append] at hmap
    exact List.append_cancel_left hmap

/-- What was found in a table is found when rows are added. -/
theorem find?_of_append {ρ : Type} {key : ρ → Uuid} {table table' : Table Uuid ρ key}
    {new : List ρ} (hrows : table'.rows = table.rows ++ new) {k : Uuid} {r : ρ}
    (h : table.find? k = some r) : table'.find? k = some r := by
  obtain ⟨hr, hk⟩ := Table.find?_eq_some_iff.1 h
  refine Table.find?_eq_some_iff.2 ⟨?_, hk⟩
  rw [Table.mem_def, hrows]
  exact List.mem_append_left _ hr

/-- An event is added, with deliveries and outbox rows of its own. -/
theorem rowsOf_addEvent (hsound : db.Sound) {e : EventRow} {ds : List DeliveryRow}
    {os : List OutboxRow} (hevents : db'.events.rows = db.events.rows ++ [e])
    (hdeliveries : db'.deliveries.rows = db.deliveries.rows ++ ds)
    (houtbox : db'.outbox.rows = db.outbox.rows ++ os) (hendpoints : db'.endpoints = db.endpoints)
    (hsubscriptions : db'.subscriptions = db.subscriptions) (hattempts : db'.attempts = db.attempts)
    (hds : ∀ d ∈ ds, d.eventId = e.id) (hos : ∀ row ∈ os, row.eventId = e.id) (t : Uuid) :
    db'.rowsOf t = { db.rowsOf t with
      events := (db.rowsOf t).events ++ if e.tenantId = t then [e] else []
      deliveries := (db.rowsOf t).deliveries ++ if e.tenantId = t then ds else []
      outbox := (db.rowsOf t).outbox ++ if e.tenantId = t then os else [] } := by
  have hnew : db'.eventTenant e.id = some e.tenantId := by
    apply eventTenant_of_find?
    refine Table.find?_eq_some_iff.2 ⟨?_, rfl⟩
    rw [Table.mem_def, hevents]
    exact List.mem_append_right _ (List.mem_singleton_self e)
  have hold : ∀ {id x}, db.events.find? id = some x → db'.eventTenant id = db.eventTenant id := by
    intro id x hx
    rw [eventTenant_of_find? hx, eventTenant_of_find? (find?_of_append hevents hx)]
  have hdelivery : ∀ d ∈ db.deliveries.rows, db'.eventTenant d.eventId = db.eventTenant d.eventId := by
    intro d hd
    obtain ⟨x, hx⟩ := hsound.eventTenant_isSome hd
    exact hold hx
  refine Owned.ext ?_ ?_ ?_ ?_ ?_ ?_
  · simp only [rowsOf, hendpoints]
  · simp only [rowsOf, hsubscriptions]
    exact filter_owner_congr (fun row _ => by rw [endpointTenant, endpointTenant, hendpoints]) t
  · simp only [rowsOf, hevents, List.filter_append]
    split_ifs with ht
    · simp [ht]
    · simp [ht]
  · simp only [rowsOf, hdeliveries]
    exact filter_owner_append hdelivery (fun d hd => by rw [hds d hd]; exact hnew) t
  · simp only [rowsOf, hattempts]
    refine filter_owner_congr (fun a ha => ?_) t
    obtain ⟨d, hd⟩ := hsound.attempt a ha
    rw [deliveryTenant, deliveryTenant, find?_of_append hdeliveries hd, hd]
    exact hdelivery d (Table.find?_eq_some_iff.1 hd).1
  · simp only [rowsOf, houtbox]
    refine filter_owner_append (fun row hrow => ?_)
      (fun row hrow => by rw [hos row hrow]; exact hnew) t
    obtain ⟨x, hx⟩ := hsound.outbox row hrow
    exact hold hx

/-- A delivery is made again. -/
theorem rowsOf_redeliver {now : Micros} {d : DeliveryRow} {outboxId : ℕ} {b : Uuid}
    (howner : db.eventTenant d.eventId = some b) (h : db.redeliverTx now d outboxId = some db')
    (t : Uuid) :
    db'.rowsOf t = { db.rowsOf t with
      deliveries := (db.rowsOf t).deliveries.map fun x => if x.id = d.id then reopen now x else x
      outbox := (db.rowsOf t).outbox ++
        if b = t then [newOutbox now outboxId d.eventId (some d.id)] else [] } := by
  obtain ⟨-, hdeliveries, houtbox, hevents, hendpoints, hsubscriptions, hattempts⟩ :=
    redeliverTx_eq_some h
  have hevent : ∀ id, db'.eventTenant id = db.eventTenant id := by
    intro id
    rw [eventTenant, eventTenant, hevents]
  refine Owned.ext ?_ ?_ ?_ ?_ ?_ ?_
  · simp only [rowsOf, hendpoints]
  · simp only [rowsOf, hsubscriptions]
    exact filter_owner_congr (fun row _ => by rw [endpointTenant, endpointTenant, hendpoints]) t
  · simp only [rowsOf, hevents]
  · simp only [rowsOf, hdeliveries, hevent]
    have hmap := filter_map_if db.deliveries.rows (fun x => db.eventTenant x.eventId = some t)
      (fun x => x.id = d.id) (reopen now) fun _ => rfl
    simpa [Table.modify, Table.modifyMany] using hmap
  · simp only [rowsOf, hattempts]
    refine filter_owner_congr (fun a _ => ?_) t
    rw [deliveryTenant, deliveryTenant, hdeliveries, Table.find?_modify]
    split_ifs with hid
    · rw [hid]
      cases db.deliveries.find? d.id with
      | none => rfl
      | some x => exact hevent x.eventId
    · cases db.deliveries.find? a.deliveryId with
      | none => rfl
      | some x => exact hevent x.eventId
  · simp only [rowsOf, houtbox]
    refine filter_owner_append (fun row _ => hevent row.eventId) (fun row hrow => ?_) t
    rw [List.mem_singleton.1 hrow, hevent]
    exact howner

end Database

end HookRelay
