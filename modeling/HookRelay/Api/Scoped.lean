import HookRelay.Api.Ownership
import HookRelay.Api.Events
import HookRelay.Api.Deliveries

/-!
# The operations, by the rows of the tenant

Every query of the services is scoped by the tenant: at once, or by a scoped query first and
then by the bare id.  So in two databases that agree on the rows of a tenant they find the
same, given that deliveries do not cross tenants.

* `findScoped_eq`, `requireOwned_eq`, `targets_agree` and so on — the queries.
* `SameOutcome` — the same answer or error, the rows of the tenant agree again, and those of
  the others are as they were.
* `EndpointsService.create_same` and so on — each of the operations.
-/

namespace HookRelay

open Lib Database

variable {db db₁ db₂ : Database} {b : Uuid}

/-! ## Queries, by the rows of the tenant -/

/-- A scoped query is a query of the rows in its scope. -/
theorem find?_and {ρ : Type} (rows : List ρ) (p q : ρ → Bool) :
    (rows.find? fun r => p r && q r) = (rows.filter p).find? q := by
  rw [List.find?_filter]
  congr 1
  funext r
  simp

/-- The scoped query for an endpoint. -/
theorem findScoped_eq (db : Database) (b id : Uuid) : EndpointsService.findScoped db b id =
    (db.rowsOf b).endpoints.find? fun e => e.id = id := by
  rw [EndpointsService.findScoped]
  simp only [Bool.and_comm (decide (EndpointRow.id _ = id))]
  exact find?_and _ _ _

theorem urlTaken_eq (db : Database) (b : Uuid) (url : Text) (self : Option Uuid) :
    db.urlTaken b url self =
      (db.rowsOf b).endpoints.any fun e => e.url = url && some e.id ≠ self := by
  rw [rowsOf, List.any_filter, urlTaken]
  simp only [Bool.and_assoc]

theorem eventByKey_eq (db : Database) (b : Uuid) (key : Text) : db.eventByKey b key =
    (db.rowsOf b).events.find? fun e => e.idempotencyKey = key := find?_and _ _ _

theorem findScopedEvent_eq (db : Database) (b id : Uuid) : EventsService.findScoped db b id =
    (db.rowsOf b).events.find? fun e => e.id = id := by
  rw [EventsService.findScoped]
  simp only [Bool.and_comm (decide (EventRow.id _ = id))]
  exact find?_and _ _ _

/-- A row of the tenant is found by its bare id as it is in the scope. -/
theorem find?_eq_of_owned {ρ : Type} {key : ρ → Uuid} {table : Table Uuid ρ key} {id : Uuid} {r : ρ}
    (owned : ρ → Bool) (h : table.find? id = some r) (hr : owned r = true) :
    table.find? id = (table.rows.filter owned).find? fun x => key x = id := by
  obtain ⟨hmem, hkey⟩ := Table.find?_eq_some_iff.1 h
  let scope : Table Uuid ρ key :=
    ⟨table.rows.filter owned, table.nodup.sublist (List.filter_sublist.map key)⟩
  have hscope : scope.find? id = some r :=
    Table.find?_eq_some_iff.2 ⟨List.mem_filter.2 ⟨hmem, hr⟩, hkey⟩
  rw [h]
  exact hscope.symm

theorem find?_endpoint_eq {id : Uuid} (h : db.endpointTenant id = some b) :
    db.endpoints.find? id = (db.rowsOf b).endpoints.find? fun e => e.id = id := by
  obtain ⟨e, he, htenant⟩ := Option.map_eq_some_iff.1 h
  exact find?_eq_of_owned (fun e => e.tenantId = b) he (by simpa using htenant)

theorem find?_event_eq {id : Uuid} (h : db.eventTenant id = some b) :
    db.events.find? id = (db.rowsOf b).events.find? fun e => e.id = id := by
  obtain ⟨e, he, htenant⟩ := Option.map_eq_some_iff.1 h
  exact find?_eq_of_owned (fun e => e.tenantId = b) he (by simpa using htenant)

/-- What does not depend on the numbers of rows is the same in two tables with the same rows but
for their numbers. -/
theorem map_filter_eq {ρ σ : Type} {rows₁ rows₂ : List ρ} {unnumber : ρ → ρ}
    (h : rows₁.map unnumber = rows₂.map unnumber) (p : ρ → Bool) (f : ρ → σ)
    (hp : ∀ r, p (unnumber r) = p r) (hf : ∀ r, f (unnumber r) = f r) :
    (rows₁.filter p).map f = (rows₂.filter p).map f := by
  have hthrough : ∀ rows : List ρ,
      (rows.filter p).map f = ((rows.map unnumber).filter p).map f := by
    intro rows
    have hpp : p ∘ unnumber = p := funext hp
    have hff : f ∘ unnumber = f := funext hf
    rw [List.filter_map, List.map_map, hpp, hff]
  rw [hthrough rows₁, hthrough rows₂, h]

/-- The event types of an endpoint of the tenant. -/
theorem eventTypes_eq {id : Uuid} (h : db.endpointTenant id = some b) :
    EndpointsService.eventTypes db id =
      ((db.rowsOf b).subscriptions.filter fun row => row.endpointId = id).map
        SubscriptionRow.eventType := by
  rw [EndpointsService.eventTypes, rowsOf, List.filter_filter]
  congr 1
  refine List.filter_congr fun row _ => ?_
  by_cases hrow : row.endpointId = id
  · simp [hrow, h]
  · simp [hrow]

theorem eventTypes_agree (hagree : Agree b db₁ db₂) {id : Uuid}
    (h₁ : db₁.endpointTenant id = some b) (h₂ : db₂.endpointTenant id = some b) :
    EndpointsService.eventTypes db₁ id = EndpointsService.eventTypes db₂ id := by
  rw [eventTypes_eq h₁, eventTypes_eq h₂]
  exact map_filter_eq hagree.subscriptions _ _ (fun _ => rfl) fun _ => rfl

/-- An endpoint in the scope is of the tenant. -/
theorem endpointTenant_of_mem {e : EndpointRow} (h : e ∈ (db.rowsOf b).endpoints) :
    db.endpointTenant e.id = some b := by
  obtain ⟨hmem, htenant⟩ := List.mem_filter.1 h
  rw [endpointTenant_of_find? (Table.find?_of_mem hmem), of_decide_eq_true htenant]

theorem targets_agree (hagree : Agree b db₁ db₂) (type : Text) :
    EventsService.targets db₁ b type = EventsService.targets db₂ b type := by
  have hscope : ∀ db : Database, EventsService.targets db b type =
      (((db.rowsOf b).endpoints.filter (EventsService.wants db type)).insertionSort
        fun x y => x.createdAt ≤ y.createdAt).map EndpointRow.id := by
    intro db
    rw [EventsService.targets, rowsOf, List.filter_filter]
    simp only [Bool.and_comm]
  have hwants : ∀ db : Database, ∀ e, EventsService.wants db type e = (decide (e.status = .active) &&
      (EndpointsService.eventTypes db e.id).any fun x => x = type) := by
    intro db e
    rw [EventsService.wants, EndpointsService.eventTypes, List.any_map, List.any_filter]
    rfl
  rw [hscope, hscope, hagree.endpoints]
  congr 2
  refine List.filter_congr fun e he => ?_
  rw [hwants, hwants, eventTypes_agree hagree (endpointTenant_of_mem (hagree.endpoints ▸ he))
    (endpointTenant_of_mem he)]

theorem ownedBy_eq (db : Database) (b : Uuid) (d : DeliveryRow) :
    DeliveriesService.ownedBy db b d = decide (db.eventTenant d.eventId = some b) := by
  rw [DeliveriesService.ownedBy, eventTenant]
  cases db.events.find? d.eventId with
  | none => simp
  | some e => simp

theorem requireOwned_eq (db : Database) (b id : Uuid) : DeliveriesService.requireOwned db b id =
    (db.rowsOf b).deliveries.find? fun d => d.id = id := by
  rw [DeliveriesService.requireOwned]
  simp only [ownedBy_eq, Bool.and_comm (decide (DeliveryRow.id _ = id))]
  exact find?_and _ _ _

/-- The deliveries of an event of the tenant. -/
theorem deliveriesOf_eq {id : Uuid} (h : db.eventTenant id = some b) :
    db.deliveriesOf id = (db.rowsOf b).deliveries.filter fun d => d.eventId = id := by
  rw [deliveriesOf, rowsOf, List.filter_filter]
  refine List.filter_congr fun d _ => ?_
  by_cases hd : d.eventId = id
  · simp [hd, h]
  · simp [hd]

/-- The endpoint of a delivery of the tenant is of the tenant too. -/
theorem find?_endpoint_agree (hagree : Agree b db₁ db₂) (h₁ : db₁.Sound) (h₂ : db₂.Sound)
    {d : DeliveryRow} (hd : d ∈ (db₁.rowsOf b).deliveries) :
    db₁.endpoints.find? d.endpointId = db₂.endpoints.find? d.endpointId := by
  have howner : ∀ {db : Database}, db.Sound → d ∈ (db.rowsOf b).deliveries →
      db.endpointTenant d.endpointId = some b := by
    intro db hsound hmem
    obtain ⟨hrow, htenant⟩ := List.mem_filter.1 hmem
    rw [hsound.endpointTenant hrow]
    exact of_decide_eq_true htenant
  rw [find?_endpoint_eq (howner h₁ hd), find?_endpoint_eq (howner h₂ (hagree.deliveries ▸ hd)),
    hagree.endpoints]

theorem find?_event_agree (hagree : Agree b db₁ db₂) {d : DeliveryRow}
    (hd : d ∈ (db₁.rowsOf b).deliveries) :
    db₁.events.find? d.eventId = db₂.events.find? d.eventId := by
  have howner : ∀ {db : Database}, d ∈ (db.rowsOf b).deliveries →
      db.eventTenant d.eventId = some b :=
    fun hmem => of_decide_eq_true (List.mem_filter.1 hmem).2
  rw [find?_event_eq (howner hd), find?_event_eq (howner (hagree.deliveries ▸ hd)), hagree.events]

/-! ## Outcomes -/

/-- The rows of the other tenants are as they were. -/
def Untouched (b : Uuid) (db db' : Database) : Prop := ∀ t, t ≠ b → db'.rowsOf t = db.rowsOf t

theorem Untouched.refl (b : Uuid) (db : Database) : Untouched b db db := fun _ _ => rfl

/-- The same operation in two databases: it fails with the same error, or it has the same
answer, the rows of the tenant agree afterwards, and those of the others are as they were. -/
inductive SameOutcome (b : Uuid) (db₁ db₂ : Database) {α : Type} : Outcome α → Outcome α → Prop
  | error (e : ServiceError) : SameOutcome b db₁ db₂ (.error e) (.error e)
  | ok (answer : α) {db₁' db₂' : Database} : Agree b db₁' db₂' → Untouched b db₁ db₁' →
      Untouched b db₂ db₂' → SameOutcome b db₁ db₂ (.ok (answer, db₁')) (.ok (answer, db₂'))

/-- The same answer, and nothing is written. -/
theorem SameOutcome.read {α : Type} (hagree : Agree b db₁ db₂) {x y : α} (h : x = y) :
    SameOutcome b db₁ db₂ (.ok (x, db₁)) (.ok (y, db₂)) := by
  subst h
  exact .ok x hagree (.refl b db₁) (.refl b db₂)

/-- The UUIDs that an operation may draw, for an event and a delivery to every endpoint, are
different and not in use. -/
structure Fresh (env : Env) (db : Database) : Prop where
  distinct : ∀ i j, i < j → j ≤ db.endpoints.rows.length + 1 →
    env.randomUuid i ≠ env.randomUuid j
  endpoint : ∀ i ≤ db.endpoints.rows.length + 1, db.endpoints.find? (env.randomUuid i) = none
  event : ∀ i ≤ db.endpoints.rows.length + 1, db.events.find? (env.randomUuid i) = none
  delivery : ∀ i ≤ db.endpoints.rows.length + 1, db.deliveries.find? (env.randomUuid i) = none

namespace EndpointsService

theorem list_same (hagree : Agree b db₁ db₂) :
    SameOutcome b db₁ db₂ (list b db₁) (list b db₂) := by
  refine .read hagree ?_
  have hscope : ∀ db : Database, (db.endpoints.rows.filter fun e => e.tenantId = b) =
      (db.rowsOf b).endpoints := fun _ => rfl
  rw [hscope, hscope, hagree.endpoints]
  refine List.map_congr_left fun e he => ?_
  rw [List.mem_insertionSort] at he
  rw [eventTypes_agree hagree (endpointTenant_of_mem (hagree.endpoints ▸ he))
    (endpointTenant_of_mem he)]

/-- The endpoint of a scoped query, in the scope. -/
theorem mem_of_findScoped {id : Uuid} {e : EndpointRow} (h : findScoped db b id = some e) :
    e ∈ (db.rowsOf b).endpoints ∧ e.id = id := by
  rw [findScoped_eq] at h
  exact ⟨List.mem_of_find?_eq_some h, by simpa using List.find?_some h⟩

theorem findScoped_agree (hagree : Agree b db₁ db₂) (id : Uuid) :
    findScoped db₁ b id = findScoped db₂ b id := by
  rw [findScoped_eq, findScoped_eq, hagree.endpoints]

theorem get_same (hagree : Agree b db₁ db₂) (id : Uuid) :
    SameOutcome b db₁ db₂ (get b id db₁) (get b id db₂) := by
  have hfind := findScoped_agree hagree id
  unfold get
  cases h₂ : findScoped db₂ b id with
  | none =>
      rw [h₂] at hfind
      simp only [hfind]
      exact .error _
  | some e =>
      rw [h₂] at hfind
      simp only [hfind]
      refine .read hagree ?_
      obtain ⟨he₁, rfl⟩ := mem_of_findScoped hfind
      obtain ⟨he₂, -⟩ := mem_of_findScoped h₂
      rw [eventTypes_agree hagree (endpointTenant_of_mem he₁) (endpointTenant_of_mem he₂)]

theorem urlTaken_agree (hagree : Agree b db₁ db₂) (url : Text) (self : Option Uuid) :
    db₁.urlTaken b url self = db₂.urlTaken b url self := by
  rw [urlTaken_eq, urlTaken_eq, hagree.endpoints]

theorem create_same {env : Env} (hagree : Agree b db₁ db₂) (h₁ : db₁.Sound) (h₂ : db₂.Sound)
    (hf₁ : Fresh env db₁) (hf₂ : Fresh env db₂) (url : Text) (description : Option Text) :
    SameOutcome b db₁ db₂ (create env b url description db₁)
      (create env b url description db₂) := by
  unfold create
  cases assertDeliverableUrl env.ssrf env.newUrl env.resolve url with
  | error e => exact .error _
  | ok _ =>
      simp only [urlTaken_agree hagree]
      split_ifs
      · exact .error _
      · obtain ⟨endpoints₁, hins₁⟩ : ∃ endpoints, db₁.endpoints.insert?
            (newEndpoint env b url description) = some endpoints :=
          Table.insert?_isSome (hf₁.endpoint 0 (Nat.zero_le _))
        obtain ⟨endpoints₂, hins₂⟩ : ∃ endpoints, db₂.endpoints.insert?
            (newEndpoint env b url description) = some endpoints :=
          Table.insert?_isSome (hf₂.endpoint 0 (Nat.zero_le _))
        simp only [hins₁, hins₂]
        have hb : (newEndpoint env b url description).tenantId = b := rfl
        refine .ok _ ?_ (fun t ht => ?_) (fun t ht => ?_)
        · rw [Agree, rowsOf_createEndpoint h₁ hins₁, rowsOf_createEndpoint h₂ hins₂]
          refine { hagree with endpoints := ?_ }
          rw [hagree.endpoints]
        · rw [rowsOf_createEndpoint h₁ hins₁, if_neg fun h => ht (h.symm.trans hb), List.append_nil]
        · rw [rowsOf_createEndpoint h₂ hins₂, if_neg fun h => ht (h.symm.trans hb), List.append_nil]

/-- The endpoints of the other tenants have other ids. -/
theorem map_endpoints_of_ne {id t : Uuid} {e : EndpointRow} (he : findScoped db b id = some e)
    (ht : t ≠ b) (f : EndpointRow → EndpointRow) :
    ((db.rowsOf t).endpoints.map fun e => if e.id = id then f e else e) =
      (db.rowsOf t).endpoints := by
  obtain ⟨hmem, rfl⟩ := mem_of_findScoped he
  have hother : ∀ x ∈ (db.rowsOf t).endpoints, decide (x.id = e.id) = false := by
    intro x hx
    refine decide_eq_false fun hid => ht ?_
    have hx' := endpointTenant_of_mem hx
    rw [hid, endpointTenant_of_mem hmem] at hx'
    exact (Option.some.inj hx').symm
  simpa using map_if_eq_self f hother

theorem update_same {env : Env} (hagree : Agree b db₁ db₂) (id : Uuid) (url : Option Text)
    (description : Option (Option Text)) (status : Option EndpointStatus) :
    SameOutcome b db₁ db₂ (update env b id url description status db₁)
      (update env b id url description status db₂) := by
  have hfind := findScoped_agree hagree id
  unfold update
  cases h₂ : findScoped db₂ b id with
  | none =>
      rw [h₂] at hfind
      simp only [hfind]
      exact .error _
  | some e =>
      rw [h₂] at hfind
      simp only [hfind]
      split
      · exact .error _
      · have hb : e.tenantId = b := of_decide_eq_true (List.mem_filter.1 (mem_of_findScoped h₂).1).2
        simp only [hb, urlTaken_agree hagree]
        split_ifs
        · exact .error _
        · have hrows : ∀ (db : Database) (t : Uuid), rowsOf { db with
              endpoints := db.endpoints.modify id (updateData env.now url description status)
                (updateData_id env.now url description status) } t = _ :=
            fun db t => rowsOf_updateEndpoint (updateData_id env.now url description status)
              (fun _ => rfl) t
          refine .ok _ ?_ (fun t ht => ?_) (fun t ht => ?_)
          · rw [Agree, hrows, hrows]
            refine { hagree with endpoints := ?_ }
            rw [hagree.endpoints]
          · rw [hrows, map_endpoints_of_ne hfind ht]
          · rw [hrows, map_endpoints_of_ne h₂ ht]

theorem setSubscriptions_same (hagree : Agree b db₁ db₂) (id : Uuid) (eventTypes : List Text) :
    SameOutcome b db₁ db₂ (setSubscriptions b id eventTypes db₁)
      (setSubscriptions b id eventTypes db₂) := by
  have hfind := findScoped_agree hagree id
  unfold setSubscriptions
  cases h₂ : findScoped db₂ b id with
  | none =>
      rw [h₂] at hfind
      simp only [hfind]
      exact .error _
  | some e =>
      rw [h₂] at hfind
      simp only [hfind]
      obtain ⟨he₁, rfl⟩ := mem_of_findScoped hfind
      obtain ⟨he₂, -⟩ := mem_of_findScoped h₂
      obtain ⟨new₁, hrows₁, hnew₁⟩ :=
        rowsOf_setSubscriptions (endpointTenant_of_mem he₁) eventTypes.eraseDups
      obtain ⟨new₂, hrows₂, hnew₂⟩ :=
        rowsOf_setSubscriptions (endpointTenant_of_mem he₂) eventTypes.eraseDups
      refine .ok _ ?_ (fun t ht => ?_) (fun t ht => ?_)
      · rw [Agree, hrows₁, hrows₂, if_pos rfl, if_pos rfl]
        refine { hagree with subscriptions := ?_ }
        have hkept := map_filter_eq hagree.subscriptions
          (fun row => row.endpointId ≠ e.id) unnumberSubscription (fun _ => rfl) fun _ => rfl
        rw [List.map_append, List.map_append, hkept, hnew₁, hnew₂]
      · rw [hrows₁, if_neg (Ne.symm ht)]
      · rw [hrows₂, if_neg (Ne.symm ht)]

end EndpointsService

/-- An event of the tenant with fresh UUIDs is inserted if its key is free. -/
theorem insertEvent?_isSome_of_fresh {e : EventRow} (hkey : db.keyTaken e.tenantId e.idempotencyKey =
    false) (hid : db.events.find? e.id = none) : ∃ db', db.insertEvent? e = some db' := by
  rw [insertEvent?_isSome_iff]
  intro x hx
  rw [clash_eq_false_iff]
  exact ⟨Table.find?_eq_none_iff.1 hid x hx, keyTaken_eq_false_iff.1 hkey x hx⟩

theorem keyTaken_agree (hagree : Agree b db₁ db₂) (key : Text) :
    db₁.keyTaken b key = db₂.keyTaken b key := by
  rw [keyTaken, keyTaken, eventByKey_eq, eventByKey_eq, hagree.events]

/-- No delivery is for an event that is not there. -/
theorem eventId_ne_of_fresh (hsound : db.Sound) {id : Uuid} (hid : db.events.find? id = none) :
    ∀ x ∈ db.deliveries.rows, x.eventId ≠ id := by
  intro x hx heq
  obtain ⟨e, he⟩ := hsound.eventTenant_isSome hx
  rw [heq, hid] at he
  cases he

/-- The next number of the sequence is free. -/
theorem outbox_next_free (db : Database) : ∀ x ∈ db.outbox.rows, x.id ≠ db.outbox.next :=
  fun x hx => Nat.ne_of_lt (db.outbox.fresh x hx)

/-- The same event is added to two databases, with the same deliveries and outbox rows but for
their numbers. -/
theorem SameOutcome.addEvent {α : Type} (answer : α) (hagree : Agree b db₁ db₂) {db₁' db₂' : Database}
    {e : EventRow} {ds : List DeliveryRow} {os₁ os₂ : List OutboxRow} (he : e.tenantId = b)
    (hrows₁ : ∀ t, db₁'.rowsOf t = { db₁.rowsOf t with
      events := (db₁.rowsOf t).events ++ if e.tenantId = t then [e] else []
      deliveries := (db₁.rowsOf t).deliveries ++ if e.tenantId = t then ds else []
      outbox := (db₁.rowsOf t).outbox ++ if e.tenantId = t then os₁ else [] })
    (hrows₂ : ∀ t, db₂'.rowsOf t = { db₂.rowsOf t with
      events := (db₂.rowsOf t).events ++ if e.tenantId = t then [e] else []
      deliveries := (db₂.rowsOf t).deliveries ++ if e.tenantId = t then ds else []
      outbox := (db₂.rowsOf t).outbox ++ if e.tenantId = t then os₂ else [] })
    (hos : os₁.map unnumberOutbox = os₂.map unnumberOutbox) :
    SameOutcome b db₁ db₂ (.ok (answer, db₁')) (.ok (answer, db₂')) := by
  refine .ok _ ?_ (fun t ht => ?_) (fun t ht => ?_)
  · rw [Agree, hrows₁, hrows₂, if_pos he, if_pos he, if_pos he, if_pos he]
    refine { hagree with events := ?_, deliveries := ?_, outbox := ?_ }
    · rw [hagree.events]
    · rw [hagree.deliveries]
    · rw [List.map_append, List.map_append, hagree.outbox, hos]
  · have hne : e.tenantId ≠ t := fun h => ht (h.symm.trans he)
    rw [hrows₁, if_neg hne, if_neg hne, if_neg hne]
    simp
  · have hne : e.tenantId ≠ t := fun h => ht (h.symm.trans he)
    rw [hrows₂, if_neg hne, if_neg hne, if_neg hne]
    simp

namespace EndpointsService

/-- A ping goes through unless its key is taken. -/
theorem exists_pingTx {env : Env} (hsound : db.Sound) (hfresh : Fresh env db) (endpointId : Uuid)
    (hkey : db.keyTaken b (pingKey (env.randomUuid 1)) = false) :
    ∃ db', db.pingTx env.now (pingEvent env b endpointId) (env.randomUuid 1) endpointId
      db.outbox.next = some db' := by
  have hevent : db.events.find? (env.randomUuid 0) = none := hfresh.event 0 (Nat.zero_le _)
  refine pingTx_isSome (insertEvent?_isSome_of_fresh hkey hevent) ?_ (outbox_next_free db)
  rw [insertDelivery?_isSome_iff]
  intro x hx
  rw [clashes_eq_false_iff]
  have hdelivery := Table.find?_eq_none_iff.1 (hfresh.delivery 1 (by omega)) x hx
  exact ⟨hdelivery, fun hpair => eventId_ne_of_fresh hsound hevent x hx hpair.1⟩

/-- What a ping does to the rows of every tenant. -/
theorem rowsOf_pingTx (hsound : db.Sound) {now : Micros} {e : EventRow} {deliveryId endpointId : Uuid}
    {outboxId : ℕ} {db' : Database} (h : db.pingTx now e deliveryId endpointId outboxId = some db')
    (t : Uuid) : db'.rowsOf t = { db.rowsOf t with
      events := (db.rowsOf t).events ++ if e.tenantId = t then [e] else []
      deliveries := (db.rowsOf t).deliveries ++
        if e.tenantId = t then [newDelivery now deliveryId e.id endpointId] else []
      outbox := (db.rowsOf t).outbox ++
        if e.tenantId = t then [newOutbox now outboxId e.id (some deliveryId)] else [] } := by
  obtain ⟨-, -, -, -, hevents, hdeliveries, houtbox, hendpoints, hsubscriptions, hattempts⟩ :=
    pingTx_eq_some h
  refine rowsOf_addEvent hsound hevents hdeliveries houtbox hendpoints hsubscriptions hattempts
    (fun d hd => ?_) (fun row hrow => ?_) t
  · rw [List.mem_singleton.1 hd]
    rfl
  · rw [List.mem_singleton.1 hrow]
    rfl

theorem ping_same {env : Env} (hagree : Agree b db₁ db₂) (h₁ : db₁.Sound) (h₂ : db₂.Sound)
    (hf₁ : Fresh env db₁) (hf₂ : Fresh env db₂) (endpointId : Uuid) :
    SameOutcome b db₁ db₂ (ping env b endpointId db₁) (ping env b endpointId db₂) := by
  have hfind := findScoped_agree hagree endpointId
  unfold ping
  cases hs₂ : findScoped db₂ b endpointId with
  | none =>
      rw [hs₂] at hfind
      simp only [hfind]
      exact .error _
  | some e =>
      rw [hs₂] at hfind
      simp only [hfind]
      obtain ⟨-, rfl⟩ := mem_of_findScoped hs₂
      cases hkey : db₂.keyTaken b (pingKey (env.randomUuid 1)) with
      | true =>
          have hnone : ∀ db : Database, db.keyTaken b (pingKey (env.randomUuid 1)) = true →
              db.pingTx env.now (pingEvent env b e.id) (env.randomUuid 1) e.id db.outbox.next =
                none := by
            intro db hdb
            have hins : db.insertEvent? (pingEvent env b e.id) = none := if_pos hdb
            rw [pingTx, hins]
            rfl
          simp only [hnone db₁ ((keyTaken_agree hagree _).trans hkey), hnone db₂ hkey]
          exact .error _
      | false =>
          obtain ⟨db₁', hdb₁⟩ := exists_pingTx h₁ hf₁ e.id
            ((keyTaken_agree hagree _).trans hkey)
          obtain ⟨db₂', hdb₂⟩ := exists_pingTx h₂ hf₂ e.id hkey
          simp only [hdb₁, hdb₂]
          exact .addEvent _ hagree rfl (rowsOf_pingTx h₁ hdb₁) (rowsOf_pingTx h₂ hdb₂) rfl

end EndpointsService

namespace EventsService

/-- A publish goes through unless its key is taken. -/
theorem exists_publishTx {env : Env} (hsound : db.Sound) (hfresh : Fresh env db) (type : Text)
    (payload : Json) {key : Text} (hkey : db.keyTaken b key = false) :
    ∃ db', db.publishTx env.now (newEvent env b type payload key)
      (newDeliveries env (env.randomUuid 0) (targets db b type)) db.outbox.next = some db' := by
  have hevent : db.events.find? (env.randomUuid 0) = none := hfresh.event 0 (Nat.zero_le _)
  have hlen := length_targets_le db b type
  refine publishTx_isSome (insertEvent?_isSome_of_fresh hkey hevent) ?_ fun _ => outbox_next_free db
  apply insertDeliveries?_isSome_of_fresh (nodup_targets db b type)
  · exact eventId_ne_of_fresh hsound hevent
  · intro x hx i hi
    exact Table.find?_eq_none_iff.1 (hfresh.delivery (i + 1) (by omega)) x hx
  · intro i j hij hj
    exact hfresh.distinct (i + 1) (j + 1) (by omega) (by omega)

/-- The fan-out row, if there are deliveries. -/
def fanOutRow (now : Micros) (outboxId : ℕ) (eventId : Uuid) (ds : List DeliveryRow) :
    List OutboxRow :=
  if ds = [] then [] else [newOutbox now outboxId eventId none]

/-- What a publish does to the rows of every tenant. -/
theorem rowsOf_publishTx (hsound : db.Sound) {now : Micros} {e : EventRow} {ds : List DeliveryRow}
    {outboxId : ℕ} {db' : Database} (h : db.publishTx now e ds outboxId = some db')
    (hds : ∀ d ∈ ds, d.eventId = e.id) (t : Uuid) : db'.rowsOf t = { db.rowsOf t with
      events := (db.rowsOf t).events ++ if e.tenantId = t then [e] else []
      deliveries := (db.rowsOf t).deliveries ++ if e.tenantId = t then ds else []
      outbox := (db.rowsOf t).outbox ++
        if e.tenantId = t then fanOutRow now outboxId e.id ds else [] } := by
  obtain ⟨-, -, -, hevents, hdeliveries, houtbox, hendpoints, hsubscriptions, hattempts⟩ :=
    publishTx_eq_some h
  have hrows : db'.outbox.rows = db.outbox.rows ++ fanOutRow now outboxId e.id ds := by
    rw [fanOutRow]
    rcases houtbox with ⟨hnil, heq⟩ | ⟨hne, -, heq⟩
    · rw [if_pos hnil, heq, List.append_nil]
    · rw [if_neg hne, heq]
  refine rowsOf_addEvent hsound hevents hdeliveries hrows hendpoints hsubscriptions hattempts
    hds (fun row hrow => ?_) t
  rw [fanOutRow] at hrow
  split_ifs at hrow
  · cases hrow
  · rw [List.mem_singleton.1 hrow]
    rfl

theorem publish_same {env : Env} (hagree : Agree b db₁ db₂) (h₁ : db₁.Sound) (h₂ : db₂.Sound)
    (hf₁ : Fresh env db₁) (hf₂ : Fresh env db₂) (type : Text) (payload : Json) (key : Text) :
    SameOutcome b db₁ db₂ (publish env b type payload key db₁)
      (publish env b type payload key db₂) := by
  unfold publish
  split_ifs
  · exact .error _
  · have htargets := targets_agree hagree type
    cases hkey : db₂.keyTaken b key with
    | true =>
        have hkey₁ := (keyTaken_agree hagree key).trans hkey
        have hnone : ∀ (db : Database) (ds : List DeliveryRow), db.keyTaken b key = true →
            db.publishTx env.now (newEvent env b type payload key) ds db.outbox.next = none := by
          intro db ds hdb
          have hins : db.insertEvent? (newEvent env b type payload key) = none := if_pos hdb
          rw [publishTx, hins]
          rfl
        have hexisting : db₁.eventByKey b key = db₂.eventByKey b key := by
          rw [eventByKey_eq, eventByKey_eq, hagree.events]
        simp only [hnone db₁ _ hkey₁, hnone db₂ _ hkey, hexisting]
        split
        · exact .error _
        · exact .error _
    | false =>
        obtain ⟨db₁', hdb₁⟩ := exists_publishTx h₁ hf₁ type payload
          ((keyTaken_agree hagree key).trans hkey)
        obtain ⟨db₂', hdb₂⟩ := exists_publishTx h₂ hf₂ type payload hkey
        rw [htargets] at hdb₁
        have hds : ∀ d ∈ newDeliveries env (env.randomUuid 0) (targets db₂ b type),
            d.eventId = (newEvent env b type payload key).id := by
          intro d hd
          obtain ⟨p, -, rfl⟩ := List.mem_map.1 hd
          rfl
        have hrows₁ := rowsOf_publishTx h₁ hdb₁ hds
        have hrows₂ := rowsOf_publishTx h₂ hdb₂ hds
        rw [newDeliveries] at hdb₁ hdb₂
        have hid : (newEvent env b type payload key).id = env.randomUuid 0 := rfl
        simp only [htargets, hid, hdb₁, hdb₂]
        refine .addEvent _ hagree rfl hrows₁ hrows₂ ?_
        unfold fanOutRow
        split_ifs
        · rfl
        · rfl

theorem getDeliveries_same (hagree : Agree b db₁ db₂) (h₁ : db₁.Sound) (h₂ : db₂.Sound)
    (eventId : Uuid) :
    SameOutcome b db₁ db₂ (getDeliveries b eventId db₁) (getDeliveries b eventId db₂) := by
  have hfind : findScoped db₁ b eventId = findScoped db₂ b eventId := by
    rw [findScopedEvent_eq, findScopedEvent_eq, hagree.events]
  unfold getDeliveries
  cases hs₂ : findScoped db₂ b eventId with
  | none =>
      rw [hs₂] at hfind
      simp only [hfind]
      exact .error _
  | some e =>
      rw [hs₂] at hfind
      simp only [hfind]
      refine .read hagree ?_
      have howner : ∀ {db : Database}, findScoped db b eventId = some e →
          db.eventTenant eventId = some b := by
        intro db hdb
        have hp := List.find?_some hdb
        rw [Bool.and_eq_true, decide_eq_true_eq, decide_eq_true_eq] at hp
        have hmem : e ∈ db.events := List.mem_of_find?_eq_some hdb
        rw [← hp.1, ← hp.2]
        exact eventTenant_of_find? (Table.find?_of_mem hmem)
      rw [deliveriesOf_eq (howner hfind), deliveriesOf_eq (howner hs₂), ← hagree.deliveries]
      congr 1
      refine List.map_congr_left fun d hd => ?_
      rw [List.mem_insertionSort] at hd
      rw [toView, toView, find?_endpoint_agree hagree h₁ h₂ (List.mem_of_mem_filter hd)]

end EventsService

namespace DeliveriesService

theorem requireOwned_agree (hagree : Agree b db₁ db₂) (id : Uuid) :
    requireOwned db₁ b id = requireOwned db₂ b id := by
  rw [requireOwned_eq, requireOwned_eq, hagree.deliveries]

theorem mem_of_requireOwned {id : Uuid} {d : DeliveryRow} (h : requireOwned db b id = some d) :
    d ∈ (db.rowsOf b).deliveries ∧ d.id = id := by
  rw [requireOwned_eq] at h
  exact ⟨List.mem_of_find?_eq_some h, by simpa using List.find?_some h⟩

theorem toView_agree (hagree : Agree b db₁ db₂) (h₁ : db₁.Sound) (h₂ : db₂.Sound) {d : DeliveryRow}
    (hd : d ∈ (db₁.rowsOf b).deliveries) : toView db₁ d = toView db₂ d := by
  rw [toView, toView, find?_endpoint_agree hagree h₁ h₂ hd, find?_event_agree hagree hd]

theorem list_same (codec : CursorCodec) (hagree : Agree b db₁ db₂) (h₁ : db₁.Sound)
    (h₂ : db₂.Sound) (status : Option DeliveryStatus) (cursor : Option Text) :
    SameOutcome b db₁ db₂ (list codec b status cursor db₁) (list codec b status cursor db₂) := by
  unfold list
  cases cursorFilter codec cursor with
  | error e => exact .error _
  | ok keep =>
      have hscope : ∀ db : Database, (db.deliveries.rows.filter fun d => ownedBy db b d &&
          (status.all fun st => d.status = st) && keep d) =
          (db.rowsOf b).deliveries.filter fun d =>
            (status.all fun st => d.status = st) && keep d := by
        intro db
        rw [rowsOf, List.filter_filter]
        refine List.filter_congr fun d _ => ?_
        rw [ownedBy_eq, Bool.and_assoc, Bool.and_comm]
      simp only [hscope, ← hagree.deliveries]
      -- the rows of the page are of the tenant
      generalize hpage : (if _ > pageSize then _ else _ : List DeliveryRow) = page
      have hviews : page.map (toView db₁) = page.map (toView db₂) := by
        refine List.map_congr_left fun d hd => toView_agree hagree h₁ h₂ ?_
        rw [← hpage] at hd
        split_ifs at hd
        · have hd' := List.mem_of_mem_take (List.mem_of_mem_take hd)
          rw [List.mem_insertionSort] at hd'
          exact List.mem_of_mem_filter hd'
        · have hd' := List.mem_of_mem_take hd
          rw [List.mem_insertionSort] at hd'
          exact List.mem_of_mem_filter hd'
      simp only [hviews]
      split
      · exact .read hagree rfl
      · split
        · exact .error _
        · exact .read hagree rfl

/-- The order of the attempts does not depend on their numbers. -/
theorem map_attemptView_eq {rows₁ rows₂ : List AttemptRow}
    (h : rows₁.map unnumberAttempt = rows₂.map unnumberAttempt) :
    (rows₁.insertionSort fun x y => x.attemptNo ≤ y.attemptNo).map attemptView =
      (rows₂.insertionSort fun x y => x.attemptNo ≤ y.attemptNo).map attemptView := by
  have hthrough : ∀ rows : List AttemptRow,
      (rows.insertionSort fun x y => x.attemptNo ≤ y.attemptNo).map attemptView =
        ((rows.map unnumberAttempt).insertionSort fun x y => x.attemptNo ≤ y.attemptNo).map
          attemptView := by
    intro rows
    rw [← List.map_insertionSort (fun x y : AttemptRow => x.attemptNo ≤ y.attemptNo) _
      unnumberAttempt rows fun _ _ _ _ => Iff.rfl, List.map_map]
    rfl
  rw [hthrough rows₁, hthrough rows₂, h]

theorem attempts_same (hagree : Agree b db₁ db₂) (deliveryId : Uuid) :
    SameOutcome b db₁ db₂ (attempts b deliveryId db₁) (attempts b deliveryId db₂) := by
  have hfind := requireOwned_agree hagree deliveryId
  unfold attempts
  cases hs₂ : requireOwned db₂ b deliveryId with
  | none =>
      rw [hs₂] at hfind
      simp only [hfind]
      exact .error _
  | some d =>
      rw [hs₂] at hfind
      simp only [hfind]
      refine .read hagree ?_
      have hscope : ∀ {db : Database}, requireOwned db b deliveryId = some d →
          (db.attempts.rows.filter fun a => a.deliveryId = deliveryId) =
            (db.rowsOf b).attempts.filter fun a => a.deliveryId = deliveryId := by
        intro db hdb
        obtain ⟨hmem, hid⟩ := mem_of_requireOwned hdb
        obtain ⟨hrow, htenant⟩ := List.mem_filter.1 hmem
        have howner : db.deliveryTenant deliveryId = some b := by
          rw [deliveryTenant, ← hid, Table.find?_of_mem hrow]
          exact of_decide_eq_true htenant
        rw [rowsOf, List.filter_filter]
        refine List.filter_congr fun a _ => ?_
        by_cases ha : a.deliveryId = deliveryId
        · simp [ha, howner]
        · simp [ha]
      rw [hscope hfind, hscope hs₂]
      congr 1
      apply map_attemptView_eq
      exact map_filter_eq hagree.attempts _ _ (fun _ => rfl) fun _ => rfl

/-- The deliveries of the other tenants have other ids. -/
theorem map_deliveries_of_ne {t : Uuid} {d : DeliveryRow} (hd : d ∈ (db.rowsOf b).deliveries)
    (ht : t ≠ b) (f : DeliveryRow → DeliveryRow) :
    ((db.rowsOf t).deliveries.map fun x => if x.id = d.id then f x else x) =
      (db.rowsOf t).deliveries := by
  obtain ⟨hmem, htenant⟩ := List.mem_filter.1 hd
  have hother : ∀ x ∈ (db.rowsOf t).deliveries, decide (x.id = d.id) = false := by
    intro x hx
    obtain ⟨hmem', htenant'⟩ := List.mem_filter.1 hx
    refine decide_eq_false fun hid => ht ?_
    rw [Table.eq_of_key (t := db.deliveries) hmem' hmem hid] at htenant'
    exact Option.some.inj ((of_decide_eq_true htenant').symm.trans (of_decide_eq_true htenant))
  simpa using map_if_eq_self f hother

theorem exists_redeliverTx (db : Database) (now : Micros) (d : DeliveryRow) :
    ∃ db', db.redeliverTx now d db.outbox.next = some db' := by
  obtain ⟨outbox, hout⟩ : ∃ outbox, db.outbox.insertAt?
      (newOutbox now db.outbox.next d.eventId (some d.id)) = some outbox :=
    Serial.insertAt?_isSome (outbox_next_free db)
  refine ⟨{ db with
    deliveries := db.deliveries.modify d.id (reopen now) (reopen_id now), outbox := outbox }, ?_⟩
  rw [redeliverTx, insertOutbox?, hout]
  rfl

theorem redeliver_same {env : Env} (hagree : Agree b db₁ db₂) (deliveryId : Uuid) :
    SameOutcome b db₁ db₂ (redeliver env b deliveryId db₁) (redeliver env b deliveryId db₂) := by
  have hfind := requireOwned_agree hagree deliveryId
  unfold redeliver
  cases hs₂ : requireOwned db₂ b deliveryId with
  | none =>
      rw [hs₂] at hfind
      simp only [hfind]
      exact .error _
  | some d =>
      rw [hs₂] at hfind
      simp only [hfind]
      obtain ⟨hmem₁, -⟩ := mem_of_requireOwned hfind
      obtain ⟨hmem₂, -⟩ := mem_of_requireOwned hs₂
      obtain ⟨db₁', hdb₁⟩ := exists_redeliverTx db₁ env.now d
      obtain ⟨db₂', hdb₂⟩ := exists_redeliverTx db₂ env.now d
      have hrows₁ := rowsOf_redeliver (of_decide_eq_true (List.mem_filter.1 hmem₁).2) hdb₁
      have hrows₂ := rowsOf_redeliver (of_decide_eq_true (List.mem_filter.1 hmem₂).2) hdb₂
      simp only [hdb₁, hdb₂]
      refine .ok _ ?_ (fun t ht => ?_) (fun t ht => ?_)
      · rw [Agree, hrows₁, hrows₂, if_pos rfl, if_pos rfl]
        refine { hagree with deliveries := ?_, outbox := ?_ }
        · rw [hagree.deliveries]
        · rw [List.map_append, List.map_append, hagree.outbox]
          rfl
      · rw [hrows₁, map_deliveries_of_ne hmem₁ ht, if_neg (Ne.symm ht), List.append_nil]
      · rw [hrows₂, map_deliveries_of_ne hmem₂ ht, if_neg (Ne.symm ht), List.append_nil]

end DeliveriesService

end HookRelay
