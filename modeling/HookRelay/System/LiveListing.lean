import HookRelay.Api.Listing
import HookRelay.System.Outbox

/-!
# Walking the list of deliveries while the system runs

`DeliveriesService.list` is called page by page, and between the calls deliveries are made,
retried, redelivered and published.  The date and the tenant of a delivery never change, so that
its place in the list does not either.

* `walkLive` — the walk, each call of which finds another database.
* `step_dates` — a delivery keeps its date, and new ones have the date of now.
* `Faithful` — what a reader of the pages may rely on.
* `live_listing` — the walk ends, and its pages are faithful.
-/

namespace HookRelay

open Lib

namespace DeliveriesService

/-- The walk, from call `k` on, when call `k` finds the database `dbs k`. -/
def walkLive (codec : CursorCodec) (tenantId : Uuid) (status : Option DeliveryStatus)
    (dbs : ℕ → Database) : ℕ → ℕ → Option Text → Option (Except ServiceError (List (List View)))
  | 0, _, _ => none
  | n + 1, k, cursor =>
      match list codec tenantId status cursor (dbs k) with
      | .error e => some (.error e)
      | .ok (page, _) =>
          match page.nextCursor with
          | none => some (.ok [page.deliveries])
          | some next =>
              (walkLive codec tenantId status dbs n (k + 1) (some next)).map fun r =>
                r.map (page.deliveries :: ·)

/-- The pages of rows as they are shown, from call `k` on. -/
def shown (dbs : ℕ → Database) : ℕ → List (List DeliveryRow) → List (List View)
  | _, [] => []
  | k, p :: ps => p.map (toView (dbs k)) :: shown dbs (k + 1) ps

/-- What a reader of the pages may rely on, when call `k` has found the database `dbs k`. -/
structure Faithful (dbs : ℕ → Database) (tenantId : Uuid) (status : Option DeliveryStatus)
    (pages : List (List View)) : Prop where
  /-- No delivery is shown twice. -/
  once : (pages.flatten.map View.deliveryId).Nodup
  /-- The newest come first. -/
  sorted : (pages.flatten.map View.createdAt).Pairwise (· ≥ ·)
  /-- A page shows deliveries of the tenant that match, as they are at its call. -/
  sound : ∀ j page, pages[j]? = some page → ∀ v ∈ page, ∃ x ∈ (dbs j).deliveries,
    v = toView (dbs j) x ∧ ownedBy (dbs j) tenantId x = true ∧ ∀ st, status = some st → x.status = st
  /-- A delivery that is there at the first call, and matches at every call, is shown, unless the
  last one on a page before the last page was created in the same millisecond. -/
  complete : ∀ x ∈ (dbs 0).deliveries, ownedBy (dbs 0) tenantId x = true →
    (∀ j, j < pages.length → ∀ st, status = some st →
      ∃ y, (dbs j).deliveries.find? x.id = some y ∧ y.status = st) →
    x.id ∈ pages.flatten.map View.deliveryId ∨
      ∃ page ∈ pages.dropLast, ∃ v, page.getLast? = some v ∧ v.createdAt = jsDate x.createdAt

/-! ## The list -/

theorem mem_ordered_iff {db : Database} {tenantId : Uuid} {status : Option DeliveryStatus}
    {x : DeliveryRow} : x ∈ ordered db tenantId status ↔
      x ∈ db.deliveries ∧ ownedBy db tenantId x = true ∧ ∀ st, status = some st → x.status = st := by
  rw [ordered, List.mem_insertionSort, List.mem_filter, Bool.and_eq_true, Option.all_eq_true]
  simp only [decide_eq_true_eq]
  rfl

/-- A list does not go down for ever. -/
theorem newer_wf : WellFounded fun a b => newer b a := by
  have hlex := WellFounded.prod_lex Nat.lt_wfRel.wf Nat.lt_wfRel.wf
  refine Subrelation.wf (fun {a b} h => ?_) (InvImage.wf (fun x => (time x, number x)) hlex)
  exact Prod.lex_def.2 h

/-- A cursor only looks at the place of a row. -/
theorem keepOf_congr {l y z : DeliveryRow} (hid : y.id = z.id) (ht : y.createdAt = z.createdAt) :
    keepOf l y = keepOf l z := by
  rw [Bool.eq_iff_iff, keepOf_iff, keepOf_iff]
  unfold Resumes time number
  rw [hid, ht]

/-- Next to the cursor of a row only rows of its millisecond are passed over. -/
theorem same_date {l x : DeliveryRow} (hdate : jsDate l.createdAt ≤ maxTime) (hnewer : newer l x)
    (hkeep : keepOf l x = false) : jsDate l.createdAt = jsDate x.createdAt := by
  have hnot : ¬ Resumes l x := fun h => by rw [keepOf_iff.2 h] at hkeep; cases hkeep
  have hl : jsDate l.createdAt = time l / 1000 := rfl
  have hx : jsDate x.createdAt = time x / 1000 := rfl
  unfold Resumes at hnot
  unfold newer at hnewer
  rw [hl] at hnot hdate
  rw [hl, hx]
  omega

/-! ## The pages -/

theorem length_shown (dbs : ℕ → Database) (ps : List (List DeliveryRow)) (k : ℕ) :
    (shown dbs k ps).length = ps.length := by
  induction ps generalizing k with
  | nil => rfl
  | cons p ps ih => rw [shown, List.length_cons, List.length_cons, ih]

theorem dropLast_shown (dbs : ℕ → Database) (ps : List (List DeliveryRow)) (k : ℕ) :
    (shown dbs k ps).dropLast = shown dbs k ps.dropLast := by
  induction ps generalizing k with
  | nil => rfl
  | cons p ps ih =>
      cases ps with
      | nil => rfl
      | cons q qs => exact congrArg (p.map (toView (dbs k)) :: ·) (ih (k + 1))

theorem getElem?_shown (dbs : ℕ → Database) (ps : List (List DeliveryRow)) (k j : ℕ) :
    (shown dbs k ps)[j]? = ps[j]?.map (List.map (toView (dbs (k + j)))) := by
  induction ps generalizing k j with
  | nil => rfl
  | cons p ps ih =>
      cases j with
      | zero => rfl
      | succ j =>
          rw [shown, List.getElem?_cons_succ, List.getElem?_cons_succ, ih, Nat.add_assoc,
            Nat.add_comm 1 j]

/-- What is shown of a row, and does not depend on the database. -/
theorem map_flatten_shown {β : Type} (f : View → β) (g : DeliveryRow → β)
    (h : ∀ db x, f (toView db x) = g x) (dbs : ℕ → Database) (ps : List (List DeliveryRow)) (k : ℕ) :
    (shown dbs k ps).flatten.map f = ps.flatten.map g := by
  induction ps generalizing k with
  | nil => rfl
  | cons p ps ih =>
      rw [shown, List.flatten_cons, List.flatten_cons, List.map_append, List.map_append, ih,
        List.map_map]
      congr 1
      exact List.map_congr_left fun x _ => h (dbs k) x

/-- **The calls of the walk are the walk of the changing list.** -/
theorem walkLive_eq {codec : CursorCodec} {tenantId : Uuid} {status : Option DeliveryStatus}
    {dbs : ℕ → Database} (huuid : ∀ u, codec.parseUuid (codeUnits u.text) = some u)
    (hdate : ∀ k, ∀ x ∈ (dbs k).deliveries, jsDate x.createdAt ≤ maxTime) :
    ∀ {n k : ℕ} {cursor : Option Text} {sel : DeliveryRow → Bool} {ps : List (List DeliveryRow)},
      cursorFilter codec cursor = .ok sel →
      Paging.walkLive keepOf pageSize (fun k => ordered (dbs k) tenantId status) n k sel = some ps →
      walkLive codec tenantId status dbs n k cursor = some (.ok (shown dbs k ps)) := by
  intro n
  induction n with
  | zero => intro _ _ _ _ _ h; cases h
  | succ n ih =>
      intro k cursor sel ps hsel hwalk
      rw [walkLive]
      by_cases hmore : pageSize < ((ordered (dbs k) tenantId status).filter sel).length
      · obtain ⟨l, hl, -⟩ := Paging.exists_last (by decide) hmore
        rw [Paging.walkLive_more hmore hl] at hwalk
        obtain ⟨qs, hqs, rfl⟩ := Option.map_eq_some_iff.1 hwalk
        have hmem := mem_ordered (List.mem_of_mem_filter (List.mem_of_mem_take
          (List.mem_of_getLast? hl)))
        have hldate := hdate k l hmem
        obtain ⟨next, hnext⟩ := Option.isSome_iff_exists.1 (cursorOf_isSome_iff.2 hldate)
        have hnextsel : cursorFilter codec (some next) = .ok (keepOf l) := by
          rw [cursorFilter_cursorOf (huuid l.id) hnext, after_eq_keepOf hldate]
        rw [(list_more hsel rfl hmore hl).2 next hnext]
        simp only [ih hnextsel hqs, Option.map_some]
        rfl
      · rw [Paging.walkLive_last hmore] at hwalk
        cases hwalk
        rw [list_last hsel rfl hmore]
        rfl

end DeliveriesService

/-! ## Dates and tenants -/

/-- The deliveries with the times they were created at. -/
def Database.dates (db : Database) : List (Uuid × Micros) :=
  db.deliveries.rows.map fun d => (d.id, d.createdAt)

theorem Database.mem_dates {db : Database} {d : Uuid} {t : Micros} :
    (d, t) ∈ db.dates ↔ ∃ x, db.deliveries.find? d = some x ∧ x.createdAt = t := by
  simp only [dates, List.mem_map, Prod.mk.injEq, Table.find?_eq_some_iff, Table.mem_def]
  constructor
  · rintro ⟨x, hx, hid, ht⟩
    exact ⟨x, ⟨hx, hid⟩, ht⟩
  · rintro ⟨x, ⟨hx, hid⟩, ht⟩
    exact ⟨x, hx, hid, ht⟩

theorem Database.dates_modify {db db' : Database} {k : Uuid} {f : DeliveryRow → DeliveryRow}
    (hf : ∀ x, (f x).id = x.id) (ht : ∀ x, (f x).createdAt = x.createdAt)
    (h : db'.deliveries = db.deliveries.modify k f hf) : db'.dates = db.dates := by
  unfold dates
  rw [h, Table.modify, Table.modifyMany, List.map_map]
  refine List.map_congr_left fun x _ => ?_
  simp only [Function.comp_apply]
  split_ifs
  · rw [hf, ht]
  · rfl

namespace System

variable {cfg : WorkerConfig} {s s' : State} {a : Action}

theorem exec_dates (now : Micros) (db : Database) (w : Write) : (w.exec now db).dates = db.dates := by
  cases w with
  | settleSuccess d n => exact Database.dates_modify (Write.succeededData_id now n) (fun _ => rfl) rfl
  | settleFailure d n dead =>
      exact Database.dates_modify (Write.failedData_id now n dead) (fun _ => rfl) rfl
  | scheduleRetry d retryAt =>
      exact Database.dates_modify (Write.retryData_id now retryAt) (fun _ => rfl) rfl
  | _ => rfl

/-- A delivery keeps its date, and new ones have the date of now. -/
theorem step_dates (hs : step cfg s a = some s') : s.now ≤ s'.now ∧
    ∃ new, s'.db.dates = s.db.dates ++ new ∧ ∀ x ∈ new, x.2 = s.now := by
  have same : s'.now = s.now → s'.db.dates = s.db.dates → s.now ≤ s'.now ∧
      ∃ new, s'.db.dates = s.db.dates ++ new ∧ ∀ x ∈ new, x.2 = s.now := fun hnow hdates =>
    ⟨hnow.ge, [], by rw [hdates, List.append_nil], fun _ h => by cases h⟩
  cases stepped_of_step hs with
  | clock us => exact ⟨Nat.le_add_right _ _, [], by simp, fun _ h => by cases h⟩
  | publish e targets outboxId db _ hdb =>
      obtain ⟨-, -, -, -, hrows, -⟩ := Database.publishTx_eq_some hdb
      refine ⟨le_refl _, _, by rw [Database.dates, hrows, List.map_append]; rfl, fun x hx => ?_⟩
      obtain ⟨y, hy, rfl⟩ := List.mem_map.1 hx
      obtain ⟨t, -, rfl⟩ := List.mem_map.1 hy
      rfl
  | ping e deliveryId endpointId outboxId db _ hdb =>
      obtain ⟨-, -, -, -, -, hrows, -⟩ := Database.pingTx_eq_some hdb
      refine ⟨le_refl _, _, by rw [Database.dates, hrows, List.map_append]; rfl, fun x hx => ?_⟩
      rw [List.map_singleton, List.mem_singleton] at hx
      rw [hx]
      rfl
  | redeliver tenantId deliveryId outboxId d db _ _ hdb =>
      exact same rfl (Database.dates_modify (Database.reopen_id s.now) (fun _ => rfl)
        (Database.redeliverTx_eq_some hdb).2.1)
  | planned r i run next _ _ => exact same rfl (exec_dates s.now s.db next.write)
  | left r i run s' _ hgo =>
      obtain ⟨-, queue, rfl⟩ := letGo_eq_some hgo
      exact same rfl rfl
  | tickAdd k m ms published _ =>
      obtain ⟨queue, accepted, hadd⟩ := addJobs_frame m.id (jobsOf cfg.maxAttempts m) s
      exact same (by rw [hadd]) (by rw [hadd])
  | tickFail k mask m ms published _ =>
      obtain ⟨queue, accepted, hadd⟩ :=
        addJobs_frame m.id (addedBeforeFailure mask (jobsOf cfg.maxAttempts m)) s
      exact same (by rw [hadd]) (by rw [hadd])
  | _ => exact same rfl rfl

/-- No delivery has a date in the future. -/
theorem path_dates {P : State → Action → Prop} (h : Path (step cfg) P init s) :
    ∀ x ∈ s.db.dates, x.2 ≤ s.now := by
  refine h.invariant (I := fun t : State => ∀ x ∈ t.db.dates, x.2 ≤ t.now)
    (fun t a u hI _ hs x hx => ?_) (fun x hx => by cases hx)
  obtain ⟨hnow, new, hdates, hnew⟩ := step_dates hs
  rw [hdates, List.mem_append] at hx
  rcases hx with hx | hx
  · exact (hI x hx).trans hnow
  · rw [hnew x hx]
    exact hnow

theorem path_dates_sub {P : State → Action → Prop} (h : Path (step cfg) P s s') :
    ∀ x ∈ s.db.dates, x ∈ s'.db.dates := by
  intro x hx
  refine h.invariant (I := fun t : State => x ∈ t.db.dates) (fun t a u hI _ hs => ?_) hx
  obtain ⟨-, new, hdates, -⟩ := step_dates hs
  rw [hdates]
  exact List.mem_append_left _ hI

/-- A delivery stays in its place in the list of its tenant. -/
theorem path_keeps {P : State → Action → Prop} (h : Path (step cfg) P s s') {x : DeliveryRow}
    {tenantId : Uuid} (hx : x ∈ s.db.deliveries)
    (hown : DeliveriesService.ownedBy s.db tenantId x = true) :
    ∃ y, s'.db.deliveries.find? x.id = some y ∧ y.createdAt = x.createdAt ∧
      DeliveriesService.ownedBy s'.db tenantId y = true := by
  have hkept : ∃ y e, s'.db.deliveries.find? x.id = some y ∧
      s'.db.events.find? y.eventId = some e ∧ e.tenantId = tenantId := by
    unfold DeliveriesService.ownedBy at hown
    rw [Option.any_eq_true] at hown
    obtain ⟨e, he, ht⟩ := hown
    refine h.invariant (I := fun t : State => ∃ y e, t.db.deliveries.find? x.id = some y ∧
      t.db.events.find? y.eventId = some e ∧ e.tenantId = tenantId)
      (fun t a u hI _ hs => ?_) ⟨x, e, Table.find?_of_mem hx, he, by simpa using ht⟩
    obtain ⟨y, e, hy, he, ht⟩ := hI
    obtain ⟨z, hz, hevent, -⟩ := step_fixed hs hy
    exact ⟨z, e, hz, by rw [hevent]; exact (step_flow hs).extends.events _ e he, ht⟩
  obtain ⟨y, e, hy, he, ht⟩ := hkept
  obtain ⟨z, hz, hdate⟩ := Database.mem_dates.1
    (path_dates_sub h _ (Database.mem_dates.2 ⟨x, Table.find?_of_mem hx, rfl⟩))
  rw [hy, Option.some.injEq] at hz
  refine ⟨y, hy, by rw [hz]; exact hdate, ?_⟩
  simp [DeliveriesService.ownedBy, he, ht]

/-! ## The result -/

section Walk

open DeliveriesService

theorem path_calls {states : ℕ → State}
    (hruns : ∀ k, Path (step cfg) anyAction (states k) (states (k + 1))) {i j : ℕ} (h : i ≤ j) :
    Path (step cfg) anyAction (states i) (states j) := by
  induction j, h using Nat.le_induction with
  | base => exact .refl
  | succ j _ ih => exact ih.trans (hruns j)

/-- At two calls a delivery has the same date. -/
theorem date_eq {states : ℕ → State}
    (hruns : ∀ k, Path (step cfg) anyAction (states k) (states (k + 1))) {i j : ℕ}
    {x y : DeliveryRow} (hx : x ∈ (states i).db.deliveries) (hy : y ∈ (states j).db.deliveries)
    (hid : x.id = y.id) : x.createdAt = y.createdAt := by
  -- both dates are there at the later call
  have hmem : ∀ {k l : ℕ} {z : DeliveryRow}, k ≤ l → z ∈ (states k).db.deliveries →
      (z.id, z.createdAt) ∈ (states l).db.dates := fun hkl hz =>
    path_dates_sub (path_calls hruns hkl) _ (Database.mem_dates.2 ⟨_, Table.find?_of_mem hz, rfl⟩)
  obtain ⟨x', hx', hdx⟩ := Database.mem_dates.1 (hmem (le_max_left i j) hx)
  obtain ⟨y', hy', hdy⟩ := Database.mem_dates.1 (hmem (le_max_right i j) hy)
  rw [hid, hy', Option.some.injEq] at hx'
  rw [← hdx, ← hdy, hx']

/-- The rows on the pages are there at one of the calls. -/
theorem mem_of_walkLive {states : ℕ → State} {tenantId : Uuid} {status : Option DeliveryStatus}
    {n : ℕ} {ps : List (List DeliveryRow)}
    (hps : Paging.walkLive keepOf pageSize (fun k => ordered (states k).db tenantId status) n 0
      (fun _ => true) = some ps) {p : List DeliveryRow} (hp : p ∈ ps) :
    ∃ j, ps[j]? = some p ∧ ∀ x ∈ p, x ∈ ordered (states j).db tenantId status := by
  obtain ⟨j, hj⟩ := List.mem_iff_getElem?.1 hp
  have hmem := Paging.mem_walkLive (by decide) hps hj
  rw [Nat.zero_add] at hmem
  exact ⟨j, hj, hmem⟩

/-- **Walking the list while the system runs.**  Whatever happens between the calls, the walk ends;
no delivery is shown twice, and the newest come first; each page shows deliveries of the tenant as
they are at that moment; and a delivery that is there from the beginning and goes on matching is
shown, unless the last one on a page before the last page was created in the same millisecond. -/
theorem live_listing (cfg : WorkerConfig) (codec : CursorCodec)
    (huuid : ∀ u, codec.parseUuid (codeUnits u.text) = some u) (tenantId : Uuid)
    (status : Option DeliveryStatus) (states : ℕ → State) (hreach : Reach cfg (states 0))
    (hruns : ∀ k, Path (step cfg) anyAction (states k) (states (k + 1)))
    (hclock : ∀ k, jsDate (states k).now ≤ maxTime) :
    ∃ n pages, walkLive codec tenantId status (fun k => (states k).db) n 0 none =
        some (.ok pages) ∧ Faithful (fun k => (states k).db) tenantId status pages := by
  have hpath : ∀ k, Path (step cfg) anyAction init (states k) := fun k =>
    hreach.trans (path_calls hruns (Nat.zero_le k))
  have hdate : ∀ k, ∀ x ∈ (states k).db.deliveries, jsDate x.createdAt ≤ maxTime := by
    intro k x hx
    have hle := path_dates (hpath k) _ (Database.mem_dates.2 ⟨x, Table.find?_of_mem hx, rfl⟩)
    exact (Nat.div_le_div_right hle).trans (hclock k)
  have hsound : ∀ l r, keepOf l r = true → newer l r := fun l r h =>
    newer_of_resumes (keepOf_iff.1 h)
  have htrans : ∀ a b c, newer a b → newer b c → newer a c := by
    unfold newer
    omega
  have hsorted : ∀ k, (ordered (states k).db tenantId status).Pairwise newer := fun k =>
    pairwise_newer _ _ _
  obtain ⟨n, ps, hps⟩ : ∃ n ps, Paging.walkLive keepOf pageSize
      (fun k => ordered (states k).db tenantId status) n 0 (fun _ => true) = some ps :=
    Paging.exists_walkLive hsound (by decide) newer_wf 0 fun _ => true
  have hdesc := (Paging.sorted_walkLive htrans hsound hsorted (by decide) hps).1
  refine ⟨n, _, walkLive_eq huuid hdate rfl hps, ?_, ?_, ?_, ?_⟩
  · -- two rows of one delivery would have the same place
    rw [map_flatten_shown View.deliveryId DeliveryRow.id fun _ _ => rfl, List.Nodup, List.pairwise_map]
    refine hdesc.imp_of_mem fun {a b} ha hb hab hid => ?_
    obtain ⟨p, hp, hap⟩ := List.mem_flatten.1 ha
    obtain ⟨q, hq, hbq⟩ := List.mem_flatten.1 hb
    obtain ⟨i, -, hi⟩ := mem_of_walkLive hps hp
    obtain ⟨j, -, hj⟩ := mem_of_walkLive hps hq
    have hdates := date_eq hruns (mem_ordered (hi a hap)) (mem_ordered (hj b hbq)) hid
    have htime : time a = time b := hdates
    have hnumber : number a = number b := by
      show a.id.val.val = b.id.val.val
      rw [hid]
    unfold newer at hab
    omega
  · rw [map_flatten_shown View.createdAt (fun x => jsDate x.createdAt) fun _ _ => rfl,
      List.pairwise_map]
    refine hdesc.imp fun {a b} hab => ?_
    have hle : time b ≤ time a := by
      unfold newer at hab
      omega
    exact Nat.div_le_div_right hle
  · intro j page hpage v hv
    rw [getElem?_shown, Nat.zero_add] at hpage
    obtain ⟨p, hp, rfl⟩ := Option.map_eq_some_iff.1 hpage
    obtain ⟨x, hx, rfl⟩ := List.mem_map.1 hv
    have hmem := Paging.mem_walkLive (by decide) hps hp x hx
    rw [Nat.zero_add] at hmem
    obtain ⟨hx, hown, hst⟩ := mem_ordered_iff.1 hmem
    exact ⟨x, hx, rfl, hown, hst⟩
  · intro x hx hown hmatches
    have hthere : ∀ j, j < ps.length → ∃ y ∈ ordered (states (0 + j)).db tenantId status,
        y.id = x.id ∧ y.createdAt = x.createdAt := by
      intro j hj
      rw [Nat.zero_add]
      obtain ⟨y, hy, hydate, hyown⟩ := path_keeps (path_calls hruns (Nat.zero_le j)) hx hown
      obtain ⟨hmem, hid⟩ := Table.find?_eq_some_iff.1 hy
      refine ⟨y, mem_ordered_iff.2 ⟨hmem, hyown, fun st hst => ?_⟩, hid, hydate⟩
      obtain ⟨z, hz, hzst⟩ := hmatches j (by rw [length_shown]; exact hj) st hst
      rw [hy, Option.some.injEq] at hz
      rw [hz]
      exact hzst
    have hplace : ∀ l y z : DeliveryRow, (y.id = x.id ∧ y.createdAt = x.createdAt) →
        (z.id = x.id ∧ z.createdAt = x.createdAt) → keepOf l y = keepOf l z := by
      rintro l y z ⟨hy, hyt⟩ ⟨hz, hzt⟩
      exact keepOf_congr (hy.trans hz.symm) (hyt.trans hzt.symm)
    rcases Paging.covers_walkLive hsorted (by decide) hplace (fun _ _ => rfl) hps hthere with
      ⟨y, hy, hid, -⟩ | ⟨p, hp, l, y, hl, ⟨-, hydate⟩, hnewer, hpassed⟩
    · left
      rw [map_flatten_shown View.deliveryId DeliveryRow.id fun _ _ => rfl, ← hid]
      exact List.mem_map_of_mem hy
    · right
      obtain ⟨j, hj⟩ := List.mem_iff_getElem?.1 hp
      have hall : ps[j]? = some p := by
        rw [List.getElem?_dropLast] at hj
        split at hj
        · exact hj
        · cases hj
      have hmem := Paging.mem_walkLive (by decide) hps hall l (List.mem_of_getLast? hl)
      rw [Nat.zero_add] at hmem
      refine ⟨p.map (toView (states j).db), ?_, toView (states j).db l, ?_, ?_⟩
      · rw [dropLast_shown]
        refine List.mem_of_getElem? (i := j) ?_
        rw [getElem?_shown, hj, Nat.zero_add]
        rfl
      · rw [List.getLast?_map, hl]
        rfl
      · rw [← hydate]
        exact same_date (hdate j l (mem_ordered hmem)) hnewer hpassed

namespace Sample

/-- An event for 21 endpoints. -/
def fanOut : List Action :=
  (List.range 21).map (fun k => .createEndpoint (fanOutEndpoint k)) ++
    [.clock 1000000, .publish ⟨Uuid.ofNat 2, fanOutTenant, "order.paid".toList, .null, "k".toList, 0⟩
      ((List.range 21).map fun k => (Uuid.ofNat (200 + k), Uuid.ofNat (100 + k))) 0]

/-- An event for one of them. -/
def afterwards : List Action :=
  [.clock 1000, .publish ⟨Uuid.ofNat 3, fanOutTenant, "order.paid".toList, .null, "l".toList, 0⟩
    [(Uuid.ofNat 300, Uuid.ofNat 100)] 1]

def listed (n : ℕ) (s : State) : Bool :=
  decide (jsDate s.now ≤ maxTime) && s.db.deliveries.rows.length == n

theorem listed_spec {n : ℕ} {s : State} (h : listed n s = true) :
    jsDate s.now ≤ maxTime ∧ s.db.deliveries.rows.length = n := by
  simpa [listed] using h

end Sample

/-- There are 21 deliveries at the first call, and 22 at the second. -/
theorem live_listing_two_calls : ∃ a b, Reach Sample.cfg a ∧
    Path (step Sample.cfg) anyAction a b ∧ a.db.deliveries.rows.length = 21 ∧
    b.db.deliveries.rows.length = 22 ∧
    ∃ n pages, walkLive strictCodec fanOutTenant none (fun k => (if k = 0 then a else b).db) n 0
        none = some (.ok pages) ∧
      Faithful (fun k => (if k = 0 then a else b).db) fanOutTenant none pages := by
  obtain ⟨a, ha, h⟩ := Path.exists_of_runChecked (step Sample.cfg) (P := anyAction)
    (p := fun _ _ => true) (fun _ _ _ => trivial) init Sample.fanOut (fun a => Sample.listed 21 a &&
      (runChecked (step Sample.cfg) (fun _ _ => true) a Sample.afterwards).any (Sample.listed 22))
    (by decide +kernel)
  rw [Bool.and_eq_true] at h
  obtain ⟨b, hb, h22⟩ := Path.exists_of_runChecked (step Sample.cfg) (P := anyAction)
    (fun _ _ _ => trivial) a Sample.afterwards (Sample.listed 22) h.2
  obtain ⟨hca, hla⟩ := Sample.listed_spec h.1
  obtain ⟨hcb, hlb⟩ := Sample.listed_spec h22
  refine ⟨a, b, ha, hb, hla, hlb, live_listing Sample.cfg strictCodec strictCodec_parseUuid
    fanOutTenant none (fun k => if k = 0 then a else b) ha (fun k => ?_) fun k => ?_⟩
  · cases k with
    | zero => exact hb
    | succ k => exact .refl
  · cases k with
    | zero => exact hca
    | succ k => exact hcb

end Walk

end System

end HookRelay
