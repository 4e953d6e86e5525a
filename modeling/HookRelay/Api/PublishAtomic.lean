import HookRelay.Api.PublishInvariants

/-!
# Publishing is atomic and idempotent

* `exists_all_done` — no call is stuck: without failures all of them end.
* `ReadAt` — a call has read the endpoints it delivers to at some point of the run.
* `publish_atomic` — for every key at most one call commits, and what it leaves behind; the
  others are refused for its event.
* `publish_alone` — a call that runs alone does what `EventsService.publish` does at once.
-/

namespace HookRelay

open Lib EventsService Database

namespace Publishing

variable {n : ℕ} {calls : Fin n → Call}

/-! ## No call is stuck -/

/-- A call waits for other transactions only. -/
theorem isSome_stepCall {s : State n} (hlocks : Locks calls s) (h : Ready calls s) {r : Fin n}
    (hdone : (s.phase r).isDone = false)
    (hevent : s.phase r = .insert → waitsForEvent calls s r = false)
    (hdeliveries : ∀ pairs, s.phase r = .deliveries pairs → waitsForDeliveries s pairs = false) :
    (stepCall calls s r).isSome = true := by
  unfold stepCall
  cases hphase : s.phase r with
  | size =>
      simp only []
      split_ifs
      · rfl
      · rfl
  | insert =>
      simp only [hevent hphase, Bool.false_eq_true, if_false]
      split
      · rfl
      · rfl
  | targets =>
      simp only []
      split_ifs
      · rfl
      · rfl
  | deliveries pairs =>
      simp only [hdeliveries pairs hphase, Bool.false_eq_true, if_false]
      split
      · rfl
      · rfl
  | outbox pairs => rfl
  | commit pairs outboxId =>
      have hevent := insertEvent?_isSome_iff.2 (hlocks.free r (by rw [hphase]; rfl))
      have hds : ∃ db, s.db.insertDeliveries? ((calls r).deliveries pairs) = some db := by
        have hfree := h.free r
        rw [hphase] at hfree
        exact hfree
      have hnumber : (calls r).deliveries pairs ≠ [] → ∀ x ∈ s.db.outbox.rows, x.id ≠ outboxId := by
        intro hne
        refine (h.number r outboxId ?_).2
        rw [hphase, Phase.number?, if_neg fun hnil => hne (deliveries_eq_nil_iff.2 hnil)]
      obtain ⟨db, hdb⟩ : ∃ db, s.db.publishTx (calls r).env.now (calls r).event
          ((calls r).deliveries pairs) outboxId = some db := publishTx_isSome hevent hds hnumber
      simp only [commit, hphase, hdb, Option.map_some, Option.isSome_some]
  | lookup =>
      simp only []
      split
      · rfl
      · rfl
  | done result =>
      rw [hphase] at hdone
      cases hdone

/-- **No call is stuck**: as long as one is not done, one of them can make its next step. -/
theorem exists_step {s : State n} (hlocks : Locks calls s) (h : Ready calls s) {r : Fin n}
    (hr : (s.phase r).isDone = false) : ∃ r' t, step calls s (.call r') = some t := by
  have hgo : ∀ r', (stepCall calls s r').isSome = true → ∃ r' t, step calls s (.call r') = some t :=
    fun r' h => ⟨r', Option.isSome_iff_exists.1 h⟩
  -- a call that has inserted its deliveries waits for nobody
  have hwritten : ∀ r', (s.phase r').written ≠ [] → ∃ r' t, step calls s (.call r') = some t := by
    intro r' hw
    refine hgo r' (isSome_stepCall hlocks h ?_ (fun hp => ?_) fun pairs hp => ?_)
    · cases hp : s.phase r' with
      | done result =>
          rw [hp] at hw
          exact absurd rfl hw
      | _ => rfl
    · rw [hp] at hw
      exact absurd rfl hw
    · rw [hp] at hw
      exact absurd rfl hw
  -- one that has inserted its event waits for such calls only
  have hholds : ∀ r', (s.phase r').holds = true → ∃ r' t, step calls s (.call r') = some t := by
    intro r' hh
    by_cases hwait : ∃ pairs, s.phase r' = .deliveries pairs ∧ waitsForDeliveries s pairs = true
    · obtain ⟨pairs, -, hw⟩ := hwait
      obtain ⟨r'', p, hp, -⟩ := of_decide_eq_true hw
      exact hwritten r'' (List.ne_nil_of_mem hp)
    · refine hgo r' (isSome_stepCall hlocks h ?_ (fun hp => ?_) fun pairs hp => ?_)
      · cases hp : s.phase r' with
        | done result =>
            rw [hp] at hh
            cases hh
        | _ => rfl
      · rw [hp] at hh
        cases hh
      · rw [← Bool.not_eq_true]
        exact fun hw => hwait ⟨pairs, hp, hw⟩
  by_cases hh : (s.phase r).holds = true
  · exact hholds r hh
  · by_cases hwait : waitsForEvent calls s r = true
    · obtain ⟨r', hr', -⟩ := of_decide_eq_true hwait
      exact hholds r' hr'
    · refine hgo r (isSome_stepCall hlocks h hr (fun _ => by simpa using hwait) fun pairs hp => ?_)
      rw [hp] at hh
      exact absurd rfl hh

/-- How many steps a call has before it at most. -/
def Phase.rank : Phase → ℕ
  | size => 7
  | insert => 6
  | targets => 5
  | deliveries _ => 4
  | outbox _ => 3
  | commit _ _ => 2
  | lookup => 1
  | done _ => 0

theorem Move.rank_lt {s : State n} {r : Fin n} {p q : Phase} (h : Move calls s r p q) :
    q.rank < p.rank := by
  cases h with
  | @failed p hp =>
      cases p with
      | done result => cases hp
      | _ => exact Nat.succ_pos _
  | _ => simp [Phase.rank]

/-- A step of a call takes it closer to its end. -/
theorem sum_rank_lt {s t : State n} {r : Fin n} {p : Phase} (hlt : p.rank < (s.phase r).rank)
    (hphase : t.phase = Function.update s.phase r p) :
    ∑ r', (t.phase r').rank < ∑ r', (s.phase r').rank := by
  refine Finset.sum_lt_sum (fun r' _ => ?_) ⟨r, Finset.mem_univ r, ?_⟩
  · rcases phase_cases hphase r' with ⟨rfl, heq⟩ | ⟨-, heq⟩
    · rw [heq]
      exact hlt.le
    · rw [heq]
  · rw [hphase, Function.update_self]
    exact hlt

theorem sum_rank_lt_of_stepCall {s t : State n} {r : Fin n} (h : stepCall calls s r = some t) :
    ∑ r', (t.phase r').rank < ∑ r', (s.phase r').rank := by
  cases effect_of_stepCall h with
  | move hmove _ hphase _ => exact sum_rank_lt hmove.rank_lt hphase
  | draw hs _ hphase _ => exact sum_rank_lt (by rw [hs]; simp [Phase.rank]) hphase
  | commit hs _ _ hphase _ => exact sum_rank_lt (by rw [hs]; simp [Phase.rank]) hphase

/-! ## Runs -/

/-- What holds in every state. -/
structure Inv (calls : Fin n → Call) (db₀ : Database) (s : State n) : Prop where
  locks : Locks calls s
  ready : Ready calls s
  rows : Rows calls db₀ s
  results : Results calls s

theorem inv_init (db : Database) : Inv calls db (init db) :=
  ⟨locks_init db, ready_init db, rows_init db, results_init db⟩

theorem Inv.step {db₀ : Database} {s t : State n} (h : Inv calls db₀ s) (he : Effect calls s t) :
    Inv calls db₀ t :=
  ⟨h.locks.step he, h.ready.step h.locks he, h.rows.step he, h.results.step he⟩

theorem inv_of_path {P : State n → Action n → Prop} {db₀ : Database} {s t : State n}
    (hs : Inv calls db₀ s) (h : Path (step calls) P s t) : Inv calls db₀ t :=
  h.invariant (fun _ _ _ hi _ hstep => hi.step (effect_of_step hstep)) hs

/-- A step of a call, with no failure. -/
def isCall (_ : State n) : Action n → Prop
  | .call _ => True
  | _ => False

/-- **All the calls can end.** -/
theorem exists_all_done {db₀ : Database} {s : State n} (h : Inv calls db₀ s) :
    ∃ t, Path (step calls) isCall s t ∧ ∀ r, (t.phase r).isDone = true := by
  -- by induction on the steps that are left at most
  induction hm : ∑ r, (s.phase r).rank using Nat.strong_induction_on generalizing s with
  | _ m ih =>
      by_cases hall : ∀ r, (s.phase r).isDone = true
      · exact ⟨s, .refl, hall⟩
      · push Not at hall
        obtain ⟨r, hr⟩ := hall
        obtain ⟨r', u, hu⟩ := exists_step h.locks h.ready (by simpa using hr)
        have hlt : ∑ r, (u.phase r).rank < m := hm ▸ sum_rank_lt_of_stepCall hu
        obtain ⟨t, ht, hdone⟩ := ih _ hlt (h.step (effect_of_step hu)) rfl
        have hcall : isCall s (.call r') := trivial
        exact ⟨t, (Path.single hcall hu).trans ht, hdone⟩

/-! ## Reading the endpoints -/

/-- An endpoint to deliver to: one of the tenant that is `ACTIVE` and subscribed to the
type. -/
def IsTarget (db : Database) (c : Call) (endpointId : Uuid) : Prop :=
  ∃ e ∈ db.endpoints, e.id = endpointId ∧ e.tenantId = c.tenantId ∧ e.status = .active ∧
    ∃ row ∈ db.subscriptions.rows, row.endpointId = endpointId ∧ row.eventType = c.type

theorem mem_targets_iff {db : Database} {c : Call} {endpointId : Uuid} :
    endpointId ∈ targets db c.tenantId c.type ↔ IsTarget db c endpointId := by
  simp only [targets, List.mem_map, List.mem_insertionSort, List.mem_filter, wants,
    Bool.and_eq_true, decide_eq_true_eq, List.any_eq_true, IsTarget, Table.mem_def]
  constructor
  · rintro ⟨e, ⟨he, htenant, hactive, row, hrow, hid, htype⟩, rfl⟩
    exact ⟨e, he, rfl, htenant, hactive, row, hrow, hid, htype⟩
  · rintro ⟨e, he, rfl, htenant, hactive, row, hrow, hid, htype⟩
    exact ⟨e, ⟨he, htenant, hactive, row, hrow, hid, htype⟩, rfl⟩

theorem map_snd_newTargets (env : Env) (endpoints : List Uuid) :
    (newTargets env endpoints).map Prod.snd = endpoints := by
  simp [newTargets, Function.comp_def]

/-- The call read its endpoints at some point of the run, and `pairs` has each of those it is
to deliver to once. -/
def ReadAt (calls : Fin n → Call) (db₀ : Database) (s : State n) (r : Fin n)
    (pairs : List (Uuid × Uuid)) : Prop :=
  ∃ u u', Reachable (step calls) (init db₀) u ∧ u.phase r = .targets ∧
    step calls u (.call r) = some u' ∧ Reachable (step calls) u' s ∧
    (pairs.map Prod.snd).Nodup ∧
    ∀ endpointId, endpointId ∈ pairs.map Prod.snd ↔ IsTarget u.db (calls r) endpointId

/-- The targets a call has read. -/
def Phase.pairs? : Phase → Option (List (Uuid × Uuid))
  | deliveries pairs | outbox pairs | commit pairs _ => some pairs
  | _ => none

theorem pairs?_of_isDone {p : Phase} (h : p.isDone = true) : p.pairs? = none := by
  cases p with
  | done result => rfl
  | _ => cases h

theorem ReadAt.snoc {db₀ : Database} {s t : State n} {r : Fin n} {pairs : List (Uuid × Uuid)}
    {a : Action n} (h : ReadAt calls db₀ s r pairs) (hstep : step calls s a = some t) :
    ReadAt calls db₀ t r pairs := by
  obtain ⟨u, u', hu, hphase, hread, hs, hrest⟩ := h
  exact ⟨u, u', hu, hphase, hread, .snoc hs trivial hstep, hrest⟩

/-- A move reads the endpoints, or keeps what was read. -/
theorem Move.pairs?_cases {s : State n} {r : Fin n} {p q : Phase} (h : Move calls s r p q)
    {pairs : List (Uuid × Uuid)} (hq : q.pairs? = some pairs) :
    p.pairs? = some pairs ∨ (p = .targets ∧
      pairs = newTargets (calls r).env (targets s.db (calls r).tenantId (calls r).type)) := by
  cases h with
  | readNone hnone =>
      cases hq
      exact .inr ⟨rfl, by rw [hnone]; rfl⟩
  | read _ =>
      cases hq
      exact .inr ⟨rfl, rfl⟩
  | wrote _ _ => exact .inl hq
  | tooLarge | small | inserted | violated | collided | found | notFound | failed => cases hq

/-- All that is written was read. -/
structure Reads (calls : Fin n → Call) (db₀ : Database) (s : State n) : Prop where
  phases : ∀ r pairs, (s.phase r).pairs? = some pairs → ReadAt calls db₀ s r pairs
  commits : ∀ c ∈ s.commits, ReadAt calls db₀ s c.call c.pairs

/-- What a call reads in a step. -/
theorem readAt_of_targets {db₀ : Database} {s t : State n} {r : Fin n}
    (hs : Reachable (step calls) (init db₀) s) (hphase : s.phase r = .targets)
    (hstep : step calls s (.call r) = some t) :
    ReadAt calls db₀ t r
      (newTargets (calls r).env (targets s.db (calls r).tenantId (calls r).type)) := by
  refine ⟨s, t, hs, hphase, hstep, .refl, ?_, fun endpointId => ?_⟩
  · rw [map_snd_newTargets]
    exact nodup_targets _ _ _
  · rw [map_snd_newTargets]
    exact mem_targets_iff

theorem Reads.step {db₀ : Database} {s t : State n} {a : Action n} (h : Reads calls db₀ s)
    (hs : Reachable (step calls) (init db₀) s) (hstep : step calls s a = some t) :
    Reads calls db₀ t := by
  have hphases : ∀ r pairs, (s.phase r).pairs? = some pairs → ReadAt calls db₀ t r pairs :=
    fun r pairs hp => (h.phases r pairs hp).snoc hstep
  have hcommits : ∀ c ∈ s.commits, ReadAt calls db₀ t c.call c.pairs :=
    fun c hc => (h.commits c hc).snoc hstep
  cases effect_of_step hstep with
  | endpoints _ _ _ hphase hcommit =>
      refine ⟨fun r pairs hp => hphases r pairs ?_, fun c hc => hcommits c ?_⟩
      · rwa [hphase] at hp
      · rwa [hcommit] at hc
  | @call r hown hcall =>
      cases hcall with
      | move hmove _ hphase hcommit =>
          refine ⟨fun r' pairs hp => ?_, fun c hc => hcommits c (hcommit ▸ hc)⟩
          rcases phase_cases hphase r' with ⟨rfl, heq⟩ | ⟨-, heq⟩
          · have hq := hp
            rw [heq] at hq
            rcases hmove.pairs?_cases hq with hold | ⟨htargets, rfl⟩
            · exact hphases r' pairs hold
            · rcases hown with hown | hdone
              · exact readAt_of_targets hs htargets hown
              · rw [pairs?_of_isDone hdone] at hp
                cases hp
          · rw [heq] at hp
            exact hphases r' pairs hp
      | draw hold _ hphase hcommit =>
          refine ⟨fun r' pairs hp => hphases r' pairs ?_, fun c hc => hcommits c (hcommit ▸ hc)⟩
          rcases phase_cases hphase r' with ⟨rfl, heq⟩ | ⟨-, heq⟩
          · rw [heq] at hp
            rw [hold]
            exact hp
          · rwa [heq] at hp
      | commit hold _ _ hphase hcommit =>
          refine ⟨fun r' pairs hp => hphases r' pairs ?_, fun c hc => ?_⟩
          · rcases phase_cases hphase r' with ⟨-, heq⟩ | ⟨-, heq⟩
            · rw [heq] at hp
              cases hp
            · rwa [heq] at hp
          · rw [hcommit, List.mem_append, List.mem_singleton] at hc
            rcases hc with hc | rfl
            · exact hcommits c hc
            · exact hphases r _ (by rw [hold]; rfl)

theorem reads_of_reachable {db₀ : Database} {s : State n}
    (h : Reachable (step calls) (init db₀) s) : Reads calls db₀ s := by
  induction h with
  | refl => exact ⟨fun r pairs hp => (by cases hp), fun c hc => (by cases hc)⟩
  | snoc hs _ hstep ih => exact ih.step hs hstep

/-! ## Atomic and idempotent -/

/-- The call has ended; it was not refused for its size, and it has not failed for a reason
other than its key: an error of the database, or a UUID that is in use. -/
def Proper (calls : Fin n → Call) (s : State n) (r : Fin n) : Prop :=
  (calls r).tooLarge = false ∧ ∃ result, s.phase r = .done result ∧
    result ≠ .error .unavailable ∧ result ≠ .error .uniqueViolation

/-- The call failed with `DUPLICATE_EVENT`, for this event. -/
def Refused (s : State n) (r : Fin n) (e : EventRow) : Prop :=
  s.phase r = .done (.error (.domain (Errors.duplicateEvent e.id)))

/-- A call that ended properly has committed, or was refused for the event with its key. -/
theorem Inv.proper {db₀ : Database} {s : State n} (h : Inv calls db₀ s) {r : Fin n}
    (hr : Proper calls s r) : (∃ c ∈ s.commits, c.call = r) ∨
      ∃ e, s.db.eventByKey (calls r).tenantId (calls r).idempotencyKey = some e ∧ Refused s r e := by
  obtain ⟨hsmall, result, hphase, hfailed, hcollided⟩ := hr
  have hsettled := h.results.good r
  rw [hphase] at hsettled
  cases hsettled with
  | tooLarge hsize =>
      rw [hsmall] at hsize
      cases hsize
  | failed => exact absurd rfl hfailed
  | published hc hcall => exact .inl ⟨_, hc, hcall⟩
  | duplicate he => exact .inr ⟨_, he, hphase⟩
  | collided _ => exact absurd rfl hcollided

/-- One of the calls with the key has committed, if the key was free and one ended properly. -/
theorem Inv.exists_commit {db₀ : Database} {s : State n} (h : Inv calls db₀ s) {r : Fin n}
    (hr : Proper calls s r)
    (hfree : db₀.keyTaken (calls r).tenantId (calls r).idempotencyKey = false) :
    ∃ c ∈ s.commits, (calls c.call).SameKey (calls r) := by
  rcases h.proper hr with ⟨c, hc, rfl⟩ | ⟨e, he, -⟩
  · exact ⟨c, hc, rfl, rfl⟩
  · obtain ⟨hmem, hkey⟩ := eventByKey_eq_some he
    rw [h.rows.events] at hmem
    rcases List.mem_append.1 hmem with hmem | hmem
    · exact absurd hkey (keyTaken_eq_false_iff.1 hfree e hmem)
    · obtain ⟨c, hc, rfl⟩ := List.mem_map.1 hmem
      exact ⟨c, hc, hkey⟩

/-- A call that did not commit was refused for the event of the one that did. -/
theorem Inv.refused {db₀ : Database} {s : State n} (h : Inv calls db₀ s) {r : Fin n}
    (hr : Proper calls s r) (hnot : ∀ c ∈ s.commits, c.call ≠ r) :
    ∃ e ∈ s.db.events, e.tenantId = (calls r).tenantId ∧
      e.idempotencyKey = (calls r).idempotencyKey ∧ Refused s r e ∧
      ∀ c ∈ s.commits, (calls c.call).SameKey (calls r) → e = (calls c.call).event := by
  rcases h.proper hr with ⟨c, hc, hcall⟩ | ⟨e, he, hrefused⟩
  · exact absurd hcall (hnot c hc)
  · obtain ⟨hmem, htenant, hkey⟩ := eventByKey_eq_some he
    refine ⟨e, hmem, htenant, hkey, hrefused, fun c hc hsame => ?_⟩
    have hfound := h.rows.found c hc
    rw [hsame.1, hsame.2, he] at hfound
    exact Option.some.inj hfound

/-- A call waits only for one with the same key, or with the same UUID. -/
theorem sameKey_of_waits {s : State n} {r : Fin n} (h : waitsForEvent calls s r = true) :
    ∃ r', (s.phase r').holds = true ∧ ((calls r').SameKey (calls r) ∨
      (calls r').event.id = (calls r).event.id) := by
  obtain ⟨r', hr', hclash⟩ := of_decide_eq_true h
  refine ⟨r', hr', ?_⟩
  rw [clash, Bool.or_eq_true, Bool.and_eq_true, decide_eq_true_eq, decide_eq_true_eq,
    decide_eq_true_eq] at hclash
  exact hclash.symm

/-- **Publishing is atomic and idempotent.**  Any number of calls, interleaved in any order
with each other, with failures and with changes of the endpoints:

* the rows are those at the start and those of the committed calls: for each of them one
  event, its deliveries and, if there are any, one fan-out row; no two of them have the same
  tenant and key (`Rows`);
* the deliveries of a committed call are for the endpoints that were to be delivered to when
  it read them, one for each; such a call is within the size limit, and it ended with its
  result or without an answer;
* a call that ended, neither refused for its size nor failed for another reason, and did not
  commit failed with `DUPLICATE_EVENT` for an event of its tenant with its key, and for that
  of the call that committed if one did;
* if the key was free at the start, one did;
* a unique index is violated otherwise only by a UUID in use, and a call waits for one of
  another tenant only in that case;
* no call is stuck: without failures all of them end. -/
theorem publish_atomic (calls : Fin n → Call) (db₀ : Database) (s : State n)
    (h : Reachable (step calls) (init db₀) s) :
    Rows calls db₀ s ∧
    (∀ c ∈ s.commits, ReadAt calls db₀ s c.call c.pairs) ∧
    (∀ c ∈ s.commits, Ended calls s c ∧ (calls c.call).tooLarge = false) ∧
    (∀ r, Proper calls s r → (∀ c ∈ s.commits, c.call ≠ r) →
      ∃ e ∈ s.db.events, e.tenantId = (calls r).tenantId ∧
        e.idempotencyKey = (calls r).idempotencyKey ∧ Refused s r e ∧
        ∀ c ∈ s.commits, (calls c.call).SameKey (calls r) → e = (calls c.call).event) ∧
    (∀ r, Proper calls s r →
      db₀.keyTaken (calls r).tenantId (calls r).idempotencyKey = false →
      ∃ c ∈ s.commits, (calls c.call).SameKey (calls r)) ∧
    (∀ r, s.phase r = .done (.error .uniqueViolation) → Collision calls s r) ∧
    (∀ r, waitsForEvent calls s r = true → ∃ r', (s.phase r').holds = true ∧
      ((calls r').SameKey (calls r) ∨ (calls r').event.id = (calls r).event.id)) ∧
    ∃ t, Path (step calls) isCall s t ∧ ∀ r, (t.phase r).isDone = true := by
  have hinv := inv_of_path (inv_init db₀) h
  refine ⟨hinv.rows, (reads_of_reachable h).commits, hinv.results.ended,
    fun r hr hnot => hinv.refused hr hnot, fun r hr hfree => hinv.exists_commit hr hfree,
    fun r hr => ?_,
    fun r hwait => sameKey_of_waits hwait, exists_all_done hinv⟩
  have hsettled := hinv.results.good r
  rw [hr] at hsettled
  cases hsettled with
  | collided hc => exact hc

/-! ## Three calls at once -/

namespace Sample

def env (k : ℕ) : Env :=
  { now := k, ssrf := ⟨false, false⟩, newUrl := fun _ => none, resolve := fun _ => none,
    randomUuid := fun i => .ofNat (100 * (k + 1) + i), secret := [], encrypt := id }

/-- The first two are of the same tenant, and all have the same key. -/
def threeCalls (r : Fin 3) : Call :=
  { env := env r, tenantId := if r = 2 then .ofNat 2 else .ofNat 1, type := "order.paid".toList,
    payload := .null, idempotencyKey := "k".toList }

def endpointRow : EndpointRow :=
  { id := .ofNat 10, tenantId := .ofNat 1, url := "https://example.com/".toList, secretEnc := [],
    status := .active, description := none, consecutiveFailures := 0, createdAt := 0,
    updatedAt := 0 }

def disable (e : EndpointRow) : EndpointRow := { e with status := .disabledManual }

/-- The endpoint is disabled right after the first call has read it.  The second call comes to
its insert only when the first one has committed. -/
def actions : List (Action 3) :=
  [.createEndpoint endpointRow, .setSubscriptions (.ofNat 10) ["order.paid".toList],
    .call 0, .call 1, .call 2, .call 0, .call 2, .call 0,
    .updateEndpoint (.ofNat 10) disable fun _ => rfl,
    .call 0, .call 0, .call 0, .call 2, .call 2, .call 1, .call 1]

/-- The call has failed with a domain error. -/
def failed : Phase → Bool
  | .done (.error (.domain _)) => true
  | _ => false

theorem exists_of_failed {p : Phase} (h : failed p = true) : ∃ e, p = .done (.error (.domain e)) := by
  unfold failed at h
  split at h
  · exact ⟨_, rfl⟩
  · cases h

/-- The first and the third call have committed, and the second failed. -/
def ended (s : State 3) : Bool :=
  (s.commits.any fun c => c.call = 0) && (s.commits.any fun c => c.call = 2) &&
    (s.commits.all fun c => c.call ≠ 1) && failed (s.phase 1)

/-- The second call was refused for the event of the first one, and the third one, of another
tenant, was not. -/
theorem publish_atomic_three_calls :
    ∃ s, Reachable (step threeCalls) (init .empty) s ∧ Refused s 1 (threeCalls 0).event ∧
      ∃ c ∈ s.commits, c.call = 2 := by
  have hrun : (runChecked (step threeCalls) (fun _ _ => true) (init .empty) actions).any ended =
      true := by decide +kernel
  obtain ⟨s, hs, hq⟩ := Path.exists_of_runChecked (step threeCalls) (fun _ _ _ => trivial)
    (init .empty) actions ended hrun
  obtain ⟨-, -, -, hrefused, -⟩ := publish_atomic threeCalls .empty s hs
  rw [ended, Bool.and_eq_true, Bool.and_eq_true, Bool.and_eq_true, List.any_eq_true,
    List.any_eq_true, List.all_eq_true] at hq
  obtain ⟨⟨⟨⟨c, hc, h0⟩, ⟨c', hc', h2⟩⟩, h1⟩, hphase⟩ := hq
  obtain ⟨e, he⟩ := exists_of_failed hphase
  have hproper : Proper threeCalls s 1 :=
    ⟨by decide +kernel, _, he, by simp, by simp⟩
  obtain ⟨x, -, -, -, hx, hsame⟩ := hrefused 1 hproper fun c hc => of_decide_eq_true (h1 c hc)
  have hcall : c.call = 0 := of_decide_eq_true h0
  have hx0 : x = (threeCalls 0).event := by
    rw [← hcall]
    exact hsame c hc (by rw [hcall]; decide)
  exact ⟨s, hs, hx0 ▸ hx, c', hc', of_decide_eq_true h2⟩

end Sample

/-! ## A call alone -/

/-- The call goes on by itself from one state to another. -/
def Steps (calls : Fin n → Call) (r : Fin n) (s t : State n) : Prop :=
  ∃ k, run (step calls) s (List.replicate k (.call r)) = some t

theorem Steps.refl (r : Fin n) (s : State n) : Steps calls r s s := ⟨0, rfl⟩

theorem Steps.head {r : Fin n} {s s' t : State n} (h : stepCall calls s r = some s')
    (ht : Steps calls r s' t) : Steps calls r s t := by
  obtain ⟨k, hk⟩ := ht
  refine ⟨k + 1, ?_⟩
  have hstep : step calls s (.call r) = some s' := h
  rw [List.replicate_succ, run, hstep]
  exact hk

/-- The call has ended as `publish` does: with its answer and in its database, or with its error
and in the database as it was. -/
def EndsAs (t : State n) (r : Fin n) (db : Database) : Outcome PublishResult → Prop
  | .ok (x, db') => t.phase r = .done (.ok x) ∧ t.db = db'
  | .error e => t.phase r = .done (.error e) ∧ t.db = db

theorem setPhase_self (s : State n) (r : Fin n) (p : Phase) : (setPhase s r p).phase r = p :=
  Function.update_self ..

/-- No other transaction is under way. -/
def Alone (s : State n) (r : Fin n) : Prop := ∀ r', r' ≠ r → (s.phase r').holds = false

theorem Alone.setPhase {s : State n} {r : Fin n} (h : Alone s r) (p : Phase) :
    Alone (setPhase s r p) r := by
  intro r' hr'
  have heq : (Publishing.setPhase s r p).phase r' = s.phase r' := Function.update_of_ne hr' ..
  rw [heq]
  exact h r' hr'

/-- A call alone waits for nobody. -/
theorem Alone.waits {s : State n} {r : Fin n} (h : Alone s r) (hr : (s.phase r).holds = false) :
    waitsForEvent calls s r = false := by
  rw [waitsForEvent_eq_false_iff]
  intro r' hr'
  by_cases heq : r' = r
  · rw [heq, hr] at hr'
    cases hr'
  · rw [h r' heq] at hr'
    cases hr'

theorem written_eq_nil_of_holds {p : Phase} (h : p.holds = false) : p.written = [] := by
  cases p with
  | targets | deliveries | outbox | commit => cases h
  | size | insert | lookup | done => rfl

theorem Alone.waitsForDeliveries {s : State n} {r : Fin n} (h : Alone s r)
    (hr : (s.phase r).written = []) (pairs : List (Uuid × Uuid)) :
    waitsForDeliveries s pairs = false := by
  rw [waitsForDeliveries_eq_false_iff]
  intro r' p hp
  have hnil : (s.phase r').written = [] := by
    by_cases heq : r' = r
    · rw [heq, hr]
    · exact written_eq_nil_of_holds (h r' heq)
  rw [hnil] at hp
  cases hp

/-- The error for a unique index that was violated. -/
def violation (db : Database) (c : Call) : ServiceError :=
  match db.eventByKey c.tenantId c.idempotencyKey with
  | some existing => .domain (Errors.duplicateEvent existing.id)
  | none => .uniqueViolation

/-- The rest of a call whose transaction was rolled back. -/
theorem ends_of_lookup {s : State n} {r : Fin n} (hphase : s.phase r = .lookup) :
    ∃ t, Steps calls r s t ∧ EndsAs t r s.db (.error (violation s.db (calls r))) := by
  have hstep : stepCall calls s r =
      some (setPhase s r (.done (.error (violation s.db (calls r))))) := by
    unfold stepCall violation
    simp only [hphase]
    cases s.db.eventByKey (calls r).tenantId (calls r).idempotencyKey with
    | none => rfl
    | some e => rfl
  exact ⟨_, .head hstep (.refl r _), setPhase_self _ _ _, rfl⟩

/-- The rest of a call that commits. -/
theorem ends_of_commit {s : State n} {r : Fin n} {pairs : List (Uuid × Uuid)} {outboxId : ℕ}
    {db : Database} (hphase : s.phase r = .commit pairs outboxId)
    (hdb : s.db.publishTx (calls r).env.now (calls r).event ((calls r).deliveries pairs) outboxId =
      some db) (db₀ : Database) :
    ∃ t, Steps calls r s t ∧ EndsAs t r db₀ (.ok (⟨(calls r).event.id, pairs⟩, db)) := by
  have hstep : stepCall calls s r = some ⟨db,
      Function.update s.phase r (.done (.ok ⟨(calls r).event.id, pairs⟩)),
      s.commits ++ [⟨r, pairs, outboxId⟩]⟩ := by
    unfold stepCall commit
    simp only [hphase, hdb, Option.map_some]
  exact ⟨_, .head hstep (.refl r _), Function.update_self .., rfl⟩

/-- The pairs that the call draws if it reads this database. -/
def Call.pairs (c : Call) (db : Database) : List (Uuid × Uuid) :=
  newTargets c.env (targets db c.tenantId c.type)

/-- The call, as one. -/
def Call.publish (c : Call) (db : Database) : Outcome PublishResult :=
  EventsService.publish c.env c.tenantId c.type c.payload c.idempotencyKey db

/-- `publish`, by what its transaction does. -/
theorem publish_of_publishTx {c : Call} (hsmall : c.tooLarge = false) (db : Database) :
    (∀ db', db.publishTx c.env.now c.event (c.deliveries (c.pairs db)) db.outbox.next = some db' →
      c.publish db = .ok (⟨c.event.id, c.pairs db⟩, db')) ∧
    (db.publishTx c.env.now c.event (c.deliveries (c.pairs db)) db.outbox.next = none →
      c.publish db = .error (violation db c)) := by
  have hsize : ¬ sizeBytes c.payload > maxPayloadBytes := of_decide_eq_false hsmall
  simp only [Call.event, Call.deliveries, Call.pairs, Call.publish, violation,
    EventsService.publish, if_neg hsize]
  refine ⟨fun db' h => ?_, fun h => ?_⟩
  · simp only [h]
  · simp only [h]
    cases db.eventByKey c.tenantId c.idempotencyKey with
    | none => rfl
    | some e => rfl

/-- Deliveries that cannot be inserted cannot be inserted after the event either. -/
theorem publishTx_eq_none {db : Database} {now : Micros} {e : EventRow} {ds : List DeliveryRow}
    {outboxId : ℕ} (h : db.insertDeliveries? ds = none) :
    db.publishTx now e ds outboxId = none := by
  by_contra hsome
  obtain ⟨db', hdb'⟩ := Option.ne_none_iff_exists'.1 hsome
  obtain ⟨db₁, h₁, h₂⟩ := Option.bind_eq_some_iff.1 hdb'
  obtain ⟨-, -, events, -, rfl⟩ := insertEvent?_eq_some h₁
  unfold fanOut? at h₂
  split_ifs at h₂ with hnil
  · rw [hnil] at h
    cases h
  · obtain ⟨db₂, hds, -⟩ := Option.bind_eq_some_iff.1 h₂
    have hfree := insertDeliveries?_isSome_iff.1 ⟨db₂, hds⟩
    obtain ⟨db₃, hdb₃⟩ : ∃ db', db.insertDeliveries? ds = some db' :=
      insertDeliveries?_isSome_iff.2 hfree
    cases h.symm.trans hdb₃

/-- The rest of a call that inserts deliveries. -/
theorem ends_of_deliveries {s : State n} {r : Fin n}
    (hphase : s.phase r = .deliveries ((calls r).pairs s.db)) (hne : (calls r).pairs s.db ≠ [])
    (halone : Alone s r) (hsmall : (calls r).tooLarge = false) {db₁ : Database}
    (hins : s.db.insertEvent? (calls r).event = some db₁) :
    ∃ t, Steps calls r s t ∧ EndsAs t r s.db ((calls r).publish s.db) := by
  obtain ⟨hok, herror⟩ := publish_of_publishTx hsmall s.db
  have hwait := halone.waitsForDeliveries (by rw [hphase]; rfl) ((calls r).pairs s.db)
  cases hds : s.db.insertDeliveries? ((calls r).deliveries ((calls r).pairs s.db)) with
  | none =>
      have hstep : stepCall calls s r = some (setPhase s r .lookup) := by
        unfold stepCall
        simp only [hphase, hwait, hds, Bool.false_eq_true, if_false]
      obtain ⟨t, hsteps, hends⟩ := ends_of_lookup (setPhase_self s r .lookup)
      refine ⟨t, .head hstep hsteps, ?_⟩
      rw [herror (publishTx_eq_none hds)]
      exact hends
  | some db₂ =>
      have hstep : stepCall calls s r = some (setPhase s r (.outbox ((calls r).pairs s.db))) := by
        unfold stepCall
        simp only [hphase, hwait, hds, Bool.false_eq_true, if_false]
      -- it draws the number of the fan-out row, and commits with it
      let s' := setPhase s r (.outbox ((calls r).pairs s.db))
      let s'' : State n := { setPhase s' r (.commit ((calls r).pairs s.db) s.db.outbox.next) with
        db := s.db.withOutbox s.db.outbox.draw }
      have hphase' : s'.phase r = .outbox ((calls r).pairs s.db) := setPhase_self s r _
      have hstep' : stepCall calls s' r = some s'' := by
        unfold stepCall
        simp only [hphase']
        rfl
      obtain ⟨db, hdb⟩ : ∃ db, s.db.publishTx (calls r).env.now (calls r).event
          ((calls r).deliveries ((calls r).pairs s.db)) s.db.outbox.next = some db :=
        publishTx_isSome ⟨db₁, hins⟩ ⟨db₂, hds⟩ fun _ x hx =>
          Nat.ne_of_lt (s.db.outbox.fresh x hx)
      have hdraw : (s.db.withOutbox s.db.outbox.draw).publishTx (calls r).env.now (calls r).event
          ((calls r).deliveries ((calls r).pairs s.db)) s.db.outbox.next = _ :=
        publishTx_draw fun hnil => hne (deliveries_eq_nil_iff.1 hnil)
      have hphase'' : s''.phase r = .commit ((calls r).pairs s.db) s.db.outbox.next :=
        setPhase_self s' r _
      obtain ⟨t, hsteps, hends⟩ := ends_of_commit hphase'' (hdraw.trans hdb) s.db
      refine ⟨t, .head hstep (.head hstep' hsteps), ?_⟩
      rw [hok db hdb]
      exact hends

/-- The rest of a call that has inserted its event. -/
theorem ends_of_targets {s : State n} {r : Fin n} (hphase : s.phase r = .targets)
    (halone : Alone s r) (hsmall : (calls r).tooLarge = false) {db₁ : Database}
    (hins : s.db.insertEvent? (calls r).event = some db₁) :
    ∃ t, Steps calls r s t ∧ EndsAs t r s.db ((calls r).publish s.db) := by
  obtain ⟨hok, -⟩ := publish_of_publishTx hsmall s.db
  by_cases hnil : (calls r).pairs s.db = []
  · -- nobody to deliver to: it commits the event
    have hdb : ∀ outboxId, s.db.publishTx (calls r).env.now (calls r).event
        ((calls r).deliveries []) outboxId = some db₁ := by
      intro outboxId
      rw [publishTx, hins]
      rfl
    have hstep : stepCall calls s r = some (setPhase s r (.commit [] 0)) := by
      unfold stepCall
      unfold Call.pairs at hnil
      simp only [hphase, hnil, if_true]
    obtain ⟨t, hsteps, hends⟩ := ends_of_commit (setPhase_self s r _) (hdb 0) s.db
    refine ⟨t, .head hstep hsteps, ?_⟩
    rw [hok db₁ (by rw [hnil]; exact hdb _), hnil]
    exact hends
  · have hstep : stepCall calls s r =
        some (setPhase s r (.deliveries ((calls r).pairs s.db))) := by
      unfold stepCall
      unfold Call.pairs at hnil ⊢
      simp only [hphase, if_neg hnil]
    obtain ⟨t, hsteps, hends⟩ := ends_of_deliveries
      (s := setPhase s r (.deliveries ((calls r).pairs s.db))) (setPhase_self s r _) hnil
      (halone.setPhase _) hsmall hins
    exact ⟨t, .head hstep hsteps, hends⟩

/-- **A call alone does what `publish` does at once.** -/
theorem publish_alone {s : State n} {r : Fin n} (hphase : s.phase r = .size) (halone : Alone s r) :
    ∃ t, Steps calls r s t ∧ EndsAs t r s.db ((calls r).publish s.db) := by
  cases hsmall : (calls r).tooLarge with
  | true =>
      have hstep : stepCall calls s r = some (setPhase s r (.done (.error (.domain
          (Errors.payloadTooLarge (sizeBytes (calls r).payload) maxPayloadBytes))))) := by
        unfold stepCall
        simp only [hphase, hsmall, if_true]
      have hpublish : (calls r).publish s.db = .error (.domain
          (Errors.payloadTooLarge (sizeBytes (calls r).payload) maxPayloadBytes)) :=
        if_pos (of_decide_eq_true hsmall)
      rw [hpublish]
      exact ⟨_, .head hstep (.refl r _), setPhase_self _ _ _, rfl⟩
  | false =>
      have hstep : stepCall calls s r = some (setPhase s r .insert) := by
        unfold stepCall
        simp only [hphase, hsmall, Bool.false_eq_true, if_false]
      have hphase' := setPhase_self s r .insert
      have halone' := halone.setPhase .insert
      have hwait : waitsForEvent calls (setPhase s r .insert) r = false :=
        halone'.waits (by rw [hphase']; rfl)
      have hsame : (setPhase s r .insert).db = s.db := rfl
      cases hins : s.db.insertEvent? (calls r).event with
      | none =>
          have hstep' : stepCall calls (setPhase s r .insert) r =
              some (setPhase (setPhase s r .insert) r .lookup) := by
            unfold stepCall
            simp only [hphase', hwait, hsame, hins, Bool.false_eq_true, if_false]
          obtain ⟨t, hsteps, hends⟩ := ends_of_lookup (setPhase_self _ r .lookup)
          have hnone : ∀ ds outboxId, s.db.publishTx (calls r).env.now (calls r).event ds outboxId =
              none := by
            intro ds outboxId
            rw [publishTx, hins]
            rfl
          refine ⟨t, .head hstep (.head hstep' hsteps), ?_⟩
          rw [(publish_of_publishTx hsmall s.db).2 (hnone _ _)]
          exact hends
      | some db₁ =>
          have hstep' : stepCall calls (setPhase s r .insert) r =
              some (setPhase (setPhase s r .insert) r .targets) := by
            unfold stepCall
            simp only [hphase', hwait, hsame, hins, Bool.false_eq_true, if_false]
          obtain ⟨t, hsteps, hends⟩ := ends_of_targets (setPhase_self _ r .targets)
            (halone'.setPhase .targets) hsmall hins
          exact ⟨t, .head hstep (.head hstep' hsteps), hends⟩

end Publishing

end HookRelay
