import HookRelay.Api.Publishing

/-!
# Publishing: the invariants

What holds whenever calls of `publish` run at once.

* `Locks` — the calls that have inserted their event and not ended are for different keys, and
  the keys are free.
* `Rows` — what is in the database was there at the start or is of a committed call, and no two
  of those have the same key.
* `Results` — what the calls return; a unique index is violated by the event that has the key,
  or by a UUID in use.
* `Ready` — the uncommitted deliveries and outbox rows can be committed.
-/

namespace HookRelay

open Lib EventsService Database

namespace Publishing

variable {n : ℕ} {calls : Fin n → Call}

/-! ## Uncommitted events -/

/-- The calls that have inserted their event and not ended are apart from each other, and from
what is committed. -/
structure Locks (calls : Fin n → Call) (s : State n) : Prop where
  free : ∀ r, (s.phase r).holds = true → ∀ x ∈ s.db.events.rows, clash x (calls r).event = false
  apart : ∀ r r', r ≠ r' → (s.phase r).holds = true → (s.phase r').holds = true →
    clash (calls r).event (calls r').event = false

theorem locks_init (db : Database) : Locks calls (init db) where
  free := fun r h => by cases h
  apart := fun r r' _ h => by cases h

/-- Nothing is inserted, and transactions may end. -/
theorem Locks.of_le {s t : State n} (h : Locks calls s) (hevents : t.db.events = s.db.events)
    (hle : ∀ r, (t.phase r).holds = true → (s.phase r).holds = true) : Locks calls t where
  free := fun r hr => by
    rw [hevents]
    exact h.free r (hle r hr)
  apart := fun r r' hne hr hr' => h.apart r r' hne (hle r hr) (hle r' hr')

/-- The phases after a step of one call. -/
theorem phase_cases {s t : State n} {r : Fin n} {p : Phase}
    (h : t.phase = Function.update s.phase r p) (r' : Fin n) :
    (r' = r ∧ t.phase r' = p) ∨ (r' ≠ r ∧ t.phase r' = s.phase r') := by
  rw [h]
  by_cases hr : r' = r
  · subst hr
    exact .inl ⟨rfl, Function.update_self ..⟩
  · exact .inr ⟨hr, Function.update_of_ne hr ..⟩

/-- A move of a call lets it hold its event only if it did so before, or inserts it. -/
theorem Move.holds_or {s : State n} {r : Fin n} {p q : Phase} (h : Move calls s r p q)
    (hq : q.holds = true) : p.holds = true ∨ (waitsForEvent calls s r = false ∧
      ∃ db, s.db.insertEvent? (calls r).event = some db) := by
  cases h with
  | tooLarge | small | violated | collided | found | notFound | failed => cases hq
  | inserted hwait hdb => exact .inr ⟨hwait, _, hdb⟩
  | readNone | read | wrote => exact .inl rfl

theorem waitsForEvent_eq_false_iff {s : State n} {r : Fin n} :
    waitsForEvent calls s r = false ↔
      ∀ r', (s.phase r').holds = true → clash (calls r').event (calls r).event = false := by
  simp [waitsForEvent]

/-- A call inserts its event. -/
theorem Locks.insert {s t : State n} (h : Locks calls s) {r : Fin n} {p : Phase}
    (hdb : t.db = s.db) (hphase : t.phase = Function.update s.phase r p)
    (hwait : waitsForEvent calls s r = false)
    (hfree : ∃ db, s.db.insertEvent? (calls r).event = some db) : Locks calls t := by
  rw [waitsForEvent_eq_false_iff] at hwait
  rw [insertEvent?_isSome_iff] at hfree
  refine ⟨fun r' hr' => ?_, fun r' r'' hne hr' hr'' => ?_⟩
  · rw [hdb]
    rcases phase_cases hphase r' with ⟨rfl, -⟩ | ⟨-, heq'⟩
    · exact hfree
    · rw [heq'] at hr'
      exact h.free r' hr'
  · rcases phase_cases hphase r' with ⟨rfl, -⟩ | ⟨-, heq'⟩
    · rcases phase_cases hphase r'' with ⟨rfl, -⟩ | ⟨-, heq''⟩
      · exact absurd rfl hne
      · rw [heq''] at hr''
        rw [clash_comm]
        exact hwait r'' hr''
    · rw [heq'] at hr'
      rcases phase_cases hphase r'' with ⟨rfl, -⟩ | ⟨-, heq''⟩
      · exact hwait r' hr'
      · rw [heq''] at hr''
        exact h.apart r' r'' hne hr' hr''

/-- A call commits: its event is no longer uncommitted, but there. -/
theorem Locks.commit {s t : State n} (h : Locks calls s) {r : Fin n}
    {result : Except ServiceError PublishResult} (hr : (s.phase r).holds = true)
    (hphase : t.phase = Function.update s.phase r (.done result))
    (hevents : t.db.events.rows = s.db.events.rows ++ [(calls r).event]) : Locks calls t := by
  have hheld : ∀ r', (t.phase r').holds = true → r' ≠ r ∧ (s.phase r').holds = true := by
    intro r' hr'
    rcases phase_cases hphase r' with ⟨-, heq⟩ | ⟨hne, heq⟩
    · rw [heq] at hr'
      cases hr'
    · rw [heq] at hr'
      exact ⟨hne, hr'⟩
  refine ⟨fun r' hr' x hx => ?_, fun r' r'' hne hr' hr'' => ?_⟩
  · obtain ⟨hne, hr'⟩ := hheld r' hr'
    rw [hevents, List.mem_append, List.mem_singleton] at hx
    rcases hx with hx | rfl
    · exact h.free r' hr' x hx
    · exact h.apart r r' (Ne.symm hne) hr hr'
  · exact h.apart r' r'' hne (hheld r' hr').2 (hheld r'' hr'').2

theorem Locks.step {s t : State n} (h : Locks calls s) (he : Effect calls s t) :
    Locks calls t := by
  cases he with
  | endpoints hevents _ _ hphase _ => exact h.of_le hevents fun r hr => by rwa [hphase] at hr
  | @call r hown hcall =>
      cases hcall with
      | @move p hmove hdb hphase _ =>
          by_cases hnew : waitsForEvent calls s r = false ∧
              ∃ db, s.db.insertEvent? (calls r).event = some db
          · exact h.insert hdb hphase hnew.1 hnew.2
          · refine h.of_le (by rw [hdb]) fun r' hr' => ?_
            rcases phase_cases hphase r' with ⟨rfl, heq⟩ | ⟨-, heq⟩
            · rw [heq] at hr'
              exact (hmove.holds_or hr').resolve_right hnew
            · rwa [heq] at hr'
      | draw hs hdb hphase _ =>
          refine h.of_le (by rw [hdb]) fun r' hr' => ?_
          rcases phase_cases hphase r' with ⟨rfl, -⟩ | ⟨-, heq⟩
          · rw [hs]
            rfl
          · rwa [heq] at hr'
      | commit hs _ hdb hphase _ =>
          exact h.commit (by rw [hs]; rfl) hphase (Database.publishTx_eq_some hdb).2.2.2.1

/-! ## What is committed -/

/-- The outbox rows of a committed call. -/
def fanOutRows (calls : Fin n → Call) (c : Commit n) : List OutboxRow :=
  if c.pairs = [] then []
  else [Database.newOutbox (calls c.call).env.now c.outboxId (calls c.call).event.id none]

/-- The rows of the database are those at the start and those of the committed calls, for each
of them one event, its deliveries and, if there are any, the fan-out row. -/
structure Rows (calls : Fin n → Call) (db₀ : Database) (s : State n) : Prop where
  events : s.db.events.rows = db₀.events.rows ++ s.commits.map fun c => (calls c.call).event
  deliveries : s.db.deliveries.rows =
    db₀.deliveries.rows ++ s.commits.flatMap fun c => (calls c.call).deliveries c.pairs
  outbox : s.db.outbox.rows = db₀.outbox.rows ++ s.commits.flatMap (fanOutRows calls)
  /-- No two committed calls have the same key. -/
  keys : s.commits.Pairwise fun a b => ¬ (calls a.call).SameKey (calls b.call)
  /-- The event of a committed call is the one with its key. -/
  found : ∀ c ∈ s.commits, s.db.eventByKey (calls c.call).tenantId (calls c.call).idempotencyKey =
    some (calls c.call).event

theorem rows_init (db : Database) : Rows calls db (init db) :=
  ⟨by simp [init], by simp [init], by simp [init], .nil, fun c hc => by cases hc⟩

theorem deliveries_eq_nil_iff {c : Call} {pairs : List (Uuid × Uuid)} :
    c.deliveries pairs = [] ↔ pairs = [] := List.map_eq_nil_iff

theorem Rows.step {db₀ : Database} {s t : State n} (h : Rows calls db₀ s)
    (he : Effect calls s t) : Rows calls db₀ t := by
  have hkept : t.db.events.rows = s.db.events.rows → t.db.deliveries.rows = s.db.deliveries.rows →
      t.db.outbox.rows = s.db.outbox.rows → t.commits = s.commits → Rows calls db₀ t := by
    intro hevents hdeliveries houtbox hcommits
    refine ⟨?_, ?_, ?_, ?_, fun c hc => ?_⟩
    · rw [hevents, hcommits]
      exact h.events
    · rw [hdeliveries, hcommits]
      exact h.deliveries
    · rw [houtbox, hcommits]
      exact h.outbox
    · rw [hcommits]
      exact h.keys
    · rw [hcommits] at hc
      rw [Database.eventByKey, hevents]
      exact h.found c hc
  cases he with
  | endpoints hevents hdeliveries houtbox _ hcommits =>
      exact hkept (by rw [hevents]) (by rw [hdeliveries]) (by rw [houtbox]) hcommits
  | @call r hown hcall =>
      cases hcall with
      | move _ hdb _ hcommits => exact hkept (by rw [hdb]) (by rw [hdb]) (by rw [hdb]) hcommits
      | draw _ hdb _ hcommits => exact hkept (by rw [hdb]) (by rw [hdb]) (by rw [hdb]; rfl) hcommits
      | commit _ _ hdb _ hcommits =>
          obtain ⟨hkey, -, -, hevents, hdeliveries, houtbox, -⟩ := Database.publishTx_eq_some hdb
          refine ⟨?_, ?_, ?_, ?_, fun c hc => ?_⟩
          · rw [hevents, h.events, hcommits]
            simp
          · rw [hdeliveries, h.deliveries, hcommits]
            simp
          · simp only [ne_eq, deliveries_eq_nil_iff] at houtbox
            rw [hcommits, List.flatMap_append, ← List.append_assoc, ← h.outbox]
            rcases houtbox with ⟨hnil, heq⟩ | ⟨hne, -, heq⟩
            · simp [heq, fanOutRows, hnil]
            · simp [heq, fanOutRows, hne]
          · rw [hcommits]
            refine List.pairwise_append.2 ⟨h.keys, List.pairwise_singleton _ _, ?_⟩
            intro a ha b hb hsame
            rw [List.mem_singleton] at hb
            subst hb
            refine keyTaken_eq_false_iff.1 hkey (calls a.call).event ?_ hsame
            rw [h.events]
            exact List.mem_append_right _ (List.mem_map_of_mem ha)
          · rw [hcommits, List.mem_append, List.mem_singleton] at hc
            rcases hc with hc | rfl
            · exact eventByKey_append hevents (h.found c hc)
            · exact eventByKey_append_self hevents hkey

/-! ## What the calls return -/

/-- A UUID that the call draws is in use already, or it draws one twice. -/
def Collision (calls : Fin n → Call) (s : State n) (r : Fin n) : Prop :=
  (∃ x ∈ s.db.events.rows, x.id = (calls r).event.id) ∨
  (∃ x ∈ s.db.deliveries.rows,
    x.eventId = (calls r).event.id ∨ ∃ i, x.id = (calls r).env.randomUuid (i + 1)) ∨
  ∃ i j, i < j ∧ (calls r).env.randomUuid (i + 1) = (calls r).env.randomUuid (j + 1)

/-- What a call returns, and when. -/
inductive Settled (calls : Fin n → Call) (s : State n) (r : Fin n) :
    Except ServiceError PublishResult → Prop
  | tooLarge : (calls r).tooLarge = true → Settled calls s r (.error (.domain
      (Errors.payloadTooLarge (sizeBytes (calls r).payload) maxPayloadBytes)))
  | failed : Settled calls s r (.error .unavailable)
  | published {c : Commit n} : c ∈ s.commits → c.call = r →
      Settled calls s r (.ok ⟨(calls r).event.id, c.pairs⟩)
  | duplicate {e : EventRow} :
      s.db.eventByKey (calls r).tenantId (calls r).idempotencyKey = some e →
      Settled calls s r (.error (.domain (Errors.duplicateEvent e.id)))
  | collided : Collision calls s r → Settled calls s r (.error .uniqueViolation)

/-- A call that commits ends with its result, or without an answer. -/
def Ended (calls : Fin n → Call) (s : State n) (c : Commit n) : Prop :=
  s.phase c.call = .done (.ok ⟨(calls c.call).event.id, c.pairs⟩) ∨
    s.phase c.call = .done (.error .unavailable)

/-- What is known of a call, by its phase: only payloads within the limit get past the check,
the deliveries are for different endpoints, and a violation is due to the event that has the
key or to a UUID. -/
def Good (calls : Fin n → Call) (s : State n) (r : Fin n) : Phase → Prop
  | .size => True
  | .insert | .targets | .outbox _ | .commit _ _ => (calls r).tooLarge = false
  | .deliveries pairs => (calls r).tooLarge = false ∧
      ∃ endpoints, endpoints.Nodup ∧ pairs = newTargets (calls r).env endpoints
  | .lookup => (calls r).tooLarge = false ∧
      ((∃ e, s.db.eventByKey (calls r).tenantId (calls r).idempotencyKey = some e) ∨
        Collision calls s r)
  | .done result => Settled calls s r result

structure Results (calls : Fin n → Call) (s : State n) : Prop where
  good : ∀ r, Good calls s r (s.phase r)
  ended : ∀ c ∈ s.commits, Ended calls s c ∧ (calls c.call).tooLarge = false

theorem results_init (db : Database) : Results calls (init db) where
  good := fun r => trivial
  ended := fun c hc => by cases hc

/-- Rows are added, and nothing else. -/
structure Grows (s t : State n) : Prop where
  events : ∃ new, t.db.events.rows = s.db.events.rows ++ new
  deliveries : ∃ new, t.db.deliveries.rows = s.db.deliveries.rows ++ new
  commits : ∃ new, t.commits = s.commits ++ new

theorem Effect.grows {s t : State n} (he : Effect calls s t) : Grows s t := by
  cases he with
  | endpoints hevents hdeliveries _ _ hcommits =>
      exact ⟨⟨[], by simp [hevents]⟩, ⟨[], by simp [hdeliveries]⟩, ⟨[], by simp [hcommits]⟩⟩
  | @call r hown hcall =>
      cases hcall with
      | move _ hdb _ hcommits =>
          exact ⟨⟨[], by simp [hdb]⟩, ⟨[], by simp [hdb]⟩, ⟨[], by simp [hcommits]⟩⟩
      | draw _ hdb _ hcommits =>
          exact ⟨⟨[], by simp [hdb]⟩, ⟨[], by simp [hdb]⟩, ⟨[], by simp [hcommits]⟩⟩
      | commit _ _ hdb _ hcommits =>
          obtain ⟨-, -, -, hevents, hdeliveries, -⟩ := Database.publishTx_eq_some hdb
          exact ⟨⟨_, hevents⟩, ⟨_, hdeliveries⟩, ⟨_, hcommits⟩⟩

theorem Grows.eventByKey {s t : State n} (h : Grows s t) {tenantId : Uuid} {key : Text}
    {e : EventRow} (he : s.db.eventByKey tenantId key = some e) :
    t.db.eventByKey tenantId key = some e := by
  obtain ⟨new, hnew⟩ := h.events
  exact eventByKey_append hnew he

theorem Grows.collision {s t : State n} (h : Grows s t) {r : Fin n} (hc : Collision calls s r) :
    Collision calls t r := by
  obtain ⟨events, hevents⟩ := h.events
  obtain ⟨deliveries, hdeliveries⟩ := h.deliveries
  rcases hc with ⟨x, hx, hid⟩ | ⟨x, hx, hid⟩ | htwice
  · exact .inl ⟨x, hevents ▸ List.mem_append_left _ hx, hid⟩
  · exact .inr (.inl ⟨x, hdeliveries ▸ List.mem_append_left _ hx, hid⟩)
  · exact .inr (.inr htwice)

theorem Grows.settled {s t : State n} (h : Grows s t) {r : Fin n}
    {result : Except ServiceError PublishResult} (hs : Settled calls s r result) :
    Settled calls t r result := by
  cases hs with
  | tooLarge hsize => exact .tooLarge hsize
  | failed => exact .failed
  | published hc hr =>
      obtain ⟨new, hnew⟩ := h.commits
      exact .published (hnew ▸ List.mem_append_left _ hc) hr
  | duplicate he => exact .duplicate (h.eventByKey he)
  | collided hc => exact .collided (h.collision hc)

theorem Grows.good {s t : State n} (h : Grows s t) {r : Fin n} {p : Phase}
    (hp : Good calls s r p) : Good calls t r p := by
  cases p with
  | size | insert | targets | deliveries | outbox | commit => exact hp
  | lookup =>
      obtain ⟨hsmall, ⟨e, he⟩ | hc⟩ := hp
      · exact ⟨hsmall, .inl ⟨e, h.eventByKey he⟩⟩
      · exact ⟨hsmall, .inr (h.collision hc)⟩
  | done result => exact h.settled hp

/-- An event is refused because of another one with its key, or with its id. -/
theorem violated_of_insertEvent? {s : State n} {r : Fin n}
    (h : s.db.insertEvent? (calls r).event = none) :
    (∃ e, s.db.eventByKey (calls r).tenantId (calls r).idempotencyKey = some e) ∨
      Collision calls s r := by
  by_contra hnone
  push Not at hnone
  have hfree : ∃ db, s.db.insertEvent? (calls r).event = some db := by
    rw [insertEvent?_isSome_iff]
    intro x hx
    rw [clash_eq_false_iff]
    constructor
    · intro hid
      exact hnone.2 (.inl ⟨x, hx, hid⟩)
    · intro hkey
      have htaken : s.db.keyTaken (calls r).tenantId (calls r).idempotencyKey = true := by
        by_contra hfalse
        rw [Bool.not_eq_true] at hfalse
        exact keyTaken_eq_false_iff.1 hfalse x hx hkey
      obtain ⟨e, he⟩ := Option.isSome_iff_exists.1 htaken
      exact hnone.1 e he
  rw [h] at hfree
  obtain ⟨db, hdb⟩ := hfree
  cases hdb

/-- Deliveries for different endpoints are refused because of a UUID only. -/
theorem collision_of_insertDeliveries? {s : State n} {r : Fin n} {endpoints : List Uuid}
    (hnodup : endpoints.Nodup)
    (h : s.db.insertDeliveries? ((calls r).deliveries (newTargets (calls r).env endpoints)) = none) :
    Collision calls s r := by
  by_contra hnone
  have hfree : ∃ db, s.db.insertDeliveries?
      (newDeliveries (calls r).env (calls r).event.id endpoints) = some db := by
    apply insertDeliveries?_isSome_of_fresh hnodup
    · intro x hx hid
      exact hnone (.inr (.inl ⟨x, hx, .inl hid⟩))
    · intro x hx i _ hid
      exact hnone (.inr (.inl ⟨x, hx, .inr ⟨i, hid⟩⟩))
    · intro i j hij _ hid
      exact hnone (.inr (.inr ⟨i, j, hij, hid⟩))
  obtain ⟨db, hdb⟩ := hfree
  cases h.symm.trans hdb

/-- A move of a call keeps what is known of it. -/
theorem Move.good {s : State n} {r : Fin n} {p q : Phase} (h : Move calls s r p q)
    (hp : Good calls s r p) : Good calls s r q := by
  cases h with
  | tooLarge hsize => exact .tooLarge hsize
  | small hsize => exact hsize
  | inserted _ _ => exact hp
  | violated hdb => exact ⟨hp, violated_of_insertEvent? hdb⟩
  | readNone _ => exact hp
  | read _ => exact ⟨hp, _, nodup_targets _ _ _, rfl⟩
  | wrote _ _ => exact hp.1
  | collided hdb =>
      obtain ⟨hsmall, endpoints, hnodup, rfl⟩ := hp
      exact ⟨hsmall, .inr (collision_of_insertDeliveries? hnodup hdb)⟩
  | found he => exact .duplicate he
  | notFound he =>
      obtain ⟨-, ⟨e, he'⟩ | hc⟩ := hp
      · rw [he] at he'
        cases he'
      · exact .collided hc
  | failed _ => exact .failed

/-- A call that is done makes no move. -/
theorem Move.isDone {s : State n} {r : Fin n} {p q : Phase} (h : Move calls s r p q) :
    p.isDone = false := by
  cases h with
  | failed hp => exact hp
  | _ => rfl

theorem Results.step {s t : State n} (h : Results calls s) (he : Effect calls s t) :
    Results calls t := by
  have hgrows := he.grows
  -- a call that has committed makes no more steps
  have hended : ∀ {r p}, t.phase = Function.update s.phase r p → (s.phase r).isDone = false →
      ∀ c ∈ s.commits, Ended calls t c ∧ (calls c.call).tooLarge = false := by
    intro r p hphase hdone c hc
    obtain ⟨hend, hsmall⟩ := h.ended c hc
    refine ⟨?_, hsmall⟩
    rcases phase_cases hphase c.call with ⟨hr, -⟩ | ⟨-, heq⟩
    · rcases hend with hend | hend
      · rw [← hr, hend] at hdone
        cases hdone
      · rw [← hr, hend] at hdone
        cases hdone
    · rw [Ended, heq]
      exact hend
  have hgood : ∀ {r p}, t.phase = Function.update s.phase r p → Good calls t r p →
      ∀ r', Good calls t r' (t.phase r') := by
    intro r p hphase hp r'
    rcases phase_cases hphase r' with ⟨rfl, heq⟩ | ⟨-, heq⟩
    · rw [heq]
      exact hp
    · rw [heq]
      exact hgrows.good (h.good r')
  cases he with
  | endpoints _ _ _ hphase hcommits =>
      refine ⟨fun r => ?_, fun c hc => ?_⟩
      · rw [hphase]
        exact hgrows.good (h.good r)
      · rw [hcommits] at hc
        rw [Ended, hphase]
        exact h.ended c hc
  | @call r hown hcall =>
      cases hcall with
      | @move p hmove _ hphase hcommits =>
          refine ⟨hgood hphase (hgrows.good (hmove.good (h.good r))), fun c hc => ?_⟩
          rw [hcommits] at hc
          exact hended hphase hmove.isDone c hc
      | @draw pairs hs _ hphase hcommits =>
          have hr := h.good r
          rw [hs] at hr
          refine ⟨hgood hphase hr, fun c hc => ?_⟩
          rw [hcommits] at hc
          exact hended hphase (by rw [hs]; rfl) c hc
      | @commit pairs outboxId result hs hresult hdb hphase hcommits =>
          have hmem : (⟨r, pairs, outboxId⟩ : Commit n) ∈ t.commits := by
            rw [hcommits]
            exact List.mem_append_right _ (List.mem_singleton_self _)
          have hr := h.good r
          rw [hs] at hr
          refine ⟨hgood hphase ?_, fun c hc => ?_⟩
          · rcases hresult with rfl | rfl
            · exact .published hmem rfl
            · exact .failed
          · rw [hcommits, List.mem_append, List.mem_singleton] at hc
            rcases hc with hc | rfl
            · exact hended hphase (by rw [hs]; rfl) c hc
            · refine ⟨?_, hr⟩
              have hend : t.phase r = .done result := by rw [hphase, Function.update_self]
              rcases hresult with rfl | rfl
              · exact .inl hend
              · exact .inr hend

/-! ## Uncommitted deliveries -/

/-- The number that a call has drawn for its fan-out row. -/
def Phase.number? : Phase → Option ℕ
  | commit pairs outboxId => if pairs = [] then none else some outboxId
  | _ => none

/-- The uncommitted deliveries clash with none, and the numbers drawn are free. -/
structure Ready (calls : Fin n → Call) (s : State n) : Prop where
  free : ∀ r, ∃ db, s.db.insertDeliveries? ((calls r).deliveries (s.phase r).written) = some db
  apart : ∀ r r', r ≠ r' → ∀ p ∈ (s.phase r).written, p.1 ∉ (s.phase r').written.map Prod.fst
  number : ∀ r k, (s.phase r).number? = some k → k < s.db.outbox.next ∧
    ∀ x ∈ s.db.outbox.rows, x.id ≠ k
  numbers : ∀ r r' k, r ≠ r' → (s.phase r).number? = some k → (s.phase r').number? ≠ some k

theorem ready_init (db : Database) : Ready calls (init db) where
  free := fun r => ⟨db, rfl⟩
  apart := fun r r' _ p hp => by cases hp
  number := fun r k h => by cases h
  numbers := fun r r' k _ h => by cases h

/-- Nothing is inserted, and transactions may end. -/
theorem Ready.of_le {s t : State n} (h : Ready calls s)
    (hdeliveries : t.db.deliveries = s.db.deliveries) (houtbox : t.db.outbox = s.db.outbox)
    (hwritten : ∀ r, (t.phase r).written = (s.phase r).written ∨ (t.phase r).written = [])
    (hnumber : ∀ r k, (t.phase r).number? = some k → (s.phase r).number? = some k) :
    Ready calls t where
  free := fun r => by
    rcases hwritten r with heq | heq
    · rw [heq, insertDeliveries?_isSome_iff, hdeliveries, ← insertDeliveries?_isSome_iff]
      exact h.free r
    · rw [heq]
      exact ⟨t.db, rfl⟩
  apart := fun r r' hne p hp => by
    rcases hwritten r with heq | heq
    · rw [heq] at hp
      rcases hwritten r' with heq' | heq'
      · rw [heq']
        exact h.apart r r' hne p hp
      · rw [heq']
        exact List.not_mem_nil
    · rw [heq] at hp
      cases hp
  number := fun r k hk => by
    rw [houtbox]
    exact h.number r k (hnumber r k hk)
  numbers := fun r r' k hne hk hk' => h.numbers r r' k hne (hnumber r k hk) (hnumber r' k hk')

/-- A move of a call keeps the deliveries it has inserted, gives them up or inserts them. -/
theorem Move.written_cases {s : State n} {r : Fin n} {p q : Phase} (h : Move calls s r p q) :
    q.number? = none ∧ (q.written = [] ∨ (p = .deliveries q.written ∧
      waitsForDeliveries s q.written = false ∧
      ∃ db, s.db.insertDeliveries? ((calls r).deliveries q.written) = some db)) := by
  cases h with
  | wrote hwait hdb => exact ⟨rfl, .inr ⟨rfl, hwait, _, hdb⟩⟩
  | _ => exact ⟨rfl, .inl rfl⟩

theorem waitsForDeliveries_eq_false_iff {s : State n} {pairs : List (Uuid × Uuid)} :
    waitsForDeliveries s pairs = false ↔
      ∀ r', ∀ p ∈ (s.phase r').written, p.1 ∉ pairs.map Prod.fst := by
  simp only [waitsForDeliveries, decide_eq_false_iff_not, not_exists, not_and]

/-- A call inserts its deliveries. -/
theorem Ready.insert {s t : State n} (h : Ready calls s) {r : Fin n} {q : Phase}
    (hdb : t.db = s.db) (hphase : t.phase = Function.update s.phase r q)
    (hnumber : q.number? = none) (hwait : waitsForDeliveries s q.written = false)
    (hfree : ∃ db, s.db.insertDeliveries? ((calls r).deliveries q.written) = some db) :
    Ready calls t := by
  rw [waitsForDeliveries_eq_false_iff] at hwait
  have hnumbers : ∀ r' k, (t.phase r').number? = some k → (s.phase r').number? = some k := by
    intro r' k hk
    rcases phase_cases hphase r' with ⟨-, heq⟩ | ⟨-, heq⟩
    · rw [heq, hnumber] at hk
      cases hk
    · rwa [heq] at hk
  refine ⟨fun r' => ?_, fun r' r'' hne p hp => ?_, fun r' k hk => ?_,
    fun r' r'' k hne hk hk' => h.numbers r' r'' k hne (hnumbers r' k hk) (hnumbers r'' k hk')⟩
  · rw [hdb]
    rcases phase_cases hphase r' with ⟨rfl, heq⟩ | ⟨-, heq⟩
    · rw [heq]
      exact hfree
    · rw [heq]
      exact h.free r'
  · rcases phase_cases hphase r' with ⟨rfl, heq'⟩ | ⟨-, heq'⟩
    · rcases phase_cases hphase r'' with ⟨rfl, -⟩ | ⟨-, heq''⟩
      · exact absurd rfl hne
      · rw [heq'] at hp
        rw [heq'']
        intro hmem
        obtain ⟨p', hp', heq⟩ := List.mem_map.1 hmem
        exact hwait r'' p' hp' (heq ▸ List.mem_map_of_mem hp)
    · rw [heq'] at hp
      rcases phase_cases hphase r'' with ⟨rfl, heq''⟩ | ⟨-, heq''⟩
      · rw [heq'']
        exact hwait r' p hp
      · rw [heq'']
        exact h.apart r' r'' hne p hp
  · rw [hdb]
    exact h.number r' k (hnumbers r' k hk)

/-- A call draws the number of its fan-out row. -/
theorem Ready.draw {s t : State n} (h : Ready calls s) {r : Fin n} {pairs : List (Uuid × Uuid)}
    (hs : s.phase r = .outbox pairs) (hdb : t.db = { s.db with outbox := s.db.outbox.draw })
    (hphase : t.phase = Function.update s.phase r (.commit pairs s.db.outbox.next)) :
    Ready calls t := by
  have hwritten : ∀ r', (t.phase r').written = (s.phase r').written := by
    intro r'
    rcases phase_cases hphase r' with ⟨rfl, heq⟩ | ⟨-, heq⟩
    · rw [heq, hs]
      rfl
    · rw [heq]
  -- every number is the new one or was drawn before
  have hnumber : ∀ r' k, (t.phase r').number? = some k →
      (r' = r ∧ k = s.db.outbox.next) ∨ (r' ≠ r ∧ (s.phase r').number? = some k) := by
    intro r' k hk
    rcases phase_cases hphase r' with ⟨rfl, heq⟩ | ⟨hne, heq⟩
    · rw [heq, Phase.number?] at hk
      split_ifs at hk
      exact .inl ⟨rfl, (Option.some.inj hk).symm⟩
    · rw [heq] at hk
      exact .inr ⟨hne, hk⟩
  have hnext : t.db.outbox.next = s.db.outbox.next + 1 := by rw [hdb]; rfl
  have hrows : t.db.outbox.rows = s.db.outbox.rows := by rw [hdb]; rfl
  refine ⟨fun r' => ?_, fun r' r'' hne p hp => ?_, fun r' k hk => ?_,
    fun r' r'' k hne hk hk' => ?_⟩
  · have hfree := insertDeliveries?_isSome_iff.1 (h.free r')
    rw [hwritten, insertDeliveries?_isSome_iff, hdb]
    exact hfree
  · rw [hwritten] at hp ⊢
    exact h.apart r' r'' hne p hp
  · rw [hnext, hrows]
    rcases hnumber r' k hk with ⟨-, rfl⟩ | ⟨-, hk⟩
    · exact ⟨Nat.lt_succ_self _, fun x hx => Nat.ne_of_lt (s.db.outbox.fresh x hx)⟩
    · obtain ⟨hlt, hfree⟩ := h.number r' k hk
      exact ⟨Nat.lt_succ_of_lt hlt, hfree⟩
  · rcases hnumber r' k hk with ⟨rfl, rfl⟩ | ⟨-, hk⟩
    · rcases hnumber r'' _ hk' with ⟨rfl, -⟩ | ⟨-, hk'⟩
      · exact hne rfl
      · exact absurd (h.number r'' _ hk').1 (Nat.lt_irrefl _)
    · rcases hnumber r'' k hk' with ⟨rfl, rfl⟩ | ⟨-, hk'⟩
      · exact absurd (h.number r' _ hk).1 (Nat.lt_irrefl _)
      · exact h.numbers r' r'' k hne hk hk'

/-- A call commits: its rows are there, and no longer uncommitted. -/
theorem Ready.commit {s t : State n} (h : Ready calls s) (hlocks : Locks calls s) {r : Fin n}
    {pairs : List (Uuid × Uuid)} {outboxId : ℕ} {result : Except ServiceError PublishResult}
    (hs : s.phase r = .commit pairs outboxId)
    (hdb : s.db.publishTx (calls r).env.now (calls r).event ((calls r).deliveries pairs) outboxId =
      some t.db)
    (hphase : t.phase = Function.update s.phase r (.done result)) : Ready calls t := by
  obtain ⟨-, -, -, -, hdeliveries, houtbox, -⟩ := Database.publishTx_eq_some hdb
  have hwritten : ∀ r', r' ≠ r → (t.phase r').written = (s.phase r').written := by
    intro r' hne
    rw [hphase, Function.update_of_ne hne]
  have hnone : (t.phase r).written = [] ∧ (t.phase r).number? = none := by
    rw [hphase, Function.update_self]
    exact ⟨rfl, rfl⟩
  have hnumber : ∀ r' k, (t.phase r').number? = some k →
      r' ≠ r ∧ (s.phase r').number? = some k := by
    intro r' k hk
    rcases phase_cases hphase r' with ⟨rfl, -⟩ | ⟨hne, heq⟩
    · rw [hnone.2] at hk
      cases hk
    · exact ⟨hne, heq ▸ hk⟩
  refine ⟨fun r' => ?_, fun r' r'' hne p hp => ?_, fun r' k hk => ?_,
    fun r' r'' k hne hk hk' => h.numbers r' r'' k hne (hnumber r' k hk).2 (hnumber r'' k hk').2⟩
  · by_cases hr' : r' = r
    · subst hr'
      rw [hnone.1]
      exact ⟨t.db, rfl⟩
    · rw [hwritten r' hr', insertDeliveries?_isSome_iff, hdeliveries]
      obtain ⟨hold, hpairs⟩ := insertDeliveries?_isSome_iff.1 (h.free r')
      refine ⟨fun x hx d hd => ?_, hpairs⟩
      rcases List.mem_append.1 hx with hx | hx
      · exact hold x hx d hd
      · -- two uncommitted deliveries of different calls
        obtain ⟨p, hp, rfl⟩ := List.mem_map.1 hx
        obtain ⟨p', hp', rfl⟩ := List.mem_map.1 hd
        rw [clashes_eq_false_iff]
        constructor
        · intro hid
          refine h.apart r r' (Ne.symm hr') p (by rw [hs]; exact hp) ?_
          exact List.mem_map.2 ⟨p', hp', Eq.symm hid⟩
        · intro hpair
          have hheld : (s.phase r').holds = true := by
            cases hp'' : s.phase r' with
            | outbox | commit => rfl
            | _ =>
                rw [hp''] at hp'
                cases hp'
          have hclash := hlocks.apart r r' (Ne.symm hr') (by rw [hs]; rfl) hheld
          exact (clash_eq_false_iff.1 hclash).1 hpair.1
  · by_cases hr' : r' = r
    · subst hr'
      rw [hnone.1] at hp
      cases hp
    · rw [hwritten r' hr'] at hp
      by_cases hr'' : r'' = r
      · subst hr''
        rw [hnone.1]
        exact List.not_mem_nil
      · rw [hwritten r'' hr'']
        exact h.apart r' r'' hne p hp
  · obtain ⟨hne, hk⟩ := hnumber r' k hk
    obtain ⟨hlt, hfree⟩ := h.number r' k hk
    refine ⟨lt_of_lt_of_le hlt (next_le_of_publishTx hdb), fun x hx => ?_⟩
    simp only [ne_eq, deliveries_eq_nil_iff] at houtbox
    rcases houtbox with ⟨-, heq⟩ | ⟨hpairs, -, heq⟩
    · rw [heq] at hx
      exact hfree x hx
    · rw [heq, List.mem_append, List.mem_singleton] at hx
      rcases hx with hx | rfl
      · exact hfree x hx
      · intro hid
        have hown : (s.phase r).number? = some k := by
          rw [hs, Phase.number?, if_neg hpairs]
          exact congrArg some hid
        exact h.numbers r' r k hne hk hown

theorem Ready.step {s t : State n} (h : Ready calls s) (hlocks : Locks calls s)
    (he : Effect calls s t) : Ready calls t := by
  cases he with
  | endpoints _ hdeliveries houtbox hphase _ =>
      refine h.of_le hdeliveries houtbox (fun r => .inl ?_) (fun r k hk => ?_)
      · rw [hphase]
      · rwa [hphase] at hk
  | @call r hown hcall =>
      cases hcall with
      | @move q hmove hdb hphase _ =>
          obtain ⟨hnumber, hnil | ⟨-, hwait, hfree⟩⟩ := hmove.written_cases
          · refine h.of_le (by rw [hdb]) (by rw [hdb]) (fun r' => ?_) (fun r' k hk => ?_)
            · rcases phase_cases hphase r' with ⟨-, heq⟩ | ⟨-, heq⟩
              · exact .inr (heq ▸ hnil)
              · exact .inl (by rw [heq])
            · rcases phase_cases hphase r' with ⟨-, heq⟩ | ⟨-, heq⟩
              · rw [heq, hnumber] at hk
                cases hk
              · rwa [heq] at hk
          · exact h.insert hdb hphase hnumber hwait hfree
      | draw hs hdb hphase _ => exact h.draw hs hdb hphase
      | commit hs _ hdb hphase _ => exact h.commit hlocks hs hdb hphase

end Publishing

end HookRelay
