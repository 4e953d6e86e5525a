import HookRelay.Lib.Transition
import HookRelay.Worker.Processor

/-!
# The endpoint cache and a disabled endpoint

`endpoint-cache.ts` in one worker process, for one endpoint: any number of calls of `get`,
each a look into the map, a read of the database and a write of the map, and any number of
runs that disable the endpoint, each with a statement and an `invalidate`.  In between, the
row is changed by others, and time passes.  No endpoint is ever deleted.

* `step` — one step; `State.window` — the endpoint was invalidated after it was disabled, and
  its row has not been set to another status since.  No step reads it.
* `Holds` — what began in the window has returned `DISABLED_AUTO`.
* `Fresh` — nothing old is stored in the window, and what began in it reads the row before it
  is set to another status.
* `returns_disabled_while_fresh` — a fresh run has `Holds`, and a step that is not fresh ends
  it at once.
-/

namespace HookRelay
namespace CacheRace

open Lib

/-- Where a call of `get` stands; `covered` if it began in the window. -/
inductive GetPhase where
  | idle
  /-- Nothing was found in the map; it reads the database. -/
  | reading (covered : Bool)
  /-- It has read the database; it writes the map. -/
  | storing (value : EndpointConfig) (covered : Bool)
  | returned (value : EndpointConfig) (covered : Bool)
  deriving DecidableEq

/-- Where a run that disables the endpoint stands. -/
inductive DisablePhase where
  | idle
  /-- The row is set; the cache is to be invalidated. -/
  | invalidating
  | done
  deriving DecidableEq

variable {G D : Type} [DecidableEq G] [DecidableEq D]

structure State (G D : Type) where
  /-- In milliseconds. -/
  now : ℕ
  row : EndpointRow
  cache : EndpointCache
  gets : G → GetPhase
  disables : D → DisablePhase
  window : Bool

inductive Action (G D : Type) where
  /-- Time passes. -/
  | advance (ms : ℕ)
  /-- A `get` begins: the look into the map. -/
  | lookup (g : G)
  /-- `endpoint.findUnique` -/
  | read (g : G)
  /-- `entries.set` -/
  | store (g : G)
  /-- `endpoint.update` of a run that disables the endpoint. -/
  | disable (d : D)
  /-- Its `invalidate`. -/
  | invalidate (d : D)
  /-- Somebody else changes the row. -/
  | change (url secretEnc : Text) (status : EndpointStatus) (consecutiveFailures : ℕ)

/-- Nothing has begun; the row and the map hold anything. -/
def init (row : EndpointRow) (cache : EndpointCache) : State G D :=
  ⟨0, row, cache, fun _ => .idle, fun _ => .idle, false⟩

/-- The live entry of the endpoint in the map. -/
def State.cached (s : State G D) : Option CacheEntry :=
  (s.cache s.row.id).filter fun entry => decide (entry.expiresAt > s.now)

variable (decrypt : Text → Text)

/-- What `get` makes of the row. -/
def configOf (row : EndpointRow) : EndpointConfig := ⟨row.url, decrypt row.secretEnc, row.status⟩

/-- One step. -/
def step (s : State G D) : Action G D → Option (State G D)
  | .advance ms => some { s with now := s.now + ms }
  | .lookup g =>
      match s.gets g with
      | .idle =>
          match s.cached with
          | some entry =>
              some { s with gets := Function.update s.gets g (.returned entry.value s.window) }
          | none => some { s with gets := Function.update s.gets g (.reading s.window) }
      | _ => none
  | .read g =>
      match s.gets g with
      | .reading covered =>
          some { s with gets := Function.update s.gets g (.storing (configOf decrypt s.row) covered) }
      | _ => none
  | .store g =>
      match s.gets g with
      | .storing value covered =>
          some { s with
            cache := (CacheWrite.set s.row.id ⟨value, s.now + cacheTtlMs⟩).exec s.cache
            gets := Function.update s.gets g (.returned value covered) }
      | _ => none
  | .disable d =>
      match s.disables d with
      | .idle =>
          some { s with
            row := { s.row with
              consecutiveFailures := s.row.consecutiveFailures + 1, status := .disabledAuto }
            disables := Function.update s.disables d .invalidating }
      | _ => none
  | .invalidate d =>
      match s.disables d with
      | .invalidating =>
          some { s with
            cache := (CacheWrite.invalidate s.row.id).exec s.cache
            disables := Function.update s.disables d .done
            window := decide (s.row.status = .disabledAuto) }
      | _ => none
  | .change url secretEnc status n =>
      some { s with
        row := { s.row with
          url := url, secretEnc := secretEnc, status := status, consecutiveFailures := n }
        window := s.window && decide (status = .disabledAuto) }

/-- Every `get` that began in the window and has returned gave `DISABLED_AUTO`. -/
def Holds (s : State G D) : Prop :=
  ∀ g value, s.gets g = .returned value true → value.status = .disabledAuto

/-- In the window nothing is stored that was read before the endpoint was disabled, and what
began in the window reads a row that is still disabled. -/
def Fresh (s : State G D) : Action G D → Prop
  | .store g => s.window = true →
      ∀ value covered, s.gets g = .storing value covered → value.status = .disabledAuto
  | .read g => s.gets g = .reading true → s.row.status = .disabledAuto
  | _ => True

/-- What is known of a get: if it began in the window, it has `DISABLED_AUTO` in its hands. -/
def GetPhase.Known : GetPhase → Prop
  | .idle | .reading _ => True
  | .storing value covered | .returned value covered =>
      covered = true → value.status = .disabledAuto

/-- What is known in a fresh run. -/
structure Inv (s : State G D) : Prop where
  row : s.window = true → s.row.status = .disabledAuto
  cache : s.window = true → ∀ entry ∈ s.cache s.row.id, entry.value.status = .disabledAuto
  gets : ∀ g, (s.gets g).Known

variable {decrypt} {s s' : State G D} {a : Action G D} {row : EndpointRow} {cache : EndpointCache}

omit [DecidableEq G] [DecidableEq D] in
theorem inv_init (row : EndpointRow) (cache : EndpointCache) :
    Inv (init row cache : State G D) where
  row := by rintro ⟨⟩
  cache := by rintro ⟨⟩
  gets := fun _ => trivial

omit [DecidableEq G] [DecidableEq D] in
theorem Inv.holds (h : Inv s) : Holds s := by
  intro g value hg
  have hknown := h.gets g
  rw [hg] at hknown
  exact hknown rfl

omit [DecidableEq D] in
/-- Moving one get keeps what is known of the gets in a phase, if it is known of this one. -/
theorem forall_update {Q : GetPhase → Prop} {g : G} {p : GetPhase}
    (h : ∀ x, Q (s.gets x)) (hp : Q p) (x : G) : Q (Function.update s.gets g p x) := by
  by_cases hxg : x = g
  · rw [hxg, Function.update_self]
    exact hp
  · rw [Function.update_of_ne hxg]
    exact h x

omit [DecidableEq G] [DecidableEq D] in
/-- What a look into the map finds in the window. -/
theorem Inv.cached (h : Inv s) (hw : s.window = true) {entry : CacheEntry}
    (he : s.cached = some entry) : entry.value.status = .disabledAuto :=
  h.cache hw entry (Option.filter_eq_some_iff.1 he).1

/-- One fresh step. -/
theorem step_inv (h : Inv s) (hf : Fresh s a) (hs : step decrypt s a = some s') : Inv s' := by
  cases a with
  | advance ms =>
      cases hs
      exact ⟨h.row, h.cache, h.gets⟩
  | lookup g =>
      simp only [step] at hs
      split at hs
      · split at hs
        · rename_i entry hentry
          cases hs
          exact ⟨h.row, h.cache, forall_update h.gets fun hw => h.cached hw hentry⟩
        · cases hs
          exact ⟨h.row, h.cache, forall_update h.gets trivial⟩
      · cases hs
  | read g =>
      simp only [step] at hs
      split at hs
      · rename_i covered hg
        cases hs
        refine ⟨h.row, h.cache, forall_update h.gets fun hc => ?_⟩
        rw [hc] at hg
        exact hf hg
      · cases hs
  | store g =>
      simp only [step] at hs
      split at hs
      · rename_i value covered hg
        cases hs
        have hvalue := h.gets g
        rw [hg] at hvalue
        refine ⟨h.row, fun hw entry hentry => ?_, forall_update h.gets hvalue⟩
        simp only [CacheWrite.exec, Function.update_self, Option.mem_def, Option.some.injEq]
          at hentry
        subst hentry
        exact hf hw value covered hg
      · cases hs
  | disable d =>
      simp only [step] at hs
      split at hs
      · cases hs
        exact ⟨fun _ => rfl, h.cache, h.gets⟩
      · cases hs
  | invalidate d =>
      simp only [step] at hs
      split at hs
      · cases hs
        refine ⟨fun hw => of_decide_eq_true hw, fun _ entry hentry => ?_, h.gets⟩
        simp [CacheWrite.exec] at hentry
      · cases hs
  | change url secretEnc status n =>
      cases hs
      refine ⟨fun hw => ?_, fun hw => ?_, h.gets⟩
      · exact of_decide_eq_true (Bool.and_eq_true_iff.1 hw).2
      · exact h.cache (Bool.and_eq_true_iff.1 hw).1

/-- Every fresh run. -/
theorem inv_of_fresh (h : Path (step decrypt) Fresh (init row cache : State G D) s) : Inv s :=
  h.invariant (fun _ _ _ => step_inv) (inv_init row cache)

/-! ## Why the condition is needed -/

/-- A get that finds a live entry. -/
theorem step_lookup_of_cached {s : State G D} {g : G} {e : CacheEntry}
    (hidle : s.gets g = .idle) (he : s.cached = some e) :
    step decrypt s (.lookup g) =
      some { s with gets := Function.update s.gets g (.returned e.value s.window) } := by
  simp only [step, hidle, he]

/-- A late store: the next get returns what was read before the endpoint was disabled. -/
theorem not_holds_of_store {s s' : State G D} {g g' : G} (hidle : s.gets g' = .idle)
    (hf : ¬ Fresh s (.store g)) (hs : step decrypt s (.store g) = some s') :
    ∃ s'', step decrypt s' (.lookup g') = some s'' ∧ ¬ Holds s'' := by
  simp only [step] at hs
  split at hs
  · rename_i value covered hg
    have hne : g' ≠ g := by
      rintro rfl
      rw [hidle] at hg
      cases hg
    have hstale : s.window = true ∧ value.status ≠ .disabledAuto := by
      simpa [Fresh, hg] using hf
    cases hs
    -- what is stored now lives for another thirty seconds
    refine ⟨_, step_lookup_of_cached (e := ⟨value, s.now + cacheTtlMs⟩) ?_ ?_, fun hholds => ?_⟩
    · exact (Function.update_of_ne hne _ _).trans hidle
    · simp [State.cached, CacheWrite.exec, cacheTtlMs]
    · exact hstale.2 (hholds g' value (by simp [hstale.1]))
  · cases hs

/-- A get that began in the window and reads the row after it was set to another status. -/
theorem not_holds_of_read {s s' s'' : State G D} {g : G} (hf : ¬ Fresh s (.read g))
    (hs : step decrypt s (.read g) = some s') (hs' : step decrypt s' (.store g) = some s'') :
    ¬ Holds s'' := by
  have hstale : s.gets g = .reading true ∧ s.row.status ≠ .disabledAuto := by
    simpa [Fresh] using hf
  simp only [step, hstale.1, Option.some.injEq] at hs
  subst hs
  simp only [step, Function.update_self, Option.some.injEq] at hs'
  subst hs'
  intro hholds
  exact hstale.2 (hholds g _ (Function.update_self g _ _))

/-! ## The results -/

/-- **A disabled endpoint in the cache.**  In a fresh run every get that begins after the
endpoint was invalidated, and before its row is set to another status, returns
`DISABLED_AUTO`.  After a store that is not fresh the next get returns another status, and a
read that is not fresh returns another status itself. -/
theorem returns_disabled_while_fresh (decrypt : Text → Text) (row : EndpointRow)
    (cache : EndpointCache) :
    (∀ s : State G D, Path (step decrypt) Fresh (init row cache) s → Holds s) ∧
    (∀ (s s' : State G D) (g g' : G), s.gets g' = .idle → ¬ Fresh s (.store g) →
      step decrypt s (.store g) = some s' →
      ∃ s'', step decrypt s' (.lookup g') = some s'' ∧ ¬ Holds s'') ∧
    ∀ (s s' s'' : State G D) (g : G), ¬ Fresh s (.read g) → step decrypt s (.read g) = some s' →
      step decrypt s' (.store g) = some s'' → ¬ Holds s'' :=
  ⟨fun _ h => (inv_of_fresh h).holds,
    fun _ _ _ _ => not_holds_of_store,
    fun _ _ _ _ => not_holds_of_read⟩

namespace Sample

/-- `Fresh`, computed. -/
def isFresh (s : State ℕ ℕ) : Action ℕ ℕ → Bool
  | .store g => !s.window || match s.gets g with
    | .storing value _ => decide (value.status = .disabledAuto)
    | _ => true
  | .read g => decide (s.gets g ≠ .reading true) || decide (s.row.status = .disabledAuto)
  | _ => true

theorem isFresh_sound {s : State ℕ ℕ} {a : Action ℕ ℕ} (h : isFresh s a = true) : Fresh s a := by
  cases a with
  | store g =>
      intro hw value covered hg
      simpa [isFresh, hw, hg] using h
  | read g =>
      intro hg
      simpa [isFresh, hg] using h
  | _ => trivial

def endpointRow : EndpointRow :=
  { id := .ofNat 2, tenantId := .ofNat 1, url := "https://a/".toList, secretEnc := "s".toList
    status := .active, description := none, consecutiveFailures := 9, createdAt := 0
    updatedAt := 0 }

/-- Get `g` returned a status, and began in the window. -/
def returned (g : ℕ) (status : EndpointStatus) (s : State ℕ ℕ) : Bool :=
  match s.gets g with
  | .returned value covered => covered && decide (value.status = status)
  | _ => false

theorem returned_eq_true {g : ℕ} {status : EndpointStatus} {s : State ℕ ℕ}
    (h : returned g status s = true) :
    ∃ value, s.gets g = .returned value true ∧ value.status = status := by
  simp only [returned] at h
  split at h
  · rename_i value covered hg
    rw [Bool.and_eq_true, decide_eq_true_eq] at h
    exact ⟨value, by rw [hg, h.1], h.2⟩
  · cases h

/-- Get `0` fills the map before the endpoint is disabled, and get `1` begins afterwards. -/
def inTurn : List (Action ℕ ℕ) :=
  [.lookup 0, .read 0, .store 0, .disable 0, .invalidate 0, .lookup 1, .read 1, .store 1]

/-- Get `0` reads the database before the endpoint is disabled and stores a second after it;
get `1` begins just before the entry expires. -/
def lateStore : List (Action ℕ ℕ) :=
  [.lookup 0, .read 0, .disable 0, .invalidate 0, .advance 1000, .store 0, .advance 29999,
    .lookup 1]

end Sample

/-- At a run whose second get begins after the endpoint was disabled. -/
theorem returns_disabled_while_fresh_in_turn : ∃ s : State ℕ ℕ,
    Path (step id) Fresh (init Sample.endpointRow fun _ => none) s ∧
    Sample.returned 1 .disabledAuto s = true ∧ Holds s := by
  obtain ⟨s, hpath, hs⟩ := Path.exists_of_runChecked (step id) (p := Sample.isFresh)
    (fun s a => Sample.isFresh_sound) (init Sample.endpointRow fun _ => none)
    Sample.inTurn (Sample.returned 1 .disabledAuto) (by decide +kernel)
  exact ⟨s, hpath, hs, (returns_disabled_while_fresh id Sample.endpointRow _).1 s hpath⟩

/-- The status from before the endpoint was disabled is returned thirty seconds after the row
was set to another one. -/
theorem active_returned_after_invalidate :
    ¬ (∀ (row : EndpointRow) (cache : EndpointCache) (s : State ℕ ℕ),
      Reachable (step id) (init row cache) s → Holds s) ∧
    ∃ s : State ℕ ℕ, Reachable (step id) (init Sample.endpointRow fun _ => none) s ∧
      s.row.status = .disabledAuto ∧ s.now = 30999 ∧ Sample.returned 1 .active s = true := by
  obtain ⟨s, hpath, hs⟩ := Path.exists_of_runChecked (step id)
    (p := fun _ _ => true) (P := anyAction) (fun s a _ => trivial)
    (init Sample.endpointRow fun _ => none) Sample.lateStore
    (fun s => decide (s.row.status = .disabledAuto ∧ s.now = 30999) &&
      Sample.returned 1 .active s) (by decide +kernel)
  rw [Bool.and_eq_true, decide_eq_true_eq] at hs
  refine ⟨fun h => ?_, s, hpath, hs.1.1, hs.1.2, hs.2⟩
  obtain ⟨value, hg, hvalue⟩ := Sample.returned_eq_true hs.2
  have hdisabled := h _ _ s hpath 1 value hg
  rw [hvalue] at hdisabled
  cases hdisabled

end CacheRace

end HookRelay
