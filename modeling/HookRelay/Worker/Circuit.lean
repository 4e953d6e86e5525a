import Mathlib.Tactic

/-!
# The circuit breaker

`circuit.ts` and `circuit.store.ts`: the circuit of an endpoint is a snapshot in Redis,
shared by all workers, and beside it a key that the one probe of a half-open circuit
holds.

* `decideAttempt`, `onSuccess`, `onFailure` — the transitions.
* `Keys` — the two keys of an endpoint, with the commands the store sends.
* `allow`, `success`, `failure` — the calls of the store, each run without a break.

Times are in milliseconds.
-/

namespace HookRelay

inductive CircuitState where
  | closed | opened | halfOpen
  deriving DecidableEq, Repr

structure CircuitSnapshot where
  state : CircuitState
  failures : ℕ
  openedAt : ℕ
  deriving DecidableEq, Repr

/-- The configuration: `HR_CIRCUIT_OPEN_AFTER`, `HR_CIRCUIT_COOLDOWN_MS` and
`HR_CIRCUIT_DISABLE_AFTER`. -/
structure CircuitConfig where
  openAfter : ℤ
  cooldownMs : ℤ
  disableAfter : ℤ

namespace Circuit

/-- `CIRCUIT_DEFAULTS`. -/
def defaults : CircuitConfig := ⟨10, 5 * 60 * 1000, 50⟩

/-- `EMPTY_CIRCUIT`. -/
def empty : CircuitSnapshot := ⟨.closed, 0, 0⟩

/-- `decideAttempt`: whether to go on, and the snapshot to go on with. -/
def decideAttempt (snapshot : CircuitSnapshot) (now : ℕ) (cfg : CircuitConfig) :
    Bool × CircuitSnapshot :=
  match snapshot.state with
  | .closed => (true, snapshot)
  | .opened =>
      if (now : ℤ) < snapshot.openedAt + cfg.cooldownMs then (false, snapshot)
      else (true, { snapshot with state := .halfOpen })
  | .halfOpen => (true, snapshot)

/-- `onSuccess`. -/
def onSuccess : CircuitSnapshot := empty

/-- `onFailure`: the next snapshot, and whether the endpoint is to be disabled. -/
def onFailure (snapshot : CircuitSnapshot) (now : ℕ) (cfg : CircuitConfig) :
    CircuitSnapshot × Bool :=
  let failures := snapshot.failures + 1
  let disable := decide (cfg.disableAfter ≤ (failures : ℤ))
  if cfg.openAfter ≤ (failures : ℤ) then (⟨.opened, failures, now⟩, disable)
  else (⟨.closed, failures, 0⟩, disable)

/-! ## The keys of an endpoint -/

/-- The snapshot, and the time the probe key expires. -/
structure Keys where
  snapshot : Option CircuitSnapshot
  probe : Option ℕ
  deriving DecidableEq

/-- `PROBE_TTL_SEC`, in milliseconds. -/
def probeTtlMs : ℕ := 30 * 1000

namespace Keys

def init : Keys := ⟨none, none⟩

/-- `read`. -/
def read (k : Keys) : CircuitSnapshot := k.snapshot.getD empty

/-- `write`. -/
def write (k : Keys) (snapshot : CircuitSnapshot) : Keys := { k with snapshot := some snapshot }

/-- The probe key is there. -/
def probeTaken (k : Keys) (now : ℕ) : Bool := k.probe.any fun t => now < t

/-- `SET probeKey 1 EX PROBE_TTL_SEC NX`; `none` when somebody else holds the key. -/
def setNx (k : Keys) (now : ℕ) : Option Keys :=
  if k.probeTaken now then none else some { k with probe := some (now + probeTtlMs) }

/-- `DEL probeKey`. -/
def delProbe (k : Keys) : Keys := { k with probe := none }

@[simp] theorem read_write (k : Keys) (c : CircuitSnapshot) : (k.write c).read = c := rfl

@[simp] theorem read_delProbe (k : Keys) : k.delProbe.read = k.read := rfl

@[simp] theorem probe_write (k : Keys) (c : CircuitSnapshot) : (k.write c).probe = k.probe := rfl

@[simp] theorem probe_delProbe (k : Keys) : k.delProbe.probe = none := rfl

theorem setNx_eq_some {k k' : Keys} {now : ℕ} (h : k.setNx now = some k') :
    (∀ t ∈ k.probe, t ≤ now) ∧ k' = { k with probe := some (now + probeTtlMs) } := by
  unfold setNx at h
  split_ifs at h with ht
  cases h
  refine ⟨fun t hp => ?_, rfl⟩
  by_contra hlt
  exact ht ((Option.any_eq_true _ _).2 ⟨t, hp, by simpa using hlt⟩)

end Keys

/-! ## The calls of the store -/

/-- `allow`. -/
def allow (cfg : CircuitConfig) (k : Keys) (now : ℕ) : Bool × Keys :=
  let (allow, next) := decideAttempt k.read now cfg
  if allow then
    if next.state = .halfOpen then
      match k.setNx now with
      | none => (false, k)
      | some k => (true, k.write next)
    else (true, k)
  else (false, k)

/-- `success`. -/
def success (k : Keys) : Keys := (k.write onSuccess).delProbe

/-- `failure`: whether to disable the endpoint, the count, and the keys afterwards. -/
def failure (cfg : CircuitConfig) (k : Keys) (now : ℕ) : Bool × ℕ × Keys :=
  let (next, disable) := onFailure k.read now cfg
  (disable, next.failures, (k.write next).delProbe)

/-! ## What the transitions do -/

variable {cfg : CircuitConfig} {c : CircuitSnapshot} {now : ℕ}

/-- A circuit that lets a probe through is half-open, or open and cooled down; the count of
failures stays. -/
theorem decideAttempt_halfOpen (h : (decideAttempt c now cfg).1 = true)
    (hh : (decideAttempt c now cfg).2.state = .halfOpen) :
    (decideAttempt c now cfg).2 = { c with state := .halfOpen } ∧
    (c.state = .halfOpen ∨ c.state = .opened ∧ c.openedAt + cfg.cooldownMs ≤ now) := by
  obtain ⟨state, failures, openedAt⟩ := c
  cases state with
  | closed => exact absurd hh (by simp [decideAttempt])
  | opened =>
      simp only [decideAttempt] at h ⊢
      split_ifs at h ⊢ with hc
      exact ⟨rfl, .inr ⟨trivial, not_lt.1 hc⟩⟩
  | halfOpen => exact ⟨rfl, .inl rfl⟩

/-- A circuit that lets everything through is closed. -/
theorem decideAttempt_closed (h : (decideAttempt c now cfg).1 = true)
    (hh : (decideAttempt c now cfg).2.state ≠ .halfOpen) : c.state = .closed := by
  unfold decideAttempt at h hh
  cases hs : c.state with
  | closed => rfl
  | opened =>
      rw [hs] at h hh
      simp only at h hh
      split_ifs at h hh
      exact absurd rfl hh
  | halfOpen =>
      rw [hs] at hh
      exact absurd hs hh

@[simp] theorem onFailure_failures :
    (onFailure c now cfg).1.failures = c.failures + 1 := by
  unfold onFailure
  simp only
  split_ifs <;> rfl

/-- A failure opens the circuit when the count has come to `openAfter`, and leaves it
closed otherwise. -/
theorem onFailure_state :
    (onFailure c now cfg).1.state =
      if cfg.openAfter ≤ ((c.failures + 1 : ℕ) : ℤ) then .opened else .closed := by
  unfold onFailure
  simp only
  split_ifs <;> rfl

theorem onFailure_openedAt (h : cfg.openAfter ≤ ((c.failures + 1 : ℕ) : ℤ)) :
    (onFailure c now cfg).1.openedAt = now := by
  unfold onFailure
  simp only
  rw [if_pos h]

@[simp] theorem onFailure_disable :
    (onFailure c now cfg).2 = decide (cfg.disableAfter ≤ ((c.failures + 1 : ℕ) : ℤ)) := by
  unfold onFailure
  simp only
  split_ifs <;> rfl

/-- `allow` leaves the count of failures. -/
theorem allow_failures (k : Keys) : (allow cfg k now).2.read.failures = k.read.failures := by
  unfold allow
  simp only
  split_ifs with h hh
  · cases hn : k.setNx now with
    | none => rfl
    | some k' =>
        simp only [Keys.read_write]
        rw [(decideAttempt_halfOpen h hh).1]
  · rfl
  · rfl

end Circuit

end HookRelay
