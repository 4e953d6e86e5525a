import HookRelay.Worker.Circuit

/-!
# The circuit breaker and its history

What the snapshot says about the calls that led to it.  The transitions of `circuit.ts`
are applied one after another from `EMPTY_CIRCUIT`, each to the `next` of the one before.

* `replay` — the snapshot after a list of calls, the latest first.
* `failuresSince`, `lastFailure` — what the history says: how many failures there were
  since the last success, and when the last one was.
* `Matches` — the snapshot and the history agree; `matches_replay` says they always do.
* `replay_eq_history` — count, state, refusals and the signal to disable, by the history.

A half-open circuit still has the time at which it opened, and answers every attempt with
yes: that is right because it became half-open by an attempt after the cooldown.
-/

namespace HookRelay
namespace Circuit

/-- A transition of the circuit. -/
inductive Transition where
  | decideAttempt | onSuccess | onFailure
  deriving DecidableEq, Repr

/-- A transition, and when it was made. -/
structure Timed where
  time : ℕ
  transition : Transition
  deriving DecidableEq

/-- The snapshot that a transition leaves. -/
def next (cfg : CircuitConfig) (c : CircuitSnapshot) (call : Timed) : CircuitSnapshot :=
  match call.transition with
  | .decideAttempt => (decideAttempt c call.time cfg).2
  | .onSuccess => onSuccess
  | .onFailure => (onFailure c call.time cfg).1

/-- The snapshot after these calls, the latest first. -/
def replay (cfg : CircuitConfig) : List Timed → CircuitSnapshot
  | [] => empty
  | call :: calls => next cfg (replay cfg calls) call

/-! ## What the history says -/

/-- How many calls of `onFailure` there were since the last `onSuccess`. -/
def failuresSince (calls : List Timed) : ℕ :=
  (calls.takeWhile fun call => call.transition ≠ .onSuccess).countP fun call =>
    call.transition = .onFailure

/-- When `onFailure` was called last. -/
def lastFailure (calls : List Timed) : Option ℕ :=
  (calls.find? fun call => call.transition = .onFailure).map Timed.time

variable {cfg : CircuitConfig} {calls : List Timed} {t now : ℕ}

@[simp] theorem failuresSince_nil : failuresSince [] = 0 := rfl

@[simp] theorem failuresSince_decideAttempt :
    failuresSince (⟨t, .decideAttempt⟩ :: calls) = failuresSince calls := by
  simp [failuresSince]

@[simp] theorem failuresSince_onSuccess : failuresSince (⟨t, .onSuccess⟩ :: calls) = 0 := by
  simp [failuresSince]

@[simp] theorem failuresSince_onFailure :
    failuresSince (⟨t, .onFailure⟩ :: calls) = failuresSince calls + 1 := by
  simp [failuresSince]

@[simp] theorem lastFailure_decideAttempt :
    lastFailure (⟨t, .decideAttempt⟩ :: calls) = lastFailure calls := by
  simp [lastFailure]

@[simp] theorem lastFailure_onFailure : lastFailure (⟨t, .onFailure⟩ :: calls) = some t := by
  simp [lastFailure]

/-! ## The snapshot agrees with it -/

/-- What a snapshot has to say about the calls that led to it. -/
structure Matches (cfg : CircuitConfig) (calls : List Timed) (c : CircuitSnapshot) : Prop where
  failures : c.failures = failuresSince calls
  closed_iff : c.state = .closed ↔ (failuresSince calls : ℤ) < cfg.openAfter
  /-- A circuit that is not closed remembers the last failure. -/
  openedAt : c.state ≠ .closed → lastFailure calls = some c.openedAt
  /-- A half-open circuit had cooled down when an attempt was decided. -/
  cooled : c.state = .halfOpen → ∃ call ∈ calls, (c.openedAt : ℤ) + cfg.cooldownMs ≤ call.time

theorem matches_empty (hopen : 1 ≤ cfg.openAfter) : Matches cfg [] empty where
  failures := rfl
  closed_iff := ⟨fun _ => lt_of_lt_of_le zero_lt_one hopen, fun _ => rfl⟩
  openedAt := fun h => absurd rfl h
  cooled := by rintro ⟨⟩

variable {c : CircuitSnapshot}

theorem Matches.decideAttempt (h : Matches cfg calls c) :
    Matches cfg (⟨now, .decideAttempt⟩ :: calls) (decideAttempt c now cfg).2 := by
  obtain ⟨state, failures, openedAt⟩ := c
  have hopened := h.openedAt
  have hcooled := h.cooled
  have hclosed := h.closed_iff
  have hweaken : (∃ call ∈ calls, (openedAt : ℤ) + cfg.cooldownMs ≤ call.time) →
      ∃ call ∈ (⟨now, .decideAttempt⟩ : Timed) :: calls,
        (openedAt : ℤ) + cfg.cooldownMs ≤ call.time := by
    rintro ⟨call, hmem, hle⟩
    exact ⟨call, List.mem_cons_of_mem _ hmem, hle⟩
  cases state with
  | closed =>
      refine ⟨?_, ?_, fun hne => absurd rfl hne, by rintro ⟨⟩⟩
      · rw [failuresSince_decideAttempt]; exact h.failures
      · rw [failuresSince_decideAttempt]; exact hclosed
  | halfOpen =>
      refine ⟨?_, ?_, fun hne => ?_, fun hh => hweaken (hcooled hh)⟩
      · rw [failuresSince_decideAttempt]; exact h.failures
      · rw [failuresSince_decideAttempt]; exact hclosed
      · rw [lastFailure_decideAttempt]; exact hopened hne
  | opened =>
      have hlast : lastFailure calls = some openedAt := hopened (by simp)
      have hmany : ¬ ((failuresSince calls : ℤ) < cfg.openAfter) := fun hlt =>
        absurd (hclosed.2 hlt) (by simp)
      rw [Circuit.decideAttempt]
      simp only
      split_ifs with hnow
      · refine ⟨?_, ?_, fun _ => ?_, by rintro ⟨⟩⟩
        · rw [failuresSince_decideAttempt]; exact h.failures
        · rw [failuresSince_decideAttempt]; exact hclosed
        · rw [lastFailure_decideAttempt]; exact hlast
      · -- the cooldown is over: this very call shows it
        refine ⟨?_, ?_, fun _ => ?_, fun _ => ⟨_, List.mem_cons_self, not_lt.1 hnow⟩⟩
        · rw [failuresSince_decideAttempt]; exact h.failures
        · rw [failuresSince_decideAttempt]; simpa using hmany
        · rw [lastFailure_decideAttempt]; exact hlast

theorem Matches.onSuccess (hopen : 1 ≤ cfg.openAfter) :
    Matches cfg (⟨now, .onSuccess⟩ :: calls) onSuccess where
  failures := by rw [failuresSince_onSuccess]; rfl
  closed_iff := by
    rw [failuresSince_onSuccess]
    exact ⟨fun _ => lt_of_lt_of_le zero_lt_one hopen, fun _ => rfl⟩
  openedAt := fun h => absurd rfl h
  cooled := by rintro ⟨⟩

theorem Matches.onFailure (h : Matches cfg calls c) :
    Matches cfg (⟨now, .onFailure⟩ :: calls) (onFailure c now cfg).1 where
  failures := by rw [onFailure_failures, failuresSince_onFailure, h.failures]
  closed_iff := by
    rw [onFailure_state, failuresSince_onFailure, h.failures]
    split_ifs with hle
    · simpa using hle
    · simpa using hle
  openedAt := by
    rw [onFailure_state, lastFailure_onFailure]
    intro hne
    have hle : cfg.openAfter ≤ ((c.failures + 1 : ℕ) : ℤ) := by
      by_contra hlt
      exact hne (if_neg hlt)
    rw [onFailure_openedAt hle]
  cooled := by
    rw [onFailure_state]
    split_ifs
    · rintro ⟨⟩
    · rintro ⟨⟩

/-- **The snapshot never loses track of the history.** -/
theorem matches_replay (hopen : 1 ≤ cfg.openAfter) (calls : List Timed) :
    Matches cfg calls (replay cfg calls) := by
  induction calls with
  | nil => exact matches_empty hopen
  | cons call calls ih =>
      obtain ⟨time, transition⟩ := call
      cases transition with
      | decideAttempt => exact ih.decideAttempt
      | onSuccess => exact Matches.onSuccess hopen
      | onFailure => exact ih.onFailure

/-- An attempt is refused while a circuit with enough failures is cooling down. -/
theorem Matches.refuses_iff (h : Matches cfg calls c) (hnow : ∀ call ∈ calls, call.time ≤ now) :
    (Circuit.decideAttempt c now cfg).1 = false ↔
      cfg.openAfter ≤ (failuresSince calls : ℤ) ∧
        ∃ t ∈ lastFailure calls, (now : ℤ) < t + cfg.cooldownMs := by
  have hopened := h.openedAt
  have hcooled := h.cooled
  rw [← not_lt, ← h.closed_iff]
  obtain ⟨state, failures, openedAt⟩ := c
  cases state with
  | closed => simp [Circuit.decideAttempt]
  | opened =>
      have hlast : lastFailure calls = some openedAt := hopened (by simp)
      by_cases hlt : (now : ℤ) < openedAt + cfg.cooldownMs
      · simp [Circuit.decideAttempt, hlast, hlt]
      · simp [Circuit.decideAttempt, hlast, hlt]
  | halfOpen =>
      have hlast : lastFailure calls = some openedAt := hopened (by simp)
      obtain ⟨call, hmem, hle⟩ := hcooled rfl
      have hover : ¬ (now : ℤ) < openedAt + cfg.cooldownMs :=
        not_lt.2 (le_trans hle (Int.ofNat_le.2 (hnow call hmem)))
      simp [Circuit.decideAttempt, hlast, hover]

/-- **The circuit breaker is its history.**  After any calls, and at any time that none of
them is after, the count is that of the failures since the last success, the circuit is
closed as long as these are fewer than `openAfter`, an attempt is refused exactly when they
are not and the last one is less than `cooldownMs` ago, and the next failure asks for the
endpoint to be disabled exactly when it brings the count to `disableAfter`. -/
theorem replay_eq_history (cfg : CircuitConfig) (hopen : 1 ≤ cfg.openAfter)
    (calls : List Timed) :
    (replay cfg calls).failures = failuresSince calls ∧
    ((replay cfg calls).state = .closed ↔ (failuresSince calls : ℤ) < cfg.openAfter) ∧
    ∀ now, (∀ call ∈ calls, call.time ≤ now) →
      ((decideAttempt (replay cfg calls) now cfg).1 = false ↔
        cfg.openAfter ≤ (failuresSince calls : ℤ) ∧
          ∃ t ∈ lastFailure calls, (now : ℤ) < t + cfg.cooldownMs) ∧
      ((onFailure (replay cfg calls) now cfg).2 = true ↔
        cfg.disableAfter ≤ ((failuresSince calls + 1 : ℕ) : ℤ)) := by
  have h := matches_replay hopen calls
  refine ⟨h.failures, h.closed_iff, fun now hnow => ⟨h.refuses_iff hnow, ?_⟩⟩
  rw [onFailure_disable, decide_eq_true_eq, h.failures]

/-- At the defaults: the tenth failure at `1000`, and a probe after the cooldown. -/
theorem replay_eq_history_at_defaults :
    failuresSince (⟨301000, .decideAttempt⟩ :: List.replicate 10 ⟨1000, .onFailure⟩) = 10 ∧
    (replay defaults (⟨301000, .decideAttempt⟩ :: List.replicate 10 ⟨1000, .onFailure⟩)).failures =
      failuresSince (⟨301000, .decideAttempt⟩ :: List.replicate 10 ⟨1000, .onFailure⟩) :=
  ⟨by decide, (replay_eq_history defaults (by decide) _).1⟩

end Circuit

end HookRelay
