import HookRelay.Lib.Transition
import HookRelay.Worker.Circuit

/-!
# Calls on the circuit of an endpoint, interleaved

Any number of workers call `allow`, `success` and `failure` for one endpoint.  Each Redis
command of a call is a step of its own, and the calls of other workers fall between them
in any order; a call on another endpoint touches other keys.  Redis does not fail, and
all workers read the same clock.

* `Call` — where a worker stands: the command that comes next, with the local variables
  that are still alive.
* `step` — one step; `commanded` — what one command does.
* `State.grants`, `State.reports` — the times at which probes were let through since the
  last recorded success, and the number of failures reported: they are read by no step.

* `no_failure_lost` — the stored count is the number of reported failures exactly in the runs
  in which every `SET` finds the count its `GET` read.
-/

namespace HookRelay
namespace Circuit

open Lib

/-- What a worker is about to do.  An attempt that was let through as a probe carries the
time it won the probe key. -/
inductive Call where
  | idle
  /-- `allow`: `GET`.  `now` was read when the call began. -/
  | allowGet (now : ℕ)
  /-- `allow`: `SET NX` -/
  | allowNx (now : ℕ) (current next : CircuitSnapshot)
  /-- `allow`: `SET` -/
  | allowSet (next : CircuitSnapshot) (wonAt : ℕ)
  /-- The attempt is let through and under way. -/
  | attempting (probe : Option ℕ)
  /-- `success`: `SET` -/
  | successSet (probe : Option ℕ)
  /-- `success`: `DEL` -/
  | successDel (probe : Option ℕ)
  /-- `failure`: `GET`.  `now` was read when the call began. -/
  | failureGet (now : ℕ) (probe : Option ℕ)
  /-- `failure`: `SET` -/
  | failureSet (next : CircuitSnapshot) (probe : Option ℕ)
  /-- `failure`: `DEL` -/
  | failureDel (probe : Option ℕ)
  deriving DecidableEq

variable {W : Type} [DecidableEq W]

structure State (W : Type) where
  now : ℕ
  keys : Keys
  calls : W → Call
  /-- When probes were let through since the last recorded success, the latest first. -/
  grants : List ℕ
  /-- How many failures have been reported. -/
  reports : ℕ

def init : State W := ⟨0, .init, fun _ => .idle, [], 0⟩

inductive Action (W : Type) where
  /-- Time passes. -/
  | advance (ms : ℕ)
  /-- A worker calls `allow`. -/
  | allow (w : W)
  /-- A worker reports the attempt it was let through for. -/
  | report (w : W) (ok : Bool)
  /-- A worker's call sends its next command. -/
  | command (w : W)
  deriving DecidableEq

/-- Put a worker where it stands after a step. -/
def State.put (s : State W) (w : W) (call : Call) : State W :=
  { s with calls := Function.update s.calls w call }

/-- The `GET` of `allow`. -/
def allowGot (cfg : CircuitConfig) (current : CircuitSnapshot) (now : ℕ) : Call :=
  let (allow, next) := decideAttempt current now cfg
  if allow then
    if next.state = .halfOpen then .allowNx now current next else .attempting none
  else .idle

/-- One command of a call. -/
def commanded (cfg : CircuitConfig) (s : State W) (w : W) : Call → Option (State W)
  | .idle | .attempting _ => none
  | .allowGet now => some (s.put w (allowGot cfg s.keys.read now))
  | .allowNx _ _ next =>
      match s.keys.setNx s.now with
      | none => some (s.put w .idle)
      | some keys => some ({ s with keys := keys }.put w (.allowSet next s.now))
  | .allowSet next wonAt =>
      some ({ s with keys := s.keys.write next, grants := s.now :: s.grants }.put w
        (.attempting (some wonAt)))
  | .successSet probe =>
      some ({ s with keys := s.keys.write onSuccess, grants := [] }.put w (.successDel probe))
  | .successDel _ => some ({ s with keys := s.keys.delProbe }.put w .idle)
  | .failureGet now probe =>
      some (s.put w (.failureSet (onFailure s.keys.read now cfg).1 probe))
  | .failureSet next probe =>
      some ({ s with keys := s.keys.write next, reports := s.reports + 1 }.put w
        (.failureDel probe))
  | .failureDel _ => some ({ s with keys := s.keys.delProbe }.put w .idle)

/-- One step. -/
def step (cfg : CircuitConfig) (s : State W) : Action W → Option (State W)
  | .advance ms => some { s with now := s.now + ms }
  | .allow w =>
      match s.calls w with
      | .idle => some (s.put w (.allowGet s.now))
      | _ => none
  | .report w ok =>
      match s.calls w with
      | .attempting probe =>
          some (s.put w (if ok then .successSet probe else .failureGet s.now probe))
      | _ => none
  | .command w => commanded cfg s w (s.calls w)

/-! ## What a step can be -/

/-- The steps, one by one. -/
inductive Stepped (cfg : CircuitConfig) (s : State W) : Action W → State W → Prop
  | advance (ms : ℕ) : Stepped cfg s (.advance ms) { s with now := s.now + ms }
  | allow (w : W) : s.calls w = .idle → Stepped cfg s (.allow w) (s.put w (.allowGet s.now))
  | reportOk (w : W) (probe : Option ℕ) : s.calls w = .attempting probe →
      Stepped cfg s (.report w true) (s.put w (.successSet probe))
  | reportFailed (w : W) (probe : Option ℕ) : s.calls w = .attempting probe →
      Stepped cfg s (.report w false) (s.put w (.failureGet s.now probe))
  | refused (w : W) (now : ℕ) : s.calls w = .allowGet now →
      Stepped cfg s (.command w) (s.put w .idle)
  | probing (w : W) (now : ℕ) : s.calls w = .allowGet now →
      (s.keys.read.state = .halfOpen ∨
        s.keys.read.state = .opened ∧ s.keys.read.openedAt + cfg.cooldownMs ≤ now) →
      Stepped cfg s (.command w)
        (s.put w (.allowNx now s.keys.read { s.keys.read with state := .halfOpen }))
  | allowed (w : W) (now : ℕ) : s.calls w = .allowGet now → s.keys.read.state = .closed →
      Stepped cfg s (.command w) (s.put w (.attempting none))
  | lost (w : W) (now : ℕ) (current next : CircuitSnapshot) :
      s.calls w = .allowNx now current next → Stepped cfg s (.command w) (s.put w .idle)
  | won (w : W) (now : ℕ) (current next : CircuitSnapshot) :
      s.calls w = .allowNx now current next → (∀ t ∈ s.keys.probe, t ≤ s.now) →
      Stepped cfg s (.command w)
        ({ s with keys := { s.keys with probe := some (s.now + probeTtlMs) } }.put w
          (.allowSet next s.now))
  | granted (w : W) (next : CircuitSnapshot) (wonAt : ℕ) : s.calls w = .allowSet next wonAt →
      Stepped cfg s (.command w)
        ({ s with keys := s.keys.write next, grants := s.now :: s.grants }.put w
          (.attempting (some wonAt)))
  | succeeded (w : W) (probe : Option ℕ) : s.calls w = .successSet probe →
      Stepped cfg s (.command w)
        ({ s with keys := s.keys.write onSuccess, grants := [] }.put w (.successDel probe))
  | cleared (w : W) (probe : Option ℕ) :
      s.calls w = .successDel probe ∨ s.calls w = .failureDel probe →
      Stepped cfg s (.command w) ({ s with keys := s.keys.delProbe }.put w .idle)
  | counted (w : W) (now : ℕ) (probe : Option ℕ) : s.calls w = .failureGet now probe →
      Stepped cfg s (.command w)
        (s.put w (.failureSet (onFailure s.keys.read now cfg).1 probe))
  | failed (w : W) (next : CircuitSnapshot) (probe : Option ℕ) :
      s.calls w = .failureSet next probe →
      Stepped cfg s (.command w)
        ({ s with keys := s.keys.write next, reports := s.reports + 1 }.put w (.failureDel probe))

variable {cfg : CircuitConfig} {s s' : State W} {a : Action W} {w : W}

theorem commanded_cases (h : commanded cfg s w (s.calls w) = some s') :
    Stepped cfg s (.command w) s' := by
  cases hc : s.calls w with
  | idle => rw [hc] at h; exact absurd h (by simp [commanded])
  | attempting probe => rw [hc] at h; exact absurd h (by simp [commanded])
  | allowGet now =>
      rw [hc, commanded, Option.some.injEq] at h
      subst h
      unfold allowGot
      simp only
      split_ifs with hallow hhalf
      · obtain ⟨hnext, hopen⟩ := decideAttempt_halfOpen hallow hhalf
        rw [hnext]
        exact .probing w now hc hopen
      · exact .allowed w now hc (decideAttempt_closed hallow hhalf)
      · exact .refused w now hc
  | allowNx now current next =>
      rw [hc, commanded] at h
      cases hn : s.keys.setNx s.now with
      | none =>
          rw [hn] at h
          cases h
          exact .lost w now current next hc
      | some keys =>
          rw [hn] at h
          cases h
          obtain ⟨hfree, rfl⟩ := Keys.setNx_eq_some hn
          exact .won w now current next hc hfree
  | allowSet next wonAt => rw [hc] at h; cases h; exact .granted w next wonAt hc
  | successSet probe => rw [hc] at h; cases h; exact .succeeded w probe hc
  | successDel probe => rw [hc] at h; cases h; exact .cleared w probe (.inl hc)
  | failureGet now probe => rw [hc] at h; cases h; exact .counted w now probe hc
  | failureSet next probe => rw [hc] at h; cases h; exact .failed w next probe hc
  | failureDel probe => rw [hc] at h; cases h; exact .cleared w probe (.inr hc)

/-- **The inversion lemma**: a step is one of these. -/
theorem step_cases (h : step cfg s a = some s') : Stepped cfg s a s' := by
  cases a with
  | advance ms => cases h; exact .advance ms
  | allow w =>
      simp only [step] at h
      split at h
      · rename_i hc
        cases h
        exact .allow w hc
      · exact absurd h (by simp)
  | report w ok =>
      simp only [step] at h
      split at h
      · rename_i probe hc
        cases h
        cases ok with
        | true => exact .reportOk w probe hc
        | false => exact .reportFailed w probe hc
      · exact absurd h (by simp)
  | command w => exact commanded_cases h

/-! ## Where a step leaves the calls -/

omit [DecidableEq W] in
@[simp] theorem State.keys_put [DecidableEq W] (s : State W) (w : W) (c : Call) :
    (s.put w c).keys = s.keys := rfl

@[simp] theorem State.now_put (s : State W) (w : W) (c : Call) : (s.put w c).now = s.now := rfl

@[simp] theorem State.grants_put (s : State W) (w : W) (c : Call) :
    (s.put w c).grants = s.grants := rfl

@[simp] theorem State.reports_put (s : State W) (w : W) (c : Call) :
    (s.put w c).reports = s.reports := rfl

@[simp] theorem State.calls_put_self (s : State W) (w : W) (c : Call) :
    (s.put w c).calls w = c := Function.update_self ..

theorem State.calls_put_of_ne (s : State W) {w x : W} (c : Call) (h : x ≠ w) :
    (s.put w c).calls x = s.calls x := Function.update_of_ne h ..

/-- What holds of every call after one worker has moved. -/
theorem State.forall_put {P : W → Call → Prop} {s : State W} {w : W} {c : Call} (hw : P w c)
    (h : ∀ x, x ≠ w → P x (s.calls x)) (x : W) : P x ((s.put w c).calls x) := by
  by_cases hx : x = w
  · subst hx
    rw [State.calls_put_self]
    exact hw
  · rw [State.calls_put_of_ne s c hx]
    exact h x hx

/-- What a call is about to write is what a transition gives. -/
def Call.Shaped (cfg : CircuitConfig) : Call → Prop
  | .allowNx _ current next => next = { current with state := .halfOpen }
  | .allowSet next _ => next.state = .halfOpen
  | .failureSet next _ =>
      next.state = if cfg.openAfter ≤ (next.failures : ℤ) then .opened else .closed
  | _ => True

theorem step_shaped (h : ∀ w, (s.calls w).Shaped cfg) (hs : step cfg s a = some s') :
    ∀ w, (s'.calls w).Shaped cfg := by
  cases step_cases hs with
  | advance ms => exact h
  | won w now current next hc =>
      refine State.forall_put (P := fun _ c => c.Shaped cfg) ?_ fun x _ => h x
      have := h w
      rw [hc] at this
      show next.state = .halfOpen
      rw [show next = { current with state := .halfOpen } from this]
  | counted w now probe hc =>
      refine State.forall_put (P := fun _ c => c.Shaped cfg) ?_ fun x _ => h x
      show (onFailure s.keys.read now cfg).1.state = _
      rw [onFailure_state, onFailure_failures]
  | probing w now hc hopen =>
      exact State.forall_put (P := fun _ c => c.Shaped cfg) rfl fun x _ => h x
  | _ => exact State.forall_put (P := fun _ c => c.Shaped cfg) trivial fun x _ => h x

/-! ## The count of failures -/

/-- No attempt is reported as a success. -/
def NoSuccess (_ : State W) : Action W → Prop
  | .report _ ok => ok = false
  | _ => True

/-- The `SET` of a call finds the count of failures that its `GET` read. -/
def SetFindsCount (s : State W) : Action W → Prop
  | .command w =>
      match s.calls w with
      | .allowSet next _ => next.failures = s.keys.read.failures
      | .failureSet next _ => next.failures = s.keys.read.failures + 1
      | _ => True
  | _ => True

/-- No call is between its commands, and no failure has been counted yet. -/
structure Quiet (s : State W) : Prop where
  calls : ∀ w, s.calls w = .idle ∨ ∃ probe, s.calls w = .attempting probe
  reports : s.reports = 0

/-- No probe is let through. -/
def NoProbe (s : State W) : Action W → Prop
  | .command w => ∀ next wonAt, s.calls w ≠ .allowSet next wonAt
  | _ => True

/-- The call is one of `success`. -/
def Call.isSuccess : Call → Bool
  | .successSet _ | .successDel _ => true
  | _ => false

theorem step_noSuccess (h : ∀ w, (s.calls w).isSuccess = false) (hn : NoSuccess s a)
    (hs : step cfg s a = some s') : ∀ w, (s'.calls w).isSuccess = false := by
  cases step_cases hs with
  | advance ms => exact h
  | reportOk w probe hc => exact absurd hn (by simp [NoSuccess])
  | succeeded w probe hc =>
      have := h w
      rw [hc] at this
      cases this
  | _ => exact State.forall_put (P := fun _ c => c.isSuccess = false) rfl fun x _ => h x

/-- What a run in which every `SET` finds what its `GET` read comes to: the count is the
number of reports, and once it has reached `openAfter` the circuit is not closed. -/
structure Tallied (cfg : CircuitConfig) (n : ℕ) (s : State W) : Prop where
  shaped : ∀ w, (s.calls w).Shaped cfg
  noSuccess : ∀ w, (s.calls w).isSuccess = false
  failures_eq : s.keys.read.failures = n + s.reports
  not_closed : 0 < s.reports → cfg.openAfter ≤ (s.keys.read.failures : ℤ) →
    s.keys.read.state ≠ .closed

omit [DecidableEq W] in
theorem Quiet.tallied (h : Quiet s) : Tallied cfg s.keys.read.failures s := by
  refine ⟨fun w => ?_, fun w => ?_, by rw [h.reports, Nat.add_zero], fun hpos => ?_⟩
  · rcases h.calls w with hc | ⟨probe, hc⟩ <;> rw [hc] <;> trivial
  · rcases h.calls w with hc | ⟨probe, hc⟩ <;> rw [hc] <;> rfl
  · rw [h.reports] at hpos
    exact absurd hpos (lt_irrefl 0)

/-- One step, every `SET` of which finds what its `GET` read. -/
theorem step_tallied {n : ℕ} (h : Tallied cfg n s) (hn : NoSuccess s a)
    (hf : SetFindsCount s a) (hs : step cfg s a = some s') : Tallied cfg n s' := by
  have hshaped := step_shaped h.shaped hs
  have hno := step_noSuccess h.noSuccess hn hs
  cases step_cases hs with
  | granted w next wonAt hc =>
      simp only [SetFindsCount, hc] at hf
      have hstate := h.shaped w
      rw [hc] at hstate
      refine ⟨hshaped, hno, ?_, fun _ _ => ?_⟩
      · show next.failures = n + s.reports
        rw [hf, h.failures_eq]
      · show next.state ≠ .closed
        rw [show next.state = .halfOpen from hstate]
        decide
  | failed w next probe hc =>
      simp only [SetFindsCount, hc] at hf
      have hstate := h.shaped w
      rw [hc] at hstate
      refine ⟨hshaped, hno, ?_, fun _ hle => ?_⟩
      · show next.failures = n + (s.reports + 1)
        rw [hf, h.failures_eq, Nat.add_assoc]
      · show next.state ≠ .closed
        have hle' : cfg.openAfter ≤ (next.failures : ℤ) := hle
        rw [show next.state = _ from hstate, if_pos hle']
        decide
  | succeeded w probe hc =>
      have := h.noSuccess w
      rw [hc] at this
      cases this
  | _ => exact ⟨hshaped, hno, h.failures_eq, h.not_closed⟩

/-- In a run of failures alone the circuit is open exactly when its count has come to
`openAfter`.  Nothing that is stored or about to be written is ahead of the reports; and once
the stored count is behind them, so is everything about to be written. -/
structure Behind (cfg : CircuitConfig) (n : ℕ) (s : State W) : Prop where
  shaped : ∀ w, (s.calls w).Shaped cfg
  state_eq : 0 < s.reports → s.keys.read.state =
    if cfg.openAfter ≤ (s.keys.read.failures : ℤ) then .opened else .closed
  noSuccess : ∀ w, (s.calls w).isSuccess = false
  le : s.keys.read.failures ≤ n + s.reports
  write_le : ∀ w next probe, s.calls w = .failureSet next probe →
    next.failures ≤ n + s.reports + 1
  write_lt : s.keys.read.failures < n + s.reports → ∀ w next probe,
    s.calls w = .failureSet next probe → next.failures < n + s.reports + 1

omit [DecidableEq W] in
theorem Quiet.behind (h : Quiet s) : Behind cfg s.keys.read.failures s := by
  have hno : ∀ w next probe, s.calls w ≠ .failureSet next probe := by
    intro w next probe hw
    rcases h.calls w with hc | ⟨p, hc⟩ <;> rw [hc] at hw <;> cases hw
  have ht : Tallied cfg s.keys.read.failures s := h.tallied
  refine ⟨ht.shaped, fun hpos => ?_, ht.noSuccess, Nat.le_add_right _ _,
    fun w next probe hw => absurd hw (hno w next probe),
    fun _ w next probe hw => absurd hw (hno w next probe)⟩
  rw [h.reports] at hpos
  exact absurd hpos (lt_irrefl 0)

/-- A worker moves to a call that is about to write at most what is stored. -/
theorem Behind.put {n : ℕ} {c : Call} (h : Behind cfg n s)
    (hsh : ∀ x, ((s.put w c).calls x).Shaped cfg) (hs : c.isSuccess = false)
    (hc : ∀ next probe, c = .failureSet next probe →
      next.failures = s.keys.read.failures + 1) : Behind cfg n (s.put w c) := by
  refine ⟨hsh, h.state_eq,
    State.forall_put (P := fun _ c => c.isSuccess = false) hs fun x _ => h.noSuccess x,
    h.le, ?_, fun hlt => ?_⟩
  · refine State.forall_put
      (P := fun _ c => ∀ next probe, c = .failureSet next probe → next.failures ≤ _)
      (fun next probe hw => ?_) fun x _ => h.write_le x
    rw [hc next probe hw]
    exact Nat.succ_le_succ h.le
  · refine State.forall_put
      (P := fun _ c => ∀ next probe, c = .failureSet next probe → next.failures < _)
      (fun next probe hw => ?_) fun x _ => h.write_lt hlt x
    rw [hc next probe hw]
    exact Nat.succ_lt_succ hlt

theorem step_behind {n : ℕ} (h : Behind cfg n s) (hn : NoSuccess s a) (hp : NoProbe s a)
    (hs : step cfg s a = some s') : Behind cfg n s' := by
  have hsh := step_shaped h.shaped hs
  cases step_cases hs with
  | advance ms => exact ⟨h.shaped, h.state_eq, h.noSuccess, h.le, h.write_le, h.write_lt⟩
  | reportOk w probe hc => exact absurd hn (by simp [NoSuccess])
  | succeeded w probe hc =>
      have := h.noSuccess w
      rw [hc] at this
      cases this
  | granted w next wonAt hc => exact absurd hc (hp next wonAt)
  | counted w now probe hc =>
      refine h.put hsh rfl fun next p hw => ?_
      cases hw
      exact onFailure_failures
  | won w now current next hc hfree =>
      have hk : Behind cfg n { s with keys := { s.keys with probe := some (s.now + probeTtlMs) } } :=
        ⟨h.shaped, h.state_eq, h.noSuccess, h.le, h.write_le, h.write_lt⟩
      exact hk.put hsh rfl fun next p hw => by cases hw
  | cleared w probe hc =>
      have hk : Behind cfg n { s with keys := s.keys.delProbe } :=
        ⟨h.shaped, h.state_eq, h.noSuccess, h.le, h.write_le, h.write_lt⟩
      exact hk.put hsh rfl fun next p hw => by cases hw
  | failed w next probe hc =>
      have hle := h.write_le w next probe hc
      have hstate := h.shaped w
      rw [hc] at hstate
      refine ⟨hsh, fun _ => hstate,
        State.forall_put (P := fun _ c => c.isSuccess = false) rfl fun x _ => h.noSuccess x,
        ?_, ?_, fun hlt => ?_⟩
      · show next.failures ≤ n + (s.reports + 1)
        omega
      · refine State.forall_put
          (P := fun _ c => ∀ next probe, c = .failureSet next probe → next.failures ≤ _)
          (fun next p hw => by cases hw) fun x _ next' p hw => ?_
        have := h.write_le x next' p hw
        show next'.failures ≤ n + (s.reports + 1) + 1
        omega
      · refine State.forall_put
          (P := fun _ c => ∀ next probe, c = .failureSet next probe → next.failures < _)
          (fun next p hw => by cases hw) fun x _ next' p hw => ?_
        have := h.write_le x next' p hw
        show next'.failures < n + (s.reports + 1) + 1
        omega
  | _ => exact h.put hsh rfl fun next p hw => by cases hw

/-- A count that has fallen behind the reports stays behind them. -/
theorem step_lt {n : ℕ} (h : Behind cfg n s) (hn : NoSuccess s a) (hp : NoProbe s a)
    (hs : step cfg s a = some s') (hlt : s.keys.read.failures < n + s.reports) :
    s'.keys.read.failures < n + s'.reports := by
  cases step_cases hs with
  | succeeded w probe hc =>
      have := h.noSuccess w
      rw [hc] at this
      cases this
  | granted w next wonAt hc => exact absurd hc (hp next wonAt)
  | failed w next probe hc =>
      have := h.write_lt hlt w next probe hc
      show next.failures < n + (s.reports + 1)
      omega
  | _ => exact hlt

/-- A `SET` that does not find what its `GET` read puts the count behind the reports. -/
theorem step_lt_of_stale {n : ℕ} (h : Behind cfg n s) (hp : NoProbe s a)
    (hs : step cfg s a = some s') (heq : s.keys.read.failures = n + s.reports)
    (hf : ¬ SetFindsCount s a) : s'.keys.read.failures < n + s'.reports := by
  cases step_cases hs with
  | granted w next wonAt hc => exact absurd hc (hp next wonAt)
  | failed w next probe hc =>
      have hle := h.write_le w next probe hc
      simp only [SetFindsCount, hc] at hf
      show next.failures < n + (s.reports + 1)
      omega
  | advance ms => exact absurd trivial hf
  | allow w hc => exact absurd trivial hf
  | reportOk w probe hc => exact absurd trivial hf
  | reportFailed w probe hc => exact absurd trivial hf
  | cleared w probe hc =>
      rcases hc with hc | hc <;> exact absurd (by simp only [SetFindsCount, hc]) hf
  | refused w now hc => exact absurd (by simp only [SetFindsCount, hc]) hf
  | probing w now hc _ => exact absurd (by simp only [SetFindsCount, hc]) hf
  | allowed w now hc _ => exact absurd (by simp only [SetFindsCount, hc]) hf
  | lost w now current next hc => exact absurd (by simp only [SetFindsCount, hc]) hf
  | won w now current next hc _ => exact absurd (by simp only [SetFindsCount, hc]) hf
  | succeeded w probe hc => exact absurd (by simp only [SetFindsCount, hc]) hf
  | counted w now probe hc => exact absurd (by simp only [SetFindsCount, hc]) hf

/-- The steps of a run of failures alone. -/
def Failing (s : State W) (a : Action W) : Prop := NoSuccess s a ∧ NoProbe s a

/-- The steps of a run without successes in which no update is lost. -/
def Lossless (s : State W) (a : Action W) : Prop := NoSuccess s a ∧ SetFindsCount s a

variable {s₀ : State W}

theorem path_behind (hq : Quiet s₀) (h : Path (step cfg) Failing s₀ s) :
    Behind cfg s₀.keys.read.failures s :=
  h.invariant (fun _ _ _ hI hP hs => step_behind hI hP.1 hP.2 hs) hq.behind

/-- A run of failures that ends with the full count has lost no update on the way. -/
theorem path_lossless (hq : Quiet s₀) (h : Path (step cfg) Failing s₀ s)
    (heq : s.keys.read.failures = s₀.keys.read.failures + s.reports) :
    Path (step cfg) Lossless s₀ s := by
  induction h with
  | refl => exact .refl
  | @snoc t u a hpath hP hs ih =>
      have hb := path_behind hq hpath
      rcases Nat.lt_or_eq_of_le hb.le with hlt | ht
      · exact absurd heq (step_lt hb hP.1 hP.2 hs hlt).ne
      · by_cases hf : SetFindsCount t a
        · exact (ih ht).snoc ⟨hP.1, hf⟩ hs
        · exact absurd heq (step_lt_of_stale hb hP.2 hs ht hf).ne

/-- **When no failure is lost.**  In every run without successes in which each `SET` finds
the count its `GET` read, the stored count is the initial one plus the number of reported
failures, and the circuit is no longer closed once that comes to `openAfter`.  A run of
failures alone ends with the full count exactly if it is such a run, and with an open
circuit exactly if its count has come to `openAfter`. -/
theorem no_failure_lost (cfg : CircuitConfig) (s₀ s : State W) (hq : Quiet s₀) :
    (Path (step cfg) Lossless s₀ s →
      s.keys.read.failures = s₀.keys.read.failures + s.reports ∧
      (0 < s.reports → cfg.openAfter ≤ (s₀.keys.read.failures + s.reports : ℕ) →
        s.keys.read.state ≠ .closed)) ∧
    (Path (step cfg) Failing s₀ s →
      (s.keys.read.failures = s₀.keys.read.failures + s.reports ↔
        Path (step cfg) Lossless s₀ s) ∧
      (0 < s.reports →
        (s.keys.read.state = .opened ↔ cfg.openAfter ≤ s.keys.read.failures))) := by
  have hsuff : Path (step cfg) Lossless s₀ s → Tallied cfg s₀.keys.read.failures s := fun h =>
    h.invariant (fun _ _ _ hI hP hs => step_tallied hI hP.1 hP.2 hs) hq.tallied
  refine ⟨fun h => ?_, fun h => ⟨⟨path_lossless hq h, fun h' => (hsuff h').failures_eq⟩,
    fun hpos => ?_⟩⟩
  · have ht := hsuff h
    refine ⟨ht.failures_eq, fun hpos hle => ht.not_closed hpos ?_⟩
    rw [ht.failures_eq]
    exact hle
  · rw [(path_behind hq h).state_eq hpos]
    split_ifs with hle <;> simp [hle]

/-! ## Replaying runs of two workers -/

/-- The action is of worker `0` or `1`, if it is of one. -/
def byTwo : Action ℕ → Bool
  | .advance _ => true
  | .allow w | .report w _ | .command w => w < 2

/-- All workers but `0` and `1` are idle. -/
def OnlyTwo (s : State ℕ) : Prop := ∀ w, 2 ≤ w → s.calls w = .idle

theorem step_onlyTwo {s s' : State ℕ} {a : Action ℕ} (h : OnlyTwo s) (ha : byTwo a = true)
    (hs : step cfg s a = some s') : OnlyTwo s' := by
  have hput : ∀ (t : State ℕ) (w : ℕ) (c : Call), t.calls = s.calls → w < 2 →
      OnlyTwo (t.put w c) := by
    intro t w c ht hw x hx
    rw [State.calls_put_of_ne t c (by omega), ht]
    exact h x hx
  cases step_cases hs with
  | advance ms => exact h
  | _ => exact hput _ _ _ rfl (by simpa [byTwo] using ha)

/-- An attempt of each of two workers is let through, and both fail. -/
def twoFail : List (Action ℕ) :=
  [.allow 0, .command 0, .allow 1, .command 1, .report 0 false, .report 1 false]

/-- `NoSuccess`, computed. -/
def noSuccess : Action ℕ → Bool
  | .report _ ok => !ok
  | _ => true

theorem noSuccess_sound {s : State ℕ} {a : Action ℕ} (h : noSuccess a = true) :
    NoSuccess s a := by
  cases a with
  | report w ok => simpa [noSuccess, NoSuccess] using h
  | _ => trivial

/-- `SetFindsCount`, computed. -/
def setFindsCount (s : State ℕ) : Action ℕ → Bool
  | .command w =>
      match s.calls w with
      | .allowSet next _ => next.failures = s.keys.read.failures
      | .failureSet next _ => next.failures = s.keys.read.failures + 1
      | _ => true
  | _ => true

theorem setFindsCount_sound {s : State ℕ} {a : Action ℕ} (h : setFindsCount s a = true) :
    SetFindsCount s a := by
  cases a with
  | command w =>
      simp only [setFindsCount] at h
      simp only [SetFindsCount]
      cases hc : s.calls w <;> rw [hc] at h <;> simp only at h ⊢
      · exact of_decide_eq_true h
      · exact of_decide_eq_true h
  | _ => trivial

theorem quiet_init : Quiet (init : State ℕ) := ⟨fun _ => .inl rfl, rfl⟩

/-- One report after the other: both are counted, and the circuit opens. -/
theorem no_failure_lost_in_turn : ∃ s : State ℕ,
    Path (step ⟨2, 1000, 50⟩) Lossless init s ∧ s.reports = 2 ∧
    s.keys.read.failures = 0 + s.reports ∧ s.keys.read.state ≠ .closed := by
  obtain ⟨s, hpath, hs⟩ := Path.exists_of_runChecked (step ⟨2, 1000, 50⟩) (P := Lossless)
    (p := fun s a => noSuccess a && setFindsCount s a)
    (fun s a ha => by
      rw [Bool.and_eq_true] at ha
      exact ⟨noSuccess_sound ha.1, setFindsCount_sound ha.2⟩)
    init (twoFail ++ [.command 0, .command 0, .command 1, .command 1])
    (fun s => s.reports = 2) (by decide +kernel)
  have hr : s.reports = 2 := by simpa using hs
  obtain ⟨hcount, hopen⟩ := (no_failure_lost ⟨2, 1000, 50⟩ init s quiet_init).1 hpath
  refine ⟨s, hpath, hr, hcount, hopen (by omega) ?_⟩
  rw [hr]
  decide

/-- Both workers read the count before either writes it: of two failures one is counted,
and with `openAfter = 2` the circuit stays closed. -/
theorem failure_lost_in_race : ¬ (∀ s : State ℕ, Path (step ⟨2, 1000, 50⟩) NoSuccess init s →
    (∀ w, s.calls w = .idle) → s.keys.read.failures = 0 + s.reports ∧
      (2 ≤ s.reports → s.keys.read.state = .opened)) := by
  intro h
  -- the run is one of two workers, so that all calls are known to be over at its end
  obtain ⟨s, ⟨hpath, htwo⟩, hs⟩ : ∃ s : State ℕ,
      (Path (step ⟨2, 1000, 50⟩) NoSuccess init s ∧ OnlyTwo s) ∧
      (s.calls 0 = .idle ∧ s.calls 1 = .idle ∧ s.keys.read.failures = 1 ∧ s.reports = 2) := by
    obtain ⟨s, hpath, hs⟩ := Path.exists_of_runChecked (step ⟨2, 1000, 50⟩)
      (P := fun s a => byTwo a = true ∧ NoSuccess s a)
      (p := fun _ a => byTwo a && noSuccess a)
      (fun s a ha => by
        rw [Bool.and_eq_true] at ha
        exact ⟨ha.1, noSuccess_sound ha.2⟩)
      init
      (twoFail ++ [.command 0, .command 1, .command 0, .command 1, .command 0, .command 1])
      (fun s => s.calls 0 = .idle ∧ s.calls 1 = .idle ∧ s.keys.read.failures = 1 ∧ s.reports = 2)
      (by decide +kernel)
    refine ⟨s, ⟨hpath.mono fun _ _ h => h.2, ?_⟩, by simpa using hs⟩
    exact hpath.invariant (fun _ _ _ hI hP hs => step_onlyTwo hI hP.1 hs) fun _ _ => rfl
  obtain ⟨h0, h1, hcount, hreports⟩ := hs
  have hidle : ∀ w, s.calls w = .idle := by
    intro w
    rcases Nat.lt_or_ge w 2 with hw | hw
    · interval_cases w
      · exact h0
      · exact h1
    · exact htwo w hw
  have := (h s hpath hidle).1
  omega

end Circuit
end HookRelay
