import HookRelay.System.Changes
import HookRelay.Worker.Circuit

/-!
# Disabling an endpoint

The system with the circuits of its endpoints: what the circuit answers is no longer an
input of a run's step but what `circuit.store.ts` gives.  The calls of the store are taken
as a whole, which is right for process calls that do not overlap; `EndpointsService.update`
does not touch Redis, and so may come at any time.

* `stepWith` — one step of the system with its circuits.
* `Happened`, `failuresSince` — the log of attempts that failed, attempts that succeeded and
  updates to `ACTIVE`, and the number of failures since the last of the other two.
* `Sequential` — no two attempts to an endpoint overlap.
* `Declared` — the condition: an update to `ACTIVE` comes when no attempt has failed since, and
  no process dies between an attempt that succeeded and its report to the circuit.
* `disabled_after_full_run` — an endpoint is disabled only after `disableAfter` failures.
-/

namespace HookRelay
namespace System

open Lib

/-- What a log of attempts and updates tells about an endpoint. -/
inductive Happened where
  | failed (endpointId : Uuid)
  | succeeded (endpointId : Uuid)
  | activated (endpointId : Uuid)

/-- How many attempts to the endpoint have failed since the last one that succeeded and the
last update to `ACTIVE`; the log begins with what happened last. -/
def failuresSince (e : Uuid) : List Happened → ℕ
  | [] => 0
  | .failed x :: log => if x = e then failuresSince e log + 1 else failuresSince e log
  | .succeeded x :: log => if x = e then 0 else failuresSince e log
  | .activated x :: log => if x = e then 0 else failuresSince e log

/-- What came of an attempt. -/
def happened (e : Uuid) : AttemptOutcome → Happened
  | .ok _ _ _ => .succeeded e
  | .failed _ _ _ _ => .failed e

/-- The system, the circuit of each endpoint, and the log. -/
structure WithCircuits where
  sys : State
  circuits : Uuid → Circuit.Keys
  log : List Happened

def initWith : WithCircuits := ⟨init, fun _ => .init, []⟩

/-- The attempt under way in a phase, and where it stands. -/
def attemptIn : Phase → Option (DeliveryRow × Stage)
  | .attempt d _ _ stage => some (d, stage)
  | _ => none

/-- The attempt that run `r` has under way. -/
def attemptOf (s : State) (r : ℕ) : Option (DeliveryRow × Stage) :=
  (s.runs r).bind fun run => attemptIn run.phase

/-- The step of the system, with the circuit's answer filled in. -/
def answered (ccfg : CircuitConfig) (s : WithCircuits) : Action → Action
  | .run r i =>
      match attemptOf s.sys r with
      | some (d, .allow) =>
          .run r (.answer (Circuit.allow ccfg (s.circuits d.endpointId) (jsDate s.sys.now)).1)
      | some (d, .failure) =>
          .run r (.answer (Circuit.failure ccfg (s.circuits d.endpointId) (jsDate s.sys.now)).1)
      | _ => .run r i
  | a => a

/-- The circuits after a step. -/
def circuitsAfter (ccfg : CircuitConfig) (s : WithCircuits) : Action → Uuid → Circuit.Keys
  | .run r _ =>
      match attemptOf s.sys r with
      | some (d, .allow) => Function.update s.circuits d.endpointId
          (Circuit.allow ccfg (s.circuits d.endpointId) (jsDate s.sys.now)).2
      | some (d, .success) => Function.update s.circuits d.endpointId
          (Circuit.success (s.circuits d.endpointId))
      | some (d, .failure) => Function.update s.circuits d.endpointId
          (Circuit.failure ccfg (s.circuits d.endpointId) (jsDate s.sys.now)).2.2
      | _ => s.circuits
  | _ => s.circuits

/-- The log after a step to `sys`: an attempt has come out, or an endpoint is set to
`ACTIVE`. -/
def logAfter (s : WithCircuits) (sys : State) : Action → List Happened
  | .run r _ =>
      match attemptOf s.sys r, attemptOf sys r with
      | some (_, .sending), some (d, .record o) => happened d.endpointId o :: s.log
      | _, _ => s.log
  | .updateEndpoint id _ _ (some .active) => .activated id :: s.log
  | _ => s.log

/-- One step of the system with its circuits. -/
def stepWith (cfg : WorkerConfig) (ccfg : CircuitConfig) (s : WithCircuits) (a : Action) :
    Option WithCircuits :=
  (step cfg s.sys (answered ccfg s a)).map fun sys =>
    ⟨sys, circuitsAfter ccfg s a, logAfter s sys a⟩

/-- The step sets the endpoint to `DISABLED_AUTO`. -/
def Disables (s : WithCircuits) (e : Uuid) : Action → Prop
  | .run r _ => ∃ d, attemptOf s.sys r = some (d, .endpointFailure true) ∧ d.endpointId = e
  | _ => False

/-- When a run claims an attempt, no other run has one to the same endpoint under way. -/
def Sequential (s : WithCircuits) : Action → Prop
  | .run r _ => ∀ run d x, s.sys.runs r = some run → run.phase = .claim d x →
      ∀ r' < s.sys.nextRun, ∀ d' stage, attemptOf s.sys r' = some (d', stage) →
        d'.endpointId ≠ d.endpointId
  | _ => True

/-- The attempt has succeeded, and the circuit does not know yet. -/
def Stage.isSucceeding : Stage → Bool
  | .record (.ok _ _ _) | .success => true
  | _ => false

/-- An update to `ACTIVE` finds no failure since the last success, and no process dies between
a success and its report to the circuit. -/
def Declared (s : WithCircuits) : Action → Prop
  | .updateEndpoint id _ _ (some .active) => failuresSince id s.log = 0
  | .throw r | .crash r => ∀ d stage, attemptOf s.sys r = some (d, stage) →
      Stage.isSucceeding stage = false
  | _ => True

/-! ## The invariant -/

/-- The circuit of an endpoint has counted at most the failures since the last success. -/
def Stage.Counted (ccfg : CircuitConfig) (failures counted : ℕ) : Stage → Prop
  | .record (.failed _ _ _ _) | .failure => counted + 1 ≤ failures
  | .endpointFailure true => ccfg.disableAfter ≤ (failures : ℤ)
  | _ => True

/-- The count of failures in an endpoint's circuit. -/
def WithCircuits.counted (s : WithCircuits) (e : Uuid) : ℕ := (s.circuits e).read.failures

/-- The failures of an endpoint since the last success and update to `ACTIVE`. -/
def WithCircuits.failures (s : WithCircuits) (e : Uuid) : ℕ := failuresSince e s.log

structure Tallied (ccfg : CircuitConfig) (s : WithCircuits) : Prop where
  one : ∀ r r' d d' stage stage', attemptOf s.sys r = some (d, stage) →
    attemptOf s.sys r' = some (d', stage') → d.endpointId = d'.endpointId → r = r'
  held : ∀ r d stage, attemptOf s.sys r = some (d, stage) →
    Stage.Counted ccfg (s.failures d.endpointId) (s.counted d.endpointId) stage
  behind : ∀ e, s.counted e ≤ s.failures e ∨
    ∃ r d stage, attemptOf s.sys r = some (d, stage) ∧ d.endpointId = e ∧
      Stage.isSucceeding stage = true

variable {cfg : WorkerConfig} {ccfg : CircuitConfig} {s s' : WithCircuits} {a : Action}

theorem tallied_init : Tallied ccfg initWith where
  one := by
    intro r r' d d' stage stage' h
    cases h
  held := by
    intro r d stage h
    cases h
  behind := fun _ => .inl (le_refl 0)

/-- A step that leaves circuits and log as they are, and the attempts under way too, but for
some that may end. -/
theorem Tallied.of_attempts (h : Tallied ccfg s) (hc : s'.circuits = s.circuits)
    (hlog : ∀ e, s'.failures e = s.failures e)
    (hsub : ∀ r x, attemptOf s'.sys r = some x → attemptOf s.sys r = some x)
    (hsup : ∀ r d stage, attemptOf s.sys r = some (d, stage) → Stage.isSucceeding stage = true →
      attemptOf s'.sys r = some (d, stage)) : Tallied ccfg s' := by
  have hcount : ∀ e, s'.counted e = s.counted e := fun e => by
    unfold WithCircuits.counted
    rw [hc]
  refine ⟨fun r r' d d' st st' h₁ h₂ => h.one r r' d d' st st' (hsub r _ h₁) (hsub r' _ h₂),
    fun r d st h₁ => ?_, fun e => ?_⟩
  · rw [hlog, hcount]
    exact h.held r d st (hsub r _ h₁)
  · rw [hlog, hcount]
    rcases h.behind e with hle | ⟨r, d, st, hr, he, hst⟩
    · exact .inl hle
    · exact .inr ⟨r, d, st, hsup r d st hr hst, he, hst⟩

/-- What is known of a run with an attempt under way. -/
theorem Tallied.behind_of {r : ℕ} {d : DeliveryRow} {stage : Stage} (h : Tallied ccfg s)
    (hr : attemptOf s.sys r = some (d, stage)) (hst : Stage.isSucceeding stage = false) :
    s.counted d.endpointId ≤ s.failures d.endpointId := by
  rcases h.behind d.endpointId with hle | ⟨r', d', st', hr', he, hst'⟩
  · exact hle
  · obtain rfl := h.one r' r d' d st' stage hr' hr he
    rw [hr', Option.some.injEq, Prod.mk.injEq] at hr
    rw [hr.2, hst] at hst'
    cases hst'

/-- Run `r` goes on with its attempt, or ends it; only the circuit and the failures of its
endpoint change. -/
theorem Tallied.of_run {r : ℕ} {d : DeliveryRow} {stage : Stage} {next : Option (DeliveryRow × Stage)}
    (h : Tallied ccfg s) (hr : attemptOf s.sys r = some (d, stage))
    (hself : attemptOf s'.sys r = next)
    (hother : ∀ r', r' ≠ r → attemptOf s'.sys r' = attemptOf s.sys r')
    (hcount : ∀ e, e ≠ d.endpointId → s'.counted e = s.counted e)
    (hfail : ∀ e, e ≠ d.endpointId → s'.failures e = s.failures e)
    (hnext : ∀ x ∈ next, x.1 = d ∧
      Stage.Counted ccfg (s'.failures d.endpointId) (s'.counted d.endpointId) x.2)
    (hbehind : s'.counted d.endpointId ≤ s'.failures d.endpointId ∨
      ∃ x ∈ next, Stage.isSucceeding x.2 = true) : Tallied ccfg s' := by
  have hdel : ∀ r' d' st', attemptOf s'.sys r' = some (d', st') →
      ∃ st₀, attemptOf s.sys r' = some (d', st₀) ∧ (r' ≠ r → st₀ = st') := by
    intro r' d' st' h'
    by_cases hr' : r' = r
    · subst hr'
      rw [hself] at h'
      obtain ⟨rfl, -⟩ := hnext _ h'
      exact ⟨stage, hr, fun hne => absurd rfl hne⟩
    · rw [hother r' hr'] at h'
      exact ⟨st', h', fun _ => rfl⟩
  refine ⟨fun r₁ r₂ d₁ d₂ st₁ st₂ h₁ h₂ he => ?_, fun r' d' st' h' => ?_, fun e => ?_⟩
  · obtain ⟨st₁', h₁', -⟩ := hdel r₁ d₁ st₁ h₁
    obtain ⟨st₂', h₂', -⟩ := hdel r₂ d₂ st₂ h₂
    exact h.one r₁ r₂ d₁ d₂ st₁' st₂' h₁' h₂' he
  · by_cases hr' : r' = r
    · subst hr'
      rw [hself] at h'
      obtain ⟨rfl, hst⟩ := hnext _ h'
      exact hst
    · rw [hother r' hr'] at h'
      have hne : d'.endpointId ≠ d.endpointId := fun he => hr' (h.one r' r d' d st' stage h' hr he)
      rw [hfail _ hne, hcount _ hne]
      exact h.held r' d' st' h'
  · by_cases he : e = d.endpointId
    · subst he
      refine hbehind.imp_right ?_
      rintro ⟨⟨d', st'⟩, hx, hst⟩
      obtain ⟨rfl, -⟩ := hnext _ hx
      exact ⟨r, d', st', hself.trans hx, rfl, hst⟩
    · rw [hcount e he, hfail e he]
      rcases h.behind e with hle | ⟨r', d', st', hr', he', hst'⟩
      · exact .inl hle
      · refine .inr ⟨r', d', st', ?_, he', hst'⟩
        have hne : r' ≠ r := by
          rintro rfl
          rw [hr, Option.some.injEq, Prod.mk.injEq] at hr'
          rw [← he', ← hr'.1] at he
          exact he rfl
        rw [hother r' hne]
        exact hr'

/-! ## Attempts under way, step by step -/

section Attempts

variable {t t' : State} {r : ℕ} {d : DeliveryRow} {stage : Stage}

theorem attemptOf_eq_some (h : attemptOf t r = some (d, stage)) :
    ∃ run e c, t.runs r = some run ∧ run.phase = .attempt d e c stage := by
  obtain ⟨run, hrun, hp⟩ := Option.bind_eq_some_iff.1 h
  cases hphase : run.phase with
  | attempt d' e c stage' =>
      rw [hphase] at hp
      cases hp
      exact ⟨run, e, c, hrun, hphase⟩
  | _ => rw [hphase] at hp; cases hp

theorem attemptOf_applyNext_self {run : Run} {next : Next} :
    attemptOf (applyNext t r run next) r = attemptIn next.run.phase := by
  simp [attemptOf, applyNext]

theorem attemptOf_applyNext_of_ne {run : Run} {next : Next} {r' : ℕ} (h : r' ≠ r) :
    attemptOf (applyNext t r run next) r' = attemptOf t r' := by
  simp [attemptOf, applyNext, Function.update_of_ne h]

/-- A run with an attempt under way makes a step of it. -/
theorem run_attempt {i : Input} (hr : attemptOf t r = some (d, stage))
    (hs : step cfg t (.run r i) = some t') : ∃ run e c next, t.runs r = some run ∧
      run.phase = .attempt d e c stage ∧ PlannedAttempt cfg run d e c stage next ∧
      t' = applyNext t r run next := by
  obtain ⟨run, e, c, hrun, hphase⟩ := attemptOf_eq_some hr
  obtain ⟨run', hrun', hgo | ⟨next, hp, heq⟩⟩ := run_eq_some hs
  · cases hrun.symm.trans hrun'
    rw [letGo, hphase] at hgo
    cases hgo
  · cases hrun.symm.trans hrun'
    rw [hphase] at hp
    cases hp with
    | attempt _ _ _ _ _ ha => exact ⟨run, e, c, next, hrun, hphase, ha, heq⟩

/-- A run at `circuit.failure` goes on with the answer. -/
theorem attemptOf_failure {b : Bool} (hr : attemptOf t r = some (d, .failure))
    (hs : step cfg t (.run r (.answer b)) = some t') :
    attemptOf t' r = some (d, .endpointFailure b) := by
  obtain ⟨run, e, c, hrun, hphase⟩ := attemptOf_eq_some hr
  simp only [step, stepRun, hrun, letGo, hphase, plan, planAttempt, Option.map_some,
    Option.some.injEq] at hs
  subst hs
  rw [attemptOf_applyNext_self]
  rfl

/-- A run without an attempt under way gets one only by claiming it. -/
theorem attemptIn_planned {now : Micros} {db : Database} {cache : EndpointCache} {run : Run}
    {next : Next} (hp : Planned cfg now db cache run run.phase next)
    (hno : attemptIn run.phase = none) :
    attemptIn next.run.phase = none ∨
      ∃ d e, run.phase = .claim d e ∧ attemptIn next.run.phase = some (d, .allow) := by
  have hafter : ∀ d e, attemptIn (afterEndpoint d e) = none := by
    intro d e
    unfold afterEndpoint
    split_ifs <;> rfl
  obtain ⟨p, hphase⟩ : ∃ p, run.phase = p := ⟨_, rfl⟩
  rw [hphase] at hp hno ⊢
  cases hp with
  | attempt d e c stage _ ha => cases hno
  | cached d entry _ => exact .inl (hafter _ _)
  | stored d e => exact .inl (hafter _ _)
  | claimed d e text _ => exact .inr ⟨d, e, rfl, rfl⟩
  | _ => exact .inl rfl

end Attempts

/-! ## One step -/

theorem failuresSince_happened_of_ne {e x : Uuid} (o : AttemptOutcome) (log : List Happened)
    (h : e ≠ x) : failuresSince e (happened x o :: log) = failuresSince e log := by
  cases o <;> exact if_neg h.symm

/-- The answer filled in is one for the same run. -/
theorem answered_run (r : ℕ) (i : Input) : ∃ i', answered ccfg s (.run r i) = .run r i' := by
  simp only [answered]
  split <;> exact ⟨_, rfl⟩

section Stages

variable {r : ℕ} {i : Input} {d : DeliveryRow} {stage : Stage}

theorem circuitsAfter_allow (hr : attemptOf s.sys r = some (d, .allow)) :
    circuitsAfter ccfg s (.run r i) = Function.update s.circuits d.endpointId
      (Circuit.allow ccfg (s.circuits d.endpointId) (jsDate s.sys.now)).2 := by
  simp only [circuitsAfter, hr]

theorem circuitsAfter_success (hr : attemptOf s.sys r = some (d, .success)) :
    circuitsAfter ccfg s (.run r i) = Function.update s.circuits d.endpointId
      (Circuit.success (s.circuits d.endpointId)) := by
  simp only [circuitsAfter, hr]

theorem circuitsAfter_failure (hr : attemptOf s.sys r = some (d, .failure)) :
    circuitsAfter ccfg s (.run r i) = Function.update s.circuits d.endpointId
      (Circuit.failure ccfg (s.circuits d.endpointId) (jsDate s.sys.now)).2.2 := by
  simp only [circuitsAfter, hr]

/-- The stages that call the circuit. -/
def Stage.callsCircuit : Stage → Bool
  | .allow | .success | .failure => true
  | _ => false

theorem circuitsAfter_other (hr : attemptOf s.sys r = some (d, stage))
    (hst : Stage.callsCircuit stage = false) :
    circuitsAfter ccfg s (.run r i) = s.circuits := by
  cases stage with
  | allow | success | failure => cases hst
  | _ => simp only [circuitsAfter, hr]

/-- The log changes only when an attempt comes out. -/
theorem logAfter_run {sys : State} (hr : attemptOf s.sys r = some (d, stage))
    (hne : stage ≠ .sending) : logAfter s sys (.run r i) = s.log := by
  simp only [logAfter, hr]
  split
  · rename_i heq _
    cases heq
    exact absurd rfl hne
  · rfl

variable {run : Run} {next : Next} {circuits : Uuid → Circuit.Keys} {log : List Happened}

/-- What is to be said of a step of an attempt: what becomes of the circuit and of the
failures of its endpoint. -/
theorem Tallied.applyNext (h : Tallied ccfg s) (hr : attemptOf s.sys r = some (d, stage))
    (hcount : ∀ x, x ≠ d.endpointId → (circuits x).read.failures = s.counted x)
    (hfail : ∀ x, x ≠ d.endpointId → failuresSince x log = s.failures x)
    (hnext : ∀ x ∈ attemptIn next.run.phase, x.1 = d ∧ Stage.Counted ccfg
      (failuresSince d.endpointId log) (circuits d.endpointId).read.failures x.2)
    (hbehind : (circuits d.endpointId).read.failures ≤ failuresSince d.endpointId log ∨
      ∃ x ∈ attemptIn next.run.phase, Stage.isSucceeding x.2 = true) :
    Tallied ccfg ⟨applyNext s.sys r run next, circuits, log⟩ :=
  h.of_run hr attemptOf_applyNext_self (fun _ hne => attemptOf_applyNext_of_ne hne)
    hcount hfail hnext hbehind

/-- A step that leaves the circuit and the log alone. -/
theorem Tallied.applyNext_quiet (h : Tallied ccfg s) (hr : attemptOf s.sys r = some (d, stage))
    (hst : Stage.isSucceeding stage = false)
    (hnext : ∀ x ∈ attemptIn next.run.phase, x.1 = d ∧ Stage.Counted ccfg
      (s.failures d.endpointId) (s.counted d.endpointId) x.2) :
    Tallied ccfg ⟨HookRelay.System.applyNext s.sys r run next, s.circuits, s.log⟩ :=
  h.applyNext hr (fun _ _ => rfl) (fun _ _ => rfl) hnext (.inl (h.behind_of hr hst))

/-- A call of the circuit changes the circuit of the endpoint only. -/
theorem counted_update {keys : Circuit.Keys} (x : Uuid) (hx : x ≠ d.endpointId) :
    (Function.update s.circuits d.endpointId keys x).read.failures = s.counted x := by
  rw [Function.update_of_ne hx]
  rfl

theorem counted_some {st : Stage} {m n : ℕ} (hst : Stage.Counted ccfg m n st) :
    ∀ x ∈ (some (d, st) : Option (DeliveryRow × Stage)), x.1 = d ∧ Stage.Counted ccfg m n x.2 := by
  intro x hx
  cases hx
  exact ⟨rfl, hst⟩

theorem counted_none {m n : ℕ} : ∀ x ∈ (none : Option (DeliveryRow × Stage)),
    x.1 = d ∧ Stage.Counted ccfg m n x.2 := by
  intro x hx
  cases hx

/-- `circuit.allow` counts nothing. -/
theorem Tallied.allow (h : Tallied ccfg s) (hr : attemptOf s.sys r = some (d, .allow))
    (hnext : ∀ x ∈ attemptIn next.run.phase, x.1 = d ∧ ∀ m n, Stage.Counted ccfg m n x.2) :
    Tallied ccfg ⟨HookRelay.System.applyNext s.sys r run next,
      circuitsAfter ccfg s (.run r i), s.log⟩ := by
  rw [circuitsAfter_allow hr]
  refine h.applyNext hr counted_update (fun _ _ => rfl)
    (fun x hx => ⟨(hnext x hx).1, (hnext x hx).2 _ _⟩) (.inl ?_)
  rw [Function.update_self, Circuit.allow_failures]
  exact h.behind_of hr rfl

/-- An attempt comes out. -/
theorem Tallied.answered {e : EndpointConfig} {c : ℕ} {o : AttemptOutcome} (h : Tallied ccfg s)
    (hr : attemptOf s.sys r = some (d, .sending))
    (hnext : next.run.phase = .attempt d e c (.record o)) :
    Tallied ccfg ⟨HookRelay.System.applyNext s.sys r run next, s.circuits,
      happened d.endpointId o :: s.log⟩ := by
  have hle : s.counted d.endpointId ≤ failuresSince d.endpointId s.log := h.behind_of hr rfl
  refine h.applyNext hr (fun _ _ => rfl)
    (fun x hx => failuresSince_happened_of_ne o s.log hx) ?_ ?_ <;> rw [hnext] <;> cases o with
  | ok status bodyHead ms => first | exact counted_some trivial | exact .inr ⟨_, rfl, rfl⟩
  | failed errorClass status bodyHead ms =>
      have hone : failuresSince d.endpointId (.failed d.endpointId :: s.log) =
          failuresSince d.endpointId s.log + 1 := if_pos rfl
      first
        | exact counted_some (hone ▸ Nat.succ_le_succ hle)
        | exact .inl (hone ▸ Nat.le_succ_of_le hle)

/-- `circuit.failure` counts the attempt, and disables the endpoint after `disableAfter` of
them. -/
theorem Tallied.failure {e : EndpointConfig} {c : ℕ} {disable : Bool} (h : Tallied ccfg s)
    (hr : attemptOf s.sys r = some (d, .failure))
    (hdisable : disable = (Circuit.failure ccfg (s.circuits d.endpointId) (jsDate s.sys.now)).1)
    (hnext : next.run.phase = .attempt d e c (.endpointFailure disable)) :
    Tallied ccfg ⟨HookRelay.System.applyNext s.sys r run next,
      circuitsAfter ccfg s (.run r i), s.log⟩ := by
  have hheld : s.counted d.endpointId + 1 ≤ s.failures d.endpointId := h.held r d .failure hr
  have hcount : (Circuit.failure ccfg (s.circuits d.endpointId)
      (jsDate s.sys.now)).2.2.read.failures = s.counted d.endpointId + 1 :=
    Circuit.onFailure_failures
  rw [circuitsAfter_failure hr]
  refine h.applyNext hr counted_update (fun _ _ => rfl) ?_ (.inl ?_)
  · rw [hnext]
    refine counted_some ?_
    cases disable with
    | false => trivial
    | true =>
        have hd : decide (ccfg.disableAfter ≤ ((s.counted d.endpointId + 1 : ℕ) : ℤ)) = true :=
          Circuit.onFailure_disable.symm.trans hdisable.symm
        exact (of_decide_eq_true hd).trans (by exact_mod_cast hheld)
  · rw [Function.update_self, hcount]
    exact hheld

end Stages

/-- A run makes a step of its attempt. -/
theorem attempt_tallied {r : ℕ} {i : Input} {d : DeliveryRow} {stage : Stage}
    (h : Tallied ccfg s) (hr : attemptOf s.sys r = some (d, stage))
    (hs : stepWith cfg ccfg s (.run r i) = some s') : Tallied ccfg s' := by
  obtain ⟨sys, hsys, rfl⟩ := Option.map_eq_some_iff.1 hs
  have hheld := h.held r d stage hr
  have hanswer := hsys
  obtain ⟨i', hi'⟩ : ∃ i', answered ccfg s (.run r i) = .run r i' := answered_run r i
  rw [hi'] at hsys
  obtain ⟨run, e, c, next, hrun, hphase, hp, rfl⟩ := run_attempt hr hsys
  cases hp with
  | answered res ms =>
      rw [circuitsAfter_other hr rfl]
      have hlog : ∀ o, attemptOf (applyNext s.sys r run
          (run.goto (.attempt d e c (.record o)))) r = some (d, .record o) := fun o =>
        attemptOf_applyNext_self
      simp only [logAfter, hr, hlog]
      exact h.answered hr rfl
  | circuitFailure disable =>
      rw [logAfter_run hr (by simp)]
      refine h.failure hr ?_ rfl
      -- the answer is the one the store gave
      simp only [answered, hr] at hanswer
      have hnext := attemptOf_failure hr hanswer
      rw [attemptOf_applyNext_self] at hnext
      cases hnext
      rfl
  | allowed =>
      rw [logAfter_run hr (by simp)]
      exact h.allow hr fun x hx => by cases hx; exact ⟨rfl, fun _ _ => trivial⟩
  | refused =>
      rw [logAfter_run hr (by simp)]
      exact h.allow hr fun x hx => by cases hx; exact ⟨rfl, fun _ _ => trivial⟩
  | circuitSuccess =>
      rw [logAfter_run hr (by simp), circuitsAfter_success hr]
      refine h.applyNext hr counted_update (fun _ _ => rfl) (counted_some trivial) (.inl ?_)
      rw [Function.update_self]
      exact Nat.zero_le _
  | recordedOk status bodyHead ms =>
      rw [logAfter_run hr (by simp), circuitsAfter_other hr rfl]
      exact h.applyNext hr (fun _ _ => rfl) (fun _ _ => rfl) (counted_some trivial)
        (.inr ⟨_, rfl, rfl⟩)
  | recordedFailed errorClass status bodyHead ms =>
      rw [logAfter_run hr (by simp), circuitsAfter_other hr rfl]
      exact h.applyNext_quiet hr rfl (counted_some hheld)
  | sent | endpointReset | endpointCounted _ | recordedOpen =>
      rw [logAfter_run hr (by simp), circuitsAfter_other hr rfl]
      exact h.applyNext_quiet hr rfl (counted_some trivial)
  | succeeded | failed | failedOpen =>
      rw [logAfter_run hr (by simp), circuitsAfter_other hr rfl]
      exact h.applyNext_quiet hr rfl counted_none

/-- A step that is not one of a run begins no attempt, and ends none that has succeeded. -/
theorem attempts_of_other {t t' : State} (hwf : Wf t) (ha : ∀ r i, a ≠ .run r i)
    (hd : ∀ r, a = .throw r ∨ a = .crash r → ∀ d stage, attemptOf t r = some (d, stage) →
      Stage.isSucceeding stage = false) (hs : step cfg t a = some t') :
    (∀ r x, attemptOf t' r = some x → attemptOf t r = some x) ∧
    (∀ r d stage, attemptOf t r = some (d, stage) → Stage.isSucceeding stage = true →
      attemptOf t' r = some (d, stage)) := by
  have same : t'.runs = t.runs → (∀ r x, attemptOf t' r = some x → attemptOf t r = some x) ∧
      (∀ r d stage, attemptOf t r = some (d, stage) → Stage.isSucceeding stage = true →
        attemptOf t' r = some (d, stage)) := by
    intro hr
    unfold attemptOf
    rw [hr]
    exact ⟨fun _ _ => id, fun _ _ _ h _ => h⟩
  -- one run is put somewhere without an attempt
  have put : ∀ (r : ℕ) (new : Option Run),
      (new.bind fun run => attemptIn run.phase) = none →
      (∀ d stage, attemptOf t r = some (d, stage) → Stage.isSucceeding stage = false) →
      t'.runs = Function.update t.runs r new →
      (∀ r x, attemptOf t' r = some x → attemptOf t r = some x) ∧
      (∀ r d stage, attemptOf t r = some (d, stage) → Stage.isSucceeding stage = true →
        attemptOf t' r = some (d, stage)) := by
    intro r new hnew hold hr
    have hself : attemptOf t' r = none := by
      unfold attemptOf
      rw [hr, Function.update_self]
      exact hnew
    have hother : ∀ r', r' ≠ r → attemptOf t' r' = attemptOf t r' := by
      intro r' hne
      unfold attemptOf
      rw [hr, Function.update_of_ne hne]
    refine ⟨fun r' x hx => ?_, fun r' d stage hx hst => ?_⟩
    · by_cases hne : r' = r
      · rw [hne, hself] at hx
        cases hx
      · rw [← hother r' hne]
        exact hx
    · by_cases hne : r' = r
      · rw [hne] at hx
        rw [hold d stage hx] at hst
        cases hst
      · rw [hother r' hne]
        exact hx
  cases step_change hs with
  | outside _ _ hr _ _ _ => exact same hr
  | reserved _ _ _ _ hr _ _ _ _ => exact same hr
  | reopened _ _ _ _ _ _ _ hr _ _ _ => exact same hr
  | started w jobId j _ _ heq =>
      refine put t.nextRun _ rfl (fun d stage hx => ?_) (by rw [heq])
      obtain ⟨run, e, c, hrun, -⟩ := attemptOf_eq_some hx
      exact absurd (hwf.lt_nextRun hrun) (lt_irrefl _)
  | planned r i run next _ _ _ => exact absurd rfl (ha r i)
  | left r i run _ _ => exact absurd rfl (ha r i)
  | threw r run _ _ heq => exact put r _ rfl (hd r (.inl rfl)) (by rw [heq]; rfl)
  | crashed r run _ heq => exact put r _ rfl (hd r (.inr rfl)) (by rw [heq]; rfl)

/-- A run without an attempt makes a step, perhaps the one that claims an attempt. -/
theorem run_tallied {r : ℕ} {i : Input} (hwf : Wf s.sys) (h : Tallied ccfg s)
    (hq : Sequential s (.run r i)) (hno : attemptOf s.sys r = none)
    (hs : stepWith cfg ccfg s (.run r i) = some s') : Tallied ccfg s' := by
  obtain ⟨sys, hsys, rfl⟩ := Option.map_eq_some_iff.1 hs
  simp only [answered, circuitsAfter, logAfter, hno] at hsys ⊢
  obtain ⟨run, hrun, hgo | ⟨next, hp, rfl⟩⟩ := run_eq_some hsys
  · obtain ⟨-, queue, rfl⟩ := letGo_eq_some hgo
    have hother : ∀ r', attemptOf { setRun s.sys r none with queue := queue } r' =
        attemptOf s.sys r' := by
      intro r'
      by_cases hne : r' = r
      · subst hne
        rw [hno]
        simp [attemptOf, setRun]
      · simp [attemptOf, setRun, Function.update_of_ne hne]
    exact h.of_attempts rfl (fun _ => rfl) (fun r' x hx => (hother r').symm.trans hx)
      fun r' d stage hx _ => (hother r').trans hx
  · have hin : attemptIn run.phase = none := by simpa [attemptOf, hrun] using hno
    rcases attemptIn_planned hp hin with hnone | ⟨d, e, hclaim, hnew⟩
    · have hother : ∀ r', attemptOf (applyNext s.sys r run next) r' = attemptOf s.sys r' := by
        intro r'
        by_cases hne : r' = r
        · subst hne
          rw [attemptOf_applyNext_self, hnone, hno]
        · exact attemptOf_applyNext_of_ne hne
      exact h.of_attempts rfl (fun _ => rfl) (fun r' x hx => (hother r').symm.trans hx)
        fun r' d stage hx _ => (hother r').trans hx
    · -- the new attempt is the only one to its endpoint
      have hself : attemptOf (applyNext s.sys r run next) r = some (d, .allow) := by
        rw [attemptOf_applyNext_self, hnew]
      have hold : ∀ {r' x}, r' ≠ r → attemptOf (applyNext s.sys r run next) r' = some x →
          attemptOf s.sys r' = some x := fun hne hx =>
        (attemptOf_applyNext_of_ne hne).symm.trans hx
      have halone : ∀ r' d' stage, attemptOf s.sys r' = some (d', stage) →
          d'.endpointId ≠ d.endpointId := by
        intro r' d' stage hx
        obtain ⟨run', e', c', hrun', -⟩ := attemptOf_eq_some hx
        exact hq run d e hrun hclaim r' (hwf.lt_nextRun hrun') d' stage hx
      refine ⟨fun r₁ r₂ d₁ d₂ st₁ st₂ h₁ h₂ he => ?_, fun r' d' stage hx => ?_, fun x => ?_⟩
      · by_cases hr₁ : r₁ = r
        · by_cases hr₂ : r₂ = r
          · rw [hr₁, hr₂]
          · rw [hr₁, hself] at h₁
            cases h₁
            exact absurd he.symm (halone r₂ d₂ st₂ (hold hr₂ h₂))
        · by_cases hr₂ : r₂ = r
          · rw [hr₂, hself] at h₂
            cases h₂
            exact absurd he (halone r₁ d₁ st₁ (hold hr₁ h₁))
          · exact h.one r₁ r₂ d₁ d₂ st₁ st₂ (hold hr₁ h₁) (hold hr₂ h₂) he
      · by_cases hr' : r' = r
        · rw [hr', hself] at hx
          cases hx
          trivial
        · exact h.held r' d' stage (hold hr' hx)
      · rcases h.behind x with hle | ⟨r', d', stage, hx, he, hst⟩
        · exact .inl hle
        · refine .inr ⟨r', d', stage, ?_, he, hst⟩
          have hne : r' ≠ r := by
            rintro rfl
            rw [hno] at hx
            cases hx
          exact (attemptOf_applyNext_of_ne hne).trans hx

/-- **One step** of a sequential run that meets the condition. -/
theorem stepWith_tallied (hwf : Wf s.sys) (h : Tallied ccfg s) (hq : Sequential s a)
    (hd : Declared s a) (hs : stepWith cfg ccfg s a = some s') : Tallied ccfg s' := by
  have other : (∀ r i, a ≠ .run r i) → answered ccfg s a = a →
      circuitsAfter ccfg s a = s.circuits →
      (∀ sys e, failuresSince e (logAfter s sys a) = failuresSince e s.log) →
      (∀ r, a = .throw r ∨ a = .crash r → ∀ d stage, attemptOf s.sys r = some (d, stage) →
        Stage.isSucceeding stage = false) → Tallied ccfg s' := by
    intro ha hans hc hl hd
    obtain ⟨sys, hsys, rfl⟩ := Option.map_eq_some_iff.1 hs
    rw [hans] at hsys
    obtain ⟨hsub, hsup⟩ := attempts_of_other hwf ha hd hsys
    exact h.of_attempts hc (hl sys) hsub hsup
  cases a with
  | run r i =>
      cases hr : attemptOf s.sys r with
      | none => exact run_tallied hwf h hq hr hs
      | some x => exact attempt_tallied h hr hs
  | throw r =>
      refine other (by simp) rfl rfl (fun _ _ => rfl) fun r' hr' => ?_
      rcases hr' with hr' | hr' <;> cases hr'
      exact hd
  | crash r =>
      refine other (by simp) rfl rfl (fun _ _ => rfl) fun r' hr' => ?_
      rcases hr' with hr' | hr' <;> cases hr'
      exact hd
  | updateEndpoint id url description status =>
      refine other (by simp) rfl rfl (fun sys e => ?_) (by simp)
      cases status with
      | none => rfl
      | some status =>
          cases status with
          | active =>
              show (if id = e then 0 else failuresSince e s.log) = failuresSince e s.log
              split_ifs with he
              · rw [← he]
                exact hd.symm
              · rfl
          | disabledAuto => rfl
          | disabledManual => rfl
  | _ => exact other (by simp) rfl rfl (fun _ _ => rfl) (by simp)

/-! ## Whole runs -/

/-- A run of the system with its circuits is a run of the system. -/
theorem reach_of_path {P : WithCircuits → Action → Prop}
    (h : Path (stepWith cfg ccfg) P initWith s) : Reach cfg s.sys := by
  induction h with
  | refl => exact .refl
  | snoc _ _ hs ih =>
      obtain ⟨sys, hsys, rfl⟩ := Option.map_eq_some_iff.1 hs
      exact ih.snoc trivial hsys

theorem path_tallied
    (h : Path (stepWith cfg ccfg) (fun s a => Sequential s a ∧ Declared s a) initWith s) :
    Tallied ccfg s :=
  h.invariant_along (J := fun s => Wf s.sys) (fun _ hp => path_wf (reach_of_path hp))
    (fun _ _ _ hwf hI hP hs => stepWith_tallied hwf hI hP.1 hP.2 hs) tallied_init

/-- **When disabling needs a full run of failures.**  In every sequential run in which each
update to `ACTIVE` comes when no attempt has failed since the last success (or the last such
update), and no process dies between a success and its report to the circuit: whenever
`process` sets an endpoint to `DISABLED_AUTO`, at least `disableAfter` attempts to it have
failed since the last success and the last update to `ACTIVE`. -/
theorem disabled_after_full_run (cfg : WorkerConfig) (ccfg : CircuitConfig) (s s' : WithCircuits)
    (a : Action) (e : Uuid)
    (h : Path (stepWith cfg ccfg) (fun s a => Sequential s a ∧ Declared s a) initWith s)
    (_ : stepWith cfg ccfg s a = some s') (hd : Disables s e a) :
    ccfg.disableAfter ≤ (failuresSince e s.log : ℤ) := by
  cases a with
  | run r i =>
      obtain ⟨d, hr, rfl⟩ := hd
      exact (path_tallied h).held r d (.endpointFailure true) hr
  | _ => cases hd

/-! ## Replaying runs -/

section Sample

open Sample

/-- No other run has an attempt to the endpoint of the delivery under way. -/
def noneUnderWay (s : State) (d : DeliveryRow) : Bool :=
  (List.range s.nextRun).all fun r =>
    (attemptOf s r).all fun x => x.1.endpointId ≠ d.endpointId

/-- The delivery a phase is about to claim an attempt of. -/
def claiming : Phase → Option DeliveryRow
  | .claim d _ => some d
  | _ => none

/-- `Sequential`, computed. -/
def sequential (s : WithCircuits) : Action → Bool
  | .run r _ => ((s.sys.runs r).bind fun run => claiming run.phase).all (noneUnderWay s.sys)
  | _ => true

theorem sequential_sound {s : WithCircuits} {a : Action} (h : sequential s a = true) :
    Sequential s a := by
  cases a with
  | run r i =>
      intro run d x hrun hphase r' hlt d' stage hx he
      have hall : noneUnderWay s.sys d = true := by
        simpa [sequential, hrun, hphase, claiming] using h
      have := List.all_eq_true.1 hall r' (List.mem_range.2 hlt)
      rw [hx] at this
      simp [he] at this
  | _ => trivial

/-- `Declared`, computed for runs in which nothing goes wrong. -/
def declared (s : WithCircuits) : Action → Bool
  | .updateEndpoint id _ _ (some .active) => failuresSince id s.log = 0
  | .throw _ | .crash _ => false
  | _ => true

theorem declared_sound {s : WithCircuits} {a : Action} (h : declared s a = true) :
    Declared s a := by
  cases a with
  | updateEndpoint id url description status =>
      cases status with
      | none => trivial
      | some status =>
          cases status with
          | active =>
              show failuresSince id s.log = 0
              exact of_decide_eq_true h
          | disabledAuto => trivial
          | disabledManual => trivial
  | throw r => cases h
  | crash r => cases h
  | _ => trivial

/-- The stage is the one that sets the endpoint to `DISABLED_AUTO`. -/
def isDisabling : Stage → Bool
  | .endpointFailure disable => disable
  | _ => false

/-- `Disables`, computed for a run. -/
def disables (s : WithCircuits) (r : ℕ) : Bool :=
  (attemptOf s.sys r).any fun x => x.1.endpointId = endpoint && isDisabling x.2

theorem disables_sound {s : WithCircuits} {r : ℕ} {i : Input} (h : disables s r = true) :
    Disables s endpoint (.run r i) := by
  obtain ⟨⟨d, stage⟩, hx, hd⟩ := (Option.any_eq_true _ _).1 h
  rw [Bool.and_eq_true, decide_eq_true_eq] at hd
  cases stage with
  | endpointFailure disable =>
      obtain rfl : disable = true := hd.2
      exact ⟨d, hx, hd.1⟩
  | _ => cases hd.2

/-- Up to five attempts. -/
def patient : WorkerConfig := { Sample.cfg with maxAttempts := 5 }

/-- Disable after two failures; the circuit does not open before that. -/
def strict : CircuitConfig := ⟨10, 1000, 2⟩

/-- Run 1 makes the second attempt with the endpoint from its cache, up to the update of the
endpoint. -/
def failingTwice : List Action :=
  failedOnce ++ [.take 0 job, .run 1 .none, .run 1 (.answer true), .run 1 .none, .run 1 .none] ++
    attempt 1 500 ++ [.run 1 .none]

/-- Run 1 disables the endpoint and ends; the endpoint is set to `ACTIVE`; run 2 makes the
third attempt, up to the update of the endpoint. -/
def failingAgain : List Action :=
  failingTwice ++ [.run 1 .none, .run 1 .none, .run 1 .none, .run 1 .none, .run 1 (.delay 0),
    .run 1 .none, .updateEndpoint endpoint none none (some .active), .take 0 job] ++ toClaim 2 ++
    attempt 2 500 ++ [.run 2 .none]

/-- Two failures in a row disable the endpoint. -/
theorem disabled_after_two_failures : ∃ s s' : WithCircuits,
    Path (stepWith patient strict) (fun s a => Sequential s a ∧ Declared s a) initWith s ∧
    stepWith patient strict s (.run 1 .none) = some s' ∧ Disables s endpoint (.run 1 .none) ∧
    strict.disableAfter ≤ (failuresSince endpoint s.log : ℤ) := by
  obtain ⟨s, hpath, hs⟩ := Path.exists_of_runChecked (stepWith patient strict)
    (P := fun s a => Sequential s a ∧ Declared s a) (p := fun s a => sequential s a && declared s a)
    (fun s a ha => by
      rw [Bool.and_eq_true] at ha
      exact ⟨sequential_sound ha.1, declared_sound ha.2⟩)
    initWith failingTwice
    (fun s => disables s 1 && (stepWith patient strict s (.run 1 .none)).isSome) (by decide +kernel)
  rw [Bool.and_eq_true] at hs
  obtain ⟨s', hs'⟩ := Option.isSome_iff_exists.1 hs.2
  have hd : Disables s endpoint (.run 1 .none) := disables_sound hs.1
  exact ⟨s, s', hpath, hs', hd, disabled_after_full_run patient strict s s' (.run 1 .none) endpoint
    hpath hs' hd⟩

/-- After two failures and a reactivation, one more failure disables the endpoint again: the
update to `ACTIVE` reset the endpoint's own counter, and not the one of its circuit. -/
theorem disabled_after_one_failure : ¬ (∀ (s s' : WithCircuits) (a : Action) (e : Uuid),
    Path (stepWith patient strict) Sequential initWith s → stepWith patient strict s a = some s' →
    Disables s e a → strict.disableAfter ≤ (failuresSince e s.log : ℤ)) := by
  intro h
  obtain ⟨s, hpath, hs⟩ := Path.exists_of_runChecked (stepWith patient strict)
    (P := Sequential) (p := sequential) (fun s a => sequential_sound) initWith failingAgain
    (fun s => disables s 2 && (stepWith patient strict s (.run 2 .none)).isSome &&
      decide (failuresSince endpoint s.log = 1)) (by decide +kernel)
  rw [Bool.and_eq_true, Bool.and_eq_true, decide_eq_true_eq] at hs
  obtain ⟨s', hs'⟩ := Option.isSome_iff_exists.1 hs.1.2
  have hle := h s s' (.run 2 .none) endpoint hpath hs' (disables_sound hs.1.1)
  rw [hs.2] at hle
  exact absurd hle (by decide)

end Sample

end System
end HookRelay
