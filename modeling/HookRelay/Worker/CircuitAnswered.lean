import HookRelay.Worker.CircuitCalls
import HookRelay.Worker.CircuitStore

/-!
# The circuit's store while Redis answers

The calls on a circuit are modelled twice: over a Redis that does whatever it is told, and over
one that may fail at any command.  The second one, told nothing but to answer, is the first.

* `Answered` — every command is answered, and nothing is lost or damaged.
* `State.Same` — two states in which Redis holds the same and every worker is at the same command.
* `step_answered` — the two make the same steps.
* `reachable_answered`, `answered_reachable` — so each run of one is a run of the other.
* `earned_of_reachable` — what a failing Redis does not break holds of the other one as well.
-/

namespace HookRelay
namespace CircuitStore

open Lib

variable {W : Type}

/-- The action, and the answer if it is a command. -/
def answered : Circuit.Action W → Action W
  | .advance ms => .advance ms
  | .allow w => .allow w
  | .report w ok => .report w ok
  | .command w => .command w .answered

/-- Redis does not fail. -/
def Answered (_ : State W) (a : Action W) : Prop := ∃ b, a = answered b

/-- The two calls are at the same command, with the same snapshot to store. -/
inductive Call.Same : Circuit.Call → Call → Prop
  | idle : Same .idle .idle
  | allowGet (now : ℕ) : Same (.allowGet now) (.allowGet now)
  | allowNx (now : ℕ) (current next : CircuitSnapshot) :
      Same (.allowNx now current next) (.allowNx now next)
  | allowSet (now wonAt : ℕ) (next : CircuitSnapshot) :
      Same (.allowSet next wonAt) (.allowSet now next)
  | attempting (probe : Option ℕ) : Same (.attempting probe) .attempting
  | successSet (now : ℕ) (probe : Option ℕ) : Same (.successSet probe) (.successSet now)
  | successDel (probe : Option ℕ) : Same (.successDel probe) .successDel
  | failureGet (now : ℕ) (probe : Option ℕ) : Same (.failureGet now probe) (.failureGet now)
  | failureSet (now : ℕ) (next : CircuitSnapshot) (disable : Bool) (probe : Option ℕ) :
      Same (.failureSet next probe) (.failureSet now next disable)
  | failureDel (disable : Bool) (probe : Option ℕ) : Same (.failureDel probe) (.failureDel disable)

/-- The two states agree in the clock, the keys, the calls and the failures reported so far. -/
structure State.Same (t : Circuit.State W) (s : State W) : Prop where
  now : s.now = t.now
  read : s.store.read = some t.keys.read
  probe : s.store.probe = t.keys.probe
  calls : ∀ w, Call.Same (t.calls w) (s.calls w)
  recorded : s.recorded = t.reports

theorem same_init : State.Same (Circuit.init : Circuit.State W) init :=
  ⟨rfl, rfl, rfl, fun _ => .idle, rfl⟩

variable {cfg : CircuitConfig} {t : Circuit.State W} {s : State W} {w : W}

/-- The probe key is free for the one if it is not taken for the other. -/
theorem State.Same.probeFree (h : State.Same t s) :
    s.store.probeFree s.now = !t.keys.probeTaken t.now := by
  rw [Store.probeFree, Circuit.Keys.probeTaken, h.probe, h.now]
  cases t.keys.probe with
  | none => rfl
  | some expires =>
      rw [Option.all_some, Option.any_some, ← decide_not]
      exact decide_eq_decide.2 not_lt.symm

/-- A `SET` that Redis executes. -/
theorem State.Same.set (h : State.Same t s) (next : CircuitSnapshot) (call : Circuit.Timed)
    (grants : List ℕ) {reports : ℕ}
    (hreports : reports = if call.transition = .onFailure then t.reports + 1 else t.reports) :
    State.Same { t with keys := t.keys.write next, grants := grants, reports := reports }
      (s.set .answered next call) := by
  have hexec : Fate.answered.executed = true := rfl
  rw [State.set, if_pos hexec]
  exact ⟨h.now, Store.read_write _ _, h.probe, h.calls, by rw [hreports, ← h.recorded]⟩

/-- A `DEL` that Redis executes. -/
theorem State.Same.del (h : State.Same t s) :
    State.Same { t with keys := t.keys.delProbe } (s.del .answered) :=
  ⟨h.now, h.read, rfl, h.calls, h.recorded⟩

variable [DecidableEq W]

/-- A worker moves on. -/
theorem State.Same.put {c : Circuit.Call} {c' : Call} (h : State.Same t s) (hc : Call.Same c c') :
    State.Same (t.put w c) (s.put w c') := by
  refine ⟨h.now, h.read, h.probe, fun x => ?_, h.recorded⟩
  by_cases hx : x = w
  · subst hx
    simpa [Circuit.State.put, State.put] using hc
  · simpa [Circuit.State.put, State.put, Function.update_of_ne hx] using h.calls x

/-- A call begins. -/
theorem State.Same.begin {c : Circuit.Call} {c' : Call} {transition : Circuit.Transition}
    (h : State.Same t s) (hc : Call.Same c c') :
    State.Same (t.put w c) (s.begin w c' transition) :=
  State.Same.put (s := { s with made := _ :: s.made })
    ⟨h.now, h.read, h.probe, h.calls, h.recorded⟩ hc

theorem State.Same.refuse (h : State.Same t s) : State.Same (t.put w .idle) (s.refuse w) :=
  State.Same.put (s := { s with refusals := _ :: s.refusals })
    ⟨h.now, h.read, h.probe, h.calls, h.recorded⟩ .idle

theorem State.Same.allowGot (h : State.Same t s) (now : ℕ) :
    State.Same (t.put w (Circuit.allowGot cfg t.keys.read now))
      (allowGot cfg s w now t.keys.read) := by
  unfold Circuit.allowGot CircuitStore.allowGot
  simp only
  split_ifs
  · exact h.put (.allowNx _ _ _)
  · exact h.put (.attempting _)
  · exact h.refuse

theorem commanded_answered (h : State.Same t s) (w : W) :
    Option.Rel State.Same (Circuit.commanded cfg t w (t.calls w))
      (commanded cfg s w .answered (s.calls w)) := by
  have hc := h.calls w
  generalize t.calls w = c, s.calls w = c' at hc
  cases hc with
  | idle | attempting => exact .none
  | allowGet now =>
      rw [commanded, if_pos rfl, h.read]
      exact .some (h.allowGot now)
  | allowNx now current next =>
      rw [Circuit.commanded, commanded, if_pos rfl, h.probeFree, Circuit.Keys.setNx]
      cases htaken : t.keys.probeTaken t.now with
      | true => exact .some h.refuse
      | false =>
          have hnx : State.Same { t with
              keys := { t.keys with probe := some (t.now + Circuit.probeTtlMs) } }
              (s.nx .answered) := by
            have hfree : s.store.probeFree s.now = true := by rw [h.probeFree, htaken]; rfl
            have hexec : Fate.answered.executed = true := rfl
            rw [State.nx, if_pos hexec, Store.setNx, if_pos hfree]
            exact ⟨h.now, h.read, congrArg (fun now => some (now + Circuit.probeTtlMs)) h.now,
              h.calls, h.recorded⟩
          exact .some (hnx.put (.allowSet _ _ _))
  | allowSet now wonAt next =>
      have hset := h.set next ⟨now, .decideAttempt⟩ (t.now :: t.grants) rfl
      exact .some (hset.put (.attempting _))
  | successSet now probe =>
      have hset := h.set Circuit.onSuccess ⟨now, .onSuccess⟩ [] rfl
      exact .some (hset.put (.successDel _))
  | successDel probe => exact .some (h.del.put .idle)
  | failureGet now probe =>
      rw [commanded, if_pos rfl, h.read]
      exact .some (h.put (.failureSet _ _ _ _))
  | failureSet now next disable probe =>
      have hset := h.set next ⟨now, .onFailure⟩ t.grants rfl
      exact .some (hset.put (.failureDel _ _))
  | failureDel disable probe =>
      have hdel := h.del.put (w := w) .idle
      rw [Circuit.commanded, commanded]
      cases disable with
      | true => exact .some ⟨hdel.now, hdel.read, hdel.probe, hdel.calls, hdel.recorded⟩
      | false => exact .some hdel

/-- **The same steps**: one is possible if the other is, and they lead to states that agree. -/
theorem step_answered (cfg : CircuitConfig) (h : State.Same t s) (a : Circuit.Action W) :
    Option.Rel State.Same (Circuit.step cfg t a) (step cfg s (answered a)) := by
  cases a with
  | advance ms =>
      exact .some ⟨congrArg (· + ms) h.now, h.read, h.probe, h.calls, h.recorded⟩
  | allow w =>
      have hc := h.calls w
      simp only [Circuit.step, answered, step]
      generalize t.calls w = c, s.calls w = c' at hc
      cases hc with
      | idle => exact .some (h.now ▸ h.begin (.allowGet _))
      | _ => exact .none
  | report w ok =>
      have hc := h.calls w
      simp only [Circuit.step, answered, step]
      generalize t.calls w = c, s.calls w = c' at hc
      cases hc with
      | attempting probe =>
          cases ok with
          | true => exact .some (h.begin (.successSet _ _))
          | false => exact .some (h.now ▸ h.begin (.failureGet _ _))
      | _ => exact .none
  | command w => exact commanded_answered h w

/-- Every run over a Redis that never fails is one in which every command is answered. -/
theorem reachable_answered (h : Reachable (Circuit.step cfg) Circuit.init t) :
    ∃ s : State W, Path (step cfg) Answered init s ∧ State.Same t s := by
  refine h.invariant (I := fun t => ∃ s : State W, Path (step cfg) Answered init s ∧
    State.Same t s) (fun t a t' hI _ ht => ?_) ⟨init, .refl, same_init⟩
  obtain ⟨s, hpath, hsame⟩ := hI
  have hrel := step_answered cfg hsame a
  rw [ht] at hrel
  cases hs : step cfg s (answered a) with
  | none => rw [hs] at hrel; cases hrel
  | some s' =>
      rw [hs] at hrel
      cases hrel with
      | some hsame' => exact ⟨s', hpath.snoc ⟨a, rfl⟩ hs, hsame'⟩

/-- And every run in which every command is answered is one of the others. -/
theorem answered_reachable (h : Path (step cfg) Answered init s) :
    ∃ t : Circuit.State W, Reachable (Circuit.step cfg) Circuit.init t ∧ State.Same t s := by
  refine h.invariant (I := fun s => ∃ t : Circuit.State W,
    Reachable (Circuit.step cfg) Circuit.init t ∧ State.Same t s)
    (fun s a s' hI ha hs => ?_) ⟨Circuit.init, .refl, same_init⟩
  obtain ⟨t, hpath, hsame⟩ := hI
  obtain ⟨b, rfl⟩ := ha
  have hrel := step_answered cfg hsame b
  rw [hs] at hrel
  cases ht : Circuit.step cfg t b with
  | none => rw [ht] at hrel; cases hrel
  | some t' =>
      rw [ht] at hrel
      cases hrel with
      | some hsame' => exact ⟨t', hpath.snoc trivial ht, hsame'⟩

/-- **A circuit that is not closed has been paid for**, at any moment of any number of calls: its
count is at least `openAfter`, and no more than the failures reported. -/
theorem earned_of_reachable (h : Reachable (Circuit.step cfg) Circuit.init t) :
    Earned cfg t.reports t.keys.read := by
  obtain ⟨s, hpath, hsame⟩ := reachable_answered h
  have htimely : Timely cfg s :=
    hpath.invariant (fun _ _ _ hI _ hs => step_timely hI hs) timely_init
  obtain ⟨c, hread, hearned⟩ := htimely.stored
  rw [hsame.read, Option.some.injEq] at hread
  rw [hread, ← hsame.recorded]
  exact hearned

end CircuitStore
end HookRelay
