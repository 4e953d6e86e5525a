import Mathlib.Tactic

/-!
# Transition systems with a partial step function

A system is a state type `σ`, an action type `α` and a function
`step : σ → α → Option σ`: `none` says that the action is not possible in that
state.  Everything nondeterministic is in the action, so a run is a list of
actions and can be replayed by evaluation.

* `Path step P s t` — a run from `s` to `t` each of whose actions was allowed by
  `P` in the state it was taken in.  `P` is how a theorem restricts the runs it
  is about: no crashes, no thrown errors, a condition on one kind of step.
* `Path.invariant` — the invariant rule, and `Path.invariant_along`, the same rule
  when the step lemma may use an invariant that is already known.
* `Path.rel` — a reflexive and transitive relation that every step respects holds
  between the two ends of a run.
* `run` — replaying a list of actions; `run_append`, `run_view`, `run_invariant` and
  `run_induction` are the rules for replays.
* `runChecked`, `Path.exists_of_runChecked` — a replay with a check of every action is a path.
-/

namespace Lib

variable {σ α : Type*}

/-- A run of the system from one state to another, every action of which was
allowed by `P` in the state it was taken in. -/
inductive Path (step : σ → α → Option σ) (P : σ → α → Prop) (s : σ) : σ → Prop
  | refl : Path step P s s
  | snoc {t u : σ} {a : α} : Path step P s t → P t a → step t a = some u → Path step P s u

/-- No restriction on the actions of a run. -/
def anyAction (_ : σ) (_ : α) : Prop := True

/-- The states a system gets to from `init`. -/
abbrev Reachable (step : σ → α → Option σ) (init : σ) : σ → Prop := Path step anyAction init

namespace Path

variable {step : σ → α → Option σ} {P Q : σ → α → Prop} {s t u : σ}

theorem single {a : α} (hP : P s a) (h : step s a = some t) : Path step P s t :=
  .snoc .refl hP h

theorem trans (h₁ : Path step P s t) (h₂ : Path step P t u) : Path step P s u := by
  induction h₂ with
  | refl => exact h₁
  | snoc _ hP hs ih => exact .snoc ih hP hs

/-- Fewer restrictions, more runs. -/
theorem mono (hPQ : ∀ s a, P s a → Q s a) (h : Path step P s t) : Path step Q s t := by
  induction h with
  | refl => exact .refl
  | snoc _ hP hs ih => exact .snoc ih (hPQ _ _ hP) hs

/-- Every restricted run is a run. -/
theorem reachable (h : Path step P s t) : Reachable step s t := h.mono fun _ _ _ => trivial

/-- **The invariant rule.**  What one allowed step preserves, a whole run preserves. -/
theorem invariant {I : σ → Prop} (hstep : ∀ t a u, I t → P t a → step t a = some u → I u)
    (h : Path step P s t) (h0 : I s) : I t := by
  induction h with
  | refl => exact h0
  | snoc _ hP hs ih => exact hstep _ _ _ ih hP hs

/-- The invariant rule on top of an invariant `J` that is already known to hold
in every state of the run. -/
theorem invariant_along {I J : σ → Prop} (hJ : ∀ t, Path step P s t → J t)
    (hstep : ∀ t a u, J t → I t → P t a → step t a = some u → I u)
    (h : Path step P s t) (h0 : I s) : I t := by
  induction h with
  | refl => exact h0
  | snoc hp hP hs ih => exact hstep _ _ _ (hJ _ hp) ih hP hs

/-- A preorder that every allowed step respects relates the two ends of a run. -/
theorem rel {R : σ → σ → Prop} (hrefl : ∀ t, R t t) (htrans : ∀ a b c, R a b → R b c → R a c)
    (hstep : ∀ t a u, Path step P s t → P t a → step t a = some u → R t u)
    (h : Path step P s t) : R s t := by
  induction h with
  | refl => exact hrefl _
  | snoc hp hP hs ih => exact htrans _ _ _ ih (hstep _ _ _ hp hP hs)

end Path

/-! ## Replaying a list of actions -/

/-- Replay a list of actions; `none` as soon as one of them is not possible. -/
def run (step : σ → α → Option σ) : σ → List α → Option σ
  | s, [] => some s
  | s, a :: as => (step s a).bind fun t => run step t as

theorem run_append (step : σ → α → Option σ) (s : σ) (as bs : List α) :
    run step s (as ++ bs) = (run step s as).bind fun t => run step t bs := by
  induction as generalizing s with
  | nil => rfl
  | cons a as ih =>
      show (step s a).bind _ = ((step s a).bind _).bind _
      rw [Option.bind_assoc]
      exact Option.bind_congr fun t _ => ih t

/-- A replay that goes on after another one. -/
theorem run_append_of_eq {step : σ → α → Option σ} {s t : σ} {as : List α}
    (h : run step s as = some t) (bs : List α) : run step s (as ++ bs) = run step t bs := by
  rw [run_append, h]
  rfl

/-- A view of the state that every step respects is respected by a replay. -/
theorem run_view {τ : Type*} {step : σ → α → Option σ} {step' : τ → α → Option τ} {view : σ → τ}
    (hstep : ∀ s a t, step s a = some t → step' (view s) a = some (view t)) :
    ∀ {as : List α} {s t : σ}, run step s as = some t → run step' (view s) as = some (view t) := by
  intro as
  induction as with
  | nil => intro s t h; cases h; rfl
  | cons a as ih =>
      intro s t h
      obtain ⟨u, hu, hrest⟩ := Option.bind_eq_some_iff.1 h
      show (step' (view s) a).bind _ = _
      rw [hstep s a u hu]
      exact ih hrest

/-- A property that every step preserves holds after a replay. -/
theorem run_invariant {step : σ → α → Option σ} {I : σ → Prop}
    (hstep : ∀ s a t, I s → step s a = some t → I t) :
    ∀ {as : List α} {s t : σ}, I s → run step s as = some t → I t := by
  intro as
  induction as with
  | nil => intro s t hs h; cases h; exact hs
  | cons a as ih =>
      intro s t hs h
      obtain ⟨u, hu, hrest⟩ := Option.bind_eq_some_iff.1 h
      exact ih (hstep s a u hs hu) hrest

/-- What holds of a run and the actions it is made of, if every further action keeps it. -/
theorem run_induction {step : σ → α → Option σ} {I : List α → σ → Prop}
    (hstep : ∀ bs s a t, I bs s → step s a = some t → I (bs ++ [a]) t) {as : List α} {s t : σ}
    (hs : I [] s) (h : run step s as = some t) : I as t := by
  have further : ∀ as bs s, I bs s → run step s as = some t → I (bs ++ as) t := by
    intro as
    induction as with
    | nil => intro bs s hs h; cases h; simpa using hs
    | cons a as ih =>
        intro bs s hs h
        obtain ⟨u, hu, hrest⟩ := Option.bind_eq_some_iff.1 h
        simpa using ih (bs ++ [a]) u (hstep bs s a u hs hu) hrest
  simpa using further as [] s hs h

/-- Replay a list of actions, checking the Boolean guard `p` before each. -/
def runChecked (step : σ → α → Option σ) (p : σ → α → Bool) : σ → List α → Option σ
  | s, [] => some s
  | s, a :: as => if p s a then (step s a).bind fun t => runChecked step p t as else none

/-- The guard may rest on an invariant of the replayed run. -/
theorem Path.of_runChecked_along {step : σ → α → Option σ} {P : σ → α → Prop} {J : σ → Prop}
    {p : σ → α → Bool} (hp : ∀ s a, J s → p s a = true → P s a)
    (hJ : ∀ s a t, J s → p s a = true → step s a = some t → J t) :
    ∀ {as : List α} {s t : σ}, J s → runChecked step p s as = some t → Path step P s t := by
  intro as
  induction as with
  | nil => intro s t _ h; cases h; exact .refl
  | cons a as ih =>
      intro s t hs h
      rw [runChecked] at h
      split at h
      · rename_i hpa
        obtain ⟨u, hu, hrest⟩ := Option.bind_eq_some_iff.1 h
        exact (Path.single (hp s a hs hpa) hu).trans (ih (hJ s a u hs hpa hu) hrest)
      · exact absurd h (by simp)

theorem Path.exists_of_runChecked_along (step : σ → α → Option σ) {P : σ → α → Prop}
    {J : σ → Prop} {p : σ → α → Bool} (hp : ∀ s a, J s → p s a = true → P s a)
    (hJ : ∀ s a t, J s → p s a = true → step s a = some t → J t) (s : σ) (hs : J s) (as : List α)
    (Q : σ → Bool) (h : (runChecked step p s as).any Q = true) :
    ∃ t, Path step P s t ∧ Q t = true := by
  cases ht : runChecked step p s as with
  | none => rw [ht] at h; exact absurd h (by simp)
  | some t =>
      rw [ht] at h
      exact ⟨t, Path.of_runChecked_along hp hJ hs ht, h⟩

/-- A replay that ends in a state with a property is a run to such a state. -/
theorem Path.exists_of_runChecked (step : σ → α → Option σ) {P : σ → α → Prop}
    {p : σ → α → Bool} (hp : ∀ s a, p s a = true → P s a) (s : σ) (as : List α) (Q : σ → Bool)
    (h : (runChecked step p s as).any Q = true) : ∃ t, Path step P s t ∧ Q t = true :=
  Path.exists_of_runChecked_along step (fun s a (_ : True) => hp s a) (fun _ _ _ _ _ _ => trivial)
    s trivial as Q h

end Lib
