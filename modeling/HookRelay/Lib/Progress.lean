import HookRelay.Lib.Transition

/-!
# What a run comes to

A potential is a number that the state has.  If every step of one kind lowers it, and only steps
of another kind raise it, then the steps of the first kind are bounded by those of the second;
and a run that goes on for ever, and makes a step of the first kind whenever one stays possible,
reaches the states in which none is possible.

* `Counted`, `Counted.bounded` — a run with the costs and the gains of its steps, and the bound.
* `runCounted` — a replay that counts them.
* `Forever` — a run without an end; its beginnings are runs (`Forever.path`).
* `WeaklyFair`, `Forever.eventually` — the progress rule.
* `Path.exists_forever` — a run and something to go on with.
-/

namespace Lib

variable {σ α : Type*}

/-- A run with what its steps cost, and with what they bring in. -/
inductive Counted (step : σ → α → Option σ) (P : σ → α → Prop) (cost gain : σ → α → ℕ) (s : σ) :
    ℕ → ℕ → σ → Prop
  | refl : Counted step P cost gain s 0 0 s
  | snoc {n k : ℕ} {t u : σ} {a : α} : Counted step P cost gain s n k t → P t a →
      step t a = some u → Counted step P cost gain s (n + cost t a) (k + gain t a) u

namespace Counted

variable {step : σ → α → Option σ} {P : σ → α → Prop} {cost gain : σ → α → ℕ} {s t : σ} {n k : ℕ}

theorem path (h : Counted step P cost gain s n k t) : Path step P s t := by
  induction h with
  | refl => exact .refl
  | snoc _ hP hs ih => exact .snoc ih hP hs

/-- **The potential rule.**  What the steps cost is paid for by the potential `Φ`, to which each
unit of gain adds at most `b`. -/
theorem bounded (Φ : σ → ℕ) (b : ℕ) {J : σ → Prop} (hJ : ∀ t, Path step P s t → J t)
    (hstep : ∀ t a u, J t → P t a → step t a = some u → Φ u + cost t a ≤ Φ t + b * gain t a)
    (h : Counted step P cost gain s n k t) : Φ t + n ≤ Φ s + b * k := by
  induction h with
  | refl => exact le_refl _
  | @snoc n k t u a ht hP hs ih =>
      have hle := hstep t a u (hJ t ht.path) hP hs
      rw [Nat.mul_add]
      omega

end Counted

/-- Replay a list of actions with a check of each, and count on. -/
def runCounted (step : σ → α → Option σ) (p : σ → α → Bool) (cost gain : σ → α → ℕ) :
    ℕ → ℕ → σ → List α → Option (ℕ × ℕ × σ)
  | n, k, s, [] => some (n, k, s)
  | n, k, s, a :: as =>
      if p s a then
        (step s a).bind fun t => runCounted step p cost gain (n + cost s a) (k + gain s a) t as
      else none

theorem Counted.of_runCounted {step : σ → α → Option σ} {P : σ → α → Prop} {p : σ → α → Bool}
    {cost gain : σ → α → ℕ} (hp : ∀ s a, p s a = true → P s a) {init : σ} :
    ∀ {as : List α} {n k m l : ℕ} {s t : σ}, Counted step P cost gain init n k s →
      runCounted step p cost gain n k s as = some (m, l, t) → Counted step P cost gain init m l t := by
  intro as
  induction as with
  | nil => intro n k m l s t hs h; cases h; exact hs
  | cons a as ih =>
      intro n k m l s t hs h
      rw [runCounted] at h
      split at h
      · rename_i hpa
        obtain ⟨u, hu, hrest⟩ := Option.bind_eq_some_iff.1 h
        exact ih (.snoc hs (hp s a hpa) hu) hrest
      · cases h

/-- A replay that ends with these counts in a state with a property. -/
theorem Counted.exists_of_runCounted (step : σ → α → Option σ) {P : σ → α → Prop}
    {p : σ → α → Bool} (cost gain : σ → α → ℕ) (hp : ∀ s a, p s a = true → P s a) (init : σ)
    (as : List α) (n k : ℕ) (Q : σ → Bool)
    (h : ((runCounted step p cost gain 0 0 init as).any
      fun x => decide (x.1 = n) && decide (x.2.1 = k) && Q x.2.2) = true) :
    ∃ t, Counted step P cost gain init n k t ∧ Q t = true := by
  simp only [Option.any_eq_true, Bool.and_eq_true, decide_eq_true_eq] at h
  obtain ⟨⟨m, l, t⟩, ht, ⟨rfl, rfl⟩, hQ⟩ := h
  exact ⟨t, .of_runCounted hp .refl ht, hQ⟩

/-! ## Runs without an end -/

/-- A run that goes on for ever. -/
structure Forever (step : σ → α → Option σ) (P : σ → α → Prop) (init : σ) where
  state : ℕ → σ
  action : ℕ → α
  start : state 0 = init
  next : ∀ n, step (state n) (action n) = some (state (n + 1))
  allowed : ∀ n, P (state n) (action n)

namespace Forever

variable {step : σ → α → Option σ} {P : σ → α → Prop} {init : σ} {C : σ → α → Bool}

/-- What has been reached so far. -/
theorem path (ρ : Forever step P init) (n : ℕ) : Path step P init (ρ.state n) := by
  induction n with
  | zero => rw [ρ.start]; exact .refl
  | succ n ih => exact .snoc ih (ρ.allowed n) (ρ.next n)

/-- A step of the kind `C` is allowed and possible. -/
def Enabled (step : σ → α → Option σ) (P : σ → α → Prop) (C : σ → α → Bool) (s : σ) : Prop :=
  ∃ a t, P s a ∧ C s a = true ∧ step s a = some t

/-- If a step of the kind `C` stays possible from some moment on, one is made. -/
def WeaklyFair (ρ : Forever step P init) (C : σ → α → Bool) : Prop :=
  ∀ n, (∀ m, n ≤ m → Enabled step P C (ρ.state m)) → ∃ m, n ≤ m ∧ C (ρ.state m) (ρ.action m) = true

/-- **The progress rule.**  If from some moment on no step raises the potential and steps of the
kind `C` lower it, and one of these is possible as long as `G` does not hold, then `G` holds some
time. -/
theorem eventually (ρ : Forever step P init) (hfair : ρ.WeaklyFair C) {Φ : σ → ℕ} {G : σ → Prop}
    (m : ℕ) (hstep : ∀ n, m ≤ n →
      Φ (ρ.state (n + 1)) + (C (ρ.state n) (ρ.action n)).toNat ≤ Φ (ρ.state n))
    (henabled : ∀ n, m ≤ n → ¬ G (ρ.state n) → Enabled step P C (ρ.state n)) :
    ∃ n, m ≤ n ∧ G (ρ.state n) := by
  induction hw : Φ (ρ.state m) using Nat.strong_induction_on generalizing m with
  | _ w ih =>
      by_contra hnever
      have hnot : ∀ n, m ≤ n → ¬ G (ρ.state n) := fun n hn hG => hnever ⟨n, hn, hG⟩
      obtain ⟨n, hn, hC⟩ := hfair m fun n hn => henabled n hn (hnot n hn)
      have hle : Φ (ρ.state n) ≤ w := by
        rw [← hw]
        clear hC
        induction n, hn using Nat.le_induction with
        | base => exact le_refl _
        | succ n hn ih => have := hstep n hn; omega
      have hlt := hstep n hn
      rw [hC, Bool.toNat_true] at hlt
      -- the step has lowered the potential, and what holds later holds later than `m`
      obtain ⟨n', hn', hG⟩ := ih _ (by omega) (n + 1) (fun i hi => hstep i (by omega))
        (fun i hi => henabled i (by omega)) rfl
      exact hnot n' (by omega) hG

end Forever

/-- A run goes on as the states and actions after it do. -/
theorem Path.exists_forever {step : σ → α → Option σ} {P : σ → α → Prop} {init t : σ}
    (h : Path step P init t) (state : ℕ → σ) (action : ℕ → α) (hstart : state 0 = t)
    (hnext : ∀ n, step (state n) (action n) = some (state (n + 1)))
    (hallowed : ∀ n, P (state n) (action n)) :
    ∃ (ρ : Forever step P init) (m : ℕ), ∀ n, ρ.state (m + n) = state n ∧
      ρ.action (m + n) = action n := by
  induction h generalizing state action with
  | refl => exact ⟨⟨state, action, hstart, hnext, hallowed⟩, 0, fun n => by simp⟩
  | @snoc t u a _ hP hs ih =>
      -- the last step of the run comes first in what follows the rest of it
      obtain ⟨ρ, m, hρ⟩ := ih (fun n => n.casesOn t state) (fun n => n.casesOn a action) rfl
        (fun n => by
          cases n with
          | zero => simpa [hstart] using hs
          | succ n => exact hnext n)
        (fun n => by
          cases n with
          | zero => exact hP
          | succ n => exact hallowed n)
      refine ⟨ρ, m + 1, fun n => ?_⟩
      rw [Nat.add_right_comm]
      exact hρ (n + 1)

end Lib
