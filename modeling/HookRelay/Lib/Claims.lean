import Mathlib.Logic.Function.Basic
import Mathlib.Tactic

/-!
# Numbered claims on a counter

Any number of runs work on one counter.  A run first **looks**: it reads the
counter.  Much later, and acting on the value it saw, it **claims** the next
number, which a unique index lets it do only if nobody has claimed that number
before.  A run that holds a claim works on it and finally **settles** it: the
counter becomes the claimed number.  A run may stop at any point; one that stops
while it holds a claim **abandons** it.  The counter is `live` while there is
something to do; only a live counter is worth looking at, settling says whether
it stays live, and it can be **reopened** from outside.

No lock is taken anywhere, and every value a run acts on is stale.  The invariant
`Inv` shows that this is nevertheless a mutual exclusion protocol:

* the numbers claimed are `1 … count`, and possibly `count + 1` (`Inv.taken_iff`);
* a run that holds a claim holds `count + 1`, so there is at most one of them
  (`Inv.unique`), and the counter is live as long as there is one;
* the counter never decreases (`Step.count_le`).

`Settled` is what holds in addition when no claim was ever abandoned: `count + 1`
is claimed only while some run holds it, so the counter can always be claimed
again when nobody does.
-/

namespace Lib
namespace Claims

variable {R : Type*}

/-- Where a run stands with respect to the counter. -/
inductive Phase where
  /-- It has not looked yet, or is through with it. -/
  | idle
  /-- It saw the counter at `k`. -/
  | seen (k : ℕ)
  /-- It saw the counter at `k` and claimed `k + 1`. -/
  | holding (k : ℕ)
  deriving DecidableEq

/-- A counter and the runs that work on it. -/
structure State (R : Type*) where
  /-- The counter. -/
  count : ℕ
  /-- There is something to do. -/
  live : Prop
  /-- The numbers that were claimed. -/
  taken : ℕ → Prop
  /-- Where each run stands. -/
  phase : R → Phase

/-- What can happen to the counter. -/
inductive Move (R : Type*) where
  | stay
  | look (r : R)
  | claim (r : R)
  | settle (r : R)
  | drop (r : R)
  | abandon (r : R)
  | reopen

/-- One move, as a relation between the state before and the state after. -/
inductive Step [DecidableEq R] : Move R → State R → State R → Prop
  | stay {s t : State R} : t.count = s.count → (t.live ↔ s.live) →
      (∀ n, t.taken n ↔ s.taken n) → t.phase = s.phase → Step .stay s t
  | look {s t : State R} (r : R) : (∀ k, s.phase r ≠ .holding k) → s.live →
      t.count = s.count → (t.live ↔ s.live) → (∀ n, t.taken n ↔ s.taken n) →
      t.phase = Function.update s.phase r (.seen s.count) → Step (.look r) s t
  | claim {s t : State R} (r : R) (k : ℕ) : s.phase r = .seen k → ¬ s.taken (k + 1) →
      t.count = s.count → (t.live ↔ s.live) → (∀ n, t.taken n ↔ s.taken n ∨ n = k + 1) →
      t.phase = Function.update s.phase r (.holding k) → Step (.claim r) s t
  | settle {s t : State R} (r : R) (k : ℕ) : s.phase r = .holding k → t.count = k + 1 →
      (∀ n, t.taken n ↔ s.taken n) → t.phase = Function.update s.phase r .idle →
      Step (.settle r) s t
  | drop {s t : State R} (r : R) : (∀ k, s.phase r ≠ .holding k) → t.count = s.count →
      (t.live ↔ s.live) → (∀ n, t.taken n ↔ s.taken n) →
      t.phase = Function.update s.phase r .idle → Step (.drop r) s t
  | abandon {s t : State R} (r : R) (k : ℕ) : s.phase r = .holding k → t.count = s.count →
      (t.live ↔ s.live) → (∀ n, t.taken n ↔ s.taken n) →
      t.phase = Function.update s.phase r .idle → Step (.abandon r) s t
  | reopen {s t : State R} : t.count = s.count → t.live → (∀ n, t.taken n ↔ s.taken n) →
      t.phase = s.phase → Step .reopen s t

/-! ## The invariant -/

/-- What holds of the counter, the claims and every run's stale copy. -/
structure Inv (s : State R) : Prop where
  taken_le : ∀ n, s.taken n → 1 ≤ n ∧ n ≤ s.count + 1
  taken_of_le : ∀ n, 1 ≤ n → n ≤ s.count → s.taken n
  seen : ∀ r k, s.phase r = .seen k → k ≤ s.count ∧ (k = s.count → s.live)
  holding : ∀ r k, s.phase r = .holding k → k = s.count ∧ s.live ∧ s.taken (k + 1)
  unique : ∀ r r' k k', s.phase r = .holding k → s.phase r' = .holding k' → r = r'

/-- The numbers claimed are `1 … count`, and `count + 1` when that one is. -/
theorem Inv.taken_iff {s : State R} (h : Inv s) (n : ℕ) :
    s.taken n ↔ (1 ≤ n ∧ n ≤ s.count) ∨ (n = s.count + 1 ∧ s.taken (s.count + 1)) := by
  constructor
  · intro hn
    obtain ⟨h1, h2⟩ := h.taken_le n hn
    rcases Nat.lt_or_ge s.count n with hlt | hle
    · have hn' : n = s.count + 1 := by omega
      exact Or.inr ⟨hn', hn' ▸ hn⟩
    · exact Or.inl ⟨h1, hle⟩
  · rintro (⟨h1, h2⟩ | ⟨rfl, h2⟩)
    · exact h.taken_of_le n h1 h2
    · exact h2

/-- A claim that the index lets through is on the number after the counter. -/
theorem Inv.eq_count_of_free {s : State R} (h : Inv s) {r : R} {k : ℕ}
    (hr : s.phase r = .seen k) (hfree : ¬ s.taken (k + 1)) : k = s.count := by
  have hle := (h.seen r k hr).1
  by_contra hne
  exact hfree (h.taken_of_le (k + 1) (by omega) (by omega))

/-- While the next number is free nobody holds a claim. -/
theorem Inv.not_holding_of_free {s : State R} (h : Inv s) (hfree : ¬ s.taken (s.count + 1))
    (r : R) (k : ℕ) : s.phase r ≠ .holding k := by
  intro hr
  obtain ⟨rfl, -, ht⟩ := h.holding r k hr
  exact hfree ht

/-- A fresh counter satisfies the invariant. -/
theorem Inv.of_fresh {s : State R} (hc : s.count = 0) (ht : ∀ n, ¬ s.taken n)
    (hp : ∀ r, s.phase r = .idle) : Inv s where
  taken_le := fun n hn => absurd hn (ht n)
  taken_of_le := fun n h1 h2 => by omega
  seen := fun r k hr => by simp [hp r] at hr
  holding := fun r k hr => by simp [hp r] at hr
  unique := fun r r' k k' hr _ => by simp [hp r] at hr

variable [DecidableEq R]

theorem phase_update {f : R → Phase} {r r' : R} {p q : Phase}
    (h : Function.update f r p r' = q) : (r' = r ∧ p = q) ∨ (r' ≠ r ∧ f r' = q) := by
  by_cases hr : r' = r
  · subst hr
    exact Or.inl ⟨rfl, by simpa using h⟩
  · exact Or.inr ⟨hr, by simpa [Function.update_of_ne hr] using h⟩

/-- Moves that change nothing but let a run go idle keep the invariant. -/
theorem Inv.of_idle {s t : State R} (h : Inv s) {r : R} (hc : t.count = s.count)
    (hl : t.live ↔ s.live) (ht : ∀ n, t.taken n ↔ s.taken n)
    (hp : t.phase = Function.update s.phase r .idle) : Inv t where
  taken_le := fun n hn => by rw [hc]; exact h.taken_le n ((ht n).1 hn)
  taken_of_le := fun n h1 h2 => (ht n).2 (h.taken_of_le n h1 (hc ▸ h2))
  seen := by
    intro r' k hr'
    rw [hp] at hr'
    rcases phase_update hr' with ⟨-, hne⟩ | ⟨-, hr'⟩
    · exact absurd hne (by simp)
    · rw [hc, hl]; exact h.seen r' k hr'
  holding := by
    intro r' k hr'
    rw [hp] at hr'
    rcases phase_update hr' with ⟨-, hne⟩ | ⟨-, hr'⟩
    · exact absurd hne (by simp)
    · rw [hc, hl, ht]; exact h.holding r' k hr'
  unique := by
    intro r₁ r₂ k₁ k₂ h₁ h₂
    rw [hp] at h₁ h₂
    rcases phase_update h₁ with ⟨-, hne⟩ | ⟨-, h₁⟩
    · exact absurd hne (by simp)
    rcases phase_update h₂ with ⟨-, hne⟩ | ⟨-, h₂⟩
    · exact absurd hne (by simp)
    exact h.unique r₁ r₂ k₁ k₂ h₁ h₂

omit [DecidableEq R] in
/-- Moves that leave the counter, the claims and the runs alone, and do not close
a live counter, keep the invariant. -/
theorem Inv.of_same {s t : State R} (h : Inv s) (hc : t.count = s.count)
    (hl : s.live → t.live) (ht : ∀ n, t.taken n ↔ s.taken n) (hp : t.phase = s.phase) : Inv t where
  taken_le := fun n hn => by rw [hc]; exact h.taken_le n ((ht n).1 hn)
  taken_of_le := fun n h1 h2 => (ht n).2 (h.taken_of_le n h1 (hc ▸ h2))
  seen := by
    intro r k hr
    rw [hp] at hr
    obtain ⟨hle, hlive⟩ := h.seen r k hr
    exact ⟨hc ▸ hle, fun hk => hl (hlive (by rw [hk, hc]))⟩
  holding := by
    intro r k hr
    rw [hp] at hr
    obtain ⟨hk, hlive, htk⟩ := h.holding r k hr
    exact ⟨by rw [hk, hc], hl hlive, (ht _).2 htk⟩
  unique := fun r r' k k' h₁ h₂ => h.unique r r' k k' (hp ▸ h₁) (hp ▸ h₂)

/-- **The step lemma.**  Every move keeps the invariant. -/
theorem Step.inv {m : Move R} {s t : State R} (hs : Step m s t) (h : Inv s) : Inv t := by
  cases hs with
  | stay hc hl ht hp => exact h.of_same hc hl.2 ht hp
  | reopen hc hl ht hp => exact h.of_same hc (fun _ => hl) ht hp
  | drop _ _ hc hl ht hp => exact h.of_idle hc hl ht hp
  | abandon _ _ _ hc hl ht hp => exact h.of_idle hc hl ht hp
  | look r _ hlive hc hl ht hp =>
      refine ⟨fun n hn => ?_, fun n h1 h2 => ?_, fun r' k hr' => ?_, fun r' k hr' => ?_,
        fun r₁ r₂ k₁ k₂ h₁ h₂ => ?_⟩
      · rw [hc]; exact h.taken_le n ((ht n).1 hn)
      · exact (ht n).2 (h.taken_of_le n h1 (hc ▸ h2))
      · rw [hp] at hr'
        rcases phase_update hr' with ⟨-, hk⟩ | ⟨-, hr'⟩
        · cases hk
          exact ⟨hc ▸ le_refl _, fun _ => hl.2 hlive⟩
        · rw [hc, hl]; exact h.seen r' k hr'
      · rw [hp] at hr'
        rcases phase_update hr' with ⟨-, hk⟩ | ⟨-, hr'⟩
        · exact absurd hk (by simp)
        · rw [hc, hl, ht]; exact h.holding r' k hr'
      · rw [hp] at h₁ h₂
        rcases phase_update h₁ with ⟨-, hk⟩ | ⟨-, h₁⟩
        · exact absurd hk (by simp)
        rcases phase_update h₂ with ⟨-, hk⟩ | ⟨-, h₂⟩
        · exact absurd hk (by simp)
        exact h.unique r₁ r₂ k₁ k₂ h₁ h₂
  | claim r k hseen hfree hc hl ht hp =>
      -- the number the index lets through is the one after the counter, and nobody holds it
      have hk : k = s.count := h.eq_count_of_free hseen hfree
      have hnone : ∀ r' k', s.phase r' ≠ .holding k' := by
        subst hk; exact h.not_holding_of_free hfree
      refine ⟨fun n hn => ?_, fun n h1 h2 => ?_, fun r' k' hr' => ?_, fun r' k' hr' => ?_,
        fun r₁ r₂ k₁ k₂ h₁ h₂ => ?_⟩
      · rcases (ht n).1 hn with hn | rfl
        · rw [hc]; exact h.taken_le n hn
        · omega
      · exact (ht n).2 (Or.inl (h.taken_of_le n h1 (hc ▸ h2)))
      · rw [hp] at hr'
        rcases phase_update hr' with ⟨-, hk'⟩ | ⟨-, hr'⟩
        · exact absurd hk' (by simp)
        · rw [hc, hl]; exact h.seen r' k' hr'
      · rw [hp] at hr'
        rcases phase_update hr' with ⟨-, hk'⟩ | ⟨-, hr'⟩
        · cases hk'
          exact ⟨hc ▸ hk, hl.2 ((h.seen r k hseen).2 hk), (ht _).2 (Or.inr rfl)⟩
        · exact absurd hr' (hnone r' k')
      · rw [hp] at h₁ h₂
        rcases phase_update h₁ with ⟨rfl, -⟩ | ⟨-, h₁⟩
        · rcases phase_update h₂ with ⟨rfl, -⟩ | ⟨-, h₂⟩
          · rfl
          · exact absurd h₂ (hnone r₂ k₂)
        · exact absurd h₁ (hnone r₁ k₁)
  | settle r k hhold hc ht hp =>
      obtain ⟨rfl, -, htk⟩ := h.holding r _ hhold
      have hnone : ∀ r' k', t.phase r' ≠ .holding k' := by
        intro r' k' hr'
        rw [hp] at hr'
        rcases phase_update hr' with ⟨-, hk'⟩ | ⟨hne, hr'⟩
        · exact absurd hk' (by simp)
        · exact hne (h.unique r' r k' _ hr' hhold)
      refine ⟨fun n hn => ?_, fun n h1 h2 => ?_, fun r' k' hr' => ?_,
        fun r' k' hr' => absurd hr' (hnone r' k'),
        fun r₁ r₂ k₁ k₂ h₁ _ => absurd h₁ (hnone r₁ k₁)⟩
      · obtain ⟨h1, h2⟩ := h.taken_le n ((ht n).1 hn)
        exact ⟨h1, by omega⟩
      · rcases Nat.lt_or_ge s.count n with hlt | hle
        · have : n = s.count + 1 := by omega
          exact (ht n).2 (this ▸ htk)
        · exact (ht n).2 (h.taken_of_le n h1 hle)
      · rw [hp] at hr'
        rcases phase_update hr' with ⟨-, hk'⟩ | ⟨-, hr'⟩
        · exact absurd hk' (by simp)
        · have := (h.seen r' k' hr').1
          exact ⟨by omega, fun hk' => by omega⟩

/-- The counter never decreases, and nothing claimed is ever given back. -/
theorem Step.count_le {m : Move R} {s t : State R} (hs : Step m s t) (h : Inv s) :
    s.count ≤ t.count ∧ ∀ n, s.taken n → t.taken n := by
  cases hs with
  | stay hc _ ht _ => exact ⟨hc.ge, fun n => (ht n).2⟩
  | look _ _ _ hc _ ht _ => exact ⟨hc.ge, fun n => (ht n).2⟩
  | claim _ _ _ _ hc _ ht _ => exact ⟨hc.ge, fun n hn => (ht n).2 (Or.inl hn)⟩
  | settle r k hhold hc ht _ =>
      have := (h.holding r k hhold).1
      exact ⟨by omega, fun n => (ht n).2⟩
  | drop _ _ hc _ ht _ => exact ⟨hc.ge, fun n => (ht n).2⟩
  | abandon _ _ _ hc _ ht _ => exact ⟨hc.ge, fun n => (ht n).2⟩
  | reopen hc _ ht _ => exact ⟨hc.ge, fun n => (ht n).2⟩

/-! ## Runs that abandon nothing -/

/-- The number after the counter is claimed only while some run holds it. -/
def Settled (s : State R) : Prop := s.taken (s.count + 1) → ∃ r k, s.phase r = .holding k

/-- As long as no claim is abandoned, none is left behind. -/
theorem Step.settled {m : Move R} {s t : State R} (hs : Step m s t) (h : Inv s)
    (hset : Settled s) (hm : ∀ r, m ≠ .abandon r) : Settled t := by
  intro htk
  cases hs with
  | stay hc _ ht hp =>
      obtain ⟨r, k, hr⟩ := hset (hc ▸ (ht _).1 htk)
      exact ⟨r, k, hp ▸ hr⟩
  | reopen hc _ ht hp =>
      obtain ⟨r, k, hr⟩ := hset (hc ▸ (ht _).1 htk)
      exact ⟨r, k, hp ▸ hr⟩
  | look r' hnh _ hc _ ht hp =>
      obtain ⟨r, k, hr⟩ := hset (hc ▸ (ht _).1 htk)
      have hrr : r ≠ r' := fun hrr => hnh k (hrr ▸ hr)
      exact ⟨r, k, by rw [hp, Function.update_of_ne hrr, hr]⟩
  | claim r k _ _ _ _ _ hp => exact ⟨r, k, by rw [hp, Function.update_self]⟩
  | settle r k hhold hc ht _ =>
      have hk := (h.holding r k hhold).1
      have := (h.taken_le _ ((ht _).1 htk)).2
      omega
  | drop r' hnh hc _ ht hp =>
      obtain ⟨r, k, hr⟩ := hset (hc ▸ (ht _).1 htk)
      have hrr : r ≠ r' := fun hrr => hnh k (hrr ▸ hr)
      exact ⟨r, k, by rw [hp, Function.update_of_ne hrr, hr]⟩
  | abandon r _ _ _ _ _ _ => exact absurd rfl (hm r)

/-- The number after the counter is claimed only while the counter is live: a claim that was
abandoned leaves it so. -/
theorem Step.live_of_taken {m : Move R} {s t : State R} (hs : Step m s t) (h : Inv s)
    (hlive : s.taken (s.count + 1) → s.live) : t.taken (t.count + 1) → t.live := by
  intro htk
  cases hs with
  | stay hc hl ht _ => exact hl.2 (hlive (hc ▸ (ht _).1 htk))
  | reopen _ hl _ _ => exact hl
  | look _ _ hlv _ hl _ _ => exact hl.2 hlv
  | claim r k hseen hfree _ hl _ _ =>
      exact hl.2 ((h.seen r k hseen).2 (h.eq_count_of_free hseen hfree))
  | settle r k hhold hc ht _ =>
      have hk := (h.holding r k hhold).1
      have := (h.taken_le _ ((ht _).1 htk)).2
      omega
  | drop _ _ hc hl ht _ => exact hl.2 (hlive (hc ▸ (ht _).1 htk))
  | abandon _ _ _ hc hl ht _ => exact hl.2 (hlive (hc ▸ (ht _).1 htk))

end Claims
end Lib
