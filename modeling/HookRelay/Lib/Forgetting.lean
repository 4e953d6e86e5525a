import HookRelay.Lib.Claims

/-!
# Numbered claims, old ones of which are forgotten

The protocol of `HookRelay.Lib.Claims`, but that the record of a claim is deleted when it is
old.  A run that looked at the counter long ago might then find a number free that was claimed
and settled since, and turn the counter back.  It cannot, if no run takes longer than `D` and
no record younger than `2 * D` is deleted: `D` for the run that looked, and `D` for the run
that held the claim at that moment.

* `State`, `Step` — the counter, the records that are still there, and the moves.
* `Timely` — every run that knows something began at most `D` ago.
* `Inv` — what a run saw and somebody claimed since is still on record.
* `Step.inv`, `Step.count_le` — every move keeps the invariant, and none turns the counter back.
-/

namespace Lib
namespace Forgetting

open Claims (Phase phase_update)

variable {R : Type*}

/-- A counter, the claims on record, and the runs that work on it. -/
structure State (R : Type*) where
  now : ℕ
  /-- The counter. -/
  count : ℕ
  /-- There is something to do. -/
  live : Prop
  /-- The number was claimed at this time, and that is still on record. -/
  row : ℕ → ℕ → Prop
  /-- Where each run stands. -/
  phase : R → Phase
  /-- When each run began. -/
  began : R → ℕ

/-- A run that knows something began in the last `D`. -/
def Timely (D : ℕ) (s : State R) : Prop :=
  ∀ r, s.phase r ≠ .idle → s.began r ≤ s.now ∧ s.now ≤ s.began r + D

/-- No run that knows something begins anew. -/
def SameBegan (s t : State R) : Prop := ∀ r, s.phase r ≠ .idle → t.began r = s.began r

/-- One move, as a relation between the state before and the state after. -/
inductive Step [DecidableEq R] (D : ℕ) (s t : State R) : Prop
  /-- Nothing, but that a counter may be reopened. -/
  | stay : SameBegan s t → t.count = s.count → (s.live → t.live) →
      (∀ n u, t.row n u ↔ s.row n u) → t.phase = s.phase → Step D s t
  | look (r : R) : SameBegan s t → (∀ k, s.phase r ≠ .holding k) → s.live →
      t.count = s.count → (s.live → t.live) → (∀ n u, t.row n u ↔ s.row n u) →
      t.phase = Function.update s.phase r (.seen s.count) → Step D s t
  | claim (r : R) (k : ℕ) : SameBegan s t → s.phase r = .seen k → (∀ u, ¬ s.row (k + 1) u) →
      t.count = s.count → (s.live → t.live) →
      (∀ n u, t.row n u ↔ s.row n u ∨ (n = k + 1 ∧ u = s.now)) →
      t.phase = Function.update s.phase r (.holding k) → Step D s t
  | settle (r : R) (k : ℕ) : SameBegan s t → s.phase r = .holding k → t.count = k + 1 →
      (∀ n u, t.row n u ↔ s.row n u) → t.phase = Function.update s.phase r .idle → Step D s t
  /-- A run is through, or cut off. -/
  | leave (r : R) : SameBegan s t → t.count = s.count → (s.live → t.live) →
      (∀ n u, t.row n u ↔ s.row n u) → t.phase = Function.update s.phase r .idle → Step D s t
  /-- The records from before `c` are deleted. -/
  | forget (c : ℕ) : c + 2 * D ≤ s.now → SameBegan s t → t.count = s.count → (s.live → t.live) →
      (∀ n u, t.row n u ↔ s.row n u ∧ c ≤ u) → t.phase = s.phase → Step D s t

/-! ## The invariant -/

/-- What holds of the counter, the claims on record and every run's stale copy. -/
structure Inv (D : ℕ) (s : State R) : Prop where
  row_le : ∀ n u, s.row n u → 1 ≤ n ∧ n ≤ s.count + 1
  seen_le : ∀ r k, s.phase r = .seen k → k ≤ s.count ∧ (k = s.count → s.live)
  /-- A number that was settled since a run looked is on record, with a time that is not long
  before the run began. -/
  seen : ∀ r k, s.phase r = .seen k → k < s.count → ∃ u, s.row (k + 1) u ∧ s.began r ≤ u + D
  holding : ∀ r k, s.phase r = .holding k →
    k = s.count ∧ s.live ∧ ∃ u, s.row (k + 1) u ∧ s.began r ≤ u
  unique : ∀ r r' k k', s.phase r = .holding k → s.phase r' = .holding k' → r = r'

variable {D : ℕ} {s t : State R}

/-- A number that a run finds free is the one after the counter. -/
theorem Inv.eq_count_of_free (h : Inv D s) {r : R} {k : ℕ} (hr : s.phase r = .seen k)
    (hfree : ∀ u, ¬ s.row (k + 1) u) : k = s.count := by
  by_contra hne
  have hlt : k < s.count := lt_of_le_of_ne (h.seen_le r k hr).1 hne
  obtain ⟨u, hu, -⟩ := h.seen r k hr hlt
  exact hfree u hu

/-- A fresh counter satisfies the invariant. -/
theorem Inv.of_fresh (ht : ∀ n u, ¬ s.row n u) (hp : ∀ r, s.phase r = .idle) : Inv D s where
  row_le := fun n u hn => absurd hn (ht n u)
  seen_le := fun r k hr => by simp [hp r] at hr
  seen := fun r k hr => by simp [hp r] at hr
  holding := fun r k hr => by simp [hp r] at hr
  unique := fun r r' k k' hr _ => by simp [hp r] at hr

/-- A move that keeps the counter and the records that matter, and after which every run knows
what it knew before or nothing. -/
theorem Inv.of_kept (h : Inv D s) (hb : SameBegan s t) (hc : t.count = s.count)
    (hl : s.live → t.live) (hrow : ∀ n u, t.row n u → s.row n u)
    (hkeep : ∀ r n u, s.phase r ≠ .idle → s.began r ≤ u + D → s.row n u → t.row n u)
    (hp : ∀ r, t.phase r = s.phase r ∨ t.phase r = .idle) : Inv D t := by
  have same : ∀ r p, p ≠ Phase.idle → t.phase r = p → s.phase r = p ∧ t.began r = s.began r := by
    intro r p hne hr
    rcases hp r with heq | hidle
    · have hs : s.phase r = p := heq.symm.trans hr
      exact ⟨hs, hb r (by rw [hs]; exact hne)⟩
    · exact absurd (hr.symm.trans hidle) hne
  refine ⟨fun n u hn => ?_, fun r k hr => ?_, fun r k hr hlt => ?_, fun r k hr => ?_,
    fun r r' k k' hr hr' => ?_⟩
  · rw [hc]
    exact h.row_le n u (hrow n u hn)
  · obtain ⟨hs, -⟩ := same r _ (by simp) hr
    obtain ⟨hle, hlive⟩ := h.seen_le r k hs
    exact ⟨hc ▸ hle, fun hk => hl (hlive (hk.trans hc))⟩
  · obtain ⟨hs, hbr⟩ := same r _ (by simp) hr
    obtain ⟨u, hu, hle⟩ := h.seen r k hs (hc ▸ hlt)
    exact ⟨u, hkeep r _ u (by simp [hs]) hle hu, hbr ▸ hle⟩
  · obtain ⟨hs, hbr⟩ := same r _ (by simp) hr
    obtain ⟨hk, hlive, u, hu, hle⟩ := h.holding r k hs
    exact ⟨hk.trans hc.symm, hl hlive, u,
      hkeep r _ u (by simp [hs]) (hle.trans (Nat.le_add_right u D)) hu, hbr ▸ hle⟩
  · exact h.unique r r' k k' (same r _ (by simp) hr).1 (same r' _ (by simp) hr').1

variable [DecidableEq R]

theorem Inv.claim {r : R} {k : ℕ} (h : Inv D s) (htime : Timely D s) (hb : SameBegan s t)
    (hseen : s.phase r = .seen k) (hfree : ∀ u, ¬ s.row (k + 1) u) (hc : t.count = s.count)
    (hl : s.live → t.live) (hrow : ∀ n u, t.row n u ↔ s.row n u ∨ (n = k + 1 ∧ u = s.now))
    (hp : t.phase = Function.update s.phase r (.holding k)) : Inv D t := by
  -- the number is the one after the counter, and nobody holds it
  have hk : k = s.count := h.eq_count_of_free hseen hfree
  have hnone : ∀ r' k', s.phase r' ≠ .holding k' := by
    intro r' k' hr'
    obtain ⟨hk', -, u, hu, -⟩ := h.holding r' k' hr'
    exact hfree u (by rw [hk, ← hk']; exact hu)
  have hbegan : t.began r = s.began r := hb r (by simp [hseen])
  refine ⟨fun n u hn => ?_, fun r' k' hr' => ?_, fun r' k' hr' hlt => ?_, fun r' k' hr' => ?_,
    fun r₁ r₂ k₁ k₂ h₁ h₂ => ?_⟩
  · rcases (hrow n u).1 hn with hn | ⟨rfl, -⟩
    · rw [hc]
      exact h.row_le n u hn
    · omega
  · rw [hp] at hr'
    rcases phase_update hr' with ⟨-, hk'⟩ | ⟨-, hr'⟩
    · exact absurd hk' (by simp)
    · obtain ⟨hle, hlive⟩ := h.seen_le r' k' hr'
      exact ⟨hc ▸ hle, fun heq => hl (hlive (heq.trans hc))⟩
  · rw [hp] at hr'
    rcases phase_update hr' with ⟨-, hk'⟩ | ⟨-, hr'⟩
    · exact absurd hk' (by simp)
    · obtain ⟨u, hu, hle⟩ := h.seen r' k' hr' (hc ▸ hlt)
      exact ⟨u, (hrow _ u).2 (.inl hu), by rw [hb r' (by simp [hr'])]; exact hle⟩
  · rw [hp] at hr'
    rcases phase_update hr' with ⟨rfl, hk'⟩ | ⟨-, hr'⟩
    · cases hk'
      exact ⟨hk.trans hc.symm, hl ((h.seen_le r' k hseen).2 hk), s.now,
        (hrow _ _).2 (.inr ⟨rfl, rfl⟩), by rw [hbegan]; exact (htime r' (by simp [hseen])).1⟩
    · exact absurd hr' (hnone r' k')
  · rw [hp] at h₁ h₂
    rcases phase_update h₁ with ⟨rfl, -⟩ | ⟨-, h₁⟩
    · rcases phase_update h₂ with ⟨rfl, -⟩ | ⟨-, h₂⟩
      · rfl
      · exact absurd h₂ (hnone r₂ k₂)
    · exact absurd h₁ (hnone r₁ k₁)

theorem Inv.settle {r : R} {k : ℕ} (h : Inv D s) (htime : Timely D s) (hb : SameBegan s t)
    (hhold : s.phase r = .holding k) (hc : t.count = k + 1) (hrow : ∀ n u, t.row n u ↔ s.row n u)
    (hp : t.phase = Function.update s.phase r .idle) : Inv D t := by
  obtain ⟨rfl, -, v, hv, hrv⟩ := h.holding r k hhold
  have hnone : ∀ r' k', t.phase r' ≠ .holding k' := by
    intro r' k' hr'
    rw [hp] at hr'
    rcases phase_update hr' with ⟨-, hk'⟩ | ⟨hne, hr'⟩
    · exact absurd hk' (by simp)
    · exact hne (h.unique r' r k' _ hr' hhold)
  refine ⟨fun n u hn => ?_, fun r' k' hr' => ?_, fun r' k' hr' hlt => ?_,
    fun r' k' hr' => absurd hr' (hnone r' k'), fun r₁ r₂ k₁ k₂ h₁ _ => absurd h₁ (hnone r₁ k₁)⟩
  · obtain ⟨h1, h2⟩ := h.row_le n u ((hrow n u).1 hn)
    exact ⟨h1, by omega⟩
  · rw [hp] at hr'
    rcases phase_update hr' with ⟨-, hk'⟩ | ⟨-, hr'⟩
    · exact absurd hk' (by simp)
    · have := (h.seen_le r' k' hr').1
      exact ⟨by omega, fun hk' => by omega⟩
  · rw [hp] at hr'
    rcases phase_update hr' with ⟨-, hk'⟩ | ⟨-, hr'⟩
    · exact absurd hk' (by simp)
    · have hbegan : t.began r' = s.began r' := hb r' (by simp [hr'])
      rcases Nat.lt_or_ge k' s.count with hlt' | hge
      · obtain ⟨u, hu, hle⟩ := h.seen r' k' hr' hlt'
        exact ⟨u, (hrow _ u).2 hu, hbegan ▸ hle⟩
      · -- it looked while the claim was held, so it began at most `D` after the claim
        have hk' : k' = s.count := le_antisymm (h.seen_le r' k' hr').1 hge
        subst hk'
        have h₁ := (htime r' (by simp [hr'])).1
        have h₂ := (htime r (by simp [hhold])).2
        exact ⟨v, (hrow _ v).2 hv, by rw [hbegan]; omega⟩

/-- **The step lemma.**  Every move keeps the invariant, if no run takes longer than `D`. -/
theorem Step.inv (hs : Step D s t) (htime : Timely D s) (h : Inv D s) : Inv D t := by
  cases hs with
  | stay hb hc hl hrow hp =>
      exact h.of_kept hb hc hl (fun n u => (hrow n u).1) (fun _ n u _ _ => (hrow n u).2)
        fun r => .inl (by rw [hp])
  | look r hb _ hlive hc hl hrow hp =>
      refine ⟨fun n u hn => ?_, fun r' k hr' => ?_, fun r' k hr' hlt => ?_, fun r' k hr' => ?_,
        fun r₁ r₂ k₁ k₂ h₁ h₂ => ?_⟩
      · rw [hc]
        exact h.row_le n u ((hrow n u).1 hn)
      · rw [hp] at hr'
        rcases phase_update hr' with ⟨-, hk⟩ | ⟨-, hr'⟩
        · cases hk
          exact ⟨hc ▸ le_refl _, fun _ => hl hlive⟩
        · obtain ⟨hle, hlv⟩ := h.seen_le r' k hr'
          exact ⟨hc ▸ hle, fun heq => hl (hlv (heq.trans hc))⟩
      · rw [hp] at hr'
        rcases phase_update hr' with ⟨-, hk⟩ | ⟨-, hr'⟩
        · cases hk
          omega
        · obtain ⟨u, hu, hle⟩ := h.seen r' k hr' (hc ▸ hlt)
          exact ⟨u, (hrow _ u).2 hu, by rw [hb r' (by simp [hr'])]; exact hle⟩
      · rw [hp] at hr'
        rcases phase_update hr' with ⟨-, hk⟩ | ⟨-, hr'⟩
        · exact absurd hk (by simp)
        · obtain ⟨hk, hlv, u, hu, hle⟩ := h.holding r' k hr'
          exact ⟨hk.trans hc.symm, hl hlv, u, (hrow _ u).2 hu,
            by rw [hb r' (by simp [hr'])]; exact hle⟩
      · rw [hp] at h₁ h₂
        rcases phase_update h₁ with ⟨-, hk⟩ | ⟨-, h₁⟩
        · exact absurd hk (by simp)
        rcases phase_update h₂ with ⟨-, hk⟩ | ⟨-, h₂⟩
        · exact absurd hk (by simp)
        exact h.unique r₁ r₂ k₁ k₂ h₁ h₂
  | claim r k hb hseen hfree hc hl hrow hp => exact h.claim htime hb hseen hfree hc hl hrow hp
  | settle r k hb hhold hc hrow hp => exact h.settle htime hb hhold hc hrow hp
  | leave r hb hc hl hrow hp =>
      refine h.of_kept hb hc hl (fun n u => (hrow n u).1) (fun _ n u _ _ => (hrow n u).2)
        fun r' => ?_
      rw [hp]
      by_cases hr : r' = r
      · exact .inr (by rw [hr, Function.update_self])
      · exact .inl (Function.update_of_ne hr _ _)
  | forget c hcut hb hc hl hrow hp =>
      refine h.of_kept hb hc hl (fun n u hn => ((hrow n u).1 hn).1) (fun r n u hr hle hn => ?_)
        fun r => .inl (by rw [hp])
      have := (htime r hr).2
      exact (hrow n u).2 ⟨hn, by omega⟩

/-- No move turns the counter back. -/
theorem Step.count_le (hs : Step D s t) (h : Inv D s) : s.count ≤ t.count := by
  cases hs with
  | settle r k _ hhold hc _ _ =>
      have := (h.holding r k hhold).1
      omega
  | stay _ hc _ _ _ => exact hc.ge
  | look _ _ _ _ hc _ _ _ => exact hc.ge
  | claim _ _ _ _ _ hc _ _ _ => exact hc.ge
  | leave _ _ hc _ _ _ => exact hc.ge
  | forget _ _ _ hc _ _ _ => exact hc.ge

end Forgetting
end Lib
