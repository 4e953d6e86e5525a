import HookRelay.Data.Doubles

/-!
# Retry delays

`backoff.ts`: an exponential backoff with a cap, and a delay drawn below it.

* `exponentialCeilingMs`, `fullJitterDelayMs` — as in the source, with the rounding of the
  operators as a parameter.
* `exactCeiling`, `exactDelay` — what they are in exact arithmetic, for whole milliseconds.
* `retry_delays_bounded` — the ceilings do not fall, each delay is below its ceiling, and all
  the delays of a delivery together have a bound that no draw passes.
-/

namespace HookRelay

namespace Backoff

/-- `RetryPolicy`. -/
structure RetryPolicy where
  baseMs : JsNumber
  capMs : JsNumber
  maxAttempts : ℕ

/-- `RETRY_DEFAULTS`. -/
def retryDefaults : RetryPolicy := ⟨.finite 30000, .finite (4 * 60 * 60 * 1000), 8⟩

section

variable (rnd : Rounding) (failedAttemptNo : ℤ) (policy : RetryPolicy)

/-- `exponentialCeilingMs`: `Math.min(capMs, baseMs * 2 ** Math.max(0, failedAttemptNo - 1))`. -/
def exponentialCeilingMs : JsNumber :=
  let exp := (failedAttemptNo - 1).toNat
  policy.capMs.min (policy.baseMs.mul rnd (rnd (2 ^ exp)))

/-- `fullJitterDelayMs`. -/
def fullJitterDelayMs (random : ℚ) : JsNumber :=
  let ceiling := exponentialCeilingMs rnd failedAttemptNo policy
  if ceiling.notPositive then .finite 0 else ((JsNumber.finite random).mul rnd ceiling).floor

end

/-! ## Exact arithmetic -/

/-- The ceiling of a policy in whole milliseconds. -/
def exactCeiling (baseMs capMs : ℤ) (n : ℕ) : ℤ := min capMs (baseMs * 2 ^ (n - 1))

/-- The delay below it. -/
def exactDelay (baseMs capMs : ℤ) (n : ℕ) (random : ℚ) : ℤ :=
  if exactCeiling baseMs capMs n ≤ 0 then 0 else ⌊random * exactCeiling baseMs capMs n⌋

theorem exponentialCeilingMs_exact (baseMs capMs : ℤ) (maxAttempts : ℕ) {n : ℕ} (hn : 1 ≤ n) :
    exponentialCeilingMs exact n ⟨.finite baseMs, .finite capMs, maxAttempts⟩ =
      .finite (exactCeiling baseMs capMs n) := by
  have hexp : ((n : ℤ) - 1).toNat = n - 1 := by omega
  unfold exponentialCeilingMs exactCeiling
  simp only [hexp, exact, JsNumber.mul, JsNumber.min, JsNumber.finite.injEq]
  rw [Int.cast_min, min_def]
  push_cast
  rfl

theorem fullJitterDelayMs_exact (baseMs capMs : ℤ) (maxAttempts : ℕ) {n : ℕ} (hn : 1 ≤ n)
    (random : ℚ) :
    fullJitterDelayMs exact n ⟨.finite baseMs, .finite capMs, maxAttempts⟩ random =
      .finite (exactDelay baseMs capMs n random) := by
  unfold fullJitterDelayMs exactDelay
  simp only [exponentialCeilingMs_exact baseMs capMs maxAttempts hn, JsNumber.notPositive,
    decide_eq_true_eq]
  by_cases h : exactCeiling baseMs capMs n ≤ 0
  · rw [if_pos h, if_pos (by exact_mod_cast h)]
    rfl
  · rw [if_neg h, if_neg (by exact_mod_cast h)]
    rfl

variable {baseMs capMs : ℤ} {n : ℕ} {random : ℚ}

/-- The ceilings do not fall. -/
theorem exactCeiling_mono (hbase : 0 ≤ baseMs) {m n : ℕ} (h : m ≤ n) :
    exactCeiling baseMs capMs m ≤ exactCeiling baseMs capMs n := by
  apply min_le_min le_rfl
  apply mul_le_mul_of_nonneg_left _ hbase
  exact pow_le_pow_right₀ (by norm_num) (by omega)

/-- A delay is not negative, below a ceiling that is positive, and 0 otherwise. -/
theorem exactDelay_bounds (hr : 0 ≤ random ∧ random < 1) :
    0 ≤ exactDelay baseMs capMs n random ∧
    (0 < exactCeiling baseMs capMs n →
      exactDelay baseMs capMs n random < exactCeiling baseMs capMs n) ∧
    (exactCeiling baseMs capMs n ≤ 0 → exactDelay baseMs capMs n random = 0) := by
  unfold exactDelay
  by_cases h : exactCeiling baseMs capMs n ≤ 0
  · rw [if_pos h]
    exact ⟨le_rfl, id, fun _ => rfl⟩
  · rw [if_neg h]
    have hpos : (0 : ℚ) < exactCeiling baseMs capMs n := by exact_mod_cast not_le.1 h
    refine ⟨Int.floor_nonneg.2 (mul_nonneg hr.1 hpos.le), fun _ => ?_, fun hle => absurd hle h⟩
    rw [Int.floor_lt]
    calc random * exactCeiling baseMs capMs n < 1 * exactCeiling baseMs capMs n :=
          mul_lt_mul_of_pos_right hr.2 hpos
      _ = exactCeiling baseMs capMs n := one_mul _

/-- No delay is above the cap, or above the exponential. -/
theorem exactDelay_le (hbase : 0 ≤ baseMs) (hcap : 0 ≤ capMs) (hr : 0 ≤ random ∧ random < 1) :
    exactDelay baseMs capMs n random ≤ capMs ∧
      exactDelay baseMs capMs n random ≤ baseMs * 2 ^ (n - 1) := by
  have hceil : 0 ≤ exactCeiling baseMs capMs n := le_min hcap (by positivity)
  obtain ⟨-, hlt, hzero⟩ := @exactDelay_bounds baseMs capMs n random hr
  have hle : exactDelay baseMs capMs n random ≤ exactCeiling baseMs capMs n := by
    rcases hceil.eq_or_lt with heq | hpos
    · rw [hzero heq.symm.le]
      exact hceil
    · exact (hlt hpos).le
  exact ⟨hle.trans (min_le_left _ _), hle.trans (min_le_right _ _)⟩

/-- **The delays together**, after any number of failed attempts: one cap for each, and no more
than the exponentials add up to. -/
theorem sum_exactDelay_le (hbase : 0 ≤ baseMs) (hcap : 0 ≤ capMs) {random : ℕ → ℚ}
    (hr : ∀ n, 0 ≤ random n ∧ random n < 1) (k : ℕ) :
    ∑ i ∈ Finset.range k, exactDelay baseMs capMs (i + 1) (random (i + 1)) ≤ k * capMs ∧
    ∑ i ∈ Finset.range k, exactDelay baseMs capMs (i + 1) (random (i + 1)) ≤
      baseMs * (2 ^ k - 1) := by
  induction k with
  | zero => simp
  | succ k ih =>
      obtain ⟨hle, hexp⟩ := exactDelay_le (n := k + 1) hbase hcap (hr (k + 1))
      rw [Nat.add_sub_cancel] at hexp
      rw [Finset.sum_range_succ]
      constructor
      · calc _ ≤ (k : ℤ) * capMs + capMs := add_le_add ih.1 hle
          _ = ((k + 1 : ℕ) : ℤ) * capMs := by push_cast; ring
      · calc _ ≤ baseMs * (2 ^ k - 1) + baseMs * 2 ^ k := add_le_add ih.2 hexp
          _ = baseMs * (2 ^ (k + 1) - 1) := by ring

/-- **Retry delays are bounded, one by one and together.**  For every policy in whole
milliseconds and every draw, in exact arithmetic: the ceilings are integers and do not fall if
the base is not negative; a delay is an integer that is not negative, below its ceiling if that
is positive and 0 otherwise; and for a base and a cap that are not negative, the delays after
all attempts but the last add up to at most `(M - 1) * capMs` and `baseMs * (2 ^ (M - 1) - 1)`. -/
theorem retry_delays_bounded (baseMs capMs : ℤ) (maxAttempts : ℕ) (random : ℕ → ℚ)
    (hr : ∀ n, 0 ≤ random n ∧ random n < 1) : ∃ ceiling delay : ℕ → ℤ,
    (∀ n : ℕ, 1 ≤ n →
      exponentialCeilingMs exact n ⟨.finite baseMs, .finite capMs, maxAttempts⟩ =
        .finite (ceiling n) ∧
      fullJitterDelayMs exact n ⟨.finite baseMs, .finite capMs, maxAttempts⟩ (random n) =
        .finite (delay n)) ∧
    (0 ≤ baseMs → ∀ m n, 1 ≤ m → m ≤ n → ceiling m ≤ ceiling n) ∧
    (∀ n, 1 ≤ n → 0 ≤ delay n ∧ (0 < ceiling n → delay n < ceiling n) ∧
      (ceiling n ≤ 0 → delay n = 0)) ∧
    (0 ≤ baseMs → 0 ≤ capMs →
      ∑ i ∈ Finset.range (maxAttempts - 1), delay (i + 1) ≤
        min ((maxAttempts - 1 : ℕ) * capMs) (baseMs * (2 ^ (maxAttempts - 1) - 1))) := by
  refine ⟨exactCeiling baseMs capMs, fun n => exactDelay baseMs capMs n (random n), ?_, ?_, ?_, ?_⟩
  · intro n hn
    exact ⟨exponentialCeilingMs_exact baseMs capMs maxAttempts hn,
      fullJitterDelayMs_exact baseMs capMs maxAttempts hn (random n)⟩
  · exact fun hbase m n _ h => exactCeiling_mono hbase h
  · exact fun n _ => exactDelay_bounds (hr n)
  · intro hbase hcap
    obtain ⟨hle, hexp⟩ := sum_exactDelay_le hbase hcap hr (maxAttempts - 1)
    exact le_min hle hexp

/-- The default policy, drawn in the middle. -/
theorem retry_delays_bounded_at_defaults : ∃ delay : ℕ → ℤ,
    (∀ n : ℕ, 1 ≤ n → fullJitterDelayMs exact n
      ⟨.finite (30000 : ℤ), .finite (14400000 : ℤ), 8⟩ (1 / 2) = .finite (delay n)) ∧
    ∑ i ∈ Finset.range 7, delay (i + 1) ≤ 3810000 := by
  obtain ⟨_, delay, hdelay, -, -, hsum⟩ :=
    retry_delays_bounded 30000 14400000 8 (fun _ => 1 / 2) fun _ => ⟨by norm_num, by norm_num⟩
  exact ⟨delay, fun n hn => (hdelay n hn).2, hsum (by norm_num) (by norm_num)⟩

end Backoff

end HookRelay
