import Mathlib.Data.Int.Log
import Mathlib.Data.Rat.Floor
import Mathlib.Algebra.Order.Round
import Mathlib.Tactic.Linarith
import Mathlib.Tactic.Positivity
import Mathlib.Tactic.NormNum
import Mathlib.Tactic.Ring

/-!
# Binary floating point

Rounding rational numbers to the values of a binary format, to the nearest one and in a tie to
the even one.  Values are rational numbers; the sign of zero is not kept.

* `Format` — the digits of a significand, and the place of the last digit of the subnormal
  numbers.  `binary64` is the format of a double.
* `Fits` — the values of a format, without a bound.
* `nearest` — rounding.  It gives a value of the format (`fits_nearest`), keeps those that are
  (`nearest_eq_self`), and does not pass one (`nearest_le`, `le_nearest`).
* `fits_floor` — the integer part of a value is one.
-/

namespace Lib.Binary

/-- A binary format. -/
structure Format where
  /-- The number of binary digits of a significand. -/
  precision : ℕ
  /-- The place of the last digit of a subnormal number. -/
  minExp : ℤ
  precision_pos : 0 < precision

/-- The format of a double. -/
def binary64 : Format := ⟨53, -1074, by norm_num⟩

/-! ## To the nearest integer -/

/-- The nearest integer, in a tie the even one. -/
def roundEven (x : ℚ) : ℤ :=
  if x - ⌊x⌋ < 1 / 2 then ⌊x⌋
  else if 1 / 2 < x - ⌊x⌋ then ⌊x⌋ + 1
  else if ⌊x⌋ % 2 = 0 then ⌊x⌋ else ⌊x⌋ + 1

@[simp] theorem roundEven_intCast (k : ℤ) : roundEven k = k := by
  simp [roundEven]

theorem roundEven_le {x : ℚ} {k : ℤ} (h : x ≤ k) : roundEven x ≤ k := by
  have hfloor : ⌊x⌋ ≤ k := by exact_mod_cast (Int.floor_le x).trans h
  rcases hfloor.lt_or_eq with hlt | heq
  · unfold roundEven
    split_ifs <;> omega
  · -- then `x` is the integer
    have hx : x = k := le_antisymm h (by rw [← heq]; exact Int.floor_le x)
    rw [hx, roundEven_intCast]

theorem le_roundEven {x : ℚ} {k : ℤ} (h : (k : ℚ) ≤ x) : k ≤ roundEven x := by
  have hfloor : k ≤ ⌊x⌋ := Int.le_floor.2 h
  unfold roundEven
  split_ifs <;> omega

variable (f : Format)

/-- The place of the last digit of a number, as it is rounded. -/
def ulpExp (x : ℚ) : ℤ := max (Int.log 2 |x| + 1 - f.precision) f.minExp

/-- The nearest value of the format. -/
def nearest (x : ℚ) : ℚ := roundEven (x / 2 ^ ulpExp f x) * 2 ^ ulpExp f x

/-- The values of the format. -/
def Fits (x : ℚ) : Prop :=
  ∃ m e : ℤ, |m| < 2 ^ f.precision ∧ f.minExp ≤ e ∧ x = m * 2 ^ e

variable {f}

/-! ## Values -/

theorem fits_zero : Fits f 0 := ⟨0, f.minExp, by simp, le_rfl, by simp⟩

/-- The significand may be the least number with too many digits. -/
theorem fits_of_le {m e : ℤ} (hm : |m| ≤ 2 ^ f.precision) (he : f.minExp ≤ e) :
    Fits f (m * 2 ^ e) := by
  rcases hm.lt_or_eq with hlt | heq
  · exact ⟨m, e, hlt, he, rfl⟩
  · have hsucc : f.precision = f.precision - 1 + 1 := by have := f.precision_pos; omega
    have hhalf : (2 : ℤ) ^ f.precision = 2 ^ (f.precision - 1) * 2 := by
      conv_lhs => rw [hsucc, pow_succ]
    have hpos : (0 : ℤ) < 2 ^ (f.precision - 1) := by positivity
    have hrat : (2 : ℚ) ^ (e + 1) = 2 ^ e * 2 := zpow_add_one₀ (by norm_num) e
    -- half of the significand, one place further on
    obtain ⟨s, hs, hms⟩ : ∃ s : ℤ, |s| = 1 ∧ m = s * (2 ^ (f.precision - 1) * 2) := by
      rw [hhalf] at heq
      rcases abs_choice m with h | h
      · exact ⟨1, rfl, by rw [one_mul, ← heq, h]⟩
      · exact ⟨-1, rfl, by rw [neg_one_mul, ← heq, h, neg_neg]⟩
    refine ⟨s * 2 ^ (f.precision - 1), e + 1, ?_, by omega, ?_⟩
    · rw [abs_mul, hs, one_mul, abs_of_pos hpos, hhalf]
      omega
    · rw [hms, hrat]
      push_cast
      ring

/-- Small integers are values. -/
theorem fits_intCast {k : ℤ} (hk : |k| ≤ 2 ^ f.precision) (h0 : f.minExp ≤ 0) : Fits f k := by
  have h := fits_of_le hk h0
  rwa [zpow_zero, mul_one] at h

/-- Powers of 2 are values. -/
theorem fits_two_zpow {e : ℤ} (he : f.minExp ≤ e) : Fits f (2 ^ e) := by
  have h : Fits f ((1 : ℤ) * 2 ^ e) := by
    refine fits_of_le ?_ he
    rw [abs_one]
    exact one_le_pow₀ (by norm_num)
  rwa [Int.cast_one, one_mul] at h

theorem two_zpow_pos (e : ℤ) : (0 : ℚ) < 2 ^ e := zpow_pos (by norm_num) e

/-- A multiple of a power of 2 is one of every smaller power. -/
theorem exists_multiple_of_le {x : ℚ} {m e u : ℤ} (hu : u ≤ e) (hx : x = m * 2 ^ e) :
    ∃ k : ℤ, x = k * 2 ^ u := by
  obtain ⟨n, hn⟩ := Int.eq_ofNat_of_zero_le (sub_nonneg.2 hu)
  refine ⟨m * 2 ^ n, ?_⟩
  have he : e = u + (n : ℤ) := by omega
  rw [hx, he, zpow_add₀ (by norm_num), zpow_natCast]
  push_cast
  ring

/-! ## The last place -/

theorem lt_two_zpow_log (x : ℚ) : |x| < 2 ^ (Int.log 2 |x| + 1) :=
  Int.lt_zpow_succ_log_self (by norm_num) |x|

theorem two_zpow_log_le {x : ℚ} (hx : x ≠ 0) : (2 : ℚ) ^ Int.log 2 |x| ≤ |x| :=
  Int.zpow_log_le_self (by norm_num) (abs_pos.2 hx)

/-- A value has its last digit at its last place or before it. -/
theorem Fits.multiple {x : ℚ} (h : Fits f x) {u : ℤ} (hu : u ≤ ulpExp f x) :
    ∃ k : ℤ, x = k * 2 ^ u := by
  obtain ⟨m, e, hm, he, hx⟩ := h
  by_cases h0 : x = 0
  · exact ⟨0, by simp [h0]⟩
  · have habs : |x| = |(m : ℚ)| * 2 ^ e := by
      rw [hx, abs_mul, abs_of_pos (two_zpow_pos e)]
    have hlt : |x| < 2 ^ ((f.precision : ℤ) + e) := by
      rw [habs, zpow_add₀ (by norm_num), zpow_natCast]
      exact mul_lt_mul_of_pos_right (by exact_mod_cast hm) (two_zpow_pos e)
    have hlog : Int.log 2 |x| < f.precision + e :=
      (Int.lt_zpow_iff_log_lt (by norm_num) (abs_pos.2 h0)).1 hlt
    have hue : ulpExp f x ≤ e := by
      unfold ulpExp
      omega
    exact exists_multiple_of_le (hu.trans hue) hx

theorem ulpExp_mono {x y : ℚ} (hx : x ≠ 0) (h : |x| ≤ |y|) : ulpExp f x ≤ ulpExp f y := by
  have := Int.log_mono_right (b := 2) (abs_pos.2 hx) h
  unfold ulpExp
  omega

/-! ## Rounding -/

@[simp] theorem nearest_zero : nearest f 0 = 0 := by
  have h : roundEven 0 = 0 := roundEven_intCast 0
  simp [nearest, h]

/-- A multiple of the last place above the number is above the rounded one. -/
theorem nearest_le_of_multiple {x z : ℚ} {k : ℤ} (hz : z = k * 2 ^ ulpExp f x) (h : x ≤ z) :
    nearest f x ≤ z := by
  have hpos := two_zpow_pos (ulpExp f x)
  have hk : x / 2 ^ ulpExp f x ≤ k := by
    rw [div_le_iff₀ hpos, ← hz]
    exact h
  rw [hz, nearest]
  exact mul_le_mul_of_nonneg_right (by exact_mod_cast roundEven_le hk) hpos.le

theorem le_nearest_of_multiple {x z : ℚ} {k : ℤ} (hz : z = k * 2 ^ ulpExp f x) (h : z ≤ x) :
    z ≤ nearest f x := by
  have hpos := two_zpow_pos (ulpExp f x)
  have hk : (k : ℚ) ≤ x / 2 ^ ulpExp f x := by
    rw [le_div_iff₀ hpos, ← hz]
    exact h
  rw [hz, nearest]
  exact mul_le_mul_of_nonneg_right (by exact_mod_cast le_roundEven hk) hpos.le

/-- **A value is kept.** -/
theorem nearest_eq_self {x : ℚ} (h : Fits f x) : nearest f x = x := by
  obtain ⟨k, hk⟩ := h.multiple le_rfl
  exact le_antisymm (nearest_le_of_multiple hk le_rfl) (le_nearest_of_multiple hk le_rfl)

/-- **What is rounded is a value.** -/
theorem fits_nearest (x : ℚ) : Fits f (nearest f x) := by
  have hpos := two_zpow_pos (ulpExp f x)
  have hbound : |x / 2 ^ ulpExp f x| ≤ 2 ^ f.precision := by
    rw [abs_div, abs_of_pos hpos, div_le_iff₀ hpos, ← zpow_natCast, ← zpow_add₀ (by norm_num)]
    refine (lt_two_zpow_log x).le.trans (zpow_le_zpow_right₀ (by norm_num) ?_)
    unfold ulpExp
    omega
  rw [abs_le] at hbound
  refine fits_of_le (abs_le.2 ⟨le_roundEven ?_, roundEven_le ?_⟩) (le_max_right _ _)
  · push_cast
    exact hbound.1
  · push_cast
    exact hbound.2

/-- Rounding does not pass a value on the way up. -/
theorem nearest_le {x z : ℚ} (hx : 0 ≤ x) (hz : Fits f z) (h : x ≤ z) : nearest f x ≤ z := by
  rcases hx.eq_or_lt with rfl | hpos
  · rwa [nearest_zero]
  · have hulp : ulpExp f x ≤ ulpExp f z := by
      apply ulpExp_mono hpos.ne'
      rwa [abs_of_pos hpos, abs_of_pos (hpos.trans_le h)]
    obtain ⟨k, hk⟩ := hz.multiple hulp
    exact nearest_le_of_multiple hk h

/-- Rounding does not pass a value on the way down. -/
theorem le_nearest {x z : ℚ} (hz0 : 0 ≤ z) (hz : Fits f z) (h : z ≤ x) : z ≤ nearest f x := by
  rcases hz0.eq_or_lt with rfl | hpos
  · exact le_nearest_of_multiple (k := 0) (by simp) h
  have hxpos : 0 < x := hpos.trans_le h
  have hmono : ulpExp f z ≤ ulpExp f x := by
    apply ulpExp_mono hpos.ne'
    rwa [abs_of_pos hpos, abs_of_pos hxpos]
  rcases hmono.eq_or_lt with heq | hlt
  · obtain ⟨k, hk⟩ := hz.multiple (heq.symm.le)
    exact le_nearest_of_multiple hk h
  · -- the value is below the power of 2 that the number is at or above
    have hlog : ulpExp f x = Int.log 2 |x| + 1 - f.precision ∧ Int.log 2 |z| < Int.log 2 |x| := by
      unfold ulpExp at hlt ⊢
      omega
    have hbelow : z ≤ 2 ^ Int.log 2 |x| := by
      have hz2 := lt_two_zpow_log z
      rw [abs_of_pos hpos] at hz2
      refine hz2.le.trans (zpow_le_zpow_right₀ (by norm_num) ?_)
      have := hlog.2
      rw [abs_of_pos hpos] at this
      omega
    have hpow : (2 : ℚ) ^ Int.log 2 |x| ≤ x := by
      have := two_zpow_log_le hxpos.ne'
      rwa [abs_of_pos hxpos] at this ⊢
    have hplace : ulpExp f x ≤ Int.log 2 |x| := by
      have := f.precision_pos
      rw [hlog.1]
      omega
    obtain ⟨k, hk⟩ := exists_multiple_of_le (x := 2 ^ Int.log 2 |x|) (m := 1) hplace (by simp)
    exact hbelow.trans (le_nearest_of_multiple hk hpow)

theorem nearest_nonneg {x : ℚ} (h : 0 ≤ x) : 0 ≤ nearest f x := le_nearest le_rfl fits_zero h

/-- **The integer part of a value is a value.** -/
theorem fits_floor {x : ℚ} (h : Fits f x) (hx : 0 ≤ x) (h0 : f.minExp ≤ 0) :
    Fits f (⌊x⌋ : ℤ) := by
  obtain ⟨m, e, hm, he, rfl⟩ := h
  have hpos := two_zpow_pos e
  have hm0 : 0 ≤ m := by
    have := nonneg_of_mul_nonneg_left hx hpos
    exact_mod_cast this
  by_cases hle : 0 ≤ e
  · -- it is an integer already
    obtain ⟨k, hk⟩ := exists_multiple_of_le (x := m * 2 ^ e) hle rfl
    rw [zpow_zero, mul_one] at hk
    rw [hk, Int.floor_intCast, ← hk]
    exact ⟨m, e, hm, he, rfl⟩
  · refine fits_intCast (abs_le.2 ⟨?_, ?_⟩) h0
    · have : 0 ≤ ⌊(m : ℚ) * 2 ^ e⌋ := Int.floor_nonneg.2 hx
      have hp : (0 : ℤ) < 2 ^ f.precision := by positivity
      omega
    · have hone : (2 : ℚ) ^ e ≤ 1 := zpow_le_one_of_nonpos₀ (by norm_num) (by omega)
      have hlem : ⌊(m : ℚ) * 2 ^ e⌋ ≤ m := by
        have hq : (m : ℚ) * 2 ^ e ≤ m := mul_le_of_le_one_right (by exact_mod_cast hm0) hone
        exact_mod_cast (Int.floor_le _).trans hq
      rw [abs_of_nonneg hm0] at hm
      omega

end Lib.Binary
