import Mathlib.Data.Int.Bitwise
import Mathlib.Tactic.NormNum
import Mathlib.Tactic.Ring

/-!
# Signed 32-bit arithmetic

The bitwise operators of JavaScript: both operands are cut to 32 bits and read with a sign,
and so is the result.

* `toInt32`, `shl`, `band` — as the language defines them, on the integers.
* `band_eq_band_iff` — two numbers agree under a mask exactly when their 32 bits do: the sign
  never tells apart what the bits do not.
* `band_prefix_iff` — under `-1 << n`, unsigned numbers agree exactly when they have the same
  quotient by `2 ^ n`.
* `div_eq_div_iff_interval` — for an aligned number, that is a half-open interval.
-/

namespace Lib.Int32

/-- `ToInt32`. -/
def toInt32 (x : ℤ) : ℤ := if x % 2 ^ 32 < 2 ^ 31 then x % 2 ^ 32 else x % 2 ^ 32 - 2 ^ 32

/-- `x << n`; the distance is taken modulo 32. -/
def shl (x n : ℤ) : ℤ := toInt32 (toInt32 x * 2 ^ (n % 32).toNat)

/-- `x & y`, bit by bit. -/
def band (x y : ℤ) : ℤ := (BitVec.ofInt 32 (toInt32 x) &&& BitVec.ofInt 32 (toInt32 y)).toInt

/-! ## As bits -/

theorem toInt32_eq (x : ℤ) : toInt32 x = (BitVec.ofInt 32 x).toInt := by
  rw [BitVec.toInt_ofInt, Int.bmod_def, toInt32]
  norm_num

/-- Cutting a number to 32 bits keeps them. -/
theorem ofInt_toInt32 (x : ℤ) : BitVec.ofInt 32 (toInt32 x) = BitVec.ofInt 32 x := by
  rw [toInt32_eq, BitVec.ofInt_toInt]

/-- The sign tells apart what the bits do, and no more. -/
theorem band_eq_band_iff (x y m : ℤ) : band x m = band y m ↔
    BitVec.ofInt 32 x &&& BitVec.ofInt 32 m = BitVec.ofInt 32 y &&& BitVec.ofInt 32 m := by
  unfold band
  rw [BitVec.toInt_inj, ofInt_toInt32, ofInt_toInt32, ofInt_toInt32]

theorem ofInt_shl (x n : ℤ) :
    BitVec.ofInt 32 (shl x n) = BitVec.ofInt 32 x <<< (n % 32).toNat := by
  have hpow : BitVec.ofInt 32 (2 ^ (n % 32).toNat) = BitVec.twoPow 32 (n % 32).toNat := by
    apply BitVec.eq_of_toNat_eq
    rw [BitVec.toNat_twoPow, show (2 : ℤ) ^ (n % 32).toNat = ((2 ^ (n % 32).toNat : ℕ) : ℤ) by simp,
      BitVec.ofInt_natCast, BitVec.toNat_ofNat]
  rw [shl, ofInt_toInt32, BitVec.ofInt_mul, ofInt_toInt32, hpow, BitVec.mul_twoPow_eq_shiftLeft]

/-- `-1 << n` has the bits from `n` on. -/
theorem ofInt_mask (n : ℤ) :
    BitVec.ofInt 32 (shl (-1) n) = BitVec.allOnes 32 <<< (n % 32).toNat := by
  rw [ofInt_shl]
  rfl

/-! ## Masks of leading bits -/

/-- Under a mask of leading bits, words agree when their leading bits do. -/
theorem and_mask_eq_iff (x y : BitVec 32) (n : ℕ) :
    x &&& (BitVec.allOnes 32 <<< n) = y &&& (BitVec.allOnes 32 <<< n) ↔
      x.toNat / 2 ^ n = y.toNat / 2 ^ n := by
  have hbit : ∀ (z : BitVec 32) (i : ℕ), (z.toNat / 2 ^ n).testBit i = z.getLsbD (i + n) := by
    intro z i
    rw [Nat.testBit_div_two_pow]
    rfl
  constructor
  · intro h
    apply Nat.eq_of_testBit_eq
    intro i
    have hi := congrArg (fun z => z.getLsbD (i + n)) h
    simp only [BitVec.getLsbD_and, BitVec.getLsbD_shiftLeft, BitVec.getLsbD_allOnes] at hi
    rw [hbit, hbit]
    -- past the word there are no bits
    by_cases hlt : i + n < 32
    · simpa [hlt, show i < 32 by omega] using hi
    · rw [BitVec.getLsbD_of_ge _ _ (by omega), BitVec.getLsbD_of_ge _ _ (by omega)]
  · intro h
    apply BitVec.eq_of_getLsbD_eq
    intro i hi
    simp only [BitVec.getLsbD_and, BitVec.getLsbD_shiftLeft, BitVec.getLsbD_allOnes]
    by_cases hn : i < n
    · simp [hn]
    · have hquot := congrArg (fun q => q.testBit (i - n)) h
      simp only [hbit, show i - n + n = i by omega] at hquot
      rw [hquot]

/-- Unsigned numbers agree under `-1 << n` when they have the same quotient by `2 ^ n`. -/
theorem band_prefix_iff {x y n : ℕ} (hx : x < 2 ^ 32) (hy : y < 2 ^ 32) (hn : n < 32) :
    band x (shl (-1) n) = band y (shl (-1) n) ↔ x / 2 ^ n = y / 2 ^ n := by
  have hmod : ((n : ℤ) % 32).toNat = n := by omega
  rw [band_eq_band_iff, ofInt_mask, hmod, and_mask_eq_iff, BitVec.ofInt_natCast,
    BitVec.ofInt_natCast, BitVec.toNat_ofNat, BitVec.toNat_ofNat, Nat.mod_eq_of_lt hx,
    Nat.mod_eq_of_lt hy]

/-- The numbers with the quotient of a multiple of `d` are the `d` numbers from it on. -/
theorem div_eq_div_iff_interval {x base d : ℕ} (hd : 0 < d) (hbase : d ∣ base) :
    x / d = base / d ↔ base ≤ x ∧ x < base + d := by
  obtain ⟨q, rfl⟩ := hbase
  rw [Nat.mul_div_cancel_left q hd, Nat.div_eq_iff hd, Nat.mul_comm q d]
  omega

end Lib.Int32
