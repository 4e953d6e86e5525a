import HookRelay.Lib.Binary
import HookRelay.Data.Numbers

/-!
# Arithmetic on numbers

The operators and functions of JavaScript that the retry delays are computed with, and how a
number is written.  The result of an operator is rounded, by a function that is a parameter.

* `exact`, `toDouble` — no rounding, and that of a double.
* `mul`, `min`, `floor`, `notPositive` — `x * y`, `Math.min`, `Math.floor` and `x <= 0`.
* `numberText` — `String(x)`: the shortest digits that are read as `x`.  The sign of zero is
  not kept.
* `readNumber` — `Number(text)`, as a double.
* `readNumber_numberText` — a whole number below `10 ^ 21` is written with digits only, and
  they are read as it; from `2 ^ 53` on they are not all digits of the number.
* `numberText_eq_decimalText` — below that, they are its digits.
* `isVisible_numberText` — the text of a number has no blanks and no line feeds.
-/

namespace HookRelay

open Lib JsonText

/-- How the result of an operator is rounded. -/
abbrev Rounding := ℚ → JsNumber

/-- Exact arithmetic. -/
def exact : Rounding := JsNumber.finite

/-- The nearest double; from `2 ^ 1024` on there is none. -/
def toDouble : Rounding := fun x =>
  if |Binary.nearest Binary.binary64 x| < 2 ^ 1024 then
    .finite (Binary.nearest Binary.binary64 x)
  else .infinite (x < 0)

namespace JsNumber

/-- `x * y`. -/
def mul (rnd : Rounding) : JsNumber → JsNumber → JsNumber
  | finite x, finite y => rnd (x * y)
  | finite x, infinite b => if x = 0 then nan else infinite (decide (x < 0) != b)
  | infinite a, finite y => if y = 0 then nan else infinite (a != decide (y < 0))
  | infinite a, infinite b => infinite (a != b)
  | nan, _ => nan
  | _, nan => nan

/-- `Math.min(x, y)`. -/
def min : JsNumber → JsNumber → JsNumber
  | finite x, finite y => finite (if x ≤ y then x else y)
  | finite x, infinite b => if b then infinite true else finite x
  | infinite a, finite y => if a then infinite true else finite y
  | infinite a, infinite b => infinite (a || b)
  | nan, _ => nan
  | _, nan => nan

/-- `Math.floor(x)`. -/
def floor : JsNumber → JsNumber
  | finite x => finite (⌊x⌋ : ℤ)
  | x => x

/-- `x <= 0`. -/
def notPositive : JsNumber → Bool
  | finite x => x ≤ 0
  | infinite a => a
  | nan => false

/-- Rounding a number. -/
def round (rnd : Rounding) : JsNumber → JsNumber
  | finite x => rnd x
  | x => x

end JsNumber

/-! ## How a number is written -/

/-- The decimal `s * 10 ^ e` is read as `x`. -/
def readsAs (x : ℚ) (e : ℤ) (s : ℕ) : Bool :=
  Binary.nearest Binary.binary64 (s * (10 : ℚ) ^ e) = x

/-- The multiples of `10 ^ e` below `x` and above it, the closest one first, in a tie the even
one. -/
def multiplesAround (x : ℚ) (e : ℤ) : List ℕ :=
  let lo := ⌊x / 10 ^ e⌋₊
  let below : ℚ := x - lo * (10 : ℚ) ^ e
  let above : ℚ := (lo + 1 : ℕ) * (10 : ℚ) ^ e - x
  if below < above ∨ (below = above ∧ lo % 2 = 0) then [lo, lo + 1] else [lo + 1, lo]

/-- The closest one of them that is read as `x`. -/
def closestAt (x : ℚ) (e : ℤ) : Option ℕ := (multiplesAround x e).find? (readsAs x e)

/-- The decimal with `k + 1` digits, the first of which is the `n`th before the point, that is
read as `x`. -/
def digitsOf (x : ℚ) (n : ℤ) (k : ℕ) : Option (ℕ × ℤ) :=
  (closestAt x (n - (k + 1))).map fun s =>
    if s = 10 ^ (k + 1) then (1, n) else (s, n - (k + 1))

/-- The fewest digits `s` and the exponent `e` for which `s * 10 ^ e` is read as `x`, for a
positive `x`.  17 digits are enough for a double, and all its digits for a whole number. -/
def shortest (x : ℚ) : ℕ × ℤ :=
  let n := Int.log 10 x + 1
  ((List.range (max 17 n.toNat)).findSome? (digitsOf x n)).getD (0, 0)

/-- The digits `ds` times `10 ^ e`, with zeros, a point or an exponent. -/
def placeDigits (ds : CodeUnits) (e : ℤ) : CodeUnits :=
  let n := ds.length + e
  if 0 ≤ e ∧ n ≤ 21 then ds ++ List.replicate e.toNat 0x30
  else if 0 < n ∧ n ≤ 21 then ds.take n.toNat ++ dot :: ds.drop n.toNat
  else if -6 < n ∧ n ≤ 0 then ascii "0." ++ List.replicate (-n).toNat 0x30 ++ ds
  else
    ds.take 1 ++ (if ds.length = 1 then [] else dot :: ds.drop 1) ++ ascii "e" ++
      ascii (if n - 1 < 0 then "-" else "+") ++ decimalText (n - 1).natAbs

/-- The text of a positive number. -/
def positiveText (x : ℚ) : CodeUnits :=
  placeDigits (decimalText (shortest x).1) (shortest x).2

/-- `String(x)`. -/
def numberText : JsNumber → CodeUnits
  | .nan => ascii "NaN"
  | .infinite negative => ascii (if negative then "-Infinity" else "Infinity")
  | .finite x =>
      if x = 0 then ascii "0"
      else if x < 0 then ascii "-" ++ positiveText (-x)
      else positiveText x

/-- `Number(text)`. -/
def readNumber (text : CodeUnits) : JsNumber := (toNumber text).round toDouble

/-! ## Doubles -/

/-- A rational number that is a double. -/
structure IsDouble (x : ℚ) : Prop where
  fits : Binary.Fits Binary.binary64 x
  bounded : |x| < 2 ^ 1024

theorem toDouble_eq_self {x : ℚ} (h : IsDouble x) : toDouble x = .finite x := by
  rw [toDouble, Binary.nearest_eq_self h.fits, if_pos h.bounded]

/-- There are no doubles from `2 ^ 1024` on. -/
theorem toDouble_infinite {x : ℚ} (h : 2 ^ 1024 ≤ x) : toDouble x = .infinite false := by
  have hpos : (0 : ℚ) < 2 ^ 1024 := by positivity
  have hfits : Binary.Fits Binary.binary64 ((2 : ℚ) ^ (1024 : ℤ)) :=
    Binary.fits_two_zpow (by norm_num [Binary.binary64])
  have hle : (2 : ℚ) ^ 1024 ≤ Binary.nearest Binary.binary64 x := by
    have := Binary.le_nearest (zpow_nonneg (by norm_num) _) hfits (by exact_mod_cast h)
    exact_mod_cast this
  have hnot : ¬ |Binary.nearest Binary.binary64 x| < 2 ^ 1024 := by
    rw [abs_of_nonneg (hpos.le.trans hle)]
    exact not_lt.2 hle
  rw [toDouble, if_neg hnot, decide_eq_false (not_lt.2 (hpos.le.trans h))]

/-- A product below a double is a double below it. -/
theorem toDouble_le {x z : ℚ} (hx : 0 ≤ x) (hz : IsDouble z) (h : x ≤ z) :
    ∃ y, toDouble x = .finite y ∧ IsDouble y ∧ 0 ≤ y ∧ y ≤ z := by
  have hy0 : 0 ≤ Binary.nearest Binary.binary64 x := Binary.nearest_nonneg hx
  have hyz : Binary.nearest Binary.binary64 x ≤ z := Binary.nearest_le hx hz.fits h
  have hlt : |Binary.nearest Binary.binary64 x| < 2 ^ 1024 := by
    rw [abs_of_nonneg hy0]
    exact hyz.trans_lt ((le_abs_self z).trans_lt hz.bounded)
  exact ⟨_, if_pos hlt, ⟨Binary.fits_nearest x, hlt⟩, hy0, hyz⟩

/-! ## Whole numbers -/

/-- Zeros after the digits of a number multiply it by ten. -/
theorem decimalText_append_zeros {s : ℕ} (hs : 0 < s) (e : ℕ) :
    decimalText s ++ List.replicate e 0x30 = decimalText (s * 10 ^ e) := by
  induction e with
  | zero => simp
  | succ e ih =>
      have hpos : 0 < s * 10 ^ e := Nat.mul_pos hs (by positivity)
      have hdigits := Nat.toDigits_append_toDigits (b := 10) (d := 0) (by norm_num) hpos
        (by norm_num)
      calc decimalText s ++ List.replicate (e + 1) 0x30
          = decimalText (s * 10 ^ e) ++ [0x30] := by
            rw [List.replicate_succ', ← List.append_assoc, ih]
        _ = decimalText (10 * (s * 10 ^ e)) := by
            rw [decimalText, decimalText, ← add_zero (10 * _), ← hdigits, List.map_append]
            rfl
        _ = decimalText (s * 10 ^ (e + 1)) := by
            congr 1
            ring

/-- The closest multiple is read as the number. -/
theorem closestAt_spec {x : ℚ} {e : ℤ} {s : ℕ} (h : closestAt x e = some s) :
    Binary.nearest Binary.binary64 (s * (10 : ℚ) ^ e) = x := by
  have hs : readsAs x e s = true := List.find?_some h
  exact of_decide_eq_true hs

/-- At its last digit, a whole number that is a double is found. -/
theorem closestAt_zero {x : ℕ} (hx : IsDouble x) : closestAt x 0 = some x := by
  have hlo : ⌊(x : ℚ) / 10 ^ (0 : ℤ)⌋₊ = x := by
    rw [zpow_zero, div_one, Nat.floor_natCast]
  have hread : readsAs x 0 x = true := by
    rw [readsAs, zpow_zero, mul_one, decide_eq_true_eq]
    exact Binary.nearest_eq_self hx.fits
  have hfirst : multiplesAround x 0 = [x, x + 1] := by
    rw [multiplesAround]
    simp only [hlo]
    rw [if_pos]
    left
    norm_num
  rw [closestAt, hfirst, List.find?_cons_of_pos hread]

theorem digitsOf_spec {x : ℚ} {n : ℤ} {k : ℕ} {p : ℕ × ℤ} (h : digitsOf x n k = some p) :
    n - (k + 1) ≤ p.2 ∧ Binary.nearest Binary.binary64 (p.1 * (10 : ℚ) ^ p.2) = x := by
  obtain ⟨s, hs, rfl⟩ := Option.map_eq_some_iff.1 h
  have hread := closestAt_spec hs
  split_ifs with hten
  · refine ⟨by omega, ?_⟩
    -- ten to the `k + 1` at its place is ten to the `n`
    have hvalue : (s : ℚ) * (10 : ℚ) ^ (n - (k + 1)) = (1 : ℕ) * (10 : ℚ) ^ n := by
      have hsplit : (10 : ℚ) ^ n = 10 ^ (n - (k + 1)) * 10 ^ (((k + 1 : ℕ)) : ℤ) := by
        rw [← zpow_add₀ (by norm_num)]
        congr 1
        push_cast
        ring
      rw [hten, hsplit, zpow_natCast]
      push_cast
      ring
    rwa [hvalue] at hread
  · exact ⟨le_rfl, hread⟩

/-- The shortest digits of a whole number are those of a whole number. -/
theorem shortest_nat {x : ℕ} (hx : IsDouble x) :
    0 ≤ (shortest x).2 ∧
    Binary.nearest Binary.binary64 ((shortest x).1 * (10 : ℚ) ^ (shortest x).2) = x := by
  obtain ⟨m, hm⟩ : ∃ m : ℕ, Int.log 10 (x : ℚ) = m := ⟨Nat.log 10 x, Int.log_natCast 10 x⟩
  -- with all digits, it is found
  have hall : digitsOf x (m + 1) m ≠ none := by
    rw [digitsOf, show (m + 1 : ℤ) - (m + 1) = 0 by ring, closestAt_zero hx]
    simp
  unfold shortest
  simp only [hm]
  cases hfind : (List.range (max 17 (m + 1 : ℤ).toNat)).findSome? (digitsOf x (m + 1)) with
  | none =>
      have hmem : m ∈ List.range (max 17 (m + 1 : ℤ).toNat) := List.mem_range.2 (by omega)
      exact absurd (List.findSome?_eq_none_iff.1 hfind m hmem) hall
  | some p =>
      obtain ⟨before, k, rest, hrange, hk, hnone⟩ := List.findSome?_eq_some_iff.1 hfind
      obtain ⟨he, hread⟩ := digitsOf_spec hk
      -- and not later than that
      have hkm : k ≤ m := by
        by_contra hlt
        have hsorted := List.pairwise_lt_range (n := max 17 (m + 1 : ℤ).toNat)
        have hmem : m ∈ List.range (max 17 (m + 1 : ℤ).toNat) := List.mem_range.2 (by omega)
        rw [hrange] at hsorted hmem
        rcases List.mem_append.1 hmem with hmem | hmem
        · exact hall (hnone m hmem)
        · rcases List.mem_cons.1 hmem with rfl | hmem
          · exact hlt le_rfl
          · have := (List.pairwise_cons.1 (List.pairwise_append.1 hsorted).2.1).1 m hmem
            omega
      rw [Option.getD_some]
      exact ⟨by omega, hread⟩

/-- Digits that are read as a double below `10 ^ 21` are at most 21. -/
theorem length_le_of_read {s e x : ℕ} (hs : 0 < s) (hlt : x < 10 ^ 21)
    (hread : Binary.nearest Binary.binary64 ((s * 10 ^ e : ℕ) : ℚ) = x) :
    (decimalText s).length + e ≤ 21 := by
  have hfits : Binary.Fits Binary.binary64 (10 ^ 21) :=
    ⟨5 ^ 21, 21, by norm_num [Binary.binary64], by norm_num [Binary.binary64], by norm_num⟩
  have hvalue : s * 10 ^ e < 10 ^ 21 := by
    by_contra hge
    have hcast : (10 : ℚ) ^ 21 ≤ ((s * 10 ^ e : ℕ) : ℚ) := by exact_mod_cast not_lt.1 hge
    have hle := Binary.le_nearest (by positivity) hfits hcast
    rw [hread] at hle
    have hge' : 10 ^ 21 ≤ x := by exact_mod_cast hle
    omega
  have he : e < 21 := by
    have hpow : 10 ^ e < 10 ^ 21 := (Nat.le_mul_of_pos_left _ hs).trans_lt hvalue
    exact (Nat.pow_lt_pow_iff_right (by norm_num)).1 hpow
  have hdigits : (Nat.toDigits 10 s).length ≤ 21 - e := by
    rw [Nat.length_toDigits_le_iff (by norm_num) (by omega)]
    apply Nat.lt_of_mul_lt_mul_right (a := 10 ^ e)
    rwa [← pow_add, Nat.sub_add_cancel he.le]
  rw [decimalText, List.length_map]
  omega

/-- A whole number is written as one that is rounded to it. -/
theorem numberText_eq {x : ℕ} (hx : IsDouble x) (hlt : x < 10 ^ 21) :
    ∃ m : ℕ, numberText (.finite x) = decimalText m ∧
      Binary.nearest Binary.binary64 m = x := by
  by_cases h0 : x = 0
  · subst h0
    refine ⟨0, ?_, by simp⟩
    have hzero : ascii "0" = decimalText 0 := by decide
    rw [numberText, if_pos Nat.cast_zero, hzero]
  obtain ⟨he, hread⟩ := shortest_nat hx
  obtain ⟨s, e, hs⟩ : ∃ s e, shortest (x : ℚ) = (s, e) := ⟨_, _, rfl⟩
  rw [hs] at he hread
  obtain ⟨e, rfl⟩ := Int.eq_ofNat_of_zero_le he
  have hcast : (s : ℚ) * (10 : ℚ) ^ ((e : ℕ) : ℤ) = ((s * 10 ^ e : ℕ) : ℚ) := by
    push_cast
    rw [zpow_natCast]
  simp only [hcast] at hread
  have hs0 : 0 < s := by
    rw [Nat.pos_iff_ne_zero]
    rintro rfl
    rw [zero_mul, Nat.cast_zero, Binary.nearest_zero] at hread
    exact h0 (by exact_mod_cast hread.symm)
  have hlen := length_le_of_read hs0 hlt hread
  have hx0 : (x : ℚ) ≠ 0 := by exact_mod_cast h0
  have hneg : ¬ (x : ℚ) < 0 := by
    rw [not_lt]
    positivity
  have hlen' : ((decimalText s).length : ℤ) + (e : ℤ) ≤ 21 := by exact_mod_cast hlen
  refine ⟨s * 10 ^ e, ?_, hread⟩
  rw [numberText, if_neg hx0, if_neg hneg, positiveText, hs, placeDigits, if_pos ⟨he, hlen'⟩,
    Int.toNat_natCast, decimalText_append_zeros hs0]

/-- **A whole number is written with digits that are read as it.** -/
theorem numberText_nat {x : ℕ} (hx : IsDouble x) (hlt : x < 10 ^ 21) :
    numberText (.finite x) ≠ [] ∧ (∀ u ∈ numberText (.finite x), isDigit u = true) ∧
      toDouble (decimalValue (numberText (.finite x))) = .finite x := by
  obtain ⟨m, htext, hread⟩ := numberText_eq hx hlt
  rw [htext, decimalValue_decimalText]
  refine ⟨decimalText_ne_nil m, fun u hu => isDigit_of_mem_decimalText hu, ?_⟩
  rw [toDouble, hread, if_pos hx.bounded]

theorem isDouble_natCast {n : ℕ} (h : n ≤ 2 ^ 53) : IsDouble n := by
  have hn : (n : ℚ) ≤ 2 ^ 53 := by exact_mod_cast h
  constructor
  · have hfits := Binary.fits_intCast (f := Binary.binary64) (k := (n : ℤ))
      (by rw [Nat.abs_cast]; exact_mod_cast h) (by norm_num [Binary.binary64])
    exact_mod_cast hfits
  · rw [Nat.abs_cast]
    exact hn.trans_lt (pow_lt_pow_right₀ (by norm_num) (by norm_num))

/-- **Below `2 ^ 53`, a whole number is written with its own digits.** -/
theorem numberText_eq_decimalText {n : ℕ} (h : n < 2 ^ 53) :
    numberText (.finite n) = decimalText n := by
  obtain ⟨m, htext, hread⟩ := numberText_eq (isDouble_natCast h.le) (h.trans (by norm_num))
  rcases le_or_gt m (2 ^ 53) with hm | hm
  · rw [Binary.nearest_eq_self (isDouble_natCast hm).fits] at hread
    rw [htext, show m = n by exact_mod_cast hread]
  · -- `2 ^ 53` is a double, so what is above it is not rounded to a number below it
    have hbound : (2 : ℚ) ^ 53 ≤ m := by exact_mod_cast hm.le
    have hfits := (isDouble_natCast (le_refl (2 ^ 53))).fits
    have hle : (2 : ℚ) ^ 53 ≤ n := by
      rw [← hread]
      exact Binary.le_nearest (by positivity) (by exact_mod_cast hfits) hbound
    have hle' : 2 ^ 53 ≤ n := by exact_mod_cast hle
    omega

/-- **A whole number below `10 ^ 21` is read back.** -/
theorem readNumber_numberText {x : ℕ} (hx : IsDouble x) (hlt : x < 10 ^ 21) :
    readNumber (numberText (.finite x)) = .finite x := by
  obtain ⟨hne, hdigits, hread⟩ := numberText_nat hx hlt
  rw [readNumber, toNumber_digits hne hdigits]
  exact hread

/-! ## The characters of a number -/

/-- A code unit above the blank: neither a blank nor a line feed. -/
def isVisible (u : UInt16) : Bool := 0x20 < u.toNat

theorem isVisible_of_isDigit {u : UInt16} (h : isDigit u = true) : isVisible u = true := by
  simp only [isDigit, Bool.and_eq_true, decide_eq_true_eq] at h
  rw [isVisible, decide_eq_true_eq]
  omega

theorem isVisible_placeDigits {ds : CodeUnits} (h : ∀ u ∈ ds, isVisible u = true) (e : ℤ) :
    ∀ u ∈ placeDigits ds e, isVisible u = true := by
  have hzeros : ∀ k, ∀ u ∈ List.replicate k (0x30 : UInt16), isVisible u = true := by
    intro k u hu
    rw [List.eq_of_mem_replicate hu]
    decide
  have hdot : isVisible dot = true := by decide
  have hpoint : ∀ u ∈ ascii "0.", isVisible u = true := List.all_eq_true.1 (by decide)
  have hexp : ∀ u ∈ ascii "e", isVisible u = true := List.all_eq_true.1 (by decide)
  have htake : ∀ k, ∀ u ∈ ds.take k, isVisible u = true := fun k u hu =>
    h u (List.mem_of_mem_take hu)
  have hdrop : ∀ k, ∀ u ∈ ds.drop k, isVisible u = true := fun k u hu =>
    h u (List.mem_of_mem_drop hu)
  have hlast : ∀ n, ∀ u ∈ decimalText n, isVisible u = true := fun n u hu =>
    isVisible_of_isDigit (isDigit_of_mem_decimalText hu)
  have hrest : ∀ u ∈ (if ds.length = 1 then [] else dot :: ds.drop 1), isVisible u = true := by
    split_ifs
    · simp
    · exact List.forall_mem_cons.2 ⟨hdot, hdrop 1⟩
  have hsign : ∀ n : ℤ, ∀ u ∈ ascii (if n < 0 then "-" else "+"), isVisible u = true := by
    intro n
    split_ifs
    · exact List.all_eq_true.1 (by decide)
    · exact List.all_eq_true.1 (by decide)
  unfold placeDigits
  simp only
  split
  · exact List.forall_mem_append.2 ⟨h, hzeros _⟩
  split
  · exact List.forall_mem_append.2 ⟨htake _, List.forall_mem_cons.2 ⟨hdot, hdrop _⟩⟩
  split
  · exact List.forall_mem_append.2 ⟨List.forall_mem_append.2 ⟨hpoint, hzeros _⟩, h⟩
  simp only [List.forall_mem_append]
  exact ⟨⟨⟨⟨htake 1, hrest⟩, hexp⟩, hsign _⟩, hlast _⟩

/-- The text of a number is one visible word. -/
theorem isVisible_numberText (x : JsNumber) : ∀ u ∈ numberText x, isVisible u = true := by
  have hpositive : ∀ y, ∀ u ∈ positiveText y, isVisible u = true := fun y =>
    isVisible_placeDigits (fun u hu => isVisible_of_isDigit (isDigit_of_mem_decimalText hu)) _
  cases x with
  | nan => exact List.all_eq_true.1 (by decide)
  | infinite negative => cases negative <;> exact List.all_eq_true.1 (by decide)
  | finite x =>
      rw [numberText]
      split_ifs
      · exact List.all_eq_true.1 (by decide)
      · exact List.forall_mem_append.2 ⟨List.all_eq_true.1 (by decide), hpositive _⟩
      · exact hpositive x

end HookRelay
