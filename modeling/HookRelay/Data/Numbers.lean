import Mathlib.Data.List.TakeWhile
import HookRelay.Data.JsonText

/-!
# Numbers and their texts

`String(n)` of a natural number, and `Number(text)`.  A value is kept exactly, as a rational
number: a double agrees on every integer up to `2 ^ 53`, and the comparisons made with the
values here are of whole milliseconds.

* `decimalText`, `toNumber_decimalText` — the text of a natural number is read back.
* `toNumber_digits` — so is any text of digits.
* `readDecimal` — the decimal literals of JavaScript, which those of JSON are some of.
* `toNumber` — white space around the text is dropped, the empty text is 0, and what is no
  number is `NaN`.
-/

namespace HookRelay

open JsonText

/-- `String(n)` of an integer that is not negative. -/
def decimalText (n : ℕ) : CodeUnits := (Nat.toDigits 10 n).map fun c => UInt16.ofNat c.toNat

/-- A JavaScript number. -/
inductive JsNumber where
  | nan
  | infinite (negative : Bool)
  | finite (x : ℚ)

/-- White space and line ends. -/
def isJsSpace (u : UInt16) : Bool :=
  let n := u.toNat
  (0x09 ≤ n && n ≤ 0x0D) || n = 0x20 || n = 0xA0 || n = 0x1680 || (0x2000 ≤ n && n ≤ 0x200A) ||
    n = 0x2028 || n = 0x2029 || n = 0x202F || n = 0x205F || n = 0x3000 || n = 0xFEFF

/-- `text.trim()`. -/
def trim (t : CodeUnits) : CodeUnits := ((t.dropWhile isJsSpace).reverse.dropWhile isJsSpace).reverse

/-- The value of digits in a base. -/
def digitsValue (base : ℕ) (ds : List ℕ) : ℕ := ds.foldl (fun acc d => acc * base + d) 0

def decimalValue (ds : CodeUnits) : ℕ := digitsValue 10 (ds.map fun u => u.toNat - 0x30)

/-- The sign in front of a literal, and the rest. -/
def readSign : CodeUnits → Bool × CodeUnits
  | [] => (false, [])
  | u :: t => if u = 0x2D then (true, t) else if u = 0x2B then (false, t) else (false, u :: t)

/-- The exponent of a literal; it is 0 if there is none. -/
def readExponent : CodeUnits → Option ℤ
  | [] => some 0
  | u :: t =>
      let (negative, ds) := readSign t
      if isExp u && ds ≠ [] && ds.all isDigit then
        some (if negative then -(decimalValue ds : ℤ) else decimalValue ds)
      else none

/-- The digits after the point, and the rest. -/
def readFraction : CodeUnits → CodeUnits × CodeUnits
  | [] => ([], [])
  | u :: t => if u = dot then (t.takeWhile isDigit, t.dropWhile isDigit) else ([], u :: t)

/-- The value of a decimal literal. -/
def readDecimal (t : CodeUnits) : Option ℚ :=
  let (negative, t) := readSign t
  let int := t.takeWhile isDigit
  let (frac, rest) := readFraction (t.dropWhile isDigit)
  if int = [] ∧ frac = [] then none
  else
    (readExponent rest).map fun (e : ℤ) =>
      let x : ℚ := decimalValue (int ++ frac) * (10 : ℚ) ^ (e - (frac.length : ℤ))
      if negative then -x else x

/-- The value of the digits after `0x`, `0o` or `0b`. -/
def readRadix (base : ℕ) (t : CodeUnits) : JsNumber :=
  let ds := t.map fun u => (hexUnit u).getD 16
  if t ≠ [] ∧ ds.all (· < base) then .finite (digitsValue base ds) else .nan

/-- The base that the second unit of a literal asks for. -/
def radixOf (u : UInt16) : Option ℕ :=
  if u = 0x78 || u = 0x58 then some 16
  else if u = 0x6F || u = 0x4F then some 8
  else if u = 0x62 || u = 0x42 then some 2
  else none

/-- The value of a literal without white space around it. -/
def readLiteral (t : CodeUnits) : JsNumber :=
  let (negative, rest) := readSign t
  if rest = ascii "Infinity" then .infinite negative
  else
    match readDecimal t with
    | some x => .finite x
    | none => .nan

/-- `Number(text)`. -/
def toNumber (text : CodeUnits) : JsNumber :=
  match trim text with
  | [] => .finite 0
  | [u] => readLiteral [u]
  | u :: v :: t =>
      match radixOf v with
      | some base => if u = 0x30 then readRadix base t else readLiteral (u :: v :: t)
      | none => readLiteral (u :: v :: t)

/-! ## The text of a natural number -/

theorem isDigit_of_mem_decimalText {n : ℕ} {u : UInt16} (h : u ∈ decimalText n) :
    isDigit u = true := by
  obtain ⟨c, hc, rfl⟩ := List.mem_map.1 h
  have hd := Nat.isDigit_of_mem_toDigits (by norm_num : 0 < 10) le_rfl hc
  simp only [Char.isDigit, Bool.and_eq_true, decide_eq_true_eq] at hd
  have h1 : 48 ≤ c.toNat := hd.1
  have h2 : c.toNat ≤ 57 := hd.2
  simp only [isDigit, UInt16.toNat_ofNat', Bool.and_eq_true, decide_eq_true_eq]
  omega

theorem decimalText_ne_nil (n : ℕ) : decimalText n ≠ [] := by
  simp [decimalText, Nat.toDigits_ne_nil]

theorem digitsValue_append (base : ℕ) (a b : List ℕ) :
    digitsValue base (a ++ b) = b.foldl (fun acc d => acc * base + d) (digitsValue base a) := by
  simp [digitsValue]

/-- The digits of a number have its value. -/
theorem decimalValue_decimalText (n : ℕ) : decimalValue (decimalText n) = n := by
  have hdigit : ∀ d < 10, (UInt16.ofNat (Nat.digitChar d).toNat).toNat - 0x30 = d := by decide
  have key : ∀ n, digitsValue 10
      ((Nat.toDigits 10 n).map fun c => (UInt16.ofNat c.toNat).toNat - 0x30) = n := by
    intro n
    induction n using Nat.strong_induction_on with
    | _ n ih =>
        rcases Nat.lt_or_ge n 10 with hlt | hge
        · rw [Nat.toDigits_of_lt_base hlt]
          simpa [digitsValue] using hdigit n hlt
        · rw [Nat.toDigits_of_base_le (by norm_num) hge, List.map_append, digitsValue_append,
            ih (n / 10) (by omega)]
          simp only [List.map_cons, List.map_nil, List.foldl_cons, List.foldl_nil,
            hdigit (n % 10) (Nat.mod_lt n (by norm_num))]
          omega
  rw [decimalValue, decimalText, List.map_map]
  exact key n

theorem not_isJsSpace_of_isDigit {u : UInt16} (h : isDigit u = true) : isJsSpace u = false := by
  simp only [isDigit, Bool.and_eq_true, decide_eq_true_eq] at h
  simp only [isJsSpace, Bool.or_eq_false_iff, Bool.and_eq_false_iff, decide_eq_false_iff_not]
  omega

theorem dropWhile_eq_self_of_all {t : CodeUnits} {p : UInt16 → Bool}
    (h : ∀ u ∈ t, p u = false) : t.dropWhile p = t := by
  cases t with
  | nil => rfl
  | cons u t => simp [h u (by simp)]

theorem trim_digits {t : CodeUnits} (h : ∀ u ∈ t, isDigit u = true) : trim t = t := by
  have hspace : ∀ u ∈ t, isJsSpace u = false := fun u hu => not_isJsSpace_of_isDigit (h u hu)
  rw [trim, dropWhile_eq_self_of_all hspace, dropWhile_eq_self_of_all (by simpa using hspace),
    List.reverse_reverse]

theorem readSign_digits {t : CodeUnits} (h : ∀ u ∈ t, isDigit u = true) :
    readSign t = (false, t) := by
  cases t with
  | nil => rfl
  | cons u t =>
      have hu := h u (by simp)
      have hminus : u ≠ 0x2D := by rintro rfl; exact absurd hu (by decide)
      have hplus : u ≠ 0x2B := by rintro rfl; exact absurd hu (by decide)
      simp [readSign, hminus, hplus]

theorem readDecimal_digits {t : CodeUnits} (hne : t ≠ []) (h : ∀ u ∈ t, isDigit u = true) :
    readDecimal t = some (decimalValue t : ℚ) := by
  have htake : t.takeWhile isDigit = t := List.takeWhile_eq_self_iff.2 h
  have hdrop : t.dropWhile isDigit = [] := List.dropWhile_eq_nil_iff.2 h
  simp [readDecimal, readSign_digits h, htake, hdrop, readFraction, readExponent, hne]

theorem readLiteral_digits {t : CodeUnits} (hne : t ≠ []) (h : ∀ u ∈ t, isDigit u = true) :
    readLiteral t = .finite (decimalValue t) := by
  have hinf : t ≠ ascii "Infinity" := by
    rintro rfl
    exact absurd (h 0x49 (by decide)) (by decide)
  simp only [readLiteral, readSign_digits h, if_neg hinf, readDecimal_digits hne h]

theorem radixOf_digit {u : UInt16} (h : isDigit u = true) : radixOf u = none := by
  have hne : ∀ v : UInt16, isDigit v = false → decide (u = v) = false := by
    intro v hv
    refine decide_eq_false fun heq => ?_
    rw [heq, hv] at h
    cases h
  unfold radixOf
  simp only [hne 0x78 (by decide), hne 0x58 (by decide), hne 0x6F (by decide),
    hne 0x4F (by decide), hne 0x62 (by decide), hne 0x42 (by decide), Bool.or_self,
    Bool.false_eq_true, if_false]

/-- A text of digits is read as their value. -/
theorem toNumber_digits {t : CodeUnits} (hne : t ≠ []) (h : ∀ u ∈ t, isDigit u = true) :
    toNumber t = .finite (decimalValue t) := by
  have hread := readLiteral_digits hne h
  unfold toNumber
  rw [trim_digits h]
  split
  · exact absurd rfl hne
  · exact hread
  · rename_i u v t
    rw [radixOf_digit (h v (by simp))]
    exact hread

/-- **The text of a natural number is read back.** -/
theorem toNumber_decimalText (n : ℕ) : toNumber (decimalText n) = .finite n := by
  rw [toNumber_digits (decimalText_ne_nil n) fun u => isDigit_of_mem_decimalText,
    decimalValue_decimalText]

end HookRelay
