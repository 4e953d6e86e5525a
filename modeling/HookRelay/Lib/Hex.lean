import Mathlib.Tactic

/-!
# Hexadecimal and decimal numerals

Digits, fixed-width hexadecimal numerals and the readers for both bases.  A
reader takes the characters left to right with an accumulator, as the usual
parsers do, and fails at the first character that is not a digit.

* `hexDigits_injective` — a number is determined by its fixed-width digits.
* `hexNumber_hexText` — the shortest hexadecimal form of a number reads back.
* `hexNumberFrom_map` — reading does not depend on the case of the letters.
-/

namespace Lib

/-- The lower-case hexadecimal digit of a number below 16. -/
def hexChar (d : ℕ) : Char := Char.ofNat (if d < 10 then 48 + d else 87 + d)

/-- The last `n` hexadecimal digits of `v`, most significant first. -/
def hexDigits : ℕ → ℕ → List ℕ
  | 0, _ => []
  | n + 1, v => hexDigits n (v / 16) ++ [v % 16]

@[simp] theorem length_hexDigits (n v : ℕ) : (hexDigits n v).length = n := by
  induction n generalizing v with
  | zero => rfl
  | succ n ih => simp [hexDigits, ih]

theorem lt_of_mem_hexDigits {n v d : ℕ} (h : d ∈ hexDigits n v) : d < 16 := by
  induction n generalizing v with
  | zero => simp [hexDigits] at h
  | succ n ih =>
      rcases List.mem_append.1 h with h | h
      · exact ih h
      · rw [List.mem_singleton.1 h]; exact Nat.mod_lt _ (by norm_num)

theorem hexDigits_injective {n v w : ℕ} (hv : v < 16 ^ n) (hw : w < 16 ^ n)
    (h : hexDigits n v = hexDigits n w) : v = w := by
  induction n generalizing v w with
  | zero =>
      rw [pow_zero] at hv hw
      omega
  | succ n ih =>
      have hlen : (hexDigits n (v / 16)).length = (hexDigits n (w / 16)).length := by simp
      obtain ⟨hdiv, hmod⟩ := List.append_inj h hlen
      have hmod' : v % 16 = w % 16 := by simpa using hmod
      have hdiv' : v / 16 = w / 16 := by
        refine ih ?_ ?_ hdiv
        · rw [pow_succ] at hv; omega
        · rw [pow_succ] at hw; omega
      omega

theorem hexChar_ne_dash {d : ℕ} (h : d < 16) : hexChar d ≠ '-' := by
  revert h; revert d; decide

/-- The value of a hexadecimal digit of either case. -/
def hexVal (c : Char) : Option ℕ :=
  if '0' ≤ c ∧ c ≤ '9' then some (c.toNat - 48)
  else if 'a' ≤ c ∧ c ≤ 'f' then some (c.toNat - 87)
  else if 'A' ≤ c ∧ c ≤ 'F' then some (c.toNat - 55)
  else none

theorem hexVal_hexChar {d : ℕ} (h : d < 16) : hexVal (hexChar d) = some d := by
  revert h; revert d; decide

/-! ## Reading numerals -/

/-- Read hexadecimal digits onto an accumulator. -/
def hexNumberFrom (acc : ℕ) : List Char → Option ℕ
  | [] => some acc
  | c :: cs =>
      match hexVal c with
      | none => none
      | some d => hexNumberFrom (acc * 16 + d) cs

/-- Read a hexadecimal numeral; the empty one is 0. -/
def hexNumber (cs : List Char) : Option ℕ := hexNumberFrom 0 cs

/-- The value of a decimal digit. -/
def decVal (c : Char) : Option ℕ := if '0' ≤ c ∧ c ≤ '9' then some (c.toNat - 48) else none

/-- Read decimal digits onto an accumulator. -/
def decNumberFrom (acc : ℕ) : List Char → Option ℕ
  | [] => some acc
  | c :: cs =>
      match decVal c with
      | none => none
      | some d => decNumberFrom (acc * 10 + d) cs

/-- Read a decimal numeral; the empty one is 0. -/
def decNumber (cs : List Char) : Option ℕ := decNumberFrom 0 cs

theorem hexNumberFrom_append (acc : ℕ) (a b : List Char) :
    hexNumberFrom acc (a ++ b) = (hexNumberFrom acc a).bind fun n => hexNumberFrom n b := by
  induction a generalizing acc with
  | nil => rfl
  | cons c a ih =>
      simp only [List.cons_append, hexNumberFrom]
      cases hexVal c with
      | none => rfl
      | some d => exact ih _

theorem hexNumberFrom_hexDigits (acc n v : ℕ) :
    hexNumberFrom acc ((hexDigits n v).map hexChar) = some (acc * 16 ^ n + v % 16 ^ n) := by
  induction n generalizing v with
  | zero => simp [hexDigits, hexNumberFrom, Nat.mod_one]
  | succ n ih =>
      have hlast : hexVal (hexChar (v % 16)) = some (v % 16) :=
        hexVal_hexChar (Nat.mod_lt _ (by norm_num))
      rw [hexDigits, List.map_append, hexNumberFrom_append, ih]
      simp only [List.map_cons, List.map_nil, Option.bind_some, hexNumberFrom, hlast]
      have hmod : v % 16 ^ (n + 1) = v / 16 % 16 ^ n * 16 + v % 16 := by
        rw [pow_succ, mul_comm (16 ^ n) 16, Nat.mod_mul]
        omega
      rw [hmod, pow_succ]
      congr 1
      ring

/-- The number of digits of the shortest hexadecimal form of a number below `2 ^ 16`. -/
def hexWidth (v : ℕ) : ℕ := if v < 16 then 1 else if v < 256 then 2 else if v < 4096 then 3 else 4

/-- The shortest hexadecimal form of a number below `2 ^ 16`, in lower case. -/
def hexText (v : ℕ) : List Char := (hexDigits (hexWidth v) v).map hexChar

theorem length_hexText (v : ℕ) : 1 ≤ (hexText v).length ∧ (hexText v).length ≤ 4 := by
  simp only [hexText, List.length_map, length_hexDigits, hexWidth]
  split_ifs <;> omega

theorem hexNumber_hexText {v : ℕ} (h : v < 65536) : hexNumber (hexText v) = some v := by
  have hlt : v < 16 ^ hexWidth v := by
    unfold hexWidth
    split_ifs <;> norm_num <;> omega
  rw [hexNumber, hexText, hexNumberFrom_hexDigits, Nat.mod_eq_of_lt hlt, zero_mul, zero_add]

/-- A character of the shortest hexadecimal form is a digit. -/
theorem mem_hexText {v : ℕ} {c : Char} (h : c ∈ hexText v) : ∃ d < 16, c = hexChar d := by
  obtain ⟨d, hd, rfl⟩ := List.mem_map.1 h
  exact ⟨d, lt_of_mem_hexDigits hd, rfl⟩

/-- Reading does not depend on how the characters are written, as long as the
values of the digits stay the same. -/
theorem hexNumberFrom_map {f : Char → Char} (hf : ∀ c, hexVal (f c) = hexVal c) (acc : ℕ)
    (cs : List Char) : hexNumberFrom acc (cs.map f) = hexNumberFrom acc cs := by
  induction cs generalizing acc with
  | nil => rfl
  | cons c cs ih =>
      simp only [List.map_cons, hexNumberFrom, hf]
      cases hexVal c with
      | none => rfl
      | some d => exact ih _

end Lib
