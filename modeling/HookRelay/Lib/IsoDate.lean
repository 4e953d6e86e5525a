import Mathlib.Data.Nat.Find
import Mathlib.Tactic
import HookRelay.Lib.Hex

/-!
# Dates and their ISO texts

Times are milliseconds since 1970 and the calendar is the proleptic Gregorian one: a day
has a year, counted from 1970, the number of a month in it, and a date.

* `dayFromYear`, `yearOf` — the first day of a year, and the year of a day.
* `monthStart`, `monthOf` — the same for the months of a year.
* `isoText` — the text `YYYY-MM-DDTHH:mm:ss.sssZ`, with a sign and six digits for a year
  from 10000 on; times beyond the range of a date have none.
* `readIso`, `readIso_isoText` — **the text is read back**; a text beyond that range is no date.
-/

namespace Lib

/-! ## Decimal numbers of a fixed width -/

/-- A decimal digit. -/
def decChar (d : ℕ) : Char := Char.ofNat (48 + d)

/-- The last `w` decimal digits of a number. -/
def decPad : ℕ → ℕ → List Char
  | 0, _ => []
  | w + 1, n => decPad w (n / 10) ++ [decChar (n % 10)]

theorem decVal_decChar {d : ℕ} (h : d < 10) : decVal (decChar d) = some d := by
  revert h; revert d; decide

theorem length_decPad (w n : ℕ) : (decPad w n).length = w := by
  induction w generalizing n with
  | zero => rfl
  | succ w ih => simp [decPad, ih]

theorem decNumberFrom_append (acc : ℕ) (a b : List Char) :
    decNumberFrom acc (a ++ b) = (decNumberFrom acc a).bind fun n => decNumberFrom n b := by
  induction a generalizing acc with
  | nil => rfl
  | cons c a ih =>
      simp only [List.cons_append, decNumberFrom]
      cases decVal c with
      | none => rfl
      | some d => exact ih _

theorem decNumber_decPad {w n : ℕ} (h : n < 10 ^ w) : decNumber (decPad w n) = some n := by
  unfold decNumber
  induction w generalizing n with
  | zero =>
      have hn : n = 0 := by simpa using h
      subst hn
      rfl
  | succ w ih =>
      have hdiv : n / 10 < 10 ^ w := by
        rw [pow_succ] at h
        omega
      have hdigit := decVal_decChar (Nat.mod_lt n (by norm_num : 0 < 10))
      rw [decPad, decNumberFrom_append, ih hdiv]
      simp only [Option.bind_some, decNumberFrom, hdigit]
      congr 1
      omega

/-! ## The calendar -/

/-- The first day of the `n`-th year after 1970. -/
def dayFromYear (n : ℕ) : ℕ := 365 * n + (n + 1) / 4 + (n + 369) / 400 - (n + 69) / 100

/-- The `n`-th year after 1970 has 366 days. -/
def isLeap (n : ℕ) : Bool :=
  ((n + 1970) % 4 = 0 && (n + 1970) % 100 ≠ 0) || (n + 1970) % 400 = 0

def daysInYear (n : ℕ) : ℕ := if isLeap n then 366 else 365

theorem dayFromYear_succ (n : ℕ) : dayFromYear (n + 1) = dayFromYear n + daysInYear n := by
  have h4 : (n + 1 + 1) / 4 = (n + 1) / 4 + if 4 ∣ n + 1 + 1 then 1 else 0 := Nat.succ_div ..
  have h400 : (n + 1 + 369) / 400 = (n + 369) / 400 + if 400 ∣ n + 369 + 1 then 1 else 0 := by
    rw [← Nat.succ_div, show n + 1 + 369 = n + 369 + 1 by omega]
  have h100 : (n + 1 + 69) / 100 = (n + 69) / 100 + if 100 ∣ n + 69 + 1 then 1 else 0 := by
    rw [← Nat.succ_div, show n + 1 + 69 = n + 69 + 1 by omega]
  have hsub : (n + 69) / 100 ≤ 365 * n := by omega
  have hleap : isLeap n = true ↔
      (4 ∣ n + 1 + 1 ∧ ¬ 100 ∣ n + 69 + 1) ∨ 400 ∣ n + 369 + 1 := by
    simp only [isLeap, ne_eq, decide_not, Bool.or_eq_true, Bool.and_eq_true, decide_eq_true_eq,
      Bool.not_eq_true', decide_eq_false_iff_not]
    omega
  have h₁ : 100 ∣ n + 69 + 1 → 4 ∣ n + 1 + 1 := by omega
  have h₂ : 400 ∣ n + 369 + 1 → 100 ∣ n + 69 + 1 := by omega
  unfold dayFromYear daysInYear
  rw [h4, h400, h100]
  simp only [hleap]
  -- what is left is linear in the three quotients
  clear h4 h400 h100 hleap
  generalize (n + 1) / 4 = a, (n + 69) / 100 = b, (n + 369) / 400 = c at *
  by_cases p4 : 4 ∣ n + 1 + 1
  · by_cases p100 : 100 ∣ n + 69 + 1
    · by_cases p400 : 400 ∣ n + 369 + 1
      · simp only [p4, p100, p400, if_true, or_true]
        clear * - hsub
        omega
      · simp only [p4, p100, p400, if_true, if_false, not_true, and_false, or_false]
        clear * - hsub
        omega
    · have p400 : ¬ 400 ∣ n + 369 + 1 := fun h => p100 (h₂ h)
      simp only [p4, p100, p400, if_true, if_false, not_false_eq_true, and_true, true_or]
      clear * - hsub
      omega
  · have p100 : ¬ 100 ∣ n + 69 + 1 := fun h => p4 (h₁ h)
    have p400 : ¬ 400 ∣ n + 369 + 1 := fun h => p100 (h₂ h)
    simp only [p4, p100, p400, if_false, false_and, or_false]
    clear * - hsub
    omega

theorem le_dayFromYear (n : ℕ) : 365 * n ≤ dayFromYear n := by
  unfold dayFromYear
  omega

/-- The year a day falls in. -/
def yearOf (day : ℕ) : ℕ := Nat.findGreatest (fun n => dayFromYear n ≤ day) (day / 365)

theorem yearOf_spec (day : ℕ) :
    dayFromYear (yearOf day) ≤ day ∧ day < dayFromYear (yearOf day) + daysInYear (yearOf day) := by
  have hzero : dayFromYear 0 ≤ day := Nat.zero_le day
  refine ⟨Nat.findGreatest_spec (P := fun n => dayFromYear n ≤ day) (Nat.zero_le _) hzero, ?_⟩
  rw [← dayFromYear_succ]
  by_contra hle
  have hle : dayFromYear (yearOf day + 1) ≤ day := not_lt.1 hle
  have hbound : yearOf day + 1 ≤ day / 365 := by
    have := le_dayFromYear (yearOf day + 1)
    omega
  exact Nat.findGreatest_is_greatest (P := fun n => dayFromYear n ≤ day)
    (Nat.lt_succ_self (yearOf day)) hbound hle

/-- The days of a year before its `m`-th month, counted from 0. -/
def monthStart (leap : Bool) (m : ℕ) : ℕ :=
  [0, 31, 59, 90, 120, 151, 181, 212, 243, 273, 304, 334, 365].getD m 0 +
    (if leap && 2 ≤ m then 1 else 0)

/-- The month of a day of the year. -/
def monthOf (leap : Bool) (d : ℕ) : ℕ := Nat.findGreatest (fun m => monthStart leap m ≤ d) 11

theorem monthOf_spec {leap : Bool} {d : ℕ} (h : d < monthStart leap 12) :
    monthOf leap d ≤ 11 ∧ monthStart leap (monthOf leap d) ≤ d ∧
      d < monthStart leap (monthOf leap d + 1) := by
  have hle : monthOf leap d ≤ 11 := Nat.findGreatest_le 11
  have hzero : monthStart leap 0 ≤ d := by cases leap <;> exact Nat.zero_le d
  refine ⟨hle, Nat.findGreatest_spec (P := fun m => monthStart leap m ≤ d) (Nat.zero_le _) hzero, ?_⟩
  by_contra hge
  have hge : monthStart leap (monthOf leap d + 1) ≤ d := not_lt.1 hge
  rcases Nat.lt_or_ge (monthOf leap d) 11 with hlt | hlast
  · exact Nat.findGreatest_is_greatest (P := fun m => monthStart leap m ≤ d)
      (Nat.lt_succ_self (monthOf leap d)) hlt hge
  · have : monthOf leap d + 1 = 12 := by omega
    rw [this] at hge
    omega

theorem monthStart_twelve (n : ℕ) : monthStart (isLeap n) 12 = daysInYear n := by
  unfold daysInYear
  cases isLeap n <;> rfl

/-- A month has at most 31 days. -/
theorem monthStart_succ_le {leap : Bool} {m : ℕ} (h : m ≤ 11) :
    monthStart leap (m + 1) ≤ monthStart leap m + 31 := by
  have hall : ∀ m < 12, monthStart leap (m + 1) ≤ monthStart leap m + 31 := by
    cases leap <;> decide
  exact hall m (by omega)

/-! ## Texts -/

/-- The last time a date can have. -/
def maxTime : ℕ := 8640000000000000

/-- The year as it is written. -/
def yearText (y : ℕ) : List Char := if y ≤ 9999 then decPad 4 y else '+' :: decPad 6 y

/-- What comes after the year. -/
def restText (month date h m s ms : ℕ) : List Char :=
  '-' :: decPad 2 month ++ '-' :: decPad 2 date ++ 'T' :: decPad 2 h ++ ':' :: decPad 2 m ++
    ':' :: decPad 2 s ++ '.' :: decPad 3 ms ++ ['Z']

/-- The text of a time, in UTC. -/
def isoText (t : ℕ) : Option (List Char) :=
  if t ≤ maxTime then
    let day := t / 86400000
    let n := yearOf day
    let d := day - dayFromYear n
    let month := monthOf (isLeap n) d
    some (yearText (n + 1970) ++ restText (month + 1) (d - monthStart (isLeap n) month + 1)
      (t / 3600000 % 24) (t / 60000 % 60) (t / 1000 % 60) (t % 1000))
  else none

/-- The time of a year and of what comes after it. -/
def readRest (year : List Char) (rest : List Char) : Option ℕ :=
  match rest with
  | ['-', o₁, o₂, '-', d₁, d₂, 'T', h₁, h₂, ':', m₁, m₂, ':', s₁, s₂, '.', x₁, x₂, x₃, 'Z'] => do
      let y ← decNumber year
      let month ← decNumber [o₁, o₂]
      let date ← decNumber [d₁, d₂]
      let h ← decNumber [h₁, h₂]
      let m ← decNumber [m₁, m₂]
      let s ← decNumber [s₁, s₂]
      let ms ← decNumber [x₁, x₂, x₃]
      let n := y - 1970
      if 1970 ≤ y ∧ 1 ≤ month ∧ month ≤ 12 ∧ 1 ≤ date ∧
          date ≤ monthStart (isLeap n) month - monthStart (isLeap n) (month - 1) ∧
          h < 24 ∧ m < 60 ∧ s < 60 then
        let day := dayFromYear n + monthStart (isLeap n) (month - 1) + (date - 1)
        some ((((day * 24 + h) * 60 + m) * 60 + s) * 1000 + ms)
      else none
  | _ => none

/-- The time that the fields of a text of this form stand for. -/
def readFields (t : List Char) : Option ℕ :=
  match t with
  | '+' :: r => if r.length = 26 then readRest (r.take 6) (r.drop 6) else none
  | r => readRest (r.take 4) (r.drop 4)

/-- The time that a text of this form stands for, from 1970 on; a date has none after
`maxTime`. -/
def readIso (t : List Char) : Option ℕ := (readFields t).filter fun ms => ms ≤ maxTime

/-! ## Reading back what was written -/

theorem readRest_restText {year : List Char} {y month date h m s ms : ℕ}
    (hy : decNumber year = some y) (hy0 : 1970 ≤ y) (ho : 1 ≤ month ∧ month ≤ 12)
    (hd : 1 ≤ date ∧ date ≤ monthStart (isLeap (y - 1970)) month -
      monthStart (isLeap (y - 1970)) (month - 1))
    (hlt : date ≤ 31 ∧ h < 24 ∧ m < 60 ∧ s < 60 ∧ ms < 1000) :
    readRest year (restText month date h m s ms) = some (((((dayFromYear (y - 1970) +
      monthStart (isLeap (y - 1970)) (month - 1) + (date - 1)) * 24 + h) * 60 + m) * 60 + s) *
      1000 + ms) := by
  have h2 : ∀ n < 100, decNumber [decChar (n / 10 % 10), decChar (n % 10)] = some n :=
    fun n hn => decNumber_decPad (w := 2) hn
  have h3 : ∀ n < 1000,
      decNumber [decChar (n / 10 / 10 % 10), decChar (n / 10 % 10), decChar (n % 10)] = some n :=
    fun n hn => decNumber_decPad (w := 3) hn
  show readRest year ['-', decChar (month / 10 % 10), decChar (month % 10), '-',
    decChar (date / 10 % 10), decChar (date % 10), 'T', decChar (h / 10 % 10), decChar (h % 10),
    ':', decChar (m / 10 % 10), decChar (m % 10), ':', decChar (s / 10 % 10), decChar (s % 10),
    '.', decChar (ms / 10 / 10 % 10), decChar (ms / 10 % 10), decChar (ms % 10), 'Z'] = _
  simp only [readRest, hy, h2 month (by omega), h2 date (by omega), h2 h (by omega),
    h2 m (by omega), h2 s (by omega), h3 ms hlt.2.2.2.2, Option.bind_eq_bind, Option.bind_some]
  rw [if_pos ⟨hy0, ho.1, ho.2, hd.1, hd.2, hlt.2.1, hlt.2.2.1, hlt.2.2.2.1⟩]

theorem length_restText (month date h m s ms : ℕ) : (restText month date h m s ms).length = 20 := by
  simp [restText, length_decPad]

/-- The year of a text. -/
theorem readFields_append {y : ℕ} (hy : y < 10 ^ 6) {rest : List Char} (hlen : rest.length = 20) :
    ∃ year, decNumber year = some y ∧ readFields (yearText y ++ rest) = readRest year rest := by
  unfold yearText
  split_ifs with h
  · refine ⟨decPad 4 y, decNumber_decPad (by omega), ?_⟩
    have hhead : ∀ r, decPad 4 y ++ rest ≠ '+' :: r := by
      intro r hr
      have hc : decChar (y / 10 / 10 / 10 % 10) = '+' := (List.cons.inj hr).1
      have := decVal_decChar (Nat.mod_lt (y / 10 / 10 / 10) (by norm_num : 0 < 10))
      rw [hc] at this
      cases this
    have htake : (decPad 4 y ++ rest).take 4 = decPad 4 y := List.take_left' (length_decPad 4 y)
    have hdrop : (decPad 4 y ++ rest).drop 4 = rest := List.drop_left' (length_decPad 4 y)
    unfold readFields
    split
    · rename_i r hr
      exact absurd hr (hhead r)
    · rw [htake, hdrop]
  · refine ⟨decPad 6 y, decNumber_decPad hy, ?_⟩
    have htake : (decPad 6 y ++ rest).take 6 = decPad 6 y := List.take_left' (length_decPad 6 y)
    have hdrop : (decPad 6 y ++ rest).drop 6 = rest := List.drop_left' (length_decPad 6 y)
    show (if (decPad 6 y ++ rest).length = 26 then
      readRest ((decPad 6 y ++ rest).take 6) ((decPad 6 y ++ rest).drop 6) else none) = _
    rw [if_pos (by rw [List.length_append, length_decPad, hlen]), htake, hdrop]

/-- **The text of a time is read back.** -/
theorem readIso_isoText {t : ℕ} {x : List Char} (h : isoText t = some x) : readIso x = some t := by
  by_cases hmax : t ≤ maxTime
  swap
  · rw [isoText, if_neg hmax] at h
    cases h
  rw [isoText, if_pos hmax, Option.some.injEq] at h
  rw [← h]
  have hmax : t ≤ 8640000000000000 := hmax
  generalize hday : t / 86400000 = day
  obtain ⟨hyear, hnext⟩ := yearOf_spec day
  have hyears : yearOf day < 300000 := by
    have := le_dayFromYear (yearOf day)
    omega
  generalize yearOf day = n at *
  obtain ⟨hmonth, hstart, hend⟩ : monthOf (isLeap n) (day - dayFromYear n) ≤ 11 ∧ _ :=
    monthOf_spec (by rw [monthStart_twelve]; omega)
  generalize monthOf (isLeap n) (day - dayFromYear n) = month at *
  have hdays : monthStart (isLeap n) (month + 1) ≤ monthStart (isLeap n) month + 31 :=
    monthStart_succ_le hmonth
  obtain ⟨year, hnum, hread⟩ := readFields_append (y := n + 1970) (by omega)
    (length_restText (month + 1) (day - dayFromYear n - monthStart (isLeap n) month + 1)
      (t / 3600000 % 24) (t / 60000 % 60) (t / 1000 % 60) (t % 1000))
  rw [readIso, hread, readRest_restText hnum (by omega) ⟨by omega, by omega⟩
    (by simp only [Nat.add_sub_cancel]; omega) (by omega)]
  simp only [Nat.add_sub_cancel]
  rw [Option.filter_eq_some_iff, Option.some.injEq]
  exact ⟨by omega, decide_eq_true hmax⟩

theorem toNat_lt_of_mem_decPad {w n : ℕ} {c : Char} (h : c ∈ decPad w n) : c.toNat < 0x80 := by
  have hall : ∀ d < 10, (decChar d).toNat < 0x80 := by decide
  induction w generalizing n with
  | zero => cases h
  | succ w ih =>
      rcases List.mem_append.1 h with h | h
      · exact ih h
      · rw [List.mem_singleton.1 h]
        exact hall _ (Nat.mod_lt n (by norm_num))

theorem toNat_lt_of_mem_restText {month date h m s ms : ℕ} {c : Char}
    (hc : c ∈ restText month date h m s ms) : c.toNat < 0x80 := by
  simp only [restText, List.mem_append, List.mem_cons, List.not_mem_nil, or_false, or_assoc] at hc
  rcases hc with rfl | hc | rfl | hc | rfl | hc | rfl | hc | rfl | hc | rfl | hc | rfl
  · decide
  · exact toNat_lt_of_mem_decPad hc
  · decide
  · exact toNat_lt_of_mem_decPad hc
  · decide
  · exact toNat_lt_of_mem_decPad hc
  · decide
  · exact toNat_lt_of_mem_decPad hc
  · decide
  · exact toNat_lt_of_mem_decPad hc
  · decide
  · exact toNat_lt_of_mem_decPad hc
  · decide

/-- The text of a time is ASCII. -/
theorem toNat_lt_of_mem_isoText {t : ℕ} {x : List Char} (h : isoText t = some x) {c : Char}
    (hc : c ∈ x) : c.toNat < 0x80 := by
  by_cases hmax : t ≤ maxTime
  swap
  · rw [isoText, if_neg hmax] at h
    cases h
  rw [isoText, if_pos hmax, Option.some.injEq] at h
  rw [← h, List.mem_append] at hc
  rcases hc with hc | hc
  · unfold yearText at hc
    split_ifs at hc
    · exact toNat_lt_of_mem_decPad hc
    · rcases List.mem_cons.1 hc with rfl | hc
      · decide
      · exact toNat_lt_of_mem_decPad hc
  · exact toNat_lt_of_mem_restText hc

example : isoText 951782399999 = some "2000-02-28T23:59:59.999Z".toList := by decide +kernel

example : readIso "+275760-09-13T00:00:00.001Z".toList = none := by decide +kernel

end Lib
