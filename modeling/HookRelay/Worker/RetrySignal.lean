import HookRelay.Worker.Backoff

/-!
# The delay of a retry, as an error

`backoff.ts` and the job handler: a failed attempt throws a `RetrySignal`, and the queue asks
`backoffStrategy` for the delay, with the error or with another one of the same message.  The
arithmetic is that of doubles.

* `retryMessage`, `retryGroup` — the message, and the pattern that reads it.
* `backoffStrategy`, `afterFailure` — the delay the queue takes, and the one that is written to
  `nextRetryAt`.
* `Survives` — they are the same, whether or not the error was wrapped.
* `delay_survives_iff` — that holds but for the base 0 from attempt 1025 on: there `2 ** exp` is
  infinite, and the delay `NaN`.
-/

namespace HookRelay

open Lib JsonText

namespace Backoff

/-- The message of a `RetrySignal`. -/
def retryMessage (delayMs : JsNumber) : CodeUnits :=
  ascii "retry in " ++ numberText delayMs ++ ascii "ms"

/-- An error, as the queue hands it over. -/
inductive WorkerError where
  | retrySignal (delayMs : JsNumber)
  /-- Any other `Error`. -/
  | other (message : CodeUnits)

def WorkerError.message : WorkerError → CodeUnits
  | .retrySignal delayMs => retryMessage delayMs
  | .other message => message

/-- `/^retry in (\d+)ms$/.exec(message)`: what the group matches. -/
def retryGroup (message : CodeUnits) : Option CodeUnits :=
  let ds := (message.drop 9).dropLast.dropLast
  if message = ascii "retry in " ++ ds ++ ascii "ms" ∧ ds ≠ [] ∧ ds.all isDigit then some ds
  else none

/-- `backoffStrategy`; it does not look at its other arguments. -/
def backoffStrategy : Option WorkerError → JsNumber
  | some (.retrySignal delayMs) => delayMs
  | some (.other message) => (retryGroup message).elim retryDefaults.baseMs readNumber
  | none => retryDefaults.baseMs

/-- The job handler after a failed attempt: the delay for `nextRetryAt`, and the error. -/
def afterFailure (rnd : Rounding) (attemptCount : Option ℤ) (policy : RetryPolicy)
    (random : ℚ) : JsNumber × WorkerError :=
  let delayMs := fullJitterDelayMs rnd (attemptCount.getD 1) policy random
  (delayMs, .retrySignal delayMs)

/-- The queue's delay is the one for `nextRetryAt`, also if the error comes wrapped. -/
def Survives (attemptCount : Option ℤ) (policy : RetryPolicy) (random : ℚ) : Prop :=
  backoffStrategy (some (afterFailure toDouble attemptCount policy random).2) =
    (afterFailure toDouble attemptCount policy random).1 ∧
  backoffStrategy (some (.other (afterFailure toDouble attemptCount policy random).2.message)) =
    (afterFailure toDouble attemptCount policy random).1

/-! ## The pattern -/

/-- The pattern takes the messages with digits in their middle, and no others. -/
theorem retryGroup_eq_some_iff {message ds : CodeUnits} : retryGroup message = some ds ↔
    message = ascii "retry in " ++ ds ++ ascii "ms" ∧ ds ≠ [] ∧ ∀ u ∈ ds, isDigit u = true := by
  unfold retryGroup
  simp only [Option.ite_none_right_eq_some, Option.some.injEq, List.all_eq_true]
  constructor
  · rintro ⟨h, rfl⟩
    exact h
  · rintro ⟨rfl, hne, hdigits⟩
    have hms : ascii "ms" = [0x6D, 0x73] := by decide
    have hmiddle : ((ascii "retry in " ++ ds ++ ascii "ms").drop 9).dropLast.dropLast = ds := by
      have hlen : (ascii "retry in ").length = 9 := by decide
      rw [List.append_assoc, List.drop_left' hlen, hms]
      simp
    rw [hmiddle]
    exact ⟨⟨rfl, hne, hdigits⟩, rfl⟩

/-- A whole number of milliseconds is recovered from the message. -/
theorem backoffStrategy_retryMessage {d : ℕ} (hd : IsDouble d) (hlt : d < 10 ^ 21) :
    backoffStrategy (some (.other (retryMessage (.finite d)))) = .finite d := by
  obtain ⟨hne, hdigits, -⟩ := numberText_nat hd hlt
  have hgroup : retryGroup (retryMessage (.finite d)) = some (numberText (.finite d)) :=
    retryGroup_eq_some_iff.2 ⟨rfl, hne, hdigits⟩
  rw [backoffStrategy, hgroup, Option.elim_some, readNumber_numberText hd hlt]

/-- Of any other message, the default is left. -/
theorem backoffStrategy_of_not_form {message : CodeUnits}
    (h : ∀ ds, message = ascii "retry in " ++ ds ++ ascii "ms" → ds ≠ [] →
      ∃ u ∈ ds, isDigit u = false) :
    backoffStrategy (some (.other message)) = .finite 30000 := by
  have hgroup : retryGroup message = none := by
    rw [Option.eq_none_iff_forall_ne_some]
    intro ds hds
    obtain ⟨hform, hne, hdigits⟩ := retryGroup_eq_some_iff.1 hds
    obtain ⟨u, hu, hfalse⟩ := h ds hform hne
    rw [hdigits u hu] at hfalse
    cases hfalse
  rw [backoffStrategy, hgroup]
  rfl

/-! ## The delay -/

theorem toDouble_ne_nan (x : ℚ) : toDouble x ≠ .nan := by
  unfold toDouble
  split_ifs <;> simp

/-- Up to `2 ** 1023` the powers are doubles, from `2 ** 1024` on they are infinite. -/
theorem toDouble_two_pow (e : ℕ) :
    toDouble (2 ^ e) = if e < 1024 then .finite (2 ^ e) else .infinite false := by
  split_ifs with h
  · refine toDouble_eq_self ⟨?_, ?_⟩
    · have hmin : Binary.binary64.minExp ≤ (e : ℤ) := by
        show (-1074 : ℤ) ≤ e
        omega
      have := Binary.fits_two_zpow hmin
      rwa [zpow_natCast] at this
    · rw [abs_of_pos (by positivity)]
      exact pow_lt_pow_right₀ (by norm_num) h
  · exact toDouble_infinite (pow_le_pow_right₀ (by norm_num) (not_lt.1 h))

/-- **When the exponential is no number**: the base is none, or 0 times infinity. -/
theorem mul_two_pow_eq_nan_iff (base : JsNumber) (e : ℕ) :
    base.mul toDouble (toDouble (2 ^ e)) = .nan ↔
      base = .nan ∨ (base = .finite 0 ∧ 1024 ≤ e) := by
  rw [toDouble_two_pow]
  by_cases h : e < 1024
  · have hpow : (2 : ℚ) ^ e ≠ 0 := by positivity
    rw [if_pos h]
    cases base with
    | nan => simp [JsNumber.mul]
    | infinite a => simp [JsNumber.mul, hpow]
    | finite b =>
        have hnan : toDouble (b * 2 ^ e) ≠ .nan := toDouble_ne_nan _
        simp only [JsNumber.mul, hnan, reduceCtorEq, false_or, false_iff]
        omega
  · rw [if_neg h]
    cases base with
    | nan => simp [JsNumber.mul]
    | infinite a => simp [JsNumber.mul]
    | finite b =>
        by_cases hb : b = 0
        · simp [JsNumber.mul, hb, not_lt.1 h]
        · simp [JsNumber.mul, hb]

variable {capMs random : ℚ}

/-- Below a ceiling under the cap, the delay is a whole number of milliseconds. -/
theorem jitter_of_ceiling (hcap : IsDouble capMs) (hcaplt : capMs < 10 ^ 21)
    (hr : 0 ≤ random ∧ random < 1) {c : ℚ} (hc : c ≤ capMs) :
    ∃ d : ℕ, IsDouble d ∧ d < 10 ^ 21 ∧
      (if (JsNumber.finite c).notPositive then .finite 0
        else ((JsNumber.finite random).mul toDouble (.finite c)).floor) = .finite d := by
  by_cases hpos : c ≤ 0
  · refine ⟨0, isDouble_natCast (Nat.zero_le _), by norm_num, ?_⟩
    have hnot : (JsNumber.finite c).notPositive = true := decide_eq_true hpos
    rw [if_pos hnot, Nat.cast_zero]
  · have hc0 : 0 ≤ c := (not_le.1 hpos).le
    have hle : random * c ≤ capMs := (mul_le_of_le_one_left hc0 hr.2.le).trans hc
    obtain ⟨y, hy, hdouble, hy0, hycap⟩ := toDouble_le (mul_nonneg hr.1 hc0) hcap hle
    obtain ⟨d, hd⟩ := Int.eq_ofNat_of_zero_le (Int.floor_nonneg.2 hy0)
    have hfloor : (d : ℚ) ≤ y := by
      have := Int.floor_le y
      rw [hd] at this
      exact_mod_cast this
    have hbound : (d : ℚ) < 10 ^ 21 := (hfloor.trans hycap).trans_lt hcaplt
    refine ⟨d, ⟨?_, ?_⟩, by exact_mod_cast hbound, ?_⟩
    · have hfits := Binary.fits_floor hdouble.fits hy0 (by norm_num [Binary.binary64])
      rw [hd] at hfits
      exact_mod_cast hfits
    · rw [abs_of_nonneg (by positivity)]
      exact hfloor.trans_lt ((le_abs_self y).trans_lt hdouble.bounded)
    · rw [if_neg (by simpa [JsNumber.notPositive] using hpos)]
      show (toDouble (random * c)).floor = .finite d
      rw [hy]
      show JsNumber.finite ((⌊y⌋ : ℤ) : ℚ) = .finite d
      rw [hd]
      rfl

/-- **With a ceiling that is a number**, the delay is a whole number of milliseconds below the
cap. -/
theorem jitter_below_cap (hcap : IsDouble capMs) (hcaplt : capMs < 10 ^ 21)
    (hr : 0 ≤ random ∧ random < 1) {n : ℤ} {base : JsNumber} {maxAttempts : ℕ}
    (h : base.mul toDouble (toDouble (2 ^ (n - 1).toNat)) ≠ .nan) :
    ∃ d : ℕ, IsDouble d ∧ d < 10 ^ 21 ∧
      fullJitterDelayMs toDouble n ⟨base, .finite capMs, maxAttempts⟩ random = .finite d := by
  unfold fullJitterDelayMs exponentialCeilingMs
  simp only
  cases hp : base.mul toDouble (toDouble (2 ^ (n - 1).toNat)) with
  | nan => exact absurd hp h
  | infinite a =>
      cases a with
      | true =>
          refine ⟨0, isDouble_natCast (Nat.zero_le _), by norm_num, ?_⟩
          rw [Nat.cast_zero]
          rfl
      | false => exact jitter_of_ceiling hcap hcaplt hr le_rfl
  | finite y =>
      apply jitter_of_ceiling hcap hcaplt hr
      split_ifs with hle
      · exact le_rfl
      · exact (not_le.1 hle).le

/-- With a ceiling that is none, neither is the delay. -/
theorem jitter_nan {n : ℤ} {base : JsNumber} {maxAttempts : ℕ}
    (h : base.mul toDouble (toDouble (2 ^ (n - 1).toNat)) = .nan) :
    fullJitterDelayMs toDouble n ⟨base, .finite capMs, maxAttempts⟩ random = .nan := by
  unfold fullJitterDelayMs exponentialCeilingMs
  simp only [h]
  rfl

/-- `retry in NaNms` is no message of a delay. -/
theorem backoffStrategy_nan :
    backoffStrategy (some (.other (retryMessage .nan))) = .finite 30000 := by
  have hgroup : retryGroup (retryMessage .nan) = none := by decide
  rw [backoffStrategy, hgroup]
  rfl

/-- **When the delay survives.**  For every policy with a cap below `10 ^ 21`, every attempt and
every draw: what `backoffStrategy` makes of the error, or of another one with its message, is
the delay for `nextRetryAt`, exactly if the base is a number and is not 0 from attempt 1025 on.
Of a message that is not of the form it makes the default base. -/
theorem delay_survives_iff {failedAttemptNo : ℤ} {baseMs : JsNumber} {capMs : ℚ}
    {maxAttempts : ℕ} {random : ℚ} {message : CodeUnits} (hcap : IsDouble capMs)
    (hcaplt : capMs < 10 ^ 21) (hr : 0 ≤ random ∧ random < 1) :
    (Survives (some failedAttemptNo) ⟨baseMs, .finite capMs, maxAttempts⟩ random ↔
      baseMs ≠ .nan ∧ ¬ (baseMs = .finite 0 ∧ 1025 ≤ failedAttemptNo)) ∧
    ((∀ ds, message = ascii "retry in " ++ ds ++ ascii "ms" → ds ≠ [] →
        ∃ u ∈ ds, isDigit u = false) →
      backoffStrategy (some (.other message)) = .finite 30000) := by
  refine ⟨?_, backoffStrategy_of_not_form⟩
  have hexp : (1025 ≤ failedAttemptNo) = (1024 ≤ (failedAttemptNo - 1).toNat) :=
    propext (by omega)
  rw [hexp, ← not_or, ← mul_two_pow_eq_nan_iff]
  unfold Survives afterFailure
  simp only [Option.getD_some, WorkerError.message]
  constructor
  · rintro ⟨-, hwrapped⟩ hnan
    rw [jitter_nan hnan, backoffStrategy_nan] at hwrapped
    cases hwrapped
  · intro hnum
    obtain ⟨d, hd, hlt, hdelay⟩ := @jitter_below_cap capMs random hcap hcaplt hr failedAttemptNo
      baseMs maxAttempts hnum
    rw [hdelay]
    exact ⟨rfl, backoffStrategy_retryMessage hd hlt⟩

theorem isDouble_14400000 : IsDouble 14400000 := by
  exact_mod_cast isDouble_natCast (show 14400000 ≤ 2 ^ 53 by norm_num)

/-- With the base and the cap of the defaults, after the first attempt; and for an error without
a message. -/
theorem delay_survives_at_defaults :
    Survives (some 1) ⟨.finite 30000, .finite 14400000, 8⟩ (1 / 2) ∧
      backoffStrategy (some (.other [])) = .finite 30000 := by
  obtain ⟨hsurvives, hother⟩ := @delay_survives_iff 1 (.finite 30000) 14400000 8 (1 / 2) []
    isDouble_14400000 (by norm_num) ⟨by norm_num, by norm_num⟩
  refine ⟨hsurvives.2 ⟨by simp, by simp⟩, hother fun ds h => ?_⟩
  have hlen := congrArg List.length h
  simp [ascii] at hlen

/-- **A delay may not survive**: for the base 0, after attempt 1025 it is `NaN`, and from the
message the default is taken. -/
theorem delay_lost_at_base_zero :
    ¬ ∀ (failedAttemptNo : ℤ) (baseMs : JsNumber) (capMs : ℚ) (maxAttempts : ℕ) (random : ℚ),
      IsDouble capMs → 0 ≤ capMs → capMs < 10 ^ 21 → 0 ≤ random ∧ random < 1 →
        Survives (some failedAttemptNo) ⟨baseMs, .finite capMs, maxAttempts⟩ random := by
  intro h
  obtain ⟨-, hwrapped⟩ := h 1025 (.finite 0) 14400000 2000 (1 / 2) isDouble_14400000 (by norm_num)
    (by norm_num) ⟨by norm_num, by norm_num⟩
  have hnan : (JsNumber.finite 0).mul toDouble (toDouble (2 ^ ((1025 : ℤ) - 1).toNat)) = .nan :=
    (mul_two_pow_eq_nan_iff _ _).2 (Or.inr ⟨rfl, by norm_num⟩)
  unfold afterFailure at hwrapped
  simp only [Option.getD_some, WorkerError.message, jitter_nan hnan,
    backoffStrategy_nan] at hwrapped
  cases hwrapped

end Backoff

end HookRelay
