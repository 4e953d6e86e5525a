import HookRelay.Data.Json

/-!
# Columns of text

A JavaScript string goes to the database as UTF-8, so its UTF-16 code units have to be
decoded first; a surrogate without its partner has no UTF-8 form.  A `VARCHAR(n)` column
takes at most `n` characters and refuses `U+0000`.

* `decodeUnits` — the characters of a string, if every surrogate has its partner;
  `decodeUnits_codeUnits` — it undoes `codeUnits`.
* `acceptsVarchar` — what the column accepts.
* `acceptsVarchar_take_iff` — when the first `n` code units of a string are accepted: none
  of them is `U+0000`, no surrogate among them has no partner, and the cut does not fall
  inside a surrogate pair.
* `not_unpairedAt_codeUnits` — a text of characters has no unpaired surrogate.
-/

namespace HookRelay

/-- The character of a surrogate pair. -/
def pairChar (u v : UInt16) : Char :=
  Char.ofNat (0x10000 + (u.toNat - 0xD800) * 0x400 + (v.toNat - 0xDC00))

/-- The characters of a string; `none` if it has an unpaired surrogate. -/
def decodeUnits : CodeUnits → Option Text
  | [] => some []
  | [u] =>
      if isHighSurrogate u || isLowSurrogate u then none else some [Char.ofNat u.toNat]
  | u :: v :: us =>
      if isHighSurrogate u then
        if isLowSurrogate v then (decodeUnits us).map (pairChar u v :: ·) else none
      else if isLowSurrogate u then none
      else (decodeUnits (v :: us)).map (Char.ofNat u.toNat :: ·)

/-- `U+0000`. -/
def nul : Char := Char.ofNat 0

/-- What a `VARCHAR(limit)` column accepts. -/
def acceptsVarchar (limit : ℕ) (u : CodeUnits) : Bool :=
  (decodeUnits u).any fun t => t.length ≤ limit && nul ∉ t

/-- The character has one code unit. -/
def isSingle (c : Char) : Bool := c.toNat < 0x10000

/-! ## Decoding what was encoded -/

theorem not_surrogate (c : Char) : c.toNat < 0xD800 ∨ 0xE000 ≤ c.toNat ∧ c.toNat < 0x110000 := by
  have := c.valid
  simp only [UInt32.isValidChar, Nat.isValidChar] at this
  show c.val.toNat < 0xD800 ∨ 0xE000 ≤ c.val.toNat ∧ c.val.toNat < 0x110000
  omega

theorem charCodeUnits_single {c : Char} (h : isSingle c = true) :
    charCodeUnits c = [UInt16.ofNat c.toNat] := by
  rw [charCodeUnits, if_pos (by simpa [isSingle] using h)]

theorem toNat_single {c : Char} (h : isSingle c = true) : (UInt16.ofNat c.toNat).toNat = c.toNat := by
  have : c.toNat < 0x10000 := by simpa [isSingle] using h
  simp only [UInt16.toNat_ofNat']
  omega

theorem single_not_surrogate {c : Char} (h : isSingle c = true) :
    isHighSurrogate (UInt16.ofNat c.toNat) = false ∧
    isLowSurrogate (UInt16.ofNat c.toNat) = false := by
  unfold isHighSurrogate isLowSurrogate
  rw [toNat_single h]
  have := not_surrogate c
  constructor <;> (rw [Bool.and_eq_false_iff]; simp only [decide_eq_false_iff_not]; omega)

/-- A character of two code units is a surrogate pair. -/
theorem charCodeUnits_pair {c : Char} (h : isSingle c = false) : ∃ u v,
    charCodeUnits c = [u, v] ∧ isHighSurrogate u = true ∧ isLowSurrogate v = true ∧
    pairChar u v = c := by
  have hge : 0x10000 ≤ c.toNat := by simpa [isSingle] using h
  have hlt : c.toNat < 0x110000 := by
    have := not_surrogate c
    omega
  refine ⟨UInt16.ofNat (0xD800 + (c.toNat - 0x10000) / 0x400),
    UInt16.ofNat (0xDC00 + (c.toNat - 0x10000) % 0x400), by rw [charCodeUnits, if_neg (by omega)],
    ?_, ?_, ?_⟩
  · simp only [isHighSurrogate, UInt16.toNat_ofNat', Bool.and_eq_true, decide_eq_true_eq]
    omega
  · simp only [isLowSurrogate, UInt16.toNat_ofNat', Bool.and_eq_true, decide_eq_true_eq]
    omega
  · have hval : 0x10000 + ((0xD800 + (c.toNat - 0x10000) / 0x400) % 2 ^ 16 - 0xD800) * 0x400 +
        ((0xDC00 + (c.toNat - 0x10000) % 0x400) % 2 ^ 16 - 0xDC00) = c.toNat := by omega
    simp only [pairChar, UInt16.toNat_ofNat']
    rw [hval, Char.ofNat_toNat]

theorem decodeUnits_single {c : Char} (h : isSingle c = true) (us : CodeUnits) :
    decodeUnits (charCodeUnits c ++ us) = (decodeUnits us).map (c :: ·) := by
  obtain ⟨hhigh, hlow⟩ := single_not_surrogate h
  have hchar : Char.ofNat (UInt16.ofNat c.toNat).toNat = c := by
    rw [toNat_single h, Char.ofNat_toNat]
  rw [charCodeUnits_single h]
  cases us with
  | nil =>
      show decodeUnits [UInt16.ofNat c.toNat] = _
      simp only [decodeUnits, hhigh, hlow, hchar, Bool.or_self, Bool.false_eq_true, if_false,
        Option.map_some]
  | cons v us =>
      show decodeUnits (UInt16.ofNat c.toNat :: v :: us) = _
      simp only [decodeUnits, hhigh, hlow, hchar, Bool.false_eq_true, if_false]

theorem decodeUnits_pair {c : Char} (h : isSingle c = false) (us : CodeUnits) :
    decodeUnits (charCodeUnits c ++ us) = (decodeUnits us).map (c :: ·) := by
  obtain ⟨u, v, hc, hhigh, hlow, hpair⟩ := charCodeUnits_pair h
  rw [hc]
  simp [decodeUnits, hhigh, hlow, hpair]

theorem decodeUnits_char (c : Char) (us : CodeUnits) :
    decodeUnits (charCodeUnits c ++ us) = (decodeUnits us).map (c :: ·) := by
  cases h : isSingle c with
  | true => exact decodeUnits_single h us
  | false => exact decodeUnits_pair h us

/-- Decoding undoes encoding. -/
theorem decodeUnits_codeUnits (t : Text) : decodeUnits (codeUnits t) = some t := by
  induction t with
  | nil => rfl
  | cons c t ih =>
      show decodeUnits (charCodeUnits c ++ codeUnits t) = _
      rw [decodeUnits_char, ih]
      rfl

/-! ## Unpaired surrogates -/

/-- The unit at `i` is the first half of a surrogate pair. -/
def highAt (u : CodeUnits) (i : ℕ) : Bool := u[i]?.any isHighSurrogate

/-- The unit at `i` is the second half of a surrogate pair. -/
def lowAt (u : CodeUnits) (i : ℕ) : Bool := u[i]?.any isLowSurrogate

/-- The surrogate at `i` has no partner next to it. -/
def UnpairedAt (u : CodeUnits) (i : ℕ) : Prop :=
  (highAt u i = true ∧ lowAt u (i + 1) = false) ∨
  (lowAt u i = true ∧ (i = 0 ∨ highAt u (i - 1) = false))

@[simp] theorem highAt_zero (a : UInt16) (u : CodeUnits) : highAt (a :: u) 0 = isHighSurrogate a := by
  simp [highAt]

@[simp] theorem lowAt_zero (a : UInt16) (u : CodeUnits) : lowAt (a :: u) 0 = isLowSurrogate a := by
  simp [lowAt]

@[simp] theorem highAt_succ (a : UInt16) (u : CodeUnits) (i : ℕ) :
    highAt (a :: u) (i + 1) = highAt u i := by
  simp [highAt]

@[simp] theorem lowAt_succ (a : UInt16) (u : CodeUnits) (i : ℕ) :
    lowAt (a :: u) (i + 1) = lowAt u i := by
  simp [lowAt]

theorem not_low_of_high {u : UInt16} (h : isHighSurrogate u = true) : isLowSurrogate u = false := by
  simp only [isHighSurrogate, isLowSurrogate, Bool.and_eq_true, decide_eq_true_eq,
    Bool.and_eq_false_iff, decide_eq_false_iff_not] at h ⊢
  omega

/-- A unit in front that is no first half leaves the pairing of the rest as it is. -/
theorem unpairedAt_succ {a : UInt16} {u : CodeUnits} (ha : isHighSurrogate a = false) (i : ℕ) :
    UnpairedAt (a :: u) (i + 1) ↔ UnpairedAt u i := by
  cases i with
  | zero => simp [UnpairedAt, ha]
  | succ i => simp [UnpairedAt]

/-- A unit in front that is no surrogate is not unpaired. -/
theorem forall_unpairedAt_cons {a : UInt16} {u : CodeUnits} (ha : isHighSurrogate a = false)
    (hl : isLowSurrogate a = false) :
    (∀ i, ¬ UnpairedAt (a :: u) i) ↔ ∀ i, ¬ UnpairedAt u i := by
  refine ⟨fun h i hi => h (i + 1) ((unpairedAt_succ ha i).2 hi), fun h i hi => ?_⟩
  cases i with
  | zero => simp [UnpairedAt, ha, hl] at hi
  | succ i => exact h i ((unpairedAt_succ ha i).1 hi)

/-- A pair in front leaves the pairing of the rest as it is. -/
theorem forall_unpairedAt_pair {a b : UInt16} {u : CodeUnits} (ha : isHighSurrogate a = true)
    (hb : isLowSurrogate b = true) :
    (∀ i, ¬ UnpairedAt (a :: b :: u) i) ↔ ∀ i, ¬ UnpairedAt u i := by
  have hb' : isHighSurrogate b = false := by
    cases h : isHighSurrogate b with
    | false => rfl
    | true => rw [not_low_of_high h] at hb; cases hb
  have hshift : ∀ i, UnpairedAt (a :: b :: u) (i + 2) ↔ UnpairedAt u i := by
    intro i
    cases i with
    | zero => simp [UnpairedAt, hb']
    | succ i => simp [UnpairedAt]
  refine ⟨fun h i hi => h (i + 2) ((hshift i).2 hi), fun h i hi => ?_⟩
  match i with
  | 0 => simp [UnpairedAt, hb, not_low_of_high ha] at hi
  | 1 => simp [UnpairedAt, hb', ha] at hi
  | i + 2 => exact h i ((hshift i).1 hi)

/-- A string can be decoded exactly if every surrogate has its partner. -/
theorem isSome_decodeUnits (u : CodeUnits) :
    (decodeUnits u).isSome = true ↔ ∀ i, ¬ UnpairedAt u i := by
  fun_induction decodeUnits u with
  | case1 => simp [UnpairedAt, highAt, lowAt]
  | case2 u h =>
      refine iff_of_false (by simp) fun hall => hall 0 ?_
      rcases Bool.or_eq_true_iff.1 h with h | h
      · exact .inl ⟨by simpa using h, by simp [lowAt]⟩
      · exact .inr ⟨by simpa using h, .inl rfl⟩
  | case3 u h =>
      rw [Bool.or_eq_true, not_or, Bool.not_eq_true, Bool.not_eq_true] at h
      rw [forall_unpairedAt_cons h.1 h.2]
      simp [UnpairedAt, highAt, lowAt]
  | case4 u v us hu hv ih =>
      rw [forall_unpairedAt_pair hu hv, ← ih]
      simp
  | case5 u v us hu hv =>
      refine iff_of_false (by simp) fun hall => hall 0 (.inl ⟨by simpa using hu, ?_⟩)
      simpa using hv
  | case6 u v us hu hl =>
      exact iff_of_false (by simp) fun hall => hall 0 (.inr ⟨by simpa using hl, .inl rfl⟩)
  | case7 u v us hu hl ih =>
      rw [forall_unpairedAt_cons (by simpa using hu) (by simpa using hl), ← ih]
      simp

/-- The text of characters has no unpaired surrogate. -/
theorem not_unpairedAt_codeUnits (t : Text) (i : ℕ) : ¬ UnpairedAt (codeUnits t) i :=
  (isSome_decodeUnits _).1 (by rw [decodeUnits_codeUnits]; rfl) i

/-! ## Cutting a string -/

/-- The cut after `n` code units falls inside a surrogate pair. -/
def CutsPair (n : ℕ) (u : CodeUnits) : Prop :=
  0 < n ∧ highAt u (n - 1) = true ∧ lowAt u n = true

theorem highAt_take (u : CodeUnits) (n i : ℕ) :
    highAt (u.take n) i = (decide (i < n) && highAt u i) := by
  by_cases h : i < n <;> simp [highAt, h]

theorem lowAt_take (u : CodeUnits) (n i : ℕ) :
    lowAt (u.take n) i = (decide (i < n) && lowAt u i) := by
  by_cases h : i < n <;> simp [lowAt, h]

/-- What is unpaired in the head of a string was so before, or lost its partner to the cut. -/
theorem unpairedAt_take (u : CodeUnits) (n i : ℕ) :
    UnpairedAt (u.take n) i ↔ i < n ∧ (UnpairedAt u i ∨ i + 1 = n ∧ CutsPair n u) := by
  by_cases hi : i < n
  · have hpred : i - 1 < n := by omega
    by_cases hn : i + 1 < n
    · have : ¬ i + 1 = n := by omega
      simp [UnpairedAt, highAt_take, lowAt_take, hi, hn, hpred, this]
    · have hlast : n = i + 1 := by omega
      subst hlast
      simp only [UnpairedAt, highAt_take, lowAt_take, hi, hpred, lt_irrefl, decide_true,
        decide_false, Bool.true_and, Bool.false_and, and_true, true_and, CutsPair,
        Nat.add_sub_cancel, Nat.succ_pos]
      cases highAt u i <;> cases lowAt u (i + 1) <;> simp
  · refine iff_of_false ?_ fun h => hi h.1
    simp [UnpairedAt, highAt_take, lowAt_take, hi]

/-- When the head of a string can be decoded. -/
theorem isSome_decodeUnits_take (n : ℕ) (u : CodeUnits) :
    (decodeUnits (u.take n)).isSome = true ↔
      (∀ i < n, ¬ UnpairedAt u i) ∧ ¬ CutsPair n u := by
  rw [isSome_decodeUnits]
  constructor
  · refine fun h => ⟨fun i hi hu => h i ((unpairedAt_take u n i).2 ⟨hi, .inl hu⟩), fun hcut => ?_⟩
    have hpos := hcut.1
    exact h (n - 1) ((unpairedAt_take u n _).2 ⟨by omega, .inr ⟨by omega, hcut⟩⟩)
  · rintro ⟨hall, hcut⟩ i hi
    obtain ⟨hlt, hu | ⟨-, hc⟩⟩ := (unpairedAt_take u n i).1 hi
    · exact hall i hlt hu
    · exact hcut hc

/-! ## What the column accepts -/

theorem length_decodeUnits {u : CodeUnits} {t : Text} (h : decodeUnits u = some t) :
    t.length ≤ u.length := by
  fun_induction decodeUnits u generalizing t with
  | case1 => cases h; exact le_refl 0
  | case2 u hs => cases h
  | case3 u hs => cases h; exact le_refl 1
  | case4 u v us hu hv ih =>
      obtain ⟨t', ht', rfl⟩ := Option.map_eq_some_iff.1 h
      exact Nat.le_succ_of_le (Nat.succ_le_succ (ih ht'))
  | case5 u v us hu hv => cases h
  | case6 u v us hu hl => cases h
  | case7 u v us hu hl ih =>
      obtain ⟨t', ht', rfl⟩ := Option.map_eq_some_iff.1 h
      exact Nat.succ_le_succ (ih ht')

theorem toNat_ofNat_valid {n : ℕ} (h : n.isValidChar) : (Char.ofNat n).toNat = n := by
  rw [Char.ofNat, dif_pos h]
  rfl

theorem toNat_ofNat_unit {u : UInt16} (hh : isHighSurrogate u = false)
    (hl : isLowSurrogate u = false) : (Char.ofNat u.toNat).toNat = u.toNat := by
  have hlt := u.toNat_lt
  simp only [isHighSurrogate, isLowSurrogate, Bool.and_eq_false_iff, decide_eq_false_iff_not]
    at hh hl
  exact toNat_ofNat_valid (by simp only [Nat.isValidChar]; omega)

/-- The character of a unit is `U+0000` only for the unit 0. -/
theorem nul_eq_unit {u : UInt16} (hh : isHighSurrogate u = false)
    (hl : isLowSurrogate u = false) : nul = Char.ofNat u.toNat ↔ 0 = u := by
  constructor
  · intro h
    have := congrArg Char.toNat h
    rw [toNat_ofNat_unit hh hl] at this
    exact UInt16.toNat_inj.1 this
  · rintro rfl
    rfl

theorem nul_ne_pair {u v : UInt16} (hu : isHighSurrogate u = true) (hv : isLowSurrogate v = true) :
    nul ≠ pairChar u v := by
  simp only [isHighSurrogate, isLowSurrogate, Bool.and_eq_true, decide_eq_true_eq] at hu hv
  intro h
  have := congrArg Char.toNat h
  rw [pairChar, toNat_ofNat_valid (by simp only [Nat.isValidChar]; omega)] at this
  have hnul : nul.toNat = 0 := rfl
  omega

theorem zero_ne_surrogate {u : UInt16}
    (h : isHighSurrogate u = true ∨ isLowSurrogate u = true) : 0 ≠ u := by
  rintro rfl
  revert h
  decide

/-- `U+0000` is the code unit 0. -/
theorem nul_mem_decodeUnits {u : CodeUnits} {t : Text} (h : decodeUnits u = some t) :
    nul ∈ t ↔ 0 ∈ u := by
  fun_induction decodeUnits u generalizing t with
  | case1 => cases h; simp
  | case2 u hs => cases h
  | case3 u hs =>
      cases h
      rw [Bool.or_eq_true, not_or, Bool.not_eq_true, Bool.not_eq_true] at hs
      rw [List.mem_singleton, List.mem_singleton, nul_eq_unit hs.1 hs.2]
  | case4 u v us hu hv ih =>
      obtain ⟨t', ht', rfl⟩ := Option.map_eq_some_iff.1 h
      have h1 := nul_ne_pair hu hv
      have h2 := zero_ne_surrogate (.inl hu)
      have h3 := zero_ne_surrogate (.inr hv)
      rw [List.mem_cons, List.mem_cons, List.mem_cons, ih ht']
      simp [h1, h2, h3]
  | case5 u v us hu hv => cases h
  | case6 u v us hu hl => cases h
  | case7 u v us hu hl ih =>
      obtain ⟨t', ht', rfl⟩ := Option.map_eq_some_iff.1 h
      rw [List.mem_cons, List.mem_cons, ih ht', nul_eq_unit (by simpa using hu) (by simpa using hl)]

/-- **When the column takes the head of a string.** -/
theorem acceptsVarchar_take_iff (n : ℕ) (u : CodeUnits) :
    acceptsVarchar n (u.take n) = true ↔
      0 ∉ u.take n ∧ (∀ i < n, ¬ UnpairedAt u i) ∧ ¬ CutsPair n u := by
  rw [← isSome_decodeUnits_take, acceptsVarchar, Option.any_eq_true, Option.isSome_iff_exists]
  constructor
  · rintro ⟨t, ht, hok⟩
    rw [Bool.and_eq_true, decide_eq_true_eq, decide_eq_true_eq, nul_mem_decodeUnits ht] at hok
    exact ⟨hok.2, t, ht⟩
  · rintro ⟨hnul, t, ht⟩
    refine ⟨t, ht, ?_⟩
    rw [Bool.and_eq_true, decide_eq_true_eq, decide_eq_true_eq, nul_mem_decodeUnits ht]
    exact ⟨(length_decodeUnits ht).trans (List.length_take_le n u), hnul⟩

end HookRelay
