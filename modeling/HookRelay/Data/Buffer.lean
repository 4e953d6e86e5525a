import Mathlib.Data.List.TakeWhile
import HookRelay.Data.Varchar

/-!
# Bytes and texts

What `Buffer` does to strings: UTF-8 both ways, base64 and base64url.  Bytes are numbers
below 256.

* `encodeUtf8`, `decodeUtf8` — an unpaired surrogate is written as `U+FFFD`, and so is what
  is no UTF-8 when it is read.  `decodeUtf8_encodeUtf8_eq` is the round trip.
* `toBase64Url`, `toBase64` — without padding, and with it.
* `ofBase64`, `ofBase64Url` — reading looks at the low byte of each unit only, skips what is
  outside of both alphabets, and stops at a `=`.  `ofBase64Url_toBase64Url` and
  `ofBase64_toBase64` are the round trips.
-/

namespace HookRelay

/-! ## UTF-8 -/

/-- The bytes of a code point. -/
def utf8Bytes (n : ℕ) : List ℕ :=
  if n < 0x80 then [n]
  else if n < 0x800 then [0xC0 + n / 64, 0x80 + n % 64]
  else if n < 0x10000 then [0xE0 + n / 4096, 0x80 + n / 64 % 64, 0x80 + n % 64]
  else [0xF0 + n / 262144, 0x80 + n / 4096 % 64, 0x80 + n / 64 % 64, 0x80 + n % 64]

/-- The code point of a unit that is not part of a pair. -/
def singlePoint (u : UInt16) : ℕ :=
  if isHighSurrogate u || isLowSurrogate u then 0xFFFD else u.toNat

/-- `Buffer.from(s, 'utf8')`. -/
def encodeUtf8 : CodeUnits → List ℕ
  | [] => []
  | [u] => utf8Bytes (singlePoint u)
  | u :: v :: us =>
      if isHighSurrogate u && isLowSurrogate v then utf8Bytes (pairChar u v).toNat ++ encodeUtf8 us
      else utf8Bytes (singlePoint u) ++ encodeUtf8 (v :: us)

/-- What the decoder is in the middle of: the bytes still needed, the bounds of the next one,
and the code point so far. -/
structure Utf8State where
  need : ℕ
  lower : ℕ
  upper : ℕ
  point : ℕ

def Utf8State.idle : Utf8State := ⟨0, 0x80, 0xBF, 0⟩

/-- The first byte of a code point. -/
def firstByte (b : ℕ) : CodeUnits × Utf8State :=
  if b < 0x80 then ([UInt16.ofNat b], .idle)
  else if 0xC2 ≤ b ∧ b ≤ 0xDF then ([], ⟨1, 0x80, 0xBF, b % 32⟩)
  else if 0xE0 ≤ b ∧ b ≤ 0xEF then
    ([], ⟨2, if b = 0xE0 then 0xA0 else 0x80, if b = 0xED then 0x9F else 0xBF, b % 16⟩)
  else if 0xF0 ≤ b ∧ b ≤ 0xF4 then
    ([], ⟨3, if b = 0xF0 then 0x90 else 0x80, if b = 0xF4 then 0x8F else 0xBF, b % 8⟩)
  else ([0xFFFD], .idle)

/-- One byte: the units it completes, and the state after it. -/
def utf8Step (s : Utf8State) (b : ℕ) : CodeUnits × Utf8State :=
  if s.need = 0 then firstByte b
  else if s.lower ≤ b ∧ b ≤ s.upper then
    let point := s.point * 64 + b % 64
    if s.need = 1 then (charCodeUnits (Char.ofNat point), .idle)
    else ([], ⟨s.need - 1, 0x80, 0xBF, point⟩)
  else (0xFFFD :: (firstByte b).1, (firstByte b).2)

def decodeUtf8From (s : Utf8State) : List ℕ → CodeUnits
  | [] => if s.need = 0 then [] else [0xFFFD]
  | b :: bs => (utf8Step s b).1 ++ decodeUtf8From (utf8Step s b).2 bs

/-- `buffer.toString('utf8')`. -/
def decodeUtf8 (bytes : List ℕ) : CodeUnits := decodeUtf8From .idle bytes

/-- `s.toWellFormed()`: each unpaired surrogate replaced by `U+FFFD`. -/
def toWellFormed : CodeUnits → CodeUnits
  | [] => []
  | [u] => [if isHighSurrogate u || isLowSurrogate u then 0xFFFD else u]
  | u :: v :: us =>
      if isHighSurrogate u && isLowSurrogate v then u :: v :: toWellFormed us
      else (if isHighSurrogate u || isLowSurrogate u then 0xFFFD else u) :: toWellFormed (v :: us)

/-! ## base64 -/

/-- The digits of base64url. -/
def sextetChar (n : ℕ) : Char :=
  if n < 26 then Char.ofNat (65 + n)
  else if n < 52 then Char.ofNat (71 + n)
  else if n < 62 then Char.ofNat (n - 4)
  else if n = 62 then '-' else '_'

/-- The value of a digit of base64 or base64url. -/
def charSextet (c : Char) : Option ℕ :=
  if 'A' ≤ c ∧ c ≤ 'Z' then some (c.toNat - 65)
  else if 'a' ≤ c ∧ c ≤ 'z' then some (c.toNat - 71)
  else if '0' ≤ c ∧ c ≤ '9' then some (c.toNat + 4)
  else if c = '-' ∨ c = '+' then some 62
  else if c = '_' ∨ c = '/' then some 63
  else none

/-- Three bytes are four digits of six bits. -/
def toSextets : List ℕ → List ℕ
  | a :: b :: c :: rest =>
      a / 4 :: (a % 4 * 16 + b / 16) :: (b % 16 * 4 + c / 64) :: c % 64 :: toSextets rest
  | [a, b] => [a / 4, a % 4 * 16 + b / 16, b % 16 * 4]
  | [a] => [a / 4, a % 4 * 16]
  | [] => []

def ofSextets : List ℕ → List ℕ
  | w :: x :: y :: z :: rest =>
      (w * 4 + x / 16) :: (x % 16 * 16 + y / 4) :: (y % 4 * 64 + z) :: ofSextets rest
  | [w, x, y] => [w * 4 + x / 16, x % 16 * 16 + y / 4]
  | [w, x] => [w * 4 + x / 16]
  | _ => []

/-- `buffer.toString('base64url')`. -/
def toBase64Url (bytes : List ℕ) : Text := (toSextets bytes).map sextetChar

/-- What is looked at of a unit. -/
def lowByte (u : UInt16) : Char := Char.ofNat (u.toNat % 256)

/-- `Buffer.from(raw, 'base64')`, and the same for `'base64url'`, on the units of a string. -/
def ofBase64 (raw : CodeUnits) : List ℕ :=
  ofSextets (((raw.map lowByte).takeWhile fun c => c ≠ '=').filterMap charSextet)

/-- `Buffer.from(raw, 'base64url')`. -/
def ofBase64Url (raw : Text) : List ℕ := ofBase64 (codeUnits raw)

/-- The digits of base64. -/
def base64Char (n : ℕ) : Char :=
  if n = 62 then '+' else if n = 63 then '/' else sextetChar n

/-- `buffer.toString('base64')`. -/
def toBase64 (bytes : List ℕ) : Text :=
  (toSextets bytes).map base64Char ++ List.replicate ((3 - bytes.length % 3) % 3) '='

/-! ## Round trips -/

theorem ofSextets_toSextets {bytes : List ℕ} (h : ∀ b ∈ bytes, b < 256) :
    ofSextets (toSextets bytes) = bytes := by
  fun_induction toSextets bytes with
  | case1 a b c rest ih =>
      have hb : b < 256 := h b (by simp)
      have hc : c < 256 := h c (by simp)
      rw [ofSextets, ih fun x hx => h x (by simp [hx])]
      congr 1
      · omega
      congr 1
      · omega
      congr 1
      omega
  | case2 a b =>
      have hb : b < 256 := h b (by simp)
      rw [ofSextets]
      congr 1
      · omega
      congr 1
      omega
  | case3 a =>
      rw [ofSextets]
      congr 1
      omega
  | case4 => rfl

theorem lt_of_mem_toSextets {bytes : List ℕ} (h : ∀ b ∈ bytes, b < 256) {n : ℕ}
    (hn : n ∈ toSextets bytes) : n < 64 := by
  fun_induction toSextets bytes with
  | case1 a b c rest ih =>
      have ha : a < 256 := h a (by simp)
      have hb : b < 256 := h b (by simp)
      have hc : c < 256 := h c (by simp)
      simp only [List.mem_cons] at hn
      rcases hn with rfl | rfl | rfl | rfl | hn
      · omega
      · omega
      · omega
      · omega
      · exact ih (fun x hx => h x (by simp [hx])) hn
  | case2 a b =>
      have ha : a < 256 := h a (by simp)
      have hb : b < 256 := h b (by simp)
      simp only [List.mem_cons, List.not_mem_nil, or_false] at hn
      omega
  | case3 a =>
      have ha : a < 256 := h a (by simp)
      simp only [List.mem_cons, List.not_mem_nil, or_false] at hn
      omega
  | case4 => simp at hn

/-- The characters that an encoding writes for the numbers below 64 are read back. -/
structure IsDigit (digit : ℕ → Char) : Prop where
  sextet : ∀ n < 64, charSextet (digit n) = some n
  ascii : ∀ n < 64, (digit n).toNat < 0x80
  no_pad : ∀ n < 64, digit n ≠ '='

theorem isDigit_sextetChar : IsDigit sextetChar := ⟨by decide, by decide, by decide⟩

theorem isDigit_base64Char : IsDigit base64Char := ⟨by decide, by decide, by decide⟩

theorem map_lowByte {t : Text} (h : ∀ c ∈ t, c.toNat < 0x80) : (codeUnits t).map lowByte = t := by
  induction t with
  | nil => rfl
  | cons c t ih =>
      have hc : c.toNat < 0x80 := h c (by simp)
      have hsingle : isSingle c = true := decide_eq_true (by omega)
      rw [codeUnits, List.flatMap_cons, List.map_append, charCodeUnits_single hsingle]
      show lowByte (UInt16.ofNat c.toNat) :: (codeUnits t).map lowByte = c :: t
      rw [lowByte, toNat_single hsingle, Nat.mod_eq_of_lt (by omega), Char.ofNat_toNat,
        ih fun d hd => h d (by simp [hd])]

/-- Digits are read back. -/
theorem filterMap_charSextet {digit : ℕ → Char} (hdigit : IsDigit digit) {ns : List ℕ}
    (hns : ∀ n ∈ ns, n < 64) : (ns.map digit).filterMap charSextet = ns := by
  induction ns with
  | nil => rfl
  | cons n ns ih =>
      rw [List.map_cons, List.filterMap_cons, hdigit.sextet n (hns n (by simp)),
        ih fun m hm => hns m (by simp [hm])]

/-- **Bytes are read back**, whichever alphabet they are written in, and with any padding. -/
theorem ofBase64_written {digit : ℕ → Char} (hdigit : IsDigit digit) {bytes : List ℕ}
    (h : ∀ b ∈ bytes, b < 256) (k : ℕ) :
    ofBase64 (codeUnits ((toSextets bytes).map digit ++ List.replicate k '=')) = bytes := by
  have hsextets : ∀ n ∈ toSextets bytes, n < 64 := fun n hn => lt_of_mem_toSextets h hn
  have hascii : ∀ c ∈ (toSextets bytes).map digit ++ List.replicate k '=', c.toNat < 0x80 := by
    intro c hc
    rcases List.mem_append.1 hc with hc | hc
    · obtain ⟨n, hn, rfl⟩ := List.mem_map.1 hc
      exact hdigit.ascii n (hsextets n hn)
    · rw [List.eq_of_mem_replicate hc]
      decide
  have hdigits : ∀ c ∈ (toSextets bytes).map digit, decide (c ≠ '=') = true := by
    intro c hc
    obtain ⟨n, hn, rfl⟩ := List.mem_map.1 hc
    exact decide_eq_true (hdigit.no_pad n (hsextets n hn))
  have hstop : (List.replicate k '=').takeWhile (fun c => c ≠ '=') = [] := by
    cases k with
    | zero => rfl
    | succ k => rw [List.replicate_succ, List.takeWhile_cons_of_neg (by simp)]
  rw [ofBase64, map_lowByte hascii, List.takeWhile_append_of_pos hdigits, hstop, List.append_nil,
    filterMap_charSextet hdigit hsextets, ofSextets_toSextets h]

/-- **base64url is read back.** -/
theorem ofBase64Url_toBase64Url {bytes : List ℕ} (h : ∀ b ∈ bytes, b < 256) :
    ofBase64Url (toBase64Url bytes) = bytes := by
  have hwritten := ofBase64_written isDigit_sextetChar h 0
  rwa [List.replicate_zero, List.append_nil] at hwritten

/-- **base64 is read back.** -/
theorem ofBase64_toBase64 {bytes : List ℕ} (h : ∀ b ∈ bytes, b < 256) :
    ofBase64 (codeUnits (toBase64 bytes)) = bytes := ofBase64_written isDigit_base64Char h _

/-- A character of base64 is one unit, and no `:`. -/
theorem toBase64_unit {bytes : List ℕ} (h : ∀ b ∈ bytes, b < 256) {c : Char}
    (hc : c ∈ toBase64 bytes) : isSingle c = true ∧ UInt16.ofNat c.toNat ≠ 0x3A := by
  have hdigit : ∀ n < 64, isSingle (base64Char n) = true ∧
      UInt16.ofNat (base64Char n).toNat ≠ 0x3A := by decide
  rcases List.mem_append.1 hc with hc | hc
  · obtain ⟨n, hn, rfl⟩ := List.mem_map.1 hc
    exact hdigit n (lt_of_mem_toSextets h hn)
  · rw [List.eq_of_mem_replicate hc]
    decide

/-- No `:` is written in base64. -/
theorem colon_notMem_toBase64 {bytes : List ℕ} (h : ∀ b ∈ bytes, b < 256) :
    0x3A ∉ codeUnits (toBase64 bytes) := by
  intro hmem
  obtain ⟨c, hc, hu⟩ := List.mem_flatMap.1 hmem
  obtain ⟨hsingle, hne⟩ := toBase64_unit h hc
  rw [charCodeUnits_single hsingle, List.mem_singleton] at hu
  exact hne hu.symm

/-- Only no bytes at all are written as the empty string. -/
theorem codeUnits_toBase64_ne_nil {bytes : List ℕ} (h : bytes ≠ []) :
    codeUnits (toBase64 bytes) ≠ [] := by
  have hsextets : toSextets bytes ≠ [] := by
    cases bytes with
    | nil => exact absurd rfl h
    | cons a rest =>
        rcases rest with - | ⟨b, - | ⟨c, rest⟩⟩ <;> simp [toSextets]
  obtain ⟨n, ns, hns⟩ := List.exists_cons_of_ne_nil hsextets
  rw [toBase64, hns, List.map_cons, List.cons_append, codeUnits, List.flatMap_cons]
  refine List.append_ne_nil_of_left_ne_nil ?_ _
  unfold charCodeUnits
  split_ifs <;> simp

/-- A string of ASCII characters. -/
def isAscii (s : CodeUnits) : Prop := ∀ u ∈ s, u.toNat < 0x80

theorem not_surrogate_of_ascii {u : UInt16} (h : u.toNat < 0x80) :
    isHighSurrogate u = false ∧ isLowSurrogate u = false := by
  simp only [isHighSurrogate, isLowSurrogate, Bool.and_eq_false_iff, decide_eq_false_iff_not]
  omega

theorem firstByte_two {a : ℕ} (h2 : 2 ≤ a) (h : a < 32) :
    firstByte (0xC0 + a) = ([], ⟨1, 0x80, 0xBF, a⟩) := by
  unfold firstByte
  rw [if_neg (by omega), if_pos (by omega)]
  simp only [Prod.mk.injEq, Utf8State.mk.injEq, true_and]
  omega

theorem firstByte_three {a : ℕ} (h : a < 16) :
    firstByte (0xE0 + a) =
      ([], ⟨2, if a = 0 then 0xA0 else 0x80, if a = 0xD then 0x9F else 0xBF, a⟩) := by
  unfold firstByte
  rw [if_neg (by omega), if_neg (by omega), if_pos (by omega)]
  have h0 : (0xE0 + a = 0xE0) = (a = 0) := propext (by omega)
  have hd : (0xE0 + a = 0xED) = (a = 0xD) := propext (by omega)
  have hm : (0xE0 + a) % 16 = a := by omega
  simp only [h0, hd, hm]

theorem firstByte_four {a : ℕ} (h : a < 5) :
    firstByte (0xF0 + a) =
      ([], ⟨3, if a = 0 then 0x90 else 0x80, if a = 4 then 0x8F else 0xBF, a⟩) := by
  unfold firstByte
  rw [if_neg (by omega), if_neg (by omega), if_neg (by omega), if_pos (by omega)]
  have h0 : (0xF0 + a = 0xF0) = (a = 0) := propext (by omega)
  have hd : (0xF0 + a = 0xF4) = (a = 4) := propext (by omega)
  have hm : (0xF0 + a) % 8 = a := by omega
  simp only [h0, hd, hm]

/-- A byte that continues a code point and is not the last of it. -/
theorem utf8Step_more {need lower upper point b : ℕ} (hneed : 1 < need)
    (hl : lower ≤ b) (hu : b ≤ upper) :
    utf8Step ⟨need, lower, upper, point⟩ b = ([], ⟨need - 1, 0x80, 0xBF, point * 64 + b % 64⟩) := by
  unfold utf8Step
  rw [if_neg (by simp only; omega), if_pos ⟨hl, hu⟩]
  simp only
  rw [if_neg (by omega)]

/-- The last byte of a code point. -/
theorem utf8Step_last {lower upper point b : ℕ} (hl : lower ≤ b) (hu : b ≤ upper) :
    utf8Step ⟨1, lower, upper, point⟩ b =
      (charCodeUnits (Char.ofNat (point * 64 + b % 64)), .idle) := by
  unfold utf8Step
  rw [if_neg (by simp), if_pos ⟨hl, hu⟩]
  rfl

/-- The bytes of a character are read as its code units. -/
theorem decodeUtf8From_char (c : Char) (bs : List ℕ) :
    decodeUtf8From .idle (utf8Bytes c.toNat ++ bs) =
      charCodeUnits c ++ decodeUtf8From .idle bs := by
  have hvalid := not_surrogate c
  obtain ⟨n, hn⟩ : ∃ n, n = c.toNat := ⟨_, rfl⟩
  have hc : Char.ofNat n = c := by rw [hn, Char.ofNat_toNat]
  rw [← hn] at hvalid ⊢
  have hidle : ∀ b, utf8Step .idle b = firstByte b := fun b => by simp [utf8Step, Utf8State.idle]
  unfold utf8Bytes
  split_ifs with h1 h2 h3
  · -- one byte
    have hunits : charCodeUnits c = [UInt16.ofNat n] := by
      rw [charCodeUnits, ← hn, if_pos (by omega)]
    rw [List.singleton_append, decodeUtf8From, hidle, firstByte, if_pos h1, hunits]
  · -- two bytes
    have hpoint : n / 64 * 64 + (0x80 + n % 64) % 64 = n := by omega
    show decodeUtf8From .idle ((0xC0 + n / 64) :: (0x80 + n % 64) :: bs) = _
    rw [decodeUtf8From, hidle, firstByte_two (by omega) (by omega), decodeUtf8From,
      utf8Step_last (by omega) (by omega), hpoint, hc]
    rfl
  · -- three bytes; the bounds of the second exclude surrogates
    have hpoint : (n / 4096 * 64 + (0x80 + n / 64 % 64) % 64) * 64 + (0x80 + n % 64) % 64 = n := by
      omega
    show decodeUtf8From .idle ((0xE0 + n / 4096) :: (0x80 + n / 64 % 64) :: (0x80 + n % 64) :: bs) = _
    rw [decodeUtf8From, hidle, firstByte_three (by omega), decodeUtf8From,
      utf8Step_more (by omega) (by split_ifs <;> omega) (by split_ifs <;> omega), decodeUtf8From,
      utf8Step_last (by omega) (by omega), hpoint, hc]
    rfl
  · -- four bytes
    have hpoint : ((n / 262144 * 64 + (0x80 + n / 4096 % 64) % 64) * 64 +
        (0x80 + n / 64 % 64) % 64) * 64 + (0x80 + n % 64) % 64 = n := by
      omega
    show decodeUtf8From .idle ((0xF0 + n / 262144) :: (0x80 + n / 4096 % 64) ::
      (0x80 + n / 64 % 64) :: (0x80 + n % 64) :: bs) = _
    rw [decodeUtf8From, hidle, firstByte_four (by omega), decodeUtf8From,
      utf8Step_more (by omega) (by split_ifs <;> omega) (by split_ifs <;> omega), decodeUtf8From,
      utf8Step_more (by omega) (by omega) (by omega), decodeUtf8From,
      utf8Step_last (by omega) (by omega), hpoint, hc]
    rfl

/-- A single unit comes back as itself, or as `U+FFFD`. -/
theorem decodeUtf8From_single (u : UInt16) (bs : List ℕ) :
    decodeUtf8From .idle (utf8Bytes (singlePoint u) ++ bs) =
      (if isHighSurrogate u || isLowSurrogate u then 0xFFFD else u) ::
        decodeUtf8From .idle bs := by
  unfold singlePoint
  by_cases h : (isHighSurrogate u || isLowSurrogate u) = true
  · rw [if_pos h, if_pos h]
    exact decodeUtf8From_char (Char.ofNat 0xFFFD) bs
  · rw [if_neg h, if_neg h]
    rw [Bool.or_eq_true, not_or, Bool.not_eq_true, Bool.not_eq_true] at h
    have hnat := toNat_ofNat_unit h.1 h.2
    have hunits : charCodeUnits (Char.ofNat u.toNat) = [u] := by
      rw [charCodeUnits, hnat, if_pos u.toNat_lt, UInt16.ofNat_toNat]
    have hchar := decodeUtf8From_char (Char.ofNat u.toNat) bs
    rw [hnat, hunits] at hchar
    exact hchar

theorem charCodeUnits_pairChar {u v : UInt16} (hu : isHighSurrogate u = true)
    (hv : isLowSurrogate v = true) : charCodeUnits (pairChar u v) = [u, v] := by
  have hul := u.toNat_lt
  have hvl := v.toNat_lt
  simp only [isHighSurrogate, isLowSurrogate, Bool.and_eq_true, decide_eq_true_eq] at hu hv
  have hnat : (pairChar u v).toNat =
      0x10000 + (u.toNat - 0xD800) * 0x400 + (v.toNat - 0xDC00) :=
    toNat_ofNat_valid (by simp only [Nat.isValidChar]; omega)
  rw [charCodeUnits, hnat, if_neg (by omega)]
  have h1 : 0xD800 + (0x10000 + (u.toNat - 0xD800) * 0x400 + (v.toNat - 0xDC00) - 0x10000) / 0x400 =
      u.toNat := by omega
  have h2 : 0xDC00 + (0x10000 + (u.toNat - 0xD800) * 0x400 + (v.toNat - 0xDC00) - 0x10000) % 0x400 =
      v.toNat := by omega
  rw [h1, h2, UInt16.ofNat_toNat, UInt16.ofNat_toNat]

/-- **UTF-8 is read back**, but for unpaired surrogates. -/
theorem decodeUtf8_encodeUtf8_eq (s : CodeUnits) : decodeUtf8 (encodeUtf8 s) = toWellFormed s := by
  unfold decodeUtf8
  fun_induction encodeUtf8 s with
  | case1 => rfl
  | case2 u =>
      have h := decodeUtf8From_single u []
      rw [List.append_nil] at h
      rw [h]
      rfl
  | case3 u v us h ih =>
      have hp := Bool.and_eq_true_iff.1 h
      rw [decodeUtf8From_char, ih, charCodeUnits_pairChar hp.1 hp.2, toWellFormed, if_pos h]
      rfl
  | case4 u v us h ih => rw [decodeUtf8From_single, ih, toWellFormed, if_neg h]

theorem replacement_ne {u : UInt16} (h : (isHighSurrogate u || isLowSurrogate u) = true) :
    (0xFFFD : UInt16) ≠ u := by
  rintro rfl
  exact absurd h (by decide)

/-- A string is well-formed when every surrogate has its partner. -/
theorem toWellFormed_eq_self_iff (s : CodeUnits) :
    toWellFormed s = s ↔ ∀ i, ¬ UnpairedAt s i := by
  rw [← isSome_decodeUnits]
  fun_induction toWellFormed s with
  | case1 => simp [decodeUnits]
  | case2 u =>
      by_cases h : (isHighSurrogate u || isLowSurrogate u) = true
      · simp [decodeUnits, h, replacement_ne h]
      · simp [decodeUnits, h]
  | case3 u v us h ih =>
      have hp := Bool.and_eq_true_iff.1 h
      simp [decodeUnits, hp.1, hp.2, ih]
  | case4 u v us h ih =>
      by_cases hs : (isHighSurrogate u || isLowSurrogate u) = true
      · have hnone : decodeUnits (u :: v :: us) = none := by
          rw [decodeUnits]
          by_cases hu : isHighSurrogate u = true
          · rw [if_pos hu, if_neg fun hv => h (by rw [hu, hv]; rfl)]
          · rw [if_neg hu, if_pos ((Bool.or_eq_true_iff.1 hs).resolve_left hu)]
        simp [hs, hnone, replacement_ne hs]
      · have hn := hs
        rw [Bool.or_eq_true, not_or] at hn
        have hsome : decodeUnits (u :: v :: us) =
            (decodeUnits (v :: us)).map (Char.ofNat u.toNat :: ·) := by
          rw [decodeUnits, if_neg hn.1, if_neg hn.2]
        rw [if_neg hs, hsome, Option.isSome_map, ← ih, List.cons.injEq]
        exact and_iff_right rfl

/-- **UTF-8 is read back**, for ASCII strings. -/
theorem decodeUtf8_encodeUtf8 {s : CodeUnits} (h : isAscii s) :
    decodeUtf8 (encodeUtf8 s) = s := by
  rw [decodeUtf8_encodeUtf8_eq, toWellFormed_eq_self_iff]
  have hhigh : ∀ i, highAt s i = false := by
    intro i
    rw [highAt, Option.any_eq_false_iff_get]
    intro hi
    exact (not_surrogate_of_ascii (h _ (List.mem_of_getElem? (Option.some_get hi).symm))).1
  have hlow : ∀ i, lowAt s i = false := by
    intro i
    rw [lowAt, Option.any_eq_false_iff_get]
    intro hi
    exact (not_surrogate_of_ascii (h _ (List.mem_of_getElem? (Option.some_get hi).symm))).2
  rintro i (⟨hi, -⟩ | ⟨hi, -⟩)
  · rw [hhigh] at hi; cases hi
  · rw [hlow] at hi; cases hi

theorem lt_of_mem_utf8Bytes {n : ℕ} (hn : n < 0x110000) {b : ℕ} (hb : b ∈ utf8Bytes n) :
    b < 256 := by
  unfold utf8Bytes at hb
  split_ifs at hb <;> simp only [List.mem_cons, List.not_mem_nil, or_false] at hb <;> omega

theorem singlePoint_lt (u : UInt16) : singlePoint u < 0x110000 := by
  have := u.toNat_lt
  unfold singlePoint
  split_ifs <;> omega

theorem lt_of_mem_encodeUtf8 {s : CodeUnits} {b : ℕ} (hb : b ∈ encodeUtf8 s) : b < 256 := by
  have hchar : ∀ c : Char, c.toNat < 0x110000 := fun c => by
    have := not_surrogate c
    omega
  fun_induction encodeUtf8 s with
  | case1 => simp at hb
  | case2 u => exact lt_of_mem_utf8Bytes (singlePoint_lt u) hb
  | case3 u v us _ ih =>
      rcases List.mem_append.1 hb with hb | hb
      · exact lt_of_mem_utf8Bytes (hchar _) hb
      · exact ih hb
  | case4 u v us _ ih =>
      rcases List.mem_append.1 hb with hb | hb
      · exact lt_of_mem_utf8Bytes (singlePoint_lt u) hb
      · exact ih hb

theorem encodeUtf8_ne_nil {s : CodeUnits} (h : s ≠ []) : encodeUtf8 s ≠ [] := by
  have hbytes : ∀ n, utf8Bytes n ≠ [] := fun n => by
    unfold utf8Bytes
    split_ifs <;> simp
  fun_induction encodeUtf8 s with
  | case1 => exact absurd rfl h
  | case2 u => exact hbytes _
  | case3 u v us _ _ => exact List.append_ne_nil_of_left_ne_nil (hbytes _) _
  | case4 u v us _ _ => exact List.append_ne_nil_of_left_ne_nil (hbytes _) _

end HookRelay
