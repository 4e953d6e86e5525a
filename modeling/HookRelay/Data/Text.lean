import Mathlib.Data.List.Sort
import HookRelay.Lib.Hex

/-!
# Texts and identifiers

A JavaScript string whose code units are looked at one by one is a list of UTF-16
code units (`CodeUnits`); identifiers, keys and URLs are lists of characters
(`Text`).  A UUID is a 128-bit number, and its text is the usual one: 32
lower-case hexadecimal digits in groups of 8, 4, 4, 4 and 12.

* `Uuid.text_injective`, `Uuid.length_text` — a UUID is determined by its text, and
  all texts have the same length.  Strings put together from a UUID and a suffix
  without any framing can be taken apart again because of that.
* `codeUnits`, `textLe`, `unitsLe` — the UTF-16 form of a text, and the order
  `Array.prototype.sort` uses when it is given no comparison.  It is a linear order.
-/

namespace HookRelay

open Lib

/-- A string, as its characters. -/
abbrev Text := List Char

/-- A string, as JavaScript's UTF-16 code units. -/
abbrev CodeUnits := List UInt16

/-- The UTF-16 code units of one character: one below `U+10000`, else a surrogate pair. -/
def charCodeUnits (c : Char) : CodeUnits :=
  if c.toNat < 0x10000 then [UInt16.ofNat c.toNat]
  else [UInt16.ofNat (0xD800 + (c.toNat - 0x10000) / 0x400),
    UInt16.ofNat (0xDC00 + (c.toNat - 0x10000) % 0x400)]

/-- The UTF-16 code units of a text. -/
def codeUnits (t : Text) : CodeUnits := t.flatMap charCodeUnits

/-- Lexicographic comparison of numbers. -/
def lexLe : List ℕ → List ℕ → Bool
  | [], _ => true
  | _ :: _, [] => false
  | a :: as, b :: bs => if a < b then true else if b < a then false else lexLe as bs

/-- The order of `Array.prototype.sort` on strings: by UTF-16 code units. -/
def textLe (a b : Text) : Bool :=
  lexLe ((codeUnits a).map UInt16.toNat) ((codeUnits b).map UInt16.toNat)

theorem lexLe_total (as bs : List ℕ) : lexLe as bs = true ∨ lexLe bs as = true := by
  induction as generalizing bs with
  | nil => exact .inl rfl
  | cons a as ih =>
      cases bs with
      | nil => exact .inr rfl
      | cons b bs =>
          rcases lt_trichotomy a b with h | rfl | h
          · exact .inl (by rw [lexLe, if_pos h])
          · simpa only [lexLe, lt_irrefl, if_false] using ih bs
          · exact .inr (by rw [lexLe, if_pos h])

/-- At a first number, one list is below another by it or by the rest. -/
theorem lexLe_cons {a b : ℕ} {as bs : List ℕ} :
    lexLe (a :: as) (b :: bs) = true ↔ a < b ∨ (a = b ∧ lexLe as bs = true) := by
  rw [lexLe]
  split_ifs with hab hba
  · simp [hab]
  · rw [false_iff]
    omega
  · have : a = b := by omega
    simp [this]

theorem lexLe_trans {as bs cs : List ℕ} (h : lexLe as bs = true) (h' : lexLe bs cs = true) :
    lexLe as cs = true := by
  induction as generalizing bs cs with
  | nil => rw [lexLe]
  | cons a as ih =>
      cases bs with
      | nil => exact absurd h Bool.false_ne_true
      | cons b bs =>
          cases cs with
          | nil => exact absurd h' Bool.false_ne_true
          | cons c cs =>
              rw [lexLe_cons] at h h' ⊢
              rcases h with hab | ⟨rfl, h⟩
              · left
                omega
              · exact h'.imp_right fun h' => ⟨h'.1, ih h h'.2⟩

theorem lexLe_antisymm {as bs : List ℕ} (h : lexLe as bs = true) (h' : lexLe bs as = true) :
    as = bs := by
  induction as generalizing bs with
  | nil =>
      cases bs with
      | nil => rfl
      | cons b bs => exact absurd h' Bool.false_ne_true
  | cons a as ih =>
      cases bs with
      | nil => exact absurd h Bool.false_ne_true
      | cons b bs =>
          rw [lexLe_cons] at h h'
          obtain ⟨rfl, hle⟩ : a = b ∧ lexLe as bs = true := by
            rcases h with hab | h
            · omega
            · exact h
          rcases h' with haa | ⟨-, hge⟩
          · exact absurd haa (lt_irrefl a)
          · rw [ih hle hge]

/-- The order of `Array.prototype.sort` on strings, as code units. -/
def unitsLe (a b : CodeUnits) : Prop := lexLe (a.map UInt16.toNat) (b.map UInt16.toNat) = true

instance : DecidableRel unitsLe := fun _ _ => inferInstanceAs (Decidable (_ = true))

instance : Std.Total unitsLe := ⟨fun _ _ => lexLe_total _ _⟩

instance : IsTrans CodeUnits unitsLe := ⟨fun _ _ _ => lexLe_trans⟩

instance : Std.Antisymm unitsLe where
  antisymm _ _ h h' := (List.map_injective_iff.2 fun _ _ => UInt16.toNat_inj.1) (lexLe_antisymm h h')

/-- `strings.sort()`. -/
def sortTexts (ts : List Text) : List Text := ts.insertionSort fun a b => textLe a b = true

/-! ## UUIDs -/

/-- A UUID: 128 bits. -/
structure Uuid where
  val : Fin (2 ^ 128)
  deriving DecidableEq

namespace Uuid

/-- The UUID with a given value. -/
def ofNat (n : ℕ) : Uuid := ⟨Fin.ofNat (2 ^ 128) n⟩

/-- The 32 hexadecimal digits of a UUID. -/
def digits (u : Uuid) : Text := (hexDigits 32 u.val).map hexChar

/-- The text of a UUID: its digits in groups of 8, 4, 4, 4 and 12. -/
def text (u : Uuid) : Text :=
  u.digits.take 8 ++ '-' :: ((u.digits.drop 8).take 4 ++ '-' :: ((u.digits.drop 12).take 4 ++
    '-' :: ((u.digits.drop 16).take 4 ++ '-' :: u.digits.drop 20)))

theorem length_digits (u : Uuid) : u.digits.length = 32 := by simp [digits]

theorem dash_notMem_digits (u : Uuid) : '-' ∉ u.digits := by
  intro h
  obtain ⟨d, hd, hc⟩ := List.mem_map.1 h
  exact hexChar_ne_dash (lt_of_mem_hexDigits hd) hc

@[simp] theorem length_text (u : Uuid) : u.text.length = 36 := by
  simp [text, length_digits]

/-- Taking the dashes out of the text of a UUID leaves its digits. -/
theorem filter_text (u : Uuid) : u.text.filter (· ≠ '-') = u.digits := by
  have hall : ∀ l : Text, (∀ c ∈ l, c ∈ u.digits) → l.filter (· ≠ '-') = l := by
    intro l hl
    refine List.filter_eq_self.2 fun c hc => ?_
    have : c ≠ '-' := fun h => u.dash_notMem_digits (h ▸ hl c hc)
    simpa using this
  have htake : ∀ i j, ∀ c ∈ (u.digits.drop i).take j, c ∈ u.digits := fun i j c hc =>
    List.mem_of_mem_drop (List.mem_of_mem_take hc)
  simp only [text, List.filter_append, List.filter_cons, ne_eq, decide_not, decide_true,
    Bool.not_true, Bool.false_eq_true, if_false]
  simp only [ne_eq, decide_not] at hall
  rw [hall _ (fun c hc => List.mem_of_mem_take hc), hall _ (htake 8 4), hall _ (htake 12 4),
    hall _ (htake 16 4), hall _ (fun c hc => List.mem_of_mem_drop hc)]
  have h16 : (u.digits.drop 16).take 4 ++ u.digits.drop 20 = u.digits.drop 16 := by
    rw [show u.digits.drop 20 = (u.digits.drop 16).drop 4 by rw [List.drop_drop],
      List.take_append_drop]
  have h12 : (u.digits.drop 12).take 4 ++ u.digits.drop 16 = u.digits.drop 12 := by
    rw [show u.digits.drop 16 = (u.digits.drop 12).drop 4 by rw [List.drop_drop],
      List.take_append_drop]
  have h8 : (u.digits.drop 8).take 4 ++ u.digits.drop 12 = u.digits.drop 8 := by
    rw [show u.digits.drop 12 = (u.digits.drop 8).drop 4 by rw [List.drop_drop],
      List.take_append_drop]
  rw [h16, h12, h8, List.take_append_drop]

/-- A UUID is determined by its text. -/
theorem text_injective {u v : Uuid} (h : u.text = v.text) : u = v := by
  have hdig : u.digits = v.digits := by rw [← filter_text, ← filter_text, h]
  have hread : ∀ w : Uuid, w.digits.map hexVal = (hexDigits 32 w.val).map some := by
    intro w
    rw [digits, List.map_map]
    exact List.map_congr_left fun d hd => hexVal_hexChar (lt_of_mem_hexDigits hd)
  have hnum : hexDigits 32 u.val = hexDigits 32 v.val := by
    refine (Option.some_injective ℕ).list_map ?_
    rw [← hread, ← hread, hdig]
  have hlt : ∀ w : Uuid, (w.val : ℕ) < 16 ^ 32 := by
    intro w
    have := w.val.isLt
    norm_num at this ⊢
    exact this
  have hval : (u.val : ℕ) = v.val := hexDigits_injective (hlt u) (hlt v) hnum
  cases u; cases v
  exact congrArg _ (Fin.ext hval)

end Uuid

end HookRelay
