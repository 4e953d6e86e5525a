import HookRelay.Lib.Transition
import HookRelay.Data.Json

/-!
# Reading JSON texts

`JSON.parse` as a machine that reads one code unit at a time: a stack of the arrays and
objects that are still open, and what it is in the middle of.  A number is kept as its
text, and the fields of an object in the order of the text.

* `step`, `parse` — the machine, and a run of it over a whole text.
* `Scan`, `step_scan` — what the machine tells of the depth and of the quotes; a text that
  it accepts is balanced (`scan_of_parse`).
* `parse_after_dot` — no part of an object's text that follows a dot is a JSON text itself.
-/

namespace HookRelay

open Lib

namespace JsonText

/-! ## The units of the syntax -/

abbrev dquote : UInt16 := 0x22
abbrev backslash : UInt16 := 0x5C
abbrev comma : UInt16 := 0x2C
abbrev colon : UInt16 := 0x3A
abbrev lbracket : UInt16 := 0x5B
abbrev rbracket : UInt16 := 0x5D
abbrev lbrace : UInt16 := 0x7B
abbrev rbrace : UInt16 := 0x7D
abbrev dot : UInt16 := 0x2E

/-- The white space of JSON. -/
def isSpace (u : UInt16) : Bool := u = 0x20 || u = 0x09 || u = 0x0A || u = 0x0D

def isDigit (u : UInt16) : Bool := 0x30 ≤ u.toNat && u.toNat ≤ 0x39

/-- `e` or `E`. -/
def isExp (u : UInt16) : Bool := u = 0x65 || u = 0x45

/-! ## Numbers -/

/-- How far the text of a number has been read. -/
inductive NumPart where
  | start | minus | zero | int | point | frac | exp | expSign | expInt
  deriving DecidableEq

/-- The next unit of a number. -/
def NumPart.next (q : NumPart) (u : UInt16) : Option NumPart :=
  match q with
  | .start =>
      if u = 0x2D then some .minus else if u = 0x30 then some .zero
      else if isDigit u then some .int else none
  | .minus => if u = 0x30 then some .zero else if isDigit u then some .int else none
  | .zero => if u = dot then some .point else if isExp u then some .exp else none
  | .int =>
      if isDigit u then some .int else if u = dot then some .point
      else if isExp u then some .exp else none
  | .point => if isDigit u then some .frac else none
  | .frac => if isDigit u then some .frac else if isExp u then some .exp else none
  | .exp =>
      if isDigit u then some .expInt
      else if u = 0x2B || u = 0x2D then some .expSign else none
  | .expSign => if isDigit u then some .expInt else none
  | .expInt => if isDigit u then some .expInt else none

/-- The number may end here. -/
def NumPart.complete : NumPart → Bool
  | .zero | .int | .frac | .expInt => true
  | _ => false

/-- The text of a JSON number. -/
def isNumber (t : CodeUnits) : Bool := (run NumPart.next .start t).any NumPart.complete

/-! ## The machine -/

/-- A word of the syntax. -/
inductive Word where
  | true | false | null

def Word.text : Word → CodeUnits
  | .true => ascii "true"
  | .false => ascii "false"
  | .null => ascii "null"

def Word.value : Word → Json
  | .true => .bool Bool.true
  | .false => .bool Bool.false
  | .null => .null

/-- An array or an object that is open, with what was read of it, last first; the key is the
one whose value comes next. -/
inductive Frame where
  | arr (read : List Json)
  | obj (read : List (CodeUnits × Json)) (key : CodeUnits)

/-- What the machine is in the middle of. -/
inductive Mode where
  /-- A value must come. -/
  | value
  /-- A value or the end of the array. -/
  | firstValue
  /-- A key or the end of the object. -/
  | firstKey
  /-- A key must come. -/
  | key
  /-- The colon after a key. -/
  | colon
  /-- A value has been read. -/
  | done (v : Json)
  /-- Inside a string, with its units so far, last first. -/
  | str (isKey : Bool) (read : CodeUnits)
  /-- After a backslash. -/
  | esc (isKey : Bool) (read : CodeUnits)
  /-- Inside `\uXXXX`, with the digits still to come after the next one. -/
  | hex (isKey : Bool) (read : CodeUnits) (left acc : ℕ)
  | num (read : CodeUnits) (q : NumPart)
  /-- Inside a word, with the number of units read. -/
  | word (w : Word) (read : ℕ)

structure State where
  stack : List Frame
  mode : Mode

/-- The value of a hexadecimal digit. -/
def hexUnit (u : UInt16) : Option ℕ := hexVal (Char.ofNat u.toNat)

/-- What stands for what after a backslash. -/
def unescape (u : UInt16) : Option UInt16 :=
  if u = dquote || u = backslash || u = 0x2F then some u
  else if u = 0x62 then some 0x08
  else if u = 0x66 then some 0x0C
  else if u = 0x6E then some 0x0A
  else if u = 0x72 then some 0x0D
  else if u = 0x74 then some 0x09
  else none

/-- The first unit of a value. -/
def beginValue (stack : List Frame) (u : UInt16) : Option State :=
  if u = dquote then some ⟨stack, .str false []⟩
  else if u = lbracket then some ⟨.arr [] :: stack, .firstValue⟩
  else if u = lbrace then some ⟨.obj [] [] :: stack, .firstKey⟩
  else if u = 0x74 then some ⟨stack, .word .true 1⟩
  else if u = 0x66 then some ⟨stack, .word .false 1⟩
  else if u = 0x6E then some ⟨stack, .word .null 1⟩
  else (NumPart.start.next u).map fun q => ⟨stack, .num [u] q⟩

/-- A unit after a value. -/
def afterValue (stack : List Frame) (v : Json) (u : UInt16) : Option State :=
  if isSpace u then some ⟨stack, .done v⟩
  else
    match stack with
    | [] => none
    | .arr read :: rest =>
        if u = comma then some ⟨.arr (v :: read) :: rest, .value⟩
        else if u = rbracket then some ⟨rest, .done (.arr (v :: read).reverse)⟩
        else none
    | .obj read key :: rest =>
        if u = comma then some ⟨.obj ((key, v) :: read) [] :: rest, .key⟩
        else if u = rbrace then some ⟨rest, .done (.obj ((key, v) :: read).reverse)⟩
        else none

/-- The end of an array or an object that has nothing in it. -/
def closeEmpty (stack : List Frame) (v : Json) : Option State :=
  match stack with
  | [] => none
  | _ :: rest => some ⟨rest, .done v⟩

/-- The quote that ends a string. -/
def endString (stack : List Frame) (isKey : Bool) (s : CodeUnits) : Option State :=
  if isKey then
    match stack with
    | .obj read _ :: rest => some ⟨.obj read s :: rest, .colon⟩
    | _ => none
  else some ⟨stack, .done (.str s)⟩

/-- A unit inside a string. -/
def inString (stack : List Frame) (isKey : Bool) (read : CodeUnits) (u : UInt16) :
    Option State :=
  if u = dquote then endString stack isKey read.reverse
  else if u = backslash then some ⟨stack, .esc isKey read⟩
  else if u.toNat < 0x20 then none
  else some ⟨stack, .str isKey (u :: read)⟩

/-- A digit of `\uXXXX`. -/
def inHex (stack : List Frame) (isKey : Bool) (read : CodeUnits) (left acc : ℕ) (u : UInt16) :
    Option State :=
  match hexUnit u, left with
  | none, _ => none
  | some d, 0 => some ⟨stack, .str isKey (UInt16.ofNat (acc * 16 + d) :: read)⟩
  | some d, left + 1 => some ⟨stack, .hex isKey read left (acc * 16 + d)⟩

/-- A unit inside or after a number. -/
def inNumber (stack : List Frame) (read : CodeUnits) (q : NumPart) (u : UInt16) : Option State :=
  match q.next u with
  | some q' => some ⟨stack, .num (u :: read) q'⟩
  | none => if q.complete then afterValue stack (.num read.reverse) u else none

/-- A unit inside a word. -/
def inWord (stack : List Frame) (w : Word) (read : ℕ) (u : UInt16) : Option State :=
  if w.text[read]? = some u then
    some ⟨stack, if read + 1 = w.text.length then .done w.value else .word w (read + 1)⟩
  else none

/-- One code unit. -/
def step (s : State) (u : UInt16) : Option State :=
  match s.mode with
  | .value => if isSpace u then some s else beginValue s.stack u
  | .firstValue =>
      if isSpace u then some s
      else if u = rbracket then closeEmpty s.stack (.arr [])
      else beginValue s.stack u
  | .firstKey =>
      if isSpace u then some s
      else if u = dquote then some ⟨s.stack, .str true []⟩
      else if u = rbrace then closeEmpty s.stack (.obj [])
      else none
  | .key =>
      if isSpace u then some s else if u = dquote then some ⟨s.stack, .str true []⟩ else none
  | .colon =>
      if isSpace u then some s else if u = colon then some ⟨s.stack, .value⟩ else none
  | .done v => afterValue s.stack v u
  | .str isKey read => inString s.stack isKey read u
  | .esc isKey read =>
      if u = 0x75 then some ⟨s.stack, .hex isKey read 3 0⟩
      else (unescape u).map fun v => ⟨s.stack, .str isKey (v :: read)⟩
  | .hex isKey read left acc => inHex s.stack isKey read left acc u
  | .num read q => inNumber s.stack read q u
  | .word w read => inWord s.stack w read u

/-- What was read when the text ends. -/
def finish (s : State) : Option Json :=
  match s.stack, s.mode with
  | [], .done v => some v
  | [], .num read q => if q.complete then some (.num read.reverse) else none
  | _, _ => none

/-- `JSON.parse`; `none` when it throws. -/
def parse (t : CodeUnits) : Option Json := (run step ⟨[], .value⟩ t).bind finish

/-- The value of a field; of several with one name the last counts. -/
def field? (name : CodeUnits) : Json → Option Json
  | .obj fields => (fields.reverse.find? fun f => f.1 = name).map Prod.snd
  | _ => none

/-! ## Depth and quotes -/

/-- Where a unit of a text stands: outside of strings, inside one, or after a backslash. -/
inductive Quoted where
  | outside | inside | escaped
  deriving DecidableEq

/-- The number of arrays and objects that are open, and where the text is. -/
structure Scan where
  depth : ℕ
  quoted : Quoted
  deriving DecidableEq

/-- One code unit, for depth and quotes alone. -/
def scanStep (s : Scan) (u : UInt16) : Option Scan :=
  match s.quoted with
  | .outside =>
      if u = dquote then some ⟨s.depth, .inside⟩
      else if u = backslash then none
      else if u = lbracket || u = lbrace then some ⟨s.depth + 1, .outside⟩
      else if u = rbracket || u = rbrace then
        match s.depth with
        | 0 => none
        | d + 1 => some ⟨d, .outside⟩
      else some s
  | .inside =>
      if u = dquote then some ⟨s.depth, .outside⟩
      else if u = backslash then some ⟨s.depth, .escaped⟩
      else some s
  | .escaped => some ⟨s.depth, .inside⟩

/-- What a state of the machine tells of depth and quotes. -/
def Mode.quoted : Mode → Quoted
  | .str _ _ | .hex _ _ _ _ => .inside
  | .esc _ _ => .escaped
  | _ => .outside

def State.scan (s : State) : Scan := ⟨s.stack.length, s.mode.quoted⟩

/-- A unit that says nothing about depth and quotes. -/
def isPlain (u : UInt16) : Bool :=
  !(u = dquote || u = backslash || u = lbracket || u = lbrace || u = rbracket || u = rbrace)

theorem scanStep_plain {u : UInt16} (h : isPlain u = true) (d : ℕ) (q : Quoted)
    (hq : q ≠ .escaped) : scanStep ⟨d, q⟩ u = some ⟨d, q⟩ := by
  simp only [isPlain, Bool.not_eq_true', Bool.or_eq_false_iff, decide_eq_false_iff_not] at h
  obtain ⟨⟨⟨⟨⟨h1, h2⟩, h3⟩, h4⟩, h5⟩, h6⟩ := h
  cases q with
  | outside => simp [scanStep, h1, h2, h3, h4, h5, h6]
  | inside => simp [scanStep, h1, h2]
  | escaped => exact absurd rfl hq

theorem isPlain_of_isSpace {u : UInt16} (h : isSpace u = true) : isPlain u = true := by
  simp only [isSpace, Bool.or_eq_true, decide_eq_true_eq] at h
  rcases h with ((rfl | rfl) | rfl) | rfl <;> decide

theorem isPlain_of_isDigit {u : UInt16} (h : isDigit u = true) : isPlain u = true := by
  simp only [isDigit, Bool.and_eq_true, decide_eq_true_eq] at h
  simp only [isPlain, Bool.not_eq_true', Bool.or_eq_false_iff, decide_eq_false_iff_not]
  refine ⟨⟨⟨⟨⟨?_, ?_⟩, ?_⟩, ?_⟩, ?_⟩, ?_⟩ <;> rintro rfl <;> exact absurd h (by decide)

theorem isPlain_of_isExp {u : UInt16} (h : isExp u = true) : isPlain u = true := by
  simp only [isExp, Bool.or_eq_true, decide_eq_true_eq] at h
  rcases h with rfl | rfl <;> decide

/-- The units of a number. -/
theorem isPlain_of_next {q q' : NumPart} {u : UInt16} (h : q.next u = some q') :
    isPlain u = true := by
  cases q <;> simp only [NumPart.next] at h <;> split_ifs at h <;>
    first
    | (apply isPlain_of_isDigit; assumption)
    | (apply isPlain_of_isExp; assumption)
    | (subst u; decide)
    | (rename_i hu; rcases Bool.or_eq_true_iff.1 hu with hu | hu <;>
        (rw [decide_eq_true_eq] at hu; subst hu; decide))

theorem isPlain_of_hexUnit {u : UInt16} {d : ℕ} (h : hexUnit u = some d) : isPlain u = true := by
  have hsome : (hexUnit u).isSome = true := by rw [h]; rfl
  simp only [isPlain, Bool.not_eq_true', Bool.or_eq_false_iff, decide_eq_false_iff_not]
  refine ⟨⟨⟨⟨⟨?_, ?_⟩, ?_⟩, ?_⟩, ?_⟩, ?_⟩ <;> rintro rfl <;> exact absurd hsome (by decide)

theorem isPlain_of_word {w : Word} {i : ℕ} {u : UInt16} (h : w.text[i]? = some u) :
    isPlain u = true := by
  have hall : w.text.all isPlain = true := by cases w <;> decide
  exact List.all_eq_true.1 hall u (List.mem_of_getElem? h)

theorem beginValue_scan {stack : List Frame} {u : UInt16} {s : State}
    (h : beginValue stack u = some s) :
    scanStep ⟨stack.length, .outside⟩ u = some s.scan := by
  unfold beginValue at h
  split_ifs at h with h1 h2 h3 h4 h5 h6
  · cases h; subst h1; rfl
  · cases h; subst h2; rfl
  · cases h; subst h3; rfl
  · cases h; subst h4; rfl
  · cases h; subst h5; rfl
  · cases h; subst h6; rfl
  · obtain ⟨q, hq, rfl⟩ := Option.map_eq_some_iff.1 h
    exact scanStep_plain (isPlain_of_next hq) _ _ (by decide)

theorem afterValue_scan {stack : List Frame} {v : Json} {u : UInt16} {s : State}
    (h : afterValue stack v u = some s) :
    scanStep ⟨stack.length, .outside⟩ u = some s.scan := by
  unfold afterValue at h
  by_cases hspace : isSpace u = true
  · rw [if_pos hspace] at h
    cases h
    exact scanStep_plain (isPlain_of_isSpace hspace) _ _ (by decide)
  · rw [if_neg hspace] at h
    cases stack with
    | nil => cases h
    | cons f rest =>
        cases f with
        | arr read =>
            simp only at h
            split_ifs at h with h1 h2
            · cases h; subst h1; rfl
            · cases h; subst h2; rfl
        | obj read key =>
            simp only at h
            split_ifs at h with h1 h2
            · cases h; subst h1; rfl
            · cases h; subst h2; rfl

/-- **The machine and the scan agree.** -/
theorem step_scan (s : State) (u : UInt16) (t : State) (h : step s u = some t) :
    scanStep s.scan u = some t.scan := by
  obtain ⟨stack, mode⟩ := s
  have hout : isPlain u = true →
      scanStep ⟨stack.length, .outside⟩ u = some ⟨stack.length, .outside⟩ :=
    fun hu => scanStep_plain hu _ _ (by decide)
  have hin : isPlain u = true →
      scanStep ⟨stack.length, .inside⟩ u = some ⟨stack.length, .inside⟩ :=
    fun hu => scanStep_plain hu _ _ (by decide)
  have hclose : ∀ {v : Json}, u = rbracket ∨ u = rbrace → closeEmpty stack v = some t →
      scanStep ⟨stack.length, .outside⟩ u = some t.scan := by
    intro v hu hc
    cases stack with
    | nil => cases hc
    | cons f rest => cases hc; rcases hu with rfl | rfl <;> rfl
  cases mode with
  | value =>
      simp only [step] at h
      split_ifs at h with h1
      · cases h; exact hout (isPlain_of_isSpace h1)
      · exact beginValue_scan h
  | firstValue =>
      simp only [step] at h
      split_ifs at h with h1 h2
      · cases h; exact hout (isPlain_of_isSpace h1)
      · exact hclose (.inl h2) h
      · exact beginValue_scan h
  | firstKey =>
      simp only [step] at h
      split_ifs at h with h1 h2 h3
      · cases h; exact hout (isPlain_of_isSpace h1)
      · cases h; subst h2; rfl
      · exact hclose (.inr h3) h
  | key =>
      simp only [step] at h
      split_ifs at h with h1 h2
      · cases h; exact hout (isPlain_of_isSpace h1)
      · cases h; subst h2; rfl
  | colon =>
      simp only [step] at h
      split_ifs at h with h1 h2
      · cases h; exact hout (isPlain_of_isSpace h1)
      · cases h; subst h2; rfl
  | done v => exact afterValue_scan h
  | str isKey read =>
      simp only [step, inString] at h
      split_ifs at h with h1 h2 h3
      · subst h1
        cases isKey with
        | false => cases h; rfl
        | true =>
            simp only [endString, if_true] at h
            split at h
            · cases h; rfl
            · cases h
      · cases h; subst h2; rfl
      · cases h
        simp [State.scan, Mode.quoted, scanStep, h1, h2]
  | esc isKey read =>
      simp only [step] at h
      split_ifs at h with h1
      · cases h; rfl
      · obtain ⟨v, -, rfl⟩ := Option.map_eq_some_iff.1 h
        rfl
  | hex isKey read left acc =>
      simp only [step, inHex] at h
      split at h
      · cases h
      · rename_i hu; cases h; exact hin (isPlain_of_hexUnit hu)
      · rename_i hu; cases h; exact hin (isPlain_of_hexUnit hu)
  | num read q =>
      simp only [step, inNumber] at h
      split at h
      · rename_i q' hq; cases h; exact hout (isPlain_of_next hq)
      · split_ifs at h
        exact afterValue_scan h
  | word w read =>
      simp only [step, inWord] at h
      split_ifs at h with h1 h2
      · cases h; exact hout (isPlain_of_word h1)
      · cases h; exact hout (isPlain_of_word h1)

theorem scan_of_finish {s : State} {v : Json} (h : finish s = some v) :
    s.scan = ⟨0, .outside⟩ := by
  obtain ⟨stack, mode⟩ := s
  unfold finish at h
  split at h
  · rename_i h1 h2
    simp only at h1 h2
    rw [h1, h2]
    rfl
  · rename_i h1 h2
    simp only at h1 h2
    rw [h1, h2]
    rfl
  · cases h

/-- **A text that is accepted is balanced.** -/
theorem scan_of_parse {t : CodeUnits} {v : Json} (h : parse t = some v) :
    run scanStep ⟨0, .outside⟩ t = some ⟨0, .outside⟩ := by
  obtain ⟨s, hs, hfin⟩ := Option.bind_eq_some_iff.1 h
  have hscan := run_view step_scan hs
  rw [scan_of_finish hfin] at hscan
  exact hscan

/-! ## A text inside a text -/

/-- The same reading, with more open around it. -/
def Scan.deeper (e : ℕ) (s : Scan) : Scan := ⟨s.depth + e, s.quoted⟩

theorem scanStep_deeper (e : ℕ) (a : Scan) (u : UInt16) (b : Scan) (hstep : scanStep a u = some b) :
    scanStep (a.deeper e) u = some (b.deeper e) := by
  obtain ⟨d, q⟩ := a
  cases q with
  | inside =>
      simp only [scanStep, Scan.deeper] at hstep ⊢
      split_ifs at hstep ⊢ <;> cases hstep <;> rfl
  | escaped =>
      cases hstep
      rfl
  | outside =>
      simp only [scanStep, Scan.deeper] at hstep ⊢
      split_ifs at hstep ⊢ with h1 h2 h3 h4
      · cases hstep; rfl
      · cases hstep
        simp only [Nat.add_right_comm d 1 e]
      · cases d with
        | zero => cases hstep
        | succ d =>
            cases hstep
            simp only [Nat.add_right_comm d 1 e]
      · cases hstep; rfl

/-- What is balanced is so at any depth. -/
theorem scan_deeper {a b : Scan} {t : CodeUnits} (e : ℕ) (h : run scanStep a t = some b) :
    run scanStep (a.deeper e) t = some (b.deeper e) :=
  run_view (scanStep_deeper e) h

/-- One reading of a text is outside of strings where the other is inside. -/
def Opposite (a b : Scan) : Prop :=
  (a.quoted = .outside ∧ b.quoted = .inside) ∨ (a.quoted = .inside ∧ b.quoted = .outside)

theorem Opposite.symm {a b : Scan} (h : Opposite a b) : Opposite b a := by
  rcases h with ⟨h1, h2⟩ | ⟨h1, h2⟩
  · exact .inr ⟨h2, h1⟩
  · exact .inl ⟨h2, h1⟩

/-- A quote changes both readings, and a backslash is refused by the one outside. -/
theorem step_opposite_left {a a' b b' : Scan} {u : UInt16} (ha : a.quoted = .outside)
    (hb : b.quoted = .inside) (h1 : scanStep a u = some a') (h2 : scanStep b u = some b') :
    Opposite a' b' := by
  obtain ⟨d, q⟩ := a
  obtain ⟨e, r⟩ := b
  subst ha hb
  by_cases hq : u = dquote
  · subst hq
    cases h1
    cases h2
    exact .inr ⟨rfl, rfl⟩
  by_cases hbs : u = backslash
  · subst hbs
    cases h1
  have hin : b'.quoted = .inside := by
    simp only [scanStep, if_neg hq, if_neg hbs] at h2
    cases h2
    rfl
  have hout : a'.quoted = .outside := by
    simp only [scanStep, if_neg hq, if_neg hbs] at h1
    split_ifs at h1
    · cases h1; rfl
    · cases d with
      | zero => cases h1
      | succ d => cases h1; rfl
    · cases h1; rfl
  exact .inl ⟨hout, hin⟩

/-- **Two readings that start on opposite sides of a quote stay there.** -/
theorem run_opposite {a a' b b' : Scan} {t : CodeUnits} (h : Opposite a b)
    (h1 : run scanStep a t = some a') (h2 : run scanStep b t = some b') : Opposite a' b' := by
  induction t generalizing a b with
  | nil =>
      cases h1
      cases h2
      exact h
  | cons u t ih =>
      obtain ⟨c, hc, h1⟩ := Option.bind_eq_some_iff.1 h1
      obtain ⟨d, hd, h2⟩ := Option.bind_eq_some_iff.1 h2
      refine ih ?_ h1 h2
      rcases h with ⟨ha, hb⟩ | ⟨ha, hb⟩
      · exact step_opposite_left ha hb hc hd
      · exact (step_opposite_left hb ha hd hc).symm

/-- Something is open, or everything has been read. -/
def Opened (s : State) : Prop := s.stack ≠ [] ∨ ∃ v, s.mode = .done v

theorem afterValue_opened {stack : List Frame} {v : Json} {u : UInt16} {t : State}
    (h : afterValue stack v u = some t) : Opened t := by
  unfold afterValue at h
  by_cases hspace : isSpace u = true
  · rw [if_pos hspace] at h
    cases h
    exact .inr ⟨v, rfl⟩
  · rw [if_neg hspace] at h
    cases stack with
    | nil => cases h
    | cons f rest =>
        cases f with
        | arr read =>
            simp only at h
            split_ifs at h
            · cases h; exact .inl (by simp)
            · cases h; exact .inr ⟨_, rfl⟩
        | obj read key =>
            simp only at h
            split_ifs at h
            · cases h; exact .inl (by simp)
            · cases h; exact .inr ⟨_, rfl⟩

theorem beginValue_stack {stack : List Frame} {u : UInt16} {t : State} (hs : stack ≠ [])
    (h : beginValue stack u = some t) : t.stack ≠ [] := by
  unfold beginValue at h
  split_ifs at h
  · cases h; exact hs
  · cases h; simp
  · cases h; simp
  · cases h; exact hs
  · cases h; exact hs
  · cases h; exact hs
  · obtain ⟨q, -, rfl⟩ := Option.map_eq_some_iff.1 h
    exact hs

/-- What was opened stays open until it has been read. -/
theorem step_opened (s : State) (u : UInt16) (t : State) (hs : Opened s)
    (h : step s u = some t) : Opened t := by
  obtain ⟨stack, mode⟩ := s
  rcases hs with hs | ⟨v, hv⟩
  swap
  · simp only at hv
    subst hv
    exact afterValue_opened h
  have hs : stack ≠ [] := hs
  have hclose : ∀ {v : Json}, closeEmpty stack v = some t → Opened t := by
    intro v hc
    cases stack with
    | nil => cases hc
    | cons f rest => cases hc; exact .inr ⟨_, rfl⟩
  cases mode with
  | value =>
      simp only [step] at h
      split_ifs at h
      · cases h; exact .inl hs
      · exact .inl (beginValue_stack hs h)
  | firstValue =>
      simp only [step] at h
      split_ifs at h
      · cases h; exact .inl hs
      · exact hclose h
      · exact .inl (beginValue_stack hs h)
  | firstKey =>
      simp only [step] at h
      split_ifs at h
      · cases h; exact .inl hs
      · cases h; exact .inl hs
      · exact hclose h
  | key =>
      simp only [step] at h
      split_ifs at h <;> cases h <;> exact .inl hs
  | colon =>
      simp only [step] at h
      split_ifs at h <;> cases h <;> exact .inl hs
  | done v => exact afterValue_opened h
  | str isKey read =>
      simp only [step, inString] at h
      split_ifs at h
      · cases isKey with
        | false => cases h; exact .inl hs
        | true =>
            simp only [endString, if_true] at h
            split at h
            · cases h; exact .inl (by simp)
            · cases h
      · cases h; exact .inl hs
      · cases h; exact .inl hs
  | esc isKey read =>
      simp only [step] at h
      split_ifs at h
      · cases h; exact .inl hs
      · obtain ⟨v, -, rfl⟩ := Option.map_eq_some_iff.1 h
        exact .inl hs
  | hex isKey read left acc =>
      simp only [step, inHex] at h
      split at h <;> cases h <;> exact .inl hs
  | num read q =>
      simp only [step, inNumber] at h
      split at h
      · cases h; exact .inl hs
      · split_ifs at h
        exact afterValue_opened h
  | word w read =>
      simp only [step, inWord] at h
      split_ifs at h <;> cases h <;> exact .inl hs

/-- A dot stands inside a string or inside a number. -/
theorem step_dot {s t : State} (h : step s dot = some t) :
    t.mode.quoted = .inside ∨ ∃ read q, t.mode = .num read q := by
  obtain ⟨stack, mode⟩ := s
  have hafter : ∀ v, afterValue stack v dot = none := by
    intro v
    cases stack with
    | nil => rfl
    | cons f rest => cases f <;> rfl
  cases mode with
  | value => cases h
  | firstValue => cases h
  | firstKey => cases h
  | key => cases h
  | colon => cases h
  | done v =>
      have h : afterValue stack v dot = some t := h
      rw [hafter] at h
      cases h
  | str isKey read => cases h; exact .inl rfl
  | esc isKey read => cases h
  | hex isKey read left acc => cases h
  | num read q =>
      simp only [step, inNumber, hafter] at h
      split at h
      · cases h; exact .inr ⟨_, _, rfl⟩
      · split_ifs at h
  | word w read =>
      have hdot : w.text.contains dot = false := by cases w <;> decide
      have hne : w.text[read]? ≠ some dot := by
        intro h1
        rw [List.contains_iff_mem.2 (List.mem_of_getElem? h1)] at hdot
        cases hdot
      simp only [step, inWord, if_neg hne] at h
      cases h

/-- **What follows a dot in an object's text is no JSON text.**  A dot inside a string cuts the
string in two, and the rest reads strings where the whole has none; a dot inside a number
leaves the brace that ends the object without the one that opened it. -/
theorem parse_after_dot {t p b : CodeUnits} {v : Json} (ht : parse (lbrace :: t) = some v)
    (hcut : lbrace :: t = p ++ dot :: b) : parse b = none := by
  cases hb : parse b with
  | none => rfl
  | some w =>
      exfalso
      obtain ⟨s, hs, hfin⟩ := Option.bind_eq_some_iff.1 ht
      obtain ⟨c, p, rfl⟩ : ∃ c p', p = c :: p' := by
        cases p with
        | nil => cases hcut
        | cons c p => exact ⟨c, p, rfl⟩
      obtain ⟨rfl, rfl⟩ := List.cons.inj hcut
      -- the state after the dot
      change run step _ (lbrace :: (p ++ ([dot] ++ b))) = some s at hs
      obtain ⟨s₀, hopen, hs⟩ := Option.bind_eq_some_iff.1 hs
      rw [run_append] at hs
      obtain ⟨s₁, hp, hs⟩ := Option.bind_eq_some_iff.1 hs
      rw [run_append] at hs
      obtain ⟨s₂, hdot, hs⟩ := Option.bind_eq_some_iff.1 hs
      have hdot : step s₁ dot = some s₂ := by
        obtain ⟨s', hstep, hnil⟩ := Option.bind_eq_some_iff.1 hdot
        cases hnil
        exact hstep
      have hopened : Opened s₂ := by
        refine step_opened s₁ dot s₂ (run_invariant step_opened ?_ hp) hdot
        cases hopen
        exact .inl (by simp)
      have hend : run scanStep ⟨0, .outside⟩ b = some ⟨0, .outside⟩ := scan_of_parse hb
      have hwhole := run_view step_scan hs
      rw [scan_of_finish hfin] at hwhole
      rcases step_dot hdot with hin | ⟨read, q, hnum⟩
      · have hopp : Opposite ⟨0, .outside⟩ s₂.scan := .inl ⟨rfl, hin⟩
        rcases run_opposite hopp hend hwhole with ⟨-, h⟩ | ⟨h, -⟩ <;> cases h
      · have hstack : s₂.stack ≠ [] := by
          rcases hopened with h | ⟨v, hv⟩
          · exact h
          · rw [hnum] at hv
            cases hv
        have hdeep := scan_deeper s₂.stack.length hend
        have hscan : s₂.scan = Scan.deeper s₂.stack.length ⟨0, .outside⟩ := by
          rw [State.scan, hnum, Scan.deeper, Nat.zero_add]
          rfl
        rw [hscan, hdeep] at hwhole
        have hlen : 0 + s₂.stack.length = 0 := congrArg Scan.depth (Option.some.inj hwhole)
        exact hstack (List.length_eq_zero_iff.1 (by omega))

end JsonText

end HookRelay
