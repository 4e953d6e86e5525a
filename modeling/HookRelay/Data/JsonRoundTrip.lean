import HookRelay.Data.JsonText

/-!
# Reading undoes writing

The machine of `JSON.parse` on what `JSON.stringify` wrote.  The text of a value takes the
machine from a state that expects a value to one that has read it (`Read`), whatever is open
around it; the induction is on the value, and on the rest of an array or an object.

* `Json.valid` — the numbers of a value are JSON numbers.
* `run_quoteUnits` — the inside of a string.
* `run_stringify` — the text of a value, below any stack.
* `parse_stringify` — the round trip.
-/

namespace HookRelay

open Lib

mutual

/-- The numbers in a value have the form of JSON numbers. -/
def Json.valid : Json → Bool
  | .num t => JsonText.isNumber t
  | .arr xs => Json.validAll xs
  | .obj fs => Json.validFields fs
  | _ => true

def Json.validAll : List Json → Bool
  | [] => true
  | x :: xs => x.valid && Json.validAll xs

def Json.validFields : List (CodeUnits × Json) → Bool
  | [] => true
  | (_, v) :: fs => v.valid && Json.validFields fs

end

namespace JsonText

/-! ## Strings -/

theorem eq_of_toNat {u : UInt16} {n : ℕ} (hn : n < 65536) (h : u.toNat = n) :
    u = UInt16.ofNat n := by
  apply UInt16.toNat_inj.1
  rw [UInt16.toNat_ofNat', h]
  omega

theorem hexUnit_hexChar {d : ℕ} (h : d < 16) :
    hexUnit (UInt16.ofNat (hexChar d).toNat) = some d := by
  revert h; revert d; decide

/-- `\uXXXX` stands for its unit. -/
theorem run_escapeUnit (S : List Frame) (k : Bool) (r : CodeUnits) (u : UInt16) :
    run step ⟨S, .str k r⟩ (escapeUnit u) = some ⟨S, .str k (u :: r)⟩ := by
  have hlt := u.toNat_lt
  have hdigits : hexDigits 4 u.toNat =
      [u.toNat / 16 / 16 / 16 % 16, u.toNat / 16 / 16 % 16, u.toNat / 16 % 16, u.toNat % 16] := by
    simp [hexDigits]
  have hval : UInt16.ofNat ((((0 * 16 + u.toNat / 16 / 16 / 16 % 16) * 16 +
      u.toNat / 16 / 16 % 16) * 16 + u.toNat / 16 % 16) * 16 + u.toNat % 16) = u := by
    apply UInt16.toNat_inj.1
    rw [UInt16.toNat_ofNat']
    omega
  have hd : ∀ n : ℕ, hexUnit (UInt16.ofNat (hexChar (n % 16)).toNat) = some (n % 16) :=
    fun n => hexUnit_hexChar (Nat.mod_lt n (by norm_num))
  have hstart : run step ⟨S, .str k r⟩ (ascii "\\u") = some ⟨S, .hex k r 3 0⟩ := rfl
  rw [escapeUnit, run_append_of_eq hstart, hdigits]
  simp only [List.map_cons, List.map_nil, run, step, inHex, hd, Option.bind_some, hval]

/-- A unit as it is written inside a string. -/
theorem run_quoteUnit (S : List Frame) (k : Bool) (r : CodeUnits) (u : UInt16) :
    run step ⟨S, .str k r⟩ (quoteUnit u) = some ⟨S, .str k (u :: r)⟩ := by
  unfold quoteUnit
  split_ifs with h1 h2 h3 h4 h5 h6 h7 h8
  · rw [eq_of_toNat (by norm_num) h1]; rfl
  · rw [eq_of_toNat (by norm_num) h2]; rfl
  · rw [eq_of_toNat (by norm_num) h3]; rfl
  · rw [eq_of_toNat (by norm_num) h4]; rfl
  · rw [eq_of_toNat (by norm_num) h5]; rfl
  · rw [eq_of_toNat (by norm_num) h6]; rfl
  · rw [eq_of_toNat (by norm_num) h7]; rfl
  · exact run_escapeUnit S k r u
  · have hq : u ≠ dquote := fun h => h1 (by rw [h]; rfl)
    have hb : u ≠ backslash := fun h => h2 (by rw [h]; rfl)
    have hge : ¬ u.toNat < 0x20 := by
      intro h
      rw [Bool.or_eq_true, Bool.or_eq_true, decide_eq_true_eq] at h8
      exact h8 (.inl (.inl h))
    simp [run, step, inString, hq, hb, hge]

/-- A surrogate is an ordinary unit of a string. -/
theorem step_surrogate {u : UInt16} (h : isHighSurrogate u = true ∨ isLowSurrogate u = true)
    (S : List Frame) (k : Bool) (r : CodeUnits) :
    step ⟨S, .str k r⟩ u = some ⟨S, .str k (u :: r)⟩ := by
  have hge : 0xD800 ≤ u.toNat := by
    simp only [isHighSurrogate, isLowSurrogate, Bool.and_eq_true, decide_eq_true_eq] at h
    omega
  have hq : u ≠ dquote := by rintro rfl; exact absurd hge (by decide)
  have hb : u ≠ backslash := by rintro rfl; exact absurd hge (by decide)
  have h20 : ¬ u.toNat < 0x20 := by omega
  simp [step, inString, hq, hb, h20]

/-- The inside of a string. -/
theorem run_quoteUnits (S : List Frame) (k : Bool) (r s : CodeUnits) :
    run step ⟨S, .str k r⟩ (quoteUnits s) = some ⟨S, .str k (s.reverse ++ r)⟩ := by
  fun_induction quoteUnits s generalizing r with
  | case1 => rfl
  | case2 u => simpa using run_quoteUnit S k r u
  | case3 u v rest h ih =>
      rw [Bool.and_eq_true] at h
      show (step ⟨S, .str k r⟩ u).bind _ = _
      rw [step_surrogate (.inl h.1)]
      show (step ⟨S, .str k (u :: r)⟩ v).bind _ = _
      rw [step_surrogate (.inr h.2)]
      show run step ⟨S, .str k (v :: u :: r)⟩ (quoteUnits rest) = _
      rw [ih]
      simp
  | case4 u v rest h ih =>
      rw [run_append_of_eq (run_quoteUnit S k r u), ih]
      simp

/-- A string that is a value. -/
theorem run_quote (S : List Frame) (s : CodeUnits) :
    run step ⟨S, .str false []⟩ (quoteUnits s ++ ascii "\"") = some ⟨S, .done (.str s)⟩ := by
  rw [run_append_of_eq (run_quoteUnits S false [] s)]
  simp [run, step, inString, endString, ascii]

/-- A key and its colon. -/
theorem run_key (S : List Frame) (read : List (CodeUnits × Json)) (key s : CodeUnits) (m : Mode)
    (hm : m = .firstKey ∨ m = .key) :
    run step ⟨.obj read key :: S, m⟩ (quote s ++ ascii ":") = some ⟨.obj read s :: S, .value⟩ := by
  have hopen : run step ⟨.obj read key :: S, m⟩ (ascii "\"") =
      some ⟨.obj read key :: S, .str true []⟩ := by
    rcases hm with rfl | rfl <;> rfl
  rw [quote, List.append_assoc, List.append_assoc, run_append_of_eq hopen,
    run_append_of_eq (run_quoteUnits _ true [] s)]
  simp [run, step, inString, endString, ascii, isSpace]

/-! ## Values -/

/-- The machine has read the value: the number it is in the middle of may also end here. -/
def Read (S : List Frame) (v : Json) (s : State) : Prop :=
  s = ⟨S, .done v⟩ ∨
    ∃ read q, s = ⟨S, .num read q⟩ ∧ q.complete = true ∧ v = .num read.reverse

/-- What ends a value ends a number. -/
theorem step_read {S : List Frame} {v : Json} {s : State} {u : UInt16} (h : Read S v s)
    (hu : u = comma ∨ u = rbracket ∨ u = rbrace) : step s u = afterValue S v u := by
  rcases h with rfl | ⟨read, q, rfl, hq, rfl⟩
  · rfl
  · have hnext : q.next u = none := by
      rcases hu with rfl | rfl | rfl <;> cases q <;> rfl
    simp only [step, inNumber, hnext, hq, if_true]

theorem finish_read {v : Json} {s : State} (h : Read [] v s) : finish s = some v := by
  rcases h with rfl | ⟨read, q, rfl, hq, rfl⟩
  · rfl
  · simp [finish, hq]

/-- The rest of a number. -/
theorem run_number (S : List Frame) (t read : CodeUnits) (q q' : NumPart)
    (h : run NumPart.next q t = some q') :
    run step ⟨S, .num read q⟩ t = some ⟨S, .num (t.reverse ++ read) q'⟩ := by
  induction t generalizing read q with
  | nil => cases h; rfl
  | cons u t ih =>
      obtain ⟨p, hp, hrest⟩ := Option.bind_eq_some_iff.1 h
      show (step ⟨S, .num read q⟩ u).bind _ = _
      simp only [step, inNumber, hp, Option.bind_some]
      rw [ih (u :: read) p hrest]
      simp

theorem beginValue_number {S : List Frame} {u : UInt16} {q : NumPart}
    (h : NumPart.start.next u = some q) : beginValue S u = some ⟨S, .num [u] q⟩ := by
  have hne : ∀ x : UInt16, NumPart.start.next x = none → u ≠ x := by
    rintro x hx rfl
    rw [hx] at h
    cases h
  simp [beginValue, hne dquote rfl, hne lbracket rfl, hne lbrace rfl, hne 0x74 rfl,
    hne 0x66 rfl, hne 0x6E rfl, h]

/-- A value may begin in these modes. -/
def Mode.Expects (m : Mode) : Prop := m = .value ∨ m = .firstValue

theorem step_expects {S : List Frame} {m : Mode} {u : UInt16} (hm : m.Expects)
    (hspace : isSpace u = false) (hclose : u ≠ rbracket) :
    step ⟨S, m⟩ u = beginValue S u := by
  rcases hm with rfl | rfl <;> simp [step, hspace, hclose]

theorem run_num {S : List Frame} {m : Mode} (hm : m.Expects) {t : CodeUnits}
    (ht : isNumber t = true) : ∃ s, run step ⟨S, m⟩ t = some s ∧ Read S (.num t) s := by
  obtain ⟨q', hq', hcomplete⟩ := (Option.any_eq_true _ _).1 ht
  cases t with
  | nil => cases hq'; cases hcomplete
  | cons u t =>
      obtain ⟨q, hq, hrest⟩ := Option.bind_eq_some_iff.1 hq'
      have hplain : isSpace u = false ∧ u ≠ rbracket := by
        refine ⟨?_, by rintro rfl; cases hq⟩
        cases hs : isSpace u with
        | false => rfl
        | true =>
            simp only [isSpace, Bool.or_eq_true, decide_eq_true_eq] at hs
            rcases hs with ((rfl | rfl) | rfl) | rfl <;> cases hq
      refine ⟨⟨S, .num (t.reverse ++ [u]) q'⟩, ?_, .inr ⟨_, q', rfl, hcomplete, by simp⟩⟩
      show (step ⟨S, m⟩ u).bind _ = _
      rw [step_expects hm hplain.1 hplain.2, beginValue_number hq]
      exact run_number S t [u] q q' hrest

/-- The elements of an array or an object after the first, with their commas. -/
def afterCommas (ts : List CodeUnits) : CodeUnits := ts.flatMap fun t => comma :: t

theorem afterCommas_cons (t : CodeUnits) (ts : List CodeUnits) :
    afterCommas (t :: ts) = comma :: (t ++ afterCommas ts) := by
  simp [afterCommas]

theorem intercalate_cons (t : CodeUnits) (ts : List CodeUnits) :
    (ascii ",").intercalate (t :: ts) = t ++ afterCommas ts := by
  induction ts generalizing t with
  | nil => simp [List.intercalate, afterCommas]
  | cons t' ts ih =>
      have h : (ascii ",").intercalate (t :: t' :: ts) =
          t ++ comma :: (ascii ",").intercalate (t' :: ts) := by
        simp [List.intercalate, ascii]
      rw [h, ih, afterCommas_cons]

/-- What follows the first element of an array, when the rest is read one by one. -/
theorem step_comma_arr {S : List Frame} {read : List Json} {v : Json} {s : State}
    (h : Read (.arr read :: S) v s) : step s comma = some ⟨.arr (v :: read) :: S, .value⟩ := by
  rw [step_read h (.inl rfl)]
  rfl

theorem step_close_arr {S : List Frame} {read : List Json} {v : Json} {s : State}
    (h : Read (.arr read :: S) v s) :
    step s rbracket = some ⟨S, .done (.arr (v :: read).reverse)⟩ := by
  rw [step_read h (.inr (.inl rfl))]
  rfl

theorem step_comma_obj {S : List Frame} {read : List (CodeUnits × Json)} {key : CodeUnits}
    {v : Json} {s : State} (h : Read (.obj read key :: S) v s) :
    step s comma = some ⟨.obj ((key, v) :: read) [] :: S, .key⟩ := by
  rw [step_read h (.inl rfl)]
  rfl

theorem step_close_obj {S : List Frame} {read : List (CodeUnits × Json)} {key : CodeUnits}
    {v : Json} {s : State} (h : Read (.obj read key :: S) v s) :
    step s rbrace = some ⟨S, .done (.obj ((key, v) :: read).reverse)⟩ := by
  rw [step_read h (.inr (.inr rfl))]
  rfl

mutual

/-- **The text of a value is read as the value**, below whatever is open. -/
theorem run_stringify (j : Json) (hj : j.valid = true) (S : List Frame) (m : Mode)
    (hm : m.Expects) : ∃ s, run step ⟨S, m⟩ j.stringify = some s ∧ Read S j s := by
  cases j with
  | null => exact ⟨_, by rcases hm with rfl | rfl <;> rfl, .inl rfl⟩
  | bool b => exact ⟨_, by cases b <;> rcases hm with rfl | rfl <;> rfl, .inl rfl⟩
  | num t => exact run_num hm hj
  | str t =>
      refine ⟨_, ?_, .inl rfl⟩
      rw [Json.stringify, quote, List.append_assoc]
      have hopen : run step ⟨S, m⟩ (ascii "\"") = some ⟨S, .str false []⟩ := by
        rcases hm with rfl | rfl <;> rfl
      rw [run_append_of_eq hopen, run_quote]
  | arr xs =>
      refine ⟨⟨S, .done (.arr xs)⟩, ?_, .inl rfl⟩
      have hopen : run step ⟨S, m⟩ (ascii "[") = some ⟨.arr [] :: S, .firstValue⟩ := by
        rcases hm with rfl | rfl <;> rfl
      rw [Json.stringify, List.append_assoc, run_append_of_eq hopen]
      cases xs with
      | nil => rfl
      | cons x xs =>
          rw [Json.valid, Json.validAll, Bool.and_eq_true] at hj
          obtain ⟨s, hs, hread⟩ := run_stringify x hj.1 (.arr [] :: S) .firstValue (.inr rfl)
          rw [Json.stringifyAll, intercalate_cons, List.append_assoc, run_append_of_eq hs]
          exact run_elements xs hj.2 S [] x s hread
  | obj fs =>
      refine ⟨⟨S, .done (.obj fs)⟩, ?_, .inl rfl⟩
      have hopen : run step ⟨S, m⟩ (ascii "\x7b") = some ⟨.obj [] [] :: S, .firstKey⟩ := by
        rcases hm with rfl | rfl <;> rfl
      rw [Json.stringify, List.append_assoc, run_append_of_eq hopen]
      cases fs with
      | nil => rfl
      | cons f fs =>
          obtain ⟨k, v⟩ := f
          rw [Json.valid, Json.validFields, Bool.and_eq_true] at hj
          obtain ⟨s, hs, hread⟩ := run_stringify v hj.1 (.obj [] k :: S) .value (.inl rfl)
          rw [Json.stringifyFields, intercalate_cons, List.append_assoc, List.append_assoc,
            run_append_of_eq (run_key S [] [] k .firstKey (.inl rfl)), run_append_of_eq hs]
          exact run_fields fs hj.2 S [] k v s hread

/-- The rest of an array. -/
theorem run_elements (xs : List Json) (hxs : Json.validAll xs = true) (S : List Frame)
    (read : List Json) (v : Json) (s : State) (hs : Read (.arr read :: S) v s) :
    run step s (afterCommas (Json.stringifyAll xs) ++ ascii "]") =
      some ⟨S, .done (.arr ((v :: read).reverse ++ xs))⟩ := by
  cases xs with
  | nil =>
      show (step s rbracket).bind _ = _
      rw [step_close_arr hs]
      simp [run]
  | cons x xs =>
      rw [Json.validAll, Bool.and_eq_true] at hxs
      obtain ⟨s', hs', hread⟩ :=
        run_stringify x hxs.1 (.arr (v :: read) :: S) .value (.inl rfl)
      rw [Json.stringifyAll, afterCommas_cons]
      show (step s comma).bind _ = _
      rw [step_comma_arr hs]
      show run step _ (x.stringify ++ afterCommas (Json.stringifyAll xs) ++ ascii "]") = _
      rw [List.append_assoc, run_append_of_eq hs',
        run_elements xs hxs.2 S (v :: read) x s' hread]
      simp

/-- The rest of an object. -/
theorem run_fields (fs : List (CodeUnits × Json)) (hfs : Json.validFields fs = true)
    (S : List Frame) (read : List (CodeUnits × Json)) (key : CodeUnits) (v : Json) (s : State)
    (hs : Read (.obj read key :: S) v s) :
    run step s (afterCommas (Json.stringifyFields fs) ++ ascii "\x7d") =
      some ⟨S, .done (.obj (((key, v) :: read).reverse ++ fs))⟩ := by
  cases fs with
  | nil =>
      show (step s rbrace).bind _ = _
      rw [step_close_obj hs]
      simp [run]
  | cons f fs =>
      obtain ⟨k, x⟩ := f
      rw [Json.validFields, Bool.and_eq_true] at hfs
      obtain ⟨s', hs', hread⟩ :=
        run_stringify x hfs.1 (.obj ((key, v) :: read) k :: S) .value (.inl rfl)
      rw [Json.stringifyFields, afterCommas_cons]
      show (step s comma).bind _ = _
      rw [step_comma_obj hs]
      rw [Option.bind_some]
      change run step _ ((quote k ++ ascii ":" ++ x.stringify ++
        afterCommas (Json.stringifyFields fs)) ++ ascii "\x7d") = _
      rw [List.append_assoc, List.append_assoc, run_append_of_eq (run_key S _ [] k .key (.inr rfl)),
        run_append_of_eq hs', run_fields fs hfs.2 S ((key, v) :: read) k x s' hread]
      simp

end

/-- **The round trip.**  `JSON.parse` undoes `JSON.stringify`. -/
theorem parse_stringify (j : Json) (hj : j.valid = true) : parse j.stringify = some j := by
  obtain ⟨s, hs, hread⟩ := run_stringify j hj [] .value (.inl rfl)
  rw [parse, hs]
  exact finish_read hread

example : (parse (ascii "[1.5e3, \"a\\u0062\"]")).map Json.stringify =
    some (ascii "[1.5e3,\"ab\"]") := by decide +kernel

end JsonText

end HookRelay
