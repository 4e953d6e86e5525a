import HookRelay.Api.Listing

/-!
# Cursors from clients

`decodeCursor` reads any string a client sends, and of the two fields it finds it only asks
whether they are true in a condition.

* `WellTyped` — what a cursor is meant to be: a string that is a date, and one that is a UUID.
* `ValidOrRejected`, `FailsAsInvalid` — what is expected of `decodeCursor` and of `list`.
* `SlipsThrough`, `Misread` — the cursors that are neither well typed nor rejected.
* `cursor_valid_iff` — what is expected holds of all other strings, and of no `Misread` one;
  the cursors that `list` makes are read back.
-/

namespace HookRelay

open Lib JsonText

namespace DeliveriesService

section

variable (codec : CursorCodec)

/-- A string that is a date, and a string that is a UUID. -/
def ParsedCursor.WellTyped (c : ParsedCursor) : Prop :=
  (∃ s date, c.createdAt = .str s ∧ newDate codec (.str s) = some date) ∧
    ∃ s id, c.id = .str s ∧ codec.parseUuid s = some id

/-- What `decodeCursor` returns is well typed. -/
def ValidOrRejected (raw : Text) : Prop := ∀ c, decodeCursor raw = some c → c.WellTyped codec

/-- Unless its query can be built, `list` fails with `INVALID_CURSOR`. -/
def FailsAsInvalid (raw : Text) : Prop :=
  ∀ (tenantId : Uuid) (status : Option DeliveryStatus) (db : Database) (e : ServiceError),
    list codec tenantId status (some raw) db = .error e →
      e = .domain Errors.invalidCursor ∨ ∃ keep, cursorFilter codec (some raw) = .ok keep

/-- The two fields of a cursor that is not well typed. -/
inductive SlipsThrough : Json → Json → Prop
  | dateNoString {createdAt id : Json} (h : ∀ s, createdAt ≠ .str s) : SlipsThrough createdAt id
  | noDate {s : CodeUnits} {id : Json} (h : newDate codec (.str s) = none) :
      SlipsThrough (.str s) id
  | idNoString {createdAt id : Json} (h : ∀ s, id ≠ .str s) : SlipsThrough createdAt id
  | noUuid {createdAt : Json} {s : CodeUnits} (h : codec.parseUuid s = none) :
      SlipsThrough createdAt (.str s)

/-- The string is JSON whose two fields are true in a condition, and slip through. -/
def Misread (raw : Text) : Prop :=
  ∃ v createdAt id, parse (decodeUtf8 (ofBase64Url raw)) = some v ∧
    field? (ascii "createdAt") v = some createdAt ∧ field? (ascii "id") v = some id ∧
    truthy createdAt = true ∧ truthy id = true ∧ SlipsThrough codec createdAt id

end

variable {codec : CursorCodec} {raw : Text}

/-! ## What is read -/

/-- What `decodeCursor` returns, field by field. -/
theorem decodeCursor_eq_some_iff {c : ParsedCursor} : decodeCursor raw = some c ↔
    ∃ v, parse (decodeUtf8 (ofBase64Url raw)) = some v ∧
      field? (ascii "createdAt") v = some c.createdAt ∧ field? (ascii "id") v = some c.id ∧
      truthy c.createdAt = true ∧ truthy c.id = true := by
  obtain ⟨createdAt, id⟩ := c
  unfold decodeCursor
  cases hv : parse (decodeUtf8 (ofBase64Url raw)) with
  | none => simp
  | some v =>
      cases hd : field? (ascii "createdAt") v with
      | none => simp [hd]
      | some d =>
          cases hi : field? (ascii "id") v with
          | none => simp [hd, hi]
          | some i =>
              simp only [Option.ite_none_right_eq_some, Bool.and_eq_true, Option.some.injEq,
                ParsedCursor.mk.injEq, exists_eq_left', hd, hi]
              constructor
              · rintro ⟨⟨hdt, hit⟩, rfl, rfl⟩
                exact ⟨rfl, rfl, hdt, hit⟩
              · rintro ⟨rfl, rfl, hdt, hit⟩
                exact ⟨⟨hdt, hit⟩, rfl, rfl⟩

/-- To slip through is to be ill typed. -/
theorem slipsThrough_iff {createdAt id : Json} : SlipsThrough codec createdAt id ↔
    ¬ ParsedCursor.WellTyped codec ⟨createdAt, id⟩ := by
  constructor
  · rintro h ⟨⟨s, date, hs, hdate⟩, ⟨t, uuid, ht, huuid⟩⟩
    cases h with
    | dateNoString h => exact h s hs
    | noDate h =>
        cases hs
        rw [h] at hdate
        cases hdate
    | idNoString h => exact h t ht
    | noUuid h =>
        cases ht
        rw [h] at huuid
        cases huuid
  · intro h
    by_cases hd : ∃ s, createdAt = .str s
    · obtain ⟨s, rfl⟩ := hd
      by_cases hi : ∃ t, id = .str t
      · obtain ⟨t, rfl⟩ := hi
        cases hdate : newDate codec (.str s) with
        | none => exact .noDate hdate
        | some date =>
            cases huuid : codec.parseUuid t with
            | none => exact .noUuid huuid
            | some uuid => exact absurd ⟨⟨s, date, rfl, hdate⟩, t, uuid, rfl, huuid⟩ h
      · exact .idNoString fun t ht => hi ⟨t, ht⟩
    · exact .dateNoString fun s hs => hd ⟨s, hs⟩

/-- What is returned is well typed exactly when nothing slips through. -/
theorem validOrRejected_iff : ValidOrRejected codec raw ↔ ¬ Misread codec raw := by
  constructor
  · rintro h ⟨v, createdAt, id, hv, hd, hi, hdt, hit, hslip⟩
    exact slipsThrough_iff.1 hslip
      (h ⟨createdAt, id⟩ (decodeCursor_eq_some_iff.2 ⟨v, hv, hd, hi, hdt, hit⟩))
  · intro h c hc
    obtain ⟨v, hv, hd, hi, hdt, hit⟩ := decodeCursor_eq_some_iff.1 hc
    by_contra hill
    exact h ⟨v, c.createdAt, c.id, hv, hd, hi, hdt, hit, slipsThrough_iff.2 hill⟩

/-! ## The query -/

/-- With a well-typed cursor the query is built. -/
theorem cursorFilter_of_wellTyped {c : ParsedCursor} (h : decodeCursor raw = some c)
    (hwell : c.WellTyped codec) : ∃ keep, cursorFilter codec (some raw) = .ok keep := by
  obtain ⟨⟨s, date, hs, hdate⟩, t, id, ht, hid⟩ := hwell
  rw [← hs] at hdate
  have huuid : cursorId codec c.id = some id := by
    rw [ht]
    exact hid
  exact ⟨_, cursorFilter_of_decode h hdate huuid⟩

/-- The query fails to be built only as it should, if nothing slips through. -/
theorem failsAsInvalid_of_valid (h : ValidOrRejected codec raw) : FailsAsInvalid codec raw := by
  intro tenantId status db e he
  cases hc : decodeCursor raw with
  | some c => exact Or.inr (cursorFilter_of_wellTyped hc (h c hc))
  | none =>
      cases raw with
      | nil => exact Or.inr ⟨_, rfl⟩
      | cons u raw =>
          left
          have hfilter : cursorFilter codec (some (u :: raw)) =
              .error (.domain Errors.invalidCursor) := by
            simp only [cursorFilter, hc]
          unfold list at he
          rw [hfilter] at he
          cases he
          rfl

/-! ## The cursors that `list` makes -/

/-- The cursor of a page is that of its last delivery. -/
theorem nextCursor_of_list {tenantId : Uuid} {status : Option DeliveryStatus}
    {cursor : Option Text} {db db' : Database} {page : Page} {next : Text}
    (h : list codec tenantId status cursor db = .ok (page, db'))
    (hnext : page.nextCursor = some next) : ∃ d, cursorOf d = some next := by
  unfold list at h
  cases hf : cursorFilter codec cursor with
  | error e =>
      rw [hf] at h
      cases h
  | ok keep =>
      rw [hf] at h
      simp only at h
      split at h
      · cases h
        cases hnext
      · rename_i last _
        cases hlast : cursorOf last with
        | none =>
            rw [hlast] at h
            cases h
        | some c =>
            rw [hlast] at h
            cases h
            cases hnext
            exact ⟨last, hlast⟩

/-- A cursor that was made is read back. -/
theorem decodeCursor_cursorOf {d : DeliveryRow} {next : Text} (h : cursorOf d = some next) :
    ∃ c : DeliveryCursor, next = encodeCursor c ∧
      decodeCursor next = some ⟨.str c.createdAt, .str c.id⟩ := by
  rw [cursorOf] at h
  have hascii := isAscii_uuid d.id
  have hid0 : codeUnits d.id.text ≠ [] := by
    apply codeUnits_ne_nil
    apply List.ne_nil_of_length_pos
    rw [d.id.length_text]
    omega
  -- from here on only these facts about the text of the id count
  generalize codeUnits d.id.text = y at h hascii hid0
  obtain ⟨x, hx, rfl⟩ := Option.map_eq_some_iff.1 h
  have hx0 : x ≠ [] := by
    rintro rfl
    have hread : readIso [] = some (jsDate d.createdAt) := readIso_isoText hx
    cases hread
  exact ⟨⟨codeUnits x, y⟩, rfl, decodeCursor_encodeCursor ⟨isAscii_isoText hx, hascii⟩
    ⟨codeUnits_ne_nil hx0, hid0⟩⟩

/-- **When a cursor is valid or rejected.**  `decodeCursor` returns nothing but well-typed
cursors, and `list` fails because of the cursor with nothing but `INVALID_CURSOR`, exactly
for the strings that are not `Misread`.  Every cursor that `list` makes is read back. -/
theorem cursor_valid_iff (codec : CursorCodec) :
    (∀ raw, ValidOrRejected codec raw ∧ FailsAsInvalid codec raw ↔ ¬ Misread codec raw) ∧
    (∀ (tenantId : Uuid) (status : Option DeliveryStatus) (cursor : Option Text)
      (db db' : Database) (page : Page) (next : Text),
      list codec tenantId status cursor db = .ok (page, db') → page.nextCursor = some next →
        ∃ c : DeliveryCursor, next = encodeCursor c ∧
          decodeCursor next = some ⟨.str c.createdAt, .str c.id⟩) := by
  constructor
  · intro raw
    constructor
    · exact fun h => validOrRejected_iff.1 h.1
    · intro h
      have hvalid := validOrRejected_iff.2 h
      exact ⟨hvalid, failsAsInvalid_of_valid hvalid⟩
  · intro tenantId status cursor db db' page next h hnext
    obtain ⟨d, hd⟩ := nextCursor_of_list h hnext
    exact decodeCursor_cursorOf hd

/-! ## A cursor that slips through -/

/-- base64url of the JSON text with `createdAt` `"x"` and `id` `"y"`. -/
def slipping : Text := "eyJjcmVhdGVkQXQiOiJ4IiwiaWQiOiJ5In0".toList

theorem decodeCursor_slipping :
    decodeCursor slipping = some ⟨.str (ascii "x"), .str (ascii "y")⟩ := by
  have hencode : encodeCursor ⟨ascii "x", ascii "y"⟩ = slipping := by decide +kernel
  rw [← hencode]
  exact decodeCursor_encodeCursor ⟨isAscii_ascii (by decide), isAscii_ascii (by decide)⟩
    ⟨by decide, by decide⟩

theorem newDate_x : newDate strictCodec (.str (ascii "x")) = none := by decide +kernel

theorem cursorFilter_slipping :
    cursorFilter strictCodec (some slipping) = .error .invalidValue := by
  have hne : slipping ≠ [] := by decide
  obtain ⟨u, raw, hraw⟩ := List.exists_cons_of_ne_nil hne
  have hdec := decodeCursor_slipping
  rw [hraw] at hdec ⊢
  simp only [cursorFilter, hdec, newDate_x]

/-- **A cursor may be neither valid nor rejected**: with the fields `x` and `y` it is returned,
and `list` fails with an error of the database client. -/
theorem cursor_slips_through :
    list strictCodec fanOutTenant none (some slipping) Database.empty = .error .invalidValue ∧
    ¬ ∀ (codec : CursorCodec) (raw : Text),
      ValidOrRejected codec raw ∧ FailsAsInvalid codec raw := by
  have hlist : list strictCodec fanOutTenant none (some slipping) Database.empty =
      .error .invalidValue := by
    unfold list
    rw [cursorFilter_slipping]
  refine ⟨hlist, fun h => ?_⟩
  rcases (h strictCodec slipping).2 _ _ _ _ hlist with hdomain | ⟨keep, hkeep⟩
  · cases hdomain
  · rw [cursorFilter_slipping] at hkeep
    cases hkeep

end DeliveriesService

end HookRelay
