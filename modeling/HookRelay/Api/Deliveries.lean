import HookRelay.Lib.IsoDate
import HookRelay.Data.Buffer
import HookRelay.Data.Numbers
import HookRelay.Data.JsonRoundTrip
import HookRelay.Api.Endpoints

/-!
# The deliveries service

`deliveries.service.ts`: the list of a tenant's deliveries page by page, the attempts of
one delivery, and manual redelivery.  A cursor is the JSON text of a date and an id, in
base64url.

* `encodeCursor`, `decodeCursor` — a cursor as a text, and back.
* `CursorCodec` — what is left open: dates written in other ways than `toISOString` writes
  them, and how the database reads a UUID.
* `cursorFilter_cursorOf` — the cursor after a delivery stands for its id and for its date,
  which has no microseconds any more.
-/

namespace HookRelay

open Lib JsonText

namespace DeliveriesService

/-- `PAGE_SIZE`. -/
def pageSize : ℕ := 20

/-- `DeliveryCursor`. -/
structure DeliveryCursor where
  createdAt : CodeUnits
  id : CodeUnits
  deriving DecidableEq

/-- How a cursor that was not made by `encodeCursor` may be read. -/
structure CursorCodec where
  /-- `new Date(v)` of anything but a text as `toISOString` writes it from 1970 on; `none` for
  an invalid date. -/
  otherDate : Json → Option ℤ
  /-- The UUID a text denotes for the database, if any. -/
  parseUuid : CodeUnits → Option Uuid

/-- A cursor as an object. -/
def cursorJson (c : DeliveryCursor) : Json :=
  .obj [(ascii "createdAt", .str c.createdAt), (ascii "id", .str c.id)]

/-- `encodeCursor`. -/
def encodeCursor (c : DeliveryCursor) : Text :=
  toBase64Url (encodeUtf8 (cursorJson c).stringify)

/-- A value is true in a condition.  A number is not if it is 0, or so small that it is read
as 0. -/
def truthy : Json → Bool
  | .null => false
  | .bool b => b
  | .num t => (readDecimal t).any fun x => (2 : ℚ) ^ (-1075 : ℤ) < |x|
  | .str s => s ≠ []
  | .arr _ | .obj _ => true

/-- What `decodeCursor` returns: its fields may be any JSON values. -/
structure ParsedCursor where
  createdAt : Json
  id : Json

/-- `decodeCursor`; `none` when it throws. -/
def decodeCursor (raw : Text) : Option ParsedCursor :=
  match parse (decodeUtf8 (ofBase64Url raw)) with
  | none => none
  | some v =>
      match field? (ascii "createdAt") v, field? (ascii "id") v with
      | some createdAt, some id =>
          if truthy createdAt && truthy id then some ⟨createdAt, id⟩ else none
      | _, _ => none

/-- `new Date(v)`. -/
def newDate (codec : CursorCodec) (v : Json) : Option ℤ :=
  match v with
  | .str s =>
      match (decodeUnits s).bind readIso with
      | some ms => some ms
      | none => codec.otherDate (.str s)
  | v => codec.otherDate v

/-- The id of a cursor, for the database. -/
def cursorId (codec : CursorCodec) : Json → Option Uuid
  | .str s => codec.parseUuid s
  | _ => none

/-- A delivery in the list. -/
structure View where
  deliveryId : Uuid
  endpointId : Uuid
  endpointUrl : Option Text
  eventType : Option Text
  status : DeliveryStatus
  attemptCount : ℕ
  nextRetryAt : Option ℕ
  createdAt : ℕ
  updatedAt : ℕ
  deriving DecidableEq

def toView (db : Database) (d : DeliveryRow) : View :=
  { deliveryId := d.id, endpointId := d.endpointId,
    endpointUrl := (db.endpoints.find? d.endpointId).map EndpointRow.url,
    eventType := (db.events.find? d.eventId).map EventRow.type, status := d.status,
    attemptCount := d.attemptCount, nextRetryAt := d.nextRetryAt.map jsDate,
    createdAt := jsDate d.createdAt, updatedAt := jsDate d.updatedAt }

/-- `event: { tenantId }`. -/
def ownedBy (db : Database) (tenantId : Uuid) (d : DeliveryRow) : Bool :=
  (db.events.find? d.eventId).any fun e => e.tenantId = tenantId

/-- `orderBy: [{ createdAt: 'desc' }, { id: 'desc' }]`. -/
def before (a b : DeliveryRow) : Prop :=
  b.createdAt < a.createdAt ∨ (b.createdAt = a.createdAt ∧ b.id.val ≤ a.id.val)

instance : DecidableRel before := fun a b => by unfold before; infer_instance

/-- The delivery comes after the cursor: created before its date, or at it with a smaller
id. -/
def after (date : ℤ) (id : Uuid) (d : DeliveryRow) : Bool :=
  (d.createdAt : ℤ) < date * 1000 || (d.createdAt = date * 1000 && d.id.val < id.val)

/-- The condition a cursor stands for: everything without one, and `INVALID_CURSOR` when it
cannot be read. -/
def cursorFilter (codec : CursorCodec) (cursor : Option Text) :
    Except ServiceError (DeliveryRow → Bool) :=
  match cursor with
  | none | some [] => .ok fun _ => true
  | some raw =>
      match decodeCursor raw with
      | none => .error (.domain Errors.invalidCursor)
      | some c =>
          match newDate codec c.createdAt, cursorId codec c.id with
          | some date, some id => .ok (after date id)
          | _, _ => .error .invalidValue

/-- The answer of `list`. -/
structure Page where
  deliveries : List View
  nextCursor : Option Text
  deriving DecidableEq

/-- The cursor after a delivery; `toISOString` throws for a date out of range. -/
def cursorOf (d : DeliveryRow) : Option Text :=
  (isoText (jsDate d.createdAt)).map fun createdAt =>
    encodeCursor ⟨codeUnits createdAt, codeUnits d.id.text⟩

/-- `list`. -/
def list (codec : CursorCodec) (tenantId : Uuid) (status : Option DeliveryStatus)
    (cursor : Option Text) (db : Database) : Outcome Page :=
  match cursorFilter codec cursor with
  | .error e => .error e
  | .ok keep =>
      let rows := ((db.deliveries.rows.filter fun d =>
        ownedBy db tenantId d && (status.all fun st => d.status = st) && keep d).insertionSort
          before).take (pageSize + 1)
      let hasMore := rows.length > pageSize
      let page := if hasMore then rows.take pageSize else rows
      match (if hasMore then page.getLast? else none) with
      | none => .ok (⟨page.map (toView db), none⟩, db)
      | some last =>
          match cursorOf last with
          | none => .error .invalidValue
          | some nextCursor => .ok (⟨page.map (toView db), some nextCursor⟩, db)

/-- `requireOwned`: `findFirst({ where: { id, event: { tenantId } } })`. -/
def requireOwned (db : Database) (tenantId deliveryId : Uuid) : Option DeliveryRow :=
  db.deliveries.rows.find? fun d => d.id = deliveryId && ownedBy db tenantId d

/-- An attempt in the answer of `attempts`. -/
structure AttemptView where
  attemptNo : ℕ
  responseStatus : Option ℕ
  responseBodyHead : Option CodeUnits
  errorClass : Option AttemptErrorClass
  durationMs : Option ℤ
  requestHeadersDigest : Text
  attemptedAt : ℕ
  deriving DecidableEq

def attemptView (a : AttemptRow) : AttemptView :=
  { attemptNo := a.attemptNo, responseStatus := a.responseStatus,
    responseBodyHead := a.responseBodyHead, errorClass := a.errorClass, durationMs := a.durationMs,
    requestHeadersDigest := a.requestHeadersDigest, attemptedAt := jsDate a.attemptedAt }

/-- The answer of `attempts`. -/
structure AttemptsView where
  deliveryId : Uuid
  status : DeliveryStatus
  attemptCount : ℕ
  nextRetryAt : Option ℕ
  attempts : List AttemptView
  deriving DecidableEq

/-- `attempts`, in the order of their numbers. -/
def attempts (tenantId deliveryId : Uuid) (db : Database) : Outcome AttemptsView :=
  match requireOwned db tenantId deliveryId with
  | none => .error (.domain Errors.deliveryNotFound)
  | some d =>
      let rows := (db.attempts.rows.filter fun a => a.deliveryId = deliveryId).insertionSort
        fun a b => a.attemptNo ≤ b.attemptNo
      .ok (⟨d.id, d.status, d.attemptCount, d.nextRetryAt.map jsDate, rows.map attemptView⟩, db)

/-- `redeliver`. -/
def redeliver (env : Env) (tenantId deliveryId : Uuid) (db : Database) :
    Outcome (Uuid × DeliveryStatus) :=
  match requireOwned db tenantId deliveryId with
  | none => .error (.domain Errors.deliveryNotFound)
  | some d =>
      match db.redeliverTx env.now d db.outbox.next with
      | none => .error .uniqueViolation
      | some db' => .ok ((d.id, .pending), db')

/-! ## Reading a cursor back -/

theorem isAscii_append {s t : CodeUnits} (hs : isAscii s) (ht : isAscii t) :
    isAscii (s ++ t) := by
  intro u hu
  rcases List.mem_append.1 hu with hu | hu
  · exact hs u hu
  · exact ht u hu

theorem isAscii_ascii {s : String} (h : (s.toList.all fun c => c.toNat < 0x80) = true) :
    isAscii (ascii s) := by
  intro u hu
  obtain ⟨c, hc, rfl⟩ := List.mem_map.1 hu
  have hlt : c.toNat < 0x80 := of_decide_eq_true (List.all_eq_true.1 h c hc)
  rw [UInt16.toNat_ofNat']
  omega

/-- A text of ASCII characters. -/
theorem isAscii_codeUnits {t : Text} (h : ∀ c ∈ t, c.toNat < 0x80) : isAscii (codeUnits t) := by
  intro u hu
  obtain ⟨c, hc, hu⟩ := List.mem_flatMap.1 hu
  have hlt := h c hc
  rw [charCodeUnits, if_pos (by omega), List.mem_singleton] at hu
  rw [hu, UInt16.toNat_ofNat']
  omega

/-- What is written for an ASCII character inside of a string is ASCII. -/
theorem isAscii_quoteUnit {u : UInt16} (h : u.toNat < 0x80) : isAscii (quoteUnit u) := by
  unfold quoteUnit
  split_ifs
  · exact isAscii_ascii (by decide)
  · exact isAscii_ascii (by decide)
  · exact isAscii_ascii (by decide)
  · exact isAscii_ascii (by decide)
  · exact isAscii_ascii (by decide)
  · exact isAscii_ascii (by decide)
  · exact isAscii_ascii (by decide)
  · apply isAscii_append (isAscii_ascii (by decide))
    intro x hx
    obtain ⟨d, hd, rfl⟩ := List.mem_map.1 hx
    have hall : ∀ d < 16, (UInt16.ofNat (hexChar d).toNat).toNat < 0x80 := by decide
    exact hall d (lt_of_mem_hexDigits hd)
  · intro x hx
    rw [List.mem_singleton.1 hx]
    exact h

theorem isAscii_quoteUnits {s : CodeUnits} (h : isAscii s) : isAscii (quoteUnits s) := by
  fun_induction quoteUnits s with
  | case1 => exact h
  | case2 u => exact isAscii_quoteUnit (h u (by simp))
  | case3 u v rest hs ih =>
      rw [(not_surrogate_of_ascii (h u (by simp))).1] at hs
      cases hs
  | case4 u v rest hs ih =>
      apply isAscii_append (isAscii_quoteUnit (h u (by simp)))
      exact ih fun x hx => h x (List.mem_cons_of_mem _ hx)

theorem isAscii_quote {s : CodeUnits} (h : isAscii s) : isAscii (quote s) :=
  isAscii_append (isAscii_append (isAscii_ascii (by decide)) (isAscii_quoteUnits h))
    (isAscii_ascii (by decide))

theorem isAscii_cursorJson {c : DeliveryCursor} (h : isAscii c.createdAt ∧ isAscii c.id) :
    isAscii (cursorJson c).stringify := by
  have hobj : (cursorJson c).stringify = ascii "\x7b" ++ (quote (ascii "createdAt") ++
      ascii ":" ++ quote c.createdAt ++ (ascii "," ++ (quote (ascii "id") ++ ascii ":" ++
      quote c.id))) ++ ascii "\x7d" := by
    simp [cursorJson, Json.stringify, Json.stringifyFields, List.intercalate]
  rw [hobj]
  have hplain : ∀ s : String, (s.toList.all fun c => c.toNat < 0x80) = true → isAscii (ascii s) :=
    fun s hs => isAscii_ascii hs
  refine isAscii_append (isAscii_append (hplain _ (by decide)) ?_) (hplain _ (by decide))
  refine isAscii_append (isAscii_append (isAscii_append
    (isAscii_quote (hplain _ (by decide))) (hplain _ (by decide))) (isAscii_quote h.1)) ?_
  refine isAscii_append (hplain _ (by decide)) ?_
  exact isAscii_append (isAscii_append (isAscii_quote (hplain _ (by decide)))
    (hplain _ (by decide))) (isAscii_quote h.2)

/-- **A cursor is read back.** -/
theorem decodeCursor_encodeCursor {c : DeliveryCursor} (h : isAscii c.createdAt ∧ isAscii c.id)
    (hne : c.createdAt ≠ [] ∧ c.id ≠ []) :
    decodeCursor (encodeCursor c) = some ⟨.str c.createdAt, .str c.id⟩ := by
  have htext := isAscii_cursorJson h
  have hbytes : ofBase64Url (encodeCursor c) = encodeUtf8 (cursorJson c).stringify :=
    ofBase64Url_toBase64Url fun b hb => lt_of_mem_encodeUtf8 hb
  have hparse : parse (decodeUtf8 (ofBase64Url (encodeCursor c))) = some (cursorJson c) := by
    rw [hbytes, decodeUtf8_encodeUtf8 htext]
    apply parse_stringify
    rfl
  have hfields : field? (ascii "createdAt") (cursorJson c) = some (.str c.createdAt) ∧
      field? (ascii "id") (cursorJson c) = some (.str c.id) := ⟨rfl, rfl⟩
  rw [decodeCursor, hparse]
  simp only [hfields.1, hfields.2, truthy]
  simp [hne.1, hne.2]

theorem isAscii_isoText {t : ℕ} {x : Text} (h : isoText t = some x) : isAscii (codeUnits x) :=
  isAscii_codeUnits fun _ hc => toNat_lt_of_mem_isoText h hc

theorem isAscii_uuid (u : Uuid) : isAscii (codeUnits u.text) := by
  refine isAscii_codeUnits fun c hc => ?_
  by_cases hdash : c = '-'
  · subst hdash
    decide
  · have hmem : c ∈ u.digits := by
      rw [← Uuid.filter_text]
      exact List.mem_filter.2 ⟨hc, by simpa using hdash⟩
    obtain ⟨d, hd, rfl⟩ := List.mem_map.1 hmem
    have hall : ∀ d < 16, (hexChar d).toNat < 0x80 := by decide
    exact hall d (lt_of_mem_hexDigits hd)

theorem codeUnits_ne_nil {t : Text} (h : t ≠ []) : codeUnits t ≠ [] := by
  obtain ⟨c, t, rfl⟩ := List.exists_cons_of_ne_nil h
  have hone : charCodeUnits c ≠ [] := by
    unfold charCodeUnits
    split_ifs <;> simp
  intro hnil
  exact hone (List.append_eq_nil_iff.1 hnil).1

/-- A cursor that can be read. -/
theorem cursorFilter_of_decode {codec : CursorCodec} {raw : Text} {c : ParsedCursor} {date : ℤ}
    {id : Uuid} (h : decodeCursor raw = some c) (hdate : newDate codec c.createdAt = some date)
    (hid : cursorId codec c.id = some id) :
    cursorFilter codec (some raw) = .ok (after date id) := by
  cases raw with
  | nil =>
      have hnil : decodeCursor [] = none := rfl
      rw [hnil] at h
      cases h
  | cons u raw => simp only [cursorFilter, h, hdate, hid]

/-- **What the cursor after a delivery stands for**: its id and its date, in milliseconds. -/
theorem cursorFilter_cursorOf {codec : CursorCodec} {d : DeliveryRow} {c : Text}
    (huuid : codec.parseUuid (codeUnits d.id.text) = some d.id) (h : cursorOf d = some c) :
    cursorFilter codec (some c) = .ok (after (jsDate d.createdAt) d.id) := by
  rw [cursorOf] at h
  have hascii := isAscii_uuid d.id
  have hne : codeUnits d.id.text ≠ [] := by
    apply codeUnits_ne_nil
    intro hnil
    have hlen := d.id.length_text
    rw [hnil, List.length_nil] at hlen
    omega
  -- from here on only these facts about the text of the id count
  generalize codeUnits d.id.text = y at huuid h hascii hne
  obtain ⟨x, hx, rfl⟩ := Option.map_eq_some_iff.1 h
  have hread : readIso x = some (jsDate d.createdAt) := readIso_isoText hx
  have hx0 : x ≠ [] := by
    intro hnil
    have hnone : readIso [] = none := rfl
    rw [hnil, hnone] at hread
    cases hread
  have hdate : newDate codec (.str (codeUnits x)) = some (jsDate d.createdAt : ℤ) := by
    simp only [newDate, decodeUnits_codeUnits, Option.bind_some, hread]
  exact cursorFilter_of_decode
    (decodeCursor_encodeCursor ⟨isAscii_isoText hx, hascii⟩ ⟨codeUnits_ne_nil hx0, hne⟩)
    hdate huuid

end DeliveriesService

end HookRelay
