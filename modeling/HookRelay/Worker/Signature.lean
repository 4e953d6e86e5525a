import HookRelay.Lib.IsoDate
import HookRelay.Data.Numbers
import HookRelay.Data.JsonRoundTrip
import HookRelay.Data.Schema

/-!
# The signed request

`signature.ts` and the part of `process` that builds a request: the body is the JSON text of
the event, and what is signed is the timestamp, a dot and the body.  `HMAC-SHA256` is a
parameter.

* `signDeliveryBody`, `buildDeliveryHeaders` — the signature and the headers.
* `outgoing` — the request of one attempt.
* `signedText_split` — **a signed text can be split at one dot only**: where the timestamp
  ends.  The text has no framing, and bodies are full of dots.
-/

namespace HookRelay

open Lib JsonText

/-- `createHmac('sha256', secret).update(text).digest('hex')`. -/
abbrev Hmac := CodeUnits → CodeUnits → CodeUnits

/-- The text that is signed: `timestamp.body`. -/
def signedText (timestamp body : CodeUnits) : CodeUnits := timestamp ++ dot :: body

/-- `v1=` and the digest of a text. -/
def versioned (hmac : Hmac) (secret text : CodeUnits) : CodeUnits := ascii "v1=" ++ hmac secret text

/-- `signDeliveryBody`.  The seconds are given as a template writes them. -/
def signDeliveryBody (hmac : Hmac) (secret timestampSec body : CodeUnits) : CodeUnits :=
  versioned hmac secret (signedText timestampSec body)

/-- `DeliveryHeaders`. -/
structure DeliveryHeaders where
  contentType : CodeUnits
  userAgent : CodeUnits
  event : CodeUnits
  deliveryId : CodeUnits
  timestamp : CodeUnits
  signature : CodeUnits
  deriving DecidableEq

/-- `buildDeliveryHeaders`.  The seconds are given as `String` writes them. -/
def buildDeliveryHeaders (eventType deliveryId timestampSec signature : CodeUnits) :
    DeliveryHeaders :=
  { contentType := ascii "application/json", userAgent := ascii "HookRelay/1.0",
    event := eventType, deliveryId := deliveryId, timestamp := timestampSec,
    signature := signature }

/-- `JSON.stringify({ eventId, type, occurredAt, payload })`. -/
def deliveryBody (eventId type occurredAt : CodeUnits) (payload : Json) : CodeUnits :=
  (Json.obj [(ascii "eventId", .str eventId), (ascii "type", .str type),
    (ascii "occurredAt", .str occurredAt), (ascii "payload", payload)]).stringify

/-- A request on its way to an endpoint. -/
structure Outgoing where
  headers : DeliveryHeaders
  body : CodeUnits
  deriving DecidableEq

/-- The request that `process` sends for a delivery of an event; there is none if the date of
the event has no text. -/
def outgoing (hmac : Hmac) (secret : CodeUnits) (nowMs : ℕ) (deliveryId : Uuid) (e : EventRow) :
    Option Outgoing :=
  (isoText (jsDate e.createdAt)).map fun occurredAt =>
    let body := deliveryBody (codeUnits e.id.text) (codeUnits e.type) (codeUnits occurredAt)
      e.payload
    let timestampSec := decimalText (nowMs / 1000)
    ⟨buildDeliveryHeaders (codeUnits e.type) (codeUnits deliveryId.text) timestampSec
      (signDeliveryBody hmac secret timestampSec body), body⟩

/-! ## Splitting a signed text -/

/-- A body is the text of an object. -/
theorem deliveryBody_eq (eventId type occurredAt : CodeUnits) (payload : Json) :
    ∃ t, deliveryBody eventId type occurredAt payload = lbrace :: t := ⟨_, rfl⟩

theorem parse_deliveryBody {eventId type occurredAt : CodeUnits} {payload : Json}
    (h : payload.valid = true) :
    parse (deliveryBody eventId type occurredAt payload) =
      some (.obj [(ascii "eventId", .str eventId), (ascii "type", .str type),
        (ascii "occurredAt", .str occurredAt), (ascii "payload", payload)]) := by
  apply parse_stringify
  simp [Json.valid, Json.validFields, h]

theorem dot_notMem_decimalText (n : ℕ) : dot ∉ decimalText n := by
  intro h
  exact absurd (isDigit_of_mem_decimalText h) (by decide)

/-- Where a text is split at a dot and its first part has none, another dot lies in the rest. -/
theorem append_dot_eq {a b t r : CodeUnits} (ha : dot ∉ a) (h : t ++ dot :: r = a ++ dot :: b) :
    (t = a ∧ r = b) ∨ ∃ p, b = p ++ dot :: r := by
  induction a generalizing t with
  | nil =>
      cases t with
      | nil => exact .inl ⟨rfl, (List.cons.inj h).2⟩
      | cons u t => exact .inr ⟨t, (List.cons.inj h).2.symm⟩
  | cons c a ih =>
      have hc : c ≠ dot := fun hc => ha (by simp [hc])
      cases t with
      | nil => exact absurd (List.cons.inj h).1.symm hc
      | cons u t =>
          obtain ⟨rfl, htail⟩ := List.cons.inj h
          rcases ih (fun hm => ha (List.mem_cons_of_mem _ hm)) htail with ⟨rfl, rfl⟩ | hp
          · exact .inl ⟨rfl, rfl⟩
          · exact .inr hp

/-- **One split only.**  If a signed text is a timestamp, a dot and a JSON text, these are the
timestamp and the body that were signed. -/
theorem signedText_split {n : ℕ} {eventId type occurredAt timestamp body : CodeUnits}
    {payload v : Json} (hvalid : payload.valid = true) (hbody : parse body = some v)
    (h : signedText timestamp body =
      signedText (decimalText n) (deliveryBody eventId type occurredAt payload)) :
    timestamp = decimalText n ∧ body = deliveryBody eventId type occurredAt payload := by
  rcases append_dot_eq (dot_notMem_decimalText n) h with hsame | ⟨p, hp⟩
  · exact hsame
  · obtain ⟨t, ht⟩ := deliveryBody_eq eventId type occurredAt payload
    have hparse : parse (deliveryBody eventId type occurredAt payload) = some _ :=
      parse_deliveryBody hvalid
    rw [ht] at hparse hp
    rw [parse_after_dot hparse hp] at hbody
    cases hbody

end HookRelay
