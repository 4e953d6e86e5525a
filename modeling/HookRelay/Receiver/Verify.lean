import HookRelay.Worker.Signature

/-!
# The receiver: checking a signature

`verify` of the demo receiver: the three headers, the tolerance of the timestamp, the
signature under one of the secrets, and only then `JSON.parse` of the body.  The body is the
text `express.raw` hands over.

* `verify` — the check.  A timestamp that is no number passes the tolerance, because no
  comparison with `NaN` holds.
* `SignedMessage`, `Unforgeable` — what the sender signs, and the ideal of a MAC.
* `verify_ok` — what an accepted request must have passed.
* `verified_is_genuine` — an accepted request is one that was signed.
-/

namespace HookRelay

open Lib JsonText

namespace Receiver

/-- `TOLERANCE_SEC`. -/
def toleranceSec : ℕ := 300

/-- What `POST /hooks` looks at: three headers, each of which may be missing, and the body. -/
structure Request where
  deliveryId : Option CodeUnits
  timestamp : Option CodeUnits
  signature : Option CodeUnits
  body : CodeUnits
  deriving DecidableEq

/-- The answer of `verify`; it throws when the body is no JSON text. -/
inductive Checked where
  | refused (status : ℕ) (error : String)
  | threw
  | ok (deliveryId : CodeUnits) (body : Json)

/-- `Math.abs(Date.now() / 1000 - Number(timestamp)) > TOLERANCE_SEC`, with the exact value of the
text: a double would be the nearest one to it, and so at the edge the answers may differ. -/
def outOfTolerance (nowMs : ℕ) : JsNumber → Bool
  | .nan => false
  | .infinite _ => true
  | .finite x => (toleranceSec : ℚ) < |(nowMs : ℚ) / 1000 - x|

/-- The loop over the secrets.  The digests are compared as bytes; the expected one is ASCII,
so that is equality of the texts. -/
def matched (hmac : Hmac) (secrets : List CodeUnits) (text signature : CodeUnits) : Bool :=
  secrets.any fun s => versioned hmac s text = signature

/-- `verify`. -/
def verify (hmac : Hmac) (secrets : List CodeUnits) (nowMs : ℕ) (req : Request) : Checked :=
  match req.deliveryId, req.timestamp, req.signature with
  | some (d :: ds), some (t :: ts), some (g :: gs) =>
      if outOfTolerance nowMs (toNumber (t :: ts)) then
        .refused 400 "timestamp out of tolerance"
      else if matched hmac secrets (signedText (t :: ts) req.body) (g :: gs) then
        match parse req.body with
        | some v => .ok (d :: ds) v
        | none => .threw
      else .refused 401 "invalid signature"
  | _, _, _ => .refused 400 "missing HookRelay headers"

/-- An accepted request passed every check. -/
theorem verify_ok {hmac : Hmac} {secrets : List CodeUnits} {nowMs : ℕ} {req : Request}
    {id : CodeUnits} {v : Json} (h : verify hmac secrets nowMs req = .ok id v) :
    req.deliveryId = some id ∧ parse req.body = some v ∧ ∃ timestamp signature,
      req.timestamp = some timestamp ∧ req.signature = some signature ∧
      outOfTolerance nowMs (toNumber timestamp) = false ∧
      ∃ s ∈ secrets, versioned hmac s (signedText timestamp req.body) = signature := by
  unfold verify at h
  split at h
  · rename_i d ds t ts g gs hd ht hg
    split_ifs at h with htol hmatch
    split at h
    · rename_i w hw
      cases h
      obtain ⟨s, hs, heq⟩ := List.any_eq_true.1 hmatch
      exact ⟨hd, hw, t :: ts, g :: gs, ht, hg, by simpa using htol, s, hs, by simpa using heq⟩
    · cases h
  · cases h

/-- A request that passes every check is accepted. -/
theorem verify_eq_ok {hmac : Hmac} {secrets : List CodeUnits} {nowMs : ℕ} {req : Request}
    {id timestamp signature : CodeUnits} {v : Json} (hid : req.deliveryId = some id)
    (htime : req.timestamp = some timestamp) (hsig : req.signature = some signature)
    (hne : id ≠ [] ∧ timestamp ≠ [] ∧ signature ≠ [])
    (htol : outOfTolerance nowMs (toNumber timestamp) = false)
    (hmatch : matched hmac secrets (signedText timestamp req.body) signature = true)
    (hparse : parse req.body = some v) : verify hmac secrets nowMs req = .ok id v := by
  obtain ⟨d, ds, rfl⟩ := List.exists_cons_of_ne_nil hne.1
  obtain ⟨t, ts, rfl⟩ := List.exists_cons_of_ne_nil hne.2.1
  obtain ⟨g, gs, rfl⟩ := List.exists_cons_of_ne_nil hne.2.2
  unfold verify
  rw [hid, htime, hsig]
  simp only [htol, hmatch, hparse, Bool.false_eq_true, if_false, if_true]

/-! ## What was signed -/

/-- A message that the sender signed.  The numbers of the payload are written as JSON numbers. -/
structure SignedMessage where
  timestampSec : ℕ
  eventId : CodeUnits
  type : CodeUnits
  occurredAt : CodeUnits
  payload : List (CodeUnits × Json)
  valid : Json.validFields payload = true

def SignedMessage.body (m : SignedMessage) : CodeUnits :=
  deliveryBody m.eventId m.type m.occurredAt (.obj m.payload)

/-- The text under the MAC. -/
def SignedMessage.text (m : SignedMessage) : CodeUnits :=
  signedText (decimalText m.timestampSec) m.body

/-- The ideal of a MAC: the signature verifies under a secret only for texts that the sender
signed with it. -/
def Unforgeable (hmac : Hmac) (signed : CodeUnits → SignedMessage → Prop)
    (secrets : List CodeUnits) (signature : CodeUnits) : Prop :=
  ∀ s ∈ secrets, ∀ text, versioned hmac s text = signature → ∃ m, signed s m ∧ m.text = text

/-- A timestamp within the tolerance. -/
theorem within_of_not_outOfTolerance {nowMs n : ℕ}
    (h : outOfTolerance nowMs (toNumber (decimalText n)) = false) :
    |(nowMs : ℚ) / 1000 - n| ≤ 300 := by
  rw [toNumber_decimalText] at h
  have := of_decide_eq_false h
  simpa [toleranceSec] using this

/-- **A signature that verifies fixes timestamp and body.**  Whatever the three headers and the
body of an accepted request are: its timestamp is that of a message signed with one of the
secrets, its body is the body of that message, and the timestamp is a number within 300
seconds of now. -/
theorem verified_is_genuine (hmac : Hmac) (signed : CodeUnits → SignedMessage → Prop)
    (secrets : List CodeUnits) (nowMs : ℕ) (req : Request) (id : CodeUnits) (v : Json)
    (hmac_ideal : ∀ signature, req.signature = some signature →
      Unforgeable hmac signed secrets signature)
    (h : verify hmac secrets nowMs req = .ok id v) :
    ∃ s ∈ secrets, ∃ m, signed s m ∧ req.timestamp = some (decimalText m.timestampSec) ∧
      req.body = m.body ∧ toNumber (decimalText m.timestampSec) = .finite m.timestampSec ∧
      |(nowMs : ℚ) / 1000 - m.timestampSec| ≤ 300 := by
  obtain ⟨-, hbody, timestamp, signature, htime, hsig, htol, s, hs, heq⟩ := verify_ok h
  obtain ⟨m, hm, htext⟩ := hmac_ideal signature hsig s hs _ heq
  have hvalid : (Json.obj m.payload).valid = true := by
    rw [Json.valid]
    exact m.valid
  obtain ⟨rfl, hsame⟩ := signedText_split hvalid hbody htext.symm
  exact ⟨s, hs, m, hm, htime, hsame, toNumber_decimalText _, within_of_not_outOfTolerance htol⟩

namespace Sample

def secret : CodeUnits := ascii "whsec_demo"

/-- An event with an empty payload, signed 1000 seconds after 1970. -/
def message : SignedMessage where
  timestampSec := 1000
  eventId := ascii "00000000-0000-0000-0000-000000000001"
  type := ascii "a.b"
  occurredAt := ascii "1970-01-01T00:00:00.000Z"
  payload := []
  valid := rfl

/-- `HMAC-SHA256` at this message, and nothing elsewhere. -/
def hmac : Hmac := fun s text =>
  if s = secret ∧ text = message.text then
    ascii "c4acaa1d85494b58c10c2bd858c6af46a664938d1d0871f1c3e6f9769c106fd7"
  else []

def signed (s : CodeUnits) (m : SignedMessage) : Prop := s = secret ∧ m = message

def signature : CodeUnits := versioned hmac secret message.text

/-- The request as it was sent. -/
def request : Request :=
  ⟨some (ascii "d-1"), some (decimalText 1000), some signature, message.body⟩

theorem signature_eq : signature =
    ascii "v1=c4acaa1d85494b58c10c2bd858c6af46a664938d1d0871f1c3e6f9769c106fd7" := by
  rw [signature, versioned, hmac, if_pos ⟨rfl, rfl⟩]
  rfl

theorem unforgeable : Unforgeable hmac signed [secret] signature := by
  intro s hs text h
  rw [List.mem_singleton] at hs
  subst hs
  by_cases ht : text = message.text
  · exact ⟨message, ⟨rfl, rfl⟩, ht.symm⟩
  · rw [versioned, hmac, if_neg fun hc => ht hc.2, signature_eq] at h
    exact absurd h (by decide)

/-- What the body of the message says. -/
def content : Json :=
  .obj [(ascii "eventId", .str message.eventId), (ascii "type", .str message.type),
    (ascii "occurredAt", .str message.occurredAt), (ascii "payload", .obj [])]

theorem parse_body : parse message.body = some content := by
  apply parse_deliveryBody
  rw [Json.valid]
  exact message.valid

theorem outOfTolerance_request : outOfTolerance 1200000 (toNumber (decimalText 1000)) = false := by
  rw [toNumber_decimalText]
  apply decide_eq_false
  norm_num [toleranceSec]

theorem matched_request : matched hmac [secret] message.text signature = true :=
  List.any_eq_true.2 ⟨secret, by simp, decide_eq_true rfl⟩

/-- It is accepted under any delivery id. -/
theorem verify_request {id : CodeUnits} (hid : id ≠ []) :
    verify hmac [secret] 1200000 { request with deliveryId := some id } = .ok id content :=
  verify_eq_ok rfl rfl rfl
    ⟨hid, decimalText_ne_nil 1000, by rw [signature_eq]; decide⟩
    outOfTolerance_request matched_request parse_body

end Sample

/-- At a request as the sender made it. -/
theorem verified_is_genuine_at_request :
    verify Sample.hmac [Sample.secret] 1200000 Sample.request =
      .ok (ascii "d-1") Sample.content ∧
    ∃ s ∈ [Sample.secret], ∃ m, Sample.signed s m ∧
      Sample.request.timestamp = some (decimalText m.timestampSec) ∧
      Sample.request.body = m.body ∧
      toNumber (decimalText m.timestampSec) = .finite m.timestampSec ∧
      |((1200000 : ℕ) : ℚ) / 1000 - m.timestampSec| ≤ 300 := by
  have hv : verify Sample.hmac [Sample.secret] 1200000 Sample.request =
      .ok (ascii "d-1") Sample.content := Sample.verify_request (by decide)
  refine ⟨hv, verified_is_genuine Sample.hmac Sample.signed [Sample.secret] 1200000
    Sample.request (ascii "d-1") Sample.content (fun signature hs => ?_) hv⟩
  cases hs
  exact Sample.unforgeable

end Receiver

end HookRelay
