import HookRelay.Lib.Framing
import HookRelay.Lib.Pattern
import HookRelay.Data.Buffer
import HookRelay.Data.Doubles
import HookRelay.Worker.Signature

/-!
# The digest of the headers

`digestHeaders` writes a map of headers as one string and hashes it; an attempt keeps the
digest.  The keys are sorted, and each is written with a colon and its value on a line.
Nothing is escaped.  `HMAC-SHA256` and `SHA-256` are parameters, with bytes as their result.

* `HeaderMap`, `canonical`, `digestHeaders` — a map, the string and its digest.
* `canonical_perm` — the order of the entries does not matter.
* `canonical_inj` — **the string determines the map**, where no key has a colon or a line feed,
  and no value a line feed.
* `framed_buildDeliveryHeaders` — the headers of a delivery are such a map.
* `timestamp_outgoing` — below `2 ^ 53` the digits of a clock are what `String` writes.
-/

namespace HookRelay

open Lib Lib.Pattern JsonText

abbrev lineFeed : UInt16 := 0x0A

/-! ## Maps of strings -/

/-- `Record<string, string>`: the entries of an object, in the order of `Object.keys`. -/
structure HeaderMap where
  entries : List (CodeUnits × CodeUnits)
  nodup : (entries.map Prod.fst).Nodup

namespace HeaderMap

def keys (h : HeaderMap) : List CodeUnits := h.entries.map Prod.fst

/-- `headers[k]`. -/
def get? (h : HeaderMap) (k : CodeUnits) : Option CodeUnits := h.entries.lookup k

/-- Equality of maps. -/
def Same (h h' : HeaderMap) : Prop := ∀ k, h.get? k = h'.get? k

/-- A map has the same entries as an equal one, in some order. -/
theorem same_iff_perm (h h' : HeaderMap) : h.Same h' ↔ h.entries.Perm h'.entries :=
  Framing.lookup_eq_iff_perm h.nodup h'.nodup

/-- `Object.keys(headers).sort()`. -/
def sortedKeys (h : HeaderMap) : List CodeUnits := h.keys.insertionSort unitsLe

/-- A map whose keys have no colon and no line feed, and whose values have no line feed. -/
structure Framed (h : HeaderMap) : Prop where
  nonempty : h.entries ≠ []
  colon_notMem : ∀ e ∈ h.entries, colon ∉ e.1
  lineFeed_notMem : ∀ e ∈ h.entries, lineFeed ∉ e.1 ∧ lineFeed ∉ e.2

end HeaderMap

/-! ## The string that is hashed -/

/-- One line. -/
def headerLine (e : CodeUnits × CodeUnits) : CodeUnits := e.1 ++ colon :: e.2

/-- The string that `digestHeaders` hashes. -/
def canonical (headers : HeaderMap) : CodeUnits :=
  [lineFeed].intercalate
    (headers.sortedKeys.map fun k => headerLine (k, (headers.get? k).getD []))

/-- `digest('hex')`. -/
def hexText (bytes : List UInt8) : CodeUnits :=
  bytes.flatMap fun b => (hexDigits 2 b.toNat).map fun d => UInt16.ofNat (hexChar d).toNat

def digestHeaders (sha256 : List ℕ → List UInt8) (headers : HeaderMap) : CodeUnits :=
  hexText (sha256 (encodeUtf8 (canonical headers)))

namespace HeaderMap

/-- The entries in the order in which they are written. -/
def sorted (h : HeaderMap) : List (CodeUnits × CodeUnits) :=
  h.sortedKeys.map fun k => (k, (h.get? k).getD [])

theorem canonical_eq (h : HeaderMap) :
    canonical h = [lineFeed].intercalate (h.sorted.map headerLine) := by
  rw [canonical, sorted, List.map_map]
  rfl

theorem sorted_perm (h : HeaderMap) : h.sorted.Perm h.entries := by
  have hkeys : h.sortedKeys.Perm h.keys := List.perm_insertionSort unitsLe h.keys
  have hentries := Framing.map_lookup_keys h.nodup []
  exact (hkeys.map _).trans (.of_eq hentries)

/-- Equal maps are written in one order. -/
theorem sorted_eq_of_perm {h h' : HeaderMap} (hp : h.entries.Perm h'.entries) :
    h.sorted = h'.sorted := by
  have hkeys : h.sortedKeys = h'.sortedKeys :=
    Framing.insertionSort_eq_of_perm unitsLe (hp.map Prod.fst)
  have hget : h.Same h' := (same_iff_perm h h').2 hp
  rw [sorted, sorted, hkeys]
  exact List.map_congr_left fun k _ => by rw [hget k]

end HeaderMap

theorem headerLine_inj {e e' : CodeUnits × CodeUnits} (he : colon ∉ e.1) (he' : colon ∉ e'.1)
    (h : headerLine e = headerLine e') : e = e' :=
  Prod.ext_iff.2 (Framing.append_separator_inj he he' h)

theorem lineFeed_notMem_headerLine {e : CodeUnits × CodeUnits}
    (h : lineFeed ∉ e.1 ∧ lineFeed ∉ e.2) : lineFeed ∉ headerLine e := by
  have hcolon : lineFeed ≠ colon := by decide
  simp [headerLine, h.1, h.2, hcolon]

/-- **The order of the entries does not matter.** -/
theorem canonical_perm {h h' : HeaderMap} (hp : h.entries.Perm h'.entries) :
    canonical h = canonical h' := by
  rw [h.canonical_eq, h'.canonical_eq, HeaderMap.sorted_eq_of_perm hp]

/-- **The string determines the map.** -/
theorem canonical_inj {h h' : HeaderMap} (hf : h.Framed) (hf' : h'.Framed)
    (heq : canonical h = canonical h') : h.entries.Perm h'.entries := by
  have hmem : ∀ (m : HeaderMap), ∀ e ∈ m.sorted, e ∈ m.entries := fun m e he =>
    m.sorted_perm.mem_iff.1 he
  have hne : ∀ m : HeaderMap, m.Framed → m.sorted.map headerLine ≠ [] := by
    intro m hm hnil
    rw [List.map_eq_nil_iff] at hnil
    exact hm.nonempty (hnil ▸ m.sorted_perm).nil_eq.symm
  have hlines : ∀ m : HeaderMap, m.Framed → ∀ l ∈ m.sorted.map headerLine, lineFeed ∉ l := by
    intro m hm l hl
    obtain ⟨e, he, rfl⟩ := List.mem_map.1 hl
    exact lineFeed_notMem_headerLine (hm.lineFeed_notMem e (hmem m e he))
  -- the lines are those between the line feeds
  rw [h.canonical_eq, h'.canonical_eq] at heq
  have hmap : h.sorted.map headerLine = h'.sorted.map headerLine :=
    Framing.intercalate_inj (hne h hf) (hne h' hf') (hlines h hf) (hlines h' hf') heq
  -- and a key is what stands before the first colon of its line
  have hsorted : h.sorted = h'.sorted :=
    Framing.map_inj_on (fun e he e' he' => headerLine_inj
      (hf.colon_notMem e (hmem h e he)) (hf'.colon_notMem e' (hmem h' e' he'))) hmap
  exact h.sorted_perm.symm.trans (hsorted ▸ h'.sorted_perm)

/-- Headers in another order have the same digest. -/
theorem digestHeaders_perm (sha256 : List ℕ → List UInt8) {h h' : HeaderMap}
    (hp : h.entries.Perm h'.entries) : digestHeaders sha256 h = digestHeaders sha256 h' := by
  rw [digestHeaders, digestHeaders, canonical_perm hp]

/-! ## The headers of a delivery -/

namespace DeliveryHeaders

/-- The names of the headers, in the order of the object literal. -/
def names : List CodeUnits :=
  [ascii "content-type", ascii "user-agent", ascii "x-hookrelay-event", ascii "x-delivery-id",
    ascii "x-hookrelay-timestamp", ascii "x-hookrelay-signature"]

theorem nodup_names : names.Nodup := by decide

/-- The names need no escape. -/
theorem framed_names : ∀ k ∈ names, colon ∉ k ∧ lineFeed ∉ k := by decide

/-- The values of the headers, in the same order. -/
def values (h : DeliveryHeaders) : List CodeUnits :=
  [h.contentType, h.userAgent, h.event, h.deliveryId, h.timestamp, h.signature]

def toMap (h : DeliveryHeaders) : HeaderMap := ⟨names.zip h.values, nodup_names⟩

theorem framed_toMap {h : DeliveryHeaders} (hvalues : ∀ v ∈ h.values, lineFeed ∉ v) :
    h.toMap.Framed where
  nonempty := List.cons_ne_nil _ _
  colon_notMem e he := (framed_names e.1 (List.of_mem_zip he).1).1
  lineFeed_notMem e he :=
    ⟨(framed_names e.1 (List.of_mem_zip he).1).2, hvalues e.2 (List.of_mem_zip he).2⟩

/-- The names give the values back. -/
theorem map_get_names (h : DeliveryHeaders) :
    names.map (fun k => (h.toMap.get? k).getD []) = h.values := by
  have hentries := congrArg (List.map Prod.snd) (Framing.map_lookup_keys h.toMap.nodup [])
  rwa [List.map_map] at hentries

/-- Headers are equal if they are equal as maps. -/
theorem eq_of_same {h h' : DeliveryHeaders} (hsame : h.toMap.Same h'.toMap) : h = h' := by
  have hvalues : h.values = h'.values := by
    rw [← map_get_names, ← map_get_names]
    exact List.map_congr_left fun k _ => by rw [hsame k]
  cases h
  cases h'
  simpa [values] using hvalues

end DeliveryHeaders

/-! ## Values without a line feed -/

theorem lineFeed_notMem_of_isVisible {t : CodeUnits} (h : ∀ u ∈ t, isVisible u = true) :
    lineFeed ∉ t := fun hm => absurd (h lineFeed hm) (by decide)

theorem isVisible_hexText (bytes : List UInt8) : ∀ u ∈ hexText bytes, isVisible u = true := by
  have hdigit : ∀ d < 16, isVisible (UInt16.ofNat (hexChar d).toNat) = true := by decide
  intro u hu
  obtain ⟨b, -, hu⟩ := List.mem_flatMap.1 hu
  obtain ⟨d, hd, rfl⟩ := List.mem_map.1 hu
  exact hdigit d (lt_of_mem_hexDigits hd)

/-- The text of a UUID has hexadecimal digits and dashes. -/
theorem isVisible_uuid (id : Uuid) : ∀ u ∈ codeUnits id.text, isVisible u = true := by
  have hdigit : ∀ d < 16, (charCodeUnits (hexChar d)).all isVisible = true := by decide
  have hdash : (charCodeUnits '-').all isVisible = true := by decide
  intro u hu
  obtain ⟨c, hc, hu⟩ := List.mem_flatMap.1 hu
  by_cases hcd : c = '-'
  · exact List.all_eq_true.1 hdash u (hcd ▸ hu)
  · have hmem : c ∈ id.digits := by
      rw [← Uuid.filter_text]
      exact List.mem_filter.2 ⟨hc, by simpa using hcd⟩
    obtain ⟨d, hd, rfl⟩ := List.mem_map.1 hmem
    exact List.all_eq_true.1 (hdigit d (lt_of_mem_hexDigits hd)) u hu

/-! ## Event types -/

/-- `[a-z0-9_]`. -/
def segmentUnits : CodeUnits := ascii "abcdefghijklmnopqrstuvwxyz0123456789_"

/-- `EVENT_TYPE_PATTERN`, `^[a-z0-9_]+(\.[a-z0-9_]+)+$`. -/
def eventTypePattern : RegularExpression UInt16 :=
  oneOrMore (oneOf segmentUnits) * oneOrMore (.char dot * oneOrMore (oneOf segmentUnits))

/-- `EVENT_TYPE_PATTERN.test(eventType)`. -/
def isEventType (eventType : CodeUnits) : Bool := eventTypePattern.rmatch eventType

theorem isVisible_of_isEventType {eventType : CodeUnits} (h : isEventType eventType = true) :
    ∀ u ∈ eventType, isVisible u = true := by
  have hsegment : Only (fun u => isVisible u = true) (oneOrMore (oneOf segmentUnits)) :=
    only_oneOrMore (only_oneOf (List.all_eq_true.1 (by decide)))
  have hvisible : isVisible dot = true := by decide
  have honly : Only (fun u => isVisible u = true) eventTypePattern :=
    ⟨hsegment, only_oneOrMore ⟨hvisible, hsegment⟩⟩
  exact honly.of_matches ((RegularExpression.rmatch_iff_matches' _ _).1 h)

/-! ## The headers of `buildDeliveryHeaders` -/

/-- `createHmac('sha256', secret).update(text).digest('hex')`, of the bytes of the code. -/
def hexHmac (mac : CodeUnits → CodeUnits → List UInt8) : Hmac := fun secret text =>
  hexText (mac secret text)

theorem lineFeed_notMem_versioned (mac : CodeUnits → CodeUnits → List UInt8)
    (secret text : CodeUnits) : lineFeed ∉ versioned (hexHmac mac) secret text := by
  apply lineFeed_notMem_of_isVisible
  exact List.forall_mem_append.2 ⟨List.all_eq_true.1 (by decide), isVisible_hexText _⟩

/-- **The headers of a delivery are framed**, whatever visible text the seconds have. -/
theorem framed_buildDeliveryHeaders {eventType timestampSec signature : CodeUnits}
    {deliveryId : Uuid} (hevent : isEventType eventType = true)
    (htimestamp : ∀ u ∈ timestampSec, isVisible u = true) (hsignature : lineFeed ∉ signature) :
    (buildDeliveryHeaders eventType (codeUnits deliveryId.text) timestampSec
      signature).toMap.Framed := by
  apply DeliveryHeaders.framed_toMap
  simp only [DeliveryHeaders.values, buildDeliveryHeaders, List.forall_mem_cons]
  refine ⟨by decide, by decide, ?_, ?_, ?_, hsignature, by simp⟩
  · exact lineFeed_notMem_of_isVisible (isVisible_of_isEventType hevent)
  · exact lineFeed_notMem_of_isVisible (isVisible_uuid deliveryId)
  · exact lineFeed_notMem_of_isVisible htimestamp

/-- The seconds of a clock are written as `String` writes the number. -/
theorem timestamp_outgoing {hmac : Hmac} {secret : CodeUnits} {nowMs : ℕ} {deliveryId : Uuid}
    {e : EventRow} {req : Outgoing} (hclock : nowMs / 1000 < 2 ^ 53)
    (h : outgoing hmac secret nowMs deliveryId e = some req) :
    req.headers.timestamp = numberText (.finite (nowMs / 1000 : ℕ)) ∧
    req.headers.signature =
      signDeliveryBody hmac secret (numberText (.finite (nowMs / 1000 : ℕ))) req.body := by
  obtain ⟨occurredAt, -, rfl⟩ := Option.map_eq_some_iff.1 h
  rw [numberText_eq_decimalText hclock]
  exact ⟨rfl, rfl⟩

/-- The request of an attempt has framed headers. -/
theorem framed_outgoing (mac : CodeUnits → CodeUnits → List UInt8) {secret : CodeUnits}
    {nowMs : ℕ} {deliveryId : Uuid} {e : EventRow} {req : Outgoing}
    (hevent : isEventType (codeUnits e.type) = true)
    (h : outgoing (hexHmac mac) secret nowMs deliveryId e = some req) :
    req.headers.toMap.Framed := by
  obtain ⟨occurredAt, -, rfl⟩ := Option.map_eq_some_iff.1 h
  exact framed_buildDeliveryHeaders hevent
    (fun u hu => isVisible_of_isDigit (isDigit_of_mem_decimalText hu))
    (lineFeed_notMem_versioned mac secret _)

/-- **The string of an attempt tells its headers**: the event type, the delivery, the time and
the signature. -/
theorem headers_eq_of_canonical (mac : CodeUnits → CodeUnits → List UInt8)
    {secret secret' : CodeUnits} {nowMs nowMs' : ℕ} {deliveryId deliveryId' : Uuid}
    {e e' : EventRow} {req req' : Outgoing}
    (hevent : isEventType (codeUnits e.type) = true)
    (hevent' : isEventType (codeUnits e'.type) = true)
    (h : outgoing (hexHmac mac) secret nowMs deliveryId e = some req)
    (h' : outgoing (hexHmac mac) secret' nowMs' deliveryId' e' = some req')
    (heq : canonical req.headers.toMap = canonical req'.headers.toMap) :
    req.headers = req'.headers := by
  have hperm := canonical_inj (framed_outgoing mac hevent h) (framed_outgoing mac hevent' h') heq
  exact DeliveryHeaders.eq_of_same ((HeaderMap.same_iff_perm _ _).2 hperm)

namespace HeaderDigest

/-- **The digest is a faithful fingerprint.**  The order of the entries does not matter, framed
maps with one string are equal, and the headers of a delivery are framed: for any delivery, any
number of seconds and any signature that was made by `signDeliveryBody`. -/
theorem fingerprint_faithful (mac : CodeUnits → CodeUnits → List UInt8) :
    (∀ h h' : HeaderMap, h.entries.Perm h'.entries → canonical h = canonical h') ∧
    (∀ h h' : HeaderMap, h.Framed → h'.Framed → canonical h = canonical h' → h.Same h') ∧
    ∀ (eventType : CodeUnits) (deliveryId : Uuid) (timestampSec signedSec : JsNumber)
      (secret body : CodeUnits), isEventType eventType = true →
      (buildDeliveryHeaders eventType (codeUnits deliveryId.text) (numberText timestampSec)
        (signDeliveryBody (hexHmac mac) secret (numberText signedSec) body)).toMap.Framed := by
  refine ⟨fun h h' hperm => canonical_perm hperm, ?_, ?_⟩
  · intro h h' hf hf' heq
    exact (h.same_iff_perm h').2 (canonical_inj hf hf' heq)
  · intro eventType deliveryId timestampSec signedSec secret body hevent
    exact framed_buildDeliveryHeaders hevent (isVisible_numberText timestampSec)
      (lineFeed_notMem_versioned mac secret _)

namespace Sample

/-- A map of two entries. -/
def ab : HeaderMap := ⟨[(ascii "a", ascii "1"), (ascii "b", ascii "2")], by decide⟩

/-- The same map, written the other way around. -/
def ba : HeaderMap := ⟨[(ascii "b", ascii "2"), (ascii "a", ascii "1")], by decide⟩

def mac : CodeUnits → CodeUnits → List UInt8 := fun _ _ => [0xAB]

theorem framed_ab : ab.Framed := ⟨by decide, by decide, by decide⟩

theorem framed_ba : ba.Framed := ⟨by decide, by decide, by decide⟩

theorem isEventType_created : isEventType (ascii "order.created") = true := by decide +kernel

example : canonical ba = ascii "a:1\nb:2" := by decide

end Sample

theorem fingerprint_faithful_at_two_orders :
    canonical Sample.ba = canonical Sample.ab ∧ Sample.ba.Same Sample.ab ∧
      (buildDeliveryHeaders (ascii "order.created") (codeUnits (Uuid.ofNat 1).text)
        (numberText (.finite 1755075600)) (signDeliveryBody (hexHmac Sample.mac) (ascii "whsec")
          (numberText (.finite 1755075600)) [])).toMap.Framed := by
  obtain ⟨horder, hsame, hheaders⟩ := fingerprint_faithful Sample.mac
  have hperm : Sample.ba.entries.Perm Sample.ab.entries := List.Perm.swap _ _ []
  have heq := horder _ _ hperm
  exact ⟨heq, hsame _ _ Sample.framed_ba Sample.framed_ab heq,
    hheaders _ _ _ _ _ _ Sample.isEventType_created⟩

end HeaderDigest

end HookRelay
