import Mathlib.Data.Nat.Bitwise
import HookRelay.Data.Buffer

/-!
# The cipher for stored secrets

`secret-cipher.ts`: the secret of an endpoint is stored as `v1:<iv>:<tag>:<data>`, each
part in base64, encrypted with AES-256-GCM under the key of the configuration.

* `Gcm` — the two directions of the cipher under that key; `Gcm.Ideal` is what is assumed
  of it.  `Buffer.from(raw, 'base64')` is a parameter: nothing depends on what it makes of
  a malformed string.
* `encrypt`, `decrypt` — as in the source, with every way to fail.
* `Authentic` — a stored string is, part for part, that of a call of `encrypt`.
* `decrypt_authentic_iff` — exactly when a string that decrypts is authentic: `setAuthTag`
  takes shorter tags as well.
-/

namespace HookRelay

/-- AES-256-GCM under one key.  Bytes are numbers. -/
structure Gcm where
  /-- The data and the tag for an iv and a plaintext. -/
  sealed : List ℕ → List ℕ → List ℕ × List ℕ
  /-- The plaintext for an iv, a tag and the data, if `final` finds the tag to be right. -/
  opened : List ℕ → List ℕ → List ℕ → Option (List ℕ)

namespace SecretCipher

/-- How `decrypt` throws. -/
inductive CipherError where
  /-- `알 수 없는 시크릿 암호문 포맷입니다.` -/
  | unknownFormat
  /-- `createDecipheriv` takes no empty iv. -/
  | invalidIv
  /-- `setAuthTag` takes no tag of this length. -/
  | invalidAuthTag
  /-- `final`: unable to authenticate data. -/
  | unauthenticated
  deriving DecidableEq

/-- A call of `encrypt`, with the bytes drawn for its iv. -/
structure Encryption where
  plaintext : CodeUnits
  iv : List ℕ

namespace Encryption

def data (gcm : Gcm) (call : Encryption) : List ℕ :=
  (gcm.sealed call.iv (encodeUtf8 call.plaintext)).1

def tag (gcm : Gcm) (call : Encryption) : List ℕ :=
  (gcm.sealed call.iv (encodeUtf8 call.plaintext)).2

end Encryption

/-- `encrypt`. -/
def encrypt (gcm : Gcm) (call : Encryption) : CodeUnits :=
  codeUnits ("v1:".toList ++ toBase64 call.iv ++ ":".toList ++ toBase64 (call.tag gcm) ++
    ":".toList ++ toBase64 (call.data gcm))

/-- The tag lengths `setAuthTag` takes when no `authTagLength` was given. -/
def acceptsTagLength (n : ℕ) : Bool := n = 4 || n = 8 || (12 ≤ n && n ≤ 16)

/-- The iv, tag and data of a stored string, as they are written in it. -/
def fields (stored : CodeUnits) : Option (CodeUnits × CodeUnits × CodeUnits) :=
  match stored.splitOn 0x3A with
  | version :: ivB64 :: tagB64 :: dataB64 :: _ =>
      if version ≠ codeUnits "v1".toList || ivB64 = [] || tagB64 = [] || dataB64 = [] then none
      else some (ivB64, tagB64, dataB64)
  | _ => none

section

variable (gcm : Gcm) (fromBase64 : CodeUnits → List ℕ)

/-- `decrypt`. -/
def decrypt (stored : CodeUnits) : Except CipherError CodeUnits :=
  match fields stored with
  | none => .error .unknownFormat
  | some (ivB64, tagB64, dataB64) =>
      if fromBase64 ivB64 = [] then .error .invalidIv
      else if acceptsTagLength (fromBase64 tagB64).length then
        match gcm.opened (fromBase64 ivB64) (fromBase64 tagB64) (fromBase64 dataB64) with
        | none => .error .unauthenticated
        | some plaintext => .ok (decodeUtf8 plaintext)
      else .error .invalidAuthTag

/-- The bytes that `decrypt` hands to the cipher: iv, tag and data. -/
def decoded (stored : CodeUnits) : Option (List ℕ × List ℕ × List ℕ) :=
  (fields stored).map fun f => (fromBase64 f.1, fromBase64 f.2.1, fromBase64 f.2.2)

/-! ## What is assumed of the cipher -/

/-- The cipher is ideal for the calls of `encrypt` that were made under its key. -/
structure Ideal (calls : List Encryption) : Prop where
  /-- `getAuthTag` gives 16 bytes. -/
  tag_length : ∀ iv plaintext, (gcm.sealed iv plaintext).2.length = 16
  /-- Under one iv, different plaintexts have different data. -/
  data_injective : ∀ iv p q, (gcm.sealed iv p).1 = (gcm.sealed iv q).1 → p = q
  /-- Only what was encrypted can be decrypted, and only with leading bytes of its tag. -/
  authentic : ∀ iv tag data p, gcm.opened iv tag data = some p → ∃ call ∈ calls,
    call.iv = iv ∧ call.data gcm = data ∧ tag <+: call.tag gcm ∧ p = encodeUtf8 call.plaintext

/-! ## Authentic strings -/

/-- The iv, the tag and the data are those of a call of `encrypt`, the tag in full, and the
plaintext is the one that call was given. -/
def Authentic (calls : List Encryption) (stored plaintext : CodeUnits) : Prop :=
  ∃ call ∈ calls, decoded fromBase64 stored = some (call.iv, call.tag gcm, call.data gcm) ∧
    plaintext = call.plaintext

/-- The tag decoded from the string has 16 bytes. -/
def FullTag (stored : CodeUnits) : Prop :=
  ∃ iv tag data, decoded fromBase64 stored = some (iv, tag, data) ∧ tag.length = 16

/-- The iv and the data are those of a call of `encrypt` whose plaintext has no unpaired
surrogate. -/
def WellFormedSource (calls : List Encryption) (stored : CodeUnits) : Prop :=
  ∃ call ∈ calls, ∃ tag, decoded fromBase64 stored = some (call.iv, tag, call.data gcm) ∧
    ∀ i, ¬ UnpairedAt call.plaintext i

variable {gcm : Gcm} {fromBase64 : CodeUnits → List ℕ} {calls : List Encryption}
  {stored plaintext : CodeUnits}

/-- What a string that decrypts was decoded to, and what it was decrypted to. -/
theorem decrypt_eq_ok (h : decrypt gcm fromBase64 stored = .ok plaintext) : ∃ iv tag data p,
    decoded fromBase64 stored = some (iv, tag, data) ∧ acceptsTagLength tag.length = true ∧
    gcm.opened iv tag data = some p ∧ plaintext = decodeUtf8 p := by
  unfold decrypt at h
  cases hf : fields stored with
  | none => rw [hf] at h; cases h
  | some f =>
      obtain ⟨ivB64, tagB64, dataB64⟩ := f
      rw [hf] at h
      simp only at h
      split_ifs at h with hiv htag
      cases ho : gcm.opened (fromBase64 ivB64) (fromBase64 tagB64) (fromBase64 dataB64) with
      | none => rw [ho] at h; cases h
      | some p =>
          rw [ho] at h
          cases h
          exact ⟨_, _, _, p, by rw [decoded, hf]; rfl, htag, ho, rfl⟩

/-- A call is known by its iv and its data, up to what UTF-8 does not keep. -/
theorem Ideal.bytes_eq (hi : Ideal gcm calls) {c d : Encryption} (hiv : c.iv = d.iv)
    (hdata : c.data gcm = d.data gcm) :
    encodeUtf8 c.plaintext = encodeUtf8 d.plaintext ∧ c.tag gcm = d.tag gcm := by
  have hbytes : encodeUtf8 c.plaintext = encodeUtf8 d.plaintext := by
    refine hi.data_injective c.iv _ _ ?_
    unfold Encryption.data at hdata
    rw [hdata, hiv]
  refine ⟨hbytes, ?_⟩
  unfold Encryption.tag
  rw [hbytes, hiv]

/-- **When a stored secret is authentic in full.**  A string that decrypts is that of a call
of `encrypt`, with its whole tag and its plaintext, exactly when the tag decoded from it has
16 bytes and what was encrypted has no unpaired surrogate. -/
theorem decrypt_authentic_iff (gcm : Gcm) (fromBase64 : CodeUnits → List ℕ)
    (calls : List Encryption) (hi : Ideal gcm calls) (stored plaintext : CodeUnits)
    (h : decrypt gcm fromBase64 stored = .ok plaintext) :
    Authentic gcm fromBase64 calls stored plaintext ↔
      FullTag fromBase64 stored ∧ WellFormedSource gcm fromBase64 calls stored := by
  obtain ⟨iv, tag, data, p, hdec, -, hopen, rfl⟩ := decrypt_eq_ok h
  obtain ⟨call, hcall, rfl, rfl, hprefix, rfl⟩ := hi.authentic iv tag data p hopen
  rw [decodeUtf8_encodeUtf8_eq]
  constructor
  · rintro ⟨c, hc, hcdec, heq⟩
    rw [hdec, Option.some.injEq, Prod.mk.injEq, Prod.mk.injEq] at hcdec
    obtain ⟨hiv, rfl, hdata⟩ := hcdec
    refine ⟨⟨_, _, _, hdec, hi.tag_length _ _⟩, c, hc, c.tag gcm, by rw [hdec, hiv, hdata], ?_⟩
    -- the plaintext that came back is well-formed, and it is that of `c`
    have hwell : toWellFormed c.plaintext = c.plaintext := by
      calc toWellFormed c.plaintext = decodeUtf8 (encodeUtf8 c.plaintext) :=
            (decodeUtf8_encodeUtf8_eq _).symm
        _ = decodeUtf8 (encodeUtf8 call.plaintext) := by rw [(hi.bytes_eq hiv hdata).1]
        _ = c.plaintext := by rw [decodeUtf8_encodeUtf8_eq, heq]
    exact (toWellFormed_eq_self_iff _).1 hwell
  · rintro ⟨⟨iv', tag', data', hdec', hlen⟩, c, hc, tag'', hcdec, hwell⟩
    rw [hdec, Option.some.injEq, Prod.mk.injEq, Prod.mk.injEq] at hdec' hcdec
    obtain ⟨-, rfl, -⟩ := hdec'
    obtain ⟨hiv, -, hdata⟩ := hcdec
    obtain ⟨hbytes, htag⟩ := hi.bytes_eq hiv hdata
    have hfull : tag = call.tag gcm := hprefix.eq_of_length (by
      rw [hlen]
      exact (hi.tag_length _ _).symm)
    refine ⟨c, hc, by rw [hdec, hfull, htag, hiv, hdata], ?_⟩
    rw [← decodeUtf8_encodeUtf8_eq, hbytes, decodeUtf8_encodeUtf8_eq]
    exact (toWellFormed_eq_self_iff _).2 hwell

end

/-! ## One secret -/

namespace Sample

/-- Sixteen `U+0000`, encrypted with the iv of zeros. -/
def call : Encryption := ⟨List.replicate 16 0, List.replicate 12 0⟩

/-- The first block of the key stream, for the key of zeros and the iv of zeros. -/
def keyStream : List ℕ :=
  [0xCE, 0xA7, 0x40, 0x3D, 0x4D, 0x60, 0x6B, 0x6E, 0x07, 0x4E, 0xC5, 0xD3, 0xBA, 0xF3, 0x9D, 0x18]

/-- The tag of `call`. -/
def tag : List ℕ :=
  [0xD0, 0xD1, 0xC8, 0xA7, 0x99, 0x99, 0x6B, 0xF0, 0x26, 0x5B, 0x98, 0xB5, 0xD4, 0x8A, 0xB9, 0x19]

/-- Apply the key stream; it is not continued after its first block. -/
def applyStream : List ℕ → List ℕ → List ℕ
  | k :: ks, p :: ps => (k ^^^ p) :: applyStream ks ps
  | _, ps => ps

/-- The cipher at `call`. -/
def gcm : Gcm where
  sealed _ p := (applyStream keyStream p, tag)
  opened iv t data :=
    if iv = call.iv ∧ data = keyStream ∧ t <+: tag then some (List.replicate 16 0) else none

theorem applyStream_injective (ks : List ℕ) {p q : List ℕ} (h : applyStream ks p = applyStream ks q) :
    p = q := by
  induction ks generalizing p q with
  | nil =>
      cases p with
      | nil => cases q with
        | nil => rfl
        | cons b q => cases h
      | cons a p => cases q with
        | nil => cases h
        | cons b q => exact h
  | cons k ks ih =>
      cases p with
      | nil => cases q with
        | nil => rfl
        | cons b q => simp [applyStream] at h
      | cons a p => cases q with
        | nil => simp [applyStream] at h
        | cons b q =>
            simp only [applyStream, List.cons.injEq] at h
            have hhead : a = b := by
              rw [← Nat.xor_xor_cancel_left k a, h.1, Nat.xor_xor_cancel_left]
            rw [hhead, ih h.2]

theorem ideal : Ideal gcm [call] where
  tag_length := fun _ _ => rfl
  data_injective := fun _ _ _ h => applyStream_injective _ h
  authentic := by
    intro iv t data p h
    simp only [gcm, Option.ite_none_right_eq_some, Option.some.injEq] at h
    obtain ⟨⟨rfl, rfl, ht⟩, rfl⟩ := h
    exact ⟨call, List.mem_singleton_self _, rfl, by decide, ht, by decide⟩

/-- What `encrypt` stores. -/
def stored : CodeUnits :=
  codeUnits "v1:AAAAAAAAAAAAAAAA:0NHIp5mZa/AmW5i11Iq5GQ==:zqdAPU1ga24HTsXTuvOdGA==".toList

/-- The same with the first four bytes of the tag. -/
def truncated : CodeUnits := codeUnits "v1:AAAAAAAAAAAAAAAA:0NHIpw==:zqdAPU1ga24HTsXTuvOdGA==".toList

example : encrypt gcm call = stored := by decide +kernel

theorem decrypt_stored : decrypt gcm ofBase64 stored = .ok call.plaintext := by decide +kernel

theorem decrypt_truncated : decrypt gcm ofBase64 truncated = .ok call.plaintext := by
  decide +kernel

end Sample

/-- At a string that `encrypt` made. -/
theorem decrypt_authentic_iff_at_stored :
    decrypt Sample.gcm ofBase64 Sample.stored = .ok Sample.call.plaintext ∧
    (Authentic Sample.gcm ofBase64 [Sample.call] Sample.stored Sample.call.plaintext ↔
      FullTag ofBase64 Sample.stored ∧
        WellFormedSource Sample.gcm ofBase64 [Sample.call] Sample.stored) :=
  ⟨Sample.decrypt_stored, decrypt_authentic_iff Sample.gcm ofBase64 [Sample.call]
    Sample.ideal Sample.stored Sample.call.plaintext Sample.decrypt_stored⟩

/-- The string with four bytes of the tag decrypts as well, and is no call's. -/
theorem truncated_tag_accepted :
    ¬ (∀ (gcm : Gcm) (fromBase64 : CodeUnits → List ℕ) (calls : List Encryption),
      Ideal gcm calls → ∀ stored plaintext, decrypt gcm fromBase64 stored = .ok plaintext →
        Authentic gcm fromBase64 calls stored plaintext) := by
  intro h
  obtain ⟨c, hc, hdec, -⟩ := h Sample.gcm ofBase64 [Sample.call] Sample.ideal
    Sample.truncated Sample.call.plaintext Sample.decrypt_truncated
  rw [List.mem_singleton.1 hc] at hdec
  exact absurd hdec (by decide +kernel)

end SecretCipher

end HookRelay
