import HookRelay.Common.SecretCipher

/-!
# A stored secret is read back

`secret-cipher.ts` again: what `encrypt` stores, `decrypt` gives back.

* `Gcm.Standard` — what is assumed of AES-256-GCM under one key: it opens what it sealed
  under the same iv and tag, and it keeps the length.
* `splitOn_stored` — the four fields of a stored string are those it was joined from, for all
  bytes.
* `decrypt_encrypt` — the round trip, for every key, iv and plaintext.
-/

namespace HookRelay

/-- Numbers that are bytes. -/
def IsBytes (bytes : List ℕ) : Prop := ∀ b ∈ bytes, b < 256

/-- What is assumed of the cipher under a key, for the ivs of `encrypt`. -/
structure Gcm.Standard (gcm : Gcm) : Prop where
  /-- What was sealed is opened under the same iv and tag. -/
  opens : ∀ iv p, IsBytes iv → iv.length = 12 → IsBytes p →
    gcm.opened iv (gcm.sealed iv p).2 (gcm.sealed iv p).1 = some p
  /-- The data are bytes, as many as the plaintext has. -/
  data_bytes : ∀ iv p, IsBytes iv → iv.length = 12 → IsBytes p →
    IsBytes (gcm.sealed iv p).1 ∧ (gcm.sealed iv p).1.length = p.length
  /-- `getAuthTag` gives 16 bytes. -/
  tag_bytes : ∀ iv p, IsBytes iv → iv.length = 12 → IsBytes p →
    IsBytes (gcm.sealed iv p).2 ∧ (gcm.sealed iv p).2.length = 16

namespace SecretCipher

/-! ## The four fields -/

/-- A stored string is four fields joined by `:`. -/
theorem encrypt_eq_intercalate (gcm : Gcm) (call : Encryption) :
    encrypt gcm call = List.intercalate [0x3A] [codeUnits "v1".toList,
      codeUnits (toBase64 call.iv), codeUnits (toBase64 (call.tag gcm)),
      codeUnits (toBase64 (call.data gcm))] := by
  have hcolon : codeUnits ":".toList = [0x3A] := by decide
  have hversion : codeUnits "v1:".toList = codeUnits "v1".toList ++ [0x3A] := by decide
  have happend : ∀ s t : Text, codeUnits (s ++ t) = codeUnits s ++ codeUnits t :=
    fun s t => List.flatMap_append
  unfold encrypt
  rw [happend, happend, happend, happend, happend, hversion, hcolon]
  simp [List.intercalate]

/-- **The fields are recovered by the split**, whatever bytes they stand for. -/
theorem splitOn_stored {iv tag data : List ℕ} (hiv : IsBytes iv) (htag : IsBytes tag)
    (hdata : IsBytes data) :
    (List.intercalate [0x3A] [codeUnits "v1".toList, codeUnits (toBase64 iv),
      codeUnits (toBase64 tag), codeUnits (toBase64 data)]).splitOn 0x3A =
      [codeUnits "v1".toList, codeUnits (toBase64 iv), codeUnits (toBase64 tag),
        codeUnits (toBase64 data)] := by
  apply List.splitOn_intercalate
  · intro field hfield
    simp only [List.mem_cons, List.not_mem_nil, or_false] at hfield
    rcases hfield with rfl | rfl | rfl | rfl
    · decide
    · exact colon_notMem_toBase64 hiv
    · exact colon_notMem_toBase64 htag
    · exact colon_notMem_toBase64 hdata
  · simp

section

variable {gcm : Gcm} {call : Encryption} (hg : gcm.Standard) (hiv : IsBytes call.iv)
  (hlen : call.iv.length = 12) (hne : call.plaintext ≠ [])

include hg hiv hlen

/-- The bytes of a call: those of its tag, 16 of them, and those of its data. -/
theorem Encryption.bytes :
    IsBytes (call.tag gcm) ∧ (call.tag gcm).length = 16 ∧ IsBytes (call.data gcm) ∧
      (call.data gcm).length = (encodeUtf8 call.plaintext).length := by
  have hp : IsBytes (encodeUtf8 call.plaintext) := fun b hb => lt_of_mem_encodeUtf8 hb
  obtain ⟨htag, htaglen⟩ := hg.tag_bytes call.iv _ hiv hlen hp
  obtain ⟨hdata, hdatalen⟩ := hg.data_bytes call.iv _ hiv hlen hp
  exact ⟨htag, htaglen, hdata, hdatalen⟩

include hne

/-- No field is mistaken for a missing one. -/
theorem fields_encrypt : fields (encrypt gcm call) =
    some (codeUnits (toBase64 call.iv), codeUnits (toBase64 (call.tag gcm)),
      codeUnits (toBase64 (call.data gcm))) := by
  obtain ⟨htag, htaglen, hdata, hdatalen⟩ := Encryption.bytes hg hiv hlen
  have hiv0 : call.iv ≠ [] := List.ne_nil_of_length_pos (by omega)
  have htag0 : call.tag gcm ≠ [] := List.ne_nil_of_length_pos (by omega)
  have hdata0 : call.data gcm ≠ [] := by
    apply List.ne_nil_of_length_pos
    rw [hdatalen]
    exact List.length_pos_of_ne_nil (encodeUtf8_ne_nil hne)
  rw [fields, encrypt_eq_intercalate, splitOn_stored hiv htag hdata]
  simp [codeUnits_toBase64_ne_nil hiv0, codeUnits_toBase64_ne_nil htag0,
    codeUnits_toBase64_ne_nil hdata0]

/-- The bytes that `decrypt` hands to the cipher are those that `encrypt` had from it. -/
theorem decoded_encrypt :
    decoded ofBase64 (encrypt gcm call) = some (call.iv, call.tag gcm, call.data gcm) := by
  obtain ⟨htag, -, hdata, -⟩ := Encryption.bytes hg hiv hlen
  rw [decoded, fields_encrypt hg hiv hlen hne, Option.map_some, ofBase64_toBase64 hiv,
    ofBase64_toBase64 htag, ofBase64_toBase64 hdata]

end

/-- **A stored secret is read back.**  For every key of 32 bytes, every iv of 12 bytes and
every plaintext that is not empty and has no unpaired surrogate: the stored string splits
into exactly the four fields it was written from, the three that are base64 are taken for
present and decode to the iv, the tag and the data, and `decrypt` returns the plaintext. -/
theorem decrypt_encrypt (aes : List ℕ → Gcm)
    (haes : ∀ key, IsBytes key → key.length = 32 → (aes key).Standard)
    (key : List ℕ) (hkey : IsBytes key) (hkeylen : key.length = 32)
    (call : Encryption) (hiv : IsBytes call.iv) (hivlen : call.iv.length = 12)
    (hne : call.plaintext ≠ []) (hwell : ∀ i, ¬ UnpairedAt call.plaintext i) :
    (encrypt (aes key) call).splitOn 0x3A = [codeUnits "v1".toList,
      codeUnits (toBase64 call.iv), codeUnits (toBase64 (call.tag (aes key))),
      codeUnits (toBase64 (call.data (aes key)))] ∧
    fields (encrypt (aes key) call) = some (codeUnits (toBase64 call.iv),
      codeUnits (toBase64 (call.tag (aes key))), codeUnits (toBase64 (call.data (aes key)))) ∧
    decoded ofBase64 (encrypt (aes key) call) =
      some (call.iv, call.tag (aes key), call.data (aes key)) ∧
    decrypt (aes key) ofBase64 (encrypt (aes key) call) = .ok call.plaintext := by
  have hg := haes key hkey hkeylen
  obtain ⟨htag, htaglen, hdata, -⟩ := Encryption.bytes hg hiv hivlen
  have hfields := fields_encrypt hg hiv hivlen hne
  refine ⟨?_, hfields, decoded_encrypt hg hiv hivlen hne, ?_⟩
  · rw [encrypt_eq_intercalate, splitOn_stored hiv htag hdata]
  · have hiv0 : call.iv ≠ [] := List.ne_nil_of_length_pos (by omega)
    have hopen : (aes key).opened call.iv (call.tag (aes key)) (call.data (aes key)) =
        some (encodeUtf8 call.plaintext) :=
      hg.opens call.iv _ hiv hivlen fun b hb => lt_of_mem_encodeUtf8 hb
    have haccept : acceptsTagLength (call.tag (aes key)).length = true := by
      rw [htaglen]
      decide
    unfold decrypt
    rw [hfields]
    simp only [ofBase64_toBase64 hiv, ofBase64_toBase64 htag, ofBase64_toBase64 hdata,
      if_neg hiv0, if_pos haccept, hopen]
    rw [decodeUtf8_encodeUtf8_eq, (toWellFormed_eq_self_iff _).2 hwell]

/-! ## One secret -/

namespace Sample

/-- The key stream and the tag of `call`, for every key. -/
def aes (_key : List ℕ) : Gcm where
  sealed _ p := (applyStream keyStream p, tag)
  opened _ t data := if t = tag then some (applyStream keyStream data) else none

theorem applyStream_applyStream (ks p : List ℕ) : applyStream ks (applyStream ks p) = p := by
  induction ks generalizing p with
  | nil => cases p <;> rfl
  | cons k ks ih =>
      cases p with
      | nil => rfl
      | cons a p => rw [applyStream, applyStream, ih, Nat.xor_xor_cancel_left]

theorem length_applyStream (ks p : List ℕ) : (applyStream ks p).length = p.length := by
  induction ks generalizing p with
  | nil => cases p <;> rfl
  | cons k ks ih =>
      cases p with
      | nil => rfl
      | cons a p => rw [applyStream, List.length_cons, List.length_cons, ih]

theorem isBytes_applyStream {ks p : List ℕ} (hks : IsBytes ks) (hp : IsBytes p) :
    IsBytes (applyStream ks p) := by
  induction ks generalizing p with
  | nil => cases p <;> exact hp
  | cons k ks ih =>
      cases p with
      | nil => exact hp
      | cons a p =>
          intro b hb
          rw [applyStream, List.mem_cons] at hb
          rcases hb with rfl | hb
          · exact Nat.xor_lt_two_pow (n := 8) (hks k (by simp)) (hp a (by simp))
          · exact ih (fun x hx => hks x (by simp [hx])) (fun x hx => hp x (by simp [hx])) b hb

theorem isBytes_keyStream : IsBytes keyStream := by unfold IsBytes; decide

theorem isBytes_tag : IsBytes tag := by unfold IsBytes; decide

theorem aes_standard (key : List ℕ) : (aes key).Standard where
  opens := by
    intro iv p _ _ _
    simp [aes, applyStream_applyStream]
  data_bytes := fun _ p _ _ hp =>
    ⟨isBytes_applyStream isBytes_keyStream hp, length_applyStream keyStream p⟩
  tag_bytes := fun _ _ _ _ _ => ⟨isBytes_tag, rfl⟩

end Sample

/-- At the secret of sixteen `U+0000`, under the key of zeros. -/
theorem decrypt_encrypt_at_call :
    decrypt (Sample.aes (List.replicate 32 0)) ofBase64
      (encrypt (Sample.aes (List.replicate 32 0)) Sample.call) = .ok Sample.call.plaintext :=
  (decrypt_encrypt Sample.aes (fun key _ _ => Sample.aes_standard key) (List.replicate 32 0)
    (by unfold IsBytes; decide) (by decide) Sample.call (by unfold IsBytes; decide) (by decide)
    (by decide) ((toWellFormed_eq_self_iff _).1 (by decide))).2.2.2

end SecretCipher

end HookRelay
