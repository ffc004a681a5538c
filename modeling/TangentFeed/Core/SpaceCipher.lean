import TangentFeed.Core.Canonical
import TangentFeed.Core.Engine

/-!
# The cipher of a space

A `SpaceCipher` encrypts the canonical JSON of a cell value under the id of its
operation. HKDF-SHA256 and XChaCha20-Poly1305 are outside the repository: `Aead`
stands for them, and `Aead.Sound` says that decryption inverts encryption.
-/

namespace TangentFeed

/-- The primitives of the cipher: a key of 32 bytes derived from a secret, and encryption
under a key, a nonce and associated data; `decrypt` is `none` where it throws. -/
structure Aead where
  hkdf : (secret info : Bytes) → Bytes
  encrypt : (key nonce aad plaintext : Bytes) → Bytes
  decrypt : (key nonce aad ciphertext : Bytes) → Option Bytes

/-- Decryption inverts encryption, which adds a tag of 16 bytes. -/
structure Aead.Sound (ae : Aead) : Prop where
  length_encrypt : ∀ key nonce aad pt, (ae.encrypt key nonce aad pt).length = pt.length + 16
  decrypt_encrypt : ∀ key nonce aad pt,
    ae.decrypt key nonce aad (ae.encrypt key nonce aad pt) = some pt

def cipherMark : JsString := js "e1:"

def cellInfo : JsString := js "tangentfeed/v1/cells"

def nonceBytes : Nat := 24

/-- What a `DecryptError` complains about. -/
inductive DecryptFault where
  | notBase64
  | tooShort
  | authentication
  | notJson
  deriving DecidableEq, Repr

/-- The text of the `DecryptError`. -/
def DecryptFault.message (f : DecryptFault) : JsString :=
  js "DECRYPT_FAIL: " ++ match f with
  | notBase64 => js "value is not valid base64"
  | tooShort => js "ciphertext too short"
  | authentication => js "authentication failed (wrong key or tampered data)"
  | notJson => js "decrypted payload is not valid JSON"

/-- The white space that `atob` skips. -/
def isAsciiSpace (c : CodeUnit) : Bool :=
  c = 0x09 || c = 0x0a || c = 0x0c || c = 0x0d || c = 0x20

/-- `atob(s)` as bytes. -/
def atob (s : JsString) : Option Bytes :=
  let s := s.filter fun c => !isAsciiSpace c
  Base64.decode base64Value (if s.length % 4 = 0 then stripPadding s else s)

structure SpaceCipher where
  key : Bytes

namespace SpaceCipher

/-- `new SpaceCipher(secret)`, `none` where it throws. -/
def ofSecret (ae : Aead) (secret : Bytes) : Option SpaceCipher :=
  if secret.length < 16 then none else some ⟨ae.hkdf secret (textEncode cellInfo)⟩

variable (ae : Aead) (c : SpaceCipher)

def encrypt (random : Nat → Byte) (value : Json) (opId : JsString) : JsString :=
  let nonce := (List.range nonceBytes).map random
  let plaintext := textEncode (canonicalJson value)
  let ct := ae.encrypt c.key nonce (textEncode opId) plaintext
  cipherMark ++ base64Encode (nonce ++ ct)

/-- A value without the mark passes through. -/
def decrypt (value : Json) (opId : JsString) : Except DecryptFault Json :=
  match value with
  | .str s =>
    if cipherMark.isPrefixOf s then
      match atob (s.drop cipherMark.length) with
      | none => .error .notBase64
      | some packed =>
        if packed.length ≤ nonceBytes then .error .tooShort
        else
          match ae.decrypt c.key (packed.take nonceBytes) (textEncode opId)
            (packed.drop nonceBytes) with
          | none => .error .authentication
          | some pt =>
            match Json.parse (textDecode pt) with
            | none => .error .notJson
            | some v => .ok v
    else .ok value
  | v => .ok v

/-- The cipher as the engine uses it. -/
def cipher : Cipher := ⟨c.encrypt ae, fun value opId => (c.decrypt ae value opId).toOption⟩

end SpaceCipher

/-- A cipher marks what it encrypts and reads it back, up to canonical JSON. -/
structure Cipher.Inverts (c : Cipher) : Prop where
  marked : ∀ random v id, SyncEngine.isEncryptedValue (.str (c.encrypt random v id)) = true
  decrypt_encrypt : ∀ random (v : Json) id, c.decrypt (.str (c.encrypt random v id)) id = some v.normal

/-! ## Base64 and UTF-8 round trips -/

/-- `atob` reads back what `btoa` wrote. -/
theorem atob_base64Encode (b : Bytes) : atob (base64Encode b) = some b := by
  have hread := base64Decode_base64Encode b
  unfold base64Decode at hread
  split at hread
  · rename_i htext
    have hkeep : (base64Encode b).filter (fun c => !isAsciiSpace c) = base64Encode b := by
      refine List.filter_eq_self.2 fun c hc => ?_
      have hsome : (base64Value c).isSome = true ∨ c = padUnit := by
        rcases List.mem_append.1 hc with h | h
        · obtain ⟨n, hn, rfl⟩ := List.mem_map.1 h
          rw [base64Value_base64Char n (Base64.toSextets_lt b n hn)]
          exact .inl rfl
        · exact .inr (List.eq_of_mem_replicate h)
      rw [Bool.not_eq_true', Bool.eq_false_iff]
      intro hspace
      unfold isAsciiSpace at hspace
      simp only [Bool.or_eq_true, decide_eq_true_eq] at hspace
      rcases hspace with (((rfl | rfl) | rfl) | rfl) | rfl <;> exact absurd hsome (by decide)
    unfold atob
    simp only [hkeep]
    exact hread
  · cases hread

/-- A text that is written is well formed and begins with no byte order mark. -/
theorem textDecode_docText (d : Doc Json.FiniteNumber) :
    textDecode (textEncode (d.map fun x => x.1.toString).write) =
      (d.map fun x => x.1.toString).write := by
  refine textDecode_textEncode (Json.isWellFormed_write
    (fun x => isWellFormed_numeral (Number.all_isNumeralUnit_toString x.2)) _) fun hbom => ?_
  have hlt := Json.head_write Json.starts_toString d _ (head_codePoints hbom)
  exact absurd hlt (by decide)

theorem textDecode_canonicalJson (v : Json) :
    textDecode (textEncode (canonicalJson v)) = canonicalJson v := by
  rw [Json.canonicalJson_eq_write, Json.docText, Doc.sorted_map]
  exact textDecode_docText _

/-! ## Decryption inverts encryption -/

/-- **A value is read back up to canonical JSON.** -/
theorem SpaceCipher.inverts {ae : Aead} (hs : ae.Sound) (c : SpaceCipher) :
    (c.cipher ae).Inverts where
  marked random v id := by
    change (js "e1:").isPrefixOf (js "e1:" ++ _) = true
    rw [List.isPrefixOf_iff_prefix]
    exact List.prefix_append _ _
  decrypt_encrypt random v id := by
    change (c.decrypt ae (.str (cipherMark ++ base64Encode _)) id).toOption = _
    have hmark : ∀ t, cipherMark.isPrefixOf (cipherMark ++ t) = true := fun t => by
      rw [List.isPrefixOf_iff_prefix]
      exact List.prefix_append _ _
    have hnonce : ((List.range nonceBytes).map random).length = nonceBytes := by
      rw [List.length_map, List.length_range]
    unfold decrypt
    simp only [hmark, if_true, List.drop_left, atob_base64Encode]
    rw [if_neg, List.take_left' hnonce, List.drop_left' hnonce, hs.decrypt_encrypt]
    · simp only [textDecode_canonicalJson, Json.parse_canonicalJson]
      rfl
    · rw [List.length_append, hnonce, hs.length_encrypt]
      omega

/-! ## A transparent stand-in -/

/-- An AEAD that hides nothing: the tag is sixteen zeros, and other texts are refused. -/
def plainAead : Aead where
  hkdf _ _ := []
  encrypt _ _ _ pt := pt ++ List.replicate 16 0
  decrypt _ _ _ ct :=
    if ct.drop (ct.length - 16) = List.replicate 16 0 then some (ct.take (ct.length - 16)) else none

theorem plainAead_sound : plainAead.Sound :=
  ⟨fun _ _ _ _ => by simp [plainAead], fun _ _ _ _ => by simp [plainAead]⟩

end TangentFeed
