import TangentFeed.Core.SpaceCipher
import TangentFeed.Dart.Decoding

/-!
# The cipher of a space in Dart

The Dart `SpaceCipher` over the primitives of the TypeScript one. Its envelope is
put together from nonce, ciphertext and tag, its base64 and UTF-8 decoders are
stricter or looser than those of the browser, and what it decrypts is decoded as
Dart decodes it. What one implementation encrypts, the other reads as it would in
the clear (`ciphertexts_cross`).
-/

namespace TangentFeed.Dart

/-! ## UTF-8 -/

/-- The code points of UTF-8, `none` where a byte is malformed; the fuel is the number of
bytes. -/
def readPoints : Nat → Bytes → Option (List Nat)
  | 0, _ => some []
  | _ + 1, [] => some []
  | fuel + 1, b :: s =>
    match (readChar b s).1 with
    | none => none
    | some point => (readPoints fuel (readChar b s).2).map (point :: ·)

/-- `utf8.decode(b)`, `none` where it throws. A byte order mark is dropped. -/
def utf8Decode (b : Bytes) : Option JsString :=
  (readPoints b.length b).map fun points =>
    (if points.head? = some 0xfeff then points.tail else points).flatMap unitsOf

theorem decodePoints_of_readPoints {fuel : Nat} {b : Bytes} {points : List Nat}
    (h : readPoints fuel b = some points) : decodePoints fuel b = points := by
  induction fuel generalizing b points with
  | zero => exact Option.some.inj h
  | succ fuel ih =>
    cases b with
    | nil => exact Option.some.inj h
    | cons b s =>
      unfold readPoints at h
      unfold decodePoints
      cases hc : (readChar b s).1 with
      | none =>
        rw [hc] at h
        cases h
      | some point =>
        rw [hc] at h
        obtain ⟨rest, hrest, rfl⟩ := Option.map_eq_some_iff.1 h
        rw [ih hrest]
        rfl

/-- What Dart decodes, the browser decodes alike. -/
theorem textDecode_of_utf8Decode {b : Bytes} {s : JsString} (h : utf8Decode b = some s) :
    textDecode b = s := by
  obtain ⟨points, hp, rfl⟩ := Option.map_eq_some_iff.1 h
  rw [textDecode, decodePoints_of_readPoints hp]

theorem readPoints_flatMap {l : List Nat}
    (hl : ∀ n ∈ l, n < 0x110000 ∧ ¬ (0xd800 ≤ n ∧ n < 0xe000)) {fuel : Nat}
    (hf : (l.flatMap utf8Char).length ≤ fuel) : readPoints fuel (l.flatMap utf8Char) = some l := by
  induction l generalizing fuel with
  | nil => cases fuel <;> rfl
  | cons n l ih =>
    obtain ⟨hn, hs⟩ := hl n List.mem_cons_self
    obtain ⟨b, t, hchar, hread⟩ := readChar_utf8Char hn hs
    rw [List.flatMap_cons, hchar, List.cons_append, List.length_cons, List.length_append] at hf
    cases fuel with
    | zero => omega
    | succ fuel =>
      rw [List.flatMap_cons, hchar, List.cons_append, readPoints, hread]
      simp only
      rw [ih (fun m hm => hl m (List.mem_cons_of_mem n hm)) (by omega)]
      rfl

/-- Text is decoded to what the browser decodes it to. -/
theorem utf8Decode_textEncode (s : JsString) :
    utf8Decode (textEncode s) = some (textDecode (textEncode s)) := by
  have hread : readPoints (textEncode s).length (textEncode s) = some (codePoints s) :=
    readPoints_flatMap (codePoints_scalar s) (Nat.le_refl _)
  rw [utf8Decode, hread, Option.map_some, textDecode, decodePoints_of_readPoints hread]

/-! ## Base64 -/

theorem sextet_of_value {c : CodeUnit} {n : Nat} (h : base64Value c = some n) :
    sextet c = some n := by
  unfold sextet
  split
  · rename_i hc
    rw [hc] at h
    cases h
  · split
    · rename_i hc
      rw [hc] at h
      cases h
    · exact h

theorem values_eq_some {s : JsString} {ns : List Nat}
    (h : Base64.values base64Value s = some ns) :
    s.filterMap sextet = ns ∧ ∀ c ∈ s, (base64Value c).isSome = true := by
  induction s generalizing ns with
  | nil => exact ⟨Option.some.inj h, nofun⟩
  | cons c s ih =>
    obtain ⟨n, hn, hrest⟩ := Option.bind_eq_some_iff.1 h
    obtain ⟨ms, hms, hpure⟩ := Option.bind_eq_some_iff.1 hrest
    obtain rfl := Option.some.inj hpure
    obtain ⟨hs, hall⟩ := ih hms
    exact ⟨by rw [List.filterMap_cons, sextet_of_value hn, hs],
      List.forall_mem_cons.2 ⟨by rw [hn]; rfl, hall⟩⟩

theorem mem_stripPadding {s : JsString} {c : CodeUnit} (hc : c ∈ s) (hne : c ≠ padUnit) :
    c ∈ stripPadding s := by
  rw [← List.mem_reverse] at hc
  unfold stripPadding
  split
  · rename_i d e rest heq
    rw [heq] at hc
    split
    · rename_i hd
      have hrest := (List.mem_cons.1 hc).resolve_left fun h => hne (h.trans hd)
      rw [List.mem_reverse]
      split
      · rename_i he
        exact (List.mem_cons.1 hrest).resolve_left fun h => hne (h.trans he)
      · exact hrest
    · rw [← List.mem_reverse, heq]
      exact hc
  · exact List.mem_reverse.1 hc

/-- `atob` takes neither spaces nor padding nor its alphabet for anything else. -/
theorem atob_eq_none {s : JsString} {c : CodeUnit} (hc : c ∈ s) (hspace : isAsciiSpace c = false)
    (hvalue : base64Value c = none) (hne : c ≠ padUnit) : atob s = none := by
  have hfilter : c ∈ s.filter fun c => !isAsciiSpace c :=
    List.mem_filter.2 ⟨hc, by rw [hspace]; rfl⟩
  unfold atob Base64.decode
  rw [Option.bind_eq_none_iff]
  intro ns hns
  have hall := (values_eq_some hns).2 c (by
    split
    · exact mem_stripPadding hfilter hne
    · exact hfilter)
  rw [hvalue] at hall
  cases hall

theorem readPadding_eq_some {s rest : JsString} (h : readPadding s = some rest) :
    s = padUnit :: rest ∨ 0x25 ∈ s := by
  unfold readPadding at h
  split at h
  · obtain rfl := Option.some.inj h
    exact .inl rfl
  · exact .inr List.mem_cons_self
  · cases h

/-- Padding is `"="` up to a whole number of groups, or has a `"%"`. -/
theorem isPadding_eq_true {n : Nat} {tail : JsString} (h : isPadding n tail = true) :
    (∃ k ≤ 2, tail = List.replicate k padUnit ∧ (n + k) % 4 = 0 ∧ (2 ≤ n ∨ k = 0)) ∨
      0x25 ∈ tail := by
  unfold isPadding at h
  split at h
  · exact .inl ⟨0, by decide, List.isEmpty_iff.1 h, by decide, .inr rfl⟩
  · obtain ⟨t, ht, ht'⟩ := Option.bind_eq_some_iff.1 (beq_iff_eq.1 h)
    rcases readPadding_eq_some ht with rfl | hm
    · rcases readPadding_eq_some ht' with rfl | hm
      · exact .inl ⟨2, by decide, rfl, by decide, .inl (by decide)⟩
      · exact .inr (List.mem_cons_of_mem _ hm)
    · exact .inr hm
  · rcases readPadding_eq_some (beq_iff_eq.1 h) with rfl | hm
    · exact .inl ⟨1, by decide, rfl, by decide, .inl (by decide)⟩
    · exact .inr hm
  · cases h

/-- **What both decoders take, they decode alike.** -/
theorem atob_of_base64Decode {s : JsString} {b b' : Bytes} (h : atob s = some b)
    (h' : base64Decode s = some b') : b = b' := by
  have hall := List.all_eq_true.1 (List.all_takeWhile (p := fun c => (sextet c).isSome) (l := s))
  have hsplit := List.prefix_iff_eq_append.1
    (List.takeWhile_prefix (l := s) fun c => (sextet c).isSome)
  unfold base64Decode at h'
  simp only at h'
  generalize s.takeWhile (fun c => (sextet c).isSome) = body at hall hsplit h'
  generalize s.drop body.length = tail at hsplit h'
  subst hsplit
  split at h'
  case isFalse => cases h'
  rename_i hpad
  rcases isPadding_eq_true hpad with ⟨k, hk, rfl, hmod, hlen⟩ | hpercent
  · -- the text is what an encoder pads
    have hne : ∀ c ∈ body, c ≠ padUnit := by
      rintro c hc rfl
      exact absurd (hall _ hc) (by decide)
    have hkeep : (body ++ List.replicate k padUnit).filter (fun c => !isAsciiSpace c) =
        body ++ List.replicate k padUnit := by
      refine List.filter_eq_self.2 fun c hc => ?_
      have hunit : (sextet c).isSome = true ∨ c = padUnit :=
        (List.mem_append.1 hc).imp (hall c) List.eq_of_mem_replicate
      rw [Bool.not_eq_true', Bool.eq_false_iff]
      intro hspace
      unfold isAsciiSpace at hspace
      simp only [Bool.or_eq_true, decide_eq_true_eq] at hspace
      rcases hspace with (((rfl | rfl) | rfl) | rfl) | rfl <;> exact absurd hunit (by decide)
    unfold atob at h
    simp only [hkeep] at h
    rw [if_pos (by rw [List.length_append, List.length_replicate]; omega),
      stripPadding_replicate hne hk (by omega)] at h
    obtain ⟨ns, hns, hb⟩ := Option.bind_eq_some_iff.1 h
    obtain ⟨b'', hb'', hspare⟩ := Option.bind_eq_some_iff.1 h'
    rw [(values_eq_some hns).1, hb] at hb''
    split at hspare
    · rw [← Option.some.inj hspare, Option.some.inj hb'']
    · cases hspare
  · rw [atob_eq_none (List.mem_append_right _ hpercent) (by decide) (by decide) (by decide)] at h
    cases h

/-! ## The cipher -/

/-- `macAlgorithm.macLength` of Poly1305. -/
def macLength : Nat := 16

/-- What `decrypt` throws: a `DecryptError`, or the `FormatException` of a plaintext that is no
JSON. -/
inductive DecryptFault where
  | notBase64
  | tooShort
  | authentication (opId : JsString)
  | notJson

/-- The text of the `DecryptError`, `none` for the errors of others. -/
def DecryptFault.message : DecryptFault → Option JsString
  | notBase64 => some (js "DecryptError: envelope is not valid base64")
  | tooShort => some (js "DecryptError: envelope too short")
  | authentication opId => some (js "DecryptError: authentication failed for op " ++ opId)
  | notJson => none

/-- The cipher of one space, its `_key`. -/
structure SpaceCipher where
  key : Bytes

namespace SpaceCipher

/-- `fromSecret(secret)`, `none` where it throws. -/
def fromSecret (ae : Aead) (secret : Bytes) : Option SpaceCipher :=
  if secret.length < 16 then none else some ⟨ae.hkdf secret (textEncode cellInfo)⟩

variable (ae : Aead) (c : SpaceCipher)

/-- `encrypt(value, opId)` with a random nonce, `none` where `canonicalJson` throws. -/
def encrypt (random : Nat → Byte) (value : Doc AnyNum) (opId : JsString) : Option JsString :=
  (finiteDoc value).map fun v =>
    let nonce := (List.range nonceBytes).map random
    let box := ae.encrypt c.key nonce (textEncode opId) (textEncode (canonicalJson v))
    cipherMark ++ base64Encode (nonce ++ box)

/-- `decrypt(value, opId)`. The box is put together again from ciphertext and tag. -/
def decrypt (value : Doc AnyNum) (opId : JsString) : Except DecryptFault (Doc AnyNum) :=
  match value with
  | .str s =>
    if cipherMark.isPrefixOf s then
      match base64Decode (s.drop cipherMark.length) with
      | none => .error .notBase64
      | some raw =>
        if raw.length < nonceBytes + macLength then .error .tooShort
        else
          let cipherText := (raw.take (raw.length - macLength)).drop nonceBytes
          let mac := raw.drop (raw.length - macLength)
          match ae.decrypt c.key (raw.take nonceBytes) (textEncode opId) (cipherText ++ mac) with
          | none => .error (.authentication opId)
          | some plaintext =>
            match (utf8Decode plaintext).bind jsonDecodeAny with
            | none => .error .notJson
            | some v => .ok v
    else .ok value
  | v => .ok v

end SpaceCipher

/-! ## Envelopes -/

section Envelopes

variable {ae : Aead} {c : TangentFeed.SpaceCipher} {c' : SpaceCipher}

theorem box_eq {raw : Bytes} (h : ¬ raw.length < nonceBytes + macLength) :
    (raw.take (raw.length - macLength)).drop nonceBytes ++ raw.drop (raw.length - macLength) =
      raw.drop nonceBytes := by
  have hle : nonceBytes ≤ (raw.take (raw.length - macLength)).length := by
    rw [List.length_take]
    omega
  rw [← List.drop_append_of_le_length hle, List.take_append_drop]

theorem isPrefixOf_mark (t : JsString) : cipherMark.isPrefixOf (cipherMark ++ t) = true := by
  rw [List.isPrefixOf_iff_prefix]
  exact List.prefix_append _ _

/-- **What both can decrypt is one document.** -/
theorem decrypt_alike (hkey : c.key = c'.key) {s id : JsString} {v : Json} {w : Doc AnyNum}
    (hv : c.decrypt ae (.str s) id = .ok v) (hw : c'.decrypt ae (.str s) id = .ok w) :
    SameValue v w := by
  unfold TangentFeed.SpaceCipher.decrypt at hv
  unfold SpaceCipher.decrypt at hw
  simp only at hv hw
  by_cases hmark : cipherMark.isPrefixOf s = true
  · rw [if_pos hmark] at hv hw
    cases hb : atob (s.drop cipherMark.length) with
    | none =>
      rw [hb] at hv
      cases hv
    | some packed =>
      cases hb' : base64Decode (s.drop cipherMark.length) with
      | none =>
        rw [hb'] at hw
        cases hw
      | some raw =>
        rw [hb] at hv
        rw [hb'] at hw
        obtain rfl := atob_of_base64Decode hb hb'
        simp only at hv hw
        split at hv
        · cases hv
        split at hw
        · cases hw
        rename_i hlen
        rw [box_eq hlen, ← hkey] at hw
        generalize ae.decrypt c.key (packed.take nonceBytes) (textEncode id)
          (packed.drop nonceBytes) = plaintext at hv hw
        cases plaintext with
        | none => cases hv
        | some pt =>
          simp only at hv hw
          cases htext : utf8Decode pt with
          | none =>
            rw [htext] at hw
            cases hw
          | some text =>
            rw [htext, Option.bind_some] at hw
            rw [textDecode_of_utf8Decode htext] at hv
            cases hjs : Json.parse text with
            | none =>
              rw [hjs] at hv
              cases hv
            | some v' =>
              cases hdart : jsonDecodeAny text with
              | none =>
                rw [hdart] at hw
                cases hw
              | some w' =>
                rw [hjs] at hv
                rw [hdart] at hw
                rw [← Except.ok.inj hv, ← Except.ok.inj hw]
                exact sameValue_of_text hjs hdart
  · rw [if_neg hmark] at hv hw
    rw [← Except.ok.inj hv, ← Except.ok.inj hw]
    exact sameValue_str s

/-- The envelope of a plaintext, decrypted in both. -/
theorem decrypt_envelope (hs : ae.Sound) (hkey : c.key = c'.key) (random : Nat → Byte)
    (id : JsString) {text : JsString} (htext : textDecode (textEncode text) = text) {v : Json} {w : Doc AnyNum}
    (hv : Json.parse text = some v) (hw : jsonDecodeAny text = some w) :
    let nonce := (List.range nonceBytes).map random
    let env := cipherMark ++ base64Encode (nonce ++
      ae.encrypt c.key nonce (textEncode id) (textEncode text))
    c.decrypt ae (.str env) id = .ok v ∧ c'.decrypt ae (.str env) id = .ok w := by
  intro nonce env
  have hnonce : nonce.length = nonceBytes := by
    rw [List.length_map, List.length_range]
  have hlen : (nonce ++ ae.encrypt c.key nonce (textEncode id) (textEncode text)).length =
      nonceBytes + ((textEncode text).length + 16) := by
    rw [List.length_append, hnonce, hs.length_encrypt]
  constructor
  · unfold TangentFeed.SpaceCipher.decrypt
    simp only [env, isPrefixOf_mark, if_true, List.drop_left, atob_base64Encode]
    rw [if_neg (by omega), List.take_left' hnonce, List.drop_left' hnonce, hs.decrypt_encrypt]
    simp only [htext, hv]
  · unfold SpaceCipher.decrypt
    simp only [env, isPrefixOf_mark, if_true, List.drop_left, base64Decode_base64Encode]
    have hlong : ¬ (nonce ++ ae.encrypt c.key nonce (textEncode id) (textEncode text)).length <
        nonceBytes + macLength := by
      rw [hlen]
      unfold macLength
      omega
    rw [if_neg hlong, box_eq hlong, List.take_left' hnonce, List.drop_left' hnonce, ← hkey,
      hs.decrypt_encrypt]
    simp only [utf8Decode_textEncode, htext, Option.bind_some, hw]

theorem textDecode_canonical (t : Doc Num) :
    textDecode (textEncode (canonicalJson t)) = canonicalJson t := by
  rw [canonicalJson_eq_write]
  refine textDecode_textEncode (Json.isWellFormed_write
    (fun n => isWellFormed_numeral (isNumeral_canonicalNumber n).2) _) fun hbom => ?_
  have hlt := Json.head_write (fun n => (isNumeral_canonicalNumber n).1) t.sorted _
    (head_codePoints hbom)
  exact absurd hlt (by decide)

end Envelopes

/-- **Ciphertexts cross the implementations.** From one secret both make a cipher with one key,
or refuse it. Whatever marked or unmarked text both can decrypt is one document to them. What
TypeScript encrypts, Dart decrypts to the document TypeScript does; what Dart encrypts,
TypeScript decrypts to what it receives in the clear, up to its canonical form, and Dart to a
value with the same canonical text. -/
theorem ciphertexts_cross (ae : Aead) (hs : ae.Sound) (secret : Bytes) :
    (TangentFeed.SpaceCipher.ofSecret ae secret).map (·.key) =
      (SpaceCipher.fromSecret ae secret).map (·.key) ∧
    ∀ (c : TangentFeed.SpaceCipher) (c' : SpaceCipher),
      TangentFeed.SpaceCipher.ofSecret ae secret = some c →
      SpaceCipher.fromSecret ae secret = some c' →
      (∀ s id v w, c.decrypt ae (.str s) id = .ok v → c'.decrypt ae (.str s) id = .ok w →
        SameValue v w) ∧
      (∀ random (v : Json) id, ∃ w, c'.decrypt ae (.str (c.encrypt ae random v id)) id = .ok w ∧
        SameValue v.normal w) ∧
      ∀ random (t : Doc Num) id, t.Distinct → ∃ env v u,
        c'.encrypt ae random (t.map Num.toAny) id = some env ∧
        Json.parse (jsonEncode t) = some v ∧ c.decrypt ae (.str env) id = .ok v.normal ∧
        c'.decrypt ae (.str env) id = .ok (u.map Num.toAny) ∧
        canonicalJson u = canonicalJson t := by
  have hkeys : (TangentFeed.SpaceCipher.ofSecret ae secret).map (·.key) =
      (SpaceCipher.fromSecret ae secret).map (·.key) := by
    unfold TangentFeed.SpaceCipher.ofSecret SpaceCipher.fromSecret
    split <;> rfl
  refine ⟨hkeys, fun c c' hc hc' => ?_⟩
  rw [hc, hc'] at hkeys
  have hkey : c.key = c'.key := Option.some.inj hkeys
  refine ⟨fun s id v w => decrypt_alike hkey, fun random v id => ?_, fun random t id ht => ?_⟩
  · obtain ⟨w, hw⟩ := Option.isSome_iff_exists.1
      ((jsonDecodeAny_isSome (TangentFeed.canonicalJson v)).trans (by
        rw [Json.parse_canonicalJson]
        rfl))
    exact ⟨w, (decrypt_envelope hs hkey random id (textDecode_canonicalJson v)
      (Json.parse_canonicalJson v) hw).2, sameValue_of_text (Json.parse_canonicalJson v) hw⟩
  · obtain ⟨v, u, hclear, hv, hw, hsame⟩ := read_canonicalJson ht
    obtain ⟨h, h'⟩ := decrypt_envelope hs hkey random id (textDecode_canonical t) hv hw
    refine ⟨_, v, u, ?_, hclear, h, h', hsame⟩
    unfold SpaceCipher.encrypt
    rw [finiteDoc_map, hkey]
    rfl

/-- A value of either side, under a cipher that hides nothing. -/
theorem ciphertexts_cross_sample : ∃ (c : TangentFeed.SpaceCipher) (c' : SpaceCipher),
    TangentFeed.SpaceCipher.ofSecret plainAead (List.replicate 16 0) = some c ∧
    SpaceCipher.fromSecret plainAead (List.replicate 16 0) = some c' ∧
    (∃ w, c'.decrypt plainAead (.str (c.encrypt plainAead (fun _ => 0) (.bool true) [])) [] =
      .ok w ∧ SameValue (Json.bool true).normal w) ∧
    ∃ env v, c'.encrypt plainAead (fun _ => 0) (.num (.int 5)) [] = some env ∧
      Json.parse (jsonEncode (.num (.int 5))) = some v ∧
      c.decrypt plainAead (.str env) [] = .ok v.normal := by
  obtain ⟨-, h2, h3⟩ := (ciphertexts_cross plainAead plainAead_sound (List.replicate 16 0)).2
    ⟨[]⟩ ⟨[]⟩ rfl rfl
  obtain ⟨env, v, u, henv, hv, hdec, -⟩ := h3 (fun _ => 0) (.num (.int 5)) [] trivial
  exact ⟨⟨[]⟩, ⟨[]⟩, rfl, rfl, h2 (fun _ => 0) (.bool true) [], env, v, henv, hv, hdec⟩

end TangentFeed.Dart
