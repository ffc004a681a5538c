import TangentFeed.Lib.Base64
import TangentFeed.Core.Hlc

/-!
# Canonical JSON, device ids and signatures

The Ed25519 and SHA-256 functions are outside the repository: `Crypto` stands
for them. Everything here is bytes in, bytes out.
-/

namespace TangentFeed

structure DeviceKey where
  publicKey : Bytes
  privateKey : Bytes

/-- The primitives of the crypto packages. `keygen` is given its random seed;
`verify` is `none` where `ed25519.verify` throws. -/
structure Crypto where
  sha256 : Bytes → Bytes
  sha256_length : ∀ b, (sha256 b).length = 32
  keygen : Nat → DeviceKey
  sign : Bytes → Bytes → Bytes
  verify : Bytes → Bytes → Bytes → Option Bool

/-- Ed25519 accepts what it signed: a signature is 64 bytes long and verifies
under the public key of the pair. -/
structure Crypto.Sound (cr : Crypto) : Prop where
  sign_length : ∀ msg seed, (cr.sign msg (cr.keygen seed).privateKey).length = 64
  verify_sign : ∀ msg seed,
    cr.verify (cr.sign msg (cr.keygen seed).privateKey) msg (cr.keygen seed).publicKey = some true

def signingDomain : JsString := js "tangentfeed/v2/op"

/-! ## Canonical JSON -/

/-- `parts.join(",")`. -/
def joinComma : List JsString → JsString
  | [] => []
  | [s] => s
  | s :: t :: rest => s ++ js "," ++ joinComma (t :: rest)

/-- The entries of an object in key order, each `"key":value`. -/
def sortedEntries (fs : List (JsString × JsString)) : List JsString :=
  (fs.insertionSort fun a b => a.1 ≤ b.1).map fun f => Json.quote f.1 ++ js ":" ++ f.2

mutual

def canonicalJson : Json → JsString
  | .arr xs => js "[" ++ joinComma (canonicalElems xs) ++ js "]"
  | .obj fs => js "\x7b" ++ joinComma (sortedEntries (canonicalFields fs)) ++ js "\x7d"
  | .null => Json.stringifyScalar .null
  | .bool b => Json.stringifyScalar (.bool b)
  | .num n => Json.stringifyScalar (.num n)
  | .str s => Json.stringifyScalar (.str s)

def canonicalElems : List Json → List JsString
  | [] => []
  | x :: rest => canonicalJson x :: canonicalElems rest

def canonicalFields : List (JsString × Json) → List (JsString × JsString)
  | [] => []
  | (k, x) :: rest => (k, canonicalJson x) :: canonicalFields rest

end

example : canonicalJson (.obj [(js "b", .null), (js "a", .arr [.bool true])]) =
    js "\x7b\"a\":[true],\"b\":null\x7d" := by decide +kernel

theorem canonicalElems_eq_map (xs : List Json) : canonicalElems xs = xs.map canonicalJson := by
  induction xs with
  | nil => rfl
  | cons x xs ih => rw [canonicalElems, ih, List.map_cons]

theorem canonicalFields_eq_map (fs : List (JsString × Json)) :
    canonicalFields fs = fs.map fun f => (f.1, canonicalJson f.2) := by
  induction fs with
  | nil => rfl
  | cons f fs ih =>
    obtain ⟨k, x⟩ := f
    rw [canonicalFields, ih]
    rfl

/-- Properties with distinct names have one order. -/
theorem insertionSort_congr {β : Type} {fs gs : List (JsString × β)} (h : fs.Perm gs)
    (hn : (fs.map Prod.fst).Nodup) :
    fs.insertionSort (fun a b => a.1 ≤ b.1) = gs.insertionSort fun a b => a.1 ≤ b.1 := by
  refine ((List.perm_insertionSort _ _).trans (h.trans
    (List.perm_insertionSort _ _).symm)).eq_of_pairwise ?_ (List.pairwise_insertionSort _ _)
      (List.pairwise_insertionSort _ _)
  intro a b ha hb hab hba
  have ha' : a ∈ fs := (List.mem_insertionSort _).1 ha
  have hb' : b ∈ fs := h.mem_iff.2 ((List.mem_insertionSort _).1 hb)
  exact List.inj_on_of_nodup_map hn ha' hb' (le_antisymm hab hba)

/-- The order of the properties does not matter. -/
theorem canonicalJson_perm {fs gs : List (JsString × Json)} (h : fs.Perm gs)
    (hn : (fs.map Prod.fst).Nodup) : canonicalJson (.obj fs) = canonicalJson (.obj gs) := by
  have hperm : (canonicalFields fs).Perm (canonicalFields gs) := by
    rw [canonicalFields_eq_map, canonicalFields_eq_map]
    exact h.map _
  have hkeys : ((canonicalFields fs).map Prod.fst).Nodup := by
    rw [canonicalFields_eq_map, List.map_map]
    exact hn
  rw [canonicalJson, canonicalJson]
  unfold sortedEntries
  rw [insertionSort_congr hperm hkeys]

mutual

/-- Writing a value as JSON and reading it back does not change its canonical form. -/
theorem canonicalJson_reparsed : (v : Json) → canonicalJson v.reparsed = canonicalJson v
  | .num n => by
    rw [Json.reparsed]
    by_cases hf : n.isFinite = true
    · rw [if_pos hf]
      by_cases hm : n.mantissa = 0
      · rw [if_pos hm, canonicalJson, canonicalJson, Json.stringifyScalar, Json.stringifyScalar,
          if_pos hf]
        unfold Number.toString
        rw [if_pos hm]
        rfl
      · rw [if_neg hm]
    · rw [if_neg hf, canonicalJson, canonicalJson, Json.stringifyScalar, Json.stringifyScalar,
        if_neg hf]
  | .arr xs => by rw [Json.reparsed, canonicalJson, canonicalJson, canonicalElems_reparsed xs]
  | .obj fs => by rw [Json.reparsed, canonicalJson, canonicalJson, canonicalFields_reparsed fs]
  | .null => rfl
  | .bool _ => rfl
  | .str _ => rfl

theorem canonicalElems_reparsed :
    (xs : List Json) → canonicalElems (Json.reparsedElems xs) = canonicalElems xs
  | [] => rfl
  | x :: rest => by
    rw [Json.reparsedElems, canonicalElems, canonicalElems, canonicalJson_reparsed x,
      canonicalElems_reparsed rest]

theorem canonicalFields_reparsed :
    (fs : List (JsString × Json)) → canonicalFields (Json.reparsedFields fs) = canonicalFields fs
  | [] => rfl
  | (k, x) :: rest => by
    rw [Json.reparsedFields, canonicalFields, canonicalFields, canonicalJson_reparsed x,
      canonicalFields_reparsed rest]

end

/-! ## Base64 -/

/-- The standard alphabet. -/
def base64Char (n : Nat) : CodeUnit :=
  Fin.ofNat 65536
    (if n < 26 then 0x41 + n else if n < 52 then 0x61 + (n - 26)
      else if n < 62 then 0x30 + (n - 52) else if n = 62 then 0x2b else 0x2f)

def base64Value (c : CodeUnit) : Option Nat :=
  if 0x41 ≤ c.val ∧ c.val ≤ 0x5a then some (c.val - 0x41)
  else if 0x61 ≤ c.val ∧ c.val ≤ 0x7a then some (c.val - 0x61 + 26)
  else if 0x30 ≤ c.val ∧ c.val ≤ 0x39 then some (c.val - 0x30 + 52)
  else if c.val = 0x2b then some 62
  else if c.val = 0x2f then some 63
  else none

/-- `"="`. -/
def padUnit : CodeUnit := 0x3d

/-- `btoa` of the bytes. -/
def base64Encode (b : Bytes) : JsString :=
  Base64.encode base64Char b ++ List.replicate ((3 - b.length % 3) % 3) padUnit

/-- At most two trailing `"="` removed. -/
def stripPadding (s : JsString) : JsString :=
  match s.reverse with
  | c :: d :: rest =>
    if c = padUnit then (if d = padUnit then rest else d :: rest).reverse else s
  | _ => s

/-- `/^[A-Za-z0-9+/]*={0,2}$/.test(s)`. -/
def isBase64Text (s : JsString) : Bool :=
  let body := s.takeWhile fun c => (base64Value c).isSome
  let tail := s.drop body.length
  tail.length ≤ 2 && tail.all (· == padUnit)

/-- The test, then `atob`: padding is dropped only from a whole number of
groups, and a character outside the alphabet is an error. -/
def base64Decode (s : JsString) : Option Bytes :=
  if isBase64Text s then
    Base64.decode base64Value (if s.length % 4 = 0 then stripPadding s else s)
  else none

theorem base64Value_base64Char : ∀ n < 64, base64Value (base64Char n) = some n := by decide

theorem isBase64Text_append {s t : JsString} (hs : ∀ c ∈ s, (base64Value c).isSome = true)
    (ht : ∀ c ∈ t, c = padUnit) (hl : t.length ≤ 2) : isBase64Text (s ++ t) = true := by
  have hp : (base64Value padUnit).isSome = false := by decide
  have e : (s ++ t).takeWhile (fun c => (base64Value c).isSome) = s := by
    rw [List.takeWhile_append_of_pos hs]
    cases t with
    | nil => simp
    | cons c t =>
      obtain rfl := ht c List.mem_cons_self
      simp [hp]
  simp only [isBase64Text, e, List.drop_left, Bool.and_eq_true, decide_eq_true_eq,
    List.all_eq_true, beq_iff_eq]
  exact ⟨hl, ht⟩

theorem stripPadding_replicate {s : JsString} (hs : ∀ c ∈ s, c ≠ padUnit) {n : Nat} (hn : n ≤ 2)
    (h2 : 2 ≤ s.length ∨ n = 0) : stripPadding (s ++ List.replicate n padUnit) = s := by
  unfold stripPadding
  rw [List.reverse_append, List.reverse_replicate]
  have hr : ∀ c ∈ s.reverse, c ≠ padUnit := fun c hc => hs c (List.mem_reverse.1 hc)
  generalize hg : s.reverse = r at hr ⊢
  have hl : r.length = s.length := by rw [← hg, List.length_reverse]
  obtain rfl : s = r.reverse := by rw [← hg, List.reverse_reverse]
  match n, hn with
  | 0, _ =>
    match r with
    | [] => rfl
    | [_] => rfl
    | c :: d :: rest => simp [hr c List.mem_cons_self]
  | 1, _ =>
    match r with
    | [] => simp at h2
    | c :: rest => simp [List.replicate_succ, hr c List.mem_cons_self]
  | 2, _ => simp [List.replicate_succ]

/-- **The decoder reads back what the encoder wrote.** -/
theorem base64Decode_base64Encode (b : Bytes) : base64Decode (base64Encode b) = some b := by
  have hv : ∀ c ∈ Base64.encode base64Char b, (base64Value c).isSome = true := by
    intro c hc
    obtain ⟨n, hn, rfl⟩ := List.mem_map.1 hc
    rw [base64Value_base64Char n (Base64.toSextets_lt b n hn)]
    rfl
  have hne : ∀ c ∈ Base64.encode base64Char b, c ≠ padUnit := by
    rintro c hc rfl
    exact absurd (hv _ hc) (by decide)
  have hlen : (Base64.encode base64Char b).length = 4 * (b.length / 3) +
      (if b.length % 3 = 0 then 0 else b.length % 3 + 1) := by
    rw [Base64.encode, List.length_map, Base64.length_toSextets]
  have hmod : b.length % 3 < 3 := Nat.mod_lt _ (by decide)
  unfold base64Decode base64Encode
  rw [if_pos (isBase64Text_append hv (fun c hc => List.eq_of_mem_replicate hc)
    (by rw [List.length_replicate]; omega))]
  rw [if_pos, stripPadding_replicate hne (by omega),
    Base64.decode_encode base64Value_base64Char]
  · rw [hlen]
    split <;> omega
  · rw [List.length_append, List.length_replicate, hlen]
    split <;> omega

/-! ## Signatures -/

variable (cr : Crypto)

/-- The first 16 bytes of SHA-256 of the key, in hexadecimal. -/
def deviceIdFromPublicKey (publicKey : Bytes) : JsString :=
  ((cr.sha256 publicKey).take 16).flatMap hexByte

def signPayload (payload privateKey : Bytes) : JsString := base64Encode (cr.sign payload privateKey)

/-- `false`, never an exception, on a malformed signature. -/
def verifyPayload (payload : Bytes) (signature : JsString) (publicKey : Bytes) : Bool :=
  match base64Decode signature with
  | none => false
  | some sig => if sig.length = 64 then (cr.verify sig payload publicKey).getD false else false

variable {cr}

theorem verifyPayload_signPayload (hs : cr.Sound) (payload : Bytes) (seed : Nat) :
    verifyPayload cr payload (signPayload cr payload (cr.keygen seed).privateKey)
      (cr.keygen seed).publicKey = true := by
  unfold verifyPayload signPayload
  rw [base64Decode_base64Encode]
  simp [hs.sign_length, hs.verify_sign]

theorem hexByte_eq (b : Byte) : hexByte b = hexFixed 2 b.val :=
  padStart_toString16 (by decide) (by have := b.isLt; omega)

theorem isValidDeviceId_deviceIdFromPublicKey (publicKey : Bytes) :
    isValidDeviceId (deviceIdFromPublicKey cr publicKey) = true := by
  have hl : ∀ bs : Bytes, (bs.flatMap hexByte).length = 2 * bs.length ∧
      (bs.flatMap hexByte).all isLowerHex = true := by
    intro bs
    induction bs with
    | nil => exact ⟨rfl, rfl⟩
    | cons b bs ih =>
      rw [List.flatMap_cons, List.length_append, List.all_append, hexByte_eq, length_hexFixed, ih.1,
        ih.2, all_isLowerHex_hexFixed, List.length_cons]
      exact ⟨by omega, rfl⟩
  obtain ⟨h1, h2⟩ := hl ((cr.sha256 publicKey).take 16)
  rw [List.length_take, cr.sha256_length] at h1
  simp only [isValidDeviceId, deviceIdFromPublicKey, h1, h2]
  rfl

/-! ## A transparent stand-in -/

/-- Bytes cut or filled up with zeros to length `n`. -/
def fitTo (n : Nat) (b : Bytes) : Bytes := (b ++ List.replicate n 0).take n

theorem length_fitTo (n : Nat) (b : Bytes) : (fitTo n b).length = n := by
  simp [fitTo]

/-- Primitives that hide nothing: keys are one byte, the hash is the key, and a
signature repeats the key and the start of the message. -/
def plainCrypto : Crypto where
  sha256 := fitTo 32
  sha256_length := length_fitTo 32
  keygen seed := ⟨[Fin.ofNat 256 seed], [Fin.ofNat 256 seed]⟩
  sign msg key := fitTo 64 (key ++ msg)
  verify sig msg key := some (sig == fitTo 64 (key ++ msg))

theorem plainCrypto_sound : plainCrypto.Sound where
  sign_length _ _ := length_fitTo 64 _
  verify_sign _ _ := by simp [plainCrypto]

end TangentFeed
