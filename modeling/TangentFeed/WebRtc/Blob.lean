import Mathlib.Data.List.DropRight
import TangentFeed.Core.SpaceCipher

/-!
# Pairing blobs

What one device shows to the other as a QR code or as text to paste: a JSON
object in UTF-8 and base64url, without the padding.
-/

namespace TangentFeed.WebRtc

/-! ## Host functions -/

/-- `WhiteSpace` and `LineTerminator`. -/
def isSpace (c : CodeUnit) : Bool :=
  (0x09 ≤ c.val && c.val ≤ 0x0d) || c = 0x20 || c = 0xa0 || c = 0x1680 ||
    (0x2000 ≤ c.val && c.val ≤ 0x200a) || c = 0x2028 || c = 0x2029 || c = 0x202f || c = 0x205f ||
    c = 0x3000 || c = 0xfeff

/-- `s.trim()`. -/
def trim (s : JsString) : JsString := (s.dropWhile isSpace).rdropWhile isSpace

/-- `s.replaceAll(a, b)`, for single units. -/
def replaceAll (a b : CodeUnit) (s : JsString) : JsString := s.map fun c => if c = a then b else c

/-- `Boolean(v)`. -/
def truthy : Option Json → Bool
  | some (.bool b) => b
  | some (.num n) => n.mantissa != 0 && !n.isNaN
  | some (.str s) => s != []
  | some (.arr _) | some (.obj _) => true
  | some .null | none => false

/-! ## base64url -/

def b64urlEncode (s : JsString) : JsString :=
  (replaceAll 0x2f 0x5f (replaceAll 0x2b 0x2d (base64Encode (textEncode s)))).rdropWhile
    fun c => c = padUnit

/-- `none` where `atob` throws. -/
def b64urlDecode (s : JsString) : Option JsString :=
  let b64 := replaceAll 0x5f 0x2f (replaceAll 0x2d 0x2b s)
  (atob (b64 ++ List.replicate ((4 - b64.length % 4) % 4) padUnit)).map textDecode

/-! ## Blobs -/

inductive BlobKind where
  | offer
  | answer
  deriving DecidableEq, Repr

def BlobKind.text : BlobKind → JsString
  | offer => js "offer"
  | answer => js "answer"

/-- The properties of a blob, as `createOffer` and `acceptOffer` list them. -/
def blobFields (kind : BlobKind) (device space sdp : Json) : List (JsString × Json) :=
  [(js "v", .num .one), (js "kind", .str kind.text), (js "device", device), (js "space", space),
    (js "sdp", sdp)]

def encodeBlob (msg : Json) : JsString := b64urlEncode msg.stringify

inductive BlobError where
  | notValid
  | unrecognized
  deriving DecidableEq, Repr

def BlobError.message : BlobError → JsString
  | notValid => js "not a valid pairing blob (paste the whole code, nothing else)"
  | unrecognized => js "unrecognized pairing blob format"

/-- `m.v === 1`. -/
def isVersionOne (m : Json) : Bool :=
  match m.get? (js "v") with
  | some (.num n) => n = .one
  | _ => false

/-- `m.kind === kind`. -/
def isKind (kind : BlobKind) (m : Json) : Bool :=
  match m.get? (js "kind") with
  | some (.str s) => s = kind.text
  | _ => false

def decodeBlob (blob : JsString) : Except BlobError Json :=
  match (b64urlDecode (trim blob)).bind Json.parse with
  | none => .error .notValid
  | some m =>
    if !isVersionOne m || !truthy (m.get? (js "sdp")) || (!isKind .offer m && !isKind .answer m) ||
        !truthy (m.get? (js "space")) then
      .error .unrecognized
    else .ok m

/-! ## base64url is read back -/

/-- `[A-Za-z0-9_-]`. -/
def isUrlUnit (c : CodeUnit) : Bool :=
  (0x41 ≤ c.val && c.val ≤ 0x5a) || (0x61 ≤ c.val && c.val ≤ 0x7a) ||
    (0x30 ≤ c.val && c.val ≤ 0x39) || c = 0x2d || c = 0x5f

/-- The digit that stands for `n` in a blob. -/
def urlChar (n : Nat) : CodeUnit :=
  if base64Char n = 0x2b then 0x2d else if base64Char n = 0x2f then 0x5f else base64Char n

theorem urlChar_spec : ∀ n < 64, isUrlUnit (urlChar n) = true ∧ urlChar n ≠ padUnit ∧
    isSpace (urlChar n) = false := by decide +kernel

theorem base64Char_urlChar : ∀ n < 64, (let c := if urlChar n = 0x2d then 0x2b else urlChar n
    if c = 0x5f then 0x2f else c) = base64Char n := by decide +kernel

theorem rdropWhile_append {p : CodeUnit → Bool} {l t : JsString} (hl : ∀ c ∈ l, p c = false)
    (ht : ∀ c ∈ t, p c = true) : (l ++ t).rdropWhile p = l := by
  have hself : l.reverse.dropWhile p = l.reverse := by
    cases h : l.reverse with
    | nil => rfl
    | cons c r =>
      have hc : c ∈ l := List.mem_reverse.1 (h ▸ List.mem_cons_self)
      rw [List.dropWhile_cons, hl c hc, if_neg (by decide)]
  rw [List.rdropWhile, List.reverse_append,
    List.dropWhile_append_of_pos fun c hc => ht c (List.mem_reverse.1 hc), hself,
    List.reverse_reverse]

theorem trim_append {before l after : JsString} (hb : ∀ c ∈ before, isSpace c = true)
    (hl : ∀ c ∈ l, isSpace c = false) (ha : ∀ c ∈ after, isSpace c = true) :
    trim (before ++ l ++ after) = l := by
  rw [trim, List.append_assoc, List.dropWhile_append_of_pos hb]
  cases l with
  | nil => rw [List.nil_append, List.dropWhile_eq_nil_iff.2 ha, List.rdropWhile_nil]
  | cons c l =>
    rw [List.cons_append, List.dropWhile_cons, hl c List.mem_cons_self, if_neg (by decide),
      ← List.cons_append]
    exact rdropWhile_append hl ha

/-- A blob is the base64 digits of its text, in the other alphabet. -/
theorem b64urlEncode_eq (s : JsString) :
    b64urlEncode s = (Base64.toSextets (textEncode s)).map urlChar := by
  have hunit : ∀ n : Nat, (fun c => if c = 0x2f then 0x5f else c)
      ((fun c => if c = 0x2b then 0x2d else c) (base64Char n)) = urlChar n := by
    intro n
    unfold urlChar
    by_cases h : base64Char n = 0x2b
    · simp only [h, if_true]
      rfl
    · simp only [h, if_false]
  have hdigits : replaceAll 0x2f 0x5f (replaceAll 0x2b 0x2d (base64Encode (textEncode s))) =
      (Base64.toSextets (textEncode s)).map urlChar ++
        List.replicate ((3 - (textEncode s).length % 3) % 3) padUnit := by
    simp only [replaceAll, base64Encode, Base64.encode, List.map_append, List.map_map,
      List.map_replicate]
    exact congrArg (· ++ _) (List.map_congr_left fun n _ => hunit n)
  rw [b64urlEncode, hdigits, rdropWhile_append]
  · intro c hc
    obtain ⟨n, hn, rfl⟩ := List.mem_map.1 hc
    exact decide_eq_false (urlChar_spec n (Base64.toSextets_lt _ n hn)).2.1
  · intro c hc
    exact decide_eq_true (List.eq_of_mem_replicate hc)

/-- **The padding is made up for**, whatever the number of bytes. -/
theorem b64urlDecode_b64urlEncode (s : JsString) :
    b64urlDecode (b64urlEncode s) = some (textDecode (textEncode s)) := by
  rw [b64urlEncode_eq]
  have hback : replaceAll 0x5f 0x2f (replaceAll 0x2d 0x2b
      ((Base64.toSextets (textEncode s)).map urlChar)) =
        Base64.encode base64Char (textEncode s) := by
    simp only [replaceAll, Base64.encode, List.map_map]
    exact List.map_congr_left fun n hn =>
      base64Char_urlChar n (Base64.toSextets_lt (textEncode s) n hn)
  have hpad : (4 - (Base64.encode base64Char (textEncode s)).length % 4) % 4 =
      (3 - (textEncode s).length % 3) % 3 := by
    rw [Base64.encode, List.length_map, Base64.length_toSextets]
    split <;> omega
  unfold b64urlDecode
  simp only [hback, hpad]
  exact congrArg (Option.map textDecode) (atob_base64Encode (textEncode s))

theorem textDecode_stringify (v : Json) : textDecode (textEncode v.stringify) = v.stringify := by
  rw [Json.stringify_eq_write, Json.docText]
  exact textDecode_docText _

/-- A blob in white space is read as the text it was made of. -/
theorem decodeBlob_eq (v : Json) {before after : JsString}
    (hb : ∀ c ∈ before, isSpace c = true) (ha : ∀ c ∈ after, isSpace c = true) :
    (b64urlDecode (trim (before ++ encodeBlob v ++ after))).bind Json.parse =
      some v.reparsed.ordered := by
  have hunits : ∀ c ∈ encodeBlob v, isSpace c = false := by
    intro c hc
    rw [encodeBlob, b64urlEncode_eq] at hc
    obtain ⟨n, hn, rfl⟩ := List.mem_map.1 hc
    exact (urlChar_spec n (Base64.toSextets_lt _ n hn)).2.2
  rw [trim_append hb hunits ha, encodeBlob, b64urlDecode_b64urlEncode, textDecode_stringify]
  exact Json.parse_stringify v

/-! ## Blobs are read back -/

/-- Distinct names that are not indices stay as they are added. -/
theorem ownFields_of_names {fs : List (JsString × Json)} (hn : (fs.map Prod.fst).Nodup)
    (hi : ∀ f ∈ fs, isIndex f.1 = false) : Json.ownFields fs = fs := by
  have key : ∀ (fs o : List (JsString × Json)), ((o ++ fs).map Prod.fst).Nodup →
      (∀ f ∈ fs, isIndex f.1 = false) → fs.foldl (fun o f => withOwn o f.1 f.2) o = o ++ fs := by
    intro fs
    induction fs with
    | nil => exact fun o _ _ => (List.append_nil o).symm
    | cons f fs ih =>
      intro o ho hi
      have hnew : o.any (·.1 == f.1) = false := by
        rw [Bool.eq_false_iff, ne_eq, List.any_eq_true]
        rintro ⟨g, hg, he⟩
        rw [List.map_append, List.map_cons, List.nodup_append] at ho
        exact ho.2.2 _ (List.mem_map_of_mem hg) _ List.mem_cons_self (beq_iff_eq.1 he)
      have hadd : withOwn o f.1 f.2 = o ++ [f] := by
        rw [withOwn, hnew, hi f List.mem_cons_self]
        rfl
      rw [List.foldl_cons, hadd, ih _ (by rwa [List.append_cons] at ho)
        fun g hg => hi g (List.mem_cons_of_mem f hg), ← List.append_cons]
  exact key fs [] hn hi

/-- An object with string members, in the order an object has them. -/
structure Description where
  members : List (JsString × JsString)
  own : Json.ownFields (members.map fun f => (f.1, .str f.2)) = members.map fun f => (f.1, .str f.2)

def Description.toJson (d : Description) : Json := .obj (d.members.map fun f => (f.1, .str f.2))

/-- A value of type `Blob1`; its properties may come in any order. -/
structure Blob1 where
  kind : BlobKind
  device : JsString
  space : JsString
  sdp : Description
  fields : List (JsString × Json)
  perm : fields.Perm (blobFields kind (.str device) (.str space) sdp.toJson)

namespace Blob1

def toJson (m : Blob1) : Json := .obj m.fields

theorem toJson_sdp (d : Description) : d.toJson.reparsed.ordered = d.toJson := by
  rw [Description.toJson, Json.reparsed, Json.ordered, Json.orderedFields_reparsed, List.map_map]
  exact congrArg Json.obj d.own

theorem names (m : Blob1) :
    (m.fields.map Prod.fst).Perm [js "v", js "kind", js "device", js "space", js "sdp"] :=
  m.perm.map Prod.fst

theorem nodup_fields (m : Blob1) : (m.fields.map Prod.fst).Nodup :=
  m.names.nodup_iff.2 (by decide +kernel)

/-- A blob is what its JSON text says. -/
theorem reparsed_toJson (m : Blob1) : m.toJson.reparsed.ordered = m.toJson := by
  have hvalue : ∀ f ∈ m.fields, (f.1, f.2.reparsed.ordered) = f := by
    intro f hf
    have hmem := m.perm.mem_iff.1 hf
    simp only [blobFields, List.mem_cons, List.not_mem_nil, or_false] at hmem
    rcases hmem with rfl | rfl | rfl | rfl | rfl
    · rfl
    · rfl
    · rfl
    · rfl
    · rw [toJson_sdp]
  have hname : ∀ f ∈ m.fields, isIndex f.1 = false := by
    have hnames : ∀ k ∈ [js "v", js "kind", js "device", js "space", js "sdp"],
        isIndex k = false := by decide +kernel
    exact fun f hf => hnames f.1 (m.names.mem_iff.1 (List.mem_map_of_mem hf))
  rw [toJson, Json.reparsed, Json.ordered, Json.orderedFields_reparsed,
    List.map_congr_left hvalue, List.map_id', ownFields_of_names m.nodup_fields hname]

theorem get?_toJson (m : Blob1) (k : JsString) :
    m.toJson.get? k =
      (blobFields m.kind (.str m.device) (.str m.space) m.sdp.toJson).lookup k :=
  OrderedMap.lookup_perm m.perm m.nodup_fields k

end Blob1

/-- **Pairing blobs survive the trip**: letters, digits, `-` and `_` only, and read back as they
were, with any white space around them. -/
theorem decodeBlob_encodeBlob (m : Blob1) (hs : m.space ≠ []) {before after : JsString}
    (hb : ∀ c ∈ before, isSpace c = true) (ha : ∀ c ∈ after, isSpace c = true) :
    (∀ c ∈ encodeBlob m.toJson, isUrlUnit c = true) ∧
      decodeBlob (before ++ encodeBlob m.toJson ++ after) = .ok m.toJson := by
  constructor
  · intro c hc
    rw [encodeBlob, b64urlEncode_eq] at hc
    obtain ⟨n, hn, rfl⟩ := List.mem_map.1 hc
    exact (urlChar_spec n (Base64.toSextets_lt _ n hn)).1
  · have hv : isVersionOne m.toJson = true := by
      rw [isVersionOne, m.get?_toJson]
      rfl
    have hkind : (isKind .offer m.toJson || isKind .answer m.toJson) = true := by
      rw [isKind, isKind, m.get?_toJson]
      cases m.kind <;> rfl
    have hsdp : truthy (m.toJson.get? (js "sdp")) = true := by
      rw [m.get?_toJson]
      rfl
    have hspace : truthy (m.toJson.get? (js "space")) = true := by
      rw [m.get?_toJson]
      exact bne_iff_ne.2 hs
    unfold decodeBlob
    rw [decodeBlob_eq m.toJson hb ha, m.reparsed_toJson]
    simp only
    have hknown : (!isKind .offer m.toJson && !isKind .answer m.toJson) = false := by
      rw [← Bool.not_or, hkind, Bool.not_true]
    rw [hv, hsdp, hspace, hknown]
    rfl

/-- An answer whose description has a pair, a lone surrogate and a line break in it. -/
def sampleBlob : Blob1 where
  kind := .answer
  device := js "00ff"
  space := js "manual-1"
  sdp := ⟨[(js "type", js "answer"), (js "sdp", [0xd83d, 0xde00, 0xd83d, 0xe9] ++ js "\r\n")],
    by rw [ownFields_of_names (by decide +kernel) (by decide +kernel)]⟩
  fields := _
  perm := .refl _

theorem decodeBlob_encodeBlob_sample :
    decodeBlob (js "\n " ++ encodeBlob sampleBlob.toJson ++ [0xa0]) = .ok sampleBlob.toJson :=
  (decodeBlob_encodeBlob sampleBlob (by decide +kernel) (List.all_eq_true.1 (by decide +kernel))
    (List.all_eq_true.1 (by decide +kernel))).2

example : encodeBlob sampleBlob.toJson =
    js "eyJ2IjoxLCJraW5kIjoiYW5zd2VyIiwiZGV2aWNlIjoiMDBmZiIsInNwYWNlIjoibWFudWFsLTEiLCJzZHAiOns" ++
    js "idHlwZSI6ImFuc3dlciIsInNkcCI6IvCfmIBcdWQ4M2TDqVxyXG4ifX0" := by decide +kernel

end TangentFeed.WebRtc
