import TangentFeed.Dart.Storage

/-!
# Signatures in Dart

What a Dart device signs and how it checks a signature. The payload is the
canonical JSON of seven fields, so it exists unless a number in the value is not
finite. `base64.decode` takes the standard alphabet and the URL-safe one, insists
on padding, and on spare bits that are zero.
-/

namespace TangentFeed.Dart

/-! ## The payload -/

def AnyNum.toNum : AnyNum → Option Num
  | .int i => some (.int i)
  | .double d => if h : d.isFinite = true then some (.double ⟨d, h⟩) else none

/-- A field with the value that was read. -/
def named {α : Type} (f : JsString × Option α) : Option (JsString × α) := f.2.map fun x => (f.1, x)

/-- The value with finite numbers, `none` where `canonicalJson` throws. -/
def finiteDoc : Doc AnyNum → Option (Doc Num) :=
  Doc.fold {
    null := some .null
    bool := fun b => some (.bool b)
    num := fun n => n.toNum.map .num
    str := fun s => some (.str s)
    arr := fun xs => (xs.mapM id).map .arr
    obj := fun fs => (fs.mapM named).map .obj }

/-- The domain, then the canonical JSON of every field but `sig`. -/
def signedPayload (op : Op) : Option Bytes :=
  (finiteDoc op.value).map fun value =>
    textEncode (signingDomain ++ canonicalJson (.obj [(js "id", .str op.id),
      (js "table", .str op.table), (js "row", .str op.row), (js "column", .str op.column),
      (js "value", value), (js "hlc", .str op.hlc), (js "device", .str op.device)]))

theorem toNum_isSome (n : AnyNum) : n.toNum.isSome = n.isFinite := by
  cases n with
  | int i => rfl
  | double d =>
    change (if h : d.isFinite = true then some (Num.double ⟨d, h⟩) else none).isSome = d.isFinite
    by_cases h : d.isFinite = true
    · rw [dif_pos h, h]
      rfl
    · rw [dif_neg h, Bool.eq_false_iff.2 h]
      rfl

/-! ## Base64 -/

/-- The value of a character of either alphabet. -/
def sextet (c : CodeUnit) : Option Nat :=
  if c = 0x2d then some 62 else if c = 0x5f then some 63 else base64Value c

/-- One `"="` or `"%3D"` at the front. -/
def readPadding : JsString → Option JsString
  | 0x3d :: rest => some rest
  | 0x25 :: 0x33 :: d :: rest => if d = 0x44 ∨ d = 0x64 then some rest else none
  | _ => none

/-- What pads a text whose last group has `n` characters. -/
def isPadding (n : Nat) (tail : JsString) : Bool :=
  match n with
  | 0 => tail.isEmpty
  | 2 => ((readPadding tail).bind readPadding) == some []
  | 3 => readPadding tail == some []
  | _ => false

/-- `base64.decode(s)`, `none` where it throws. -/
def base64Decode (s : JsString) : Option Bytes :=
  let body := s.takeWhile fun c => (sextet c).isSome
  let sextets := body.filterMap sextet
  if isPadding (body.length % 4) (s.drop body.length) then
    (Base64.ofSextets sextets).bind fun bytes =>
      if Base64.toSextets bytes = sextets then some bytes else none
  else none

theorem sextet_base64Char : ∀ n < 64, sextet (base64Char n) = some n := by decide

/-- **The decoder reads back what the encoder wrote.** -/
theorem base64Decode_base64Encode (b : Bytes) : base64Decode (base64Encode b) = some b := by
  have hvalue : ∀ c ∈ Base64.encode base64Char b, (sextet c).isSome = true := by
    intro c hc
    obtain ⟨n, hn, rfl⟩ := List.mem_map.1 hc
    rw [sextet_base64Char n (Base64.toSextets_lt b n hn)]
    rfl
  have hbody : (base64Encode b).takeWhile (fun c => (sextet c).isSome) =
      Base64.encode base64Char b := by
    unfold base64Encode
    rw [List.takeWhile_append_of_pos hvalue]
    cases (3 - b.length % 3) % 3 with
    | zero => simp
    | succ n => simp [List.replicate_succ, padUnit, sextet, base64Value]
  have hsextets : (Base64.encode base64Char b).filterMap sextet = Base64.toSextets b := by
    unfold Base64.encode
    rw [List.filterMap_map]
    refine (List.filterMap_congr fun n hn => ?_).trans List.filterMap_some
    exact sextet_base64Char n (Base64.toSextets_lt b n hn)
  have hlen : (Base64.encode base64Char b).length = 4 * (b.length / 3) +
      (if b.length % 3 = 0 then 0 else b.length % 3 + 1) := by
    rw [Base64.encode, List.length_map, Base64.length_toSextets]
  have hpad : isPadding ((Base64.encode base64Char b).length % 4)
      ((base64Encode b).drop (Base64.encode base64Char b).length) = true := by
    unfold base64Encode
    rw [List.drop_left, hlen]
    have hlast : b.length % 3 = 0 ∨ b.length % 3 = 1 ∨ b.length % 3 = 2 := by omega
    rcases hlast with h | h | h
    · rw [h]
      simp [isPadding]
    · rw [h]
      simp [isPadding, List.replicate, readPadding, padUnit]
    · rw [h]
      simp [isPadding, readPadding, padUnit]
  unfold base64Decode
  simp only [hbody, hsextets, hpad, if_true, Base64.ofSextets_toSextets, Option.bind_some]

/-! ## Signatures -/

variable (cr : Crypto)

/-- `false`, never an exception, on a malformed signature. -/
def verifyPayload (payload : Bytes) (signature : JsString) (publicKey : Bytes) : Bool :=
  match base64Decode signature with
  | none => false
  | some bytes => if bytes.length = 64 then (cr.verify bytes payload publicKey).getD false else false

/-- `none` where it throws. -/
def verifyOp (op : Op) (publicKey : Bytes) : Option Bool :=
  (signedPayload op).map fun payload => verifyPayload cr payload op.sig publicKey

end TangentFeed.Dart
