import TangentFeed.Core.Signing

/-!
# Operations and their validation

An operation is the JSON object it travels as: `Op` is a JSON value together
with the proof that `validateOp` accepts it, so an invalid one cannot be built
and forwarding is the identity. A frontier maps each device to the greatest
HLC string seen from it.
-/

namespace TangentFeed

/-- `"-"`, the column of row tombstones. -/
def tombstoneColumn : JsString := js "-"

def maxOpBytes : Nat := 64 * 1024

def maxBatchOps : Nat := 1000

/-- What a `BadOpError` complains about. -/
inductive OpFault where
  | notObject
  | fieldNotString (f : JsString)
  | missingValue
  | malformedHlc (hlc : JsString)
  | idNotHlc
  | deviceMismatch
  | badTable (table : JsString)
  | badColumn (column : JsString)
  | rowNotUlid (row : JsString)
  | nonFinite (path : JsString)
  | tooLarge
  | batchTooLarge
  | unknownDevice (device : JsString)
  | badSignature (id : JsString)
  deriving DecidableEq, Repr

/-- The text of the `BadOpError`. -/
def OpFault.message (f : OpFault) : JsString :=
  js "BAD_OP: " ++ match f with
  | notObject => js "not an object"
  | fieldNotString f => js "field " ++ f ++ js " must be a string"
  | missingValue => js "missing value"
  | malformedHlc h => js "malformed hlc: " ++ h
  | idNotHlc => js "id must equal hlc in v0.1"
  | deviceMismatch => js "device does not match hlc suffix"
  | badTable t => js "bad table name: " ++ t
  | badColumn c => js "bad column name: " ++ c
  | rowNotUlid r => js "row is not a ULID: " ++ r
  | nonFinite p => p ++ js ": non-finite number"
  | tooLarge => js "op exceeds 64 KiB"
  | batchTooLarge => js "batch exceeds " ++ Number.decimalDigits maxBatchOps ++ js " ops"
  | unknownDevice d => js "unknown device " ++ d ++ js "; no key to verify against"
  | badSignature i => js "bad signature on op " ++ i

/-! ## Validation -/

/-- `[a-zA-Z_]`. -/
def isNameStart (c : CodeUnit) : Bool :=
  (0x61 ≤ c.val && c.val ≤ 0x7a) || (0x41 ≤ c.val && c.val ≤ 0x5a) || c.val == 0x5f

/-- `[a-zA-Z0-9_]`. -/
def isNameUnit (c : CodeUnit) : Bool := isNameStart c || (0x30 ≤ c.val && c.val ≤ 0x39)

/-- `NAME_RE.test(s)`. -/
def isName : JsString → Bool
  | [] => false
  | c :: rest => isNameStart c && rest.length ≤ 63 && rest.all isNameUnit

/-- `[0-9A-HJKMNP-TV-Z]`, in either case. -/
def isUlidUnit (c : CodeUnit) : Bool :=
  let u := if 0x61 ≤ c.val && c.val ≤ 0x7a then c.val - 0x20 else c.val
  (0x30 ≤ u && u ≤ 0x39) || (0x41 ≤ u && u ≤ 0x48) || u == 0x4a || u == 0x4b || u == 0x4d ||
    u == 0x4e || (0x50 ≤ u && u ≤ 0x54) || (0x56 ≤ u && u ≤ 0x5a)

/-- `ULID_RE.test(s)`. -/
def isUlid (s : JsString) : Bool := s.length == 26 && s.all isUlidUnit

mutual

/-- `assertJson`; a parsed JSON value fails it only by a non-finite number. -/
def assertJson : Json → JsString → Except OpFault Unit
  | .num n, path => if n.isFinite then .ok () else .error (.nonFinite path)
  | .arr xs, path => assertElems xs path 0
  | .obj fs, path => assertFields fs path
  | .null, _ => .ok ()
  | .bool _, _ => .ok ()
  | .str _, _ => .ok ()

def assertElems : List Json → JsString → Nat → Except OpFault Unit
  | [], _, _ => .ok ()
  | x :: rest, path, i =>
    match assertJson x (path ++ js "[" ++ Number.decimalDigits i ++ js "]") with
    | .error f => .error f
    | .ok () => assertElems rest path (i + 1)

def assertFields : List (JsString × Json) → JsString → Except OpFault Unit
  | [], _ => .ok ()
  | (k, x) :: rest, path =>
    match assertJson x (path ++ js "." ++ k) with
    | .error f => .error f
    | .ok () => assertFields rest path

end

/-- The fields that must be strings, in the order they are checked. -/
def stringFields : List JsString :=
  [js "id", js "table", js "row", js "column", js "hlc", js "device", js "sig"]

/-- Whether property `f` of `op` is a string. -/
def hasStr (op : Json) (f : JsString) : Bool :=
  match op.get? f with
  | some v => v.isStr
  | none => false

def validateOp (op : Json) : Except OpFault Unit :=
  if !op.isObject then .error .notObject
  else
    match stringFields.find? fun f => !hasStr op f with
    | some f => .error (.fieldNotString f)
    | none =>
      match op.get? (js "value") with
      | none => .error .missingValue
      | some value =>
        match decodeHlc (op.getStr (js "hlc")) with
        | .error _ => .error (.malformedHlc (op.getStr (js "hlc")))
        | .ok decoded =>
          if op.getStr (js "id") ≠ op.getStr (js "hlc") then .error .idNotHlc
          else if op.getStr (js "device") ≠ decoded.deviceId then .error .deviceMismatch
          else if !isName (op.getStr (js "table")) then .error (.badTable (op.getStr (js "table")))
          else if op.getStr (js "column") ≠ tombstoneColumn ∧ !isName (op.getStr (js "column")) then
            .error (.badColumn (op.getStr (js "column")))
          else if !isUlid (op.getStr (js "row")) then .error (.rowNotUlid (op.getStr (js "row")))
          else
            match assertJson value (js "value") with
            | .error f => .error f
            | .ok () => if maxOpBytes < (op.stringify).length then .error .tooLarge else .ok ()

/-- What an accepted operation satisfies. -/
structure ValidOp (op : Json) : Prop where
  object : op.isObject = true
  strings : ∀ f ∈ stringFields, hasStr op f = true
  value : ∃ v, op.get? (js "value") = some v ∧ assertJson v (js "value") = .ok ()
  hlc : ∃ h, decodeHlc (op.getStr (js "hlc")) = .ok h ∧ op.getStr (js "device") = h.deviceId
  id : op.getStr (js "id") = op.getStr (js "hlc")
  table : isName (op.getStr (js "table")) = true
  column : op.getStr (js "column") = tombstoneColumn ∨ isName (op.getStr (js "column")) = true
  row : isUlid (op.getStr (js "row")) = true
  size : op.stringify.length ≤ maxOpBytes

/-- **Validation accepts exactly the valid operations.** -/
theorem validateOp_eq_ok {op : Json} : validateOp op = .ok () ↔ ValidOp op := by
  constructor
  · intro h
    unfold validateOp at h
    split at h
    · cases h
    rename_i hobj
    split at h
    · cases h
    rename_i hstr
    split at h
    · cases h
    rename_i v hv
    split at h
    · cases h
    rename_i d hd
    split_ifs at h with hid hdev htab hcol hrow hsize
    · split at h <;> cases h
    split at h
    · cases h
    rename_i hj
    exact {
      object := by simpa using hobj
      strings := by simpa using hstr
      value := ⟨v, hv, hj⟩
      hlc := ⟨d, hd, by simpa using hdev⟩
      id := by simpa using hid
      table := by simpa using htab
      column := by
        by_cases hc : op.getStr (js "column") = tombstoneColumn
        · exact .inl hc
        · exact .inr (by simpa [hc] using hcol)
      row := by simpa using hrow
      size := by omega }
  · intro h
    obtain ⟨v, hv, hj⟩ := h.value
    obtain ⟨d, hd, hdev⟩ := h.hlc
    have hstr : (stringFields.find? fun f => !hasStr op f) = none := by
      simpa using h.strings
    unfold validateOp
    rw [hstr]
    simp only [h.object, hv, hd, hj, h.id, hdev, h.table, h.row, Bool.not_true, Bool.false_eq_true,
      ↓reduceIte, ne_eq, not_true_eq_false, not_lt.2 h.size]
    rw [if_neg]
    rintro ⟨h1, h2⟩
    rcases h.column with hc | hc
    · exact h1 hc
    · rw [hc] at h2; cases h2

/-- A validated operation. -/
structure Op where
  raw : Json
  valid : validateOp raw = .ok ()

namespace Op

def id (o : Op) : JsString := o.raw.getStr (js "id")
def table (o : Op) : JsString := o.raw.getStr (js "table")
def row (o : Op) : JsString := o.raw.getStr (js "row")
def column (o : Op) : JsString := o.raw.getStr (js "column")
def hlc (o : Op) : JsString := o.raw.getStr (js "hlc")
def device (o : Op) : JsString := o.raw.getStr (js "device")
def sig (o : Op) : JsString := o.raw.getStr (js "sig")
def value (o : Op) : Json := (o.raw.get? (js "value")).getD .null

/-- The cell an operation writes. -/
def cell (o : Op) : JsString × JsString × JsString := (o.table, o.row, o.column)

@[ext] theorem ext {o p : Op} (h : o.raw = p.raw) : o = p := by
  cases o; cases p; cases h; rfl

theorem isValid (o : Op) : ValidOp o.raw := validateOp_eq_ok.1 o.valid

theorem id_eq_hlc (o : Op) : o.id = o.hlc := o.isValid.id

/-- The timestamp of an operation. -/
theorem exists_hlc (o : Op) : ∃ h : Hlc, decodeHlc o.hlc = .ok h ∧ h.InRange ∧ encodeHlc h = o.hlc ∧
    h.deviceId = o.device := by
  obtain ⟨h, hd, hdev⟩ := o.isValid.hlc
  obtain ⟨h1, h2⟩ := decodeHlc_eq_ok hd
  exact ⟨h, hd, h1, h2, hdev.symm⟩

/-- Operations with one HLC string come from one device. -/
theorem device_eq_of_hlc {o p : Op} (h : o.hlc = p.hlc) : o.device = p.device := by
  obtain ⟨a, ha, -, -, hda⟩ := o.exists_hlc
  obtain ⟨b, hb, -, -, hdb⟩ := p.exists_hlc
  rw [h, hb] at ha
  obtain rfl := Except.ok.inj ha
  rw [← hda, ← hdb]

/-- The timestamp without its device, in counter units. -/
def ticks (o : Op) : Nat :=
  match decodeHlc o.hlc with
  | .ok h => h.ticks
  | .error _ => 0

theorem ticks_eq {o : Op} {h : Hlc} (e : decodeHlc o.hlc = .ok h) : o.ticks = h.ticks := by
  unfold ticks
  rw [e]

/-- Operations are ordered by ticks, then by device. -/
theorem hlc_lt {o p : Op} :
    o.hlc < p.hlc ↔ o.ticks < p.ticks ∨ o.ticks = p.ticks ∧ o.device < p.device := by
  obtain ⟨a, ha, hra, ea, hda⟩ := o.exists_hlc
  obtain ⟨b, hb, hrb, eb, hdb⟩ := p.exists_hlc
  rw [← ea, ← eb, encodeHlc_lt hra hrb, ticks_eq ha, ticks_eq hb, hda, hdb]

theorem ticks_eq_of_hlc {o p : Op} (h : o.hlc = p.hlc) : o.ticks = p.ticks := by
  unfold ticks
  rw [h]

theorem hlc_ne_nil (o : Op) : o.hlc ≠ [] := by
  obtain ⟨h, hd, -⟩ := o.isValid.hlc
  intro e
  have e' : o.raw.getStr (js "hlc") = [] := e
  rw [e'] at hd
  cases hd

end Op

theorem getStr_of_mem (op : Op) {k : JsString} (hk : k ∈ stringFields) :
    op.raw.get? k = some (.str (op.raw.getStr k)) := by
  have h := op.isValid.strings k hk
  unfold hasStr at h
  unfold Json.getStr
  cases hv : op.raw.get? k with
  | none => rw [hv] at h; cases h
  | some v =>
    rw [hv] at h
    cases v with
    | str s => rfl
    | null => cases h
    | bool b => cases h
    | num n => cases h
    | arr xs => cases h
    | obj fs => cases h

theorem value_of_mem (op : Op) : op.raw.get? (js "value") = some op.value := by
  obtain ⟨v, hv, -⟩ := op.isValid.value
  unfold Op.value
  rw [hv]
  rfl

/-- Validate a batch, stopping at the first bad entry. -/
def validateOps : List Json → Except OpFault (List Op)
  | [] => .ok []
  | j :: rest =>
    match h : validateOp j with
    | .error f => .error f
    | .ok () =>
      match validateOps rest with
      | .error f => .error f
      | .ok ops => .ok (⟨j, h⟩ :: ops)

theorem validateOps_eq_ok {js : List Json} {ops : List Op} :
    validateOps js = .ok ops ↔ js = ops.map Op.raw := by
  induction js generalizing ops with
  | nil => cases ops <;> simp [validateOps]
  | cons j js ih =>
    unfold validateOps
    split
    · rename_i f hf
      constructor
      · intro h; cases h
      · intro h
        cases ops with
        | nil => cases h
        | cons o ops =>
          simp only [List.map_cons, List.cons.injEq] at h
          rw [h.1, o.valid] at hf
          cases hf
    · rename_i hok
      split
      · rename_i f hf
        constructor
        · intro h; cases h
        · intro h
          cases ops with
          | nil => cases h
          | cons o ops =>
            simp only [List.map_cons, List.cons.injEq] at h
            rw [ih.2 h.2] at hf
            cases hf
      · rename_i rest hrest
        cases ops with
        | nil => simp
        | cons o ops =>
          have hr := ih.1 hrest
          simp only [Except.ok.injEq, List.cons.injEq, List.map_cons]
          constructor
          · rintro ⟨rfl, rfl⟩
            exact ⟨rfl, hr⟩
          · rintro ⟨rfl, h2⟩
            exact ⟨rfl, Except.ok.inj (hrest.symm.trans (ih.2 h2))⟩

@[simp] theorem validateOps_raw (ops : List Op) : validateOps (ops.map Op.raw) = .ok ops :=
  validateOps_eq_ok.2 rfl

/-! ## Frontiers -/

/-- deviceId → highest HLC string seen from that device. -/
abbrev Frontier := JsMap JsString

/-- Not yet seen by the frontier's holder. -/
def aboveFrontier (op : Op) (frontier : Frontier) : Bool :=
  match frontier[op.device]? with
  | none => true
  | some seen => seen < op.hlc

/-- Merge an operation's HLC into a frontier. -/
def advanceFrontier (frontier : Frontier) (op : Op) : Frontier :=
  match frontier[op.device]? with
  | none => frontier.insert op.device op.hlc
  | some seen => if op.hlc ≤ seen then frontier else frontier.insert op.device op.hlc

/-! ## What a signature covers -/

def payloadFields : List JsString :=
  [js "id", js "table", js "row", js "column", js "value", js "hlc", js "device"]

/-- The domain, then the canonical JSON of every field but `sig`. -/
def signedPayload (op : Json) : Bytes :=
  textEncode (signingDomain ++
    canonicalJson (.obj (payloadFields.map fun f => (f, (op.get? f).getD .null))))

def verifyOp (cr : Crypto) (op : Op) (publicKey : Bytes) : Bool :=
  verifyPayload cr (signedPayload op.raw) op.sig publicKey

end TangentFeed
