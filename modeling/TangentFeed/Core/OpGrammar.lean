import TangentFeed.Core.Op
import TangentFeed.Js.Utf8

/-!
# The grammar of operations

`IsOp` says what an operation is: its fields, its timestamp, its names, a value
with finite numbers, and an encoding of at most 64 KiB. Validation counts the
encoding in UTF-16 code units, so what it accepts is an operation unless its
encoding fits in that many units and not in as many bytes.
-/

namespace TangentFeed

/-! ## Names and rows -/

/-- The units between two characters. -/
def unitsBetween (first last : Char) : JsString :=
  (List.range' first.toNat (last.toNat + 1 - first.toNat)).map (Fin.ofNat 65536)

/-- The letters and the underscore. -/
def nameStarts : JsString := unitsBetween 'a' 'z' ++ unitsBetween 'A' 'Z' ++ js "_"

def nameUnits : JsString := nameStarts ++ unitsBetween '0' '9'

/-- The digits of Crockford's base 32 in either case. -/
def crockfordDigits : JsString :=
  unitsBetween '0' '9' ++ js "ABCDEFGHJKMNPQRSTVWXYZ" ++ js "abcdefghjkmnpqrstvwxyz"

/-- A table or column name. -/
structure LegalName (s : JsString) : Prop where
  length : s.length ≤ 64
  start : ∃ c ∈ s.head?, c ∈ nameStarts
  units : ∀ c ∈ s, c ∈ nameUnits

/-- A row name. -/
structure LegalRow (s : JsString) : Prop where
  length : s.length = 26
  units : ∀ c ∈ s, c ∈ crockfordDigits

/-- A class of units is the units of a string if it is so among the first 128. -/
theorem units_iff {p : CodeUnit → Bool} {l : JsString} (hp : ∀ c, p c = true → c.val < 128)
    (hl : l.all (fun c => c.val < 128) = true)
    (h : ∀ n : Fin 128, p (n.castLE (by decide)) = true ↔ n.castLE (by decide) ∈ l)
    (c : CodeUnit) : p c = true ↔ c ∈ l := by
  by_cases hc : c.val < 128
  · exact h ⟨c.val, hc⟩
  · exact ⟨fun hpc => absurd (hp c hpc) hc,
      fun hm => absurd (of_decide_eq_true (List.all_eq_true.1 hl c hm)) hc⟩

theorem isNameStart_iff (c : CodeUnit) : isNameStart c = true ↔ c ∈ nameStarts := by
  refine units_iff (fun c hc => ?_) (by decide +kernel) (by decide +kernel) c
  simp only [isNameStart, Bool.or_eq_true, Bool.and_eq_true, decide_eq_true_eq, beq_iff_eq] at hc
  omega

theorem isNameUnit_iff (c : CodeUnit) : isNameUnit c = true ↔ c ∈ nameUnits := by
  refine units_iff (fun c hc => ?_) (by decide +kernel) (by decide +kernel) c
  simp only [isNameUnit, isNameStart, Bool.or_eq_true, Bool.and_eq_true, decide_eq_true_eq,
    beq_iff_eq] at hc
  omega

theorem isUlidUnit_iff (c : CodeUnit) : isUlidUnit c = true ↔ c ∈ crockfordDigits := by
  refine units_iff (fun c hc => ?_) (by decide +kernel) (by decide +kernel) c
  simp only [isUlidUnit, Bool.or_eq_true, Bool.and_eq_true, decide_eq_true_eq, beq_iff_eq] at hc
  split_ifs at hc <;> omega

theorem isName_iff {s : JsString} : isName s = true ↔ LegalName s := by
  cases s with
  | nil => exact ⟨nofun, fun h => by obtain ⟨c, hc, -⟩ := h.start; cases hc⟩
  | cons c rest =>
    simp only [isName, Bool.and_eq_true, decide_eq_true_eq, List.all_eq_true, isNameStart_iff,
      isNameUnit_iff]
    constructor
    · rintro ⟨⟨hstart, hlen⟩, hrest⟩
      exact ⟨by rw [List.length_cons]; omega, ⟨c, rfl, hstart⟩,
        List.forall_mem_cons.2 ⟨List.mem_append_left _ hstart, hrest⟩⟩
    · intro h
      obtain ⟨d, hd, hstart⟩ := h.start
      obtain rfl := Option.some.inj hd
      have hlen := h.length
      rw [List.length_cons] at hlen
      exact ⟨⟨hstart, by omega⟩, (List.forall_mem_cons.1 h.units).2⟩

theorem isUlid_iff {s : JsString} : isUlid s = true ↔ LegalRow s := by
  simp only [isUlid, Bool.and_eq_true, beq_iff_eq, List.all_eq_true, isUlidUnit_iff]
  exact ⟨fun h => ⟨h.1, h.2⟩, fun h => ⟨h.length, h.units⟩⟩

/-! ## Values -/

/-- A JSON value: its numbers are finite. -/
inductive IsJson : Json → Prop where
  | null : IsJson .null
  | bool (b : Bool) : IsJson (.bool b)
  | num {n : Number} (h : n.isFinite = true) : IsJson (.num n)
  | str (s : JsString) : IsJson (.str s)
  | arr {xs : List Json} (h : ∀ x ∈ xs, IsJson x) : IsJson (.arr xs)
  | obj {fs : List (JsString × Json)} (h : ∀ f ∈ fs, IsJson f.2) : IsJson (.obj fs)

theorem isJson_num {n : Number} : IsJson (.num n) ↔ n.isFinite = true :=
  ⟨fun h => by cases h; assumption, .num⟩

theorem isJson_arr {xs : List Json} : IsJson (.arr xs) ↔ ∀ x ∈ xs, IsJson x :=
  ⟨fun h => by cases h; assumption, .arr⟩

theorem isJson_obj {fs : List (JsString × Json)} : IsJson (.obj fs) ↔ ∀ f ∈ fs, IsJson f.2 :=
  ⟨fun h => by cases h; assumption, .obj⟩

mutual

/-- **The value check accepts exactly the JSON values.** -/
theorem assertJson_eq_ok : (v : Json) → (path : JsString) →
    (assertJson v path = .ok () ↔ IsJson v)
  | .num n, path => by
    rw [assertJson, isJson_num]
    cases n.isFinite with
    | true => exact ⟨fun _ => rfl, fun _ => rfl⟩
    | false => exact ⟨nofun, nofun⟩
  | .arr xs, path => by rw [assertJson, assertElems_eq_ok xs, isJson_arr]
  | .obj fs, path => by rw [assertJson, assertFields_eq_ok fs, isJson_obj]
  | .null, _ => ⟨fun _ => .null, fun _ => rfl⟩
  | .bool b, _ => ⟨fun _ => .bool b, fun _ => rfl⟩
  | .str s, _ => ⟨fun _ => .str s, fun _ => rfl⟩

theorem assertElems_eq_ok : (xs : List Json) → (path : JsString) → (i : Nat) →
    (assertElems xs path i = .ok () ↔ ∀ x ∈ xs, IsJson x)
  | [], _, _ => ⟨fun _ => nofun, fun _ => rfl⟩
  | x :: rest, path, i => by
    rw [assertElems, List.forall_mem_cons, ← assertElems_eq_ok rest path (i + 1),
      ← assertJson_eq_ok x (path ++ js "[" ++ Number.decimalDigits i ++ js "]")]
    cases assertJson x (path ++ js "[" ++ Number.decimalDigits i ++ js "]") with
    | error f => exact ⟨nofun, fun h => by cases h.1⟩
    | ok u => exact ⟨fun h => ⟨rfl, h⟩, fun h => h.2⟩

theorem assertFields_eq_ok : (fs : List (JsString × Json)) → (path : JsString) →
    (assertFields fs path = .ok () ↔ ∀ f ∈ fs, IsJson f.2)
  | [], _ => ⟨fun _ => nofun, fun _ => rfl⟩
  | (k, x) :: rest, path => by
    rw [assertFields, List.forall_mem_cons, ← assertFields_eq_ok rest path,
      ← assertJson_eq_ok x (path ++ js "." ++ k)]
    cases assertJson x (path ++ js "." ++ k) with
    | error f => exact ⟨nofun, fun h => by cases h.1⟩
    | ok u => exact ⟨fun h => ⟨rfl, h⟩, fun h => h.2⟩

end

/-! ## Operations -/

/-- The fields of an operation, with a value of type `ν`. -/
structure OpFields (ν : Type) where
  id : JsString
  table : JsString
  row : JsString
  column : JsString
  value : ν
  hlc : JsString
  device : JsString
  sig : JsString

/-- What the strings of an operation are. -/
structure OpFields.Legal {ν : Type} (f : OpFields ν) : Prop where
  hlc : ∃ h : Hlc, h.InRange ∧ f.hlc = encodeHlc h ∧ f.device = h.deviceId
  id : f.id = f.hlc
  table : LegalName f.table
  column : f.column = tombstoneColumn ∨ LegalName f.column
  row : LegalRow f.row

/-- The fields are what `get` finds under their names, where `str` is a string. -/
structure HasFields {ν : Type} (get : JsString → Option ν) (str : JsString → ν)
    (f : OpFields ν) : Prop where
  id : get (js "id") = some (str f.id)
  table : get (js "table") = some (str f.table)
  row : get (js "row") = some (str f.row)
  column : get (js "column") = some (str f.column)
  value : get (js "value") = some f.value
  hlc : get (js "hlc") = some (str f.hlc)
  device : get (js "device") = some (str f.device)
  sig : get (js "sig") = some (str f.sig)

/-- The fields with another value. -/
def OpFields.withValue {μ ν : Type} (f : OpFields μ) (value : ν) : OpFields ν :=
  { f with value }

theorem OpFields.Legal.withValue {μ ν : Type} {f : OpFields μ} (h : f.Legal) (value : ν) :
    (f.withValue value).Legal :=
  ⟨h.hlc, h.id, h.table, h.column, h.row⟩

/-- Fields that are found through `g`, which makes strings of strings only. -/
theorem hasFields_iff {μ ν : Type} {get : JsString → Option μ} {get' : JsString → Option ν}
    {str : JsString → μ} {str' : JsString → ν} {g : μ → ν}
    (hget : ∀ k, get' k = (get k).map g) (hstr : ∀ x s, g x = str' s ↔ x = str s)
    {f : OpFields ν} : HasFields get' str' f ↔
      ∃ x, HasFields get str (f.withValue x) ∧ f.value = g x := by
  have hstring : ∀ {k s : JsString}, get' k = some (str' s) ↔ get k = some (str s) := by
    intro k s
    rw [hget, Option.map_eq_some_iff]
    simp only [hstr, exists_eq_right]
  constructor
  · intro h
    obtain ⟨x, hx, hvalue⟩ := Option.map_eq_some_iff.1 ((hget _).symm.trans h.value)
    exact ⟨x, ⟨hstring.1 h.id, hstring.1 h.table, hstring.1 h.row, hstring.1 h.column, hx,
      hstring.1 h.hlc, hstring.1 h.device, hstring.1 h.sig⟩, hvalue.symm⟩
  · rintro ⟨x, h, hvalue⟩
    exact ⟨hstring.2 h.id, hstring.2 h.table, hstring.2 h.row, hstring.2 h.column, by
      rw [hget, show get (js "value") = some x from h.value, hvalue]; rfl,
      hstring.2 h.hlc, hstring.2 h.device, hstring.2 h.sig⟩

/-- An operation of any size: it has the fields, and maybe others. -/
def Shaped (op : Json) : Prop := ∃ f, HasFields op.get? Json.str f ∧ f.Legal ∧ IsJson f.value

/-- The size of the encoding in bytes of UTF-8. -/
def byteSize (op : Json) : Nat := (textEncode op.stringify).length

/-- An operation. -/
structure IsOp (op : Json) : Prop where
  shaped : Shaped op
  size : byteSize op ≤ maxOpBytes

theorem getStr_of_get? {op : Json} {k s : JsString} (h : op.get? k = some (.str s)) :
    op.getStr k = s := by
  unfold Json.getStr
  rw [h]

theorem get?_of_hasStr {op : Json} {k : JsString} (h : hasStr op k = true) :
    op.get? k = some (.str (op.getStr k)) := by
  unfold hasStr at h
  split at h
  · rename_i v hv
    cases v with
    | str s => rw [getStr_of_get? hv, hv]
    | null => cases h
    | bool b => cases h
    | num n => cases h
    | arr xs => cases h
    | obj fs => cases h
  · cases h

theorem hasStr_of_get? {op : Json} {k s : JsString} (h : op.get? k = some (.str s)) :
    hasStr op k = true := by
  unfold hasStr
  rw [h]
  rfl

/-- The strings that validation reads. -/
def stringsOf (op : Json) (v : Json) : OpFields Json where
  id := op.getStr (js "id")
  table := op.getStr (js "table")
  row := op.getStr (js "row")
  column := op.getStr (js "column")
  value := v
  hlc := op.getStr (js "hlc")
  device := op.getStr (js "device")
  sig := op.getStr (js "sig")

/-- **Validation is the grammar with the size in UTF-16 code units.** -/
theorem validOp_iff {op : Json} :
    ValidOp op ↔ Shaped op ∧ op.stringify.length ≤ maxOpBytes := by
  constructor
  · intro h
    obtain ⟨v, hv, hjson⟩ := h.value
    obtain ⟨t, ht, hdev⟩ := h.hlc
    obtain ⟨hr, henc⟩ := decodeHlc_eq_ok ht
    have hget : ∀ k ∈ stringFields, op.get? k = some (.str (op.getStr k)) :=
      fun k hk => get?_of_hasStr (h.strings k hk)
    simp only [stringFields, List.forall_mem_cons, List.not_mem_nil, false_implies,
      implies_true, and_true] at hget
    obtain ⟨hid, htable, hrow, hcolumn, hhlc, hdevice, hsig⟩ := hget
    refine ⟨⟨stringsOf op v, ⟨hid, htable, hrow, hcolumn, hv, hhlc, hdevice, hsig⟩, ?_,
      (assertJson_eq_ok v _).1 hjson⟩, h.size⟩
    exact {
      hlc := ⟨t, hr, henc.symm, hdev⟩
      id := h.id
      table := isName_iff.1 h.table
      column := h.column.imp_right isName_iff.1
      row := isUlid_iff.1 h.row }
  · rintro ⟨⟨f, hf, hlegal, hjson⟩, hsize⟩
    obtain ⟨t, hr, hhlc, hdev⟩ := hlegal.hlc
    exact {
      object := by
        cases op with
        | obj fs => rfl
        | null => cases hf.value
        | bool b => cases hf.value
        | num n => cases hf.value
        | str s => cases hf.value
        | arr xs => cases hf.value
      strings := by
        simp only [stringFields, List.forall_mem_cons, List.not_mem_nil, false_implies,
          implies_true, and_true]
        exact ⟨hasStr_of_get? hf.id, hasStr_of_get? hf.table, hasStr_of_get? hf.row,
          hasStr_of_get? hf.column, hasStr_of_get? hf.hlc, hasStr_of_get? hf.device,
          hasStr_of_get? hf.sig⟩
      value := ⟨f.value, hf.value, (assertJson_eq_ok _ _).2 hjson⟩
      hlc := by
        rw [getStr_of_get? hf.hlc, getStr_of_get? hf.device, hhlc]
        exact ⟨t, decodeHlc_encodeHlc hr, hdev⟩
      id := by rw [getStr_of_get? hf.id, getStr_of_get? hf.hlc, hlegal.id]
      table := by rw [getStr_of_get? hf.table]; exact isName_iff.2 hlegal.table
      column := by
        rw [getStr_of_get? hf.column]
        exact hlegal.column.imp_right isName_iff.2
      row := by rw [getStr_of_get? hf.row]; exact isUlid_iff.2 hlegal.row
      size := hsize }

/-- **When validation is the grammar.** It returns for exactly the operations, and throws a
`BadOpError` for everything else, if and only if the input is not shaped like an operation
whose encoding has at most `maxOpBytes` UTF-16 code units and more bytes of UTF-8. -/
theorem validateOp_exact_iff (op : Json) :
    (IsOp op → validateOp op = .ok ()) ∧ (¬ IsOp op → ∃ f : OpFault, validateOp op = .error f) ↔
      ¬ (Shaped op ∧ op.stringify.length ≤ maxOpBytes ∧ maxOpBytes < byteSize op) := by
  have hunits : op.stringify.length ≤ byteSize op := length_le_textEncode op.stringify
  have hcheck := (@validateOp_eq_ok op).trans validOp_iff
  constructor
  · rintro ⟨-, hthrows⟩ ⟨hshaped, hfits, hbytes⟩
    obtain ⟨f, hf⟩ := hthrows fun h => Nat.not_lt.2 h.size hbytes
    rw [hcheck.2 ⟨hshaped, hfits⟩] at hf
    cases hf
  · intro h
    refine ⟨fun hop => hcheck.2 ⟨hop.shaped, hunits.trans hop.size⟩, fun hno => ?_⟩
    cases hv : validateOp op with
    | error f => exact ⟨f, rfl⟩
    | ok u =>
      obtain ⟨hshaped, hfits⟩ := hcheck.1 hv
      exact absurd ⟨hshaped, Nat.not_lt.1 fun hbytes => h ⟨hshaped, hfits, hbytes⟩⟩ hno

/-- A string without units that are escaped is quoted as it is. -/
theorem quoteUnits_replicate {c : CodeUnit} (h : Json.quoteUnit c = [c])
    (hs : isHighSurrogate c = false) (n : Nat) :
    Json.quoteUnits (List.replicate n c) = List.replicate n c := by
  induction n with
  | zero => rfl
  | succ n ih =>
    cases n with
    | zero => exact h
    | succ n =>
      rw [List.replicate_succ] at ih
      rw [List.replicate_succ, List.replicate_succ, Json.quoteUnits, hs, Bool.false_and,
        if_neg Bool.false_ne_true, ih, h]
      rfl

/-- An operation with a value of `n` euro signs. -/
def euroFields (n : Nat) : OpFields Json where
  id := encodeHlc ⟨1000, 0, List.replicate 32 0x30⟩
  table := js "todos"
  row := List.replicate 26 0x30
  column := js "title"
  value := .str (List.replicate n 0x20ac)
  hlc := encodeHlc ⟨1000, 0, List.replicate 32 0x30⟩
  device := List.replicate 32 0x30
  sig := []

/-- The object with the fields. -/
def OpFields.toJson (f : OpFields Json) : Json :=
  .obj [(js "id", .str f.id), (js "table", .str f.table), (js "row", .str f.row),
    (js "column", .str f.column), (js "value", f.value), (js "hlc", .str f.hlc),
    (js "device", .str f.device), (js "sig", .str f.sig)]

/-- The text of an operation before its value. -/
def OpFields.head (f : OpFields Json) : JsString :=
  js "\x7b" ++ Json.stringifyFields [(js "id", .str f.id), (js "table", .str f.table),
    (js "row", .str f.row), (js "column", .str f.column)] ++ js "," ++ Json.quote (js "value") ++
    js ":"

/-- The text of an operation after its value. -/
def OpFields.tail (f : OpFields Json) : JsString :=
  js "," ++ Json.stringifyFields [(js "hlc", .str f.hlc), (js "device", .str f.device),
    (js "sig", .str f.sig)] ++ js "\x7d"

theorem stringify_toJson (f : OpFields Json) :
    f.toJson.stringify = f.head ++ f.value.stringify ++ f.tail := by
  simp only [OpFields.toJson, OpFields.head, OpFields.tail, Json.stringify, Json.stringifyFields,
    List.append_assoc]

theorem hasFields_toJson (f : OpFields Json) : HasFields f.toJson.get? Json.str f :=
  ⟨rfl, rfl, rfl, rfl, rfl, rfl, rfl, rfl⟩

theorem legal_euro (n : Nat) : (euroFields n).Legal where
  hlc := ⟨⟨1000, 0, List.replicate 32 0x30⟩, ⟨by decide, by decide, by decide +kernel⟩, rfl, rfl⟩
  id := rfl
  table := isName_iff.1 (show isName (js "todos") = true by decide)
  column := .inr (isName_iff.1 (show isName (js "title") = true by decide))
  row := isUlid_iff.1 (show isUlid (List.replicate 26 0x30) = true by decide +kernel)

/-- The text of an operation around its euro signs is short and without surrogates. -/
theorem stringify_euro (n : Nat) : ∃ s t : JsString,
    (euroFields n).toJson.stringify = s ++ (List.replicate n 0x20ac ++ t) ∧
      (∀ c ∈ s ++ t, c.val < 0xd800) ∧ s.length + t.length ≤ 400 := by
  refine ⟨(euroFields 0).head ++ js "\"", js "\"" ++ (euroFields 0).tail, ?_, ?_, ?_⟩
  · rw [stringify_toJson, euroFields, Json.stringify, Json.stringifyScalar, Json.quote,
      quoteUnits_replicate (by decide) (by decide)]
    simp only [List.append_assoc]
    rfl
  · have hframe : ((euroFields 0).head ++ js "\"" ++ (js "\"" ++ (euroFields 0).tail)).all
        (fun c => c.val < 0xd800) = true := by
      decide +kernel
    exact fun c hc => of_decide_eq_true (List.all_eq_true.1 hframe c hc)
  · decide +kernel

theorem units_euro (n : Nat) : (euroFields n).toJson.stringify.length ≤ n + 400 := by
  obtain ⟨s, t, htext, -, hlen⟩ := stringify_euro n
  rw [htext, List.length_append, List.length_append, List.length_replicate]
  omega

theorem byteSize_euro (n : Nat) : 3 * n ≤ byteSize (euroFields n).toJson := by
  obtain ⟨s, t, htext, hframe, -⟩ := stringify_euro n
  have hplain : ∀ c ∈ s ++ (List.replicate n 0x20ac ++ t), c.val < 0xd800 := by
    intro c hc
    rcases List.mem_append.1 hc with hc | hc
    · exact hframe c (List.mem_append_left t hc)
    rcases List.mem_append.1 hc with hc | hc
    · rw [List.eq_of_mem_replicate hc]
      decide
    · exact hframe c (List.mem_append_right s hc)
  have heuro : (List.replicate n (0x20ac : CodeUnit)).flatMap (fun c => utf8Char c.val) =
      (List.replicate n (utf8Char 0x20ac)).flatten := by
    rw [List.flatMap_def, List.map_replicate]
    rfl
  have hthree : (utf8Char 0x20ac).length = 3 := by decide
  unfold byteSize
  rw [htext, textEncode_of_lt hplain, List.flatMap_append, List.flatMap_append, heuro,
    List.length_append, List.length_append, List.length_flatten, List.map_replicate, hthree,
    List.sum_replicate_nat]
  omega

/-- `22000` euro signs are `66000` bytes. -/
theorem euros_accepted :
    validateOp (euroFields 22000).toJson = .ok () ∧ ¬ IsOp (euroFields 22000).toJson := by
  have hunits := units_euro 22000
  have hbytes := byteSize_euro 22000
  refine ⟨validateOp_eq_ok.2 (validOp_iff.2
    ⟨⟨_, hasFields_toJson _, legal_euro 22000, .str _⟩, ?_⟩), fun h => ?_⟩
  · unfold maxOpBytes
    omega
  · have hsize := h.size
    unfold maxOpBytes at hsize
    omega

end TangentFeed
