import TangentFeed.Core.OpGrammar
import TangentFeed.Dart.Bytes

/-!
# Operations in Dart

`Op.fromJson` checks the fields of a received object and then an operation that
it built from them. A text is read by `JSON.parse` and by `jsonDecode`: the two
find the same fields, and each numeral is a number of JavaScript and one of Dart.
The size of an operation is that of the whole object in TypeScript, and that of
the eight fields, with Dart's numbers, in Dart.
-/

namespace TangentFeed.Dart

/-! ## Values on the wire -/

/-- A `num`, finite or not. -/
inductive AnyNum where
  | int (i : Int64)
  | double (d : Number)

/-- The `num` of a numeral with value `d` at the front of the text. -/
def anyNum (s : JsString) (d : Number) : AnyNum :=
  match readInteger s with
  | none => .double d
  | some (i, _) => if -2 ^ 63 ≤ i ∧ i < 2 ^ 63 then .int (Int64.ofInt i) else .double d

def readAnyNum (s : JsString) : Option (AnyNum × JsString) :=
  (Number.readNumber s).map fun p => (anyNum s p.1, p.2)

/-- A `Map` keeps the last value of a key, in the place of the first. -/
def ofAnyDoc {ν : Type} : Doc ν → Doc ν :=
  Doc.fold ⟨.null, .bool, .num, .str, .arr, fun fs =>
    .obj (fs.foldl (fun o f => OrderedMap.put f.1 f.2 o) [])⟩

/-- `jsonDecode(s)` of any text: a numeral may be above the greatest double. -/
def jsonDecodeAny (s : JsString) : Option (Doc AnyNum) :=
  (Json.parseDoc readAnyNum s).map ofAnyDoc

/-- `n.toString()`. -/
def anyText : AnyNum → JsString
  | .int i => intText i.toInt
  | .double d => doubleText d

/-- `jsonEncode(v)` of a value that `_assertJson` accepts. -/
def jsonEncodeAny (v : Doc AnyNum) : JsString := (v.map anyText).write

/-! ## Validation -/

/-- What a `BadOpError` of Dart complains about. -/
inductive OpFault where
  | notObject
  | fieldNotString (field : JsString)
  | missingValue
  | malformedHlc (hlc : JsString)
  | idNotHlc
  | deviceMismatch
  | badTable (table : JsString)
  | badColumn (column : JsString)
  | rowNotUlid (row : JsString)
  | nonFinite (path : JsString)
  | tooLarge

/-- The text of the `BadOpError`. -/
def OpFault.message (f : OpFault) : JsString :=
  js "BAD_OP: " ++ match f with
  | notObject => js "not an object"
  | fieldNotString field => js "field " ++ field ++ js " must be a string"
  | missingValue => js "missing value"
  | malformedHlc hlc => js "malformed hlc: " ++ hlc
  | idNotHlc => js "id must equal hlc in v0.1"
  | deviceMismatch => js "device does not match hlc suffix"
  | badTable table => js "bad table name: " ++ table
  | badColumn column => js "bad column name: " ++ column
  | rowNotUlid row => js "row is not a ULID: " ++ row
  | nonFinite path => path ++ js ": non-finite numbers are not valid JSON"
  | tooLarge => js "op exceeds 64 KiB"

def AnyNum.isFinite : AnyNum → Bool
  | .int _ => true
  | .double d => d.isFinite

/-- The elements of a list, from index `i`. -/
def assertElems (path : JsString) : Nat → List (JsString → Except OpFault Unit) →
    Except OpFault Unit
  | _, [] => .ok ()
  | i, check :: rest => do
    check (path ++ js "[" ++ Number.decimalDigits i ++ js "]")
    assertElems path (i + 1) rest

def assertEntries (path : JsString) : List (JsString × (JsString → Except OpFault Unit)) →
    Except OpFault Unit
  | [] => .ok ()
  | (key, check) :: rest => do
    check (path ++ js "." ++ key)
    assertEntries path rest

/-- `_assertJson`; the keys of a decoded map are strings. -/
def assertJson : Doc AnyNum → JsString → Except OpFault Unit :=
  Doc.fold {
    null := fun _ => .ok ()
    bool := fun _ _ => .ok ()
    num := fun n path => if n.isFinite then .ok () else .error (.nonFinite path)
    str := fun _ _ => .ok ()
    arr := fun checks path => assertElems path 0 checks
    obj := fun checks path => assertEntries path checks }

/-- `raw[key]` of a decoded value that is a `Map`. -/
def lookup (raw : Doc AnyNum) (key : JsString) : Option (Doc AnyNum) :=
  match raw with
  | .obj fs => fs.lookup key
  | _ => none

/-- An operation of Dart. -/
abbrev Op := OpFields (Doc AnyNum)

def Op.toJson (op : Op) : Doc AnyNum :=
  .obj [(js "id", .str op.id), (js "table", .str op.table), (js "row", .str op.row),
    (js "column", .str op.column), (js "value", op.value), (js "hlc", .str op.hlc),
    (js "device", .str op.device), (js "sig", .str op.sig)]

/-- The regular expressions are those of the TypeScript source. -/
def Op.validate (op : Op) : Except OpFault Unit :=
  match decodeHlc op.hlc with
  | .error _ => .error (.malformedHlc op.hlc)
  | .ok decoded =>
    if op.id ≠ op.hlc then .error .idNotHlc
    else if op.device ≠ decoded.deviceId then .error .deviceMismatch
    else if !isName op.table then .error (.badTable op.table)
    else if op.column ≠ tombstoneColumn ∧ !isName op.column then .error (.badColumn op.column)
    else if !isUlid op.row then .error (.rowNotUlid op.row)
    else
      match assertJson op.value (js "value") with
      | .error f => .error f
      | .ok () => if maxOpBytes < (jsonEncodeAny op.toJson).length then .error .tooLarge else .ok ()

/-- A string in a field. -/
def str (raw : Doc AnyNum) (field : JsString) : Except OpFault JsString :=
  match lookup raw field with
  | some (.str s) => .ok s
  | _ => .error (.fieldNotString field)

def Op.fromJson (raw : Doc AnyNum) : Except OpFault Op :=
  match raw with
  | .obj _ =>
    match lookup raw (js "value") with
    | none => .error .missingValue
    | some value => do
      let id ← str raw (js "id")
      let table ← str raw (js "table")
      let row ← str raw (js "row")
      let column ← str raw (js "column")
      let hlc ← str raw (js "hlc")
      let device ← str raw (js "device")
      let sig ← str raw (js "sig")
      let op : Op := ⟨id, table, row, column, value, hlc, device, sig⟩
      op.validate
      return op
  | _ => .error .notObject

/-! ## What validation accepts -/

/-- A value whose numbers are finite. -/
def Finite (v : Doc AnyNum) : Prop := v.All fun n => n.isFinite = true

theorem assertElems_eq_ok {xs : List (Doc AnyNum)} {path : JsString} {i : Nat}
    (h : ∀ x ∈ xs, ∀ path, assertJson x path = .ok () ↔ Finite x) :
    assertElems path i (xs.map assertJson) = .ok () ↔ ∀ x ∈ xs, Finite x := by
  induction xs generalizing i with
  | nil => exact ⟨fun _ => nofun, fun _ => rfl⟩
  | cons x xs ih =>
    obtain ⟨hx, hxs⟩ := List.forall_mem_cons.1 h
    rw [List.map_cons, assertElems, List.forall_mem_cons, ← ih hxs (i := i + 1),
      ← hx (path ++ js "[" ++ Number.decimalDigits i ++ js "]")]
    cases assertJson x (path ++ js "[" ++ Number.decimalDigits i ++ js "]") with
    | error f => exact ⟨nofun, fun h => by cases h.1⟩
    | ok u => exact ⟨fun h => ⟨rfl, h⟩, fun h => h.2⟩

theorem assertEntries_eq_ok {fs : List (JsString × Doc AnyNum)} {path : JsString}
    (h : ∀ f ∈ fs, ∀ path, assertJson f.2 path = .ok () ↔ Finite f.2) :
    assertEntries path (fs.map fun f => (f.1, assertJson f.2)) = .ok () ↔
      ∀ f ∈ fs, Finite f.2 := by
  induction fs with
  | nil => exact ⟨fun _ => nofun, fun _ => rfl⟩
  | cons f fs ih =>
    obtain ⟨hf, hfs⟩ := List.forall_mem_cons.1 h
    rw [List.map_cons, assertEntries, List.forall_mem_cons, ← ih hfs,
      ← hf (path ++ js "." ++ f.1)]
    cases assertJson f.2 (path ++ js "." ++ f.1) with
    | error fault => exact ⟨nofun, fun h => by cases h.1⟩
    | ok u => exact ⟨fun h => ⟨rfl, h⟩, fun h => h.2⟩

/-- **The value check of Dart accepts exactly the values with finite numbers.** -/
theorem assertJson_eq_ok (v : Doc AnyNum) : ∀ path, assertJson v path = .ok () ↔ Finite v := by
  induction v using Doc.ind with
  | null => exact fun _ => ⟨fun _ => trivial, fun _ => rfl⟩
  | bool b => exact fun _ => ⟨fun _ => trivial, fun _ => rfl⟩
  | str s => exact fun _ => ⟨fun _ => trivial, fun _ => rfl⟩
  | num n =>
    intro path
    change (if n.isFinite then .ok () else .error (.nonFinite path) : Except OpFault Unit) = .ok () ↔
      n.isFinite = true
    cases n.isFinite with
    | true => exact ⟨fun _ => rfl, fun _ => rfl⟩
    | false => exact ⟨nofun, fun h => absurd h Bool.false_ne_true⟩
  | arr xs ih =>
    intro path
    have hfold : assertJson (.arr xs) path = assertElems path 0 (xs.map assertJson) :=
      congrFun (Doc.fold_arr _ xs) path
    rw [hfold, assertElems_eq_ok ih]
    exact Doc.all_arr.symm
  | obj fs ih =>
    intro path
    have hfold : assertJson (.obj fs) path =
        assertEntries path (fs.map fun f => (f.1, assertJson f.2)) :=
      congrFun (Doc.fold_obj _ fs) path
    rw [hfold, assertEntries_eq_ok ih]
    exact Doc.all_obj.symm

/-- The object has the fields of a legal operation with finite numbers. -/
structure Checked (raw : Doc AnyNum) (op : Op) : Prop where
  fields : HasFields (lookup raw) Doc.str op
  legal : op.Legal
  finite : Finite op.value

theorem validate_eq_ok {op : Op} : op.validate = .ok () ↔
    op.Legal ∧ Finite op.value ∧ (jsonEncodeAny op.toJson).length ≤ maxOpBytes := by
  constructor
  · intro h
    unfold Op.validate at h
    split at h
    · cases h
    rename_i t ht
    split_ifs at h with hid hdev htab hcol hrow hsize
    · split at h <;> cases h
    split at h
    · cases h
    rename_i hjson
    obtain ⟨hr, henc⟩ := decodeHlc_eq_ok ht
    refine ⟨⟨⟨t, hr, henc.symm, not_not.1 hdev⟩, not_not.1 hid, isName_iff.1 (by simpa using htab),
      ?_, isUlid_iff.1 (by simpa using hrow)⟩, (assertJson_eq_ok _ _).1 hjson, Nat.not_lt.1 hsize⟩
    by_cases hc : op.column = tombstoneColumn
    · exact .inl hc
    · exact .inr (isName_iff.1 (by simpa [hc] using hcol))
  · rintro ⟨hlegal, hfinite, hsize⟩
    obtain ⟨t, hr, hhlc, hdev⟩ := hlegal.hlc
    have hcol : ¬ (op.column ≠ tombstoneColumn ∧ (!isName op.column) = true) := by
      rintro ⟨hne, hbad⟩
      rcases hlegal.column with hc | hc
      · exact hne hc
      · rw [isName_iff.2 hc] at hbad
        cases hbad
    have htable : ¬ (!isName op.table) = true := by rw [isName_iff.2 hlegal.table]; decide
    have hrow : ¬ (!isUlid op.row) = true := by rw [isUlid_iff.2 hlegal.row]; decide
    unfold Op.validate
    rw [hhlc, decodeHlc_encodeHlc hr]
    simp only
    rw [if_neg (not_not.2 (hlegal.id.trans hhlc)), if_neg (not_not.2 hdev), if_neg htable,
      if_neg hcol, if_neg hrow, (assertJson_eq_ok _ _).2 hfinite]
    exact if_neg (Nat.not_lt.2 hsize)

theorem str_eq_ok {raw : Doc AnyNum} {k s : JsString} :
    str raw k = .ok s ↔ lookup raw k = some (.str s) := by
  unfold str
  constructor
  · intro h
    split at h
    · rename_i hs
      rw [hs, Except.ok.inj h]
    · cases h
  · intro h
    rw [h]

theorem bind_eq_ok {α β : Type} {x : Except OpFault α} {f : α → Except OpFault β} {b : β} :
    (x >>= f) = .ok b ↔ ∃ a, x = .ok a ∧ f a = .ok b := by
  cases x with
  | error e => exact ⟨nofun, fun ⟨a, h, _⟩ => by cases h⟩
  | ok a => exact ⟨fun h => ⟨a, rfl, h⟩, fun ⟨a', h, hf⟩ => by rw [Except.ok.inj h]; exact hf⟩

/-- **What `Op.fromJson` accepts.** -/
theorem fromJson_eq_ok {raw : Doc AnyNum} {op : Op} : Op.fromJson raw = .ok op ↔
    Checked raw op ∧ (jsonEncodeAny op.toJson).length ≤ maxOpBytes := by
  constructor
  · intro h
    unfold Op.fromJson at h
    split at h
    · rename_i fs
      split at h
      · cases h
      rename_i value hvalue
      simp only [bind_eq_ok, str_eq_ok] at h
      obtain ⟨id, hid, table, htable, row, hrow, column, hcolumn, hlc, hhlc, device, hdevice, sig,
        hsig, u, hvalid, hop⟩ := h
      obtain rfl := Except.ok.inj hop
      obtain ⟨hlegal, hfinite, hsize⟩ := validate_eq_ok.1 hvalid
      exact ⟨⟨⟨hid, htable, hrow, hcolumn, hvalue, hhlc, hdevice, hsig⟩, hlegal, hfinite⟩, hsize⟩
    · cases h
  · rintro ⟨⟨hf, hlegal, hfinite⟩, hsize⟩
    unfold Op.fromJson
    cases raw with
    | obj fs =>
      simp only [hf.value, bind_eq_ok, str_eq_ok]
      exact ⟨_, hf.id, _, hf.table, _, hf.row, _, hf.column, _, hf.hlc, _, hf.device, _, hf.sig,
        (), validate_eq_ok.2 ⟨hlegal, hfinite, hsize⟩, rfl⟩
    | null => cases hf.value
    | bool b => cases hf.value
    | num n => cases hf.value
    | str s => cases hf.value
    | arr xs => cases hf.value

/-! ## One text read twice -/

/-- An integer is read as a number without fraction or exponent. -/
theorem readNumber_of_readInteger {s rest : JsString} {i : Int}
    (h : readInteger s = some (i, rest)) :
    ∃ neg, Number.readNumber s = some (Number.ofDecimal neg i.natAbs 0, rest) := by
  unfold readInteger at h
  unfold Number.readNumber
  simp only at h ⊢
  generalize (if decide (s.head? = some 0x2d) = true then s.tail else s) = t at h ⊢
  generalize decide (s.head? = some 0x2d) = neg at h ⊢
  split at h
  · cases h
  rename_i hlead
  split at h
  · cases h
  rename_i hstop
  obtain ⟨rfl, rfl⟩ := Prod.mk.inj (Option.some.inj h)
  rw [Bool.or_eq_true, not_or, Bool.and_eq_true, not_and_or] at hlead
  have hstops : Stops (t.dropWhile isDigit) := by
    intro c hc
    rw [Option.mem_def.1 hc] at hstop
    exact Bool.eq_false_iff.2 hstop
  have hdigits : (t.takeWhile isDigit).all isDigit = true := List.all_takeWhile
  have hread := Number.readDecimal_of hdigits (by simpa using hlead.1) (by simpa using hlead.2)
    hstops.not_digit (Number.readFraction_of_stops hstops) (Number.readExponent_of_stops hstops)
  rw [List.takeWhile_append_dropWhile, List.append_nil] at hread
  refine ⟨neg, ?_⟩
  rw [hread]
  cases neg with
  | true => simp
  | false => simp

theorem isFinite_ofDecimal (neg : Bool) {n : Nat} (hn : n ≤ 10 ^ 21) :
    (Number.ofDecimal neg n 0).isFinite = true := by
  obtain ⟨b, hb, hcell⟩ := Number.exists_inCell hn
  rw [Number.ofDecimal_eq_ofIndex neg hb (Number.inCell_natCast.2 hcell), Number.isFinite_iff,
    Number.index_ofIndex neg (hb.trans (by decide))]
  exact hb

/-- A numeral is finite in both languages or in none. -/
theorem isFinite_anyNum {s rest : JsString} {d : Number}
    (h : Number.readNumber s = some (d, rest)) : (anyNum s d).isFinite = d.isFinite := by
  unfold anyNum
  cases hi : readInteger s with
  | none => rfl
  | some p =>
    obtain ⟨i, rest'⟩ := p
    simp only
    by_cases hrange : -2 ^ 63 ≤ i ∧ i < 2 ^ 63
    · obtain ⟨neg, hread⟩ := readNumber_of_readInteger hi
      rw [h] at hread
      obtain ⟨rfl, -⟩ := Prod.mk.inj (Option.some.inj hread)
      rw [if_pos hrange, isFinite_ofDecimal neg (by omega)]
      rfl
    · rw [if_neg hrange]
      rfl

/-- A numeral: the number of JavaScript and the one of Dart that are read from one text. -/
structure Numeral where
  number : Number
  num : AnyNum
  read : ∃ s rest, Number.readNumber s = some (number, rest) ∧ num = anyNum s number

theorem Numeral.same (n : Numeral) : n.num.isFinite = n.number.isFinite := by
  obtain ⟨s, rest, h, hnum⟩ := n.read
  rw [hnum, isFinite_anyNum h]

def readNumeral (s : JsString) : Option (Numeral × JsString) :=
  match h : Number.readNumber s with
  | none => none
  | some (d, rest) => some (⟨d, anyNum s d, s, rest, h, rfl⟩, rest)

theorem readNumeral_spec (s : JsString) :
    Number.readNumber s = (readNumeral s).map (Prod.map Numeral.number id) ∧
      readAnyNum s = (readNumeral s).map (Prod.map Numeral.num id) := by
  unfold readAnyNum readNumeral
  split
  · rename_i h
    exact ⟨h, congrArg (Option.map fun p => (anyNum s p.1, p.2)) h⟩
  · rename_i d rest h
    exact ⟨h, congrArg (Option.map fun p => (anyNum s p.1, p.2)) h⟩

/-- **Both implementations read one document.** -/
theorem read_twice (s : JsString) :
    Json.parse s = (Json.parseDoc readNumeral s).map (fun t => Json.ofDoc (t.map Numeral.number)) ∧
      jsonDecodeAny s =
        (Json.parseDoc readNumeral s).map (fun t => ofAnyDoc (t.map Numeral.num)) := by
  unfold Json.parse jsonDecodeAny
  rw [Json.parseDoc_map fun s => (readNumeral_spec s).1,
    Json.parseDoc_map fun s => (readNumeral_spec s).2, Option.map_map, Option.map_map]
  exact ⟨rfl, rfl⟩

/-- The value of a name in a document. -/
def field {ν : Type} (t : Doc ν) (k : JsString) : Option (Doc ν) :=
  match t with
  | .obj fs => fs.reverse.lookup k
  | _ => none

theorem lookup_reverse_map {μ ν : Type} (g : μ → ν) (fs : List (JsString × μ)) (k : JsString) :
    (fs.map fun f => (f.1, g f.2)).reverse.lookup k = (fs.reverse.lookup k).map g := by
  rw [← List.map_reverse, OrderedMap.lookup_map]

/-- The two values of a document. -/
def inJs (t : Doc Numeral) : Json := Json.ofDoc (t.map Numeral.number)

def inDart (t : Doc Numeral) : Doc AnyNum := ofAnyDoc (t.map Numeral.num)

theorem inJs_obj (fs : List (JsString × Doc Numeral)) :
    inJs (.obj fs) = .obj (Json.ownFields (fs.map fun f => (f.1, inJs f.2))) := by
  unfold inJs
  rw [Doc.map_obj]
  refine (Doc.fold_obj _ _).trans ?_
  rw [List.map_map]
  rfl

theorem inDart_obj (fs : List (JsString × Doc Numeral)) : inDart (.obj fs) =
    .obj ((fs.map fun f => (f.1, inDart f.2)).foldl (fun o f => OrderedMap.put f.1 f.2 o) []) := by
  unfold inDart
  rw [Doc.map_obj]
  refine (Doc.fold_obj _ _).trans ?_
  rw [List.map_map]
  rfl

theorem get?_inJs (t : Doc Numeral) (k : JsString) :
    (inJs t).get? k = (field t k).map inJs := by
  cases t with
  | obj fs =>
    rw [inJs_obj]
    exact (Json.lookup_ownFields _ k).trans (lookup_reverse_map inJs fs k)
  | null => rfl
  | bool b => rfl
  | num n => rfl
  | str s => rfl
  | arr xs => rfl

theorem lookup_inDart (t : Doc Numeral) (k : JsString) :
    lookup (inDart t) k = (field t k).map inDart := by
  cases t with
  | obj fs =>
    rw [inDart_obj, lookup, OrderedMap.lookup_foldl_put, List.lookup_nil, Option.or_none]
    exact lookup_reverse_map inDart fs k
  | null => rfl
  | bool b => rfl
  | num n => rfl
  | str s => rfl
  | arr xs => rfl

theorem inJs_eq_str (t : Doc Numeral) (s : JsString) : inJs t = .str s ↔ t = .str s := by
  cases t with
  | str r => exact ⟨fun h => congrArg Doc.str (Json.str.inj h), fun h => by rw [h]; rfl⟩
  | null => exact ⟨nofun, nofun⟩
  | bool b => exact ⟨nofun, nofun⟩
  | num n => exact ⟨nofun, nofun⟩
  | arr xs => exact ⟨nofun, nofun⟩
  | obj fs => exact ⟨nofun, nofun⟩

theorem inDart_eq_str (t : Doc Numeral) (s : JsString) : inDart t = .str s ↔ t = .str s := by
  cases t with
  | str r => exact ⟨fun h => congrArg Doc.str (Doc.str.inj h), fun h => by rw [h]; rfl⟩
  | null => exact ⟨nofun, nofun⟩
  | bool b => exact ⟨nofun, nofun⟩
  | num n => exact ⟨nofun, nofun⟩
  | arr xs => exact ⟨nofun, nofun⟩
  | obj fs => exact ⟨nofun, nofun⟩

/-- What holds of the fields holds of the last of each name. -/
theorem forall_fields_iff {ν : Type} {l : List (JsString × ν)} (hn : (l.map Prod.fst).Nodup)
    {p : ν → Prop} : (∀ f ∈ l, p f.2) ↔ ∀ k x, l.lookup k = some x → p x := by
  constructor
  · exact fun h k x hx => h (k, x) ((OrderedMap.mem_iff_lookup hn).2 hx)
  · exact fun h f hf => h f.1 f.2 ((OrderedMap.mem_iff_lookup hn).1 hf)

/-- **A value is accepted in both languages or in none.** -/
theorem isJson_inJs (t : Doc Numeral) : IsJson (inJs t) ↔ Finite (inDart t) := by
  induction t using Doc.ind with
  | null => exact ⟨fun _ => trivial, fun _ => .null⟩
  | bool b => exact ⟨fun _ => trivial, fun _ => .bool b⟩
  | str s => exact ⟨fun _ => trivial, fun _ => .str s⟩
  | num n =>
    refine isJson_num.trans ?_
    rw [← n.same]
    exact Iff.rfl
  | arr xs ih =>
    have hjs : inJs (.arr xs) = .arr (xs.map inJs) := by
      unfold inJs
      rw [Doc.map_arr]
      refine (Doc.fold_arr _ _).trans ?_
      rw [List.map_map]
      rfl
    have hdart : inDart (.arr xs) = .arr (xs.map inDart) := by
      unfold inDart
      rw [Doc.map_arr]
      refine (Doc.fold_arr _ _).trans ?_
      rw [List.map_map]
      rfl
    unfold Finite
    rw [hjs, hdart, isJson_arr, Doc.all_arr, List.forall_mem_map, List.forall_mem_map]
    exact forall₂_congr ih
  | obj fs ih =>
    have hlast : ∀ k x, fs.reverse.lookup k = some x → (IsJson (inJs x) ↔ Finite (inDart x)) := by
      intro k x hx
      obtain ⟨l, l', hsplit, -⟩ := List.lookup_eq_some_iff.1 hx
      have hmem : (k, x) ∈ fs.reverse := by
        rw [hsplit]
        exact List.mem_append_right l List.mem_cons_self
      exact ih (k, x) (List.mem_reverse.1 hmem)
    unfold Finite
    rw [inJs_obj, inDart_obj, isJson_obj, Doc.all_obj, forall_fields_iff (Json.nodup_ownFields _),
      forall_fields_iff (OrderedMap.nodup_foldl_put _ (o := []) List.nodup_nil)]
    simp only [Json.lookup_ownFields, OrderedMap.lookup_foldl_put, List.lookup_nil, Option.or_none,
      lookup_reverse_map, Option.map_eq_some_iff, forall_exists_index, and_imp,
      forall_apply_eq_imp_iff₂]
    exact forall_congr' fun k => forall_congr' fun x => forall_congr' fun hx => hlast k x hx

/-- The object of an operation of any size, in both languages. -/
theorem shaped_iff (t : Doc Numeral) : Shaped (inJs t) ↔ ∃ op, Checked (inDart t) op := by
  constructor
  · rintro ⟨f, hf, hlegal, hjson⟩
    obtain ⟨x, hx, hvalue⟩ := (hasFields_iff (get?_inJs t) inJs_eq_str).1 hf
    rw [hvalue, isJson_inJs] at hjson
    exact ⟨f.withValue (inDart x), (hasFields_iff (lookup_inDart t) inDart_eq_str).2 ⟨x, hx, rfl⟩,
      hlegal.withValue _, hjson⟩
  · rintro ⟨op, hf, hlegal, hfinite⟩
    obtain ⟨x, hx, hvalue⟩ := (hasFields_iff (lookup_inDart t) inDart_eq_str).1 hf
    rw [hvalue, ← isJson_inJs] at hfinite
    exact ⟨op.withValue (inJs x), (hasFields_iff (get?_inJs t) inJs_eq_str).2 ⟨x, hx, rfl⟩,
      hlegal.withValue _, hfinite⟩

/-- An object has the fields of one operation. -/
theorem Checked.unique {raw : Doc AnyNum} {op op' : Op} (h : Checked raw op)
    (h' : Checked raw op') : op = op' := by
  have hstr : ∀ {k s r : JsString}, lookup raw k = some (.str s) → lookup raw k = some (.str r) →
      s = r := by
    intro k s r hs hr
    rw [hs] at hr
    exact Doc.str.inj (Option.some.inj hr)
  obtain ⟨hf, -, -⟩ := h
  obtain ⟨hf', -, -⟩ := h'
  have hvalue : op.value = op'.value := Option.some.inj (hf.value.symm.trans hf'.value)
  cases op
  cases op'
  simp only [OpFields.mk.injEq]
  exact ⟨hstr hf.id hf'.id, hstr hf.table hf'.table, hstr hf.row hf'.row,
    hstr hf.column hf'.column, hvalue, hstr hf.hlc hf'.hlc, hstr hf.device hf'.device,
    hstr hf.sig hf'.sig⟩

/-- TypeScript accepts the text as an operation. -/
def AcceptedInJs (s : JsString) : Prop := ∃ v, Json.parse s = some v ∧ validateOp v = .ok ()

/-- Dart accepts the text as an operation. -/
def AcceptedInDart (s : JsString) : Prop :=
  ∃ raw op, jsonDecodeAny s = some raw ∧ Op.fromJson raw = .ok op

/-- **When both implementations admit the same operations.** TypeScript accepts a text as an
operation if and only if Dart does, exactly when the text is not otherwise an operation or its
two sizes are on one side of the limit: that of the received object in TypeScript, and that of
the eight fields, with the numbers of Dart, in Dart. -/
theorem same_ops_iff (s : JsString) : (AcceptedInJs s ↔ AcceptedInDart s) ↔
    ∀ v raw op, Json.parse s = some v → jsonDecodeAny s = some raw → Checked raw op →
      (v.stringify.length ≤ maxOpBytes ↔ (jsonEncodeAny op.toJson).length ≤ maxOpBytes) := by
  obtain ⟨hjs, hdart⟩ := read_twice s
  unfold AcceptedInJs AcceptedInDart
  simp only [validateOp_eq_ok, validOp_iff, fromJson_eq_ok]
  cases ht : Json.parseDoc readNumeral s with
  | none =>
    rw [ht] at hjs hdart
    rw [hjs, hdart]
    constructor
    · intro _ v raw op h
      cases h
    · intro _
      constructor
      · rintro ⟨v, h, -⟩
        cases h
      · rintro ⟨raw, op, h, -⟩
        cases h
  | some t =>
    have hshaped := shaped_iff t
    rw [ht] at hjs hdart
    change _ = some (inJs t) at hjs
    change _ = some (inDart t) at hdart
    rw [hjs, hdart]
    constructor
    · rintro h v raw op hv hraw hop
      obtain rfl := Option.some.inj hv
      obtain rfl := Option.some.inj hraw
      constructor
      · intro hsize
        obtain ⟨raw, op', hraw, hop', hfits⟩ := h.1 ⟨_, rfl, hshaped.2 ⟨op, hop⟩, hsize⟩
        obtain rfl := Option.some.inj hraw
        rwa [hop.unique hop']
      · intro hsize
        obtain ⟨v, hv, -, hfits⟩ := h.2 ⟨_, op, rfl, hop, hsize⟩
        rwa [Option.some.inj hv]
    · intro h
      constructor
      · rintro ⟨v, hv, hv', hsize⟩
        obtain rfl := Option.some.inj hv
        obtain ⟨op, hop⟩ := hshaped.1 hv'
        exact ⟨_, op, rfl, hop, (h _ _ op rfl rfl hop).1 hsize⟩
      · rintro ⟨raw, op, hraw, hop, hsize⟩
        obtain rfl := Option.some.inj hraw
        exact ⟨_, rfl, hshaped.2 ⟨op, hop⟩, (h _ _ op rfl rfl hop).2 hsize⟩

/-- The text of an object is longer than the strings in it. -/
theorem length_le_stringify {v : Json} {k s : JsString} (h : v.get? k = some (.str s)) :
    s.length ≤ v.stringify.length := by
  cases v with
  | obj fs =>
    obtain ⟨l, l', hsplit, -⟩ := List.lookup_eq_some_iff.1 h
    have hmem : (k, (Json.str s).docText) ∈ fs.map fun f => (f.1, f.2.docText) := by
      rw [hsplit, List.map_append]
      exact List.mem_append_right _ List.mem_cons_self
    have htext : (Json.obj fs).docText = .obj (fs.map fun f => (f.1, f.2.docText)) := by
      rw [Json.docText, Json.toDoc, Json.toDocFields_eq, Doc.map_obj, List.map_map]
      rfl
    have hlt := Json.length_member_lt hmem
    have hquote : (Json.str s).docText.write = Json.quote s := rfl
    have hunits := Json.length_le_quoteUnits s
    rw [Json.stringify_eq_write, htext]
    rw [hquote, Json.quote, List.length_append, List.length_append] at hlt
    omega
  | null => cases h
  | bool b => cases h
  | num n => cases h
  | str s => cases h
  | arr xs => cases h

/-- An operation with a field that only some peers know. -/
def padded (n : Nat) : Doc Empty :=
  .obj [(js "id", .str (euroFields 0).id), (js "table", .str (euroFields 0).table),
    (js "row", .str (euroFields 0).row), (js "column", .str (euroFields 0).column),
    (js "value", .null), (js "hlc", .str (euroFields 0).hlc),
    (js "device", .str (euroFields 0).device), (js "sig", .str []),
    (js "note", .str (List.replicate n 0x61))]

/-- The text of the operation. -/
def paddedText (n : Nat) : JsString := ((padded n).map Empty.elim).write

theorem parseDoc_padded {ν : Type} (num : JsString → Option (ν × JsString)) (n : Nat) :
    Json.parseDoc num (paddedText n) = some ((padded n).map Empty.elim) :=
  Json.parseDoc_write nofun nofun (padded n)

/-- The operation that Dart builds. -/
def paddedOp : Op := (euroFields 0).withValue .null

theorem checked_padded (n : Nat) : Checked (ofAnyDoc ((padded n).map Empty.elim)) paddedOp where
  fields := ⟨rfl, rfl, rfl, rfl, rfl, rfl, rfl, rfl⟩
  legal := (legal_euro 0).withValue _
  finite := trivial

/-- A note that is longer than an operation may be is counted in TypeScript only. -/
theorem note_counts_in_js :
    ¬ AcceptedInJs (paddedText 70000) ∧ AcceptedInDart (paddedText 70000) := by
  constructor
  · rintro ⟨v, hv, hvalid⟩
    rw [Json.parse, parseDoc_padded] at hv
    obtain rfl := Option.some.inj hv
    have hsize := (validateOp_eq_ok.1 hvalid).size
    have hnote : ∀ n, (Json.ofDoc ((padded n).map Empty.elim)).get? (js "note") =
        some (.str (List.replicate n 0x61)) := fun n => rfl
    have hle := length_le_stringify (hnote 70000)
    rw [List.length_replicate] at hle
    unfold maxOpBytes at hsize
    omega
  · refine ⟨_, paddedOp, ?_, fromJson_eq_ok.2 ⟨checked_padded 70000, by decide +kernel⟩⟩
    rw [jsonDecodeAny, parseDoc_padded]
    rfl

end TangentFeed.Dart
