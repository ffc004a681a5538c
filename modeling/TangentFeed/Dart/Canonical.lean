import TangentFeed.Lib.OrderedMap
import TangentFeed.Js.Parse
import TangentFeed.Js.Whole

/-!
# Canonical JSON in Dart

A Dart peer has 64-bit integers next to doubles. Its values are documents over
`Num`: what `Op.validate` accepts has string keys and no double that is not
finite. `canonicalJson` is the Dart function of that name; `jsonEncode` and
`jsonDecode` are those of `dart:convert`.
-/

namespace TangentFeed.Dart

open Json (FiniteNumber)

/-- A finite `num`. -/
inductive Num where
  | int (i : Int64)
  | double (d : FiniteNumber)

/-! ## Printing numbers -/

/-- `i.toString()`. -/
def intText (i : Int) : JsString :=
  (if i < 0 then js "-" else []) ++ Number.decimalDigits i.natAbs

/-- `d == d.truncateToDouble() && d.abs() < 1e21`. -/
def isPlainWhole (d : Number) : Bool := d.isWhole && d.truncate < 10 ^ 21

/-- `d.toStringAsFixed(0)` of a whole number below `1e21`: its exact digits. -/
def fixedText (d : Number) : JsString :=
  (if d.negative then js "-" else []) ++ Number.decimalDigits d.truncate

/-- `d.toString()`: that of JavaScript, but with a fraction where it would look whole. -/
def doubleText (d : Number) : JsString :=
  if d.mantissa = 0 then if d.negative then js "-0.0" else js "0.0"
  else if isPlainWhole d then d.toString ++ js ".0"
  else d.toString

/-- `n.toString()`. -/
def numText : Num → JsString
  | .int i => intText i.toInt
  | .double d => doubleText d.1

def canonicalNumber : Num → JsString
  | .int i => intText i.toInt
  | .double d =>
    if d.1.mantissa = 0 then js "0"
    else if isPlainWhole d.1 then fixedText d.1
    else doubleText d.1

/-! ## Printing strings -/

/-- `_isLoneSurrogate`, given the code units before and after `c`. -/
def isLoneSurrogate (prev : Option CodeUnit) (c : CodeUnit) (next : Option CodeUnit) : Bool :=
  let isHigh := isHighSurrogate c
  let isLow := isLowSurrogate c
  if !isHigh && !isLow then false
  else if isHigh then !next.any isLowSurrogate
  else !prev.any isHighSurrogate

def canonicalUnit (prev : Option CodeUnit) (c : CodeUnit) (next : Option CodeUnit) : JsString :=
  if c = 0x22 then js "\\\""
  else if c = 0x5c then js "\\\\"
  else if c = 0x08 then js "\\b"
  else if c = 0x0c then js "\\f"
  else if c = 0x0a then js "\\n"
  else if c = 0x0d then js "\\r"
  else if c = 0x09 then js "\\t"
  else if c.val < 0x20 then js "\\u00" ++ [hexDigit (c.val / 16 % 16), hexDigit (c.val % 16)]
  else if isLoneSurrogate prev c next then
    js "\\u" ++ [hexDigit (c.val / 4096 % 16), hexDigit (c.val / 256 % 16),
      hexDigit (c.val / 16 % 16), hexDigit (c.val % 16)]
  else [c]

def canonicalUnits (prev : Option CodeUnit) : JsString → JsString
  | [] => []
  | c :: rest => canonicalUnit prev c rest.head? ++ canonicalUnits (some c) rest

def writeCanonicalString (s : JsString) : JsString := js "\"" ++ canonicalUnits none s ++ js "\""

/-! ## Printing values -/

/-- `_write`. -/
def canonicalJson : Doc Num → JsString :=
  Doc.fold {
    null := js "null"
    bool := fun b => if b then js "true" else js "false"
    num := canonicalNumber
    str := writeCanonicalString
    arr := fun xs => js "[" ++ [0x2c].intercalate xs ++ js "]"
    obj := fun fs => js "\x7b" ++ [0x2c].intercalate ((fs.insertionSort fun a b => a.1 ≤ b.1).map
      fun f => writeCanonicalString f.1 ++ js ":" ++ f.2) ++ js "\x7d" }

/-- `jsonEncode(v)`, which escapes strings as `JSON.stringify` does. -/
def jsonEncode (v : Doc Num) : JsString := (v.map numText).write

/-! ## Reading values -/

/-- An integer without fraction or exponent at the front of the text. -/
def readInteger (s : JsString) : Option (Int × JsString) :=
  let neg : Bool := s.head? = some 0x2d
  let s := if neg then s.tail else s
  let ip := s.takeWhile isDigit
  let rest := s.dropWhile isDigit
  if ip.isEmpty || (ip.length != 1 && ip.head? == some 0x30) then none
  else if rest.head?.any isNumeralUnit then none
  else some (if neg then -digitsVal ip else digitsVal ip, rest)

/-- A numeral: an `int` if it is one of 64 bits, else a `double`. -/
def readNum (s : JsString) : Option (Num × JsString) :=
  let double := match Number.readNumber s with
    | none => none
    | some (d, rest) => if h : d.isFinite = true then some (Num.double ⟨d, h⟩, rest) else none
  match readInteger s with
  | none => double
  | some (i, rest) => if -2 ^ 63 ≤ i ∧ i < 2 ^ 63 then some (.int (Int64.ofInt i), rest) else double

/-- A `Map` keeps the last value of a key, in the place of the first. -/
def ofDoc : Doc Num → Doc Num :=
  Doc.fold ⟨.null, .bool, .num, .str, .arr, fun fs =>
    .obj (fs.foldl (fun o f => OrderedMap.put f.1 f.2 o) [])⟩

/-- `jsonDecode(s)`, of a text without numbers above the greatest double. -/
def jsonDecode (s : JsString) : Option (Doc Num) := (Json.parseDoc readNum s).map ofDoc

/-! ## Strings are quoted as in JavaScript -/

theorem canonicalUnit_of_paired {prev next : Option CodeUnit} {c : CodeUnit}
    (hs : 0xd800 ≤ c.val) (h : isLoneSurrogate prev c next = false) :
    canonicalUnit prev c next = [c] := by
  have hne : ∀ d : CodeUnit, d.val < 0xd800 → c ≠ d := by
    rintro d hd rfl
    omega
  unfold canonicalUnit
  rw [if_neg (hne _ (by decide)), if_neg (hne _ (by decide)), if_neg (hne _ (by decide)),
    if_neg (hne _ (by decide)), if_neg (hne _ (by decide)), if_neg (hne _ (by decide)),
    if_neg (hne _ (by decide)), if_neg (by omega), h, if_neg (by decide)]

theorem unicodeEscape_eq (c : CodeUnit) : Json.unicodeEscape c =
    js "\\u" ++ [hexDigit (c.val / 4096 % 16), hexDigit (c.val / 256 % 16),
      hexDigit (c.val / 16 % 16), hexDigit (c.val % 16)] := by
  have hpad : padStart 4 0x30 (toString16 c.val) = hexFixed 4 c.val :=
    padStart_toString16 (by decide) c.isLt
  rw [Json.unicodeEscape, hpad]
  simp only [hexFixed, Nat.reducePow, Nat.div_one]

/-- A unit that is not part of a pair is escaped alike. -/
theorem canonicalUnit_eq {prev next : Option CodeUnit} {c : CodeUnit}
    (h : isLoneSurrogate prev c next = (isHighSurrogate c || isLowSurrogate c)) :
    canonicalUnit prev c next = Json.quoteUnit c := by
  have hcontrol : ∀ c : CodeUnit, c.val < 0x20 → js "\\u00" ++
      [hexDigit (c.val / 16 % 16), hexDigit (c.val % 16)] = Json.unicodeEscape c := by
    intro c hc
    have hzeros : js "\\u00" = js "\\u" ++ [hexDigit 0, hexDigit 0] := by decide +kernel
    rw [unicodeEscape_eq, show c.val / 4096 % 16 = 0 by omega, show c.val / 256 % 16 = 0 by omega,
      hzeros, List.append_assoc]
    rfl
  by_cases hnamed : c ∈ ([0x22, 0x5c, 0x08, 0x0c, 0x0a, 0x0d, 0x09] : List CodeUnit)
  · simp only [List.mem_cons, List.not_mem_nil, or_false] at hnamed
    unfold canonicalUnit Json.quoteUnit
    rcases hnamed with rfl | rfl | rfl | rfl | rfl | rfl | rfl <;> simp only [Fin.reduceEq, if_true,
      if_false]
  · simp only [List.mem_cons, List.not_mem_nil, or_false, not_or] at hnamed
    obtain ⟨h1, h2, h3, h4, h5, h6, h7⟩ := hnamed
    unfold canonicalUnit Json.quoteUnit
    rw [if_neg h1, if_neg h2, if_neg h3, if_neg h4, if_neg h5, if_neg h6, if_neg h7, if_neg h3,
      if_neg h7, if_neg h5, if_neg h4, if_neg h6, if_neg h1, if_neg h2, h, ← unicodeEscape_eq]
    by_cases hc : c.val < 0x20
    · rw [if_pos hc, hcontrol c hc, decide_eq_true hc, Bool.true_or, Bool.true_or, if_pos rfl]
    · rw [if_neg hc, decide_eq_false hc, Bool.false_or]

theorem not_low_of_high {c : CodeUnit} (h : isHighSurrogate c = true) :
    isLowSurrogate c = false := by
  unfold isHighSurrogate at h
  unfold isLowSurrogate
  simp only [Bool.and_eq_true, decide_eq_true_eq] at h
  rw [Bool.and_eq_false_iff, decide_eq_false_iff_not]
  exact .inl (by omega)

/-- A unit stands alone unless it makes a pair with one of its neighbours. -/
theorem isLoneSurrogate_eq {prev next : Option CodeUnit} {c : CodeUnit}
    (hprev : prev.any isHighSurrogate = true → isLowSurrogate c = false)
    (hnext : isHighSurrogate c = true → next.any isLowSurrogate = false) :
    isLoneSurrogate prev c next = (isHighSurrogate c || isLowSurrogate c) := by
  unfold isLoneSurrogate
  cases hh : isHighSurrogate c with
  | true => simp [hnext hh]
  | false =>
    cases hl : isLowSurrogate c with
    | false => rfl
    | true =>
      have hp : prev.any isHighSurrogate = false := by
        rw [Bool.eq_false_iff]
        intro hp
        rw [hprev hp] at hl
        cases hl
      simp [hp]

theorem canonicalUnits_eq {s : JsString} {prev : Option CodeUnit}
    (h : prev.any isHighSurrogate = true → s.head?.any isLowSurrogate = false) :
    canonicalUnits prev s = Json.quoteUnits s := by
  induction s using Json.quoteUnits.induct generalizing prev with
  | case1 => rfl
  | case2 c =>
    rw [canonicalUnits, canonicalUnits, List.append_nil, Json.quoteUnits]
    exact canonicalUnit_eq (isLoneSurrogate_eq h fun _ => rfl)
  | case3 c d s hpair ih =>
    obtain ⟨hc, hd⟩ := Bool.and_eq_true_iff.1 hpair
    have h1 : isLoneSurrogate prev c (some d) = false := by simp [isLoneSurrogate, hc, hd]
    have h2 : isLoneSurrogate (some c) d s.head? = false := by
      have hdh : isHighSurrogate d = false := by
        rw [Bool.eq_false_iff]
        intro hh
        rw [not_low_of_high hh] at hd
        cases hd
      simp [isLoneSurrogate, hc, hd, hdh]
    have hge : 0xd800 ≤ c.val ∧ 0xd800 ≤ d.val := by
      unfold isHighSurrogate at hc
      unfold isLowSurrogate at hd
      simp only [Bool.and_eq_true, decide_eq_true_eq] at hc hd
      omega
    rw [canonicalUnits, canonicalUnits, List.head?_cons, canonicalUnit_of_paired hge.1 h1,
      canonicalUnit_of_paired hge.2 h2, Json.quoteUnits, if_pos hpair, ih]
    · rfl
    · intro hh
      rw [Option.any_some] at hh
      rw [not_low_of_high hh] at hd
      cases hd
  | case4 c d s hpair ih =>
    have hnext : isHighSurrogate c = true → (some d).any isLowSurrogate = false := by
      intro hc
      rw [hc, Bool.true_and] at hpair
      exact Bool.eq_false_iff.2 hpair
    have hrest : (some c).any isHighSurrogate = true →
        (d :: s).head?.any isLowSurrogate = false := hnext
    rw [canonicalUnits, List.head?_cons, canonicalUnit_eq (isLoneSurrogate_eq h hnext),
      Json.quoteUnits, if_neg hpair, ih hrest]

/-- **Strings are quoted alike.** -/
theorem writeCanonicalString_eq (s : JsString) : writeCanonicalString s = Json.quote s := by
  rw [writeCanonicalString, Json.quote, canonicalUnits_eq (by simp)]

/-- Canonical JSON writes the document with sorted names. -/
theorem canonicalJson_eq_write (v : Doc Num) :
    canonicalJson v = (v.sorted.map canonicalNumber).write := by
  induction v using Doc.ind with
  | null => rfl
  | bool b => rfl
  | num n => rfl
  | str s => exact writeCanonicalString_eq s
  | arr xs ih =>
    have helems : xs.map canonicalJson =
        xs.map fun x => (x.sorted.map canonicalNumber).write := List.map_congr_left ih
    refine (Doc.fold_arr _ xs).trans ?_
    change js "[" ++ [0x2c].intercalate (xs.map canonicalJson) ++ js "]" = _
    rw [helems, Doc.sorted_arr, Doc.map_arr, Doc.write_arr, List.map_map, List.map_map]
    rfl
  | obj fs ih =>
    have hfields : fs.map (fun f => (f.1, canonicalJson f.2)) =
        fs.map fun f => (f.1, (f.2.sorted.map canonicalNumber).write) :=
      List.map_congr_left fun f hf => congrArg (Prod.mk f.1) (ih f hf)
    refine (Doc.fold_obj _ fs).trans ?_
    change js "\x7b" ++ [0x2c].intercalate (((fs.map fun f => (f.1, canonicalJson f.2)).insertionSort
      fun a b => a.1 ≤ b.1).map fun f => writeCanonicalString f.1 ++ js ":" ++ f.2) ++ js "\x7d" = _
    rw [hfields, Doc.insertionSort_map (fun x : Doc Num => (x.sorted.map canonicalNumber).write),
      List.map_map, Doc.sorted_obj, Doc.insertionSort_map Doc.sorted, Doc.map_obj, Doc.write_obj,
      List.map_map, List.map_map]
    congr 3
    exact List.map_congr_left fun f _ => by
      simp only [Function.comp_apply, writeCanonicalString_eq]
      rfl

end TangentFeed.Dart
