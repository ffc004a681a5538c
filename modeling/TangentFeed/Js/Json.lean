import TangentFeed.Js.Number

/-!
# JSON values

`Json` is what `JSON.parse` returns; an object is the list of its own
properties, in their order and with distinct names. `Json.stringify` is
`JSON.stringify`.
-/

namespace TangentFeed

inductive Json where
  | null
  | bool (b : Bool)
  | num (n : Number)
  | str (s : JsString)
  | arr (elems : List Json)
  | obj (fields : List (JsString × Json))
  deriving Repr, Inhabited

namespace Json

/-- `typeof v === "object" && v !== null`. -/
def isObject : Json → Bool
  | arr _ | obj _ => true
  | _ => false

/-- `typeof v === "string"`. -/
def isStr : Json → Bool
  | str _ => true
  | _ => false

/-- `v === true`. -/
def isTrue : Json → Bool
  | bool true => true
  | _ => false

/-- `v === null`. -/
def isNull : Json → Bool
  | null => true
  | _ => false

/-- Property `k`, if there is one (`none` is `undefined`). -/
def get? : Json → JsString → Option Json
  | obj fields, k => fields.lookup k
  | _, _ => none

/-- The string in property `k`. -/
def getStr (v : Json) (k : JsString) : JsString :=
  match v.get? k with
  | some (str s) => s
  | _ => []

/-! ## `JSON.stringify` -/

/-- `\uXXXX`. -/
def unicodeEscape (c : CodeUnit) : JsString := js "\\u" ++ padStart 4 0x30 (toString16 c.val)

/-- One code unit that stands alone in a quoted string. -/
def quoteUnit (c : CodeUnit) : JsString :=
  if c = 0x08 then js "\\b"
  else if c = 0x09 then js "\\t"
  else if c = 0x0a then js "\\n"
  else if c = 0x0c then js "\\f"
  else if c = 0x0d then js "\\r"
  else if c = 0x22 then js "\\\""
  else if c = 0x5c then js "\\\\"
  else if c.val < 0x20 || isHighSurrogate c || isLowSurrogate c then unicodeEscape c
  else [c]

/-- `QuoteJSONString` without the quotes: a surrogate pair is kept, a lone
surrogate escaped. -/
def quoteUnits : JsString → JsString
  | [] => []
  | [c] => quoteUnit c
  | c :: d :: rest =>
    if isHighSurrogate c && isLowSurrogate d then c :: d :: quoteUnits rest
    else quoteUnit c ++ quoteUnits (d :: rest)

def quote (s : JsString) : JsString := js "\"" ++ quoteUnits s ++ js "\""

/-- `JSON.stringify` of a value that is not an object or an array. -/
def stringifyScalar : Json → JsString
  | null => js "null"
  | bool b => if b then js "true" else js "false"
  | num n => if n.isFinite then n.toString else js "null"
  | str s => quote s
  | arr _ | obj _ => []

mutual

def stringify : Json → JsString
  | arr xs => js "[" ++ stringifyElems xs ++ js "]"
  | obj fs => js "\x7b" ++ stringifyFields fs ++ js "\x7d"
  | null => stringifyScalar null
  | bool b => stringifyScalar (bool b)
  | num n => stringifyScalar (num n)
  | str s => stringifyScalar (str s)

def stringifyElems : List Json → JsString
  | [] => []
  | [x] => stringify x
  | x :: y :: rest => stringify x ++ js "," ++ stringifyElems (y :: rest)

def stringifyFields : List (JsString × Json) → JsString
  | [] => []
  | [(k, x)] => quote k ++ js ":" ++ stringify x
  | (k, x) :: f :: rest => quote k ++ js ":" ++ stringify x ++ js "," ++ stringifyFields (f :: rest)

end

example : stringify (.obj [(js "a", .arr [.null, .bool true]), (js "b", .str [0xd83d, 0xde00, 0xd83d])])
    = js "\x7b\"a\":[null,true],\"b\":\"" ++ [0xd83d, 0xde00] ++ js "\\ud83d\"\x7d" := by decide +kernel

/-! ## `JSON.parse` of what `JSON.stringify` writes -/

mutual

/-- `JSON.parse(JSON.stringify(v))`: a negative zero loses its sign, a number
that is not finite is written as `null`, and everything else comes back. -/
def reparsed : Json → Json
  | num n => if n.isFinite then num (if n.mantissa = 0 then ⟨0⟩ else n) else null
  | arr xs => arr (reparsedElems xs)
  | obj fs => obj (reparsedFields fs)
  | null => null
  | bool b => bool b
  | str s => str s

def reparsedElems : List Json → List Json
  | [] => []
  | x :: rest => reparsed x :: reparsedElems rest

def reparsedFields : List (JsString × Json) → List (JsString × Json)
  | [] => []
  | (k, x) :: rest => (k, reparsed x) :: reparsedFields rest

end

theorem get?_reparsed (v : Json) (k : JsString) :
    v.reparsed.get? k = (v.get? k).map reparsed := by
  cases v with
  | obj fs =>
    rw [reparsed]
    unfold get?
    simp only
    induction fs with
    | nil => rfl
    | cons f fs ih =>
      obtain ⟨j, x⟩ := f
      rw [reparsedFields, List.lookup_cons, List.lookup_cons]
      cases k == j with
      | true => rfl
      | false => exact ih
  | num n =>
    rw [reparsed]
    split
    · rfl
    · rfl
  | null => rfl
  | bool b => rfl
  | str s => rfl
  | arr xs => rfl

/-- A scalar is written as what it is read back as. -/
theorem stringifyScalar_reparsed_num (n : Number) :
    stringify (reparsed (.num n)) = stringify (.num n) := by
  rw [reparsed]
  by_cases hf : n.isFinite = true
  · rw [if_pos hf]
    by_cases hm : n.mantissa = 0
    · rw [if_pos hm, stringify, stringify, stringifyScalar, stringifyScalar, if_pos hf]
      unfold Number.toString
      rw [if_pos hm]
      rfl
    · rw [if_neg hm]
  · rw [if_neg hf, stringify, stringify, stringifyScalar, stringifyScalar, if_neg hf]

mutual

/-- Writing a value as JSON and reading it back does not change how it is written. -/
theorem stringify_reparsed : (v : Json) → stringify v.reparsed = stringify v
  | .num n => stringifyScalar_reparsed_num n
  | .arr xs => by rw [reparsed, stringify, stringify, stringifyElems_reparsed xs]
  | .obj fs => by rw [reparsed, stringify, stringify, stringifyFields_reparsed fs]
  | .null => rfl
  | .bool _ => rfl
  | .str _ => rfl

theorem stringifyElems_reparsed :
    (xs : List Json) → stringifyElems (reparsedElems xs) = stringifyElems xs
  | [] => rfl
  | [x] => by
    rw [reparsedElems, reparsedElems, stringifyElems, stringifyElems, stringify_reparsed x]
  | x :: y :: rest => by
    have ih := stringifyElems_reparsed (y :: rest)
    rw [reparsedElems] at ih
    rw [reparsedElems, reparsedElems, stringifyElems, stringifyElems, stringify_reparsed x, ih]

theorem stringifyFields_reparsed :
    (fs : List (JsString × Json)) → stringifyFields (reparsedFields fs) = stringifyFields fs
  | [] => rfl
  | [(k, x)] => by
    rw [reparsedFields, reparsedFields, stringifyFields, stringifyFields, stringify_reparsed x]
  | (k, x) :: (j, y) :: rest => by
    have ih := stringifyFields_reparsed ((j, y) :: rest)
    rw [reparsedFields] at ih
    rw [reparsedFields, reparsedFields, stringifyFields, stringifyFields, stringify_reparsed x, ih]

end

end Json

end TangentFeed
