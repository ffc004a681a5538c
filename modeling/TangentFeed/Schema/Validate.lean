import TangentFeed.Core.Engine
import TangentFeed.Schema.Builders

/-!
# Local write validation

`validateInsert` and `validateUpdate` check what is written before operations are
made, and `parseRow` checks a row that was read. All three look columns up by
`shape[column]` and `column in record`, which find what an object inherits: a
value that is looked at is a JSON value, a function or `Object.prototype`.
-/

namespace TangentFeed.Schema

/-! ## What a property can be -/

/-- A value that the checks look at. -/
inductive Seen where
  | json (v : Json)
  | function
  | objectPrototype

namespace Seen

def isNull : Seen → Bool
  | json v => v.isNull
  | function => false
  | objectPrototype => false

/-- `typeof v` of a value that is not an array, `"array"` of one. -/
def describe : Seen → JsString
  | json .null => js "null"
  | json (.bool _) => js "boolean"
  | json (.num _) => js "number"
  | json (.str _) => js "string"
  | json (.arr _) => js "array"
  | json (.obj _) => js "object"
  | function => js "function"
  | objectPrototype => js "object"

/-- `record[key]`, `none` where `key in record` is false; a value that is no object has no
properties here. -/
def read : Seen → JsString → Option Seen
  | json (.obj fs), key =>
    match fs.lookup key with
    | some v => some (json v)
    | none =>
      if key = protoName then some objectPrototype
      else if key ∈ objectPrototypeNames then some function
      else none
  | objectPrototype, key =>
    if key = protoName then some (json .null)
    else if key ∈ objectPrototypeNames then some function
    else none
  | _, _ => none

/-- `Object.keys(record)`. -/
def keys : Seen → List JsString
  | json (.obj fs) => fs.map Prod.fst
  | _ => []

end Seen

/-! ## Values -/

/-- The first problem with a value; `expected` is `none` where it is `undefined`. -/
structure Problem where
  path : JsString
  expected : Option JsString

def elementPath (path : JsString) (i : Nat) : JsString :=
  path ++ js "[" ++ Number.decimalDigits i ++ js "]"

/-- `a.includes(b)` compares numbers so. -/
def sameValueZero (x y : Number) : Bool :=
  (x.isNaN && y.isNaN) || (x.isFinite && y.isFinite && x.mantissa = 0 && y.mantissa = 0) || x = y

def EnumValue.matches : EnumValue → Seen → Bool
  | .str s, .json (.str t) => s = t
  | .num n, .json (.num m) => sameValueZero n m
  | _, _ => false

/-- `JSON.stringify(v)`. -/
def EnumValue.text : EnumValue → JsString
  | .str s => Json.quote s
  | .num n => Json.stringify (.num n)

def oneOf (names : List JsString) : JsString := js "one of " ++ (js ", ").intercalate names

/-- The first problem of the elements from index `i` on. -/
def checkElements (check : Json → JsString → Option Problem) (path : JsString) :
    Nat → List Json → Option Problem
  | _, [] => none
  | i, x :: rest => (check x (elementPath path i)).or (checkElements check path (i + 1) rest)

mutual

/-- Check one value against one field. -/
def checkValue (field : Field) (value : Seen) (path : JsString) : Option Problem :=
  if value.isNull then if field.isNullable then none else some ⟨path, some field.kind⟩
  else
    match field with
    | .string _ => if value.describe = js "string" then none else some ⟨path, some (js "string")⟩
    | .number _ =>
      match value with
      | .json (.num n) => if n.isFinite then none else some ⟨path, some (js "finite number")⟩
      | _ => some ⟨path, some (js "number")⟩
    | .boolean _ =>
      if value.describe = js "boolean" then none else some ⟨path, some (js "boolean")⟩
    | .enum values _ =>
      if values.any fun v => v.matches value then none
      else some ⟨path, some (oneOf (values.map EnumValue.text))⟩
    | .array element _ =>
      match value with
      | .json (.arr xs) => checkElements (fun x p => checkValue element (.json x) p) path 0 xs
      | _ => some ⟨path, some (js "array")⟩
    | .object shape _ =>
      if value.describe = js "object" then
        match value.keys.find? fun key =>
          key ∉ shape.map Prod.fst ∧ key ∉ objectPrototypeNames with
        | some key => some ⟨path ++ js "." ++ key, some (js "no such key")⟩
        | none => checkShape shape value path
      else some ⟨path, some (js "object")⟩

/-- The keys of a shape, in their order. -/
def checkShape : List (JsString × Field) → Seen → JsString → Option Problem
  | [], _, _ => none
  | (key, sub) :: rest, record, path =>
    match record.read key with
    | none =>
      if sub.isOptional then checkShape rest record path
      else some ⟨path ++ js "." ++ key, some (sub.kind ++ js " (missing)")⟩
    | some v => (checkValue sub v (path ++ js "." ++ key)).or (checkShape rest record path)

end

/-! ## Writes -/

/-- `expected` is `none` where it is `undefined`. -/
structure SchemaError where
  table : JsString
  column : Option JsString
  expected : Option JsString
  received : JsString
  message : JsString

/-- What `shape[column]` is, if anything. -/
inductive Found where
  | field (f : Field)
  | inherited

def TableShape.get (shape : TableShape) (column : JsString) : Option Found :=
  match shape.entries.lookup column with
  | some f => some (.field f)
  | none => if column ∈ objectPrototypeNames then some .inherited else none

/-- `checkValue(field, value, column)`. What is inherited has no kind: it takes any value but
`null`. -/
def Found.check : Found → Json → JsString → Option Problem
  | .field f, v, path => checkValue f (.json v) path
  | .inherited, v, path => if v.isNull then some ⟨path, none⟩ else none

/-- The prototype of an object. -/
inductive Prototype where
  | object
  | null
  | value (v : Json)

namespace Prototype

/-- `key in prototype`. -/
def has : Prototype → JsString → Bool
  | object, key => key ∈ objectPrototypeNames
  | null, _ => false
  | value (.obj fs), key => fs.any (·.1 == key) || decide (key ∈ objectPrototypeNames)
  | value (.arr xs), key =>
    (List.range xs.length).any (fun i => Number.decimalDigits i == key) ||
      decide (key ∈ arrayPrototypeNames) || decide (key ∈ objectPrototypeNames)
  | value _, key => key ∈ objectPrototypeNames

/-- Whether assigning to `__proto__` calls the accessor. -/
def hasSetter : Prototype → Bool
  | object => true
  | null => false
  | value (.obj fs) => !fs.any (·.1 == protoName)
  | value _ => true

/-- `Object.setPrototypeOf` by the accessor, which ignores what is no object. -/
def set (p : Prototype) : Json → Prototype
  | .null => null
  | .obj fs => value (.obj fs)
  | .arr xs => value (.arr xs)
  | _ => p

end Prototype

/-- The object `out` that a validation builds. -/
structure Out where
  own : List (JsString × Json)
  nodup : (own.map Prod.fst).Nodup
  prototype : Prototype

namespace Out

def empty : Out := ⟨[], .nil, .object⟩

/-- `key in out`. -/
def has (o : Out) (key : JsString) : Bool := o.own.any (·.1 == key) || o.prototype.has key

/-- `out[key] = v`. -/
def assign (o : Out) (key : JsString) (v : Json) : Out :=
  if key = protoName ∧ o.prototype.hasSetter then { o with prototype := o.prototype.set v }
  else { o with own := withOwn o.own key v, nodup := nodup_withOwn o.nodup key v }

/-- The own properties, which are what the engine writes. -/
def record (o : Out) : Record := ⟨o.own, o.nodup⟩

end Out

/-- The columns that are given, each checked. -/
def checkColumns (shape : TableShape) (table : JsString) :
    List (JsString × Json) → Out → Except SchemaError Out
  | [], out => .ok out
  | (column, value) :: rest, out =>
    match shape.get column with
    | none =>
      .error ⟨table, some column, some (oneOf (shape.entries.map Prod.fst)), column,
        js "unknown column \"" ++ column ++ js "\" on table \"" ++ table ++ js "\""⟩
    | some found =>
      match found.check value column with
      | some bad =>
        .error ⟨table, some column, bad.expected, (Seen.json value).describe,
          table ++ js "." ++ bad.path ++ js ": expected " ++ bad.expected.getD (js "undefined") ++
            js ", received " ++ (Seen.json value).describe⟩
      | none => checkColumns shape table rest (out.assign column value)

/-- The columns that are not given: their defaults, and an error if one is required. -/
def fillDefaults (table : JsString) :
    List (JsString × Field) → Out → Except SchemaError Out
  | [], out => .ok out
  | (column, field) :: rest, out =>
    if out.has column then fillDefaults table rest out
    else
      match field.defaultValue with
      | some value => fillDefaults table rest (out.assign column value)
      | none =>
        if field.isOptional then fillDefaults table rest out
        else
          .error ⟨table, some column, some field.kind, js "undefined",
            js "missing required column \"" ++ column ++ js "\" on table \"" ++ table ++ js "\""⟩

/-- Full-row validation, for a table with this shape. -/
def validateInsert (shape : TableShape) (table : JsString) (values : Record) :
    Except SchemaError Out :=
  match checkColumns shape table values.entries .empty with
  | .error err => .error err
  | .ok out => fillDefaults table shape.entries out

/-- Partial validation, for a table with this shape. -/
def validateUpdate (shape : TableShape) (table : JsString) (values : Record) :
    Except SchemaError Out :=
  if values.entries.isEmpty then
    .error ⟨table, none, some (js "at least one column"), js "\x7b\x7d",
      js "no columns to update on table \"" ++ table ++ js "\""⟩
  else checkColumns shape table values.entries .empty

/-! ## Reads -/

structure ParseIssue where
  path : JsString
  expected : JsString
  received : JsString

/-- The keys of a row that are no columns. -/
def keyIssues (shape : TableShape) (record : Seen) : List ParseIssue :=
  record.keys.filterMap fun key =>
    if key = js "id" ∨ (shape.get key).isSome then none
    else some ⟨key, js "no such column", ((record.read key).map Seen.describe).getD []⟩

/-- What is wrong with a column of a row. -/
def columnIssue (record : Seen) (column : JsString) (field : Field) : Option ParseIssue :=
  match record.read column with
  | none => if field.isOptional then none else some ⟨column, field.kind, js "undefined"⟩
  | some v =>
    (checkValue field v column).map fun bad =>
      ⟨bad.path, bad.expected.getD (js "undefined"), v.describe⟩

/-- The columns of a row that are missing or wrong. -/
def columnIssues (shape : TableShape) (record : Seen) : List ParseIssue :=
  shape.entries.filterMap fun p => columnIssue record p.1 p.2

/-- Check a row that has been read: the row, or every issue with it. -/
def parseRow (shape : TableShape) (row : Json) : Except (List ParseIssue) Json :=
  match row with
  | .obj fs =>
    let issues := keyIssues shape (.json (.obj fs)) ++ columnIssues shape (.json (.obj fs))
    if issues.isEmpty then .ok row else .error issues
  | v => .error [⟨[], js "object", (Seen.json v).describe⟩]

end TangentFeed.Schema
