import TangentFeed.Js.Value

/-!
# Field descriptors

A field is plain data: a kind, what the kind needs, and flags. Tables are made
of fields by the builders `string`, `number`, `boolean`, `array`, `object` and
`enum`, and by `optional`, `nullable` and `default`.
-/

namespace TangentFeed.Schema

/-- `isOptional`, `isNullable`, and `defaultValue` where `hasDefault` is set. -/
structure Flags where
  isOptional : Bool
  isNullable : Bool
  defaultValue : Option Json

/-- A value of an enumeration. -/
inductive EnumValue where
  | str (s : JsString)
  | num (n : Number)

inductive Field where
  | string (flags : Flags)
  | number (flags : Flags)
  | boolean (flags : Flags)
  | array (element : Field) (flags : Flags)
  | object (shape : List (JsString × Field)) (flags : Flags)
  | enum (values : List EnumValue) (flags : Flags)

namespace Field

def kind : Field → JsString
  | string _ => js "string"
  | number _ => js "number"
  | boolean _ => js "boolean"
  | array _ _ => js "array"
  | object _ _ => js "object"
  | enum _ _ => js "enum"

def flags : Field → Flags
  | string fl => fl
  | number fl => fl
  | boolean fl => fl
  | array _ fl => fl
  | object _ fl => fl
  | enum _ fl => fl

def isOptional (f : Field) : Bool := f.flags.isOptional

def isNullable (f : Field) : Bool := f.flags.isNullable

/-- The default, if the field has one. -/
def defaultValue (f : Field) : Option Json := f.flags.defaultValue

/-- The field with other flags. -/
def clone (patch : Flags → Flags) : Field → Field
  | string fl => string (patch fl)
  | number fl => number (patch fl)
  | boolean fl => boolean (patch fl)
  | array element fl => array element (patch fl)
  | object shape fl => object shape (patch fl)
  | enum values fl => enum values (patch fl)

/-- Key may be omitted on insert, and may be absent when read. -/
def optional (f : Field) : Field := f.clone fun fl => { fl with isOptional := true }

/-- Value may be null. -/
def nullable (f : Field) : Field := f.clone fun fl => { fl with isNullable := true }

/-- Key may be omitted on insert; the default is written. -/
def default (f : Field) (value : Json) : Field :=
  f.clone fun fl => { fl with defaultValue := some value }

end Field

/-- The flags of a new field. -/
def noFlags : Flags := ⟨false, false, none⟩

namespace Builders

def string : Field := .string noFlags
def number : Field := .number noFlags
def boolean : Field := .boolean noFlags
def array (element : Field) : Field := .array element noFlags
def object (shape : List (JsString × Field)) : Field := .object shape noFlags
def enum (values : List EnumValue) : Field := .enum values noFlags

end Builders

/-- The columns of a table; the keys of a JavaScript object are distinct. -/
structure TableShape where
  entries : List (JsString × Field)
  nodup : (entries.map Prod.fst).Nodup

/-- The names that every object inherits. -/
def objectPrototypeNames : List JsString :=
  [js "constructor", js "__defineGetter__", js "__defineSetter__", js "hasOwnProperty",
    js "__lookupGetter__", js "__lookupSetter__", js "isPrototypeOf", js "propertyIsEnumerable",
    js "toString", js "valueOf", js "__proto__", js "toLocaleString"]

/-- The names that every array inherits from `Array.prototype`. -/
def arrayPrototypeNames : List JsString :=
  [js "length", js "constructor", js "at", js "concat", js "copyWithin", js "fill", js "find",
    js "findIndex", js "findLast", js "findLastIndex", js "lastIndexOf", js "pop", js "push",
    js "reverse", js "shift", js "unshift", js "slice", js "sort", js "splice", js "includes",
    js "indexOf", js "join", js "keys", js "entries", js "values", js "forEach", js "filter",
    js "flat", js "flatMap", js "map", js "every", js "some", js "reduce", js "reduceRight",
    js "toLocaleString", js "toString", js "toReversed", js "toSorted", js "toSpliced", js "with"]

/-- The name of the accessor of an object's prototype. -/
def protoName : JsString := js "__proto__"

end TangentFeed.Schema
