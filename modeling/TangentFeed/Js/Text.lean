import Mathlib.Algebra.Order.Ring.Nat
import Mathlib.Data.List.Lex
import Mathlib.Data.List.Sort
import Mathlib.Order.Fin.Basic
import Std.Data.ExtTreeMap

/-!
# Strings, maps and bytes of the host language

A JavaScript string is a list of UTF-16 code units and is compared unit by
unit, which is the order `<` of lists. A `Map` or a plain object used as one is
`JsMap`: the order in which a JavaScript `Map` iterates is never observed by
the code modelled here (every listing is sorted before use), so two maps with
the same entries are equal.
-/

namespace TangentFeed

/-- A UTF-16 code unit. -/
abbrev CodeUnit := Fin 65536

abbrev JsString := List CodeUnit

instance neZeroUnits : NeZero 65536 := ⟨by decide⟩

instance lawfulUnits : LawfulBEq CodeUnit := inferInstance

instance lawfulStrings : LawfulBEq JsString := inferInstance

instance transStrings : Std.TransOrd JsString := inferInstance

abbrev JsMap (α : Type) := Std.ExtTreeMap JsString α compare

abbrev Byte := Fin 256

abbrev Bytes := List Byte

instance neZeroBytes : NeZero 256 := ⟨by decide⟩

/-- A string literal of the source (all of them are ASCII). -/
def js (s : String) : JsString := s.toList.map fun c => Fin.ofNat 65536 c.toNat

/-- `"\u0000"`, the separator of composite keys. -/
def sep : CodeUnit := 0

/-- The maps' order is that of strings. -/
theorem compare_eq_lt {a b : JsString} : compare a b = .lt ↔ a < b := by
  induction a generalizing b with
  | nil => cases b <;> simp
  | cons c a ih =>
    cases b with
    | nil => simp
    | cons d b =>
      rw [List.compare_cons_cons, List.cons_lt_cons_iff, Ordering.then_eq_lt, ih, compare_lt_iff_lt,
        compare_eq_iff_eq]

theorem nil_le_jsString (a : JsString) : [] ≤ a := not_lt.1 (List.not_lt_nil a)

/-- Strings are compared by their first units, then by the rest. -/
theorem jsString_cons_le {c d : CodeUnit} {a b : JsString} :
    c :: a ≤ d :: b ↔ c < d ∨ c = d ∧ a ≤ b := by
  rw [← not_lt, List.cons_lt_cons_iff, not_or, not_and, not_lt, not_lt]
  constructor
  · rintro ⟨h1, h2⟩
    rcases h1.lt_or_eq with h | h
    · exact .inl h
    · exact .inr ⟨h, h2 h.symm⟩
  · rintro (h | ⟨rfl, h⟩)
    · exact ⟨h.le, fun e => absurd e h.ne'⟩
    · exact ⟨le_refl c, fun _ => h⟩

/-- `Array.prototype.sort` on strings. -/
def sortStrings (l : List JsString) : List JsString := l.insertionSort (· ≤ ·)

/-- `s.padStart(w, c)`. -/
def padStart (w : Nat) (c : CodeUnit) (s : JsString) : JsString :=
  List.replicate (w - s.length) c ++ s

/-! ## Hexadecimal -/

/-- The lowercase hexadecimal digit of `d < 16`. -/
def hexDigit (d : Nat) : CodeUnit := Fin.ofNat 65536 (if d < 10 then 0x30 + d else 0x57 + d)

/-- `n.toString(16)`. -/
def toString16 (n : Nat) : JsString :=
  (Nat.toDigits 16 n).map fun c => Fin.ofNat 65536 c.toNat

/-- A digit accepted by `[0-9a-f]`. -/
def isLowerHex (c : CodeUnit) : Bool :=
  (0x30 ≤ c.val && c.val ≤ 0x39) || (0x61 ≤ c.val && c.val ≤ 0x66)

/-- The value of a hexadecimal digit of either case. -/
def hexVal (c : CodeUnit) : Nat :=
  if c.val ≤ 0x39 then c.val - 0x30 else if c.val ≤ 0x46 then c.val - 0x37 else c.val - 0x57

/-- `parseInt(s, 16)` of a string of hexadecimal digits. -/
def parseHex (s : JsString) : Nat := s.foldl (fun n c => 16 * n + hexVal c) 0

/-- A byte as two lowercase hexadecimal digits. -/
def hexByte (b : Byte) : JsString := padStart 2 0x30 (toString16 b.val)

/-! ## UTF-8 -/

def isHighSurrogate (c : CodeUnit) : Bool := 0xd800 ≤ c.val && c.val ≤ 0xdbff

def isLowSurrogate (c : CodeUnit) : Bool := 0xdc00 ≤ c.val && c.val ≤ 0xdfff

/-- The code points of a string, a lone surrogate read as U+FFFD
(`USVString` conversion). -/
def codePoints : JsString → List Nat
  | [] => []
  | [c] => [if isHighSurrogate c || isLowSurrogate c then 0xfffd else c.val]
  | c :: d :: rest =>
    if isHighSurrogate c then
      if isLowSurrogate d then
        (0x10000 + (c.val - 0xd800) * 0x400 + (d.val - 0xdc00)) :: codePoints rest
      else 0xfffd :: codePoints (d :: rest)
    else (if isLowSurrogate c then 0xfffd else c.val) :: codePoints (d :: rest)

/-- The UTF-8 bytes of one code point. -/
def utf8Char (n : Nat) : Bytes :=
  if n < 0x80 then [Fin.ofNat 256 n]
  else if n < 0x800 then [Fin.ofNat 256 (0xc0 + n / 64), Fin.ofNat 256 (0x80 + n % 64)]
  else if n < 0x10000 then
    [Fin.ofNat 256 (0xe0 + n / 4096), Fin.ofNat 256 (0x80 + n / 64 % 64),
      Fin.ofNat 256 (0x80 + n % 64)]
  else
    [Fin.ofNat 256 (0xf0 + n / 262144), Fin.ofNat 256 (0x80 + n / 4096 % 64),
      Fin.ofNat 256 (0x80 + n / 64 % 64), Fin.ofNat 256 (0x80 + n % 64)]

/-- `new TextEncoder().encode(s)`. -/
def textEncode (s : JsString) : Bytes := (codePoints s).flatMap utf8Char

end TangentFeed
