import TangentFeed.Js.Text

/-!
# Numbers

A JavaScript number is an IEEE 754 binary64 value, kept as its bits.
`Number.toString` is `Number::toString` of ECMAScript: the digits are the
shortest decimal that rounds back to the value, and of the shortest ones the
closest. It is computed in exact arithmetic on the value `mantissa * 2 ^ exponent`.
-/

namespace TangentFeed

structure Number where
  bits : BitVec 64
  deriving DecidableEq, Repr

namespace Number

def negative (x : Number) : Bool := x.bits.msb

def biasedExponent (x : Number) : Nat := x.bits.toNat / 2 ^ 52 % 2 ^ 11

def fraction (x : Number) : Nat := x.bits.toNat % 2 ^ 52

/-- `Number.isFinite`. -/
def isFinite (x : Number) : Bool := x.biasedExponent != 2047

/-- The magnitude is `mantissa x * 2 ^ (exponent x - 1075)`. -/
def mantissa (x : Number) : Nat :=
  if x.biasedExponent = 0 then x.fraction else 2 ^ 52 + x.fraction

def exponent (x : Number) : Nat := max x.biasedExponent 1

/-- A positive rational `num / den`. -/
structure Ratio where
  num : Nat
  den : Nat

def Ratio.le (a b : Ratio) : Bool := a.num * b.den ≤ b.num * a.den

def Ratio.lt (a b : Ratio) : Bool := a.num * b.den < b.num * a.den

/-- `m * 2 ^ (e - 1077)`; the two spare bits make the neighbours' midpoints whole. -/
def scaled (m e : Nat) : Ratio :=
  if 1077 ≤ e then ⟨m * 2 ^ (e - 1077), 1⟩ else ⟨m, 2 ^ (1077 - e)⟩

/-- `s * 10 ^ (n - k)`. -/
def decimal (s : Nat) (n k : Int) : Ratio :=
  if k ≤ n then ⟨s * 10 ^ (n - k).toNat, 1⟩ else ⟨s, 10 ^ (k - n).toNat⟩

/-- The values that round to `x`: between the midpoints to its neighbours, the
midpoints themselves only for an even mantissa. -/
def roundsTo (x : Number) (q : Ratio) : Bool :=
  let m := x.mantissa
  let below := if m = 2 ^ 52 ∧ 1 < x.exponent then 4 * m - 1 else 4 * m - 2
  let low := scaled below x.exponent
  let high := scaled (4 * m + 2) x.exponent
  if m % 2 = 0 then low.le q && q.le high else low.lt q && q.lt high

/-- Distance to the magnitude of `x`, as a cross-multiplied numerator over `q.den`. -/
def distance (x : Number) (q : Ratio) : Nat :=
  let v := scaled (4 * x.mantissa) x.exponent
  let a := q.num * v.den
  let b := v.num * q.den
  (a - b) + (b - a)

/-- The decimal point position: the least `n ≥ lo` with magnitude below `10 ^ n`. -/
def pointFrom (v : Ratio) : Nat → Int → Int
  | 0, n => n
  | fuel + 1, n => if v.lt (decimal 1 n 0) then n else pointFrom v fuel (n + 1)

/-- The `k` digits `s` with `s * 10 ^ (n - k)` rounding to `x`, the closest if
both neighbours do, and the even one of two equally close. -/
def digitsAt (x : Number) (n k : Int) : Option Nat :=
  let v := scaled (4 * x.mantissa) x.exponent
  let q : Ratio := if n ≤ k then ⟨v.num * 10 ^ (k - n).toNat, v.den⟩
    else ⟨v.num, v.den * 10 ^ (n - k).toNat⟩
  let lo := q.num / q.den
  match roundsTo x (decimal lo n k), roundsTo x (decimal (lo + 1) n k) with
  | true, true =>
    let below := distance x (decimal lo n k)
    let above := distance x (decimal (lo + 1) n k)
    if below < above ∨ below = above ∧ lo % 2 = 0 then some lo else some (lo + 1)
  | true, false => some lo
  | false, true => some (lo + 1)
  | false, false => none

/-- The shortest digits, tried from `k` digits up (17 always suffice). -/
def shortest (x : Number) (n : Int) : Nat → Nat → Nat × Nat
  | 0, k => (0, k)
  | fuel + 1, k =>
    match digitsAt x n k with
    | some s => (s, k)
    | none => shortest x n fuel (k + 1)

def decimalDigits (n : Nat) : JsString :=
  (Nat.toDigits 10 n).map fun c => Fin.ofNat 65536 c.toNat

/-- The layout of `Number::toString` for the digits `ds` and point position `n`. -/
def layout (ds : JsString) (n : Int) : JsString :=
  let k : Int := ds.length
  let zeros (m : Int) : JsString := List.replicate m.toNat 0x30
  if k ≤ n ∧ n ≤ 21 then ds ++ zeros (n - k)
  else if 0 < n ∧ n ≤ 21 then ds.take n.toNat ++ js "." ++ ds.drop n.toNat
  else if -6 < n ∧ n ≤ 0 then js "0." ++ zeros (-n) ++ ds
  else
    let e := n - 1
    let mark := if 0 ≤ e then js "e+" else js "e-"
    let tail := if ds.length ≤ 1 then ds else ds.take 1 ++ js "." ++ ds.drop 1
    tail ++ mark ++ decimalDigits e.natAbs

/-- `Number::toString` of a finite number. -/
def toString (x : Number) : JsString :=
  if x.mantissa = 0 then js "0"
  else
    let n := pointFrom (scaled (4 * x.mantissa) x.exponent) 640 (-323)
    let (s, k) := shortest x n 17 1
    -- rounding up to `10 ^ k` moves the point
    let (ds, n) := if s = 10 ^ k then (js "1", n + 1) else (decimalDigits s, n)
    (if x.negative then js "-" else []) ++ layout ds n

example : toString ⟨0x3fb999999999999a⟩ = js "0.1" := by decide +kernel
example : toString ⟨0xc4b52d02c7e14af6⟩ = js "-1e+23" := by decide +kernel
example : toString ⟨0x4310000000000003⟩ = js "1125899906842624.8" := by decide +kernel

end Number

end TangentFeed
