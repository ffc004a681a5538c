import TangentFeed.Lib.OrderedMap
import TangentFeed.Js.Json

/-!
# Values of any type

What the operators of the language make of a JSON value whose type nobody
checked, or of `undefined`, which is `none`. An operator that can throw a
`TypeError` returns an `Option`, and `none` where it throws. No prototype has a
property of the names that are read here.
-/

namespace TangentFeed

namespace Number

def isNaN (x : Number) : Bool := x.biasedExponent == 2047 && x.fraction != 0

/-- The position of a number that is not `NaN`; `-0` and `0` have the same. -/
def rank (x : Number) : Int :=
  if x.negative then -(x.bits.toNat % 2 ^ 63 : Nat) else (x.bits.toNat : Nat)

def lt (x y : Number) : Bool := !x.isNaN && !y.isNaN && x.rank < y.rank

def zero : Number := ⟨0⟩

def one : Number := ⟨0x3ff0000000000000⟩

def two : Number := ⟨0x4000000000000000⟩

end Number

namespace Json

/-- `Object.entries(v)`, for a value that is not `null`. -/
def entries : Json → List (JsString × Json)
  | str s => s.mapIdx fun i c => (Number.decimalDigits i, str [c])
  | arr xs => xs.mapIdx fun i x => (Number.decimalDigits i, x)
  | obj fs => fs
  | null => []
  | bool _ => []
  | num _ => []

/-! ## Conversion -/

/-- `String(n)`; a number that was parsed is not `NaN`. -/
def numberText (n : Number) : JsString :=
  if n.isFinite then n.toString else if n.negative then js "-Infinity" else js "Infinity"

mutual

/-- `String(v)`. A property named `toString` hides the method, and cannot be called. -/
def text : Json → Option JsString
  | null => some (js "null")
  | bool b => some (if b then js "true" else js "false")
  | num n => some (numberText n)
  | str s => some s
  | arr xs => textElems xs
  | obj fs => if fs.any (·.1 == js "toString") then none else some (js "[object Object]")

/-- `xs.join()`, in which `null` is empty. -/
def textElems : List Json → Option JsString
  | [] => some []
  | [x] => if x.isNull then some [] else text x
  | x :: y :: rest =>
    match if x.isNull then some [] else text x, textElems (y :: rest) with
    | some s, some t => some (s ++ js "," ++ t)
    | _, _ => none

end

/-- The value that an object is compared as. -/
def primitive : Json → Option Json
  | arr xs => (text (arr xs)).map str
  | obj fs => (text (obj fs)).map str
  | null => some null
  | bool b => some (bool b)
  | num n => some (num n)
  | str s => some (str s)

/-- `Number(v)` of a primitive; `numeric` reads a string. -/
def toNumber (numeric : JsString → Number) : Json → Number
  | bool b => if b then .one else .zero
  | num n => n
  | str s => numeric s
  | null => .zero
  | arr _ => .zero
  | obj _ => .zero

/-- `a < b`: strings by their units, everything else as numbers. -/
def lessThan (numeric : JsString → Number) (a b : Json) : Option Bool :=
  match a.primitive, b.primitive with
  | some (str s), some (str t) => some (s < t)
  | some x, some y => some ((x.toNumber numeric).lt (y.toNumber numeric))
  | _, _ => none

end Json

/-- A JSON value, or `undefined`. -/
abbrev Val := Option Json

namespace Val

/-- `v.k`, which throws on `null` and `undefined`. -/
def prop (v : Val) (k : JsString) : Option Val :=
  match v with
  | none => none
  | some .null => none
  | some v => some (v.get? k)

/-- `v ?? d`. -/
def orElse (v : Val) (d : Json) : Json :=
  match v with
  | none => d
  | some .null => d
  | some v => v

/-- `v === s`, for a string. -/
def isString (v : Val) (s : JsString) : Bool :=
  match v with
  | some (.str t) => t == s
  | _ => false

/-- `v === n`, for a number that is not zero. -/
def isNumber (v : Val) (n : Number) : Bool :=
  match v with
  | some (.num m) => m == n
  | _ => false

/-- `v.length === 0`. -/
def lengthIsZero (v : Val) : Option Bool :=
  match v with
  | some (.str s) => some s.isEmpty
  | some (.arr xs) => some xs.isEmpty
  | v => (v.prop (js "length")).map fun n =>
    match n with
    | some (.num x) => x.rank = 0
    | _ => false

/-- `String(v)`. -/
def text : Val → Option JsString
  | none => some (js "undefined")
  | some v => v.text

/-- Whether two values of different messages are one key of a `Map`: an object
is only itself. -/
def sameKey : Val → Val → Bool
  | none, none => true
  | some .null, some .null => true
  | some (.bool a), some (.bool b) => a == b
  | some (.num a), some (.num b) => a.rank == b.rank
  | some (.str a), some (.str b) => a == b
  | _, _ => false

end Val

/-! ## Own properties -/

/-- A string that is an array index. -/
def isIndex (k : JsString) : Bool :=
  k.all (fun c => 0x30 ≤ c.val && c.val ≤ 0x39) &&
    (k == js "0" || (k.head?.any (· ≠ 0x30) && indexValue k < 2 ^ 32 - 1))
where
  indexValue (k : JsString) : Nat := k.foldl (fun n c => 10 * n + (c.val - 0x30)) 0

/-- `{ ...o, [k]: v }`. Array indices come first, by value; the other names in
the order they were added. -/
def withOwn {α : Type} (o : List (JsString × α)) (k : JsString) (v : α) : List (JsString × α) :=
  if o.any (·.1 == k) then o.map fun p => if p.1 = k then (k, v) else p
  else if isIndex k then
    let before := fun p : JsString × α =>
      isIndex p.1 && isIndex.indexValue p.1 < isIndex.indexValue k
    o.takeWhile before ++ (k, v) :: o.dropWhile before
  else o ++ [(k, v)]

theorem mem_withOwn {α : Type} {o : List (JsString × α)} {k : JsString} {v : α} {p : JsString × α}
    (h : p ∈ withOwn o k v) : p ∈ o ∨ p = (k, v) := by
  unfold withOwn at h
  split at h
  · obtain ⟨q, hq, rfl⟩ := List.mem_map.1 h
    split
    · exact .inr rfl
    · exact .inl hq
  · split at h
    · rcases List.mem_append.1 h with h | h
      · exact .inl ((List.takeWhile_sublist _).mem h)
      · rcases List.mem_cons.1 h with h | h
        · exact .inr h
        · exact .inl ((List.dropWhile_sublist _).mem h)
    · rcases List.mem_append.1 h with h | h
      · exact .inl h
      · exact .inr (List.mem_singleton.1 h)

/-- A new name is added somewhere. -/
theorem perm_withOwn {α : Type} {o : List (JsString × α)} {k : JsString} (h : k ∉ o.map Prod.fst)
    (v : α) : (withOwn o k v).Perm (o ++ [(k, v)]) := by
  have hany : (o.any fun p => p.1 == k) = false := by
    rw [Bool.eq_false_iff, ne_eq, List.any_eq_true]
    rintro ⟨p, hp, he⟩
    exact h (List.mem_map.2 ⟨p, hp, by simpa using he⟩)
  unfold withOwn
  rw [hany]
  simp only [Bool.false_eq_true, if_false]
  split
  · refine (List.perm_middle.trans ?_).trans (List.perm_append_singleton _ _).symm
    rw [List.takeWhile_append_dropWhile]
  · exact .refl _

/-- A name that is there keeps its place. -/
theorem withOwn_of_mem {α : Type} {o : List (JsString × α)} {k : JsString}
    (h : k ∈ o.map Prod.fst) (v : α) : withOwn o k v = o.map fun p => if p.1 = k then (k, v) else p := by
  obtain ⟨p, hp, rfl⟩ := List.mem_map.1 h
  exact if_pos (List.any_eq_true.2 ⟨p, hp, beq_self_eq_true p.1⟩)

theorem nodup_withOwn {α : Type} {o : List (JsString × α)} (h : (o.map Prod.fst).Nodup)
    (k : JsString) (v : α) : ((withOwn o k v).map Prod.fst).Nodup := by
  by_cases hk : k ∈ o.map Prod.fst
  · have hnames : (o.map fun p => if p.1 = k then (k, v) else p).map Prod.fst = o.map Prod.fst := by
      rw [List.map_map]
      refine List.map_congr_left fun p _ => ?_
      by_cases hp : p.1 = k
      · rw [Function.comp_apply, if_pos hp, hp]
      · rw [Function.comp_apply, if_neg hp]
    rw [withOwn_of_mem hk, hnames]
    exact h
  · rw [((perm_withOwn hk v).map Prod.fst).nodup_iff, List.map_append, List.nodup_append_comm]
    exact List.nodup_cons.2 ⟨hk, h⟩

theorem lookup_withOwn {α : Type} {o : List (JsString × α)} (h : (o.map Prod.fst).Nodup)
    (k : JsString) (v : α) (c : JsString) :
    (withOwn o k v).lookup c = if c = k then some v else o.lookup c := by
  have hn := nodup_withOwn h k v
  by_cases hk : k ∈ o.map Prod.fst
  · ext w
    rw [← OrderedMap.mem_iff_lookup hn, withOwn_of_mem hk, List.mem_map]
    by_cases hc : c = k
    · subst hc
      obtain ⟨p, hp, rfl⟩ := List.mem_map.1 hk
      rw [if_pos rfl]
      constructor
      · rintro ⟨q, -, hq⟩
        by_cases hqk : q.1 = p.1
        · rw [if_pos hqk] at hq
          rw [(Prod.mk.inj hq).2]
        · rw [if_neg hqk] at hq
          exact absurd (by rw [hq]) hqk
      · intro hw
        exact ⟨p, hp, by rw [if_pos rfl, Option.some.inj hw]⟩
    · rw [if_neg hc, ← OrderedMap.mem_iff_lookup h]
      constructor
      · rintro ⟨q, hq, he⟩
        by_cases hqk : q.1 = k
        · rw [if_pos hqk] at he
          exact absurd (Prod.mk.inj he).1.symm hc
        · rw [if_neg hqk] at he
          rwa [← he]
      · intro hm
        exact ⟨(c, w), hm, if_neg hc⟩
  · rw [OrderedMap.lookup_perm (perm_withOwn hk v) hn, List.lookup_append]
    by_cases hc : c = k
    · subst hc
      rw [if_pos rfl, OrderedMap.lookup_eq_none.2 hk, Option.none_or, List.lookup_cons_self]
    · rw [if_neg hc, List.lookup_cons, beq_eq_false_iff_ne.2 hc, List.lookup_nil, Option.or_none]

end TangentFeed
