import TangentFeed.Core.Canonical
import TangentFeed.Schema.Validate

/-!
# Checks look through canonical JSON

A value that was encrypted is read back up to canonical JSON: its properties may
have changed places and a zero its sign. `checkValue` accepts it if and only if it
accepts the value that was written, whatever path it reports.
-/

namespace TangentFeed.Schema

open Json Seen

/-- The same value, up to canonical JSON. -/
inductive Alike : Seen → Seen → Prop where
  | refl (s : Seen) : Alike s s
  | num {n : Number} (h : n.isFinite = true) :
      Alike (json (num (if n.mantissa = 0 then ⟨0⟩ else n))) (json (num n))
  | arr {xs : List Json} (h : ∀ x ∈ xs, x.proper = true) :
      Alike (json (arr (xs.map normal))) (json (arr xs))
  | obj {fs gs : List (JsString × Json)} (hn : (fs.map Prod.fst).Nodup)
      (h : ∀ f ∈ fs, f.2.proper = true) (hp : (fs.map fun f => (f.1, f.2.normal)).Perm gs) :
      Alike (json (obj gs)) (json (obj fs))

/-- What is read back of a value is the same value. -/
theorem alike_normal {v : Json} (h : v.proper = true) : Alike (json v.normal) (json v) := by
  cases v with
  | null => exact .refl _
  | bool b => exact .refl _
  | str s => exact .refl _
  | num n =>
    have hf : n.isFinite = true := h
    have hn : (num n).normal = num (if n.mantissa = 0 then ⟨0⟩ else n) := by
      rw [normal, toDoc, dif_pos hf]
      rfl
    rw [hn]
    exact .num hf
  | arr xs =>
    rw [normal_arr]
    exact .arr (proper_arr.1 h)
  | obj fs =>
    obtain ⟨hn, hf⟩ := proper_obj.1 h
    obtain ⟨gs, hgs, hp⟩ := normal_obj hn
    rw [hgs]
    exact .obj hn hf hp

namespace Alike

variable {s t : Seen}

theorem isNull (h : Alike s t) : s.isNull = t.isNull := by
  cases h <;> rfl

theorem describe (h : Alike s t) : s.describe = t.describe := by
  cases h <;> rfl

theorem keys (h : Alike s t) : s.keys.Perm t.keys := by
  cases h with
  | refl => exact .refl _
  | num => exact .refl _
  | arr => exact .refl _
  | obj hn hf hp =>
    have hnames := (hp.map Prod.fst).symm
    rw [List.map_map] at hnames
    exact hnames

/-- A property is in both or in neither. -/
theorem read (h : Alike s t) (k : JsString) : Option.Rel Alike (s.read k) (t.read k) := by
  have hrefl : ∀ o : Option Seen, Option.Rel Alike o o := by
    intro o
    cases o with
    | none => exact .none
    | some a => exact .some (.refl a)
  cases h with
  | refl => exact hrefl _
  | num => exact .none
  | arr => exact .none
  | @obj fs gs hn hf hp =>
    have hlookup : gs.lookup k = (fs.lookup k).map Json.normal := by
      rw [← OrderedMap.lookup_perm hp (by rwa [List.map_map]), OrderedMap.lookup_map]
    unfold Seen.read
    simp only [hlookup]
    cases hv : fs.lookup k with
    | some v => exact .some (alike_normal (hf _ ((OrderedMap.mem_iff_lookup hn).2 hv)))
    | none => exact hrefl _

/-- A zero of either sign is the same in an enumeration. -/
theorem matches_eq (h : Alike s t) (v : EnumValue) : v.matches s = v.matches t := by
  cases h with
  | refl => rfl
  | arr => cases v <;> rfl
  | obj => cases v <;> rfl
  | @num n hf =>
    cases v with
    | str s => rfl
    | num m =>
      change sameValueZero m _ = sameValueZero m n
      split
      · rename_i hz
        have hfin : (⟨0⟩ : Number).isFinite = true := by decide
        have hzero : (⟨0⟩ : Number).mantissa = 0 := by decide
        have hnan : ∀ {x : Number}, x.isFinite = true → x.isNaN = false := by
          intro x hx
          unfold Number.isFinite at hx
          unfold Number.isNaN
          rw [Bool.and_eq_false_iff]
          exact .inl (by simpa using hx)
        unfold sameValueZero
        rw [hnan hfin, hnan hf, hfin, hf, decide_eq_true hzero, decide_eq_true hz, Bool.and_false,
          Bool.false_or, Bool.and_true, Bool.and_true, Bool.eq_iff_iff, Bool.or_eq_true,
          Bool.or_eq_true, decide_eq_true_eq, decide_eq_true_eq, Bool.and_eq_true,
          decide_eq_true_eq]
        constructor
        · rintro (hm | rfl)
          · exact .inl hm
          · exact .inl ⟨hfin, hzero⟩
        · rintro (hm | rfl)
          · exact .inl hm
          · exact .inl ⟨hf, hz⟩
      · rfl

end Alike

/-! ## Values -/

theorem checkElements_alike {check : Json → JsString → Option Problem} {xs ys : List Json}
    (h : List.Forall₂ (fun x y => ∀ p q, check x p = none ↔ check y q = none) xs ys)
    (p q : JsString) (i j : Nat) :
    checkElements check p i xs = none ↔ checkElements check q j ys = none := by
  induction h generalizing i j with
  | nil => exact ⟨fun _ => rfl, fun _ => rfl⟩
  | cons hxy _ ih =>
    rw [checkElements, checkElements, Option.or_eq_none_iff, Option.or_eq_none_iff,
      hxy _ (elementPath q j), ih (i + 1) (j + 1)]

/-- Whether a list is searched in vain does not depend on its order. -/
theorem find?_perm {α : Type} {l l' : List α} (h : l.Perm l') (p : α → Bool) :
    l.find? p = none ↔ l'.find? p = none := by
  rw [List.find?_eq_none, List.find?_eq_none]
  exact forall_congr' fun x => by rw [h.mem_iff]

mutual

/-- **A check accepts both or neither.** -/
theorem checkValue_alike : (f : Field) → ∀ {s t : Seen}, Alike s t → ∀ p q : JsString,
    (checkValue f s p = none ↔ checkValue f t q = none)
  | .string fl, s, t, h, p, q => by
    unfold checkValue
    simp only [h.isNull, h.describe]
    split
    · split <;> simp
    · split <;> simp
  | .boolean fl, s, t, h, p, q => by
    unfold checkValue
    simp only [h.isNull, h.describe]
    split
    · split <;> simp
    · split <;> simp
  | .number fl, s, t, h, p, q => by
    unfold checkValue
    simp only [h.isNull]
    split
    · split <;> simp
    · cases h with
      | refl s =>
        cases s with
        | function => simp
        | objectPrototype => simp
        | json v =>
          cases v with
          | num n => simp only; split <;> simp
          | null => simp
          | bool b => simp
          | str s => simp
          | arr xs => simp
          | obj fs => simp
      | @num n hf =>
        have hfin : (if n.mantissa = 0 then (⟨0⟩ : Number) else n).isFinite = true := by
          split
          · decide
          · exact hf
        simp only [hfin, hf, if_true]
      | arr => simp
      | obj => simp
  | .enum values fl, s, t, h, p, q => by
    unfold checkValue
    simp only [h.isNull, h.matches_eq]
    split
    · split <;> simp
    · split <;> simp
  | .array element fl, s, t, h, p, q => by
    unfold checkValue
    simp only [h.isNull]
    split
    · split <;> simp
    · cases h with
      | refl s =>
        cases s with
        | function => simp
        | objectPrototype => simp
        | json v =>
          cases v with
          | arr xs =>
            exact checkElements_alike (List.forall₂_same.2 fun x _ p q =>
              checkValue_alike element (.refl (json x)) p q) p q 0 0
          | num n => simp
          | null => simp
          | bool b => simp
          | str s => simp
          | obj fs => simp
      | @arr xs hx =>
        refine checkElements_alike ?_ p q 0 0
        rw [List.forall₂_map_left_iff, List.forall₂_same]
        exact fun x hm p q => checkValue_alike element (alike_normal (hx x hm)) p q
      | num => simp
      | obj => simp
  | .object shape fl, s, t, h, p, q => by
    unfold checkValue
    simp only [h.isNull, h.describe]
    split
    · split <;> simp
    · split
      · have hkeys := find?_perm h.keys fun key =>
          decide (key ∉ shape.map Prod.fst ∧ key ∉ objectPrototypeNames)
        have hshape := checkShape_alike shape h p q
        cases hs : s.keys.find? fun key =>
            decide (key ∉ shape.map Prod.fst ∧ key ∉ objectPrototypeNames) with
        | none =>
          rw [hkeys.1 hs]
          exact hshape
        | some key =>
          cases ht : t.keys.find? fun key =>
              decide (key ∉ shape.map Prod.fst ∧ key ∉ objectPrototypeNames) with
          | none => rw [hkeys.2 ht] at hs; cases hs
          | some key' => simp
      · simp

theorem checkShape_alike : (shape : List (JsString × Field)) → ∀ {s t : Seen}, Alike s t →
    ∀ p q : JsString, (checkShape shape s p = none ↔ checkShape shape t q = none)
  | [], _, _, _, _, _ => ⟨fun _ => rfl, fun _ => rfl⟩
  | (key, sub) :: rest, s, t, h, p, q => by
    have hrest := checkShape_alike rest h p q
    have hread := h.read key
    rw [checkShape, checkShape]
    generalize s.read key = a at hread
    generalize t.read key = b at hread
    cases hread with
    | none =>
      simp only
      split
      · exact hrest
      · simp
    | some hab =>
      simp only [Option.or_eq_none_iff]
      rw [checkValue_alike sub hab _ (q ++ js "." ++ key), hrest]

end

end TangentFeed.Schema
