import TangentFeed.Schema.RoundTrip

/-!
# What a schema declares

`Conforms` says when a value is one of its field, given the names that count as
declared and as present because every object inherits them: none in what a schema
declares, and those of `Object.prototype` where the checks look names up by `in`.
The checks accept what is declared exactly when those names play no role.
-/

namespace TangentFeed.Schema

/-! ## Fields -/

mutual

/-- Induction over fields. -/
theorem Field.indField {motive : Field → Prop} (string : ∀ fl, motive (.string fl))
    (number : ∀ fl, motive (.number fl)) (boolean : ∀ fl, motive (.boolean fl))
    (array : ∀ element fl, motive element → motive (.array element fl))
    (object : ∀ shape fl, (∀ p ∈ shape, motive p.2) → motive (.object shape fl))
    (enum : ∀ values fl, motive (.enum values fl)) : (f : Field) → motive f
  | .string fl => string fl
  | .number fl => number fl
  | .boolean fl => boolean fl
  | .array element fl =>
    array element fl (Field.indField string number boolean array object enum element)
  | .object shape fl =>
    object shape fl (Field.indShape string number boolean array object enum shape)
  | .enum values fl => enum values fl

theorem Field.indShape {motive : Field → Prop} (string : ∀ fl, motive (.string fl))
    (number : ∀ fl, motive (.number fl)) (boolean : ∀ fl, motive (.boolean fl))
    (array : ∀ element fl, motive element → motive (.array element fl))
    (object : ∀ shape fl, (∀ p ∈ shape, motive p.2) → motive (.object shape fl))
    (enum : ∀ values fl, motive (.enum values fl)) :
    (shape : List (JsString × Field)) → ∀ p ∈ shape, motive p.2
  | [] => nofun
  | (_, f) :: rest => List.forall_mem_cons.2
    ⟨Field.indField string number boolean array object enum f,
      Field.indShape string number boolean array object enum rest⟩

end

/-! ## Values -/

/-- `Object.prototype` has no keys of its own: the field takes it if it is an object field
that requires none. -/
def TakesPrototype : Field → Prop
  | .object shape _ => ∀ p ∈ shape,
    if p.1 = protoName then p.2.isNullable = true
    else p.1 ∉ objectPrototypeNames ∧ p.2.isOptional = true
  | _ => False

/-- A key that is not there: it is optional, or what is inherited under its name will do. -/
def AbsentOk (inherited : List JsString) (key : JsString) (f : Field) : Prop :=
  if key ∈ inherited then key = protoName ∧ TakesPrototype f else f.isOptional = true

mutual

/-- The value is one of the field, where the names in `inherited` count as declared keys and
as keys that are there. -/
def Conforms (inherited : List JsString) : Field → Json → Prop
  | .string fl, v => if v.isNull then fl.isNullable = true else ∃ s, v = .str s
  | .number fl, v =>
    if v.isNull then fl.isNullable = true else ∃ n, v = .num n ∧ n.isFinite = true
  | .boolean fl, v => if v.isNull then fl.isNullable = true else ∃ b, v = .bool b
  | .enum values fl, v =>
    if v.isNull then fl.isNullable = true else ∃ e ∈ values, e.matches (.json v) = true
  | .array element fl, v =>
    if v.isNull then fl.isNullable = true
    else ∃ xs, v = .arr xs ∧ ∀ x ∈ xs, Conforms inherited element x
  | .object shape fl, v =>
    if v.isNull then fl.isNullable = true
    else ∃ fs, v = .obj fs ∧ (∀ p ∈ fs, p.1 ∈ shape.map Prod.fst ∨ p.1 ∈ inherited) ∧
      KeysConform inherited shape fs

/-- The keys of the shape in an object. -/
def KeysConform (inherited : List JsString) : List (JsString × Field) →
    List (JsString × Json) → Prop
  | [], _ => True
  | (key, f) :: rest, fs =>
    (match fs.lookup key with
      | some x => Conforms inherited f x
      | none => AbsentOk inherited key f) ∧ KeysConform inherited rest fs

end

theorem keysConform_iff {inherited : List JsString} {shape : List (JsString × Field)}
    {fs : List (JsString × Json)} : KeysConform inherited shape fs ↔ ∀ p ∈ shape,
      match fs.lookup p.1 with
      | some x => Conforms inherited p.2 x
      | none => AbsentOk inherited p.1 p.2 := by
  induction shape with
  | nil => exact ⟨fun _ => nofun, fun _ => trivial⟩
  | cons p shape ih => rw [KeysConform, ih, List.forall_mem_cons]

theorem checkShape_eq_none {shape : List (JsString × Field)} {record : Seen} {path : JsString} :
    checkShape shape record path = none ↔ ∀ p ∈ shape,
      match record.read p.1 with
      | some v => checkValue p.2 v (path ++ js "." ++ p.1) = none
      | none => p.2.isOptional = true := by
  induction shape with
  | nil => exact ⟨fun _ => List.forall_mem_nil _, fun _ => rfl⟩
  | cons p shape ih =>
    obtain ⟨key, f⟩ := p
    rw [checkShape, List.forall_mem_cons, ← ih]
    cases record.read key with
    | some v => exact Option.or_eq_none_iff
    | none =>
      simp only
      cases f.isOptional with
      | true => exact ⟨fun h => ⟨rfl, h⟩, fun h => h.2⟩
      | false => exact ⟨nofun, fun h => by cases h.1⟩

theorem checkElements_eq_none {check : Json → JsString → Option Problem} {p : Json → Prop}
    {xs : List Json} (h : ∀ x ∈ xs, ∀ path, check x path = none ↔ p x) (path : JsString)
    (i : Nat) : checkElements check path i xs = none ↔ ∀ x ∈ xs, p x := by
  induction xs generalizing i with
  | nil => exact ⟨fun _ => List.forall_mem_nil _, fun _ => rfl⟩
  | cons x xs ih =>
    obtain ⟨hx, hxs⟩ := List.forall_mem_cons.1 h
    rw [checkElements, Option.or_eq_none_iff, hx, ih hxs, List.forall_mem_cons]

theorem checkValue_null (f : Field) (path : JsString) :
    checkValue f (.json .null) path = none ↔ f.isNullable = true := by
  have hstep : checkValue f (.json .null) path =
      if f.isNullable then none else some ⟨path, some f.kind⟩ := by
    cases f <;> rfl
  rw [hstep]
  cases f.isNullable with
  | true => exact ⟨fun _ => rfl, fun _ => rfl⟩
  | false => exact ⟨nofun, fun h => absurd h Bool.false_ne_true⟩

/-- An object is checked by its keys and by those of the shape. -/
theorem checkValue_object {shape : List (JsString × Field)} {fl : Flags} {s : Seen}
    (hn : s.isNull = false) (hd : s.describe = js "object") (path : JsString) :
    checkValue (.object shape fl) s path = none ↔
      (∀ key ∈ s.keys, key ∈ shape.map Prod.fst ∨ key ∈ objectPrototypeNames) ∧
        ∀ p ∈ shape, match s.read p.1 with
          | some v => checkValue p.2 v (path ++ js "." ++ p.1) = none
          | none => p.2.isOptional = true := by
  have hkeys : (s.keys.find? fun key =>
      decide (key ∉ shape.map Prod.fst ∧ key ∉ objectPrototypeNames)) = none ↔
        ∀ key ∈ s.keys, key ∈ shape.map Prod.fst ∨ key ∈ objectPrototypeNames := by
    rw [List.find?_eq_none]
    refine forall₂_congr fun key _ => ?_
    rw [decide_eq_true_eq, not_and_or, not_not, not_not]
  rw [← hkeys, ← checkShape_eq_none]
  unfold checkValue
  simp only [hn, hd, Bool.false_eq_true, if_false, if_true]
  split
  · rename_i hfind
    rw [hfind]
    exact ⟨fun h => absurd h (Option.some_ne_none _), fun h => by cases h.1⟩
  · rename_i hfind
    rw [hfind]
    exact (and_iff_right rfl).symm

/-- What every object inherits as `__proto__`. -/
theorem checkValue_objectPrototype (f : Field) (path : JsString) :
    checkValue f .objectPrototype path = none ↔ TakesPrototype f := by
  cases f with
  | object shape fl =>
    rw [checkValue_object rfl rfl]
    refine (and_iff_right nofun).trans (forall₂_congr fun p _ => ?_)
    unfold Seen.read
    by_cases hproto : p.1 = protoName
    · simp only [if_pos hproto]
      exact checkValue_null _ _
    · simp only [if_neg hproto]
      by_cases hin : p.1 ∈ objectPrototypeNames
      · simp only [if_pos hin]
        exact ⟨fun h => absurd h (checkValue_function _ _), fun h => absurd hin h.1⟩
      · simp only [if_neg hin]
        exact ⟨fun h => ⟨hin, h⟩, fun h => h.2⟩
  | string fl =>
    have hne : js "object" ≠ js "string" := by decide
    simp [checkValue, Seen.isNull, Seen.describe, hne, TakesPrototype]
  | number fl => simp [checkValue, Seen.isNull, TakesPrototype]
  | boolean fl =>
    have hne : js "object" ≠ js "boolean" := by decide
    simp [checkValue, Seen.isNull, Seen.describe, hne, TakesPrototype]
  | array element fl => simp [checkValue, Seen.isNull, TakesPrototype]
  | enum values fl => simp [checkValue, Seen.isNull, EnumValue.matches, TakesPrototype]

theorem conforms_array {inherited : List JsString} {element : Field} {fl : Flags}
    {xs : List Json} : Conforms inherited (.array element fl) (.arr xs) ↔
      ∀ x ∈ xs, Conforms inherited element x := by
  have hstep : Conforms inherited (.array element fl) (.arr xs) ↔
      ∃ ys, Json.arr xs = .arr ys ∧ ∀ x ∈ ys, Conforms inherited element x := Iff.rfl
  rw [hstep]
  constructor
  · rintro ⟨ys, hys, h⟩
    rwa [Json.arr.inj hys]
  · exact fun h => ⟨xs, rfl, h⟩

theorem conforms_object {inherited : List JsString} {shape : List (JsString × Field)}
    {fl : Flags} {fs : List (JsString × Json)} :
    Conforms inherited (.object shape fl) (.obj fs) ↔
      (∀ p ∈ fs, p.1 ∈ shape.map Prod.fst ∨ p.1 ∈ inherited) ∧ ∀ p ∈ shape,
        match fs.lookup p.1 with
        | some x => Conforms inherited p.2 x
        | none => AbsentOk inherited p.1 p.2 := by
  have hstep : Conforms inherited (.object shape fl) (.obj fs) ↔ ∃ gs, Json.obj fs = .obj gs ∧
      (∀ p ∈ gs, p.1 ∈ shape.map Prod.fst ∨ p.1 ∈ inherited) ∧ KeysConform inherited shape gs :=
    Iff.rfl
  rw [hstep, ← keysConform_iff]
  constructor
  · rintro ⟨gs, hgs, h⟩
    rwa [Json.obj.inj hgs]
  · exact fun h => ⟨fs, rfl, h⟩

/-- A key of an object, where the names of `Object.prototype` are always found. -/
theorem absent_read {fs : List (JsString × Json)} {key : JsString} (h : fs.lookup key = none)
    (f : Field) (path : JsString) :
    (match (Seen.json (.obj fs)).read key with
      | some v => checkValue f v path = none
      | none => f.isOptional = true) ↔ AbsentOk objectPrototypeNames key f := by
  unfold Seen.read AbsentOk
  simp only [h]
  by_cases hproto : key = protoName
  · have hin : key ∈ objectPrototypeNames := by rw [hproto]; decide
    simp only [if_pos hproto, if_pos hin]
    rw [checkValue_objectPrototype, and_iff_right hproto]
  · simp only [if_neg hproto]
    by_cases hin : key ∈ objectPrototypeNames
    · simp only [if_pos hin]
      exact ⟨fun h => absurd h (checkValue_function f path), fun h => absurd h.1 hproto⟩
    · simp only [if_neg hin]

theorem present_read {fs : List (JsString × Json)} {key : JsString} {v : Json}
    (h : fs.lookup key = some v) : (Seen.json (.obj fs)).read key = some (.json v) := by
  unfold Seen.read
  simp only [h]

/-- **The check of a value counts the names of `Object.prototype`.** -/
theorem checkValue_eq_none (f : Field) : ∀ (v : Json) (path : JsString),
    checkValue f (.json v) path = none ↔ Conforms objectPrototypeNames f v := by
  induction f using Field.indField with
  | string fl =>
    intro v path
    cases v with
    | null => exact checkValue_null _ _
    | str s => exact ⟨fun _ => ⟨s, rfl⟩, fun _ => rfl⟩
    | bool b => exact ⟨nofun, nofun⟩
    | num n => exact ⟨nofun, nofun⟩
    | arr xs => exact ⟨nofun, nofun⟩
    | obj fs => exact ⟨nofun, nofun⟩
  | number fl =>
    intro v path
    cases v with
    | null => exact checkValue_null _ _
    | num n =>
      have hstep : checkValue (.number fl) (.json (.num n)) path =
          if n.isFinite then none else some ⟨path, some (js "finite number")⟩ := rfl
      rw [hstep]
      cases hn : n.isFinite with
      | true => exact ⟨fun _ => ⟨n, rfl, hn⟩, fun _ => rfl⟩
      | false =>
        refine ⟨nofun, ?_⟩
        rintro ⟨m, hm, hfin⟩
        rw [← Json.num.inj hm, hn] at hfin
        cases hfin
    | bool b => exact ⟨nofun, nofun⟩
    | str s => exact ⟨nofun, nofun⟩
    | arr xs => exact ⟨nofun, nofun⟩
    | obj fs => exact ⟨nofun, nofun⟩
  | boolean fl =>
    intro v path
    cases v with
    | null => exact checkValue_null _ _
    | bool b => exact ⟨fun _ => ⟨b, rfl⟩, fun _ => rfl⟩
    | num n => exact ⟨nofun, nofun⟩
    | str s => exact ⟨nofun, nofun⟩
    | arr xs => exact ⟨nofun, nofun⟩
    | obj fs => exact ⟨nofun, nofun⟩
  | enum values fl =>
    intro v path
    cases hv : v.isNull with
    | true =>
      cases v with
      | null => exact checkValue_null _ _
      | bool b => cases hv
      | num n => cases hv
      | str s => cases hv
      | arr xs => cases hv
      | obj fs => cases hv
    | false =>
      have hnull : (Seen.json v).isNull = false := hv
      unfold checkValue
      simp only [hnull, Bool.false_eq_true, if_false]
      rw [Conforms, hv, if_neg Bool.false_ne_true, ← List.any_eq_true]
      cases values.any fun e => e.matches (.json v) with
      | true => exact ⟨fun _ => rfl, fun _ => rfl⟩
      | false => exact ⟨nofun, fun h => absurd h Bool.false_ne_true⟩
  | array element fl ih =>
    intro v path
    cases v with
    | null => exact checkValue_null _ _
    | arr xs =>
      rw [conforms_array]
      exact checkElements_eq_none (fun x _ path => ih x path) path 0
    | bool b => exact ⟨nofun, nofun⟩
    | num n => exact ⟨nofun, nofun⟩
    | str s => exact ⟨nofun, nofun⟩
    | obj fs => exact ⟨nofun, nofun⟩
  | object shape fl ih =>
    intro v path
    cases v with
    | null => exact checkValue_null _ _
    | obj fs =>
      rw [checkValue_object rfl rfl, conforms_object]
      refine and_congr List.forall_mem_map (forall₂_congr fun p hp => ?_)
      cases hv : fs.lookup p.1 with
      | none => exact absent_read hv p.2 _
      | some x =>
        rw [present_read hv]
        exact ih p hp x _
    | bool b => exact ⟨nofun, nofun⟩
    | num n => exact ⟨nofun, nofun⟩
    | str s => exact ⟨nofun, nofun⟩
    | arr xs => exact ⟨nofun, nofun⟩

/-! ## Names that play no role -/

/-- Counting an inherited name as one that is there makes no difference to a key that is not
there. -/
def AbsentAlike (key : JsString) (f : Field) : Prop :=
  key ∈ objectPrototypeNames → (f.isOptional = true ↔ key = protoName ∧ TakesPrototype f)

mutual

/-- In no object of the value, at any depth, does a name that every object inherits stand for
a key that is not declared, or for one that is not there. -/
def NamesPlain : Field → Json → Prop
  | .array element _, .arr xs => ∀ x ∈ xs, NamesPlain element x
  | .object shape _, .obj fs =>
    (∀ p ∈ fs, p.1 ∈ objectPrototypeNames → p.1 ∈ shape.map Prod.fst) ∧ KeysPlain shape fs
  | _, _ => True

/-- The keys of the shape in an object. -/
def KeysPlain : List (JsString × Field) → List (JsString × Json) → Prop
  | [], _ => True
  | (key, f) :: rest, fs =>
    (match fs.lookup key with
      | some x => NamesPlain f x
      | none => AbsentAlike key f) ∧ KeysPlain rest fs

end

theorem keysPlain_iff {shape : List (JsString × Field)} {fs : List (JsString × Json)} :
    KeysPlain shape fs ↔ ∀ p ∈ shape,
      match fs.lookup p.1 with
      | some x => NamesPlain p.2 x
      | none => AbsentAlike p.1 p.2 := by
  induction shape with
  | nil => exact ⟨fun _ => nofun, fun _ => trivial⟩
  | cons p shape ih => rw [KeysPlain, ih, List.forall_mem_cons]

theorem absentOk_nil {key : JsString} {f : Field} : AbsentOk [] key f ↔ f.isOptional = true := by
  unfold AbsentOk
  rw [if_neg List.not_mem_nil]

theorem absentAlike_iff {key : JsString} {f : Field} :
    AbsentAlike key f ↔ (AbsentOk objectPrototypeNames key f ↔ AbsentOk [] key f) := by
  unfold AbsentAlike
  rw [absentOk_nil, AbsentOk]
  by_cases hin : key ∈ objectPrototypeNames
  · rw [if_pos hin]
    exact ⟨fun h => (h hin).symm, fun h _ => h.symm⟩
  · rw [if_neg hin]
    exact ⟨fun _ => Iff.rfl, fun _ h => absurd h hin⟩

/-- A value is judged alike when the inherited names play no role, and only then if it is
accepted. -/
structure Judged (f : Field) (v : Json) : Prop where
  alike : NamesPlain f v → (Conforms objectPrototypeNames f v ↔ Conforms [] f v)
  plain : Conforms objectPrototypeNames f v → Conforms [] f v → NamesPlain f v

theorem judged_of_scalar {f : Field} {v : Json} (h : NamesPlain f v)
    (hsame : Conforms objectPrototypeNames f v ↔ Conforms [] f v) : Judged f v :=
  ⟨fun _ => hsame, fun _ _ => h⟩

theorem judged (f : Field) : ∀ v, Judged f v := by
  induction f using Field.indField with
  | string fl => exact fun v => judged_of_scalar trivial Iff.rfl
  | number fl => exact fun v => judged_of_scalar trivial Iff.rfl
  | boolean fl => exact fun v => judged_of_scalar trivial Iff.rfl
  | enum values fl => exact fun v => judged_of_scalar trivial Iff.rfl
  | array element fl ih =>
    intro v
    cases v with
    | arr xs =>
      constructor
      · intro h
        rw [conforms_array, conforms_array]
        exact forall₂_congr fun x hx => (ih x).alike (h x hx)
      · intro h h'
        rw [conforms_array] at h h'
        exact fun x hx => (ih x).plain (h x hx) (h' x hx)
    | null => exact judged_of_scalar trivial Iff.rfl
    | bool b => exact judged_of_scalar trivial ⟨nofun, nofun⟩
    | num n => exact judged_of_scalar trivial ⟨nofun, nofun⟩
    | str s => exact judged_of_scalar trivial ⟨nofun, nofun⟩
    | obj fs => exact judged_of_scalar trivial ⟨nofun, nofun⟩
  | object shape fl ih =>
    intro v
    cases v with
    | obj fs =>
      constructor
      · rintro ⟨hkeys, hshape⟩
        rw [keysPlain_iff] at hshape
        rw [conforms_object, conforms_object]
        refine and_congr (forall₂_congr fun p hp => ?_) (forall₂_congr fun p hp => ?_)
        · exact ⟨fun h => .inl (h.elim id (hkeys p hp)), fun h => h.imp_right nofun⟩
        · have hsame := hshape p hp
          cases hv : fs.lookup p.1 with
          | none =>
            rw [hv] at hsame
            exact absentAlike_iff.1 hsame
          | some x =>
            rw [hv] at hsame
            exact (ih p hp x).alike hsame
      · intro h h'
        rw [conforms_object] at h h'
        refine ⟨fun p hp _ => (h'.1 p hp).resolve_right List.not_mem_nil,
          keysPlain_iff.2 fun p hp => ?_⟩
        have h1 := h.2 p hp
        have h2 := h'.2 p hp
        cases hv : fs.lookup p.1 with
        | none =>
          rw [hv] at h1 h2
          exact absentAlike_iff.2 (iff_of_true h1 h2)
        | some x =>
          rw [hv] at h1 h2
          exact (ih p hp x).plain h1 h2
    | null => exact judged_of_scalar trivial Iff.rfl
    | bool b => exact judged_of_scalar trivial ⟨nofun, nofun⟩
    | num n => exact judged_of_scalar trivial ⟨nofun, nofun⟩
    | str s => exact judged_of_scalar trivial ⟨nofun, nofun⟩
    | arr xs => exact judged_of_scalar trivial ⟨nofun, nofun⟩

end TangentFeed.Schema
