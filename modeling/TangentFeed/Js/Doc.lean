import TangentFeed.Js.Json

/-!
# Documents

`Doc ν` is a JSON document with numbers of type `ν`: the texts of a document
have numerals, the values of a language its own numbers. `Doc.write` writes a
document, and functions on documents are folds.
-/

namespace TangentFeed

inductive Doc (ν : Type) where
  | null
  | bool (b : Bool)
  | num (n : ν)
  | str (s : JsString)
  | arr (xs : List (Doc ν))
  | obj (fs : List (JsString × Doc ν))

namespace Doc

variable {μ ν ρ β : Type}

/-! ## Induction and folds -/

/-- One case for each kind of document. -/
structure Cases (motive : Doc ν → Prop) : Prop where
  null : motive null
  bool : ∀ b, motive (bool b)
  num : ∀ n, motive (num n)
  str : ∀ s, motive (str s)
  arr : ∀ xs, (∀ x ∈ xs, motive x) → motive (arr xs)
  obj : ∀ fs, (∀ f ∈ fs, motive f.2) → motive (obj fs)

mutual

theorem Cases.doc {motive : Doc ν → Prop} (h : Cases motive) : (t : Doc ν) → motive t
  | .null => h.null
  | .bool b => h.bool b
  | .num n => h.num n
  | .str s => h.str s
  | .arr xs => h.arr xs (h.elems xs)
  | .obj fs => h.obj fs (h.fields fs)

theorem Cases.elems {motive : Doc ν → Prop} (h : Cases motive) :
    (xs : List (Doc ν)) → ∀ x ∈ xs, motive x
  | [] => nofun
  | x :: xs => List.forall_mem_cons.2 ⟨h.doc x, h.elems xs⟩

theorem Cases.fields {motive : Doc ν → Prop} (h : Cases motive) :
    (fs : List (JsString × Doc ν)) → ∀ f ∈ fs, motive f.2
  | [] => nofun
  | (_, x) :: fs => List.forall_mem_cons.2 ⟨h.doc x, h.fields fs⟩

end

/-- Induction over documents. -/
@[elab_as_elim]
theorem ind {motive : Doc ν → Prop} (null : motive null) (bool : ∀ b, motive (bool b))
    (num : ∀ n, motive (num n)) (str : ∀ s, motive (str s))
    (arr : ∀ xs, (∀ x ∈ xs, motive x) → motive (arr xs))
    (obj : ∀ fs, (∀ f ∈ fs, motive f.2) → motive (obj fs)) (t : Doc ν) : motive t :=
  Cases.doc ⟨null, bool, num, str, arr, obj⟩ t

/-- What a fold makes of each kind of value. -/
structure Algebra (ν β : Type) where
  null : β
  bool : Bool → β
  num : ν → β
  str : JsString → β
  arr : List β → β
  obj : List (JsString × β) → β

mutual

def fold (A : Algebra ν β) : Doc ν → β
  | .null => A.null
  | .bool b => A.bool b
  | .num n => A.num n
  | .str s => A.str s
  | .arr xs => A.arr (foldElems A xs)
  | .obj fs => A.obj (foldFields A fs)

def foldElems (A : Algebra ν β) : List (Doc ν) → List β
  | [] => []
  | x :: xs => fold A x :: foldElems A xs

def foldFields (A : Algebra ν β) : List (JsString × Doc ν) → List (JsString × β)
  | [] => []
  | (k, x) :: fs => (k, fold A x) :: foldFields A fs

end

@[simp] theorem fold_arr (A : Algebra ν β) (xs : List (Doc ν)) :
    fold A (.arr xs) = A.arr (xs.map (fold A)) := by
  have helems : foldElems A xs = xs.map (fold A) := by
    induction xs with
    | nil => rfl
    | cons x xs ih => rw [foldElems, ih, List.map_cons]
  rw [fold, helems]

@[simp] theorem fold_obj (A : Algebra ν β) (fs : List (JsString × Doc ν)) :
    fold A (.obj fs) = A.obj (fs.map fun f => (f.1, fold A f.2)) := by
  have hfields : foldFields A fs = fs.map fun f => (f.1, fold A f.2) := by
    induction fs with
    | nil => rfl
    | cons f fs ih => rw [foldFields, ih, List.map_cons]
  rw [fold, hfields]

/-! ## Numbers -/

/-- Replace each number. -/
def map (f : μ → ν) : Doc μ → Doc ν :=
  fold ⟨.null, .bool, fun n => .num (f n), .str, .arr, .obj⟩

@[simp] theorem map_arr (f : μ → ν) (xs : List (Doc μ)) :
    map f (.arr xs) = .arr (xs.map (map f)) := fold_arr _ xs

@[simp] theorem map_obj (f : μ → ν) (fs : List (JsString × Doc μ)) :
    map f (.obj fs) = .obj (fs.map fun g => (g.1, map f g.2)) := fold_obj _ fs

/-- Every number in the document satisfies `p`. -/
def All (p : ν → Prop) : Doc ν → Prop :=
  fold ⟨True, fun _ => True, p, fun _ => True, fun ps => ∀ q ∈ ps, q, fun fs => ∀ f ∈ fs, f.2⟩

theorem all_arr {p : ν → Prop} {xs : List (Doc ν)} : All p (.arr xs) ↔ ∀ x ∈ xs, All p x := by
  unfold All
  rw [fold_arr]
  exact List.forall_mem_map

theorem all_obj {p : ν → Prop} {fs : List (JsString × Doc ν)} :
    All p (.obj fs) ↔ ∀ f ∈ fs, All p f.2 := by
  unfold All
  rw [fold_obj]
  exact List.forall_mem_map

theorem map_map (f : μ → ν) (g : ν → ρ) (t : Doc μ) : (t.map f).map g = t.map (g ∘ f) := by
  induction t using ind with
  | null => rfl
  | bool b => rfl
  | num n => rfl
  | str s => rfl
  | arr xs ih =>
    rw [map_arr, map_arr, map_arr, List.map_map]
    exact congrArg Doc.arr (List.map_congr_left ih)
  | obj fs ih =>
    rw [map_obj, map_obj, map_obj, List.map_map]
    exact congrArg Doc.obj (List.map_congr_left fun f hf => congrArg (Prod.mk f.1) (ih f hf))

/-- Replacements agree on a document if they agree on its numbers. -/
theorem map_eq_iff {f g : μ → ν} {t : Doc μ} : t.map f = t.map g ↔ t.All fun n => f n = g n := by
  induction t using ind with
  | null => exact ⟨fun _ => trivial, fun _ => rfl⟩
  | bool b => exact ⟨fun _ => trivial, fun _ => rfl⟩
  | num n => exact ⟨fun h => Doc.num.inj h, fun h => congrArg Doc.num h⟩
  | str s => exact ⟨fun _ => trivial, fun _ => rfl⟩
  | arr xs ih =>
    rw [map_arr, map_arr, Doc.arr.injEq, List.map_inj_left, all_arr]
    exact forall₂_congr ih
  | obj fs ih =>
    rw [map_obj, map_obj, Doc.obj.injEq, List.map_inj_left, all_obj]
    refine forall₂_congr fun f hf => ?_
    rw [Prod.mk.injEq, ih f hf]
    exact and_iff_right rfl

/-! ## Names -/

/-- The objects have distinct names, at every depth. -/
def Distinct : Doc ν → Prop :=
  fold ⟨True, fun _ => True, fun _ => True, fun _ => True, fun ps => ∀ p ∈ ps, p,
    fun fs => (fs.map Prod.fst).Nodup ∧ ∀ f ∈ fs, f.2⟩

theorem distinct_arr {xs : List (Doc ν)} : Distinct (.arr xs) ↔ ∀ x ∈ xs, Distinct x := by
  unfold Distinct
  rw [fold_arr]
  exact List.forall_mem_map

theorem distinct_obj {fs : List (JsString × Doc ν)} :
    Distinct (.obj fs) ↔ (fs.map Prod.fst).Nodup ∧ ∀ f ∈ fs, Distinct f.2 := by
  unfold Distinct
  rw [fold_obj]
  simp only [List.map_map, List.forall_mem_map]
  exact Iff.rfl

/-- The properties of every object in the order of their names. -/
def sorted : Doc ν → Doc ν :=
  fold ⟨.null, .bool, .num, .str, .arr, fun fs => .obj (fs.insertionSort fun a b => a.1 ≤ b.1)⟩

@[simp] theorem sorted_arr (xs : List (Doc ν)) : sorted (.arr xs) = .arr (xs.map sorted) :=
  fold_arr _ xs

@[simp] theorem sorted_obj (fs : List (JsString × Doc ν)) :
    sorted (.obj fs) =
      .obj ((fs.map fun f => (f.1, f.2.sorted)).insertionSort fun a b => a.1 ≤ b.1) :=
  fold_obj _ fs

/-- Values are sorted along with their names. -/
theorem insertionSort_map (f : μ → ν) (fs : List (JsString × μ)) :
    (fs.map fun g => (g.1, f g.2)).insertionSort (fun a b => a.1 ≤ b.1) =
      (fs.insertionSort fun a b => a.1 ≤ b.1).map fun g => (g.1, f g.2) :=
  (List.map_insertionSort (fun a b : JsString × μ => a.1 ≤ b.1)
    (fun a b : JsString × ν => a.1 ≤ b.1) (fun g => (g.1, f g.2)) fs fun _ _ _ _ => Iff.rfl).symm

theorem sorted_map (f : μ → ν) (t : Doc μ) : (t.map f).sorted = t.sorted.map f := by
  induction t using ind with
  | null => rfl
  | bool b => rfl
  | num n => rfl
  | str s => rfl
  | arr xs ih =>
    rw [map_arr, sorted_arr, sorted_arr, map_arr, List.map_map, List.map_map]
    exact congrArg Doc.arr (List.map_congr_left ih)
  | obj fs ih =>
    rw [map_obj, sorted_obj, sorted_obj, map_obj, ← insertionSort_map, List.map_map, List.map_map]
    have hfields : ∀ g ∈ fs, ((fun g : JsString × Doc ν => (g.1, g.2.sorted)) ∘
        fun g : JsString × Doc μ => (g.1, g.2.map f)) g = ((fun g => (g.1, g.2.map f)) ∘
        fun g : JsString × Doc μ => (g.1, g.2.sorted)) g := fun g hg =>
      congrArg (Prod.mk g.1) (ih g hg)
    rw [List.map_congr_left hfields]

theorem all_sorted {p : ν → Prop} {t : Doc ν} : t.sorted.All p ↔ t.All p := by
  induction t using ind with
  | null => exact Iff.rfl
  | bool b => exact Iff.rfl
  | num n => exact Iff.rfl
  | str s => exact Iff.rfl
  | arr xs ih =>
    rw [sorted_arr, all_arr, all_arr, List.forall_mem_map]
    exact forall₂_congr ih
  | obj fs ih =>
    rw [sorted_obj, all_obj, all_obj]
    simp only [List.mem_insertionSort, List.forall_mem_map]
    exact forall₂_congr ih

/-! ## Text -/

/-- `"key":value`. -/
def memberText (f : JsString × JsString) : JsString := Json.quote f.1 ++ js ":" ++ f.2

/-- The text of a document without space. -/
def write : Doc JsString → JsString :=
  fold ⟨js "null", fun b => if b then js "true" else js "false", id, Json.quote,
    fun xs => js "[" ++ [0x2c].intercalate xs ++ js "]",
    fun fs => js "\x7b" ++ [0x2c].intercalate (fs.map memberText) ++ js "\x7d"⟩

@[simp] theorem write_arr (xs : List (Doc JsString)) :
    write (.arr xs) = js "[" ++ [0x2c].intercalate (xs.map write) ++ js "]" := fold_arr _ xs

@[simp] theorem write_obj (fs : List (JsString × Doc JsString)) :
    write (.obj fs) = js "\x7b" ++
      [0x2c].intercalate (fs.map fun f => memberText (f.1, write f.2)) ++ js "\x7d" := by
  refine (fold_obj _ fs).trans ?_
  simp only [List.map_map]
  rfl

end Doc

end TangentFeed
