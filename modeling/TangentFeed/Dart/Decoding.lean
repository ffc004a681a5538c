import Mathlib.Data.Set.List
import TangentFeed.Dart.Signing

/-!
# What Dart reads back

`jsonDecode` inverts `jsonEncode` on values with finite numbers: an `int` is printed
without a fraction and a `double` never so. The canonical text forgets that
difference: a whole `double` of 64 bits is read back as an `int`.
-/

namespace TangentFeed.Dart

open Json (FiniteNumber)

/-! ## Numbers -/

def Num.toAny : Num → AnyNum
  | .int i => .int i
  | .double d => .double d.1

theorem anyText_toAny (n : Num) : anyText n.toAny = numText n := by
  cases n <;> rfl

theorem toNum_toAny (n : Num) : n.toAny.toNum = some n := by
  cases n with
  | int i => rfl
  | double d => exact dif_pos d.2

theorem toAny_of_toNum {n : AnyNum} {m : Num} (h : n.toNum = some m) : m.toAny = n := by
  cases n with
  | int i =>
    obtain rfl := Option.some.inj h
    rfl
  | double d =>
    change (if h : d.isFinite = true then some (Num.double ⟨d, h⟩) else none) = some m at h
    split at h
    · obtain rfl := Option.some.inj h
      rfl
    · cases h

theorem readInteger_natural (neg : Bool) (n : Nat) {rest : JsString} (hr : Stops rest) :
    readInteger ((if neg then js "-" else []) ++ Number.decimalDigits n ++ rest) =
      some (if neg then -(n : Int) else n, rest) := by
  rw [List.append_assoc, readInteger_sign _ (Number.all_isDigit_decimalDigits n)
    (Number.decimalDigits_ne_nil n) (lead_decimalDigits n) hr.not_digit, head_any_of_stops hr,
    if_neg (by decide), Number.digitsVal_decimalDigits]

theorem readInteger_intText (i : Int) {rest : JsString} (hr : Stops rest) :
    readInteger (intText i ++ rest) = some (i, rest) := by
  rw [intText_eq, readInteger_natural _ _ hr]
  by_cases h : i < 0
  · rw [decide_eq_true h, if_pos rfl, Int.ofNat_natAbs_of_nonpos h.le, neg_neg]
  · rw [decide_eq_false h, if_neg (by decide), Int.natAbs_of_nonneg (not_lt.1 h)]

/-- A numeral that goes on after its digits is not an integer. -/
theorem readInteger_point (neg : Bool) (n : Nat) (rest : JsString) :
    readInteger ((if neg then js "-" else []) ++ Number.decimalDigits n ++ js ".0" ++ rest) =
      none := by
  rw [List.append_assoc, List.append_assoc, readInteger_sign _ (Number.all_isDigit_decimalDigits n)
    (Number.decimalDigits_ne_nil n) (lead_decimalDigits n) (fun c hc => by
      obtain rfl := Option.mem_some_iff.1 hc
      decide)]
  rfl

/-- **A double is read back**, and not as an integer. -/
theorem read_doubleText (d : FiniteNumber) {rest : JsString} (hr : Stops rest) :
    Number.readNumber (doubleText d.1 ++ rest) = some (d.1, rest) ∧
      readInteger (doubleText d.1 ++ rest) = none := by
  obtain ⟨d, hf⟩ := d
  unfold doubleText
  by_cases hd : d.mantissa = 0
  · have hread := readNumber_pointZero hf (inCell_zero hd) hr
    have hint := readInteger_point d.negative 0 rest
    simp only [hd, if_true]
    cases hneg : d.negative with
    | true =>
      rw [hneg] at hread hint
      exact ⟨hread, hint⟩
    | false =>
      rw [hneg] at hread hint
      exact ⟨hread, hint⟩
  · cases hplain : isPlainWhole d with
    | true =>
      obtain ⟨hw, hsmall⟩ := isPlainWhole_iff.1 hplain
      obtain ⟨p, htext, hcell, -⟩ := Number.toString_whole hd hf hw hsmall
      simp only [hd, if_false, if_true]
      rw [htext]
      exact ⟨readNumber_pointZero hf hcell hr, readInteger_point _ p rest⟩
    | false =>
      simp only [hd, if_false, Bool.false_eq_true]
      refine ⟨?_, readInteger_of_not_plain hd hf hplain⟩
      rw [Number.readNumber_toString hf hr, if_neg hd]

theorem inRange (i : Int64) : -2 ^ 63 ≤ i.toInt ∧ i.toInt < 2 ^ 63 := ⟨i.le_toInt, i.toInt_lt⟩

theorem anyNum_of_integer {s rest : JsString} {d : Number} {i : Int64}
    (h : readInteger s = some (i.toInt, rest)) : anyNum s d = .int i := by
  unfold anyNum
  rw [h]
  simp only [if_pos (inRange i), Int64.ofInt_toInt]

theorem anyNum_of_none {s : JsString} {d : Number} (h : readInteger s = none) :
    anyNum s d = .double d := by
  unfold anyNum
  rw [h]

theorem readAnyNum_numText (n : Num) {rest : JsString} (hr : Stops rest) :
    readAnyNum (numText n ++ rest) = some (n.toAny, rest) := by
  unfold readAnyNum
  cases n with
  | int i =>
    obtain ⟨x, hx, -⟩ := received_int i
    rw [hx rest hr]
    exact congrArg (fun n => some (n, rest)) (anyNum_of_integer (readInteger_intText _ hr))
  | double d =>
    obtain ⟨hread, hint⟩ := read_doubleText d hr
    change (Number.readNumber (doubleText d.1 ++ rest)).map _ = _
    rw [hread]
    exact congrArg (fun n => some (n, rest)) (anyNum_of_none hint)

/-! ## Values -/

/-- A map whose keys are distinct is decoded to itself. -/
theorem ofAnyDoc_of_distinct {ν : Type} {t : Doc ν} (h : t.Distinct) : ofAnyDoc t = t := by
  induction t using Doc.ind with
  | null => rfl
  | bool b => rfl
  | num n => rfl
  | str s => rfl
  | arr xs ih =>
    refine (Doc.fold_arr _ xs).trans (congrArg Doc.arr ?_)
    exact (List.map_congr_left fun x hx => ih x hx (Doc.distinct_arr.1 h x hx)).trans (List.map_id _)
  | obj fs ih =>
    obtain ⟨hn, hf⟩ := Doc.distinct_obj.1 h
    have hfields : fs.map (fun f => (f.1, ofAnyDoc f.2)) = fs :=
      (List.map_congr_left fun f hm => congrArg (Prod.mk f.1) (ih f hm (hf f hm))).trans
        (List.map_id _)
    refine (Doc.fold_obj _ fs).trans (congrArg Doc.obj ?_)
    change (fs.map fun f => (f.1, ofAnyDoc f.2)).foldl (fun o f => OrderedMap.put f.1 f.2 o) [] = fs
    rw [hfields]
    exact OrderedMap.foldl_put_of_nodup hn

theorem mapM_of_forall {α β γ : Type} {f : β → Option γ} {g : α → β} {k : α → γ} {l : List α}
    (h : ∀ x ∈ l, f (g x) = some (k x)) : (l.map g).mapM f = some (l.map k) := by
  induction l with
  | nil => rfl
  | cons x l ih =>
    obtain ⟨hx, hl⟩ := List.forall_mem_cons.1 h
    rw [List.map_cons, List.mapM_cons, hx, ih hl]
    rfl

/-- Finite numbers stay as they are. -/
theorem finiteDoc_map (t : Doc Num) : finiteDoc (t.map Num.toAny) = some t := by
  induction t using Doc.ind with
  | null => rfl
  | bool b => rfl
  | str s => rfl
  | num n => exact congrArg (Option.map Doc.num) (toNum_toAny n)
  | arr xs ih =>
    have hfold : finiteDoc (.arr (xs.map (Doc.map Num.toAny))) =
        (((xs.map (Doc.map Num.toAny)).map finiteDoc).mapM id).map .arr := Doc.fold_arr _ _
    rw [Doc.map_arr, hfold, List.map_map]
    have hall := mapM_of_forall (f := id) (g := finiteDoc ∘ Doc.map Num.toAny) (k := id) ih
    rw [hall, List.map_id]
    rfl
  | obj fs ih =>
    have hfold : finiteDoc (.obj (fs.map fun f => (f.1, f.2.map Num.toAny))) =
        (((fs.map fun f => (f.1, f.2.map Num.toAny)).map fun f => (f.1, finiteDoc f.2)).mapM
          named).map .obj := Doc.fold_obj _ _
    rw [Doc.map_obj, hfold, List.map_map, mapM_of_forall (k := id), List.map_id]
    · rfl
    · intro f hf
      exact congrArg (Option.map fun x => (f.1, x)) (ih f hf)

theorem exists_of_finite {v : Doc AnyNum} (h : Finite v) : ∃ t : Doc Num, t.map Num.toAny = v := by
  induction v using Doc.ind with
  | null => exact ⟨.null, rfl⟩
  | bool b => exact ⟨.bool b, rfl⟩
  | str s => exact ⟨.str s, rfl⟩
  | num n =>
    obtain ⟨m, hm⟩ := Option.isSome_iff_exists.1 ((toNum_isSome n).trans h)
    exact ⟨.num m, congrArg Doc.num (toAny_of_toNum hm)⟩
  | arr xs ih =>
    have hmem : xs ∈ Set.range (List.map (Doc.map Num.toAny)) := by
      rw [Set.range_list_map]
      exact fun x hx => ih x hx (Doc.all_arr.1 h x hx)
    obtain ⟨ts, rfl⟩ := hmem
    exact ⟨.arr ts, Doc.map_arr _ _⟩
  | obj fs ih =>
    have hmem : fs ∈ Set.range (List.map fun f : JsString × Doc Num => (f.1, f.2.map Num.toAny)) := by
      rw [Set.range_list_map]
      intro f hf
      obtain ⟨t, ht⟩ := ih f hf (Doc.all_obj.1 h f hf)
      exact ⟨(f.1, t), congrArg (Prod.mk f.1) ht⟩
    obtain ⟨ts, rfl⟩ := hmem
    exact ⟨.obj ts, Doc.map_obj _ _⟩

/-- **`jsonDecode` inverts `jsonEncode`.** -/
theorem jsonDecodeAny_jsonEncodeAny {v : Doc AnyNum} (hf : Finite v) (hd : v.Distinct) :
    jsonDecodeAny (jsonEncodeAny v) = some v := by
  obtain ⟨t, rfl⟩ := exists_of_finite hf
  have htext : (t.map Num.toAny).map anyText = t.map numText := by
    rw [Doc.map_map]
    exact congrArg (t.map ·) (funext anyText_toAny)
  rw [jsonEncodeAny, htext, jsonDecodeAny,
    Json.parseDoc_write starts_numText fun n rest hr => readAnyNum_numText n hr]
  exact congrArg some (ofAnyDoc_of_distinct hd)

/-! ## Sorted documents -/

theorem distinct_sorted {ν : Type} {t : Doc ν} (h : t.Distinct) : t.sorted.Distinct := by
  induction t using Doc.ind with
  | null => trivial
  | bool b => trivial
  | num n => trivial
  | str s => trivial
  | arr xs ih =>
    rw [Doc.sorted_arr, Doc.distinct_arr, List.forall_mem_map]
    exact fun x hx => ih x hx (Doc.distinct_arr.1 h x hx)
  | obj fs ih =>
    obtain ⟨hn, hf⟩ := Doc.distinct_obj.1 h
    rw [Doc.sorted_obj, Doc.distinct_obj]
    have hperm := List.perm_insertionSort (fun a b : JsString × Doc ν => a.1 ≤ b.1)
      (fs.map fun f => (f.1, f.2.sorted))
    refine ⟨(hperm.map Prod.fst).nodup_iff.2 (by rwa [List.map_map]), fun g hg => ?_⟩
    obtain ⟨f, hm, rfl⟩ := List.mem_map.1 (hperm.mem_iff.1 hg)
    exact ih f hm (hf f hm)

theorem sorted_sorted {ν : Type} (t : Doc ν) : t.sorted.sorted = t.sorted := by
  induction t using Doc.ind with
  | null => rfl
  | bool b => rfl
  | num n => rfl
  | str s => rfl
  | arr xs ih =>
    rw [Doc.sorted_arr, Doc.sorted_arr, List.map_map]
    exact congrArg Doc.arr (List.map_congr_left ih)
  | obj fs ih =>
    rw [Doc.sorted_obj, Doc.sorted_obj]
    have hperm := List.perm_insertionSort (fun a b : JsString × Doc ν => a.1 ≤ b.1)
      (fs.map fun f => (f.1, f.2.sorted))
    have hsame : ((fs.map fun f => (f.1, f.2.sorted)).insertionSort fun a b => a.1 ≤ b.1).map
        (fun g => (g.1, g.2.sorted)) =
          (fs.map fun f => (f.1, f.2.sorted)).insertionSort fun a b => a.1 ≤ b.1 := by
      refine (List.map_congr_left fun g hg => ?_).trans (List.map_id _)
      obtain ⟨f, hm, rfl⟩ := List.mem_map.1 (hperm.mem_iff.1 hg)
      exact congrArg (Prod.mk f.1) (ih f hm)
    rw [hsame, (List.pairwise_insertionSort _ _).insertionSort_eq]

/-! ## Canonical numbers -/

/-- The signed whole part of a double. -/
def wholePart (d : Number) : Int := if d.negative then -(d.truncate : Int) else d.truncate

/-- What is read back from `canonicalNumber`: a whole number of 64 bits is an `int`. -/
def Num.canonical : Num → Num
  | .int i => .int i
  | .double d =>
    if d.1.mantissa = 0 then .int 0
    else if isPlainWhole d.1 = true ∧ -2 ^ 63 ≤ wholePart d.1 ∧ wholePart d.1 < 2 ^ 63 then
      .int (Int64.ofInt (wholePart d.1))
    else .double d

theorem intText_wholePart {d : Number} (h : d.truncate ≠ 0) :
    intText (wholePart d) = fixedText d := by
  unfold intText wholePart fixedText
  cases d.negative with
  | true =>
    have hneg : -(d.truncate : Int) < 0 := by omega
    simp only [if_true, if_pos hneg, Int.natAbs_neg, Int.natAbs_natCast]
  | false =>
    have hpos : ¬ (d.truncate : Int) < 0 := by omega
    simp only [Bool.false_eq_true, if_false, if_neg hpos, Int.natAbs_natCast]

theorem truncate_ne_zero {d : Number} (hd : d.mantissa ≠ 0) (hw : d.isWhole = true) :
    d.truncate ≠ 0 := by
  intro h
  have hcell := inCell_truncate hd hw
  rw [h] at hcell
  have := Number.pos_of_inCell hd (m := 0) (u := 1) (by simpa using hcell)
  omega

theorem canonicalNumber_canonical (n : Num) :
    canonicalNumber n.canonical = canonicalNumber n := by
  cases n with
  | int i => rfl
  | double d =>
    unfold Num.canonical
    by_cases hd : d.1.mantissa = 0
    · simp only [hd, if_true, canonicalNumber]
      decide
    · simp only [hd, if_false]
      split
      · rename_i h
        obtain ⟨hplain, hrange⟩ := h
        have htrunc := truncate_ne_zero hd (isPlainWhole_iff.1 hplain).1
        rw [canonicalNumber, Int64.toInt_ofInt_of_le hrange.1 hrange.2, intText_wholePart htrunc,
          canonicalNumber, if_neg hd, if_pos hplain]
      · rfl

/-- An integer is never received as the negative zero. -/
theorem unsigned_received {i : Int64} {x : FiniteNumber}
    (hx : ∀ rest, Stops rest → Number.readNumber (numText (.int i) ++ rest) = some (x.1, rest)) :
    Json.unsigned x.1 = x.1 := by
  have hread := hx [] nofun
  rw [numText, intText_eq, @readNumber_natural _ _ [] nofun] at hread
  obtain ⟨hof, -⟩ := Prod.mk.inj (Option.some.inj hread)
  have hlt : i.toInt.natAbs < 2 ^ 64 := by
    have := inRange i
    omega
  unfold Json.unsigned
  split
  · rename_i hzero
    rw [← hof]
    rcases eq_or_ne i.toInt 0 with h | h
    · rw [h]
      decide +kernel
    · obtain ⟨y, -, hy, -, hcell⟩ := exists_ofIndex hlt (decide (i.toInt < 0))
      rw [hof] at hy
      subst hy
      exact absurd hzero (Number.whole_of_natCast (by omega) hlt hcell).1
  · rfl

/-- **What both languages read of a canonical number**: JavaScript the number it receives from
Dart in the clear, but for the sign of zero. -/
theorem received_canonical (n : Num) : ∃ x : FiniteNumber,
    (∀ rest, Stops rest → Number.readNumber (numText n ++ rest) = some (x.1, rest)) ∧
      ∀ rest, Stops rest →
        Number.readNumber (canonicalNumber n ++ rest) = some (Json.unsigned x.1, rest) ∧
          readAnyNum (canonicalNumber n ++ rest) = some (n.canonical.toAny, rest) := by
  have both : ∀ {s rest : JsString} {y : Number} {m : AnyNum},
      Number.readNumber s = some (y, rest) → anyNum s y = m →
      Number.readNumber s = some (y, rest) ∧ readAnyNum s = some (m, rest) := by
    intro s rest y m hy hm
    refine ⟨hy, ?_⟩
    rw [readAnyNum, hy, ← hm]
    rfl
  cases n with
  | int i =>
    obtain ⟨x, hx, -⟩ := received_int i
    refine ⟨x, hx, fun rest hr => both ?_ (anyNum_of_integer (readInteger_intText _ hr))⟩
    rw [unsigned_received hx]
    exact hx rest hr
  | double d =>
    refine ⟨d, fun rest hr => (read_doubleText d hr).1, fun rest hr => ?_⟩
    unfold canonicalNumber Num.canonical Json.unsigned
    by_cases hd : d.1.mantissa = 0
    · simp only [hd, if_true]
      have hread := readNumber_natural false 0 hr
      have hzero : Number.ofDecimal false 0 0 = ⟨0⟩ := by decide +kernel
      rw [hzero] at hread
      exact both hread (@anyNum_of_integer _ rest _ 0 (readInteger_natural false 0 hr))
    · simp only [hd, if_false]
      cases hplain : isPlainWhole d.1 with
      | true =>
        obtain ⟨hw, hsmall⟩ := isPlainWhole_iff.1 hplain
        have hread := readNumber_natural d.1.negative d.1.truncate hr
        rw [Number.ofDecimal_of_inCell d.2 (Number.inCell_natCast.2 (inCell_truncate hd hw))] at hread
        have hint := readInteger_natural d.1.negative d.1.truncate hr
        simp only [if_true, true_and]
        refine both hread ?_
        change readInteger (fixedText d.1 ++ rest) = some (wholePart d.1, rest) at hint
        unfold anyNum
        rw [hint]
        simp only
        split <;> rfl
      | false =>
        simp only [Bool.false_eq_true, if_false, false_and]
        obtain ⟨hread, hint⟩ := read_doubleText d hr
        exact both hread (anyNum_of_none hint)

/-! ## Canonical values -/

/-- **The canonical text of Dart in both languages.** JavaScript reads what it receives in the
clear, up to its canonical text; Dart reads a value with the same canonical text. -/
theorem read_canonicalJson {t : Doc Num} (h : t.Distinct) : ∃ v u,
    Json.parse (jsonEncode t) = some v ∧ Json.parse (canonicalJson t) = some v.normal ∧
      jsonDecodeAny (canonicalJson t) = some (u.map Num.toAny) ∧
      canonicalJson u = canonicalJson t := by
  choose x hclear hcanonical using received_canonical
  have hstart : ∀ n, Json.StartsNumeral (canonicalNumber n) := fun n => (isNumeral_canonicalNumber n).1
  refine ⟨Json.ofDoc (t.map fun n => (x n).1), t.sorted.map Num.canonical, ?_, ?_, ?_, ?_⟩
  · rw [Json.parse, jsonEncode, Json.parseDoc_write starts_numText fun n rest hr => hclear n rest hr]
    rfl
  · have hdoc : t.map (fun n => (x n).1) = (t.map x).map Subtype.val := (Doc.map_map x _ t).symm
    rw [Json.parse, canonicalJson_eq_write,
      Json.parseDoc_write hstart fun n rest hr => (hcanonical n rest hr).1, hdoc, Json.normal,
      sorted_toDoc (distinct_map x h), Doc.sorted_map, Doc.map_map]
    rfl
  · rw [jsonDecodeAny, canonicalJson_eq_write,
      Json.parseDoc_write hstart fun n rest hr => (hcanonical n rest hr).2, Doc.map_map]
    exact congrArg some (ofAnyDoc_of_distinct (distinct_map _ (distinct_sorted h)))
  · rw [canonicalJson_eq_write, Doc.sorted_map, sorted_sorted, Doc.map_map, canonicalJson_eq_write]
    exact congrArg (fun f => (t.sorted.map f).write) (funext canonicalNumber_canonical)

/-! ## One document -/

/-- The values of one document. -/
def SameValue (v : Json) (w : Doc AnyNum) : Prop := ∃ t : Doc Numeral, v = inJs t ∧ w = inDart t

theorem sameValue_str (s : JsString) : SameValue (.str s) (.str s) := ⟨.str s, rfl, rfl⟩

/-- What both languages read of one text. -/
theorem sameValue_of_text {s : JsString} {v : Json} {w : Doc AnyNum} (hv : Json.parse s = some v)
    (hw : jsonDecodeAny s = some w) : SameValue v w := by
  obtain ⟨hjs, hdart⟩ := read_twice s
  rw [hjs] at hv
  rw [hdart] at hw
  obtain ⟨t, ht, rfl⟩ := Option.map_eq_some_iff.1 hv
  rw [ht] at hw
  exact ⟨t, rfl, (Option.some.inj hw).symm⟩

theorem jsonDecodeAny_isSome (s : JsString) : (jsonDecodeAny s).isSome = (Json.parse s).isSome := by
  rw [(read_twice s).1, (read_twice s).2, Option.isSome_map, Option.isSome_map]

end TangentFeed.Dart
