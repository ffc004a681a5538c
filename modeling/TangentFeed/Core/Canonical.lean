import TangentFeed.Js.Utf8
import TangentFeed.Core.Op

/-!
# Canonical JSON determines the value

`Json.Same` relates the values that differ in the order of properties and the
sign of zero. `canonicalJson` writes the document of a value with sorted names,
`JSON.parse` reads it back as the same value, and so two values have one
canonical text exactly when they are the same.
-/

namespace TangentFeed

namespace Json

/-- **The same JSON value**: the least equivalence that a value keeps when the
properties of an object change places and a zero its sign, at any depth. -/
inductive Same : Json → Json → Prop where
  | refl (v : Json) : Same v v
  | symm {v w : Json} : Same v w → Same w v
  | trans {u v w : Json} : Same u v → Same v w → Same u w
  | zero {m n : Number} : m.mantissa = 0 → n.mantissa = 0 → Same (num m) (num n)
  | order {fs gs : List (JsString × Json)} : fs.Perm gs → Same (obj fs) (obj gs)
  | elem {xs ys : List Json} {v w : Json} :
    Same v w → Same (arr (xs ++ v :: ys)) (arr (xs ++ w :: ys))
  | field {fs gs : List (JsString × Json)} {k : JsString} {v w : Json} :
    Same v w → Same (obj (fs ++ (k, v) :: gs)) (obj (fs ++ (k, w) :: gs))

/-- What the values of the source are: an object has distinct names, a number is finite. -/
def isProper : Json → Bool
  | num n => n.isFinite
  | obj fs => (fs.map Prod.fst).Nodup
  | null => true
  | bool _ => true
  | str _ => true
  | arr _ => true

mutual

/-- A JSON value of the source, at any depth. -/
def proper : Json → Bool
  | arr xs => properElems xs
  | obj fs => isProper (obj fs) && properFields fs
  | null => true
  | bool _ => true
  | num n => isProper (num n)
  | str _ => true

def properElems : List Json → Bool
  | [] => true
  | x :: rest => proper x && properElems rest

def properFields : List (JsString × Json) → Bool
  | [] => true
  | (_, x) :: rest => proper x && properFields rest

end

theorem properElems_eq (xs : List Json) : properElems xs = xs.all proper := by
  induction xs with
  | nil => rfl
  | cons x xs ih => rw [properElems, ih, List.all_cons]

theorem properFields_eq (fs : List (JsString × Json)) :
    properFields fs = fs.all fun f => f.2.proper := by
  induction fs with
  | nil => rfl
  | cons f fs ih => rw [properFields, ih, List.all_cons]

theorem proper_arr {xs : List Json} : proper (arr xs) = true ↔ ∀ x ∈ xs, x.proper = true := by
  rw [proper, properElems_eq, List.all_eq_true]

theorem proper_obj {fs : List (JsString × Json)} :
    proper (obj fs) = true ↔ (fs.map Prod.fst).Nodup ∧ ∀ f ∈ fs, f.2.proper = true := by
  rw [proper, properFields_eq, isProper, Bool.and_eq_true, decide_eq_true_eq, List.all_eq_true]

/-! ## Congruence -/

namespace Same

theorem elems {xs ys : List Json} (h : List.Forall₂ Same xs ys) : Same (arr xs) (arr ys) := by
  suffices key : ∀ zs, Same (arr (zs ++ xs)) (arr (zs ++ ys)) from key []
  induction h with
  | nil => exact fun zs => .refl _
  | @cons x y xs ys hxy _ ih =>
    intro zs
    have htail := ih (zs ++ [y])
    rw [List.append_assoc, List.append_assoc] at htail
    exact (Same.elem hxy).trans htail

theorem fields {fs gs : List (JsString × Json)}
    (h : List.Forall₂ (fun f g => f.1 = g.1 ∧ Same f.2 g.2) fs gs) : Same (obj fs) (obj gs) := by
  suffices key : ∀ hs, Same (obj (hs ++ fs)) (obj (hs ++ gs)) from key []
  induction h with
  | nil => exact fun hs => .refl _
  | @cons f g fs gs hfg _ ih =>
    intro hs
    obtain ⟨k, x⟩ := f
    obtain ⟨j, y⟩ := g
    obtain ⟨rfl, hxy⟩ := hfg
    have htail := ih (hs ++ [(k, y)])
    rw [List.append_assoc, List.append_assoc] at htail
    exact (Same.field hxy).trans htail

/-- The same value is proper, and has the same canonical text. -/
theorem canonical {v w : Json} (h : Same v w) :
    v.proper = w.proper ∧ (v.proper = true → canonicalJson v = canonicalJson w) := by
  induction h with
  | refl v => exact ⟨rfl, fun _ => rfl⟩
  | symm _ ih => exact ⟨ih.1.symm, fun hp => (ih.2 (ih.1.trans hp)).symm⟩
  | trans _ _ ih1 ih2 =>
    exact ⟨ih1.1.trans ih2.1, fun hp => (ih1.2 hp).trans (ih2.2 (ih1.1.symm.trans hp))⟩
  | @zero m n hm hn =>
    have hf : ∀ {x : Number}, x.mantissa = 0 → x.isFinite = true := by
      intro x hx
      have hr := Number.mantissa_eq_zero.1 hx
      unfold Number.index at hr
      simp only [Number.isFinite, Number.biasedExponent, bne_iff_ne, ne_eq]
      omega
    rw [proper, proper, isProper, isProper, hf hm, hf hn]
    refine ⟨rfl, fun _ => ?_⟩
    rw [canonicalJson, canonicalJson, stringifyScalar, stringifyScalar, if_pos (hf hm),
      if_pos (hf hn), Number.toString, Number.toString, if_pos hm, if_pos hn]
  | @order fs gs hp =>
    have hproper : (obj fs).proper = (obj gs).proper := by
      rw [Bool.eq_iff_iff, proper_obj, proper_obj, (hp.map Prod.fst).nodup_iff]
      simp only [hp.mem_iff]
    exact ⟨hproper, fun h => canonicalJson_perm hp (proper_obj.1 h).1⟩
  | @elem xs ys v w _ ih =>
    have hproper : (arr (xs ++ v :: ys)).proper = (arr (xs ++ w :: ys)).proper := by
      rw [proper, proper, properElems_eq, properElems_eq, List.all_append, List.all_append,
        List.all_cons, List.all_cons, ih.1]
    refine ⟨hproper, fun h => ?_⟩
    have hv := ih.2 (proper_arr.1 h v (by simp))
    rw [canonicalJson, canonicalJson, canonicalElems_eq_map, canonicalElems_eq_map,
      List.map_append, List.map_append, List.map_cons, List.map_cons, hv]
  | @field fs gs k v w _ ih =>
    have hproper : (obj (fs ++ (k, v) :: gs)).proper = (obj (fs ++ (k, w) :: gs)).proper := by
      rw [proper, proper, properFields_eq, properFields_eq, List.all_append, List.all_append,
        List.all_cons, List.all_cons, isProper, isProper, List.map_append, List.map_append]
      rw [ih.1]
      rfl
    refine ⟨hproper, fun h => ?_⟩
    have hv := ih.2 ((proper_obj.1 h).2 (k, v) (by simp))
    rw [canonicalJson, canonicalJson, canonicalFields_eq_map, canonicalFields_eq_map,
      List.map_append, List.map_append, List.map_cons, List.map_cons, hv]

end Same

/-! ## Canonical text -/

theorem joinComma_eq (l : List JsString) : joinComma l = [0x2c].intercalate l := by
  induction l with
  | nil => rfl
  | cons s l ih =>
    cases l with
    | nil => rw [joinComma, List.intercalate_singleton]
    | cons t l =>
      rw [joinComma, ih, List.intercalate_cons_cons]
      rfl

mutual

/-- **Canonical JSON writes the document with sorted names.** -/
theorem canonicalJson_eq_write : (v : Json) → canonicalJson v = v.docText.sorted.write
  | .arr xs => by
    rw [canonicalJson, docText, toDoc, Doc.map_arr, Doc.sorted_arr, Doc.write_arr,
      canonicalElems_eq_write xs, joinComma_eq]
  | .obj fs => by
    have hsort := Doc.insertionSort_map Doc.write
      (((toDocFields fs).map fun g => (g.1, g.2.map fun x => x.1.toString)).map
        fun f => (f.1, f.2.sorted))
    rw [canonicalJson, docText, toDoc, Doc.map_obj, Doc.sorted_obj, Doc.write_obj,
      canonicalFields_eq_write fs, joinComma_eq, sortedEntries, hsort, List.map_map]
    rfl
  | .num n => by
    rw [canonicalJson, stringifyScalar, docText, toDoc]
    split <;> rfl
  | .null => rfl
  | .bool _ => rfl
  | .str _ => rfl

theorem canonicalElems_eq_write : (xs : List Json) → canonicalElems xs =
    (((toDocElems xs).map (Doc.map fun x => x.1.toString)).map Doc.sorted).map Doc.write
  | [] => rfl
  | x :: rest => by
    rw [canonicalElems, canonicalJson_eq_write x, canonicalElems_eq_write rest]
    rfl

theorem canonicalFields_eq_write : (fs : List (JsString × Json)) → canonicalFields fs =
    (((toDocFields fs).map fun g => (g.1, g.2.map fun x => x.1.toString)).map
      fun f => (f.1, f.2.sorted)).map fun f => (f.1, f.2.write)
  | [] => rfl
  | (k, x) :: rest => by
    rw [canonicalFields, canonicalJson_eq_write x, canonicalFields_eq_write rest]
    rfl

end

/-- What is read back from the canonical text. -/
def normal (v : Json) : Json := ofDoc (v.toDoc.sorted.map fun x => unsigned x.1)

theorem parse_canonicalJson (v : Json) : parse (canonicalJson v) = some v.normal := by
  have hread := parseDoc_write starts_toString
    (fun x _ hr => Number.readNumber_toString x.2 hr) v.toDoc.sorted
  rw [parse, canonicalJson_eq_write, docText, Doc.sorted_map, hread]
  rfl

/-! ## What is read back is the same value -/

/-- Distinct names that an object gets one after the other are its names. -/
theorem perm_ownFields {fs : List (JsString × Json)} (hn : (fs.map Prod.fst).Nodup) :
    (ownFields fs).Perm fs := by
  have key : ∀ (fs o : List (JsString × Json)), ((o ++ fs).map Prod.fst).Nodup →
      (fs.foldl (fun o f => withOwn o f.1 f.2) o).Perm (o ++ fs) := by
    intro fs
    induction fs with
    | nil => intro o _; rw [List.foldl_nil, List.append_nil]
    | cons f fs ih =>
      intro o ho
      have hk : f.1 ∉ o.map Prod.fst := by
        rw [List.map_append, List.map_cons, List.nodup_append] at ho
        exact fun hm => ho.2.2 _ hm _ List.mem_cons_self rfl
      have hp := perm_withOwn hk f.2
      have happ : (withOwn o f.1 f.2 ++ fs).Perm (o ++ f :: fs) := by
        refine (hp.append_right fs).trans ?_
        rw [List.append_assoc]
        rfl
      exact (ih _ ((happ.map Prod.fst).nodup_iff.2 ho)).trans happ
  exact key fs [] hn

theorem normal_arr (xs : List Json) : normal (arr xs) = arr (xs.map normal) := by
  rw [normal, toDoc, Doc.sorted_arr, Doc.map_arr, toDocElems_eq, List.map_map, List.map_map]
  refine (Doc.fold_arr _ _).trans ?_
  rw [List.map_map]
  rfl

/-- The properties of an object are read back, in some order. -/
theorem normal_obj {fs : List (JsString × Json)} (hn : (fs.map Prod.fst).Nodup) :
    ∃ gs, normal (obj fs) = obj gs ∧ (fs.map fun f => (f.1, f.2.normal)).Perm gs := by
  refine ⟨_, by rw [normal, toDoc, Doc.sorted_obj, Doc.map_obj]; exact Doc.fold_obj _ _, ?_⟩
  have hperm := ((List.perm_insertionSort
    (fun a b : JsString × Doc FiniteNumber => a.1 ≤ b.1)
    ((toDocFields fs).map fun f => (f.1, f.2.sorted))).map fun f =>
      (f.1, ofDoc (f.2.map fun x => unsigned x.1))).symm
  nth_rewrite 1 [toDocFields_eq] at hperm
  rw [List.map_map, List.map_map] at hperm
  rw [List.map_map]
  refine hperm.trans (perm_ownFields ?_).symm
  have hnames := hperm.map Prod.fst
  rw [List.map_map] at hnames
  exact hnames.nodup_iff.1 hn

mutual

/-- **What is read back from the canonical text is the same value.** -/
theorem same_normal : (v : Json) → v.proper = true → Same v v.normal
  | .arr xs, h => by
    rw [normal_arr]
    exact .elems (forall₂_normal xs (proper_arr.1 h))
  | .obj fs, h => by
    obtain ⟨gs, hgs, hp⟩ := normal_obj (proper_obj.1 h).1
    rw [hgs]
    exact (Same.fields (forall₂_normal_fields fs (proper_obj.1 h).2)).trans (.order hp)
  | .num n, h => by
    have hn : normal (num n) = num (if n.mantissa = 0 then ⟨0⟩ else n) := by
      have hf : n.isFinite = true := h
      rw [normal, toDoc, dif_pos hf]
      rfl
    rw [hn]
    split
    · rename_i hm
      exact .zero hm (by decide)
    · exact .refl _
  | .null, _ => .refl _
  | .bool _, _ => .refl _
  | .str _, _ => .refl _

theorem forall₂_normal :
    (xs : List Json) → (∀ x ∈ xs, x.proper = true) → List.Forall₂ Same xs (xs.map normal)
  | [], _ => .nil
  | x :: rest, h => .cons (same_normal x (h x List.mem_cons_self))
    (forall₂_normal rest fun y hy => h y (List.mem_cons_of_mem x hy))

theorem forall₂_normal_fields : (fs : List (JsString × Json)) →
    (∀ f ∈ fs, f.2.proper = true) → List.Forall₂ (fun f g => f.1 = g.1 ∧ Same f.2 g.2) fs
      (fs.map fun f => (f.1, f.2.normal))
  | [], _ => .nil
  | (k, x) :: rest, h => .cons ⟨rfl, same_normal x (h (k, x) List.mem_cons_self)⟩
    (forall₂_normal_fields rest fun g hg => h g (List.mem_cons_of_mem (k, x) hg))

end

theorem normal_eq_of_canonicalJson {v w : Json} (h : canonicalJson v = canonicalJson w) :
    v.normal = w.normal := by
  have hv := parse_canonicalJson v
  rw [h, parse_canonicalJson] at hv
  exact (Option.some.inj hv).symm

/-- **Two values have one canonical text exactly when they are the same.** -/
theorem canonicalJson_inj {v w : Json} (hv : v.proper = true) (hw : w.proper = true) :
    canonicalJson v = canonicalJson w ↔ Same v w := by
  constructor
  · intro h
    have hsame := same_normal v hv
    rw [normal_eq_of_canonicalJson h] at hsame
    exact hsame.trans (same_normal w hw).symm
  · exact fun h => h.canonical.2 hv

theorem Same.str_iff {s t : JsString} (h : Same (str s) (str t)) : s = t := by
  have hc := h.canonical.2 rfl
  have hn : (str s).normal = (str t).normal := normal_eq_of_canonicalJson hc
  exact str.inj hn

end Json

open Json

/-! ## Signed bytes -/

/-- The properties that are signed. -/
def payload (op : Json) : List (JsString × Json) :=
  payloadFields.map fun f => (f, (op.get? f).getD .null)

theorem map_fst_payload (op : Json) : (payload op).map Prod.fst = payloadFields := rfl

theorem nodup_payload (op : Json) : ((payload op).map Prod.fst).Nodup := by
  rw [map_fst_payload]
  decide

/-- The signed bytes are those of well-formed text, and give the canonical JSON back. -/
theorem canonicalJson_of_signedPayload {x y : Json} (h : signedPayload x = signedPayload y) :
    canonicalJson (.obj (payload x)) = canonicalJson (.obj (payload y)) := by
  have hwf : ∀ v : Json, isWellFormed (signingDomain ++ canonicalJson v) = true := by
    intro v
    rw [canonicalJson_eq_write, docText, Doc.sorted_map]
    exact isWellFormed_append (by decide)
      (isWellFormed_write (fun x =>
        isWellFormed_numeral (Number.all_isNumeralUnit_toString x.2)) _)
  exact List.append_cancel_left (textEncode_inj (hwf _) (hwf _) h)

/-- Operations with the same signed bytes have the same signed fields. -/
theorem same_of_signedPayload {x y : Json} (h : signedPayload x = signedPayload y) {f : JsString}
    (hf : f ∈ payloadFields) (hx : ((x.get? f).getD .null).proper = true)
    (hy : ((y.get? f).getD .null).proper = true) :
    Same ((x.get? f).getD .null) ((y.get? f).getD .null) := by
  have hnormal := normal_eq_of_canonicalJson (canonicalJson_of_signedPayload h)
  obtain ⟨gs, hgs, hp⟩ := normal_obj (nodup_payload x)
  obtain ⟨gs', hgs', hp'⟩ := normal_obj (nodup_payload y)
  rw [hgs, hgs'] at hnormal
  obtain rfl := Json.obj.inj hnormal
  -- the property of `x` is one of `y`, and the names of `y` are distinct
  have hmem : (f, ((x.get? f).getD .null).normal) ∈
      (payload y).map fun g => (g.1, g.2.normal) := by
    refine hp'.mem_iff.2 (hp.mem_iff.1 ?_)
    exact List.mem_map.2 ⟨(f, (x.get? f).getD .null), List.mem_map.2 ⟨f, hf, rfl⟩, rfl⟩
  obtain ⟨g, hg, he⟩ := List.mem_map.1 hmem
  obtain ⟨k, -, rfl⟩ := List.mem_map.1 hg
  obtain ⟨rfl, hval⟩ := Prod.mk.inj he
  have hsame := same_normal _ hx
  rw [← hval] at hsame
  exact hsame.trans (same_normal _ hy).symm

/-- **Signed bytes determine the operation.** Two values have one canonical text exactly when
they are the same, the text is read back as the same value, and two operations with the
same signed bytes agree on every signed field. -/
theorem signed_bytes_determine :
    (∀ v w : Json, v.proper = true → w.proper = true →
      (canonicalJson v = canonicalJson w ↔ Same v w)) ∧
    (∀ v : Json, v.proper = true → ∃ w, parse (canonicalJson v) = some w ∧ Same v w) ∧
    ∀ o p : Op, o.value.proper = true → p.value.proper = true →
      signedPayload o.raw = signedPayload p.raw →
      o.id = p.id ∧ o.table = p.table ∧ o.row = p.row ∧ o.column = p.column ∧
        Same o.value p.value ∧ o.hlc = p.hlc ∧ o.device = p.device := by
  refine ⟨fun v w => canonicalJson_inj, fun v hv => ⟨_, parse_canonicalJson v, same_normal v hv⟩,
    fun o p ho hp h => ?_⟩
  have hstr : ∀ f ∈ payloadFields, f ∈ stringFields → o.raw.getStr f = p.raw.getStr f := by
    intro f hf hs
    have ho := getStr_of_mem o hs
    have hp := getStr_of_mem p hs
    have hsame := same_of_signedPayload h hf (by rw [ho]; rfl) (by rw [hp]; rfl)
    rw [ho, hp] at hsame
    exact hsame.str_iff
  exact ⟨hstr (js "id") (by decide) (by decide), hstr (js "table") (by decide) (by decide),
    hstr (js "row") (by decide) (by decide), hstr (js "column") (by decide) (by decide),
    same_of_signedPayload h (by decide : js "value" ∈ payloadFields) ho hp,
    hstr (js "hlc") (by decide) (by decide), hstr (js "device") (by decide) (by decide)⟩

/-- Neither the order of two names nor the sign of a zero changes the text. -/
theorem signed_bytes_determine_sample :
    canonicalJson (.obj [(js "b", .num ⟨0x8000000000000000⟩), (js "a", .arr [])]) =
      canonicalJson (.obj [(js "a", .arr []), (js "b", .num ⟨0⟩)]) :=
  (signed_bytes_determine.1 _ _ (by decide) (by decide)).2
    ((Same.order (List.Perm.swap _ _ [])).trans
      (@Same.field [(js "a", .arr [])] [] _ _ _ (.zero (by decide) (by decide))))

end TangentFeed
