import TangentFeed.Dart.Canonical
import TangentFeed.Js.Utf8

/-!
# Canonical strings in Dart

`JSON.stringify` scans a string for code points from left to right; the Dart
writer decides at every code unit, by its neighbours, whether it is half of a
pair. Both escape the same units, and what they write can be sent as UTF-8.
-/

namespace TangentFeed

namespace Json

/-- `StringToCodePoints`: a surrogate that is not paired stands for itself. -/
def stringToCodePoints : JsString → List Nat
  | [] => []
  | [c] => [c.val]
  | c :: d :: rest =>
    if isHighSurrogate c && isLowSurrogate d then
      (0x10000 + (c.val - 0xd800) * 0x400 + (d.val - 0xdc00)) :: stringToCodePoints rest
    else c.val :: stringToCodePoints (d :: rest)

/-- What `QuoteJSONString` appends for one code point. -/
def quoteCodePoint (n : Nat) : JsString :=
  if n < 0x10000 then quoteUnit (Fin.ofNat 65536 n) else unitsOf n

theorem quoteCodePoint_unit (c : CodeUnit) : quoteCodePoint c.val = quoteUnit c := by
  rw [quoteCodePoint, if_pos c.isLt, Fin.ofNat_val_eq_self]

/-- `JSON.stringify` of a string is the scan over its code points. -/
theorem quoteUnits_eq (s : JsString) :
    quoteUnits s = (stringToCodePoints s).flatMap quoteCodePoint := by
  induction s using quoteUnits.induct with
  | case1 => rfl
  | case2 c =>
    rw [quoteUnits, stringToCodePoints, List.flatMap_singleton, quoteCodePoint_unit]
  | case3 c d s hpair ih =>
    obtain ⟨hc, hd⟩ := Bool.and_eq_true_iff.1 hpair
    have hlarge : ∀ n m : Nat, ¬ 0x10000 + n * 0x400 + m < 0x10000 := fun n m => by omega
    rw [quoteUnits, if_pos hpair, stringToCodePoints, if_pos hpair, List.flatMap_cons,
      quoteCodePoint, if_neg (hlarge _ _), unitsOf_pair hc hd, ih]
    rfl
  | case4 c d s hpair ih =>
    rw [quoteUnits, if_neg hpair, stringToCodePoints, if_neg hpair, List.flatMap_cons,
      quoteCodePoint_unit, ih]

end Json

namespace Dart

theorem isLoneSurrogate_cons {a : JsString} {c x : CodeUnit} {next : Option CodeUnit}
    (h : isLoneSurrogate a.getLast? c next = false) :
    isLoneSurrogate (x :: a).getLast? c next = false := by
  cases a with
  | nil =>
    -- at the start of a string no low surrogate is paired
    unfold isLoneSurrogate at h ⊢
    cases hc : isHighSurrogate c with
    | true => simpa [hc] using h
    | false =>
      cases hl : isLowSurrogate c with
      | true => simp [hc, hl] at h
      | false => rfl
  | cons y a =>
    rw [List.getLast?_cons_cons]
    exact h

/-- In well-formed text every surrogate is half of a pair. -/
theorem isLoneSurrogate_of_isWellFormed {s a b : JsString} {c : CodeUnit}
    (h : isWellFormed s = true) (hs : s = a ++ c :: b) :
    isLoneSurrogate a.getLast? c b.head? = false := by
  induction s using isWellFormed.induct generalizing a with
  | case1 => cases a <;> cases hs
  | case2 d =>
    cases a with
    | nil =>
      obtain ⟨rfl, rfl⟩ := List.cons.inj hs
      rw [isWellFormed, Bool.and_eq_true, Bool.not_eq_true', Bool.not_eq_true'] at h
      rw [isLoneSurrogate, h.1, h.2]
      rfl
    | cons x a => exact absurd (List.cons.inj hs).2.symm (by simp)
  | case3 d e rest hd ih =>
    rw [isWellFormed, if_pos hd, Bool.and_eq_true] at h
    cases a with
    | nil =>
      obtain ⟨rfl, rfl⟩ := List.cons.inj hs
      simp [isLoneSurrogate, hd, h.1]
    | cons x a =>
      obtain ⟨rfl, hrest⟩ := List.cons.inj hs
      cases a with
      | nil =>
        obtain ⟨rfl, rfl⟩ := List.cons.inj hrest
        have he : isHighSurrogate e = false := by
          rw [Bool.eq_false_iff]
          intro hhigh
          exact Bool.noConfusion ((not_low_of_high hhigh).symm.trans h.1)
        simp [isLoneSurrogate, hd, h.1, he]
      | cons y a => exact isLoneSurrogate_cons (isLoneSurrogate_cons (ih h.2 (List.cons.inj hrest).2))
  | case4 d e rest hd ih =>
    rw [isWellFormed, if_neg hd, Bool.and_eq_true, Bool.not_eq_true'] at h
    cases a with
    | nil =>
      obtain ⟨rfl, rfl⟩ := List.cons.inj hs
      simp [isLoneSurrogate, hd, h.1]
    | cons x a => exact isLoneSurrogate_cons (ih h.2 (List.cons.inj hs).2)

/-- **Dart quotes a string as `JSON.stringify` does**, which scans it for code points. No
surrogate of what it writes is unpaired, and UTF-8 loses nothing of it. -/
theorem writeCanonicalString_exact (s : JsString) :
    writeCanonicalString s = Json.stringify (.str s) ∧
    Json.stringify (.str s) =
      js "\"" ++ (Json.stringToCodePoints s).flatMap Json.quoteCodePoint ++ js "\"" ∧
    (∀ a c b, writeCanonicalString s = a ++ c :: b →
      isLoneSurrogate a.getLast? c b.head? = false) ∧
    textDecode (textEncode (writeCanonicalString s)) = writeCanonicalString s := by
  have hw : isWellFormed (writeCanonicalString s) = true := by
    rw [writeCanonicalString_eq]
    exact Json.isWellFormed_quote s
  have hscan : Json.quote s =
      js "\"" ++ (Json.stringToCodePoints s).flatMap Json.quoteCodePoint ++ js "\"" := by
    rw [Json.quote, Json.quoteUnits_eq]
  refine ⟨writeCanonicalString_eq s, hscan, fun a c b => isLoneSurrogate_of_isWellFormed hw,
    textDecode_textEncode hw fun hbom => ?_⟩
  have hquote : (writeCanonicalString s).head? = some 0x22 := rfl
  rw [head_codePoints hbom] at hquote
  cases hquote

end Dart

end TangentFeed
