import TangentFeed.Core.Canonical
import TangentFeed.Dart.Canonical

/-!
# The bytes that both implementations sign

A value travels as JSON text between a Dart peer and a TypeScript peer, and each
signs the canonical JSON of what it holds. The texts of `canonicalJson` differ
only in numbers: Dart prints a whole number with its exact digits, JavaScript
prints the shortest natural number that rounds to it.
-/

namespace TangentFeed.Dart

open Json (FiniteNumber StartsNumeral IsNumeral)
open Number (IsShortest ofIndex infinityIndex mid)
open Rounding (InCell)

/-! ## Numerals -/

theorem starts_decimalDigits (n : Nat) (rest : JsString) :
    StartsNumeral (Number.decimalDigits n ++ rest) := by
  obtain ⟨c, ds, h⟩ := List.exists_cons_of_ne_nil (Number.decimalDigits_ne_nil n)
  have hall := Number.all_isDigit_decimalDigits n
  rw [h, List.all_cons, Bool.and_eq_true] at hall
  exact ⟨c, ds ++ rest, by rw [h]; rfl, .inl hall.1⟩

theorem starts_sign (neg : Bool) {s : JsString} (h : StartsNumeral s) :
    StartsNumeral ((if neg then js "-" else []) ++ s) := by
  cases neg with
  | true => exact ⟨0x2d, s, rfl, .inr rfl⟩
  | false => exact h

theorem isNumeral_integer (neg : Bool) (n : Nat) :
    IsNumeral ((if neg then js "-" else []) ++ Number.decimalDigits n) := by
  have hstart := starts_decimalDigits n []
  rw [List.append_nil] at hstart
  exact ⟨starts_sign neg hstart, Number.all_isNumeralUnit_sign neg
    (Number.all_isNumeralUnit_digits (Number.all_isDigit_decimalDigits n))⟩

theorem isNumeral_toString (x : FiniteNumber) : IsNumeral x.1.toString :=
  ⟨Json.starts_toString x, Number.all_isNumeralUnit_toString x.2⟩

theorem intText_eq (i : Int) :
    intText i = (if decide (i < 0) then js "-" else []) ++ Number.decimalDigits i.natAbs := by
  unfold intText
  by_cases h : i < 0
  · rw [if_pos h, decide_eq_true h, if_pos rfl]
  · rw [if_neg h, decide_eq_false h, if_neg (by decide)]

theorem doubleText_of_not_plain {d : Number} (hd : d.mantissa ≠ 0) (h : isPlainWhole d = false) :
    doubleText d = d.toString := by
  rw [doubleText, if_neg hd, h, if_neg (by decide)]

theorem isNumeral_canonicalNumber (n : Num) : IsNumeral (canonicalNumber n) := by
  cases n with
  | int i =>
    rw [canonicalNumber, intText_eq]
    exact isNumeral_integer _ _
  | double d =>
    rw [canonicalNumber]
    by_cases hd : d.1.mantissa = 0
    · rw [if_pos hd]
      exact ⟨⟨0x30, [], rfl, .inl rfl⟩, rfl⟩
    · rw [if_neg hd]
      cases hw : isPlainWhole d.1 with
      | true =>
        rw [if_pos rfl]
        exact isNumeral_integer _ _
      | false =>
        rw [if_neg (by decide), doubleText_of_not_plain hd hw]
        exact isNumeral_toString d

theorem starts_numText (n : Num) : StartsNumeral (numText n) := by
  cases n with
  | int i =>
    rw [numText, intText_eq]
    exact (isNumeral_integer _ _).1
  | double d =>
    obtain ⟨c, t, htext, hc⟩ := Json.starts_toString d
    rw [numText, doubleText]
    split_ifs
    · exact ⟨0x2d, _, rfl, .inr rfl⟩
    · exact ⟨0x30, _, rfl, .inl rfl⟩
    · exact ⟨c, t ++ js ".0", by rw [htext]; rfl, hc⟩
    · exact ⟨c, t, htext, hc⟩

/-! ## A Dart number read in JavaScript -/

theorem head_any_of_stops {rest : JsString} (h : Stops rest) :
    rest.head?.any isNumeralUnit = false := by
  cases rest with
  | nil => rfl
  | cons c rest => exact h c rfl

/-- No leading zero but that of `0`. -/
theorem lead_decimalDigits (n : Nat) :
    (Number.decimalDigits n).length = 1 ∨ (Number.decimalDigits n).head? ≠ some 0x30 := by
  rcases Nat.eq_zero_or_pos n with rfl | hn
  · exact .inl rfl
  · exact .inr (Number.head_decimalDigits hn)

/-- A natural number as JavaScript reads it. -/
theorem readNumber_natural (neg : Bool) (n : Nat) {rest : JsString} (hr : Stops rest) :
    Number.readNumber ((if neg then js "-" else []) ++ Number.decimalDigits n ++ rest) =
      some (Number.ofDecimal neg n 0, rest) := by
  have hread := Number.readDecimal_of (Number.all_isDigit_decimalDigits n)
    (Number.decimalDigits_ne_nil n) (lead_decimalDigits n) hr.not_digit (Number.readFraction_of_stops hr)
    (Number.readExponent_of_stops hr)
  rw [List.append_nil, Number.digitsVal_decimalDigits] at hread
  rw [List.append_assoc, Number.readNumber_sign neg hread]
  rfl

/-- A natural number with a fraction of zero is read as the number it rounds to. -/
theorem readNumber_pointZero {x : Number} (hf : x.isFinite = true) {p : Nat}
    (hp : InCell mid x.index (p : ℚ)) {rest : JsString} (hr : Stops rest) :
    Number.readNumber ((if x.negative then js "-" else []) ++ Number.decimalDigits p ++
      js ".0" ++ rest) = some (x, rest) := by
  have hfr : Number.readFraction (0x2e :: (js "0" ++ rest)) = some (js "0", rest) :=
    Number.readFraction_point (by decide) (by decide) hr.not_digit
  have hread := Number.readDecimal_of (Number.all_isDigit_decimalDigits p)
    (Number.decimalDigits_ne_nil p) (lead_decimalDigits p) (fun c hc => by
      obtain rfl := Option.mem_some_iff.1 hc
      decide) hfr (Number.readExponent_of_stops hr)
  have hval : digitsVal (Number.decimalDigits p ++ js "0") = p * 10 := by
    rw [digitsVal_append, Number.digitsVal_decimalDigits]
    rfl
  rw [hval] at hread
  have hcell : InCell mid x.index (((p * 10 : ℕ) : ℚ) * (10 : ℚ) ^ (0 - ((js "0").length : ℤ))) := by
    rw [show 0 - ((js "0").length : ℤ) = -1 from rfl, zpow_neg_one]
    push_cast
    rwa [mul_inv_cancel_right₀ (by norm_num)]
  rw [List.append_assoc, List.append_assoc]
  change Number.readNumber (_ ++ (Number.decimalDigits p ++ (0x2e :: (js "0" ++ rest)))) = _
  rw [Number.readNumber_sign _ hread, Number.ofDecimal_of_inCell hf hcell]

/-- A natural number of 64 bits as a number. -/
theorem exists_ofIndex {n : Nat} (hn : n < 2 ^ 64) (neg : Bool) :
    ∃ x : Number, x.isFinite = true ∧ Number.ofDecimal neg n 0 = x ∧ x.negative = neg ∧
      InCell mid x.index (n : ℚ) := by
  obtain ⟨b, hb, hcell⟩ := Number.exists_inCell (hn.le.trans (by norm_num))
  have hlt : b < 2 ^ 63 := hb.trans (by decide)
  have hi := Number.index_ofIndex neg hlt
  refine ⟨ofIndex neg b, Number.isFinite_iff.2 (by rwa [hi]),
    Number.ofDecimal_eq_ofIndex neg hb (Number.inCell_natCast.2 hcell),
    Number.negative_ofIndex neg hlt, by rwa [hi]⟩

/-- A number that Dart prints as JavaScript prints the number it is received as: zero, one that
is not whole or from `10 ^ 21` on, and a natural number that is the shortest of its cell. -/
def WrittenAlike : Num → Prop
  | .int i => IsShortest i.toInt.natAbs
  | .double d => d.1.mantissa = 0 ∨ isPlainWhole d.1 = false ∨ IsShortest d.1.truncate

theorem decimalDigits_inj {m n : Nat} : Number.decimalDigits m = Number.decimalDigits n ↔ m = n := by
  refine ⟨fun h => ?_, fun h => by rw [h]⟩
  have hv := congrArg digitsVal h
  rwa [Number.digitsVal_decimalDigits, Number.digitsVal_decimalDigits] at hv

theorem isPlainWhole_iff {d : Number} :
    isPlainWhole d = true ↔ d.isWhole = true ∧ d.truncate < 10 ^ 21 := by
  rw [isPlainWhole, Bool.and_eq_true, decide_eq_true_eq]

theorem inCell_truncate {x : Number} (hx : x.mantissa ≠ 0) (hw : x.isWhole = true) :
    InCell mid x.index (x.truncate : ℚ) := by
  rw [← Number.magnitude_of_isWhole hw]
  exact Number.inCell_magnitude hx

theorem inCell_zero {x : Number} (hx : x.mantissa = 0) : InCell mid x.index ((0 : ℕ) : ℚ) := by
  rw [Number.mantissa_eq_zero.1 hx]
  refine ⟨?_, nofun⟩
  unfold Rounding.Reaches
  rw [if_pos rfl, Nat.cast_zero]
  exact div_nonneg (Nat.cast_nonneg _) Number.grain_pos.le

/-- **An integer of Dart in JavaScript.** -/
theorem received_int (i : Int64) : ∃ x : FiniteNumber,
    (∀ rest, Stops rest → Number.readNumber (numText (.int i) ++ rest) = some (x.1, rest)) ∧
      (x.1.toString = canonicalNumber (.int i) ↔ WrittenAlike (.int i)) := by
  have hlt : i.toInt.natAbs < 2 ^ 64 := by
    have h1 := i.toInt_lt
    have h2 := i.le_toInt
    omega
  unfold numText canonicalNumber WrittenAlike
  simp only [intText_eq]
  generalize i.toInt = j at hlt
  by_cases hj : j = 0
  · subst hj
    have hzero : Number.ofDecimal false 0 0 = ⟨0⟩ := by decide +kernel
    refine ⟨⟨⟨0⟩, by decide⟩, fun rest hr => ?_, ?_⟩
    · have hread := readNumber_natural false 0 hr
      rw [hzero] at hread
      exact hread
    · exact ⟨fun _ => Number.isShortest_of_safe (by decide), fun _ => by decide⟩
  · obtain ⟨x, hf, hof, hneg, hcell⟩ := exists_ofIndex hlt (decide (j < 0))
    refine ⟨⟨x, hf⟩, fun rest hr => ?_, ?_⟩
    · rw [readNumber_natural _ _ hr, hof]
    · obtain ⟨hx, hw, hsmall⟩ := Number.whole_of_natCast (by omega) hlt hcell
      obtain ⟨p, htext, -, hshort⟩ := Number.toString_whole hx hf hw hsmall
      rw [htext, hneg, List.append_cancel_left_eq, decimalDigits_inj, eq_comm, hshort _ hcell]

/-- **A double of Dart in JavaScript.** -/
theorem received_double (d : FiniteNumber) : ∃ x : FiniteNumber,
    (∀ rest, Stops rest → Number.readNumber (numText (.double d) ++ rest) = some (x.1, rest)) ∧
      (x.1.toString = canonicalNumber (.double d) ↔ WrittenAlike (.double d)) := by
  obtain ⟨d, hf⟩ := d
  refine ⟨⟨d, hf⟩, ?_⟩
  unfold numText canonicalNumber WrittenAlike doubleText
  simp only
  by_cases hd : d.mantissa = 0
  · simp only [hd, if_true, true_or, iff_true]
    refine ⟨fun rest hr => ?_, by rw [Number.toString, if_pos hd]⟩
    have hread := readNumber_pointZero hf (inCell_zero hd) hr
    cases hneg : d.negative with
    | true =>
      rw [hneg] at hread
      exact hread
    | false =>
      rw [hneg] at hread
      exact hread
  · simp only [hd, if_false, false_or]
    cases hplain : isPlainWhole d with
    | true =>
      obtain ⟨hw, hsmall⟩ := isPlainWhole_iff.1 hplain
      obtain ⟨p, htext, hcell, hshort⟩ := Number.toString_whole hd hf hw hsmall
      simp only [if_true, reduceCtorEq, false_or]
      refine ⟨fun rest hr => ?_, ?_⟩
      · rw [htext]
        exact readNumber_pointZero hf hcell hr
      · rw [htext, fixedText, List.append_cancel_left_eq, decimalDigits_inj, eq_comm,
          hshort _ (inCell_truncate hd hw)]
    | false =>
      simp only [Bool.false_eq_true, if_false, true_or, and_true]
      intro rest hr
      rw [Number.readNumber_toString hf hr, if_neg hd]

theorem received (n : Num) : ∃ x : FiniteNumber,
    (∀ rest, Stops rest → Number.readNumber (numText n ++ rest) = some (x.1, rest)) ∧
      (x.1.toString = canonicalNumber n ↔ WrittenAlike n) := by
  cases n with
  | int i => exact received_int i
  | double d => exact received_double d

/-! ## A JavaScript number read in Dart -/

theorem head_sign (neg : Bool) {s : JsString} (h : StartsNumeral s)
    (hs : ∀ c ∈ s.head?, isDigit c = true) :
    (decide (((if neg then js "-" else []) ++ s).head? = some 0x2d)) = neg := by
  cases neg with
  | true => rfl
  | false =>
    obtain ⟨c, t, rfl, -⟩ := h
    have hd := hs c rfl
    rw [if_neg (by decide), List.nil_append, List.head?_cons, decide_eq_false_iff_not]
    intro he
    rw [Option.some.inj he] at hd
    cases hd

theorem readInteger_sign (neg : Bool) {ip fr : JsString} (hip : ip.all isDigit = true)
    (hne : ip ≠ []) (hlead : ip.length = 1 ∨ ip.head? ≠ some 0x30)
    (hfr : ∀ c ∈ fr.head?, isDigit c = false) :
    readInteger ((if neg then js "-" else []) ++ (ip ++ fr)) =
      if fr.head?.any isNumeralUnit then none
      else some (if neg then -(digitsVal ip : Int) else digitsVal ip, fr) := by
  obtain ⟨c, ds, rfl⟩ := List.exists_cons_of_ne_nil hne
  have hc : isDigit c = true := List.all_eq_true.1 hip c List.mem_cons_self
  have hsign := head_sign neg (s := c :: ds ++ fr) ⟨c, ds ++ fr, rfl, .inl hc⟩ (by
    intro d hd
    rwa [Option.mem_some_iff.1 hd] at hc)
  have htail : (if neg then ((if neg then js "-" else []) ++ (c :: ds ++ fr)).tail
      else (if neg then js "-" else []) ++ (c :: ds ++ fr)) = c :: ds ++ fr := by
    cases neg <;> rfl
  unfold readInteger
  simp only [hsign, htail]
  rw [takeWhile_of_all hip hfr, dropWhile_of_all hip hfr, if_neg]
  intro h
  rcases Bool.or_eq_true_iff.1 h with h | h
  · cases h
  · rw [Bool.and_eq_true, bne_iff_ne, beq_iff_eq] at h
    exact hlead.elim h.1 fun hl => hl h.2

/-- What is printed with a point or an exponent is not an integer. -/
theorem readInteger_of_not_plain {x : Number} (hx : x.mantissa ≠ 0) (hf : x.isFinite = true)
    (h : isPlainWhole x = false) {rest : JsString} : readInteger (x.toString ++ rest) = none := by
  obtain ⟨s, k, n, hp⟩ := Number.exists_isPrinted hx hf
  have hnot : ¬ ((k : Int) ≤ n ∧ n ≤ 21) := by
    intro hkn
    obtain ⟨hw, hsmall, -⟩ := hp.whole hx hkn
    rw [isPlainWhole_iff.2 ⟨hw, hsmall⟩] at h
    cases h
  have hlen := Number.length_decimalDigits hp.one_le hp.low hp.high
  have hdig := Number.all_isDigit_decimalDigits s
  have hhead := Number.head_decimalDigits (n := s)
    (lt_of_lt_of_le (Nat.pow_pos (by decide)) hp.low)
  have hk := hp.one_le
  rw [hp.toString_eq]
  generalize Number.decimalDigits s = ds at hlen hdig hhead
  have hne : ds ≠ [] := List.ne_nil_of_length_pos (by omega)
  have htake : ∀ i, 0 < i → ds.take i ≠ [] ∧ (ds.take i).head? ≠ some 0x30 := by
    intro i hi
    refine ⟨List.ne_nil_of_length_pos (by rw [List.length_take]; omega), ?_⟩
    rwa [List.head?_take, if_neg (by omega)]
  have hmark : ∀ t : JsString, ∃ c ∈ (((if 0 ≤ n - 1 then js "e+" else js "e-") ++ t).head?),
      c = 0x65 := by
    intro t
    split <;> exact ⟨0x65, rfl, rfl⟩
  -- in each layout the digits at the front are followed by a point or an exponent
  have hread : ∀ (ip : JsString) {fr : JsString} {c : CodeUnit}, ip.all isDigit = true → ip ≠ [] →
      (ip.length = 1 ∨ ip.head? ≠ some 0x30) → fr.head? = some c → c = 0x2e ∨ c = 0x65 →
      readInteger ((if x.negative then js "-" else []) ++ (ip ++ fr)) = none := by
    intro ip fr c hip hne hlead hfr hc
    have hcu : isDigit c = false ∧ isNumeralUnit c = true := by rcases hc with rfl | rfl <;> decide
    rw [readInteger_sign _ hip hne hlead fun d hd => by
      rw [hfr] at hd
      rw [← Option.mem_some_iff.1 hd]
      exact hcu.1]
    rw [hfr, Option.any_some, hcu.2, if_pos rfl]
  generalize (if x.negative then js "-" else []) = sign at hread ⊢
  unfold Number.layout
  simp only [hlen, if_neg hnot]
  generalize hm : (if 0 ≤ n - 1 then js "e+" else js "e-") = mark at hmark
  have hmark' : ∀ t, (mark ++ t).head? = some 0x65 := fun t => by
    obtain ⟨c, hc, rfl⟩ := hmark t
    exact hc
  split_ifs with hB hC hD
  · obtain ⟨ht, hh⟩ := htake n.toNat (by omega)
    simp only [List.append_assoc]
    refine hread _ (Number.all_isDigit_take hdig _) ht (.inr hh) ?_ (.inl rfl)
    rfl
  · simp only [List.append_assoc]
    change readInteger (sign ++ ([0x30] ++ (0x2e :: _))) = none
    exact hread [0x30] rfl (by decide) (.inl rfl) (List.head?_cons ..) (.inl rfl)
  · simp only [List.append_assoc]
    exact hread ds hdig hne (.inr hhead) (hmark' _) (.inr rfl)
  · obtain ⟨ht, hh⟩ := htake 1 (by omega)
    simp only [List.append_assoc]
    refine hread _ (Number.all_isDigit_take hdig 1) ht (.inr hh) ?_ (.inl rfl)
    rfl

/-- `2 ^ 63`. -/
def twoTo63 : Number := ⟨0x43e0000000000000⟩

theorem magnitude_twoTo63 : twoTo63.magnitude = 2 ^ 63 := by
  have ht : twoTo63.truncate = 2 ^ 63 := by decide +kernel
  rw [Number.magnitude_of_isWhole (by decide +kernel), ht]
  norm_num

/-- A number below `2 ^ 63` is printed as an integer of 64 bits, and no other is. -/
theorem printed_fits {x : Number} (hx : x.mantissa ≠ 0) (hw : x.isWhole = true) {p : Nat}
    (hcell : InCell mid x.index (p : ℚ))
    (hshort : ∀ m : ℕ, InCell mid x.index (m : ℚ) → (m = p ↔ IsShortest m)) :
    (x.truncate < 2 ^ 63 → p < 2 ^ 63) ∧ (2 ^ 63 ≤ x.truncate → 2 ^ 63 < p) := by
  have hself := Number.inCell_magnitude hx
  have htop := Number.inCell_magnitude (x := twoTo63) (by decide)
  rw [Number.magnitude_of_isWhole hw] at hself
  rw [magnitude_twoTo63] at htop
  rcases lt_trichotomy x.index twoTo63.index with hlt | heq | hgt
  · have h1 : p < 2 ^ 63 := by exact_mod_cast hcell.lt htop hlt
    have h2 : x.truncate < 2 ^ 63 := by exact_mod_cast hself.lt htop hlt
    exact ⟨fun _ => h1, fun h => absurd h2 (Nat.not_lt.2 h)⟩
  · -- the number is `2 ^ 63`, which is printed as a greater one
    obtain ⟨q, htext, hq, hqs⟩ := Number.toString_whole (x := twoTo63) (by decide) (by decide)
      (by decide +kernel) (by decide +kernel)
    have hten : twoTo63.toString = Number.decimalDigits 9223372036854776000 := by decide +kernel
    have hqv : q = 9223372036854776000 := by
      rw [hten] at htext
      exact (decimalDigits_inj.1 htext).symm
    rw [← heq] at hq hqs
    have hp : p = 9223372036854776000 := by
      rw [← hqv]
      exact ((hshort q hq).2 ((hqs q hq).1 rfl)).symm
    have hmag : (x.truncate : ℚ) = 2 ^ 63 := by
      rw [← Number.magnitude_of_isWhole hw, Number.magnitude_congr heq, magnitude_twoTo63]
    have hnat : x.truncate = 2 ^ 63 := by exact_mod_cast hmag
    omega
  · have h1 : 2 ^ 63 < p := by exact_mod_cast htop.lt hcell hgt
    have h2 : 2 ^ 63 < x.truncate := by exact_mod_cast htop.lt hself hgt
    exact ⟨fun h => absurd h (by omega), fun _ => h1⟩

/-- A number that Dart prints, once received, as JavaScript does: also every one below
`2 ^ 63`, which is received as an `int`. -/
def ReceivedAlike (x : FiniteNumber) : Prop :=
  x.1.mantissa = 0 ∨ isPlainWhole x.1 = false ∨ x.1.truncate < 2 ^ 63 ∨ IsShortest x.1.truncate

/-- The double of a numeral that is not an `int`. -/
theorem readNum_double {x : Number} (hf : x.isFinite = true) (hx : x.mantissa ≠ 0)
    {rest : JsString} (hr : Stops rest)
    (hint : ∀ i r, readInteger (x.toString ++ rest) = some (i, r) → ¬ (-2 ^ 63 ≤ i ∧ i < 2 ^ 63)) :
    readNum (x.toString ++ rest) = some (.double ⟨x, hf⟩, rest) := by
  have hread := Number.readNumber_toString hf hr
  rw [if_neg hx] at hread
  unfold readNum
  simp only [hread, dif_pos hf]
  cases hi : readInteger (x.toString ++ rest) with
  | none => rfl
  | some q => exact if_neg (hint q.1 q.2 hi)

/-- **A number of JavaScript in Dart.** -/
theorem received_back (x : FiniteNumber) : ∃ n : Num,
    (∀ rest, Stops rest → readNum (x.1.toString ++ rest) = some (n, rest)) ∧
      (canonicalNumber n = x.1.toString ↔ ReceivedAlike x) := by
  obtain ⟨x, hf⟩ := x
  unfold ReceivedAlike
  simp only
  have hinteger : ∀ (p : Nat) {rest : JsString}, Stops rest →
      readInteger ((if x.negative then js "-" else []) ++ Number.decimalDigits p ++ rest) =
        some (if x.negative then -(p : Int) else p, rest) := by
    intro p rest hr
    rw [List.append_assoc, readInteger_sign _ (Number.all_isDigit_decimalDigits p)
      (Number.decimalDigits_ne_nil p) (lead_decimalDigits p) hr.not_digit, head_any_of_stops hr, if_neg (by decide),
      Number.digitsVal_decimalDigits]
  by_cases hx : x.mantissa = 0
  · refine ⟨.int 0, fun rest hr => ?_, ?_⟩
    · rw [Number.toString, if_pos hx]
      have hi : readInteger (js "0" ++ rest) = some (0, rest) := by
        have hsign := @readInteger_sign false (js "0") rest (by decide) (by decide) (.inl rfl)
          hr.not_digit
        rw [head_any_of_stops hr] at hsign
        exact hsign
      unfold readNum
      rw [hi]
      rfl
    · rw [Number.toString, if_pos hx]
      exact ⟨fun _ => .inl hx, fun _ => by decide⟩
  · cases hplain : isPlainWhole x with
    | false =>
      refine ⟨.double ⟨x, hf⟩, fun rest hr => readNum_double hf hx hr fun i r hi => ?_, ?_⟩
      · rw [readInteger_of_not_plain hx hf hplain] at hi
        cases hi
      · refine ⟨fun _ => .inr (.inl rfl), fun _ => ?_⟩
        rw [canonicalNumber, if_neg hx, hplain, if_neg (by decide),
          doubleText_of_not_plain hx hplain]
    | true =>
      obtain ⟨hw, hsmall⟩ := isPlainWhole_iff.1 hplain
      obtain ⟨p, htext, hcell, hshort⟩ := Number.toString_whole hx hf hw hsmall
      obtain ⟨hfits, hnot⟩ := printed_fits hx hw hcell hshort
      have hp : p ≠ 0 := by
        rintro rfl
        have := Number.pos_of_inCell hx (m := 0) (u := 1) (by simpa using hcell)
        omega
      rcases Nat.lt_or_ge x.truncate (2 ^ 63) with hlt | hge
      · have hpl := hfits hlt
        have hrange : -2 ^ 63 ≤ (if x.negative then -(p : Int) else p) ∧
            (if x.negative then -(p : Int) else p) < 2 ^ 63 := by split <;> omega
        refine ⟨.int (Int64.ofInt (if x.negative then -(p : Int) else p)), fun rest hr => ?_, ?_⟩
        · rw [htext]
          unfold readNum
          rw [hinteger p hr]
          exact if_pos hrange
        · refine ⟨fun _ => .inr (.inr (.inl hlt)), fun _ => ?_⟩
          rw [canonicalNumber, Int64.toInt_ofInt_of_le hrange.1 hrange.2, intText, htext]
          cases x.negative with
          | true =>
            have hneg : -(p : Int) < 0 := by omega
            simp only [if_true, if_pos hneg, Int.natAbs_neg, Int.natAbs_natCast]
          | false =>
            have hpos : ¬ (p : Int) < 0 := by omega
            simp only [Bool.false_eq_true, if_false, if_neg hpos, Int.natAbs_natCast]
      · refine ⟨.double ⟨x, hf⟩, fun rest hr => readNum_double hf hx hr fun i r hi => ?_, ?_⟩
        · have := hnot hge
          rw [htext, hinteger p hr] at hi
          obtain ⟨rfl, -⟩ := Prod.mk.inj (Option.some.inj hi)
          split <;> omega
        · rw [canonicalNumber, if_neg hx, hplain, if_pos rfl, fixedText, htext,
            List.append_cancel_left_eq, decimalDigits_inj, hshort _ (inCell_truncate hx hw)]
          refine ⟨fun h => .inr (.inr (.inr h)), ?_⟩
          rintro (h | h | h | h)
          · exact absurd h hx
          · cases h
          · omega
          · exact h

/-! ## Objects -/

/-- Names that are put one after the other are in their order. -/
theorem foldl_put (fs : List (JsString × Doc Num)) : ∀ o : List (JsString × Doc Num),
    ((o ++ fs).map Prod.fst).Nodup →
      fs.foldl (fun o f => OrderedMap.put f.1 f.2 o) o = o ++ fs := by
  induction fs with
  | nil => intro o _; rw [List.foldl_nil, List.append_nil]
  | cons f fs ih =>
    intro o ho
    have hk : f.1 ∉ o.map Prod.fst := by
      rw [List.map_append, List.map_cons, List.nodup_append] at ho
      exact fun hm => ho.2.2 _ hm _ List.mem_cons_self rfl
    have happ : o ++ f :: fs = o ++ [f] ++ fs := by rw [List.append_assoc]; rfl
    rw [happ] at ho
    rw [List.foldl_cons, OrderedMap.put_of_notMem hk, ih _ ho, happ]

theorem ofDoc_of_distinct {t : Doc Num} (h : t.Distinct) : ofDoc t = t := by
  induction t using Doc.ind with
  | null => rfl
  | bool b => rfl
  | num n => rfl
  | str s => rfl
  | arr xs ih =>
    refine (Doc.fold_arr _ xs).trans (congrArg Doc.arr ?_)
    exact (List.map_congr_left fun x hx => ih x hx (Doc.distinct_arr.1 h x hx)).trans (List.map_id _)
  | obj fs ih =>
    obtain ⟨hn, hf⟩ := Doc.distinct_obj.1 h
    have hfields : fs.map (fun f => (f.1, ofDoc f.2)) = fs :=
      (List.map_congr_left fun f hm => congrArg (Prod.mk f.1) (ih f hm (hf f hm))).trans
        (List.map_id _)
    refine (Doc.fold_obj _ fs).trans (congrArg Doc.obj ?_)
    change (fs.map fun f => (f.1, ofDoc f.2)).foldl (fun o f => OrderedMap.put f.1 f.2 o) [] = fs
    rw [hfields, foldl_put fs [] hn]
    rfl

/-- The document of a parsed value, in the order of the names. -/
theorem sorted_toDoc {u : Doc FiniteNumber} (h : u.Distinct) :
    (Json.ofDoc (u.map Subtype.val)).toDoc.sorted = u.sorted := by
  induction u using Doc.ind with
  | null => rfl
  | bool b => rfl
  | num x => exact congrArg Doc.sorted (dif_pos x.2)
  | str s => rfl
  | arr xs ih =>
    have hparsed : Json.ofDoc ((Doc.arr xs).map Subtype.val) =
        .arr (xs.map fun x => Json.ofDoc (x.map Subtype.val)) := by
      rw [Doc.map_arr]
      refine (Doc.fold_arr _ _).trans ?_
      rw [List.map_map]
      rfl
    rw [hparsed, Json.toDoc, Json.toDocElems_eq, Doc.sorted_arr, Doc.sorted_arr, List.map_map,
      List.map_map]
    exact congrArg Doc.arr (List.map_congr_left fun x hx => ih x hx (Doc.distinct_arr.1 h x hx))
  | obj fs ih =>
    obtain ⟨hn, hf⟩ := Doc.distinct_obj.1 h
    have hparsed : Json.ofDoc ((Doc.obj fs).map Subtype.val) =
        .obj (Json.ownFields (fs.map fun f => (f.1, Json.ofDoc (f.2.map Subtype.val)))) := by
      rw [Doc.map_obj]
      refine (Doc.fold_obj _ _).trans ?_
      rw [List.map_map]
      rfl
    have hperm := @Json.perm_ownFields
      (fs.map fun f => (f.1, Json.ofDoc (f.2.map Subtype.val))) (by rwa [List.map_map])
    have hdocs := (hperm.map fun f => (f.1, f.2.toDoc)).map fun f => (f.1, f.2.sorted)
    have hfields : ((fs.map fun f => (f.1, Json.ofDoc (f.2.map Subtype.val))).map
        (fun f => (f.1, f.2.toDoc))).map (fun f => (f.1, f.2.sorted)) =
          fs.map fun f => (f.1, f.2.sorted) := by
      rw [List.map_map, List.map_map]
      exact List.map_congr_left fun f hm => congrArg (Prod.mk f.1) (ih f hm (hf f hm))
    rw [hfields] at hdocs
    rw [hparsed, Json.toDoc, Json.toDocFields_eq, Doc.sorted_obj, Doc.sorted_obj]
    refine congrArg Doc.obj (insertionSort_congr hdocs.symm ?_).symm
    rwa [List.map_map]

theorem distinct_map {μ ν : Type} (f : μ → ν) {t : Doc μ} (h : t.Distinct) :
    (t.map f).Distinct := by
  induction t using Doc.ind with
  | null => trivial
  | bool b => trivial
  | num n => trivial
  | str s => trivial
  | arr xs ih =>
    rw [Doc.map_arr, Doc.distinct_arr, List.forall_mem_map]
    exact fun x hx => ih x hx (Doc.distinct_arr.1 h x hx)
  | obj fs ih =>
    obtain ⟨hn, hf⟩ := Doc.distinct_obj.1 h
    rw [Doc.map_obj, Doc.distinct_obj, List.forall_mem_map, List.map_map]
    exact ⟨hn, fun g hg => ih g hg (hf g hg)⟩

mutual

theorem distinct_toDoc : (v : Json) → v.proper = true → v.toDoc.Distinct
  | .arr xs, h => by
    rw [Json.toDoc, Doc.distinct_arr]
    exact distinct_toDocElems xs (Json.proper_arr.1 h)
  | .obj fs, h => by
    obtain ⟨hn, hf⟩ := Json.proper_obj.1 h
    rw [Json.toDoc, Doc.distinct_obj]
    refine ⟨?_, distinct_toDocFields fs hf⟩
    rwa [Json.toDocFields_eq, List.map_map]
  | .num n, _ => by
    rw [Json.toDoc]
    split <;> trivial
  | .null, _ => trivial
  | .bool _, _ => trivial
  | .str _, _ => trivial

theorem distinct_toDocElems : (xs : List Json) → (∀ x ∈ xs, x.proper = true) →
    ∀ d ∈ Json.toDocElems xs, d.Distinct
  | [], _ => nofun
  | x :: rest, h => List.forall_mem_cons.2 ⟨distinct_toDoc x (h x List.mem_cons_self),
    distinct_toDocElems rest fun y hy => h y (List.mem_cons_of_mem x hy)⟩

theorem distinct_toDocFields : (fs : List (JsString × Json)) → (∀ f ∈ fs, f.2.proper = true) →
    ∀ d ∈ Json.toDocFields fs, d.2.Distinct
  | [], _ => nofun
  | (k, x) :: rest, h => List.forall_mem_cons.2 ⟨distinct_toDoc x (h (k, x) List.mem_cons_self),
    distinct_toDocFields rest fun g hg => h g (List.mem_cons_of_mem (k, x) hg)⟩

end

/-! ## The same bytes -/

/-- **A value of Dart in JavaScript.** -/
theorem canonicalJson_received {t : Doc Num} (h : t.Distinct) :
    ∃ v, Json.parse (jsonEncode t) = some v ∧
      (TangentFeed.canonicalJson v = canonicalJson t ↔ t.All WrittenAlike) := by
  choose x hread halike using received
  refine ⟨Json.ofDoc (t.map fun n => (x n).1), ?_, ?_⟩
  · rw [Json.parse, jsonEncode, Json.parseDoc_write starts_numText fun n rest hr => hread n rest hr]
    rfl
  · have hdoc : t.map (fun n => (x n).1) = (t.map x).map Subtype.val := (Doc.map_map x _ t).symm
    have htext : TangentFeed.canonicalJson (Json.ofDoc (t.map fun n => (x n).1)) =
        (t.sorted.map fun n => (x n).1.toString).write := by
      rw [hdoc, Json.canonicalJson_eq_write, Json.docText, Doc.sorted_map,
        sorted_toDoc (distinct_map x h), Doc.sorted_map, Doc.map_map]
      rfl
    rw [htext, canonicalJson_eq_write, ← Doc.all_sorted]
    have heq : (t.sorted.map fun n => (x n).1.toString) = t.sorted.map canonicalNumber ↔
        t.sorted.All WrittenAlike := by
      rw [Doc.map_eq_iff]
      simp only [halike]
    rw [← heq]
    exact ⟨fun hw => Json.write_inj (fun n => isNumeral_toString (x n)) isNumeral_canonicalNumber hw,
      fun ht => by rw [ht]⟩

/-- **A value of JavaScript in Dart.** -/
theorem canonicalJson_received_back {v : Json} (h : v.proper = true) :
    ∃ t, jsonDecode (Json.stringify v) = some t ∧
      (canonicalJson t = TangentFeed.canonicalJson v ↔ v.toDoc.All ReceivedAlike) := by
  choose n hread halike using received_back
  have hdistinct := distinct_map n (distinct_toDoc v h)
  refine ⟨v.toDoc.map n, ?_, ?_⟩
  · rw [jsonDecode, Json.stringify_eq_write, Json.docText,
      Json.parseDoc_write Json.starts_toString fun x rest hr => hread x rest hr]
    exact congrArg some (ofDoc_of_distinct hdistinct)
  · have htext : canonicalJson (v.toDoc.map n) =
        (v.toDoc.sorted.map fun x => canonicalNumber (n x)).write := by
      rw [canonicalJson_eq_write, Doc.sorted_map, Doc.map_map]
      rfl
    rw [htext, Json.canonicalJson_eq_write, Json.docText, Doc.sorted_map, ← Doc.all_sorted]
    have heq : (v.toDoc.sorted.map fun x => canonicalNumber (n x)) =
        (v.toDoc.sorted.map fun x => x.1.toString) ↔ v.toDoc.sorted.All ReceivedAlike := by
      rw [Doc.map_eq_iff]
      simp only [halike]
    rw [← heq]
    exact ⟨fun hw => Json.write_inj (fun x => isNumeral_canonicalNumber (n x)) isNumeral_toString hw,
      fun ht => by rw [ht]⟩

/-- **Where both implementations sign the same bytes.** A value of Dart has the same canonical
text as what JavaScript receives exactly when each of its numbers is zero, is not whole, is
`10 ^ 21` or greater, or is the shortest natural number that rounds to the same double. A
value of JavaScript has the same text in Dart also where its whole numbers are below
`2 ^ 63`. -/
theorem canonicalJson_agree_iff (t : Doc Num) (v : Json) :
    (t.Distinct → ∃ w, Json.parse (jsonEncode t) = some w ∧
      (TangentFeed.canonicalJson w = canonicalJson t ↔ t.All WrittenAlike)) ∧
    (v.proper = true → ∃ u, jsonDecode (Json.stringify v) = some u ∧
      (canonicalJson u = TangentFeed.canonicalJson v ↔ v.toDoc.All ReceivedAlike)) :=
  ⟨canonicalJson_received, canonicalJson_received_back⟩

/-- Two numbers that are safe integers. -/
theorem canonicalJson_agree_iff_sample :
    (∃ v, Json.parse (jsonEncode (.arr [.num (.int 10), .num (.int (-7))])) = some v ∧
      TangentFeed.canonicalJson v = js "[10,-7]") ∧
    ∃ t, jsonDecode (Json.stringify (.num ⟨0x4024000000000000⟩)) = some t ∧
      canonicalJson t = js "10" := by
  refine ⟨?_, ?_⟩
  · obtain ⟨v, hv, hsame⟩ := (canonicalJson_agree_iff
      (.arr [.num (.int 10), .num (.int (-7))]) .null).1
      (Doc.distinct_arr.2 (List.forall_mem_cons.2 ⟨trivial, List.forall_mem_singleton.2 trivial⟩))
    refine ⟨v, hv, ?_⟩
    rw [hsame.2]
    · decide +kernel
    · exact Doc.all_arr.2 (List.forall_mem_cons.2 ⟨Number.isShortest_of_safe (by decide),
        List.forall_mem_singleton.2 (Number.isShortest_of_safe (by decide))⟩)
  · obtain ⟨t, ht, hsame⟩ :=
      (canonicalJson_agree_iff .null (.num ⟨0x4024000000000000⟩)).2 (by decide)
    refine ⟨t, ht, ?_⟩
    rw [hsame.2]
    · decide +kernel
    · exact .inr (.inr (.inl (by decide)))

/-- `9007199254740993` is received as `9007199254740992`, and `2 ^ 64` is printed by
JavaScript as `18446744073709552000`. -/
theorem canonicalJson_differ :
    (Json.parse (jsonEncode (.num (.int 9007199254740993)))).map TangentFeed.canonicalJson =
        some (js "9007199254740992") ∧
      canonicalJson (.num (.int 9007199254740993)) = js "9007199254740993" ∧
    (jsonDecode (Json.stringify (.num ⟨0x43f0000000000000⟩))).map canonicalJson =
        some (js "18446744073709551616") ∧
      TangentFeed.canonicalJson (.num ⟨0x43f0000000000000⟩) = js "18446744073709552000" := by
  refine ⟨?_, ?_, ?_, ?_⟩ <;> decide +kernel

end TangentFeed.Dart
