import TangentFeed.Js.Rounding

/-!
# Reading numerals

`readNumber` reads a numeral of the JSON grammar off the front of a string and
rounds its value to the nearest number. It reads back what `toString` prints,
but for the sign of zero.
-/

namespace TangentFeed

/-- `[0-9]`. -/
def isDigit (c : CodeUnit) : Bool := 0x30 ≤ c.val && c.val ≤ 0x39

/-- The value of a string of decimal digits. -/
def digitsVal (s : JsString) : Nat := s.foldl (fun n c => 10 * n + (c.val - 0x30)) 0

/-- A character of a numeral. -/
def isNumeralUnit (c : CodeUnit) : Bool :=
  isDigit c || c == 0x2e || c == 0x65 || c == 0x45 || c == 0x2b || c == 0x2d

/-- The rest of the text does not go on the numeral before it. -/
def Stops (rest : JsString) : Prop := ∀ c ∈ rest.head?, isNumeralUnit c = false

/-! ## Digits -/

theorem digitsVal_append (a b : JsString) :
    digitsVal (a ++ b) = digitsVal a * 10 ^ b.length + digitsVal b := by
  have key : ∀ (b : JsString) (n : Nat), b.foldl (fun n c => 10 * n + (c.val - 0x30)) n =
      n * 10 ^ b.length + b.foldl (fun n c => 10 * n + (c.val - 0x30)) 0 := by
    intro b
    induction b with
    | nil => simp
    | cons c b ih =>
      intro n
      rw [List.foldl_cons, List.foldl_cons, ih, ih (10 * 0 + _), List.length_cons, pow_succ]
      ring
  unfold digitsVal
  rw [List.foldl_append, key]

theorem digitsVal_zeros (n : Nat) : digitsVal (List.replicate n 0x30) = 0 := by
  induction n with
  | zero => rfl
  | succ n ih =>
    rw [List.replicate_succ, ← List.singleton_append, digitsVal_append, ih]
    simp [digitsVal]

theorem all_isDigit_zeros (n : Nat) : (List.replicate n (0x30 : CodeUnit)).all isDigit = true :=
  List.all_eq_true.2 fun c hc => by rw [List.eq_of_mem_replicate hc]; rfl

theorem takeWhile_of_all {p : CodeUnit → Bool} {ds rest : JsString} (hds : ds.all p = true)
    (h : ∀ c ∈ rest.head?, p c = false) : (ds ++ rest).takeWhile p = ds := by
  rw [List.takeWhile_append_of_pos (List.all_eq_true.1 hds)]
  cases rest with
  | nil => rw [List.takeWhile_nil, List.append_nil]
  | cons c rest => rw [List.takeWhile_cons_of_neg (by simp [h c rfl]), List.append_nil]

theorem dropWhile_of_all {p : CodeUnit → Bool} {ds rest : JsString} (hds : ds.all p = true)
    (h : ∀ c ∈ rest.head?, p c = false) : (ds ++ rest).dropWhile p = rest := by
  rw [List.dropWhile_append_of_pos (List.all_eq_true.1 hds)]
  cases rest with
  | nil => rfl
  | cons c rest => rw [List.dropWhile_cons_of_neg (by simp [h c rfl])]

theorem Stops.not_digit {rest : JsString} (h : Stops rest) :
    ∀ c ∈ rest.head?, isDigit c = false := by
  intro c hc
  have hu := h c hc
  unfold isNumeralUnit at hu
  simp only [Bool.or_eq_false_iff] at hu
  exact hu.1.1.1.1.1

namespace Number

theorem decimalDigits_of_lt {n : Nat} (h : n < 10) :
    decimalDigits n = [Fin.ofNat 65536 (0x30 + n)] := by
  have hall : ∀ n < 10, [Fin.ofNat 65536 (Nat.digitChar n).toNat] =
      [Fin.ofNat 65536 (0x30 + n)] := by decide
  rw [decimalDigits, Nat.toDigits_of_lt_base h, List.map_singleton, hall n h]

theorem decimalDigits_of_le {n : Nat} (h : 10 ≤ n) :
    decimalDigits n = decimalDigits (n / 10) ++ decimalDigits (n % 10) := by
  unfold decimalDigits
  rw [Nat.toDigits_of_base_le (by decide) h, List.map_append,
    Nat.toDigits_of_lt_base (n := n % 10) (Nat.mod_lt _ (by decide))]

theorem val_digit {n : Nat} (h : n < 10) :
    (Fin.ofNat 65536 (0x30 + n) : CodeUnit).val = 0x30 + n := by
  rw [Fin.val_ofNat, Nat.mod_eq_of_lt (by omega)]

theorem all_isDigit_decimalDigits (n : Nat) : (decimalDigits n).all isDigit = true := by
  induction n using Nat.strongRecOn with
  | ind n ih =>
    rcases Nat.lt_or_ge n 10 with h | h
    · rw [decimalDigits_of_lt h, List.all_cons, List.all_nil, Bool.and_true, isDigit, val_digit h]
      simp only [Bool.and_eq_true, decide_eq_true_eq]
      omega
    · rw [decimalDigits_of_le h, List.all_append, ih _ (by omega), ih _ (by omega)]
      rfl

@[simp] theorem digitsVal_decimalDigits (n : Nat) : digitsVal (decimalDigits n) = n := by
  induction n using Nat.strongRecOn with
  | ind n ih =>
    rcases Nat.lt_or_ge n 10 with h | h
    · rw [decimalDigits_of_lt h, digitsVal, List.foldl_cons, List.foldl_nil, val_digit h]
      omega
    · have hlen : (decimalDigits (n % 10)).length = 1 := by
        rw [decimalDigits_of_lt (Nat.mod_lt _ (by decide))]
        rfl
      rw [decimalDigits_of_le h, digitsVal_append, ih _ (by omega), ih _ (by omega), hlen]
      omega

theorem length_decimalDigits {n k : Nat} (hk : 1 ≤ k) (h1 : 10 ^ (k - 1) ≤ n) (h2 : n < 10 ^ k) :
    (decimalDigits n).length = k := by
  unfold decimalDigits
  rw [List.length_map]
  have hle := (Nat.length_toDigits_le_iff (b := 10) (n := n) (by decide) (by omega : 0 < k)).2 h2
  rcases Nat.eq_or_lt_of_le hk with rfl | hlt
  · have := Nat.length_toDigits_pos (b := 10) (n := n)
    omega
  · have hge := mt (Nat.length_toDigits_le_iff (b := 10) (n := n) (by decide)
      (by omega : 0 < k - 1)).1 (by omega)
    omega

theorem decimalDigits_ne_nil (n : Nat) : decimalDigits n ≠ [] := by
  unfold decimalDigits
  rw [ne_eq, List.map_eq_nil_iff]
  exact Nat.toDigits_ne_nil

/-- The first digit of a positive number is not zero. -/
theorem head_decimalDigits {n : Nat} (h : 0 < n) : (decimalDigits n).head? ≠ some 0x30 := by
  induction n using Nat.strongRecOn with
  | ind n ih =>
    rcases Nat.lt_or_ge n 10 with hl | hl
    · rw [decimalDigits_of_lt hl, List.head?_cons]
      intro he
      have hv := congrArg Fin.val (Option.some.inj he)
      rw [val_digit hl] at hv
      change 0x30 + n = 0x30 at hv
      omega
    · rw [decimalDigits_of_le hl, List.head?_append_of_ne_nil _ (decimalDigits_ne_nil _)]
      exact ih (n / 10) (by omega) (by omega)

/-! ## Rounding a decimal -/

/-- The midpoint above index `b` as a ratio. -/
def midRatio (b : Nat) : Ratio := scaled (4 * significand b + 2) (scale b)

/-- The index of infinity. -/
def infinityIndex : Nat := 2047 * 2 ^ 52

/-- Whether `q` rounds to index `b` or below. -/
def reaches (q : Ratio) (b : Nat) : Bool :=
  infinityIndex ≤ b || if b % 2 = 0 then q.le (midRatio b) else q.lt (midRatio b)

/-- The number nearest to `s * 10 ^ e`, with a sign. -/
def ofDecimal (neg : Bool) (s : Nat) (e : Int) : Number :=
  ⟨BitVec.ofNat 64 (Rounding.bisect (reaches (decimal s e 0)) 63 0 infinityIndex +
    if neg then 2 ^ 63 else 0)⟩

open Rounding

theorem reaches_iff {q : Ratio} (hq : 0 < q.den) {b : Nat} :
    reaches q b = true ↔ infinityIndex ≤ b ∨ Reaches mid b q.val := by
  have hmid : (midRatio b).val = mid b := val_scaled ..
  have hden : 0 < (midRatio b).den := scaled_den_pos ..
  unfold reaches Reaches
  rw [Bool.or_eq_true, decide_eq_true_eq]
  split
  · rw [Ratio.le_iff hq hden, hmid]
  · rw [Ratio.lt_iff hq hden, hmid]

theorem index_add_sign (x : Number) :
    x.bits = BitVec.ofNat 64 (x.index + if x.negative then 2 ^ 63 else 0) := by
  have hlt := x.bits.isLt
  apply BitVec.eq_of_toNat_eq
  rw [BitVec.toNat_ofNat]
  have hneg : x.negative = decide (2 ^ 63 ≤ x.bits.toNat) := by
    unfold negative
    rw [BitVec.msb_eq_decide]
  rw [hneg]
  unfold index
  by_cases h : 2 ^ 63 ≤ x.bits.toNat
  · rw [if_pos (by simpa using h), Nat.mod_eq_of_lt (by omega)]
    omega
  · rw [if_neg (by simpa using h), Nat.mod_eq_of_lt (by omega)]
    omega

/-- **A decimal in the cell of a number is read as the number.** -/
theorem ofDecimal_of_inCell {x : Number} (hf : x.isFinite = true) {s : Nat} {e : Int}
    (h : InCell mid x.index (s * (10 : ℚ) ^ e)) : ofDecimal x.negative s e = x := by
  have hden := decimal_den_pos s e 0
  have hval : (decimal s e 0).val = s * (10 : ℚ) ^ e := by rw [val_decimal, sub_zero]
  have hindex := index_lt_of_isFinite hf
  have hb : bisect (reaches (decimal s e 0)) 63 0 infinityIndex = x.index := by
    refine bisect_eq (fun i j hij hi => ?_) ?_ (fun c hc => ?_) (Nat.zero_le _) hindex.le
      (by decide)
    · rw [reaches_iff hden] at hi ⊢
      rcases hi with hi | hi
      · exact .inl (hi.trans hij)
      · exact .inr (hi.mono strictMono_mid hij)
    · rw [reaches_iff hden, hval]
      exact .inr h.1
    · rw [Bool.eq_false_iff, ne_eq, reaches_iff hden, hval]
      rintro (hi | hi)
      · unfold infinityIndex at hi
        omega
      · exact h.2 c hc hi
  unfold ofDecimal
  rw [hb, ← index_add_sign]

/-! ## The grammar of numerals -/

/-- A point and at least one digit, if there is a point. -/
def readFraction : JsString → Option (JsString × JsString)
  | [] => some ([], [])
  | c :: s =>
    if c = 0x2e then
      if (s.takeWhile isDigit).isEmpty then none
      else some (s.takeWhile isDigit, s.dropWhile isDigit)
    else some ([], c :: s)

/-- `e` or `E`, a sign or none and at least one digit, if there is an exponent. -/
def readExponent : JsString → Option (Int × JsString)
  | [] => some (0, [])
  | c :: s =>
    if c = 0x65 ∨ c = 0x45 then
      let neg := s.head? = some 0x2d
      let s := if neg ∨ s.head? = some 0x2b then s.tail else s
      let ds := s.takeWhile isDigit
      if ds.isEmpty then none
      else some (if neg then -digitsVal ds else digitsVal ds, s.dropWhile isDigit)
    else some (0, c :: s)

/-- A numeral without a sign: `m` and `e` of its value `m * 10 ^ e`. -/
def readDecimal (s : JsString) : Option ((Nat × Int) × JsString) :=
  let ip := s.takeWhile isDigit
  -- no zero before another digit
  if ip.isEmpty || (ip.length != 1 && ip.head? == some 0x30) then none
  else
    (readFraction (s.dropWhile isDigit)).bind fun (fp, s) =>
      (readExponent s).map fun (e, s) => ((digitsVal (ip ++ fp), e - fp.length), s)

/-- A numeral at the front of the text. -/
def readNumber (s : JsString) : Option (Number × JsString) :=
  let neg : Bool := s.head? = some 0x2d
  (readDecimal (if neg then s.tail else s)).map fun p => (ofDecimal neg p.1.1 p.1.2, p.2)

example : readNumber (js "-1e+23,") = some (⟨0xc4b52d02c7e14af6⟩, js ",") := by decide +kernel

theorem readFraction_of_stops {rest : JsString} (h : Stops rest) :
    readFraction rest = some ([], rest) := by
  cases rest with
  | nil => rfl
  | cons c rest =>
    have hc : c ≠ 0x2e := by
      rintro rfl
      exact absurd (h _ rfl) (by decide)
    rw [readFraction, if_neg hc]

theorem readFraction_point {fp rest : JsString} (hfp : fp.all isDigit = true) (hne : fp ≠ [])
    (h : ∀ c ∈ rest.head?, isDigit c = false) :
    readFraction (0x2e :: (fp ++ rest)) = some (fp, rest) := by
  rw [readFraction, if_pos rfl, takeWhile_of_all hfp h, dropWhile_of_all hfp h]
  exact if_neg (by simpa using hne)

theorem readFraction_of_exponent {e : Int} (tail : JsString) :
    readFraction ((if 0 ≤ e then js "e+" else js "e-") ++ tail) =
      some ([], (if 0 ≤ e then js "e+" else js "e-") ++ tail) := by
  split <;> rfl

theorem readExponent_of_stops {rest : JsString} (h : Stops rest) :
    readExponent rest = some (0, rest) := by
  cases rest with
  | nil => rfl
  | cons c rest =>
    have hc : ¬ (c = 0x65 ∨ c = 0x45) := by
      rintro (rfl | rfl) <;> exact absurd (h _ rfl) (by decide)
    rw [readExponent, if_neg hc]

/-- The exponent that `toString` writes. -/
theorem readExponent_mark {e : Int} {rest : JsString} (h : Stops rest) :
    readExponent ((if 0 ≤ e then js "e+" else js "e-") ++ (decimalDigits e.natAbs ++ rest)) =
      some (e, rest) := by
  have hds := all_isDigit_decimalDigits e.natAbs
  have hne : (decimalDigits e.natAbs).isEmpty = false := by
    simpa using decimalDigits_ne_nil e.natAbs
  by_cases he : 0 ≤ e
  · rw [if_pos he, show js "e+" = [0x65, 0x2b] from rfl, List.cons_append, List.cons_append,
      List.nil_append, readExponent, if_pos (.inl rfl)]
    have hplus : ¬ (some (0x2b : CodeUnit) = some 0x2d) := by decide
    simp only [List.head?_cons, List.tail_cons, hplus, or_true, if_true, if_false]
    rw [takeWhile_of_all hds h.not_digit, dropWhile_of_all hds h.not_digit, hne,
      digitsVal_decimalDigits, if_neg (by decide), Int.natAbs_of_nonneg he]
  · rw [if_neg he, show js "e-" = [0x65, 0x2d] from rfl, List.cons_append, List.cons_append,
      List.nil_append, readExponent, if_pos (.inl rfl)]
    simp only [List.head?_cons, List.tail_cons, true_or, if_true]
    rw [takeWhile_of_all hds h.not_digit, dropWhile_of_all hds h.not_digit, hne,
      digitsVal_decimalDigits, if_neg (by decide)]
    rw [show -(e.natAbs : Int) = e by omega]

theorem readDecimal_of {ip fr ex rest fp : JsString} {e : Int} (hip : ip.all isDigit = true)
    (hne : ip ≠ []) (hlead : ip.length = 1 ∨ ip.head? ≠ some 0x30)
    (hfirst : ∀ c ∈ fr.head?, isDigit c = false) (hfr : readFraction fr = some (fp, ex))
    (hex : readExponent ex = some (e, rest)) :
    readDecimal (ip ++ fr) = some ((digitsVal (ip ++ fp), e - fp.length), rest) := by
  unfold readDecimal
  simp only
  rw [takeWhile_of_all hip hfirst, dropWhile_of_all hip hfirst, hfr, Option.bind_some]
  simp only
  rw [hex, Option.map_some, if_neg]
  intro h
  rcases Bool.or_eq_true_iff.1 h with h | h
  · exact hne (List.isEmpty_iff.1 h)
  · rw [Bool.and_eq_true, bne_iff_ne, beq_iff_eq] at h
    exact hlead.elim h.1 fun hl => hl h.2

/-! ## Reading back what is printed -/

theorem stops_exponent {e : Int} (tail : JsString) :
    ∀ c ∈ ((if 0 ≤ e then js "e+" else js "e-") ++ tail).head?, isDigit c = false := by
  intro c hc
  split at hc <;> · obtain rfl := Option.mem_some_iff.1 hc; decide

theorem all_isDigit_take {ds : JsString} (h : ds.all isDigit = true) (i : Nat) :
    (ds.take i).all isDigit = true :=
  List.all_eq_true.2 fun c hc => List.all_eq_true.1 h c (List.mem_of_mem_take hc)

theorem all_isDigit_drop {ds : JsString} (h : ds.all isDigit = true) (i : Nat) :
    (ds.drop i).all isDigit = true :=
  List.all_eq_true.2 fun c hc => List.all_eq_true.1 h c (List.mem_of_mem_drop hc)

/-- The four layouts of `Number::toString` have the value of the digits at the point position. -/
theorem readDecimal_layout {s k : Nat} {n : Int} {rest : JsString} (hk : 1 ≤ k)
    (h1 : 10 ^ (k - 1) ≤ s) (h2 : s < 10 ^ k) (hr : Stops rest) :
    ∃ (m : Nat) (e : Int),
      readDecimal (layout (decimalDigits s) n ++ rest) = some ((m, e), rest) ∧
        (m : ℚ) * (10 : ℚ) ^ e = s * (10 : ℚ) ^ (n - k) := by
  have hlen := length_decimalDigits hk h1 h2
  have hdig := all_isDigit_decimalDigits s
  have hval := digitsVal_decimalDigits s
  have hhead := head_decimalDigits (n := s) (lt_of_lt_of_le (Nat.pow_pos (by decide)) h1)
  generalize decimalDigits s = ds at hlen hdig hval hhead
  have hne : ds ≠ [] := List.ne_nil_of_length_pos (by omega)
  have htake : ∀ i, 0 < i → ds.take i ≠ [] ∧ (ds.take i).head? ≠ some 0x30 := by
    intro i hi
    refine ⟨List.ne_nil_of_length_pos (by rw [List.length_take]; omega), ?_⟩
    rwa [List.head?_take, if_neg (by omega)]
  unfold layout
  simp only [hlen]
  generalize hmark : (if 0 ≤ n - 1 then js "e+" else js "e-") = mark
  split_ifs with hA hB hC hD
  · -- all digits before the point
    obtain ⟨j, hj⟩ : ∃ j : Nat, n - k = j := ⟨(n - k).toNat, by omega⟩
    have hip : (ds ++ List.replicate (n - k).toNat 0x30).all isDigit = true := by
      rw [List.all_append, hdig, all_isDigit_zeros]
      rfl
    refine ⟨_, _, readDecimal_of hip (by simp [hne]) (.inr ?_) hr.not_digit
      (readFraction_of_stops hr) (readExponent_of_stops hr), ?_⟩
    · rwa [List.head?_append_of_ne_nil _ hne]
    · rw [List.append_nil, digitsVal_append, digitsVal_zeros, hval, List.length_replicate, hj]
      simp
  · -- the point inside the digits
    obtain ⟨i, rfl⟩ : ∃ i : Nat, n = i := ⟨n.toNat, by omega⟩
    rw [Int.toNat_natCast]
    have hfp : ds.drop i ≠ [] := List.ne_nil_of_length_pos (by rw [List.length_drop]; omega)
    obtain ⟨ht, hh⟩ := htake i (by omega)
    have hfr := readFraction_point (all_isDigit_drop hdig i) hfp hr.not_digit
    rw [List.append_assoc, List.append_assoc]
    refine ⟨_, _, readDecimal_of (all_isDigit_take hdig i) ht (.inr hh) ?_ hfr
      (readExponent_of_stops hr), ?_⟩
    · intro c hc
      obtain rfl := Option.mem_some_iff.1 hc
      decide
    · rw [List.take_append_drop, hval, List.length_drop, hlen]
      congr 2
      omega
  · -- zeros after the point
    have hfp : (List.replicate (-n).toNat 0x30 ++ ds).all isDigit = true := by
      rw [List.all_append, hdig, all_isDigit_zeros]
      rfl
    have hfr := readFraction_point hfp (by simp [hne]) hr.not_digit
    have htext : js "0." ++ List.replicate (-n).toNat 0x30 ++ ds ++ rest =
        [0x30] ++ 0x2e :: ((List.replicate (-n).toNat 0x30 ++ ds) ++ rest) := by
      rw [List.append_assoc, List.append_assoc, List.append_assoc]
      rfl
    rw [htext]
    refine ⟨_, _, readDecimal_of (by decide) (by decide) (.inl rfl) ?_ hfr
      (readExponent_of_stops hr), ?_⟩
    · intro c hc
      obtain rfl := Option.mem_some_iff.1 hc
      decide
    · rw [digitsVal_append, digitsVal_append, digitsVal_zeros, hval, List.length_append,
        List.length_replicate, hlen, show digitsVal [0x30] = 0 from rfl, Nat.zero_mul, Nat.zero_mul,
        Nat.zero_add, Nat.zero_add]
      congr 2
      omega
  · -- one digit and an exponent
    rw [List.append_assoc, List.append_assoc, ← hmark]
    refine ⟨_, _, readDecimal_of hdig hne (.inl (by omega)) (stops_exponent _)
      (readFraction_of_exponent _) (readExponent_mark hr), ?_⟩
    rw [List.append_nil, hval]
    congr 2
    rw [List.length_nil]
    omega
  · -- the point after the first digit, and an exponent
    have hfp : ds.drop 1 ≠ [] := List.ne_nil_of_length_pos (by rw [List.length_drop]; omega)
    obtain ⟨ht, hh⟩ := htake 1 (by omega)
    have hfr := readFraction_point (all_isDigit_drop hdig 1) hfp
      (stops_exponent (e := n - 1) (decimalDigits (n - 1).natAbs ++ rest))
    simp only [List.append_assoc, ← hmark]
    refine ⟨_, _, readDecimal_of (all_isDigit_take hdig 1) ht (.inr hh) ?_ hfr
      (readExponent_mark hr), ?_⟩
    · intro c hc
      obtain rfl := Option.mem_some_iff.1 hc
      decide
    · rw [List.take_append_drop, hval, List.length_drop, hlen]
      congr 2
      omega

theorem head_of_readDecimal {s : JsString} {p : (Nat × Int) × JsString}
    (h : readDecimal s = some p) : ∃ c, s.head? = some c ∧ isDigit c = true := by
  unfold readDecimal at h
  cases s with
  | nil => cases h
  | cons c s =>
    refine ⟨c, rfl, ?_⟩
    by_contra hc
    rw [List.takeWhile_cons_of_neg hc] at h
    cases h

/-- A numeral starts with a digit or a minus sign. -/
theorem head_of_readNumber {s : JsString} {p : Number × JsString} (h : readNumber s = some p) :
    ∃ c, s.head? = some c ∧ (isDigit c = true ∨ c = 0x2d) := by
  unfold readNumber at h
  by_cases hneg : s.head? = some 0x2d
  · exact ⟨_, hneg, .inr rfl⟩
  · simp only [hneg, decide_false, Bool.false_eq_true, if_false] at h
    obtain ⟨q, hq, -⟩ := Option.map_eq_some_iff.1 h
    obtain ⟨c, hc, hd⟩ := head_of_readDecimal hq
    exact ⟨c, hc, .inl hd⟩

theorem readNumber_sign (neg : Bool) {s rest : JsString} {m : Nat} {e : Int}
    (h : readDecimal s = some ((m, e), rest)) :
    readNumber ((if neg then js "-" else []) ++ s) = some (ofDecimal neg m e, rest) := by
  obtain ⟨c, hc, hd⟩ := head_of_readDecimal h
  unfold readNumber
  cases neg with
  | true =>
    change (readDecimal s).map (fun p => (ofDecimal true p.1.1 p.1.2, p.2)) = _
    rw [h]
    rfl
  | false =>
    have hne : ¬ s.head? = some 0x2d := by
      rw [hc]
      intro he
      rw [Option.some.inj he] at hd
      exact absurd hd (by decide)
    rw [if_neg (by decide), List.nil_append]
    simp only [hne, decide_false, Bool.false_eq_true, if_false]
    rw [h]
    rfl

/-- **A printed number is read back**, whatever text follows, but for the sign of zero. -/
theorem readNumber_toString {x : Number} (hf : x.isFinite = true) {rest : JsString}
    (hr : Stops rest) :
    readNumber (x.toString ++ rest) = some (if x.mantissa = 0 then ⟨0⟩ else x, rest) := by
  by_cases hx : x.mantissa = 0
  · have hzero : ofDecimal false 0 0 = ⟨0⟩ := by decide +kernel
    have hread : readDecimal (js "0" ++ rest) = some ((0, 0), rest) :=
      readDecimal_of (by decide) (by decide) (.inl rfl) hr.not_digit (readFraction_of_stops hr)
        (readExponent_of_stops hr)
    rw [if_pos hx, toString, if_pos hx]
    have hn := readNumber_sign false hread
    rw [← hzero]
    exact hn
  · obtain ⟨s, k, n, hp⟩ := exists_isPrinted hx hf
    obtain ⟨m, e, hread, hval⟩ := readDecimal_layout hp.one_le hp.low hp.high hr
    have hcell := hp.cell
    rw [← hval] at hcell
    rw [if_neg hx, hp.toString_eq, List.append_assoc, readNumber_sign _ hread,
      ofDecimal_of_inCell hf hcell]

/-! ## The characters of a numeral -/

theorem all_isNumeralUnit_digits {ds : JsString} (h : ds.all isDigit = true) :
    ds.all isNumeralUnit = true :=
  List.all_eq_true.2 fun c hc => by
    unfold isNumeralUnit
    rw [List.all_eq_true.1 h c hc]
    rfl

theorem all_isNumeralUnit_layout {ds : JsString} (h : ds.all isDigit = true) (n : Int) :
    (layout ds n).all isNumeralUnit = true := by
  have htake := fun i => all_isNumeralUnit_digits (all_isDigit_take h i)
  have hdrop := fun i => all_isNumeralUnit_digits (all_isDigit_drop h i)
  have hzeros := fun m => all_isNumeralUnit_digits (all_isDigit_zeros m)
  have hds := all_isNumeralUnit_digits h
  have hexp := all_isNumeralUnit_digits (all_isDigit_decimalDigits (n - 1).natAbs)
  unfold layout
  simp only
  split_ifs
  all_goals
    simp only [List.all_append, htake, hdrop, hzeros, hds, hexp, Bool.and_true, Bool.true_and]
  all_goals rfl

theorem all_isNumeralUnit_sign (neg : Bool) {s : JsString} (h : s.all isNumeralUnit = true) :
    ((if neg then js "-" else []) ++ s).all isNumeralUnit = true := by
  rw [List.all_append, h, Bool.and_true]
  cases neg <;> rfl

theorem all_isNumeralUnit_toString {x : Number} (hf : x.isFinite = true) :
    x.toString.all isNumeralUnit = true := by
  by_cases hx : x.mantissa = 0
  · rw [toString, if_pos hx]
    rfl
  · obtain ⟨s, k, n, hp⟩ := exists_isPrinted hx hf
    rw [hp.toString_eq]
    exact all_isNumeralUnit_sign _ (all_isNumeralUnit_layout (all_isDigit_decimalDigits s) n)

end Number

end TangentFeed
