import TangentFeed.Js.Parse

/-!
# UTF-8 determines well-formed text

`textEncode` replaces a lone surrogate; on strings without one it is injective, and
`textDecode` is its inverse. `JSON.stringify` escapes lone surrogates, so its texts
are such strings.
-/

namespace TangentFeed

/-- `s.isWellFormed()`: no lone surrogate. -/
def isWellFormed : JsString → Bool
  | [] => true
  | [c] => !isHighSurrogate c && !isLowSurrogate c
  | c :: d :: rest =>
    if isHighSurrogate c then isLowSurrogate d && isWellFormed rest
    else !isLowSurrogate c && isWellFormed (d :: rest)

/-- The code units of a code point. -/
def unitsOf (n : Nat) : JsString :=
  if n < 0x10000 then [Fin.ofNat 65536 n]
  else [Fin.ofNat 65536 (0xd800 + (n - 0x10000) / 0x400),
    Fin.ofNat 65536 (0xdc00 + (n - 0x10000) % 0x400)]

theorem unitsOf_unit (c : CodeUnit) : unitsOf c.val = [c] := by
  rw [unitsOf, if_pos c.isLt, Fin.ofNat_val_eq_self]

theorem unitsOf_pair {c d : CodeUnit} (hc : isHighSurrogate c = true)
    (hd : isLowSurrogate d = true) :
    unitsOf (0x10000 + (c.val - 0xd800) * 0x400 + (d.val - 0xdc00)) = [c, d] := by
  unfold isHighSurrogate at hc
  unfold isLowSurrogate at hd
  simp only [Bool.and_eq_true, decide_eq_true_eq] at hc hd
  have h1 : (0x10000 + (c.val - 0xd800) * 0x400 + (d.val - 0xdc00) - 0x10000) / 0x400 =
      c.val - 0xd800 := by omega
  have h2 : (0x10000 + (c.val - 0xd800) * 0x400 + (d.val - 0xdc00) - 0x10000) % 0x400 =
      d.val - 0xdc00 := by omega
  rw [unitsOf, if_neg (by omega), h1, h2, Nat.add_sub_cancel' hc.1, Nat.add_sub_cancel' hd.1,
    Fin.ofNat_val_eq_self, Fin.ofNat_val_eq_self]

theorem length_utf8Char_pos (n : Nat) : 1 ≤ (utf8Char n).length := by
  unfold utf8Char
  split_ifs <;> exact Nat.le_add_left 1 _

/-- A string has no more code units than bytes. -/
theorem length_le_textEncode (s : JsString) : s.length ≤ (textEncode s).length := by
  unfold textEncode
  induction s using codePoints.induct with
  | case1 => exact Nat.le_refl 0
  | case2 c =>
    rw [codePoints, List.flatMap_singleton]
    exact length_utf8Char_pos _
  | case3 c d rest hc hd ih =>
    rw [codePoints, if_pos hc, if_pos hd, List.flatMap_cons, List.length_append, utf8Char,
      if_neg (by omega), if_neg (by omega), if_neg (by omega)]
    simp only [List.length_cons, List.length_nil]
    omega
  | case4 c d rest hc hd ih =>
    have := length_utf8Char_pos 0xfffd
    rw [codePoints, if_pos hc, if_neg hd, List.flatMap_cons, List.length_append, List.length_cons]
    omega
  | case5 c d rest hc ih =>
    have := length_utf8Char_pos (if isLowSurrogate c then 0xfffd else c.val)
    rw [codePoints, if_neg hc, List.flatMap_cons, List.length_append, List.length_cons]
    omega

/-- The bytes of text without surrogates. -/
theorem textEncode_of_lt {s : JsString} (h : ∀ c ∈ s, c.val < 0xd800) :
    textEncode s = s.flatMap fun c => utf8Char c.val := by
  have hsur : ∀ {c : CodeUnit}, c.val < 0xd800 →
      isHighSurrogate c = false ∧ isLowSurrogate c = false := by
    intro c hc
    unfold isHighSurrogate isLowSurrogate
    simp only [Bool.and_eq_false_iff, decide_eq_false_iff_not]
    omega
  unfold textEncode
  induction s using codePoints.induct with
  | case1 => rfl
  | case2 c =>
    obtain ⟨hh, hl⟩ := hsur (h c List.mem_cons_self)
    rw [codePoints, hh, hl]
    rfl
  | case3 c d rest hc hd ih =>
    rw [(hsur (h c List.mem_cons_self)).1] at hc
    cases hc
  | case4 c d rest hc hd ih =>
    rw [(hsur (h c List.mem_cons_self)).1] at hc
    cases hc
  | case5 c d rest hc ih =>
    rw [codePoints, if_neg hc, (hsur (h c List.mem_cons_self)).2, if_neg (by decide),
      List.flatMap_cons, ih fun x hx => h x (List.mem_cons_of_mem c hx)]
    rfl

/-- The code points of well-formed text are those of its characters. -/
theorem flatMap_unitsOf {s : JsString} (h : isWellFormed s = true) :
    (codePoints s).flatMap unitsOf = s := by
  induction s using codePoints.induct with
  | case1 => rfl
  | case2 c =>
    rw [isWellFormed, Bool.and_eq_true, Bool.not_eq_true', Bool.not_eq_true'] at h
    rw [codePoints, h.1, h.2, if_neg (by decide), List.flatMap_singleton, unitsOf_unit]
  | case3 c d rest hc hd ih =>
    rw [isWellFormed, if_pos hc, hd, Bool.true_and] at h
    rw [codePoints, if_pos hc, if_pos hd, List.flatMap_cons, ih h, unitsOf_pair hc hd]
    rfl
  | case4 c d rest hc hd ih =>
    rw [isWellFormed, if_pos hc, Bool.and_eq_true] at h
    exact absurd h.1 hd
  | case5 c d rest hc ih =>
    rw [isWellFormed, if_neg hc, Bool.and_eq_true, Bool.not_eq_true'] at h
    rw [codePoints, if_neg hc, h.1, List.flatMap_cons, ih h.2]
    exact congrArg (· ++ d :: rest) (unitsOf_unit c)

/-- No code point of a string is a surrogate. -/
theorem codePoints_scalar (s : JsString) :
    ∀ n ∈ codePoints s, n < 0x110000 ∧ ¬ (0xd800 ≤ n ∧ n < 0xe000) := by
  induction s using codePoints.induct with
  | case1 => nofun
  | case2 c =>
    intro n hn
    have := c.isLt
    rw [codePoints, List.mem_singleton] at hn
    unfold isHighSurrogate isLowSurrogate at hn
    simp only [Bool.or_eq_true, Bool.and_eq_true, decide_eq_true_eq] at hn
    split at hn <;> omega
  | case3 c d rest hc hd ih =>
    intro n hn
    rw [codePoints, if_pos hc, if_pos hd] at hn
    unfold isHighSurrogate at hc
    unfold isLowSurrogate at hd
    simp only [Bool.and_eq_true, decide_eq_true_eq] at hc hd
    rcases List.mem_cons.1 hn with he | hn
    · omega
    · exact ih n hn
  | case4 c d rest hc hd ih =>
    intro n hn
    rw [codePoints, if_pos hc, if_neg hd] at hn
    rcases List.mem_cons.1 hn with rfl | hn
    · decide
    · exact ih n hn
  | case5 c d rest hc ih =>
    intro n hn
    have := c.isLt
    rw [codePoints, if_neg hc] at hn
    rcases List.mem_cons.1 hn with rfl | hn
    · unfold isHighSurrogate at hc
      unfold isLowSurrogate
      simp only [Bool.and_eq_true, decide_eq_true_eq] at hc ⊢
      split <;> omega
    · exact ih n hn

theorem ofNat_byte_inj {m n : Nat} (hm : m < 256) (hn : n < 256)
    (h : (Fin.ofNat 256 m : Byte) = Fin.ofNat 256 n) : m = n := by
  have hv := congrArg Fin.val h
  rwa [Fin.val_ofNat, Fin.val_ofNat, Nat.mod_eq_of_lt hm, Nat.mod_eq_of_lt hn] at hv

/-- The characters of UTF-8 delimit themselves. -/
theorem utf8Char_append_inj {m n : Nat} (hm : m < 0x110000) (hn : n < 0x110000) {s t : Bytes}
    (h : utf8Char m ++ s = utf8Char n ++ t) : m = n ∧ s = t := by
  unfold utf8Char at h
  split_ifs at h
  all_goals
    simp only [List.cons_append, List.nil_append, List.cons.injEq] at h
  · exact ⟨ofNat_byte_inj (by omega) (by omega) h.1, h.2⟩
  · have := ofNat_byte_inj (by omega) (by omega) h.1; omega
  · have := ofNat_byte_inj (by omega) (by omega) h.1; omega
  · have := ofNat_byte_inj (by omega) (by omega) h.1; omega
  · have := ofNat_byte_inj (by omega) (by omega) h.1; omega
  · have h1 := ofNat_byte_inj (by omega) (by omega) h.1
    have h2 := ofNat_byte_inj (by omega) (by omega) h.2.1
    exact ⟨by omega, h.2.2⟩
  · have := ofNat_byte_inj (by omega) (by omega) h.1; omega
  · have := ofNat_byte_inj (by omega) (by omega) h.1; omega
  · have := ofNat_byte_inj (by omega) (by omega) h.1; omega
  · have := ofNat_byte_inj (by omega) (by omega) h.1; omega
  · have h1 := ofNat_byte_inj (by omega) (by omega) h.1
    have h2 := ofNat_byte_inj (by omega) (by omega) h.2.1
    have h3 := ofNat_byte_inj (by omega) (by omega) h.2.2.1
    exact ⟨by omega, h.2.2.2⟩
  · have := ofNat_byte_inj (by omega) (by omega) h.1; omega
  · have := ofNat_byte_inj (by omega) (by omega) h.1; omega
  · have := ofNat_byte_inj (by omega) (by omega) h.1; omega
  · have := ofNat_byte_inj (by omega) (by omega) h.1; omega
  · have h1 := ofNat_byte_inj (by omega) (by omega) h.1
    have h2 := ofNat_byte_inj (by omega) (by omega) h.2.1
    have h3 := ofNat_byte_inj (by omega) (by omega) h.2.2.1
    have h4 := ofNat_byte_inj (by omega) (by omega) h.2.2.2.1
    exact ⟨by omega, h.2.2.2.2⟩

theorem flatMap_utf8Char_inj {l l' : List Nat} (hl : ∀ n ∈ l, n < 0x110000)
    (hl' : ∀ n ∈ l', n < 0x110000) (h : l.flatMap utf8Char = l'.flatMap utf8Char) : l = l' := by
  have hne : ∀ n, utf8Char n ≠ [] := by
    intro n
    unfold utf8Char
    split_ifs <;> exact List.cons_ne_nil _ _
  induction l generalizing l' with
  | nil =>
    cases l' with
    | nil => rfl
    | cons n l' =>
      rw [List.flatMap_nil, List.flatMap_cons] at h
      exact absurd (List.append_eq_nil_iff.1 h.symm).1 (hne n)
  | cons m l ih =>
    cases l' with
    | nil =>
      rw [List.flatMap_nil, List.flatMap_cons] at h
      exact absurd (List.append_eq_nil_iff.1 h).1 (hne m)
    | cons n l' =>
      rw [List.flatMap_cons, List.flatMap_cons] at h
      obtain ⟨rfl, hrest⟩ := utf8Char_append_inj (hl m List.mem_cons_self)
        (hl' n List.mem_cons_self) h
      rw [ih (fun x hx => hl x (List.mem_cons_of_mem _ hx))
        (fun x hx => hl' x (List.mem_cons_of_mem _ hx)) hrest]

/-- **Well-formed texts with the same bytes are equal.** -/
theorem textEncode_inj {s t : JsString} (hs : isWellFormed s = true) (ht : isWellFormed t = true)
    (h : textEncode s = textEncode t) : s = t := by
  have hc := flatMap_utf8Char_inj (fun n hn => (codePoints_scalar s n hn).1)
    (fun n hn => (codePoints_scalar t n hn).1) h
  rw [← flatMap_unitsOf hs, hc, flatMap_unitsOf ht]

/-! ## Decoding -/

/-- `n` continuation bytes, of which the first is between `low` and `high`. A byte that
is none is read again as a first byte. -/
def readTail : (n low high : Nat) → (point : Nat) → Bytes → Option Nat × Bytes
  | 0, _, _, point, s => (some point, s)
  | _ + 1, _, _, _, [] => (none, [])
  | n + 1, low, high, point, b :: s =>
    if low ≤ b.val ∧ b.val ≤ high then readTail n 0x80 0xbf (point * 64 + b.val % 64) s
    else (none, b :: s)

/-- The continuation that a first byte asks for. -/
def readChar (b : Byte) (s : Bytes) : Option Nat × Bytes :=
  if b.val < 0x80 then (some b.val, s)
  else if 0xc2 ≤ b.val ∧ b.val ≤ 0xdf then readTail 1 0x80 0xbf (b.val % 32) s
  else if 0xe0 ≤ b.val ∧ b.val ≤ 0xef then
    readTail 2 (if b.val = 0xe0 then 0xa0 else 0x80) (if b.val = 0xed then 0x9f else 0xbf)
      (b.val % 16) s
  else if 0xf0 ≤ b.val ∧ b.val ≤ 0xf4 then
    readTail 3 (if b.val = 0xf0 then 0x90 else 0x80) (if b.val = 0xf4 then 0x8f else 0xbf)
      (b.val % 8) s
  else (none, s)

/-- The code points of UTF-8, an error read as U+FFFD; the fuel is the number of bytes. -/
def decodePoints : Nat → Bytes → List Nat
  | 0, _ => []
  | _ + 1, [] => []
  | fuel + 1, b :: s =>
    (readChar b s).1.getD 0xfffd :: decodePoints fuel (readChar b s).2

/-- `new TextDecoder().decode(b)`, which drops a byte order mark. -/
def textDecode (b : Bytes) : JsString :=
  let points := decodePoints b.length b
  (if points.head? = some 0xfeff then points.tail else points).flatMap unitsOf

theorem readTail_cons {n low high point m : Nat} {s : Bytes} (hm : m < 256) (hl : low ≤ m)
    (hh : m ≤ high) :
    readTail (n + 1) low high point (Fin.ofNat 256 m :: s) =
      readTail n 0x80 0xbf (point * 64 + m % 64) s := by
  have hv : (Fin.ofNat 256 m : Byte).val = m := Nat.mod_eq_of_lt hm
  rw [readTail, hv, if_pos ⟨hl, hh⟩]

/-- **A character is read back.** -/
theorem readChar_utf8Char {n : Nat} (hn : n < 0x110000) (hs : ¬ (0xd800 ≤ n ∧ n < 0xe000)) :
    ∃ b t, utf8Char n = b :: t ∧ ∀ s, readChar b (t ++ s) = (some n, s) := by
  have hv : ∀ {m : Nat}, m < 256 → (Fin.ofNat 256 m : Byte).val = m := Nat.mod_eq_of_lt
  unfold utf8Char
  split_ifs with h1 h2 h3
  · refine ⟨_, _, rfl, fun s => ?_⟩
    rw [readChar, hv (by omega), if_pos h1]
    rfl
  · refine ⟨_, _, rfl, fun s => ?_⟩
    rw [readChar, hv (by omega), if_neg (by omega), if_pos (by omega)]
    refine (readTail_cons (by omega) (by omega) (by omega)).trans ?_
    rw [readTail, show (0xc0 + n / 64) % 32 * 64 + (0x80 + n % 64) % 64 = n by omega]
    rfl
  · refine ⟨_, _, rfl, fun s => ?_⟩
    rw [readChar, hv (by omega), if_neg (by omega), if_neg (by omega), if_pos (by omega)]
    refine (readTail_cons (by omega) (by split <;> omega) (by split <;> omega)).trans ?_
    refine (readTail_cons (by omega) (by omega) (by omega)).trans ?_
    rw [readTail, show ((0xe0 + n / 4096) % 16 * 64 + (0x80 + n / 64 % 64) % 64) * 64 +
      (0x80 + n % 64) % 64 = n by omega]
    rfl
  · refine ⟨_, _, rfl, fun s => ?_⟩
    rw [readChar, hv (by omega), if_neg (by omega), if_neg (by omega), if_neg (by omega),
      if_pos (by omega)]
    refine (readTail_cons (by omega) (by split <;> omega) (by split <;> omega)).trans ?_
    refine (readTail_cons (by omega) (by omega) (by omega)).trans ?_
    refine (readTail_cons (by omega) (by omega) (by omega)).trans ?_
    rw [readTail, show (((0xf0 + n / 262144) % 8 * 64 + (0x80 + n / 4096 % 64) % 64) * 64 +
      (0x80 + n / 64 % 64) % 64) * 64 + (0x80 + n % 64) % 64 = n by omega]
    rfl

theorem decodePoints_flatMap {l : List Nat}
    (hl : ∀ n ∈ l, n < 0x110000 ∧ ¬ (0xd800 ≤ n ∧ n < 0xe000)) {fuel : Nat}
    (hf : (l.flatMap utf8Char).length ≤ fuel) : decodePoints fuel (l.flatMap utf8Char) = l := by
  induction l generalizing fuel with
  | nil => cases fuel <;> rfl
  | cons n l ih =>
    obtain ⟨hn, hs⟩ := hl n List.mem_cons_self
    obtain ⟨b, t, hchar, hread⟩ := readChar_utf8Char hn hs
    rw [List.flatMap_cons, hchar, List.cons_append, List.length_cons, List.length_append] at hf
    cases fuel with
    | zero => omega
    | succ fuel =>
      rw [List.flatMap_cons, hchar, List.cons_append, decodePoints, hread]
      exact congrArg (n :: ·) (ih (fun m hm => hl m (List.mem_cons_of_mem n hm)) (by omega))

theorem head_codePoints {s : JsString} (h : (codePoints s).head? = some 0xfeff) :
    s.head? = some 0xfeff := by
  have hunit : ∀ {c : CodeUnit} {l : List Nat},
      ((if isHighSurrogate c || isLowSurrogate c then 0xfffd else c.val) :: l).head? = some 0xfeff →
        some c = some 0xfeff := by
    intro c l h
    rw [List.head?_cons, Option.some.injEq] at h
    split at h
    · cases h
    · exact congrArg some (Fin.ext h)
  match s with
  | [] => cases h
  | [c] => exact hunit h
  | c :: d :: rest =>
    rw [codePoints] at h
    by_cases hc : isHighSurrogate c = true
    · rw [if_pos hc] at h
      split at h
      · rw [List.head?_cons, Option.some.injEq] at h
        omega
      · cases h
    · rw [if_neg hc] at h
      refine @hunit c (codePoints (d :: rest)) ?_
      rwa [Bool.eq_false_iff.2 hc, Bool.false_or]

/-- **Well-formed text is read back**, unless it starts with a byte order mark. -/
theorem textDecode_textEncode {s : JsString} (hs : isWellFormed s = true)
    (hbom : (codePoints s).head? ≠ some 0xfeff) : textDecode (textEncode s) = s := by
  have hread : decodePoints (textEncode s).length (textEncode s) = codePoints s :=
    decodePoints_flatMap (codePoints_scalar s) (Nat.le_refl _)
  rw [textDecode, hread, if_neg hbom, flatMap_unitsOf hs]

/-! ## `JSON.stringify` is well-formed -/

theorem isWellFormed_append {s t : JsString} (hs : isWellFormed s = true)
    (ht : isWellFormed t = true) : isWellFormed (s ++ t) = true := by
  induction s using isWellFormed.induct with
  | case1 => exact ht
  | case2 c =>
    cases t with
    | nil => exact hs
    | cons d t =>
      rw [isWellFormed, Bool.and_eq_true, Bool.not_eq_true', Bool.not_eq_true'] at hs
      change isWellFormed (c :: d :: t) = true
      rw [isWellFormed, hs.1, hs.2, ht]
      rfl
  | case3 c d rest hc ih =>
    rw [isWellFormed, if_pos hc, Bool.and_eq_true] at hs
    change isWellFormed (c :: d :: (rest ++ t)) = true
    rw [isWellFormed, if_pos hc, hs.1, ih hs.2]
    rfl
  | case4 c d rest hc ih =>
    rw [isWellFormed, if_neg hc, Bool.and_eq_true] at hs
    change isWellFormed (c :: d :: (rest ++ t)) = true
    rw [isWellFormed, if_neg hc, hs.1]
    exact ih hs.2

theorem isWellFormed_unit {c : CodeUnit} (h : c.val < 0xd800) : isWellFormed [c] = true := by
  have h1 : ¬ 0xd800 ≤ c.val := by omega
  have h2 : ¬ 0xdc00 ≤ c.val := by omega
  unfold isWellFormed isHighSurrogate isLowSurrogate
  rw [decide_eq_false h1, decide_eq_false h2]
  rfl

theorem isWellFormed_of_lt {s : JsString} (h : ∀ c ∈ s, c.val < 0xd800) :
    isWellFormed s = true := by
  induction s with
  | nil => rfl
  | cons c s ih =>
    exact isWellFormed_append (isWellFormed_unit (h c List.mem_cons_self))
      (ih fun d hd => h d (List.mem_cons_of_mem c hd))

theorem isWellFormed_numeral {s : JsString} (h : s.all isNumeralUnit = true) :
    isWellFormed s = true :=
  isWellFormed_of_lt fun c hc => by
    have hu := List.all_eq_true.1 h c hc
    by_contra hge
    have hne : ∀ d : CodeUnit, d.val < 0xd800 → (c == d) = false := by
      intro d hd
      rw [beq_eq_false_iff_ne]
      rintro rfl
      omega
    have hdigit : isDigit c = false := by
      unfold isDigit
      rw [Bool.and_eq_false_iff, decide_eq_false_iff_not, decide_eq_false_iff_not]
      exact .inr (by omega)
    unfold isNumeralUnit at hu
    rw [hdigit, hne _ (by decide), hne _ (by decide), hne _ (by decide), hne _ (by decide),
      hne _ (by decide)] at hu
    cases hu

theorem isWellFormed_intercalate {sep : JsString} (hsep : isWellFormed sep = true)
    {l : List JsString} (h : ∀ s ∈ l, isWellFormed s = true) :
    isWellFormed (sep.intercalate l) = true := by
  induction l with
  | nil => rfl
  | cons s l ih =>
    have hs := h s List.mem_cons_self
    cases l with
    | nil =>
      rw [List.intercalate_singleton]
      exact hs
    | cons t l =>
      rw [List.intercalate_cons_cons]
      exact isWellFormed_append (isWellFormed_append hs hsep)
        (ih fun u hu => h u (List.mem_cons_of_mem s hu))

namespace Json

theorem isWellFormed_quoteUnit (c : CodeUnit) : isWellFormed (quoteUnit c) = true := by
  unfold quoteUnit
  split_ifs with h1 h2 h3 h4 h5 h6 h7 h8
  · decide
  · decide
  · decide
  · decide
  · decide
  · decide
  · decide
  · have hpad : padStart 4 0x30 (toString16 c.val) = hexFixed 4 c.val :=
      padStart_toString16 (by decide) c.isLt
    unfold unicodeEscape
    rw [hpad]
    refine isWellFormed_append (by decide) (isWellFormed_of_lt fun d hd => ?_)
    have hx := List.all_eq_true.1 (all_isLowerHex_hexFixed 4 c.val) d hd
    unfold isLowerHex at hx
    simp only [Bool.or_eq_true, Bool.and_eq_true, decide_eq_true_eq] at hx
    omega
  · simp only [Bool.or_eq_true, not_or, Bool.not_eq_true] at h8
    rw [isWellFormed, h8.1.2, h8.2]
    rfl

theorem isWellFormed_quote (s : JsString) : isWellFormed (quote s) = true := by
  suffices h : isWellFormed (quoteUnits s) = true from
    isWellFormed_append (isWellFormed_append (by decide) h) (by decide)
  induction s using quoteUnits.induct with
  | case1 => rfl
  | case2 c => exact isWellFormed_quoteUnit c
  | case3 c d s hpair ih =>
    rw [quoteUnits, if_pos hpair]
    rw [Bool.and_eq_true] at hpair
    rw [isWellFormed, if_pos hpair.1, hpair.2, ih]
    rfl
  | case4 c d s hpair ih =>
    rw [quoteUnits, if_neg hpair]
    exact isWellFormed_append (isWellFormed_quoteUnit c) ih

/-- A document is well-formed text if its numerals are. -/
theorem isWellFormed_write {μ : Type} {text : μ → JsString}
    (h : ∀ n, isWellFormed (text n) = true) (t : Doc μ) :
    isWellFormed (t.map text).write = true := by
  induction t using Doc.ind with
  | null => exact (by decide : isWellFormed (js "null") = true)
  | bool b =>
    cases b with
    | true => exact (by decide : isWellFormed (js "true") = true)
    | false => exact (by decide : isWellFormed (js "false") = true)
  | num n => exact h n
  | str s => exact isWellFormed_quote s
  | arr xs ih =>
    rw [Doc.map_arr, Doc.write_arr, List.map_map]
    exact isWellFormed_append (isWellFormed_append (by decide)
      (isWellFormed_intercalate (by decide) (List.forall_mem_map.2 ih))) (by decide)
  | obj fs ih =>
    rw [Doc.map_obj, Doc.write_obj, List.map_map]
    refine isWellFormed_append (isWellFormed_append (by decide)
      (isWellFormed_intercalate (by decide) (List.forall_mem_map.2 fun f hf => ?_))) (by decide)
    exact isWellFormed_append (isWellFormed_append (isWellFormed_quote f.1) (by decide)) (ih f hf)

/-- JSON starts with an ASCII character. -/
theorem head_write {μ : Type} {text : μ → JsString} (h : ∀ n, StartsNumeral (text n))
    (t : Doc μ) : ∀ c ∈ (t.map text).write.head?, c.val < 0x80 := by
  intro c hc
  cases t with
  | null => obtain rfl := Option.some.inj hc; decide
  | bool b => cases b <;> (obtain rfl := Option.some.inj hc; decide)
  | str s => obtain rfl := Option.some.inj hc; decide
  | num n =>
    obtain ⟨d, rest, htext, hd⟩ := h n
    have hwrite : ((Doc.num n).map text).write = d :: rest := htext
    rw [hwrite] at hc
    obtain rfl := Option.some.inj hc
    rcases hd with hd | rfl
    · unfold isDigit at hd
      simp only [Bool.and_eq_true, decide_eq_true_eq] at hd
      omega
    · decide
  | arr xs =>
    rw [Doc.map_arr, Doc.write_arr] at hc
    obtain rfl := Option.some.inj hc
    decide
  | obj fs =>
    rw [Doc.map_obj, Doc.write_obj] at hc
    obtain rfl := Option.some.inj hc
    decide

end Json

end TangentFeed
