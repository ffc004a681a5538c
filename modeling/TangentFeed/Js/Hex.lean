import Mathlib.Data.List.Induction
import TangentFeed.Js.Text

/-!
# Fixed-width hexadecimal

`hexFixed w n` is `n` in `w` lowercase hexadecimal digits. It is what
`n.toString(16).padStart(w, "0")` gives for `n < 16 ^ w`, it is read back by
`parseHex`, and the order of the strings is the order of the numbers.
-/

namespace TangentFeed

def hexFixed : Nat → Nat → JsString
  | 0, _ => []
  | w + 1, n => hexDigit (n / 16 ^ w % 16) :: hexFixed w n

@[simp] theorem length_hexFixed (w n : Nat) : (hexFixed w n).length = w := by
  induction w with
  | zero => rfl
  | succ w ih => simp [hexFixed, ih]

/-- The last digit splits off. -/
theorem hexFixed_succ (w n : Nat) :
    hexFixed (w + 1) n = hexFixed w (n / 16) ++ [hexDigit (n % 16)] := by
  induction w with
  | zero => simp [hexFixed]
  | succ w ih =>
    rw [hexFixed, ih, hexFixed, List.cons_append, Nat.div_div_eq_div_mul, ← Nat.pow_succ']

theorem hexFixed_zero (w : Nat) : hexFixed w 0 = List.replicate w 0x30 := by
  induction w with
  | zero => rfl
  | succ w ih =>
    rw [hexFixed, ih, List.replicate_succ, Nat.zero_div]
    rfl

/-! ## `toString(16).padStart` -/

theorem digitChar_hexDigit : ∀ d < 16, Fin.ofNat 65536 (Nat.digitChar d).toNat = hexDigit d := by
  decide

theorem toString16_of_lt {n : Nat} (h : n < 16) : toString16 n = [hexDigit n] := by
  rw [toString16, Nat.toDigits_of_lt_base h, List.map_singleton, digitChar_hexDigit n h]

theorem toString16_of_le {n : Nat} (h : 16 ≤ n) :
    toString16 n = toString16 (n / 16) ++ [hexDigit (n % 16)] := by
  unfold toString16
  rw [Nat.toDigits_of_base_le (by decide) h, List.map_append]
  simp only [List.map_cons, List.map_nil]
  rw [digitChar_hexDigit _ (Nat.mod_lt _ (by decide))]

theorem padStart_snoc (w : Nat) (c d : CodeUnit) (s : JsString) :
    padStart (w + 1) c (s ++ [d]) = padStart w c s ++ [d] := by
  simp [padStart]

theorem padStart_toString16 {w n : Nat} (hw : 0 < w) (h : n < 16 ^ w) :
    padStart w 0x30 (toString16 n) = hexFixed w n := by
  induction w generalizing n with
  | zero => omega
  | succ w ih =>
    by_cases hn : n < 16
    · rw [toString16_of_lt hn, hexFixed_succ, Nat.div_eq_of_lt hn, Nat.mod_eq_of_lt hn, hexFixed_zero]
      simp [padStart]
    · have hw' : 0 < w := by
        rcases Nat.eq_zero_or_pos w with rfl | h'
        · omega
        · exact h'
      rw [toString16_of_le (by omega), padStart_snoc, hexFixed_succ, ih hw']
      rw [Nat.pow_succ] at h
      omega

/-! ## Reading back -/

theorem hexVal_hexDigit : ∀ d < 16, hexVal (hexDigit d) = d := by decide

theorem isLowerHex_hexDigit : ∀ d < 16, isLowerHex (hexDigit d) = true := by decide

theorem hexDigit_hexVal {c : CodeUnit} (h : isLowerHex c = true) : hexDigit (hexVal c) = c := by
  simp only [isLowerHex, Bool.or_eq_true, Bool.and_eq_true, decide_eq_true_eq] at h
  unfold hexDigit hexVal
  apply Fin.ext
  simp only [Fin.val_ofNat]
  split_ifs <;> omega

theorem hexVal_lt {c : CodeUnit} (h : isLowerHex c = true) : hexVal c < 16 := by
  simp only [isLowerHex, Bool.or_eq_true, Bool.and_eq_true, decide_eq_true_eq] at h
  unfold hexVal
  split_ifs <;> omega

theorem all_isLowerHex_hexFixed (w n : Nat) : (hexFixed w n).all isLowerHex = true := by
  induction w with
  | zero => rfl
  | succ w ih =>
    rw [hexFixed, List.all_cons, ih, isLowerHex_hexDigit _ (Nat.mod_lt _ (by decide))]
    rfl

theorem parseHex_snoc (s : JsString) (c : CodeUnit) : parseHex (s ++ [c]) = 16 * parseHex s + hexVal c := by
  simp [parseHex]

theorem parseHex_hexFixed (w n : Nat) : parseHex (hexFixed w n) = n % 16 ^ w := by
  induction w generalizing n with
  | zero => simp [hexFixed, parseHex, Nat.mod_one]
  | succ w ih =>
    rw [hexFixed_succ, parseHex_snoc, ih, hexVal_hexDigit _ (Nat.mod_lt _ (by decide)),
      Nat.pow_succ', Nat.mod_mul]
    omega

theorem parseHex_lt {s : JsString} (h : s.all isLowerHex = true) : parseHex s < 16 ^ s.length := by
  induction s using List.reverseRecOn with
  | nil => simp [parseHex]
  | append_singleton s c ih =>
    simp only [List.all_append, List.all_cons, List.all_nil, Bool.and_true, Bool.and_eq_true] at h
    have h1 := ih h.1
    have h2 := hexVal_lt h.2
    rw [parseHex_snoc, List.length_append, List.length_singleton, Nat.pow_succ]
    omega

theorem hexFixed_parseHex {s : JsString} (h : s.all isLowerHex = true) :
    hexFixed s.length (parseHex s) = s := by
  induction s using List.reverseRecOn with
  | nil => rfl
  | append_singleton s c ih =>
    simp only [List.all_append, List.all_cons, List.all_nil, Bool.and_true, Bool.and_eq_true] at h
    have hc := hexVal_lt h.2
    rw [List.length_append, List.length_singleton, hexFixed_succ, parseHex_snoc,
      show (16 * parseHex s + hexVal c) / 16 = parseHex s by omega,
      show (16 * parseHex s + hexVal c) % 16 = hexVal c by omega, ih h.1, hexDigit_hexVal h.2]

theorem hexFixed_inj {w m n : Nat} (hm : m < 16 ^ w) (hn : n < 16 ^ w)
    (h : hexFixed w m = hexFixed w n) : m = n := by
  have := congrArg parseHex h
  rwa [parseHex_hexFixed, parseHex_hexFixed, Nat.mod_eq_of_lt hm, Nat.mod_eq_of_lt hn] at this

/-! ## Order -/

theorem hexDigit_lt : ∀ d < 16, ∀ e < 16, (hexDigit d < hexDigit e ↔ d < e) := by decide

theorem hexFixed_mod (w n : Nat) : hexFixed w (n % 16 ^ w) = hexFixed w n := by
  have h := hexFixed_parseHex (all_isLowerHex_hexFixed w n)
  rwa [length_hexFixed, parseHex_hexFixed] at h

/-- **String order is numeric order.** -/
theorem hexFixed_lt {w m n : Nat} (hm : m < 16 ^ w) (hn : n < 16 ^ w) :
    hexFixed w m < hexFixed w n ↔ m < n := by
  induction w generalizing m n with
  | zero => simp only [Nat.pow_zero, Nat.lt_one_iff] at hm hn; subst hm hn; simp [hexFixed]
  | succ w ih =>
    have hp : 0 < 16 ^ w := Nat.pow_pos (by decide)
    have hm' : m / 16 ^ w < 16 := by rw [Nat.div_lt_iff_lt_mul hp, Nat.mul_comm]; rwa [Nat.pow_succ] at hm
    have hn' : n / 16 ^ w < 16 := by rw [Nat.div_lt_iff_lt_mul hp, Nat.mul_comm]; rwa [Nat.pow_succ] at hn
    have em := Nat.div_add_mod m (16 ^ w)
    have en := Nat.div_add_mod n (16 ^ w)
    have lm := Nat.mod_lt m hp
    have ln := Nat.mod_lt n hp
    rw [hexFixed, hexFixed, List.cons_lt_cons_iff, Nat.mod_eq_of_lt hm', Nat.mod_eq_of_lt hn',
      hexDigit_lt _ hm' _ hn', ← hexFixed_mod w m, ← hexFixed_mod w n, ih lm ln]
    constructor
    · rintro (h | ⟨h, h'⟩)
      · have := Nat.mul_le_mul_left (16 ^ w) (Nat.succ_le_of_lt h)
        rw [Nat.mul_succ] at this
        omega
      · have := congrArg hexVal h
        rw [hexVal_hexDigit _ hm', hexVal_hexDigit _ hn'] at this
        rw [← em, ← en, this]
        omega
    · intro h
      rcases Nat.lt_trichotomy (m / 16 ^ w) (n / 16 ^ w) with hd | hd | hd
      · exact .inl hd
      · rw [hd] at em ⊢
        exact .inr ⟨rfl, by omega⟩
      · have := Nat.mul_le_mul_left (16 ^ w) (Nat.succ_le_of_lt hd)
        rw [Nat.mul_succ] at this
        omega

/-- Strings with prefixes of one length compare by the prefixes first. -/
theorem append_lt_append {a b s t : JsString} (h : a.length = b.length) :
    a ++ s < b ++ t ↔ a < b ∨ a = b ∧ s < t := by
  induction a generalizing b with
  | nil =>
    obtain rfl := List.eq_nil_of_length_eq_zero h.symm
    simp
  | cons x a ih =>
    cases b with
    | nil => simp at h
    | cons y b =>
      simp only [List.cons_append, List.cons_lt_cons_iff, ih (Nat.succ.inj h), List.cons.injEq]
      constructor
      · rintro (h | ⟨h, h' | ⟨h', h''⟩⟩)
        · exact .inl (.inl h)
        · exact .inl (.inr ⟨h, h'⟩)
        · exact .inr ⟨⟨h, h'⟩, h''⟩
      · rintro ((h | ⟨h, h'⟩) | ⟨⟨h, h'⟩, h''⟩)
        · exact .inl h
        · exact .inr ⟨h, .inl h'⟩
        · exact .inr ⟨h, .inr ⟨h', h''⟩⟩

end TangentFeed
