import Mathlib.Data.List.Lex
import Mathlib.Data.Nat.Digits.Defs

/-!
# Numerals of a fixed width

`value b l` is the number with the digits `l` in base `b`, the most significant
digit first, and `digits b w n` are the last `w` digits of `n`. Numerals of one
width are ordered, digit by digit, as their numbers are, whatever characters
stand for the digits.
-/

namespace Positional

variable {b w m n : ℕ} {l l' : List ℕ}

def value (b : ℕ) (l : List ℕ) : ℕ := Nat.ofDigits b l.reverse

def digits (b : ℕ) : ℕ → ℕ → List ℕ
  | 0, _ => []
  | w + 1, n => digits b w (n / b) ++ [n % b]

@[simp] theorem value_nil : value b [] = 0 := rfl

theorem value_cons {d : ℕ} : value b (d :: l) = d * b ^ l.length + value b l := by
  rw [value, Nat.ofDigits_reverse_cons, Nat.mul_comm, Nat.add_comm]
  rfl

theorem value_append : value b (l ++ l') = value b l * b ^ l'.length + value b l' := by
  rw [value, List.reverse_append, Nat.ofDigits_append, List.length_reverse, Nat.mul_comm,
    Nat.add_comm]
  rfl

theorem value_lt (hb : 1 < b) (h : ∀ d ∈ l, d < b) : value b l < b ^ l.length := by
  have hlt := Nat.ofDigits_lt_base_pow_length (l := l.reverse) hb fun d hd =>
    h d (List.mem_reverse.1 hd)
  rwa [List.length_reverse] at hlt

@[simp] theorem length_digits (b w n : ℕ) : (digits b w n).length = w := by
  induction w generalizing n with
  | zero => rfl
  | succ w ih => rw [digits, List.length_append, ih, List.length_singleton]

theorem digits_lt (hb : 0 < b) (w n : ℕ) : ∀ d ∈ digits b w n, d < b := by
  induction w generalizing n with
  | zero => exact fun d hd => (List.not_mem_nil hd).elim
  | succ w ih =>
    intro d hd
    rcases List.mem_append.1 hd with hd | hd
    · exact ih (n / b) d hd
    · rw [List.mem_singleton.1 hd]
      exact Nat.mod_lt n hb

theorem value_digits (h : n < b ^ w) : value b (digits b w n) = n := by
  induction w generalizing n with
  | zero =>
    rw [Nat.pow_zero, Nat.lt_one_iff] at h
    rw [h]
    rfl
  | succ w ih =>
    have hdiv : n / b < b ^ w := Nat.div_lt_of_lt_mul (by rwa [Nat.pow_succ'] at h)
    rw [digits, value_append, ih hdiv, List.length_singleton, Nat.pow_one, value_cons,
      List.length_nil, Nat.pow_zero, Nat.mul_one, value_nil, Nat.add_zero, Nat.mul_comm]
    exact Nat.div_add_mod n b

theorem digits_add (b w w' n : ℕ) :
    digits b (w + w') n = digits b w (n / b ^ w') ++ digits b w' n := by
  induction w' generalizing n with
  | zero => rw [Nat.pow_zero, Nat.div_one, digits, List.append_nil, Nat.add_zero]
  | succ w' ih =>
    rw [← Nat.add_assoc, digits, ih, digits, List.append_assoc, Nat.div_div_eq_div_mul,
      Nat.pow_succ']

/-- The digits above do not count. -/
theorem digits_mod (b w n : ℕ) : digits b w (n % b ^ w) = digits b w n := by
  induction w generalizing n with
  | zero => rfl
  | succ w ih =>
    rw [digits, digits, Nat.pow_succ', Nat.mod_mul_right_div_self, ih, Nat.mod_mul_right_mod]

section Order

variable {α : Type*} [LinearOrder α] {char : ℕ → α}

/-- **Numerals of one width are ordered as their numbers.** -/
theorem map_lt_map_iff (hb : 1 < b) (hchar : ∀ d < b, ∀ e < b, (char d < char e ↔ d < e))
    (hlen : l.length = l'.length) (hl : ∀ d ∈ l, d < b) (hl' : ∀ d ∈ l', d < b) :
    l.map char < l'.map char ↔ value b l < value b l' := by
  induction l generalizing l' with
  | nil =>
    obtain rfl := List.eq_nil_of_length_eq_zero hlen.symm
    simp
  | cons d l ih =>
    cases l' with
    | nil => cases hlen
    | cons e l' =>
      obtain ⟨hd, hl⟩ := List.forall_mem_cons.1 hl
      obtain ⟨he, hl'⟩ := List.forall_mem_cons.1 hl'
      have hlen : l.length = l'.length := Nat.succ.inj hlen
      have hv := value_lt hb hl
      have hv' := value_lt hb hl'
      rw [List.map_cons, List.map_cons, List.cons_lt_cons_iff, hchar d hd e he, ih hlen hl hl',
        value_cons, value_cons, hlen]
      rw [hlen] at hv
      rcases Nat.lt_trichotomy d e with hlt | rfl | hgt
      · have hmul := Nat.mul_le_mul_right (b ^ l'.length) (Nat.succ_le_of_lt hlt)
        rw [Nat.succ_mul] at hmul
        exact iff_of_true (.inl hlt) (by omega)
      · simp
      · have hmul := Nat.mul_le_mul_right (b ^ l'.length) (Nat.succ_le_of_lt hgt)
        rw [Nat.succ_mul] at hmul
        refine iff_of_false ?_ (by omega)
        rintro (h | ⟨h, -⟩)
        · omega
        · exact ((hchar e he d hd).2 hgt).ne' h

end Order

end Positional
