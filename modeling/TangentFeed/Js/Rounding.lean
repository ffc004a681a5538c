import Mathlib.Algebra.Order.Field.Power
import Mathlib.Algebra.Order.Field.Rat
import Mathlib.Data.Rat.Cast.Order
import Mathlib.Order.Monotone.Basic
import Mathlib.Tactic.FieldSimp
import Mathlib.Tactic.Linarith
import Mathlib.Tactic.NormNum
import Mathlib.Tactic.Positivity
import Mathlib.Tactic.Ring
import TangentFeed.Js.Number
import TangentFeed.Lib.Rounding

/-!
# The printed decimal rounds back

Magnitudes are numbered by `index`, their bits without the sign; `mid b` is the
midpoint between number `b` and the next. `roundsTo` is the cell of the index, and
seventeen digits always suffice for a decimal in it, so the digits that
`toString` prints round back to the number.
-/

namespace TangentFeed.Number

open Rounding

variable {x : Number} {b : ℕ} {q : Ratio}

def Ratio.val (q : Ratio) : ℚ := q.num / q.den

/-! ## Indexs and midpoints -/

/-- The bits of the magnitude. -/
def index (x : Number) : ℕ := x.bits.toNat % 2 ^ 63

def significand (b : ℕ) : ℕ := if b / 2 ^ 52 = 0 then b % 2 ^ 52 else 2 ^ 52 + b % 2 ^ 52

def scale (b : ℕ) : ℕ := max (b / 2 ^ 52) 1

theorem mantissa_eq (x : Number) : x.mantissa = significand x.index := by
  unfold mantissa significand biasedExponent fraction index
  have h1 : x.bits.toNat % 2 ^ 63 / 2 ^ 52 = x.bits.toNat / 2 ^ 52 % 2 ^ 11 := by omega
  have h2 : x.bits.toNat % 2 ^ 63 % 2 ^ 52 = x.bits.toNat % 2 ^ 52 := by omega
  rw [h1, h2]

theorem exponent_eq (x : Number) : x.exponent = scale x.index := by
  unfold exponent scale biasedExponent index
  have h1 : x.bits.toNat % 2 ^ 63 / 2 ^ 52 = x.bits.toNat / 2 ^ 52 % 2 ^ 11 := by omega
  rw [h1]

theorem mantissa_eq_zero : x.mantissa = 0 ↔ x.index = 0 := by
  rw [mantissa_eq]
  unfold significand
  split <;> omega

theorem index_lt_of_isFinite (h : x.isFinite = true) : x.index < 2047 * 2 ^ 52 := by
  simp only [isFinite, biasedExponent, bne_iff_ne, ne_eq] at h
  unfold index
  omega

/-- The unit in which midpoints are whole is `1 / grain`. -/
def grain : ℚ := 2 ^ 1077

theorem grain_pos : 0 < grain := pow_pos two_pos _

/-- The midpoint above index `b`. -/
def mid (b : ℕ) : ℚ := ((4 * significand b + 2) * 2 ^ scale b : ℕ) / grain

theorem mid_lt_succ (b : ℕ) : mid b < mid (b + 1) := by
  have key : (4 * significand b + 2) * 2 ^ scale b <
      (4 * significand (b + 1) + 2) * 2 ^ scale (b + 1) := by
    by_cases hlast : b % 2 ^ 52 = 2 ^ 52 - 1 ∧ 1 ≤ b / 2 ^ 52
    · -- past the last significand of a binade
      have e1 : scale (b + 1) = scale b + 1 := by unfold scale; omega
      have e2 : significand b = 2 ^ 53 - 1 := by unfold significand; rw [if_neg (by omega)]; omega
      have e3 : significand (b + 1) = 2 ^ 52 := by
        unfold significand; rw [if_neg (by omega)]; omega
      rw [e1, e2, e3, pow_succ' 2 (scale b), ← mul_assoc]
      exact Nat.mul_lt_mul_of_pos_right (by norm_num) (by positivity)
    · have e1 : scale (b + 1) = scale b := by unfold scale; omega
      have e2 : significand (b + 1) = significand b + 1 := by
        unfold significand
        split_ifs <;> omega
      rw [e1, e2]
      exact Nat.mul_lt_mul_of_pos_right (by omega) (by positivity)
  unfold mid
  exact div_lt_div_of_pos_right (by exact_mod_cast key) grain_pos

theorem strictMono_mid : StrictMono mid := strictMono_nat_of_lt_succ mid_lt_succ

theorem val_scaled (m e : ℕ) : (scaled m e).val = (m * 2 ^ e : ℕ) / grain := by
  unfold scaled Ratio.val grain
  generalize 1077 = k
  split
  · rename_i h
    obtain ⟨j, rfl⟩ := Nat.exists_eq_add_of_le h
    rw [Nat.add_sub_cancel_left, pow_add]
    push_cast
    field_simp
  · rename_i h
    obtain ⟨j, rfl⟩ := Nat.exists_eq_add_of_le (Nat.le_of_not_le h)
    rw [Nat.add_sub_cancel_left, div_eq_div_iff (by positivity) (by positivity)]
    push_cast
    ring

theorem scaled_den_pos (m e : ℕ) : 0 < (scaled m e).den := by
  unfold scaled
  split
  · exact Nat.one_pos
  · positivity

theorem Ratio.le_iff {a c : Ratio} (ha : 0 < a.den) (hc : 0 < c.den) :
    a.le c = true ↔ a.val ≤ c.val := by
  unfold Ratio.le Ratio.val
  rw [decide_eq_true_eq, div_le_div_iff₀ (by exact_mod_cast ha) (by exact_mod_cast hc)]
  exact_mod_cast Iff.rfl

theorem Ratio.lt_iff {a c : Ratio} (ha : 0 < a.den) (hc : 0 < c.den) :
    a.lt c = true ↔ a.val < c.val := by
  unfold Ratio.lt Ratio.val
  rw [decide_eq_true_eq, div_lt_div_iff₀ (by exact_mod_cast ha) (by exact_mod_cast hc)]
  exact_mod_cast Iff.rfl

/-- The lower end of the cell of `b + 1` is the midpoint above `b`. -/
theorem val_below (b : ℕ) :
    (scaled (if significand (b + 1) = 2 ^ 52 ∧ 1 < scale (b + 1) then 4 * significand (b + 1) - 1
      else 4 * significand (b + 1) - 2) (scale (b + 1))).val = mid b := by
  rw [val_scaled]
  unfold mid
  congr 2
  by_cases h : significand (b + 1) = 2 ^ 52 ∧ 1 < scale (b + 1)
  · have hb : b % 2 ^ 52 = 2 ^ 52 - 1 ∧ 1 ≤ b / 2 ^ 52 := by
      unfold significand scale at h
      split_ifs at h <;> omega
    have e1 : scale (b + 1) = scale b + 1 := by unfold scale; omega
    have e2 : significand b = 2 ^ 53 - 1 := by unfold significand; rw [if_neg (by omega)]; omega
    rw [if_pos h, h.1, e1, e2, pow_succ' 2 (scale b), ← mul_assoc]
    congr 1
  · have e1 : scale (b + 1) = scale b ∧ significand (b + 1) = significand b + 1 := by
      unfold significand scale at h ⊢
      split_ifs at h ⊢ <;> omega
    rw [if_neg h, e1.1, e1.2]
    congr 1

/-- **The values that round to a number are the cell of its index.** -/
theorem roundsTo_iff (hx : x.mantissa ≠ 0) (hq : 0 < q.den) :
    x.roundsTo q = true ↔ InCell mid x.index q.val := by
  obtain ⟨b, hb⟩ : ∃ b, x.index = b + 1 := by
    refine ⟨x.index - 1, ?_⟩
    have := mt mantissa_eq_zero.2 hx
    omega
  unfold roundsTo
  simp only [mantissa_eq, exponent_eq, hb]
  rw [inCell_succ_iff strictMono_mid]
  have hpar : significand (b + 1) % 2 = (b + 1) % 2 := by
    unfold significand
    split <;> omega
  have hhigh : (scaled (4 * significand (b + 1) + 2) (scale (b + 1))).val = mid (b + 1) := by
    rw [val_scaled]
    rfl
  rw [hpar]
  split
  · rw [Bool.and_eq_true, Ratio.le_iff (scaled_den_pos ..) hq, Ratio.le_iff hq (scaled_den_pos ..),
      val_below, hhigh]
  · rw [Bool.and_eq_true, Ratio.lt_iff (scaled_den_pos ..) hq, Ratio.lt_iff hq (scaled_den_pos ..),
      val_below, hhigh]

/-! ## Decimals -/

theorem val_decimal (s : ℕ) (n k : ℤ) : (decimal s n k).val = s * (10 : ℚ) ^ (n - k) := by
  unfold decimal Ratio.val
  split
  · rename_i h
    have hn : n - k = ((n - k).toNat : ℤ) := by omega
    rw [hn, zpow_natCast, Int.toNat_natCast]
    push_cast
    rw [div_one]
  · rename_i h
    have hn : n - k = -((k - n).toNat : ℤ) := by omega
    rw [hn, zpow_neg, zpow_natCast]
    push_cast
    rw [div_eq_mul_inv]

theorem decimal_den_pos (s : ℕ) (n k : ℤ) : 0 < (decimal s n k).den := by
  unfold decimal
  split
  · exact Nat.one_pos
  · positivity

/-- The magnitude of a number. -/
def magnitude (x : Number) : ℚ := (scaled (4 * x.mantissa) x.exponent).val

/-- Half the distance to the next number. -/
def halfStep (x : Number) : ℚ := (2 * 2 ^ x.exponent : ℕ) / grain

theorem halfStep_pos (x : Number) : 0 < x.halfStep := div_pos (by positivity) grain_pos

theorem magnitude_eq (x : Number) : x.magnitude = 2 * x.mantissa * x.halfStep := by
  unfold magnitude halfStep
  rw [val_scaled]
  push_cast
  ring

theorem mantissa_lt (x : Number) : x.mantissa < 2 ^ 53 := by
  rw [mantissa_eq]
  unfold significand
  split <;> omega

/-- A number between its midpoints: half a step below the upper one, and as much
above the lower one unless its significand is the least of a binade. -/
theorem mid_bounds {b : ℕ} (hb : x.index = b + 1) :
    mid (b + 1) = x.magnitude + x.halfStep ∧
      (mid b = x.magnitude - x.halfStep ∨
        x.mantissa = 2 ^ 52 ∧ mid b = x.magnitude - x.halfStep / 2) := by
  have hm : 1 ≤ significand (b + 1) := by
    unfold significand
    split <;> omega
  have hlow := val_below b
  rw [val_scaled] at hlow
  rw [magnitude_eq]
  unfold halfStep
  rw [mantissa_eq, exponent_eq, hb, ← hlow]
  refine ⟨?_, ?_⟩
  · unfold mid
    push_cast
    ring
  · split
    · rename_i h
      right
      refine ⟨h.1, ?_⟩
      rw [h.1]
      push_cast
      ring
    · left
      obtain ⟨j, hj⟩ := Nat.exists_eq_add_of_le hm
      rw [hj, show 4 * (1 + j) - 2 = 4 * j + 2 by omega]
      push_cast
      ring

/-- A value strictly between the midpoints rounds to the number. -/
theorem roundsTo_of_between {b : ℕ} (hx : x.mantissa ≠ 0) (hb : x.index = b + 1)
    (hq : 0 < q.den) (h1 : mid b < q.val) (h2 : q.val < mid (b + 1)) : x.roundsTo q = true := by
  rw [roundsTo_iff hx hq, hb, inCell_succ_iff strictMono_mid]
  split
  · exact ⟨h1.le, h2.le⟩
  · exact ⟨h1, h2⟩

/-- The distance is the exact one, in a unit that depends on the denominator. -/
theorem distance_eq (x : Number) (hq : 0 < q.den) :
    (x.distance q : ℚ) = |q.val - x.magnitude| *
      (q.den * (scaled (4 * x.mantissa) x.exponent).den) := by
  have habs : ∀ a b : ℕ, (((a - b) + (b - a) : ℕ) : ℚ) = |(a : ℚ) - b| := by
    intro a b
    rcases le_total a b with h | h
    · rw [Nat.sub_eq_zero_of_le h, Nat.zero_add, Nat.cast_sub h, abs_sub_comm, abs_of_nonneg]
      exact sub_nonneg.2 (by exact_mod_cast h)
    · rw [Nat.sub_eq_zero_of_le h, Nat.add_zero, Nat.cast_sub h, abs_of_nonneg]
      exact sub_nonneg.2 (by exact_mod_cast h)
  unfold distance magnitude
  have hv := scaled_den_pos (4 * x.mantissa) x.exponent
  generalize scaled (4 * x.mantissa) x.exponent = v at hv
  have hq' : (0 : ℚ) < q.den := by exact_mod_cast hq
  have hv' : (0 : ℚ) < v.den := by exact_mod_cast hv
  simp only
  rw [habs]
  unfold Ratio.val
  rw [← abs_of_pos (mul_pos hq' hv'), ← abs_mul, sub_mul]
  congr 1
  push_cast
  field_simp

theorem decimal_den (s s' : ℕ) (n k : ℤ) : (decimal s n k).den = (decimal s' n k).den := by
  unfold decimal
  split <;> rfl

theorem distance_le_iff (x : Number) (a b : ℕ) (n k : ℤ) :
    x.distance (decimal a n k) ≤ x.distance (decimal b n k) ↔
      |a * (10 : ℚ) ^ (n - k) - x.magnitude| ≤ |b * (10 : ℚ) ^ (n - k) - x.magnitude| := by
  have hpos : (0 : ℚ) <
      (decimal b n k).den * (scaled (4 * x.mantissa) x.exponent).den := by
    have h1 := decimal_den_pos b n k
    have h2 := scaled_den_pos (4 * x.mantissa) x.exponent
    exact mul_pos (by exact_mod_cast h1) (by exact_mod_cast h2)
  rw [← Nat.cast_le (α := ℚ), distance_eq x (decimal_den_pos ..), distance_eq x (decimal_den_pos ..),
    decimal_den a b, mul_le_mul_iff_left₀ hpos, val_decimal, val_decimal]

/-- The digits that are tried are the two around the number. -/
theorem digitsAt_spec (x : Number) (n k : ℤ) : ∃ lo : ℕ,
    lo * (10 : ℚ) ^ (n - k) ≤ x.magnitude ∧ x.magnitude < (lo + 1) * (10 : ℚ) ^ (n - k) ∧
    (∀ s, digitsAt x n k = some s → (s = lo ∨ s = lo + 1) ∧ x.roundsTo (decimal s n k) = true ∧
      ∀ m, (m = lo ∨ m = lo + 1) → x.roundsTo (decimal m n k) = true →
        |s * (10 : ℚ) ^ (n - k) - x.magnitude| ≤ |m * (10 : ℚ) ^ (n - k) - x.magnitude|) ∧
    (digitsAt x n k = none → x.roundsTo (decimal lo n k) = false ∧
      x.roundsTo (decimal (lo + 1) n k) = false) := by
  generalize hv : scaled (4 * x.mantissa) x.exponent = v
  have hden : 0 < v.den := hv ▸ scaled_den_pos ..
  generalize hq : (if n ≤ k then (⟨v.num * 10 ^ (k - n).toNat, v.den⟩ : Ratio)
    else ⟨v.num, v.den * 10 ^ (n - k).toNat⟩) = q
  have hqden : 0 < q.den := by
    rw [← hq]
    split
    · exact hden
    · exact Nat.mul_pos hden (Nat.pow_pos (by decide))
  have hval : q.val * (10 : ℚ) ^ (n - k) = x.magnitude := by
    unfold magnitude
    rw [hv, ← hq]
    unfold Ratio.val
    split
    · rename_i h
      have hn : n - k = -((k - n).toNat : ℤ) := by omega
      rw [hn, zpow_neg, zpow_natCast]
      push_cast
      field_simp
    · rename_i h
      have hn : n - k = ((n - k).toNat : ℤ) := by omega
      rw [hn, zpow_natCast, Int.toNat_natCast]
      push_cast
      field_simp
  have hpos : (0 : ℚ) < 10 ^ (n - k) := zpow_pos (by norm_num) _
  have hlo : ((q.num / q.den : ℕ) : ℚ) ≤ q.val ∧ q.val < ((q.num / q.den : ℕ) : ℚ) + 1 := by
    have hd : (0 : ℚ) < q.den := by exact_mod_cast hqden
    unfold Ratio.val
    rw [le_div_iff₀ hd, div_lt_iff₀ hd]
    constructor
    · exact_mod_cast Nat.div_mul_le_self _ _
    · exact_mod_cast Nat.lt_mul_of_div_lt (Nat.lt_succ_self _) hqden
  refine ⟨q.num / q.den, ?_, ?_, ?_⟩
  · rw [← hval]
    exact mul_le_mul_of_nonneg_right hlo.1 hpos.le
  · rw [← hval]
    exact mul_lt_mul_of_pos_right hlo.2 hpos
  · unfold digitsAt
    simp only [hv, hq]
    generalize q.num / q.den = lo
    cases h1 : x.roundsTo (decimal lo n k) <;> cases h2 : x.roundsTo (decimal (lo + 1) n k) <;>
      simp only
    · exact ⟨nofun, fun _ => ⟨trivial, trivial⟩⟩
    · refine ⟨fun s hs => ?_, nofun⟩
      obtain rfl := Option.some.inj hs
      refine ⟨.inr rfl, h2, fun m hm hr => ?_⟩
      rcases hm with rfl | rfl
      · rw [h1] at hr
        cases hr
      · exact le_rfl
    · refine ⟨fun s hs => ?_, nofun⟩
      obtain rfl := Option.some.inj hs
      refine ⟨.inl rfl, h1, fun m hm hr => ?_⟩
      rcases hm with rfl | rfl
      · exact le_rfl
      · rw [h2] at hr
        cases hr
    · split
      · rename_i hd
        refine ⟨fun s hs => ?_, nofun⟩
        obtain rfl := Option.some.inj hs
        refine ⟨.inl rfl, h1, fun m hm _ => (distance_le_iff x lo m n k).1 ?_⟩
        rcases hm with rfl | rfl <;> omega
      · rename_i hd
        refine ⟨fun s hs => ?_, nofun⟩
        obtain rfl := Option.some.inj hs
        refine ⟨.inr rfl, h2, fun m hm _ => (distance_le_iff x (lo + 1) m n k).1 ?_⟩
        rcases hm with rfl | rfl <;> omega

/-- **Seventeen digits suffice** above the point position. -/
theorem digitsAt_seventeen (hx : x.mantissa ≠ 0) {n : ℤ} (hn : (10 : ℚ) ^ (n - 1) ≤ x.magnitude) :
    digitsAt x n 17 ≠ none := by
  intro hnone
  obtain ⟨lo, h1, h2, -, h4⟩ := digitsAt_spec x n 17
  obtain ⟨h5, h6⟩ := h4 hnone
  obtain ⟨b, hb⟩ : ∃ b, x.index = b + 1 := by
    refine ⟨x.index - 1, ?_⟩
    have := mt mantissa_eq_zero.2 hx
    omega
  obtain ⟨hhigh, hlow⟩ := mid_bounds hb
  have hh := x.halfStep_pos
  have hmag := x.magnitude_eq
  generalize hu : (10 : ℚ) ^ (n - 17) = u at h1 h2
  -- the spacing of seventeen digits is below that of the numbers
  have hspace : u * 10 ^ 16 ≤ x.magnitude := by
    rw [← hu, ← zpow_natCast, ← zpow_add₀ (by norm_num)]
    rw [show n - 17 + ((16 : ℕ) : ℤ) = n - 1 by push_cast; ring]
    exact hn
  have hmant : (x.mantissa : ℚ) ≤ 2 ^ 53 := by exact_mod_cast x.mantissa_lt.le
  have hu2 : u < 2 * x.halfStep := by
    have : 2 * x.mantissa * x.halfStep ≤ 2 * 2 ^ 53 * x.halfStep := by gcongr
    norm_num at this hspace
    linarith
  have hlo : x.roundsTo (decimal lo n 17) = false → mid b ≥ lo * u := by
    intro hf
    by_contra hlt
    have hr := roundsTo_of_between (q := decimal lo n 17) hx hb (decimal_den_pos ..)
      (by rw [val_decimal, hu]; linarith) (by rw [val_decimal, hu, hhigh]; linarith)
    rw [hr] at hf
    cases hf
  have hhi : x.roundsTo (decimal (lo + 1) n 17) = false → (lo + 1) * u ≥ mid (b + 1) := by
    intro hf
    by_contra hlt
    have hr := roundsTo_of_between (q := decimal (lo + 1) n 17) hx hb (decimal_den_pos ..)
      (by rw [val_decimal, hu]; push_cast; rcases hlow with h | ⟨-, h⟩ <;> rw [h] <;> linarith)
      (by rw [val_decimal, hu]; push_cast; linarith)
    rw [hr] at hf
    cases hf
  have g1 := hlo h5
  have g2 := hhi h6
  rw [hhigh] at g2
  rcases hlow with h | ⟨hm, h⟩
  · rw [h] at g1
    linarith
  · -- at the start of a binade the spacing is even below half a step
    have hm' : (x.mantissa : ℚ) = 2 ^ 52 := by exact_mod_cast hm
    rw [hm'] at hmag
    norm_num at hmag hspace
    linarith

/-! ## The point position -/

theorem pointFrom_spec {v : Ratio} (hv : 0 < v.den) (fuel : ℕ) (n : ℤ) :
    ((10 : ℚ) ^ (n - 1) ≤ v.val → (10 : ℚ) ^ (pointFrom v fuel n - 1) ≤ v.val) ∧
      (v.val < (10 : ℚ) ^ (n + fuel) → v.val < (10 : ℚ) ^ pointFrom v fuel n) := by
  induction fuel generalizing n with
  | zero => exact ⟨id, by rw [pointFrom]; simp⟩
  | succ fuel ih =>
    have hlt : v.lt (decimal 1 n 0) = true ↔ v.val < (10 : ℚ) ^ n := by
      rw [Ratio.lt_iff hv (decimal_den_pos ..), val_decimal]
      simp
    rw [pointFrom]
    by_cases h : v.lt (decimal 1 n 0) = true
    · rw [if_pos h]
      exact ⟨id, fun _ => hlt.1 h⟩
    · rw [if_neg h]
      have hge : (10 : ℚ) ^ n ≤ v.val := not_lt.1 fun hl => h (hlt.2 hl)
      obtain ⟨h1, h2⟩ := ih (n + 1)
      refine ⟨fun _ => h1 (by rwa [add_sub_cancel_right]), fun hl => h2 ?_⟩
      rwa [show n + 1 + (fuel : ℤ) = n + ((fuel + 1 : ℕ) : ℤ) by push_cast; ring]

/-- Every finite magnitude is in the range of the point positions tried. -/
theorem magnitude_bounds (hx : x.mantissa ≠ 0) (hf : x.isFinite = true) :
    (10 : ℚ) ^ (-323 - 1 : ℤ) ≤ x.magnitude ∧ x.magnitude < (10 : ℚ) ^ (-323 + (640 : ℕ) : ℤ) := by
  have hm : 1 ≤ x.mantissa := Nat.one_le_iff_ne_zero.2 hx
  have he : 1 ≤ x.exponent ∧ x.exponent ≤ 2046 := by
    have hr := index_lt_of_isFinite hf
    rw [exponent_eq]
    unfold scale
    omega
  unfold magnitude
  rw [val_scaled]
  constructor
  · rw [show (-323 - 1 : ℤ) = -((324 : ℕ) : ℤ) by norm_num, zpow_neg, zpow_natCast,
      le_div_iff₀ grain_pos, ← div_eq_inv_mul, div_le_iff₀ (by positivity)]
    have h1 : 4 * 1 * 2 ^ 1 ≤ 4 * x.mantissa * 2 ^ x.exponent :=
      Nat.mul_le_mul (Nat.mul_le_mul_left 4 hm) (Nat.pow_le_pow_right (by decide) he.1)
    have h2 : grain ≤ ((4 * 1 * 2 ^ 1 : ℕ) : ℚ) * 10 ^ 324 := by
      unfold grain
      exact_mod_cast (by decide +kernel : 2 ^ 1077 ≤ 4 * 1 * 2 ^ 1 * 10 ^ 324)
    refine h2.trans ?_
    gcongr
  · rw [show (-323 + (640 : ℕ) : ℤ) = ((317 : ℕ) : ℤ) by norm_num, zpow_natCast,
      div_lt_iff₀ grain_pos]
    have h1 : 4 * x.mantissa * 2 ^ x.exponent < 4 * 2 ^ 53 * 2 ^ 2046 := by
      generalize 2046 = top at he
      exact Nat.mul_lt_mul_of_lt_of_le (Nat.mul_lt_mul_of_pos_left x.mantissa_lt (by decide))
        (Nat.pow_le_pow_right (by decide) he.2) (Nat.two_pow_pos _)
    have h2 : ((4 * 2 ^ 53 * 2 ^ 2046 : ℕ) : ℚ) ≤ 10 ^ 317 * grain := by
      unfold grain
      have hk : 4 * 2 ^ 53 * 2 ^ 2046 ≤ 10 ^ 317 * 2 ^ 1077 := by decide +kernel
      generalize 4 * 2 ^ 53 * 2 ^ 2046 = a at hk ⊢
      generalize 1077 = j at hk ⊢
      exact_mod_cast hk
    generalize 4 * 2 ^ 53 * 2 ^ 2046 = a at h1 h2
    refine lt_of_lt_of_le ?_ h2
    exact_mod_cast h1

/-! ## The digits that are printed -/

theorem exists_index (hx : x.mantissa ≠ 0) : ∃ b, x.index = b + 1 := by
  refine ⟨x.index - 1, ?_⟩
  have := mt mantissa_eq_zero.2 hx
  omega

/-- A value that rounds to a number is at most half a step from it. -/
theorem abs_le_of_inCell (hx : x.mantissa ≠ 0) {y : ℚ} (h : InCell mid x.index y) :
    |y - x.magnitude| ≤ x.halfStep := by
  obtain ⟨b, hb⟩ := exists_index hx
  obtain ⟨hhigh, hlow⟩ := mid_bounds hb
  have hh := x.halfStep_pos
  rw [hb, inCell_succ_iff strictMono_mid] at h
  have hle : mid b ≤ y ∧ y ≤ mid (b + 1) := by
    split at h
    · exact h
    · exact ⟨h.1.le, h.2.le⟩
  rw [abs_le]
  constructor
  · rcases hlow with hl | ⟨-, hl⟩ <;> linarith
  · linarith

theorem inCell_magnitude (hx : x.mantissa ≠ 0) : InCell mid x.index x.magnitude := by
  obtain ⟨b, hb⟩ := exists_index hx
  obtain ⟨hhigh, hlow⟩ := mid_bounds hb
  have hh := x.halfStep_pos
  have h1 : mid b < x.magnitude := by rcases hlow with hl | ⟨-, hl⟩ <;> linarith
  have h2 : x.magnitude < mid (b + 1) := by linarith
  rw [hb, inCell_succ_iff strictMono_mid]
  split
  · exact ⟨h1.le, h2.le⟩
  · exact ⟨h1, h2⟩

/-- If any multiple of the unit rounds to the number, one of the two around it does. -/
theorem around_inCell (hx : x.mantissa ≠ 0) {lo m : ℕ} {u : ℚ} (hu : 0 < u)
    (h1 : lo * u ≤ x.magnitude) (h2 : x.magnitude < (lo + 1) * u)
    (hm : InCell mid x.index (m * u)) :
    (m ≤ lo ∧ InCell mid x.index (lo * u)) ∨
      (lo + 1 ≤ m ∧ InCell mid x.index (((lo + 1 : ℕ) : ℚ) * u)) := by
  have hself := inCell_magnitude hx
  rcases Nat.lt_or_ge lo m with h | h
  · have hle : ((lo + 1 : ℕ) : ℚ) * u ≤ m * u :=
      mul_le_mul_of_nonneg_right (by exact_mod_cast h) hu.le
    have hpos : x.magnitude ≤ ((lo + 1 : ℕ) : ℚ) * u := by push_cast; exact h2.le
    exact .inr ⟨h, hself.between hm hpos hle⟩
  · have hle : (m : ℚ) * u ≤ lo * u := mul_le_mul_of_nonneg_right (by exact_mod_cast h) hu.le
    exact .inl ⟨h, hm.between hself hle h1⟩

/-- Digits are found where there are any. -/
theorem digitsAt_none (hx : x.mantissa ≠ 0) {n k : ℤ} (h : digitsAt x n k = none) (m : ℕ) :
    ¬ InCell mid x.index (m * (10 : ℚ) ^ (n - k)) := by
  intro hm
  obtain ⟨lo, h1, h2, -, h4⟩ := digitsAt_spec x n k
  obtain ⟨h5, h6⟩ := h4 h
  rcases around_inCell hx (zpow_pos (by norm_num) _) h1 h2 hm with ⟨-, hc⟩ | ⟨-, hc⟩
  · rw [← val_decimal, ← roundsTo_iff hx (decimal_den_pos ..), h5] at hc
    cases hc
  · rw [← val_decimal, ← roundsTo_iff hx (decimal_den_pos ..), h6] at hc
    cases hc

/-- The digits that are found are the closest. -/
theorem digitsAt_some (hx : x.mantissa ≠ 0) {n k : ℤ} {s : ℕ} (h : digitsAt x n k = some s) :
    InCell mid x.index (s * (10 : ℚ) ^ (n - k)) ∧
      ∀ m : ℕ, InCell mid x.index (m * (10 : ℚ) ^ (n - k)) →
        |s * (10 : ℚ) ^ (n - k) - x.magnitude| ≤ |m * (10 : ℚ) ^ (n - k) - x.magnitude| := by
  obtain ⟨lo, h1, h2, h3, -⟩ := digitsAt_spec x n k
  obtain ⟨-, hround, hclose⟩ := h3 s h
  have hu : (0 : ℚ) < 10 ^ (n - k) := zpow_pos (by norm_num) _
  refine ⟨by rwa [← val_decimal, ← roundsTo_iff hx (decimal_den_pos ..)], fun m hm => ?_⟩
  rcases around_inCell hx hu h1 h2 hm with ⟨hle, hc⟩ | ⟨hle, hc⟩
  · rw [← val_decimal, ← roundsTo_iff hx (decimal_den_pos ..)] at hc
    refine (hclose lo (.inl rfl) hc).trans ?_
    have hml : (m : ℚ) * 10 ^ (n - k) ≤ lo * 10 ^ (n - k) :=
      mul_le_mul_of_nonneg_right (by exact_mod_cast hle) hu.le
    rw [abs_of_nonpos (by linarith), abs_of_nonpos (by linarith)]
    linarith
  · rw [← val_decimal, ← roundsTo_iff hx (decimal_den_pos ..)] at hc
    refine (hclose (lo + 1) (.inr rfl) hc).trans ?_
    have hml : ((lo + 1 : ℕ) : ℚ) * 10 ^ (n - k) ≤ m * 10 ^ (n - k) :=
      mul_le_mul_of_nonneg_right (by exact_mod_cast hle) hu.le
    have hpos : x.magnitude ≤ ((lo + 1 : ℕ) : ℚ) * 10 ^ (n - k) := by push_cast; exact h2.le
    rw [abs_of_nonneg (by linarith), abs_of_nonneg (by linarith)]
    linarith

theorem shortest_spec (x : Number) (n : ℤ) (fuel k : ℕ)
    (h : ∃ j : ℕ, k ≤ j ∧ j < k + fuel ∧ digitsAt x n j ≠ none) :
    ∃ s j, shortest x n fuel k = (s, j) ∧ k ≤ j ∧ j < k + fuel ∧ digitsAt x n j = some s ∧
      ∀ i : ℕ, k ≤ i → i < j → digitsAt x n i = none := by
  induction fuel generalizing k with
  | zero =>
    obtain ⟨j, h1, h2, -⟩ := h
    omega
  | succ fuel ih =>
    rw [shortest]
    cases hd : digitsAt x n k with
    | some s => exact ⟨s, k, rfl, Nat.le_refl k, by omega, hd, fun i h1 h2 => by omega⟩
    | none =>
      obtain ⟨j, h1, h2, h3⟩ := h
      have hne : j ≠ k := by
        rintro rfl
        exact h3 hd
      obtain ⟨s, i, e, h4, h5, h6, h7⟩ := ih (k + 1) ⟨j, by omega, by omega, h3⟩
      simp only
      refine ⟨s, i, e, by omega, by omega, h6, fun c hc1 hc2 => ?_⟩
      rcases Nat.eq_or_lt_of_le hc1 with rfl | hlt
      · exact hd
      · exact h7 c hlt hc2

/-- The digits `s` and the point position `n` are those of `Number::toString`. -/
structure IsPrinted (x : Number) (s k : ℕ) (n : ℤ) : Prop where
  one_le : 1 ≤ k
  le_seventeen : k ≤ 17
  low : 10 ^ (k - 1) ≤ s
  high : s < 10 ^ k
  toString_eq : x.toString = (if x.negative then js "-" else []) ++ layout (decimalDigits s) n
  cell : InCell mid x.index (s * (10 : ℚ) ^ (n - k))
  /-- No multiple of a greater power of ten rounds to the number. -/
  coarser : 2 ^ 52 ≤ x.mantissa → ∀ (m : ℕ) (j : ℤ), n - k < j →
    ¬ InCell mid x.index (m * (10 : ℚ) ^ j)
  /-- No other multiple of the power of ten is closer. -/
  closest : ∀ m : ℕ, InCell mid x.index (m * (10 : ℚ) ^ (n - k)) →
    |s * (10 : ℚ) ^ (n - k) - x.magnitude| ≤ |m * (10 : ℚ) ^ (n - k) - x.magnitude|
  /-- The integer digits are as many as those of the number, or it is the next power of ten. -/
  point : x.magnitude < 10 ^ n ∧ ((10 : ℚ) ^ (n - 1) ≤ x.magnitude ∨
    s * (10 : ℚ) ^ (n - k) = 10 ^ (n - 1))

/-- Half a step is at most half of the number. -/
theorem two_mul_halfStep_le (hx : x.mantissa ≠ 0) : 2 * x.halfStep ≤ x.magnitude := by
  have hm : (1 : ℚ) ≤ x.mantissa := by exact_mod_cast Nat.one_le_iff_ne_zero.2 hx
  have hh := x.halfStep_pos
  rw [magnitude_eq]
  have := mul_le_mul_of_nonneg_right hm hh.le
  linarith

/-- A multiple that rounds to the number is not zero, and less than twice the number. -/
theorem pos_of_inCell (hx : x.mantissa ≠ 0) {m : ℕ} {u : ℚ} (h : InCell mid x.index (m * u)) :
    1 ≤ m ∧ (m : ℚ) * u < 2 * x.magnitude := by
  have habs := abs_le.1 (abs_le_of_inCell hx h)
  have h2 := two_mul_halfStep_le hx
  have hh := x.halfStep_pos
  constructor
  · by_contra hm
    obtain rfl : m = 0 := by omega
    rw [Nat.cast_zero, zero_mul] at habs
    linarith
  · linarith

theorem toString_of_ne (hx : x.mantissa ≠ 0) {s k : ℕ} {n : ℤ}
    (hn : pointFrom (scaled (4 * x.mantissa) x.exponent) 640 (-323) = n)
    (hs : shortest x n 17 1 = (s, k)) :
    x.toString = (if x.negative then js "-" else []) ++
      if s = 10 ^ k then layout (js "1") (n + 1) else layout (decimalDigits s) n := by
  unfold toString
  rw [if_neg hx]
  simp only [hn, hs]
  by_cases h : s = 10 ^ k
  · rw [if_pos h, if_pos h]
  · rw [if_neg h, if_neg h]

/-- The digits are those of the next power of ten. -/
theorem isPrinted_carry (hx : x.mantissa ≠ 0) {n : ℤ} {k : ℕ} (hn2 : x.magnitude < 10 ^ n)
    (hcell : InCell mid x.index (((10 ^ k : ℕ) : ℚ) * 10 ^ (n - k)))
    (htext : x.toString = (if x.negative then js "-" else []) ++ layout (js "1") (n + 1)) :
    IsPrinted x 1 1 (n + 1) := by
  have hten : (10 : ℚ) ^ (n + 1) = 10 * 10 ^ n := by
    rw [zpow_add₀ (by norm_num), zpow_one, mul_comm]
  have hpow : ((10 ^ k : ℕ) : ℚ) * 10 ^ (n - k) = 10 ^ n := by
    push_cast
    rw [← zpow_natCast, ← zpow_add₀ (by norm_num)]
    congr 1
    omega
  have hself : ((1 : ℕ) : ℚ) * 10 ^ (n + 1 - ((1 : ℕ) : ℤ)) = 10 ^ n := by
    rw [Nat.cast_one, one_mul, Nat.cast_one, add_sub_cancel_right]
  have hpos : (0 : ℚ) < 10 ^ n := zpow_pos (by norm_num) _
  rw [hpow] at hcell
  refine ⟨le_rfl, by decide, by decide, by decide, htext, by rwa [hself], ?_, ?_, ?_, .inr ?_⟩
  · intro _ m j hj hm
    obtain ⟨h1, h2⟩ := pos_of_inCell hx hm
    have hge : (10 : ℚ) ^ (n + 1) ≤ 10 ^ j := zpow_le_zpow_right₀ (by norm_num) (by omega)
    have hm1 : (1 : ℚ) * 10 ^ j ≤ m * 10 ^ j :=
      mul_le_mul_of_nonneg_right (by exact_mod_cast h1) (zpow_pos (by norm_num) _).le
    linarith
  · intro m hm
    obtain ⟨h1, h2⟩ := pos_of_inCell hx hm
    rw [hself]
    rw [Nat.cast_one, add_sub_cancel_right] at h2 ⊢
    have hlt : m < 2 := by
      by_contra hge
      have : (2 : ℚ) * 10 ^ n ≤ m * 10 ^ n :=
        mul_le_mul_of_nonneg_right (by exact_mod_cast Nat.not_lt.1 hge) hpos.le
      linarith
    obtain rfl : m = 1 := by omega
    rw [Nat.cast_one, one_mul]
  · linarith
  · rw [hself, add_sub_cancel_right]

/-- A multiple of a power of ten above a normal number does not round to it, unless the digits
carry into that power. -/
theorem not_inCell_of_above (hx : 2 ^ 52 ≤ x.mantissa) {n j : ℤ} {s k m : ℕ} (hk : 1 ≤ k)
    (hs : s < 10 ^ k) (hn2 : x.magnitude < 10 ^ n)
    (hleast : ∀ i : ℕ, 1 ≤ i → i < k → digitsAt x n i = none)
    (hclosest : ∀ m : ℕ, InCell mid x.index (m * (10 : ℚ) ^ (n - k)) →
      |s * (10 : ℚ) ^ (n - k) - x.magnitude| ≤ |m * (10 : ℚ) ^ (n - k) - x.magnitude|)
    (hj : n ≤ j) : ¬ InCell mid x.index (m * (10 : ℚ) ^ j) := by
  intro hm
  have hx0 : x.mantissa ≠ 0 := by omega
  obtain ⟨h1, -⟩ := pos_of_inCell hx0 hm
  have hten : (10 : ℚ) ^ n = (10 : ℕ) * 10 ^ (n - ((1 : ℕ) : ℤ)) := by
    have := zpow_add₀ (by norm_num : (10 : ℚ) ≠ 0) 1 (n - 1)
    rw [add_sub_cancel, zpow_one] at this
    exact_mod_cast this
  have hpos : (0 : ℚ) < 10 ^ (n - ((1 : ℕ) : ℤ)) := zpow_pos (by norm_num) _
  have hge : (10 : ℚ) ^ n ≤ m * 10 ^ j := by
    have h10 : (10 : ℚ) ^ n ≤ 10 ^ j := zpow_le_zpow_right₀ (by norm_num) hj
    have hm1 : (1 : ℚ) * 10 ^ j ≤ m * 10 ^ j :=
      mul_le_mul_of_nonneg_right (by exact_mod_cast h1) (zpow_pos (by norm_num) _).le
    linarith
  -- the power of ten itself rounds to the number, so one digit is enough
  have hpow := (inCell_magnitude hx0).between hm hn2.le hge
  rw [hten] at hpow
  obtain rfl : k = 1 := by
    by_contra hk1
    exact digitsAt_none hx0 (hleast 1 le_rfl (by omega)) 10 hpow
  -- but it is too far from the digit that was found
  have hclose := hclosest 10 hpow
  have habs := abs_le_of_inCell hx0 hpow
  have h9 : (s : ℚ) * 10 ^ (n - ((1 : ℕ) : ℤ)) ≤ 9 * 10 ^ (n - ((1 : ℕ) : ℤ)) :=
    mul_le_mul_of_nonneg_right (by exact_mod_cast (by omega : s ≤ 9)) hpos.le
  have hstep : (2 ^ 53 : ℚ) * x.halfStep ≤ x.magnitude := by
    have hm52 : (2 ^ 52 : ℚ) ≤ x.mantissa := by exact_mod_cast hx
    have := mul_le_mul_of_nonneg_right hm52 x.halfStep_pos.le
    rw [magnitude_eq]
    linarith
  have h2 := (abs_le.1 (hclose.trans habs)).1
  have h3 := (abs_le.1 habs).2
  have hh := x.halfStep_pos
  norm_num at hstep
  rw [hten] at hn2
  push_cast at *
  linarith

/-- **What `toString` prints** are at most seventeen digits that round back to the
number, as few and as close as possible. -/
theorem exists_isPrinted (hx : x.mantissa ≠ 0) (hf : x.isFinite = true) :
    ∃ (s k : ℕ) (n : ℤ), IsPrinted x s k n := by
  obtain ⟨hlow, hhigh⟩ := magnitude_bounds hx hf
  obtain ⟨h1, h2⟩ := pointFrom_spec (v := scaled (4 * x.mantissa) x.exponent)
    (scaled_den_pos ..) 640 (-323)
  have hn1 := h1 hlow
  have hn2 := h2 hhigh
  generalize hn : pointFrom (scaled (4 * x.mantissa) x.exponent) 640 (-323) = n at hn1 hn2
  change (10 : ℚ) ^ (n - 1) ≤ x.magnitude at hn1
  change x.magnitude < 10 ^ n at hn2
  obtain ⟨s, k, hs, hk1, hk2, hd, hleast⟩ := shortest_spec x n 17 1
    ⟨17, by decide, by decide, digitsAt_seventeen hx hn1⟩
  obtain ⟨lo, hlo, hlo', hsome, -⟩ := digitsAt_spec x n k
  obtain ⟨hor, -, -⟩ := hsome s hd
  obtain ⟨hcell, hclosest⟩ := digitsAt_some hx hd
  -- the digits around the number have `k` places
  have hpos : (0 : ℚ) < 10 ^ (n - k) := zpow_pos (by norm_num) _
  have hbounds : 10 ^ (k - 1) ≤ lo ∧ lo < 10 ^ k := by
    have e1 : (10 : ℚ) ^ (n - 1) = ((10 ^ (k - 1) : ℕ) : ℚ) * 10 ^ (n - k) := by
      push_cast
      rw [← zpow_natCast, ← zpow_add₀ (by norm_num)]
      congr 1
      omega
    have e2 : (10 : ℚ) ^ n = ((10 ^ k : ℕ) : ℚ) * 10 ^ (n - k) := by
      push_cast
      rw [← zpow_natCast, ← zpow_add₀ (by norm_num)]
      congr 1
      omega
    have g1 : ((10 ^ (k - 1) : ℕ) : ℚ) < (lo : ℚ) + 1 := by
      rw [← mul_lt_mul_iff_left₀ hpos, ← e1]
      exact lt_of_le_of_lt hn1 hlo'
    have g2 : (lo : ℚ) < ((10 ^ k : ℕ) : ℚ) := by
      rw [← mul_lt_mul_iff_left₀ hpos, ← e2]
      exact lt_of_le_of_lt hlo hn2
    constructor
    · have : 10 ^ (k - 1) < lo + 1 := by exact_mod_cast g1
      omega
    · exact_mod_cast g2
  have htext := toString_of_ne hx hn hs
  by_cases hten : s = 10 ^ k
  · rw [if_pos hten] at htext
    rw [hten] at hcell
    exact ⟨1, 1, n + 1, isPrinted_carry hx hn2 hcell htext⟩
  · rw [if_neg hten] at htext
    have hlt : s < 10 ^ k := by rcases hor with rfl | rfl <;> omega
    refine ⟨s, k, n, hk1, by omega, by rcases hor with rfl | rfl <;> omega, hlt, htext, hcell,
      ?_, hclosest, hn2, .inl hn1⟩
    intro hnormal m j hj hm
    rcases Int.lt_or_le (n - 1) j with hjn | hjn
    · exact not_inCell_of_above hnormal hk1 hlt hn2 hleast hclosest (by omega) hm
    · obtain ⟨i, hi⟩ : ∃ i : ℕ, j = n - i := ⟨(n - j).toNat, by omega⟩
      subst hi
      exact digitsAt_none hx (hleast i (by omega) (by omega)) m hm

end TangentFeed.Number
