import Mathlib.Algebra.Order.Ring.Abs
import Mathlib.Algebra.Ring.Parity
import TangentFeed.Js.Numeral

/-!
# Whole numbers

A whole number below `10 ^ 21` is printed as the decimal digits of one natural
number. That one need not be its value: it is the natural number that ends in
the most zeros among those that round to the number, and of these the closest.
-/

namespace TangentFeed.Number

open Rounding

variable {x : Number}

/-- `d == d.truncate()`. -/
def isWhole (x : Number) : Bool :=
  1075 ≤ x.exponent || x.mantissa % 2 ^ (1075 - x.exponent) = 0

/-- The magnitude without its fraction. -/
def truncate (x : Number) : Nat :=
  if 1075 ≤ x.exponent then x.mantissa * 2 ^ (x.exponent - 1075)
  else x.mantissa / 2 ^ (1075 - x.exponent)

/-- Among the natural numbers that round to the same number as `n`, none ends in more
zeros, and none that ends in as many is closer to it. -/
def IsShortest (n : Nat) : Prop :=
  ∀ m : Nat, ofDecimal false m 0 = ofDecimal false n 0 →
    (∀ t, 10 ^ t ∣ m → 10 ^ t ∣ n) ∧
      ((∀ t, 10 ^ t ∣ n → 10 ^ t ∣ m) →
        |(n : ℚ) - (ofDecimal false n 0).magnitude| ≤ |(m : ℚ) - (ofDecimal false n 0).magnitude|)

/-! ## The step of a number -/

/-- The distance to the next number is a power of two. -/
theorem two_mul_halfStep (x : Number) :
    2 * x.halfStep = if 1075 ≤ x.exponent then (2 : ℚ) ^ (x.exponent - 1075)
      else ((2 : ℚ) ^ (1075 - x.exponent))⁻¹ := by
  unfold halfStep grain
  generalize x.exponent = e
  rw [show 1077 = 1075 + 2 from rfl]
  generalize 1075 = k
  split
  · rename_i h
    obtain ⟨j, rfl⟩ := Nat.exists_eq_add_of_le h
    rw [Nat.add_sub_cancel_left, pow_add]
    push_cast
    field_simp
    ring
  · rename_i h
    obtain ⟨j, rfl⟩ := Nat.exists_eq_add_of_le (Nat.le_of_not_le h)
    rw [Nat.add_sub_cancel_left, pow_add, pow_add]
    push_cast
    field_simp

theorem magnitude_eq_step (x : Number) : x.magnitude = x.mantissa * (2 * x.halfStep) := by
  rw [magnitude_eq]
  ring

/-- A whole number is its value. -/
theorem magnitude_of_isWhole (h : x.isWhole = true) : x.magnitude = x.truncate := by
  rw [magnitude_eq_step, two_mul_halfStep]
  unfold isWhole at h
  unfold truncate
  split
  · push_cast
    rfl
  · rename_i hlt
    rw [Bool.or_eq_true, decide_eq_true_eq, decide_eq_true_eq] at h
    obtain ⟨c, hc⟩ := Nat.dvd_of_mod_eq_zero (h.resolve_left hlt)
    have hpos : 0 < 2 ^ (1075 - x.exponent) := Nat.two_pow_pos _
    rw [hc, Nat.mul_div_cancel_left _ hpos]
    push_cast
    field_simp

/-- A number that a natural number rounds to is whole. -/
theorem isWhole_of_inCell (hx : x.mantissa ≠ 0) {n : ℕ} (h : InCell mid x.index n) :
    x.isWhole = true := by
  have habs := abs_le_of_inCell hx h
  have hstep := x.two_mul_halfStep
  have hh := x.halfStep_pos
  unfold isWhole
  rw [Bool.or_eq_true, decide_eq_true_eq, decide_eq_true_eq]
  by_cases he : 1075 ≤ x.exponent
  · exact .inl he
  · right
    rw [if_neg he] at hstep
    generalize 1075 - x.exponent = d at hstep
    -- both are multiples of the step, and they are closer than the step
    have hd : (0 : ℚ) < 2 ^ d := by positivity
    have hdist : |(n : ℚ) * 2 ^ d - x.mantissa| < 1 := by
      have hscale : (n : ℚ) * 2 ^ d - x.mantissa = (n - x.magnitude) * 2 ^ d := by
        rw [magnitude_eq_step, hstep]
        field_simp
      rw [hscale, abs_mul, abs_of_pos hd]
      have hlt : |(n : ℚ) - x.magnitude| < (2 ^ d)⁻¹ := by linarith
      calc |(n : ℚ) - x.magnitude| * 2 ^ d < (2 ^ d)⁻¹ * 2 ^ d := mul_lt_mul_of_pos_right hlt hd
        _ = 1 := inv_mul_cancel₀ hd.ne'
    have heq : ((n * 2 ^ d : ℕ) : ℤ) - x.mantissa = 0 := by
      have hz : |((n * 2 ^ d : ℕ) : ℤ) - x.mantissa| < 1 := by exact_mod_cast hdist
      exact Int.abs_lt_one_iff.1 hz
    have hnat : x.mantissa = n * 2 ^ d := by omega
    rw [hnat, Nat.mul_mod_left]

/-- A whole number that is not zero has all its significant bits. -/
theorem normal_of_isWhole (hx : x.mantissa ≠ 0) (h : x.isWhole = true) : 2 ^ 52 ≤ x.mantissa := by
  by_contra hlt
  have hden : x.exponent = 1 ∧ x.mantissa < 2 ^ 52 := by
    refine ⟨?_, by omega⟩
    unfold mantissa at hlt
    unfold exponent
    split at hlt <;> omega
  unfold isWhole at h
  rw [hden.1, Bool.or_eq_true, decide_eq_true_eq, decide_eq_true_eq] at h
  rcases h with h | h
  · omega
  · have hlarge : x.mantissa < 2 ^ (1075 - 1) := by
      generalize hd : 1075 - 1 = d
      exact hden.2.trans_le (Nat.pow_le_pow_right (by decide) (by omega))
    rw [Nat.mod_eq_of_lt hlarge] at h
    exact hx h

theorem magnitude_congr {y : Number} (h : x.index = y.index) : x.magnitude = y.magnitude := by
  unfold magnitude
  rw [mantissa_eq, mantissa_eq, exponent_eq, exponent_eq, h]

/-! ## The number that a decimal rounds to -/

/-- The number of an index, with a sign. -/
def ofIndex (neg : Bool) (b : ℕ) : Number := ⟨BitVec.ofNat 64 (b + if neg then 2 ^ 63 else 0)⟩

theorem index_ofIndex (neg : Bool) {b : ℕ} (h : b < 2 ^ 63) : (ofIndex neg b).index = b := by
  unfold ofIndex index
  rw [BitVec.toNat_ofNat]
  cases neg
  · rw [if_neg (by decide)]
    omega
  · rw [if_pos rfl]
    omega

theorem negative_ofIndex (neg : Bool) {b : ℕ} (h : b < 2 ^ 63) : (ofIndex neg b).negative = neg := by
  unfold ofIndex negative
  rw [BitVec.msb_eq_decide, BitVec.toNat_ofNat]
  cases neg
  · rw [if_neg (by decide), decide_eq_false_iff_not]
    omega
  · rw [if_pos rfl, decide_eq_true_eq]
    omega

theorem isFinite_iff : x.isFinite = true ↔ x.index < infinityIndex := by
  have := x.bits.isLt
  unfold isFinite biasedExponent index infinityIndex
  rw [bne_iff_ne, ne_eq]
  omega

/-- Every value has a least index that it reaches, infinity at the latest. -/
theorem exists_ofDecimal (neg : Bool) (s : ℕ) (e : ℤ) : ∃ b ≤ infinityIndex,
    ofDecimal neg s e = ofIndex neg b ∧ (b < infinityIndex → InCell mid b (s * (10 : ℚ) ^ e)) ∧
      ∀ c, Reaches mid c (s * (10 : ℚ) ^ e) → b ≤ c := by
  have hden := decimal_den_pos s e 0
  have hval : (decimal s e 0).val = s * (10 : ℚ) ^ e := by rw [val_decimal, sub_zero]
  have hex : ∃ b, reaches (decimal s e 0) b = true :=
    ⟨infinityIndex, (reaches_iff hden).2 (.inl le_rfl)⟩
  classical
  have hfind := Nat.find_spec hex
  have hleast : ∀ c < Nat.find hex, reaches (decimal s e 0) c = false := fun c hc =>
    Bool.eq_false_iff.2 (Nat.find_min hex hc)
  have hle : Nat.find hex ≤ infinityIndex := Nat.find_le ((reaches_iff hden).2 (.inl le_rfl))
  refine ⟨Nat.find hex, hle, ?_, fun hlt => ?_, fun c hc => Nat.find_le ?_⟩
  · unfold ofDecimal ofIndex
    rw [bisect_eq (fun i j hij hi => ?_) hfind hleast (Nat.zero_le _) hle (by decide)]
    rw [reaches_iff hden] at hi ⊢
    rcases hi with hi | hi
    · exact .inl (hi.trans hij)
    · exact .inr (hi.mono strictMono_mid hij)
  · rw [reaches_iff hden, hval] at hfind
    refine ⟨hfind.resolve_left (Nat.not_le.2 hlt), fun c hc hr => ?_⟩
    have hf := hleast c hc
    rw [Bool.eq_false_iff, ne_eq, reaches_iff hden, hval] at hf
    exact hf (.inr hr)
  · rw [reaches_iff hden, hval]
    exact .inr hc

theorem ofDecimal_eq_ofIndex (neg : Bool) {b s : ℕ} {e : ℤ} (hb : b < infinityIndex)
    (h : InCell mid b (s * (10 : ℚ) ^ e)) : ofDecimal neg s e = ofIndex neg b := by
  have hlt : b < 2 ^ 63 := hb.trans (by decide)
  have hi := index_ofIndex neg hlt
  have hread := ofDecimal_of_inCell (isFinite_iff.2 (by rwa [hi])) (by rwa [hi] :
    InCell mid (ofIndex neg b).index (s * (10 : ℚ) ^ e))
  rwa [negative_ofIndex neg hlt] at hread

theorem inCell_natCast {b n : ℕ} :
    InCell mid b ((n : ℚ) * (10 : ℚ) ^ (0 : ℤ)) ↔ InCell mid b (n : ℚ) := by
  rw [zpow_zero, mul_one]

/-- Natural numbers round to one number if they are in one cell. -/
theorem ofDecimal_eq_iff (hf : x.isFinite = true) {n m : ℕ} (hn : InCell mid x.index n) :
    ofDecimal false m 0 = ofDecimal false n 0 ↔ InCell mid x.index m := by
  have hfin := isFinite_iff.1 hf
  have hi : infinityIndex < 2 ^ 63 := by decide
  rw [ofDecimal_eq_ofIndex false hfin (inCell_natCast.2 hn)]
  constructor
  · intro h
    obtain ⟨c, hc, hm, hcell, -⟩ := exists_ofDecimal false m 0
    rw [hm] at h
    have hindex := congrArg index h
    rw [index_ofIndex false (hc.trans_lt hi), index_ofIndex false (hfin.trans hi)] at hindex
    rw [hindex] at hcell
    exact inCell_natCast.1 (hcell hfin)
  · exact fun h => ofDecimal_eq_ofIndex false hfin (inCell_natCast.2 h)

/-! ## What a whole number is printed as -/

/-- `10 ^ 21`. -/
def tenTo21 : Number := ⟨0x444b1ae4d6e2ef50⟩

theorem magnitude_tenTo21 : tenTo21.magnitude = 10 ^ 21 := by
  have hw : tenTo21.isWhole = true := by decide +kernel
  have ht : tenTo21.truncate = 10 ^ 21 := by decide +kernel
  rw [magnitude_of_isWhole hw, ht]
  norm_num

/-- `10 ^ 21` rounds to no smaller number. -/
theorem not_inCell_tenTo21 (h : x.magnitude < 10 ^ 21) :
    ¬ InCell mid x.index ((10 : ℚ) ^ 21) := by
  intro hc
  have hself := inCell_magnitude (x := tenTo21) (by decide)
  rw [magnitude_tenTo21] at hself
  rw [magnitude_congr (hc.unique hself), magnitude_tenTo21] at h
  exact lt_irrefl _ h

namespace IsPrinted

variable {s k : ℕ} {n : ℤ}

/-- A whole number below `10 ^ 21` is printed without a point or an exponent. -/
theorem positional (hp : IsPrinted x s k n) (hx : x.mantissa ≠ 0) (hw : x.isWhole = true)
    (hlt : x.truncate < 10 ^ 21) : (k : ℤ) ≤ n ∧ n ≤ 21 := by
  have hmag := magnitude_of_isWhole hw
  have hlt' : x.magnitude < 10 ^ 21 := by
    rw [hmag]
    exact_mod_cast hlt
  constructor
  · by_contra hkn
    refine hp.coarser (normal_of_isWhole hx hw) x.truncate 0 (by omega) ?_
    rw [inCell_natCast, ← hmag]
    exact inCell_magnitude hx
  · by_contra hn
    have hge : (10 : ℚ) ^ 21 ≤ 10 ^ (n - 1) := by
      rw [← zpow_natCast]
      exact zpow_le_zpow_right₀ (by norm_num) (by push_cast; omega)
    rcases hp.point.2 with h | h
    · linarith
    · have hcell := hp.cell
      rw [h] at hcell
      exact not_inCell_tenTo21 hlt' ((inCell_magnitude hx).between hcell hlt'.le hge)

/-- What is printed without a point or an exponent is a natural number that rounds to the
number, which is whole. -/
theorem whole (hp : IsPrinted x s k n) (hx : x.mantissa ≠ 0) (h : (k : ℤ) ≤ n ∧ n ≤ 21) :
    x.isWhole = true ∧ x.truncate < 10 ^ 21 ∧
      InCell mid x.index ((s * 10 ^ (n - k).toNat : ℕ) : ℚ) := by
  have hcell : InCell mid x.index ((s * 10 ^ (n - k).toNat : ℕ) : ℚ) := by
    have hc := hp.cell
    rw [show n - k = ((n - k).toNat : ℤ) by omega, zpow_natCast] at hc
    exact_mod_cast hc
  have hw := isWhole_of_inCell hx hcell
  refine ⟨hw, ?_, hcell⟩
  have hlt := hp.point.1
  rw [magnitude_of_isWhole hw] at hlt
  have h21 : (10 : ℚ) ^ n ≤ 10 ^ 21 := by
    rw [← zpow_natCast]
    exact zpow_le_zpow_right₀ (by norm_num) (by push_cast; omega)
  exact_mod_cast hlt.trans_le h21

end IsPrinted

/-! ## The shortest natural number of a cell -/

theorem isShortest_iff (hf : x.isFinite = true) {n : ℕ} (hn : InCell mid x.index n) :
    IsShortest n ↔ ∀ m : ℕ, InCell mid x.index m →
      (∀ t, 10 ^ t ∣ m → 10 ^ t ∣ n) ∧ ((∀ t, 10 ^ t ∣ n → 10 ^ t ∣ m) →
        |(n : ℚ) - x.magnitude| ≤ |(m : ℚ) - x.magnitude|) := by
  have hfin := isFinite_iff.1 hf
  have hmag : (ofDecimal false n 0).magnitude = x.magnitude := by
    rw [ofDecimal_eq_ofIndex false hfin (inCell_natCast.2 hn)]
    exact magnitude_congr (index_ofIndex false (hfin.trans (by decide)))
  unfold IsShortest
  simp only [hmag, ofDecimal_eq_iff hf hn]

/-- Two multiples of a power of ten are never equally close to a number that lies between
them and that both round to, unless a multiple is closer. -/
theorem eq_of_equally_close (hx : x.mantissa ≠ 0) (hw : x.isWhole = true) {a b r : ℕ}
    (ha : InCell mid x.index ((a * 10 ^ r : ℕ) : ℚ))
    (hclosest : ∀ c : ℕ, InCell mid x.index ((c * 10 ^ r : ℕ) : ℚ) →
      |((a * 10 ^ r : ℕ) : ℚ) - x.magnitude| ≤ |((c * 10 ^ r : ℕ) : ℚ) - x.magnitude|)
    (hdist : |((a * 10 ^ r : ℕ) : ℚ) - x.magnitude| = |((b * 10 ^ r : ℕ) : ℚ) - x.magnitude|) :
    a = b := by
  rcases abs_eq_abs.1 hdist with h | h
  · have heq : a * 10 ^ r = b * 10 ^ r := by exact_mod_cast sub_left_injective h
    exact Nat.eq_of_mul_eq_mul_right (by positivity) heq
  have hmag := magnitude_of_isWhole hw
  have hsum : (a + b) * 10 ^ r = 2 * x.truncate := by
    have hq : (((a + b) * 10 ^ r : ℕ) : ℚ) = ((2 * x.truncate : ℕ) : ℚ) := by
      push_cast at h ⊢
      rw [← hmag]
      linarith
    exact_mod_cast hq
  have habs := abs_le_of_inCell hx ha
  rcases Nat.even_or_odd (a + b) with ⟨c, hc⟩ | hodd
  · -- the number itself is a multiple, and the closest
    have hself : c * 10 ^ r = x.truncate := by
      have : 2 * (c * 10 ^ r) = 2 * x.truncate := by rw [← hsum, hc]; ring
      omega
    have hc0 := hclosest c (by rw [hself, ← hmag]; exact inCell_magnitude hx)
    rw [hself, ← hmag, sub_self, abs_zero] at hc0
    have hzero := abs_eq_zero.1 (le_antisymm hc0 (abs_nonneg _))
    rw [hzero, zero_eq_neg] at h
    have heq : a * 10 ^ r = b * 10 ^ r := by exact_mod_cast sub_left_injective (hzero.trans h.symm)
    exact Nat.eq_of_mul_eq_mul_right (by positivity) heq
  · -- twice the number is an odd multiple of the power, but an even one of the step
    exfalso
    have hne : a ≠ b := by
      rintro rfl
      exact absurd hodd (by rw [Nat.not_odd_iff_even]; exact ⟨a, rfl⟩)
    have hgap : (10 : ℚ) ^ r ≤ 2 * x.halfStep := by
      have hz : 1 ≤ |(a : ℤ) - b| := Int.one_le_abs (by omega)
      have hq : (1 : ℚ) ≤ |(a : ℚ) - b| := by exact_mod_cast hz
      have hdiff : ((a : ℚ) - b) * 10 ^ r = 2 * (((a * 10 ^ r : ℕ) : ℚ) - x.magnitude) := by
        push_cast at h ⊢
        linarith
      have hscaled : |(a : ℚ) - b| * 10 ^ r = 2 * |((a * 10 ^ r : ℕ) : ℚ) - x.magnitude| := by
        rw [← abs_of_pos (by positivity : (0 : ℚ) < 10 ^ r), ← abs_mul, hdiff, abs_mul, abs_two]
      have := mul_le_mul_of_nonneg_right hq (by positivity : (0 : ℚ) ≤ 10 ^ r)
      linarith
    have hstep := x.two_mul_halfStep
    by_cases he : 1075 ≤ x.exponent
    · rw [if_pos he] at hstep
      rw [hstep] at hgap
      unfold truncate at hsum
      rw [if_pos he] at hsum
      generalize x.exponent - 1075 = e at hgap hsum
      have hre : r ≤ e := by
        have h2 : 2 ^ r ≤ 2 ^ e := (Nat.pow_le_pow_left (by decide) r).trans
          (by exact_mod_cast hgap : 10 ^ r ≤ 2 ^ e)
        exact (Nat.pow_le_pow_iff_right (by decide)).1 h2
      obtain ⟨d, rfl⟩ := Nat.exists_eq_add_of_le hre
      have hcancel : (a + b) * 5 ^ r = 2 * (x.mantissa * 2 ^ d) := by
        have h10 : (10 : ℕ) ^ r = 5 ^ r * 2 ^ r := by rw [← Nat.mul_pow]
        refine Nat.eq_of_mul_eq_mul_right (Nat.two_pow_pos r) ?_
        calc (a + b) * 5 ^ r * 2 ^ r = (a + b) * 10 ^ r := by rw [h10]; ring
          _ = 2 * (x.mantissa * 2 ^ (r + d)) := hsum
          _ = 2 * (x.mantissa * 2 ^ d) * 2 ^ r := by rw [pow_add]; ring
      have h5 : Odd ((a + b) * 5 ^ r) := hodd.mul (Odd.pow (by decide))
      rw [hcancel] at h5
      exact absurd h5 (by rw [Nat.not_odd_iff_even]; exact even_two_mul _)
    · rw [if_neg he] at hstep
      have h1 : (1 : ℚ) ≤ 10 ^ r := one_le_pow₀ (by norm_num)
      have h2 : ((2 : ℚ) ^ (1075 - x.exponent))⁻¹ < 1 :=
        inv_lt_one_of_one_lt₀ (one_lt_pow₀ (by norm_num) (by omega))
      linarith

/-- **What is printed is the shortest natural number that rounds to the number.** -/
theorem IsPrinted.eq_iff {s k : ℕ} {n : ℤ} (hp : IsPrinted x s k n) (hx : x.mantissa ≠ 0)
    (hf : x.isFinite = true) (hpos : (k : ℤ) ≤ n ∧ n ≤ 21) {m : ℕ}
    (hm : InCell mid x.index m) : m = s * 10 ^ (n - k).toNat ↔ IsShortest m := by
  obtain ⟨hw, -, hcell⟩ := hp.whole hx hpos
  have hnormal := normal_of_isWhole hx hw
  obtain ⟨r, hr⟩ : ∃ r : ℕ, n - k = r := ⟨(n - k).toNat, by omega⟩
  have hcoarser := hp.coarser hnormal
  have hclosest := hp.closest
  rw [hr] at hcoarser hclosest
  rw [hr, Int.toNat_natCast] at hcell ⊢
  have hle : ∀ t c : ℕ, 10 ^ t ∣ c → InCell mid x.index (c : ℚ) → t ≤ r := by
    intro t c hd hc
    by_contra ht
    obtain ⟨d, rfl⟩ := hd
    refine hcoarser d t (by omega) ?_
    rw [mul_comm] at hc
    rw [zpow_natCast]
    exact_mod_cast hc
  have hclosest' : ∀ c : ℕ, InCell mid x.index ((c * 10 ^ r : ℕ) : ℚ) →
      |((s * 10 ^ r : ℕ) : ℚ) - x.magnitude| ≤ |((c * 10 ^ r : ℕ) : ℚ) - x.magnitude| := by
    intro c hc
    rw [zpow_natCast] at hclosest
    have := hclosest c (by exact_mod_cast hc)
    exact_mod_cast this
  rw [isShortest_iff hf hm]
  constructor
  · rintro rfl c hc
    refine ⟨fun t ht => (pow_dvd_pow 10 (hle t c ht hc)).mul_left s, fun hdvd => ?_⟩
    obtain ⟨d, rfl⟩ := hdvd r (Nat.dvd_mul_left _ _)
    rw [mul_comm (10 ^ r) d] at hc ⊢
    exact hclosest' d hc
  · intro hshort
    obtain ⟨hzeros, hclose⟩ := hshort _ hcell
    obtain ⟨d, rfl⟩ := hzeros r (Nat.dvd_mul_left _ _)
    rw [mul_comm (10 ^ r) d] at hm hclose ⊢
    have hback := hclose fun t ht => (pow_dvd_pow 10 (hle t _ ht hm)).mul_left s
    rw [eq_of_equally_close hx hw hcell hclosest' (le_antisymm (hclosest' d hm) hback)]

theorem decimalDigits_mul_pow {s : ℕ} (hs : 0 < s) (r : ℕ) :
    decimalDigits (s * 10 ^ r) = decimalDigits s ++ List.replicate r 0x30 := by
  induction r with
  | zero => rw [pow_zero, Nat.mul_one, List.replicate_zero, List.append_nil]
  | succ r ih =>
    have hpos : 0 < s * 10 ^ r := Nat.mul_pos hs (by positivity)
    have hdiv : s * 10 ^ (r + 1) / 10 = s * 10 ^ r := by
      rw [pow_succ, ← Nat.mul_assoc, Nat.mul_div_cancel _ (by decide)]
    have hmod : s * 10 ^ (r + 1) % 10 = 0 := by
      rw [pow_succ, ← Nat.mul_assoc, Nat.mul_mod_left]
    rw [decimalDigits_of_le (by rw [pow_succ, ← Nat.mul_assoc]; omega), hdiv, hmod, ih,
      List.replicate_succ', List.append_assoc]
    rfl

/-- **A whole number below `10 ^ 21` is printed as the shortest natural number that rounds
to it.** -/
theorem toString_whole (hx : x.mantissa ≠ 0) (hf : x.isFinite = true) (hw : x.isWhole = true)
    (hlt : x.truncate < 10 ^ 21) : ∃ p : ℕ,
      x.toString = (if x.negative then js "-" else []) ++ decimalDigits p ∧
      InCell mid x.index (p : ℚ) ∧
      ∀ m : ℕ, InCell mid x.index (m : ℚ) → (m = p ↔ IsShortest m) := by
  obtain ⟨s, k, n, hp⟩ := exists_isPrinted hx hf
  have hpos := hp.positional hx hw hlt
  have hs : 0 < s := (Nat.pow_pos (by decide)).trans_le hp.low
  refine ⟨s * 10 ^ (n - k).toNat, ?_, (hp.whole hx hpos).2.2, fun m hm => hp.eq_iff hx hf hpos hm⟩
  have hlen := length_decimalDigits hp.one_le hp.low hp.high
  rw [hp.toString_eq, decimalDigits_mul_pow hs]
  unfold layout
  simp only [hlen]
  rw [if_pos hpos]

theorem natCast_eq_of_close {a b : ℕ} (h : |(a : ℚ) - b| < 1) : a = b := by
  have hz : |(a : ℤ) - b| < 1 := by exact_mod_cast h
  have := Int.abs_lt_one_iff.1 hz
  omega

/-- `Number.MAX_SAFE_INTEGER`. -/
def maxSafeInteger : Number := ⟨0x433fffffffffffff⟩

theorem exponent_of_safe {n : ℕ} (hn : n < 2 ^ 53) (h : InCell mid x.index (n : ℚ)) :
    x.exponent ≤ 1075 := by
  by_contra he
  have hlt : maxSafeInteger.index < x.index := by
    have hm : maxSafeInteger.index = 1076 * 2 ^ 52 - 1 := by decide
    rw [exponent_eq] at he
    unfold scale at he
    omega
  have hself := inCell_magnitude (x := maxSafeInteger) (by decide)
  have hlarge := hself.lt h hlt
  have ht : maxSafeInteger.truncate = 2 ^ 53 - 1 := by decide +kernel
  rw [magnitude_of_isWhole (by decide +kernel), ht] at hlarge
  have : 2 ^ 53 - 1 < n := by exact_mod_cast hlarge
  omega

/-! ## The number of a natural number -/

/-- A natural number up to `10 ^ 21` rounds to a finite number. -/
theorem exists_inCell {n : ℕ} (hn : n ≤ 10 ^ 21) : ∃ b < infinityIndex, InCell mid b (n : ℚ) := by
  obtain ⟨b, hb, -, hcell, hleast⟩ := exists_ofDecimal false n 0
  have hself := (inCell_magnitude (x := tenTo21) (by decide)).1
  rw [magnitude_tenTo21] at hself
  have hlt : b < infinityIndex := by
    refine (hleast tenTo21.index ?_).trans_lt (by decide)
    rw [zpow_zero, mul_one]
    exact hself.antitone (by exact_mod_cast hn)
  exact ⟨b, hlt, inCell_natCast.1 (hcell hlt)⟩

theorem mantissa_ne_zero_of_inCell {n : ℕ} (hn : n ≠ 0) (h : InCell mid x.index (n : ℚ)) :
    x.mantissa ≠ 0 := by
  intro hx
  rw [mantissa_eq_zero.1 hx] at h
  have hle : (n : ℚ) ≤ mid 0 := h.1
  have hmid : mid 0 < 1 := by
    unfold mid grain
    rw [div_lt_one (by positivity)]
    exact_mod_cast (by decide +kernel : (4 * significand 0 + 2) * 2 ^ scale 0 < 2 ^ 1077)
  have hone : (1 : ℚ) ≤ n := by exact_mod_cast Nat.one_le_iff_ne_zero.2 hn
  linarith

/-- **A safe integer is the shortest**: no other natural number rounds to its number. -/
theorem isShortest_of_safe {n : ℕ} (hn : n < 2 ^ 53) : IsShortest n := by
  obtain ⟨b, hb, hcell⟩ := exists_inCell (hn.le.trans (by norm_num))
  have hi := index_ofIndex false (hb.trans (by decide))
  obtain ⟨x, rfl⟩ : ∃ x : Number, x.index = b := ⟨_, hi⟩
  rw [isShortest_iff (isFinite_iff.2 hb) hcell]
  suffices hone : ∀ m : ℕ, InCell mid x.index (m : ℚ) → m = n by
    intro m hm
    rw [hone m hm]
    exact ⟨fun _ => id, fun _ => le_rfl⟩
  intro m hm
  by_cases hx : x.mantissa = 0
  · have hzero : ∀ k : ℕ, InCell mid x.index (k : ℚ) → k = 0 := fun k hk => by
      by_contra hne
      exact mantissa_ne_zero_of_inCell hne hk hx
    rw [hzero m hm, hzero n hcell]
  · have hw := magnitude_of_isWhole (isWhole_of_inCell hx hcell)
    have hstep := x.two_mul_halfStep
    have hu : 2 * x.halfStep ≤ 1 := by
      have he := exponent_of_safe hn hcell
      rw [hstep]
      split
      · rw [show x.exponent - 1075 = 0 by omega, pow_zero]
      · exact inv_le_one_of_one_le₀ (one_le_pow₀ (by norm_num))
    have hclose : ∀ k : ℕ, InCell mid x.index (k : ℚ) → k = x.truncate := fun k hk => by
      have habs := abs_le_of_inCell hx hk
      rw [hw] at habs
      exact natCast_eq_of_close (by linarith)
    rw [hclose m hm, hclose n hcell]

/-- A natural number of 64 bits rounds to a whole number below `10 ^ 21`. -/
theorem whole_of_natCast {n : ℕ} (hn : n ≠ 0) (hlt : n < 2 ^ 64)
    (h : InCell mid x.index (n : ℚ)) :
    x.mantissa ≠ 0 ∧ x.isWhole = true ∧ x.truncate < 10 ^ 21 := by
  have hx := mantissa_ne_zero_of_inCell hn h
  have hw := isWhole_of_inCell hx h
  refine ⟨hx, hw, ?_⟩
  have habs := abs_le.1 (abs_le_of_inCell hx h)
  have h2 := two_mul_halfStep_le hx
  have hn' : (n : ℚ) < 2 ^ 64 := by exact_mod_cast hlt
  have hpow : 2 * (2 : ℚ) ^ 64 < 10 ^ 21 := by norm_num
  have hmag : x.magnitude < 10 ^ 21 := by linarith
  rw [magnitude_of_isWhole hw] at hmag
  exact_mod_cast hmag

end TangentFeed.Number
