import Mathlib.Order.Basic
import Mathlib.Order.Monotone.Basic
import Mathlib.Algebra.Order.Ring.Nat

/-!
# Rounding to the nearest

Representable magnitudes are numbered in increasing order, and `mid b` is the
midpoint between number `b` and the next. `Reaches mid b q` says that `q` rounds
to number `b` or below, midpoints going to the even number, so that what `q`
rounds to is the least `b` it reaches: `InCell`. `bisect` computes it.
-/

namespace Rounding

variable {K : Type} [LinearOrder K] {mid : ℕ → K} {b c : ℕ} {q : K}

def Reaches (mid : ℕ → K) (b : ℕ) (q : K) : Prop :=
  if b % 2 = 0 then q ≤ mid b else q < mid b

/-- `q` rounds to number `b`. -/
def InCell (mid : ℕ → K) (b : ℕ) (q : K) : Prop :=
  Reaches mid b q ∧ ∀ c < b, ¬ Reaches mid c q

theorem Reaches.mono (hm : StrictMono mid) (h : Reaches mid b q) (hbc : b ≤ c) :
    Reaches mid c q := by
  rcases hbc.eq_or_lt with rfl | hlt
  · exact h
  · have hle : q ≤ mid b := by
      unfold Reaches at h
      split at h
      · exact h
      · exact h.le
    have hq : q < mid c := hle.trans_lt (hm hlt)
    unfold Reaches
    split
    · exact hq.le
    · exact hq

theorem inCell_succ (hm : StrictMono mid) :
    InCell mid (b + 1) q ↔ Reaches mid (b + 1) q ∧ ¬ Reaches mid b q := by
  constructor
  · rintro ⟨h, hn⟩
    exact ⟨h, hn b (Nat.lt_succ_self b)⟩
  · rintro ⟨h, hn⟩
    exact ⟨h, fun c hc hr => hn (hr.mono hm (Nat.lt_succ_iff.1 hc))⟩

/-- The cell above `mid b`, written out. -/
theorem inCell_succ_iff (hm : StrictMono mid) : InCell mid (b + 1) q ↔
    if (b + 1) % 2 = 0 then mid b ≤ q ∧ q ≤ mid (b + 1) else mid b < q ∧ q < mid (b + 1) := by
  rw [inCell_succ hm]
  unfold Reaches
  by_cases h : (b + 1) % 2 = 0
  · have hb : ¬ b % 2 = 0 := by omega
    rw [if_pos h, if_pos h, if_neg hb, not_lt, and_comm]
  · have hb : b % 2 = 0 := by omega
    rw [if_neg h, if_neg h, if_pos hb, not_le, and_comm]

/-- **A value rounds to one number only.** -/
theorem InCell.unique (h : InCell mid b q) (h' : InCell mid c q) : b = c := by
  rcases lt_trichotomy b c with hlt | rfl | hlt
  · exact absurd h.1 (h'.2 b hlt)
  · rfl
  · exact absurd h'.1 (h.2 c hlt)

theorem Reaches.antitone (h : Reaches mid b q) {r : K} (hr : r ≤ q) : Reaches mid b r := by
  unfold Reaches at h ⊢
  split at h
  · rename_i hb
    rw [if_pos hb]
    exact hr.trans h
  · rename_i hb
    rw [if_neg hb]
    exact hr.trans_lt h

/-- A cell is an interval. -/
theorem InCell.between {r y : K} (hq : InCell mid b q) (hr : InCell mid b r) (h1 : q ≤ y)
    (h2 : y ≤ r) : InCell mid b y :=
  ⟨hr.1.antitone h2, fun c hc hy => hq.2 c hc (hy.antitone h1)⟩

/-- Of two values in different cells the one in the lower cell is less. -/
theorem InCell.lt {r : K} (hq : InCell mid b q) (hr : InCell mid c r) (h : b < c) : q < r :=
  not_le.1 fun hle => hr.2 b h (hq.1.antitone hle)

/-! ## The least number of a kind -/

/-- The least `b` between `lo` and `hi` with `p b`, by halving. -/
def bisect (p : ℕ → Bool) : ℕ → ℕ → ℕ → ℕ
  | 0, lo, _ => lo
  | fuel + 1, lo, hi =>
    if hi ≤ lo then lo
    else if p ((lo + hi) / 2) then bisect p fuel lo ((lo + hi) / 2)
    else bisect p fuel ((lo + hi) / 2 + 1) hi

theorem bisect_eq {p : ℕ → Bool} (hmono : ∀ i j, i ≤ j → p i = true → p j = true) {r : ℕ}
    (hr : p r = true) (hleast : ∀ c < r, p c = false) :
    ∀ {fuel lo hi : ℕ}, lo ≤ r → r ≤ hi → hi - lo < 2 ^ fuel → bisect p fuel lo hi = r := by
  intro fuel
  induction fuel with
  | zero =>
    intro lo hi h1 h2 h3
    rw [bisect]
    omega
  | succ fuel ih =>
    intro lo hi h1 h2 h3
    rw [Nat.pow_succ] at h3
    rw [bisect]
    split
    · omega
    · cases hp : p ((lo + hi) / 2) with
      | true =>
        have hle : r ≤ (lo + hi) / 2 := by
          by_contra hn
          rw [hleast _ (Nat.not_le.1 hn)] at hp
          cases hp
        exact ih h1 hle (by omega)
      | false =>
        have hlt : (lo + hi) / 2 < r := by
          by_contra hn
          rw [hmono _ _ (Nat.not_lt.1 hn) hr] at hp
          cases hp
        exact ih hlt h2 (by omega)

end Rounding
