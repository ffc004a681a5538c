import Mathlib.Algebra.BigOperators.Group.Finset.Basic
import Mathlib.Algebra.Order.BigOperators.Group.Finset
import Mathlib.Data.Set.Finite.Lattice
import Mathlib.Order.Filter.AtTopBot.Basic
import Std.Data.ExtTreeMap

/-!
# What runs out

Along an infinite run, what lowers a natural number that rises only finitely
often happens only finitely often: `finite_of_falls`. Such a number is the total
`weight` of a map from names to what still has to be done.
-/

namespace Descent

/-- **A number falls only finitely often** if it rises only finitely often. -/
theorem finite_of_falls {Φ : ℕ → ℕ} {rises falls : Set ℕ} (hr : rises.Finite)
    (hle : ∀ t ∉ rises, Φ (t + 1) ≤ Φ t)
    (hlt : ∀ t ∈ falls, t ∉ rises → Φ (t + 1) < Φ t) : falls.Finite := by
  obtain ⟨N, hN⟩ := hr.bddAbove
  have hlate : ∀ t, N < t → t ∉ rises := fun t ht hm => absurd (hN hm) (by omega)
  -- the least value after the last rise
  obtain ⟨M, hM, hmin⟩ : ∃ M, N < M ∧ ∀ t, N < t → Φ M ≤ Φ t := by
    have hne : (Φ '' {t | N < t}).Nonempty := ⟨_, N + 1, Nat.lt_succ_self N, rfl⟩
    obtain ⟨_, ⟨M, hM, rfl⟩, hmin⟩ := wellFounded_lt.has_min _ hne
    exact ⟨M, hM, fun t ht => Nat.not_lt.1 (hmin _ ⟨t, ht, rfl⟩)⟩
  have hconst : ∀ k, Φ (M + k) ≤ Φ M := by
    intro k
    induction k with
    | zero => exact le_rfl
    | succ k ih => exact (hle (M + k) (hlate _ (by omega))).trans ih
  refine (Set.finite_lt_nat M).subset fun t ht => ?_
  by_contra hge
  have hge : M ≤ t := Nat.not_lt.1 hge
  have h1 := hlt t ht (hlate t (by omega))
  have h2 := hconst (t - M)
  rw [Nat.add_sub_cancel' hge] at h2
  have h3 := hmin (t + 1) (by omega)
  omega

/-! ## The weight of a map -/

section Weight

open Std

variable {α β : Type} [DecidableEq α] {cmp : α → α → Ordering} [TransCmp cmp] [LawfulEqCmp cmp]
  {f : β → ℕ} {p q : ExtTreeMap α β cmp} {k : α}

/-- The sum over all values of a map. -/
def weight (f : β → ℕ) (p : ExtTreeMap α β cmp) : ℕ :=
  ∑ k ∈ p.keys.toFinset, (p[k]?).elim 0 f

theorem weight_eq_sum {s : Finset α} (hs : ∀ k, p[k]? ≠ none → k ∈ s) :
    weight f p = ∑ k ∈ s, (p[k]?).elim 0 f := by
  refine Finset.sum_subset (fun k hk => ?_) fun k _ hk => ?_
  · rw [List.mem_toFinset, ExtTreeMap.mem_keys] at hk
    apply hs
    rw [ExtTreeMap.getElem?_eq_some_getElem hk]
    exact Option.some_ne_none _
  · rw [List.mem_toFinset, ExtTreeMap.mem_keys] at hk
    rw [ExtTreeMap.getElem?_eq_none hk]
    rfl

/-- **A change at one name** changes the weight by what is there. -/
theorem weight_change (h : ∀ k', k' ≠ k → q[k']? = p[k']?) :
    weight f q + (p[k]?).elim 0 f = weight f p + (q[k]?).elim 0 f := by
  let s := insert k (p.keys.toFinset ∪ q.keys.toFinset)
  have mem : ∀ {m : ExtTreeMap α β cmp} {k' : α}, m[k']? ≠ none → k' ∈ m.keys.toFinset := by
    intro m k' hk
    rw [List.mem_toFinset, ExtTreeMap.mem_keys]
    by_contra hn
    exact hk (ExtTreeMap.getElem?_eq_none hn)
  have hk : k ∈ s := Finset.mem_insert_self _ _
  have hp : ∀ k', p[k']? ≠ none → k' ∈ s := fun k' h =>
    Finset.mem_insert_of_mem (Finset.mem_union_left _ (mem h))
  have hq : ∀ k', q[k']? ≠ none → k' ∈ s := fun k' h =>
    Finset.mem_insert_of_mem (Finset.mem_union_right _ (mem h))
  have hrest : ∑ k' ∈ s.erase k, (q[k']?).elim 0 f = ∑ k' ∈ s.erase k, (p[k']?).elim 0 f :=
    Finset.sum_congr rfl fun k' hk' => by rw [h k' (Finset.ne_of_mem_erase hk')]
  rw [weight_eq_sum hp, weight_eq_sum hq, ← Finset.add_sum_erase s _ hk,
    ← Finset.add_sum_erase s _ hk, hrest]
  omega

end Weight

end Descent
