import Mathlib.Data.Set.Lattice
import Mathlib.Order.Defs.LinearOrder

/-!
# Anti-entropy with one watermark per author

Replicas exchange items. An item has an author and a rank among the items of its
author, and one item may cover another, that is, make it superfluous. A replica
that holds `H` advertises for each author the greatest rank it holds, so it is
never again offered an item that `H` `Reaches`. That is sound while `H` is
`Covered`: whatever it reaches it `Knows`, having the item or one that covers it.
Merging a batch keeps this if the batch is `Closed`, and what a peer answers
from a covered state is (`Covered.answer`).
-/

namespace AntiEntropy

structure Feed (α δ σ : Type) where
  author : α → δ
  rank : α → σ
  covers : α → α → Prop
  refl : ∀ o, covers o o
  trans : ∀ {o p q}, covers o p → covers p q → covers o q

variable {α δ σ : Type} [LinearOrder σ] (F : Feed α δ σ)

/-- An item of the author of `o` at or past `o`. -/
def Reaches (H : Set α) (o : α) : Prop := ∃ q ∈ H, F.author q = F.author o ∧ F.rank o ≤ F.rank q

/-- `o` or an item that covers it. -/
def Knows (H : Set α) (o : α) : Prop := ∃ p ∈ H, F.covers o p

/-- Of the items `I`, those at or below the watermarks of `H` are known. -/
def Covered (I H : Set α) : Prop := ∀ o ∈ I, Reaches F H o → Knows F H o

/-- A batch that leaves no gap when merged into `H`. -/
def Closed (I H B : Set α) : Prop := ∀ o ∈ I, Reaches F B o → Knows F (H ∪ B) o

variable {F} {I N H H' B L : Set α} {o p : α}

omit [LinearOrder σ] in
theorem Knows.mono (h : Knows F H o) (hs : H ⊆ H') : Knows F H' o :=
  let ⟨p, hp, hc⟩ := h
  ⟨p, hs hp, hc⟩

theorem Reaches.mono (h : Reaches F H o) (hs : H ⊆ H') : Reaches F H' o :=
  let ⟨q, hq, hc⟩ := h
  ⟨q, hs hq, hc⟩

omit [LinearOrder σ] in
theorem Knows.of_mem (h : o ∈ H) : Knows F H o := ⟨o, h, F.refl o⟩

omit [LinearOrder σ] in
theorem Knows.of_covers (hc : F.covers o p) (h : Knows F H p) : Knows F H o :=
  let ⟨q, hq, hpq⟩ := h
  ⟨q, hq, F.trans hc hpq⟩

theorem reaches_union : Reaches F (H ∪ B) o ↔ Reaches F H o ∨ Reaches F B o := by
  constructor
  · rintro ⟨q, hq | hq, hc⟩
    · exact .inl ⟨q, hq, hc⟩
    · exact .inr ⟨q, hq, hc⟩
  · rintro (h | h)
    · exact h.mono Set.subset_union_left
    · exact h.mono Set.subset_union_right

/-- **Merging a closed batch.** -/
theorem Covered.merge (h : Covered F I H) (hb : Closed F I H B) : Covered F I (H ∪ B) := by
  intro o ho hr
  rcases reaches_union.1 hr with hr | hr
  · exact (h o ho hr).mono Set.subset_union_left
  · exact hb o ho hr

/-- A batch stays closed while more is merged. -/
theorem Closed.mono (h : Closed F I H B) (hs : H ⊆ H') : Closed F I H' B :=
  fun o ho hr => (h o ho hr).mono (Set.union_subset_union_left _ hs)

/-- Items issued elsewhere are past the watermarks. -/
theorem Covered.issue (h : Covered F I H) (hlate : ∀ o ∈ N, ¬ Reaches F H o) :
    Covered F (I ∪ N) H := by
  rintro o (ho | ho) hr
  · exact h o ho hr
  · exact absurd hr (hlate o ho)

/-- A replica that issues items holds the earlier ones of their author. -/
theorem Covered.issue_own (h : Covered F I H) (hown : ∀ o ∈ I, Reaches F N o → o ∈ H) :
    Covered F (I ∪ N) (H ∪ N) := by
  rintro o (ho | ho) hr
  · rcases reaches_union.1 hr with hr | hr
    · exact (h o ho hr).mono Set.subset_union_left
    · exact .of_mem (.inl (hown o ho hr))
  · exact .of_mem (.inr ho)

/-- Items issued later are past those of a batch already made. -/
theorem Closed.issue (h : Closed F I H B) (hlate : ∀ o ∈ N, ¬ Reaches F B o) :
    Closed F (I ∪ N) H B := by
  rintro o (ho | ho) hr
  · exact h o ho hr
  · exact absurd hr (hlate o ho)

/-- **An answer is closed.** A peer that holds `P` answers from its log `L` with
what is not reached by `H`. If what it holds is in its log, up to covering, or
known already, then the answer is closed and makes all of `P` known. -/
theorem Covered.answer {P : Set α} (hH : Covered F I H) (hP : Covered F I P)
    (hlog : ∀ o ∈ P, Knows F L o ∨ Knows F H o) (hL : L ⊆ I) (hBP : B ⊆ P)
    (hskip : ∀ p ∈ L, p ∉ B → Reaches F H p) :
    Closed F I H B ∧ ∀ o ∈ P, Knows F (H ∪ B) o := by
  have all : ∀ o ∈ P, Knows F (H ∪ B) o := by
    intro o ho
    rcases hlog o ho with ⟨p, hp, hc⟩ | hk
    · by_cases hb : p ∈ B
      · exact ⟨p, .inr hb, hc⟩
      · exact .of_covers hc ((hH p (hL hp) (hskip p hp hb)).mono Set.subset_union_left)
    · exact hk.mono Set.subset_union_left
  refine ⟨fun o ho hr => ?_, all⟩
  obtain ⟨p, hp, hc⟩ := hP o ho (hr.mono hBP)
  exact .of_covers hc (all p hp)

end AntiEntropy
