import Mathlib.Data.Set.Basic
import Mathlib.Order.Defs.LinearOrder

/-!
# Forgetting dead groups

Items are in cells and cells in groups. The latest item of a cell counts, and the
marker cell of a group says whether the group is dead. A log may forget a dead
group whole, the marker included. `Settled S H` relates such a log `S` to the
history `H` of all it ever took in: of every group it has all that counts
(`Intact`), or the group is dead and the log hides it (`Buried`). Forgetting keeps
this (`Settled.forget`). Taking in items keeps it if it is `Careful`: a group
that is no longer intact stays hidden. Settled logs whose histories know the
same items show the same (`Settled.resolve`, `Settled.hides`).
-/

namespace Graves

structure Layout (α κ γ σ : Type) where
  cell : α → κ
  rank : α → σ
  group : κ → γ
  marker : γ → κ
  group_marker : ∀ g, group (marker g) = g
  dead : α → Prop

variable {α κ γ σ : Type} [LinearOrder σ] (L : Layout α κ γ σ)

/-- An item of the cell, and none of it is later. -/
structure Latest (S : Set α) (k : κ) (o : α) : Prop where
  mem : o ∈ S
  cell : L.cell o = k
  le : ∀ p ∈ S, L.cell p = k → L.rank p ≤ L.rank o

/-- The latest marker of the group is a dead one. -/
def Dead (S : Set α) (g : γ) : Prop := ∃ o, Latest L S (L.marker g) o ∧ L.dead o

/-- The item, or a later one of its cell. -/
def Superseded (S : Set α) (o : α) : Prop := ∃ p ∈ S, L.cell p = L.cell o ∧ L.rank o ≤ L.rank p

/-- An item of the group. -/
def Touches (S : Set α) (g : γ) : Prop := ∃ o ∈ S, L.group (L.cell o) = g

/-- The log has all of the group that counts. -/
def Intact (S H : Set α) (g : γ) : Prop := ∀ o ∈ H, L.group (L.cell o) = g → Superseded L S o

/-- Nothing of the group shows. -/
def Hides (S : Set α) (g : γ) : Prop := Touches L S g → Dead L S g

structure Buried (S H : Set α) (g : γ) : Prop where
  dead : Dead L H g
  hides : Hides L S g

def Settled (S H : Set α) : Prop := ∀ g, Intact L S H g ∨ Buried L S H g

/-- What is taken in leaves hidden what the log has lost. -/
def Careful (S H B : Set α) : Prop := ∀ g, ¬ Intact L S H g → Touches L B g → Dead L (S ∪ B) g

/-- Ranks tell the items of a cell apart. -/
def Distinct (S : Set α) : Prop :=
  ∀ o ∈ S, ∀ p ∈ S, L.cell o = L.cell p → L.rank o = L.rank p → o = p

variable {L} {S S' H I B : Set α} {g : γ} {k : κ} {o p : α}

omit [LinearOrder σ] in
theorem not_touches : ¬ Touches L S g ↔ ∀ o ∈ S, L.group (L.cell o) ≠ g := by
  constructor
  · exact fun h o ho hg => h ⟨o, ho, hg⟩
  · rintro h ⟨o, ho, hg⟩
    exact h o ho hg

theorem Superseded.mono (h : Superseded L S o) (hs : S ⊆ H) : Superseded L H o :=
  let ⟨p, hp, hc⟩ := h
  ⟨p, hs hp, hc⟩

theorem Superseded.of_mem (h : o ∈ S) : Superseded L S o := ⟨o, h, rfl, le_refl _⟩

/-- An item of which no later one is known is there itself. -/
theorem Latest.mem_of_superseded (hd : Distinct L I) (h : Latest L I k o) (hs : S ⊆ I)
    (hk : Superseded L S o) : o ∈ S := by
  obtain ⟨p, hp, hc, hle⟩ := hk
  have heq := le_antisymm hle (h.le p (hs hp) (hc.trans h.cell))
  rw [hd o h.mem p (hs hp) hc.symm heq]
  exact hp

/-! ## Taking in -/

/-- What does not touch the group leaves it dead. -/
theorem Dead.union (h : Dead L S g) (hb : ¬ Touches L B g) : Dead L (S ∪ B) g := by
  obtain ⟨o, ho, hdead⟩ := h
  refine ⟨o, ⟨.inl ho.mem, ho.cell, ?_⟩, hdead⟩
  rintro p (hp | hp) hc
  · exact ho.le p hp hc
  · exact absurd ((congrArg L.group hc).trans (L.group_marker g)) (not_touches.1 hb p hp)

/-- A group that was dead in the history, and is dead in the log with the new
items, is dead in the history with them. -/
theorem Dead.history (h : Dead L H g) (hs : S ⊆ H) (hb : Dead L (S ∪ B) g) :
    Dead L (H ∪ B) g := by
  obtain ⟨o, ho, hdead⟩ := h
  obtain ⟨q, hq, hdead'⟩ := hb
  rcases le_total (L.rank o) (L.rank q) with hle | hle
  · refine ⟨q, ⟨hq.mem.imp_left fun h => hs h, hq.cell, ?_⟩, hdead'⟩
    rintro p (hp | hp) hc
    · exact le_trans (ho.le p hp hc) hle
    · exact hq.le p (.inr hp) hc
  · refine ⟨o, ⟨.inl ho.mem, ho.cell, ?_⟩, hdead⟩
    rintro p (hp | hp) hc
    · exact ho.le p hp hc
    · exact le_trans (hq.le p (.inr hp) hc) hle

/-- **Careful growth keeps a log settled.** -/
theorem Settled.grow (h : Settled L S H) (hs : S ⊆ H) (hb : Careful L S H B) :
    Settled L (S ∪ B) (H ∪ B) := by
  intro g
  by_cases hi : Intact L S H g
  · left
    rintro o (ho | ho) hg
    · exact (hi o ho hg).mono Set.subset_union_left
    · exact .of_mem (.inr ho)
  · right
    have hold := (h g).resolve_left hi
    by_cases ht : Touches L B g
    · exact ⟨hold.dead.history hs (hb g hi ht), fun _ => hb g hi ht⟩
    · refine ⟨hold.dead.union ht, ?_⟩
      rintro ⟨o, ho | ho, hg⟩
      · exact (hold.hides ⟨o, ho, hg⟩).union ht
      · exact absurd hg (not_touches.1 ht o ho)

/-! ## Forgetting -/

/-- From `S` to `S'` the dead groups of `R` go whole, and of the others what is
latest stays. -/
structure Forgets (L : Layout α κ γ σ) (S S' : Set α) (R : Set γ) : Prop where
  sub : S' ⊆ S
  dead : ∀ g ∈ R, Dead L S g
  gone : ∀ g ∈ R, ¬ Touches L S' g
  kept : ∀ k o, Latest L S k o → L.group k ∉ R → o ∈ S'

/-- **Forgetting dead groups keeps a log settled.** -/
theorem Settled.forget (h : Settled L S H) (hs : S ⊆ H)
    (htotal : ∀ o ∈ S, ∃ w, Latest L S (L.cell o) w) {R : Set γ} (hf : Forgets L S S' R) :
    Settled L S' H := by
  intro g
  by_cases hg : g ∈ R
  · right
    refine ⟨?_, fun ht => absurd ht (hf.gone g hg)⟩
    rcases h g with hi | hb
    · -- the latest marker of the log is that of the history
      obtain ⟨o, ho, hdead⟩ := hf.dead g hg
      refine ⟨o, ⟨hs ho.mem, ho.cell, fun p hp hc => ?_⟩, hdead⟩
      obtain ⟨q, hq, hqc, hle⟩ := hi p hp ((congrArg L.group hc).trans (L.group_marker g))
      exact le_trans hle (ho.le q hq (hqc.trans hc))
    · exact hb.dead
  · rcases h g with hi | hb
    · left
      intro o ho hog
      obtain ⟨p, hp, hpc, hle⟩ := hi o ho hog
      obtain ⟨w, hw⟩ := htotal p hp
      have hkept := hf.kept _ w hw (by rw [hpc, hog]; exact hg)
      exact ⟨w, hkept, hw.cell.trans hpc, le_trans hle (hw.le p hp rfl)⟩
    · right
      refine ⟨hb.dead, ?_⟩
      rintro ⟨o, ho, hog⟩
      obtain ⟨w, hw, hdead⟩ := hb.hides ⟨o, hf.sub ho, hog⟩
      have hkept := hf.kept _ w hw (by rw [L.group_marker]; exact hg)
      exact ⟨w, ⟨hkept, hw.cell, fun p hp => hw.le p (hf.sub hp)⟩, hdead⟩

/-! ## What shows -/

/-- **A dead group stays hidden.** A settled log hides a group whose latest
marker of all it once took in, if that one is dead. -/
theorem Settled.hides (h : Settled L S H) (hs : S ⊆ H) (hI : H ⊆ I) (hd : Distinct L I)
    (ho : Latest L I (L.marker g) o) (hdead : L.dead o) (hmem : o ∈ H) : Hides L S g := by
  intro ht
  rcases h g with hi | hb
  · have hin := ho.mem_of_superseded hd (hs.trans hI)
      (hi o hmem ((congrArg L.group ho.cell).trans (L.group_marker g)))
    exact ⟨o, ⟨hin, ho.cell, fun p hp => ho.le p (hI (hs hp))⟩, hdead⟩
  · exact hb.hides ht

/-- A settled log whose history knows all items has all that counts of a group,
or the group is dead. -/
theorem Settled.resolve (h : Settled L S H) (hI : H ⊆ I) (hk : ∀ o ∈ I, Superseded L H o) (g : γ) :
    Intact L S I g ∨ Dead L I g := by
  rcases h g with hi | hb
  · left
    intro o ho hg
    obtain ⟨p, hp, hpc, hle⟩ := hk o ho
    obtain ⟨q, hq, hqc, hle'⟩ := hi p hp (by rw [hpc]; exact hg)
    exact ⟨q, hq, hqc.trans hpc, le_trans hle hle'⟩
  · right
    obtain ⟨o, ho, hdead⟩ := hb.dead
    refine ⟨o, ⟨hI ho.mem, ho.cell, fun p hp hc => ?_⟩, hdead⟩
    obtain ⟨q, hq, hqc, hle⟩ := hk p hp
    exact le_trans hle (ho.le q hq (hqc.trans hc))

/-- Of an intact group the log has the latest items. -/
theorem Intact.latest_iff (h : Intact L S I g) (hs : S ⊆ I) (hd : Distinct L I)
    (hg : L.group k = g) : Latest L S k o ↔ Latest L I k o := by
  constructor
  · intro ho
    refine ⟨hs ho.mem, ho.cell, fun p hp hc => ?_⟩
    obtain ⟨q, hq, hqc, hle⟩ := h p hp (by rw [hc, hg])
    exact le_trans hle (ho.le q hq (hqc.trans hc))
  · intro ho
    have hin := ho.mem_of_superseded hd hs (h o ho.mem (by rw [ho.cell, hg]))
    exact ⟨hin, ho.cell, fun p hp => ho.le p (hs hp)⟩

end Graves
