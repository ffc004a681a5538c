import Mathlib.Data.List.Forall2
import Mathlib.Data.List.Sort
import TangentFeed.Lib.NestedMap

/-!
# Related lists and maps

Two maps are related by `R` when they have the same keys and `R` relates what they
hold there, as `List.Forall₂ R` says of two lists. What is decided by keys alone is
the same on related maps, and what is built from related parts is related.
-/

open Std

namespace Option

variable {α β : Type*} {R : α → β → Prop} {x : Option α} {y : Option β}

theorem Rel.getD (h : Option.Rel R x y) {a : α} {b : β} (hab : R a b) :
    R (x.getD a) (y.getD b) := by
  cases h with
  | none => exact hab
  | some h => exact h

theorem Rel.isSome_eq (h : Option.Rel R x y) : x.isSome = y.isSome := by
  cases h <;> rfl

end Option

namespace List

variable {α β γ : Type*} {R : α → β → Prop} {l : List α} {m : List β}

theorem Forall₂.map_eq {f : α → γ} {g : β → γ} (h : Forall₂ R l m)
    (hfg : ∀ {a b}, R a b → f a = g b) : l.map f = m.map g := by
  induction h with
  | nil => rfl
  | cons hab _ ih => rw [map_cons, map_cons, hfg hab, ih]

/-- Filtering by predicates that agree on related elements. -/
theorem Forall₂.filter {p : α → Bool} {q : β → Bool} (h : Forall₂ R l m)
    (hpq : ∀ {a b}, R a b → p a = q b) : Forall₂ R (l.filter p) (m.filter q) := by
  refine rel_filter (fun a b hab => ?_) h
  simp only [hpq hab]

theorem Forall₂.any_eq {p : α → Bool} {q : β → Bool} (h : Forall₂ R l m)
    (hpq : ∀ {a b}, R a b → p a = q b) : l.any p = m.any q := by
  induction h with
  | nil => rfl
  | cons hab _ ih => rw [any_cons, any_cons, hpq hab, ih]

theorem Forall₂.isEmpty_eq (h : Forall₂ R l m) : l.isEmpty = m.isEmpty := by
  cases h <;> rfl

theorem Forall₂.getLast? (h : Forall₂ R l m) : Option.Rel R l.getLast? m.getLast? := by
  induction h with
  | nil => exact .none
  | cons hab h ih =>
    cases h with
    | nil => exact .some hab
    | cons _ _ => exact ih

theorem Forall₂.getElem? (h : Forall₂ R l m) (k : ℕ) : Option.Rel R l[k]? m[k]? := by
  induction h generalizing k with
  | nil => exact .none
  | cons hab _ ih =>
    cases k with
    | zero => exact .some hab
    | succ k => exact ih k

/-- Folding with steps that keep `P` on related elements. -/
theorem Forall₂.foldl {σ τ : Type*} {P : σ → τ → Prop} {f : σ → α → σ} {g : τ → β → τ}
    (h : Forall₂ R l m) (hfg : ∀ {s t a b}, P s t → R a b → P (f s a) (g t b)) {s : σ} {t : τ}
    (hst : P s t) : P (l.foldl f s) (m.foldl g t) := by
  induction h generalizing s t with
  | nil => exact hst
  | cons hab _ ih => exact ih (hfg hst hab)

/-- Joining related lists over one list. -/
theorem forall₂_flatMap_same {ι : Type*} {f : ι → List α} {g : ι → List β} (is : List ι)
    (h : ∀ i, Forall₂ R (f i) (g i)) : Forall₂ R (is.flatMap f) (is.flatMap g) := by
  induction is with
  | nil => exact .nil
  | cons i is ih =>
    rw [flatMap_cons, flatMap_cons]
    exact rel_append (h i) ih

section Sorting

variable {r : α → α → Prop} {s : β → β → Prop} [DecidableRel r] [DecidableRel s]

theorem Forall₂.orderedInsert (h : Forall₂ R l m)
    (hrs : ∀ {a b a' b'}, R a b → R a' b' → (r a a' ↔ s b b')) {a : α} {b : β} (hab : R a b) :
    Forall₂ R (l.orderedInsert r a) (m.orderedInsert s b) := by
  induction h with
  | nil => exact .cons hab .nil
  | cons hcd h ih =>
    simp only [List.orderedInsert, hrs hab hcd]
    split
    · exact .cons hab (.cons hcd h)
    · exact .cons hcd ih

/-- Sorting by orders that agree on related elements. -/
theorem Forall₂.insertionSort (h : Forall₂ R l m)
    (hrs : ∀ {a b a' b'}, R a b → R a' b' → (r a a' ↔ s b b')) :
    Forall₂ R (l.insertionSort r) (m.insertionSort s) := by
  induction h with
  | nil => exact .nil
  | cons hab _ ih => exact ih.orderedInsert hrs hab

end Sorting

end List

namespace Std.ExtTreeMap

variable {α β γ : Type*} [Ord α] [TransOrd α] {R : β → γ → Prop}
  {t : ExtTreeMap α β compare} {u : ExtTreeMap α γ compare}

def Rel (R : β → γ → Prop) (t : ExtTreeMap α β compare) (u : ExtTreeMap α γ compare) : Prop :=
  ∀ k : α, Option.Rel R t[k]? u[k]?

theorem Rel.empty : Rel R (∅ : ExtTreeMap α β compare) (∅ : ExtTreeMap α γ compare) := by
  intro k
  rw [getElem?_empty, getElem?_empty]
  exact .none

/-- What is at a key, on either side. -/
theorem Rel.cases (h : Rel R t u) (k : α) :
    (t[k]? = none ∧ u[k]? = none) ∨ ∃ v w, t[k]? = some v ∧ u[k]? = some w ∧ R v w := by
  have hk := h k
  cases ht : t[k]? with
  | none =>
    rw [ht] at hk
    cases hu : u[k]? with
    | none => exact .inl ⟨rfl, rfl⟩
    | some w => rw [hu] at hk; cases hk
  | some v =>
    rw [ht] at hk
    cases hu : u[k]? with
    | none => rw [hu] at hk; cases hk
    | some w =>
      rw [hu] at hk
      cases hk with
      | some hvw => exact .inr ⟨v, w, rfl, rfl, hvw⟩

theorem Rel.getD (h : Rel R t u) (k : α) {v : β} {w : γ} (hvw : R v w) :
    R (t[k]?.getD v) (u[k]?.getD w) :=
  Option.Rel.getD (h k) hvw

theorem Rel.contains_eq (h : Rel R t u) (k : α) : t.contains k = u.contains k := by
  rw [contains_eq_isSome_getElem?, contains_eq_isSome_getElem?, (h k).isSome_eq]

variable [LawfulEqOrd α]

/-- Entries at one key with related values. -/
abbrev EntryRel (R : β → γ → Prop) (x : α × β) (y : α × γ) : Prop := x.1 = y.1 ∧ R x.2 y.2

/-- Related maps list the same keys, with related values. -/
theorem Rel.toList (h : Rel R t u) : List.Forall₂ (EntryRel R) t.toList u.toList := by
  have hkeys : t.toList.map Prod.fst = u.toList.map Prod.fst := by
    rw [map_fst_toList_eq_keys, map_fst_toList_eq_keys]
    have hunit : t.map (fun _ _ => ()) = u.map fun _ _ => () := by
      refine ext_getElem? fun k => ?_
      rw [getElem?_map, getElem?_map]
      rcases h.cases k with ⟨ht, hu⟩ | ⟨v, w, ht, hu, -⟩ <;> rw [ht, hu] <;> rfl
    rw [← keys_map (f := fun _ _ => ()), hunit, keys_map]
  have key : ∀ {l : List (α × β)} {m : List (α × γ)}, l.map Prod.fst = m.map Prod.fst →
      (∀ x ∈ l, t[x.1]? = some x.2) → (∀ y ∈ m, u[y.1]? = some y.2) →
      List.Forall₂ (EntryRel R) l m := by
    intro l
    induction l with
    | nil =>
      intro m hm _ _
      rw [List.map_nil, eq_comm, List.map_eq_nil_iff] at hm
      rw [hm]
      exact .nil
    | cons x l ih =>
      intro m hm hl hu
      cases m with
      | nil => cases hm
      | cons y m =>
        rw [List.map_cons, List.map_cons, List.cons.injEq] at hm
        refine .cons ⟨hm.1, ?_⟩ (ih hm.2 (fun z hz => hl z (List.mem_cons_of_mem _ hz))
          fun z hz => hu z (List.mem_cons_of_mem _ hz))
        have hk := h x.1
        rw [hl x List.mem_cons_self, hm.1, hu y List.mem_cons_self] at hk
        cases hk with
        | some hxy => exact hxy
  exact key hkeys (fun x hx => mem_toList_iff_getElem?_eq_some.1 hx)
    fun y hy => mem_toList_iff_getElem?_eq_some.1 hy

theorem Rel.keys_eq (h : Rel R t u) : t.keys = u.keys := by
  rw [← map_fst_toList_eq_keys, ← map_fst_toList_eq_keys]
  exact h.toList.map_eq And.left

theorem Rel.values (h : Rel R t u) : List.Forall₂ R (t.toList.map Prod.snd) (u.toList.map Prod.snd) :=
  List.rel_map (fun _ _ hxy => hxy.2) h.toList

theorem Rel.isEmpty_eq (h : Rel R t u) : t.isEmpty = u.isEmpty := by
  rw [← isEmpty_toList, ← isEmpty_toList, h.toList.isEmpty_eq]

variable [DecidableEq α]

theorem Rel.insert (h : Rel R t u) (k : α) {v : β} {w : γ} (hvw : R v w) :
    Rel R (t.insert k v) (u.insert k w) := by
  intro k'
  rw [getElem?_insert_eq, getElem?_insert_eq]
  by_cases hk : k = k'
  · rw [if_pos hk, if_pos hk]
    exact .some hvw
  · rw [if_neg hk, if_neg hk]
    exact h k'

theorem Rel.erase (h : Rel R t u) (k : α) : Rel R (t.erase k) (u.erase k) := by
  intro k'
  rw [getElem?_erase_eq, getElem?_erase_eq]
  by_cases hk : k = k'
  · rw [if_pos hk, if_pos hk]
    exact .none
  · rw [if_neg hk, if_neg hk]
    exact h k'

/-- An entry that is dropped or replaced. -/
theorem Rel.erase_or_insert (h : Rel R t u) (k : α) {v : β} {w : γ} (hvw : R v w) {p q : Bool}
    (hpq : p = q) :
    Rel R (if p then t.erase k else t.insert k v) (if q then u.erase k else u.insert k w) := by
  subst hpq
  cases p
  · exact h.insert k hvw
  · exact h.erase k

theorem Rel.foldl_erase (h : Rel R t u) (ks : List α) :
    Rel R (ks.foldl (fun t k => t.erase k) t) (ks.foldl (fun u k => u.erase k) u) := by
  intro k
  rw [getElem?_foldl_erase, getElem?_foldl_erase]
  by_cases hk : k ∈ ks
  · rw [if_pos hk, if_pos hk]
    exact .none
  · rw [if_neg hk, if_neg hk]
    exact h k

end Std.ExtTreeMap

namespace NestedMap

variable {α β γ δ ε : Type} [Ord α] [TransOrd α] [Ord β] [TransOrd β] [Ord γ] [TransOrd γ]
  {R : δ → ε → Prop} {m : NestedMap α β γ δ} {n : NestedMap α β γ ε}

/-- Related at every level. -/
def Rel (R : δ → ε → Prop) (m : NestedMap α β γ δ) (n : NestedMap α β γ ε) : Prop :=
  ExtTreeMap.Rel (ExtTreeMap.Rel (ExtTreeMap.Rel R)) m n

theorem Rel.get (h : Rel R m n) (a : α) (b : β) (c : γ) :
    Option.Rel R (m.get a b c) (n.get a b c) := by
  unfold NestedMap.get
  rcases ExtTreeMap.Rel.cases h a with ⟨hm, hn⟩ | ⟨rs, rs', hm, hn, hrs⟩
  · rw [hm, hn]
    exact .none
  rw [hm, hn]
  rcases hrs.cases b with ⟨hm, hn⟩ | ⟨cs, cs', hm, hn, hcs⟩
  · rw [Option.bind_some, Option.bind_some, hm, hn]
    exact .none
  · rw [Option.bind_some, Option.bind_some, hm, hn]
    exact hcs c

variable [LawfulEqOrd α] [DecidableEq α] [LawfulEqOrd β] [DecidableEq β] [LawfulEqOrd γ]
  [DecidableEq γ]

theorem Rel.set (h : Rel R m n) (a : α) (b : β) (c : γ) {d : δ} {e : ε} (hde : R d e) :
    Rel R (m.set a b c d) (n.set a b c e) := by
  have hrows := ExtTreeMap.Rel.getD h a ExtTreeMap.Rel.empty
  exact ExtTreeMap.Rel.insert h a (hrows.insert b ((hrows.getD b .empty).insert c hde))

theorem Rel.remove (h : Rel R m n) (a : α) (b : β) (c : γ) :
    Rel R (m.remove a b c) (n.remove a b c) := by
  have hrows := ExtTreeMap.Rel.getD h a ExtTreeMap.Rel.empty
  have hcells := (hrows.getD b .empty).erase c
  have hleft := hrows.erase_or_insert b hcells hcells.isEmpty_eq
  exact ExtTreeMap.Rel.erase_or_insert h a hleft hleft.isEmpty_eq

theorem Rel.setAll (h : Rel R m n) {l : List (α × β × γ × δ)} {l' : List (α × β × γ × ε)}
    (hl : List.Forall₂ (fun x y => x.1 = y.1 ∧ x.2.1 = y.2.1 ∧ x.2.2.1 = y.2.2.1 ∧
      R x.2.2.2 y.2.2.2) l l') : Rel R (m.setAll l) (n.setAll l') := by
  refine hl.foldl (P := Rel R) (fun {m n x y} hmn hxy => ?_) h
  rw [hxy.1, hxy.2.1, hxy.2.2.1]
  exact hmn.set _ _ _ hxy.2.2.2

theorem Rel.removeAll (h : Rel R m n) (l : List (α × β × γ)) :
    Rel R (m.removeAll l) (n.removeAll l) := by
  induction l generalizing m n with
  | nil => exact h
  | cons x l ih => exact ih (h.remove x.1 x.2.1 x.2.2)

end NestedMap
