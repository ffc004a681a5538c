import Mathlib.Data.List.Basic

/-!
# Separated items

Items written one after the other with a separator between two and a closing
mark after the last, and a reader of such texts over any reader of an item.
-/

namespace Sequence

variable {α β γ : Type}

/-- An item is not longer than the sequence it is in. -/
theorem length_le_intercalate {s : List γ} {l : List (List γ)} (h : s ∈ l) (sep : List γ) :
    s.length ≤ (sep.intercalate l).length := by
  induction l with
  | nil => cases h
  | cons t l ih =>
    cases l with
    | nil =>
      obtain rfl := List.mem_singleton.1 h
      exact List.intercalate_singleton ▸ Nat.le_refl _
    | cons u l =>
      rw [List.intercalate_cons_cons, List.length_append, List.length_append]
      rcases List.mem_cons.1 h with rfl | h
      · omega
      · have := ih h
        omega

/-- A sequence has at most one item more than it is long. -/
theorem length_le_length_intercalate (l : List (List γ)) (sep : γ) :
    l.length ≤ ([sep].intercalate l).length + 1 := by
  induction l with
  | nil => exact Nat.zero_le _
  | cons t l ih =>
    cases l with
    | nil => exact Nat.le_add_left 1 _
    | cons u l =>
      rw [List.intercalate_cons_cons, List.length_append, List.length_append, List.length_cons,
        List.length_singleton]
      omega

variable [DecidableEq γ]

/-- Read at most `fuel` items, up to the closing mark. -/
def readItems (item : List γ → Option (α × List γ)) (comma close : γ) :
    Nat → List γ → Option (List α × List γ)
  | 0, _ => none
  | fuel + 1, s =>
    match item s with
    | none => none
    | some (_, []) => none
    | some (x, c :: s) =>
      if c = close then some ([x], s)
      else if c = comma then (readItems item comma close fuel s).map fun p => (x :: p.1, p.2)
      else none

variable {item : List γ → Option (α × List γ)} {comma close : γ}

/-- **What is written is read back**, if that holds of each item before either mark. -/
theorem readItems_intercalate {text : β → List γ} {value : β → α} (hmarks : comma ≠ close)
    {xs : List β} (hne : xs ≠ []) {fuel : Nat} (hfuel : xs.length ≤ fuel)
    (hitem : ∀ x ∈ xs, ∀ c rest, c = comma ∨ c = close →
      item (text x ++ c :: rest) = some (value x, c :: rest)) (rest : List γ) :
    readItems item comma close fuel ([comma].intercalate (xs.map text) ++ close :: rest) =
      some (xs.map value, rest) := by
  induction xs generalizing fuel with
  | nil => exact absurd rfl hne
  | cons x xs ih =>
    obtain ⟨fuel, rfl⟩ : ∃ n, fuel = n + 1 := ⟨fuel - 1, by rw [List.length_cons] at hfuel; omega⟩
    have hx := hitem x List.mem_cons_self
    cases xs with
    | nil =>
      rw [List.map_singleton, List.intercalate_singleton, readItems, hx close rest (.inr rfl)]
      exact if_pos rfl
    | cons y ys =>
      have hrest := ih (List.cons_ne_nil y ys) (Nat.le_of_succ_le_succ hfuel)
        fun z hz => hitem z (List.mem_cons_of_mem x hz)
      have htext : [comma].intercalate ((x :: y :: ys).map text) ++ close :: rest =
          text x ++ comma :: ([comma].intercalate ((y :: ys).map text) ++ close :: rest) := by
        rw [List.map_cons, List.map_cons, List.intercalate_cons_cons, List.append_assoc,
          List.append_assoc]
        rfl
      rw [htext, readItems, hx comma _ (.inl rfl)]
      change (if comma = close then _ else if comma = comma then _ else none) = _
      rw [if_neg hmarks, if_pos rfl, hrest]
      rfl

/-- Items that are read through `f` make sequences that are read through `f`. -/
theorem readItems_map {f : α → β} {item' : List γ → Option (β × List γ)}
    (hitem : ∀ s, item' s = (item s).map (Prod.map f id)) (fuel : Nat) (s : List γ) :
    readItems item' comma close fuel s =
      (readItems item comma close fuel s).map (Prod.map (List.map f) id) := by
  induction fuel generalizing s with
  | zero => rfl
  | succ fuel ih =>
    rw [readItems, readItems, hitem]
    cases item s with
    | none => rfl
    | some p =>
      obtain ⟨x, rest⟩ := p
      cases rest with
      | nil => rfl
      | cons c rest =>
        simp only [Option.map_some, Prod.map_apply, id]
        by_cases hclose : c = close
        · rw [if_pos hclose, if_pos hclose]
          rfl
        rw [if_neg hclose, if_neg hclose]
        by_cases hcomma : c = comma
        · rw [if_pos hcomma, if_pos hcomma, ih, Option.map_map, Option.map_map]
          rfl
        · rw [if_neg hcomma, if_neg hcomma]
          rfl

end Sequence
