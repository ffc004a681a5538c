import Mathlib.Data.List.Nodup
import Mathlib.Logic.Function.Basic

/-!
# Entry by entry

A table as a partial function, and what a list of single writes leaves of it. `putAll`
overwrites, so that the last write of an entry stands, `addAll` leaves what is there, so that
the first does, and `dropAll` empties.
-/

namespace Entries

variable {α β : Type} {l : List (α × β)} {a : α} {b : β}

/-- The last entry of a list for `a`. -/
def LastFor (l : List (α × β)) (a : α) (b : β) : Prop :=
  ∃ before after, l = before ++ (a, b) :: after ∧ ∀ x ∈ after, x.1 ≠ a

theorem LastFor.mem (h : LastFor l a b) : (a, b) ∈ l := by
  obtain ⟨before, after, rfl, -⟩ := h
  exact List.mem_append_right _ List.mem_cons_self

/-- An entry somebody writes has a last writer. -/
theorem exists_lastFor (h : ∃ x ∈ l, x.1 = a) : ∃ b, LastFor l a b := by
  induction l with
  | nil =>
    obtain ⟨x, hx, -⟩ := h
    cases hx
  | cons y l ih =>
    by_cases hl : ∃ x ∈ l, x.1 = a
    · obtain ⟨b, before, after, rfl, hafter⟩ := ih hl
      exact ⟨b, y :: before, after, rfl, hafter⟩
    · obtain ⟨x, hx, rfl⟩ := h
      push Not at hl
      rcases List.mem_cons.1 hx with rfl | hx
      · exact ⟨x.2, [], l, rfl, hl⟩
      · exact absurd rfl (hl x hx)

section

variable [DecidableEq α]

def putAll (f : α → Option β) (l : List (α × β)) : α → Option β :=
  l.foldl (fun f x => Function.update f x.1 (some x.2)) f

def addAll (f : α → Option β) (l : List (α × β)) : α → Option β :=
  l.foldl (fun f x => if (f x.1).isSome then f else Function.update f x.1 (some x.2)) f

def dropAll (f : α → Option β) (l : List α) : α → Option β :=
  l.foldl (fun f a => Function.update f a none) f

variable {f : α → Option β}

/-! ## Writes that overwrite -/

theorem putAll_cons (x : α × β) :
    putAll f (x :: l) = putAll (Function.update f x.1 (some x.2)) l := rfl

/-- An entry nobody writes is as it was. -/
theorem putAll_of_notMem (h : ∀ x ∈ l, x.1 ≠ a) : putAll f l a = f a := by
  induction l generalizing f with
  | nil => rfl
  | cons x l ih =>
    rw [putAll_cons, ih fun y hy => h y (List.mem_cons_of_mem _ hy),
      Function.update_of_ne (h x List.mem_cons_self).symm]

theorem LastFor.putAll (h : LastFor l a b) : putAll f l a = some b := by
  obtain ⟨before, after, rfl, hafter⟩ := h
  change List.foldl _ f (before ++ (a, b) :: after) a = _
  rw [List.foldl_append]
  change Entries.putAll (Entries.putAll f before) ((a, b) :: after) a = _
  rw [putAll_cons, putAll_of_notMem hafter, Function.update_self]

/-- An entry somebody writes has what one of them wrote. -/
theorem exists_putAll (h : ∃ x ∈ l, x.1 = a) : ∃ b, (a, b) ∈ l ∧ putAll f l a = some b := by
  obtain ⟨b, hb⟩ := exists_lastFor h
  exact ⟨b, hb.mem, hb.putAll⟩

/-- With one entry a key, each is there afterwards. -/
theorem putAll_of_mem (hn : (l.map Prod.fst).Nodup) (h : (a, b) ∈ l) : putAll f l a = some b := by
  obtain ⟨c, hc, hput⟩ := exists_putAll (f := f) ⟨(a, b), h, rfl⟩
  obtain rfl : b = c := congrArg Prod.snd (List.inj_on_of_nodup_map hn h hc rfl)
  exact hput

/-- Nothing changes if the last write of every entry is there already. -/
theorem putAll_eq_self : putAll f l = f ↔ ∀ a b, LastFor l a b → f a = some b := by
  constructor
  · intro h a b hb
    rw [← h]
    exact hb.putAll
  · intro h
    funext a
    by_cases ha : ∃ x ∈ l, x.1 = a
    · obtain ⟨b, hb⟩ := exists_lastFor ha
      rw [hb.putAll, h a b hb]
    · push Not at ha
      exact putAll_of_notMem ha

theorem putAll_eq_self_of_nodup (hn : (l.map Prod.fst).Nodup) :
    putAll f l = f ↔ ∀ x ∈ l, f x.1 = some x.2 := by
  rw [putAll_eq_self]
  constructor
  · rintro h ⟨a, b⟩ hx
    obtain ⟨c, hc⟩ := exists_lastFor ⟨(a, b), hx, rfl⟩
    obtain rfl : b = c := congrArg Prod.snd (List.inj_on_of_nodup_map hn hx hc.mem rfl)
    exact h a b hc
  · exact fun h a b hb => h _ hb.mem

/-! ## Writes that leave what is there -/

theorem addAll_cons (x : α × β) : addAll f (x :: l) =
    addAll (if (f x.1).isSome then f else Function.update f x.1 (some x.2)) l := rfl

theorem addAll_of_some (h : f a = some b) : addAll f l a = some b := by
  induction l generalizing f with
  | nil => exact h
  | cons x l ih =>
    rw [addAll_cons]
    refine ih ?_
    split
    · exact h
    · rename_i hx
      rw [Function.update_of_ne, h]
      rintro rfl
      exact hx (by rw [h]; rfl)

theorem addAll_of_notMem (h : ∀ x ∈ l, x.1 ≠ a) : addAll f l a = f a := by
  induction l generalizing f with
  | nil => rfl
  | cons x l ih =>
    rw [addAll_cons, ih fun y hy => h y (List.mem_cons_of_mem _ hy)]
    split
    · rfl
    · rw [Function.update_of_ne (h x List.mem_cons_self).symm]

/-- An entry that was empty has what one of its writers wrote. -/
theorem exists_addAll (hf : f a = none) (h : ∃ x ∈ l, x.1 = a) :
    ∃ b, (a, b) ∈ l ∧ addAll f l a = some b := by
  induction l generalizing f with
  | nil =>
    obtain ⟨x, hx, -⟩ := h
    cases hx
  | cons y l ih =>
    rw [addAll_cons]
    by_cases hy : y.1 = a
    · subst hy
      refine ⟨y.2, List.mem_cons_self, addAll_of_some ?_⟩
      rw [hf]
      exact Function.update_self ..
    · have hl : ∃ x ∈ l, x.1 = a := by
        obtain ⟨x, hx, hxa⟩ := h
        rcases List.mem_cons.1 hx with rfl | hx
        · exact absurd hxa hy
        · exact ⟨x, hx, hxa⟩
      have hstill : (if (f y.1).isSome then f else Function.update f y.1 (some y.2)) a = none := by
        split
        · exact hf
        · rw [Function.update_of_ne (Ne.symm hy), hf]
      obtain ⟨b, hb, hadd⟩ := ih hstill hl
      exact ⟨b, List.mem_cons_of_mem _ hb, hadd⟩

/-! ## Writes that empty -/

theorem dropAll_apply {l : List α} : dropAll f l a = if a ∈ l then none else f a := by
  induction l generalizing f with
  | nil => rfl
  | cons x l ih =>
    change dropAll (Function.update f x none) l a = _
    rw [ih]
    by_cases hl : a ∈ l
    · rw [if_pos hl, if_pos (List.mem_cons_of_mem _ hl)]
    · rw [if_neg hl]
      by_cases hx : a = x
      · subst hx
        rw [Function.update_self, if_pos List.mem_cons_self]
      · rw [Function.update_of_ne hx, if_neg]
        exact fun h => (List.mem_cons.1 h).elim hx hl

theorem dropAll_eq_self {l : List α} : dropAll f l = f ↔ ∀ a ∈ l, f a = none := by
  constructor
  · intro h a ha
    rw [← h, dropAll_apply, if_pos ha]
  · intro h
    funext a
    rw [dropAll_apply]
    split
    · rename_i ha
      exact (h a ha).symm
    · rfl

end

end Entries
