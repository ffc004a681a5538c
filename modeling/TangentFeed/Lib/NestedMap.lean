import Mathlib.Logic.Basic
import Std.Data.ExtTreeMap

/-!
# Maps of maps of maps

A three-level map as programs keep it: the inner maps are built on demand by
`set` and dropped by `remove` as soon as they are empty. `NestedMap.Tight` says
that no inner map is empty; a tight map is determined by its lookups.
-/

namespace Std.ExtTreeMap

variable {α : Type*} {β : Type*} [Ord α] [TransOrd α] {t : ExtTreeMap α β compare}

/-- The listing has each key once. -/
theorem nodup_toList_keys : (t.toList.map Prod.fst).Nodup := by
  rw [map_fst_toList_eq_keys]
  exact nodup_keys

variable [LawfulEqOrd α]

theorem ne_empty_iff : ¬ t = ∅ ↔ ∃ (k : α) (v : β), t[k]? = some v := by
  constructor
  · intro h
    have hl : t.toList ≠ [] := fun e => h (toList_eq_nil_iff.1 e)
    obtain ⟨⟨k, v⟩, hm⟩ := List.exists_mem_of_ne_nil _ hl
    exact ⟨k, v, mem_toList_iff_getElem?_eq_some.1 hm⟩
  · rintro ⟨k, v, h⟩ rfl
    rw [getElem?_empty] at h
    cases h

variable [DecidableEq α]

theorem getElem?_insert_eq {k a : α} {v : β} :
    (t.insert k v)[a]? = if k = a then some v else t[a]? := by
  rw [getElem?_insert]
  by_cases h : k = a
  · rw [if_pos h, if_pos (LawfulEqCmp.compare_eq_iff_eq.2 h)]
  · rw [if_neg h, if_neg fun h' => h (LawfulEqCmp.compare_eq_iff_eq.1 h')]

theorem getElem?_erase_eq {k a : α} : (t.erase k)[a]? = if k = a then none else t[a]? := by
  rw [getElem?_erase]
  by_cases h : k = a
  · rw [if_pos h, if_pos (LawfulEqCmp.compare_eq_iff_eq.2 h)]
  · rw [if_neg h, if_neg fun h' => h (LawfulEqCmp.compare_eq_iff_eq.1 h')]

/-- Deleting a list of keys. -/
theorem getElem?_foldl_erase (ks : List α) {a : α} :
    (ks.foldl (fun t k => t.erase k) t)[a]? = if a ∈ ks then none else t[a]? := by
  induction ks generalizing t with
  | nil => simp
  | cons k ks ih =>
    rw [List.foldl_cons, ih, getElem?_erase_eq]
    by_cases h1 : a ∈ ks
    · simp [h1]
    · by_cases h2 : k = a
      · simp [h2]
      · simp [h1, h2, Ne.symm h2]

omit [DecidableEq α] in
/-- Erasing keys of the map, each once, takes as many entries. -/
theorem size_foldl_erase {ks : List α} (hn : ks.Nodup) (hm : ∀ k ∈ ks, k ∈ t) :
    (ks.foldl (fun t k => t.erase k) t).size + ks.length = t.size := by
  induction ks generalizing t with
  | nil => rfl
  | cons k ks ih =>
    rw [List.nodup_cons] at hn
    have hk : k ∈ t := hm k List.mem_cons_self
    have hsize : (t.erase k).size + 1 = t.size := by
      rw [ExtTreeMap.size_erase, if_pos (ExtTreeMap.mem_iff_contains.1 hk)]
      have hpos : 0 < t.size := by
        rw [Nat.pos_iff_ne_zero]
        intro h0
        rw [ExtTreeMap.eq_empty_iff_size_eq_zero.2 h0] at hk
        exact ExtTreeMap.not_mem_empty hk
      omega
    have hrest : ∀ x ∈ ks, x ∈ t.erase k := by
      intro x hx
      rw [ExtTreeMap.mem_erase]
      refine ⟨fun e => hn.1 ?_, hm x (List.mem_cons_of_mem _ hx)⟩
      rw [LawfulEqCmp.eq_of_compare e]
      exact hx
    have h := ih hn.2 hrest
    rw [List.foldl_cons, List.length_cons]
    omega

/-- A map built entry by entry, when no key comes with two values. -/
theorem getElem?_foldl_insert {l : List (α × β)}
    (hu : ∀ {k : α} {v w : β}, (k, v) ∈ l → (k, w) ∈ l → v = w) {k : α} {v : β} :
    (l.foldl (fun t x => t.insert x.1 x.2) t)[k]? = some v ↔
      (k, v) ∈ l ∨ (∀ w, (k, w) ∉ l) ∧ t[k]? = some v := by
  induction l generalizing t with
  | nil => simp
  | cons x l ih =>
    obtain ⟨a, b⟩ := x
    rw [List.foldl_cons, ih fun h h' => hu (List.mem_cons_of_mem _ h) (List.mem_cons_of_mem _ h'),
      getElem?_insert_eq]
    by_cases ha : a = k
    · subst ha
      rw [if_pos rfl]
      constructor
      · rintro (h | ⟨-, h⟩)
        · exact .inl (List.mem_cons_of_mem _ h)
        · obtain rfl := Option.some.inj h
          exact .inl List.mem_cons_self
      · rintro (h | ⟨h, -⟩)
        · obtain rfl := hu h List.mem_cons_self
          by_cases hl : ∃ w, (a, w) ∈ l
          · obtain ⟨w, hw⟩ := hl
            obtain rfl := hu (List.mem_cons_of_mem _ hw) List.mem_cons_self
            exact .inl hw
          · exact .inr ⟨fun w hw => hl ⟨w, hw⟩, rfl⟩
        · exact absurd List.mem_cons_self (h b)
    · rw [if_neg ha]
      have e : ∀ w, (k, w) ∈ (a, b) :: l ↔ (k, w) ∈ l := by
        intro w
        rw [List.mem_cons, Prod.mk.injEq]
        exact or_iff_right fun h => ha h.1.symm
      simp only [e]

end Std.ExtTreeMap

open Std

/-- A map from three keys, by levels. -/
abbrev NestedMap (α β γ δ : Type) [Ord α] [Ord β] [Ord γ] :=
  ExtTreeMap α (ExtTreeMap β (ExtTreeMap γ δ compare) compare) compare

namespace NestedMap

variable {α β γ δ : Type} [Ord α] [TransOrd α] [Ord β] [TransOrd β] [Ord γ] [TransOrd γ]
  {m n : NestedMap α β γ δ}

/-- The entry at three keys. -/
def get (m : NestedMap α β γ δ) (a : α) (b : β) (c : γ) : Option δ :=
  m[a]?.bind fun rows => rows[b]?.bind fun cells => cells[c]?

/-- Write one entry, creating the maps on the way to it. -/
def set (m : NestedMap α β γ δ) (a : α) (b : β) (c : γ) (d : δ) : NestedMap α β γ δ :=
  let rows := m[a]?.getD ∅
  let cells := rows[b]?.getD ∅
  m.insert a (rows.insert b (cells.insert c d))

/-- Remove one entry, and the maps it leaves empty. -/
def remove (m : NestedMap α β γ δ) (a : α) (b : β) (c : γ) : NestedMap α β γ δ :=
  let rows := m[a]?.getD ∅
  let cells := (rows[b]?.getD ∅).erase c
  let rows := if cells.isEmpty then rows.erase b else rows.insert b cells
  if rows.isEmpty then m.erase a else m.insert a rows

/-- No inner map is empty. -/
structure Tight (m : NestedMap α β γ δ) : Prop where
  rows : ∀ {a : α} {rs : ExtTreeMap β (ExtTreeMap γ δ compare) compare}, m[a]? = some rs → ¬ rs = ∅
  cells : ∀ {a : α} {rs : ExtTreeMap β (ExtTreeMap γ δ compare) compare} {b : β}
    {cs : ExtTreeMap γ δ compare}, m[a]? = some rs → rs[b]? = some cs → ¬ cs = ∅

theorem get_eq_some {a : α} {b : β} {c : γ} {d : δ} :
    m.get a b c = some d ↔ ∃ rs cs, m[a]? = some rs ∧ rs[b]? = some cs ∧ cs[c]? = some d := by
  unfold get
  constructor
  · intro h
    obtain ⟨rs, h1, h⟩ := Option.bind_eq_some_iff.1 h
    obtain ⟨cs, h2, h3⟩ := Option.bind_eq_some_iff.1 h
    exact ⟨rs, cs, h1, h2, h3⟩
  · rintro ⟨rs, cs, h1, h2, h3⟩
    rw [h1, Option.bind_some, h2, Option.bind_some, h3]

@[simp] theorem get_empty (a : α) (b : β) (c : γ) : get (∅ : NestedMap α β γ δ) a b c = none := by
  simp [get]

omit [TransOrd γ] in
theorem Tight.empty : Tight (∅ : NestedMap α β γ δ) :=
  ⟨fun h => by simp at h, fun h => by simp at h⟩

variable [LawfulEqOrd α] [LawfulEqOrd β] [LawfulEqOrd γ]

omit [LawfulEqOrd α] in
/-- A row that is there has an entry. -/
theorem Tight.exists_get (h : m.Tight) {a : α} {rs : ExtTreeMap β (ExtTreeMap γ δ compare) compare}
    (hr : m[a]? = some rs) : ∃ b c d, m.get a b c = some d := by
  obtain ⟨b, cs, hb⟩ := ExtTreeMap.ne_empty_iff.1 (h.rows hr)
  obtain ⟨c, d, hc⟩ := ExtTreeMap.ne_empty_iff.1 (h.cells hr hb)
  exact ⟨b, c, d, get_eq_some.2 ⟨rs, cs, hr, hb, hc⟩⟩

/-- **Tight maps with equal lookups are equal.** -/
theorem Tight.ext (hm : m.Tight) (hn : n.Tight) (h : ∀ a b c, m.get a b c = n.get a b c) : m = n := by
  -- the row at `a`, `b` agrees, given that both tables are there
  have hrow : ∀ {a : α} {rs ss : ExtTreeMap β (ExtTreeMap γ δ compare) compare},
      m[a]? = some rs → n[a]? = some ss → rs = ss := by
    intro a rs ss hr hs
    have hg : ∀ (b : β) (c : γ), (rs[b]?.bind fun cells => cells[c]?) = ss[b]?.bind fun cells => cells[c]? := by
      intro b c
      have := h a b c
      simpa [get, hr, hs] using this
    apply ExtTreeMap.ext_getElem?
    intro b
    cases h1 : rs[b]? with
    | none =>
      cases h2 : ss[b]? with
      | none => rfl
      | some cs =>
        obtain ⟨c, d, hc⟩ := ExtTreeMap.ne_empty_iff.1 (hn.cells hs h2)
        have := hg b c
        simp [h1, h2, hc] at this
    | some cs =>
      cases h2 : ss[b]? with
      | none =>
        obtain ⟨c, d, hc⟩ := ExtTreeMap.ne_empty_iff.1 (hm.cells hr h1)
        have := hg b c
        simp [h1, h2, hc] at this
      | some cs' =>
        congr 1
        apply ExtTreeMap.ext_getElem?
        intro c
        have := hg b c
        simpa [h1, h2] using this
  apply ExtTreeMap.ext_getElem?
  intro a
  cases h1 : m[a]? with
  | none =>
    cases h2 : n[a]? with
    | none => rfl
    | some ss =>
      obtain ⟨b, c, d, hd⟩ := hn.exists_get h2
      have h' := h a b c
      rw [hd] at h'
      obtain ⟨rs, cs, hr, -⟩ := get_eq_some.1 h'
      rw [h1] at hr
      cases hr
  | some rs =>
    cases h2 : n[a]? with
    | none =>
      obtain ⟨b, c, d, hd⟩ := hm.exists_get h1
      have h' := h a b c
      rw [hd] at h'
      obtain ⟨ss, cs, hs, -⟩ := get_eq_some.1 h'.symm
      rw [h2] at hs
      cases hs
    | some ss => rw [hrow h1 h2]

variable [DecidableEq α] [DecidableEq β] [DecidableEq γ]

theorem get_set {a a' : α} {b b' : β} {c c' : γ} {d : δ} :
    (m.set a b c d).get a' b' c' =
      if a = a' ∧ b = b' ∧ c = c' then some d else m.get a' b' c' := by
  unfold get set
  rw [ExtTreeMap.getElem?_insert_eq]
  by_cases ha : a = a'
  · subst ha
    rw [if_pos rfl, Option.bind_some, ExtTreeMap.getElem?_insert_eq]
    by_cases hb : b = b'
    · subst hb
      rw [if_pos rfl, Option.bind_some, ExtTreeMap.getElem?_insert_eq]
      by_cases hc : c = c'
      · simp [hc]
      · rw [if_neg hc, if_neg (fun h => hc h.2.2)]
        cases h1 : m[a]? with
        | none => simp
        | some rs => cases h2 : rs[b]? <;> simp [h2]
    · rw [if_neg hb, if_neg (fun h => hb h.2.1)]
      cases h1 : m[a]? <;> simp
  · rw [if_neg ha, if_neg (fun h => ha h.1)]

theorem get_remove {a a' : α} {b b' : β} {c c' : γ} :
    (m.remove a b c).get a' b' c' =
      if a = a' ∧ b = b' ∧ c = c' then none else m.get a' b' c' := by
  -- what the rows of table `a` become, looked up at `(b', c')`
  have key : ∀ rows : ExtTreeMap β (ExtTreeMap γ δ compare) compare,
      ((if ((rows[b]?.getD ∅).erase c).isEmpty then rows.erase b
        else rows.insert b ((rows[b]?.getD ∅).erase c))[b']?.bind fun cells => cells[c']?) =
      if b = b' ∧ c = c' then none else rows[b']?.bind fun cells => cells[c']? := by
    intro rows
    have e : ∀ cs : ExtTreeMap γ δ compare, cs.isEmpty = true → ∀ x : γ, cs[x]? = none := by
      intro cs h x
      rw [ExtTreeMap.isEmpty_iff.1 h, ExtTreeMap.getElem?_empty]
    by_cases hb : b = b'
    · subst hb
      by_cases hemp : ((rows[b]?.getD ∅).erase c).isEmpty = true
      · rw [if_pos hemp, ExtTreeMap.getElem?_erase_self, Option.bind_none]
        have := e _ hemp c'
        rw [ExtTreeMap.getElem?_erase_eq] at this
        by_cases hc : c = c'
        · simp [hc]
        · rw [if_neg hc] at this
          rw [if_neg (fun h => hc h.2)]
          cases h2 : rows[b]? with
          | none => rfl
          | some cs => rw [h2] at this; simpa using this.symm
      · rw [if_neg hemp, ExtTreeMap.getElem?_insert_self, Option.bind_some,
          ExtTreeMap.getElem?_erase_eq]
        by_cases hc : c = c'
        · simp [hc]
        · rw [if_neg hc, if_neg (fun h => hc h.2)]
          cases h2 : rows[b]? <;> simp
    · rw [if_neg (fun h : b = b' ∧ c = c' => hb h.1)]
      by_cases hemp : ((rows[b]?.getD ∅).erase c).isEmpty = true
      · rw [if_pos hemp, ExtTreeMap.getElem?_erase_eq, if_neg hb]
      · rw [if_neg hemp, ExtTreeMap.getElem?_insert_eq, if_neg hb]
  have hk := key (m[a]?.getD ∅)
  unfold get remove
  simp only
  generalize (if ((m[a]?.getD ∅)[b]?.getD ∅ |>.erase c).isEmpty = true then (m[a]?.getD ∅).erase b
    else (m[a]?.getD ∅).insert b ((m[a]?.getD ∅)[b]?.getD ∅ |>.erase c)) = rows at hk ⊢
  by_cases ha : a = a'
  · subst ha
    have hr : ((m[a]?.getD ∅)[b']?.bind fun cells => cells[c']?) =
        m[a]?.bind fun rows => rows[b']?.bind fun cells => cells[c']? := by
      cases m[a]? <;> simp
    rw [hr] at hk
    simp only [true_and]
    rw [← hk]
    by_cases hemp : rows.isEmpty = true
    · rw [if_pos hemp, ExtTreeMap.getElem?_erase_self, ExtTreeMap.isEmpty_iff.1 hemp,
        ExtTreeMap.getElem?_empty]
      rfl
    · rw [if_neg hemp, ExtTreeMap.getElem?_insert_self, Option.bind_some]
  · rw [if_neg (fun h : a = a' ∧ b = b' ∧ c = c' => ha h.1)]
    by_cases hemp : rows.isEmpty = true
    · rw [if_pos hemp, ExtTreeMap.getElem?_erase_eq, if_neg ha]
    · rw [if_neg hemp, ExtTreeMap.getElem?_insert_eq, if_neg ha]

/-- Writing a list of entries in turn. -/
def setAll (m : NestedMap α β γ δ) (l : List (α × β × γ × δ)) : NestedMap α β γ δ :=
  l.foldl (fun m x => m.set x.1 x.2.1 x.2.2.1 x.2.2.2) m

/-- A key no entry has is untouched. -/
theorem get_setAll_of_not_mem {l : List (α × β × γ × δ)} {a : α} {b : β} {c : γ}
    (h : ∀ d, (a, b, c, d) ∉ l) : (m.setAll l).get a b c = m.get a b c := by
  induction l generalizing m with
  | nil => rfl
  | cons x l ih =>
    obtain ⟨a', b', c', d'⟩ := x
    have hx : ¬ (a' = a ∧ b' = b ∧ c' = c) := by
      rintro ⟨rfl, rfl, rfl⟩
      exact h d' List.mem_cons_self
    change NestedMap.get (setAll _ l) a b c = _
    rw [ih fun d hd => h d (List.mem_cons_of_mem _ hd), get_set, if_neg hx]

/-- With one entry a key, the entry is there afterwards. -/
theorem get_setAll_of_mem {l : List (α × β × γ × δ)} {a : α} {b : β} {c : γ} {d : δ}
    (hm : (a, b, c, d) ∈ l) (hu : ∀ d', (a, b, c, d') ∈ l → d' = d) :
    (m.setAll l).get a b c = some d := by
  induction l generalizing m with
  | nil => cases hm
  | cons x l ih =>
    change NestedMap.get (setAll _ l) a b c = _
    by_cases hl : ∃ d', (a, b, c, d') ∈ l
    · obtain ⟨d', hd'⟩ := hl
      obtain rfl := hu d' (List.mem_cons_of_mem _ hd')
      exact ih hd' fun d'' h'' => hu d'' (List.mem_cons_of_mem _ h'')
    · rw [get_setAll_of_not_mem fun d' h' => hl ⟨d', h'⟩]
      rcases List.mem_cons.1 hm with rfl | h'
      · rw [get_set, if_pos ⟨rfl, rfl, rfl⟩]
      · exact absurd ⟨d, h'⟩ hl

/-- Every key is untouched or has an entry's value. -/
theorem get_setAll_cases {l : List (α × β × γ × δ)} {a : α} {b : β} {c : γ} :
    (m.setAll l).get a b c = m.get a b c ∨
      ∃ d, (a, b, c, d) ∈ l ∧ (m.setAll l).get a b c = some d := by
  induction l generalizing m with
  | nil => exact .inl rfl
  | cons x l ih =>
    obtain ⟨a', b', c', d'⟩ := x
    change NestedMap.get (setAll _ l) a b c = _ ∨ _
    rcases ih (m := m.set a' b' c' d') with h | ⟨d, hd, h⟩
    · rw [h, get_set]
      split
      · rename_i hk
        obtain ⟨rfl, rfl, rfl⟩ := hk
        refine .inr ⟨d', List.mem_cons_self, h.trans ?_⟩
        rw [get_set, if_pos ⟨rfl, rfl, rfl⟩]
      · exact .inl rfl
    · exact .inr ⟨d, List.mem_cons_of_mem _ hd, h⟩

/-- Removing a list of keys in turn. -/
def removeAll (m : NestedMap α β γ δ) (l : List (α × β × γ)) : NestedMap α β γ δ :=
  l.foldl (fun m x => m.remove x.1 x.2.1 x.2.2) m

theorem get_removeAll {l : List (α × β × γ)} {a : α} {b : β} {c : γ} :
    (m.removeAll l).get a b c = if (a, b, c) ∈ l then none else m.get a b c := by
  induction l generalizing m with
  | nil => simp [removeAll]
  | cons x l ih =>
    obtain ⟨a', b', c'⟩ := x
    change NestedMap.get (removeAll _ l) a b c = _
    rw [ih, get_remove]
    by_cases hl : (a, b, c) ∈ l
    · simp [hl]
    · by_cases hx : a' = a ∧ b' = b ∧ c' = c
      · obtain ⟨rfl, rfl, rfl⟩ := hx
        simp
      · have hne : (a, b, c) ≠ (a', b', c') := by
          rintro h
          obtain ⟨rfl, h'⟩ := Prod.mk.inj h
          obtain ⟨rfl, rfl⟩ := Prod.mk.inj h'
          exact hx ⟨rfl, rfl, rfl⟩
        simp [hl, hx, hne]

omit [LawfulEqOrd γ] [DecidableEq γ] in
theorem Tight.set (h : m.Tight) (a : α) (b : β) (c : γ) (d : δ) : (m.set a b c d).Tight := by
  unfold NestedMap.set
  constructor
  · intro a' rs hr
    rw [ExtTreeMap.getElem?_insert_eq] at hr
    split at hr
    · obtain rfl := Option.some.inj hr
      exact ExtTreeMap.insert_ne_empty
    · exact h.rows hr
  · intro a' rs b' cs hr hc
    rw [ExtTreeMap.getElem?_insert_eq] at hr
    split at hr
    · obtain rfl := Option.some.inj hr
      rw [ExtTreeMap.getElem?_insert_eq] at hc
      split at hc
      · obtain rfl := Option.some.inj hc
        exact ExtTreeMap.insert_ne_empty
      · cases hm : m[a]? with
        | none => rw [hm] at hc; simp at hc
        | some rows => rw [hm] at hc; exact h.cells hm hc
    · exact h.cells hr hc

omit [LawfulEqOrd γ] [DecidableEq γ] in
theorem Tight.remove (h : m.Tight) (a : α) (b : β) (c : γ) : (m.remove a b c).Tight := by
  have hne : ∀ {κ ν : Type} [Ord κ] {t : ExtTreeMap κ ν compare},
      ¬ t.isEmpty = true → ¬ t = ∅ := fun hn e => hn (by rw [e]; rfl)
  -- the rows of a table never hold an empty row
  have hcells : ∀ {b' : β} {cs : ExtTreeMap γ δ compare},
      (m[a]?.getD ∅)[b']? = some cs → ¬ cs = ∅ := by
    intro b' cs hc
    cases hm : m[a]? with
    | none => rw [hm] at hc; simp at hc
    | some rows => rw [hm] at hc; exact h.cells hm hc
  have hrows : ∀ {b' : β} {cs : ExtTreeMap γ δ compare},
      (if ((m[a]?.getD ∅)[b]?.getD ∅ |>.erase c).isEmpty = true then (m[a]?.getD ∅).erase b
        else (m[a]?.getD ∅).insert b ((m[a]?.getD ∅)[b]?.getD ∅ |>.erase c))[b']? = some cs →
      ¬ cs = ∅ := by
    intro b' cs hc
    by_cases hemp : ((m[a]?.getD ∅)[b]?.getD ∅ |>.erase c).isEmpty = true
    · rw [if_pos hemp, ExtTreeMap.getElem?_erase_eq] at hc
      by_cases hb : b = b'
      · rw [if_pos hb] at hc; cases hc
      · rw [if_neg hb] at hc; exact hcells hc
    · rw [if_neg hemp, ExtTreeMap.getElem?_insert_eq] at hc
      by_cases hb : b = b'
      · rw [if_pos hb] at hc
        obtain rfl := Option.some.inj hc
        exact hne hemp
      · rw [if_neg hb] at hc; exact hcells hc
  unfold NestedMap.remove
  simp only
  generalize (if ((m[a]?.getD ∅)[b]?.getD ∅ |>.erase c).isEmpty = true then (m[a]?.getD ∅).erase b
    else (m[a]?.getD ∅).insert b ((m[a]?.getD ∅)[b]?.getD ∅ |>.erase c)) = rows at hrows ⊢
  -- either the table goes or it holds `rows`
  have key : ∀ {a' : α} {rs : ExtTreeMap β (ExtTreeMap γ δ compare) compare},
      (if rows.isEmpty = true then m.erase a else m.insert a rows)[a']? = some rs →
      m[a']? = some rs ∨ rs = rows ∧ ¬ rows = ∅ := by
    intro a' rs hr
    by_cases hemp : rows.isEmpty = true
    · rw [if_pos hemp, ExtTreeMap.getElem?_erase_eq] at hr
      by_cases ha : a = a'
      · rw [if_pos ha] at hr; cases hr
      · rw [if_neg ha] at hr; exact .inl hr
    · rw [if_neg hemp, ExtTreeMap.getElem?_insert_eq] at hr
      by_cases ha : a = a'
      · rw [if_pos ha] at hr
        exact .inr ⟨(Option.some.inj hr).symm, hne hemp⟩
      · rw [if_neg ha] at hr; exact .inl hr
  constructor
  · intro a' rs hr
    rcases key hr with hr | ⟨rfl, hn⟩
    · exact h.rows hr
    · exact hn
  · intro a' rs b' cs hr hc
    rcases key hr with hr | ⟨rfl, -⟩
    · exact h.cells hr hc
    · exact hrows hc

omit [LawfulEqOrd γ] [DecidableEq γ] in
theorem Tight.setAll (h : m.Tight) (l : List (α × β × γ × δ)) : (m.setAll l).Tight := by
  induction l generalizing m with
  | nil => exact h
  | cons x l ih => exact ih (h.set ..)

omit [LawfulEqOrd γ] [DecidableEq γ] in
theorem Tight.removeAll (h : m.Tight) (l : List (α × β × γ)) : (m.removeAll l).Tight := by
  induction l generalizing m with
  | nil => exact h
  | cons x l ih => exact ih (h.remove ..)

end NestedMap
