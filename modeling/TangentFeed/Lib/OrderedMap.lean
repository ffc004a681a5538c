import Mathlib.Data.List.Nodup

/-!
# Maps in insertion order

The `Map` of JavaScript: `set` keeps the place of a key that is there and puts a
new key last, and the keys, the values and the entries are listed in that order.
-/

structure OrderedMap (α β : Type) where
  entries : List (α × β)
  nodup : (entries.map Prod.fst).Nodup

namespace OrderedMap

variable {α β : Type}

def keys (m : OrderedMap α β) : List α := m.entries.map Prod.fst

def values (m : OrderedMap α β) : List β := m.entries.map Prod.snd

def size (m : OrderedMap α β) : Nat := m.entries.length

def empty : OrderedMap α β := ⟨[], .nil⟩

theorem ext {m n : OrderedMap α β} (h : m.entries = n.entries) : m = n := by
  cases m
  cases n
  cases h
  rfl

/-- The values changed, under the keys they have. -/
def map {γ : Type} (f : β → γ) (m : OrderedMap α β) : OrderedMap α γ where
  entries := m.entries.map fun e => (e.1, f e.2)
  nodup := by
    rw [List.map_map]
    exact m.nodup

theorem keys_map {γ : Type} (f : β → γ) (m : OrderedMap α β) : (m.map f).keys = m.keys :=
  List.map_map

theorem values_map {γ : Type} (f : β → γ) (m : OrderedMap α β) :
    (m.map f).values = m.values.map f := by
  unfold values map
  rw [List.map_map, List.map_map]
  rfl

/-! ## Lists of entries -/

section Entries

theorem lookup_map [BEq α] {γ : Type} (f : β → γ) (l : List (α × β)) (k : α) :
    (l.map fun e => (e.1, f e.2)).lookup k = (l.lookup k).map f := by
  induction l with
  | nil => rfl
  | cons e l ih =>
    rw [List.map_cons, List.lookup_cons, List.lookup_cons, ih]
    cases k == e.1 <;> rfl

variable [BEq α] [LawfulBEq α] {k : α} {v : β}

theorem mem_iff_lookup {l : List (α × β)} (hn : (l.map Prod.fst).Nodup) :
    (k, v) ∈ l ↔ l.lookup k = some v := by
  induction l with
  | nil => simp
  | cons e l ih =>
    obtain ⟨x, y⟩ := e
    rw [List.map_cons, List.nodup_cons] at hn
    rw [List.lookup_cons, List.mem_cons, ih hn.2]
    by_cases hk : k = x
    · subst hk
      simp only [beq_self_eq_true]
      constructor
      · rintro (h | h)
        · rw [(Prod.mk.inj h).2]
        · exact absurd (List.mem_map_of_mem ((ih hn.2).2 h)) hn.1
      · rintro h
        exact .inl (by rw [Option.some.inj h])
    · simp [hk, beq_eq_false_iff_ne.2 hk]

theorem lookup_eq_none {l : List (α × β)} : l.lookup k = none ↔ k ∉ l.map Prod.fst := by
  rw [List.lookup_eq_none_iff, List.mem_map]
  constructor
  · rintro h ⟨e, he, rfl⟩
    exact absurd (h e he) (by simp)
  · rintro h e he
    rw [bne_iff_ne]
    rintro rfl
    exact h ⟨e, he, rfl⟩

/-- The order of the entries does not matter. -/
theorem lookup_perm {l l' : List (α × β)} (h : l.Perm l') (hn : (l.map Prod.fst).Nodup) (k : α) :
    l.lookup k = l'.lookup k := by
  ext v
  rw [← mem_iff_lookup hn, ← mem_iff_lookup ((h.map Prod.fst).nodup_iff.1 hn), h.mem_iff]

end Entries

/-! ## Operations -/

variable [DecidableEq α]

def get (m : OrderedMap α β) (a : α) : Option β := m.entries.lookup a

/-- Put `b` in the place of key `a`, or last. -/
def put (a : α) (b : β) : List (α × β) → List (α × β)
  | [] => [(a, b)]
  | e :: rest => if e.1 = a then (a, b) :: rest else e :: put a b rest

theorem map_fst_put {a : α} {b : β} (l : List (α × β)) :
    (put a b l).map Prod.fst =
      if a ∈ l.map Prod.fst then l.map Prod.fst else l.map Prod.fst ++ [a] := by
  induction l with
  | nil => rfl
  | cons e l ih =>
    rw [put]
    by_cases h : e.1 = a
    · simp [h]
    · rw [if_neg h, List.map_cons, ih, List.map_cons]
      by_cases ha : a ∈ l.map Prod.fst
      · rw [if_pos ha, if_pos (List.mem_cons_of_mem _ ha)]
      · have hn : a ∉ e.1 :: l.map Prod.fst := by
          rw [List.mem_cons]
          rintro (rfl | ha')
          · exact h rfl
          · exact ha ha'
        rw [if_neg ha, if_neg hn]
        rfl

def set (m : OrderedMap α β) (a : α) (b : β) : OrderedMap α β where
  entries := put a b m.entries
  nodup := by
    rw [map_fst_put]
    split
    · exact m.nodup
    · rename_i h
      exact List.nodup_append.2 ⟨m.nodup, List.nodup_singleton a, fun x hx y hy hxy => by
        rw [List.mem_singleton] at hy
        exact h (hy ▸ hxy ▸ hx)⟩

def erase (m : OrderedMap α β) (a : α) : OrderedMap α β where
  entries := m.entries.filter fun e => e.1 ≠ a
  nodup := m.nodup.sublist (List.filter_sublist.map _)

variable {m : OrderedMap α β} {a k : α} {b v : β}

theorem put_of_notMem {a : α} {b : β} {l : List (α × β)} (h : a ∉ l.map Prod.fst) :
    put a b l = l ++ [(a, b)] := by
  induction l with
  | nil => rfl
  | cons e l ih =>
    rw [List.map_cons, List.mem_cons, not_or] at h
    rw [put, if_neg (Ne.symm h.1), ih h.2]
    rfl

theorem lookup_put (l : List (α × β)) :
    (put a b l).lookup k = if k = a then some b else l.lookup k := by
  induction l with
  | nil => by_cases h : k = a <;> simp [put, h]
  | cons e l ih =>
    obtain ⟨x, y⟩ := e
    rw [put]
    by_cases hx : x = a
    · subst hx
      rw [if_pos rfl, List.lookup_cons, List.lookup_cons]
      by_cases hk : k = x
      · simp [hk]
      · simp [hk, beq_eq_false_iff_ne.2 hk]
    · rw [if_neg hx, List.lookup_cons, List.lookup_cons, ih]
      by_cases hk : k = x
      · subst hk
        simp [hx]
      · simp [beq_eq_false_iff_ne.2 hk]

/-- Entries that are put one after the other: the last of a key counts. -/
theorem lookup_foldl_put [inst : BEq α] [LawfulBEq α] (l o : List (α × β)) (k : α) :
    (l.foldl (fun o e => put e.1 e.2 o) o).lookup k = (l.reverse.lookup k).or (o.lookup k) := by
  obtain rfl : inst = instBEqOfDecidableEq := lawful_beq_subsingleton _ _
  induction l generalizing o with
  | nil => rfl
  | cons e l ih =>
    rw [List.foldl_cons, ih, lookup_put, List.reverse_cons, List.lookup_append, Option.or_assoc]
    congr 1
    rw [List.lookup_cons, List.lookup_nil]
    by_cases hk : k = e.1
    · rw [if_pos hk, beq_iff_eq.2 hk, Option.some_or]
    · rw [if_neg hk, beq_eq_false_iff_ne.2 hk, Option.none_or]

theorem nodup_foldl_put (l : List (α × β)) {o : List (α × β)} (h : (o.map Prod.fst).Nodup) :
    ((l.foldl (fun o e => put e.1 e.2 o) o).map Prod.fst).Nodup := by
  induction l generalizing o with
  | nil => exact h
  | cons e l ih => exact ih ((⟨o, h⟩ : OrderedMap α β).set e.1 e.2).nodup

/-- Entries of distinct keys that are put one after the other are kept as they are. -/
theorem foldl_put_of_nodup {l o : List (α × β)} (h : ((o ++ l).map Prod.fst).Nodup) :
    l.foldl (fun o e => put e.1 e.2 o) o = o ++ l := by
  induction l generalizing o with
  | nil => rw [List.foldl_nil, List.append_nil]
  | cons e l ih =>
    have hk : e.1 ∉ o.map Prod.fst := by
      rw [List.map_append, List.map_cons, List.nodup_append] at h
      exact fun hm => h.2.2 _ hm _ List.mem_cons_self rfl
    rw [List.append_cons] at h ⊢
    rw [List.foldl_cons, put_of_notMem hk, ih h]

theorem get_set : (m.set a b).get k = if k = a then some b else m.get k := lookup_put m.entries

theorem lookup_filter (l : List (α × β)) :
    (l.filter fun e => e.1 ≠ a).lookup k = if k = a then none else l.lookup k := by
  induction l with
  | nil => simp
  | cons e l ih =>
    obtain ⟨x, y⟩ := e
    by_cases hx : x = a
    · subst hx
      rw [List.filter_cons_of_neg (by simp), ih, List.lookup_cons]
      by_cases hk : k = x
      · simp [hk]
      · simp [hk, beq_eq_false_iff_ne.2 hk]
    · rw [List.filter_cons_of_pos (by simpa using hx), List.lookup_cons, List.lookup_cons, ih]
      by_cases hk : k = x
      · subst hk
        simp [hx]
      · simp [beq_eq_false_iff_ne.2 hk]

theorem get_erase : (m.erase a).get k = if k = a then none else m.get k := lookup_filter m.entries

@[simp] theorem get_empty : (empty : OrderedMap α β).get k = none := rfl

theorem get_cons {e : α × β} {l : List (α × β)} (hn : ((e :: l).map Prod.fst).Nodup) :
    (⟨e :: l, hn⟩ : OrderedMap α β).get k =
      if k = e.1 then some e.2 else (⟨l, (List.nodup_cons.1 hn).2⟩ : OrderedMap α β).get k := by
  unfold get
  rw [List.lookup_cons]
  by_cases hk : k = e.1
  · rw [if_pos hk, beq_iff_eq.2 hk]
  · rw [if_neg hk, beq_eq_false_iff_ne.2 hk]

theorem get_eq_none : m.get k = none ↔ k ∉ m.keys := lookup_eq_none

/-- Entries set one after the other: the last of a key counts. -/
theorem get_foldl_set (l : List (α × β)) (m : OrderedMap α β) :
    (l.foldl (fun m e => m.set e.1 e.2) m).get k = (l.reverse.lookup k).or (m.get k) := by
  have hentries : ∀ (l : List (α × β)) (m : OrderedMap α β),
      (l.foldl (fun m e => m.set e.1 e.2) m).entries =
        l.foldl (fun o e => put e.1 e.2 o) m.entries := by
    intro l
    induction l with
    | nil => exact fun m => rfl
    | cons e l ih => exact fun m => ih (m.set e.1 e.2)
  rw [get, hentries, lookup_foldl_put]
  rfl

/-- Entries set one after the other, where no key comes with two values. -/
theorem get_foldl_set_empty {l : List (α × β)}
    (hl : ∀ {k v w}, (k, v) ∈ l → (k, w) ∈ l → v = w) :
    (l.foldl (fun m e => m.set e.1 e.2) empty).get k = some v ↔ (k, v) ∈ l := by
  have sound : ∀ {w}, l.reverse.lookup k = some w → (k, w) ∈ l := by
    intro w hw
    obtain ⟨l1, l2, e, -⟩ := List.lookup_eq_some_iff.1 hw
    exact List.mem_reverse.1 (e ▸ List.mem_append_right _ List.mem_cons_self)
  rw [get_foldl_set, get_empty, Option.or_none]
  refine ⟨sound, fun h => ?_⟩
  cases hw : l.reverse.lookup k with
  | none =>
    rw [lookup_eq_none, List.map_reverse, List.mem_reverse] at hw
    exact absurd (List.mem_map_of_mem h) hw
  | some w => rw [hl h (sound hw)]

/-- The entries of one map set in another. -/
theorem get_foldl_entries (n m : OrderedMap α β) :
    (n.entries.foldl (fun m e => m.set e.1 e.2) m).get k = (n.get k).or (m.get k) := by
  rw [get_foldl_set, ← lookup_perm (List.reverse_perm _).symm n.nodup]
  rfl

theorem get_foldl_erase (ks : List α) (m : OrderedMap α β) :
    (ks.foldl (fun m a => m.erase a) m).get k = if k ∈ ks then none else m.get k := by
  induction ks generalizing m with
  | nil => simp
  | cons a ks ih =>
    rw [List.foldl_cons, ih, get_erase]
    by_cases hk : k ∈ ks
    · simp [hk]
    · by_cases ha : k = a <;> simp [hk, ha]

theorem mem_entries : (k, v) ∈ m.entries ↔ m.get k = some v := mem_iff_lookup m.nodup

theorem mem_keys : k ∈ m.keys ↔ ∃ v, m.get k = some v := by
  simp only [keys, List.mem_map, Prod.exists, exists_and_right, exists_eq_right, mem_entries]

theorem mem_values : v ∈ m.values ↔ ∃ k, m.get k = some v := by
  simp only [values, List.mem_map, Prod.exists, exists_eq_right, mem_entries]

theorem size_eq_zero : m.size = 0 ↔ ∀ k, m.get k = none := by
  constructor
  · intro h k
    rw [get, List.length_eq_zero_iff.1 h]
    rfl
  · intro h
    refine List.length_eq_zero_iff.2 (List.eq_nil_iff_forall_not_mem.2 ?_)
    rintro ⟨k, v⟩ hm
    rw [mem_entries, h k] at hm
    cases hm

/-- A map with one entry. -/
theorem size_eq_one (hk : m.get k = some v) : m.size = 1 ↔ ∀ a, a ≠ k → m.get a = none := by
  have hmem : k ∈ m.keys := mem_keys.2 ⟨v, hk⟩
  have hsize : m.size = m.keys.length := (List.length_map _).symm
  rw [hsize]
  constructor
  · intro h a ha
    obtain ⟨b, hb⟩ := List.length_eq_one_iff.1 h
    rw [hb, List.mem_singleton] at hmem
    rw [get_eq_none, hb, List.mem_singleton, ← hmem]
    exact ha
  · intro h
    have hall : ∀ a ∈ m.keys, a = k := fun a ha => by
      by_contra hne
      exact absurd ha (get_eq_none.1 (h a hne))
    have hrep := List.eq_replicate_iff.2 ⟨rfl, hall⟩
    have hle : m.keys.length ≤ 1 := by
      have hn : m.keys.Nodup := m.nodup
      rw [hrep] at hn
      exact List.nodup_replicate.1 hn
    exact Nat.le_antisymm hle (List.length_pos_of_mem hmem)

/-! ## Entries of some keys -/

/-- The entries under other keys stay where they are. -/
theorem filter_put {p : α → Bool} {a : α} {b : β} (ha : p a = false) (l : List (α × β)) :
    (put a b l).filter (fun e => p e.1) = l.filter fun e => p e.1 := by
  induction l with
  | nil => simp [put, ha]
  | cons e l ih =>
    unfold put
    split
    · rename_i h
      simp [ha, h]
    · rw [List.filter_cons, List.filter_cons, ih]

theorem filter_foldl_set {p : α → Bool} {l : List (α × β)} (hl : ∀ e ∈ l, p e.1 = false)
    (m : OrderedMap α β) : (l.foldl (fun m e => m.set e.1 e.2) m).entries.filter (fun e => p e.1) =
      m.entries.filter fun e => p e.1 := by
  induction l generalizing m with
  | nil => rfl
  | cons e l ih =>
    obtain ⟨he, hl⟩ := List.forall_mem_cons.1 hl
    exact (ih hl (m.set e.1 e.2)).trans (filter_put he _)

theorem entries_foldl_erase (ks : List α) (m : OrderedMap α β) :
    (ks.foldl (fun m a => m.erase a) m).entries = m.entries.filter fun e => decide (e.1 ∉ ks) := by
  induction ks generalizing m with
  | nil => simp
  | cons a ks ih =>
    rw [List.foldl_cons, ih, erase, List.filter_filter]
    exact List.filter_congr fun e _ => by simp [Bool.and_comm]

/-! ## Other values -/

section Map

variable {γ : Type} (f : β → γ)

theorem get_map : (m.map f).get k = (m.get k).map f := lookup_map f m.entries k

theorem map_set : (m.set a b).map f = (m.map f).set a (f b) := by
  apply ext
  change (put a b m.entries).map _ = put a (f b) (m.entries.map _)
  induction m.entries with
  | nil => rfl
  | cons e l ih =>
    rw [List.map_cons, put, put]
    split
    · rfl
    · rw [List.map_cons, ih]

theorem map_erase : (m.erase a).map f = (m.map f).erase a := by
  apply ext
  change _ = (m.entries.map _).filter _
  rw [List.filter_map]
  rfl

end Map

end OrderedMap
