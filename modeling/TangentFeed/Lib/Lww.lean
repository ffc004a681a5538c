import Mathlib.Data.Set.Insert
import Mathlib.Order.Defs.LinearOrder
import Mathlib.Tactic.Tauto

/-!
# Greatest-per-key registers

A `Scheme` reads a key, a value and the rank of a value off a record. `put`
keeps the value of greatest rank under each key, an earlier one on a tie;
`Tracks S m` says that `m` holds exactly the greatest values of the records in
`S`. What `putAll` leaves depends only on the set of records put.
-/

namespace Lww

structure Scheme (α κ ν σ : Type) where
  key : α → κ
  val : α → ν
  rank : ν → σ

variable {α κ ν σ : Type} [LinearOrder σ] {L : Scheme α κ ν σ}

/-- The value kept when `v` meets what is there. -/
def Scheme.merge (L : Scheme α κ ν σ) (old : Option ν) (v : ν) : ν :=
  match old with
  | none => v
  | some w => if L.rank w < L.rank v then v else w

theorem Scheme.merge_cases (L : Scheme α κ ν σ) (old : Option ν) (v : ν) :
    L.merge old v = v ∨ old = some (L.merge old v) := by
  cases old with
  | none => exact .inl rfl
  | some w =>
    unfold Scheme.merge
    simp only
    split
    · exact .inl rfl
    · exact .inr rfl

variable [DecidableEq κ]

def put (L : Scheme α κ ν σ) (m : κ → Option ν) (o : α) : κ → Option ν := fun k =>
  if L.key o = k then some (L.merge (m k) (L.val o)) else m k

def putAll (L : Scheme α κ ν σ) (m : κ → Option ν) (ops : List α) : κ → Option ν :=
  ops.foldl (put L) m

/-- `v` is the value of greatest rank under `k`. -/
structure IsBest (L : Scheme α κ ν σ) (S : Set α) (k : κ) (v : ν) : Prop where
  mem : ∃ o ∈ S, L.key o = k ∧ L.val o = v
  le : ∀ o ∈ S, L.key o = k → L.rank (L.val o) ≤ L.rank v

/-- `m` holds the greatest values of `S`. -/
structure Tracks (L : Scheme α κ ν σ) (S : Set α) (m : κ → Option ν) : Prop where
  best : ∀ {k v}, m k = some v → IsBest L S k v
  total : ∀ o ∈ S, ∃ v, m (L.key o) = some v

theorem put_key {m : κ → Option ν} {o : α} :
    put L m o (L.key o) = some (L.merge (m (L.key o)) (L.val o)) := if_pos rfl

theorem put_of_ne {m : κ → Option ν} {o : α} {k : κ} (h : L.key o ≠ k) : put L m o k = m k :=
  if_neg h

/-- A value that outranks what is there takes its place. -/
theorem put_of_outranks {m : κ → Option ν} {o : α}
    (h : ∀ w, m (L.key o) = some w → L.rank w < L.rank (L.val o)) :
    put L m o = fun k => if L.key o = k then some (L.val o) else m k := by
  funext k
  unfold put
  by_cases hk : L.key o = k
  · subst hk
    rw [if_pos rfl, if_pos rfl]
    cases hm : m (L.key o) with
    | none => rfl
    | some w => exact congrArg some (if_pos (h w hm))
  · rw [if_neg hk, if_neg hk]

/-- A value that does not outrank what is there changes nothing. -/
theorem put_of_not_outranks {m : κ → Option ν} {o : α} {w : ν} (hm : m (L.key o) = some w)
    (h : ¬L.rank w < L.rank (L.val o)) : put L m o = m := by
  funext k
  unfold put
  by_cases hk : L.key o = k
  · subst hk
    rw [if_pos rfl, hm]
    exact congrArg some (if_neg h)
  · rw [if_neg hk]

theorem putAll_concat {m : κ → Option ν} {ops : List α} {o : α} :
    putAll L m (ops ++ [o]) = put L (putAll L m ops) o := by
  rw [putAll, List.foldl_append]
  rfl

/-- A key no record has is untouched. -/
theorem putAll_of_ne {m : κ → Option ν} {ops : List α} {k : κ} (h : ∀ o ∈ ops, L.key o ≠ k) :
    putAll L m ops k = m k := by
  induction ops generalizing m with
  | nil => rfl
  | cons o ops ih =>
    change putAll L (put L m o) ops k = _
    rw [ih fun p hp => h p (List.mem_cons_of_mem _ hp), put_of_ne (h o List.mem_cons_self)]

/-- Records of different keys that outrank what is there all take their places. -/
theorem putAll_of_outranks {m : κ → Option ν} {ops : List α} (hn : (ops.map L.key).Nodup)
    (h : ∀ o ∈ ops, ∀ w, m (L.key o) = some w → L.rank w < L.rank (L.val o)) {o : α}
    (ho : o ∈ ops) : putAll L m ops (L.key o) = some (L.val o) := by
  induction ops generalizing m with
  | nil => cases ho
  | cons p ops ih =>
    obtain ⟨hp, hn⟩ := List.nodup_cons.1 hn
    change putAll L (put L m p) ops _ = _
    have hput : put L m p (L.key p) = some (L.val p) := by
      rw [put_of_outranks (h p List.mem_cons_self)]
      exact if_pos rfl
    rcases List.mem_cons.1 ho with rfl | ho
    · rw [putAll_of_ne fun q hq hk => hp (List.mem_map.2 ⟨q, hq, hk⟩), hput]
    · refine ih hn (fun q hq w hw => ?_) ho
      have hne : L.key p ≠ L.key q := fun hk => hp (List.mem_map.2 ⟨q, hq, hk.symm⟩)
      rw [put_of_ne hne] at hw
      exact h q (List.mem_cons_of_mem _ hq) w hw

omit [DecidableEq κ] in
theorem Tracks.empty : Tracks L ∅ fun _ => none :=
  ⟨fun {_ v} (h : none = some v) => (nomatch h), fun o h => absurd h (Set.notMem_empty o)⟩

omit [DecidableEq κ] in
theorem Tracks.congr {S S' : Set α} {m m' : κ → Option ν} (h : Tracks L S m) (hs : S' = S)
    (hm : m' = m) : Tracks L S' m' := by
  rwa [hs, hm]

theorem Tracks.put {S : Set α} {m : κ → Option ν} (h : Tracks L S m) (o : α) :
    Tracks L (insert o S) (put L m o) := by
  constructor
  · intro k v hv
    unfold Lww.put at hv
    by_cases hk : L.key o = k
    · rw [if_pos hk] at hv
      obtain rfl := Option.some.inj hv
      cases hm : m k with
      | none =>
        refine ⟨⟨o, Set.mem_insert .., hk, rfl⟩, fun p hp hpk => ?_⟩
        rcases hp with rfl | hp
        · exact le_refl _
        · obtain ⟨w, hw⟩ := h.total p hp
          rw [hpk, hm] at hw
          cases hw
      | some w =>
        have hb := h.best hm
        unfold Scheme.merge
        by_cases hlt : L.rank w < L.rank (L.val o)
        · simp only [if_pos hlt]
          refine ⟨⟨o, Set.mem_insert .., hk, rfl⟩, fun p hp hpk => ?_⟩
          rcases hp with rfl | hp
          · exact le_refl _
          · exact le_trans (hb.le p hp hpk) (le_of_lt hlt)
        · simp only [if_neg hlt]
          obtain ⟨q, hq, hqk, hqv⟩ := hb.mem
          refine ⟨⟨q, Set.mem_insert_of_mem _ hq, hqk, hqv⟩, fun p hp hpk => ?_⟩
          rcases hp with rfl | hp
          · exact not_lt.1 hlt
          · exact hb.le p hp hpk
    · rw [if_neg hk] at hv
      obtain ⟨⟨q, hq, hqk, hqv⟩, hle⟩ := h.best hv
      refine ⟨⟨q, Set.mem_insert_of_mem _ hq, hqk, hqv⟩, fun p hp hpk => ?_⟩
      rcases hp with rfl | hp
      · exact absurd hpk hk
      · exact hle p hp hpk
  · intro p hp
    unfold Lww.put
    by_cases hk : L.key o = L.key p
    · exact ⟨_, if_pos hk⟩
    · rcases hp with rfl | hp
      · exact absurd rfl hk
      · rw [if_neg hk]
        exact h.total p hp

omit [LinearOrder σ] [DecidableEq κ] in
theorem union_cons (S : Set α) (o : α) (ops : List α) :
    S ∪ {p | p ∈ o :: ops} = insert o S ∪ {p | p ∈ ops} := by
  ext p
  simp only [List.mem_cons, Set.mem_union, Set.mem_ofPred_eq, Set.mem_insert_iff]
  tauto

/-- Putting a list adds its records to the set tracked. -/
theorem Tracks.putAll {S : Set α} {m : κ → Option ν} (h : Tracks L S m) (ops : List α) :
    Tracks L (S ∪ {o | o ∈ ops}) (putAll L m ops) := by
  induction ops generalizing S m with
  | nil => simpa [Lww.putAll] using h
  | cons o ops ih =>
    rw [union_cons]
    exact ih (h.put o)

omit [DecidableEq κ] in
/-- Records that others of their key outrank may be left out. -/
theorem Tracks.superset {S T : Set α} {m : κ → Option ν} (h : Tracks L S m) (hs : S ⊆ T)
    (hc : ∀ o ∈ T, ∃ p ∈ S, L.key p = L.key o ∧ L.rank (L.val o) ≤ L.rank (L.val p)) :
    Tracks L T m := by
  constructor
  · intro k v hv
    obtain ⟨o, ho, hok, rfl⟩ := (h.best hv).mem
    refine ⟨⟨o, hs ho, hok, rfl⟩, fun p hp hpk => ?_⟩
    obtain ⟨q, hq, hqk, hle⟩ := hc p hp
    exact le_trans hle ((h.best hv).le q hq (hqk.trans hpk))
  · intro o ho
    obtain ⟨p, hp, hpk, -⟩ := hc o ho
    rw [← hpk]
    exact h.total p hp

/-- Ranks tell the values of one key apart. -/
def Separates (L : Scheme α κ ν σ) (S : Set α) : Prop :=
  ∀ o ∈ S, ∀ p ∈ S, L.key o = L.key p → L.rank (L.val o) = L.rank (L.val p) → L.val o = L.val p

omit [DecidableEq κ] in
theorem IsBest.unique {S : Set α} {k : κ} {v w : ν} (hs : Separates L S) (hv : IsBest L S k v)
    (hw : IsBest L S k w) : v = w := by
  obtain ⟨o, ho, hok, rfl⟩ := hv.mem
  obtain ⟨p, hp, hpk, rfl⟩ := hw.mem
  exact hs o ho p hp (hok.trans hpk.symm) (le_antisymm (hw.le o ho hok) (hv.le p hp hpk))

omit [DecidableEq κ] in
/-- What is held under a key is its best value. -/
theorem Tracks.eq_some_iff {S : Set α} {m : κ → Option ν} (hs : Separates L S) (h : Tracks L S m)
    {k : κ} {v : ν} : m k = some v ↔ IsBest L S k v := by
  constructor
  · exact h.best
  · intro hv
    obtain ⟨o, ho, rfl, -⟩ := hv.mem
    obtain ⟨w, hw⟩ := h.total o ho
    rw [hw, hv.unique hs (h.best hw)]

omit [DecidableEq κ] in
/-- **What tracks a set is determined by it.** -/
theorem Tracks.unique {S : Set α} {m n : κ → Option ν} (hs : Separates L S) (hm : Tracks L S m)
    (hn : Tracks L S n) : m = n := by
  funext k
  cases h1 : m k with
  | none =>
    cases h2 : n k with
    | none => rfl
    | some w =>
      obtain ⟨o, ho, rfl, -⟩ := (hn.best h2).mem
      obtain ⟨v, hv⟩ := hm.total o ho
      rw [h1] at hv
      cases hv
  | some v =>
    cases h2 : n k with
    | none =>
      obtain ⟨o, ho, rfl, -⟩ := (hm.best h1).mem
      obtain ⟨w, hw⟩ := hn.total o ho
      rw [h2] at hw
      cases hw
    | some w => rw [(hm.best h1).unique hs (hn.best h2)]

/-! ## Values without a rival -/

/-- No other value of `S` has the key and the rank of one that is held. -/
def Sole (L : Scheme α κ ν σ) (S : Set α) (m : κ → Option ν) : Prop :=
  ∀ k v, m k = some v → ∀ o ∈ S, L.key o = k → L.rank (L.val o) = L.rank v → L.val o = v

omit [LinearOrder σ] [DecidableEq κ] in
theorem Sole.empty {S : Set α} : Sole L S fun _ => none :=
  fun _ _ h => (nomatch h)

/-- A record that ties with no held value leaves each without a rival. -/
theorem Sole.put {S : Set α} {m : κ → Option ν} (h : Sole L S m) (ht : Tracks L S m) {o : α}
    (hnew : ∀ v, m (L.key o) = some v → L.rank v ≠ L.rank (L.val o)) :
    Sole L (insert o S) (put L m o) := by
  intro k v hv p hp hpk hrank
  by_cases hk : L.key o = k
  · subst hk
    rw [put_key] at hv
    obtain rfl := Option.some.inj hv
    rcases hp with rfl | hp
    · rcases L.merge_cases (m (L.key p)) (L.val p) with hm | hm
      · exact hm.symm
      · exact absurd hrank.symm (hnew _ hm)
    · obtain ⟨w, hw⟩ := ht.total p hp
      rw [hpk] at hw
      have hle : L.rank (L.val p) ≤ L.rank w := (ht.best hw).le p hp hpk
      rw [hw] at hrank ⊢
      unfold Scheme.merge at hrank ⊢
      by_cases hlt : L.rank w < L.rank (L.val o)
      · simp only [if_pos hlt] at hrank
        rw [hrank] at hle
        exact absurd hlt (not_lt.2 hle)
      · simp only [if_neg hlt] at hrank ⊢
        exact h _ _ hw p hp hpk hrank
  · rw [put_of_ne hk] at hv
    rcases hp with rfl | hp
    · exact absurd hpk hk
    · exact h _ _ hv p hp hpk hrank

/-- Records that tie with no held value and not with one another leave each without a rival. -/
theorem Sole.putAll {S : Set α} {m : κ → Option ν} (h : Sole L S m) (ht : Tracks L S m)
    {ops : List α}
    (hops : ops.Pairwise fun o p => L.key o = L.key p → L.rank (L.val o) ≠ L.rank (L.val p))
    (hnew : ∀ o ∈ ops, ∀ v, m (L.key o) = some v → L.rank v ≠ L.rank (L.val o)) :
    Sole L (S ∪ {o | o ∈ ops}) (putAll L m ops) := by
  induction ops generalizing S m with
  | nil => simpa [Lww.putAll] using h
  | cons o ops ih =>
    obtain ⟨ho, hops⟩ := List.pairwise_cons.1 hops
    rw [union_cons]
    refine ih (h.put ht (hnew o List.mem_cons_self)) (ht.put o) hops fun p hp v hv => ?_
    by_cases hk : L.key o = L.key p
    · rw [← hk, put_key] at hv
      obtain rfl := Option.some.inj hv
      rcases L.merge_cases (m (L.key o)) (L.val o) with hm | hm
      · rw [hm]
        exact ho p hp hk
      · rw [hk] at hm
        exact hnew p (List.mem_cons_of_mem _ hp) _ (by rw [hk]; exact hm)
    · rw [put_of_ne hk] at hv
      exact hnew p (List.mem_cons_of_mem _ hp) v hv

/-! ## Two registers -/

section Matched

variable {β μ : Type} {M : Scheme β κ μ σ} {S : Set α} {T : Set β} {m : κ → Option ν}
  {n : κ → Option μ} {R : α → β → Prop}

omit [DecidableEq κ] in
/-- **Registers that track matching records hold matching records.** -/
theorem Tracks.matched (hm : Tracks L S m) (hn : Tracks M T n) (hs : Sole M T n)
    (key : ∀ {a b}, R a b → L.key a = M.key b)
    (rank : ∀ {a b}, R a b → L.rank (L.val a) = M.rank (M.val b))
    (left : ∀ a ∈ S, ∃ b ∈ T, R a b) (right : ∀ b ∈ T, ∃ a ∈ S, R a b)
    {k : κ} {v : ν} (hv : m k = some v) :
    ∃ a ∈ S, ∃ b ∈ T, R a b ∧ L.val a = v ∧ n k = some (M.val b) := by
  obtain ⟨⟨a, ha, rfl, rfl⟩, hbest⟩ := hm.best hv
  obtain ⟨b, hb, hab⟩ := left a ha
  refine ⟨a, ha, b, hb, hab, rfl, ?_⟩
  obtain ⟨w, hw⟩ := hn.total b hb
  rw [key hab, hw]
  -- the record behind `w` has a match, which `a` is not below
  obtain ⟨b', hb', hk, rfl⟩ := (hn.best hw).mem
  obtain ⟨a', ha', hab'⟩ := right b' hb'
  have hle : M.rank (M.val b') ≤ M.rank (M.val b) := by
    rw [← rank hab', ← rank hab]
    exact hbest a' ha' ((key hab').trans (hk.trans (key hab).symm))
  rw [hs _ _ hw b hb rfl (le_antisymm ((hn.best hw).le b hb rfl) hle)]

omit [DecidableEq κ] in
/-- **Key by key they hold matching values or none.** -/
theorem Tracks.rel {Q : ν → μ → Prop} (hm : Tracks L S m) (hn : Tracks M T n)
    (hs : Sole M T n) (key : ∀ {a b}, R a b → L.key a = M.key b)
    (rank : ∀ {a b}, R a b → L.rank (L.val a) = M.rank (M.val b))
    (val : ∀ {a b}, R a b → Q (L.val a) (M.val b))
    (left : ∀ a ∈ S, ∃ b ∈ T, R a b) (right : ∀ b ∈ T, ∃ a ∈ S, R a b) (k : κ) :
    Option.Rel Q (m k) (n k) := by
  cases hv : m k with
  | some v =>
    obtain ⟨a, -, b, -, hab, rfl, hb⟩ := hm.matched hn hs key rank left right hv
    rw [hb]
    exact .some (val hab)
  | none =>
    cases hw : n k with
    | none => exact .none
    | some w =>
      obtain ⟨b, hb, rfl, -⟩ := (hn.best hw).mem
      obtain ⟨a, ha, hab⟩ := right b hb
      obtain ⟨v, hv'⟩ := hm.total a ha
      rw [key hab, hv] at hv'
      cases hv'

end Matched

end Lww
