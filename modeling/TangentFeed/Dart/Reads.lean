import TangentFeed.Dart.Run

/-!
# What the Dart engine shows

The rows that `get`, `list` and `dump` show, in terms of the winners: `shown` is the
value of a column and `Hidden` the rows with a tombstone. A row is put together on
top of its `id`, so a column of that name takes its place, and a row with no other
column is not shown. A call changes what is shown of a row only if its event names
the row, and a compaction changes nothing.
-/

namespace TangentFeed.Dart

variable {s : MemoryAdapter} {t r c : JsString}

/-! ## In terms of the winners -/

namespace MemoryAdapter

/-- The winning tombstone of the row is set. -/
def Hidden (s : MemoryAdapter) (t r : JsString) : Prop :=
  ∃ o, s.winner (t, r, tombstoneColumn) = some o ∧ isTrue o.value = true

/-- The value a winner gives its column. -/
def valueOf (o : StoredOp) : Option (Doc AnyNum) :=
  if SyncEngine.isNull o.value then none else some o.value

/-- What a row shows in a column. -/
def shown (s : MemoryAdapter) (t r c : JsString) : Option (Doc AnyNum) :=
  if c = tombstoneColumn then none else (s.winner (t, r, c)).bind valueOf

end MemoryAdapter

namespace SyncEngine

/-- The loop of `_materialize`. -/
theorem get_foldl_putCell (l : List (JsString × StoredOp)) (hn : (l.map Prod.fst).Nodup)
    (data : RowData) : (l.foldl putCell data).get c =
      (if c = tombstoneColumn then none
        else ((⟨l, hn⟩ : OrderedMap JsString StoredOp).get c).bind MemoryAdapter.valueOf).or
        (data.get c) := by
  induction l generalizing data with
  | nil => by_cases hc : c = tombstoneColumn <;> simp [hc, OrderedMap.get]
  | cons e l ih =>
    have hnot : e.1 ∉ l.map Prod.fst := (List.nodup_cons.1 hn).1
    rw [List.foldl_cons, ih (List.nodup_cons.1 hn).2, OrderedMap.get_cons]
    unfold putCell
    by_cases ht : c = tombstoneColumn
    · rw [if_pos ht, if_pos ht, Option.none_or, Option.none_or]
      split
      · rfl
      · rename_i h
        rw [OrderedMap.get_set, if_neg fun hc : c = e.1 => h (.inl (hc ▸ ht))]
    · rw [if_neg ht, if_neg ht]
      by_cases hc : c = e.1
      · -- the rest of the cells are those of other columns
        subst hc
        rw [OrderedMap.get_eq_none.2 hnot, Option.bind_none, Option.none_or, if_pos rfl,
          Option.bind_some, MemoryAdapter.valueOf]
        by_cases hnull : isNull e.2.value = true
        · rw [if_pos (.inr hnull), if_pos hnull, Option.none_or]
        · rw [if_neg fun h => h.elim ht hnull, if_neg hnull, OrderedMap.get_set, if_pos rfl,
            Option.some_or]
      · rw [if_neg hc]
        congr 1
        split
        · rfl
        · rw [OrderedMap.get_set, if_neg hc]

/-- **`get` shows a row that is not hidden and has a value in a column other than `id`.** -/
theorem get_isSome (e : SyncEngine) : (e.get t r).isSome = true ↔
    ¬e.storage.Hidden t r ∧ ∃ c, c ≠ js "id" ∧ e.storage.shown t r c ≠ none := by
  have cells := fun c => e.storage.get_getRow t r c
  unfold SyncEngine.get
  cases hr : e.storage.getRow t r with
  | none =>
    refine iff_of_false Bool.false_ne_true ?_
    rintro ⟨-, c, -, hc⟩
    refine hc ?_
    rw [MemoryAdapter.shown, ← cells, hr]
    split <;> rfl
  | some m =>
    have tomb : isTombstoned m = true ↔ e.storage.Hidden t r := by
      unfold isTombstoned MemoryAdapter.Hidden
      rw [← cells, hr, Option.bind_some]
      cases m.get tombstoneColumn with
      | none =>
        refine iff_of_false Bool.false_ne_true ?_
        rintro ⟨o, h, -⟩
        cases h
      | some o =>
        refine ⟨fun h => ⟨o, rfl, h⟩, ?_⟩
        rintro ⟨o', h, ht⟩
        exact Option.some.inj h ▸ ht
    rw [Option.bind_some, materialize]
    by_cases hh : isTombstoned m = true
    · rw [if_pos hh]
      exact iff_of_false Bool.false_ne_true fun h => h.1 (tomb.1 hh)
    · rw [if_neg hh, and_iff_right fun h => hh (tomb.2 h)]
      have hid : ∃ v, (m.entries.foldl putCell (OrderedMap.empty.set (js "id") (.str r))).get
          (js "id") = some v := by
        rw [get_foldl_putCell _ m.nodup, OrderedMap.get_set, if_pos rfl]
        exact Option.isSome_iff_exists.1 (Option.isSome_or.trans (Bool.or_true _))
      obtain ⟨v, hv⟩ := hid
      have hcols : ∀ c, c ≠ js "id" →
          (m.entries.foldl putCell (OrderedMap.empty.set (js "id") (.str r))).get c =
            e.storage.shown t r c := fun c hc => by
        rw [get_foldl_putCell _ m.nodup, OrderedMap.get_set, if_neg hc, OrderedMap.get_empty,
          Option.or_none, MemoryAdapter.shown, ← cells, hr]
        rfl
      simp only
      by_cases hsize : (m.entries.foldl putCell (OrderedMap.empty.set (js "id") (.str r))).size = 1
      · rw [if_pos hsize]
        refine iff_of_false Bool.false_ne_true ?_
        rintro ⟨c, hc, hs⟩
        refine hs ?_
        rw [← hcols c hc, (OrderedMap.size_eq_one hv).1 hsize c hc]
      · rw [if_neg hsize]
        refine iff_of_true rfl ?_
        rw [OrderedMap.size_eq_one hv] at hsize
        push Not at hsize
        obtain ⟨c, hc, hs⟩ := hsize
        exact ⟨c, hc, by rw [← hcols c hc]; exact hs⟩

/-- **The columns of a row that is shown.** -/
theorem get_eq_some {e : SyncEngine} {data : RowData} (h : e.get t r = some data) :
    data.get c = (e.storage.shown t r c).or (if c = js "id" then some (.str r) else none) := by
  have cells := fun c => e.storage.get_getRow t r c
  unfold SyncEngine.get at h
  obtain ⟨m, hr, hm⟩ := Option.bind_eq_some_iff.1 h
  unfold materialize at hm
  split at hm
  · cases hm
  simp only at hm
  split at hm
  · cases hm
  obtain rfl := Option.some.inj hm
  rw [get_foldl_putCell _ m.nodup, OrderedMap.get_set, OrderedMap.get_empty,
    MemoryAdapter.shown, ← cells, hr]
  rfl

/-! ## Lists of rows -/

theorem pairwise_listRows (s : MemoryAdapter) (t : JsString) : (s.listRows t).Pairwise (· < ·) := by
  refine ((List.pairwise_insertionSort _ _).and ?_).imp fun h => lt_of_le_of_ne h.1 h.2
  exact (List.perm_insertionSort _ _).nodup_iff.2 (List.nodup_dedup _)

theorem pairwise_listTables (s : MemoryAdapter) : s.listTables.Pairwise (· < ·) := by
  refine ((List.pairwise_insertionSort _ _).and ?_).imp fun h => lt_of_le_of_ne h.1 h.2
  exact (List.perm_insertionSort _ _).nodup_iff.2 (List.nodup_dedup _)

theorem get_ne_none (e : SyncEngine) (h : e.get t r ≠ none) : e.storage.getRow t r ≠ none := by
  intro hr
  rw [SyncEngine.get, hr] at h
  exact h rfl

/-- The rows of a table in `dump`. -/
def dumpRows (e : SyncEngine) (t : JsString) : List (JsString × RowData) :=
  (e.storage.listRows t).filterMap fun row =>
    (e.get t row).map fun data => (row, data.erase (js "id"))

theorem mem_dumpRows (e : SyncEngine) {data : RowData} : (r, data) ∈ e.dumpRows t ↔
    ∃ full, e.get t r = some full ∧ data = full.erase (js "id") := by
  rw [dumpRows, List.mem_filterMap]
  constructor
  · rintro ⟨r', -, h⟩
    obtain ⟨full, hg, h⟩ := Option.map_eq_some_iff.1 h
    obtain ⟨rfl, rfl⟩ := Prod.mk.inj h
    exact ⟨full, hg, rfl⟩
  · rintro ⟨full, hg, rfl⟩
    exact ⟨r, (e.storage.mem_listRows t r).2 (e.get_ne_none fun hn => nomatch hn.symm.trans hg), by
      rw [hg]; rfl⟩

theorem dump_eq_filterMap (e : SyncEngine) : e.dump = e.storage.listTables.filterMap fun t =>
    if (e.dumpRows t).isEmpty then none else some (t, e.dumpRows t) := by
  unfold dump
  induction e.storage.listTables with
  | nil => rfl
  | cons t l ih =>
    rw [List.map_cons, List.filter_cons, ih, List.filterMap_cons]
    change (if (!(e.dumpRows t).isEmpty) = true then (t, e.dumpRows t) :: _ else _) = _
    cases (e.dumpRows t).isEmpty <;> rfl

/-- `dump` has the tables with a row that `get` shows, with all of these rows. -/
theorem mem_dump (e : SyncEngine) {rows : List (JsString × RowData)} :
    (t, rows) ∈ e.dump ↔ rows = e.dumpRows t ∧ ∃ r, e.get t r ≠ none := by
  have hne : (e.dumpRows t).isEmpty = false ↔ ∃ r, e.get t r ≠ none := by
    rw [List.isEmpty_eq_false_iff_exists_mem]
    constructor
    · rintro ⟨⟨r, data⟩, h⟩
      obtain ⟨full, hg, -⟩ := e.mem_dumpRows.1 h
      exact ⟨r, by rw [hg]; exact Option.some_ne_none _⟩
    · rintro ⟨r, h⟩
      obtain ⟨full, hg⟩ := Option.ne_none_iff_exists'.1 h
      exact ⟨(r, _), e.mem_dumpRows.2 ⟨full, hg, rfl⟩⟩
  rw [dump_eq_filterMap, List.mem_filterMap, ← hne]
  constructor
  · rintro ⟨t', -, h⟩
    split at h
    · cases h
    · rename_i hf
      obtain ⟨rfl, rfl⟩ := Prod.mk.inj (Option.some.inj h)
      exact ⟨rfl, Bool.eq_false_iff.2 hf⟩
  · rintro ⟨rfl, hf⟩
    obtain ⟨r, hr⟩ := hne.1 hf
    refine ⟨t, (e.storage.mem_listTables t).2 ⟨r, e.get_ne_none hr⟩, ?_⟩
    rw [hf]
    rfl

theorem pairwise_dump (e : SyncEngine) : (e.dump.map Prod.fst).Pairwise (· < ·) := by
  refine (pairwise_listTables e.storage).sublist ?_
  unfold dump
  refine (List.filter_sublist.map _).trans ?_
  rw [List.map_map]
  exact (congrArg (List.Sublist · _) (List.map_id _)).mpr (List.Sublist.refl _)

/-- **Reads show exactly the winning cells, but for a column named `id`.** A row is shown if its
tombstone is not set and a column other than `id` has a value; its columns are those with a
value, on top of its `id`; and `list` and `dump` show the same rows, each once and in order. -/
theorem reads_exact (e : SyncEngine) (t : JsString) :
    (∀ r, (e.get t r).isSome = true ↔
      ¬e.storage.Hidden t r ∧ ∃ c, c ≠ js "id" ∧ e.storage.shown t r c ≠ none) ∧
    (∀ r data, e.get t r = some data → ∀ c,
      data.get c = (e.storage.shown t r c).or (if c = js "id" then some (.str r) else none)) ∧
    ∃ rows : List JsString, rows.Pairwise (· < ·) ∧ (∀ r, r ∈ rows ↔ (e.get t r).isSome = true) ∧
      e.list t = rows.filterMap (e.get t) ∧ (e.dump.map Prod.fst).Pairwise (· < ·) ∧
      ∀ shown, (t, shown) ∈ e.dump ↔ rows ≠ [] ∧ shown = rows.filterMap fun r =>
        (e.get t r).map fun data => (r, data.erase (js "id")) := by
  refine ⟨fun r => e.get_isSome, fun r data h c => get_eq_some h,
    (e.storage.listRows t).filter fun r => (e.get t r).isSome,
    (pairwise_listRows _ t).filter _, fun r => ?_, ?_, e.pairwise_dump, fun shown => ?_⟩
  · rw [List.mem_filter]
    refine and_iff_right_of_imp fun h => ?_
    exact (e.storage.mem_listRows t r).2 (e.get_ne_none (Option.isSome_iff_ne_none.1 h))
  · rw [List.filterMap_filter]
    refine List.filterMap_congr fun r _ => ?_
    cases h : e.get t r <;> simp
  · have hrows : (e.storage.listRows t).filter (fun r => (e.get t r).isSome) ≠ [] ↔
        ∃ r, e.get t r ≠ none := by
      rw [ne_eq, List.filter_eq_nil_iff]
      push Not
      constructor
      · rintro ⟨r, -, h⟩
        exact ⟨r, Option.isSome_iff_ne_none.1 h⟩
      · rintro ⟨r, h⟩
        exact ⟨r, (e.storage.mem_listRows t r).2 (e.get_ne_none h), Option.isSome_iff_ne_none.2 h⟩
    rw [mem_dump, hrows, and_comm, List.filterMap_filter]
    refine and_congr_right fun _ => Eq.congr_right (List.filterMap_congr fun r _ => ?_)
    cases h : e.get t r <;> simp

/-! ## Equal reads -/

/-- A sorted list without elements that a function drops. -/
theorem filterMap_eq_of_subset {α β : Type} [LinearOrder α] {f : α → Option β} {l l' : List α}
    (hl : l.Pairwise (· < ·)) (hl' : l'.Pairwise (· < ·)) (hsub : ∀ x ∈ l', x ∈ l)
    (hnone : ∀ x ∈ l, x ∉ l' → f x = none) : l.filterMap f = l'.filterMap f := by
  have e : l' = l.filter fun x => decide (x ∈ l') := by
    have hf := hl.filter fun x => decide (x ∈ l')
    refine List.Perm.eq_of_pairwise' hl' hf
      ((List.perm_ext_iff_of_nodup (hl'.imp ne_of_lt) (hf.imp ne_of_lt)).2 fun x => ?_)
    rw [List.mem_filter, decide_eq_true_eq]
    exact ⟨fun hx => ⟨hsub x hx, hx⟩, fun hx => hx.2⟩
  rw [e, List.filterMap_filter]
  refine List.filterMap_congr fun x hx => ?_
  by_cases hx' : x ∈ l'
  · rw [if_pos (decide_eq_true hx')]
  · rw [if_neg fun h => hx' (of_decide_eq_true h), hnone x hx hx']

/-- `getRow` looks at the entries of the row only. -/
theorem getRow_congr {s s' : MemoryAdapter}
    (h : s'.winners.entries.filter (fun e => decide (e.1.1 = t ∧ e.1.2.1 = r)) =
      s.winners.entries.filter fun e => decide (e.1.1 = t ∧ e.1.2.1 = r)) :
    s'.getRow t r = s.getRow t r := by
  have filtered : ∀ s : MemoryAdapter, s.getRow t r =
      (s.winners.entries.filter fun e => decide (e.1.1 = t ∧ e.1.2.1 = r)).foldl
        (MemoryAdapter.collect t r) none := by
    intro s
    rw [List.foldl_filter]
    refine List.foldl_ext _ _ _ fun out e _ => ?_
    unfold MemoryAdapter.collect
    by_cases hrow : e.1.1 = t ∧ e.1.2.1 = r
    · rw [if_pos hrow, if_pos (decide_eq_true hrow)]
    · rw [if_neg hrow, if_neg fun h => hrow (of_decide_eq_true h)]
  rw [filtered, filtered, h]

theorem get_congr {e e' : SyncEngine} (h : e'.storage.getRow t r = e.storage.getRow t r) :
    e'.get t r = e.get t r := by
  rw [SyncEngine.get, SyncEngine.get, h]

/-- Where rows only go that are not shown, nothing that is shown goes. -/
theorem reads_eq_of_get {e e' : SyncEngine} (hget : ∀ t r, e'.get t r = e.get t r)
    (hsub : ∀ t r, e'.storage.getRow t r ≠ none → e.storage.getRow t r ≠ none) :
    (∀ t, e'.list t = e.list t) ∧ e'.dump = e.dump := by
  have rows : ∀ {β : Type} (t : JsString) (f : JsString → Option β),
      (∀ r, e.get t r = none → f r = none) →
      (e'.storage.listRows t).filterMap f = (e.storage.listRows t).filterMap f := by
    intro β t f hf
    refine (filterMap_eq_of_subset (pairwise_listRows _ t) (pairwise_listRows _ t)
      (fun r hr => ?_) fun r _ hr => hf r ?_).symm
    · exact (e.storage.mem_listRows t r).2 (hsub t r ((e'.storage.mem_listRows t r).1 hr))
    · by_contra hne
      rw [← hget] at hne
      exact hr ((e'.storage.mem_listRows t r).2 (e'.get_ne_none hne))
  have dumps : ∀ t, e'.dumpRows t = e.dumpRows t := fun t => by
    unfold dumpRows
    simp only [hget]
    exact rows t _ fun r hr => by rw [hr]; rfl
  refine ⟨fun t => ?_, ?_⟩
  · unfold SyncEngine.list
    have e1 : e'.get t = e.get t := funext (hget t)
    rw [e1]
    exact rows t _ fun r hr => hr
  · rw [dump_eq_filterMap, dump_eq_filterMap]
    simp only [dumps]
    refine (filterMap_eq_of_subset (pairwise_listTables _) (pairwise_listTables _)
      (fun t ht => ?_) fun t _ ht => if_pos ?_).symm
    · obtain ⟨r, hr⟩ := (e'.storage.mem_listTables t).1 ht
      exact (e.storage.mem_listTables t).2 ⟨r, hsub t r hr⟩
    · rw [← dumps, dumpRows, List.isEmpty_iff, List.filterMap_eq_nil_iff]
      intro r hr
      exact absurd ((e'.storage.mem_listTables t).2 ⟨r, (e'.storage.mem_listRows t r).1 hr⟩) ht

end SyncEngine

end TangentFeed.Dart
