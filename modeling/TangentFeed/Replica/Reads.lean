import TangentFeed.Core.Engine

/-!
# Reads

`list` and `dump` see what `get` returns and nothing else: rows that `get` does
not return are skipped, in a sorted list that has no others. And `get` sees the
winners of the row and the cipher.
-/

namespace TangentFeed

/-! ## Sorted lists -/

theorem filter_sortStrings (l : List JsString) (p : JsString → Bool) :
    (sortStrings l).filter p = sortStrings (l.filter p) := by
  refine List.Perm.eq_of_pairwise' ?_ (List.pairwise_insertionSort _ _) ?_ (r := (· ≤ ·))
  · exact (List.pairwise_insertionSort _ _).filter p
  · exact ((List.perm_insertionSort _ l).filter p).trans (List.perm_insertionSort _ _).symm

theorem sortStrings_congr {l l' : List JsString} (hn : l.Nodup) (hn' : l'.Nodup)
    (h : ∀ s, s ∈ l ↔ s ∈ l') : sortStrings l = sortStrings l' := by
  have hp : l.Perm l' := (List.perm_ext_iff_of_nodup hn hn').2 h
  refine List.Perm.eq_of_pairwise' (List.pairwise_insertionSort _ _)
    (List.pairwise_insertionSort _ _) ?_ (r := (· ≤ ·))
  exact (List.perm_insertionSort _ l).trans (hp.trans (List.perm_insertionSort _ l').symm)

namespace MemoryAdapter

variable {s : MemoryAdapter}

theorem nodup_listRows (s : MemoryAdapter) (table : JsString) : (s.listRows table).Nodup := by
  unfold listRows
  split
  · exact List.nodup_nil
  · exact Std.ExtTreeMap.nodup_keys

theorem nodup_listTables (s : MemoryAdapter) : s.listTables.Nodup := Std.ExtTreeMap.nodup_keys

theorem mem_listRows {table row : JsString} : row ∈ s.listRows table ↔ s.getRow table row ≠ none := by
  unfold listRows getRow
  cases h : s.tables[table]? with
  | none => simp
  | some rows =>
    simp only [Option.bind_some]
    rw [Std.ExtTreeMap.mem_keys, Std.ExtTreeMap.mem_iff_isSome_getElem?, Option.isSome_iff_ne_none]

theorem mem_listTables_of_mem_listRows {table row : JsString} (h : row ∈ s.listRows table) :
    table ∈ s.listTables := by
  unfold listRows at h
  cases ht : s.tables[table]? with
  | none => rw [ht] at h; cases h
  | some rows =>
    rw [listTables, Std.ExtTreeMap.mem_keys, Std.ExtTreeMap.mem_iff_isSome_getElem?, ht]
    rfl

end MemoryAdapter

namespace SyncEngine

variable {e e' : SyncEngine}

/-! ## Rows that are returned -/

/-- Whether `get` returns the row, or rejects. -/
def shows (e : SyncEngine) (table row : JsString) : Bool :=
  match e.get table row with
  | some none => false
  | _ => true

theorem shows_eq_false {table row : JsString} :
    e.shows table row = false ↔ e.get table row = some none := by
  unfold shows
  split
  · rename_i h
    exact ⟨fun _ => h, fun _ => rfl⟩
  · rename_i h
    exact ⟨fun hf => (Bool.noConfusion hf), fun hg => absurd hg h⟩

theorem mem_listRows_of_shows {table row : JsString} (h : e.shows table row = true) :
    row ∈ e.storage.listRows table := by
  rw [MemoryAdapter.mem_listRows]
  intro hn
  have hg : e.get table row = some none := by
    unfold get
    rw [hn]
  rw [shows_eq_false.2 hg] at h
  cases h

/-- The rows of a table that are returned. -/
def shownRows (e : SyncEngine) (table : JsString) : List JsString :=
  (e.storage.listRows table).filter (e.shows table)

theorem mem_shownRows {table row : JsString} :
    row ∈ e.shownRows table ↔ e.shows table row = true := by
  unfold shownRows
  rw [List.mem_filter]
  exact ⟨fun h => h.2, fun h => ⟨mem_listRows_of_shows h, h⟩⟩

theorem nodup_shownRows (e : SyncEngine) (table : JsString) : (e.shownRows table).Nodup :=
  (e.storage.nodup_listRows table).filter _

/-- The tables with rows that are returned. -/
def shownTables (e : SyncEngine) : List JsString :=
  e.storage.listTables.filter fun table => !(e.shownRows table).isEmpty

theorem mem_shownTables {table : JsString} :
    table ∈ e.shownTables ↔ ∃ row, e.shows table row = true := by
  unfold shownTables
  rw [List.mem_filter, Bool.not_eq_true', List.isEmpty_eq_false_iff_exists_mem]
  simp only [mem_shownRows]
  constructor
  · exact fun h => h.2
  · rintro ⟨row, h⟩
    exact ⟨MemoryAdapter.mem_listTables_of_mem_listRows (mem_listRows_of_shows h), row, h⟩

/-! ## Skipping the others -/

theorem listVisible_filter (table : JsString) (rows : List JsString) :
    e.listVisible table (rows.filter (e.shows table)) = e.listVisible table rows := by
  induction rows with
  | nil => rfl
  | cons row rows ih =>
    by_cases hs : e.shows table row = true
    · rw [List.filter_cons_of_pos hs]
      unfold listVisible
      rw [ih]
    · rw [List.filter_cons_of_neg hs, ih]
      have hg := shows_eq_false.1 (Bool.not_eq_true _ ▸ hs)
      conv_rhs => unfold listVisible
      rw [hg]

theorem dumpRows_filter (table : JsString) (rows : List JsString) (d : DumpState) :
    e.dumpRows table (rows.filter (e.shows table)) d = e.dumpRows table rows d := by
  induction rows generalizing d with
  | nil => rfl
  | cons row rows ih =>
    by_cases hs : e.shows table row = true
    · rw [List.filter_cons_of_pos hs]
      unfold dumpRows
      simp only [ih]
    · rw [List.filter_cons_of_neg hs, ih]
      have hg := shows_eq_false.1 (Bool.not_eq_true _ ▸ hs)
      conv_rhs => unfold dumpRows
      rw [hg]

theorem dumpRows_shown (table : JsString) (d : DumpState) :
    e.dumpRows table (sortStrings (e.storage.listRows table)) d =
      e.dumpRows table (sortStrings (e.shownRows table)) d := by
  rw [← dumpRows_filter, filter_sortStrings]
  rfl

theorem dumpTables_filter (tables : List JsString) (d : DumpState) :
    e.dumpTables (tables.filter fun table => !(e.shownRows table).isEmpty) d =
      e.dumpTables tables d := by
  induction tables generalizing d with
  | nil => rfl
  | cons table tables ih =>
    by_cases hs : (e.shownRows table).isEmpty = true
    · rw [List.filter_cons_of_neg (by rw [hs]; decide), ih]
      conv_rhs => unfold dumpTables
      rw [dumpRows_shown, List.isEmpty_iff.1 hs]
      rfl
    · rw [List.filter_cons_of_pos (by simpa using hs)]
      unfold dumpTables
      simp only [ih]

/-! ## Equal reads -/

section Rows

variable {table : JsString}

theorem shows_congr {row : JsString} (hg : e.get table row = e'.get table row) :
    e.shows table row = e'.shows table row := by
  unfold shows
  rw [hg]

theorem sort_shownRows_congr (hg : ∀ row, e.get table row = e'.get table row) :
    sortStrings (e.shownRows table) = sortStrings (e'.shownRows table) :=
  sortStrings_congr (e.nodup_shownRows table) (e'.nodup_shownRows table) fun row => by
    rw [mem_shownRows, mem_shownRows, shows_congr (hg row)]

theorem listVisible_congr (hg : ∀ row, e.get table row = e'.get table row)
    (rows : List JsString) : e.listVisible table rows = e'.listVisible table rows := by
  induction rows with
  | nil => rfl
  | cons row rows ih =>
    unfold listVisible
    rw [hg, ih]

theorem dumpRows_congr (hg : ∀ row, e.get table row = e'.get table row) (rows : List JsString)
    (d : DumpState) : e.dumpRows table rows d = e'.dumpRows table rows d := by
  induction rows generalizing d with
  | nil => rfl
  | cons row rows ih =>
    unfold dumpRows
    rw [hg]
    simp only [ih]

/-- **Equal rows, equal lists.** -/
theorem list_of_rows (hg : ∀ row, e.get table row = e'.get table row) :
    e.list table = e'.list table := by
  unfold list
  rw [← listVisible_filter, ← e'.listVisible_filter, filter_sortStrings, filter_sortStrings]
  change e.listVisible table (sortStrings (e.shownRows table)) =
    e'.listVisible table (sortStrings (e'.shownRows table))
  rw [sort_shownRows_congr hg, listVisible_congr hg]

end Rows

theorem dumpTables_congr (hg : e.get = e'.get) (tables : List JsString) (d : DumpState) :
    e.dumpTables tables d = e'.dumpTables tables d := by
  induction tables generalizing d with
  | nil => rfl
  | cons table tables ih =>
    have hrows : ∀ row, e.get table row = e'.get table row := fun row => by rw [hg]
    unfold dumpTables
    rw [dumpRows_shown, dumpRows_shown, sort_shownRows_congr hrows, dumpRows_congr hrows]
    simp only [ih]

theorem list_of_get (hg : e.get = e'.get) (table : JsString) : e.list table = e'.list table :=
  list_of_rows fun row => by rw [hg]

/-- **Equal rows, equal dumps.** -/
theorem dump_of_get (hg : e.get = e'.get) (inherited : List JsString) :
    e.dump inherited = e'.dump inherited := by
  have hshows : e.shows = e'.shows := by
    funext table row
    exact shows_congr (by rw [hg])
  have ht : sortStrings e.shownTables = sortStrings e'.shownTables :=
    sortStrings_congr (e.storage.nodup_listTables.filter _) (e'.storage.nodup_listTables.filter _)
      fun table => by rw [mem_shownTables, mem_shownTables, hshows]
  unfold dump
  rw [← dumpTables_filter, ← e'.dumpTables_filter, filter_sortStrings, filter_sortStrings]
  change (e.dumpTables (sortStrings e.shownTables) _).map _ =
    (e'.dumpTables (sortStrings e'.shownTables) _).map _
  rw [ht, dumpTables_congr hg]

/-! ## What `get` sees -/

theorem get_congr (ht : e.storage.tables = e'.storage.tables) (hc : e.cipher = e'.cipher) :
    e.get = e'.get := by
  funext table row
  unfold get MemoryAdapter.getRow
  rw [ht, hc]

/-- **Equal cells, equal dumps.** -/
theorem dump_congr (ht : e.storage.tables = e'.storage.tables) (hc : e.cipher = e'.cipher)
    (inherited : List JsString) : e.dump inherited = e'.dump inherited :=
  dump_of_get (get_congr ht hc) inherited

/-- The cells of a row, by its winners. -/
theorem getRow_getElem? (s : MemoryAdapter) (table row column : JsString) :
    ((s.getRow table row).bind fun cells => cells[column]?) = s.winner (table, row, column) := by
  unfold MemoryAdapter.getRow MemoryAdapter.winner MemoryAdapter.getWinner NestedMap.get
  rw [Option.bind_assoc]

/-- A row without winners is not there. -/
theorem getRow_eq_none {s : MemoryAdapter} (hk : s.Keyed) {table row : JsString} :
    s.getRow table row = none ↔ ∀ column, s.winner (table, row, column) = none := by
  constructor
  · intro h column
    rw [← getRow_getElem?, h]
    rfl
  · intro h
    cases hr : s.getRow table row with
    | none => rfl
    | some cells =>
      obtain ⟨rows, h1, h2⟩ := Option.bind_eq_some_iff.1 hr
      obtain ⟨column, o, ho⟩ := Std.ExtTreeMap.ne_empty_iff.1 (hk.tight.cells h1 h2)
      have hw := h column
      rw [← getRow_getElem?, hr] at hw
      change cells[column]? = none at hw
      rw [hw] at ho
      cases ho

/-- `get` depends on the winners of the row and the cipher. -/
theorem get_of_winners (hk : e.storage.Keyed) (hk' : e'.storage.Keyed) (hc : e.cipher = e'.cipher)
    {table row : JsString}
    (hw : ∀ column, e.storage.winner (table, row, column) = e'.storage.winner (table, row, column)) :
    e.get table row = e'.get table row := by
  have hrow : e.storage.getRow table row = e'.storage.getRow table row := by
    cases h : e.storage.getRow table row with
    | none =>
      refine ((getRow_eq_none hk').2 fun column => ?_).symm
      rw [← hw]
      exact (getRow_eq_none hk).1 h column
    | some cells =>
      cases h' : e'.storage.getRow table row with
      | none =>
        have hn := (getRow_eq_none hk).2 fun column => by
          rw [hw]
          exact (getRow_eq_none hk').1 h' column
        rw [hn] at h
        cases h
      | some cells' =>
        congr 1
        apply Std.ExtTreeMap.ext_getElem?
        intro column
        have he := hw column
        rw [← getRow_getElem?, ← getRow_getElem?, h, h'] at he
        exact he
  unfold get
  rw [hrow, hc]

/-- A tombstone hides its row. -/
theorem get_of_tombstone {table row : JsString} {o : Op}
    (hw : e.storage.winner (table, row, tombstoneColumn) = some o) (hv : o.value.isTrue = true) :
    e.get table row = some none := by
  rw [← getRow_getElem?] at hw
  unfold get
  cases hr : e.storage.getRow table row with
  | none => rfl
  | some cells =>
    rw [hr] at hw
    have ht : isTombstoned cells = true := by
      unfold isTombstoned
      rw [show cells[tombstoneColumn]? = some o from hw]
      exact hv
    exact if_pos ht

/-- A row without winners is not returned. -/
theorem get_of_no_winners (hk : e.storage.Keyed) {table row : JsString}
    (hw : ∀ column, e.storage.winner (table, row, column) = none) :
    e.get table row = some none := by
  unfold get
  rw [(getRow_eq_none hk).2 hw]

end SyncEngine

end TangentFeed
