import TangentFeed.Replica.Rows
import TangentFeed.Replica.Sample

/-!
# What reads show

A row is visible when it has a cell and no winning tombstone, and its columns are
the winning values that are not null. `get` builds an object with the names that
peers chose: a column `id` hides the name of the row, `__proto__` never becomes
a property, and a cell that does not decrypt rejects the call. `list` and `dump`
stop at the first row that does, and `dump` looks a table up among the names that
every object inherits.
-/

namespace TangentFeed

namespace SyncEngine

variable {cr : Crypto} {e e' : SyncEngine} {table row : JsString}

/-- The row has a cell and no tombstone that wins. -/
def Visible (e : SyncEngine) (table row : JsString) : Prop :=
  (∃ c o, e.storage.winner (table, row, c) = some o) ∧
    ∀ o, e.storage.winner (table, row, tombstoneColumn) = some o → o.value.isTrue = false

/-- Every cell of the row decrypts. -/
def Readable (e : SyncEngine) (table row : JsString) : Prop :=
  ∀ c o, c ≠ tombstoneColumn → e.storage.winner (table, row, c) = some o →
    plain e.cipher o ≠ none

/-- The winning value of a column, if it is not null. -/
def cellValue (e : SyncEngine) (table row column : JsString) : Option Json :=
  if column = tombstoneColumn then none
  else (e.storage.winner (table, row, column)).bind fun o =>
    (plain e.cipher o).bind fun v => if v.isNull then none else some v

/-! ## One row -/

theorem materializeCells_eq_none {cipher : Option Cipher} {l : List (JsString × Op)}
    (h : ∃ p ∈ l, p.1 ≠ tombstoneColumn ∧ plain cipher p.2 = none) (out : RowData) :
    materializeCells cipher l out = none := by
  induction l generalizing out with
  | nil =>
    obtain ⟨p, hp, -⟩ := h
    cases hp
  | cons q l ih =>
    obtain ⟨column, o⟩ := q
    obtain ⟨p, hp, hne, hnone⟩ := h
    unfold materializeCells
    rcases List.mem_cons.1 hp with rfl | hp
    · rw [if_neg hne]
      simp only at hnone
      rw [hnone]
    · have hrest := ih ⟨p, hp, hne, hnone⟩
      split
      · exact hrest out
      · split
        · rfl
        · exact hrest _

theorem get_of_not_visible (hk : e.storage.Keyed) (h : ¬ e.Visible table row) :
    e.get table row = some none := by
  by_cases hcell : ∃ c o, e.storage.winner (table, row, c) = some o
  · have hdead : ∃ o, e.storage.winner (table, row, tombstoneColumn) = some o ∧
        o.value.isTrue = true := by
      by_contra hno
      refine h ⟨hcell, fun o ho => ?_⟩
      rw [Bool.eq_false_iff]
      exact fun ht => hno ⟨o, ho, ht⟩
    obtain ⟨o, ho, ht⟩ := hdead
    exact get_of_tombstone ho ht
  · refine get_of_no_winners hk fun c => ?_
    rw [Option.eq_none_iff_forall_ne_some]
    exact fun o ho => hcell ⟨c, o, ho⟩

theorem get_of_not_readable (h : e.Visible table row) (hr : ¬ e.Readable table row) :
    e.get table row = none := by
  obtain ⟨c, o, hc, ho, hnone⟩ : ∃ c o, c ≠ tombstoneColumn ∧
      e.storage.winner (table, row, c) = some o ∧ plain e.cipher o = none := by
    by_contra hno
    exact hr fun c o hc ho hnone => hno ⟨c, o, hc, ho, hnone⟩
  have hlive := h.2
  rw [← getRow_getElem?] at ho
  unfold get
  cases hcells : e.storage.getRow table row with
  | none =>
    rw [hcells] at ho
    cases ho
  | some cells =>
    have hcell : ∀ c : JsString, cells[c]? = e.storage.winner (table, row, c) := fun c => by
      rw [← getRow_getElem?, hcells]
      rfl
    have halive : isTombstoned cells = false := by
      unfold isTombstoned
      rw [hcell]
      cases ht : e.storage.winner (table, row, tombstoneColumn) with
      | none => rfl
      | some o => exact hlive o ht
    simp only [halive, Bool.false_eq_true, if_false]
    unfold materialize
    rw [hcells] at ho
    rw [materializeCells_eq_none ⟨(c, o), Std.ExtTreeMap.mem_toList_iff_getElem?_eq_some.2 ho, hc,
      hnone⟩]
    rfl

/-- **A visible row that decrypts.** -/
theorem get_of_readable (hk : e.storage.Keyed) (h : e.Visible table row)
    (hr : e.Readable table row) :
    ∃ data, e.get table row = some (some data) ∧ ∀ c : JsString, data[c]? =
      (if c = js "__proto__" then none else e.cellValue table row c).or
        (if c = js "id" then some (.str row) else none) := by
  obtain ⟨data, hdata, hget⟩ := get_of_cells hk h.1 h.2 fun c o ho hc => hr c o hc ho
  refine ⟨data, hdata, fun c => ?_⟩
  rw [hget]
  congr 1
  unfold cellValue shownCell
  by_cases htomb : c = tombstoneColumn
  · simp only [if_pos htomb, ite_self, Option.bind_fun_none]
  · simp only [if_neg htomb]
    by_cases hproto : c = js "__proto__"
    · simp only [hproto, or_true, if_true, Option.bind_fun_none]
    · simp only [hproto, or_false, if_false]

/-- A call of `get` returns a row, nothing, or rejects. -/
theorem shows_iff (hk : e.storage.Keyed) : e.shows table row = true ↔ e.Visible table row := by
  constructor
  · intro h
    by_contra hno
    rw [shows_eq_false.2 (get_of_not_visible hk hno)] at h
    cases h
  · intro h
    rw [← Bool.not_eq_false, shows_eq_false]
    intro hg
    by_cases hr : e.Readable table row
    · obtain ⟨data, hdata, -⟩ := get_of_readable hk h hr
      rw [hdata] at hg
      cases hg
    · rw [get_of_not_readable h hr] at hg
      cases hg

/-! ## Lists -/

theorem forall₂_mem {α β : Type} {R : α → β → Prop} {l : List α} {l' : List β}
    (h : List.Forall₂ R l l') {a : α} (ha : a ∈ l) : ∃ b ∈ l', R a b := by
  induction h with
  | nil => cases ha
  | cons hab _ ih =>
    rcases List.mem_cons.1 ha with rfl | ha
    · exact ⟨_, List.mem_cons_self, hab⟩
    · obtain ⟨b, hb, hr⟩ := ih ha
      exact ⟨b, List.mem_cons_of_mem _ hb, hr⟩

theorem exists_forall₂ {α β : Type} {R : α → β → Prop} {l : List α} :
    (∃ l' : List β, List.Forall₂ R l l') ↔ ∀ a ∈ l, ∃ b, R a b := by
  constructor
  · rintro ⟨l', h⟩ a ha
    exact (forall₂_mem h ha).imp fun _ hb => hb.2
  · intro h
    induction l with
    | nil => exact ⟨[], .nil⟩
    | cons a l ih =>
      obtain ⟨b, hb⟩ := h a List.mem_cons_self
      obtain ⟨l', hl⟩ := ih fun x hx => h x (List.mem_cons_of_mem _ hx)
      exact ⟨b :: l', .cons hb hl⟩

theorem listVisible_eq_some {rows : List JsString} (h : ∀ row ∈ rows, e.shows table row = true)
    {datas : List RowData} : e.listVisible table rows = some datas ↔
      List.Forall₂ (fun row data => e.get table row = some (some data)) rows datas := by
  induction rows generalizing datas with
  | nil =>
    rw [listVisible, List.forall₂_nil_left_iff, Option.some_inj]
    exact eq_comm
  | cons row rows ih =>
    have hrest := fun r hr => h r (List.mem_cons_of_mem _ hr)
    rw [List.forall₂_cons_left_iff]
    unfold listVisible
    cases hg : e.get table row with
    | none =>
      constructor
      · intro hn
        cases hn
      · rintro ⟨data, rest, hd, -⟩
        cases hd
    | some found =>
      cases found with
      | none =>
        have hs := h row List.mem_cons_self
        rw [shows_eq_false.2 hg] at hs
        cases hs
      | some data =>
        simp only [Option.map_eq_some_iff, ih hrest]
        constructor
        · rintro ⟨rest, hrest, rfl⟩
          exact ⟨data, rest, rfl, hrest, rfl⟩
        · rintro ⟨data', rest, hd, hrest, rfl⟩
          obtain rfl := Option.some.inj (Option.some.inj hd)
          exact ⟨rest, hrest, rfl⟩

/-- The rows that `list` returns, by their ids in order. -/
theorem list_eq_some {datas : List RowData} : e.list table = some datas ↔
    List.Forall₂ (fun row data => e.get table row = some (some data))
      (sortStrings (e.shownRows table)) datas := by
  unfold list
  rw [← listVisible_filter, filter_sortStrings]
  refine listVisible_eq_some fun row hrow => ?_
  exact mem_shownRows.1 ((List.mem_insertionSort _).1 hrow)

theorem mem_sort_shownRows (hk : e.storage.Keyed) :
    row ∈ sortStrings (e.shownRows table) ↔ e.Visible table row := by
  unfold sortStrings
  rw [List.mem_insertionSort, mem_shownRows, shows_iff hk]

theorem pairwise_shownRows (e : SyncEngine) (table : JsString) :
    (sortStrings (e.shownRows table)).Pairwise (· < ·) := by
  have hnodup : (sortStrings (e.shownRows table)).Nodup :=
    (List.perm_insertionSort _ _).nodup_iff.2 (e.nodup_shownRows table)
  exact ((List.pairwise_insertionSort _ _).and hnodup).imp fun h => lt_of_le_of_ne h.1 h.2

/-- **A table can be listed exactly when its visible rows decrypt.** -/
theorem exists_list_iff (hk : e.storage.Keyed) :
    (∃ datas, e.list table = some datas) ↔ ∀ row, e.Visible table row → e.Readable table row := by
  simp only [list_eq_some]
  rw [exists_forall₂]
  refine forall_congr' fun row => ?_
  rw [mem_sort_shownRows hk]
  refine forall_congr' fun hv => ?_
  constructor
  · rintro ⟨data, hd⟩
    by_contra hr
    rw [get_of_not_readable hv hr] at hd
    cases hd
  · intro hr
    exact (get_of_readable hk hv hr).imp fun _ hd => hd.1

/-! ## Dumps -/

/-- The columns of a row in a dump. -/
def DumpState.cols (d : DumpState) (table row : JsString) : Option RowData :=
  d.state[table]?.bind fun rows => rows[row]?

/-- A table that no object inherits gets the row. -/
theorem DumpState.put_spec {d : DumpState} (ht : table ∉ d.inherited) (row : JsString)
    (cols : RowData) : (d.put table row cols).inherited = d.inherited ∧
      (∀ t r, (d.put table row cols).cols t r =
        if t = table ∧ r = row then some cols else d.cols t r) ∧
      ∀ t, (d.put table row cols).state[t]? ≠ none ↔ t = table ∨ d.state[t]? ≠ none := by
  have hput : ∀ rows : JsMap RowData, rows = d.state[table]?.getD ∅ →
      (∀ t r, DumpState.cols { d with state := d.state.insert table (rows.insert row cols) } t r =
        if t = table ∧ r = row then some cols else d.cols t r) ∧
      ∀ t : JsString, (d.state.insert table (rows.insert row cols))[t]? ≠ none ↔
        t = table ∨ d.state[t]? ≠ none := by
    rintro rows hrows
    constructor
    · intro t r
      unfold DumpState.cols
      rw [Std.ExtTreeMap.getElem?_insert_eq]
      by_cases htab : t = table
      · subst htab
        rw [if_pos rfl, Option.bind_some, Std.ExtTreeMap.getElem?_insert_eq]
        by_cases hrow : r = row
        · rw [if_pos hrow.symm, if_pos ⟨rfl, hrow⟩]
        · rw [if_neg (Ne.symm hrow), if_neg fun h => hrow h.2, hrows]
          cases d.state[t]? with
          | none => rfl
          | some _ => rfl
      · rw [if_neg (Ne.symm htab), if_neg fun h => htab h.1]
    · intro t
      rw [Std.ExtTreeMap.getElem?_insert_eq]
      by_cases htab : t = table
      · rw [if_pos htab.symm]
        exact ⟨fun _ => .inl htab, fun _ => Option.some_ne_none _⟩
      · rw [if_neg (Ne.symm htab)]
        exact (or_iff_right htab).symm
  unfold DumpState.put
  cases hd : d.state[table]? with
  | none =>
    rw [if_neg ht]
    have h := hput ∅ (by rw [hd]; rfl)
    exact ⟨rfl, h.1, h.2⟩
  | some rows =>
    have h := hput rows (by rw [hd]; rfl)
    exact ⟨rfl, h.1, h.2⟩

/-- What `dump` shows of a row that is returned. -/
def columns (e : SyncEngine) (table row : JsString) : Option RowData :=
  ((e.get table row).bind id).map (·.erase (js "id"))

theorem getElem?_erase_id (data : RowData) : (data.erase (js "id"))[js "id"]? = none :=
  Std.ExtTreeMap.getElem?_erase_self

theorem mem_sort_listTables (hk : e.storage.Keyed) (h : e.Visible table row) :
    table ∈ sortStrings e.storage.listTables :=
  (List.mem_insertionSort _).2
    (MemoryAdapter.mem_listTables_of_mem_listRows (mem_listRows_of_shows ((shows_iff hk).2 h)))

theorem dumpRows_spec {rows : List JsString} {d : DumpState}
    (ht : rows ≠ [] → table ∉ d.inherited)
    (h : ∀ row ∈ rows, ∃ data, e.get table row = some (some data)) :
    ∃ d', e.dumpRows table rows d = some d' ∧ d'.inherited = d.inherited ∧
      (∀ t r, d'.cols t r = if t = table ∧ r ∈ rows then e.columns t r else d.cols t r) ∧
      ∀ t, d'.state[t]? ≠ none ↔ t = table ∧ rows ≠ [] ∨ d.state[t]? ≠ none := by
  induction rows generalizing d with
  | nil => exact ⟨d, rfl, rfl, fun t r => (if_neg fun h => by cases h.2).symm, fun t => by simp⟩
  | cons row rows ih =>
    obtain ⟨data, hdata⟩ := h row List.mem_cons_self
    obtain ⟨hinh, hcols, hstate⟩ :=
      DumpState.put_spec (ht (List.cons_ne_nil _ _)) row (data.erase (js "id"))
    obtain ⟨d', hd', hinh', hcols', hstate'⟩ := ih (d := d.put table row (data.erase (js "id")))
      (fun _ => by rw [hinh]; exact ht (List.cons_ne_nil _ _))
      fun r hr => h r (List.mem_cons_of_mem _ hr)
    refine ⟨d', ?_, hinh'.trans hinh, fun t r => ?_, fun t => ?_⟩
    · unfold dumpRows
      rw [hdata]
      exact hd'
    · rw [hcols', hcols]
      by_cases hmem : t = table ∧ r ∈ rows
      · rw [if_pos hmem, if_pos ⟨hmem.1, List.mem_cons_of_mem _ hmem.2⟩]
      · rw [if_neg hmem]
        by_cases hrow : t = table ∧ r = row
        · rw [if_pos hrow, if_pos ⟨hrow.1, by rw [hrow.2]; exact List.mem_cons_self⟩, hrow.1, hrow.2,
            columns, hdata]
          rfl
        · rw [if_neg hrow, if_neg]
          rintro ⟨rfl, hm⟩
          rcases List.mem_cons.1 hm with rfl | hm
          · exact hrow ⟨rfl, rfl⟩
          · exact hmem ⟨rfl, hm⟩
    · rw [hstate', hstate]
      constructor
      · rintro (⟨rfl, -⟩ | rfl | h)
        · exact .inl ⟨rfl, List.cons_ne_nil _ _⟩
        · exact .inl ⟨rfl, List.cons_ne_nil _ _⟩
        · exact .inr h
      · rintro (⟨rfl, -⟩ | h)
        · exact .inr (.inl rfl)
        · exact .inr (.inr h)

theorem dumpTables_spec {tables : List JsString} {d : DumpState}
    (h : ∀ table ∈ tables, ∀ row ∈ e.shownRows table,
      table ∉ d.inherited ∧ ∃ data, e.get table row = some (some data)) :
    ∃ d', e.dumpTables tables d = some d' ∧ d'.inherited = d.inherited ∧
      (∀ t r, d'.cols t r =
        if t ∈ tables ∧ r ∈ e.shownRows t then e.columns t r else d.cols t r) ∧
      ∀ t, d'.state[t]? ≠ none ↔ t ∈ tables ∧ e.shownRows t ≠ [] ∨ d.state[t]? ≠ none := by
  induction tables generalizing d with
  | nil => exact ⟨d, rfl, rfl, fun t r => (if_neg fun h => by cases h.1).symm, fun t => by simp⟩
  | cons table tables ih =>
    have htable := h table List.mem_cons_self
    have hsort : ∀ {r : JsString}, r ∈ sortStrings (e.shownRows table) ↔ r ∈ e.shownRows table :=
      List.mem_insertionSort _
    have hnil : sortStrings (e.shownRows table) ≠ [] ↔ e.shownRows table ≠ [] := by
      rw [ne_eq, ne_eq, List.eq_nil_iff_forall_not_mem, List.eq_nil_iff_forall_not_mem]
      simp only [hsort]
    obtain ⟨d₁, hd₁, hinh₁, hcols₁, hstate₁⟩ := @dumpRows_spec e table
      (sortStrings (e.shownRows table)) d
      (fun hne => by
        obtain ⟨row, hrow⟩ := List.exists_mem_of_ne_nil _ hne
        exact (htable row (hsort.1 hrow)).1)
      fun row hrow => (htable row (hsort.1 hrow)).2
    obtain ⟨d', hd', hinh', hcols', hstate'⟩ := ih (d := d₁) fun t ht row hrow => by
      rw [hinh₁]
      exact h t (List.mem_cons_of_mem _ ht) row hrow
    refine ⟨d', ?_, hinh'.trans hinh₁, fun t r => ?_, fun t => ?_⟩
    · unfold dumpTables
      rw [dumpRows_shown, hd₁]
      exact hd'
    · rw [hcols', hcols₁]
      simp only [hsort]
      by_cases hmem : t ∈ tables ∧ r ∈ e.shownRows t
      · rw [if_pos hmem, if_pos ⟨List.mem_cons_of_mem _ hmem.1, hmem.2⟩]
      · rw [if_neg hmem]
        by_cases hrow : t = table ∧ r ∈ e.shownRows table
        · rw [if_pos hrow, if_pos ⟨by rw [hrow.1]; exact List.mem_cons_self, by
            rw [hrow.1]; exact hrow.2⟩]
        · rw [if_neg hrow, if_neg]
          rintro ⟨hm, hr⟩
          rcases List.mem_cons.1 hm with rfl | hm
          · exact hrow ⟨rfl, hr⟩
          · exact hmem ⟨hm, hr⟩
    · rw [hstate', hstate₁, hnil]
      constructor
      · rintro (⟨hm, hne⟩ | ⟨rfl, hne⟩ | h)
        · exact .inl ⟨List.mem_cons_of_mem _ hm, hne⟩
        · exact .inl ⟨List.mem_cons_self, hne⟩
        · exact .inr h
      · rintro (⟨hm, hne⟩ | h)
        · rcases List.mem_cons.1 hm with rfl | hm
          · exact .inr (.inl ⟨rfl, hne⟩)
          · exact .inl ⟨hm, hne⟩
        · exact .inr (.inr h)

/-- A name that every object inherits is found before a table is made. -/
structure DumpState.Hidden (table : JsString) (d : DumpState) : Prop where
  inherited : table ∈ d.inherited
  absent : d.state[table]? = none

theorem DumpState.Hidden.put {d : DumpState} (h : d.Hidden table) (t r : JsString) (cols : RowData) :
    (d.put t r cols).Hidden table := by
  unfold DumpState.put
  cases ht : d.state[t]? with
  | some rows =>
    have hne : t ≠ table := by
      rintro rfl
      rw [h.absent] at ht
      cases ht
    exact ⟨h.inherited, by simp only; rw [Std.ExtTreeMap.getElem?_insert_eq, if_neg hne, h.absent]⟩
  | none =>
    simp only
    split_ifs with hinh hproto
    · exact ⟨List.mem_cons_of_mem _ h.inherited, h.absent⟩
    · exact h
    · have hne : t ≠ table := by
        rintro rfl
        exact hinh h.inherited
      exact ⟨h.inherited, by simp only; rw [Std.ExtTreeMap.getElem?_insert_eq, if_neg hne, h.absent]⟩

theorem DumpState.Hidden.dumpRows {t : JsString} {rows : List JsString} {d d' : DumpState}
    (h : d.Hidden table) (hd : e.dumpRows t rows d = some d') : d'.Hidden table := by
  induction rows generalizing d with
  | nil =>
    obtain rfl := Option.some.inj hd
    exact h
  | cons row rows ih =>
    unfold SyncEngine.dumpRows at hd
    split at hd
    · cases hd
    · exact ih h hd
    · exact ih (h.put t row _) hd

theorem DumpState.Hidden.dumpTables {tables : List JsString} {d d' : DumpState}
    (h : d.Hidden table) (hd : e.dumpTables tables d = some d') : d'.Hidden table := by
  induction tables generalizing d with
  | nil =>
    obtain rfl := Option.some.inj hd
    exact h
  | cons t tables ih =>
    unfold SyncEngine.dumpTables at hd
    split at hd
    · cases hd
    · rename_i d₁ hd₁
      exact ih (h.dumpRows hd₁) hd

/-! ## Reads that show the winning cells -/

/-- `get` returns the row if and only if it is visible, under its name and with the columns
that have a value. -/
structure GetsRow (e : SyncEngine) (table row : JsString) : Prop where
  defined : (∃ data, e.get table row = some (some data)) ↔ e.Visible table row
  id : ∀ data, e.get table row = some (some data) → data[js "id"]? = some (.str row)
  columns : ∀ data, e.get table row = some (some data) → ∀ c v,
    e.cellValue table row c = some v → data[c]? = some v
  only : ∀ data, e.get table row = some (some data) → ∀ (c : JsString) v,
    data[c]? = some v → c = js "id" ∨ e.cellValue table row c = some v

/-- `list` returns the visible rows in the order of their ids. -/
def ListsRows (e : SyncEngine) (table : JsString) : Prop :=
  ∃ (rows : List JsString) (datas : List RowData), e.list table = some datas ∧
    rows.Pairwise (· < ·) ∧ (∀ row, row ∈ rows ↔ e.Visible table row) ∧
    List.Forall₂ (fun row data => e.get table row = some (some data)) rows datas

/-- `dump` returns the visible rows with the columns that have a value, and no object
inherits more than before. -/
def DumpsRows (e : SyncEngine) (inherited : List JsString) : Prop :=
  ∃ d, e.dumpTables (sortStrings e.storage.listTables) ⟨∅, inherited⟩ = some d ∧
    d.inherited = inherited ∧
    (∀ t : JsString, d.state[t]? ≠ none ↔ ∃ r, e.Visible t r) ∧
    (∀ t r, d.cols t r ≠ none ↔ e.Visible t r) ∧
    ∀ t r cols, d.cols t r = some cols → ∀ c : JsString, cols[c]? = e.cellValue t r c

/-- Every cell of a visible row decrypts; a column that has a value is not named `id` or
`__proto__`, and the table is not named like a property that every object inherits. -/
def PlainNames (e : SyncEngine) (inherited : List JsString) : Prop :=
  ∀ table row, e.Visible table row → table ∉ inherited ∧ e.Readable table row ∧
    e.cellValue table row (js "id") = none ∧ e.cellValue table row (js "__proto__") = none

theorem PlainNames.get {inherited : List JsString} (h : e.PlainNames inherited)
    (hk : e.storage.Keyed) (hv : e.Visible table row) :
    ∃ data, e.get table row = some (some data) ∧ ∀ c : JsString, data[c]? =
      (e.cellValue table row c).or (if c = js "id" then some (.str row) else none) := by
  obtain ⟨-, hr, -, hproto⟩ := h table row hv
  obtain ⟨data, hd, hget⟩ := get_of_readable hk hv hr
  refine ⟨data, hd, fun c => ?_⟩
  rw [hget]
  by_cases hc : c = js "__proto__"
  · rw [if_pos hc, hc, hproto]
  · rw [if_neg hc]

theorem PlainNames.getsRow {inherited : List JsString} (h : e.PlainNames inherited)
    (hk : e.storage.Keyed) (table row : JsString) : e.GetsRow table row := by
  have hdefined : (∃ data, e.get table row = some (some data)) ↔ e.Visible table row := by
    constructor
    · rintro ⟨data, hd⟩
      by_contra hno
      rw [get_of_not_visible hk hno] at hd
      cases hd
    · exact fun hv => (h.get hk hv).imp fun _ hd => hd.1
  have hspec : ∀ data, e.get table row = some (some data) → ∀ c : JsString, data[c]? =
      (e.cellValue table row c).or (if c = js "id" then some (.str row) else none) := by
    intro data hd
    obtain ⟨data', hd', hget⟩ := h.get hk (hdefined.1 ⟨data, hd⟩)
    rw [hd] at hd'
    obtain rfl := Option.some.inj (Option.some.inj hd')
    exact hget
  refine ⟨hdefined, fun data hd => ?_, fun data hd c v hv => ?_, fun data hd c v hv => ?_⟩
  · have hid := (h table row (hdefined.1 ⟨data, hd⟩)).2.2.1
    rw [hspec data hd, hid, if_pos rfl, Option.none_or]
  · rw [hspec data hd, hv, Option.some_or]
  · by_cases hc : c = js "id"
    · exact .inl hc
    · rw [hspec data hd, if_neg hc, Option.or_none] at hv
      exact .inr hv

theorem listsRows_of_readable (hk : e.storage.Keyed)
    (h : ∀ row, e.Visible table row → e.Readable table row) : e.ListsRows table := by
  obtain ⟨datas, hd⟩ := (exists_list_iff hk).2 h
  exact ⟨_, datas, hd, e.pairwise_shownRows table, fun row => mem_sort_shownRows hk,
    list_eq_some.1 hd⟩

theorem PlainNames.dumpsRows {inherited : List JsString} (h : e.PlainNames inherited)
    (hk : e.storage.Keyed) : e.DumpsRows inherited := by
  have hshown : ∀ {t r : JsString}, r ∈ e.shownRows t ↔ e.Visible t r := fun {t r} => by
    rw [mem_shownRows, shows_iff hk]
  obtain ⟨d, hd, hinh, hcols, hstate⟩ := @dumpTables_spec e (sortStrings e.storage.listTables)
    ⟨∅, inherited⟩ fun t ht r hr =>
      ⟨(h t r (hshown.1 hr)).1, (h.get hk (hshown.1 hr)).imp fun _ hd => hd.1⟩
  have hempty : ∀ t : JsString, (⟨∅, inherited⟩ : DumpState).state[t]? = none :=
    fun t => Std.ExtTreeMap.getElem?_empty
  have hshow : ∀ {t r}, e.Visible t r → ∃ cols, d.cols t r = some cols ∧
      ∀ c : JsString, cols[c]? = e.cellValue t r c := by
    intro t r hv
    obtain ⟨data, hdata, hget⟩ := h.get hk hv
    refine ⟨data.erase (js "id"), ?_, fun c => ?_⟩
    · rw [hcols, if_pos ⟨mem_sort_listTables hk hv, hshown.2 hv⟩, SyncEngine.columns, hdata]
      rfl
    · by_cases hc : c = js "id"
      · rw [hc, getElem?_erase_id, (h t r hv).2.2.1]
      · rw [Std.ExtTreeMap.getElem?_erase_eq, if_neg (Ne.symm hc), hget, if_neg hc, Option.or_none]
  have hhide : ∀ {t r}, ¬ e.Visible t r → d.cols t r = none := by
    intro t r hv
    rw [hcols, if_neg fun hm => hv (hshown.1 hm.2), DumpState.cols, hempty]
    rfl
  refine ⟨d, hd, hinh, fun t => ?_, fun t r => ?_, fun t r cols hc => ?_⟩
  · rw [hstate, hempty]
    simp only [ne_eq, not_true_eq_false, or_false]
    constructor
    · rintro ⟨-, hne⟩
      obtain ⟨r, hr⟩ := List.exists_mem_of_ne_nil _ hne
      exact ⟨r, hshown.1 hr⟩
    · rintro ⟨r, hv⟩
      exact ⟨mem_sort_listTables hk hv, List.ne_nil_of_mem (hshown.2 hv)⟩
  · constructor
    · intro hne
      by_contra hv
      exact hne (hhide hv)
    · intro hv
      obtain ⟨cols, hc, -⟩ := hshow hv
      rw [hc]
      exact Option.some_ne_none _
  · have hv : e.Visible t r := by
      by_contra hv
      rw [hhide hv] at hc
      cases hc
    obtain ⟨cols', hc', hget⟩ := hshow hv
    rw [hc] at hc'
    obtain rfl := Option.some.inj hc'
    exact hget

/-- **When reads show exactly the winning cells.** In every store that a run reaches, `get`,
`list` and `dump` show the visible rows with their columns, and nothing else, if and only if
the cells of the visible rows decrypt, none of their columns that has a value is named `id` or
`__proto__`, and none of their tables is named like a property that every object inherits. -/
theorem reads_exact_iff (cr : Crypto) (opts : EngineOptions) (seed : Nat)
    (acts : List Replica.Action) (inherited : List JsString) :
    let e := (Runs.run (Replica.step cr) (Replica.start cr opts seed) acts).engine
    (∀ table row, e.GetsRow table row) ∧ (∀ table, e.ListsRows table) ∧ e.DumpsRows inherited ↔
      e.PlainNames inherited := by
  intro e
  have hk : e.storage.Keyed := (Replica.consistent_run cr opts seed acts).ledger.keyed
  clear_value e
  constructor
  · rintro ⟨hget, -, d, hd, -, -, hcols, hcells⟩
    have hdata : ∀ {t r}, e.Visible t r → ∃ data, e.get t r = some (some data) :=
      fun {t r} hv => (hget t r).defined.2 hv
    have hreadable : ∀ {t r}, e.Visible t r → e.Readable t r := by
      intro t r hv
      obtain ⟨data, hd⟩ := hdata hv
      by_contra hr
      rw [get_of_not_readable hv hr] at hd
      cases hd
    have hinherited : ∀ {t r}, e.Visible t r → t ∉ inherited := by
      intro t r hv hin
      have hhidden : d.Hidden t :=
        DumpState.Hidden.dumpTables ⟨hin, Std.ExtTreeMap.getElem?_empty⟩ hd
      refine (hcols t r).2 hv ?_
      rw [DumpState.cols, hhidden.absent]
      rfl
    have hshown : ∀ {t r : JsString}, r ∈ e.shownRows t ↔ e.Visible t r := fun {t r} => by
      rw [mem_shownRows, shows_iff hk]
    obtain ⟨d', hd', -, hcols', -⟩ := @dumpTables_spec e (sortStrings e.storage.listTables)
      ⟨∅, inherited⟩ fun t ht r hr => ⟨hinherited (hshown.1 hr), hdata (hshown.1 hr)⟩
    rw [hd] at hd'
    obtain rfl := Option.some.inj hd'
    intro table row hv
    obtain ⟨data, hg⟩ := hdata hv
    refine ⟨hinherited hv, hreadable hv, ?_, ?_⟩
    · obtain ⟨cols, hc⟩ := Option.ne_none_iff_exists'.1 ((hcols table row).2 hv)
      rw [← hcells table row cols hc]
      rw [hcols', if_pos ⟨mem_sort_listTables hk hv, hshown.2 hv⟩, SyncEngine.columns, hg] at hc
      obtain rfl := Option.some.inj hc
      exact getElem?_erase_id data
    · by_contra hne
      obtain ⟨v, hval⟩ := Option.ne_none_iff_exists'.1 hne
      obtain ⟨data', hg', hspec⟩ := get_of_readable hk hv (hreadable hv)
      rw [hg] at hg'
      obtain rfl := Option.some.inj (Option.some.inj hg')
      have hvalue := (hget table row).columns data hg _ v hval
      rw [hspec, if_pos rfl, Option.none_or, if_neg (by decide)] at hvalue
      cases hvalue
  · intro h
    exact ⟨h.getsRow hk, fun table => listsRows_of_readable hk fun row hv => (h table row hv).2.1,
      h.dumpsRows hk⟩

/-- A replica that wrote the columns `id` and `__proto__` of a row. -/
def named : SyncEngine :=
  (Runs.run (Replica.step plainCrypto) (Replica.start plainCrypto Sample.opts 1)
    [.call (.update Sample.table Sample.row
      ⟨[(js "id", .str (js "x")), (js "__proto__", .bool true)], by decide +kernel⟩)]).engine

/-- The row is returned under another name, and without one of its columns. -/
theorem id_hides_row :
    (named.get Sample.table Sample.row).map (Option.map fun data =>
      (data[js "id"]?.map Json.stringify, data[js "__proto__"]?.isSome)) =
        some (some (some (js "\"x\""), false)) ∧
    ¬ named.GetsRow Sample.table Sample.row := by
  have hread : (named.get Sample.table Sample.row).map (Option.map fun data =>
      (data[js "id"]?.map Json.stringify, data[js "__proto__"]?.isSome)) =
        some (some (some (js "\"x\""), false)) := by
    decide +kernel
  refine ⟨hread, fun h => ?_⟩
  obtain ⟨found, hfound, hdata⟩ := Option.map_eq_some_iff.1 hread
  obtain ⟨data, rfl, hcols⟩ := Option.map_eq_some_iff.1 hdata
  have hid := (Prod.mk.inj hcols).1
  rw [h.id data hfound] at hid
  exact absurd hid (by decide +kernel)

/-! ## Rows apart -/

/-- **When a row is listed whatever the others hold.** Two stores that a run reaches agree on
a row that decrypts. The table can be listed in both, with that row as it is, if and only if
every visible row of it decrypts in both. -/
theorem row_listed_iff (cr : Crypto) (opts opts' : EngineOptions) (seed seed' : Nat)
    (acts acts' : List Replica.Action) (table row : JsString) :
    let e := (Runs.run (Replica.step cr) (Replica.start cr opts seed) acts).engine
    let e' := (Runs.run (Replica.step cr) (Replica.start cr opts' seed') acts').engine
    e.cipher = e'.cipher →
    (∀ c, e.storage.winner (table, row, c) = e'.storage.winner (table, row, c)) →
    e.Readable table row →
    ((∃ l l', e.list table = some l ∧ e'.list table = some l' ∧
        e.get table row = e'.get table row ∧
        ∀ data, e.get table row = some (some data) → data ∈ l ∧ data ∈ l') ↔
      (∀ r, e.Visible table r → e.Readable table r) ∧
        ∀ r, e'.Visible table r → e'.Readable table r) := by
  intro e e' hcipher hwinner hreadable
  have hk : e.storage.Keyed := (Replica.consistent_run cr opts seed acts).ledger.keyed
  have hk' : e'.storage.Keyed := (Replica.consistent_run cr opts' seed' acts').ledger.keyed
  clear_value e e'
  have hget := get_of_winners hk hk' hcipher hwinner
  have hlisted : ∀ {e : SyncEngine} {l : List RowData} {data : RowData}, e.storage.Keyed →
      e.list table = some l → e.get table row = some (some data) → data ∈ l := by
    intro e l data hk hl hd
    have hrow : row ∈ sortStrings (e.shownRows table) := by
      rw [mem_sort_shownRows hk]
      by_contra hno
      rw [get_of_not_visible hk hno] at hd
      cases hd
    obtain ⟨data', hmem, hd'⟩ := forall₂_mem (list_eq_some.1 hl) hrow
    rw [hd] at hd'
    rwa [Option.some.inj (Option.some.inj hd')]
  rw [← exists_list_iff hk, ← exists_list_iff hk']
  constructor
  · rintro ⟨l, l', hl, hl', -⟩
    exact ⟨⟨l, hl⟩, l', hl'⟩
  · rintro ⟨⟨l, hl⟩, l', hl'⟩
    refine ⟨l, l', hl, hl', hget, fun data hd => ⟨hlisted hk hl hd, hlisted hk' hl' ?_⟩⟩
    rwa [← hget]

/-- The options of a device with the secret of the space. -/
def sealedOpts : EngineOptions := ⟨Sample.env, some (SpaceCipher.cipher plainAead ⟨[]⟩)⟩

/-- A device with the secret that wrote a row. -/
def wrote : List Replica.Action :=
  [.call (.update Sample.table Sample.row (Sample.record (.bool true)))]

/-- Without the secret, it writes a value to another row. -/
def unsealed (v : Json) : List Replica.Action :=
  [.reopen Sample.opts 1, .call (.update Sample.table Sample.otherRow (Sample.record v))]

/-- The device with the secret after the actions. -/
def reopened (acts : List Replica.Action) : SyncEngine :=
  (Runs.run (Replica.step plainCrypto) (Replica.start plainCrypto sealedOpts 1)
    (acts ++ [.reopen sealedOpts 1])).engine

/-- A replica may be opened again after the actions. -/
def opens (acts : List Replica.Action) : Bool :=
  decide (((Runs.run (Replica.step plainCrypto) (Replica.start plainCrypto sealedOpts 1)
    acts).engine.storage.clock.getD ⟨0, 0⟩).millis ≤ maxMillis)

theorem reopened_spec {acts : List Replica.Action} (h : opens acts = true) :
    (reopened acts).storage = (Runs.run (Replica.step plainCrypto)
        (Replica.start plainCrypto sealedOpts 1) acts).engine.storage ∧
      (reopened acts).cipher = sealedOpts.cipher := by
  unfold reopened
  rw [Runs.run_append, Runs.run_cons, Runs.run_nil]
  exact (Replica.consistent_run plainCrypto sealedOpts 1 acts).reopen (of_decide_eq_true h)

/-- What is written to another row leaves the row as it was. -/
theorem reopened_agree {acts : List Replica.Action} {v : Json} (h : opens acts = true)
    (h' : opens (acts ++ unsealed v) = true)
    (hok : ((Runs.run (Replica.step plainCrypto) (Replica.start plainCrypto sealedOpts 1)
      (acts ++ [.reopen Sample.opts 1])).engine.update plainCrypto Sample.table Sample.otherRow
        (Sample.record v)).result = .ok ()) :
    (reopened acts).cipher = (reopened (acts ++ unsealed v)).cipher ∧
      ∀ c, (reopened acts).storage.winner (Sample.table, Sample.row, c) =
        (reopened (acts ++ unsealed v)).storage.winner (Sample.table, Sample.row, c) := by
  obtain ⟨hstore, hcipher⟩ := reopened_spec h
  obtain ⟨hstore', hcipher'⟩ := reopened_spec h'
  refine ⟨hcipher.trans hcipher'.symm, fun c => ?_⟩
  have hplain := (@Replica.Consistent.reopen plainCrypto _
    (Replica.consistent_run plainCrypto sealedOpts 1 acts) Sample.opts 1 (of_decide_eq_true h)).1
  have hrow : Sample.otherRow ≠ Sample.row := by decide +kernel
  have hcell : ∀ u ∈ (Sample.record v).entries,
      (Sample.table, Sample.otherRow, u.1) ≠ (Sample.table, Sample.row, c) := by
    intro u _ he
    exact hrow (congrArg (·.2.1) he)
  have hc : SyncEngine.Consistent plainCrypto _ _ := Replica.consistent_run plainCrypto sealedOpts 1
    (acts ++ [.reopen Sample.opts 1])
  have hkeep := winner_update hc hok hcell
  have hcall : ∀ r : Replica, (r.step plainCrypto (.call (.update Sample.table Sample.otherRow
      (Sample.record v)))).engine = (r.engine.update plainCrypto Sample.table Sample.otherRow
        (Sample.record v)).engine := fun _ => rfl
  rw [Runs.run_append, Runs.run_cons, Runs.run_nil, hplain] at hkeep
  rw [hstore, hstore', Runs.run_append, unsealed, Runs.run_cons, Runs.run_cons, Runs.run_nil, hcall,
    hkeep]

theorem readable_of_shows {acts : List Replica.Action}
    (hs : (reopened acts).shows table row = true)
    (hg : ((reopened acts).get table row).isSome = true) : (reopened acts).Readable table row := by
  have hk : (reopened acts).storage.Keyed :=
    (Replica.consistent_run plainCrypto sealedOpts 1 _).ledger.keyed
  by_contra hr
  rw [get_of_not_readable ((shows_iff hk).1 hs) hr] at hg
  cases hg

/-- A value in the clear in another row. -/
theorem row_listed_iff_sample :
    ∃ l l', (reopened wrote).list Sample.table = some l ∧
      (reopened (wrote ++ unsealed (.bool true))).list Sample.table = some l' ∧
      ((reopened wrote).get Sample.table Sample.row =
        (reopened (wrote ++ unsealed (.bool true))).get Sample.table Sample.row) ∧
      ∀ data, (reopened wrote).get Sample.table Sample.row = some (some data) →
        data ∈ l ∧ data ∈ l' := by
  have hagree := @reopened_agree wrote (.bool true) (by decide +kernel) (by decide +kernel)
    (by decide +kernel)
  have hk := (Replica.consistent_run plainCrypto sealedOpts 1 (wrote ++
    [.reopen sealedOpts 1])).ledger.keyed
  have hk' := (Replica.consistent_run plainCrypto sealedOpts 1 (wrote ++ unsealed (.bool true) ++
    [.reopen sealedOpts 1])).ledger.keyed
  have hlist : ((reopened wrote).list Sample.table).isSome = true := by decide +kernel
  have hlist' : ((reopened (wrote ++ unsealed (.bool true))).list Sample.table).isSome = true := by
    decide +kernel
  have hread : (reopened wrote).Readable Sample.table Sample.row :=
    readable_of_shows (by decide +kernel) (by decide +kernel)
  unfold reopened at hagree hread hlist hlist' ⊢
  have hiff := row_listed_iff plainCrypto sealedOpts sealedOpts 1 1 (wrote ++ [.reopen sealedOpts 1])
    (wrote ++ unsealed (.bool true) ++ [.reopen sealedOpts 1]) Sample.table Sample.row
  exact (hiff hagree.1 hagree.2 hread).2
      ⟨(exists_list_iff hk).1 (Option.isSome_iff_exists.1 hlist),
        (exists_list_iff hk').1 (Option.isSome_iff_exists.1 hlist')⟩

/-- A value that a peer without the secret wrote hides the rows of everyone. -/
theorem row_not_listed :
    (reopened wrote).cipher = (reopened (wrote ++ unsealed (.str (js "e1:!")))).cipher ∧
    (∀ c, (reopened wrote).storage.winner (Sample.table, Sample.row, c) =
      (reopened (wrote ++ unsealed (.str (js "e1:!")))).storage.winner
        (Sample.table, Sample.row, c)) ∧
    (reopened wrote).Readable Sample.table Sample.row ∧
    ¬ ∃ l l', (reopened wrote).list Sample.table = some l ∧
      (reopened (wrote ++ unsealed (.str (js "e1:!")))).list Sample.table = some l' ∧
      ((reopened wrote).get Sample.table Sample.row =
        (reopened (wrote ++ unsealed (.str (js "e1:!")))).get Sample.table Sample.row) ∧
      ∀ data, (reopened wrote).get Sample.table Sample.row = some (some data) →
        data ∈ l ∧ data ∈ l' := by
  have hagree := @reopened_agree wrote (.str (js "e1:!")) (by decide +kernel) (by decide +kernel)
    (by decide +kernel)
  refine ⟨hagree.1, hagree.2, readable_of_shows (by decide +kernel) (by decide +kernel), ?_⟩
  rintro ⟨_, l', -, hl', -⟩
  have hnone : ((reopened (wrote ++ unsealed (.str (js "e1:!")))).list Sample.table).isSome =
      false := by
    decide +kernel
  rw [hl'] at hnone
  cases hnone

end SyncEngine

end TangentFeed
