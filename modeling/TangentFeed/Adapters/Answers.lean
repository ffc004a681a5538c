import TangentFeed.Adapters.Refine
import TangentFeed.Replica.Reads
import TangentFeed.Replica.Sample

/-!
# The adapters answer alike

From `OnSqlite` and `OnIdb`, what every read answers. `adapters_answer_alike`
puts them together for every sequence of calls the engine makes.
-/

namespace TangentFeed

open Std SyncEngine

/-! ## The in-memory store -/

namespace MemoryAdapter

variable {s : MemoryAdapter} {table row column : JsString} {o : Op}

theorem getRow_ne_empty (hk : s.Keyed) {cells : JsMap Op} (h : s.getRow table row = some cells) :
    ¬ cells = ∅ := by
  obtain ⟨rows, h1, h2⟩ := Option.bind_eq_some_iff.1 h
  exact hk.tight.cells h1 h2

theorem mem_listRows_iff (hk : s.Keyed) :
    row ∈ s.listRows table ↔ ∃ column o, s.getWinner table row column = some o := by
  rw [mem_listRows, ne_eq, SyncEngine.getRow_eq_none hk, not_forall]
  exact exists_congr fun column => Option.ne_none_iff_exists'

theorem mem_listTables (hk : s.Keyed) :
    table ∈ s.listTables ↔ ∃ row column o, s.getWinner table row column = some o := by
  unfold listTables getWinner
  rw [ExtTreeMap.mem_keys, ExtTreeMap.mem_iff_contains, ExtTreeMap.contains_eq_isSome_getElem?,
    Option.isSome_iff_exists]
  constructor
  · rintro ⟨rows, ht⟩
    exact hk.tight.exists_get ht
  · rintro ⟨row, column, o, h⟩
    obtain ⟨rows, -, ht, -⟩ := NestedMap.get_eq_some.1 h
    exact ⟨rows, ht⟩

/-- The values of the log, in key order. -/
def values (s : MemoryAdapter) : List Op := s.opsById.toList.map Prod.snd

/-- The key order is the order of the HLCs. -/
theorem pairwise_values (hk : s.Keyed) : s.values.Pairwise fun a b => a.hlc < b.hlc := by
  unfold values
  rw [List.pairwise_map]
  refine (List.Pairwise.and_mem.1 ExtTreeMap.ordered_keys_toList).imp ?_
  rintro ⟨j, a⟩ ⟨k, b⟩ ⟨ha, hb, hlt⟩
  have hj := hk.ids (ExtTreeMap.mem_toList_iff_getElem?_eq_some.1 ha)
  have hk' := hk.ids (ExtTreeMap.mem_toList_iff_getElem?_eq_some.1 hb)
  rw [← Op.id_eq_hlc, ← Op.id_eq_hlc, hj, hk']
  exact compare_eq_lt.1 hlt

theorem allOps_eq (hk : s.Keyed) : s.allOps = s.values :=
  ((pairwise_values hk).imp fun h => h.le).insertionSort_eq

theorem opsSince_eq (hk : s.Keyed) (frontier : Frontier) :
    s.opsSince frontier = s.values.filter (aboveFrontier · frontier) :=
  (((pairwise_values hk).filter _).imp fun h => h.le).insertionSort_eq

end MemoryAdapter

/-- A map built from the entries of a row. -/
theorem rowMap_eq {β : Type} {entries : List (JsString × β)} {row : Option (JsMap Op)} (f : Op → β)
    (hne : ∀ cells, row = some cells → ¬ cells = ∅)
    (hm : ∀ c v, (c, v) ∈ entries ↔ ∃ o, (row.bind fun cells => cells[c]?) = some o ∧ f o = v) :
    (if entries.length = 0 then none
      else some (entries.foldl (fun out x => out.insert x.1 x.2) (∅ : JsMap β))) =
      row.map fun cells => cells.map fun _ => f := by
  cases hrow : row with
  | none =>
    have hnil : entries = [] := by
      rw [List.eq_nil_iff_forall_not_mem]
      rintro ⟨c, v⟩ h
      obtain ⟨o, h, -⟩ := (hm c v).1 h
      rw [hrow] at h
      cases h
    rw [hnil]
    rfl
  | some cells =>
    obtain ⟨c, o, hc⟩ := ExtTreeMap.ne_empty_iff.1 (hne cells hrow)
    have hmem : (c, f o) ∈ entries := (hm c _).2 ⟨o, by rw [hrow]; exact hc, rfl⟩
    rw [if_neg fun h => by rw [List.eq_nil_of_length_eq_zero h] at hmem; cases hmem]
    have huniq : ∀ {k : JsString} {v w : β}, (k, v) ∈ entries → (k, w) ∈ entries → v = w := by
      intro k v w hv hw
      obtain ⟨o, ho, rfl⟩ := (hm k v).1 hv
      obtain ⟨p, hp, rfl⟩ := (hm k w).1 hw
      rw [ho] at hp
      rw [Option.some.inj hp]
    refine congrArg some (ExtTreeMap.ext_getElem? fun k => ?_)
    rw [ExtTreeMap.getElem?_map]
    apply Option.ext
    intro v
    rw [ExtTreeMap.getElem?_foldl_insert huniq, hm, hrow, Option.bind_some, Option.map_eq_some_iff]
    constructor
    · rintro (h | ⟨-, h⟩)
      · exact h
      · rw [ExtTreeMap.getElem?_empty] at h
        cases h
    · exact fun h => .inl h

/-! ## SQLite -/

namespace OnSqlite

variable {s : MemoryAdapter} {db : SqliteDb} {table row : JsString}

theorem mem_rowCells (h : OnSqlite s db) {c : JsString} {v : Json} :
    (c, v) ∈ db.rowCells table row ↔ ∃ o, s.getWinner table row c = some o ∧ o.raw.reparsed = v := by
  have hcell : (∃ o, s.getWinner table row c = some o ∧ o.raw.reparsed = v) ↔
      db.cells[[table, row, c]]? = some v := by
    rw [h.cells.1, Option.map_eq_some_iff]
    rfl
  rw [hcell]
  unfold SqliteDb.rowCells
  rw [List.mem_filterMap]
  constructor
  · rintro ⟨⟨k, op⟩, hm, hx⟩
    rw [ExtTreeMap.mem_toList_iff_getElem?_eq_some] at hm
    split at hx
    · split at hx
      · rename_i heq hc
        obtain ⟨rfl, rfl⟩ := hc
        obtain ⟨rfl, rfl⟩ := Prod.mk.inj heq
        obtain ⟨rfl, rfl⟩ := Prod.mk.inj (Option.some.inj hx)
        exact hm
      · cases hx
    · cases hx
  · intro hc
    refine ⟨([table, row, c], v), ExtTreeMap.mem_toList_iff_getElem?_eq_some.2 hc, ?_⟩
    simp only [and_self, ↓reduceIte]

/-- What the first columns of the rows are. -/
theorem mem_cells (h : OnSqlite s db) {t r c : JsString} {v : Json} :
    ([t, r, c], v) ∈ db.cells.toList ↔ ∃ o, s.getWinner t r c = some o ∧ o.raw.reparsed = v := by
  rw [ExtTreeMap.mem_toList_iff_getElem?_eq_some, h.cells.1, Option.map_eq_some_iff]
  rfl

theorem getRow (h : OnSqlite s db) (hk : s.Keyed) : db.getRow table row =
    (s.getRow table row).map fun cells => cells.map fun _ o => o.raw.reparsed := by
  refine rowMap_eq (fun o => o.raw.reparsed) (fun _ => MemoryAdapter.getRow_ne_empty hk) fun c v => ?_
  rw [h.mem_rowCells, getRow_getElem?]
  rfl

theorem mem_listRows (h : OnSqlite s db) :
    row ∈ db.listRows table ↔ ∃ column o, s.getWinner table row column = some o := by
  unfold SqliteDb.listRows
  rw [List.mem_dedup, List.mem_filterMap]
  constructor
  · rintro ⟨⟨k, op⟩, hm, hx⟩
    split at hx
    · split at hx
      · rename_i heq ht
        obtain ⟨rfl, rfl⟩ := Prod.mk.inj heq
        obtain rfl := Option.some.inj hx
        subst ht
        obtain ⟨o, ho, -⟩ := h.mem_cells.1 hm
        exact ⟨_, o, ho⟩
      · cases hx
    · cases hx
  · rintro ⟨column, o, ho⟩
    refine ⟨([table, row, column], _), h.mem_cells.2 ⟨o, ho, rfl⟩, ?_⟩
    simp only [↓reduceIte]

theorem mem_listTables (h : OnSqlite s db) :
    table ∈ db.listTables ↔ ∃ row column o, s.getWinner table row column = some o := by
  unfold SqliteDb.listTables
  rw [List.mem_dedup, List.mem_filterMap]
  constructor
  · rintro ⟨⟨k, op⟩, hm, hx⟩
    split at hx
    · rename_i heq
      obtain ⟨rfl, rfl⟩ := Prod.mk.inj heq
      obtain rfl := Option.some.inj hx
      obtain ⟨o, ho, -⟩ := h.mem_cells.1 hm
      exact ⟨_, _, o, ho⟩
    · cases hx
  · rintro ⟨row, column, o, ho⟩
    exact ⟨([table, row, column], _), h.mem_cells.2 ⟨o, ho, rfl⟩, rfl⟩

theorem opRows_eq (h : OnSqlite s db) : db.opRows = s.values.map OpRow.ofOp := by
  unfold SqliteDb.opRows MemoryAdapter.values
  rw [h.ops, ExtTreeMap.toList_map, List.map_map, List.map_map]
  rfl

/-- An operation as `toOp` gives it back. -/
def reread (o : Op) : Json := (OpRow.ofOp o).toOp

theorem allOps (h : OnSqlite s db) (hk : s.Keyed) : db.allOps = s.allOps.map reread := by
  unfold SqliteDb.allOps
  rw [h.opRows_eq, MemoryAdapter.allOps_eq hk, List.map_map]
  rfl

/-- The rows above a frontier, of the devices it has. -/
theorem mem_above {db : SqliteDb} {frontier : Frontier} {r : OpRow} :
    r ∈ frontier.toList.flatMap (fun (device, hlc) => db.opsAboveFor device hlc) ↔
      r ∈ db.opRows ∧ ∃ hlc, frontier[r.device]? = some hlc ∧ hlc < r.hlc := by
  rw [List.mem_flatMap]
  unfold SqliteDb.opsAboveFor
  constructor
  · rintro ⟨⟨device, hlc⟩, hf, hr⟩
    rw [List.mem_insertionSort, List.mem_filter, decide_eq_true_eq] at hr
    obtain ⟨hr, rfl, hlt⟩ := hr
    exact ⟨hr, hlc, ExtTreeMap.mem_toList_iff_getElem?_eq_some.1 hf, hlt⟩
  · rintro ⟨hr, hlc, hf, hlt⟩
    refine ⟨(r.device, hlc), ExtTreeMap.mem_toList_iff_getElem?_eq_some.2 hf, ?_⟩
    rw [List.mem_insertionSort, List.mem_filter, decide_eq_true_eq]
    exact ⟨hr, rfl, hlt⟩

theorem nodup_above {db : SqliteDb} (h : db.opRows.Nodup) (frontier : Frontier) :
    (frontier.toList.flatMap fun (device, hlc) => db.opsAboveFor device hlc).Nodup := by
  rw [List.nodup_flatMap]
  constructor
  · rintro ⟨device, hlc⟩ -
    exact (List.perm_insertionSort _ _).nodup_iff.2 (h.filter _)
  · have hkeys : (frontier.toList.map Prod.fst).Nodup := ExtTreeMap.nodup_toList_keys
    rw [List.Nodup, List.pairwise_map] at hkeys
    refine hkeys.imp fun {x y} hne => ?_
    intro r hx hy
    unfold SqliteDb.opsAboveFor at hx hy
    rw [List.mem_insertionSort, List.mem_filter, decide_eq_true_eq] at hx hy
    exact hne (hx.2.1.symm.trans hy.2.1)

/-- The rows above a frontier, in no particular order. -/
theorem perm_above (h : OnSqlite s db) (hk : s.Keyed) (frontier : Frontier) :
    let above := frontier.toList.flatMap fun (device, hlc) => db.opsAboveFor device hlc
    (above ++ db.opRows.filter fun r => frontier[r.device]? = none ∧ r.id ∉ above.map OpRow.id).Perm
      ((s.values.filter (aboveFrontier · frontier)).map OpRow.ofOp) := by
  have hrows : (db.opRows.map OpRow.hlc).Nodup := by
    rw [h.opRows_eq, List.map_map, List.Nodup, List.pairwise_map]
    exact (MemoryAdapter.pairwise_values hk).imp fun hlt => hlt.ne
  have hnodup : db.opRows.Nodup := hrows.of_map
  simp only
  refine (List.perm_ext_iff_of_nodup ?_ ?_).2 fun r => ?_
  · rw [List.nodup_append]
    refine ⟨nodup_above hnodup frontier, hnodup.filter _, fun a ha b hb => ?_⟩
    rintro rfl
    obtain ⟨-, hlc, hf, -⟩ := mem_above.1 ha
    rw [List.mem_filter, decide_eq_true_eq] at hb
    rw [hf] at hb
    cases hb.2.1
  · have hv : (s.values.map OpRow.ofOp).Nodup := by
      rw [← h.opRows_eq]
      exact hnodup
    exact hv.sublist ((List.filter_sublist).map _)
  · rw [List.mem_append, mem_above, List.mem_filter, decide_eq_true_eq]
    have hval : ∀ o, o ∈ s.values → OpRow.ofOp o ∈ db.opRows := by
      intro o ho
      rw [h.opRows_eq]
      exact List.mem_map_of_mem ho
    constructor
    · intro hr
      have hr' : r ∈ db.opRows := by
        rcases hr with hr | hr
        · exact hr.1
        · exact hr.1
      rw [h.opRows_eq, List.mem_map] at hr'
      obtain ⟨o, ho, rfl⟩ := hr'
      refine List.mem_map_of_mem (List.mem_filter.2 ⟨ho, ?_⟩)
      unfold aboveFrontier
      rcases hr with ⟨-, hlc, hf, hlt⟩ | ⟨-, hf, -⟩
      · have hf' : frontier[o.device]? = some hlc := hf
        rw [hf']
        exact decide_eq_true hlt
      · have hf' : frontier[o.device]? = none := hf
        rw [hf']
    · intro hr
      obtain ⟨o, ho, rfl⟩ := List.mem_map.1 hr
      obtain ⟨ho, ha⟩ := List.mem_filter.1 ho
      unfold aboveFrontier at ha
      cases hf : frontier[o.device]? with
      | none =>
        refine .inr ⟨hval o ho, hf, fun hm => ?_⟩
        obtain ⟨q, hq, hid⟩ := List.mem_map.1 hm
        obtain ⟨hq, hlc, hfq, -⟩ := mem_above.1 hq
        rw [h.opRows_eq, List.mem_map] at hq
        obtain ⟨p, -, rfl⟩ := hq
        have hid : p.id = o.id := hid
        rw [Op.id_eq_hlc, Op.id_eq_hlc] at hid
        have hdev : p.device = o.device := Op.device_eq_of_hlc hid
        change frontier[p.device]? = some hlc at hfq
        rw [hdev, hf] at hfq
        cases hfq
      | some hlc =>
        rw [hf] at ha
        exact .inl ⟨hval o ho, hlc, hf, of_decide_eq_true ha⟩

theorem opsSince (h : OnSqlite s db) (hk : s.Keyed) (frontier : Frontier) :
    db.opsSince frontier = (s.opsSince frontier).map reread := by
  rw [MemoryAdapter.opsSince_eq hk]
  have hsorted := (MemoryAdapter.pairwise_values hk).filter (aboveFrontier · frontier)
  unfold SqliteDb.opsSince
  split
  · rename_i hlen
    have hall : s.values.filter (aboveFrontier · frontier) = s.values := by
      rw [List.filter_eq_self]
      intro o _
      have hf : frontier = ∅ := by
        rw [← ExtTreeMap.toList_eq_nil_iff]
        exact List.eq_nil_of_length_eq_zero hlen
      unfold aboveFrontier
      rw [hf, ExtTreeMap.getElem?_empty]
    rw [hall, h.opRows_eq, List.map_map]
    rfl
  · simp only
    have hperm := (h.perm_above hk frontier).map OpRow.toOp
    rw [List.map_map] at hperm
    unfold sortByHlc
    refine ((List.perm_insertionSort _ _).trans hperm).eq_of_pairwise ?_
      (List.pairwise_insertionSort _ _) ?_
    · intro a b ha hb hab hba
      have ha' := hperm.mem_iff.1 ((List.mem_insertionSort _).1 ha)
      obtain ⟨o, ho, rfl⟩ := List.mem_map.1 ha'
      obtain ⟨p, hp, rfl⟩ := List.mem_map.1 hb
      have hab : o.hlc ≤ p.hlc := hab
      have hlc : o.hlc = p.hlc := hab.antisymm hba
      have ho' := (List.mem_filter.1 ho).1
      have hp' := (List.mem_filter.1 hp).1
      have hid : o.id = p.id := by rw [Op.id_eq_hlc, Op.id_eq_hlc, hlc]
      rw [MemoryAdapter.log_inj (hk.mem_values.1 ho') (hk.mem_values.1 hp') hid]
      rfl
    · rw [List.pairwise_map]
      exact hsorted.imp fun hlt => hlt.le

end OnSqlite

/-! ## IndexedDB -/

/-- The keys in a range are those that start with the prefix, and whose rest is
at most `"\uffff"`. -/
theorem between_iff (start key : JsString) :
    start ≤ key ∧ key ≤ start ++ [high] ↔ ∃ rest, key = start ++ rest ∧ rest ≤ [high] := by
  induction start generalizing key with
  | nil =>
    constructor
    · rintro ⟨-, h⟩
      exact ⟨key, rfl, h⟩
    · rintro ⟨rest, rfl, h⟩
      exact ⟨nil_le_jsString key, h⟩
  | cons c start ih =>
    constructor
    · rintro ⟨h1, h2⟩
      cases key with
      | nil => exact absurd (List.nil_lt_cons c start) h1.not_gt
      | cons d key =>
        rw [jsString_cons_le] at h1
        rw [List.cons_append, jsString_cons_le] at h2
        have hcd : c = d := by
          rcases h1 with h | ⟨h, -⟩
          · rcases h2 with h' | ⟨h', -⟩
            · exact absurd h h'.asymm
            · exact absurd h' h.ne'
          · exact h
        subst hcd
        have h1' : start ≤ key := by
          rcases h1 with h | ⟨-, h⟩
          · exact absurd h (lt_irrefl c)
          · exact h
        have h2' : key ≤ start ++ [high] := by
          rcases h2 with h | ⟨-, h⟩
          · exact absurd h (lt_irrefl c)
          · exact h
        obtain ⟨rest, rfl, hr⟩ := (ih key).1 ⟨h1', h2'⟩
        exact ⟨rest, rfl, hr⟩
    · rintro ⟨rest, rfl, hr⟩
      obtain ⟨h1, h2⟩ := (ih (start ++ rest)).2 ⟨rest, rfl, hr⟩
      rw [List.cons_append, List.cons_append, jsString_cons_le, jsString_cons_le]
      exact ⟨.inr ⟨rfl, h1⟩, .inr ⟨rfl, h2⟩⟩

/-- A name below `"\uffff"`, whatever follows it. -/
def Low (name : JsString) : Prop := ∃ c rest, name = c :: rest ∧ c < high

theorem Low.le {name : JsString} (h : Low name) (tail : JsString) : name ++ tail ≤ [high] := by
  obtain ⟨c, rest, rfl, hc⟩ := h
  rw [List.cons_append, jsString_cons_le]
  exact .inl hc

theorem isNameStart_low {c : CodeUnit} (h : isNameStart c = true) : c < high := by
  unfold isNameStart at h
  simp only [Bool.or_eq_true, Bool.and_eq_true, decide_eq_true_eq, beq_iff_eq] at h
  unfold high
  rw [Fin.lt_def]
  change c.val < 65535
  omega

theorem Op.column_low (o : Op) : Low o.column := by
  rcases o.isValid.column with h | h
  · exact ⟨0x2d, [], h, by decide⟩
  · cases hc : o.column with
    | nil =>
      have h' : isName o.column = true := h
      rw [hc] at h'
      cases h'
    | cons c rest =>
      have h' : isName o.column = true := h
      rw [hc] at h'
      unfold isName at h'
      rw [Bool.and_eq_true, Bool.and_eq_true] at h'
      exact ⟨c, rest, rfl, isNameStart_low h'.1.1⟩

theorem Op.row_low (o : Op) : Low o.row := by
  have h : isUlid o.row = true := o.isValid.row
  unfold isUlid at h
  rw [Bool.and_eq_true, beq_iff_eq, List.all_eq_true] at h
  cases hr : o.row with
  | nil =>
    rw [hr] at h
    cases h.1
  | cons c rest =>
    refine ⟨c, rest, rfl, lt_of_not_ge fun hge => ?_⟩
    have e : c = high := (Fin.le_last c).antisymm hge
    have hc := h.2 c (by rw [hr]; exact List.mem_cons_self)
    rw [e] at hc
    revert hc
    decide

theorem beforeSep_append {a b : JsString} (h : sep ∉ a) :
    IdbStores.beforeSep (a ++ sep :: b) = a := by
  unfold IdbStores.beforeSep
  rw [if_pos (List.mem_append_right _ List.mem_cons_self), List.takeWhile_append_of_pos]
  · rw [List.takeWhile_cons_of_neg, List.append_nil]
    simp only [ne_eq, not_true_eq_false, decide_false, Bool.false_eq_true, not_false_eq_true]
  · intro c hc
    apply decide_eq_true
    rintro rfl
    exact h hc

theorem append_sep_inj {a b x y : JsString} (ha : sep ∉ a) (hb : sep ∉ b)
    (h : a ++ sep :: x = b ++ sep :: y) : a = b ∧ x = y := by
  have hab : a = b := by
    rw [← beforeSep_append (b := x) ha, h, beforeSep_append hb]
  subst hab
  exact ⟨rfl, (List.cons.inj (List.append_cancel_left h)).2⟩

namespace OnIdb

variable {s : MemoryAdapter} {i : IdbStores} {table row column : JsString}

/-- A record is the winner of a legal cell. -/
theorem mem_records (h : OnIdb s i) {key : JsString} {o : Op} :
    (key, o) ∈ i.cells.toList ↔
      ∃ c : Cell, Legal c ∧ s.winner c = some o ∧ key = cellKey c.1 c.2.1 c.2.2 := by
  rw [ExtTreeMap.mem_toList_iff_getElem?_eq_some]
  exact h.cells

theorem mem_rangeScan {start key : JsString} {o : Op} (hs : start ≠ []) :
    (key, o) ∈ i.rangeScan start ↔
      (key, o) ∈ i.cells.toList ∧ ∃ rest, key = start ++ rest ∧ rest ≤ [high] := by
  unfold IdbStores.rangeScan
  rw [if_neg hs, List.mem_filter, decide_eq_true_eq, between_iff]

theorem legal_of_winner (hk : s.Keyed) {c : Cell} {o : Op} (h : s.winner c = some o) :
    Legal c ∧ o.cell = c := by
  have hc := hk.cells h
  exact ⟨hc ▸ o.legal, hc⟩

theorem getWinner (h : OnIdb s i) (hk : s.Keyed) :
    i.getWinner table row column = s.getWinner table row column := by
  apply Option.ext
  intro o
  unfold IdbStores.getWinner
  rw [← ExtTreeMap.mem_toList_iff_getElem?_eq_some, h.mem_records]
  constructor
  · rintro ⟨c, hc, hw, hkey⟩
    rw [← cell_eq_of_key (c := (table, row, column)) hc hkey] at hw
    exact hw
  · intro hw
    exact ⟨(table, row, column), (legal_of_winner (c := (table, row, column)) hk hw).1, hw, rfl⟩

theorem getRow (h : OnIdb s i) (hk : s.Keyed) : i.getRow table row = s.getRow table row := by
  have hstart : table ++ sep :: row ++ [sep] ≠ [] := by
    intro e
    cases (List.append_eq_nil_iff.1 e).2
  have hentries : ∀ c o, (c, o) ∈ (i.rangeScan (table ++ sep :: row ++ [sep])).map
      (fun x => (x.1.drop (table ++ sep :: row ++ [sep]).length, x.2)) ↔
        ∃ p, ((s.getRow table row).bind fun cells => cells[c]?) = some p ∧ id p = o := by
    intro c o
    rw [getRow_getElem?, List.mem_map]
    constructor
    · rintro ⟨⟨key, p⟩, hm, hx⟩
      obtain ⟨hm, rest, rfl, -⟩ := (mem_rangeScan hstart).1 hm
      obtain ⟨hrest, rfl⟩ := Prod.mk.inj hx
      simp only [List.drop_left] at hrest
      subst hrest
      obtain ⟨d, hd, hwin, hkey⟩ := h.mem_records.1 hm
      refine ⟨p, ?_, rfl⟩
      rw [List.append_assoc, List.singleton_append] at hkey
      rw [← cell_eq_of_key (c := (table, row, rest)) hd hkey] at hwin
      exact hwin
    · rintro ⟨p, hp, rfl⟩
      obtain ⟨hl, hcell⟩ := legal_of_winner (c := (table, row, c)) hk hp
      refine ⟨(table ++ sep :: row ++ [sep] ++ c, p), (mem_rangeScan hstart).2 ⟨?_, c, rfl, ?_⟩, ?_⟩
      · refine h.mem_records.2 ⟨(table, row, c), hl, hp, ?_⟩
        rw [List.append_assoc, List.singleton_append]
        rfl
      · have hlow := p.column_low.le []
        have hcol : p.column = c := congrArg (fun d : Cell => d.2.2) hcell
        rw [List.append_nil, hcol] at hlow
        exact hlow
      · rw [List.drop_left]
        rfl
  have hmap := rowMap_eq id (fun _ => MemoryAdapter.getRow_ne_empty hk) hentries
  rw [List.length_map, List.foldl_map] at hmap
  unfold IdbStores.getRow
  simp only
  rw [hmap]
  cases s.getRow table row with
  | none => rfl
  | some cells =>
    rw [Option.map_some]
    refine congrArg some (ExtTreeMap.ext_getElem? fun k => ?_)
    rw [ExtTreeMap.getElem?_map, Option.map_id]
    rfl

/-- For a name that contains no separator. -/
theorem mem_listRows (h : OnIdb s i) (hk : s.Keyed) (hsep : sep ∉ table) :
    row ∈ i.listRows table ↔ ∃ column o, s.getWinner table row column = some o := by
  have hstart : table ++ [sep] ≠ [] := by
    intro e
    cases (List.append_eq_nil_iff.1 e).2
  unfold IdbStores.listRows
  rw [List.mem_dedup, List.mem_map]
  constructor
  · rintro ⟨⟨key, o⟩, hm, hx⟩
    obtain ⟨hm, rest, rfl, -⟩ := (mem_rangeScan hstart).1 hm
    obtain ⟨c, hc, hw, hkey⟩ := h.mem_records.1 hm
    unfold cellKey at hkey
    rw [List.append_assoc, List.singleton_append, List.append_assoc, List.cons_append] at hkey
    obtain ⟨rfl, rfl⟩ := append_sep_inj hsep hc.table hkey
    simp only [List.drop_left] at hx
    rw [beforeSep_append hc.row] at hx
    subst hx
    exact ⟨c.2.2, o, hw⟩
  · rintro ⟨column, o, hw⟩
    obtain ⟨hl, hcell⟩ := legal_of_winner (c := (table, row, column)) hk hw
    refine ⟨(table ++ [sep] ++ (row ++ sep :: column), o), (mem_rangeScan hstart).2
      ⟨h.mem_records.2 ⟨(table, row, column), hl, hw, ?_⟩, _, rfl, ?_⟩, ?_⟩
    · unfold cellKey
      rw [List.append_assoc, List.singleton_append, List.append_assoc, List.cons_append]
    · have hrow : o.row = row := congrArg (fun d : Cell => d.2.1) hcell
      rw [← hrow]
      exact o.row_low.le _
    · simp only [List.drop_left]
      exact beforeSep_append hl.row

theorem mem_listTables (h : OnIdb s i) (hk : s.Keyed) :
    table ∈ i.listTables ↔ ∃ row column o, s.getWinner table row column = some o := by
  have hscan : i.rangeScan [] = i.cells.toList := rfl
  unfold IdbStores.listTables
  rw [List.mem_dedup, List.mem_map, hscan]
  constructor
  · rintro ⟨⟨key, o⟩, hm, hx⟩
    obtain ⟨c, hc, hw, rfl⟩ := h.mem_records.1 hm
    unfold cellKey at hx
    simp only [List.append_assoc, List.cons_append] at hx
    rw [beforeSep_append hc.table] at hx
    subst hx
    exact ⟨c.2.1, c.2.2, o, hw⟩
  · rintro ⟨row, column, o, hw⟩
    obtain ⟨hl, -⟩ := legal_of_winner (c := (table, row, column)) hk hw
    refine ⟨(cellKey table row column, o), h.mem_records.2 ⟨(table, row, column), hl, hw, rfl⟩, ?_⟩
    unfold cellKey
    rw [List.append_assoc, List.cons_append]
    exact beforeSep_append hl.table

theorem values (h : OnIdb s i) : i.ops.toList.map Prod.snd = s.values := by
  unfold MemoryAdapter.values
  rw [h.ops]

end OnIdb

/-! ## Every read -/

variable {s : MemoryAdapter}

/-- Two listings without repetition of one set. -/
theorem perm_of_listings {P : JsString → Prop} {l l' : List JsString} (hl : l.Nodup)
    (hl' : l'.Nodup) (h : ∀ x, x ∈ l ↔ P x) (h' : ∀ x, x ∈ l' ↔ P x) : l.Perm l' :=
  (List.perm_ext_iff_of_nodup hl hl').2 fun x => (h x).trans (h' x).symm

theorem canonicalJson_reread (hs : Stocked s) {l : List Op} (hl : ∀ o ∈ l, o ∈ s.log) :
    (l.map Op.raw).map canonicalJson = (l.map OnSqlite.reread).map canonicalJson := by
  rw [List.map_map, List.map_map]
  apply List.map_congr_left
  intro o ho
  exact (canonicalJson_toOp (hs.fields o (hl o ho))).symm

/-- **SQLite answers as memory does.** -/
theorem OnSqlite.reads {db : SqliteDb} (h : OnSqlite s db) (hs : Stocked s) :
    Reads.Same (fun _ => True) s.reads db.reads where
  getRow table row := by
    change ((s.getRow table row).map _).map _ = (db.getRow table row).map _
    rw [h.getRow hs.keyed]
    cases s.getRow table row with
    | none => rfl
    | some cells =>
      refine congrArg some (ExtTreeMap.ext_getElem? fun k => ?_)
      rw [ExtTreeMap.getElem?_map, ExtTreeMap.getElem?_map, ExtTreeMap.getElem?_map,
        ExtTreeMap.getElem?_map, Option.map_map, Option.map_map]
      refine congrArg (fun f => cells[k]?.map f) (funext fun o => ?_)
      exact (canonicalJson_reparsed o.raw).symm
  listRows table _ := perm_of_listings (s.nodup_listRows table) (List.nodup_dedup _)
    (fun _ => MemoryAdapter.mem_listRows_iff hs.keyed) fun _ => h.mem_listRows
  listTables := perm_of_listings s.nodup_listTables (List.nodup_dedup _)
    (fun _ => MemoryAdapter.mem_listTables hs.keyed) fun _ => h.mem_listTables
  hasOp := by
    funext id
    change s.opsById.contains id = db.ops.contains id
    rw [h.ops, ExtTreeMap.contains_map]
  getWinner table row column := by
    change ((s.getWinner table row column).map _).map _ = db.cells[[table, row, column]]?.map _
    rw [h.cells.1, Option.map_map, Option.map_map]
    refine congrArg (fun f => Option.map f _) (funext fun o => ?_)
    exact (canonicalJson_reparsed o.raw).symm
  opsSince frontier := by
    change ((s.opsSince frontier).map _).map _ = (db.opsSince frontier).map _
    rw [h.opsSince hs.keyed]
    exact canonicalJson_reread hs fun o ho => (hs.keyed.mem_opsSince.1 ho).1
  allOps := by
    change (s.allOps.map _).map _ = db.allOps.map _
    rw [h.allOps hs.keyed]
    exact canonicalJson_reread hs fun o ho => hs.keyed.mem_allOps.1 ho
  opCount := by
    change s.opsById.size = db.ops.size
    rw [h.ops, ExtTreeMap.size_map]
  getFrontier := h.frontier.symm
  getClock := h.clock.symm
  getPeerFrontiers := h.peers.symm

/-- **IndexedDB answers as memory does**, about tables named without U+0000. -/
theorem OnIdb.reads {i : IdbStores} (h : OnIdb s i) (hs : Stocked s) :
    Reads.Same (fun table => sep ∉ table) s.reads i.reads where
  getRow table row := by
    change _ = ((i.getRow table row).map _).map _
    rw [h.getRow hs.keyed]
    rfl
  listRows table hsep := perm_of_listings (s.nodup_listRows table) (List.nodup_dedup _)
    (fun _ => MemoryAdapter.mem_listRows_iff hs.keyed) fun _ => h.mem_listRows hs.keyed hsep
  listTables := perm_of_listings s.nodup_listTables (List.nodup_dedup _)
    (fun _ => MemoryAdapter.mem_listTables hs.keyed) fun _ => h.mem_listTables hs.keyed
  hasOp := by
    funext id
    change s.opsById.contains id = i.ops.contains id
    rw [h.ops]
  getWinner table row column := by
    change _ = ((i.getWinner table row column).map _).map _
    rw [h.getWinner hs.keyed]
    rfl
  opsSince frontier := by
    change ((s.opsSince frontier).map _).map _ = ((i.opsSince frontier).map _).map _
    unfold IdbStores.opsSince
    rw [MemoryAdapter.opsSince_eq hs.keyed, h.values]
  allOps := by
    change (s.allOps.map _).map _ = ((i.allOps).map _).map _
    unfold IdbStores.allOps
    rw [MemoryAdapter.allOps_eq hs.keyed, h.values]
  opCount := by
    change s.opsById.size = i.ops.size
    rw [h.ops]
  getFrontier := h.frontier.symm
  getClock := h.clock.symm
  getPeerFrontiers := h.peers.symm

/-- The three stores after the same calls. -/
structure Stores where
  memory : MemoryAdapter
  sqlite : SqliteDb
  idb : IdbStores

def Stores.empty : Stores := ⟨.empty, .empty, .empty⟩

def Stores.make (s : Stores) (call : StoreCall) : Stores :=
  ⟨s.memory.make call, s.sqlite.make call, s.idb.make call⟩

/-- The other two stores simulate the in-memory one. -/
structure Stores.Tied (s : Stores) : Prop where
  stocked : Stocked s.memory
  sqlite : OnSqlite s.memory s.sqlite
  idb : OnIdb s.memory s.idb

theorem Stores.Tied.make {s : Stores} (h : s.Tied) {call : StoreCall} (hb : Built s.memory call) :
    (s.make call).Tied :=
  ⟨h.stocked.make hb, h.sqlite.make hb, h.idb.make hb⟩

/-- **The adapters answer alike.** After every sequence of calls the engine
makes, SQLite answers every read as the in-memory adapter does, and so does
IndexedDB, except that only tables named without U+0000 are asked for rows. -/
theorem adapters_answer_alike (calls : List StoreCall)
    (h : Runs.Along Stores.make (fun s call => Built s.memory call) .empty calls) :
    Reads.Same (fun _ => True) (Runs.run Stores.make .empty calls).memory.reads
        (Runs.run Stores.make .empty calls).sqlite.reads ∧
      Reads.Same (fun table => sep ∉ table) (Runs.run Stores.make .empty calls).memory.reads
        (Runs.run Stores.make .empty calls).idb.reads := by
  have ht : (Runs.run Stores.make .empty calls).Tied :=
    h.invariant (fun _ _ hb ht => ht.make hb) ⟨.empty, .empty, .empty⟩
  exact ⟨ht.sqlite.reads ht.stocked, ht.idb.reads ht.stocked⟩

/-- A write of new operations, one frontier of a peer, and a compaction that removes the first
of them. -/
def callsOf (ops : List Op) : List StoreCall :=
  [.write (.batch (commitBatch .empty ops ⟨1000, 0⟩)), .setPeerFrontier (js "peer") ∅,
    .write (.compaction ⟨(ops.take 1).map Op.id,
      (ops.take 1).map fun o => cellKey o.table o.row o.column⟩)]

theorem along_callsOf {ops : List Op} (hn : (ops.map Op.id).Nodup) (hf : ∀ o ∈ ops, EightFields o) :
    Runs.Along Stores.make (fun s call => Built s.memory call) .empty (callsOf ops) := by
  refine ⟨builtBatch_commitBatch .empty ⟨hn, fun _ _ => ExtTreeMap.contains_empty⟩ hf _, trivial,
    ?_, trivial⟩
  intro k hk
  obtain ⟨o, -, rfl⟩ := List.mem_map.1 hk
  exact ⟨o.cell, o.legal, rfl⟩

/-- What a device writes to two columns. -/
def opsOf (seed : Nat) : List Op :=
  ((SyncEngine.opened plainCrypto Sample.opts seed).makeLocalOps plainCrypto Sample.table Sample.row
    [(js "title", .bool true), (js "done", .bool false)]).1.toOption.getD []

/-- The operations of two devices. -/
@[irreducible] def sampleOps : List Op := opsOf 1 ++ opsOf 2

/-- The first operation of each. -/
def sampleFrontier : Frontier := ((opsOf 2).take 1).foldl (fun f o => f.insert o.device o.hlc) ∅

theorem nodup_sampleOps : (sampleOps.map Op.id).Nodup := by decide +kernel

theorem eightFields_sampleOps : ∀ o ∈ sampleOps, EightFields o := by decide +kernel

/-- The second device is one of the frontier and the first is not, so SQLite asks for the
operations of each and sorts them. -/
theorem answer_alike_sample :
    (Reads.Same (fun _ => True) (Runs.run Stores.make .empty (callsOf sampleOps)).memory.reads
        (Runs.run Stores.make .empty (callsOf sampleOps)).sqlite.reads ∧
      Reads.Same (fun table => sep ∉ table)
        (Runs.run Stores.make .empty (callsOf sampleOps)).memory.reads
        (Runs.run Stores.make .empty (callsOf sampleOps)).idb.reads) ∧
      ((Runs.run Stores.make .empty (callsOf sampleOps)).sqlite.opsSince sampleFrontier).map
        (fun op => some (op.getStr (js "id"))) = [(opsOf 1).getLast?.map Op.id, (opsOf 2).getLast?.map Op.id] :=
  ⟨adapters_answer_alike _ (along_callsOf nodup_sampleOps eightFields_sampleOps), by decide +kernel⟩

/-- A table with U+0000 in its name has no rows, but IndexedDB finds one. -/
theorem idb_lists_beyond :
    Runs.Along Stores.make (fun s call => Built s.memory call) .empty
        ((callsOf sampleOps).take 1) ∧
      ¬ Reads.Same (fun _ => True)
        (Runs.run Stores.make .empty ((callsOf sampleOps).take 1)).memory.reads
        (Runs.run Stores.make .empty ((callsOf sampleOps).take 1)).idb.reads := by
  constructor
  · exact ⟨(along_callsOf nodup_sampleOps eightFields_sampleOps).1, trivial⟩
  · intro h
    have hlen := (h.listRows (Sample.table ++ sep :: Sample.row) trivial).length_eq
    revert hlen
    decide +kernel

end TangentFeed
