import TangentFeed.Lib.Related
import TangentFeed.Replica.Rows

/-!
# A store and its encrypted twin

`Op.Veiled c a b` says that `b` is what a device with the cipher `c` writes where a
device without one writes `a`: the same operation but for its value and signature.
The value decrypts to the value of `a`, up to canonical JSON; a tombstone is not
encrypted. Two stores are related when they hold related operations in the same
places. Then they list the same keys, are compacted alike and are read alike.
-/

namespace TangentFeed

open Std

/-- `b` is `a` with its value encrypted by `c`. -/
structure Op.Veiled (c : Cipher) (a b : Op) : Prop where
  cell : a.cell = b.cell
  hlc : a.hlc = b.hlc
  tombstone : a.column = tombstoneColumn → a.value = b.value
  plain : a.column ≠ tombstoneColumn → SyncEngine.plain (some c) b = some a.value.normal
  proper : a.value.proper = true

variable {c : Cipher}

namespace Op.Veiled

variable {a b : Op}

theorem table (h : a.Veiled c b) : a.table = b.table := congrArg Prod.fst h.cell

theorem row (h : a.Veiled c b) : a.row = b.row := congrArg (fun x => x.2.1) h.cell

theorem column (h : a.Veiled c b) : a.column = b.column := congrArg (fun x => x.2.2) h.cell

theorem id (h : a.Veiled c b) : a.id = b.id := by
  rw [a.id_eq_hlc, b.id_eq_hlc, h.hlc]

theorem device (h : a.Veiled c b) : a.device = b.device := Op.device_eq_of_hlc h.hlc

theorem rowKey (h : a.Veiled c b) : rowKeyOf a = rowKeyOf b := by
  unfold rowKeyOf
  rw [h.table, h.row]

theorem aboveFrontier (h : a.Veiled c b) (f : Frontier) :
    TangentFeed.aboveFrontier a f = TangentFeed.aboveFrontier b f := by
  unfold TangentFeed.aboveFrontier
  rw [h.device, h.hlc]

theorem advanceFrontier (h : a.Veiled c b) (f : Frontier) :
    TangentFeed.advanceFrontier f a = TangentFeed.advanceFrontier f b := by
  unfold TangentFeed.advanceFrontier
  rw [h.device, h.hlc]

theorem below (h : a.Veiled c b) (horizon : Frontier) :
    TangentFeed.below horizon a = TangentFeed.below horizon b := by
  unfold TangentFeed.below
  rw [h.device, h.hlc]

end Op.Veiled

/-! ## Stores -/

/-- Related operations in the same places. -/
structure MemoryAdapter.Veiled (c : Cipher) (s s' : MemoryAdapter) : Prop where
  opsById : ExtTreeMap.Rel (Op.Veiled c) s.opsById s'.opsById
  tables : NestedMap.Rel (Op.Veiled c) s.tables s'.tables
  frontier : s.frontier = s'.frontier
  peerFrontiers : s.peerFrontiers = s'.peerFrontiers

structure BatchWrite.Veiled (c : Cipher) (b b' : BatchWrite) : Prop where
  ops : List.Forall₂ (Op.Veiled c) b.ops b'.ops
  winners : ExtTreeMap.Rel (Op.Veiled c) b.winners b'.winners
  frontier : b.frontier = b'.frontier

namespace MemoryAdapter.Veiled

variable {s s' : MemoryAdapter}

theorem hasOp (h : s.Veiled c s') (id : JsString) : s.hasOp id = s'.hasOp id :=
  h.opsById.contains_eq id

theorem allOps (h : s.Veiled c s') : List.Forall₂ (Op.Veiled c) s.allOps s'.allOps :=
  h.opsById.values.insertionSort fun hab hab' => by rw [hab.hlc, hab'.hlc]

theorem opsSince (h : s.Veiled c s') (f : Frontier) :
    List.Forall₂ (Op.Veiled c) (s.opsSince f) (s'.opsSince f) :=
  (h.opsById.values.filter fun hab => hab.aboveFrontier f).insertionSort
    fun hab hab' => by rw [hab.hlc, hab'.hlc]

theorem winner (h : s.Veiled c s') (x : Cell) : Option.Rel (Op.Veiled c) (s.winner x) (s'.winner x) :=
  h.tables.get _ _ _

theorem getRow (h : s.Veiled c s') (table row : JsString) :
    Option.Rel (ExtTreeMap.Rel (Op.Veiled c)) (s.getRow table row) (s'.getRow table row) := by
  unfold MemoryAdapter.getRow
  rcases ExtTreeMap.Rel.cases h.tables table with ⟨hs, hs'⟩ | ⟨rows, rows', hs, hs', hrows⟩
  · rw [hs, hs']
    exact .none
  · rw [hs, hs']
    exact hrows row

theorem listTables (h : s.Veiled c s') : s.listTables = s'.listTables :=
  ExtTreeMap.Rel.keys_eq h.tables

theorem listRows (h : s.Veiled c s') (table : JsString) :
    s.listRows table = s'.listRows table := by
  unfold MemoryAdapter.listRows
  rcases ExtTreeMap.Rel.cases h.tables table with ⟨hs, hs'⟩ | ⟨rows, rows', hs, hs', hrows⟩
  · rw [hs, hs']
  · rw [hs, hs']
    exact hrows.keys_eq

theorem setPeerFrontier (h : s.Veiled c s') (peer : JsString) (f : Frontier) :
    (s.setPeerFrontier peer f).Veiled c (s'.setPeerFrontier peer f) where
  opsById := h.opsById
  tables := h.tables
  frontier := h.frontier
  peerFrontiers := by
    unfold MemoryAdapter.setPeerFrontier
    simp only [h.peerFrontiers]

theorem compact (h : s.Veiled c s') (w : CompactionWrite) : (s.compact w).Veiled c (s'.compact w) where
  opsById := h.opsById.foldl_erase w.opIds
  tables := h.tables.removeAll _
  frontier := h.frontier
  peerFrontiers := h.peerFrontiers

theorem applyBatch (h : s.Veiled c s') {b b' : BatchWrite} (hb : b.Veiled c b') :
    (s.applyBatch b).Veiled c (s'.applyBatch b') where
  opsById := hb.ops.foldl (P := ExtTreeMap.Rel (Op.Veiled c)) (fun {m m' o o'} hm ho => by
    rw [ho.id]
    exact hm.insert _ ho) h.opsById
  tables := h.tables.setAll (List.rel_map (fun _ _ hxy =>
    ⟨congrArg (fun k => (splitKey k).1) hxy.1, congrArg (fun k => (splitKey k).2.1) hxy.1,
      congrArg (fun k => (splitKey k).2.2) hxy.1, hxy.2⟩) hb.winners.toList)
  frontier := hb.frontier
  peerFrontiers := h.peerFrontiers

end MemoryAdapter.Veiled

/-! ## Compaction -/

section Compaction

variable {s s' : MemoryAdapter} {ops ops' : List Op} {w w' : JsMap Op}

theorem winningCells_veiled (h : s.Veiled c s') :
    ExtTreeMap.Rel (Op.Veiled c) (winningCells s) (winningCells s') := by
  unfold winningCells
  rw [← h.listTables]
  refine List.Forall₂.foldl (P := ExtTreeMap.Rel (Op.Veiled c))
    (List.forall₂_flatMap_same (R := ExtTreeMap.EntryRel (Op.Veiled c)) _ fun table => ?_)
    (fun {m m' x y} hm hxy => ?_) .empty
  · rw [← h.listRows]
    refine List.forall₂_flatMap_same _ fun row => ?_
    have hcells : ExtTreeMap.Rel (Op.Veiled c) ((s.getRow table row).getD ∅)
        ((s'.getRow table row).getD ∅) :=
      (h.getRow table row).getD .empty
    exact List.rel_map (fun _ _ hxy => ⟨congrArg (cellKey table row) hxy.1, hxy.2⟩) hcells.toList
  · rw [hxy.1]
    exact hm.insert _ hxy.2

theorem winnerIds_veiled (hw : ExtTreeMap.Rel (Op.Veiled c) w w') : winnerIds w = winnerIds w' := by
  unfold winnerIds
  rw [hw.toList.map_eq fun hxy => hxy.2.id]

theorem doomedRows_veiled (ho : List.Forall₂ (Op.Veiled c) ops ops')
    (hw : ExtTreeMap.Rel (Op.Veiled c) w w') (horizon : Frontier) (opts : CompactionOptions) :
    doomedRows ops w horizon opts = doomedRows ops' w' horizon opts := by
  have hblocked : (ops.filter fun op => !below horizon op).map rowKeyOf =
      (ops'.filter fun op => !below horizon op).map rowKeyOf :=
    (ho.filter fun hab => by rw [hab.below]).map_eq fun hab => hab.rowKey
  unfold doomedRows
  simp only [hblocked]
  split
  · congr 2
    refine (hw.toList.filter fun {x y} hxy => ?_).map_eq fun hxy => congrArg beforeLastSep hxy.1
    rw [← hxy.2.column, hxy.2.below]
    by_cases hcol : x.2.column = tombstoneColumn
    · rw [hxy.2.tombstone hcol]
    · rw [beq_eq_false_iff_ne.2 hcol]
      rfl
  · rfl

/-- **The same plan**: compaction looks at no value but that of a tombstone. -/
theorem planCompaction_veiled (ho : List.Forall₂ (Op.Veiled c) ops ops')
    (hw : ExtTreeMap.Rel (Op.Veiled c) w w') (horizon : Frontier) (opts : CompactionOptions) :
    planCompaction ops w horizon opts = planCompaction ops' w' horizon opts := by
  have hpass : ∀ (doomed winners : JsSet) (p : Removals),
      ops.foldl (Removals.add doomed winners (below horizon)) p =
        ops'.foldl (Removals.add doomed winners (below horizon)) p := by
    intro doomed winners p
    refine ho.foldl (P := Eq) (fun {p q a b} hpq hab => ?_) rfl
    unfold Removals.add
    rw [hpq, hab.rowKey, hab.id, hab.table, hab.row, hab.column, hab.below]
  unfold planCompaction
  simp only
  rw [doomedRows_veiled ho hw, winnerIds_veiled hw, hpass, hw.keys_eq, ho.length_eq]

theorem compactStorage_veiled (h : s.Veiled c s') (opts : CompactionOptions) :
    (compactStorage s opts).1.Veiled c (compactStorage s' opts).1 ∧
      (compactStorage s opts).2 = (compactStorage s' opts).2 := by
  unfold compactStorage
  simp only
  rw [planCompaction_veiled h.allOps (winningCells_veiled h), h.frontier, h.peerFrontiers]
  refine ⟨?_, rfl⟩
  split
  · exact h.compact _
  · exact h

theorem compactionDue_veiled (h : s.Veiled c s') (opts : CompactionOptions) :
    compactionDue s opts = compactionDue s' opts := by
  unfold compactionDue
  simp only
  rw [planCompaction_veiled h.allOps (winningCells_veiled h), h.frontier, h.peerFrontiers]

end Compaction

/-! ## Reads -/

/-- The engine of a replica with the cipher `c` where the other has none. -/
structure SyncEngine.Veiled (c : Cipher) (e e' : SyncEngine) : Prop where
  storage : e.storage.Veiled c e'.storage
  clock : e.clock = e'.clock
  deviceKey : e.deviceKey = e'.deviceKey
  keys : e.keys = e'.keys
  subscribers : e.subscribers.map Subscriber.id = e'.subscribers.map Subscriber.id
  plain : e.cipher = none
  cipher : e'.cipher = some c

/-- Reading back the canonical text makes a null of a null only. -/
theorem Json.isNull_normal {v : Json} (hv : v.proper = true) : v.normal.isNull = v.isNull := by
  cases v with
  | null => rfl
  | bool _ => rfl
  | str _ => rfl
  | num n =>
    rw [Json.normal, Json.toDoc, dif_pos (show n.isFinite = true from hv)]
    rfl
  | arr xs =>
    rw [Json.normal_arr]
    rfl
  | obj fs =>
    obtain ⟨gs, hgs, -⟩ := Json.normal_obj (Json.proper_obj.1 hv).1
    rw [hgs]
    rfl

namespace SyncEngine

/-- The same columns, whose values have the same canonical text. -/
abbrev SameData : RowData → RowData → Prop :=
  ExtTreeMap.Rel fun v w => canonicalJson v = canonicalJson w

theorem materializeCells_veiled {l l' : List (JsString × Op)}
    (h : List.Forall₂ (ExtTreeMap.EntryRel (Op.Veiled c)) l l') (hl : ∀ x ∈ l, x.2.column = x.1)
    {out out' : RowData} (ho : SameData out out') :
    ∃ data data', materializeCells none l out = some data ∧
      materializeCells (some c) l' out' = some data' ∧ SameData data data' := by
  induction h generalizing out out' with
  | nil => exact ⟨out, out', rfl, rfl, ho⟩
  | @cons x y l l' hxy _ ih =>
    obtain ⟨column, a⟩ := x
    obtain ⟨_, b⟩ := y
    obtain ⟨rfl, hab⟩ := hxy
    have hcol : a.column = column := hl _ List.mem_cons_self
    replace ih := fun {out out' : RowData} => @ih (fun x hx => hl x (List.mem_cons_of_mem _ hx)) out out'
    unfold materializeCells
    by_cases htomb : column = tombstoneColumn
    · simp only [if_pos htomb]
      exact ih ho
    · have ha : plain none a = some a.value := rfl
      have hb : plain (some c) b = some a.value.normal := hab.plain (hcol ▸ htomb)
      simp only [if_neg htomb, ha, hb, Json.isNull_normal hab.proper]
      split
      · exact ih ho
      · exact ih (ho.insert column ((Json.same_normal _ hab.proper).canonical.2 hab.proper))

theorem materialize_veiled {cells cells' : JsMap Op}
    (h : ExtTreeMap.Rel (Op.Veiled c) cells cells')
    (hk : ∀ {column : JsString} {o : Op}, cells[column]? = some o → o.column = column)
    (row : JsString) :
    ∃ data data', materialize none row cells = some data ∧
      materialize (some c) row cells' = some data' ∧ SameData data data' := by
  have hempty : SameData ∅ ∅ := .empty
  obtain ⟨out, out', hd, hd', hs⟩ := materializeCells_veiled h.toList
    (fun x hx => hk (ExtTreeMap.mem_toList_iff_getElem?_eq_some.1 hx)) hempty
  unfold materialize
  rw [hd, hd']
  refine ⟨_, _, rfl, rfl, ?_⟩
  rcases hs.cases (js "id") with ⟨hn, hn'⟩ | ⟨v, w, hv, hw, -⟩
  · simp only [hn, hn']
    exact hs.insert _ rfl
  · simp only [hv, hw]
    exact hs

theorem isTombstoned_veiled {cells cells' : JsMap Op}
    (h : ExtTreeMap.Rel (Op.Veiled c) cells cells')
    (hk : ∀ {column : JsString} {o : Op}, cells[column]? = some o → o.column = column) :
    isTombstoned cells = isTombstoned cells' := by
  unfold isTombstoned
  rcases h.cases tombstoneColumn with ⟨hn, hn'⟩ | ⟨o, o', ho, ho', hoo⟩
  · rw [hn, hn']
  · rw [ho, ho']
    simp only [hoo.tombstone (hk ho)]

variable {e e' : SyncEngine}

/-- **`get` returns the same row.** -/
theorem get_veiled (h : e.Veiled c e') (hk : e.storage.Keyed) (table row : JsString) :
    ∃ found found', e.get table row = some found ∧ e'.get table row = some found' ∧
      Option.Rel SameData found found' := by
  have hcells : ∀ {cells : JsMap Op}, e.storage.getRow table row = some cells →
      ∀ {column : JsString} {o : Op}, cells[column]? = some o → o.column = column := by
    intro cells hrow column o ho
    have hw := getRow_getElem? e.storage table row column
    rw [hrow, Option.bind_some, ho] at hw
    exact congrArg (fun x => x.2.2) (hk.cells hw.symm)
  have hrow := h.storage.getRow table row
  unfold get
  rw [h.plain, h.cipher]
  cases hs : e.storage.getRow table row with
  | none =>
    cases hs' : e'.storage.getRow table row with
    | none => exact ⟨none, none, rfl, rfl, .none⟩
    | some cells' => rw [hs, hs'] at hrow; cases hrow
  | some cells =>
    cases hs' : e'.storage.getRow table row with
    | none => rw [hs, hs'] at hrow; cases hrow
    | some cells' =>
      rw [hs, hs'] at hrow
      cases hrow with
      | some hcc =>
        simp only [isTombstoned_veiled hcc (hcells hs)]
        split
        · exact ⟨none, none, rfl, rfl, .none⟩
        · obtain ⟨data, data', hd, hd', hsame⟩ := materialize_veiled hcc (hcells hs) row
          exact ⟨some data, some data', by rw [hd]; rfl, by rw [hd']; rfl, .some hsame⟩

theorem listVisible_veiled (h : e.Veiled c e') (hk : e.storage.Keyed) (table : JsString)
    (rows : List JsString) :
    ∃ shown shown', e.listVisible table rows = some shown ∧
      e'.listVisible table rows = some shown' ∧ List.Forall₂ SameData shown shown' := by
  induction rows with
  | nil => exact ⟨[], [], rfl, rfl, .nil⟩
  | cons row rows ih =>
    obtain ⟨shown, shown', hs, hs', hrest⟩ := ih
    obtain ⟨found, found', hg, hg', hrow⟩ := get_veiled h hk table row
    unfold listVisible
    rw [hg, hg', hs, hs']
    cases hrow with
    | none => exact ⟨shown, shown', rfl, rfl, hrest⟩
    | some hdata => exact ⟨_, _, rfl, rfl, .cons hdata hrest⟩

theorem list_veiled (h : e.Veiled c e') (hk : e.storage.Keyed) (table : JsString) :
    ∃ shown shown', e.list table = some shown ∧ e'.list table = some shown' ∧
      List.Forall₂ SameData shown shown' := by
  unfold list
  rw [← h.storage.listRows]
  exact listVisible_veiled h hk table _

/-- The same tables and rows. -/
structure DumpState.Same (d d' : DumpState) : Prop where
  state : ExtTreeMap.Rel (ExtTreeMap.Rel SameData) d.state d'.state
  inherited : d.inherited = d'.inherited

theorem DumpState.Same.put {d d' : DumpState} (h : d.Same d') (table row : JsString)
    {cols cols' : RowData} (hc : SameData cols cols') :
    (d.put table row cols).Same (d'.put table row cols') := by
  unfold DumpState.put
  rw [← h.inherited]
  rcases h.state.cases table with ⟨hn, hn'⟩ | ⟨rows, rows', hr, hr', hrows⟩
  · simp only [hn, hn']
    split
    · split
      · exact ⟨h.state, rfl⟩
      · exact h
    · exact ⟨h.state.insert table (ExtTreeMap.Rel.empty.insert row hc), rfl⟩
  · simp only [hr, hr']
    exact ⟨h.state.insert table (hrows.insert row hc), rfl⟩

theorem dumpRows_veiled (h : e.Veiled c e') (hk : e.storage.Keyed) (table : JsString)
    (rows : List JsString) {d d' : DumpState} (hd : d.Same d') :
    ∃ f f', e.dumpRows table rows d = some f ∧ e'.dumpRows table rows d' = some f' ∧ f.Same f' := by
  induction rows generalizing d d' with
  | nil => exact ⟨d, d', rfl, rfl, hd⟩
  | cons row rows ih =>
    obtain ⟨found, found', hg, hg', hrow⟩ := get_veiled h hk table row
    unfold dumpRows
    rw [hg, hg']
    cases hrow with
    | none => exact ih hd
    | some hdata => exact ih (hd.put table row (hdata.erase _))

theorem dumpTables_veiled (h : e.Veiled c e') (hk : e.storage.Keyed) (tables : List JsString)
    {d d' : DumpState} (hd : d.Same d') :
    ∃ f f', e.dumpTables tables d = some f ∧ e'.dumpTables tables d' = some f' ∧ f.Same f' := by
  induction tables generalizing d d' with
  | nil => exact ⟨d, d', rfl, rfl, hd⟩
  | cons table tables ih =>
    obtain ⟨f, f', hf, hf', hs⟩ :=
      dumpRows_veiled h hk table (sortStrings (e.storage.listRows table)) hd
    unfold dumpTables
    rw [← h.storage.listRows, hf, hf']
    exact ih hs

theorem dump_veiled (h : e.Veiled c e') (hk : e.storage.Keyed) (inherited : List JsString) :
    ∃ state state', e.dump inherited = some state ∧ e'.dump inherited = some state' ∧
      ExtTreeMap.Rel (ExtTreeMap.Rel SameData) state state' := by
  have hempty : DumpState.Same ⟨∅, inherited⟩ ⟨∅, inherited⟩ := ⟨.empty, rfl⟩
  obtain ⟨f, f', hf, hf', hs⟩ :=
    dumpTables_veiled h hk (sortStrings e.storage.listTables) hempty
  unfold dump
  rw [← h.storage.listTables, hf, hf']
  exact ⟨f.state, f'.state, rfl, rfl, hs.state⟩

end SyncEngine

end TangentFeed
