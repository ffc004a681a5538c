import TangentFeed.Adapters.Reads
import TangentFeed.Lib.Entries

/-!
# What a store has

`Contents` is the log by id, the cells, the frontier and the clock of a store, as its reads
answer. Each single write of an adapter changes one entry of it, so a call that makes them all
leaves `putAll`, `addAll` or `dropAll` of what was there: the in-memory store and IndexedDB put
operations over each other, SQLite inserts them unless their id is taken.
-/

namespace TangentFeed

open Entries

/-- The log by id, the cells, the frontier and the clock of a store. -/
@[ext] structure Contents where
  op : JsString → Option Json
  cell : Cell → Option Json
  frontier : Frontier
  clock : Option ClockState

def MemoryAdapter.contents (s : MemoryAdapter) : Contents where
  op id := s.opsById[id]?.map Op.raw
  cell c := (s.getWinner c.1 c.2.1 c.2.2).map Op.raw
  frontier := s.frontier
  clock := s.clock

def SqliteDb.contents (db : SqliteDb) : Contents where
  op id := db.ops[id]?.map OpRow.toOp
  cell c := db.getWinner c.1 c.2.1 c.2.2
  frontier := db.getFrontier
  clock := db.getClock

def IdbStores.contents (s : IdbStores) : Contents where
  op id := s.ops[id]?.map Op.raw
  cell c := (s.getWinner c.1 c.2.1 c.2.2).map Op.raw
  frontier := s.getFrontier
  clock := s.getClock

/-- A store of one of the adapters. -/
inductive Stored where
  | memory (s : MemoryAdapter)
  | sqlite (db : SqliteDb)
  | idb (s : IdbStores)

namespace Stored

def contents : Stored → Contents
  | memory s => s.contents
  | sqlite db => db.contents
  | idb s => s.contents

def reads : Stored → Reads
  | memory s => s.reads
  | sqlite db => db.reads
  | idb s => s.reads

/-- The values of a map. -/
theorem mem_map_values {β : Type} (m : JsMap β) (f : β → Json) {j : Json} :
    j ∈ (m.toList.map Prod.snd).map f ↔ ∃ id : JsString, m[id]?.map f = some j := by
  rw [List.map_map, List.mem_map, Prod.exists]
  simp only [Option.map_eq_some_iff, Std.ExtTreeMap.mem_toList_iff_getElem?_eq_some,
    Function.comp_apply]

/-- **The contents are what the reads answer.** -/
theorem reads_contents (s : Stored) :
    (∀ id, s.reads.hasOp id = (s.contents.op id).isSome) ∧
      (∀ j, j ∈ s.reads.allOps ↔ ∃ id, s.contents.op id = some j) ∧
      (∀ t r c, s.reads.getWinner t r c = s.contents.cell (t, r, c)) ∧
      s.reads.getFrontier = s.contents.frontier ∧ s.reads.getClock = s.contents.clock := by
  have hasOp {β : Type} (m : JsMap β) (f : β → Json) (id : JsString) :
      m.contains id = (m[id]?.map f).isSome := by
    rw [Option.isSome_map, Std.ExtTreeMap.contains_eq_isSome_getElem?]
  cases s with
  | memory s =>
    refine ⟨hasOp s.opsById Op.raw, fun j => ?_, fun _ _ _ => rfl, rfl, rfl⟩
    have hperm : s.allOps.Perm (s.opsById.toList.map Prod.snd) := List.perm_insertionSort ..
    change j ∈ s.allOps.map Op.raw ↔ _
    rw [(hperm.map Op.raw).mem_iff]
    exact mem_map_values s.opsById Op.raw
  | sqlite db => exact ⟨hasOp db.ops OpRow.toOp, fun j => mem_map_values db.ops OpRow.toOp,
      fun _ _ _ => rfl, rfl, rfl⟩
  | idb s => exact ⟨hasOp s.ops Op.raw, fun j => mem_map_values s.ops Op.raw,
      fun _ _ _ => rfl, rfl, rfl⟩

end Stored

/-! ## Cell keys -/

/-- Keys that name legal cells. -/
def CellKeys (keys : List JsString) : Prop :=
  ∀ k ∈ keys, ∃ c : Cell, Legal c ∧ k = cellKey c.1 c.2.1 c.2.2

theorem count_cellKey (table row column : JsString) : (cellKey table row column).count sep =
    table.count sep + row.count sep + column.count sep + 2 := by
  unfold cellKey
  simp only [List.count_append, List.count_cons_self]
  omega

/-- Only its own names spell the key of a cell. -/
theorem cell_eq_of_key {c d : Cell} (hd : Legal d)
    (h : cellKey c.1 c.2.1 c.2.2 = cellKey d.1 d.2.1 d.2.2) : c = d := by
  have hcount := congrArg (List.count sep) h
  rw [count_cellKey, count_cellKey, List.count_eq_zero.2 hd.table, List.count_eq_zero.2 hd.row,
    List.count_eq_zero.2 hd.column] at hcount
  refine cellKey_inj ⟨?_, ?_, ?_⟩ hd h
  · exact List.count_eq_zero.1 (by omega)
  · exact List.count_eq_zero.1 (by omega)
  · exact List.count_eq_zero.1 (by omega)

/-- A key that names a legal cell is the key of the cell it splits into, and of no other. -/
theorem CellKeys.key_eq_iff {keys : List JsString} (h : CellKeys keys) {k : JsString}
    (hk : k ∈ keys) {c : Cell} : k = cellKey c.1 c.2.1 c.2.2 ↔ splitKey k = c := by
  obtain ⟨d, hd, rfl⟩ := h k hk
  rw [splitKey_cellKey hd]
  exact ⟨fun h => (cell_eq_of_key hd h.symm).symm, fun h => by rw [h]⟩

theorem CellKeys.splitKey_inj {keys : List JsString} (h : CellKeys keys) {k k' : JsString}
    (hk : k ∈ keys) (hk' : k' ∈ keys) (he : splitKey k = splitKey k') : k = k' :=
  ((h.key_eq_iff hk).2 he).trans ((h.key_eq_iff hk').2 rfl).symm

theorem CellKeys.of_cons {k : JsString} {keys : List JsString} (h : CellKeys (k :: keys)) :
    CellKeys keys := fun k' hk' => h k' (List.mem_cons_of_mem _ hk')

/-! ## Single writes, one after the other -/

section Reading

variable {ι κ β γ : Type} [DecidableEq ι] [Ord κ] [Std.TransOrd κ] [Std.LawfulEqOrd κ]
  [DecidableEq κ] {m : Std.ExtTreeMap κ β compare} {key : ι → κ} {f : β → γ} {k : κ} {a : ι}

/-- What is read of a map through `key` after one entry is set, -/
theorem read_insert (h : ∀ c, k = key c ↔ a = c) (x : β) :
    (fun c => (m.insert k x)[key c]?.map f) =
      Function.update (fun c => m[key c]?.map f) a (some (f x)) := by
  funext c
  rw [Std.ExtTreeMap.getElem?_insert_eq, Function.update_apply]
  by_cases hc : k = key c
  · rw [if_pos hc, if_pos ((h c).1 hc).symm]
    rfl
  · rw [if_neg hc, if_neg fun he => hc ((h c).2 he.symm)]

/-- or erased. -/
theorem read_erase (h : ∀ c, k = key c ↔ a = c) :
    (fun c => (m.erase k)[key c]?.map f) = Function.update (fun c => m[key c]?.map f) a none := by
  funext c
  rw [Std.ExtTreeMap.getElem?_erase_eq, Function.update_apply]
  by_cases hc : k = key c
  · rw [if_pos hc, if_pos ((h c).1 hc).symm]
    rfl
  · rw [if_neg hc, if_neg fun he => hc ((h c).2 he.symm)]

end Reading

/-- The entries of a list of operations. -/
def opEntries (ops : List Op) : List (JsString × Json) := ops.map fun o => (o.id, o.raw)

/-- The rows they are inserted as. -/
def rowEntries (ops : List Op) : List (JsString × Json) :=
  ops.map fun o => (o.id, (OpRow.ofOp o).toOp)

/-- The entries of a list of winners. -/
def cellEntries (f : Json → Json) (winners : List (JsString × Op)) : List (Cell × Json) :=
  winners.map fun x => (splitKey x.1, f x.2.raw)

namespace MemoryAdapter

theorem contents_insertOps (m : JsMap Op) (ops : List Op) :
    (fun id : JsString => (ops.foldl (fun m o => m.insert o.id o) m)[id]?.map Op.raw) =
      putAll (fun id : JsString => m[id]?.map Op.raw) (opEntries ops) := by
  induction ops generalizing m with
  | nil => rfl
  | cons o ops ih =>
    refine (ih (m.insert o.id o)).trans (congrArg (putAll · (opEntries ops)) ?_)
    exact read_insert (fun _ => Iff.rfl) o

theorem contents_setAll (winners : List (JsString × Op))
    (tables : NestedMap JsString JsString JsString Op) :
    (fun c : Cell => ((tables.setAll (winners.map fun (key, op) =>
        ((splitKey key).1, (splitKey key).2.1, (splitKey key).2.2, op))).get c.1 c.2.1 c.2.2).map
          Op.raw) =
      putAll (fun c : Cell => (tables.get c.1 c.2.1 c.2.2).map Op.raw) (cellEntries id winners) := by
  induction winners generalizing tables with
  | nil => rfl
  | cons x winners ih =>
    obtain ⟨key, op⟩ := x
    have hstep : (fun c : Cell => ((tables.set (splitKey key).1 (splitKey key).2.1
          (splitKey key).2.2 op).get c.1 c.2.1 c.2.2).map Op.raw) =
        Function.update (fun c : Cell => (tables.get c.1 c.2.1 c.2.2).map Op.raw) (splitKey key)
          (some op.raw) := by
      funext c
      rw [NestedMap.get_set, Function.update_apply]
      by_cases h : splitKey key = c
      · subst h
        rw [if_pos ⟨rfl, rfl, rfl⟩, if_pos rfl]
        rfl
      · rw [if_neg fun he => h (Prod.ext he.1 (Prod.ext he.2.1 he.2.2)), if_neg (Ne.symm h)]
    exact (ih _).trans (congrArg (putAll · (cellEntries id winners)) hstep)

theorem contents_applyBatch (s : MemoryAdapter) (b : BatchWrite) :
    (s.applyBatch b).contents =
      ⟨putAll s.contents.op (opEntries b.ops),
        putAll s.contents.cell (cellEntries id b.winners.toList), b.frontier, some b.clock⟩ :=
  Contents.ext (contents_insertOps s.opsById b.ops) (contents_setAll b.winners.toList s.tables)
    rfl rfl

theorem contents_compact (s : MemoryAdapter) (w : CompactionWrite) :
    (s.compact w).contents =
      { s.contents with
        op := dropAll s.contents.op w.opIds
        cell := dropAll s.contents.cell (w.cellKeys.map splitKey) } := by
  refine Contents.ext ?_ ?_ rfl rfl
  · funext id
    change (w.opIds.foldl (fun m id => m.erase id) s.opsById)[id]?.map Op.raw = dropAll _ _ id
    rw [Std.ExtTreeMap.getElem?_foldl_erase, dropAll_apply]
    split
    · rfl
    · rfl
  · funext c
    change ((s.tables.removeAll (w.cellKeys.map splitKey)).get c.1 c.2.1 c.2.2).map Op.raw =
      dropAll _ _ c
    rw [NestedMap.get_removeAll, dropAll_apply]
    split
    · rfl
    · rfl

end MemoryAdapter

namespace SqliteDb

theorem contents_insertOps (ops : List Op) (db : SqliteDb) :
    ((ops.map insertOp).foldl (fun db f => f db) db).contents =
      { db.contents with op := addAll db.contents.op (rowEntries ops) } := by
  induction ops generalizing db with
  | nil => rfl
  | cons o ops ih =>
    have hstep : (insertOp o db).contents = { db.contents with
        op := if (db.contents.op o.id).isSome then db.contents.op
          else Function.update db.contents.op o.id (some (OpRow.ofOp o).toOp) } := by
      have hlogged : (db.contents.op o.id).isSome = db.ops.contains o.id := by
        rw [Std.ExtTreeMap.contains_eq_isSome_getElem?]
        exact Option.isSome_map ..
      rw [hlogged]
      unfold insertOp
      split
      · rfl
      · exact Contents.ext (read_insert (fun _ => Iff.rfl) _) rfl rfl rfl
    rw [List.map_cons, List.foldl_cons, ih, hstep]
    rfl

/-- The row of a cell among the others. -/
theorem primaryKey_eq_iff {key : JsString} {c : Cell} :
    primaryKey key = [c.1, c.2.1, c.2.2] ↔ splitKey key = c := by
  unfold primaryKey
  simp only [List.cons.injEq, and_true]
  exact ⟨fun h => Prod.ext h.1 (Prod.ext h.2.1 h.2.2), fun h => by rw [h]; exact ⟨rfl, rfl, rfl⟩⟩

theorem cell_contents (db : SqliteDb) :
    db.contents.cell = fun c : Cell => db.cells[[c.1, c.2.1, c.2.2]]?.map id :=
  funext fun _ => (Option.map_id_apply).symm

theorem contents_upsertCells (winners : List (JsString × Op)) (db : SqliteDb) :
    ((winners.map fun (key, op) => upsertCell key op).foldl (fun db f => f db) db).contents =
      { db.contents with cell := putAll db.contents.cell (cellEntries Json.reparsed winners) } := by
  induction winners generalizing db with
  | nil => rfl
  | cons x winners ih =>
    obtain ⟨key, op⟩ := x
    have hstep : (upsertCell key op db).contents = { db.contents with
        cell := Function.update db.contents.cell (splitKey key) (some op.raw.reparsed) } := by
      refine Contents.ext rfl ?_ rfl rfl
      rw [cell_contents, cell_contents]
      exact read_insert (fun _ => primaryKey_eq_iff) _
    refine (ih (upsertCell key op db)).trans ?_
    rw [hstep]
    rfl

theorem contents_deleteOps (ids : List JsString) (db : SqliteDb) :
    ((ids.map deleteOp).foldl (fun db f => f db) db).contents =
      { db.contents with op := dropAll db.contents.op ids } := by
  induction ids generalizing db with
  | nil => rfl
  | cons id ids ih =>
    have hstep : (deleteOp id db).contents = { db.contents with
        op := Function.update db.contents.op id none } :=
      Contents.ext (read_erase fun _ => Iff.rfl) rfl rfl rfl
    rw [List.map_cons, List.foldl_cons, ih, hstep]
    rfl

theorem contents_deleteCells (keys : List JsString) (db : SqliteDb) :
    ((keys.map deleteCell).foldl (fun db f => f db) db).contents =
      { db.contents with cell := dropAll db.contents.cell (keys.map splitKey) } := by
  induction keys generalizing db with
  | nil => rfl
  | cons key keys ih =>
    have hstep : (deleteCell key db).contents = { db.contents with
        cell := Function.update db.contents.cell (splitKey key) none } := by
      refine Contents.ext rfl ?_ rfl rfl
      rw [cell_contents, cell_contents]
      exact read_erase fun _ => primaryKey_eq_iff
    rw [List.map_cons, List.foldl_cons, ih, hstep]
    rfl

end SqliteDb

namespace IdbStores

theorem contents_putOps (ops : List Op) (s : IdbStores) :
    ((ops.map putOp).foldl (fun s f => f s) s).contents =
      { s.contents with op := putAll s.contents.op (opEntries ops) } := by
  induction ops generalizing s with
  | nil => rfl
  | cons o ops ih =>
    have hstep : (putOp o s).contents = { s.contents with
        op := Function.update s.contents.op o.id (some o.raw) } :=
      Contents.ext (read_insert (fun _ => Iff.rfl) o) rfl rfl rfl
    rw [List.map_cons, List.foldl_cons, ih, hstep]
    rfl

theorem contents_putCells (winners : List (JsString × Op)) (s : IdbStores)
    (hk : CellKeys (winners.map Prod.fst)) :
    ((winners.map fun (key, op) => putCell key op).foldl (fun s f => f s) s).contents =
      { s.contents with cell := putAll s.contents.cell (cellEntries id winners) } := by
  induction winners generalizing s with
  | nil => rfl
  | cons x winners ih =>
    obtain ⟨key, op⟩ := x
    have hstep : (putCell key op s).contents = { s.contents with
        cell := Function.update s.contents.cell (splitKey key) (some op.raw) } :=
      Contents.ext rfl (read_insert (fun _ => hk.key_eq_iff List.mem_cons_self) op) rfl rfl
    refine (ih (putCell key op s) hk.of_cons).trans ?_
    rw [hstep]
    rfl

theorem contents_deleteOps (ids : List JsString) (s : IdbStores) :
    ((ids.map deleteOp).foldl (fun s f => f s) s).contents =
      { s.contents with op := dropAll s.contents.op ids } := by
  induction ids generalizing s with
  | nil => rfl
  | cons id ids ih =>
    have hstep : (deleteOp id s).contents = { s.contents with
        op := Function.update s.contents.op id none } :=
      Contents.ext (read_erase fun _ => Iff.rfl) rfl rfl rfl
    rw [List.map_cons, List.foldl_cons, ih, hstep]
    rfl

theorem contents_deleteCells (keys : List JsString) (s : IdbStores) (hk : CellKeys keys) :
    ((keys.map deleteCell).foldl (fun s f => f s) s).contents =
      { s.contents with cell := dropAll s.contents.cell (keys.map splitKey) } := by
  induction keys generalizing s with
  | nil => rfl
  | cons key keys ih =>
    have hstep : (deleteCell key s).contents = { s.contents with
        cell := Function.update s.contents.cell (splitKey key) none } :=
      Contents.ext rfl (read_erase fun _ => hk.key_eq_iff List.mem_cons_self) rfl rfl
    rw [List.map_cons, List.foldl_cons, ih _ hk.of_cons, hstep]
    rfl

end IdbStores

/-! ## What a call must leave -/

/-- The eight fields of an operation, each as canonical JSON. -/
def opText (op : Json) : List (Option JsString) := opFields.map fun k => (op.get? k).map canonicalJson

/-- A row gives the fields of the operation back. -/
theorem opText_toOp (op : Op) : opText (OpRow.ofOp op).toOp = opText op.raw := by
  have hstr : ∀ k ∈ stringFields, op.raw.get? k = some (.str (op.raw.getStr k)) :=
    fun k hk => getStr_of_mem op hk
  have hvalue : canonicalJson op.value.reparsed = canonicalJson op.value :=
    canonicalJson_reparsed op.value
  unfold opText opFields
  simp only [List.map_cons, List.map_nil]
  rw [hstr (js "id") (by decide), hstr (js "table") (by decide), hstr (js "row") (by decide),
    hstr (js "column") (by decide), hstr (js "hlc") (by decide), hstr (js "device") (by decide),
    hstr (js "sig") (by decide), value_of_mem op]
  simp only [Option.map_some]
  rw [← hvalue]
  rfl

/-- What is there after a batch: its operations in the log, its winners in their cells, its
frontier and clock, and all else as before. -/
structure BatchDone (b : BatchWrite) (k k' : Contents) : Prop where
  ops : ∀ o ∈ b.ops, (k'.op o.id).map opText = some (opText o.raw)
  winners : ∀ x ∈ b.winners.toList,
    (k'.cell (splitKey x.1)).map canonicalJson = some (canonicalJson x.2.raw)
  frontier : k'.frontier = b.frontier
  clock : k'.clock = some b.clock
  otherOps : ∀ id, (∀ o ∈ b.ops, o.id ≠ id) → k'.op id = k.op id
  otherCells : ∀ c, (∀ x ∈ b.winners.toList, splitKey x.1 ≠ c) → k'.cell c = k.cell c

/-- What is there after a compaction: none of the operations and cells it names, and all else
as before. -/
structure CompactionDone (w : CompactionWrite) (k k' : Contents) : Prop where
  ops : ∀ id ∈ w.opIds, k'.op id = none
  cells : ∀ key ∈ w.cellKeys, k'.cell (splitKey key) = none
  frontier : k'.frontier = k.frontier
  clock : k'.clock = k.clock
  otherOps : ∀ id, id ∉ w.opIds → k'.op id = k.op id
  otherCells : ∀ c, (∀ key ∈ w.cellKeys, splitKey key ≠ c) → k'.cell c = k.cell c

def Write.Done : Write → Contents → Contents → Prop
  | batch b => BatchDone b
  | compaction w => CompactionDone w

/-- The operations of a list with one id are one. -/
def OneEach (ops : List Op) : Prop :=
  ∀ o ∈ ops, ∀ p ∈ ops, o.id = p.id → opText o.raw = opText p.raw

/-- What the log has under the id of one of them is that one. -/
def NoOther (ops : List Op) (k : Contents) : Prop :=
  ∀ o ∈ ops, ∀ j, k.op o.id = some j → opText j = opText o.raw

/-- The cell keys of a call. -/
def Write.cellKeys : Write → List JsString
  | batch b => b.winners.toList.map Prod.fst
  | compaction w => w.cellKeys

section

variable {b : BatchWrite} {k : Contents}

/-- The cells of the winners are as many. -/
theorem nodup_cellEntries {winners : List (JsString × Op)} (hn : (winners.map Prod.fst).Nodup)
    (hk : CellKeys (winners.map Prod.fst)) (f : Json → Json) :
    ((cellEntries f winners).map Prod.fst).Nodup := by
  have hsplit : (cellEntries f winners).map Prod.fst = (winners.map Prod.fst).map splitKey := by
    unfold cellEntries
    rw [List.map_map, List.map_map]
    rfl
  rw [hsplit]
  exact hn.map_on fun a ha b hb he => hk.splitKey_inj ha hb he

theorem nodup_winners (b : BatchWrite) : (b.winners.toList.map Prod.fst).Nodup := by
  rw [Std.ExtTreeMap.map_fst_toList_eq_keys]
  exact Std.ExtTreeMap.nodup_keys

/-- Winners that are put over each other are there, and no other cell has changed. -/
theorem cells_putAll (hk : CellKeys (b.winners.toList.map Prod.fst)) {f : Json → Json}
    (hf : ∀ j, canonicalJson (f j) = canonicalJson j) :
    (∀ x ∈ b.winners.toList,
      (putAll k.cell (cellEntries f b.winners.toList) (splitKey x.1)).map canonicalJson =
        some (canonicalJson x.2.raw)) ∧
    ∀ c, (∀ x ∈ b.winners.toList, splitKey x.1 ≠ c) →
      putAll k.cell (cellEntries f b.winners.toList) c = k.cell c := by
  refine ⟨fun x hx => ?_, fun c hc => putAll_of_notMem fun y hy => ?_⟩
  · rw [putAll_of_mem (nodup_cellEntries (nodup_winners b) hk f) (List.mem_map_of_mem hx),
      Option.map_some, hf]
  · obtain ⟨x, hx, rfl⟩ := List.mem_map.1 hy
    exact hc x hx

/-- **Put over each other**, the operations are all there if those with one id are one. -/
theorem batchDone_putAll (hk : CellKeys (b.winners.toList.map Prod.fst)) :
    BatchDone b k ⟨putAll k.op (opEntries b.ops),
        putAll k.cell (cellEntries id b.winners.toList), b.frontier, some b.clock⟩ ↔
      OneEach b.ops := by
  have hput : ∀ o ∈ b.ops, ∃ p ∈ b.ops, p.id = o.id ∧
      putAll k.op (opEntries b.ops) o.id = some p.raw := fun o ho => by
    obtain ⟨j, hj, hput⟩ := exists_putAll (f := k.op) (l := opEntries b.ops)
      ⟨_, List.mem_map_of_mem ho, rfl⟩
    obtain ⟨p, hp, he⟩ := List.mem_map.1 hj
    obtain ⟨hid, rfl⟩ := Prod.mk.inj he
    exact ⟨p, hp, hid, hput⟩
  constructor
  · intro h o ho p hp hid
    have h1 := h.ops o ho
    rw [hid] at h1
    exact Option.some.inj (h1.symm.trans (h.ops p hp))
  · intro h
    obtain ⟨hcells, hother⟩ := cells_putAll (k := k) hk fun _ => rfl
    refine ⟨fun o ho => ?_, hcells, rfl, rfl, fun id hid => putAll_of_notMem fun x hx => ?_, hother⟩
    · obtain ⟨p, hp, hid, he⟩ := hput o ho
      change (putAll k.op (opEntries b.ops) o.id).map opText = _
      rw [he]
      exact congrArg some (h p hp o ho hid)
    · obtain ⟨o, ho, rfl⟩ := List.mem_map.1 hx
      exact hid o ho

/-- **Inserted unless their id is taken**, they are all there if in addition no other operation
has the id of one. -/
theorem batchDone_addAll (hk : CellKeys (b.winners.toList.map Prod.fst)) :
    BatchDone b k ⟨addAll k.op (rowEntries b.ops),
        putAll k.cell (cellEntries Json.reparsed b.winners.toList), b.frontier, some b.clock⟩ ↔
      OneEach b.ops ∧ NoOther b.ops k := by
  constructor
  · intro h
    refine ⟨fun o ho p hp hid => ?_, fun o ho j hj => ?_⟩
    · have h1 := h.ops o ho
      rw [hid] at h1
      exact Option.some.inj (h1.symm.trans (h.ops p hp))
    · have h1 : (addAll k.op (rowEntries b.ops) o.id).map opText = _ := h.ops o ho
      rw [addAll_of_some hj] at h1
      exact Option.some.inj h1
  · rintro ⟨hone, hother⟩
    obtain ⟨hcells, hrest⟩ := cells_putAll (k := k) hk canonicalJson_reparsed
    refine ⟨fun o ho => ?_, hcells, rfl, rfl, fun id hid => addAll_of_notMem fun x hx => ?_, hrest⟩
    · change (addAll k.op (rowEntries b.ops) o.id).map opText = _
      cases hlogged : k.op o.id with
      | some j =>
        rw [addAll_of_some hlogged]
        exact congrArg some (hother o ho j hlogged)
      | none =>
        obtain ⟨j, hj, hadd⟩ := exists_addAll (l := rowEntries b.ops) hlogged
          ⟨_, List.mem_map_of_mem ho, rfl⟩
        obtain ⟨p, hp, he⟩ := List.mem_map.1 hj
        obtain ⟨hid, rfl⟩ := Prod.mk.inj he
        rw [hadd, Option.map_some, opText_toOp]
        exact congrArg some (hone p hp o ho hid)
    · obtain ⟨o, ho, rfl⟩ := List.mem_map.1 hx
      exact hid o ho

theorem compactionDone_dropAll (w : CompactionWrite) (k : Contents) :
    CompactionDone w k { k with
      op := dropAll k.op w.opIds
      cell := dropAll k.cell (w.cellKeys.map splitKey) } where
  ops id h := dropAll_apply.trans (if_pos h)
  cells key h := dropAll_apply.trans (if_pos (List.mem_map_of_mem h))
  frontier := rfl
  clock := rfl
  otherOps id h := dropAll_apply.trans (if_neg h)
  otherCells c h := dropAll_apply.trans (if_neg fun hc => by
    obtain ⟨key, hkey, rfl⟩ := List.mem_map.1 hc
    exact h key hkey rfl)

end

end TangentFeed
