import TangentFeed.Adapters.Atomic
import TangentFeed.Adapters.Reads
import TangentFeed.Replica.Ledger

/-!
# The adapters simulate the in-memory one

`OnSqlite` and `OnIdb` tie a store to the in-memory one that was called in the
same way; every call the engine makes keeps them.
-/

namespace TangentFeed

open PromiseChain Std Lww SyncEngine

/-- A call that changes a store. -/
inductive StoreCall where
  | write (w : Write)
  | setPeerFrontier (peer : JsString) (frontier : Frontier)

/-- No write fails. -/
def never : Nat → Bool := fun _ => false

def MemoryAdapter.make (s : MemoryAdapter) : StoreCall → MemoryAdapter
  | .write w => (s.write never w).2
  | .setPeerFrontier peer f => ((setPeerFrontierBody peer f).run s).1

def SqliteDb.make (db : SqliteDb) : StoreCall → SqliteDb
  | .write w => (db.write never w).2
  | .setPeerFrontier peer f => ((setPeerFrontier peer f).run db).1

def IdbStores.make (s : IdbStores) : StoreCall → IdbStores
  | .write w => (s.write ⟨never, never⟩ w).2
  | .setPeerFrontier peer f => ((setPeerFrontier peer f).run s).1

/-- A batch as the engine builds it. -/
structure BuiltBatch (s : MemoryAdapter) (b : BatchWrite) : Prop where
  nodup : (b.ops.map Op.id).Nodup
  new : ∀ o ∈ b.ops, s.hasOp o.id = false
  fields : ∀ o ∈ b.ops, EightFields o
  keyed : ∀ {k : JsString} {o : Op}, b.winners[k]? = some o → k = cellKey o.table o.row o.column

/-- A call as the engine makes it. -/
def Built (s : MemoryAdapter) : StoreCall → Prop
  | .write (.batch b) => BuiltBatch s b
  | .write (.compaction w) => CellKeys w.cellKeys
  | .setPeerFrontier _ _ => True

/-- The batch of `commit` is one, -/
theorem builtBatch_commitBatch {s : MemoryAdapter} (hk : s.Keyed) {ops : List Op} (hn : New s ops)
    (hf : ∀ o ∈ ops, EightFields o) (clock : ClockState) : BuiltBatch s (commitBatch s ops clock) where
  nodup := hn.nodup
  new := hn.notLogged
  fields := hf
  keyed {k o} h := by
    have hp : Pending s (commitBatch s ops clock).winners (putAll cellScheme s.winner ops) :=
      Pending.foldl hk ops
        (show Pending s ((∅ : JsMap Op), s.frontier).1 s.winner from Pending.empty s)
    exact hp.keys h

/-! ## Without failures -/

theorem attempt_never {σ : Type} (steps : List (σ → σ)) (n : Nat) (s : σ) :
    attempt never steps n s = some (steps.foldl (fun s f => f s) s) := by
  induction steps generalizing n s with
  | nil => rfl
  | cons f rest ih =>
    unfold attempt
    exact ih (n + 1) (f s)

theorem MemoryAdapter.write_never (s : MemoryAdapter) (w : Write) :
    (s.write never w).2 = s.afterAll w := by
  rcases s.write_cases never w with ⟨-, n, -, h⟩ | ⟨h, -⟩
  · cases h
  · rw [h]

theorem SqliteDb.write_never (db : SqliteDb) (w : Write) :
    (db.write never w).2 = (statements w).foldl (fun db f => f db) db := by
  have hok : (transaction never (statements w) db).1 = true :=
    (transaction_fst never (statements w) db).2 fun ⟨_, _, h⟩ => (nomatch h)
  unfold write
  rcases transaction_cases never (statements w) db with h | h
  · rw [h] at hok
    cases hok
  · rw [h]

theorem IdbStores.write_never (s : IdbStores) (w : Write) :
    (s.write ⟨never, never⟩ w).2 = (requests w).foldl (fun s f => f s) s := by
  have hq : queue never (requests w) 0 = (true, requests w) := queue_of_not_throws fun _ _ => rfl
  unfold write
  simp only [hq, attempt_never]

/-! ## The in-memory store -/

/-- What every store the engine wrote satisfies. -/
structure Stocked (s : MemoryAdapter) : Prop where
  keyed : s.Keyed
  fields : ∀ o ∈ s.log, EightFields o

theorem Stocked.empty : Stocked .empty where
  keyed := .empty
  fields o ho := by
    rw [MemoryAdapter.log_empty] at ho
    cases ho

theorem MemoryAdapter.make_batch (s : MemoryAdapter) (b : BatchWrite) :
    s.make (.write (.batch b)) = s.applyBatch b := s.write_never (.batch b)

theorem MemoryAdapter.make_compaction (s : MemoryAdapter) (w : CompactionWrite) :
    s.make (.write (.compaction w)) = s.compact w := s.write_never (.compaction w)

theorem Stocked.make {s : MemoryAdapter} (hs : Stocked s) {call : StoreCall} (h : Built s call) :
    Stocked (s.make call) := by
  cases call with
  | write w =>
    cases w with
    | batch b =>
      rw [s.make_batch]
      have h : BuiltBatch s b := h
      obtain ⟨hlog, hids⟩ := MemoryAdapter.log_applyBatch hs.keyed h.nodup h.new
      refine ⟨⟨hids, ?_, hs.keyed.tight.setAll _⟩, ?_⟩
      · intro c o hc
        by_cases hl : Legal c
        · rw [MemoryAdapter.winner_applyBatch h.keyed hl] at hc
          cases hb : b.winners[cellKey c.1 c.2.1 c.2.2]? with
          | none =>
            rw [hb, Option.none_or] at hc
            exact hs.keyed.cells hc
          | some p =>
            rw [hb, Option.some_or] at hc
            obtain rfl := Option.some.inj hc
            exact (cellKey_inj hl p.legal (h.keyed hb)).symm
        · rw [MemoryAdapter.winner_applyBatch_of_not_legal h.keyed hl] at hc
          exact hs.keyed.cells hc
      · intro o ho
        rw [hlog] at ho
        rcases ho with ho | ho
        · exact hs.fields o ho
        · exact h.fields o ho
    | compaction w =>
      rw [s.make_compaction]
      refine ⟨hs.keyed.compact w, fun o ho => ?_⟩
      rw [MemoryAdapter.log_compact] at ho
      exact hs.fields o ho.1
  | setPeerFrontier peer f =>
    have hk := hs.keyed
    exact ⟨⟨fun h => hk.ids h, fun h => hk.cells h, hk.tight⟩, hs.fields⟩

/-! ## SQLite -/

/-- The rows of `cells` for the cells of `tables`. -/
def CellRows (tables : NestedMap JsString JsString JsString Op)
    (cells : ExtTreeMap (List JsString) Json compare) : Prop :=
  (∀ t r c : JsString, cells[[t, r, c]]? = (tables.get t r c).map fun o => o.raw.reparsed) ∧
    ∀ k : List JsString, (∀ t r c, k ≠ [t, r, c]) → cells[k]? = none

structure OnSqlite (s : MemoryAdapter) (db : SqliteDb) : Prop where
  ops : db.ops = s.opsById.map fun _ => OpRow.ofOp
  cells : CellRows s.tables db.cells
  frontier : db.getFrontier = s.frontier
  clock : db.getClock = s.clock
  peers : db.getPeerFrontiers = s.peerFrontiers

theorem OnSqlite.empty : OnSqlite .empty .empty where
  ops := by
    apply ExtTreeMap.ext_getElem?
    intro k
    rw [ExtTreeMap.getElem?_map]
    change (∅ : JsMap OpRow)[k]? = ((∅ : JsMap Op)[k]?).map _
    rw [ExtTreeMap.getElem?_empty, ExtTreeMap.getElem?_empty]
    rfl
  cells := by
    refine ⟨fun t r c => ?_, fun k _ => ExtTreeMap.getElem?_empty⟩
    change (∅ : ExtTreeMap (List JsString) Json compare)[[t, r, c]]? =
      (NestedMap.get (∅ : NestedMap JsString JsString JsString Op) t r c).map _
    rw [ExtTreeMap.getElem?_empty, NestedMap.get_empty]
    rfl
  frontier := rfl
  clock := rfl
  peers := rfl

theorem CellRows.set {tables : NestedMap JsString JsString JsString Op}
    {cells : ExtTreeMap (List JsString) Json compare} (h : CellRows tables cells) (key : JsString)
    (op : Op) :
    CellRows (tables.set (splitKey key).1 (splitKey key).2.1 (splitKey key).2.2 op)
      (cells.insert (SqliteDb.primaryKey key) op.raw.reparsed) := by
  refine ⟨fun t r c => ?_, fun k hk => ?_⟩
  · rw [ExtTreeMap.getElem?_insert_eq, NestedMap.get_set, h.1]
    unfold SqliteDb.primaryKey
    simp only [List.cons.injEq, and_true]
    split
    · rfl
    · rfl
  · rw [ExtTreeMap.getElem?_insert_eq, if_neg fun e => hk _ _ _ e.symm]
    exact h.2 k hk

theorem CellRows.remove {tables : NestedMap JsString JsString JsString Op}
    {cells : ExtTreeMap (List JsString) Json compare} (h : CellRows tables cells) (key : JsString) :
    CellRows (tables.remove (splitKey key).1 (splitKey key).2.1 (splitKey key).2.2)
      (cells.erase (SqliteDb.primaryKey key)) := by
  refine ⟨fun t r c => ?_, fun k hk => ?_⟩
  · rw [ExtTreeMap.getElem?_erase_eq, NestedMap.get_remove, h.1]
    unfold SqliteDb.primaryKey
    simp only [List.cons.injEq, and_true]
    split
    · rfl
    · rfl
  · rw [ExtTreeMap.getElem?_erase_eq, if_neg fun e => hk _ _ _ e.symm]
    exact h.2 k hk

/-- The rows of new operations. -/
theorem foldl_insertOp {m : JsMap Op} {db : SqliteDb} (h : db.ops = m.map fun _ => OpRow.ofOp)
    {ops : List Op} (hn : (ops.map Op.id).Nodup) (hnew : ∀ o ∈ ops, m[o.id]? = none) :
    (ops.map SqliteDb.insertOp).foldl (fun db f => f db) db = { db with
      ops := (ops.foldl (fun m op => m.insert op.id op) m).map fun _ => OpRow.ofOp } := by
  induction ops generalizing m db with
  | nil =>
    rw [List.map_nil, List.foldl_nil, List.foldl_nil, ← h]
  | cons op ops ih =>
    rw [List.map_cons, List.nodup_cons] at hn
    have hfresh : db.ops.contains op.id = false := by
      rw [h, ExtTreeMap.contains_map, ExtTreeMap.contains_eq_isSome_getElem?,
        hnew op List.mem_cons_self]
      rfl
    have hop : SqliteDb.insertOp op db = { db with ops := db.ops.insert op.id (.ofOp op) } := by
      unfold SqliteDb.insertOp
      rw [hfresh]
      rfl
    have hmap : db.ops.insert op.id (.ofOp op) =
        (m.insert op.id op).map fun _ => OpRow.ofOp := by
      apply ExtTreeMap.ext_getElem?
      intro k
      rw [ExtTreeMap.getElem?_insert_eq, ExtTreeMap.getElem?_map, ExtTreeMap.getElem?_insert_eq, h,
        ExtTreeMap.getElem?_map]
      split
      · rfl
      · rfl
    rw [List.map_cons, List.foldl_cons, List.foldl_cons, hop]
    refine ih (m := m.insert op.id op) hmap hn.2 fun o ho => ?_
    rw [ExtTreeMap.getElem?_insert_eq, if_neg]
    · exact hnew o (List.mem_cons_of_mem _ ho)
    · intro e
      exact hn.1 (e ▸ List.mem_map_of_mem ho)

theorem foldl_upsertCell (cells : List (JsString × Op)) (db : SqliteDb)
    {tables : NestedMap JsString JsString JsString Op} (h : CellRows tables db.cells) :
    ∃ cells', (cells.map fun (key, op) => SqliteDb.upsertCell key op).foldl (fun db f => f db) db =
      { db with cells := cells' } ∧
    CellRows (tables.setAll (cells.map fun (key, op) =>
      ((splitKey key).1, (splitKey key).2.1, (splitKey key).2.2, op))) cells' := by
  induction cells generalizing tables db with
  | nil => exact ⟨db.cells, rfl, h⟩
  | cons cell cells ih =>
    obtain ⟨cells', h1, h2⟩ := ih (SqliteDb.upsertCell cell.1 cell.2 db) (h.set cell.1 cell.2)
    exact ⟨cells', h1, h2⟩

theorem foldl_deleteOpRow (ids : List JsString) (db : SqliteDb) {m : JsMap Op}
    (h : db.ops = m.map fun _ => OpRow.ofOp) :
    (ids.map SqliteDb.deleteOp).foldl (fun db f => f db) db = { db with
      ops := (ids.foldl (fun m id => m.erase id) m).map fun _ => OpRow.ofOp } := by
  induction ids generalizing m db with
  | nil => rw [List.map_nil, List.foldl_nil, List.foldl_nil, ← h]
  | cons id ids ih =>
    have hmap : db.ops.erase id = (m.erase id).map fun _ => OpRow.ofOp := by
      apply ExtTreeMap.ext_getElem?
      intro k
      rw [ExtTreeMap.getElem?_erase_eq, ExtTreeMap.getElem?_map, ExtTreeMap.getElem?_erase_eq, h,
        ExtTreeMap.getElem?_map]
      split
      · rfl
      · rfl
    exact ih (SqliteDb.deleteOp id db) hmap

theorem foldl_deleteCellRow (keys : List JsString) (db : SqliteDb)
    {tables : NestedMap JsString JsString JsString Op} (h : CellRows tables db.cells) :
    ∃ cells', (keys.map SqliteDb.deleteCell).foldl (fun db f => f db) db =
      { db with cells := cells' } ∧ CellRows (tables.removeAll (keys.map splitKey)) cells' := by
  induction keys generalizing tables db with
  | nil => exact ⟨db.cells, rfl, h⟩
  | cons key keys ih =>
    obtain ⟨cells', h1, h2⟩ := ih (SqliteDb.deleteCell key db) (h.remove key)
    exact ⟨cells', h1, h2⟩

/-- **Step lemma.** -/
theorem OnSqlite.make {s : MemoryAdapter} {db : SqliteDb} (h : OnSqlite s db) {call : StoreCall}
    (hb : Built s call) : OnSqlite (s.make call) (db.make call) := by
  cases call with
  | write w =>
    unfold SqliteDb.make
    simp only
    rw [db.write_never]
    cases w with
    | batch b =>
      have hb : BuiltBatch s b := hb
      have hnew : ∀ o ∈ b.ops, s.opsById[o.id]? = none := by
        intro o ho
        have hno := hb.new o ho
        unfold MemoryAdapter.hasOp at hno
        rw [ExtTreeMap.contains_eq_isSome_getElem?] at hno
        apply Option.not_isSome_iff_eq_none.1
        rw [hno]
        exact Bool.false_ne_true
      obtain ⟨cells', h1, h2⟩ := foldl_upsertCell b.winners.toList { db with
        ops := (b.ops.foldl (fun m op => m.insert op.id op) s.opsById).map fun _ => OpRow.ofOp }
        h.cells
      rw [s.make_batch]
      unfold SqliteDb.statements
      simp only
      rw [List.foldl_append, List.foldl_append, foldl_insertOp h.ops hb.nodup hnew, h1]
      exact ⟨rfl, h2, rfl, rfl, h.peers⟩
    | compaction w =>
      obtain ⟨cells', h1, h2⟩ := foldl_deleteCellRow w.cellKeys { db with
        ops := (w.opIds.foldl (fun m id => m.erase id) s.opsById).map fun _ => OpRow.ofOp }
        h.cells
      rw [s.make_compaction]
      unfold SqliteDb.statements
      simp only
      rw [List.foldl_append, foldl_deleteOpRow w.opIds db h.ops, h1]
      exact ⟨rfl, h2, h.frontier, h.clock, h.peers⟩
  | setPeerFrontier peer f =>
    refine ⟨h.ops, h.cells, h.frontier, h.clock, ?_⟩
    change db.getPeerFrontiers.insert peer f = s.peerFrontiers.insert peer f
    rw [h.peers]

/-- The calls of the engine name legal cells, and no id stands for two operations of one. -/
theorem OnSqlite.settled {s : MemoryAdapter} {db : SqliteDb} (h : OnSqlite s db) {w : Write}
    (hb : Built s (.write w)) : CellKeys w.cellKeys ∧ (Stored.memory s).Settled w ∧
      (Stored.sqlite db).Settled w ∧ ∀ i : IdbStores, (Stored.idb i).Settled w := by
  cases w with
  | batch b =>
    have hb : BuiltBatch s b := hb
    have hone : OneEach b.ops := fun o ho p hp hid => by
      rw [List.inj_on_of_nodup_map hb.nodup ho hp hid]
    have hother : NoOther b.ops db.contents := fun o ho j hj => by
      have hnew := hb.new o ho
      unfold MemoryAdapter.hasOp at hnew
      rw [ExtTreeMap.contains_eq_isSome_getElem?] at hnew
      change db.ops[o.id]?.map OpRow.toOp = some j at hj
      rw [h.ops, ExtTreeMap.getElem?_map] at hj
      cases hlogged : s.opsById[o.id]? with
      | none =>
        rw [hlogged] at hj
        cases hj
      | some p =>
        rw [hlogged] at hnew
        cases hnew
    refine ⟨fun k hk => ?_, hone, ⟨hone, hother⟩, fun _ => hone⟩
    obtain ⟨x, hx, rfl⟩ := List.mem_map.1 hk
    have hkey := hb.keyed (ExtTreeMap.mem_toList_iff_getElem?_eq_some.1 hx)
    exact ⟨x.2.cell, x.2.legal, hkey⟩
  | compaction w => exact ⟨hb, trivial, trivial, fun _ => trivial⟩

/-! ## IndexedDB -/

/-- The records of `cells` for the cells of `tables`. -/
def CellRecords (tables : NestedMap JsString JsString JsString Op) (cells : JsMap Op) : Prop :=
  ∀ {key : JsString} {o : Op}, cells[key]? = some o ↔
    ∃ c : Cell, Legal c ∧ tables.get c.1 c.2.1 c.2.2 = some o ∧ key = cellKey c.1 c.2.1 c.2.2

structure OnIdb (s : MemoryAdapter) (i : IdbStores) : Prop where
  ops : i.ops = s.opsById
  cells : CellRecords s.tables i.cells
  frontier : i.getFrontier = s.frontier
  clock : i.getClock = s.clock
  peers : i.getPeerFrontiers = s.peerFrontiers

theorem OnIdb.empty : OnIdb .empty .empty where
  ops := rfl
  cells {key o} := by
    constructor
    · intro h
      change (∅ : JsMap Op)[key]? = some o at h
      rw [ExtTreeMap.getElem?_empty] at h
      cases h
    · rintro ⟨c, -, h, -⟩
      have h' : NestedMap.get ∅ c.1 c.2.1 c.2.2 = some o := h
      rw [NestedMap.get_empty] at h'
      cases h'
  frontier := rfl
  clock := rfl
  peers := rfl

variable {tables : NestedMap JsString JsString JsString Op} {cells : JsMap Op}

theorem CellRecords.set (h : CellRecords tables cells) {c : Cell} (hc : Legal c) (op : Op) :
    CellRecords (tables.set c.1 c.2.1 c.2.2 op)
      (cells.insert (cellKey c.1 c.2.1 c.2.2) op) := by
  intro key o
  rw [ExtTreeMap.getElem?_insert_eq]
  by_cases hk : cellKey c.1 c.2.1 c.2.2 = key
  · rw [if_pos hk]
    constructor
    · intro ho
      refine ⟨c, hc, ?_, hk.symm⟩
      rw [NestedMap.get_set, if_pos ⟨rfl, rfl, rfl⟩, ho]
    · rintro ⟨d, hd, hget, hkey⟩
      obtain rfl : c = d := cellKey_inj hc hd (hk.trans hkey)
      rw [NestedMap.get_set, if_pos ⟨rfl, rfl, rfl⟩] at hget
      exact hget
  · rw [if_neg hk, h]
    have hother : ∀ d : Cell, key = cellKey d.1 d.2.1 d.2.2 →
        (tables.set c.1 c.2.1 c.2.2 op).get d.1 d.2.1 d.2.2 = tables.get d.1 d.2.1 d.2.2 := by
      intro d hkey
      rw [NestedMap.get_set, if_neg]
      rintro ⟨h1, h2, h3⟩
      exact hk (by rw [hkey, h1, h2, h3])
    constructor
    · rintro ⟨d, hd, hget, hkey⟩
      exact ⟨d, hd, (hother d hkey).trans hget, hkey⟩
    · rintro ⟨d, hd, hget, hkey⟩
      exact ⟨d, hd, (hother d hkey).symm.trans hget, hkey⟩

theorem CellRecords.remove (h : CellRecords tables cells) {c : Cell} (hc : Legal c) :
    CellRecords (tables.remove c.1 c.2.1 c.2.2) (cells.erase (cellKey c.1 c.2.1 c.2.2)) := by
  intro key o
  rw [ExtTreeMap.getElem?_erase_eq]
  by_cases hk : cellKey c.1 c.2.1 c.2.2 = key
  · rw [if_pos hk]
    constructor
    · intro ho
      cases ho
    · rintro ⟨d, hd, hget, hkey⟩
      obtain rfl : c = d := cellKey_inj hc hd (hk.trans hkey)
      rw [NestedMap.get_remove, if_pos ⟨rfl, rfl, rfl⟩] at hget
      cases hget
  · rw [if_neg hk, h]
    have hother : ∀ d : Cell, key = cellKey d.1 d.2.1 d.2.2 →
        (tables.remove c.1 c.2.1 c.2.2).get d.1 d.2.1 d.2.2 = tables.get d.1 d.2.1 d.2.2 := by
      intro d hkey
      rw [NestedMap.get_remove, if_neg]
      rintro ⟨h1, h2, h3⟩
      exact hk (by rw [hkey, h1, h2, h3])
    constructor
    · rintro ⟨d, hd, hget, hkey⟩
      exact ⟨d, hd, (hother d hkey).trans hget, hkey⟩
    · rintro ⟨d, hd, hget, hkey⟩
      exact ⟨d, hd, (hother d hkey).symm.trans hget, hkey⟩

theorem foldl_putOpRecord (ops : List Op) (i : IdbStores) :
    (ops.map IdbStores.putOp).foldl (fun s f => f s) i =
      { i with ops := ops.foldl (fun m op => m.insert op.id op) i.ops } := by
  induction ops generalizing i with
  | nil => rfl
  | cons op ops ih => exact ih _

theorem foldl_deleteOpRecord (ids : List JsString) (i : IdbStores) :
    (ids.map IdbStores.deleteOp).foldl (fun s f => f s) i =
      { i with ops := ids.foldl (fun m id => m.erase id) i.ops } := by
  induction ids generalizing i with
  | nil => rfl
  | cons id ids ih => exact ih _

theorem foldl_putCellRecord {l : List (JsString × Op)} (hl : CellKeys (l.map Prod.fst))
    (i : IdbStores) (h : CellRecords tables i.cells) :
    ∃ cells', (l.map fun (key, op) => IdbStores.putCell key op).foldl (fun s f => f s) i =
      { i with cells := cells' } ∧
    CellRecords (tables.setAll (l.map fun (key, op) =>
      ((splitKey key).1, (splitKey key).2.1, (splitKey key).2.2, op))) cells' := by
  induction l generalizing tables i with
  | nil => exact ⟨i.cells, rfl, h⟩
  | cons cell l ih =>
    obtain ⟨key, op⟩ := cell
    obtain ⟨c, hc, hk⟩ := hl key List.mem_cons_self
    have hkey : key = cellKey c.1 c.2.1 c.2.2 := hk
    have hset : CellRecords (tables.set (splitKey key).1 (splitKey key).2.1 (splitKey key).2.2 op)
        (IdbStores.putCell key op i).cells := by
      rw [hkey, splitKey_cellKey hc]
      exact h.set hc op
    obtain ⟨cells', h1, h2⟩ := ih (fun k hk => hl k (List.mem_cons_of_mem _ hk))
      (IdbStores.putCell key op i) hset
    exact ⟨cells', h1, h2⟩

theorem foldl_deleteCellRecord {keys : List JsString} (hl : CellKeys keys) (i : IdbStores)
    (h : CellRecords tables i.cells) :
    ∃ cells', (keys.map IdbStores.deleteCell).foldl (fun s f => f s) i =
      { i with cells := cells' } ∧ CellRecords (tables.removeAll (keys.map splitKey)) cells' := by
  induction keys generalizing tables i with
  | nil => exact ⟨i.cells, rfl, h⟩
  | cons key keys ih =>
    obtain ⟨c, hc, hkey⟩ := hl key List.mem_cons_self
    have hrem : CellRecords (tables.remove (splitKey key).1 (splitKey key).2.1 (splitKey key).2.2)
        (IdbStores.deleteCell key i).cells := by
      rw [hkey, splitKey_cellKey hc]
      exact h.remove hc
    obtain ⟨cells', h1, h2⟩ := ih (fun k hk => hl k (List.mem_cons_of_mem _ hk))
      (IdbStores.deleteCell key i) hrem
    exact ⟨cells', h1, h2⟩

/-- **Step lemma.** -/
theorem OnIdb.make {s : MemoryAdapter} {i : IdbStores} (h : OnIdb s i) {call : StoreCall}
    (hb : Built s call) : OnIdb (s.make call) (i.make call) := by
  cases call with
  | write w =>
    unfold IdbStores.make
    simp only
    rw [i.write_never]
    cases w with
    | batch b =>
      have hb : BuiltBatch s b := hb
      have hkeys : CellKeys (b.winners.toList.map Prod.fst) := by
        intro k hk
        obtain ⟨⟨k, o⟩, hm, rfl⟩ := List.mem_map.1 hk
        exact ⟨o.cell, o.legal, hb.keyed (ExtTreeMap.mem_toList_iff_getElem?_eq_some.1 hm)⟩
      obtain ⟨cells', h1, h2⟩ := foldl_putCellRecord hkeys { i with
        ops := b.ops.foldl (fun m op => m.insert op.id op) i.ops } h.cells
      rw [s.make_batch]
      unfold IdbStores.requests
      simp only
      rw [List.foldl_append, List.foldl_append, foldl_putOpRecord, h1, h.ops]
      exact ⟨rfl, h2, rfl, rfl, h.peers⟩
    | compaction w =>
      have hkeys : CellKeys w.cellKeys := hb
      obtain ⟨cells', h1, h2⟩ := foldl_deleteCellRecord hkeys { i with
        ops := w.opIds.foldl (fun m id => m.erase id) i.ops } h.cells
      rw [s.make_compaction]
      unfold IdbStores.requests
      simp only
      rw [List.foldl_append, foldl_deleteOpRecord, h1, h.ops]
      exact ⟨rfl, h2, h.frontier, h.clock, h.peers⟩
  | setPeerFrontier peer f =>
    refine ⟨h.ops, h.cells, h.frontier, h.clock, ?_⟩
    change i.getPeerFrontiers.insert peer f = s.peerFrontiers.insert peer f
    rw [h.peers]

end TangentFeed
