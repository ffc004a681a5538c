import TangentFeed.Adapters.Contents
import TangentFeed.Replica.Sample

/-!
# Writes that fail

The in-memory adapter builds copies and swaps them in, SQLite rolls back, and
IndexedDB commits what was queued unless a request fails. `write_allOrNothing_iff`
says when a rejected call has left nothing behind.
-/

namespace TangentFeed

open Entries

namespace Write

/-- How many operations and cells a call puts or deletes. -/
def entries : Write → Nat
  | batch b => b.ops.length + b.winners.toList.length
  | compaction w => w.opIds.length + w.cellKeys.length

/-- How many records of `meta` it puts: the frontier and the clock. -/
def records : Write → Nat
  | batch _ => 2
  | compaction _ => 0

/-- The first `n` writes of a call are in the store already: of its operations the last with
each id. -/
def Already (k : Contents) (n : Nat) : Write → Prop
  | batch b =>
    (∀ id j, LastFor (opEntries (b.ops.take n)) id j → k.op id = some j) ∧
    (∀ x ∈ b.winners.toList.take (n - b.ops.length), k.cell (splitKey x.1) = some x.2.raw) ∧
    (b.ops.length + b.winners.toList.length < n → k.frontier = b.frontier)
  | compaction w =>
    (∀ id ∈ w.opIds.take n, k.op id = none) ∧
    ∀ key ∈ w.cellKeys.take (n - w.opIds.length), k.cell (splitKey key) = none

end Write

def MemoryAdapter.afterAll (s : MemoryAdapter) : Write → MemoryAdapter
  | .batch b => s.applyBatch b
  | .compaction w => s.compact w

namespace Stored

/-- Whether the call resolves, and the store after. -/
def write (faults : Faults) (w : Write) : Stored → Bool × Stored
  | memory s => ((s.write faults.throws w).1, memory (s.write faults.throws w).2)
  | sqlite db => ((db.write faults.throws w).1, sqlite (db.write faults.throws w).2)
  | idb s => ((s.write faults w).1, idb (s.write faults w).2)

/-- The store after every write of the call, one after the other. -/
def afterAll (w : Write) : Stored → Stored
  | memory s => memory (s.afterAll w)
  | sqlite db => sqlite ((SqliteDb.statements w).foldl (fun db f => f db) db)
  | idb s => idb ((IdbStores.requests w).foldl (fun s f => f s) s)

/-- A call that rejects leaves the log, the cells, the frontier and the clock as they were, and
after one that resolves all of the batch is there. -/
structure AllOrNothing (faults : Faults) (w : Write) (s : Stored) : Prop where
  nothing : (s.write faults w).1 = false → (s.write faults w).2.contents = s.contents
  all : (s.write faults w).1 = true → w.Done s.contents (s.write faults w).2.contents

/-- Some write of the call fails; in SQLite `BEGIN` and `COMMIT` may, too. -/
def Fails (faults : Faults) (w : Write) : Stored → Prop
  | memory _ => ∃ n < w.entries, faults.throws n = true
  | sqlite _ => ∃ n < w.entries + w.records + 2, faults.throws n = true
  | idb _ => ∃ n < w.entries + w.records, faults.throws n = true ∨ faults.fails n = true

/-- No id stands for two operations: in the batch, and in SQLite, which keeps the row it has,
in the log. -/
def Settled : Write → Stored → Prop
  | .batch b, memory _ | .batch b, idb _ => OneEach b.ops
  | .batch b, sqlite db => OneEach b.ops ∧ NoOther b.ops db.contents
  | .compaction _, _ => True

/-- In IndexedDB nothing throws while the requests are queued, or one queued before the first
that throws fails, or those queued before change nothing. -/
def Uncut (faults : Faults) (w : Write) : Stored → Prop
  | memory _ | sqlite _ => True
  | idb s => ∀ n < w.entries + w.records, faults.throws n = true →
    (∀ m < n, faults.throws m = false) → (∃ m < n, faults.fails m = true) ∨ w.Already s.contents n

end Stored

/-! ## Copies that are swapped in -/

namespace MemoryAdapter

variable {s : MemoryAdapter}

theorem foldl_putOp (ops : List Op) (c : Copies) :
    (ops.map Copies.putOp).foldl (fun c f => f c) c =
      { c with newOps := ops.foldl (fun m op => m.insert op.id op) c.newOps } := by
  induction ops generalizing c with
  | nil => rfl
  | cons op ops ih => exact ih _

theorem foldl_putCell (cells : List (JsString × Op)) (c : Copies) :
    (cells.map fun (key, op) => Copies.putCell key op).foldl (fun c f => f c) c =
      { c with newTables := c.newTables.setAll (cells.map fun (key, op) =>
        ((splitKey key).1, (splitKey key).2.1, (splitKey key).2.2, op)) } := by
  induction cells generalizing c with
  | nil => rfl
  | cons cell cells ih => exact ih _

theorem foldl_deleteOp (ids : List JsString) (c : Copies) :
    (ids.map Copies.deleteOp).foldl (fun c f => f c) c =
      { c with newOps := ids.foldl (fun m id => m.erase id) c.newOps } := by
  induction ids generalizing c with
  | nil => rfl
  | cons id ids ih => exact ih _

theorem foldl_deleteCell (keys : List JsString) (c : Copies) :
    (keys.map Copies.deleteCell).foldl (fun c f => f c) c =
      { c with newTables := c.newTables.removeAll (keys.map splitKey) } := by
  induction keys generalizing c with
  | nil => rfl
  | cons key keys ih => exact ih _

/-- Everything is built before anything is swapped in. -/
theorem write_cases (throws : Nat → Bool) (s : MemoryAdapter) (w : Write) :
    (s.write throws w = (false, s) ∧ ∃ n < w.entries, throws n = true) ∨
      (s.write throws w = (true, s.afterAll w) ∧ ¬ ∃ n < w.entries, throws n = true) := by
  cases w with
  | batch b =>
    have hfails := attempt_eq_none_iff throws (b.ops.map Copies.putOp ++
        b.winners.toList.map fun (key, op) => Copies.putCell key op) 0 s.copies
    simp only [List.length_append, List.length_map, Nat.zero_add] at hfails
    unfold write
    simp only
    cases h : attempt throws (b.ops.map Copies.putOp ++
        b.winners.toList.map fun (key, op) => Copies.putCell key op) 0 s.copies with
    | none => exact .inl ⟨rfl, hfails.1 h⟩
    | some c =>
      refine .inr ⟨?_, fun hf => ?_⟩
      · have hc := attempt_eq_some h
        rw [List.foldl_append, foldl_putOp, foldl_putCell] at hc
        rw [hc]
        rfl
      · rw [hfails.2 hf] at h
        cases h
  | compaction w =>
    have hfails := attempt_eq_none_iff throws
      (w.opIds.map Copies.deleteOp ++ w.cellKeys.map Copies.deleteCell) 0 s.copies
    simp only [List.length_append, List.length_map, Nat.zero_add] at hfails
    unfold write
    simp only
    cases h : attempt throws (w.opIds.map Copies.deleteOp ++ w.cellKeys.map Copies.deleteCell) 0
        s.copies with
    | none => exact .inl ⟨rfl, hfails.1 h⟩
    | some c =>
      refine .inr ⟨?_, fun hf => ?_⟩
      · have hc := attempt_eq_some h
        rw [List.foldl_append, foldl_deleteOp, foldl_deleteCell] at hc
        rw [hc]
        rfl
      · rw [hfails.2 hf] at h
        cases h

end MemoryAdapter

/-! ## Transactions that are rolled back -/

namespace SqliteDb

/-- Inside a transaction nothing is committed. -/
theorem runAll_spec (throws : Nat → Bool) (statements : List (SqliteDb → SqliteDb)) (n : Nat)
    (committed db : SqliteDb) :
    let ran := Connection.runAll throws statements n ⟨committed, some db⟩
    ran.2.committed = committed ∧
      (ran.1 = true → ran.2.working = some (statements.foldl (fun db f => f db) db)) := by
  induction statements generalizing n db with
  | nil => exact ⟨rfl, fun _ => rfl⟩
  | cons statement rest ih =>
    unfold Connection.runAll
    by_cases h : throws n = true
    · rw [if_pos h]
      exact ⟨rfl, fun h' => by cases h'⟩
    · rw [if_neg h]
      exact ih (n + 1) (statement db)

theorem transaction_cases (throws : Nat → Bool) (statements : List (SqliteDb → SqliteDb))
    (db : SqliteDb) : transaction throws statements db = (false, db) ∨
      transaction throws statements db = (true, statements.foldl (fun db f => f db) db) := by
  obtain ⟨h1, h2⟩ := runAll_spec throws statements 1 db db
  unfold transaction
  simp only
  split
  · exact .inl rfl
  · split
    · rename_i hran
      rw [Bool.and_eq_true] at hran
      right
      unfold Connection.commit Connection.begin
      simp only
      rw [h2 hran.1]
      rfl
    · left
      unfold Connection.rollback Connection.begin
      simp only
      rw [h1]

theorem runAll_fst (throws : Nat → Bool) (statements : List (SqliteDb → SqliteDb)) (n : Nat)
    (c : Connection) : (c.runAll throws statements n).1 = true ↔
      ∀ i < statements.length, throws (n + i) = false := by
  induction statements generalizing n c with
  | nil => exact ⟨fun _ i hi => absurd hi (Nat.not_lt_zero i), fun _ => rfl⟩
  | cons statement rest ih =>
    unfold Connection.runAll
    by_cases h : throws n = true
    · rw [if_pos h]
      refine ⟨fun h' => (nomatch h'), fun h' => ?_⟩
      rw [show throws n = false from h' 0 (Nat.succ_pos _)] at h
      cases h
    · rw [if_neg h, ih]
      constructor
      · intro h' i hi
        cases i with
        | zero => exact Bool.eq_false_iff.2 h
        | succ i =>
          have h'' := h' i (Nat.lt_of_succ_lt_succ hi)
          rwa [Nat.add_right_comm] at h''
      · intro h' i hi
        have h'' := h' (i + 1) (Nat.succ_lt_succ hi)
        rwa [Nat.add_right_comm]

/-- A transaction returns unless a statement of it throws. -/
theorem transaction_fst (throws : Nat → Bool) (statements : List (SqliteDb → SqliteDb))
    (db : SqliteDb) : (transaction throws statements db).1 = true ↔
      ¬ ∃ n < statements.length + 2, throws n = true := by
  have hran := runAll_fst throws statements 1 (Connection.begin ⟨db, none⟩)
  unfold transaction
  simp only
  by_cases h0 : throws 0 = true
  · rw [if_pos h0]
    exact ⟨fun h => (nomatch h), fun h => absurd ⟨0, Nat.succ_pos _, h0⟩ h⟩
  rw [if_neg h0]
  constructor
  · intro h
    split at h
    · rename_i hall
      rw [Bool.and_eq_true, Bool.not_eq_true', hran] at hall
      rintro ⟨n, hn, ht⟩
      cases n with
      | zero => exact h0 ht
      | succ n =>
        rcases Nat.lt_or_eq_of_le (Nat.lt_succ_iff.1 (Nat.lt_of_succ_lt_succ hn)) with hn | rfl
        · have hf := hall.1 n hn
          rw [Nat.add_comm, ht] at hf
          cases hf
        · rw [hall.2] at ht
          cases ht
    · cases h
  · intro h
    push Not at h
    have hall : ∀ i < statements.length, throws (1 + i) = false := fun i hi =>
      Bool.eq_false_iff.2 (h (1 + i) (by omega))
    have hcommit : throws (statements.length + 1) = false :=
      Bool.eq_false_iff.2 (h _ (Nat.lt_succ_self _))
    rw [hran.2 hall, hcommit]
    rfl

theorem length_statements (w : Write) : (statements w).length = w.entries + w.records := by
  cases w with
  | batch b =>
    unfold statements Write.entries Write.records
    simp only [List.length_append, List.length_map, List.length_cons, List.length_nil]
  | compaction w =>
    unfold statements Write.entries Write.records
    simp only [List.length_append, List.length_map, Nat.add_zero]

end SqliteDb

/-! ## What was queued -/

namespace IdbStores

theorem queue_of_not_throws {throws : Nat → Bool} {requests : List (IdbStores → IdbStores)} {n : Nat}
    (h : ∀ i < requests.length, throws (n + i) = false) :
    queue throws requests n = (true, requests) := by
  induction requests generalizing n with
  | nil => rfl
  | cons request rest ih =>
    have hn : throws n = false := h 0 (Nat.succ_pos _)
    unfold queue
    rw [hn, ih fun i hi => by rw [Nat.add_right_comm]; exact h (i + 1) (Nat.succ_lt_succ hi)]
    rfl

theorem queue_of_first {throws : Nat → Bool} {requests : List (IdbStores → IdbStores)} {n i : Nat}
    (hi : i < requests.length) (ht : throws (n + i) = true) (h : ∀ j < i, throws (n + j) = false) :
    queue throws requests n = (false, requests.take i) := by
  induction requests generalizing n i with
  | nil => exact absurd hi (Nat.not_lt_zero i)
  | cons request rest ih =>
    unfold queue
    cases i with
    | zero =>
      rw [show throws n = true from ht]
      rfl
    | succ i =>
      rw [show throws n = false from h 0 (Nat.succ_pos _),
        ih (Nat.lt_of_succ_lt_succ hi) (by rwa [Nat.add_right_comm]) fun j hj => by
          rw [Nat.add_right_comm]; exact h (j + 1) (Nat.succ_lt_succ hj)]
      rfl

theorem length_requests (w : Write) : (requests w).length = w.entries + w.records := by
  cases w with
  | batch b =>
    unfold requests Write.entries Write.records
    simp only [List.length_append, List.length_map, List.length_cons, List.length_nil]
  | compaction w =>
    unfold requests Write.entries Write.records
    simp only [List.length_append, List.length_map, Nat.add_zero]

end IdbStores

/-! ## What is left -/

namespace SqliteDb

theorem contents_setMeta (f : Frontier) (c : ClockState) (db : SqliteDb) :
    ([setFrontier f, setClock c].foldl (fun db f => f db) db).contents =
      { db.contents with frontier := f, clock := some c } := rfl

/-- The contents after every statement of a batch, -/
theorem contents_batch (db : SqliteDb) (b : BatchWrite) :
    ((statements (.batch b)).foldl (fun db f => f db) db).contents =
      ⟨addAll db.contents.op (rowEntries b.ops),
        putAll db.contents.cell (cellEntries Json.reparsed b.winners.toList), b.frontier,
        some b.clock⟩ := by
  have h : statements (.batch b) =
      b.ops.map insertOp ++ b.winners.toList.map (fun (key, op) => upsertCell key op) ++
        [setFrontier b.frontier, setClock b.clock] := rfl
  rw [h, List.foldl_append, List.foldl_append, contents_setMeta, contents_upsertCells,
    contents_insertOps]

/-- and of a compaction. -/
theorem contents_compaction (db : SqliteDb) (w : CompactionWrite) :
    ((statements (.compaction w)).foldl (fun db f => f db) db).contents =
      { db.contents with
        op := dropAll db.contents.op w.opIds
        cell := dropAll db.contents.cell (w.cellKeys.map splitKey) } := by
  have h : statements (.compaction w) = w.opIds.map deleteOp ++ w.cellKeys.map deleteCell := rfl
  rw [h, List.foldl_append, contents_deleteCells, contents_deleteOps]

end SqliteDb

namespace IdbStores

/-- The contents after the first requests of a batch, before the frontier, -/
theorem contents_puts (s : IdbStores) (ops : List Op) (winners : List (JsString × Op))
    (hk : CellKeys (winners.map Prod.fst)) :
    (List.foldl (fun s f => f s) s
        (ops.map putOp ++ winners.map fun (key, op) => putCell key op)).contents =
      { s.contents with
        op := putAll s.contents.op (opEntries ops)
        cell := putAll s.contents.cell (cellEntries id winners) } := by
  rw [List.foldl_append, contents_putCells _ _ hk, contents_putOps]

/-- or of a compaction. -/
theorem contents_deletes (s : IdbStores) (ids keys : List JsString) (hk : CellKeys keys) :
    ((ids.map deleteOp ++ keys.map deleteCell).foldl (fun s f => f s) s).contents =
      { s.contents with
        op := dropAll s.contents.op ids
        cell := dropAll s.contents.cell (keys.map splitKey) } := by
  rw [List.foldl_append, contents_deleteCells _ _ hk, contents_deleteOps]

theorem contents_putMeta (f : Frontier) (c : ClockState) (s : IdbStores) :
    ([putFrontier f, putClock c].foldl (fun s f => f s) s).contents =
      { s.contents with frontier := f, clock := some c } := rfl

theorem contents_putFrontier (f : Frontier) (s : IdbStores) :
    ([putFrontier f].foldl (fun s f => f s) s).contents = { s.contents with frontier := f } := rfl

theorem requests_batch (b : BatchWrite) : requests (.batch b) =
    (b.ops.map putOp ++ b.winners.toList.map fun (key, op) => putCell key op) ++
      [putFrontier b.frontier, putClock b.clock] := rfl

theorem requests_compaction (w : CompactionWrite) :
    requests (.compaction w) = w.opIds.map deleteOp ++ w.cellKeys.map deleteCell := rfl

theorem cellKeys_take {keys : List JsString} (h : CellKeys keys) (n : Nat) :
    CellKeys (keys.take n) := fun k hk => h k (List.mem_of_mem_take hk)

theorem contents_take_batch {b : BatchWrite} {n : Nat} (hw : CellKeys (Write.batch b).cellKeys)
    (s : IdbStores) (hn : n < (Write.batch b).entries + (Write.batch b).records) :
    (((requests (.batch b)).take n).foldl (fun s f => f s) s).contents = s.contents ↔
      (Write.batch b).Already s.contents n := by
  have hkeys : CellKeys ((b.winners.toList.take (n - b.ops.length)).map Prod.fst) := by
    rw [List.map_take]
    exact cellKeys_take hw _
  have hnodup : ((cellEntries id (b.winners.toList.take (n - b.ops.length))).map Prod.fst).Nodup :=
    nodup_cellEntries (by
      rw [List.map_take]
      exact (nodup_winners b).sublist (List.take_sublist _ _)) hkeys id
  have hops := putAll_eq_self (f := s.contents.op) (l := opEntries (b.ops.take n))
  have hcells := putAll_eq_self_of_nodup (f := s.contents.cell) hnodup
  have hmem : (∀ x ∈ cellEntries id (b.winners.toList.take (n - b.ops.length)),
        s.contents.cell x.1 = some x.2) ↔
      ∀ x ∈ b.winners.toList.take (n - b.ops.length),
        s.contents.cell (splitKey x.1) = some x.2.raw := by
    unfold cellEntries
    rw [List.forall_mem_map]
    rfl
  rw [hmem] at hcells
  have htake : (b.ops.map putOp ++ b.winners.toList.map fun (key, op) => putCell key op).take n =
      (b.ops.take n).map putOp ++
        (b.winners.toList.take (n - b.ops.length)).map fun (key, op) => putCell key op := by
    rw [List.take_append, List.length_map, List.map_take, List.map_take]
  unfold Write.Already
  simp only
  rw [requests_batch, List.take_append, htake, List.foldl_append, List.length_append,
    List.length_map, List.length_map]
  have hlast : n - (b.ops.length + b.winners.toList.length) = 0 ∨
      n = b.ops.length + b.winners.toList.length + 1 := by
    change n < b.ops.length + b.winners.toList.length + 2 at hn
    omega
  rcases hlast with hlast | hlast
  · rw [hlast, List.take_zero, List.foldl_nil, contents_puts _ _ _ hkeys, Contents.ext_iff,
      hops, hcells]
    exact ⟨fun h => ⟨h.1, h.2.1, fun hlt => absurd hlt (by omega)⟩,
      fun h => ⟨h.1, h.2.1, rfl, rfl⟩⟩
  · have htail : [putFrontier b.frontier, putClock b.clock].take
        (n - (b.ops.length + b.winners.toList.length)) = [putFrontier b.frontier] := by
      rw [hlast, Nat.add_sub_cancel_left]
      rfl
    rw [htail, contents_putFrontier, contents_puts _ _ _ hkeys, Contents.ext_iff, hops, hcells]
    exact ⟨fun h => ⟨h.1, h.2.1, fun _ => h.2.2.1.symm⟩,
      fun h => ⟨h.1, h.2.1, (h.2.2 (by omega)).symm, rfl⟩⟩

theorem contents_take_compaction {w : CompactionWrite} {n : Nat} (hkeys : CellKeys w.cellKeys)
    (s : IdbStores) :
    (((requests (.compaction w)).take n).foldl (fun s f => f s) s).contents = s.contents ↔
      (Write.compaction w).Already s.contents n := by
  have hops := dropAll_eq_self (f := s.contents.op) (l := w.opIds.take n)
  have hcells := dropAll_eq_self (f := s.contents.cell)
    (l := (w.cellKeys.take (n - w.opIds.length)).map splitKey)
  rw [List.forall_mem_map] at hcells
  unfold Write.Already
  simp only
  rw [requests_compaction, List.take_append, List.length_map, ← List.map_take, ← List.map_take,
    contents_deletes _ _ _ (cellKeys_take hkeys _), Contents.ext_iff, ← hops, ← hcells]
  exact ⟨fun h => ⟨h.1, h.2.1⟩, fun h => ⟨h.1, h.2, rfl, rfl⟩⟩

/-- **The first requests alone** change nothing if what they put is there already. -/
theorem contents_take {w : Write} {n : Nat} (hw : CellKeys w.cellKeys) (s : IdbStores)
    (hn : n < w.entries + w.records) :
    (((requests w).take n).foldl (fun s f => f s) s).contents = s.contents ↔
      w.Already s.contents n := by
  cases w with
  | batch b => exact contents_take_batch hw s hn
  | compaction w => exact contents_take_compaction hw s

end IdbStores

namespace Stored

variable {faults : Faults} {w : Write}

/-- **Every write made**, all of the call is there if no id stands for two operations. -/
theorem done_afterAll (hw : CellKeys w.cellKeys) (s : Stored) :
    w.Done s.contents (s.afterAll w).contents ↔ s.Settled w := by
  cases w with
  | batch b =>
    cases s with
    | memory s =>
      change BatchDone b s.contents (s.applyBatch b).contents ↔ _
      rw [s.contents_applyBatch b]
      exact batchDone_putAll hw
    | sqlite db =>
      change BatchDone b db.contents ((SqliteDb.statements _).foldl _ db).contents ↔ _
      rw [db.contents_batch b]
      exact batchDone_addAll hw
    | idb s =>
      change BatchDone b s.contents ((IdbStores.requests _).foldl _ s).contents ↔ _
      rw [IdbStores.requests_batch, List.foldl_append, IdbStores.contents_putMeta,
        IdbStores.contents_puts _ _ _ hw]
      exact batchDone_putAll hw
  | compaction w =>
    have hkeys : CellKeys w.cellKeys := hw
    refine iff_of_true ?_ trivial
    cases s with
    | memory s =>
      change CompactionDone w s.contents (s.compact w).contents
      rw [s.contents_compact w]
      exact compactionDone_dropAll w _
    | sqlite db =>
      change CompactionDone w db.contents ((SqliteDb.statements _).foldl _ db).contents
      rw [db.contents_compaction w]
      exact compactionDone_dropAll w _
    | idb s =>
      change CompactionDone w s.contents ((IdbStores.requests _).foldl _ s).contents
      rw [IdbStores.requests_compaction, IdbStores.contents_deletes _ _ _ hkeys]
      exact compactionDone_dropAll w _

/-- A call that rejects without a trace, or resolves with all its writes made, meets the
promise if these leave all of the call. -/
theorem allOrNothing_of_cases {s : Stored} (hw : CellKeys w.cellKeys) (hu : s.Uncut faults w)
    (h : ((s.write faults w).1 = false ∧ (s.write faults w).2.contents = s.contents ∧
        s.Fails faults w) ∨
      ((s.write faults w).1 = true ∧ (s.write faults w).2 = s.afterAll w ∧ ¬ s.Fails faults w)) :
    ((s.write faults w).1 = true ↔ ¬ s.Fails faults w) ∧
      (s.AllOrNothing faults w ↔ (¬ s.Fails faults w → s.Settled w) ∧ s.Uncut faults w) := by
  rcases h with ⟨hreject, hsame, hfails⟩ | ⟨hresolve, hafter, hfails⟩
  · refine ⟨iff_of_false (by rw [hreject]; exact Bool.false_ne_true) (not_not_intro hfails),
      iff_of_true ⟨fun _ => hsame, fun h => ?_⟩ ⟨fun h => absurd hfails h, hu⟩⟩
    rw [hreject] at h
    cases h
  · refine ⟨iff_of_true hresolve hfails, fun h => ⟨fun _ => ?_, hu⟩, fun h => ⟨fun hf => ?_, fun _ => ?_⟩⟩
    · have hdone := h.all hresolve
      rw [hafter] at hdone
      exact (done_afterAll hw s).1 hdone
    · rw [hresolve] at hf
      cases hf
    · rw [hafter]
      exact (done_afterAll hw s).2 (h.1 hfails)

/-- When nothing throws, IndexedDB commits every request or none. -/
theorem idb_cases (s : IdbStores) (h : ∀ n < w.entries + w.records, faults.throws n = false) :
    (((idb s).write faults w).1 = false ∧ ((idb s).write faults w).2.contents = s.contents ∧
        (idb s).Fails faults w) ∨
      ((idb s).write faults w).1 = true ∧ ((idb s).write faults w).2 = (idb s).afterAll w ∧
        ¬ (idb s).Fails faults w := by
  have hqueue : IdbStores.queue faults.throws (IdbStores.requests w) 0 =
      (true, IdbStores.requests w) :=
    IdbStores.queue_of_not_throws fun i hi => by
      rw [Nat.zero_add]
      exact h i (by rwa [IdbStores.length_requests] at hi)
  have hfails := attempt_eq_none_iff faults.fails (IdbStores.requests w) 0 s
  simp only [IdbStores.length_requests, Nat.zero_add] at hfails
  cases hcommit : attempt faults.fails (IdbStores.requests w) 0 s with
  | none =>
    have hwrite : (idb s).write faults w = (false, idb s) := by
      unfold Stored.write IdbStores.write
      simp only [hqueue, hcommit]
    obtain ⟨m, hm, hf⟩ := hfails.1 hcommit
    exact .inl ⟨by rw [hwrite], by rw [hwrite]; rfl, m, hm, .inr hf⟩
  | some s' =>
    have hwrite : (idb s).write faults w = (true, idb s') := by
      unfold Stored.write IdbStores.write
      simp only [hqueue, hcommit]
    refine .inr ⟨by rw [hwrite], ?_, ?_⟩
    · rw [hwrite, attempt_eq_some hcommit]
      rfl
    · rintro ⟨m, hm, ht | hf⟩
      · rw [h m hm] at ht
        cases ht
      · rw [hfails.2 ⟨m, hm, hf⟩] at hcommit
        cases hcommit

/-- The requests up to the first that throws are all that IndexedDB has to commit. -/
theorem allOrNothing_of_first (hw : CellKeys w.cellKeys) {s : IdbStores} {n : Nat}
    (hn : n < w.entries + w.records) (ht : faults.throws n = true)
    (hfirst : ∀ m < n, faults.throws m = false) :
    ((idb s).write faults w).1 = false ∧
      ((idb s).AllOrNothing faults w ↔ (idb s).Uncut faults w) := by
  have hqueue : IdbStores.queue faults.throws (IdbStores.requests w) 0 =
      (false, (IdbStores.requests w).take n) := by
    refine IdbStores.queue_of_first (by rwa [IdbStores.length_requests]) ?_ fun m hm => ?_
    · rwa [Nat.zero_add]
    · rw [Nat.zero_add]
      exact hfirst m hm
  have hlength : ((IdbStores.requests w).take n).length = n := by
    rw [List.length_take, IdbStores.length_requests]
    omega
  have huncut : (idb s).Uncut faults w ↔
      (∃ m < n, faults.fails m = true) ∨ w.Already s.contents n := by
    refine ⟨fun h => h n hn ht hfirst, fun h n' _ ht' hfirst' => ?_⟩
    obtain rfl : n' = n := by
      rcases Nat.lt_trichotomy n' n with hlt | heq | hlt
      · rw [hfirst n' hlt] at ht'
        cases ht'
      · exact heq
      · rw [hfirst' n hlt] at ht
        cases ht
    exact h
  have hfails := attempt_eq_none_iff faults.fails ((IdbStores.requests w).take n) 0 s
  simp only [hlength, Nat.zero_add] at hfails
  cases hcommit : attempt faults.fails ((IdbStores.requests w).take n) 0 s with
  | none =>
    have hwrite : (idb s).write faults w = (false, idb s) := by
      unfold Stored.write IdbStores.write
      simp only [hqueue, hcommit]
    refine ⟨by rw [hwrite], iff_of_true ⟨fun _ => by rw [hwrite], fun h => ?_⟩
      (huncut.2 (.inl (hfails.1 hcommit)))⟩
    rw [hwrite] at h
    cases h
  | some s' =>
    have hwrite : (idb s).write faults w = (false, idb s') := by
      unfold Stored.write IdbStores.write
      simp only [hqueue, hcommit]
    have hnone : ¬ ∃ m < n, faults.fails m = true := fun h => by
      rw [hfails.2 h] at hcommit
      cases hcommit
    refine ⟨by rw [hwrite], ?_⟩
    rw [huncut, or_iff_right hnone, ← IdbStores.contents_take hw s hn, ← attempt_eq_some hcommit]
    constructor
    · intro h
      have hsame := h.nothing (by rw [hwrite])
      rwa [hwrite] at hsame
    · intro h
      refine ⟨fun _ => by rw [hwrite]; exact h, fun hf => ?_⟩
      rw [hwrite] at hf
      cases hf

/-- **All or nothing.** A call resolves unless a write of it fails. A call that rejects leaves the
log, the cells, the frontier and the clock as they were, and one that resolves leaves all of the
call there, if and only if no id stands for two operations and, in IndexedDB, no exception cuts
the requests short with something of them left to commit. -/
theorem write_allOrNothing_iff (faults : Faults) (w : Write) (hw : CellKeys w.cellKeys)
    (s : Stored) : ((s.write faults w).1 = true ↔ ¬ s.Fails faults w) ∧
      (s.AllOrNothing faults w ↔ (¬ s.Fails faults w → s.Settled w) ∧ s.Uncut faults w) := by
  cases s with
  | memory s =>
    refine allOrNothing_of_cases hw trivial ?_
    rcases s.write_cases faults.throws w with ⟨h, hf⟩ | ⟨h, hf⟩
    · refine .inl ⟨congrArg Prod.fst h, ?_, hf⟩
      exact congrArg (fun x : Bool × MemoryAdapter => x.2.contents) h
    · refine .inr ⟨congrArg Prod.fst h, ?_, hf⟩
      exact congrArg (fun x : Bool × MemoryAdapter => memory x.2) h
  | sqlite db =>
    refine allOrNothing_of_cases hw trivial ?_
    have hfst := db.transaction_fst faults.throws (SqliteDb.statements w)
    rw [SqliteDb.length_statements] at hfst
    rcases db.transaction_cases faults.throws (SqliteDb.statements w) with h | h
    · rw [h] at hfst
      refine .inl ⟨congrArg Prod.fst h, ?_, ?_⟩
      · exact congrArg (fun x : Bool × SqliteDb => x.2.contents) h
      · exact by_contra fun hf => absurd (hfst.2 hf) Bool.false_ne_true
    · rw [h] at hfst
      refine .inr ⟨congrArg Prod.fst h, ?_, hfst.1 rfl⟩
      exact congrArg (fun x : Bool × SqliteDb => sqlite x.2) h
  | idb s =>
    rcases forall_or_exists_first faults.throws (w.entries + w.records) with
      hall | ⟨n, hn, ht, hfirst⟩
    · refine allOrNothing_of_cases hw (fun n hn ht _ => ?_) (idb_cases s hall)
      rw [hall n hn] at ht
      cases ht
    · obtain ⟨hreject, hiff⟩ := allOrNothing_of_first (s := s) hw hn ht hfirst
      have hfails : (idb s).Fails faults w := ⟨n, hn, .inl ht⟩
      refine ⟨iff_of_false (by rw [hreject]; exact Bool.false_ne_true) (not_not_intro hfails), ?_⟩
      rw [hiff]
      exact ⟨fun h => ⟨fun hf => absurd hfails hf, h⟩, fun h => h.2⟩

/-- The second write of a call throws at once. -/
def secondThrows : Faults := ⟨fun n => n == 1, fun _ => false⟩

/-- The batch of two operations, each made by a device of its own, on one cell. -/
def twoOps : BatchWrite :=
  SyncEngine.commitBatch .empty (Sample.written 1 ++ Sample.written 2) ⟨1000, 0⟩

theorem cellKeys_twoOps : CellKeys (Write.batch twoOps).cellKeys := by
  intro k hk
  have hkeys : (Write.batch twoOps).cellKeys =
      [cellKey Sample.table Sample.row (js "title")] := by decide +kernel
  rw [hkeys, List.mem_singleton] at hk
  exact ⟨(Sample.table, Sample.row, js "title"), ⟨by decide, by decide, by decide⟩, hk⟩

theorem oneEach_twoOps : OneEach twoOps.ops := by
  change ∀ o ∈ _, ∀ p ∈ _, _ → _
  decide +kernel

/-- SQLite rolls the first insert back when the second throws, and without failures everything
is there. -/
theorem write_allOrNothing_sample :
    (Stored.sqlite .empty).AllOrNothing secondThrows (.batch twoOps) ∧
      ((Stored.sqlite .empty).write secondThrows (.batch twoOps)).1 = false ∧
      (Stored.idb .empty).AllOrNothing ⟨fun _ => false, fun _ => false⟩ (.batch twoOps) := by
  have hsqlite := write_allOrNothing_iff secondThrows (.batch twoOps) cellKeys_twoOps
    (.sqlite .empty)
  have hfails : (Stored.sqlite .empty).Fails secondThrows (.batch twoOps) :=
    ⟨1, by decide +kernel, rfl⟩
  refine ⟨hsqlite.2.2 ⟨fun h => absurd hfails h, trivial⟩, ?_, ?_⟩
  · exact Bool.eq_false_iff.2 fun h => hsqlite.1.1 h hfails
  · exact (write_allOrNothing_iff _ (.batch twoOps) cellKeys_twoOps (.idb .empty)).2.2
      ⟨fun _ => oneEach_twoOps, fun _ _ h => (nomatch h)⟩

/-- The `put` of the second operation throws, the call rejects, and the first operation is
committed. -/
theorem idb_half_batch : ¬ (Stored.idb .empty).AllOrNothing secondThrows (.batch twoOps) := by
  intro h
  have hsame := congrArg Contents.op (h.nothing (by decide +kernel))
  have hlogged : ∃ o ∈ twoOps.ops, (((Stored.idb .empty).write secondThrows
      (.batch twoOps)).2.contents.op o.id).isSome = true := by decide +kernel
  obtain ⟨o, -, ho⟩ := hlogged
  rw [hsame] at ho
  have hempty : (Stored.idb .empty).contents.op o.id = none := by
    change (∅ : JsMap Op)[o.id]?.map Op.raw = none
    rw [Std.ExtTreeMap.getElem?_empty]
    rfl
  rw [hempty] at ho
  cases ho

end Stored

end TangentFeed
