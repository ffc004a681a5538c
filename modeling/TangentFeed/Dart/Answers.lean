import TangentFeed.Dart.OnSqlite

/-!
# What the tables answer

`Answers s db` says that the tables answer every read as the in-memory store does:
the same operations, byte for byte what was written, and the same lists in the same
order, although SQLite orders the bytes of texts and Dart their code units. It holds
after any calls, each of which may throw at any statement.
-/

namespace TangentFeed.Dart

/-- Every read of `db` succeeds with what `s` answers; a row is a map from columns. -/
structure Answers (s : MemoryAdapter) (db : SqliteAdapter) : Prop where
  getRow : ∀ table row, ∃ found, db.getRow table row = some found ∧
    Option.Rel (fun m m' => ∀ c, m.get c = (m'.get c).map fun o => o.toOpFields) found
      (s.getRow table row)
  listRows : ∀ table, db.listRows table = s.listRows table
  listTables : db.listTables = s.listTables
  hasOp : ∀ id, db.hasOp id = s.hasOp id
  getWinner : ∀ table row column, db.getWinner table row column =
    some ((s.getWinner table row column).map fun o => o.toOpFields)
  opsSince : ∀ frontier, db.opsSince frontier = some ((s.opsSince frontier).map fun o => o.toOpFields)
  allOps : db.allOps = some (s.allOps.map fun o => o.toOpFields)
  opCount : db.opCount = s.opCount
  getFrontier : db.getFrontier = some s.frontier
  getClock : db.getClock = some s.clock
  getPeerFrontiers : db.getPeerFrontiers = some s.peerFrontiers
  getDeviceKey : db.getDeviceKey = some s.deviceKey

namespace OnSqlite

variable {s : MemoryAdapter} {db : SqliteAdapter}

/-! ## Cells -/

theorem keys (h : OnSqlite s db) : db.cells.keys = s.winners.keys := by
  rw [h.cells, OrderedMap.keys_map]

/-- The cell of a winner is that of an operation. -/
theorem exists_of_mem_keys (hk : s.Keyed) {c : Cell} (h : c ∈ s.winners.keys) :
    ∃ o : StoredOp, o.cell = c := by
  obtain ⟨o, ho⟩ := OrderedMap.mem_keys.1 h
  exact ⟨o, hk.cells ho⟩

/-- Sorting by the bytes of ASCII texts is sorting them. -/
theorem sort_eq {l : List JsString} (h : ∀ x ∈ l, Ascii x) :
    l.insertionSort (fun a b => textLe a b) = sortStrings l := by
  have hmap := List.map_insertionSort (fun a b => (textLe a b : Prop)) (fun a b : JsString => a ≤ b) id l
    fun a ha b hb => textLe_iff (h a ha) (h b hb)
  rw [List.map_id, List.map_id] at hmap
  exact hmap

theorem listRows (h : OnSqlite s db) (hk : s.Keyed) (table : JsString) :
    db.listRows table = s.listRows table := by
  unfold SqliteAdapter.listRows MemoryAdapter.listRows
  rw [h.keys]
  refine sort_eq fun x hx => ?_
  obtain ⟨c, hc, rfl⟩ := List.mem_map.1 (List.mem_dedup.1 hx)
  obtain ⟨o, rfl⟩ := exists_of_mem_keys hk (List.mem_of_mem_filter hc)
  exact o.ascii_row

theorem listTables (h : OnSqlite s db) (hk : s.Keyed) : db.listTables = s.listTables := by
  unfold SqliteAdapter.listTables MemoryAdapter.listTables
  rw [h.keys]
  refine sort_eq fun x hx => ?_
  obtain ⟨c, hc, rfl⟩ := List.mem_map.1 (List.mem_dedup.1 hx)
  obtain ⟨o, rfl⟩ := exists_of_mem_keys hk hc
  exact o.ascii_table

theorem getWinner (h : OnSqlite s db) (hs : s.Stocked) (table row column : JsString) :
    db.getWinner table row column =
      some ((s.getWinner table row column).map fun o => o.toOpFields) := by
  unfold SqliteAdapter.getWinner MemoryAdapter.getWinner
  rw [h.cells, OrderedMap.get_map]
  cases hw : s.winners.get (table, row, column) with
  | none => rfl
  | some o =>
    change (readOp o.opJson).map some = _
    rw [StoredOp.readOp_opJson (hs.winning hw)]
    rfl

/-- The winners of a row. -/
def rowEntries (s : MemoryAdapter) (table row : JsString) : List (Cell × StoredOp) :=
  s.winners.entries.filter fun e => e.1.1 = table ∧ e.1.2.1 = row

theorem mem_rowEntries {table row : JsString} {e : Cell × StoredOp} :
    e ∈ rowEntries s table row ↔ s.winner e.1 = some e.2 ∧ e.1 = (table, row, e.1.2.2) := by
  obtain ⟨⟨t, r, c⟩, o⟩ := e
  unfold rowEntries
  rw [List.mem_filter, OrderedMap.mem_entries, decide_eq_true_iff]
  refine and_congr_right fun _ => ?_
  simp only [Prod.mk.injEq, and_true]

/-- What the loop over the rows of SQLite collects. -/
theorem get_foldl_rowEntries (hk : s.Keyed) (table row column : JsString) :
    (((rowEntries s table row).map fun e => e.2.toOpFields).foldl
      (fun out op => out.set op.column op) OrderedMap.empty).get column =
        (s.winner (table, row, column)).map fun o => o.toOpFields := by
  have hpairs : ((rowEntries s table row).map fun e => e.2.toOpFields).foldl
      (fun out op => out.set op.column op) OrderedMap.empty =
        ((rowEntries s table row).map fun e => (e.2.column, e.2.toOpFields)).foldl
          (fun out e => out.set e.1 e.2) OrderedMap.empty := by
    rw [List.foldl_map, List.foldl_map]
  have hmem : ∀ {c : JsString} {op : Op},
      (c, op) ∈ (rowEntries s table row).map (fun e => (e.2.column, e.2.toOpFields)) ↔
        (s.winner (table, row, c)).map (fun o => o.toOpFields) = some op := by
    intro c op
    rw [List.mem_map, Option.map_eq_some_iff]
    constructor
    · rintro ⟨⟨d, o⟩, he, hop⟩
      obtain ⟨hw, hd⟩ := mem_rowEntries.1 he
      obtain ⟨rfl, rfl⟩ := Prod.mk.inj hop
      have hcol : d.2.2 = o.column := congrArg (fun c : Cell => c.2.2) (hk.cells hw).symm
      rw [hd, hcol] at hw
      exact ⟨o, hw, rfl⟩
    · rintro ⟨o, hw, rfl⟩
      refine ⟨((table, row, c), o), mem_rowEntries.2 ⟨hw, rfl⟩, ?_⟩
      rw [show o.column = c from congrArg (fun c : Cell => c.2.2) (hk.cells hw)]
  rw [hpairs]
  apply Option.ext
  intro op
  rw [OrderedMap.get_foldl_set_empty fun h h' => Option.some.inj ((hmem.1 h).symm.trans (hmem.1 h')),
    hmem]

theorem getRow (h : OnSqlite s db) (hs : s.Stocked) (table row : JsString) :
    ∃ found, db.getRow table row = some found ∧
      Option.Rel (fun m m' => ∀ c, m.get c = (m'.get c).map fun o => o.toOpFields) found
        (s.getRow table row) := by
  have hrows : (db.cells.entries.filter fun e => e.1.1 = table ∧ e.1.2.1 = row).map Prod.snd =
      (rowEntries s table row).map fun e => e.2.opJson := by
    rw [h.cells]
    unfold OrderedMap.map rowEntries
    rw [List.filter_map, List.map_map]
    rfl
  have hread : ((rowEntries s table row).map fun e => e.2.opJson).mapM readOp =
      some ((rowEntries s table row).map fun e => e.2.toOpFields) :=
    mapM_of_forall fun e he => StoredOp.readOp_opJson (hs.winning (mem_rowEntries.1 he).1)
  have hnone : s.getRow table row = none ↔ rowEntries s table row = [] := by
    rw [← not_iff_not]
    refine (s.getRow_ne_none table row).trans ⟨?_, fun hne => ?_⟩
    · rintro ⟨c, hw⟩ hnil
      obtain ⟨o, ho⟩ := Option.ne_none_iff_exists'.1 hw
      have hmem := @mem_rowEntries s table row ((table, row, c), o) |>.2 ⟨ho, rfl⟩
      rw [hnil] at hmem
      cases hmem
    · obtain ⟨e, he⟩ := List.exists_mem_of_ne_nil _ hne
      obtain ⟨hw, hd⟩ := mem_rowEntries.1 he
      rw [hd] at hw
      exact ⟨e.1.2.2, ne_of_eq_of_ne hw (Option.some_ne_none _)⟩
  unfold SqliteAdapter.getRow
  simp only [hrows, hread]
  cases hr : s.getRow table row with
  | none =>
    rw [hnone.1 hr]
    exact ⟨none, rfl, .none⟩
  | some cells =>
    have hne : ((rowEntries s table row).map fun e => e.2.opJson).isEmpty = false := by
      rw [List.isEmpty_map, List.isEmpty_eq_false_iff]
      intro e
      rw [hnone.2 e] at hr
      cases hr
    rw [if_neg (Bool.not_eq_true _ ▸ hne)]
    refine ⟨_, rfl, .some fun c => ?_⟩
    rw [get_foldl_rowEntries hs.keyed, ← s.get_getRow, hr]
    rfl

/-! ## The log -/

theorem opRows (h : OnSqlite s db) : db.opRows = s.allOps.map StoredOp.opRow := by
  unfold SqliteAdapter.opRows MemoryAdapter.allOps
  rw [h.ops, OrderedMap.values_map]
  exact (List.map_insertionSort _ _ _ _ fun a _ b _ => (textLe_iff a.ascii_hlc b.ascii_hlc).symm).symm

theorem allOps (h : OnSqlite s db) (hs : s.Stocked) :
    db.allOps = some (s.allOps.map fun o => o.toOpFields) := by
  unfold SqliteAdapter.allOps
  rw [h.opRows]
  refine mapM_of_forall fun o ho => StoredOp.toOp_opRow (hs.logged (k := o.id) ?_)
  exact hs.keyed.mem_allOps.1 ho

/-- Filtering before sorting is filtering after it. -/
theorem filter_allOps (hk : s.Keyed) (frontier : Frontier) :
    s.allOps.filter (aboveFrontier · frontier) = s.opsSince frontier := by
  refine List.Perm.eq_of_pairwise (fun a b ha hb hab hba => ?_)
    ((List.pairwise_insertionSort _ _).filter _) (List.pairwise_insertionSort _ _)
    (((List.perm_insertionSort _ _).filter _).trans (List.perm_insertionSort _ _).symm)
  have ha := hk.mem_allOps.1 (List.mem_of_mem_filter ha)
  have hb := (hk.mem_opsSince.1 hb).1
  refine MemoryAdapter.logged_inj ha hb ?_
  rw [a.id_eq_hlc, b.id_eq_hlc]
  exact le_antisymm hab hba

theorem opsSince (h : OnSqlite s db) (hs : s.Stocked) (frontier : Frontier) :
    db.opsSince frontier = some ((s.opsSince frontier).map fun o => o.toOpFields) := by
  have hall := h.allOps hs
  unfold SqliteAdapter.allOps at hall
  unfold SqliteAdapter.opsSince
  rw [hall, ← filter_allOps hs.keyed]
  change some ((s.allOps.map fun o => o.toOpFields).filter _) = _
  rw [List.filter_map]
  rfl

/-- **SQLite answers as memory does.** -/
theorem answers (h : OnSqlite s db) (hs : s.Stocked) : Answers s db where
  getRow := h.getRow hs
  listRows := h.listRows hs.keyed
  listTables := h.listTables hs.keyed
  hasOp id := by
    unfold SqliteAdapter.hasOp MemoryAdapter.hasOp
    rw [h.ops, OrderedMap.get_map, Option.isSome_map]
  getWinner := h.getWinner hs
  opsSince := h.opsSince hs
  allOps := h.allOps hs
  opCount := by
    unfold SqliteAdapter.opCount MemoryAdapter.opCount
    rw [h.ops]
    exact List.length_map _
  getFrontier := h.frontier
  getClock := h.clock
  getPeerFrontiers := h.peers
  getDeviceKey := h.deviceKey

end OnSqlite

/-! ## Every run -/

/-- The two stores after the same calls. -/
structure Stores where
  memory : MemoryAdapter
  tables : SqliteAdapter

namespace Stores

def empty : Stores := ⟨.empty, .empty⟩

/-- A call on the tables, of which some statements may throw; in memory the same call, if
it completed. -/
def step (s : Stores) (attempt : (Nat → Bool) × StoreCall) : Stores :=
  let written := s.tables.make attempt.1 attempt.2
  ⟨if written.1 then s.memory.make attempt.2 else s.memory, written.2⟩

/-- The tables simulate the maps. -/
structure Tied (s : Stores) : Prop where
  stocked : s.memory.Stocked
  tables : OnSqlite s.memory s.tables

theorem Tied.step {s : Stores} (h : s.Tied) (attempt : (Nat → Bool) × StoreCall)
    (hb : s.memory.Built attempt.2) : (s.step attempt).Tied := by
  unfold Stores.step
  simp only
  rcases h.tables.make attempt.1 hb with hm | ⟨hok, hm⟩
  · rw [hm]
    exact h
  · rw [hok]
    exact ⟨h.stocked.make hb, hm⟩

end Stores

end TangentFeed.Dart
