import TangentFeed.Adapters.Idb
import TangentFeed.Adapters.Sqlite
import TangentFeed.Lib.OrderedMap

/-!
# What the adapters answer

`Reads` are the answers of a store to every read, with operations as the JSON
they travel as, and `Reads.Same` says that two stores give the same ones. A row
of SQLite gives an operation back field by field: `canonicalJson_toOp`.
-/

namespace TangentFeed

/-- The answers of a store to every read. -/
structure Reads where
  getRow : JsString → JsString → Option (JsMap Json)
  listRows : JsString → List JsString
  listTables : List JsString
  hasOp : JsString → Bool
  getWinner : JsString → JsString → JsString → Option Json
  opsSince : Frontier → List Json
  allOps : List Json
  opCount : Nat
  getFrontier : Frontier
  getClock : Option ClockState
  getPeerFrontiers : JsMap Frontier

def MemoryAdapter.reads (s : MemoryAdapter) : Reads where
  getRow table row := (s.getRow table row).map fun cells => cells.map fun _ op => op.raw
  listRows := s.listRows
  listTables := s.listTables
  hasOp := s.hasOp
  getWinner table row column := (s.getWinner table row column).map Op.raw
  opsSince frontier := (s.opsSince frontier).map Op.raw
  allOps := s.allOps.map Op.raw
  opCount := s.opCount
  getFrontier := s.frontier
  getClock := s.clock
  getPeerFrontiers := s.peerFrontiers

def SqliteDb.reads (db : SqliteDb) : Reads where
  getRow := db.getRow
  listRows := db.listRows
  listTables := db.listTables
  hasOp := db.hasOp
  getWinner := db.getWinner
  opsSince := db.opsSince
  allOps := db.allOps
  opCount := db.opCount
  getFrontier := db.getFrontier
  getClock := db.getClock
  getPeerFrontiers := db.getPeerFrontiers

def IdbStores.reads (s : IdbStores) : Reads where
  getRow table row := (s.getRow table row).map fun cells => cells.map fun _ op => op.raw
  listRows := s.listRows
  listTables := s.listTables
  hasOp := s.hasOp
  getWinner table row column := (s.getWinner table row column).map Op.raw
  opsSince frontier := (s.opsSince frontier).map Op.raw
  allOps := s.allOps.map Op.raw
  opCount := s.opCount
  getFrontier := s.getFrontier
  getClock := s.getClock
  getPeerFrontiers := s.getPeerFrontiers

/-- The same answers, about the rows of the tables `asked`: rows and tables in
any order, operations up to canonical JSON. -/
structure Reads.Same (asked : JsString → Prop) (a b : Reads) : Prop where
  getRow : ∀ table row, (a.getRow table row).map (fun cells => cells.map fun _ => canonicalJson) =
    (b.getRow table row).map fun cells => cells.map fun _ => canonicalJson
  listRows : ∀ table, asked table → (a.listRows table).Perm (b.listRows table)
  listTables : a.listTables.Perm b.listTables
  hasOp : a.hasOp = b.hasOp
  getWinner : ∀ table row column,
    (a.getWinner table row column).map canonicalJson = (b.getWinner table row column).map canonicalJson
  opsSince : ∀ frontier,
    (a.opsSince frontier).map canonicalJson = (b.opsSince frontier).map canonicalJson
  allOps : a.allOps.map canonicalJson = b.allOps.map canonicalJson
  opCount : a.opCount = b.opCount
  getFrontier : a.getFrontier = b.getFrontier
  getClock : a.getClock = b.getClock
  getPeerFrontiers : a.getPeerFrontiers = b.getPeerFrontiers

/-! ## Operations as rows -/

/-- The fields of an operation. -/
def opFields : List JsString :=
  [js "id", js "table", js "row", js "column", js "value", js "hlc", js "device", js "sig"]

/-- An object with the eight fields, in any order. -/
def EightFields (op : Op) : Prop := ∃ fs, op.raw = .obj fs ∧ (fs.map Prod.fst).Perm opFields

instance (op : Op) : Decidable (EightFields op) :=
  match h : op.raw with
  | .obj fs => decidable_of_iff ((fs.map Prod.fst).Perm opFields)
    ⟨fun hp => ⟨fs, h, hp⟩, fun ⟨_, h', hp⟩ => by
      obtain rfl := Json.obj.inj (h.symm.trans h')
      exact hp⟩
  | .null => .isFalse fun ⟨_, h', _⟩ => by rw [h] at h'; cases h'
  | .bool _ => .isFalse fun ⟨_, h', _⟩ => by rw [h] at h'; cases h'
  | .num _ => .isFalse fun ⟨_, h', _⟩ => by rw [h] at h'; cases h'
  | .str _ => .isFalse fun ⟨_, h', _⟩ => by rw [h] at h'; cases h'
  | .arr _ => .isFalse fun ⟨_, h', _⟩ => by rw [h] at h'; cases h'

/-- A list of properties with distinct names is what it says of each name. -/
theorem perm_lookup {fs : List (JsString × Json)} {names : List JsString}
    (h : (fs.map Prod.fst).Perm names) (hn : names.Nodup) :
    fs.Perm (names.map fun k => (k, (fs.lookup k).getD .null)) := by
  have hfs : fs = (fs.map Prod.fst).map fun k => (k, (fs.lookup k).getD .null) := by
    rw [List.map_map]
    conv_lhs => rw [← List.map_id fs]
    apply List.map_congr_left
    rintro ⟨k, v⟩ hm
    simp only [id, Function.comp_apply, (OrderedMap.mem_iff_lookup (h.nodup_iff.2 hn)).1 hm,
      Option.getD_some]
  have hp := h.map fun k => (k, (fs.lookup k).getD Json.null)
  rw [← hfs] at hp
  exact hp

/-- **A row is read back as the operation**, up to canonical JSON. -/
theorem canonicalJson_toOp {op : Op} (h : EightFields op) :
    canonicalJson (OpRow.ofOp op).toOp = canonicalJson op.raw := by
  obtain ⟨fs, hraw, hperm⟩ := h
  have hn : opFields.Nodup := by decide
  have hp := perm_lookup hperm hn
  have hstr : ∀ k ∈ stringFields, (fs.lookup k).getD .null = .str (op.raw.getStr k) := by
    intro k hk
    have := getStr_of_mem op hk
    rw [hraw] at this
    change fs.lookup k = _ at this
    rw [this, hraw]
    rfl
  have hval : (fs.lookup (js "value")).getD .null = op.value := by
    have := value_of_mem op
    rw [hraw] at this
    change fs.lookup _ = _ at this
    rw [this]
    rfl
  rw [hraw, canonicalJson_perm hp (hperm.nodup_iff.2 hn)]
  unfold opFields OpRow.toOp
  simp only [List.map_cons, List.map_nil]
  rw [hstr (js "id") (by decide), hstr (js "table") (by decide), hstr (js "row") (by decide),
    hstr (js "column") (by decide), hstr (js "hlc") (by decide), hstr (js "device") (by decide),
    hstr (js "sig") (by decide), hval]
  rw [canonicalJson, canonicalJson]
  simp only [canonicalFields]
  have hv : canonicalJson (OpRow.ofOp op).value = canonicalJson op.value :=
    canonicalJson_reparsed op.value
  rw [hv]
  rfl

end TangentFeed
