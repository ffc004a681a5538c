import TangentFeed.Adapters.Writes
import TangentFeed.Core.Replicator
import TangentFeed.Dart.Decoding
import TangentFeed.Dart.Storage

/-!
# The SQLite store in Dart

The `SqliteAdapter` of the Dart implementation: its three tables as maps by primary
key, whose rows hold text only. A value, a winner, the frontier, the clock, the device
key and the peers go in through `jsonEncode` and come out through `jsonDecode`; a read
is `none` when it throws. Texts are ordered as SQLite orders them, by their bytes.
-/

namespace TangentFeed.Dart

/-- A row of `ops`; `value` is JSON text. -/
structure OpRow where
  id : JsString
  tableName : JsString
  rowId : JsString
  columnName : JsString
  value : JsString
  hlc : JsString
  device : JsString
  sig : JsString

/-- `jsonEncode({'v': v})`. -/
def encodeValue (v : Doc AnyNum) : JsString := jsonEncodeAny (.obj [(js "v", v)])

/-- The row that an operation is inserted as. -/
def OpRow.ofOp (op : Op) : OpRow :=
  ⟨op.id, op.table, op.row, op.column, encodeValue op.value, op.hlc, op.device, op.sig⟩

/-- `_opFromRow`; an absent member is `null`. -/
def OpRow.toOp (r : OpRow) : Option Op :=
  match jsonDecodeAny r.value with
  | some (.obj fs) => some ⟨r.id, r.tableName, r.rowId, r.columnName,
      (lookup (.obj fs) (js "v")).getD .null, r.hlc, r.device, r.sig⟩
  | _ => none

/-- `Op.fromJson(jsonDecode(text))`. -/
def readOp (text : JsString) : Option Op := (jsonDecodeAny text).bind fun raw => (Op.fromJson raw).toOption

/-! ## Records of `meta` -/

/-- The object of a map. -/
def mapDoc {α : Type} (doc : α → Doc AnyNum) (m : JsMap α) : Doc AnyNum :=
  .obj (m.toList.map fun e => (e.1, doc e.2))

/-- An object as a map, each value cast. -/
def readMap {α : Type} (read : Doc AnyNum → Option α) : Doc AnyNum → Option (JsMap α)
  | .obj fs => fs.foldlM (fun m e => (read e.2).map (m.insert e.1)) ∅
  | _ => none

def readText : Doc AnyNum → Option JsString
  | .str s => some s
  | _ => none

def frontierDoc : Frontier → Doc AnyNum := mapDoc .str

/-- `(raw as Map).cast<String, String>()`. -/
def readFrontier : Doc AnyNum → Option Frontier := readMap readText

def peersDoc : JsMap Frontier → Doc AnyNum := mapDoc frontierDoc

def readPeers : Doc AnyNum → Option (JsMap Frontier) := readMap readFrontier

def clockDoc (clock : Hlc) : Doc AnyNum :=
  .obj [(js "millis", .num (.int (.ofNat clock.millis))),
    (js "counter", .num (.int (.ofNat clock.counter))), (js "deviceId", .str clock.deviceId)]

/-- The casts of `getClock`. A negative number, which no clock holds, is read as 0. -/
def readClock (raw : Doc AnyNum) : Option Hlc :=
  match lookup raw (js "millis"), lookup raw (js "counter"), lookup raw (js "deviceId") with
  | some (.num (.int millis)), some (.num (.int counter)), some (.str deviceId) =>
    some ⟨millis.toInt.toNat, counter.toInt.toNat, deviceId⟩
  | _, _, _ => none

/-- Pairs of units, each read by `int.parse` in base 16; a unit over is not read. -/
def unhexText : JsString → Option Bytes
  | a :: b :: rest =>
    if isHexUnit a && isHexUnit b then (unhexText rest).map (parseIntPair a b :: ·) else none
  | _ => some []

def keyDoc (key : DeviceKey) : Doc AnyNum :=
  .obj [(js "publicKey", .str (hex key.publicKey)), (js "privateKey", .str (hex key.privateKey))]

/-- The casts of `getDeviceKey`. -/
def readKey (raw : Doc AnyNum) : Option DeviceKey :=
  match lookup raw (js "publicKey"), lookup raw (js "privateKey") with
  | some (.str publicKey), some (.str privateKey) =>
    (unhexText publicKey).bind fun pub => (unhexText privateKey).map fun priv => ⟨pub, priv⟩
  | _, _ => none

/-! ## The tables -/

/-- `cells` holds `op_json` by table, row and column, `meta` its values by key. -/
structure SqliteAdapter where
  ops : OrderedMap JsString OpRow
  cells : OrderedMap Cell JsString
  «meta» : OrderedMap JsString JsString

/-- `ORDER BY` of a text. -/
def textLe (a b : JsString) : Bool := textEncode a ≤ textEncode b

namespace SqliteAdapter

def empty : SqliteAdapter := ⟨.empty, .empty, .empty⟩

/-! ## Reads -/

/-- `SELECT op_json FROM cells WHERE table_name = ? AND row_id = ?`, each row read. -/
def getRow (db : SqliteAdapter) (table row : JsString) : Option (Option (OrderedMap JsString Op)) :=
  let rows := (db.cells.entries.filter fun e => e.1.1 = table ∧ e.1.2.1 = row).map Prod.snd
  if rows.isEmpty then some none
  else (rows.mapM readOp).map fun ops =>
    some (ops.foldl (fun out op => out.set op.column op) .empty)

/-- `SELECT DISTINCT row_id FROM cells WHERE table_name = ? ORDER BY row_id`. -/
def listRows (db : SqliteAdapter) (table : JsString) : List JsString :=
  (((db.cells.keys.filter fun key => key.1 = table).map fun key => key.2.1).dedup).insertionSort
    fun a b => textLe a b

/-- `SELECT DISTINCT table_name FROM cells ORDER BY table_name`. -/
def listTables (db : SqliteAdapter) : List JsString :=
  ((db.cells.keys.map fun key => key.1).dedup).insertionSort fun a b => textLe a b

def hasOp (db : SqliteAdapter) (id : JsString) : Bool := (db.ops.get id).isSome

def getWinner (db : SqliteAdapter) (table row column : JsString) : Option (Option Op) :=
  match db.cells.get (table, row, column) with
  | none => some none
  | some text => (readOp text).map some

/-- `SELECT * FROM ops ORDER BY hlc`. -/
def opRows (db : SqliteAdapter) : List OpRow :=
  db.ops.values.insertionSort fun a b => textLe a.hlc b.hlc

/-- Whether the operation is strictly above the frontier. -/
def aboveFrontier (op : Op) (frontier : Frontier) : Bool :=
  match frontier[op.device]? with
  | none => true
  | some seen => seen < op.hlc

/-- Filtered in Dart. -/
def opsSince (db : SqliteAdapter) (frontier : Frontier) : Option (List Op) :=
  (db.opRows.mapM OpRow.toOp).map (·.filter (aboveFrontier · frontier))

def allOps (db : SqliteAdapter) : Option (List Op) := db.opRows.mapM OpRow.toOp

def opCount (db : SqliteAdapter) : Nat := db.ops.size

/-- The record of `meta` under `key`, decoded; `absent` when there is none. -/
def readMeta {α : Type} (db : SqliteAdapter) (key : JsString) (absent : α)
    (read : Doc AnyNum → Option α) : Option α :=
  match db.meta.get key with
  | none => some absent
  | some text => (jsonDecodeAny text).bind read

def getFrontier (db : SqliteAdapter) : Option Frontier := db.readMeta (js "frontier") ∅ readFrontier

def getClock (db : SqliteAdapter) : Option (Option Hlc) :=
  db.readMeta (js "clock") none fun raw => (readClock raw).map some

def getDeviceKey (db : SqliteAdapter) : Option (Option DeviceKey) :=
  db.readMeta (js "deviceKey") none fun raw => (readKey raw).map some

def getPeerFrontiers (db : SqliteAdapter) : Option (JsMap Frontier) :=
  db.readMeta (js "peers") ∅ readPeers

/-! ## Statements -/

/-- `INSERT OR IGNORE INTO ops`. -/
def insertOp (op : Op) (db : SqliteAdapter) : SqliteAdapter :=
  if db.hasOp op.id then db else { db with ops := db.ops.set op.id (.ofOp op) }

def upsertCell (key : Cell) (op : Op) (db : SqliteAdapter) : SqliteAdapter :=
  { db with cells := db.cells.set key (jsonEncodeAny op.toJson) }

def deleteOp (id : JsString) (db : SqliteAdapter) : SqliteAdapter := { db with ops := db.ops.erase id }

def deleteCell (key : Cell) (db : SqliteAdapter) : SqliteAdapter :=
  { db with cells := db.cells.erase key }

def upsertMeta (key : JsString) (value : Doc AnyNum) (db : SqliteAdapter) : SqliteAdapter :=
  { db with «meta» := db.meta.set key (jsonEncodeAny value) }

/-- The statements of `applyBatch`, in order. -/
def batchStatements (b : BatchWrite) : List (SqliteAdapter → SqliteAdapter) :=
  b.ops.map (fun op => insertOp op.toOpFields) ++
    b.winners.entries.map (fun e => upsertCell e.1 e.2.toOpFields) ++
      upsertMeta (js "frontier") (frontierDoc b.frontier) ::
        b.clock.toList.map fun clock => upsertMeta (js "clock") (clockDoc clock)

/-- The statements of `compact`, in order. -/
def compactStatements (opIds : List JsString) (cellKeys : List Cell) :
    List (SqliteAdapter → SqliteAdapter) :=
  opIds.map deleteOp ++ cellKeys.map deleteCell

/-- `_db.transaction(body)`, rolled back when it throws: whether it completes, and the
tables after. It begins with statement 0 and commits with the last. -/
def transaction (throws : Nat → Bool) (statements : List (SqliteAdapter → SqliteAdapter))
    (db : SqliteAdapter) : Bool × SqliteAdapter :=
  if throws 0 then (false, db)
  else
    match attempt throws statements 1 db with
    | none => (false, db)
    | some db' => if throws (statements.length + 1) then (false, db) else (true, db')

end SqliteAdapter

/-- A call of an adapter that writes. -/
inductive StoreCall where
  | applyBatch (batch : BatchWrite)
  | compact (opIds : List JsString) (cellKeys : List Cell)
  | setPeerFrontier (peer : JsString) (frontier : Frontier)
  | setDeviceKey (key : DeviceKey)

/-- The call in memory. -/
def MemoryAdapter.make (s : MemoryAdapter) : StoreCall → MemoryAdapter
  | .applyBatch batch => s.applyBatch batch
  | .compact opIds cellKeys => s.compact opIds cellKeys
  | .setPeerFrontier peer frontier => s.setPeerFrontier peer frontier
  | .setDeviceKey key => { s with deviceKey := some key }

/-- The call on the tables, where statement `n` throws if `throws n`. A recorded peer is
read, changed and written back. -/
def SqliteAdapter.make (throws : Nat → Bool) (db : SqliteAdapter) : StoreCall → Bool × SqliteAdapter
  | .applyBatch batch => transaction throws (batchStatements batch) db
  | .compact opIds cellKeys => transaction throws (compactStatements opIds cellKeys) db
  | .setPeerFrontier peer frontier =>
    if throws 0 then (false, db)
    else
      match db.getPeerFrontiers with
      | none => (false, db)
      | some current =>
        if throws 1 then (false, db)
        else (true, upsertMeta (js "peers") (peersDoc (current.insert peer frontier)) db)
  | .setDeviceKey key =>
    if throws 0 then (false, db) else (true, upsertMeta (js "deviceKey") (keyDoc key) db)

end TangentFeed.Dart
