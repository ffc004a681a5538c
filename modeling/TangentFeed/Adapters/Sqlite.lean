import Mathlib.Data.List.Dedup
import TangentFeed.Adapters.Writes

/-!
# The SQLite adapter

The three tables as finite maps by primary key; texts compare code unit by code
unit. A column that holds JSON is kept as the value that `JSON.parse` reads
from it. A call that writes is a list of statements in one transaction, which
is rolled back when a statement throws.
-/

namespace TangentFeed

open PromiseChain

/-- A row of `ops`. -/
structure OpRow where
  id : JsString
  tableName : JsString
  rowId : JsString
  columnName : JsString
  value : Json
  hlc : JsString
  device : JsString
  sig : JsString

/-- The row that an operation is inserted as. -/
def OpRow.ofOp (op : Op) : OpRow :=
  ⟨op.id, op.table, op.row, op.column, op.value.reparsed, op.hlc, op.device, op.sig⟩

/-- `toOp`. -/
def OpRow.toOp (r : OpRow) : Json :=
  .obj [(js "id", .str r.id), (js "table", .str r.tableName), (js "row", .str r.rowId),
    (js "column", .str r.columnName), (js "value", r.value), (js "hlc", .str r.hlc),
    (js "device", .str r.device), (js "sig", .str r.sig)]

/-- `cells` is keyed by table, row and column, and holds `op_json`. -/
structure SqliteDb where
  ops : JsMap OpRow
  cells : Std.ExtTreeMap (List JsString) Json compare
  «meta» : MetaRows

/-- Operations by HLC. -/
def sortByHlc (ops : List Json) : List Json :=
  ops.insertionSort fun a b => a.getStr (js "hlc") ≤ b.getStr (js "hlc")

namespace SqliteDb

def empty : SqliteDb := ⟨∅, ∅, .empty⟩

/-! ## Reads -/

instance transPrimaryKeys : Std.TransOrd (List JsString) := inferInstance

/-- `SELECT column_name, op_json FROM cells WHERE table_name = ? AND row_id = ?`. -/
def rowCells (db : SqliteDb) (table row : JsString) : List (JsString × Json) :=
  db.cells.toList.filterMap fun
    | ([t, r, c], op) => if t = table ∧ r = row then some (c, op) else none
    | _ => none

def getRow (db : SqliteDb) (table row : JsString) : Option (JsMap Json) :=
  let rows := db.rowCells table row
  if rows.length = 0 then none else some (rows.foldl (fun out x => out.insert x.1 x.2) ∅)

/-- `SELECT DISTINCT row_id FROM cells WHERE table_name = ?`. -/
def listRows (db : SqliteDb) (table : JsString) : List JsString :=
  (db.cells.toList.filterMap fun
    | ([t, r, _], _) => if t = table then some r else none
    | _ => none).dedup

/-- `SELECT DISTINCT table_name FROM cells`. -/
def listTables (db : SqliteDb) : List JsString :=
  (db.cells.toList.filterMap fun
    | ([t, _, _], _) => some t
    | _ => none).dedup

def hasOp (db : SqliteDb) (id : JsString) : Bool := db.ops.contains id

def getWinner (db : SqliteDb) (table row column : JsString) : Option Json :=
  db.cells[[table, row, column]]?

/-- `SELECT * FROM ops ORDER BY id`. -/
def opRows (db : SqliteDb) : List OpRow := db.ops.toList.map Prod.snd

/-- `SELECT * FROM ops WHERE device = ? AND hlc > ? ORDER BY hlc`. -/
def opsAboveFor (db : SqliteDb) (device hlc : JsString) : List OpRow :=
  (db.opRows.filter fun r => r.device = device ∧ hlc < r.hlc).insertionSort
    fun a b => a.hlc ≤ b.hlc

/-- Per device of the frontier, then everything from devices absent from it. -/
def opsSince (db : SqliteDb) (frontier : Frontier) : List Json :=
  if frontier.toList.length = 0 then db.opRows.map OpRow.toOp
  else
    let above := frontier.toList.flatMap fun (device, hlc) => db.opsAboveFor device hlc
    let others := db.opRows.filter fun r =>
      frontier[r.device]? = none ∧ r.id ∉ above.map OpRow.id
    sortByHlc ((above ++ others).map OpRow.toOp)

def allOps (db : SqliteDb) : List Json := db.opRows.map OpRow.toOp

def opCount (db : SqliteDb) : Nat := db.ops.size

def getFrontier (db : SqliteDb) : Frontier := db.meta.frontier.getD ∅

def getClock (db : SqliteDb) : Option ClockState := db.meta.clock

def getPeerFrontiers (db : SqliteDb) : JsMap Frontier := db.meta.peers.getD ∅

/-! ## Statements -/

/-- `INSERT OR IGNORE INTO ops`. -/
def insertOp (op : Op) (db : SqliteDb) : SqliteDb :=
  if db.ops.contains op.id then db else { db with ops := db.ops.insert op.id (OpRow.ofOp op) }

def deleteOp (id : JsString) (db : SqliteDb) : SqliteDb := { db with ops := db.ops.erase id }

/-- The primary key of the cell that a cell key names. -/
def primaryKey (key : JsString) : List JsString :=
  [(splitKey key).1, (splitKey key).2.1, (splitKey key).2.2]

def upsertCell (key : JsString) (op : Op) (db : SqliteDb) : SqliteDb :=
  { db with cells := db.cells.insert (primaryKey key) op.raw.reparsed }

def deleteCell (key : JsString) (db : SqliteDb) : SqliteDb :=
  { db with cells := db.cells.erase (primaryKey key) }

def setFrontier (frontier : Frontier) (db : SqliteDb) : SqliteDb :=
  { db with «meta» := { db.meta with frontier := some frontier } }

def setClock (clock : ClockState) (db : SqliteDb) : SqliteDb :=
  { db with «meta» := { db.meta with clock := some clock } }

def setPeers (peers : JsMap Frontier) (db : SqliteDb) : SqliteDb :=
  { db with «meta» := { db.meta with peers := some peers } }

/-- `{ ...current, [peer]: frontier }`, written after the await. -/
def setPeerFrontier (peer : JsString) (frontier : Frontier) : Body SqliteDb Unit :=
  readModifyWrite getPeerFrontiers setPeers fun current => current.insert peer frontier

/-- The statements of a call, in order. -/
def statements : Write → List (SqliteDb → SqliteDb)
  | .batch b =>
    b.ops.map insertOp ++ b.winners.toList.map (fun (key, op) => upsertCell key op) ++
      [setFrontier b.frontier, setClock b.clock]
  | .compaction w => w.opIds.map deleteOp ++ w.cellKeys.map deleteCell

/-! ## Transactions -/

/-- What is committed, and what the open transaction has made of it. -/
structure Connection where
  committed : SqliteDb
  working : Option SqliteDb

namespace Connection

def begin (c : Connection) : Connection := { c with working := some c.committed }

def run (statement : SqliteDb → SqliteDb) (c : Connection) : Connection :=
  match c.working with
  | none => { c with committed := statement c.committed }
  | some db => { c with working := some (statement db) }

def commit (c : Connection) : Connection := ⟨c.working.getD c.committed, none⟩

def rollback (c : Connection) : Connection := { c with working := none }

/-- `fn()`: the statements up to the first that throws. -/
def runAll (throws : Nat → Bool) : List (SqliteDb → SqliteDb) → Nat → Connection → Bool × Connection
  | [], _, c => (true, c)
  | statement :: rest, n, c =>
    if throws n then (false, c) else runAll throws rest (n + 1) (c.run statement)

end Connection

/-- `this.transaction(fn)`; whether it returns, and the database after. `BEGIN`
is statement 0 and `COMMIT` the last. -/
def transaction (throws : Nat → Bool) (statements : List (SqliteDb → SqliteDb)) (db : SqliteDb) :
    Bool × SqliteDb :=
  let c : Connection := ⟨db, none⟩
  if throws 0 then (false, c.committed)
  else
    let ran := c.begin.runAll throws statements 1
    if ran.1 && !throws (statements.length + 1) then (true, ran.2.commit.committed)
    else (false, ran.2.rollback.committed)

def write (throws : Nat → Bool) (db : SqliteDb) (w : Write) : Bool × SqliteDb :=
  transaction throws (statements w) db

end SqliteDb

end TangentFeed
