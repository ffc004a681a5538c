import Mathlib.Data.List.Dedup
import TangentFeed.Adapters.Writes

/-!
# The IndexedDB adapter

The object stores as maps ordered by their string keys; `cells` is keyed by
`cellKey`, so that a range of keys is a table or a row. A call that writes
queues its requests in one transaction, which commits what was queued unless a
request fails.
-/

namespace TangentFeed

open PromiseChain

/-- `"\uffff"`. -/
def high : CodeUnit := 0xffff

structure IdbStores where
  ops : JsMap Op
  cells : JsMap Op
  «meta» : MetaRows

namespace IdbStores

def empty : IdbStores := ⟨∅, ∅, .empty⟩

/-! ## Reads -/

/-- The records of `cells` whose key is between the prefix and the prefix with
`"\uffff"` after it, and all of them for the empty one. -/
def rangeScan (s : IdbStores) (start : JsString) : List (JsString × Op) :=
  if start = [] then s.cells.toList
  else s.cells.toList.filter fun (key, _) => start ≤ key ∧ key ≤ start ++ [high]

def getRow (s : IdbStores) (table row : JsString) : Option (JsMap Op) :=
  let start := table ++ sep :: row ++ [sep]
  let entries := s.rangeScan start
  if entries.length = 0 then none
  else some (entries.foldl (fun out x => out.insert (x.1.drop start.length) x.2) ∅)

/-- `s.slice(0, s.indexOf(SEP))`; without a separator the index is −1 and the
last unit is cut. -/
def beforeSep (s : JsString) : JsString := if sep ∈ s then s.takeWhile (· ≠ sep) else s.dropLast

def listRows (s : IdbStores) (table : JsString) : List JsString :=
  let start := table ++ [sep]
  ((s.rangeScan start).map fun (key, _) => beforeSep (key.drop start.length)).dedup

def listTables (s : IdbStores) : List JsString :=
  ((s.rangeScan []).map fun (key, _) => beforeSep key).dedup

def hasOp (s : IdbStores) (id : JsString) : Bool := s.ops.contains id

def getWinner (s : IdbStores) (table row column : JsString) : Option Op :=
  s.cells[cellKey table row column]?

/-- A cursor over `ops`, whose key order is the order of the HLCs. -/
def opsSince (s : IdbStores) (frontier : Frontier) : List Op :=
  (s.ops.toList.map Prod.snd).filter (aboveFrontier · frontier)

def allOps (s : IdbStores) : List Op := s.ops.toList.map Prod.snd

def opCount (s : IdbStores) : Nat := s.ops.size

def getFrontier (s : IdbStores) : Frontier := s.meta.frontier.getD ∅

def getClock (s : IdbStores) : Option ClockState := s.meta.clock

def getPeerFrontiers (s : IdbStores) : JsMap Frontier := s.meta.peers.getD ∅

/-! ## Requests -/

def putOp (op : Op) (s : IdbStores) : IdbStores := { s with ops := s.ops.insert op.id op }

def putCell (key : JsString) (op : Op) (s : IdbStores) : IdbStores :=
  { s with cells := s.cells.insert key op }

def deleteOp (id : JsString) (s : IdbStores) : IdbStores := { s with ops := s.ops.erase id }

def deleteCell (key : JsString) (s : IdbStores) : IdbStores :=
  { s with cells := s.cells.erase key }

def putFrontier (frontier : Frontier) (s : IdbStores) : IdbStores :=
  { s with «meta» := { s.meta with frontier := some frontier } }

def putClock (clock : ClockState) (s : IdbStores) : IdbStores :=
  { s with «meta» := { s.meta with clock := some clock } }

def putPeers (peers : JsMap Frontier) (s : IdbStores) : IdbStores :=
  { s with «meta» := { s.meta with peers := some peers } }

/-- Two transactions, one to read and one to write. -/
def setPeerFrontier (peer : JsString) (frontier : Frontier) : Body IdbStores Unit :=
  readModifyWrite getPeerFrontiers putPeers fun current => current.insert peer frontier

/-- The requests of a call, in order. -/
def requests : Write → List (IdbStores → IdbStores)
  | .batch b =>
    b.ops.map putOp ++ b.winners.toList.map (fun (key, op) => putCell key op) ++
      [putFrontier b.frontier, putClock b.clock]
  | .compaction w => w.opIds.map deleteOp ++ w.cellKeys.map deleteCell

/-! ## Transactions -/

/-- The requests queued before one throws, and whether none does. -/
def queue (throws : Nat → Bool) :
    List (IdbStores → IdbStores) → Nat → Bool × List (IdbStores → IdbStores)
  | [], _ => (true, [])
  | request :: rest, n =>
    if throws n then (false, [])
    else ((queue throws rest (n + 1)).1, request :: (queue throws rest (n + 1)).2)

/-- Whether the call resolves, and the stores after. A request that fails aborts
the transaction; an exception while the requests are queued rejects the call
and leaves the transaction to commit. -/
def write (faults : Faults) (s : IdbStores) (w : Write) : Bool × IdbStores :=
  let queued := queue faults.throws (requests w) 0
  match attempt faults.fails queued.2 0 s with
  | none => (false, s)
  | some s' => (queued.1, s')

end IdbStores

end TangentFeed
