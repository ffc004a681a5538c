import TangentFeed.Core.Compaction
import TangentFeed.Dart.Op

/-!
# The in-memory store in Dart

The `MemoryAdapter` of the Dart implementation: the log by id and the winners by
cell, in maps that keep the order of insertion. An operation in a store is one
that `validate` accepts, so it has a timestamp, and operations compare as their
timestamps do.
-/

namespace TangentFeed

/-! ## The timestamp of legal fields -/

namespace OpFields

variable {μ ν : Type} {f : OpFields μ} {g : OpFields ν}

/-- The timestamp without its device, in counter units. -/
def ticks (f : OpFields μ) : Nat :=
  match decodeHlc f.hlc with
  | .ok h => h.ticks
  | .error _ => 0

theorem ticks_eq {h : Hlc} (e : decodeHlc f.hlc = .ok h) : f.ticks = h.ticks := by
  unfold ticks
  rw [e]

theorem ticks_congr (h : f.hlc = g.hlc) : f.ticks = g.ticks := by
  unfold ticks
  rw [h]

theorem Legal.decode (hf : f.Legal) :
    ∃ h : Hlc, decodeHlc f.hlc = .ok h ∧ h.InRange ∧ f.hlc = encodeHlc h ∧ f.device = h.deviceId := by
  obtain ⟨h, hr, he, hd⟩ := hf.hlc
  exact ⟨h, by rw [he, decodeHlc_encodeHlc hr], hr, he, hd⟩

/-- Legal fields are ordered by ticks, then by device. -/
theorem Legal.hlc_lt (hf : f.Legal) (hg : g.Legal) :
    f.hlc < g.hlc ↔ f.ticks < g.ticks ∨ f.ticks = g.ticks ∧ f.device < g.device := by
  obtain ⟨a, ha, hra, ea, hda⟩ := hf.decode
  obtain ⟨b, hb, hrb, eb, hdb⟩ := hg.decode
  rw [ea, eb, encodeHlc_lt hra hrb, ticks_eq ha, ticks_eq hb, hda, hdb]

end OpFields

namespace Dart

/-- An operation that `validate` accepts. -/
structure StoredOp extends OpFields (Doc AnyNum) where
  valid : Op.validate toOpFields = .ok ()

namespace StoredOp

@[ext] theorem ext {o p : StoredOp} (h : o.toOpFields = p.toOpFields) : o = p := by
  cases o; cases p; cases h; rfl

theorem legal (o : StoredOp) : o.toOpFields.Legal := (validate_eq_ok.1 o.valid).1

theorem id_eq_hlc (o : StoredOp) : o.id = o.hlc := o.legal.id

def cell (o : StoredOp) : Cell := (o.table, o.row, o.column)

/-- The timestamp of the operation, in counter units. -/
def ticks (o : StoredOp) : Nat := o.toOpFields.ticks

theorem hlc_lt {o p : StoredOp} :
    o.hlc < p.hlc ↔ o.ticks < p.ticks ∨ o.ticks = p.ticks ∧ o.device < p.device :=
  o.legal.hlc_lt p.legal

theorem ticks_congr {o p : StoredOp} (h : o.hlc = p.hlc) : o.ticks = p.ticks :=
  OpFields.ticks_congr h

end StoredOp

/-- `v == true`. -/
def isTrue : Doc AnyNum → Bool
  | .bool b => b
  | _ => false

/-! ## Frontiers -/

/-- Whether the operation is strictly above the frontier. -/
def aboveFrontier (op : StoredOp) (frontier : Frontier) : Bool :=
  match frontier[op.device]? with
  | none => true
  | some seen => seen < op.hlc

/-- The frontier advanced to include the operation. -/
def advanceFrontier (frontier : Frontier) (op : StoredOp) : Frontier :=
  match frontier[op.device]? with
  | none => frontier.insert op.device op.hlc
  | some seen => if seen < op.hlc then frontier.insert op.device op.hlc else frontier

/-! ## The adapter -/

/-- Log append, cell updates and frontier advance, as one unit. -/
structure BatchWrite where
  ops : List StoredOp
  winners : OrderedMap Cell StoredOp
  frontier : Frontier
  clock : Option Hlc

structure MemoryAdapter where
  log : OrderedMap JsString StoredOp
  winners : OrderedMap Cell StoredOp
  frontier : Frontier
  clock : Option Hlc
  deviceKey : Option DeviceKey
  peerFrontiers : JsMap Frontier

namespace MemoryAdapter

def empty : MemoryAdapter := ⟨.empty, .empty, ∅, none, none, ∅⟩

/-- One turn of the loop of `getRow`. -/
def collect (table row : JsString) (out : Option (OrderedMap JsString StoredOp))
    (e : Cell × StoredOp) : Option (OrderedMap JsString StoredOp) :=
  if e.1.1 = table ∧ e.1.2.1 = row then some ((out.getD .empty).set e.1.2.2 e.2) else out

/-- The winning cells of a row, column to operation; `none` if there are none. -/
def getRow (s : MemoryAdapter) (table row : JsString) : Option (OrderedMap JsString StoredOp) :=
  s.winners.entries.foldl (collect table row) none

/-- The rows of a table, each once and sorted. -/
def listRows (s : MemoryAdapter) (table : JsString) : List JsString :=
  sortStrings (((s.winners.keys.filter fun key => key.1 = table).map fun key => key.2.1).dedup)

def listTables (s : MemoryAdapter) : List JsString :=
  sortStrings ((s.winners.keys.map fun key => key.1).dedup)

def hasOp (s : MemoryAdapter) (id : JsString) : Bool := (s.log.get id).isSome

def getWinner (s : MemoryAdapter) (table row column : JsString) : Option StoredOp :=
  s.winners.get (table, row, column)

/-- Every stored operation strictly above `frontier`, ascending by HLC. -/
def opsSince (s : MemoryAdapter) (frontier : Frontier) : List StoredOp :=
  (s.log.values.filter (aboveFrontier · frontier)).insertionSort fun a b => a.hlc ≤ b.hlc

/-- Every operation in the log, ascending by HLC. -/
def allOps (s : MemoryAdapter) : List StoredOp :=
  s.log.values.insertionSort fun a b => a.hlc ≤ b.hlc

def opCount (s : MemoryAdapter) : Nat := s.log.size

def applyBatch (s : MemoryAdapter) (batch : BatchWrite) : MemoryAdapter :=
  { s with
    log := batch.ops.foldl (fun log op => log.set op.id op) s.log
    winners := batch.winners.entries.foldl (fun winners e => winners.set e.1 e.2) s.winners
    frontier := batch.frontier
    clock := batch.clock.or s.clock }

def setPeerFrontier (s : MemoryAdapter) (peer : JsString) (frontier : Frontier) : MemoryAdapter :=
  { s with peerFrontiers := s.peerFrontiers.insert peer frontier }

def compact (s : MemoryAdapter) (opIds : List JsString) (cellKeys : List Cell) : MemoryAdapter :=
  { s with
    log := opIds.foldl (fun log id => log.erase id) s.log
    winners := cellKeys.foldl (fun winners key => winners.erase key) s.winners }

end MemoryAdapter

end Dart

end TangentFeed
