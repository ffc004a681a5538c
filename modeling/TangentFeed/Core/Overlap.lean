import TangentFeed.Core.Engine
import TangentFeed.Lib.PromiseChain

/-!
# Overlapping calls

The mutations of the engine as `locked` runs them: stretches of code between
awaits, with every read and every transaction of the store an await that may
reject. A call takes part in the lock's promise chain, unless it is refused
before it waits. `sequentially` makes the calls one after another.
-/

namespace TangentFeed

open PromiseChain

/-- The engine, whether its `n`-th read of the store rejects, and the change
events so far. The engine numbers its transactions itself. -/
structure World where
  engine : SyncEngine
  readFails : Nat → Bool
  reads : Nat
  events : List ChangeEvent

/-- What a call resolves to. -/
inductive Answer where
  | undefined
  | row (id : JsString)
  | count (n : Nat)
  | stats (s : CompactionStats)
  deriving DecidableEq, Repr

abbrev Settlement := Except JsError Answer

abbrev Locked := Body World Settlement

namespace Locked

/-- The code between two awaits; what it throws rejects the call. -/
def acting {α : Type} (f : SyncEngine → Except JsError α × SyncEngine) (next : α → Locked) :
    Locked :=
  .waiting (fun w => { w with engine := (f w.engine).2 }) fun w =>
    match (f w.engine).1 with
    | .error err => .settled (.error err)
    | .ok a => next a

/-- `await` of a read. -/
def reading {α : Type} (f : MemoryAdapter → α) (next : α → Locked) : Locked :=
  .waiting (fun w => { w with reads := w.reads + 1 }) fun w =>
    if w.readFails w.reads then .settled (.error .storage) else next (f w.engine.storage)

/-- `await` of a transaction. -/
def writing (f : SyncEngine → MemoryAdapter) (next : Locked) : Locked :=
  .waiting (fun w => { w with engine := (w.engine.transact (f w.engine)).engine }) fun w =>
    match (w.engine.transact (f w.engine)).result with
    | .error err => .settled (.error err)
    | .ok () => next

/-- The subscribers are called, up to the first that throws. -/
def telling (event : ChangeEvent) (answer : Answer) : Locked :=
  .waiting (fun w => { w with events := w.events ++ [event] }) fun w =>
    match (SyncEngine.notify w.engine.subscribers event).2 with
    | none => .settled (.ok answer)
    | some id => .settled (.error (.callback id))

/-! ## The single mutation path -/

/-- `winners` after `op`, whose cell has no pending winner. -/
def firstWinner (winners : JsMap Op) (op : Op) (current : Option Op) : JsMap Op :=
  let key := cellKey op.table op.row op.column
  match current with
  | none => winners.insert key op
  | some cur => if cur.hlc < op.hlc then winners.insert key op else winners.insert key cur

/-- The loop of `commit`, the transaction and the event. -/
def commitLoop (ops : List Op) (origin : Origin) (answer : Answer) :
    List Op → JsMap Op × Frontier → Locked
  | [], acc =>
    writing (fun e => e.storage.applyBatch ⟨ops, acc.1, acc.2, e.clockState⟩)
      (telling (SyncEngine.changeEvent ops origin) answer)
  | op :: rest, acc =>
    match acc.1[cellKey op.table op.row op.column]? with
    | some pending =>
      commitLoop ops origin answer rest
        (if pending.hlc < op.hlc then acc.1.insert (cellKey op.table op.row op.column) op
          else acc.1, advanceFrontier acc.2 op)
    | none =>
      reading (·.getWinner op.table op.row op.column) fun current =>
        commitLoop ops origin answer rest
          (firstWinner acc.1 op current, advanceFrontier acc.2 op)

def commit (ops : List Op) (origin : Origin) (answer : Answer) : Locked :=
  reading (·.frontier) fun frontier => commitLoop ops origin answer ops (∅, frontier)

/-- The batch that only persists the clock. -/
def clockSaving (answer : Answer) : Locked :=
  reading (·.frontier) fun frontier =>
    writing (fun e => e.storage.applyBatch ⟨[], ∅, frontier, e.clockState⟩)
      (.settled (.ok answer))

/-! ## The bodies -/

variable (cr : Crypto)

/-- `update`, and `delete` with its one tombstone. -/
def localWrite (table row : JsString) (values : List (JsString × Json)) (answer : Answer) :
    Locked :=
  acting (fun e => e.makeLocalOps cr table row values) fun ops => commit ops .local answer

/-- The operations not in the log, each id once. -/
def freshLoop (next : List Op → Locked) : List Op → List Op → Locked
  | [], fresh => next fresh
  | op :: rest, fresh =>
    reading (·.hasOp op.id) fun has =>
      freshLoop next rest
        (if !has && !fresh.any (·.id == op.id) then fresh ++ [op] else fresh)

def mergeAdmitted (ops : List Op) : Locked :=
  acting (fun e => ((e.receiveMax ops).1.mapError .clock, (e.receiveMax ops).2)) fun _ =>
    freshLoop (fun fresh =>
      if fresh.isEmpty then clockSaving (.count 0)
      else commit fresh .remote (.count fresh.length)) ops []

/-- `clock.receive(decodeHlc(hlc))`. -/
def receive (hlc : JsString) (e : SyncEngine) : Except JsError Hlc × SyncEngine :=
  match decodeHlc hlc with
  | .error err => (.error (.clock err), e)
  | .ok remote => ((e.receiveClock remote).1.mapError .clock, (e.receiveClock remote).2)

def observeRemoteClock (hlc : JsString) : Locked :=
  acting (receive hlc) fun _ => clockSaving .undefined

/-- The rows of one table in `winningCells`. -/
def winningRows (table : JsString) (next : JsMap Op → Locked) : List JsString → JsMap Op → Locked
  | [], out => next out
  | row :: rest, out =>
    reading (·.getRow table row) fun cells =>
      winningRows table next rest
        ((cells.getD ∅).toList.foldl (fun out x => out.insert (cellKey table row x.1) x.2) out)

def winningTables (next : JsMap Op → Locked) : List JsString → JsMap Op → Locked
  | [], out => next out
  | table :: rest, out =>
    reading (·.listRows table) fun rows => winningRows table (winningTables next rest) rows out

def compact (opts : CompactionOptions) : Locked :=
  reading (·.frontier) fun own =>
    reading (·.peerFrontiers) fun peers =>
      reading (·.listTables) fun tables =>
        winningTables (fun winners =>
          reading (·.allOps) fun ops =>
            let plan := planCompaction ops winners (compactionHorizon own peers) opts
            let stats : Locked := .settled (.ok (.stats (plan.stats (blockingPeers own peers))))
            if !opts.dryRun && (0 < plan.opIds.length || 0 < plan.cellKeys.length) then
              writing (fun e => e.storage.compact ⟨plan.opIds, plan.cellKeys⟩) stats
            else stats) tables ∅

end Locked

/-! ## Calls -/

/-- A call; `insert` with the row id it generated. -/
inductive Request where
  | insert (table row : JsString) (values : Record)
  | update (table row : JsString) (values : Record)
  | delete (table row : JsString)
  | applyRemoteOps (remoteOps : List Json)
  | observeRemoteClock (hlc : JsString)
  | compact (opts : CompactionOptions)

variable (cr : Crypto)

/-- What a call does before it waits for the lock. -/
def Request.enter (e : SyncEngine) : Request → Entry World Settlement
  | insert table row values => .enter (Locked.localWrite cr table row values.entries (.row row))
  | update table row values => .enter (Locked.localWrite cr table row values.entries .undefined)
  | delete table row =>
    .enter (Locked.localWrite cr table row [(tombstoneColumn, .bool true)] .undefined)
  | applyRemoteOps remoteOps =>
    match e.checkBatch cr remoteOps with
    | .error err => .refuse (.error err)
    | .ok ops => .enter (Locked.mergeAdmitted ops)
  | observeRemoteClock hlc => .enter (Locked.observeRemoteClock hlc)
  | compact opts => .enter (Locked.compact opts)

/-- The call alone. -/
def Request.alone (w : World) (r : Request) : World × Settlement :=
  match r.enter cr w.engine with
  | .enter body => body.run w
  | .refuse outcome => (w, outcome)

/-- The calls one after another. -/
def sequentially (w : World) : List Request → World × List Settlement
  | [] => (w, [])
  | r :: rs =>
    ((sequentially (r.alone cr w).1 rs).1, (r.alone cr w).2 :: (sequentially (r.alone cr w).1 rs).2)

namespace Overlap

inductive Action where
  /-- By the application, or by a subscriber that is being called. -/
  | call (r : Request)
  /-- The next continuation of the `k`-th call, if it is ready. -/
  | go (k : Nat)

/-- The calls a schedule makes. -/
def requests (acts : List Action) : List Request :=
  acts.filterMap fun | .call r => some r | .go _ => none

def step (c : Chain World Settlement) : Action → Chain World Settlement
  | .call r => c.step (.call (r.enter cr c.state.engine))
  | .go k => c.step (.go k)

/-- The chain of an engine that nothing has been called on. -/
def start (e : SyncEngine) (readFails : Nat → Bool) : Chain World Settlement :=
  Chain.start ⟨e, readFails, 0, []⟩

end Overlap

end TangentFeed
