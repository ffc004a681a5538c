import TangentFeed.Dart.Compaction
import TangentFeed.Dart.Replicator
import TangentFeed.Dart.Signing

/-!
# The sync engine in Dart

One replica of a space in the Dart implementation, over its `MemoryAdapter`. The
clock is the one of TypeScript, which moves before it checks its bounds in both
languages. A batch from elsewhere is checked one operation after the other, and
each one that passes moves the clock at once; `_commit` finds the new operations,
the winners and the changed rows in one pass, and writes nothing when there is
nothing new.
-/

namespace TangentFeed.Dart

/-! ## Data -/

/-- What subscribers see after every committed batch. -/
structure ChangeEvent where
  changes : List (JsString × JsString)
  ops : List StoredOp
  origin : Origin

/-- A callback; one callback may be subscribed more than once. -/
structure Subscriber where
  id : Nat
  throws : ChangeEvent → Bool

/-- What a call completes with when it fails. -/
inductive EngineFault where
  | badOp (fault : OpFault)
  | batchTooLarge
  | unknownDevice (device : JsString)
  | badSignature (id : JsString)
  | clock (error : HlcError)
  /-- The `ArgumentError` of `canonicalJson`. -/
  | notJson
  | storage
  | callback (id : Nat)

deriving instance DecidableEq for OpFault

deriving instance DecidableEq for EngineFault

/-- The text of an error of the engine, `none` for those of others. -/
def EngineFault.message : EngineFault → Option JsString
  | badOp fault => some fault.message
  | batchTooLarge =>
    some (js "BAD_OP: batch exceeds " ++ Number.decimalDigits maxBatchOps ++ js " ops")
  | unknownDevice device =>
    some (js "BAD_OP: unknown device " ++ device ++ js "; no key to verify against")
  | badSignature id => some (js "BAD_OP: bad signature on op " ++ id)
  | clock (.drift remoteMillis physicalMillis) =>
    some (js "ClockDriftError: remote clock is " ++ intText (remoteMillis - physicalMillis) ++
      js "ms ahead (max allowed " ++ Number.decimalDigits maxDriftMs ++
      js "ms); check system time")
  | clock .range => some (js "Bad state: HLC millis exceeded 48-bit range")
  | clock (.malformed _) | notJson | storage | callback _ => none

/-- The columns and values of an update. -/
abbrev Values := OrderedMap JsString (Doc AnyNum)

structure SyncEngine where
  storage : MemoryAdapter
  clock : HybridLogicalClock
  deviceKey : DeviceKey
  keys : JsMap Bytes
  subscribers : List Subscriber
  env : Env
  asked : Nat

/-- How a call ends: the engine it leaves, its result, the change event it
committed and the callbacks that were called with it. -/
structure Reply (α : Type) where
  engine : SyncEngine
  result : Except EngineFault α
  event : Option ChangeEvent
  received : List Nat

/-- A call that committed nothing. -/
def Reply.quiet {α : Type} (engine : SyncEngine) (result : Except EngineFault α) : Reply α :=
  ⟨engine, result, none, []⟩

def Reply.map {α β : Type} (f : α → β) (r : Reply α) : Reply β :=
  ⟨r.engine, r.result.map f, r.event, r.received⟩

/-- `ulid(time)`; a draw is below 32. -/
def ulid (time : Nat) (draws : List Nat) : JsString := timeChars 10 time ++ draws.map base32Char

namespace SyncEngine

variable (cr : Crypto)

def deviceId (e : SyncEngine) : JsString := e.clock.deviceId

/-- One storage transaction, all or nothing. -/
def transact (e : SyncEngine) (storage : MemoryAdapter) : Reply Unit :=
  if e.env.storageFails e.asked then .quiet { e with asked := e.asked + 1 } (.error .storage)
  else .quiet { e with asked := e.asked + 1, storage := storage } (.ok ())

/-! ## Opening -/

/-- The engine over a store whose key is `key`, before anything is persisted. -/
def made (env : Env) (storage : MemoryAdapter) (key : DeviceKey) (asked : Nat) : SyncEngine where
  storage := storage
  clock := ⟨(storage.clock.map Hlc.millis).getD 0, (storage.clock.map Hlc.counter).getD 0,
    deviceIdFromPublicKey cr key.publicKey⟩
  deviceKey := key
  keys := (∅ : JsMap Bytes).insert (deviceIdFromPublicKey cr key.publicKey) key.publicKey
  subscribers := []
  env := env
  asked := asked

/-- `open` once the key is known. A clock that was never persisted is persisted. -/
def openWith (env : Env) (storage : MemoryAdapter) (key : DeviceKey) (asked : Nat) :
    Reply Unit :=
  let e := made cr env storage key asked
  match e.clock.checked with
  | .error err => .quiet e (.error (.clock err))
  | .ok _ =>
    match storage.clock with
    | some _ => .quiet e (.ok ())
    | none => e.transact (storage.applyBatch ⟨[], .empty, storage.frontier, some e.clock.state⟩)

/-- Open a replica; `seed` feeds the key generator when the store has no key, and the
new key is stored before anything else. -/
def openOn (env : Env) (storage : MemoryAdapter) (seed : Nat) : Reply Unit :=
  match storage.deviceKey with
  | some key => openWith cr env storage key 0
  | none =>
    let key := cr.keygen seed
    let claimed := (made cr env storage key 0).transact { storage with deviceKey := some key }
    match claimed.result with
    | .error err => .quiet claimed.engine (.error err)
    | .ok () => openWith cr env claimed.engine.storage key claimed.engine.asked

/-- False when the key does not hash to the claimed id. -/
def learnKey (e : SyncEngine) (id : JsString) (publicKey : Bytes) : Bool × SyncEngine :=
  if deviceIdFromPublicKey cr publicKey ≠ id then (false, e)
  else (true, { e with keys := e.keys.insert id publicKey })

/-! ## Reads -/

abbrev RowData := OrderedMap JsString (Doc AnyNum)

/-- `v == null`. -/
def isNull : Doc AnyNum → Bool
  | .null => true
  | _ => false

/-- One turn of the loop of `_materialize`. -/
def putCell (data : RowData) (e : JsString × StoredOp) : RowData :=
  if e.1 = tombstoneColumn ∨ isNull e.2.value then data else data.set e.1 e.2.value

def isTombstoned (cells : OrderedMap JsString StoredOp) : Bool :=
  match cells.get tombstoneColumn with
  | some tomb => isTrue tomb.value
  | none => false

/-- `none` when the row is invisible: tombstoned, or with no surviving cells. -/
def materialize (row : JsString) (cells : OrderedMap JsString StoredOp) : Option RowData :=
  if isTombstoned cells then none
  else
    let data := cells.entries.foldl putCell (OrderedMap.empty.set (js "id") (.str row))
    if data.size = 1 then none else some data

def get (e : SyncEngine) (table row : JsString) : Option RowData :=
  (e.storage.getRow table row).bind (materialize row)

def list (e : SyncEngine) (table : JsString) : List RowData :=
  (e.storage.listRows table).filterMap (e.get table)

/-- The visible rows of every table with one, without their `id`. -/
def dump (e : SyncEngine) : List (JsString × List (JsString × RowData)) :=
  (e.storage.listTables.map fun table => (table, (e.storage.listRows table).filterMap fun row =>
    (e.get table row).map fun data => (row, data.erase (js "id")))).filter fun t => !t.2.isEmpty

def frontier (e : SyncEngine) : Frontier := e.storage.frontier

def opsSince (e : SyncEngine) (frontier : Frontier) : List StoredOp := e.storage.opsSince frontier

/-! ## The mutation path -/

/-- `for (final sub in subscribers) sub(event)`: who was called, and who threw. -/
def notify : List Subscriber → ChangeEvent → List Nat × Option Nat
  | [], _ => ([], none)
  | s :: rest, event =>
    if s.throws event then ([s.id], some s.id)
    else
      let r := notify rest event
      (s.id :: r.1, r.2)

/-- The variables of the loop of `_commit`. -/
structure Pending where
  frontier : Frontier
  fresh : List StoredOp
  winners : OrderedMap Cell StoredOp
  changed : OrderedMap JsString (JsString × JsString)

/-- One turn of the loop of `_commit`. -/
def commitOp (storage : MemoryAdapter) (p : Pending) (op : StoredOp) : Pending :=
  if storage.hasOp op.id then p
  else if p.fresh.any (·.id == op.id) then p
  else
    let taken := { p with fresh := p.fresh ++ [op], frontier := advanceFrontier p.frontier op }
    let current := (p.winners.get op.cell).or (storage.getWinner op.table op.row op.column)
    if current.all fun c => c.hlc < op.hlc then
      { taken with
        winners := p.winners.set op.cell op
        changed := p.changed.set (rowKeyOf op) (op.table, op.row) }
    else taken

def pending (storage : MemoryAdapter) (ops : List StoredOp) : Pending :=
  ops.foldl (commitOp storage) ⟨storage.frontier, [], .empty, .empty⟩

def Pending.batch (p : Pending) (clock : Hlc) : BatchWrite :=
  ⟨p.fresh, p.winners, p.frontier, some clock⟩

def Pending.event (p : Pending) (origin : Origin) : ChangeEvent :=
  ⟨p.changed.values, p.fresh, origin⟩

/-- `_commit`: how many operations were new. -/
def commit (e : SyncEngine) (ops : List StoredOp) (origin : Origin) : Reply Nat :=
  if ops.isEmpty then .quiet e (.ok 0)
  else
    let p := pending e.storage ops
    if p.fresh.isEmpty then .quiet e (.ok 0)
    else
      let written := e.transact (e.storage.applyBatch (p.batch e.clock.state))
      match written.result with
      | .error err => .quiet written.engine (.error err)
      | .ok () =>
        let told := notify written.engine.subscribers (p.event origin)
        { engine := written.engine
          result := match told.2 with
            | none => .ok p.fresh.length
            | some id => .error (.callback id)
          event := some (p.event origin)
          received := told.1 }

/-! ## Writes -/

/-- The clock is read before the value is looked at. -/
def makeLocalOp (e : SyncEngine) (table row column : JsString) (value : Doc AnyNum) :
    Except EngineFault StoredOp × SyncEngine :=
  let r := e.clock.now (e.env.physicalClock e.asked)
  let e := { e with clock := r.2, asked := e.asked + 1 }
  match r.1 with
  | .error err => (.error (.clock err), e)
  | .ok h =>
    let unsigned : Op := ⟨encodeHlc h, table, row, column, value, encodeHlc h, e.deviceId, []⟩
    match signedPayload unsigned with
    | none => (.error .notJson, e)
    | some payload =>
      let op : Op := { unsigned with sig := signPayload cr payload e.deviceKey.privateKey }
      match hv : Op.validate op with
      | .error f => (.error (.badOp f), e)
      | .ok () => (.ok ⟨op, hv⟩, e)

/-- One operation per column, up to the first that throws. -/
def makeLocalOps (e : SyncEngine) (table row : JsString) :
    List (JsString × Doc AnyNum) → Except EngineFault (List StoredOp) × SyncEngine
  | [] => (.ok [], e)
  | (column, value) :: rest =>
    let r := e.makeLocalOp cr table row column value
    match r.1 with
    | .error err => (.error err, r.2)
    | .ok op =>
      let rs := r.2.makeLocalOps table row rest
      (rs.1.map (op :: ·), rs.2)

/-- Make the operations of a local write and commit them. -/
def write (e : SyncEngine) (table row : JsString) (values : List (JsString × Doc AnyNum)) :
    Reply Unit :=
  let made := e.makeLocalOps cr table row values
  match made.1 with
  | .error err => .quiet made.2 (.error err)
  | .ok ops => (made.2.commit ops .local).map fun _ => ()

def update (e : SyncEngine) (table row : JsString) (values : Values) : Reply Unit :=
  e.write cr table row values.entries

/-- Insert under a fresh row id, which it returns. -/
def insert (e : SyncEngine) (table : JsString) (values : Values) : Reply JsString :=
  let time := if e.clock.millis = 0 then e.env.dateNow e.asked else e.clock.millis
  let draws := (List.range 16).map fun i => (e.env.random (e.asked + 1) i).val % 32
  let row := ulid time draws
  ({ e with asked := e.asked + 2 }.update cr table row values).map fun _ => row

/-- Row tombstone. -/
def delete (e : SyncEngine) (table row : JsString) : Reply Unit :=
  e.write cr table row [(tombstoneColumn, .bool true)]

/-! ## Remote operations -/

end SyncEngine

/-- An element of a batch: an operation, or a value from the wire. -/
inductive Item where
  | built (op : Op)
  | decoded (raw : Doc AnyNum)

theorem validate_of_fromJson {raw : Doc AnyNum} {op : Op} (h : Op.fromJson raw = .ok op) :
    Op.validate op = .ok () := by
  obtain ⟨hc, hsize⟩ := fromJson_eq_ok.1 h
  exact validate_eq_ok.2 ⟨hc.legal, hc.finite, hsize⟩

/-- `item is Op ? item : Op.fromJson(item)`, validated. -/
def Item.read : Item → Except OpFault StoredOp
  | .built op =>
    match h : Op.validate op with
    | .error f => .error f
    | .ok () => .ok ⟨op, h⟩
  | .decoded raw =>
    match h : Op.fromJson raw with
    | .error f => .error f
    | .ok op => .ok ⟨op, validate_of_fromJson h⟩

namespace SyncEngine

variable (cr : Crypto)

/-- `_clock.receive(remote)` at the next physical reading. -/
def receiveClock (e : SyncEngine) (remote : Hlc) : Except HlcError Hlc × SyncEngine :=
  let r := e.clock.receive remote (e.env.physicalClock e.asked)
  (r.1, { e with clock := r.2, asked := e.asked + 1 })

/-- The checks of one operation, the clock last. -/
def admitOne (e : SyncEngine) (op : StoredOp) : Except EngineFault Unit × SyncEngine :=
  match e.keys[op.device]? with
  | none => (.error (.unknownDevice op.device), e)
  | some publicKey =>
    match verifyOp cr op.toOpFields publicKey with
    | none => (.error .notJson, e)
    | some false => (.error (.badSignature op.id), e)
    | some true =>
      match decodeHlc op.hlc with
      | .error err => (.error (.clock err), e)
      | .ok remote =>
        let r := e.receiveClock remote
        match r.1 with
        | .error err => (.error (.clock err), r.2)
        | .ok _ => (.ok (), r.2)

/-- The loop of `applyRemoteOps`, up to the first operation that fails. -/
def admitAll (e : SyncEngine) : List Item → Except EngineFault (List StoredOp) × SyncEngine
  | [] => (.ok [], e)
  | item :: rest =>
    match item.read with
    | .error f => (.error (.badOp f), e)
    | .ok op =>
      let r := e.admitOne cr op
      match r.1 with
      | .error err => (.error err, r.2)
      | .ok () =>
        let rs := r.2.admitAll rest
        (rs.1.map (op :: ·), rs.2)

/-- Apply operations from a peer; returns how many were new. -/
def applyRemoteOps (e : SyncEngine) (raw : List Item) : Reply Nat :=
  if maxBatchOps < raw.length then .quiet e (.error .batchTooLarge)
  else
    let r := e.admitAll cr raw
    match r.1 with
    | .error err => .quiet r.2 (.error err)
    | .ok ops => r.2.commit ops .remote

/-! ## Compaction and subscriptions -/

def recordPeerFrontier (e : SyncEngine) (peer : JsString) (frontier : Frontier) : Reply Unit :=
  e.transact (e.storage.setPeerFrontier peer frontier)

def compact (e : SyncEngine) (opts : CompactionOptions) : Reply CompactionStats :=
  let planned := compactStorage e.storage opts
  if compactionDue e.storage opts then (e.transact planned.1).map fun _ => planned.2
  else .quiet e (.ok planned.2)

/-- `_subscribers.add(cb)`. -/
def subscribe (e : SyncEngine) (s : Subscriber) : SyncEngine :=
  { e with subscribers := e.subscribers ++ [s] }

/-- `_subscribers.remove(cb)`: the first of its subscriptions. -/
def unsubscribe (e : SyncEngine) (id : Nat) : SyncEngine :=
  { e with subscribers := e.subscribers.eraseP (·.id == id) }

end SyncEngine

/-- The calls of the engine that can change it. -/
inductive Call where
  | insert (table : JsString) (values : Values)
  | update (table row : JsString) (values : Values)
  | delete (table row : JsString)
  | applyRemoteOps (raw : List Item)
  | recordPeerFrontier (peer : JsString) (frontier : Frontier)
  | learnKey (id : JsString) (publicKey : Bytes)
  | compact (opts : CompactionOptions)
  | subscribe (s : Subscriber)
  | unsubscribe (id : Nat)

/-- Run a call, its value dropped. -/
def Call.run (cr : Crypto) (e : SyncEngine) : Call → Reply Unit
  | insert table values => (e.insert cr table values).map fun _ => ()
  | update table row values => e.update cr table row values
  | delete table row => e.delete cr table row
  | applyRemoteOps raw => (e.applyRemoteOps cr raw).map fun _ => ()
  | recordPeerFrontier peer f => e.recordPeerFrontier peer f
  | learnKey id key => .quiet (e.learnKey cr id key).2 (.ok ())
  | compact opts => (e.compact opts).map fun _ => ()
  | subscribe s => .quiet (e.subscribe s) (.ok ())
  | unsubscribe id => .quiet (e.unsubscribe id) (.ok ())

end TangentFeed.Dart
