import TangentFeed.Core.Compaction
import TangentFeed.Core.Ulid

/-!
# The sync engine

One replica of a space over a `MemoryAdapter`. Every mutation runs under the
engine's lock and is one function here, from the engine before to a `Reply`
that holds the engine after, also when the call rejects. What the engine asks
of the outside (clock readings, random bytes, whether a storage transaction
goes through) comes from `Env`, indexed by how often it has asked before.
-/

namespace TangentFeed

/-- The `n`-th answers of the outside. -/
structure Env where
  physicalClock : Nat → Int
  dateNow : Nat → Nat
  random : Nat → Nat → Byte
  storageFails : Nat → Bool

/-- The cipher; `decrypt` is `none` where it throws. -/
structure Cipher where
  encrypt : (Nat → Byte) → Json → JsString → JsString
  decrypt : Json → JsString → Option Json

structure EngineOptions where
  env : Env
  cipher : Option Cipher

inductive Origin where
  | local
  | remote
  deriving DecidableEq, Repr

/-- What subscribers see after every committed batch; `changes` lists tables
and rows. -/
structure ChangeEvent where
  changes : List (JsString × JsString)
  ops : List Op
  origin : Origin

/-- The identity of a callback: the live tail of a replicator, or one of the
application's. -/
inductive SubscriberId where
  | liveTail
  | app (n : Nat)
  deriving DecidableEq, Repr

structure Subscriber where
  id : SubscriberId
  throws : ChangeEvent → Bool

/-- What a call rejects with. -/
inductive JsError where
  | badOp (fault : OpFault)
  | clock (error : HlcError)
  | storage
  | callback (id : SubscriberId)
  | ulidRange
  deriving DecidableEq, Repr

/-- An update's columns and values; the keys of a JavaScript object are distinct. -/
structure Record where
  entries : List (JsString × Json)
  nodup : (entries.map Prod.fst).Nodup

structure SyncEngine where
  storage : MemoryAdapter
  clock : HybridLogicalClock
  deviceKey : DeviceKey
  keys : JsMap Bytes
  subscribers : List Subscriber
  cipher : Option Cipher
  env : Env
  asked : Nat

/-- How a call ends: the engine it leaves, its promise, the change event it
committed and the callbacks that were called with it. -/
structure Reply (α : Type) where
  engine : SyncEngine
  result : Except JsError α
  event : Option ChangeEvent
  received : List SubscriberId

/-- A call that committed nothing. -/
def Reply.quiet {α : Type} (engine : SyncEngine) (result : Except JsError α) : Reply α :=
  ⟨engine, result, none, []⟩

def Reply.map {α β : Type} (f : α → β) (r : Reply α) : Reply β :=
  ⟨r.engine, r.result.map f, r.event, r.received⟩

namespace SyncEngine

variable (cr : Crypto)

def deviceId (e : SyncEngine) : JsString := e.clock.deviceId

/-- `clock.state()` as it is persisted. -/
def clockState (e : SyncEngine) : ClockState := ⟨e.clock.millis, e.clock.counter⟩

/-- Open a replica; `seed` feeds the key generator when the store has no key. -/
def openOn (opts : EngineOptions) (storage : MemoryAdapter) (seed : Nat) :
    Except HlcError SyncEngine :=
  let key := storage.deviceKey.getD (cr.keygen seed)
  let persisted := storage.clock.getD ⟨0, 0⟩
  let id := deviceIdFromPublicKey cr key.publicKey
  if maxMillis < persisted.millis then .error .range
  else
    .ok {
      storage := { storage with deviceKey := some key }
      clock := ⟨persisted.millis, persisted.counter, id⟩
      deviceKey := key
      keys := (∅ : JsMap Bytes).insert id key.publicKey
      subscribers := []
      cipher := opts.cipher
      env := opts.env
      asked := 0 }

/-- An engine opened on an empty store. -/
def opened (opts : EngineOptions) (seed : Nat) : SyncEngine where
  storage := { MemoryAdapter.empty with deviceKey := some (cr.keygen seed) }
  clock := ⟨0, 0, deviceIdFromPublicKey cr (cr.keygen seed).publicKey⟩
  deviceKey := cr.keygen seed
  keys := (∅ : JsMap Bytes).insert (deviceIdFromPublicKey cr (cr.keygen seed).publicKey)
    (cr.keygen seed).publicKey
  subscribers := []
  cipher := opts.cipher
  env := opts.env
  asked := 0

/-- False when the key does not hash to the claimed id. -/
def learnKey (e : SyncEngine) (id : JsString) (publicKey : Bytes) : Bool × SyncEngine :=
  if deviceIdFromPublicKey cr publicKey ≠ id then (false, e)
  else (true, { e with keys := e.keys.insert id publicKey })

/-! ## Reads -/

abbrev RowData := JsMap Json

def isTombstoned (cells : JsMap Op) : Bool :=
  match cells[tombstoneColumn]? with
  | some op => op.value.isTrue
  | none => false

/-- `v.startsWith("e1:")`. -/
def isEncryptedValue : Json → Bool
  | .str s => (js "e1:").isPrefixOf s
  | _ => false

/-- The plain value of a cell, `none` where decryption throws. -/
def plain (cipher : Option Cipher) (op : Op) : Option Json :=
  match cipher with
  | none => some op.value
  | some c => if isEncryptedValue op.value then c.decrypt op.value op.id else some op.value

/-- The loop of `materialize`. Assigning to `out.__proto__` makes no own property. -/
def materializeCells (cipher : Option Cipher) : List (JsString × Op) → RowData → Option RowData
  | [], out => some out
  | (column, op) :: rest, out =>
    if column = tombstoneColumn then materializeCells cipher rest out
    else
      match plain cipher op with
      | none => none
      | some value =>
        materializeCells cipher rest
          (if value.isNull ∨ column = js "__proto__" then out else out.insert column value)

/-- Decrypt and shape stored cells into a row: `{ id: row, ...out }`. -/
def materialize (cipher : Option Cipher) (row : JsString) (cells : JsMap Op) : Option RowData :=
  (materializeCells cipher cells.toList ∅).map fun out =>
    match out[js "id"]? with
    | some _ => out
    | none => out.insert (js "id") (.str row)

/-- The row, if it is there and not tombstoned; `none` outside when the call rejects. -/
def get (e : SyncEngine) (table row : JsString) : Option (Option RowData) :=
  match e.storage.getRow table row with
  | none => some none
  | some cells =>
    if isTombstoned cells then some none else (materialize e.cipher row cells).map some

/-- The visible rows of `rows`, in order. -/
def listVisible (e : SyncEngine) (table : JsString) : List JsString → Option (List RowData)
  | [] => some []
  | row :: rest =>
    match e.get table row with
    | none => none
    | some none => e.listVisible table rest
    | some (some data) => (e.listVisible table rest).map (data :: ·)

def list (e : SyncEngine) (table : JsString) : Option (List RowData) :=
  e.listVisible table (sortStrings (e.storage.listRows table))

/-- The object `dump` builds, and the property names that every object
inherits. -/
structure DumpState where
  state : JsMap (JsMap RowData)
  inherited : List JsString

/-- `(state[table] ??= {})[row] = cols`: an inherited name is found before a
table is made, and under `__proto__` the row becomes a property that every
object inherits. -/
def DumpState.put (d : DumpState) (table row : JsString) (cols : RowData) : DumpState :=
  match d.state[table]? with
  | some rows => { d with state := d.state.insert table (rows.insert row cols) }
  | none =>
    if table ∈ d.inherited then
      if table = js "__proto__" then { d with inherited := row :: d.inherited } else d
    else { d with state := d.state.insert table ((∅ : JsMap RowData).insert row cols) }

def dumpRows (e : SyncEngine) (table : JsString) : List JsString → DumpState → Option DumpState
  | [], d => some d
  | row :: rest, d =>
    match e.get table row with
    | none => none
    | some none => e.dumpRows table rest d
    | some (some data) => e.dumpRows table rest (d.put table row (data.erase (js "id")))

def dumpTables (e : SyncEngine) : List JsString → DumpState → Option DumpState
  | [], d => some d
  | table :: rest, d =>
    match e.dumpRows table (sortStrings (e.storage.listRows table)) d with
    | none => none
    | some d => e.dumpTables rest d

/-- Full materialised state. `inherited` are the names on `Object.prototype`. -/
def dump (inherited : List JsString) (e : SyncEngine) : Option (JsMap (JsMap RowData)) :=
  (e.dumpTables (sortStrings e.storage.listTables) ⟨∅, inherited⟩).map (·.state)

def frontier (e : SyncEngine) : Frontier := e.storage.frontier

def opsSince (e : SyncEngine) (frontier : Frontier) : List Op := e.storage.opsSince frontier

/-! ## The mutation path -/

/-- One storage transaction, all or nothing. -/
def transact (e : SyncEngine) (storage : MemoryAdapter) : Reply Unit :=
  if e.env.storageFails e.asked then .quiet { e with asked := e.asked + 1 } (.error .storage)
  else .quiet { e with asked := e.asked + 1, storage := storage } (.ok ())

/-- `for (const cb of this.subscribers) cb(event)`: who was called, and who threw. -/
def notify : List Subscriber → ChangeEvent → List SubscriberId × Option SubscriberId
  | [], _ => ([], none)
  | s :: rest, event =>
    if s.throws event then ([s.id], some s.id)
    else
      let r := notify rest event
      (s.id :: r.1, r.2)

/-- The loop of `commit`: pending winners by cell key, and the frontier. -/
def commitOp (storage : MemoryAdapter) (acc : JsMap Op × Frontier) (op : Op) :
    JsMap Op × Frontier :=
  let key := cellKey op.table op.row op.column
  let pending := acc.1[key]?
  let current := pending.or (storage.getWinner op.table op.row op.column)
  let winners :=
    match current with
    | none => acc.1.insert key op
    | some cur =>
      if cur.hlc < op.hlc then acc.1.insert key op
      else
        match pending with
        | none => acc.1.insert key cur
        | some _ => acc.1
  (winners, advanceFrontier acc.2 op)

/-- The batch `commit` hands to the store. -/
def commitBatch (storage : MemoryAdapter) (ops : List Op) (clock : ClockState) : BatchWrite :=
  let acc := ops.foldl (commitOp storage) (∅, storage.frontier)
  ⟨ops, acc.1, acc.2, clock⟩

/-- `[...new Set(ops.map(table + SEP + row))]`, taken apart again. -/
def changesOf (ops : List Op) : List (JsString × JsString) :=
  ((ops.map rowKeyOf).eraseDups).map fun key =>
    let parts := splitSep key
    (parts[0]?.getD [], parts[1]?.getD [])

def changeEvent (ops : List Op) (origin : Origin) : ChangeEvent := ⟨changesOf ops, ops, origin⟩

/-- The single mutation path. -/
def commit (e : SyncEngine) (ops : List Op) (origin : Origin) : Reply Unit :=
  let written := e.transact (e.storage.applyBatch (commitBatch e.storage ops e.clockState))
  match written.result with
  | .error err => .quiet written.engine (.error err)
  | .ok () =>
    let event := changeEvent ops origin
    let told := notify written.engine.subscribers event
    { engine := written.engine
      result := match told.2 with
        | none => .ok ()
        | some id => .error (.callback id)
      event := some event
      received := told.1 }

/-- The batch that only persists the clock. -/
def clockBatch (e : SyncEngine) : BatchWrite := ⟨[], ∅, e.storage.frontier, e.clockState⟩

/-- `clock.receive(remote)` at the next physical reading. -/
def receiveClock (e : SyncEngine) (remote : Hlc) : Except HlcError Hlc × SyncEngine :=
  let r := e.clock.receive remote (e.env.physicalClock e.asked)
  (r.1, { e with clock := r.2, asked := e.asked + 1 })

/-! ## Local writes -/

/-- The operation as it is signed, then with its signature. -/
def signedOp (e : SyncEngine) (table row column : JsString) (value : Json) (hlc : JsString) : Json :=
  let fields := [(js "id", .str hlc), (js "table", .str table), (js "row", .str row),
    (js "column", .str column), (js "value", value), (js "hlc", .str hlc),
    (js "device", .str e.deviceId)]
  .obj (fields ++
    [(js "sig", .str (signPayload cr (signedPayload (.obj fields)) e.deviceKey.privateKey))])

/-- The value as it is stored: everything but a tombstone is encrypted. -/
def storedValue (e : SyncEngine) (column : JsString) (value : Json) (hlc : JsString) :
    Json × SyncEngine :=
  match e.cipher with
  | none => (value, e)
  | some c =>
    if column = tombstoneColumn then (value, e)
    else (.str (c.encrypt (e.env.random e.asked) value hlc), { e with asked := e.asked + 1 })

def makeLocalOp (e : SyncEngine) (table row column : JsString) (value : Json) :
    Except JsError Op × SyncEngine :=
  let r := e.clock.now (e.env.physicalClock e.asked)
  let e := { e with clock := r.2, asked := e.asked + 1 }
  match r.1 with
  | .error err => (.error (.clock err), e)
  | .ok h =>
    let hlc := encodeHlc h
    let stored := e.storedValue column value hlc
    let op := signedOp cr stored.2 table row column stored.1 hlc
    match hv : validateOp op with
    | .error f => (.error (.badOp f), stored.2)
    | .ok () => (.ok ⟨op, hv⟩, stored.2)

/-- One operation per column, stopping at the first that throws. -/
def makeLocalOps (e : SyncEngine) (table row : JsString) :
    List (JsString × Json) → Except JsError (List Op) × SyncEngine
  | [] => (.ok [], e)
  | (column, value) :: rest =>
    let r := e.makeLocalOp cr table row column value
    match r.1 with
    | .error err => (.error err, r.2)
    | .ok op =>
      let rs := r.2.makeLocalOps table row rest
      (rs.1.map (op :: ·), rs.2)

/-- Write the columns of a row in one batch. -/
def update (e : SyncEngine) (table row : JsString) (values : Record) : Reply Unit :=
  let made := e.makeLocalOps cr table row values.entries
  match made.1 with
  | .error err => .quiet made.2 (.error err)
  | .ok ops => made.2.commit ops .local

/-- Insert under a fresh row id, which it returns. -/
def insert (e : SyncEngine) (table : JsString) (values : Record) : Reply JsString :=
  let time := max e.clock.millis (e.env.dateNow e.asked) % 2 ^ 48
  let random := (List.range 10).map (e.env.random (e.asked + 1))
  let e := { e with asked := e.asked + 2 }
  match ulid time random with
  | none => .quiet e (.error .ulidRange)
  | some row => (e.update cr table row values).map fun _ => row

/-- Row tombstone. -/
def delete (e : SyncEngine) (table row : JsString) : Reply Unit :=
  let made := e.makeLocalOps cr table row [(tombstoneColumn, .bool true)]
  match made.1 with
  | .error err => .quiet made.2 (.error err)
  | .ok ops => made.2.commit ops .local

/-! ## Remote operations -/

/-- The first operation that is not signed by a device we know. -/
def signatureFault (keys : JsMap Bytes) (ops : List Op) : Option OpFault :=
  ops.findSome? fun op =>
    match keys[op.device]? with
    | none => some (.unknownDevice op.device)
    | some publicKey => if verifyOp cr op publicKey then none else some (.badSignature op.id)

/-- The checks `applyRemoteOps` makes before it waits for the lock. -/
def checkBatch (e : SyncEngine) (remoteOps : List Json) : Except JsError (List Op) :=
  if maxBatchOps < remoteOps.length then .error (.badOp .batchTooLarge)
  else
    match validateOps remoteOps with
    | .error f => .error (.badOp f)
    | .ok ops =>
      match signatureFault cr e.keys ops with
      | some f => .error (.badOp f)
      | none => .ok ops

/-- The first operation of greatest HLC. -/
def maxOp (ops : List Op) : Option Op :=
  ops.foldl (fun m o =>
    match m with
    | none => some o
    | some x => if x.hlc < o.hlc then some o else m) none

/-- The operations not in the log, each id once. -/
def freshOps (storage : MemoryAdapter) (ops : List Op) : List Op :=
  ops.foldl (fun fresh op =>
    if !storage.hasOp op.id && !fresh.any (·.id == op.id) then fresh ++ [op] else fresh) []

/-- Past the newest remote timestamp. -/
def receiveMax (e : SyncEngine) (ops : List Op) : Except HlcError Unit × SyncEngine :=
  match maxOp ops with
  | none => (.ok (), e)
  | some op =>
    match decodeHlc op.hlc with
    | .error err => (.error err, e)
    | .ok remote => ((e.receiveClock remote).1.map fun _ => (), (e.receiveClock remote).2)

/-- The part of `applyRemoteOps` that runs under the lock. -/
def mergeAdmitted (e : SyncEngine) (ops : List Op) : Reply Nat :=
  let received := e.receiveMax ops
  match received.1 with
  | .error err => .quiet received.2 (.error (.clock err))
  | .ok () =>
    let e := received.2
    let fresh := freshOps e.storage ops
    if fresh.isEmpty then (e.transact (e.storage.applyBatch e.clockBatch)).map fun _ => 0
    else (e.commit fresh .remote).map fun _ => fresh.length

/-- Apply a batch of remote operations; returns how many were new. -/
def applyRemoteOps (e : SyncEngine) (remoteOps : List Json) : Reply Nat :=
  match e.checkBatch cr remoteOps with
  | .error err => .quiet e (.error err)
  | .ok ops => e.mergeAdmitted ops

/-- Observe a peer's clock without applying operations. -/
def observeRemoteClock (e : SyncEngine) (hlc : JsString) : Reply Unit :=
  match decodeHlc hlc with
  | .error err => .quiet e (.error (.clock err))
  | .ok remote =>
    let received := e.receiveClock remote
    match received.1 with
    | .error err => .quiet received.2 (.error (.clock err))
    | .ok _ => received.2.transact (received.2.storage.applyBatch received.2.clockBatch)

/-! ## Compaction and subscriptions -/

def recordPeerFrontier (e : SyncEngine) (peer : JsString) (frontier : Frontier) : Reply Unit :=
  if peer = e.deviceId then .quiet e (.ok ())
  else e.transact (e.storage.setPeerFrontier peer frontier)

def compact (e : SyncEngine) (opts : CompactionOptions) : Reply CompactionStats :=
  let planned := compactStorage e.storage opts
  if compactionDue e.storage opts then (e.transact planned.1).map fun _ => planned.2
  else .quiet e (.ok planned.2)

/-- `subscribers.add(cb)`. -/
def subscribe (e : SyncEngine) (s : Subscriber) : SyncEngine :=
  if e.subscribers.any (·.id == s.id) then e else { e with subscribers := e.subscribers ++ [s] }

/-- `subscribers.delete(cb)`. -/
def unsubscribe (e : SyncEngine) (id : SubscriberId) : SyncEngine :=
  { e with subscribers := e.subscribers.filter (·.id != id) }

end SyncEngine

/-- The calls of the engine that can change it. -/
inductive Call where
  | insert (table : JsString) (values : Record)
  | update (table row : JsString) (values : Record)
  | delete (table row : JsString)
  | applyRemoteOps (remoteOps : List Json)
  | observeRemoteClock (hlc : JsString)
  | recordPeerFrontier (peer : JsString) (frontier : Frontier)
  | learnKey (id : JsString) (publicKey : Bytes)
  | compact (opts : CompactionOptions)
  | subscribe (s : Subscriber)
  | unsubscribe (id : SubscriberId)

/-- Run a call, its value dropped. -/
def Call.run (cr : Crypto) (e : SyncEngine) : Call → Reply Unit
  | insert table values => (e.insert cr table values).map fun _ => ()
  | update table row values => e.update cr table row values
  | delete table row => e.delete cr table row
  | applyRemoteOps ops => (e.applyRemoteOps cr ops).map fun _ => ()
  | observeRemoteClock hlc => e.observeRemoteClock hlc
  | recordPeerFrontier peer f => e.recordPeerFrontier peer f
  | learnKey id key => .quiet (e.learnKey cr id key).2 (.ok ())
  | compact opts => (e.compact opts).map fun _ => ()
  | subscribe s => .quiet (e.subscribe s) (.ok ())
  | unsubscribe id => .quiet (e.unsubscribe id) (.ok ())

end TangentFeed
