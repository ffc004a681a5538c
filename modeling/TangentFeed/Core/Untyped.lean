import TangentFeed.Core.Replicator
import TangentFeed.Js.Value

/-!
# Messages of any type

`Replicator.handle` once more, on whatever `JSON.parse` returned. A property
may be missing or of any type; it is used as the source uses it, and what then
throws is caught where the source catches it. What is recorded of the peers
holds values of any type too, so compaction is here again as far as it reads
them. `Surroundings` are the callbacks and the one conversion of the language
that no result depends on.
-/

namespace TangentFeed.Untyped

structure Surroundings where
  /-- `Number(s)` of a string. -/
  numeric : JsString → Number
  sendThrows : Json → Bool
  /-- `onPeersChange` with the peers after a change. -/
  peersThrows : List Val → Bool

inductive Thrown where
  | typeError
  | js (err : JsError)
  | send
  | callback

/-- A replica with its replicator. While `nanCounter` holds, the counter of the
clock is `NaN` and the number in its place means nothing. The frontiers of the
peers are in `peerFrontiers`, not in the store of `engine`. -/
structure Node where
  engine : SyncEngine
  nanCounter : Bool
  started : Bool
  /-- The keys of the `Map`, with the frontier of each. -/
  peers : List (Val × Val)
  peerFrontiers : List (JsString × Val)

/-- Where a handler waits, with its local variables but `msg`. -/
inductive Stage where
  | helloObserve
  | helloGreet
  | helloSendGreet (clock : JsString)
  | helloKeys
  | helloFrontier
  | helloSince (frontier : Frontier)
  | sinceRecord
  | sinceRead
  | sinceKeys (missing : List Op)
  | sinceSend (missing : List Op)
  | opsApply (ops : List Op)
  | opsFrontier
  | opsAck (frontier : Frontier)
  | ackRecord

/-- Property `k` of a message that is not `null`. -/
def field (msg : Json) (k : JsString) : Val := msg.get? k

/-- How a stretch of the `try` block ends. -/
inductive Exit where
  | wait (stage : Stage)
  | done
  | threw (err : Thrown)

/-- A stretch of the `try` block: the replica after it and what it sent. -/
structure Part where
  node : Node
  sent : List Json
  exit : Exit

/-- How the promise of `handle` settles; `reported` is after `onError`. -/
inductive Ending where
  | returned
  | reported
  | rejected
  deriving DecidableEq

inductive Outcome where
  | wait (stage : Stage)
  | ended (how : Ending)

structure Stretch where
  node : Node
  sent : List Json
  outcome : Outcome

/-- `catch (err) { this.events.onError?.(err, { from: msg.from }) }`. -/
def caught (msg : Json) : Ending :=
  match Val.prop (some msg) (js "from") with
  | none => .rejected
  | some _ => .reported

/-- A stretch of `handle`, with its `catch` clause. -/
def Part.settled (msg : Json) (p : Part) : Stretch where
  node := p.node
  sent := p.sent
  outcome := match p.exit with
    | .wait stage => .wait stage
    | .done => .ended .returned
    | .threw _ => .ended (caught msg)

def frontierJson (f : Frontier) : Json := .obj (f.toList.map fun p => (p.1, .str p.2))

/-- The property `to: msg.from`. -/
def addressed (sender : Val) : List (JsString × Json) :=
  match sender with
  | none => []
  | some v => [(js "to", v)]

/-- `this.peers.set(k, { frontier })`. -/
def setPeer (peers : List (Val × Val)) (k frontier : Val) : List (Val × Val) :=
  if peers.any fun p => p.1.sameKey k then
    peers.map fun p => if p.1.sameKey k then (p.1, frontier) else p
  else peers ++ [(k, frontier)]

/-! ## Compaction -/

section Compaction

variable (numeric : JsString → Number)

/-- One peer's frontier folded into the horizon, device by device. -/
def lowerHorizon (frontier : Val) : List (JsString × Json) → JsMap Json → Option (JsMap Json)
  | [], horizon => some horizon
  | (device, least) :: rest, horizon =>
    match frontier.prop device with
    | none => none
    | some entry =>
      let seen := entry.orElse (.str zeroHlc)
      match seen.lessThan numeric least with
      | none => none
      | some true => lowerHorizon frontier rest (horizon.insert device seen)
      | some false => lowerHorizon frontier rest horizon

/-- The frontiers folded one after the other. -/
def foldHorizon : List Val → JsMap Json → Option (JsMap Json)
  | [], horizon => some horizon
  | frontier :: rest, horizon =>
    match lowerHorizon numeric frontier horizon.toList horizon with
    | none => none
    | some horizon => foldHorizon rest horizon

def compactionHorizon (own : Frontier) (peerFrontiers : List (JsString × Val)) :
    Option (JsMap Json) :=
  foldHorizon numeric (peerFrontiers.map Prod.snd) (own.map fun _ hlc => .str hlc)

/-- The horizon as HLCs are compared with it: as text, and no HLC is at or below
anything else. -/
def settledHorizon (horizon : JsMap Json) : Frontier :=
  horizon.map fun _ least =>
    match least.primitive with
    | some (.str s) => s
    | _ => zeroHlc

/-- Whether a peer's frontier lags ours, up to the first device it does for. -/
def lags (frontier : Val) : List (JsString × JsString) → Option Bool
  | [] => some false
  | (device, ours) :: rest =>
    match frontier.prop device with
    | none => none
    | some entry =>
      match (entry.orElse (.str zeroHlc)).lessThan numeric (.str ours) with
      | none => none
      | some true => some true
      | some false => lags frontier rest

/-- The names of the peers that lag, in order. -/
def laggards (own : Frontier) : List (JsString × Val) → Option (List JsString)
  | [] => some []
  | (peer, frontier) :: rest =>
    match lags numeric frontier own.toList, laggards own rest with
    | some true, some blockers => some (peer :: blockers)
    | some false, some blockers => some blockers
    | _, _ => none

def blockingPeers (own : Frontier) (peerFrontiers : List (JsString × Val)) :
    Option (List JsString) :=
  (laggards numeric own peerFrontiers).map sortStrings

end Compaction

namespace Node

variable (cr : Crypto) (out : Surroundings) (space : JsString) (n : Node)

/-! ## What the engine does with any value -/

/-- The counter that `receive` sets together with the millis `m`; `none` is `NaN`. -/
def nextCounter (m millis : Nat) (counter : Option Nat) : Option Nat :=
  let own := if n.nanCounter then none else some n.engine.clock.counter
  if m = n.engine.clock.millis ∧ m = millis then
    own.bind fun a => counter.map fun b => max a b + 1
  else if m = n.engine.clock.millis then own.map (· + 1)
  else if m = millis then counter.map (· + 1)
  else some 0

/-- `clock.receive(remote)`. `NaN` is not above the maximum, so it stays. -/
def receiveClock (millis : Nat) (counter : Option Nat) : Except HlcError Unit × Node :=
  let c := n.engine.clock
  let pt := n.engine.env.physicalClock n.engine.asked
  let e := { n.engine with asked := n.engine.asked + 1 }
  if pt + maxDriftMs < millis then (.error (.drift millis pt), { n with engine := e })
  else
    let m := max (max c.millis millis) pt.toNat
    let next := n.nextCounter m millis counter
    let c' := HybridLogicalClock.rollover { c with millis := m, counter := next.getD 0 }
    (c'.checked.map fun _ => (),
      { n with engine := { e with clock := c' }, nanCounter := next.isNone })

/-- What a call of the engine leaves. -/
def after {α : Type} (r : Reply α) : Except Thrown α × Node :=
  (match r.result with
    | .ok a => .ok a
    | .error err => .error (.js err), { n with engine := r.engine })

/-- Persist the clock and nothing else. -/
def persistClock : Except Thrown Unit × Node :=
  n.after (n.engine.transact (n.engine.storage.applyBatch n.engine.clockBatch))

/-- An array whose text is an HLC is taken for one, and `slice` then cuts off
elements: the millis are all of it up to the dash, the counter is `NaN`. -/
def observeRemoteClock (clock : Val) : Except Thrown Unit × Node :=
  match clock.text with
  | none => (.error .typeError, n)
  | some hlc =>
    match decodeHlc hlc with
    | .error err => (.error (.js (.clock err)), n)
    | .ok remote =>
      let received := n.receiveClock remote.millis
        (if clock.isString hlc then some remote.counter else none)
      match received.1 with
      | .error err => (.error (.js (.clock err)), received.2)
      | .ok () => received.2.persistClock

def learnKey (id : Val) (publicKey : Bytes) : Node :=
  match id with
  | some (.str id) => { n with engine := (n.engine.learnKey cr id publicKey).2 }
  | _ => n

def recordPeerFrontier (peer frontier : Val) : Except Thrown Unit × Node :=
  if peer.isString n.engine.deviceId then (.ok (), n)
  else
    match peer.text with
    | none => (.error .typeError, n)
    | some key =>
      let written := { n with engine := { n.engine with asked := n.engine.asked + 1 } }
      if n.engine.env.storageFails n.engine.asked then (.error (.js .storage), written)
      else (.ok (), { written with peerFrontiers := withOwn n.peerFrontiers key frontier })

/-- Whether an operation is above what a peer says it has. -/
def above (op : Op) (seen : Val) : Option Bool :=
  match seen.prop op.device with
  | none => none
  | some none => some true
  | some (some hlc) => hlc.lessThan out.numeric (.str op.hlc)

def opsSince (seen : Val) : Option (List Op) :=
  let values := n.engine.storage.opsById.toList.map Prod.snd
  if values.any fun op => (above out op seen).isNone then none
  else some ((values.filter fun op => above out op seen = some true).insertionSort
    fun a b => a.hlc ≤ b.hlc)

/-- The checks of `applyRemoteOps`. Only an array gets past them. -/
def checkBatch (ops : Val) : Except Thrown (List Op) :=
  match ops with
  | some (.arr xs) =>
    match n.engine.checkBatch cr xs with
    | .ok ops => .ok ops
    | .error err => .error (.js err)
  | some (.str s) =>
    .error (.js (.badOp (if maxBatchOps < s.length then .batchTooLarge else .notObject)))
  | _ => .error .typeError

/-- Past the newest remote timestamp. -/
def receiveMax (ops : List Op) : Except HlcError Unit × Node :=
  match SyncEngine.maxOp ops with
  | none => (.ok (), n)
  | some op =>
    match decodeHlc op.hlc with
    | .error err => (.error err, n)
    | .ok remote => n.receiveClock remote.millis (some remote.counter)

/-- The part of `applyRemoteOps` that runs under the lock. -/
def mergeAdmitted (ops : List Op) : Except Thrown Nat × Node :=
  let received := n.receiveMax ops
  match received.1 with
  | .error err => (.error (.js (.clock err)), received.2)
  | .ok () =>
    let n := received.2
    let fresh := SyncEngine.freshOps n.engine.storage ops
    if fresh.isEmpty then (n.persistClock.1.map fun _ => 0, n.persistClock.2)
    else n.after ((n.engine.commit fresh .remote).map fun _ => fresh.length)

/-- Remove what is planned, unless that is nothing or nothing is to be removed. -/
def carryOut (plan : CompactionPlan) (opts : CompactionOptions) : Except Thrown Unit × Node :=
  if !opts.dryRun && (0 < plan.opIds.length || 0 < plan.cellKeys.length) then
    n.after (n.engine.transact (n.engine.storage.compact ⟨plan.opIds, plan.cellKeys⟩))
  else (.ok (), n)

def compact (opts : CompactionOptions) : Except Thrown CompactionStats × Node :=
  let s := n.engine.storage
  match compactionHorizon out.numeric s.frontier n.peerFrontiers with
  | none => (.error .typeError, n)
  | some horizon =>
    let plan := planCompaction s.allOps (winningCells s) (settledHorizon horizon) opts
    let removed := n.carryOut plan opts
    match removed.1, blockingPeers out.numeric s.frontier n.peerFrontiers with
    | .ok (), some blockedBy => (.ok (plan.stats blockedBy), removed.2)
    | .ok (), none => (.error .typeError, removed.2)
    | .error err, _ => (.error err, removed.2)

/-! ## Local writes -/

/-- The counter is `NaN`, and the next reading of the physical clock does not
reset it. -/
def stuck : Bool :=
  n.nanCounter && !(n.engine.clock.millis < n.engine.env.physicalClock n.engine.asked)

/-- The string of a clock whose counter is `NaN`. -/
def nanHlc : JsString :=
  padStart 12 0x30 (toString16 n.engine.clock.millis) ++ js "-0NaN-" ++ n.engine.deviceId

/-- The first operation of a local write on a clock that is stuck: it is made,
and `validateOp` throws. -/
def writeStuck (column : JsString) : Except Thrown Unit × Node :=
  match n.engine.clock.checked with
  | .error err => (.error (.js (.clock err)),
      { n with engine := { n.engine with asked := n.engine.asked + 1 } })
  | .ok _ =>
    let encrypts := n.engine.cipher.isSome && column != tombstoneColumn
    (.error (.js (.badOp (.malformedHlc n.nanHlc))),
      { n with engine := { n.engine with asked := n.engine.asked + if encrypts then 2 else 1 } })

def update (table row : JsString) (values : Record) : Except Thrown Unit × Node :=
  match values.entries with
  | [] => n.after (n.engine.update cr table row values)
  | (column, _) :: _ =>
    if n.stuck then n.writeStuck column
    else { n with nanCounter := false }.after (n.engine.update cr table row values)

def insert (table : JsString) (values : Record) : Except Thrown Unit × Node :=
  let e := n.engine
  let time := max e.clock.millis (e.env.dateNow e.asked) % 2 ^ 48
  let random := (List.range 10).map (e.env.random (e.asked + 1))
  let n := { n with engine := { e with asked := e.asked + 2 } }
  match ulid time random with
  | none => (.error (.js .ulidRange), n)
  | some row => n.update cr table row values

def delete (table row : JsString) : Except Thrown Unit × Node :=
  if n.stuck then n.writeStuck tombstoneColumn
  else { n with nanCounter := false }.after (n.engine.delete cr table row)

/-! ## Messages -/

def msg (body : List (JsString × Json)) : Json :=
  .obj ([(js "v", .num .two), (js "space", .str space), (js "from", .str n.engine.deviceId)] ++ body)

/-- The clock a `hello` carries. -/
def latestHlc : JsString :=
  match (n.engine.opsSince ∅).getLast? with
  | some op => op.hlc
  | none => zeroClock n.engine.deviceId

def helloMsg (clock : JsString) : Json :=
  n.msg space [(js "t", .str (js "hello")), (js "clock", .str clock),
    (js "key", .str (hex n.engine.deviceKey.publicKey))]

/-- The directory, to everyone when the peer has no name. -/
def keysMsg (receiver : Val) : Json :=
  n.msg space ((js "t", .str (js "keys")) :: addressed receiver ++
    [(js "keys", .obj (n.engine.keys.toList.map fun k => (k.1, .str (hex k.2))))])

def sinceMsg (receiver : Val) (frontier : Frontier) : Json :=
  n.msg space ((js "t", .str (js "since")) :: addressed receiver ++
    [(js "have", frontierJson frontier)])

def opsMsg (receiver : Val) (ops : List Op) : Json :=
  n.msg space ((js "t", .str (js "ops")) :: addressed receiver ++
    [(js "ops", .arr (ops.map Op.raw))])

def ackMsg (receiver : Val) (frontier : Frontier) : Json :=
  n.msg space ((js "t", .str (js "ack")) :: addressed receiver ++
    [(js "frontier", frontierJson frontier)])

/-- `this.transport.send(message)`, then on. -/
def send (message : Json) (exit : Exit) : Part :=
  if out.sendThrows message then ⟨n, [], .threw .send⟩ else ⟨n, [message], exit⟩

/-- `send` in a loop. -/
def sendAll : List Json → Part
  | [] => ⟨n, [], .done⟩
  | message :: rest =>
    if out.sendThrows message then ⟨n, [], .threw .send⟩
    else
      let p := sendAll rest
      ⟨p.node, message :: p.sent, p.exit⟩

/-- An engine call, then on. -/
def calling {α : Type} (r : Except Thrown α × Node) (ok : α → Exit) : Part :=
  match r.1 with
  | .ok a => ⟨r.2, [], ok a⟩
  | .error err => ⟨r.2, [], .threw err⟩

/-- The loop over `Object.entries(msg.keys)`. -/
def learnEntries (n : Node) : List (JsString × Json) → Part
  | [] => ⟨n, [], .done⟩
  | (id, .str k) :: rest => learnEntries (n.learnKey cr (some (.str id)) (unhex k)) rest
  | _ => ⟨n, [], .threw .typeError⟩

/-! ## The handler -/

/-- The `switch`, up to the first `await`. -/
def dispatch (msg : Json) : Part :=
  if (field msg (js "t")).isString (js "hello") then
    let n := match field msg (js "key") with
      | some (.str k) => n.learnKey cr (field msg (js "from")) (unhex k)
      | _ => n
    ⟨n, [], .wait .helloObserve⟩
  else if (field msg (js "t")).isString (js "keys") then
    match field msg (js "keys") with
    | none => ⟨n, [], .threw .typeError⟩
    | some .null => ⟨n, [], .threw .typeError⟩
    | some keys => learnEntries cr n keys.entries
  else if (field msg (js "t")).isString (js "since") then
    ⟨{ n with peers := setPeer n.peers (field msg (js "from")) (field msg (js "have")) }, [],
      .wait .sinceRecord⟩
  else if (field msg (js "t")).isString (js "ops") then
    match (field msg (js "ops")).lengthIsZero with
    | none => ⟨n, [], .threw .typeError⟩
    | some true => ⟨n, [], .done⟩
    | some false =>
      match n.checkBatch cr (field msg (js "ops")) with
      | .error err => ⟨n, [], .threw err⟩
      | .ok ops => ⟨n, [], .wait (.opsApply ops)⟩
  else if (field msg (js "t")).isString (js "ack") then
    ⟨{ n with peers := setPeer n.peers (field msg (js "from")) (field msg (js "frontier")) }, [],
      .wait .ackRecord⟩
  else ⟨n, [], .done⟩

/-- Whether `handle` goes past its guards; `none` where one of them throws. -/
def accepts (msg : Json) : Option Bool :=
  if !n.started then some false
  else
    match Val.prop (some msg) (js "space") with
    | none => none
    | some s =>
      some (s.isString space && (field msg (js "v")).isNumber .two &&
        !(field msg (js "from")).isString n.engine.deviceId &&
        (match field msg (js "to") with
          | none => true
          | some receiver => Val.isString (some receiver) n.engine.deviceId))

/-- The first stretch of the `try` block. -/
def begin (msg : Json) : Part :=
  match n.accepts space msg with
  | none => ⟨n, [], .threw .typeError⟩
  | some false => ⟨n, [], .done⟩
  | some true => n.dispatch cr msg

/-- The stretch of the `try` block from an `await` on. -/
def proceed (msg : Json) : Stage → Part
  | .helloObserve =>
    calling (n.observeRemoteClock (field msg (js "clock"))) fun _ => .wait .helloGreet
  | .helloGreet =>
    if n.peers.any fun p => p.1.sameKey (field msg (js "from")) then ⟨n, [], .wait .helloKeys⟩
    else
      let n := { n with peers := setPeer n.peers (field msg (js "from")) none }
      ⟨n, [], if out.peersThrows (n.peers.map Prod.fst) then .threw .callback
        else .wait (.helloSendGreet n.latestHlc)⟩
  | .helloSendGreet clock => n.send out (n.helloMsg space clock) (.wait .helloKeys)
  | .helloKeys => n.send out (n.keysMsg space (field msg (js "from"))) (.wait .helloFrontier)
  | .helloFrontier => ⟨n, [], .wait (.helloSince n.engine.frontier)⟩
  | .helloSince frontier => n.send out (n.sinceMsg space (field msg (js "from")) frontier) .done
  | .sinceRecord =>
    calling (n.recordPeerFrontier (field msg (js "from")) (field msg (js "have")))
      fun _ => .wait .sinceRead
  | .sinceRead =>
    match n.opsSince out (field msg (js "have")) with
    | none => ⟨n, [], .threw .typeError⟩
    | some missing => ⟨n, [], if missing.isEmpty then .done else .wait (.sinceKeys missing)⟩
  | .sinceKeys missing =>
    n.send out (n.keysMsg space (field msg (js "from"))) (.wait (.sinceSend missing))
  | .sinceSend missing =>
    n.sendAll out ((chunks opsPerMessage missing).map (n.opsMsg space (field msg (js "from"))))
  | .opsApply ops =>
    calling (n.mergeAdmitted ops) fun applied => if 0 < applied then .wait .opsFrontier else .done
  | .opsFrontier => ⟨n, [], .wait (.opsAck n.engine.frontier)⟩
  | .opsAck frontier => n.send out (n.ackMsg space (field msg (js "from")) frontier) .done
  | .ackRecord =>
    calling (n.recordPeerFrontier (field msg (js "from")) (field msg (js "frontier"))) fun _ => .done

/-- `handle(msg)` up to its first `await`. -/
def handle (msg : Json) : Stretch := (n.begin cr space msg).settled msg

/-- `handle(msg)` from a later `await` to the next. -/
def resume (msg : Json) (stage : Stage) : Stretch := (n.proceed out space msg stage).settled msg

end Node

end TangentFeed.Untyped
