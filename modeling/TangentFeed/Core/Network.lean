import TangentFeed.Core.Replicator

/-!
# Replicas on a network

`Config` is a set of nodes, everything ever sent, and the calls of the helper
`syncOnce` that are under way. The transport owes nothing: a message may be
delivered at any time, any number of times, or never, and `inject` delivers a
message nobody sent. An action runs one engine call, or one stretch of a handler
or of `syncOnce` to its next `await`. `trace` records what happened; nothing
reads it.
-/

namespace TangentFeed

inductive Event (ι : Type) where
  /-- The engine of `i` committed a batch. -/
  | committed (i : ι) (ev : ChangeEvent)
  /-- The engine of `i` was opened again on its store. -/
  | opened (i : ι)
  /-- Handler `h` of `i` took a message past the guards. -/
  | handling (i : ι) (h : Nat) (msg : WireMsg)
  /-- Handler `h` of `i`, or its live tail, sent a message. -/
  | sent (i : ι) (h : Option Nat) (msg : WireMsg)
  | finished (i : ι) (h : Nat)
  | failed (i : ι) (h : Nat)
  /-- The `k`-th `syncOnce(i, j)` started, completed, or was rejected. -/
  | syncing (k : Nat) (i j : ι)
  | synced (k : Nat)
  | unsynced (k : Nat)

/-- Where `syncOnce(a, b)` waits. -/
inductive SyncStage where
  /-- `fa` is read. -/
  | readFrontier (fa : Frontier)
  /-- `fa` and `fb` are read. -/
  | readA (fa fb : Frontier)
  | readB (fa : Frontier) (aToB : List Op)
  | applyB (aToB bToA : List Op)
  | applyA (bToA : List Op)
  | ackB
  | recordA (fb : Frontier)
  | ackA
  | recordB (fa : Frontier)

structure Sync (ι : Type) where
  a : ι
  b : ι
  stage : SyncStage

structure Config (ι : Type) where
  node : ι → Node
  sent : List WireMsg
  syncs : Std.ExtTreeMap Nat (Sync ι) compare
  nextSync : Nat
  trace : List (Event ι)

inductive Action (ι : Type) where
  | call (i : ι) (c : Call)
  | reopen (i : ι) (opts : EngineOptions) (seed : Nat)
  | syncOnce (i j : ι)
  /-- Run the `k`-th `syncOnce` to its next `await`. -/
  | resumeSync (k : Nat)
  | start (i : ι)
  | stop (i : ι)
  | peerConnect (i : ι)
  /-- Deliver to `i` the `k`-th message ever sent. -/
  | deliver (i : ι) (k : Nat)
  /-- Deliver to `i` a message from outside. -/
  | inject (i : ι) (msg : WireMsg)
  /-- Run handler `h` of `i` to its next `await`. -/
  | resume (i : ι) (h : Nat)

namespace Config

variable {ι : Type} [DecidableEq ι] (cr : Crypto) (space : JsString)

def setNode (w : Config ι) (i : ι) (n : Node) : Config ι :=
  { w with node := Function.update w.node i n }

def note (w : Config ι) (ev : Event ι) : Config ι := { w with trace := w.trace ++ [ev] }

/-- Node `i` sends a message. -/
def emit (i : ι) (h : Option Nat) (w : Config ι) (body : MsgBody) : Config ι :=
  let msg : WireMsg := ⟨wireVersion, space, (w.node i).engine.deviceId, body⟩
  { w with sent := w.sent ++ [msg], trace := w.trace ++ [.sent i h msg] }

/-- What an engine call leaves: the engine, and what the live tail sends. -/
def settle {α : Type} (w : Config ι) (i : ι) (r : Reply α) : Config ι :=
  let w := w.setNode i { w.node i with engine := r.engine }
  match r.event with
  | none => w
  | some ev =>
    (if .liveTail ∈ r.received then Node.liveTail ev else []).foldl (emit space i none)
      (w.note (.committed i ev))

/-! ## Handlers -/

/-- A stretch of handler `h` of node `i`. -/
def advance (w : Config ι) (i : ι) (h : Nat) (s : Stretch) : Config ι :=
  let w := s.sent.foldl (emit space i (some h)) (w.settle space i s.reply)
  let n := { w.node i with peers := s.peers }
  match s.outcome with
  | .wait handler => w.setNode i { n with pending := n.pending.insert h handler }
  | .done => (w.setNode i { n with pending := n.pending.erase h }).note (.finished i h)
  | .failed => (w.setNode i { n with pending := n.pending.erase h }).note (.failed i h)

/-- `handle(msg)` up to its first `await`. -/
def receive (w : Config ι) (i : ι) (msg : WireMsg) : Config ι :=
  let n := w.node i
  if n.accepts space msg then
    ((w.setNode i { n with nextId := n.nextId + 1 }).note (.handling i n.nextId msg)).advance space
      i n.nextId (n.handle cr msg)
  else w

/-- `sendHello()` up to its `await`. -/
def greet (w : Config ι) (i : ι) : Config ι :=
  let n := w.node i
  w.setNode i { n with
    nextId := n.nextId + 1, pending := n.pending.insert n.nextId (.greetSend n.latestHlc) }

/-- The node a reopened engine starts with. -/
def reopened (n : Node) (e : SyncEngine) : Node := ⟨e, false, ∅, ∅, n.nextId⟩

/-! ## `syncOnce` -/

/-- Everything `a` knows into `b`'s directory. -/
def shareKeys (w : Config ι) (a b : ι) : Config ι :=
  w.settle space b (.quiet ((w.node a).engine.keys.toList.foldl
    (fun e k => (e.learnKey cr k.1 k.2).2) (w.node b).engine) (.ok ()) : Reply Unit)

/-- `syncOnce(a, b)` up to its first `await`. -/
def startSync (w : Config ι) (a b : ι) : Config ι :=
  let w := (w.shareKeys cr space a b).shareKeys cr space b a
  { w with
    syncs := w.syncs.insert w.nextSync ⟨a, b, .readFrontier (w.node a).engine.frontier⟩
    nextSync := w.nextSync + 1
    trace := w.trace ++ [.syncing w.nextSync a b] }

/-- The `k`-th `syncOnce` goes on to a later `await`, or ends. -/
def stage (w : Config ι) (k : Nat) (a b : ι) : Option SyncStage → Config ι
  | some s => { w with syncs := w.syncs.insert k ⟨a, b, s⟩ }
  | none => ({ w with syncs := w.syncs.erase k }).note (.synced k)

/-- An engine call of the `k`-th `syncOnce`, which ends if the call rejects. -/
def stageCall {α : Type} (w : Config ι) (k : Nat) (a b i : ι) (r : Reply α)
    (next : Option SyncStage) : Config ι :=
  match r.result with
  | .ok _ => (w.settle space i r).stage k a b next
  | .error _ => ({ w.settle space i r with syncs := w.syncs.erase k }).note (.unsynced k)

/-- One stretch of the `k`-th `syncOnce`. -/
def resumeSync (w : Config ι) (k : Nat) (s : Sync ι) : Config ι :=
  let a := (w.node s.a).engine
  let b := (w.node s.b).engine
  match s.stage with
  | .readFrontier fa => w.stage k s.a s.b (some (.readA fa b.frontier))
  | .readA fa fb => w.stage k s.a s.b (some (.readB fa (a.opsSince fb)))
  | .readB fa aToB => w.stage k s.a s.b (some (.applyB aToB (b.opsSince fa)))
  | .applyB aToB bToA =>
    if aToB.isEmpty then w.stage k s.a s.b (some (.applyA bToA))
    else w.stageCall space k s.a s.b s.b (b.applyRemoteOps cr (aToB.map Op.raw)) (some (.applyA bToA))
  | .applyA bToA =>
    if bToA.isEmpty then w.stage k s.a s.b (some .ackB)
    else w.stageCall space k s.a s.b s.a (a.applyRemoteOps cr (bToA.map Op.raw)) (some .ackB)
  | .ackB => w.stage k s.a s.b (some (.recordA b.frontier))
  | .recordA fb =>
    w.stageCall space k s.a s.b s.a (a.recordPeerFrontier b.deviceId fb) (some .ackA)
  | .ackA => w.stage k s.a s.b (some (.recordB a.frontier))
  | .recordB fa => w.stageCall space k s.a s.b s.b (b.recordPeerFrontier a.deviceId fa) none

/-! ## Steps -/

def step (w : Config ι) : Action ι → Config ι
  | .call i c => w.settle space i (c.run cr (w.node i).engine)
  | .reopen i opts seed =>
    match SyncEngine.openOn cr opts (w.node i).engine.storage seed with
    | .ok e =>
      { w.setNode i (reopened (w.node i) e) with
        syncs := w.syncs.filter fun _ s => s.a != i && s.b != i
        trace := w.trace ++ [.opened i] }
    | .error _ => w
  | .syncOnce i j => if i = j then w else w.startSync cr space i j
  | .resumeSync k =>
    match w.syncs[k]? with
    | some s => w.resumeSync cr space k s
    | none => w
  | .start i =>
    let n := w.node i
    if n.started then w
    else
      (w.setNode i { n with
        started := true
        engine := n.engine.subscribe (Node.liveTailSubscriber fun _ => false) }).greet i
  | .stop i =>
    let n := w.node i
    w.setNode i { n with started := false, engine := n.engine.unsubscribe .liveTail, peers := ∅ }
  | .peerConnect i => if (w.node i).started then w.greet i else w
  | .deliver i k =>
    match w.sent[k]? with
    | some msg => w.receive cr space i msg
    | none => w
  | .inject i msg => w.receive cr space i msg
  | .resume i h =>
    match (w.node i).pending[h]? with
    | some handler => w.advance space i h ((w.node i).resume handler)
    | none => w

end Config

/-- Replicas with their options and the seeds of their device keys, which give
distinct devices. -/
structure Deployment (cr : Crypto) (ι : Type) where
  opts : ι → EngineOptions
  seed : ι → Nat
  distinct : Function.Injective fun i => deviceIdFromPublicKey cr (cr.keygen (seed i)).publicKey

namespace Deployment

variable {cr : Crypto} {ι : Type} (d : Deployment cr ι)

/-- The device of a replica. -/
def device (i : ι) : JsString := deviceIdFromPublicKey cr (cr.keygen (d.seed i)).publicKey

theorem device_injective : Function.Injective d.device := d.distinct

/-- All replicas just opened, no replicator started. -/
def initial : Config ι where
  node i := ⟨SyncEngine.opened cr (d.opts i) (d.seed i), false, ∅, ∅, 0⟩
  sent := []
  syncs := ∅
  nextSync := 0
  trace := []

end Deployment

end TangentFeed
