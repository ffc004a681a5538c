import TangentFeed.Core.Engine

/-!
# The replicator

The session protocol of one replica. A message handler runs to its next `await`
at a time: `Node.handle` is the stretch from the arrival of a message, and
`Node.resume` the stretch from a later `await`, which `Handler` names together
with the local variables that are still needed. The fields `from` and `to` of a
message are `sender` and `receiver`.
-/

namespace TangentFeed

def wireVersion : Nat := 2

def opsPerMessage : Nat := 500

/-- The fields of a message by its type; `ops` are the JSON objects on the wire. -/
inductive MsgBody where
  | hello (clock : JsString) (key : Option JsString)
  | keys (receiver : Option JsString) (keys : JsMap JsString)
  | since (receiver : JsString) (frontier : Frontier)
  | ops (receiver : Option JsString) (ops : List Json)
  | ack (receiver : JsString) (frontier : Frontier)

structure WireMsg where
  v : Nat
  space : JsString
  sender : JsString
  body : MsgBody

/-- The addressee, if the message names one. -/
def MsgBody.addressee : MsgBody → Option JsString
  | hello .. => none
  | keys receiver _ => receiver
  | since receiver _ => some receiver
  | ops receiver _ => receiver
  | ack receiver _ => some receiver

/-! ## Keys as text -/

/-- Two lowercase hexadecimal digits a byte. -/
def hex (b : Bytes) : JsString := b.flatMap hexByte

/-- A unit that `.` of a regular expression does not match. -/
def isLineTerminator (c : CodeUnit) : Bool :=
  c.val == 0x0a || c.val == 0x0d || c.val == 0x2028 || c.val == 0x2029

/-- A digit of base 16, of either case. -/
def isHexUnit (c : CodeUnit) : Bool := isLowerHex c || (0x41 ≤ c.val && c.val ≤ 0x46)

/-- White space that `parseInt` skips and `.` matches. -/
def isBlank (c : CodeUnit) : Bool :=
  [0x09, 0x0b, 0x0c, 0x20, 0xa0, 0x1680, 0x202f, 0x205f, 0x3000, 0xfeff].contains c.val ||
    (0x2000 ≤ c.val && c.val ≤ 0x200a)

/-- `parseInt(h, 16)` of two units, as an element of a `Uint8Array`: `NaN` is 0
and a negative number wraps. -/
def parseIntPair (c d : CodeUnit) : Byte :=
  if isHexUnit c then
    if isHexUnit d then Fin.ofNat 256 (16 * hexVal c + hexVal d) else Fin.ofNat 256 (hexVal c)
  else if isHexUnit d then
    if c.val = 0x2d then Fin.ofNat 256 (256 - hexVal d)
    else if isBlank c || c.val = 0x2b then Fin.ofNat 256 (hexVal d)
    else 0
  else 0

/-- `s.match(/../g)`, each pair read by `parseInt`. -/
def unhex : JsString → Bytes
  | c :: d :: rest =>
    if isLineTerminator c then unhex (d :: rest)
    else if isLineTerminator d then unhex rest
    else parseIntPair c d :: unhex rest
  | _ => []

/-- `arr` in slices of `size`. -/
def chunks {α : Type} (size : Nat) (arr : List α) : List (List α) :=
  (List.range ((arr.length + size - 1) / size)).map fun i => (arr.drop (i * size)).take size

def zeroClock (deviceId : JsString) : JsString :=
  List.replicate 12 0x30 ++ js "-0000-" ++ deviceId

/-! ## Handlers -/

/-- Where a handler waits. -/
inductive Handler where
  /-- `sendHello`: its `opsSince` has answered. -/
  | greetSend (clock : JsString)
  /-- `hello`: waiting for the lock to observe the peer's clock. -/
  | helloObserve (sender clock : JsString)
  | helloGreet (sender : JsString)
  | helloSendGreet (sender clock : JsString)
  | helloKeys (sender : JsString)
  | helloFrontier (sender : JsString)
  | helloSince (sender : JsString) (frontier : Frontier)
  | sinceRecord (sender : JsString) (frontier : Frontier)
  | sinceRead (sender : JsString) (frontier : Frontier)
  | sinceKeys (sender : JsString) (missing : List Op)
  | sinceSend (sender : JsString) (missing : List Op)
  /-- `ops`: checked, waiting for the lock. -/
  | opsApply (sender : JsString) (ops : List Op)
  | opsFrontier (sender : JsString)
  | opsAck (sender : JsString) (frontier : Frontier)
  | ackRecord (sender : JsString) (frontier : Frontier)

/-- One replica with its replicator. `pending` are the handlers that wait, by
the number they were given. -/
structure Node where
  engine : SyncEngine
  started : Bool
  peers : JsMap (Option Frontier)
  pending : Std.ExtTreeMap Nat Handler compare
  nextId : Nat

/-- How a handler goes on after a stretch. -/
inductive Outcome where
  | wait (h : Handler)
  | done
  /-- It threw; `onError` is called. -/
  | failed

/-- One stretch of a handler: what the engine calls in it left, the peers, what
was sent, and how it goes on. -/
structure Stretch where
  reply : Reply Unit
  peers : JsMap (Option Frontier)
  sent : List MsgBody
  outcome : Outcome

namespace Node

variable (cr : Crypto) (n : Node)

/-- A stretch without engine calls that change it. -/
def still (sent : List MsgBody) (outcome : Outcome) : Stretch :=
  ⟨.quiet n.engine (.ok ()), n.peers, sent, outcome⟩

/-- A stretch that makes one engine call and goes on by its result. -/
def calling {α : Type} (r : Reply α) (ok : α → Outcome) : Stretch where
  reply := r.map fun _ => ()
  peers := n.peers
  sent := []
  outcome := match r.result with
    | .ok a => ok a
    | .error _ => .failed

/-- The clock a `hello` carries. -/
def latestHlc : JsString :=
  match (n.engine.opsSince ∅).getLast? with
  | some op => op.hlc
  | none => zeroClock n.engine.deviceId

def helloBody (clock : JsString) : MsgBody := .hello clock (some (hex n.engine.deviceKey.publicKey))

/-- The directory as a `keys` message. -/
def keysBody (receiver : JsString) : MsgBody :=
  .keys (some receiver) (n.engine.keys.map fun _ k => hex k)

/-- Whether `handle` goes past its guards. -/
def accepts (space : JsString) (msg : WireMsg) : Bool :=
  n.started && msg.space == space && msg.v == wireVersion && msg.sender != n.engine.deviceId &&
    (match msg.body.addressee with
      | none => true
      | some receiver => receiver == n.engine.deviceId)

/-- Learn a list of keys in hexadecimal. -/
def learnAll (e : SyncEngine) (keys : List (JsString × JsString)) : SyncEngine :=
  keys.foldl (fun e k => (e.learnKey cr k.1 (unhex k.2)).2) e

/-- The first stretch of `handle`, past the guards. -/
def handle (msg : WireMsg) : Stretch :=
  match msg.body with
  | .hello clock key =>
    let e := match key with
      | some k => (n.engine.learnKey cr msg.sender (unhex k)).2
      | none => n.engine
    ⟨.quiet e (.ok ()), n.peers, [], .wait (.helloObserve msg.sender clock)⟩
  | .keys _ keys => ⟨.quiet (learnAll cr n.engine keys.toList) (.ok ()), n.peers, [], .done⟩
  | .since _ frontier =>
    ⟨.quiet n.engine (.ok ()), n.peers.insert msg.sender (some frontier), [],
      .wait (.sinceRecord msg.sender frontier)⟩
  | .ops _ ops =>
    if ops.isEmpty then n.still [] .done
    else
      match n.engine.checkBatch cr ops with
      | .error _ => n.still [] .failed
      | .ok ops => n.still [] (.wait (.opsApply msg.sender ops))
  | .ack _ frontier =>
    ⟨.quiet n.engine (.ok ()), n.peers.insert msg.sender (some frontier), [],
      .wait (.ackRecord msg.sender frontier)⟩

/-- The stretch from an `await` on. -/
def resume : Handler → Stretch
  | .greetSend clock => n.still [n.helloBody clock] .done
  | .helloObserve sender clock =>
    n.calling (n.engine.observeRemoteClock clock) fun _ => .wait (.helloGreet sender)
  | .helloGreet sender =>
    if n.peers.contains sender then n.still [] (.wait (.helloKeys sender))
    else { n.still [] (.wait (.helloSendGreet sender n.latestHlc)) with
      peers := n.peers.insert sender none }
  | .helloSendGreet sender clock => n.still [n.helloBody clock] (.wait (.helloKeys sender))
  | .helloKeys sender => n.still [n.keysBody sender] (.wait (.helloFrontier sender))
  | .helloFrontier sender => n.still [] (.wait (.helloSince sender n.engine.frontier))
  | .helloSince sender frontier => n.still [.since sender frontier] .done
  | .sinceRecord sender frontier =>
    n.calling (n.engine.recordPeerFrontier sender frontier) fun _ => .wait (.sinceRead sender frontier)
  | .sinceRead sender frontier =>
    let missing := n.engine.opsSince frontier
    n.still [] (if missing.isEmpty then .done else .wait (.sinceKeys sender missing))
  | .sinceKeys sender missing => n.still [n.keysBody sender] (.wait (.sinceSend sender missing))
  | .sinceSend sender missing =>
    n.still ((chunks opsPerMessage missing).map fun c => .ops (some sender) (c.map Op.raw)) .done
  | .opsApply sender ops =>
    n.calling (n.engine.mergeAdmitted ops) fun applied =>
      if 0 < applied then .wait (.opsFrontier sender) else .done
  | .opsFrontier sender => n.still [] (.wait (.opsAck sender n.engine.frontier))
  | .opsAck sender frontier => n.still [.ack sender frontier] .done
  | .ackRecord sender frontier =>
    n.calling (n.engine.recordPeerFrontier sender frontier) fun _ => .done

/-- What the live tail sends on a change event. -/
def liveTail (ev : ChangeEvent) : List MsgBody :=
  if ev.origin ≠ .local ∨ ev.ops.isEmpty then []
  else (chunks opsPerMessage ev.ops).map fun c => .ops none (c.map Op.raw)

/-- The live tail as a subscriber, on a transport whose `send` may throw. -/
def liveTailSubscriber (sendThrows : MsgBody → Bool) : Subscriber :=
  ⟨.liveTail, fun ev => (liveTail ev).any sendThrows⟩

end Node

end TangentFeed
