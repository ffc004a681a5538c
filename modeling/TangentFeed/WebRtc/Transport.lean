import TangentFeed.Signaling.Server
import TangentFeed.WebRtc.Signals

/-!
# The WebRTC transport

A `WebRTCTransport` with the objects it works on: the sockets, the connections
and the data channels that it ever made or was given. Callbacks and what an
`await` is waiting for come in any order. A socket fires `close` once and
`message` until then, as the `ws` package does, where the standard has no more
messages once it is closing; a closed connection is given no channel, but may
still report a state. The callbacks of the application do not throw. What they
call is as if it were called right after, but for `close()`, which may be called
while `onSignalingState` is told of `connecting` or `connected`.
-/

namespace TangentFeed.WebRtc

/-- `WebSocket.CONNECTING`, `OPEN`, `CLOSING` and `CLOSED`; the states of a channel are the same. -/
inductive ReadyState where
  | connecting
  | opened
  | closing
  | closed
  deriving DecidableEq, Repr

/-- After a call of `close()`. -/
def ReadyState.ending : ReadyState → ReadyState
  | .connecting | .opened => .closing
  | r => r

inductive SignalingState where
  | connecting
  | connected
  | disconnected
  | conflict
  deriving DecidableEq, Repr

/-- A socket of the client, with what was passed to its `send`. -/
structure ClientSocket where
  readyState : ReadyState
  sent : List Json

/-- The calls of an `RTCPeerConnection`. -/
inductive RtcCall where
  | createOffer
  | setLocalDescription (kind : BlobKind)
  | setRemoteDescription (data : Json)
  | createAnswer
  | addIceCandidate (candidate : Json)

/-- How far an `ensurePeer` that offers is. -/
inductive OfferStage where
  | creating
  | setting
  | ended
  deriving DecidableEq, Repr

/-- A peer, with its connection. -/
structure Peer where
  /-- The id that the callbacks of the connection close over. -/
  peerId : JsString
  /-- `pc.close()` was called. -/
  closed : Bool
  channel : Option Nat
  pendingCandidates : List Json
  remoteDescSet : Bool
  /-- The offer, if this side makes it; the other side takes the channel. -/
  offering : Option OfferStage
  log : List RtcCall

def Peer.calling (call : RtcCall) (p : Peer) : Peer := { p with log := p.log ++ [call] }

structure DataChannel where
  /-- The number of its connection. -/
  pc : Nat
  readyState : ReadyState
  /-- The id that its callbacks close over; `none` before they are set. -/
  peerId : Option JsString
  sent : List Json

/-- What a `handleSignal` waits for; the numbers are those of peers. -/
inductive HandleStage where
  /-- `ensurePeer`, which made this peer. -/
  | ensuring (made : Option Nat)
  | describing (peer : Nat)
  /-- `addIceCandidate` of a queued candidate; `rest` is what the loop has left. -/
  | draining (peer : Nat) (rest : List Json)
  | answering (peer : Nat)
  | localising (peer : Nat)
  /-- `addIceCandidate` of its own candidate. -/
  | adding (peer : Nat)
  | done

structure HandleSignal where
  sender : JsString
  data : Option Json
  stage : HandleStage

/-- What is passed to the listeners. -/
inductive Delivery where
  | message (listener : Nat) (msg : Json)
  | peerConnect (listener : Nat) (peerId : JsString)

structure WebRTCTransport where
  space : JsString
  deviceId : JsString
  sockets : List ClientSocket
  ws : Option Nat
  /-- Every peer that was made; `peers` has their numbers. -/
  made : List Peer
  channels : List DataChannel
  peers : OrderedMap JsString Nat
  msgListeners : List Nat
  peerConnectListeners : List Nat
  closed : Bool
  backoff : Nat
  /-- The delays of the timers that are set. -/
  timers : List Nat
  calls : List HandleSignal
  /-- The calls of `onSignalingState`. -/
  reports : List SignalingState
  /-- The peers that the calls of `onError` name. -/
  errors : List (Option JsString)
  delivered : List Delivery

/-! ## Messages -/

def joinMessage (space device : JsString) : Json :=
  .obj [(js "t", .str (js "join")), (js "space", .str space), (js "device", .str device)]

def signalMessage (target : JsString) (data : Json) : Json :=
  .obj [(js "t", .str (js "signal")), (js "to", .str target), (js "data", data)]

/-- `{ kind: "sdp", description: pc.localDescription }` -/
def sdpData (kind : BlobKind) (sdp : JsString) : Json :=
  .obj [(js "kind", .str (js "sdp")),
    (js "description", .obj [(js "type", .str kind.text), (js "sdp", .str sdp)])]

/-- `{ kind: "ice", candidate: ev.candidate }` -/
def iceData (candidate : Json) : Json :=
  .obj [(js "kind", .str (js "ice")), (js "candidate", candidate)]

namespace WebRTCTransport

def firstBackoffMs : Nat := 500

def maxBackoffMs : Nat := 15000

variable (s : WebRTCTransport)

def onPeer (k : Nat) (f : Peer → Peer) : WebRTCTransport := { s with made := s.made.modify k f }

def onSocket (i : Nat) (f : ClientSocket → ClientSocket) : WebRTCTransport :=
  { s with sockets := s.sockets.modify i f }

def onChannel (c : Nat) (f : DataChannel → DataChannel) : WebRTCTransport :=
  { s with channels := s.channels.modify c f }

def report (state : SignalingState) : WebRTCTransport :=
  { s with reports := s.reports ++ [state] }

def onError (peer : Option JsString) : WebRTCTransport := { s with errors := s.errors ++ [peer] }

/-! ## Closing -/

/-- `channel.close()`. -/
def closeChannel (c : Nat) : WebRTCTransport :=
  s.onChannel c fun ch => { ch with readyState := ch.readyState.ending }

/-- `pc.close()`, which closes the channels of the connection. -/
def closePc (k : Nat) : WebRTCTransport :=
  { s.onPeer k fun p => { p with closed := true } with
    channels := s.channels.map fun ch => if ch.pc = k then { ch with readyState := .closed } else ch }

/-- `peer.channel?.close()`. -/
def closeChannelOf (k : Nat) : WebRTCTransport :=
  match s.made[k]?.bind Peer.channel with
  | none => s
  | some c => s.closeChannel c

def dropPeer (peerId : JsString) : WebRTCTransport :=
  match s.peers.get peerId with
  | none => s
  | some k => ({ s with peers := s.peers.erase peerId }.closeChannelOf k).closePc k

def close : WebRTCTransport :=
  let s := { s with closed := true }
  let s := s.peers.keys.foldl dropPeer s
  let s := match s.ws with
    | none => s
    | some i => s.onSocket i fun ws => { ws with readyState := ws.readyState.ending }
  { s with ws := none, msgListeners := [], peerConnectListeners := [] }

/-! ## Signaling -/

def sigSend (msg : Json) : WebRTCTransport :=
  match s.ws with
  | none => s
  | some i =>
    s.onSocket i fun ws =>
      if ws.readyState = .opened then { ws with sent := ws.sent ++ [msg] } else ws

/-- `new this.WS(..)`, which is the socket from now on. -/
def newSocket : WebRTCTransport :=
  { s with sockets := s.sockets ++ [⟨.connecting, []⟩], ws := some s.sockets.length }

/-- `closes` if `onSignalingState` calls `close()`; the socket is made all the same. -/
def connectSignaling (closes : Bool) : WebRTCTransport :=
  if s.closed then s
  else
    let s := s.report .connecting
    let s := if closes then s.close else s
    s.newSocket

/-- The constructor, where the environment has what it needs; nobody has the transport yet. -/
def new (space deviceId : JsString) : WebRTCTransport :=
  connectSignaling {
    space, deviceId, sockets := [], ws := none, made := [], channels := [], peers := .empty,
    msgListeners := [], peerConnectListeners := [], closed := false, backoff := firstBackoffMs,
    timers := [], calls := [], reports := [], errors := [], delivered := [] } false

/-- `ws.onopen`; `closes` if `onSignalingState` calls `close()`. -/
def onOpen (closes : Bool) : WebRTCTransport :=
  let s := { s with backoff := firstBackoffMs }.report .connected
  let s := if closes then s.close else s
  s.sigSend (joinMessage s.space s.deviceId)

/-- `ws.onclose`. -/
def onClose (code : Nat) : WebRTCTransport :=
  if s.closed then s
  else if code = 4000 then (s.report .conflict).onError none
  else
    { s.report .disconnected with
      timers := s.timers ++ [s.backoff], backoff := min (s.backoff * 2) maxBackoffMs }

/-! ## Peers -/

def isInitiatorFor (peerId : JsString) : Bool := s.deviceId < peerId

/-- The callbacks of the channel are set where there is a peer to have it. -/
def attachChannel (peerId : JsString) (c : Nat) : WebRTCTransport :=
  match s.peers.get peerId with
  | none => s
  | some k =>
    (s.onPeer k fun p => { p with channel := some c }).onChannel c fun ch =>
      { ch with peerId := some peerId }

/-- A new channel of connection `k`, which `createDataChannel` made or the other side. -/
def newChannel (k : Nat) (peerId : JsString) : WebRTCTransport :=
  { s with channels := s.channels ++ [(⟨k, .connecting, none, []⟩ : DataChannel)] }.attachChannel
    peerId s.channels.length

/-- `ensurePeer` has a peer to make. -/
def Lacks (peerId : JsString) : Prop :=
  peerId ≠ [] ∧ peerId ≠ s.deviceId ∧ s.peers.get peerId = none

instance (peerId : JsString) : Decidable (s.Lacks peerId) := inferInstanceAs (Decidable (_ ∧ _))

/-- The peer is made, and its callbacks are set. -/
def addPeer (peerId : JsString) : WebRTCTransport :=
  { s with
    made := s.made ++ [⟨peerId, false, none, [], false, none, []⟩]
    peers := s.peers.set peerId s.made.length }

/-- `ensurePeer`, up to its first `await`. -/
def ensurePeer (peerId : JsString) : WebRTCTransport :=
  if s.Lacks peerId then
    if s.isInitiatorFor peerId then
      ((s.addPeer peerId).newChannel s.made.length peerId).onPeer s.made.length fun p =>
        { p.calling .createOffer with offering := some .creating }
    else s.addPeer peerId
  else s

/-- How what an `await` waits for ends; a description has this text. -/
inductive Settlement where
  | resolved (sdp : JsString)
  | rejected

/-- `ensurePeer` of peer `k` goes on. -/
def offer (k : Nat) (r : Settlement) : WebRTCTransport :=
  match s.made[k]? with
  | none => s
  | some p =>
    match p.offering, r with
    | some .creating, .resolved _ =>
      s.onPeer k fun p =>
        { p.calling (.setLocalDescription .offer) with offering := some .setting }
    | some .setting, .resolved sdp =>
      (s.onPeer k fun p => { p with offering := some .ended }).sigSend
        (signalMessage p.peerId (sdpData .offer sdp))
    | some .creating, .rejected | some .setting, .rejected =>
      ((s.onPeer k fun p => { p with offering := some .ended }).onError (some p.peerId)).dropPeer
        p.peerId
    | some .ended, _ | none, _ => s

/-! ## `handleSignal` -/

def goOn (n : Nat) (stage : HandleStage) : WebRTCTransport :=
  { s with calls := s.calls.modify n fun call => { call with stage := stage } }

/-- A call of the connection of peer `k`, which is awaited. -/
def await (n k : Nat) (call : RtcCall) (stage : HandleStage) : WebRTCTransport :=
  (s.onPeer k (Peer.calling call)).goOn n stage

/-- The `catch`. -/
def fail (n : Nat) (call : HandleSignal) : WebRTCTransport :=
  (s.onError (some call.sender)).goOn n .done

/-- The loop over the queued candidates, and what follows it. -/
def drain (n : Nat) (call : HandleSignal) (k : Nat) : List Json → WebRTCTransport
  | c :: rest => s.await n k (.addIceCandidate c) (.draining k rest)
  | [] =>
    if call.data.any isOffer then s.await n k .createAnswer (.answering k) else s.goOn n .done

/-- After `ensurePeer`, up to the next `await`. -/
def enter (n : Nat) (call : HandleSignal) : WebRTCTransport :=
  match s.peers.get call.sender with
  | none => s.goOn n .done
  | some k =>
    match call.data with
    | none | some .null => s.fail n call
    | some data =>
      match descriptionOf data, candidateOf data with
      | some _, _ => s.await n k (.setRemoteDescription data) (.describing k)
      | none, some c =>
        if (s.made[k]?.map Peer.remoteDescSet).getD false then
          s.await n k (.addIceCandidate c) (.adding k)
        else
          (s.onPeer k fun p => { p with pendingCandidates := p.pendingCandidates ++ [c] }).goOn n
            .done
      | none, none => s.goOn n .done

/-- After `setRemoteDescription`: the flag is set and the queue taken. -/
def describe (n : Nat) (call : HandleSignal) (k : Nat) : WebRTCTransport :=
  (s.onPeer k fun p => { p with remoteDescSet := true, pendingCandidates := [] }).drain n call k
    ((s.made[k]?.map Peer.pendingCandidates).getD [])

/-- Whether `ensurePeer` of the peer that a call made is over. -/
def ensured (k : Option Nat) : Bool :=
  match (k.bind fun k => s.made[k]?).bind Peer.offering with
  | some .creating | some .setting => false
  | some .ended | none => true

/-- A call goes on, as what it waits for is settled. -/
def settle (n : Nat) (call : HandleSignal) (r : Settlement) : WebRTCTransport :=
  match call.stage, r with
  | .ensuring made, _ => if s.ensured made then s.enter n call else s
  | .describing k, .resolved _ => s.describe n call k
  | .draining k rest, .resolved _ => s.drain n call k rest
  | .answering k, .resolved _ => s.await n k (.setLocalDescription .answer) (.localising k)
  | .localising _, .resolved sdp =>
    (s.sigSend (signalMessage call.sender (sdpData .answer sdp))).goOn n .done
  | .adding _, .resolved _ => s.goOn n .done
  | .done, _ => s
  | _, .rejected => s.fail n call

/-- `handleSignal`, up to its first `await`. -/
def handleSignal (sender : JsString) (data : Option Json) : WebRTCTransport :=
  let made := if s.Lacks sender then some s.made.length else none
  let s := s.ensurePeer sender
  { s with calls := s.calls ++ [⟨sender, data, .ensuring made⟩] }

def handleSignaling : Signaling.Reply → WebRTCTransport
  | .peers devices => devices.foldl ensurePeer s
  | .peerJoined device => s.ensurePeer device
  | .peerLeft device => s.dropPeer device
  | .signal sender data => s.handleSignal sender data
  | .error _ => s

/-! ## The interface -/

/-- The channels that are open, of the peers in their order. -/
def openChannels : List Nat :=
  s.peers.values.filterMap fun k =>
    (s.made[k]?.bind Peer.channel).filter fun c =>
      (s.channels[c]?.map DataChannel.readyState) = some .opened

/-- `listeners.add(cb)`. -/
def listen (cb : Nat) (listeners : List Nat) : List Nat :=
  if cb ∈ listeners then listeners else listeners ++ [cb]

/-- One channel of `send`; `throws` are the channels whose `send` throws. -/
def sendOn (throws : List Nat) (msg : Json) (s : WebRTCTransport) (c : Nat) : WebRTCTransport :=
  if c ∈ throws then s.onError none
  else s.onChannel c fun ch => { ch with sent := ch.sent ++ [msg] }

def send (msg : Json) (throws : List Nat) : WebRTCTransport :=
  s.openChannels.foldl (sendOn throws msg) s

/-! ## Callbacks of connections and channels -/

/-- `pc.onicecandidate`. -/
def onIceCandidate (k : Nat) (candidate : Option Json) : WebRTCTransport :=
  match s.made[k]?, candidate with
  | some p, some c => s.sigSend (signalMessage p.peerId (iceData c))
  | _, _ => s

/-- `pc.onconnectionstatechange`, by the `connectionState` that it reads. -/
def onConnectionStateChange (k : Nat) (connectionState : JsString) : WebRTCTransport :=
  match s.made[k]? with
  | none => s
  | some p =>
    if connectionState ∈ [js "failed", js "closed", js "disconnected"] then s.dropPeer p.peerId
    else s

/-- `pc.ondatachannel`, which is set where the other side offers. -/
def onDataChannel (k : Nat) : WebRTCTransport :=
  match s.made[k]? with
  | none => s
  | some p => if p.closed ∨ p.offering.isSome then s else s.newChannel k p.peerId

/-- `channel.onopen`. -/
def onChannelOpen (c : Nat) : WebRTCTransport :=
  match s.channels[c]? with
  | none => s
  | some ch =>
    if ch.readyState ≠ .connecting then s
    else
      { s.onChannel c fun ch => { ch with readyState := .opened } with
        delivered := s.delivered ++ (ch.peerId.toList.flatMap fun peerId =>
          s.peerConnectListeners.map fun cb => .peerConnect cb peerId) }

/-- `channel.onmessage`; `none` is what is no JSON. -/
def onChannelMessage (c : Nat) (raw : Option Json) : WebRTCTransport :=
  match s.channels[c]?.bind DataChannel.peerId, raw with
  | none, _ => s
  | some peerId, none => s.onError (some peerId)
  | some _, some msg =>
    { s with delivered := s.delivered ++ s.msgListeners.map fun cb => .message cb msg }

/-- `channel.onclose`. -/
def onChannelClose (c : Nat) : WebRTCTransport :=
  let s' := s.onChannel c fun ch => { ch with readyState := .closed }
  match s.channels[c]?.bind DataChannel.peerId with
  | none => s'
  | some peerId =>
    if ((s.peers.get peerId).bind fun k => s.made[k]?.bind Peer.channel) = some c then
      s'.dropPeer peerId
    else s'

/-! ## Runs -/

inductive Action where
  /-- The `open` event of a socket. -/
  | opened (socket : Nat) (closes : Bool)
  /-- A message of the server; `none` is what `JSON.parse` throws at. -/
  | message (socket : Nat) (msg : Option Signaling.Reply)
  /-- The other end begins to close the socket. -/
  | closing (socket : Nat)
  | closed (socket : Nat) (code : Nat)
  | timer (n : Nat) (closes : Bool)
  | offer (peer : Nat) (r : Settlement)
  | settle (call : Nat) (r : Settlement)
  | iceCandidate (pc : Nat) (candidate : Option Json)
  | connectionState (pc : Nat) (state : JsString)
  | dataChannel (pc : Nat)
  | channelOpen (channel : Nat)
  | channelMessage (channel : Nat) (raw : Option Json)
  | channelClose (channel : Nat)
  | send (msg : Json) (throws : List Nat)
  | onMessage (listener : Nat)
  | offMessage (listener : Nat)
  | onPeerConnect (listener : Nat)
  | offPeerConnect (listener : Nat)
  | close

def readyState (i : Nat) : Option ReadyState := s.sockets[i]?.map ClientSocket.readyState

def step : Action → WebRTCTransport
  | .opened i closes =>
    if s.readyState i = some .connecting then
      (s.onSocket i fun ws => { ws with readyState := .opened }).onOpen closes
    else s
  | .message i msg =>
    if s.readyState i = some .opened ∨ s.readyState i = some .closing then
      match msg with
      | none => s
      | some msg => s.handleSignaling msg
    else s
  | .closing i => s.onSocket i fun ws => { ws with readyState := ws.readyState.ending }
  | .closed i code =>
    if s.readyState i = none ∨ s.readyState i = some .closed then s
    else (s.onSocket i fun ws => { ws with readyState := .closed }).onClose code
  | .timer n closes =>
    if n < s.timers.length then { s with timers := s.timers.eraseIdx n }.connectSignaling closes
    else s
  | .offer k r => s.offer k r
  | .settle n r =>
    match s.calls[n]? with
    | none => s
    | some call => s.settle n call r
  | .iceCandidate k candidate => s.onIceCandidate k candidate
  | .connectionState k state => s.onConnectionStateChange k state
  | .dataChannel k => s.onDataChannel k
  | .channelOpen c => s.onChannelOpen c
  | .channelMessage c raw => s.onChannelMessage c raw
  | .channelClose c => s.onChannelClose c
  | .send msg throws => s.send msg throws
  | .onMessage cb => { s with msgListeners := listen cb s.msgListeners }
  | .offMessage cb => { s with msgListeners := s.msgListeners.filter (· ≠ cb) }
  | .onPeerConnect cb =>
    { s with peerConnectListeners := listen cb s.peerConnectListeners }
  | .offPeerConnect cb =>
    { s with peerConnectListeners := s.peerConnectListeners.filter (· ≠ cb) }
  | .close => s.close

/-- The transport after a sequence of actions. -/
def after (space deviceId : JsString) (acts : List Action) : WebRTCTransport :=
  Runs.run step (new space deviceId) acts

end WebRTCTransport

end TangentFeed.WebRtc
