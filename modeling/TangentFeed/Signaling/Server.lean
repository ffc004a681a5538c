import TangentFeed.Js.Json
import TangentFeed.Lib.OrderedMap
import TangentFeed.Lib.Runs

/-!
# The signaling server

Rooms of the devices of a space, and a blind relay between them. The state is
what the server keeps (`rooms`) and, for each socket that ever connected, what
its connection handler closes over (`me`), its `readyState` and what was sent to
it. A socket on which `close` was called still delivers messages until its close
event; what is sent to a socket that is not open is dropped. An exception of a
listener ends the process: nothing catches it.
-/

namespace TangentFeed.Signaling

/-- `WebSocket.OPEN`, `CLOSING` and `CLOSED`. -/
inductive ReadyState where
  | opened
  | closing
  | closed
  deriving DecidableEq, Repr

structure Client where
  ws : Nat
  space : JsString
  device : JsString
  deriving DecidableEq, Repr

/-- A message of the server. -/
inductive Reply where
  | peers (devices : List JsString)
  | peerJoined (device : JsString)
  | peerLeft (device : JsString)
  | signal (sender : JsString) (data : Option Json)
  | error (message : JsString)

structure Socket where
  readyState : ReadyState
  me : Option Client
  received : List Reply

structure Server where
  sockets : List Socket
  rooms : OrderedMap JsString (OrderedMap JsString Client)
  /-- The process has ended. -/
  ended : Bool

namespace Server

def initial : Server := ⟨[], .empty, false⟩

def readyState (s : Server) (w : Nat) : Option ReadyState := s.sockets[w]?.map Socket.readyState

def me (s : Server) (w : Nat) : Option Client := s.sockets[w]?.bind Socket.me

def inbox (s : Server) (w : Nat) : List Reply := (s.sockets[w]?.map Socket.received).getD []

/-- `rooms.get(space)?.get(device)`. -/
def lookup (s : Server) (space device : JsString) : Option Client :=
  (s.rooms.get space).bind fun room => room.get device

def setRooms (s : Server) (rooms : OrderedMap JsString (OrderedMap JsString Client)) : Server :=
  { s with rooms }

def update (s : Server) (w : Nat) (f : Socket → Socket) : Server :=
  { s with sockets := s.sockets.modify w f }

def setMe (s : Server) (w : Nat) (me : Option Client) : Server :=
  s.update w fun k => { k with me }

/-- `send(ws, msg)`. -/
def send (s : Server) (w : Nat) (msg : Reply) : Server :=
  s.update w fun k =>
    if k.readyState = .opened then { k with received := k.received ++ [msg] } else k

/-- `ws.close(..)`: the socket is closing from now on. -/
def close (s : Server) (w : Nat) : Server :=
  s.update w fun k => if k.readyState = .opened then { k with readyState := .closing } else k

/-- One message to each client of a list. -/
def sendAll (s : Server) (clients : List Client) (msg : Reply) : Server :=
  clients.foldl (fun s c => s.send c.ws msg) s

/-- `leave(c)`. -/
def leave (s : Server) (c : Client) : Server :=
  match s.rooms.get c.space with
  | none => s
  | some room =>
    if (room.get c.device).map Client.ws ≠ some c.ws then s
    else
      let room := room.erase c.device
      let rooms := if room.size = 0 then s.rooms.erase c.space else s.rooms.set c.space room
      (s.setRooms rooms).sendAll room.values (.peerLeft c.device)

/-- `if (me) leave(me)`. -/
def leaveMine (s : Server) (w : Nat) : Server :=
  match s.me w with
  | some c => s.leave c
  | none => s

/-- `if (evicted) evicted.ws.close(..)`. -/
def evict (s : Server) : Option Client → Server
  | some evicted => s.close evicted.ws
  | none => s

/-- Put client `c` in its room, tell it who else is there, and the others of it. -/
def admitted (s : Server) (c : Client) : Server :=
  let room := ((s.rooms.get c.space).getD .empty).set c.device c
  let s := s.setRooms (s.rooms.set c.space room)
  let s := s.send c.ws (.peers (room.keys.filter (· ≠ c.device)))
  s.sendAll (room.values.filter fun o => o.device ≠ c.device) (.peerJoined c.device)

/-- Enter client `c`; an old client under its name is closed. -/
def enter (s : Server) (c : Client) : Server :=
  (s.evict (s.lookup c.space c.device)).admitted c

def join (s : Server) (w : Nat) (msg : Json) : Server :=
  let space := msg.getStr (js "space")
  let device := msg.getStr (js "device")
  if space = [] ∨ device = [] then s.send w (.error (js "join needs space and device"))
  else ((s.leaveMine w).setMe w (some ⟨w, space, device⟩)).enter ⟨w, space, device⟩

def signal (s : Server) (w : Nat) (msg : Json) : Server :=
  match s.me w with
  | none => s.send w (.error (js "join first"))
  | some c =>
    match s.lookup c.space (msg.getStr (js "to")) with
    | none => s
    | some target => s.send target.ws (.signal c.device (msg.get? (js "data")))

/-- An exception that nothing catches: what the process kept is gone, and its connections
are closed. -/
def uncaught (s : Server) : Server where
  sockets := s.sockets.map fun k => { k with readyState := .closed, me := none }
  rooms := .empty
  ended := true

/-- The message handler; `raw` is `none` where `JSON.parse` throws. Reading a
property of `null` throws outside of the `try`. -/
def onMessage (s : Server) (w : Nat) (raw : Option Json) : Server :=
  match raw with
  | none => s.send w (.error (js "invalid JSON"))
  | some .null => s.uncaught
  | some msg =>
    if msg.getStr (js "t") = js "join" then s.join w msg
    else if msg.getStr (js "t") = js "signal" then s.signal w msg
    else s.send w (.error (js "unknown message type"))

/-- The close handler; the socket is closed from now on. -/
def onClose (s : Server) (w : Nat) : Server :=
  (s.leaveMine w).update w fun k => { k with readyState := .closed, me := none }

end Server

/-- What can happen to the server. `closing` is the start of a closing handshake
on the side of the client. -/
inductive Event where
  | connection
  | message (w : Nat) (raw : Option Json)
  | closing (w : Nat)
  | close (w : Nat)

/-- The socket is there and its close event has not come. -/
def Server.Live (s : Server) (w : Nat) : Prop :=
  s.readyState w = some .opened ∨ s.readyState w = some .closing

instance (s : Server) (w : Nat) : Decidable (s.Live w) := inferInstanceAs (Decidable (_ ∨ _))

/-- One event; a socket that is not there, or closed, has none, and a process that has ended
accepts no connection. -/
def Server.step (s : Server) : Event → Server
  | .connection => if s.ended then s else { s with sockets := s.sockets ++ [⟨.opened, none, []⟩] }
  | .message w raw => if s.Live w then s.onMessage w raw else s
  | .closing w => s.close w
  | .close w => if s.Live w then s.onClose w else s

/-- The server after a sequence of events. -/
def Server.after (evs : List Event) : Server := Runs.run Server.step .initial evs

/-! ## What each move changes -/

namespace Server

variable {s : Server} {v w : Nat} {c : Client} {m : Reply} {cs : List Client}
  {f : Socket → Socket}

theorem sockets_update : (s.update w f).sockets[v]? =
    if v = w then s.sockets[v]?.map f else s.sockets[v]? := by
  unfold update
  rw [List.getElem?_modify]
  by_cases h : v = w
  · subst h
    simp
  · simp [h, Ne.symm h]

theorem readyState_update (hf : ∀ k, (f k).readyState = k.readyState) :
    (s.update w f).readyState v = s.readyState v := by
  unfold readyState
  rw [sockets_update]
  split
  · cases s.sockets[v]? <;> simp [hf]
  · rfl

theorem me_update (hf : ∀ k, (f k).me = k.me) : (s.update w f).me v = s.me v := by
  unfold me
  rw [sockets_update]
  split
  · cases s.sockets[v]? <;> simp [hf]
  · rfl

theorem inbox_update (hf : ∀ k, (f k).received = k.received) :
    (s.update w f).inbox v = s.inbox v := by
  unfold inbox
  rw [sockets_update]
  split
  · cases s.sockets[v]? <;> simp [hf]
  · rfl

section SetRooms

variable (rooms : OrderedMap JsString (OrderedMap JsString Client))

@[simp] theorem rooms_setRooms : (s.setRooms rooms).rooms = rooms := rfl

@[simp] theorem readyState_setRooms : (s.setRooms rooms).readyState v = s.readyState v := rfl

@[simp] theorem me_setRooms : (s.setRooms rooms).me v = s.me v := rfl

@[simp] theorem inbox_setRooms : (s.setRooms rooms).inbox v = s.inbox v := rfl

end SetRooms

@[simp] theorem readyState_setMe (o : Option Client) :
    (s.setMe w o).readyState v = s.readyState v := readyState_update fun _ => rfl

@[simp] theorem inbox_setMe (o : Option Client) : (s.setMe w o).inbox v = s.inbox v :=
  inbox_update fun _ => rfl

theorem me_setMe (o : Option Client) :
    (s.setMe w o).me v = if v = w ∧ s.readyState w ≠ none then o else s.me v := by
  unfold me setMe readyState
  rw [sockets_update]
  by_cases h : v = w
  · subst h
    cases s.sockets[v]? <;> simp
  · simp [h]

@[simp] theorem rooms_send : (s.send w m).rooms = s.rooms := rfl

@[simp] theorem readyState_send : (s.send w m).readyState v = s.readyState v :=
  readyState_update fun _ => by split <;> rfl

@[simp] theorem me_send : (s.send w m).me v = s.me v :=
  me_update fun _ => by split <;> rfl

theorem inbox_send : (s.send w m).inbox v =
    if v = w ∧ s.readyState w = some .opened then s.inbox v ++ [m] else s.inbox v := by
  unfold inbox send readyState
  rw [sockets_update]
  by_cases h : v = w
  · subst h
    cases s.sockets[v]? with
    | none => simp
    | some k => by_cases ho : k.readyState = .opened <;> simp [ho]
  · simp [h]

@[simp] theorem me_close : (s.close w).me v = s.me v :=
  me_update fun _ => by split <;> rfl

@[simp] theorem inbox_close : (s.close w).inbox v = s.inbox v :=
  inbox_update fun _ => by split <;> rfl

theorem readyState_close : (s.close w).readyState v =
    if v = w ∧ s.readyState w = some .opened then some .closing else s.readyState v := by
  unfold readyState close
  rw [sockets_update]
  by_cases h : v = w
  · subst h
    cases s.sockets[v]? with
    | none => simp
    | some k => by_cases ho : k.readyState = .opened <;> simp [ho]
  · simp [h]

theorem sockets_uncaught : s.uncaught.sockets[v]? =
    s.sockets[v]?.map fun k => { k with readyState := .closed, me := none } := List.getElem?_map

@[simp] theorem me_uncaught : s.uncaught.me v = none := by
  unfold me
  rw [sockets_uncaught]
  cases s.sockets[v]? <;> rfl

@[simp] theorem inbox_uncaught : s.uncaught.inbox v = s.inbox v := by
  unfold inbox
  rw [sockets_uncaught]
  cases s.sockets[v]? <;> rfl

theorem not_live_uncaught : ¬ s.uncaught.Live v := by
  unfold Live readyState
  rw [sockets_uncaught]
  cases s.sockets[v]? <;> simp

@[simp] theorem rooms_sendAll : (s.sendAll cs m).rooms = s.rooms := by
  unfold sendAll
  induction cs generalizing s with
  | nil => rfl
  | cons c cs ih => rw [List.foldl_cons, ih, rooms_send]

@[simp] theorem readyState_sendAll : (s.sendAll cs m).readyState v = s.readyState v := by
  unfold sendAll
  induction cs generalizing s with
  | nil => rfl
  | cons c cs ih => rw [List.foldl_cons, ih, readyState_send]

@[simp] theorem me_sendAll : (s.sendAll cs m).me v = s.me v := by
  unfold sendAll
  induction cs generalizing s with
  | nil => rfl
  | cons c cs ih => rw [List.foldl_cons, ih, me_send]

end Server

end TangentFeed.Signaling
