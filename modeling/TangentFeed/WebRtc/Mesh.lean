import TangentFeed.Signaling.Relay
import TangentFeed.WebRtc.Offers

/-!
# Transports at one signaling server

Any number of transports, each with any number of sockets to the server one after
the other, and what is under way between them. On each connection messages arrive
in the order in which they were sent; when they arrive, and what else happens, is
open. Every client of the server is a transport.
-/

namespace TangentFeed.Signaling.Server

variable {s : Server} {w : Nat} {c : Client} {m : Reply} {ev : Event}

/-! ## The sockets of the server -/

theorem length_update {f : Socket → Socket} :
    (s.update w f).sockets.length = s.sockets.length := List.length_modify _ _ _

theorem length_sendAll (cs : List Client) :
    (s.sendAll cs m).sockets.length = s.sockets.length := by
  unfold sendAll
  induction cs generalizing s with
  | nil => rfl
  | cons c cs ih => rw [List.foldl_cons, ih]; exact length_update

theorem length_leaveMine : (s.leaveMine w).sockets.length = s.sockets.length := by
  unfold leaveMine leave
  split
  · split
    · rfl
    · split
      · rfl
      · exact length_sendAll _
  · rfl

theorem length_enter : (s.enter c).sockets.length = s.sockets.length := by
  have hevict (e : Option Client) : (s.evict e).sockets.length = s.sockets.length := by
    cases e
    · rfl
    · exact length_update
  unfold enter admitted
  exact (length_sendAll _).trans (length_update.trans (hevict _))

theorem length_onMessage (raw : Option Json) :
    (s.onMessage w raw).sockets.length = s.sockets.length := by
  unfold onMessage
  split
  · exact length_update
  · exact List.length_map _
  · split
    · unfold join
      dsimp only
      split
      · exact length_update
      · exact length_enter.trans (length_update.trans length_leaveMine)
    · split
      · unfold signal
        split
        · exact length_update
        · split
          · rfl
          · exact length_update
      · exact length_update

/-- Only a connection brings a socket. -/
theorem length_step (h : ev ≠ .connection) : (s.step ev).sockets.length = s.sockets.length := by
  cases ev with
  | connection => exact absurd rfl h
  | message w raw =>
    unfold step
    dsimp only
    split
    · exact length_onMessage raw
    · rfl
  | closing w => exact length_update
  | close w =>
    unfold step
    dsimp only
    split
    · exact length_update.trans length_leaveMine
    · rfl

end TangentFeed.Signaling.Server

namespace TangentFeed.WebRtc

open TangentFeed.Signaling (Server)

/-- A connection: the socket of a device, and how many messages have arrived each way. -/
structure Link where
  device : Nat
  socket : Nat
  uploaded : Nat
  downloaded : Nat

/-- The links are numbered as the sockets of the server. -/
structure Mesh where
  server : Server
  devices : List WebRTCTransport
  links : List Link

namespace Mesh

/-- The transports of these spaces and device ids, before anything has happened. -/
def start (devices : List (JsString × JsString)) : Mesh where
  server := .initial
  devices := devices.map fun d => .new d.1 d.2
  links := []

inductive Action where
  /-- Something at a device that does not come from the server. -/
  | act (device : Nat) (a : WebRTCTransport.Action)
  /-- A socket of a device is connected to the server, which runs; `closes` as in `opened`. -/
  | connect (device socket : Nat) (closes : Bool)
  /-- The next message arrives at the server. -/
  | upload (link : Nat)
  /-- The next message arrives at the device. -/
  | download (link : Nat)
  | closing (link : Nat)
  | close (link : Nat)

/-- The action comes from the server. -/
def FromServer : WebRTCTransport.Action → Prop
  | .opened _ _ | .message _ _ => True
  | _ => False

instance (a : WebRTCTransport.Action) : Decidable (FromServer a) := by
  cases a <;> unfold FromServer <;> infer_instance

variable (m : Mesh)

def onDevice (d : Nat) (a : WebRTCTransport.Action) : Mesh :=
  { m with devices := m.devices.modify d fun t => t.step a }

def onServer (ev : Signaling.Event) : Mesh := { m with server := m.server.step ev }

/-- What the device has sent on a link and the server has not had. -/
def nextUp (l : Link) : Option Json :=
  (m.devices[l.device]?.bind fun t => t.sockets[l.socket]?).bind fun ws => ws.sent[l.uploaded]?

def nextDown (w : Nat) (l : Link) : Option Signaling.Reply := (m.server.inbox w)[l.downloaded]?

def step : Action → Mesh
  | .act d a => if FromServer a then m else m.onDevice d a
  | .connect d i closes =>
    if (m.devices[d]?.bind fun t => t.readyState i) = some .connecting ∧ m.server.ended = false then
      { (m.onDevice d (.opened i closes)).onServer .connection with links := m.links ++ [⟨d, i, 0, 0⟩] }
    else m
  | .upload w =>
    match m.links[w]? with
    | none => m
    | some l =>
      match m.nextUp l with
      | none => m
      | some msg =>
        { m.onServer (.message w (some msg)) with
          links := m.links.modify w fun l => { l with uploaded := l.uploaded + 1 } }
  | .download w =>
    match m.links[w]? with
    | none => m
    | some l =>
      match m.nextDown w l with
      | none => m
      | some msg =>
        { m.onDevice l.device (.message l.socket (some msg)) with
          links := m.links.modify w fun l => { l with downloaded := l.downloaded + 1 } }
  | .closing w => m.onServer (.closing w)
  | .close w => m.onServer (.close w)

def after (devices : List (JsString × JsString)) (acts : List Action) : Mesh :=
  Runs.run step (start devices) acts

/-- The id of a device. -/
def name (d : Nat) : Option JsString := m.devices[d]?.map WebRTCTransport.deviceId

/-- The id of the device at the other end of a link. -/
def client (w : Nat) : Option JsString := m.links[w]?.bind fun l => m.name l.device

/-- **Every offer goes up and every answer down**, at the devices and on the way: the server
relays in the name of the device that sent. -/
structure Fairly (m : Mesh) : Prop where
  exact : m.server.Exact
  linked : m.server.sockets.length = m.links.length
  devices : ∀ t ∈ m.devices, t.Polite ∧ t.Kept
  names : ∀ {w : Nat} {c : Signaling.Client}, m.server.me w = some c →
    m.client w = some c.device
  inbox : ∀ {w : Nat} {id : JsString}, m.client w = some id → ∀ sender data,
    .signal sender data ∈ m.server.inbox w → Fair sender id data

variable {m} {d w : Nat} {a : WebRTCTransport.Action} {ev : Signaling.Event}

/-! ## A device moves -/

theorem name_onDevice (h : m.Fairly) (ha : ∀ id, m.name d = some id → WebRTCTransport.Brings id a)
    (e : Nat) : (m.onDevice d a).name e = m.name e := by
  refine map_getElem?_modify (fun t ht => ?_) e
  obtain ⟨hp, hw⟩ := h.devices t (List.mem_of_getElem? ht)
  exact (hp.step hw (ha _ (by unfold name; rw [ht]; rfl))).2.2

theorem Fairly.onDevice (h : m.Fairly)
    (ha : ∀ id, m.name d = some id → WebRTCTransport.Brings id a) : (m.onDevice d a).Fairly := by
  have hname := name_onDevice h ha
  have hclient : ∀ w, (m.onDevice d a).client w = m.client w := fun w => by
    unfold client
    change (m.links[w]?.bind fun l => (m.onDevice d a).name l.device) = _
    simp only [hname]
  refine ⟨h.exact, h.linked, fun t' ht' => ?_, fun {w c} hc => ?_, fun {w id} hid => ?_⟩
  · obtain ⟨t, ht, rfl | ⟨hd, rfl⟩⟩ := mem_modify ht'
    · exact h.devices _ ht
    · obtain ⟨hp, hw⟩ := h.devices t ht
      have hstep := hp.step hw (ha t.deviceId (by unfold name; rw [hd]; rfl))
      exact ⟨hstep.1, hstep.2.1⟩
  · rw [hclient]
    exact h.names hc
  · rw [hclient] at hid
    exact h.inbox hid

/-! ## The server moves -/

/-- Who a socket of the server is for stays, or is what a link's device says. -/
theorem Fairly.names_step (h : m.Fairly)
    (hev : ∀ w msg, ev = .message w (some msg) → ∃ id, m.client w = some id ∧ MaySay id msg)
    {c : Signaling.Client} (hc : (m.server.step ev).me w = some c) : m.client w = some c.device := by
  rcases h.exact.step_cases ev with
    ⟨c', hj, -, hme⟩ | ⟨-, ⟨-, hme⟩ | ⟨v, -, hme⟩ | ⟨-, hme⟩⟩
  · rw [hme] at hc
    split at hc
    · rename_i hw
      obtain rfl := Option.some.inj hc
      cases ev with
      | connection | closing | close => cases hj
      | message v raw =>
        cases raw with
        | none => cases hj
        | some msg =>
          rw [Server.joining_message] at hj
          split at hj
          · rename_i hjoin
            obtain rfl := Option.some.inj hj
            obtain ⟨id, hid, hsay, -⟩ := hev v msg rfl
            rw [show w = v from hw, hid]
            exact congrArg some (hsay hjoin.2.1).symm
          · cases hj
    · exact h.names hc
  · exact h.names ((hme w).symm.trans hc)
  · rw [hme] at hc
    split at hc
    · cases hc
    · exact h.names hc
  · rw [hme] at hc
    cases hc

/-- A signal that the server sends is fair to the device that it is for. -/
theorem Fairly.inbox_step (h : m.Fairly)
    (hev : ∀ w msg, ev = .message w (some msg) → ∃ id, m.client w = some id ∧ MaySay id msg)
    {id : JsString} (hid : m.client w = some id) {sender : JsString} {data : Option Json}
    (hs : .signal sender data ∈ (m.server.step ev).inbox w) : Fair sender id data := by
  rcases m.server.step_signal ev with ⟨hquiet, -⟩ | ⟨v, msg, c, target, rfl, hme, hlook, hsig, hstep⟩
  · obtain ⟨l, hl, hnot⟩ := hquiet w
    rw [hl] at hs
    rcases List.mem_append.1 hs with hs | hs
    · exact h.inbox hid _ _ hs
    · exact absurd hs (hnot _ _)
  · rw [hstep, Server.inbox_send] at hs
    split at hs
    · rename_i hw
      rcases List.mem_append.1 hs with hs | hs
      · exact h.inbox hid _ _ hs
      · obtain ⟨rfl, rfl⟩ := Signaling.Reply.signal.inj (List.mem_singleton.1 hs)
        -- the sender is the device of the link, and the target the device that it named
        obtain ⟨me, hv, -, hsay⟩ := hev v msg rfl
        have hsender := h.names hme
        obtain rfl : me = c.device := Option.some.inj (hv.symm.trans hsender)
        obtain ⟨-, hto, htarget, -⟩ := h.exact.entry hlook
        have hname := h.names htarget
        rw [← hw.1, hid] at hname
        rw [Option.some.inj hname, hto]
        refine hsay ?_
        rw [Server.signalling_message] at hsig
        split at hsig
        · rename_i hsignal
          exact hsignal.2
        · cases hsig
    · exact h.inbox hid _ _ hs

/-- What the server relays is fair, and it knows the devices by their names. -/
theorem Fairly.onServer (h : m.Fairly) (hlink : ev ≠ .connection)
    (hev : ∀ w msg, ev = .message w (some msg) → ∃ id, m.client w = some id ∧ MaySay id msg) :
    (m.onServer ev).Fairly where
  exact := h.exact.step ev
  linked := (Server.length_step hlink).trans h.linked
  devices := h.devices
  names hc := h.names_step hev hc
  inbox hid _ _ hs := h.inbox_step hev hid hs

/-- Messages that have arrived. -/
theorem Fairly.arrived (h : m.Fairly) {f : Link → Link} (hf : ∀ l, (f l).device = l.device) :
    ({ m with links := m.links.modify w f } : Mesh).Fairly := by
  have hclient : ∀ v, ({ m with links := m.links.modify w f } : Mesh).client v = m.client v :=
    fun v => by
      unfold client
      dsimp only
      rw [List.getElem?_modify]
      cases m.links[v]? with
      | none => rfl
      | some l =>
        simp only [Option.map_eq_map, Option.map_some, Option.bind_some]
        split
        · rw [hf]; rfl
        · rfl
  refine ⟨h.exact, ?_, h.devices, fun hc => ?_, fun hid => ?_⟩
  · rw [List.length_modify]
    exact h.linked
  · rw [hclient]
    exact h.names hc
  · rw [hclient] at hid
    exact h.inbox hid

/-- A new link, to the socket that the server has just been given. -/
theorem Fairly.connect (h : m.Fairly) (hs : m.server.ended = false) (l : Link) :
    ({ m.onServer .connection with links := m.links ++ [l] } : Mesh).Fairly := by
  have hclient : ∀ {v : Nat}, v < m.links.length →
      ({ m.onServer .connection with links := m.links ++ [l] } : Mesh).client v = m.client v :=
    fun {v} hv => by
      unfold client
      dsimp only
      rw [List.getElem?_append_left hv]
      rfl
  have hthere : ∀ {v : Nat}, m.server.sockets[v]? ≠ none → v < m.links.length := fun {v} hv => by
    rw [← h.linked]
    exact Nat.lt_of_not_le fun hle => hv (List.getElem?_eq_none hle)
  refine ⟨h.exact.connection, ?_, h.devices, fun {v c} hc => ?_, fun {v id} hid sender data hs => ?_⟩
  · change (m.server.step .connection).sockets.length = (m.links ++ [l]).length
    rw [Server.step_connection hs, List.length_append, List.length_append, h.linked]
    rfl
  · have hme : m.server.me v = some c := Server.me_connection.symm.trans hc
    rw [hclient (hthere fun hnone => by unfold Server.me at hme; rw [hnone] at hme; cases hme)]
    exact h.names hme
  · obtain ⟨new, hnew, hnot⟩ := Server.Quiet.connection (s := m.server) v
    have hold : .signal sender data ∈ m.server.inbox v := by
      have hs : .signal sender data ∈ (m.server.step .connection).inbox v := hs
      rw [hnew] at hs
      exact (List.mem_append.1 hs).resolve_right (hnot _ _)
    rw [hclient (hthere fun hnone => by unfold Server.inbox at hold; rw [hnone] at hold; cases hold)] at hid
    exact h.inbox hid _ _ hold

/-! ## Every step -/

theorem brings_of_not_message {id : JsString}
    (h : ∀ i sender data, a ≠ .message i (some (.signal sender data))) :
    WebRTCTransport.Brings id a := fun i sender data ha => absurd ha (h i sender data)

theorem Fairly.step (h : m.Fairly) (a : Action) : (m.step a).Fairly := by
  cases a with
  | act d a =>
    unfold Mesh.step
    dsimp only
    split
    · exact h
    · rename_i hlocal
      refine h.onDevice fun _ _ => brings_of_not_message fun i sender data ha => hlocal ?_
      rw [ha]
      trivial
  | connect d i closes =>
    unfold Mesh.step
    dsimp only
    split
    · rename_i hconnect
      exact (h.onDevice fun _ _ => brings_of_not_message fun _ _ _ ha => by cases ha).connect
        hconnect.2 _
    · exact h
  | upload w =>
    unfold Mesh.step
    dsimp only
    split
    · exact h
    · rename_i l hl
      split
      · exact h
      · rename_i msg hmsg
        refine Fairly.arrived (m := m.onServer (.message w (some msg))) ?_ fun _ => rfl
        refine h.onServer Signaling.Event.noConfusion fun v msg' he => ?_
        obtain ⟨rfl, hm⟩ := Signaling.Event.message.inj he
        obtain rfl := Option.some.inj hm
        obtain ⟨ws, hws, hsent⟩ := Option.bind_eq_some_iff.1 hmsg
        obtain ⟨t, ht, hsocket⟩ := Option.bind_eq_some_iff.1 hws
        refine ⟨t.deviceId, ?_, ?_⟩
        · unfold client name
          rw [hl, Option.bind_some, ht]
          rfl
        · exact (h.devices t (List.mem_of_getElem? ht)).1.said ws (List.mem_of_getElem? hsocket) msg
            (List.mem_of_getElem? hsent)
  | download w =>
    unfold Mesh.step
    dsimp only
    split
    · exact h
    · rename_i l hl
      split
      · exact h
      · rename_i msg hmsg
        refine Fairly.arrived (m := m.onDevice l.device (.message l.socket (some msg))) ?_
          fun _ => rfl
        refine h.onDevice fun id hid i sender data ha => ?_
        obtain ⟨-, hm⟩ := WebRTCTransport.Action.message.inj ha
        obtain rfl := Option.some.inj hm
        refine h.inbox (w := w) ?_ sender data (List.mem_of_getElem? hmsg)
        unfold client
        rw [hl]
        exact hid
  | closing w => exact h.onServer Signaling.Event.noConfusion fun _ _ he => by cases he
  | close w => exact h.onServer Signaling.Event.noConfusion fun _ _ he => by cases he

theorem fairly_start (devices : List (JsString × JsString)) : (start devices).Fairly where
  exact := .initial
  linked := rfl
  devices t ht := by
    obtain ⟨d, -, rfl⟩ := List.mem_map.1 ht
    exact ⟨WebRTCTransport.polite_new _ _, WebRTCTransport.kept_new _ _⟩
  names hc := by cases hc
  inbox _ _ _ hs := by cases hs

/-- **No glare.** Whatever transports share a signaling server, under whatever ids, and in every
order of what they, the server and the network do: a connection that makes an offer is one to a
higher id and is never handed an offer; an offer is handed only to a connection to a lower id, and
an answer only to one to a higher. -/
theorem no_glare (devices : List (JsString × JsString)) (acts : List Action) :
    ∀ t ∈ (after devices acts).devices, ∀ p ∈ t.made,
      (.createOffer ∈ p.log → t.deviceId < p.peerId) ∧
      ∀ data, .setRemoteDescription data ∈ p.log →
        (isOffer data = true → p.peerId < t.deviceId ∧ .createOffer ∉ p.log) ∧
        (isAnswer data = true → t.deviceId < p.peerId) := by
  intro t ht p hp
  have hfairly : (after devices acts).Fairly := by
    unfold after
    exact Runs.run_invariant (fun _ a h => h.step a) (fairly_start devices) acts
  obtain ⟨hpolite, -⟩ := hfairly.devices t ht
  refine ⟨hpolite.offered p hp, fun data hdata => ?_⟩
  obtain ⟨hoffer, hanswer⟩ := hpolite.described p hp data hdata
  refine ⟨fun ho => ?_, hanswer⟩
  have hlt := hoffer ho
  exact ⟨hlt, fun hc => lt_irrefl _ (lt_trans hlt (hpolite.offered p hp hc))⟩

/-- Devices `a` and `b` join one space; `a` offers and `b` answers. -/
def exchange : List Action :=
  [.connect 0 0 false, .connect 1 0 false, .upload 0, .upload 1, .download 0, .download 1, .download 0,
    .act 0 (.offer 0 (.resolved [])), .act 0 (.offer 0 (.resolved [])), .upload 0, .download 1,
    .act 1 (.settle 0 (.resolved [])), .act 1 (.settle 0 (.resolved [])),
    .act 1 (.settle 0 (.resolved [])), .act 1 (.settle 0 (.resolved [])), .upload 1, .download 0,
    .act 0 (.settle 0 (.resolved [])), .act 0 (.settle 0 (.resolved []))]

def exchanged : Mesh := after [(js "s", js "a"), (js "s", js "b")] exchange

/-- What a connection is handed by the call. -/
def described : RtcCall → Option Json
  | .setRemoteDescription data => some data
  | _ => none

/-- A connection was handed the offer of the other. -/
theorem no_glare_exchange : ∃ t ∈ exchanged.devices, ∃ p ∈ t.made, p.peerId < t.deviceId ∧
    .createOffer ∉ p.log := by
  have hhanded : (exchanged.devices.any fun t => t.made.any fun p => p.log.any fun call =>
      (described call).any isOffer) = true := by decide +kernel
  simp only [List.any_eq_true] at hhanded
  obtain ⟨t, ht, p, hp, call, hcall, hoffer⟩ := hhanded
  cases call with
  | setRemoteDescription data =>
    obtain ⟨-, hfair⟩ := no_glare [(js "s", js "a"), (js "s", js "b")] exchange t ht p hp
    exact ⟨t, ht, p, hp, (hfair data hcall).1 hoffer⟩
  | createOffer | setLocalDescription | createAnswer | addIceCandidate => cases hoffer

example : (exchanged.devices.map fun t => t.made.map fun p => (p.log.length, p.remoteDescSet)) =
    [[(3, true)], [(3, true)]] := by decide +kernel

end Mesh

end TangentFeed.WebRtc
