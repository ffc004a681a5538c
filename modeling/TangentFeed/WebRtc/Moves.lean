import Mathlib.Logic.Relation
import TangentFeed.WebRtc.Transport

/-!
# What a step of the transport does

Every action is a sequence of moves: a message is sent, a connection is called, a
`handleSignal` goes on, a peer is added or dropped, or the signaling side moves.
Each invariant is proved of the moves.
-/

namespace TangentFeed.WebRtc

/-- The call is to answer an offer. -/
def HandleStage.answers : HandleStage → Bool
  | .answering _ | .localising _ => true
  | _ => false

def HandleSignal.Answers (call : HandleSignal) : Prop :=
  call.stage.answers = true ∨ call.data.any isOffer = true

/-- A channel is used, or nearer its end. -/
structure DataChannel.Uses (ch ch' : DataChannel) : Prop where
  pc : ch'.pc = ch.pc
  peerId : ch'.peerId = ch.peerId
  readyState : ch'.readyState ≠ .closed → ch.readyState ≠ .closed

/-! ## Lists with one entry changed -/

section Modify

variable {α : Type} {l : List α} {f : α → α} {k n : Nat} {y : α}

theorem getElem?_modify_eq_some (h : (l.modify k f)[n]? = some y) :
    ∃ x, l[n]? = some x ∧ y = if k = n then f x else x := by
  rw [List.getElem?_modify, Option.map_eq_map, Option.map_eq_some_iff] at h
  obtain ⟨x, hx, rfl⟩ := h
  exact ⟨x, hx, rfl⟩

/-- An entry is an old one, or the one that was changed. -/
theorem mem_modify (h : y ∈ l.modify k f) : ∃ x ∈ l, y = x ∨ l[k]? = some x ∧ y = f x := by
  obtain ⟨n, hn⟩ := List.mem_iff_getElem?.1 h
  obtain ⟨x, hx, hy⟩ := getElem?_modify_eq_some hn
  refine ⟨x, List.mem_of_getElem? hx, ?_⟩
  split at hy
  · rename_i hkn
    exact .inr ⟨hkn ▸ hx, hy⟩
  · exact .inl hy

/-- What the change does not touch is the same in every entry. -/
theorem map_getElem?_modify {β : Type} {g : α → β} (h : ∀ x, l[k]? = some x → g (f x) = g x)
    (n : Nat) : ((l.modify k f)[n]?).map g = (l[n]?).map g := by
  rw [List.getElem?_modify]
  cases hn : l[n]? with
  | none => rfl
  | some x =>
    simp only [Option.map_eq_map, Option.map_some, Option.some.injEq]
    split
    · rename_i hkn
      exact h x (hkn ▸ hn)
    · rfl

end Modify

namespace WebRTCTransport

variable {s s' s'' : WebRTCTransport} {a : Action} {i k n c : Nat} {id : JsString}

/-- What the transport sends. -/
inductive Says (s : WebRTCTransport) : Json → Prop where
  | join : Says s (joinMessage s.space s.deviceId)
  | offer {k : Nat} {p : Peer} (sdp : JsString) (hk : s.made[k]? = some p)
      (ho : p.offering.isSome = true) : Says s (signalMessage p.peerId (sdpData .offer sdp))
  | answer {n k : Nat} {call : HandleSignal} (sdp : JsString) (hn : s.calls[n]? = some call)
      (hc : call.stage = .localising k) : Says s (signalMessage call.sender (sdpData .answer sdp))
  | ice (target : JsString) (candidate : Json) : Says s (signalMessage target (iceData candidate))

/-- What the connection of peer `k` is called with. -/
def Calls (s : WebRTCTransport) (k : Nat) : RtcCall → Prop
  | .createOffer => ∃ p, s.made[k]? = some p ∧ s.deviceId < p.peerId
  | .setRemoteDescription data => ∃ (n : Nat) (call : HandleSignal), s.calls[n]? = some call ∧ call.data = some data ∧
      s.peers.get call.sender = some k
  | .setLocalDescription _ | .createAnswer | .addIceCandidate _ => True

/-- Peer `p` becomes `p'` as its connection is called. -/
structure Touches (s : WebRTCTransport) (k : Nat) (p p' : Peer) : Prop where
  peerId : p'.peerId = p.peerId
  closed : p'.closed = p.closed
  channel : p'.channel = p.channel
  offering : p'.offering.isSome = true → p.offering.isSome = true ∨ .createOffer ∈ p'.log
  log : ∀ call ∈ p'.log, call ∈ p.log ∨ s.Calls k call

/-- One move of an action. -/
inductive Move (a : Action) (s : WebRTCTransport) : WebRTCTransport → Prop where
  /-- Reports and listeners. -/
  | aside (msgListeners peerConnectListeners : List Nat) (errors : List (Option JsString))
      (delivered : List Delivery) :
      Move a s { s with msgListeners, peerConnectListeners, errors, delivered }
  | say {msg : Json} (h : s.Says msg) : Move a s (s.sigSend msg)
  | touch {k : Nat} {f : Peer → Peer} (h : ∀ p, s.made[k]? = some p → s.Touches k p (f p)) :
      Move a s (s.onPeer k f)
  | use {c : Nat} {f : DataChannel → DataChannel} (h : ∀ ch, s.channels[c]? = some ch → ch.Uses (f ch)) :
      Move a s (s.onChannel c f)
  | goOn {n : Nat} {stage : HandleStage} (h : stage.answers = true →
      ∀ call, s.calls[n]? = some call → call.Answers) : Move a s (s.goOn n stage)
  | begin {i : Nat} {sender : JsString} {data : Option Json} (made : Option Nat)
      (ha : a = .message i (some (.signal sender data))) :
      Move a s { s with calls := s.calls ++ [⟨sender, data, .ensuring made⟩] }
  | addPeer {i : Nat} {msg : Option Signaling.Reply} {id : JsString} (ha : a = .message i msg)
      (h : s.Lacks id) : Move a s (s.addPeer id)
  | newChannel {k : Nat} {p : Peer} (hk : s.made[k]? = some p) (hp : p.closed = false) :
      Move a s (s.newChannel k p.peerId)
  | dropPeer (id : JsString) : Move a s (s.dropPeer id)
  | opened {i : Nat} (hi : s.readyState i = some .connecting) :
      Move a s (({ s.onSocket i fun ws => { ws with readyState := .opened } with
        backoff := firstBackoffMs }).report .connected)
  | closing (i : Nat) :
      Move a s (s.onSocket i fun ws => { ws with readyState := ws.readyState.ending })
  | closed {i : Nat} {r : ReadyState} (code : Nat) (hi : s.readyState i = some r)
      (hr : r ≠ .closed) :
      Move a s ((s.onSocket i fun ws => { ws with readyState := .closed }).onClose code)
  | timer {n : Nat} {closes : Bool} (ha : a = .timer n closes) (hn : n < s.timers.length) :
      Move a s ({ s with timers := s.timers.eraseIdx n }.connectSignaling closes)
  | close (ha : ∀ i msg, a ≠ .message i msg) : Move a s s.close

def Moves (a : Action) : WebRTCTransport → WebRTCTransport → Prop := Relation.ReflTransGen (Move a)

theorem Move.moves (h : Move a s s') : Moves a s s' := .single h

/-! ## Frames -/

theorem connectSignaling_of_closed {closes : Bool} (h : s.closed = true) :
    s.connectSignaling closes = s := if_pos h

theorem connectSignaling_false (h : s.closed = false) :
    s.connectSignaling false = (s.report .connecting).newSocket := by
  unfold connectSignaling
  rw [h]
  rfl

theorem connectSignaling_true (h : s.closed = false) :
    s.connectSignaling true = (s.report .connecting).close.newSocket := by
  unfold connectSignaling
  rw [h]
  rfl

@[simp] theorem deviceId_attachChannel : (s.attachChannel id c).deviceId = s.deviceId := by
  unfold attachChannel
  split <;> rfl

/-- The new peer, with its channel. -/
theorem getElem?_addPeer : (s.addPeer id).made[s.made.length]? =
    some ⟨id, false, none, [], false, none, []⟩ := List.getElem?_concat_length

theorem made_newChannel_peerId {p : Peer} (h : (s.newChannel k id).made[n]? = some p) :
    ∃ q, s.made[n]? = some q ∧ p.peerId = q.peerId := by
  unfold newChannel attachChannel at h
  split at h
  · exact ⟨p, h, rfl⟩
  · obtain ⟨q, hq, rfl⟩ := getElem?_modify_eq_some h
    refine ⟨q, hq, ?_⟩
    split <;> rfl

/-! ## Peers -/

theorem moves_touch {f : Peer → Peer} (h : ∀ p, s.made[k]? = some p → s.Touches k p (f p)) :
    Moves a s (s.onPeer k f) := (Move.touch h).moves

/-- A touch that calls nothing. -/
theorem Touches.flags {p p' : Peer} (h1 : p'.peerId = p.peerId) (h2 : p'.closed = p.closed)
    (h3 : p'.channel = p.channel) (h4 : p'.offering.isSome = true → p.offering.isSome = true)
    (h5 : p'.log = p.log) : s.Touches k p p' :=
  ⟨h1, h2, h3, fun h => .inl (h4 h), fun _ hcall => .inl (h5 ▸ hcall)⟩

/-- One call of the connection. -/
theorem Touches.calling {p : Peer} {call : RtcCall} (h : s.Calls k call) :
    s.Touches k p (p.calling call) where
  peerId := rfl
  closed := rfl
  channel := rfl
  offering h := .inl h
  log call' hcall := by
    rcases List.mem_append.1 hcall with hcall | hcall
    · exact .inl hcall
    · exact .inr (List.mem_singleton.1 hcall ▸ h)

theorem moves_ensurePeer {msg : Option Signaling.Reply} (ha : a = .message i msg) :
    Moves a s (s.ensurePeer id) := by
  unfold ensurePeer
  split
  · rename_i hlacks
    have hadd : Moves a s (s.addPeer id) := (Move.addPeer ha hlacks).moves
    split
    · rename_i hinit
      refine (hadd.tail (.newChannel getElem?_addPeer rfl)).tail (.touch fun p hp => ?_)
      obtain ⟨q, hq, hpq⟩ := made_newChannel_peerId hp
      rw [getElem?_addPeer] at hq
      obtain rfl := Option.some.inj hq
      have hcalls : ((s.addPeer id).newChannel s.made.length id).Calls s.made.length .createOffer := by
        refine ⟨p, hp, ?_⟩
        rw [hpq]
        unfold newChannel
        rw [deviceId_attachChannel]
        exact of_decide_eq_true hinit
      have htouch := Touches.calling (p := p) hcalls
      exact ⟨rfl, rfl, rfl, fun _ => .inr (List.mem_append_right _ (List.mem_singleton.2 rfl)),
        htouch.log⟩
    · exact hadd
  · exact .refl

theorem moves_foldl_ensurePeer {msg : Option Signaling.Reply} (ids : List JsString)
    (ha : a = .message i msg) : Moves a s (ids.foldl ensurePeer s) := by
  induction ids generalizing s with
  | nil => exact .refl
  | cons id ids ih => exact (moves_ensurePeer ha).trans ih

theorem moves_offer (r : Settlement) : Moves a s (s.offer k r) := by
  unfold offer
  split
  · exact .refl
  · rename_i p hp
    have hend (q : Peer) (hq : s.made[k]? = some q) (ho : p.offering.isSome = true) :
        s.Touches k q { q with offering := some .ended } := by
      obtain rfl := Option.some.inj (hp.symm.trans hq)
      exact .flags rfl rfl rfl (fun _ => ho) rfl
    split
    · rename_i ho
      refine moves_touch fun q hq => ?_
      obtain rfl := Option.some.inj (hp.symm.trans hq)
      have htouch : s.Touches k p (p.calling (.setLocalDescription .offer)) := .calling trivial
      exact ⟨rfl, rfl, rfl, fun _ => .inl (by rw [ho]; rfl), htouch.log⟩
    · rename_i sdp ho
      have ho : p.offering.isSome = true := by rw [ho]; rfl
      refine (moves_touch fun q hq => hend q hq ho).tail (.say ?_)
      refine Says.offer (k := k) (p := { p with offering := some .ended }) sdp ?_ rfl
      simp [onPeer, hp]
    · rename_i ho
      have ho : p.offering.isSome = true := by rw [ho]; rfl
      exact ((moves_touch fun q hq => hend q hq ho).tail (.aside _ _ _ _)).tail (.dropPeer _)
    · rename_i ho
      have ho : p.offering.isSome = true := by rw [ho]; rfl
      exact ((moves_touch fun q hq => hend q hq ho).tail (.aside _ _ _ _)).tail (.dropPeer _)
    · exact .refl
    · exact .refl

/-! ## `handleSignal` -/

theorem moves_await {call : RtcCall} {stage : HandleStage} (hcall : s.Calls k call)
    (hstage : stage.answers = true → ∀ call, s.calls[n]? = some call → call.Answers) :
    Moves a s (s.await n k call stage) :=
  (moves_touch fun _ _ => .calling hcall).tail (.goOn hstage)

theorem moves_done : Moves a s (s.goOn n .done) := (Move.goOn Bool.noConfusion).moves

theorem moves_fail {call : HandleSignal} : Moves a s (s.fail n call) :=
  (Move.moves (.aside _ _ _ _)).trans moves_done

theorem moves_drain {call : HandleSignal} (hn : s.calls[n]? = some call) (queue : List Json) :
    Moves a s (s.drain n call k queue) := by
  cases queue with
  | cons c rest => exact moves_await trivial Bool.noConfusion
  | nil =>
    rw [drain]
    split
    · rename_i hoffer
      refine moves_await trivial fun _ call' hn' => ?_
      obtain rfl := Option.some.inj (hn.symm.trans hn')
      exact .inr hoffer
    · exact moves_done

theorem moves_enter {call : HandleSignal} (hn : s.calls[n]? = some call) :
    Moves a s (s.enter n call) := by
  unfold enter
  split
  · exact moves_done
  · rename_i k hk
    split
    · exact moves_fail
    · exact moves_fail
    · rename_i data _ hdata
      split
      · exact moves_await ⟨n, call, hn, hdata, hk⟩ Bool.noConfusion
      · split
        · exact moves_await trivial Bool.noConfusion
        · refine Relation.ReflTransGen.trans ?_ moves_done
          exact moves_touch fun p _ => .flags rfl rfl rfl id rfl
      · exact moves_done

theorem moves_settle {call : HandleSignal} (hn : s.calls[n]? = some call) (r : Settlement) :
    Moves a s (s.settle n call r) := by
  unfold settle
  split
  · split
    · exact moves_enter hn
    · exact .refl
  · unfold describe
    refine Relation.ReflTransGen.trans ?_ (moves_drain (by exact hn) _)
    exact moves_touch fun p _ => .flags rfl rfl rfl id rfl
  · exact moves_drain hn _
  · rename_i hstage
    refine moves_await trivial fun _ call' hn' => ?_
    obtain rfl := Option.some.inj (hn.symm.trans hn')
    exact .inl (by rw [hstage]; rfl)
  · rename_i hstage
    exact (Move.moves (.say (.answer _ hn hstage))).trans moves_done
  · exact moves_done
  · exact .refl
  · exact moves_fail

/-! ## Every step -/

theorem moves_handleSignaling {msg : Signaling.Reply} (ha : a = .message i (some msg)) :
    Moves a s (s.handleSignaling msg) := by
  cases msg with
  | peers devices => exact moves_foldl_ensurePeer devices ha
  | peerJoined device => exact moves_ensurePeer ha
  | peerLeft device => exact (Move.dropPeer device).moves
  | signal sender data => exact (moves_ensurePeer ha).tail (.begin _ ha)
  | error message => exact .refl

theorem moves_send (msg : Json) (throws : List Nat) : Moves a s (s.send msg throws) := by
  unfold send
  generalize s.openChannels = cs
  induction cs generalizing s with
  | nil => exact .refl
  | cons c cs ih =>
    refine Relation.ReflTransGen.trans ?_ ih
    unfold sendOn
    split
    · exact (Move.aside _ _ _ _).moves
    · exact Move.moves (.use fun _ _ => ⟨rfl, rfl, id⟩)

theorem moves_onChannelClose : Moves a s (s.onChannelClose c) := by
  have hclosed : Moves a s (s.onChannel c fun ch => { ch with readyState := .closed }) :=
    Move.moves (.use fun _ _ => ⟨rfl, rfl, fun h => absurd rfl h⟩)
  unfold onChannelClose
  simp only
  split
  · exact hclosed
  · split
    · exact hclosed.tail (.dropPeer _)
    · exact hclosed

theorem moves_onChannelOpen : Moves a s (s.onChannelOpen c) := by
  unfold onChannelOpen
  split
  · exact .refl
  · rename_i ch hc
    split
    · exact .refl
    · rename_i hr
      have hr : ch.readyState = .connecting := not_not.1 hr
      refine Relation.ReflTransGen.tail (b := s.onChannel c fun ch => { ch with readyState := .opened })
        (Move.moves (.use fun ch' hc' => ⟨rfl, rfl, fun _ => ?_⟩)) (.aside _ _ _ _)
      obtain rfl := Option.some.inj (hc.symm.trans hc')
      rw [hr]
      exact ReadyState.noConfusion

theorem moves_onDataChannel : Moves a s (s.onDataChannel k) := by
  unfold onDataChannel
  split
  · exact .refl
  · rename_i p hp
    split
    · exact .refl
    · rename_i hopen
      exact (Move.newChannel hp (Bool.eq_false_iff.2 fun h => hopen (.inl h))).moves

theorem moves_onOpen {closes : Bool} (hi : s.readyState i = some .connecting) :
    Moves (.opened i closes) s
      ((s.onSocket i fun ws => { ws with readyState := .opened }).onOpen closes) := by
  have hopened : Moves (.opened i closes) s
      (({ s.onSocket i fun ws => { ws with readyState := .opened } with
        backoff := firstBackoffMs }).report .connected) := (Move.opened hi).moves
  unfold onOpen
  cases closes with
  | false => exact hopened.tail (.say .join)
  | true => exact (hopened.tail (.close fun _ _ => Action.noConfusion)).tail (.say .join)

/-- **Every action is a sequence of moves.** -/
theorem step_moves (s : WebRTCTransport) (a : Action) : Moves a s (s.step a) := by
  cases a with
  | opened i closes =>
    simp only [step]
    split
    · exact moves_onOpen ‹_›
    · exact .refl
  | message i msg =>
    simp only [step]
    split
    · cases msg with
      | none => exact .refl
      | some msg => exact moves_handleSignaling rfl
    · exact .refl
  | closing i => exact (Move.closing i).moves
  | closed i code =>
    simp only [step]
    split
    · exact .refl
    · rename_i h
      rw [not_or] at h
      obtain ⟨r, hr⟩ := Option.ne_none_iff_exists'.1 h.1
      exact (Move.closed code hr fun hc => h.2 (hr.trans (congrArg some hc))).moves
  | timer n closes =>
    simp only [step]
    split
    · exact (Move.timer rfl ‹_›).moves
    · exact .refl
  | offer k r => exact moves_offer r
  | settle n r =>
    simp only [step]
    split
    · exact .refl
    · exact moves_settle ‹_› r
  | iceCandidate k candidate =>
    simp only [step, onIceCandidate]
    split
    · exact (Move.say (.ice _ _)).moves
    · exact .refl
  | connectionState k state =>
    simp only [step, onConnectionStateChange]
    split
    · exact .refl
    · split
      · exact (Move.dropPeer _).moves
      · exact .refl
  | dataChannel k => exact moves_onDataChannel
  | channelOpen c => exact moves_onChannelOpen
  | channelMessage c raw =>
    simp only [step, onChannelMessage]
    split
    · exact .refl
    · exact (Move.aside _ _ _ _).moves
    · exact (Move.aside _ _ _ _).moves
  | channelClose c => exact moves_onChannelClose
  | send msg throws => exact moves_send msg throws
  | onMessage cb => exact (Move.aside _ _ _ _).moves
  | offMessage cb => exact (Move.aside _ _ _ _).moves
  | onPeerConnect cb => exact (Move.aside _ _ _ _).moves
  | offPeerConnect cb => exact (Move.aside _ _ _ _).moves
  | close => exact (Move.close fun _ _ => Action.noConfusion).moves

/-- What every move of an action keeps, the action keeps. -/
theorem Moves.keeps {I : WebRTCTransport → Prop} (h : Moves a s s')
    (hmove : ∀ s s', Move a s s' → I s → I s') (hs : I s) : I s' := by
  induction h with
  | refl => exact hs
  | tail _ hm ih => exact hmove _ _ hm ih

/-- **Invariant rule.** What every move keeps, every run keeps. -/
theorem run_invariant_moves {I : WebRTCTransport → Prop}
    (hmove : ∀ a s s', Move a s s' → I s → I s') (hs : I s) (acts : List Action) :
    I (Runs.run step s acts) :=
  Runs.run_invariant (fun s a hI => (step_moves s a).keeps (hmove a) hI) hs acts

end WebRTCTransport

end TangentFeed.WebRtc
