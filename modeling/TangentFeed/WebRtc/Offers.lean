import TangentFeed.WebRtc.Lifecycle

/-!
# Who offers and who answers

Between two devices the one with the lower id offers and the other answers. A
transport that is only handed such signals sends only such signals.
-/

namespace TangentFeed.WebRtc

/-- `data.description.type === "answer"`. -/
def isAnswer (data : Json) : Bool :=
  (descriptionOf data).any fun description => description.getStr (js "type") = js "answer"

/-- The data of a signal from `sender` to `target`: the lower id offers, the higher answers. -/
def Fair (sender target : JsString) (data : Option Json) : Prop :=
  (data.any isOffer = true → sender < target) ∧ (data.any isAnswer = true → target < sender)

/-- A message to the server that device `id` may send. -/
def MaySay (id : JsString) (msg : Json) : Prop :=
  (msg.getStr (js "t") = js "join" → msg.getStr (js "device") = id) ∧
    (msg.getStr (js "t") = js "signal" → Fair id (msg.getStr (js "to")) (msg.get? (js "data")))

theorem maySay_join (space id : JsString) : MaySay id (joinMessage space id) :=
  ⟨fun _ => rfl, fun h => absurd h (show js "join" ≠ js "signal" by decide)⟩

theorem maySay_signal {id target : JsString} {data : Json} (h : Fair id target (some data)) :
    MaySay id (signalMessage target data) :=
  ⟨fun h => absurd h (show js "signal" ≠ js "join" by decide), fun _ => h⟩

theorem fair_offer {id target : JsString} (h : id < target) (sdp : JsString) :
    Fair id target (some (sdpData .offer sdp)) :=
  ⟨fun _ => h, fun ha => absurd ha (show isAnswer (sdpData .offer sdp) ≠ true from
    Bool.eq_false_iff.1 rfl)⟩

theorem fair_answer {id target : JsString} (h : target < id) (sdp : JsString) :
    Fair id target (some (sdpData .answer sdp)) :=
  ⟨fun ho => absurd ho (show isOffer (sdpData .answer sdp) ≠ true from
    Bool.eq_false_iff.1 rfl), fun _ => h⟩

theorem descriptionOf_iceData (candidate : Json) : descriptionOf (iceData candidate) = none :=
  if_neg fun h => absurd h.1 (show js "ice" ≠ js "sdp" by decide)

theorem fair_ice {id target : JsString} (candidate : Json) :
    Fair id target (some (iceData candidate)) := by
  have ho : isOffer (iceData candidate) = false := by
    rw [isOffer, descriptionOf_iceData, Option.any_none]
  have ha : isAnswer (iceData candidate) = false := by
    rw [isAnswer, descriptionOf_iceData, Option.any_none]
  exact ⟨fun h => absurd (ho.symm.trans h) Bool.false_ne_true,
    fun h => absurd (ha.symm.trans h) Bool.false_ne_true⟩

namespace WebRTCTransport

variable {s s' s'' : WebRTCTransport} {a : Action} {i k n c : Nat} {id : JsString} {p : Peer}

/-- **Every offer goes up and every answer down**, in what the transport has sent, in what it was
handed, and in what its connections were called with. -/
structure Polite (s : WebRTCTransport) : Prop where
  said : ∀ ws ∈ s.sockets, ∀ msg ∈ ws.sent, MaySay s.deviceId msg
  heard : ∀ call ∈ s.calls, Fair call.sender s.deviceId call.data ∧
    (call.stage.answers = true → call.data.any isOffer = true)
  offering : ∀ p ∈ s.made, p.offering.isSome = true → s.deviceId < p.peerId
  offered : ∀ p ∈ s.made, .createOffer ∈ p.log → s.deviceId < p.peerId
  described : ∀ p ∈ s.made, ∀ data, .setRemoteDescription data ∈ p.log →
    Fair p.peerId s.deviceId (some data)

/-- Nothing is sent, begun or called on the way from `s` to `s'`. -/
structure Mute (s s' : WebRTCTransport) : Prop where
  deviceId : s'.deviceId = s.deviceId
  sent : ∀ ws' ∈ s'.sockets, ws'.sent = [] ∨ ∃ ws ∈ s.sockets, ws'.sent = ws.sent
  calls : s'.calls = s.calls
  made : ∀ p' ∈ s'.made, ∃ p ∈ s.made, p'.peerId = p.peerId ∧ p'.offering = p.offering ∧
    p'.log = p.log

theorem Mute.of_eq (h1 : s'.deviceId = s.deviceId) (h2 : s'.sockets = s.sockets)
    (h3 : s'.calls = s.calls) (h4 : s'.made = s.made) : Mute s s' where
  deviceId := h1
  sent ws hws := .inr ⟨ws, h2 ▸ hws, rfl⟩
  calls := h3
  made p hp := ⟨p, h4 ▸ hp, rfl, rfl, rfl⟩

theorem Mute.trans (h : Mute s s') (h' : Mute s' s'') : Mute s s'' where
  deviceId := h'.deviceId.trans h.deviceId
  sent ws'' hws'' := by
    rcases h'.sent ws'' hws'' with hnil | ⟨ws', hws', heq⟩
    · exact .inl hnil
    · rw [heq]
      exact h.sent ws' hws'
  calls := h'.calls.trans h.calls
  made p'' hp'' := by
    obtain ⟨p', hp', h1, h2, h3⟩ := h'.made p'' hp''
    obtain ⟨p, hp, h1', h2', h3'⟩ := h.made p' hp'
    exact ⟨p, hp, h1.trans h1', h2.trans h2', h3.trans h3'⟩

theorem Polite.mute (h : s.Polite) (hm : Mute s s') : s'.Polite where
  said ws' hws' msg hmsg := by
    rw [hm.deviceId]
    rcases hm.sent ws' hws' with hnil | ⟨ws, hws, heq⟩
    · rw [hnil] at hmsg
      cases hmsg
    · exact h.said ws hws msg (heq ▸ hmsg)
  heard := by
    rw [hm.calls, hm.deviceId]
    exact h.heard
  offering p' hp' ho := by
    obtain ⟨p, hp, h1, h2, -⟩ := hm.made p' hp'
    rw [hm.deviceId, h1]
    exact h.offering p hp (h2 ▸ ho)
  offered p' hp' ho := by
    obtain ⟨p, hp, h1, -, h3⟩ := hm.made p' hp'
    rw [hm.deviceId, h1]
    exact h.offered p hp (h3 ▸ ho)
  described p' hp' data hd := by
    obtain ⟨p, hp, h1, -, h3⟩ := hm.made p' hp'
    rw [hm.deviceId, h1]
    exact h.described p hp data (h3 ▸ hd)

/-! ## Moves that say nothing -/

theorem Mute.onSocket {f : ClientSocket → ClientSocket} (hf : ∀ ws, (f ws).sent = ws.sent) :
    Mute s (s.onSocket i f) where
  deviceId := rfl
  sent ws' hws' := by
    obtain ⟨ws, hws, rfl | ⟨-, rfl⟩⟩ := mem_modify hws'
    · exact .inr ⟨_, hws, rfl⟩
    · exact .inr ⟨ws, hws, hf ws⟩
  calls := rfl
  made p hp := ⟨p, hp, rfl, rfl, rfl⟩

theorem Mute.onPeer {f : Peer → Peer}
    (hf : ∀ p, (f p).peerId = p.peerId ∧ (f p).offering = p.offering ∧ (f p).log = p.log) :
    Mute s (s.onPeer k f) where
  deviceId := rfl
  sent ws hws := .inr ⟨ws, hws, rfl⟩
  calls := rfl
  made p' hp' := by
    obtain ⟨p, hp, rfl | ⟨-, rfl⟩⟩ := mem_modify hp'
    · exact ⟨_, hp, rfl, rfl, rfl⟩
    · exact ⟨p, hp, hf p⟩

theorem Mute.newChannel : Mute s (s.newChannel k id) := by
  unfold WebRTCTransport.newChannel attachChannel
  split
  · exact .of_eq rfl rfl rfl rfl
  · rename_i k' _
    have hpeer : Mute s (s.onPeer k' fun p => { p with channel := some s.channels.length }) :=
      .onPeer fun _ => ⟨rfl, rfl, rfl⟩
    exact hpeer.trans (.of_eq rfl rfl rfl rfl)

theorem Mute.dropPeer : Mute s (s.dropPeer id) := by
  unfold WebRTCTransport.dropPeer
  split
  · exact .of_eq rfl rfl rfl rfl
  · rename_i k _
    have hpeer : Mute s (s.onPeer k fun p => { p with closed := true }) :=
      .onPeer fun _ => ⟨rfl, rfl, rfl⟩
    refine hpeer.trans ?_
    unfold closeChannelOf
    split <;> exact .of_eq rfl rfl rfl rfl

theorem Mute.foldl_dropPeer (ids : List JsString) :
    Mute s (ids.foldl WebRTCTransport.dropPeer s) := by
  induction ids generalizing s with
  | nil => exact .of_eq rfl rfl rfl rfl
  | cons id ids ih => exact Mute.dropPeer.trans ih

theorem Mute.close : Mute s s.close := by
  have hclosed : Mute s { s with closed := true } := .of_eq rfl rfl rfl rfl
  have hfold : Mute s (s.peers.keys.foldl WebRTCTransport.dropPeer { s with closed := true }) :=
    hclosed.trans (.foldl_dropPeer _)
  unfold WebRTCTransport.close
  dsimp only
  generalize s.peers.keys.foldl WebRTCTransport.dropPeer { s with closed := true } = t at hfold ⊢
  cases t.ws with
  | none => exact hfold.trans (.of_eq rfl rfl rfl rfl)
  | some i =>
    have hsocket : Mute t (t.onSocket i fun ws => { ws with readyState := ws.readyState.ending }) :=
      .onSocket fun _ => rfl
    exact (hfold.trans hsocket).trans (.of_eq rfl rfl rfl rfl)

theorem Mute.onClose {code : Nat} : Mute s (s.onClose code) := by
  unfold WebRTCTransport.onClose
  split
  · exact .of_eq rfl rfl rfl rfl
  · split <;> exact .of_eq rfl rfl rfl rfl

theorem Mute.newSocket : Mute s s.newSocket := by
  refine ⟨rfl, fun ws hws => ?_, rfl, fun p hp => ⟨p, hp, rfl, rfl, rfl⟩⟩
  rcases List.mem_append.1 hws with hws | hws
  · exact .inr ⟨ws, hws, rfl⟩
  · obtain rfl := List.mem_singleton.1 hws
    exact .inl rfl

theorem Mute.connectSignaling (closes : Bool) : Mute s (s.connectSignaling closes) := by
  have hreport : Mute s (s.report .connecting) := .of_eq rfl rfl rfl rfl
  unfold WebRTCTransport.connectSignaling
  split
  · exact .of_eq rfl rfl rfl rfl
  · cases closes with
    | false => exact hreport.trans .newSocket
    | true => exact (hreport.trans .close).trans .newSocket

/-! ## Moves that say or call something -/

theorem Polite.sigSend (h : s.Polite) {msg : Json} (hmsg : MaySay s.deviceId msg) :
    (s.sigSend msg).Polite := by
  unfold WebRTCTransport.sigSend
  split
  · exact h
  · refine ⟨fun ws' hws' m hm => ?_, h.heard, h.offering, h.offered, h.described⟩
    obtain ⟨ws, hws, rfl | ⟨-, rfl⟩⟩ := mem_modify hws'
    · exact h.said _ hws m hm
    · split at hm
      · rcases List.mem_append.1 hm with hm | hm
        · exact h.said ws hws m hm
        · exact List.mem_singleton.1 hm ▸ hmsg
      · exact h.said ws hws m hm

/-- What a polite transport says is fair. -/
theorem Polite.speaks (h : s.Polite) {msg : Json} (hs : s.Says msg) : MaySay s.deviceId msg := by
  cases hs with
  | join => exact maySay_join _ _
  | offer sdp hk ho =>
    have hp := List.mem_of_getElem? hk
    exact maySay_signal (fair_offer (h.offering _ hp ho) sdp)
  | answer sdp hn hc =>
    obtain ⟨hfair, hanswers⟩ := h.heard _ (List.mem_of_getElem? hn)
    exact maySay_signal (fair_answer (hfair.1 (hanswers (by rw [hc]; rfl))) sdp)
  | ice target candidate => exact maySay_signal (fair_ice candidate)

theorem Polite.touch (h : s.Polite) (hk : s.Kept) {f : Peer → Peer}
    (hf : ∀ p, s.made[k]? = some p → s.Touches k p (f p)) : (s.onPeer k f).Polite := by
  have hoffered : ∀ p' ∈ (s.onPeer k f).made, .createOffer ∈ p'.log → s.deviceId < p'.peerId :=
    fun p' hp' ho => by
      obtain ⟨p, hp, rfl | ⟨hkp, rfl⟩⟩ := mem_modify hp'
      · exact h.offered _ hp ho
      · have htouch := hf p hkp
        rw [htouch.peerId]
        rcases htouch.log _ ho with hold | ⟨q, hq, hlt⟩
        · exact h.offered p hp hold
        · obtain rfl := Option.some.inj (hkp.symm.trans hq)
          exact hlt
  refine ⟨h.said, h.heard, fun p' hp' ho => ?_, hoffered, fun p' hp' data hd => ?_⟩
  · obtain ⟨p, hp, rfl | ⟨hkp, rfl⟩⟩ := mem_modify hp'
    · exact h.offering _ hp ho
    · rcases (hf p hkp).offering ho with hold | hnew
      · rw [(hf p hkp).peerId]
        exact h.offering p hp hold
      · exact hoffered _ hp' hnew
  · obtain ⟨p, hp, rfl | ⟨hkp, rfl⟩⟩ := mem_modify hp'
    · exact h.described _ hp data hd
    · have htouch := hf p hkp
      rw [htouch.peerId]
      rcases htouch.log _ hd with hold | ⟨n, call, hn, hdata, hget⟩
      · exact h.described p hp data hold
      · -- the description is handed to the peer of the sender
        obtain ⟨-, -, q, hq, hid, -⟩ := hk.entry hget
        obtain rfl := Option.some.inj (hkp.symm.trans hq)
        rw [hid, ← hdata]
        exact (h.heard _ (List.mem_of_getElem? hn)).1

theorem Polite.goOn (h : s.Polite) {stage : HandleStage} (hstage : stage.answers = true →
    ∀ call, s.calls[n]? = some call → call.Answers) : (s.goOn n stage).Polite := by
  refine ⟨h.said, fun call' hcall' => ?_, h.offering, h.offered, h.described⟩
  obtain ⟨call, hcall, rfl | ⟨hn, rfl⟩⟩ := mem_modify hcall'
  · exact h.heard _ hcall
  · obtain ⟨hfair, hanswers⟩ := h.heard call hcall
    refine ⟨hfair, fun hs => ?_⟩
    rcases hstage hs call hn with hold | hoffer
    · exact hanswers hold
    · exact hoffer

theorem Polite.begin (h : s.Polite) {sender : JsString} {data : Option Json} {made : Option Nat}
    (hfair : Fair sender s.deviceId data) :
    ({ s with calls := s.calls ++ [⟨sender, data, .ensuring made⟩] } : WebRTCTransport).Polite := by
  refine ⟨h.said, fun call hcall => ?_, h.offering, h.offered, h.described⟩
  rcases List.mem_append.1 hcall with hcall | hcall
  · exact h.heard call hcall
  · obtain rfl := List.mem_singleton.1 hcall
    exact ⟨hfair, Bool.noConfusion⟩

theorem Polite.addPeer (h : s.Polite) : (s.addPeer id).Polite := by
  have hcases : ∀ p ∈ (s.addPeer id).made, p ∈ s.made ∨
      p.offering = none ∧ p.log = [] := fun p hp => by
    rcases List.mem_append.1 hp with hp | hp
    · exact .inl hp
    · obtain rfl := List.mem_singleton.1 hp
      exact .inr ⟨rfl, rfl⟩
  refine ⟨h.said, h.heard, fun p hp ho => ?_, fun p hp ho => ?_, fun p hp data hd => ?_⟩
  · rcases hcases p hp with hp | ⟨hnone, -⟩
    · exact h.offering p hp ho
    · rw [hnone] at ho
      cases ho
  · rcases hcases p hp with hp | ⟨-, hnil⟩
    · exact h.offered p hp ho
    · rw [hnil] at ho
      cases ho
  · rcases hcases p hp with hp | ⟨-, hnil⟩
    · exact h.described p hp data hd
    · rw [hnil] at hd
      cases hd

/-! ## Every step -/

theorem deviceId_sigSend {msg : Json} : (s.sigSend msg).deviceId = s.deviceId :=
  made_sigSend.2.2.2.1

theorem Move.deviceId (hm : Move a s s') : s'.deviceId = s.deviceId := by
  cases hm with
  | aside | touch | use | goOn | begin | addPeer | closing | opened => rfl
  | say => exact deviceId_sigSend
  | newChannel => exact Mute.newChannel.deviceId
  | dropPeer => exact Mute.dropPeer.deviceId
  | closed => exact Mute.onClose.deviceId
  | @timer n closes =>
    exact (Mute.connectSignaling (s := { s with timers := s.timers.eraseIdx n }) closes).deviceId
  | close => exact Mute.close.deviceId

/-- What an action brings from the server is fair. -/
def Brings (id : JsString) (a : Action) : Prop :=
  ∀ i sender data, a = .message i (some (.signal sender data)) → Fair sender id data

/-- **Step lemma.** -/
theorem Polite.move (h : s.Polite) (hk : s.Kept) (hm : Move a s s') (ha : Brings s.deviceId a) :
    s'.Polite := by
  cases hm with
  | aside => exact h.mute (.of_eq rfl rfl rfl rfl)
  | say hs => exact h.sigSend (h.speaks hs)
  | touch hf => exact h.touch hk hf
  | use => exact h.mute (.of_eq rfl rfl rfl rfl)
  | goOn hstage => exact h.goOn hstage
  | begin made hbegin => exact h.begin (ha _ _ _ hbegin)
  | addPeer => exact h.addPeer
  | newChannel => exact h.mute .newChannel
  | dropPeer => exact h.mute .dropPeer
  | @opened i =>
    have hsocket : Mute s (s.onSocket i fun ws => { ws with readyState := .opened }) :=
      .onSocket fun _ => rfl
    exact h.mute (hsocket.trans (.of_eq rfl rfl rfl rfl))
  | closing i => exact h.mute (.onSocket fun _ => rfl)
  | @closed i r code =>
    have hsocket : Mute s (s.onSocket i fun ws => { ws with readyState := .closed }) :=
      .onSocket fun _ => rfl
    exact h.mute (hsocket.trans .onClose)
  | @timer n closes =>
    have htimers : Mute s { s with timers := s.timers.eraseIdx n } := .of_eq rfl rfl rfl rfl
    exact h.mute (htimers.trans (.connectSignaling closes))
  | close => exact h.mute .close

theorem polite_new (space deviceId : JsString) : (new space deviceId).Polite where
  said ws hws msg hmsg := by
    obtain rfl := List.mem_singleton.1 hws
    cases hmsg
  heard call hcall := by cases hcall
  offering p hp := by cases hp
  offered p hp := by cases hp
  described p hp := by cases hp

/-- **A transport that is handed fair signals only stays polite.** -/
theorem Polite.step (h : s.Polite) (hk : s.Kept) (ha : Brings s.deviceId a) :
    (s.step a).Polite ∧ (s.step a).Kept ∧ (s.step a).deviceId = s.deviceId := by
  refine (step_moves s a).keeps
    (I := fun s' => s'.Polite ∧ s'.Kept ∧ s'.deviceId = s.deviceId) (fun t t' hm ht => ?_)
    ⟨h, hk, rfl⟩
  obtain ⟨hp, hkept, hid⟩ := ht
  exact ⟨hp.move hkept hm (hid.symm ▸ ha), hkept.move hm, hm.deviceId.trans hid⟩

end WebRTCTransport

end TangentFeed.WebRtc
