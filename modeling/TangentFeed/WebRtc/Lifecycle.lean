import TangentFeed.WebRtc.Reconnect

/-!
# The connections of the transport

A connection is open exactly while its peer is the one that `peers` has under its
id: callbacks of a peer that was dropped may drop the next one under the same id,
but leave no connection and no channel open that no peer has. `ensurePeer` does not
ask whether the transport is closed, so after `close()` a message of the server
still brings a connection.
-/

namespace TangentFeed.WebRtc

/-- What the lifecycle of a peer depends on. -/
def Peer.core (p : Peer) : JsString × Bool × Option Nat := (p.peerId, p.closed, p.channel)

namespace WebRTCTransport

variable {s s' : WebRTCTransport} {a : Action} {i k n c : Nat} {id : JsString} {p : Peer}

/-- **The connections that are open are those of the peers**, each under its own id, which is not
the device's; a channel that is not closed is of an open connection, and a peer has a channel of
its own connection. -/
structure Kept (s : WebRTCTransport) : Prop where
  entry : ∀ {id : JsString} {k : Nat}, s.peers.get id = some k → id ≠ [] ∧ id ≠ s.deviceId ∧
    ∃ p, s.made[k]? = some p ∧ p.peerId = id ∧ p.closed = false
  current : ∀ {k : Nat} {p : Peer}, s.made[k]? = some p → p.closed = false →
    s.peers.get p.peerId = some k
  channel : ∀ {c : Nat} {ch : DataChannel}, s.channels[c]? = some ch → ch.readyState ≠ .closed →
    ∃ p, s.made[ch.pc]? = some p ∧ p.closed = false
  own : ∀ {k c : Nat} {p : Peer}, s.made[k]? = some p → p.channel = some c →
    ∃ ch, s.channels[c]? = some ch ∧ ch.pc = k

/-- The peers and the channels are the same but for what the lifecycle does not depend on. -/
structure Alike (s s' : WebRTCTransport) : Prop where
  deviceId : s'.deviceId = s.deviceId
  peers : s'.peers = s.peers
  made : ∀ n : Nat, (s'.made[n]?).map Peer.core = (s.made[n]?).map Peer.core
  used : ∀ {c : Nat} {ch' : DataChannel}, s'.channels[c]? = some ch' →
    ∃ ch, s.channels[c]? = some ch ∧ ch.Uses ch'
  stays : ∀ {c : Nat} {ch : DataChannel}, s.channels[c]? = some ch →
    ∃ ch', s'.channels[c]? = some ch' ∧ ch'.pc = ch.pc

theorem Kept.alike (h : s.Kept) (ha : Alike s s') : s'.Kept := by
  have hback : ∀ {n : Nat} {p' : Peer}, s'.made[n]? = some p' →
      ∃ p, s.made[n]? = some p ∧ p.core = p'.core := fun {n p'} hn => by
    have hcore := ha.made n
    rw [hn, Option.map_some] at hcore
    exact Option.map_eq_some_iff.1 hcore.symm
  have hforth : ∀ {n : Nat} {p : Peer}, s.made[n]? = some p →
      ∃ p', s'.made[n]? = some p' ∧ p'.core = p.core := fun {n p} hn => by
    have hcore := ha.made n
    rw [hn, Option.map_some] at hcore
    exact Option.map_eq_some_iff.1 hcore
  constructor
  · intro id k hk
    rw [ha.peers] at hk
    obtain ⟨h1, h2, p, hp, hid, hclosed⟩ := h.entry hk
    obtain ⟨p', hp', hcore⟩ := hforth hp
    refine ⟨h1, ha.deviceId ▸ h2, p', hp', ?_, ?_⟩
    · rw [← hid]
      exact congrArg Prod.fst hcore
    · rw [← hclosed]
      exact congrArg (fun t => t.2.1) hcore
  · intro k p' hk hclosed
    obtain ⟨p, hp, hcore⟩ := hback hk
    rw [ha.peers, ← show p.peerId = p'.peerId from congrArg Prod.fst hcore]
    exact h.current hp ((congrArg (fun t => t.2.1) hcore).trans hclosed)
  · intro c ch' hc hopen
    obtain ⟨ch, hch, huse⟩ := ha.used hc
    obtain ⟨p, hp, hclosed⟩ := h.channel hch (huse.readyState hopen)
    obtain ⟨p', hp', hcore⟩ := hforth hp
    rw [huse.pc]
    exact ⟨p', hp', (congrArg (fun t => t.2.1) hcore).trans hclosed⟩
  · intro k c p' hk hchannel
    obtain ⟨p, hp, hcore⟩ := hback hk
    obtain ⟨ch, hch, hpc⟩ := h.own hp ((congrArg (fun t => t.2.2) hcore).trans hchannel)
    obtain ⟨ch', hch', hpc'⟩ := ha.stays hch
    exact ⟨ch', hch', hpc'.trans hpc⟩

/-- The peers and the channels are the same. -/
theorem Alike.of_eq (h1 : s'.deviceId = s.deviceId) (h2 : s'.peers = s.peers)
    (h3 : s'.made = s.made) (h4 : s'.channels = s.channels) : Alike s s' where
  deviceId := h1
  peers := h2
  made n := by rw [h3]
  used {_ ch'} hc := ⟨ch', h4 ▸ hc, rfl, rfl, id⟩
  stays {_ ch} hc := ⟨ch, h4.symm ▸ hc, rfl⟩

theorem Alike.onPeer {f : Peer → Peer}
    (hf : ∀ p, s.made[k]? = some p → (f p).core = p.core) : Alike s (s.onPeer k f) where
  deviceId := rfl
  peers := rfl
  made := map_getElem?_modify hf
  used {_ ch'} hc := ⟨ch', hc, rfl, rfl, id⟩
  stays {_ ch} hc := ⟨ch, hc, rfl⟩

theorem Alike.onChannel {f : DataChannel → DataChannel}
    (hf : ∀ ch, s.channels[c]? = some ch → ch.Uses (f ch)) : Alike s (s.onChannel c f) where
  deviceId := rfl
  peers := rfl
  made n := rfl
  used {n ch'} hn := by
    obtain ⟨ch, hch, rfl⟩ := getElem?_modify_eq_some hn
    refine ⟨ch, hch, ?_⟩
    split
    · rename_i hcn
      exact hf ch (hcn ▸ hch)
    · exact ⟨rfl, rfl, id⟩
  stays {n ch} hn := by
    unfold WebRTCTransport.onChannel
    dsimp only
    rw [List.getElem?_modify, hn]
    refine ⟨_, rfl, ?_⟩
    split
    · rename_i hcn
      exact (hf ch (hcn ▸ hn)).pc
    · rfl

/-! ## Peers come and go -/

theorem Kept.addPeer (h : s.Kept) (hl : s.Lacks id) : (s.addPeer id).Kept := by
  obtain ⟨h1, h2, hnone⟩ := hl
  have hold : ∀ {n : Nat} {p : Peer}, s.made[n]? = some p → (s.addPeer id).made[n]? = some p :=
    fun {n p} hn => by
      unfold WebRTCTransport.addPeer
      dsimp only
      rw [List.getElem?_append_left (List.getElem?_eq_some_iff.1 hn).1, hn]
  have hcases : ∀ {n : Nat} {p : Peer}, (s.addPeer id).made[n]? = some p →
      s.made[n]? = some p ∨ n = s.made.length ∧ p = ⟨id, false, none, [], false, none, []⟩ :=
    fun {n p} hn => by
      unfold WebRTCTransport.addPeer at hn
      dsimp only at hn
      rw [List.getElem?_append] at hn
      split at hn
      · exact .inl hn
      · rw [List.getElem?_singleton] at hn
        split at hn
        · exact .inr ⟨by omega, (Option.some.inj hn).symm⟩
        · cases hn
  have hget : ∀ id', (s.addPeer id).peers.get id' =
      if id' = id then some s.made.length else s.peers.get id' := fun id' => OrderedMap.get_set
  constructor
  · intro id' k hk
    rw [hget] at hk
    split at hk
    · rename_i hid
      obtain rfl := Option.some.inj hk
      exact ⟨hid ▸ h1, hid ▸ h2, _, getElem?_addPeer, hid.symm, rfl⟩
    · obtain ⟨h1', h2', p, hp, hrest⟩ := h.entry hk
      exact ⟨h1', h2', p, hold hp, hrest⟩
  · intro k p hk hclosed
    rw [hget]
    rcases hcases hk with hk | ⟨rfl, rfl⟩
    · have hcurrent := h.current hk hclosed
      rw [if_neg, hcurrent]
      intro hid
      rw [hid, hnone] at hcurrent
      cases hcurrent
    · exact if_pos rfl
  · intro c ch hc hopen
    obtain ⟨p, hp, hclosed⟩ := h.channel (c := c) hc hopen
    exact ⟨p, hold hp, hclosed⟩
  · intro k c p hk hchannel
    rcases hcases hk with hk | ⟨rfl, rfl⟩
    · exact h.own hk hchannel
    · cases hchannel

theorem newChannel_eq (h : s.peers.get id = some k) : s.newChannel k id =
    { s with
      made := s.made.modify k fun p => { p with channel := some s.channels.length }
      channels := s.channels ++ [⟨k, .connecting, some id, []⟩] } := by
  have hmodify (l : List DataChannel) (x : DataChannel) (f : DataChannel → DataChannel) :
      (l ++ [x]).modify l.length f = l ++ [f x] := by
    induction l with
    | nil => rfl
    | cons y l ih => rw [List.cons_append, List.length_cons, List.modify_succ_cons, ih]; rfl
  unfold newChannel attachChannel
  dsimp only
  rw [h]
  unfold onChannel onPeer
  dsimp only
  rw [hmodify]

/-- The channel is attached to the peer whose connection it is. -/
theorem Kept.newChannel (h : s.Kept) (hk : s.made[k]? = some p) (hp : p.closed = false) :
    (s.newChannel k p.peerId).Kept := by
  rw [newChannel_eq (h.current hk hp)]
  -- the new channel is closed at first, so that the peer gets it only when it is there
  have hadd : ({ s with channels := s.channels ++ [⟨k, .connecting, some p.peerId, []⟩] } :
      WebRTCTransport).Kept := by
    refine ⟨h.entry, h.current, fun {c ch} hc hopen => ?_, fun {n c q} hn hchannel => ?_⟩
    · dsimp only at hc ⊢
      rw [List.getElem?_append] at hc
      split at hc
      · exact h.channel hc hopen
      · rw [List.getElem?_singleton] at hc
        split at hc
        · obtain rfl := Option.some.inj hc
          exact ⟨p, hk, hp⟩
        · cases hc
    · obtain ⟨ch, hch, hpc⟩ := h.own hn hchannel
      exact ⟨ch, by rw [List.getElem?_append_left (List.getElem?_eq_some_iff.1 hch).1, hch], hpc⟩
  have hcases : ∀ {n : Nat} {q' : Peer},
      (s.made.modify k fun p => { p with channel := some s.channels.length })[n]? = some q' →
      ∃ q, s.made[n]? = some q ∧ q'.peerId = q.peerId ∧ q'.closed = q.closed ∧
        (q'.channel = q.channel ∨ n = k ∧ q'.channel = some s.channels.length) := fun {n q'} hn => by
    obtain ⟨q, hq, rfl⟩ := getElem?_modify_eq_some hn
    refine ⟨q, hq, ?_⟩
    split
    · rename_i hkn
      exact ⟨rfl, rfl, .inr ⟨hkn.symm, rfl⟩⟩
    · exact ⟨rfl, rfl, .inl rfl⟩
  have hforth : ∀ {n : Nat} {q : Peer}, s.made[n]? = some q → ∃ q',
      (s.made.modify k fun p => { p with channel := some s.channels.length })[n]? = some q' ∧
        q'.peerId = q.peerId ∧ q'.closed = q.closed := fun {n q} hn => by
    refine ⟨_, by rw [List.getElem?_modify, hn]; rfl, ?_⟩
    split <;> exact ⟨rfl, rfl⟩
  constructor
  · intro id n hn
    obtain ⟨h1, h2, q, hq, hid, hclosed⟩ := h.entry hn
    obtain ⟨q', hq', hid', hclosed'⟩ := hforth hq
    exact ⟨h1, h2, q', hq', hid'.trans hid, hclosed'.trans hclosed⟩
  · intro n q' hn hclosed
    obtain ⟨q, hq, hid, hclosed', -⟩ := hcases hn
    rw [hid]
    exact h.current hq (hclosed'.symm.trans hclosed)
  · intro c ch hc hopen
    obtain ⟨q, hq, hclosed⟩ := hadd.channel hc hopen
    obtain ⟨q', hq', -, hclosed'⟩ := hforth hq
    exact ⟨q', hq', hclosed'.trans hclosed⟩
  · intro n c q' hn hchannel
    obtain ⟨q, hq, -, -, hold | ⟨rfl, hnew⟩⟩ := hcases hn
    · exact hadd.own hq (hold.symm.trans hchannel)
    · obtain rfl := Option.some.inj (hnew.symm.trans hchannel)
      exact ⟨_, List.getElem?_concat_length, rfl⟩

/-- The peer is out of `peers`, and its connection and channels are closed. -/
def remove (s : WebRTCTransport) (id : JsString) (k : Nat) : WebRTCTransport :=
  { s with peers := s.peers.erase id }.closePc k

theorem dropPeer_eq (h : s.peers.get id = some k) :
    s.dropPeer id = (s.closeChannelOf k).remove id k := by
  unfold dropPeer closeChannelOf remove
  rw [h]
  dsimp only
  cases s.made[k]?.bind Peer.channel <;> rfl

theorem Kept.closeChannelOf (h : s.Kept) : (s.closeChannelOf k).Kept := by
  unfold WebRTCTransport.closeChannelOf
  split
  · exact h
  · refine h.alike (.onChannel fun ch _ => ⟨rfl, rfl, fun hopen hclosed => hopen ?_⟩)
    dsimp only
    rw [hclosed]
    rfl

theorem peers_closeChannelOf : (s.closeChannelOf k).peers = s.peers := by
  unfold closeChannelOf
  split <;> rfl

theorem Kept.remove (h : s.Kept) (hk : s.peers.get id = some k) : (s.remove id k).Kept := by
  obtain ⟨-, -, p, hp, hid, -⟩ := h.entry hk
  have hget : ∀ id', (s.remove id k).peers.get id' = if id' = id then none else s.peers.get id' :=
    fun id' => OrderedMap.get_erase
  have hne : ∀ {n : Nat} {q : Peer}, n ≠ k → ((s.remove id k).made[n]? = some q ↔
      s.made[n]? = some q) := fun {n q} hn => by
    change (s.made.modify k _)[n]? = some q ↔ _
    rw [List.getElem?_modify]
    simp only [hn.symm, if_false]
    cases s.made[n]? <;> exact Iff.rfl
  have hself : (s.remove id k).made[k]? = some { p with closed := true } := by
    change (s.made.modify k _)[k]? = _
    rw [List.getElem?_modify, hp]
    simp
  have hchannels : (s.remove id k).channels = s.channels.map fun ch =>
      if ch.pc = k then { ch with readyState := .closed } else ch := rfl
  constructor
  · intro id' n hn
    rw [hget] at hn
    split at hn
    · cases hn
    · rename_i hid'
      obtain ⟨h1, h2, q, hq, hqid, hclosed⟩ := h.entry hn
      have hnk : n ≠ k := by
        rintro rfl
        obtain rfl := Option.some.inj (hp.symm.trans hq)
        exact hid' (hqid.symm.trans hid)
      exact ⟨h1, h2, q, (hne hnk).2 hq, hqid, hclosed⟩
  · intro n q hn hclosed
    by_cases hnk : n = k
    · subst hnk
      rw [hself] at hn
      obtain rfl := Option.some.inj hn
      cases hclosed
    · have hq := (hne hnk).1 hn
      have hcurrent := h.current hq hclosed
      rw [hget, if_neg, hcurrent]
      intro hqid
      rw [hqid, hk] at hcurrent
      exact hnk (Option.some.inj hcurrent).symm
  · intro c ch' hc hopen
    rw [hchannels, List.getElem?_map, Option.map_eq_some_iff] at hc
    obtain ⟨ch, hch, rfl⟩ := hc
    split at hopen
    · exact absurd rfl hopen
    · rename_i hpc
      obtain ⟨q, hq, hclosed⟩ := h.channel hch hopen
      rw [if_neg hpc]
      exact ⟨q, (hne hpc).2 hq, hclosed⟩
  · intro n c q' hn hchannel
    have hold : ∃ q, s.made[n]? = some q ∧ q.channel = some c := by
      by_cases hnk : n = k
      · subst hnk
        rw [hself] at hn
        obtain rfl := Option.some.inj hn
        exact ⟨p, hp, hchannel⟩
      · exact ⟨q', (hne hnk).1 hn, hchannel⟩
    obtain ⟨q, hq, hqc⟩ := hold
    obtain ⟨ch, hch, hpc⟩ := h.own hq hqc
    refine ⟨_, by rw [hchannels, List.getElem?_map, hch]; rfl, ?_⟩
    dsimp only
    split <;> exact hpc

theorem Kept.dropPeer (h : s.Kept) : (s.dropPeer id).Kept := by
  cases hk : s.peers.get id with
  | none =>
    unfold WebRTCTransport.dropPeer
    rw [hk]
    exact h
  | some k =>
    rw [dropPeer_eq hk]
    exact h.closeChannelOf.remove (by rw [peers_closeChannelOf, hk])

theorem peers_dropPeer {id' : JsString} :
    (s.dropPeer id).peers.get id' = if id' = id then none else s.peers.get id' := by
  cases hk : s.peers.get id with
  | none =>
    unfold dropPeer
    rw [hk]
    dsimp only
    split
    · rename_i hid
      exact hid ▸ hk
    · rfl
  | some k =>
    rw [dropPeer_eq hk]
    change ((s.closeChannelOf k).peers.erase id).get id' = _
    rw [OrderedMap.get_erase, peers_closeChannelOf]

theorem Kept.foldl_dropPeer (h : s.Kept) (ids : List JsString) :
    (ids.foldl WebRTCTransport.dropPeer s).Kept := by
  induction ids generalizing s with
  | nil => exact h
  | cons id ids ih => exact ih h.dropPeer

theorem peers_foldl_dropPeer (ids : List JsString) {id' : JsString} :
    (ids.foldl dropPeer s).peers.get id' = if id' ∈ ids then none else s.peers.get id' := by
  induction ids generalizing s with
  | nil => rw [if_neg List.not_mem_nil]; rfl
  | cons id ids ih =>
    rw [List.foldl_cons, ih, peers_dropPeer]
    by_cases hid : id' = id
    · rw [if_pos hid, ite_self, if_pos (hid ▸ List.mem_cons_self)]
    · rw [if_neg hid]
      simp only [List.mem_cons, hid, false_or]

/-! ## Every move -/

theorem made_sigSend {msg : Json} : (s.sigSend msg).made = s.made ∧
    (s.sigSend msg).channels = s.channels ∧ (s.sigSend msg).peers = s.peers ∧
      (s.sigSend msg).deviceId = s.deviceId ∧ (s.sigSend msg).closed = s.closed := by
  unfold sigSend
  split <;> exact ⟨rfl, rfl, rfl, rfl, rfl⟩

theorem Alike.sigSend {msg : Json} : Alike s (s.sigSend msg) :=
  .of_eq made_sigSend.2.2.2.1 made_sigSend.2.2.1 made_sigSend.1 made_sigSend.2.1

theorem Alike.trans {s'' : WebRTCTransport} (h : Alike s s') (h' : Alike s' s'') : Alike s s'' where
  deviceId := h'.deviceId.trans h.deviceId
  peers := h'.peers.trans h.peers
  made n := (h'.made n).trans (h.made n)
  used hc := by
    obtain ⟨ch', hc', huse'⟩ := h'.used hc
    obtain ⟨ch, hch, huse⟩ := h.used hc'
    exact ⟨ch, hch, huse'.pc.trans huse.pc, huse'.peerId.trans huse.peerId,
      fun hopen => huse.readyState (huse'.readyState hopen)⟩
  stays hc := by
    obtain ⟨ch', hc', hpc'⟩ := h.stays hc
    obtain ⟨ch'', hc'', hpc''⟩ := h'.stays hc'
    exact ⟨ch'', hc'', hpc''.trans hpc'⟩

theorem close_spec (h : s.Kept) : s.close.Kept ∧ ∀ id, s.close.peers.get id = none := by
  have hfold := Kept.foldl_dropPeer (s := { s with closed := true })
    ⟨h.entry, h.current, h.channel, h.own⟩ s.peers.keys
  have hnone : ∀ id, (s.peers.keys.foldl WebRTCTransport.dropPeer
      { s with closed := true }).peers.get id = none := fun id => by
    rw [peers_foldl_dropPeer]
    split
    · rfl
    · rename_i hid
      exact OrderedMap.get_eq_none.2 hid
  unfold close
  dsimp only at hfold hnone ⊢
  generalize s.peers.keys.foldl WebRTCTransport.dropPeer { s with closed := true } = t at *
  cases t.ws with
  | none => exact ⟨hfold.alike (.of_eq rfl rfl rfl rfl), hnone⟩
  | some i => exact ⟨hfold.alike (.of_eq rfl rfl rfl rfl), hnone⟩

theorem Alike.onClose {code : Nat} : Alike s (s.onClose code) := by
  unfold WebRTCTransport.onClose
  split
  · exact .of_eq rfl rfl rfl rfl
  · split <;> exact .of_eq rfl rfl rfl rfl

theorem Alike.newSocket : Alike s s.newSocket := .of_eq rfl rfl rfl rfl

theorem Alike.report {r : SignalingState} : Alike s (s.report r) := .of_eq rfl rfl rfl rfl

theorem Kept.connectSignaling (h : s.Kept) (closes : Bool) : (s.connectSignaling closes).Kept := by
  have hreport : (s.report .connecting).Kept := h.alike .report
  unfold WebRTCTransport.connectSignaling
  split
  · exact h
  · cases closes with
    | false => exact hreport.alike .newSocket
    | true => exact (close_spec hreport).1.alike .newSocket

/-- **Step lemma.** -/
theorem Kept.move (h : s.Kept) (hm : Move a s s') : s'.Kept := by
  cases hm with
  | aside => exact h.alike (.of_eq rfl rfl rfl rfl)
  | say => exact h.alike .sigSend
  | touch hf =>
    refine h.alike (.onPeer fun p hp => ?_)
    obtain ⟨h1, h2, h3, -, -⟩ := hf p hp
    unfold Peer.core
    rw [h1, h2, h3]
  | use hf => exact h.alike (.onChannel hf)
  | goOn => exact h.alike (.of_eq rfl rfl rfl rfl)
  | begin => exact h.alike (.of_eq rfl rfl rfl rfl)
  | addPeer _ hl => exact h.addPeer hl
  | newChannel hk hp => exact h.newChannel hk hp
  | dropPeer id => exact h.dropPeer
  | opened => exact h.alike (.of_eq rfl rfl rfl rfl)
  | closing i => exact h.alike (.of_eq rfl rfl rfl rfl)
  | @closed i r code =>
    have hsocket : Alike s (s.onSocket i fun ws => { ws with readyState := .closed }) :=
      .of_eq rfl rfl rfl rfl
    exact h.alike (hsocket.trans .onClose)
  | @timer n closes =>
    have htimers : Alike s { s with timers := s.timers.eraseIdx n } := .of_eq rfl rfl rfl rfl
    exact (h.alike htimers).connectSignaling closes
  | close => exact (close_spec h).1

/-! ## After `close()` -/

/-- A transport that is closed has no peer. -/
def Shut (s : WebRTCTransport) : Prop := s.closed = true → ∀ id, s.peers.get id = none

/-- No message of the server is delivered after `close()`. -/
def Unheard (s : WebRTCTransport) (a : Action) : Prop :=
  s.closed = true → ∀ i msg, a ≠ .message i msg

/-- A message comes on an open socket only, as the standard has it, and `onSignalingState`, told
of `connecting`, does not call `close()`. -/
def Standard (s : WebRTCTransport) (a : Action) : Prop :=
  Unclosing a ∧ ∀ i msg, a = .message i msg → s.readyState i = some .opened

/-- Then no message is delivered after `close()`. -/
theorem along_unheard {space deviceId : JsString} {acts : List Action}
    (h : Runs.Along step Standard (new space deviceId) acts) :
    Runs.Along step Unheard (new space deviceId) acts := by
  have hline := h.strengthen (I := fun s => (∃ m r, s.line.At m r) ∧ s.Released)
    (fun s a ha hI => ⟨(step_moves s a).keeps (I := fun s => ∃ m r, s.line.At m r)
        (fun _ _ hm h => hm.keeps_at h) hI.1,
      (step_moves s a).keeps (I := Released) (fun _ _ hm h => h.move hm ha.1) hI.2⟩)
    ⟨⟨0, .connecting, at_new⟩, fun hc => by cases hc⟩
  refine hline.mono fun s a hs hc i msg he => ?_
  obtain ⟨⟨-, hmessage⟩, ⟨m, r, hat⟩, hreleased⟩ := hs
  obtain ⟨ws, hws, hopen⟩ := Option.map_eq_some_iff.1 (hmessage i msg he)
  rcases hreleased.not_open hat hc ws (List.mem_of_getElem? hws) with hr | hr
  · rw [hopen] at hr
    cases hr
  · rw [hopen] at hr
    cases hr

theorem closed_newChannel : (s.newChannel k id).closed = s.closed :=
  congrArg Line.closed line_newChannel

theorem peers_newChannel : (s.newChannel k id).peers = s.peers := by
  unfold newChannel attachChannel
  split <;> rfl

theorem closed_dropPeer : (s.dropPeer id).closed = s.closed := congrArg Line.closed line_dropPeer

/-- Only a message brings a peer. -/
theorem Shut.move (h : s.Shut) (hk : s.Kept) (hm : Move a s s')
    (ha : ∀ i msg, a ≠ .message i msg) : s'.Shut := by
  cases hm with
  | aside | touch | use | goOn | begin | closing | opened => exact h
  | say =>
    unfold Shut
    rw [made_sigSend.2.2.2.2, made_sigSend.2.2.1]
    exact h
  | addPeer hmessage => exact absurd hmessage (ha _ _)
  | newChannel =>
    unfold Shut
    rw [closed_newChannel, peers_newChannel]
    exact h
  | dropPeer id =>
    unfold Shut
    rw [closed_dropPeer]
    intro hc id'
    rw [peers_dropPeer, h hc, ite_self]
  | closed =>
    unfold onClose
    split
    · exact h
    · split <;> exact h
  | @timer n closes =>
    unfold connectSignaling
    split
    · exact h
    · cases closes with
      | false => exact h
      | true =>
        have hreport : ({ s with timers := s.timers.eraseIdx n }.report .connecting).Kept :=
          hk.alike (.of_eq rfl rfl rfl rfl)
        exact fun _ => (close_spec hreport).2
  | close => exact fun _ => (close_spec hk).2

/-- A message closes nothing. -/
theorem Move.closed_of_message {msg : Option Signaling.Reply} (hm : Move (.message i msg) s s') :
    s'.closed = s.closed := by
  cases hm with
  | aside | touch | use | goOn | begin | addPeer | closing | opened => rfl
  | say => exact made_sigSend.2.2.2.2
  | newChannel => exact closed_newChannel
  | dropPeer => exact closed_dropPeer
  | closed =>
    unfold onClose
    split
    · rfl
    · split <;> rfl
  | timer ha => cases ha
  | close ha => exact absurd rfl (ha _ _)

theorem Shut.step (h : s.Shut) (hk : s.Kept) (ha : Unheard s a) : (s.step a).Shut := by
  have hmoves := step_moves s a
  by_cases hmessage : ∃ i msg, a = .message i msg
  · obtain ⟨i, msg, rfl⟩ := hmessage
    have hopen : s.closed = false := Bool.eq_false_iff.2 fun hc => ha hc i msg rfl
    have hstill : (s.step (.message i msg)).closed = false :=
      hmoves.keeps (I := fun s => s.closed = false)
        (fun _ _ hm hc => hm.closed_of_message.trans hc) hopen
    exact fun hc => absurd (hstill.symm.trans hc) Bool.false_ne_true
  · push Not at hmessage
    exact (hmoves.keeps (I := fun s => s.Kept ∧ s.Shut)
      (fun _ _ hm h => ⟨h.1.move hm, h.2.move h.1 hm hmessage⟩) ⟨hk, h⟩).2

theorem Kept.step (h : s.Kept) (a : Action) : (s.step a).Kept :=
  (step_moves s a).keeps (fun _ _ hm h => h.move hm) h

theorem kept_new (space deviceId : JsString) : (new space deviceId).Kept := by
  refine ⟨fun hk => ?_, fun hk => ?_, fun hc => ?_, fun hk => ?_⟩
  · cases hk
  · cases hk
  · cases hc
  · cases hk

/-- **No connection is lost sight of.** In every run of the transport a connection is open exactly
while its peer is the one `peers` has under its id, which is neither empty nor the device's own; so
there is at most one for each id. No channel outlives its connection, and a peer has a channel of
its own connection only. After `close()` every connection ever made is closed, if no message of the
server is delivered then. -/
theorem connections_kept (space deviceId : JsString) (acts : List Action) :
    (after space deviceId acts).Kept ∧
      (Runs.Along step Unheard (new space deviceId) acts →
        (after space deviceId acts).closed = true →
          ∀ p ∈ (after space deviceId acts).made, p.closed = true) := by
  have hkept : (after space deviceId acts).Kept :=
    Runs.run_invariant (fun _ a h => h.step a) (kept_new space deviceId) acts
  refine ⟨hkept, fun hacts hc p hp => ?_⟩
  have hshut : (after space deviceId acts).Kept ∧ (after space deviceId acts).Shut :=
    hacts.invariant (I := fun s => s.Kept ∧ s.Shut)
      (fun s a ha h => ⟨h.1.step a, h.2.step h.1 ha⟩)
      ⟨kept_new space deviceId, Bool.noConfusion⟩
  obtain ⟨k, hk⟩ := List.mem_iff_getElem?.1 hp
  by_contra hopen
  have hcurrent := hkept.current hk (Bool.eq_false_iff.2 hopen)
  rw [hshut.2 hc] at hcurrent
  cases hcurrent

/-- The transport joins, hears of a peer and is closed. -/
def joinedAndClosed : List Action :=
  [.opened 0 false, .message 0 (some (.peers [js "b"])), .close]

theorem connections_kept_sample : (after (js "s") (js "a") joinedAndClosed).made.length = 1 ∧
    ∀ p ∈ (after (js "s") (js "a") joinedAndClosed).made, p.closed = true := by
  obtain ⟨-, hclosed⟩ := connections_kept (js "s") (js "a") joinedAndClosed
  refine ⟨by decide, hclosed ⟨?_, ?_, ?_, trivial⟩ (by decide)⟩
  · exact fun hc => by cases hc
  · exact fun hc => absurd hc (by decide)
  · exact fun _ _ _ => Action.noConfusion

/-- A socket that is closing delivers one more message, and a connection is made that stays. -/
example : (after (js "s") (js "a")
    (joinedAndClosed ++ [.message 0 (some (.peerJoined (js "c")))])).made.map Peer.closed =
      [true, false] := by decide

end WebRTCTransport

end TangentFeed.WebRtc
