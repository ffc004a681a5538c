import TangentFeed.Network.Base
import TangentFeed.Replica.VeiledCalls

/-!
# A network and its encrypted twin

The same run on two deployments, one whose replicas have no cipher and one whose
replicas share one. `Config.Veiled` relates the two configurations: what waits and
what was sent holds related operations, and the histories tell of the same rows.
-/

namespace TangentFeed

open Std SyncEngine

/-! ## Messages and handlers -/

/-- The same message, with related operations. -/
inductive MsgBody.Veiled (c : Cipher) : MsgBody → MsgBody → Prop where
  | hello (clock : JsString) (key : Option JsString) : Veiled c (.hello clock key) (.hello clock key)
  | keys (receiver : Option JsString) (keys : JsMap JsString) :
      Veiled c (.keys receiver keys) (.keys receiver keys)
  | since (receiver : JsString) (f : Frontier) : Veiled c (.since receiver f) (.since receiver f)
  | ops (receiver : Option JsString) {ops ops' : List Op} : List.Forall₂ (Op.Veiled c) ops ops' →
      Veiled c (.ops receiver (ops.map Op.raw)) (.ops receiver (ops'.map Op.raw))
  | ack (receiver : JsString) (f : Frontier) : Veiled c (.ack receiver f) (.ack receiver f)

structure WireMsg.Veiled (c : Cipher) (msg msg' : WireMsg) : Prop where
  v : msg.v = msg'.v
  space : msg.space = msg'.space
  sender : msg.sender = msg'.sender
  body : msg.body.Veiled c msg'.body

/-- The operations a handler holds. -/
def Handler.held : Handler → Option (List Op)
  | sinceKeys _ missing | sinceSend _ missing => some missing
  | opsApply _ ops => some ops
  | greetSend _ | helloObserve _ _ | helloGreet _ | helloSendGreet _ _ | helloKeys _
  | helloFrontier _ | helloSince _ _ | sinceRecord _ _ | sinceRead _ _ | opsFrontier _
  | opsAck _ _ | ackRecord _ _ => none

inductive Handler.Veiled (c : Cipher) : Handler → Handler → Prop where
  | same {h : Handler} : h.held = none → Veiled c h h
  | sinceKeys (sender : JsString) {ops ops' : List Op} : List.Forall₂ (Op.Veiled c) ops ops' →
      Veiled c (.sinceKeys sender ops) (.sinceKeys sender ops')
  | sinceSend (sender : JsString) {ops ops' : List Op} : List.Forall₂ (Op.Veiled c) ops ops' →
      Veiled c (.sinceSend sender ops) (.sinceSend sender ops')
  | opsApply (sender : JsString) {ops ops' : List Op} : List.Forall₂ (Op.Veiled c) ops ops' →
      Veiled c (.opsApply sender ops) (.opsApply sender ops')

inductive Outcome.Veiled (c : Cipher) : Outcome → Outcome → Prop where
  | wait {h h' : Handler} : h.Veiled c h' → Veiled c (.wait h) (.wait h')
  | done : Veiled c .done .done

structure Stretch.Veiled (c : Cipher) (s s' : Stretch) : Prop where
  reply : s.reply.Veiled c s'.reply
  peers : s.peers = s'.peers
  sent : List.Forall₂ (MsgBody.Veiled c) s.sent s'.sent
  outcome : s.outcome.Veiled c s'.outcome

structure Node.Veiled (c : Cipher) (n n' : Node) : Prop where
  engine : n.engine.Veiled c n'.engine
  started : n.started = n'.started
  peers : n.peers = n'.peers
  pending : ExtTreeMap.Rel (Handler.Veiled c) n.pending n'.pending
  nextId : n.nextId = n'.nextId

variable {cr : Crypto} {space : JsString} {c : Cipher}

theorem chunks_forall₂ {α β : Type} {R : α → β → Prop} {l : List α} {l' : List β}
    (h : List.Forall₂ R l l') (size : Nat) :
    List.Forall₂ (List.Forall₂ R) (chunks size l) (chunks size l') := by
  unfold chunks
  rw [h.length_eq]
  generalize List.range _ = is
  induction is with
  | nil => exact .nil
  | cons i is ih => exact .cons (List.forall₂_take _ (List.forall₂_drop _ h)) ih

/-- Operations sent in chunks. -/
theorem chunks_veiled {ops ops' : List Op} (h : List.Forall₂ (Op.Veiled c) ops ops')
    (receiver : Option JsString) :
    List.Forall₂ (MsgBody.Veiled c)
      ((chunks opsPerMessage ops).map fun chunk => .ops receiver (chunk.map Op.raw))
      ((chunks opsPerMessage ops').map fun chunk => .ops receiver (chunk.map Op.raw)) :=
  List.rel_map (fun _ _ hchunk => .ops receiver hchunk) (chunks_forall₂ h opsPerMessage)

theorem MsgBody.Veiled.addressee {b b' : MsgBody} (h : b.Veiled c b') : b.addressee = b'.addressee := by
  cases h <;> rfl

/-! ## Stretches -/

/-- The readings a handler takes. -/
def Handler.readings (n : Node) : Handler → List Int
  | helloObserve _ clock => n.engine.observeReadings clock
  | opsApply _ ops => n.engine.mergeReadings ops
  | greetSend _ | helloGreet _ | helloSendGreet _ _ | helloKeys _ | helloFrontier _
  | helloSince _ _ | sinceRecord _ _ | sinceRead _ _ | sinceKeys _ _ | sinceSend _ _
  | opsFrontier _ | opsAck _ _ | ackRecord _ _ => []

namespace Node.Veiled

variable {n n' : Node}

theorem latestHlc (h : n.Veiled c n') : n.latestHlc = n'.latestHlc := by
  unfold Node.latestHlc
  have hlast := (h.engine.storage.opsSince ∅).getLast?
  unfold SyncEngine.opsSince
  generalize (n.engine.storage.opsSince ∅).getLast? = x at hlast ⊢
  generalize (n'.engine.storage.opsSince ∅).getLast? = y at hlast ⊢
  cases hlast with
  | none => simp only [h.engine.deviceId]
  | some hab => exact hab.hlc

theorem helloBody (h : n.Veiled c n') (clock : JsString) :
    (n.helloBody clock).Veiled c (n'.helloBody clock) := by
  unfold Node.helloBody
  rw [h.engine.deviceKey]
  exact .hello ..

theorem keysBody (h : n.Veiled c n') (receiver : JsString) :
    (n.keysBody receiver).Veiled c (n'.keysBody receiver) := by
  unfold Node.keysBody
  rw [h.engine.keys]
  exact .keys ..

theorem accepts (h : n.Veiled c n') {msg msg' : WireMsg} (hm : msg.Veiled c msg') :
    n.accepts space msg = n'.accepts space msg' := by
  unfold Node.accepts
  rw [h.started, hm.space, hm.v, hm.sender, h.engine.deviceId, hm.body.addressee]

/-- A stretch that only reads. -/
theorem still (h : n.Veiled c n') {sent sent' : List MsgBody}
    (hs : List.Forall₂ (MsgBody.Veiled c) sent sent') {out out' : Outcome} (ho : out.Veiled c out') :
    (n.still sent out).Veiled c (n'.still sent' out') :=
  ⟨.quiet h.engine _, h.peers, hs, ho⟩

/-- A stretch that makes a call. -/
theorem calling (h : n.Veiled c n') {α : Type} {r r' : Reply α} (hr : r.Veiled c r') {x : α}
    (hx : r.result = .ok x) {ok ok' : α → Outcome} (ho : (ok x).Veiled c (ok' x)) :
    (n.calling r ok).Veiled c (n'.calling r' ok') where
  reply := hr.map _
  peers := h.peers
  sent := .nil
  outcome := by
    unfold Node.calling
    simp only [← hr.result, hx]
    exact ho

end Node.Veiled

/-- A handler that goes on had its call resolved. -/
theorem Node.calling_ok {n : Node} {α : Type} {r : Reply α} {ok : α → Outcome}
    (h : (n.calling r ok).outcome ≠ .failed) : ∃ x, r.result = .ok x := by
  unfold Node.calling at h
  cases hr : r.result with
  | ok x => exact ⟨x, rfl⟩
  | error err =>
    simp only [hr] at h
    exact absurd rfl h

theorem learnAll_veiled {e e' : SyncEngine} (h : e.Veiled c e') (keys : List (JsString × JsString)) :
    (Node.learnAll cr e keys).Veiled c (Node.learnAll cr e' keys) := by
  induction keys generalizing e e' with
  | nil => exact h
  | cons k keys ih => exact ih (learnKey_veiled h k.1 (unhex k.2))

/-- **The first stretch of a handler.** -/
theorem Node.Veiled.handle {n n' : Node} (h : n.Veiled c n') {msg msg' : WireMsg}
    (hm : msg.Veiled c msg') (hok : (n.handle cr msg).outcome ≠ .failed)
    (hok' : (n'.handle cr msg').outcome ≠ .failed) :
    (n.handle cr msg).Veiled c (n'.handle cr msg') := by
  obtain ⟨v, sp, sender, body⟩ := msg
  obtain ⟨_, _, _, body'⟩ := msg'
  obtain ⟨rfl, rfl, rfl, hb⟩ := hm
  unfold Node.handle at hok hok' ⊢
  cases hb with
  | hello clock key =>
    refine ⟨.quiet ?_ _, h.peers, .nil, .wait (.same rfl)⟩
    cases key with
    | none => exact h.engine
    | some k => exact learnKey_veiled h.engine sender (unhex k)
  | keys receiver keys =>
    exact ⟨.quiet (learnAll_veiled h.engine _) _, h.peers, .nil, .done⟩
  | since receiver f =>
    exact ⟨.quiet h.engine _, by rw [h.peers], .nil, .wait (.same rfl)⟩
  | ack receiver f =>
    exact ⟨.quiet h.engine _, by rw [h.peers], .nil, .wait (.same rfl)⟩
  | @ops receiver ops ops' ho =>
    have hempty : (ops.map Op.raw).isEmpty = (ops'.map Op.raw).isEmpty := by
      rw [List.isEmpty_map, List.isEmpty_map, ho.isEmpty_eq]
    simp only [← hempty] at hok hok' ⊢
    split at hok
    · rename_i he
      rw [if_pos he, if_pos he]
      exact h.still .nil .done
    · rename_i he
      rw [if_neg he] at hok' ⊢
      rw [if_neg he]
      cases hb : n.engine.checkBatch cr (ops.map Op.raw) with
      | error err => simp only [hb] at hok; exact absurd rfl hok
      | ok checked =>
        cases hb' : n'.engine.checkBatch cr (ops'.map Op.raw) with
        | error err => simp only [hb'] at hok'; exact absurd rfl hok'
        | ok checked' =>
          obtain rfl := List.map_injective_iff.2 (fun _ _ => Op.ext) (checkBatch_eq_ok hb).1
          obtain rfl := List.map_injective_iff.2 (fun _ _ => Op.ext) (checkBatch_eq_ok hb').1
          exact h.still .nil (.wait (.opsApply sender ho))

/-- **A later stretch of a handler**, with the same readings. -/
theorem Node.Veiled.resume {n n' : Node} (h : n.Veiled c n') {w w' : Handler} (hw : w.Veiled c w')
    (hin : w.readings n = w'.readings n') (hok : (n.resume w).outcome ≠ .failed)
    (hok' : (n'.resume w').outcome ≠ .failed) : (n.resume w).Veiled c (n'.resume w') := by
  cases hw with
  | sinceKeys sender ho => exact h.still (.cons (h.keysBody sender) .nil) (.wait (.sinceSend sender ho))
  | sinceSend sender ho => exact h.still (chunks_veiled ho (some sender)) .done
  | @opsApply sender ops ops' ho =>
    obtain ⟨x, hx⟩ := Node.calling_ok hok
    obtain ⟨x', hx'⟩ := Node.calling_ok hok'
    refine h.calling (mergeAdmitted_veiled h.engine ho hin hx hx') hx ?_
    split
    · exact .wait (.same rfl)
    · exact .done
  | @same w hnone =>
    cases w with
    | greetSend clock => exact h.still (.cons (h.helloBody clock) .nil) .done
    | helloObserve sender clock =>
      obtain ⟨x, hx⟩ := Node.calling_ok hok
      obtain ⟨x', hx'⟩ := Node.calling_ok hok'
      exact h.calling (observeRemoteClock_veiled h.engine clock hin hx hx') hx (.wait (.same rfl))
    | helloGreet sender =>
      unfold Node.resume
      simp only [← h.peers, ← h.latestHlc]
      split
      · exact h.still .nil (.wait (.same rfl))
      · exact ⟨.quiet h.engine _, rfl, .nil, .wait (.same rfl)⟩
    | helloSendGreet sender clock =>
      exact h.still (.cons (h.helloBody clock) .nil) (.wait (.same rfl))
    | helloKeys sender => exact h.still (.cons (h.keysBody sender) .nil) (.wait (.same rfl))
    | helloFrontier sender =>
      have hf : n.engine.frontier = n'.engine.frontier := h.engine.storage.frontier
      unfold Node.resume
      simp only [hf]
      exact h.still .nil (.wait (.same rfl))
    | helloSince sender f => exact h.still (.cons (.since ..) .nil) .done
    | sinceRecord sender f =>
      obtain ⟨x, hx⟩ := Node.calling_ok hok
      obtain ⟨x', hx'⟩ := Node.calling_ok hok'
      exact h.calling (recordPeerFrontier_veiled h.engine sender f hx hx') hx (.wait (.same rfl))
    | sinceRead sender f =>
      have ho : List.Forall₂ (Op.Veiled c) (n.engine.opsSince f) (n'.engine.opsSince f) :=
        h.engine.storage.opsSince f
      refine h.still .nil ?_
      rw [ho.isEmpty_eq]
      split
      · exact .done
      · exact .wait (.sinceKeys sender ho)
    | opsFrontier sender =>
      have hf : n.engine.frontier = n'.engine.frontier := h.engine.storage.frontier
      unfold Node.resume
      simp only [hf]
      exact h.still .nil (.wait (.same rfl))
    | opsAck sender f => exact h.still (.cons (.ack ..) .nil) .done
    | ackRecord sender f =>
      obtain ⟨x, hx⟩ := Node.calling_ok hok
      obtain ⟨x', hx'⟩ := Node.calling_ok hok'
      exact h.calling (recordPeerFrontier_veiled h.engine sender f hx hx') hx .done
    | sinceKeys | sinceSend | opsApply => cases hnone

theorem liveTail_veiled {ev ev' : ChangeEvent} (h : ev.Veiled c ev') :
    List.Forall₂ (MsgBody.Veiled c) (Node.liveTail ev) (Node.liveTail ev') := by
  unfold Node.liveTail
  rw [← h.origin, ← h.ops.isEmpty_eq]
  split
  · exact .nil
  · exact chunks_veiled h.ops none

/-! ## Configurations -/

/-- The same stage, with related operations. -/
inductive SyncStage.Veiled (c : Cipher) : SyncStage → SyncStage → Prop where
  | readFrontier (fa : Frontier) : Veiled c (.readFrontier fa) (.readFrontier fa)
  | readA (fa fb : Frontier) : Veiled c (.readA fa fb) (.readA fa fb)
  | readB (fa : Frontier) {aToB aToB' : List Op} : List.Forall₂ (Op.Veiled c) aToB aToB' →
      Veiled c (.readB fa aToB) (.readB fa aToB')
  | applyB {aToB aToB' bToA bToA' : List Op} : List.Forall₂ (Op.Veiled c) aToB aToB' →
      List.Forall₂ (Op.Veiled c) bToA bToA' → Veiled c (.applyB aToB bToA) (.applyB aToB' bToA')
  | applyA {bToA bToA' : List Op} : List.Forall₂ (Op.Veiled c) bToA bToA' →
      Veiled c (.applyA bToA) (.applyA bToA')
  | ackB : Veiled c .ackB .ackB
  | recordA (fb : Frontier) : Veiled c (.recordA fb) (.recordA fb)
  | ackA : Veiled c .ackA .ackA
  | recordB (fa : Frontier) : Veiled c (.recordB fa) (.recordB fa)

variable {ι : Type}

structure Sync.Veiled (c : Cipher) (s s' : Sync ι) : Prop where
  a : s.a = s'.a
  b : s.b = s'.b
  stage : s.stage.Veiled c s'.stage

inductive Event.Veiled (c : Cipher) : Event ι → Event ι → Prop where
  | committed (i : ι) {ev ev' : ChangeEvent} : ev.Veiled c ev' →
      Veiled c (.committed i ev) (.committed i ev')
  | handling (i : ι) (h : Nat) {msg msg' : WireMsg} : msg.Veiled c msg' →
      Veiled c (.handling i h msg) (.handling i h msg')
  | sent (i : ι) (h : Option Nat) {msg msg' : WireMsg} : msg.Veiled c msg' →
      Veiled c (.sent i h msg) (.sent i h msg')
  | finished (i : ι) (h : Nat) : Veiled c (.finished i h) (.finished i h)
  | syncing (k : Nat) (i j : ι) : Veiled c (.syncing k i j) (.syncing k i j)
  | synced (k : Nat) : Veiled c (.synced k) (.synced k)

structure Config.Veiled (c : Cipher) (w w' : Config ι) : Prop where
  node : ∀ i, (w.node i).Veiled c (w'.node i)
  sent : List.Forall₂ (WireMsg.Veiled c) w.sent w'.sent
  syncs : ExtTreeMap.Rel (Sync.Veiled c) w.syncs w'.syncs
  nextSync : w.nextSync = w'.nextSync
  trace : List.Forall₂ (Event.Veiled c) w.trace w'.trace

namespace Config.Veiled

variable [DecidableEq ι] {w w' : Config ι} (h : w.Veiled c w')
include h

theorem setNode (i : ι) {n n' : Node} (hn : n.Veiled c n') :
    (w.setNode i n).Veiled c (w'.setNode i n') where
  node j := by
    change Node.Veiled c (Function.update w.node i n j) (Function.update w'.node i n' j)
    by_cases hj : j = i
    · subst hj
      rw [Function.update_self, Function.update_self]
      exact hn
    · rw [Function.update_of_ne hj, Function.update_of_ne hj]
      exact h.node j
  sent := h.sent
  syncs := h.syncs
  nextSync := h.nextSync
  trace := h.trace

omit [DecidableEq ι] in
theorem note {ev ev' : Event ι} (he : ev.Veiled c ev') : (w.note ev).Veiled c (w'.note ev') where
  node := h.node
  sent := h.sent
  syncs := h.syncs
  nextSync := h.nextSync
  trace := List.rel_append h.trace (.cons he .nil)

omit [DecidableEq ι] in
theorem emit (i : ι) (hd : Option Nat) {b b' : MsgBody} (hb : b.Veiled c b') :
    (Config.emit space i hd w b).Veiled c (Config.emit space i hd w' b') := by
  have hmsg : WireMsg.Veiled c ⟨wireVersion, space, (w.node i).engine.deviceId, b⟩
      ⟨wireVersion, space, (w'.node i).engine.deviceId, b'⟩ :=
    ⟨rfl, rfl, (h.node i).engine.deviceId, hb⟩
  exact ⟨h.node, List.rel_append h.sent (.cons hmsg .nil), h.syncs, h.nextSync,
    List.rel_append h.trace (.cons (.sent i hd hmsg) .nil)⟩

omit [DecidableEq ι] in
theorem emitAll (i : ι) (hd : Option Nat) {bs bs' : List MsgBody}
    (hb : List.Forall₂ (MsgBody.Veiled c) bs bs') :
    (bs.foldl (Config.emit space i hd) w).Veiled c (bs'.foldl (Config.emit space i hd) w') :=
  hb.foldl (P := Config.Veiled c) (fun hw hab => hw.emit i hd hab) h

/-- What an engine call leaves. -/
theorem settle {α : Type} (i : ι) {r r' : Reply α} (hr : r.Veiled c r') :
    (w.settle space i r).Veiled c (w'.settle space i r') := by
  have hn := h.node i
  have hnode : (w.setNode i { w.node i with engine := r.engine }).Veiled c
      (w'.setNode i { w'.node i with engine := r'.engine }) := by
    refine h.setNode i ?_
    exact ⟨hr.engine, hn.started, hn.peers, hn.pending, hn.nextId⟩
  have hev := hr.event
  unfold Config.settle
  simp only
  rw [← hr.received]
  generalize r.event = ev at hev ⊢
  generalize r'.event = ev' at hev ⊢
  cases hev with
  | none => exact hnode
  | some hev =>
    refine (hnode.note (.committed i hev)).emitAll i none ?_
    split
    · exact liveTail_veiled hev
    · exact .nil

/-- What a stretch of a handler leaves. -/
theorem advance (i : ι) (hd : Nat) {s s' : Stretch} (hs : s.Veiled c s') :
    (w.advance space i hd s).Veiled c (w'.advance space i hd s') := by
  have hsent : (s.sent.foldl (Config.emit space i (some hd)) (w.settle space i s.reply)).Veiled c
      (s'.sent.foldl (Config.emit space i (some hd)) (w'.settle space i s'.reply)) :=
    (h.settle i hs.reply).emitAll i (some hd) hs.sent
  have hn := hsent.node i
  have ho := hs.outcome
  unfold Config.advance
  simp only
  generalize s.outcome = out at ho ⊢
  generalize s'.outcome = out' at ho ⊢
  cases ho with
  | wait hw =>
    refine hsent.setNode i ?_
    exact ⟨hn.engine, hn.started, hs.peers, hn.pending.insert hd hw, hn.nextId⟩
  | done =>
    refine (hsent.setNode i ?_).note (.finished i hd)
    exact ⟨hn.engine, hn.started, hs.peers, hn.pending.erase hd, hn.nextId⟩

/-- `handle` on a message, where it does not throw. -/
theorem receive (i : ι) {msg msg' : WireMsg} (hm : msg.Veiled c msg')
    (hok : (w.node i).accepts space msg = true → ((w.node i).handle cr msg).outcome ≠ .failed)
    (hok' : (w'.node i).accepts space msg' = true →
      ((w'.node i).handle cr msg').outcome ≠ .failed) :
    (w.receive cr space i msg).Veiled c (w'.receive cr space i msg') := by
  have hn := h.node i
  unfold Config.receive
  simp only [← hn.accepts hm, ← hn.nextId]
  split
  · rename_i hacc
    rw [hn.accepts hm] at hacc
    have hstretch := hn.handle hm (hok (by rw [hn.accepts hm, hacc])) (hok' hacc)
    refine ((h.setNode i ?_).note (.handling i _ hm)).advance i _ hstretch
    exact ⟨hn.engine, hn.started, hn.peers, hn.pending, rfl⟩
  · exact h

theorem greet (i : ι) : (w.greet i).Veiled c (w'.greet i) := by
  have hn := h.node i
  unfold Config.greet
  simp only [← hn.latestHlc, ← hn.nextId]
  refine h.setNode i ?_
  exact ⟨hn.engine, hn.started, hn.peers, hn.pending.insert _ (.same rfl), rfl⟩

/-! ## `syncOnce` -/

theorem shareKeys (a b : ι) : (w.shareKeys cr space a b).Veiled c (w'.shareKeys cr space a b) := by
  unfold Config.shareKeys
  refine h.settle b (.quiet ?_ _)
  rw [← (h.node a).engine.keys]
  have hb := (h.node b).engine
  generalize (w.node a).engine.keys.toList = keys
  generalize (w.node b).engine = e at hb ⊢
  generalize (w'.node b).engine = e' at hb ⊢
  induction keys generalizing e e' with
  | nil => exact hb
  | cons k keys ih => exact ih _ _ (learnKey_veiled hb k.1 k.2)

theorem startSync (a b : ι) : (w.startSync cr space a b).Veiled c (w'.startSync cr space a b) := by
  have hs : ((w.shareKeys cr space a b).shareKeys cr space b a).Veiled c
      ((w'.shareKeys cr space a b).shareKeys cr space b a) :=
    (h.shareKeys a b).shareKeys b a
  unfold Config.startSync
  simp only
  generalize (w.shareKeys cr space a b).shareKeys cr space b a = v at hs ⊢
  generalize (w'.shareKeys cr space a b).shareKeys cr space b a = v' at hs ⊢
  have hf : SyncStage.Veiled c (.readFrontier (v.node a).engine.frontier)
      (.readFrontier (v'.node a).engine.frontier) := by
    have heq : (v.node a).engine.frontier = (v'.node a).engine.frontier :=
      (hs.node a).engine.storage.frontier
    rw [heq]
    exact .readFrontier _
  rw [← hs.nextSync]
  exact ⟨hs.node, hs.sent, hs.syncs.insert _ ⟨rfl, rfl, hf⟩, rfl,
    List.rel_append hs.trace (.cons (.syncing ..) .nil)⟩

omit [DecidableEq ι] in
theorem stage (k : Nat) (a b : ι) {st st' : Option SyncStage}
    (hs : Option.Rel (SyncStage.Veiled c) st st') :
    (w.stage k a b st).Veiled c (w'.stage k a b st') := by
  cases hs with
  | none =>
    exact ⟨h.node, h.sent, h.syncs.erase k, h.nextSync,
      List.rel_append h.trace (.cons (.synced k) .nil)⟩
  | some hst => exact ⟨h.node, h.sent, h.syncs.insert k ⟨rfl, rfl, hst⟩, h.nextSync, h.trace⟩

theorem stageCall {α : Type} (k : Nat) (a b i : ι) {r r' : Reply α} (hr : r.Veiled c r') {x : α}
    (hx : r.result = .ok x) {st st' : Option SyncStage}
    (hs : Option.Rel (SyncStage.Veiled c) st st') :
    (w.stageCall space k a b i r st).Veiled c (w'.stageCall space k a b i r' st') := by
  unfold Config.stageCall
  simp only [← hr.result, hx]
  exact (h.settle i hr).stage k a b hs

end Config.Veiled

/-! ## Steps -/

/-- What did not resolve. -/
def Event.isRejection : Event ι → Bool
  | failed .. | unsynced _ => true
  | committed .. | opened _ | handling .. | sent .. | finished .. | syncing .. | synced _ => false

/-- An action of a run: the application writes, reads and compacts, and the replicas
exchange what they have. -/
def Action.Ordinary : Action ι → Prop
  | call _ c => c.Ordinary
  | reopen .. | inject .. => False
  | syncOnce .. | resumeSync _ | start _ | stop _ | peerConnect _ | deliver .. | resume .. => True

namespace Config

variable [DecidableEq ι]

/-- The readings a stretch of `syncOnce` takes. -/
def syncReadings (w : Config ι) (s : Sync ι) : List Int :=
  match s.stage with
  | .applyB aToB _ => (w.node s.b).engine.mergeReadings aToB
  | .applyA bToA => (w.node s.a).engine.mergeReadings bToA
  | .readFrontier _ | .readA .. | .readB .. | .ackB | .recordA _ | .ackA | .recordB _ => []

/-- What an action takes from outside. -/
def inputs (cr : Crypto) (w : Config ι) : Action ι → Inputs
  | .call i c => c.inputs cr (w.node i).engine
  | .resumeSync k =>
    match w.syncs[k]? with
    | some s => ⟨w.syncReadings s, none⟩
    | none => ⟨[], none⟩
  | .resume i h =>
    match (w.node i).pending[h]? with
    | some handler => ⟨handler.readings (w.node i), none⟩
    | none => ⟨[], none⟩
  | .reopen .. | .syncOnce .. | .start _ | .stop _ | .peerConnect _ | .deliver .. | .inject .. =>
    ⟨[], none⟩

/-- No call of the action rejects: not that of the application, nor one of a handler or
of `syncOnce`. -/
structure Resolves (cr : Crypto) (space : JsString) (w : Config ι) (a : Action ι) : Prop where
  call : ∀ {i : ι} {c : Call}, a = .call i c → (c.run cr (w.node i).engine).result = .ok ()
  trace : ∀ e ∈ (w.step cr space a).trace, e.isRejection = false

/-- Both configurations take the action alike, with the same answers from outside, and no
call rejects. -/
structure InStep (cr : Crypto) (space : JsString) (w : Config ι × Config ι) (a : Action ι) :
    Prop where
  ordinary : a.Ordinary
  inputs : w.1.inputs cr a = w.2.inputs cr a
  resolves : w.1.Resolves cr space a
  resolves' : w.2.Resolves cr space a

variable {w w' : Config ι} {i : ι} {a : Action ι}

/-- A handler that failed is in the trace. -/
theorem outcome_ne_failed {hd : Nat} {s : Stretch}
    (h : ∀ e ∈ (w.advance space i hd s).trace, e.isRejection = false) : s.outcome ≠ .failed := by
  intro hf
  have hmem : Event.failed i hd ∈ (w.advance space i hd s).trace := by
    rw [advance_eq, hf]
    exact List.mem_append_right _ (List.mem_append_right _ List.mem_cons_self)
  cases h _ hmem

theorem handle_ne_failed {msg : WireMsg} (hacc : (w.node i).accepts space msg = true)
    (h : ∀ e ∈ (w.receive cr space i msg).trace, e.isRejection = false) :
    ((w.node i).handle cr msg).outcome ≠ .failed := by
  unfold receive at h
  simp only [hacc, if_true] at h
  exact outcome_ne_failed h

theorem stageCall_ok {α : Type} {k : Nat} {a b : ι} {r : Reply α} {st : Option SyncStage}
    (h : ∀ e ∈ (w.stageCall space k a b i r st).trace, e.isRejection = false) :
    ∃ x, r.result = .ok x := by
  cases hr : r.result with
  | ok x => exact ⟨x, rfl⟩
  | error err =>
    have hmem : Event.unsynced k ∈ (w.stageCall space k a b i r st).trace := by
      unfold stageCall
      simp only [hr]
      exact List.mem_append_right _ List.mem_cons_self
    cases h _ hmem

/-- A stretch of `syncOnce`, with the same readings. -/
theorem Veiled.resumeSync (h : w.Veiled c w') (k : Nat) {s s' : Sync ι} (hs : s.Veiled c s')
    (hin : w.syncReadings s = w'.syncReadings s')
    (hr : ∀ e ∈ (w.resumeSync cr space k s).trace, e.isRejection = false)
    (hr' : ∀ e ∈ (w'.resumeSync cr space k s').trace, e.isRejection = false) :
    (w.resumeSync cr space k s).Veiled c (w'.resumeSync cr space k s') := by
  obtain ⟨x, y, st⟩ := s
  obtain ⟨_, _, st'⟩ := s'
  obtain ⟨rfl, rfl, hst⟩ := hs
  have hx := (h.node x).engine
  have hy := (h.node y).engine
  have hfx : (w.node x).engine.frontier = (w'.node x).engine.frontier := hx.storage.frontier
  have hfy : (w.node y).engine.frontier = (w'.node y).engine.frontier := hy.storage.frontier
  unfold Config.resumeSync at hr hr' ⊢
  cases hst with
  | readFrontier fa =>
    simp only [hfy]
    exact h.stage k x y (.some (.readA ..))
  | readA fa fb => exact h.stage k x y (.some (.readB fa (hx.storage.opsSince fb)))
  | readB fa hl => exact h.stage k x y (.some (.applyB hl (hy.storage.opsSince fa)))
  | applyB hl hl' =>
    simp only [← hl.isEmpty_eq] at hr hr' ⊢
    split at hr
    · rename_i he
      rw [if_pos he, if_pos he]
      exact h.stage k x y (.some (.applyA hl'))
    · rename_i he
      rw [if_neg he] at hr' ⊢
      rw [if_neg he]
      obtain ⟨n, hn⟩ := stageCall_ok hr
      obtain ⟨n', hn'⟩ := stageCall_ok hr'
      exact h.stageCall k x y y (applyRemoteOps_veiled hy hl hin hn hn') hn (.some (.applyA hl'))
  | applyA hl =>
    simp only [← hl.isEmpty_eq] at hr hr' ⊢
    split at hr
    · rename_i he
      rw [if_pos he, if_pos he]
      exact h.stage k x y (.some .ackB)
    · rename_i he
      rw [if_neg he] at hr' ⊢
      rw [if_neg he]
      obtain ⟨n, hn⟩ := stageCall_ok hr
      obtain ⟨n', hn'⟩ := stageCall_ok hr'
      exact h.stageCall k x y x (applyRemoteOps_veiled hx hl hin hn hn') hn (.some .ackB)
  | ackB =>
    simp only [hfy]
    exact h.stage k x y (.some (.recordA _))
  | recordA fb =>
    obtain ⟨n, hn⟩ := stageCall_ok hr
    obtain ⟨n', hn'⟩ := stageCall_ok hr'
    simp only [← hy.deviceId] at hn' ⊢
    exact h.stageCall k x y x (recordPeerFrontier_veiled hx _ fb hn hn') hn (.some .ackA)
  | ackA =>
    simp only [hfx]
    exact h.stage k x y (.some (.recordB _))
  | recordB fa =>
    obtain ⟨n, hn⟩ := stageCall_ok hr
    obtain ⟨n', hn'⟩ := stageCall_ok hr'
    simp only [← hx.deviceId] at hn' ⊢
    exact h.stageCall k x y y (recordPeerFrontier_veiled hy _ fa hn hn') hn .none

/-- **Every step keeps the relation.** -/
theorem Veiled.step (h : w.Veiled c w') (hc : c.Inverts) (hs : InStep cr space (w, w') a) :
    (w.step cr space a).Veiled c (w'.step cr space a) := by
  have hin := hs.inputs
  have hr := hs.resolves
  have hr' := hs.resolves'
  cases a with
  | call i call =>
    have hcall := Call.run_veiled (h.node i).engine hc hs.ordinary hin (hr.call rfl) (hr'.call rfl)
    exact h.settle i hcall
  | reopen i opts seed => exact hs.ordinary.elim
  | inject i msg => exact hs.ordinary.elim
  | syncOnce i j =>
    unfold Config.step
    simp only
    split
    · exact h
    · exact h.startSync i j
  | resumeSync k =>
    have hr := hr.trace
    have hr' := hr'.trace
    unfold Config.step at hr hr' ⊢
    unfold Config.inputs at hin
    rcases h.syncs.cases k with ⟨hn, hn'⟩ | ⟨s, s', hk, hk', hss⟩
    · simp only [hn, hn']
      exact h
    · simp only [hk, hk'] at hr hr' hin ⊢
      exact h.resumeSync k hss (congrArg Inputs.readings hin) hr hr'
  | start i =>
    unfold Config.step
    have hn := h.node i
    simp only [← hn.started]
    split
    · exact h
    · refine (h.setNode i ?_).greet i
      exact ⟨subscribe_veiled hn.engine _ _ rfl, rfl, hn.peers, hn.pending, hn.nextId⟩
  | stop i =>
    have hn := h.node i
    refine h.setNode i ?_
    exact ⟨unsubscribe_veiled hn.engine _, rfl, rfl, hn.pending, hn.nextId⟩
  | peerConnect i =>
    unfold Config.step
    simp only [← (h.node i).started]
    split
    · exact h.greet i
    · exact h
  | deliver i k =>
    have hr := hr.trace
    have hr' := hr'.trace
    unfold Config.step at hr hr' ⊢
    have hmsg := h.sent.getElem? k
    simp only at hr hr' ⊢
    generalize w.sent[k]? = msg at hr hmsg ⊢
    generalize w'.sent[k]? = msg' at hr' hmsg ⊢
    cases hmsg with
    | none => exact h
    | some hm =>
      exact h.receive i hm (fun hacc => handle_ne_failed hacc hr) fun hacc => handle_ne_failed hacc hr'
  | resume i hd =>
    have hr := hr.trace
    have hr' := hr'.trace
    unfold Config.step at hr hr' ⊢
    unfold Config.inputs at hin
    rcases (h.node i).pending.cases hd with ⟨hn, hn'⟩ | ⟨x, x', hk, hk', hxx⟩
    · simp only [hn, hn']
      exact h
    · simp only [hk, hk'] at hr hr' hin ⊢
      exact h.advance i hd ((h.node i).resume hxx (congrArg Inputs.readings hin)
        (outcome_ne_failed hr) (outcome_ne_failed hr'))

/-! ## Runs -/

omit [DecidableEq ι] in
/-- Two deployments of the same devices, without and with the cipher. -/
theorem Veiled.initial {d d' : Deployment cr ι} (hseed : d'.seed = d.seed)
    (hplain : ∀ i, (d.opts i).cipher = none) (hcipher : ∀ i, (d'.opts i).cipher = some c) :
    d.initial.Veiled c d'.initial where
  node i := by
    have hkey : d'.seed i = d.seed i := congrFun hseed i
    have hengine : (SyncEngine.opened cr (d.opts i) (d.seed i)).Veiled c
        (SyncEngine.opened cr (d'.opts i) (d'.seed i)) := by
      rw [hkey]
      exact ⟨⟨.empty, ExtTreeMap.Rel.empty, rfl, rfl⟩, rfl, rfl, rfl, rfl, hplain i, hcipher i⟩
    exact ⟨hengine, rfl, rfl, .empty, rfl⟩
  sent := .nil
  syncs := .empty
  nextSync := rfl
  trace := .nil

end Config

end TangentFeed
