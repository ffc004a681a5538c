import Mathlib.Data.Fintype.Basic
import TangentFeed.Network.Inversion

/-!
# What makes a replica send

The messages by their type: which handler sends which, and that a handler only
waits a few more times. Everything else that is sent is the live tail on a local
write. All of it holds in any configuration.
-/

namespace TangentFeed

open SyncEngine

variable {cr : Crypto}

/-! ## Devices and events -/

/-- A reply of the same device, with an event as `P` says. -/
structure Reply.Keeps {α : Type} (e : SyncEngine) (P : ChangeEvent → Prop) (r : Reply α) : Prop where
  device : r.engine.deviceId = e.deviceId
  event : ∀ {ev : ChangeEvent}, r.event = some ev → P ev

/-- A local write of the device of `e`. -/
def Written (e : SyncEngine) (ev : ChangeEvent) : Prop :=
  ev.origin = .local ∧ ∀ o ∈ ev.ops, o.device = e.deviceId

def Remote (ev : ChangeEvent) : Prop := ev.origin = .remote

namespace Reply.Keeps

variable {α β : Type} {e m : SyncEngine} {P : ChangeEvent → Prop} {r : Reply α}

theorem quiet (h : m.deviceId = e.deviceId) (res : Except JsError α) :
    Keeps e P (.quiet m res) := ⟨h, nofun⟩

theorem map (h : Keeps e P r) (f : α → β) : Keeps e P (r.map f) := ⟨h.device, h.event⟩

theorem transact (h : m.deviceId = e.deviceId) (s : MemoryAdapter) : Keeps e P (m.transact s) := by
  unfold SyncEngine.transact
  split
  · exact ⟨h, nofun⟩
  · exact ⟨h, nofun⟩

theorem commit (h : m.deviceId = e.deviceId) {ops : List Op} {origin : Origin}
    (hp : P (changeEvent ops origin)) : Keeps e P (m.commit ops origin) := by
  have ht : Keeps e P (m.transact (m.storage.applyBatch (commitBatch m.storage ops m.clockState))) :=
    .transact h _
  unfold SyncEngine.commit
  simp only
  split
  · exact .quiet ht.device _
  · refine ⟨ht.device, fun {ev} he => ?_⟩
    rw [← Option.some.inj he]
    exact hp

end Reply.Keeps

namespace SyncEngine

theorem receiveClock_device (e : SyncEngine) (remote : Hlc) :
    (e.receiveClock remote).2.deviceId = e.deviceId := by
  change (e.clock.receive remote _).2.deviceId = e.clock.deviceId
  unfold HybridLogicalClock.receive
  split
  · rfl
  · exact HybridLogicalClock.rollover_deviceId _

theorem makeLocalOp_device {e : SyncEngine} {table row column : JsString} {value : Json} {op : Op}
    (h : (e.makeLocalOp cr table row column value).1 = .ok op) : op.device = e.deviceId := by
  have hm := e.makeLocalOp_moved cr table row column value
  unfold makeLocalOp at h hm
  simp only at h hm
  cases hn : (e.clock.now (e.env.physicalClock e.asked)).1 with
  | error err => rw [hn] at h; cases h
  | ok t =>
    simp only [hn] at h hm
    split at h
    · cases h
    · obtain rfl := Except.ok.inj h
      have hs := storedValue_moved
        { e with clock := (e.clock.now (e.env.physicalClock e.asked)).2, asked := e.asked + 1 }
        column value (encodeHlc t)
      exact hs.1.device.trans (now_moved e (e.asked + 1) (e.env.physicalClock e.asked)).device

theorem makeLocalOps_device {table row : JsString} {values : List (JsString × Json)}
    {e : SyncEngine} {ops : List Op} (h : (e.makeLocalOps cr table row values).1 = .ok ops) :
    ∀ o ∈ ops, o.device = e.deviceId := by
  induction values generalizing e ops with
  | nil =>
    obtain rfl := Except.ok.inj h
    exact fun o ho => by cases ho
  | cons v values ih =>
    unfold makeLocalOps at h
    simp only at h
    split at h
    · cases h
    · rename_i op hop
      cases hr : ((e.makeLocalOp cr table row v.1 v.2).2.makeLocalOps cr table row values).1 with
      | error err => rw [hr] at h; cases h
      | ok rest =>
        rw [hr] at h
        obtain rfl := Except.ok.inj h
        intro o ho
        rcases List.mem_cons.1 ho with rfl | ho
        · exact makeLocalOp_device hop
        · exact (ih hr o ho).trans (e.makeLocalOp_moved cr table row v.1 v.2).device

/-- A local write of the columns `values`. -/
theorem localWrite_keeps {e m : SyncEngine} (hd : m.deviceId = e.deviceId) (table row : JsString)
    (values : List (JsString × Json)) :
    let made := m.makeLocalOps cr table row values
    Reply.Keeps e (Written e) (match made.1 with
      | .error err => .quiet made.2 (.error err)
      | .ok ops => made.2.commit ops .local : Reply Unit) := by
  have hmove := (makeLocalOps_moved cr table row values m).device.trans hd
  simp only
  split
  · exact .quiet hmove _
  · rename_i ops hok
    exact .commit hmove ⟨rfl, fun o ho => (makeLocalOps_device hok o ho).trans hd⟩

theorem insert_keeps (e : SyncEngine) (table : JsString) (values : Record) :
    (e.insert cr table values).Keeps e (Written e) := by
  unfold insert
  simp only
  split
  · exact ⟨rfl, nofun⟩
  · have hd : ({ e with asked := e.asked + 2 } : SyncEngine).deviceId = e.deviceId := rfl
    exact .map (localWrite_keeps hd _ _ _) _

theorem mergeAdmitted_keeps (e : SyncEngine) (ops : List Op) :
    (e.mergeAdmitted ops).Keeps e Remote := by
  have hr : (e.receiveMax ops).2.deviceId = e.deviceId := by
    unfold receiveMax
    split
    · rfl
    · split
      · rfl
      · exact e.receiveClock_device _
  unfold mergeAdmitted
  simp only
  split
  · exact .quiet hr _
  · split
    · exact .map (.transact hr _) _
    · exact .map (.commit (P := Remote) hr rfl) _

theorem applyRemoteOps_keeps (e : SyncEngine) (remoteOps : List Json) :
    (e.applyRemoteOps cr remoteOps).Keeps e Remote := by
  unfold applyRemoteOps
  split
  · exact .quiet rfl _
  · exact e.mergeAdmitted_keeps _

theorem observeRemoteClock_keeps (e : SyncEngine) (hlc : JsString) :
    (e.observeRemoteClock hlc).Keeps e Remote := by
  unfold observeRemoteClock
  split
  · exact .quiet rfl _
  · simp only
    split
    · exact .quiet (e.receiveClock_device _) _
    · exact .transact (e.receiveClock_device _) _

theorem recordPeerFrontier_keeps (e : SyncEngine) (peer : JsString) (f : Frontier) :
    (e.recordPeerFrontier peer f).Keeps e Remote := by
  unfold recordPeerFrontier
  split
  · exact .quiet rfl _
  · exact .transact rfl _

theorem compact_keeps (e : SyncEngine) (opts : CompactionOptions) :
    (e.compact opts).Keeps e Remote := by
  unfold compact
  simp only
  split
  · exact .map (.transact rfl _) _
  · exact .quiet rfl _

theorem learnKeys_device (e : SyncEngine) (l : List (JsString × Bytes)) :
    (learnKeys cr e l).deviceId = e.deviceId := by
  obtain ⟨keys, h⟩ := learnKeys_frame cr l e
  rw [h]
  rfl

end SyncEngine

/-- The local writes. -/
def Call.writes : Call → Bool
  | insert .. | update .. | delete .. => true
  | applyRemoteOps .. | observeRemoteClock .. | recordPeerFrontier .. | learnKey .. | compact ..
  | subscribe .. | unsubscribe .. => false

/-- **A call keeps the device**, and only a local write has a local event. -/
theorem Call.run_keeps (cr : Crypto) (c : Call) (e : SyncEngine) :
    (c.run cr e).Keeps e (if c.writes then Written e else Remote) := by
  cases c with
  | insert table values => exact .map (e.insert_keeps table values) _
  | update table row values => exact localWrite_keeps rfl _ _ _
  | delete table row => exact localWrite_keeps rfl _ _ _
  | applyRemoteOps ops => exact .map (e.applyRemoteOps_keeps ops) _
  | observeRemoteClock hlc => exact e.observeRemoteClock_keeps hlc
  | recordPeerFrontier peer f => exact e.recordPeerFrontier_keeps peer f
  | learnKey id key =>
    refine .quiet ?_ _
    unfold SyncEngine.learnKey
    split
    · rfl
    · rfl
  | compact opts => exact .map (e.compact_keeps opts) _
  | subscribe s =>
    refine .quiet ?_ _
    unfold SyncEngine.subscribe
    split
    · rfl
    · rfl
  | unsubscribe id =>
    have hd : (e.unsubscribe id).deviceId = e.deviceId := rfl
    exact .quiet hd _

/-! ## Messages by type -/

/-- The `t` of a message. -/
inductive MsgType where
  | hello
  | keys
  | since
  | ops
  | ack
  deriving DecidableEq

instance : Fintype MsgType := ⟨{.hello, .keys, .since, .ops, .ack}, by intro ty; cases ty <;> decide⟩

def MsgBody.t : MsgBody → MsgType
  | hello .. => .hello
  | keys .. => .keys
  | since .. => .since
  | ops .. => .ops
  | ack .. => .ack

namespace Handler

/-- The type of the message it is for; a greeting is for none. -/
def t : Handler → Option MsgType
  | greetSend _ => none
  | helloObserve .. | helloGreet _ | helloSendGreet .. | helloKeys _ | helloFrontier _
  | helloSince .. => some .hello
  | sinceRecord .. | sinceRead .. | sinceKeys .. | sinceSend .. => some .since
  | opsApply .. | opsFrontier _ | opsAck .. => some .ops
  | ackRecord .. => some .ack

/-- The stretches it has left at most. -/
def rank : Handler → Nat
  | greetSend _ => 1
  | helloObserve .. => 6
  | helloGreet _ => 5
  | helloSendGreet .. => 4
  | helloKeys _ => 3
  | helloFrontier _ => 2
  | helloSince .. => 1
  | sinceRecord .. => 4
  | sinceRead .. => 3
  | sinceKeys .. => 2
  | sinceSend .. => 1
  | opsApply .. => 3
  | opsFrontier _ => 2
  | opsAck .. => 1
  | ackRecord .. => 1

/-- The type of what it sends next. -/
def speaks : Handler → Option MsgType
  | greetSend _ | helloSendGreet .. => some .hello
  | helloKeys _ | sinceKeys .. => some .keys
  | helloSince .. => some .since
  | sinceSend .. => some .ops
  | opsAck .. => some .ack
  | helloObserve .. | helloGreet _ | helloFrontier _ | sinceRecord .. | sinceRead .. | opsApply ..
  | opsFrontier _ | ackRecord .. => none

theorem rank_pos (c : Handler) : 0 < c.rank := by cases c <;> exact Nat.succ_pos _

/-- But for a greeting, what is sent is of a later type than what it is for. -/
theorem t_of_speaks {c : Handler} {ty : MsgType} (h : c.speaks = some ty) :
    ty = .hello ∨ c.t = some .hello ∨ c.t = some .since ∧ (ty = .keys ∨ ty = .ops) ∨
      c.t = some .ops ∧ ty = .ack := by
  cases c with
  | greetSend => exact .inl (Option.some.inj h).symm
  | helloSendGreet => exact .inl (Option.some.inj h).symm
  | helloKeys => exact .inr (.inl rfl)
  | helloSince => exact .inr (.inl rfl)
  | sinceKeys => exact .inr (.inr (.inl ⟨rfl, .inl (Option.some.inj h).symm⟩))
  | sinceSend => exact .inr (.inr (.inl ⟨rfl, .inr (Option.some.inj h).symm⟩))
  | opsAck => exact .inr (.inr (.inr ⟨rfl, (Option.some.inj h).symm⟩))
  | _ => cases h

end Handler

def Source.t : Source → Option MsgType
  | message msg => some msg.body.t
  | waiting c => c.t

namespace Node

variable {n : Node} {src : Source}

/-- What is left waiting is for the same message. -/
theorem Leaves.t {c : Handler} (hl : Leaves cr n src c) : c.t = src.t := by
  cases hl with
  | hello hs hc =>
    have ht : src.t = some .hello := by
      cases src with
      | message msg =>
        obtain ⟨clock, key, hb⟩ := hs
        unfold Source.t
        simp only [hb]
        rfl
      | waiting c =>
        change c.t = _
        cases c <;> first | rfl | exact hs.elim
    rw [ht]
    cases c <;> first | rfl | exact hc.elim
  | sinceRecord hb =>
    unfold Source.t
    simp only [hb]
    rfl
  | opsApply hb =>
    unfold Source.t
    simp only [hb]
    rfl
  | ackRecord hb =>
    unfold Source.t
    simp only [hb]
    rfl
  | _ => rfl

/-- **A handler gets nearer to its end.** -/
theorem resume_rank {c c' : Handler} (h : (n.resume c).outcome = .wait c') : c'.rank < c.rank := by
  cases c with
  | helloObserve sender clock =>
    obtain ⟨-, -, h⟩ := calling_outcome h nofun
    obtain rfl := Outcome.wait.inj h
    simp [Handler.rank]
  | helloGreet sender =>
    unfold resume at h
    simp only at h
    split at h
    · obtain rfl := Outcome.wait.inj h
      simp [Handler.rank]
    · obtain rfl := Outcome.wait.inj h
      simp [Handler.rank]
  | sinceRecord sender f =>
    obtain ⟨-, -, h⟩ := calling_outcome h nofun
    obtain rfl := Outcome.wait.inj h
    simp [Handler.rank]
  | sinceRead sender f =>
    unfold resume still at h
    simp only at h
    split at h
    · cases h
    · obtain rfl := Outcome.wait.inj h
      simp [Handler.rank]
  | opsApply sender ops =>
    obtain ⟨k, -, h⟩ := calling_outcome h nofun
    split at h
    · obtain rfl := Outcome.wait.inj h
      simp [Handler.rank]
    · cases h
  | ackRecord sender f =>
    obtain ⟨-, -, h⟩ := calling_outcome h nofun
    cases h
  | greetSend => cases h
  | helloSince => cases h
  | sinceSend => cases h
  | opsAck => cases h
  | _ =>
    obtain rfl := Outcome.wait.inj h
    simp [Handler.rank]

/-- **Only a handler that waits to send does.** -/
theorem stretch_speaks {b : MsgBody} (h : b ∈ (n.stretch cr src).sent) :
    ∃ c, src = .waiting c ∧ c.speaks = some b.t := by
  have one {b' : MsgBody} {c : Handler} (h : b ∈ [b']) (hc : c.speaks = some b'.t) :
      ∃ c', Source.waiting c = .waiting c' ∧ c'.speaks = some b.t := by
    rw [List.mem_singleton.1 h]
    exact ⟨c, rfl, hc⟩
  cases src with
  | message msg =>
    obtain ⟨v, space, sender, body⟩ := msg
    cases body with
    | ops receiver js =>
      unfold stretch handle at h
      simp only at h
      split at h
      · cases h
      · split at h <;> cases h
    | _ => cases h
  | waiting c =>
    cases c with
    | greetSend clock => exact one h rfl
    | helloSendGreet sender clock => exact one h rfl
    | helloKeys sender => exact one h rfl
    | helloSince sender f => exact one h rfl
    | sinceKeys sender missing => exact one h rfl
    | opsAck sender f => exact one h rfl
    | sinceSend sender missing =>
      obtain ⟨c, -, rfl⟩ := List.mem_map.1 h
      exact ⟨_, rfl, rfl⟩
    | helloGreet sender =>
      unfold stretch resume at h
      simp only at h
      split at h <;> cases h
    | _ => cases h

theorem stretch_keeps (cr : Crypto) (n : Node) (src : Source) :
    (n.stretch cr src).reply.Keeps n.engine Remote := by
  have calling {α : Type} {r : Reply α} {ok : α → Outcome} (h : r.Keeps n.engine Remote) :
      (n.calling r ok).reply.Keeps n.engine Remote := h.map _
  have learned (e : SyncEngine) (id : JsString) (key : Bytes) :
      (e.learnKey cr id key).2.deviceId = e.deviceId := by
    unfold SyncEngine.learnKey
    split
    · rfl
    · rfl
  have learnedAll (keys : List (JsString × JsString)) (e : SyncEngine) :
      (learnAll cr e keys).deviceId = e.deviceId := by
    induction keys generalizing e with
    | nil => rfl
    | cons k keys ih => exact (ih _).trans (learned e _ _)
  cases src with
  | message msg =>
    obtain ⟨v, space, sender, body⟩ := msg
    cases body with
    | hello clock key =>
      cases key with
      | none => exact ⟨rfl, nofun⟩
      | some k => exact ⟨learned _ _ _, nofun⟩
    | keys receiver keys => exact ⟨learnedAll _ _, nofun⟩
    | since receiver f => exact ⟨rfl, nofun⟩
    | ack receiver f => exact ⟨rfl, nofun⟩
    | ops receiver js =>
      unfold stretch handle
      simp only
      split
      · exact ⟨rfl, nofun⟩
      · split
        · exact ⟨rfl, nofun⟩
        · exact ⟨rfl, nofun⟩
  | waiting c =>
    cases c with
    | helloObserve sender clock => exact calling (n.engine.observeRemoteClock_keeps clock)
    | sinceRecord sender f => exact calling (n.engine.recordPeerFrontier_keeps sender f)
    | ackRecord sender f => exact calling (n.engine.recordPeerFrontier_keeps sender f)
    | opsApply sender ops => exact calling (n.engine.mergeAdmitted_keeps ops)
    | helloGreet sender =>
      unfold stretch resume
      simp only
      split
      · exact ⟨rfl, nofun⟩
      · exact ⟨rfl, nofun⟩
    | _ => exact ⟨rfl, nofun⟩

end Node

/-! ## On the network -/

namespace Config

variable {ι : Type} [DecidableEq ι] {space : JsString} {w w' : Config ι} {a : Action ι} {j : ι}
  {r : Reply Unit}

omit [DecidableEq ι] in
/-- **Only a local write has a local event.** -/
theorem Acts.keeps (ha : Acts cr space w j a r) :
    (∃ c, a = .call j c ∧ c.writes = true ∧ r = c.run cr (w.node j).engine) ∨
      r.Keeps (w.node j).engine Remote := by
  cases ha with
  | same => exact .inr (.quiet rfl _)
  | @call c =>
    cases hc : c.writes with
    | true => exact .inl ⟨c, rfl, hc, rfl⟩
    | false =>
      have hk := c.run_keeps cr (w.node j).engine
      rw [hc] at hk
      exact .inr hk
  | learn => exact .inr (.quiet (learnKeys_device _ _) _)
  | start => exact .inr ((Call.subscribe _).run_keeps cr _)
  | stop => exact .inr ((Call.unsubscribe _).run_keeps cr _)
  | sync hk ht =>
    refine .inr ?_
    cases ht with
    | applyB => exact .map (applyRemoteOps_keeps _ _) _
    | applyA => exact .map (applyRemoteOps_keeps _ _) _
    | recordA => exact recordPeerFrontier_keeps _ _ _
    | recordB => exact recordPeerFrontier_keeps _ _ _
    | readFrontier | readA | readB | skipB | skipA | ackB | ackA => exact .quiet rfl _
  | turn ht => exact .inr (Node.stretch_keeps _ _ _)

omit [DecidableEq ι] in
theorem Acts.device (ha : Acts cr space w j a r) :
    r.engine.deviceId = (w.node j).engine.deviceId := by
  rcases ha.keeps with ⟨c, -, -, rfl⟩ | hk
  · exact (c.run_keeps cr _).device
  · exact hk.device

/-- A replica keeps its device until it is opened again. -/
theorem Shape.device (hs : Shape cr space w a w')
    (hr : ∀ opts seed, a ≠ .reopen j opts seed) :
    (w'.node j).engine.deviceId = (w.node j).engine.deviceId := by
  rcases hs.evolves j with ⟨r, he⟩ | ⟨opts, seed, e, hre⟩
  · rw [he.engine]
    exact he.acts.device
  · exact absurd hre.action (hr opts seed)

/-- **What is sent** is what a local write made, or what a handler waited to send. -/
theorem Sends.cases {b : MsgBody} (h : Sends cr space w a w' j b) :
    (∃ c ev, a = .call j c ∧ c.writes = true ∧
      (c.run cr (w.node j).engine).event = some ev ∧ Written (w.node j).engine ev ∧
      b ∈ Node.liveTail ev) ∨
    ∃ h c, Ran cr space w a w' j h (.waiting c) ∧ c.speaks = some b.t ∧
      b ∈ ((w.node j).resume c).sent := by
  cases h with
  | @tail r ev b he hev hb =>
    rcases he.acts.keeps with ⟨c, rfl, hc, rfl⟩ | hk
    · have hw := c.run_keeps cr (w.node j).engine
      rw [if_pos hc] at hw
      exact .inl ⟨c, ev, rfl, hc, hev, hw.event hev, hb⟩
    · have hne : ev.origin ≠ .local := by
        rw [show ev.origin = .remote from hk.event hev]
        nofun
      unfold Node.liveTail at hb
      rw [if_pos (.inl hne)] at hb
      cases hb
  | said hran hb =>
    obtain ⟨c, rfl, hc⟩ := Node.stretch_speaks hb
    exact .inr ⟨_, c, hran, hc, hb⟩

end Config

end TangentFeed
