import TangentFeed.Core.Network
import TangentFeed.Replica.Run

/-!
# What a stretch of a handler can do

A stretch starts at a message or at an `await` (`Source`). The lemmas say what
it can leave waiting, what it can send, what its engine call can do and where it
ends a handler.
-/

namespace TangentFeed

variable {cr : Crypto}

/-- Where a stretch starts. -/
inductive Source where
  | message (msg : WireMsg)
  | waiting (c : Handler)

/-- A slice holds what the list holds. -/
theorem mem_of_mem_chunks {α : Type} {size : Nat} {arr c : List α} (hc : c ∈ chunks size arr)
    {x : α} (hx : x ∈ c) : x ∈ arr := by
  obtain ⟨i, -, rfl⟩ := List.mem_map.1 hc
  exact List.mem_of_mem_drop (List.mem_of_mem_take hx)

/-- Everything is in some slice. -/
theorem exists_mem_chunks {α : Type} {size : Nat} (hs : 0 < size) {arr : List α} {x : α}
    (hx : x ∈ arr) : ∃ c ∈ chunks size arr, x ∈ c := by
  obtain ⟨k, hk, rfl⟩ := List.mem_iff_getElem.1 hx
  have h1 : k / size < (arr.length + size - 1) / size := by
    rw [Nat.div_lt_iff_lt_mul hs]
    have h2 := Nat.div_add_mod (arr.length + size - 1) size
    have h3 := Nat.mod_lt (arr.length + size - 1) hs
    rw [Nat.mul_comm] at h2
    omega
  refine ⟨_, List.mem_map.2 ⟨k / size, List.mem_range.2 h1, rfl⟩, ?_⟩
  have h2 := Nat.div_add_mod k size
  have h3 := Nat.mod_lt k hs
  rw [Nat.mul_comm] at h2
  refine List.mem_iff_getElem.2 ⟨k % size, ?_, ?_⟩
  · rw [List.length_take, List.length_drop]
    omega
  · rw [List.getElem_take, List.getElem_drop]
    congr 1

theorem mem_liveTail {ev : ChangeEvent} {b : MsgBody} (hb : b ∈ Node.liveTail ev) :
    ∃ c ∈ chunks opsPerMessage ev.ops, b = .ops none (c.map Op.raw) := by
  unfold Node.liveTail at hb
  split at hb
  · cases hb
  · obtain ⟨c, hc, rfl⟩ := List.mem_map.1 hb
    exact ⟨c, hc, rfl⟩

theorem SyncEngine.recordPeerFrontier_event {e : SyncEngine} {peer : JsString} {f : Frontier} :
    (e.recordPeerFrontier peer f).event = none := by
  unfold recordPeerFrontier
  split
  · rfl
  · rcases e.transact_cases (e.storage.setPeerFrontier peer f) with h | h <;> (rw [h]; rfl)

theorem SyncEngine.observeRemoteClock_event {e : SyncEngine} {hlc : JsString} :
    (e.observeRemoteClock hlc).event = none := by
  unfold observeRemoteClock
  cases decodeHlc hlc with
  | error _ => rfl
  | ok remote =>
    simp only
    cases (e.receiveClock remote).1 with
    | error _ => rfl
    | ok _ =>
      simp only
      rcases (e.receiveClock remote).2.transact_cases
        ((e.receiveClock remote).2.storage.applyBatch (e.receiveClock remote).2.clockBatch) with
        h | h <;> (rw [h]; rfl)

/-! ## Learning many keys -/

namespace SyncEngine

def learnKeys (cr : Crypto) (e : SyncEngine) (l : List (JsString × Bytes)) : SyncEngine :=
  l.foldl (fun e k => (e.learnKey cr k.1 k.2).2) e

/-- Learning changes the directory only. -/
theorem learnKey_frame (cr : Crypto) (e : SyncEngine) (id : JsString) (k : Bytes) :
    ∃ keys, (e.learnKey cr id k).2 = { e with keys := keys } := by
  unfold learnKey
  split
  · exact ⟨e.keys, rfl⟩
  · exact ⟨_, rfl⟩

theorem learnKeys_frame (cr : Crypto) (l : List (JsString × Bytes)) (e : SyncEngine) :
    ∃ keys, learnKeys cr e l = { e with keys := keys } := by
  induction l generalizing e with
  | nil => exact ⟨e.keys, rfl⟩
  | cons k l ih =>
    obtain ⟨m, hm⟩ := e.learnKey_frame cr k.1 k.2
    obtain ⟨m', hm'⟩ := ih (e.learnKey cr k.1 k.2).2
    refine ⟨m', ?_⟩
    change learnKeys cr (e.learnKey cr k.1 k.2).2 l = _
    rw [hm', hm]

theorem Effect.learnKeys (l : List (JsString × Bytes)) {e : SyncEngine} (hi : Identity cr e) :
    Effect cr e (SyncEngine.learnKeys cr e l) .write none := by
  induction l generalizing e with
  | nil => exact .idle hi (.refl e)
  | cons k l ih =>
    have h1 := Effect.learnKey hi k.1 k.2
    have h2 := ih (h1.identity hi)
    obtain ⟨m, hm⟩ := learnKeys_frame cr (k :: l) e
    exact {
      deviceKey := h2.deviceKey.trans h1.deviceKey
      device := h2.device.trans h1.device
      cipher := h2.cipher.trans h1.cipher
      bounded := h2.bounded
      ticks := Nat.le_trans h1.ticks h2.ticks
      learned := fun h => (h2.learned h).elim h1.learned .inr
      known := fun h => h2.known (h1.known h)
      subscribers := h2.subscribers
      store := .idle (by rw [hm]) }

/-- A key that is its id's own is there after it is learned. -/
theorem learnKeys_known {l : List (JsString × Bytes)} {e : SyncEngine} (hi : Identity cr e)
    {d : JsString} {k : Bytes} (hm : (d, k) ∈ l) (hd : deviceIdFromPublicKey cr k = d) :
    (SyncEngine.learnKeys cr e l).keys[d]? ≠ none := by
  induction l generalizing e with
  | nil => cases hm
  | cons k' l ih =>
    have h1 := Effect.learnKey hi k'.1 k'.2
    rcases List.mem_cons.1 hm with rfl | hm
    · refine (Effect.learnKeys l (h1.identity hi)).known ?_
      unfold learnKey
      rw [if_neg (by simpa using hd)]
      simp only
      rw [Std.ExtTreeMap.getElem?_insert_self]
      exact Option.some_ne_none _
    · exact ih (h1.identity hi) hm

end SyncEngine

namespace Node

variable {n : Node} {src : Source}

theorem learnAll_eq (e : SyncEngine) (keys : List (JsString × JsString)) :
    learnAll cr e keys = e.learnKeys cr (keys.map fun k => (k.1, unhex k.2)) := by
  unfold learnAll SyncEngine.learnKeys
  rw [List.foldl_map]

def stretch (cr : Crypto) (n : Node) : Source → Stretch
  | .message msg => n.handle cr msg
  | .waiting c => n.resume c

end Node

/-- The places before a replica reads or writes anything the frontiers are about. -/
def Handler.plain : Handler → Prop
  | greetSend _ | helloObserve _ _ | helloGreet _ | helloSendGreet _ _ | helloKeys _
  | helloFrontier _ => True
  | helloSince .. | sinceRecord .. | sinceRead .. | sinceKeys .. | sinceSend .. | opsApply ..
  | opsFrontier .. | opsAck .. | ackRecord .. => False

/-- The places of a handler of `hello` before it reads the frontier. -/
def Handler.hello : Handler → Prop
  | helloObserve _ _ | helloGreet _ | helloSendGreet _ _ | helloKeys _ | helloFrontier _ => True
  | greetSend _ | helloSince .. | sinceRecord .. | sinceRead .. | sinceKeys .. | sinceSend ..
  | opsApply .. | opsFrontier .. | opsAck .. | ackRecord .. => False

theorem Handler.hello.plain {c : Handler} (h : c.hello) : c.plain := by
  cases c <;> trivial

def Source.hello : Source → Prop
  | message msg => ∃ clock key, msg.body = .hello clock key
  | waiting c => c.hello

namespace Node

variable {n : Node} {src : Source}

/-- What a stretch can leave waiting. -/
inductive Leaves (cr : Crypto) (n : Node) : Source → Handler → Prop where
  | hello {src : Source} {c : Handler} : src.hello → c.hello → Leaves cr n src c
  | helloSince {sender : JsString} :
      Leaves cr n (.waiting (.helloFrontier sender)) (.helloSince sender n.engine.frontier)
  | sinceRecord {msg : WireMsg} {receiver : JsString} {f : Frontier} :
      msg.body = .since receiver f → Leaves cr n (.message msg) (.sinceRecord msg.sender f)
  | sinceRead {sender : JsString} {f : Frontier} :
      Leaves cr n (.waiting (.sinceRecord sender f)) (.sinceRead sender f)
  | sinceKeys {sender : JsString} {f : Frontier} :
      Leaves cr n (.waiting (.sinceRead sender f)) (.sinceKeys sender (n.engine.opsSince f))
  | sinceSend {sender : JsString} {missing : List Op} :
      Leaves cr n (.waiting (.sinceKeys sender missing)) (.sinceSend sender missing)
  | opsApply {msg : WireMsg} {receiver : Option JsString} {js : List Json} {ops : List Op} :
      msg.body = .ops receiver js → n.engine.checkBatch cr js = .ok ops →
      Leaves cr n (.message msg) (.opsApply msg.sender ops)
  | opsFrontier {sender : JsString} {ops : List Op} {k : Nat} :
      (n.engine.mergeAdmitted ops).result = .ok k →
      Leaves cr n (.waiting (.opsApply sender ops)) (.opsFrontier sender)
  | opsAck {sender : JsString} :
      Leaves cr n (.waiting (.opsFrontier sender)) (.opsAck sender n.engine.frontier)
  | ackRecord {msg : WireMsg} {receiver : JsString} {f : Frontier} :
      msg.body = .ack receiver f → Leaves cr n (.message msg) (.ackRecord msg.sender f)

/-- What a stretch can send. -/
inductive Says (n : Node) : Source → MsgBody → Prop where
  | hello {src : Source} {clock : JsString} : Says n src (n.helloBody clock)
  | keys {sender : JsString} : Says n (.waiting (.helloKeys sender)) (n.keysBody sender)
  | since {sender : JsString} {f : Frontier} :
      Says n (.waiting (.helloSince sender f)) (.since sender f)
  | answerKeys {sender : JsString} {missing : List Op} :
      Says n (.waiting (.sinceKeys sender missing)) (n.keysBody sender)
  | answer {sender : JsString} {missing c : List Op} : c ∈ chunks opsPerMessage missing →
      Says n (.waiting (.sinceSend sender missing)) (.ops (some sender) (c.map Op.raw))
  | ack {sender : JsString} {f : Frontier} :
      Says n (.waiting (.opsAck sender f)) (.ack sender f)

/-- Where a handler can end. -/
inductive Ends (n : Node) : Source → Prop where
  | keys {msg : WireMsg} {receiver : Option JsString} {keys : JsMap JsString} :
      msg.body = .keys receiver keys → Ends n (.message msg)
  | noOps {msg : WireMsg} {receiver : Option JsString} :
      msg.body = .ops receiver [] → Ends n (.message msg)
  | greetSend {clock : JsString} : Ends n (.waiting (.greetSend clock))
  | helloSince {sender : JsString} {f : Frontier} : Ends n (.waiting (.helloSince sender f))
  | sinceRead {sender : JsString} {f : Frontier} :
      n.engine.opsSince f = [] → Ends n (.waiting (.sinceRead sender f))
  | sinceSend {sender : JsString} {missing : List Op} :
      Ends n (.waiting (.sinceSend sender missing))
  | opsApply {sender : JsString} {ops : List Op} {k : Nat} :
      (n.engine.mergeAdmitted ops).result = .ok k → Ends n (.waiting (.opsApply sender ops))
  | opsAck {sender : JsString} {f : Frontier} : Ends n (.waiting (.opsAck sender f))
  | ackRecord {sender : JsString} {f : Frontier} : Ends n (.waiting (.ackRecord sender f))

/-- What the engine call of a stretch can be for. -/
inductive Does (n : Node) : Source → SyncEngine.Deed → Option ChangeEvent → Prop where
  | write {src : Source} : Does n src .write none
  | merge {sender : JsString} {ops : List Op} : (n.engine.receiveMax ops).1 = .ok () →
      Does n (.waiting (.opsApply sender ops)) .write (some (SyncEngine.changeEvent (SyncEngine.freshOps n.engine.storage ops) .remote))
  | sinceRecord {sender : JsString} {f : Frontier} :
      Does n (.waiting (.sinceRecord sender f)) (.record sender f) none
  | ackRecord {sender : JsString} {f : Frontier} :
      Does n (.waiting (.ackRecord sender f)) (.record sender f) none

theorem calling_outcome {α : Type} {r : Reply α} {ok : α → Outcome} {out : Outcome}
    (h : (n.calling r ok).outcome = out) (hf : out ≠ .failed) :
    ∃ a, r.result = .ok a ∧ ok a = out := by
  unfold calling at h
  simp only at h
  cases hr : r.result with
  | error err => rw [hr] at h; exact absurd h.symm hf
  | ok a => rw [hr] at h; exact ⟨a, rfl, h⟩

/-- **What is left waiting.** -/
theorem leaves_of_wait {c : Handler} (h : (n.stretch cr src).outcome = .wait c) :
    Leaves cr n src c := by
  have calling {α : Type} {r : Reply α} {ok : α → Outcome}
      (h : (n.calling r ok).outcome = .wait c) : ∃ a, r.result = .ok a ∧ ok a = .wait c :=
    calling_outcome h (by simp)
  cases src with
  | message msg =>
    obtain ⟨v, space, sender, body⟩ := msg
    cases body with
    | hello clock key => obtain rfl := Outcome.wait.inj h; exact .hello ⟨clock, key, rfl⟩ trivial
    | keys receiver keys => cases h
    | since receiver f => obtain rfl := Outcome.wait.inj h; exact .sinceRecord rfl
    | ack receiver f => obtain rfl := Outcome.wait.inj h; exact .ackRecord rfl
    | ops receiver js =>
      unfold stretch handle at h
      simp only at h
      split at h
      · cases h
      · cases ha : n.engine.checkBatch cr js with
        | error err => rw [ha] at h; cases h
        | ok ops =>
          rw [ha] at h
          obtain rfl := Outcome.wait.inj h
          exact .opsApply rfl ha
  | waiting c' =>
    cases c' with
    | greetSend clock => cases h
    | helloObserve sender clock =>
      obtain ⟨_, -, h⟩ := calling h
      obtain rfl := Outcome.wait.inj h
      exact .hello trivial trivial
    | helloGreet sender =>
      unfold stretch resume at h
      simp only at h
      split at h <;> (obtain rfl := Outcome.wait.inj h; exact .hello trivial trivial)
    | helloSendGreet sender clock =>
      obtain rfl := Outcome.wait.inj h
      exact .hello trivial trivial
    | helloKeys sender =>
      obtain rfl := Outcome.wait.inj h
      exact .hello trivial trivial
    | helloFrontier sender => obtain rfl := Outcome.wait.inj h; exact .helloSince
    | helloSince sender f => cases h
    | sinceRecord sender f =>
      obtain ⟨_, -, h⟩ := calling h
      obtain rfl := Outcome.wait.inj h
      exact .sinceRead
    | sinceRead sender f =>
      unfold stretch resume still at h
      simp only at h
      split at h
      · cases h
      · obtain rfl := Outcome.wait.inj h
        exact .sinceKeys
    | sinceKeys sender missing => obtain rfl := Outcome.wait.inj h; exact .sinceSend
    | sinceSend sender missing => cases h
    | opsApply sender ops =>
      obtain ⟨k, hk, h⟩ := calling h
      split at h
      · obtain rfl := Outcome.wait.inj h
        exact .opsFrontier hk
      · cases h
    | opsFrontier sender => obtain rfl := Outcome.wait.inj h; exact .opsAck
    | opsAck sender f => cases h
    | ackRecord sender f =>
      obtain ⟨_, -, h⟩ := calling h
      cases h

/-- **What is sent.** -/
theorem says_of_sent {b : MsgBody} (h : b ∈ (n.stretch cr src).sent) : Says n src b := by
  have one {b' : MsgBody} (h : b ∈ [b']) : b = b' := List.mem_singleton.1 h
  cases src with
  | message msg =>
    obtain ⟨v, space, sender, body⟩ := msg
    cases body with
    | hello clock key => cases h
    | keys receiver keys => cases h
    | since receiver f => cases h
    | ack receiver f => cases h
    | ops receiver js =>
      unfold stretch handle at h
      simp only at h
      split at h
      · cases h
      · split at h <;> cases h
  | waiting c =>
    cases c with
    | greetSend clock => obtain rfl := one h; exact .hello
    | helloObserve sender clock => cases h
    | helloGreet sender =>
      unfold stretch resume at h
      simp only at h
      split at h <;> cases h
    | helloSendGreet sender clock => obtain rfl := one h; exact .hello
    | helloKeys sender => obtain rfl := one h; exact .keys
    | helloFrontier sender => cases h
    | helloSince sender f => obtain rfl := one h; exact .since
    | sinceRecord sender f => cases h
    | sinceRead sender f => cases h
    | sinceKeys sender missing => obtain rfl := one h; exact .answerKeys
    | sinceSend sender missing =>
      obtain ⟨c, hc, rfl⟩ := List.mem_map.1 h
      exact .answer hc
    | opsApply sender ops => cases h
    | opsFrontier sender => cases h
    | opsAck sender f => obtain rfl := one h; exact .ack
    | ackRecord sender f => cases h

/-- **Where it ends.** -/
theorem ends_of_done (h : (n.stretch cr src).outcome = .done) : Ends n src := by
  have calling {α : Type} {r : Reply α} {ok : α → Outcome}
      (h : (n.calling r ok).outcome = .done) : ∃ a, r.result = .ok a ∧ ok a = .done :=
    calling_outcome h (by simp)
  cases src with
  | message msg =>
    obtain ⟨v, space, sender, body⟩ := msg
    cases body with
    | hello clock key => cases h
    | keys receiver keys => exact .keys rfl
    | since receiver f => cases h
    | ack receiver f => cases h
    | ops receiver js =>
      unfold stretch handle at h
      simp only at h
      split at h
      · rename_i hjs
        obtain rfl : js = [] := List.isEmpty_iff.1 hjs
        exact .noOps rfl
      · split at h <;> cases h
  | waiting c =>
    cases c with
    | greetSend clock => exact .greetSend
    | helloObserve sender clock => obtain ⟨_, -, h⟩ := calling h; cases h
    | helloGreet sender =>
      unfold stretch resume at h
      simp only at h
      split at h <;> cases h
    | helloSendGreet sender clock => cases h
    | helloKeys sender => cases h
    | helloFrontier sender => cases h
    | helloSince sender f => exact .helloSince
    | sinceRecord sender f => obtain ⟨_, -, h⟩ := calling h; cases h
    | sinceRead sender f =>
      unfold stretch resume still at h
      simp only at h
      split at h
      · rename_i hm
        exact .sinceRead (List.isEmpty_iff.1 hm)
      · cases h
    | sinceKeys sender missing => cases h
    | sinceSend sender missing => exact .sinceSend
    | opsApply sender ops =>
      obtain ⟨k, hk, -⟩ := calling h
      exact .opsApply hk
    | opsFrontier sender => cases h
    | opsAck sender f => exact .opsAck
    | ackRecord sender f => exact .ackRecord

open SyncEngine in
/-- **What its engine call does.** -/
theorem stretch_effect (hi : Identity cr n.engine)
    (ha : ∀ {sender ops}, src = .waiting (.opsApply sender ops) →
      ∀ o ∈ ops, Admitted cr n.engine o) :
    ∃ d, Effect cr n.engine (n.stretch cr src).reply.engine d (n.stretch cr src).reply.event ∧
      Does n src d (n.stretch cr src).reply.event := by
  have still : ∃ d, Effect cr n.engine n.engine d none ∧ Does n src d none :=
    ⟨.write, .idle hi (.refl _), .write⟩
  cases src with
  | message msg =>
    obtain ⟨v, space, sender, body⟩ := msg
    cases body with
    | hello clock key =>
      cases key with
      | none => exact still
      | some k => exact ⟨.write, .learnKey hi sender (unhex k), .write⟩
    | keys receiver keys =>
      refine ⟨.write, ?_, .write⟩
      change Effect cr n.engine (learnAll cr n.engine keys.toList) .write none
      rw [learnAll_eq]
      exact .learnKeys _ hi
    | since receiver f => exact still
    | ack receiver f => exact still
    | ops receiver js =>
      unfold stretch handle
      simp only
      split
      · exact still
      · split
        · exact still
        · exact still
  | waiting c =>
    cases c with
    | helloObserve sender clock =>
      refine ⟨.write, .observeRemoteClock hi clock, ?_⟩
      change Does n _ _ (n.engine.observeRemoteClock clock).event
      rw [observeRemoteClock_event]
      exact .write
    | helloGreet sender =>
      unfold stretch resume
      simp only
      split
      · exact still
      · exact still
    | sinceRecord sender f =>
      refine ⟨.record sender f, .recordPeerFrontier hi sender f, ?_⟩
      change Does n _ _ (n.engine.recordPeerFrontier sender f).event
      rw [recordPeerFrontier_event]
      exact .sinceRecord
    | opsApply sender ops =>
      refine ⟨.write, .mergeAdmitted hi (ha rfl), ?_⟩
      change Does n _ _ (n.engine.mergeAdmitted ops).event
      cases hev : (n.engine.mergeAdmitted ops).event with
      | none => exact .write
      | some ev =>
        obtain ⟨hclock, rfl⟩ := mergeAdmitted_event hev
        exact .merge hclock
    | ackRecord sender f =>
      refine ⟨.record sender f, .recordPeerFrontier hi sender f, ?_⟩
      change Does n _ _ (n.engine.recordPeerFrontier sender f).event
      rw [recordPeerFrontier_event]
      exact .ackRecord
    | greetSend | helloSendGreet | helloKeys | helloFrontier | helloSince | sinceRead | sinceKeys
    | sinceSend | opsFrontier | opsAck => exact still

end Node

end TangentFeed
