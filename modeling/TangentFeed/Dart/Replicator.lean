import TangentFeed.Replica.Robust

/-!
# The Dart replicator

The session of a Dart replica, a stretch from `await` to `await` at a time, and
what a TypeScript replica makes of its messages. The Dart engine is arbitrary:
no result depends on what its calls do. The transport says who sent a message.
-/

namespace TangentFeed.Dart

/-- The entries of a decoded object; casting a map checks them when they are read. -/
abbrev Fields := List (JsString × Json)

/-- The calls of a `SyncEngine`. One that may throw tells whether it returned. -/
structure Engine (σ : Type) where
  deviceId : σ → JsString
  publicKey : σ → Bytes
  knownKeys : σ → List (JsString × Bytes)
  /-- `learnKey(id, _unhex(key))`. -/
  learnKey : σ → JsString → JsString → σ × Bool
  frontier : σ → Frontier
  /-- The operations as `toJson` writes them. -/
  opsSince : σ → Fields → Option (List Json)
  recordPeerFrontier : σ → JsString → Fields → σ × Bool
  applyRemoteOps : σ → List Json → σ × Bool

structure Replicator (σ : Type) where
  engine : σ
  peerFrontiers : List (JsString × Fields)

/-- What a handler throws. -/
inductive SessionFault where
  /-- `SPACE_MISMATCH`, with the space of the peer. -/
  | spaceMismatch (space : Val)
  | cast
  | engine

/-- Where a handler waits, with its local variables but the peer. -/
inductive Wait where
  | greetClock
  | greetHello (frontier : Frontier)
  | greetKeys
  | greetFrontier
  | greetSince (frontier : Frontier)
  | sinceRecord (have_ : Fields)
  | sinceRead (have_ : Fields)
  | sinceKeys (ops : List Json)
  | opsSend (rest : List (List Json))
  | opsApply (ops : List Json)
  | opsFrontier
  | opsAck (frontier : Frontier)
  | ackRecord (frontier : Fields)

inductive SessionExit where
  | wait (at_ : Wait)
  | done
  | threw (fault : SessionFault)

/-- A stretch of a handler: the replicator after it, what it sent and how it ended. -/
structure SessionPart (σ : Type) where
  replicator : Replicator σ
  sent : List Json
  exit : SessionExit

/-! ## Messages -/

/-- A message with one field beside its type. -/
def message (t name : JsString) (v : Json) : Json := .obj [(js "t", .str t), (name, v)]

def helloMsg (space clock : JsString) (key : Bytes) : Json :=
  .obj [(js "t", .str (js "hello")), (js "v", .num .two), (js "space", .str space),
    (js "clock", .str clock), (js "key", .str (hex key))]

def keysMsg (keys : List (JsString × Bytes)) : Json :=
  message (js "keys") (js "keys") (.obj (keys.map fun k => (k.1, .str (hex k.2))))

def sinceMsg (frontier : Frontier) : Json :=
  message (js "since") (js "have") (Untyped.frontierJson frontier)

def opsMsg (ops : List Json) : Json := message (js "ops") (js "ops") (.arr ops)

def ackMsg (frontier : Frontier) : Json :=
  message (js "ack") (js "frontier") (Untyped.frontierJson frontier)

/-- `v as Map?`; `none` outside where the cast throws. -/
def asMap : Val → Option (Option Fields)
  | some (.obj fs) => some (some fs)
  | some .null | none => some none
  | _ => none

/-- `v as List?`. -/
def asList : Val → Option (Option (List Json))
  | some (.arr xs) => some (some xs)
  | some .null | none => some none
  | _ => none

namespace Replicator

variable {σ : Type} (E : Engine σ) (space : JsString) (r : Replicator σ) (peer : JsString)

/-- `_peerFrontiers[peer] = frontier`. -/
def setPeer (frontier : Fields) : Replicator σ :=
  { r with peerFrontiers :=
      if r.peerFrontiers.any (·.1 == peer) then
        r.peerFrontiers.map fun p => if p.1 = peer then (peer, frontier) else p
      else r.peerFrontiers ++ [(peer, frontier)] }

/-- An engine call, then on. -/
def calling (c : σ × Bool) (exit : SessionExit) : SessionPart σ :=
  ⟨{ r with engine := c.1 }, [], if c.2 then exit else .threw .engine⟩

/-! ## Handlers -/

/-- The loop over the entries of a `keys` message. -/
def learnEntries (r : Replicator σ) : Fields → SessionPart σ
  | [] => ⟨r, [], .done⟩
  | (id, .str key) :: rest =>
    let c := E.learnKey r.engine id key
    if c.2 then learnEntries { r with engine := c.1 } rest else r.calling c .done
  | _ => ⟨r, [], .threw .cast⟩

/-- `_handle` of a `hello`. -/
def handleHello (msg : Json) : SessionPart σ :=
  if !(Val.isString (msg.get? (js "space")) space) then
    ⟨r, [], .threw (.spaceMismatch (msg.get? (js "space")))⟩
  else
    let c := match msg.get? (js "key") with
      | some (.str key) => E.learnKey r.engine peer key
      | _ => (r.engine, true)
    if c.2 && !(r.peerFrontiers.any (·.1 == peer)) then
      ⟨setPeer ⟨c.1, r.peerFrontiers⟩ peer [], [], .wait .greetClock⟩
    else r.calling c .done

/-- `_handle(peer, message)`, up to its first `await`. -/
def handle (msg : Json) : SessionPart σ :=
  if Val.isString (msg.get? (js "t")) (js "hello") then r.handleHello E space peer msg
  else if Val.isString (msg.get? (js "t")) (js "keys") then
    match asMap (msg.get? (js "keys")) with
    | none => ⟨r, [], .threw .cast⟩
    | some keys => learnEntries E r (keys.getD [])
  else if Val.isString (msg.get? (js "t")) (js "since") then
    match asMap (msg.get? (js "have")) with
    | none => ⟨r, [], .threw .cast⟩
    | some have_ => ⟨r.setPeer peer (have_.getD []), [], .wait (.sinceRecord (have_.getD []))⟩
  else if Val.isString (msg.get? (js "t")) (js "ops") then
    match asList (msg.get? (js "ops")) with
    | none => ⟨r, [], .threw .cast⟩
    | some none | some (some []) => ⟨r, [], .wait .opsFrontier⟩
    | some (some ops) => ⟨r, [], .wait (.opsApply ops)⟩
  else if Val.isString (msg.get? (js "t")) (js "ack") then
    match asMap (msg.get? (js "frontier")) with
    | none => ⟨r, [], .threw .cast⟩
    | some none => ⟨r, [], .done⟩
    | some (some frontier) => ⟨r.setPeer peer frontier, [], .wait (.ackRecord frontier)⟩
  else ⟨r, [], .done⟩

/-- From a later `await` to the next. A greeting starts at `greetClock`. -/
def resume : Wait → SessionPart σ
  | .greetClock => ⟨r, [], .wait (.greetHello (E.frontier r.engine))⟩
  | .greetHello frontier =>
    ⟨r, [helloMsg space (frontier[E.deviceId r.engine]?.getD []) (E.publicKey r.engine)],
      .wait .greetKeys⟩
  | .greetKeys => ⟨r, [keysMsg (E.knownKeys r.engine)], .wait .greetFrontier⟩
  | .greetFrontier => ⟨r, [], .wait (.greetSince (E.frontier r.engine))⟩
  | .greetSince frontier => ⟨r, [sinceMsg frontier], .done⟩
  | .sinceRecord have_ =>
    r.calling (E.recordPeerFrontier r.engine peer have_) (.wait (.sinceRead have_))
  | .sinceRead have_ =>
    match E.opsSince r.engine have_ with
    | none => ⟨r, [], .threw .engine⟩
    | some [] => ⟨r, [], .done⟩
    | some ops => ⟨r, [], .wait (.sinceKeys ops)⟩
  | .sinceKeys ops =>
    ⟨r, [keysMsg (E.knownKeys r.engine)], .wait (.opsSend (chunks opsPerMessage ops))⟩
  | .opsSend [] => ⟨r, [], .done⟩
  | .opsSend (ops :: rest) => ⟨r, [opsMsg ops], .wait (.opsSend rest)⟩
  | .opsApply ops => r.calling (E.applyRemoteOps r.engine ops) (.wait .opsFrontier)
  | .opsFrontier => ⟨r, [], .wait (.opsAck (E.frontier r.engine))⟩
  | .opsAck frontier => ⟨r, [ackMsg frontier], .done⟩
  | .ackRecord frontier => r.calling (E.recordPeerFrontier r.engine peer frontier) .done

/-- What the handler sends from `stage` on, its `i`-th stretch from the state `world i`. -/
def sending (world : Nat → Replicator σ) : Nat → Nat → Wait → List Json
  | 0, _, _ => []
  | fuel + 1, i, stage =>
    let p := (world i).resume E space peer stage
    p.sent ++ match p.exit with
      | .wait stage => sending world fuel (i + 1) stage
      | _ => []

/-! ## What is sent -/

/-- A message that says neither who sent it, nor in which space, nor in which version. -/
structure Terse (msg : Json) : Prop where
  isNull : msg.isNull = false
  sender : msg.get? (js "from") = none
  space : msg.get? (js "space") = none
  version : msg.get? (js "v") = none

theorem message_get? {t name k : JsString} (v : Json) (ht : k ≠ js "t") (hn : k ≠ name) :
    (message t name v).get? k = none := by
  have hbeq {a b : JsString} (h : a ≠ b) : (a == b) = false := beq_eq_false_iff_ne.2 h
  rw [message, Json.get?, List.lookup_cons, hbeq ht, List.lookup_cons, hbeq hn]
  rfl

theorem terse_message {t name : JsString} {v : Json}
    (h : js "from" ≠ name ∧ js "space" ≠ name ∧ js "v" ≠ name) : Terse (message t name v) where
  isNull := rfl
  sender := message_get? v (by decide) h.1
  space := message_get? v (by decide) h.2.1
  version := message_get? v (by decide) h.2.2

/-- **What is sent** is a `hello` or terse. -/
theorem sent_cases {stage : Wait} {msg : Json} (h : msg ∈ (r.resume E space peer stage).sent) :
    (∃ clock key, msg = helloMsg space clock key) ∨ Terse msg := by
  cases stage with
  | greetHello frontier => exact .inl ⟨_, _, List.mem_singleton.1 h⟩
  | greetKeys =>
    rw [List.mem_singleton.1 h]
    exact .inr (terse_message (by decide))
  | greetSince frontier =>
    rw [List.mem_singleton.1 h]
    exact .inr (terse_message (by decide))
  | sinceKeys ops =>
    rw [List.mem_singleton.1 h]
    exact .inr (terse_message (by decide))
  | opsSend rest =>
    cases rest with
    | nil => cases h
    | cons ops rest =>
      rw [List.mem_singleton.1 h]
      exact .inr (terse_message (by decide))
  | opsAck frontier =>
    rw [List.mem_singleton.1 h]
    exact .inr (terse_message (by decide))
  | sinceRead have_ =>
    rw [resume] at h
    split at h
    · cases h
    · cases h
    · cases h
  | greetClock => cases h
  | greetFrontier => cases h
  | sinceRecord have_ => cases h
  | opsApply ops => cases h
  | opsFrontier => cases h
  | ackRecord frontier => cases h

theorem sending_cases {world : Nat → Replicator σ} {fuel i : Nat} {stage : Wait} {msg : Json}
    (h : msg ∈ sending E space peer world fuel i stage) :
    (∃ clock key, msg = helloMsg space clock key) ∨ Terse msg := by
  induction fuel generalizing i stage with
  | zero => cases h
  | succ fuel ih =>
    rcases List.mem_append.1 h with h | h
    · exact sent_cases E space (world i) peer h
    · split at h
      · exact ih h
      · cases h

end Replicator

/-! ## What the other side makes of it -/

section Received

open Untyped

variable {cr : Crypto} {out : Surroundings} {space : JsString} {world : Nat → Untyped.Node}
  {msg : Json}

/-- A terse message ends at the guards of `handle`, whatever it carries. -/
theorem Replicator.Terse.not_accepted (h : Replicator.Terse msg) (n : Untyped.Node) :
    n.accepts space msg = some false := by
  have hprop : Val.prop (some msg) (js "space") = some none := by
    cases msg with
    | null => cases h.isNull
    | _ => exact congrArg some h.space
  rw [Untyped.Node.accepts, hprop]
  split
  · rfl
  · rfl

theorem Replicator.Terse.discarded (h : Replicator.Terse msg) :
    handling cr out space world msg = [(world 0, ⟨world 0, [], .ended .returned⟩)] := by
  have hhandle : (world 0).handle cr space msg = ⟨world 0, [], .ended .returned⟩ := by
    rw [Untyped.Node.handle, Untyped.Node.begin, h.not_accepted]
    rfl
  rw [handling, hhandle]

/-- A `hello` has no `from`, so its key is not learned. -/
theorem begin_helloMsg (n : Untyped.Node) (clock : JsString) (key : Bytes) :
    (n.begin cr space (helloMsg space clock key)).node = n ∧
      ∀ stage, (n.begin cr space (helloMsg space clock key)).exit = .wait stage →
        stage = .helloObserve := by
  have hhello : (Untyped.field (helloMsg space clock key) (js "t")).isString (js "hello") = true :=
    rfl
  have hsender : Untyped.field (helloMsg space clock key) (js "from") = none := rfl
  rw [Untyped.Node.begin]
  split
  · exact ⟨rfl, nofun⟩
  · exact ⟨rfl, nofun⟩
  · rw [Untyped.Node.dispatch, if_pos hhello, hsender]
    refine ⟨?_, fun stage h => (Exit.wait.inj h).symm⟩
    split
    · rfl
    · rfl

/-- **No Dart message adds to the log.** -/
theorem log_of_sent (h : (∃ clock key, msg = helloMsg space clock key) ∨ Replicator.Terse msg) :
    ∀ x ∈ handling cr out space world msg, x.2.node.engine.storage.log = x.1.engine.storage.log := by
  rcases h with ⟨clock, key, rfl⟩ | h
  · obtain ⟨hnode, hexit⟩ := @begin_helloMsg cr space (world 0) clock key
    have hfirst : ((world 0).handle cr space (helloMsg space clock key)).node = world 0 := hnode
    have hrest : ∀ i (stage : Untyped.Stage), stage.Checked (fun _ => False) →
        ∀ x ∈ stretches out space world (helloMsg space clock key) stage.rank i stage,
          x.2.node.engine.storage.log = x.1.engine.storage.log := by
      intro i stage hc x hx
      have hby := (stretches_spec out space world Json.noConfusion i (Nat.le_refl _) hc).2.2 x hx
      exact Set.ext fun o => ⟨fun ho => (hby.log o ho).resolve_right id, hby.kept o⟩
    intro x hx
    rcases List.mem_cons.1 hx with rfl | hx
    · exact congrArg (fun n : Untyped.Node => n.engine.storage.log) hfirst
    · cases ho : ((world 0).handle cr space (helloMsg space clock key)).outcome with
      | wait stage =>
        simp only [ho] at hx
        obtain rfl := hexit stage (Part.settled_wait ho)
        exact hrest 1 .helloObserve trivial x hx
      | ended how =>
        simp only [ho] at hx
        cases hx
  · rw [h.discarded]
    intro x hx
    rw [List.mem_singleton.1 hx]

/-- What section 6 prescribes for a message of `peer`, in the stretches of its `handle`. -/
structure ActsOn (cr : Crypto) (out : Surroundings) (space : JsString)
    (world : Nat → Untyped.Node) (peer : JsString) (msg : Json) : Prop where
  /-- It is not discarded. -/
  accepted : (world 0).accepts space msg = some true
  learned : (Untyped.field msg (js "t")).isString (js "hello") = true →
    ∀ key, Untyped.field msg (js "key") = some (.str key) →
      ((world 0).handle cr space msg).node = (world 0).learnKey cr (some (.str peer)) (unhex key)
  directory : (Untyped.field msg (js "t")).isString (js "keys") = true →
    ∀ fs, Untyped.field msg (js "keys") = some (.obj fs) →
      ((world 0).handle cr space msg).node = (Untyped.Node.learnEntries cr (world 0) fs).node
  recorded : (Untyped.field msg (js "t")).isString (js "since") = true →
    ∃ x ∈ handling cr out space world msg,
      x.2.node = (x.1.recordPeerFrontier (some (.str peer)) (Untyped.field msg (js "have"))).2
  answered : (Untyped.field msg (js "t")).isString (js "since") = true →
    ∃ x ∈ handling cr out space world msg, ∃ missing,
      x.1.opsSince out (Untyped.field msg (js "have")) = some missing ∧
      (missing ≠ [] → ∃ y ∈ handling cr out space world msg,
        y.2.sent = (chunks opsPerMessage missing).map (y.1.opsMsg space (some (.str peer))))
  applied : (Untyped.field msg (js "t")).isString (js "ops") = true →
    Untyped.field msg (js "ops") ≠ some (.arr []) →
    ∃ x ∈ handling cr out space world msg, ∃ ops,
      Untyped.field msg (js "ops") = some (.arr (ops.map TangentFeed.Op.raw)) ∧
      x.2.node = (x.1.mergeAdmitted ops).2
  acknowledged : (Untyped.field msg (js "t")).isString (js "ack") = true →
    ∃ x ∈ handling cr out space world msg,
      x.2.node = (x.1.recordPeerFrontier (some (.str peer)) (Untyped.field msg (js "frontier"))).2

theorem Replicator.Terse.not_actsOn (h : Replicator.Terse msg) (peer : JsString) :
    ¬ ActsOn cr out space world peer msg := fun ha => by
  have haccepted := ha.accepted
  rw [h.not_accepted] at haccepted
  cases haccepted

/-- What section 6 prescribes for a message of `peer`, in the first stretch of `_handle`. -/
inductive DartActsOn {σ : Type} (E : Engine σ) (space peer : JsString) (r : Replicator σ)
    (msg : Json) : Prop where
  | learned (key : JsString) (ht : msg.get? (js "t") = some (.str (js "hello")))
      (hkey : msg.get? (js "key") = some (.str key))
      (h : (r.handle E space peer msg).replicator.engine = (E.learnKey r.engine peer key).1)
  | directory (keys : Fields) (ht : msg.get? (js "t") = some (.str (js "keys")))
      (hkeys : msg.get? (js "keys") = some (.obj keys))
      (h : r.handle E space peer msg = r.learnEntries E keys)
  | recorded (frontier : Fields) (ht : msg.get? (js "t") = some (.str (js "since")))
      (hhave : msg.get? (js "have") = some (.obj frontier))
      (h : (r.handle E space peer msg).exit = .wait (.sinceRecord frontier))
  | applied (ops : List Json) (ht : msg.get? (js "t") = some (.str (js "ops")))
      (hops : msg.get? (js "ops") = some (.arr ops))
      (h : (r.handle E space peer msg).exit =
        .wait (if ops.isEmpty then .opsFrontier else .opsApply ops))
  | acknowledged (frontier : Fields) (ht : msg.get? (js "t") = some (.str (js "ack")))
      (hfrontier : msg.get? (js "frontier") = some (.obj frontier))
      (h : (r.handle E space peer msg).exit = .wait (.ackRecord frontier))

section Answered

variable {σ : Type} (E : Engine σ) (space peer : JsString) (r : Replicator σ) (n : Untyped.Node)

theorem dartActsOn_helloMsg (clock : JsString) :
    DartActsOn E space peer r (n.helloMsg space clock) := by
  have hspace : Val.isString ((n.helloMsg space clock).get? (js "space")) space = true :=
    beq_self_eq_true space
  have hkey : (n.helloMsg space clock).get? (js "key") =
    some (.str (hex n.engine.deviceKey.publicKey)) := rfl
  refine .learned _ rfl hkey ?_
  change (r.handleHello E space peer _).replicator.engine = _
  rw [Replicator.handleHello, hspace, hkey]
  simp only [Bool.not_true, Bool.false_eq_true, if_false]
  split
  · rfl
  · rfl

theorem dartActsOn_keysMsg (receiver : Val) :
    DartActsOn E space peer r (n.keysMsg space receiver) := by
  cases receiver with
  | none => exact .directory _ rfl rfl rfl
  | some v => exact .directory _ rfl rfl rfl

theorem dartActsOn_sinceMsg (receiver : Val) (frontier : Frontier) :
    DartActsOn E space peer r (n.sinceMsg space receiver frontier) := by
  cases receiver with
  | none => exact .recorded _ rfl rfl rfl
  | some v => exact .recorded _ rfl rfl rfl

theorem dartActsOn_opsMsg (receiver : Val) (ops : List TangentFeed.Op) :
    DartActsOn E space peer r (n.opsMsg space receiver ops) := by
  cases receiver with
  | none => cases ops <;> exact .applied _ rfl rfl rfl
  | some v => cases ops <;> exact .applied _ rfl rfl rfl

theorem dartActsOn_ackMsg (receiver : Val) (frontier : Frontier) :
    DartActsOn E space peer r (n.ackMsg space receiver frontier) := by
  cases receiver with
  | none => exact .acknowledged _ rfl rfl rfl
  | some v => exact .acknowledged _ rfl rfl rfl

end Answered

theorem mem_of_mem_sendAll {n : Untyped.Node} {messages : List Json} {m : Json}
    (h : m ∈ (n.sendAll out messages).sent) : m ∈ messages := by
  induction messages with
  | nil => cases h
  | cons sent messages ih =>
    rw [Untyped.Node.sendAll] at h
    split at h
    · cases h
    · exact (List.mem_cons.1 h).elim (fun h => h ▸ List.mem_cons_self)
        fun h => List.mem_cons_of_mem _ (ih h)

theorem sent_calling {α : Type} (c : Except Thrown α × Untyped.Node) (ok : α → Exit) :
    (Untyped.Node.calling c ok).sent = [] := by
  rw [Untyped.Node.calling]
  split
  · rfl
  · rfl

/-- **The Dart side acts on every message** that a TypeScript handler sends. -/
theorem dartActsOn_of_sent {σ : Type} (E : Engine σ) (peer : JsString) (r : Replicator σ)
    {n : Untyped.Node} {stage : Untyped.Stage} {m : Json}
    (h : m ∈ (n.resume out space msg stage).sent) : DartActsOn E space peer r m := by
  have hsend : ∀ {sent : Json} {exit : Exit}, m ∈ (n.send out sent exit).sent → m = sent := by
    intro sent exit hm
    rw [Untyped.Node.send] at hm
    split at hm
    · cases hm
    · exact List.mem_singleton.1 hm
  have hcall : ∀ {α : Type} {c : Except Thrown α × Untyped.Node} {ok : α → Exit},
      m ∉ (Untyped.Node.calling c ok).sent := by
    intro α c ok hm
    rw [sent_calling] at hm
    cases hm
  cases stage with
  | helloSendGreet clock =>
    rw [hsend h]
    exact dartActsOn_helloMsg E space peer r n clock
  | helloKeys =>
    rw [hsend h]
    exact dartActsOn_keysMsg E space peer r n _
  | sinceKeys missing =>
    rw [hsend h]
    exact dartActsOn_keysMsg E space peer r n _
  | helloSince frontier =>
    rw [hsend h]
    exact dartActsOn_sinceMsg E space peer r n _ frontier
  | opsAck frontier =>
    rw [hsend h]
    exact dartActsOn_ackMsg E space peer r n _ frontier
  | sinceSend missing =>
    obtain ⟨ops, -, rfl⟩ := List.mem_map.1 (mem_of_mem_sendAll h)
    exact dartActsOn_opsMsg E space peer r n _ ops
  | helloObserve => exact (hcall h).elim
  | sinceRecord => exact (hcall h).elim
  | opsApply ops => exact (hcall h).elim
  | ackRecord => exact (hcall h).elim
  | helloGreet =>
    rw [Untyped.Node.resume, Part.settled, Untyped.Node.proceed] at h
    split at h
    · cases h
    · cases h
  | sinceRead =>
    rw [Untyped.Node.resume, Part.settled, Untyped.Node.proceed] at h
    split at h
    · cases h
    · cases h
  | helloFrontier => cases h
  | opsFrontier => cases h

/-! ## The session -/

/-- **A session of the two implementations.** Each acts on what the handlers of the other send,
from any state and with any calls between their stretches. -/
structure HoldsSession {σ : Type} (E : Engine σ) (cr : Crypto) (out : Surroundings)
    (space dartId tsId : JsString) (dart : Nat → Replicator σ) (ts : Nat → Untyped.Node) :
    Prop where
  toTs : ∀ fuel stage, ∀ m ∈ Replicator.sending E space tsId dart fuel 0 stage,
    ActsOn cr out space ts dartId m
  toDart : ∀ stage msg, ∀ m ∈ ((ts 0).resume out space msg stage).sent,
    DartActsOn E space tsId (dart 0) m

/-- **No session is held.** The keys of every greeting are discarded, as is all that a Dart
replica sends after its `hello`. -/
theorem no_session {σ : Type} (E : Engine σ) (cr : Crypto) (out : Surroundings)
    (space dartId tsId : JsString) (dart : Nat → Replicator σ) (ts : Nat → Untyped.Node) :
    ¬ HoldsSession E cr out space dartId tsId dart ts := by
  intro h
  have hkeys : keysMsg (E.knownKeys (dart 2).engine) ∈
      Replicator.sending E space tsId dart 3 0 .greetClock := by
    simp [Replicator.sending, Replicator.resume]
  exact Replicator.Terse.not_actsOn (Replicator.terse_message (by decide)) dartId
    (h.toTs 3 .greetClock _ hkeys)

/-- The engine of a fresh Dart replica: it has its own key and no operations. -/
def freshEngine : Engine Unit :=
  let e := SyncEngine.opened plainCrypto Sample.opts 2
  { deviceId := fun _ => e.deviceId
    publicKey := fun _ => e.deviceKey.publicKey
    knownKeys := fun _ => [(e.deviceId, e.deviceKey.publicKey)]
    learnKey := fun _ _ _ => ((), true)
    frontier := fun _ => ∅
    opsSince := fun _ _ => some []
    recordPeerFrontier := fun _ _ _ => ((), true)
    applyRemoteOps := fun _ _ => ((), true) }

/-- A fresh Dart replica greets a TypeScript replica, which discards its keys. -/
theorem greeting_discarded :
    ¬ ∀ (σ : Type) (E : Engine σ) (cr : Crypto) (out : Surroundings)
      (space dartId tsId : JsString) (dart : Nat → Replicator σ) (ts : Nat → Untyped.Node),
      HoldsSession E cr out space dartId tsId dart ts := by
  intro h
  have hsession := h Unit freshEngine plainCrypto calm Sample.space (freshEngine.deviceId ())
    sampleNode.engine.deviceId (fun _ => ⟨(), []⟩) (fun _ => sampleNode)
  have haccepted := (hsession.toTs 1 .greetKeys _ List.mem_cons_self).accepted
  exact absurd haccepted (by decide +kernel)

end Received

end TangentFeed.Dart
