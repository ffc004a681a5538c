import TangentFeed.Network.Handlers

/-!
# What a step of the network does

A step makes engine calls (`settle`), runs a stretch of a handler (`Turn`) or
one of `syncOnce` (`SyncTurn`). The inversions say where the parts of the
configuration after a step come from: the engines (`step_evolves`), the waiting
handlers (`step_pending`), the messages (`step_sent`), the calls of `syncOnce`
(`step_syncs`) and the trace (`step_trace`). Every invariant is derived from
them.
-/

namespace TangentFeed

variable {ι : Type} {cr : Crypto} {space : JsString}

/-- The operations `i` applied. -/
def applied (t : List (Event ι)) (i : ι) : Set Op :=
  {o | ∃ ev, Event.committed i ev ∈ t ∧ o ∈ ev.ops}

/-- The operations local writes committed. -/
def issued (t : List (Event ι)) : Set Op :=
  {o | ∃ i ev, Event.committed i ev ∈ t ∧ ev.origin = .local ∧ o ∈ ev.ops}

/-- Whether an event is a commit. -/
def Event.isCommit : Event ι → Prop
  | .committed .. => True
  | .opened _ | .handling .. | .sent .. | .finished .. | .failed .. | .syncing .. | .synced _
  | .unsynced _ => False

theorem applied_mono {t t' : List (Event ι)} (h : ∀ e ∈ t, e ∈ t') (i : ι) :
    applied t i ⊆ applied t' i := fun _ ⟨ev, hm, ho⟩ => ⟨ev, h _ hm, ho⟩

theorem issued_mono {t t' : List (Event ι)} (h : ∀ e ∈ t, e ∈ t') : issued t ⊆ issued t' :=
  fun _ ⟨i, ev, hm, ho⟩ => ⟨i, ev, h _ hm, ho⟩

/-- Events other than commits apply nothing. -/
theorem applied_append_of_not_commit {t l : List (Event ι)} (h : ∀ e ∈ l, ¬ e.isCommit) (i : ι) :
    applied (t ++ l) i = applied t i := by
  ext o
  constructor
  · rintro ⟨ev, hm, ho⟩
    rcases List.mem_append.1 hm with hm | hm
    · exact ⟨ev, hm, ho⟩
    · exact (h _ hm trivial).elim
  · exact fun ho => applied_mono (fun e he => List.mem_append_left _ he) i ho

/-- The commit of an optional change event. -/
def commits (i : ι) (ev : Option ChangeEvent) : List (Event ι) := ev.toList.map (.committed i)

/-- The operations of a local event. -/
def localOps (ev : Option ChangeEvent) : Set Op :=
  {o | ∃ event, ev = some event ∧ event.origin = .local ∧ o ∈ event.ops}

theorem localOps_subset (ev : Option ChangeEvent) : localOps ev ⊆ eventOps ev :=
  fun _ ⟨event, h, _, ho⟩ => ⟨event, h, ho⟩

theorem Reply.map_unit (r : Reply Unit) : (r.map fun _ => ()) = r := by
  obtain ⟨e, res, ev, rec⟩ := r
  cases res with
  | ok _ => rfl
  | error _ => rfl

namespace Config

variable [DecidableEq ι] {w : Config ι} {i j : ι}

/-- A message as node `i` sends it. -/
def message (space : JsString) (w : Config ι) (i : ι) (body : MsgBody) : WireMsg :=
  ⟨wireVersion, space, (w.node i).engine.deviceId, body⟩

omit [DecidableEq ι] in
theorem foldl_emit (h : Option Nat) (bodies : List MsgBody) (w : Config ι) :
    bodies.foldl (emit space i h) w =
      { w with
        sent := w.sent ++ bodies.map (message space w i)
        trace := w.trace ++ bodies.map fun b => .sent i h (message space w i b) } := by
  induction bodies generalizing w with
  | nil => simp
  | cons b bodies ih =>
    rw [List.foldl_cons, ih]
    simp only [emit, message, List.map_cons, List.append_assoc, List.cons_append, List.nil_append]
    rfl

/-- What the live tail of `i` sends on the event of a reply. -/
def tail {α : Type} (r : Reply α) : List MsgBody :=
  match r.event with
  | none => []
  | some ev => if .liveTail ∈ r.received then Node.liveTail ev else []

/-- The configuration after an engine call. -/
theorem settle_eq {α : Type} (w : Config ι) (i : ι) (r : Reply α) :
    w.settle space i r =
      { w with
        node := Function.update w.node i { w.node i with engine := r.engine }
        sent := w.sent ++ (tail r).map fun b => ⟨wireVersion, space, r.engine.deviceId, b⟩
        trace := w.trace ++ commits i r.event ++
          (tail r).map fun b => .sent i none ⟨wireVersion, space, r.engine.deviceId, b⟩ } := by
  have e : ∀ w : Config ι, message space w i =
      fun b => ⟨wireVersion, space, (w.node i).engine.deviceId, b⟩ := fun _ => rfl
  unfold settle tail
  cases r.event with
  | none => simp [setNode, commits]
  | some ev =>
    simp only [foldl_emit, e, setNode, note, Function.update_self, commits, Option.toList_some,
      List.map_cons, List.map_nil]

theorem settle_node {α : Type} (r : Reply α) :
    (w.settle space i r).node = Function.update w.node i { w.node i with engine := r.engine } := by
  rw [settle_eq]

@[simp] theorem settle_node_self {α : Type} (r : Reply α) :
    (w.settle space i r).node i = { w.node i with engine := r.engine } := by
  rw [settle_eq]
  exact Function.update_self ..

theorem settle_node_of_ne {α : Type} (r : Reply α) (h : j ≠ i) :
    (w.settle space i r).node j = w.node j := by
  rw [settle_eq]
  exact Function.update_of_ne h ..

/-! ## `syncOnce` -/

/-- A reply that leaves the engine of `i` as it is. -/
def same (w : Config ι) (i : ι) : Reply Unit := .quiet (w.node i).engine (.ok ())

/-- A stretch of `syncOnce`: the node whose engine it calls, the reply, and
where it waits next if the call resolves. -/
inductive SyncTurn (cr : Crypto) (w : Config ι) : Sync ι → ι → Reply Unit → Option SyncStage → Prop where
  | readFrontier {a b : ι} {fa : Frontier} :
      SyncTurn cr w ⟨a, b, .readFrontier fa⟩ a (w.same a) (some (.readA fa (w.node b).engine.frontier))
  | readA {a b : ι} {fa fb : Frontier} :
      SyncTurn cr w ⟨a, b, .readA fa fb⟩ a (w.same a)
        (some (.readB fa ((w.node a).engine.opsSince fb)))
  | readB {a b : ι} {fa : Frontier} {aToB : List Op} :
      SyncTurn cr w ⟨a, b, .readB fa aToB⟩ a (w.same a)
        (some (.applyB aToB ((w.node b).engine.opsSince fa)))
  | skipB {a b : ι} {bToA : List Op} :
      SyncTurn cr w ⟨a, b, .applyB [] bToA⟩ b (w.same b) (some (.applyA bToA))
  | applyB {a b : ι} {aToB bToA : List Op} : aToB ≠ [] →
      SyncTurn cr w ⟨a, b, .applyB aToB bToA⟩ b
        (((w.node b).engine.applyRemoteOps cr (aToB.map Op.raw)).map fun _ => ())
        (some (.applyA bToA))
  | skipA {a b : ι} : SyncTurn cr w ⟨a, b, .applyA []⟩ a (w.same a) (some .ackB)
  | applyA {a b : ι} {bToA : List Op} : bToA ≠ [] →
      SyncTurn cr w ⟨a, b, .applyA bToA⟩ a
        (((w.node a).engine.applyRemoteOps cr (bToA.map Op.raw)).map fun _ => ()) (some .ackB)
  | ackB {a b : ι} :
      SyncTurn cr w ⟨a, b, .ackB⟩ a (w.same a) (some (.recordA (w.node b).engine.frontier))
  | recordA {a b : ι} {fb : Frontier} :
      SyncTurn cr w ⟨a, b, .recordA fb⟩ a
        ((w.node a).engine.recordPeerFrontier (w.node b).engine.deviceId fb) (some .ackA)
  | ackA {a b : ι} :
      SyncTurn cr w ⟨a, b, .ackA⟩ a (w.same a) (some (.recordB (w.node a).engine.frontier))
  | recordB {a b : ι} {fa : Frontier} :
      SyncTurn cr w ⟨a, b, .recordB fa⟩ b
        ((w.node b).engine.recordPeerFrontier (w.node a).engine.deviceId fa) none

/-- What is left of the `k`-th `syncOnce` after its engine call. -/
def synced (w : Config ι) (k : Nat) (a b : ι) (res : Except JsError Unit)
    (next : Option SyncStage) : Config ι :=
  match res with
  | .ok _ => w.stage k a b next
  | .error _ => ({ w with syncs := w.syncs.erase k }).note (.unsynced k)

theorem settle_same (w : Config ι) (i : ι) : w.settle space i (w.same i) = w := by
  change w.setNode i (w.node i) = w
  unfold setNode
  rw [Function.update_eq_self]

theorem stageCall_eq {α : Type} (w : Config ι) (k : Nat) (a b i : ι) (r : Reply α)
    (next : Option SyncStage) :
    w.stageCall space k a b i r next =
      (w.settle space i (r.map fun _ => ())).synced k a b (r.map fun _ => ()).result next := by
  have e : (w.settle space i r).syncs = w.syncs := by rw [settle_eq]
  unfold stageCall synced
  rw [← e]
  unfold Reply.map
  cases r.result with
  | ok _ => rfl
  | error _ => rfl

/-- **What a stretch of `syncOnce` does.** -/
theorem resumeSync_eq (w : Config ι) (cr : Crypto) (space : JsString) (k : Nat) (s : Sync ι) :
    ∃ i r next, SyncTurn cr w s i r next ∧
      w.resumeSync cr space k s = (w.settle space i r).synced k s.a s.b r.result next := by
  -- a stretch that reads, and one that makes a call
  have read {s : Sync ι} {i : ι} {next : Option SyncStage} (ht : SyncTurn cr w s i (w.same i) next)
      (he : w.resumeSync cr space k s = w.stage k s.a s.b next) :
      ∃ i r next, SyncTurn cr w s i r next ∧
        w.resumeSync cr space k s = (w.settle space i r).synced k s.a s.b r.result next :=
    ⟨i, _, next, ht, by rw [he, settle_same]; rfl⟩
  have call {s : Sync ι} {i : ι} {α : Type} {r : Reply α} {next : Option SyncStage}
      (ht : SyncTurn cr w s i (r.map fun _ => ()) next)
      (he : w.resumeSync cr space k s = w.stageCall space k s.a s.b i r next) :
      ∃ i r next, SyncTurn cr w s i r next ∧
        w.resumeSync cr space k s = (w.settle space i r).synced k s.a s.b r.result next :=
    ⟨i, _, next, ht, by rw [he, stageCall_eq]⟩
  obtain ⟨a, b, st⟩ := s
  cases st with
  | readFrontier fa => exact read .readFrontier rfl
  | readA fa fb => exact read .readA rfl
  | readB fa aToB => exact read .readB rfl
  | applyB aToB bToA =>
    cases aToB with
    | nil => exact read .skipB rfl
    | cons o aToB => exact call (.applyB (List.cons_ne_nil _ _)) rfl
  | applyA bToA =>
    cases bToA with
    | nil => exact read .skipA rfl
    | cons o bToA => exact call (.applyA (List.cons_ne_nil _ _)) rfl
  | ackB => exact read .ackB rfl
  | recordA fb => exact call (by rw [Reply.map_unit]; exact .recordA) rfl
  | ackA => exact read .ackA rfl
  | recordB fa => exact call (by rw [Reply.map_unit]; exact .recordB) rfl

/-! ## Turns -/

/-- Handler `h` of node `i` runs a stretch from `src`. -/
inductive Turn (space : JsString) (w : Config ι) (i : ι) (h : Nat) : Action ι → Source → Prop where
  | deliver {k : Nat} {msg : WireMsg} : w.sent[k]? = some msg →
      (w.node i).accepts space msg = true → h = (w.node i).nextId →
      Turn space w i h (.deliver i k) (.message msg)
  | inject {msg : WireMsg} : (w.node i).accepts space msg = true → h = (w.node i).nextId →
      Turn space w i h (.inject i msg) (.message msg)
  | resume {c : Handler} : (w.node i).pending[h]? = some c →
      Turn space w i h (.resume i h) (.waiting c)

/-- The configuration in which a stretch runs. -/
def begun (w : Config ι) (i : ι) : Source → Config ι
  | .message msg => (w.setNode i { w.node i with nextId := (w.node i).nextId + 1 }).note
      (.handling i (w.node i).nextId msg)
  | .waiting _ => w

/-- The handlers waiting after a stretch of `h` that ended in `out`. -/
def pendingAfter (p : Std.ExtTreeMap Nat Handler compare) (h : Nat) (out : Outcome) :
    Std.ExtTreeMap Nat Handler compare :=
  match out with
  | .wait c => p.insert h c
  | .done | .failed => p.erase h

/-- The events of an ending. -/
def endEvents (i : ι) (h : Nat) : Outcome → List (Event ι)
  | .wait _ => []
  | .done => [.finished i h]
  | .failed => [.failed i h]

theorem advance_eq (w : Config ι) (i : ι) (h : Nat) (s : Stretch) :
    w.advance space i h s =
      { node := Function.update w.node i { w.node i with
          engine := s.reply.engine
          peers := s.peers
          pending := pendingAfter (w.node i).pending h s.outcome }
        sent := w.sent ++ (tail s.reply ++ s.sent).map fun b =>
          ⟨wireVersion, space, s.reply.engine.deviceId, b⟩
        syncs := w.syncs
        nextSync := w.nextSync
        trace := w.trace ++ (commits i s.reply.event ++
          (tail s.reply).map (fun b => .sent i none ⟨wireVersion, space, s.reply.engine.deviceId, b⟩) ++
          s.sent.map (fun b => .sent i (some h) ⟨wireVersion, space, s.reply.engine.deviceId, b⟩) ++
          endEvents i h s.outcome) } := by
  have e : message space (w.settle space i s.reply) i =
      fun b => ⟨wireVersion, space, s.reply.engine.deviceId, b⟩ := by
    funext b
    unfold message
    rw [settle_node_self]
  unfold advance
  rw [foldl_emit, e, settle_eq]
  cases s.outcome with
  | wait c => simp [setNode, pendingAfter, endEvents]
  | done => simp [setNode, note, pendingAfter, endEvents]
  | failed => simp [setNode, note, pendingAfter, endEvents]

/-- What a step can be. -/
inductive Shape (cr : Crypto) (space : JsString) (w : Config ι) : Action ι → Config ι → Prop where
  | idle {a : Action ι} : Shape cr space w a w
  | call {i : ι} {c : Call} : Shape cr space w (.call i c) (w.settle space i (c.run cr (w.node i).engine))
  | reopen {i : ι} {opts : EngineOptions} {seed : Nat} {e : SyncEngine} :
      SyncEngine.openOn cr opts (w.node i).engine.storage seed = .ok e →
      Shape cr space w (.reopen i opts seed) { w.setNode i (reopened (w.node i) e) with
        syncs := w.syncs.filter fun _ s => s.a != i && s.b != i
        trace := w.trace ++ [.opened i] }
  | syncOnce {i j : ι} : i ≠ j → Shape cr space w (.syncOnce i j) (w.startSync cr space i j)
  | resumeSync {k : Nat} {s : Sync ι} {i : ι} {r : Reply Unit} {next : Option SyncStage} :
      w.syncs[k]? = some s → SyncTurn cr w s i r next →
      Shape cr space w (.resumeSync k) ((w.settle space i r).synced k s.a s.b r.result next)
  | start {i : ι} : Shape cr space w (.start i) ((w.setNode i { w.node i with
      started := true
      engine := (w.node i).engine.subscribe (Node.liveTailSubscriber fun _ => false) }).greet i)
  | stop {i : ι} : Shape cr space w (.stop i) (w.setNode i { w.node i with
      started := false, engine := (w.node i).engine.unsubscribe .liveTail, peers := ∅ })
  | peerConnect {i : ι} : Shape cr space w (.peerConnect i) (w.greet i)
  | turn {i : ι} {h : Nat} {a : Action ι} {src : Source} : Turn space w i h a src →
      Shape cr space w a ((w.begun i src).advance space i h ((w.node i).stretch cr src))

theorem step_shape (w : Config ι) (a : Action ι) : Shape cr space w a (w.step cr space a) := by
  have receive {i : ι} {msg : WireMsg} {a : Action ι}
      (ht : (w.node i).accepts space msg = true →
        Turn space w i (w.node i).nextId a (.message msg)) :
      Shape cr space w a (w.receive cr space i msg) := by
    unfold Config.receive
    simp only
    split
    · rename_i hacc
      exact .turn (ht hacc)
    · exact .idle
  cases a with
  | call i c => exact .call
  | reopen i opts seed =>
    unfold step
    simp only
    split
    · rename_i e he
      exact .reopen he
    · exact .idle
  | syncOnce i j =>
    unfold step
    simp only
    split
    · exact .idle
    · rename_i hij
      exact .syncOnce hij
  | resumeSync k =>
    unfold step
    simp only
    split
    · rename_i s hs
      obtain ⟨i, r, next, ht, he⟩ := w.resumeSync_eq cr space k s
      rw [he]
      exact .resumeSync hs ht
    · exact .idle
  | start i =>
    unfold step
    simp only
    split
    · exact .idle
    · exact .start
  | stop i => exact .stop
  | peerConnect i =>
    unfold step
    simp only
    split
    · exact .peerConnect
    · exact .idle
  | deliver i k =>
    unfold step
    simp only
    split
    · rename_i msg hk
      exact receive fun hacc => .deliver hk hacc rfl
    · exact .idle
  | inject i msg => exact receive fun hacc => .inject hacc rfl
  | resume i h =>
    unfold step
    simp only
    split
    · rename_i c hc
      exact .turn (.resume hc)
    · exact .idle

end Config

end TangentFeed
