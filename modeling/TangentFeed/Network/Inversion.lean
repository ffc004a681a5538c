import TangentFeed.Network.Steps

/-!
# Where the parts of a configuration come from

A step read backwards: what it did to an engine (`Evolves`, `Reopened`), and
where a waiting handler, a message, a call of `syncOnce` or an event that is
there after it comes from.
-/

namespace TangentFeed.Config

variable {ι : Type} [DecidableEq ι] {cr : Crypto} {space : JsString} {w w' : Config ι}
  {a : Action ι} {i j : ι} {h : Nat} {src : Source}

/-! ## Engines -/

/-- An engine call that an action makes at node `j`. -/
inductive Acts (cr : Crypto) (space : JsString) (w : Config ι) (j : ι) :
    Action ι → Reply Unit → Prop where
  | same {a : Action ι} : Acts cr space w j a (w.same j)
  | call {c : Call} : Acts cr space w j (.call j c) (c.run cr (w.node j).engine)
  | learn {a : Action ι} {l : List (JsString × Bytes)} :
      Acts cr space w j a (.quiet ((w.node j).engine.learnKeys cr l) (.ok ()))
  | sync {k : Nat} {s : Sync ι} {r : Reply Unit} {next : Option SyncStage} :
      w.syncs[k]? = some s → SyncTurn cr w s j r next → Acts cr space w j (.resumeSync k) r
  | start : Acts cr space w j (.start j) (.quiet
      ((w.node j).engine.subscribe (Node.liveTailSubscriber fun _ => false)) (.ok ()))
  | stop : Acts cr space w j (.stop j) (.quiet ((w.node j).engine.unsubscribe .liveTail) (.ok ()))
  | turn {h : Nat} {a : Action ι} {src : Source} : Turn space w j h a src →
      Acts cr space w j a ((w.node j).stretch cr src).reply

/-- Node `j` made the call of reply `r`. -/
structure Evolves (cr : Crypto) (space : JsString) (w : Config ι) (a : Action ι) (w' : Config ι)
    (j : ι) (r : Reply Unit) : Prop where
  acts : Acts cr space w j a r
  engine : (w'.node j).engine = r.engine
  commits : ∀ ev, Event.committed j ev ∈ w'.trace ↔
    Event.committed j ev ∈ w.trace ∨ r.event = some ev

/-- Node `j` was opened again. -/
structure Reopened (cr : Crypto) (w : Config ι) (a : Action ι) (w' : Config ι) (j : ι)
    (opts : EngineOptions) (seed : Nat) (e : SyncEngine) : Prop where
  action : a = .reopen j opts seed
  opened : SyncEngine.openOn cr opts (w.node j).engine.storage seed = .ok e
  node : w'.node j = reopened (w.node j) e
  trace : w'.trace = w.trace ++ [.opened j]

omit [DecidableEq ι] in
theorem mem_commits {ev : ChangeEvent} {e : Option ChangeEvent} :
    Event.committed j ev ∈ TangentFeed.commits i e ↔ i = j ∧ e = some ev := by
  unfold TangentFeed.commits
  simp [eq_comm, and_comm]

omit [DecidableEq ι] in
theorem mem_endEvents {ev : ChangeEvent} {out : Outcome} :
    Event.committed j ev ∉ endEvents i h out := by
  cases out <;> simp [endEvents]

theorem commits_settle {r : Reply Unit} {ev : ChangeEvent} :
    Event.committed j ev ∈ (w.settle space i r).trace ↔
      Event.committed j ev ∈ w.trace ∨ i = j ∧ r.event = some ev := by
  rw [settle_eq]
  simp [mem_commits]

omit [DecidableEq ι] in
theorem synced_node {k : Nat} {x y : ι} {res : Except JsError Unit} {next : Option SyncStage} :
    (w.synced k x y res next).node = w.node := by
  unfold synced stage
  cases res <;> cases next <;> rfl

omit [DecidableEq ι] in
theorem synced_sent {k : Nat} {x y : ι} {res : Except JsError Unit} {next : Option SyncStage} :
    (w.synced k x y res next).sent = w.sent := by
  unfold synced stage
  cases res <;> cases next <;> rfl

omit [DecidableEq ι] in
theorem synced_nextSync {k : Nat} {x y : ι} {res : Except JsError Unit} {next : Option SyncStage} :
    (w.synced k x y res next).nextSync = w.nextSync := by
  unfold synced stage
  cases res <;> cases next <;> rfl

omit [DecidableEq ι] in
/-- The trace after a stretch of `syncOnce`. -/
theorem synced_trace (w : Config ι) (k : Nat) (x y : ι) (res : Except JsError Unit)
    (next : Option SyncStage) :
    ∃ l, (w.synced k x y res next).trace = w.trace ++ l ∧
      ∀ e ∈ l, e = .unsynced k ∨ e = .synced k ∧ res = .ok () ∧ next = none := by
  unfold synced stage
  cases res with
  | error _ => exact ⟨_, rfl, by simp⟩
  | ok _ =>
    cases next with
    | none => exact ⟨_, rfl, by simp⟩
    | some s => exact ⟨[], by simp, by simp⟩

theorem begun_node_of_ne (hj : j ≠ i) : (w.begun i src).node j = w.node j := by
  cases src with
  | message msg => exact Function.update_of_ne hj ..
  | waiting c => rfl

/-- What a stretch runs on but for the number of the next handler. -/
theorem begun_node_self (w : Config ι) (i : ι) (src : Source) :
    ((w.begun i src).node i).engine = (w.node i).engine ∧
      ((w.begun i src).node i).pending = (w.node i).pending := by
  cases src with
  | message msg =>
    unfold begun note setNode
    simp only [Function.update_self, and_self]
  | waiting c => exact ⟨rfl, rfl⟩

theorem begun_sent : (w.begun i src).sent = w.sent := by cases src <;> rfl

theorem begun_syncs : (w.begun i src).syncs = w.syncs := by cases src <;> rfl

theorem begun_nextSync : (w.begun i src).nextSync = w.nextSync := by cases src <;> rfl

theorem begun_trace (w : Config ι) (i : ι) (src : Source) :
    ∃ l, (w.begun i src).trace = w.trace ++ l ∧
      ∀ e ∈ l, ∃ msg, src = .message msg ∧ e = .handling i (w.node i).nextId msg := by
  cases src with
  | message msg => exact ⟨_, rfl, by simp⟩
  | waiting c => exact ⟨[], by simp [begun], by simp⟩

/-- The nodes when `syncOnce` starts: only keys were learned. -/
theorem startSync_spec (w : Config ι) (cr : Crypto) (space : JsString) (x y : ι) :
    (∀ j, ∃ l, ((w.startSync cr space x y).node j) =
      { w.node j with engine := (w.node j).engine.learnKeys cr l }) ∧
    (w.startSync cr space x y).sent = w.sent ∧
    (w.startSync cr space x y).trace = w.trace ++ [.syncing w.nextSync x y] ∧
    (w.startSync cr space x y).nextSync = w.nextSync + 1 ∧
    (w.startSync cr space x y).syncs = w.syncs.insert w.nextSync
      ⟨x, y, .readFrontier ((w.startSync cr space x y).node x).engine.frontier⟩ := by
  have share (w : Config ι) (x y j : ι) : ∃ l, (w.shareKeys cr space x y).node j =
      { w.node j with engine := (w.node j).engine.learnKeys cr l } := by
    by_cases hj : j = y
    · subst hj
      exact ⟨(w.node x).engine.keys.toList, settle_node_self _⟩
    · exact ⟨[], settle_node_of_ne _ hj⟩
  have rest (w : Config ι) (x y : ι) : (w.shareKeys cr space x y).sent = w.sent ∧
      (w.shareKeys cr space x y).trace = w.trace ∧ (w.shareKeys cr space x y).syncs = w.syncs ∧
      (w.shareKeys cr space x y).nextSync = w.nextSync := ⟨rfl, rfl, rfl, rfl⟩
  refine ⟨fun j => ?_, rfl, rfl, rfl, rfl⟩
  obtain ⟨l, hl⟩ := share w x y j
  obtain ⟨l', hl'⟩ := share (w.shareKeys cr space x y) y x j
  refine ⟨l ++ l', ?_⟩
  change ((w.shareKeys cr space x y).shareKeys cr space y x).node j = _
  rw [hl', hl]
  unfold SyncEngine.learnKeys
  rw [List.foldl_append]

theorem Turn.evolves (ht : Turn space w i h a src) :
    Evolves cr space w a ((w.begun i src).advance space i h ((w.node i).stretch cr src)) i
      ((w.node i).stretch cr src).reply := by
  refine ⟨.turn ht, ?_, fun ev => ?_⟩
  · rw [advance_eq]
    simp only [Function.update_self]
  · obtain ⟨l, hl, he⟩ := w.begun_trace i src
    have hn : Event.committed i ev ∉ l := by
      intro hm
      obtain ⟨msg, -, h⟩ := he _ hm
      cases h
    rw [advance_eq, hl]
    simp [mem_commits, mem_endEvents, hn]

/-- **What a step does to an engine.** -/
theorem Shape.evolves (hs : Shape cr space w a w') (j : ι) :
    (∃ r, Evolves cr space w a w' j r) ∨ ∃ opts seed e, Reopened cr w a w' j opts seed e := by
  have stay (hn : (w'.node j).engine = (w.node j).engine)
      (hc : ∀ ev, Event.committed j ev ∈ w'.trace ↔ Event.committed j ev ∈ w.trace) :
      (∃ r, Evolves cr space w a w' j r) ∨ ∃ opts seed e, Reopened cr w a w' j opts seed e :=
    .inl ⟨_, .same, hn, fun ev => by rw [hc]; simp [Config.same, Reply.quiet]⟩
  cases hs with
  | idle => exact stay rfl fun _ => Iff.rfl
  | @call i c =>
    by_cases hj : i = j
    · subst hj
      exact .inl ⟨_, .call, by rw [settle_node_self], fun ev => by rw [commits_settle]; simp⟩
    · exact stay (by rw [settle_node_of_ne _ (Ne.symm hj)]) fun ev => by
        rw [commits_settle]; simp [hj]
  | @reopen i opts seed e he =>
    by_cases hj : i = j
    · subst hj
      exact .inr ⟨opts, seed, e, rfl, he, Function.update_self .., rfl⟩
    · exact stay (congrArg Node.engine (Function.update_of_ne (Ne.symm hj) ..)) fun ev => by simp
  | @syncOnce x y hxy =>
    obtain ⟨hn, -, ht, -⟩ := w.startSync_spec cr space x y
    obtain ⟨l, hl⟩ := hn j
    exact .inl ⟨_, .learn, by rw [hl]; rfl, fun ev => by rw [ht]; simp [Reply.quiet]⟩
  | @resumeSync k s i r next hk hr =>
    have htrace : ∀ ev, Event.committed j ev ∈
        ((w.settle space i r).synced k s.a s.b r.result next).trace ↔
          Event.committed j ev ∈ w.trace ∨ i = j ∧ r.event = some ev := by
      intro ev
      obtain ⟨l, hl, he⟩ := (w.settle space i r).synced_trace k s.a s.b r.result next
      have hn : Event.committed j ev ∉ l := by
        intro hm
        rcases he _ hm with h | ⟨h, -⟩ <;> cases h
      rw [hl, List.mem_append, commits_settle]
      simp [hn]
    by_cases hj : i = j
    · subst hj
      exact .inl ⟨r, .sync hk hr, by rw [synced_node, settle_node_self], fun ev => by
        rw [htrace]; simp⟩
    · exact stay (by rw [synced_node, settle_node_of_ne _ (Ne.symm hj)]) fun ev => by
        rw [htrace]; simp [hj]
  | @start i =>
    by_cases hj : i = j
    · subst hj
      exact .inl ⟨_, .start, by simp [greet, setNode, Reply.quiet], fun ev => by
        simp [greet, setNode, Reply.quiet]⟩
    · exact stay (by simp [greet, setNode, Function.update_of_ne (Ne.symm hj)]) fun ev => Iff.rfl
  | @stop i =>
    by_cases hj : i = j
    · subst hj
      exact .inl ⟨_, .stop, by simp [setNode, Reply.quiet], fun ev => by simp [setNode, Reply.quiet]⟩
    · exact stay (by simp [setNode, Function.update_of_ne (Ne.symm hj)]) fun ev => Iff.rfl
  | @peerConnect i =>
    refine stay ?_ fun ev => Iff.rfl
    by_cases hj : i = j
    · subst hj; simp [greet, setNode]
    · simp [greet, setNode, Function.update_of_ne (Ne.symm hj)]
  | @turn i h _ src ht =>
    by_cases hj : i = j
    · subst hj
      exact .inl ⟨_, ht.evolves⟩
    · obtain ⟨l, hl, he⟩ := w.begun_trace i src
      refine stay ?_ fun ev => ?_
      · rw [advance_eq]
        simp only [Function.update_of_ne (Ne.symm hj)]
        rw [begun_node_of_ne (Ne.symm hj)]
      · have hn : Event.committed j ev ∉ l := by
          intro hm
          obtain ⟨msg, -, h⟩ := he _ hm
          cases h
        rw [advance_eq, hl]
        simp [mem_commits, mem_endEvents, hn, hj]

/-! ## Handlers -/

/-- Handler `h` of node `j` ran a stretch from `src`. -/
structure Ran (cr : Crypto) (space : JsString) (w : Config ι) (a : Action ι) (w' : Config ι)
    (j : ι) (h : Nat) (src : Source) : Prop where
  turn : Turn space w j h a src
  eq : w' = (w.begun j src).advance space j h ((w.node j).stretch cr src)

theorem Ran.evolves (hr : Ran cr space w a w' j h src) :
    Evolves cr space w a w' j ((w.node j).stretch cr src).reply := by
  rw [hr.eq]
  exact hr.turn.evolves

/-- A handler that takes a message has the next number. -/
theorem Ran.nextId {msg : WireMsg} (hr : Ran cr space w a w' j h (.message msg)) :
    h = (w.node j).nextId ∧ (w'.node j).nextId = (w.node j).nextId + 1 := by
  constructor
  · cases hr.turn with
    | deliver _ _ hh => exact hh
    | inject _ hh => exact hh
  · rw [hr.eq, advance_eq]
    simp [begun, setNode, note]

/-- What a stretch sends is on record. -/
theorem Ran.sent (hr : Ran cr space w a w' j h src) {b : MsgBody}
    (hb : b ∈ ((w.node j).stretch cr src).sent) :
    Event.sent j (some h) ⟨wireVersion, space, (w'.node j).engine.deviceId, b⟩ ∈ w'.trace := by
  have he : (w'.node j).engine = ((w.node j).stretch cr src).reply.engine := hr.evolves.engine
  rw [he, hr.eq, advance_eq]
  simp [hb]

theorem Shape.nextId_le (hs : Shape cr space w a w') (j : ι) :
    (w.node j).nextId ≤ (w'.node j).nextId := by
  have upd {n : Node} {i : ι} {f : ι → Node} (hf : f = Function.update w.node i n)
      (hn : (w.node i).nextId ≤ n.nextId) : (w.node j).nextId ≤ (f j).nextId := by
    subst hf
    by_cases hj : j = i
    · subst hj; rw [Function.update_self]; exact hn
    · rw [Function.update_of_ne hj]
  cases hs with
  | idle => exact Nat.le_refl _
  | call => exact upd (settle_node _) (Nat.le_refl _)
  | reopen => exact upd rfl (Nat.le_refl _)
  | @syncOnce x y hxy =>
    obtain ⟨l, hl⟩ := (w.startSync_spec cr space x y).1 j
    rw [hl]
  | resumeSync => exact upd (synced_node.trans (settle_node _)) (Nat.le_refl _)
  | start => exact upd (by simp [greet, setNode]; rfl) (Nat.le_succ _)
  | stop => exact upd rfl (Nat.le_refl _)
  | peerConnect => exact upd rfl (Nat.le_succ _)
  | @turn i h _ src ht =>
    rw [advance_eq]
    by_cases hj : j = i
    · subst hj
      simp only [Function.update_self]
      cases src with
      | message msg => simp [begun, note, setNode]
      | waiting c => exact Nat.le_refl _
    · simp only [Function.update_of_ne hj, begun_node_of_ne hj]
      exact Nat.le_refl _

/-- Handler `h` of node `j` was started to greet. -/
structure Greeting (w : Config ι) (a : Action ι) (w' : Config ι) (j : ι) (h : Nat) (c : Handler) :
    Prop where
  action : a = .start j ∨ a = .peerConnect j
  clock : ∃ clock, c = .greetSend clock
  number : h = (w.node j).nextId
  next : (w'.node j).nextId = (w.node j).nextId + 1

omit [DecidableEq ι] in
theorem Greeting.plain {c : Handler} (hg : Greeting w a w' j h c) : c.plain := by
  obtain ⟨clock, rfl⟩ := hg.clock
  trivial

/-- **Where a waiting handler comes from.** -/
theorem Shape.pending (hs : Shape cr space w a w') {c : Handler}
    (hc : (w'.node j).pending[h]? = some c) :
    (w.node j).pending[h]? = some c ∨
      (∃ src, Ran cr space w a w' j h src ∧ Node.Leaves cr (w.node j) src c) ∨
      Greeting w a w' j h c := by
  -- the node changes, but not what waits
  have keep {n : Node} {i : ι} {f : ι → Node} (hc : (f j).pending[h]? = some c)
      (hf : f = Function.update w.node i n) (hn : n.pending = (w.node i).pending) :
      (w.node j).pending[h]? = some c := by
    subst hf
    by_cases hj : j = i
    · subst hj; rw [Function.update_self, hn] at hc; exact hc
    · rw [Function.update_of_ne hj] at hc; exact hc
  -- a greeting is started
  have greeting {n : Node} {i : ι} {f : ι → Node} {clock : JsString}
      (hf : f = Function.update w.node i n) (hid : n.nextId = (w.node i).nextId + 1)
      (hn : n.pending = (w.node i).pending.insert (w.node i).nextId (.greetSend clock))
      (hc : (f j).pending[h]? = some c) :
      (w.node j).pending[h]? = some c ∨ i = j ∧ (∃ clock, c = .greetSend clock) ∧
        h = (w.node j).nextId ∧ (f j).nextId = (w.node j).nextId + 1 := by
    subst hf
    by_cases hj : j = i
    · subst hj
      rw [Function.update_self] at hc ⊢
      rw [hn, Std.ExtTreeMap.getElem?_insert_eq] at hc
      by_cases hh : (w.node j).nextId = h
      · rw [if_pos hh] at hc
        obtain rfl := Option.some.inj hc
        exact .inr ⟨rfl, ⟨clock, rfl⟩, hh.symm, hid⟩
      · rw [if_neg hh] at hc
        exact .inl hc
    · rw [Function.update_of_ne hj] at hc
      exact .inl hc
  cases hs with
  | idle => exact .inl hc
  | call => exact .inl (keep hc (settle_node _) rfl)
  | @reopen i opts seed e he =>
    by_cases hj : j = i
    · subst hj
      have e1 : (w.setNode j (reopened (w.node j) e)).node j = reopened (w.node j) e :=
        Function.update_self ..
      rw [e1] at hc
      simp [reopened] at hc
    · have e1 : (w.setNode i (reopened (w.node i) e)).node j = w.node j :=
        Function.update_of_ne hj ..
      rw [e1] at hc
      exact .inl hc
  | @syncOnce x y hxy =>
    obtain ⟨l, hl⟩ := (w.startSync_spec cr space x y).1 j
    rw [hl] at hc
    exact .inl hc
  | resumeSync => exact .inl (keep hc (synced_node.trans (settle_node _)) rfl)
  | stop => exact .inl (keep hc rfl rfl)
  | start =>
    rcases greeting (by simp only [greet, setNode, Function.update_idem, Function.update_self]; rfl)
      rfl rfl hc with hold | ⟨rfl, hclock, hnumber, hnext⟩
    · exact .inl hold
    · exact .inr (.inr ⟨.inl rfl, hclock, hnumber, hnext⟩)
  | peerConnect =>
    rcases greeting rfl rfl rfl hc with hold | ⟨rfl, hclock, hnumber, hnext⟩
    · exact .inl hold
    · exact .inr (.inr ⟨.inr rfl, hclock, hnumber, hnext⟩)
  | @turn i k _ src ht =>
    have hr : Ran cr space w a _ i k src := ⟨ht, rfl⟩
    have hb := w.begun_node_self i src
    rw [advance_eq] at hc
    by_cases hj : j = i
    · subst hj
      simp only [Function.update_self, hb.2] at hc
      by_cases hh : k = h
      · subst hh
        right; left
        refine ⟨src, hr, Node.leaves_of_wait ?_⟩
        cases ho : ((w.node j).stretch cr src).outcome with
        | wait c' =>
          rw [ho, pendingAfter, Std.ExtTreeMap.getElem?_insert_self] at hc
          rw [Option.some.inj hc]
        | done => rw [ho] at hc; simp [pendingAfter] at hc
        | failed => rw [ho] at hc; simp [pendingAfter] at hc
      · left
        rw [← hc]
        cases ((w.node j).stretch cr src).outcome with
        | wait c' => simp [pendingAfter, Std.ExtTreeMap.getElem?_insert_eq, hh]
        | done => simp [pendingAfter, Std.ExtTreeMap.getElem?_erase_eq, hh]
        | failed => simp [pendingAfter, Std.ExtTreeMap.getElem?_erase_eq, hh]
    · simp only [Function.update_of_ne hj, begun_node_of_ne hj] at hc
      exact .inl hc

/-! ## The state of the replicator -/

theorem Ran.node (hr : Ran cr space w a w' j h src) :
    (w'.node j).started = (w.node j).started ∧
      (w'.node j).peers = ((w.node j).stretch cr src).peers ∧
      (w'.node j).pending =
        pendingAfter (w.node j).pending h ((w.node j).stretch cr src).outcome := by
  have hb := (w.begun_node_self j src).2
  rw [hr.eq, advance_eq]
  simp only [Function.update_self, hb, and_true]
  cases src with
  | message msg => simp [begun, note, setNode]
  | waiting c => rfl

/-- What a step does to a replicator but for its engine. -/
inductive Replicates (cr : Crypto) (space : JsString) (w : Config ι) (a : Action ι)
    (w' : Config ι) (j : ι) : Prop where
  | same : (w'.node j).started = (w.node j).started → (w'.node j).peers = (w.node j).peers →
      (w'.node j).pending = (w.node j).pending → Replicates cr space w a w' j
  | greet : a = .start j ∨ a = .peerConnect j → Replicates cr space w a w' j
  | reopen {opts : EngineOptions} {seed : Nat} : a = .reopen j opts seed →
      Replicates cr space w a w' j
  | stop : a = .stop j → (w'.node j).started = false →
      (w'.node j).pending = (w.node j).pending → Replicates cr space w a w' j
  | ran {h : Nat} {src : Source} : Ran cr space w a w' j h src → Replicates cr space w a w' j

/-- **What a step does to a replicator.** -/
theorem Shape.replicates (hs : Shape cr space w a w') (j : ι) : Replicates cr space w a w' j := by
  have other {i : ι} {n : Node} (hf : w'.node = Function.update w.node i n) (hj : j ≠ i) :
      Replicates cr space w a w' j := by
    have e : w'.node j = w.node j := by rw [hf, Function.update_of_ne hj]
    exact .same (by rw [e]) (by rw [e]) (by rw [e])
  have engine {i : ι} {e : SyncEngine}
      (hf : w'.node = Function.update w.node i { w.node i with engine := e }) :
      Replicates cr space w a w' j := by
    by_cases hj : j = i
    · subst hj
      exact .same (by rw [hf, Function.update_self]) (by rw [hf, Function.update_self])
        (by rw [hf, Function.update_self])
    · exact other hf hj
  cases hs with
  | idle => exact .same rfl rfl rfl
  | call => exact engine (settle_node _)
  | @reopen i opts seed e he =>
    by_cases hj : j = i
    · subst hj
      exact .reopen rfl
    · exact other rfl hj
  | @syncOnce x y hxy =>
    obtain ⟨l, hl⟩ := (w.startSync_spec cr space x y).1 j
    exact .same (by rw [hl]) (by rw [hl]) (by rw [hl])
  | resumeSync => exact engine (synced_node.trans (settle_node _))
  | @start i =>
    by_cases hj : j = i
    · subst hj
      exact .greet (.inl rfl)
    · exact other (by simp only [greet, setNode, Function.update_idem, Function.update_self]; rfl) hj
  | @stop i =>
    by_cases hj : j = i
    · subst hj
      exact .stop rfl (by simp [setNode]) (by simp [setNode])
    · exact other rfl hj
  | @peerConnect i =>
    by_cases hj : j = i
    · subst hj
      exact .greet (.inr rfl)
    · exact other rfl hj
  | @turn i h _ src ht =>
    by_cases hj : j = i
    · subst hj
      exact .ran ⟨ht, rfl⟩
    · have e : ((w.begun i src).advance space i h ((w.node i).stretch cr src)).node j = w.node j := by
        rw [advance_eq]
        simp only [Function.update_of_ne hj]
        rw [begun_node_of_ne hj]
      exact .same (by rw [e]) (by rw [e]) (by rw [e])

/-! ## Messages, calls of `syncOnce` and events -/

theorem Shape.resumeSync_evolves {k : Nat} {s : Sync ι} {i : ι} {r : Reply Unit}
    {next : Option SyncStage} (hk : w.syncs[k]? = some s) (hr : SyncTurn cr w s i r next) :
    Evolves cr space w (.resumeSync k) ((w.settle space i r).synced k s.a s.b r.result next) i r := by
  refine ⟨.sync hk hr, by rw [synced_node, settle_node_self], fun ev => ?_⟩
  obtain ⟨l, hl, he⟩ := (w.settle space i r).synced_trace k s.a s.b r.result next
  have hn : Event.committed i ev ∉ l := by
    intro hm
    rcases he _ hm with h | ⟨h, -⟩ <;> cases h
  rw [hl, List.mem_append, commits_settle]
  simp [hn]

/-- What node `j` sends in a step: the live tail on a change event, or a stretch. -/
inductive Sends (cr : Crypto) (space : JsString) (w : Config ι) (a : Action ι) (w' : Config ι)
    (j : ι) : MsgBody → Prop where
  | tail {r : Reply Unit} {ev : ChangeEvent} {b : MsgBody} : Evolves cr space w a w' j r →
      r.event = some ev → b ∈ Node.liveTail ev → Sends cr space w a w' j b
  | said {h : Nat} {src : Source} {b : MsgBody} : Ran cr space w a w' j h src →
      b ∈ ((w.node j).stretch cr src).sent → Sends cr space w a w' j b

theorem mem_tail {α : Type} {r : Reply α} {b : MsgBody} (hb : b ∈ tail r) :
    ∃ ev, r.event = some ev ∧ b ∈ Node.liveTail ev := by
  unfold tail at hb
  cases hr : r.event with
  | none => rw [hr] at hb; cases hb
  | some ev =>
    rw [hr] at hb
    simp only at hb
    split at hb
    · exact ⟨ev, rfl, hb⟩
    · cases hb

/-- **What a step sends.** -/
theorem Shape.sends (hs : Shape cr space w a w') :
    ∃ l, w'.sent = w.sent ++ l ∧ ∀ m ∈ l, ∃ j b, Sends cr space w a w' j b ∧
      m = ⟨wireVersion, space, (w'.node j).engine.deviceId, b⟩ := by
  have nothing (he : w'.sent = w.sent) : ∃ l, w'.sent = w.sent ++ l ∧
      ∀ m ∈ l, ∃ j b, Sends cr space w a w' j b ∧
        m = ⟨wireVersion, space, (w'.node j).engine.deviceId, b⟩ :=
    ⟨[], by rw [he, List.append_nil], by simp⟩
  have called {i : ι} {r : Reply Unit} (he : Evolves cr space w a w' i r)
      (hsent : w'.sent = (w.settle space i r).sent) : ∃ l, w'.sent = w.sent ++ l ∧
      ∀ m ∈ l, ∃ j b, Sends cr space w a w' j b ∧
        m = ⟨wireVersion, space, (w'.node j).engine.deviceId, b⟩ := by
    refine ⟨_, by rw [hsent, settle_eq], fun m hm => ?_⟩
    obtain ⟨b, hb, rfl⟩ := List.mem_map.1 hm
    obtain ⟨ev, hev, hb⟩ := mem_tail hb
    exact ⟨i, b, .tail he hev hb, by rw [he.engine]⟩
  cases hs with
  | idle => exact nothing rfl
  | @call i c =>
    refine called ⟨.call, by rw [settle_node_self], fun ev => ?_⟩ rfl
    rw [commits_settle]
    simp
  | reopen => exact nothing rfl
  | syncOnce => exact nothing rfl
  | @resumeSync k s i r next hk hr => exact called (Shape.resumeSync_evolves hk hr) synced_sent
  | start => exact nothing rfl
  | stop => exact nothing rfl
  | peerConnect => exact nothing rfl
  | @turn i k _ src ht =>
    have hr : Ran cr space w a _ i k src := ⟨ht, rfl⟩
    have he := hr.evolves
    refine ⟨_, by rw [advance_eq, begun_sent], fun m hm => ?_⟩
    obtain ⟨b, hb, rfl⟩ := List.mem_map.1 hm
    rw [← he.engine]
    rcases List.mem_append.1 hb with hb | hb
    · obtain ⟨ev, hev, hb⟩ := mem_tail hb
      exact ⟨i, b, .tail he hev hb, rfl⟩
    · exact ⟨i, b, .said hr hb, rfl⟩

/-- **Where a message comes from**: a stretch, or the live tail. -/
theorem Shape.sent (hs : Shape cr space w a w') {msg : WireMsg} (hm : msg ∈ w'.sent) :
    msg ∈ w.sent ∨
      (∃ j h src, Ran cr space w a w' j h src ∧ ∃ b, Node.Says (w.node j) src b ∧
        msg = ⟨wireVersion, space, (w'.node j).engine.deviceId, b⟩) ∨
      ∃ j ev b, Event.committed j ev ∈ w'.trace ∧ b ∈ Node.liveTail ev ∧
        msg = ⟨wireVersion, space, (w'.node j).engine.deviceId, b⟩ := by
  obtain ⟨l, hl, hsends⟩ := hs.sends
  rw [hl] at hm
  rcases List.mem_append.1 hm with hm | hm
  · exact .inl hm
  · obtain ⟨j, b, hb, he⟩ := hsends msg hm
    cases hb with
    | tail hev hr hb => exact .inr (.inr ⟨j, _, b, (hev.commits _).2 (.inr hr), hb, he⟩)
    | said hran hb => exact .inr (.inl ⟨j, _, _, hran, b, Node.says_of_sent hb, he⟩)

/-- The `k`-th `syncOnce`, at `s`, made the call of `r` at node `i`. -/
structure Synced (cr : Crypto) (space : JsString) (w : Config ι) (a : Action ι) (w' : Config ι)
    (k : Nat) (s : Sync ι) (next : Option SyncStage) (i : ι) (r : Reply Unit) : Prop where
  action : a = .resumeSync k
  stage : w.syncs[k]? = some s
  turn : SyncTurn cr w s i r next
  evolves : Evolves cr space w a w' i r
  ok : r.result = .ok ()

/-- The `k`-th `syncOnce` started, between `i` and `j`. -/
structure Started (w : Config ι) (a : Action ι) (w' : Config ι) (k : Nat) (i j : ι) : Prop where
  action : a = .syncOnce i j
  number : k = w.nextSync
  next : w'.nextSync = w.nextSync + 1
  noted : w'.trace = w.trace ++ [.syncing k i j]

theorem started (w : Config ι) (cr : Crypto) (space : JsString) (x y : ι) :
    Started w (.syncOnce x y) (w.startSync cr space x y) w.nextSync x y :=
  ⟨rfl, rfl, rfl, rfl⟩

theorem Shape.nextSync_le (hs : Shape cr space w a w') : w.nextSync ≤ w'.nextSync := by
  cases hs with
  | syncOnce => exact Nat.le_succ _
  | call => rw [settle_eq]
  | resumeSync => rw [synced_nextSync, settle_eq]
  | turn => rw [advance_eq, begun_nextSync]
  | idle | reopen | start | stop | peerConnect => exact Nat.le_refl _

/-- **Where a call of `syncOnce` comes from.** -/
theorem Shape.syncs (hs : Shape cr space w a w') {k : Nat} {s : Sync ι}
    (hk : w'.syncs[k]? = some s) :
    w.syncs[k]? = some s ∨
      (∃ i j, Started w a w' k i j ∧ s = ⟨i, j, .readFrontier (w'.node i).engine.frontier⟩) ∨
      ∃ s₀ st i r, Synced cr space w a w' k s₀ (some st) i r ∧ s = ⟨s₀.a, s₀.b, st⟩ := by
  cases hs with
  | idle => exact .inl hk
  | call => rw [settle_eq] at hk; exact .inl hk
  | @reopen i =>
    have hk' : (w.syncs.filter fun _ s => s.a != i && s.b != i)[k]? = some s := hk
    rw [Std.ExtTreeMap.getElem?_filter] at hk'
    cases hw : w.syncs[k]? with
    | none => rw [hw] at hk'; simp at hk'
    | some s' =>
      rw [hw] at hk'
      simp only [Option.pfilter_some] at hk'
      split at hk'
      · exact .inl hk'
      · cases hk'
  | @syncOnce x y hxy =>
    obtain ⟨-, -, -, -, h⟩ := w.startSync_spec cr space x y
    rw [h, Std.ExtTreeMap.getElem?_insert_eq] at hk
    by_cases hn : w.nextSync = k
    · rw [if_pos hn] at hk
      rw [← hn]
      exact .inr (.inl ⟨x, y, w.started cr space x y, (Option.some.inj hk).symm⟩)
    · rw [if_neg hn] at hk
      exact .inl hk
  | @resumeSync k' s' i r next hk' hr =>
    have hev : Evolves cr space w (.resumeSync k') _ i r := Shape.resumeSync_evolves hk' hr
    have hsyncs : (w.settle space i r).syncs = w.syncs := by rw [settle_eq]
    cases hres : r.result with
    | error err =>
      rw [hres] at hk
      have hk₁ : ((w.settle space i r).syncs.erase k')[k]? = some s := hk
      rw [hsyncs, Std.ExtTreeMap.getElem?_erase_eq] at hk₁
      split at hk₁
      · cases hk₁
      · exact .inl hk₁
    | ok u =>
      cases next with
      | none =>
        rw [hres] at hk
        have hk₁ : ((w.settle space i r).syncs.erase k')[k]? = some s := hk
        rw [hsyncs, Std.ExtTreeMap.getElem?_erase_eq] at hk₁
        split at hk₁
        · cases hk₁
        · exact .inl hk₁
      | some st =>
        have hk₁ : ((w.settle space i r).syncs.insert k' ⟨s'.a, s'.b, st⟩)[k]? = some s := by
          rw [hres] at hk
          exact hk
        rw [hsyncs, Std.ExtTreeMap.getElem?_insert_eq] at hk₁
        by_cases hn : k' = k
        · subst hn
          rw [if_pos rfl] at hk₁
          rw [hres] at hev
          exact .inr (.inr ⟨s', st, i, r, ⟨rfl, hk', hr, hev, hres⟩, (Option.some.inj hk₁).symm⟩)
        · rw [if_neg hn] at hk₁
          exact .inl hk₁
  | start => exact .inl hk
  | stop => exact .inl hk
  | peerConnect => exact .inl hk
  | turn ht =>
    rw [advance_eq, begun_syncs] at hk
    exact .inl hk

/-- What an event can be of. -/
inductive Happens (cr : Crypto) (space : JsString) (w : Config ι) (a : Action ι) (w' : Config ι) :
    Event ι → Prop where
  | committed {j : ι} {ev : ChangeEvent} : Happens cr space w a w' (.committed j ev)
  | opened {j : ι} {opts : EngineOptions} {seed : Nat} {e : SyncEngine} :
      Reopened cr w a w' j opts seed e → Happens cr space w a w' (.opened j)
  | handling {j : ι} {h : Nat} {msg : WireMsg} : Ran cr space w a w' j h (.message msg) →
      Happens cr space w a w' (.handling j h msg)
  | tail {j : ι} {msg : WireMsg} : Happens cr space w a w' (.sent j none msg)
  | sent {j : ι} {h : Nat} {src : Source} {b : MsgBody} : Ran cr space w a w' j h src →
      Node.Says (w.node j) src b → Happens cr space w a w'
        (.sent j (some h) ⟨wireVersion, space, (w'.node j).engine.deviceId, b⟩)
  | finished {j : ι} {h : Nat} {src : Source} : Ran cr space w a w' j h src →
      Node.Ends (w.node j) src → Happens cr space w a w' (.finished j h)
  | failed {j : ι} {h : Nat} {src : Source} : Ran cr space w a w' j h src →
      Happens cr space w a w' (.failed j h)
  | syncing {k : Nat} {i j : ι} : Started w a w' k i j → Happens cr space w a w' (.syncing k i j)
  | synced {k : Nat} {s : Sync ι} {i : ι} {r : Reply Unit} :
      Synced cr space w a w' k s none i r → Happens cr space w a w' (.synced k)
  | unsynced {k : Nat} : Happens cr space w a w' (.unsynced k)

/-- **The trace grows by what happens.** -/
theorem Shape.trace (hs : Shape cr space w a w') :
    ∃ l, w'.trace = w.trace ++ l ∧ ∀ e ∈ l, Happens cr space w a w' e := by
  have none : ∃ l, w.trace = w.trace ++ l ∧ ∀ e ∈ l, Happens cr space w a w' e :=
    ⟨[], (List.append_nil _).symm, by simp⟩
  have called {i : ι} {r : Reply Unit} : ∃ l, (w.settle space i r).trace = w.trace ++ l ∧
      ∀ e ∈ l, Happens cr space w a w' e := by
    refine ⟨_, by rw [settle_eq, List.append_assoc], ?_⟩
    intro e he
    rcases List.mem_append.1 he with he | he
    · obtain ⟨ev, -, rfl⟩ := List.mem_map.1 he
      exact .committed
    · obtain ⟨b, -, rfl⟩ := List.mem_map.1 he
      exact .tail
  cases hs with
  | idle => exact none
  | call => exact called
  | @reopen i opts seed e he =>
    refine ⟨_, rfl, ?_⟩
    rintro _ (_ | ⟨_, h⟩)
    · exact .opened ⟨rfl, he, Function.update_self .., rfl⟩
    · cases h
  | @syncOnce x y hxy =>
    refine ⟨_, (w.startSync_spec cr space x y).2.2.1, ?_⟩
    rintro _ (_ | ⟨_, h⟩)
    · exact .syncing (w.started cr space x y)
    · cases h
  | @resumeSync k s i r next hk hr =>
    obtain ⟨l, hl, he⟩ := called (i := i) (r := r)
    obtain ⟨l', hl', he'⟩ := (w.settle space i r).synced_trace k s.a s.b r.result next
    refine ⟨l ++ l', by rw [hl', hl, List.append_assoc], ?_⟩
    intro e hm
    rcases List.mem_append.1 hm with hm | hm
    · exact he e hm
    · rcases he' e hm with rfl | ⟨rfl, hres, rfl⟩
      · exact .unsynced
      · exact .synced ⟨rfl, hk, hr, Shape.resumeSync_evolves hk hr, hres⟩
  | start => exact none
  | stop => exact none
  | peerConnect => exact none
  | @turn i h _ src ht =>
    have hr : Ran cr space w a _ i h src := ⟨ht, rfl⟩
    have hn : ∀ n : Node, n = ((w.begun i src).advance space i h ((w.node i).stretch cr src)).node i →
        n.engine = ((w.node i).stretch cr src).reply.engine := by
      rintro _ rfl
      exact hr.evolves.engine
    obtain ⟨l, hl, he⟩ := w.begun_trace i src
    refine ⟨l ++ _, by rw [advance_eq, hl, List.append_assoc], ?_⟩
    intro e hm
    rcases List.mem_append.1 hm with hm | hm
    · obtain ⟨msg, rfl, rfl⟩ := he e hm
      rw [← hr.nextId.1]
      exact .handling hr
    rcases List.mem_append.1 hm with hm | hm
    · rcases List.mem_append.1 hm with hm | hm
      · rcases List.mem_append.1 hm with hm | hm
        · obtain ⟨ev, -, rfl⟩ := List.mem_map.1 hm
          exact .committed
        · obtain ⟨b, -, rfl⟩ := List.mem_map.1 hm
          exact .tail
      · obtain ⟨b, hb, rfl⟩ := List.mem_map.1 hm
        rw [← hn _ rfl]
        exact .sent hr (Node.says_of_sent hb)
    · cases ho : ((w.node i).stretch cr src).outcome with
      | wait c => rw [ho] at hm; cases hm
      | done =>
        rw [ho] at hm
        obtain rfl := List.mem_singleton.1 hm
        exact .finished hr (Node.ends_of_done ho)
      | failed =>
        rw [ho] at hm
        obtain rfl := List.mem_singleton.1 hm
        exact .failed hr

end TangentFeed.Config
