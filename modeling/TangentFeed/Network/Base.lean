import TangentFeed.Network.Inversion

/-!
# What holds in every configuration

`Base` holds under any calls and any messages: every engine is consistent with
what its replica applied, what waits to be merged passed the checks, and what is
answered or sent was applied by somebody. With it every engine call has one of
the effects of `Replica/Calls`, for a reason (`Cause`).
-/

namespace TangentFeed

/-- The operations a handler is about to answer with. -/
def Handler.answer : Handler → List Op
  | sinceKeys _ missing | sinceSend _ missing => missing
  | greetSend _ | helloObserve _ _ | helloGreet _ | helloSendGreet _ _ | helloKeys _
  | helloFrontier _ | helloSince _ _ | sinceRecord _ _ | sinceRead _ _ | opsApply _ _
  | opsFrontier _ | opsAck _ _ | ackRecord _ _ => []

theorem Handler.answer_of_plain {c : Handler} (h : c.plain) : c.answer = [] := by
  cases c <;> first | rfl | exact h.elim

namespace Config

open SyncEngine

variable {ι : Type} [DecidableEq ι] {cr : Crypto} {space : JsString} {w w' : Config ι}
  {a : Action ι} {i j : ι} {h : Nat} {r : Reply Unit}

/-! ## The history -/

theorem Shape.mono (hs : Shape cr space w a w') : ∀ e ∈ w.trace, e ∈ w'.trace := by
  obtain ⟨l, hl, -⟩ := hs.trace
  rw [hl]
  exact fun e he => List.mem_append_left _ he

theorem Shape.applied_mono (hs : Shape cr space w a w') (j : ι) :
    applied w.trace j ⊆ applied w'.trace j := TangentFeed.applied_mono hs.mono j

theorem Shape.issued_mono (hs : Shape cr space w a w') : issued w.trace ⊆ issued w'.trace :=
  TangentFeed.issued_mono hs.mono

omit [DecidableEq ι] in
theorem Evolves.applied (he : Evolves cr space w a w' j r) :
    applied w'.trace j = applied w.trace j ∪ eventOps r.event := by
  ext o
  constructor
  · rintro ⟨ev, hm, ho⟩
    rcases (he.commits ev).1 hm with hm | hr
    · exact .inl ⟨ev, hm, ho⟩
    · exact .inr ⟨ev, hr, ho⟩
  · rintro (⟨ev, hm, ho⟩ | ⟨ev, hr, ho⟩)
    · exact ⟨ev, (he.commits ev).2 (.inl hm), ho⟩
    · exact ⟨ev, (he.commits ev).2 (.inr hr), ho⟩

omit [DecidableEq ι] in
theorem Reopened.applied {opts : EngineOptions} {seed : Nat} {e : SyncEngine}
    (hr : Reopened cr w a w' j opts seed e) (i : ι) : applied w'.trace i = applied w.trace i := by
  rw [hr.trace]
  exact applied_append_of_not_commit (fun e he hc => by
    rw [List.mem_singleton.1 he] at hc
    exact hc) i

/-- What is issued in a step is committed by a local write of it. -/
theorem Shape.issued (hs : Shape cr space w a w') {o : Op} (ho : o ∈ issued w'.trace) :
    o ∈ issued w.trace ∨ ∃ j r, Evolves cr space w a w' j r ∧ o ∈ localOps r.event := by
  obtain ⟨j, ev, hm, hl, ho⟩ := ho
  rcases hs.evolves j with ⟨r, hr⟩ | ⟨opts, seed, e, hr⟩
  · rcases (hr.commits ev).1 hm with hm | hev
    · exact .inl ⟨j, ev, hm, hl, ho⟩
    · exact .inr ⟨j, r, hr, ev, hev, hl, ho⟩
  · rw [hr.trace] at hm
    rcases List.mem_append.1 hm with hm | hm
    · exact .inl ⟨j, ev, hm, hl, ho⟩
    · cases List.mem_singleton.1 hm

/-! ## Why an engine is called -/

/-- The operations an action merges at node `j`. -/
inductive Merges (w : Config ι) (j : ι) : Action ι → List Op → Prop where
  | handler {h : Nat} {sender : JsString} {ops : List Op} :
      (w.node j).pending[h]? = some (.opsApply sender ops) → Merges w j (.resume j h) ops
  | applyB {k : Nat} {x : ι} {ops bToA : List Op} :
      w.syncs[k]? = some ⟨x, j, .applyB ops bToA⟩ → Merges w j (.resumeSync k) ops
  | applyA {k : Nat} {y : ι} {ops : List Op} :
      w.syncs[k]? = some ⟨j, y, .applyA ops⟩ → Merges w j (.resumeSync k) ops

/-- The frontier an action records at node `j` for a peer. -/
inductive Records (w : Config ι) (j : ι) : Action ι → JsString → Frontier → Prop where
  | since {h : Nat} {peer : JsString} {f : Frontier} :
      (w.node j).pending[h]? = some (.sinceRecord peer f) → Records w j (.resume j h) peer f
  | ack {h : Nat} {peer : JsString} {f : Frontier} :
      (w.node j).pending[h]? = some (.ackRecord peer f) → Records w j (.resume j h) peer f
  | syncA {k : Nat} {y : ι} {f : Frontier} : w.syncs[k]? = some ⟨j, y, .recordA f⟩ →
      Records w j (.resumeSync k) (w.node y).engine.deviceId f
  | syncB {k : Nat} {x : ι} {f : Frontier} : w.syncs[k]? = some ⟨x, j, .recordB f⟩ →
      Records w j (.resumeSync k) (w.node x).engine.deviceId f

/-- Why node `j` makes an engine call. -/
inductive Cause (cr : Crypto) (w : Config ι) (j : ι) :
    Action ι → Deed → Option ChangeEvent → Prop where
  | none {a : Action ι} : Cause cr w j a .write none
  | call {c : Call} : Cause cr w j (.call j c) c.deed (c.run cr (w.node j).engine).event
  | merge {a : Action ι} {ops : List Op} : Merges w j a ops →
      ((w.node j).engine.receiveMax ops).1 = .ok () → Cause cr w j a .write
        (some (changeEvent (freshOps (w.node j).engine.storage ops) .remote))
  | record {a : Action ι} {peer : JsString} {f : Frontier} : Records w j a peer f →
      Cause cr w j a (.record peer f) none

omit [DecidableEq ι] in
/-- A compaction is a call of the application. -/
theorem Cause.of_compact {dd : Deed} {ev : Option ChangeEvent} (h : Cause cr w j a dd ev)
    {opts : CompactionOptions} (hd : dd = .compact opts) : a = .call j (.compact opts) := by
  cases h with
  | none => cases hd
  | merge => cases hd
  | record => cases hd
  | @call c => cases c <;> cases hd; rfl

/-- What holds in every configuration. -/
structure Base (cr : Crypto) (w : Config ι) : Prop where
  consistent : ∀ i, (w.node i).engine.Consistent cr (TangentFeed.applied w.trace i)
  merging : ∀ {i : ι} {h : Nat} {sender : JsString} {ops : List Op},
    (w.node i).pending[h]? = some (.opsApply sender ops) →
      ∀ o ∈ ops, Admitted cr (w.node i).engine o
  answering : ∀ {i : ι} {h : Nat} {c : Handler}, (w.node i).pending[h]? = some c →
    ∀ o ∈ c.answer, o ∈ TangentFeed.applied w.trace i
  message : ∀ msg ∈ w.sent, ∀ {receiver : Option JsString} {js : List Json}, msg.body = .ops receiver js →
    ∀ x ∈ js, ∃ i, ∃ o ∈ TangentFeed.applied w.trace i, o.raw = x

omit [DecidableEq ι] in
/-- **Every engine call has one of the effects, for one of the reasons.** -/
theorem Acts.effect (hb : Base cr w) (ha : Acts cr space w j a r) :
    ∃ d, Effect cr (w.node j).engine r.engine d r.event ∧ Cause cr w j a d r.event := by
  have hi := (hb.consistent j).identity
  cases ha with
  | same => exact ⟨.write, .idle hi (.refl _), .none⟩
  | @call c => exact ⟨c.deed, c.run_effect hi, .call⟩
  | learn => exact ⟨.write, .learnKeys _ hi, .none⟩
  | start => exact ⟨.write, .subscribe hi _, .none⟩
  | stop => exact ⟨.write, .unsubscribe hi _, .none⟩
  | @sync k s r next hk ht =>
    have same : ∃ d, Effect cr (w.node j).engine (w.same j).engine d (w.same j).event ∧
        Cause cr w j (.resumeSync k) d (w.same j).event :=
      ⟨.write, .idle hi (.refl _), .none⟩
    have merge {ops : List Op} (hm : Merges w j (.resumeSync k) ops) :
        ∃ d, Effect cr (w.node j).engine
          ((w.node j).engine.applyRemoteOps cr (ops.map Op.raw)).engine d
            ((w.node j).engine.applyRemoteOps cr (ops.map Op.raw)).event ∧
          Cause cr w j (.resumeSync k) d
            ((w.node j).engine.applyRemoteOps cr (ops.map Op.raw)).event := by
      refine ⟨.write, .applyRemoteOps hi _, ?_⟩
      cases hev : ((w.node j).engine.applyRemoteOps cr (ops.map Op.raw)).event with
      | none => exact .none
      | some ev =>
        obtain ⟨hclock, rfl⟩ := applyRemoteOps_event hev
        exact .merge hm hclock
    cases ht with
    | applyB => exact merge (.applyB hk)
    | applyA => exact merge (.applyA hk)
    | recordA =>
      refine ⟨_, .recordPeerFrontier hi _ _, ?_⟩
      rw [recordPeerFrontier_event]
      exact .record (.syncA hk)
    | recordB =>
      refine ⟨_, .recordPeerFrontier hi _ _, ?_⟩
      rw [recordPeerFrontier_event]
      exact .record (.syncB hk)
    | readFrontier | readA | readB | skipB | skipA | ackB | ackA => exact same
  | @turn h a src ht =>
    obtain ⟨d, he, hd⟩ := @Node.stretch_effect cr (w.node j) src hi
      (fun {sender ops} hsrc => by
        subst hsrc
        cases ht with
        | resume hc => exact hb.merging hc)
    refine ⟨d, he, ?_⟩
    generalize ((w.node j).stretch cr src).reply.event = ev at hd
    cases hd with
    | write => exact .none
    | merge hclock => cases ht with | resume hc => exact .merge (.handler hc) hclock
    | sinceRecord => cases ht with | resume hc => exact .record (.since hc)
    | ackRecord => cases ht with | resume hc => exact .record (.ack hc)

/-! ## Preservation -/

omit [DecidableEq ι] in
/-- What an engine call left, as an effect. -/
theorem Evolves.effect (hb : Base cr w) (he : Evolves cr space w a w' j r) :
    ∃ d, Effect cr (w.node j).engine (w'.node j).engine d r.event ∧ Cause cr w j a d r.event := by
  rw [he.engine]
  exact he.acts.effect hb

theorem Ran.waiting {c : Handler} (hr : Ran cr space w a w' j h (.waiting c)) :
    (w.node j).pending[h]? = some c := by
  cases hr.turn with
  | resume hc => exact hc

omit [DecidableEq ι] in
/-- Nothing waits in a replica just opened. -/
theorem Reopened.pending {opts : EngineOptions} {seed : Nat} {e : SyncEngine}
    (hr : Reopened cr w a w' j opts seed e) (h : Nat) : (w'.node j).pending[h]? = none := by
  rw [hr.node]
  exact Std.ExtTreeMap.getElem?_empty

theorem Base.step_consistent (hb : Base cr w) (hs : Shape cr space w a w') (j : ι) :
    (w'.node j).engine.Consistent cr (TangentFeed.applied w'.trace j) := by
  rcases hs.evolves j with ⟨r, he⟩ | ⟨opts, seed, e, hr⟩
  · obtain ⟨d, heff, -⟩ := he.effect hb
    rw [he.applied]
    exact (hb.consistent j).effect heff
  · rw [hr.applied, hr.node]
    exact ((hb.consistent j).openOn hr.opened).1

theorem Base.step_merging (hb : Base cr w) (hs : Shape cr space w a w') {sender : JsString}
    {ops : List Op} (hc : (w'.node j).pending[h]? = some (.opsApply sender ops)) :
    ∀ o ∈ ops, Admitted cr (w'.node j).engine o := by
  rcases hs.evolves j with ⟨r, he⟩ | ⟨_, _, _, hr⟩
  · obtain ⟨d, heff, -⟩ := he.effect hb
    have old : ∀ o ∈ ops, Admitted cr (w.node j).engine o := by
      rcases hs.pending hc with hc | ⟨src, hran, hl⟩ | hg
      · exact hb.merging hc
      · cases hl with
        | hello _ hp => exact hp.elim
        | opsApply _ hok => exact admitted_of_checkBatch (hb.consistent j).identity hok
      · exact hg.plain.elim
    exact fun o ho => ⟨heff.known (old o ho).1, (old o ho).2⟩
  · rw [hr.pending] at hc
    cases hc

theorem Base.step_answering (hb : Base cr w) (hs : Shape cr space w a w') {c : Handler}
    (hc : (w'.node j).pending[h]? = some c) :
    ∀ o ∈ c.answer, o ∈ TangentFeed.applied w'.trace j := by
  intro o ho
  apply hs.applied_mono
  rcases hs.pending hc with hc | ⟨src, hran, hl⟩ | hg
  · exact hb.answering hc o ho
  · cases hl with
    | sinceKeys =>
      have hl := (hb.consistent j).ledger
      exact hl.logged (hl.keyed.mem_opsSince.1 ho).1
    | sinceSend => exact hb.answering hran.waiting o ho
    | hello _ hp => rw [Handler.answer_of_plain hp.plain] at ho; cases ho
    | helloSince | sinceRecord | sinceRead | opsApply | opsFrontier | opsAck | ackRecord => cases ho
  · rw [Handler.answer_of_plain hg.plain] at ho
    cases ho

theorem Base.step_message (hb : Base cr w) (hs : Shape cr space w a w') {msg : WireMsg}
    (hm : msg ∈ w'.sent) {receiver : Option JsString} {js : List Json}
    (hbody : msg.body = .ops receiver js) :
    ∀ x ∈ js, ∃ i, ∃ o ∈ TangentFeed.applied w'.trace i, o.raw = x := by
  intro x hx
  rcases hs.sent hm with hm | ⟨j, h, src, hran, b, hsays, rfl⟩ | ⟨j, ev, b, hev, hb', rfl⟩
  · obtain ⟨i, o, ho, he⟩ := hb.message msg hm hbody x hx
    exact ⟨i, o, hs.applied_mono i ho, he⟩
  · cases hsays with
    | answer hc =>
      obtain ⟨-, rfl⟩ := MsgBody.ops.inj hbody
      obtain ⟨o, ho, rfl⟩ := List.mem_map.1 hx
      exact ⟨j, o, hs.applied_mono j (hb.answering hran.waiting o (mem_of_mem_chunks hc ho)), rfl⟩
    | hello | keys | since | answerKeys | ack => cases hbody
  · obtain ⟨c, hc, rfl⟩ := mem_liveTail hb'
    obtain ⟨-, rfl⟩ := MsgBody.ops.inj hbody
    obtain ⟨o, ho, rfl⟩ := List.mem_map.1 hx
    exact ⟨j, o, ⟨ev, hev, mem_of_mem_chunks hc ho⟩, rfl⟩

/-- **Every step keeps it.** -/
theorem Base.step (hb : Base cr w) (hs : Shape cr space w a w') : Base cr w' where
  consistent := hb.step_consistent hs
  merging := hb.step_merging hs
  answering := hb.step_answering hs
  message _ hm _ _ := hb.step_message hs hm

omit [DecidableEq ι] in
theorem Base.initial (d : Deployment cr ι) : Base cr d.initial where
  consistent i := by
    have e : @TangentFeed.applied ι [] i = ∅ := by
      ext o
      constructor
      · rintro ⟨_, h, -⟩
        cases h
      · exact fun h => absurd h (Set.notMem_empty o)
    change Consistent cr (opened cr (d.opts i) (d.seed i)) (TangentFeed.applied [] i)
    rw [e]
    exact consistent_opened ..
  merging h := by
    have h' : (∅ : Std.ExtTreeMap Nat Handler compare)[_]? = _ := h
    rw [Std.ExtTreeMap.getElem?_empty] at h'
    cases h'
  answering h := by
    have h' : (∅ : Std.ExtTreeMap Nat Handler compare)[_]? = _ := h
    rw [Std.ExtTreeMap.getElem?_empty] at h'
    cases h'
  message _ h := by cases h

/-- A replica keeps its device. -/
theorem Base.step_device (hb : Base cr w) {d : Deployment cr ι}
    (hd : ∀ i, (w.node i).engine.deviceId = d.device i) (hs : Shape cr space w a w') (i : ι) :
    (w'.node i).engine.deviceId = d.device i := by
  rcases hs.evolves i with ⟨r, he⟩ | ⟨_, _, _, hr⟩
  · obtain ⟨_, heff, -⟩ := he.effect hb
    rw [heff.device, hd]
  · rw [hr.node]
    exact (((hb.consistent i).openOn hr.opened).2.2.1).trans (hd i)

/-- **Base holds in every configuration reached.** -/
theorem base_run (d : Deployment cr ι) (space : JsString) (acts : List (Action ι)) :
    Base cr (Runs.run (step cr space) d.initial acts) :=
  Runs.run_invariant (fun w a hb => hb.step (w.step_shape a)) (Base.initial d) acts

theorem device_run (d : Deployment cr ι) (space : JsString) (acts : List (Action ι)) (i : ι) :
    ((Runs.run (step cr space) d.initial acts).node i).engine.deviceId = d.device i :=
  (Runs.run_invariant (I := fun w => Base cr w ∧ ∀ i, (w.node i).engine.deviceId = d.device i)
    (fun w a h => ⟨h.1.step (w.step_shape a), h.1.step_device h.2 (w.step_shape a)⟩)
    ⟨Base.initial d, fun _ => rfl⟩ acts).2 i

end Config

end TangentFeed
