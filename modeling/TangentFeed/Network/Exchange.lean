import TangentFeed.Network.SyncOnce

/-!
# Exchanges of messages

Handlers have numbers, and each handles one message (`Handles`). A handler of
operations that finished has merged them, and one that answers a `since` sends
all the asking replica does not know (`Exchanging`). So when an answer arrives
whole the asking replica is informed of all the other one had applied.
-/

namespace TangentFeed

/-- The message a handler was started for. -/
def Handler.Handles (msg : WireMsg) : Handler → Prop
  | greetSend _ => False
  | helloObserve .. | helloGreet _ | helloSendGreet .. | helloKeys _ | helloFrontier _
  | helloSince .. => ∃ clock key, msg.body = .hello clock key
  | sinceRecord sender f | sinceRead sender f =>
    msg.sender = sender ∧ ∃ receiver, msg.body = .since receiver f
  | sinceKeys sender _ | sinceSend sender _ =>
    msg.sender = sender ∧ ∃ receiver f, msg.body = .since receiver f
  | opsApply _ ops => ∃ receiver, msg.body = .ops receiver (ops.map Op.raw)
  | opsFrontier _ | opsAck .. => ∃ receiver js, msg.body = .ops receiver js
  | ackRecord _ f => ∃ receiver, msg.body = .ack receiver f

/-- Whom an answer is for. -/
def Handler.asker : Handler → Option JsString
  | sinceKeys sender _ | sinceSend sender _ => some sender
  | greetSend _ | helloObserve .. | helloGreet _ | helloSendGreet .. | helloKeys _
  | helloFrontier _ | helloSince .. | sinceRecord .. | sinceRead .. | opsApply .. | opsFrontier _
  | opsAck .. | ackRecord .. => none

/-- Where a batch is merged already. -/
def Handler.hasMerged : Handler → Prop
  | opsFrontier _ | opsAck .. => True
  | greetSend _ | helloObserve .. | helloGreet _ | helloSendGreet .. | helloKeys _
  | helloFrontier _ | helloSince .. | sinceRecord .. | sinceRead .. | sinceKeys .. | sinceSend ..
  | opsApply .. | ackRecord .. => False

variable {ι : Type} {cr : Crypto} {space : JsString}

/-- Replica `i` applied the operations on the wire. -/
def Merged (t : List (Event ι)) (i : ι) (js : List Json) : Prop :=
  ∀ x ∈ js, ∃ o ∈ applied t i, o.raw = x

theorem Merged.mono {t t' : List (Event ι)} {i : ι} {js : List Json} (hm : Merged t i js)
    (ht : applied t i ⊆ applied t' i) : Merged t' i js := by
  intro x hx
  obtain ⟨o, ho, hr⟩ := hm x hx
  exact ⟨o, ht ho, hr⟩

/-- The operations handler `h` of `i` sent. -/
def sentOps (t : List (Event ι)) (i : ι) (h : Nat) : Set Op :=
  {o | ∃ msg receiver js, Event.sent i (some h) msg ∈ t ∧ msg.body = .ops receiver js ∧ o.raw ∈ js}

theorem sentOps_mono {t t' : List (Event ι)} (ht : ∀ e ∈ t, e ∈ t') (i : ι) (h : Nat) :
    sentOps t i h ⊆ sentOps t' i h := fun _ ⟨msg, receiver, js, hm, hr⟩ =>
  ⟨msg, receiver, js, ht _ hm, hr⟩

namespace Config

open AntiEntropy SyncEngine

variable {C : Covering} {d : Deployment cr ι} {w w' : Config ι} {a : Action ι}
  {i j : ι} {h : Nat} {src src' : Source} {msg : WireMsg}

/-! ## Handlers and their messages -/

/-- An action runs one stretch. -/
theorem Turn.source_unique (ht : Turn space w i h a src) (ht' : Turn space w i h a src') :
    src = src' := by
  cases ht with
  | deliver hk => cases ht' with | deliver hk' => rw [Option.some.inj (hk.symm.trans hk')]
  | inject => cases ht' with | inject => rfl
  | resume hc => cases ht' with | resume hc' => rw [Option.some.inj (hc.symm.trans hc')]

variable [DecidableEq ι]

/-- A message is taken in already, or is taken in now. -/
theorem Shape.handling (hs : Shape cr space w a w') (hm : .handling j h msg ∈ w'.trace) :
    .handling j h msg ∈ w.trace ∨ Ran cr space w a w' j h (.message msg) := by
  obtain ⟨l, hl, he⟩ := hs.trace
  rw [hl] at hm
  rcases List.mem_append.1 hm with hm | hm
  · exact .inl hm
  · cases he _ hm with
    | handling hr => exact .inr hr

/-- A handler has finished already, or finishes now. -/
theorem Shape.finished (hs : Shape cr space w a w') (hm : .finished j h ∈ w'.trace) :
    .finished j h ∈ w.trace ∨ ∃ src, Ran cr space w a w' j h src ∧ Node.Ends (w.node j) src := by
  obtain ⟨l, hl, he⟩ := hs.trace
  rw [hl] at hm
  rcases List.mem_append.1 hm with hm | hm
  · exact .inl hm
  · cases he _ hm with
    | finished hr hends => exact .inr ⟨_, hr, hends⟩

/-- Handlers are numbered as they start. -/
structure Tagged (w : Config ι) : Prop where
  waiting : ∀ {j : ι} {h : Nat} {c : Handler}, (w.node j).pending[h]? = some c →
    h < (w.node j).nextId
  handling : ∀ {j : ι} {h : Nat} {msg : WireMsg}, .handling j h msg ∈ w.trace →
    h < (w.node j).nextId
  finished : ∀ {j : ι} {h : Nat}, .finished j h ∈ w.trace → h < (w.node j).nextId
  handles : ∀ {j : ι} {h : Nat} {c : Handler} {msg : WireMsg},
    (w.node j).pending[h]? = some c → .handling j h msg ∈ w.trace → c.Handles msg

/-- A handler that runs has a number already given, after the step. -/
theorem Tagged.ran (ht : Tagged w) (hs : Shape cr space w a w') (hr : Ran cr space w a w' j h src) :
    h < (w'.node j).nextId := by
  cases src with
  | message msg =>
    rw [hr.nextId.2, hr.nextId.1]
    exact Nat.lt_succ_self _
  | waiting c => exact Nat.lt_of_lt_of_le (ht.waiting hr.waiting) (hs.nextId_le j)

/-- Whatever a running handler has taken in is what it runs on. -/
theorem Tagged.handling_of_ran (ht : Tagged w) (hs : Shape cr space w a w')
    (hr : Ran cr space w a w' j h src) (hm : .handling j h msg ∈ w'.trace) :
    src = .message msg ∨ ∃ c, src = .waiting c ∧ c.Handles msg := by
  rcases hs.handling hm with hold | hnew
  · cases src with
    | message msg' =>
      have hlt := ht.handling hold
      rw [hr.nextId.1] at hlt
      exact absurd hlt (Nat.lt_irrefl _)
    | waiting c => exact .inr ⟨c, rfl, ht.handles hr.waiting hold⟩
  · exact .inl (hr.turn.source_unique hnew.turn)

/-- What a stretch leaves waiting handles the message it ran on. -/
theorem handles_of_leaves {n : Node} {c : Handler} (hl : Node.Leaves cr n src c)
    (hsrc : src = .message msg ∨ ∃ c, src = .waiting c ∧ c.Handles msg) : c.Handles msg := by
  rcases hsrc with rfl | ⟨c', rfl, hc'⟩
  · cases hl with
    | hello hm hc => cases c <;> first | exact hm | exact hc.elim
    | sinceRecord hb => exact ⟨rfl, _, hb⟩
    | @opsApply _ receiver js ops hb hok =>
      exact ⟨receiver, by rw [hb, (checkBatch_eq_ok hok).1]⟩
    | ackRecord hb => exact ⟨_, hb⟩
  · cases hl with
    | hello hm hc =>
      have hhello : ∃ clock key, msg.body = .hello clock key := by
        cases c' <;> first | exact hc' | exact hm.elim
      cases c <;> first | exact hhello | exact hc.elim
    | helloSince => exact hc'
    | sinceRead => exact hc'
    | sinceKeys => exact ⟨hc'.1, hc'.2.imp fun _ hb => ⟨_, hb⟩⟩
    | sinceSend => exact hc'
    | opsFrontier => exact hc'.imp fun _ hb => ⟨_, hb⟩
    | opsAck => exact hc'

theorem Tagged.step (ht : Tagged w) (hs : Shape cr space w a w') : Tagged w' where
  waiting := by
    intro j h c hc
    rcases hs.pending hc with hc | ⟨src, hran, -⟩ | hg
    · exact Nat.lt_of_lt_of_le (ht.waiting hc) (hs.nextId_le j)
    · exact ht.ran hs hran
    · rw [hg.number, hg.next]
      exact Nat.lt_succ_self _
  handling := by
    intro j h msg hm
    rcases hs.handling hm with hm | hran
    · exact Nat.lt_of_lt_of_le (ht.handling hm) (hs.nextId_le j)
    · exact ht.ran hs hran
  finished := by
    intro j h hm
    rcases hs.finished hm with hm | ⟨src, hran, -⟩
    · exact Nat.lt_of_lt_of_le (ht.finished hm) (hs.nextId_le j)
    · exact ht.ran hs hran
  handles := by
    intro j h c msg hc hm
    rcases hs.pending hc with hc | ⟨src, hran, hl⟩ | hg
    · rcases hs.handling hm with hm | hran
      · exact ht.handles hc hm
      · exact absurd (ht.waiting hc) (by rw [hran.nextId.1]; exact Nat.lt_irrefl _)
    · exact handles_of_leaves hl (ht.handling_of_ran hs hran hm)
    · rcases hs.handling hm with hm | hran
      · exact absurd (ht.handling hm) (by rw [hg.number]; exact Nat.lt_irrefl _)
      · rcases hg.action with rfl | rfl <;> cases hran.turn

/-! ## Merges and answers -/

/-- What handlers have achieved. From number `n j` on, those of `j` that answer
a `since` are to hand over all of `A j`. -/
structure Exchanging (C : Covering) (d : Deployment cr ι) (n : ι → Nat) (A : ι → Set Op)
    (w : Config ι) : Prop where
  tagged : Tagged w
  held : ∀ i, A i ⊆ TangentFeed.applied w.trace i
  merged : ∀ {i : ι} {h : Nat} {c : Handler} {msg : WireMsg} {receiver : Option JsString}
    {js : List Json}, (w.node i).pending[h]? = some c → c.hasMerged →
      .handling i h msg ∈ w.trace → msg.body = .ops receiver js → Merged w.trace i js
  finished : ∀ {i : ι} {h : Nat} {msg : WireMsg} {receiver : Option JsString} {js : List Json},
    .finished i h ∈ w.trace → .handling i h msg ∈ w.trace → msg.body = .ops receiver js →
      Merged w.trace i js
  answering : ∀ {i j : ι} {h : Nat} {c : Handler}, (w.node j).pending[h]? = some c → n j ≤ h →
    c.asker = some (d.device i) →
      ∀ o ∈ A j, Knows C.feed (TangentFeed.applied w.trace i ∪ {o | o ∈ c.answer}) o
  answered : ∀ {i j : ι} {h : Nat} {msg : WireMsg} {receiver : JsString} {f : Frontier},
    .finished j h ∈ w.trace → n j ≤ h → .handling j h msg ∈ w.trace →
      msg.body = .since receiver f → msg.sender = d.device i →
        ∀ o ∈ A j, Knows C.feed (TangentFeed.applied w.trace i ∪ sentOps w.trace j h) o

/-- A stretch that merged its batch without rejection. -/
theorem Sane.merged_of_ran (hd : Sane d w) {sender : JsString} {ops : List Op} {k : Nat}
    (hr : Ran cr space w a w' j h (.waiting (.opsApply sender ops)))
    (hok : ((w.node j).engine.mergeAdmitted ops).result = .ok k) :
    Merged w'.trace j (ops.map Op.raw) := by
  have happ := hd.merged hr.evolves (hd.merging hr.waiting) (mergeAdmitted_eq_ok hok).2
  intro x hx
  obtain ⟨o, ho, rfl⟩ := List.mem_map.1 hx
  exact ⟨o, by rw [happ]; exact .inr ho, rfl⟩

theorem ops_of_handles {sender : JsString} {ops : List Op} {receiver : Option JsString}
    {js : List Json} (hh : (Handler.opsApply sender ops).Handles msg)
    (hb : msg.body = .ops receiver js) : js = ops.map Op.raw := by
  obtain ⟨receiver', hb'⟩ := hh
  exact (MsgBody.ops.inj (hb.symm.trans hb')).2

variable {n : ι → Nat} {A : ι → Set Op}

theorem Exchanging.step_merged (hx : Exchanging C d n A w) (hd : Sane d w)
    (hs : Shape cr space w a w') {c : Handler} {receiver : Option JsString} {js : List Json}
    (hc : (w'.node i).pending[h]? = some c) (hm : c.hasMerged) (hh : .handling i h msg ∈ w'.trace)
    (hb : msg.body = .ops receiver js) : Merged w'.trace i js := by
  rcases hs.pending hc with hc | ⟨src, hran, hl⟩ | hg
  · rcases hs.handling hh with hh | hran
    · exact (hx.merged hc hm hh hb).mono (hs.applied_mono i)
    · exact absurd (hx.tagged.waiting hc) (by rw [hran.nextId.1]; exact Nat.lt_irrefl _)
  · have hsrc := hx.tagged.handling_of_ran hs hran hh
    cases hl with
    | hello _ hp => cases c <;> first | exact hp.elim | exact hm.elim
    | helloSince | sinceRecord | sinceRead | sinceKeys | sinceSend | opsApply | ackRecord =>
      exact hm.elim
    | opsFrontier hok =>
      obtain hsrc | ⟨c, hsrc, hc⟩ := hsrc
      · cases hsrc
      · cases hsrc
        rw [ops_of_handles hc hb]
        exact hd.merged_of_ran hran hok
    | opsAck =>
      rcases hs.handling hh with hh | hran'
      · exact (hx.merged hran.waiting trivial hh hb).mono (hs.applied_mono i)
      · cases hran.turn.source_unique hran'.turn
  · obtain ⟨clock, rfl⟩ := hg.clock
    exact hm.elim

theorem Exchanging.step_finished (hx : Exchanging C d n A w) (hd : Sane d w)
    (hs : Shape cr space w a w') {receiver : Option JsString} {js : List Json}
    (hf : .finished i h ∈ w'.trace) (hh : .handling i h msg ∈ w'.trace)
    (hb : msg.body = .ops receiver js) : Merged w'.trace i js := by
  rcases hs.finished hf with hf | ⟨src, hran, hends⟩
  · rcases hs.handling hh with hh | hran
    · exact (hx.finished hf hh hb).mono (hs.applied_mono i)
    · exact absurd (hx.tagged.finished hf) (by rw [hran.nextId.1]; exact Nat.lt_irrefl _)
  · rcases hx.tagged.handling_of_ran hs hran hh with rfl | ⟨c, rfl, hc⟩
    · cases hends with
      | keys hb' => cases hb.symm.trans hb'
      | noOps hb' =>
        obtain ⟨-, rfl⟩ := MsgBody.ops.inj (hb.symm.trans hb')
        exact fun x hx => by cases hx
    · cases hends with
      | greetSend => exact hc.elim
      | helloSince => obtain ⟨_, _, hb'⟩ := hc; cases hb.symm.trans hb'
      | sinceRead => obtain ⟨-, _, hb'⟩ := hc; cases hb.symm.trans hb'
      | sinceSend => obtain ⟨-, _, _, hb'⟩ := hc; cases hb.symm.trans hb'
      | ackRecord => obtain ⟨_, hb'⟩ := hc; cases hb.symm.trans hb'
      | opsApply hok =>
        rw [ops_of_handles hc hb]
        exact hd.merged_of_ran hran hok
      | opsAck =>
        rcases hs.handling hh with hh | hran'
        · exact (hx.merged hran.waiting trivial hh hb).mono (hs.applied_mono i)
        · cases hran.turn.source_unique hran'.turn

omit [DecidableEq ι] in
/-- What a peer answers to a frontier of replica `i`. -/
theorem Sane.answers (hd : Sane d w) (hk : Knowing C w) (hans : Answerable C w) {f : Frontier}
    (hf : Had d w.trace (d.device i) f) (hA : A j ⊆ TangentFeed.applied w.trace j) :
    ∀ o ∈ A j, Knows C.feed
      (TangentFeed.applied w.trace i ∪ {o | o ∈ (w.node j).engine.opsSince f}) o := by
  obtain ⟨k, hdev, hw⟩ := hf
  obtain rfl := d.device_injective hdev
  exact fun o ho => (hd.answer hk hans hw).2 o (hA ho)

theorem Exchanging.step_answering (hx : Exchanging C d n A w) (hd : Sane d w)
    (hk : Knowing C w) (hans : Answerable C w) (hs : Shape cr space w a w') {c : Handler}
    (hc : (w'.node j).pending[h]? = some c) (hn : n j ≤ h) (ha : c.asker = some (d.device i)) :
    ∀ o ∈ A j, Knows C.feed (TangentFeed.applied w'.trace i ∪ {o | o ∈ c.answer}) o := by
  have mono {B : Set Op} (hold : ∀ o ∈ A j, Knows C.feed (TangentFeed.applied w.trace i ∪ B) o) :
      ∀ o ∈ A j, Knows C.feed (TangentFeed.applied w'.trace i ∪ B) o := fun o ho =>
    (hold o ho).mono (Set.union_subset_union_left _ (hs.applied_mono i))
  rcases hs.pending hc with hc | ⟨src, hran, hl⟩ | hg
  · exact mono (hx.answering hc hn ha)
  · cases hl with
    | hello _ hp => cases c <;> first | exact hp.elim | cases ha
    | helloSince | sinceRecord | sinceRead | opsApply | opsFrontier | opsAck | ackRecord => cases ha
    | sinceKeys =>
      obtain rfl := Option.some.inj ha
      exact mono (hd.answers hk hans (hd.peer hran.waiting rfl) (hx.held j))
    | sinceSend =>
      have hold := hx.answering hran.waiting hn ha
      exact mono hold
  · obtain ⟨clock, rfl⟩ := hg.clock
    cases ha

theorem Exchanging.step_answered (hx : Exchanging C d n A w) (hd : Sane d w)
    (hk : Knowing C w) (hans : Answerable C w) (hs : Shape cr space w a w') {receiver : JsString}
    {f : Frontier} (hf : .finished j h ∈ w'.trace) (hn : n j ≤ h)
    (hh : .handling j h msg ∈ w'.trace) (hb : msg.body = .since receiver f)
    (hdev : msg.sender = d.device i) :
    ∀ o ∈ A j, Knows C.feed (TangentFeed.applied w'.trace i ∪ sentOps w'.trace j h) o := by
  rcases hs.finished hf with hf | ⟨src, hran, hends⟩
  · rcases hs.handling hh with hh | hran
    · exact fun o ho => (hx.answered hf hn hh hb hdev o ho).mono
        (Set.union_subset_union (hs.applied_mono i) (sentOps_mono hs.mono j h))
    · exact absurd (hx.tagged.finished hf) (by rw [hran.nextId.1]; exact Nat.lt_irrefl _)
  · rcases hx.tagged.handling_of_ran hs hran hh with rfl | ⟨c, rfl, hc⟩
    · cases hends with
      | keys hb' => cases hb.symm.trans hb'
      | noOps hb' => cases hb.symm.trans hb'
    · cases hends with
      | greetSend => exact hc.elim
      | helloSince => obtain ⟨_, _, hb'⟩ := hc; cases hb.symm.trans hb'
      | opsApply => obtain ⟨_, hb'⟩ := hc; cases hb.symm.trans hb'
      | opsAck => obtain ⟨_, _, hb'⟩ := hc; cases hb.symm.trans hb'
      | ackRecord => obtain ⟨_, hb'⟩ := hc; cases hb.symm.trans hb'
      | @sinceRead sender f' hnil =>
        obtain ⟨rfl, -⟩ := hc
        have hhad := hd.peer hran.waiting rfl
        rw [hdev] at hhad
        intro o ho
        have hknows := hd.answers hk hans hhad (hx.held j) o ho
        rw [hnil] at hknows
        refine hknows.mono (Set.union_subset ?_ fun p hp => by cases hp)
        exact (hs.applied_mono i).trans Set.subset_union_left
      | @sinceSend sender missing =>
        obtain ⟨rfl, -⟩ := hc
        intro o ho
        refine (hx.answering hran.waiting hn (congrArg some hdev) o ho).mono
          (Set.union_subset_union (hs.applied_mono i) fun p hp => ?_)
        obtain ⟨c, hc, hpc⟩ := exists_mem_chunks (by decide : 0 < opsPerMessage) hp
        exact ⟨_, _, _, hran.sent (List.mem_map_of_mem hc), rfl, List.mem_map_of_mem hpc⟩

/-- **Every honest step without gaps keeps it.** -/
theorem Exchanging.step (hx : Exchanging C d n A w) (hd : Sane d w) (hk : Knowing C w)
    (hans : Answerable C w) (hs : Shape cr space w a w') : Exchanging C d n A w' where
  tagged := hx.tagged.step hs
  held i := (hx.held i).trans (hs.applied_mono i)
  merged := hx.step_merged hd hs
  finished := hx.step_finished hd hs
  answering := hx.step_answering hd hk hans hs
  answered := hx.step_answered hd hk hans hs

omit [DecidableEq ι] in
theorem Exchanging.initial (C : Covering) (d : Deployment cr ι) :
    Exchanging C d (fun _ => 0) (fun _ => ∅) d.initial where
  tagged := {
    waiting := fun hc => by
      have hc' : (∅ : Std.ExtTreeMap Nat Handler compare)[_]? = _ := hc
      rw [Std.ExtTreeMap.getElem?_empty] at hc'
      cases hc'
    handling := fun hm => by cases hm
    finished := fun hm => by cases hm
    handles := fun _ hm => by cases hm }
  held _ := Set.empty_subset _
  merged _ _ hm := by cases hm
  finished hm := by cases hm
  answering _ _ _ o ho := absurd ho (Set.notMem_empty o)
  answered hm := by cases hm

omit [DecidableEq ι] in
/-- Handlers from now on are to hand over all that is applied now. -/
theorem Exchanging.takeOver (hx : Exchanging C d n A w) :
    Exchanging C d (fun j => (w.node j).nextId) (fun j => TangentFeed.applied w.trace j) w where
  tagged := hx.tagged
  held _ := Set.Subset.refl _
  merged := hx.merged
  finished := hx.finished
  answering hc hn := absurd (hx.tagged.waiting hc) (Nat.not_lt.2 hn)
  answered hf hn := absurd (hx.tagged.finished hf) (Nat.not_lt.2 hn)

/-- Since `w₀`, replica `j` took in a `since` of replica `i` and answered it, and
`i` took in every message of the answer, none rejected. -/
def Handed (d : Deployment cr ι) (w₀ w : Config ι) (j i : ι) : Prop :=
  ∃ h msg receiver f, (w₀.node j).nextId ≤ h ∧ Event.handling j h msg ∈ w.trace ∧
    msg.body = .since receiver f ∧ msg.sender = d.device i ∧ Event.finished j h ∈ w.trace ∧
    ∀ m receiver js, Event.sent j (some h) m ∈ w.trace → m.body = .ops receiver js →
      ∃ h', Event.handling i h' m ∈ w.trace ∧ Event.finished i h' ∈ w.trace

omit [DecidableEq ι] in
/-- **A complete exchange informs.** -/
theorem Exchanging.informed {w₀ : Config ι}
    (hx : Exchanging C d (fun j => (w₀.node j).nextId) A w) (hh : Handed d w₀ w j i) :
    Informed C w.trace (A j) i := by
  obtain ⟨h, msg, receiver, f, hn, hm, hb, hdev, hf, hall⟩ := hh
  intro o ho
  refine (hx.answered hf hn hm hb hdev o ho).mono (Set.union_subset (Set.Subset.refl _) ?_)
  rintro p ⟨m, receiver', js, hsent, hbody, hp⟩
  obtain ⟨h', hm', hf'⟩ := hall m receiver' js hsent hbody
  obtain ⟨q, hq, hraw⟩ := hx.finished hf' hm' hbody p.raw hp
  rw [← Op.ext hraw]
  exact hq

end Config

end TangentFeed
