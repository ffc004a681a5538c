import TangentFeed.Network.Base

/-!
# Honest replicas

In an honest run every message was sent by a replica and every engine call but
the local ones is made by the protocol. `Sane` is what holds then: whatever is
applied was issued by a local write, whose author has it, identifiers are those
of one operation, and every frontier that was read, sent or recorded is one
that its replica had: each entry is the timestamp of an operation it applied.
-/

namespace TangentFeed

open SyncEngine

variable {cr : Crypto}

/-- The calls an application makes by itself. -/
def Call.Honest : Call → Prop
  | applyRemoteOps _ | recordPeerFrontier _ _ => False
  | insert _ _ | update _ _ _ | delete _ _ | observeRemoteClock _ | learnKey _ _ | compact _
  | subscribe _ | unsubscribe _ => True

def Action.Honest {ι : Type} : Action ι → Prop
  | .call _ c => c.Honest
  | .inject _ _ => False
  | .reopen _ _ _ | .syncOnce _ _ | .resumeSync _ | .start _ | .stop _ | .peerConnect _
  | .deliver _ _ | .resume _ _ => True

instance (c : Call) : Decidable c.Honest := by
  cases c <;> first | exact .isTrue trivial | exact .isFalse id

instance {ι : Type} (a : Action ι) : Decidable a.Honest :=
  match a with
  | .call _ c => inferInstanceAs (Decidable c.Honest)
  | .inject _ _ => .isFalse id
  | .reopen _ _ _ | .syncOnce _ _ | .resumeSync _ | .start _ | .stop _ | .peerConnect _
  | .deliver _ _ | .resume _ _ => .isTrue trivial

/-- The calls that write nothing of the application's. -/
def Call.Quiet : Call → Prop
  | insert _ _ | update _ _ _ | delete _ _ => False
  | applyRemoteOps _ | recordPeerFrontier _ _ | observeRemoteClock _ | learnKey _ _ | compact _
  | subscribe _ | unsubscribe _ => True

def Action.Quiet {ι : Type} : Action ι → Prop
  | .call _ c => c.Quiet
  | .inject _ _ | .reopen _ _ _ | .syncOnce _ _ | .resumeSync _ | .start _ | .stop _
  | .peerConnect _ | .deliver _ _ | .resume _ _ => True

instance (c : Call) : Decidable c.Quiet := by
  cases c <;> first | exact .isTrue trivial | exact .isFalse id

instance {ι : Type} (a : Action ι) : Decidable a.Quiet :=
  match a with
  | .call _ c => inferInstanceAs (Decidable c.Quiet)
  | .inject _ _ | .reopen _ _ _ | .syncOnce _ _ | .resumeSync _ | .start _ | .stop _
  | .peerConnect _ | .deliver _ _ | .resume _ _ => .isTrue trivial

/-- Whether an action compacts. -/
def Action.compacts {ι : Type} : Action ι → Bool
  | .call _ (.compact _) => true
  | _ => false

/-- Every entry is the timestamp of an operation in `H`. -/
def Witnessed (H : Set Op) (f : Frontier) : Prop :=
  ∀ d h : JsString, f[d]? = some h → ∃ q ∈ H, q.device = d ∧ q.hlc = h

theorem Witnessed.mono {H H' : Set Op} {f : Frontier} (h : Witnessed H f) (hs : H ⊆ H') :
    Witnessed H' f := fun dev t hf =>
  let ⟨q, hq, hc⟩ := h dev t hf
  ⟨q, hs hq, hc⟩

theorem MemoryAdapter.Ledger.witnessed {s : MemoryAdapter} {H : Set Op} (h : s.Ledger H) :
    Witnessed H s.frontier := fun _ _ hf => h.frontier_mem hf

/-! ## What calls commit -/

/-- Nothing but a local write or a merge commits. -/
theorem Call.event_of_honest {e : SyncEngine} {c : Call} (hc : c.Honest) {ev : ChangeEvent}
    (h : (c.run cr e).event = some ev) : ev.origin = .local := by
  have commit {e : SyncEngine} {ops : List Op} (h : (e.commit ops .local).event = some ev) :
      ev.origin = .local := by
    rcases e.commit_cases ops .local with hr | hr
    · rw [hr] at h
      cases h
    · rw [hr] at h
      rw [← Option.some.inj h]
      rfl
  have update {e : SyncEngine} {table row : JsString} {values : Record}
      (h : (e.update cr table row values).event = some ev) : ev.origin = .local := by
    unfold SyncEngine.update at h
    simp only at h
    split at h
    · cases h
    · exact commit h
  cases c with
  | insert table values =>
    unfold Call.run SyncEngine.insert at h
    simp only at h
    split at h
    · cases h
    · exact update h
  | update table row values => exact update h
  | delete table row =>
    unfold Call.run SyncEngine.delete at h
    simp only at h
    split at h
    · cases h
    · exact commit h
  | applyRemoteOps ops => exact hc.elim
  | observeRemoteClock hlc =>
    have h' : (e.observeRemoteClock hlc).event = some ev := h
    rw [observeRemoteClock_event] at h'
    cases h'
  | recordPeerFrontier peer f => exact hc.elim
  | learnKey id key => cases h
  | compact opts =>
    have h' : (e.compact opts).event = some ev := h
    rw [compact_event] at h'
    cases h'
  | subscribe s => cases h
  | unsubscribe id => cases h

/-- A call that neither writes nor merges commits nothing. -/
theorem Call.event_of_quiet {e : SyncEngine} {c : Call} (hc : c.Honest) (hq : c.Quiet) :
    (c.run cr e).event = none := by
  cases c with
  | insert | update | delete => exact hq.elim
  | applyRemoteOps | recordPeerFrontier => exact hc.elim
  | observeRemoteClock hlc => exact observeRemoteClock_event
  | compact opts => exact compact_event
  | learnKey | subscribe | unsubscribe => rfl

theorem compactStorage_peerFrontiers (s : MemoryAdapter) (opts : CompactionOptions) :
    (compactStorage s opts).1.peerFrontiers = s.peerFrontiers := by
  by_cases hd : opts.dryRun = true
  · rw [compactStorage_dryRun hd]
  · rw [compactStorage_fst (by simpa using hd)]
    rfl

/-- A peer's frontier is kept or was just recorded. -/
theorem SyncEngine.Effect.peerFrontiers {e e' : SyncEngine} {d : Deed} {ev : Option ChangeEvent}
    (h : Effect cr e e' d ev) {p : JsString} {f : Frontier}
    (hf : e'.storage.peerFrontiers[p]? = some f) :
    e.storage.peerFrontiers[p]? = some f ∨ d = .record p f := by
  cases h.store with
  | idle hs => rw [hs] at hf; exact .inl hf
  | clockSaved hs => rw [hs] at hf; exact .inl hf
  | compacted hs => rw [hs, compactStorage_peerFrontiers] at hf; exact .inl hf
  | committed hs => rw [hs] at hf; exact .inl hf
  | @peerSaved peer f' hs =>
    rw [hs] at hf
    have hf' : (e.storage.peerFrontiers.insert peer f')[p]? = some f := hf
    rw [Std.ExtTreeMap.getElem?_insert_eq] at hf'
    by_cases hp : peer = p
    · rw [if_pos hp] at hf'
      rw [hp, Option.some.inj hf']
      exact .inr rfl
    · rw [if_neg hp] at hf'
      exact .inl hf'

/-- A peer that has a record keeps having one. -/
theorem SyncEngine.Effect.peerFrontiers_kept {e e' : SyncEngine} {d : Deed} {ev : Option ChangeEvent}
    (h : Effect cr e e' d ev) {p : JsString} {f : Frontier}
    (hf : e.storage.peerFrontiers[p]? = some f) : ∃ f', e'.storage.peerFrontiers[p]? = some f' := by
  cases h.store with
  | idle hs => exact ⟨f, by rw [hs]; exact hf⟩
  | clockSaved hs => exact ⟨f, by rw [hs]; exact hf⟩
  | compacted hs => exact ⟨f, by rw [hs, compactStorage_peerFrontiers]; exact hf⟩
  | committed hs => exact ⟨f, by rw [hs]; exact hf⟩
  | @peerSaved peer f' hs =>
    have hget : e'.storage.peerFrontiers[p]? = (e.storage.peerFrontiers.insert peer f')[p]? := by
      rw [hs]
      rfl
    rw [Std.ExtTreeMap.getElem?_insert_eq] at hget
    by_cases hp : peer = p
    · exact ⟨f', hget.trans (if_pos hp)⟩
    · exact ⟨f, hget.trans ((if_neg hp).trans hf)⟩

/-- The operations of one write have different ids. -/
theorem SyncEngine.LocalBatch.id_inj {e e' : SyncEngine} {ops : List Op}
    (hb : LocalBatch cr e e' ops) {o p : Op} (ho : o ∈ ops) (hp : p ∈ ops) (h : o.id = p.id) :
    o = p := by
  have hn : (ops.map Op.ticks).Nodup := by
    rw [List.Nodup, List.pairwise_map]
    exact hb.increasing.imp fun h => Nat.ne_of_lt h
  rw [o.id_eq_hlc, p.id_eq_hlc] at h
  exact List.inj_on_of_nodup_map hn ho hp (Op.ticks_eq_of_hlc h)

/-! ## The invariant -/

/-- A frontier of this replica that a handler holds. -/
def Handler.ownFrontier : Handler → Option Frontier
  | helloSince _ f | opsAck _ f => some f
  | greetSend _ | helloObserve _ _ | helloGreet _ | helloSendGreet _ _ | helloKeys _
  | helloFrontier _ | sinceRecord _ _ | sinceRead _ _ | sinceKeys _ _ | sinceSend _ _
  | opsApply _ _ | opsFrontier _ | ackRecord _ _ => none

/-- A frontier of a peer that a handler holds. -/
def Handler.peerFrontier : Handler → Option (JsString × Frontier)
  | sinceRecord s f | sinceRead s f | ackRecord s f => some (s, f)
  | greetSend _ | helloObserve _ _ | helloGreet _ | helloSendGreet _ _ | helloKeys _
  | helloFrontier _ | helloSince _ _ | sinceKeys _ _ | sinceSend _ _ | opsApply _ _
  | opsFrontier _ | opsAck _ _ => none

theorem Handler.frontiers_of_plain {c : Handler} (h : c.plain) :
    c.ownFrontier = none ∧ c.peerFrontier = none := by
  cases c <;> first | exact ⟨rfl, rfl⟩ | exact h.elim

def MsgBody.frontier? : MsgBody → Option Frontier
  | since _ f | ack _ f => some f
  | hello _ _ | keys _ _ | ops _ _ => none

namespace Config

variable {ι : Type} {d : Deployment cr ι} {space : JsString} {w w' : Config ι}
  {a : Action ι} {i j : ι} {h : Nat} {r : Reply Unit}

/-- A frontier that the replica of device `peer` had. -/
def Had (d : Deployment cr ι) (t : List (Event ι)) (peer : JsString) (f : Frontier) : Prop :=
  ∃ j, peer = d.device j ∧ Witnessed (TangentFeed.applied t j) f

/-- What `syncOnce(a, b)` holds at a stage. -/
def SaneStage (t : List (Event ι)) (a b : ι) : SyncStage → Prop
  | .readFrontier fa => Witnessed (TangentFeed.applied t a) fa
  | .readA fa fb => Witnessed (TangentFeed.applied t a) fa ∧ Witnessed (TangentFeed.applied t b) fb
  | .readB fa aToB => Witnessed (TangentFeed.applied t a) fa ∧
      ∀ o ∈ aToB, o ∈ TangentFeed.applied t a
  | .applyB aToB bToA => (∀ o ∈ aToB, o ∈ TangentFeed.applied t a) ∧
      ∀ o ∈ bToA, o ∈ TangentFeed.applied t b
  | .applyA bToA => ∀ o ∈ bToA, o ∈ TangentFeed.applied t b
  | .ackB | .ackA => True
  | .recordA fb => Witnessed (TangentFeed.applied t b) fb
  | .recordB fa => Witnessed (TangentFeed.applied t a) fa

theorem SaneStage.mono {t t' : List (Event ι)} {a b : ι} {s : SyncStage}
    (hs : SaneStage t a b s) (ht : ∀ i, TangentFeed.applied t i ⊆ TangentFeed.applied t' i) :
    SaneStage t' a b s := by
  cases s with
  | readFrontier fa => exact Witnessed.mono hs (ht a)
  | readA fa fb => exact ⟨Witnessed.mono hs.1 (ht a), Witnessed.mono hs.2 (ht b)⟩
  | readB fa aToB => exact ⟨Witnessed.mono hs.1 (ht a), fun o ho => ht a (hs.2 o ho)⟩
  | applyB aToB bToA => exact ⟨fun o ho => ht a (hs.1 o ho), fun o ho => ht b (hs.2 o ho)⟩
  | applyA bToA => exact fun o ho => ht b (hs o ho)
  | ackB | ackA => trivial
  | recordA fb => exact Witnessed.mono hs (ht b)
  | recordB fa => exact Witnessed.mono hs (ht a)

/-- What holds in every configuration of an honest run. -/
structure Sane (d : Deployment cr ι) (w : Config ι) : Prop where
  base : Base cr w
  device : ∀ i, (w.node i).engine.deviceId = d.device i
  issued : ∀ i, TangentFeed.applied w.trace i ⊆ TangentFeed.issued w.trace
  author : ∀ o ∈ TangentFeed.issued w.trace,
    ∃ i, o.device = d.device i ∧ o ∈ TangentFeed.applied w.trace i
  distinct : ∀ o ∈ TangentFeed.issued w.trace, ∀ p ∈ TangentFeed.issued w.trace,
    o.id = p.id → o = p
  own : ∀ {i : ι} {h : Nat} {c : Handler} {f : Frontier}, (w.node i).pending[h]? = some c →
    c.ownFrontier = some f → Witnessed (TangentFeed.applied w.trace i) f
  peer : ∀ {i : ι} {h : Nat} {c : Handler} {s : JsString} {f : Frontier},
    (w.node i).pending[h]? = some c → c.peerFrontier = some (s, f) → Had d w.trace s f
  merging : ∀ {i : ι} {h : Nat} {sender : JsString} {ops : List Op},
    (w.node i).pending[h]? = some (.opsApply sender ops) →
      ∀ o ∈ ops, o ∈ TangentFeed.issued w.trace
  message : ∀ msg ∈ w.sent, ∀ {f : Frontier}, msg.body.frontier? = some f →
    Had d w.trace msg.sender f
  sync : ∀ {k : Nat} {s : Sync ι}, w.syncs[k]? = some s → SaneStage w.trace s.a s.b s.stage
  recorded : ∀ {i : ι} {p : JsString} {f : Frontier},
    (w.node i).engine.storage.peerFrontiers[p]? = some f → Had d w.trace p f

/-- What an action merges was issued. -/
theorem Sane.merges (hd : Sane d w) {ops : List Op} (hm : Merges w j a ops) :
    ∀ o ∈ ops, o ∈ TangentFeed.issued w.trace := by
  cases hm with
  | handler hc => exact hd.merging hc
  | applyB hk => exact fun o ho => hd.issued _ ((hd.sync hk).1 o ho)
  | applyA hk => exact fun o ho => hd.issued _ (hd.sync hk o ho)

/-- What an action records is a frontier its replica had. -/
theorem Sane.records (hd : Sane d w) {p : JsString} {f : Frontier} (hr : Records w j a p f) :
    Had d w.trace p f := by
  cases hr with
  | since hc => exact hd.peer hc rfl
  | ack hc => exact hd.peer hc rfl
  | syncA hk => exact ⟨_, hd.device _, hd.sync hk⟩
  | syncB hk => exact ⟨_, hd.device _, hd.sync hk⟩

/-- A local event is a batch of the replica's own. -/
theorem Evolves.local_batch (hb : Base cr w) (he : Evolves cr space w a w' j r) {o : Op}
    (ho : o ∈ localOps r.event) : ∃ ops, r.event = some (changeEvent ops .local) ∧ o ∈ ops ∧
      LocalBatch cr (w.node j).engine (w'.node j).engine ops := by
  obtain ⟨ev, hev, hl, ho⟩ := ho
  obtain ⟨_, heff, -⟩ := he.effect hb
  rw [hev] at heff ⊢
  cases heff.store with
  | @committed ops origin _ hbatch =>
    obtain rfl : origin = .local := hl
    exact ⟨ops, rfl, ho, hbatch⟩

/-- What is committed was issued before and merged now, or is issued now. -/
theorem Sane.committed (hd : Sane d w) (ha : a.Honest) (he : Evolves cr space w a w' j r) {o : Op}
    (ho : o ∈ eventOps r.event) :
    o ∈ localOps r.event ∨
      ∃ ops, Merges w j a ops ∧ ((w.node j).engine.receiveMax ops).1 = .ok () ∧
        o ∈ ops ∧ o ∈ TangentFeed.issued w.trace := by
  obtain ⟨ev, hev, ho⟩ := ho
  obtain ⟨dd, -, hcause⟩ := he.effect hd.base
  rw [hev] at hcause ⊢
  generalize hx : some ev = x at hcause
  cases hcause with
  | none => cases hx
  | record => cases hx
  | call => exact .inl ⟨ev, hx.symm, Call.event_of_honest ha hx.symm, ho⟩
  | @merge _ ops hm hclock =>
    rw [Option.some.inj hx] at ho
    have ho' := (freshOps_spec _ ops).2.1 o ho
    exact .inr ⟨ops, hm, hclock, ho', hd.merges hm o ho'⟩

/-- The author of an issued operation is the replica of its device. -/
theorem Sane.own_applied (hd : Sane d w) {o : Op} (ho : o ∈ TangentFeed.issued w.trace)
    (hi : o.device = d.device i) : o ∈ TangentFeed.applied w.trace i := by
  obtain ⟨k, hk, ho⟩ := hd.author o ho
  rw [d.distinct (hi.symm.trans hk)]
  exact ho

/-- **What is issued is later than everything of its device.** -/
theorem Sane.issued_later (hd : Sane d w) (he : Evolves cr space w a w' j r) {o q : Op}
    (ho : o ∈ localOps r.event) (hq : q ∈ TangentFeed.issued w.trace) (hdev : q.device = o.device) :
    q.hlc < o.hlc := by
  obtain ⟨ops, -, ho, hb⟩ := he.local_batch hd.base ho
  have h1 : q.device = d.device j := by rw [hdev, hb.device o ho, hd.device]
  have h2 := (hd.base.consistent j).dominated q (hd.own_applied hq h1)
  have h3 := (hd.base.consistent j).saved
  have h4 := (hb.later o ho).1
  exact Op.hlc_lt.2 (.inl (by omega))

/-! ## Preservation -/

variable [DecidableEq ι]

theorem Had.step {p : JsString} {f : Frontier} (hh : Had d w.trace p f)
    (hs : Shape cr space w a w') : Had d w'.trace p f :=
  let ⟨j, hj, hf⟩ := hh
  ⟨j, hj, hf.mono (hs.applied_mono j)⟩

theorem Sane.step_issued (hd : Sane d w) (hs : Shape cr space w a w') (ha : a.Honest) (i : ι) :
    TangentFeed.applied w'.trace i ⊆ TangentFeed.issued w'.trace := by
  intro o ho
  rcases hs.evolves i with ⟨r, he⟩ | ⟨_, _, _, hr⟩
  · rw [he.applied] at ho
    rcases ho with ho | ho
    · exact hs.issued_mono (hd.issued i ho)
    · rcases hd.committed ha he ho with ⟨ev, hev, hl, ho⟩ | ⟨_, -, -, -, ho⟩
      · exact ⟨i, ev, (he.commits ev).2 (.inr hev), hl, ho⟩
      · exact hs.issued_mono ho
  · rw [hr.applied] at ho
    exact hs.issued_mono (hd.issued i ho)

theorem Sane.step_author (hd : Sane d w) (hs : Shape cr space w a w') :
    ∀ o ∈ TangentFeed.issued w'.trace,
      ∃ i, o.device = d.device i ∧ o ∈ TangentFeed.applied w'.trace i := by
  intro o ho
  rcases hs.issued ho with ho | ⟨j, r, he, ho⟩
  · obtain ⟨i, hi, ho⟩ := hd.author o ho
    exact ⟨i, hi, hs.applied_mono i ho⟩
  · obtain ⟨ops, hev, hmem, hb⟩ := he.local_batch hd.base ho
    refine ⟨j, by rw [hb.device o hmem, hd.device], ?_⟩
    rw [he.applied]
    exact .inr (localOps_subset _ ho)

theorem Sane.step_distinct (hd : Sane d w) (hs : Shape cr space w a w') :
    ∀ o ∈ TangentFeed.issued w'.trace, ∀ p ∈ TangentFeed.issued w'.trace, o.id = p.id → o = p := by
  -- an operation issued now is not one issued before
  have fresh {j : ι} {r : Reply Unit} (he : Evolves cr space w a w' j r) {o p : Op}
      (ho : o ∈ localOps r.event) (hp : p ∈ TangentFeed.issued w.trace) : o.id ≠ p.id := by
    intro hid
    rw [o.id_eq_hlc, p.id_eq_hlc] at hid
    have hlt := hd.issued_later he ho hp (Op.device_eq_of_hlc hid).symm
    rw [hid] at hlt
    exact lt_irrefl _ hlt
  intro o ho p hp hid
  rcases hs.issued ho with ho' | ⟨j, r, he, ho'⟩
  · rcases hs.issued hp with hp' | ⟨k, r', he', hp'⟩
    · exact hd.distinct o ho' p hp' hid
    · exact absurd hid.symm (fresh he' hp' ho')
  · rcases hs.issued hp with hp' | ⟨k, r', he', hp'⟩
    · exact absurd hid (fresh he ho' hp')
    · obtain ⟨ops, hev, hmem, hb⟩ := he.local_batch hd.base ho'
      obtain ⟨ops', hev', hmem', hb'⟩ := he'.local_batch hd.base hp'
      -- one device, so one replica, which commits once in a step
      have hjk : j = k := by
        have e := hid
        rw [o.id_eq_hlc, p.id_eq_hlc] at e
        have e := Op.device_eq_of_hlc e
        rw [hb.device o hmem, hb'.device p hmem', hd.device, hd.device] at e
        exact d.distinct e
      subst hjk
      rcases (he.commits _).1 ((he'.commits _).2 (.inr hev')) with hold | hsame
      · exact absurd hid (fresh he ho' ⟨j, _, hold, rfl, hmem'⟩)
      · rw [hev] at hsame
        have e : ops = ops' := congrArg ChangeEvent.ops (Option.some.inj hsame)
        exact hb.id_inj hmem (by rw [e]; exact hmem') hid

/-- Without writes nothing is issued. -/
theorem Shape.issued_quiet (hs : Shape cr space w a w') (hb : Base cr w) (ha : a.Honest)
    (hq : a.Quiet) : TangentFeed.issued w'.trace = TangentFeed.issued w.trace := by
  refine Set.Subset.antisymm (fun o ho => ?_) hs.issued_mono
  rcases hs.issued ho with ho | ⟨j, r, he, ev, hev, hl, ho⟩
  · exact ho
  · obtain ⟨dd, -, hcause⟩ := he.effect hb
    rw [hev] at hcause
    generalize hx : some ev = x at hcause
    cases hcause with
    | none => cases hx
    | record => cases hx
    | merge => rw [Option.some.inj hx] at hl; cases hl
    | call => rw [Call.event_of_quiet ha hq] at hx; cases hx

/-- A message taken in an honest step was sent. -/
theorem Ran.message_mem {msg : WireMsg} (hr : Ran cr space w a w' j h (.message msg))
    (ha : a.Honest) : msg ∈ w.sent := by
  cases hr.turn with
  | deliver hk => exact List.mem_of_getElem? hk
  | inject => exact ha.elim

theorem Sane.step_own (hd : Sane d w) (hs : Shape cr space w a w') {c : Handler} {f : Frontier}
    (hc : (w'.node j).pending[h]? = some c) (hf : c.ownFrontier = some f) :
    Witnessed (TangentFeed.applied w'.trace j) f := by
  refine Witnessed.mono ?_ (hs.applied_mono j)
  rcases hs.pending hc with hc | ⟨src, hran, hl⟩ | hg
  · exact hd.own hc hf
  · cases hl with
    | helloSince => rw [← Option.some.inj hf]; exact (hd.base.consistent j).ledger.witnessed
    | opsAck => rw [← Option.some.inj hf]; exact (hd.base.consistent j).ledger.witnessed
    | hello _ hp => rw [(Handler.frontiers_of_plain hp.plain).1] at hf; cases hf
    | sinceRecord | sinceRead | sinceKeys | sinceSend | opsApply | opsFrontier | ackRecord =>
      cases hf
  · rw [(Handler.frontiers_of_plain hg.plain).1] at hf
    cases hf

theorem Sane.step_peer (hd : Sane d w) (hs : Shape cr space w a w') (ha : a.Honest) {c : Handler}
    {s : JsString} {f : Frontier} (hc : (w'.node j).pending[h]? = some c)
    (hf : c.peerFrontier = some (s, f)) : Had d w'.trace s f := by
  refine Had.step ?_ hs
  rcases hs.pending hc with hc | ⟨src, hran, hl⟩ | hg
  · exact hd.peer hc hf
  · cases hl with
    | sinceRecord hb =>
      obtain ⟨rfl, rfl⟩ := Prod.mk.inj (Option.some.inj hf)
      exact hd.message _ (hran.message_mem ha) (by rw [hb]; rfl)
    | ackRecord hb =>
      obtain ⟨rfl, rfl⟩ := Prod.mk.inj (Option.some.inj hf)
      exact hd.message _ (hran.message_mem ha) (by rw [hb]; rfl)
    | sinceRead =>
      obtain ⟨rfl, rfl⟩ := Prod.mk.inj (Option.some.inj hf)
      exact hd.peer hran.waiting rfl
    | hello _ hp => rw [(Handler.frontiers_of_plain hp.plain).2] at hf; cases hf
    | helloSince | sinceKeys | sinceSend | opsApply | opsFrontier | opsAck => cases hf
  · rw [(Handler.frontiers_of_plain hg.plain).2] at hf
    cases hf

theorem Sane.step_merging (hd : Sane d w) (hs : Shape cr space w a w') (ha : a.Honest)
    {sender : JsString} {ops : List Op}
    (hc : (w'.node j).pending[h]? = some (.opsApply sender ops)) :
    ∀ o ∈ ops, o ∈ TangentFeed.issued w'.trace := by
  intro o ho
  apply hs.issued_mono
  rcases hs.pending hc with hc | ⟨src, hran, hl⟩ | hg
  · exact hd.merging hc o ho
  · cases hl with
    | hello _ hp => exact hp.elim
    | opsApply hb hok =>
      obtain ⟨i, p, hp, he⟩ := hd.base.message _ (hran.message_mem ha) hb o.raw
        (by rw [(checkBatch_eq_ok hok).1]; exact List.mem_map_of_mem ho)
      rw [← Op.ext he]
      exact hd.issued i hp
  · exact hg.plain.elim

theorem Sane.step_message (hd : Sane d w) (hs : Shape cr space w a w') {msg : WireMsg}
    (hm : msg ∈ w'.sent) {f : Frontier} (hf : msg.body.frontier? = some f) :
    Had d w'.trace msg.sender f := by
  rcases hs.sent hm with hm | ⟨j, h, src, hran, b, hsays, rfl⟩ | ⟨j, ev, b, -, hb, rfl⟩
  · exact (hd.message msg hm hf).step hs
  · have mine (hw : Witnessed (TangentFeed.applied w.trace j) f) :
        Had d w'.trace (w'.node j).engine.deviceId f :=
      ⟨j, hd.base.step_device hd.device hs j, hw.mono (hs.applied_mono j)⟩
    cases hsays with
    | since => obtain rfl := Option.some.inj hf; exact mine (hd.own hran.waiting rfl)
    | ack => obtain rfl := Option.some.inj hf; exact mine (hd.own hran.waiting rfl)
    | hello | keys | answerKeys | answer => cases hf
  · obtain ⟨c, -, rfl⟩ := mem_liveTail hb
    cases hf

theorem Sane.step_sync (hd : Sane d w) (hs : Shape cr space w a w') {k : Nat} {s : Sync ι}
    (hk : w'.syncs[k]? = some s) : SaneStage w'.trace s.a s.b s.stage := by
  have ledger (i : ι) := (hd.base.consistent i).ledger
  have since (i : ι) (f : Frontier) : ∀ o ∈ (w.node i).engine.opsSince f,
      o ∈ TangentFeed.applied w.trace i := fun o ho =>
    (ledger i).logged ((ledger i).keyed.mem_opsSince.1 ho).1
  rcases hs.syncs hk with hk | ⟨x, y, -, rfl⟩ | ⟨s₀, st, i, r, hy, rfl⟩
  · exact (hd.sync hk).mono hs.applied_mono
  · exact ((hd.base.step hs).consistent x).ledger.witnessed
  · have h := hd.sync hy.stage
    refine SaneStage.mono ?_ hs.applied_mono
    cases hy.turn with
    | readFrontier => exact ⟨h, (ledger _).witnessed⟩
    | readA => exact ⟨h.1, since _ _⟩
    | readB => exact ⟨h.2, since _ _⟩
    | skipB => exact h.2
    | applyB => exact h.2
    | skipA => trivial
    | applyA => trivial
    | ackB => exact (ledger _).witnessed
    | recordA => trivial
    | ackA => exact (ledger _).witnessed

theorem Sane.step_recorded (hd : Sane d w) (hs : Shape cr space w a w') (ha : a.Honest)
    {p : JsString} {f : Frontier} (hf : (w'.node j).engine.storage.peerFrontiers[p]? = some f) :
    Had d w'.trace p f := by
  refine Had.step ?_ hs
  rcases hs.evolves j with ⟨r, he⟩ | ⟨_, _, _, hr⟩
  · obtain ⟨dd, heff, hcause⟩ := he.effect hd.base
    rcases heff.peerFrontiers hf with hf | hrec
    · exact hd.recorded hf
    · generalize r.event = ev at hcause
      cases hcause with
      | none => cases hrec
      | merge => cases hrec
      | record hr =>
        obtain ⟨rfl, rfl⟩ := Deed.record.inj hrec
        exact hd.records hr
      | @call c => cases c <;> first | exact ha.elim | cases hrec
  · rw [hr.node] at hf
    have e : (reopened (w.node j) _).engine.storage = (w.node j).engine.storage :=
      ((hd.base.consistent j).openOn hr.opened).2.2.2
    rw [e] at hf
    exact hd.recorded hf

/-- **Every honest step keeps it.** -/
theorem Sane.step (hd : Sane d w) (hs : Shape cr space w a w') (ha : a.Honest) : Sane d w' where
  base := hd.base.step hs
  device := hd.base.step_device hd.device hs
  issued := hd.step_issued hs ha
  author := hd.step_author hs
  distinct := hd.step_distinct hs
  own := hd.step_own hs
  peer := hd.step_peer hs ha
  merging := hd.step_merging hs ha
  message _ hm _ := hd.step_message hs hm
  sync := hd.step_sync hs
  recorded := hd.step_recorded hs ha

omit [DecidableEq ι] in
theorem Sane.initial (d : Deployment cr ι) : Sane d d.initial where
  base := Base.initial d
  device _ := rfl
  issued _ _ := fun ⟨_, hm, _⟩ => by cases hm
  author _ := fun ⟨_, _, hm, _⟩ => by cases hm
  distinct _ := fun ⟨_, _, hm, _⟩ => by cases hm
  own hc := by
    have hc' : (∅ : Std.ExtTreeMap Nat Handler compare)[_]? = _ := hc
    rw [Std.ExtTreeMap.getElem?_empty] at hc'
    cases hc'
  peer hc := by
    have hc' : (∅ : Std.ExtTreeMap Nat Handler compare)[_]? = _ := hc
    rw [Std.ExtTreeMap.getElem?_empty] at hc'
    cases hc'
  merging hc := by
    have hc' : (∅ : Std.ExtTreeMap Nat Handler compare)[_]? = _ := hc
    rw [Std.ExtTreeMap.getElem?_empty] at hc'
    cases hc'
  message _ hm := by cases hm
  sync hk := by
    have hk' : (∅ : Std.ExtTreeMap Nat (Sync ι) compare)[_]? = _ := hk
    rw [Std.ExtTreeMap.getElem?_empty] at hk'
    cases hk'
  recorded hf := by
    have hf' : (∅ : JsMap Frontier)[_]? = _ := hf
    rw [Std.ExtTreeMap.getElem?_empty] at hf'
    cases hf'

/-- Nothing is issued while nobody writes. -/
theorem Sane.issued_run {rest : List (Action ι)} (hd : Sane d w)
    (h : ∀ a ∈ rest, a.Honest ∧ a.Quiet) :
    TangentFeed.issued (Runs.run (Config.step cr space) w rest).trace =
      TangentFeed.issued w.trace := by
  induction rest generalizing w with
  | nil => rfl
  | cons a rest ih =>
    obtain ⟨hh, hq⟩ := h a List.mem_cons_self
    rw [Runs.run_cons, ih (hd.step (w.step_shape a) hh) fun b hb => h b (List.mem_cons_of_mem _ hb),
      (w.step_shape a).issued_quiet hd.base hh hq]

end Config

end TangentFeed
