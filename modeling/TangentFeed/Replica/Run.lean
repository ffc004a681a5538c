import TangentFeed.Lib.Runs
import TangentFeed.Replica.Calls

/-!
# Runs of one replica

A replica takes calls and is closed and reopened on its store. Its `history` is
every change event it committed, over all its openings, and `applied` the
operations in them. `Consistent` ties the engine to what was applied: the store
is a ledger of it, and the persisted clock is past every operation applied and
never ahead of the clock in memory.
-/

namespace TangentFeed

variable {cr : Crypto}

/-- A persisted clock in counter units. -/
def ClockState.ticks (c : ClockState) : Nat := c.millis * 65536 + c.counter

/-- The ticks a reopened clock starts from. -/
def MemoryAdapter.savedTicks (s : MemoryAdapter) : Nat := (s.clock.getD ⟨0, 0⟩).ticks

/-- The operations of an event. -/
def eventOps (ev : Option ChangeEvent) : Set Op := {o | ∃ event, ev = some event ∧ o ∈ event.ops}

@[simp] theorem eventOps_none : eventOps none = ∅ := by
  ext o
  constructor
  · rintro ⟨_, h, -⟩
    cases h
  · exact fun h => absurd h (Set.notMem_empty o)

@[simp] theorem eventOps_some (event : ChangeEvent) :
    eventOps (some event) = {o | o ∈ event.ops} := by
  ext o
  constructor
  · rintro ⟨_, h, ho⟩
    rw [Option.some.inj h]
    exact ho
  · exact fun h => ⟨event, rfl, h⟩

namespace SyncEngine

structure Consistent (cr : Crypto) (e : SyncEngine) (H : Set Op) : Prop where
  identity : Identity cr e
  ledger : e.storage.Ledger H
  saved : e.storage.savedTicks ≤ e.clock.ticks
  counter : (e.storage.clock.getD ⟨0, 0⟩).counter ≤ maxCounter
  dominated : ∀ o ∈ H, o.ticks ≤ e.storage.savedTicks

variable {e e' : SyncEngine} {H : Set Op} {d : Deed} {ev : Option ChangeEvent}

/-- What a call leaves of the engine's identity. -/
theorem Effect.identity (hi : Identity cr e) (h : Effect cr e e' d ev) : Identity cr e' where
  bounded := h.bounded
  device := by rw [h.device, h.deviceKey, hi.device]
  generated := by rw [h.deviceKey]; exact hi.generated
  stored := by
    rw [h.deviceKey, ← hi.stored]
    cases h.store with
    | idle hs => rw [hs]
    | clockSaved hs => rw [hs]
    | peerSaved hs => rw [hs]; rfl
    | @compacted opts hs =>
      rw [hs]
      by_cases hd : opts.dryRun = true
      · rw [compactStorage_dryRun hd]
      · rw [compactStorage_fst (by simpa using hd)]; rfl
    | committed hs hb => rw [hs]; rfl
  directory hk := (h.learned hk).elim hi.directory fun e1 => e1
  own := by rw [h.device]; exact h.known hi.own
  subscribers := h.subscribers

/-- Operations later than everything applied are new. -/
theorem Consistent.new_of_local (hc : Consistent cr e H) {ops : List Op}
    (hb : LocalBatch cr e e' ops) : New e.storage ops := by
  constructor
  · rw [List.Nodup, List.pairwise_map]
    refine hb.increasing.imp fun {o p} hlt hid => ?_
    rw [o.id_eq_hlc, p.id_eq_hlc] at hid
    exact absurd (Op.ticks_eq_of_hlc hid) (Nat.ne_of_lt hlt)
  · intro o ho
    rw [← Bool.not_eq_true, hc.ledger.keyed.hasOp_iff]
    rintro ⟨p, hp, hid⟩
    rw [p.id_eq_hlc, o.id_eq_hlc] at hid
    have h1 := hc.dominated p (hc.ledger.logged hp)
    have h2 := (hb.later o ho).1
    have h3 := Op.ticks_eq_of_hlc hid
    have h4 := hc.saved
    omega

theorem Consistent.new_of_batch (hc : Consistent cr e H) {ops : List Op} {origin : Origin}
    (hb : BatchOf cr e e' ops origin) : New e.storage ops := by
  cases origin with
  | «local» => exact hc.new_of_local hb
  | remote => exact hb.new

/-- The committed operations are not past the clock. -/
theorem BatchOf.bound {ops : List Op} {origin : Origin} (hb : BatchOf cr e e' ops origin) :
    ∀ o ∈ ops, o.ticks ≤ e'.clock.ticks := by
  cases origin with
  | «local» => exact fun o ho => (hb.later o ho).2
  | remote => exact RemoteBatch.bound hb

/-- **A call keeps the engine consistent.** -/
theorem Consistent.effect (hc : Consistent cr e H) (h : Effect cr e e' d ev) :
    Consistent cr e' (H ∪ eventOps ev) := by
  have hi := h.identity hc.identity
  -- the clock may move without the store
  have still : e'.storage.clock = e.storage.clock →
      e'.storage.savedTicks = e.storage.savedTicks ∧ e'.storage.savedTicks ≤ e'.clock.ticks ∧
        (e'.storage.clock.getD ⟨0, 0⟩).counter ≤ maxCounter := by
    intro hs
    have e1 : e'.storage.savedTicks = e.storage.savedTicks := by
      unfold MemoryAdapter.savedTicks; rw [hs]
    exact ⟨e1, by rw [e1]; exact Nat.le_trans hc.saved h.ticks, by rw [hs]; exact hc.counter⟩
  -- or be persisted
  have saved : e'.storage.clock = some e'.clockState → e'.storage.savedTicks = e'.clock.ticks ∧
      (e'.storage.clock.getD ⟨0, 0⟩).counter ≤ maxCounter := by
    intro hs
    unfold MemoryAdapter.savedTicks
    rw [hs]
    exact ⟨rfl, hi.bounded⟩
  have old : ∀ o ∈ H, o.ticks ≤ e'.clock.ticks := fun o ho =>
    Nat.le_trans (hc.dominated o ho) (Nat.le_trans hc.saved h.ticks)
  cases h.store with
  | idle hs =>
    obtain ⟨h1, h2, h3⟩ := still (by rw [hs])
    rw [eventOps_none, Set.union_empty]
    exact ⟨hi, by rw [hs]; exact hc.ledger, h2, h3, fun o ho => by rw [h1]; exact hc.dominated o ho⟩
  | clockSaved hs =>
    obtain ⟨h1, h2⟩ := saved (by rw [hs])
    rw [eventOps_none, Set.union_empty]
    exact ⟨hi, hc.ledger.congr (by rw [hs]) (by rw [hs]) (by rw [hs]), Nat.le_of_eq h1, h2,
      fun o ho => by rw [h1]; exact old o ho⟩
  | peerSaved hs =>
    obtain ⟨h1, h2, h3⟩ := still (by rw [hs]; rfl)
    rw [eventOps_none, Set.union_empty]
    exact ⟨hi, hc.ledger.congr (by rw [hs]; rfl) (by rw [hs]; rfl) (by rw [hs]; rfl), h2, h3,
      fun o ho => by rw [h1]; exact hc.dominated o ho⟩
  | @compacted opts hs =>
    have hclock : e'.storage.clock = e.storage.clock := by
      rw [hs]
      by_cases hd : opts.dryRun = true
      · rw [compactStorage_dryRun hd]
      · rw [compactStorage_fst (by simpa using hd)]; rfl
    obtain ⟨h1, h2, h3⟩ := still hclock
    rw [eventOps_none, Set.union_empty]
    exact ⟨hi, by rw [hs]; exact hc.ledger.compact opts, h2, h3,
      fun o ho => by rw [h1]; exact hc.dominated o ho⟩
  | @committed ops origin hs hb =>
    obtain ⟨h1, h2⟩ := saved (by rw [hs]; rfl)
    rw [eventOps_some]
    refine ⟨hi, by rw [hs]; exact hc.ledger.commit (hc.new_of_batch hb) _, Nat.le_of_eq h1, h2, ?_⟩
    rintro o (ho | ho)
    · rw [h1]; exact old o ho
    · rw [h1]; exact hb.bound o ho

/-- Without a compaction the log only grows, by what is committed. -/
theorem Consistent.log_effect (hc : Consistent cr e H) (h : Effect cr e e' d ev)
    (hd : ∀ opts, d ≠ .compact opts) : e'.storage.log = e.storage.log ∪ eventOps ev := by
  have same : e'.storage.opsById = e.storage.opsById →
      e'.storage.log = e.storage.log ∪ eventOps none := by
    intro hs
    rw [eventOps_none, Set.union_empty]
    unfold MemoryAdapter.log
    rw [hs]
  cases h.store with
  | idle hs => exact same (by rw [hs])
  | clockSaved hs => exact same (by rw [hs])
  | peerSaved hs => exact same (by rw [hs]; rfl)
  | compacted hs => exact absurd rfl (hd _)
  | committed hs hb =>
    rw [hs, log_commit hc.ledger.keyed (hc.new_of_batch hb), eventOps_some]
    rfl

/-! ## What a merge applies -/

/-- What an engine call that merges `ops` commits, once the clock took them in. -/
theorem mergeAdmitted_event {ops : List Op} {ev : ChangeEvent}
    (h : (e.mergeAdmitted ops).event = some ev) :
    (e.receiveMax ops).1 = .ok () ∧ ev = changeEvent (freshOps e.storage ops) .remote := by
  have hm := e.receiveMax_moved ops
  unfold mergeAdmitted at h
  simp only at h
  cases hr : (e.receiveMax ops).1 with
  | error err => rw [hr] at h; cases h
  | ok _ =>
    rw [hr] at h
    simp only at h
    by_cases hf : (freshOps (e.receiveMax ops).2.storage ops).isEmpty = true
    · rw [if_pos hf] at h
      rcases (e.receiveMax ops).2.transact_cases ((e.receiveMax ops).2.storage.applyBatch
        (e.receiveMax ops).2.clockBatch) with ht | ht <;> (rw [ht] at h; cases h)
    · rw [if_neg hf] at h
      rcases (e.receiveMax ops).2.commit_cases (freshOps (e.receiveMax ops).2.storage ops)
        .remote with ht | ht
      · rw [ht] at h; cases h
      · rw [ht, hm.storage] at h
        exact ⟨rfl, (Option.some.inj h).symm⟩

theorem applyRemoteOps_event {ops : List Op} {ev : ChangeEvent}
    (h : (e.applyRemoteOps cr (ops.map Op.raw)).event = some ev) :
    (e.receiveMax ops).1 = .ok () ∧ ev = changeEvent (freshOps e.storage ops) .remote := by
  unfold applyRemoteOps at h
  cases ha : e.checkBatch cr (ops.map Op.raw) with
  | error err => rw [ha] at h; cases h
  | ok ops' =>
    rw [ha] at h
    have e1 : ops = ops' := List.map_injective_iff.2 (fun _ _ => Op.ext) (checkBatch_eq_ok ha).1
    rw [← e1] at h
    exact mergeAdmitted_event h

/-- An accepted merge applies the fresh operations and counts them. -/
theorem mergeAdmitted_eq_ok {ops : List Op} {n : Nat} (h : (e.mergeAdmitted ops).result = .ok n) :
    n = (freshOps e.storage ops).length ∧
      eventOps (e.mergeAdmitted ops).event = {o | o ∈ freshOps e.storage ops} := by
  have hm := e.receiveMax_moved ops
  unfold mergeAdmitted at h ⊢
  simp only at h ⊢
  cases hok : (e.receiveMax ops).1 with
  | error err => rw [hok] at h; cases h
  | ok _ =>
  rw [hok] at h
  simp only at h ⊢
  rw [hm.storage] at h ⊢
  by_cases hf : (freshOps e.storage ops).isEmpty = true
  · rw [if_pos hf] at h ⊢
    have hnil : freshOps e.storage ops = [] := List.isEmpty_iff.1 hf
    rcases (e.receiveMax ops).2.transact_cases
      (e.storage.applyBatch (e.receiveMax ops).2.clockBatch) with ht | ht
    · rw [ht] at h; cases h
    · rw [ht] at h ⊢
      rw [hnil]
      refine ⟨(Except.ok.inj h).symm, ?_⟩
      ext o
      simp [Reply.map, Reply.quiet]
  · rw [if_neg hf] at h ⊢
    rcases (e.receiveMax ops).2.commit_cases (freshOps e.storage ops) .remote with ht | ht
    · rw [ht] at h; cases h
    · rw [ht] at h ⊢
      simp only [Reply.map] at h ⊢
      refine ⟨?_, eventOps_some _⟩
      split at h
      · exact (Except.ok.inj h).symm
      · cases h

theorem applyRemoteOps_eq_ok {batch : List Json} {n : Nat}
    (h : (e.applyRemoteOps cr batch).result = .ok n) :
    ∃ ops, batch = ops.map Op.raw ∧ n = (freshOps e.storage ops).length ∧
      eventOps (e.applyRemoteOps cr batch).event = {o | o ∈ freshOps e.storage ops} := by
  unfold applyRemoteOps at h ⊢
  cases ha : e.checkBatch cr batch with
  | error err => rw [ha] at h; cases h
  | ok ops =>
    rw [ha] at h
    exact ⟨ops, (checkBatch_eq_ok ha).1, mergeAdmitted_eq_ok h⟩

/-! ## Opening -/

/-- An opened engine: the key of the store or a new one, the persisted clock. -/
theorem openOn_eq_ok {opts : EngineOptions} {s : MemoryAdapter} {seed : Nat}
    (h : openOn cr opts s seed = .ok e) :
    e.storage = { s with deviceKey := some (s.deviceKey.getD (cr.keygen seed)) } ∧
      e.deviceKey = s.deviceKey.getD (cr.keygen seed) ∧
      e.deviceId = deviceIdFromPublicKey cr e.deviceKey.publicKey ∧
      e.keys = (∅ : JsMap Bytes).insert e.deviceId e.deviceKey.publicKey ∧
      e.clockState = s.clock.getD ⟨0, 0⟩ ∧ e.subscribers = [] ∧ e.cipher = opts.cipher := by
  unfold openOn at h
  simp only at h
  split at h
  · cases h
  · obtain rfl := Except.ok.inj h
    exact ⟨rfl, rfl, rfl, rfl, rfl, rfl, rfl⟩

/-- An opened engine has an identity if its store holds a generated key or none. -/
theorem identity_openOn {opts : EngineOptions} {s : MemoryAdapter} {seed : Nat}
    (h : openOn cr opts s seed = .ok e) (hk : ∀ k, s.deviceKey = some k → ∃ n, k = cr.keygen n)
    (hc : (s.clock.getD ⟨0, 0⟩).counter ≤ maxCounter) : Identity cr e := by
  obtain ⟨h1, h2, h3, h4, h5, h6, -⟩ := openOn_eq_ok h
  exact {
    bounded := by rw [← h5] at hc; exact hc
    device := h3
    generated := by
      rw [h2]
      cases hd : s.deviceKey with
      | none => exact ⟨seed, rfl⟩
      | some k => exact hk k hd
    stored := by rw [h1, h2]
    directory := by
      intro d k hd
      rw [h4, Std.ExtTreeMap.getElem?_insert_eq] at hd
      by_cases e1 : e.deviceId = d
      · rw [if_pos e1] at hd
        rw [← Option.some.inj hd, ← h3, e1]
      · rw [if_neg e1, Std.ExtTreeMap.getElem?_empty] at hd
        cases hd
    own := by
      rw [h4, Std.ExtTreeMap.getElem?_insert_self]
      exact Option.some_ne_none _
    subscribers := by rw [h6]; exact List.nodup_nil }

/-- **Reopening keeps the replica consistent.** -/
theorem Consistent.openOn (hc : Consistent cr e H) {opts : EngineOptions} {seed : Nat}
    (h : SyncEngine.openOn cr opts e.storage seed = .ok e') :
    Consistent cr e' H ∧ e'.deviceKey = e.deviceKey ∧ e'.deviceId = e.deviceId ∧
      e'.storage = e.storage := by
  obtain ⟨h1, h2, h3, -, h5, -, -⟩ := openOn_eq_ok h
  have hkey : e'.deviceKey = e.deviceKey := by rw [h2, hc.identity.stored]; rfl
  have hs : e'.storage = e.storage := by
    rw [h1, hc.identity.stored]
    exact congrArg (fun k => { e.storage with deviceKey := k }) hc.identity.stored.symm
  refine ⟨⟨identity_openOn h ?_ hc.counter, by rw [hs]; exact hc.ledger, ?_, by
    rw [hs]; exact hc.counter, by rw [hs]; exact hc.dominated⟩, hkey, ?_, hs⟩
  · intro k hk
    rw [hc.identity.stored] at hk
    rw [← Option.some.inj hk]
    exact hc.identity.generated
  · have e1 : e'.clock.ticks = e.storage.savedTicks := by
      unfold MemoryAdapter.savedTicks
      rw [← h5]
      rfl
    rw [hs, e1]
  · rw [h3, hkey, hc.identity.device]

theorem openOn_empty (opts : EngineOptions) (seed : Nat) :
    SyncEngine.openOn cr opts MemoryAdapter.empty seed = .ok (opened cr opts seed) := rfl

theorem consistent_opened (opts : EngineOptions) (seed : Nat) :
    Consistent cr (opened cr opts seed) ∅ where
  identity := identity_openOn (openOn_empty opts seed) (fun k h => by cases h) (Nat.zero_le _)
  ledger := MemoryAdapter.Ledger.empty.congr rfl rfl rfl
  saved := Nat.le_refl _
  counter := Nat.zero_le _
  dominated o ho := absurd ho (Set.notMem_empty o)

end SyncEngine

/-! ## The replica -/

structure Replica where
  engine : SyncEngine
  history : List ChangeEvent

namespace Replica

inductive Action where
  | call (c : Call)
  | reopen (opts : EngineOptions) (seed : Nat)

/-- A reopening that fails leaves the replica as it is. -/
def step (cr : Crypto) (r : Replica) : Action → Replica
  | .call c => ⟨(c.run cr r.engine).engine, r.history ++ (c.run cr r.engine).event.toList⟩
  | .reopen opts seed =>
    match SyncEngine.openOn cr opts r.engine.storage seed with
    | .ok e => ⟨e, r.history⟩
    | .error _ => r

def start (cr : Crypto) (opts : EngineOptions) (seed : Nat) : Replica :=
  ⟨SyncEngine.opened cr opts seed, []⟩

/-- Every operation ever applied. -/
def applied (r : Replica) : Set Op := {o | ∃ ev ∈ r.history, o ∈ ev.ops}

def Consistent (cr : Crypto) (r : Replica) : Prop := r.engine.Consistent cr r.applied

theorem applied_append (h : List ChangeEvent) (ev : Option ChangeEvent) (e e' : SyncEngine) :
    applied ⟨e', h ++ ev.toList⟩ = applied ⟨e, h⟩ ∪ eventOps ev := by
  ext o
  constructor
  · rintro ⟨event, hm, ho⟩
    rcases List.mem_append.1 hm with hm | hm
    · exact .inl ⟨event, hm, ho⟩
    · exact .inr ⟨event, Option.mem_toList.1 hm, ho⟩
  · rintro (⟨event, hm, ho⟩ | ⟨event, hm, ho⟩)
    · exact ⟨event, List.mem_append_left _ hm, ho⟩
    · exact ⟨event, List.mem_append_right _ (Option.mem_toList.2 hm), ho⟩

theorem Consistent.step {r : Replica} (h : r.Consistent cr) (a : Action) :
    (r.step cr a).Consistent cr := by
  cases a with
  | call c =>
    have hc := SyncEngine.Consistent.effect h (c.run_effect h.identity)
    unfold Consistent Replica.step
    rw [applied_append (e := r.engine)]
    exact hc
  | reopen opts seed =>
    change Consistent cr (match SyncEngine.openOn cr opts r.engine.storage seed with
      | .ok e => ⟨e, r.history⟩
      | .error _ => r)
    cases ho : SyncEngine.openOn cr opts r.engine.storage seed with
    | error err => exact h
    | ok e => exact (SyncEngine.Consistent.openOn h ho).1

/-- A replica that is closed and opened again has the store it had. -/
theorem Consistent.reopen {r : Replica} (h : r.Consistent cr) {opts : EngineOptions} {seed : Nat}
    (hmillis : (r.engine.storage.clock.getD ⟨0, 0⟩).millis ≤ maxMillis) :
    (r.step cr (.reopen opts seed)).engine.storage = r.engine.storage ∧
      (r.step cr (.reopen opts seed)).engine.cipher = opts.cipher := by
  obtain ⟨e, ho⟩ : ∃ e, SyncEngine.openOn cr opts r.engine.storage seed = .ok e :=
    ⟨_, if_neg (Nat.not_lt.2 hmillis)⟩
  have hstep : r.step cr (.reopen opts seed) = ⟨e, r.history⟩ := by
    unfold Replica.step
    simp only [ho]
  rw [hstep]
  exact ⟨(SyncEngine.Consistent.openOn h ho).2.2.2, (SyncEngine.openOn_eq_ok ho).2.2.2.2.2.2⟩

theorem consistent_start (opts : EngineOptions) (seed : Nat) :
    (start cr opts seed).Consistent cr := by
  have e : (start cr opts seed).applied = ∅ := by
    ext o
    constructor
    · rintro ⟨_, h, -⟩
      cases h
    · exact fun h => absurd h (Set.notMem_empty o)
  unfold Consistent
  rw [e]
  exact SyncEngine.consistent_opened opts seed

/-- **Every replica reached is consistent.** -/
theorem consistent_run (cr : Crypto) (opts : EngineOptions) (seed : Nat) (acts : List Action) :
    (Runs.run (step cr) (start cr opts seed) acts).Consistent cr :=
  Runs.run_invariant (fun _ a hr => hr.step a) (consistent_start opts seed) acts

end Replica

end TangentFeed
