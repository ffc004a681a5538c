import TangentFeed.Replica.Compacted

/-!
# Redelivery

A duplicate is recognised by its id in the log. The log has every operation ever
applied but those that a compaction removed since (`hasOp_iff`): a batch of the
others is a no-op, and an operation that was removed is new again, and applied a
second time.
-/

namespace TangentFeed

open SyncEngine

variable {cr : Crypto} {e : SyncEngine}

/-- `applyRemoteOps` counted nothing, told nobody and left what is stored but the clock. -/
structure Ignored (cr : Crypto) (e : SyncEngine) (batch : List Json) : Prop where
  returns : (e.applyRemoteOps cr batch).result = .ok 0
  silent : (e.applyRemoteOps cr batch).event = none
  log : (e.applyRemoteOps cr batch).engine.storage.opsById = e.storage.opsById
  cells : (e.applyRemoteOps cr batch).engine.storage.tables = e.storage.tables
  frontier : (e.applyRemoteOps cr batch).engine.frontier = e.frontier
  dump : ∀ inherited, (e.applyRemoteOps cr batch).engine.dump inherited = e.dump inherited

/-- Nothing rejects the batch: it is not too large, it is signed by devices that
are known, the clock may follow it, and the store takes the transaction. -/
structure Receivable (cr : Crypto) (e : SyncEngine) (ops : List Op) : Prop where
  size : ops.length ≤ maxBatchOps
  signed : signatureFault cr e.keys ops = none
  clock : (e.receiveMax ops).1 = .ok ()
  stored : (e.receiveMax ops).2.env.storageFails (e.receiveMax ops).2.asked = false

namespace SyncEngine

theorem checkBatch_raw {ops ops' : List Op} :
    e.checkBatch cr (ops.map Op.raw) = .ok ops' ↔
      ops' = ops ∧ ops.length ≤ maxBatchOps ∧ signatureFault cr e.keys ops = none := by
  unfold checkBatch
  rw [List.length_map, validateOps_raw]
  by_cases hl : maxBatchOps < ops.length
  · rw [if_pos hl]
    constructor
    · intro h
      cases h
    · intro h
      exact absurd h.2.1 (Nat.not_le.2 hl)
  · rw [if_neg hl]
    simp only
    cases hs : signatureFault cr e.keys ops with
    | some f =>
      constructor
      · intro h
        cases h
      · intro h
        cases h.2.2
    | none =>
      constructor
      · intro h
        exact ⟨(Except.ok.inj h).symm, Nat.not_lt.1 hl, rfl⟩
      · intro h
        rw [h.1]

/-- Nothing of a batch is fresh when the log has every id. -/
theorem freshOps_eq_nil {s : MemoryAdapter} {ops : List Op} :
    freshOps s ops = [] ↔ ∀ o ∈ ops, s.hasOp o.id = true := by
  obtain ⟨hn, hsub, hall⟩ := freshOps_spec s ops
  constructor
  · intro h o ho
    by_contra hf
    obtain ⟨p, hp, -⟩ := hall o ho (by simpa using hf)
    rw [h] at hp
    cases hp
  · intro h
    rw [List.eq_nil_iff_forall_not_mem]
    intro o ho
    have hno := hn.notLogged o ho
    rw [h o (hsub o ho)] at hno
    cases hno

/-- A batch without fresh operations writes the clock. -/
theorem mergeAdmitted_of_known {ops : List Op} (hr : (e.receiveMax ops).1 = .ok ())
    (hf : freshOps e.storage ops = [])
    (hs : (e.receiveMax ops).2.env.storageFails (e.receiveMax ops).2.asked = false) :
    e.mergeAdmitted ops = .quiet
      { (e.receiveMax ops).2 with
        asked := (e.receiveMax ops).2.asked + 1
        storage := { e.storage with clock := some (e.receiveMax ops).2.clockState } } (.ok 0) := by
  have hst := (e.receiveMax_moved ops).storage
  unfold mergeAdmitted
  simp only
  rw [hr, hst, hf, List.isEmpty_nil, if_pos rfl]
  unfold transact
  rw [hs, if_neg Bool.false_ne_true]
  unfold clockBatch
  rw [hst, MemoryAdapter.applyBatch_nil]
  rfl

/-- A merge that resolves with 0 had nothing fresh, and the clock and the store agreed. -/
theorem mergeAdmitted_eq_zero {ops : List Op} (h : (e.mergeAdmitted ops).result = .ok 0) :
    (e.receiveMax ops).1 = .ok () ∧ freshOps e.storage ops = [] ∧
      (e.receiveMax ops).2.env.storageFails (e.receiveMax ops).2.asked = false := by
  have hf : freshOps e.storage ops = [] :=
    List.length_eq_zero_iff.1 (mergeAdmitted_eq_ok h).1.symm
  unfold mergeAdmitted at h
  simp only at h
  cases hr : (e.receiveMax ops).1 with
  | error err =>
    rw [hr] at h
    cases h
  | ok _ =>
    refine ⟨rfl, hf, ?_⟩
    rw [hr] at h
    simp only at h
    rw [(e.receiveMax_moved ops).storage, hf, List.isEmpty_nil, if_pos rfl] at h
    unfold transact at h
    rw [← Bool.not_eq_true]
    intro hs
    rw [if_pos hs] at h
    cases h

/-- **Exactly when a batch is ignored.** -/
theorem ignored_iff {ops : List Op} :
    Ignored cr e (ops.map Op.raw) ↔
      Receivable cr e ops ∧ ∀ o ∈ ops, e.storage.hasOp o.id = true := by
  constructor
  · intro h
    have hret := h.returns
    unfold applyRemoteOps at hret
    cases hc : e.checkBatch cr (ops.map Op.raw) with
    | error err =>
      rw [hc] at hret
      cases hret
    | ok ops' =>
      rw [hc] at hret
      obtain ⟨rfl, hsize, hsigned⟩ := checkBatch_raw.1 hc
      obtain ⟨hclock, hfresh, hstored⟩ := mergeAdmitted_eq_zero hret
      exact ⟨⟨hsize, hsigned, hclock, hstored⟩, freshOps_eq_nil.1 hfresh⟩
  · rintro ⟨h, hk⟩
    have hrun : e.applyRemoteOps cr (ops.map Op.raw) = e.mergeAdmitted ops := by
      unfold applyRemoteOps
      rw [checkBatch_raw.2 ⟨rfl, h.size, h.signed⟩]
    have hmerge := mergeAdmitted_of_known h.clock (freshOps_eq_nil.2 hk) h.stored
    have hm := e.receiveMax_moved ops
    have hrun := hrun.trans hmerge
    exact {
      returns := by rw [hrun]; rfl
      silent := by rw [hrun]; rfl
      log := by rw [hrun]; rfl
      cells := by rw [hrun]; rfl
      frontier := by rw [hrun]; rfl
      dump := by
        intro inherited
        refine dump_congr ?_ ?_ inherited
        · rw [hrun]
          rfl
        · rw [hrun]
          exact hm.cipher }

end SyncEngine

/-! ## On every run -/

namespace Replica

/-- The ids of the operations an action applies. -/
def applies (cr : Crypto) (r : Replica) : Action → Set JsString
  | .call c => {id | ∃ o ∈ eventOps (c.run cr r.engine).event, o.id = id}
  | .reopen .. => ∅

/-- The ids of the operations an action removes: a compaction that is no dry run and that the
store takes removes those of the rows it reclaims, and those at or below the horizon that do
not win their cell. -/
def removes (r : Replica) : Action → Set JsString
  | .call (.compact opts) => {id | opts.dryRun = false ∧
      r.engine.env.storageFails r.engine.asked = false ∧ ∃ o ∈ r.engine.storage.log, o.id = id ∧
        (o.rowKey ∈ reclaims r.engine.storage opts ∨
          below r.engine.storage.horizon o = true ∧ r.engine.storage.winner o.cell ≠ some o)}
  | .call _ | .reopen .. => ∅

/-- A compaction of the run has removed an operation with the id, and none with it was
applied since. -/
def Forgotten (cr : Crypto) (r : Replica) (acts : List Action) (id : JsString) : Prop :=
  Runs.Since (step cr) (fun r a => id ∈ removes r a) (fun r a => id ∈ applies cr r a) r acts

variable {r : Replica} {id : JsString}

/-- The ids of what was ever applied. -/
theorem exists_applied_step (r : Replica) (a : Action) :
    (∃ o ∈ (r.step cr a).applied, o.id = id) ↔
      (∃ o ∈ r.applied, o.id = id) ∨ id ∈ applies cr r a := by
  cases a with
  | call c =>
    change (∃ o ∈ applied ⟨_, r.history ++ (c.run cr r.engine).event.toList⟩, _) ↔ _
    rw [applied_append (e := r.engine)]
    simp only [Set.mem_union, or_and_right, exists_or]
    rfl
  | reopen opts seed =>
    have hsame : (r.step cr (.reopen opts seed)).applied = r.applied := by
      unfold step
      simp only
      split
      · rfl
      · rfl
    rw [hsame]
    exact (or_iff_left (Set.notMem_empty id)).symm

/-- What a compaction leaves in the log. -/
theorem Consistent.hasOp_compact (h : r.Consistent cr) (opts : CompactionOptions) :
    (r.engine.compact opts).engine.storage.hasOp id = true ↔
      r.engine.storage.hasOp id = true ∧ id ∉ removes r (.call (.compact opts)) := by
  have hl := h.ledger
  rw [SyncEngine.compact_storage]
  split
  · rename_i hfails
    refine (and_iff_left fun hr => ?_).symm
    rw [hr.2.1] at hfails
    cases hfails
  rename_i hfails
  have hstores := Bool.eq_false_iff.2 hfails
  by_cases hd : opts.dryRun = true
  · rw [compactStorage_dryRun hd]
    refine (and_iff_left fun hr => ?_).symm
    rw [hr.1] at hd
    cases hd
  have hd := Bool.eq_false_iff.2 hd
  rw [(hl.compact opts).keyed.hasOp_iff, hl.keyed.hasOp_iff]
  constructor
  · rintro ⟨o, ho, rfl⟩
    obtain ⟨ho, hrow, hwin⟩ := (compactStorage_log hl.keyed hl.winnersLogged hd).1 ho
    refine ⟨⟨o, ho, rfl⟩, fun ⟨_, _, p, hp, hid, hgone⟩ => ?_⟩
    obtain rfl := MemoryAdapter.log_inj hp ho hid
    exact hgone.elim hrow fun hgone => hgone.2 (hwin hgone.1)
  · rintro ⟨⟨o, ho, rfl⟩, hkept⟩
    have hkept : ¬ (o.rowKey ∈ reclaims r.engine.storage opts ∨
        below r.engine.storage.horizon o = true ∧ r.engine.storage.winner o.cell ≠ some o) :=
      fun hgone => hkept ⟨hd, hstores, o, ho, rfl, hgone⟩
    rw [not_or, not_and, not_not] at hkept
    exact ⟨o, (compactStorage_log hl.keyed hl.winnersLogged hd).2 ⟨ho, hkept⟩, rfl⟩

/-- **Step lemma.** The log keeps the ids that an action does not remove and gets those it
applies. -/
theorem Consistent.hasOp_step (h : r.Consistent cr) (a : Action) :
    (r.step cr a).engine.storage.hasOp id = true ↔
      r.engine.storage.hasOp id = true ∧ id ∉ removes r a ∨ id ∈ applies cr r a := by
  cases a with
  | reopen opts seed =>
    have hsame : (r.step cr (.reopen opts seed)).engine.storage = r.engine.storage := by
      unfold Replica.step
      simp only
      cases ho : SyncEngine.openOn cr opts r.engine.storage seed with
      | error err => rfl
      | ok e => exact (SyncEngine.Consistent.openOn h ho).2.2.2
    rw [hsame]
    exact ((or_iff_left (Set.notMem_empty id)).trans
      (and_iff_left (Set.notMem_empty id))).symm
  | call c =>
    by_cases hc : ∃ opts, c = .compact opts
    · obtain ⟨opts, rfl⟩ := hc
      have hnone : id ∉ applies cr r (.call (.compact opts)) := by
        rintro ⟨o, ⟨ev, hev, -⟩, -⟩
        have hev : (r.engine.compact opts).event = some ev := hev
        rw [SyncEngine.compact_event] at hev
        cases hev
      rw [or_iff_left hnone]
      exact h.hasOp_compact opts
    · push Not at hc
      have hdeed : ∀ opts, c.deed ≠ .compact opts := by
        intro opts hd
        cases c with
        | compact _ => exact hc _ rfl
        | _ => cases hd
      have hnone : id ∉ removes r (.call c) := by
        cases c with
        | compact _ => exact absurd rfl (hc _)
        | _ => exact Set.notMem_empty id
      have heff := c.run_effect h.identity
      have hk' : (c.run cr r.engine).engine.storage.Keyed :=
        (SyncEngine.Consistent.effect h heff).ledger.keyed
      rw [and_iff_left hnone, h.ledger.keyed.hasOp_iff]
      change (c.run cr r.engine).engine.storage.hasOp id = true ↔ _
      rw [hk'.hasOp_iff, SyncEngine.Consistent.log_effect h heff hdeed]
      simp only [Set.mem_union, or_and_right, exists_or]
      rfl

/-- An action that removes applies nothing. -/
theorem notMem_applies_of_removes {a : Action} (h : id ∈ removes r a) : id ∉ applies cr r a := by
  cases a with
  | reopen opts seed => exact absurd h (Set.notMem_empty id)
  | call c =>
    cases c with
    | compact opts =>
      rintro ⟨o, ⟨ev, hev, -⟩, -⟩
      have hev : (r.engine.compact opts).event = some ev := hev
      rw [SyncEngine.compact_event] at hev
      cases hev
    | _ => exact absurd h (Set.notMem_empty id)

/-- **Run lemma.** Of what a run applied, the log has what no compaction removed since. -/
theorem hasOp_iff (opts : EngineOptions) (seed : Nat) (acts : List Action)
    (happlied : ∃ o ∈ (Runs.run (step cr) (start cr opts seed) acts).applied, o.id = id) :
    (Runs.run (step cr) (start cr opts seed) acts).engine.storage.hasOp id = true ↔
      ¬ Forgotten cr (start cr opts seed) acts id := by
  induction acts using List.reverseRecOn with
  | nil =>
    obtain ⟨o, ⟨ev, hev, -⟩, -⟩ := happlied
    cases hev
  | append_singleton acts a ih =>
    have hc := consistent_run cr opts seed acts
    unfold Forgotten
    rw [Runs.since_append_singleton]
    rw [Runs.run_append] at happlied ⊢
    generalize hr : Runs.run (step cr) (start cr opts seed) acts = r at happlied hc ih ⊢
    have happlied := (exists_applied_step r a).1 happlied
    refine (hc.hasOp_step a).trans ?_
    by_cases ha : id ∈ applies cr r a
    · refine iff_of_true (.inr ha) ?_
      rintro (hgone | ⟨-, hnot⟩)
      · exact notMem_applies_of_removes hgone ha
      · exact hnot ha
    · rw [or_iff_left ha, ih (happlied.resolve_right ha), not_or, not_and, not_not]
      change _ ↔ _ ∧ (Forgotten cr (start cr opts seed) acts id → _)
      have himp : (Forgotten cr (start cr opts seed) acts id → id ∈ applies cr r a) ↔
          ¬ Forgotten cr (start cr opts seed) acts id :=
        ⟨fun h hf => ha (h hf), fun h hf => absurd hf h⟩
      rw [himp, and_comm]

/-- **Exactly when redelivery is a no-op.** In every run and for every batch of operations
applied in it: the batch is ignored if and only if nothing rejects it and no compaction has
removed one of them since it was applied. -/
theorem redelivery_ignored_iff (cr : Crypto) (opts : EngineOptions) (seed : Nat)
    (acts : List Action) (ops : List Op)
    (happlied : ∀ o ∈ ops, o ∈ (Runs.run (step cr) (start cr opts seed) acts).applied) :
    let r := Runs.run (step cr) (start cr opts seed) acts
    Ignored cr r.engine (ops.map Op.raw) ↔
      Receivable cr r.engine ops ∧ ∀ o ∈ ops, ¬ Forgotten cr (start cr opts seed) acts o.id := by
  refine ignored_iff.trans (and_congr_right fun _ => forall₂_congr fun o ho => ?_)
  exact hasOp_iff opts seed acts ⟨o, happlied o ho, rfl⟩

/-- A cell is written twice and the log compacted: the second write is still there. -/
theorem redelivery_ignored_iff_sample :
    let acts := [.call (.update Sample.table Sample.row (Sample.record (.bool true))),
      .call (.update Sample.table Sample.row (Sample.record (.bool false))),
      .call (.compact ⟨false, false⟩)]
    let r := Runs.run (step plainCrypto) (start plainCrypto Sample.opts 1) acts
    let written := (r.history.flatMap ChangeEvent.ops).drop 1
    written.length = 1 ∧ r.engine.storage.opCount = 1 ∧
      Ignored plainCrypto r.engine (written.map Op.raw) := by
  intro acts r written
  have happlied : ∀ o ∈ written, o ∈ r.applied := fun o ho => by
    obtain ⟨ev, hev, ho⟩ := List.mem_flatMap.1 (List.mem_of_mem_drop ho)
    exact ⟨ev, hev, ho⟩
  have hlogged : ∀ o ∈ written, r.engine.storage.hasOp o.id = true := by decide +kernel
  refine ⟨by decide +kernel, by decide +kernel,
    (redelivery_ignored_iff plainCrypto Sample.opts 1 acts written happlied).2
      ⟨⟨by decide +kernel, by decide +kernel, by decide +kernel, by decide +kernel⟩,
        fun o ho => ?_⟩⟩
  exact (hasOp_iff Sample.opts 1 acts ⟨o, happlied o ho, rfl⟩).1 (hlogged o ho)

/-- A row is written, deleted and reclaimed, and its write is delivered again: the
row is back. -/
theorem redelivery_not_ignored :
    let r := Runs.run (step plainCrypto) (start plainCrypto Sample.opts 1)
      [.call (.update Sample.table Sample.row (Sample.record (.bool true))),
        .call (.delete Sample.table Sample.row), .call (.compact ⟨true, false⟩)]
    let written := (r.history.flatMap ChangeEvent.ops).take 1
    (∀ o ∈ written, o ∈ r.applied) ∧ ¬ Ignored plainCrypto r.engine (written.map Op.raw) := by
  intro r written
  constructor
  · intro o ho
    obtain ⟨ev, hev, ho⟩ := List.mem_flatMap.1 (List.mem_of_mem_take ho)
    exact ⟨ev, hev, ho⟩
  · intro h
    exact absurd h.returns (by decide +kernel)

end Replica

end TangentFeed
