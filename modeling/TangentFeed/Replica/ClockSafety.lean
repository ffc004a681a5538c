import TangentFeed.Replica.Run
import TangentFeed.Replica.Sample

/-!
# Local writes are the latest

An operation made here is later than everything applied before, over all
reopenings: the persisted clock is past what was applied, and a local timestamp
is past the persisted clock.
-/

namespace TangentFeed

open Lww

variable {cr : Crypto}

namespace SyncEngine

variable {e e' : SyncEngine} {H : Set Op}

/-- A local batch is later than everything applied. -/
theorem Consistent.local_later (hc : Consistent cr e H) {ops : List Op}
    (hb : LocalBatch cr e e' ops) {o p : Op} (ho : o ∈ ops) (hp : p ∈ H) : p.hlc < o.hlc := by
  have h1 := hc.dominated p hp
  have h2 := hc.saved
  have h3 := (hb.later o ho).1
  exact Op.hlc_lt.2 (.inl (by omega))

/-- A local operation alone on its cell wins it. -/
theorem Consistent.local_wins (hc : Consistent cr e H) {ops : List Op} {clock : ClockState}
    (hb : LocalBatch cr e e' ops) {o : Op} (ho : o ∈ ops)
    (hu : ∀ p ∈ ops, p.cell = o.cell → p = o) :
    (committed e.storage ops clock).winner o.cell = some o := by
  have hl := hc.ledger.commit (hc.new_of_local hb) clock
  have hlog := log_commit hc.ledger.keyed (hc.new_of_local hb) clock
  obtain ⟨w, hw⟩ := hl.cells.total o (by rw [hlog]; exact .inr ho)
  obtain ⟨⟨q, hq, hcell, rfl⟩, hle⟩ := hl.cells.best hw
  rw [hlog] at hq
  rcases hq with hq | hq
  · -- a logged winner would be older than the operation just written
    have h1 : o.hlc ≤ q.hlc := hle o (by rw [hlog]; exact .inr ho) rfl
    exact absurd (hc.local_later hb ho (hc.ledger.logged hq)) (not_lt.2 h1)
  · obtain rfl := hu q hq hcell
    exact hw

/-- The event of an update is that of the operations it made. -/
theorem update_event {table row : JsString} {values : Record} {ev : ChangeEvent}
    (hi : Identity cr e) (h : (e.update cr table row values).event = some ev) :
    ∃ m ops, Moved e m ∧ LocalBatch cr e m ops ∧ ev = changeEvent ops .local ∧
      (ops.map Op.cell = values.entries.map fun v => (table, row, v.1)) ∧
      (e.update cr table row values).engine.storage = committed e.storage ops m.clockState := by
  have hm := makeLocalOps_moved cr table row values.entries e
  unfold update at h ⊢
  cases hmade : (e.makeLocalOps cr table row values.entries).1 with
  | error err => simp only [hmade] at h; cases h
  | ok ops =>
    simp only [hmade] at h ⊢
    obtain ⟨hb, hcells⟩ := makeLocalOps_made hi hmade
    rcases (e.makeLocalOps cr table row values.entries).2.commit_cases ops .local with hr | hr
    · rw [hr] at h; cases h
    · rw [hr] at h ⊢
      refine ⟨_, ops, hm, hb, (Option.some.inj h).symm, hcells, ?_⟩
      rw [← hm.storage]

end SyncEngine

open SyncEngine in
/-- **A local write always wins and never reuses a timestamp.** After any run of
calls, failed calls and reopenings: each operation a local write commits is
later than every operation of the log and than every operation ever applied,
the operations of one write are in increasing order, and each cell of an update
that commits is won by the operation just written. -/
theorem Replica.local_write_latest (cr : Crypto) (opts : EngineOptions) (seed : Nat)
    (acts : List Replica.Action) (c : Call) :
    let r := Runs.run (Replica.step cr) (Replica.start cr opts seed) acts
    let reply := c.run cr r.engine
    (∀ ev, reply.event = some ev → ev.origin = .local →
      (∀ o ∈ ev.ops, (∀ p ∈ r.engine.storage.log, p.hlc < o.hlc) ∧
        ∀ p ∈ r.applied, p.hlc < o.hlc ∧ p.id ≠ o.id) ∧
      ev.ops.Pairwise fun o p => o.hlc < p.hlc) ∧
    ∀ table row values, c = .update table row values → ∀ ev, reply.event = some ev →
      ∀ v ∈ values.entries, ∃ o ∈ ev.ops, o.cell = (table, row, v.1) ∧
        reply.engine.storage.winner (table, row, v.1) = some o := by
  have hc := Replica.consistent_run cr opts seed acts
  generalize Runs.run (Replica.step cr) (Replica.start cr opts seed) acts = r at hc
  simp only
  constructor
  · intro ev hev horigin
    have heff := c.run_effect hc.identity
    rw [hev] at heff
    generalize (c.run cr r.engine).engine = e' at heff
    obtain ⟨ops, rfl, hb⟩ : ∃ ops, ev = changeEvent ops .local ∧ LocalBatch cr r.engine e' ops := by
      generalize hd : c.deed = d at heff
      cases heff.store with
      | @committed ops origin _ hb =>
        obtain rfl : origin = .local := horigin
        exact ⟨ops, rfl, hb⟩
    refine ⟨fun o ho => ?_, hb.increasing.imp fun h => Op.hlc_lt.2 (.inl h)⟩
    have hlater : ∀ p ∈ r.applied, p.hlc < o.hlc := fun p hp => hc.local_later hb ho hp
    refine ⟨fun p hp => hlater p (hc.ledger.logged hp), fun p hp => ⟨hlater p hp, fun hid => ?_⟩⟩
    rw [p.id_eq_hlc, o.id_eq_hlc] at hid
    exact absurd (hlater p hp) (by rw [hid]; exact lt_irrefl _)
  · rintro table row values rfl ev hev v hv
    obtain ⟨m, ops, hm, hb, rfl, hcells, hstore⟩ := update_event hc.identity hev
    have hmem : (table, row, v.1) ∈ ops.map Op.cell := by
      rw [hcells]
      exact List.mem_map.2 ⟨v, hv, rfl⟩
    obtain ⟨o, ho, hcell⟩ := List.mem_map.1 hmem
    refine ⟨o, ho, hcell, ?_⟩
    have hnodup : (ops.map Op.cell).Nodup := by
      have e1 : (values.entries.map fun v => (table, row, v.1)) =
          (values.entries.map Prod.fst).map fun c => (table, row, c) := by
        rw [List.map_map]; rfl
      rw [hcells, e1]
      exact values.nodup.map fun a b h => congrArg (·.2.2) h
    change (r.engine.update cr table row values).engine.storage.winner _ = _
    rw [hstore, ← hcell]
    exact hc.local_wins hb ho fun p hp h => List.inj_on_of_nodup_map hnodup hp ho h

/-- A cell is written, the replica reopened on its store and the cell written again, at the same
reading of the clock: the second write is later and wins. -/
theorem Replica.local_write_latest_sample :
    let acts := [.call (.update Sample.table Sample.row (Sample.record (.bool true))),
      .reopen Sample.opts 1]
    let r := Runs.run (Replica.step plainCrypto) (Replica.start plainCrypto Sample.opts 1) acts
    let c := Call.update Sample.table Sample.row (Sample.record (.bool false))
    r.engine.storage.opCount = 1 ∧ ∃ ev, (c.run plainCrypto r.engine).event = some ev ∧
      (∀ o ∈ ev.ops, ∀ p ∈ r.applied, p.hlc < o.hlc) ∧
      ∃ o ∈ ev.ops, (c.run plainCrypto r.engine).engine.storage.winner o.cell = some o := by
  intro acts r c
  obtain ⟨ev, hev⟩ : ∃ ev, (c.run plainCrypto r.engine).event = some ev :=
    Option.isSome_iff_exists.1 (by decide +kernel)
  have horigin : ∀ ev ∈ (c.run plainCrypto r.engine).event, ev.origin = .local := by decide +kernel
  have hlogged : r.engine.storage.opCount = 1 := by decide +kernel
  have hr : Runs.run (Replica.step plainCrypto) (Replica.start plainCrypto Sample.opts 1) acts = r :=
    rfl
  have hc : c = .update Sample.table Sample.row (Sample.record (.bool false)) := rfl
  obtain ⟨hlater, hwins⟩ := Replica.local_write_latest plainCrypto Sample.opts 1 acts c
  rw [hr] at hlater hwins
  clear_value r c
  obtain ⟨o, ho, hcell, hwin⟩ := hwins _ _ _ hc ev hev (js "title", .bool false)
    (List.mem_singleton_self _)
  refine ⟨hlogged, ev, hev, fun o ho p hp => ?_, o, ho, by rw [hcell]; exact hwin⟩
  exact (((hlater ev hev (horigin ev hev)).1 o ho).2 p hp).1

end TangentFeed
