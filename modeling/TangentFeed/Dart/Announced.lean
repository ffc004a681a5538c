import TangentFeed.Dart.Reads

/-!
# Changes are announced

A call of the Dart engine changes what is read of a row only if it commits an event
that names the row, and a compaction, which commits no event, changes no read.
-/

namespace TangentFeed.Dart

variable {cr : Crypto} {s : MemoryAdapter} {H : Set StoredOp} {t r : JsString}

/-! ## Rows that stay -/

/-- A batch leaves the rows its event does not name. -/
theorem getRow_committed {ops : List StoredOp} {clock : Hlc} {origin : Origin}
    (h : (t, r) ∉ ((SyncEngine.pending s ops).event origin).changes) :
    (SyncEngine.committed s ops clock).getRow t r = s.getRow t r := by
  refine SyncEngine.getRow_congr (OrderedMap.filter_foldl_set
    (p := fun c : Cell => decide (c.1 = t ∧ c.2.1 = r)) (fun e he => decide_eq_false ?_) s.winners)
  rintro ⟨ht, hr⟩
  have hget : (SyncEngine.pending s ops).winners.get e.1 = some e.2 :=
    OrderedMap.mem_entries.1 he
  refine h ((@SyncEngine.mem_changes _ _ clock _ _ _).2 ⟨e.1.2.2, fun hsame => ?_⟩)
  have hw : (t, r, e.1.2.2) = e.1 := by rw [← ht, ← hr]
  have hbatch : (SyncEngine.committed s ops clock).winner e.1 = some e.2 :=
    (MemoryAdapter.winner_applyBatch s _ _).trans (congrArg (Option.or · _) hget)
  rw [hw, hbatch] at hsame
  exact lt_irrefl _ (((SyncEngine.merged_pending s ops).beats hget).2.2 e.2 hsame.symm)

/-- A compaction removes a row whole or leaves it. -/
theorem getRow_compactStorage (hl : s.Ledger H) {opts : CompactionOptions}
    (hd : opts.dryRun = false) (t r : JsString) :
    (compactStorage s opts).1.getRow t r = s.getRow t r ∨
      ((compactStorage s opts).1.getRow t r = none ∧ s.Hidden t r) := by
  by_cases hr : (t, r) ∈ reclaims s opts
  · right
    constructor
    · by_contra hne
      obtain ⟨c, hc⟩ := (MemoryAdapter.getRow_ne_none _ _ _).1 hne
      obtain ⟨w, hw⟩ := Option.ne_none_iff_exists'.1 hc
      exact ((compactStorage_winner hl hd).1 hw).2 hr
    · obtain ⟨-, ⟨w, hw, ht, -⟩, -⟩ := hr
      exact ⟨w, hw, ht⟩
  · left
    refine SyncEngine.getRow_congr ?_
    rw [compactStorage_eq hl hd]
    change List.filter _ (List.foldl _ s.winners _).entries = _
    rw [OrderedMap.entries_foldl_erase, List.filter_filter]
    refine List.filter_congr fun e _ => ?_
    by_cases hrow : e.1.1 = t ∧ e.1.2.1 = r
    · have hnot : e.1 ∉ (s.plan opts).cellKeys := fun hc => by
        obtain ⟨o, -, hcell, hro⟩ := (mem_plan_cellKeys hl.keyed).1 hc
        have e1 : o.rowKey = (t, r) := by
          rw [← hrow.1, ← hrow.2, ← hcell]
          rfl
        exact hr (e1 ▸ hro)
      simp [hnot]
    · rw [decide_eq_false hrow, Bool.false_and]

namespace SyncEngine

variable {e : SyncEngine} {d : Deed} {α : Type} {reply : Reply α}

/-- A hidden row is not shown. -/
theorem get_of_hidden (h : e.storage.Hidden t r) : e.get t r = none := by
  by_contra hne
  exact (e.get_isSome.1 (Option.isSome_iff_ne_none.2 hne)).1 h

theorem get_compacted {e' : SyncEngine} {opts : CompactionOptions} (hl : e.storage.Ledger H)
    (hs : e'.storage = (compactStorage e.storage opts).1) (t r : JsString) :
    e'.get t r = e.get t r ∧ (e'.storage.getRow t r ≠ none → e.storage.getRow t r ≠ none) := by
  by_cases hd : opts.dryRun = true
  · rw [compactStorage_dryRun hd] at hs
    exact ⟨get_congr (by rw [hs]), fun h => by rwa [hs] at h⟩
  · rcases getRow_compactStorage hl (Bool.eq_false_iff.2 hd) t r with h | ⟨hnone, hh⟩
    · rw [← hs] at h
      exact ⟨get_congr h, fun hr => by rwa [h] at hr⟩
    · rw [← hs] at hnone
      refine ⟨?_, fun hr => absurd hnone hr⟩
      rw [get_of_hidden hh, SyncEngine.get, hnone]
      rfl

/-- What a call does to a row that no event of it names. -/
theorem Effect.get_eq (hc : Consistent cr e H) (h : Effect cr e d reply)
    (hquiet : ∀ ev, reply.event = some ev → (t, r) ∉ ev.changes) :
    reply.engine.get t r = e.get t r := by
  have hs := h.store
  generalize reply.event = ev at hs hquiet
  cases hs with
  | idle hs => exact get_congr (by rw [hs])
  | peerSaved hs => exact get_congr (by rw [hs]; rfl)
  | compacted hs => exact (get_compacted hc.kept.ledger hs t r).1
  | committed hs => exact get_congr (by rw [hs]; exact getRow_committed (hquiet _ rfl))

end SyncEngine

/-! ## Over a run -/

namespace Replica

/-- The engine of a run that has one is consistent. -/
theorem consistent_of_running {acts : List Action} {e : SyncEngine}
    (h : (Runs.run (step cr) start acts).phase = .running e) :
    e.Consistent cr (Runs.run (step cr) start acts).applied := by
  have hk := kept_run cr acts
  unfold Kept at hk
  rwa [h] at hk

/-- **Nothing changes in silence.** In every state a replica reaches and for every call: a row
that `get` shows otherwise afterwards is among the changes of the event the call committed, the
changes of an event are the rows with a new winner, each once, and its operations are those
that are new in the log. -/
theorem changes_announced (cr : Crypto) (acts : List Action) (c : Call) :
    ∀ e, (Runs.run (step cr) start acts).phase = .running e →
      (∀ t r, (c.run cr e).engine.get t r ≠ e.get t r →
        ∃ ev, (c.run cr e).event = some ev ∧ (t, r) ∈ ev.changes) ∧
      ∀ ev, (c.run cr e).event = some ev →
        (∀ t r, (t, r) ∈ ev.changes ↔ ∃ column,
          (c.run cr e).engine.storage.winner (t, r, column) ≠ e.storage.winner (t, r, column)) ∧
        ev.changes.Nodup ∧
        ∀ o, o ∈ ev.ops ↔ o ∈ (c.run cr e).engine.storage.logged ∧ o ∉ e.storage.logged := by
  intro e hrun
  have hc := consistent_of_running hrun
  have heff := c.run_effect hc.identity
  refine ⟨fun t r hne => ?_, fun ev hev => ?_⟩
  · by_contra hnone
    push Not at hnone
    exact hne (heff.get_eq hc hnone)
  · have hs := heff.store
    rw [hev] at hs
    generalize c.deed = d at hs
    cases hs with
    | @committed ops origin hs _ _ =>
      have hm := SyncEngine.merged_pending e.storage ops
      refine ⟨fun t r => ?_, ?_, fun o => ?_⟩
      · rw [hs]
        exact SyncEngine.mem_changes
      · -- one key a row
        have hkeys : ((SyncEngine.pending e.storage ops).changed.entries.map fun x =>
            x.2.1 ++ sep :: x.2.2).Nodup := by
          refine (congrArg List.Nodup (List.map_congr_left fun x hx => ?_)).mp
            (SyncEngine.pending e.storage ops).changed.nodup
          exact (hm.changed.1 (OrderedMap.mem_entries.1 hx)).1
        exact List.Nodup.of_map (fun row : JsString × JsString => row.1 ++ sep :: row.2) (by
          rw [SyncEngine.Pending.event, OrderedMap.values, List.map_map]
          exact hkeys)
      · rw [hs, MemoryAdapter.logged_committed]
        change o ∈ (SyncEngine.pending e.storage ops).fresh ↔ _
        constructor
        · intro ho
          refine ⟨.inr ho, fun hl => ?_⟩
          have hno := hm.notLogged o ho
          rw [(hc.kept.ledger.keyed.hasOp_iff).2 ⟨o, hl, rfl⟩] at hno
          cases hno
        · rintro ⟨hl | ho, hnot⟩
          · exact absurd hl hnot
          · exact ho

/-- A first update is announced. -/
theorem changes_announced_sample :
    ∃ ev, ((Sample.update (.bool true)).run plainCrypto Sample.engine).event = some ev ∧
      (TangentFeed.Sample.table, TangentFeed.Sample.row) ∈ ev.changes :=
  (changes_announced plainCrypto Sample.acts (Sample.update (.bool true)) Sample.engine
    Sample.running).1 _ _ fun h => absurd (congrArg Option.isSome h) (by decide +kernel)

end Replica

/-! ## Compaction -/

namespace SyncEngine

/-- What a compaction leaves: the engine `e'` after `compact(opts)` on `e`. -/
structure Compacted (e : SyncEngine) (opts : CompactionOptions) (e' : SyncEngine)
    (stats : CompactionStats) : Prop where
  get : ∀ t r, e'.get t r = e.get t r
  list : ∀ t, e'.list t = e.list t
  dump : e'.dump = e.dump
  frontier : e'.frontier = e.frontier
  clock : e'.clock = e.clock ∧ e'.storage.clock = e.storage.clock
  peers : e'.storage.peerFrontiers = e.storage.peerFrontiers
  dry : opts.dryRun = true → e'.storage = e.storage
  logged : opts.dryRun = false → ∀ o, o ∈ e'.storage.logged ↔
    o ∈ e.storage.logged ∧ o.rowKey ∉ reclaims e.storage opts ∧
      (below e.storage.horizon o = true → e.storage.winner o.cell = some o)
  counts : Counted e.storage opts stats
  shrinks : opts.dryRun = false → e'.storage.opCount + stats.removed = e.storage.opCount
  again : opts.dryRun = false →
    ∃ stats', e'.compact opts = .quiet e' (.ok stats') ∧ stats'.removed = 0

/-- How a compaction ends: it throws only where it comes to a transaction that fails. -/
theorem compact_cases (e : SyncEngine) (opts : CompactionOptions) :
    (∃ err, (e.compact opts).result = .error err ∧ compactionDue e.storage opts = true ∧
      e.env.storageFails e.asked = true) ∨
    (e.compact opts).result = .ok (compactStorage e.storage opts).2 ∧
      (e.compact opts).engine.storage = (compactStorage e.storage opts).1 ∧
      (e.compact opts).engine.clock = e.clock := by
  unfold compact
  simp only
  split
  · rename_i hdue
    unfold transact
    split
    · rename_i hfails
      exact .inl ⟨.storage, rfl, hdue, hfails⟩
    · exact .inr ⟨rfl, rfl, rfl⟩
  · rename_i hdue
    rw [compactStorage_of_not_due (Bool.eq_false_iff.2 hdue)]
    exact .inr ⟨rfl, rfl, rfl⟩

theorem Consistent.compacted {e e' : SyncEngine} (hc : Consistent cr e H)
    {opts : CompactionOptions} (hs : e'.storage = (compactStorage e.storage opts).1)
    (hclock : e'.clock = e.clock) : Compacted e opts e' (compactStorage e.storage opts).2 := by
  have hl := hc.kept.ledger
  have hframe : e'.storage.frontier = e.storage.frontier ∧ e'.storage.clock = e.storage.clock ∧
      e'.storage.peerFrontiers = e.storage.peerFrontiers := by
    obtain ⟨l, w, e1⟩ := @compactStorage_frame e.storage opts
    rw [hs, e1]
    exact ⟨rfl, rfl, rfl⟩
  have hget := fun t r => (get_compacted hl hs t r).1
  obtain ⟨hlist, hdump⟩ := reads_eq_of_get hget fun t r => (get_compacted hl hs t r).2
  exact {
    get := hget
    list := hlist
    dump := hdump
    frontier := hframe.1
    clock := ⟨hclock, hframe.2.1⟩
    peers := hframe.2.2
    dry := fun hd => by rw [hs, compactStorage_dryRun hd]
    logged := fun hd o => by rw [hs, compactStorage_logged hl hd]
    counts := compactStorage_counted hl
    shrinks := fun hd => by rw [hs, size_log_compactStorage hl hd]
    again := fun hd => by
      obtain ⟨hidle, hnone⟩ := compactStorage_again hl hd
      rw [← hs] at hidle hnone
      refine ⟨_, ?_, hnone⟩
      unfold compact
      simp only
      rw [hidle]
      rfl }

end SyncEngine

namespace Replica

/-- **Compaction is invisible.** In every state a replica reaches and for all options: a
compaction completes unless it has something to remove and the store refuses; one that
completes changes nothing that is read, neither frontier nor clock nor what is recorded of the
peers; it takes the reclaimed rows and of the rest what is superseded at or below the horizon,
reports each of its counts as it is, and leaves nothing for a second one; a dry run changes
nothing. -/
theorem compaction_invisible (cr : Crypto) (acts : List Action) (opts : CompactionOptions) :
    ∀ e, (Runs.run (step cr) start acts).phase = .running e →
      ((∃ stats, (e.compact opts).result = .ok stats) ∨
        opts.dryRun = false ∧ e.env.storageFails e.asked = true ∧ ∃ o ∈ e.storage.logged,
          o.rowKey ∈ reclaims e.storage opts ∨
            below e.storage.horizon o = true ∧ e.storage.winner o.cell ≠ some o) ∧
      ∀ stats, (e.compact opts).result = .ok stats →
        SyncEngine.Compacted e opts (e.compact opts).engine stats := by
  intro e hrun
  have hc := consistent_of_running hrun
  rcases e.compact_cases opts with ⟨err, herr, hdue, hfails⟩ | ⟨hok, hs, hclock⟩
  · have hd : opts.dryRun = false := (Bool.not_eq_true' _).mp (Bool.and_eq_true_iff.1 hdue).1
    refine ⟨.inr ⟨hd, hfails, exists_of_due hc.kept.ledger hdue⟩, fun stats h => ?_⟩
    rw [herr] at h
    cases h
  · refine ⟨.inl ⟨_, hok⟩, fun stats h => ?_⟩
    obtain rfl := Except.ok.inj (hok.symm.trans h)
    exact hc.compacted hs hclock

/-- Of two updates of a cell the first goes. -/
theorem compaction_invisible_sample : ∃ stats, stats.removed = 1 ∧
    SyncEngine.Compacted Sample.updated ⟨true, false⟩
      (Sample.updated.compact ⟨true, false⟩).engine stats :=
  ⟨⟨2, 1, 0, 1, 0, []⟩, rfl, (compaction_invisible plainCrypto Sample.updates ⟨true, false⟩
    Sample.updated Sample.running_updated).2 _ (by decide +kernel)⟩

end Replica

end TangentFeed.Dart
