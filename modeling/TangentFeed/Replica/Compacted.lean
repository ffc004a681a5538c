import TangentFeed.Replica.Reads
import TangentFeed.Replica.Run
import TangentFeed.Replica.Sample

/-!
# Compaction from outside

What a caller of `compact(opts)` can rely on. No read changes, since the rows
that go were tombstoned, the counts of the report add up, and a second
compaction finds nothing to do: what kept a tombstoned row is an operation above
the horizon, which is kept as well.
-/

namespace TangentFeed

variable {s : MemoryAdapter} {opts : CompactionOptions}

/-- The removal pass counts every operation once. -/
theorem Removals.foldl_add_counts (doomed winnerIds : JsSet) (bel : Op → Bool) (ops : List Op)
    (p : Removals) :
    let q := ops.foldl (Removals.add doomed winnerIds bel) p
    q.removed + q.retainedWinners + q.retainedAboveHorizon =
      p.removed + p.retainedWinners + p.retainedAboveHorizon + ops.length := by
  induction ops generalizing p with
  | nil => rfl
  | cons o ops ih =>
    have hstep : (Removals.add doomed winnerIds bel p o).removed +
        (Removals.add doomed winnerIds bel p o).retainedWinners +
        (Removals.add doomed winnerIds bel p o).retainedAboveHorizon =
          p.removed + p.retainedWinners + p.retainedAboveHorizon + 1 := by
      unfold Removals.add
      split_ifs <;> simp only <;> omega
    have h := ih (Removals.add doomed winnerIds bel p o)
    simp only at h ⊢
    rw [List.foldl_cons, List.length_cons, h, hstep]
    omega

/-- The removal pass lists the operations it counts as removed. -/
theorem Removals.foldl_add_opIds (doomed winnerIds : JsSet) (bel : Op → Bool) (ops : List Op)
    (p : Removals) :
    ∃ ids : List JsString, ids.Sublist (ops.map Op.id) ∧
      (ops.foldl (Removals.add doomed winnerIds bel) p).opIds = p.opIds ++ ids ∧
      (ops.foldl (Removals.add doomed winnerIds bel) p).removed = p.removed + ids.length := by
  induction ops generalizing p with
  | nil => exact ⟨[], List.Sublist.refl _, (List.append_nil _).symm, rfl⟩
  | cons o ops ih =>
    obtain ⟨ids, hs, h1, h2⟩ := ih (Removals.add doomed winnerIds bel p o)
    have hstep : (Removals.add doomed winnerIds bel p o).opIds = p.opIds ++ [o.id] ∧
          (Removals.add doomed winnerIds bel p o).removed = p.removed + 1 ∨
        (Removals.add doomed winnerIds bel p o).opIds = p.opIds ∧
          (Removals.add doomed winnerIds bel p o).removed = p.removed := by
      unfold Removals.add
      split_ifs
      · exact .inl ⟨rfl, rfl⟩
      · exact .inr ⟨rfl, rfl⟩
      · exact .inl ⟨rfl, rfl⟩
      · exact .inr ⟨rfl, rfl⟩
    rw [List.foldl_cons]
    rcases hstep with ⟨e1, e2⟩ | ⟨e1, e2⟩
    · refine ⟨o.id :: ids, hs.cons_cons _, ?_, ?_⟩
      · rw [h1, e1, List.append_assoc, List.singleton_append]
      · rw [h2, e2, List.length_cons]
        omega
    · exact ⟨ids, hs.cons _, by rw [h1, e1], by rw [h2, e2]⟩

/-- The identifiers a plan removes: each once, all of the log, as many as it reports. -/
theorem plan_opIds (hk : s.Keyed) (winners : JsMap Op) (horizon : Frontier)
    (opts : CompactionOptions) :
    let plan := planCompaction s.allOps winners horizon opts
    plan.opIds.Nodup ∧ (∀ id ∈ plan.opIds, ∃ o ∈ s.log, o.id = id) ∧
      ∀ blockedBy, (plan.stats blockedBy).removed = plan.opIds.length := by
  obtain ⟨ids, hs, h1, h2⟩ := Removals.foldl_add_opIds
    (doomedRows s.allOps winners horizon opts) (winnerIds winners) (below horizon) s.allOps
    ⟨[], ∅, 0, 0, 0⟩
  have e : (planCompaction s.allOps winners horizon opts).opIds = ids := h1
  refine ⟨?_, ?_, ?_⟩
  · rw [e]
    exact hs.nodup hk.nodup_allOps
  · rw [e]
    intro id hid
    obtain ⟨o, ho, rfl⟩ := List.mem_map.1 (hs.subset hid)
    exact ⟨o, hk.mem_allOps.1 ho, rfl⟩
  · intro blockedBy
    rw [e]
    exact h2.trans (Nat.zero_add _)

/-- A plan removes the log's operations it counts. -/
theorem opCount_compactStorage (hk : s.Keyed) (hd : opts.dryRun = false) :
    (compactStorage s opts).1.opCount + (compactStorage s opts).2.removed = s.opCount := by
  obtain ⟨h1, h2, h3⟩ := plan_opIds hk (winningCells s) s.horizon opts
  have hm : ∀ id ∈ (planCompaction s.allOps (winningCells s) s.horizon opts).opIds,
      id ∈ s.opsById := by
    intro id hid
    obtain ⟨o, ho, rfl⟩ := h2 id hid
    rw [Std.ExtTreeMap.mem_iff_isSome_getElem?, MemoryAdapter.mem_log.1 ho]
    rfl
  have e : (compactStorage s opts).2.removed =
      (planCompaction s.allOps (winningCells s) s.horizon opts).opIds.length := h3 _
  rw [compactStorage_fst hd, e]
  exact Std.ExtTreeMap.size_foldl_erase h1 hm

/-- The counts of the report add up to the log. -/
theorem compactStorage_counts (s : MemoryAdapter) (opts : CompactionOptions) :
    (compactStorage s opts).2.scanned = (compactStorage s opts).2.removed +
      (compactStorage s opts).2.retainedWinners +
        (compactStorage s opts).2.retainedAboveHorizon := by
  have h := Removals.foldl_add_counts (doomedRows s.allOps (winningCells s) s.horizon opts)
    (winnerIds (winningCells s)) (below s.horizon) s.allOps ⟨[], ∅, 0, 0, 0⟩
  simp only [Nat.zero_add] at h
  exact h.symm

theorem compactStorage_scanned (s : MemoryAdapter) (opts : CompactionOptions) :
    (compactStorage s opts).2.scanned = s.opCount := by
  have hp : s.allOps.Perm (s.opsById.toList.map Prod.snd) := List.perm_insertionSort ..
  change s.allOps.length = s.opsById.size
  rw [hp.length_eq, List.length_map, Std.ExtTreeMap.length_toList]

/-- A compaction touches the log and the cells only. -/
theorem compactStorage_frame (s : MemoryAdapter) (opts : CompactionOptions) :
    (compactStorage s opts).1 = { s with
      opsById := (compactStorage s opts).1.opsById
      tables := (compactStorage s opts).1.tables } := by
  by_cases hd : opts.dryRun = true
  · rw [compactStorage_dryRun hd]
  · rw [compactStorage_fst (by simpa using hd)]
    rfl

theorem compactStorage_horizon (s : MemoryAdapter) (opts : CompactionOptions) :
    (compactStorage s opts).1.horizon = s.horizon := by
  rw [compactStorage_frame]
  rfl

/-- An empty plan asks for no transaction. -/
theorem compactionDue_of_nil
    (hops : (planCompaction s.allOps (winningCells s) s.horizon opts).opIds = [])
    (hcells : (planCompaction s.allOps (winningCells s) s.horizon opts).cellKeys = []) :
    compactionDue s opts = false := by
  have h : compactionDue s opts = (!opts.dryRun &&
      (0 < (planCompaction s.allOps (winningCells s) s.horizon opts).opIds.length ||
        0 < (planCompaction s.allOps (winningCells s) s.horizon opts).cellKeys.length)) := rfl
  rw [h, hops, hcells]
  exact Bool.and_false _

/-! ## The second time -/

/-- After a compaction no row is left to reclaim: what kept one is still there. -/
theorem reclaims_compactStorage (hk : s.Keyed) (hw : WinnersLogged s) (hd : opts.dryRun = false) :
    reclaims (compactStorage s opts).1 opts = ∅ := by
  rw [Set.eq_empty_iff_forall_notMem]
  rintro r ⟨hi, ⟨t, ht, htrue, hb⟩, hall⟩
  rw [compactStorage_horizon] at hb hall
  rw [compactStorage_winner_eq_some hk hd] at ht
  apply ht.2
  refine ⟨hi, ⟨t, ht.1, htrue, hb⟩, fun o ho hr => ?_⟩
  by_contra hnb
  refine hnb (hall o ((compactStorage_log hk hw hd).2 ⟨ho, ?_, fun h => absurd h hnb⟩) hr)
  rw [hr]
  exact ht.2

/-- **A second compaction finds nothing to remove.** -/
theorem compactStorage_again (hk : s.Keyed) (hw : WinnersLogged s) (hd : opts.dryRun = false)
    (hk' : (compactStorage s opts).1.Keyed) (hw' : WinnersLogged (compactStorage s opts).1) :
    compactionDue (compactStorage s opts).1 opts = false ∧
      (compactStorage (compactStorage s opts).1 opts).2.removed = 0 := by
  have hr : reclaims (compactStorage s opts).1 opts = ∅ := reclaims_compactStorage hk hw hd
  obtain ⟨-, h2, h3⟩ := plan_opIds hk'
    (winningCells (compactStorage s opts).1) (compactStorage s opts).1.horizon opts
  have hops : (planCompaction (compactStorage s opts).1.allOps
      (winningCells (compactStorage s opts).1) (compactStorage s opts).1.horizon opts).opIds = [] := by
    rw [List.eq_nil_iff_forall_not_mem]
    intro id hid
    obtain ⟨o, ho, rfl⟩ := h2 id hid
    rcases (mem_plan_opIds hk' hw' ho).1 hid with h | ⟨hb, hn⟩
    · rw [hr] at h
      exact h
    · obtain ⟨ho', hrow, hwin⟩ := (compactStorage_log hk hw hd).1 ho
      rw [compactStorage_horizon] at hb
      exact hn ((compactStorage_winner_eq_some hk hd).2 ⟨hwin hb, hrow⟩)
  have hcells : (planCompaction (compactStorage s opts).1.allOps
      (winningCells (compactStorage s opts).1) (compactStorage s opts).1.horizon opts).cellKeys =
        [] := by
    rw [List.eq_nil_iff_forall_not_mem]
    intro key hkey
    obtain ⟨o, -, h, -⟩ := (mem_plan_cellKeys hk').1 hkey
    rw [hr] at h
    exact h
  constructor
  · exact compactionDue_of_nil hops hcells
  · change ((planCompaction _ _ _ _).stats _).removed = 0
    refine (h3 _).trans ?_
    rw [hops]
    rfl

/-! ## The call -/

namespace SyncEngine

/-- What `compact(opts)` on `e` may leave and report. -/
structure Compacted (e : SyncEngine) (opts : CompactionOptions) (e' : SyncEngine)
    (stats : CompactionStats) : Prop where
  get : e'.get = e.get
  list : e'.list = e.list
  dump : ∀ inherited, e'.dump inherited = e.dump inherited
  frontier : e'.frontier = e.frontier
  clock : e'.clock = e.clock ∧ e'.storage.clock = e.storage.clock
  shrinks : e'.storage.log ⊆ e.storage.log
  keepsAbove : ∀ o ∈ e.storage.log, below e.storage.horizon o = false → o ∈ e'.storage.log
  keepsWinners : ∀ o ∈ e.storage.log, e.storage.winner o.cell = some o →
    o.rowKey ∉ reclaims e.storage opts → o ∈ e'.storage.log
  superseded : opts.dryRun = false → ∀ o ∈ e.storage.log, below e.storage.horizon o = true →
    e.storage.winner o.cell ≠ some o → o ∉ e'.storage.log
  reclaimed : opts.dryRun = false → ∀ r ∈ reclaims e.storage opts,
    (∀ o ∈ e'.storage.log, o.rowKey ≠ r) ∧ ∀ c, rowOf c = r → e'.storage.winner c = none
  otherRows : ∀ c, rowOf c ∉ reclaims e.storage opts → e'.storage.winner c = e.storage.winner c
  counts : stats.scanned = stats.removed + stats.retainedWinners + stats.retainedAboveHorizon
  scanned : stats.scanned = e.storage.opCount
  removed : opts.dryRun = false → e'.storage.opCount + stats.removed = e.storage.opCount
  dry : opts.dryRun = true → e'.storage = e.storage

variable {cr : Crypto} {e : SyncEngine} {H : Set Op}

/-- How a compaction ends: it rejects only where it comes to a transaction that fails. -/
theorem compact_cases (e : SyncEngine) (opts : CompactionOptions) :
    (∃ err, (e.compact opts).result = .error err ∧ compactionDue e.storage opts = true ∧
      e.env.storageFails e.asked = true ∧ (e.compact opts).engine.storage = e.storage) ∨
    (e.compact opts).result = .ok (compactStorage e.storage opts).2 ∧
      (e.compact opts).engine = { e with
        asked := (e.compact opts).engine.asked
        storage := (compactStorage e.storage opts).1 } := by
  unfold compact
  simp only
  split
  · rename_i hdue
    unfold transact
    split
    · rename_i hfails
      exact .inl ⟨.storage, rfl, hdue, hfails, rfl⟩
    · exact .inr ⟨rfl, rfl⟩
  · rename_i hdue
    rw [compactStorage_of_not_due (Bool.eq_false_iff.2 hdue)]
    exact .inr ⟨rfl, rfl⟩

/-- The store after a compaction. -/
theorem compact_storage (e : SyncEngine) (opts : CompactionOptions) :
    (e.compact opts).engine.storage =
      if e.env.storageFails e.asked then e.storage else (compactStorage e.storage opts).1 := by
  unfold compact
  simp only
  split
  · unfold transact
    split
    · rfl
    · rfl
  · rename_i hdue
    rw [compactStorage_of_not_due (Bool.eq_false_iff.2 hdue), ite_self]
    rfl

/-- Where there is nothing to remove, a compaction resolves and changes nothing. -/
theorem compact_of_not_due {e : SyncEngine} {opts : CompactionOptions}
    (h : compactionDue e.storage opts = false) :
    e.compact opts = .quiet e (.ok (compactStorage e.storage opts).2) := by
  unfold compact
  simp only
  rw [h]
  rfl

/-- What a compaction keeps, dry or not. -/
theorem mem_log_compactStorage (hk : s.Keyed) (hw : WinnersLogged s) {o : Op} (ho : o ∈ s.log)
    (hr : o.rowKey ∉ reclaims s opts) (hb : below s.horizon o = true → s.winner o.cell = some o) :
    o ∈ (compactStorage s opts).1.log := by
  by_cases hd : opts.dryRun = true
  · rw [compactStorage_dryRun hd]
    exact ho
  · exact (compactStorage_log hk hw (by simpa using hd)).2 ⟨ho, hr, hb⟩

theorem log_compactStorage_subset (s : MemoryAdapter) (opts : CompactionOptions) :
    (compactStorage s opts).1.log ⊆ s.log := by
  intro o ho
  by_cases hd : opts.dryRun = true
  · rw [compactStorage_dryRun hd] at ho
    exact ho
  · rw [compactStorage_fst (by simpa using hd), MemoryAdapter.log_compact] at ho
    exact ho.1

theorem winner_compactStorage (hk : s.Keyed) {c : Cell} (hr : rowOf c ∉ reclaims s opts) :
    (compactStorage s opts).1.winner c = s.winner c := by
  by_cases hd : opts.dryRun = true
  · rw [compactStorage_dryRun hd]
  · apply Option.ext
    intro o
    rw [compactStorage_winner_eq_some hk (by simpa using hd)]
    exact and_iff_left hr

/-- A reclaimed row was hidden and is gone, any other row has its cells. -/
theorem get_compactStorage (hk : e.storage.Keyed) (hk' : (compactStorage e.storage opts).1.Keyed)
    (e' : SyncEngine) (hs : e'.storage = (compactStorage e.storage opts).1)
    (hc : e'.cipher = e.cipher) : e'.get = e.get := by
  funext table row
  rw [← hs] at hk'
  by_cases hd : opts.dryRun = true
  · rw [compactStorage_dryRun hd] at hs
    exact congrFun (congrFun (get_congr (by rw [hs]) hc) table) row
  have hd' : opts.dryRun = false := by simpa using hd
  by_cases hr : (table, row) ∈ reclaims e.storage opts
  · obtain ⟨-, ⟨t, ht, htrue, -⟩, -⟩ := id hr
    rw [get_of_tombstone ht htrue]
    refine get_of_no_winners hk' fun column => ?_
    rw [Option.eq_none_iff_forall_ne_some]
    intro o ho
    rw [hs] at ho
    exact ((compactStorage_winner_eq_some hk hd').1 ho).2 hr
  · refine get_of_winners hk' hk hc fun column => ?_
    rw [hs]
    exact winner_compactStorage hk hr

/-- **A compaction keeps every read, removes what it must and reports it.** -/
theorem Consistent.compacted (hc : Consistent cr e H) (opts : CompactionOptions) (e' : SyncEngine)
    (he : e' = { e with asked := e'.asked, storage := (compactStorage e.storage opts).1 }) :
    Compacted e opts e' (compactStorage e.storage opts).2 := by
  have hk := hc.ledger.keyed
  have hk' := (hc.ledger.compact opts).keyed
  have hw : WinnersLogged e.storage := hc.ledger.winnersLogged
  have hs : e'.storage = (compactStorage e.storage opts).1 := by rw [he]
  have hget : e'.get = e.get := get_compactStorage hk hk' e' hs (by rw [he])
  have hframe := compactStorage_frame e.storage opts
  exact {
    get := hget
    list := funext fun table => list_of_get hget table
    dump := fun inherited => dump_of_get hget inherited
    frontier := by
      unfold frontier
      rw [hs, hframe]
    clock := by
      refine ⟨by rw [he], ?_⟩
      rw [hs, hframe]
    shrinks := by
      rw [hs]
      exact log_compactStorage_subset _ _
    keepsAbove := by
      intro o ho hb
      rw [hs]
      refine mem_log_compactStorage hk hw ho (fun hr => ?_) fun h => ?_
      · rw [hr.2.2 o ho rfl] at hb
        cases hb
      · rw [hb] at h
        cases h
    keepsWinners := by
      intro o ho hwin hr
      rw [hs]
      exact mem_log_compactStorage hk hw ho hr fun _ => hwin
    superseded := by
      intro hd o ho hb hn ho'
      rw [hs] at ho'
      exact hn (((compactStorage_log hk hw hd).1 ho').2.2 hb)
    reclaimed := by
      intro hd r hr
      rw [hs]
      constructor
      · rintro o ho rfl
        exact ((compactStorage_log hk hw hd).1 ho).2.1 hr
      · rintro c rfl
        rw [Option.eq_none_iff_forall_ne_some]
        intro o ho
        exact ((compactStorage_winner_eq_some hk hd).1 ho).2 hr
    otherRows := by
      intro c hr
      rw [hs]
      exact winner_compactStorage hk hr
    counts := compactStorage_counts e.storage opts
    scanned := compactStorage_scanned e.storage opts
    removed := by
      intro hd
      rw [hs]
      exact opCount_compactStorage hk hd
    dry := by
      intro hd
      rw [hs, compactStorage_dryRun hd] }

/-- The engine with another record of peer frontiers. -/
def withPeers (e : SyncEngine) (peers : JsMap Frontier) : SyncEngine :=
  { e with storage := { e.storage with peerFrontiers := peers } }

theorem Consistent.withPeers (hc : Consistent cr e H) (peers : JsMap Frontier) :
    Consistent cr (e.withPeers peers) H where
  identity := ⟨hc.identity.bounded, hc.identity.device, hc.identity.generated, hc.identity.stored,
    hc.identity.directory, hc.identity.own, hc.identity.subscribers⟩
  ledger := hc.ledger.congr rfl rfl rfl
  saved := hc.saved
  counter := hc.counter
  dominated := hc.dominated

end SyncEngine

open SyncEngine

/-- **Compaction is invisible and complete.** Whatever a replica did, and
whatever frontiers it has on record: `compact(opts)` resolves unless it removes
something and the store rejects that, and then the store is as it was; it
changes no read, neither frontier nor clock, removes what is superseded or
reclaimed and nothing else, and reports it; a dry run changes nothing and reports
the same; and after a real run a second one resolves and removes nothing. -/
theorem Replica.compact_invisible (cr : Crypto) (opts : EngineOptions) (seed : Nat)
    (acts : List Replica.Action) (peers : JsMap Frontier) (copts : CompactionOptions) :
    let e := (Runs.run (Replica.step cr) (Replica.start cr opts seed) acts).engine.withPeers peers
    let e' := (e.compact copts).engine
    (copts.dryRun = true ∨ e.env.storageFails e.asked = false →
      ∃ stats, (e.compact copts).result = .ok stats) ∧
    (∀ err, (e.compact copts).result = .error err → e'.storage = e.storage) ∧
    ∀ stats, (e.compact copts).result = .ok stats →
      Compacted e copts e' stats ∧
      (e.compact { copts with dryRun := true }).result = .ok stats ∧
      (copts.dryRun = false → (e'.compact copts).engine = e' ∧
        ∃ stats', (e'.compact copts).result = .ok stats' ∧ stats'.removed = 0) := by
  intro e e'
  have hc := (Replica.consistent_run cr opts seed acts).withPeers peers
  rcases e.compact_cases copts with ⟨err, h1, hdue, hfails, h2⟩ | ⟨h1, h2⟩
  · refine ⟨fun h => ?_, fun _ _ => h2, fun stats hok => ?_⟩
    · rcases h with h | h
      · rw [compactionDue_dryRun h] at hdue
        cases hdue
      · rw [h] at hfails
        cases hfails
    · rw [h1] at hok
      cases hok
  · refine ⟨fun _ => ⟨_, h1⟩, fun err herr => ?_, fun stats hok => ?_⟩
    · rw [h1] at herr
      cases herr
    obtain rfl := Except.ok.inj (h1.symm.trans hok)
    refine ⟨hc.compacted copts e' h2, ?_, fun hd => ?_⟩
    · rw [compact_of_not_due (compactionDue_dryRun rfl)]
      rfl
    · have hs : e'.storage = (compactStorage e.storage copts).1 := congrArg SyncEngine.storage h2
      obtain ⟨hidle, hnone⟩ := compactStorage_again hc.ledger.keyed hc.ledger.winnersLogged hd
        (hc.ledger.compact copts).keyed (hc.ledger.compact copts).winnersLogged
      rw [← hs] at hidle hnone
      rw [compact_of_not_due hidle]
      exact ⟨rfl, _, rfl, hnone⟩

/-- One row written and deleted, another written twice. -/
def Sample.deletedAndUpdated : List Replica.Action :=
  [.call (.update table row (record (.bool true))), .call (.delete table row),
    .call (.update table otherRow (record (.bool true))),
    .call (.update table otherRow (record (.bool false)))]

/-- The deleted row is reclaimed, and of the other the first write goes. -/
theorem Replica.compact_invisible_sample :
    let e := (Runs.run (Replica.step plainCrypto) (Replica.start plainCrypto Sample.opts 1)
      Sample.deletedAndUpdated).engine.withPeers ∅
    ∃ stats, (e.compact ⟨true, false⟩).result = .ok stats ∧
      stats.removed = 3 ∧ stats.rowsReclaimed = 1 ∧
      Compacted e ⟨true, false⟩ (e.compact ⟨true, false⟩).engine stats := by
  intro e
  have h : (e.compact ⟨true, false⟩).result = .ok ⟨4, 3, 1, 1, 0, []⟩ := by decide +kernel
  exact ⟨_, h, rfl, rfl, ((compact_invisible plainCrypto Sample.opts 1 Sample.deletedAndUpdated ∅
    ⟨true, false⟩).2.2 _ h).1⟩

end TangentFeed
