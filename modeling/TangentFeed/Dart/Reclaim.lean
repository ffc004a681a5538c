import Mathlib.Data.Set.Card
import TangentFeed.Core.Blockers
import TangentFeed.Dart.Ledger

/-!
# What a Dart compaction removes

`compactStorage` in terms of the log and the winners. Its plan names rows by
strings and finds the cells of a doomed row in the log; over a ledger it takes the
rows in `reclaims` whole and, of the other operations at or below the horizon, all
but the winners, as in TypeScript.
-/

namespace TangentFeed.Dart

open Lww

def StoredOp.rowKey (o : StoredOp) : RowKey := (o.table, o.row)

/-- The horizon a compaction of `s` uses. -/
def MemoryAdapter.horizon (s : MemoryAdapter) : Frontier :=
  compactionHorizon s.frontier s.peerFrontiers

/-- The rows `compact(opts)` reclaims whole. -/
def reclaims (s : MemoryAdapter) (opts : CompactionOptions) : Set RowKey :=
  {r | opts.includeTombstones = true ∧
    (∃ w, s.winner (r.1, r.2, tombstoneColumn) = some w ∧ isTrue w.value = true ∧
      below s.horizon w = true) ∧
    ∀ o ∈ s.logged, o.rowKey = r → below s.horizon o = true}

theorem rowKeyOf_inj {o p : StoredOp} : rowKeyOf o = rowKeyOf p ↔ o.rowKey = p.rowKey :=
  (rowKeyOf_eq_iff o).trans Prod.mk_inj.symm

variable {s : MemoryAdapter} {opts : CompactionOptions}

/-! ## The snapshot -/

/-- The snapshot holds the winners. -/
theorem mem_values_winningCells (hk : s.Keyed) {w : StoredOp} :
    w ∈ (winningCells s).values ↔ s.winner w.cell = some w := by
  have listed : ∀ {key : JsString} {o : StoredOp}, (key, o) ∈ (s.listTables.flatMap fun table =>
      (s.listRows table).flatMap fun row => ((s.getRow table row).getD .empty).entries.map
        fun e => (snapshotKey table row e.1, e.2)) ↔
      key = snapshotKey o.table o.row o.column ∧ s.winner o.cell = some o := by
    intro key o
    simp only [List.mem_flatMap, List.mem_map, Prod.exists, Prod.mk.injEq, OrderedMap.mem_entries]
    constructor
    · rintro ⟨t, -, r, -, c, o', hc, rfl, rfl⟩
      have hw : s.winner (t, r, c) = some o' := by
        rw [← s.get_getRow]
        cases hr : s.getRow t r with
        | none => rw [hr] at hc; cases hc
        | some cells => rw [hr] at hc; exact hc
      have hcell := hk.cells hw
      obtain ⟨rfl, hrest⟩ := Prod.mk.inj hcell
      obtain ⟨rfl, rfl⟩ := Prod.mk.inj hrest
      exact ⟨rfl, hw⟩
    · rintro ⟨rfl, hw⟩
      have hrow : s.getRow o.table o.row ≠ none := by
        refine (s.getRow_ne_none _ _).2 ⟨o.column, ?_⟩
        exact ne_of_eq_of_ne hw (Option.some_ne_none _)
      obtain ⟨cells, hr⟩ := Option.ne_none_iff_exists'.1 hrow
      refine ⟨o.table, (s.mem_listTables _).2 ⟨o.row, hrow⟩, o.row, (s.mem_listRows _ _).2 hrow,
        o.column, o, ?_, rfl, rfl⟩
      have hget := s.get_getRow o.table o.row o.column
      rw [hr] at hget ⊢
      exact hget.trans hw
  rw [OrderedMap.mem_values]
  unfold winningCells
  refine (exists_congr fun key => (OrderedMap.get_foldl_set_empty ?_).trans listed).trans
    exists_eq_left
  intro k v w hv hw
  obtain ⟨rfl, hcv⟩ := listed.1 hv
  obtain ⟨hkey, hcw⟩ := listed.1 hw
  rw [snapshotKey_inj hkey, hcw] at hcv
  exact (Option.some.inj hcv).symm

/-! ## The plan -/

/-- The rows `planCompaction` marks. -/
theorem contains_doomedRows (hk : s.Keyed) {o : StoredOp} :
    (doomedRows s.allOps (winningCells s) s.horizon opts).contains (rowKeyOf o) = true ↔
      o.rowKey ∈ reclaims s opts := by
  unfold doomedRows
  by_cases hi : opts.includeTombstones = true
  · rw [if_pos hi, Std.ExtTreeSet.contains_iff_mem, Std.ExtTreeSet.mem_ofList,
      List.contains_iff_mem]
    simp only [List.mem_filter, List.mem_map, mem_values_winningCells hk, Bool.and_eq_true,
      beq_iff_eq, Bool.not_eq_true', reclaims, Set.mem_ofPred_eq, hi, true_and, rowKeyOf_inj]
    refine and_congr ?_ ?_
    · constructor
      · rintro ⟨w, ⟨hw, ⟨hc, ht⟩, hb⟩, hrow⟩
        refine ⟨w, ?_, ht, hb⟩
        rw [← hw, ← hrow, ← hc]
        rfl
      · rintro ⟨w, hw, ht, hb⟩
        have hcell := hk.cells hw
        obtain ⟨htable, hrest⟩ := Prod.mk.inj hcell
        obtain ⟨hrow, hcolumn⟩ := Prod.mk.inj hrest
        exact ⟨w, ⟨by rw [hcell, hw], ⟨hcolumn, ht⟩, hb⟩, Prod.ext htable hrow⟩
    · rw [← Bool.not_eq_true, Std.ExtTreeSet.contains_iff_mem, Std.ExtTreeSet.mem_ofList,
        List.contains_iff_mem]
      simp only [List.mem_map, List.mem_filter, hk.mem_allOps, Bool.not_eq_true', not_exists,
        not_and, and_imp, rowKeyOf_inj]
      constructor
      · intro h p hp hr
        by_contra hb
        exact h p hp (Bool.eq_false_iff.2 hb) hr
      · intro h p hp hb hr
        exact Bool.false_ne_true (hb.symm.trans (h p hp hr))
  · rw [if_neg hi]
    refine ⟨fun h => ?_, fun h => absurd h.1 hi⟩
    rw [Std.ExtTreeSet.contains_empty] at h
    cases h

/-- What the removal pass takes. -/
def removes (doomed winnerIds : JsSet) (bel : StoredOp → Bool) (o : StoredOp) : Bool :=
  doomed.contains (rowKeyOf o) || (bel o && !winnerIds.contains o.id)

/-- The removal pass. -/
theorem foldl_add (doomed winnerIds : JsSet) (bel : StoredOp → Bool) (ops : List StoredOp)
    (p : Removals) :
    (ops.foldl (Removals.add doomed winnerIds bel) p).opIds =
        p.opIds ++ (ops.filter (removes doomed winnerIds bel)).map (·.id) ∧
      (ops.foldl (Removals.add doomed winnerIds bel) p).cells =
        p.cells ++ (ops.filter fun o => doomed.contains (rowKeyOf o)).map StoredOp.cell ∧
      (ops.foldl (Removals.add doomed winnerIds bel) p).removed =
        p.removed + (ops.filter (removes doomed winnerIds bel)).length := by
  induction ops generalizing p with
  | nil => simp
  | cons o ops ih =>
    obtain ⟨ih1, ih2, ih3⟩ := ih (Removals.add doomed winnerIds bel p o)
    rw [List.foldl_cons, ih1, ih2, ih3, List.filter_cons, List.filter_cons]
    unfold Removals.add removes
    cases hd : doomed.contains (rowKeyOf o) <;> cases hb : bel o <;>
      cases hw : winnerIds.contains o.id <;> simp <;> omega

/-- The plan of a compaction of `s`. -/
def MemoryAdapter.plan (s : MemoryAdapter) (opts : CompactionOptions) : CompactionPlan :=
  planCompaction s.allOps (winningCells s) s.horizon opts

/-- The identifiers of a plan, in the order of the log. -/
theorem plan_opIds (s : MemoryAdapter) (opts : CompactionOptions) :
    (s.plan opts).opIds = (s.allOps.filter (removes
      (doomedRows s.allOps (winningCells s) s.horizon opts) (winnerIds (winningCells s))
      (below s.horizon))).map (·.id) := (foldl_add ..).1.trans (List.nil_append _)

theorem removed_compactStorage (s : MemoryAdapter) (opts : CompactionOptions) :
    (compactStorage s opts).2.removed = (s.plan opts).opIds.length := by
  rw [plan_opIds, List.length_map]
  exact (foldl_add ..).2.2.trans (Nat.zero_add _)

theorem plan_cellKeys (s : MemoryAdapter) (opts : CompactionOptions) :
    (s.plan opts).cellKeys = (s.allOps.filter fun o =>
      (doomedRows s.allOps (winningCells s) s.horizon opts).contains (rowKeyOf o)).map
        StoredOp.cell := (foldl_add ..).2.1.trans (List.nil_append _)

variable {H : Set StoredOp}

/-- The identifiers of the winners among those of the log. -/
theorem contains_winnerIds (hl : s.Ledger H) {p : StoredOp} (hp : p ∈ s.logged) :
    (winnerIds (winningCells s)).contains p.id = false ↔ s.winner p.cell ≠ some p := by
  rw [winnerIds, ← Bool.not_eq_true, not_iff_not, Std.ExtTreeSet.contains_iff_mem,
    Std.ExtTreeSet.mem_ofList, List.contains_iff_mem]
  simp only [List.mem_map, mem_values_winningCells hl.keyed]
  constructor
  · rintro ⟨w, hw, hid⟩
    rw [← MemoryAdapter.logged_inj (hl.winner_logged hw) hp hid, hw]
  · exact fun h => ⟨p, h, rfl⟩

/-- The identifiers the plan removes. -/
theorem mem_plan_opIds (hl : s.Ledger H) {o : StoredOp} (ho : o ∈ s.logged) :
    o.id ∈ (s.plan opts).opIds ↔
      o.rowKey ∈ reclaims s opts ∨ below s.horizon o = true ∧ s.winner o.cell ≠ some o := by
  have hk := hl.keyed
  rw [plan_opIds]
  simp only [List.mem_map, List.mem_filter, hk.mem_allOps, removes, Bool.or_eq_true,
    Bool.and_eq_true, Bool.not_eq_true']
  constructor
  · rintro ⟨p, ⟨hp, hr⟩, hid⟩
    obtain rfl := MemoryAdapter.logged_inj hp ho hid
    rwa [contains_doomedRows hk, contains_winnerIds hl hp] at hr
  · intro hr
    refine ⟨o, ⟨ho, ?_⟩, rfl⟩
    rwa [contains_doomedRows hk, contains_winnerIds hl ho]

/-- A compaction that asks the store has something to remove. -/
theorem exists_of_due (hl : s.Ledger H) (h : compactionDue s opts = true) : ∃ o ∈ s.logged,
    o.rowKey ∈ reclaims s opts ∨ below s.horizon o = true ∧ s.winner o.cell ≠ some o := by
  have hne : (s.plan opts).opIds.isEmpty = false :=
    (Bool.not_eq_true' _).mp (Bool.and_eq_true_iff.1 h).2
  obtain ⟨id, hid⟩ := List.exists_mem_of_ne_nil _ (List.isEmpty_eq_false_iff.1 hne)
  have hmem := hid
  rw [plan_opIds] at hmem
  obtain ⟨o, ho, rfl⟩ := List.mem_map.1 hmem
  have hlog : o ∈ s.logged := hl.keyed.mem_allOps.1 (List.mem_filter.1 ho).1
  exact ⟨o, hlog, (mem_plan_opIds hl hlog).1 hid⟩

/-- The cells the plan removes are those of the reclaimed rows. -/
theorem mem_plan_cellKeys (hk : s.Keyed) {c : Cell} :
    c ∈ (s.plan opts).cellKeys ↔
      ∃ o ∈ s.logged, o.cell = c ∧ o.rowKey ∈ reclaims s opts := by
  rw [plan_cellKeys]
  simp only [List.mem_map, List.mem_filter, hk.mem_allOps, contains_doomedRows hk]
  exact exists_congr fun o => by rw [and_assoc, and_comm (a := o.rowKey ∈ _)]

/-! ## The store afterwards -/

/-- What is written unless the run is dry. -/
theorem compactStorage_fst (hd : opts.dryRun = false) :
    (compactStorage s opts).1 =
      if (s.plan opts).opIds.isEmpty then s
      else s.compact (s.plan opts).opIds (s.plan opts).cellKeys := by
  change (if (!opts.dryRun && !(s.plan opts).opIds.isEmpty) = true then _ else s) = _
  cases (s.plan opts).opIds.isEmpty <;> simp [hd, MemoryAdapter.plan, MemoryAdapter.horizon]

theorem compactStorage_dryRun (hd : opts.dryRun = true) : (compactStorage s opts).1 = s := by
  unfold compactStorage
  simp [hd]

/-- A compaction leaves all but the log and the winners. -/
theorem compactStorage_frame : ∃ l w,
    (compactStorage s opts).1 = { s with log := l, winners := w } := by
  by_cases hd : opts.dryRun = true
  · exact ⟨s.log, s.winners, compactStorage_dryRun hd⟩
  · rw [compactStorage_fst (Bool.eq_false_iff.2 hd)]
    split
    · exact ⟨s.log, s.winners, rfl⟩
    · exact ⟨_, _, rfl⟩

/-- A plan without identifiers names no cells. -/
theorem plan_cellKeys_eq_nil (hl : s.Ledger H) (h : (s.plan opts).opIds.isEmpty = true) :
    (s.plan opts).cellKeys = [] := by
  refine List.eq_nil_iff_forall_not_mem.2 fun c hc => ?_
  obtain ⟨o, ho, -, hr⟩ := (mem_plan_cellKeys hl.keyed).1 hc
  have hid := (mem_plan_opIds hl ho).2 (.inl hr)
  rw [List.isEmpty_iff.1 h] at hid
  exact List.not_mem_nil hid

/-- Whether or not there is anything to remove, the store is what removing leaves. -/
theorem compactStorage_eq (hl : s.Ledger H) (hd : opts.dryRun = false) :
    (compactStorage s opts).1 = s.compact (s.plan opts).opIds (s.plan opts).cellKeys := by
  rw [compactStorage_fst hd]
  by_cases h : (s.plan opts).opIds.isEmpty = true
  · rw [if_pos h, List.isEmpty_iff.1 h, plan_cellKeys_eq_nil hl h]
    rfl
  · rw [if_neg h]

/-- **The log after a compaction.** -/
theorem compactStorage_logged (hl : s.Ledger H) (hd : opts.dryRun = false) {o : StoredOp} :
    o ∈ (compactStorage s opts).1.logged ↔
      o ∈ s.logged ∧ o.rowKey ∉ reclaims s opts ∧
        (below s.horizon o = true → s.winner o.cell = some o) := by
  rw [compactStorage_eq hl hd, MemoryAdapter.logged_compact]
  refine and_congr_right fun ho => ?_
  rw [mem_plan_opIds hl ho, not_or, not_and, not_not]

/-- The winners after a compaction, cell by cell. -/
theorem compactStorage_winner (hl : s.Ledger H) (hd : opts.dryRun = false) {c : Cell}
    {w : StoredOp} : (compactStorage s opts).1.winner c = some w ↔
      s.winner c = some w ∧ rowOf c ∉ reclaims s opts := by
  rw [compactStorage_eq hl hd, MemoryAdapter.winner_compact]
  by_cases hc : c ∈ (s.plan opts).cellKeys
  · rw [if_pos hc]
    obtain ⟨o, -, rfl, hr⟩ := (mem_plan_cellKeys hl.keyed).1 hc
    exact ⟨fun h => (nomatch h), fun h => absurd hr h.2⟩
  · rw [if_neg hc]
    refine ⟨fun hw => ⟨hw, fun hr => hc ?_⟩, And.left⟩
    obtain rfl := hl.keyed.cells hw
    exact (mem_plan_cellKeys hl.keyed).2 ⟨w, hl.winner_logged hw, rfl, hr⟩

/-! ## Once is enough -/

/-- No row is left to reclaim. -/
theorem reclaims_compactStorage (hl : s.Ledger H) (hd : opts.dryRun = false) :
    reclaims (compactStorage s opts).1 opts = ∅ := by
  have hhorizon : (compactStorage s opts).1.horizon = s.horizon := by
    obtain ⟨l, w, e⟩ := @compactStorage_frame s opts
    rw [e]
    rfl
  refine Set.eq_empty_iff_forall_notMem.2 fun row hrow => ?_
  obtain ⟨hi, ⟨w, hw, ht, hb⟩, hall⟩ := hrow
  rw [hhorizon] at hb hall
  obtain ⟨hw, hnot⟩ := (compactStorage_winner hl hd).1 hw
  refine hnot ⟨hi, ⟨w, hw, ht, hb⟩, fun o ho hr => ?_⟩
  -- an operation above the horizon would still be there
  by_contra hbo
  exact hbo (hall o ((compactStorage_logged hl hd).2 ⟨ho, hr ▸ hnot, fun h => absurd h hbo⟩) hr)

namespace MemoryAdapter

/-- **A compaction keeps the ledger.** -/
theorem Ledger.compact (h : s.Ledger H) (opts : CompactionOptions) :
    (compactStorage s opts).1.Ledger H := by
  by_cases hd : opts.dryRun = true
  · rwa [compactStorage_dryRun hd]
  · have hd := Bool.eq_false_iff.2 hd
    have hlog := fun {o} => compactStorage_logged h hd (o := o)
    have hwin := fun {c w} => compactStorage_winner h hd (c := c) (w := w)
    exact {
      keyed := {
        ids := fun {k o} hk => by
          rw [compactStorage_eq h hd] at hk
          change (List.foldl _ s.log _).get k = some o at hk
          rw [OrderedMap.get_foldl_erase] at hk
          split at hk
          · cases hk
          · exact h.keyed.ids hk
        cells := fun hc => h.keyed.cells (hwin.1 hc).1 }
      cells := {
        best := by
          intro c w hw
          obtain ⟨hc, hr⟩ := hwin.1 hw
          obtain rfl := h.keyed.cells hc
          exact ⟨⟨w, hlog.2 ⟨h.winner_logged hc, hr, fun _ => hc⟩, rfl, rfl⟩,
            fun o ho => (h.cells.best hc).le o (hlog.1 ho).1⟩
        total := by
          intro o ho
          obtain ⟨w, hw⟩ := h.cells.total o (hlog.1 ho).1
          exact ⟨w, hwin.2 ⟨hw, (hlog.1 ho).2.1⟩⟩ }
      frontier := by
        obtain ⟨l, w, e⟩ := @compactStorage_frame s opts
        rw [e]
        exact h.frontier
      logged := fun o ho => h.logged (hlog.1 ho).1 }

end MemoryAdapter

/-- **A second compaction removes nothing.** -/
theorem compactStorage_again (hl : s.Ledger H) (hd : opts.dryRun = false) :
    compactionDue (compactStorage s opts).1 opts = false ∧
      (compactStorage (compactStorage s opts).1 opts).2.removed = 0 := by
  have hl' := hl.compact opts
  have hhorizon : (compactStorage s opts).1.horizon = s.horizon := by
    obtain ⟨l, w, e⟩ := @compactStorage_frame s opts
    rw [e]
    rfl
  have hnone : ((compactStorage s opts).1.plan opts).opIds = [] := by
    refine List.eq_nil_iff_forall_not_mem.2 fun id hid => ?_
    -- every identifier of a plan is that of a logged operation
    obtain ⟨o, ho, rfl⟩ : ∃ o ∈ (compactStorage s opts).1.logged, o.id = id := by
      rw [plan_opIds] at hid
      obtain ⟨o, ho, rfl⟩ := List.mem_map.1 hid
      exact ⟨o, hl'.keyed.mem_allOps.1 (List.mem_filter.1 ho).1, rfl⟩
    rw [mem_plan_opIds hl' ho, reclaims_compactStorage hl hd, hhorizon] at hid
    obtain ⟨-, hr, hwin⟩ := (compactStorage_logged hl hd).1 ho
    rcases hid with hid | ⟨hb, hne⟩
    · exact hid
    · exact hne ((compactStorage_winner hl hd).2 ⟨hwin hb, hr⟩)
  refine ⟨?_, by rw [removed_compactStorage, hnone]; rfl⟩
  change (!opts.dryRun && !((compactStorage s opts).1.plan opts).opIds.isEmpty) = false
  rw [hnone]
  exact Bool.and_false _

/-! ## The statistics -/

theorem MemoryAdapter.Keyed.nodup_allOps (hk : s.Keyed) : (s.allOps.map (·.id)).Nodup := by
  refine ((List.perm_insertionSort _ _).map _).nodup_iff.2 ?_
  refine (congrArg List.Nodup ?_).mpr s.log.nodup
  rw [OrderedMap.values, List.map_map]
  refine List.map_congr_left fun e he => ?_
  exact hk.ids (OrderedMap.mem_entries.1 he)

/-- The operations that are gone are counted. -/
theorem size_log_compactStorage (hl : s.Ledger H) (hd : opts.dryRun = false) :
    (compactStorage s opts).1.opCount + (compactStorage s opts).2.removed = s.opCount := by
  have hids := plan_opIds s opts
  have hnodup : (s.plan opts).opIds.Nodup := by
    rw [hids]
    exact hl.keyed.nodup_allOps.sublist (List.filter_sublist.map _)
  have hkeys : ∀ id ∈ (s.plan opts).opIds, id ∈ s.log.keys := fun id hid => by
    rw [hids] at hid
    obtain ⟨o, ho, rfl⟩ := List.mem_map.1 hid
    exact OrderedMap.mem_keys.2 ⟨o, hl.keyed.mem_allOps.1 (List.mem_filter.1 ho).1⟩
  have hsize : (s.log.keys.filter fun id => decide (id ∈ (s.plan opts).opIds)).length =
      (s.plan opts).opIds.length := by
    refine ((List.perm_ext_iff_of_nodup (s.log.nodup.filter _) hnodup).2 fun id => ?_).length_eq
    rw [List.mem_filter, decide_eq_true_eq]
    exact ⟨And.right, fun h => ⟨hkeys id h, h⟩⟩
  have hleft : (compactStorage s opts).1.opCount =
      (s.log.keys.filter fun id => decide (id ∉ (s.plan opts).opIds)).length := by
    rw [compactStorage_eq hl hd, MemoryAdapter.opCount, OrderedMap.size]
    change (List.foldl _ s.log _).entries.length = _
    rw [OrderedMap.entries_foldl_erase, OrderedMap.keys, List.filter_map, List.length_map]
    exact congrArg List.length (List.filter_congr fun e _ => decide_eq_decide.2 Iff.rfl)
  rw [removed_compactStorage, hleft, ← hsize, Nat.add_comm, MemoryAdapter.opCount, OrderedMap.size]
  rw [← List.length_map (f := Prod.fst)]
  have hsplit := List.length_eq_length_filter_add (l := s.log.keys)
    fun id => decide (id ∈ (s.plan opts).opIds)
  simp only [decide_not] at hsplit ⊢
  exact hsplit.symm

/-- The members of a list without repetition. -/
theorem ncard_of_nodup {α : Type} {l : List α} (h : l.Nodup) : {x | x ∈ l}.ncard = l.length := by
  classical
  rw [← List.coe_toFinset, Set.ncard_coe_finset, List.toFinset_card_of_nodup h]

/-- A count of the log. -/
theorem length_filter_allOps (hk : s.Keyed) {p : StoredOp → Bool} {P : StoredOp → Prop}
    (h : ∀ o ∈ s.logged, p o = true ↔ P o) :
    (s.allOps.filter p).length = {o | o ∈ s.logged ∧ P o}.ncard := by
  have hset : {o | o ∈ s.logged ∧ P o} = {o | o ∈ s.allOps.filter p} := by
    ext o
    rw [Set.mem_ofPred_eq, Set.mem_ofPred_eq, List.mem_filter, hk.mem_allOps]
    exact and_congr_right fun ho => (h o ho).symm
  rw [hset, ncard_of_nodup ((List.Nodup.of_map _ hk.nodup_allOps).filter _)]

/-- What the removal pass keeps. -/
theorem foldl_add_retained (doomed winnerIds : JsSet) (bel : StoredOp → Bool)
    (ops : List StoredOp) (p : Removals) :
    (ops.foldl (Removals.add doomed winnerIds bel) p).retainedWinners = p.retainedWinners +
        (ops.filter fun o => !doomed.contains (rowKeyOf o) && bel o &&
          winnerIds.contains o.id).length ∧
      (ops.foldl (Removals.add doomed winnerIds bel) p).retainedAboveHorizon =
        p.retainedAboveHorizon +
          (ops.filter fun o => !doomed.contains (rowKeyOf o) && !bel o).length := by
  induction ops generalizing p with
  | nil => simp
  | cons o ops ih =>
    obtain ⟨ih1, ih2⟩ := ih (Removals.add doomed winnerIds bel p o)
    rw [List.foldl_cons, ih1, ih2, List.filter_cons, List.filter_cons]
    unfold Removals.add
    cases hd : doomed.contains (rowKeyOf o) <;> cases hb : bel o <;>
      cases hw : winnerIds.contains o.id <;> simp <;> omega

/-- The rows marked are those reclaimed, each once. -/
theorem size_doomedRows (hk : s.Keyed) :
    (doomedRows s.allOps (winningCells s) s.horizon opts).size = (reclaims s opts).ncard := by
  -- a reclaimed row is that of its tombstone
  have named : ∀ {r : RowKey}, r ∈ reclaims s opts → ∃ w : StoredOp, w.rowKey = r := by
    rintro r ⟨-, ⟨w, hw, -⟩, -⟩
    have hcell : w.cell = (r.1, r.2, tombstoneColumn) := hk.cells hw
    exact ⟨w, congrArg rowOf hcell⟩
  have hset : {k | k ∈ (doomedRows s.allOps (winningCells s) s.horizon opts).toList} =
      (fun r : RowKey => r.1 ++ sep :: r.2) '' reclaims s opts := by
    ext k
    rw [Set.mem_ofPred_eq, Std.ExtTreeSet.mem_toList, Set.mem_image]
    constructor
    · intro hmem
      obtain ⟨w, rfl⟩ : ∃ w : StoredOp, rowKeyOf w = k := by
        unfold doomedRows at hmem
        split at hmem
        · rw [Std.ExtTreeSet.mem_ofList, List.contains_iff_mem] at hmem
          obtain ⟨w, -, hw⟩ := List.mem_map.1 (List.mem_filter.1 hmem).1
          exact ⟨w, hw⟩
        · exact absurd hmem Std.ExtTreeSet.not_mem_empty
      exact ⟨w.rowKey, (contains_doomedRows hk).1 (Std.ExtTreeSet.contains_iff_mem.2 hmem), rfl⟩
    · rintro ⟨r, hr, rfl⟩
      obtain ⟨w, rfl⟩ := named hr
      exact Std.ExtTreeSet.contains_iff_mem.1 ((contains_doomedRows hk).2 hr)
  have hinj : Set.InjOn (fun r : RowKey => r.1 ++ sep :: r.2) (reclaims s opts) := by
    intro r hr r' hr' heq
    obtain ⟨w, rfl⟩ := named hr
    obtain ⟨w', rfl⟩ := named hr'
    exact rowKeyOf_inj.1 heq
  have hnodup : (doomedRows s.allOps (winningCells s) s.horizon opts).toList.Nodup :=
    Std.ExtTreeSet.distinct_toList.imp fun h heq => h (by rw [heq]; exact Std.ReflCmp.compare_self)
  rw [← Std.ExtTreeSet.length_toList, ← ncard_of_nodup hnodup, hset, hinj.ncard_image]

/-- What the counts of a report count. -/
structure Counted (s : MemoryAdapter) (opts : CompactionOptions) (stats : CompactionStats) :
    Prop where
  scanned : stats.scanned = s.opCount
  removed : stats.removed = {o | o ∈ s.logged ∧
    (o.rowKey ∈ reclaims s opts ∨ below s.horizon o = true ∧ s.winner o.cell ≠ some o)}.ncard
  rowsReclaimed : stats.rowsReclaimed = (reclaims s opts).ncard
  retainedWinners : stats.retainedWinners = {o | o ∈ s.logged ∧
    (o.rowKey ∉ reclaims s opts ∧ below s.horizon o = true ∧ s.winner o.cell = some o)}.ncard
  retainedAboveHorizon : stats.retainedAboveHorizon = {o | o ∈ s.logged ∧
    (o.rowKey ∉ reclaims s opts ∧ below s.horizon o = false)}.ncard
  blockedBy : ∀ p, p ∈ stats.blockedBy ↔ ∃ f, s.peerFrontiers[p]? = some f ∧ Behind s.frontier f
  sorted : stats.blockedBy.Pairwise (· < ·)

/-- **The report is right.** -/
theorem compactStorage_counted (hl : s.Ledger H) : Counted s opts (compactStorage s opts).2 := by
  have hk := hl.keyed
  have hdoomed : ∀ o : StoredOp, (doomedRows s.allOps (winningCells s) s.horizon opts).contains
      (rowKeyOf o) = false ↔ o.rowKey ∉ reclaims s opts := fun o => by
    rw [← contains_doomedRows hk, Bool.not_eq_true]
  have hwins : ∀ {o : StoredOp}, o ∈ s.logged →
      ((winnerIds (winningCells s)).contains o.id = true ↔ s.winner o.cell = some o) := by
    intro o ho
    rw [← not_iff_not, Bool.not_eq_true]
    exact contains_winnerIds hl ho
  obtain ⟨-, -, hremoved⟩ := foldl_add
    (doomedRows s.allOps (winningCells s) s.horizon opts) (winnerIds (winningCells s))
    (below s.horizon) s.allOps ⟨[], [], 0, 0, 0⟩
  obtain ⟨hwinners, habove⟩ := foldl_add_retained
    (doomedRows s.allOps (winningCells s) s.horizon opts) (winnerIds (winningCells s))
    (below s.horizon) s.allOps ⟨[], [], 0, 0, 0⟩
  exact {
    scanned := by
      have hp : s.allOps.Perm s.log.values := List.perm_insertionSort ..
      change s.allOps.length = s.log.entries.length
      rw [hp.length_eq, OrderedMap.values, List.length_map]
    removed := by
      refine (hremoved.trans (Nat.zero_add _)).trans (length_filter_allOps hk ?_)
      intro o ho
      rw [removes, Bool.or_eq_true, Bool.and_eq_true, Bool.not_eq_true', contains_doomedRows hk,
        contains_winnerIds hl ho]
    rowsReclaimed := size_doomedRows hk
    retainedWinners := by
      refine (hwinners.trans (Nat.zero_add _)).trans (length_filter_allOps hk ?_)
      intro o ho
      rw [Bool.and_eq_true, Bool.and_eq_true, Bool.not_eq_true', hdoomed, and_assoc, hwins ho]
    retainedAboveHorizon := by
      refine (habove.trans (Nat.zero_add _)).trans (length_filter_allOps hk ?_)
      intro o _
      rw [Bool.and_eq_true, Bool.not_eq_true', Bool.not_eq_true', hdoomed]
    blockedBy := fun p => mem_blockingPeers
    sorted := pairwise_blockingPeers }

end TangentFeed.Dart
