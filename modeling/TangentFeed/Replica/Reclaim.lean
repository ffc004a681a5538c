import Mathlib.Tactic.Tauto
import TangentFeed.Core.Compaction

/-!
# What a compaction removes

`compactStorage` in terms of the log and the winners: the rows in `reclaims`
go whole, and of the other operations at or below the horizon only the winners
stay.
-/

namespace TangentFeed

/-- A table and a row. -/
abbrev RowKey := JsString × JsString

def Op.rowKey (o : Op) : RowKey := (o.table, o.row)

def rowOf (c : Cell) : RowKey := (c.1, c.2.1)

/-- The horizon a compaction of `s` uses. -/
def MemoryAdapter.horizon (s : MemoryAdapter) : Frontier :=
  compactionHorizon s.frontier s.peerFrontiers

/-- The rows `compact(opts)` reclaims whole. -/
def reclaims (s : MemoryAdapter) (opts : CompactionOptions) : Set RowKey :=
  {r | opts.includeTombstones = true ∧
    (∃ w, s.winner (r.1, r.2, tombstoneColumn) = some w ∧ w.value.isTrue = true ∧
      below s.horizon w = true) ∧
    ∀ o ∈ s.log, o.rowKey = r → below s.horizon o = true}

theorem rowKeyOf_inj {o p : Op} : rowKeyOf o = rowKeyOf p ↔ o.rowKey = p.rowKey := by
  constructor
  · intro h
    obtain ⟨h1, h2⟩ := rowKey_inj o.legal.table p.legal.table o.legal.row p.legal.row h
    exact Prod.ext h1 h2
  · intro h
    obtain ⟨h1, h2⟩ := Prod.mk.inj h
    simp only [rowKeyOf, h1, h2]

variable {s : MemoryAdapter}

/-- The snapshot of the winners lists them by the key of their cell. -/
theorem getElem?_winningCells (hk : s.Keyed) {key : JsString} {w : Op} :
    (winningCells s)[key]? = some w ↔
      key = cellKey w.table w.row w.column ∧ s.winner w.cell = some w := by
  have hm : ∀ {k : JsString} {o : Op}, (k, o) ∈ (s.listTables.flatMap fun table =>
      (s.listRows table).flatMap fun row => ((s.getRow table row).getD ∅).toList.map
        fun e => (cellKey table row e.1, e.2)) ↔
      k = cellKey o.table o.row o.column ∧ s.winner o.cell = some o := by
    intro k o
    have hget : ∀ {t r c : JsString}, s.winner (t, r, c) = some o →
        t = o.table ∧ r = o.row ∧ c = o.column := by
      intro t r c h
      have e := hk.cells h
      exact ⟨(congrArg Prod.fst e).symm, (congrArg (·.2.1) e).symm, (congrArg (·.2.2) e).symm⟩
    simp only [List.mem_flatMap, List.mem_map, Prod.exists, Prod.mk.injEq,
      Std.ExtTreeMap.mem_toList_iff_getElem?_eq_some]
    constructor
    · rintro ⟨t, -, r, -, c, o', hc, rfl, rfl⟩
      have hw : s.winner (t, r, c) = some o' := by
        cases hr : s.getRow t r with
        | none => rw [hr] at hc; simp at hc
        | some cells =>
          rw [hr] at hc
          obtain ⟨rs, h1, h2⟩ := Option.bind_eq_some_iff.1 hr
          exact NestedMap.get_eq_some.2 ⟨rs, cells, h1, h2, hc⟩
      obtain ⟨rfl, rfl, rfl⟩ := hget hw
      exact ⟨rfl, hw⟩
    · rintro ⟨rfl, hw⟩
      obtain ⟨rs, cells, h1, h2, h3⟩ := NestedMap.get_eq_some.1 hw
      change s.tables[o.table]? = some rs at h1
      change rs[o.row]? = some cells at h2
      have hr : s.getRow o.table o.row = some cells :=
        Option.bind_eq_some_iff.2 ⟨rs, h1, h2⟩
      refine ⟨o.table, ?_, o.row, ?_, o.column, o, by rw [hr]; exact h3, rfl, rfl⟩
      · rw [MemoryAdapter.listTables, Std.ExtTreeMap.mem_keys, Std.ExtTreeMap.mem_iff_isSome_getElem?,
          h1]
        rfl
      · rw [MemoryAdapter.listRows, h1]
        simp only
        rw [Std.ExtTreeMap.mem_keys, Std.ExtTreeMap.mem_iff_isSome_getElem?, h2]
        rfl
  unfold winningCells
  rw [Std.ExtTreeMap.getElem?_foldl_insert, hm]
  · simp
  · intro k v w hv hw
    obtain ⟨rfl, hv'⟩ := hm.1 hv
    obtain ⟨h, hw'⟩ := hm.1 hw
    have e : v.cell = w.cell := cellKey_inj v.legal w.legal h
    rw [e, hw'] at hv'
    exact (Option.some.inj hv').symm

/-- The rows `planCompaction` marks. -/
theorem contains_doomedRows (hk : s.Keyed) {opts : CompactionOptions} {o : Op} :
    (doomedRows s.allOps (winningCells s) s.horizon opts).contains (rowKeyOf o) = true ↔
      o.rowKey ∈ reclaims s opts := by
  unfold doomedRows reclaims
  by_cases hi : opts.includeTombstones = true
  · rw [if_pos hi, Std.ExtTreeSet.contains_iff_mem, Std.ExtTreeSet.mem_ofList,
      List.contains_iff_mem]
    simp only [List.mem_filter, List.mem_map, Prod.exists,
      Std.ExtTreeMap.mem_toList_iff_getElem?_eq_some, getElem?_winningCells hk, Bool.and_eq_true,
      beq_iff_eq, Bool.not_eq_true', Set.mem_ofPred_eq, hi, true_and]
    apply and_congr
    · constructor
      · rintro ⟨k, w, ⟨⟨rfl, hw⟩, ⟨hc, ht⟩, hb⟩, hrow⟩
        have hrow' : rowKeyOf w = rowKeyOf o := by
          rw [← hrow]; exact (beforeLastSep_cellKey w.legal).symm
        have e := rowKeyOf_inj.1 hrow'
        refine ⟨w, ?_, ht, hb⟩
        rw [← hw, ← e, ← hc]
        rfl
      · rintro ⟨w, hw, ht, hb⟩
        have e := hk.cells hw
        have hc : w.column = tombstoneColumn := congrArg (·.2.2) e
        have hr : w.rowKey = o.rowKey :=
          Prod.ext (congrArg (·.1) e) (congrArg (·.2.1) e)
        refine ⟨_, w, ⟨⟨rfl, by rw [e, hw]⟩, ⟨hc, ht⟩, hb⟩, ?_⟩
        rw [← rowKeyOf_inj.2 hr]
        exact beforeLastSep_cellKey w.legal
    · rw [← Bool.not_eq_true, Std.ExtTreeSet.contains_iff_mem, Std.ExtTreeSet.mem_ofList,
        List.contains_iff_mem]
      simp only [List.mem_map, List.mem_filter, hk.mem_allOps, Bool.not_eq_true', not_exists,
        not_and, and_imp, rowKeyOf_inj]
      constructor
      · intro h p hp hr
        by_contra hb
        exact h p hp (by simpa using hb) hr
      · intro h p hp hb hr
        rw [h p hp hr] at hb
        cases hb
  · rw [if_neg hi]
    constructor
    · intro h
      rw [Std.ExtTreeSet.contains_empty] at h
      cases h
    · rintro ⟨h, -⟩
      exact absurd h hi

/-- The removal pass. -/
theorem mem_foldl_add {doomed winnerIds : JsSet} {bel : Op → Bool} {ops : List Op} {p : Removals} :
    (∀ id, id ∈ (ops.foldl (Removals.add doomed winnerIds bel) p).opIds ↔
      id ∈ p.opIds ∨ ∃ o ∈ ops, o.id = id ∧ (doomed.contains (rowKeyOf o) = true ∨
        bel o = true ∧ winnerIds.contains o.id = false)) ∧
    (∀ key, key ∈ (ops.foldl (Removals.add doomed winnerIds bel) p).cellKeys ↔
      key ∈ p.cellKeys ∨ ∃ o ∈ ops, cellKey o.table o.row o.column = key ∧
        doomed.contains (rowKeyOf o) = true) := by
  induction ops generalizing p with
  | nil => simp
  | cons o ops ih =>
    rw [List.foldl_cons]
    obtain ⟨ih1, ih2⟩ := @ih (Removals.add doomed winnerIds bel p o)
    have step1 : ∀ id, id ∈ (Removals.add doomed winnerIds bel p o).opIds ↔
        id ∈ p.opIds ∨ o.id = id ∧ (doomed.contains (rowKeyOf o) = true ∨
          bel o = true ∧ winnerIds.contains o.id = false) := by
      intro id
      have e : id ∈ p.opIds ++ [o.id] ↔ id ∈ p.opIds ∨ o.id = id := by
        rw [List.mem_append, List.mem_singleton, @eq_comm _ id]
      unfold Removals.add
      split_ifs with h1 h2 h3
      · rw [e, h1, eq_self, true_or, and_true]
      · rw [Bool.not_eq_true'] at h2
        simp only [h2, Bool.false_eq_true, false_and, or_false, h1, and_false]
      · rw [Bool.not_eq_true'] at h2 h3
        simp only [e, h2, h3, and_self, or_true, and_true]
      · rw [Bool.not_eq_true', Bool.not_eq_false] at h3
        simp only [h3, Bool.true_eq_false, Bool.false_eq_true, and_false, or_false, h1]
    have step2 : ∀ key, key ∈ (Removals.add doomed winnerIds bel p o).cellKeys ↔
        key ∈ p.cellKeys ∨ cellKey o.table o.row o.column = key ∧
          doomed.contains (rowKeyOf o) = true := by
      intro key
      unfold Removals.add
      split_ifs with h1 h2 h3
      · simp only [Std.ExtTreeSet.mem_insert, Std.LawfulEqCmp.compare_eq_iff_eq, h1, and_true]
        exact or_comm
      · simp [h1]
      · simp [h1]
      · simp [h1]
    constructor
    · intro id
      rw [ih1, step1, or_assoc]
      simp only [List.mem_cons, or_and_right, exists_or, exists_eq_left]
    · intro key
      rw [ih2, step2, or_assoc]
      simp only [List.mem_cons, or_and_right, exists_or, exists_eq_left]

/-- The sweep over the cells of doomed rows. -/
theorem mem_foldl_insert {keys : List JsString} {set : JsSet} {key : JsString} :
    key ∈ keys.foldl (fun set key => set.insert key) set ↔ key ∈ keys ∨ key ∈ set := by
  induction keys generalizing set with
  | nil => simp
  | cons k keys ih =>
    rw [List.foldl_cons, ih, Std.ExtTreeSet.mem_insert, Std.LawfulEqCmp.compare_eq_iff_eq,
      List.mem_cons, @eq_comm _ k]
    tauto

/-- Every winner is logged. -/
def WinnersLogged (s : MemoryAdapter) : Prop := ∀ {c w}, s.winner c = some w → w ∈ s.log

/-- The identifiers the plan removes. -/
theorem mem_plan_opIds (hk : s.Keyed) (hw : WinnersLogged s) {opts : CompactionOptions} {o : Op}
    (ho : o ∈ s.log) :
    o.id ∈ (planCompaction s.allOps (winningCells s) s.horizon opts).opIds ↔
      o.rowKey ∈ reclaims s opts ∨ below s.horizon o = true ∧ s.winner o.cell ≠ some o := by
  have hwin : ∀ {p : Op}, p ∈ s.log →
      ((winnerIds (winningCells s)).contains p.id = false ↔ s.winner p.cell ≠ some p) := by
    intro p hp
    rw [winnerIds, ← Bool.not_eq_true, not_iff_not, Std.ExtTreeSet.contains_iff_mem, Std.ExtTreeSet.mem_ofList,
      List.contains_iff_mem]
    simp only [List.mem_map, Prod.exists, Std.ExtTreeMap.mem_toList_iff_getElem?_eq_some,
      getElem?_winningCells hk]
    constructor
    · rintro ⟨k, w, ⟨-, h⟩, hid⟩
      rw [← MemoryAdapter.log_inj (hw h) hp hid, h]
    · intro h
      exact ⟨_, p, ⟨rfl, h⟩, rfl⟩
  have h := (@mem_foldl_add (doomedRows s.allOps (winningCells s) s.horizon opts)
    (winnerIds (winningCells s)) (below s.horizon) s.allOps ⟨[], ∅, 0, 0, 0⟩).1 o.id
  unfold planCompaction
  rw [h]
  simp only [List.not_mem_nil, false_or, hk.mem_allOps]
  constructor
  · rintro ⟨p, hp, hid, hr⟩
    obtain rfl := MemoryAdapter.log_inj hp ho hid
    rw [contains_doomedRows hk, hwin hp] at hr
    exact hr
  · intro hr
    refine ⟨o, ho, rfl, ?_⟩
    rw [contains_doomedRows hk, hwin ho]
    exact hr

/-- The cells the plan removes are those of the reclaimed rows. -/
theorem mem_plan_cellKeys (hk : s.Keyed) {opts : CompactionOptions} {key : JsString} :
    key ∈ (planCompaction s.allOps (winningCells s) s.horizon opts).cellKeys ↔
      ∃ o : Op, key = cellKey o.table o.row o.column ∧ o.rowKey ∈ reclaims s opts ∧
        (o ∈ s.log ∨ s.winner o.cell = some o) := by
  have h := (@mem_foldl_add (doomedRows s.allOps (winningCells s) s.horizon opts)
    (winnerIds (winningCells s)) (below s.horizon) s.allOps ⟨[], ∅, 0, 0, 0⟩).2 key
  unfold planCompaction
  simp only
  rw [Std.ExtTreeSet.mem_toList, mem_foldl_insert, h]
  simp only [List.mem_filter, Std.ExtTreeMap.mem_keys, Std.ExtTreeMap.mem_iff_isSome_getElem?,
    Option.isSome_iff_exists, getElem?_winningCells hk, Std.ExtTreeSet.not_mem_empty, false_or,
    hk.mem_allOps]
  constructor
  · rintro (⟨⟨w, rfl, hw⟩, hd⟩ | ⟨o, ho, rfl, hd⟩)
    · have e : beforeLastSep (cellKey w.table w.row w.column) = rowKeyOf w :=
        beforeLastSep_cellKey w.legal
      rw [e, contains_doomedRows hk] at hd
      exact ⟨w, rfl, hd, .inr hw⟩
    · exact ⟨o, rfl, (contains_doomedRows hk).1 hd, .inl ho⟩
  · rintro ⟨o, rfl, hr, ho | hw⟩
    · exact .inr ⟨o, ho, rfl, (contains_doomedRows hk).2 hr⟩
    · refine .inl ⟨⟨o, rfl, hw⟩, ?_⟩
      have e : beforeLastSep (cellKey o.table o.row o.column) = rowKeyOf o :=
        beforeLastSep_cellKey o.legal
      rw [e, contains_doomedRows hk]
      exact hr

/-! ## The store afterwards -/

/-- An empty write changes nothing. -/
theorem MemoryAdapter.compact_nil : s.compact ⟨[], []⟩ = s := rfl

/-- What is written unless the run is dry. -/
theorem compactStorage_fst {opts : CompactionOptions} (hd : opts.dryRun = false) :
    (compactStorage s opts).1 =
      s.compact ⟨(planCompaction s.allOps (winningCells s) s.horizon opts).opIds,
        (planCompaction s.allOps (winningCells s) s.horizon opts).cellKeys⟩ := by
  change (if (!opts.dryRun && (decide (0 < (planCompaction s.allOps (winningCells s) s.horizon
    opts).opIds.length) || decide (0 < (planCompaction s.allOps (winningCells s) s.horizon
    opts).cellKeys.length))) = true then _ else s) = _
  by_cases h : (!opts.dryRun && (decide (0 < (planCompaction s.allOps (winningCells s) s.horizon
    opts).opIds.length) || decide (0 < (planCompaction s.allOps (winningCells s) s.horizon
    opts).cellKeys.length))) = true
  · rw [if_pos h]
    rfl
  · rw [if_neg h]
    simp only [hd, Bool.not_false, Bool.true_and, Bool.or_eq_true, decide_eq_true_eq, not_or,
      not_lt, Nat.le_zero, List.length_eq_zero_iff] at h
    rw [h.1, h.2, MemoryAdapter.compact_nil]

theorem compactStorage_dryRun {opts : CompactionOptions} (hd : opts.dryRun = true) :
    (compactStorage s opts).1 = s := by
  unfold compactStorage
  simp [hd]

/-- **The log after a compaction.** -/
theorem compactStorage_log (hk : s.Keyed) (hw : WinnersLogged s) {opts : CompactionOptions}
    (hd : opts.dryRun = false) {o : Op} :
    o ∈ (compactStorage s opts).1.log ↔
      o ∈ s.log ∧ o.rowKey ∉ reclaims s opts ∧
        (below s.horizon o = true → s.winner o.cell = some o) := by
  rw [compactStorage_fst hd, MemoryAdapter.log_compact]
  constructor
  · rintro ⟨ho, hn⟩
    rw [mem_plan_opIds hk hw ho, not_or, not_and, not_not] at hn
    exact ⟨ho, hn.1, hn.2⟩
  · rintro ⟨ho, h1, h2⟩
    refine ⟨ho, ?_⟩
    rw [mem_plan_opIds hk hw ho, not_or, not_and, not_not]
    exact ⟨h1, h2⟩

/-- The winners after a compaction, cell by cell. -/
theorem compactStorage_winner_eq_some (hk : s.Keyed) {opts : CompactionOptions}
    (hd : opts.dryRun = false) {c : Cell} {w : Op} :
    (compactStorage s opts).1.winner c = some w ↔
      s.winner c = some w ∧ rowOf c ∉ reclaims s opts := by
  rw [compactStorage_fst hd, MemoryAdapter.winner_compact]
  have hm : s.winner c = some w → (c ∈ (planCompaction s.allOps (winningCells s) s.horizon
      opts).cellKeys.map splitKey ↔ rowOf c ∈ reclaims s opts) := by
    intro hc
    obtain rfl := hk.cells hc
    rw [List.mem_map]
    constructor
    · rintro ⟨k, hkey, e⟩
      obtain ⟨o, rfl, hr, -⟩ := (mem_plan_cellKeys hk).1 hkey
      have e' : splitKey (cellKey o.table o.row o.column) = o.cell := splitKey_cellKey o.legal
      rw [e'] at e
      rw [← e]
      exact hr
    · intro hr
      exact ⟨cellKey w.table w.row w.column, (mem_plan_cellKeys hk).2 ⟨w, rfl, hr, .inr hc⟩,
        splitKey_cellKey w.legal⟩
  by_cases h : c ∈ (planCompaction s.allOps (winningCells s) s.horizon opts).cellKeys.map splitKey
  · rw [if_pos h]
    constructor
    · intro h'; cases h'
    · rintro ⟨hc, hn⟩
      exact absurd ((hm hc).1 h) hn
  · rw [if_neg h]
    constructor
    · intro hc
      exact ⟨hc, fun hr => h ((hm hc).2 hr)⟩
    · exact fun h' => h'.1

end TangentFeed
