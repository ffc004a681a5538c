import Mathlib.Order.MinMax
import TangentFeed.Core.Storage

/-!
# Compaction

`planCompaction` decides from a snapshot what to reclaim: superseded operations
at or below the horizon, and, when asked, whole rows whose tombstone and every
logged operation the horizon has passed. The source keeps sets of row keys and
cell keys as strings; `mem_plan_opIds` and `mem_plan_cellKeys` say what they
hold, and `compacted_log` and `compacted_winner` what a compaction of a store
leaves.
-/

namespace TangentFeed

abbrev JsSet := Std.ExtTreeSet JsString compare

/-- `""`, below every HLC string. -/
def zeroHlc : JsString := []

structure CompactionOptions where
  includeTombstones : Bool
  dryRun : Bool
  deriving DecidableEq, Repr

structure CompactionStats where
  scanned : Nat
  removed : Nat
  rowsReclaimed : Nat
  retainedWinners : Nat
  retainedAboveHorizon : Nat
  blockedBy : List JsString
  deriving DecidableEq, Repr

/-- One peer's frontier folded into the horizon. -/
def lowerHorizon (horizon frontier : Frontier) : Frontier :=
  horizon.map fun device least =>
    let seen := frontier[device]?.getD zeroHlc
    if seen < least then seen else least

/-- Per device of `own`, the least of our frontier and every peer's. -/
def compactionHorizon (own : Frontier) (peerFrontiers : JsMap Frontier) : Frontier :=
  (peerFrontiers.toList.map Prod.snd).foldl lowerHorizon own

/-- Peers whose frontier lags ours. -/
def blockingPeers (own : Frontier) (peerFrontiers : JsMap Frontier) : List JsString :=
  sortStrings <| (peerFrontiers.toList.filter fun (_, frontier) =>
    own.toList.any fun (device, ours) => frontier[device]?.getD zeroHlc < ours).map Prod.fst

def rowKeyOf (op : Op) : JsString := op.table ++ sep :: op.row

/-- `key.slice(0, key.lastIndexOf(SEP))`; without a separator the index is −1
and the last unit is cut. -/
def beforeLastSep (key : JsString) : JsString :=
  if sep ∈ key then ((key.reverse.dropWhile (· ≠ sep)).drop 1).reverse else key.dropLast

/-- At or below the horizon. -/
def below (horizon : Frontier) (op : Op) : Bool := op.hlc ≤ horizon[op.device]?.getD zeroHlc

/-- The accumulators of the removal pass. -/
structure Removals where
  opIds : List JsString
  cellKeys : JsSet
  removed : Nat
  retainedWinners : Nat
  retainedAboveHorizon : Nat

/-- The body of the removal pass. -/
def Removals.add (doomedRows winnerIds : JsSet) (below : Op → Bool) (p : Removals) (op : Op) :
    Removals :=
  if doomedRows.contains (rowKeyOf op) then
    { p with
      opIds := p.opIds ++ [op.id]
      cellKeys := p.cellKeys.insert (cellKey op.table op.row op.column)
      removed := p.removed + 1 }
  else if !below op then { p with retainedAboveHorizon := p.retainedAboveHorizon + 1 }
  else if !winnerIds.contains op.id then
    { p with opIds := p.opIds ++ [op.id], removed := p.removed + 1 }
  else { p with retainedWinners := p.retainedWinners + 1 }

/-- The ids of the winning operations. -/
def winnerIds (winningCells : JsMap Op) : JsSet :=
  Std.ExtTreeSet.ofList (winningCells.toList.map fun (_, op) => op.id) compare

/-- Rows that may be reclaimed whole. -/
def doomedRows (ops : List Op) (winningCells : JsMap Op) (horizon : Frontier)
    (opts : CompactionOptions) : JsSet :=
  if opts.includeTombstones then
    let candidates := (winningCells.toList.filter fun (_, winner) =>
      winner.column == tombstoneColumn && winner.value.isTrue && below horizon winner).map
        fun (key, _) => beforeLastSep key
    let blockedRows := Std.ExtTreeSet.ofList
      ((ops.filter fun op => !below horizon op).map rowKeyOf) compare
    Std.ExtTreeSet.ofList (candidates.filter fun row => !blockedRows.contains row) compare
  else ∅

/-- What `planCompaction` returns; `stats` lacks `blockedBy`, which the engine adds. -/
structure CompactionPlan where
  opIds : List JsString
  cellKeys : List JsString
  stats : List JsString → CompactionStats

def planCompaction (ops : List Op) (winningCells : JsMap Op) (horizon : Frontier)
    (opts : CompactionOptions) : CompactionPlan :=
  let doomed := doomedRows ops winningCells horizon opts
  let p := ops.foldl (Removals.add doomed (winnerIds winningCells) (below horizon)) ⟨[], ∅, 0, 0, 0⟩
  let cellKeys := (winningCells.keys.filter fun key => doomed.contains (beforeLastSep key)).foldl
    (fun set key => set.insert key) p.cellKeys
  { opIds := p.opIds
    cellKeys := cellKeys.toList
    stats := fun blockedBy =>
      ⟨ops.length, p.removed, doomed.size, p.retainedWinners, p.retainedAboveHorizon, blockedBy⟩ }

/-- The materialised state by cell key. -/
def winningCells (s : MemoryAdapter) : JsMap Op :=
  (s.listTables.flatMap fun table => (s.listRows table).flatMap fun row =>
    ((s.getRow table row).getD ∅).toList.map fun (column, op) =>
      (cellKey table row column, op)).foldl (fun out x => out.insert x.1 x.2) ∅

/-- The storage after `compact(opts)`. -/
def compactStorage (s : MemoryAdapter) (opts : CompactionOptions) :
    MemoryAdapter × CompactionStats :=
  let horizon := compactionHorizon s.frontier s.peerFrontiers
  let plan := planCompaction s.allOps (winningCells s) horizon opts
  let s' :=
    if !opts.dryRun && (0 < plan.opIds.length || 0 < plan.cellKeys.length) then
      s.compact ⟨plan.opIds, plan.cellKeys⟩
    else s
  (s', plan.stats (blockingPeers s.frontier s.peerFrontiers))

/-- Whether `compact(opts)` comes to a transaction. -/
def compactionDue (s : MemoryAdapter) (opts : CompactionOptions) : Bool :=
  let plan := planCompaction s.allOps (winningCells s) (compactionHorizon s.frontier s.peerFrontiers)
    opts
  !opts.dryRun && (0 < plan.opIds.length || 0 < plan.cellKeys.length)

theorem compactStorage_of_not_due {s : MemoryAdapter} {opts : CompactionOptions}
    (h : compactionDue s opts = false) : (compactStorage s opts).1 = s :=
  if_neg (Bool.eq_false_iff.1 h)

theorem compactionDue_dryRun {s : MemoryAdapter} {opts : CompactionOptions}
    (h : opts.dryRun = true) : compactionDue s opts = false := by
  unfold compactionDue
  rw [h]
  rfl

/-! ## Row keys -/

theorem beforeLastSep_append {a b : JsString} (hb : sep ∉ b) :
    beforeLastSep (a ++ sep :: b) = a := by
  unfold beforeLastSep
  have hr : ∀ c ∈ b.reverse, (decide (c ≠ sep)) = true := by
    intro c hc
    rw [decide_eq_true_eq]
    rintro rfl
    exact hb (List.mem_reverse.1 hc)
  rw [if_pos (by simp), List.reverse_append, List.reverse_cons, List.append_assoc,
    List.dropWhile_append_of_pos hr]
  simp

/-- The row of a legal cell. -/
theorem beforeLastSep_cellKey {c : Cell} (h : Legal c) :
    beforeLastSep (cellKey c.1 c.2.1 c.2.2) = c.1 ++ sep :: c.2.1 :=
  beforeLastSep_append h.column

theorem rowKey_inj {t t' r r' : JsString} (ht : sep ∉ t) (ht' : sep ∉ t') (hr : sep ∉ r)
    (hr' : sep ∉ r') (h : t ++ sep :: r = t' ++ sep :: r') : t = t' ∧ r = r' := by
  have e := congrArg splitSep h
  rw [splitSep_append ht, splitSep_append ht', splitSep_of_not_mem hr,
    splitSep_of_not_mem hr'] at e
  exact ⟨(List.cons.inj e).1, (List.cons.inj (List.cons.inj e).2).1⟩

/-! ## The horizon -/

theorem getElem?_lowerHorizon {horizon frontier : Frontier} {d h : JsString} :
    (lowerHorizon horizon frontier)[d]? = some h ↔
      ∃ least, horizon[d]? = some least ∧ h = min least (frontier[d]?.getD zeroHlc) := by
  unfold lowerHorizon
  rw [Std.ExtTreeMap.getElem?_map, Option.map_eq_some_iff]
  constructor
  · rintro ⟨least, h1, h2⟩
    refine ⟨least, h1, ?_⟩
    simp only at h2
    rw [← h2]
    by_cases hlt : frontier[d]?.getD zeroHlc < least
    · rw [if_pos hlt, min_eq_right (le_of_lt hlt)]
    · rw [if_neg hlt, min_eq_left (not_lt.1 hlt)]
  · rintro ⟨least, h1, rfl⟩
    refine ⟨least, h1, ?_⟩
    simp only
    by_cases hlt : frontier[d]?.getD zeroHlc < least
    · rw [if_pos hlt, min_eq_right (le_of_lt hlt)]
    · rw [if_neg hlt, min_eq_left (not_lt.1 hlt)]

/-- No operation is at or below `zeroHlc`. -/
theorem Op.not_hlc_le_zeroHlc (o : Op) : ¬ o.hlc ≤ zeroHlc := by
  intro h
  cases e : o.hlc with
  | nil => exact o.hlc_ne_nil e
  | cons c l =>
    rw [e] at h
    exact absurd (List.nil_lt_cons c l) (not_lt.2 h)

/-- **At or below the horizon is at or below every frontier.** -/
theorem below_compactionHorizon {own : Frontier} {peers : JsMap Frontier} {op : Op} :
    below (compactionHorizon own peers) op = true ↔
      op.hlc ≤ own[op.device]?.getD zeroHlc ∧
        ∀ {p : JsString} {f : Frontier}, peers[p]? = some f → op.hlc ≤ f[op.device]?.getD zeroHlc := by
  have key : ∀ (l : List Frontier) (own : Frontier), below (l.foldl lowerHorizon own) op = true ↔
      op.hlc ≤ own[op.device]?.getD zeroHlc ∧ ∀ f ∈ l, op.hlc ≤ f[op.device]?.getD zeroHlc := by
    intro l
    induction l with
    | nil =>
      intro own
      rw [List.foldl_nil, below, decide_eq_true_iff]
      exact (and_iff_left (List.forall_mem_nil _)).symm
    | cons f l ih =>
      intro own
      rw [List.foldl_cons, ih, List.forall_mem_cons, ← and_assoc]
      apply and_congr_left'
      cases ho : own[op.device]? with
      | none =>
        have e : (lowerHorizon own f)[op.device]? = none := by
          cases hl : (lowerHorizon own f)[op.device]? with
          | none => rfl
          | some h =>
            obtain ⟨least, h1, -⟩ := getElem?_lowerHorizon.1 hl
            rw [ho] at h1
            cases h1
        rw [e]
        constructor
        · exact fun h => absurd h op.not_hlc_le_zeroHlc
        · exact fun h => absurd h.1 op.not_hlc_le_zeroHlc
      | some least =>
        rw [getElem?_lowerHorizon.2 ⟨least, ho, rfl⟩, Option.getD_some, Option.getD_some, le_min_iff]
  unfold compactionHorizon
  rw [key]
  apply and_congr_right'
  simp only [List.mem_map, Prod.exists, Std.ExtTreeMap.mem_toList_iff_getElem?_eq_some,
    exists_eq_right]
  constructor
  · intro h p f hp
    exact h f ⟨p, hp⟩
  · rintro h f ⟨p, hp⟩
    exact h hp

end TangentFeed
