import TangentFeed.Dart.Storage

/-!
# Compaction in Dart

`planCompaction` of the Dart implementation, over a snapshot of the winners keyed
by the three names with spaces between them, while rows are keyed as in TypeScript.
No name of a valid operation has either separator in it, so the keys tell the cells
and the rows apart.
-/

namespace TangentFeed.Dart

/-- `" "`. -/
def blank : CodeUnit := 0x20

/-- `'${op.table}\u0000${op.row}'`. -/
def rowKeyOf (op : StoredOp) : JsString := op.table ++ sep :: op.row

/-- `'$table $row $column'`. -/
def snapshotKey (table row column : JsString) : JsString :=
  table ++ blank :: row ++ blank :: column

theorem blank_notMem_table (op : StoredOp) : blank ∉ op.table := fun h =>
  absurd (op.legal.table.units _ h) (by decide +kernel)

theorem blank_notMem_row (op : StoredOp) : blank ∉ op.row := fun h =>
  absurd (op.legal.row.units _ h) (by decide +kernel)

theorem sep_notMem_table (op : StoredOp) : sep ∉ op.table := fun h =>
  absurd (op.legal.table.units _ h) (by decide +kernel)

theorem sep_notMem_row (op : StoredOp) : sep ∉ op.row := fun h =>
  absurd (op.legal.row.units _ h) (by decide +kernel)

/-- The key of a row tells its table and its name. -/
theorem rowKeyOf_eq_iff (op : StoredOp) {t r : JsString} :
    rowKeyOf op = t ++ sep :: r ↔ op.table = t ∧ op.row = r := by
  rw [rowKeyOf, List.append_cons_inj_of_notMem (sep_notMem_table op) (sep_notMem_row op)]
  exact ⟨fun h => ⟨h.1, h.2.2⟩, fun h => ⟨h.1, rfl, h.2⟩⟩

/-- What stands before the first blank. -/
theorem blank_inj {a b x y : JsString} (ha : blank ∉ a) (hb : blank ∉ b)
    (h : a ++ blank :: x = b ++ blank :: y) : a = b ∧ x = y := by
  induction a generalizing b with
  | nil =>
    cases b with
    | nil => exact ⟨rfl, (List.cons.inj h).2⟩
    | cons c b => exact absurd ((List.cons.inj h).1 ▸ List.mem_cons_self) hb
  | cons c a ih =>
    cases b with
    | nil => exact absurd ((List.cons.inj h).1 ▸ List.mem_cons_self) ha
    | cons d b =>
      obtain ⟨rfl, htail⟩ := List.cons.inj h
      obtain ⟨rfl, hxy⟩ := ih (fun hm => ha (List.mem_cons_of_mem _ hm))
        (fun hm => hb (List.mem_cons_of_mem _ hm)) htail
      exact ⟨rfl, hxy⟩

/-- The key of a cell tells the cell. -/
theorem snapshotKey_inj {o p : StoredOp}
    (h : snapshotKey o.table o.row o.column = snapshotKey p.table p.row p.column) :
    o.cell = p.cell := by
  unfold snapshotKey at h
  simp only [List.append_assoc, List.cons_append] at h
  -- the first blank ends the table, the one after it the row
  obtain ⟨ht, h⟩ := blank_inj (blank_notMem_table o) (blank_notMem_table p) h
  obtain ⟨hr, hc⟩ := blank_inj (blank_notMem_row o) (blank_notMem_row p) h
  exact Prod.ext ht (Prod.ext hr hc)

/-- At or below the horizon. -/
def below (horizon : Frontier) (op : StoredOp) : Bool :=
  op.hlc ≤ horizon[op.device]?.getD zeroHlc

/-- What may be reclaimed; `stats` lacks `blockedBy`, which the engine adds. -/
structure CompactionPlan where
  opIds : List JsString
  cellKeys : List Cell
  stats : List JsString → CompactionStats

/-- The variables of the removal pass. -/
structure Removals where
  opIds : List JsString
  cells : List Cell
  removed : Nat
  retainedWinners : Nat
  retainedAboveHorizon : Nat

/-- One turn of the removal pass. -/
def Removals.add (doomedRows winnerIds : JsSet) (below : StoredOp → Bool) (p : Removals)
    (op : StoredOp) : Removals :=
  if doomedRows.contains (rowKeyOf op) then
    { p with opIds := p.opIds ++ [op.id], cells := p.cells ++ [op.cell], removed := p.removed + 1 }
  else if !below op then { p with retainedAboveHorizon := p.retainedAboveHorizon + 1 }
  else if !winnerIds.contains op.id then
    { p with opIds := p.opIds ++ [op.id], removed := p.removed + 1 }
  else { p with retainedWinners := p.retainedWinners + 1 }

/-- Which tombstoned rows may be reclaimed whole. -/
def doomedRows (ops : List StoredOp) (winningCells : OrderedMap JsString StoredOp)
    (horizon : Frontier) (opts : CompactionOptions) : JsSet :=
  if opts.includeTombstones then
    let candidates := (winningCells.values.filter fun winner =>
      winner.column == tombstoneColumn && isTrue winner.value && below horizon winner).map rowKeyOf
    let blockedRows := Std.ExtTreeSet.ofList
      ((ops.filter fun op => !below horizon op).map rowKeyOf) compare
    Std.ExtTreeSet.ofList (candidates.filter fun row => !blockedRows.contains row) compare
  else ∅

/-- The identifiers of the winning operations. -/
def winnerIds (winningCells : OrderedMap JsString StoredOp) : JsSet :=
  Std.ExtTreeSet.ofList (winningCells.values.map (·.id)) compare

def planCompaction (ops : List StoredOp) (winningCells : OrderedMap JsString StoredOp)
    (horizon : Frontier) (opts : CompactionOptions) : CompactionPlan :=
  let doomed := doomedRows ops winningCells horizon opts
  let p := ops.foldl (Removals.add doomed (winnerIds winningCells) (below horizon))
    ⟨[], [], 0, 0, 0⟩
  { opIds := p.opIds
    cellKeys := p.cells
    stats := fun blockedBy =>
      ⟨ops.length, p.removed, doomed.size, p.retainedWinners, p.retainedAboveHorizon, blockedBy⟩ }

/-- The snapshot of the winners that `compact` takes. -/
def winningCells (s : MemoryAdapter) : OrderedMap JsString StoredOp :=
  (s.listTables.flatMap fun table => (s.listRows table).flatMap fun row =>
    ((s.getRow table row).getD .empty).entries.map fun e =>
      (snapshotKey table row e.1, e.2)).foldl (fun out x => out.set x.1 x.2) .empty

/-- The storage after `compact(options)`, and the statistics. The horizon and the
peers that hold it back are computed as in TypeScript. -/
def compactStorage (s : MemoryAdapter) (opts : CompactionOptions) :
    MemoryAdapter × CompactionStats :=
  let horizon := compactionHorizon s.frontier s.peerFrontiers
  let plan := planCompaction s.allOps (winningCells s) horizon opts
  let s' := if !opts.dryRun && !plan.opIds.isEmpty then s.compact plan.opIds plan.cellKeys else s
  (s', plan.stats (blockingPeers s.frontier s.peerFrontiers))

/-- Whether `compact(options)` comes to a transaction. -/
def compactionDue (s : MemoryAdapter) (opts : CompactionOptions) : Bool :=
  let plan := planCompaction s.allOps (winningCells s) (compactionHorizon s.frontier s.peerFrontiers)
    opts
  !opts.dryRun && !plan.opIds.isEmpty

theorem compactStorage_of_not_due {s : MemoryAdapter} {opts : CompactionOptions}
    (h : compactionDue s opts = false) : (compactStorage s opts).1 = s :=
  if_neg (Bool.eq_false_iff.1 h)

end TangentFeed.Dart
