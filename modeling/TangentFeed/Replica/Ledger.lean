import TangentFeed.Core.Engine
import TangentFeed.Replica.Reclaim

/-!
# The store as a ledger

`Ledger s H` relates a store to the set `H` of all operations ever applied to
it: the winners are the greatest of the log, cell by cell, the frontier is the
greatest of `H`, device by device, and the log is part of `H`. Both are
greatest-per-key registers, and `commit` is `putAll` on each
(`winner_commit`, `frontier_commit`).
-/

namespace TangentFeed

open Lww

/-- The winner of a cell is its operation of greatest HLC. -/
def cellScheme : Scheme Op Cell Op JsString := ⟨Op.cell, fun o => o, Op.hlc⟩

/-- The frontier holds the greatest HLC of a device. -/
def frontierScheme : Scheme Op JsString JsString JsString := ⟨Op.device, Op.hlc, fun h => h⟩

namespace MemoryAdapter

/-- The frontier as a function. -/
def seen (s : MemoryAdapter) (device : JsString) : Option JsString := s.frontier[device]?

structure Ledger (s : MemoryAdapter) (H : Set Op) : Prop where
  keyed : s.Keyed
  cells : Tracks cellScheme s.log s.winner
  frontier : Tracks frontierScheme H s.seen
  logged : s.log ⊆ H

variable {s : MemoryAdapter} {H : Set Op}

theorem Ledger.empty : Ledger empty ∅ where
  keyed := Keyed.empty
  cells := by
    have e : MemoryAdapter.empty.winner = fun _ => none := funext winner_empty
    rw [log_empty, e]
    exact Tracks.empty
  frontier := by
    have e : MemoryAdapter.empty.seen = fun _ => none := by
      funext d
      exact Std.ExtTreeMap.getElem?_empty (α := JsString) (β := JsString)
    rw [e]
    exact Tracks.empty
  logged := by rw [log_empty]

/-- A ledger depends on the log, the cells and the frontier only. -/
theorem Ledger.congr {s' : MemoryAdapter} (h : s.Ledger H) (h1 : s'.opsById = s.opsById)
    (h2 : s'.tables = s.tables) (h3 : s'.frontier = s.frontier) : s'.Ledger H := by
  obtain ⟨o', t', f', c', d', p'⟩ := s'
  simp only at h1 h2 h3
  subst h1 h2 h3
  exact ⟨⟨h.keyed.ids, h.keyed.cells, h.keyed.tight⟩, h.cells, h.frontier, h.logged⟩

theorem Ledger.winnersLogged (h : s.Ledger H) : WinnersLogged s := by
  intro c w hw
  obtain ⟨o, ho, -, rfl⟩ := (h.cells.best hw).mem
  exact ho

/-- Every logged operation has a winner on its cell that is not older. -/
theorem Ledger.exists_winner (h : s.Ledger H) {o : Op} (ho : o ∈ s.log) :
    ∃ w, s.winner o.cell = some w ∧ o.hlc ≤ w.hlc := by
  obtain ⟨w, hw⟩ := h.cells.total o ho
  exact ⟨w, hw, (h.cells.best hw).le o ho rfl⟩

/-- Every operation ever applied is at or below the frontier. -/
theorem Ledger.le_frontier (h : s.Ledger H) {o : Op} (ho : o ∈ H) :
    ∃ f, s.frontier[o.device]? = some f ∧ o.hlc ≤ f := by
  obtain ⟨f, hf⟩ := h.frontier.total o ho
  exact ⟨f, hf, (h.frontier.best hf).le o ho rfl⟩

/-- The entry of the frontier is the HLC of an operation applied. -/
theorem Ledger.frontier_mem (h : s.Ledger H) {d f : JsString} (hf : s.frontier[d]? = some f) :
    ∃ o ∈ H, o.device = d ∧ o.hlc = f := (h.frontier.best hf).mem

end MemoryAdapter

/-! ## A committed batch -/

open SyncEngine

theorem advanceFrontier_eq_put (f : Frontier) (o : Op) :
    (fun d : JsString => (advanceFrontier f o)[d]?) = put frontierScheme (fun d => f[d]?) o := by
  funext d
  unfold advanceFrontier
  by_cases hd : o.device = d
  · subst hd
    refine Eq.trans ?_ (put_key (L := frontierScheme) (m := fun d => f[d]?) (o := o)).symm
    change _ = some (frontierScheme.merge f[o.device]? o.hlc)
    cases h : f[o.device]? with
    | none => exact Std.ExtTreeMap.getElem?_insert_self
    | some seen =>
      simp only [Scheme.merge]
      by_cases hle : o.hlc ≤ seen
      · rw [if_pos hle, h]
        exact congrArg some (if_neg (not_lt.2 hle)).symm
      · rw [if_neg hle, Std.ExtTreeMap.getElem?_insert_self]
        exact congrArg some (if_pos (not_le.1 hle)).symm
  · refine Eq.trans ?_ (put_of_ne (L := frontierScheme) (m := fun d => f[d]?) (o := o) hd).symm
    cases h : f[o.device]? with
    | none =>
      simp only
      rw [Std.ExtTreeMap.getElem?_insert_eq, if_neg hd]
    | some seen =>
      simp only
      by_cases hle : o.hlc ≤ seen
      · rw [if_pos hle]
      · rw [if_neg hle, Std.ExtTreeMap.getElem?_insert_eq, if_neg hd]

variable {s : MemoryAdapter} {H : Set Op}

/-- What the pending winners stand for while a batch is being merged. -/
structure Pending (s : MemoryAdapter) (winners : JsMap Op) (m : Cell → Option Op) : Prop where
  view : ∀ {c : Cell}, Legal c →
    (winners[cellKey c.1 c.2.1 c.2.2]?).or (s.winner c) = m c
  keys : ∀ {k : JsString} {o : Op}, winners[k]? = some o → k = cellKey o.table o.row o.column

/-- One pass of the loop of `commit` puts one operation. -/
theorem Pending.step (hk : s.Keyed) {acc : JsMap Op × Frontier} {m : Cell → Option Op}
    (h : Pending s acc.1 m) (o : Op) :
    Pending s (commitOp s acc o).1 (put cellScheme m o) := by
  have hcur : (acc.1[cellKey o.table o.row o.column]?).or
      (s.getWinner o.table o.row o.column) = m o.cell := h.view o.legal
  -- inserting at the operation's key is an update at its cell
  have ins : ∀ v : Op, v.cell = o.cell → cellScheme.merge (m o.cell) o = v →
      Pending s (acc.1.insert (cellKey o.table o.row o.column) v) (put cellScheme m o) := by
    intro v hv hm
    constructor
    · intro c hc
      by_cases e : o.cell = c
      · subst e
        refine Eq.trans ?_ (put_key (L := cellScheme) (m := m) (o := o)).symm
        change ((acc.1.insert (cellKey o.table o.row o.column) v)[cellKey o.table o.row o.column]?).or
          _ = some (cellScheme.merge (m o.cell) o)
        rw [Std.ExtTreeMap.getElem?_insert_self, Option.some_or, hm]
      · rw [put_of_ne (L := cellScheme) e, Std.ExtTreeMap.getElem?_insert_eq,
          if_neg fun hkey : cellKey o.table o.row o.column = _ => e (cellKey_inj o.legal hc hkey)]
        exact h.view hc
    · intro k p hp
      rw [Std.ExtTreeMap.getElem?_insert_eq] at hp
      by_cases e : cellKey o.table o.row o.column = k
      · rw [if_pos e] at hp
        obtain rfl := Option.some.inj hp
        rw [← e]
        change cellKey o.cell.1 o.cell.2.1 o.cell.2.2 = cellKey v.cell.1 v.cell.2.1 v.cell.2.2
        rw [hv]
      · rw [if_neg e] at hp
        exact h.keys hp
  unfold commitOp
  simp only [hcur]
  cases hm : m o.cell with
  | none => exact ins o rfl (by rw [hm]; rfl)
  | some cur =>
    simp only
    by_cases hlt : cur.hlc < o.hlc
    · rw [if_pos hlt]
      exact ins o rfl (by rw [hm]; exact if_pos hlt)
    · rw [if_neg hlt]
      have hmerge : cellScheme.merge (m o.cell) o = cur := by rw [hm]; exact if_neg hlt
      cases hp : acc.1[cellKey o.table o.row o.column]? with
      | none =>
        rw [hp, Option.none_or, hm] at hcur
        exact ins cur (hk.cells hcur) hmerge
      | some p =>
        rw [hp, Option.some_or, hm] at hcur
        obtain rfl := Option.some.inj hcur
        refine ⟨fun {c} hc => ?_, h.keys⟩
        by_cases e : o.cell = c
        · subst e
          refine Eq.trans ?_ (put_key (L := cellScheme) (m := m) (o := o)).symm
          change (acc.1[cellKey o.table o.row o.column]?).or _ = some (cellScheme.merge (m o.cell) o)
          rw [hp, hmerge, Option.some_or]
        · rw [put_of_ne (L := cellScheme) e]
          exact h.view hc

theorem Pending.foldl (hk : s.Keyed) (ops : List Op) {acc : JsMap Op × Frontier}
    {m : Cell → Option Op} (h : Pending s acc.1 m) :
    Pending s (ops.foldl (commitOp s) acc).1 (putAll cellScheme m ops) := by
  induction ops generalizing acc m with
  | nil => exact h
  | cons o ops ih => exact ih (h.step hk o)

theorem Pending.empty (s : MemoryAdapter) : Pending s ∅ s.winner :=
  ⟨fun _ => by rw [Std.ExtTreeMap.getElem?_empty, Option.none_or], fun h => by
    rw [Std.ExtTreeMap.getElem?_empty] at h; cases h⟩

/-- The store after a batch of `commit`. -/
def committed (s : MemoryAdapter) (ops : List Op) (clock : ClockState) : MemoryAdapter :=
  s.applyBatch (commitBatch s ops clock)

/-- **`commit` puts its operations into the winners.** -/
theorem winner_commit (hk : s.Keyed) (ops : List Op) (clock : ClockState) :
    (committed s ops clock).winner = putAll cellScheme s.winner ops := by
  have hp : Pending s (commitBatch s ops clock).winners (putAll cellScheme s.winner ops) :=
    Pending.foldl hk ops
      (show Pending s ((∅ : JsMap Op), s.frontier).1 s.winner from Pending.empty s)
  funext c
  unfold committed
  by_cases hc : Legal c
  · rw [MemoryAdapter.winner_applyBatch hp.keys hc]
    exact hp.view hc
  · rw [MemoryAdapter.winner_applyBatch_of_not_legal hp.keys hc, putAll_of_ne]
    rintro o - rfl
    exact hc o.legal

/-- **`commit` puts its operations into the frontier.** -/
theorem frontier_commit (ops : List Op) (clock : ClockState) :
    (committed s ops clock).seen = putAll frontierScheme s.seen ops := by
  have key : ∀ (ops : List Op) (acc : JsMap Op × Frontier),
      (fun d : JsString => (ops.foldl (commitOp s) acc).2[d]?) =
        putAll frontierScheme (fun d => acc.2[d]?) ops := by
    intro ops
    induction ops with
    | nil => intro acc; rfl
    | cons o ops ih =>
      intro acc
      rw [List.foldl_cons, ih]
      change putAll frontierScheme (fun d => (advanceFrontier acc.2 o)[d]?) ops = _
      rw [advanceFrontier_eq_put]
      rfl
  exact key ops (∅, s.frontier)

/-- New operations: none is in the log, and no id comes twice. -/
structure New (s : MemoryAdapter) (ops : List Op) : Prop where
  nodup : (ops.map Op.id).Nodup
  notLogged : ∀ o ∈ ops, s.hasOp o.id = false

theorem log_commit (hk : s.Keyed) {ops : List Op} (hn : New s ops) (clock : ClockState) :
    (committed s ops clock).log = s.log ∪ {o | o ∈ ops} :=
  (MemoryAdapter.log_applyBatch (b := commitBatch s ops clock) hk hn.nodup hn.notLogged).1

namespace MemoryAdapter

/-- **A committed batch extends the ledger.** -/
theorem Ledger.commit (h : s.Ledger H) {ops : List Op} (hn : New s ops) (clock : ClockState) :
    (committed s ops clock).Ledger (H ∪ {o | o ∈ ops}) := by
  have hcells : Tracks cellScheme (committed s ops clock).log (committed s ops clock).winner := by
    rw [log_commit h.keyed hn, winner_commit h.keyed]
    exact h.cells.putAll ops
  exact {
    keyed := {
      ids := (log_applyBatch (b := commitBatch s ops clock) h.keyed hn.nodup hn.notLogged).2
      cells := fun hc => by
        obtain ⟨o, -, hk, rfl⟩ := (hcells.best hc).mem
        exact hk
      tight := h.keyed.tight.setAll _ }
    cells := hcells
    frontier := by
      rw [frontier_commit]
      exact h.frontier.putAll ops
    logged := by
      rw [log_commit h.keyed hn]
      exact Set.union_subset_union_left _ h.logged }

/-- A batch without operations writes the clock. -/
theorem applyBatch_nil (s : MemoryAdapter) (clock : ClockState) :
    s.applyBatch ⟨[], ∅, s.frontier, clock⟩ = { s with clock := some clock } := by
  have e : (∅ : JsMap Op).toList = [] := Std.ExtTreeMap.toList_eq_nil_iff.2 rfl
  unfold applyBatch
  rw [e]
  rfl

/-- **A compaction keeps the ledger.** -/
theorem Ledger.compact (h : s.Ledger H) (opts : CompactionOptions) :
    (compactStorage s opts).1.Ledger H := by
  by_cases hd : opts.dryRun = true
  · rw [compactStorage_dryRun hd]
    exact h
  · have hd' : opts.dryRun = false := by simpa using hd
    have hlog := fun {o} => compactStorage_log h.keyed h.winnersLogged hd' (o := o)
    have hwin := fun {c w} => compactStorage_winner_eq_some h.keyed hd' (c := c) (w := w)
    have hsub : (compactStorage s opts).1.log ⊆ s.log := fun o ho => (hlog.1 ho).1
    exact {
      keyed := by
        rw [compactStorage_fst hd']
        exact h.keyed.compact _
      cells := {
        best := by
          intro c w hw
          obtain ⟨hc, hr⟩ := hwin.1 hw
          have hcell : w.cell = c := h.keyed.cells hc
          refine ⟨⟨w, hlog.2 ⟨h.winnersLogged hc, ?_, fun _ => by rw [hcell, hc]⟩, hcell, rfl⟩, ?_⟩
          · have e : w.rowKey = rowOf c := by rw [← hcell]; rfl
            rw [e]
            exact hr
          · exact fun o ho => (h.cells.best hc).le o (hsub ho)
        total := by
          intro o ho
          obtain ⟨w, hw⟩ := h.cells.total o (hsub ho)
          exact ⟨w, hwin.2 ⟨hw, (hlog.1 ho).2.1⟩⟩ }
      frontier := by
        rw [compactStorage_fst hd']
        exact h.frontier
      logged := hsub.trans h.logged }

end MemoryAdapter

end TangentFeed
