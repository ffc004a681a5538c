import TangentFeed.Lib.Graves
import TangentFeed.Replica.Convergence
import TangentFeed.Replica.Visible

/-!
# Rows that are reclaimed

The library of dead groups at the operations of a log: the groups are the rows,
the marker of a row is its `-` cell and a tombstone is what makes it dead. A
compaction forgets dead rows, a call that is careful with the rows the log has
lost keeps the log settled, and no read returns a row that the log hides.
-/

namespace TangentFeed

open Graves Lww

/-- Rows as groups of cells, their tombstones as markers. -/
def rowLayout : Layout Op Cell RowKey JsString where
  cell := Op.cell
  rank := Op.hlc
  group := rowOf
  marker r := (r.1, r.2, tombstoneColumn)
  group_marker _ := rfl
  dead o := o.value.isTrue = true

theorem distinct_of_ids {S : Set Op} (hs : ∀ o ∈ S, ∀ p ∈ S, o.id = p.id → o = p) :
    Distinct rowLayout S := fun o ho p hp _ h =>
  hs o ho p hp (by rw [o.id_eq_hlc, p.id_eq_hlc]; exact h)

variable {cr : Crypto}

namespace MemoryAdapter

variable {s : MemoryAdapter} {H : Set Op}

/-- The winners are the latest operations of the log. -/
theorem Ledger.winner_iff (h : s.Ledger H) {c : Cell} {o : Op} :
    s.winner c = some o ↔ Latest rowLayout s.log c o := by
  rw [h.cells.eq_some_iff (SyncEngine.separates_cells fun _ ho _ hp => log_inj ho hp)]
  constructor
  · rintro ⟨⟨p, hp, hc, rfl⟩, hle⟩
    exact ⟨hp, hc, hle⟩
  · rintro ⟨hm, hc, hle⟩
    exact ⟨⟨o, hm, hc, rfl⟩, hle⟩

/-- **A compaction forgets the rows it reclaims.** -/
theorem Ledger.forgets (h : s.Ledger H) {opts : CompactionOptions} (hd : opts.dryRun = false) :
    Forgets rowLayout s.log (compactStorage s opts).1.log (reclaims s opts) := by
  have hlog := fun {o} => compactStorage_log h.keyed h.winnersLogged hd (o := o)
  constructor
  · exact fun o ho => (hlog.1 ho).1
  · rintro r ⟨-, ⟨w, hw, htrue, -⟩, -⟩
    exact ⟨w, h.winner_iff.1 hw, htrue⟩
  · rintro r hr ⟨o, ho, hrow⟩
    exact (hlog.1 ho).2.1 (by rw [← hrow] at hr; exact hr)
  · intro c o ho hr
    have hrow : o.rowKey = rowOf c := congrArg rowOf ho.cell
    refine hlog.2 ⟨ho.mem, by rw [hrow]; exact hr, fun _ => ?_⟩
    have hcell : o.cell = c := ho.cell
    rw [hcell]
    exact h.winner_iff.2 ho

end MemoryAdapter

namespace SyncEngine

variable {e e' : SyncEngine} {H : Set Op} {dd : Deed} {ev : Option ChangeEvent}
  {table row : JsString}

/-- **A careful call keeps the log settled.** -/
theorem Consistent.settled (hc : Consistent cr e H) (he : Effect cr e e' dd ev)
    (h : Settled rowLayout e.storage.log H)
    (hb : Careful rowLayout e.storage.log H (eventOps ev)) :
    Settled rowLayout e'.storage.log (H ∪ eventOps ev) := by
  have hl := hc.ledger
  by_cases hd : ∃ opts, dd = .compact opts
  · obtain ⟨opts, rfl⟩ := hd
    cases he.store with
    | idle hs => rw [hs, eventOps_none, Set.union_empty]; exact h
    | compacted hs =>
      rw [hs, eventOps_none, Set.union_empty]
      by_cases hdry : opts.dryRun = true
      · rw [compactStorage_dryRun hdry]
        exact h
      · refine h.forget hl.logged (fun o ho => ?_) (hl.forgets (by simpa using hdry))
        obtain ⟨w, hw⟩ := hl.cells.total o ho
        exact ⟨w, hl.winner_iff.1 hw⟩
  · rw [hc.log_effect he (not_exists.1 hd)]
    exact h.grow hl.logged hb

/-! ## Reads -/

/-- No read returns the row. -/
structure Withholds (e : SyncEngine) (table row : JsString) : Prop where
  get : e.get table row = some none
  list : ∀ shown, e.list table = some shown → ∃ rows, row ∉ rows ∧
    List.Forall₂ (fun r data => e.get table r = some (some data)) rows shown
  dump : ∀ inherited state, e.dump inherited = some state →
    ∀ rows : JsMap RowData, state[table]? = some rows → rows[row]? = none

theorem DumpState.cols_put {d : DumpState} {t r : JsString} (h : ¬ (t = table ∧ r = row))
    (cols : RowData) : (d.put t r cols).cols table row = d.cols table row := by
  have hput : ∀ rows : JsMap RowData, rows = d.state[t]?.getD ∅ →
      DumpState.cols { d with state := d.state.insert t (rows.insert r cols) } table row =
        d.cols table row := by
    rintro rows rfl
    unfold DumpState.cols
    rw [Std.ExtTreeMap.getElem?_insert_eq]
    by_cases ht : t = table
    · subst ht
      have hr : r ≠ row := fun hr => h ⟨rfl, hr⟩
      rw [if_pos rfl, Option.bind_some, Std.ExtTreeMap.getElem?_insert_eq, if_neg hr]
      cases d.state[t]? with
      | none => exact Std.ExtTreeMap.getElem?_empty
      | some _ => rfl
    · rw [if_neg ht]
  unfold DumpState.put
  cases hd : d.state[t]? with
  | some rows => exact hput rows (by rw [hd]; rfl)
  | none =>
    simp only
    split_ifs
    · rfl
    · rfl
    · exact hput ∅ (by rw [hd]; rfl)

theorem cols_dumpRows (hg : e.get table row = some none) {t : JsString} {rows : List JsString}
    {d d' : DumpState} (h : e.dumpRows t rows d = some d') :
    d'.cols table row = d.cols table row := by
  induction rows generalizing d with
  | nil =>
    obtain rfl := Option.some.inj h
    rfl
  | cons r rows ih =>
    unfold dumpRows at h
    split at h
    · cases h
    · exact ih h
    · rename_i data hdata
      rw [ih h, DumpState.cols_put]
      rintro ⟨rfl, rfl⟩
      rw [hg] at hdata
      cases hdata

theorem cols_dumpTables (hg : e.get table row = some none) {tables : List JsString}
    {d d' : DumpState} (h : e.dumpTables tables d = some d') :
    d'.cols table row = d.cols table row := by
  induction tables generalizing d with
  | nil =>
    obtain rfl := Option.some.inj h
    rfl
  | cons t tables ih =>
    unfold dumpTables at h
    split at h
    · cases h
    · rename_i d₁ hd₁
      rw [ih h, cols_dumpRows hg hd₁]

/-- `list` and `dump` return no row that `get` does not. -/
theorem withholds_of_get (hg : e.get table row = some none) : e.Withholds table row where
  get := hg
  list shown hl := by
    refine ⟨_, fun hm => ?_, list_eq_some.1 hl⟩
    have hs := mem_shownRows.1 ((List.mem_insertionSort _).1 hm)
    rw [shows_eq_false.2 hg] at hs
    cases hs
  dump inherited state hd rows hrows := by
    obtain ⟨d, hd', rfl⟩ := Option.map_eq_some_iff.1 hd
    have hcols := cols_dumpTables hg hd'
    unfold DumpState.cols at hcols
    rw [hrows] at hcols
    simpa using hcols

/-- **No read returns a row that the log hides.** -/
theorem Consistent.withholds (hc : Consistent cr e H) {r : RowKey}
    (h : Hides rowLayout e.storage.log r) : e.Withholds r.1 r.2 := by
  have hl := hc.ledger
  refine withholds_of_get ?_
  by_cases ht : Touches rowLayout e.storage.log r
  · obtain ⟨o, ho, hdead⟩ := h ht
    exact get_of_tombstone (hl.winner_iff.2 ho) hdead
  · refine get_of_no_winners hl.keyed fun c => ?_
    rw [Option.eq_none_iff_forall_ne_some]
    intro o ho
    have hlatest := hl.winner_iff.1 ho
    exact not_touches.1 ht o hlatest.mem (congrArg rowOf hlatest.cell)

end SyncEngine

end TangentFeed
