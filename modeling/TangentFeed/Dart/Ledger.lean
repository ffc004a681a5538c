import TangentFeed.Dart.SyncEngine
import TangentFeed.Replica.Reclaim

/-!
# The Dart store as a ledger

`Ledger s H` relates a Dart store to the set `H` of all operations ever applied to
it, as for TypeScript: the winners are the greatest of the log, cell by cell, the
frontier is the greatest of `H`, device by device, and the log is part of `H`. One
pass of `_commit` puts its new operations into both registers, and a compaction
keeps the ledger.
-/

namespace TangentFeed.Dart

open Lww

/-- The winner of a cell is its operation of greatest HLC. -/
def cellScheme : Scheme StoredOp Cell StoredOp JsString := ⟨StoredOp.cell, fun o => o, fun o => o.hlc⟩

/-- The frontier holds the greatest HLC of a device. -/
def frontierScheme : Scheme StoredOp JsString JsString JsString :=
  ⟨fun o => o.device, fun o => o.hlc, fun h => h⟩

namespace MemoryAdapter

/-! ## Reading it as sets and functions -/

/-- The operations in the log. -/
def logged (s : MemoryAdapter) : Set StoredOp := {o | s.log.get o.id = some o}

def winner (s : MemoryAdapter) (c : Cell) : Option StoredOp := s.winners.get c

/-- The frontier as a function. -/
def seen (s : MemoryAdapter) (device : JsString) : Option JsString := s.frontier[device]?

/-- The log is keyed by id and the winners by the cell they write. -/
structure Keyed (s : MemoryAdapter) : Prop where
  ids : ∀ {k : JsString} {o : StoredOp}, s.log.get k = some o → o.id = k
  cells : ∀ {c : Cell} {o : StoredOp}, s.winner c = some o → o.cell = c

variable {s : MemoryAdapter}

theorem mem_logged {o : StoredOp} : o ∈ s.logged ↔ s.log.get o.id = some o := Iff.rfl

theorem logged_inj {o p : StoredOp} (ho : o ∈ s.logged) (hp : p ∈ s.logged) (h : o.id = p.id) :
    o = p := by
  rw [mem_logged] at ho hp
  rw [h, hp] at ho
  exact (Option.some.inj ho).symm

theorem Keyed.hasOp_iff (h : s.Keyed) {id : JsString} :
    s.hasOp id = true ↔ ∃ o ∈ s.logged, o.id = id := by
  unfold hasOp
  rw [Option.isSome_iff_exists]
  constructor
  · rintro ⟨o, ho⟩
    have e := h.ids ho
    exact ⟨o, by rw [mem_logged, e, ho], e⟩
  · rintro ⟨o, ho, rfl⟩
    exact ⟨o, ho⟩

theorem Keyed.mem_values (h : s.Keyed) {o : StoredOp} : o ∈ s.log.values ↔ o ∈ s.logged := by
  rw [OrderedMap.mem_values, mem_logged]
  constructor
  · rintro ⟨k, hk⟩
    rw [h.ids hk, hk]
  · exact fun ho => ⟨_, ho⟩

theorem Keyed.mem_allOps (h : s.Keyed) {o : StoredOp} : o ∈ s.allOps ↔ o ∈ s.logged := by
  rw [allOps, List.mem_insertionSort, h.mem_values]

theorem Keyed.mem_opsSince (h : s.Keyed) {f : Frontier} {o : StoredOp} :
    o ∈ s.opsSince f ↔ o ∈ s.logged ∧ aboveFrontier o f = true := by
  rw [opsSince, List.mem_insertionSort, List.mem_filter, h.mem_values]

/-- The log after entries are set. -/
theorem get_foldl_setOp (ops : List StoredOp) (m : OrderedMap JsString StoredOp) (k : JsString) :
    ((∀ o ∈ ops, o.id ≠ k) ∧ (ops.foldl (fun m o => m.set o.id o) m).get k = m.get k) ∨
      ∃ o ∈ ops, o.id = k ∧ (ops.foldl (fun m o => m.set o.id o) m).get k = some o := by
  induction ops generalizing m with
  | nil => exact .inl ⟨fun _ h => (List.not_mem_nil h).elim, rfl⟩
  | cons o ops ih =>
    rw [List.foldl_cons]
    rcases ih (m.set o.id o) with ⟨hne, h⟩ | ⟨p, hp, hk, h⟩
    · rw [h, OrderedMap.get_set]
      by_cases hk : k = o.id
      · rw [if_pos hk]
        exact .inr ⟨o, List.mem_cons_self, hk.symm, rfl⟩
      · rw [if_neg hk]
        exact .inl ⟨List.forall_mem_cons.2 ⟨Ne.symm hk, hne⟩, rfl⟩
    · exact .inr ⟨p, List.mem_cons_of_mem _ hp, hk, h⟩

/-- The winners after a batch. -/
theorem winner_applyBatch (s : MemoryAdapter) (b : BatchWrite) (c : Cell) :
    (s.applyBatch b).winner c = (b.winners.get c).or (s.winner c) :=
  OrderedMap.get_foldl_entries b.winners s.winners

theorem logged_compact (s : MemoryAdapter) (opIds : List JsString) (cellKeys : List Cell) :
    (s.compact opIds cellKeys).logged = {o | o ∈ s.logged ∧ o.id ∉ opIds} := by
  ext o
  change (opIds.foldl (fun m id => m.erase id) s.log).get o.id = some o ↔ _
  rw [OrderedMap.get_foldl_erase]
  by_cases h : o.id ∈ opIds <;> simp [h, mem_logged]

theorem winner_compact (s : MemoryAdapter) (opIds : List JsString) (cellKeys : List Cell)
    (c : Cell) :
    (s.compact opIds cellKeys).winner c = if c ∈ cellKeys then none else s.winner c := by
  refine (OrderedMap.get_foldl_erase cellKeys s.winners).trans ?_
  by_cases h : c ∈ cellKeys
  · rw [if_pos h, if_pos h]
  · rw [if_neg h, if_neg h]
    rfl

/-! ## Rows of cells -/

/-- The row that the loop of `getRow` collects. -/
theorem get_collect (table row column : JsString) (l : List (Cell × StoredOp))
    (hn : (l.map Prod.fst).Nodup) (out : Option (OrderedMap JsString StoredOp)) :
    (l.foldl (collect table row) out).bind (·.get column) =
      ((⟨l, hn⟩ : OrderedMap Cell StoredOp).get (table, row, column)).or
        (out.bind (·.get column)) := by
  induction l generalizing out with
  | nil => rfl
  | cons e l ih =>
    obtain ⟨⟨t, r, q⟩, o⟩ := e
    have hnot := (List.nodup_cons.1 hn).1
    rw [List.foldl_cons, ih (List.nodup_cons.1 hn).2, OrderedMap.get_cons]
    by_cases hc : (table, row, column) = (t, r, q)
    · -- the other entries are those of other cells
      obtain ⟨rfl, hrest⟩ := Prod.mk.inj hc
      obtain ⟨rfl, rfl⟩ := Prod.mk.inj hrest
      rw [OrderedMap.get_eq_none.2 hnot, if_pos rfl, Option.none_or, collect, if_pos ⟨rfl, rfl⟩,
        Option.bind_some, OrderedMap.get_set, if_pos rfl, Option.some_or]
    · rw [if_neg hc]
      congr 1
      unfold collect
      by_cases hrow : t = table ∧ r = row
      · obtain ⟨rfl, rfl⟩ := hrow
        have hq : column ≠ q := fun h => hc (by rw [h])
        rw [if_pos ⟨rfl, rfl⟩, Option.bind_some]
        change ((out.getD .empty).set q o).get column = _
        rw [OrderedMap.get_set, if_neg hq]
        cases out with
        | none => rfl
        | some out => rfl
      · rw [if_neg hrow]

/-- **A row has the winners of its cells.** -/
theorem get_getRow (s : MemoryAdapter) (table row column : JsString) :
    (s.getRow table row).bind (·.get column) = s.winner (table, row, column) := by
  unfold getRow
  rw [get_collect _ _ _ _ s.winners.nodup, Option.bind_none, Option.or_none]
  rfl

theorem isSome_collect (table row : JsString) (l : List (Cell × StoredOp))
    (out : Option (OrderedMap JsString StoredOp)) :
    (l.foldl (collect table row) out).isSome = true ↔
      out.isSome = true ∨ ∃ e ∈ l, e.1.1 = table ∧ e.1.2.1 = row := by
  induction l generalizing out with
  | nil => simp
  | cons e l ih =>
    rw [List.foldl_cons, ih]
    unfold collect
    by_cases h : e.1.1 = table ∧ e.1.2.1 = row
    · rw [if_pos h]
      exact ⟨fun _ => .inr ⟨e, List.mem_cons_self, h⟩, fun _ => .inl rfl⟩
    · rw [if_neg h]
      constructor
      · rintro (ho | ⟨x, hx, hrow⟩)
        · exact .inl ho
        · exact .inr ⟨x, List.mem_cons_of_mem _ hx, hrow⟩
      · rintro (ho | ⟨x, hx, hrow⟩)
        · exact .inl ho
        · rcases List.mem_cons.1 hx with rfl | hx
          · exact absurd hrow h
          · exact .inr ⟨x, hx, hrow⟩

theorem exists_entry_iff (s : MemoryAdapter) (p : Cell → Prop) :
    (∃ e ∈ s.winners.entries, p e.1) ↔ ∃ c, s.winner c ≠ none ∧ p c := by
  constructor
  · rintro ⟨e, he, hp⟩
    exact ⟨e.1, by rw [winner, OrderedMap.mem_entries.1 he]; exact Option.some_ne_none _, hp⟩
  · rintro ⟨c, hc, hp⟩
    obtain ⟨o, ho⟩ := Option.ne_none_iff_exists'.1 hc
    exact ⟨(c, o), OrderedMap.mem_entries.2 ho, hp⟩

theorem getRow_ne_none (s : MemoryAdapter) (table row : JsString) :
    s.getRow table row ≠ none ↔ ∃ column, s.winner (table, row, column) ≠ none := by
  unfold getRow
  rw [← Option.isSome_iff_ne_none, isSome_collect,
    exists_entry_iff s fun c => c.1 = table ∧ c.2.1 = row]
  constructor
  · rintro (h | ⟨⟨t, r, q⟩, hc, rfl, rfl⟩)
    · cases h
    · exact ⟨q, hc⟩
  · rintro ⟨q, hc⟩
    exact .inr ⟨(table, row, q), hc, rfl, rfl⟩

theorem mem_listRows (s : MemoryAdapter) (table row : JsString) :
    row ∈ s.listRows table ↔ s.getRow table row ≠ none := by
  rw [getRow_ne_none, listRows, sortStrings, List.mem_insertionSort, List.mem_dedup]
  simp only [List.mem_map, List.mem_filter, decide_eq_true_eq, OrderedMap.mem_keys, Prod.exists]
  constructor
  · rintro ⟨t, r, q, ⟨⟨o, ho⟩, rfl⟩, rfl⟩
    exact ⟨q, by rw [winner, ho]; exact Option.some_ne_none _⟩
  · rintro ⟨q, hc⟩
    obtain ⟨o, ho⟩ := Option.ne_none_iff_exists'.1 hc
    exact ⟨table, row, q, ⟨⟨o, ho⟩, rfl⟩, rfl⟩

theorem mem_listTables (s : MemoryAdapter) (table : JsString) :
    table ∈ s.listTables ↔ ∃ row, s.getRow table row ≠ none := by
  simp only [getRow_ne_none]
  rw [listTables, sortStrings, List.mem_insertionSort, List.mem_dedup]
  simp only [List.mem_map, OrderedMap.mem_keys, Prod.exists]
  constructor
  · rintro ⟨t, r, q, ⟨o, ho⟩, rfl⟩
    exact ⟨r, q, by rw [winner, ho]; exact Option.some_ne_none _⟩
  · rintro ⟨r, q, hc⟩
    obtain ⟨o, ho⟩ := Option.ne_none_iff_exists'.1 hc
    exact ⟨table, r, q, ⟨o, ho⟩, rfl⟩

/-! ## The ledger -/

structure Ledger (s : MemoryAdapter) (H : Set StoredOp) : Prop where
  keyed : s.Keyed
  cells : Tracks cellScheme s.logged s.winner
  frontier : Tracks frontierScheme H s.seen
  logged : s.logged ⊆ H

variable {H : Set StoredOp}

theorem Ledger.empty : Ledger empty ∅ where
  keyed := ⟨fun {_ _} h => (nomatch h), fun {_ _} h => (nomatch h)⟩
  cells := Tracks.empty.congr (Set.eq_empty_iff_forall_notMem.2 fun _ h => nomatch h) rfl
  frontier := Tracks.empty.congr rfl (by
    funext d
    exact Std.ExtTreeMap.getElem?_empty (α := JsString) (β := JsString))
  logged := fun o h => by cases h

/-- A ledger depends on the log, the winners and the frontier only. -/
theorem Ledger.congr {s' : MemoryAdapter} (h : s.Ledger H) (h1 : s'.log = s.log)
    (h2 : s'.winners = s.winners) (h3 : s'.frontier = s.frontier) : s'.Ledger H := by
  obtain ⟨l', w', f', c', d', p'⟩ := s'
  simp only at h1 h2 h3
  subst h1 h2 h3
  exact ⟨⟨h.keyed.ids, h.keyed.cells⟩, h.cells, h.frontier, h.logged⟩

theorem Ledger.winner_logged (h : s.Ledger H) {c : Cell} {w : StoredOp} (hw : s.winner c = some w) :
    w ∈ s.logged := by
  obtain ⟨o, ho, -, rfl⟩ := (h.cells.best hw).mem
  exact ho

end MemoryAdapter

/-! ## The pass of `_commit` -/

namespace SyncEngine

theorem advanceFrontier_eq_put (f : Frontier) (o : StoredOp) :
    (fun d : JsString => (advanceFrontier f o)[d]?) = put frontierScheme (fun d => f[d]?) o := by
  have insert : (fun d : JsString => (f.insert o.device o.hlc)[d]?) =
      fun d => if o.device = d then some o.hlc else f[d]? := by
    funext d
    rw [Std.ExtTreeMap.getElem?_insert_eq]
  unfold advanceFrontier
  cases hf : f[o.device]? with
  | none =>
    refine insert.trans (put_of_outranks (L := frontierScheme) fun w hw => ?_).symm
    exact nomatch hf.symm.trans hw
  | some seen =>
    simp only
    by_cases hlt : seen < o.hlc
    · rw [if_pos hlt]
      refine insert.trans (put_of_outranks (L := frontierScheme) fun w hw => ?_).symm
      obtain rfl := Option.some.inj (hf.symm.trans hw)
      exact hlt
    · rw [if_neg hlt]
      exact (put_of_not_outranks (L := frontierScheme) hf hlt).symm

variable {s : MemoryAdapter}

/-- What the variables of the pass hold after `ops`. -/
structure Merged (s : MemoryAdapter) (p : Pending) (ops : List StoredOp) : Prop where
  nodup : (p.fresh.map fun o => o.id).Nodup
  notLogged : ∀ o ∈ p.fresh, s.hasOp o.id = false
  fresh : p.fresh.Sublist ops
  covered : ∀ o ∈ ops, s.hasOp o.id = true ∨ ∃ f ∈ p.fresh, f.id = o.id
  view : ∀ c, (p.winners.get c).or (s.winner c) = putAll cellScheme s.winner p.fresh c
  beats : ∀ {c o}, p.winners.get c = some o → o ∈ p.fresh ∧ o.cell = c ∧
    ∀ w, s.winner c = some w → w.hlc < o.hlc
  frontier : (fun d : JsString => p.frontier[d]?) = putAll frontierScheme s.seen p.fresh
  changed : ∀ {k row}, p.changed.get k = some row ↔
    k = row.1 ++ sep :: row.2 ∧ ∃ column, p.winners.get (row.1, row.2, column) ≠ none

theorem Merged.nil (s : MemoryAdapter) : Merged s ⟨s.frontier, [], .empty, .empty⟩ [] where
  nodup := List.nodup_nil
  notLogged _ h := (List.not_mem_nil h).elim
  fresh := List.Sublist.refl _
  covered _ h := (List.not_mem_nil h).elim
  view _ := rfl
  beats h := by cases h
  frontier := rfl
  changed := ⟨fun h => (nomatch h), fun ⟨_, _, h⟩ => (h rfl).elim⟩

/-- An operation that is not new leaves the pass where it is. -/
theorem Merged.skip {p : Pending} {ops : List StoredOp} (h : Merged s p ops) {o : StoredOp}
    (ho : s.hasOp o.id = true ∨ ∃ f ∈ p.fresh, f.id = o.id) : Merged s p (ops ++ [o]) :=
  { h with
    fresh := h.fresh.trans (List.sublist_append_left _ _)
    covered := fun q hq => by
      rcases List.mem_append.1 hq with hq | hq
      · exact h.covered q hq
      · rw [List.mem_singleton.1 hq]
        exact ho }

/-- The row of a new winner is a changed row. -/
theorem Merged.changed_set {p : Pending} {ops : List StoredOp} (h : Merged s p ops) (o : StoredOp)
    {k : JsString} {row : JsString × JsString} :
    (p.changed.set (rowKeyOf o) (o.table, o.row)).get k = some row ↔
      k = row.1 ++ sep :: row.2 ∧
        ∃ column, (p.winners.set o.cell o).get (row.1, row.2, column) ≠ none := by
  rw [OrderedMap.get_set]
  by_cases hk : k = rowKeyOf o
  · rw [if_pos hk]
    constructor
    · intro e
      obtain rfl := Option.some.inj e
      refine ⟨hk, o.column, ?_⟩
      change (p.winners.set o.cell o).get o.cell ≠ none
      rw [OrderedMap.get_set, if_pos rfl]
      exact Option.some_ne_none _
    · rintro ⟨hrow, -⟩
      obtain ⟨ht, hr⟩ := (rowKeyOf_eq_iff o).1 (hk.symm.trans hrow)
      rw [ht, hr]
  · rw [if_neg hk, h.changed]
    refine and_congr_right fun hrow => exists_congr fun column => ?_
    rw [OrderedMap.get_set, if_neg fun hc => hk ?_]
    obtain ⟨ht, hc⟩ := Prod.mk.inj hc
    rw [hrow, ht, (Prod.mk.inj hc).1]
    rfl

/-- **One turn of the pass.** -/
theorem Merged.step {p : Pending} {ops : List StoredOp} (h : Merged s p ops) (o : StoredOp) :
    Merged s (commitOp s p o) (ops ++ [o]) := by
  unfold commitOp
  by_cases hs : s.hasOp o.id = true
  · rw [if_pos hs]
    exact h.skip (.inl hs)
  · rw [if_neg hs]
    by_cases hf : p.fresh.any (·.id == o.id) = true
    · rw [if_pos hf]
      obtain ⟨f, hf, hid⟩ := List.any_eq_true.1 hf
      exact h.skip (.inr ⟨f, hf, eq_of_beq hid⟩)
    · rw [if_neg hf]
      -- the operation is new: what all the cases share
      have hnew : ∀ f ∈ p.fresh, f.id ≠ o.id := fun f hm hid =>
        hf (List.any_eq_true.2 ⟨f, hm, beq_iff_eq.2 hid⟩)
      have hview : (p.winners.get o.cell).or (s.getWinner o.table o.row o.column) =
          putAll cellScheme s.winner p.fresh o.cell := h.view o.cell
      have nodup : ((p.fresh ++ [o]).map fun o => o.id).Nodup := by
        rw [List.map_append, List.nodup_append]
        refine ⟨h.nodup, List.nodup_singleton _, fun a ha b hb => ?_⟩
        obtain ⟨f, hm, rfl⟩ := List.mem_map.1 ha
        rw [List.mem_singleton.1 hb]
        exact hnew f hm
      have notLogged : ∀ q ∈ p.fresh ++ [o], s.hasOp q.id = false := fun q hq => by
        rcases List.mem_append.1 hq with hq | hq
        · exact h.notLogged q hq
        · rw [List.mem_singleton.1 hq]
          exact Bool.eq_false_iff.2 hs
      have fresh : (p.fresh ++ [o]).Sublist (ops ++ [o]) := h.fresh.append (List.Sublist.refl _)
      have covered : ∀ q ∈ ops ++ [o], s.hasOp q.id = true ∨ ∃ f ∈ p.fresh ++ [o], f.id = q.id := by
        intro q hq
        rcases List.mem_append.1 hq with hq | hq
        · exact (h.covered q hq).imp_right fun ⟨f, hm, hid⟩ => ⟨f, List.mem_append_left _ hm, hid⟩
        · exact .inr ⟨o, List.mem_append_right _ List.mem_cons_self, by
            rw [List.mem_singleton.1 hq]⟩
      have frontier : (fun d : JsString => (advanceFrontier p.frontier o)[d]?) =
          putAll frontierScheme s.seen (p.fresh ++ [o]) := by
        rw [advanceFrontier_eq_put, h.frontier, putAll_concat]
      simp only [hview]
      by_cases hall : (putAll cellScheme s.winner p.fresh o.cell).all
          (fun c => decide (c.hlc < o.hlc)) = true
      · -- it outranks the winner so far
        have hlt : ∀ w, putAll cellScheme s.winner p.fresh o.cell = some w → w.hlc < o.hlc := by
          intro w hw
          rw [hw] at hall
          exact of_decide_eq_true hall
        rw [if_pos hall]
        refine ⟨nodup, notLogged, fresh, covered, fun c => ?_, fun {c q} hq => ?_, frontier,
          h.changed_set o⟩
        · rw [putAll_concat, put_of_outranks (L := cellScheme) hlt]
          change ((p.winners.set o.cell o).get c).or _ = if o.cell = c then some o else _
          rw [OrderedMap.get_set]
          by_cases hc : c = o.cell
          · rw [if_pos hc, if_pos hc.symm, Option.some_or]
          · rw [if_neg hc, if_neg (Ne.symm hc)]
            exact h.view c
        · change (p.winners.set o.cell o).get c = some q at hq
          rw [OrderedMap.get_set] at hq
          by_cases hc : c = o.cell
          · rw [if_pos hc] at hq
            obtain rfl := Option.some.inj hq
            refine ⟨List.mem_append_right _ List.mem_cons_self, hc.symm, fun w hw => ?_⟩
            rw [hc] at hw
            have hcur := h.view o.cell
            cases hp : p.winners.get o.cell with
            | none =>
              rw [hp, hw, Option.none_or] at hcur
              exact hlt w hcur.symm
            | some v =>
              rw [hp, Option.some_or] at hcur
              exact lt_trans ((h.beats hp).2.2 w hw) (hlt v hcur.symm)
          · rw [if_neg hc] at hq
            obtain ⟨hm, hcell, hlt⟩ := h.beats hq
            exact ⟨List.mem_append_left _ hm, hcell, hlt⟩
      · -- the winner so far stays
        obtain ⟨w, hw, hnot⟩ : ∃ w, putAll cellScheme s.winner p.fresh o.cell = some w ∧
            ¬w.hlc < o.hlc := by
          cases hw : putAll cellScheme s.winner p.fresh o.cell with
          | none => rw [hw] at hall; exact absurd rfl hall
          | some w => rw [hw] at hall; exact ⟨w, rfl, fun hlt => hall (decide_eq_true hlt)⟩
        rw [if_neg hall]
        refine ⟨nodup, notLogged, fresh, covered, fun c => ?_, fun hq => ?_, frontier, h.changed⟩
        · rw [putAll_concat, put_of_not_outranks (L := cellScheme) hw hnot]
          exact h.view c
        · obtain ⟨hm, hcell, hlt⟩ := h.beats hq
          exact ⟨List.mem_append_left _ hm, hcell, hlt⟩

theorem Merged.foldl {p : Pending} {done : List StoredOp} (h : Merged s p done)
    (ops : List StoredOp) : Merged s (ops.foldl (commitOp s) p) (done ++ ops) := by
  induction ops generalizing p done with
  | nil => rwa [List.append_nil]
  | cons o ops ih =>
    have hrest := ih (h.step o)
    rwa [List.append_assoc] at hrest

/-- **The whole pass.** -/
theorem merged_pending (s : MemoryAdapter) (ops : List StoredOp) :
    Merged s (pending s ops) ops := (Merged.nil s).foldl ops

/-- The store that `_commit` writes. -/
def committed (s : MemoryAdapter) (ops : List StoredOp) (clock : Hlc) : MemoryAdapter :=
  s.applyBatch ((pending s ops).batch clock)

/-- **The winners of the fresh operations take their cells.** -/
theorem winner_committed (ops : List StoredOp) (clock : Hlc) :
    (committed s ops clock).winner = putAll cellScheme s.winner (pending s ops).fresh :=
  funext fun c => (MemoryAdapter.winner_applyBatch s _ c).trans ((merged_pending s ops).view c)

theorem seen_committed (ops : List StoredOp) (clock : Hlc) :
    (committed s ops clock).seen = putAll frontierScheme s.seen (pending s ops).fresh :=
  (merged_pending s ops).frontier

/-- **The changes of the event are the rows with a new winner.** -/
theorem mem_changes {ops : List StoredOp} {clock : Hlc} {origin : Origin} {t r : JsString} :
    (t, r) ∈ ((pending s ops).event origin).changes ↔
      ∃ column, (committed s ops clock).winner (t, r, column) ≠ s.winner (t, r, column) := by
  have hm := merged_pending s ops
  change (t, r) ∈ (pending s ops).changed.values ↔ _
  rw [OrderedMap.mem_values]
  constructor
  · rintro ⟨k, hk⟩
    obtain ⟨-, column, hc⟩ := hm.changed.1 hk
    obtain ⟨o, ho⟩ := Option.ne_none_iff_exists'.1 hc
    refine ⟨column, fun e => ?_⟩
    rw [committed, MemoryAdapter.winner_applyBatch, Pending.batch, ho, Option.some_or] at e
    exact lt_irrefl _ ((hm.beats ho).2.2 o e.symm)
  · rintro ⟨column, hc⟩
    refine ⟨t ++ sep :: r, hm.changed.2 ⟨rfl, column, fun hn => hc ?_⟩⟩
    rw [committed, MemoryAdapter.winner_applyBatch, Pending.batch, hn, Option.none_or]

end SyncEngine

namespace MemoryAdapter

/-- The log after a batch of new operations. -/
theorem get_log_committed (ops : List StoredOp) (clock : Hlc) (k : JsString)
    (o : StoredOp) : (SyncEngine.committed s ops clock).log.get k = some o ↔
      s.log.get k = some o ∨ o ∈ (SyncEngine.pending s ops).fresh ∧ o.id = k := by
  have hm := SyncEngine.merged_pending s ops
  change ((SyncEngine.pending s ops).fresh.foldl (fun m o => m.set o.id o) s.log).get k = some o ↔ _
  rcases get_foldl_setOp (SyncEngine.pending s ops).fresh s.log k with ⟨hne, e⟩ | ⟨q, hq, hk, e⟩
  · rw [e]
    exact ⟨.inl, fun h => h.elim id fun h => absurd h.2 (hne o h.1)⟩
  · rw [e]
    constructor
    · intro h
      obtain rfl := Option.some.inj h
      exact .inr ⟨hq, hk⟩
    · rintro (h | ⟨ho, hid⟩)
      · have hnot := hm.notLogged q hq
        rw [hk, hasOp, h] at hnot
        cases hnot
      · exact congrArg some (List.inj_on_of_nodup_map hm.nodup hq ho (hk.trans hid.symm))

theorem logged_committed (ops : List StoredOp) (clock : Hlc) :
    (SyncEngine.committed s ops clock).logged = s.logged ∪ {o | o ∈ (SyncEngine.pending s ops).fresh} := by
  ext o
  rw [mem_logged, get_log_committed]
  exact or_congr_right (and_iff_left rfl)

/-- **A committed batch extends the ledger.** -/
theorem Ledger.commit {H : Set StoredOp} (h : s.Ledger H) (ops : List StoredOp) (clock : Hlc) :
    (SyncEngine.committed s ops clock).Ledger (H ∪ {o | o ∈ (SyncEngine.pending s ops).fresh}) where
  keyed := {
    ids := fun hk => ((get_log_committed ops clock _ _).1 hk).elim h.keyed.ids And.right
    cells := fun {c o} hc => by
      have e : ((SyncEngine.pending s ops).winners.get c).or (s.winner c) = some o :=
        (winner_applyBatch s _ c).symm.trans hc
      rcases Option.or_eq_some_iff.1 e with hp | ⟨-, hs⟩
      · exact ((SyncEngine.merged_pending s ops).beats hp).2.1
      · exact h.keyed.cells hs }
  cells := by
    rw [logged_committed, SyncEngine.winner_committed]
    exact h.cells.putAll _
  frontier := by
    rw [SyncEngine.seen_committed]
    exact h.frontier.putAll _
  logged := by
    rw [logged_committed]
    exact Set.union_subset_union_left _ h.logged

end MemoryAdapter

end TangentFeed.Dart
