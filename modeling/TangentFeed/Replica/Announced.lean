import TangentFeed.Replica.Told

/-!
# What events announce

The event of a committed batch names the rows of its operations, and a call changes
what is read of no other row. So whoever reads again the rows that an event names,
and only these, always has what a full read would return (`rows_announced`).
-/

namespace TangentFeed

variable {cr : Crypto}

namespace SyncEngine

variable {e : SyncEngine} {table row : JsString}

/-! ## The rows of a batch -/

theorem nodup_eraseDups {α : Type} [BEq α] [LawfulBEq α] (l : List α) : l.eraseDups.Nodup := by
  induction hn : l.length using Nat.strong_induction_on generalizing l with
  | _ n ih =>
    cases l with
    | nil => exact List.nodup_nil
    | cons a l =>
      rw [List.eraseDups_cons, List.nodup_cons]
      refine ⟨fun ha => ?_, ih _ ?_ _ rfl⟩
      · rw [List.mem_eraseDups, List.mem_filter] at ha
        simp at ha
      · rw [← hn]
        exact Nat.lt_succ_of_le (List.length_filter_le _ _)

/-- The parts of a row key, as `commit` takes them. -/
theorem parts_rowKeyOf (o : Op) :
    ((splitSep (rowKeyOf o))[0]?.getD [], (splitSep (rowKeyOf o))[1]?.getD []) =
      (o.table, o.row) := by
  have htable : sep ∉ o.table := o.legal.table
  have hrow : sep ∉ o.row := o.legal.row
  unfold rowKeyOf
  rw [splitSep_append htable, splitSep_of_not_mem hrow]
  rfl

theorem mem_changesOf_iff {ops : List Op} :
    (table, row) ∈ changesOf ops ↔ ∃ o ∈ ops, o.table = table ∧ o.row = row := by
  constructor
  · intro h
    obtain ⟨key, hkey, hparts⟩ := List.mem_map.1 h
    obtain ⟨o, ho, rfl⟩ := List.mem_map.1 (List.mem_eraseDups.1 hkey)
    simp only [parts_rowKeyOf] at hparts
    obtain ⟨ht, hr⟩ := Prod.mk.inj hparts
    exact ⟨o, ho, ht, hr⟩
  · rintro ⟨o, ho, rfl, rfl⟩
    exact mem_changesOf ho

theorem nodup_changesOf (ops : List Op) : (changesOf ops).Nodup := by
  refine List.Nodup.map_on (fun k hk k' hk' h => ?_) (nodup_eraseDups _)
  obtain ⟨o, -, rfl⟩ := List.mem_map.1 (List.mem_eraseDups.1 hk)
  obtain ⟨o', -, rfl⟩ := List.mem_map.1 (List.mem_eraseDups.1 hk')
  simp only [parts_rowKeyOf] at h
  obtain ⟨ht, hr⟩ := Prod.mk.inj h
  unfold rowKeyOf
  rw [ht, hr]

/-! ## One call -/

/-- **A call changes what is read of the rows of its event only.** -/
theorem Consistent.get_call {H : Set Op} (hc : Consistent cr e H) (c : Call)
    (h : ∀ ev, (c.run cr e).event = some ev → (table, row) ∉ ev.changes) :
    (c.run cr e).engine.get table row = e.get table row := by
  have heff := c.run_effect hc.identity
  have hnext := (hc.effect heff).ledger.keyed
  generalize (c.run cr e).engine = e' at heff hnext ⊢
  generalize (c.run cr e).event = ev at heff h
  generalize c.deed = d at heff
  have same (ht : e'.storage.tables = e.storage.tables) : e'.get table row = e.get table row :=
    congrFun (congrFun (get_congr ht heff.cipher) table) row
  cases heff.store with
  | idle hs => exact same (by rw [hs])
  | clockSaved hs => exact same (by rw [hs])
  | peerSaved hs => exact same (by rw [hs]; rfl)
  | @compacted opts hs =>
    have hget := get_compactStorage hc.ledger.keyed (hc.ledger.compact opts).keyed e' hs heff.cipher
    exact congrFun (congrFun hget table) row
  | @committed ops origin hs hb =>
    refine get_of_winners hnext hc.ledger.keyed heff.cipher fun column => ?_
    rw [hs, winner_commit hc.ledger.keyed]
    refine Lww.putAll_of_ne fun o ho hcell => h _ rfl (mem_changesOf_iff.2 ⟨o, ho, ?_, ?_⟩)
    · exact congrArg Prod.fst hcell
    · exact congrArg (·.2.1) hcell

/-- What an event says of the call that committed it. -/
structure Announces (e e' : SyncEngine) (ev : ChangeEvent) : Prop where
  /-- The changes are the rows of the operations, each once. -/
  changes : ∀ table row,
    (table, row) ∈ ev.changes ↔ ∃ o ∈ ev.ops, o.table = table ∧ o.row = row
  distinct : ev.changes.Nodup
  /-- The operations are those new in the log, each once. -/
  ops : ∀ o, o ∈ ev.ops ↔ o ∈ e'.storage.log ∧ o ∉ e.storage.log
  once : (ev.ops.map Op.id).Nodup

theorem Consistent.announces {H : Set Op} (hc : Consistent cr e H) (c : Call) {ev : ChangeEvent}
    (hev : (c.run cr e).event = some ev) : Announces e (c.run cr e).engine ev := by
  have heff := c.run_effect hc.identity
  rw [hev] at heff
  generalize (c.run cr e).engine = e' at heff ⊢
  generalize c.deed = d at heff
  cases heff.store with
  | @committed ops origin hs hb =>
    have hn := hc.new_of_batch hb
    refine ⟨fun _ _ => mem_changesOf_iff, nodup_changesOf ops, fun o => ?_, hn.nodup⟩
    rw [hs, log_commit hc.ledger.keyed hn]
    refine ⟨fun ho => ⟨.inr ho, fun hlog => ?_⟩, fun ⟨h, hnot⟩ => h.resolve_left hnot⟩
    have hno := hn.notLogged o ho
    rw [hc.ledger.keyed.hasOp_iff.2 ⟨o, hlog, rfl⟩] at hno
    cases hno

end SyncEngine

/-! ## A view that follows the events -/

/-- What is shown of every row; `none` where the read rejects. -/
abbrev View := JsString → JsString → Option (Option SyncEngine.RowData)

/-- Read again the rows that the event names. -/
def View.refresh (view : View) (e : SyncEngine) (ev : Option ChangeEvent) : View :=
  fun table row =>
    if ev.any fun event => decide ((table, row) ∈ event.changes) then e.get table row
    else view table row

/-- An engine and whoever follows its events. -/
structure Followed where
  engine : SyncEngine
  view : View

def Followed.step (cr : Crypto) (f : Followed) (c : Call) : Followed :=
  ⟨(c.run cr f.engine).engine, f.view.refresh (c.run cr f.engine).engine (c.run cr f.engine).event⟩

/-- A view that shows every row keeps doing so. -/
theorem SyncEngine.Consistent.refresh {e : SyncEngine} {H : Set Op} (hc : Consistent cr e H)
    (c : Call) : View.refresh e.get (c.run cr e).engine (c.run cr e).event =
      (c.run cr e).engine.get := by
  funext table row
  unfold View.refresh
  split
  · rfl
  · rename_i h
    refine (hc.get_call c fun ev hev hmem => h ?_).symm
    rw [hev]
    exact decide_eq_true hmem

/-- The invariant of whoever follows the events. -/
structure Followed.Current (cr : Crypto) (f : Followed) : Prop where
  consistent : ∃ H, SyncEngine.Consistent cr f.engine H
  view : f.view = f.engine.get

theorem Followed.Current.step {f : Followed} (h : f.Current cr) (c : Call) :
    (f.step cr c).Current cr := by
  obtain ⟨H, hc⟩ := h.consistent
  refine ⟨⟨_, hc.effect (c.run_effect hc.identity)⟩, ?_⟩
  unfold Followed.step
  rw [h.view]
  exact hc.refresh c

/-- **Events announce every change.** In every state a replica reaches, whatever calls follow: a
row that a call makes read otherwise is among the changes of the event it committed; the
changes of an event are the rows of its operations, each once, and these are what is new in
the log; and a view that reads again the rows of each event, and nothing else, shows after
any number of calls what `get` returns. -/
theorem Replica.rows_announced (cr : Crypto) (opts : EngineOptions) (seed : Nat)
    (acts : List Replica.Action) :
    let e := (Runs.run (Replica.step cr) (Replica.start cr opts seed) acts).engine
    (∀ (c : Call) (table row : JsString), (c.run cr e).engine.get table row ≠ e.get table row →
      ∃ ev, (c.run cr e).event = some ev ∧ (table, row) ∈ ev.changes) ∧
    (∀ (c : Call) ev, (c.run cr e).event = some ev →
      SyncEngine.Announces e (c.run cr e).engine ev) ∧
    ∀ calls : List Call, (Runs.run (Followed.step cr) ⟨e, e.get⟩ calls).view =
      (Runs.run (Followed.step cr) ⟨e, e.get⟩ calls).engine.get := by
  intro e
  have hc : SyncEngine.Consistent cr e _ := Replica.consistent_run cr opts seed acts
  refine ⟨fun c table row hne => ?_, fun c ev hev => hc.announces c hev, fun calls => ?_⟩
  · by_contra hno
    push Not at hno
    exact hne (hc.get_call c hno)
  · have hstart : Followed.Current cr ⟨e, e.get⟩ := ⟨⟨_, hc⟩, rfl⟩
    exact (Runs.run_invariant (fun _ c h => h.step c) hstart calls).view

end TangentFeed
