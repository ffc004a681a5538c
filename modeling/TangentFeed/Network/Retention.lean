import TangentFeed.Network.Coverage
import TangentFeed.Replica.Convergence

/-!
# What the logs keep

A call keeps what the log knows, up to later operations on the same cell, except
for the rows a compaction reclaims whole. While none is reclaimed every log
knows all its replica applied (`Kept`), and when all logs know all that was
issued the replicas have the same cells.
-/

namespace TangentFeed

open AntiEntropy Covering Lww

variable {cr : Crypto}

namespace SyncEngine

variable {e e' : SyncEngine} {H : Set Op} {dd : Deed} {ev : Option ChangeEvent}

/-- What is committed is in the log. -/
theorem Consistent.committed_logged (hc : Consistent cr e H) (h : Effect cr e e' dd ev) :
    eventOps ev ⊆ e'.storage.log := by
  by_cases hd : ∃ opts, dd = .compact opts
  · obtain ⟨opts, rfl⟩ := hd
    cases h.store with
    | idle => rw [eventOps_none]; exact Set.empty_subset _
    | compacted => rw [eventOps_none]; exact Set.empty_subset _
  · rw [hc.log_effect h (not_exists.1 hd)]
    exact Set.subset_union_right

/-- **A call keeps what the log knows**, but for the rows it reclaims. -/
theorem Consistent.keeps (hc : Consistent cr e H) (h : Effect cr e e' dd ev) {o : Op}
    (hk : Knows superseding.feed e.storage.log o) :
    Knows superseding.feed e'.storage.log o ∨
      ∃ opts, dd = .compact opts ∧ opts.dryRun = false ∧ o.rowKey ∈ reclaims e.storage opts := by
  by_cases hd : ∃ opts, dd = .compact opts
  · obtain ⟨opts, rfl⟩ := hd
    cases h.store with
    | idle hs => rw [hs]; exact .inl hk
    | compacted hs =>
      rw [hs]
      by_cases hdry : opts.dryRun = true
      · rw [compactStorage_dryRun hdry]
        exact .inl hk
      · obtain ⟨p, hp, hcell, hle⟩ := hk
        have hl := hc.ledger
        obtain ⟨v, hv, hpv⟩ := hl.exists_winner hp
        have hvcell : v.cell = o.cell := (hl.keyed.cells hv).trans hcell
        by_cases hr : o.rowKey ∈ reclaims e.storage opts
        · exact .inr ⟨opts, rfl, by simpa using hdry, hr⟩
        · left
          refine ⟨v, ?_, hvcell, le_trans hle hpv⟩
          have hrow : v.rowKey = o.rowKey := congrArg rowOf hvcell
          rw [compactStorage_log hl.keyed hl.winnersLogged (by simpa using hdry), hrow]
          exact ⟨hl.winnersLogged hv, hr, fun _ => by rw [hvcell, ← hcell]; exact hv⟩
  · rw [hc.log_effect h (not_exists.1 hd)]
    exact .inl (hk.mono Set.subset_union_left)

end SyncEngine

/-- A log that knows all of `I` has the winners of `I`. -/
theorem MemoryAdapter.Ledger.winners_of_knows {s : MemoryAdapter} {H I : Set Op} (h : s.Ledger H)
    (hs : s.log ⊆ I) (hk : ∀ o ∈ I, Knows superseding.feed s.log o) :
    Tracks cellScheme I s.winner := h.cells.superset hs hk

namespace Config

open SyncEngine

variable {ι : Type} {d : Deployment cr ι} {space : JsString} {w w' : Config ι}
  {a : Action ι} {i j : ι}

/-- Every log knows what its replica applied, up to later operations. -/
def Kept (w : Config ι) : Prop :=
  ∀ j, ∀ o ∈ TangentFeed.applied w.trace j, Knows superseding.feed (w.node j).engine.storage.log o

theorem Kept.answerable (h : Kept w) : Answerable superseding w := fun j o ho => .inl (h j o ho)

variable [DecidableEq ι]

theorem Kept.step (h : Kept w) (hd : Sane d w) (hs : Shape cr space w a w')
    (ha : ∀ i opts, a = .call i (.compact opts) → opts.includeTombstones = false) : Kept w' := by
  intro j o ho
  have hc := hd.base.consistent j
  rcases hs.evolves j with ⟨r, he⟩ | ⟨_, _, _, hr⟩
  · obtain ⟨dd, heff, hcause⟩ := he.effect hd.base
    rw [he.applied] at ho
    rcases ho with ho | ho
    · rcases hc.keeps heff (h j o ho) with hk | ⟨opts, rfl, -, hrow⟩
      · exact hk
      · exact absurd hrow.1 (by rw [ha j opts (hcause.of_compact rfl)]; exact Bool.false_ne_true)
    · exact .of_mem (hc.committed_logged heff ho)
  · rw [hr.applied] at ho
    have e : (reopened (w.node j) _).engine.storage = (w.node j).engine.storage :=
      (hc.openOn hr.opened).2.2.2
    rw [hr.node, e]
    exact h j o ho

omit [DecidableEq ι] in
/-- **Equal cells.** Replicas whose logs know all that was issued have the same
tables. -/
theorem Sane.tables_eq (hd : Sane d w)
    (hk : ∀ j, ∀ o ∈ TangentFeed.issued w.trace,
      Knows superseding.feed (w.node j).engine.storage.log o) (i j : ι) :
    (w.node i).engine.storage.tables = (w.node j).engine.storage.tables := by
  have tracks (j : ι) : Tracks cellScheme (TangentFeed.issued w.trace)
      (w.node j).engine.storage.winner := by
    have hl := (hd.base.consistent j).ledger
    exact hl.winners_of_knows (hl.logged.trans (hd.issued j)) (hk j)
  refine (hd.base.consistent i).ledger.keyed.tables_eq (hd.base.consistent j).ledger.keyed ?_
  exact (tracks i).unique (separates_cells hd.distinct) (tracks j)

end Config

end TangentFeed
