import TangentFeed.Replica.Run

/-!
# Winners of all that was applied

A compaction that does not reclaim rows takes no winner. As long as no other is run,
the winners are the greatest of all operations ever applied, those that were
compacted away included.
-/

namespace TangentFeed

open Lww

variable {cr : Crypto}

/-- Anything but a compaction that may reclaim rows. -/
def SyncEngine.Deed.KeepsRows : SyncEngine.Deed → Prop
  | .compact opts => opts.includeTombstones = false
  | .write | .record .. => True

def Replica.Action.KeepsRows : Replica.Action → Prop
  | .call c => c.deed.KeepsRows
  | .reopen .. => True

/-- A compaction that does not reclaim rows leaves the winners. -/
theorem winner_compactStorage_of_keeps {s : MemoryAdapter} (hk : s.Keyed) {opts : CompactionOptions}
    (h : opts.includeTombstones = false) : (compactStorage s opts).1.winner = s.winner := by
  by_cases hd : opts.dryRun = true
  · rw [compactStorage_dryRun hd]
  · funext c
    refine Option.ext fun w => ?_
    rw [compactStorage_winner_eq_some hk (Bool.eq_false_iff.2 hd)]
    exact and_iff_left fun hr => Bool.false_ne_true (h.symm.trans hr.1)

namespace SyncEngine

variable {e e' : SyncEngine} {H : Set Op} {d : Deed} {ev : Option ChangeEvent}

/-- What a call leaves of the winners. -/
theorem Consistent.tracks_effect (hc : Consistent cr e H)
    (ht : Tracks cellScheme H e.storage.winner) (h : Effect cr e e' d ev) (hd : d.KeepsRows) :
    Tracks cellScheme (H ∪ eventOps ev) e'.storage.winner := by
  cases h.store with
  | idle hs => rwa [eventOps_none, Set.union_empty, hs]
  | clockSaved hs =>
    rw [eventOps_none, Set.union_empty, hs]
    exact ht
  | peerSaved hs =>
    rw [eventOps_none, Set.union_empty, hs]
    exact ht
  | compacted hs =>
    rw [eventOps_none, Set.union_empty, hs, winner_compactStorage_of_keeps hc.ledger.keyed hd]
    exact ht
  | @committed ops origin hs hb =>
    rw [eventOps_some, hs, winner_commit hc.ledger.keyed]
    exact ht.putAll ops

end SyncEngine

namespace Replica

theorem tracks_step {r : Replica} (hc : r.Consistent cr)
    (ht : Tracks cellScheme r.applied r.engine.storage.winner) {a : Action} (ha : a.KeepsRows) :
    Tracks cellScheme (r.step cr a).applied (r.step cr a).engine.storage.winner := by
  cases a with
  | call c =>
    unfold Replica.step
    rw [applied_append (e := r.engine)]
    exact SyncEngine.Consistent.tracks_effect hc ht (c.run_effect hc.identity) ha
  | reopen opts seed =>
    unfold Replica.step
    cases ho : SyncEngine.openOn cr opts r.engine.storage seed with
    | error err =>
      simp only [ho]
      exact ht
    | ok e =>
      simp only [ho, (SyncEngine.Consistent.openOn hc ho).2.2.2]
      exact ht

/-- **The winners are those of all that was applied.** -/
theorem tracks_run (cr : Crypto) (opts : EngineOptions) (seed : Nat) {acts : List Action}
    (h : ∀ a ∈ acts, a.KeepsRows) :
    Tracks cellScheme (Runs.run (step cr) (start cr opts seed) acts).applied
      (Runs.run (step cr) (start cr opts seed) acts).engine.storage.winner := by
  have key : ∀ (acts : List Action) (r : Replica), (∀ a ∈ acts, a.KeepsRows) → r.Consistent cr →
      Tracks cellScheme r.applied r.engine.storage.winner →
      Tracks cellScheme (Runs.run (step cr) r acts).applied
        (Runs.run (step cr) r acts).engine.storage.winner := by
    intro acts
    induction acts with
    | nil => exact fun r _ _ ht => ht
    | cons a acts ih =>
      intro r h hc ht
      obtain ⟨ha, h⟩ := List.forall_mem_cons.1 h
      exact ih (r.step cr a) h (hc.step a) (tracks_step hc ht ha)
  refine key acts _ h (consistent_start opts seed) (Tracks.empty.congr ?_ ?_)
  · exact Set.eq_empty_iff_forall_notMem.2 fun o ⟨_, hm, _⟩ => nomatch hm
  · exact funext fun c => MemoryAdapter.winner_empty c

end Replica

end TangentFeed
