import TangentFeed.Network.Coverage
import TangentFeed.Replica.Sample

/-!
# The compaction horizon

An operation at or below the horizon of a replica is at or below every frontier
it has recorded, and a recorded frontier is one the peer had. So the peer has
applied the operation or a later one on its cell, provided its frontier is
sound: that is, provided nothing was ever merged over a gap (`GapFree`). A lost
message of the live tail followed by one that arrives makes such a gap.
-/

namespace TangentFeed

open AntiEntropy Covering

/-- At or below what a frontier has of its device. -/
theorem aboveFrontier_eq_false {o : Op} {f : Frontier} (h : o.hlc ≤ f[o.device]?.getD zeroHlc) :
    aboveFrontier o f = false := by
  unfold aboveFrontier
  cases hf : f[o.device]? with
  | none => rw [hf] at h; exact absurd h o.not_hlc_le_zeroHlc
  | some seen =>
    rw [hf] at h
    exact decide_eq_false (not_lt.2 h)

namespace Config

variable {cr : Crypto} {ι : Type} {d : Deployment cr ι} {space : JsString}
  {w : Config ι}

/-- Whatever a compaction of a replica treats as at or below the horizon was
applied by every peer whose frontier it recorded, or is superseded there. -/
def HorizonSound (d : Deployment cr ι) (w : Config ι) : Prop :=
  ∀ i, ∀ o ∈ (w.node i).engine.storage.log, below (w.node i).engine.storage.horizon o = true →
    ∀ (p : JsString) (f : Frontier), (w.node i).engine.storage.peerFrontiers[p]? = some f →
      ∃ j, p = d.device j ∧ (o ∈ TangentFeed.applied w.trace j ∨
        ∃ q ∈ TangentFeed.applied w.trace j, q.cell = o.cell ∧ o.hlc < q.hlc)

/-- Sound frontiers make a sound horizon. -/
theorem Knowing.horizonSound (hk : Knowing superseding w) (hd : Sane d w) : HorizonSound d w := by
  intro i o ho hbelow p f hf
  have hissued := hd.issued i ((hd.base.consistent i).ledger.logged ho)
  have hle := (below_compactionHorizon.1 hbelow).2 hf
  obtain ⟨j, rfl, hw⟩ := hd.recorded hf
  obtain ⟨q, hq, hcell, hqle⟩ := hk j o hissued (hw.reaches (aboveFrontier_eq_false hle))
  refine ⟨j, rfl, ?_⟩
  rcases lt_or_eq_of_le hqle with hlt | heq
  · exact .inr ⟨q, hq, hcell, hlt⟩
  · have hid : o.id = q.id := by rw [o.id_eq_hlc, q.id_eq_hlc, heq]
    rw [hd.distinct o hissued q (hd.issued j hq) hid]
    exact .inl hq

variable [DecidableEq ι]

/-- **Without gaps the horizon is sound.** In an honest run in which every batch
that a replica's clock takes in has, or is preceded by, whatever was issued
before by the same devices, or something later on the same cell, whatever a
compaction treats as at or below the horizon was applied or superseded at every
peer whose frontier the replica recorded. -/
theorem horizon_sound_of_gapFree (d : Deployment cr ι) (space : JsString)
    {acts : List (Action ι)}
    (h : Runs.Along (step cr space) (fun w a => a.Honest ∧ GapFree superseding w a) d.initial acts) :
    HorizonSound d (Runs.run (step cr space) d.initial acts) :=
  (knowing_run h).2.horizonSound (knowing_run h).1

/-- One write that the other replica merges and acknowledges; the writer then
records its frontier. -/
def acknowledged : List (Action Bool) := [.start false, .start true, .resume false 0,
  .deliver true 0, Sample.write false Sample.row, .deliver true 1, .resume true 2,
  .resume true 2, .resume true 2, .deliver false 2, .resume false 1]

/-- The same with a first write whose message is lost. -/
def lostThenAcknowledged : List (Action Bool) := [.start false, .start true, .resume false 0,
  .deliver true 0, Sample.write false Sample.row, Sample.write false Sample.otherRow,
  .deliver true 2, .resume true 2, .resume true 2, .resume true 2, .deliver false 3,
  .resume false 1]

/-- After one acknowledged write the horizon has passed it. -/
theorem horizon_sound_of_gapFree_sample :
    (((Sample.after acknowledged).node false).engine.storage.allOps.any fun o =>
        below ((Sample.after acknowledged).node false).engine.storage.horizon o) = true ∧
      HorizonSound Sample.pair (Sample.after acknowledged) :=
  ⟨by decide +kernel, horizon_sound_of_gapFree Sample.pair Sample.space
    (gapFree_of_check (by decide +kernel))⟩

/-- **A lost message leaves a hole below the horizon.** The other replica has
only the second write, the frontier it acknowledges is past both, and so is the
horizon of the writer. -/
theorem horizon_unsound :
    (∀ a ∈ lostThenAcknowledged, a.Honest) ∧
      ¬ HorizonSound Sample.pair (Sample.after lostThenAcknowledged) := by
  have unsound (acts : List (Action Bool)) (i j : Bool)
      (lost : ∃ o ∈ ((Sample.after acts).node i).engine.storage.allOps,
        below ((Sample.after acts).node i).engine.storage.horizon o = true ∧
        (∃ x ∈ ((Sample.after acts).node i).engine.storage.peerFrontiers.toList,
          x.1 = Sample.pair.device j) ∧
        ∀ q ∈ appliedOps (Sample.after acts).trace j, q.row ≠ o.row) :
      ¬ HorizonSound Sample.pair (Sample.after acts) := by
    intro h
    obtain ⟨o, ho, hbelow, ⟨x, hx, hp⟩, hn⟩ := lost
    have hl := ((base_run Sample.pair Sample.space acts).consistent i).ledger
    obtain ⟨k, hk, hq⟩ := h i o (hl.keyed.mem_allOps.1 ho) hbelow x.1 x.2
      (Std.ExtTreeMap.mem_toList_iff_getElem?_eq_some.1 hx)
    obtain rfl := Sample.pair.device_injective (hp.symm.trans hk)
    rcases hq with hq | ⟨q, hq, hcell, -⟩
    · exact hn o (mem_appliedOps.2 hq) rfl
    · exact hn q (mem_appliedOps.2 hq) (congrArg (·.2.1) hcell)
  exact ⟨by decide, unsound _ false true (by decide +kernel)⟩

end Config

end TangentFeed
