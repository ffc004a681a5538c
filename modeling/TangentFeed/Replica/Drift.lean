import TangentFeed.Core.ClockRuns
import TangentFeed.Replica.Calls
import TangentFeed.Replica.Sample

/-!
# The drift limit

How far remote timestamps can move a clock, and which batches the drift check
refuses. A batch is checked by its greatest operation alone; the string order of
timestamps makes that the operation of greatest millis.
-/

namespace TangentFeed

variable {cr : Crypto}

/-- The physical part of an operation's timestamp. -/
def Op.millis (o : Op) : Nat :=
  match decodeHlc o.hlc with
  | .ok h => h.millis
  | .error _ => 0

theorem Op.millis_eq {o : Op} {h : Hlc} (e : decodeHlc o.hlc = .ok h) : o.millis = h.millis := by
  unfold millis
  rw [e]

theorem Op.millis_mono {o p : Op} (h : o.hlc ≤ p.hlc) : o.millis ≤ p.millis := by
  have hle := SyncEngine.ticks_le_of_hlc_le h
  obtain ⟨a, ha, hra, -⟩ := o.exists_hlc
  obtain ⟨b, hb, hrb, -⟩ := p.exists_hlc
  rw [ticks_eq ha, ticks_eq hb] at hle
  rw [millis_eq ha, millis_eq hb]
  have hca := hra.counter
  have hcb := hrb.counter
  unfold Hlc.ticks at hle
  unfold maxCounter at hca hcb
  omega

theorem HybridLogicalClock.checked_ne_drift (c : HybridLogicalClock) {r : Nat} {pt : Int} :
    c.checked ≠ .error (.drift r pt) := by
  unfold checked
  split <;> nofun

namespace SyncEngine

variable {e : SyncEngine}

/-- The physical reading the next move of the clock finds. -/
def reading (e : SyncEngine) : Int := e.env.physicalClock e.asked

theorem receiveClock_drift {remote : Hlc} :
    (∃ r, (e.receiveClock remote).1 = .error (.drift r e.reading)) ↔
      e.reading + maxDriftMs < remote.millis := by
  constructor
  · rintro ⟨r, h⟩
    by_contra hle
    unfold reading at hle
    simp only [receiveClock, HybridLogicalClock.receive, if_neg hle] at h
    exact HybridLogicalClock.checked_ne_drift _ h
  · intro hlt
    refine ⟨remote.millis, ?_⟩
    unfold reading at hlt
    simp only [receiveClock, HybridLogicalClock.receive]
    rw [if_pos hlt]
    rfl

/-- **The greatest operation decides for the batch.** -/
theorem receiveMax_drift {ops : List Op} :
    (∃ r, (e.receiveMax ops).1 = .error (.drift r e.reading)) ↔
      ∃ o ∈ ops, e.reading + maxDriftMs < o.millis := by
  rcases maxOp_spec ops with ⟨hm, rfl⟩ | ⟨m, hm, hmem, hmax⟩
  · unfold receiveMax
    rw [hm]
    constructor
    · rintro ⟨r, h⟩
      cases h
    · rintro ⟨o, ho, -⟩
      cases ho
  · obtain ⟨h, hd, -⟩ := m.exists_hlc
    have hr : (e.receiveMax ops).1 = (e.receiveClock h).1.map fun _ => () := by
      unfold receiveMax
      rw [hm]
      simp only [hd]
    have hdrift : (∃ r, (e.receiveMax ops).1 = .error (.drift r e.reading)) ↔
        ∃ r, (e.receiveClock h).1 = .error (.drift r e.reading) := by
      rw [hr]
      cases (e.receiveClock h).1 <;> simp [Except.map]
    rw [hdrift, receiveClock_drift, ← Op.millis_eq hd]
    constructor
    · exact fun hlt => ⟨m, hmem, hlt⟩
    · rintro ⟨o, ho, hlt⟩
      have hle := Op.millis_mono (hmax o ho)
      omega

/-- What the rest of the merge rejects with is not the clock's. -/
theorem mergeAdmitted_clock {ops : List Op} {err : HlcError} :
    (e.mergeAdmitted ops).result = .error (.clock err) ↔ (e.receiveMax ops).1 = .error err := by
  unfold mergeAdmitted
  generalize e.receiveMax ops = received
  obtain ⟨r, m⟩ := received
  cases r with
  | error err' => simp [Reply.quiet]
  | ok u =>
    simp only [reduceCtorEq, iff_false]
    split
    · rcases m.transact_cases (m.storage.applyBatch m.clockBatch) with ht | ht <;> rw [ht] <;>
        simp [Reply.map, Reply.quiet, Except.map]
    · rcases m.commit_cases (freshOps m.storage ops) .remote with ht | ht
      · rw [ht]
        simp [Reply.map, Reply.quiet, Except.map]
      · rw [ht]
        simp only [Reply.map]
        split <;> simp [Except.map]

end SyncEngine

open SyncEngine in
/-- **No remote drags the clock beyond the drift limit.** After `k` calls that
returned, on readings up to `bound` and with any remotes, the clock is at most
`k` ticks past the greater of its first value and the drift limit. And the drift
check refuses a batch exactly when some operation of it is beyond the limit. -/
theorem drift_limit (cr : Crypto) (c c' : HybridLogicalClock) (calls : List ClockCall) (bound : Int)
    (hs : List Hlc)
    (hcalls : ∀ a ∈ calls, a.reading ≤ bound ∧ ∀ r, a.remote = some r → r.counter ≤ maxCounter)
    (hrun : c.runCalls calls = .ok (hs, c')) (e : SyncEngine) (remoteOps : List Json) :
    (c'.ticks : Int) ≤ max (c.ticks : Int) ((bound + maxDriftMs + 1) * 65536) + calls.length ∧
      ((∃ r, (e.applyRemoteOps cr remoteOps).result = .error (.clock (.drift r e.reading))) ↔
        ∃ ops, e.checkBatch cr remoteOps = .ok ops ∧
          ∃ o ∈ ops, e.reading + maxDriftMs < o.millis) := by
  refine ⟨HybridLogicalClock.runCalls_ticks_le hcalls hrun, ?_⟩
  unfold applyRemoteOps
  cases hb : e.checkBatch cr remoteOps with
  | error err =>
    constructor
    · rintro ⟨r, h⟩
      -- the checks made before the lock never report the clock
      obtain rfl : err = .clock (.drift r e.reading) := Except.error.inj h
      unfold checkBatch at hb
      split at hb
      · cases hb
      · split at hb
        · cases hb
        · split at hb <;> cases hb
    · rintro ⟨ops, h, -⟩
      cases h
  | ok ops =>
    simp only [mergeAdmitted_clock]
    rw [receiveMax_drift]
    constructor
    · exact fun h => ⟨ops, rfl, h⟩
    · rintro ⟨ops', h', h⟩
      obtain rfl := Except.ok.inj h'
      exact h

/-- A remote at the limit moves the clock five minutes ahead of the reading, and a
second one a tick further; the batch of another device is within the limit. -/
theorem drift_limit_sample :
    let dev : JsString := List.replicate 32 0x61
    (HybridLogicalClock.ticks ⟨301000, 2, dev⟩ : Int) ≤
        max (HybridLogicalClock.ticks ⟨0, 0, dev⟩ : Int) ((1000 + maxDriftMs + 1) * 65536) + 2 ∧
      ((∃ r, ((Sample.reader 2 [1]).applyRemoteOps plainCrypto (Sample.sent 1)).result =
          .error (.clock (.drift r (Sample.reader 2 [1]).reading))) ↔
        ∃ ops, (Sample.reader 2 [1]).checkBatch plainCrypto (Sample.sent 1) = .ok ops ∧
          ∃ o ∈ ops, (Sample.reader 2 [1]).reading + maxDriftMs < o.millis) := by
  intro dev
  refine drift_limit plainCrypto ⟨0, 0, dev⟩ ⟨301000, 2, dev⟩
    [.receive ⟨301000, 0, dev⟩ 1000, .now 1000] 1000 [⟨301000, 1, dev⟩, ⟨301000, 2, dev⟩] ?_ ?_ _ _
  · intro a ha
    simp only [List.mem_cons, List.not_mem_nil, or_false] at ha
    rcases ha with rfl | rfl
    · exact ⟨by decide, by rintro r ⟨⟩; decide⟩
    · exact ⟨by decide, nofun⟩
  · decide +kernel

end TangentFeed
