import TangentFeed.Core.Hlc

/-!
# Runs of the clock

A sequence of `now` and `receive` calls on one clock, up to the first that
throws. Each call that returns leaves the clock later than before and later than
what it received, and at most one tick past the greater of its old value and the
drift limit. The last section is about the calls that throw.
-/

namespace TangentFeed

/-- A call of the clock, with the physical reading it finds. -/
inductive ClockCall where
  | now (reading : Int)
  | receive (remote : Hlc) (reading : Int)
  deriving DecidableEq, Repr

def ClockCall.reading : ClockCall → Int
  | now pt => pt
  | receive _ pt => pt

/-- The timestamp the call observes. -/
def ClockCall.remote : ClockCall → Option Hlc
  | now _ => none
  | receive r _ => some r

/-- The order of timestamps without their devices. -/
def Hlc.Before (a b : Hlc) : Prop := a.millis < b.millis ∨ a.millis = b.millis ∧ a.counter < b.counter

instance (a b : Hlc) : Decidable (a.Before b) :=
  inferInstanceAs (Decidable (_ ∨ _))

theorem Hlc.before_iff {a b : Hlc} (ha : a.counter ≤ maxCounter) (hb : b.counter ≤ maxCounter) :
    a.Before b ↔ a.ticks < b.ticks := by
  unfold maxCounter at ha hb
  unfold Hlc.Before Hlc.ticks
  omega

theorem Hlc.InRange.isHlcString {h : Hlc} (hr : h.InRange) : isHlcString (encodeHlc h) = true := by
  have hd := hr.device
  simp only [isValidDeviceId, Bool.and_eq_true, beq_iff_eq] at hd
  rw [encodeHlc_eq hr, isHlcString_split (length_hexFixed ..) (length_hexFixed ..), hd.1, hd.2,
    all_isLowerHex_hexFixed, all_isLowerHex_hexFixed]
  rfl

namespace HybridLogicalClock

def call (c : HybridLogicalClock) : ClockCall → Except HlcError Hlc × HybridLogicalClock
  | .now pt => c.now pt
  | .receive r pt => c.receive r pt

/-- The calls in turn: what they returned and the clock they leave, or what the
first that throws threw. -/
def runCalls (c : HybridLogicalClock) :
    List ClockCall → Except HlcError (List Hlc × HybridLogicalClock)
  | [] => .ok ([], c)
  | a :: rest =>
    match (c.call a).1 with
    | .error err => .error err
    | .ok h => ((c.call a).2.runCalls rest).map fun r => (h :: r.1, r.2)

variable {c c' : HybridLogicalClock} {a : ClockCall} {h : Hlc} {calls : List ClockCall}
  {hs : List Hlc}

theorem runCalls_cons (e : c.runCalls (a :: calls) = .ok (hs, c')) :
    ∃ h hs', (c.call a).1 = .ok h ∧ (c.call a).2.runCalls calls = .ok (hs', c') ∧ hs = h :: hs' := by
  rw [runCalls] at e
  split at e
  · cases e
  · rename_i h hh
    cases hr : (c.call a).2.runCalls calls with
    | error err => rw [hr] at e; cases e
    | ok r =>
      rw [hr] at e
      obtain ⟨rfl, rfl⟩ := Prod.mk.inj (Except.ok.inj e)
      exact ⟨h, r.1, hh, rfl, rfl⟩

/-! ## One call -/

theorem call_eq_ok (e : (c.call a).1 = .ok h) :
    h = (c.call a).2.state ∧ (c.call a).2.millis ≤ maxMillis := by
  cases a with
  | now pt => exact now_eq_ok e
  | receive r pt =>
    simp only [call, receive] at e ⊢
    split at e
    · cases e
    · rename_i hd
      rw [if_neg hd]
      exact checked_eq_ok e

/-- What a call that returns leaves. -/
theorem call_spec (hc : c.Bounded) (hr : ∀ r, a.remote = some r → r.counter ≤ maxCounter)
    (e : (c.call a).1 = .ok h) :
    (c.call a).2.Bounded ∧ (c.call a).2.deviceId = c.deviceId ∧ c.ticks < (c.call a).2.ticks ∧
      ∀ r, a.remote = some r → r.ticks < (c.call a).2.ticks := by
  cases a with
  | now pt =>
    obtain ⟨hlt, hb, hd⟩ := now_spec hc pt
    exact ⟨hb, hd, hlt, fun r hr => by cases hr⟩
  | receive r pt =>
    obtain ⟨-, hb, hd, hok⟩ := receive_spec hc (hr r rfl) pt
    obtain ⟨hlt, hrem, -⟩ := hok h e
    refine ⟨hb, hd, hlt, fun r' hr' => ?_⟩
    obtain rfl := Option.some.inj hr'
    exact hrem

theorem ticks_rollover_le (c : HybridLogicalClock) : c.rollover.ticks ≤ c.ticks := by
  unfold rollover
  split
  · simp only [ticks, state, Hlc.ticks]; unfold maxCounter at *; omega
  · exact Nat.le_refl _

/-- A call moves the clock at most one tick past where it was and past the drift
limit of its reading. -/
theorem call_ticks_le {bound : Int} (hp : a.reading ≤ bound)
    (hr : ∀ r, a.remote = some r → r.counter ≤ maxCounter) (e : (c.call a).1 = .ok h) :
    ((c.call a).2.ticks : Int) ≤ max (c.ticks : Int) ((bound + maxDriftMs + 1) * 65536) + 1 := by
  unfold maxDriftMs
  cases a with
  | now pt =>
    simp only [ClockCall.reading] at hp
    simp only [call, now]
    split
    · simp only [ticks, state, Hlc.ticks]; omega
    · have hle := ticks_rollover_le { c with counter := c.counter + 1 }
      simp only [ticks, state, Hlc.ticks] at hle ⊢
      omega
  | receive r pt =>
    have hrc := hr r rfl
    simp only [ClockCall.reading] at hp
    simp only [call, receive] at e ⊢
    split at e
    · cases e
    · rename_i hd
      rw [if_neg hd]
      generalize hm : max (max c.millis r.millis) pt.toNat = m
      generalize hn : (if m = c.millis ∧ m = r.millis then max c.counter r.counter + 1
        else if m = c.millis then c.counter + 1
        else if m = r.millis then r.counter + 1
        else 0) = n
      have hle := ticks_rollover_le { c with millis := m, counter := n }
      unfold maxCounter at hrc
      unfold maxDriftMs at hd
      simp only [ticks, state, Hlc.ticks] at hle ⊢
      -- the new millis are the clock's own, the remote's or the reading
      split_ifs at hn <;> omega

/-! ## Runs -/

theorem length_runCalls (e : c.runCalls calls = .ok (hs, c')) : hs.length = calls.length := by
  induction calls generalizing c hs with
  | nil =>
    obtain ⟨rfl, -⟩ := Prod.mk.inj (Except.ok.inj e)
    rfl
  | cons a calls ih =>
    obtain ⟨h, hs', -, hrest, rfl⟩ := runCalls_cons e
    rw [List.length_cons, List.length_cons, ih hrest]

/-- Every call of a run adds at most one tick to the potential. -/
theorem runCalls_ticks_le {bound : Int}
    (hcalls : ∀ a ∈ calls, a.reading ≤ bound ∧ ∀ r, a.remote = some r → r.counter ≤ maxCounter)
    (e : c.runCalls calls = .ok (hs, c')) :
    (c'.ticks : Int) ≤ max (c.ticks : Int) ((bound + maxDriftMs + 1) * 65536) + calls.length := by
  induction calls generalizing c hs with
  | nil =>
    obtain ⟨-, rfl⟩ := Prod.mk.inj (Except.ok.inj e)
    simp only [List.length_nil]
    omega
  | cons a calls ih =>
    obtain ⟨h, hs', ha, hrest, rfl⟩ := runCalls_cons e
    obtain ⟨hp, hr⟩ := hcalls a List.mem_cons_self
    have hstep := call_ticks_le hp hr ha
    have hrun := ih (fun b hb => hcalls b (List.mem_cons_of_mem _ hb)) hrest
    rw [List.length_cons]
    omega

/-- What the calls of a run return is in range, later than the clock it started
from and in increasing order. -/
theorem runCalls_spec (hc : c.Bounded) (hd : isValidDeviceId c.deviceId = true)
    (hr : ∀ a ∈ calls, ∀ r, a.remote = some r → r.counter ≤ maxCounter)
    (e : c.runCalls calls = .ok (hs, c')) :
    c'.Bounded ∧ (∀ h ∈ hs, h.InRange ∧ h.deviceId = c.deviceId ∧ c.ticks < h.ticks) ∧
      hs.Pairwise fun a b => a.ticks < b.ticks := by
  induction calls generalizing c hs with
  | nil =>
    obtain ⟨rfl, rfl⟩ := Prod.mk.inj (Except.ok.inj e)
    exact ⟨hc, nofun, .nil⟩
  | cons a calls ih =>
    obtain ⟨h, hs', ha, hrest, rfl⟩ := runCalls_cons e
    obtain ⟨hb, hdev, hlt, -⟩ := call_spec hc (hr a List.mem_cons_self) ha
    obtain ⟨rfl, hm⟩ := call_eq_ok ha
    have hin : (c.call a).2.state.InRange := state_inRange hb hm (hdev ▸ hd)
    obtain ⟨hb', hmem, hpw⟩ :=
      ih hb (hdev ▸ hd) (fun b hb => hr b (List.mem_cons_of_mem _ hb)) hrest
    refine ⟨hb', ?_, .cons (fun h hh => (hmem h hh).2.2) hpw⟩
    rintro h (_ | ⟨_, hh⟩)
    · exact ⟨hin, hdev, hlt⟩
    · obtain ⟨h1, h2, h3⟩ := hmem h hh
      exact ⟨h1, h2.trans hdev, hlt.trans h3⟩

/-- What a call received is before everything returned from then on. -/
theorem runCalls_received (hc : c.Bounded)
    (hr : ∀ a ∈ calls, ∀ r, a.remote = some r → r.counter ≤ maxCounter)
    (hd : isValidDeviceId c.deviceId = true)
    (e : c.runCalls calls = .ok (hs, c')) {i j : Nat} (hij : i ≤ j) {r : Hlc} {pt : Int} {h : Hlc}
    (hi : calls[i]? = some (.receive r pt)) (hj : hs[j]? = some h) : r.ticks < h.ticks := by
  induction calls generalizing c hs i j with
  | nil => cases hi
  | cons a calls ih =>
    obtain ⟨h', hs', ha, hrest, rfl⟩ := runCalls_cons e
    obtain ⟨hb, hdev, hlt, hrem⟩ := call_spec hc (hr a List.mem_cons_self) ha
    have hr' : ∀ b ∈ calls, ∀ r, b.remote = some r → r.counter ≤ maxCounter :=
      fun b hb => hr b (List.mem_cons_of_mem _ hb)
    cases i with
    | zero =>
      obtain rfl : a = .receive r pt := by simpa using hi
      have hlt' := hrem r rfl
      cases j with
      | zero =>
        obtain rfl : h' = h := by simpa using hj
        rw [(call_eq_ok ha).1]
        exact hlt'
      | succ j =>
        obtain ⟨-, hmem, -⟩ := runCalls_spec hb (hdev ▸ hd) hr' hrest
        exact hlt'.trans (hmem h (List.mem_of_getElem? (by simpa using hj))).2.2
    | succ i =>
      cases j with
      | zero => omega
      | succ j =>
        rw [List.getElem?_cons_succ] at hi hj
        exact ih hb hr' (hdev ▸ hd) hrest (by omega) hi hj

/-- **The clock is strictly increasing and past what it observed.** While no call
throws, whatever the physical readings: every call returns a timestamp with a
canonical string, greater as a string than all returned before it and past every
timestamp received so far. -/
theorem runCalls_increasing (c : HybridLogicalClock) (hc : c.counter ≤ maxCounter)
    (hd : isValidDeviceId c.deviceId = true) (calls : List ClockCall)
    (hr : ∀ a ∈ calls, ∀ r, a.remote = some r → ∃ s, decodeHlc s = .ok r) (hs : List Hlc)
    (c' : HybridLogicalClock) (e : c.runCalls calls = .ok (hs, c')) :
    hs.length = calls.length ∧ c'.counter ≤ maxCounter ∧
      (∀ h ∈ hs, isHlcString (encodeHlc h) = true ∧ h.counter ≤ maxCounter) ∧
      (hs.Pairwise fun a b => encodeHlc a < encodeHlc b) ∧
      ∀ (i j : Nat) (r : Hlc) (pt : Int) (h : Hlc), i ≤ j → calls[i]? = some (.receive r pt) →
        hs[j]? = some h → r.Before h := by
  have hr' : ∀ a ∈ calls, ∀ r, a.remote = some r → r.counter ≤ maxCounter := by
    intro a ha r har
    obtain ⟨s, hs⟩ := hr a ha r har
    exact (decodeHlc_eq_ok hs).1.counter
  obtain ⟨hb, hmem, hpw⟩ := runCalls_spec hc hd hr' e
  refine ⟨length_runCalls e, hb, fun h hh => ⟨(hmem h hh).1.isHlcString, (hmem h hh).1.counter⟩,
    hpw.imp_of_mem fun ha hb hlt => ?_, fun i j r pt h hij hi hj => ?_⟩
  · exact (encodeHlc_lt (hmem _ ha).1 (hmem _ hb).1).2 (.inl hlt)
  · have hrc := hr' _ (List.mem_of_getElem? hi) r rfl
    exact (Hlc.before_iff hrc (hmem h (List.mem_of_getElem? hj)).1.counter).2
      (runCalls_received hc hr' hd e hij hi hj)

/-- A reading behind the clock, a remote whose counter is at its maximum, and a
reading that jumps back again. -/
theorem runCalls_increasing_sample :
    let dev : JsString := List.replicate 32 0x61
    let hs : List Hlc := [⟨1001, 0, dev⟩, ⟨1002, 0, dev⟩, ⟨2000, 0, dev⟩, ⟨2000, 1, dev⟩]
    (⟨1000, 0xffff, dev⟩ : HybridLogicalClock).runCalls
      [.now 10, .receive ⟨1001, 0xffff, dev⟩ 1000, .now 2000, .receive ⟨5, 7, dev⟩ 0] =
        .ok (hs, ⟨2000, 1, dev⟩) ∧
      hs.Pairwise fun a b => encodeHlc a < encodeHlc b := by
  intro dev hs
  have hrun : (⟨1000, 0xffff, dev⟩ : HybridLogicalClock).runCalls
      [.now 10, .receive ⟨1001, 0xffff, dev⟩ 1000, .now 2000, .receive ⟨5, 7, dev⟩ 0] =
        .ok (hs, ⟨2000, 1, dev⟩) := by decide +kernel
  refine ⟨hrun, (runCalls_increasing _ (by decide) (by decide) _ ?_ _ _ hrun).2.2.2.1⟩
  intro a ha r hr
  refine ⟨encodeHlc r, decodeHlc_encodeHlc ?_⟩
  simp only [List.mem_cons, List.not_mem_nil, or_false] at ha
  rcases ha with rfl | rfl | rfl | rfl <;> cases hr <;> exact ⟨by decide, by decide, by decide⟩

/-! ## Calls that throw -/

/-- The call would take the clock past 48 bits: by its reading, by what it received, or by
a counter that rolls over in the last millisecond. -/
def Overflows (c : HybridLogicalClock) : ClockCall → Prop
  | .now pt => (maxMillis : Int) < pt ∨ pt ≤ c.millis ∧ c.millis = maxMillis ∧ c.counter = maxCounter
  | .receive r pt => (r.millis : Int) ≤ pt + maxDriftMs ∧
      ((maxMillis : Int) < pt ∨ maxMillis < r.millis ∨
        c.millis = maxMillis ∧ c.counter = maxCounter ∨
        r.millis = maxMillis ∧ maxCounter ≤ r.counter)

theorem checked_eq_error : (∃ err, c.checked = .error err) ↔ maxMillis < c.millis := by
  unfold checked
  split
  · rename_i hlt
    exact ⟨fun _ => hlt, fun _ => ⟨_, rfl⟩⟩
  · rename_i hle
    exact ⟨fun ⟨_, e⟩ => (by cases e), fun hlt => absurd hlt hle⟩

theorem millis_rollover (c : HybridLogicalClock) :
    c.rollover.millis = if maxCounter < c.counter then c.millis + 1 else c.millis := by
  unfold rollover
  split
  · rfl
  · rfl

/-- The range error is thrown exactly when the call would go past the range. -/
theorem overflows_iff (hm : c.millis ≤ maxMillis) (hc : c.counter ≤ maxCounter) :
    Overflows c a ↔ ∃ c', (c.call a).2 = c' ∧ (c.call a).1 = c'.checked ∧ maxMillis < c'.millis := by
  cases a with
  | now pt =>
    have hnow : maxMillis < (c.now pt).2.millis ↔ Overflows c (.now pt) := by
      unfold now Overflows
      simp only
      split
      · simp only
        omega
      · rw [millis_rollover]
        simp only
        split
        · omega
        · omega
    exact ⟨fun h => ⟨_, rfl, rfl, hnow.2 h⟩, fun ⟨_, h, _, hlt⟩ => hnow.1 (h ▸ hlt)⟩
  | receive r pt =>
    by_cases hd : pt + maxDriftMs < r.millis
    · constructor
      · rintro ⟨hle, -⟩
        omega
      · rintro ⟨c', h, -, hlt⟩
        simp only [call, receive, if_pos hd] at h
        rw [← h] at hlt
        omega
    · have hreceive : maxMillis < (c.receive r pt).2.millis ↔ Overflows c (.receive r pt) := by
        unfold receive Overflows
        rw [if_neg hd]
        simp only
        rw [millis_rollover]
        simp only
        split_ifs <;> omega
      have hchecked : (c.receive r pt).1 = (c.receive r pt).2.checked := by
        unfold receive
        rw [if_neg hd]
      exact ⟨fun h => ⟨_, rfl, hchecked, hreceive.2 h⟩, fun ⟨_, h, _, hlt⟩ => hreceive.1 (h ▸ hlt)⟩

/-- **When a call that throws leaves the clock alone.** A remote that is ahead of the drift
limit does. A call that would go past 48 bits throws after it has changed the clock. -/
theorem failed_call_unchanged_iff (c : HybridLogicalClock) (hm : c.millis ≤ maxMillis)
    (hc : c.counter ≤ maxCounter) (a : ClockCall) :
    (∀ err, (c.call a).1 = .error err →
      (c.call a).2.millis = c.millis ∧ (c.call a).2.counter = c.counter ∧
        ∀ later, (c.call a).2.runCalls later = c.runCalls later) ↔ ¬ Overflows c a := by
  constructor
  · intro h hover
    obtain ⟨c', hleft, hresult, hlt⟩ := (overflows_iff hm hc).1 hover
    obtain ⟨err, herr⟩ := checked_eq_error.2 hlt
    have hsame := (h err (hresult.trans herr)).1
    rw [hleft] at hsame
    omega
  · intro h err herr
    have hself : (c.call a).2 = c := by
      by_contra hne
      apply h
      rw [overflows_iff hm hc]
      cases a with
      | now pt => exact ⟨_, rfl, rfl, checked_eq_error.1 ⟨err, herr⟩⟩
      | receive r pt =>
        simp only [call, receive] at herr hne ⊢
        split at herr
        · rename_i hd
          rw [if_pos hd] at hne
          exact absurd rfl hne
        · rename_i hd
          rw [if_neg hd]
          exact ⟨_, rfl, rfl, checked_eq_error.1 ⟨err, herr⟩⟩
    rw [hself]
    exact ⟨rfl, rfl, fun _ => rfl⟩

/-- A remote far ahead is refused, and the clock is where it was. -/
theorem failed_call_unchanged_iff_sample :
    let c : HybridLogicalClock := ⟨1000, 3, List.replicate 32 0x61⟩
    (c.receive ⟨400000, 0, List.replicate 32 0x62⟩ 1000).1 = .error (.drift 400000 1000) ∧
      (c.receive ⟨400000, 0, List.replicate 32 0x62⟩ 1000).2.counter = 3 := by
  intro c
  refine ⟨by decide, ?_⟩
  exact ((failed_call_unchanged_iff c (by decide) (by decide)
    (.receive ⟨400000, 0, List.replicate 32 0x62⟩ 1000)).2 (by
      rintro ⟨hle, -⟩
      revert hle
      decide) (.drift 400000 1000) (by decide)).2.1

/-- A reading past 48 bits: the call throws, the clock keeps the reading, and a later call
at a sane reading throws as well. -/
theorem failed_call_poisons :
    let c : HybridLogicalClock := ⟨1000, 3, List.replicate 32 0x61⟩
    (c.now (2 ^ 48)).1 = .error .range ∧ (c.now (2 ^ 48)).2.millis = 2 ^ 48 ∧
      (c.now 2000).1 = .ok ⟨2000, 0, List.replicate 32 0x61⟩ ∧
      ((c.now (2 ^ 48)).2.now 2000).1 = .error .range := by
  decide

end HybridLogicalClock

end TangentFeed
