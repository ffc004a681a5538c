import TangentFeed.Js.Hex
import TangentFeed.Js.Json

/-!
# The hybrid logical clock

`encodeHlc` and `decodeHlc` are the canonical string form, `HybridLogicalClock`
the clock itself with its two moves `now` and `receive`. A move returns its
result together with the clock it leaves, also when it throws. `ticks` counts a
timestamp in units of the counter; it is what every move increases, and the
string order of timestamps is the order of `ticks` with the device id as the
last tie-break.
-/

namespace TangentFeed

def maxCounter : Nat := 0xffff

def maxMillis : Nat := 2 ^ 48 - 1

/-- Five minutes. -/
def maxDriftMs : Nat := 300000

structure Hlc where
  millis : Nat
  counter : Nat
  deviceId : JsString
  deriving DecidableEq, Repr

/-- What the clock module throws. -/
inductive HlcError where
  | malformed (s : JsString)
  | drift (remoteMillis : Nat) (physicalNow : Int)
  | range
  deriving DecidableEq, Repr

/-- The text of the error. -/
def HlcError.message : HlcError → JsString
  | malformed s => js "malformed HLC string: " ++ Json.quote s
  | drift r p =>
    js "remote HLC is " ++ (if (r : Int) < p then js "-" else []) ++
      Number.decimalDigits ((r : Int) - p).natAbs ++ js "ms ahead of local clock (max allowed " ++
      Number.decimalDigits maxDriftMs ++ js "ms); check system time"
  | range => js "HLC millis exceeded 48-bit range"

def dash : CodeUnit := 0x2d

/-- `DEVICE_ID_RE.test(s)`. -/
def isValidDeviceId (s : JsString) : Bool := s.length == 32 && s.all isLowerHex

def encodeHlc (h : Hlc) : JsString :=
  padStart 12 0x30 (toString16 h.millis) ++ dash :: padStart 4 0x30 (toString16 h.counter) ++
    dash :: h.deviceId

/-- `HLC_STRING_RE.test(s)`. -/
def isHlcString (s : JsString) : Bool :=
  s.length == 50 && (s.take 12).all isLowerHex && s[12]? == some dash &&
    ((s.drop 13).take 4).all isLowerHex && s[17]? == some dash && (s.drop 18).all isLowerHex

def decodeHlc (s : JsString) : Except HlcError Hlc :=
  if isHlcString s then
    .ok ⟨parseHex (s.take 12), parseHex ((s.drop 13).take 4), s.drop 18⟩
  else .error (.malformed s)

/-! ## The string form -/

/-- A timestamp that fits the string form. -/
structure Hlc.InRange (h : Hlc) : Prop where
  millis : h.millis ≤ maxMillis
  counter : h.counter ≤ maxCounter
  device : isValidDeviceId h.deviceId = true

/-- The timestamp without its device, in counter units. -/
def Hlc.ticks (h : Hlc) : Nat := h.millis * 65536 + h.counter

theorem encodeHlc_eq {h : Hlc} (hr : h.InRange) :
    encodeHlc h = hexFixed 12 h.millis ++ dash :: hexFixed 4 h.counter ++ dash :: h.deviceId := by
  have h1 := hr.millis
  have h2 := hr.counter
  unfold maxMillis at h1
  unfold maxCounter at h2
  unfold encodeHlc
  rw [padStart_toString16 (by decide) (by omega), padStart_toString16 (by decide) (by omega)]

theorem isHlcString_split {a b d : JsString} (ha : a.length = 12) (hb : b.length = 4) :
    isHlcString (a ++ dash :: b ++ dash :: d) =
      (d.length == 32 && a.all isLowerHex && b.all isLowerHex && d.all isLowerHex) := by
  obtain ⟨a0, a1, a2, a3, a4, a5, a6, a7, a8, a9, a10, a11, rfl⟩ :
      ∃ a0 a1 a2 a3 a4 a5 a6 a7 a8 a9 a10 a11, a = [a0, a1, a2, a3, a4, a5, a6, a7, a8, a9, a10, a11] := by
    match a, ha with
    | [a0, a1, a2, a3, a4, a5, a6, a7, a8, a9, a10, a11], _ => exact ⟨_, _, _, _, _, _, _, _, _, _, _, _, rfl⟩
  obtain ⟨b0, b1, b2, b3, rfl⟩ : ∃ b0 b1 b2 b3, b = [b0, b1, b2, b3] := by
    match b, hb with
    | [b0, b1, b2, b3], _ => exact ⟨_, _, _, _, rfl⟩
  simp [isHlcString, Bool.and_assoc]

theorem decodeHlc_encodeHlc {h : Hlc} (hr : h.InRange) : decodeHlc (encodeHlc h) = .ok h := by
  have h1 := hr.millis
  have h2 := hr.counter
  have h3 := hr.device
  unfold maxMillis at h1
  unfold maxCounter at h2
  simp only [isValidDeviceId, Bool.and_eq_true, beq_iff_eq] at h3
  rw [encodeHlc_eq hr]
  unfold decodeHlc
  rw [isHlcString_split (length_hexFixed ..) (length_hexFixed ..), all_isLowerHex_hexFixed,
    all_isLowerHex_hexFixed, h3.2, h3.1]
  have e1 : (hexFixed 12 h.millis ++ dash :: hexFixed 4 h.counter ++ dash :: h.deviceId).take 12 =
      hexFixed 12 h.millis := by
    rw [List.append_assoc]; exact List.take_left' (length_hexFixed ..)
  have e2 : (hexFixed 12 h.millis ++ dash :: hexFixed 4 h.counter ++ dash :: h.deviceId).drop 13 =
      hexFixed 4 h.counter ++ dash :: h.deviceId := by
    rw [show 13 = (hexFixed 12 h.millis ++ [dash]).length by simp,
      show hexFixed 12 h.millis ++ dash :: hexFixed 4 h.counter ++ dash :: h.deviceId =
        (hexFixed 12 h.millis ++ [dash]) ++ (hexFixed 4 h.counter ++ dash :: h.deviceId) by simp,
      List.drop_left]
  have e3 : (hexFixed 12 h.millis ++ dash :: hexFixed 4 h.counter ++ dash :: h.deviceId).drop 18 =
      h.deviceId := by
    rw [show 18 = (hexFixed 12 h.millis ++ dash :: hexFixed 4 h.counter ++ [dash]).length by simp,
      show hexFixed 12 h.millis ++ dash :: hexFixed 4 h.counter ++ dash :: h.deviceId =
        (hexFixed 12 h.millis ++ dash :: hexFixed 4 h.counter ++ [dash]) ++ h.deviceId by simp,
      List.drop_left]
  rw [e1, e2, e3, List.take_left' (length_hexFixed ..), parseHex_hexFixed, parseHex_hexFixed,
    Nat.mod_eq_of_lt (by omega), Nat.mod_eq_of_lt (by omega)]
  rfl

/-- A canonical string cut at its dashes. -/
theorem isHlcString_iff {s : JsString} :
    isHlcString s = true ↔ ∃ a b d : JsString, s = a ++ dash :: b ++ dash :: d ∧ a.length = 12 ∧
      b.length = 4 ∧ d.length = 32 ∧ a.all isLowerHex = true ∧ b.all isLowerHex = true ∧
      d.all isLowerHex = true := by
  constructor
  · intro h
    have h' := h
    simp only [isHlcString, Bool.and_eq_true, beq_iff_eq] at h
    obtain ⟨⟨⟨⟨⟨hl, -⟩, h12⟩, -⟩, h17⟩, -⟩ := h
    have e : s = s.take 12 ++ dash :: (s.drop 13).take 4 ++ dash :: s.drop 18 := by
      have x1 : s.drop 12 = dash :: s.drop 13 := by
        obtain ⟨hb, hv⟩ := List.getElem?_eq_some_iff.1 h12
        rw [List.drop_eq_getElem_cons hb, hv]
      have x2 : s.drop 17 = dash :: s.drop 18 := by
        obtain ⟨hb, hv⟩ := List.getElem?_eq_some_iff.1 h17
        rw [List.drop_eq_getElem_cons hb, hv]
      calc s = s.take 12 ++ s.drop 12 := (List.take_append_drop ..).symm
        _ = s.take 12 ++ dash :: ((s.drop 13).take 4 ++ (s.drop 13).drop 4) := by
          rw [x1, List.take_append_drop]
        _ = _ := by rw [List.drop_drop, x2]; simp
    rw [e, isHlcString_split (by simp [hl]) (by simp [hl])] at h'
    simp only [Bool.and_eq_true, beq_iff_eq] at h'
    exact ⟨_, _, _, e, by simp [hl], by simp [hl], h'.1.1.1, h'.1.1.2, h'.1.2, h'.2⟩
  · rintro ⟨a, b, d, rfl, ha, hb, hd, h1, h2, h3⟩
    rw [isHlcString_split ha hb, h1, h2, h3, hd]
    rfl

/-- **What is decoded is in range and encodes back.** -/
theorem decodeHlc_eq_ok {s : JsString} {h : Hlc} (hd : decodeHlc s = .ok h) :
    h.InRange ∧ encodeHlc h = s := by
  unfold decodeHlc at hd
  split at hd
  · rename_i hs
    obtain ⟨a, b, d, rfl, ha, hb, hdl, h1, h2, h3⟩ := isHlcString_iff.1 hs
    have e1 : (a ++ dash :: b ++ dash :: d).take 12 = a := by
      rw [List.append_assoc]; exact List.take_left' ha
    have e2 : (a ++ dash :: b ++ dash :: d).drop 13 = b ++ dash :: d := by
      rw [show 13 = (a ++ [dash]).length by simp [ha],
        show a ++ dash :: b ++ dash :: d = (a ++ [dash]) ++ (b ++ dash :: d) by simp, List.drop_left]
    have e3 : (a ++ dash :: b ++ dash :: d).drop 18 = d := by
      rw [show 18 = (a ++ dash :: b ++ [dash]).length by simp [ha, hb],
        show a ++ dash :: b ++ dash :: d = (a ++ dash :: b ++ [dash]) ++ d by simp, List.drop_left]
    rw [e1, e2, e3, List.take_left' hb] at hd
    obtain rfl := Except.ok.inj hd
    have l1 := parseHex_lt h1
    have l2 := parseHex_lt h2
    rw [ha] at l1
    rw [hb] at l2
    have hr : Hlc.InRange ⟨parseHex a, parseHex b, d⟩ :=
      ⟨by simp only [maxMillis]; omega, by simp only [maxCounter]; omega, by simp [isValidDeviceId, hdl, h3]⟩
    refine ⟨hr, ?_⟩
    have x1 := hexFixed_parseHex h1
    have x2 := hexFixed_parseHex h2
    rw [ha] at x1
    rw [hb] at x2
    rw [encodeHlc_eq hr, x1, x2]
  · cases hd

/-- **String order of timestamps.** -/
theorem encodeHlc_lt {a b : Hlc} (ha : a.InRange) (hb : b.InRange) :
    encodeHlc a < encodeHlc b ↔ a.ticks < b.ticks ∨ a.ticks = b.ticks ∧ a.deviceId < b.deviceId := by
  have ha1 := ha.millis; have ha2 := ha.counter
  have hb1 := hb.millis; have hb2 := hb.counter
  unfold maxMillis at ha1 hb1
  unfold maxCounter at ha2 hb2
  rw [encodeHlc_eq ha, encodeHlc_eq hb, append_lt_append (by simp), append_lt_append (by simp),
    List.cons_lt_cons_iff, List.cons_lt_cons_iff, hexFixed_lt (by omega) (by omega),
    hexFixed_lt (by omega) (by omega)]
  have i1 : hexFixed 12 a.millis = hexFixed 12 b.millis ↔ a.millis = b.millis :=
    ⟨hexFixed_inj (by omega) (by omega), fun h => by rw [h]⟩
  have i2 : hexFixed 4 a.counter = hexFixed 4 b.counter ↔ a.counter = b.counter :=
    ⟨hexFixed_inj (by omega) (by omega), fun h => by rw [h]⟩
  have i3 : (hexFixed 12 a.millis ++ dash :: hexFixed 4 a.counter =
      hexFixed 12 b.millis ++ dash :: hexFixed 4 b.counter) ↔
      a.millis = b.millis ∧ a.counter = b.counter := by
    rw [← i1, ← i2]
    constructor
    · intro h
      obtain ⟨h1, h2⟩ := List.append_inj h (by simp)
      exact ⟨h1, (List.cons.inj h2).2⟩
    · rintro ⟨h1, h2⟩
      rw [h1, h2]
  rw [i1, i3]
  simp only [lt_self_iff_false, false_or, true_and, Hlc.ticks]
  constructor
  · rintro ((h | ⟨h, h'⟩) | ⟨⟨h, h'⟩, h''⟩)
    · exact .inl (by omega)
    · exact .inl (by omega)
    · exact .inr ⟨by omega, h''⟩
  · rintro (h | ⟨h, h'⟩)
    · exact .inl (by omega)
    · exact .inr ⟨by omega, h'⟩

/-- By millis, then by counter, then by device id. -/
def compareHlc (a b : Hlc) : Int :=
  if a.millis ≠ b.millis then if a.millis < b.millis then -1 else 1
  else if a.counter ≠ b.counter then if a.counter < b.counter then -1 else 1
  else if a.deviceId ≠ b.deviceId then if a.deviceId < b.deviceId then -1 else 1
  else 0

theorem compareHlc_eq_zero {a b : Hlc} : compareHlc a b = 0 ↔ a = b := by
  constructor
  · intro h
    obtain ⟨m, c, d⟩ := a
    obtain ⟨m', c', d'⟩ := b
    unfold compareHlc at h
    split_ifs at h with hm hlt hc hlt hd hlt
    · omega
    · omega
    · omega
    · obtain rfl := not_ne_iff.1 hm
      obtain rfl := not_ne_iff.1 hc
      obtain rfl := not_ne_iff.1 hd
      rfl
  · rintro rfl
    unfold compareHlc
    rw [if_neg (not_not.2 rfl), if_neg (not_not.2 rfl), if_neg (not_not.2 rfl)]

/-- The comparison orders by ticks, and equal ticks by device id. -/
theorem compareHlc_neg {a b : Hlc} (ha : a.InRange) (hb : b.InRange) :
    compareHlc a b < 0 ↔ a.ticks < b.ticks ∨ a.ticks = b.ticks ∧ a.deviceId < b.deviceId := by
  have ha2 := ha.counter
  have hb2 := hb.counter
  unfold maxCounter at ha2 hb2
  unfold compareHlc Hlc.ticks
  split_ifs with hm hlt hc hlt hd hlt
  · omega
  · omega
  · omega
  · omega
  · simp only [hlt, and_true]
    omega
  · simp only [hlt, and_false, or_false]
    omega
  · have hself : ¬ a.deviceId < b.deviceId := by
      rw [not_ne_iff.1 hd]
      exact lt_irrefl _
    simp only [hself, and_false, or_false]
    omega

/-- **Timestamps and their strings.** Encoding and decoding are inverse, and strings compare
as the timestamps do. -/
theorem encodeHlc_exact {a b : Hlc} (ha : a.InRange) (hb : b.InRange) (s : JsString) :
    decodeHlc (encodeHlc a) = .ok a ∧ (∀ h, decodeHlc s = .ok h → encodeHlc h = s) ∧
      (encodeHlc a < encodeHlc b ↔ compareHlc a b < 0) ∧
      (encodeHlc a = encodeHlc b ↔ compareHlc a b = 0) ∧
      (encodeHlc b < encodeHlc a ↔ 0 < compareHlc a b) := by
  have hlt : encodeHlc a < encodeHlc b ↔ compareHlc a b < 0 := by
    rw [encodeHlc_lt ha hb, compareHlc_neg ha hb]
  have heq : encodeHlc a = encodeHlc b ↔ compareHlc a b = 0 := by
    rw [compareHlc_eq_zero]
    constructor
    · intro he
      have hd := decodeHlc_encodeHlc ha
      rw [he, decodeHlc_encodeHlc hb] at hd
      exact (Except.ok.inj hd).symm
    · rintro rfl
      rfl
  refine ⟨decodeHlc_encodeHlc ha, fun h hd => (decodeHlc_eq_ok hd).2, hlt, heq, ?_⟩
  have hpos : 0 < compareHlc a b ↔ ¬ compareHlc a b < 0 ∧ ¬ compareHlc a b = 0 := by omega
  rw [hpos, ← hlt, ← heq, not_lt]
  exact lt_iff_le_and_ne.trans (and_congr_right fun _ => ne_comm)

/-- Two timestamps of one millisecond, a counter apart. -/
theorem encodeHlc_exact_sample :
    encodeHlc ⟨10, 255, List.replicate 32 0x61⟩ < encodeHlc ⟨10, 256, List.replicate 32 0x30⟩ :=
  (encodeHlc_exact ⟨by decide, by decide, by decide⟩ ⟨by decide, by decide, by decide⟩ []).2.2.1.2
    (by decide)

/-! ## The clock -/

structure HybridLogicalClock where
  millis : Nat
  counter : Nat
  deviceId : JsString
  deriving DecidableEq, Repr

namespace HybridLogicalClock

def state (c : HybridLogicalClock) : Hlc := ⟨c.millis, c.counter, c.deviceId⟩

/-- `checkBounds()` and the return of the new state. -/
def checked (c : HybridLogicalClock) : Except HlcError Hlc :=
  if maxMillis < c.millis then .error .range else .ok c.state

/-- `counter` one past the maximum rolls over into `millis`. -/
def rollover (c : HybridLogicalClock) : HybridLogicalClock :=
  if maxCounter < c.counter then { c with millis := c.millis + 1, counter := 0 } else c

/-- `now()` at physical reading `pt`. -/
def now (c : HybridLogicalClock) (pt : Int) : Except HlcError Hlc × HybridLogicalClock :=
  let c' :=
    if c.millis < pt then { c with millis := pt.toNat, counter := 0 }
    else rollover { c with counter := c.counter + 1 }
  (c'.checked, c')

/-- `receive(remote)` at physical reading `pt`. -/
def receive (c : HybridLogicalClock) (remote : Hlc) (pt : Int) :
    Except HlcError Hlc × HybridLogicalClock :=
  if pt + maxDriftMs < remote.millis then (.error (.drift remote.millis pt), c)
  else
    let m := max (max c.millis remote.millis) pt.toNat
    let n :=
      if m = c.millis ∧ m = remote.millis then max c.counter remote.counter + 1
      else if m = c.millis then c.counter + 1
      else if m = remote.millis then remote.counter + 1
      else 0
    let c' := rollover { c with millis := m, counter := n }
    (c'.checked, c')

def ticks (c : HybridLogicalClock) : Nat := c.state.ticks

def Bounded (c : HybridLogicalClock) : Prop := c.counter ≤ maxCounter

theorem checked_eq_ok {c : HybridLogicalClock} {h : Hlc} (e : c.checked = .ok h) :
    h = c.state ∧ c.millis ≤ maxMillis := by
  unfold checked at e
  split at e
  · cases e
  · exact ⟨(Except.ok.inj e).symm, by omega⟩

theorem rollover_bounded (c : HybridLogicalClock) : c.rollover.Bounded := by
  unfold rollover Bounded
  split
  · exact Nat.zero_le _
  · omega

@[simp] theorem rollover_deviceId (c : HybridLogicalClock) : c.rollover.deviceId = c.deviceId := by
  unfold rollover; split <;> rfl

theorem ticks_rollover {c : HybridLogicalClock} (h : c.counter ≤ maxCounter + 1) :
    c.rollover.ticks = c.ticks := by
  unfold rollover
  split
  · simp only [ticks, state, Hlc.ticks]; unfold maxCounter at *; omega
  · rfl

/-- What `now` leaves, whether it returns or throws. -/
theorem now_spec {c : HybridLogicalClock} (hc : c.Bounded) (pt : Int) :
    c.ticks < (c.now pt).2.ticks ∧ (c.now pt).2.Bounded ∧ (c.now pt).2.deviceId = c.deviceId := by
  unfold now
  unfold Bounded at hc
  simp only
  split
  · refine ⟨?_, Nat.zero_le _, rfl⟩
    simp only [ticks, state, Hlc.ticks]; unfold maxCounter at hc; omega
  · refine ⟨?_, rollover_bounded _, rollover_deviceId _⟩
    rw [ticks_rollover (by simp only; omega)]
    simp only [ticks, state, Hlc.ticks]; omega

theorem now_eq_ok {c : HybridLogicalClock} {pt : Int} {h : Hlc} (e : (c.now pt).1 = .ok h) :
    h = (c.now pt).2.state ∧ (c.now pt).2.millis ≤ maxMillis :=
  checked_eq_ok e

/-- What `receive` leaves, whether it returns or throws. -/
theorem receive_spec {c : HybridLogicalClock} (hc : c.Bounded) {r : Hlc} (hr : r.counter ≤ maxCounter)
    (pt : Int) :
    c.ticks ≤ (c.receive r pt).2.ticks ∧ (c.receive r pt).2.Bounded ∧
      (c.receive r pt).2.deviceId = c.deviceId ∧
      ∀ h, (c.receive r pt).1 = .ok h →
        c.ticks < (c.receive r pt).2.ticks ∧ r.ticks < (c.receive r pt).2.ticks ∧
          (c.receive r pt).2.millis ≤ maxMillis := by
  unfold receive
  split
  · exact ⟨Nat.le_refl _, hc, rfl, fun h e => by cases e⟩
  · simp only
    generalize hm : max (max c.millis r.millis) pt.toNat = m
    generalize hn : (if m = c.millis ∧ m = r.millis then max c.counter r.counter + 1
      else if m = c.millis then c.counter + 1
      else if m = r.millis then r.counter + 1
      else 0) = n
    unfold Bounded at hc
    unfold maxCounter at hc hr
    have key : n ≤ 65536 ∧ c.millis * 65536 + c.counter < m * 65536 + n ∧
        r.millis * 65536 + r.counter < m * 65536 + n := by
      split_ifs at hn <;> omega
    have ht : (rollover { c with millis := m, counter := n }).ticks = m * 65536 + n := by
      rw [ticks_rollover (by simp only [maxCounter]; omega)]; rfl
    refine ⟨?_, rollover_bounded _, rollover_deviceId _, fun h e => ⟨?_, ?_, (checked_eq_ok e).2⟩⟩
    · rw [ht]; exact Nat.le_of_lt key.2.1
    · rw [ht]; exact key.2.1
    · rw [ht]; exact key.2.2

/-- A state read from a bounded clock within 48 bits has a string form. -/
theorem state_inRange {c : HybridLogicalClock} (hc : c.Bounded) (hm : c.millis ≤ maxMillis)
    (hd : isValidDeviceId c.deviceId = true) : c.state.InRange := ⟨hm, hc, hd⟩

end HybridLogicalClock

end TangentFeed
