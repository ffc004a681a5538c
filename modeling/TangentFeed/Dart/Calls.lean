import TangentFeed.Dart.Reclaim
import TangentFeed.Replica.Calls

/-!
# What a call of the Dart engine can do

`Effect cr e d r` is everything a call can do, however it ends: `e` is the engine
before it, `d` the kind of the call and `r` its reply. A remote batch moves the
clock operation by operation, so a rejected call may leave the clock moved and the
store as it was; a call that ends with an error of a callback has committed.
-/

namespace TangentFeed.Dart

namespace SyncEngine

variable {cr : Crypto} {α β : Type}

/-- A signature that verifies under a key whose hash is the device. -/
def Authentic (cr : Crypto) (o : StoredOp) : Prop :=
  ∃ k, deviceIdFromPublicKey cr k = o.device ∧ verifyOp cr o.toOpFields k = some true

/-- What holds of an engine's identity from its opening on. -/
structure Identity (cr : Crypto) (e : SyncEngine) : Prop where
  bounded : e.clock.Bounded
  device : e.deviceId = deviceIdFromPublicKey cr e.deviceKey.publicKey
  generated : ∃ seed, e.deviceKey = cr.keygen seed
  stored : e.storage.deviceKey = some e.deviceKey
  directory : ∀ {d : JsString} {k : Bytes}, e.keys[d]? = some k → deviceIdFromPublicKey cr k = d
  own : e.keys[e.deviceId]? ≠ none

/-- Only the clock moved, forward. -/
structure Moved (e e' : SyncEngine) : Prop where
  frame : e' = { e with clock := e'.clock, asked := e'.asked }
  device : e'.deviceId = e.deviceId
  clock : e.clock.Bounded → e'.clock.Bounded ∧ e.clock.ticks ≤ e'.clock.ticks

namespace Moved

variable {e e' e'' : SyncEngine}

theorem refl (e : SyncEngine) : Moved e e := ⟨rfl, rfl, fun h => ⟨h, Nat.le_refl _⟩⟩

theorem trans (h : Moved e e') (h' : Moved e' e'') : Moved e e'' where
  frame := by rw [h'.frame, h.frame]
  device := h'.device.trans h.device
  clock hb := ⟨(h'.clock (h.clock hb).1).1,
    Nat.le_trans (h.clock hb).2 (h'.clock (h.clock hb).1).2⟩

theorem asked (e : SyncEngine) (n : Nat) : Moved e { e with asked := n } :=
  ⟨rfl, rfl, fun h => ⟨h, Nat.le_refl _⟩⟩

theorem storage (h : Moved e e') : e'.storage = e.storage := by rw [h.frame]

theorem deviceKey (h : Moved e e') : e'.deviceKey = e.deviceKey := by rw [h.frame]

theorem keys (h : Moved e e') : e'.keys = e.keys := by rw [h.frame]

theorem subscribers (h : Moved e e') : e'.subscribers = e.subscribers := by rw [h.frame]

theorem identity (h : Moved e e') (hi : Identity cr e) : Identity cr e' where
  bounded := (h.clock hi.bounded).1
  device := by rw [h.device, h.deviceKey, hi.device]
  generated := by rw [h.deviceKey]; exact hi.generated
  stored := by rw [h.storage, h.deviceKey]; exact hi.stored
  directory := by rw [h.keys]; exact hi.directory
  own := by rw [h.keys, h.device]; exact hi.own

end Moved

/-! ## Operations of a batch -/

/-- The operations a local write makes between two states of the clock. -/
structure LocalBatch (cr : Crypto) (e e' : SyncEngine) (ops : List StoredOp) : Prop where
  device : ∀ o ∈ ops, o.device = e.deviceId
  signed : ∀ o ∈ ops, ∃ payload, signedPayload o.toOpFields = some payload ∧
    o.sig = signPayload cr payload e.deviceKey.privateKey
  later : ∀ o ∈ ops, e.clock.ticks < o.ticks ∧ o.ticks ≤ e'.clock.ticks
  increasing : ops.Pairwise fun o p => o.ticks < p.ticks

/-- The operations of a batch from elsewhere that passed all checks. -/
structure RemoteBatch (cr : Crypto) (e e' : SyncEngine) (ops : List StoredOp) : Prop where
  known : ∀ o ∈ ops, e.keys[o.device]? ≠ none
  authentic : ∀ o ∈ ops, Authentic cr o
  bound : ∀ o ∈ ops, o.ticks ≤ e'.clock.ticks

/-- The operations of a commit by its origin. -/
def BatchOf (cr : Crypto) (e e' : SyncEngine) (ops : List StoredOp) : Origin → Prop
  | .local => LocalBatch cr e e' ops
  | .remote => RemoteBatch cr e e' ops

theorem BatchOf.congr {e e' e'' : SyncEngine} {ops : List StoredOp} {origin : Origin}
    (h : BatchOf cr e e' ops origin) (hc : e''.clock = e'.clock) : BatchOf cr e e'' ops origin := by
  cases origin with
  | «local» => exact ⟨h.device, h.signed, fun o ho => by rw [hc]; exact h.later o ho, h.increasing⟩
  | remote => exact ⟨h.known, h.authentic, fun o ho => by rw [hc]; exact h.bound o ho⟩

/-- The committed operations are not past the clock. -/
theorem BatchOf.bound {e e' : SyncEngine} {ops : List StoredOp} {origin : Origin}
    (hb : BatchOf cr e e' ops origin) : ∀ o ∈ ops, o.ticks ≤ e'.clock.ticks := by
  cases origin with
  | «local» => exact fun o ho => (hb.later o ho).2
  | remote => exact RemoteBatch.bound hb

/-! ## Effects -/

/-- What a call is for, as far as the store is concerned. -/
abbrev Deed := TangentFeed.SyncEngine.Deed

/-- What a call can do to the store. -/
inductive StorageEffect (cr : Crypto) (e e' : SyncEngine) : Deed → Option ChangeEvent → Prop where
  | idle {d : Deed} : e'.storage = e.storage → StorageEffect cr e e' d none
  | peerSaved {peer : JsString} {f : Frontier} : e'.storage = e.storage.setPeerFrontier peer f →
      StorageEffect cr e e' (.record peer f) none
  | compacted {opts : CompactionOptions} : e'.storage = (compactStorage e.storage opts).1 →
      StorageEffect cr e e' (.compact opts) none
  | committed {ops : List StoredOp} {origin : Origin} :
      e'.storage = committed e.storage ops e'.clock.state → (pending e.storage ops).fresh ≠ [] →
      BatchOf cr e e' ops origin →
      StorageEffect cr e e' .write (some ((pending e.storage ops).event origin))

/-- **What a call can do.** -/
structure Effect (cr : Crypto) (e : SyncEngine) (d : Deed) (r : Reply α) : Prop where
  deviceKey : r.engine.deviceKey = e.deviceKey
  device : r.engine.deviceId = e.deviceId
  bounded : r.engine.clock.Bounded
  ticks : e.clock.ticks ≤ r.engine.clock.ticks
  learned : ∀ {i : JsString} {k : Bytes}, r.engine.keys[i]? = some k →
    e.keys[i]? = some k ∨ deviceIdFromPublicKey cr k = i
  known : ∀ {i : JsString}, e.keys[i]? ≠ none → r.engine.keys[i]? ≠ none
  store : StorageEffect cr e r.engine d r.event
  refused : ∀ {err}, r.result = .error err →
    (r.engine.storage = e.storage ∧ r.event = none ∧ ∀ id, err ≠ .callback id) ∨
      ∃ id ev, err = .callback id ∧ r.event = some ev ∧ (notify e.subscribers ev).2 = some id
  told : ∀ {ev}, r.event = some ev → r.received = (notify e.subscribers ev).1

theorem Effect.map {e : SyncEngine} {d : Deed} {r : Reply α} (h : Effect cr e d r) (f : α → β) :
    Effect cr e d (r.map f) where
  deviceKey := h.deviceKey
  device := h.device
  bounded := h.bounded
  ticks := h.ticks
  learned := h.learned
  known := h.known
  store := h.store
  refused hr := by
    cases hres : r.result with
    | error err =>
      rw [Reply.map, hres] at hr
      obtain rfl := Except.error.inj hr
      exact h.refused hres
    | ok x =>
      rw [Reply.map, hres] at hr
      cases hr
  told := h.told

/-- A move of the clock followed by a change of the store. -/
theorem Effect.of_moved {e m : SyncEngine} {d : Deed} {r : Reply α} (hi : Identity cr e)
    (hm : Moved e m)
    (hf : r.engine = { m with asked := r.engine.asked, storage := r.engine.storage })
    (hs : StorageEffect cr e r.engine d r.event)
    (hr : ∀ {err}, r.result = .error err →
      (r.engine.storage = e.storage ∧ r.event = none ∧ ∀ id, err ≠ .callback id) ∨
        ∃ id ev, err = .callback id ∧ r.event = some ev ∧ (notify e.subscribers ev).2 = some id)
    (ht : ∀ {ev}, r.event = some ev → r.received = (notify e.subscribers ev).1) :
    Effect cr e d r where
  deviceKey := by rw [hf]; exact hm.deviceKey
  device := by rw [hf]; exact hm.device
  bounded := by rw [hf]; exact (hm.clock hi.bounded).1
  ticks := by rw [hf]; exact (hm.clock hi.bounded).2
  learned h := .inl (by rw [hf] at h; rw [← hm.keys]; exact h)
  known h := by rw [hf, ← hm.keys] at *; exact h
  store := hs
  refused := hr
  told := ht

/-- A call that left the store alone. -/
theorem Effect.idle {e m : SyncEngine} {d : Deed} {result : Except EngineFault α}
    (hi : Identity cr e) (hm : Moved e m) (hr : ∀ id, result ≠ .error (.callback id)) :
    Effect cr e d (Reply.quiet m result) :=
  .of_moved hi hm rfl (.idle hm.storage)
    (fun h => .inl ⟨hm.storage, rfl, fun id e1 => hr id (h.trans (congrArg _ e1))⟩)
    fun h => nomatch h

/-! ## The parts of a call -/

/-- A transaction goes through or is refused whole. -/
theorem transact_cases (e : SyncEngine) (s : MemoryAdapter) :
    e.transact s = .quiet { e with asked := e.asked + 1 } (.error .storage) ∨
      e.transact s = .quiet { e with asked := e.asked + 1, storage := s } (.ok ()) := by
  unfold transact
  by_cases h : e.env.storageFails e.asked = true
  · exact .inl (if_pos h)
  · exact .inr (if_neg h)

/-- A transaction that changes the store in one of the ways a call may. -/
theorem Effect.transact {e m : SyncEngine} (hi : Identity cr e) (hm : Moved e m) {d : Deed}
    {s : MemoryAdapter} (hs : ∀ e' : SyncEngine, e'.storage = s → StorageEffect cr e e' d none) :
    Effect cr e d (m.transact s) := by
  rcases m.transact_cases s with h | h
  · rw [h]
    exact .idle hi (hm.trans (.asked m _)) fun id e1 => nomatch e1
  · rw [h]
    exact .of_moved hi hm rfl (hs _ rfl) (fun h => nomatch h) fun h => nomatch h

/-- `_commit` does nothing, is refused, or persists and then calls the subscribers. -/
theorem Effect.commit {e m : SyncEngine} (hi : Identity cr e) (hm : Moved e m)
    {ops : List StoredOp} {origin : Origin} (hb : BatchOf cr e m ops origin) :
    Effect cr e .write (m.commit ops origin) := by
  unfold SyncEngine.commit
  split
  · exact .idle hi hm fun id e1 => nomatch e1
  simp only
  split
  · exact .idle hi hm fun id e1 => nomatch e1
  rename_i hfresh
  rcases m.transact_cases (m.storage.applyBatch ((pending m.storage ops).batch m.clock.state)) with
    h | h
  · rw [h]
    exact .idle hi (hm.trans (.asked m _)) fun id e1 => nomatch e1
  · rw [h]
    simp only [Reply.quiet]
    refine .of_moved hi hm rfl ?_ ?_ ?_
    · rw [hm.storage] at hfresh ⊢
      exact .committed rfl (fun h => hfresh (List.isEmpty_iff.2 h)) (hb.congr rfl)
    · intro err herr
      right
      rw [hm.subscribers] at herr
      split at herr
      · cases herr
      · rename_i id hid
        exact ⟨id, _, (Except.error.inj herr).symm, rfl, hid⟩
    · intro ev hev
      obtain rfl := Option.some.inj hev
      rw [hm.subscribers]

theorem receiveClock_moved (e : SyncEngine) {h : Hlc} (hc : h.counter ≤ maxCounter) :
    Moved e (e.receiveClock h).2 := by
  have spec := fun hb => HybridLogicalClock.receive_spec (c := e.clock) hb hc
    (e.env.physicalClock e.asked)
  refine ⟨rfl, ?_, fun hb => ⟨(spec hb).2.1, (spec hb).1⟩⟩
  change (e.clock.receive h (e.env.physicalClock e.asked)).2.deviceId = e.clock.deviceId
  unfold HybridLogicalClock.receive
  split
  · rfl
  · exact HybridLogicalClock.rollover_deviceId _

/-! ## Local operations -/

theorem now_moved (e : SyncEngine) (n : Nat) (pt : Int) :
    Moved e { e with clock := (e.clock.now pt).2, asked := n } := by
  refine ⟨rfl, ?_, fun hb => ?_⟩
  · change (e.clock.now pt).2.deviceId = e.clock.deviceId
    unfold HybridLogicalClock.now
    simp only
    split
    · rfl
    · exact HybridLogicalClock.rollover_deviceId _
  · obtain ⟨h1, h2, -⟩ := HybridLogicalClock.now_spec hb pt
    exact ⟨h2, Nat.le_of_lt h1⟩

/-- What one local operation is. -/
structure MadeOp (cr : Crypto) (e e' : SyncEngine) (table row column : JsString)
    (value : Doc AnyNum) (op : StoredOp) : Prop where
  cell : op.cell = (table, row, column)
  value : op.value = value
  device : op.device = e.deviceId
  signed : ∃ payload, signedPayload op.toOpFields = some payload ∧
    op.sig = signPayload cr payload e.deviceKey.privateKey
  ticks : op.ticks = e'.clock.ticks
  later : e.clock.ticks < e'.clock.ticks

/-- Whether or not it makes an operation, the clock is read. -/
theorem makeLocalOp_snd (cr : Crypto) (e : SyncEngine) (table row column : JsString)
    (value : Doc AnyNum) : (e.makeLocalOp cr table row column value).2 =
      { e with clock := (e.clock.now (e.env.physicalClock e.asked)).2, asked := e.asked + 1 } := by
  unfold makeLocalOp
  simp only
  split
  · rfl
  · split
    · rfl
    · split <;> rfl

theorem makeLocalOp_moved (cr : Crypto) (e : SyncEngine) (table row column : JsString)
    (value : Doc AnyNum) : Moved e (e.makeLocalOp cr table row column value).2 := by
  rw [makeLocalOp_snd]
  exact now_moved ..

theorem makeLocalOp_made {e : SyncEngine} (hi : Identity cr e) {table row column : JsString}
    {value : Doc AnyNum} {op : StoredOp}
    (h : (e.makeLocalOp cr table row column value).1 = .ok op) :
    MadeOp cr e (e.makeLocalOp cr table row column value).2 table row column value op := by
  obtain ⟨hlt, hb, hd⟩ := HybridLogicalClock.now_spec hi.bounded (e.env.physicalClock e.asked)
  rw [makeLocalOp_snd]
  unfold makeLocalOp at h
  simp only at h
  split at h
  · cases h
  rename_i t hok
  obtain ⟨rfl, hm⟩ := HybridLogicalClock.now_eq_ok hok
  split at h
  · cases h
  rename_i payload hpayload
  split at h
  · cases h
  obtain rfl := Except.ok.inj h
  have hvalid : isValidDeviceId (e.clock.now (e.env.physicalClock e.asked)).2.deviceId = true := by
    rw [hd]
    exact (congrArg isValidDeviceId hi.device).trans (isValidDeviceId_deviceIdFromPublicKey _)
  exact {
    cell := rfl
    value := rfl
    device := hd
    signed := ⟨payload, hpayload, rfl⟩
    ticks := OpFields.ticks_eq
      (decodeHlc_encodeHlc (HybridLogicalClock.state_inRange hb hm hvalid))
    later := hlt }

theorem makeLocalOps_moved (cr : Crypto) (table row : JsString)
    (values : List (JsString × Doc AnyNum)) (e : SyncEngine) :
    Moved e (e.makeLocalOps cr table row values).2 := by
  induction values generalizing e with
  | nil => exact .refl e
  | cons v values ih =>
    have h1 := e.makeLocalOp_moved cr table row v.1 v.2
    unfold makeLocalOps
    simp only
    split
    · exact h1
    · exact h1.trans (ih _)

/-- What the operations of one local write are. -/
theorem makeLocalOps_made {table row : JsString} {values : List (JsString × Doc AnyNum)}
    {e : SyncEngine} (hi : Identity cr e) {ops : List StoredOp}
    (h : (e.makeLocalOps cr table row values).1 = .ok ops) :
    LocalBatch cr e (e.makeLocalOps cr table row values).2 ops ∧
      ops.map (fun o => (o.cell, o.value)) = values.map fun v => ((table, row, v.1), v.2) := by
  induction values generalizing e ops with
  | nil =>
    obtain rfl := Except.ok.inj h
    exact ⟨⟨by simp, by simp, by simp, .nil⟩, rfl⟩
  | cons v values ih =>
    have hmove := e.makeLocalOp_moved cr table row v.1 v.2
    unfold makeLocalOps at h ⊢
    cases hr : (e.makeLocalOp cr table row v.1 v.2).1 with
    | error err => simp only [hr] at h; cases h
    | ok op =>
      simp only [hr] at h ⊢
      have hmade := makeLocalOp_made hi hr
      generalize (e.makeLocalOp cr table row v.1 v.2).2 = m at h hmove hmade ⊢
      cases hrs : (m.makeLocalOps cr table row values).1 with
      | error err => rw [hrs] at h; cases h
      | ok rest =>
        rw [hrs] at h
        obtain rfl := Except.ok.inj h
        have him := hmove.identity hi
        obtain ⟨hb, hc⟩ := ih him hrs
        have hlast := ((makeLocalOps_moved cr table row values m).clock him.bounded).2
        refine ⟨⟨?_, ?_, ?_, ?_⟩, ?_⟩
        · rintro o (_ | ⟨_, ho⟩)
          · exact hmade.device
          · exact (hb.device o ho).trans hmove.device
        · rintro o (_ | ⟨_, ho⟩)
          · exact hmade.signed
          · rw [← hmove.deviceKey]; exact hb.signed o ho
        · rintro o (_ | ⟨_, ho⟩)
          · rw [hmade.ticks]; exact ⟨hmade.later, hlast⟩
          · obtain ⟨h1, h2⟩ := hb.later o ho
            exact ⟨Nat.lt_trans hmade.later h1, h2⟩
        · refine .cons (fun o ho => ?_) hb.increasing
          rw [hmade.ticks]
          exact (hb.later o ho).1
        · rw [List.map_cons, List.map_cons, hc, hmade.cell, hmade.value]

/-- No failure on the way to a commit is one of a callback. -/
theorem makeLocalOps_ne_callback {table row : JsString} {values : List (JsString × Doc AnyNum)}
    {e : SyncEngine} (id : Nat) :
    (e.makeLocalOps cr table row values).1 ≠ .error (.callback id) := by
  induction values generalizing e with
  | nil => exact fun h => nomatch h
  | cons v values ih =>
    have one : (e.makeLocalOp cr table row v.1 v.2).1 ≠ .error (.callback id) := by
      unfold makeLocalOp
      simp only
      split
      · exact fun h => nomatch h
      · split
        · exact fun h => nomatch h
        · split <;> exact fun h => nomatch h
    unfold makeLocalOps
    simp only
    split
    · rename_i err hr
      intro h
      exact one (hr.trans (congrArg _ (Except.error.inj h)))
    · intro h
      cases hrs : ((e.makeLocalOp cr table row v.1 v.2).2.makeLocalOps cr table row values).1 with
      | ok ops => rw [hrs] at h; cases h
      | error err =>
        rw [hrs] at h
        exact ih (hrs.trans (congrArg _ (Except.error.inj h)))

/-! ## Remote operations -/

/-- One operation that passes moves the clock past it; one that fails moves it too. -/
theorem admit_spec {e : SyncEngine} (hi : Identity cr e) (o : StoredOp) :
    Moved e (e.admitOne cr o).2 ∧ (∀ id, (e.admitOne cr o).1 ≠ .error (.callback id)) ∧
      ((e.admitOne cr o).1 = .ok () → e.keys[o.device]? ≠ none ∧ Authentic cr o ∧
        o.ticks ≤ (e.admitOne cr o).2.clock.ticks) := by
  unfold admitOne
  split
  · exact ⟨.refl e, fun id h => (nomatch h), fun h => nomatch h⟩
  rename_i k hk
  split
  · exact ⟨.refl e, fun id h => (nomatch h), fun h => nomatch h⟩
  · exact ⟨.refl e, fun id h => (nomatch h), fun h => nomatch h⟩
  rename_i hv
  split
  · exact ⟨.refl e, fun id h => (nomatch h), fun h => nomatch h⟩
  rename_i remote hd
  have hcounter := (decodeHlc_eq_ok hd).1.counter
  have hmove := e.receiveClock_moved hcounter
  simp only
  split
  · exact ⟨hmove, fun id h => (nomatch h), fun h => nomatch h⟩
  · rename_i t hok
    refine ⟨hmove, fun id h => (nomatch h), fun _ => ⟨by rw [hk]; exact Option.some_ne_none k,
      ⟨k, hi.directory hk, hv⟩, ?_⟩⟩
    have spec := (HybridLogicalClock.receive_spec hi.bounded hcounter
      (e.env.physicalClock e.asked)).2.2.2 t hok
    rw [StoredOp.ticks, OpFields.ticks_eq hd]
    exact Nat.le_of_lt spec.2.1

/-- **What passes the checks of `applyRemoteOps`.** -/
theorem admitAll_spec {e : SyncEngine} (hi : Identity cr e) (raw : List Item) :
    Moved e (e.admitAll cr raw).2 ∧ (∀ id, (e.admitAll cr raw).1 ≠ .error (.callback id)) ∧
      ∀ {ops}, (e.admitAll cr raw).1 = .ok ops →
        RemoteBatch cr e (e.admitAll cr raw).2 ops ∧ raw.mapM Item.read = .ok ops := by
  induction raw generalizing e with
  | nil =>
    refine ⟨.refl e, fun id h => (nomatch h), fun h => ?_⟩
    obtain rfl := Except.ok.inj h
    exact ⟨⟨by simp, by simp, by simp⟩, rfl⟩
  | cons item rest ih =>
    unfold admitAll
    split
    · exact ⟨.refl e, fun id h => (nomatch h), fun h => nomatch h⟩
    rename_i o hread
    obtain ⟨hmove, hne, hok⟩ := admit_spec hi o
    simp only
    split
    · rename_i err hr
      exact ⟨hmove, fun id h => hne id (hr.trans (congrArg _ (Except.error.inj h))),
        fun h => nomatch h⟩
    rename_i hr
    obtain ⟨hmove', hne', hok'⟩ := ih (hmove.identity hi)
    refine ⟨hmove.trans hmove', fun id h => ?_, fun {ops} h => ?_⟩
    · cases hrs : ((e.admitOne cr o).2.admitAll cr rest).1 with
      | ok ops => rw [hrs] at h; cases h
      | error err =>
        rw [hrs] at h
        exact hne' id (hrs.trans (congrArg _ (Except.error.inj h)))
    · cases hrs : ((e.admitOne cr o).2.admitAll cr rest).1 with
      | error err => rw [hrs] at h; cases h
      | ok ops' =>
        rw [hrs] at h
        obtain rfl := Except.ok.inj h
        obtain ⟨hb, hreads⟩ := hok' hrs
        obtain ⟨hknown, hauth, hbound⟩ := hok hr
        refine ⟨⟨?_, ?_, ?_⟩, ?_⟩
        · rintro p (_ | ⟨_, hp⟩)
          · exact hknown
          · rw [← hmove.keys]; exact hb.known p hp
        · rintro p (_ | ⟨_, hp⟩)
          · exact hauth
          · exact hb.authentic p hp
        · rintro p (_ | ⟨_, hp⟩)
          · exact Nat.le_trans hbound (hmove'.clock (hmove.identity hi).bounded).2
          · exact hb.bound p hp
        · rw [List.mapM_cons, hread, hreads]
          rfl

/-! ## Every call -/

theorem Effect.write {e m : SyncEngine} (hi : Identity cr e) (hm : Moved e m) (table row : JsString)
    (values : List (JsString × Doc AnyNum)) :
    Effect cr e .write (m.write cr table row values) := by
  have hmove := makeLocalOps_moved cr table row values m
  unfold SyncEngine.write
  simp only
  split
  · rename_i err hr
    exact .idle hi (hm.trans hmove) fun id h =>
      makeLocalOps_ne_callback id (hr.trans (congrArg _ (Except.error.inj h)))
  · rename_i ops hok
    refine .map (.commit hi (hm.trans hmove) ?_) _
    obtain ⟨hb, -⟩ := makeLocalOps_made (hm.identity hi) hok
    refine ⟨fun o ho => (hb.device o ho).trans hm.device, fun o ho => ?_, fun o ho => ?_,
      hb.increasing⟩
    · rw [← hm.deviceKey]; exact hb.signed o ho
    · obtain ⟨h1, h2⟩ := hb.later o ho
      exact ⟨Nat.lt_of_le_of_lt (hm.clock hi.bounded).2 h1, h2⟩

theorem Effect.applyRemoteOps {e : SyncEngine} (hi : Identity cr e) (raw : List Item) :
    Effect cr e .write (e.applyRemoteOps cr raw) := by
  obtain ⟨hmove, hne, hok⟩ := admitAll_spec hi raw
  unfold SyncEngine.applyRemoteOps
  split
  · exact .idle hi (.refl e) fun id h => nomatch h
  simp only
  split
  · rename_i err hr
    exact .idle hi hmove fun id h => hne id (hr.trans (congrArg _ (Except.error.inj h)))
  · rename_i ops hr
    exact .commit hi hmove (hok hr).1

theorem Effect.learnKey {e : SyncEngine} (hi : Identity cr e) (id : JsString) (k : Bytes) :
    Effect cr e .write (Reply.quiet (e.learnKey cr id k).2 (.ok ())) := by
  unfold SyncEngine.learnKey
  split
  · exact .idle hi (.refl e) fun id h => nomatch h
  · rename_i hid
    exact {
      deviceKey := rfl
      device := rfl
      bounded := hi.bounded
      ticks := Nat.le_refl _
      learned := by
        intro d k' h
        change ((e.keys.insert id k)[d]? = some k') at h
        rw [Std.ExtTreeMap.getElem?_insert_eq] at h
        by_cases hd : id = d
        · rw [if_pos hd] at h
          rw [← Option.some.inj h, ← hd]
          exact .inr (not_not.1 hid)
        · rw [if_neg hd] at h
          exact .inl h
      known := by
        intro d h
        change ((e.keys.insert id k)[d]? ≠ none)
        rw [Std.ExtTreeMap.getElem?_insert_eq]
        by_cases hd : id = d
        · rw [if_pos hd]; exact Option.some_ne_none k
        · rw [if_neg hd]; exact h
      store := .idle rfl
      refused := fun h => nomatch h
      told := fun h => nomatch h }

/-- Adding or removing a callback. -/
theorem Effect.subscription {e : SyncEngine} (hi : Identity cr e) (subs : List Subscriber) :
    Effect cr e .write (Reply.quiet { e with subscribers := subs } (.ok ())) where
  deviceKey := rfl
  device := rfl
  bounded := hi.bounded
  ticks := Nat.le_refl _
  learned h := .inl h
  known h := h
  store := .idle rfl
  refused h := nomatch h
  told h := nomatch h

end SyncEngine

/-- What a call is for. -/
def Call.deed : Call → SyncEngine.Deed
  | recordPeerFrontier peer f => .record peer f
  | compact opts => .compact opts
  | insert .. | update .. | delete .. | applyRemoteOps .. | learnKey .. | subscribe ..
  | unsubscribe .. => .write

/-- **Every call has an effect of the kinds listed.** -/
theorem Call.run_effect {cr : Crypto} {e : SyncEngine} (hi : SyncEngine.Identity cr e) (c : Call) :
    SyncEngine.Effect cr e c.deed (c.run cr e) := by
  cases c with
  | insert table values => exact .map (.map (.write hi (.asked e _) ..) _) _
  | update table row values => exact .write hi (.refl e) ..
  | delete table row => exact .write hi (.refl e) ..
  | applyRemoteOps raw => exact .map (.applyRemoteOps hi raw) _
  | recordPeerFrontier peer f => exact .transact hi (.refl e) fun _ hs => .peerSaved hs
  | learnKey id key => exact .learnKey hi id key
  | compact opts =>
    refine .map ?_ _
    unfold SyncEngine.compact
    simp only
    split
    · exact .map (.transact hi (.refl e) fun _ hs => .compacted hs) _
    · exact .idle hi (.refl e) fun _ h => nomatch h
  | subscribe s => exact .subscription hi _
  | unsubscribe id => exact .subscription hi _

end TangentFeed.Dart
