import TangentFeed.Replica.Ledger

/-!
# What a call can do

`Effect cr e e' d ev` is everything a call of the engine can do, however it
ends: `e` and `e'` are the engine before and after, `d` the kind of the call and
`ev` the change event it committed. Every invariant of a replica is derived from
it, once.
-/

namespace TangentFeed

variable {cr : Crypto}

/-- A signature that verifies under a key whose hash is the device. -/
def Authentic (cr : Crypto) (o : Op) : Prop :=
  ∃ k, deviceIdFromPublicKey cr k = o.device ∧ verifyOp cr o k = true

namespace SyncEngine

/-- What holds of an engine's identity from its opening on. -/
structure Identity (cr : Crypto) (e : SyncEngine) : Prop where
  bounded : e.clock.Bounded
  device : e.deviceId = deviceIdFromPublicKey cr e.deviceKey.publicKey
  generated : ∃ seed, e.deviceKey = cr.keygen seed
  stored : e.storage.deviceKey = some e.deviceKey
  directory : ∀ {d : JsString} {k : Bytes}, e.keys[d]? = some k → deviceIdFromPublicKey cr k = d
  own : e.keys[e.deviceId]? ≠ none
  subscribers : (e.subscribers.map Subscriber.id).Nodup

/-- Only the clock moved, forward. -/
structure Moved (e e' : SyncEngine) : Prop where
  frame : e' = { e with clock := e'.clock, asked := e'.asked }
  device : e'.deviceId = e.deviceId
  clock : e.clock.Bounded → e'.clock.Bounded ∧ e.clock.ticks ≤ e'.clock.ticks

theorem Moved.refl (e : SyncEngine) : Moved e e := ⟨rfl, rfl, fun h => ⟨h, Nat.le_refl _⟩⟩

theorem Moved.trans {e e' e'' : SyncEngine} (h : Moved e e') (h' : Moved e' e'') : Moved e e'' where
  frame := by rw [h'.frame, h.frame]
  device := h'.device.trans h.device
  clock hb := ⟨(h'.clock (h.clock hb).1).1,
    Nat.le_trans (h.clock hb).2 (h'.clock (h.clock hb).1).2⟩

theorem Moved.asked (e : SyncEngine) (n : Nat) : Moved e { e with asked := n } :=
  ⟨rfl, rfl, fun h => ⟨h, Nat.le_refl _⟩⟩

theorem Moved.storage {e e' : SyncEngine} (h : Moved e e') : e'.storage = e.storage := by
  rw [h.frame]

theorem Moved.deviceKey {e e' : SyncEngine} (h : Moved e e') : e'.deviceKey = e.deviceKey := by
  rw [h.frame]

theorem Moved.keys {e e' : SyncEngine} (h : Moved e e') : e'.keys = e.keys := by rw [h.frame]

theorem Moved.subscribers {e e' : SyncEngine} (h : Moved e e') :
    e'.subscribers = e.subscribers := by rw [h.frame]

theorem Moved.cipher {e e' : SyncEngine} (h : Moved e e') : e'.cipher = e.cipher := by rw [h.frame]

theorem Moved.env {e e' : SyncEngine} (h : Moved e e') : e'.env = e.env := by rw [h.frame]

theorem Moved.identity {e e' : SyncEngine} (h : Moved e e') (hi : Identity cr e) :
    Identity cr e' where
  bounded := (h.clock hi.bounded).1
  device := by rw [h.device, h.deviceKey, hi.device]
  generated := by rw [h.deviceKey]; exact hi.generated
  stored := by rw [h.storage, h.deviceKey]; exact hi.stored
  directory := by rw [h.keys]; exact hi.directory
  own := by rw [h.keys, h.device]; exact hi.own
  subscribers := by rw [h.subscribers]; exact hi.subscribers

/-! ## Operations of a batch -/

/-- The operations a local write makes between two states of the clock. -/
structure LocalBatch (cr : Crypto) (e e' : SyncEngine) (ops : List Op) : Prop where
  device : ∀ o ∈ ops, o.device = e.deviceId
  signed : ∀ o ∈ ops, o.sig = signPayload cr (signedPayload o.raw) e.deviceKey.privateKey
  later : ∀ o ∈ ops, e.clock.ticks < o.ticks ∧ o.ticks ≤ e'.clock.ticks
  increasing : ops.Pairwise fun o p => o.ticks < p.ticks

/-- An operation that passed the checks before the lock. -/
def Admitted (cr : Crypto) (e : SyncEngine) (o : Op) : Prop :=
  e.keys[o.device]? ≠ none ∧ Authentic cr o

/-- The new operations of a batch from elsewhere. -/
structure RemoteBatch (cr : Crypto) (e e' : SyncEngine) (ops : List Op) : Prop where
  new : New e.storage ops
  admitted : ∀ o ∈ ops, Admitted cr e o
  bound : ∀ o ∈ ops, o.ticks ≤ e'.clock.ticks

/-- The operations of a change event by its origin. -/
def BatchOf (cr : Crypto) (e e' : SyncEngine) (ops : List Op) : Origin → Prop
  | .local => LocalBatch cr e e' ops
  | .remote => RemoteBatch cr e e' ops

/-- What a call is for, as far as the store is concerned. -/
inductive Deed where
  | write
  | record (peer : JsString) (f : Frontier)
  | compact (opts : CompactionOptions)

/-- What a call can do to the store. -/
inductive StorageEffect (cr : Crypto) (e e' : SyncEngine) : Deed → Option ChangeEvent → Prop where
  | idle {d : Deed} : e'.storage = e.storage → StorageEffect cr e e' d none
  | clockSaved : e'.storage = { e.storage with clock := some e'.clockState } →
      StorageEffect cr e e' .write none
  | peerSaved {peer : JsString} {f : Frontier} : e'.storage = e.storage.setPeerFrontier peer f →
      StorageEffect cr e e' (.record peer f) none
  | compacted {opts : CompactionOptions} : e'.storage = (compactStorage e.storage opts).1 →
      StorageEffect cr e e' (.compact opts) none
  | committed {ops : List Op} {origin : Origin} :
      e'.storage = committed e.storage ops e'.clockState → BatchOf cr e e' ops origin →
      StorageEffect cr e e' .write (some (changeEvent ops origin))

/-- **What a call can do.** -/
structure Effect (cr : Crypto) (e e' : SyncEngine) (d : Deed) (ev : Option ChangeEvent) : Prop where
  deviceKey : e'.deviceKey = e.deviceKey
  device : e'.deviceId = e.deviceId
  cipher : e'.cipher = e.cipher
  bounded : e'.clock.Bounded
  ticks : e.clock.ticks ≤ e'.clock.ticks
  learned : ∀ {i : JsString} {k : Bytes}, e'.keys[i]? = some k →
    e.keys[i]? = some k ∨ deviceIdFromPublicKey cr k = i
  known : ∀ {i : JsString}, e.keys[i]? ≠ none → e'.keys[i]? ≠ none
  subscribers : (e'.subscribers.map Subscriber.id).Nodup
  store : StorageEffect cr e e' d ev

/-- A move of the clock followed by a change of the store. -/
theorem Effect.of_moved {e m e' : SyncEngine} {d : Deed} {ev : Option ChangeEvent} (hi : Identity cr e)
    (hm : Moved e m) (hf : e' = { m with asked := e'.asked, storage := e'.storage })
    (hs : StorageEffect cr e e' d ev) : Effect cr e e' d ev where
  deviceKey := by rw [hf]; exact hm.deviceKey
  device := by rw [hf]; exact hm.device
  cipher := by rw [hf]; exact hm.cipher
  bounded := by rw [hf]; exact (hm.clock hi.bounded).1
  ticks := by rw [hf]; exact (hm.clock hi.bounded).2
  learned h := .inl (by rw [hf] at h; rw [← hm.keys]; exact h)
  known h := by rw [hf, ← hm.keys] at *; exact h
  subscribers := by rw [hf]; exact (hm.identity hi).subscribers
  store := hs

theorem BatchOf.congr {e e' e'' : SyncEngine} {ops : List Op} {origin : Origin}
    (h : BatchOf cr e e' ops origin) (hc : e''.clock = e'.clock) : BatchOf cr e e'' ops origin := by
  cases origin with
  | «local» => exact ⟨h.device, h.signed, fun o ho => by rw [hc]; exact h.later o ho, h.increasing⟩
  | remote => exact ⟨h.new, h.admitted, fun o ho => by rw [hc]; exact h.bound o ho⟩

/-! ## The parts of a call -/

/-- A transaction goes through or is refused whole. -/
theorem transact_cases (e : SyncEngine) (s : MemoryAdapter) :
    e.transact s = .quiet { e with asked := e.asked + 1 } (.error .storage) ∨
      e.transact s = .quiet { e with asked := e.asked + 1, storage := s } (.ok ()) := by
  unfold transact
  by_cases h : e.env.storageFails e.asked = true
  · exact .inl (if_pos h)
  · exact .inr (if_neg h)

/-- `commit` is refused, or persists and then calls the subscribers. -/
theorem commit_cases (e : SyncEngine) (ops : List Op) (origin : Origin) :
    e.commit ops origin = .quiet { e with asked := e.asked + 1 } (.error .storage) ∨
      e.commit ops origin = {
        engine := { e with asked := e.asked + 1, storage := committed e.storage ops e.clockState }
        result := match (notify e.subscribers (changeEvent ops origin)).2 with
          | none => .ok ()
          | some id => .error (.callback id)
        event := some (changeEvent ops origin)
        received := (notify e.subscribers (changeEvent ops origin)).1 } := by
  unfold commit
  rcases e.transact_cases (e.storage.applyBatch (commitBatch e.storage ops e.clockState)) with h | h
  · left
    rw [h]
    rfl
  · right
    rw [h]
    rfl

theorem Effect.idle {e m : SyncEngine} {d : Deed} (hi : Identity cr e) (hm : Moved e m) :
    Effect cr e m d none :=
  .of_moved hi hm rfl (.idle hm.storage)

theorem Effect.commit {e m : SyncEngine} (hi : Identity cr e) (hm : Moved e m) {ops : List Op}
    {origin : Origin} (hb : BatchOf cr e m ops origin) :
    Effect cr e (m.commit ops origin).engine .write (m.commit ops origin).event := by
  rcases m.commit_cases ops origin with h | h
  · rw [h]
    exact .idle hi (hm.trans (.asked m _))
  · rw [h]
    refine .of_moved hi hm rfl (.committed ?_ (hb.congr rfl))
    rw [← hm.storage]
    rfl

/-- A transaction that changes the store in one of the ways a call may. -/
theorem Effect.transact {e m : SyncEngine} (hi : Identity cr e) (hm : Moved e m) {d : Deed}
    {s : MemoryAdapter}
    (hs : ∀ e' : SyncEngine, e'.storage = s → e'.clock = m.clock → StorageEffect cr e e' d none) :
    Effect cr e (m.transact s).engine d (m.transact s).event := by
  rcases m.transact_cases s with h | h
  · rw [h]
    exact .idle hi (hm.trans (.asked m _))
  · rw [h]
    exact .of_moved hi hm rfl (hs _ rfl rfl)

theorem Effect.clockSaved {e m : SyncEngine} (hi : Identity cr e) (hm : Moved e m) :
    Effect cr e (m.transact (m.storage.applyBatch m.clockBatch)).engine .write
      (m.transact (m.storage.applyBatch m.clockBatch)).event := by
  refine .transact hi hm fun e' hs hc => .clockSaved ?_
  have e1 : m.storage.applyBatch m.clockBatch = { m.storage with clock := some m.clockState } :=
    m.storage.applyBatch_nil m.clockState
  rw [hs, e1, hm.storage]
  unfold clockState
  rw [hc]

theorem receiveClock_moved (e : SyncEngine) {h : Hlc} (hc : h.counter ≤ maxCounter) :
    Moved e (e.receiveClock h).2 := by
  have spec := fun hb => HybridLogicalClock.receive_spec (c := e.clock) hb hc
    (e.env.physicalClock e.asked)
  refine ⟨rfl, ?_, fun hb => ⟨(spec hb).2.1, (spec hb).1⟩⟩
  change (e.clock.receive h (e.env.physicalClock e.asked)).2.deviceId = e.clock.deviceId
  unfold HybridLogicalClock.receive
  split
  · rfl
  · exact HybridLogicalClock.rollover_deviceId _

/-- One turn of the loop of `maxOp`. -/
def later (m : Option Op) (o : Op) : Option Op :=
  match m with
  | none => some o
  | some x => if x.hlc < o.hlc then some o else m

theorem later_some (x o : Op) : later (some x) o = some (if x.hlc < o.hlc then o else x) := by
  rw [later, apply_ite some]

/-- The greatest operation of a batch. -/
theorem maxOp_spec (ops : List Op) :
    (maxOp ops = none ∧ ops = []) ∨
      ∃ m, maxOp ops = some m ∧ m ∈ ops ∧ ∀ o ∈ ops, o.hlc ≤ m.hlc := by
  have key : ∀ (ops : List Op) (a : Op), ∃ m, ops.foldl later (some a) = some m ∧
        m ∈ a :: ops ∧ ∀ o ∈ a :: ops, o.hlc ≤ m.hlc := by
    intro ops
    induction ops with
    | nil => exact fun a => ⟨a, rfl, List.mem_cons_self, by simp⟩
    | cons o ops ih =>
      intro a
      by_cases h : a.hlc < o.hlc
      · obtain ⟨m, h1, h2, h3⟩ := ih o
        refine ⟨m, ?_, List.mem_cons_of_mem _ h2, ?_⟩
        · rwa [List.foldl_cons, later_some, if_pos h]
        · rintro p (_ | ⟨_, hp⟩)
          · exact le_of_lt (lt_of_lt_of_le h (h3 o List.mem_cons_self))
          · exact h3 p hp
      · obtain ⟨m, h1, h2, h3⟩ := ih a
        refine ⟨m, ?_, ?_, ?_⟩
        · rwa [List.foldl_cons, later_some, if_neg h]
        · rcases List.mem_cons.1 h2 with rfl | h2
          · exact List.mem_cons_self
          · exact List.mem_cons_of_mem _ (List.mem_cons_of_mem _ h2)
        · rintro p (_ | ⟨_, hp⟩)
          · exact h3 a List.mem_cons_self
          · rcases List.mem_cons.1 hp with rfl | hp
            · exact le_trans (not_lt.1 h) (h3 a List.mem_cons_self)
            · exact h3 p (List.mem_cons_of_mem _ hp)
  cases ops with
  | nil => exact .inl ⟨rfl, rfl⟩
  | cons a ops => exact .inr (key ops a)

theorem ticks_le_of_hlc_le {o p : Op} (h : o.hlc ≤ p.hlc) : o.ticks ≤ p.ticks := by
  rcases lt_or_eq_of_le h with h | h
  · rcases Op.hlc_lt.1 h with h | ⟨h, -⟩ <;> omega
  · exact le_of_eq (Op.ticks_eq_of_hlc h)

theorem receiveMax_moved (e : SyncEngine) (ops : List Op) : Moved e (e.receiveMax ops).2 := by
  unfold receiveMax
  split
  · exact .refl e
  · split
    · exact .refl e
    · rename_i op _ remote hd
      exact e.receiveClock_moved (decodeHlc_eq_ok hd).1.counter

/-- A clock that took in the greatest operation is past the whole batch. -/
theorem receiveMax_bound {e : SyncEngine} (hb : e.clock.Bounded) {ops : List Op}
    (h : (e.receiveMax ops).1 = .ok ()) : ∀ o ∈ ops, o.ticks ≤ (e.receiveMax ops).2.clock.ticks := by
  intro o ho
  rcases maxOp_spec ops with ⟨-, rfl⟩ | ⟨m, hm, -, hmax⟩
  · cases ho
  · have hle := ticks_le_of_hlc_le (hmax o ho)
    obtain ⟨hh, hd, -⟩ := m.exists_hlc
    unfold receiveMax at h ⊢
    simp only [hm, hd] at h ⊢
    have spec := HybridLogicalClock.receive_spec hb (decodeHlc_eq_ok hd).1.counter
      (e.env.physicalClock e.asked)
    cases hr : (e.receiveClock hh).1 with
    | error err => rw [hr] at h; cases h
    | ok t =>
      have hlt := (spec.2.2.2 t hr).2.1
      rw [Op.ticks_eq hd] at hle
      exact Nat.le_of_lt (Nat.lt_of_le_of_lt hle hlt)

/-- The fresh operations are new and all come from the batch. -/
theorem freshOps_spec (s : MemoryAdapter) (ops : List Op) :
    New s (freshOps s ops) ∧ (∀ o ∈ freshOps s ops, o ∈ ops) ∧
      ∀ o ∈ ops, s.hasOp o.id = false → ∃ p ∈ freshOps s ops, p.id = o.id := by
  have key : ∀ (ops acc : List Op), New s acc →
      let r := ops.foldl (fun fresh op =>
        if !s.hasOp op.id && !fresh.any (·.id == op.id) then fresh ++ [op] else fresh) acc
      New s r ∧ (∀ o ∈ r, o ∈ acc ∨ o ∈ ops) ∧ (∀ o ∈ acc, o ∈ r) ∧
        ∀ o ∈ ops, s.hasOp o.id = false → ∃ p ∈ r, p.id = o.id := by
    intro ops
    induction ops with
    | nil => exact fun acc h => ⟨h, fun o ho => .inl ho, fun o ho => ho, by simp⟩
    | cons o ops ih =>
      intro acc h
      simp only [List.foldl_cons]
      by_cases hc : (!s.hasOp o.id && !acc.any (·.id == o.id)) = true
      · rw [if_pos hc]
        simp only [Bool.and_eq_true, Bool.not_eq_true', List.any_eq_false, beq_iff_eq] at hc
        have hnew : New s (acc ++ [o]) := by
          refine ⟨?_, fun p hp => ?_⟩
          · rw [List.map_append, List.nodup_append]
            refine ⟨h.nodup, List.nodup_singleton _, fun a ha b hb => ?_⟩
            obtain ⟨p, hp, rfl⟩ := List.mem_map.1 ha
            rw [List.map_singleton, List.mem_singleton] at hb
            subst hb
            exact hc.2 p hp
          · rcases List.mem_append.1 hp with hp | hp
            · exact h.notLogged p hp
            · rw [List.mem_singleton.1 hp]; exact hc.1
        obtain ⟨h1, h2, h3, h4⟩ := ih _ hnew
        refine ⟨h1, fun p hp => ?_, fun p hp => h3 p (List.mem_append_left _ hp), ?_⟩
        · rcases h2 p hp with hp | hp
          · rcases List.mem_append.1 hp with hp | hp
            · exact .inl hp
            · rw [List.mem_singleton.1 hp]; exact .inr List.mem_cons_self
          · exact .inr (List.mem_cons_of_mem _ hp)
        · rintro p (_ | ⟨_, hp⟩) hn
          · exact ⟨o, h3 o (List.mem_append_right _ (List.mem_singleton_self _)), rfl⟩
          · exact h4 p hp hn
      · rw [if_neg hc]
        obtain ⟨h1, h2, h3, h4⟩ := ih _ h
        refine ⟨h1, fun p hp => (h2 p hp).imp_right (List.mem_cons_of_mem _), h3, ?_⟩
        rintro p (_ | ⟨_, hp⟩) hn
        · simp only [hn, Bool.not_false, Bool.true_and, Bool.not_eq_true', Bool.not_eq_false,
            List.any_eq_true, beq_iff_eq] at hc
          obtain ⟨q, hq, hid⟩ := hc
          exact ⟨q, h3 q hq, hid⟩
        · exact h4 p hp hn
  obtain ⟨h1, h2, -, h4⟩ := key ops [] ⟨List.nodup_nil, by simp⟩
  exact ⟨h1, fun o ho => (h2 o ho).resolve_left (by simp), h4⟩

/-! ## Local operations -/

/-- The signature is no part of what is signed. -/
theorem signedPayload_signedOp (e : SyncEngine) (table row column : JsString) (value : Json)
    (hlc : JsString) :
    (signedOp cr e table row column value hlc).getStr (js "sig") =
      signPayload cr (signedPayload (signedOp cr e table row column value hlc))
        e.deviceKey.privateKey := rfl

theorem storedValue_moved (e : SyncEngine) (column : JsString) (value : Json) (hlc : JsString) :
    Moved e (e.storedValue column value hlc).2 ∧
      (e.storedValue column value hlc).2.clock = e.clock := by
  unfold storedValue
  split
  · exact ⟨.refl e, rfl⟩
  · split
    · exact ⟨.refl e, rfl⟩
    · exact ⟨.asked e _, rfl⟩

theorem now_moved (e : SyncEngine) (n : Nat) (pt : Int) :
    Moved e { e with clock := (e.clock.now pt).2, asked := n } := by
  refine ⟨rfl, ?_, fun hb => ?_⟩
  · change (e.clock.now pt).2.deviceId = e.clock.deviceId
    unfold HybridLogicalClock.now
    simp only
    split
    · rfl
    · exact HybridLogicalClock.rollover_deviceId _
  · obtain ⟨h1, h2, -⟩ := HybridLogicalClock.now_spec hb pt
    exact ⟨h2, Nat.le_of_lt h1⟩

/-- What one local operation is. -/
structure MadeOp (cr : Crypto) (e e' : SyncEngine) (table row column : JsString) (op : Op) :
    Prop where
  table : op.table = table
  row : op.row = row
  column : op.column = column
  device : op.device = e.deviceId
  signed : op.sig = signPayload cr (signedPayload op.raw) e.deviceKey.privateKey
  ticks : op.ticks = e'.clock.ticks
  later : e.clock.ticks < e'.clock.ticks

theorem makeLocalOp_moved (cr : Crypto) (e : SyncEngine) (table row column : JsString) (value : Json) :
    Moved e (e.makeLocalOp cr table row column value).2 := by
  unfold makeLocalOp
  have h := now_moved e (e.asked + 1) (e.env.physicalClock e.asked)
  simp only
  split
  · exact h
  · split
    · exact h.trans (storedValue_moved ..).1
    · exact h.trans (storedValue_moved ..).1

theorem makeLocalOp_made {e : SyncEngine} (hi : Identity cr e) {table row column : JsString}
    {value : Json} {op : Op} (h : (e.makeLocalOp cr table row column value).1 = .ok op) :
    MadeOp cr e (e.makeLocalOp cr table row column value).2 table row column op := by
  unfold makeLocalOp at h ⊢
  obtain ⟨hlt, hb, hd⟩ := HybridLogicalClock.now_spec hi.bounded (e.env.physicalClock e.asked)
  generalize hnow : e.clock.now (e.env.physicalClock e.asked) = r at h hlt hb hd ⊢
  obtain ⟨res, c⟩ := r
  simp only at h hlt hb hd ⊢
  cases res with
  | error err => cases h
  | ok t =>
    simp only at h ⊢
    have hok : (e.clock.now (e.env.physicalClock e.asked)).1 = .ok t := by rw [hnow]
    obtain ⟨ht, hm⟩ := HybridLogicalClock.now_eq_ok hok
    rw [hnow] at ht hm
    simp only at ht hm
    subst ht
    generalize hs : ({ e with clock := c, asked := e.asked + 1 } : SyncEngine).storedValue column
      value (encodeHlc c.state) = stored at h ⊢
    have hst := storedValue_moved ({ e with clock := c, asked := e.asked + 1 } : SyncEngine) column
      value (encodeHlc c.state)
    rw [hs] at hst
    have hdev : stored.2.deviceId = e.deviceId := hst.1.device.trans hd
    have hvalid : isValidDeviceId c.deviceId = true := by
      have e1 : c.deviceId = e.deviceId := hd
      rw [e1, hi.device]
      exact isValidDeviceId_deviceIdFromPublicKey _
    split at h
    · cases h
    · obtain rfl := Except.ok.inj h
      have hdec : decodeHlc (encodeHlc c.state) = .ok c.state :=
        decodeHlc_encodeHlc (HybridLogicalClock.state_inRange hb hm hvalid)
      have hclk : stored.2.clock = c := hst.2
      exact {
        table := rfl
        row := rfl
        column := rfl
        device := hdev
        signed := by
          rw [← hst.1.deviceKey]
          exact signedPayload_signedOp ..
        ticks := by
          rw [hclk]
          exact Op.ticks_eq hdec
        later := by
          rw [hclk]
          exact hlt }

theorem makeLocalOps_moved (cr : Crypto) (table row : JsString) (values : List (JsString × Json))
    (e : SyncEngine) : Moved e (e.makeLocalOps cr table row values).2 := by
  induction values generalizing e with
  | nil => exact .refl e
  | cons v values ih =>
    obtain ⟨column, value⟩ := v
    unfold makeLocalOps
    have h1 := e.makeLocalOp_moved cr table row column value
    simp only
    split
    · exact h1
    · exact h1.trans (ih _)

/-- What the operations of one local write are. -/
theorem makeLocalOps_made {table row : JsString} {values : List (JsString × Json)} {e : SyncEngine}
    (hi : Identity cr e) {ops : List Op} (h : (e.makeLocalOps cr table row values).1 = .ok ops) :
    LocalBatch cr e (e.makeLocalOps cr table row values).2 ops ∧
      ops.map Op.cell = values.map fun v => (table, row, v.1) := by
  induction values generalizing e ops with
  | nil =>
    obtain rfl := Except.ok.inj h
    exact ⟨⟨by simp, by simp, by simp, .nil⟩, rfl⟩
  | cons v values ih =>
    obtain ⟨column, value⟩ := v
    unfold makeLocalOps at h ⊢
    have hmove := e.makeLocalOp_moved cr table row column value
    cases hr : (e.makeLocalOp cr table row column value).1 with
    | error err => simp only [hr] at h; cases h
    | ok op =>
      simp only [hr] at h ⊢
      have hmade := makeLocalOp_made hi hr
      generalize (e.makeLocalOp cr table row column value).2 = m at h hmove hmade ⊢
      cases hrs : (m.makeLocalOps cr table row values).1 with
      | error err => rw [hrs] at h; cases h
      | ok rest =>
        rw [hrs] at h
        obtain rfl := Except.ok.inj h
        have him := hmove.identity hi
        obtain ⟨hb, hc⟩ := ih him hrs
        have hlast := ((makeLocalOps_moved cr table row values m).clock him.bounded).2
        refine ⟨⟨?_, ?_, ?_, ?_⟩, ?_⟩
        · rintro o (_ | ⟨_, ho⟩)
          · exact hmade.device
          · exact (hb.device o ho).trans hmove.device
        · rintro o (_ | ⟨_, ho⟩)
          · exact hmade.signed
          · rw [← hmove.deviceKey]; exact hb.signed o ho
        · rintro o (_ | ⟨_, ho⟩)
          · rw [hmade.ticks]; exact ⟨hmade.later, hlast⟩
          · obtain ⟨h1, h2⟩ := hb.later o ho
            exact ⟨Nat.lt_trans hmade.later h1, h2⟩
        · refine .cons (fun o ho => ?_) hb.increasing
          rw [hmade.ticks]
          exact (hb.later o ho).1
        · rw [List.map_cons, List.map_cons, hc]
          congr 1
          unfold Op.cell
          rw [hmade.table, hmade.row, hmade.column]

/-! ## Every call -/

theorem Effect.localWrite {e m : SyncEngine} (hi : Identity cr e) (hm : Moved e m)
    {table row : JsString} {values : List (JsString × Json)} :
    let made := m.makeLocalOps cr table row values
    let r : Reply Unit := match made.1 with
      | .error err => .quiet made.2 (.error err)
      | .ok ops => made.2.commit ops .local
    Effect cr e r.engine .write r.event := by
  have hmove := makeLocalOps_moved cr table row values m
  simp only
  split
  · exact .idle hi (hm.trans hmove)
  · rename_i ops hok
    refine .commit hi (hm.trans hmove) ?_
    obtain ⟨hb, -⟩ := makeLocalOps_made (hm.identity hi) hok
    refine ⟨fun o ho => (hb.device o ho).trans hm.device, fun o ho => ?_, fun o ho => ?_,
      hb.increasing⟩
    · rw [← hm.deviceKey]; exact hb.signed o ho
    · obtain ⟨h1, h2⟩ := hb.later o ho
      exact ⟨Nat.lt_of_le_of_lt (hm.clock hi.bounded).2 h1, h2⟩

theorem Effect.update {e m : SyncEngine} (hi : Identity cr e) (hm : Moved e m)
    (table row : JsString) (values : Record) :
    Effect cr e (m.update cr table row values).engine .write (m.update cr table row values).event :=
  Effect.localWrite hi hm

/-- Merging a batch that passed the checks. -/
theorem Effect.mergeAdmitted {e : SyncEngine} (hi : Identity cr e) {ops : List Op}
    (ha : ∀ o ∈ ops, Admitted cr e o) :
    Effect cr e (e.mergeAdmitted ops).engine .write (e.mergeAdmitted ops).event := by
  have hm := e.receiveMax_moved ops
  unfold SyncEngine.mergeAdmitted
  simp only
  split
  · exact .idle hi hm
  · rename_i hok
    split
    · exact Effect.clockSaved hi hm
    · have hb := receiveMax_bound hi.bounded hok
      obtain ⟨hn, hsub, -⟩ := freshOps_spec (e.receiveMax ops).2.storage ops
      rw [hm.storage] at hn hsub ⊢
      have hbatch : BatchOf cr e (e.receiveMax ops).2 (freshOps e.storage ops) .remote :=
        ⟨hn, fun o ho => ha o (hsub o ho), fun o ho => hb o (hsub o ho)⟩
      exact .commit hi hm hbatch

/-- **What passes the checks before the lock.** -/
theorem checkBatch_eq_ok {e : SyncEngine} {remoteOps : List Json} {ops : List Op}
    (h : e.checkBatch cr remoteOps = .ok ops) :
    remoteOps = ops.map Op.raw ∧ ops.length ≤ maxBatchOps ∧
      ∀ o ∈ ops, ∃ k, e.keys[o.device]? = some k ∧ verifyOp cr o k = true := by
  unfold checkBatch at h
  split at h
  · cases h
  rename_i hlen
  split at h
  · cases h
  rename_i ops' hval
  split at h
  · cases h
  rename_i hsig
  obtain rfl := Except.ok.inj h
  have hraw := validateOps_eq_ok.1 hval
  refine ⟨hraw, ?_, fun o ho => ?_⟩
  · rw [hraw, List.length_map] at hlen
    omega
  · have := List.findSome?_eq_none_iff.1 hsig o ho
    cases hk : e.keys[o.device]? with
    | none => simp [hk] at this
    | some k => exact ⟨k, rfl, by simpa [hk] using this⟩

theorem admitted_of_checkBatch {e : SyncEngine} (hi : Identity cr e) {remoteOps : List Json}
    {ops : List Op} (h : e.checkBatch cr remoteOps = .ok ops) : ∀ o ∈ ops, Admitted cr e o := by
  intro o ho
  obtain ⟨k, hk, hv⟩ := (checkBatch_eq_ok h).2.2 o ho
  exact ⟨by rw [hk]; exact Option.some_ne_none k, k, hi.directory hk, hv⟩

theorem Effect.applyRemoteOps {e : SyncEngine} (hi : Identity cr e) (remoteOps : List Json) :
    Effect cr e (e.applyRemoteOps cr remoteOps).engine .write (e.applyRemoteOps cr remoteOps).event := by
  unfold SyncEngine.applyRemoteOps
  split
  · exact .idle hi (.refl e)
  · rename_i ops hok
    exact .mergeAdmitted hi (admitted_of_checkBatch hi hok)

theorem Effect.observeRemoteClock {e : SyncEngine} (hi : Identity cr e) (hlc : JsString) :
    Effect cr e (e.observeRemoteClock hlc).engine .write (e.observeRemoteClock hlc).event := by
  unfold SyncEngine.observeRemoteClock
  split
  · exact .idle hi (.refl e)
  · rename_i remote hd
    have hm := e.receiveClock_moved (decodeHlc_eq_ok hd).1.counter
    simp only
    split
    · exact .idle hi hm
    · exact .clockSaved hi hm

theorem Effect.recordPeerFrontier {e : SyncEngine} (hi : Identity cr e) (peer : JsString)
    (f : Frontier) :
    Effect cr e (e.recordPeerFrontier peer f).engine (.record peer f)
      (e.recordPeerFrontier peer f).event := by
  unfold SyncEngine.recordPeerFrontier
  split
  · exact .idle hi (.refl e)
  · exact .transact hi (.refl e) fun _ hs _ => .peerSaved hs

theorem Effect.compact {e : SyncEngine} (hi : Identity cr e) (opts : CompactionOptions) :
    Effect cr e (e.compact opts).engine (.compact opts) (e.compact opts).event := by
  unfold SyncEngine.compact
  simp only
  split
  · exact .transact hi (.refl e) fun _ hs _ => .compacted hs
  · exact .idle hi (.refl e)

/-- A compaction commits no batch. -/
theorem compact_event {e : SyncEngine} {opts : CompactionOptions} :
    (e.compact opts).event = none := by
  unfold compact
  simp only
  split
  · rcases e.transact_cases (compactStorage e.storage opts).1 with h | h
    · rw [h]
      rfl
    · rw [h]
      rfl
  · rfl

theorem Effect.learnKey {e : SyncEngine} (hi : Identity cr e) (id : JsString) (k : Bytes) :
    Effect cr e (e.learnKey cr id k).2 .write none := by
  unfold SyncEngine.learnKey
  split
  · exact .idle hi (.refl e)
  · rename_i hid
    have hid : deviceIdFromPublicKey cr k = id := by simpa using hid
    exact {
      deviceKey := rfl, device := rfl, cipher := rfl
      bounded := hi.bounded
      ticks := Nat.le_refl _
      learned := by
        intro d k' h
        rw [Std.ExtTreeMap.getElem?_insert_eq] at h
        by_cases hd : id = d
        · rw [if_pos hd] at h
          rw [← Option.some.inj h, hid]
          exact .inr hd
        · rw [if_neg hd] at h
          exact .inl h
      known := by
        intro d h
        simp only
        rw [Std.ExtTreeMap.getElem?_insert_eq]
        by_cases hd : id = d
        · rw [if_pos hd]; exact Option.some_ne_none k
        · rw [if_neg hd]; exact h
      subscribers := hi.subscribers
      store := .idle rfl }

/-- Adding or deleting a callback. -/
theorem Effect.subscription {e : SyncEngine} (hi : Identity cr e) {subs : List Subscriber}
    (h : (subs.map Subscriber.id).Nodup) : Effect cr e { e with subscribers := subs } .write none where
  deviceKey := rfl
  device := rfl
  cipher := rfl
  bounded := hi.bounded
  ticks := Nat.le_refl _
  learned h := .inl h
  known h := h
  subscribers := h
  store := .idle rfl

theorem Effect.subscribe {e : SyncEngine} (hi : Identity cr e) (s : Subscriber) :
    Effect cr e (e.subscribe s) .write none := by
  unfold SyncEngine.subscribe
  by_cases h : e.subscribers.any (·.id == s.id) = true
  · rw [if_pos h]
    exact .idle hi (.refl e)
  · rw [if_neg h]
    apply Effect.subscription hi
    rw [List.map_append, List.nodup_append]
    refine ⟨hi.subscribers, List.nodup_singleton _, fun a ha b hb => ?_⟩
    obtain ⟨p, hp, rfl⟩ := List.mem_map.1 ha
    rw [List.map_singleton, List.mem_singleton] at hb
    subst hb
    intro e1
    exact h (List.any_eq_true.2 ⟨p, hp, beq_iff_eq.2 e1⟩)

theorem Effect.unsubscribe {e : SyncEngine} (hi : Identity cr e) (id : SubscriberId) :
    Effect cr e (e.unsubscribe id) .write none := by
  apply Effect.subscription hi
  exact hi.subscribers.sublist ((List.filter_sublist).map _)

end SyncEngine

/-- What a call is for. -/
def Call.deed : Call → SyncEngine.Deed
  | recordPeerFrontier peer f => .record peer f
  | compact opts => .compact opts
  | insert .. | update .. | delete .. | applyRemoteOps .. | observeRemoteClock .. | learnKey ..
  | subscribe .. | unsubscribe .. => .write

open SyncEngine in
/-- **Every call has an effect of the kinds listed.** -/
theorem Call.run_effect {e : SyncEngine} (hi : Identity cr e) (c : Call) :
    Effect cr e (c.run cr e).engine c.deed (c.run cr e).event := by
  cases c with
  | insert table values =>
    unfold Call.run SyncEngine.insert
    simp only
    split
    · exact .idle hi (.asked e _)
    · exact .update hi (.asked e _) ..
  | update table row values => exact .update hi (.refl e) ..
  | delete table row => exact Effect.localWrite hi (.refl e)
  | applyRemoteOps ops => exact .applyRemoteOps hi ops
  | observeRemoteClock hlc => exact .observeRemoteClock hi hlc
  | recordPeerFrontier peer f => exact .recordPeerFrontier hi peer f
  | learnKey id key => exact .learnKey hi id key
  | compact opts => exact .compact hi opts
  | subscribe s => exact .subscribe hi s
  | unsubscribe id => exact .unsubscribe hi id

end TangentFeed
