import TangentFeed.Replica.Drift
import TangentFeed.Replica.Veiled

/-!
# Calls on a store and its encrypted twin

Two engines that hold related operations, one without a cipher and one with it, are
given the same calls. Where the outside answers both alike, which is the clock
readings and the row ids, and no call rejects, they hold related operations
afterwards and have told their subscribers of the same rows. The nonces are the
cipher's own: the engine without one draws none.
-/

namespace TangentFeed

open Std

/-- What a call takes from outside: the readings of the physical clock, and the row id. -/
structure Inputs where
  readings : List Int
  rowId : Option JsString
  deriving DecidableEq

namespace SyncEngine

variable {cr : Crypto}

/-! ## Inputs -/

/-- The readings of the operations of a local write, one each. -/
def writeReadings (cr : Crypto) (e : SyncEngine) (table row : JsString) :
    List (JsString × Json) → List Int
  | [] => []
  | (column, value) :: rest =>
    e.reading ::
      match (e.makeLocalOp cr table row column value).1 with
      | .error _ => []
      | .ok _ => writeReadings cr (e.makeLocalOp cr table row column value).2 table row rest

/-- A merge observes its newest operation, if it has one. -/
def mergeReadings (e : SyncEngine) (ops : List Op) : List Int :=
  if ops.isEmpty then [] else [e.reading]

def observeReadings (e : SyncEngine) (hlc : JsString) : List Int :=
  match decodeHlc hlc with
  | .error _ => []
  | .ok _ => [e.reading]

/-- The row id an insert draws. -/
def drawnRow (e : SyncEngine) : Option JsString :=
  ulid (max e.clock.millis (e.env.dateNow e.asked) % 2 ^ 48)
    ((List.range 10).map (e.env.random (e.asked + 1)))

end SyncEngine

/-- What a call takes from outside. -/
def Call.inputs (cr : Crypto) (e : SyncEngine) : Call → Inputs
  | insert table values =>
    match e.drawnRow with
    | none => ⟨[], none⟩
    | some row =>
      ⟨SyncEngine.writeReadings cr { e with asked := e.asked + 2 } table row values.entries, some row⟩
  | update table row values => ⟨e.writeReadings cr table row values.entries, none⟩
  | delete table row => ⟨e.writeReadings cr table row [(tombstoneColumn, .bool true)], none⟩
  | applyRemoteOps ops =>
    match e.checkBatch cr ops with
    | .error _ => ⟨[], none⟩
    | .ok ops => ⟨e.mergeReadings ops, none⟩
  | observeRemoteClock hlc => ⟨e.observeReadings hlc, none⟩
  | recordPeerFrontier .. | learnKey .. | compact _ | subscribe _ | unsubscribe _ => ⟨[], none⟩

/-- A call of the application. What it writes are values of the source, and operations
come from other replicas. -/
def Call.Ordinary : Call → Prop
  | insert _ values | update _ _ values => ∀ v ∈ values.entries, v.2.proper = true
  | applyRemoteOps _ => False
  | delete .. | observeRemoteClock _ | recordPeerFrontier .. | learnKey .. | compact _
  | subscribe _ | unsubscribe _ => True

/-! ## Replies -/

structure ChangeEvent.Veiled (c : Cipher) (ev ev' : ChangeEvent) : Prop where
  changes : ev.changes = ev'.changes
  ops : List.Forall₂ (Op.Veiled c) ev.ops ev'.ops
  origin : ev.origin = ev'.origin

/-- The same reply, from related engines. -/
structure Reply.Veiled {α : Type} (c : Cipher) (r r' : Reply α) : Prop where
  engine : r.engine.Veiled c r'.engine
  result : r.result = r'.result
  event : Option.Rel (ChangeEvent.Veiled c) r.event r'.event
  received : r.received = r'.received

variable {cr : Crypto} {c : Cipher} {e e' m m' : SyncEngine} {ops ops' : List Op}

theorem Reply.Veiled.map {α β : Type} {r r' : Reply α} (h : r.Veiled c r') (f : α → β) :
    (r.map f).Veiled c (r'.map f) where
  engine := h.engine
  result := congrArg (Except.map f) h.result
  event := h.event
  received := h.received

theorem Reply.Veiled.quiet {α : Type} (h : e.Veiled c e') (result : Except JsError α) :
    (Reply.quiet e result).Veiled c (Reply.quiet e' result) :=
  ⟨h, rfl, .none, rfl⟩

/-- A call resolves before what is made of its result. -/
theorem Reply.ok_of_map {α β : Type} {r : Reply α} {f : α → β} {y : β}
    (h : (r.map f).result = .ok y) : ∃ x, r.result = .ok x := by
  cases hr : r.result with
  | ok x => exact ⟨x, rfl⟩
  | error err =>
    have hmap : Except.map f r.result = .ok y := h
    rw [hr] at hmap
    cases hmap

namespace SyncEngine

theorem Veiled.moved (h : e.Veiled c e') (hm : Moved e m) (hm' : Moved e' m')
    (hclock : m.clock = m'.clock) : m.Veiled c m' where
  storage := by
    rw [hm.storage, hm'.storage]
    exact h.storage
  clock := hclock
  deviceKey := by rw [hm.deviceKey, hm'.deviceKey, h.deviceKey]
  keys := by rw [hm.keys, hm'.keys, h.keys]
  subscribers := by rw [hm.subscribers, hm'.subscribers, h.subscribers]
  plain := hm.cipher.trans h.plain
  cipher := hm'.cipher.trans h.cipher

theorem Veiled.deviceId (h : e.Veiled c e') : e.deviceId = e'.deviceId :=
  congrArg HybridLogicalClock.deviceId h.clock

/-! ## Transactions -/

theorem transact_eq_ok {s : MemoryAdapter} {x : Unit} (h : (e.transact s).result = .ok x) :
    e.transact s = .quiet { e with asked := e.asked + 1, storage := s } (.ok ()) := by
  rcases e.transact_cases s with h' | h'
  · rw [h'] at h
    cases h
  · exact h'

theorem transact_veiled (h : e.Veiled c e') {s s' : MemoryAdapter} (hs : s.Veiled c s') {x x' : Unit}
    (hr : (e.transact s).result = .ok x) (hr' : (e'.transact s').result = .ok x') :
    (e.transact s).Veiled c (e'.transact s') := by
  rw [transact_eq_ok hr, transact_eq_ok hr']
  refine Reply.Veiled.quiet ?_ _
  exact ⟨hs, h.clock, h.deviceKey, h.keys, h.subscribers, h.plain, h.cipher⟩

/-- The clock is saved. -/
theorem clockBatch_veiled (h : e.Veiled c e') :
    (e.storage.applyBatch e.clockBatch).Veiled c (e'.storage.applyBatch e'.clockBatch) :=
  h.storage.applyBatch ⟨.nil, .empty, h.storage.frontier⟩

/-- Where no callback throws, all are called. -/
theorem notify_of_none {subs : List Subscriber} {ev : ChangeEvent}
    (h : (notify subs ev).2 = none) : (notify subs ev).1 = subs.map Subscriber.id := by
  induction subs with
  | nil => rfl
  | cons s subs ih =>
    unfold notify at h ⊢
    split
    · rename_i hs
      rw [if_pos hs] at h
      cases h
    · rename_i hs
      rw [if_neg hs] at h
      exact congrArg (s.id :: ·) (ih h)

theorem commitOp_veiled {s s' : MemoryAdapter} (h : s.Veiled c s') {acc acc' : JsMap Op × Frontier}
    (hw : ExtTreeMap.Rel (Op.Veiled c) acc.1 acc'.1) (hf : acc.2 = acc'.2) {a b : Op}
    (hab : a.Veiled c b) :
    ExtTreeMap.Rel (Op.Veiled c) (commitOp s acc a).1 (commitOp s' acc' b).1 ∧
      (commitOp s acc a).2 = (commitOp s' acc' b).2 := by
  unfold commitOp
  simp only
  rw [← hab.table, ← hab.row, ← hab.column, ← hab.hlc]
  refine ⟨?_, by rw [hf, hab.advanceFrontier]⟩
  rcases hw.cases (cellKey a.table a.row a.column) with ⟨hn, hn'⟩ | ⟨p, p', hp, hp', hpp⟩
  · rw [hn, hn', Option.none_or, Option.none_or]
    have hwin : Option.Rel (Op.Veiled c) (s.getWinner a.table a.row a.column)
        (s'.getWinner a.table a.row a.column) := h.winner (a.table, a.row, a.column)
    generalize s.getWinner a.table a.row a.column = cur at hwin ⊢
    generalize s'.getWinner a.table a.row a.column = cur' at hwin ⊢
    cases hwin with
    | none => exact hw.insert _ hab
    | some hcur =>
      simp only [hcur.hlc]
      split
      · exact hw.insert _ hab
      · exact hw.insert _ hcur
  · rw [hp, hp', Option.some_or, Option.some_or]
    simp only [hpp.hlc]
    split
    · exact hw.insert _ hab
    · exact hw

theorem commitBatch_veiled {s s' : MemoryAdapter} (h : s.Veiled c s')
    (ho : List.Forall₂ (Op.Veiled c) ops ops') (clock clock' : ClockState) :
    (commitBatch s ops clock).Veiled c (commitBatch s' ops' clock') := by
  have hacc := ho.foldl (P := fun acc acc' : JsMap Op × Frontier =>
      ExtTreeMap.Rel (Op.Veiled c) acc.1 acc'.1 ∧ acc.2 = acc'.2)
    (fun hs hab => commitOp_veiled h hs.1 hs.2 hab) (s := (∅, s.frontier)) (t := (∅, s'.frontier))
    ⟨.empty, h.frontier⟩
  exact ⟨ho, hacc.1, hacc.2⟩

theorem changeEvent_veiled (ho : List.Forall₂ (Op.Veiled c) ops ops') (origin : Origin) :
    (changeEvent ops origin).Veiled c (changeEvent ops' origin) where
  changes := by
    unfold changeEvent changesOf
    rw [ho.map_eq fun hab => hab.rowKey]
  ops := ho
  origin := rfl

/-- **A commit** writes related batches and tells of the same rows. -/
theorem commit_veiled (h : e.Veiled c e') (ho : List.Forall₂ (Op.Veiled c) ops ops') (origin : Origin)
    {x x' : Unit} (hr : (e.commit ops origin).result = .ok x)
    (hr' : (e'.commit ops' origin).result = .ok x') :
    (e.commit ops origin).Veiled c (e'.commit ops' origin) := by
  have told {e : SyncEngine} {ops : List Op} {x : Unit} (hr : (e.commit ops origin).result = .ok x) :
      e.commit ops origin = {
        engine := { e with asked := e.asked + 1, storage := committed e.storage ops e.clockState }
        result := .ok ()
        event := some (changeEvent ops origin)
        received := e.subscribers.map Subscriber.id } := by
    rcases e.commit_cases ops origin with hc | hc
    · rw [hc] at hr
      cases hr
    · rw [hc] at hr ⊢
      cases hn : (notify e.subscribers (changeEvent ops origin)).2 with
      | some id => rw [hn] at hr; cases hr
      | none => rw [notify_of_none hn]
  rw [told hr, told hr']
  exact {
    engine := ⟨h.storage.applyBatch (commitBatch_veiled h.storage ho _ _), h.clock, h.deviceKey,
      h.keys, h.subscribers, h.plain, h.cipher⟩
    result := rfl
    event := .some (changeEvent_veiled ho origin)
    received := h.subscribers }

/-! ## Local writes -/

theorem makeLocalOp_clock (e : SyncEngine) (table row column : JsString) (value : Json) :
    (e.makeLocalOp cr table row column value).2.clock = (e.clock.now e.reading).2 := by
  unfold makeLocalOp reading
  simp only
  split
  · rfl
  · split
    · exact (storedValue_moved ..).2
    · exact (storedValue_moved ..).2

/-- Where an operation is written, and when. -/
theorem makeLocalOp_place {table row column : JsString} {value : Json} {o : Op}
    (h : (e.makeLocalOp cr table row column value).1 = .ok o) :
    ∃ t, (e.clock.now e.reading).1 = .ok t ∧ o.cell = (table, row, column) ∧ o.hlc = encodeHlc t := by
  unfold makeLocalOp at h
  simp only at h
  split at h
  · cases h
  · rename_i t ht
    split at h
    · cases h
    · obtain rfl := Except.ok.inj h
      exact ⟨t, ht, rfl, rfl⟩

/-- **An operation and its encrypted twin**: the value is read back up to canonical JSON. -/
theorem makeLocalOp_veiled (h : e.Veiled c e') (hc : c.Inverts) (hr : e.reading = e'.reading)
    {table row column : JsString} {value : Json} (hv : value.proper = true) {o o' : Op}
    (ho : (e.makeLocalOp cr table row column value).1 = .ok o)
    (ho' : (e'.makeLocalOp cr table row column value).1 = .ok o') :
    o.Veiled c o' ∧ (e.makeLocalOp cr table row column value).2.Veiled c
      (e'.makeLocalOp cr table row column value).2 := by
  obtain ⟨t, ht, hcell, hhlc⟩ := makeLocalOp_place ho
  obtain ⟨t', ht', hcell', hhlc'⟩ := makeLocalOp_place ho'
  have hs := makeLocalOp_stored ho
  have hs' := makeLocalOp_stored ho'
  rw [h.plain] at hs
  rw [h.cipher] at hs'
  have hvalue : o.value = value := hs
  have hcol : o.column = column := congrArg (fun x => x.2.2) hcell
  rw [h.clock, hr, ht'] at ht
  obtain rfl := Except.ok.inj ht
  refine ⟨?_, h.moved (makeLocalOp_moved ..) (makeLocalOp_moved ..) ?_⟩
  · exact {
      cell := hcell.trans hcell'.symm
      hlc := hhlc.trans hhlc'.symm
      tombstone := fun htomb => by
        rw [hcol] at htomb
        have hstored : o'.value = value := by
          unfold StoredAs at hs'
          simp only [if_pos htomb] at hs'
          exact hs'
        rw [hvalue, hstored]
      plain := fun htomb => by
        rw [hcol] at htomb
        rw [hvalue]
        exact plain_of_storedAs (fun c' hc' => Option.some.inj hc' ▸ hc) htomb hs'
      proper := hvalue ▸ hv }
  · rw [makeLocalOp_clock, makeLocalOp_clock, h.clock, hr]

theorem makeLocalOps_veiled (h : e.Veiled c e') (hc : c.Inverts) {table row : JsString}
    {values : List (JsString × Json)} (hv : ∀ v ∈ values, v.2.proper = true)
    (hr : e.writeReadings cr table row values = e'.writeReadings cr table row values)
    (ho : (e.makeLocalOps cr table row values).1 = .ok ops)
    (ho' : (e'.makeLocalOps cr table row values).1 = .ok ops') :
    List.Forall₂ (Op.Veiled c) ops ops' ∧ (e.makeLocalOps cr table row values).2.Veiled c
      (e'.makeLocalOps cr table row values).2 := by
  induction values generalizing e e' ops ops' with
  | nil =>
    obtain rfl := Except.ok.inj ho
    obtain rfl := Except.ok.inj ho'
    exact ⟨.nil, h⟩
  | cons v values ih =>
    obtain ⟨column, value⟩ := v
    unfold makeLocalOps at ho ho' ⊢
    unfold writeReadings at hr
    simp only at ho ho' ⊢
    obtain ⟨hhead, htail⟩ := List.cons.inj hr
    cases hm : (e.makeLocalOp cr table row column value).1 with
    | error err => simp only [hm] at ho; cases ho
    | ok o =>
      cases hm' : (e'.makeLocalOp cr table row column value).1 with
      | error err => simp only [hm'] at ho'; cases ho'
      | ok o' =>
        simp only [hm, hm'] at ho ho' htail ⊢
        obtain ⟨hoo, hnext⟩ :=
          makeLocalOp_veiled h hc hhead (hv _ List.mem_cons_self) hm hm'
        generalize (e.makeLocalOp cr table row column value).2 = n at ho htail hnext ⊢
        generalize (e'.makeLocalOp cr table row column value).2 = n' at ho' htail hnext ⊢
        cases hl : (n.makeLocalOps cr table row values).1 with
        | error err => rw [hl] at ho; cases ho
        | ok rest =>
          cases hl' : (n'.makeLocalOps cr table row values).1 with
          | error err => rw [hl'] at ho'; cases ho'
          | ok rest' =>
            rw [hl] at ho
            rw [hl'] at ho'
            obtain rfl := Except.ok.inj ho
            obtain rfl := Except.ok.inj ho'
            obtain ⟨hrest, hlast⟩ :=
              ih hnext (fun w hw => hv w (List.mem_cons_of_mem _ hw)) htail hl hl'
            exact ⟨.cons hoo hrest, hlast⟩

/-- A local write, `update` and `delete` alike. -/
theorem localWrite_veiled (h : e.Veiled c e') (hc : c.Inverts) {table row : JsString}
    {values : List (JsString × Json)} (hv : ∀ v ∈ values, v.2.proper = true)
    (hin : e.writeReadings cr table row values = e'.writeReadings cr table row values)
    {r r' : Reply Unit}
    (hr : r = match (e.makeLocalOps cr table row values).1 with
      | .error err => .quiet (e.makeLocalOps cr table row values).2 (.error err)
      | .ok ops => (e.makeLocalOps cr table row values).2.commit ops .local)
    (hr' : r' = match (e'.makeLocalOps cr table row values).1 with
      | .error err => .quiet (e'.makeLocalOps cr table row values).2 (.error err)
      | .ok ops => (e'.makeLocalOps cr table row values).2.commit ops .local)
    {x x' : Unit} (hok : r.result = .ok x) (hok' : r'.result = .ok x') : r.Veiled c r' := by
  subst hr hr'
  cases hm : (e.makeLocalOps cr table row values).1 with
  | error err => rw [hm] at hok; cases hok
  | ok ops =>
    cases hm' : (e'.makeLocalOps cr table row values).1 with
    | error err => rw [hm'] at hok'; cases hok'
    | ok ops' =>
      rw [hm] at hok
      rw [hm'] at hok'
      obtain ⟨hops, hnext⟩ := makeLocalOps_veiled h hc hv hin hm hm'
      exact commit_veiled hnext hops .local hok hok'

theorem update_veiled (h : e.Veiled c e') (hc : c.Inverts) {table row : JsString} {values : Record}
    (hv : ∀ v ∈ values.entries, v.2.proper = true)
    (hin : e.writeReadings cr table row values.entries =
      e'.writeReadings cr table row values.entries) {x x' : Unit}
    (hr : (e.update cr table row values).result = .ok x)
    (hr' : (e'.update cr table row values).result = .ok x') :
    (e.update cr table row values).Veiled c (e'.update cr table row values) :=
  localWrite_veiled h hc hv hin rfl rfl hr hr'

theorem delete_veiled (h : e.Veiled c e') (hc : c.Inverts) {table row : JsString}
    (hin : e.writeReadings cr table row [(tombstoneColumn, .bool true)] =
      e'.writeReadings cr table row [(tombstoneColumn, .bool true)]) {x x' : Unit}
    (hr : (e.delete cr table row).result = .ok x) (hr' : (e'.delete cr table row).result = .ok x') :
    (e.delete cr table row).Veiled c (e'.delete cr table row) :=
  localWrite_veiled h hc (fun v hv => by rw [List.mem_singleton.1 hv]; rfl) hin rfl rfl hr hr'

theorem insert_eq (e : SyncEngine) (table : JsString) (values : Record) :
    e.insert cr table values =
      match e.drawnRow with
      | none => .quiet { e with asked := e.asked + 2 } (.error .ulidRange)
      | some row => (({ e with asked := e.asked + 2 } : SyncEngine).update cr table row values).map
          fun _ => row := rfl

/-- An insert under the same row id. -/
theorem insert_veiled (h : e.Veiled c e') (hc : c.Inverts) {table : JsString} {values : Record}
    (hv : ∀ v ∈ values.entries, v.2.proper = true)
    (hin : (Call.insert table values).inputs cr e = (Call.insert table values).inputs cr e')
    {x x' : JsString} (hr : (e.insert cr table values).result = .ok x)
    (hr' : (e'.insert cr table values).result = .ok x') :
    (e.insert cr table values).Veiled c (e'.insert cr table values) := by
  rw [insert_eq] at hr hr' ⊢
  rw [insert_eq]
  unfold Call.inputs at hin
  cases hd : e.drawnRow with
  | none => rw [hd] at hr; cases hr
  | some row =>
    cases hd' : e'.drawnRow with
    | none => rw [hd'] at hr'; cases hr'
    | some row' =>
      rw [hd] at hr
      rw [hd'] at hr'
      simp only [hd, hd', Inputs.mk.injEq, Option.some.injEq] at hin ⊢
      obtain ⟨hreadings, rfl⟩ := hin
      obtain ⟨y, hy⟩ := Reply.ok_of_map hr
      obtain ⟨y', hy'⟩ := Reply.ok_of_map hr'
      have hdrawn := h.moved (.asked e (e.asked + 2)) (.asked e' (e'.asked + 2)) h.clock
      exact (update_veiled hdrawn hc hv hreadings hy hy').map _

/-! ## Remote operations -/

theorem receiveClock_veiled (h : e.Veiled c e') (remote : Hlc) (hr : e.reading = e'.reading) :
    (e.receiveClock remote).1 = (e'.receiveClock remote).1 ∧
      (e.receiveClock remote).2.Veiled c (e'.receiveClock remote).2 := by
  have hclock : e.clock.receive remote e.reading = e'.clock.receive remote e'.reading := by
    rw [h.clock, hr]
  have hres := congrArg Prod.fst hclock
  have hleft := congrArg Prod.snd hclock
  exact ⟨hres, h.storage, hleft, h.deviceKey, h.keys, h.subscribers, h.plain, h.cipher⟩

theorem maxOp_veiled (ho : List.Forall₂ (Op.Veiled c) ops ops') :
    Option.Rel (Op.Veiled c) (maxOp ops) (maxOp ops') := by
  refine ho.foldl (P := Option.Rel (Op.Veiled c)) (fun {m m' a b} hm hab => ?_) .none
  cases hm with
  | none => exact .some hab
  | some hxy =>
    simp only [hxy.hlc, hab.hlc]
    split
    · exact .some hab
    · exact .some hxy

theorem receiveMax_veiled (h : e.Veiled c e') (ho : List.Forall₂ (Op.Veiled c) ops ops')
    (hin : e.mergeReadings ops = e'.mergeReadings ops') :
    (e.receiveMax ops).1 = (e'.receiveMax ops').1 ∧
      (e.receiveMax ops).2.Veiled c (e'.receiveMax ops').2 := by
  have hmax := maxOp_veiled ho
  unfold receiveMax
  cases hm : maxOp ops with
  | none =>
    cases hm' : maxOp ops' with
    | none => exact ⟨rfl, h⟩
    | some o' => rw [hm, hm'] at hmax; cases hmax
  | some o =>
    cases hm' : maxOp ops' with
    | none => rw [hm, hm'] at hmax; cases hmax
    | some o' =>
      rw [hm, hm'] at hmax
      cases hmax with
      | some hoo =>
        have hne : ops.isEmpty = false := by
          cases ops with
          | nil => cases hm
          | cons _ _ => rfl
        have hne' : ops'.isEmpty = false := ho.isEmpty_eq ▸ hne
        have hread : e.reading = e'.reading := by
          unfold mergeReadings at hin
          rw [hne, hne'] at hin
          exact (List.cons.inj hin).1
        simp only [hoo.hlc]
        cases decodeHlc o'.hlc with
        | error err => exact ⟨rfl, h⟩
        | ok remote =>
          obtain ⟨hres, heng⟩ := receiveClock_veiled h remote hread
          exact ⟨congrArg (Except.map fun _ => ()) hres, heng⟩

theorem freshOps_veiled {s s' : MemoryAdapter} (h : s.Veiled c s')
    (ho : List.Forall₂ (Op.Veiled c) ops ops') :
    List.Forall₂ (Op.Veiled c) (freshOps s ops) (freshOps s' ops') := by
  refine ho.foldl (P := List.Forall₂ (Op.Veiled c)) (fun {l l' a b} hl hab => ?_) .nil
  have hany : l.any (·.id == a.id) = l'.any (·.id == b.id) :=
    hl.any_eq fun hxy => by rw [hxy.id, hab.id]
  rw [hany, h.hasOp, hab.id]
  split
  · exact List.rel_append hl (.cons hab .nil)
  · exact hl

theorem mergeAdmitted_veiled (h : e.Veiled c e') (ho : List.Forall₂ (Op.Veiled c) ops ops')
    (hin : e.mergeReadings ops = e'.mergeReadings ops') {n n' : Nat}
    (hr : (e.mergeAdmitted ops).result = .ok n) (hr' : (e'.mergeAdmitted ops').result = .ok n') :
    (e.mergeAdmitted ops).Veiled c (e'.mergeAdmitted ops') := by
  obtain ⟨hres, heng⟩ := receiveMax_veiled h ho hin
  unfold mergeAdmitted at hr hr' ⊢
  simp only at hr hr' ⊢
  rw [← hres] at hr' ⊢
  cases hm : (e.receiveMax ops).1 with
  | error err => rw [hm] at hr; cases hr
  | ok _ =>
    have hfresh := freshOps_veiled heng.storage ho
    simp only [hm, hfresh.isEmpty_eq] at hr hr' ⊢
    split at hr <;> split at hr' <;> rename_i hempty hempty'
    · obtain ⟨x, hx⟩ := Reply.ok_of_map hr
      obtain ⟨x', hx'⟩ := Reply.ok_of_map hr'
      rw [if_pos hempty, if_pos hempty']
      exact (transact_veiled heng (clockBatch_veiled heng) hx hx').map _
    · exact absurd hempty hempty'
    · exact absurd hempty' hempty
    · obtain ⟨x, hx⟩ := Reply.ok_of_map hr
      obtain ⟨x', hx'⟩ := Reply.ok_of_map hr'
      rw [if_neg hempty, if_neg hempty', hfresh.length_eq]
      exact (commit_veiled heng hfresh .remote hx hx').map _

/-- A batch as it comes from another replica. -/
theorem applyRemoteOps_veiled (h : e.Veiled c e') (ho : List.Forall₂ (Op.Veiled c) ops ops')
    (hin : e.mergeReadings ops = e'.mergeReadings ops') {n n' : Nat}
    (hr : (e.applyRemoteOps cr (ops.map Op.raw)).result = .ok n)
    (hr' : (e'.applyRemoteOps cr (ops'.map Op.raw)).result = .ok n') :
    (e.applyRemoteOps cr (ops.map Op.raw)).Veiled c (e'.applyRemoteOps cr (ops'.map Op.raw)) := by
  have merged {e : SyncEngine} {ops : List Op} {n : Nat}
      (hr : (e.applyRemoteOps cr (ops.map Op.raw)).result = .ok n) :
      e.applyRemoteOps cr (ops.map Op.raw) = e.mergeAdmitted ops := by
    unfold applyRemoteOps at hr ⊢
    cases hb : e.checkBatch cr (ops.map Op.raw) with
    | error err => rw [hb] at hr; cases hr
    | ok checked =>
      have hraw := List.map_injective_iff.2 (fun _ _ => Op.ext) (checkBatch_eq_ok hb).1
      rw [hraw]
  have hm := merged hr
  have hm' := merged hr'
  rw [hm] at hr ⊢
  rw [hm'] at hr' ⊢
  exact mergeAdmitted_veiled h ho hin hr hr'

theorem observeRemoteClock_veiled (h : e.Veiled c e') (hlc : JsString)
    (hin : e.observeReadings hlc = e'.observeReadings hlc) {x x' : Unit}
    (hr : (e.observeRemoteClock hlc).result = .ok x)
    (hr' : (e'.observeRemoteClock hlc).result = .ok x') :
    (e.observeRemoteClock hlc).Veiled c (e'.observeRemoteClock hlc) := by
  unfold observeRemoteClock at hr hr' ⊢
  unfold observeReadings at hin
  cases hd : decodeHlc hlc with
  | error err => rw [hd] at hr; cases hr
  | ok remote =>
    simp only [hd] at hr hr' hin ⊢
    obtain ⟨hres, heng⟩ := receiveClock_veiled h remote (List.cons.inj hin).1
    rw [← hres] at hr' ⊢
    cases hc : (e.receiveClock remote).1 with
    | error err => rw [hc] at hr; cases hr
    | ok t =>
      rw [hc] at hr hr'
      exact transact_veiled heng (clockBatch_veiled heng) hr hr'

/-! ## The other calls -/

theorem recordPeerFrontier_veiled (h : e.Veiled c e') (peer : JsString) (f : Frontier) {x x' : Unit}
    (hr : (e.recordPeerFrontier peer f).result = .ok x)
    (hr' : (e'.recordPeerFrontier peer f).result = .ok x') :
    (e.recordPeerFrontier peer f).Veiled c (e'.recordPeerFrontier peer f) := by
  unfold recordPeerFrontier at hr hr' ⊢
  rw [← h.deviceId] at hr' ⊢
  split at hr
  · rename_i hpeer
    rw [if_pos hpeer, if_pos hpeer]
    exact .quiet h _
  · rename_i hpeer
    rw [if_neg hpeer] at hr' ⊢
    rw [if_neg hpeer]
    exact transact_veiled h (h.storage.setPeerFrontier peer f) hr hr'

/-- **Compaction** returns the same statistics. -/
theorem compact_veiled (h : e.Veiled c e') (opts : CompactionOptions) {x x' : CompactionStats}
    (hr : (e.compact opts).result = .ok x) (hr' : (e'.compact opts).result = .ok x') :
    (e.compact opts).Veiled c (e'.compact opts) := by
  obtain ⟨hs, hstats⟩ := compactStorage_veiled h.storage opts
  unfold compact at hr hr' ⊢
  simp only [← compactionDue_veiled h.storage opts, hstats] at hr hr' ⊢
  split
  · rename_i hdue
    rw [if_pos hdue] at hr hr'
    obtain ⟨y, hy⟩ := Reply.ok_of_map hr
    obtain ⟨y', hy'⟩ := Reply.ok_of_map hr'
    exact (transact_veiled h hs hy hy').map _
  · exact .quiet h _

theorem learnKey_veiled (h : e.Veiled c e') (id : JsString) (key : Bytes) :
    (e.learnKey cr id key).2.Veiled c (e'.learnKey cr id key).2 := by
  unfold learnKey
  split
  · exact h
  · exact ⟨h.storage, h.clock, h.deviceKey, congrArg (·.insert id key) h.keys, h.subscribers,
      h.plain, h.cipher⟩

/-- The same callback, which may throw on other events. -/
theorem subscribe_veiled (h : e.Veiled c e') (s s' : Subscriber) (hid : s.id = s'.id) :
    (e.subscribe s).Veiled c (e'.subscribe s') := by
  have hany : e.subscribers.any (·.id == s.id) = e'.subscribers.any (·.id == s'.id) := by
    have hl := congrArg (List.any · (· == s.id)) h.subscribers
    rw [List.any_map, List.any_map] at hl
    rw [← hid]
    exact hl
  unfold subscribe
  rw [hany]
  split
  · exact h
  · refine ⟨h.storage, h.clock, h.deviceKey, h.keys, ?_, h.plain, h.cipher⟩
    rw [List.map_append, List.map_append, h.subscribers, List.map_singleton, List.map_singleton, hid]

theorem unsubscribe_veiled (h : e.Veiled c e') (id : SubscriberId) :
    (e.unsubscribe id).Veiled c (e'.unsubscribe id) := by
  refine ⟨h.storage, h.clock, h.deviceKey, h.keys, ?_, h.plain, h.cipher⟩
  have hl := congrArg (List.filter (· != id)) h.subscribers
  rw [List.filter_map, List.filter_map] at hl
  exact hl

end SyncEngine

open SyncEngine

/-- **An ordinary call** that is given the same inputs leaves related engines, returns the
same and tells of the same rows. -/
theorem Call.run_veiled (h : e.Veiled c e') (hc : c.Inverts) {call : Call} (ho : call.Ordinary)
    (hin : call.inputs cr e = call.inputs cr e') {x x' : Unit}
    (hr : (call.run cr e).result = .ok x) (hr' : (call.run cr e').result = .ok x') :
    (call.run cr e).Veiled c (call.run cr e') := by
  cases call with
  | insert table values =>
    obtain ⟨y, hy⟩ := Reply.ok_of_map hr
    obtain ⟨y', hy'⟩ := Reply.ok_of_map hr'
    exact (insert_veiled h hc ho hin hy hy').map _
  | update table row values =>
    exact update_veiled h hc ho (congrArg Inputs.readings hin) hr hr'
  | delete table row => exact delete_veiled h hc (congrArg Inputs.readings hin) hr hr'
  | applyRemoteOps ops => exact ho.elim
  | observeRemoteClock hlc =>
    exact observeRemoteClock_veiled h hlc (congrArg Inputs.readings hin) hr hr'
  | recordPeerFrontier peer f => exact recordPeerFrontier_veiled h peer f hr hr'
  | learnKey id key => exact .quiet (learnKey_veiled h id key) _
  | compact opts =>
    obtain ⟨y, hy⟩ := Reply.ok_of_map hr
    obtain ⟨y', hy'⟩ := Reply.ok_of_map hr'
    exact (compact_veiled h opts hy hy').map _
  | subscribe s => exact .quiet (subscribe_veiled h s s rfl) _
  | unsubscribe id => exact .quiet (unsubscribe_veiled h id) _

end TangentFeed
