import TangentFeed.Replica.Calls
import TangentFeed.Replica.Sample

/-!
# What a device writes, every peer accepts

An operation that was accepted where it was made is accepted after
`JSON.stringify` and `JSON.parse` by every peer that has the writer's key. The
signature covers canonical JSON, which the way over the wire does not change, and
neither do the size and the fields that validation looks at.
-/

namespace TangentFeed

open Std

variable {cr : Crypto}

/-! ## The way over the wire -/

mutual

theorem assertJson_reparsed : (v : Json) → (path : JsString) → assertJson v.reparsed path = .ok ()
  | .num n, path => by
    rw [Json.reparsed]
    split
    · rw [assertJson]
      split <;> rfl
    · rfl
  | .arr xs, path => by rw [Json.reparsed, assertJson, assertElems_reparsed xs path 0]
  | .obj fs, path => by rw [Json.reparsed, assertJson, assertFields_reparsed fs path]
  | .null, _ => rfl
  | .bool _, _ => rfl
  | .str _, _ => rfl

theorem assertElems_reparsed : (xs : List Json) → (path : JsString) → (i : Nat) →
    assertElems (Json.reparsedElems xs) path i = .ok ()
  | [], _, _ => rfl
  | x :: rest, path, i => by
    rw [Json.reparsedElems, assertElems, assertJson_reparsed x]
    exact assertElems_reparsed rest path (i + 1)

theorem assertFields_reparsed : (fs : List (JsString × Json)) → (path : JsString) →
    assertFields (Json.reparsedFields fs) path = .ok ()
  | [], _ => rfl
  | (k, x) :: rest, path => by
    rw [Json.reparsedFields, assertFields, assertJson_reparsed x]
    exact assertFields_reparsed rest path

end

theorem hasStr_reparsed {v : Json} {f : JsString} (h : hasStr v f = true) :
    hasStr v.reparsed f = true := by
  unfold hasStr at h ⊢
  rw [Json.get?_reparsed]
  cases hg : v.get? f with
  | none => rw [hg] at h; cases h
  | some x =>
    rw [hg] at h
    cases x with
    | str s => rfl
    | null | bool | num | arr | obj => cases h

theorem getStr_reparsed (v : Json) (f : JsString) : v.reparsed.getStr f = v.getStr f := by
  unfold Json.getStr
  rw [Json.get?_reparsed]
  cases v.get? f with
  | none => rfl
  | some x =>
    cases x with
    | num n => by_cases hf : n.isFinite = true <;> simp [Json.reparsed, hf]
    | null | bool | str | arr | obj => rfl

/-- **Validity survives the wire.** -/
theorem ValidOp.reparsed {op : Json} (h : ValidOp op) : ValidOp op.reparsed where
  object := by
    have hobj := h.object
    cases op with
    | arr | obj => rfl
    | null | bool | num | str => cases hobj
  strings := fun f hf => hasStr_reparsed (h.strings f hf)
  value := by
    obtain ⟨v, hv, -⟩ := h.value
    exact ⟨v.reparsed, by rw [Json.get?_reparsed, hv]; rfl, assertJson_reparsed v _⟩
  hlc := by simpa only [getStr_reparsed] using h.hlc
  id := by simpa only [getStr_reparsed] using h.id
  table := by simpa only [getStr_reparsed] using h.table
  column := by simpa only [getStr_reparsed] using h.column
  row := by simpa only [getStr_reparsed] using h.row
  size := by rw [Json.stringify_reparsed]; exact h.size

/-- **What is signed survives the wire.** -/
theorem signedPayload_reparsed (op : Json) : signedPayload op.reparsed = signedPayload op := by
  have hfields : (payloadFields.map fun f => (f, (op.reparsed.get? f).getD .null)) =
      Json.reparsedFields (payloadFields.map fun f => (f, (op.get? f).getD .null)) := by
    induction payloadFields with
    | nil => rfl
    | cons f fs ih =>
      rw [List.map_cons, List.map_cons, Json.reparsedFields, ih, Json.get?_reparsed]
      cases op.get? f <;> rfl
  unfold signedPayload
  rw [hfields, canonicalJson, canonicalJson, canonicalFields_reparsed]

/-- An operation as it comes off the wire. -/
def Op.wired (o : Op) : Op := ⟨o.raw.reparsed, validateOp_eq_ok.2 o.isValid.reparsed⟩

theorem Op.sig_wired (o : Op) : o.wired.sig = o.sig := getStr_reparsed o.raw _

theorem Op.device_wired (o : Op) : o.wired.device = o.device := getStr_reparsed o.raw _

theorem verifyOp_wired (o : Op) (key : Bytes) : verifyOp cr o.wired key = verifyOp cr o key := by
  unfold verifyOp
  rw [o.sig_wired]
  unfold Op.wired
  simp only
  rw [signedPayload_reparsed]

/-! ## Local writes -/

/-- `o` is what a replica with the key pair `key` made for a local write. -/
def WrittenBy (cr : Crypto) (key : DeviceKey) (o : Op) : Prop :=
  ∃ (e : SyncEngine) (table row column : JsString) (value : Json), e.deviceKey = key ∧
    (e.makeLocalOp cr table row column value).1 = .ok o

/-- A local write signs what it made with the key of the replica. -/
theorem WrittenBy.signed {key : DeviceKey} {o : Op} (h : WrittenBy cr key o) :
    o.sig = signPayload cr (signedPayload o.raw) key.privateKey := by
  obtain ⟨e, table, row, column, value, rfl, h⟩ := h
  unfold SyncEngine.makeLocalOp at h
  simp only at h
  split at h
  · cases h
  · rename_i t ht
    generalize hs : SyncEngine.storedValue _ column value (encodeHlc t) = stored at h
    have hkey := (SyncEngine.storedValue_moved
      ({ e with clock := (e.clock.now (e.env.physicalClock e.asked)).2, asked := e.asked + 1 })
      column value (encodeHlc t)).1.deviceKey
    rw [hs] at hkey
    split at h
    · cases h
    · obtain rfl := Except.ok.inj h
      rw [← show stored.2.deviceKey = e.deviceKey from hkey]
      exact SyncEngine.signedPayload_signedOp ..

theorem WrittenBy.verify (hs : cr.Sound) {seed : Nat} {o : Op}
    (h : WrittenBy cr (cr.keygen seed) o) : verifyOp cr o (cr.keygen seed).publicKey = true := by
  unfold verifyOp
  rw [h.signed]
  exact verifyPayload_signPayload hs _ seed

namespace SyncEngine

variable {e : SyncEngine}

/-- Every operation of a local batch is a local write. -/
theorem writtenBy_of_makeLocalOps {table row : JsString} {values : List (JsString × Json)}
    {ops : List Op} (h : (e.makeLocalOps cr table row values).1 = .ok ops) :
    ∀ o ∈ ops, WrittenBy cr e.deviceKey o := by
  induction values generalizing e ops with
  | nil =>
    obtain rfl := Except.ok.inj h
    exact nofun
  | cons v rest ih =>
    obtain ⟨column, value⟩ := v
    unfold makeLocalOps at h
    have hmove := makeLocalOp_moved cr e table row column value
    simp only at h
    cases hr : (e.makeLocalOp cr table row column value).1 with
    | error err => simp only [hr] at h; cases h
    | ok op =>
      simp only [hr] at h
      cases hrs : ((e.makeLocalOp cr table row column value).2.makeLocalOps cr table row rest).1 with
      | error err => rw [hrs] at h; cases h
      | ok tail =>
        rw [hrs] at h
        obtain rfl := Except.ok.inj h
        rintro o (_ | ⟨_, ho⟩)
        · exact ⟨e, table, row, column, value, rfl, hr⟩
        · exact hmove.deviceKey ▸ ih hrs o ho

/-- A batch of operations that verify under keys the replica has. -/
theorem checkBatch_of_verify {ops : List Op} (hlen : ops.length ≤ maxBatchOps)
    (h : ∀ o ∈ ops, ∃ key, e.keys[o.device]? = some key ∧ verifyOp cr o key = true) :
    e.checkBatch cr (ops.map Op.raw) = .ok ops := by
  have hsig : signatureFault cr e.keys ops = none := by
    refine List.findSome?_eq_none_iff.2 fun o ho => ?_
    obtain ⟨key, hk, hv⟩ := h o ho
    rw [hk]
    simp only [if_pos hv]
  unfold checkBatch
  rw [List.length_map, if_neg (by omega), validateOps_raw]
  simp only [hsig]

/-- The part of the merge under the lock finds no fault with an operation. -/
theorem mergeAdmitted_ne_badOp {ops : List Op} {f : OpFault} :
    (e.mergeAdmitted ops).result ≠ .error (.badOp f) := by
  unfold mergeAdmitted
  generalize e.receiveMax ops = received
  obtain ⟨r, m⟩ := received
  cases r with
  | error err => simp [Reply.quiet]
  | ok u =>
    simp only
    split
    · rcases m.transact_cases (m.storage.applyBatch m.clockBatch) with ht | ht <;> rw [ht] <;>
        simp [Reply.map, Reply.quiet, Except.map]
    · rcases m.commit_cases (freshOps m.storage ops) .remote with ht | ht
      · rw [ht]
        simp [Reply.map, Reply.quiet, Except.map]
      · rw [ht]
        simp only [Reply.map]
        split <;> simp [Except.map]

end SyncEngine

/-- **Whatever a device can write, every peer accepts.** For operations that local
writes made, under any clock, cipher and value: off the wire they are valid and
verify under the key of their writer, and a peer that has the writers' keys
checks a batch of them without finding a fault. -/
theorem local_writes_accepted (cr : Crypto) (hs : cr.Sound) (peer : SyncEngine)
    (batch : List (Nat × Op)) (hlen : batch.length ≤ maxBatchOps)
    (hw : ∀ b ∈ batch, WrittenBy cr (cr.keygen b.1) b.2)
    (hk : ∀ b ∈ batch, peer.keys[b.2.device]? = some (cr.keygen b.1).publicKey) :
    let wire := batch.map fun b => b.2.raw.reparsed
    (∀ b ∈ batch, validateOp b.2.raw.reparsed = .ok () ∧
      ∀ o : Op, o.raw = b.2.raw.reparsed → verifyOp cr o (cr.keygen b.1).publicKey = true) ∧
    (∃ ops, peer.checkBatch cr wire = .ok ops ∧ ops.map Op.raw = wire) ∧
    ∀ f, (peer.applyRemoteOps cr wire).result ≠ .error (.badOp f) := by
  intro wire
  have hwire : wire = (batch.map fun b => b.2.wired).map Op.raw := by
    rw [List.map_map]
    rfl
  have hcheck : peer.checkBatch cr wire = .ok (batch.map fun b => b.2.wired) := by
    rw [hwire]
    refine SyncEngine.checkBatch_of_verify (by rwa [List.length_map]) fun o ho => ?_
    obtain ⟨b, hb, rfl⟩ := List.mem_map.1 ho
    refine ⟨_, by rw [b.2.device_wired]; exact hk b hb, ?_⟩
    rw [verifyOp_wired]
    exact (hw b hb).verify hs
  refine ⟨fun b hb => ⟨b.2.wired.valid, fun o ho => ?_⟩, ⟨_, hcheck, hwire.symm⟩, fun f => ?_⟩
  · obtain rfl : o = b.2.wired := Op.ext ho
    rw [verifyOp_wired]
    exact (hw b hb).verify hs
  · unfold SyncEngine.applyRemoteOps
    rw [hcheck]
    exact SyncEngine.mergeAdmitted_ne_badOp

/-- The write of the first sample device, at the second. -/
theorem local_writes_accepted_sample :
    (Sample.written 1).length = 1 ∧ ∀ o ∈ Sample.written 1, validateOp o.raw.reparsed = .ok () ∧
      ∃ ops, (Sample.reader 2 [1]).checkBatch plainCrypto [o.raw.reparsed] = .ok ops := by
  refine ⟨by decide +kernel, fun o ho => ?_⟩
  have hkey : (Sample.reader 2 [1]).keys[o.device]? = some (plainCrypto.keygen 1).publicKey := by
    have hall : ∀ o ∈ Sample.written 1,
        (Sample.reader 2 [1]).keys[o.device]? = some (plainCrypto.keygen 1).publicKey := by
      decide +kernel
    exact hall o ho
  have hw : WrittenBy plainCrypto (plainCrypto.keygen 1) o := by
    unfold Sample.written at ho
    split at ho
    · exact SyncEngine.writtenBy_of_makeLocalOps ‹_› o ho
    · cases ho
  obtain ⟨h1, ⟨ops, h2, -⟩, -⟩ := local_writes_accepted plainCrypto plainCrypto_sound
    (Sample.reader 2 [1]) [(1, o)] (by simp [maxBatchOps])
    (fun b hb => by rw [List.mem_singleton.1 hb]; exact hw)
    (fun b hb => by rw [List.mem_singleton.1 hb]; exact hkey)
  exact ⟨(h1 _ List.mem_cons_self).1, ops, h2⟩

end TangentFeed
