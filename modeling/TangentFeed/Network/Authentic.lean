import TangentFeed.Network.Base
import TangentFeed.Replica.Sample

/-!
# Only authentic operations

Operations enter a log through the checks of `applyRemoteOps` or by a local
write, which signs them. So whatever is called and whatever arrives, what is
stored or sent on is well formed and signed by the device it names.
-/

namespace TangentFeed

open SyncEngine

variable {ι : Type} [DecidableEq ι] {cr : Crypto}

/-- A well-formed operation, signed under a key whose hash is its device. -/
structure Genuine (cr : Crypto) (o : Op) : Prop where
  id : o.id = o.hlc
  device : ∃ h, decodeHlc o.hlc = .ok h ∧ h.deviceId = o.device
  table : isName o.table = true
  column : o.column = tombstoneColumn ∨ isName o.column = true
  row : isUlid o.row = true
  signed : ∃ k, deviceIdFromPublicKey cr k = o.device ∧
    verifyPayload cr (signedPayload o.raw) o.sig k = true

theorem Genuine.of_authentic {o : Op} (h : Authentic cr o) : Genuine cr o where
  id := o.id_eq_hlc
  device := by
    obtain ⟨t, ht, -, -, hd⟩ := o.exists_hlc
    exact ⟨t, ht, hd⟩
  table := o.isValid.table
  column := o.isValid.column
  row := o.isValid.row
  signed := h

/-- What a device signs verifies under its own key. -/
theorem SyncEngine.LocalBatch.authentic (hcr : cr.Sound) {e e' : SyncEngine} (hi : Identity cr e)
    {ops : List Op} (hb : LocalBatch cr e e' ops) : ∀ o ∈ ops, Authentic cr o := by
  intro o ho
  obtain ⟨seed, hseed⟩ := hi.generated
  refine ⟨e.deviceKey.publicKey, ?_, ?_⟩
  · rw [hb.device o ho, hi.device]
  · unfold verifyOp
    rw [hb.signed o ho, hseed]
    exact verifyPayload_signPayload hcr _ seed

namespace Config

variable {space : JsString} {w w' : Config ι} {a : Action ι}

/-- What is committed in a step is authentic. -/
theorem Shape.authentic (hcr : cr.Sound) (hb : Base cr w) (hs : Shape cr space w a w')
    (h : ∀ i, ∀ o ∈ TangentFeed.applied w.trace i, Authentic cr o) :
    ∀ i, ∀ o ∈ TangentFeed.applied w'.trace i, Authentic cr o := by
  intro i o ho
  rcases hs.evolves i with ⟨r, he⟩ | ⟨_, _, _, hr⟩
  · rw [he.applied] at ho
    rcases ho with ho | ⟨ev, hev, ho⟩
    · exact h i o ho
    · obtain ⟨d, heff, -⟩ := he.effect hb
      rw [hev] at heff
      cases heff.store with
      | @committed ops origin _ hbatch =>
        cases origin with
        | «local» => exact LocalBatch.authentic hcr (hb.consistent i).identity hbatch o ho
        | remote => exact (RemoteBatch.admitted hbatch o ho).2
  · rw [hr.applied] at ho
    exact h i o ho

theorem authentic_run (hcr : cr.Sound) (d : Deployment cr ι) (space : JsString)
    (acts : List (Action ι)) :
    ∀ i, ∀ o ∈ TangentFeed.applied (Runs.run (step cr space) d.initial acts).trace i,
      Authentic cr o := by
  have hrun : Base cr (Runs.run (step cr space) d.initial acts) ∧
      ∀ i, ∀ o ∈ TangentFeed.applied (Runs.run (step cr space) d.initial acts).trace i,
        Authentic cr o :=
    Runs.run_invariant
      (I := fun w => Base cr w ∧ ∀ i, ∀ o ∈ TangentFeed.applied w.trace i, Authentic cr o)
      (fun w a hw => ⟨hw.1.step (w.step_shape a), (w.step_shape a).authentic hcr hw.1 hw.2⟩)
      ⟨Base.initial d, fun i o ⟨_, hm, _⟩ => by cases hm⟩ acts
  exact hrun.2

/-- **Only authentic operations are stored or sent on.** In every configuration
reached by any calls and any messages: every operation in a log and every winner
is genuine, every entry of a directory is under the hash of its key, and every
operation a replica sent is genuine. -/
theorem only_authentic_stored (hcr : cr.Sound) (d : Deployment cr ι) (space : JsString)
    (acts : List (Action ι)) :
    let w := Runs.run (step cr space) d.initial acts
    (∀ i,
      (∀ (id : JsString) (o : Op), (w.node i).engine.storage.opsById[id]? = some o →
        o.id = id ∧ Genuine cr o) ∧
      (∀ c o, (w.node i).engine.storage.winner c = some o → o.cell = c ∧ Genuine cr o) ∧
      ∀ (id : JsString) (k : Bytes), (w.node i).engine.keys[id]? = some k →
        deviceIdFromPublicKey cr k = id) ∧
    ∀ msg ∈ w.sent, ∀ receiver js, msg.body = .ops receiver js →
      ∀ x ∈ js, ∃ o : Op, o.raw = x ∧ Genuine cr o := by
  have hb := base_run d space acts
  have hauth := authentic_run hcr d space acts
  generalize Runs.run (step cr space) d.initial acts = w at hb hauth
  refine ⟨fun i => ?_, fun msg hm receiver js hbody x hx => ?_⟩
  · have hc := hb.consistent i
    have logged : ∀ o ∈ (w.node i).engine.storage.log, Genuine cr o := fun o ho =>
      .of_authentic (hauth i o (hc.ledger.logged ho))
    refine ⟨fun id o ho => ?_, fun c o ho => ?_, fun id k => hc.identity.directory⟩
    · have hid := hc.ledger.keyed.ids ho
      exact ⟨hid, logged o (by rw [MemoryAdapter.mem_log, hid, ho])⟩
    · exact ⟨hc.ledger.keyed.cells ho, logged o (hc.ledger.winnersLogged ho)⟩
  · obtain ⟨i, o, ho, rfl⟩ := hb.message msg hm hbody x hx
    exact ⟨o, rfl, .of_authentic (hauth i o ho)⟩

/-- A write of one replica, sent to the other and merged there. -/
theorem only_authentic_stored_sample :
    ((Sample.after Sample.oneWrite).node true).engine.storage.allOps.length = 1 ∧
      ∀ (id : JsString) (o : Op),
        ((Sample.after Sample.oneWrite).node true).engine.storage.opsById[id]? = some o →
          o.id = id ∧ Genuine plainCrypto o := by
  have stored (acts : List (Action Bool)) : ∀ (id : JsString) (o : Op),
      ((Sample.after acts).node true).engine.storage.opsById[id]? = some o →
        o.id = id ∧ Genuine plainCrypto o :=
    ((only_authentic_stored plainCrypto_sound Sample.pair Sample.space acts).1 true).1
  exact ⟨by decide +kernel, stored _⟩

end Config

end TangentFeed
