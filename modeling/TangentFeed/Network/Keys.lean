import TangentFeed.Network.Base
import TangentFeed.Replica.Sample

/-!
# Keys before operations

An answer to `since` starts with a `keys` message. The directory of an engine
has the device of whatever it applied since it was opened (`KnownAuthors`), so
the message has the key of every operation that follows, except of operations
applied in an earlier opening: those stay in the store, while the directory
starts again from the engine's own key.
-/

namespace TangentFeed

open SyncEngine

/-! ## Hexadecimal keys -/

theorem parseIntPair_hexDigit : ∀ m < 16, ∀ n < 16,
    parseIntPair (hexDigit m) (hexDigit n) = Fin.ofNat 256 (16 * m + n) := by decide

theorem isLineTerminator_hexDigit : ∀ m < 16, isLineTerminator (hexDigit m) = false := by decide

/-- **A key survives the wire.** -/
theorem unhex_hex (b : Bytes) : unhex (hex b) = b := by
  induction b with
  | nil => rfl
  | cons x b ih =>
    have e : hexByte x = [hexDigit (x.val / 16 % 16), hexDigit (x.val % 16)] := by
      rw [hexByte_eq]
      simp [hexFixed]
    have h1 : x.val / 16 % 16 < 16 := Nat.mod_lt _ (by decide)
    have h2 : x.val % 16 < 16 := Nat.mod_lt _ (by decide)
    have hx : Fin.ofNat 256 (16 * (x.val / 16 % 16) + x.val % 16) = x := by
      apply Fin.ext
      have := x.isLt
      simp only [Fin.ofNat]
      omega
    change unhex (hexByte x ++ hex b) = x :: b
    rw [e]
    simp only [List.cons_append, List.nil_append, unhex]
    rw [isLineTerminator_hexDigit _ h1, isLineTerminator_hexDigit _ h2, if_neg Bool.false_ne_true,
      if_neg Bool.false_ne_true, parseIntPair_hexDigit _ h1 _ h2, hx, ih]

variable {ι : Type} {cr : Crypto} {space : JsString}

/-! ## The order of events -/

theorem split_append {α : Type} {t l t₁ t₂ : List α} {e : α} (h : t ++ l = t₁ ++ e :: t₂) :
    (∃ t₃, t = t₁ ++ e :: t₃ ∧ t₂ = t₃ ++ l) ∨ ∃ t₃, t₁ = t ++ t₃ ∧ e ∈ l := by
  rcases List.append_eq_append_iff.1 h with ⟨t₃, h1, h2⟩ | ⟨t₃, h1, h2⟩
  · exact .inr ⟨t₃, h1, by rw [h2]; exact List.mem_append_right _ List.mem_cons_self⟩
  · cases t₃ with
    | nil =>
      refine .inr ⟨[], by simpa using h1.symm, ?_⟩
      rw [← List.nil_append l, ← h2]
      exact List.mem_cons_self
    | cons x t₃ =>
      obtain ⟨rfl, h3⟩ := List.cons.inj h2
      exact .inl ⟨t₃, h1, h3⟩

/-- The operations `i` applied before it was last opened. -/
def earlier (t : List (Event ι)) (i : ι) : Set Op :=
  {o | ∃ t₁ t₂, t = t₁ ++ .opened i :: t₂ ∧ o ∈ applied t₁ i}

/-- Replica `j` took in the message since it was last opened. -/
def Heard (t : List (Event ι)) (j : ι) (msg : WireMsg) : Prop :=
  ∃ t₁ t₂ h, t = t₁ ++ .handling j h msg :: t₂ ∧ .opened j ∉ t₂

/-- A `keys` message has the key of the device of an operation. -/
def HasKey (cr : Crypto) (ks : JsMap JsString) (o : Op) : Prop :=
  ∃ k, ks[o.device]? = some (hex k) ∧ deviceIdFromPublicKey cr k = o.device

theorem earlier_append {t : List (Event ι)} (l : List (Event ι)) {i : ι} :
    earlier t i ⊆ earlier (t ++ l) i := by
  rintro o ⟨t₁, t₂, rfl, ho⟩
  exact ⟨t₁, t₂ ++ l, by simp, ho⟩

namespace Config

variable [DecidableEq ι] {w w' : Config ι} {a : Action ι} {i j : ι} {h : Nat}

/-- An answer to `since` has no operation applied before the engine was last
opened, unless the engine has learned its device's key again. -/
def Relearned (w : Config ι) (a : Action ι) : Prop :=
  ∀ i h sender missing, a = .resume i h →
    (w.node i).pending[h]? = some (.sinceKeys sender missing) →
      ∀ o ∈ missing, o ∈ earlier w.trace i → (w.node i).engine.keys[o.device]? ≠ none

/-- Handler `h` of `i` sent a `keys` message to `receiver` with the keys of `ops`. -/
def SentKeys (cr : Crypto) (t : List (Event ι)) (i : ι) (h : Nat) (receiver : JsString)
    (ops : List Op) : Prop :=
  ∃ km ks, Event.sent i (some h) km ∈ t ∧ km.body = .keys (some receiver) ks ∧
    ∀ o ∈ ops, HasKey cr ks o

/-- What holds of directories, answers and the history. -/
structure Keyed (cr : Crypto) (w : Config ι) : Prop where
  authors : ∀ i, ∀ o ∈ TangentFeed.applied w.trace i,
    o ∈ earlier w.trace i ∨ (w.node i).engine.keys[o.device]? ≠ none
  answer : ∀ {i : ι} {h : Nat} {receiver : JsString} {missing : List Op},
    (w.node i).pending[h]? = some (.sinceSend receiver missing) →
      SentKeys cr w.trace i h receiver missing
  order : ∀ {t₁ t₂ : List (Event ι)} {i : ι} {h : Nat} {msg : WireMsg}
    {receiver : Option JsString} {js : List Json}, w.trace = t₁ ++ .sent i (some h) msg :: t₂ →
      msg.body = .ops receiver js → ∃ peer ops, receiver = some peer ∧ js = ops.map Op.raw ∧
        SentKeys cr t₁ i h peer ops
  heard : ∀ {j : ι} {km : WireMsg} {receiver : Option JsString} {ks : JsMap JsString},
    Heard w.trace j km → km.body = .keys receiver ks → ∀ {o : Op}, HasKey cr ks o →
      (w.node j).engine.keys[o.device]? ≠ none

omit [DecidableEq ι] in
theorem SentKeys.mono {t t' : List (Event ι)} {receiver : JsString} {ops : List Op}
    (hk : SentKeys cr t i h receiver ops) (ht : ∀ e ∈ t, e ∈ t') :
    SentKeys cr t' i h receiver ops :=
  let ⟨km, ks, hm, hr⟩ := hk
  ⟨km, ks, ht _ hm, hr⟩

/-- The directory as a message has the keys of all its devices. -/
theorem hasKey_keysBody {n : Node} (hi : Identity cr n.engine) {o : Op}
    (ho : n.engine.keys[o.device]? ≠ none) :
    HasKey cr (n.engine.keys.map fun _ k => hex k) o := by
  obtain ⟨k, hk⟩ := Option.ne_none_iff_exists'.1 ho
  refine ⟨k, ?_, hi.directory hk⟩
  rw [Std.ExtTreeMap.getElem?_map, hk]
  rfl

theorem Keyed.step_authors (hk : Keyed cr w) (hb : Base cr w) (hs : Shape cr space w a w') (i : ι) :
    ∀ o ∈ TangentFeed.applied w'.trace i,
      o ∈ earlier w'.trace i ∨ (w'.node i).engine.keys[o.device]? ≠ none := by
  intro o ho
  obtain ⟨l, hl, -⟩ := hs.trace
  rcases hs.evolves i with ⟨r, he⟩ | ⟨_, _, _, hr⟩
  · obtain ⟨dd, heff, -⟩ := he.effect hb
    rw [he.applied] at ho
    rcases ho with ho | ⟨ev, hev, ho⟩
    · rw [hl]
      exact (hk.authors i o ho).imp (fun h => earlier_append l h) heff.known
    · right
      rw [hev] at heff
      have hi := (hb.consistent i).identity
      cases heff.store with
      | @committed ops origin _ hbatch =>
        cases origin with
        | «local» =>
          rw [LocalBatch.device hbatch o ho]
          exact heff.known hi.own
        | remote => exact heff.known (RemoteBatch.admitted hbatch o ho).1
  · left
    rw [hr.applied] at ho
    exact ⟨w.trace, [], hr.trace, ho⟩

theorem Keyed.step_answer (hk : Keyed cr w) (hb : Base cr w) (hs : Shape cr space w a w')
    (ha : Relearned w a) {receiver : JsString} {missing : List Op}
    (hc : (w'.node i).pending[h]? = some (.sinceSend receiver missing)) :
    SentKeys cr w'.trace i h receiver missing := by
  rcases hs.pending hc with hc | ⟨src, hran, hl⟩ | hg
  · exact (hk.answer hc).mono hs.mono
  · cases hl with
    | hello _ hp => exact hp.elim
    | sinceSend =>
      have hw := hran.waiting
      have hi := (hb.consistent i).identity
      refine ⟨_, _, hran.sent (List.mem_singleton_self _), rfl, fun o ho => ?_⟩
      refine hasKey_keysBody hi ?_
      rcases hk.authors i o (hb.answering hw o ho) with he | hkey
      · cases hran.turn with
        | resume => exact ha i h receiver missing rfl hw o ho he
      · exact hkey
  · exact hg.plain.elim

theorem Keyed.step_order (hk : Keyed cr w) (hs : Shape cr space w a w') {t₁ t₂ : List (Event ι)}
    {msg : WireMsg} {receiver : Option JsString} {js : List Json}
    (ht : w'.trace = t₁ ++ .sent i (some h) msg :: t₂) (hm : msg.body = .ops receiver js) :
    ∃ peer ops, receiver = some peer ∧ js = ops.map Op.raw ∧ SentKeys cr t₁ i h peer ops := by
  obtain ⟨l, hl, he⟩ := hs.trace
  rw [hl] at ht
  rcases split_append ht with ⟨t₃, h1, -⟩ | ⟨t₃, rfl, hin⟩
  · exact hk.order h1 hm
  · cases he _ hin with
    | sent hran hsays =>
      cases hsays with
      | @answer sender missing c hc =>
        obtain ⟨rfl, rfl⟩ := MsgBody.ops.inj hm
        obtain ⟨km, ks, hkm, hbody, hkeys⟩ := hk.answer hran.waiting
        exact ⟨sender, c, rfl, rfl, km, ks, List.mem_append_left _ hkm, hbody,
          fun o ho => hkeys o (mem_of_mem_chunks hc ho)⟩
      | hello | keys | since | answerKeys | ack => cases hm

theorem Keyed.step_heard (hk : Keyed cr w) (hb : Base cr w) (hs : Shape cr space w a w')
    {km : WireMsg} {receiver : Option JsString} {ks : JsMap JsString}
    (hh : Heard w'.trace j km) (hm : km.body = .keys receiver ks) {o : Op} (ho : HasKey cr ks o) :
    (w'.node j).engine.keys[o.device]? ≠ none := by
  obtain ⟨l, hl, he⟩ := hs.trace
  obtain ⟨t₁, t₂, h, ht, hno⟩ := hh
  rw [hl] at ht
  rcases split_append ht with ⟨t₃, h1, rfl⟩ | ⟨t₃, rfl, hin⟩
  · -- heard before: the engine was not opened since
    rcases hs.evolves j with ⟨r, hev⟩ | ⟨_, _, _, hr⟩
    · obtain ⟨dd, heff, -⟩ := hev.effect hb
      exact heff.known
        (hk.heard ⟨t₁, t₃, h, h1, fun h => hno (List.mem_append_left _ h)⟩ hm ho)
    · have hlast : l = [.opened j] := List.append_cancel_left (hl.symm.trans hr.trace)
      rw [hlast] at hno
      exact absurd (List.mem_append_right _ (List.mem_singleton_self _)) hno
  · cases he _ hin with
    | handling hran =>
      obtain ⟨k, hks, hid⟩ := ho
      have e : (w'.node j).engine = learnKeys cr (w.node j).engine
          (ks.toList.map fun k => (k.1, unhex k.2)) := by
        rw [hran.evolves.engine]
        change ((w.node j).handle cr km).reply.engine = _
        unfold Node.handle
        rw [hm]
        exact Node.learnAll_eq ..
      rw [e]
      refine learnKeys_known (hb.consistent j).identity (List.mem_map.2 ⟨(o.device, hex k), ?_, ?_⟩) hid
      · exact Std.ExtTreeMap.mem_toList_iff_getElem?_eq_some.2 hks
      · exact congrArg (Prod.mk o.device) (unhex_hex k)

theorem Keyed.step (hk : Keyed cr w) (hb : Base cr w) (hs : Shape cr space w a w')
    (ha : Relearned w a) : Keyed cr w' where
  authors := hk.step_authors hb hs
  answer := hk.step_answer hb hs ha
  order := hk.step_order hs
  heard := hk.step_heard hb hs

omit [DecidableEq ι] in
theorem Keyed.initial (d : Deployment cr ι) : Keyed cr d.initial where
  authors _ _ := fun ⟨_, hm, _⟩ => by cases hm
  answer hc := by
    have hc' : (∅ : Std.ExtTreeMap Nat Handler compare)[_]? = _ := hc
    rw [Std.ExtTreeMap.getElem?_empty] at hc'
    cases hc'
  order ht := by
    have h' : [] = _ := ht
    simp at h'
  heard := by
    rintro j km receiver ks ⟨t₁, t₂, h, ht, -⟩
    have h' : [] = _ := ht
    simp at h'

/-- A batch by known devices is not rejected for an unknown one. -/
theorem signatureFault_ne_unknownDevice {keys : JsMap Bytes} {ops : List Op}
    (hk : ∀ o ∈ ops, keys[o.device]? ≠ none) (dev : JsString) :
    signatureFault cr keys ops ≠ some (.unknownDevice dev) := by
  intro hf
  obtain ⟨o, ho, h1⟩ := List.exists_of_findSome?_eq_some hf
  cases hd : keys[o.device]? with
  | none => exact hk o ho hd
  | some k =>
    rw [hd] at h1
    simp only at h1
    split at h1
    · cases h1
    · cases Option.some.inj h1

/-- Every message of operations that answers a `since` comes after a `keys`
message of the same handler to the same peer, which has the key of every
device in it; and a replica that took in that message since it was opened does
not reject the operations for an unknown device. -/
def KeysFirst (cr : Crypto) (w : Config ι) : Prop :=
  ∀ (t₁ t₂ : List (Event ι)) (i : ι) (h : Nat) (msg : WireMsg) (receiver : Option JsString)
    (js : List Json), w.trace = t₁ ++ .sent i (some h) msg :: t₂ → msg.body = .ops receiver js →
      ∃ km ks, Event.sent i (some h) km ∈ t₁ ∧ km.body = .keys receiver ks ∧
        (∀ x ∈ js, ∃ o : Op, o.raw = x ∧ HasKey cr ks o) ∧
        ∀ j, Heard w.trace j km → ∀ dev : JsString,
          (w.node j).engine.checkBatch cr js ≠ .error (.badOp (.unknownDevice dev))

omit [DecidableEq ι] in
theorem Keyed.keysFirst (hk : Keyed cr w) : KeysFirst cr w := by
  intro t₁ t₂ i h msg receiver js ht hm
  obtain ⟨peer, ops, rfl, rfl, km, ks, hkm, hbody, hkeys⟩ := hk.order ht hm
  refine ⟨km, ks, hkm, hbody, fun x hx => ?_, fun j hj dev hfail => ?_⟩
  · obtain ⟨o, ho, rfl⟩ := List.mem_map.1 hx
    exact ⟨o, rfl, hkeys o ho⟩
  · have known : ∀ o ∈ ops, (w.node j).engine.keys[o.device]? ≠ none := fun o ho =>
      hk.heard hj hbody (hkeys o ho)
    unfold checkBatch at hfail
    rw [validateOps_raw] at hfail
    simp only at hfail
    split at hfail
    · cases hfail
    · split at hfail
      · rename_i f hf
        obtain rfl := JsError.badOp.inj (Except.error.inj hfail)
        exact signatureFault_ne_unknownDevice known dev hf
      · cases hfail

/-- **Keys come before operations** in every run in which no answer to `since`
has operations applied before the engine was last opened, of devices whose keys
it has not learned again. -/
theorem keys_before_ops (d : Deployment cr ι) (space : JsString) {acts : List (Action ι)}
    (h : Runs.Along (step cr space) Relearned d.initial acts) :
    KeysFirst cr (Runs.run (step cr space) d.initial acts) :=
  (h.invariant (I := fun w => Base cr w ∧ Keyed cr w)
    (fun w a ha hw => ⟨hw.1.step (w.step_shape a), hw.2.step hw.1 (w.step_shape a) ha⟩)
    ⟨Base.initial d, Keyed.initial d⟩).2.keysFirst

/-! ## On samples -/

/-- Whether handler `h` of `i` sent the key of a device. -/
def keySent (t : List (Event ι)) (i : ι) (h : Nat) (device : JsString) : Bool :=
  t.any fun
    | .sent i' (some h') msg =>
      match msg.body with
      | .keys _ ks => i = i' ∧ h = h' ∧ ks.contains device
      | _ => false
    | _ => false

/-- Whether an operation was sent by a handler that did not send its device's key. -/
def unkeyed (t : List (Event ι)) : Bool :=
  t.any fun
    | .sent i (some h) msg =>
      match msg.body with
      | .ops _ ops => ops.any fun x => !keySent t i h (x.getStr (js "device"))
      | _ => false
    | _ => false

theorem not_keysFirst (hu : unkeyed w.trace = true) : ¬ KeysFirst cr w := by
  intro hk
  obtain ⟨e, he, h1⟩ := List.any_eq_true.1 hu
  cases e with
  | sent i h msg =>
    cases h with
    | none => cases h1
    | some h =>
      cases hb : msg.body with
      | ops receiver ops =>
        simp only [hb, List.any_eq_true] at h1
        obtain ⟨x, hx, hno⟩ := h1
        obtain ⟨t₁, t₂, ht⟩ := List.append_of_mem he
        obtain ⟨km, ks, hkm, hbody, hkeys, -⟩ := hk t₁ t₂ i h msg receiver ops ht hb
        obtain ⟨o, rfl, k, hget, -⟩ := hkeys x hx
        have hyes : keySent w.trace i h o.device = true := by
          refine List.any_eq_true.2 ⟨_, by rw [ht]; exact List.mem_append_left _ hkm, ?_⟩
          simp only [hbody]
          have hc : o.device ∈ ks := by
            rw [Std.ExtTreeMap.mem_iff_isSome_getElem?, hget]
            rfl
          simp [hc]
        exact absurd hno (by change ¬ (!keySent w.trace i h o.device) = true; rw [hyes]; decide)
      | _ => simp only [hb] at h1; cases h1
  | _ => cases h1

/-- A computed condition under which a step is `Relearned`. -/
def relearnedCheck (w : Config ι) : Action ι → Bool
  | .resume i h =>
    match (w.node i).pending[h]? with
    | some (.sinceKeys _ missing) => missing.all fun o => (w.node i).engine.keys.contains o.device
    | _ => true
  | _ => true

omit [DecidableEq ι] in
theorem relearned_of_check (hc : relearnedCheck w a = true) : Relearned w a := by
  rintro i h sender missing rfl hp o ho -
  simp only [relearnedCheck, hp, List.all_eq_true] at hc
  have hmem := hc o ho
  rw [Std.ExtTreeMap.contains_iff_mem, Std.ExtTreeMap.mem_iff_isSome_getElem?] at hmem
  exact Option.isSome_iff_ne_none.1 hmem

theorem keys_before_ops_sample :
    ((Sample.after Sample.answered).node true).engine.storage.allOps.length = 1 ∧
      KeysFirst plainCrypto (Sample.after Sample.answered) := by
  have first (acts : List (Action Bool)) (h : Runs.alongCheck (step plainCrypto Sample.space)
      relearnedCheck Sample.pair.initial acts = true) : KeysFirst plainCrypto (Sample.after acts) :=
    keys_before_ops Sample.pair Sample.space
      ((Runs.along_of_check h).mono fun w a hc => relearned_of_check hc)
  exact ⟨by decide +kernel, first _ (by decide +kernel)⟩

/-- A write of replica 0 reaches replica 1, which is opened again and then
answers a `since` of replica 2. -/
def relayed : List (Action (Fin 3)) :=
  [.start 0, .start 1, .resume 0 0, .deliver 1 0,
    .call 0 (.update Sample.table Sample.row (Sample.record (.bool true))), .deliver 1 1,
    .resume 1 2, .reopen 1 Sample.opts 0, .start 1, .start 2, .resume 1 3, .deliver 2 2] ++
  List.replicate 6 (.resume 2 1) ++ .deliver 1 5 :: List.replicate 4 (.resume 1 4)

/-- **After a reopening the keys of others are missing.** The answer holds the
write of replica 0, the `keys` message before it only the key of replica 1. -/
theorem keys_missing_after_reopening :
    ¬ KeysFirst plainCrypto
      (Runs.run (step plainCrypto Sample.space) Sample.trio.initial relayed) :=
  not_keysFirst (by decide +kernel)

end Config

end TangentFeed
