import TangentFeed.Dart.Announced

/-!
# What a Dart write does

A local write takes effect whole or not at all: it is refused and leaves the store
alone, or every column it names holds the value written and every other cell what it
held. Its operations are later than everything applied before, over all restarts.
Whatever is stored is signed by the device it names.
-/

namespace TangentFeed.Dart

open Lww

variable {cr : Crypto} {H : Set StoredOp} {t r c : JsString}

/-- The value that wins a cell. -/
def MemoryAdapter.cellValue (s : MemoryAdapter) (c : Cell) : Option (Doc AnyNum) :=
  (s.winner c).map fun o => o.value

namespace SyncEngine

variable {e m : SyncEngine}

/-! ## Local operations win -/

/-- Operations that are not in the log, each once, are all fresh. -/
theorem mem_fresh_of_new {s : MemoryAdapter} {ops : List StoredOp}
    (hnew : ∀ o ∈ ops, s.hasOp o.id = false) (hids : (ops.map fun o => o.id).Nodup) {o : StoredOp} :
    o ∈ (pending s ops).fresh ↔ o ∈ ops := by
  have hm := merged_pending s ops
  refine ⟨hm.fresh.subset (a := o), fun ho => ?_⟩
  rcases hm.covered o ho with h | ⟨f, hf, hid⟩
  · rw [hnew o ho] at h
    cases h
  · rwa [← List.inj_on_of_nodup_map hids (hm.fresh.subset hf) ho hid]

theorem LocalBatch.nodup {ops : List StoredOp} (hb : LocalBatch cr e m ops) :
    (ops.map fun o => o.id).Nodup := by
  rw [List.Nodup, List.pairwise_map]
  refine hb.increasing.imp fun {o p} hlt => ?_
  intro hid
  rw [o.id_eq_hlc, p.id_eq_hlc] at hid
  exact Nat.ne_of_lt hlt (StoredOp.ticks_congr hid)

theorem Consistent.hlc_lt_of_local (hc : Consistent cr e H) {ops : List StoredOp}
    (hb : LocalBatch cr e m ops) {o p : StoredOp} (ho : o ∈ ops) (hp : p ∈ H) : p.hlc < o.hlc :=
  StoredOp.hlc_lt.2 (.inl (hc.later_of_local hb o ho p hp))

/-- The operations of a local write are new. -/
theorem Consistent.new_of_local (hc : Consistent cr e H) {ops : List StoredOp}
    (hb : LocalBatch cr e m ops) : ∀ o ∈ ops, e.storage.hasOp o.id = false := by
  intro o ho
  rw [← Bool.not_eq_true, hc.kept.ledger.keyed.hasOp_iff]
  rintro ⟨p, hp, hid⟩
  have hlt := hc.hlc_lt_of_local hb ho (hc.kept.ledger.logged hp)
  rw [← p.id_eq_hlc, hid, o.id_eq_hlc] at hlt
  exact lt_irrefl _ hlt

/-- **Local operations win their cells.** -/
theorem Consistent.winner_local (hc : Consistent cr e H) {ops : List StoredOp}
    (hb : LocalBatch cr e m ops) (hcells : (ops.map StoredOp.cell).Nodup) (clock : Hlc) :
    (∀ o ∈ ops, (committed e.storage ops clock).winner o.cell = some o) ∧
      ∀ c, (∀ o ∈ ops, o.cell ≠ c) →
        (committed e.storage ops clock).winner c = e.storage.winner c := by
  have hfresh := fun {o} => mem_fresh_of_new (hc.new_of_local hb) hb.nodup (o := o)
  have hnodup : ((pending e.storage ops).fresh.map StoredOp.cell).Nodup := by
    refine List.Nodup.map_on (fun o ho p hp h => ?_) (merged_pending e.storage ops).nodup.of_map
    exact List.inj_on_of_nodup_map hcells (hfresh.1 ho) (hfresh.1 hp) h
  rw [winner_committed]
  constructor
  · intro o ho
    refine putAll_of_outranks (L := cellScheme) hnodup (fun p hp w hw => ?_) (hfresh.2 ho)
    exact hc.hlc_lt_of_local hb (hfresh.1 hp)
      (hc.kept.ledger.logged (hc.kept.ledger.winner_logged hw))
  · intro c hne
    exact putAll_of_ne (L := cellScheme) fun o ho => hne o (hfresh.1 ho)

/-! ## A whole write -/

/-- A call that failed before it committed. -/
def Refused {α : Type} (reply : Reply α) : Prop :=
  ∃ err, reply.result = .error err ∧ ∀ id, err ≠ .callback id

theorem refused_map {α β : Type} {f : α → β} {reply : Reply α} :
    Refused (reply.map f) ↔ Refused reply := by
  unfold Refused Reply.map
  cases reply.result with
  | error err => exact exists_congr fun _ => and_congr_left' ⟨fun h => by cases h; rfl,
      fun h => by cases h; rfl⟩
  | ok x => exact ⟨fun ⟨_, h, _⟩ => (nomatch h), fun ⟨_, h, _⟩ => nomatch h⟩

/-- What a commit does when it is not refused. -/
theorem commit_storage {ops : List StoredOp} {origin : Origin}
    (h : ¬Refused (e.commit ops origin)) :
    (e.commit ops origin).engine.storage = e.storage ∧ (pending e.storage ops).fresh = [] ∨
      (e.commit ops origin).engine.storage = committed e.storage ops e.clock.state := by
  unfold SyncEngine.commit at h ⊢
  split at h
  · rename_i hnil
    rw [if_pos hnil, List.isEmpty_iff.1 hnil]
    exact .inl ⟨rfl, rfl⟩
  rename_i hne
  rw [if_neg hne]
  simp only at h ⊢
  split at h
  · rename_i hfresh
    rw [if_pos hfresh]
    exact .inl ⟨rfl, List.isEmpty_iff.1 hfresh⟩
  rename_i hfresh
  rw [if_neg hfresh]
  rcases e.transact_cases (e.storage.applyBatch ((pending e.storage ops).batch e.clock.state)) with
    ht | ht
  · rw [ht] at h
    exact absurd ⟨_, rfl, fun id hid => nomatch hid⟩ h
  · rw [ht]
    exact .inr rfl

/-- **A write overrides the cells it names.** -/
theorem Consistent.write (hc : Consistent cr e H) (hm : Moved e m) {table row : JsString}
    {values : List (JsString × Doc AnyNum)} (hn : (values.map Prod.fst).Nodup)
    (h : ¬Refused (m.write cr table row values)) :
    (m.write cr table row values).engine.storage.cellValue (t, r, c) =
      if t = table ∧ r = row then
        ((⟨values, hn⟩ : Values).get c).or (e.storage.cellValue (t, r, c))
      else e.storage.cellValue (t, r, c) := by
  have him := hm.identity hc.identity
  have hmove := hm.trans (makeLocalOps_moved cr table row values m)
  unfold SyncEngine.write at h ⊢
  simp only at h ⊢
  cases hmade : (m.makeLocalOps cr table row values).1 with
  | error err =>
    rw [hmade] at h
    refine absurd ⟨err, rfl, fun id hid => ?_⟩ h
    exact makeLocalOps_ne_callback id (hmade.trans (congrArg _ hid))
  | ok ops =>
    rw [hmade] at h
    simp only [refused_map] at h ⊢
    obtain ⟨hb, hvalues⟩ := makeLocalOps_made him hmade
    have hlocal : LocalBatch cr e (m.makeLocalOps cr table row values).2 ops := by
      refine ⟨fun o ho => (hb.device o ho).trans hm.device, fun o ho => ?_, fun o ho => ?_,
        hb.increasing⟩
      · rw [← hm.deviceKey]
        exact hb.signed o ho
      · obtain ⟨h1, h2⟩ := hb.later o ho
        exact ⟨Nat.lt_of_le_of_lt (hm.clock hc.identity.bounded).2 h1, h2⟩
    have hcells : ops.map StoredOp.cell = values.map fun v => (table, row, v.1) := by
      have := congrArg (List.map Prod.fst) hvalues
      rwa [List.map_map, List.map_map] at this
    have hnodup : (ops.map StoredOp.cell).Nodup := by
      have e1 : values.map (fun v => (table, row, v.1)) =
          (values.map Prod.fst).map fun c => (table, row, c) := by
        rw [List.map_map]
        rfl
      rw [hcells, e1]
      exact hn.map fun a b h => congrArg (·.2.2) h
    obtain ⟨hwon, hother⟩ := hc.winner_local hlocal hnodup
      (m.makeLocalOps cr table row values).2.clock.state
    -- the store is the committed one, also when there was nothing to commit
    have hstore : ∀ c, ((m.makeLocalOps cr table row values).2.commit ops .local).engine.storage.winner
        c = (committed e.storage ops (m.makeLocalOps cr table row values).2.clock.state).winner c := by
      intro c
      rcases commit_storage h with ⟨hs, hnil⟩ | hs
      · rw [hmove.storage] at hs hnil
        rw [hs, winner_committed, hnil]
        rfl
      · rw [hmove.storage] at hs
        rw [hs]
    unfold MemoryAdapter.cellValue Reply.map
    simp only [hstore]
    by_cases hrow : t = table ∧ r = row
    · obtain ⟨rfl, rfl⟩ := hrow
      rw [if_pos ⟨rfl, rfl⟩]
      cases hv : (⟨values, hn⟩ : Values).get c with
      | some v =>
        have hmem : ((t, r, c), v) ∈ ops.map fun o => (o.cell, o.value) := by
          rw [hvalues]
          exact List.mem_map.2 ⟨(c, v), OrderedMap.mem_entries.2 hv, rfl⟩
        obtain ⟨o, ho, hov⟩ := List.mem_map.1 hmem
        obtain ⟨hcell, rfl⟩ := Prod.mk.inj hov
        rw [← hcell, hwon o ho]
        rfl
      | none =>
        rw [Option.none_or, hother]
        intro o ho hcell
        have hmem := List.mem_map_of_mem (f := StoredOp.cell) ho
        rw [hcells, hcell] at hmem
        obtain ⟨v, hv', e1⟩ := List.mem_map.1 hmem
        refine OrderedMap.get_eq_none.1 hv ?_
        rw [← (Prod.mk.inj (Prod.mk.inj e1).2).2]
        exact List.mem_map_of_mem hv'
    · rw [if_neg hrow, hother]
      intro o ho hcell
      have hmem := List.mem_map_of_mem (f := StoredOp.cell) ho
      rw [hcells, hcell] at hmem
      obtain ⟨v, -, e1⟩ := List.mem_map.1 hmem
      exact hrow ⟨(Prod.mk.inj e1).1.symm, (Prod.mk.inj (Prod.mk.inj e1).2).1.symm⟩

/-- A call that is refused, or overrides cells of one row. -/
def Overrides {α : Type} (e : SyncEngine) (reply : Reply α) (table row : JsString)
    (values : JsString → Option (Doc AnyNum)) : Prop :=
  (Refused reply → reply.engine.storage = e.storage ∧ reply.event = none) ∧
    (¬Refused reply → ∀ t r c, reply.engine.storage.cellValue (t, r, c) =
      if t = table ∧ r = row then (values c).or (e.storage.cellValue (t, r, c))
      else e.storage.cellValue (t, r, c))

theorem Effect.refused_eq {α : Type} {d : Deed} {reply : Reply α} (h : Effect cr e d reply)
    (hr : Refused reply) : reply.engine.storage = e.storage ∧ reply.event = none := by
  obtain ⟨err, hres, hne⟩ := hr
  rcases h.refused hres with ⟨hs, hev, -⟩ | ⟨id, -, hid, -⟩
  · exact ⟨hs, hev⟩
  · exact absurd hid (hne id)

theorem Consistent.overrides (hc : Consistent cr e H) (hm : Moved e m) (table row : JsString)
    {values : List (JsString × Doc AnyNum)} (hn : (values.map Prod.fst).Nodup) :
    Overrides e (m.write cr table row values) table row (⟨values, hn⟩ : Values).get :=
  ⟨(Effect.write hc.identity hm table row values).refused_eq, fun h _ _ _ => hc.write hm hn h⟩

theorem Overrides.map {α β : Type} {reply : Reply α} {table row : JsString}
    {values : JsString → Option (Doc AnyNum)} (h : Overrides e reply table row values) (f : α → β) :
    Overrides e (reply.map f) table row values :=
  ⟨fun hr => h.1 (refused_map.1 hr), fun hr => h.2 fun h' => hr (refused_map.2 h')⟩

/-! ## Who is told -/

/-- The callbacks are called in order up to the first that throws. -/
theorem notify_eq_some {subs : List Subscriber} {ev : ChangeEvent} {id : Nat}
    (h : (notify subs ev).2 = some id) : ∃ told s rest, subs = told ++ s :: rest ∧ s.id = id ∧
      s.throws ev = true ∧ (∀ x ∈ told, x.throws ev = false) ∧
      (notify subs ev).1 = told.map Subscriber.id ++ [id] := by
  induction subs with
  | nil => cases h
  | cons s subs ih =>
    unfold notify at h ⊢
    by_cases ht : s.throws ev = true
    · rw [if_pos ht] at h ⊢
      obtain rfl := Option.some.inj h
      exact ⟨[], s, subs, rfl, rfl, ht, fun x hx => (List.not_mem_nil hx).elim, rfl⟩
    · rw [if_neg ht] at h ⊢
      obtain ⟨told, x, rest, rfl, hid, hx, hquiet, htold⟩ := ih h
      refine ⟨s :: told, x, rest, rfl, hid, hx, ?_, ?_⟩
      · exact List.forall_mem_cons.2 ⟨Bool.eq_false_iff.2 ht, hquiet⟩
      · simp only [htold]
        rfl

/-! ## Authentic operations -/

/-- What a device signs verifies under its key. -/
theorem LocalBatch.authentic {ops : List StoredOp} (hcr : cr.Sound) (hi : Identity cr e)
    (hb : LocalBatch cr e m ops) : ∀ o ∈ ops, Authentic cr o := by
  intro o ho
  obtain ⟨payload, hp, hsig⟩ := hb.signed o ho
  obtain ⟨seed, hkey⟩ := hi.generated
  refine ⟨e.deviceKey.publicKey, hi.device.symm.trans (hb.device o ho).symm, ?_⟩
  rw [verifyOp, hp, hsig, signPayload, hkey, Option.map_some, verifyPayload,
    base64Decode_base64Encode]
  simp only [hcr.sign_length, if_true, hcr.verify_sign, Option.getD_some]

theorem Effect.authentic {α : Type} {d : Deed} {reply : Reply α} (hcr : cr.Sound)
    (hi : Identity cr e) (h : Effect cr e d reply) : ∀ o ∈ eventOps reply.event, Authentic cr o := by
  have hs := h.store
  generalize reply.event = ev at hs
  rintro o ⟨event, rfl, ho⟩
  cases hs with
  | @committed ops origin hs _ hb =>
    have hmem : o ∈ ops := (merged_pending e.storage ops).fresh.subset ho
    cases origin with
    | «local» => exact LocalBatch.authentic hcr hi hb o hmem
    | remote => exact RemoteBatch.authentic hb o hmem

end SyncEngine

/-! ## Over a run -/

namespace Replica

/-- **A local write is later than everything before it.** Over any number of restarts, each
operation a local write commits carries the device of the engine and a timestamp later than
that of every operation applied before, here or elsewhere, and those of one write increase. -/
theorem local_ops_latest (cr : Crypto) (acts : List Action) (c : Call) :
    ∀ e ev, (Runs.run (step cr) start acts).phase = .running e →
      (c.run cr e).event = some ev → ev.origin = .local →
      (∀ o ∈ ev.ops, o.device = e.deviceId ∧
        ∀ p ∈ (Runs.run (step cr) start acts).applied, p.hlc < o.hlc) ∧
      ev.ops.Pairwise fun o p => o.hlc < p.hlc := by
  intro e ev hrun hev horigin
  have hc := consistent_of_running hrun
  have hs := (c.run_effect hc.identity).store
  rw [hev] at hs
  generalize c.deed = d at hs
  cases hs with
  | @committed ops origin hs _ hb =>
    obtain rfl : origin = .local := horigin
    have hsub := (SyncEngine.merged_pending e.storage ops).fresh
    exact ⟨fun o ho => ⟨hb.device o (hsub.subset ho),
      fun p hp => hc.hlc_lt_of_local hb (hsub.subset ho) hp⟩,
      (hb.increasing.imp fun h => StoredOp.hlc_lt.2 (.inl h)).sublist hsub⟩

/-- The second update of a cell is later than the first. -/
theorem local_ops_latest_sample :
    ∃ ev, ((Sample.update (.bool true)).run plainCrypto Sample.updated).event = some ev ∧
      ev.ops.length = 1 ∧ ∀ o ∈ ev.ops,
        ∀ p ∈ (Runs.run (step plainCrypto) start Sample.updates).applied, p.hlc < o.hlc := by
  obtain ⟨ev, hev⟩ := Option.isSome_iff_exists.1 (show ((Sample.update (.bool true)).run plainCrypto
    Sample.updated).event.isSome = true by decide +kernel)
  have hlocal : (((Sample.update (.bool true)).run plainCrypto Sample.updated).event.map fun ev =>
      (ev.ops.length, decide (ev.origin = .local))) = some (1, true) := by decide +kernel
  rw [hev] at hlocal
  obtain ⟨hlen, horigin⟩ := Prod.mk.inj (Option.some.inj hlocal)
  have h := local_ops_latest plainCrypto Sample.updates (Sample.update (.bool true)) Sample.updated
    ev Sample.running_updated hev (of_decide_eq_true horigin)
  exact ⟨ev, hev, hlen, fun o ho => (h.1 o ho).2⟩

/-- **A local write takes effect whole or not at all.** An update, a delete or an insert is
refused and leaves the store as it was, or each cell it names holds the value written and every
other cell the value it held; a row deleted is not shown. -/
theorem writes_override (cr : Crypto) (acts : List Action) :
    ∀ e, (Runs.run (step cr) start acts).phase = .running e →
      (∀ table row (values : Values),
        SyncEngine.Overrides e (e.update cr table row values) table row values.get) ∧
      (∀ table row, SyncEngine.Overrides e (e.delete cr table row) table row
          (fun c => if c = tombstoneColumn then some (.bool true) else none) ∧
        (¬SyncEngine.Refused (e.delete cr table row) → (e.delete cr table row).engine.get table row = none)) ∧
      ∀ table (values : Values), ∃ row, SyncEngine.Overrides e (e.insert cr table values) table row values.get ∧
        ∀ id, (e.insert cr table values).result = .ok id → id = row := by
  intro e hrun
  have hc := consistent_of_running hrun
  refine ⟨fun table row values => hc.overrides (.refl e) table row values.nodup, fun table row => ?_,
    fun table values => ⟨_, (hc.overrides (.asked e _) table _ values.nodup).map _, fun id h => ?_⟩⟩
  · have hdel : SyncEngine.Overrides e (e.delete cr table row) table row
        (fun c => if c = tombstoneColumn then some (.bool true) else none) := by
      have hover := @SyncEngine.Consistent.overrides cr _ e e hc (.refl e) table row
        [(tombstoneColumn, .bool true)] (List.nodup_singleton tombstoneColumn)
      have e1 : (fun c => if c = tombstoneColumn then some (Doc.bool (ν := AnyNum) true) else none) =
          (⟨[(tombstoneColumn, .bool true)], List.nodup_singleton _⟩ : Values).get := by
        funext c
        rw [OrderedMap.get_cons]
        rfl
      rw [e1]
      exact hover
    refine ⟨hdel, fun h => SyncEngine.get_of_hidden ?_⟩
    have hcell := hdel.2 h table row tombstoneColumn
    rw [if_pos ⟨rfl, rfl⟩] at hcell
    replace hcell := hcell.trans (congrArg (Option.or · _) (if_pos rfl))
    obtain ⟨o, ho, hv⟩ := Option.map_eq_some_iff.1 hcell
    exact ⟨o, ho, by rw [hv]; rfl⟩
  · unfold SyncEngine.insert at h
    simp only [Reply.map] at h
    cases hres : (SyncEngine.update cr { e with asked := e.asked + 2 } table
        (ulid (if e.clock.millis = 0 then e.env.dateNow e.asked else e.clock.millis)
          ((List.range 16).map fun i => (e.env.random (e.asked + 1) i).val % 32)) values).result with
    | error err => rw [hres] at h; cases h
    | ok x => rw [hres] at h; exact (Except.ok.inj h).symm

/-- An update of a new replica takes effect. -/
theorem writes_override_sample :
    ¬SyncEngine.Refused (Sample.engine.update plainCrypto TangentFeed.Sample.table TangentFeed.Sample.row
        (Sample.values (.bool true))) ∧
      SyncEngine.Overrides Sample.engine (Sample.engine.update plainCrypto TangentFeed.Sample.table
        TangentFeed.Sample.row (Sample.values (.bool true))) TangentFeed.Sample.table
        TangentFeed.Sample.row (Sample.values (.bool true)).get :=
  have hok : (Sample.engine.update plainCrypto TangentFeed.Sample.table TangentFeed.Sample.row
      (Sample.values (.bool true))).result = .ok () := by decide +kernel
  ⟨fun ⟨_, h, _⟩ => (nomatch hok.symm.trans h),
    (writes_override plainCrypto Sample.acts Sample.engine Sample.running).1 _ _ _⟩

/-- **A failed call leaves no trace, or has committed.** In every state a replica reaches: a
call that fails with an error of the engine, of validation, of the clock or of the store leaves
the store as it was and tells nobody; one that fails with the error of a callback has
committed, and told the callbacks up to that one and none after it. -/
theorem failed_call (cr : Crypto) (acts : List Action) (c : Call) :
    ∀ e err, (Runs.run (step cr) start acts).phase = .running e →
      (c.run cr e).result = .error err →
      ((∀ id, err ≠ .callback id) → (c.run cr e).engine.storage = e.storage ∧
        (c.run cr e).event = none) ∧
      ∀ id, err = .callback id → ∃ ev told s rest, (c.run cr e).event = some ev ∧
        e.subscribers = told ++ s :: rest ∧ s.id = id ∧ s.throws ev = true ∧
        (∀ x ∈ told, x.throws ev = false) ∧
        (c.run cr e).received = told.map Subscriber.id ++ [id] := by
  intro e err hrun hres
  have heff := c.run_effect (consistent_of_running hrun).identity
  refine ⟨fun hne => heff.refused_eq ⟨err, hres, hne⟩, ?_⟩
  rintro id rfl
  rcases heff.refused hres with ⟨-, -, hne⟩ | ⟨id', ev, hid, hev, hnote⟩
  · exact absurd rfl (hne id)
  · obtain rfl := EngineFault.callback.inj hid
    obtain ⟨told, s, rest, h1, h2, h3, h4, h5⟩ := SyncEngine.notify_eq_some hnote
    exact ⟨ev, told, s, rest, hev, h1, h2, h3, h4, (heff.told hev).trans h5⟩

/-- An update that does not validate leaves no trace. -/
theorem failed_call_sample :
    let c : Call := .update (js "2do") TangentFeed.Sample.row (Sample.values (.bool true))
    (c.run plainCrypto Sample.engine).engine.storage = Sample.engine.storage ∧
      (c.run plainCrypto Sample.engine).event = none :=
  (failed_call plainCrypto Sample.acts _ Sample.engine (.badOp (.badTable (js "2do")))
    Sample.running (by decide +kernel)).1 fun id h => nomatch h

/-- **Only authentic operations are ever stored.** Whatever a replica is given, every operation
in its log is signed under a key whose hash is the device the operation names. -/
theorem stored_authentic (cr : Crypto) (hcr : cr.Sound) (acts : List Action) :
    ∀ o ∈ (Runs.run (step cr) start acts).phase.storage.logged, SyncEngine.Authentic cr o := by
  have inv : ∀ (r : Replica) (a : Action),
      (r.Kept cr ∧ ∀ o ∈ r.applied, SyncEngine.Authentic cr o) →
      (r.step cr a).Kept cr ∧ ∀ o ∈ (r.step cr a).applied, SyncEngine.Authentic cr o := by
    rintro r a ⟨hk, ha⟩
    refine ⟨hk.step a, ?_⟩
    cases a with
    | «open» env seed =>
      unfold Replica.step
      simp only
      cases (SyncEngine.openOn cr env r.phase.storage seed).result <;> exact ha
    | call c =>
      unfold Replica.step
      cases hp : r.phase with
      | closed s => exact ha
      | running e =>
        unfold Kept at hk
        rw [hp] at hk
        have hauth := (c.run_effect hk.identity).authentic hcr hk.identity
        simp only
        rw [applied_append (p := r.phase)]
        rintro o (ho | ho)
        · exact ha o ho
        · exact hauth o ho
    | close => exact ha
  have h := Runs.run_invariant inv ⟨kept_start, fun o ⟨_, h, _⟩ => nomatch h⟩ acts
  exact fun o ho => h.2 o (h.1.storage.ledger.logged ho)

/-- After two updates. -/
theorem stored_authentic_sample :
    (Runs.run (step plainCrypto) start Sample.updates).phase.storage.log.size = 2 ∧
      (Runs.run (step plainCrypto) start Sample.updates).phase.storage.logged ⊆
        {o | SyncEngine.Authentic plainCrypto o} :=
  ⟨by decide +kernel, stored_authentic plainCrypto plainCrypto_sound Sample.updates⟩

end Replica

end TangentFeed.Dart
