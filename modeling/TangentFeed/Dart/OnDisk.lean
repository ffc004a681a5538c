import TangentFeed.Dart.Answers
import TangentFeed.Dart.Run

/-!
# A replica on SQLite

Whatever an engine does to its store is a sequence of calls as `BuiltBatch` allows
them, so tables that take the same calls answer as the store in memory does, over
restarts, refused writes and compactions: `Replica.on_sqlite`.
-/

namespace TangentFeed.Dart

/-! ## Values are maps -/

/-- A value of Dart: the keys of each map are distinct. -/
def Item.Maps : Item → Prop
  | .built op => op.value.Distinct
  | .decoded raw => raw.Distinct

def Call.Maps : Call → Prop
  | insert _ values | update _ _ values => ∀ e ∈ values.entries, e.2.Distinct
  | applyRemoteOps raw => ∀ item ∈ raw, item.Maps
  | delete .. | recordPeerFrontier .. | learnKey .. | compact _ | subscribe _ | unsubscribe _ => True

def Replica.Action.Maps : Replica.Action → Prop
  | .call c => c.Maps
  | .open .. | .close => True

theorem Item.distinct_of_read {item : Item} (h : item.Maps) {o : StoredOp}
    (hr : item.read = .ok o) : o.value.Distinct := by
  cases item with
  | built op =>
    unfold Item.read at hr
    simp only at hr
    split at hr
    · cases hr
    · obtain rfl := Except.ok.inj hr
      exact h
  | decoded raw =>
    unfold Item.read at hr
    simp only at hr
    split at hr
    · cases hr
    rename_i op hop
    obtain rfl := Except.ok.inj hr
    have hvalue := (fromJson_eq_ok.1 hop).1.fields.value
    cases raw with
    | obj fs =>
      have h : Doc.Distinct (.obj fs) := h
      obtain ⟨hn, hf⟩ := Doc.distinct_obj.1 h
      exact hf (js "value", op.value) ((OrderedMap.mem_iff_lookup hn).2 hvalue)
    | null => cases hvalue
    | bool b => cases hvalue
    | num n => cases hvalue
    | str s => cases hvalue
    | arr xs => cases hvalue

theorem exists_of_mapM_eq_ok {α β ε : Type} {f : α → Except ε β} {l : List α} {ys : List β}
    (h : l.mapM f = .ok ys) : ∀ y ∈ ys, ∃ x ∈ l, f x = .ok y := by
  induction l generalizing ys with
  | nil =>
    obtain rfl := Except.ok.inj h
    exact fun y hy => absurd hy List.not_mem_nil
  | cons x l ih =>
    rw [List.mapM_cons] at h
    cases hx : f x with
    | error err => rw [hx] at h; cases h
    | ok z =>
      cases hl : l.mapM f with
      | error err => rw [hx, hl] at h; cases h
      | ok zs =>
        rw [hx, hl] at h
        obtain rfl := Except.ok.inj h
        rintro y (_ | ⟨_, hy⟩)
        · exact ⟨x, List.mem_cons_self, hx⟩
        · obtain ⟨w, hw, hf⟩ := ih hl y hy
          exact ⟨w, List.mem_cons_of_mem _ hw, hf⟩

/-! ## The store of an engine -/

section Wrote

variable {s t u : MemoryAdapter}

/-- `t` is `s` after calls as the engine makes them. -/
def Wrote (s t : MemoryAdapter) : Prop :=
  ∃ calls, Runs.Along MemoryAdapter.make MemoryAdapter.Built s calls ∧
    Runs.run MemoryAdapter.make s calls = t

theorem Wrote.refl (s : MemoryAdapter) : Wrote s s := ⟨[], trivial, rfl⟩

theorem Wrote.of_eq (h : t = s) : Wrote s t := h ▸ .refl s

theorem Wrote.one {call : StoreCall} (h : s.Built call) : Wrote s (s.make call) :=
  ⟨[call], ⟨h, trivial⟩, rfl⟩

theorem Wrote.trans (h : Wrote s t) (h' : Wrote t u) : Wrote s u := by
  obtain ⟨calls, ha, rfl⟩ := h
  obtain ⟨calls', ha', rfl⟩ := h'
  exact ⟨calls ++ calls', Runs.along_append.2 ⟨ha, ha'⟩, Runs.run_append⟩

end Wrote

theorem storable_of_le {clock : Hlc} (hm : clock.millis ≤ maxMillis) (hc : clock.counter ≤ maxCounter) :
    Storable clock := by
  unfold maxMillis at hm
  unfold maxCounter at hc
  constructor <;> omega

namespace SyncEngine

variable {cr : Crypto} {e : SyncEngine}

/-- **The batch of `_commit` is one that the engine may write.** -/
theorem builtBatch_pending {s : MemoryAdapter} {ops : List StoredOp}
    (hv : ∀ o ∈ ops, o.value.Distinct) {clock : Hlc} (hc : Storable clock) :
    s.BuiltBatch ((pending s ops).batch clock) := by
  have hm := merged_pending s ops
  exact {
    nodup := hm.nodup
    new := fun o ho => by
      have hno := hm.notLogged o ho
      unfold MemoryAdapter.hasOp at hno
      exact Option.not_isSome_iff_eq_none.1 (Bool.eq_false_iff.1 hno)
    keyed := fun h => (hm.beats h).2.1
    logged := fun o ho => hv o (hm.fresh.subset ho)
    winning := fun h => hv _ (hm.fresh.subset (hm.beats h).1)
    clock := fun c h => Option.some.inj h ▸ hc }

theorem commit_wrote {ops : List StoredOp} {origin : Origin} (hv : ∀ o ∈ ops, o.value.Distinct)
    (hc : ops ≠ [] → Storable e.clock.state) :
    Wrote e.storage (e.commit ops origin).engine.storage := by
  unfold SyncEngine.commit
  split
  · exact .refl _
  rename_i hne
  have hclock := hc fun h => hne (List.isEmpty_iff.2 h)
  simp only
  split
  · exact .refl _
  rcases e.transact_cases (e.storage.applyBatch ((pending e.storage ops).batch e.clock.state)) with
    h | h
  · rw [h]
    exact .refl _
  · rw [h]
    exact @Wrote.one _ (.applyBatch _) (builtBatch_pending hv hclock)

/-- Making operations leaves the clock in range, -/
theorem makeLocalOps_millis {table row : JsString} {values : List (JsString × Doc AnyNum)}
    {ops : List StoredOp} (h : (e.makeLocalOps cr table row values).1 = .ok ops)
    (hc : ops ≠ [] ∨ e.clock.millis ≤ maxMillis) :
    (e.makeLocalOps cr table row values).2.clock.millis ≤ maxMillis := by
  induction values generalizing e ops with
  | nil => exact hc.resolve_left fun hne => hne (Except.ok.inj h).symm
  | cons v values ih =>
    have hone : ∀ op, (e.makeLocalOp cr table row v.1 v.2).1 = .ok op →
        (e.makeLocalOp cr table row v.1 v.2).2.clock.millis ≤ maxMillis := by
      intro op hop
      rw [makeLocalOp_snd]
      unfold makeLocalOp at hop
      simp only at hop
      split at hop
      · cases hop
      rename_i t hok
      exact (HybridLogicalClock.now_eq_ok hok).2
    unfold makeLocalOps at h ⊢
    cases hr : (e.makeLocalOp cr table row v.1 v.2).1 with
    | error err => simp only [hr] at h; cases h
    | ok op =>
      simp only [hr] at h ⊢
      cases hrs : ((e.makeLocalOp cr table row v.1 v.2).2.makeLocalOps cr table row values).1 with
      | error err => rw [hrs] at h; cases h
      | ok rest => exact ih hrs (.inr (hone op hr))

theorem admitOne_millis (hb : e.clock.Bounded) {o : StoredOp} (h : (e.admitOne cr o).1 = .ok ()) :
    (e.admitOne cr o).2.clock.millis ≤ maxMillis := by
  unfold admitOne at h ⊢
  split at h
  · cases h
  rename_i k hk
  split at h
  · cases h
  · cases h
  rename_i hv
  split at h
  · cases h
  rename_i remote hd
  simp only at h
  split at h
  · cases h
  rename_i t hok
  simp only [hok]
  exact ((HybridLogicalClock.receive_spec hb (decodeHlc_eq_ok hd).1.counter
    (e.env.physicalClock e.asked)).2.2.2 t hok).2.2

/-- and so does a batch from elsewhere that passes. -/
theorem admitAll_millis (hi : Identity cr e) {raw : List Item} {ops : List StoredOp}
    (h : (e.admitAll cr raw).1 = .ok ops) (hc : ops ≠ [] ∨ e.clock.millis ≤ maxMillis) :
    (e.admitAll cr raw).2.clock.millis ≤ maxMillis := by
  induction raw generalizing e ops with
  | nil => exact hc.resolve_left fun hne => hne (Except.ok.inj h).symm
  | cons item rest ih =>
    unfold admitAll at h ⊢
    cases hread : item.read with
    | error f => simp only [hread] at h; cases h
    | ok o =>
      simp only [hread] at h ⊢
      cases hr : (e.admitOne cr o).1 with
      | error err => simp only [hr] at h; cases h
      | ok _ =>
        simp only [hr] at h ⊢
        cases hrs : ((e.admitOne cr o).2.admitAll cr rest).1 with
        | error err => rw [hrs] at h; cases h
        | ok ops' =>
          exact ih ((admit_spec hi o).1.identity hi) hrs (.inr (admitOne_millis hi.bounded hr))

/-! ## Every call -/

theorem write_wrote {m : SyncEngine} (hi : Identity cr m) (table row : JsString)
    {values : List (JsString × Doc AnyNum)} (hv : ∀ e ∈ values, e.2.Distinct) :
    Wrote m.storage (m.write cr table row values).engine.storage := by
  have hmove := makeLocalOps_moved cr table row values m
  unfold SyncEngine.write
  simp only
  split
  · exact .of_eq hmove.storage
  rename_i ops hok
  obtain ⟨-, hcells⟩ := makeLocalOps_made hi hok
  rw [← hmove.storage]
  refine commit_wrote (fun o ho => ?_) fun hne =>
    storable_of_le (makeLocalOps_millis hok (.inl hne)) (hmove.identity hi).bounded
  have hmem : (o.cell, o.value) ∈ ops.map fun o => (o.cell, o.value) := List.mem_map_of_mem ho
  rw [hcells] at hmem
  obtain ⟨v, hm, heq⟩ := List.mem_map.1 hmem
  rw [← (Prod.mk.inj heq).2]
  exact hv v hm

theorem applyRemoteOps_wrote (hi : Identity cr e) {raw : List Item} (hv : ∀ item ∈ raw, item.Maps) :
    Wrote e.storage (e.applyRemoteOps cr raw).engine.storage := by
  obtain ⟨hmove, -, hspec⟩ := admitAll_spec hi raw
  unfold SyncEngine.applyRemoteOps
  split
  · exact .refl _
  simp only
  split
  · exact .of_eq hmove.storage
  rename_i ops hok
  rw [← hmove.storage]
  refine commit_wrote (fun o ho => ?_) fun hne =>
    storable_of_le (admitAll_millis hi hok (.inl hne)) (hmove.identity hi).bounded
  obtain ⟨item, hm, hread⟩ := exists_of_mapM_eq_ok (hspec hok).2 o ho
  exact Item.distinct_of_read (hv item hm) hread

theorem transact_wrote {s : MemoryAdapter} (h : Wrote e.storage s) :
    Wrote e.storage (e.transact s).engine.storage := by
  rcases e.transact_cases s with ht | ht
  · rw [ht]
    exact .refl _
  · rw [ht]
    exact h

theorem compactStorage_wrote (s : MemoryAdapter) (opts : CompactionOptions) :
    Wrote s (compactStorage s opts).1 := by
  by_cases hd : opts.dryRun = true
  · exact .of_eq (compactStorage_dryRun hd)
  · rw [compactStorage_fst (Bool.eq_false_iff.2 hd)]
    split
    · exact .refl s
    · exact @Wrote.one s (.compact (s.plan opts).opIds (s.plan opts).cellKeys) trivial

/-- Opening writes the key of a new device and the clock of a new store. -/
theorem openOn_wrote (env : Env) {s : MemoryAdapter} {H : Set StoredOp} (h : s.Kept cr H)
    (seed : Nat) : Wrote s (openOn cr env s seed).engine.storage := by
  have hopen : ∀ {s : MemoryAdapter} (key : DeviceKey) (asked : Nat), s.Kept cr H →
      Wrote s (openWith cr env s key asked).engine.storage := by
    intro s key asked hk
    unfold openWith
    simp only
    split
    · exact .refl s
    rename_i t hok
    split
    · exact .refl s
    have hcounter : (made cr env s key asked).clock.state.counter ≤ maxCounter := by
      change (s.clock.map Hlc.counter).getD 0 ≤ maxCounter
      cases hc : s.clock with
      | none => exact Nat.zero_le _
      | some c => exact hk.counter c hc
    have hclock : Storable (made cr env s key asked).clock.state :=
      storable_of_le (HybridLogicalClock.checked_eq_ok hok).2 hcounter
    refine @transact_wrote (made cr env s key asked) _ (@Wrote.one s (.applyBatch _) ?_)
    exact {
      nodup := .nil
      new := fun o ho => absurd ho List.not_mem_nil
      keyed := fun hn => (nomatch hn)
      logged := fun o ho => absurd ho List.not_mem_nil
      winning := fun hn => (nomatch hn)
      clock := fun c hc => Option.some.inj hc ▸ hclock }
  unfold openOn
  split
  · exact hopen _ _ h
  simp only
  rcases (made cr env s (cr.keygen seed) 0).transact_cases
    { s with deviceKey := some (cr.keygen seed) } with ht | ht
  · rw [ht]
    exact .refl s
  · rw [ht]
    have hkey : Wrote s (s.make (.setDeviceKey (cr.keygen seed))) := .one trivial
    exact hkey.trans (hopen _ _ (h.setKey seed))

end SyncEngine

/-- **Every call writes as it may.** -/
theorem Call.wrote {cr : Crypto} {e : SyncEngine} (hi : SyncEngine.Identity cr e) {c : Call}
    (hc : c.Maps) : Wrote e.storage (c.run cr e).engine.storage := by
  cases c with
  | insert table values =>
    have hi' := (SyncEngine.Moved.asked e (e.asked + 2)).identity hi
    exact SyncEngine.write_wrote hi' table _ hc
  | update table row values => exact SyncEngine.write_wrote hi table row hc
  | delete table row =>
    exact SyncEngine.write_wrote hi table row (List.forall_mem_singleton.2 trivial)
  | applyRemoteOps raw => exact SyncEngine.applyRemoteOps_wrote hi hc
  | recordPeerFrontier peer f =>
    exact SyncEngine.transact_wrote (@Wrote.one _ (.setPeerFrontier peer f) trivial)
  | learnKey id key =>
    refine .of_eq ?_
    change (e.learnKey cr id key).2.storage = e.storage
    unfold SyncEngine.learnKey
    split <;> rfl
  | compact opts =>
    change Wrote e.storage (e.compact opts).engine.storage
    unfold SyncEngine.compact
    simp only
    split
    · exact SyncEngine.transact_wrote (SyncEngine.compactStorage_wrote _ opts)
    · exact .refl _
  | subscribe s => exact .refl _
  | unsubscribe id => exact .refl _

namespace Replica

theorem Kept.wrote {cr : Crypto} {r : Replica} (h : r.Kept cr) {a : Action} (ha : a.Maps) :
    Wrote r.phase.storage (r.step cr a).phase.storage := by
  cases a with
  | «open» env seed =>
    have hw := SyncEngine.openOn_wrote env h.storage seed
    unfold Replica.step
    simp only
    cases (SyncEngine.openOn cr env r.phase.storage seed).result with
    | ok _ => exact hw
    | error _ => exact hw
  | call c =>
    unfold Replica.step
    cases hp : r.phase with
    | closed s =>
      simp only
      exact .of_eq (by rw [hp])
    | running e =>
      unfold Kept at h
      rw [hp] at h
      exact c.wrote h.identity ha
  | close => exact .refl _

end Replica

/-! ## What SQLite answers -/

/-- **The tables answer as the maps do.** Over any calls that the engine may make, where
any statement of any call may throw, SQLite answers every read as the store in memory on
which the calls that completed were made; a call completes unless a statement throws, and one
that throws leaves the tables as they were. -/
theorem sqlite_answers (attempts : List ((Nat → Bool) × StoreCall))
    (h : Runs.Along Stores.step (fun s a => s.memory.Built a.2) .empty attempts) :
    Answers (Runs.run Stores.step .empty attempts).memory
        (Runs.run Stores.step .empty attempts).tables ∧
      (∀ call, ((Runs.run Stores.step .empty attempts).tables.make never call).1 = true) ∧
      ∀ throws call, ((Runs.run Stores.step .empty attempts).tables.make throws call).1 = false →
        ((Runs.run Stores.step .empty attempts).tables.make throws call).2 =
          (Runs.run Stores.step .empty attempts).tables := by
  have ht : (Runs.run Stores.step .empty attempts).Tied :=
    h.invariant (fun _ a hb ht => ht.step a hb) ⟨.empty, .empty⟩
  exact ⟨ht.tables.answers ht.stocked, ht.tables.completes, fun _ _ => SqliteAdapter.make_of_throws⟩

namespace Sample

/-- The operations of the sample engine in one batch. -/
def batch : BatchWrite :=
  (SyncEngine.pending .empty updated.storage.log.values).batch updated.clock.state

def isFlag : Doc AnyNum → Bool
  | .bool _ => true
  | _ => false

theorem distinct_of_isFlag {v : Doc AnyNum} (h : isFlag v = true) : v.Distinct := by
  cases v with
  | bool b => trivial
  | null => cases h
  | num n => cases h
  | str s => cases h
  | arr xs => cases h
  | obj fs => cases h

theorem built_batch : MemoryAdapter.empty.BuiltBatch batch := by
  have hflags : updated.storage.log.values.all (fun o => isFlag o.value) = true := by decide +kernel
  have hclock : updated.clock.state.millis < 2 ^ 63 ∧ updated.clock.state.counter < 2 ^ 63 := by
    decide +kernel
  exact SyncEngine.builtBatch_pending
    (fun o ho => distinct_of_isFlag (List.all_eq_true.1 hflags o ho)) hclock

/-- A batch whose second statement throws, the same batch again, and a peer. -/
def attempts : List ((Nat → Bool) × StoreCall) :=
  [(fun n => n == 2, .applyBatch batch), (never, .applyBatch batch),
    (never, .setPeerFrontier (js "peer") ∅)]

theorem built_attempts :
    Runs.Along Stores.step (fun s a => s.memory.Built a.2) .empty attempts := by
  have hfails : (Stores.empty.tables.make (fun n => n == 2) (.applyBatch batch)).1 = false := by
    decide +kernel
  have hmem : (Stores.empty.step (fun n => n == 2, .applyBatch batch)).memory = .empty := by
    unfold Stores.step
    simp only [hfails, Bool.false_eq_true, if_false]
    rfl
  refine ⟨built_batch, ?_, trivial, trivial⟩
  change MemoryAdapter.Built (Stores.step ..).memory _
  rw [hmem]
  exact built_batch

end Sample

theorem sqlite_answers_sample :
    (Runs.run Stores.step .empty Sample.attempts).tables.opCount = 2 ∧
      Answers (Runs.run Stores.step .empty Sample.attempts).memory
        (Runs.run Stores.step .empty Sample.attempts).tables :=
  ⟨by decide +kernel, (sqlite_answers _ Sample.built_attempts).1⟩

/-- Calls that complete. -/
theorem Stores.run_never {s : Stores} (h : s.Tied) {calls : List StoreCall}
    (ha : Runs.Along MemoryAdapter.make MemoryAdapter.Built s.memory calls) :
    (Runs.run Stores.step s (calls.map fun c => (never, c))).Tied ∧
      (Runs.run Stores.step s (calls.map fun c => (never, c))).memory =
        Runs.run MemoryAdapter.make s.memory calls := by
  induction calls generalizing s with
  | nil => exact ⟨h, rfl⟩
  | cons c calls ih =>
    have hmem : (s.step (never, c)).memory = s.memory.make c := by
      unfold Stores.step
      simp only [h.tables.completes c, if_true]
    rw [List.map_cons, Runs.run_cons, Runs.run_cons, ← hmem]
    refine ih (h.step _ ha.1) ?_
    rw [hmem]
    exact ha.2

/-- Tables on which the calls of a replica were made, action by action. -/
def Stores.after (calls : List (List StoreCall)) : Stores :=
  Runs.run Stores.step .empty (calls.flatten.map fun c => (never, c))

theorem Stores.after_append (calls : List (List StoreCall)) (cs : List StoreCall) :
    Stores.after (calls ++ [cs]) =
      Runs.run Stores.step (Stores.after calls) (cs.map fun c => (never, c)) := by
  unfold Stores.after
  rw [List.flatten_append, List.flatten_singleton, List.map_append, Runs.run_append]

/-- The calls of each action, one action after the other. -/
theorem Replica.exists_calls (cr : Crypto) (acts : List Replica.Action) (h : ∀ a ∈ acts, a.Maps) :
    ∃ calls : List (List StoreCall), calls.length = acts.length ∧
      Runs.Along MemoryAdapter.make MemoryAdapter.Built .empty calls.flatten ∧ ∀ n,
      (Stores.after (calls.take n)).Tied ∧ (Stores.after (calls.take n)).memory =
        (Runs.run (Replica.step cr) .start (acts.take n)).phase.storage := by
  induction acts using List.reverseRecOn with
  | nil =>
    refine ⟨[], rfl, trivial, fun n => ?_⟩
    rw [List.take_nil, List.take_nil]
    exact ⟨⟨.empty, .empty⟩, rfl⟩
  | append_singleton acts a ih =>
    obtain ⟨hacts, ha⟩ := List.forall_mem_append.1 h
    obtain ⟨calls, hlen, hmade, hcalls⟩ := ih hacts
    obtain ⟨cs, hbuilt, hrun⟩ := (Replica.kept_run cr acts).wrote (ha a List.mem_cons_self)
    have hstore : Runs.run MemoryAdapter.make .empty calls.flatten =
        (Runs.run (Replica.step cr) .start acts).phase.storage := by
      have hall := (hcalls acts.length).2
      rw [← hlen, List.take_length, hlen, List.take_length] at hall
      rw [← hall]
      exact (@Stores.run_never .empty ⟨.empty, .empty⟩ _ hmade).2.symm
    have hmade' : Runs.Along MemoryAdapter.make MemoryAdapter.Built .empty
        (calls ++ [cs]).flatten := by
      rw [List.flatten_append, List.flatten_singleton]
      exact Runs.along_append.2 ⟨hmade, by rw [hstore]; exact hbuilt⟩
    refine ⟨calls ++ [cs], by rw [List.length_append, List.length_append, hlen]; rfl, hmade',
      fun n => ?_⟩
    rcases Nat.lt_or_ge acts.length n with hn | hn
    rotate_left
    · rw [List.take_append_of_le_length (hlen ▸ hn), List.take_append_of_le_length hn]
      exact hcalls n
    · obtain ⟨ht, hmem⟩ := hcalls acts.length
      rw [← hlen, List.take_length, hlen, List.take_length] at hmem
      rw [← hlen, List.take_length] at ht
      rw [← hmem] at hbuilt hrun
      obtain ⟨ht', hmem'⟩ := Stores.run_never ht hbuilt
      rw [List.take_of_length_le (by rw [List.length_append, hlen]; exact hn),
        List.take_of_length_le (by rw [List.length_append]; exact hn), Stores.after_append,
        Runs.run_append, Runs.run_cons, Runs.run_nil]
      exact ⟨ht', hmem'.trans hrun⟩

/-- **A replica on SQLite.** Whatever a replica does and over any restarts, each action
makes some calls of the adapter, which are such as the engine makes, and after every action
tables that took these calls answer every read as the replica's store does. -/
theorem Replica.on_sqlite (cr : Crypto) (acts : List Replica.Action) (h : ∀ a ∈ acts, a.Maps) :
    ∃ calls : List (List StoreCall), calls.length = acts.length ∧
      Runs.Along MemoryAdapter.make MemoryAdapter.Built .empty calls.flatten ∧ ∀ n,
      (Stores.after (calls.take n)).memory =
        (Runs.run (Replica.step cr) .start (acts.take n)).phase.storage ∧
      Answers (Runs.run (Replica.step cr) .start (acts.take n)).phase.storage
        (Stores.after (calls.take n)).tables := by
  obtain ⟨calls, hlen, hmade, hcalls⟩ := Replica.exists_calls cr acts h
  refine ⟨calls, hlen, hmade, fun n => ⟨(hcalls n).2, ?_⟩⟩
  rw [← (hcalls n).2]
  exact (hcalls n).1.tables.answers (hcalls n).1.stocked

/-- A replica that updates one cell twice. -/
theorem Replica.on_sqlite_sample : ∃ calls : List (List StoreCall), calls.length = 3 ∧
    (Stores.after (calls.take 3)).memory = Sample.updated.storage ∧
    Answers Sample.updated.storage (Stores.after (calls.take 3)).tables := by
  have hmaps : ∀ a ∈ Sample.updates, a.Maps := by
    have hvalues : ∀ v : Bool, ∀ e ∈ (Sample.values (.bool v)).entries, e.2.Distinct := fun v e he => by
      rw [List.mem_singleton.1 he]
      trivial
    rintro a (_ | ⟨_, _ | ⟨_, _ | ⟨_, ⟨⟩⟩⟩⟩)
    · trivial
    · exact hvalues true
    · exact hvalues false
  obtain ⟨calls, hlen, -, h⟩ := Replica.on_sqlite plainCrypto Sample.updates hmaps
  have h3 := h 3
  have htake : Sample.updates.take 3 = Sample.updates := rfl
  rw [htake, Sample.running_updated] at h3
  exact ⟨calls, hlen, h3⟩

end TangentFeed.Dart
