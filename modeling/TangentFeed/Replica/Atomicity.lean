import TangentFeed.Replica.Run
import TangentFeed.Replica.Sample

/-!
# Rejected mutations

A mutation rejects before its batch is persisted, and then nothing stored has
changed, or because a subscriber throws after it is persisted.
`mutation_atomic_iff` says exactly when the second does no harm.
-/

namespace TangentFeed

variable {cr : Crypto}

/-- The calls that write operations. -/
inductive Mutation where
  | insert (table : JsString) (values : Record)
  | update (table row : JsString) (values : Record)
  | delete (table row : JsString)
  | applyRemoteOps (remoteOps : List Json)

namespace Mutation

def call : Mutation → Call
  | insert table values => .insert table values
  | update table row values => .update table row values
  | delete table row => .delete table row
  | applyRemoteOps ops => .applyRemoteOps ops

/-- The engine and the batch a local write comes to `commit` with. -/
def localBatch (made : Except JsError (List Op) × SyncEngine) :
    Option (SyncEngine × List Op × Origin) :=
  match made.1 with
  | .error _ => none
  | .ok ops => some (made.2, ops, .local)

/-- The same for a batch from elsewhere, if something in it is fresh. -/
def remoteBatch (cr : Crypto) (e : SyncEngine) (remoteOps : List Json) :
    Option (SyncEngine × List Op × Origin) :=
  match e.checkBatch cr remoteOps with
  | .error _ => none
  | .ok ops =>
    match (e.receiveMax ops).1 with
    | .error _ => none
    | .ok () =>
      if (SyncEngine.freshOps e.storage ops).isEmpty then none
      else some ((e.receiveMax ops).2, SyncEngine.freshOps e.storage ops, .remote)

/-- The engine and the batch a mutation comes to `commit` with, if it does. -/
def batch (cr : Crypto) (e : SyncEngine) : Mutation → Option (SyncEngine × List Op × Origin)
  | insert table values =>
    match ulid (max e.clock.millis (e.env.dateNow e.asked) % 2 ^ 48)
      ((List.range 10).map (e.env.random (e.asked + 1))) with
    | none => none
    | some row =>
      localBatch (({ e with asked := e.asked + 2 } : SyncEngine).makeLocalOps cr table row
        values.entries)
  | update table row values => localBatch (e.makeLocalOps cr table row values.entries)
  | delete table row => localBatch (e.makeLocalOps cr table row [(tombstoneColumn, .bool true)])
  | applyRemoteOps remoteOps => remoteBatch cr e remoteOps

end Mutation

/-- The log, the cells, the frontier and the persisted clock are as before. -/
structure Unchanged (s s' : MemoryAdapter) : Prop where
  log : s'.opsById = s.opsById
  cells : s'.tables = s.tables
  frontier : s'.frontier = s.frontier
  clock : s'.clock = s.clock

/-- A rejected mutation leaves nothing behind, and one that resolves with new
operations was told to every subscriber once. -/
def Atomic (cr : Crypto) (e : SyncEngine) (m : Mutation) : Prop :=
  let reply := m.call.run cr e
  (∀ err, reply.result = .error err → Unchanged e.storage reply.engine.storage) ∧
    ∀ ev, reply.result = .ok () → reply.event = some ev → ev.ops ≠ [] →
      ∀ s ∈ e.subscribers, reply.received.count s.id = 1

/-- No subscriber throws on the change event of the batch that comes to be
persisted, or there is nothing to persist: the batch is empty and the clock
saved already. -/
def Undisturbed (cr : Crypto) (e : SyncEngine) (m : Mutation) : Prop :=
  ∀ e' ops origin, m.batch cr e = some (e', ops, origin) → e'.env.storageFails e'.asked = false →
    (∀ s ∈ e.subscribers, s.throws (SyncEngine.changeEvent ops origin) = false) ∨
      ops = [] ∧ e.storage.clock = some e'.clockState

namespace SyncEngine

variable {e : SyncEngine}

theorem notify_of_quiet {subs : List Subscriber} {ev : ChangeEvent}
    (h : ∀ s ∈ subs, s.throws ev = false) : notify subs ev = (subs.map Subscriber.id, none) := by
  induction subs with
  | nil => rfl
  | cons s subs ih =>
    unfold notify
    rw [h s List.mem_cons_self, ih fun t ht => h t (List.mem_cons_of_mem _ ht)]
    rfl

theorem quiet_of_notify {subs : List Subscriber} {ev : ChangeEvent}
    (h : (notify subs ev).2 = none) : ∀ s ∈ subs, s.throws ev = false := by
  induction subs with
  | nil => simp
  | cons s subs ih =>
    unfold notify at h
    by_cases ht : s.throws ev = true
    · rw [if_pos ht] at h
      cases h
    · rw [if_neg ht] at h
      rintro t (_ | ⟨_, hm⟩)
      · simpa using ht
      · exact ih h t hm

/-- A mutation that does not come to `commit` changes nothing unless it resolves. -/
structure NoBatch (e : SyncEngine) (r : Reply Unit) : Prop where
  event : r.event = none
  unchanged : ∀ err, r.result = .error err → r.engine.storage = e.storage

theorem NoBatch.quiet {m : SyncEngine} (hm : Moved e m) (res : Except JsError Unit) :
    NoBatch e (.quiet m res) := ⟨rfl, fun _ _ => hm.storage⟩

/-- What the reply of a mutation is by the batch it comes to `commit` with. -/
def Follows (cr : Crypto) (e : SyncEngine) (r : Reply Unit) :
    Option (SyncEngine × List Op × Origin) → Prop
  | none => NoBatch e r
  | some (m, ops, origin) => Moved e m ∧ BatchOf cr e m ops origin ∧
      (∀ err, r.result = .error err ↔ (m.commit ops origin).result = .error err) ∧
      r.engine = (m.commit ops origin).engine ∧ r.event = (m.commit ops origin).event ∧
      r.received = (m.commit ops origin).received

theorem Follows.localWrite {m : SyncEngine} (hi : Identity cr e) (hm : Moved e m)
    (table row : JsString) (values : List (JsString × Json)) :
    let made := m.makeLocalOps cr table row values
    Follows cr e (match made.1 with
      | .error err => .quiet made.2 (.error err)
      | .ok ops => made.2.commit ops .local) (Mutation.localBatch made) := by
  have hmove := makeLocalOps_moved cr table row values m
  simp only [Mutation.localBatch]
  cases hmade : (m.makeLocalOps cr table row values).1 with
  | error err => exact .quiet (hm.trans hmove) _
  | ok ops =>
    obtain ⟨hb, -⟩ := makeLocalOps_made (hm.identity hi) hmade
    refine ⟨hm.trans hmove, ⟨fun o ho => (hb.device o ho).trans hm.device, fun o ho => ?_,
      fun o ho => ?_, hb.increasing⟩, fun _ => Iff.rfl, rfl, rfl, rfl⟩
    · rw [← hm.deviceKey]; exact hb.signed o ho
    · obtain ⟨h1, h2⟩ := hb.later o ho
      exact ⟨Nat.lt_of_le_of_lt (hm.clock hi.bounded).2 h1, h2⟩

theorem map_result_error {α β : Type} {r : Reply α} {f : α → β} {err : JsError} :
    (r.map f).result = .error err ↔ r.result = .error err := by
  unfold Reply.map
  cases r.result with
  | error _ => simp [Except.map]
  | ok _ => simp [Except.map]

theorem Follows.applyRemoteOps (hi : Identity cr e) (remoteOps : List Json) :
    Follows cr e ((e.applyRemoteOps cr remoteOps).map fun _ => ())
      (Mutation.remoteBatch cr e remoteOps) := by
  have none_of : ∀ {r : Reply Unit} {b : Option (SyncEngine × List Op × Origin)}, b = none →
      NoBatch e r → Follows cr e r b := by
    rintro r _ rfl h
    exact h
  unfold SyncEngine.applyRemoteOps
  cases ha : e.checkBatch cr remoteOps with
  | error err => exact none_of (by unfold Mutation.remoteBatch; rw [ha]) ⟨rfl, fun _ _ => rfl⟩
  | ok ops =>
    have hm := e.receiveMax_moved ops
    have hadm := admitted_of_checkBatch hi ha
    unfold mergeAdmitted
    simp only
    cases hr : (e.receiveMax ops).1 with
    | error err =>
      exact none_of (by unfold Mutation.remoteBatch; simp only [ha, hr])
        ⟨rfl, fun _ _ => hm.storage⟩
    | ok _ =>
      have hb := receiveMax_bound hi.bounded hr
      simp only
      rw [hm.storage]
      by_cases hf : (freshOps e.storage ops).isEmpty = true
      · rw [if_pos hf]
        refine none_of (by unfold Mutation.remoteBatch; simp only [ha, hr, hf, ↓reduceIte]) ?_
        rcases (e.receiveMax ops).2.transact_cases
          (e.storage.applyBatch (e.receiveMax ops).2.clockBatch) with ht | ht
        · rw [ht]
          exact ⟨rfl, fun _ _ => hm.storage⟩
        · rw [ht]
          exact ⟨rfl, fun err h => by cases h⟩
      · rw [if_neg hf]
        have hbatch : Mutation.remoteBatch cr e remoteOps =
            some ((e.receiveMax ops).2, freshOps e.storage ops, .remote) := by
          unfold Mutation.remoteBatch
          simp only [ha, hr]
          rw [if_neg hf]
        rw [hbatch]
        obtain ⟨hn, hsub, -⟩ := freshOps_spec e.storage ops
        exact ⟨hm, ⟨hn, fun o ho => hadm o (hsub o ho), fun o ho => hb o (hsub o ho)⟩,
          fun err => by rw [map_result_error, map_result_error], rfl, rfl, rfl⟩

theorem follows (hi : Identity cr e) (m : Mutation) :
    Follows cr e (m.call.run cr e) (m.batch cr e) := by
  cases m with
  | insert table values =>
    unfold Mutation.call Call.run SyncEngine.insert Mutation.batch
    simp only
    cases ulid (max e.clock.millis (e.env.dateNow e.asked) % 2 ^ 48)
      ((List.range 10).map (e.env.random (e.asked + 1))) with
    | none => exact ⟨rfl, fun _ _ => rfl⟩
    | some row =>
      have h := Follows.localWrite hi (.asked e (e.asked + 2)) table row values.entries
      have e1 : ∀ r : Reply Unit, ((r.map fun _ => row).map fun _ => ()) = r := by
        rintro ⟨_, res, _, _⟩
        cases res <;> rfl
      rw [e1]
      exact h
  | update table row values => exact Follows.localWrite hi (.refl e) ..
  | delete table row => exact Follows.localWrite hi (.refl e) ..
  | applyRemoteOps ops => exact Follows.applyRemoteOps hi ops

/-- **When a rejected mutation leaves nothing behind.** -/
theorem Consistent.atomic_iff {H : Set Op} (hc : Consistent cr e H) (m : Mutation) :
    Atomic cr e m ↔ Undisturbed cr e m := by
  have hfol := follows hc.identity m
  unfold Atomic Undisturbed
  simp only
  generalize m.call.run cr e = r at hfol
  cases hbatch : m.batch cr e with
  | none =>
    rw [hbatch] at hfol
    refine ⟨fun _ _ _ _ h => (by cases h), fun _ => ⟨fun err h => ?_, fun ev _ h => ?_⟩⟩
    · rw [hfol.unchanged err h]
      exact ⟨rfl, rfl, rfl, rfl⟩
    · rw [hfol.event] at h
      cases h
  | some b =>
    obtain ⟨e', ops, origin⟩ := b
    rw [hbatch] at hfol
    obtain ⟨hm, hb, hres, heng, hev, hrec⟩ := hfol
    rw [heng, hev, hrec]
    have hok : ∀ {s : Except JsError Unit}, (∀ err, s ≠ .error err) → s = .ok () := by
      rintro (err | _) h
      · exact absurd rfl (h err)
      · rfl
    rcases e'.commit_cases ops origin with hcase | hcase
    · -- the store refuses: nothing is persisted
      rw [hcase]
      refine ⟨fun _ e'' ops' origin' h hst => ?_, fun _ => ⟨fun err _ => ?_, fun ev _ h => by cases h⟩⟩
      · obtain ⟨rfl, rfl, rfl⟩ : e' = e'' ∧ ops = ops' ∧ origin = origin' := by
          simpa using Option.some.inj h
        unfold SyncEngine.commit transact at hcase
        rw [if_neg (by rw [hst]; exact Bool.false_ne_true)] at hcase
        have := congrArg Reply.event hcase
        cases this
      · exact ⟨by rw [← hm.storage]; rfl, by rw [← hm.storage]; rfl, by rw [← hm.storage]; rfl,
          by rw [← hm.storage]; rfl⟩
    · have hresult := hres
      rw [hcase] at hresult ⊢
      simp only at hresult ⊢
      have hsubs := hm.subscribers
      constructor
      · rintro ⟨h1, -⟩ e'' ops' origin' h -
        obtain ⟨rfl, rfl, rfl⟩ : e' = e'' ∧ ops = ops' ∧ origin = origin' := by
          simpa using Option.some.inj h
        cases hn : (notify e'.subscribers (changeEvent ops origin)).2 with
        | none =>
          left
          rw [← hsubs]
          exact quiet_of_notify hn
        | some id =>
          -- the batch is persisted and the call rejects: only an empty batch does no harm
          right
          rw [hn] at hresult
          have hu := h1 _ ((hresult (.callback id)).2 rfl)
          have hnil : ops = [] := by
            cases hops : ops with
            | nil => rfl
            | cons o rest =>
              have hnew := hc.new_of_batch hb
              have hlog := log_commit hc.ledger.keyed hnew e'.clockState
              have ho : o ∈ (committed e.storage ops e'.clockState).log := by
                rw [hlog, hops]
                exact .inr List.mem_cons_self
              rw [MemoryAdapter.mem_log] at ho
              have hsame : (committed e.storage ops e'.clockState).opsById = e.storage.opsById := by
                rw [← hm.storage]
                exact hu.log.trans (by rw [hm.storage])
              rw [hsame] at ho
              have := hnew.notLogged o (by rw [hops]; exact List.mem_cons_self)
              rw [← Bool.not_eq_true, MemoryAdapter.hasOp_iff] at this
              exact absurd ⟨o, ho⟩ this
          exact ⟨hnil, hu.clock.symm⟩
      · intro h
        have hcond := h e' ops origin rfl (by
          cases hst : e'.env.storageFails e'.asked with
          | false => rfl
          | true =>
            unfold SyncEngine.commit transact at hcase
            rw [if_pos hst] at hcase
            have := congrArg Reply.event hcase
            cases this)
        rcases hcond with hq | ⟨rfl, hclock⟩
        · rw [← hsubs] at hq
          rw [notify_of_quiet hq] at hresult ⊢
          constructor
          · intro err herr
            have := (hresult err).1 herr
            cases this
          · intro ev _ _ _ s hs
            rw [← hsubs] at hs
            have hnd : (e'.subscribers.map Subscriber.id).Nodup := by
              rw [hsubs]; exact hc.identity.subscribers
            exact List.count_eq_one_of_mem hnd (List.mem_map_of_mem hs)
        · constructor
          · intro err _
            have e1 : committed e'.storage [] e'.clockState =
                { e'.storage with clock := some e'.clockState } :=
              e'.storage.applyBatch_nil e'.clockState
            rw [e1, hm.storage]
            exact ⟨rfl, rfl, rfl, hclock.symm⟩
          · intro ev _ h hne
            exact absurd rfl (by rw [← Option.some.inj h] at hne; exact hne)

end SyncEngine

/-- **Exactly when mutations are atomic.** In every state a replica reaches, a
mutation that rejects leaves nothing behind, and one that resolves has told
every subscriber once, if and only if no subscriber throws on the batch that
comes to be persisted (or the batch is empty and the clock saved already). -/
theorem Replica.mutation_atomic_iff (cr : Crypto) (opts : EngineOptions) (seed : Nat)
    (acts : List Replica.Action) (m : Mutation) :
    let e := (Runs.run (Replica.step cr) (Replica.start cr opts seed) acts).engine
    Atomic cr e m ↔ Undisturbed cr e m :=
  (Replica.consistent_run cr opts seed acts).atomic_iff m

/-- With a live tail whose transport is down, an update is persisted and rejects. -/
theorem Replica.update_not_atomic :
    ¬ Atomic plainCrypto (Runs.run (Replica.step plainCrypto)
      (Replica.start plainCrypto Sample.opts 1) [.call (.subscribe Sample.downLiveTail)]).engine
      (.update Sample.table Sample.row (Sample.record (.bool true))) := by
  intro h
  have hu := h.1 (.callback .liveTail) (by decide +kernel)
  exact absurd (congrArg (·.size) hu.log) (by decide +kernel)

end TangentFeed
