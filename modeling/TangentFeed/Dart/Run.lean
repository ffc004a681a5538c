import TangentFeed.Dart.Calls
import TangentFeed.Lib.Runs
import TangentFeed.Replica.Run
import TangentFeed.Replica.Sample

/-!
# The life of a Dart replica

A replica is a store that is opened, called and closed any number of times, where
any write to the store may be refused, that of a new key included. Its `history` is
every change event it committed and `applied` the operations in them. `Kept` is what
holds of the store at any time: it is a ledger of what was applied, and its clock is
past every operation of it.
-/

namespace TangentFeed.Dart

variable {cr : Crypto} {H : Set StoredOp}

/-! ## What is kept on disk -/

namespace MemoryAdapter

/-- The persisted clock in counter units. -/
def savedTicks (s : MemoryAdapter) : Nat := (s.clock.map Hlc.ticks).getD 0

/-- The invariant of the store. -/
structure Kept (cr : Crypto) (s : MemoryAdapter) (H : Set StoredOp) : Prop where
  ledger : s.Ledger H
  key : ∀ k, s.deviceKey = some k → ∃ seed, k = cr.keygen seed
  counter : ∀ c, s.clock = some c → c.counter ≤ maxCounter
  dominated : ∀ o ∈ H, o.ticks ≤ s.savedTicks

theorem Kept.empty : Kept cr empty ∅ where
  ledger := Ledger.empty
  key _ h := nomatch h
  counter _ h := nomatch h
  dominated _ h := absurd h (Set.notMem_empty _)

variable {s s' : MemoryAdapter}

/-- What is kept does not depend on the peers, nor on the log but through the ledger. -/
theorem Kept.of_ledger (h : Kept cr s H) (hl : s'.Ledger H) (h1 : s'.deviceKey = s.deviceKey)
    (h2 : s'.clock = s.clock) : Kept cr s' H where
  ledger := hl
  key := by rw [h1]; exact h.key
  counter := by rw [h2]; exact h.counter
  dominated o ho := by
    unfold savedTicks
    rw [h2]
    exact h.dominated o ho

theorem Kept.setKey (h : Kept cr s H) (seed : Nat) :
    Kept cr { s with deviceKey := some (cr.keygen seed) } H where
  ledger := h.ledger.congr rfl rfl rfl
  key _ hk := ⟨seed, (Option.some.inj hk).symm⟩
  counter := h.counter
  dominated := h.dominated

end MemoryAdapter

/-! ## An open engine -/

/-- The operations of an event. -/
def eventOps (ev : Option ChangeEvent) : Set StoredOp :=
  {o | ∃ event, ev = some event ∧ o ∈ event.ops}

theorem eventOps_none : eventOps none = ∅ :=
  Set.eq_empty_iff_forall_notMem.2 fun _ ⟨_, h, _⟩ => nomatch h

theorem eventOps_some (event : ChangeEvent) : eventOps (some event) = {o | o ∈ event.ops} := by
  ext o
  exact ⟨fun ⟨_, h, ho⟩ => (Option.some.inj h) ▸ ho, fun ho => ⟨event, rfl, ho⟩⟩

namespace SyncEngine

variable {e : SyncEngine} {d : Deed} {α : Type} {r : Reply α}

/-- The engine and the history of its store. -/
structure Consistent (cr : Crypto) (e : SyncEngine) (H : Set StoredOp) : Prop where
  identity : Identity cr e
  kept : e.storage.Kept cr H
  saved : e.storage.savedTicks ≤ e.clock.ticks

theorem Effect.identity (hi : Identity cr e) (h : Effect cr e d r) : Identity cr r.engine where
  bounded := h.bounded
  device := by rw [h.device, h.deviceKey, hi.device]
  generated := by rw [h.deviceKey]; exact hi.generated
  stored := by
    rw [h.deviceKey, ← hi.stored]
    have hs := h.store
    generalize r.event = ev at hs
    cases hs with
    | idle hs => rw [hs]
    | peerSaved hs => rw [hs]; rfl
    | @compacted opts hs =>
      obtain ⟨l, w, e1⟩ := @compactStorage_frame e.storage opts
      rw [hs, e1]
    | committed hs => rw [hs]; rfl
  directory hk := (h.learned hk).elim hi.directory fun e1 => e1
  own := by rw [h.device]; exact h.known hi.own

/-- Local operations are later than everything applied before them. -/
theorem Consistent.later_of_local (hc : Consistent cr e H) {e' : SyncEngine} {ops : List StoredOp}
    (hb : LocalBatch cr e e' ops) : ∀ o ∈ ops, ∀ p ∈ H, p.ticks < o.ticks := fun o ho p hp =>
  Nat.lt_of_le_of_lt (Nat.le_trans (hc.kept.dominated p hp) hc.saved) (hb.later o ho).1

/-- **A call keeps the engine consistent.** -/
theorem Consistent.effect (hc : Consistent cr e H) (h : Effect cr e d r) :
    Consistent cr r.engine (H ∪ eventOps r.event) := by
  have still : r.engine.storage.clock = e.storage.clock →
      r.engine.storage.savedTicks ≤ r.engine.clock.ticks := fun hs => by
    unfold MemoryAdapter.savedTicks
    rw [hs]
    exact Nat.le_trans hc.saved h.ticks
  have hid := h.identity hc.identity
  have hdev : r.engine.storage.deviceKey = e.storage.deviceKey := by
    rw [hid.stored, hc.identity.stored, h.deviceKey]
  generalize hev : r.event = ev
  have hs := h.store
  rw [hev] at hs
  cases hs with
  | idle hs =>
    rw [eventOps_none, Set.union_empty]
    exact ⟨hid, by rw [hs]; exact hc.kept, still (by rw [hs])⟩
  | peerSaved hs =>
    rw [eventOps_none, Set.union_empty]
    exact ⟨hid, hc.kept.of_ledger (by rw [hs]; exact hc.kept.ledger.congr rfl rfl rfl) hdev
      (by rw [hs]; rfl), still (by rw [hs]; rfl)⟩
  | @compacted opts hs =>
    have hclock : r.engine.storage.clock = e.storage.clock := by
      obtain ⟨l, w, e1⟩ := @compactStorage_frame e.storage opts
      rw [hs, e1]
    rw [eventOps_none, Set.union_empty]
    exact ⟨hid, hc.kept.of_ledger (by rw [hs]; exact hc.kept.ledger.compact opts) hdev hclock,
      still hclock⟩
  | @committed ops origin hs hne hb =>
    have hclock : r.engine.storage.clock = some r.engine.clock.state := by rw [hs]; rfl
    have hticks : r.engine.storage.savedTicks = r.engine.clock.ticks := by
      unfold MemoryAdapter.savedTicks
      rw [hclock]
      rfl
    rw [eventOps_some]
    refine ⟨hid, ⟨by rw [hs]; exact hc.kept.ledger.commit ops _, by rw [hdev]; exact hc.kept.key,
      fun c hcl => ?_, ?_⟩, Nat.le_of_eq hticks⟩
    · rw [hclock] at hcl
      rw [← Option.some.inj hcl]
      exact h.bounded
    · rw [hticks]
      rintro o (ho | ho)
      · exact Nat.le_trans (hc.kept.dominated o ho) (Nat.le_trans hc.saved h.ticks)
      · exact hb.bound o ((merged_pending _ _).fresh.subset ho)

/-! ## Opening -/

/-- An opened engine, or the store as it was left. -/
theorem openWith_spec (env : Env) {s : MemoryAdapter} {seed : Nat} (h : s.Kept cr H)
    (hs : s.deviceKey = some (cr.keygen seed)) (asked : Nat) :
    ((openWith cr env s (cr.keygen seed) asked).result = .ok () →
      Consistent cr (openWith cr env s (cr.keygen seed) asked).engine H) ∧
    (openWith cr env s (cr.keygen seed) asked).engine.storage.Kept cr H ∧
    (openWith cr env s (cr.keygen seed) asked).event = none := by
  have hstate : (made cr env s (cr.keygen seed) asked).clock.counter ≤ maxCounter := by
    change (s.clock.map Hlc.counter).getD 0 ≤ maxCounter
    cases hc : s.clock with
    | none => exact Nat.zero_le _
    | some c => exact h.counter c hc
  have identity : ∀ s' asked', s'.deviceKey = some (cr.keygen seed) →
      Identity cr { made cr env s (cr.keygen seed) asked with storage := s', asked := asked' } := by
    intro s' asked' hkey
    exact {
      bounded := hstate
      device := rfl
      generated := ⟨seed, rfl⟩
      stored := hkey
      directory := by
        intro d k hd
        change ((∅ : JsMap Bytes).insert _ _)[d]? = some k at hd
        rw [Std.ExtTreeMap.getElem?_insert_eq] at hd
        by_cases e1 : deviceIdFromPublicKey cr (cr.keygen seed).publicKey = d
        · rw [if_pos e1] at hd
          rw [← Option.some.inj hd, e1]
        · rw [if_neg e1, Std.ExtTreeMap.getElem?_empty] at hd
          cases hd
      own := by
        change ((∅ : JsMap Bytes).insert (deviceIdFromPublicKey cr (cr.keygen seed).publicKey)
          _)[deviceIdFromPublicKey cr (cr.keygen seed).publicKey]? ≠ none
        rw [Std.ExtTreeMap.getElem?_insert_self]
        exact Option.some_ne_none _ }
  have hticks : (made cr env s (cr.keygen seed) asked).clock.ticks = s.savedTicks := by
    unfold MemoryAdapter.savedTicks
    change ((s.clock.map Hlc.millis).getD 0) * 65536 + (s.clock.map Hlc.counter).getD 0 = _
    cases s.clock with
    | none => rfl
    | some c => rfl
  unfold openWith
  simp only
  split
  · exact ⟨fun e1 => (nomatch e1), h, rfl⟩
  split
  · exact ⟨fun _ => ⟨identity s asked hs, h, Nat.le_of_eq hticks.symm⟩, h, rfl⟩
  · rename_i hnone
    -- a clock that was never saved is saved
    have hsaved : s.savedTicks = 0 := by
      unfold MemoryAdapter.savedTicks
      rw [hnone]
      rfl
    have hk : (s.applyBatch ⟨[], .empty, s.frontier,
        some (made cr env s (cr.keygen seed) asked).clock.state⟩).Kept cr H := {
      ledger := h.ledger.congr rfl rfl rfl
      key := h.key
      counter := fun c hc => by
        rw [← Option.some.inj hc]
        exact hstate
      dominated := fun o ho => Nat.le_trans (h.dominated o ho) (by rw [hsaved]; exact Nat.zero_le _) }
    rcases (made cr env s (cr.keygen seed) asked).transact_cases (s.applyBatch ⟨[], .empty,
      s.frontier, some (made cr env s (cr.keygen seed) asked).clock.state⟩) with ht | ht
    · rw [ht]
      exact ⟨fun e1 => (nomatch e1), h, rfl⟩
    · rw [ht]
      exact ⟨fun _ => ⟨identity _ _ hs, hk, Nat.le_refl _⟩, hk, rfl⟩

theorem openOn_spec (env : Env) {s : MemoryAdapter} (h : s.Kept cr H) (seed : Nat) :
    ((openOn cr env s seed).result = .ok () → Consistent cr (openOn cr env s seed).engine H) ∧
    (openOn cr env s seed).engine.storage.Kept cr H := by
  unfold openOn
  split
  · rename_i key hkey
    obtain ⟨n, rfl⟩ := h.key key hkey
    obtain ⟨h1, h2, -⟩ := openWith_spec env h hkey 0
    exact ⟨h1, h2⟩
  · simp only
    rcases (made cr env s (cr.keygen seed) 0).transact_cases
      { s with deviceKey := some (cr.keygen seed) } with ht | ht
    · rw [ht]
      exact ⟨fun e1 => (nomatch e1), h⟩
    · rw [ht]
      obtain ⟨h1, h2, -⟩ := openWith_spec env (h.setKey seed) rfl
        ((made cr env s (cr.keygen seed) 0).asked + 1)
      exact ⟨h1, h2⟩

end SyncEngine

/-! ## The replica -/

/-- The store alone, or an engine over it. -/
inductive Phase where
  | closed (storage : MemoryAdapter)
  | running (engine : SyncEngine)

def Phase.storage : Phase → MemoryAdapter
  | closed s => s
  | running e => e.storage

structure Replica where
  phase : Phase
  history : List ChangeEvent

namespace Replica

inductive Action where
  /-- The process starts, on whatever store there is. -/
  | «open» (env : Env) (seed : Nat)
  | call (c : Call)
  /-- The process ends; nothing but the store is left. -/
  | close

def start : Replica := ⟨.closed .empty, []⟩

/-- A call needs a running engine. -/
def step (cr : Crypto) (r : Replica) : Action → Replica
  | .open env seed =>
    let reply := SyncEngine.openOn cr env r.phase.storage seed
    match reply.result with
    | .ok () => { r with phase := .running reply.engine }
    | .error _ => { r with phase := .closed reply.engine.storage }
  | .call c =>
    match r.phase with
    | .running e => ⟨.running (c.run cr e).engine, r.history ++ (c.run cr e).event.toList⟩
    | .closed _ => r
  | .close => { r with phase := .closed r.phase.storage }

/-- Every operation ever applied. -/
def applied (r : Replica) : Set StoredOp := {o | ∃ ev ∈ r.history, o ∈ ev.ops}

/-- The invariant of a replica. -/
def Kept (cr : Crypto) (r : Replica) : Prop :=
  match r.phase with
  | .closed s => s.Kept cr r.applied
  | .running e => e.Consistent cr r.applied

theorem Kept.storage {r : Replica} (h : r.Kept cr) : r.phase.storage.Kept cr r.applied := by
  unfold Kept at h
  cases hp : r.phase with
  | closed s => rw [hp] at h; exact h
  | running e => rw [hp] at h; exact h.kept

theorem applied_append (h : List ChangeEvent) (ev : Option ChangeEvent) (p p' : Phase) :
    applied ⟨p', h ++ ev.toList⟩ = applied ⟨p, h⟩ ∪ eventOps ev := by
  ext o
  constructor
  · rintro ⟨event, hm, ho⟩
    rcases List.mem_append.1 hm with hm | hm
    · exact .inl ⟨event, hm, ho⟩
    · exact .inr ⟨event, Option.mem_toList.1 hm, ho⟩
  · rintro (⟨event, hm, ho⟩ | ⟨event, hm, ho⟩)
    · exact ⟨event, List.mem_append_left _ hm, ho⟩
    · exact ⟨event, List.mem_append_right _ (Option.mem_toList.2 hm), ho⟩

theorem Kept.step {r : Replica} (h : r.Kept cr) (a : Action) : (r.step cr a).Kept cr := by
  cases a with
  | «open» env seed =>
    obtain ⟨h1, h2⟩ := SyncEngine.openOn_spec env h.storage seed
    unfold Replica.step
    simp only
    cases hr : (SyncEngine.openOn cr env r.phase.storage seed).result with
    | ok _ => exact h1 hr
    | error _ => exact h2
  | call c =>
    unfold Replica.step
    cases hp : r.phase with
    | closed s => exact h
    | running e =>
      unfold Kept at h
      rw [hp] at h
      change (c.run cr e).engine.Consistent cr _
      rw [applied_append (p := r.phase)]
      exact SyncEngine.Consistent.effect h (c.run_effect h.identity)
  | close => exact h.storage

theorem kept_start : start.Kept cr := by
  have e : start.applied = ∅ := Set.eq_empty_iff_forall_notMem.2 fun o ⟨_, h, _⟩ => nomatch h
  unfold Kept
  rw [e]
  exact MemoryAdapter.Kept.empty

/-- A running engine takes the call. -/
theorem phase_call {acts : List Action} {e : SyncEngine}
    (h : (Runs.run (step cr) start acts).phase = .running e) (c : Call) :
    (Runs.run (step cr) start (acts ++ [.call c])).phase = .running (c.run cr e).engine := by
  rw [Runs.run_append, Runs.run_cons, Runs.run_nil]
  generalize Runs.run (step cr) start acts = r at h
  obtain ⟨p, history⟩ := r
  obtain rfl : p = .running e := h
  rfl

/-- **Every replica reached is kept.** -/
theorem kept_run (cr : Crypto) (acts : List Action) : (Runs.run (step cr) start acts).Kept cr :=
  Runs.run_invariant (fun _ a h => h.step a) kept_start acts

end Replica

/-! ## A sample -/

namespace Sample

/-- A replica that has just been opened for the first time. -/
def acts : List Replica.Action := [.open TangentFeed.Sample.env 1]

def engine : SyncEngine := (SyncEngine.openOn plainCrypto TangentFeed.Sample.env .empty 1).engine

theorem running : (Runs.run (Replica.step plainCrypto) Replica.start acts).phase =
    .running engine := rfl

/-- One column. -/
def values (v : Doc AnyNum) : Values := ⟨[(js "title", v)], List.nodup_singleton _⟩

/-- An update of the sample row. -/
def update (v : Doc AnyNum) : Call :=
  .update TangentFeed.Sample.table TangentFeed.Sample.row (values v)

/-- Two updates of one cell. -/
def updates : List Replica.Action :=
  acts ++ [.call (update (.bool true))] ++ [.call (update (.bool false))]

def updated : SyncEngine :=
  ((update (.bool false)).run plainCrypto
    ((update (.bool true)).run plainCrypto engine).engine).engine

theorem running_updated : (Runs.run (Replica.step plainCrypto) Replica.start updates).phase =
    .running updated := Replica.phase_call (Replica.phase_call running _) _

end Sample

end TangentFeed.Dart
