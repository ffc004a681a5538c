import TangentFeed.Core.Storage
import TangentFeed.Lib.LostUpdate

/-!
# What the storage adapters share

The records of the `meta` table or store, the writes a call is made of and
which of them fail, and how each adapter records the frontier of a peer: the
in-memory one at once, the others by reading all frontiers, waiting, and
writing them back.
-/

namespace TangentFeed

open PromiseChain

/-- The records of `meta`, by their four keys. -/
structure MetaRows where
  frontier : Option Frontier
  clock : Option ClockState
  deviceKey : Option DeviceKey
  peers : Option (JsMap Frontier)

def MetaRows.empty : MetaRows := ⟨none, none, none, none⟩

/-- What one call hands an adapter to write. -/
inductive Write where
  | batch (b : BatchWrite)
  | compaction (c : CompactionWrite)

/-- Which single writes fail, by their number in the call: at once, or only
when the request is carried out. -/
structure Faults where
  throws : Nat → Bool
  fails : Nat → Bool

/-- Steps in order, up to the first that throws. -/
def attempt {σ : Type} (throws : Nat → Bool) : List (σ → σ) → Nat → σ → Option σ
  | [], _, s => some s
  | f :: rest, n, s => if throws n then none else attempt throws rest (n + 1) (f s)

theorem attempt_eq_some {σ : Type} {throws : Nat → Bool} {steps : List (σ → σ)} {n : Nat} {s t : σ}
    (h : attempt throws steps n s = some t) : t = steps.foldl (fun s f => f s) s := by
  induction steps generalizing n s with
  | nil => exact (Option.some.inj h).symm
  | cons f rest ih =>
    unfold attempt at h
    split at h
    · cases h
    · exact ih h

theorem attempt_eq_none_iff {σ : Type} (throws : Nat → Bool) (steps : List (σ → σ)) (n : Nat)
    (s : σ) : attempt throws steps n s = none ↔ ∃ i < steps.length, throws (n + i) = true := by
  induction steps generalizing n s with
  | nil => exact ⟨fun h => (nomatch h), fun ⟨i, hi, _⟩ => absurd hi (Nat.not_lt_zero i)⟩
  | cons f rest ih =>
    unfold attempt
    by_cases h : throws n = true
    · rw [if_pos h]
      exact ⟨fun _ => ⟨0, Nat.succ_pos _, h⟩, fun _ => rfl⟩
    · rw [if_neg h, ih]
      constructor
      · rintro ⟨i, hi, ht⟩
        exact ⟨i + 1, Nat.succ_lt_succ hi, by rwa [Nat.add_right_comm] at ht⟩
      · rintro ⟨i, hi, ht⟩
        cases i with
        | zero => exact absurd ht h
        | succ i => exact ⟨i, Nat.lt_of_succ_lt_succ hi, by rwa [Nat.add_right_comm]⟩

/-- Nothing throws among the first `N`, or one is the first that does. -/
theorem forall_or_exists_first (throws : Nat → Bool) (N : Nat) : (∀ n < N, throws n = false) ∨
    ∃ n < N, throws n = true ∧ ∀ m < n, throws m = false := by
  by_cases h : ∃ n, n < N ∧ throws n = true
  · obtain ⟨hlt, ht⟩ := Nat.find_spec h
    refine .inr ⟨Nat.find h, hlt, ht, fun m hm => Bool.eq_false_iff.2 fun hmt => ?_⟩
    exact Nat.find_min h hm ⟨hm.trans hlt, hmt⟩
  · push Not at h
    exact .inl fun n hn => Bool.eq_false_iff.2 (h n hn)

/-! ## The in-memory adapter -/

namespace MemoryAdapter

/-- The copies that a write is made on. -/
structure Copies where
  newOps : JsMap Op
  newTables : NestedMap JsString JsString JsString Op

def copies (s : MemoryAdapter) : Copies := ⟨s.opsById, s.tables⟩

/-- `newOps.set(op.id, op)`. -/
def Copies.putOp (op : Op) (c : Copies) : Copies :=
  { c with newOps := c.newOps.insert op.id op }

/-- The body of the loop over `batch.winners`. -/
def Copies.putCell (key : JsString) (op : Op) (c : Copies) : Copies :=
  { c with newTables := c.newTables.set (splitKey key).1 (splitKey key).2.1 (splitKey key).2.2 op }

def Copies.deleteOp (id : JsString) (c : Copies) : Copies := { c with newOps := c.newOps.erase id }

/-- The body of the loop over `write.cellKeys`. -/
def Copies.deleteCell (key : JsString) (c : Copies) : Copies :=
  { c with newTables :=
    c.newTables.remove (splitKey key).1 (splitKey key).2.1 (splitKey key).2.2 }

/-- No await between the read and the write. -/
def setPeerFrontierBody (peer : JsString) (frontier : Frontier) : Body MemoryAdapter Unit :=
  atOnce fun s => s.setPeerFrontier peer frontier

/-- Build everything, then swap; whether the call resolves, and the store after. -/
def write (throws : Nat → Bool) (s : MemoryAdapter) : Write → Bool × MemoryAdapter
  | .batch b =>
    match attempt throws (b.ops.map Copies.putOp ++
        b.winners.toList.map fun (key, op) => Copies.putCell key op) 0 s.copies with
    | none => (false, s)
    | some c => (true, { s with
        opsById := c.newOps
        tables := c.newTables
        frontier := b.frontier
        clock := some b.clock })
  | .compaction w =>
    match attempt throws (w.opIds.map Copies.deleteOp ++ w.cellKeys.map Copies.deleteCell) 0
        s.copies with
    | none => (false, s)
    | some c => (true, { s with opsById := c.newOps, tables := c.newTables })

end MemoryAdapter

end TangentFeed
