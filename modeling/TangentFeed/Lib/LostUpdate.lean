import Mathlib.Data.List.Basic
import TangentFeed.Lib.PromiseChain

/-!
# Updates that read, wait and write

Bodies that no lock orders, each reading a value, waiting, and writing what it
made of the value it read. A write throws away what was written since its read:
`run_readModifyWrite` says that the value at the end is the one the updates in
`lineage` leave, the last write and those it builds on.
-/

namespace PromiseChain

variable {σ ρ α : Type}

/-- Bodies that go on in any order. -/
structure Pool (σ ρ : Type) where
  state : σ
  bodies : List (Body σ ρ)

namespace Pool

def step (p : Pool σ ρ) (k : Nat) : Pool σ ρ :=
  match p.bodies[k]? with
  | none => p
  | some b => ⟨(b.stretch p.state).1, p.bodies.set k (b.stretch p.state).2⟩

def allSettled (p : Pool σ ρ) : Bool :=
  p.bodies.all fun
    | .settled _ => true
    | .waiting _ _ => false

end Pool

/-- A body of one stretch. -/
def atOnce (f : σ → σ) : Body σ Unit := .waiting f fun _ => .settled ()

/-- A body that reads, waits and writes. -/
def readModifyWrite (get : σ → α) (put : α → σ → σ) (f : α → α) : Body σ Unit :=
  .waiting id fun s => .waiting (put (f (get s))) fun _ => .settled ()

/-- The last write of a schedule and the writes it builds on, latest first; a
write builds on the last one before its body's read. The schedule is latest first. -/
def lineage (n : Nat) : List Nat → List Nat
  | [] => []
  | k :: past =>
    if k < n ∧ past.count k = 1 then k :: lineage n (past.drop (past.idxOf k + 1))
    else lineage n past
termination_by past => past.length
decreasing_by
  · rw [List.length_cons, List.length_drop]
    omega
  · exact Nat.lt_succ_self _

theorem lineage_cons {n k : Nat} {past : List Nat} : lineage n (k :: past) =
    if k < n ∧ past.count k = 1 then k :: lineage n (past.drop (past.idxOf k + 1))
    else lineage n past := by
  rw [lineage]

/-- The value that the updates of a lineage leave. -/
def replay (fs : List (α → α)) (v : α) (past : List Nat) : α :=
  (lineage fs.length past).foldr (fun k v => (fs[k]?.getD id) v) v

/-- Where a body is after `past`. -/
structure Replayed (get : σ → α) (put : α → σ → σ) (fs : List (α → α)) (v : α) (past : List Nat)
    (p : Pool σ Unit) : Prop where
  length : p.bodies.length = fs.length
  value : get p.state = replay fs v past
  unread : ∀ {k f}, fs[k]? = some f → past.count k = 0 →
    p.bodies[k]? = some (readModifyWrite get put f)
  unwritten : ∀ {k f}, fs[k]? = some f → past.count k = 1 → p.bodies[k]? = some
    (.waiting (put (f (replay fs v (past.drop (past.idxOf k + 1))))) fun _ => .settled ())
  written : ∀ {k f}, fs[k]? = some f → 2 ≤ past.count k → p.bodies[k]? = some (.settled ())

variable {get : σ → α} {put : α → σ → σ} {fs : List (α → α)} {v : α} {past : List Nat}
  {p : Pool σ Unit}

theorem Replayed.start {s : σ} : Replayed get put fs (get s) []
    ⟨s, fs.map (readModifyWrite get put)⟩ where
  length := List.length_map ..
  value := by
    unfold replay
    rw [lineage]
    rfl
  unread h _ := by
    rw [List.getElem?_map, h]
    rfl
  unwritten _ h := by cases h
  written _ h := by cases h

/-- A body that goes on leaves the others where they are. -/
theorem Replayed.of_set (hp : Replayed get put fs v past p) {k : Nat} {f : α → α} {s : σ}
    {b : Body σ Unit} (hk : fs[k]? = some f)
    (value : get s = replay fs v (k :: past))
    (unread : past.count k = 0 → b =
      .waiting (put (f (replay fs v past))) fun _ => .settled ())
    (unwritten : 1 ≤ past.count k → b = .settled ()) :
    Replayed get put fs v (k :: past) ⟨s, p.bodies.set k b⟩ := by
  have hlt : k < p.bodies.length := by
    rw [hp.length]
    exact getElem?_lt hk
  constructor
  · rw [List.length_set]
    exact hp.length
  · exact value
  · intro j g hj hcount
    have hne : k ≠ j := by
      rintro rfl
      rw [List.count_cons_self] at hcount
      omega
    rw [List.count_cons_of_ne hne] at hcount
    rw [List.getElem?_set_ne hne]
    exact hp.unread hj hcount
  · intro j g hj hcount
    by_cases hne : k = j
    · subst hne
      rw [hk] at hj
      obtain rfl := Option.some.inj hj
      rw [List.count_cons_self] at hcount
      rw [List.getElem?_set_self hlt, unread (by omega), List.idxOf_cons_self]
      rfl
    · rw [List.count_cons_of_ne hne] at hcount
      rw [List.getElem?_set_ne hne, List.idxOf_cons_ne _ hne]
      exact hp.unwritten hj hcount
  · intro j g hj hcount
    by_cases hne : k = j
    · subst hne
      rw [List.count_cons_self] at hcount
      rw [List.getElem?_set_self hlt, unwritten (by omega)]
    · rw [List.count_cons_of_ne hne] at hcount
      rw [List.getElem?_set_ne hne]
      exact hp.written hj hcount

theorem Replayed.step (hget : ∀ a s, get (put a s) = a) (hp : Replayed get put fs v past p)
    (k : Nat) : Replayed get put fs v (k :: past) (p.step k) := by
  by_cases hlt : k < fs.length
  · obtain ⟨f, hk⟩ : ∃ f, fs[k]? = some f := ⟨_, List.getElem?_eq_getElem hlt⟩
    have skip : past.count k ≠ 1 → replay fs v (k :: past) = replay fs v past := by
      intro h
      unfold replay
      rw [lineage_cons, if_neg fun h' => h h'.2]
    unfold Pool.step
    rcases Nat.lt_trichotomy (past.count k) 1 with h | h | h
    · rw [hp.unread hk (by omega)]
      refine hp.of_set hk ?_ (fun _ => ?_) fun h' => absurd h (by omega)
      · rw [skip (by omega)]
        exact hp.value
      · rw [← hp.value]
        rfl
    · rw [hp.unwritten hk h]
      refine hp.of_set hk ?_ (fun h' => absurd h (by omega)) fun _ => rfl
      have hrep : replay fs v (k :: past) =
          f (replay fs v (past.drop (past.idxOf k + 1))) := by
        unfold replay
        rw [lineage_cons, if_pos ⟨hlt, h⟩, List.foldr_cons, hk]
        rfl
      rw [hrep]
      exact hget _ _
    · rw [hp.written hk (by omega)]
      refine hp.of_set hk ?_ (fun h' => absurd h (by omega)) fun _ => rfl
      rw [skip (by omega)]
      exact hp.value
  · have hnone : p.bodies[k]? = none := by
      rw [List.getElem?_eq_none_iff, hp.length]
      omega
    have hstep : p.step k = p := by
      unfold Pool.step
      rw [hnone]
    have other : ∀ {j f}, fs[j]? = some f → k ≠ j := by
      rintro j f hj rfl
      exact hlt (getElem?_lt hj)
    rw [hstep]
    constructor
    · exact hp.length
    · rw [hp.value]
      unfold replay
      rw [lineage_cons, if_neg fun h => hlt h.1]
    · intro j f hj h
      rw [List.count_cons_of_ne (other hj)] at h
      exact hp.unread hj h
    · intro j f hj h
      rw [List.count_cons_of_ne (other hj)] at h
      rw [List.idxOf_cons_ne _ (other hj)]
      exact hp.unwritten hj h
    · intro j f hj h
      rw [List.count_cons_of_ne (other hj)] at h
      exact hp.written hj h

/-- **What the updates leave** is what those in the lineage do. -/
theorem run_readModifyWrite (hget : ∀ a s, get (put a s) = a) (s : σ) (fs : List (α → α))
    (ks : List Nat) :
    get (Runs.run Pool.step ⟨s, fs.map (readModifyWrite get put)⟩ ks).state =
      replay fs (get s) ks.reverse := by
  have key : ∀ (ks past : List Nat) (p : Pool σ Unit), Replayed get put fs (get s) past p →
      Replayed get put fs (get s) (ks.reverse ++ past) (Runs.run Pool.step p ks) := by
    intro ks
    induction ks with
    | nil => exact fun past p hp => hp
    | cons k ks ih =>
      intro past p hp
      rw [Runs.run_cons, List.reverse_cons, List.append_assoc]
      exact ih _ _ (hp.step hget k)
  have h := key ks [] _ Replayed.start
  rw [List.append_nil] at h
  exact h.value

end PromiseChain
