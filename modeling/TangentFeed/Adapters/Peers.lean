import TangentFeed.Adapters.Idb
import TangentFeed.Adapters.Sqlite

/-!
# Recorded peer frontiers

Overlapping `setPeerFrontier` calls for distinct peers. The in-memory adapter
records each at once. The others read all frontiers, wait and write them back,
so that a write throws away what was recorded since its read:
`none_lost_iff` says exactly when nothing is lost.
-/

namespace TangentFeed

open PromiseChain

/-- The SQLite adapter in Dart, as far as peers go: its `peers` row of `meta`. -/
structure DartSqlite where
  peers : Option (JsMap Frontier)

namespace DartSqlite

def getPeerFrontiers (db : DartSqlite) : JsMap Frontier := db.peers.getD ∅

/-- `current[peer] = frontier`, written after the query is answered. -/
def setPeerFrontier (peer : JsString) (frontier : Frontier) : Body DartSqlite Unit :=
  readModifyWrite getPeerFrontiers (fun peers db => { db with peers := some peers })
    fun current => current.insert peer frontier

end DartSqlite

/-- Calls for distinct peers. -/
structure PeerCalls where
  calls : List (JsString × Frontier)
  nodup : (calls.map Prod.fst).Nodup

namespace PeerCalls

variable {σ : Type} {c : PeerCalls} {ks : List Nat}

/-- The calls after the continuations `ks`. -/
def after (set : JsString → Frontier → Body σ Unit) (s : σ) (c : PeerCalls) (ks : List Nat) :
    Pool σ Unit :=
  Runs.run Pool.step ⟨s, c.calls.map fun x => set x.1 x.2⟩ ks

/-- Every frontier is there, and every other peer as it was. -/
def NoneLost (recorded recorded' : JsMap Frontier) (c : PeerCalls) : Prop :=
  (∀ x ∈ c.calls, recorded'[x.1]? = some x.2) ∧
    ∀ peer, peer ∉ c.calls.map Prod.fst → recorded'[peer]? = recorded[peer]?

/-- Each call is one that the last write builds on, or what it records was
recorded already. -/
def BuiltOn (recorded : JsMap Frontier) (c : PeerCalls) (ks : List Nat) : Prop :=
  ∀ (k : Nat) (x : JsString × Frontier), c.calls[k]? = some x →
    k ∈ lineage c.calls.length ks.reverse ∨ recorded[x.1]? = some x.2

/-- One call a peer. -/
theorem index_inj (c : PeerCalls) {j k : Nat} {x y : JsString × Frontier}
    (hj : c.calls[j]? = some x) (hk : c.calls[k]? = some y) (h : x.1 = y.1) : j = k := by
  have hj' : (c.calls.map Prod.fst)[j]? = some x.1 := by
    rw [List.getElem?_map, hj]
    rfl
  have hk' : (c.calls.map Prod.fst)[k]? = some x.1 := by
    rw [List.getElem?_map, hk, h]
    rfl
  exact (List.getElem?_inj (getElem?_lt hj') c.nodup).1 (hj'.trans hk'.symm)

/-! ## Read, wait, write -/

/-- What the calls do to the frontiers. -/
def updates (c : PeerCalls) : List (JsMap Frontier → JsMap Frontier) :=
  c.calls.map fun x current => current.insert x.1 x.2

/-- The calls that one call's peer does not come from leave it alone. -/
theorem getElem?_replay (recorded : JsMap Frontier) (ls : List Nat) {k : Nat}
    {x : JsString × Frontier} (hk : c.calls[k]? = some x) :
    (ls.foldr (fun k v => (c.updates[k]?.getD id) v) recorded)[x.1]? =
      if k ∈ ls then some x.2 else recorded[x.1]? := by
  induction ls with
  | nil => rfl
  | cons j ls ih =>
    rw [List.foldr_cons]
    cases hj : c.calls[j]? with
    | none =>
      have hu : c.updates[j]? = none := by
        unfold updates
        rw [List.getElem?_map, hj]
        rfl
      have hne : k ≠ j := by
        rintro rfl
        rw [hj] at hk
        cases hk
      rw [hu, Option.getD_none, id, ih]
      simp only [List.mem_cons, hne, false_or]
    | some y =>
      have hu : c.updates[j]? = some fun current => current.insert y.1 y.2 := by
        unfold updates
        rw [List.getElem?_map, hj]
        rfl
      rw [hu, Option.getD_some, Std.ExtTreeMap.getElem?_insert_eq]
      by_cases hkj : k = j
      · subst hkj
        rw [hj] at hk
        obtain rfl := Option.some.inj hk
        rw [if_pos rfl, if_pos List.mem_cons_self]
      · have hne : ¬ y.1 = x.1 := fun e => hkj (c.index_inj hk hj e.symm)
        rw [if_neg hne, ih]
        simp only [List.mem_cons, hkj, false_or]

theorem getElem?_replay_other (recorded : JsMap Frontier) (ls : List Nat) {peer : JsString}
    (h : peer ∉ c.calls.map Prod.fst) :
    (ls.foldr (fun k v => (c.updates[k]?.getD id) v) recorded)[peer]? = recorded[peer]? := by
  induction ls with
  | nil => rfl
  | cons j ls ih =>
    rw [List.foldr_cons]
    unfold updates
    rw [List.getElem?_map]
    cases hj : c.calls[j]? with
    | none => exact ih
    | some y =>
      have hne : ¬ y.1 = peer := by
        rintro rfl
        exact h (List.mem_map_of_mem (List.mem_of_getElem? hj))
      change (Std.ExtTreeMap.insert _ y.1 y.2)[peer]? = _
      rw [Std.ExtTreeMap.getElem?_insert_eq, if_neg hne]
      exact ih

/-- **When reading, waiting and writing loses nothing.** -/
theorem noneLost_readModifyWrite {get : σ → JsMap Frontier} {put : JsMap Frontier → σ → σ}
    (hget : ∀ a s, get (put a s) = a) (s : σ) (c : PeerCalls) (ks : List Nat) :
    NoneLost (get s) (get (after (fun peer frontier => readModifyWrite get put
      fun current => current.insert peer frontier) s c ks).state) c ↔ BuiltOn (get s) c ks := by
  have hrun : get (after (fun peer frontier => readModifyWrite get put
      fun current => current.insert peer frontier) s c ks).state =
        replay c.updates (get s) ks.reverse := by
    rw [← run_readModifyWrite hget]
    unfold after updates
    rw [List.map_map]
    rfl
  have hlen : c.updates.length = c.calls.length := List.length_map ..
  rw [hrun]
  unfold replay
  rw [hlen]
  constructor
  · rintro ⟨h, -⟩ k x hk
    have hx := h x (List.mem_of_getElem? hk)
    rw [getElem?_replay _ _ hk] at hx
    by_cases hm : k ∈ lineage c.calls.length ks.reverse
    · exact .inl hm
    · rw [if_neg hm] at hx
      exact .inr hx
  · intro h
    refine ⟨fun x hx => ?_, fun peer hp => getElem?_replay_other _ _ hp⟩
    obtain ⟨k, hk⟩ := List.mem_iff_getElem?.1 hx
    rw [getElem?_replay _ _ hk]
    rcases h k x hk with hm | hr
    · rw [if_pos hm]
    · rw [hr, ite_self]

/-! ## At once -/

/-- Where the calls of the in-memory adapter are. -/
structure Recorded (recorded : JsMap Frontier) (c : PeerCalls) (p : Pool MemoryAdapter Unit) :
    Prop where
  length : p.bodies.length = c.calls.length
  call : ∀ {k : Nat} {x : JsString × Frontier}, c.calls[k]? = some x →
    p.bodies[k]? = some (MemoryAdapter.setPeerFrontierBody x.1 x.2) ∨
      p.bodies[k]? = some (.settled ()) ∧ p.state.peerFrontiers[x.1]? = some x.2
  other : ∀ peer, peer ∉ c.calls.map Prod.fst →
    p.state.peerFrontiers[peer]? = recorded[peer]?

variable {recorded : JsMap Frontier} {p : Pool MemoryAdapter Unit}

theorem Recorded.step (hp : Recorded recorded c p) (k : Nat) : Recorded recorded c (p.step k) := by
  cases hb : p.bodies[k]? with
  | none =>
    have hstep : p.step k = p := by
      unfold Pool.step
      rw [hb]
    rw [hstep]
    exact hp
  | some b =>
    have hlt : k < c.calls.length := by
      rw [← hp.length]
      exact getElem?_lt hb
    obtain ⟨x, hk⟩ : ∃ x, c.calls[k]? = some x := ⟨_, List.getElem?_eq_getElem hlt⟩
    have hset : ∀ b', (p.bodies.set k b')[k]? = some b' :=
      fun b' => List.getElem?_set_self (getElem?_lt hb)
    have hkeep : ∀ {j} b', k ≠ j → (p.bodies.set k b')[j]? = p.bodies[j]? :=
      fun b' hne => List.getElem?_set_ne hne
    rcases hp.call hk with hbody | ⟨hbody, hrec⟩
    · have hstep : p.step k =
          ⟨p.state.setPeerFrontier x.1 x.2, p.bodies.set k (.settled ())⟩ := by
        unfold Pool.step
        rw [hbody]
        rfl
      rw [hstep]
      constructor
      · rw [List.length_set]
        exact hp.length
      · intro j y hj
        by_cases hkj : k = j
        · subst hkj
          rw [hk] at hj
          obtain rfl := Option.some.inj hj
          refine .inr ⟨hset _, ?_⟩
          change (p.state.peerFrontiers.insert x.1 x.2)[x.1]? = _
          rw [Std.ExtTreeMap.getElem?_insert_eq, if_pos rfl]
        · rw [hkeep _ hkj]
          refine (hp.call hj).imp_right fun ⟨h1, h2⟩ => ⟨h1, ?_⟩
          have hne : ¬ x.1 = y.1 := fun e => hkj (c.index_inj hk hj e)
          change (p.state.peerFrontiers.insert x.1 x.2)[y.1]? = _
          rw [Std.ExtTreeMap.getElem?_insert_eq, if_neg hne]
          exact h2
      · intro peer hpeer
        have hne : ¬ x.1 = peer := by
          rintro rfl
          exact hpeer (List.mem_map_of_mem (List.mem_of_getElem? hk))
        change (p.state.peerFrontiers.insert x.1 x.2)[peer]? = _
        rw [Std.ExtTreeMap.getElem?_insert_eq, if_neg hne]
        exact hp.other peer hpeer
    · have hstep : p.step k = p := by
        unfold Pool.step
        rw [hbody]
        change (⟨p.state, p.bodies.set k (.settled ())⟩ : Pool MemoryAdapter Unit) = p
        obtain ⟨hk', hbk⟩ := List.getElem?_eq_some_iff.1 hbody
        rw [← hbk, List.set_getElem_self]
      rw [hstep]
      exact hp

/-- **The in-memory adapter loses nothing.** -/
theorem noneLost_memory (s : MemoryAdapter) (c : PeerCalls) (ks : List Nat)
    (h : (after MemoryAdapter.setPeerFrontierBody s c ks).allSettled = true) :
    NoneLost s.peerFrontiers (after MemoryAdapter.setPeerFrontierBody s c ks).state.peerFrontiers
      c := by
  have hstart : Recorded s.peerFrontiers c
      ⟨s, c.calls.map fun x => MemoryAdapter.setPeerFrontierBody x.1 x.2⟩ := by
    constructor
    · exact List.length_map ..
    · intro k x hk
      left
      rw [List.getElem?_map, hk]
      rfl
    · exact fun _ _ => rfl
  have hrun : Recorded s.peerFrontiers c (after MemoryAdapter.setPeerFrontierBody s c ks) :=
    Runs.run_invariant (fun _ k hp => hp.step k) hstart ks
  refine ⟨fun x hx => ?_, hrun.other⟩
  obtain ⟨k, hk⟩ := List.mem_iff_getElem?.1 hx
  rcases hrun.call hk with hb | ⟨-, hb⟩
  · have hset := List.all_eq_true.1 h _ (List.mem_of_getElem? hb)
    cases hset
  · exact hb

end PeerCalls

open PeerCalls

/-- **When no recorded frontier is lost.** By the in-memory adapter never one.
By the others none exactly when the last write builds, directly or through the
writes it builds on, on every call that records something new. -/
theorem peer_frontiers_kept_iff (c : PeerCalls) (ks : List Nat) :
    (∀ s : MemoryAdapter,
      (after MemoryAdapter.setPeerFrontierBody s c ks).allSettled = true →
      NoneLost s.peerFrontiers
        (after MemoryAdapter.setPeerFrontierBody s c ks).state.peerFrontiers c) ∧
    (∀ db : SqliteDb, NoneLost db.getPeerFrontiers
        (after SqliteDb.setPeerFrontier db c ks).state.getPeerFrontiers c ↔
      BuiltOn db.getPeerFrontiers c ks) ∧
    (∀ s : IdbStores, NoneLost s.getPeerFrontiers
        (after IdbStores.setPeerFrontier s c ks).state.getPeerFrontiers c ↔
      BuiltOn s.getPeerFrontiers c ks) ∧
    ∀ db : DartSqlite, NoneLost db.getPeerFrontiers
        (after DartSqlite.setPeerFrontier db c ks).state.getPeerFrontiers c ↔
      BuiltOn db.getPeerFrontiers c ks :=
  ⟨fun s h => noneLost_memory s c ks h,
    fun db => noneLost_readModifyWrite (fun _ _ => rfl) db c ks,
    fun s => noneLost_readModifyWrite (fun _ _ => rfl) s c ks,
    fun db => noneLost_readModifyWrite (fun _ _ => rfl) db c ks⟩

/-- Frontiers of two peers. -/
def twoPeers : PeerCalls := ⟨[(js "a", ∅), (js "b", ∅)], by decide⟩

theorem twoPeers_kept :
    NoneLost ∅ (after MemoryAdapter.setPeerFrontierBody .empty twoPeers
      [1, 0]).state.peerFrontiers twoPeers :=
  (peer_frontiers_kept_iff twoPeers [1, 0]).1 .empty (by decide +kernel)

/-- The second of two overlapping calls throws away what the first recorded. -/
theorem peer_frontier_lost :
    (after SqliteDb.setPeerFrontier SqliteDb.empty twoPeers [0, 1, 0, 1]).allSettled = true ∧
      ¬ NoneLost SqliteDb.empty.getPeerFrontiers
        (after SqliteDb.setPeerFrontier SqliteDb.empty twoPeers [0, 1, 0, 1]).state.getPeerFrontiers
        twoPeers := by
  refine ⟨by decide +kernel, fun h => ?_⟩
  have hlost : (after SqliteDb.setPeerFrontier SqliteDb.empty twoPeers
      [0, 1, 0, 1]).state.getPeerFrontiers.contains (js "a") = false := by decide +kernel
  have hkept := h.1 (js "a", ∅) List.mem_cons_self
  rw [Std.ExtTreeMap.contains_eq_isSome_getElem?, hkept] at hlost
  cases hlost

end TangentFeed
