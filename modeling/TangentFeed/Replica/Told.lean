import TangentFeed.Replica.Atomicity
import TangentFeed.Replica.Compacted

/-!
# What subscribers are told

A call leaves the subscribers as they are, unless it adds or deletes one, and
calls them with what it committed. A call that tells of no change to a table
leaves what `list` returns of it (`Consistent.list_call`).
-/

namespace TangentFeed

variable {cr : Crypto}

/-! ## Changes -/

/-- `event.changes.some((c) => c.table === table)`. -/
def ChangeEvent.touches (event : ChangeEvent) (table : JsString) : Bool :=
  event.changes.any fun c => c.1 == table

namespace SyncEngine

variable {e e' m : SyncEngine} {table : JsString}

theorem mem_changesOf {ops : List Op} {o : Op} (ho : o ∈ ops) :
    (o.table, o.row) ∈ changesOf ops := by
  unfold changesOf
  refine List.mem_map.2 ⟨rowKeyOf o, List.mem_eraseDups.2 (List.mem_map_of_mem ho), ?_⟩
  have htable : sep ∉ o.table := o.legal.table
  have hrow : sep ∉ o.row := o.legal.row
  unfold rowKeyOf
  rw [splitSep_append htable, splitSep_of_not_mem hrow]
  rfl

theorem table_of_not_touches {ops : List Op} {origin : Origin}
    (h : (changeEvent ops origin).touches table = false) : ∀ o ∈ ops, o.table ≠ table := by
  rintro o ho rfl
  refine Bool.false_ne_true (h.symm.trans (List.any_eq_true.2 ⟨_, mem_changesOf ho, ?_⟩))
  exact beq_self_eq_true o.table

/-! ## Lists that do not change -/

/-- **A call that tells of no change to a table leaves its list.** -/
theorem Consistent.list_call {H : Set Op} (hc : Consistent cr e H) (c : Call)
    (h : ∀ ev, (c.run cr e).event = some ev → ev.touches table = false) :
    (c.run cr e).engine.list table = e.list table := by
  have heff := c.run_effect hc.identity
  have hnext := (hc.effect heff).ledger.keyed
  generalize (c.run cr e).engine = e' at heff hnext ⊢
  generalize (c.run cr e).event = ev at heff h
  generalize c.deed = d at heff
  have same (ht : e'.storage.tables = e.storage.tables) : e'.list table = e.list table :=
    list_of_get (get_congr ht heff.cipher) table
  cases heff.store with
  | idle hs => exact same (by rw [hs])
  | clockSaved hs => exact same (by rw [hs])
  | peerSaved hs => exact same (by rw [hs]; rfl)
  | @compacted opts hs =>
    have hget := get_compactStorage hc.ledger.keyed (hc.ledger.compact opts).keyed e' hs heff.cipher
    exact list_of_get hget table
  | @committed ops origin hs hb =>
    have hops := table_of_not_touches (h _ rfl)
    refine list_of_rows fun row => get_of_winners hnext hc.ledger.keyed heff.cipher fun column => ?_
    rw [hs, winner_commit hc.ledger.keyed]
    refine Lww.putAll_of_ne fun o ho hcell => ?_
    exact hops o ho (congrArg Prod.fst hcell)

/-! ## Subscribers -/

/-- The call keeps the subscribers, and calls them with the event it committed. -/
structure Tells {α : Type} (e : SyncEngine) (r : Reply α) : Prop where
  subscribers : r.engine.subscribers = e.subscribers
  received : ∀ ev, r.event = some ev → r.received = (notify e.subscribers ev).1

theorem Tells.quiet {α : Type} (hm : Moved e m) (res : Except JsError α) :
    Tells e (.quiet m res) := ⟨hm.subscribers, nofun⟩

theorem Tells.map {α β : Type} {r : Reply α} (h : Tells e r) (f : α → β) : Tells e (r.map f) :=
  ⟨h.subscribers, h.received⟩

theorem Tells.transact (hm : Moved e m) (s : MemoryAdapter) : Tells e (m.transact s) := by
  rcases m.transact_cases s with h | h
  · rw [h]
    exact ⟨hm.subscribers, nofun⟩
  · rw [h]
    exact ⟨hm.subscribers, nofun⟩

theorem Tells.commit (hm : Moved e m) (ops : List Op) (origin : Origin) :
    Tells e (m.commit ops origin) := by
  rcases m.commit_cases ops origin with h | h
  · rw [h]
    exact ⟨hm.subscribers, nofun⟩
  · rw [h]
    refine ⟨hm.subscribers, fun ev hev => ?_⟩
    rw [← Option.some.inj hev, ← hm.subscribers]

theorem Tells.localWrite (hm : Moved e m) (table row : JsString)
    (values : List (JsString × Json)) :
    let made := m.makeLocalOps cr table row values
    let r : Reply Unit := match made.1 with
      | .error err => .quiet made.2 (.error err)
      | .ok ops => made.2.commit ops .local
    Tells e r := by
  have hmove := hm.trans (makeLocalOps_moved cr table row values m)
  simp only
  split
  · exact .quiet hmove _
  · exact .commit hmove _ _

theorem Tells.applyRemoteOps (e : SyncEngine) (remoteOps : List Json) :
    Tells e (e.applyRemoteOps cr remoteOps) := by
  unfold SyncEngine.applyRemoteOps
  split
  · exact .quiet (.refl e) _
  · rename_i ops _
    have hm := e.receiveMax_moved ops
    unfold mergeAdmitted
    simp only
    split
    · exact .quiet hm _
    · split
      · exact (Tells.transact hm _).map _
      · exact (Tells.commit hm _ _).map _

theorem Tells.observeRemoteClock (e : SyncEngine) (hlc : JsString) :
    Tells e (e.observeRemoteClock hlc) := by
  unfold SyncEngine.observeRemoteClock
  split
  · exact .quiet (.refl e) _
  · rename_i remote hd
    have hm := e.receiveClock_moved (decodeHlc_eq_ok hd).1.counter
    simp only
    split
    · exact .quiet hm _
    · exact .transact hm _

theorem Tells.compact (e : SyncEngine) (opts : CompactionOptions) : Tells e (e.compact opts) := by
  unfold SyncEngine.compact
  simp only
  split
  · exact (Tells.transact (.refl e) _).map _
  · exact .quiet (.refl e) _

/-- **A call tells the subscribers**, unless it adds or deletes one. -/
theorem tells_call (c : Call) (hsub : ∀ s, c ≠ .subscribe s) (hunsub : ∀ id, c ≠ .unsubscribe id) :
    Tells e (c.run cr e) := by
  cases c with
  | insert table values =>
    unfold Call.run SyncEngine.insert
    simp only
    split
    · exact (Tells.quiet (.asked e _) _).map _
    · exact ((Tells.localWrite (.asked e _) _ _ _).map _).map _
  | update table row values => exact Tells.localWrite (.refl e) ..
  | delete table row => exact Tells.localWrite (.refl e) ..
  | applyRemoteOps ops => exact (Tells.applyRemoteOps e ops).map _
  | observeRemoteClock hlc => exact .observeRemoteClock e hlc
  | recordPeerFrontier peer f =>
    change Tells e (e.recordPeerFrontier peer f)
    unfold SyncEngine.recordPeerFrontier
    split
    · exact .quiet (.refl e) _
    · exact .transact (.refl e) _
  | learnKey id key =>
    refine ⟨?_, nofun⟩
    change (e.learnKey cr id key).2.subscribers = e.subscribers
    unfold SyncEngine.learnKey
    split
    · rfl
    · rfl
  | compact opts => exact (Tells.compact e opts).map _
  | subscribe s => exact absurd rfl (hsub s)
  | unsubscribe id => exact absurd rfl (hunsub id)

/-- A subscriber stays until its callback is deleted. -/
theorem mem_subscribers_call {s : Subscriber} (hs : s ∈ e.subscribers) (c : Call)
    (hc : c ≠ .unsubscribe s.id) : s ∈ (c.run cr e).engine.subscribers := by
  by_cases hsub : ∃ t, c = .subscribe t
  · obtain ⟨t, rfl⟩ := hsub
    change s ∈ (e.subscribe t).subscribers
    unfold subscribe
    split
    · exact hs
    · exact List.mem_append_left _ hs
  by_cases hunsub : ∃ id, c = .unsubscribe id
  · obtain ⟨id, rfl⟩ := hunsub
    refine List.mem_filter.2 ⟨hs, bne_iff_ne.2 fun he => hc ?_⟩
    rw [he]
  · rw [(tells_call c (fun t ht => hsub ⟨t, ht⟩) fun id hid => hunsub ⟨id, hid⟩).subscribers]
    exact hs

/-- A callback is called if no subscriber before it throws. -/
theorem mem_notify {subs : List Subscriber} {ev : ChangeEvent} {id : SubscriberId}
    (hm : ∃ s ∈ subs, s.id = id)
    (hq : ∀ t ∈ subs.takeWhile (·.id != id), t.throws ev = false) : id ∈ (notify subs ev).1 := by
  induction subs with
  | nil =>
    obtain ⟨s, hs, -⟩ := hm
    cases hs
  | cons s subs ih =>
    unfold notify
    by_cases hid : s.id = id
    · rw [hid]
      split
      · exact List.mem_singleton_self id
      · exact List.mem_cons_self
    · have hne : (s.id != id) = true := bne_iff_ne.2 hid
      rw [List.takeWhile_cons, if_pos hne] at hq
      rw [if_neg (by rw [hq s List.mem_cons_self]; exact Bool.false_ne_true)]
      obtain ⟨t, ht, htid⟩ := hm
      refine List.mem_cons_of_mem _ (ih ⟨t, ?_, htid⟩ fun u hu => hq u (List.mem_cons_of_mem _ hu))
      rcases List.mem_cons.1 ht with rfl | ht
      · exact absurd htid hid
      · exact ht

theorem received_call {c : Call} {ev : ChangeEvent} (hev : (c.run cr e).event = some ev) :
    (c.run cr e).received = (notify e.subscribers ev).1 := by
  have htells : Tells e (c.run cr e) := by
    refine tells_call c ?_ ?_
    · rintro t rfl
      cases hev
    · rintro id rfl
      cases hev
  exact htells.received ev hev

end SyncEngine

end TangentFeed
