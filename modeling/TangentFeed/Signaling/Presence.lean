import TangentFeed.Signaling.Server

/-!
# Rooms and presence

`Exact` is the invariant of the server: every entry of a room is the current
client of a live socket, no room is empty, and what an open member has been told
is who is in its room. Leaving keeps it, and so does entering, for a socket that
is in no room.
-/

namespace TangentFeed.Signaling

/-- What one message does to the list of peers; `peers`, the reply to a join,
starts it anew. -/
def heed (view : List JsString) : Reply → List JsString
  | .peers devices => devices
  | .peerJoined d => d :: view
  | .peerLeft d => view.filter (· ≠ d)
  | .signal .. | .error _ => view

/-- The peers a client knows of from the messages it got. -/
def presence (received : List Reply) : List JsString := received.foldl heed []

/-- Whether `x` is known after `m`, if it was known before when `known`. -/
def Reply.Leaves (m : Reply) (x : JsString) (known : Prop) : Prop :=
  match m with
  | peers devices => x ∈ devices
  | peerJoined d => x = d ∨ known
  | peerLeft d => known ∧ x ≠ d
  | signal .. | error _ => known

theorem mem_presence_append {received : List Reply} {m : Reply} {x : JsString} :
    x ∈ presence (received ++ [m]) ↔ m.Leaves x (x ∈ presence received) := by
  unfold presence
  rw [List.foldl_append]
  cases m <;> simp [heed, Reply.Leaves]

theorem Reply.leaves_leaves {m : Reply} {x : JsString} {known : Prop} :
    m.Leaves x (m.Leaves x known) ↔ m.Leaves x known := by
  cases m <;> simp only [Leaves] <;> tauto

namespace Server

variable {s : Server} {v w : Nat} {c o : Client} {m : Reply} {sp sp' d d' x : JsString}
  {cs : List Client}

theorem inbox_sendAll_of_not_mem (h : ¬ ∃ c ∈ cs, c.ws = v) :
    (s.sendAll cs m).inbox v = s.inbox v := by
  unfold sendAll
  induction cs generalizing s with
  | nil => rfl
  | cons c cs ih =>
    rw [List.foldl_cons, ih fun ⟨o, ho, hw⟩ => h ⟨o, List.mem_cons_of_mem _ ho, hw⟩, inbox_send,
      if_neg fun hv => h ⟨c, List.mem_cons_self, hv.1.symm⟩]

/-- **Telling many.** A message told to a list of clients does to each open one
what it does when told once. -/
theorem mem_presence_sendAll (ho : s.readyState v = some .opened) (h : ∃ c ∈ cs, c.ws = v) :
    x ∈ presence ((s.sendAll cs m).inbox v) ↔ m.Leaves x (x ∈ presence (s.inbox v)) := by
  unfold sendAll
  induction cs generalizing s with
  | nil =>
    obtain ⟨c, hc, -⟩ := h
    cases hc
  | cons c cs ih =>
    rw [List.foldl_cons]
    by_cases hrest : ∃ c ∈ cs, c.ws = v
    · rw [ih (readyState_send.trans ho) hrest, inbox_send]
      split
      · rw [mem_presence_append, Reply.leaves_leaves]
      · rfl
    · obtain ⟨o, hc, hw⟩ := h
      rcases List.mem_cons.1 hc with rfl | hc
      · have hlast := inbox_sendAll_of_not_mem (s := s.send o.ws m) (m := m) hrest
        unfold sendAll at hlast
        rw [hlast, inbox_send, if_pos ⟨hw.symm, hw ▸ ho⟩, mem_presence_append]
      · exact absurd ⟨o, hc, hw⟩ hrest

/-! ## Entries -/

theorem lookup_eq_some : s.lookup sp d = some c ↔
    ∃ room, s.rooms.get sp = some room ∧ room.get d = some c := Option.bind_eq_some_iff

/-- The rooms after an entry is put. -/
theorem lookup_put {s' : Server} (h : s'.rooms = s.rooms.set sp (((s.rooms.get sp).getD .empty).set d c)) :
    s'.lookup sp' d' = if sp' = sp ∧ d' = d then some c else s.lookup sp' d' := by
  unfold lookup
  rw [h, OrderedMap.get_set]
  by_cases h1 : sp' = sp
  · subst h1
    rw [if_pos rfl, Option.bind_some, OrderedMap.get_set]
    by_cases h2 : d' = d
    · simp [h2]
    · rw [if_neg h2, if_neg fun h => h2 h.2]
      cases s.rooms.get sp' <;> rfl
  · rw [if_neg h1, if_neg fun h => h1 h.1]

/-- The rooms after an entry is taken out. -/
theorem lookup_take {s' : Server} {room : OrderedMap JsString Client}
    (hroom : s.rooms.get sp = some room)
    (h : s'.rooms = if (room.erase d).size = 0 then s.rooms.erase sp
      else s.rooms.set sp (room.erase d)) :
    s'.lookup sp' d' = if sp' = sp ∧ d' = d then none else s.lookup sp' d' := by
  have hget : s'.rooms.get sp' = if sp' = sp then
      (if (room.erase d).size = 0 then none else some (room.erase d)) else s.rooms.get sp' := by
    rw [h]
    by_cases he : (room.erase d).size = 0
    · rw [if_pos he, if_pos he, OrderedMap.get_erase]
    · rw [if_neg he, if_neg he, OrderedMap.get_set]
  unfold lookup
  rw [hget]
  by_cases h1 : sp' = sp
  · subst h1
    have herase : (if (room.erase d).size = 0 then none else some (room.erase d)).bind
        (fun r => r.get d') = (room.erase d).get d' := by
      by_cases he : (room.erase d).size = 0
      · rw [if_pos he, OrderedMap.size_eq_zero.1 he]
        rfl
      · rw [if_neg he]
        rfl
    rw [if_pos rfl, herase, hroom, Option.bind_some, OrderedMap.get_erase]
    by_cases h2 : d' = d
    · simp [h2]
    · rw [if_neg h2, if_neg fun h => h2 h.2]
  · rw [if_neg h1, if_neg fun h => h1 h.1]

/-! ## The invariant -/

/-- **The invariant of the server.** -/
structure Exact (s : Server) : Prop where
  mine : ∀ {w c}, s.me w = some c → c.ws = w
  entry : ∀ {sp d c}, s.lookup sp d = some c →
    c.space = sp ∧ c.device = d ∧ s.me c.ws = some c ∧ s.Live c.ws
  tight : ∀ {sp room}, s.rooms.get sp = some room → room.size ≠ 0
  view : ∀ {sp d c}, s.lookup sp d = some c → s.readyState c.ws = some .opened →
    ∀ x, x ∈ presence (s.inbox c.ws) ↔ x ≠ d ∧ (s.lookup sp x).isSome

theorem Exact.initial : Exact initial :=
  ⟨nofun, nofun, nofun, nofun⟩

/-- A socket is in one entry at most. -/
theorem Exact.single (h : Exact s) (hc : s.lookup sp d = some c) (ho : s.lookup sp' d' = some o)
    (hw : c.ws = o.ws) : sp = sp' ∧ d = d' := by
  obtain ⟨rfl, rfl, hmc, -⟩ := h.entry hc
  obtain ⟨rfl, rfl, hmo, -⟩ := h.entry ho
  rw [hw, hmo] at hmc
  obtain rfl := Option.some.inj hmc
  exact ⟨rfl, rfl⟩

/-- What changes no room and tells nobody about peers. -/
theorem Exact.frame {s' : Server} (h : Exact s) (hrooms : s'.rooms = s.rooms)
    (hmine : ∀ {w c}, s'.me w = some c → c.ws = w)
    (hme : ∀ sp d c, s.lookup sp d = some c → s'.me c.ws = s.me c.ws)
    (hlive : ∀ sp d c, s.lookup sp d = some c → s'.Live c.ws)
    (hopen : ∀ v, s'.readyState v = some .opened → s.readyState v = some .opened ∨
      ∀ sp d c, s.lookup sp d = some c → c.ws ≠ v)
    (hview : ∀ v x, x ∈ presence (s'.inbox v) ↔ x ∈ presence (s.inbox v)) : Exact s' := by
  have hlook : ∀ sp d, s'.lookup sp d = s.lookup sp d := fun sp d => by
    unfold lookup
    rw [hrooms]
  refine ⟨hmine, fun hc => ?_, fun hr => h.tight (hrooms ▸ hr), fun hc ho x => ?_⟩
  · rw [hlook] at hc
    obtain ⟨h1, h2, h3, -⟩ := h.entry hc
    exact ⟨h1, h2, (hme _ _ _ hc).trans h3, hlive _ _ _ hc⟩
  · rw [hlook] at hc ⊢
    rcases hopen _ ho with ho | hno
    · rw [hview, h.view hc ho]
    · exact absurd rfl (hno _ _ _ hc)

/-- A message that is not about peers. -/
theorem Exact.send (h : Exact s) (hm : ∀ x p, m.Leaves x p ↔ p) : Exact (s.send w m) := by
  refine h.frame rfl (fun hc => h.mine (me_send.symm.trans hc)) (fun _ _ _ _ => me_send)
    (fun _ _ _ hc => ?_) (fun v hv => .inl (readyState_send.symm.trans hv)) fun v x => ?_
  · unfold Live
    rw [readyState_send]
    exact (h.entry hc).2.2.2
  · rw [inbox_send]
    split
    · rw [mem_presence_append, hm]
    · rfl

theorem live_close : (s.close w).Live v ↔ s.Live v := by
  unfold Live
  rw [readyState_close]
  by_cases hc : v = w ∧ s.readyState w = some .opened
  · rw [if_pos hc, hc.1, hc.2]
    simp
  · rw [if_neg hc]

theorem Exact.close (h : Exact s) : Exact (s.close w) := by
  refine h.frame rfl (fun hc => h.mine (me_close.symm.trans hc)) (fun _ _ _ _ => me_close)
    (fun _ _ _ hc => live_close.2 (h.entry hc).2.2.2) (fun v hv => .inl ?_) fun v x => by
      rw [inbox_close]
  rw [readyState_close] at hv
  split at hv
  · cases hv
  · exact hv

/-! ## Leaving -/

/-- A client that is not in its room leaves nothing. -/
theorem leave_eq_self (h : (s.lookup c.space c.device).map Client.ws ≠ some c.ws) :
    s.leave c = s := by
  unfold leave
  unfold lookup at h
  cases hr : s.rooms.get c.space with
  | none => rfl
  | some room =>
    rw [hr, Option.bind_some] at h
    simp only [if_pos h]

/-- A client that is in its room is taken out, and the others are told. -/
theorem leave_eq_sendAll (ho : s.lookup c.space c.device = some o) (hw : o.ws = c.ws) :
    ∃ room, s.rooms.get c.space = some room ∧
      s.leave c = (s.setRooms (if (room.erase c.device).size = 0 then s.rooms.erase c.space
        else s.rooms.set c.space (room.erase c.device))).sendAll
          (room.erase c.device).values (.peerLeft c.device) := by
  obtain ⟨room, hr, hg⟩ := lookup_eq_some.1 ho
  refine ⟨room, hr, ?_⟩
  unfold leave
  have hn : ¬ (room.get c.device).map Client.ws ≠ some c.ws := by simp [hg, hw]
  simp only [hr, if_neg hn]

@[simp] theorem me_leave : (s.leave c).me v = s.me v := by
  unfold leave
  split
  · rfl
  · split
    · rfl
    · exact me_sendAll

@[simp] theorem readyState_leave : (s.leave c).readyState v = s.readyState v := by
  unfold leave
  split
  · rfl
  · split
    · rfl
    · exact readyState_sendAll

/-- **Leaving** keeps the invariant, and the socket is in no room afterwards. -/
theorem Exact.leave (h : Exact s) (hm : s.me c.ws = some c) :
    Exact (s.leave c) ∧ ∀ sp d o, (s.leave c).lookup sp d = some o → o.ws ≠ c.ws := by
  have hown : ∀ sp d o, s.lookup sp d = some o → o.ws = c.ws → o = c := by
    intro sp d o ho hw
    obtain ⟨-, -, hmo, -⟩ := h.entry ho
    rw [hw, hm] at hmo
    exact (Option.some.inj hmo).symm
  by_cases hreg : (s.lookup c.space c.device).map Client.ws = some c.ws
  · obtain ⟨o, ho, hw⟩ := Option.map_eq_some_iff.1 hreg
    obtain rfl := hown _ _ _ ho hw
    obtain ⟨room, hroom, hleave⟩ := leave_eq_sendAll ho rfl
    have hlook : ∀ sp d, (s.leave o).lookup sp d =
        if sp = o.space ∧ d = o.device then none else s.lookup sp d :=
      fun sp d => lookup_take hroom (by rw [hleave, rooms_sendAll, rooms_setRooms])
    have hold : ∀ {sp d c}, (s.leave o).lookup sp d = some c →
        s.lookup sp d = some c ∧ ¬ (sp = o.space ∧ d = o.device) := by
      intro sp d c hc
      rw [hlook] at hc
      split at hc
      · cases hc
      · exact ⟨hc, ‹_›⟩
    refine ⟨⟨fun hc => h.mine (me_leave.symm.trans hc), fun hc => ?_, fun {sp r} hr => ?_,
      fun {sp d c} hc hopen x => ?_⟩, fun sp d c hc hw => ?_⟩
    · obtain ⟨hc, -⟩ := hold hc
      unfold Live
      rw [me_leave, readyState_leave]
      exact h.entry hc
    · rw [hleave, rooms_sendAll, rooms_setRooms] at hr
      split at hr
      · rw [OrderedMap.get_erase] at hr
        split at hr
        · cases hr
        · exact h.tight hr
      · rw [OrderedMap.get_set] at hr
        split at hr
        · rw [← Option.some.inj hr]
          assumption
        · exact h.tight hr
    · obtain ⟨hc, hne⟩ := hold hc
      rw [readyState_leave] at hopen
      have hview := h.view hc hopen x
      -- the members that are told are those of the room that was left
      have htold : (∃ p ∈ (room.erase o.device).values, p.ws = c.ws) ↔ sp = o.space := by
        constructor
        · rintro ⟨p, hp, hw⟩
          obtain ⟨k, hk⟩ := OrderedMap.mem_values.1 hp
          rw [OrderedMap.get_erase] at hk
          split at hk
          · cases hk
          · exact (h.single (lookup_eq_some.2 ⟨room, hroom, hk⟩) hc hw).1.symm
        · rintro rfl
          obtain ⟨r, hr, hg⟩ := lookup_eq_some.1 hc
          obtain rfl := Option.some.inj (hroom.symm.trans hr)
          refine ⟨c, OrderedMap.mem_values.2 ⟨d, ?_⟩, rfl⟩
          rw [OrderedMap.get_erase, if_neg fun hd => hne ⟨rfl, hd⟩]
          exact hg
      rw [hlook, hleave]
      by_cases hsp : sp = o.space
      · rw [mem_presence_sendAll (by rwa [readyState_setRooms]) (htold.2 hsp), inbox_setRooms, Reply.Leaves, hview]
        by_cases hx : x = o.device
        · simp [hx, hsp]
        · simp [hx]
      · rw [inbox_sendAll_of_not_mem fun hh => hsp (htold.1 hh), inbox_setRooms,
          if_neg fun hh => hsp hh.1]
        exact hview
    · obtain ⟨hc, hne⟩ := hold hc
      exact hne (h.single hc ho hw)
  · rw [leave_eq_self hreg]
    refine ⟨h, fun sp d o ho hw => hreg ?_⟩
    obtain rfl := hown sp d o ho hw
    obtain ⟨rfl, rfl, -, -⟩ := h.entry ho
    rw [ho]
    rfl

theorem Exact.leaveMine (h : Exact s) (w : Nat) :
    Exact (s.leaveMine w) ∧ ∀ sp d o, (s.leaveMine w).lookup sp d = some o → o.ws ≠ w := by
  unfold Server.leaveMine
  cases hm : s.me w with
  | none =>
    refine ⟨h, fun sp d o ho hw => ?_⟩
    obtain ⟨-, -, hmo, -⟩ := h.entry ho
    rw [hw, hm] at hmo
    cases hmo
  | some c =>
    obtain rfl := h.mine hm
    exact h.leave hm

@[simp] theorem me_leaveMine : (s.leaveMine w).me v = s.me v := by
  unfold leaveMine
  split
  · exact me_leave
  · rfl

@[simp] theorem readyState_leaveMine : (s.leaveMine w).readyState v = s.readyState v := by
  unfold leaveMine
  split
  · exact readyState_leave
  · rfl

/-! ## Entering -/

@[simp] theorem rooms_evict {e : Option Client} : (s.evict e).rooms = s.rooms := by
  cases e <;> rfl

@[simp] theorem me_evict {e : Option Client} : (s.evict e).me v = s.me v := by
  cases e
  · rfl
  · exact me_close

theorem live_evict {e : Option Client} : (s.evict e).Live v ↔ s.Live v := by
  cases e
  · rfl
  · exact live_close

theorem Exact.evict (h : Exact s) (e : Option Client) : Exact (s.evict e) := by
  cases e
  · exact h
  · exact h.close

/-- An evicted socket is not open. -/
theorem readyState_evict_ne (e : Client) : (s.evict (some e)).readyState e.ws ≠ some .opened := by
  unfold evict
  rw [readyState_close]
  split
  · nofun
  · rename_i hn
    exact fun ho => hn ⟨rfl, ho⟩

/-- Putting a client in its room keeps the invariant, if its socket is in no room
and an old client under its name is not open. -/
theorem Exact.admitted (h : Exact s) (hm : s.me c.ws = some c) (hlive : s.Live c.ws)
    (hno : ∀ sp d o, s.lookup sp d = some o → o.ws ≠ c.ws)
    (hold : ∀ o, s.lookup c.space c.device = some o → s.readyState o.ws ≠ some .opened) :
    Exact (s.admitted c) := by
  unfold Server.admitted
  simp only
  generalize hroom : (s.rooms.get c.space).getD .empty = room
  generalize hs' : Server.sendAll _ _ _ = s'
  have hlook : ∀ sp d, s'.lookup sp d =
      if sp = c.space ∧ d = c.device then some c else s.lookup sp d := by
    intro sp d
    refine lookup_put ?_
    rw [← hs', rooms_sendAll, rooms_send, rooms_setRooms, hroom]
  have hme : ∀ v, s'.me v = s.me v := by
    intro v
    rw [← hs', me_sendAll, me_send]
    rfl
  have hready : ∀ v, s'.readyState v = s.readyState v := by
    intro v
    rw [← hs', readyState_sendAll, readyState_send]
    rfl
  have hmem : ∀ sp d o, s'.lookup sp d = some o →
      sp = c.space ∧ d = c.device ∧ o = c ∨
        ¬ (sp = c.space ∧ d = c.device) ∧ s.lookup sp d = some o := by
    intro sp d o ho
    rw [hlook] at ho
    split at ho
    · exact .inl ⟨‹_ ∧ _›.1, ‹_ ∧ _›.2, (Option.some.inj ho).symm⟩
    · exact .inr ⟨‹_›, ho⟩
  refine ⟨fun {w o} ho => h.mine ((hme w).symm.trans ho), fun {sp d o} ho => ?_,
    fun {sp r} hr => ?_, fun {sp d o} ho hopen x => ?_⟩
  · unfold Live
    rw [hready, hme]
    rcases hmem sp d o ho with ⟨rfl, rfl, rfl⟩ | ⟨-, ho⟩
    · exact ⟨rfl, rfl, hm, hlive⟩
    · exact h.entry ho
  · rw [← hs', rooms_sendAll, rooms_send, rooms_setRooms, OrderedMap.get_set] at hr
    split at hr
    · rw [← Option.some.inj hr]
      intro hz
      have hnone := OrderedMap.size_eq_zero.1 hz c.device
      rw [OrderedMap.get_set, if_pos rfl] at hnone
      cases hnone
    · exact h.tight hr
  · rw [hready] at hopen
    have hcur1 : ∀ x, s.lookup c.space x = room.get x := by
      intro x
      unfold lookup
      rw [← hroom]
      cases s.rooms.get c.space <;> rfl
    have hkeys : ∀ x, (x ∈ (room.set c.device c).keys ↔ (s'.lookup c.space x).isSome) := by
      intro x
      rw [OrderedMap.mem_keys, hlook, OrderedMap.get_set, Option.isSome_iff_exists]
      by_cases hx : x = c.device
      · simp [hx]
      · simp [hx, hcur1]
    have hothers : ∀ p, p ∈ ((room.set c.device c).values.filter fun p => p.device ≠ c.device) ↔
        ∃ k, k ≠ c.device ∧ s.lookup c.space k = some p := by
      intro p
      rw [List.mem_filter, OrderedMap.mem_values]
      constructor
      · rintro ⟨⟨k, hk⟩, hp⟩
        rw [OrderedMap.get_set] at hk
        split at hk
        · rw [← Option.some.inj hk] at hp
          simp at hp
        · exact ⟨k, ‹_›, (hcur1 k).trans hk⟩
      · rintro ⟨k, hk, hp⟩
        refine ⟨⟨k, ?_⟩, ?_⟩
        · rw [OrderedMap.get_set, if_neg hk, ← hcur1]
          exact hp
        · rw [(h.entry hp).2.1]
          simpa using hk
    rcases hmem sp d o ho with ⟨rfl, rfl, rfl⟩ | ⟨hne, ho1⟩
    · -- the client that entered has the list of the others
      have hself : ¬ ∃ p ∈ (room.set o.device o).values.filter fun p => p.device ≠ o.device,
          p.ws = o.ws := by
        rintro ⟨p, hp, hw⟩
        obtain ⟨k, -, hk⟩ := (hothers p).1 hp
        exact hno _ _ _ hk hw
      rw [← hkeys, ← hs', inbox_sendAll_of_not_mem hself, inbox_send, if_pos ⟨rfl, hopen⟩,
        mem_presence_append, Reply.Leaves, List.mem_filter]
      simp [and_comm]
    · have hw : o.ws ≠ c.ws := hno _ _ _ ho1
      have hview := h.view ho1 hopen x
      rw [hlook, ← hs']
      by_cases hsp : sp = c.space
      · subst hsp
        rw [mem_presence_sendAll (by rwa [readyState_send, readyState_setRooms])
            ⟨o, (hothers o).2 ⟨d, fun hd => hne ⟨rfl, hd⟩, ho1⟩, rfl⟩,
          inbox_send, if_neg fun hh => hw hh.1, inbox_setRooms, Reply.Leaves, hview]
        by_cases hx : x = c.device
        · subst hx
          simpa using fun hd => hne ⟨rfl, hd.symm⟩
        · simp [hx]
      · have hnot : ¬ ∃ p ∈ (room.set c.device c).values.filter fun p => p.device ≠ c.device,
            p.ws = o.ws := by
          rintro ⟨p, hp, hpw⟩
          obtain ⟨k, -, hk⟩ := (hothers p).1 hp
          exact hsp (h.single hk ho1 hpw).1.symm
        rw [inbox_sendAll_of_not_mem hnot, inbox_send, if_neg fun hh => hw hh.1, inbox_setRooms,
          if_neg fun hh => hsp hh.1]
        exact hview

/-- **Entering** keeps the invariant, for a socket that is in no room. -/
theorem Exact.enter (h : Exact s) (hm : s.me c.ws = some c) (hlive : s.Live c.ws)
    (hno : ∀ sp d o, s.lookup sp d = some o → o.ws ≠ c.ws) : Exact (s.enter c) := by
  have hlook : ∀ e sp d, (s.evict e).lookup sp d = s.lookup sp d := fun e sp d => by
    unfold lookup
    rw [rooms_evict]
  refine (h.evict _).admitted (me_evict.trans hm) (live_evict.2 hlive) (fun sp d o ho => ?_)
    fun o ho => ?_
  · rw [hlook] at ho
    exact hno sp d o ho
  · rw [hlook] at ho
    rw [ho]
    exact readyState_evict_ne o

/-! ## Every event -/

theorem me_setMe_self (hl : s.Live w) (o : Option Client) : (s.setMe w o).me w = o := by
  rw [me_setMe, if_pos ⟨rfl, fun hn => by rcases hl with h | h <;> rw [hn] at h <;> cases h⟩]

/-- What a socket in no room closes over does not matter. -/
theorem Exact.setMe (h : Exact s) (hno : ∀ sp d o, s.lookup sp d = some o → o.ws ≠ w)
    {o : Option Client} (ho : ∀ c, o = some c → c.ws = w) : Exact (s.setMe w o) := by
  refine h.frame rfl (fun {v c} hc => ?_) (fun sp d c hc => ?_) (fun _ _ _ hc => ?_)
    (fun v hv => .inl (readyState_setMe _ ▸ hv)) fun v x => by rw [inbox_setMe]
  · rw [me_setMe] at hc
    split at hc
    · rename_i hv
      rw [hv.1]
      exact ho c hc
    · exact h.mine hc
  · rw [me_setMe, if_neg fun hh => hno _ _ _ hc hh.1]
  · unfold Live
    rw [readyState_setMe]
    exact (h.entry hc).2.2.2

theorem live_leaveMine : (s.leaveMine w).Live v ↔ s.Live v := by
  unfold Live
  rw [readyState_leaveMine]

theorem Exact.join (h : Exact s) (hl : s.Live w) (msg : Json) : Exact (s.join w msg) := by
  unfold Server.join
  simp only
  split
  · exact h.send fun _ _ => Iff.rfl
  · obtain ⟨h1, hno⟩ := h.leaveMine w
    have hl1 : (s.leaveMine w).Live w := live_leaveMine.2 hl
    refine (h1.setMe hno ?_).enter (me_setMe_self hl1 _) ?_ fun sp d o ho => ?_
    · rintro c ⟨⟩
      rfl
    · unfold Live
      rw [readyState_setMe]
      exact hl1
    · exact hno sp d o ho

theorem Exact.signal (h : Exact s) (msg : Json) : Exact (s.signal w msg) := by
  unfold Server.signal
  split
  · exact h.send fun _ _ => Iff.rfl
  · split
    · exact h
    · exact h.send fun _ _ => Iff.rfl

/-- Nothing is left of a process that has ended. -/
theorem Exact.uncaught : Exact s.uncaught := by
  have hlook : ∀ sp d, s.uncaught.lookup sp d = none := fun _ _ => rfl
  refine ⟨fun hc => ?_, fun hc => ?_, fun hr => ?_, fun hc => ?_⟩
  · rw [me_uncaught] at hc
    cases hc
  · rw [hlook] at hc
    cases hc
  · cases hr
  · rw [hlook] at hc
    cases hc

theorem Exact.onMessage (h : Exact s) (hl : s.Live w) (raw : Option Json) :
    Exact (s.onMessage w raw) := by
  unfold Server.onMessage
  split
  · exact h.send fun _ _ => Iff.rfl
  · exact Exact.uncaught
  · split
    · exact h.join hl _
    · split
      · exact h.signal _
      · exact h.send fun _ _ => Iff.rfl

theorem Exact.onClose (h : Exact s) (w : Nat) : Exact (s.onClose w) := by
  obtain ⟨h1, hno⟩ := h.leaveMine w
  unfold Server.onClose
  have hother : ∀ {v}, v ≠ w → ((s.leaveMine w).update w fun k =>
      { k with readyState := .closed, me := none }).sockets[v]? = (s.leaveMine w).sockets[v]? :=
    fun hv => by rw [sockets_update, if_neg hv]
  refine h1.frame rfl (fun {v c} hc => ?_) (fun sp d c hc => ?_) (fun sp d c hc => ?_)
    (fun v hv => ?_) fun v x => ?_
  · by_cases hv : v = w
    · subst hv
      unfold me at hc
      rw [sockets_update, if_pos rfl] at hc
      cases hk : (s.leaveMine v).sockets[v]? <;> rw [hk] at hc <;> cases hc
    · unfold me at hc
      rw [hother hv] at hc
      exact h1.mine hc
  · unfold me
    rw [hother (hno _ _ _ hc)]
  · unfold Live readyState
    rw [hother (hno _ _ _ hc)]
    exact (h1.entry hc).2.2.2
  · by_cases hvw : v = w
    · exact .inr fun sp d c hc => hvw ▸ hno sp d c hc
    · unfold readyState at hv
      rw [hother hvw] at hv
      exact .inl hv
  · have hin : ((s.leaveMine w).update w fun k =>
        { k with readyState := .closed, me := none }).inbox v = (s.leaveMine w).inbox v :=
      inbox_update fun _ => rfl
    rw [hin]

theorem step_connection (hs : s.ended = false) :
    s.step .connection = { s with sockets := s.sockets ++ [⟨.opened, none, []⟩] } := by
  unfold step
  rw [hs]
  rfl

theorem step_connection_of_ended (hs : s.ended = true) : s.step .connection = s := by
  unfold step
  rw [hs]
  rfl

theorem Exact.connection (h : Exact s) : Exact (s.step .connection) := by
  cases hs : s.ended with
  | true =>
    rw [step_connection_of_ended hs]
    exact h
  | false =>
  have hold : ∀ {v}, v < s.sockets.length →
      (s.step .connection).sockets[v]? = s.sockets[v]? := fun hv => by
    rw [step_connection hs, List.getElem?_append_left hv]
  have hnew : ∀ {v k}, (s.step .connection).sockets[v]? = some k → ¬ v < s.sockets.length →
      k = ⟨.opened, none, []⟩ := by
    intro v k hk hv
    rw [step_connection hs, List.getElem?_append_right (by omega)] at hk
    obtain ⟨hlt, hk⟩ := List.getElem?_eq_some_iff.1 hk
    rw [← hk, List.getElem_singleton]
  have hlt : ∀ {v}, s.Live v → v < s.sockets.length := by
    intro v hv
    by_contra hn
    rcases hv with hv | hv <;>
      simp [readyState, List.getElem?_eq_none (Nat.not_lt.1 hn)] at hv
  refine h.frame (by rw [step_connection hs]) (fun {v c} hc => ?_) (fun sp d c hc => ?_)
    (fun sp d c hc => ?_) (fun v hv => ?_) fun v x => ?_
  · by_cases hv : v < s.sockets.length
    · unfold me at hc
      rw [hold hv] at hc
      exact h.mine hc
    · obtain ⟨k, hk, hm⟩ := Option.bind_eq_some_iff.1 hc
      rw [hnew hk hv] at hm
      cases hm
  · unfold me
    rw [hold (hlt (h.entry hc).2.2.2)]
  · unfold Live readyState
    rw [hold (hlt (h.entry hc).2.2.2)]
    exact (h.entry hc).2.2.2
  · by_cases hvl : v < s.sockets.length
    · unfold readyState at hv
      rw [hold hvl] at hv
      exact .inl hv
    · refine .inr fun sp d c hc hw => hvl ?_
      rw [← hw]
      exact hlt (h.entry hc).2.2.2
  · by_cases hvl : v < s.sockets.length
    · unfold inbox
      rw [hold hvl]
    · have e1 : s.inbox v = [] := by
        unfold inbox
        rw [List.getElem?_eq_none (by omega)]
        rfl
      have e2 : (s.step .connection).inbox v = [] := by
        unfold inbox
        cases hk : (s.step .connection).sockets[v]? with
        | none => rfl
        | some k => rw [hnew hk hvl]; rfl
      rw [e1, e2]

/-- **Every event keeps the invariant.** -/
theorem Exact.step (h : Exact s) (ev : Event) : Exact (s.step ev) := by
  cases ev with
  | connection => exact h.connection
  | message w raw =>
    simp only [Server.step]
    split
    · exact h.onMessage ‹_› raw
    · exact h
  | closing w => exact h.close
  | close w =>
    simp only [Server.step]
    split
    · exact h.onClose w
    · exact h

theorem Exact.after (evs : List Event) : Exact (after evs) :=
  Runs.run_invariant (fun _ a hs => hs.step a) .initial evs

end Server

end TangentFeed.Signaling
