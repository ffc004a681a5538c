import Mathlib.Data.List.Induction
import TangentFeed.Signaling.Presence

/-!
# What an event does to the rooms

An event is a join, or takes out what one socket has, or changes nothing, or ends the
process. So a client whose socket is open has its entry, and the rooms and the presence of
its members are exact after any events.
-/

namespace TangentFeed.Signaling

namespace Server

variable {s s' : Server} {v w : Nat} {c o : Client} {m : Reply} {sp d : JsString} {ev : Event}

/-- The client that the event makes of a socket, if it is a join. -/
def joining (s : Server) : Event → Option Client
  | .message w (some msg) =>
    if s.Live w ∧ msg.getStr (js "t") = js "join" ∧ msg.getStr (js "space") ≠ [] ∧
        msg.getStr (js "device") ≠ [] then
      some ⟨w, msg.getStr (js "space"), msg.getStr (js "device")⟩
    else none
  | _ => none

theorem joining_message {msg : Json} : s.joining (.message w (some msg)) =
    if s.Live w ∧ msg.getStr (js "t") = js "join" ∧ msg.getStr (js "space") ≠ [] ∧
        msg.getStr (js "device") ≠ [] then
      some ⟨w, msg.getStr (js "space"), msg.getStr (js "device")⟩
    else none := rfl

theorem onMessage_some {msg : Json} : s.onMessage w (some msg) =
    if msg.isNull then s.uncaught
    else if msg.getStr (js "t") = js "join" then s.join w msg
    else if msg.getStr (js "t") = js "signal" then s.signal w msg
    else s.send w (.error (js "unknown message type")) := by
  cases msg <;> rfl

theorem isNull_eq_false {msg : Json} (h : msg.getStr (js "t") ≠ []) : msg.isNull = false := by
  cases msg with
  | null => exact absurd rfl h
  | bool | num | str | arr | obj => rfl

/-! ## What one event does to the rooms -/

theorem lookup_evict {e : Option Client} : (s.evict e).lookup sp d = s.lookup sp d := by
  unfold lookup
  rw [rooms_evict]

theorem lookup_enter : (s.enter c).lookup sp d =
    if sp = c.space ∧ d = c.device then some c else s.lookup sp d := by
  have hrooms : ∀ s : Server, (s.admitted c).rooms =
      s.rooms.set c.space (((s.rooms.get c.space).getD .empty).set c.device c) := fun s => by
    unfold admitted
    rw [rooms_sendAll, rooms_send, rooms_setRooms]
  unfold enter
  rw [lookup_put (hrooms _), lookup_evict]

theorem me_enter : (s.enter c).me v = s.me v := by
  unfold enter admitted
  rw [me_sendAll, me_send, me_setRooms, me_evict]

/-- Only the entry of the socket itself is taken out. -/
theorem Exact.lookup_leaveMine (h : Exact s) : (s.leaveMine w).lookup sp d = some o ↔
    s.lookup sp d = some o ∧ o.ws ≠ w := by
  have hno := (h.leaveMine w).2 sp d o
  refine ⟨fun ho => ⟨?_, hno ho⟩, fun ⟨ho, hw⟩ => ?_⟩
  · unfold Server.leaveMine at ho
    cases hm : s.me w with
    | none =>
      rw [hm] at ho
      exact ho
    | some c =>
      rw [hm] at ho
      by_cases hreg : (s.lookup c.space c.device).map Client.ws = some c.ws
      · obtain ⟨p, hp, hpw⟩ := Option.map_eq_some_iff.1 hreg
        obtain ⟨room, hroom, hleave⟩ := leave_eq_sendAll hp hpw
        simp only at ho
        rw [lookup_take hroom (by rw [hleave, rooms_sendAll, rooms_setRooms])] at ho
        split at ho
        · cases ho
        · exact ho
      · simp only at ho
        rwa [leave_eq_self hreg] at ho
  · unfold Server.leaveMine
    cases hm : s.me w with
    | none => exact ho
    | some c =>
      obtain rfl := h.mine hm
      by_cases hreg : (s.lookup c.space c.device).map Client.ws = some c.ws
      · obtain ⟨p, hp, hpw⟩ := Option.map_eq_some_iff.1 hreg
        obtain ⟨room, hroom, hleave⟩ := leave_eq_sendAll hp hpw
        simp only
        rw [lookup_take hroom (by rw [hleave, rooms_sendAll, rooms_setRooms]), if_neg]
        · exact ho
        · rintro ⟨rfl, rfl⟩
          rw [hp] at ho
          exact hw (Option.some.inj ho ▸ hpw)
      · simp only
        rwa [leave_eq_self hreg]

theorem join_eq_enter {msg : Json} (h1 : msg.getStr (js "space") ≠ [])
    (h2 : msg.getStr (js "device") ≠ []) : s.join w msg =
      ((s.leaveMine w).setMe w (some ⟨w, msg.getStr (js "space"), msg.getStr (js "device")⟩)).enter
        ⟨w, msg.getStr (js "space"), msg.getStr (js "device")⟩ := by
  unfold join
  simp only
  rw [if_neg (by rintro (h | h) <;> contradiction)]

/-- What a join does to the rooms. -/
theorem Exact.join_spec (h : Exact s) (hl : s.Live w) {msg : Json}
    (h1 : msg.getStr (js "space") ≠ []) (h2 : msg.getStr (js "device") ≠ []) :
    let c : Client := ⟨w, msg.getStr (js "space"), msg.getStr (js "device")⟩
    (∀ sp d o, (s.join w msg).lookup sp d = some o ↔ if sp = c.space ∧ d = c.device then o = c
      else s.lookup sp d = some o ∧ o.ws ≠ w) ∧
    ∀ v, (s.join w msg).me v = if v = w then some c else s.me v := by
  intro c
  rw [join_eq_enter h1 h2]
  refine ⟨fun sp d o => ?_, fun v => ?_⟩
  · rw [lookup_enter]
    split
    · rw [Option.some.injEq]
      exact eq_comm
    · exact h.lookup_leaveMine
  · have hl1 : (s.leaveMine w).readyState w ≠ none := by
      rw [readyState_leaveMine]
      intro hn
      rcases hl with hl | hl <;> rw [hn] at hl <;> cases hl
    rw [me_enter, me_setMe, me_leaveMine]
    by_cases hv : v = w
    · rw [if_pos ⟨hv, hl1⟩, if_pos hv]
    · rw [if_neg fun hh => hv hh.1, if_neg hv]

theorem rooms_signal {msg : Json} :
    (s.signal w msg).rooms = s.rooms ∧ ∀ v, (s.signal w msg).me v = s.me v := by
  unfold signal
  split
  · exact ⟨rfl, fun v => me_send⟩
  · split
    · exact ⟨rfl, fun v => rfl⟩
    · exact ⟨rfl, fun v => me_send⟩

theorem me_onClose : (s.onClose w).me v = if v = w then none else s.me v := by
  unfold onClose me
  rw [sockets_update]
  by_cases hv : v = w
  · rw [if_pos hv, if_pos hv]
    cases (s.leaveMine w).sockets[v]? <;> rfl
  · rw [if_neg hv, if_neg hv]
    exact me_leaveMine

theorem me_connection : (s.step .connection).me v = s.me v := by
  cases hs : s.ended with
  | true => rw [step_connection_of_ended hs]
  | false =>
  rw [step_connection hs]
  unfold me
  rcases lt_trichotomy v s.sockets.length with hv | rfl | hv
  · rw [List.getElem?_append_left hv]
  · simp
  · rw [List.getElem?_eq_none (by rw [List.length_append, List.length_singleton]; omega),
      List.getElem?_eq_none (by omega)]

theorem rooms_connection : (s.step .connection).rooms = s.rooms := by
  cases hs : s.ended with
  | true => rw [step_connection_of_ended hs]
  | false => rw [step_connection hs]

/-- **What one event does to the rooms**: it is a join, or it changes nothing, or it
takes out what one socket has, or it takes out everything. -/
theorem Exact.step_cases (h : Exact s) (ev : Event) :
    (∃ c, s.joining ev = some c ∧
      (∀ sp d o, (s.step ev).lookup sp d = some o ↔ if sp = c.space ∧ d = c.device then o = c
        else s.lookup sp d = some o ∧ o.ws ≠ c.ws) ∧
      ∀ v, (s.step ev).me v = if v = c.ws then some c else s.me v) ∨
    s.joining ev = none ∧
      (((s.step ev).rooms = s.rooms ∧ ∀ v, (s.step ev).me v = s.me v) ∨
        (∃ w, (∀ sp d o, (s.step ev).lookup sp d = some o ↔ s.lookup sp d = some o ∧ o.ws ≠ w) ∧
          ∀ v, (s.step ev).me v = if v = w then none else s.me v) ∨
        (∀ sp d, (s.step ev).lookup sp d = none) ∧ ∀ v, (s.step ev).me v = none) := by
  cases ev with
  | connection => exact .inr ⟨rfl, .inl ⟨rooms_connection, fun v => me_connection⟩⟩
  | closing w => exact .inr ⟨rfl, .inl ⟨rfl, fun v => me_close⟩⟩
  | close w =>
    refine .inr ⟨rfl, ?_⟩
    simp only [Server.step]
    split
    · exact .inr (.inl ⟨w, fun sp d o => h.lookup_leaveMine, fun v => me_onClose⟩)
    · exact .inl ⟨rfl, fun v => rfl⟩
  | message w raw =>
    simp only [Server.step]
    by_cases hl : s.Live w
    · rw [if_pos hl]
      cases raw with
      | none => exact .inr ⟨rfl, .inl ⟨rfl, fun v => me_send⟩⟩
      | some msg =>
        by_cases hj : msg.getStr (js "t") = js "join"
        · rw [onMessage_some, isNull_eq_false (by rw [hj]; decide), if_neg Bool.false_ne_true,
            if_pos hj, joining_message]
          by_cases hn : msg.getStr (js "space") ≠ [] ∧ msg.getStr (js "device") ≠ []
          · obtain ⟨h1, h2⟩ := h.join_spec hl hn.1 hn.2
            exact .inl ⟨_, if_pos ⟨hl, hj, hn.1, hn.2⟩, h1, h2⟩
          · refine .inr ⟨if_neg fun hh => hn hh.2.2, .inl ?_⟩
            unfold Server.join
            simp only
            rw [if_pos (by tauto)]
            exact ⟨rfl, fun v => me_send⟩
        · rw [joining_message, onMessage_some, if_neg hj]
          refine .inr ⟨if_neg fun hh => hj hh.2.1, ?_⟩
          split
          · exact .inr (.inr ⟨fun _ _ => rfl, fun _ => me_uncaught⟩)
          · left
            split
            · exact rooms_signal
            · exact ⟨rfl, fun v => me_send⟩
    · rw [if_neg hl]
      refine .inr ⟨?_, .inl ⟨rfl, fun v => rfl⟩⟩
      cases raw with
      | none => rfl
      | some msg => rw [joining_message, if_neg fun hh => hl hh.1]

/-! ## Open sockets -/

theorem readyState_enter : (s.enter c).readyState v =
    (s.evict (s.lookup c.space c.device)).readyState v := by
  unfold enter admitted
  rw [readyState_sendAll, readyState_send, readyState_setRooms]

theorem opened_of_close (h : (s.close w).readyState v = some .opened) :
    s.readyState v = some .opened := by
  rw [readyState_close] at h
  split at h
  · cases h
  · exact h

theorem opened_of_join {msg : Json} (h : (s.join w msg).readyState v = some .opened) :
    s.readyState v = some .opened := by
  unfold join at h
  simp only at h
  split at h
  · rwa [readyState_send] at h
  · rw [readyState_enter] at h
    have hmine : ((s.leaveMine w).setMe w (some ⟨w, msg.getStr (js "space"),
        msg.getStr (js "device")⟩)).readyState v = some .opened := by
      revert h
      generalize lookup _ _ _ = e
      cases e with
      | none => exact id
      | some e => exact opened_of_close
    rwa [readyState_setMe, readyState_leaveMine] at hmine

/-- A socket is open only as long as it was before, or it is new. -/
theorem opened_step (h : (s.step ev).readyState v = some .opened) :
    s.readyState v = some .opened ∨ (s.step ev).me v = none := by
  cases ev with
  | connection =>
    rw [me_connection]
    cases hs : s.ended with
    | true =>
      rw [step_connection_of_ended hs] at h
      exact .inl h
    | false =>
      by_cases hv : v < s.sockets.length
      · rw [step_connection hs] at h
        unfold readyState at h
        rw [List.getElem?_append_left hv] at h
        exact .inl h
      · right
        unfold me
        rw [List.getElem?_eq_none (Nat.le_of_not_lt hv)]
        rfl
  | closing w => exact .inl (opened_of_close h)
  | close w =>
    simp only [Server.step] at h
    split at h
    · left
      unfold onClose readyState at h
      rw [sockets_update] at h
      split at h
      · cases hk : (s.leaveMine w).sockets[v]? <;> rw [hk] at h <;> cases h
      · rw [← readyState_leaveMine (s := s) (w := w)]
        exact h
    · exact .inl h
  | message w raw =>
    simp only [Server.step] at h ⊢
    split at h
    · rename_i hl
      rw [if_pos hl]
      cases raw with
      | none => exact .inl (readyState_send.symm.trans h)
      | some msg =>
        rw [onMessage_some] at h ⊢
        split at h
        · exact absurd (.inl h) not_live_uncaught
        · left
          split at h
          · exact opened_of_join h
          · split at h
            · unfold signal at h
              split at h
              · rwa [readyState_send] at h
              · split at h
                · exact h
                · rwa [readyState_send] at h
            · rwa [readyState_send] at h
    · exact .inl h

/-- A client that another joins in place of is not open afterwards. -/
theorem Exact.replaced (h : Exact s) (hj : s.joining ev = some c)
    (ho : s.lookup c.space c.device = some o) (hne : o.ws ≠ c.ws) :
    (s.step ev).readyState o.ws ≠ some .opened := by
  cases ev with
  | connection | closing | close => cases hj
  | message w raw =>
    cases raw with
    | none => cases hj
    | some msg =>
      rw [joining_message] at hj
      split at hj
      · rename_i hjoin
        obtain ⟨hl, ht, hspace, hdevice⟩ := hjoin
        obtain rfl := Option.some.inj hj
        have hstep : s.step (.message w (some msg)) = s.join w msg := by
          simp only [Server.step]
          rw [if_pos hl, onMessage_some, isNull_eq_false (by rw [ht]; decide),
            if_neg Bool.false_ne_true, if_pos ht]
        have hthere : ((s.leaveMine w).setMe w (some ⟨w, msg.getStr (js "space"),
            msg.getStr (js "device")⟩)).lookup (msg.getStr (js "space"))
              (msg.getStr (js "device")) = some o := h.lookup_leaveMine.2 ⟨ho, hne⟩
        rw [hstep, join_eq_enter hspace hdevice, readyState_enter]
        simp only [hthere]
        exact readyState_evict_ne o
      · cases hj

/-- A client whose socket is open has its entry. -/
def Registered (s : Server) : Prop :=
  ∀ w c, s.me w = some c → s.readyState w = some .opened → s.lookup c.space c.device = some c

theorem Registered.step (hr : Registered s) (h : Exact s) (ev : Event) :
    Registered (s.step ev) := by
  intro v o hm hopen
  have hbefore : s.readyState v = some .opened := by
    rcases opened_step hopen with hopen | hnone
    · exact hopen
    · rw [hnone] at hm
      cases hm
  rcases h.step_cases ev with
    ⟨c, hj, hlook, hme⟩ | ⟨-, ⟨hrooms, hme⟩ | ⟨w, hlook, hme⟩ | ⟨-, hme⟩⟩
  · rw [hme] at hm
    rw [hlook]
    split at hm
    · obtain rfl := Option.some.inj hm
      rw [if_pos ⟨rfl, rfl⟩]
    · rename_i hv
      have ho := hr v o hm hbefore
      have hws : o.ws = v := h.mine hm
      rw [if_neg]
      · exact ⟨ho, hws ▸ hv⟩
      · rintro ⟨hsp, hd⟩
        rw [hsp, hd] at ho
        exact h.replaced hj ho (hws ▸ hv) (hws ▸ hopen)
  · rw [hme] at hm
    unfold lookup
    rw [hrooms]
    exact hr v o hm hbefore
  · rw [hme] at hm
    split at hm
    · cases hm
    · rename_i hv
      exact (hlook _ _ _).2 ⟨hr v o hm hbefore, h.mine hm ▸ hv⟩
  · rw [hme] at hm
    cases hm

theorem registered_after (evs : List Event) : Exact (after evs) ∧ Registered (after evs) :=
  Runs.run_invariant (I := fun s => Exact s ∧ Registered s)
    (fun _ ev h => ⟨h.1.step ev, h.2.step h.1 ev⟩) ⟨.initial, nofun⟩ evs

/-- The event is one whose listener throws. -/
def Throws (s : Server) (ev : Event) : Prop := ∃ w, ev = .message w (some .null) ∧ s.Live w

theorem ended_sendAll (cs : List Client) : (s.sendAll cs m).ended = s.ended := by
  unfold sendAll
  induction cs generalizing s with
  | nil => rfl
  | cons c cs ih => rw [List.foldl_cons, ih]; rfl

theorem ended_leaveMine : (s.leaveMine w).ended = s.ended := by
  unfold leaveMine leave
  split
  · split
    · rfl
    · split
      · rfl
      · exact ended_sendAll _
  · rfl

theorem ended_enter : (s.enter c).ended = s.ended := by
  have hevict (e : Option Client) : (s.evict e).ended = s.ended := by cases e <;> rfl
  unfold enter admitted
  exact (ended_sendAll _).trans (hevict _)

theorem ended_onMessage {msg : Json} (hn : ¬ msg.isNull = true) :
    (s.onMessage w (some msg)).ended = s.ended := by
  rw [onMessage_some, if_neg hn]
  split
  · unfold join
    simp only
    split
    · rfl
    · exact ended_enter.trans ended_leaveMine
  split
  · unfold signal
    split
    · rfl
    split
    · rfl
    · rfl
  · rfl

theorem not_throws (h : ∀ v, ev ≠ .message v (some .null)) : ¬ s.Throws ev := by
  rintro ⟨v, he, -⟩
  exact h v he

theorem ended_step : (s.step ev).ended = true ↔ s.ended = true ∨ s.Throws ev := by
  have hquiet (h : (s.step ev).ended = s.ended) (hn : ¬ s.Throws ev) :
      (s.step ev).ended = true ↔ s.ended = true ∨ s.Throws ev := by
    rw [h, or_iff_left hn]
  cases ev with
  | connection =>
    refine hquiet ?_ (not_throws fun _ => Event.noConfusion)
    cases hs : s.ended with
    | true => rw [step_connection_of_ended hs, hs]
    | false => rw [step_connection hs, hs]
  | closing w => exact hquiet rfl (not_throws fun _ => Event.noConfusion)
  | close w =>
    refine hquiet ?_ (not_throws fun _ => Event.noConfusion)
    simp only [Server.step]
    split
    · exact ended_leaveMine
    · rfl
  | message w raw =>
    by_cases hl : s.Live w
    · have hstep : s.step (.message w raw) = s.onMessage w raw := if_pos hl
      cases raw with
      | none =>
        refine hquiet (by rw [hstep]; rfl) (not_throws fun v he => ?_)
        cases he
      | some msg =>
        by_cases hn : msg.isNull = true
        · obtain rfl : msg = .null := by cases msg <;> first | rfl | cases hn
          refine iff_of_true ?_ (.inr ⟨w, rfl, hl⟩)
          rw [hstep]
          rfl
        · refine hquiet (by rw [hstep, ended_onMessage hn]) (not_throws fun v he => ?_)
          obtain ⟨-, he⟩ := Event.message.inj he
          exact hn (by rw [Option.some.inj he]; rfl)
    · refine hquiet (by rw [show s.step (.message w raw) = s from if_neg hl]) ?_
      rintro ⟨v, he, hv⟩
      obtain ⟨rfl, -⟩ := Event.message.inj he
      exact hl hv

/-- The server runs as long as no live socket sends the JSON text `null`. -/
theorem running_iff (evs : List Event) : (after evs).ended = false ↔
    Runs.Along Server.step (fun s ev => ¬ s.Throws ev) .initial evs := by
  induction evs using List.reverseRecOn with
  | nil => exact iff_of_true rfl trivial
  | append_singleton evs ev ih =>
    have hafter : after (evs ++ [ev]) = (after evs).step ev := Runs.run_append
    rw [hafter, Runs.along_append, ← ih, ← Bool.not_eq_true, ended_step, not_or, Bool.not_eq_true]
    exact and_congr_right fun _ => (iff_of_eq (and_true _)).symm

/-! ## After any events -/

/-- **Rooms and presence are exact.** After any events: an entry of a room is the
current client of a live socket, under its own space and device; a socket is in
one entry at most; no room is empty; and a client whose socket is open has its entry, and
knows from its messages who else is in its room. -/
theorem rooms_exact (evs : List Event) :
    (∀ sp d c, (after evs).lookup sp d = some c → c.space = sp ∧ c.device = d ∧
      (after evs).Live c.ws ∧ (after evs).me c.ws = some c) ∧
    (∀ sp d c sp' d' c', (after evs).lookup sp d = some c → (after evs).lookup sp' d' = some c' →
      c.ws = c'.ws → sp = sp' ∧ d = d') ∧
    (∀ sp room, (after evs).rooms.get sp = some room → room.keys ≠ []) ∧
    ∀ w c, (after evs).me w = some c → (after evs).readyState w = some .opened →
      (after evs).lookup c.space c.device = some c ∧
        ∃ room, (after evs).rooms.get c.space = some room ∧
          ∀ x, x ∈ presence ((after evs).inbox w) ↔ x ∈ room.keys ∧ x ≠ c.device := by
  obtain ⟨h, hreg⟩ := registered_after evs
  generalize after evs = s at h hreg
  refine ⟨fun sp d c hc => ?_, fun sp d c sp' d' c' hc hc' hw => h.single hc hc' hw,
    fun sp room hr hk => h.tight hr ?_, fun w c hm ho => ?_⟩
  · obtain ⟨h1, h2, h3, h4⟩ := h.entry hc
    exact ⟨h1, h2, h4, h3⟩
  · rw [OrderedMap.size, ← List.length_map (f := Prod.fst)]
    exact List.length_eq_zero_iff.2 hk
  · have hc := hreg w c hm ho
    obtain ⟨room, hr, -⟩ := lookup_eq_some.1 hc
    obtain rfl := h.mine hm
    refine ⟨hc, room, hr, fun x => ?_⟩
    rw [h.view hc ho, OrderedMap.mem_keys, ← Option.isSome_iff_exists, and_comm]
    unfold lookup
    rw [hr]
    rfl

/-- A message of the client. -/
def clientMessage (fields : List (String × String)) : Option Json :=
  some (.obj (fields.map fun f => (js f.1, .str (js f.2))))

def takeover : List Event :=
  [.connection, .connection, .connection,
    .message 0 (clientMessage [("t", "join"), ("space", "home"), ("device", "d")]),
    .message 1 (clientMessage [("t", "join"), ("space", "home"), ("device", "c")]),
    .message 2 (clientMessage [("t", "join"), ("space", "home"), ("device", "d")])]

/-- Socket 2 has taken the name `d` from socket 0, which is closing, and is told of `c`. -/
theorem rooms_exact_sample :
    (after takeover).readyState 0 = some .closing ∧
      (after takeover).lookup (js "home") (js "d") = some ⟨2, js "home", js "d"⟩ ∧
      ∃ room, (after takeover).rooms.get (js "home") = some room ∧ room.keys = [js "d", js "c"] ∧
        ∀ x, x ∈ presence ((after takeover).inbox 2) ↔ x ∈ room.keys ∧ x ≠ js "d" := by
  obtain ⟨-, -, -, hview⟩ := rooms_exact takeover
  obtain ⟨hlook, room, hroom, hx⟩ :=
    hview 2 ⟨2, js "home", js "d"⟩ (by decide +kernel) (by decide +kernel)
  have hkeys : ((after takeover).rooms.get (js "home")).map (fun room => room.keys) =
      some [js "d", js "c"] := by decide +kernel
  refine ⟨by decide +kernel, hlook, room, hroom, ?_, hx⟩
  rw [hroom] at hkeys
  exact Option.some.inj hkeys

end Server

end TangentFeed.Signaling
