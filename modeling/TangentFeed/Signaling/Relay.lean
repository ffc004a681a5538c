import Mathlib.Data.List.Induction
import TangentFeed.Signaling.Rooms

/-!
# The relay

A signal is sent in the name its connection last joined under, whether or not
that connection is still the member of that name. `latest` is the connection
that joined last under a name: while a connection is, it is the member, and once
another is, it is not.
-/

namespace TangentFeed.Signaling

namespace Server

variable {s s' : Server} {v w t : Nat} {c o target : Client} {m : Reply} {sp d : JsString}
  {ev : Event} {evs pre : List Event}

/-- The event relays a signal in the name of `d` to socket `t`. -/
def Relays (s : Server) (ev : Event) (t : Nat) (d : JsString) : Prop :=
  ∃ data, (s.step ev).inbox t = s.inbox t ++ [.signal d data]

/-- What the event relays goes from the member `d` of a room to the member of the
same room that was asked for. -/
def BetweenMembers (s : Server) (ev : Event) : Prop :=
  ∀ t d, s.Relays ev t d → ∃ w msg space, ev = .message w (some msg) ∧
    s.lookup space d = some ⟨w, space, d⟩ ∧
      s.lookup space (msg.getStr (js "to")) = some ⟨t, space, msg.getStr (js "to")⟩

/-- The socket that joined last under a name, over the events from `s` on. -/
def latest (s : Server) (space device : JsString) : List Event → Option Nat
  | [] => none
  | ev :: evs =>
    (latest (s.step ev) space device evs).or
      (((s.joining ev).filter fun c => c.space = space ∧ c.device = device).map Client.ws)

/-- The signal that the event is, with its sender and the member it finds. -/
def signalling (s : Server) : Event → Option (Client × Client)
  | .message w (some msg) =>
    if s.Live w ∧ msg.getStr (js "t") = js "signal" then
      (s.me w).bind fun c => (s.lookup c.space (msg.getStr (js "to"))).map fun target => (c, target)
    else none
  | _ => none

/-- A signal that finds an open target comes from the connection that joined last
under the name of the sender. -/
def Unreplaced (pre : List Event) (ev : Event) : Prop :=
  ∀ c target, (after pre).signalling ev = some (c, target) →
    (after pre).readyState target.ws = some .opened →
      latest .initial c.space c.device pre = some c.ws

theorem latest_append (s : Server) (sp d : JsString) (evs : List Event) (ev : Event) :
    latest s sp d (evs ++ [ev]) =
      ((((Runs.run step s evs).joining ev).filter fun c => c.space = sp ∧ c.device = d).map
        Client.ws).or (latest s sp d evs) := by
  induction evs generalizing s with
  | nil => simp [latest]
  | cons e evs ih => rw [List.cons_append, latest, ih, latest, Runs.run_cons, Option.or_assoc]

/-! ## The last to join -/

/-- **The member of a name is the connection that joined last under it**, and that
connection is the member as long as the name is its own. -/
structure Held (s : Server) (latest : JsString → JsString → Option Nat) : Prop where
  joined : ∀ {sp d c}, s.lookup sp d = some c → latest sp d = some c.ws
  stays : ∀ {w c}, s.me w = some c → latest c.space c.device = some w →
    s.lookup c.space c.device = some c

theorem Held.step {latest : JsString → JsString → Option Nat} (h : Exact s) (hh : Held s latest)
    (ev : Event) : Held (s.step ev) fun sp d =>
      (((s.joining ev).filter fun c => c.space = sp ∧ c.device = d).map Client.ws).or
        (latest sp d) := by
  rcases h.step_cases ev with
    ⟨c, hj, hlook, hme⟩ | ⟨hj, ⟨hrooms, hme⟩ | ⟨w, hlook, hme⟩ | ⟨hlook, hme⟩⟩
  · rw [hj]
    have hown : ∀ sp d, ((some c).filter fun c => c.space = sp ∧ c.device = d) =
        if sp = c.space ∧ d = c.device then some c else none := by
      intro sp d
      by_cases hn : c.space = sp ∧ c.device = d
      · rw [if_pos ⟨hn.1.symm, hn.2.symm⟩]
        simp [Option.filter, hn]
      · rw [if_neg fun hh => hn ⟨hh.1.symm, hh.2.symm⟩]
        simp only [Option.filter, decide_eq_true_eq, if_neg hn]
    refine ⟨fun {sp d o} ho => ?_, fun {v o} ho hl => ?_⟩
    · rw [hlook] at ho
      simp only [hown]
      split at ho
      · rw [if_pos ‹_›, ho]
        rfl
      · rw [if_neg ‹_›]
        exact hh.joined ho.1
    · rw [hlook]
      rw [hme] at ho
      simp only [hown] at hl
      split at hl
      · rw [if_pos ‹_›]
        have hv : c.ws = v := Option.some.inj hl
        rw [if_pos hv.symm] at ho
        exact (Option.some.inj ho).symm
      · rename_i hne
        rw [if_neg hne]
        have hv : v ≠ c.ws := by
          rintro rfl
          rw [if_pos rfl] at ho
          exact hne (by rw [← Option.some.inj ho]; exact ⟨rfl, rfl⟩)
        rw [if_neg hv] at ho
        have hv' := h.mine ho
        exact ⟨hh.stays ho hl, fun hw => hv (hv'.symm.trans hw)⟩
  · have hlook : ∀ sp d, (s.step ev).lookup sp d = s.lookup sp d := fun sp d => by
      unfold lookup
      rw [hrooms]
    rw [hj]
    refine ⟨fun ho => ?_, fun ho hl => ?_⟩
    · rw [hlook] at ho
      exact hh.joined ho
    · rw [hlook]
      rw [hme] at ho
      exact hh.stays ho hl
  · rw [hj]
    refine ⟨fun ho => hh.joined ((hlook _ _ _).1 ho).1, fun {v o} ho hl => ?_⟩
    rw [hme] at ho
    split at ho
    · cases ho
    · rename_i hv
      exact (hlook _ _ _).2 ⟨hh.stays ho hl, fun hw => hv ((h.mine ho).symm.trans hw)⟩
  · refine ⟨fun ho => ?_, fun ho => ?_⟩
    · rw [hlook] at ho
      cases ho
    · rw [hme] at ho
      cases ho

theorem held_after (evs : List Event) :
    Held (after evs) fun sp d => latest .initial sp d evs := by
  induction evs using List.reverseRecOn with
  | nil => exact ⟨nofun, nofun⟩
  | append_singleton evs ev ih =>
    have hstep := ih.step (Exact.after evs) ev
    have hafter : after (evs ++ [ev]) = (after evs).step ev := Runs.run_append
    rw [hafter]
    simp only [latest_append]
    exact hstep

/-! ## What is relayed -/

/-- No signal was sent on the way from `s` to `s'`. -/
def Quiet (s s' : Server) : Prop :=
  ∀ v, ∃ l, s'.inbox v = s.inbox v ++ l ∧ ∀ d data, Reply.signal d data ∉ l

theorem Quiet.of_inbox (h : ∀ v, s'.inbox v = s.inbox v) : Quiet s s' :=
  fun v => ⟨[], by rw [h, List.append_nil], nofun⟩

theorem Quiet.trans {s'' : Server} (h : Quiet s s') (h' : Quiet s' s'') : Quiet s s'' := by
  intro v
  obtain ⟨l, hl, hn⟩ := h v
  obtain ⟨l', hl', hn'⟩ := h' v
  refine ⟨l ++ l', by rw [hl', hl, List.append_assoc], fun d data hm => ?_⟩
  rcases List.mem_append.1 hm with hm | hm
  · exact hn d data hm
  · exact hn' d data hm

theorem Quiet.send (hm : ∀ d data, m ≠ .signal d data) : Quiet s (s.send w m) := by
  intro v
  rw [inbox_send]
  split
  · exact ⟨[m], rfl, fun d data h => hm d data (List.mem_singleton.1 h).symm⟩
  · exact ⟨[], (List.append_nil _).symm, nofun⟩

theorem Quiet.sendAll {cs : List Client} (hm : ∀ d data, m ≠ .signal d data) :
    Quiet s (s.sendAll cs m) := by
  unfold Server.sendAll
  induction cs generalizing s with
  | nil => exact .of_inbox fun _ => rfl
  | cons c cs ih => exact (Quiet.send hm).trans ih

theorem Quiet.leaveMine : Quiet s (s.leaveMine w) := by
  unfold Server.leaveMine
  split
  · rename_i c hm
    by_cases hreg : (s.lookup c.space c.device).map Client.ws = some c.ws
    · obtain ⟨p, hp, hpw⟩ := Option.map_eq_some_iff.1 hreg
      obtain ⟨room, -, hleave⟩ := leave_eq_sendAll hp hpw
      rw [hleave]
      exact Quiet.trans (.of_inbox fun _ => inbox_setRooms _) (.sendAll nofun)
    · rw [leave_eq_self hreg]
      exact .of_inbox fun _ => rfl
  · exact .of_inbox fun _ => rfl

theorem Quiet.enter : Quiet s (s.enter c) := by
  unfold Server.enter Server.admitted
  have hevict : Quiet s (s.evict (s.lookup c.space c.device)) := by
    refine .of_inbox fun v => ?_
    cases s.lookup c.space c.device
    · rfl
    · exact inbox_close
  exact hevict.trans (Quiet.trans (.of_inbox fun _ => inbox_setRooms _)
    ((Quiet.send (m := .peers _) nofun).trans (.sendAll nofun)))

theorem Quiet.join {msg : Json} : Quiet s (s.join w msg) := by
  unfold Server.join
  simp only
  split
  · exact .send nofun
  · exact Quiet.leaveMine.trans ((Quiet.of_inbox fun _ => inbox_setMe _).trans .enter)

theorem Quiet.onClose : Quiet s (s.onClose w) :=
  Quiet.leaveMine.trans (.of_inbox fun _ => inbox_update fun _ => rfl)

theorem Quiet.connection : Quiet s (s.step .connection) := by
  cases hs : s.ended with
  | true =>
    rw [step_connection_of_ended hs]
    exact .of_inbox fun _ => rfl
  | false =>
  refine .of_inbox fun v => ?_
  rw [step_connection hs]
  unfold inbox
  rcases lt_trichotomy v s.sockets.length with hv | rfl | hv
  · rw [List.getElem?_append_left hv]
  · simp
  · rw [List.getElem?_eq_none (by rw [List.length_append, List.length_singleton]; omega),
      List.getElem?_eq_none (by omega)]

theorem signalling_message {msg : Json} : s.signalling (.message w (some msg)) =
    if s.Live w ∧ msg.getStr (js "t") = js "signal" then
      (s.me w).bind fun c => (s.lookup c.space (msg.getStr (js "to"))).map fun target => (c, target)
    else none := rfl

/-- An event sends no signal, or it is one that finds its target. -/
theorem step_signal (s : Server) (ev : Event) : Quiet s (s.step ev) ∧ s.signalling ev = none ∨
    ∃ w msg c target, ev = .message w (some msg) ∧ s.me w = some c ∧
      s.lookup c.space (msg.getStr (js "to")) = some target ∧ s.signalling ev = some (c, target) ∧
        s.step ev = s.send target.ws (.signal c.device (msg.get? (js "data"))) := by
  cases ev with
  | connection => exact .inl ⟨.connection, rfl⟩
  | closing w => exact .inl ⟨.of_inbox fun _ => inbox_close, rfl⟩
  | close w =>
    refine .inl ⟨?_, rfl⟩
    simp only [step]
    split
    · exact .onClose
    · exact .of_inbox fun _ => rfl
  | message w raw =>
    simp only [step]
    by_cases hl : s.Live w
    · rw [if_pos hl]
      cases raw with
      | none => exact .inl ⟨.send fun _ _ h => Reply.noConfusion h, rfl⟩
      | some msg =>
        rw [onMessage_some, signalling_message]
        by_cases hs : msg.getStr (js "t") = js "signal"
        · have hj : msg.getStr (js "t") ≠ js "join" := by
            rw [hs]
            decide
          rw [isNull_eq_false (by rw [hs]; decide), if_neg Bool.false_ne_true, if_neg hj, if_pos hs,
            if_pos ⟨hl, hs⟩]
          unfold signal
          cases hm : s.me w with
          | none => exact .inl ⟨.send fun _ _ h => Reply.noConfusion h, rfl⟩
          | some c =>
            simp only [Option.bind_some]
            cases ht : s.lookup c.space (msg.getStr (js "to")) with
            | none => exact .inl ⟨.of_inbox fun _ => rfl, rfl⟩
            | some target => exact .inr ⟨w, msg, c, target, rfl, hm, ht, rfl, rfl⟩
        · refine .inl ⟨?_, if_neg fun hh => hs hh.2⟩
          simp only [if_neg hs]
          split
          · exact .of_inbox fun _ => inbox_uncaught
          · split
            · exact .join
            · exact .send fun _ _ h => Reply.noConfusion h
    · rw [if_neg hl]
      refine .inl ⟨.of_inbox fun _ => rfl, ?_⟩
      cases raw with
      | none => rfl
      | some msg => rw [signalling_message, if_neg fun hh => hl hh.1]

/-- A signal is relayed exactly when the event is one that finds an open target. -/
theorem relays_iff : s.Relays ev t d ↔ ∃ c target, s.signalling ev = some (c, target) ∧
    d = c.device ∧ t = target.ws ∧ s.readyState t = some .opened := by
  unfold Relays
  rcases s.step_signal ev with ⟨hq, hn⟩ | ⟨w, msg, c, target, -, -, -, hsig, hstep⟩
  · rw [hn]
    obtain ⟨l, hl, hnot⟩ := hq t
    constructor
    · rintro ⟨data, hdata⟩
      rw [hl, List.append_cancel_left_eq] at hdata
      exact absurd (hdata ▸ List.mem_singleton_self _) (hnot d data)
    · rintro ⟨c, target, h, -⟩
      cases h
  · rw [hsig, hstep, inbox_send]
    constructor
    · rintro ⟨data, hdata⟩
      split at hdata
      · rename_i ht
        rw [List.append_cancel_left_eq, List.cons.injEq, Reply.signal.injEq] at hdata
        exact ⟨c, target, rfl, hdata.1.1.symm, ht.1, ht.1 ▸ ht.2⟩
      · exact absurd (congrArg List.length hdata) (by simp)
    · rintro ⟨c', target', h, rfl, rfl, ho⟩
      obtain ⟨rfl, rfl⟩ := Prod.mk.inj (Option.some.inj h)
      exact ⟨_, if_pos ⟨rfl, ho⟩⟩

/-- After any events, the next relays between members only exactly when it is not a
signal of a replaced connection. -/
theorem betweenMembers_iff (pre : List Event) (ev : Event) :
    (after pre).BetweenMembers ev ↔ Unreplaced pre ev := by
  have h := Exact.after pre
  have hh := held_after pre
  unfold BetweenMembers Unreplaced
  simp only [relays_iff]
  generalize after pre = s at h hh
  constructor
  · intro hb c target hsig ho
    obtain ⟨w, msg, space, rfl, hmem, -⟩ := hb _ _ ⟨c, target, hsig, rfl, rfl, ho⟩
    -- the member under the sender's name is the sending socket, so its client is `c`
    have hw : s.me w = some ⟨w, space, c.device⟩ := (h.entry hmem).2.2.1
    rcases s.step_signal (.message w (some msg)) with ⟨-, hn⟩ | ⟨w', msg', c', t', he, hm, -, hs, -⟩
    · rw [hn] at hsig
      cases hsig
    · obtain ⟨rfl, -⟩ := Event.message.inj he
      rw [hsig] at hs
      obtain ⟨rfl, -⟩ := Prod.mk.inj (Option.some.inj hs)
      rw [hw] at hm
      have hspace : space = c.space := congrArg Client.space (Option.some.inj hm)
      have hws : w = c.ws := congrArg Client.ws (Option.some.inj hm)
      rw [← hspace, ← hws]
      exact hh.joined hmem
  · rintro hu t d ⟨c, target, hsig, rfl, rfl, ho⟩
    have hlast := hu c target hsig ho
    rcases s.step_signal ev with ⟨-, hn⟩ | ⟨w, msg, c', target', rfl, hm, ht, hs, -⟩
    · rw [hn] at hsig
      cases hsig
    · rw [hsig] at hs
      obtain ⟨rfl, rfl⟩ := Prod.mk.inj (Option.some.inj hs)
      obtain rfl := h.mine hm
      obtain ⟨h1, h2, -⟩ := h.entry ht
      refine ⟨_, msg, c.space, rfl, hh.stays hm hlast, ?_⟩
      rw [ht, ← h1, ← h2]

/-- **Signals are relayed between current members only, exactly in the runs in
which no replaced connection signals**: whenever a signal finds an open target,
its connection is the last that joined under the sender's space and device. -/
theorem relay_between_members_iff (evs : List Event) :
    (∀ pre ev post, evs = pre ++ ev :: post → (after pre).BetweenMembers ev) ↔
      ∀ pre ev post, evs = pre ++ ev :: post → Unreplaced pre ev := by
  simp only [betweenMembers_iff]

/-- Socket 2 has taken the name `d` from socket 0, which is closing and still sends
a signal in that name. -/
theorem replaced_still_sends :
    (after takeover).lookup (js "home") (js "d") = some ⟨2, js "home", js "d"⟩ ∧
    (after takeover).Relays (.message 0 (clientMessage [("t", "signal"), ("to", "c")])) 1 (js "d") ∧
    ¬ (after takeover).BetweenMembers (.message 0 (clientMessage [("t", "signal"), ("to", "c")])) := by
  have hlook : (after takeover).lookup (js "home") (js "d") = some ⟨2, js "home", js "d"⟩ := by
    decide +kernel
  have hme : (after takeover).me 0 = some ⟨0, js "home", js "d"⟩ := by decide +kernel
  have hrelay : (after takeover).Relays
      (.message 0 (clientMessage [("t", "signal"), ("to", "c")])) 1 (js "d") :=
    relays_iff.2 ⟨⟨0, js "home", js "d"⟩, ⟨1, js "home", js "c"⟩, by decide +kernel, rfl, rfl,
      by decide +kernel⟩
  refine ⟨hlook, hrelay, fun hb => ?_⟩
  obtain ⟨w, msg, space, he, hmem, -⟩ := hb 1 (js "d") hrelay
  obtain ⟨rfl, -⟩ := Event.message.inj he
  have hw : (after takeover).me 0 = some ⟨0, space, js "d"⟩ := ((Exact.after takeover).entry hmem).2.2.1
  rw [hme] at hw
  obtain rfl : js "home" = space := congrArg Client.space (Option.some.inj hw)
  rw [hlook] at hmem
  cases hmem

end Server

end TangentFeed.Signaling
