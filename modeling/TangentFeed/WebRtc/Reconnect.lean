import Mathlib.Data.List.Chain
import TangentFeed.WebRtc.Moves

/-!
# The signaling side of the transport

The transport seen as a machine of its own: the states of its sockets, the timers
of the next attempts and what it reports. All its sockets but the last are closed;
it has the last one, or one timer, until it is closed or evicted. `close()` leaves
a socket behind only where it is called as the socket is about to be made.
-/

namespace TangentFeed.WebRtc

open WebRTCTransport (firstBackoffMs maxBackoffMs)

/-- What the signaling side of a transport is. -/
structure Line where
  sockets : List ReadyState
  ws : Option Nat
  closed : Bool
  backoff : Nat
  timers : List Nat
  reports : List SignalingState

namespace Line

/-- What can happen to it. -/
inductive Move (l : Line) : Line → Prop where
  | opened {i : Nat} (hi : l.sockets[i]? = some .connecting) :
      Move l { l with
        sockets := l.sockets.set i .opened, backoff := firstBackoffMs
        reports := l.reports ++ [.connected] }
  | closing (i : Nat) : Move l { l with sockets := l.sockets.modify i ReadyState.ending }
  /-- A socket closes after `close()`. -/
  | released {i : Nat} {r : ReadyState} (hi : l.sockets[i]? = some r) (hr : r ≠ .closed)
      (hc : l.closed = true) : Move l { l with sockets := l.sockets.set i .closed }
  | evicted {i : Nat} {r : ReadyState} (hi : l.sockets[i]? = some r) (hr : r ≠ .closed)
      (hc : l.closed = false) :
      Move l { l with
        sockets := l.sockets.set i .closed, reports := l.reports ++ [.conflict] }
  | disconnected {i : Nat} {r : ReadyState} (hi : l.sockets[i]? = some r) (hr : r ≠ .closed)
      (hc : l.closed = false) :
      Move l { l with
        sockets := l.sockets.set i .closed, reports := l.reports ++ [.disconnected]
        timers := l.timers ++ [l.backoff], backoff := min (l.backoff * 2) maxBackoffMs }
  /-- A timer fires after `close()`. -/
  | idle {n : Nat} (hn : n < l.timers.length) (hc : l.closed = true) :
      Move l { l with timers := l.timers.eraseIdx n }
  | retry {n : Nat} (hn : n < l.timers.length) (hc : l.closed = false) :
      Move l { l with
        timers := l.timers.eraseIdx n, sockets := l.sockets ++ [.connecting]
        ws := some l.sockets.length, reports := l.reports ++ [.connecting] }
  /-- The same, but `close()` is called as it is reported. -/
  | orphan {n : Nat} (hn : n < l.timers.length) (hc : l.closed = false) :
      Move l { l with
        timers := l.timers.eraseIdx n, closed := true
        sockets := (l.ws.elim l.sockets fun i => l.sockets.modify i ReadyState.ending) ++
          [.connecting]
        ws := some l.sockets.length, reports := l.reports ++ [.connecting] }
  | close :
      Move l { l with
        closed := true, ws := none
        sockets := l.ws.elim l.sockets fun i => l.sockets.modify i ReadyState.ending }

/-! ## Reports -/

/-- What is reported next. -/
def Follows : SignalingState → SignalingState → Prop
  | .connecting, r => r ≠ .connecting
  | .connected, r => r = .disconnected ∨ r = .conflict
  | .disconnected, r => r = .connecting
  | .conflict, _ => False

/-- The delay after `n` attempts that failed. -/
def delay (n : Nat) : Nat := min (firstBackoffMs * 2 ^ n) maxBackoffMs

def countFailure (n : Nat) : SignalingState → Nat
  | .connected => 0
  | .disconnected => n + 1
  | .connecting | .conflict => n

/-- The connections lost since one was last open. -/
def failures (reports : List SignalingState) : Nat := reports.foldl countFailure 0

theorem failures_append (reports : List SignalingState) (r : SignalingState) :
    failures (reports ++ [r]) = countFailure (failures reports) r := by
  unfold failures
  rw [List.foldl_append]
  rfl

theorem delay_succ (n : Nat) : min (delay n * 2) maxBackoffMs = delay (n + 1) := by
  unfold delay
  rw [pow_succ, ← Nat.mul_assoc]
  omega

/-! ## The invariant -/

/-- The last report, in the state of the last socket. -/
def Fits : ReadyState → SignalingState → Prop
  | .connecting, x => x = .connecting
  | .opened, x => x = .connected
  | .closing, x => x = .connecting ∨ x = .connected
  | .closed, x => x = .disconnected ∨ x = .conflict

/-- `m` sockets are closed, and the last is in state `r`. -/
structure At (l : Line) (m : Nat) (r : ReadyState) : Prop where
  sockets : l.sockets = List.replicate m .closed ++ [r]
  ws : l.closed = false → l.ws = some m
  shut : l.closed = true → l.ws = none ∧ (r = .closing ∨ r = .closed) ∨ l.ws = some m
  timers : l.timers.length ≤ 1
  live : r ≠ .closed → l.timers = []
  last : l.closed = false ∨ l.ws = some m ∧ r ≠ .closed → ∃ x ∈ l.reports.getLast?, Fits r x
  going : l.closed = false → r = .closed → .conflict ∉ l.reports → l.timers ≠ []
  conflict : .conflict ∈ l.reports → r = .closed ∧ l.timers = []
  chain : l.reports.IsChain Follows
  started : l.reports.count .connecting = m + 1
  backoff : l.backoff = delay (failures l.reports)
  delays : ∀ d ∈ l.timers, ∃ n, failures l.reports = n + 1 ∧ d = delay n

variable {l l' : Line} {m i n : Nat} {r x : ReadyState}

theorem At.of_live (h : l.At m r) (hi : l.sockets[i]? = some x) (hx : x ≠ .closed) :
    i = m ∧ x = r := by
  rw [h.sockets, List.getElem?_append, List.length_replicate] at hi
  split at hi
  · rw [List.getElem?_replicate, if_pos ‹_›] at hi
    exact absurd (Option.some.inj hi).symm hx
  · rename_i hle
    rw [List.getElem?_singleton] at hi
    split at hi
    · exact ⟨by omega, (Option.some.inj hi).symm⟩
    · cases hi

theorem At.set_last (h : l.At m r) (x : ReadyState) :
    l.sockets.set m x = List.replicate m .closed ++ [x] := by
  rw [h.sockets, List.set_append_right _ _ (by rw [List.length_replicate]), List.length_replicate,
    Nat.sub_self]
  rfl

/-- A socket that is closed is not ended again. -/
theorem At.modify_ending (h : l.At m r) (i : Nat) : l.sockets.modify i ReadyState.ending =
    List.replicate m .closed ++ [if i = m then r.ending else r] := by
  rw [h.sockets]
  clear h
  induction m generalizing i with
  | zero => cases i <;> simp
  | succ m ih =>
    cases i with
    | zero => rfl
    | succ i =>
      simp only [List.replicate_succ, List.cons_append, List.modify_succ_cons, ih,
        Nat.add_right_cancel_iff]

theorem At.append_report (h : l.At m r) (hc : l.closed = false ∨ l.ws = some m ∧ r ≠ .closed)
    {y : SignalingState} (hy : ∀ x, Fits r x → Follows x y) : (l.reports ++ [y]).IsChain Follows := by
  refine List.isChain_append.2 ⟨h.chain, .singleton _, fun x hx z hz => ?_⟩
  obtain ⟨w, hw, hfit⟩ := h.last hc
  obtain rfl := Option.mem_unique hx hw
  obtain rfl : y = z := Option.some.inj hz
  exact hy _ hfit

/-- A live socket reports nothing final. -/
theorem At.not_conflict (h : l.At m r) (hr : r ≠ .closed) : .conflict ∉ l.reports :=
  fun hc => hr (h.conflict hc).1

/-- No timer is set but where the last report is a disconnection. -/
theorem At.of_timer (h : l.At m r) (ht : l.timers ≠ []) : r = .closed ∧ .conflict ∉ l.reports :=
  ⟨by_contra fun hr => ht (h.live hr), fun hc => ht (h.conflict hc).2⟩

theorem At.eraseIdx (h : l.At m r) (hn : n < l.timers.length) : l.timers.eraseIdx n = [] := by
  rw [← List.length_eq_zero_iff, List.length_eraseIdx, if_pos hn]
  have := h.timers
  omega

theorem Fits.follows_of_live (hr : r ≠ .closed) {x : SignalingState} (h : Fits r x)
    {y : SignalingState} (hy : y = .disconnected ∨ y = .conflict) : Follows x y := by
  have hx : x = .connecting ∨ x = .connected := by
    cases r with
    | connecting => exact .inl h
    | opened => exact .inr h
    | closing => exact h
    | closed => exact absurd rfl hr
  rcases hx with rfl | rfl
  · rcases hy with rfl | rfl <;> exact SignalingState.noConfusion
  · exact hy

theorem At.opened (h : l.At m .connecting) :
    ({ l with
      sockets := l.sockets.set m .opened, backoff := firstBackoffMs
      reports := l.reports ++ [.connected] } : Line).At m .opened := by
  have hws : l.ws = some m := by
    cases hc : l.closed with
    | false => exact h.ws hc
    | true =>
      rcases h.shut hc with ⟨-, hr⟩ | hws
      · rcases hr with hr | hr <;> cases hr
      · exact hws
  exact {
    sockets := h.set_last _
    ws := fun _ => hws
    shut := fun _ => .inr hws
    timers := h.timers
    live := fun _ => h.live ReadyState.noConfusion
    last := fun _ => ⟨.connected, List.getLast?_concat, rfl⟩
    going := fun _ => ReadyState.noConfusion
    conflict := fun hm => by
      rcases List.mem_append.1 hm with hm | hm
      · exact absurd hm (h.not_conflict ReadyState.noConfusion)
      · cases List.mem_singleton.1 hm
    chain := h.append_report (.inr ⟨hws, ReadyState.noConfusion⟩) fun x hx => by
      rw [show x = .connecting from hx]
      exact SignalingState.noConfusion
    started := by rw [List.count_append, h.started]; rfl
    backoff := by rw [failures_append]; rfl
    delays := fun d hd => by
      rw [h.live ReadyState.noConfusion] at hd
      cases hd }

theorem At.closing (h : l.At m r) (i : Nat) :
    ({ l with sockets := l.sockets.modify i ReadyState.ending } : Line).At m
      (if i = m then r.ending else r) where
  sockets := h.modify_ending i
  ws := h.ws
  shut hs := by
    obtain ⟨hws, rfl | rfl⟩ | hws := h.shut hs
    · exact .inl ⟨hws, .inl (ite_self _)⟩
    · exact .inl ⟨hws, .inr (ite_self _)⟩
    · exact .inr hws
  timers := h.timers
  live hr := h.live fun hc => hr (by rw [hc]; exact ite_self _)
  last hc := by
    obtain ⟨x, hx, hfit⟩ :=
      h.last (hc.imp id fun hw => ⟨hw.1, fun hr => hw.2 (by rw [hr]; exact ite_self _)⟩)
    refine ⟨x, hx, ?_⟩
    split
    · cases r with
      | connecting => exact .inl hfit
      | opened => exact .inr hfit
      | closing => exact hfit
      | closed => exact hfit
    · exact hfit
  going hc hr := by
    refine h.going hc ?_
    cases r with
    | closed => rfl
    | connecting | opened | closing => split at hr <;> cases hr
  conflict hm := by
    obtain ⟨rfl, ht⟩ := h.conflict hm
    exact ⟨ite_self _, ht⟩
  chain := h.chain
  started := h.started
  backoff := h.backoff
  delays := h.delays

theorem At.released (h : l.At m r) (hr : r ≠ .closed) (hc : l.closed = true) :
    ({ l with sockets := l.sockets.set m .closed } : Line).At m .closed where
  sockets := h.set_last _
  ws := h.ws
  shut _ := (h.shut hc).imp (fun hw => ⟨hw.1, .inr rfl⟩) id
  timers := h.timers
  live hr := absurd rfl hr
  last hs := by
    rcases hs with hs | hs
    · exact absurd (hs.symm.trans hc) Bool.false_ne_true
    · exact absurd rfl hs.2
  going hs := absurd (hs.symm.trans hc) Bool.false_ne_true
  conflict hm := absurd hm (h.not_conflict hr)
  chain := h.chain
  started := h.started
  backoff := h.backoff
  delays := h.delays

theorem At.evicted (h : l.At m r) (hr : r ≠ .closed) (hc : l.closed = false) :
    ({ l with sockets := l.sockets.set m .closed, reports := l.reports ++ [.conflict] } : Line).At m
      .closed where
  sockets := h.set_last _
  ws := h.ws
  shut hs := absurd (hc.symm.trans hs) Bool.false_ne_true
  timers := h.timers
  live hr := absurd rfl hr
  last _ := ⟨.conflict, List.getLast?_concat, .inr rfl⟩
  going _ _ hm := absurd (List.mem_append_right _ (List.mem_singleton.2 rfl)) hm
  conflict _ := ⟨rfl, h.live hr⟩
  chain := h.append_report (.inl hc) fun _ hx => hx.follows_of_live hr (.inr rfl)
  started := by rw [List.count_append, h.started]; rfl
  backoff := by rw [failures_append]; exact h.backoff
  delays d hd := by
    rw [h.live hr] at hd
    cases hd

theorem At.disconnected (h : l.At m r) (hr : r ≠ .closed) (hc : l.closed = false) :
    ({ l with
      sockets := l.sockets.set m .closed, reports := l.reports ++ [.disconnected]
      timers := l.timers ++ [l.backoff], backoff := min (l.backoff * 2) maxBackoffMs } : Line).At m
      .closed where
  sockets := h.set_last _
  ws := h.ws
  shut hs := absurd (hc.symm.trans hs) Bool.false_ne_true
  timers := by rw [h.live hr]; exact Nat.le_refl 1
  live hr := absurd rfl hr
  last _ := ⟨.disconnected, List.getLast?_concat, .inl rfl⟩
  going _ _ _ := List.append_ne_nil_of_right_ne_nil _ (List.cons_ne_nil _ _)
  conflict hm := by
    rcases List.mem_append.1 hm with hm | hm
    · exact absurd hm (h.not_conflict hr)
    · cases List.mem_singleton.1 hm
  chain := h.append_report (.inl hc) fun _ hx => hx.follows_of_live hr (.inl rfl)
  started := by rw [List.count_append, h.started]; rfl
  backoff := by
    rw [failures_append, h.backoff]
    exact delay_succ _
  delays d hd := by
    rw [h.live hr] at hd
    obtain rfl := List.mem_singleton.1 hd
    exact ⟨failures l.reports, failures_append _ _, h.backoff⟩

theorem At.idle (h : l.At m r) (hn : n < l.timers.length) (hc : l.closed = true) :
    ({ l with timers := l.timers.eraseIdx n } : Line).At m r where
  sockets := h.sockets
  ws := h.ws
  shut := h.shut
  timers := by rw [h.eraseIdx hn]; exact Nat.zero_le 1
  live _ := h.eraseIdx hn
  last := h.last
  going hs := absurd (hs.symm.trans hc) Bool.false_ne_true
  conflict hm := ⟨(h.conflict hm).1, h.eraseIdx hn⟩
  chain := h.chain
  started := h.started
  backoff := h.backoff
  delays d hd := by
    rw [h.eraseIdx hn] at hd
    cases hd

theorem At.retry (h : l.At m r) (hn : n < l.timers.length) (hc : l.closed = false) :
    ({ l with
      timers := l.timers.eraseIdx n, sockets := l.sockets ++ [.connecting]
      ws := some l.sockets.length, reports := l.reports ++ [.connecting] } : Line).At (m + 1)
      .connecting := by
  obtain ⟨rfl, hnot⟩ := h.of_timer (List.ne_nil_of_length_pos (Nat.zero_lt_of_lt hn))
  have hlast : .disconnected ∈ l.reports.getLast? := by
    obtain ⟨x, hx, rfl | rfl⟩ := h.last (.inl hc)
    · exact hx
    · exact absurd (List.mem_of_getLast? hx) hnot
  have hsockets : l.sockets = List.replicate (m + 1) .closed := by
    rw [h.sockets, List.replicate_succ']
  exact {
    sockets := by rw [hsockets]
    ws := fun _ => by rw [hsockets, List.length_replicate]
    shut := fun hs => absurd (hc.symm.trans hs) Bool.false_ne_true
    timers := by rw [h.eraseIdx hn]; exact Nat.zero_le 1
    live := fun _ => h.eraseIdx hn
    last := fun _ => ⟨.connecting, List.getLast?_concat, rfl⟩
    going := fun _ => ReadyState.noConfusion
    conflict := fun hm => by
      rcases List.mem_append.1 hm with hm | hm
      · exact absurd hm hnot
      · cases List.mem_singleton.1 hm
    chain := by
      refine List.isChain_append.2 ⟨h.chain, .singleton _, fun x hx z hz => ?_⟩
      obtain rfl := Option.mem_unique hx hlast
      exact (Option.some.inj hz).symm
    started := by rw [List.count_append, h.started]; rfl
    backoff := by rw [failures_append]; exact h.backoff
    delays := fun d hd => by
      rw [h.eraseIdx hn] at hd
      cases hd }

theorem At.orphan (h : l.At m r) (hn : n < l.timers.length) (hc : l.closed = false) :
    ({ l with
      timers := l.timers.eraseIdx n, closed := true
      sockets := (l.ws.elim l.sockets fun i => l.sockets.modify i ReadyState.ending) ++
        [.connecting]
      ws := some l.sockets.length, reports := l.reports ++ [.connecting] } : Line).At (m + 1)
      .connecting := by
  have hretry := h.retry hn hc
  obtain ⟨rfl, -⟩ := h.of_timer (List.ne_nil_of_length_pos (Nat.zero_lt_of_lt hn))
  -- the socket that `close()` finds is closed
  have hsame : l.ws.elim l.sockets (fun i => l.sockets.modify i ReadyState.ending) = l.sockets := by
    rw [h.ws hc, Option.elim_some, h.modify_ending, h.sockets, if_pos rfl]
    rfl
  rw [hsame]
  exact {
    sockets := hretry.sockets
    ws := Bool.noConfusion
    shut := fun _ => .inr (hretry.ws hc)
    timers := hretry.timers
    live := hretry.live
    last := fun _ => hretry.last (.inl hc)
    going := Bool.noConfusion
    conflict := hretry.conflict
    chain := hretry.chain
    started := hretry.started
    backoff := hretry.backoff
    delays := hretry.delays }

theorem At.close (h : l.At m r) :
    ∃ r', ({ l with
      closed := true, ws := none
      sockets := l.ws.elim l.sockets fun i => l.sockets.modify i ReadyState.ending } : Line).At m
      r' := by
  have hown (hws : l.ws = some m) : ∃ r',
      l.ws.elim l.sockets (fun i => l.sockets.modify i ReadyState.ending) =
        List.replicate m .closed ++ [r'] ∧ (r' = .closing ∨ r' = .closed) ∧
          (r' = .closed ↔ r = .closed) := by
    rw [hws]
    refine ⟨r.ending, ?_, ?_⟩
    · have hmod := h.modify_ending m
      rwa [if_pos rfl] at hmod
    · cases r <;> decide
  have hend : ∃ r', l.ws.elim l.sockets (fun i => l.sockets.modify i ReadyState.ending) =
      List.replicate m .closed ++ [r'] ∧ (r' = .closing ∨ r' = .closed) ∧ (r' = .closed ↔ r = .closed) := by
    cases hc : l.closed with
    | false => exact hown (h.ws hc)
    | true =>
      rcases h.shut hc with ⟨hws, hr⟩ | hws
      · rw [hws]
        exact ⟨r, h.sockets, hr, Iff.rfl⟩
      · exact hown hws
  obtain ⟨r', hsockets, hr', hiff⟩ := hend
  exact ⟨r', {
    sockets := hsockets
    ws := Bool.noConfusion
    shut := fun _ => .inl ⟨rfl, hr'⟩
    timers := h.timers
    live := fun hr => h.live (mt hiff.2 hr)
    last := fun hs => by
      rcases hs with hs | hs
      · cases hs
      · cases hs.1
    going := Bool.noConfusion
    conflict := fun hm => ⟨hiff.2 (h.conflict hm).1, (h.conflict hm).2⟩
    chain := h.chain
    started := h.started
    backoff := h.backoff
    delays := h.delays }⟩

/-- **Step lemma.** -/
theorem At.move (h : l.At m r) (hm : l.Move l') : ∃ m' r', l'.At m' r' := by
  cases hm with
  | opened hi =>
    obtain ⟨rfl, rfl⟩ := h.of_live hi ReadyState.noConfusion
    exact ⟨_, _, h.opened⟩
  | closing i => exact ⟨_, _, h.closing i⟩
  | released hi hr hc =>
    obtain ⟨rfl, rfl⟩ := h.of_live hi hr
    exact ⟨_, _, h.released hr hc⟩
  | evicted hi hr hc =>
    obtain ⟨rfl, rfl⟩ := h.of_live hi hr
    exact ⟨_, _, h.evicted hr hc⟩
  | disconnected hi hr hc =>
    obtain ⟨rfl, rfl⟩ := h.of_live hi hr
    exact ⟨_, _, h.disconnected hr hc⟩
  | idle hn hc => exact ⟨_, _, h.idle hn hc⟩
  | retry hn hc => exact ⟨_, _, h.retry hn hc⟩
  | orphan hn hc => exact ⟨_, _, h.orphan hn hc⟩
  | close => exact ⟨_, h.close⟩

/-- Nothing is attempted any more. -/
def Over (l : Line) : Prop := l.closed = true ∨ .conflict ∈ l.reports

theorem At.over (h : l.At m r) (ho : l.Over) (hm : l.Move l') :
    l'.Over ∧ l'.sockets.length = l.sockets.length := by
  have hreport (y : SignalingState) : l.closed = true ∨ .conflict ∈ l.reports ++ [y] :=
    ho.imp id (List.mem_append_left _)
  cases hm with
  | opened hi => exact ⟨hreport _, List.length_set⟩
  | closing i => exact ⟨ho, List.length_modify _ _ _⟩
  | released hi hr hc => exact ⟨ho, List.length_set⟩
  | evicted hi hr hc => exact ⟨hreport _, List.length_set⟩
  | disconnected hi hr hc => exact ⟨hreport _, List.length_set⟩
  | idle hn hc => exact ⟨ho, rfl⟩
  | retry hn hc | orphan hn hc =>
    -- the timer is of a line that goes on
    have ht := h.of_timer (List.ne_nil_of_length_pos (Nat.zero_lt_of_lt hn))
    rcases ho with hs | hs
    · exact absurd (hc.symm.trans hs) Bool.false_ne_true
    · exact absurd hs ht.2
  | close =>
    refine ⟨.inl rfl, ?_⟩
    cases l.ws with
    | none => rfl
    | some i => exact List.length_modify _ _ _

end Line

namespace WebRTCTransport

/-! ## The line of a transport -/

variable {s s' : WebRTCTransport} {a : Action} {k c : Nat} {id : JsString}

def line (s : WebRTCTransport) : Line where
  sockets := s.sockets.map ClientSocket.readyState
  ws := s.ws
  closed := s.closed
  backoff := s.backoff
  timers := s.timers
  reports := s.reports

theorem getElem?_line {i : Nat} : s.line.sockets[i]? = s.readyState i := List.getElem?_map

theorem map_modify_readyState {sockets : List ClientSocket} {i : Nat} {f : ClientSocket → ClientSocket}
    {g : ReadyState → ReadyState} (h : ∀ ws, (f ws).readyState = g ws.readyState) :
    (sockets.modify i f).map ClientSocket.readyState =
      (sockets.map ClientSocket.readyState).modify i g := by
  refine List.ext_getElem? fun j => ?_
  simp only [List.getElem?_map, List.getElem?_modify]
  cases sockets[j]? with
  | none => rfl
  | some ws =>
    simp only [Option.map_eq_map, Option.map_some, Option.some.injEq]
    split
    · exact h ws
    · rfl

@[simp] theorem line_sigSend {msg : Json} : (s.sigSend msg).line = s.line := by
  unfold sigSend
  split
  · rfl
  · unfold line onSocket
    dsimp only
    rw [map_modify_readyState (g := fun r => r) fun ws => by split <;> rfl]
    congr 1
    exact List.modify_id _ _

@[simp] theorem line_dropPeer : (s.dropPeer id).line = s.line := by
  unfold dropPeer closeChannelOf
  split
  · rfl
  · split <;> rfl

@[simp] theorem line_newChannel : (s.newChannel k id).line = s.line := by
  unfold newChannel attachChannel
  split <;> rfl

theorem line_foldl_dropPeer (ids : List JsString) : (ids.foldl dropPeer s).line = s.line := by
  induction ids generalizing s with
  | nil => rfl
  | cons id ids ih => rw [List.foldl_cons, ih, line_dropPeer]

theorem map_set_readyState (i : Nat) (r : ReadyState) :
    (s.sockets.modify i fun ws => { ws with readyState := r }).map ClientSocket.readyState =
      s.line.sockets.set i r := by
  rw [List.set_eq_modify, map_modify_readyState (g := fun _ => r) fun _ => rfl]
  rfl

theorem line_close : s.close.line = { s.line with
    closed := true, ws := none
    sockets := s.line.ws.elim s.line.sockets fun i => s.line.sockets.modify i ReadyState.ending } := by
  have hline := line_foldl_dropPeer (s := { s with closed := true }) s.peers.keys
  unfold WebRTCTransport.close
  dsimp only
  generalize s.peers.keys.foldl dropPeer { s with closed := true } = t at hline ⊢
  have hws : t.ws = s.ws := congrArg Line.ws hline
  have hsockets : t.sockets.map ClientSocket.readyState = s.line.sockets :=
    congrArg Line.sockets hline
  have hclosed : t.closed = true := congrArg Line.closed hline
  have hbackoff : t.backoff = s.line.backoff := congrArg Line.backoff hline
  have htimers : t.timers = s.line.timers := congrArg Line.timers hline
  have hreports : t.reports = s.line.reports := congrArg Line.reports hline
  rw [show s.line.ws = t.ws from hws.symm, ← hsockets, ← hbackoff, ← htimers, ← hreports, ← hclosed]
  cases t.ws with
  | none => rfl
  | some i =>
    rw [Option.elim_some,
      ← map_modify_readyState (f := fun ws => { ws with readyState := ws.readyState.ending })
        fun _ => rfl]
    rfl

theorem length_ended (l : Line) :
    (l.ws.elim l.sockets fun i => l.sockets.modify i ReadyState.ending).length =
      l.sockets.length := by
  cases l.ws with
  | none => rfl
  | some i => exact List.length_modify _ _ _

theorem line_report {r : SignalingState} :
    (s.report r).line = { s.line with reports := s.line.reports ++ [r] } := rfl

theorem line_newSocket : s.newSocket.line = { s.line with
    sockets := s.line.sockets ++ [.connecting], ws := some s.line.sockets.length } := by
  unfold newSocket line
  simp only [List.map_append, List.map_cons, List.map_nil, List.length_map]

theorem at_new {space deviceId : JsString} : (new space deviceId).line.At 0 .connecting where
  sockets := rfl
  ws _ := rfl
  shut := Bool.noConfusion
  timers := Nat.zero_le 1
  live _ := rfl
  last _ := ⟨.connecting, rfl, rfl⟩
  going _ := ReadyState.noConfusion
  conflict hm := SignalingState.noConfusion (List.mem_singleton.1 hm)
  chain := .singleton _
  started := rfl
  backoff := rfl
  delays d hd := by cases hd

/-- **The signaling side of the transport is a `Line`.** -/
theorem Move.line (h : Move a s s') : s'.line = s.line ∨ s.line.Move s'.line := by
  cases h with
  | aside => exact .inl rfl
  | say h => exact .inl line_sigSend
  | touch h => exact .inl rfl
  | use h => exact .inl rfl
  | goOn h => exact .inl rfl
  | begin made ha => exact .inl rfl
  | addPeer hi h => exact .inl rfl
  | newChannel hk hp => exact .inl line_newChannel
  | dropPeer id => exact .inl line_dropPeer
  | @opened i hi =>
    have hm := Line.Move.opened (l := s.line) (getElem?_line.trans hi)
    rw [← map_set_readyState] at hm
    exact .inr hm
  | closing i =>
    have hm := Line.Move.closing (l := s.line) i
    unfold WebRTCTransport.line at hm
    dsimp only at hm
    rw [← map_modify_readyState (f := fun ws => { ws with readyState := ws.readyState.ending })
      fun _ => rfl] at hm
    exact .inr hm
  | @closed i r code hi hr =>
    right
    have hi : s.line.sockets[i]? = some r := getElem?_line.trans hi
    unfold onClose
    split
    · have hm := Line.Move.released hi hr ‹_›
      rwa [← map_set_readyState] at hm
    · rename_i hopen
      split
      · have hm := Line.Move.evicted hi hr (Bool.eq_false_iff.2 hopen)
        rwa [← map_set_readyState] at hm
      · have hm := Line.Move.disconnected hi hr (Bool.eq_false_iff.2 hopen)
        rwa [← map_set_readyState] at hm
  | @timer n closes ha hn =>
    have htimers : ({ s with timers := s.timers.eraseIdx n } : WebRTCTransport).line =
        { s.line with timers := s.line.timers.eraseIdx n } := rfl
    generalize ({ s with timers := s.timers.eraseIdx n } : WebRTCTransport) = t at htimers ⊢
    have hclosed : t.closed = s.line.closed := congrArg Line.closed htimers
    right
    cases hc : s.line.closed with
    | true =>
      rw [connectSignaling_of_closed (hclosed.trans hc), htimers]
      exact .idle hn hc
    | false =>
      cases closes with
      | false =>
        rw [connectSignaling_false (hclosed.trans hc), line_newSocket, line_report, htimers]
        exact .retry hn hc
      | true =>
        rw [connectSignaling_true (hclosed.trans hc), line_newSocket, line_close, length_ended,
          line_report, htimers]
        exact .orphan hn hc
  | close => exact .inr (line_close ▸ .close)

/-- **Step lemma.** -/
theorem Move.keeps_at (hm : Move a s s') (h : ∃ m r, s.line.At m r) : ∃ m r, s'.line.At m r := by
  obtain ⟨m, r, h⟩ := h
  rcases hm.line with hline | hline
  · exact ⟨m, r, hline ▸ h⟩
  · exact h.move hline

/-- `onSignalingState`, told of `connecting`, does not call `close()`. -/
def Unclosing (a : Action) : Prop := ∀ n, a ≠ .timer n true

/-- A transport that is closed has no socket. -/
def Released (s : WebRTCTransport) : Prop := s.closed = true → s.ws = none

theorem Released.of_line (h : s.Released) (hline : s'.line = s.line) : s'.Released := by
  unfold Released
  rw [show s'.closed = s.closed from congrArg Line.closed hline,
    show s'.ws = s.ws from congrArg Line.ws hline]
  exact h

theorem Released.move (h : s.Released) (hm : Move a s s') (ha : Unclosing a) : s'.Released := by
  cases hm with
  | aside | touch | use | goOn | begin | addPeer | closing | opened => exact h
  | say => exact h.of_line line_sigSend
  | newChannel => exact h.of_line line_newChannel
  | dropPeer => exact h.of_line line_dropPeer
  | closed =>
    unfold onClose
    split
    · exact h
    · split <;> exact h
  | @timer n closes hn =>
    cases closes with
    | true => exact absurd hn (ha n)
    | false =>
      unfold connectSignaling
      split
      · exact h
      · exact fun hc => absurd hc ‹_›
  | close => exact fun _ => congrArg Line.ws (line_close (s := s))

/-- A socket of a transport that is closed is closing or closed. -/
theorem Released.not_open (h : s.Released) {m : Nat} {r : ReadyState} (hat : s.line.At m r)
    (hc : s.closed = true) : ∀ ws ∈ s.sockets, ws.readyState = .closing ∨ ws.readyState = .closed := by
  intro ws hws
  have hr : r = .closing ∨ r = .closed := by
    rcases hat.shut hc with ⟨-, hr⟩ | hsome
    · exact hr
    · have hnone : s.line.ws = none := h hc
      rw [hnone] at hsome
      cases hsome
  have hmem : ws.readyState ∈ s.line.sockets := List.mem_map_of_mem hws
  rw [hat.sockets] at hmem
  rcases List.mem_append.1 hmem with hmem | hmem
  · exact .inr (List.eq_of_mem_replicate hmem)
  · rw [List.mem_singleton.1 hmem]
    exact hr

/-- **One connection to the server, or one timer.** In every run of the transport its sockets but
the last are closed; until it is closed or evicted the last is live or one timer is set, and not
both; after an eviction it is neither, and after that or `close()` no socket is ever made. The
reports follow each other as `Follows` says, and the delays double from one failure to the next,
up to the greatest. After `close()` no socket is open, unless it was called as a socket was about
to be made. -/
theorem signaling_goes_on (space deviceId : JsString) (acts : List Action) :
    (∃ m r, (after space deviceId acts).line.At m r) ∧
      (∀ acts', (after space deviceId acts).line.Over →
        (after space deviceId (acts ++ acts')).sockets.length =
          (after space deviceId acts).sockets.length) ∧
      ((∀ a ∈ acts, Unclosing a) → (after space deviceId acts).closed = true →
        ∀ ws ∈ (after space deviceId acts).sockets,
          ws.readyState = .closing ∨ ws.readyState = .closed) := by
  have hat : ∃ m r, (after space deviceId acts).line.At m r :=
    run_invariant_moves (I := fun s => ∃ m r, s.line.At m r) (fun _ _ _ hm h => hm.keeps_at h)
      ⟨0, .connecting, at_new⟩ acts
  refine ⟨hat, fun acts' ho => ?_, fun hacts hc => ?_⟩
  · unfold after at hat ho ⊢
    rw [Runs.run_append]
    generalize Runs.run step (new space deviceId) acts = t at hat ho ⊢
    have hrun := run_invariant_moves (s := t)
      (I := fun s => (∃ m r, s.line.At m r) ∧ s.line.Over ∧
        s.line.sockets.length = t.line.sockets.length) ?_ ⟨hat, ho, rfl⟩ acts'
    · simpa [WebRTCTransport.line] using hrun.2.2
    · rintro a s s' hmove ⟨⟨m, r, h⟩, hover, hlength⟩
      rcases hmove.line with hline | hline
      · rw [hline]
        exact ⟨⟨m, r, h⟩, hover, hlength⟩
      · obtain ⟨hover', hlength'⟩ := h.over hover hline
        exact ⟨h.move hline, hover', hlength'.trans hlength⟩
  · have halong : Runs.Along step (fun _ a => Unclosing a) (new space deviceId) acts :=
      Runs.along_iff_forall.2 fun p a q he => hacts a (by
        rw [he]
        exact List.mem_append_right _ List.mem_cons_self)
    have hreleased : (after space deviceId acts).Released :=
      halong.invariant (fun s a ha h => (step_moves s a).keeps (fun _ _ hm h => h.move hm ha) h)
        Bool.noConfusion
    obtain ⟨m, r, hat⟩ := hat
    exact hreleased.not_open hat hc

/-- A socket is lost, and the transport is closed once its timer has been set. -/
theorem signaling_goes_on_sample :
    (after (js "s") (js "a") [.closed 0 1006, .close, .timer 0 false]).sockets.length = 1 ∧
      ∀ ws ∈ (after (js "s") (js "a") [.closed 0 1006, .close, .timer 0 false]).sockets,
        ws.readyState = .closing ∨ ws.readyState = .closed := by
  obtain ⟨-, hover, -⟩ := signaling_goes_on (js "s") (js "a") [.closed 0 1006, .close]
  obtain ⟨-, -, hshut⟩ :=
    signaling_goes_on (js "s") (js "a") [.closed 0 1006, .close, .timer 0 false]
  refine ⟨hover [.timer 0 false] (.inl (by decide)), hshut ?_ (by decide)⟩
  intro a ha n he
  subst he
  revert ha
  simp

/-- A timer fires, `onSignalingState` calls `close()`, and a socket is made that opens. -/
example : ((after (js "s") (js "a") [.closed 0 1006, .timer 0 true, .opened 1 false]).closed,
    (after (js "s") (js "a") [.closed 0 1006, .timer 0 true, .opened 1 false]).readyState 1) =
      (true, some .opened) := by decide

end WebRTCTransport

end TangentFeed.WebRtc
