import TangentFeed.Lib.Runs
import TangentFeed.WebRtc.Blob

/-!
# Pairing by hand

A `ManualPairTransport` under calls of its methods, completions of what they
await and callbacks of its connections, in any order. `close()` writes the state
once; the methods that wait write it again when they go on, and the field that
keeps a transport from being used twice is cleared by `close()`.
-/

namespace TangentFeed.WebRtc

inductive ManualPairState where
  | idle
  | gathering
  | waitingForAnswer
  | connecting
  | connected
  | failed
  | closed
  deriving DecidableEq, Repr

/-- What a pairing method rejects with. -/
inductive PairError where
  | inProgress
  | expectedAnswer
  | noPendingOffer
  | expectedOffer
  | blob (e : BlobError)
  /-- What the connection rejected with. -/
  | connection
  deriving DecidableEq, Repr

/-- The text of the error; that of the connection is not ours. -/
def PairError.message : PairError → Option JsString
  | inProgress => some (js "pairing already in progress; create a new transport")
  | expectedAnswer =>
    some (js "expected an ANSWER blob, got an offer \u2014 paste it on the other device")
  | noPendingOffer => some (js "no pending offer; call createOffer first")
  | expectedOffer => some (js "expected an OFFER blob, got an answer")
  | blob e => some e.message
  | connection => none

/-- What a call of a pairing method waits for, or how it ended. -/
inductive PairCall where
  | creatingOffer
  | settingOffer (offer : Json)
  | gatheringOffer (offer : Json)
  | takingOffer (space : Json)
  | creatingAnswer (space : Json)
  | settingAnswer (space answer : Json)
  | gatheringAnswer (space answer : Json)
  | takingAnswer
  /-- Resolved with a blob or with nothing, or rejected. -/
  | settled (result : Except PairError (Option JsString))

structure ManualPairTransport where
  deviceId : JsString
  /-- The connections made so far, and whether each takes the channels of its peer. -/
  pcs : List Bool
  pc : Option Nat
  /-- How many channels were attached so far. -/
  channels : Nat
  channel : Option Nat
  state : ManualPairState
  space : Json
  peerDevice : Option Json
  /-- The calls of the pairing methods so far. -/
  calls : List PairCall
  /-- What `onState` was called with so far. -/
  reports : List ManualPairState

namespace ManualPairTransport

/-- `new ManualPairTransport({ deviceId })`. -/
def new (deviceId : JsString) : ManualPairTransport where
  deviceId := deviceId
  pcs := []
  pc := none
  channels := 0
  channel := none
  state := .idle
  space := .null
  peerDevice := none
  calls := []
  reports := []

variable (s : ManualPairTransport)

def setState (state : ManualPairState) : ManualPairTransport :=
  { s with state := state, reports := s.reports ++ [state] }

def newPc (takesChannels : Bool) : ManualPairTransport :=
  { s with pcs := s.pcs ++ [takesChannels], pc := some s.pcs.length }

def attachChannel : ManualPairTransport :=
  { s with channels := s.channels + 1, channel := some s.channels }

def begin (call : PairCall) : ManualPairTransport := { s with calls := s.calls ++ [call] }

def goOn (n : Nat) (call : PairCall) : ManualPairTransport :=
  { s with calls := s.calls.set n call }

/-! ## The methods -/

def createOffer (random : JsString) : ManualPairTransport :=
  if s.pc.isSome then s.begin (.settled (.error .inProgress))
  else
    ((({ s with space := .str (js "manual-" ++ random) }.newPc false).attachChannel).setState
      .gathering).begin .creatingOffer

def acceptAnswer (blob : JsString) : ManualPairTransport :=
  match decodeBlob blob with
  | .error e => s.begin (.settled (.error (.blob e)))
  | .ok msg =>
    if !isKind .answer msg then s.begin (.settled (.error .expectedAnswer))
    else if s.pc.isNone then s.begin (.settled (.error .noPendingOffer))
    else ({ s with peerDevice := msg.get? (js "device") }.setState .connecting).begin .takingAnswer

def acceptOffer (blob : JsString) : ManualPairTransport :=
  if s.pc.isSome then s.begin (.settled (.error .inProgress))
  else
    match decodeBlob blob with
    | .error e => s.begin (.settled (.error (.blob e)))
    | .ok msg =>
      if !isKind .offer msg then s.begin (.settled (.error .expectedOffer))
      else
        let space := (msg.get? (js "space")).getD .null
        (({ s with space := space, peerDevice := msg.get? (js "device") }.newPc true).setState
          .gathering).begin (.takingOffer space)

def close : ManualPairTransport := { s.setState .closed with channel := none, pc := none }

/-- How what a call waits for ends. -/
inductive Settlement where
  /-- With the description it made, or the local description when the gathering ends. -/
  | resolved (description : Option Json)
  | rejected

/-- The `n`-th call goes on. The gathering never rejects. -/
def resume (n : Nat) (r : Settlement) : ManualPairTransport :=
  match s.calls[n]?, r with
  | some .creatingOffer, .resolved offer => s.goOn n (.settingOffer (offer.getD .null))
  | some (.settingOffer offer), .resolved _ => s.goOn n (.gatheringOffer offer)
  | some (.gatheringOffer offer), .resolved localDescription =>
    (s.setState .waitingForAnswer).goOn n (.settled (.ok (some (encodeBlob (.obj
      (blobFields .offer (.str s.deviceId) s.space (localDescription.getD offer)))))))
  | some (.takingOffer space), .resolved _ => s.goOn n (.creatingAnswer space)
  | some (.creatingAnswer space), .resolved answer =>
    s.goOn n (.settingAnswer space (answer.getD .null))
  | some (.settingAnswer space answer), .resolved _ => s.goOn n (.gatheringAnswer space answer)
  | some (.gatheringAnswer space answer), .resolved localDescription =>
    (s.setState .connecting).goOn n (.settled (.ok (some (encodeBlob (.obj
      (blobFields .answer (.str s.deviceId) space (localDescription.getD answer)))))))
  | some .takingAnswer, .resolved _ => s.goOn n (.settled (.ok none))
  | some (.gatheringOffer _), .rejected | some (.gatheringAnswer _ _), .rejected => s
  | some (.settled _), _ | none, _ => s
  | some _, .rejected => s.goOn n (.settled (.error .connection))

/-! ## The callbacks -/

/-- `pc.onconnectionstatechange`, by the `connectionState` that it reads. -/
def onConnectionStateChange (pc : Nat) (connectionState : JsString) : ManualPairTransport :=
  if s.pcs.length ≤ pc then s
  else if connectionState = js "connected" then s.setState .connected
  else if (connectionState = js "failed" ∨ connectionState = js "closed") ∧ s.state ≠ .closed then
    s.setState .failed
  else s

/-- `pc.ondatachannel`, which only `acceptOffer` sets. -/
def onDataChannel (pc : Nat) : ManualPairTransport :=
  if s.pcs[pc]? = some true then s.attachChannel else s

/-- `channel.onopen`. -/
def onOpen (channel : Nat) : ManualPairTransport :=
  if channel < s.channels then s.setState .connected else s

/-- `channel.onclose`. -/
def onClose (channel : Nat) : ManualPairTransport :=
  if channel < s.channels ∧ s.state ≠ .closed then s.setState .failed else s

/-! ## Runs -/

inductive Action where
  | createOffer (random : JsString)
  | acceptOffer (blob : JsString)
  | acceptAnswer (blob : JsString)
  | close
  | resume (call : Nat) (r : Settlement)
  | connectionState (pc : Nat) (state : JsString)
  | dataChannel (pc : Nat)
  | channelOpen (channel : Nat)
  | channelClose (channel : Nat)

def step : Action → ManualPairTransport
  | .createOffer random => s.createOffer random
  | .acceptOffer blob => s.acceptOffer blob
  | .acceptAnswer blob => s.acceptAnswer blob
  | .close => s.close
  | .resume call r => s.resume call r
  | .connectionState pc state => s.onConnectionStateChange pc state
  | .dataChannel pc => s.onDataChannel pc
  | .channelOpen channel => s.onOpen channel
  | .channelClose channel => s.onClose channel

/-- What `s` at a `close()` has become later: still closed and reported as nothing else, with no
connection made or in use, and every call since refused. -/
structure StaysClosed (s t : ManualPairTransport) : Prop where
  state : t.state = .closed
  reports : ∃ n, t.reports = s.reports ++ List.replicate n .closed
  unpaired : t.pcs = s.pcs ∧ t.pc = none
  refused : ∀ c ∈ t.calls.drop s.calls.length, ∃ e, c = .settled (.error e)

/-- A step that the `close()` does not stop: a pairing that begins, or one that was waiting for
its candidates and goes on, or a callback that finds the connection or the channel open. -/
def Reopens : Action → Prop
  | .createOffer _ => s.pc = none
  | .acceptOffer blob => s.pc = none ∧ ∃ msg, decodeBlob blob = .ok msg ∧ isKind .offer msg = true
  | .acceptAnswer blob => s.pc ≠ none ∧ ∃ msg, decodeBlob blob = .ok msg ∧ isKind .answer msg = true
  | .resume call (.resolved _) => ∃ d, s.calls[call]? = some (.gatheringOffer d) ∨
      ∃ space, s.calls[call]? = some (.gatheringAnswer space d)
  | .connectionState pc state => pc < s.pcs.length ∧ state = js "connected"
  | .channelOpen channel => channel < s.channels
  | .close | .resume _ .rejected | .dataChannel _ | .channelClose _ => False

variable {s} {t : ManualPairTransport} {a : Action}

@[simp] theorem state_setState (state : ManualPairState) : (s.setState state).state = state := rfl

@[simp] theorem state_begin (call : PairCall) : (s.begin call).state = s.state := rfl

@[simp] theorem state_goOn (n : Nat) (call : PairCall) : (s.goOn n call).state = s.state := rfl

/-- **Such a step leaves the closed state.** -/
theorem state_of_reopens (h : s.Reopens a) : (s.step a).state ≠ .closed := by
  cases a with
  | createOffer random =>
    have hpc : s.pc = none := h
    rw [step, createOffer, hpc, Option.isSome_none, if_neg Bool.false_ne_true, state_begin,
      state_setState]
    nofun
  | acceptOffer blob =>
    obtain ⟨hpc, msg, hmsg, hkind⟩ := h
    rw [step, acceptOffer, hpc, Option.isSome_none, if_neg Bool.false_ne_true, hmsg]
    simp [hkind]
  | acceptAnswer blob =>
    obtain ⟨hpc, msg, hmsg, hkind⟩ := h
    rw [step, acceptAnswer, hmsg]
    simp [hkind, hpc]
  | close => exact h.elim
  | resume call r =>
    cases r with
    | rejected => exact h.elim
    | resolved localDescription =>
      obtain ⟨d, hcall | ⟨space, hcall⟩⟩ := h
      · simp [step, resume, hcall]
      · simp [step, resume, hcall]
  | connectionState pc state =>
    obtain ⟨hpc, rfl⟩ := h
    rw [step, onConnectionStateChange, if_neg (Nat.not_le.2 hpc), if_pos rfl, state_setState]
    nofun
  | dataChannel pc => exact h.elim
  | channelOpen channel =>
    have hlt : channel < s.channels := h
    rw [step, onOpen, if_pos hlt, state_setState]
    nofun
  | channelClose channel => exact h.elim

/-! ## What the others leave -/

/-- A call that is refused at once. -/
theorem StaysClosed.refuse (h : StaysClosed s t) (e : PairError) :
    StaysClosed s (t.begin (.settled (.error e))) where
  state := h.state
  reports := h.reports
  unpaired := h.unpaired
  refused c hc := by
    change c ∈ (t.calls ++ [_]).drop s.calls.length at hc
    rw [List.drop_append, List.mem_append] at hc
    rcases hc with hc | hc
    · exact h.refused c hc
    · exact ⟨e, List.mem_singleton.1 (List.mem_of_mem_drop hc)⟩

/-- A call from before the `close()` goes on. -/
theorem StaysClosed.goOn (h : StaysClosed s t) {n : Nat} {call : PairCall}
    (hn : t.calls[n]? = some call) (hwait : ∀ e, call ≠ .settled (.error e)) (next : PairCall) :
    StaysClosed s (t.goOn n next) where
  state := h.state
  reports := h.reports
  unpaired := h.unpaired
  refused c hc := by
    have hlt : n < s.calls.length := by
      by_contra hle
      have hmem : call ∈ t.calls.drop s.calls.length := by
        rw [List.mem_iff_getElem?]
        exact ⟨n - s.calls.length, by rw [List.getElem?_drop, Nat.add_sub_cancel' (Nat.not_lt.1 hle), hn]⟩
      obtain ⟨e, he⟩ := h.refused call hmem
      exact hwait e he
    change c ∈ (t.calls.set n next).drop s.calls.length at hc
    rw [List.drop_set_of_lt hlt] at hc
    exact h.refused c hc

theorem StaysClosed.close (h : StaysClosed s t) : StaysClosed s t.close where
  state := rfl
  reports := by
    obtain ⟨n, hn⟩ := h.reports
    refine ⟨n + 1, ?_⟩
    change t.reports ++ [.closed] = _
    rw [hn, List.append_assoc, List.replicate_succ']
  unpaired := ⟨h.unpaired.1, rfl⟩
  refused := h.refused

/-- **Step lemma.** -/
theorem StaysClosed.step (h : StaysClosed s t) (ha : ¬ t.Reopens a) : StaysClosed s (t.step a) := by
  have hpc := h.unpaired.2
  cases a with
  | createOffer random => exact absurd hpc ha
  | acceptOffer blob =>
    rw [ManualPairTransport.step, acceptOffer, hpc, Option.isSome_none, if_neg Bool.false_ne_true]
    cases hmsg : decodeBlob blob with
    | error e => exact h.refuse _
    | ok msg =>
      have hkind : isKind .offer msg = false :=
        Bool.eq_false_iff.2 fun hk => ha ⟨hpc, msg, hmsg, hk⟩
      simp only [hkind, Bool.not_false, if_true]
      exact h.refuse _
  | acceptAnswer blob =>
    rw [ManualPairTransport.step, acceptAnswer]
    cases decodeBlob blob with
    | error e => exact h.refuse _
    | ok msg =>
      simp only [hpc, Option.isNone_none, if_true]
      split
      · exact h.refuse _
      · exact h.refuse _
  | close => exact h.close
  | resume call r =>
    rw [ManualPairTransport.step]
    unfold resume
    split
    · rename_i hcall
      exact h.goOn hcall nofun _
    · rename_i hcall
      exact h.goOn hcall nofun _
    · rename_i d _ hcall
      exact (ha ⟨d, .inl hcall⟩).elim
    · rename_i hcall
      exact h.goOn hcall nofun _
    · rename_i hcall
      exact h.goOn hcall nofun _
    · rename_i hcall
      exact h.goOn hcall nofun _
    · rename_i space d _ hcall
      exact (ha ⟨d, .inr ⟨space, hcall⟩⟩).elim
    · rename_i hcall
      exact h.goOn hcall nofun _
    · exact h
    · exact h
    · exact h
    · exact h
    · rename_i hwaits hcall
      exact h.goOn hcall (fun e => hwaits (.error e)) _
  | connectionState pc state =>
    have hconnected : ¬ (pc < t.pcs.length ∧ state = js "connected") := ha
    rw [ManualPairTransport.step, onConnectionStateChange]
    split
    · exact h
    · rename_i hpc
      rw [if_neg fun hs => hconnected ⟨Nat.not_le.1 hpc, hs⟩, if_neg fun hc => hc.2 h.state]
      exact h
  | dataChannel pc =>
    rw [ManualPairTransport.step, onDataChannel]
    split
    · exact ⟨h.state, h.reports, h.unpaired, h.refused⟩
    · exact h
  | channelOpen channel =>
    have hopen : ¬ channel < t.channels := ha
    rw [ManualPairTransport.step, onOpen, if_neg hopen]
    exact h
  | channelClose channel =>
    rw [ManualPairTransport.step, onClose, if_neg fun hc => hc.2 h.state]
    exact h

/-- The state right after the call. -/
theorem staysClosed_close : StaysClosed s.close s.close where
  state := rfl
  reports := ⟨0, (List.append_nil _).symm⟩
  unpaired := ⟨rfl, rfl⟩
  refused c hc := by
    rw [List.drop_length] at hc
    cases hc

/-- **When a closed pairing stays closed.** After any run and a `close()`, every later state is
closed, reported as nothing else and not paired again, exactly when no later step reopens it. -/
theorem closed_iff (deviceId : JsString) (before after : List Action) :
    let s := (Runs.run step (new deviceId) before).close
    (∀ acts rest, after = acts ++ rest → StaysClosed s (Runs.run step s acts)) ↔
      Runs.Along step (fun s a => ¬ s.Reopens a) s after := by
  intro s
  constructor
  · intro hall
    rw [Runs.along_iff_forall]
    intro acts a rest hsplit ha
    have hstay := hall (acts ++ [a]) rest (by rw [hsplit, List.append_assoc]; rfl)
    rw [Runs.run_append] at hstay
    exact state_of_reopens ha hstay.state
  · rintro hno acts rest rfl
    exact (Runs.along_append.1 hno).1.invariant (fun t a ha ht => StaysClosed.step ht ha)
      staysClosed_close

/-- A pairing that is closed while it gathers candidates waits for an answer again. -/
theorem reopened_after_close :
    ¬ ∀ (deviceId : JsString) (before after : List Action),
      let s := (Runs.run step (new deviceId) before).close
      StaysClosed s (Runs.run step s after) := by
  intro h
  have hstay := h (js "a1") [.createOffer (js "00112233"), .resume 0 (.resolved (some .null)),
    .resume 0 (.resolved none)] [.resume 0 (.resolved none)]
  exact absurd hstay.state (by decide +kernel)

end ManualPairTransport

end TangentFeed.WebRtc
