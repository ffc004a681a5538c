import Mathlib.Data.Multiset.AddSub
import TangentFeed.Lib.Runs
import TangentFeed.WebRtc.Blob

/-!
# Signals to one peer

One peer of a `WebRTCTransport`, from when it is made until it is dropped. Every
signal runs a `handleSignal` of its own; these go on in any order as what they
await is settled, and share the queue of candidates and the flag that says
whether the remote description is set.
-/

namespace TangentFeed.WebRtc

/-! ## Signals -/

/-- The description of a signal that `handleSignal` takes as one of kind `sdp`. -/
def descriptionOf (data : Json) : Option Json :=
  if data.getStr (js "kind") = js "sdp" ∧ truthy (data.get? (js "description")) then
    data.get? (js "description")
  else none

/-- The candidate of a signal that it takes as one of kind `ice`. -/
def candidateOf (data : Json) : Option Json :=
  if data.getStr (js "kind") = js "ice" ∧ truthy (data.get? (js "candidate")) then
    data.get? (js "candidate")
  else none

/-- `data.description.type === "offer"`. -/
def isOffer (data : Json) : Bool :=
  (descriptionOf data).any fun description => description.getStr (js "type") = js "offer"

/-- The calls of the connection that `handleSignal` awaits. -/
inductive RtcStep where
  | setRemoteDescription
  | addIceCandidate
  | createAnswer
  | setLocalDescription
  deriving DecidableEq, Repr

/-- What a `handleSignal` waits for. -/
inductive SignalStage where
  /-- `ensurePeer`; the call that made the peer waits until its offer is sent. -/
  | ensuring (creator : Bool)
  | describing
  /-- `addIceCandidate` of a queued candidate; `rest` is what the loop has left. -/
  | draining (rest : List Json)
  | answering
  | localising
  /-- `addIceCandidate` of its own candidate. -/
  | adding
  | done

def SignalStage.isDone : SignalStage → Bool
  | .done => true
  | _ => false

structure SignalCall where
  data : Json
  stage : SignalStage

/-- The candidates that a call has yet to pass on. -/
def SignalCall.waiting (call : SignalCall) : List Json :=
  match call.stage with
  | .ensuring _ => (candidateOf call.data).toList
  | .draining rest => rest
  | _ => []

/-- What happens to the connection of the peer, with the number of the call that does it. -/
inductive PeerEvent where
  /-- `setRemoteDescription` resolved. -/
  | described (call : Nat)
  /-- The candidate was passed to `addIceCandidate`. -/
  | added (candidate : Json)
  /-- The answer was sent. -/
  | answered (call : Nat)
  /-- The call ended because this step rejected. -/
  | failed (call : Nat) (step : RtcStep)

def PeerEvent.candidate? : PeerEvent → Option Json
  | .added c => some c
  | _ => none

/-- How far the offer of `ensurePeer` is. -/
inductive Offering where
  | creating
  | setting
  | ended
  deriving DecidableEq, Repr

structure PeerSession where
  calls : List SignalCall
  pendingCandidates : List Json
  remoteDescSet : Bool
  offering : Offering
  dropped : Bool
  /-- Whether the signaling socket is open. -/
  socketOpen : Bool
  log : List PeerEvent

namespace PeerSession

/-- The peer that `ensurePeer` made, for a signal or for a message of the server; the device
with the lower id offers. -/
def new (initiator : Bool) (first : Option Json) : PeerSession where
  calls := first.toList.map fun data => ⟨data, .ensuring true⟩
  pendingCandidates := []
  remoteDescSet := false
  offering := if initiator then .creating else .ended
  dropped := false
  socketOpen := true
  log := []

variable (s : PeerSession)

/-! ## `handleSignal` -/

def proceed (n : Nat) (call : SignalCall) (stage : SignalStage) (events : List PeerEvent) :
    PeerSession :=
  { s with calls := s.calls.set n { call with stage := stage }, log := s.log ++ events }

/-- The `catch`. -/
def fail (n : Nat) (call : SignalCall) (step : RtcStep) : PeerSession :=
  s.proceed n call .done [.failed n step]

/-- The loop over the queued candidates, and what follows it. -/
def drain (n : Nat) (call : SignalCall) : List Json → PeerSession
  | c :: rest => s.proceed n call (.draining rest) [.added c]
  | [] => s.proceed n call (if isOffer call.data then .answering else .done) []

/-- After `ensurePeer`, up to the next `await`. -/
def enter (n : Nat) (call : SignalCall) : PeerSession :=
  if s.dropped then s.proceed n call .done []
  else
    match descriptionOf call.data, candidateOf call.data with
    | some _, _ => s.proceed n call .describing []
    | none, some c =>
      if s.remoteDescSet then s.proceed n call .adding [.added c]
      else { s.proceed n call .done [] with pendingCandidates := s.pendingCandidates ++ [c] }
    | none, none => s.proceed n call .done []

/-- The flag is set and the queue taken. -/
def setDescribed (n : Nat) : PeerSession :=
  { s with remoteDescSet := true, pendingCandidates := [], log := s.log ++ [.described n] }

/-- After `setRemoteDescription`, up to the next `await`. -/
def describe (n : Nat) (call : SignalCall) : PeerSession :=
  (s.setDescribed n).drain n call s.pendingCandidates

inductive Outcome where
  | resolved
  | rejected
  deriving DecidableEq, Repr

/-- A call goes on, as what it waits for is settled. -/
def goOn (n : Nat) (call : SignalCall) (r : Outcome) : PeerSession :=
  match call.stage, r with
  | .ensuring creator, _ => if creator && s.offering ≠ .ended then s else s.enter n call
  | .describing, .resolved => s.describe n call
  | .describing, .rejected => s.fail n call .setRemoteDescription
  | .draining rest, .resolved => s.drain n call rest
  | .draining _, .rejected => s.fail n call .addIceCandidate
  | .answering, .resolved => s.proceed n call .localising []
  | .answering, .rejected => s.fail n call .createAnswer
  | .localising, .resolved => s.proceed n call .done (if s.socketOpen then [.answered n] else [])
  | .localising, .rejected => s.fail n call .setLocalDescription
  | .adding, .resolved => s.proceed n call .done []
  | .adding, .rejected => s.fail n call .addIceCandidate
  | .done, _ => s

/-! ## Runs -/

inductive Action where
  | signal (data : Json)
  | settle (call : Nat) (r : Outcome)
  /-- What the offer of `ensurePeer` waits for is settled. -/
  | offer (r : Outcome)
  | drop
  | socket (isOpen : Bool)

def step : Action → PeerSession
  | .signal data =>
    if s.dropped then s else { s with calls := s.calls ++ [⟨data, .ensuring false⟩] }
  | .settle n r =>
    match s.calls[n]? with
    | none => s
    | some call => s.goOn n call r
  | .offer r =>
    match s.offering, r with
    | .creating, .resolved => { s with offering := .setting }
    | .setting, .resolved => { s with offering := .ended }
    | .creating, .rejected | .setting, .rejected => { s with offering := .ended, dropped := true }
    | .ended, _ => s
  | .drop => { s with dropped := true }
  | .socket isOpen => { s with socketOpen := isOpen }

/-! ## What is expected -/

/-- The candidates passed to `addIceCandidate`, in order. -/
def added : List Json := s.log.filterMap PeerEvent.candidate?

/-- The candidates received. -/
def received : List Json := (s.calls.map (·.data)).filterMap candidateOf

/-- The remote description was set. -/
def Described (log : List PeerEvent) : Prop := ∃ n, .described n ∈ log

def AtRest : Prop := ∀ call ∈ s.calls, call.stage = .done

instance : Decidable s.AtRest :=
  decidable_of_iff (s.calls.all fun call => call.stage.isDone) (by
    rw [List.all_eq_true]
    refine forall₂_congr fun call _ => ?_
    cases call.stage <;> simp [SignalStage.isDone])

/-- The call sent its answer, or a step that the answer needs rejected. -/
def Answered (log : List PeerEvent) (n : Nat) : Prop :=
  .answered n ∈ log ∨ ∃ step, step ≠ .addIceCandidate ∧ .failed n step ∈ log

/-- **No candidate is lost or early, and no offer unanswered.** -/
structure Delivered : Prop where
  late : ∀ before c rest, s.log = before ++ .added c :: rest → Described before
  once : s.AtRest → Described s.log → s.added.Perm s.received
  answered : s.AtRest → ∀ n call, s.calls[n]? = some call → isOffer call.data = true →
    Answered s.log n

/-- A queued candidate is rejected only if it is the last and there is nothing to answer, and
the signaling socket is open when an answer is sent. -/
def keeps (call : SignalCall) (r : Outcome) : Bool :=
  match call.stage, r with
  | .draining rest, .rejected => rest.isEmpty && !isOffer call.data
  | .localising, .resolved => s.socketOpen
  | _, _ => true

/-- A step that loses nothing. -/
def Lossless : Action → Bool
  | .settle n r => s.calls[n]?.all fun call => s.keeps call r
  | _ => true

/-! ## Accounting -/

variable {s} {n : Nat} {call : SignalCall} {stage : SignalStage} {events : List PeerEvent}
  {inHand inHand' : List Json}

theorem candidateOf_of_descriptionOf {data description : Json}
    (h : descriptionOf data = some description) : candidateOf data = none := by
  rw [descriptionOf] at h
  split at h
  · rename_i hsdp
    rw [candidateOf, if_neg]
    rintro ⟨hice, -⟩
    exact absurd (hsdp.1.symm.trans hice) (by decide)
  · cases h

theorem not_isOffer_of_descriptionOf {data : Json} (h : descriptionOf data = none) :
    isOffer data = false := by
  rw [isOffer, h, Option.any_none]

theorem flatMap_set {α β : Type} {l : List α} {n : Nat} {x : α} (h : l[n]? = some x) (y : α)
    (f : α → List β) :
    (f x : Multiset β) + ((l.set n y).flatMap f : List β) = f y + (l.flatMap f : List β) := by
  induction l generalizing n with
  | nil => cases h
  | cons z l ih =>
    cases n with
    | zero =>
      obtain rfl : z = x := Option.some.inj h
      simp only [List.set_cons_zero, List.flatMap_cons, ← Multiset.coe_add]
      exact add_left_comm _ _ _
    | succ n =>
      simp only [List.set_cons_succ, List.flatMap_cons, ← Multiset.coe_add]
      rw [add_left_comm, ih h, add_left_comm]

theorem map_data_set (h : s.calls[n]? = some call) (stage : SignalStage) :
    (s.calls.set n { call with stage := stage }).map (·.data) = s.calls.map (·.data) := by
  rw [List.map_set]
  refine List.ext_getElem? fun m => ?_
  rw [List.getElem?_set]
  split
  · rename_i hm
    obtain ⟨hn, heq⟩ := List.getElem?_eq_some_iff.1 h
    subst hm
    simp [heq, hn]
  · rfl

/-- An offer in `call` still ends with the answer, or has ended so. -/
def OnItsWay (log : List PeerEvent) (n : Nat) (call : SignalCall) : Prop :=
  call.stage ≠ .adding ∧ (call.stage = .done → Answered log n)

/-- The accounting of the candidates and offers; the candidates `inHand` were taken from the
queue and belong to no call. -/
structure Kept (s : PeerSession) (inHand : List Json) : Prop where
  flag : s.remoteDescSet = true ↔ Described s.log
  queue : s.remoteDescSet = true → s.pendingCandidates = []
  loop : ∀ call ∈ s.calls, ∀ rest, call.stage = .draining rest → s.remoteDescSet = true
  late : ∀ before c rest, s.log = before ++ .added c :: rest → Described before
  count : s.dropped = false →
    (s.added + s.pendingCandidates + (s.calls.flatMap SignalCall.waiting : List Json) + inHand :
      Multiset Json) = s.received
  offers : s.dropped = false → ∀ n call, s.calls[n]? = some call → isOffer call.data = true →
    OnItsWay s.log n call

theorem Kept.delivered (k : s.Kept []) (hd : s.dropped = false) : s.Delivered where
  late := k.late
  once hrest hdesc := by
    have hcount := k.count hd
    have hwaiting : s.calls.flatMap SignalCall.waiting = [] :=
      List.flatMap_eq_nil_iff.2 fun call hcall => by rw [SignalCall.waiting, hrest call hcall]
    rw [hwaiting, k.queue (k.flag.2 hdesc)] at hcount
    simp only [Multiset.coe_nil, add_zero] at hcount
    exact Multiset.coe_eq_coe.1 hcount
  answered hrest n call hc hoffer :=
    (k.offers hd n call hc hoffer).2 (hrest call (List.mem_of_getElem? hc))

theorem kept_new (initiator : Bool) (first : Option Json) : (new initiator first).Kept [] where
  flag := iff_of_false Bool.false_ne_true fun ⟨_, h⟩ => List.not_mem_nil h
  queue _ := rfl
  loop call hcall rest hstage := by
    obtain ⟨data, -, rfl⟩ := List.mem_map.1 hcall
    cases hstage
  late before c rest h := absurd h.symm (List.append_ne_nil_of_right_ne_nil _ (List.cons_ne_nil _ _))
  count _ := by
    cases first with
    | none => rfl
    | some data =>
      simp only [new, added, received, SignalCall.waiting, Option.toList_some, List.map_cons,
        List.map_nil, List.filterMap_cons, List.filterMap_nil, List.flatMap_cons, List.flatMap_nil]
      cases candidateOf data <;> rfl
  offers _ n call hc _ := by
    obtain ⟨data, -, rfl⟩ := List.mem_map.1 (List.mem_of_getElem? hc)
    exact ⟨SignalStage.noConfusion, SignalStage.noConfusion⟩

/-! ### One call -/

theorem Described.append (h : Described s.log) (events : List PeerEvent) :
    Described (s.log ++ events) :=
  h.imp fun _ hm => List.mem_append_left _ hm

theorem OnItsWay.append {log : List PeerEvent} (h : OnItsWay log n call)
    (events : List PeerEvent) : OnItsWay (log ++ events) n call := by
  refine ⟨h.1, fun hdone => (h.2 hdone).imp ?_ ?_⟩
  · exact List.mem_append_left _
  · rintro ⟨step, hstep, hm⟩
    exact ⟨step, hstep, List.mem_append_left _ hm⟩

theorem late_append {log : List PeerEvent}
    (hlate : ∀ before c rest, log = before ++ .added c :: rest → Described before)
    (hevents : events.filterMap PeerEvent.candidate? ≠ [] → Described log)
    (before : List PeerEvent) (c : Json) (rest : List PeerEvent)
    (h : log ++ events = before ++ .added c :: rest) : Described before := by
  have hmem : ∀ mid, events = mid ++ .added c :: rest → Described log := fun mid hmid =>
    hevents (by simp [hmid, PeerEvent.candidate?])
  rcases List.append_eq_append_iff.1 h with ⟨mid, rfl, hmid⟩ | ⟨mid, rfl, hmid⟩
  · exact (hmem mid hmid).imp fun _ hm => List.mem_append_left _ hm
  · cases mid with
    | nil => exact List.append_nil before ▸ hmem [] hmid.symm
    | cons e mid =>
      obtain ⟨rfl, -⟩ := List.cons.inj hmid
      exact hlate before c mid rfl

theorem Kept.proceed (k : s.Kept inHand) (hc : s.calls[n]? = some call)
    (hplain : ∀ m, .described m ∉ events)
    (hadded : events.filterMap PeerEvent.candidate? ≠ [] → s.remoteDescSet = true)
    (hloop : ∀ rest, stage = .draining rest → s.remoteDescSet = true)
    (hcount : s.dropped = false →
      ((events.filterMap PeerEvent.candidate? : List Json) +
        ({ call with stage := stage } : SignalCall).waiting + inHand' : Multiset Json) =
        call.waiting + inHand)
    (hoffer : s.dropped = false → isOffer call.data = true →
      OnItsWay (s.log ++ events) n { call with stage := stage }) :
    (s.proceed n call stage events).Kept inHand' where
  flag := by
    refine k.flag.trans ⟨fun h => h.append events, ?_⟩
    rintro ⟨m, hm⟩
    exact ⟨m, (List.mem_append.1 hm).resolve_right (hplain m)⟩
  queue := k.queue
  loop c hcall rest hstage := by
    rcases List.mem_or_eq_of_mem_set hcall with hcall | rfl
    · exact k.loop c hcall rest hstage
    · exact hloop rest hstage
  late := late_append k.late fun h => k.flag.1 (hadded h)
  count hd := by
    have hold := k.count hd
    have hset := flatMap_set hc { call with stage := stage } SignalCall.waiting
    have hnew := hcount hd
    simp only [PeerSession.proceed, added, received, List.filterMap_append, map_data_set hc]
    rw [← Multiset.coe_add]
    rw [added, received] at hold
    generalize ((s.calls.map (·.data)).filterMap candidateOf : Multiset Json) = R at *
    generalize ((s.calls.set n { call with stage := stage }).flatMap SignalCall.waiting :
      Multiset Json) = W' at *
    generalize (({ call with stage := stage } : SignalCall).waiting : Multiset Json) = w' at *
    refine add_right_cancel (b := (call.waiting : Multiset Json)) ?_
    calc _ = ↑(s.log.filterMap PeerEvent.candidate?) + ↑s.pendingCandidates +
          ↑(events.filterMap PeerEvent.candidate?) + ↑inHand' + (↑call.waiting + W') := by abel
      _ = ↑(s.log.filterMap PeerEvent.candidate?) + ↑s.pendingCandidates +
          ↑(s.calls.flatMap SignalCall.waiting) +
          (↑(events.filterMap PeerEvent.candidate?) + w' + ↑inHand') := by rw [hset]; abel
      _ = R + ↑call.waiting := by rw [hnew, ← hold]; abel
  offers hd m c hm hoff := by
    rw [PeerSession.proceed, List.getElem?_set] at hm
    split at hm
    · rename_i hnm
      subst hnm
      split at hm
      · obtain rfl := Option.some.inj hm
        exact hoffer hd hoff
      · cases hm
    · exact (k.offers hd m c hm hoff).append events

/-- A step that moves no candidate. -/
theorem Kept.quiet (k : s.Kept inHand) (hc : s.calls[n]? = some call)
    (hplain : ∀ m, .described m ∉ events) (hadded : events.filterMap PeerEvent.candidate? = [])
    (hloop : ∀ rest, stage ≠ .draining rest)
    (hstage : ({ call with stage := stage } : SignalCall).waiting = []) (hcall : call.waiting = [])
    (hoffer : s.dropped = false → isOffer call.data = true →
      OnItsWay (s.log ++ events) n { call with stage := stage }) :
    (s.proceed n call stage events).Kept inHand := by
  refine k.proceed hc hplain (absurd hadded) (fun rest h => absurd h (hloop rest)) ?_ hoffer
  intro _
  rw [hadded, hstage, hcall]
  rfl

theorem Kept.setDescribed (k : s.Kept []) (n : Nat) :
    (s.setDescribed n).Kept s.pendingCandidates where
  flag := iff_of_true rfl ⟨n, List.mem_append_right _ (List.mem_singleton.2 rfl)⟩
  queue _ := rfl
  loop _ _ _ _ := rfl
  late := late_append k.late (absurd rfl)
  count hd := by
    have hold := k.count hd
    simp only [PeerSession.setDescribed, added, received, List.filterMap_append, List.filterMap_cons,
      List.filterMap_nil, PeerEvent.candidate?, List.append_nil, Multiset.coe_nil, add_zero] at *
    rw [← hold]
    abel
  offers hd m c hm hoff := (k.offers hd m c hm hoff).append _

/-- The candidate waits in the queue. -/
theorem Kept.enqueue {c : Json} (k : s.Kept [c]) (hset : s.remoteDescSet = false) :
    ({ s with pendingCandidates := s.pendingCandidates ++ [c] } : PeerSession).Kept [] where
  flag := k.flag
  queue h := absurd (hset.symm.trans h) Bool.false_ne_true
  loop := k.loop
  late := k.late
  count hd := by
    have hold := k.count hd
    simp only [added, received, ← Multiset.coe_add, Multiset.coe_nil, add_zero] at *
    rw [← hold]
    abel
  offers := k.offers

theorem Kept.drain (k : s.Kept inHand) (hc : s.calls[n]? = some call)
    (hset : s.remoteDescSet = true) {queue : List Json}
    (hqueue : (call.waiting + inHand : Multiset Json) = queue) :
    (s.drain n call queue).Kept [] := by
  cases queue with
  | nil =>
    refine k.proceed hc (fun _ h => List.not_mem_nil h) (absurd rfl) (fun _ _ => hset) ?_ ?_
    · intro _
      rw [hqueue]
      split <;> rfl
    · intro _ hoff
      rw [if_pos hoff]
      exact ⟨SignalStage.noConfusion, SignalStage.noConfusion⟩
  | cons c rest =>
    refine k.proceed hc (fun m h => ?_) (fun _ => hset) (fun _ _ => hset) ?_ ?_
    · exact PeerEvent.noConfusion (List.mem_singleton.1 h)
    · intro _
      rw [hqueue]
      exact add_zero _
    · exact fun _ _ => ⟨SignalStage.noConfusion, SignalStage.noConfusion⟩

theorem Kept.describe (k : s.Kept []) (hc : s.calls[n]? = some call) (hcall : call.waiting = []) :
    (s.describe n call).Kept [] :=
  (k.setDescribed n).drain hc rfl (by rw [hcall]; exact zero_add _)

theorem Kept.fail {r : RtcStep} (k : s.Kept []) (hc : s.calls[n]? = some call)
    (hcall : call.waiting = [])
    (hoffer : s.dropped = false → isOffer call.data = true → r ≠ .addIceCandidate) :
    (s.fail n call r).Kept [] := by
  refine k.quiet hc (fun m h => ?_) rfl (fun _ => SignalStage.noConfusion) rfl hcall ?_
  · exact PeerEvent.noConfusion (List.mem_singleton.1 h)
  · refine fun hd hoff => ⟨SignalStage.noConfusion, fun _ => .inr ⟨r, hoffer hd hoff, ?_⟩⟩
    exact List.mem_append_right _ (List.mem_singleton.2 rfl)

theorem Kept.enter {creator : Bool} (k : s.Kept []) (hc : s.calls[n]? = some call)
    (hstage : call.stage = .ensuring creator) : (s.enter n call).Kept [] := by
  have hwaiting : call.waiting = (candidateOf call.data).toList := by
    rw [SignalCall.waiting, hstage]
  have hempty : ∀ m : Nat, PeerEvent.described m ∉ ([] : List PeerEvent) :=
    fun _ => List.not_mem_nil
  rw [PeerSession.enter]
  split
  · rename_i hdropped
    exact k.proceed hc hempty (absurd rfl) (fun _ => SignalStage.noConfusion)
      (fun h => absurd (hdropped.symm.trans h) Bool.noConfusion)
      (fun h => absurd (hdropped.symm.trans h) Bool.noConfusion)
  · split
    · -- a description: it carries no candidate
      rename_i hdesc
      refine k.quiet hc hempty rfl (fun _ => SignalStage.noConfusion) rfl ?_ fun _ _ => ?_
      · rw [hwaiting, candidateOf_of_descriptionOf hdesc, Option.toList_none]
      · exact ⟨SignalStage.noConfusion, SignalStage.noConfusion⟩
    · rename_i c hdesc hcand
      have hoffer := Bool.eq_false_iff.1 (not_isOffer_of_descriptionOf hdesc)
      split
      · rename_i hset
        refine k.proceed hc (fun m h => ?_) (fun _ => hset) (fun _ _ => hset) ?_
          fun _ h => absurd h hoffer
        · exact PeerEvent.noConfusion (List.mem_singleton.1 h)
        · intro _
          rw [hwaiting, hcand]
          rfl
      · rename_i hset
        refine Kept.enqueue ?_ (Bool.eq_false_iff.2 hset)
        refine k.proceed hc hempty (absurd rfl) (fun _ => SignalStage.noConfusion) ?_
          fun _ h => absurd h hoffer
        intro _
        rw [hwaiting, hcand]
        rfl
    · rename_i hdesc hcand
      have hoffer := Bool.eq_false_iff.1 (not_isOffer_of_descriptionOf hdesc)
      refine k.quiet hc hempty rfl (fun _ => SignalStage.noConfusion) rfl ?_
        fun _ h => absurd h hoffer
      rw [hwaiting, hcand, Option.toList_none]

theorem Kept.goOn {r : Outcome} (k : s.Kept []) (hc : s.calls[n]? = some call)
    (hkeeps : s.keeps call r = true) : (s.goOn n call r).Kept [] := by
  have hempty : ∀ m : Nat, PeerEvent.described m ∉ ([] : List PeerEvent) :=
    fun _ => List.not_mem_nil
  have hoffer := fun hd => k.offers hd n call hc
  obtain ⟨data, stage⟩ := call
  cases stage with
  | ensuring creator =>
    simp only [PeerSession.goOn]
    split
    · exact k
    · exact k.enter hc rfl
  | describing =>
    cases r with
    | resolved => exact k.describe hc rfl
    | rejected => exact k.fail hc rfl fun _ _ => RtcStep.noConfusion
  | draining rest =>
    have hset := k.loop _ (List.mem_of_getElem? hc) rest rfl
    cases r with
    | resolved => exact k.drain hc hset (add_zero _)
    | rejected =>
      obtain ⟨hrest, hnot⟩ := Bool.and_eq_true_iff.1 hkeeps
      refine k.fail hc (List.isEmpty_iff.1 hrest) fun _ hoff => ?_
      rw [hoff] at hnot
      cases hnot
  | answering =>
    cases r with
    | resolved =>
      exact k.quiet hc hempty rfl (fun _ => SignalStage.noConfusion) rfl rfl
        fun _ _ => ⟨SignalStage.noConfusion, SignalStage.noConfusion⟩
    | rejected => exact k.fail hc rfl fun _ _ => RtcStep.noConfusion
  | localising =>
    cases r with
    | resolved =>
      have hopen : s.socketOpen = true := hkeeps
      simp only [PeerSession.goOn, hopen, if_true]
      refine k.quiet hc (fun m h => ?_) rfl (fun _ => SignalStage.noConfusion) rfl rfl ?_
      · exact PeerEvent.noConfusion (List.mem_singleton.1 h)
      · refine fun _ _ => ⟨SignalStage.noConfusion, fun _ => .inl ?_⟩
        exact List.mem_append_right _ (List.mem_singleton.2 rfl)
    | rejected => exact k.fail hc rfl fun _ _ => RtcStep.noConfusion
  | adding =>
    cases r with
    | resolved =>
      exact k.quiet hc hempty rfl (fun _ => SignalStage.noConfusion) rfl rfl
        fun hd hoff => absurd rfl (hoffer hd hoff).1
    | rejected => exact k.fail hc rfl fun hd hoff => absurd rfl (hoffer hd hoff).1
  | done => exact k

/-! ### Every step -/

/-- A call begins. -/
theorem Kept.receive (k : s.Kept []) (data : Json) :
    ({ s with calls := s.calls ++ [⟨data, .ensuring false⟩] } : PeerSession).Kept [] where
  flag := k.flag
  queue := k.queue
  loop c hcall rest hstage := by
    rcases List.mem_append.1 hcall with hcall | hcall
    · exact k.loop c hcall rest hstage
    · obtain rfl := List.mem_singleton.1 hcall
      cases hstage
  late := k.late
  count hd := by
    have hold := k.count hd
    have hcand : [data].filterMap candidateOf = (candidateOf data).toList := by
      cases h : candidateOf data <;> simp [h]
    simp only [added, received, List.map_append, List.filterMap_append, List.flatMap_append,
      ← Multiset.coe_add, Multiset.coe_nil, add_zero, List.map_cons, List.map_nil,
      List.flatMap_cons, List.flatMap_nil, SignalCall.waiting, hcand] at *
    rw [← hold]
    abel
  offers hd m c hm hoff := by
    rw [List.getElem?_append] at hm
    split at hm
    · exact k.offers hd m c hm hoff
    · obtain rfl := List.mem_singleton.1 (List.mem_of_getElem? hm)
      exact ⟨SignalStage.noConfusion, SignalStage.noConfusion⟩

/-- What changes only the offer of `ensurePeer`, drops the peer or concerns the socket. -/
theorem Kept.aside {s' : PeerSession} (k : s.Kept []) (hcalls : s'.calls = s.calls)
    (hqueue : s'.pendingCandidates = s.pendingCandidates)
    (hset : s'.remoteDescSet = s.remoteDescSet) (hlog : s'.log = s.log)
    (hdropped : s'.dropped = false → s.dropped = false) : s'.Kept [] where
  flag := by rw [hset, hlog, k.flag]
  queue := by rw [hset, hqueue]; exact k.queue
  loop := by rw [hcalls, hset]; exact k.loop
  late := by rw [hlog]; exact k.late
  count hd := by
    rw [added, received, hcalls, hqueue, hlog]
    exact k.count (hdropped hd)
  offers hd := by
    rw [hcalls, hlog]
    exact k.offers (hdropped hd)

theorem Kept.step {a : Action} (k : s.Kept []) (h : s.Lossless a = true) :
    (s.step a).Kept [] := by
  cases a with
  | signal data =>
    rw [PeerSession.step]
    split
    · exact k
    · exact k.receive data
  | settle n r =>
    rw [PeerSession.step]
    split
    · exact k
    · rename_i call hc
      rw [Lossless, hc] at h
      exact k.goOn hc h
  | offer r =>
    unfold PeerSession.step
    dsimp only
    split
    · exact k.aside rfl rfl rfl rfl id
    · exact k.aside rfl rfl rfl rfl id
    · exact k.aside rfl rfl rfl rfl Bool.noConfusion
    · exact k.aside rfl rfl rfl rfl Bool.noConfusion
    · exact k
  | drop => exact k.aside rfl rfl rfl rfl Bool.noConfusion
  | socket isOpen => exact k.aside rfl rfl rfl rfl id

/-! ## Delivery -/

/-- **Every candidate once, every offer answered.** In every run whose steps lose nothing,
nothing is early; and when no call is on its way and the peer was not dropped, every candidate
received was passed on once, and every offer was answered or its own steps rejected. -/
theorem delivered_of_lossless (initiator : Bool) (first : Option Json) (acts : List Action)
    (h : Runs.Along step (fun s a => s.Lossless a = true) (new initiator first) acts)
    (hd : (Runs.run step (new initiator first) acts).dropped = false) :
    (Runs.run step (new initiator first) acts).Delivered := by
  have hkept := h.invariant (I := fun s => s.Kept []) (fun _ _ ha k => k.step ha)
    (kept_new initiator first)
  exact hkept.delivered hd

namespace Sample

/-- `{ kind: "sdp", description: { type: "offer", sdp: "" } }` -/
def offer : Json :=
  .obj [(js "kind", .str (js "sdp")),
    (js "description", .obj [(js "type", .str (js "offer")), (js "sdp", .str [])])]

/-- `{ kind: "ice", candidate: { candidate } }` -/
def ice (candidate : JsString) : Json :=
  .obj [(js "kind", .str (js "ice")), (js "candidate", .obj [(js "candidate", .str candidate)])]

/-- Two candidates come before the offer, and wait for its description. -/
def early : List Action :=
  [.settle 0 .resolved, .signal (ice (js "b")), .settle 1 .resolved, .signal offer,
    .settle 2 .resolved, .settle 2 .resolved]

/-- Every step of the offer resolves; a late candidate is rejected. -/
def whole : List Action :=
  early ++ [.settle 2 .resolved, .signal (ice (js "c")), .settle 3 .resolved, .settle 2 .resolved,
    .settle 3 .rejected, .settle 2 .resolved, .settle 2 .resolved]

end Sample

theorem delivered_of_lossless_sample :
    (Runs.run step (new false (some (Sample.ice (js "a")))) Sample.whole).Delivered :=
  delivered_of_lossless _ _ _ (Runs.along_of_check (by decide +kernel)) (by decide +kernel)

example : (Runs.run step (new false (some (Sample.ice (js "a")))) Sample.whole).added.length = 3 := by
  decide +kernel

/-- The queue is emptied before its candidates are passed on, and one `catch` covers the loop and
the answer: when the first candidate is rejected, the second is lost and the offer unanswered. -/
theorem candidate_lost :
    ¬ ∀ (initiator : Bool) (first : Option Json) (acts : List Action),
      (Runs.run step (new initiator first) acts).dropped = false →
      (Runs.run step (new initiator first) acts).Delivered := by
  intro h
  have hdelivered := h false (some (Sample.ice (js "a"))) (Sample.early ++ [.settle 2 .rejected])
    (by decide +kernel)
  have hdesc : Described (Runs.run step (new false (some (Sample.ice (js "a"))))
      (Sample.early ++ [.settle 2 .rejected])).log := ⟨2, List.mem_cons_self⟩
  have honce := (hdelivered.once (by decide +kernel) hdesc).length_eq
  exact absurd honce (by decide +kernel)

end PeerSession

end TangentFeed.WebRtc
