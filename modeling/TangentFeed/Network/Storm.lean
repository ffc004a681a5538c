import TangentFeed.Lib.Descent
import TangentFeed.Network.Exchange
import TangentFeed.Network.Sending
import TangentFeed.Replica.Sample

/-!
# No storm

In an infinite run with finitely many causes, messages are sent only finitely
often: `no_storm`. A greeting is answered by a greeting only where a peer is new,
which the `budget` counts. After the last greeting the other types run out one
after the other, in the order in which they ask for each other.
-/

namespace TangentFeed

open Descent Std

variable {cr : Crypto} {ι : Type} {space : JsString}

/-- What the protocol does not cause itself. -/
def Action.isCause : Action ι → Bool
  | .call _ c => c.writes
  | .start _ | .peerConnect _ | .reopen .. | .inject .. => true
  | .stop _ | .syncOnce .. | .resumeSync _ | .deliver .. | .resume .. => false

def Outcome.cost (f : Handler → Nat) : Outcome → Nat
  | wait c => f c
  | done | failed => 0

def Source.cost (f : Handler → Nat) : Source → Nat
  | message _ => 0
  | waiting c => f c

/-- What is left of a handler if it is for a message of type `ty`. -/
def Handler.left (ty : MsgType) (c : Handler) : Nat := if c.t = some ty then c.rank else 0

/-- A greeting that waits to be sent. -/
def Handler.greets (c : Handler) : Nat := if c.speaks = some .hello then 1 else 0

/-- The peer that a handler may still find to be new. -/
def Handler.newcomer : Handler → Option JsString
  | helloObserve sender _ | helloGreet sender => some sender
  | greetSend _ | helloSendGreet .. | helloKeys _ | helloFrontier _ | helloSince .. | sinceRecord ..
  | sinceRead .. | sinceKeys .. | sinceSend .. | opsApply .. | opsFrontier _ | opsAck ..
  | ackRecord .. => none

def Handler.meets (c : Handler) : Nat := if c.newcomer.isSome then 1 else 0

/-- The devices that are no peers yet. -/
def unmet (D : Finset JsString) (peers : JsMap (Option Frontier)) : Nat :=
  (D.filter fun d => peers.contains d = false).card

/-- The greetings a replica may still send without a cause: while it is started,
one for every device that is no peer yet. -/
def Node.budget (D : Finset JsString) (n : Node) : Nat :=
  weight Handler.greets n.pending +
    if n.started then unmet D n.peers else weight Handler.meets n.pending

namespace Config

variable [DecidableEq ι] {w w' : Config ι} {a : Action ι} {i j : ι} {h : Nat} {src : Source}

/-! ## The weight of what waits -/

theorem Ran.waits {c : Handler} (hr : Ran cr space w a w' j h src)
    (hc : (w'.node j).pending[h]? = some c) : ((w.node j).stretch cr src).outcome = .wait c := by
  rw [hr.node.2.2] at hc
  cases ho : ((w.node j).stretch cr src).outcome with
  | wait c' =>
    rw [ho, pendingAfter, ExtTreeMap.getElem?_insert_self] at hc
    rw [Option.some.inj hc]
  | done => rw [ho] at hc; simp [pendingAfter] at hc
  | failed => rw [ho] at hc; simp [pendingAfter] at hc

/-- **A stretch** puts what it leaves in the place of what it runs from. -/
theorem Ran.weight (hr : Ran cr space w a w' j h src) (f : Handler → Nat) :
    weight f (w'.node j).pending + Source.cost f src ≤
      weight f (w.node j).pending + Outcome.cost f ((w.node j).stretch cr src).outcome := by
  obtain ⟨-, -, hp⟩ := hr.node
  have hsrc : Source.cost f src ≤ ((w.node j).pending[h]?).elim 0 f := by
    cases src with
    | message msg => exact Nat.zero_le _
    | waiting c =>
      cases hr.turn with
      | resume hc =>
        rw [hc]
        exact Nat.le_refl _
  have hout : ((w'.node j).pending[h]?).elim 0 f =
      Outcome.cost f ((w.node j).stretch cr src).outcome := by
    rw [hp]
    cases ((w.node j).stretch cr src).outcome with
    | wait c => rw [pendingAfter, ExtTreeMap.getElem?_insert_self]; rfl
    | done => rw [pendingAfter, ExtTreeMap.getElem?_erase_self]; rfl
    | failed => rw [pendingAfter, ExtTreeMap.getElem?_erase_self]; rfl
  have hrest : ∀ k, k ≠ h → (w'.node j).pending[k]? = (w.node j).pending[k]? := by
    intro k hk
    rw [hp]
    cases ((w.node j).stretch cr src).outcome with
    | wait c => rw [pendingAfter, ExtTreeMap.getElem?_insert_eq, if_neg fun e => hk e.symm]
    | done => rw [pendingAfter, ExtTreeMap.getElem?_erase_eq, if_neg fun e => hk e.symm]
    | failed => rw [pendingAfter, ExtTreeMap.getElem?_erase_eq, if_neg fun e => hk e.symm]
  have := weight_change (f := f) hrest
  omega

/-! ## Handlers of one type -/

theorem left_stretch (cr : Crypto) (n : Node) {ty : MsgType}
    (hsrc : ∀ msg, src = .message msg → msg.body.t ≠ ty) :
    Outcome.cost (Handler.left ty) (n.stretch cr src).outcome ≤ Source.cost (Handler.left ty) src ∧
      ((∃ c, src = .waiting c ∧ c.t = some ty) →
        Outcome.cost (Handler.left ty) (n.stretch cr src).outcome < Source.cost (Handler.left ty) src) := by
  have hpos : ∀ c : Handler, c.t = some ty → 0 < c.left ty := by
    intro c hc
    unfold Handler.left
    rw [if_pos hc]
    exact c.rank_pos
  have hzero : 0 ≤ Source.cost (Handler.left ty) src ∧
      ((∃ c, src = .waiting c ∧ c.t = some ty) → 0 < Source.cost (Handler.left ty) src) := by
    refine ⟨Nat.zero_le _, ?_⟩
    rintro ⟨c, rfl, hc⟩
    exact hpos c hc
  cases ho : (n.stretch cr src).outcome with
  | done => exact hzero
  | failed => exact hzero
  | wait c' =>
    have ht := (Node.leaves_of_wait ho).t
    change c'.left ty ≤ _ ∧ (_ → c'.left ty < _)
    cases src with
    | message msg =>
      have hne : c'.t ≠ some ty := by
        rw [ht]
        exact fun e => hsrc msg rfl (Option.some.inj e)
      unfold Handler.left
      rw [if_neg hne]
      exact hzero
    | waiting c =>
      have hlt : c'.rank < c.rank := Node.resume_rank ho
      have ht : c'.t = c.t := ht
      change c'.left ty ≤ c.left ty ∧ (_ → c'.left ty < c.left ty)
      unfold Handler.left
      rw [ht]
      split
      · exact ⟨hlt.le, fun _ => hlt⟩
      · rename_i hne
        refine ⟨Nat.le_refl _, ?_⟩
        rintro ⟨d, hd, hdt⟩
        rw [← Source.waiting.inj hd] at hdt
        exact absurd hdt hne

/-- **Handlers of one type** only get nearer to their end, but for a message of
the type. -/
theorem left_step {ty : MsgType} (hs : Shape cr space w a w') (ha : a.isCause = false)
    (ht : ∀ i h msg, Turn space w i h a (.message msg) → msg.body.t ≠ ty) (j : ι) :
    weight (Handler.left ty) (w'.node j).pending ≤ weight (Handler.left ty) (w.node j).pending ∧
      ((∃ h c, Ran cr space w a w' j h (.waiting c) ∧ c.t = some ty) →
        weight (Handler.left ty) (w'.node j).pending < weight (Handler.left ty) (w.node j).pending) := by
  have ran {h : Nat} {src : Source} (hr : Ran cr space w a w' j h src) :
      weight (Handler.left ty) (w'.node j).pending ≤ weight (Handler.left ty) (w.node j).pending ∧
        ((∃ c, src = .waiting c ∧ c.t = some ty) →
          weight (Handler.left ty) (w'.node j).pending < weight (Handler.left ty) (w.node j).pending) := by
    have hw := hr.weight (Handler.left ty)
    have hsrc : ∀ msg, src = .message msg → msg.body.t ≠ ty := by
      rintro msg rfl
      exact ht j h msg hr.turn
    obtain ⟨hle, hlt⟩ := left_stretch cr (w.node j) hsrc
    refine ⟨by omega, fun hc => ?_⟩
    have := hlt hc
    omega
  refine ⟨?_, fun ⟨h, c, hr, hc⟩ => (ran hr).2 ⟨c, rfl, hc⟩⟩
  cases hs.replicates j with
  | same _ _ hp => rw [hp]
  | greet hg => rcases hg with rfl | rfl <;> cases ha
  | reopen hg => subst hg; cases ha
  | stop _ _ hp => rw [hp]
  | ran hr => exact (ran hr).1

/-! ## Greetings -/

theorem unmet_insert_le (D : Finset JsString) (peers : JsMap (Option Frontier)) (d : JsString)
    (f : Option Frontier) : unmet D (peers.insert d f) ≤ unmet D peers := by
  refine Finset.card_le_card fun x hx => ?_
  rw [Finset.mem_filter, ExtTreeMap.contains_insert, Bool.or_eq_false_iff] at hx
  exact Finset.mem_filter.2 ⟨hx.1, hx.2.2⟩

/-- A new peer is one less. -/
theorem unmet_insert_lt {D : Finset JsString} {peers : JsMap (Option Frontier)} {d : JsString}
    (hd : d ∈ D) (hnew : peers.contains d = false) (f : Option Frontier) :
    unmet D (peers.insert d f) < unmet D peers := by
  refine Finset.card_lt_card ⟨fun x hx => ?_, fun hsub => ?_⟩
  · rw [Finset.mem_filter, ExtTreeMap.contains_insert, Bool.or_eq_false_iff] at hx
    exact Finset.mem_filter.2 ⟨hx.1, hx.2.2⟩
  · have hx := hsub (Finset.mem_filter.2 ⟨hd, hnew⟩)
    rw [Finset.mem_filter, ExtTreeMap.contains_insert_self] at hx
    cases hx.2

/-- **A greeting back is paid for by a new peer.** -/
theorem greets_unmet (cr : Crypto) (n : Node) {D : Finset JsString}
    (hd : ∀ c d, src = .waiting c → c.newcomer = some d → d ∈ D) :
    Outcome.cost Handler.greets (n.stretch cr src).outcome + unmet D (n.stretch cr src).peers ≤
      unmet D n.peers := by
  have same {out : Outcome} (ho : Outcome.cost Handler.greets out = 0) :
      Outcome.cost Handler.greets out + unmet D n.peers ≤ unmet D n.peers := by
    rw [ho, Nat.zero_add]
  have met {out : Outcome} {d : JsString} {f : Option Frontier}
      (ho : Outcome.cost Handler.greets out = 0) :
      Outcome.cost Handler.greets out + unmet D (n.peers.insert d f) ≤ unmet D n.peers := by
    rw [ho, Nat.zero_add]
    exact unmet_insert_le _ _ _ _
  have call {α : Type} {r : Reply α} {ok : α → Outcome}
      (ho : ∀ x, Outcome.cost Handler.greets (ok x) = 0) :
      Outcome.cost Handler.greets (n.calling r ok).outcome + unmet D n.peers ≤ unmet D n.peers := by
    apply same
    unfold Node.calling
    simp only
    split
    · exact ho _
    · rfl
  cases src with
  | message msg =>
    obtain ⟨v, space, sender, body⟩ := msg
    cases body with
    | since receiver f => exact met rfl
    | ack receiver f => exact met rfl
    | ops receiver js =>
      unfold Node.stretch Node.handle
      simp only
      split
      · exact same rfl
      · split
        · exact same rfl
        · exact same rfl
    | _ => exact same rfl
  | waiting c =>
    cases c with
    | helloGreet sender =>
      unfold Node.stretch Node.resume
      simp only
      split
      · exact same rfl
      · rename_i hnew
        have hlt := unmet_insert_lt (hd _ sender rfl rfl) (eq_false_of_ne_true hnew) none
        change 1 + unmet D (n.peers.insert sender none) ≤ _
        omega
    | helloObserve sender clock => exact call fun _ => rfl
    | sinceRecord sender f => exact call fun _ => rfl
    | ackRecord sender f => exact call fun _ => rfl
    | opsApply sender ops =>
      refine call fun k => ?_
      split
      · rfl
      · rfl
    | sinceRead sender f =>
      unfold Node.stretch Node.resume Node.still
      simp only
      split
      · exact same rfl
      · exact same rfl
    | _ => exact same rfl

/-- The same of a replica that is stopped, in which the handlers go on. -/
theorem greets_meets (cr : Crypto) (n : Node) (c : Handler) :
    Outcome.cost Handler.greets (n.stretch cr (.waiting c)).outcome +
      Outcome.cost Handler.meets (n.stretch cr (.waiting c)).outcome ≤ c.meets := by
  have call {α : Type} {r : Reply α} {ok : α → Outcome} {m : Nat}
      (ho : ∀ x, Outcome.cost Handler.greets (ok x) + Outcome.cost Handler.meets (ok x) ≤ m) :
      Outcome.cost Handler.greets (n.calling r ok).outcome +
        Outcome.cost Handler.meets (n.calling r ok).outcome ≤ m := by
    unfold Node.calling
    simp only
    split
    · exact ho _
    · exact Nat.zero_le _
  cases c with
  | helloGreet sender =>
    unfold Node.stretch Node.resume
    simp only
    split
    · exact Nat.zero_le _
    · exact Nat.le_refl _
  | helloObserve sender clock => exact call fun _ => Nat.le_refl _
  | sinceRecord sender f => exact call fun _ => Nat.le_refl _
  | ackRecord sender f => exact call fun _ => Nat.le_refl _
  | opsApply sender ops =>
    refine call fun k => ?_
    split
    · exact Nat.le_refl _
    · exact Nat.le_refl _
  | sinceRead sender f =>
    unfold Node.stretch Node.resume Node.still
    simp only
    split
    · exact Nat.le_refl _
    · exact Nat.le_refl _
  | _ => exact Nat.le_refl _

/-- A stretch spends from the budget what it sends. -/
theorem Ran.budget (hr : Ran cr space w a w' j h src) {D : Finset JsString}
    (hd : ∀ c d, src = .waiting c → c.newcomer = some d → d ∈ D) :
    (w'.node j).budget D + Source.cost Handler.greets src ≤ (w.node j).budget D := by
  have hg := hr.weight Handler.greets
  have hm := hr.weight Handler.meets
  have hu := greets_unmet cr (w.node j) hd
  obtain ⟨hs, hp, -⟩ := hr.node
  unfold Node.budget
  rw [hs, hp]
  cases hstarted : (w.node j).started with
  | true =>
    simp only [if_true]
    omega
  | false =>
    cases src with
    | message msg =>
      have hacc : (w.node j).accepts space msg = true := by
        cases hr.turn with
        | deliver _ hacc _ => exact hacc
        | inject hacc _ => exact hacc
      unfold Node.accepts at hacc
      rw [hstarted] at hacc
      simp at hacc
    | waiting c =>
      have hgm := greets_meets cr (w.node j) c
      have hc : Source.cost Handler.meets (.waiting c) = c.meets := rfl
      simp only [if_false, Bool.false_eq_true]
      omega

/-- All devices a replica can meet are in `D`. -/
structure Within (D : Finset JsString) (w : Config ι) : Prop where
  sender : ∀ msg ∈ w.sent, msg.sender ∈ D
  newcomer : ∀ {i : ι} {h : Nat} {c : Handler} {d : JsString},
    (w.node i).pending[h]? = some c → c.newcomer = some d → d ∈ D

/-- A newcomer is the sender of a message. -/
theorem newcomer_stretch {n : Node} {c : Handler} {d : JsString}
    (ho : (n.stretch cr src).outcome = .wait c) (hc : c.newcomer = some d) :
    (∃ msg, src = .message msg ∧ msg.sender = d) ∨
      ∃ c', src = .waiting c' ∧ c'.newcomer = some d := by
  have hl := Node.leaves_of_wait ho
  cases src with
  | message msg =>
    refine .inl ⟨msg, rfl, ?_⟩
    obtain ⟨v, space, sender, body⟩ := msg
    cases body with
    | hello clock key =>
      obtain rfl := Outcome.wait.inj ho
      exact Option.some.inj hc
    | ops receiver js =>
      cases hl with
      | hello hs => obtain ⟨_, _, hb⟩ := hs; cases hb
      | sinceRecord | opsApply | ackRecord => cases hc
    | keys receiver keys => cases ho
    | since receiver f =>
      obtain rfl := Outcome.wait.inj ho
      cases hc
    | ack receiver f =>
      obtain rfl := Outcome.wait.inj ho
      cases hc
  | waiting c' =>
    refine .inr ⟨c', rfl, ?_⟩
    cases c' with
    | helloObserve sender clock =>
      obtain ⟨-, -, h⟩ := Node.calling_outcome ho nofun
      obtain rfl := Outcome.wait.inj h
      exact hc
    | helloGreet sender =>
      unfold Node.stretch Node.resume at ho
      simp only at ho
      split at ho
      · obtain rfl := Outcome.wait.inj ho
        cases hc
      · obtain rfl := Outcome.wait.inj ho
        cases hc
    | helloSendGreet sender clock =>
      obtain rfl := Outcome.wait.inj ho
      cases hc
    | helloKeys sender =>
      obtain rfl := Outcome.wait.inj ho
      cases hc
    | helloFrontier sender =>
      obtain rfl := Outcome.wait.inj ho
      cases hc
    | greetSend clock => cases ho
    | _ =>
      cases hl with
      | hello hs => exact hs.elim
      | _ => cases hc

theorem Within.step {D : Finset JsString} (hw : Within D w) (hs : Shape cr space w a w')
    (hd : ∀ i, (w'.node i).engine.deviceId ∈ D)
    (hin : ∀ i msg, a = .inject i msg → msg.sender ∈ D) : Within D w' := by
  refine ⟨fun msg hm => ?_, fun {i h c d} hc hn => ?_⟩
  · obtain ⟨l, hl, hsends⟩ := hs.sends
    rw [hl] at hm
    rcases List.mem_append.1 hm with hm | hm
    · exact hw.sender msg hm
    · obtain ⟨j, b, -, rfl⟩ := hsends msg hm
      exact hd j
  · rcases hs.pending hc with hc | ⟨src, hr, -⟩ | hg
    · exact hw.newcomer hc hn
    · rcases newcomer_stretch (hr.waits hc) hn with ⟨msg, rfl, rfl⟩ | ⟨c', rfl, hn'⟩
      · cases hr.turn with
        | deliver hk _ _ => exact hw.sender msg (List.mem_of_getElem? hk)
        | inject _ _ => exact hin i msg rfl
      · cases hr.turn with
        | resume hc' => exact hw.newcomer hc' hn'
    · obtain ⟨clock, rfl⟩ := hg.clock
      cases hn

/-- **The budget is spent**: but for causes, and for stopping a replica. -/
theorem budget_step {D : Finset JsString} (hw : Within D w) (hs : Shape cr space w a w')
    (ha : a.isCause = false) (hstop : ∀ i, a = .stop i → (w.node i).started = false) (j : ι) :
    (w'.node j).budget D ≤ (w.node j).budget D ∧
      ((∃ h c, Ran cr space w a w' j h (.waiting c) ∧ c.speaks = some .hello) →
        (w'.node j).budget D < (w.node j).budget D) := by
  have ran {h : Nat} {src : Source} (hr : Ran cr space w a w' j h src) :
      (w'.node j).budget D + Source.cost Handler.greets src ≤ (w.node j).budget D := by
    refine hr.budget fun c d hsrc hn => ?_
    subst hsrc
    cases hr.turn with
    | resume hc => exact hw.newcomer hc hn
  constructor
  · cases hs.replicates j with
    | same h1 h2 h3 =>
      unfold Node.budget
      rw [h1, h2, h3]
    | greet hg => rcases hg with rfl | rfl <;> cases ha
    | reopen hg => subst hg; cases ha
    | stop hg h1 h2 =>
      unfold Node.budget
      rw [h1, h2, hstop j hg]
      simp only [Bool.false_eq_true, if_false, Nat.le_refl]
    | ran hr => exact (Nat.le_add_right _ _).trans (ran hr)
  · rintro ⟨h, c, hr, hc⟩
    have hcost : Source.cost Handler.greets (.waiting c) = 1 := by
      change c.greets = 1
      unfold Handler.greets
      rw [if_pos hc]
    have := ran hr
    omega

end Config

/-! ## Infinite runs -/

/-- An infinite run, from any configuration. -/
structure Execution (cr : Crypto) (space : JsString) (ι : Type) where
  start : Config ι
  act : Nat → Action ι

namespace Execution

open Config

variable [DecidableEq ι] (X : Execution cr space ι)

def conf : Nat → Config ι
  | 0 => X.start
  | t + 1 => (conf t).step cr space (X.act t)

/-- When something happens that the protocol does not cause itself. -/
def causes : Set Nat := {t | (X.act t).isCause = true}

/-- When a message is delivered to a replica to which it was delivered before. -/
def repeats : Set Nat :=
  {t | ∃ i k t', X.act t = .deliver i k ∧ t' < t ∧ X.act t' = .deliver i k ∧
    k < (X.conf t').sent.length}

/-- The messages sent at `t`. -/
def Sent (t : Nat) (msg : WireMsg) : Prop :=
  ∃ l, (X.conf (t + 1)).sent = (X.conf t).sent ++ l ∧ msg ∈ l

/-- When a message of type `ty` is sent. -/
def sends (ty : MsgType) : Set Nat := {t | ∃ msg, X.Sent t msg ∧ msg.body.t = ty}

/-- When one is taken in. -/
def takes (ty : MsgType) : Set Nat :=
  {t | ∃ i h msg, Turn space (X.conf t) i h (X.act t) (.message msg) ∧ msg.body.t = ty}

/-- When a handler of one goes on. -/
def turns (ty : MsgType) : Set Nat :=
  {t | ∃ i h c, Ran cr space (X.conf t) (X.act t) (X.conf (t + 1)) i h (.waiting c) ∧
    c.t = some ty}

/-- When a started replica is stopped. -/
def stops : Set Nat := {t | ∃ i, X.act t = .stop i ∧ ((X.conf t).node i).started = true}

variable {X} {t : Nat} {ty : MsgType} {msg : WireMsg}

theorem shape (X : Execution cr space ι) (t : Nat) :
    Shape cr space (X.conf t) (X.act t) (X.conf (t + 1)) := step_shape _ _

omit [DecidableEq ι] in
theorem isCause_of_notMem (h : t ∉ X.causes) : (X.act t).isCause = false :=
  eq_false_of_ne_true h

theorem Sent.cases (h : X.Sent t msg) :
    ∃ j b, Sends cr space (X.conf t) (X.act t) (X.conf (t + 1)) j b ∧
      msg = ⟨wireVersion, space, ((X.conf (t + 1)).node j).engine.deviceId, b⟩ := by
  obtain ⟨l, hl, hm⟩ := h
  obtain ⟨l', hl', hsends⟩ := (X.shape t).sends
  rw [hl] at hl'
  exact hsends msg (List.append_cancel_left hl' ▸ hm)

/-- But for a local write, a handler waited to send it. -/
theorem Sent.spoken (h : X.Sent t msg) (ht : t ∉ X.causes) :
    ∃ j h c, Ran cr space (X.conf t) (X.act t) (X.conf (t + 1)) j h (.waiting c) ∧
      c.speaks = some msg.body.t := by
  obtain ⟨j, b, hb, rfl⟩ := h.cases
  rcases hb.cases with ⟨c, ev, ha, hw, -⟩ | ⟨h, c, hr, hc, -⟩
  · have hcause : (X.act t).isCause = true := by
      rw [ha]
      exact hw
    exact absurd hcause ht
  · exact ⟨j, h, c, hr, hc⟩

/-! ## From sending to the end of the handlers -/

section Finite

variable [Fintype ι]

omit [Fintype ι] in
/-- Messages that are sent finitely often have finitely many numbers. -/
theorem finite_numbers (h : (X.sends ty).Finite) :
    {k : Nat | ∃ t, ∃ msg : WireMsg, (X.conf t).sent[k]? = some msg ∧ msg.body.t = ty}.Finite := by
  obtain ⟨T, hT⟩ := h.bddAbove
  have hmono : Monotone fun t => (X.conf t).sent.length := by
    refine monotone_nat_of_le_succ fun t => ?_
    obtain ⟨l, hl, -⟩ := (X.shape t).sends
    rw [hl, List.length_append]
    exact Nat.le_add_right _ _
  -- none of them is sent after `T`
  have hlate : ∀ n k msg, (X.conf (T + 1 + n)).sent[k]? = some msg → msg.body.t = ty →
      k < (X.conf (T + 1)).sent.length := by
    intro n
    induction n with
    | zero => exact fun k msg hk _ => (List.getElem?_eq_some_iff.1 hk).1
    | succ n ih =>
      intro k msg hk ht
      obtain ⟨l, hl, -⟩ := (X.shape (T + 1 + n)).sends
      rw [← Nat.add_assoc, hl] at hk
      rcases Nat.lt_or_ge k (X.conf (T + 1 + n)).sent.length with hlt | hge
      · rw [List.getElem?_append_left hlt] at hk
        exact ih k msg hk ht
      · rw [List.getElem?_append_right hge] at hk
        have hmem : T + 1 + n ∈ X.sends ty := ⟨msg, ⟨l, hl, List.mem_of_getElem? hk⟩, ht⟩
        have := hT hmem
        omega
  refine (Set.finite_lt_nat (X.conf (T + 1)).sent.length).subset ?_
  rintro k ⟨t, msg, hk, ht⟩
  rcases Nat.le_total t (T + 1) with hle | hge
  · exact Nat.lt_of_lt_of_le (List.getElem?_eq_some_iff.1 hk).1 (hmono hle)
  · obtain ⟨n, rfl⟩ := Nat.exists_eq_add_of_le hge
    exact hlate n k msg hk ht

/-- **Messages that are sent finitely often are taken in finitely often.** -/
theorem finite_takes (hc : X.causes.Finite) (hr : X.repeats.Finite) (h : (X.sends ty).Finite) :
    (X.takes ty).Finite := by
  let K := {k : Nat | ∃ t, ∃ msg : WireMsg, (X.conf t).sent[k]? = some msg ∧ msg.body.t = ty}
  have hK : K.Finite := finite_numbers h
  -- but for repeats, a message is delivered to a replica once
  let once (i : ι) (k : Nat) : Set Nat :=
    {t | X.act t = .deliver i k ∧ k < (X.conf t).sent.length ∧ t ∉ X.repeats}
  have honce : ∀ i k, (once i k).Finite := by
    intro i k
    refine Set.Subsingleton.finite fun t ht t' ht' => ?_
    rcases Nat.lt_trichotomy t t' with hlt | heq | hgt
    · exact absurd ⟨i, k, t, ht'.1, hlt, ht.1, ht.2.1⟩ ht'.2.2
    · exact heq
    · exact absurd ⟨i, k, t', ht.1, hgt, ht'.1, ht'.2.1⟩ ht.2.2
  have hall : (⋃ i, ⋃ k ∈ K, once i k).Finite :=
    Set.finite_iUnion fun i => hK.biUnion fun k _ => honce i k
  refine ((hc.union hr).union hall).subset ?_
  rintro t ⟨i, h, msg, hturn, ht⟩
  by_cases hrep : t ∈ X.repeats
  · exact .inl (.inr hrep)
  · generalize ha : X.act t = a at hturn
    cases hturn with
    | @deliver k _ hk _ _ =>
      refine .inr (Set.mem_iUnion.2 ⟨i, Set.mem_biUnion (x := k) ⟨t, msg, hk, ht⟩ ⟨ha, ?_, hrep⟩⟩)
      exact (List.getElem?_eq_some_iff.1 hk).1
    | inject _ _ =>
      refine .inl (.inl ?_)
      change (X.act t).isCause = true
      rw [ha]
      rfl

/-- **Handlers of messages taken in finitely often go on finitely often.** -/
theorem finite_turns (hc : X.causes.Finite) (ht : (X.takes ty).Finite) : (X.turns ty).Finite := by
  have step {t : Nat} (h : t ∉ X.causes ∪ X.takes ty) (j : ι) :=
    left_step (X.shape t) (isCause_of_notMem fun hm => h (.inl hm))
      (fun i k msg hturn hty => h (.inr ⟨i, k, msg, hturn, hty⟩)) j
  refine finite_of_falls (Φ := fun t => ∑ i, weight (Handler.left ty) ((X.conf t).node i).pending)
    (hc.union ht) (fun t h => Finset.sum_le_sum fun i _ => (step h i).1) fun t hturn h => ?_
  obtain ⟨i, k, c, hr, hty⟩ := hturn
  exact Finset.sum_lt_sum (fun i _ => (step h i).1)
    ⟨i, Finset.mem_univ i, (step h i).2 ⟨k, c, hr, hty⟩⟩

/-! ## Greetings run out -/

theorem finite_stops (hc : X.causes.Finite) : X.stops.Finite := by
  have step {t : Nat} (h : t ∉ X.causes) (j : ι) :
      (if ((X.conf (t + 1)).node j).started then 1 else 0 : Nat) ≤
        if ((X.conf t).node j).started then 1 else 0 := by
    have ha := isCause_of_notMem h
    cases (X.shape t).replicates j with
    | same h1 => rw [h1]
    | greet hg => rcases hg with hg | hg <;> (rw [hg] at ha; cases ha)
    | reopen hg => rw [hg] at ha; cases ha
    | stop hg h1 =>
      rw [h1]
      exact Nat.zero_le _
    | ran hr => rw [hr.node.1]
  have stopped {t : Nat} {i : ι} (ha : X.act t = .stop i) :
      ((X.conf (t + 1)).node i).started = false := by
    change (((X.conf t).step cr space (X.act t)).node i).started = false
    rw [ha]
    simp [Config.step, setNode]
  refine finite_of_falls (Φ := fun t => ∑ i, if ((X.conf t).node i).started then 1 else 0) hc
    (fun t h => Finset.sum_le_sum fun i _ => step h i) fun t hstop h => ?_
  obtain ⟨i, ha, hi⟩ := hstop
  refine Finset.sum_lt_sum (fun i _ => step h i) ⟨i, Finset.mem_univ i, ?_⟩
  rw [stopped ha, hi]
  decide

/-- The devices change only where a replica is opened again. -/
theorem finite_devices (hc : X.causes.Finite) :
    {s | ∃ t i, ((X.conf t).node i).engine.deviceId = s}.Finite := by
  let times := insert 0 (Nat.succ '' X.causes)
  have htimes : times.Finite := (hc.image _).insert 0
  refine (Set.finite_iUnion fun i =>
    htimes.image fun t => ((X.conf t).node i).engine.deviceId).subset ?_
  rintro s ⟨t, i, rfl⟩
  refine Set.mem_iUnion.2 ⟨i, ?_⟩
  induction t with
  | zero => exact ⟨0, .inl rfl, rfl⟩
  | succ t ih =>
    by_cases ht : t ∈ X.causes
    · exact ⟨t + 1, .inr ⟨t, ht, rfl⟩, rfl⟩
    · obtain ⟨t', ht', he⟩ := ih
      refine ⟨t', ht', he.trans ((X.shape t).device fun opts seed ha => ?_).symm⟩
      have hcause := isCause_of_notMem ht
      rw [ha] at hcause
      cases hcause

/-- There are finitely many devices to meet. -/
theorem exists_within (hc : X.causes.Finite) : ∃ D, ∀ t, Within D (X.conf t) := by
  have hinjected : {s | ∃ t ∈ X.causes, ∃ i msg, X.act t = .inject i msg ∧ msg.sender = s}.Finite := by
    refine (hc.biUnion fun t _ => Set.Subsingleton.finite ?_).subset fun s ⟨t, ht, h⟩ =>
      Set.mem_biUnion (t := fun t => {s | ∃ i msg, X.act t = .inject i msg ∧ msg.sender = s}) ht h
    rintro s ⟨i, msg, ha, rfl⟩ s' ⟨i', msg', ha', rfl⟩
    rw [ha] at ha'
    cases ha'
    rfl
  have hsenders : {s | ∃ msg ∈ (X.conf 0).sent, msg.sender = s}.Finite :=
    (X.conf 0).sent.finite_toSet.image WireMsg.sender
  have hwaiting : {s | ∃ i, ∃ h : Nat, ∃ c, ((X.conf 0).node i).pending[h]? = some c ∧
      c.newcomer = some s}.Finite := by
    refine (Set.finite_iUnion fun i => (((X.conf 0).node i).pending.toList.filterMap
      fun e => e.2.newcomer).finite_toSet).subset ?_
    rintro s ⟨i, h, c, hp, hn⟩
    exact Set.mem_iUnion.2 ⟨i, List.mem_filterMap.2
      ⟨(h, c), ExtTreeMap.mem_toList_iff_getElem?_eq_some.2 hp, hn⟩⟩
  have hall := ((hinjected.union (finite_devices hc)).union hsenders).union hwaiting
  refine ⟨hall.toFinset, fun t => ?_⟩
  induction t with
  | zero =>
    refine ⟨fun msg hm => hall.mem_toFinset.2 (.inl (.inr ⟨msg, hm, rfl⟩)), fun {i h c d} hp hn => ?_⟩
    exact hall.mem_toFinset.2 (.inr ⟨i, h, c, hp, hn⟩)
  | succ t ih =>
    refine ih.step (X.shape t) (fun i => ?_) fun i msg ha => ?_
    · exact hall.mem_toFinset.2 (.inl (.inl (.inr ⟨t + 1, i, rfl⟩)))
    · have hcause : (X.act t).isCause = true := by
        rw [ha]
        rfl
      exact hall.mem_toFinset.2 (.inl (.inl (.inl ⟨t, hcause, i, msg, ha, rfl⟩)))

/-- **Greetings are sent finitely often.** -/
theorem finite_greetings (hc : X.causes.Finite) : (X.sends .hello).Finite := by
  obtain ⟨D, hD⟩ := X.exists_within hc
  have step {t : Nat} (h : t ∉ X.causes ∪ X.stops) (j : ι) :=
    budget_step (hD t) (X.shape t) (isCause_of_notMem fun hm => h (.inl hm))
      (fun i ha => eq_false_of_ne_true fun hs => h (.inr ⟨i, ha, hs⟩)) j
  refine finite_of_falls (Φ := fun t => ∑ i, ((X.conf t).node i).budget D)
    (hc.union (finite_stops hc)) (fun t h => Finset.sum_le_sum fun i _ => (step h i).1)
    fun t hsends h => ?_
  obtain ⟨msg, hm, hty⟩ := hsends
  obtain ⟨j, k, c, hr, hs⟩ := hm.spoken fun ht => h (.inl ht)
  rw [hty] at hs
  exact Finset.sum_lt_sum (fun i _ => (step h i).1)
    ⟨j, Finset.mem_univ j, (step h j).2 ⟨k, c, hr, hs⟩⟩

/-! ## All messages run out -/

omit [Fintype ι] in
/-- But for a greeting, what is sent answers a message of an earlier type. -/
theorem mem_sends (h : t ∈ X.sends ty) (ht : t ∉ X.causes) :
    ty = .hello ∨ t ∈ X.turns .hello ∨ t ∈ X.turns .since ∧ (ty = .keys ∨ ty = .ops) ∨
      t ∈ X.turns .ops ∧ ty = .ack := by
  obtain ⟨msg, hm, rfl⟩ := h
  obtain ⟨j, k, c, hran, hs⟩ := hm.spoken ht
  rcases Handler.t_of_speaks hs with h | h | ⟨h, hty⟩ | ⟨h, hty⟩
  · exact .inl h
  · exact .inr (.inl ⟨j, k, c, hran, h⟩)
  · exact .inr (.inr (.inl ⟨⟨j, k, c, hran, h⟩, hty⟩))
  · exact .inr (.inr (.inr ⟨⟨j, k, c, hran, h⟩, hty⟩))

/-- **Every type is sent finitely often.** -/
theorem finite_sends (hc : X.causes.Finite) (hr : X.repeats.Finite) (ty : MsgType) :
    (X.sends ty).Finite := by
  have turns {ty : MsgType} (h : (X.sends ty).Finite) : (X.turns ty).Finite :=
    finite_turns hc (finite_takes hc hr h)
  have of_subset {ty : MsgType} {s : Set Nat} (hs : s.Finite)
      (h : ∀ t ∈ X.sends ty, t ∉ X.causes → t ∈ s) : (X.sends ty).Finite := by
    refine (hc.union hs).subset fun t ht => ?_
    by_cases hcause : t ∈ X.causes
    · exact .inl hcause
    · exact .inr (h t ht hcause)
  have hello : (X.sends .hello).Finite := finite_greetings hc
  have since : (X.sends .since).Finite := by
    refine of_subset (turns hello) fun t ht hcause => ?_
    rcases mem_sends ht hcause with h | h | ⟨-, h | h⟩ | ⟨-, h⟩
    · cases h
    · exact h
    · cases h
    · cases h
    · cases h
  have answered := (turns hello).union (turns since)
  have ops : (X.sends .ops).Finite := by
    refine of_subset answered fun t ht hcause => ?_
    rcases mem_sends ht hcause with h | h | ⟨h, -⟩ | ⟨-, h⟩
    · cases h
    · exact .inl h
    · exact .inr h
    · cases h
  refine of_subset ((hello.union answered).union (turns ops)) fun t ht hcause => ?_
  rcases mem_sends ht hcause with rfl | h | ⟨h, -⟩ | ⟨h, -⟩
  · exact .inl (.inl ht)
  · exact .inl (.inr (.inl h))
  · exact .inl (.inr (.inr h))
  · exact .inr h

/-- After the last message nothing is sent. -/
theorem exists_silent (hc : X.causes.Finite) (hr : X.repeats.Finite) :
    ∃ T, ∀ t, T ≤ t → (X.conf t).sent = (X.conf T).sent := by
  have hall : {t | ∃ msg, X.Sent t msg}.Finite := by
    refine (Set.finite_iUnion fun ty => finite_sends hc hr ty).subset ?_
    rintro t ⟨msg, hm⟩
    exact Set.mem_iUnion.2 ⟨msg.body.t, msg, hm, rfl⟩
  obtain ⟨T, hT⟩ := hall.bddAbove
  refine ⟨T + 1, fun t ht => ?_⟩
  induction t, ht using Nat.le_induction with
  | base => rfl
  | succ t ht ih =>
    obtain ⟨l, hl, -⟩ := (X.shape t).sends
    rw [hl, ih]
    cases l with
    | nil => exact List.append_nil _
    | cons msg l =>
      have := hT ⟨msg, msg :: l, hl, List.mem_cons_self⟩
      omega

end Finite

/-! ## What is answered -/

/-- A handler handles a message it took in, or was there at the start. -/
theorem waiting_handles {t h : Nat} {j : ι} {c : Handler}
    (hp : ((X.conf t).node j).pending[h]? = some c) (hc : c.t = some ty) :
    (∃ t' < t, ∃ msg, Turn space (X.conf t') j h (X.act t') (.message msg) ∧ c.Handles msg) ∨
      ∃ c₀, ((X.conf 0).node j).pending[h]? = some c₀ ∧ c₀.t = some ty := by
  induction t generalizing c with
  | zero => exact .inr ⟨c, hp, hc⟩
  | succ t ih =>
    rcases (X.shape t).pending hp with hp | ⟨src, hr, hl⟩ | hg
    · exact (ih hp hc).imp_left fun ⟨t', ht, h⟩ => ⟨t', ht.trans (Nat.lt_succ_self t), h⟩
    · cases src with
      | message msg =>
        exact .inl ⟨t, Nat.lt_succ_self t, msg, hr.turn, handles_of_leaves hl (.inl rfl)⟩
      | waiting c' =>
        have hc' : c'.t = some ty := hl.t.symm.trans hc
        refine (ih hr.waiting hc').imp_left fun ⟨t', ht, msg, hturn, hm⟩ => ?_
        exact ⟨t', ht.trans (Nat.lt_succ_self t), msg, hturn,
          handles_of_leaves hl (.inr ⟨c', rfl, hm⟩)⟩
    · obtain ⟨clock, rfl⟩ := hg.clock
      cases hc

/-- The operations `js` are made by a local write at `t`. -/
def Writes (t : Nat) (js : List Json) : Prop :=
  ∃ j c ev, X.act t = .call j c ∧ c.writes = true ∧
    (c.run cr ((X.conf t).node j).engine).event = some ev ∧
    Written ((X.conf t).node j).engine ev ∧ ∀ x ∈ js, ∃ o ∈ ev.ops, o.raw = x

/-- The operations `js` go to the sender of a `since`, by the handler that took it
in, or that handled one at the start. -/
def Answers (t : Nat) (receiver : Option JsString) (js : List Json) : Prop :=
  ∃ j h sender missing, X.act t = .resume j h ∧
    ((X.conf t).node j).pending[h]? = some (.sinceSend sender missing) ∧
    receiver = some sender ∧ (∀ x ∈ js, ∃ o ∈ missing, o.raw = x) ∧
    ((∃ t' < t, ∃ msg receiver f, Turn space (X.conf t') j h (X.act t') (.message msg) ∧
        msg.body = .since receiver f ∧ msg.sender = sender) ∨
      ∃ c, ((X.conf 0).node j).pending[h]? = some c ∧ c.t = some .since)

/-- **Operations are sent once**, when they are made, or to answer. -/
theorem Sent.writes_or_answers (h : X.Sent t msg) {receiver : Option JsString} {js : List Json}
    (hb : msg.body = .ops receiver js) : X.Writes t js ∨ X.Answers t receiver js := by
  obtain ⟨j, b, hsends, rfl⟩ := h.cases
  obtain rfl : b = .ops receiver js := hb
  have raws {ops : List Op} {js : List Json} {c : List Op} (hc : c ∈ chunks opsPerMessage ops)
      (hjs : js = c.map Op.raw) : ∀ x ∈ js, ∃ o ∈ ops, o.raw = x := by
    intro x hx
    rw [hjs] at hx
    obtain ⟨o, ho, rfl⟩ := List.mem_map.1 hx
    exact ⟨o, mem_of_mem_chunks hc ho, rfl⟩
  rcases hsends.cases with ⟨c, ev, ha, hw, hev, hwritten, hb⟩ | ⟨k, c, hr, hs, hb⟩
  · obtain ⟨ops, hops, he⟩ := mem_liveTail hb
    exact .inl ⟨j, c, ev, ha, hw, hev, hwritten, raws hops (MsgBody.ops.inj he).2⟩
  · refine .inr ?_
    have hp := hr.waiting
    cases c with
    | sinceSend sender missing =>
      obtain ⟨ops, hops, he⟩ := List.mem_map.1 hb
      obtain ⟨hreceiver, hjs⟩ := MsgBody.ops.inj he
      refine ⟨j, k, sender, missing, ?_, hp, hreceiver.symm, raws hops hjs.symm, ?_⟩
      · have hturn := hr.turn
        generalize X.act t = a at hturn
        cases hturn
        rfl
      · refine (waiting_handles hp rfl).imp_left fun ⟨t', ht, msg, hturn, hm⟩ => ?_
        obtain ⟨hsender, receiver, f, hbody⟩ := hm
        exact ⟨t', ht, msg, receiver, f, hturn, hbody, hsender⟩
    | _ => cases hs

end Execution

/-- **No storm.** In an infinite run with finitely many causes and finitely many
repeated deliveries nothing is sent from some time on, whatever is delivered,
lost, stopped or called besides. And operations are only sent by the write that
makes them, or to answer a `since`. -/
theorem no_storm [DecidableEq ι] [Fintype ι] (X : Execution cr space ι) (hc : X.causes.Finite)
    (hr : X.repeats.Finite) :
    (∃ T, ∀ t, T ≤ t → (X.conf t).sent = (X.conf T).sent) ∧
      ∀ t msg receiver js, X.Sent t msg → msg.body = .ops receiver js →
        X.Writes t js ∨ X.Answers t receiver js :=
  ⟨Execution.exists_silent hc hr, fun _ _ _ _ h hb => h.writes_or_answers hb⟩

/-- Two replicas that greet each other, with one write, and then rest. -/
def restingRun : Execution plainCrypto Sample.space Bool :=
  ⟨Sample.pair.initial, fun t => (Sample.answered[t]?).getD (.stop false)⟩

theorem restingRun_silent :
    ∃ T, ∀ t, T ≤ t → (restingRun.conf t).sent = (restingRun.conf T).sent := by
  have late : ∀ {t}, restingRun.act t ≠ .stop false → t < Sample.answered.length := by
    intro t h
    by_contra hge
    apply h
    change (Sample.answered[t]?).getD (.stop false) = .stop false
    rw [List.getElem?_eq_none (Nat.not_lt.1 hge)]
    rfl
  have early : {t | t < Sample.answered.length}.Finite := Set.finite_lt_nat _
  refine (no_storm restingRun (early.subset fun t ht => late fun h => ?_)
    (early.subset fun t ht => late fun h => ?_)).1
  · have hcause : (restingRun.act t).isCause = true := ht
    rw [h] at hcause
    cases hcause
  · obtain ⟨i, k, t', ha, -⟩ := ht
    rw [h] at ha
    cases ha

end TangentFeed
