import TangentFeed.Core.Blockers
import TangentFeed.Lib.Runs
import TangentFeed.Replica.Robust

/-!
# What is recorded of the peers

Runs of one replica under messages of any type, local writes and compactions.
What a `since` or an `ack` carries is recorded as it is; as long as it is
well-formed, a compaction reads it as the typed frontiers it stands for:
`compactionHorizon_eq`.
-/

namespace TangentFeed.Untyped

open Std

/-! ## Runs -/

/-- A replica and its handlers that wait, each with its message. -/
structure System where
  node : Node
  pending : ExtTreeMap Nat (Json × Stage) compare
  nextId : Nat

inductive Action where
  | deliver (msg : Json)
  /-- Run a handler to its next `await`. -/
  | resume (h : Nat)
  | insert (table : JsString) (values : Record)
  | update (table row : JsString) (values : Record)
  | delete (table row : JsString)
  | compact (opts : CompactionOptions)

namespace System

variable (cr : Crypto) (out : Surroundings) (space : JsString)

/-- A stretch of handler `h`. -/
def advance (s : System) (h : Nat) (msg : Json) (x : Stretch) : System where
  node := x.node
  pending := match x.outcome with
    | .wait stage => s.pending.insert h (msg, stage)
    | .ended _ => s.pending.erase h
  nextId := s.nextId

def step (s : System) : Action → System
  | .deliver msg =>
    { s with nextId := s.nextId + 1 }.advance s.nextId msg (s.node.handle cr space msg)
  | .resume h =>
    match s.pending[h]? with
    | some (msg, stage) => s.advance h msg (s.node.resume out space msg stage)
    | none => s
  | .insert table values => { s with node := (s.node.insert cr table values).2 }
  | .update table row values => { s with node := (s.node.update cr table row values).2 }
  | .delete table row => { s with node := (s.node.delete cr table row).2 }
  | .compact opts => { s with node := (s.node.compact out opts).2 }

/-- A replica without handlers. -/
def idle (n : Node) : System := ⟨n, ∅, 0⟩

end System

/-! ## Frontiers of the right type -/

/-- An object from device ids to HLC strings. -/
def WellFormed (v : Val) : Prop :=
  ∃ fs, v = some (.obj fs) ∧
    ∀ p ∈ fs, isValidDeviceId p.1 = true ∧ ∃ s, p.2 = .str s ∧ isHlcString s = true

/-- An entry that is a valid HLC string. -/
def HasHlc (v : Val) (device : JsString) : Prop :=
  ∃ s, v.prop device = some (some (.str s)) ∧ isHlcString s = true

/-- What a `since` or an `ack` that is let in, and has a sender to record it
for, has to carry. -/
def Sincere (space : JsString) (s : System) : Action → Prop
  | .deliver msg => s.node.accepts space msg = some true →
      (field msg (js "from")).text ≠ none →
      ((field msg (js "t")).isString (js "since") = true → WellFormed (field msg (js "have"))) ∧
      ((field msg (js "t")).isString (js "ack") = true → WellFormed (field msg (js "frontier")))
  | _ => True

/-- All records are well-formed, a compaction only rejects when the store
refuses it, and the horizon is zero for a device that a peer has no HLC of. -/
structure Dependable (out : Surroundings) (n : Node) : Prop where
  wellFormed : ∀ p ∈ n.peerFrontiers, WellFormed p.2
  compacts : ∀ opts, (∃ stats, (n.compact out opts).1 = .ok stats) ∨
    (n.compact out opts).1 = .error (.js .storage)
  unseen : ∃ horizon,
    compactionHorizon out.numeric n.engine.storage.frontier n.peerFrontiers = some horizon ∧
      ∀ p ∈ n.peerFrontiers, ∀ device, ¬ HasHlc p.2 device →
        horizon[device]?.getD (.str zeroHlc) = .str zeroHlc

/-- A value that is read as the frontier `f`. -/
def Reads (v : Val) (f : Frontier) : Prop :=
  ∀ device, ∃ entry, v.prop device = some entry ∧
    entry.orElse (.str zeroHlc) = .str (f[device]?.getD zeroHlc)

/-- The entries that are strings. -/
def frontierOf (fs : List (JsString × Json)) : Frontier :=
  fs.foldr (fun p f =>
    match p.2 with
    | .str s => f.insert p.1 s
    | _ => f) ∅

theorem getElem?_frontierOf {fs : List (JsString × Json)}
    (h : ∀ p ∈ fs, ∃ s, p.2 = .str s) (device : JsString) :
    fs.lookup device = (frontierOf fs)[device]?.map Json.str := by
  induction fs with
  | nil =>
    change none = ((∅ : Frontier)[device]?).map Json.str
    rw [ExtTreeMap.getElem?_empty]
    rfl
  | cons p fs ih =>
    obtain ⟨k, x⟩ := p
    obtain ⟨s, hs⟩ := h (k, x) List.mem_cons_self
    have hx : x = .str s := hs
    subst hx
    have ih := ih fun q hq => h q (List.mem_cons_of_mem _ hq)
    change _ = ((frontierOf fs).insert k s)[device]?.map Json.str
    rw [List.lookup_cons, ExtTreeMap.getElem?_insert_eq]
    by_cases hk : k = device
    · rw [if_pos hk, hk, beq_self_eq_true]
      rfl
    · rw [if_neg hk, beq_eq_false_iff_ne.2 fun e => hk e.symm]
      exact ih

/-- A well-formed value is read as a frontier, which is zero where it has no HLC. -/
theorem WellFormed.reads {v : Val} (h : WellFormed v) :
    ∃ f, Reads v f ∧ ∀ device, ¬ HasHlc v device → f[device]? = none := by
  obtain ⟨fs, rfl, hfs⟩ := h
  have hstr : ∀ p ∈ fs, ∃ s, p.2 = .str s := by
    intro p hp
    obtain ⟨s, hs, -⟩ := (hfs p hp).2
    exact ⟨s, hs⟩
  have hlook : ∀ device, Val.prop (some (.obj fs)) device =
      some ((frontierOf fs)[device]?.map Json.str) := by
    intro device
    rw [← getElem?_frontierOf hstr device]
    rfl
  refine ⟨frontierOf fs, fun device => ⟨_, hlook device, ?_⟩, fun device hno => ?_⟩
  · cases (frontierOf fs)[device]? with
    | none => rfl
    | some s => rfl
  · cases hs : (frontierOf fs)[device]? with
    | none => rfl
    | some s =>
      have hl := getElem?_frontierOf hstr device
      rw [hs] at hl
      have hmem : (device, Json.str s) ∈ fs := by
        obtain ⟨l₁, l₂, he, -⟩ := List.lookup_eq_some_iff.1 hl
        rw [he]
        exact List.mem_append_right _ List.mem_cons_self
      obtain ⟨s', he, hv⟩ := (hfs _ hmem).2
      obtain rfl := Json.str.inj he
      refine absurd ⟨s, ?_, hv⟩ hno
      rw [hlook device, hs]
      rfl

/-! ## Compaction on them -/

section Compaction

variable (numeric : JsString → Number) {v : Val} {f : Frontier}

theorem lessThan_str (s t : JsString) :
    Json.lessThan numeric (.str s) (.str t) = some (decide (s < t)) := rfl

/-- The loop over the devices, on a frontier of the right type. -/
theorem lowerHorizon_reads (h : Reads v f) (l : List (JsString × JsString)) (m : JsMap Json) :
    lowerHorizon numeric v (l.map fun p => (p.1, .str p.2)) m =
      some (l.foldl (fun m p =>
        if f[p.1]?.getD zeroHlc < p.2 then m.insert p.1 (.str (f[p.1]?.getD zeroHlc)) else m) m) := by
  induction l generalizing m with
  | nil => rfl
  | cons p l ih =>
    obtain ⟨device, least⟩ := p
    obtain ⟨entry, he, hs⟩ := h device
    rw [List.map_cons, List.foldl_cons]
    unfold lowerHorizon
    simp only [he, hs, lessThan_str]
    by_cases hlt : f[device]?.getD zeroHlc < least
    · rw [if_pos hlt, decide_eq_true hlt]
      exact ih _
    · rw [if_neg hlt, decide_eq_false hlt]
      exact ih _

theorem getElem?_foldl_lower {l : List (JsString × JsString)} (hn : (l.map Prod.fst).Nodup)
    {m : JsMap Json} (hm : ∀ p ∈ l, m[p.1]? = some (.str p.2)) (device : JsString) :
    (l.foldl (fun m p =>
        if f[p.1]?.getD zeroHlc < p.2 then m.insert p.1 (.str (f[p.1]?.getD zeroHlc)) else m)
      m)[device]? =
    match l.lookup device with
    | none => m[device]?
    | some least =>
      some (.str (if f[device]?.getD zeroHlc < least then f[device]?.getD zeroHlc else least)) := by
  induction l generalizing m with
  | nil => rfl
  | cons p l ih =>
    obtain ⟨d, least⟩ := p
    rw [List.map_cons, List.nodup_cons] at hn
    have hother : ∀ p ∈ l, p.1 ≠ d := by
      rintro p hp rfl
      exact hn.1 (List.mem_map.2 ⟨p, hp, rfl⟩)
    rw [List.foldl_cons, ih hn.2]
    · rw [List.lookup_cons]
      by_cases hd : device = d
      · subst hd
        have hno : l.lookup device = none := by
          rw [List.lookup_eq_none_iff]
          intro p hp
          exact bne_iff_ne.2 fun e => hother p hp e.symm
        rw [hno, beq_self_eq_true]
        simp only
        split
        · rw [ExtTreeMap.getElem?_insert_self]
        · exact hm (device, least) List.mem_cons_self
      · rw [beq_eq_false_iff_ne.2 hd]
        cases l.lookup device with
        | some x => rfl
        | none =>
          simp only
          split
          · rw [ExtTreeMap.getElem?_insert_eq, if_neg fun e => hd e.symm]
          · rfl
    · intro p hp
      split
      · rw [ExtTreeMap.getElem?_insert_eq, if_neg fun e => hother p hp e.symm]
        exact hm p (List.mem_cons_of_mem _ hp)
      · exact hm p (List.mem_cons_of_mem _ hp)

/-- **One frontier folded into the horizon**, as the typed one it stands for. -/
theorem lowerHorizon_eq (h : Reads v f) (horizon : Frontier) :
    lowerHorizon numeric v (horizon.map fun _ hlc => Json.str hlc).toList
        (horizon.map fun _ hlc => .str hlc) =
      some ((TangentFeed.lowerHorizon horizon f).map fun _ hlc => .str hlc) := by
  have hlist : (horizon.map fun _ hlc => Json.str hlc).toList =
      horizon.toList.map fun p => (p.1, .str p.2) := ExtTreeMap.toList_map
  rw [hlist, lowerHorizon_reads numeric h]
  refine congrArg some (ExtTreeMap.ext_getElem? fun device => ?_)
  rw [getElem?_foldl_lower ExtTreeMap.nodup_toList_keys]
  · unfold TangentFeed.lowerHorizon
    cases hl : horizon.toList.lookup device with
    | none =>
      have hnone : horizon[device]? = none := by
        cases hh : horizon[device]? with
        | none => rfl
        | some x =>
          have hmem := ExtTreeMap.mem_toList_iff_getElem?_eq_some.2 hh
          have hne := List.lookup_eq_none_iff.1 hl _ hmem
          exact absurd rfl (bne_iff_ne.1 hne)
      simp only
      rw [ExtTreeMap.getElem?_map, ExtTreeMap.getElem?_map, ExtTreeMap.getElem?_map, hnone]
      rfl
    | some least =>
      have hsome : horizon[device]? = some least := by
        obtain ⟨l₁, l₂, he, -⟩ := List.lookup_eq_some_iff.1 hl
        apply ExtTreeMap.mem_toList_iff_getElem?_eq_some.1
        rw [he]
        exact List.mem_append_right _ List.mem_cons_self
      simp only
      rw [ExtTreeMap.getElem?_map, ExtTreeMap.getElem?_map, hsome]
      rfl
  · intro p hp
    rw [ExtTreeMap.getElem?_map, ExtTreeMap.mem_toList_iff_getElem?_eq_some.1 hp]
    rfl

theorem foldHorizon_eq {vs : List Val} {fs : List Frontier} (h : List.Forall₂ Reads vs fs)
    (horizon : Frontier) :
    foldHorizon numeric vs (horizon.map fun _ hlc => .str hlc) =
      some ((fs.foldl TangentFeed.lowerHorizon horizon).map fun _ hlc => .str hlc) := by
  induction h generalizing horizon with
  | nil => rfl
  | cons hv _ ih =>
    unfold foldHorizon
    rw [lowerHorizon_eq numeric hv]
    exact ih _

/-- The typed frontiers that well-formed records stand for. -/
theorem exists_reads {vs : List Val} (h : ∀ v ∈ vs, WellFormed v) :
    ∃ fs, List.Forall₂ Reads vs fs ∧
      ∀ v ∈ vs, ∃ f ∈ fs, ∀ device, ¬ HasHlc v device → f[device]? = none := by
  induction vs with
  | nil => exact ⟨[], .nil, fun v hv => by cases hv⟩
  | cons v vs ih =>
    obtain ⟨fs, h1, h2⟩ := ih fun w hw => h w (List.mem_cons_of_mem _ hw)
    obtain ⟨f, hr, hz⟩ := (h v List.mem_cons_self).reads
    refine ⟨f :: fs, .cons hr h1, fun w hw => ?_⟩
    rcases List.mem_cons.1 hw with rfl | hw
    · exact ⟨f, List.mem_cons_self, hz⟩
    · obtain ⟨g, hg, hz⟩ := h2 w hw
      exact ⟨g, List.mem_cons_of_mem _ hg, hz⟩

/-- Whether a frontier of the right type lags is decided. -/
theorem lags_reads (h : Reads v f) (own : List (JsString × JsString)) :
    ∃ b, lags numeric v own = some b := by
  induction own with
  | nil => exact ⟨false, rfl⟩
  | cons p own ih =>
    obtain ⟨device, ours⟩ := p
    obtain ⟨entry, he, hs⟩ := h device
    unfold lags
    simp only [he, hs, lessThan_str]
    cases decide (f[device]?.getD zeroHlc < ours) with
    | true => exact ⟨true, rfl⟩
    | false => exact ih

theorem laggards_isSome (own : Frontier) {peers : List (JsString × Val)}
    (h : ∀ p ∈ peers, WellFormed p.2) : ∃ blockers, laggards numeric own peers = some blockers := by
  induction peers with
  | nil => exact ⟨[], rfl⟩
  | cons p peers ih =>
    obtain ⟨blockers, hb⟩ := ih fun q hq => h q (List.mem_cons_of_mem _ hq)
    obtain ⟨f, hr, -⟩ := (h p List.mem_cons_self).reads
    obtain ⟨b, hl⟩ := lags_reads numeric hr own.toList
    unfold laggards
    rw [hl, hb]
    cases b with
    | true => exact ⟨_, rfl⟩
    | false => exact ⟨_, rfl⟩

end Compaction

theorem Node.carryOut_cases (n : Node) (plan : CompactionPlan) (opts : CompactionOptions) :
    (n.carryOut plan opts).1 = .ok () ∨ (n.carryOut plan opts).1 = .error (.js .storage) := by
  unfold carryOut
  split
  · unfold after
    rcases n.engine.transact_cases (n.engine.storage.compact ⟨plan.opIds, plan.cellKeys⟩) with h | h
    · rw [h]
      exact .inr rfl
    · rw [h]
      exact .inl rfl
  · exact .inl rfl

/-- **Well-formed records make compaction dependable.** -/
theorem dependable_of_wellFormed {out : Surroundings} {n : Node}
    (h : ∀ p ∈ n.peerFrontiers, WellFormed p.2) : Dependable out n := by
  have hvs : ∀ v ∈ n.peerFrontiers.map Prod.snd, WellFormed v := by
    intro v hv
    obtain ⟨p, hp, rfl⟩ := List.mem_map.1 hv
    exact h p hp
  obtain ⟨fs, hr, hz⟩ := exists_reads hvs
  have hhorizon : compactionHorizon out.numeric n.engine.storage.frontier n.peerFrontiers =
      some ((fs.foldl TangentFeed.lowerHorizon n.engine.storage.frontier).map
        fun _ hlc => .str hlc) := foldHorizon_eq out.numeric hr _
  refine ⟨h, fun opts => ?_, _, hhorizon, fun p hp device hno => ?_⟩
  · obtain ⟨blockers, hb⟩ := laggards_isSome out.numeric n.engine.storage.frontier h
    have hblock : blockingPeers out.numeric n.engine.storage.frontier n.peerFrontiers =
        some (sortStrings blockers) := by
      unfold blockingPeers
      rw [hb]
      rfl
    unfold Node.compact
    simp only [hhorizon, hblock]
    rcases n.carryOut_cases _ opts with hc | hc
    · rw [hc]
      exact .inl ⟨_, rfl⟩
    · rw [hc]
      exact .inr rfl
  · obtain ⟨f, hf, hnone⟩ := hz p.2 (List.mem_map_of_mem hp)
    rw [ExtTreeMap.getElem?_map]
    cases hh : (fs.foldl TangentFeed.lowerHorizon n.engine.storage.frontier)[device]? with
    | none => rfl
    | some hlc =>
      obtain ⟨_, -, -, hlow⟩ := foldl_lowerHorizon_isLeast.1 hh
      have hle : hlc ≤ f[device]?.getD zeroHlc :=
        hlow (Set.mem_insert_of_mem _ (List.mem_map.2 ⟨f, hf, rfl⟩))
      rw [hnone device hno] at hle
      have hzero : hlc = zeroHlc := hle.antisymm (nil_le_jsString hlc)
      rw [hzero]
      rfl

/-! ## Every step keeps them well-formed -/

/-- What a stage is going to record is well-formed. -/
def Stage.Carries (msg : Json) : Stage → Prop
  | .sinceRecord => (field msg (js "from")).text ≠ none → WellFormed (field msg (js "have"))
  | .ackRecord => (field msg (js "from")).text ≠ none → WellFormed (field msg (js "frontier"))
  | _ => True

theorem Stage.carries_of_not_first {msg : Json} {stage : Stage} (h : stage.first = false) :
    stage.Carries msg := by
  cases stage with
  | sinceRecord => cases h
  | ackRecord => cases h
  | _ => trivial

structure System.WellRecorded (s : System) : Prop where
  recorded : ∀ p ∈ s.node.peerFrontiers, WellFormed p.2
  carried : ∀ {h : Nat} {msg : Json} {stage : Stage},
    s.pending[h]? = some (msg, stage) → stage.Carries msg

namespace Node

variable (cr : Crypto) (n : Node)

theorem peerFrontiers_learnKey (id : Val) (publicKey : Bytes) :
    (n.learnKey cr id publicKey).peerFrontiers = n.peerFrontiers := by
  unfold learnKey
  split
  · rfl
  · rfl

theorem peerFrontiers_learnEntries (entries : List (JsString × Json)) (n : Node) :
    (learnEntries cr n entries).node.peerFrontiers = n.peerFrontiers := by
  induction entries generalizing n with
  | nil => rfl
  | cons entry rest ih =>
    obtain ⟨id, k⟩ := entry
    cases k with
    | str k => exact (ih _).trans (n.peerFrontiers_learnKey cr _ _)
    | null => rfl
    | bool b => rfl
    | num x => rfl
    | arr xs => rfl
    | obj fs => rfl

/-- The first stretch records nothing, and waits to record what the message carries. -/
theorem dispatch_records (msg : Json) :
    (n.dispatch cr msg).node.peerFrontiers = n.peerFrontiers ∧
      ((n.dispatch cr msg).exit = .wait .sinceRecord →
        (field msg (js "t")).isString (js "since") = true) ∧
      ((n.dispatch cr msg).exit = .wait .ackRecord →
        (field msg (js "t")).isString (js "ack") = true) := by
  have other : ∀ {x : Part}, x.node.peerFrontiers = n.peerFrontiers →
      x.exit ≠ .wait .sinceRecord → x.exit ≠ .wait .ackRecord →
      x.node.peerFrontiers = n.peerFrontiers ∧
        (x.exit = .wait .sinceRecord → (field msg (js "t")).isString (js "since") = true) ∧
        (x.exit = .wait .ackRecord → (field msg (js "t")).isString (js "ack") = true) :=
    fun h hs ha => ⟨h, fun e => absurd e hs, fun e => absurd e ha⟩
  unfold dispatch
  split
  · refine other ?_ nofun nofun
    simp only
    split
    · exact n.peerFrontiers_learnKey cr _ _
    · rfl
  split
  · split
    · exact other rfl nofun nofun
    · exact other rfl nofun nofun
    · rename_i keys _ _
      have hwait := (learnEntries_spec cr n keys.entries).2
      exact other (peerFrontiers_learnEntries cr _ n) (hwait _) (hwait _)
  split
  · rename_i ht
    exact ⟨rfl, fun _ => ht, nofun⟩
  split
  · split
    · exact other rfl nofun nofun
    · exact other rfl nofun nofun
    · split
      · exact other rfl nofun nofun
      · exact other rfl nofun nofun
  split
  · rename_i ht
    exact ⟨rfl, nofun, fun _ => ht⟩
  · exact other rfl nofun nofun

theorem peerFrontiers_receiveClock (millis : Nat) (counter : Option Nat) :
    (n.receiveClock millis counter).2.peerFrontiers = n.peerFrontiers := by
  unfold receiveClock
  simp only
  split
  · rfl
  · rfl

theorem peerFrontiers_observeRemoteClock (clock : Val) :
    (n.observeRemoteClock clock).2.peerFrontiers = n.peerFrontiers := by
  unfold observeRemoteClock
  split
  · rfl
  · split
    · rfl
    · rename_i hlc _ _ remote _
      simp only
      rw [← n.peerFrontiers_receiveClock remote.millis
        (if clock.isString hlc then some remote.counter else none)]
      generalize n.receiveClock remote.millis
        (if clock.isString hlc then some remote.counter else none) = received
      cases received.1 with
      | error err => rfl
      | ok u => rfl

theorem peerFrontiers_mergeAdmitted (ops : List Op) :
    (n.mergeAdmitted ops).2.peerFrontiers = n.peerFrontiers := by
  have hr : (n.receiveMax ops).2.peerFrontiers = n.peerFrontiers := by
    unfold receiveMax
    split
    · rfl
    · split
      · rfl
      · exact n.peerFrontiers_receiveClock _ _
  unfold mergeAdmitted
  simp only
  rw [← hr]
  generalize n.receiveMax ops = received
  cases received.1 with
  | error err => rfl
  | ok u =>
    simp only
    split
    · rfl
    · rfl

theorem mem_recordPeerFrontier {peer frontier : Val} {p : JsString × Val}
    (h : p ∈ (n.recordPeerFrontier peer frontier).2.peerFrontiers) :
    p ∈ n.peerFrontiers ∨ peer.text ≠ none ∧ p.2 = frontier := by
  unfold recordPeerFrontier at h
  split at h
  · exact .inl h
  · split at h
    · exact .inl h
    · rename_i ht
      simp only at h
      split at h
      · exact .inl h
      · rcases mem_withOwn h with h | h
        · exact .inl h
        · rw [h, ht]
          exact .inr ⟨nofun, rfl⟩

/-- A later stretch records what its stage carries. -/
theorem recorded_proceed (out : Surroundings) (space : JsString) {msg : Json} {stage : Stage}
    (hc : stage.Carries msg) (h : ∀ p ∈ n.peerFrontiers, WellFormed p.2) :
    ∀ p ∈ (n.proceed out space msg stage).node.peerFrontiers, WellFormed p.2 := by
  have hnode := n.proceed_node out space msg stage
  generalize (n.proceed out space msg stage).node = m at hnode ⊢
  cases hnode with
  | same => exact h
  | peers peers => exact h
  | clock clock =>
    rw [peerFrontiers_observeRemoteClock]
    exact h
  | since =>
    intro p hp
    rcases n.mem_recordPeerFrontier hp with hp | ⟨ht, hp⟩
    · exact h p hp
    · rw [hp]
      exact hc ht
  | ack =>
    intro p hp
    rcases n.mem_recordPeerFrontier hp with hp | ⟨ht, hp⟩
    · exact h p hp
    · rw [hp]
      exact hc ht
  | merge ops =>
    rw [peerFrontiers_mergeAdmitted]
    exact h

theorem peerFrontiers_update (table row : JsString) (values : Record) :
    (n.update cr table row values).2.peerFrontiers = n.peerFrontiers := by
  unfold update
  split
  · rfl
  · split
    · unfold writeStuck
      split
      · rfl
      · rfl
    · rfl

theorem peerFrontiers_insert (table : JsString) (values : Record) :
    (n.insert cr table values).2.peerFrontiers = n.peerFrontiers := by
  unfold insert
  simp only
  split
  · rfl
  · exact peerFrontiers_update cr _ _ _ _

theorem peerFrontiers_delete (table row : JsString) :
    (n.delete cr table row).2.peerFrontiers = n.peerFrontiers := by
  unfold delete
  split
  · unfold writeStuck
    split
    · rfl
    · rfl
  · rfl

theorem peerFrontiers_compact (out : Surroundings) (opts : CompactionOptions) :
    (n.compact out opts).2.peerFrontiers = n.peerFrontiers := by
  have hcarry : ∀ plan, (n.carryOut plan opts).2.peerFrontiers = n.peerFrontiers := by
    intro plan
    unfold carryOut
    split
    · rfl
    · rfl
  unfold compact
  simp only
  split
  · rfl
  · split
    · exact hcarry _
    · exact hcarry _
    · exact hcarry _

end Node

namespace System

variable {cr : Crypto} {out : Surroundings} {space : JsString} {s : System}

theorem WellRecorded.advance (hs : s.WellRecorded) {h : Nat} {msg : Json} {x : Stretch}
    (hr : ∀ p ∈ x.node.peerFrontiers, WellFormed p.2)
    (hc : ∀ stage, x.outcome = .wait stage → stage.Carries msg) :
    (s.advance h msg x).WellRecorded := by
  refine ⟨hr, fun {k msg' stage} hk => ?_⟩
  unfold System.advance at hk
  simp only at hk
  split at hk
  · rename_i stage' ho
    rw [ExtTreeMap.getElem?_insert_eq] at hk
    split at hk
    · obtain ⟨rfl, rfl⟩ := Prod.mk.inj (Option.some.inj hk)
      exact hc _ ho
    · exact hs.carried hk
  · rw [ExtTreeMap.getElem?_erase_eq] at hk
    split at hk
    · cases hk
    · exact hs.carried hk

/-- **Step lemma.** -/
theorem WellRecorded.step (hs : s.WellRecorded) {a : Action} (ha : Sincere space s a) :
    (s.step cr out space a).WellRecorded := by
  have moved : ∀ {n : Node}, n.peerFrontiers = s.node.peerFrontiers →
      ({ s with node := n } : System).WellRecorded := by
    intro n hn
    refine ⟨?_, hs.carried⟩
    rw [hn]
    exact hs.recorded
  cases a with
  | deliver msg =>
    have hnext : ({ s with nextId := s.nextId + 1 } : System).WellRecorded :=
      ⟨hs.recorded, hs.carried⟩
    have hacc : s.node.accepts space msg = some true →
        (s.node.begin cr space msg) = s.node.dispatch cr msg := by
      intro h
      unfold Node.begin
      rw [h]
    have hbegin : (s.node.begin cr space msg).node.peerFrontiers = s.node.peerFrontiers ∧
        ∀ stage, (s.node.begin cr space msg).exit = .wait stage → stage.Carries msg := by
      by_cases h : s.node.accepts space msg = some true
      · obtain ⟨h1, h2, h3⟩ := s.node.dispatch_records cr msg
        rw [hacc h]
        refine ⟨h1, fun stage hx => ?_⟩
        cases stage with
        | sinceRecord => exact fun ht => (ha h ht).1 (h2 hx)
        | ackRecord => exact fun ht => (ha h ht).2 (h3 hx)
        | _ => trivial
      · unfold Node.begin
        split
        · exact ⟨rfl, fun _ hx => by cases hx⟩
        · exact ⟨rfl, fun _ hx => by cases hx⟩
        · rename_i ht
          exact absurd ht h
    refine hnext.advance ?_ fun stage ho => hbegin.2 stage (Part.settled_wait ho)
    change ∀ p ∈ (s.node.begin cr space msg).node.peerFrontiers, WellFormed p.2
    rw [hbegin.1]
    exact hs.recorded
  | resume h =>
    unfold System.step
    simp only
    split
    · rename_i msg stage hp
      refine hs.advance ?_ fun stage' ho =>
        Stage.carries_of_not_first (s.node.proceed_exit (Part.settled_wait ho)).1
      exact s.node.recorded_proceed out space (hs.carried hp) hs.recorded
    · exact hs
  | insert table values => exact moved (s.node.peerFrontiers_insert cr table values)
  | update table row values => exact moved (s.node.peerFrontiers_update cr table row values)
  | delete table row => exact moved (s.node.peerFrontiers_delete cr table row)
  | compact opts => exact moved (s.node.peerFrontiers_compact out opts)

end System

/-- **Well-formed records stay well-formed.** In every run in which what a
`since` or an `ack` carries is well-formed, whatever else is delivered, all
records are well-formed, compaction does not throw, and a device that a peer
has no HLC of has the horizon zero. -/
theorem records_dependable {cr : Crypto} {out : Surroundings} {space : JsString} {n : Node}
    (hn : ∀ p ∈ n.peerFrontiers, WellFormed p.2) {acts : List Action}
    (h : Runs.Along (System.step cr out space) (Sincere space) (.idle n) acts) :
    Dependable out (Runs.run (System.step cr out space) (.idle n) acts).node := by
  have hidle : (System.idle n).WellRecorded := by
    refine ⟨hn, fun {k msg stage} hk => ?_⟩
    have hk' : (∅ : ExtTreeMap Nat (Json × Stage) compare)[k]? = some (msg, stage) := hk
    rw [ExtTreeMap.getElem?_empty] at hk'
    cases hk'
  have hrun : (Runs.run (System.step cr out space) (.idle n) acts).WellRecorded :=
    h.invariant (fun _ _ ha hs => hs.step ha) hidle
  exact dependable_of_wellFormed hrun.recorded

/-- A `since` of the device of seed 2. -/
def sampleSince (frontier : Json) : Json :=
  .obj [(js "t", .str (js "since")), (js "v", .num .two), (js "space", .str Sample.space),
    (js "from", .str (SyncEngine.opened plainCrypto Sample.opts 2).deviceId), (js "have", frontier)]

/-- A write, and a `since` that is handled up to the record. -/
def sampleActs (frontier : Json) : List Action :=
  [.update Sample.table Sample.row (Sample.record (.bool true)), .deliver (sampleSince frontier),
    .resume 0]

theorem sample_dependable :
    Dependable calm (Runs.run (System.step plainCrypto calm Sample.space) (.idle sampleNode)
      (sampleActs (.obj []))).node :=
  records_dependable (by intro p hp; cases hp)
    ⟨trivial, fun _ _ => ⟨fun _ => ⟨[], rfl, by intro p hp; cases hp⟩,
      fun h => absurd h (by decide +kernel)⟩, trivial, trivial⟩

/-- `have: null` is recorded, and no horizon can be computed any more. -/
theorem null_disables : ¬ ∀ acts : List Action,
    Dependable calm
      (Runs.run (System.step plainCrypto calm Sample.space) (.idle sampleNode) acts).node := by
  intro h
  obtain ⟨horizon, hh, -⟩ := (h (sampleActs .null)).unseen
  have hnone : (compactionHorizon calm.numeric
      (Runs.run (System.step plainCrypto calm Sample.space) (.idle sampleNode)
        (sampleActs .null)).node.engine.storage.frontier
      (Runs.run (System.step plainCrypto calm Sample.space) (.idle sampleNode)
        (sampleActs .null)).node.peerFrontiers).isNone = true := by decide +kernel
  rw [hh] at hnone
  cases hnone

end TangentFeed.Untyped
