import TangentFeed.Network.Exchange
import TangentFeed.Network.Retention
import TangentFeed.Replica.Sample

/-!
# Healing

Replicas that never compact. Their logs hold all they applied, so if nothing is
ever merged over a gap, a complete exchange between every two of them leaves all
of them with all that was issued. A gap does not heal: the frontier is past it,
and no `since` asks for it again.
-/

namespace TangentFeed.Config

open AntiEntropy Covering SyncEngine

variable {cr : Crypto} {ι : Type} {d : Deployment cr ι} {space : JsString}
  {w w' : Config ι} {a : Action ι} {n : ι → Nat} {A : ι → Set Op}

/-- An honest step without a compaction. -/
def Growing (a : Action ι) : Prop := a.Honest ∧ a.compacts = false

instance (a : Action ι) : Decidable (Growing a) := inferInstanceAs (Decidable (_ ∧ _))

/-- Every log holds all its replica applied. -/
def Complete (w : Config ι) : Prop :=
  ∀ j, (w.node j).engine.storage.log = TangentFeed.applied w.trace j

theorem Complete.answerable (h : Complete w) : Answerable exact w := fun j o ho =>
  .inl (.of_mem (by rw [h j]; exact ho))

variable [DecidableEq ι]

theorem Complete.step (h : Complete w) (hd : Sane d w) (hs : Shape cr space w a w')
    (ha : Growing a) : Complete w' := by
  intro j
  have hc := hd.base.consistent j
  rcases hs.evolves j with ⟨r, he⟩ | ⟨_, _, _, hr⟩
  · obtain ⟨dd, heff, hcause⟩ := he.effect hd.base
    rw [he.applied, hc.log_effect heff (fun opts hdd => ?_), h j]
    have hno := ha.2
    rw [hcause.of_compact hdd] at hno
    cases hno
  · have e : (reopened (w.node j) _).engine.storage = (w.node j).engine.storage :=
      (hc.openOn hr.opened).2.2.2
    rw [hr.applied, hr.node, e, h j]

/-- What holds in every configuration of a run without compactions and gaps. -/
structure Healing (d : Deployment cr ι) (n : ι → Nat) (A : ι → Set Op) (w : Config ι) : Prop where
  sane : Sane d w
  knowing : Knowing exact w
  complete : Complete w
  exchanging : Exchanging exact d n A w

theorem Healing.step (h : Healing d n A w) (hs : Shape cr space w a w') (ha : Growing a)
    (hg : GapFree exact w a) : Healing d n A w' where
  sane := h.sane.step hs ha.1
  knowing := h.knowing.step h.sane hs ha.1 hg
  complete := h.complete.step h.sane hs ha
  exchanging := h.exchanging.step h.sane h.knowing h.complete.answerable hs

omit [DecidableEq ι] in
theorem Healing.initial (d : Deployment cr ι) : Healing d (fun _ => 0) (fun _ => ∅) d.initial where
  sane := Sane.initial d
  knowing := Knowing.initial _ d
  complete j := by
    refine MemoryAdapter.log_empty.trans ?_
    ext o
    exact ⟨fun ho => absurd ho (Set.notMem_empty o), fun ⟨_, hm, _⟩ => by cases hm⟩
  exchanging := Exchanging.initial _ d

/-- **Without gaps an exchange levels all replicas.** If every batch that a
replica's clock takes in has, or is preceded by, whatever was issued before by
the same devices, and after the last write every replica hands over to every
other one, then every log holds all that was issued, and dumps are equal. -/
theorem exchange_levels_of_gapFree (d : Deployment cr ι) (space : JsString)
    {acts rest : List (Action ι)}
    (h : Runs.Along (step cr space) (fun w a => Growing a ∧ GapFree exact w a) d.initial
      (acts ++ rest)) (hq : ∀ a ∈ rest, a.Quiet) :
    let w₀ := Runs.run (step cr space) d.initial acts
    let w := Runs.run (step cr space) w₀ rest
    (∀ i j, i ≠ j → Handed d w₀ w j i) →
      (∀ i, (w.node i).engine.storage.log = TangentFeed.issued w.trace) ∧
      ∀ i j, (w.node i).engine.storage.tables = (w.node j).engine.storage.tables ∧
        ((w.node i).engine.cipher = (w.node j).engine.cipher → ∀ inherited,
          (w.node i).engine.dump inherited = (w.node j).engine.dump inherited) := by
  obtain ⟨hacts, hrest⟩ := Runs.along_append.1 h
  have keep : ∀ {n A} (w : Config ι) (a : Action ι), Growing a ∧ GapFree exact w a →
      Healing d n A w → Healing d n A (w.step cr space a) :=
    fun w a ha hw => hw.step (w.step_shape a) ha.1 ha.2
  have hw₀ := hacts.invariant (I := Healing d _ _) keep (Healing.initial d)
  generalize Runs.run (step cr space) d.initial acts = w₀ at hw₀ hrest
  intro _ w hall
  have hw : Healing d (fun j => (w₀.node j).nextId) (fun j => TangentFeed.applied w₀.trace j) w :=
    hrest.invariant (I := Healing d _ _) keep
      ⟨hw₀.sane, hw₀.knowing, hw₀.complete, hw₀.exchanging.takeOver⟩
  have hissued : TangentFeed.issued w.trace = TangentFeed.issued w₀.trace :=
    hw₀.sane.issued_run fun a ha =>
      ⟨(hrest.forall_mem (R := Growing) (fun _ _ hp => hp.1) a ha).1, hq a ha⟩
  have hlog : ∀ i, (w.node i).engine.storage.log = TangentFeed.issued w.trace := by
    intro i
    rw [hw.complete i]
    refine Set.Subset.antisymm (hw.sane.issued i) fun o ho => ?_
    rw [hissued] at ho
    obtain ⟨j, -, ho⟩ := hw₀.sane.author o ho
    by_cases hij : i = j
    · subst hij
      exact hw.exchanging.held i ho
    · exact knows_exact.1 (hw.exchanging.informed (hall i j hij) o ho)
  refine ⟨hlog, fun i j => ?_⟩
  have ht := hw.sane.tables_eq (fun j o ho => .of_mem (by rw [hlog j]; exact ho)) i j
  exact ⟨ht, fun hc => dump_congr ht hc⟩

/-! ## On samples -/

/-- A run that passes the check compacts nothing and has no gaps. -/
theorem growing_of_check {acts : List (Action ι)} (h : Runs.alongCheck (step cr space)
      (fun w a => decide (Growing a) && gapCheck w a) d.initial acts = true) :
    Runs.Along (step cr space) (fun w a => Growing a ∧ GapFree exact w a) d.initial acts := by
  have hb := (Runs.along_of_check h).mono (fun w a hw => by
    rw [Bool.and_eq_true, decide_eq_true_iff] at hw
    exact hw)
  have hs := hb.strengthen (I := Sane d) (fun w a ha hw => hw.step (w.step_shape a) ha.1.1)
    (Sane.initial d)
  exact hs.mono fun w a hw => ⟨hw.1.1, hw.2.gapFree_of_check hw.1.2⟩


/-- The handlers of `j` that took in a `since` of the device. -/
def asked (t : List (Event ι)) (j : ι) (device : JsString) : List Nat :=
  t.filterMap fun
    | .handling j' h msg =>
      match msg.body with
      | .since .. => if j = j' ∧ msg.sender = device then some h else none
      | _ => none
    | _ => none

/-- Whether handler `h` of `j` finished, and sent no operations. -/
def endedEmpty (t : List (Event ι)) (j : ι) (h : Nat) : Bool :=
  (t.any fun
    | .finished j' h' => j = j' ∧ h = h'
    | _ => false) &&
  t.all fun
    | .sent j' (some h') msg =>
      match msg.body with
      | .ops .. => ¬ (j = j' ∧ h = h')
      | _ => true
    | _ => true

theorem handed_of_check {w₀ : Config ι} {i j : ι}
    (hc : ((asked w.trace j (d.device i)).any fun h =>
      decide ((w₀.node j).nextId ≤ h) && endedEmpty w.trace j h) = true) : Handed d w₀ w j i := by
  obtain ⟨h, hasked, hc⟩ := List.any_eq_true.1 hc
  rw [Bool.and_eq_true, decide_eq_true_iff, endedEmpty, Bool.and_eq_true] at hc
  obtain ⟨hn, hf, hnone⟩ := hc
  obtain ⟨e, he, h1⟩ := List.mem_filterMap.1 hasked
  obtain ⟨e', he', h2⟩ := List.any_eq_true.1 hf
  have hfin : Event.finished j h ∈ w.trace := by
    cases e' with
    | finished j' h' =>
      obtain ⟨rfl, rfl⟩ : j = j' ∧ h = h' := by simpa using h2
      exact he'
    | _ => cases h2
  cases e with
  | handling j' h' msg =>
    cases hb : msg.body with
    | since receiver f =>
      simp only [hb] at h1
      split at h1
      · rename_i hj
        obtain ⟨rfl, hdev⟩ := hj
        obtain rfl := Option.some.inj h1
        refine ⟨h', msg, receiver, f, hn, he, hb, hdev, hfin, fun m r js hm hbody => ?_⟩
        have hno := List.all_eq_true.1 hnone _ hm
        simp only [hbody] at hno
        simp at hno
      · cases h1
    | _ => simp only [hb] at h1; cases h1
  | _ => cases h1

/-- Both replicas ask each other, once replica `true` has been greeted again by
message 0 and replica `false` by message 1. -/
def askEachOther (h : Nat) (since : Nat) : List (Action Bool) :=
  .deliver true 0 :: List.replicate 5 (.resume true h) ++
  .deliver false since :: List.replicate 2 (.resume false (h - 2)) ++
  .deliver false 1 :: List.replicate 5 (.resume false (h - 1)) ++
  .deliver true (since + 2) :: List.replicate 2 (.resume true (h + 1))

theorem exchange_levels_of_gapFree_sample :
    ((Sample.after (Sample.answered ++ askEachOther 4 7)).node true).engine.storage.allOps.length = 1 ∧
      ((Sample.after (Sample.answered ++ askEachOther 4 7)).node true).engine.storage.tables =
        ((Sample.after (Sample.answered ++ askEachOther 4 7)).node false).engine.storage.tables := by
  have equal (acts rest : List (Action Bool)) (h : Runs.alongCheck (step plainCrypto Sample.space)
        (fun w a => decide (Growing a) && gapCheck w a) Sample.pair.initial (acts ++ rest) = true)
      (hq : ∀ a ∈ rest, a.Quiet)
      (hall : ∀ i j : Bool, i ≠ j → ((asked (Sample.after (acts ++ rest)).trace j
        (Sample.pair.device i)).any fun h => decide (((Sample.after acts).node j).nextId ≤ h) &&
          endedEmpty (Sample.after (acts ++ rest)).trace j h) = true) :
      ((Sample.after (acts ++ rest)).node true).engine.storage.tables =
        ((Sample.after (acts ++ rest)).node false).engine.storage.tables := by
    unfold Sample.after at hall ⊢
    rw [Runs.run_append] at hall ⊢
    exact ((exchange_levels_of_gapFree Sample.pair Sample.space (growing_of_check h) hq
      fun i j hij => handed_of_check (hall i j hij)).2 true false).1
  exact ⟨by decide +kernel, equal _ _ (by decide +kernel) (by decide) (by decide +kernel)⟩

/-- Two writes, the message of the first one lost. -/
def lostWrite : List (Action Bool) :=
  [.start false, .start true, .resume false 0, .deliver true 0] ++ List.replicate 6 (.resume true 1) ++
  [Sample.write false Sample.row, Sample.write false Sample.otherRow, .deliver true 5] ++
  List.replicate 3 (.resume true 2)

/-- **A gap does not heal.** After the complete exchange in both directions the
other replica still has only the second write. -/
theorem gap_stays :
    (∀ a ∈ lostWrite ++ askEachOther 3 8, Growing a) ∧ (∀ a ∈ askEachOther 3 8, a.Quiet) ∧
      (∀ i j, i ≠ j → Handed Sample.pair (Sample.after lostWrite)
        (Sample.after (lostWrite ++ askEachOther 3 8)) j i) ∧
      ∃ o ∈ TangentFeed.issued (Sample.after (lostWrite ++ askEachOther 3 8)).trace,
        o ∉ ((Sample.after (lostWrite ++ askEachOther 3 8)).node true).engine.storage.log := by
  have missing (w : Config Bool) (h : (issuedOps w.trace).any (fun o =>
      !(w.node true).engine.storage.hasOp o.id) = true) :
      ∃ o ∈ TangentFeed.issued w.trace, o ∉ (w.node true).engine.storage.log := by
    obtain ⟨o, ho, hno⟩ := List.any_eq_true.1 h
    refine ⟨o, mem_issuedOps.1 ho, fun hlog => ?_⟩
    rw [MemoryAdapter.hasOp_iff.2 ⟨o, MemoryAdapter.mem_log.1 hlog⟩] at hno
    cases hno
  have handed (w₀ w : Config Bool) (h : ∀ i j : Bool, i ≠ j →
      ((asked w.trace j (Sample.pair.device i)).any fun h =>
        decide ((w₀.node j).nextId ≤ h) && endedEmpty w.trace j h) = true) :
      ∀ i j, i ≠ j → Handed Sample.pair w₀ w j i := fun i j hij => handed_of_check (h i j hij)
  exact ⟨by decide, by decide, handed _ _ (by decide +kernel), missing _ (by decide +kernel)⟩

end TangentFeed.Config
