import TangentFeed.Network.Retention
import TangentFeed.Network.SyncOnce
import TangentFeed.Replica.Sample

/-!
# Gossip with compaction

Replicas that only write, call `syncOnce` and compact without reclaiming rows.
Compaction leaves holes in the logs, but a hole is always covered by a later
operation on its cell: the logs keep all they know, so what `syncOnce` reads
leaves no gap, and no frontier passes an operation that is not superseded.
-/

namespace TangentFeed

open AntiEntropy Covering SyncEngine

/-- Local writes, `syncOnce`, and compactions that reclaim no row. -/
def Action.Gossip {ι : Type} : Action ι → Prop
  | .call _ (.insert ..) | .call _ (.update ..) | .call _ (.delete ..) => True
  | .call _ (.compact opts) => opts.includeTombstones = false
  | .syncOnce _ _ | .resumeSync _ => True
  | _ => False

instance {ι : Type} (a : Action ι) : Decidable a.Gossip := by
  unfold Action.Gossip
  split <;> infer_instance

theorem Action.Gossip.honest {ι : Type} {a : Action ι} (h : a.Gossip) : a.Honest := by
  cases a with
  | call i c => cases c <;> trivial
  | _ => trivial

namespace Config

variable {cr : Crypto} {ι : Type} {d : Deployment cr ι} {space : JsString}
  {w w' : Config ι} {a : Action ι} {C : Covering} {A : Nat → ι → Set Op}

/-- Calls of `syncOnce` merge what leaves no gap. -/
theorem Syncing.gapFree (h : Syncing C A w) (ha : ∀ i n, a ≠ .resume i n) : GapFree C w a := by
  intro j ops hm _
  cases hm with
  | handler => exact absurd rfl (ha _ _)
  | applyB hk => exact (h.stage hk).1.closed
  | applyA hk => exact (h.stage hk).2.closed

/-- What holds in every configuration of a gossip. -/
structure Gossiping (d : Deployment cr ι) (A : Nat → ι → Set Op) (w : Config ι) : Prop where
  sane : Sane d w
  knowing : Knowing superseding w
  kept : Kept w
  syncing : Syncing superseding A w

variable [DecidableEq ι]

theorem Gossiping.step (h : Gossiping d A w) (hs : Shape cr space w a w') (ha : a.Gossip) :
    Gossiping d A w' where
  sane := h.sane.step hs ha.honest
  knowing := h.knowing.step h.sane hs ha.honest
    (h.syncing.gapFree fun i n he => by rw [he] at ha; exact ha)
  kept := h.kept.step h.sane hs fun i opts he => by rw [he] at ha; exact ha
  syncing := h.syncing.step h.sane h.knowing h.kept.answerable hs

omit [DecidableEq ι] in
theorem Gossiping.initial (d : Deployment cr ι) : Gossiping d (fun _ _ => ∅) d.initial where
  sane := Sane.initial d
  knowing := Knowing.initial _ d
  kept _ _ := fun ⟨_, hm, _⟩ => by cases hm
  syncing := Syncing.initial _ d

theorem Gossiping.run (h : Gossiping d A w) (space : JsString) {acts : List (Action ι)} (ha : ∀ a ∈ acts, a.Gossip) :
    Gossiping d A (Runs.run (Config.step cr space) w acts) := by
  induction acts generalizing w with
  | nil => exact h
  | cons a acts ih =>
    exact ih (h.step (w.step_shape a) (ha a List.mem_cons_self)) fun b hb =>
      ha b (List.mem_cons_of_mem _ hb)

/-- The calls of `syncOnce` from now on are to take over all that is applied now. -/
def takeOver (w : Config ι) (k : Nat) (i : ι) : Set Op :=
  {o | w.nextSync ≤ k ∧ o ∈ TangentFeed.applied w.trace i}

omit [DecidableEq ι] in
theorem Syncing.takeOver (h : Syncing C A w) : Syncing C w.takeOver w where
  numbered := h.numbered
  held _ _ _ ho := ho.2
  stage := by
    intro k s hk
    have none (i : ι) : w.takeOver k i ⊆ A k i := fun o ho =>
      absurd (h.numbered.waiting hk).1 (Nat.not_lt.2 ho.1)
    exact (h.stage hk).anti fun i => none i
  done := by
    intro k x y hend _
    have none (i j : ι) : Informed C w.trace (w.takeOver k i) j := fun o ho =>
      absurd (h.numbered.ended hend) (Nat.not_lt.2 ho.1)
    exact ⟨none x y, none y x⟩

omit [DecidableEq ι] in
/-- A frontier is past nothing that is not superseded. -/
theorem Gossiping.superseded (h : Gossiping d A w) (i : ι) {o : Op}
    (ho : o ∈ TangentFeed.issued w.trace) {f : JsString}
    (hf : (w.node i).engine.frontier[o.device]? = some f) (hle : o.hlc ≤ f) :
    ∃ p, (w.node i).engine.storage.winner o.cell = some p ∧ o.hlc ≤ p.hlc := by
  have hl := (h.sane.base.consistent i).ledger
  obtain ⟨q, hq, hqcell, hoq⟩ := h.knowing i o ho (hl.reaches hf hle)
  obtain ⟨p, hp, hpcell, hqp⟩ := h.kept i q hq
  obtain ⟨v, hv, hpv⟩ := hl.exists_winner hp
  rw [hpcell, hqcell] at hv
  exact ⟨v, hv, le_trans hoq (le_trans hqp hpv)⟩

/-- When every pair has completed a call of `syncOnce`, every log knows all that
was issued before. -/
theorem Gossiping.informed {w₀ : Config ι} (h₀ : Gossiping d A w₀)
    (h : Gossiping d w₀.takeOver w)
    (hall : ∀ i j, i ≠ j → ∃ k, w₀.nextSync ≤ k ∧ Event.synced k ∈ w.trace ∧
      (Event.syncing k i j ∈ w.trace ∨ Event.syncing k j i ∈ w.trace)) (i : ι) :
    ∀ o ∈ TangentFeed.issued w₀.trace, Knows superseding.feed (w.node i).engine.storage.log o := by
  intro o ho
  obtain ⟨j, -, ho⟩ := h₀.sane.author o ho
  have hk : Knows superseding.feed (TangentFeed.applied w.trace i) o := by
    by_cases hij : i = j
    · subst hij
      exact .of_mem (h.syncing.held w₀.nextSync i ⟨Nat.le_refl _, ho⟩)
    · obtain ⟨k, hle, hend, hstart | hstart⟩ := hall i j hij
      · exact (h.syncing.done hend hstart).2 o ⟨hle, ho⟩
      · exact (h.syncing.done hend hstart).1 o ⟨hle, ho⟩
  obtain ⟨p, hp, hcov⟩ := hk
  exact .of_covers hcov (h.kept i p hp)

/-- **Gossip converges with compaction interleaved.** At any time, if an issued
operation is at or below a replica's frontier, the replica's winner on its cell
is not older. And if no more is written and every pair completes a call of
`syncOnce` started from then on, all replicas have the same cells, hence the
same dump if they decrypt alike. -/
theorem gossip_converges (d : Deployment cr ι) (space : JsString) {acts : List (Action ι)}
    (h : ∀ a ∈ acts, a.Gossip) :
    let w := Runs.run (step cr space) d.initial acts
    (∀ i, ∀ o ∈ TangentFeed.issued w.trace, ∀ f : JsString,
      (w.node i).engine.frontier[o.device]? = some f → o.hlc ≤ f →
        ∃ p, (w.node i).engine.storage.winner o.cell = some p ∧ o.hlc ≤ p.hlc) ∧
    ∀ rest : List (Action ι), (∀ a ∈ rest, a.Gossip ∧ a.Quiet) →
      let w' := Runs.run (step cr space) w rest
      (∀ i j, i ≠ j → ∃ k, w.nextSync ≤ k ∧ Event.synced k ∈ w'.trace ∧
        (Event.syncing k i j ∈ w'.trace ∨ Event.syncing k j i ∈ w'.trace)) →
      ∀ i j, (w'.node i).engine.storage.tables = (w'.node j).engine.storage.tables ∧
        ((w'.node i).engine.cipher = (w'.node j).engine.cipher → ∀ inherited,
          (w'.node i).engine.dump inherited = (w'.node j).engine.dump inherited) := by
  have hw := (Gossiping.initial d).run space h
  generalize Runs.run (step cr space) d.initial acts = w at hw
  refine ⟨fun i o ho f hf hle => hw.superseded i ho hf hle, fun rest hrest => ?_⟩
  have hw₀ : Gossiping d w.takeOver w := ⟨hw.sane, hw.knowing, hw.kept, hw.syncing.takeOver⟩
  have hissued : TangentFeed.issued (Runs.run (step cr space) w rest).trace =
      TangentFeed.issued w.trace := hw.sane.issued_run fun a ha =>
      ⟨(hrest a ha).1.honest, (hrest a ha).2⟩
  have hw' := hw₀.run space fun a ha => (hrest a ha).1
  generalize Runs.run (step cr space) w rest = w' at hw' hissued
  intro _ hall i j
  have ht := hw'.sane.tables_eq (by rw [hissued]; exact hw.informed hw' hall) i j
  exact ⟨ht, fun hc => dump_congr ht hc⟩

/-- The numbers of the calls on record that are complete, and of those between `x` and `y`. -/
def completed (t : List (Event ι)) : List Nat :=
  t.filterMap fun | .synced k => some k | _ => none

def between (t : List (Event ι)) (x y : ι) : List Nat :=
  t.filterMap fun | .syncing k i j => if i = x ∧ j = y then some k else none | _ => none

omit [DecidableEq ι] in
theorem mem_of_completed {t : List (Event ι)} {k : Nat} (h : k ∈ completed t) :
    Event.synced k ∈ t := by
  obtain ⟨e, he, hk⟩ := List.mem_filterMap.1 h
  cases e <;> first | (obtain rfl := Option.some.inj hk; exact he) | cases hk

theorem mem_of_between {t : List (Event ι)} {k : Nat} {x y : ι} (h : k ∈ between t x y) :
    Event.syncing k x y ∈ t := by
  obtain ⟨e, he, hk⟩ := List.mem_filterMap.1 h
  cases e with
  | syncing k' i j =>
    by_cases hij : i = x ∧ j = y
    · simp only [if_pos hij] at hk
      obtain ⟨rfl, rfl⟩ := hij
      rw [← Option.some.inj hk]
      exact he
    · simp only [if_neg hij] at hk
      cases hk
  | _ => cases hk

/-- A row written twice by one replica, which compacts. -/
def twoWrites : List (Action Bool) := [Sample.write false Sample.row, Sample.write false Sample.row,
  .call false (.compact ⟨false, false⟩)]

/-- One complete call of `syncOnce`. -/
def oneSync : List (Action Bool) := .syncOnce false true :: List.replicate 9 (.resumeSync 0)

theorem gossip_converges_sample :
    ((Sample.after (twoWrites ++ oneSync)).node true).engine.storage.allOps.length = 1 ∧
      ((Sample.after (twoWrites ++ oneSync)).node true).engine.storage.tables =
        ((Sample.after (twoWrites ++ oneSync)).node false).engine.storage.tables := by
  have equal (acts rest : List (Action Bool)) (h : ∀ a ∈ acts, a.Gossip)
      (h' : ∀ a ∈ rest, a.Gossip ∧ a.Quiet)
      (hk : ∃ k, (Sample.after acts).nextSync ≤ k ∧
        k ∈ completed (Sample.after (acts ++ rest)).trace ∧
          k ∈ between (Sample.after (acts ++ rest)).trace false true) :
      ((Sample.after (acts ++ rest)).node true).engine.storage.tables =
        ((Sample.after (acts ++ rest)).node false).engine.storage.tables := by
    unfold Sample.after at hk ⊢
    rw [Runs.run_append] at hk ⊢
    obtain ⟨k, hle, hend, hstart⟩ := hk
    refine ((gossip_converges Sample.pair Sample.space h).2 rest h' ?_ true false).1
    rintro (_ | _) (_ | _) hij
    · exact absurd rfl hij
    · exact ⟨k, hle, mem_of_completed hend, .inl (mem_of_between hstart)⟩
    · exact ⟨k, hle, mem_of_completed hend, .inr (mem_of_between hstart)⟩
    · exact absurd rfl hij
  exact ⟨by decide +kernel, equal _ _ (by decide) (by decide) ⟨0, by decide +kernel⟩⟩

end Config

end TangentFeed
