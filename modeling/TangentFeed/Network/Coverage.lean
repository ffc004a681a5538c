import TangentFeed.Lib.AntiEntropy
import TangentFeed.Network.Honest

/-!
# Frontiers without gaps

The anti-entropy library at the operations of a run: an item is an operation,
its author the device, its rank the HLC. What makes an operation superfluous is
a `Covering`: itself only, or any later operation on its cell. `Knowing` is that
every replica's frontier is sound in this sense. A step keeps it if what is
merged leaves no gap (`GapFree`), and what `opsSince` answers to a frontier
leaves none if the log covers what was applied (`Answerable`).
-/

namespace TangentFeed

open AntiEntropy SyncEngine

/-- When one operation makes another superfluous. -/
structure Covering where
  covers : Op → Op → Prop
  refl : ∀ o, covers o o
  trans : ∀ {o p q}, covers o p → covers p q → covers o q

namespace Covering

def feed (C : Covering) : Feed Op JsString JsString where
  author := Op.device
  rank := Op.hlc
  covers := C.covers
  refl := C.refl
  trans := C.trans

/-- Only the operation itself does. -/
def exact : Covering where
  covers o p := o = p
  refl _ := rfl
  trans h h' := h.trans h'

/-- A later operation on the cell does. -/
def superseding : Covering where
  covers o p := p.cell = o.cell ∧ o.hlc ≤ p.hlc
  refl _ := ⟨rfl, le_refl _⟩
  trans h h' := ⟨h'.1.trans h.1, le_trans h.2 h'.2⟩

variable {C : Covering} {H : Set Op} {o : Op}

@[simp] theorem knows_exact : Knows exact.feed H o ↔ o ∈ H := by
  constructor
  · rintro ⟨p, hp, rfl⟩
    exact hp
  · exact .of_mem

end Covering

variable {C : Covering} {cr : Crypto}

/-- What a frontier is not below was reached by whoever had it. -/
theorem Witnessed.reaches {H : Set Op} {f : Frontier} (h : Witnessed H f) {o : Op}
    (ho : aboveFrontier o f = false) : Reaches C.feed H o := by
  unfold aboveFrontier at ho
  cases hf : f[o.device]? with
  | none => rw [hf] at ho; cases ho
  | some seen =>
    rw [hf] at ho
    obtain ⟨q, hq, hdev, rfl⟩ := h _ _ hf
    have hle : o.hlc ≤ q.hlc := not_lt.1 (by simpa using ho)
    exact ⟨q, hq, hdev, hle⟩

/-- What the frontier of a ledger is at or past was reached. -/
theorem MemoryAdapter.Ledger.reaches {s : MemoryAdapter} {H : Set Op} (h : s.Ledger H) {o : Op}
    {f : JsString} (hf : s.frontier[o.device]? = some f) (ho : o.hlc ≤ f) :
    Reaches C.feed H o := by
  obtain ⟨q, hq, hdev, rfl⟩ := h.frontier_mem hf
  exact ⟨q, hq, hdev, ho⟩

namespace Config

variable {ι : Type} {d : Deployment cr ι} {space : JsString} {w w' : Config ι}
  {a : Action ι} {i j : ι} {h : Nat} {r : Reply Unit}

/-- Every replica knows what its frontier says it has seen. -/
def Knowing (C : Covering) (w : Config ι) : Prop :=
  ∀ i, Covered C.feed (TangentFeed.issued w.trace) (TangentFeed.applied w.trace i)

/-- Every batch that the clock takes in leaves no gap: each operation issued by
one of its devices, no later than what the batch has of that device, is covered
by what the replica applied or by the batch. -/
def GapFree (C : Covering) (w : Config ι) (a : Action ι) : Prop :=
  ∀ j ops, Merges w j a ops → ((w.node j).engine.receiveMax ops).1 = .ok () →
    Closed C.feed (TangentFeed.issued w.trace) (TangentFeed.applied w.trace j) {o | o ∈ ops}

/-- What a replica applied is covered by its log, or everywhere. -/
def Answerable (C : Covering) (w : Config ι) : Prop :=
  ∀ j, ∀ o ∈ TangentFeed.applied w.trace j, Knows C.feed (w.node j).engine.storage.log o ∨
    ∀ i, Knows C.feed (TangentFeed.applied w.trace i) o

/-! ## What a merge adds -/

/-- What is not in the log already is among the fresh operations. -/
theorem Sane.log_union_fresh (hd : Sane d w) {ops : List Op}
    (hops : ∀ o ∈ ops, o ∈ TangentFeed.issued w.trace) :
    (w.node j).engine.storage.log ∪ {o | o ∈ freshOps (w.node j).engine.storage ops} =
      (w.node j).engine.storage.log ∪ {o | o ∈ ops} := by
  have hl := (hd.base.consistent j).ledger
  obtain ⟨-, hsub, hcov⟩ := freshOps_spec (w.node j).engine.storage ops
  refine Set.Subset.antisymm (Set.union_subset_union_right _ hsub) ?_
  rintro o (ho | ho)
  · exact .inl ho
  · by_cases hlog : (w.node j).engine.storage.hasOp o.id = true
    · obtain ⟨p, hp, hid⟩ := hl.keyed.hasOp_iff.1 hlog
      rw [← hd.distinct p (hd.issued j (hl.logged hp)) o (hops o ho) hid]
      exact .inl hp
    · obtain ⟨p, hp, hid⟩ := hcov o ho (by simpa using hlog)
      rw [← hd.distinct p (hops p (hsub p hp)) o (hops o ho) hid]
      exact .inr hp

theorem Sane.union_fresh (hd : Sane d w) {ops : List Op}
    (hops : ∀ o ∈ ops, o ∈ TangentFeed.issued w.trace) :
    TangentFeed.applied w.trace j ∪ {o | o ∈ freshOps (w.node j).engine.storage ops} =
      TangentFeed.applied w.trace j ∪ {o | o ∈ ops} := by
  have hlogged : TangentFeed.applied w.trace j =
      TangentFeed.applied w.trace j ∪ (w.node j).engine.storage.log :=
    (Set.union_eq_self_of_subset_right (hd.base.consistent j).ledger.logged).symm
  rw [hlogged, Set.union_assoc, hd.log_union_fresh hops, Set.union_assoc]

/-- **After an accepted merge the whole batch is applied.** -/
theorem Sane.merged (hd : Sane d w) (he : Evolves cr space w a w' j r) {ops : List Op}
    (hops : ∀ o ∈ ops, o ∈ TangentFeed.issued w.trace)
    (hr : eventOps r.event = {o | o ∈ freshOps (w.node j).engine.storage ops}) :
    TangentFeed.applied w'.trace j = TangentFeed.applied w.trace j ∪ {o | o ∈ ops} := by
  rw [he.applied, hr, hd.union_fresh hops]

/-- What an evolving replica applied: a write of its own, or a merged batch. -/
theorem Sane.applied_cases (hd : Sane d w) (ha : a.Honest) (he : Evolves cr space w a w' j r) :
    TangentFeed.applied w'.trace j = TangentFeed.applied w.trace j ∪ localOps r.event ∨
      ∃ ops, Merges w j a ops ∧ ((w.node j).engine.receiveMax ops).1 = .ok () ∧
        TangentFeed.applied w'.trace j = TangentFeed.applied w.trace j ∪ {o | o ∈ ops} := by
  obtain ⟨_, -, hcause⟩ := he.effect hd.base
  have happ := he.applied
  generalize hev : r.event = ev at hcause happ
  cases hcause with
  | none => left; rw [happ, eventOps_none]; ext o; simp [localOps]
  | record => left; rw [happ, eventOps_none]; ext o; simp [localOps]
  | merge hm hclock =>
    right
    refine ⟨_, hm, hclock, hd.merged he (hd.merges hm) ?_⟩
    rw [hev, eventOps_some]
    rfl
  | @call c =>
    left
    rw [happ]
    congr 1
    ext o
    constructor
    · rintro ⟨ev, hev', ho⟩
      exact ⟨ev, hev', Call.event_of_honest ha hev', ho⟩
    · exact fun ho => localOps_subset _ ho

/-! ## Preservation -/

/-- What is issued by another replica is out of reach. -/
theorem Sane.not_reaches (hd : Sane d w) (he : Evolves cr space w a w' j r) {o : Op}
    (ho : o ∈ localOps r.event) {H : Set Op} (hH : H ⊆ TangentFeed.issued w.trace) :
    ¬ Reaches C.feed H o := by
  rintro ⟨q, hq, hdev, hle⟩
  exact absurd (hd.issued_later he ho (hH hq) hdev) (not_lt.2 hle)

variable [DecidableEq ι]

/-- **A step without gaps keeps every frontier sound.** -/
theorem Knowing.step (hk : Knowing C w) (hd : Sane d w) (hs : Shape cr space w a w')
    (ha : a.Honest) (hg : GapFree C w a) : Knowing C w' := by
  intro i
  have hmono := hs.issued_mono
  rcases hs.evolves i with ⟨r, he⟩ | ⟨_, _, _, hr⟩
  · rcases hd.applied_cases ha he with happ | ⟨ops, hm, hclock, happ⟩
    · -- a write of its own
      have hown : Covered C.feed (TangentFeed.issued w.trace ∪ localOps r.event)
          (TangentFeed.applied w'.trace i) := by
        rw [happ]
        refine (hk i).issue_own fun o ho hreach => ?_
        obtain ⟨q, hq, hdev, -⟩ := hreach
        obtain ⟨ops, -, hmem, hb⟩ := he.local_batch hd.base hq
        exact hd.own_applied ho ((hdev.symm.trans (hb.device q hmem)).trans (hd.device i))
      have hsub : TangentFeed.issued w.trace ∪ localOps r.event ⊆ TangentFeed.issued w'.trace := by
        refine Set.union_subset hmono ?_
        rintro o ⟨ev, hev, hl, ho⟩
        exact ⟨i, ev, (he.commits ev).2 (.inr hev), hl, ho⟩
      rw [← Set.union_sdiff_cancel hsub]
      refine hown.issue ?_
      rintro o ⟨ho, hn⟩ ⟨q, hq, hdev, hle⟩
      rcases hs.issued ho with ho | ⟨j, r', he', ho'⟩
      · exact hn (.inl ho)
      · obtain ⟨ops', hev', hmem', hb'⟩ := he'.local_batch hd.base ho'
        have hne : j ≠ i := by
          rintro rfl
          rcases (he.commits _).1 ((he'.commits _).2 (.inr hev')) with hold | hsame
          · exact hn (.inl ⟨j, _, hold, rfl, hmem'⟩)
          · exact hn (.inr ⟨_, hsame, rfl, hmem'⟩)
        rw [happ] at hq
        rcases hq with hq | hq
        · exact hd.not_reaches he' ho' (hd.issued i) ⟨q, hq, hdev, hle⟩
        · obtain ⟨ops, -, hmem, hb⟩ := he.local_batch hd.base hq
          apply hne
          apply d.distinct
          change d.device j = d.device i
          rw [← hd.device j, ← hd.device i, ← hb'.device o hmem', ← hb.device q hmem]
          exact hdev.symm
    · -- a merged batch
      rw [happ, ← Set.union_sdiff_cancel hmono]
      refine ((hk i).merge (hg i ops hm hclock)).issue ?_
      rintro o ⟨ho, hn⟩
      rcases hs.issued ho with ho | ⟨j, r', he', ho'⟩
      · exact absurd ho hn
      · exact hd.not_reaches he' ho' (Set.union_subset (hd.issued i) (hd.merges hm))
  · rw [hr.applied, ← Set.union_sdiff_cancel hmono]
    refine (hk i).issue ?_
    rintro o ⟨ho, hn⟩
    rcases hs.issued ho with ho | ⟨j, r', he', ho'⟩
    · exact absurd ho hn
    · exact hd.not_reaches he' ho' (hd.issued i)

omit [DecidableEq ι] in
theorem Knowing.initial (C : Covering) (d : Deployment cr ι) : Knowing C d.initial :=
  fun _ _ ⟨_, _, hm, _⟩ => by cases hm

/-- A batch stays free of gaps while others write and merge. -/
theorem Sane.closed_step (hd : Sane d w) (hs : Shape cr space w a w') {B : Set Op}
    (hB : B ⊆ TangentFeed.issued w.trace)
    (hc : Closed C.feed (TangentFeed.issued w.trace) (TangentFeed.applied w.trace i) B) :
    Closed C.feed (TangentFeed.issued w'.trace) (TangentFeed.applied w'.trace i) B := by
  rw [← Set.union_sdiff_cancel hs.issued_mono]
  refine (hc.mono (hs.applied_mono i)).issue ?_
  rintro o ⟨ho, hn⟩
  rcases hs.issued ho with ho | ⟨j, r', he', ho'⟩
  · exact absurd ho hn
  · exact hd.not_reaches he' ho' hB

omit [DecidableEq ι] in
/-- **What `opsSince` answers leaves no gap.** -/
theorem Sane.answer (hd : Sane d w) (hk : Knowing C w) (hans : Answerable C w) {f : Frontier}
    (hf : Witnessed (TangentFeed.applied w.trace i) f) :
    Closed C.feed (TangentFeed.issued w.trace) (TangentFeed.applied w.trace i)
      {o | o ∈ (w.node j).engine.opsSince f} ∧
    ∀ o ∈ TangentFeed.applied w.trace j,
      Knows C.feed (TangentFeed.applied w.trace i ∪ {o | o ∈ (w.node j).engine.opsSince f}) o := by
  have hl := (hd.base.consistent j).ledger
  refine (hk i).answer (hk j) (fun o ho => (hans j o ho).imp_right fun h => h i)
    (hl.logged.trans (hd.issued j)) (fun o ho => hl.logged (hl.keyed.mem_opsSince.1 ho).1) ?_
  intro p hp hn
  refine hf.reaches ?_
  rw [← Bool.not_eq_true]
  exact fun habove => hn (hl.keyed.mem_opsSince.2 ⟨hp, habove⟩)

/-- **Sound frontiers** in every configuration of an honest run without gaps. -/
theorem knowing_run {acts : List (Action ι)}
    (h : Runs.Along (step cr space) (fun w a => a.Honest ∧ GapFree C w a) d.initial acts) :
    Sane d (Runs.run (step cr space) d.initial acts) ∧
      Knowing C (Runs.run (step cr space) d.initial acts) :=
  h.invariant (I := fun w => Sane d w ∧ Knowing C w)
    (fun w a ha hw => ⟨hw.1.step (w.step_shape a) ha.1,
      hw.2.step hw.1 (w.step_shape a) ha.1 ha.2⟩)
    ⟨Sane.initial d, Knowing.initial C d⟩

/-! ## Checking a run for gaps -/

/-- The operations of `issued` and `applied` as lists. -/
def issuedOps (t : List (Event ι)) : List Op :=
  t.flatMap fun
    | .committed _ ev => if ev.origin = .local then ev.ops else []
    | _ => []

def appliedOps (t : List (Event ι)) (i : ι) : List Op :=
  t.flatMap fun
    | .committed j ev => if i = j then ev.ops else []
    | _ => []

omit [DecidableEq ι] in
theorem mem_issuedOps {t : List (Event ι)} {o : Op} :
    o ∈ issuedOps t ↔ o ∈ TangentFeed.issued t := by
  unfold issuedOps
  rw [List.mem_flatMap]
  constructor
  · rintro ⟨e, he, ho⟩
    cases e with
    | committed i ev =>
      by_cases hl : ev.origin = .local
      · simp only [if_pos hl] at ho
        exact ⟨i, ev, he, hl, ho⟩
      · simp only [if_neg hl, List.not_mem_nil] at ho
    | _ => cases ho
  · rintro ⟨i, ev, he, hl, ho⟩
    exact ⟨_, he, by simp only [if_pos hl]; exact ho⟩

theorem mem_appliedOps {t : List (Event ι)} {i : ι} {o : Op} :
    o ∈ appliedOps t i ↔ o ∈ TangentFeed.applied t i := by
  unfold appliedOps
  rw [List.mem_flatMap]
  constructor
  · rintro ⟨e, he, ho⟩
    cases e with
    | committed j ev =>
      by_cases hj : i = j
      · subst hj
        simp only [if_pos] at ho
        exact ⟨ev, he, ho⟩
      · simp only [if_neg hj, List.not_mem_nil] at ho
    | _ => cases ho
  · rintro ⟨ev, he, ho⟩
    exact ⟨_, he, by simp only [if_pos]; exact ho⟩

/-- No operation of a device of `ops` is missing below what `ops` has of it. -/
def noGap (w : Config ι) (j : ι) (ops : List Op) : Bool :=
  (issuedOps w.trace).all fun o =>
    !(ops.any fun q => q.device == o.device && decide (o.hlc ≤ q.hlc)) ||
      (appliedOps w.trace j ++ ops).any (·.id == o.id)

def gapCheck (w : Config ι) : Action ι → Bool
  | .resume j h =>
    match (w.node j).pending[h]? with
    | some (.opsApply _ ops) => noGap w j ops
    | _ => true
  | .resumeSync k =>
    match w.syncs[k]? with
    | some ⟨_, b, .applyB ops _⟩ => noGap w b ops
    | some ⟨a, _, .applyA ops⟩ => noGap w a ops
    | _ => true
  | _ => true

theorem Sane.gapFree_of_check (hd : Sane d w) (hc : gapCheck w a = true) : GapFree C w a := by
  intro j ops hm _
  have hg : noGap w j ops = true := by
    cases hm with
    | handler hp => simpa only [gapCheck, hp] using hc
    | applyB hk => simpa only [gapCheck, hk] using hc
    | applyA hk => simpa only [gapCheck, hk] using hc
  rintro o ho ⟨q, hq, hdev, hle⟩
  have h := List.all_eq_true.1 hg o (mem_issuedOps.2 ho)
  have hin : (ops.any fun q => q.device == o.device && decide (o.hlc ≤ q.hlc)) = true := by
    refine List.any_eq_true.2 ⟨q, hq, ?_⟩
    have hdev' : q.device = o.device := hdev
    have hle' : o.hlc ≤ q.hlc := hle
    simp [hdev', hle']
  rw [hin, Bool.not_true, Bool.false_or, List.any_eq_true] at h
  obtain ⟨p, hp, hid⟩ := h
  have hid : p.id = o.id := by simpa using hid
  rcases List.mem_append.1 hp with hp | hp
  · have hp := mem_appliedOps.1 hp
    rw [← hd.distinct p (hd.issued j hp) o ho hid]
    exact .of_mem (.inl hp)
  · rw [← hd.distinct p (hd.merges hm p hp) o ho hid]
    exact .of_mem (.inr hp)

/-- **A run that passes the check is honest and without gaps.** -/
theorem gapFree_of_check {acts : List (Action ι)} (h : Runs.alongCheck (step cr space)
      (fun w a => decide a.Honest && gapCheck w a) d.initial acts = true) :
    Runs.Along (step cr space) (fun w a => a.Honest ∧ GapFree C w a) d.initial acts := by
  have hb := (Runs.along_of_check h).mono (fun w a hw => by
    rw [Bool.and_eq_true, decide_eq_true_iff] at hw
    exact hw)
  have hs := hb.strengthen (I := Sane d) (fun w a ha hw => hw.step (w.step_shape a) ha.1)
    (Sane.initial d)
  exact hs.mono fun w a hw => ⟨hw.1.1, hw.2.gapFree_of_check hw.1.2⟩

end Config

end TangentFeed
