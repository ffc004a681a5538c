import TangentFeed.Network.Exchange
import TangentFeed.Network.Gossip
import TangentFeed.Network.Horizon
import TangentFeed.Replica.Graves

/-!
# Reclaiming deleted rows

Replicas that write, exchange and compact, and reclaim rows once every replica
has recorded a frontier of every other one. A row is reclaimed when all frontiers
have passed its operations, so whoever is behind knows them already
(`Answerable.step`) and the final exchange still informs everybody. But nothing
keeps a replica from taking in an operation of a row whose tombstone it has
forgotten, and then the row is back. While no step does that (`Sparing`), deleted
rows stay deleted; while no batch leaves a gap either, the replicas agree.
-/

namespace TangentFeed

open AntiEntropy Covering SyncEngine Graves

/-- A compaction that may remove whole rows. -/
def Action.Reclaims {ι : Type} : Action ι → Prop
  | .call _ (.compact opts) => opts.includeTombstones = true ∧ opts.dryRun = false
  | _ => False

/-- The condition as it is computed. -/
def Action.reclaims {ι : Type} : Action ι → Bool
  | .call _ (.compact opts) => opts.includeTombstones && !opts.dryRun
  | _ => false

theorem Action.reclaims_iff {ι : Type} {a : Action ι} : a.reclaims = true ↔ a.Reclaims := by
  cases a with
  | call i c => cases c <;> simp [Action.reclaims, Action.Reclaims]
  | _ => simp [Action.reclaims, Action.Reclaims]

instance reclaimsDecidable {ι : Type} (a : Action ι) : Decidable a.Reclaims :=
  decidable_of_iff _ Action.reclaims_iff

namespace Config

variable {cr : Crypto} {ι : Type} [DecidableEq ι] {d : Deployment cr ι} {space : JsString}
  {w w' : Config ι} {a : Action ι} {i j : ι} {r : Reply Unit}

/-- Every replica has recorded a frontier of every other one. -/
def Acquainted (d : Deployment cr ι) (w : Config ι) : Prop :=
  ∀ i j, i ≠ j → ∃ f, (w.node i).engine.storage.peerFrontiers[d.device j]? = some f

/-- An honest step that reclaims nothing before all are acquainted. -/
def Prepared (d : Deployment cr ι) (w : Config ι) (a : Action ι) : Prop :=
  a.Honest ∧ (a.Reclaims → Acquainted d w)

/-- The operations that replica `j` writes or merges. -/
inductive TakesIn (cr : Crypto) (w : Config ι) (j : ι) : Action ι → List Op → Prop where
  | write {c : Call} {ev : ChangeEvent} : (c.run cr (w.node j).engine).event = some ev →
      TakesIn cr w j (.call j c) ev.ops
  | merge {a : Action ι} {ops : List Op} : Merges w j a ops →
      ((w.node j).engine.receiveMax ops).1 = .ok () → TakesIn cr w j a ops

/-- A replica that has reclaimed a row takes in operations of it only if the row's
latest `-` operation in the log is a tombstone then. -/
structure Sparing (cr : Crypto) (w : Config ι) (a : Action ι) : Prop where
  careful : ∀ {j ops}, TakesIn cr w j a ops → Careful rowLayout (w.node j).engine.storage.log
    (TangentFeed.applied w.trace j) {o | o ∈ ops}

/-! ## Being acquainted -/

/-- What was recorded stays recorded. -/
theorem Acquainted.step (h : Acquainted d w) (hb : Base cr w) (hs : Shape cr space w a w') :
    Acquainted d w' := by
  intro i j hij
  obtain ⟨f, hf⟩ := h i j hij
  rcases hs.evolves i with ⟨r, he⟩ | ⟨_, _, _, hr⟩
  · obtain ⟨dd, heff, -⟩ := he.effect hb
    exact heff.peerFrontiers_kept hf
  · have e : (reopened (w.node i) _).engine.storage = (w.node i).engine.storage :=
      ((hb.consistent i).openOn hr.opened).2.2.2
    exact ⟨f, by rw [hr.node, e]; exact hf⟩

/-- **It is enough to be acquainted before the first row is reclaimed.** -/
theorem Acquainted.prepared {acts : List (Action ι)} (h : Acquainted d w) (hb : Base cr w)
    (ha : ∀ a ∈ acts, a.Honest) : Runs.Along (Config.step cr space) (Prepared d) w acts := by
  induction acts generalizing w with
  | nil => trivial
  | cons a acts ih =>
    have hs : Shape cr space w a (w.step cr space a) := w.step_shape a
    exact ⟨⟨ha a List.mem_cons_self, fun _ => h⟩,
      ih (h.step hb hs) (hb.step hs) fun b hb => ha b (List.mem_cons_of_mem _ hb)⟩

theorem prepared_of_not_reclaims {acts : List (Action ι)}
    (ha : ∀ a ∈ acts, a.Honest ∧ ¬ a.Reclaims) :
    Runs.Along (step cr space) (Prepared d) w acts := by
  induction acts generalizing w with
  | nil => trivial
  | cons a acts ih =>
    obtain ⟨hh, hr⟩ := ha a List.mem_cons_self
    exact ⟨⟨hh, fun h => absurd h hr⟩, ih fun b hb => ha b (List.mem_cons_of_mem _ hb)⟩

/-! ## What the others know -/

/-- **A reclaimed row is known everywhere.** -/
theorem Knowing.reclaimed (hk : Knowing superseding w) (hd : Sane d w) (ha : Acquainted d w)
    {opts : CompactionOptions} {o : Op} (hrow : o.rowKey ∈ reclaims (w.node j).engine.storage opts)
    (ho : Knows superseding.feed (w.node j).engine.storage.log o) (i : ι) :
    Knows superseding.feed (TangentFeed.applied w.trace i) o := by
  have hl := (hd.base.consistent j).ledger
  obtain ⟨p, hp, hcov⟩ := ho
  refine .of_covers hcov ?_
  by_cases hij : j = i
  · rw [← hij]
    exact .of_mem (hl.logged hp)
  · obtain ⟨f, hf⟩ := ha j i hij
    have hcell : p.rowKey = o.rowKey := congrArg rowOf hcov.1
    have hbelow := hrow.2.2 p hp hcell
    obtain ⟨k, hdev, hw⟩ := hd.recorded hf
    obtain rfl := d.device_injective hdev
    exact hk i p (hd.issued j (hl.logged hp))
      (hw.reaches (aboveFrontier_eq_false ((below_compactionHorizon.1 hbelow).2 hf)))

theorem Answerable.step (h : Answerable superseding w) (hd : Sane d w)
    (hk : Knowing superseding w) (hs : Shape cr space w a w') (ha : Prepared d w a) :
    Answerable superseding w' := by
  intro j o ho
  have hc := hd.base.consistent j
  have everywhere (hall : ∀ i, Knows superseding.feed (TangentFeed.applied w.trace i) o) (i : ι) :
      Knows superseding.feed (TangentFeed.applied w'.trace i) o := (hall i).mono (hs.applied_mono i)
  rcases hs.evolves j with ⟨r, he⟩ | ⟨_, _, _, hr⟩
  · obtain ⟨dd, heff, hcause⟩ := he.effect hd.base
    rw [he.applied] at ho
    rcases ho with ho | ho
    · rcases h j o ho with hlog | hall
      · rcases hc.keeps heff hlog with hlog' | ⟨opts, rfl, hdry, hrow⟩
        · exact .inl hlog'
        · obtain rfl := hcause.of_compact rfl
          exact .inr (everywhere (hk.reclaimed hd (ha.2 ⟨hrow.1, hdry⟩) hrow hlog))
      · exact .inr (everywhere hall)
    · exact .inl (.of_mem (hc.committed_logged heff ho))
  · rw [hr.applied] at ho
    have e : (reopened (w.node j) _).engine.storage = (w.node j).engine.storage :=
      (hc.openOn hr.opened).2.2.2
    rw [hr.node, e]
    exact (h j o ho).imp_right everywhere

/-! ## What the logs show -/

omit [DecidableEq ι] in
/-- What replica `j` commits in a sparing step is careful. -/
theorem Sparing.committed (hp : Sparing cr w a) (hd : Sane d w) {dd : Deed} {ev : Option ChangeEvent}
    (hcause : Cause cr w j a dd ev) : Careful rowLayout (w.node j).engine.storage.log
      (TangentFeed.applied w.trace j) (eventOps ev) := by
  have nothing : Careful rowLayout (w.node j).engine.storage.log (TangentFeed.applied w.trace j)
      (eventOps none) := by
    rintro r - ⟨o, ho, -⟩
    rw [eventOps_none] at ho
    exact absurd ho (Set.notMem_empty o)
  cases hcause with
  | none => exact nothing
  | record => exact nothing
  | @call c =>
    generalize hev : (c.run cr (w.node j).engine).event = ev
    cases ev with
    | none => exact nothing
    | some ev =>
      rw [eventOps_some]
      exact hp.careful (.write hev)
  | @merge _ ops hm hclock =>
    intro r hlost ⟨o, ho, hrow⟩
    rw [eventOps_some] at ho ⊢
    have hin := (freshOps_spec (w.node j).engine.storage ops).2.1 o ho
    have hdead := hp.careful (.merge hm hclock) r hlost ⟨o, hin, hrow⟩
    rw [← hd.log_union_fresh (hd.merges hm)] at hdead
    exact hdead

/-- Every log shows what its replica applied, or hides it. -/
def Settling (w : Config ι) : Prop :=
  ∀ j, Settled rowLayout (w.node j).engine.storage.log (TangentFeed.applied w.trace j)

theorem Settling.step (h : Settling w) (hd : Sane d w) (hs : Shape cr space w a w')
    (hp : Sparing cr w a) : Settling w' := by
  intro j
  have hc := hd.base.consistent j
  rcases hs.evolves j with ⟨r, he⟩ | ⟨_, _, _, hr⟩
  · obtain ⟨dd, heff, hcause⟩ := he.effect hd.base
    rw [he.applied]
    exact hc.settled heff (h j) (hp.committed hd hcause)
  · have e : (reopened (w.node j) _).engine.storage = (w.node j).engine.storage :=
      (hc.openOn hr.opened).2.2.2
    rw [hr.applied, hr.node, e]
    exact h j

omit [DecidableEq ι] in
theorem Settling.initial (d : Deployment cr ι) : Settling d.initial :=
  fun _ _ => .inl fun _ ⟨_, hm, _⟩ => by cases hm

/-- What holds in every configuration of a run that spares what it reclaimed and leaves no gap. -/
structure Reclaiming (d : Deployment cr ι) (A : Nat → ι → Set Op) (n : ι → Nat) (B : ι → Set Op)
    (w : Config ι) : Prop where
  sane : Sane d w
  settling : Settling w
  knowing : Knowing superseding w
  answerable : Answerable superseding w
  syncing : Syncing superseding A w
  exchanging : Exchanging superseding d n B w

variable {A : Nat → ι → Set Op} {n : ι → Nat} {B : ι → Set Op}

theorem Reclaiming.step (h : Reclaiming d A n B w) (hs : Shape cr space w a w')
    (ha : Prepared d w a) (hp : Sparing cr w a) (hg : GapFree superseding w a) :
    Reclaiming d A n B w' where
  sane := h.sane.step hs ha.1
  settling := h.settling.step h.sane hs hp
  knowing := h.knowing.step h.sane hs ha.1 hg
  answerable := h.answerable.step h.sane h.knowing hs ha
  syncing := h.syncing.step h.sane h.knowing h.answerable hs
  exchanging := h.exchanging.step h.sane h.knowing h.answerable hs

omit [DecidableEq ι] in
theorem Reclaiming.initial (d : Deployment cr ι) :
    Reclaiming d (fun _ _ => ∅) (fun _ => 0) (fun _ => ∅) d.initial where
  sane := Sane.initial d
  settling := Settling.initial d
  knowing := Knowing.initial _ d
  answerable _ _ := fun ⟨_, hm, _⟩ => by cases hm
  syncing := Syncing.initial _ d
  exchanging := Exchanging.initial _ d

omit [DecidableEq ι] in
/-- From now on all that is applied now is to be taken over. -/
theorem Reclaiming.takeOver (h : Reclaiming d A n B w) :
    Reclaiming d w.takeOver (fun j => (w.node j).nextId) (fun j => TangentFeed.applied w.trace j) w :=
  ⟨h.sane, h.settling, h.knowing, h.answerable, h.syncing.takeOver, h.exchanging.takeOver⟩

omit [DecidableEq ι] in
theorem Sane.distinct_ops (hd : Sane d w) : Distinct rowLayout (TangentFeed.issued w.trace) :=
  distinct_of_ids hd.distinct

/-- A replica that has applied the latest `-` operation on a row returns the row from no
read, if that operation is a tombstone. -/
def StayDeleted (w : Config ι) : Prop :=
  ∀ (table row : JsString) (o : Op), o ∈ TangentFeed.issued w.trace →
    o.cell = (table, row, tombstoneColumn) → o.value.isTrue = true →
    (∀ p ∈ TangentFeed.issued w.trace, p.cell = (table, row, tombstoneColumn) → p.hlc ≤ o.hlc) →
    ∀ i, o ∈ TangentFeed.applied w.trace i → (w.node i).engine.Withholds table row

omit [DecidableEq ι] in
theorem Settling.stayDeleted (h : Settling w) (hd : Sane d w) : StayDeleted w := by
  intro table row o ho hcell htrue hle i hi
  have hc := hd.base.consistent i
  exact hc.withholds ((h i).hides (g := (table, row)) hc.ledger.logged (hd.issued i)
    hd.distinct_ops ⟨ho, hcell, hle⟩ htrue hi)

/-! ## After a full exchange -/

/-- Since `w₀` replica `i` has taken over from `j`, by messages or by a call of `syncOnce`. -/
def TookOver (d : Deployment cr ι) (w₀ w : Config ι) (j i : ι) : Prop :=
  Handed d w₀ w j i ∨ ∃ k, w₀.nextSync ≤ k ∧ Event.synced k ∈ w.trace ∧
    (Event.syncing k i j ∈ w.trace ∨ Event.syncing k j i ∈ w.trace)

/-- After a full exchange every replica knows all that was issued before it. -/
theorem Reclaiming.informed {w₀ : Config ι} (h₀ : Sane d w₀)
    (h : Reclaiming d w₀.takeOver (fun j => (w₀.node j).nextId)
      (fun j => TangentFeed.applied w₀.trace j) w)
    (hall : ∀ i j, i ≠ j → TookOver d w₀ w j i) (i : ι) :
    Informed superseding w.trace (TangentFeed.issued w₀.trace) i := by
  intro o ho
  obtain ⟨j, -, ho⟩ := h₀.author o ho
  by_cases hij : i = j
  · subst hij
    exact .of_mem (h.exchanging.held i ho)
  · rcases hall i j hij with hh | ⟨k, hle, hend, hstart | hstart⟩
    · exact h.exchanging.informed hh o ho
    · exact (h.syncing.done hend hstart).2 o ⟨hle, ho⟩
    · exact (h.syncing.done hend hstart).1 o ⟨hle, ho⟩

omit [DecidableEq ι] in
/-- **Equal reads.** When every replica knows all that was issued, a row is the same
everywhere, whether or not it was reclaimed. -/
theorem Reclaiming.get_eq (h : Reclaiming d A n B w)
    (hk : ∀ i, Informed superseding w.trace (TangentFeed.issued w.trace) i)
    (hc : (w.node i).engine.cipher = (w.node j).engine.cipher) :
    (w.node i).engine.get = (w.node j).engine.get := by
  have hd := h.sane
  have ledger (i : ι) := (hd.base.consistent i).ledger
  have hin (i : ι) := (ledger i).logged.trans (hd.issued i)
  -- a row that is dead is returned by nobody
  have dead {r : RowKey} (hr : Dead rowLayout (TangentFeed.issued w.trace) r) (i : ι) :
      (w.node i).engine.get r.1 r.2 = some none := by
    obtain ⟨o, ho, htrue⟩ := hr
    have hmem := ho.mem_of_superseded hd.distinct_ops (hd.issued i) (hk i o ho.mem)
    exact (h.settling.stayDeleted hd r.1 r.2 o ho.mem ho.cell htrue ho.le i hmem).get
  funext table row
  by_cases hr : Dead rowLayout (TangentFeed.issued w.trace) (table, row)
  · rw [show (w.node i).engine.get table row = some none from dead hr i]
    exact (dead hr j).symm
  · have latest (i : ι) (c : JsString) (o : Op) : (w.node i).engine.storage.winner (table, row, c) =
        some o ↔ Latest rowLayout (TangentFeed.issued w.trace) (table, row, c) o := by
      have hi := ((h.settling i).resolve (hd.issued i) (hk i) (table, row)).resolve_right hr
      rw [(ledger i).winner_iff]
      exact hi.latest_iff (hin i) hd.distinct_ops rfl
    refine get_of_winners (ledger i).keyed (ledger j).keyed hc fun c => ?_
    ext o
    rw [latest i, latest j]

/-- **Deleted rows stay deleted** while no replica takes in operations of a row it
has reclaimed: a replica that has applied the latest `-` operation on a row, a
tombstone, returns the row from no read. And if no batch leaves a gap either, then
after a full exchange following the last write all replicas that decrypt alike
have equal dumps. -/
theorem deleted_rows_stay_deleted (d : Deployment cr ι) (space : JsString)
    {acts : List (Action ι)}
    (h : Runs.Along (step cr space) (fun w a => Prepared d w a ∧ Sparing cr w a) d.initial acts) :
    let w := Runs.run (step cr space) d.initial acts
    StayDeleted w ∧ (Runs.Along (step cr space) (GapFree superseding) d.initial acts →
      ∀ rest : List (Action ι), Runs.Along (step cr space)
        (fun w a => (Prepared d w a ∧ Sparing cr w a) ∧ GapFree superseding w a) w rest →
      (∀ a ∈ rest, a.Quiet) →
      let w' := Runs.run (step cr space) w rest
      (∀ i j, i ≠ j → TookOver d w w' j i) →
      ∀ i j, (w'.node i).engine.cipher = (w'.node j).engine.cipher → ∀ inherited,
        (w'.node i).engine.dump inherited = (w'.node j).engine.dump inherited) := by
  have settled := h.invariant (I := fun w => Sane d w ∧ Settling w)
    (fun w a ha hw => ⟨hw.1.step (w.step_shape a) ha.1.1, hw.2.step hw.1 (w.step_shape a) ha.2⟩)
    ⟨Sane.initial d, Settling.initial d⟩
  have keep : ∀ {A n B} (w : Config ι) (a : Action ι),
      (Prepared d w a ∧ Sparing cr w a) ∧ GapFree superseding w a →
      Reclaiming d A n B w → Reclaiming d A n B (w.step cr space a) :=
    fun w a ha hw => hw.step (w.step_shape a) ha.1.1 ha.1.2 ha.2
  refine ⟨settled.2.stayDeleted settled.1, fun hgaps rest hrest hquiet => ?_⟩
  have hw := (h.and hgaps).invariant (I := Reclaiming d _ _ _) keep (Reclaiming.initial d)
  generalize Runs.run (step cr space) d.initial acts = w at hw hrest
  have hw' := hrest.invariant (I := Reclaiming d _ _ _) keep hw.takeOver
  have hissued : TangentFeed.issued (Runs.run (step cr space) w rest).trace =
      TangentFeed.issued w.trace := hw.sane.issued_run fun a ha =>
    ⟨hrest.forall_mem (R := Action.Honest) (fun _ _ hp => hp.1.1.1) a ha, hquiet a ha⟩
  generalize Runs.run (step cr space) w rest = w' at hw' hissued
  intro _ hall i j hc inherited
  refine dump_of_get (hw'.get_eq (fun i => ?_) hc) inherited
  rw [hissued]
  exact hw'.informed hw.sane hall i

/-! ## On samples -/

/-- What an action takes in, and where. -/
def takenIn (cr : Crypto) (w : Config ι) : Action ι → Option (ι × List Op)
  | .call j c => (c.run cr (w.node j).engine).event.map fun ev => (j, ev.ops)
  | .resume j h =>
    match (w.node j).pending[h]? with
    | some (.opsApply _ ops) => some (j, ops)
    | _ => none
  | .resumeSync k =>
    match w.syncs[k]? with
    | some ⟨_, b, .applyB ops _⟩ => some (b, ops)
    | some ⟨a, _, .applyA ops⟩ => some (a, ops)
    | _ => none
  | _ => none

omit [DecidableEq ι] in
theorem TakesIn.takenIn {ops : List Op} (h : TakesIn cr w j a ops) :
    takenIn cr w a = some (j, ops) := by
  cases h with
  | write hev => simp only [Config.takenIn, hev, Option.map_some]
  | merge hm =>
    cases hm with
    | handler hc => simp only [Config.takenIn, hc]
    | applyB hk => simp only [Config.takenIn, hk]
    | applyA hk => simp only [Config.takenIn, hk]

/-- Of the rows an action takes in operations of, the log has all that was applied. -/
def spares (cr : Crypto) (w : Config ι) (a : Action ι) : Bool :=
  match takenIn cr w a with
  | none => true
  | some (j, ops) => ops.all fun o => (appliedOps w.trace j).all fun p =>
      p.rowKey != o.rowKey || (w.node j).engine.storage.hasOp p.id

theorem Sane.sparing_of_check (hd : Sane d w) (hkept : spares cr w a = true) : Sparing cr w a := by
  refine ⟨fun {j ops} hin r hlost => ?_⟩
  rintro ⟨o, ho, hrow⟩
  refine absurd (fun p hp hprow => ?_) hlost
  rw [spares, hin.takenIn] at hkept
  have h := List.all_eq_true.1 (List.all_eq_true.1 hkept o ho) p (mem_appliedOps.2 hp)
  have hsame : p.rowKey = o.rowKey := hprow.trans hrow.symm
  rw [hsame, bne_self_eq_false, Bool.false_or] at h
  have hl := (hd.base.consistent j).ledger
  obtain ⟨q, hq, hid⟩ := hl.keyed.hasOp_iff.1 h
  rw [← hd.distinct q (hd.issued j (hl.logged hq)) p (hd.issued j hp) hid]
  exact .of_mem hq

/-- A run that passes the check meets both conditions. -/
theorem sparing_of_check {acts : List (Action ι)}
    (hp : Runs.Along (step cr space) (Prepared d) d.initial acts)
    (hc : Runs.alongCheck (step cr space) (fun w a => gapCheck w a && spares cr w a) d.initial
      acts = true) :
    Runs.Along (step cr space)
      (fun w a => (Prepared d w a ∧ Sparing cr w a) ∧ GapFree superseding w a) d.initial acts := by
  have hs := (hp.and (Runs.along_of_check hc)).strengthen (I := Sane d)
    (fun w a ha hw => hw.step (w.step_shape a) ha.1.1) (Sane.initial d)
  refine hs.mono fun w a hw => ?_
  obtain ⟨hgap, hkept⟩ := Bool.and_eq_true_iff.1 hw.1.2
  exact ⟨⟨hw.1.1, hw.2.sparing_of_check hkept⟩, hw.2.gapFree_of_check hgap⟩

/-- The `k`-th call of `syncOnce`, complete. -/
def syncCall (k : Nat) : List (Action Bool) :=
  .syncOnce false true :: List.replicate 9 (.resumeSync k)

/-- One replica writes a row, the other one deletes it, and both are acquainted. -/
def deletedRow : List (Action Bool) := Sample.write false Sample.row :: syncCall 0 ++
  .call true (.delete Sample.table Sample.row) :: syncCall 1

/-- Then the other one reclaims it. -/
def reclaimedRow : List (Action Bool) := deletedRow ++ [.call true (.compact ⟨true, false⟩)]

theorem acquainted_deletedRow : Acquainted Sample.pair (Sample.after deletedRow) := by
  have known : ∀ i j : Bool, i ≠ j → (((Sample.after deletedRow).node i).engine.storage.peerFrontiers[
      Sample.pair.device j]?).isSome = true := by decide +kernel
  exact fun i j hij => Option.isSome_iff_exists.1 (known i j hij)

theorem prepared_reclaimedRow {rest : List (Action Bool)} (h : ∀ a ∈ rest, a.Honest) :
    Runs.Along (step plainCrypto Sample.space) (Prepared Sample.pair) Sample.pair.initial
      (reclaimedRow ++ rest) := by
  rw [reclaimedRow, List.append_assoc]
  refine Runs.along_append.2 ⟨prepared_of_not_reclaims (by decide), ?_⟩
  refine acquainted_deletedRow.prepared (base_run _ _ _) fun a ha => ?_
  rcases List.mem_append.1 ha with ha | ha
  · rw [List.mem_singleton.1 ha]
    trivial
  · exact h a ha

theorem deleted_rows_stay_deleted_sample :
    ((Sample.after reclaimedRow).node true).engine.storage.allOps.length = 0 ∧
      StayDeleted (Sample.after reclaimedRow) ∧
      ∀ inherited, ((Sample.after (reclaimedRow ++ syncCall 2)).node true).engine.dump inherited =
        ((Sample.after (reclaimedRow ++ syncCall 2)).node false).engine.dump inherited := by
  have hprepared : Runs.Along (step plainCrypto Sample.space) (Prepared Sample.pair)
      Sample.pair.initial (reclaimedRow ++ syncCall 2) := prepared_reclaimedRow (by decide)
  obtain ⟨hacts, hrest⟩ :=
    Runs.along_append.1 (sparing_of_check hprepared (by decide +kernel))
  have holds := deleted_rows_stay_deleted Sample.pair Sample.space
    (hacts.mono fun _ _ h => h.1)
  have hcall : 2 ∈ completed (Sample.after (reclaimedRow ++ syncCall 2)).trace ∧
      2 ∈ between (Sample.after (reclaimedRow ++ syncCall 2)).trace false true := by
    decide +kernel
  have hnext : (Sample.after reclaimedRow).nextSync ≤ 2 := by decide +kernel
  have hcipher : ((Sample.after (reclaimedRow ++ syncCall 2)).node true).engine.cipher.isNone ∧
      ((Sample.after (reclaimedRow ++ syncCall 2)).node false).engine.cipher.isNone := by
    decide +kernel
  refine ⟨by decide +kernel, holds.1, ?_⟩
  unfold Sample.after at hcall hnext hcipher ⊢
  rw [Runs.run_append] at hcall hcipher ⊢
  refine holds.2 (hacts.mono fun _ _ h => h.2) _ hrest (by decide) ?_ true false ?_
  · rintro (_ | _) (_ | _) hij
    · exact absurd rfl hij
    · exact .inr ⟨2, hnext, mem_of_completed hcall.1, .inl (mem_of_between hcall.2)⟩
    · exact .inr ⟨2, hnext, mem_of_completed hcall.1, .inr (mem_of_between hcall.2)⟩
    · exact absurd rfl hij
  · rw [Option.isNone_iff_eq_none.1 hcipher.1, Option.isNone_iff_eq_none.1 hcipher.2]

/-- The first replica, which still has the tombstone, then writes the row. -/
def rewrittenRow : List (Action Bool) := Sample.write false Sample.row :: syncCall 2

/-- **A reclaimed row comes back.** The replica that reclaimed it takes in a later
write of the row, finds no tombstone and returns the row. -/
theorem deleted_row_returns :
    Runs.Along (step plainCrypto Sample.space) (Prepared Sample.pair) Sample.pair.initial
        (reclaimedRow ++ rewrittenRow) ∧
      ¬ StayDeleted (Sample.after (reclaimedRow ++ rewrittenRow)) := by
  have hp : Runs.Along (step plainCrypto Sample.space) (Prepared Sample.pair) Sample.pair.initial
      (reclaimedRow ++ rewrittenRow) := prepared_reclaimedRow (by decide)
  refine ⟨hp, fun h => ?_⟩
  have hd : Sane Sample.pair (Sample.after (reclaimedRow ++ rewrittenRow)) :=
    hp.invariant (I := Sane Sample.pair) (fun w a ha hw => hw.step (w.step_shape a) ha.1)
      (Sane.initial _)
  have latest : ∃ o ∈ appliedOps (Sample.after (reclaimedRow ++ rewrittenRow)).trace true,
      o.cell = (Sample.table, Sample.row, tombstoneColumn) ∧ o.value.isTrue = true ∧
      ∀ p ∈ issuedOps (Sample.after (reclaimedRow ++ rewrittenRow)).trace,
        p.cell = (Sample.table, Sample.row, tombstoneColumn) → p.hlc ≤ o.hlc := by decide +kernel
  have shown : ((Sample.after (reclaimedRow ++ rewrittenRow)).node true).engine.shows Sample.table
      Sample.row = true := by decide +kernel
  obtain ⟨o, ho, hcell, htrue, hle⟩ := latest
  have ho := mem_appliedOps.1 ho
  have hget := (h Sample.table Sample.row o (hd.issued true ho) hcell htrue
    (fun p hp => hle p (mem_issuedOps.2 hp)) true ho).get
  rw [shows_eq_false.2 hget] at shown
  cases shown

end Config

end TangentFeed
