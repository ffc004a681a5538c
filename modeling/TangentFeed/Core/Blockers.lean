import Mathlib.Order.Bounds.Basic
import TangentFeed.Core.Compaction

/-!
# The horizon and the peers that hold it back

`compactionHorizon` is the least of our frontier and the peers', device by device,
and `blockingPeers` names the peers whose frontier lags ours. Both tell the same:
the horizon is our own frontier exactly when nobody blocks it, and an operation
stays above the horizon only because some peer has not seen it.
-/

namespace TangentFeed

/-- What a frontier has of a device; nothing is below everything. -/
def entry (f : Frontier) (d : JsString) : JsString := f[d]?.getD zeroHlc

/-- The frontier lags ours on some device. -/
def Behind (own f : Frontier) : Prop := ∃ (d : JsString) (ours : JsString), own[d]? = some ours ∧ entry f d < ours

/-- What a frontier and the peers' have of a device. -/
def entries (peers : JsMap Frontier) (d : JsString) : Set JsString :=
  {x | ∃ (p : JsString) (f : Frontier), peers[p]? = some f ∧ x = entry f d}

variable {own : Frontier} {peers : JsMap Frontier} {d least : JsString}

/-! ## The least of all frontiers -/

theorem getElem?_foldl_lowerHorizon (fs : List Frontier) (own : Frontier) :
    (fs.foldl lowerHorizon own)[d]? =
      own[d]?.map fun ours => (fs.map (entry · d)).foldl min ours := by
  induction fs generalizing own with
  | nil =>
    rw [List.foldl_nil, List.map_nil]
    cases own[d]? <;> rfl
  | cons f fs ih =>
    have hstep : (lowerHorizon own f)[d]? = own[d]?.map fun ours => min ours (entry f d) := by
      ext h
      rw [getElem?_lowerHorizon, Option.map_eq_some_iff]
      exact exists_congr fun ours => and_congr_right fun _ => eq_comm
    rw [List.foldl_cons, ih, hstep, Option.map_map]
    rfl

theorem mem_entries_iff {x : JsString} :
    x ∈ entries peers d ↔ x ∈ (peers.toList.map Prod.snd).map (entry · d) := by
  simp only [entries, Set.mem_ofPred_eq, List.map_map, List.mem_map, Prod.exists,
    Std.ExtTreeMap.mem_toList_iff_getElem?_eq_some, Function.comp_apply, eq_comm (a := x)]

theorem foldl_lowerHorizon_isLeast {fs : List Frontier} :
    (fs.foldl lowerHorizon own)[d]? = some least ↔
      ∃ ours, own[d]? = some ours ∧ IsLeast (insert ours {x | x ∈ fs.map (entry · d)}) least := by
  rw [getElem?_foldl_lowerHorizon, Option.map_eq_some_iff]
  refine exists_congr fun ours => and_congr_right fun _ => ?_
  rw [← Option.some_inj, ← List.min?_cons', List.min?_eq_some_iff]
  unfold IsLeast
  simp only [mem_lowerBounds, Set.mem_insert_iff, Set.mem_ofPred_eq, List.mem_cons]

/-- **The horizon is the least of what we and the peers have.** -/
theorem compactionHorizon_isLeast :
    (compactionHorizon own peers)[d]? = some least ↔
      ∃ ours, own[d]? = some ours ∧ IsLeast (insert ours (entries peers d)) least := by
  have hentries : entries peers d = {x | x ∈ (peers.toList.map Prod.snd).map (entry · d)} :=
    Set.ext fun _ => mem_entries_iff
  rw [hentries]
  exact foldl_lowerHorizon_isLeast

theorem entry_compactionHorizon_le : entry (compactionHorizon own peers) d ≤ entry own d := by
  unfold entry
  cases h : (compactionHorizon own peers)[d]? with
  | none => exact nil_le_jsString _
  | some least =>
    obtain ⟨ours, hours, hleast⟩ := compactionHorizon_isLeast.1 h
    rw [hours]
    exact hleast.2 (Set.mem_insert _ _)

/-- Frontiers that are further and fewer make a horizon that is further. -/
theorem compactionHorizon_mono {peers' : JsMap Frontier}
    (h : ∀ (p : JsString) (f' : Frontier), peers'[p]? = some f' →
      ∃ f : Frontier, peers[p]? = some f ∧ entry f d ≤ entry f' d) :
    entry (compactionHorizon own peers) d ≤ entry (compactionHorizon own peers') d := by
  cases hown : own[d]? with
  | none =>
    have hnone : (compactionHorizon own peers)[d]? = none := by
      rw [Option.eq_none_iff_forall_ne_some]
      intro least hl
      obtain ⟨ours, hours, -⟩ := compactionHorizon_isLeast.1 hl
      rw [hown] at hours
      cases hours
    rw [entry, hnone]
    exact nil_le_jsString _
  | some ours =>
    have hsome : ∀ peers : JsMap Frontier, ∃ least, (compactionHorizon own peers)[d]? = some least := by
      intro peers
      unfold compactionHorizon
      rw [getElem?_foldl_lowerHorizon, hown]
      exact ⟨_, rfl⟩
    obtain ⟨least, hl⟩ := hsome peers
    obtain ⟨least', hl'⟩ := hsome peers'
    obtain ⟨_, hours, -, hlow⟩ := compactionHorizon_isLeast.1 hl
    obtain ⟨_, hours', hmem', -⟩ := compactionHorizon_isLeast.1 hl'
    obtain rfl := Option.some.inj (hown.symm.trans hours)
    obtain rfl := Option.some.inj (hown.symm.trans hours')
    rw [entry, entry, hl, hl']
    rcases hmem' with heq | ⟨p, f', hp, heq⟩
    · exact (hlow (Set.mem_insert _ _)).trans_eq heq.symm
    · obtain ⟨f, hf, hle⟩ := h p f' hp
      exact ((hlow (Set.mem_insert_of_mem _ ⟨p, f, hf, rfl⟩)).trans hle).trans_eq heq.symm

/-! ## The report -/

theorem mem_blockingPeers {p : JsString} :
    p ∈ blockingPeers own peers ↔ ∃ f, peers[p]? = some f ∧ Behind own f := by
  unfold blockingPeers sortStrings Behind entry
  rw [List.mem_insertionSort]
  simp only [List.mem_map, List.mem_filter, Prod.exists, exists_and_right, exists_eq_right,
    Std.ExtTreeMap.mem_toList_iff_getElem?_eq_some, List.any_eq_true, decide_eq_true_eq]

/-- The report is sorted and names nobody twice. -/
theorem pairwise_blockingPeers : (blockingPeers own peers).Pairwise (· < ·) := by
  have hnodup : (blockingPeers own peers).Nodup := by
    unfold blockingPeers sortStrings
    rw [(List.perm_insertionSort _ _).nodup_iff]
    refine (List.Sublist.map Prod.fst List.filter_sublist).nodup ?_
    rw [Std.ExtTreeMap.map_fst_toList_eq_keys]
    exact Std.ExtTreeMap.nodup_keys
  exact ((List.pairwise_insertionSort _ _).and hnodup).imp fun h => lt_of_le_of_ne h.1 h.2

theorem blockingPeers_eq_nil : blockingPeers own peers = [] ↔
    ∀ (p : JsString) (f : Frontier), peers[p]? = some f → ¬ Behind own f := by
  rw [List.eq_nil_iff_forall_not_mem]
  refine forall_congr' fun p => ?_
  rw [mem_blockingPeers, not_exists]
  exact forall_congr' fun f => not_and

/-- **Nobody blocks exactly when the horizon is our frontier.** -/
theorem blockingPeers_eq_nil_iff :
    blockingPeers own peers = [] ↔ compactionHorizon own peers = own := by
  rw [blockingPeers_eq_nil]
  constructor
  · intro h
    have hours : ∀ d ours : JsString, own[d]? = some ours →
        IsLeast (insert ours (entries peers d)) ours := by
      refine fun d ours hd => ⟨Set.mem_insert _ _, ?_⟩
      rintro x (rfl | ⟨p, f, hf, rfl⟩)
      · exact le_refl _
      · exact not_lt.1 fun hlt => h p f hf ⟨d, ours, hd, hlt⟩
    refine Std.ExtTreeMap.ext_getElem? fun d => ?_
    ext least
    rw [compactionHorizon_isLeast]
    constructor
    · rintro ⟨ours, hd, hleast⟩
      rw [hd, hleast.unique (hours d ours hd)]
    · intro hd
      exact ⟨least, hd, hours d least hd⟩
  · rintro h p f hf ⟨d, ours, hours, hlt⟩
    rw [← h, compactionHorizon_isLeast] at hours
    obtain ⟨_, -, -, hlow⟩ := hours
    exact absurd (hlow (Set.mem_insert_of_mem _ ⟨p, f, hf, rfl⟩)) (not_le.2 hlt)

/-! ## What stays above the horizon -/

/-- The removal pass counts what is above the horizon in the rows that stay. -/
theorem Removals.foldl_add_above (doomed winnerIds : JsSet) (bel : Op → Bool) (ops : List Op)
    (p : Removals) :
    (ops.foldl (Removals.add doomed winnerIds bel) p).retainedAboveHorizon =
      p.retainedAboveHorizon +
        (ops.filter fun op => !doomed.contains (rowKeyOf op) && !bel op).length := by
  induction ops generalizing p with
  | nil => rfl
  | cons op ops ih =>
    rw [List.foldl_cons, ih, List.filter_cons]
    unfold Removals.add
    cases hd : doomed.contains (rowKeyOf op) with
    | true => rfl
    | false =>
      cases hb : bel op with
      | true => cases winnerIds.contains op.id <;> rfl
      | false =>
        simp only [Bool.not_false, Bool.and_self, if_true, List.length_cons]
        simp only [Bool.false_eq_true, if_false]
        omega

/-- Above the horizon is above what some peer has. -/
theorem exists_behind {op : Op} (hown : op.hlc ≤ entry own op.device)
    (h : below (compactionHorizon own peers) op = false) :
    ∃ (p : JsString) (f : Frontier), peers[p]? = some f ∧ entry f op.device < op.hlc := by
  by_contra hno
  rw [Bool.eq_false_iff, ne_eq, below_compactionHorizon] at h
  refine h ⟨hown, fun {p f} hf => ?_⟩
  by_contra hlt
  exact hno ⟨p, f, hf, not_le.1 hlt⟩

/-- **The horizon and the report agree.** Device by device the horizon is the least of what
we and the peers have; it is further the further the peers and the fewer. What a plan keeps
as above it, some peer has not seen. The report names, sorted and once each, the peers that
lag; it is empty exactly when the horizon is our frontier, and not empty when something is
kept as above the horizon. -/
theorem horizon_and_blockers (own : Frontier) (peers : JsMap Frontier) (ops : List Op)
    (hown : ∀ op ∈ ops, op.hlc ≤ entry own op.device) (cells : JsMap Op)
    (opts : CompactionOptions) :
    let horizon := compactionHorizon own peers
    let stats := (planCompaction ops cells horizon opts).stats (blockingPeers own peers)
    (∀ d least : JsString, horizon[d]? = some least ↔
      ∃ ours, own[d]? = some ours ∧ IsLeast (insert ours (entries peers d)) least) ∧
    (∀ d, entry horizon d ≤ entry own d) ∧
    (∀ (p : JsString) (f f' : Frontier), peers[p]? = some f → (∀ d, entry f d ≤ entry f' d) →
      ∀ d, entry horizon d ≤ entry (compactionHorizon own (peers.insert p f')) d) ∧
    (∀ more : JsMap Frontier,
      (∀ (p : JsString) (f : Frontier), peers[p]? = some f → more[p]? = some f) →
        ∀ d, entry (compactionHorizon own more) d ≤ entry horizon d) ∧
    (∀ op ∈ ops, below horizon op = false →
      ∃ (p : JsString) (f : Frontier), peers[p]? = some f ∧ entry f op.device < op.hlc) ∧
    stats.blockedBy.Pairwise (· < ·) ∧
    (∀ p, p ∈ stats.blockedBy ↔ ∃ f, peers[p]? = some f ∧ Behind own f) ∧
    (stats.blockedBy = [] ↔ horizon = own) ∧
    (0 < stats.retainedAboveHorizon → stats.blockedBy ≠ []) := by
  intro horizon stats
  refine ⟨fun d least => compactionHorizon_isLeast, fun d => entry_compactionHorizon_le,
    fun p f f' hf hle d => ?_, fun more hmore d => ?_, fun op ho => exists_behind (hown op ho),
    pairwise_blockingPeers, fun p => mem_blockingPeers, blockingPeers_eq_nil_iff, fun hpos => ?_⟩
  · refine compactionHorizon_mono fun q g hg => ?_
    rw [Std.ExtTreeMap.getElem?_insert_eq] at hg
    split at hg
    · rename_i hq
      obtain rfl := hq
      obtain rfl := Option.some.inj hg
      exact ⟨f, hf, hle d⟩
    · exact ⟨g, hg, le_refl _⟩
  · exact compactionHorizon_mono fun p f hf => ⟨f, hmore p f hf, le_refl _⟩
  · have hcount := Removals.foldl_add_above (doomedRows ops cells horizon opts) (winnerIds cells)
      (below horizon) ops ⟨[], ∅, 0, 0, 0⟩
    change 0 < (ops.foldl (Removals.add (doomedRows ops cells horizon opts) (winnerIds cells)
      (below horizon)) ⟨[], ∅, 0, 0, 0⟩).retainedAboveHorizon at hpos
    rw [hcount, Nat.zero_add] at hpos
    obtain ⟨op, hop⟩ := List.exists_mem_of_length_pos hpos
    obtain ⟨ho, hab⟩ := List.mem_filter.1 hop
    rw [Bool.and_eq_true, Bool.not_eq_true', Bool.not_eq_true'] at hab
    obtain ⟨p, f, hf, hlt⟩ := exists_behind (hown op ho) hab.2
    have hours : Behind own f := by
      cases hd : own[op.device]? with
      | none =>
        have hle := hown op ho
        rw [entry, hd] at hle
        exact absurd hle op.not_hlc_le_zeroHlc
      | some ours =>
        have hle := hown op ho
        rw [entry, hd] at hle
        exact ⟨op.device, ours, hd, hlt.trans_le hle⟩
    exact List.ne_nil_of_mem (mem_blockingPeers.2 ⟨f, hf, hours⟩)

/-- An operation at the beginning of time. -/
def earlyOp : Op where
  raw := .obj [(js "id", .str (encodeHlc ⟨1, 0, List.replicate 32 0x61⟩)), (js "table", .str (js "t")),
    (js "row", .str (List.replicate 26 0x30)), (js "column", .str (js "c")), (js "value", .null),
    (js "hlc", .str (encodeHlc ⟨1, 0, List.replicate 32 0x61⟩)),
    (js "device", .str (List.replicate 32 0x61)), (js "sig", .str [])]
  valid := by decide +kernel

/-- A peer that has nothing blocks the compaction of one operation. -/
theorem horizon_and_blockers_sample :
    let own : Frontier := (∅ : Frontier).insert earlyOp.device earlyOp.hlc
    let peers : JsMap Frontier := (∅ : JsMap Frontier).insert (js "peer") ∅
    blockingPeers own peers ≠ [] ∧ compactionHorizon own peers ≠ own := by
  intro own peers
  have hown : ∀ op ∈ [earlyOp], op.hlc ≤ entry own op.device := by
    intro op ho
    rw [List.mem_singleton.1 ho, entry, Std.ExtTreeMap.getElem?_insert_self]
    exact le_refl _
  have hall := horizon_and_blockers own peers [earlyOp] hown ∅ ⟨false, false⟩
  have hne : blockingPeers own peers ≠ [] :=
    hall.2.2.2.2.2.2.2.2 (by decide +kernel)
  exact ⟨hne, fun h => hne (hall.2.2.2.2.2.2.2.1.2 h)⟩

end TangentFeed
