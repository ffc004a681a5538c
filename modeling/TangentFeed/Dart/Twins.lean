import TangentFeed.Dart.Decoding
import TangentFeed.Dart.Writes
import TangentFeed.Replica.Retained
import TangentFeed.Replica.Visible

/-!
# One space, two implementations

A TypeScript replica and a Dart replica that applied the same operations. An
operation is read from one document on both sides, so the two have equal names and
timestamps and values that are those of one document. As long as no rows are
reclaimed, the two show the same cells, whatever else they did, and differ only in
rows without a value in a column other than `id` and in a column named `__proto__`.
-/

namespace TangentFeed.Dart

open Lww

variable {cr : Crypto}

/-! ## Twins -/

theorem SameValue.isNull {v : Json} {w : Doc AnyNum} (h : SameValue v w) :
    SyncEngine.isNull w = v.isNull := by
  obtain ⟨t, rfl, rfl⟩ := h
  cases t <;> rfl

theorem SameValue.isTrue {v : Json} {w : Doc AnyNum} (h : SameValue v w) :
    Dart.isTrue w = v.isTrue := by
  obtain ⟨t, rfl, rfl⟩ := h
  cases t with
  | bool b => cases b <;> rfl
  | null | num n | str s | arr xs | obj fs => rfl

/-- One operation in both implementations. -/
structure Twin (o : TangentFeed.Op) (p : StoredOp) : Prop where
  cell : o.cell = p.cell
  hlc : o.hlc = p.hlc
  sig : o.sig = p.sig
  value : SameValue o.value p.value

theorem Twin.device {o : TangentFeed.Op} {p : StoredOp} (h : Twin o p) : o.device = p.device := by
  obtain ⟨a, ha, -, -, hda⟩ := o.exists_hlc
  obtain ⟨b, hb, -, -, hdb⟩ := p.legal.decode
  rw [h.hlc, hb] at ha
  rw [← hda, hdb, Except.ok.inj ha]

/-- What TypeScript and Dart read of one document. -/
def OneDocument (o : TangentFeed.Op) (p : StoredOp) : Prop :=
  ∃ t : Doc Numeral, o.raw = inJs t ∧ Op.fromJson (inDart t) = .ok p.toOpFields

/-- **What both read from one document are twins.** -/
theorem OneDocument.twin {o : TangentFeed.Op} {p : StoredOp} (h : OneDocument o p) : Twin o p := by
  obtain ⟨t, ho, hp⟩ := h
  have hf := (fromJson_eq_ok.1 hp).1.fields
  have str : ∀ k ∈ stringFields, ∀ s, lookup (inDart t) k = some (.str s) →
      o.raw.getStr k = s := by
    intro k hk s hs
    have hjs := getStr_of_mem o hk
    rw [ho, get?_inJs] at hjs
    obtain ⟨x, hx, hstr⟩ := Option.map_eq_some_iff.1 hjs
    rw [lookup_inDart, hx] at hs
    rw [(inJs_eq_str x _).1 hstr] at hs
    rw [ho]
    exact Doc.str.inj (Option.some.inj hs)
  have hvalue := value_of_mem o
  rw [ho, get?_inJs] at hvalue
  obtain ⟨x, hx, hv⟩ := Option.map_eq_some_iff.1 hvalue
  have hvalue' := hf.value
  rw [lookup_inDart, hx] at hvalue'
  exact {
    cell := Prod.ext (str _ (by decide) _ hf.table)
      (Prod.ext (str _ (by decide) _ hf.row) (str _ (by decide) _ hf.column))
    hlc := str _ (by decide) _ hf.hlc
    sig := str _ (by decide) _ hf.sig
    value := ⟨x, hv.symm, (Option.some.inj hvalue').symm⟩ }

/-! ## Runs that keep rows -/

def Replica.Action.KeepsRows : Replica.Action → Prop
  | .call c => c.deed.KeepsRows
  | .open .. | .close => True

theorem winner_compactStorage_of_keeps {s : MemoryAdapter} {H : Set StoredOp} (hl : s.Ledger H)
    {opts : CompactionOptions} (h : opts.includeTombstones = false) :
    (compactStorage s opts).1.winner = s.winner := by
  by_cases hd : opts.dryRun = true
  · rw [compactStorage_dryRun hd]
  · funext c
    refine Option.ext fun w => ?_
    rw [compactStorage_winner hl (Bool.eq_false_iff.2 hd)]
    exact and_iff_left fun hr => Bool.false_ne_true (h.symm.trans hr.1)

/-- The winners are those of `H`, which has no other operation of their cell and name. -/
structure Latest (H : Set StoredOp) (winner : Cell → Option StoredOp) : Prop where
  tracks : Tracks cellScheme H winner
  sole : Sole cellScheme H winner

namespace SyncEngine

/-- A name that a winner has is not applied again, as the log has it. -/
theorem latest_committed {s : MemoryAdapter} {H : Set StoredOp} (hl : s.Ledger H)
    (h : Latest H s.winner) (ops : List StoredOp) (clock : Hlc) :
    Latest (H ∪ {o | o ∈ (pending s ops).fresh}) (committed s ops clock).winner := by
  have hm := merged_pending s ops
  rw [winner_committed]
  refine ⟨h.tracks.putAll _, h.sole.putAll h.tracks ?_ fun o ho w hw hhlc => ?_⟩
  · refine (List.pairwise_map.1 hm.nodup).imp fun {o p} hid _ hhlc => hid ?_
    rw [o.id_eq_hlc, p.id_eq_hlc]
    exact hhlc
  · have hid : w.id = o.id := by
      rw [w.id_eq_hlc, o.id_eq_hlc]
      exact hhlc
    have hlog : s.hasOp o.id = true := hl.keyed.hasOp_iff.2 ⟨w, hl.winner_logged hw, hid⟩
    rw [hm.notLogged o ho] at hlog
    cases hlog

/-- What a call leaves of the winners. -/
theorem Consistent.latest_effect {e : SyncEngine} {H : Set StoredOp} {d : Deed} {α : Type}
    {reply : Reply α} (hc : Consistent cr e H) (hw : Latest H e.storage.winner)
    (h : Effect cr e d reply) (hd : d.KeepsRows) :
    Latest (H ∪ eventOps reply.event) reply.engine.storage.winner := by
  have hs := h.store
  generalize reply.event = ev at hs
  cases hs with
  | idle hs => rwa [eventOps_none, Set.union_empty, hs]
  | peerSaved hs =>
    rw [eventOps_none, Set.union_empty, hs]
    exact hw
  | compacted hs =>
    rw [eventOps_none, Set.union_empty, hs, winner_compactStorage_of_keeps hc.kept.ledger hd]
    exact hw
  | committed hs _ _ =>
    rw [eventOps_some, hs]
    exact latest_committed hc.kept.ledger hw _ _

/-- Opening an engine leaves the winners. -/
theorem winner_openOn (env : Env) (s : MemoryAdapter) (seed : Nat) :
    (openOn cr env s seed).engine.storage.winner = s.winner := by
  have hwith : ∀ (s : MemoryAdapter) key asked,
      (openWith cr env s key asked).engine.storage.winner = s.winner := by
    intro s key asked
    unfold openWith
    simp only
    split
    · rfl
    · split
      · rfl
      · rcases (made cr env s key asked).transact_cases (s.applyBatch ⟨[], .empty, s.frontier,
          some (made cr env s key asked).clock.state⟩) with h | h
        · rw [h]
          rfl
        · rw [h]
          rfl
  unfold openOn
  split
  · exact hwith s _ 0
  · simp only
    rcases (made cr env s (cr.keygen seed) 0).transact_cases
      { s with deviceKey := some (cr.keygen seed) } with h | h
    · rw [h]
      rfl
    · rw [h]
      exact hwith _ _ _

end SyncEngine

namespace Replica

theorem latest_step {r : Replica} (hk : r.Kept cr) (hw : Latest r.applied r.phase.storage.winner)
    {a : Action} (ha : a.KeepsRows) :
    Latest (r.step cr a).applied (r.step cr a).phase.storage.winner := by
  cases a with
  | «open» env seed =>
    have hopen : (r.step cr (.open env seed)).phase.storage =
        (SyncEngine.openOn cr env r.phase.storage seed).engine.storage ∧
          (r.step cr (.open env seed)).applied = r.applied := by
      unfold Replica.step
      simp only
      cases (SyncEngine.openOn cr env r.phase.storage seed).result <;> exact ⟨rfl, rfl⟩
    rwa [hopen.1, hopen.2, SyncEngine.winner_openOn]
  | call c =>
    obtain ⟨phase, history⟩ := r
    cases phase with
    | closed s => exact hw
    | running e =>
      unfold Replica.step
      simp only
      rw [applied_append (p := .running e)]
      exact SyncEngine.Consistent.latest_effect hk hw (c.run_effect hk.identity) ha
  | close => exact hw

theorem latest_start : Latest start.applied start.phase.storage.winner := by
  have e : start.applied = ∅ := Set.eq_empty_iff_forall_notMem.2 fun o ⟨_, hm, _⟩ => nomatch hm
  exact ⟨Tracks.empty.congr e rfl, Sole.empty⟩

/-- **The winners are those of all that was applied.** -/
theorem latest_run (cr : Crypto) {acts : List Action} (h : ∀ a ∈ acts, a.KeepsRows) :
    Latest (Runs.run (step cr) start acts).applied
      (Runs.run (step cr) start acts).phase.storage.winner := by
  have key : ∀ (acts : List Action) (r : Replica), (∀ a ∈ acts, a.KeepsRows) → r.Kept cr →
      Latest r.applied r.phase.storage.winner →
      Latest (Runs.run (step cr) r acts).applied
        (Runs.run (step cr) r acts).phase.storage.winner := by
    intro acts
    induction acts with
    | nil => exact fun r _ _ hw => hw
    | cons a acts ih =>
      intro r h hk hw
      obtain ⟨ha, h⟩ := List.forall_mem_cons.1 h
      exact ih (r.step cr a) h (hk.step a) (latest_step hk hw ha)
  exact key acts _ h kept_start latest_start

end Replica

/-! ## What both show -/

/-- Two engines show one space, but for rows without a value in a column other than `id` and for
columns named `__proto__`. -/
structure ShowAlike (f : TangentFeed.SyncEngine) (e : SyncEngine) : Prop where
  cells : ∀ t r c, Option.Rel SameValue (f.cellValue t r c) (e.storage.shown t r c)
  rows : ∀ t r, (e.get t r).isSome = true ↔
    f.Visible t r ∧ ∃ c, c ≠ js "id" ∧ f.cellValue t r c ≠ none
  columns : ∀ t r data shown, f.get t r = some (some data) → e.get t r = some shown →
    ∀ c : JsString, c ≠ js "__proto__" → Option.Rel SameValue data[c]? (shown.get c)
  frontier : ∀ d : JsString, f.frontier[d]? = e.frontier[d]?

/-- Matching values are there together. -/
theorem rel_none {α β : Type} {Q : α → β → Prop} {x : Option α} {y : Option β}
    (h : Option.Rel Q x y) : x = none ↔ y = none := by
  cases h with
  | some _ => exact iff_of_false (fun e => nomatch e) fun e => nomatch e
  | none => exact iff_of_true rfl rfl

theorem eq_of_rel {α : Type} {x y : Option α} (h : Option.Rel (· = ·) x y) : x = y := by
  cases h with
  | some h => rw [h]
  | none => rfl

section Matching

variable {f : TangentFeed.SyncEngine} {e : SyncEngine} {t r : JsString}

theorem plain_of_none (hplain : f.cipher = none) (o : TangentFeed.Op) :
    TangentFeed.SyncEngine.plain f.cipher o = some o.value := by
  rw [hplain]
  rfl

theorem rel_shown (hplain : f.cipher = none)
    (hw : ∀ c, Option.Rel Twin (f.storage.winner c) (e.storage.winner c)) (c : JsString) :
    Option.Rel SameValue (f.cellValue t r c) (e.storage.shown t r c) := by
  unfold TangentFeed.SyncEngine.cellValue MemoryAdapter.shown
  by_cases hc : c = tombstoneColumn
  · rw [if_pos hc, if_pos hc]
    exact .none
  · rw [if_neg hc, if_neg hc]
    have h := hw (t, r, c)
    generalize f.storage.winner (t, r, c) = x, e.storage.winner (t, r, c) = y at h
    cases h with
    | none => exact .none
    | @some o p h =>
      simp only [Option.bind_some, plain_of_none hplain, MemoryAdapter.valueOf, h.value.isNull]
      split
      · exact .none
      · exact .some h.value

theorem rel_hidden (hw : ∀ c, Option.Rel Twin (f.storage.winner c) (e.storage.winner c)) :
    e.storage.Hidden t r ↔
      ∃ o, f.storage.winner (t, r, tombstoneColumn) = some o ∧ o.value.isTrue = true := by
  unfold MemoryAdapter.Hidden
  have h := hw (t, r, tombstoneColumn)
  generalize f.storage.winner (t, r, tombstoneColumn) = x,
    e.storage.winner (t, r, tombstoneColumn) = y at h
  cases h with
  | none => exact iff_of_false (fun ⟨_, h, _⟩ => nomatch h) fun ⟨_, h, _⟩ => nomatch h
  | some h => simp only [Option.some.injEq, exists_eq_left', h.value.isTrue]

/-- A row with a value is visible on one side if it is not hidden on the other. -/
theorem rel_visible (hw : ∀ c, Option.Rel Twin (f.storage.winner c) (e.storage.winner c))
    {c : JsString} (hc : f.cellValue t r c ≠ none) :
    f.Visible t r ↔ ¬e.storage.Hidden t r := by
  rw [rel_hidden hw]
  unfold TangentFeed.SyncEngine.Visible
  rw [and_iff_right]
  · push Not
    simp only [Bool.not_eq_true]
  · unfold TangentFeed.SyncEngine.cellValue at hc
    split at hc
    · exact absurd rfl hc
    · obtain ⟨v, hv⟩ := Option.ne_none_iff_exists'.1 hc
      obtain ⟨o, ho, -⟩ := Option.bind_eq_some_iff.1 hv
      exact ⟨c, o, ho⟩

/-- **Matching winners show alike.** -/
theorem showAlike_of_rel (hk : f.storage.Keyed) (hplain : f.cipher = none)
    (hw : ∀ c, Option.Rel Twin (f.storage.winner c) (e.storage.winner c))
    (hf : ∀ d : JsString, f.frontier[d]? = e.frontier[d]?) : ShowAlike f e := by
  have hrows : ∀ t r, (e.get t r).isSome = true ↔
      f.Visible t r ∧ ∃ c, c ≠ js "id" ∧ f.cellValue t r c ≠ none := by
    intro t r
    have hex : (∃ c, c ≠ js "id" ∧ e.storage.shown t r c ≠ none) ↔
        ∃ c, c ≠ js "id" ∧ f.cellValue t r c ≠ none :=
      exists_congr fun c => and_congr_right fun _ =>
        not_congr (rel_none (rel_shown hplain hw c)).symm
    rw [e.get_isSome, hex]
    exact and_congr_left fun ⟨c, _, hc⟩ => (rel_visible hw hc).symm
  refine ⟨fun t r => rel_shown hplain hw, hrows, fun t r data shown hd hs c hc => ?_, hf⟩
  have hv : f.Visible t r := ((hrows t r).1 (by rw [hs]; rfl)).1
  obtain ⟨data', hd', hget⟩ := TangentFeed.SyncEngine.get_of_readable hk hv fun c o _ _ => by
    rw [plain_of_none hplain]
    exact Option.some_ne_none _
  obtain rfl := Option.some.inj (Option.some.inj (hd.symm.trans hd'))
  rw [hget, SyncEngine.get_eq_some hs, if_neg hc]
  have h := rel_shown (t := t) (r := r) hplain hw c
  generalize f.cellValue t r c = x, e.storage.shown t r c = y at h
  cases h with
  | some h => exact .some h
  | none =>
    rw [Option.none_or, Option.none_or]
    split
    · exact .some (sameValue_str r)
    · exact .none

end Matching

/-- **The two implementations show one space alike.** A TypeScript replica without a secret and a
Dart replica that applied the same operations, each read from one document on both sides, in any
order and batches and between any other calls, restarts and compactions that do not reclaim rows:
they agree on every cell and on the frontier, and their rows differ only where a row has no value
in a column other than `id`, and in a column named `__proto__`. -/
theorem twins_show_alike (cr cr' : Crypto) (opts : EngineOptions) (seed : Nat)
    (acts : List TangentFeed.Replica.Action) (acts' : List Replica.Action) (e : SyncEngine) :
    let R := Runs.run (TangentFeed.Replica.step cr) (TangentFeed.Replica.start cr opts seed) acts
    let D := Runs.run (Replica.step cr') Replica.start acts'
    R.engine.cipher = none → D.phase = .running e →
    (∀ a ∈ acts, a.KeepsRows) → (∀ a ∈ acts', a.KeepsRows) →
    (∀ o ∈ R.applied, ∃ p ∈ D.applied, OneDocument o p) →
    (∀ p ∈ D.applied, ∃ o ∈ R.applied, OneDocument o p) → ShowAlike R.engine e := by
  intro R D hplain hrun hkeep hkeep' left right
  have left' : ∀ o ∈ R.applied, ∃ p ∈ D.applied, Twin o p := fun o ho =>
    (left o ho).imp fun _ h => h.imp_right OneDocument.twin
  have right' : ∀ p ∈ D.applied, ∃ o ∈ R.applied, Twin o p := fun p hp =>
    (right p hp).imp fun _ h => h.imp_right OneDocument.twin
  have hc : R.engine.Consistent cr R.applied := TangentFeed.Replica.consistent_run cr opts seed acts
  have hd : e.Consistent cr' D.applied := by
    have h := Replica.kept_run cr' acts'
    change D.Kept cr' at h
    unfold Replica.Kept at h
    rwa [hrun] at h
  have ht : Tracks TangentFeed.cellScheme R.applied R.engine.storage.winner :=
    TangentFeed.Replica.tracks_run cr opts seed hkeep
  have hw : Latest D.applied e.storage.winner := by
    have h := Replica.latest_run cr' hkeep'
    change Latest D.applied D.phase.storage.winner at h
    rwa [hrun] at h
  refine showAlike_of_rel hc.ledger.keyed hplain ?_ fun d => ?_
  · exact Tracks.rel ht hw.tracks hw.sole Twin.cell Twin.hlc (fun h => h) left' right'
  · have hrel := Tracks.rel hc.ledger.frontier hd.kept.ledger.frontier (Q := (· = ·))
      (fun _ _ _ _ _ _ h => h) Twin.device Twin.hlc Twin.hlc left' right' d
    exact eq_of_rel hrel

/-! ## A sample -/

namespace Sample

/-- What is sent of an operation that writes `true`. -/
def document (o : TangentFeed.Op) : Doc Numeral :=
  .obj [(js "id", .str o.id), (js "table", .str o.table), (js "row", .str o.row),
    (js "column", .str o.column), (js "value", .bool true), (js "hlc", .str o.hlc),
    (js "device", .str o.device), (js "sig", .str o.sig)]

/-- What the TypeScript device of seed 1 wrote, as Dart reads it. -/
def copies : List Item := (TangentFeed.Sample.written 1).map fun o => .decoded (inDart (document o))

def author : JsString :=
  (TangentFeed.SyncEngine.opened plainCrypto TangentFeed.Sample.opts 1).deviceId

/-- A Dart replica of another device that received it. -/
def received : List Replica.Action :=
  [.open TangentFeed.Sample.env 2] ++ [.call (.learnKey author (plainCrypto.keygen 1).publicKey)] ++
    [.call (.applyRemoteOps copies)]

def writer : List TangentFeed.Replica.Action :=
  [.call (.update TangentFeed.Sample.table TangentFeed.Sample.row
    (TangentFeed.Sample.record (.bool true)))]

def writerOps : List TangentFeed.Op :=
  (Runs.run (TangentFeed.Replica.step plainCrypto) (TangentFeed.Replica.start plainCrypto
    TangentFeed.Sample.opts 1) writer).history.flatMap fun ev => ev.ops

def receivedOps : List StoredOp :=
  (Runs.run (Replica.step plainCrypto) Replica.start received).history.flatMap fun ev => ev.ops

end Sample

set_option maxRecDepth 100000 in
/-- What the one wrote and what the other received are read from the same documents. -/
theorem documents_sample : Sample.writerOps.map TangentFeed.Op.raw =
      Sample.writerOps.map (fun o => inJs (Sample.document o)) ∧
    Sample.receivedOps.map (fun p => .ok p.toOpFields) =
      Sample.writerOps.map fun o => Op.fromJson (inDart (Sample.document o)) :=
  ⟨rfl, rfl⟩

/-- One write of a TypeScript replica that a Dart replica received. -/
theorem twins_show_alike_sample :
    ∃ e, (Runs.run (Replica.step plainCrypto) Replica.start Sample.received).phase = .running e ∧
      Sample.receivedOps.length = 1 ∧
      ShowAlike (Runs.run (TangentFeed.Replica.step plainCrypto) (TangentFeed.Replica.start
        plainCrypto TangentFeed.Sample.opts 1) Sample.writer).engine e := by
  have hrun := Replica.phase_call (@Replica.phase_call plainCrypto [.open TangentFeed.Sample.env 2] _ rfl
    (.learnKey Sample.author (plainCrypto.keygen 1).publicKey)) (.applyRemoteOps Sample.copies)
  obtain ⟨hjs, hdart⟩ := documents_sample
  have hraw : ∀ o ∈ Sample.writerOps, o.raw = inJs (Sample.document o) := List.map_inj_left.1 hjs
  refine ⟨_, hrun, by decide +kernel, twins_show_alike plainCrypto plainCrypto
    TangentFeed.Sample.opts 1 Sample.writer Sample.received _
    (Option.isNone_iff_eq_none.1 (by decide +kernel)) hrun ?_ ?_ ?_ ?_⟩
  · intro a ha
    obtain rfl := List.mem_singleton.1 ha
    trivial
  · intro a ha
    simp only [Sample.received, List.cons_append, List.nil_append, List.mem_cons,
      List.not_mem_nil, or_false] at ha
    rcases ha with rfl | rfl | rfl <;> trivial
  · intro o ho
    have ho : o ∈ Sample.writerOps := List.mem_flatMap.2 ho
    have hm := List.mem_map_of_mem (f := fun o => Op.fromJson (inDart (Sample.document o))) ho
    rw [← hdart] at hm
    obtain ⟨p, hp, e⟩ := List.mem_map.1 hm
    exact ⟨p, List.mem_flatMap.1 hp, Sample.document o, hraw o ho, e.symm⟩
  · intro p hp
    have hp : p ∈ Sample.receivedOps := List.mem_flatMap.2 hp
    have hm := List.mem_map_of_mem (f := fun p => (.ok p.toOpFields : Except OpFault Op)) hp
    rw [hdart] at hm
    obtain ⟨o, ho, e⟩ := List.mem_map.1 hm
    exact ⟨o, List.mem_flatMap.1 ho, Sample.document o, hraw o ho, e⟩

end TangentFeed.Dart
