import TangentFeed.Replica.Reads
import TangentFeed.Replica.Run
import TangentFeed.Replica.Sample

/-!
# Convergence of one replica

Merging is a function of the set of operations delivered: the winners and the
frontier of a ledger are determined by it. From this follow the independence of
order, grouping and repetition (`merge_order_independent`) and that the
materialised cells are a cache of the log (`cells_cache_log`).
-/

namespace TangentFeed

open Lww

variable {cr : Crypto}

namespace SyncEngine

variable {e e' : SyncEngine}

/-! ## Accepted deliveries -/

/-- A fresh engine: nothing stored but the key of the device. -/
structure Fresh (cr : Crypto) (e : SyncEngine) : Prop where
  identity : Identity cr e
  storage : e.storage = { MemoryAdapter.empty with deviceKey := some e.deviceKey }

theorem Fresh.consistent (h : Fresh cr e) : Consistent cr e ∅ where
  identity := h.identity
  ledger := by rw [h.storage]; exact MemoryAdapter.Ledger.empty.congr rfl rfl rfl
  saved := by
    have e1 : e.storage.savedTicks = 0 := by
      rw [h.storage]
      simp [MemoryAdapter.savedTicks, MemoryAdapter.empty, ClockState.ticks]
    rw [e1]
    exact Nat.zero_le _
  counter := by
    have e1 : e.storage.clock = none := by
      rw [h.storage]
      rfl
    rw [e1]
    exact Nat.zero_le _
  dominated o ho := absurd ho (Set.notMem_empty o)

theorem fresh_opened (opts : EngineOptions) (seed : Nat) : Fresh cr (opened cr opts seed) :=
  ⟨(consistent_opened opts seed).identity, rfl⟩

theorem Fresh.learnKey (h : Fresh cr e) (id : JsString) (k : Bytes) :
    Fresh cr (e.learnKey cr id k).2 := by
  refine ⟨(Effect.learnKey h.identity id k).identity h.identity, ?_⟩
  unfold SyncEngine.learnKey
  by_cases hid : deviceIdFromPublicKey cr k ≠ id
  · rw [if_pos hid]
    exact h.storage
  · rw [if_neg hid]
    exact h.storage

/-- A sequence of batches none of which is rejected, with the counts returned. -/
inductive Accepts (cr : Crypto) :
    SyncEngine → List (List Json) → List Nat → SyncEngine → Prop where
  | nil (e : SyncEngine) : Accepts cr e [] [] e
  | cons {e e' : SyncEngine} {batch : List Json} {batches : List (List Json)} {n : Nat}
      {counts : List Nat} : (e.applyRemoteOps cr batch).result = .ok n →
      Accepts cr (e.applyRemoteOps cr batch).engine batches counts e' →
      Accepts cr e (batch :: batches) (n :: counts) e'

/-- What a sequence of accepted batches applies: the operations of `S` not yet
in the log, each once. -/
theorem Accepts.applied {batches : List (List Json)} {counts : List Nat}
    (h : Accepts cr e batches counts e') {S : List Op} (hs : (S.map Op.id).Nodup)
    (hd : ∀ batch ∈ batches, ∀ j ∈ batch, ∃ o ∈ S, o.raw = j) {L : List Op} (hL : (L.map Op.id).Nodup)
    (hLS : ∀ o ∈ L, o ∈ S) (hc : Consistent cr e {o | o ∈ L}) (hlog : e.storage.log = {o | o ∈ L}) :
    ∃ M : List Op, (M.map Op.id).Nodup ∧ (∀ o ∈ M, o ∈ S) ∧ Consistent cr e' {o | o ∈ M} ∧
      e'.storage.log = {o | o ∈ M} ∧ M.length = L.length + counts.sum ∧
      ∀ o, o ∈ M ↔ o ∈ L ∨ ∃ batch ∈ batches, o.raw ∈ batch := by
  have hinj : ∀ {o p : Op}, o ∈ S → p ∈ S → o.id = p.id → o = p := fun ho hp hid =>
    List.inj_on_of_nodup_map hs ho hp hid
  induction h generalizing L with
  | nil e => exact ⟨L, hL, hLS, hc, hlog, rfl, by simp⟩
  | @cons e e' batch batches n counts hok hrest ih =>
    obtain ⟨ops, hraw, hn, hev⟩ := applyRemoteOps_eq_ok hok
    obtain ⟨hnew, hsub, hcov⟩ := freshOps_spec e.storage ops
    have hopsS : ∀ o ∈ ops, o ∈ S := by
      intro o ho
      obtain ⟨p, hp, e1⟩ := hd batch List.mem_cons_self o.raw
        (by rw [hraw]; exact List.mem_map_of_mem ho)
      rw [← Op.ext e1]
      exact hp
    have heff := Effect.applyRemoteOps hc.identity batch
    have hc' := hc.effect heff
    rw [hev] at hc'
    have hset : {o : Op | o ∈ L} ∪ {o | o ∈ freshOps e.storage ops} =
        {o | o ∈ L ++ freshOps e.storage ops} := by
      ext o
      simp
    rw [hset] at hc'
    have hLS' : ∀ o ∈ L ++ freshOps e.storage ops, o ∈ S := by
      intro o ho
      rcases List.mem_append.1 ho with ho | ho
      · exact hLS o ho
      · exact hopsS o (hsub o ho)
    have hL' : ((L ++ freshOps e.storage ops).map Op.id).Nodup := by
      rw [List.map_append, List.nodup_append]
      refine ⟨hL, hnew.nodup, fun a ha b hb hab => ?_⟩
      obtain ⟨p, hp, rfl⟩ := List.mem_map.1 ha
      obtain ⟨q, hq, rfl⟩ := List.mem_map.1 hb
      have hlogp : p ∈ e.storage.log := by rw [hlog]; exact hp
      have := hnew.notLogged q hq
      rw [← Bool.not_eq_true, hc.ledger.keyed.hasOp_iff] at this
      exact this ⟨p, hlogp, hab⟩
    have hlog' : (e.applyRemoteOps cr batch).engine.storage.log =
        {o | o ∈ L ++ freshOps e.storage ops} := by
      rw [hc.log_effect heff (by intro _ h; cases h), hev, hlog, hset]
    obtain ⟨M, h1, h2, h3, h4, h5, h6⟩ := ih (fun b hb => hd b (List.mem_cons_of_mem _ hb)) hL' hLS'
      hc' hlog'
    refine ⟨M, h1, h2, h3, h4, ?_, fun o => ?_⟩
    · rw [h5, List.length_append, List.sum_cons, hn, Nat.add_assoc]
    · -- an operation of the batch is in the log already or among the fresh ones
      rw [h6, List.mem_append]
      constructor
      · rintro ((ho | ho) | ⟨b, hb, ho⟩)
        · exact .inl ho
        · exact .inr ⟨batch, List.mem_cons_self, by
            rw [hraw]; exact List.mem_map_of_mem (hsub o ho)⟩
        · exact .inr ⟨b, List.mem_cons_of_mem _ hb, ho⟩
      · rintro (ho | ⟨b, hb, ho⟩)
        · exact .inl (.inl ho)
        · rcases List.mem_cons.1 hb with rfl | hb
          · rw [hraw] at ho
            obtain ⟨p, hp, hpo⟩ := List.mem_map.1 ho
            obtain rfl := Op.ext hpo
            left
            by_cases hl : e.storage.hasOp p.id = true
            · obtain ⟨q, hq, hid⟩ := hc.ledger.keyed.hasOp_iff.1 hl
              rw [hlog] at hq
              rw [← hinj (hLS q hq) (hopsS p hp) hid]
              exact .inl hq
            · obtain ⟨q, hq, hid⟩ := hcov p hp (by simpa using hl)
              rw [← hinj (hopsS q (hsub q hq)) (hopsS p hp) hid]
              exact .inr hq
          · exact .inr ⟨b, hb, ho⟩

theorem Accepts.cipher {batches : List (List Json)} {counts : List Nat}
    (h : Accepts cr e batches counts e') (hi : Identity cr e) : e'.cipher = e.cipher := by
  induction h with
  | nil e => rfl
  | @cons e _ batch _ _ _ _ _ ih =>
    have heff := Effect.applyRemoteOps hi batch
    rw [ih (heff.identity hi), heff.cipher]

/-- The store holds exactly the operations of `S`: they are its log, and its
winners and its frontier are the greatest of them. -/
structure HoldsExactly (s : MemoryAdapter) (S : Set Op) : Prop where
  log : s.log = S
  winner : ∀ {c : Cell} {w : Op}, s.winner c = some w ↔ IsBest cellScheme S c w
  frontier : ∀ {d h : JsString}, s.frontier[d]? = some h ↔ IsBest frontierScheme S d h

/-- The operations of `S`, and no others, arrive in some batch. -/
def Delivers (batches : List (List Json)) (S : Set Op) : Prop :=
  ∀ j, (∃ batch ∈ batches, j ∈ batch) ↔ ∃ o ∈ S, o.raw = j

theorem separates_cells {S : Set Op} (hs : ∀ o ∈ S, ∀ p ∈ S, o.id = p.id → o = p) :
    Separates cellScheme S := fun o ho p hp _ h =>
  hs o ho p hp (by rw [o.id_eq_hlc, p.id_eq_hlc]; exact h)

theorem separates_frontier (S : Set Op) : Separates frontierScheme S := fun _ _ _ _ _ h => h

/-- Merging an accepted delivery of `S` into a fresh engine. -/
theorem Accepts.holdsExactly (hf : Fresh cr e) {batches : List (List Json)} {counts : List Nat}
    (h : Accepts cr e batches counts e') {S : List Op} (hs : (S.map Op.id).Nodup)
    (hd : Delivers batches {o | o ∈ S}) :
    e'.storage.Keyed ∧ HoldsExactly e'.storage {o | o ∈ S} ∧ counts.sum = S.length := by
  have hc : Consistent cr e {o | o ∈ ([] : List Op)} := by
    have e1 : {o | o ∈ ([] : List Op)} = ∅ := by ext o; simp
    rw [e1]
    exact hf.consistent
  have hlog : e.storage.log = {o | o ∈ ([] : List Op)} := by
    rw [hf.storage]
    ext o
    simp [MemoryAdapter.log, MemoryAdapter.empty]
  obtain ⟨M, hM, hMS, hcM, hlogM, hlen, hmem⟩ := h.applied hs
    (fun b hb j hj => (hd j).1 ⟨b, hb, hj⟩) (L := []) List.nodup_nil (by simp) hc hlog
  have hMall : ∀ o, o ∈ M ↔ o ∈ S := by
    intro o
    refine ⟨hMS o, fun ho => ?_⟩
    obtain ⟨b, hb, hj⟩ := (hd o.raw).2 ⟨o, ho, rfl⟩
    exact (hmem o).2 (.inr ⟨b, hb, hj⟩)
  have hset : {o | o ∈ M} = {o | o ∈ S} := Set.ext hMall
  have hinj : ∀ o ∈ {o | o ∈ S}, ∀ p ∈ {o | o ∈ S}, o.id = p.id → o = p :=
    fun o ho p hp hid => List.inj_on_of_nodup_map hs ho hp hid
  rw [hset] at hcM hlogM
  refine ⟨hcM.ledger.keyed, ⟨hlogM, fun {c w} => ?_, fun {d f} => ?_⟩, ?_⟩
  · rw [← hlogM] at hinj ⊢
    exact hcM.ledger.cells.eq_some_iff (separates_cells hinj)
  · exact hcM.ledger.frontier.eq_some_iff (separates_frontier _)
  · have hperm : M.Perm S :=
      (List.perm_ext_iff_of_nodup (List.Nodup.of_map _ hM) (List.Nodup.of_map _ hs)).2 hMall
    rw [← hperm.length_eq, hlen, List.length_nil, Nat.zero_add]

/-- Stores that hold exactly the same operations are the same but for clocks
and peers. -/
theorem HoldsExactly.unique {s s' : MemoryAdapter} {S : Set Op} (hk : s.Keyed) (hk' : s'.Keyed)
    (h : HoldsExactly s S) (h' : HoldsExactly s' S) :
    s.opsById = s'.opsById ∧ s.tables = s'.tables ∧ s.frontier = s'.frontier := by
  refine ⟨hk.opsById_eq hk' (h.log.trans h'.log.symm), hk.tables_eq hk' (funext fun c => ?_),
    Std.ExtTreeMap.ext_getElem? fun d => ?_⟩
  · exact Option.ext fun w => h.winner.trans h'.winner.symm
  · exact Option.ext fun f => h.frontier.trans h'.frontier.symm

/-- **Merging is independent of order, grouping and repetition.** Two fresh
engines that accept every batch of two deliveries of the same operations end
with these operations as their log, the same winners and frontier, the same
dump, and counts that add up to the number of operations. -/
theorem merge_order_independent {S : List Op} (hs : (S.map Op.id).Nodup)
    {e₁ e₂ e₁' e₂' : SyncEngine} (f₁ : Fresh cr e₁) (f₂ : Fresh cr e₂)
    (hcipher : e₁.cipher = e₂.cipher) {batches₁ batches₂ : List (List Json)}
    {counts₁ counts₂ : List Nat} (a₁ : Accepts cr e₁ batches₁ counts₁ e₁')
    (a₂ : Accepts cr e₂ batches₂ counts₂ e₂') (d₁ : Delivers batches₁ {o | o ∈ S})
    (d₂ : Delivers batches₂ {o | o ∈ S}) :
    (HoldsExactly e₁'.storage {o | o ∈ S} ∧ HoldsExactly e₂'.storage {o | o ∈ S}) ∧
      (e₁'.storage.opsById = e₂'.storage.opsById ∧ e₁'.storage.tables = e₂'.storage.tables ∧
        e₁'.frontier = e₂'.frontier) ∧
      (∀ inherited, e₁'.dump inherited = e₂'.dump inherited) ∧
      counts₁.sum = S.length ∧ counts₂.sum = S.length := by
  obtain ⟨k₁, h₁, n₁⟩ := a₁.holdsExactly f₁ hs d₁
  obtain ⟨k₂, h₂, n₂⟩ := a₂.holdsExactly f₂ hs d₂
  have heq := h₁.unique k₁ k₂ h₂
  have hc : e₁'.cipher = e₂'.cipher := by
    rw [a₁.cipher f₁.identity, a₂.cipher f₂.identity, hcipher]
  exact ⟨⟨h₁, h₂⟩, heq, dump_congr heq.2.1 hc, n₁, n₂⟩

/-- Two writes of one cell by two devices, at once and the other way round with
a repetition. -/
theorem merge_order_independent_sample :
    (Sample.deliver (Sample.reader 3 [1, 2]) [Sample.sent 1 ++ Sample.sent 2]).storage.tables =
        (Sample.deliver (Sample.reader 4 [1, 2])
          [Sample.sent 2, Sample.sent 1 ++ Sample.sent 2]).storage.tables ∧
      [1, 1].sum = (Sample.written 1 ++ Sample.written 2).length := by
  have fresh : ∀ n, Fresh plainCrypto (Sample.reader n [1, 2]) := fun n =>
    ((fresh_opened Sample.opts n).learnKey _ _).learnKey _ _
  have once : ∀ a b : List Op, Delivers [a.map Op.raw ++ b.map Op.raw] {o | o ∈ a ++ b} :=
    fun a b j => by simp [or_and_right, exists_or]
  have again : ∀ a b : List Op,
      Delivers [b.map Op.raw, a.map Op.raw ++ b.map Op.raw] {o | o ∈ a ++ b} := fun a b j => by
    have h := once a b j
    simp only [List.mem_cons, List.not_mem_nil, or_false, exists_eq_left, or_and_right,
      exists_or] at h ⊢
    rw [← h, or_iff_right_iff_imp]
    exact List.mem_append_right _
  have a₁ : Accepts plainCrypto (Sample.reader 3 [1, 2]) [Sample.sent 1 ++ Sample.sent 2] [2]
      (Sample.deliver (Sample.reader 3 [1, 2]) [Sample.sent 1 ++ Sample.sent 2]) :=
    .cons (by decide +kernel) (.nil _)
  have a₂ : Accepts plainCrypto (Sample.reader 4 [1, 2])
      [Sample.sent 2, Sample.sent 1 ++ Sample.sent 2] [1, 1]
      (Sample.deliver (Sample.reader 4 [1, 2]) [Sample.sent 2, Sample.sent 1 ++ Sample.sent 2]) :=
    .cons (by decide +kernel) (.cons (by decide +kernel) (.nil _))
  have h := merge_order_independent (S := Sample.written 1 ++ Sample.written 2) (by decide +kernel)
    (fresh 3) (fresh 4) rfl a₁ a₂ (once _ _) (again _ _)
  exact ⟨h.2.1.2.1, h.2.2.2.2⟩

end SyncEngine

open SyncEngine in
/-- **The cells are a cache of the log**, in every state a replica reaches: each
winner is logged and of its cell, each logged operation has a winner that is not
older and is at or below the frontier, and a fresh replica that accepts the log,
in any order and in any batches, has the same cells and the same dump. -/
theorem Replica.cells_cache_log (cr : Crypto) (opts : EngineOptions) (seed : Nat)
    (acts : List Replica.Action) :
    let e := (Runs.run (Replica.step cr) (Replica.start cr opts seed) acts).engine
    (∀ c w, e.storage.winner c = some w → w ∈ e.storage.log ∧ w.cell = c) ∧
      (∀ o ∈ e.storage.log, ∃ w, e.storage.winner o.cell = some w ∧ o.hlc ≤ w.hlc) ∧
      (∀ o ∈ e.storage.log, ∃ f, e.frontier[o.device]? = some f ∧ o.hlc ≤ f) ∧
      ∀ (e₀ e' : SyncEngine) (batches : List (List Json)) (counts : List Nat), Fresh cr e₀ →
        e₀.cipher = e.cipher → Accepts cr e₀ batches counts e' →
        Delivers batches e.storage.log →
        e'.storage.tables = e.storage.tables ∧ ∀ inherited, e'.dump inherited = e.dump inherited := by
  have hc := Replica.consistent_run cr opts seed acts
  generalize Runs.run (Replica.step cr) (Replica.start cr opts seed) acts = r at hc
  have hl := hc.ledger
  simp only
  refine ⟨fun c w hw => ⟨hl.winnersLogged hw, hl.keyed.cells hw⟩, fun o ho => hl.exists_winner ho,
    fun o ho => hl.le_frontier (hl.logged ho), ?_⟩
  intro e₀ e' batches counts hf hcipher ha hd
  have hlog : r.engine.storage.log = {o | o ∈ r.engine.storage.allOps} :=
    Set.ext fun o => hl.keyed.mem_allOps.symm
  rw [hlog] at hd
  obtain ⟨hk, hh, -⟩ := ha.holdsExactly hf hl.keyed.nodup_allOps hd
  have ht : e'.storage.tables = r.engine.storage.tables := by
    refine hk.tables_eq hl.keyed (funext fun c => Option.ext fun w => ?_)
    rw [hh.winner, ← hlog]
    exact (hl.cells.eq_some_iff
      (separates_cells fun o ho p hp => MemoryAdapter.log_inj ho hp)).symm
  exact ⟨ht, dump_congr ht (by rw [ha.cipher hf.identity, hcipher])⟩

end TangentFeed
