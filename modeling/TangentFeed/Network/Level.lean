import TangentFeed.Core.Blockers
import TangentFeed.Network.Gossip
import TangentFeed.Replica.CatchUp
import TangentFeed.Replica.Sample

/-!
# What a complete exchange leaves

A `syncOnce` that nothing interrupts, from any configuration. Its stages are
followed from the two engines before it (`Reaches`) to its end, where each side
has caught up with the other and has its frontier on record.
-/

namespace TangentFeed.Config

open SyncEngine

variable {cr : Crypto} {ι : Type} [DecidableEq ι] {d : Deployment cr ι} {space : JsString}
  {w w' : Config ι} {i j : ι} {k : Nat} {a b ea eb : SyncEngine} {H K : Set Op}

/-- An engine that only learned keys. -/
def Same (cr : Crypto) (a ea : SyncEngine) : Prop := ∃ l, ea = a.learnKeys cr l

/-- An engine that merged what `b` had for `a`. -/
structure Caught (a b : SyncEngine) (H : Set Op) (ea : SyncEngine) : Prop where
  store : CaughtUp a.storage b.storage ea.storage H
  device : ea.deviceId = a.deviceId
  cipher : ea.cipher = a.cipher

/-- The frontier of `eb` is on record. -/
def Noted (b ea eb : SyncEngine) : Prop :=
  ea.storage.peerFrontiers[b.deviceId]? = some eb.frontier

/-- Where `syncOnce(a, b)` is, with the engines by now, when nothing interrupts it. -/
def Reaches (cr : Crypto) (a b : SyncEngine) (H K : Set Op) (ea eb : SyncEngine) : SyncStage → Prop
  | .readFrontier fa => Same cr a ea ∧ Same cr b eb ∧ fa = a.frontier
  | .readA fa fb => Same cr a ea ∧ Same cr b eb ∧ fa = a.frontier ∧ fb = b.frontier
  | .readB fa aToB =>
    Same cr a ea ∧ Same cr b eb ∧ fa = a.frontier ∧ aToB = a.opsSince b.frontier
  | .applyB aToB bToA =>
    Same cr a ea ∧ Same cr b eb ∧ aToB = a.opsSince b.frontier ∧ bToA = b.opsSince a.frontier
  | .applyA bToA => Same cr a ea ∧ Caught b a K eb ∧ bToA = b.opsSince a.frontier
  | .ackB => Caught a b H ea ∧ Caught b a K eb
  | .recordA fb => Caught a b H ea ∧ Caught b a K eb ∧ fb = eb.frontier
  | .ackA => Caught a b H ea ∧ Caught b a K eb ∧ Noted b ea eb
  | .recordB fa => Caught a b H ea ∧ Caught b a K eb ∧ Noted b ea eb ∧ fa = ea.frontier

/-- What it leaves. -/
structure Exchanged (a b : SyncEngine) (H K : Set Op) (ea eb : SyncEngine) : Prop where
  caughtA : Caught a b H ea
  caughtB : Caught b a K eb
  notedA : Noted b ea eb
  notedB : Noted a eb ea

/-- Where it waits next, or what it leaves. -/
def Leads (cr : Crypto) (a b : SyncEngine) (H K : Set Op) (ea eb : SyncEngine) :
    Option SyncStage → Prop
  | some s => Reaches cr a b H K ea eb s
  | none => Exchanged a b H K ea eb

/-- An uninterrupted call under number `k` is under way, was rejected or is complete. -/
inductive Lone (cr : Crypto) (a b : SyncEngine) (H K : Set Op) (i j : ι) (k : Nat) (w : Config ι) : Prop where
  | waiting {s : SyncStage} : w.syncs[k]? = some ⟨i, j, s⟩ → .synced k ∉ w.trace →
      Reaches cr a b H K (w.node i).engine (w.node j).engine s → Lone cr a b H K i j k w
  | rejected : w.syncs[k]? = none → .synced k ∉ w.trace → Lone cr a b H K i j k w
  | complete : w.syncs[k]? = none → Exchanged a b H K (w.node i).engine (w.node j).engine →
      Lone cr a b H K i j k w

/-! ## Stages -/

theorem Same.frame (h : Same cr a ea) : ∃ keys, ea = { a with keys := keys } := by
  obtain ⟨l, rfl⟩ := h
  exact learnKeys_frame cr l a

theorem Same.consistent (h : Same cr a ea) (hc : a.Consistent cr H) : ea.Consistent cr H := by
  obtain ⟨l, rfl⟩ := h
  have he := hc.effect (.learnKeys l hc.identity)
  rw [eventOps_none, Set.union_empty] at he
  exact he

/-- An accepted merge takes an engine from `Same` to `Caught`. -/
theorem Same.merged (h : Same cr a ea) (hc : a.Consistent cr H) (hb : b.storage.Ledger K) {n : Nat}
    (hok : (ea.applyRemoteOps cr ((b.opsSince a.frontier).map Op.raw)).result = .ok n) :
    Caught a b H (ea.applyRemoteOps cr ((b.opsSince a.frontier).map Op.raw)).engine := by
  have hce := h.consistent hc
  have heff := Effect.applyRemoteOps hce.identity ((b.opsSince a.frontier).map Op.raw)
  obtain ⟨keys, rfl⟩ := h.frame
  exact ⟨hce.caughtUp hb hok, heff.device, heff.cipher⟩

/-- Where nothing is to be merged an engine has caught up already. -/
theorem Same.skipped (h : Same cr a ea) (hc : a.Consistent cr H) (hb : b.storage.Keyed)
    (hnil : b.opsSince a.frontier = []) : Caught a b H ea := by
  obtain ⟨keys, rfl⟩ := h.frame
  exact ⟨caughtUp_self hc.ledger (toSend_eq_empty hb hnil), rfl, rfl⟩

/-- Recording a frontier. -/
theorem recordPeerFrontier_ok {e : SyncEngine} {peer : JsString} {f : Frontier}
    (hp : peer ≠ e.deviceId) (hok : (e.recordPeerFrontier peer f).result = .ok ()) :
    (e.recordPeerFrontier peer f).engine =
      { e with asked := e.asked + 1, storage := e.storage.setPeerFrontier peer f } := by
  unfold recordPeerFrontier at hok ⊢
  rw [if_neg hp] at hok ⊢
  rcases e.transact_cases (e.storage.setPeerFrontier peer f) with h | h
  · rw [h] at hok
    cases hok
  · rw [h]
    rfl

theorem Caught.recorded (h : Caught a b H ea) {peer : JsString} {f : Frontier}
    (hp : peer ≠ ea.deviceId) (hok : (ea.recordPeerFrontier peer f).result = .ok ()) :
    Caught a b H (ea.recordPeerFrontier peer f).engine ∧
      (ea.recordPeerFrontier peer f).engine.storage.peerFrontiers[peer]? = some f ∧
      (ea.recordPeerFrontier peer f).engine.frontier = ea.frontier := by
  rw [recordPeerFrontier_ok hp hok]
  exact ⟨⟨h.store.setPeerFrontier peer f, h.device, h.cipher⟩,
    Std.ExtTreeMap.getElem?_insert_self, rfl⟩

/-- **A stretch of an uninterrupted call leads to the next stage.** -/
theorem Reaches.turn (space : JsString) (hij : i ≠ j) (hdev : a.deviceId ≠ b.deviceId) (ha : a.Consistent cr H)
    (hb : b.Consistent cr K) {s : SyncStage} {x : ι} {r : Reply Unit} {next : Option SyncStage}
    (h : Reaches cr a b H K (w.node i).engine (w.node j).engine s)
    (ht : SyncTurn cr w ⟨i, j, s⟩ x r next) (hok : r.result = .ok ()) :
    Leads cr a b H K ((w.settle space x r).node i).engine ((w.settle space x r).node j).engine
      next := by
  have ok_of_map {α : Type} {r : Reply α} (h : (r.map fun _ => ()).result = .ok ()) :
      ∃ n, r.result = .ok n := by
    cases hr : r.result with
    | ok n => exact ⟨n, rfl⟩
    | error err =>
      have h' : r.result.map (fun _ => ()) = .ok () := h
      rw [hr] at h'
      cases h'
  cases ht with
  | readFrontier =>
    rw [settle_same]
    obtain ⟨hsa, hsb, rfl⟩ := h
    obtain ⟨keys, hk⟩ := hsb.frame
    exact ⟨hsa, hsb, rfl, by rw [hk]; rfl⟩
  | readA =>
    rw [settle_same]
    obtain ⟨hsa, hsb, hfa, rfl⟩ := h
    obtain ⟨keys, hk⟩ := hsa.frame
    exact ⟨hsa, hsb, hfa, by rw [hk]; rfl⟩
  | readB =>
    rw [settle_same]
    obtain ⟨hsa, hsb, rfl, haToB⟩ := h
    obtain ⟨keys, hk⟩ := hsb.frame
    exact ⟨hsa, hsb, haToB, by rw [hk]; rfl⟩
  | skipB =>
    rw [settle_same]
    obtain ⟨hsa, hsb, hnil, hbToA⟩ := h
    exact ⟨hsa, hsb.skipped hb ha.ledger.keyed hnil.symm, hbToA⟩
  | applyB hne =>
    obtain ⟨hsa, hsb, rfl, hbToA⟩ := h
    obtain ⟨n, hn⟩ := ok_of_map hok
    rw [settle_node_self, settle_node_of_ne _ hij]
    exact ⟨hsa, hsb.merged hb ha.ledger hn, hbToA⟩
  | skipA =>
    rw [settle_same]
    obtain ⟨hsa, hcb, hnil⟩ := h
    exact ⟨hsa.skipped ha hb.ledger.keyed hnil.symm, hcb⟩
  | applyA hne =>
    obtain ⟨hsa, hcb, rfl⟩ := h
    obtain ⟨n, hn⟩ := ok_of_map hok
    rw [settle_node_self, settle_node_of_ne _ hij.symm]
    exact ⟨hsa.merged ha hb.ledger hn, hcb⟩
  | ackB =>
    rw [settle_same]
    exact ⟨h.1, h.2, rfl⟩
  | recordA =>
    obtain ⟨hca, hcb, rfl⟩ := h
    have hp : (w.node j).engine.deviceId ≠ (w.node i).engine.deviceId := by
      rw [hca.device, hcb.device]
      exact hdev.symm
    rw [settle_node_self, settle_node_of_ne _ hij.symm]
    obtain ⟨h1, h2, -⟩ := hca.recorded hp hok
    refine ⟨h1, hcb, ?_⟩
    unfold Noted
    rw [← hcb.device]
    exact h2
  | ackA =>
    rw [settle_same]
    exact ⟨h.1, h.2.1, h.2.2, rfl⟩
  | recordB =>
    obtain ⟨hca, hcb, hna, rfl⟩ := h
    have hp : (w.node i).engine.deviceId ≠ (w.node j).engine.deviceId := by
      rw [hca.device, hcb.device]
      exact hdev
    rw [settle_node_self, settle_node_of_ne _ hij]
    obtain ⟨h1, h2, h3⟩ := hcb.recorded hp hok
    refine ⟨hca, h1, ?_, ?_⟩
    · unfold Noted
      rw [h3]
      exact hna
    · unfold Noted
      rw [← hca.device]
      exact h2

/-- **A stretch keeps an uninterrupted call uninterrupted.** -/
theorem Lone.step (hij : i ≠ j) (hdev : a.deviceId ≠ b.deviceId) (ha : a.Consistent cr H)
    (hb : b.Consistent cr K) (h : Lone cr a b H K i j k w) :
    Lone cr a b H K i j k (w.step cr space (.resumeSync k)) := by
  cases h with
  | rejected hk hn =>
    have e : w.step cr space (.resumeSync k) = w := by
      unfold Config.step
      simp only
      rw [hk]
    rw [e]
    exact .rejected hk hn
  | complete hk he =>
    have e : w.step cr space (.resumeSync k) = w := by
      unfold Config.step
      simp only
      rw [hk]
    rw [e]
    exact .complete hk he
  | @waiting s hk hn hr =>
    obtain ⟨x, r, next, ht, he⟩ := w.resumeSync_eq cr space k ⟨i, j, s⟩
    have e : w.step cr space (.resumeSync k) =
        (w.settle space x r).synced k i j r.result next := by
      unfold Config.step
      simp only
      rw [hk]
      exact he
    have hns : .synced k ∉ (w.settle space x r).trace := by
      rw [settle_eq]
      simp [hn, commits]
    rw [e]
    cases hres : r.result with
    | error err =>
      refine .rejected Std.ExtTreeMap.getElem?_erase_self ?_
      change Event.synced k ∉ (w.settle space x r).trace ++ [.unsynced k]
      simp [hns]
    | ok u =>
      have hl := hr.turn space hij hdev ha hb ht hres
      cases next with
      | some s' => exact .waiting Std.ExtTreeMap.getElem?_insert_self hns hl
      | none => exact .complete Std.ExtTreeMap.getElem?_erase_self hl

theorem Lone.run (space : JsString) (hij : i ≠ j) (hdev : a.deviceId ≠ b.deviceId) (ha : a.Consistent cr H)
    (hb : b.Consistent cr K) (h : Lone cr a b H K i j k w) (n : Nat) :
    Lone cr a b H K i j k (Runs.run (Config.step cr space) w (List.replicate n (.resumeSync k))) := by
  induction n generalizing w with
  | zero => exact h
  | succ n ih => exact ih (h.step hij hdev ha hb)

theorem numbered_run (d : Deployment cr ι) (space : JsString) (acts : List (Action ι)) :
    Numbered (Runs.run (step cr space) d.initial acts) :=
  Runs.run_invariant (fun w a h => h.step (w.step_shape a)) (Numbered.initial d) acts

/-- **A call that completes uninterrupted has exchanged.** -/
theorem exchanged (d : Deployment cr ι) (space : JsString) (acts : List (Action ι)) (hij : i ≠ j)
    (n : Nat) :
    let w := Runs.run (step cr space) d.initial acts
    let w' := Runs.run (step cr space) w
      (.syncOnce i j :: List.replicate n (.resumeSync w.nextSync))
    .synced w.nextSync ∈ w'.trace →
      Exchanged (w.node i).engine (w.node j).engine (TangentFeed.applied w.trace i)
        (TangentFeed.applied w.trace j) (w'.node i).engine (w'.node j).engine := by
  intro w w' hend
  have hb := base_run d space acts
  have hdev : (w.node i).engine.deviceId ≠ (w.node j).engine.deviceId := by
    rw [device_run d space acts i, device_run d space acts j]
    exact fun h => hij (d.device_injective h)
  have hstart : Lone cr (w.node i).engine (w.node j).engine (TangentFeed.applied w.trace i)
      (TangentFeed.applied w.trace j) i j w.nextSync (w.step cr space (.syncOnce i j)) := by
    have e : w.step cr space (.syncOnce i j) = w.startSync cr space i j := if_neg hij
    rw [e]
    obtain ⟨hnode, -, htrace, -, hsyncs⟩ := startSync_spec w cr space i j
    have same (x : ι) : Same cr (w.node x).engine ((w.startSync cr space i j).node x).engine := by
      obtain ⟨l, hl⟩ := hnode x
      exact ⟨l, by rw [hl]⟩
    have hn : .synced w.nextSync ∉ (w.startSync cr space i j).trace := by
      rw [htrace, List.mem_append, List.mem_singleton]
      rintro (h | h)
      · exact Nat.lt_irrefl _ ((numbered_run d space acts).ended h)
      · cases h
    have hwait : (w.startSync cr space i j).syncs[w.nextSync]? =
        some ⟨i, j, .readFrontier ((w.startSync cr space i j).node i).engine.frontier⟩ := by
      rw [hsyncs]
      exact Std.ExtTreeMap.getElem?_insert_self
    refine .waiting hwait hn ⟨same i, same j, ?_⟩
    obtain ⟨keys, hk⟩ := (same i).frame
    rw [hk]
    rfl
  have hrun := hstart.run space hij hdev (hb.consistent i) (hb.consistent j) n
  cases hrun with
  | waiting _ hn => exact absurd hend hn
  | rejected _ hn => exact absurd hend hn
  | complete _ he => exact he

/-! ## Level engines -/

/-- Both sides are level: equal frontiers and dumps, nothing to send, and neither
would name the other as holding back a compaction. -/
structure Level (a b : SyncEngine) : Prop where
  frontier : a.frontier = b.frontier
  dump : ∀ inherited, a.dump inherited = b.dump inherited
  sendsNothing : a.opsSince b.frontier = [] ∧ b.opsSince a.frontier = []
  unblocked : ∀ opts, b.deviceId ∉ (compactStorage a.storage opts).2.blockedBy ∧
    a.deviceId ∉ (compactStorage b.storage opts).2.blockedBy

/-- A peer blocks when its frontier on record is behind. -/
theorem mem_blockedBy {s : MemoryAdapter} {opts : CompactionOptions} {peer : JsString}
    {f : Frontier} (hf : s.peerFrontiers[peer]? = some f) :
    peer ∈ (compactStorage s opts).2.blockedBy ↔
      ∃ d h : JsString, s.frontier[d]? = some h ∧ f[d]?.getD zeroHlc < h := by
  change peer ∈ blockingPeers s.frontier s.peerFrontiers ↔ Behind s.frontier f
  rw [mem_blockingPeers]
  constructor
  · rintro ⟨g, hg, hb⟩
    obtain rfl := Option.some.inj (hf.symm.trans hg)
    exact hb
  · exact fun hb => ⟨f, hf, hb⟩

theorem Exchanged.symm (h : Exchanged a b H K ea eb) : Exchanged b a K H eb ea :=
  ⟨h.caughtB, h.caughtA, h.notedB, h.notedA⟩

theorem Exchanged.opsSince_eq_nil (h : Exchanged a b H K ea eb) (hb : b.Consistent cr K) :
    ea.opsSince eb.frontier = [] := by
  rw [List.eq_nil_iff_forall_not_mem]
  intro o ho
  obtain ⟨hlog, hab⟩ := h.caughtA.store.ledger.keyed.mem_opsSince.1 ho
  have hno := h.caughtA.store.sendsNothing h.caughtB.store hb.ledger hlog
  exact Bool.noConfusion (hab.symm.trans hno)

variable (h : Exchanged a b H K ea eb) (ha : a.Consistent cr H) (hb : b.Consistent cr K)
include h ha hb

/-- **Exactly when the frontiers are level.** -/
theorem Exchanged.frontier_eq_iff :
    ea.frontier = eb.frontier ↔
      LastLogged a.storage b.storage ∧ LastLogged b.storage a.storage := by
  refine (frontier_eq_iff_not_lags h.caughtA.store.ledger h.caughtB.store.ledger).trans ?_
  rw [lags_iff h.caughtA.store h.caughtB.store ha.ledger hb.ledger,
    lags_iff h.caughtB.store h.caughtA.store hb.ledger ha.ledger, not_not, not_not]

/-- Whether `ea` names `eb` as a blocker. -/
theorem Exchanged.blocked_iff (opts : CompactionOptions) :
    eb.deviceId ∈ (compactStorage ea.storage opts).2.blockedBy ↔
      ¬ LastLogged a.storage b.storage := by
  rw [h.caughtB.device, mem_blockedBy h.notedA,
    ← lags_iff h.caughtA.store h.caughtB.store ha.ledger hb.ledger]
  rfl

/-- **What makes both sides level.** -/
theorem Exchanged.level (hc : a.cipher = b.cipher)
    (hl : LastLogged a.storage b.storage ∧ LastLogged b.storage a.storage)
    (hr : ∀ r, LevelRow a.storage b.storage r) : Level ea eb where
  frontier := (h.frontier_eq_iff ha hb).2 hl
  dump := by
    have hcipher : ea.cipher = eb.cipher := by
      rw [h.caughtA.cipher, h.caughtB.cipher, hc]
    refine dump_of_get ?_
    funext table row
    exact get_eq_of_levelRow h.caughtA.store h.caughtB.store ha.ledger hb.ledger hcipher
      (hr (table, row))
  sendsNothing := ⟨h.opsSince_eq_nil hb, h.symm.opsSince_eq_nil ha⟩
  unblocked := by
    intro opts
    rw [h.blocked_iff ha hb, h.symm.blocked_iff hb ha, not_not, not_not]
    exact hl

omit h ha hb

/-- **When a complete exchange levels both sides.** A `syncOnce(i, j)` completes
after any run, with nothing between its stages. The frontiers are equal, and
neither side would name the other as holding back a compaction, exactly when the
last operation of every device is logged on the side that is ahead. A cell is
equal exactly when winners that the other side lacks are above its frontier. If
that holds of every row that is not hidden and left alone, both sides are level. -/
theorem syncOnce_levels (d : Deployment cr ι) (space : JsString) (acts : List (Action ι))
    (hij : i ≠ j) (n : Nat) :
    let w := Runs.run (step cr space) d.initial acts
    let w' := Runs.run (step cr space) w
      (.syncOnce i j :: List.replicate n (.resumeSync w.nextSync))
    let a := (w.node i).engine
    let b := (w.node j).engine
    let a' := (w'.node i).engine
    let b' := (w'.node j).engine
    let logged := LastLogged a.storage b.storage ∧ LastLogged b.storage a.storage
    .synced w.nextSync ∈ w'.trace →
      (a'.frontier = b'.frontier ↔ logged) ∧
      (∀ opts, b'.deviceId ∉ (compactStorage a'.storage opts).2.blockedBy ∧
        a'.deviceId ∉ (compactStorage b'.storage opts).2.blockedBy ↔ logged) ∧
      (∀ c, a'.storage.winner c = b'.storage.winner c ↔
        Carried a.storage b.storage c ∧ Carried b.storage a.storage c ∧
          Agree a.storage b.storage c) ∧
      (a.cipher = b.cipher → logged → (∀ r, LevelRow a.storage b.storage r) → Level a' b') := by
  intro w w' a b a' b' logged hend
  have hx := exchanged d space acts hij n hend
  have ha := (base_run d space acts).consistent i
  have hb := (base_run d space acts).consistent j
  refine ⟨hx.frontier_eq_iff ha hb, fun opts => ?_, fun c => ?_, fun hc hl hr => ?_⟩
  · rw [hx.blocked_iff ha hb, hx.symm.blocked_iff hb ha, not_not, not_not]
  · exact winner_eq_iff hx.caughtA.store hx.caughtB.store ha.ledger hb.ledger
  · exact hx.level ha hb hc hl hr

/-- Two replicas after `acts` and one more complete call. -/
def thenSync (acts : List (Action Bool)) : Config Bool :=
  Runs.run (step plainCrypto Sample.space) (Sample.after acts)
    (.syncOnce false true :: List.replicate 9 (.resumeSync (Sample.after acts).nextSync))

theorem syncOnce_levels_sample :
    let w := Sample.after [Sample.write false Sample.row]
    let w' := thenSync [Sample.write false Sample.row]
    w.nextSync ∈ completed w'.trace ∧
      ∀ c, (w'.node false).engine.storage.winner c = (w'.node true).engine.storage.winner c ↔
        Carried (w.node false).engine.storage (w.node true).engine.storage c ∧
        Carried (w.node true).engine.storage (w.node false).engine.storage c ∧
        Agree (w.node false).engine.storage (w.node true).engine.storage c := by
  have levels (acts : List (Action Bool))
      (hend : (Sample.after acts).nextSync ∈ completed (thenSync acts).trace) (c : Cell) :
      ((thenSync acts).node false).engine.storage.winner c =
          ((thenSync acts).node true).engine.storage.winner c ↔
        Carried ((Sample.after acts).node false).engine.storage
          ((Sample.after acts).node true).engine.storage c ∧
        Carried ((Sample.after acts).node true).engine.storage
          ((Sample.after acts).node false).engine.storage c ∧
        Agree ((Sample.after acts).node false).engine.storage
          ((Sample.after acts).node true).engine.storage c :=
    (syncOnce_levels Sample.pair Sample.space acts Bool.false_ne_true 9
      (mem_of_completed hend)).2.2.1 c
  have hend : (Sample.after [Sample.write false Sample.row]).nextSync ∈
      completed (thenSync [Sample.write false Sample.row]).trace := by decide +kernel
  exact ⟨hend, levels [Sample.write false Sample.row] hend⟩

/-- A cell that two replicas wrote in turn. -/
def overwritten : List (Action (Fin 3)) :=
  .call 0 (.update Sample.table Sample.row (Sample.record (.bool true))) ::
    .syncOnce 0 1 :: List.replicate 9 (.resumeSync 0) ++
  .call 1 (.update Sample.table Sample.row (Sample.record (.bool false))) ::
    .syncOnce 0 1 :: List.replicate 9 (.resumeSync 1)

/-- The first replica compacts its write away, which was its last, and syncs with a
third: it is ahead for good, and names the third as holding compaction back. -/
theorem syncOnce_not_level :
    let w := Runs.run (step plainCrypto Sample.space) Sample.trio.initial
      (overwritten ++ [.call 0 (.compact ⟨false, false⟩)])
    let w' := Runs.run (step plainCrypto Sample.space) w
      (.syncOnce 0 2 :: List.replicate 9 (.resumeSync w.nextSync))
    .synced w.nextSync ∈ w'.trace ∧ ¬ Level (w'.node 0).engine (w'.node 2).engine := by
  intro w w'
  have hend : w.nextSync ∈ completed w'.trace := by decide +kernel
  have hs : (w'.node 0).engine.frontier.size ≠ (w'.node 2).engine.frontier.size := by decide +kernel
  exact ⟨mem_of_completed hend, fun h => hs (congrArg (·.size) h.frontier)⟩

end TangentFeed.Config
