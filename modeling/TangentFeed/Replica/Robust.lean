import TangentFeed.Core.Untyped
import TangentFeed.Replica.Calls
import TangentFeed.Replica.Sample

/-!
# What any message can do

`handling` are the stretches of one `handle(msg)`, each from a state of its own
that others have made meanwhile. Stages only go down in `Stage.rank`, so the
promise settles; and a stretch changes the log and the cells by the operations
of a checked batch or not at all.
-/

namespace TangentFeed.Untyped

open SyncEngine

variable {cr : Crypto} {out : Surroundings} {space : JsString}

/-! ## One call of `handle` -/

/-- How many stretches are left at most. -/
def Stage.rank : Stage → Nat
  | helloObserve => 6
  | helloGreet => 5
  | helloSendGreet _ => 4
  | helloKeys => 3
  | helloFrontier => 2
  | helloSince _ => 1
  | sinceRecord => 4
  | sinceRead => 3
  | sinceKeys _ => 2
  | sinceSend _ => 1
  | opsApply _ => 3
  | opsFrontier => 2
  | opsAck _ => 1
  | ackRecord => 1

/-- The stretches from stage `stage` on, with the state each starts from. -/
def stretches (out : Surroundings) (space : JsString) (world : Nat → Node) (msg : Json) :
    Nat → Nat → Stage → List (Node × Stretch)
  | 0, _, _ => []
  | fuel + 1, i, stage =>
    let s := (world i).resume out space msg stage
    (world i, s) :: match s.outcome with
      | .wait stage => stretches out space world msg fuel (i + 1) stage
      | .ended _ => []

/-- The stretches of `handle(msg)`, the `i`-th from the state `world i`. -/
def handling (cr : Crypto) (out : Surroundings) (space : JsString) (world : Nat → Node)
    (msg : Json) : List (Node × Stretch) :=
  let s := (world 0).handle cr space msg
  (world 0, s) :: match s.outcome with
    | .wait stage => stretches out space world msg stage.rank 1 stage
    | .ended _ => []

/-- How the promise settles, if it does. -/
def settlement (l : List (Node × Stretch)) : Option Ending :=
  l.getLast?.bind fun x =>
    match x.2.outcome with
    | .wait _ => none
    | .ended how => some how

/-- Signed by a device whose key is known. -/
def Verified (cr : Crypto) (keys : JsMap Bytes) (o : Op) : Prop :=
  ∃ k, keys[o.device]? = some k ∧ verifyOp cr o k = true

/-- The log and the winning cells change by operations in `P` only. -/
structure ChangesBy (P : Op → Prop) (s s' : MemoryAdapter) : Prop where
  kept : ∀ o ∈ s.log, o ∈ s'.log
  log : ∀ o ∈ s'.log, o ∈ s.log ∨ P o
  winner : ∀ c, s'.winner c = s.winner c ∨ ∃ o, s'.winner c = some o ∧ P o

/-- The promise fulfils, and no stretch changes the log or the cells but by
validated and verified operations. -/
structure Harmless (cr : Crypto) (out : Surroundings) (space : JsString) (world : Nat → Node)
    (msg : Json) : Prop where
  fulfils : ∃ how, settlement (handling cr out space world msg) = some how ∧ how ≠ .rejected
  verified : ∀ x ∈ handling cr out space world msg,
    ChangesBy (Verified cr (world 0).engine.keys) x.1.engine.storage x.2.node.engine.storage

/-- What a stage waits with has been checked. -/
def Stage.Checked (P : Op → Prop) : Stage → Prop
  | .opsApply ops => ∀ o ∈ ops, P o
  | _ => True

/-- Where the first stretch may wait. -/
def Stage.first : Stage → Bool
  | helloObserve | sinceRecord | opsApply _ | ackRecord => true
  | _ => false

theorem Stage.checked_of_not_first {P : Op → Prop} {stage : Stage} (h : stage.first = false) :
    stage.Checked P := by
  cases stage with
  | opsApply ops => cases h
  | _ => trivial

/-! ## What changes in the store -/

section Store

variable {P : Op → Prop} {s : MemoryAdapter}

theorem ChangesBy.refl (s : MemoryAdapter) : ChangesBy P s s :=
  ⟨fun _ h => h, fun _ h => .inl h, fun _ => .inl rfl⟩

theorem ChangesBy.of_eq {s' : MemoryAdapter} (hl : s'.opsById = s.opsById)
    (ht : s'.tables = s.tables) : ChangesBy P s s' := by
  have hlog : s'.log = s.log := by
    unfold MemoryAdapter.log
    rw [hl]
  have hwin : s'.winner = s.winner := by
    funext c
    unfold MemoryAdapter.winner MemoryAdapter.getWinner
    rw [ht]
  refine ⟨fun o h => ?_, fun o h => ?_, fun c => ?_⟩
  · rw [hlog]
    exact h
  · rw [hlog] at h
    exact .inl h
  · rw [hwin]
    exact .inl rfl

/-- The pending winners are operations of the batch, or winners already. -/
def FromBatch (s : MemoryAdapter) (ops : List Op) (winners : JsMap Op) : Prop :=
  ∀ (k : JsString) (d : Op), winners[k]? = some d →
    ∃ o : Op, k = cellKey o.table o.row o.column ∧
      (d ∈ ops ∨ s.getWinner o.table o.row o.column = some d)

theorem FromBatch.step {ops : List Op} {acc : JsMap Op × Frontier} (h : FromBatch s ops acc.1)
    {o : Op} (ho : o ∈ ops) : FromBatch s ops (commitOp s acc o).1 := by
  have ins : ∀ v : Op, v ∈ ops ∨ s.getWinner o.table o.row o.column = some v →
      FromBatch s ops (acc.1.insert (cellKey o.table o.row o.column) v) := by
    intro v hv k d hd
    rw [Std.ExtTreeMap.getElem?_insert_eq] at hd
    split at hd
    · rename_i hk
      obtain rfl := Option.some.inj hd
      exact ⟨o, hk.symm, hv⟩
    · exact h k d hd
  unfold commitOp
  simp only
  cases hp : acc.1[cellKey o.table o.row o.column]? with
  | some p =>
    simp only [Option.some_or]
    split
    · exact ins o (.inl ho)
    · exact h
  | none =>
    simp only [Option.none_or]
    cases hw : s.getWinner o.table o.row o.column with
    | none => exact ins o (.inl ho)
    | some cur =>
      simp only
      split
      · exact ins o (.inl ho)
      · exact ins cur (.inr hw)

theorem FromBatch.foldl {all ops : List Op} (hsub : ∀ o ∈ ops, o ∈ all)
    {acc : JsMap Op × Frontier} (h : FromBatch s all acc.1) :
    FromBatch s all (ops.foldl (commitOp s) acc).1 := by
  induction ops generalizing acc with
  | nil => exact h
  | cons o ops ih =>
    exact ih (fun p hp => hsub p (List.mem_cons_of_mem _ hp)) (h.step (hsub o List.mem_cons_self))

theorem fromBatch_commitBatch (s : MemoryAdapter) (ops : List Op) (clock : ClockState) :
    FromBatch s ops (commitBatch s ops clock).winners := by
  have hempty : FromBatch s ops ((∅ : JsMap Op), s.frontier).1 := by
    intro k d hd
    rw [Std.ExtTreeMap.getElem?_empty] at hd
    cases hd
  exact hempty.foldl fun _ ho => ho

/-- **A batch changes the store by its operations.** -/
theorem changesBy_commit {ops : List Op} (hn : New s ops) (hP : ∀ o ∈ ops, P o)
    (clock : ClockState) : ChangesBy P s (committed s ops clock) where
  kept o ho := by
    change (ops.foldl (fun m o => m.insert o.id o) s.opsById)[o.id]? = some o
    rcases MemoryAdapter.getElem?_foldl_insertOp ops s.opsById o.id with ⟨-, h⟩ | ⟨p, hp, hk, -⟩
    · rw [h]
      exact ho
    · have hno := hn.notLogged p hp
      rw [hk, ← Bool.not_eq_true, MemoryAdapter.hasOp_iff] at hno
      exact absurd ⟨o, ho⟩ hno
  log o ho := by
    have ho' : (ops.foldl (fun m o => m.insert o.id o) s.opsById)[o.id]? = some o := ho
    rcases MemoryAdapter.getElem?_foldl_insertOp ops s.opsById o.id with ⟨-, h⟩ | ⟨p, hp, -, h⟩
    · rw [h] at ho'
      exact .inl ho'
    · rw [h] at ho'
      obtain rfl := Option.some.inj ho'
      exact .inr (hP p hp)
  winner c := by
    have hcases := NestedMap.get_setAll_cases (m := s.tables)
      (l := (commitBatch s ops clock).winners.toList.map fun e =>
        ((splitKey e.1).1, (splitKey e.1).2.1, (splitKey e.1).2.2, e.2)) (a := c.1) (b := c.2.1)
      (c := c.2.2)
    rcases hcases with h | ⟨d, hd, h⟩
    · exact .inl h
    · obtain ⟨⟨k, d'⟩, hm, hx⟩ := List.mem_map.1 hd
      rw [Std.ExtTreeMap.mem_toList_iff_getElem?_eq_some] at hm
      obtain ⟨o, rfl, hmem⟩ := fromBatch_commitBatch s ops clock _ _ hm
      have hsplit : splitKey (cellKey o.table o.row o.column) = o.cell := splitKey_cellKey o.legal
      simp only [hsplit, Prod.mk.injEq] at hx
      obtain ⟨h1, h2, h3, rfl⟩ := hx
      rcases hmem with hmem | hmem
      · exact .inr ⟨d', h, hP d' hmem⟩
      · left
        refine Eq.trans h (Eq.trans hmem.symm ?_)
        change s.getWinner o.cell.1 o.cell.2.1 o.cell.2.2 = s.getWinner c.1 c.2.1 c.2.2
        rw [h1, h2, h3]

end Store

/-! ## The engine calls -/

namespace Node

variable {P : Op → Prop} (n : Node)

theorem storage_receiveClock (millis : Nat) (counter : Option Nat) :
    (n.receiveClock millis counter).2.engine.storage = n.engine.storage := by
  unfold receiveClock
  simp only
  split
  · rfl
  · rfl

theorem changesBy_persistClock :
    ChangesBy P n.engine.storage n.persistClock.2.engine.storage := by
  unfold persistClock after
  rcases n.engine.transact_cases (n.engine.storage.applyBatch n.engine.clockBatch) with h | h
  · rw [h]
    exact .refl _
  · rw [h]
    have e : n.engine.storage.applyBatch n.engine.clockBatch =
        { n.engine.storage with clock := some n.engine.clockState } :=
      n.engine.storage.applyBatch_nil n.engine.clockState
    change ChangesBy P n.engine.storage (n.engine.storage.applyBatch n.engine.clockBatch)
    rw [e]
    exact .of_eq rfl rfl

theorem changesBy_observeRemoteClock (clock : Val) :
    ChangesBy P n.engine.storage (n.observeRemoteClock clock).2.engine.storage := by
  unfold observeRemoteClock
  split
  · exact .refl _
  · split
    · exact .refl _
    · rename_i hlc _ _ remote _
      simp only
      rw [← n.storage_receiveClock remote.millis
        (if clock.isString hlc then some remote.counter else none)]
      generalize n.receiveClock remote.millis
        (if clock.isString hlc then some remote.counter else none) = received
      cases received.1 with
      | error err => exact .refl _
      | ok u => exact received.2.changesBy_persistClock

theorem storage_recordPeerFrontier (peer frontier : Val) :
    (n.recordPeerFrontier peer frontier).2.engine.storage = n.engine.storage := by
  unfold recordPeerFrontier
  split
  · rfl
  · split
    · rfl
    · simp only
      split
      · rfl
      · rfl

theorem storage_receiveMax (ops : List Op) :
    (n.receiveMax ops).2.engine.storage = n.engine.storage := by
  unfold receiveMax
  split
  · rfl
  · split
    · rfl
    · exact n.storage_receiveClock _ _

theorem changesBy_mergeAdmitted {ops : List Op} (hP : ∀ o ∈ ops, P o) :
    ChangesBy P n.engine.storage (n.mergeAdmitted ops).2.engine.storage := by
  unfold mergeAdmitted
  simp only
  rw [← n.storage_receiveMax ops]
  generalize n.receiveMax ops = received
  cases received.1 with
  | error err => exact .refl _
  | ok u =>
    simp only
    split
    · exact received.2.changesBy_persistClock
    · obtain ⟨hnew, hsub, -⟩ := freshOps_spec received.2.engine.storage ops
      unfold after Reply.map
      rcases received.2.engine.commit_cases (freshOps received.2.engine.storage ops) .remote with
        h | h
      · rw [h]
        exact .refl _
      · rw [h]
        exact changesBy_commit hnew (fun o ho => hP o (hsub o ho)) _

/-! ## The stretches -/

theorem storage_learnKey (id : Val) (publicKey : Bytes) :
    (n.learnKey cr id publicKey).engine.storage = n.engine.storage := by
  unfold learnKey SyncEngine.learnKey
  split
  · simp only
    split
    · rfl
    · rfl
  · rfl

theorem checked_of_checkBatch {ops : Val} {checked : List Op}
    (h : n.checkBatch cr ops = .ok checked) : ∀ o ∈ checked, Verified cr n.engine.keys o := by
  unfold checkBatch at h
  split at h
  · split at h
    · rename_i hc
      obtain rfl := Except.ok.inj h
      exact (checkBatch_eq_ok hc).2.2
    · cases h
  · cases h
  · cases h

theorem learnEntries_spec (cr : Crypto) (n : Node) (entries : List (JsString × Json)) :
    (learnEntries cr n entries).node.engine.storage = n.engine.storage ∧
      ∀ stage, (learnEntries cr n entries).exit ≠ .wait stage := by
  induction entries generalizing n with
  | nil => exact ⟨rfl, fun _ h => by cases h⟩
  | cons entry rest ih =>
    obtain ⟨id, k⟩ := entry
    cases k with
    | str k =>
      obtain ⟨h1, h2⟩ := ih (n.learnKey cr (some (.str id)) (unhex k))
      exact ⟨h1.trans (n.storage_learnKey _ _), h2⟩
    | null => exact ⟨rfl, fun _ h => by cases h⟩
    | bool b => exact ⟨rfl, fun _ h => by cases h⟩
    | num x => exact ⟨rfl, fun _ h => by cases h⟩
    | arr xs => exact ⟨rfl, fun _ h => by cases h⟩
    | obj fs => exact ⟨rfl, fun _ h => by cases h⟩

/-- The first stretch leaves the store alone, and waits with checked operations. -/
theorem dispatch_spec (msg : Json) :
    (n.dispatch cr msg).node.engine.storage = n.engine.storage ∧
      ∀ stage, (n.dispatch cr msg).exit = .wait stage →
        stage.Checked (Verified cr n.engine.keys) := by
  have idle : ∀ (p : Part), p.node.engine.storage = n.engine.storage →
      (∀ ops, p.exit ≠ .wait (.opsApply ops)) →
      p.node.engine.storage = n.engine.storage ∧
        ∀ stage, p.exit = .wait stage → stage.Checked (Verified cr n.engine.keys) := by
    intro p hs hx
    refine ⟨hs, fun stage h => ?_⟩
    cases stage with
    | opsApply ops => exact absurd h (hx ops)
    | _ => trivial
  unfold dispatch
  split
  · refine idle _ ?_ fun _ h => by cases Exit.wait.inj h
    simp only
    split
    · exact n.storage_learnKey _ _
    · rfl
  split
  · split
    · exact idle _ rfl fun _ h => by cases h
    · exact idle _ rfl fun _ h => by cases h
    · rename_i keys _ _
      obtain ⟨h1, h2⟩ := learnEntries_spec cr n keys.entries
      exact idle _ h1 fun _ => h2 _
  split
  · exact idle _ rfl fun _ h => by cases Exit.wait.inj h
  split
  · split
    · exact idle _ rfl fun _ h => by cases h
    · exact idle _ rfl fun _ h => by cases h
    · split
      · exact idle _ rfl fun _ h => by cases h
      · rename_i ops hc
        refine ⟨rfl, fun stage h => ?_⟩
        obtain rfl := Exit.wait.inj h
        exact n.checked_of_checkBatch hc
  split
  · exact idle _ rfl fun _ h => by cases Exit.wait.inj h
  · exact idle _ rfl fun _ h => by cases h

theorem send_spec (out : Surroundings) (message : Json) (exit : Exit) :
    (n.send out message exit).node = n ∧
      ((n.send out message exit).exit = exit ∨ ∃ err, (n.send out message exit).exit = .threw err) := by
  unfold send
  split
  · exact ⟨rfl, .inr ⟨_, rfl⟩⟩
  · exact ⟨rfl, .inl rfl⟩

theorem sendAll_spec (out : Surroundings) (messages : List Json) :
    (n.sendAll out messages).node = n ∧ ∀ stage, (n.sendAll out messages).exit ≠ .wait stage := by
  induction messages with
  | nil => exact ⟨rfl, fun _ h => by cases h⟩
  | cons message rest ih =>
    unfold sendAll
    split
    · exact ⟨rfl, fun _ h => by cases h⟩
    · exact ih

theorem calling_spec {α : Type} (r : Except Thrown α × Node) (ok : α → Exit) :
    (calling r ok).node = r.2 ∧
      ((∃ a, (calling r ok).exit = ok a) ∨ ∃ err, (calling r ok).exit = .threw err) := by
  unfold calling
  cases r.1 with
  | ok a => exact ⟨rfl, .inl ⟨a, rfl⟩⟩
  | error err => exact ⟨rfl, .inr ⟨err, rfl⟩⟩

/-- What a stretch makes of the replica. -/
inductive Proceeds (n : Node) (msg : Json) : Stage → Node → Prop where
  | same {stage : Stage} : Proceeds n msg stage n
  | peers {stage : Stage} (peers : List (Val × Val)) : Proceeds n msg stage { n with peers := peers }
  | clock (clock : Val) : Proceeds n msg .helloObserve (n.observeRemoteClock clock).2
  | since : Proceeds n msg .sinceRecord
      (n.recordPeerFrontier (field msg (js "from")) (field msg (js "have"))).2
  | ack : Proceeds n msg .ackRecord
      (n.recordPeerFrontier (field msg (js "from")) (field msg (js "frontier"))).2
  | merge (ops : List Op) : Proceeds n msg (.opsApply ops) (n.mergeAdmitted ops).2

theorem proceed_node (out : Surroundings) (space : JsString) (msg : Json) (stage : Stage) :
    Proceeds n msg stage (n.proceed out space msg stage).node := by
  have sending : ∀ (message : Json) (exit : Exit),
      Proceeds n msg stage (n.send out message exit).node := by
    intro message exit
    rw [(n.send_spec out message exit).1]
    exact .same
  unfold proceed
  cases stage with
  | helloObserve =>
    rw [(calling_spec _ _).1]
    exact .clock _
  | helloGreet =>
    simp only
    split
    · exact .same
    · exact .peers _
  | helloSendGreet clock => exact sending _ _
  | helloKeys => exact sending _ _
  | helloFrontier => exact .same
  | helloSince frontier => exact sending _ _
  | sinceRecord =>
    rw [(calling_spec _ _).1]
    exact .since
  | sinceRead =>
    simp only
    split
    · exact .same
    · exact .same
  | sinceKeys missing => exact sending _ _
  | sinceSend missing =>
    rw [(n.sendAll_spec out _).1]
    exact .same
  | opsApply ops =>
    rw [(calling_spec _ _).1]
    exact .merge ops
  | opsFrontier => exact .same
  | opsAck frontier => exact sending _ _
  | ackRecord =>
    rw [(calling_spec _ _).1]
    exact .ack

/-- A stretch goes on to a later stage. -/
theorem proceed_exit {out : Surroundings} {space : JsString} {msg : Json} {stage stage' : Stage}
    (h : (n.proceed out space msg stage).exit = .wait stage') :
    stage'.first = false ∧ stage'.rank < stage.rank := by
  have sending : ∀ {message : Json} {exit : Exit},
      (n.send out message exit).exit = .wait stage' → exit = .wait stage' := by
    intro message exit hx
    rcases (n.send_spec out message exit).2 with h2 | ⟨err, h2⟩
    · exact h2.symm.trans hx
    · cases h2.symm.trans hx
  have call : ∀ {α : Type} {r : Except Thrown α × Node} {ok : α → Exit},
      (calling r ok).exit = .wait stage' → ∃ a, ok a = .wait stage' := by
    intro α r ok hx
    rcases (calling_spec r ok).2 with ⟨a, h2⟩ | ⟨err, h2⟩
    · exact ⟨a, h2.symm.trans hx⟩
    · cases h2.symm.trans hx
  unfold proceed at h
  cases stage with
  | helloObserve =>
    obtain ⟨-, h⟩ := call h
    obtain rfl := Exit.wait.inj h
    exact ⟨rfl, by decide⟩
  | helloGreet =>
    simp only at h
    split at h
    · obtain rfl := Exit.wait.inj h
      exact ⟨rfl, by decide⟩
    · simp only at h
      split at h
      · cases h
      · obtain rfl := Exit.wait.inj h
        exact ⟨rfl, Nat.lt_succ_self 4⟩
  | helloSendGreet clock =>
    obtain rfl := Exit.wait.inj (sending h)
    exact ⟨rfl, Nat.lt_succ_self 3⟩
  | helloKeys =>
    obtain rfl := Exit.wait.inj (sending h)
    exact ⟨rfl, by decide⟩
  | helloFrontier =>
    obtain rfl := Exit.wait.inj h
    exact ⟨rfl, Nat.lt_succ_self 1⟩
  | helloSince frontier => cases sending h
  | sinceRecord =>
    obtain ⟨-, h⟩ := call h
    obtain rfl := Exit.wait.inj h
    exact ⟨rfl, by decide⟩
  | sinceRead =>
    simp only at h
    split at h
    · cases h
    · simp only at h
      split at h
      · cases h
      · obtain rfl := Exit.wait.inj h
        exact ⟨rfl, Nat.lt_succ_self 2⟩
  | sinceKeys missing =>
    obtain rfl := Exit.wait.inj (sending h)
    exact ⟨rfl, Nat.lt_succ_self 1⟩
  | sinceSend missing => exact absurd h ((n.sendAll_spec out _).2 stage')
  | opsApply ops =>
    obtain ⟨applied, h⟩ := call h
    split at h
    · obtain rfl := Exit.wait.inj h
      exact ⟨rfl, Nat.lt_succ_self 2⟩
    · cases h
  | opsFrontier =>
    obtain rfl := Exit.wait.inj h
    exact ⟨rfl, Nat.lt_succ_self 1⟩
  | opsAck frontier => cases sending h
  | ackRecord =>
    obtain ⟨-, h⟩ := call h
    cases h

/-- A later stretch changes the store by checked operations. -/
theorem changesBy_proceed (out : Surroundings) (space : JsString) (msg : Json) {P : Op → Prop}
    {stage : Stage} (hc : stage.Checked P) :
    ChangesBy P n.engine.storage (n.proceed out space msg stage).node.engine.storage := by
  have hnode := n.proceed_node out space msg stage
  generalize (n.proceed out space msg stage).node = m at hnode ⊢
  cases hnode with
  | same => exact .refl _
  | peers peers => exact .refl _
  | clock clock => exact n.changesBy_observeRemoteClock clock
  | since =>
    rw [storage_recordPeerFrontier]
    exact .refl _
  | ack =>
    rw [storage_recordPeerFrontier]
    exact .refl _
  | merge ops => exact n.changesBy_mergeAdmitted hc

end Node

/-! ## The promise -/

theorem caught_ne_rejected {msg : Json} (hm : msg ≠ .null) : caught msg ≠ .rejected := by
  intro h
  cases msg with
  | null => exact hm rfl
  | bool b => cases h
  | num n => cases h
  | str s => cases h
  | arr xs => cases h
  | obj fs => cases h

theorem Part.settled_wait {msg : Json} {p : Part} {stage : Stage}
    (h : (p.settled msg).outcome = .wait stage) : p.exit = .wait stage := by
  unfold settled at h
  cases hx : p.exit with
  | wait s =>
    simp only [hx] at h
    rw [Outcome.wait.inj h]
  | done =>
    simp only [hx] at h
    cases h
  | threw err =>
    simp only [hx] at h
    cases h

theorem Part.settled_not_rejected {msg : Json} {p : Part} (hm : msg ≠ .null) {how : Ending}
    (h : (p.settled msg).outcome = .ended how) : how ≠ .rejected := by
  unfold settled at h
  cases hx : p.exit with
  | wait s =>
    simp only [hx] at h
    cases h
  | done =>
    simp only [hx] at h
    obtain rfl := Outcome.ended.inj h
    exact Ending.noConfusion
  | threw err =>
    simp only [hx] at h
    obtain rfl := Outcome.ended.inj h
    exact caught_ne_rejected hm

theorem settlement_cons {x : Node × Stretch} {l : List (Node × Stretch)} (hl : l ≠ []) :
    settlement (x :: l) = settlement l := by
  unfold settlement
  rw [List.getLast?_cons_of_ne_nil hl]

theorem settlement_ended {x : Node × Stretch} {how : Ending} (h : x.2.outcome = .ended how) :
    settlement [x] = some how := by
  unfold settlement
  rw [List.getLast?_singleton, Option.bind_some, h]

theorem Stage.rank_pos (stage : Stage) : 0 < stage.rank := by
  cases stage with
  | _ => exact Nat.succ_pos _

/-- **Run lemma.** The later stretches settle the promise and are harmless. -/
theorem stretches_spec (out : Surroundings) (space : JsString) {P : Op → Prop}
    (world : Nat → Node) {msg : Json} (hm : msg ≠ .null) {fuel : Nat} (i : Nat) {stage : Stage} (hf : stage.rank ≤ fuel) (hc : stage.Checked P) :
    (∃ how, settlement (stretches out space world msg fuel i stage) = some how ∧
        how ≠ .rejected) ∧
      stretches out space world msg fuel i stage ≠ [] ∧
      ∀ x ∈ stretches out space world msg fuel i stage,
        ChangesBy P x.1.engine.storage x.2.node.engine.storage := by
  induction fuel generalizing i stage with
  | zero => exact absurd hf (Nat.not_le.2 stage.rank_pos)
  | succ fuel ih =>
    have hstore := (world i).changesBy_proceed out space msg hc
    unfold stretches
    simp only
    cases ho : ((world i).resume out space msg stage).outcome with
    | wait stage' =>
      obtain ⟨hf', hlt⟩ := (world i).proceed_exit (Part.settled_wait ho)
      obtain ⟨hsettle, hne, hall⟩ := ih (i + 1) (by omega) (Stage.checked_of_not_first hf')
      simp only
      refine ⟨?_, List.cons_ne_nil _ _, fun x hx => ?_⟩
      · rw [settlement_cons hne]
        exact hsettle
      · rcases List.mem_cons.1 hx with rfl | hx
        · exact hstore
        · exact hall x hx
    | ended how =>
      refine ⟨⟨how, settlement_ended ho, Part.settled_not_rejected hm ho⟩, List.cons_ne_nil _ _,
        fun x hx => ?_⟩
      obtain rfl := List.mem_singleton.1 hx
      exact hstore

/-- The first stretch, past the guards or not. -/
theorem begin_spec (cr : Crypto) (space : JsString) (n : Node) (msg : Json) :
    (n.begin cr space msg).node.engine.storage = n.engine.storage ∧
      ∀ stage, (n.begin cr space msg).exit = .wait stage →
        stage.Checked (Verified cr n.engine.keys) := by
  unfold Node.begin
  split
  · exact ⟨rfl, fun _ h => by cases h⟩
  · exact ⟨rfl, fun _ h => by cases h⟩
  · exact n.dispatch_spec msg

theorem handling_of_not_null {world : Nat → Node} {msg : Json} (hm : msg ≠ .null) :
    Harmless cr out space world msg := by
  obtain ⟨hstore, hwait⟩ := begin_spec cr space (world 0) msg
  have hfirst : ChangesBy (Verified cr (world 0).engine.keys) (world 0).engine.storage
      ((world 0).handle cr space msg).node.engine.storage := by
    change ChangesBy _ _ ((world 0).begin cr space msg).node.engine.storage
    rw [hstore]
    exact .refl _
  cases ho : ((world 0).handle cr space msg).outcome with
  | wait stage =>
    obtain ⟨hsettle, hne, hall⟩ := stretches_spec out space world hm 1 (Nat.le_refl stage.rank)
      (hwait stage (Part.settled_wait ho))
    have hrun : handling cr out space world msg =
        (world 0, (world 0).handle cr space msg) ::
          stretches out space world msg stage.rank 1 stage := by
      unfold handling
      simp only [ho]
    constructor
    · rw [hrun, settlement_cons hne]
      exact hsettle
    · intro x hx
      rw [hrun] at hx
      rcases List.mem_cons.1 hx with rfl | hx
      · exact hfirst
      · exact hall x hx
  | ended how =>
    have hrun : handling cr out space world msg = [(world 0, (world 0).handle cr space msg)] := by
      unfold handling
      simp only [ho]
    constructor
    · rw [hrun]
      exact ⟨how, settlement_ended ho, Part.settled_not_rejected hm ho⟩
    · intro x hx
      rw [hrun] at hx
      obtain rfl := List.mem_singleton.1 hx
      exact hfirst

/-- `null` ends in the `catch` clause, or before the first property is read. -/
theorem handling_null (world : Nat → Node) : handling cr out space world .null =
    [(world 0, ⟨world 0, [], .ended (if (world 0).started then .rejected else .returned)⟩)] := by
  unfold handling Node.handle Node.begin Node.accepts
  cases (world 0).started with
  | true => rfl
  | false => rfl

/-- **No message but `null` crashes a replica.** Whatever is delivered, and
whatever others do meanwhile, the promise of `handle` fulfils and the log and
the cells change by validated and verified operations only, unless `null` is
delivered to a replicator that is started. -/
theorem handle_harmless_iff (world : Nat → Node) (msg : Json) :
    Harmless cr out space world msg ↔ ¬ ((world 0).started = true ∧ msg = .null) := by
  constructor
  · rintro h ⟨hs, rfl⟩
    obtain ⟨how, hsettle, hne⟩ := h.fulfils
    rw [handling_null, settlement_ended rfl, hs] at hsettle
    exact hne (Option.some.inj hsettle).symm
  · intro h
    by_cases hm : msg = .null
    · subst hm
      have hs : (world 0).started = false := by
        rw [← Bool.not_eq_true]
        exact fun hs => h ⟨hs, rfl⟩
      constructor
      · refine ⟨.returned, ?_, Ending.noConfusion⟩
        rw [handling_null, settlement_ended rfl, hs]
        rfl
      · intro x hx
        rw [handling_null] at hx
        obtain rfl := List.mem_singleton.1 hx
        exact .refl _
    · exact handling_of_not_null hm

/-- A started replica without peers, and callbacks that do not throw. -/
def sampleNode : Node := ⟨.opened plainCrypto Sample.opts 1, false, true, [], []⟩

def calm : Surroundings := ⟨fun _ => .zero, fun _ => false, fun _ => false⟩

/-- `null` is delivered: the `catch` clause throws itself, and the promise rejects. -/
theorem null_rejects : ¬ Harmless plainCrypto calm Sample.space (fun _ => sampleNode) .null := by
  intro h
  obtain ⟨how, hsettle, hne⟩ := h.fulfils
  rw [handling_null, settlement_ended rfl] at hsettle
  exact hne (Option.some.inj hsettle).symm

end TangentFeed.Untyped
