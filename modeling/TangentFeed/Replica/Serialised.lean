import TangentFeed.Core.Overlap
import TangentFeed.Replica.Calls

/-!
# Overlapping calls take effect in order

`overlapping_serialised`: however the continuations of overlapping calls are
interleaved, and whatever in the store rejects, the calls end as if they had
been made one after another, and none holds up the others. `alone_yields`
ties a call made alone to the engine's function for it.
-/

namespace TangentFeed

open PromiseChain

variable {cr : Crypto}

theorem Reply.map_map {α β γ : Type} (r : Reply α) (f : α → β) (g : β → γ) :
    (r.map f).map g = r.map fun a => g (f a) := by
  obtain ⟨e, result, event, received⟩ := r
  cases result with
  | error err => rfl
  | ok a => rfl

namespace Locked

variable {e : SyncEngine} {b next : Locked} {answer : Answer} {w : World}

/-! ## No body learns a key -/

def SameKeys (K : JsMap Bytes) (w : World) : Prop := w.engine.keys = K

variable {K : JsMap Bytes}

theorem acting_keeps {α : Type} {f : SyncEngine → Except JsError α × SyncEngine}
    {next : α → Locked} (hf : ∀ e, (f e).2.keys = e.keys) (hn : ∀ a, (next a).Keeps (SameKeys K)) :
    (acting f next).Keeps (SameKeys K) := by
  intro w hw
  refine ⟨(hf w.engine).trans hw, ?_⟩
  simp only
  cases (f w.engine).1 with
  | error err => trivial
  | ok a => exact hn a

theorem reading_keeps {α : Type} {f : MemoryAdapter → α} {next : α → Locked}
    (hn : ∀ a, (next a).Keeps (SameKeys K)) : (reading f next).Keeps (SameKeys K) := by
  intro w hw
  refine ⟨hw, ?_⟩
  simp only
  split
  · trivial
  · exact hn _

theorem writing_keeps {f : SyncEngine → MemoryAdapter} (hn : next.Keeps (SameKeys K)) :
    (writing f next).Keeps (SameKeys K) := by
  intro w hw
  unfold SameKeys
  simp only
  rcases w.engine.transact_cases (f w.engine) with h | h
  · rw [h]
    exact ⟨hw, trivial⟩
  · rw [h]
    exact ⟨hw, hn⟩

theorem telling_keeps {event : ChangeEvent} : (telling event answer).Keeps (SameKeys K) := by
  intro w hw
  refine ⟨hw, ?_⟩
  simp only
  cases (SyncEngine.notify w.engine.subscribers event).2 with
  | none => trivial
  | some id => trivial

theorem commitLoop_keeps {ops rest : List Op} {origin : Origin} {acc : JsMap Op × Frontier} :
    (commitLoop ops origin answer rest acc).Keeps (SameKeys K) := by
  induction rest generalizing acc with
  | nil => exact writing_keeps telling_keeps
  | cons op rest ih =>
    unfold commitLoop
    cases acc.1[cellKey op.table op.row op.column]? with
    | some pending => exact ih
    | none => exact reading_keeps fun _ => ih

theorem commit_keeps {ops : List Op} {origin : Origin} :
    (commit ops origin answer).Keeps (SameKeys K) := reading_keeps fun _ => commitLoop_keeps

theorem clockSaving_keeps : (clockSaving answer).Keeps (SameKeys K) :=
  reading_keeps fun _ => writing_keeps trivial

theorem freshLoop_keeps {next : List Op → Locked} (hn : ∀ ops, (next ops).Keeps (SameKeys K))
    {ops fresh : List Op} : (freshLoop next ops fresh).Keeps (SameKeys K) := by
  induction ops generalizing fresh with
  | nil => exact hn fresh
  | cons op ops ih => exact reading_keeps fun _ => ih

theorem winningRows_keeps {next : JsMap Op → Locked} (hn : ∀ out, (next out).Keeps (SameKeys K))
    {table : JsString} {rows : List JsString} {out : JsMap Op} :
    (winningRows table next rows out).Keeps (SameKeys K) := by
  induction rows generalizing out with
  | nil => exact hn out
  | cons row rows ih => exact reading_keeps fun _ => ih

theorem winningTables_keeps {next : JsMap Op → Locked} (hn : ∀ out, (next out).Keeps (SameKeys K))
    {tables : List JsString} {out : JsMap Op} :
    (winningTables next tables out).Keeps (SameKeys K) := by
  induction tables generalizing out with
  | nil => exact hn out
  | cons table tables ih => exact reading_keeps fun _ => winningRows_keeps fun _ => ih

theorem receive_keys (hlc : JsString) (e : SyncEngine) : (receive hlc e).2.keys = e.keys := by
  unfold receive
  cases decodeHlc hlc with
  | error err => rfl
  | ok remote => rfl

/-! ## A call alone -/

/-- When no read rejects, the body alone ends as the reply says. -/
def Yields (b : Locked) (e : SyncEngine) (r : Reply Answer) : Prop :=
  ∀ w : World, w.engine = e → (∀ n, w.readFails n = false) → ∃ n, b.run w =
    ({ w with engine := r.engine, reads := n, events := w.events ++ r.event.toList }, r.result)

theorem yields_settled (e : SyncEngine) (result : Settlement) :
    Yields (.settled result) e (.quiet e result) := by
  rintro w rfl -
  refine ⟨w.reads, ?_⟩
  change (w, result) = _
  rw [show (Reply.quiet w.engine result).event.toList = [] from rfl, List.append_nil]
  rfl

theorem yields_reading {α : Type} {f : MemoryAdapter → α} {next : α → Locked} {r : Reply Answer}
    (h : Yields (next (f e.storage)) e r) : Yields (reading f next) e r := by
  rintro w rfl hr
  obtain ⟨n, hn⟩ := h { w with reads := w.reads + 1 } rfl hr
  refine ⟨n, ?_⟩
  unfold reading
  simp only [Body.run]
  rw [if_neg (by rw [hr]; exact Bool.false_ne_true)]
  exact hn

theorem yields_acting {α : Type} {f : SyncEngine → Except JsError α × SyncEngine}
    {next : α → Locked} {r : Reply Answer}
    (herr : ∀ err, (f e).1 = .error err → r = .quiet (f e).2 (.error err))
    (hok : ∀ a, (f e).1 = .ok a → Yields (next a) (f e).2 r) : Yields (acting f next) e r := by
  rintro w rfl hr
  unfold acting
  simp only [Body.run]
  cases hf : (f w.engine).1 with
  | error err =>
    rw [herr err hf]
    exact yields_settled _ _ { w with engine := (f w.engine).2 } rfl hr
  | ok a => exact hok a hf { w with engine := (f w.engine).2 } rfl hr

theorem yields_writing {f : SyncEngine → MemoryAdapter} {r : Reply Answer}
    (herr : ∀ err, (e.transact (f e)).result = .error err →
      r = .quiet (e.transact (f e)).engine (.error err))
    (hok : (e.transact (f e)).result = .ok () → Yields next (e.transact (f e)).engine r) :
    Yields (writing f next) e r := by
  rintro w rfl hr
  unfold writing
  simp only [Body.run]
  cases hf : (w.engine.transact (f w.engine)).result with
  | error err =>
    rw [herr err hf]
    exact yields_settled _ _ { w with engine := (w.engine.transact (f w.engine)).engine } rfl hr
  | ok a => exact hok hf { w with engine := (w.engine.transact (f w.engine)).engine } rfl hr

/-- One transaction and an answer. -/
theorem yields_transact (f : SyncEngine → MemoryAdapter) (answer : Answer) :
    Yields (writing f (.settled (.ok answer))) e ((e.transact (f e)).map fun _ => answer) := by
  rcases e.transact_cases (f e) with h | h
  · refine yields_writing (fun err herr => ?_) fun hok => ?_
    · rw [h] at herr ⊢
      rw [← Except.error.inj herr]
      rfl
    · rw [h] at hok
      cases hok
  · refine yields_writing (fun err herr => ?_) fun _ => ?_
    · rw [h] at herr
      cases herr
    · rw [h]
      exact yields_settled _ _

/-- The loop of `commit` computes the batch. -/
theorem yields_commitLoop {ops rest : List Op} {origin : Origin} {acc : JsMap Op × Frontier}
    (hacc : rest.foldl (SyncEngine.commitOp e.storage) acc =
      ops.foldl (SyncEngine.commitOp e.storage) (∅, e.storage.frontier)) :
    Yields (commitLoop ops origin answer rest acc) e ((e.commit ops origin).map fun _ => answer) := by
  induction rest generalizing acc with
  | nil =>
    have hbatch : SyncEngine.commitBatch e.storage ops e.clockState =
        ⟨ops, acc.1, acc.2, e.clockState⟩ := by
      unfold SyncEngine.commitBatch
      rw [← hacc]
      rfl
    unfold commitLoop SyncEngine.commit
    rw [hbatch]
    rcases e.transact_cases
      (e.storage.applyBatch ⟨ops, acc.1, acc.2, e.clockState⟩) with h | h
    · refine yields_writing (fun err herr => ?_) fun hok => ?_
      · rw [h] at herr ⊢
        rw [← Except.error.inj herr]
        rfl
      · rw [h] at hok
        cases hok
    · refine yields_writing (fun err herr => ?_) fun _ => ?_
      · rw [h] at herr
        cases herr
      · rw [h]
        rintro w hw -
        refine ⟨w.reads, ?_⟩
        unfold telling
        simp only [Body.run, hw, Reply.quiet, Reply.map]
        cases (SyncEngine.notify e.subscribers (SyncEngine.changeEvent ops origin)).2 with
        | none => simp only [Body.run, Except.map, Option.toList]
        | some id => simp only [Body.run, Except.map, Option.toList]
  | cons op rest ih =>
    unfold commitLoop
    rw [List.foldl_cons] at hacc
    cases hp : acc.1[cellKey op.table op.row op.column]? with
    | some pending =>
      apply ih
      rw [← hacc]
      unfold SyncEngine.commitOp
      simp only [hp, Option.some_or]
    | none =>
      have hop : SyncEngine.commitOp e.storage acc op =
          (firstWinner acc.1 op (e.storage.getWinner op.table op.row op.column),
            advanceFrontier acc.2 op) := by
        unfold SyncEngine.commitOp firstWinner
        cases e.storage.getWinner op.table op.row op.column with
        | none => simp only [hp, Option.none_or]
        | some cur => simp only [hp, Option.none_or]
      refine yields_reading (ih ?_)
      rw [← hacc, hop]

theorem yields_commit (ops : List Op) (origin : Origin) (answer : Answer) :
    Yields (commit ops origin answer) e ((e.commit ops origin).map fun _ => answer) :=
  yields_reading (yields_commitLoop rfl)

theorem yields_clockSaving (answer : Answer) : Yields (clockSaving answer) e
    ((e.transact (e.storage.applyBatch e.clockBatch)).map fun _ => answer) :=
  yields_reading (yields_transact _ answer)

theorem yields_freshLoop {next : List Op → Locked} {ops rest fresh : List Op} {r : Reply Answer}
    (hfresh : rest.foldl (fun fresh op =>
      if !e.storage.hasOp op.id && !fresh.any (·.id == op.id) then fresh ++ [op] else fresh) fresh =
        SyncEngine.freshOps e.storage ops)
    (h : Yields (next (SyncEngine.freshOps e.storage ops)) e r) :
    Yields (freshLoop next rest fresh) e r := by
  induction rest generalizing fresh with
  | nil =>
    unfold freshLoop
    rw [← hfresh] at h
    exact h
  | cons op rest ih =>
    unfold freshLoop
    exact yields_reading (ih hfresh)

theorem yields_winningRows {next : JsMap Op → Locked} {table : JsString} {r : Reply Answer}
    {rows : List JsString} {out : JsMap Op}
    (h : Yields (next ((rows.flatMap fun row => ((e.storage.getRow table row).getD ∅).toList.map
      fun (column, op) => (cellKey table row column, op)).foldl
        (fun out x => out.insert x.1 x.2) out)) e r) :
    Yields (winningRows table next rows out) e r := by
  induction rows generalizing out with
  | nil => exact h
  | cons row rows ih =>
    unfold winningRows
    refine yields_reading (ih ?_)
    rw [List.flatMap_cons, List.foldl_append, List.foldl_map] at h
    exact h

theorem yields_winningTables {next : JsMap Op → Locked} {r : Reply Answer}
    {tables : List JsString} {out : JsMap Op}
    (h : Yields (next ((tables.flatMap fun table => (e.storage.listRows table).flatMap fun row =>
      ((e.storage.getRow table row).getD ∅).toList.map fun (column, op) =>
        (cellKey table row column, op)).foldl (fun out x => out.insert x.1 x.2) out)) e r) :
    Yields (winningTables next tables out) e r := by
  induction tables generalizing out with
  | nil => exact h
  | cons table tables ih =>
    unfold winningTables
    refine yields_reading (yields_winningRows (ih ?_))
    rw [List.flatMap_cons, List.foldl_append] at h
    exact h

end Locked

open Locked in
theorem Request.enter_keeps {K : JsMap Bytes} (e : SyncEngine) (r : Request) :
    (r.enter cr e).Keeps (SameKeys K) := by
  have write {table row : JsString} {values : List (JsString × Json)} {answer : Answer} :
      (localWrite cr table row values answer).Keeps (SameKeys K) :=
    acting_keeps (fun e => (SyncEngine.makeLocalOps_moved cr table row values e).keys)
      fun _ => commit_keeps
  cases r with
  | insert table row values => exact write
  | update table row values => exact write
  | delete table row => exact write
  | applyRemoteOps remoteOps =>
    unfold Request.enter
    simp only
    cases e.checkBatch cr remoteOps with
    | error err => trivial
    | ok ops =>
      have received (e : SyncEngine) : (e.receiveMax ops).2.keys = e.keys :=
        (e.receiveMax_moved ops).keys
      change (Locked.mergeAdmitted ops).Keeps (SameKeys K)
      refine acting_keeps received fun _ => freshLoop_keeps fun fresh => ?_
      split
      · exact clockSaving_keeps
      · exact commit_keeps
  | observeRemoteClock hlc => exact acting_keeps (receive_keys hlc) fun _ => clockSaving_keeps
  | compact opts =>
    change (Locked.compact opts).Keeps (SameKeys K)
    refine reading_keeps fun own => reading_keeps fun peers => reading_keeps fun tables =>
      winningTables_keeps fun winners => reading_keeps fun ops => ?_
    simp only
    split
    · exact writing_keeps trivial
    · trivial

/-- Before the lock only the known keys matter. -/
theorem Request.enter_eq {e e' : SyncEngine} (h : e'.keys = e.keys) (r : Request) :
    r.enter cr e' = r.enter cr e := by
  cases r with
  | applyRemoteOps remoteOps =>
    have hc : e'.checkBatch cr remoteOps = e.checkBatch cr remoteOps := by
      unfold SyncEngine.checkBatch
      rw [h]
    unfold Request.enter
    simp only [hc]
  | insert table row values => rfl
  | update table row values => rfl
  | delete table row => rfl
  | observeRemoteClock hlc => rfl
  | compact opts => rfl

/-- The call as one step of the engine. -/
def Request.reply (cr : Crypto) (e : SyncEngine) : Request → Reply Answer
  | insert table row values => (e.update cr table row values).map fun _ => .row row
  | update table row values => (e.update cr table row values).map fun _ => .undefined
  | delete table row => (e.delete cr table row).map fun _ => .undefined
  | applyRemoteOps remoteOps => (e.applyRemoteOps cr remoteOps).map .count
  | observeRemoteClock hlc => (e.observeRemoteClock hlc).map fun _ => .undefined
  | compact opts => (e.compact opts).map .stats

open Locked in
theorem yields_localWrite (e : SyncEngine) (table row : JsString)
    (values : List (JsString × Json)) (answer : Answer) :
    let made := e.makeLocalOps cr table row values
    let r : Reply Unit := match made.1 with
      | .error err => .quiet made.2 (.error err)
      | .ok ops => made.2.commit ops .local
    Yields (localWrite cr table row values answer) e (r.map fun _ => answer) := by
  refine yields_acting (fun err herr => ?_) fun ops hok => ?_
  · simp only [herr]
    rfl
  · simp only [hok]
    exact yields_commit ops .local answer

open Locked in
theorem yields_mergeAdmitted (e : SyncEngine) (ops : List Op) :
    Yields (mergeAdmitted ops) e ((e.mergeAdmitted ops).map .count) := by
  have hm : (e.receiveMax ops).1 = .ok () ∨ ∃ err, (e.receiveMax ops).1 = .error err := by
    cases (e.receiveMax ops).1 with
    | error err => exact .inr ⟨err, rfl⟩
    | ok u => exact .inl rfl
  unfold SyncEngine.mergeAdmitted
  rcases hm with hm | ⟨err, hm⟩
  · simp only [hm]
    refine yields_acting (fun err herr => ?_) fun _ _ => yields_freshLoop rfl ?_
    · simp only [hm, Except.mapError] at herr
      cases herr
    · split
      · rw [Reply.map_map]
        exact yields_clockSaving _
      · rw [Reply.map_map]
        exact yields_commit _ .remote _
  · simp only [hm]
    refine yields_acting (fun err' herr => ?_) fun _ hok => ?_
    · simp only [hm, Except.mapError] at herr
      rw [← Except.error.inj herr]
      rfl
    · simp only [hm, Except.mapError] at hok
      cases hok

open Locked in
theorem yields_observeRemoteClock (e : SyncEngine) (hlc : JsString) :
    Yields (observeRemoteClock hlc) e ((e.observeRemoteClock hlc).map fun _ => .undefined) := by
  unfold SyncEngine.observeRemoteClock
  refine yields_acting (fun err herr => ?_) fun h hok => ?_
  · unfold receive at herr ⊢
    cases hd : decodeHlc hlc with
    | error f =>
      simp only [hd] at herr ⊢
      rw [← Except.error.inj herr]
      rfl
    | ok remote =>
      simp only [hd] at herr ⊢
      cases hr : (e.receiveClock remote).1 with
      | error f =>
        simp only [hr, Except.mapError] at herr ⊢
        rw [← Except.error.inj herr]
        rfl
      | ok t => simp only [hr, Except.mapError] at herr; cases herr
  · unfold receive at hok ⊢
    cases hd : decodeHlc hlc with
    | error f => simp only [hd] at hok; cases hok
    | ok remote =>
      simp only [hd] at hok ⊢
      cases hr : (e.receiveClock remote).1 with
      | error f => simp only [hr, Except.mapError] at hok; cases hok
      | ok t => exact yields_clockSaving _

open Locked in
theorem yields_compact (e : SyncEngine) (opts : CompactionOptions) :
    Yields (Locked.compact opts) e (Request.reply cr e (.compact opts)) := by
  refine yields_reading (yields_reading (yields_reading (yields_winningTables
    (yields_reading ?_))))
  change Yields (if compactionDue e.storage opts then _ else _) e _
  unfold Request.reply SyncEngine.compact
  simp only
  split
  · rename_i hdue
    have hs : (compactStorage e.storage opts).1 = e.storage.compact
        ⟨(planCompaction e.storage.allOps (winningCells e.storage)
            (compactionHorizon e.storage.frontier e.storage.peerFrontiers) opts).opIds,
          (planCompaction e.storage.allOps (winningCells e.storage)
            (compactionHorizon e.storage.frontier e.storage.peerFrontiers) opts).cellKeys⟩ :=
      if_pos hdue
    rw [hs, Reply.map_map]
    exact yields_transact _ _
  · exact yields_settled _ _

/-- **A call alone** is the engine's function for it, when no read rejects. -/
theorem Request.alone_eq (cr : Crypto) (w : World) (hr : ∀ n, w.readFails n = false)
    (r : Request) : ∃ n, r.alone cr w = ({ w with
      engine := (r.reply cr w.engine).engine
      reads := n
      events := w.events ++ (r.reply cr w.engine).event.toList }, (r.reply cr w.engine).result) := by
  unfold Request.alone
  cases r with
  | insert table row values => exact yields_localWrite w.engine table row _ _ w rfl hr
  | update table row values => exact yields_localWrite w.engine table row _ _ w rfl hr
  | delete table row => exact yields_localWrite w.engine table row _ _ w rfl hr
  | applyRemoteOps remoteOps =>
    unfold Request.enter Request.reply SyncEngine.applyRemoteOps
    simp only
    cases w.engine.checkBatch cr remoteOps with
    | error err => exact Locked.yields_settled w.engine _ w rfl hr
    | ok ops => exact yields_mergeAdmitted w.engine ops w rfl hr
  | observeRemoteClock hlc => exact yields_observeRemoteClock w.engine hlc w rfl hr
  | compact opts => exact yields_compact w.engine opts w rfl hr

/-! ## The calls in order -/

/-- Calls that never wait for one another are the entries of the chain. -/
theorem sequentially_eq {e : SyncEngine} (rs : List Request) {w : World}
    (hw : w.engine.keys = e.keys) :
    sequentially cr w rs = sequential w (rs.map (Request.enter cr e)) := by
  induction rs generalizing w with
  | nil => rfl
  | cons r rs ih =>
    have henter : r.enter cr w.engine = r.enter cr e := r.enter_eq hw
    have hkeeps : (r.enter cr e).Keeps (Locked.SameKeys e.keys) := r.enter_keeps e
    rw [List.map_cons, sequentially]
    unfold Request.alone
    rw [henter]
    cases hr : r.enter cr e with
    | enter body =>
      rw [hr] at hkeeps
      simp only [sequential]
      rw [ih (Body.Keeps.run hkeeps hw)]
    | refuse outcome =>
      simp only [sequential]
      rw [ih hw]

namespace Overlap

/-- The actions of the chain, with the keys known from the start. -/
def toChain (cr : Crypto) (e : SyncEngine) : Action → PromiseChain.Action World Settlement
  | .call r => .call (r.enter cr e)
  | .go k => .go k

/-- No key is learned meanwhile. -/
theorem run_eq (e : SyncEngine) (acts : List Action) {c : Chain World Settlement}
    (hc : Kept (Locked.SameKeys e.keys) c) :
    Runs.run (step cr) c acts = Runs.run Chain.step c (acts.map (toChain cr e)) := by
  induction acts generalizing c with
  | nil => rfl
  | cons a acts ih =>
    have hstep : step cr c a = c.step (toChain cr e a) := by
      cases a with
      | call r =>
        change c.step (.call (r.enter cr c.state.engine)) = c.step (.call (r.enter cr e))
        rw [Request.enter_eq hc.state]
      | go k => rfl
    have hnext : Kept (Locked.SameKeys e.keys) (c.step (toChain cr e a)) := by
      cases a with
      | call r => exact hc.add (Request.enter_keeps e r)
      | go k => exact hc.go k
    rw [Runs.run_cons, List.map_cons, Runs.run_cons, hstep]
    exact ih hnext

theorem entries_toChain (e : SyncEngine) (acts : List Action) :
    PromiseChain.entries (acts.map (toChain cr e)) = (requests acts).map (Request.enter cr e) := by
  induction acts with
  | nil => rfl
  | cons a acts ih =>
    cases a with
    | call r => exact congrArg (r.enter cr e :: ·) ih
    | go k => exact ih

/-- **Overlapping calls take effect in the order they were made.** Whatever the
continuations do and whatever the store rejects: a call that has settled has the
outcome it has when the calls are made one after another, and when all have
settled so have the engine, its store and the change events. As long as one has
not, some continuation is ready, and each that runs leaves one less to run. -/
theorem overlapping_serialised (cr : Crypto) (e : SyncEngine) (readFails : Nat → Bool)
    (acts : List Action) :
    let c := Runs.run (step cr) (start e readFails) acts
    let ordered := sequentially cr (start e readFails).state (requests acts)
    (∀ (k : Nat) (call : PromiseChain.Call World Settlement) (o : Settlement), c.calls[k]? = some call →
      call.phase.result? = some o → ordered.2[k]? = some o) ∧
    (c.allSettled = true → c.state = ordered.1 ∧ c.results = ordered.2) ∧
    (c.allSettled = false → ∃ k, c.Enabled k) ∧
    ∀ k, c.Enabled k → (step cr c (.go k)).work + 1 = c.work := by
  have hkept : Kept (Locked.SameKeys e.keys) (start e readFails) :=
    ⟨rfl, fun call h => by cases h⟩
  have hserial : Serial (Runs.run (step cr) (start e readFails) acts) := by
    rw [run_eq e acts hkept]
    exact Serial.run _ _
  have hfinish : (Runs.run (step cr) (start e readFails) acts).finish =
      sequentially cr (start e readFails).state (requests acts) := by
    rw [run_eq e acts hkept, sequentially_eq (e := e) _ rfl, ← entries_toChain]
    exact finish_run _ _
  simp only
  generalize Runs.run (step cr) (start e readFails) acts = c at hserial hfinish
  rw [← hfinish]
  refine ⟨fun k call o hk ho => finish_result hk ho, fun h => ?_, fun h => ?_,
    fun k hk => hserial.work_go hk⟩
  · have hend := finish_allSettled h
    exact ⟨(congrArg Prod.fst hend).symm, (congrArg Prod.snd hend).symm⟩
  · apply hserial.ready
    obtain ⟨call, hm, hr⟩ := List.all_eq_false.1 h
    refine ⟨call, hm, ?_⟩
    cases hf : call.phase.final with
    | false => rfl
    | true => exact absurd (settled_of_final hf) hr

end Overlap

end TangentFeed
