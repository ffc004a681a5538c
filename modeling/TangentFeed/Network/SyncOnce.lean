import TangentFeed.Network.Coverage

/-!
# Calls of `syncOnce`

What a call of `syncOnce` has achieved when it waits, and when it completes. The
operations of `A k i` are those the `k`-th call is to take from replica `i`; it
offers them in a batch without gaps (`Offered`), and once the batch is merged
the other side is `Informed` of them.
-/

namespace TangentFeed.Config

open AntiEntropy SyncEngine

variable {C : Covering} {cr : Crypto} {ι : Type} [DecidableEq ι] {d : Deployment cr ι}
  {space : JsString} {w w' : Config ι} {a : Action ι} {i j x y : ι} {k : Nat} {r : Reply Unit}
  {A A' : Set Op} {B : List Op}

/-! ## Numbers -/

/-- Calls are numbered as they start. -/
structure Numbered (w : Config ι) : Prop where
  waiting : ∀ {k : Nat} {s : Sync ι}, w.syncs[k]? = some s →
    k < w.nextSync ∧ .syncing k s.a s.b ∈ w.trace
  started : ∀ {k : Nat} {x y : ι}, .syncing k x y ∈ w.trace → k < w.nextSync
  ended : ∀ {k : Nat}, .synced k ∈ w.trace → k < w.nextSync
  unique : ∀ {k : Nat} {x y x' y' : ι}, .syncing k x y ∈ w.trace → .syncing k x' y' ∈ w.trace →
    x = x' ∧ y = y'

/-- The start of a call is on record already, or the call starts now. -/
theorem Shape.syncing (hs : Shape cr space w a w') (h : .syncing k x y ∈ w'.trace) :
    .syncing k x y ∈ w.trace ∨ Started w a w' k x y := by
  obtain ⟨l, hl, he⟩ := hs.trace
  rw [hl] at h
  rcases List.mem_append.1 h with h | h
  · exact .inl h
  · cases he _ h with
    | syncing hst => exact .inr hst

/-- The end of a call is on record already, or the call completes now. -/
theorem Shape.synced (hs : Shape cr space w a w') (h : .synced k ∈ w'.trace) :
    .synced k ∈ w.trace ∨ ∃ s i r, Synced cr space w a w' k s none i r := by
  obtain ⟨l, hl, he⟩ := hs.trace
  rw [hl] at h
  rcases List.mem_append.1 h with h | h
  · exact .inl h
  · cases he _ h with
    | synced hy => exact .inr ⟨_, _, _, hy⟩

theorem Numbered.step (hn : Numbered w) (hs : Shape cr space w a w') : Numbered w' where
  waiting := by
    intro k s hk
    rcases hs.syncs hk with hk | ⟨x, y, hst, rfl⟩ | ⟨s₀, st, i, r, hy, rfl⟩
    · exact ⟨Nat.lt_of_lt_of_le (hn.waiting hk).1 hs.nextSync_le, hs.mono _ (hn.waiting hk).2⟩
    · refine ⟨by rw [hst.number, hst.next]; exact Nat.lt_succ_self _, ?_⟩
      rw [hst.noted]
      exact List.mem_append_right _ (List.mem_singleton_self _)
    · have h := hn.waiting hy.stage
      exact ⟨Nat.lt_of_lt_of_le h.1 hs.nextSync_le, hs.mono _ h.2⟩
  started := by
    intro k x y h
    rcases hs.syncing h with h | hst
    · exact Nat.lt_of_lt_of_le (hn.started h) hs.nextSync_le
    · rw [hst.number, hst.next]
      exact Nat.lt_succ_self _
  ended := by
    intro k h
    refine Nat.lt_of_lt_of_le ?_ hs.nextSync_le
    rcases hs.synced h with h | ⟨_, _, _, hy⟩
    · exact hn.ended h
    · exact (hn.waiting hy.stage).1
  unique := by
    intro k x y x' y' h h'
    rcases hs.syncing h with h | hst
    · rcases hs.syncing h' with h' | hst'
      · exact hn.unique h h'
      · exact absurd (hn.started h) (by rw [hst'.number]; exact Nat.lt_irrefl _)
    · rcases hs.syncing h' with h' | hst'
      · exact absurd (hn.started h') (by rw [hst.number]; exact Nat.lt_irrefl _)
      · cases hst.action.symm.trans hst'.action
        exact ⟨rfl, rfl⟩

omit [DecidableEq ι] in
theorem Numbered.initial (d : Deployment cr ι) : Numbered d.initial where
  waiting hk := by
    have hk' : (∅ : Std.ExtTreeMap Nat (Sync ι) compare)[_]? = _ := hk
    rw [Std.ExtTreeMap.getElem?_empty] at hk'
    cases hk'
  started h := by cases h
  ended h := by cases h
  unique h := by cases h

/-! ## What is offered -/

/-- Replica `j` knows all of `A`. -/
def Informed (C : Covering) (t : List (Event ι)) (A : Set Op) (j : ι) : Prop :=
  ∀ o ∈ A, Knows C.feed (TangentFeed.applied t j) o

/-- The batch leaves no gap at replica `j`, and with it `j` knows all of `A`. -/
structure Offered (C : Covering) (t : List (Event ι)) (A : Set Op) (j : ι) (B : List Op) : Prop where
  issued : ∀ o ∈ B, o ∈ TangentFeed.issued t
  closed : Closed C.feed (TangentFeed.issued t) (TangentFeed.applied t j) {o | o ∈ B}
  covers : ∀ o ∈ A, Knows C.feed (TangentFeed.applied t j ∪ {o | o ∈ B}) o

omit [DecidableEq ι] in
theorem Informed.mono {t t' : List (Event ι)} (h : Informed C t A j)
    (ht : TangentFeed.applied t j ⊆ TangentFeed.applied t' j) : Informed C t' A j :=
  fun o ho => (h o ho).mono ht

theorem Offered.step (h : Offered C w.trace A j B) (hd : Sane d w) (hs : Shape cr space w a w') :
    Offered C w'.trace A j B where
  issued o ho := hs.issued_mono (h.issued o ho)
  closed := hd.closed_step hs h.issued h.closed
  covers o ho := (h.covers o ho).mono (Set.union_subset_union_left _ (hs.applied_mono j))

omit [DecidableEq ι] in
/-- Offering nothing is enough for whom is informed. -/
theorem Offered.informed (h : Offered C w.trace A j []) : Informed C w.trace A j := by
  intro o ho
  have e : TangentFeed.applied w.trace j ∪ {o | o ∈ ([] : List Op)} =
      TangentFeed.applied w.trace j := by simp
  rw [← e]
  exact h.covers o ho

omit [DecidableEq ι] in
/-- Merging what was offered informs. -/
theorem Offered.merged (h : Offered C w.trace A j B)
    (happ : TangentFeed.applied w'.trace j = TangentFeed.applied w.trace j ∪ {o | o ∈ B}) :
    Informed C w'.trace A j := by
  intro o ho
  rw [happ]
  exact h.covers o ho

omit [DecidableEq ι] in
/-- **`opsSince` offers all its replica applied.** -/
theorem Sane.offers (hd : Sane d w) (hk : Knowing C w) (hans : Answerable C w) {f : Frontier}
    (hf : Witnessed (TangentFeed.applied w.trace j) f) (hA : A ⊆ TangentFeed.applied w.trace i) :
    Offered C w.trace A j ((w.node i).engine.opsSince f) := by
  obtain ⟨hclosed, hcovers⟩ := hd.answer (j := i) hk hans hf
  have hl := (hd.base.consistent i).ledger
  exact ⟨fun o ho => hd.issued i (hl.logged (hl.keyed.mem_opsSince.1 ho).1), hclosed,
    fun o ho => hcovers o (hA ho)⟩

omit [DecidableEq ι] in
/-- An accepted call merges its whole batch. -/
theorem Sane.merged_of_ok (hd : Sane d w) {ops : List Op}
    (he : Evolves cr space w a w' j
      (((w.node j).engine.applyRemoteOps cr (ops.map Op.raw)).map fun _ => ()))
    (hok : (((w.node j).engine.applyRemoteOps cr (ops.map Op.raw)).map fun _ => ()).result = .ok ())
    (hops : ∀ o ∈ ops, o ∈ TangentFeed.issued w.trace) :
    TangentFeed.applied w'.trace j = TangentFeed.applied w.trace j ∪ {o | o ∈ ops} := by
  refine hd.merged he hops ?_
  change eventOps ((w.node j).engine.applyRemoteOps cr (ops.map Op.raw)).event = _
  cases hr : ((w.node j).engine.applyRemoteOps cr (ops.map Op.raw)).result with
  | error err =>
    have e : (Except.error err : Except JsError Unit) = .ok () := by
      rw [← hok]
      change _ = ((w.node j).engine.applyRemoteOps cr (ops.map Op.raw)).result.map _
      rw [hr]
      rfl
    cases e
  | ok n =>
    obtain ⟨ops', hops', -, hev⟩ := applyRemoteOps_eq_ok hr
    obtain rfl := List.map_injective_iff.2 (fun _ _ => Op.ext) hops'
    exact hev

/-! ## Stages -/

/-- What `syncOnce(a, b)` has achieved at a stage. -/
def Progress (C : Covering) (t : List (Event ι)) (A : ι → Set Op) (a b : ι) : SyncStage → Prop
  | .readFrontier _ | .readA _ _ => True
  | .readB _ aToB => Offered C t (A a) b aToB
  | .applyB aToB bToA => Offered C t (A a) b aToB ∧ Offered C t (A b) a bToA
  | .applyA bToA => Informed C t (A a) b ∧ Offered C t (A b) a bToA
  | .ackB | .recordA _ | .ackA | .recordB _ => Informed C t (A a) b ∧ Informed C t (A b) a

theorem Progress.step {A : ι → Set Op} {b b' : ι} {s : SyncStage}
    (h : Progress C w.trace A b b' s) (hd : Sane d w) (hs : Shape cr space w a w') :
    Progress C w'.trace A b b' s := by
  have mono {A : Set Op} {j : ι} (h : Informed C w.trace A j) : Informed C w'.trace A j :=
    h.mono (hs.applied_mono j)
  cases s with
  | readFrontier | readA => trivial
  | readB fa aToB => exact Offered.step h hd hs
  | applyB aToB bToA => exact ⟨h.1.step hd hs, h.2.step hd hs⟩
  | applyA bToA => exact ⟨mono h.1, h.2.step hd hs⟩
  | ackB | recordA | ackA | recordB => exact ⟨mono h.1, mono h.2⟩

omit [DecidableEq ι] in
/-- A call that is to take over less has achieved it too. -/
theorem Progress.anti {t : List (Event ι)} {A A' : ι → Set Op} {b b' : ι} {s : SyncStage}
    (h : Progress C t A b b' s) (hA : ∀ i, A' i ⊆ A i) : Progress C t A' b b' s := by
  have offered {i j : ι} {B : List Op} (h : Offered C t (A i) j B) : Offered C t (A' i) j B :=
    ⟨h.issued, h.closed, fun o ho => h.covers o (hA i ho)⟩
  have informed {i j : ι} (h : Informed C t (A i) j) : Informed C t (A' i) j :=
    fun o ho => h o (hA i ho)
  cases s with
  | readFrontier | readA => trivial
  | readB fa aToB => exact offered h
  | applyB aToB bToA => exact ⟨offered h.1, offered h.2⟩
  | applyA bToA => exact ⟨informed h.1, offered h.2⟩
  | ackB | recordA | ackA | recordB => exact ⟨informed h.1, informed h.2⟩

/-- Where all calls of `syncOnce` are. -/
structure Syncing (C : Covering) (A : Nat → ι → Set Op) (w : Config ι) : Prop where
  numbered : Numbered w
  held : ∀ k i, A k i ⊆ TangentFeed.applied w.trace i
  stage : ∀ {k : Nat} {s : Sync ι}, w.syncs[k]? = some s → Progress C w.trace (A k) s.a s.b s.stage
  done : ∀ {k : Nat} {x y : ι}, .synced k ∈ w.trace → .syncing k x y ∈ w.trace →
    Informed C w.trace (A k x) y ∧ Informed C w.trace (A k y) x

/-- **A stretch of `syncOnce` achieves what the next stage says.** -/
theorem Syncing.synced {A : Nat → ι → Set Op} (h : Syncing C A w) (hd : Sane d w)
    (hk : Knowing C w) (hans : Answerable C w) (hs : Shape cr space w a w') {s : Sync ι}
    {next : Option SyncStage} (hy : Synced cr space w a w' k s next i r) :
    Progress C w'.trace (A k) s.a s.b (next.getD .ackB) := by
  have hst := h.stage hy.stage
  have hsane := hd.sync hy.stage
  have mono {A : Set Op} {j : ι} (h : Informed C w.trace A j) : Informed C w'.trace A j :=
    h.mono (hs.applied_mono j)
  have he := hy.evolves
  have hok := hy.ok
  cases hy.turn with
  | readFrontier => trivial
  | readA => exact (hd.offers hk hans hsane.2 (h.held k _)).step hd hs
  | readB => exact ⟨hst.step hd hs, (hd.offers hk hans hsane.1 (h.held k _)).step hd hs⟩
  | skipB => exact ⟨mono hst.1.informed, hst.2.step hd hs⟩
  | applyB => exact ⟨hst.1.merged (hd.merged_of_ok he hok hst.1.issued), hst.2.step hd hs⟩
  | skipA => exact ⟨mono hst.1, mono hst.2.informed⟩
  | applyA => exact ⟨mono hst.1, hst.2.merged (hd.merged_of_ok he hok hst.2.issued)⟩
  | ackB | recordA | ackA | recordB => exact ⟨mono hst.1, mono hst.2⟩

/-- **Every honest step without gaps keeps it.** -/
theorem Syncing.step {A : Nat → ι → Set Op} (h : Syncing C A w) (hd : Sane d w)
    (hk : Knowing C w) (hans : Answerable C w) (hs : Shape cr space w a w') : Syncing C A w' where
  numbered := h.numbered.step hs
  held k i := (h.held k i).trans (hs.applied_mono i)
  stage := by
    intro k s hw
    rcases hs.syncs hw with hw | ⟨x, y, -, rfl⟩ | ⟨s₀, st, i, r, hy, rfl⟩
    · exact (h.stage hw).step hd hs
    · trivial
    · exact h.synced hd hk hans hs hy
  done := by
    intro k x y hend hstart
    rcases hs.synced hend with hold | ⟨s, i, r, hy⟩
    · rcases hs.syncing hstart with hstart | hst
      · exact (h.done hold hstart).imp (·.mono (hs.applied_mono y)) (·.mono (hs.applied_mono x))
      · exact absurd (h.numbered.ended hold) (by rw [hst.number]; exact Nat.lt_irrefl _)
    · have hend' := h.synced hd hk hans hs hy
      obtain ⟨hx, hy'⟩ := (h.numbered.step hs).unique hstart
        (hs.mono _ (h.numbered.waiting hy.stage).2)
      rw [hx, hy']
      exact hend'

omit [DecidableEq ι] in
theorem Syncing.initial (C : Covering) (d : Deployment cr ι) :
    Syncing C (fun _ _ => ∅) d.initial where
  numbered := Numbered.initial d
  held _ _ := Set.empty_subset _
  stage hk := by
    have hk' : (∅ : Std.ExtTreeMap Nat (Sync ι) compare)[_]? = _ := hk
    rw [Std.ExtTreeMap.getElem?_empty] at hk'
    cases hk'
  done h := by cases h

end TangentFeed.Config
