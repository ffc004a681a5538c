import TangentFeed.Replica.Reads
import TangentFeed.Replica.Run

/-!
# Catching up

Two stores before and after each merged what the other's log held above its own
frontier. What is sent is read off the logs, while a frontier also remembers
operations that compactions removed: the frontiers become equal exactly when the
last operation of every device is still logged on the side that is ahead, and a
cell becomes equal exactly when a winner the other side lacks is above the other
side's frontier.
-/

namespace TangentFeed

open Lww

/-- The operations of `t` that `opsSince` of the frontier of `s` answers. -/
def toSend (t s : MemoryAdapter) : Set Op := {o | o ∈ t.log ∧ aboveFrontier o s.frontier = true}

/-- `s'` is `s`, with history `H`, after it merged what `t` had to send. -/
structure CaughtUp (s t s' : MemoryAdapter) (H : Set Op) : Prop where
  ledger : s'.Ledger (H ∪ toSend t s)
  log : s'.log = s.log ∪ toSend t s

/-- Every device's last operation, where `t` has not seen it, is in the log of `s`. -/
def LastLogged (s t : MemoryAdapter) : Prop :=
  ∀ d h : JsString, s.frontier[d]? = some h → t.frontier[d]?.getD zeroHlc < h →
    ∃ o ∈ s.log, o.device = d ∧ o.hlc = h

/-- The winner of `s` on a cell is above the frontier of `t` if `t` has none as late. -/
def Carried (s t : MemoryAdapter) (c : Cell) : Prop :=
  ∀ o, s.winner c = some o → (∀ p, t.winner c = some p → p.hlc < o.hlc) →
    aboveFrontier o t.frontier = true

/-- Winners of one timestamp are one operation. -/
def Agree (s t : MemoryAdapter) (c : Cell) : Prop :=
  ∀ o p, s.winner c = some o → t.winner c = some p → o.hlc = p.hlc → o = p

variable {s t s' t' : MemoryAdapter} {H K : Set Op}

theorem aboveFrontier_eq_true {o : Op} {f : Frontier} :
    aboveFrontier o f = true ↔ f[o.device]?.getD zeroHlc < o.hlc := by
  unfold aboveFrontier
  cases f[o.device]? with
  | none =>
    change true = true ↔ zeroHlc < o.hlc
    exact iff_of_true rfl (not_le.1 o.not_hlc_le_zeroHlc)
  | some h => exact decide_eq_true_iff

theorem zeroHlc_le (h : JsString) : zeroHlc ≤ h := not_lt.1 (List.not_lt_nil h)

/-- Nothing applied is above the frontier. -/
theorem MemoryAdapter.Ledger.hlc_le (h : s.Ledger H) {o : Op} (ho : o ∈ H) :
    o.hlc ≤ s.frontier[o.device]?.getD zeroHlc := by
  obtain ⟨f, hf, hle⟩ := h.le_frontier ho
  rw [hf]
  exact hle

/-- Frontiers of more operations are not behind. -/
theorem MemoryAdapter.Ledger.frontier_mono (h : s.Ledger H) (h' : s'.Ledger K) (hs : H ⊆ K)
    (d : JsString) : s.frontier[d]?.getD zeroHlc ≤ s'.frontier[d]?.getD zeroHlc := by
  cases hf : s.frontier[d]? with
  | none => exact zeroHlc_le _
  | some f =>
    obtain ⟨o, ho, rfl, rfl⟩ := h.frontier_mem hf
    exact h'.hlc_le (hs ho)

/-- What is offered after both caught up is nothing. -/
theorem CaughtUp.sendsNothing (h : CaughtUp s t s' H) (h' : CaughtUp t s t' K) (ht : t.Ledger K)
    {o : Op} (ho : o ∈ s'.log) : aboveFrontier o t'.frontier = false := by
  rw [← Bool.not_eq_true, aboveFrontier_eq_true, not_lt]
  have old : t.frontier[o.device]?.getD zeroHlc ≤ t'.frontier[o.device]?.getD zeroHlc :=
    ht.frontier_mono h'.ledger Set.subset_union_left _
  rw [h.log] at ho
  rcases ho with ho | ho
  · by_cases hab : aboveFrontier o t.frontier = true
    · exact h'.ledger.hlc_le (.inr ⟨ho, hab⟩)
    · rw [aboveFrontier_eq_true, not_lt] at hab
      exact le_trans hab old
  · exact le_trans (ht.hlc_le (ht.logged ho.1)) old

theorem toSend_eq_empty (ht : t.Keyed) (h : t.opsSince s.frontier = []) : toSend t s = ∅ := by
  rw [Set.eq_empty_iff_forall_notMem]
  intro o ho
  have hm := ht.mem_opsSince.2 ho
  rw [h] at hm
  cases hm

/-- Nothing is missing where nothing is sent. -/
theorem caughtUp_self (hs : s.Ledger H) (h : toSend t s = ∅) : CaughtUp s t s H := by
  constructor
  · rw [h, Set.union_empty]
    exact hs
  · rw [h, Set.union_empty]

/-- Recording a frontier leaves a store caught up. -/
theorem CaughtUp.setPeerFrontier (h : CaughtUp s t s' H) (peer : JsString) (f : Frontier) :
    CaughtUp s t (s'.setPeerFrontier peer f) H :=
  ⟨h.ledger.congr rfl rfl rfl, h.log⟩

/-- **Merging what a store has to send catches up.** -/
theorem SyncEngine.Consistent.caughtUp {cr : Crypto} {e : SyncEngine} (hc : e.Consistent cr H)
    (ht : t.Ledger K) {n : Nat}
    (hok : (e.applyRemoteOps cr ((t.opsSince e.frontier).map Op.raw)).result = .ok n) :
    CaughtUp e.storage t
      (e.applyRemoteOps cr ((t.opsSince e.frontier).map Op.raw)).engine.storage H := by
  obtain ⟨ops, hops, -, hev⟩ := applyRemoteOps_eq_ok hok
  obtain rfl := List.map_injective_iff.2 (fun _ _ => Op.ext) hops
  have heff := Effect.applyRemoteOps hc.identity ((t.opsSince e.frontier).map Op.raw)
  -- what is above the frontier is not in the log, so all of it is fresh
  have hfresh : eventOps (e.applyRemoteOps cr ((t.opsSince e.frontier).map Op.raw)).event =
      toSend t e.storage := by
    rw [hev]
    obtain ⟨-, hsub, hall⟩ := freshOps_spec e.storage (t.opsSince e.frontier)
    ext o
    constructor
    · intro ho
      exact ht.keyed.mem_opsSince.1 (hsub o ho)
    · intro ho
      have hm : o ∈ t.opsSince e.frontier := ht.keyed.mem_opsSince.2 ho
      obtain ⟨p, hp, hid⟩ := hall o hm (by
        rw [← Bool.not_eq_true, hc.ledger.keyed.hasOp_iff]
        rintro ⟨q, hq, hid⟩
        have hhlc : q.hlc = o.hlc := by rw [← q.id_eq_hlc, ← o.id_eq_hlc, hid]
        have hle := hc.ledger.hlc_le (hc.ledger.logged hq)
        rw [Op.device_eq_of_hlc hhlc, hhlc] at hle
        exact absurd (aboveFrontier_eq_true.1 ho.2) (not_lt.2 hle))
      rw [← MemoryAdapter.log_inj (ht.keyed.mem_opsSince.1 (hsub p hp)).1 ho.1 hid]
      exact hp
  constructor
  · have h := (hc.effect heff).ledger
    rw [hfresh] at h
    exact h
  · have h := hc.log_effect heff fun opts hd => by cases hd
    rw [hfresh] at h
    exact h

/-! ## Frontiers -/

/-- `t` is behind `s` on some device. -/
def Lags (t s : MemoryAdapter) : Prop :=
  ∃ d h : JsString, s.frontier[d]? = some h ∧ t.frontier[d]?.getD zeroHlc < h

/-- **Who still lags.** -/
theorem lags_iff (h : CaughtUp s t s' H) (h' : CaughtUp t s t' K) (hs : s.Ledger H)
    (ht : t.Ledger K) : Lags t' s' ↔ ¬ LastLogged s t := by
  have old : ∀ d, t.frontier[d]?.getD zeroHlc ≤ t'.frontier[d]?.getD zeroHlc :=
    fun d => ht.frontier_mono h'.ledger Set.subset_union_left d
  constructor
  · rintro ⟨d, f, hf, hlt⟩ hlast
    obtain ⟨q, hq, rfl, rfl⟩ := h.ledger.frontier_mem hf
    -- the last operation was not sent by `t`, so `s` had it
    have hq' : q ∈ H := by
      rcases hq with hq | hq
      · exact hq
      · exact absurd hlt (not_lt.2 (le_trans (ht.hlc_le (ht.logged hq.1)) (old _)))
    obtain ⟨g, hg, hle⟩ := hs.le_frontier hq'
    have hge : g ≤ q.hlc := by
      obtain ⟨p, hp, hd, rfl⟩ := hs.frontier_mem hg
      have hle' := h.ledger.hlc_le (o := p) (.inl hp)
      rw [hd, hf] at hle'
      exact hle'
    obtain rfl := le_antisymm hle hge
    obtain ⟨o, ho, hd, hh⟩ := hlast _ _ hg (lt_of_le_of_lt (old _) hlt)
    have hab : aboveFrontier o t.frontier = true := by
      rw [aboveFrontier_eq_true, hd, hh]
      exact lt_of_le_of_lt (old _) hlt
    have hle' := h'.ledger.hlc_le (o := o) (.inr ⟨ho, hab⟩)
    rw [hd, hh] at hle'
    exact absurd hlt (not_lt.2 hle')
  · intro hn
    unfold LastLogged at hn
    push Not at hn
    obtain ⟨d, f, hf, hlt, hno⟩ := hn
    obtain ⟨q, hq, rfl, rfl⟩ := hs.frontier_mem hf
    obtain ⟨f', hf', hle⟩ := h.ledger.le_frontier (o := q) (.inl hq)
    refine ⟨q.device, f', hf', lt_of_lt_of_le ?_ hle⟩
    cases hg : t'.frontier[q.device]? with
    | none => exact lt_of_le_of_lt (zeroHlc_le _) hlt
    | some g =>
      obtain ⟨p, hp, hd, rfl⟩ := h'.ledger.frontier_mem hg
      rcases hp with hp | hp
      · have hle' := ht.hlc_le hp
        rw [hd] at hle'
        exact lt_of_le_of_lt hle' hlt
      · have hle' := hs.hlc_le (hs.logged hp.1)
        rw [hd, hf] at hle'
        exact lt_of_le_of_ne hle' (hno p hp.1 hd)

/-- Frontiers are equal when neither side lags. -/
theorem frontier_eq_iff_not_lags (hs : s.Ledger H) (ht : t.Ledger K) :
    s.frontier = t.frontier ↔ ¬ Lags t s ∧ ¬ Lags s t := by
  constructor
  · intro he
    unfold Lags
    rw [he]
    have : ∀ d h : JsString, t.frontier[d]? = some h → ¬ t.frontier[d]?.getD zeroHlc < h := by
      intro d h hf
      rw [hf]
      exact lt_irrefl _
    exact ⟨fun ⟨d, h, hf, hlt⟩ => this d h hf hlt, fun ⟨d, h, hf, hlt⟩ => this d h hf hlt⟩
  · rintro ⟨h1, h2⟩
    have side {s t : MemoryAdapter} {H : Set Op} (hs : s.Ledger H) (hn : ¬ Lags t s)
        {d h : JsString} (hf : s.frontier[d]? = some h) :
        ∃ g, t.frontier[d]? = some g ∧ h ≤ g := by
      have hle : h ≤ t.frontier[d]?.getD zeroHlc := not_lt.1 fun hlt => hn ⟨d, h, hf, hlt⟩
      cases hg : t.frontier[d]? with
      | none =>
        rw [hg] at hle
        obtain ⟨o, -, -, rfl⟩ := hs.frontier_mem hf
        exact absurd hle o.not_hlc_le_zeroHlc
      | some g =>
        rw [hg] at hle
        exact ⟨g, rfl, hle⟩
    apply Std.ExtTreeMap.ext_getElem?
    intro d
    cases hf : s.frontier[d]? with
    | none =>
      cases hg : t.frontier[d]? with
      | none => rfl
      | some g =>
        obtain ⟨f, hf', -⟩ := side ht h2 hg
        rw [hf] at hf'
        cases hf'
    | some f =>
      obtain ⟨g, hg, hle⟩ := side hs h1 hf
      obtain ⟨f', hf', hge⟩ := side ht h2 hg
      rw [hf] at hf'
      rw [hg, le_antisymm hle ((Option.some.inj hf').symm ▸ hge)]

/-! ## Cells -/

/-- The winner of a cell is what its log says. -/
theorem MemoryAdapter.Ledger.winner_eq (h : s.Ledger H) {c : Cell} {o : Op} (ho : o ∈ s.log)
    (hc : o.cell = c) (hle : ∀ p ∈ s.log, p.cell = c → p.hlc ≤ o.hlc) : s.winner c = some o := by
  refine (h.cells.eq_some_iff ?_).2 ⟨⟨o, ho, hc, rfl⟩, hle⟩
  intro p hp q hq _ hpq
  have he : p.id = q.id := by
    rw [p.id_eq_hlc, q.id_eq_hlc]
    exact hpq
  exact MemoryAdapter.log_inj hp hq he

/-- The winner is logged, on its cell and the latest there. -/
theorem MemoryAdapter.Ledger.of_winner (h : s.Ledger H) {c : Cell} {o : Op}
    (ho : s.winner c = some o) :
    o ∈ s.log ∧ o.cell = c ∧ ∀ p ∈ s.log, p.cell = c → p.hlc ≤ o.hlc :=
  ⟨h.winnersLogged ho, h.keyed.cells ho, (h.cells.best ho).le⟩

/-- A cell without a winner has no operation. -/
theorem MemoryAdapter.Ledger.of_no_winner (h : s.Ledger H) {c : Cell} (hn : s.winner c = none) :
    ∀ p ∈ s.log, p.cell ≠ c := by
  rintro p hp rfl
  obtain ⟨w, hw⟩ := h.cells.total p hp
  have hw' : s.winner p.cell = some w := hw
  rw [hn] at hw'
  cases hw'

/-- A winner stays unless something later on its cell is sent. -/
theorem CaughtUp.winner_of_latest (h : CaughtUp s t s' H) {c : Cell} {o : Op} (ho : o ∈ s'.log)
    (hc : o.cell = c) (hs : ∀ p ∈ s.log, p.cell = c → p.hlc ≤ o.hlc)
    (ht : ∀ p ∈ t.log, p.cell = c → p.hlc ≤ o.hlc) : s'.winner c = some o := by
  refine h.ledger.winner_eq ho hc fun p hp hpc => ?_
  rw [h.log] at hp
  rcases hp with hp | hp
  · exact hs p hp hpc
  · exact ht p hp.1 hpc

/-- If winners are carried the greater of the two wins on both sides. -/
theorem winner_eq_of_carried (h : CaughtUp s t s' H) (h' : CaughtUp t s t' K) (hs : s.Ledger H)
    (ht : t.Ledger K) {c : Cell} (hst : Carried s t c) (hts : Carried t s c) (ha : Agree s t c) :
    s'.winner c = t'.winner c := by
  -- a winner that the other side has nothing as late as is sent, and wins on both sides
  have win {s t s' t' : MemoryAdapter} {H K : Set Op} (h : CaughtUp s t s' H)
      (h' : CaughtUp t s t' K) (hs : s.Ledger H) (ht : t.Ledger K) (hst : Carried s t c) {o : Op}
      (ho : s.winner c = some o) (hlt : ∀ p, t.winner c = some p → p.hlc < o.hlc) :
      s'.winner c = t'.winner c := by
    obtain ⟨hlog, hc, hle⟩ := hs.of_winner ho
    have hle' : ∀ p ∈ t.log, p.cell = c → p.hlc ≤ o.hlc := by
      rintro p hp rfl
      obtain ⟨w, hw⟩ := ht.cells.total p hp
      exact le_trans ((ht.of_winner hw).2.2 p hp rfl) (le_of_lt (hlt w hw))
    rw [h.winner_of_latest (by rw [h.log]; exact .inl hlog) hc hle hle',
      h'.winner_of_latest (by rw [h'.log]; exact .inr ⟨hlog, hst o ho hlt⟩) hc hle' hle]
  cases ho : s.winner c with
  | none =>
    cases hp : t.winner c with
    | none =>
      have none_of {s t s' : MemoryAdapter} {H K : Set Op} (h : CaughtUp s t s' H)
          (hs : s.Ledger H) (ht : t.Ledger K) (ho : s.winner c = none) (hp : t.winner c = none) :
          s'.winner c = none := by
        rw [Option.eq_none_iff_forall_ne_some]
        intro o ho'
        obtain ⟨hlog, hc, -⟩ := h.ledger.of_winner ho'
        rw [h.log] at hlog
        rcases hlog with hlog | hlog
        · exact hs.of_no_winner ho o hlog hc
        · exact ht.of_no_winner hp o hlog.1 hc
      rw [none_of h hs ht ho hp, none_of h' ht hs hp ho]
    | some p =>
      exact (win h' h ht hs hts hp fun q hq => by rw [ho] at hq; cases hq).symm
  | some o =>
    cases hp : t.winner c with
    | none => exact win h h' hs ht hst ho fun q hq => by rw [hp] at hq; cases hq
    | some p =>
      rcases lt_trichotomy o.hlc p.hlc with hlt | he | hlt
      · exact (win h' h ht hs hts hp fun q hq => by rw [ho] at hq; cases hq; exact hlt).symm
      · obtain rfl := ha o p ho hp he
        obtain ⟨hlog, hc, hle⟩ := hs.of_winner ho
        obtain ⟨hlog', -, hle'⟩ := ht.of_winner hp
        rw [h.winner_of_latest (by rw [h.log]; exact .inl hlog) hc hle hle',
          h'.winner_of_latest (by rw [h'.log]; exact .inl hlog') hc hle' hle]
      · exact win h h' hs ht hst ho fun q hq => by rw [hp] at hq; cases hq; exact hlt

/-- If a winner is missing on the other side and not carried, the cells differ. -/
theorem CaughtUp.carried (h : CaughtUp s t s' H) (h' : CaughtUp t s t' K) (hs : s.Ledger H)
    (ht : t.Ledger K) {c : Cell} (he : s'.winner c = t'.winner c) : Carried s t c := by
  intro o ho hlt
  obtain ⟨hlog, hc, hle⟩ := hs.of_winner ho
  obtain ⟨m, hm⟩ := h.ledger.cells.total o (by rw [h.log]; exact .inl hlog)
  have hm' : s'.winner c = some m := by rw [← hc]; exact hm
  have hom : o.hlc ≤ m.hlc := (h.ledger.of_winner hm').2.2 o (by rw [h.log]; exact .inl hlog) hc
  rw [he] at hm'
  obtain ⟨hmlog, hmc, -⟩ := h'.ledger.of_winner hm'
  rw [h'.log] at hmlog
  rcases hmlog with hmlog | hmlog
  · obtain ⟨p, hp⟩ := ht.cells.total m hmlog
    have hp' : t.winner c = some p := by rw [← hmc]; exact hp
    have hmp := (ht.of_winner hp').2.2 m hmlog hmc
    exact absurd (hlt p hp') (not_lt.2 (le_trans hom hmp))
  · have heq : m.id = o.id := by
      rw [m.id_eq_hlc, o.id_eq_hlc]
      exact le_antisymm (hle m hmlog.1 hmc) hom
    rw [← MemoryAdapter.log_inj hmlog.1 hlog heq]
    exact hmlog.2

theorem CaughtUp.agree (h : CaughtUp s t s' H) (h' : CaughtUp t s t' K) (hs : s.Ledger H)
    (ht : t.Ledger K) {c : Cell} (he : s'.winner c = t'.winner c) : Agree s t c := by
  intro o p ho hp hop
  obtain ⟨hlog, hc, hle⟩ := hs.of_winner ho
  obtain ⟨hlog', hc', hle'⟩ := ht.of_winner hp
  have h1 : s'.winner c = some o := h.winner_of_latest (by rw [h.log]; exact .inl hlog) hc hle
    (by rw [hop]; exact hle')
  have h2 : t'.winner c = some p := h'.winner_of_latest (by rw [h'.log]; exact .inl hlog') hc' hle'
    (by rw [← hop]; exact hle)
  rw [h1, h2] at he
  exact Option.some.inj he

/-- **Exactly which cells are level.** -/
theorem winner_eq_iff (h : CaughtUp s t s' H) (h' : CaughtUp t s t' K) (hs : s.Ledger H)
    (ht : t.Ledger K) {c : Cell} :
    s'.winner c = t'.winner c ↔ Carried s t c ∧ Carried t s c ∧ Agree s t c := by
  constructor
  · intro he
    exact ⟨h.carried h' hs ht he, h'.carried h ht hs he.symm, h.agree h' hs ht he⟩
  · rintro ⟨hst, hts, ha⟩
    exact winner_eq_of_carried h h' hs ht hst hts ha

/-! ## Rows -/

/-- A row that reads do not return: it has no cells or a tombstone. -/
def Hidden (s : MemoryAdapter) (r : RowKey) : Prop :=
  (∀ column, s.winner (r.1, r.2, column) = none) ∨
    ∃ o, s.winner (r.1, r.2, tombstoneColumn) = some o ∧ o.value.isTrue = true

/-- Nothing of a row is to be sent from `t` to `s`. -/
def Still (t s : MemoryAdapter) (r : RowKey) : Prop := ∀ o ∈ toSend t s, o.rowKey ≠ r

/-- A row that becomes level: its winners are carried, or both sides hide it
already and nothing of it is sent. -/
def LevelRow (s t : MemoryAdapter) (r : RowKey) : Prop :=
  (∀ column, Carried s t (r.1, r.2, column) ∧ Carried t s (r.1, r.2, column) ∧
      Agree s t (r.1, r.2, column)) ∨
    Hidden s r ∧ Hidden t r ∧ Still t s r ∧ Still s t r

theorem CaughtUp.winner_of_still (h : CaughtUp s t s' H) (hs : s.Ledger H) {r : RowKey}
    (hr : Still t s r) (column : JsString) :
    s'.winner (r.1, r.2, column) = s.winner (r.1, r.2, column) := by
  apply Option.ext
  intro o
  constructor
  · intro ho
    obtain ⟨hlog, hc, hle⟩ := h.ledger.of_winner ho
    rw [h.log] at hlog
    rcases hlog with hlog | hlog
    · exact hs.winner_eq hlog hc fun p hp hpc => hle p (by rw [h.log]; exact .inl hp) hpc
    · exact absurd (Prod.ext (congrArg (·.1) hc) (congrArg (·.2.1) hc)) (hr o hlog)
  · intro ho
    obtain ⟨hlog, hc, hle⟩ := hs.of_winner ho
    refine h.ledger.winner_eq (by rw [h.log]; exact .inl hlog) hc fun p hp hpc => ?_
    rw [h.log] at hp
    rcases hp with hp | hp
    · exact hle p hp hpc
    · exact absurd (Prod.ext (congrArg (·.1) hpc) (congrArg (·.2.1) hpc)) (hr p hp)

theorem CaughtUp.hidden (h : CaughtUp s t s' H) (hs : s.Ledger H) {r : RowKey}
    (hr : Still t s r) (hh : Hidden s r) : Hidden s' r := by
  rcases hh with hh | ⟨o, ho, ht⟩
  · left
    intro column
    rw [h.winner_of_still hs hr, hh]
  · right
    exact ⟨o, by rw [h.winner_of_still hs hr, ho], ht⟩

open SyncEngine in
/-- A hidden row is not returned. -/
theorem Hidden.get {e : SyncEngine} (hk : e.storage.Keyed) {r : RowKey} (h : Hidden e.storage r) :
    e.get r.1 r.2 = some none := by
  rcases h with h | ⟨o, ho, ht⟩
  · exact get_of_no_winners hk h
  · exact get_of_tombstone ho ht

open SyncEngine in
/-- **Level rows read the same.** -/
theorem get_eq_of_levelRow {e e' : SyncEngine} (h : CaughtUp s t e.storage H)
    (h' : CaughtUp t s e'.storage K) (hs : s.Ledger H) (ht : t.Ledger K)
    (hc : e.cipher = e'.cipher) {r : RowKey} (hr : LevelRow s t r) :
    e.get r.1 r.2 = e'.get r.1 r.2 := by
  rcases hr with hr | ⟨h1, h2, h3, h4⟩
  · exact get_of_winners h.ledger.keyed h'.ledger.keyed hc fun column =>
      (winner_eq_iff h h' hs ht).2 (hr column)
  · rw [(h.hidden hs h3 h1).get h.ledger.keyed, (h'.hidden ht h4 h2).get h'.ledger.keyed]

end TangentFeed
