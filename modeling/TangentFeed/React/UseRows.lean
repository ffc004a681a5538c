import TangentFeed.Replica.Told

/-!
# The rows that `useRows` holds

The effect of the hook reads the table when it runs and again whenever an event
names the table; nothing orders the reads, and each sets the rows when it is
done. When every read is done the rows are those of the table, as long as the
reads end in the order in which they began (`rows_settled`).
-/

namespace TangentFeed

open SyncEngine

variable {cr : Crypto}

/-! ## The hook -/

/-- A `list(table)` that a run of the effect began, when the engine had left `began` states
behind. -/
structure Read where
  effect : Nat
  table : JsString
  began : Nat
  ended : Bool

/-- A run of the effect that is not cleaned up; `callback` is what it subscribed. -/
structure Live where
  effect : Nat
  table : JsString
  callback : SubscriberId

/-- The hook and the engine of its space. `past` is every state the engine had before, `reads`
the reads in the order they began and `shown` the one whose rows are held. -/
structure UseRows where
  engine : SyncEngine
  past : List SyncEngine
  effects : Nat
  live : Option Live
  reads : List Read
  rows : List RowData
  loading : Bool
  shown : Option Nat

namespace UseRows

def start (engine : SyncEngine) : UseRows := ⟨engine, [], 0, none, [], [], true, none⟩

inductive Action where
  /-- A call of the engine. -/
  | call (c : Call)
  /-- The effect runs, with a space and a table or without a space; its callback is new. -/
  | render (table : Option JsString) (callback : SubscriberId)
  | unmount
  /-- The `k`-th read is done; it read the `i`-th state of the engine. -/
  | done (k i : Nat)

/-- The states of the engine so far. -/
def states (w : UseRows) : List SyncEngine := w.past ++ [w.engine]

def advance (w : UseRows) (engine : SyncEngine) : UseRows :=
  { w with engine := engine, past := w.states }

/-- `void refresh()`, up to the await. -/
def refresh (w : UseRows) (live : Live) : UseRows :=
  { w with reads := w.reads ++ [⟨live.effect, live.table, w.past.length, false⟩] }

/-- What the effect returned. -/
def cleanup (w : UseRows) : UseRows :=
  match w.live with
  | none => w
  | some live => { w.advance (w.engine.unsubscribe live.callback) with live := none }

def mount (w : UseRows) (live : Live) : UseRows :=
  { w with live := some live, effects := w.effects + 1 }

/-- The effect, with a space. -/
def effect (w : UseRows) (table : JsString) (callback : SubscriberId) : UseRows :=
  let live : Live := ⟨w.effects, table, callback⟩
  ((w.mount live).refresh live).advance (w.engine.subscribe ⟨callback, fun _ => false⟩)

/-- The callback the effect subscribed: it is called, and the table changed. -/
def told (w : UseRows) (r : Reply Unit) : Option Live :=
  match w.live, r.event with
  | some live, some event =>
    if live.callback ∈ r.received ∧ event.touches live.table = true then some live else none
  | _, _ => none

def mark (w : UseRows) (k : Nat) (read : Read) : UseRows :=
  { w with reads := w.reads.set k { read with ended := true } }

/-- The rest of `refresh`, if the read resolves and its run of the effect is live. -/
def setRows (w : UseRows) (k : Nat) (read : Read) (result : Option (List RowData)) : UseRows :=
  match w.live, result with
  | some live, some next =>
    if live.effect = read.effect then { w with rows := next, loading := false, shown := some k }
    else w
  | _, _ => w

/-- The call deletes the callback of the effect, which only the effect has. -/
def deletes (w : UseRows) : Call → Bool
  | .unsubscribe id => w.live.any fun live => live.callback == id
  | _ => false

/-- A callback that is subscribed already is not new. -/
def step (cr : Crypto) (w : UseRows) : Action → UseRows
  | .call c =>
    if w.deletes c then w
    else
      let r := c.run cr w.engine
      match w.told r with
      | none => w.advance r.engine
      | some live => (w.advance r.engine).refresh live
  | .render none _ => { w.cleanup with rows := [], loading := true, shown := none }
  | .render (some table) callback =>
    if w.cleanup.engine.subscribers.any (·.id == callback) then w
    else w.cleanup.effect table callback
  | .unmount => w.cleanup
  | .done k i =>
    match w.reads[k]?, w.states[i]? with
    | some read, some state =>
      if read.ended ∨ i < read.began then w
      else (w.mark k read).setRows k read (state.list read.table)
    | _, _ => w

/-! ## Rest -/

/-- When every read of the live effect is done, the rows are those of the table; and no read
that began earlier has set the rows after one that began later. -/
structure Settled (w : UseRows) : Prop where
  current : ∀ live, w.live = some live →
    (∀ read ∈ w.reads, read.effect = live.effect → read.ended = true) →
      w.engine.list live.table = some w.rows ∧ w.loading = false
  latest : ∀ live, w.live = some live → ∀ k read, w.reads[k]? = some read →
    read.effect = live.effect → read.ended = true → ∃ j, w.shown = some j ∧ k ≤ j

/-- No subscriber before the callback of the effect throws on an event that names its table; and
a read of the effect that ends resolves, and ends before those that began later. -/
def orderly (cr : Crypto) (w : UseRows) : Action → Bool
  | .call c =>
    match w.live, (c.run cr w.engine).event with
    | some live, some event => !event.touches live.table ||
      (w.engine.subscribers.takeWhile (·.id != live.callback)).all fun s => !s.throws event
    | _, _ => true
  | .done k i =>
    match w.live, w.reads[k]?, w.states[i]? with
    | some live, some read, some state =>
      read.ended || live.effect != read.effect || ((state.list read.table).isSome &&
        (w.reads.drop (k + 1)).all fun later => later.effect != read.effect || !later.ended)
    | _, _, _ => true
  | _ => true

/-! ## What every step keeps -/

/-- The effects are numbered, and no read of the live one was overtaken. -/
structure Grounded (cr : Crypto) (w : UseRows) : Prop where
  consistent : ∃ H, w.engine.Consistent cr H
  reads : ∀ read ∈ w.reads, read.effect < w.effects
  live : ∀ live, w.live = some live → live.effect < w.effects
  latest : ∀ live, w.live = some live → ∀ k read, w.reads[k]? = some read →
    read.effect = live.effect → read.ended = true → ∃ j, w.shown = some j ∧ k ≤ j

def Subscribed (w : UseRows) : Prop :=
  ∀ live, w.live = some live → ∃ s ∈ w.engine.subscribers, s.id = live.callback

/-- The `k`-th read is the last that the effect began, the table has not changed since, and its
rows are held if it is done. -/
structure Newest (w : UseRows) (live : Live) (k : Nat) (read : Read) : Prop where
  found : w.reads[k]? = some read
  effect : read.effect = live.effect
  table : read.table = live.table
  last : ∀ j later, w.reads[j]? = some later → later.effect = live.effect → j ≤ k
  unchanged : ∀ i state, read.began ≤ i → w.states[i]? = some state →
    state.list live.table = w.engine.list live.table
  shown : read.ended = true → w.shown = some k ∧ w.engine.list live.table = some w.rows ∧
    w.loading = false

def Current (w : UseRows) : Prop :=
  ∀ live, w.live = some live → ∃ k read, Newest w live k read

variable {w : UseRows} {e' : SyncEngine}

theorem states_advance : (w.advance e').states = w.states ++ [e'] := rfl

theorem Grounded.advance (h : w.Grounded cr) (hc : ∃ H, e'.Consistent cr H) :
    (w.advance e').Grounded cr := ⟨hc, h.reads, h.live, h.latest⟩

/-- The table of the effect stays as it was. -/
theorem Current.advance (h : w.Current)
    (hl : ∀ live, w.live = some live → e'.list live.table = w.engine.list live.table) :
    (w.advance e').Current := by
  intro live hlive
  obtain ⟨k, read, hn⟩ := h live hlive
  have hlist := hl live hlive
  refine ⟨k, read, hn.found, hn.effect, hn.table, hn.last, fun i state hi hs => ?_, fun he => ?_⟩
  · change state.list live.table = e'.list live.table
    rw [hlist]
    rw [states_advance] at hs
    rcases Nat.lt_or_ge i w.states.length with hlt | hge
    · rw [List.getElem?_append_left hlt] at hs
      exact hn.unchanged i state hi hs
    · rw [List.getElem?_append_right hge] at hs
      obtain rfl := List.mem_singleton.1 (List.mem_of_getElem? hs)
      exact hlist
  · obtain ⟨h1, h2, h3⟩ := hn.shown he
    exact ⟨h1, hlist.trans h2, h3⟩

theorem reads_refresh {live : Live} {j : Nat} {read : Read}
    (h : (w.refresh live).reads[j]? = some read) :
    w.reads[j]? = some read ∨
      j = w.reads.length ∧ read = ⟨live.effect, live.table, w.past.length, false⟩ := by
  change (w.reads ++ [_])[j]? = some read at h
  rcases Nat.lt_or_ge j w.reads.length with hlt | hge
  · rw [List.getElem?_append_left hlt] at h
    exact .inl h
  · rw [List.getElem?_append_right hge] at h
    have hlt := (List.getElem?_eq_some_iff.1 h).1
    rw [List.length_singleton] at hlt
    exact .inr ⟨by omega, List.mem_singleton.1 (List.mem_of_getElem? h)⟩

theorem Grounded.refresh (h : w.Grounded cr) {live : Live} (hlive : w.live = some live) :
    (w.refresh live).Grounded cr := by
  refine ⟨h.consistent, fun read hr => ?_, h.live, fun live' hlive' k read hk heff hend => ?_⟩
  · rcases List.mem_append.1 hr with hr | hr
    · exact h.reads read hr
    · rw [List.mem_singleton.1 hr]
      exact h.live live hlive
  · rcases reads_refresh hk with hk | ⟨-, rfl⟩
    · exact h.latest live' hlive' k read hk heff hend
    · cases hend

/-- The read that begins is the newest, and nothing has changed since. -/
theorem Current.refresh {live : Live} (hlive : w.live = some live) : (w.refresh live).Current := by
  intro live' hlive'
  obtain rfl : live = live' := Option.some.inj (hlive.symm.trans hlive')
  refine ⟨w.reads.length, ⟨live.effect, live.table, w.past.length, false⟩,
    List.getElem?_concat_length, rfl, rfl, fun j later hj _ => ?_, fun i state hi hs => ?_, nofun⟩
  · rcases reads_refresh hj with hj | ⟨rfl, -⟩
    · exact Nat.le_of_lt (List.getElem?_eq_some_iff.1 hj).1
    · exact Nat.le_refl _
  · change (w.past ++ [w.engine])[i]? = some state at hs
    rw [List.getElem?_append_right hi] at hs
    rw [List.mem_singleton.1 (List.mem_of_getElem? hs)]
    rfl

/-! ## Effects -/

theorem cleanup_spec (h : w.Grounded cr) : w.cleanup.Grounded cr ∧ w.cleanup.live = none := by
  unfold cleanup
  cases hlive : w.live with
  | none => exact ⟨h, hlive⟩
  | some live =>
    obtain ⟨H, hc⟩ := h.consistent
    have hnext := hc.effect (Call.run_effect hc.identity (.unsubscribe live.callback))
    exact ⟨⟨⟨_, hnext⟩, h.reads, nofun, nofun⟩, rfl⟩

/-- A run of the effect begins with a read. -/
theorem effect_spec (h : w.Grounded cr) (table : JsString) {callback : SubscriberId}
    (hfree : w.engine.subscribers.any (·.id == callback) = false) :
    (w.effect table callback).Grounded cr ∧ (w.effect table callback).Subscribed ∧
      (w.effect table callback).Current := by
  obtain ⟨H, hc⟩ := h.consistent
  have hnext := hc.effect (Call.run_effect hc.identity (.subscribe ⟨callback, fun _ => false⟩))
  have hrun : (w.mount ⟨w.effects, table, callback⟩).Grounded cr := by
    refine ⟨h.consistent, fun read hr => Nat.lt_succ_of_lt (h.reads read hr), ?_, ?_⟩
    · intro live hlive
      rw [← Option.some.inj hlive]
      exact Nat.lt_succ_self _
    · intro live hlive k read hk heff
      rw [← Option.some.inj hlive] at heff
      exact absurd heff (Nat.ne_of_lt (h.reads read (List.mem_of_getElem? hk)))
  refine ⟨(hrun.refresh rfl).advance ⟨_, hnext⟩, ?_, (Current.refresh rfl).advance ?_⟩
  · intro live hlive
    rw [← Option.some.inj hlive]
    refine ⟨⟨callback, fun _ => false⟩, ?_, rfl⟩
    change _ ∈ (w.engine.subscribe _).subscribers
    unfold SyncEngine.subscribe
    rw [if_neg (by rw [hfree]; exact Bool.false_ne_true)]
    exact List.mem_append_right _ (List.mem_singleton_self _)
  · intro live _
    exact hc.list_call (.subscribe ⟨callback, fun _ => false⟩) nofun

/-! ## Calls -/

theorem told_spec {r : Reply Unit} :
    (∃ live, w.told r = some live ∧ w.live = some live) ∨
      (w.told r = none ∧ ∀ live event, w.live = some live → r.event = some event →
        live.callback ∈ r.received → event.touches live.table = false) := by
  unfold told
  cases hlive : w.live with
  | none => exact .inr ⟨rfl, nofun⟩
  | some live =>
    cases hev : r.event with
    | none => exact .inr ⟨rfl, fun _ _ _ => nofun⟩
    | some event =>
      simp only
      by_cases h : live.callback ∈ r.received ∧ event.touches live.table = true
      · exact .inl ⟨live, if_pos h, rfl⟩
      · refine .inr ⟨if_neg h, ?_⟩
        rintro _ _ ⟨⟩ ⟨⟩ hrec
        exact Bool.eq_false_iff.2 fun ht => h ⟨hrec, ht⟩

structure Kept (cr : Crypto) (w : UseRows) : Prop where
  grounded : w.Grounded cr
  subscribed : w.Subscribed
  current : w.Current

/-- A call that changes the table begins a read. -/
theorem Kept.call (h : w.Kept cr) (c : Call) (ho : w.orderly cr (.call c) = true) :
    (w.step cr (.call c)).Kept cr := by
  by_cases hdel : w.deletes c = true
  · rw [step, if_pos hdel]
    exact h
  rw [step, if_neg hdel]
  obtain ⟨H, hc⟩ := h.grounded.consistent
  have hnext := hc.effect (c.run_effect hc.identity)
  have hground : (w.advance (c.run cr w.engine).engine).Grounded cr :=
    h.grounded.advance ⟨_, hnext⟩
  have hsub : (w.advance (c.run cr w.engine).engine).Subscribed := by
    intro live hlive
    obtain ⟨s, hs, hid⟩ := h.subscribed live hlive
    refine ⟨s, mem_subscribers_call hs c ?_, hid⟩
    rintro rfl
    refine hdel ?_
    have hlive : w.live = some live := hlive
    unfold deletes
    rw [hlive, hid]
    exact beq_self_eq_true live.callback
  rcases w.told_spec (r := c.run cr w.engine) with ⟨live, htold, hlive⟩ | ⟨htold, hquiet⟩
  · simp only [htold]
    exact ⟨hground.refresh hlive, hsub, Current.refresh hlive⟩
  · simp only [htold]
    refine ⟨hground, hsub, h.current.advance fun live hlive => hc.list_call c fun event hev => ?_⟩
    -- the callback is called, so the event does not name the table
    by_contra ht
    have ht : event.touches live.table = true := by
      rwa [Bool.not_eq_false] at ht
    unfold orderly at ho
    simp only [hlive, hev, ht, Bool.not_true, Bool.false_or, List.all_eq_true,
      Bool.not_eq_true'] at ho
    have hrec := mem_notify (h.subscribed live hlive) ho
    rw [← received_call hev] at hrec
    rw [hquiet live event hlive hev hrec] at ht
    cases ht

/-! ## Reads -/

theorem reads_set {k j : Nat} {read r : Read}
    (h : (w.mark k read).reads[j]? = some r) (hk : w.reads[k]? = some read) :
    ∃ old, w.reads[j]? = some old ∧ r.effect = old.effect ∧ r.table = old.table ∧
      r.began = old.began ∧ (r.ended = old.ended ∨ j = k) := by
  unfold mark at h
  by_cases hj : k = j
  · subst hj
    rw [List.getElem?_set_self (List.getElem?_eq_some_iff.1 hk).1] at h
    obtain rfl := Option.some.inj h
    exact ⟨read, hk, rfl, rfl, rfl, .inr rfl⟩
  · rw [List.getElem?_set_ne hj] at h
    exact ⟨r, h, rfl, rfl, rfl, .inl rfl⟩

/-- No read of a later effect is there once one is done. -/
theorem effect_lt_of_mark (h : ∀ read ∈ w.reads, read.effect < w.effects) {k : Nat}
    {read : Read} (hk : w.reads[k]? = some read) :
    ∀ r ∈ (w.mark k read).reads, r.effect < w.effects := by
  intro r hr
  obtain ⟨j, hj⟩ := List.mem_iff_getElem?.1 hr
  obtain ⟨old, hold, heff, -⟩ := reads_set hj hk
  rw [heff]
  exact h old (List.mem_of_getElem? hold)

/-- A read that is under way ends, or nothing happens. -/
theorem done_cases (k i : Nat) : w.step cr (.done k i) = w ∨ ∃ read state,
    w.reads[k]? = some read ∧ w.states[i]? = some state ∧ read.ended = false ∧ read.began ≤ i ∧
      w.step cr (.done k i) = (w.mark k read).setRows k read (state.list read.table) := by
  unfold step
  simp only
  cases w.reads[k]? with
  | none => exact .inl rfl
  | some read =>
    cases w.states[i]? with
    | none => exact .inl rfl
    | some state =>
      simp only
      by_cases hskip : read.ended = true ∨ i < read.began
      · exact .inl (if_pos hskip)
      · have hgo := hskip
        rw [not_or, Bool.not_eq_true, Nat.not_lt] at hgo
        exact .inr ⟨read, state, rfl, rfl, hgo.1, hgo.2, if_neg hskip⟩

/-- A read of the live effect resolves, and none that began later has ended. -/
theorem orderly_done {k i : Nat} {read : Read} {state : SyncEngine} {live : Live}
    (ho : w.orderly cr (.done k i) = true) (hk : w.reads[k]? = some read)
    (hi : w.states[i]? = some state) (hend : read.ended = false) (hlive : w.live = some live)
    (heff : live.effect = read.effect) :
    (∃ next, state.list read.table = some next) ∧ ∀ j later, k < j → w.reads[j]? = some later →
      later.effect = read.effect → later.ended = false := by
  unfold orderly at ho
  simp only [hlive, hk, hi, hend, heff, bne_self_eq_false, Bool.false_or, Bool.and_eq_true,
    List.all_eq_true] at ho
  refine ⟨Option.isSome_iff_exists.1 ho.1, fun j later hj hlater hsame => ?_⟩
  have hmem : later ∈ w.reads.drop (k + 1) := by
    refine List.mem_iff_getElem?.2 ⟨j - (k + 1), ?_⟩
    rw [List.getElem?_drop, show k + 1 + (j - (k + 1)) = j by omega]
    exact hlater
  have hlast := ho.2 later hmem
  rw [hsame, bne_self_eq_false, Bool.false_or, Bool.not_eq_true'] at hlast
  exact hlast

/-- A read of another effect is done. -/
theorem Kept.mark (h : w.Kept cr) {k : Nat} {read : Read} (hk : w.reads[k]? = some read)
    (hother : ∀ live, w.live = some live → live.effect ≠ read.effect) :
    (w.mark k read).Kept cr := by
  refine ⟨⟨h.grounded.consistent, effect_lt_of_mark h.grounded.reads hk, h.grounded.live,
    fun live hlive j r hj heff hend => ?_⟩, h.subscribed, fun live hlive => ?_⟩
  · obtain ⟨old, hold, hsame, -, -, hended⟩ := reads_set hj hk
    rcases hended with hended | rfl
    · exact h.grounded.latest live hlive j old hold (hsame ▸ heff) (hended ▸ hend)
    · obtain rfl := Option.some.inj (hk.symm.trans hold)
      exact absurd (hsame ▸ heff).symm (hother live hlive)
  · obtain ⟨n, newest, hn⟩ := h.current live hlive
    have hne : k ≠ n := by
      rintro rfl
      obtain rfl := Option.some.inj (hk.symm.trans hn.found)
      exact hother live hlive hn.effect.symm
    refine ⟨n, newest, ?_, hn.effect, hn.table, fun j r hj heff => ?_, hn.unchanged, hn.shown⟩
    · rw [← hn.found]
      exact List.getElem?_set_ne hne
    · obtain ⟨old, hold, hsame, -⟩ := reads_set hj hk
      exact hn.last j old hold (hsame ▸ heff)

/-- A read of the live effect that ends in order sets the rows, after all that ended before. -/
theorem Kept.done (h : w.Kept cr) (k i : Nat) (ho : w.orderly cr (.done k i) = true) :
    (w.step cr (.done k i)).Kept cr := by
  rcases @done_cases cr w k i with hstep | ⟨read, state, hk, hi, hend, hbegan, hstep⟩
  · rw [hstep]
    exact h
  rw [hstep]
  by_cases hlive : ∃ live, w.live = some live ∧ live.effect = read.effect
  · obtain ⟨live, hlive, heff⟩ := hlive
    obtain ⟨⟨next, hnext⟩, horder⟩ := orderly_done ho hk hi hend hlive heff
    have hset : (w.mark k read).setRows k read (state.list read.table) =
        { w.mark k read with rows := next, loading := false, shown := some k } := by
      have hlive' : (w.mark k read).live = some live := hlive
      unfold setRows
      simp only [hlive', hnext]
      exact if_pos heff
    rw [hset]
    refine ⟨⟨h.grounded.consistent, effect_lt_of_mark h.grounded.reads hk, h.grounded.live,
      fun live' hlive' j r hj hsame hended => ⟨k, rfl, ?_⟩⟩, h.subscribed, fun live' hlive' => ?_⟩
    · obtain rfl := Option.some.inj (hlive.symm.trans hlive')
      obtain ⟨old, hold, heff', -, -, hold'⟩ := reads_set hj hk
      rcases hold' with hold' | rfl
      · by_contra hlt
        have hno := horder j old (Nat.lt_of_not_le hlt) hold (heff'.symm.trans (hsame.trans heff))
        rw [hold', hno] at hended
        cases hended
      · exact Nat.le_refl _
    · obtain rfl := Option.some.inj (hlive.symm.trans hlive')
      obtain ⟨n, newest, hn⟩ := h.current live hlive
      have hlast : ∀ j r, (w.mark k read).reads[j]? = some r → r.effect = live.effect → j ≤ n := by
        intro j r hj hsame
        obtain ⟨old, hold, heff', -⟩ := reads_set hj hk
        exact hn.last j old hold (heff' ▸ hsame)
      by_cases hkn : k = n
      · -- the newest read is done, and the table is as it read it
        subst hkn
        obtain rfl := Option.some.inj (hk.symm.trans hn.found)
        refine ⟨k, { read with ended := true }, ?_, hn.effect, hn.table, hlast, hn.unchanged,
          fun _ => ⟨rfl, ?_, rfl⟩⟩
        · exact List.getElem?_set_self (List.getElem?_eq_some_iff.1 hk).1
        · have hsame := hn.unchanged i state hbegan hi
          rw [hn.table, hsame] at hnext
          exact hnext
      · have hlt : k < n := Nat.lt_of_le_of_ne (hn.last k read hk heff.symm) hkn
        have hno := horder n newest hlt hn.found (hn.effect.trans heff)
        refine ⟨n, newest, ?_, hn.effect, hn.table, hlast, hn.unchanged, fun hended => ?_⟩
        · rw [← hn.found]
          exact List.getElem?_set_ne hkn
        · rw [hno] at hended
          cases hended
  · have hother : ∀ live, w.live = some live → live.effect ≠ read.effect :=
      fun live hl heff => hlive ⟨live, hl, heff⟩
    have hset : (w.mark k read).setRows k read (state.list read.table) = w.mark k read := by
      unfold setRows
      cases hl : (w.mark k read).live with
      | none => rfl
      | some live =>
        cases state.list read.table with
        | none => rfl
        | some next => exact if_neg (hother live hl)
    rw [hset]
    exact h.mark hk hother

theorem Kept.step (h : w.Kept cr) (a : Action) (ho : w.orderly cr a = true) :
    (w.step cr a).Kept cr := by
  have hclean : w.cleanup.Kept cr := by
    obtain ⟨hground, hnone⟩ := cleanup_spec h.grounded
    refine ⟨hground, fun live hlive => ?_, fun live hlive => ?_⟩
    · rw [hnone] at hlive
      cases hlive
    · rw [hnone] at hlive
      cases hlive
  cases a with
  | call c => exact h.call c ho
  | render table callback =>
    cases table with
    | none =>
      obtain ⟨hground, hnone⟩ := cleanup_spec h.grounded
      have hno : ∀ {p : Live → Prop}, ∀ live, w.cleanup.live = some live → p live := by
        intro p live hlive
        rw [hnone] at hlive
        cases hlive
      exact ⟨⟨hground.consistent, hground.reads, hno, hno⟩, hno, hno⟩
    | some table =>
      change UseRows.Kept cr (if _ then w else w.cleanup.effect table callback)
      by_cases hfree : (w.cleanup.engine.subscribers.any fun s => s.id == callback) = true
      · rw [if_pos hfree]
        exact h
      · rw [if_neg hfree]
        obtain ⟨h1, h2, h3⟩ := effect_spec hclean.grounded table (Bool.eq_false_iff.2 hfree)
        exact ⟨h1, h2, h3⟩
  | unmount => exact hclean
  | done k i => exact h.done k i ho

theorem Kept.settled (h : w.Kept cr) : w.Settled where
  current live hlive hall := by
    obtain ⟨k, read, hn⟩ := h.current live hlive
    exact (hn.shown (hall read (List.mem_of_getElem? hn.found) hn.effect)).2
  latest := h.grounded.latest

/-- **The hook ends on the true state when its reads end in the order they began.** In every run
whose steps are orderly, on an engine in any state that it reaches. -/
theorem rows_settled (cr : Crypto) (opts : EngineOptions) (seed : Nat)
    (before : List Replica.Action) (acts : List Action) :
    let e := (Runs.run (Replica.step cr) (Replica.start cr opts seed) before).engine
    Runs.Along (step cr) (fun w a => w.orderly cr a = true) (start e) acts →
      (Runs.run (step cr) (start e) acts).Settled := by
  intro e horder
  have hstart : (start e).Kept cr :=
    ⟨⟨⟨_, Replica.consistent_run cr opts seed before⟩, nofun, nofun, nofun⟩, nofun, nofun⟩
  exact (horder.invariant (fun w a ho hw => hw.step a ho) hstart).settled

/-- The hook on a table to which a row is then written: two reads begin. -/
def sampleWrite : List Action := [.render (some Sample.table) (.app 0),
  .call (.update Sample.table Sample.row (Sample.record (.bool true)))]

def sampleStart : UseRows := start (SyncEngine.opened plainCrypto Sample.opts 1)

/-- The read of the empty table ends before the one of the row. -/
theorem rows_settled_sample :
    (Runs.run (step plainCrypto) sampleStart (sampleWrite ++ [.done 0 0, .done 1 2])).Settled ∧
      (Runs.run (step plainCrypto) sampleStart
        (sampleWrite ++ [.done 0 0, .done 1 2])).rows.length = 1 :=
  ⟨rows_settled plainCrypto Sample.opts 1 [] _ (Runs.along_of_check (by decide +kernel)),
    by decide +kernel⟩

/-- The read of the empty table ends last: both are done, and the hook does not have the row. -/
theorem rows_stale :
    ¬ (Runs.run (step plainCrypto) sampleStart (sampleWrite ++ [.done 1 2, .done 0 0])).Settled := by
  intro h
  have htable : (Runs.run (step plainCrypto) sampleStart
      (sampleWrite ++ [.done 1 2, .done 0 0])).live.map Live.table = some Sample.table := by
    decide +kernel
  obtain ⟨live, hlive, hname⟩ := Option.map_eq_some_iff.1 htable
  have hdone : (Runs.run (step plainCrypto) sampleStart
      (sampleWrite ++ [.done 1 2, .done 0 0])).reads.all (·.ended) = true := by decide +kernel
  obtain ⟨hlist, -⟩ := h.current live hlive fun read hr _ => List.all_eq_true.1 hdone read hr
  rw [hname] at hlist
  have hlen := congrArg (Option.map List.length) hlist
  exact absurd hlen (by decide +kernel)

end UseRows

end TangentFeed
