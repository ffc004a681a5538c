import Mathlib.Data.Nat.Find
import TangentFeed.Lib.Runs

/-!
# A lock made of promises

Asynchronous bodies that a chain of promises runs one after another: a call
waits for the link of the call before, its body runs in stretches between
awaits, and when its promise has settled, either way, its own link settles. Any
continuation that is ready may go on at any time. However they are scheduled,
the calls end as if each body had been run alone, in the order of the calls
(`finish_run`), and as long as one has not settled some continuation is ready
(`Serial.ready`).
-/

namespace PromiseChain

variable {σ ρ : Type}

/-- A body has settled, or it waits: going on from a state it leaves another
state and the rest of the body. -/
inductive Body (σ ρ : Type) where
  | settled (r : ρ)
  | waiting (leaves : σ → σ) (rest : σ → Body σ ρ)

namespace Body

/-- Run a body alone. -/
def run : Body σ ρ → σ → σ × ρ
  | settled r, s => (s, r)
  | waiting leaves rest, s => (rest s).run (leaves s)

/-- The stretches a body takes alone. -/
def length : Body σ ρ → σ → Nat
  | settled _, _ => 0
  | waiting leaves rest, s => (rest s).length (leaves s) + 1

/-- One stretch. -/
def stretch : Body σ ρ → σ → σ × Body σ ρ
  | settled r, s => (s, settled r)
  | waiting leaves rest, s => (leaves s, rest s)

theorem run_stretch (b : Body σ ρ) (s : σ) : (b.stretch s).2.run (b.stretch s).1 = b.run s := by
  cases b <;> rfl

/-- Every stretch of the body keeps `I`. -/
def Keeps (I : σ → Prop) : Body σ ρ → Prop
  | settled _ => True
  | waiting leaves rest => ∀ s, I s → I (leaves s) ∧ (rest s).Keeps I

theorem Keeps.stretch {I : σ → Prop} {b : Body σ ρ} (h : b.Keeps I) {s : σ} (hs : I s) :
    I (b.stretch s).1 ∧ (b.stretch s).2.Keeps I := by
  cases b with
  | settled r => exact ⟨hs, h⟩
  | waiting leaves rest => exact h s hs

theorem Keeps.run {I : σ → Prop} {b : Body σ ρ} (h : b.Keeps I) {s : σ} (hs : I s) :
    I (b.run s).1 := by
  induction b generalizing s with
  | settled r => exact hs
  | waiting leaves rest ih => exact ih s (h s hs).2 (h s hs).1

end Body

/-- A call enters the chain with its body, or is refused before it does. -/
inductive Entry (σ ρ : Type) where
  | enter (b : Body σ ρ)
  | refuse (r : ρ)

inductive Phase (σ ρ : Type) where
  /-- Waits for the link before. -/
  | queued (b : Body σ ρ)
  /-- At an await. -/
  | running (b : Body σ ρ)
  /-- Its promise has settled, its link has not. -/
  | settled (r : ρ)
  /-- Its link has settled. -/
  | passed (r : ρ)
  /-- It never entered. -/
  | refused (r : ρ)

namespace Phase

/-- Where a body stands after a stretch. -/
def ofBody : Body σ ρ → Phase σ ρ
  | .settled r => settled r
  | .waiting leaves rest => running (.waiting leaves rest)

def result? : Phase σ ρ → Option ρ
  | queued _ | running _ => none
  | settled r | passed r | refused r => some r

/-- Nothing of it is left to run. -/
def final : Phase σ ρ → Bool
  | queued _ | running _ | settled _ => false
  | passed _ | refused _ => true

/-- It is a link of the chain. -/
def entered : Phase σ ρ → Bool
  | queued _ | running _ | settled _ | passed _ => true
  | refused _ => false

/-- Its body has started. -/
def started : Phase σ ρ → Bool
  | running _ | settled _ | passed _ => true
  | queued _ | refused _ => false

/-- What is left of it. -/
def remaining : Phase σ ρ → Entry σ ρ
  | queued b | running b => .enter b
  | settled r | passed r | refused r => .refuse r

end Phase

/-- `after` is the call whose link it waits for. -/
structure Call (σ ρ : Type) where
  after : Option Nat
  phase : Phase σ ρ

/-- The calls in the order they were made; `mutex` is the last link. -/
structure Chain (σ ρ : Type) where
  state : σ
  calls : List (Call σ ρ)
  mutex : Option Nat

inductive Action (σ ρ : Type) where
  | call (e : Entry σ ρ)
  /-- The next continuation of the `k`-th call runs, if it is ready. -/
  | go (k : Nat)

namespace Chain

def start (s : σ) : Chain σ ρ := ⟨s, [], none⟩

/-- Whether a link has settled; without one the chain is fresh. -/
def linked (c : Chain σ ρ) : Option Nat → Bool
  | none => true
  | some k =>
    match c.calls[k]? with
    | some ⟨_, .passed _⟩ => true
    | _ => false

/-- The state and the phase after the next continuation of a call, if it is ready. -/
def next (c : Chain σ ρ) (call : Call σ ρ) : Option (σ × Phase σ ρ) :=
  match call.phase with
  | .queued b =>
    if c.linked call.after then some ((b.stretch c.state).1, .ofBody (b.stretch c.state).2)
    else none
  | .running b => some ((b.stretch c.state).1, .ofBody (b.stretch c.state).2)
  | .settled r => some (c.state, .passed r)
  | .passed _ | .refused _ => none

def step (c : Chain σ ρ) : Action σ ρ → Chain σ ρ
  | .call (.enter b) =>
    { c with calls := c.calls ++ [⟨c.mutex, .queued b⟩], mutex := some c.calls.length }
  | .call (.refuse r) => { c with calls := c.calls ++ [⟨none, .refused r⟩] }
  | .go k =>
    match c.calls[k]? with
    | none => c
    | some call =>
      match c.next call with
      | none => c
      | some (s, p) => { c with state := s, calls := c.calls.set k { call with phase := p } }

/-- The next continuation of the `k`-th call is ready. -/
def Enabled (c : Chain σ ρ) (k : Nat) : Prop :=
  ∃ call sp, c.calls[k]? = some call ∧ c.next call = some sp

/-- The results so far, in the order of the calls. -/
def results (c : Chain σ ρ) : List ρ := c.calls.filterMap fun call => call.phase.result?

/-- Every call has settled. -/
def allSettled (c : Chain σ ρ) : Bool := c.calls.all fun call => call.phase.result?.isSome

end Chain

/-- The entries a schedule makes. -/
def entries (acts : List (Action σ ρ)) : List (Entry σ ρ) :=
  acts.filterMap fun | .call e => some e | .go _ => none

/-- The entries one after another, each body alone. -/
def sequential (s : σ) : List (Entry σ ρ) → σ × List ρ
  | [] => (s, [])
  | .enter b :: es => ((sequential (b.run s).1 es).1, (b.run s).2 :: (sequential (b.run s).1 es).2)
  | .refuse r :: es => ((sequential s es).1, r :: (sequential s es).2)

theorem sequential_append (s : σ) (es es' : List (Entry σ ρ)) :
    sequential s (es ++ es') = ((sequential (sequential s es).1 es').1,
      (sequential s es).2 ++ (sequential (sequential s es).1 es').2) := by
  induction es generalizing s with
  | nil => rfl
  | cons e es ih =>
    cases e with
    | enter b => simp only [List.cons_append, sequential, ih]
    | refuse r => simp only [List.cons_append, sequential, ih]

theorem length_sequential (s : σ) (es : List (Entry σ ρ)) :
    (sequential s es).2.length = es.length := by
  induction es generalizing s with
  | nil => rfl
  | cons e es ih => cases e <;> simp only [sequential, List.length_cons, ih]

/-- How the chain ends if what is left is run in order. -/
def Chain.finish (c : Chain σ ρ) : σ × List ρ :=
  sequential c.state (c.calls.map fun call => call.phase.remaining)

/-! ## The calls of a chain -/

/-- Links are taken in the order of the calls, and a body starts when all links
before it have settled. -/
structure Serial (c : Chain σ ρ) : Prop where
  link : ∀ {k m : Nat} {call : Call σ ρ}, c.calls[k]? = some call → call.after = some m →
    m < k ∧ ∃ prev, c.calls[m]? = some prev ∧ prev.phase.entered = true
  before : ∀ {k j : Nat} {call prev : Call σ ρ}, c.calls[k]? = some call →
    call.phase.entered = true → c.calls[j]? = some prev → prev.phase.entered = true → j < k →
      ∃ m, call.after = some m ∧ j ≤ m
  last : ∀ {m : Nat}, c.mutex = some m → ∃ prev, c.calls[m]? = some prev ∧ prev.phase.entered = true
  top : ∀ {j : Nat} {prev : Call σ ρ}, c.calls[j]? = some prev → prev.phase.entered = true →
    ∃ m, c.mutex = some m ∧ j ≤ m
  order : ∀ {k j : Nat} {call prev : Call σ ρ}, c.calls[k]? = some call →
    call.phase.started = true → c.calls[j]? = some prev → prev.phase.entered = true → j < k →
      ∃ r, prev.phase = .passed r

variable {c : Chain σ ρ} {k : Nat} {call : Call σ ρ} {s : σ} {p : Phase σ ρ}

theorem linked_eq_true {m : Nat} (h : c.linked (some m) = true) :
    ∃ prev r, c.calls[m]? = some prev ∧ prev.phase = .passed r := by
  unfold Chain.linked at h
  simp only at h
  split at h
  · rename_i after r hm
    exact ⟨_, r, hm, rfl⟩
  · cases h

/-- What goes on is a link that has started now. -/
theorem entered_of_next (h : c.next call = some (s, p)) :
    call.phase.entered = true ∧ p.entered = true ∧ (∀ r, call.phase ≠ .passed r) := by
  have ofBody (b : Body σ ρ) : (Phase.ofBody b).entered = true := by cases b <;> rfl
  obtain ⟨after, phase⟩ := call
  unfold Chain.next at h
  cases phase with
  | queued b =>
    simp only at h
    split at h
    · rw [← (Prod.mk.inj (Option.some.inj h)).2]
      exact ⟨rfl, ofBody _, nofun⟩
    · cases h
  | running b =>
    rw [← (Prod.mk.inj (Option.some.inj h)).2]
    exact ⟨rfl, ofBody _, nofun⟩
  | settled r =>
    rw [← (Prod.mk.inj (Option.some.inj h)).2]
    exact ⟨rfl, rfl, nofun⟩
  | passed r => cases h
  | refused r => cases h

/-- **Before a call that may go on everything is final.** -/
theorem Serial.final_before (hc : Serial c) (hk : c.calls[k]? = some call)
    (h : c.next call = some (s, p)) {j : Nat} {prev : Call σ ρ} (hj : c.calls[j]? = some prev)
    (hlt : j < k) : prev.phase.final = true := by
  by_cases he : prev.phase.entered = true
  · have passed : ∃ r, prev.phase = .passed r := by
      by_cases hs : call.phase.started = true
      · exact hc.order hk hs hj he hlt
      · obtain ⟨m, hm, hjm⟩ := hc.before hk (entered_of_next h).1 hj he hlt
        have hl : c.linked (some m) = true := by
          unfold Chain.next at h
          cases hp : call.phase with
          | queued b =>
            rw [hp] at h
            simp only at h
            split at h
            · rename_i hl
              rw [← hm]
              exact hl
            · cases h
          | running b => rw [hp] at hs; exact absurd rfl hs
          | settled r => rw [hp] at hs; exact absurd rfl hs
          | passed r => rw [hp] at h; cases h
          | refused r => rw [hp] at h; cases h
        obtain ⟨last, r, hlast, hr⟩ := linked_eq_true hl
        rcases Nat.lt_or_eq_of_le hjm with hjm | rfl
        · exact hc.order hlast (by rw [hr]; rfl) hj he hjm
        · rw [hlast] at hj
          rw [← Option.some.inj hj]
          exact ⟨r, hr⟩
    obtain ⟨r, hr⟩ := passed
    rw [hr]
    rfl
  · cases hp : prev.phase with
    | refused r => rfl
    | queued b => rw [hp] at he; exact absurd rfl he
    | running b => rw [hp] at he; exact absurd rfl he
    | settled r => rw [hp] at he; exact absurd rfl he
    | passed r => rw [hp] at he; exact absurd rfl he

theorem Serial.start (s : σ) : Serial (Chain.start (ρ := ρ) s) where
  link hk := by cases hk
  before hk := by cases hk
  last h := by cases h
  top hj := by cases hj
  order hk := by cases hk

/-! ## One step -/

/-- A continuation that is not ready changes nothing. -/
theorem go_cases (c : Chain σ ρ) (k : Nat) : c.step (.go k) = c ∨
    ∃ call s p, c.calls[k]? = some call ∧ c.next call = some (s, p) ∧
      c.step (.go k) =
        { c with state := s, calls := c.calls.set k { call with phase := p } } := by
  unfold Chain.step
  simp only
  cases hk : c.calls[k]? with
  | none => exact .inl rfl
  | some call =>
    cases hn : c.next call with
    | none => exact .inl (by simp only [hn])
    | some sp =>
      obtain ⟨s, p⟩ := sp
      exact .inr ⟨call, s, p, rfl, hn, by simp only [hn]⟩

theorem getElem?_concat {α : Type} {xs : List α} {x y : α} {i : Nat}
    (h : (xs ++ [x])[i]? = some y) : xs[i]? = some y ∨ i = xs.length ∧ y = x := by
  rcases Nat.lt_or_ge i xs.length with hi | hi
  · rw [List.getElem?_append_left hi] at h
    exact .inl h
  · rw [List.getElem?_append_right hi] at h
    have h0 : i - xs.length = 0 := by
      have := (List.getElem?_eq_some_iff.1 h).1
      rw [List.length_singleton] at this
      omega
    rw [h0] at h
    exact .inr ⟨by omega, (Option.some.inj h).symm⟩

theorem getElem?_lt {α : Type} {xs : List α} {x : α} {i : Nat} (h : xs[i]? = some x) :
    i < xs.length := (List.getElem?_eq_some_iff.1 h).1

theorem getElem?_concat_of_some {α : Type} {xs : List α} {x y : α} {i : Nat}
    (h : xs[i]? = some x) : (xs ++ [y])[i]? = some x := by
  rw [List.getElem?_append_left (getElem?_lt h)]
  exact h

/-- A call at the end of the list that starts later. -/
theorem Serial.concat (hc : Serial c) {new : Call σ ρ} {mutex : Option Nat}
    (hs : new.phase.started = false) (hafter : new.after = c.mutex ∨ new.after = none)
    (he : new.phase.entered = true → new.after = c.mutex ∧ mutex = some c.calls.length)
    (hr : new.phase.entered = false → mutex = c.mutex) :
    Serial { c with calls := c.calls ++ [new], mutex := mutex } where
  link {k m call} hk hm := by
    rcases getElem?_concat hk with hk | ⟨rfl, rfl⟩
    · obtain ⟨hlt, prev, hprev, hpe⟩ := hc.link hk hm
      exact ⟨hlt, prev, getElem?_concat_of_some hprev, hpe⟩
    · rcases hafter with ha | ha
      · rw [ha] at hm
        obtain ⟨prev, hprev, hpe⟩ := hc.last hm
        exact ⟨getElem?_lt hprev, prev, getElem?_concat_of_some hprev, hpe⟩
      · rw [ha] at hm
        cases hm
  before {k j call prev} hk hke hj hje hlt := by
    have hj' : c.calls[j]? = some prev := by
      rcases getElem?_concat hj with hj | ⟨rfl, -⟩
      · exact hj
      · have := getElem?_lt hk
        rw [List.length_append, List.length_singleton] at this
        omega
    rcases getElem?_concat hk with hk | ⟨rfl, rfl⟩
    · exact hc.before hk hke hj' hje hlt
    · rw [(he hke).1]
      exact hc.top hj' hje
  last {m} hm := by
    cases hne : new.phase.entered with
    | true =>
      have e := (he hne).2
      simp only at hm
      rw [e] at hm
      obtain rfl := Option.some.inj hm
      exact ⟨new, by rw [List.getElem?_concat_length], hne⟩
    | false =>
      have e := hr hne
      simp only at hm
      rw [e] at hm
      obtain ⟨prev, hprev, hpe⟩ := hc.last hm
      exact ⟨prev, getElem?_concat_of_some hprev, hpe⟩
  top {j prev} hj hje := by
    cases hne : new.phase.entered with
    | true =>
      refine ⟨c.calls.length, (he hne).2, ?_⟩
      have := getElem?_lt hj
      rw [List.length_append, List.length_singleton] at this
      omega
    | false =>
      rcases getElem?_concat hj with hj | ⟨-, rfl⟩
      · obtain ⟨m, hm, hle⟩ := hc.top hj hje
        exact ⟨m, by rw [hr hne, hm], hle⟩
      · rw [hne] at hje
        cases hje
  order {k j call prev} hk hks hj hje hlt := by
    rcases getElem?_concat hk with hk | ⟨-, rfl⟩
    · rcases getElem?_concat hj with hj | ⟨rfl, -⟩
      · exact hc.order hk hks hj hje hlt
      · have := getElem?_lt hk
        omega
    · rw [hs] at hks
      cases hks

/-- A continuation of the call that may go on. -/
theorem Serial.go (hc : Serial c) (hk : c.calls[k]? = some call)
    (h : c.next call = some (s, p)) :
    Serial { c with state := s, calls := c.calls.set k { call with phase := p } } := by
  obtain ⟨hce, hpe, hnp⟩ := entered_of_next h
  have hlt := getElem?_lt hk
  -- every call is as before, the one that goes on up to its phase
  have old : ∀ {i : Nat} {x : Call σ ρ},
      (c.calls.set k { call with phase := p })[i]? = some x →
      ∃ y, c.calls[i]? = some y ∧ y.after = x.after ∧ y.phase.entered = x.phase.entered ∧
        (i ≠ k → y = x) := by
    intro i x hi
    by_cases hik : i = k
    · subst hik
      rw [List.getElem?_set_self hlt] at hi
      obtain rfl := Option.some.inj hi
      exact ⟨call, hk, rfl, by rw [hce, hpe], fun hne => absurd rfl hne⟩
    · rw [List.getElem?_set_ne (Ne.symm hik)] at hi
      exact ⟨x, hi, rfl, rfl, fun _ => rfl⟩
  have still : ∀ {i : Nat} {y : Call σ ρ}, c.calls[i]? = some y → y.phase.entered = true →
      ∃ x, (c.calls.set k { call with phase := p })[i]? = some x ∧ x.phase.entered = true := by
    intro i y hi hye
    by_cases hik : i = k
    · subst hik
      exact ⟨_, List.getElem?_set_self hlt, hpe⟩
    · exact ⟨y, by rw [List.getElem?_set_ne (Ne.symm hik), hi], hye⟩
  constructor
  · intro i m x hi hm
    obtain ⟨y, hy, ha, -, -⟩ := old hi
    obtain ⟨hmi, prev, hprev, hpre⟩ := hc.link hy (ha.trans hm)
    exact ⟨hmi, still hprev hpre⟩
  · intro i j x prev hi hxe hj hje hji
    obtain ⟨y, hy, ha, hye, -⟩ := old hi
    obtain ⟨z, hz, -, hze, -⟩ := old hj
    rw [← ha]
    exact hc.before hy (hye.trans hxe) hz (hze.trans hje) hji
  · intro m hm
    obtain ⟨prev, hprev, hpre⟩ := hc.last hm
    exact still hprev hpre
  · intro j prev hj hje
    obtain ⟨z, hz, -, hze, -⟩ := old hj
    exact hc.top hz (hze.trans hje)
  · intro i j x prev hi hxs hj hje hji
    obtain ⟨y, hy, -, -, hyx⟩ := old hi
    obtain ⟨z, hz, -, hze, hzp⟩ := old hj
    by_cases hik : i = k
    · subst hik
      have hfin := hc.final_before hk h hz hji
      have hzp := hzp (by omega)
      subst hzp
      cases hph : z.phase with
      | passed r => exact ⟨r, rfl⟩
      | refused r => rw [hph] at hje; cases hje
      | queued b => rw [hph] at hfin; cases hfin
      | running b => rw [hph] at hfin; cases hfin
      | settled r => rw [hph] at hfin; cases hfin
    · obtain rfl := hyx hik
      obtain ⟨r, hr⟩ := hc.order hy hxs hz (hze.trans hje) hji
      by_cases hjk : j = k
      · subst hjk
        rw [hk] at hz
        rw [← Option.some.inj hz] at hr
        exact absurd hr (hnp r)
      · rw [← hzp hjk]
        exact ⟨r, hr⟩

/-- **Step lemma.** -/
theorem Serial.step (hc : Serial c) (a : Action σ ρ) : Serial (c.step a) := by
  cases a with
  | call e =>
    cases e with
    | enter b => exact hc.concat rfl (.inl rfl) (fun _ => ⟨rfl, rfl⟩) nofun
    | refuse r => exact hc.concat rfl (.inr rfl) nofun fun _ => rfl
  | go k =>
    rcases go_cases c k with h | ⟨call, s, p, hk, hn, h⟩
    · rw [h]
      exact hc
    · rw [h]
      exact hc.go hk hn

theorem Serial.run (s : σ) (acts : List (Action σ ρ)) :
    Serial (Runs.run Chain.step (Chain.start s) acts) :=
  Runs.run_invariant (fun _ a hc => hc.step a) (.start s) acts

/-! ## How it ends -/

theorem settled_of_final {p : Phase σ ρ} (h : p.final = true) : p.result?.isSome = true := by
  cases p with
  | passed r => rfl
  | refused r => rfl
  | queued b => cases h
  | running b => cases h
  | settled r => cases h

/-- Of calls that have settled nothing is left but their results. -/
theorem sequential_settled {calls : List (Call σ ρ)}
    (h : ∀ call ∈ calls, call.phase.result?.isSome = true) (s : σ) :
    sequential s (calls.map fun call => call.phase.remaining) =
      (s, calls.filterMap fun call => call.phase.result?) := by
  induction calls with
  | nil => rfl
  | cons call calls ih =>
    have hcall := h call List.mem_cons_self
    have hrest := ih fun x hx => h x (List.mem_cons_of_mem _ hx)
    have refused (r : ρ) :
        sequential s (.refuse r :: calls.map fun call => call.phase.remaining) =
          (s, r :: calls.filterMap fun call => call.phase.result?) := by
      rw [sequential, hrest]
    obtain ⟨after, phase⟩ := call
    cases phase with
    | queued b => cases hcall
    | running b => cases hcall
    | settled r => exact refused r
    | passed r => exact refused r
    | refused r => exact refused r

/-- A stretch leaves a call where it ends alone. -/
theorem sequential_next (h : c.next call = some (s, p)) (es : List (Entry σ ρ)) :
    sequential s (p.remaining :: es) = sequential c.state (call.phase.remaining :: es) := by
  have stretched (b : Body σ ρ) : sequential (b.stretch c.state).1
      ((Phase.ofBody (b.stretch c.state).2).remaining :: es) =
        sequential c.state (.enter b :: es) := by
    have hrun := b.run_stretch c.state
    revert hrun
    cases (b.stretch c.state).2 with
    | settled r =>
      intro hrun
      simp only [Phase.ofBody, Phase.remaining, sequential, ← hrun]
      rfl
    | waiting leaves rest =>
      intro hrun
      simp only [Phase.ofBody, Phase.remaining, sequential, hrun]
  obtain ⟨after, phase⟩ := call
  unfold Chain.next at h
  cases phase with
  | queued b =>
    simp only at h
    split at h
    · obtain ⟨rfl, rfl⟩ := Prod.mk.inj (Option.some.inj h)
      exact stretched b
    · cases h
  | running b =>
    obtain ⟨rfl, rfl⟩ := Prod.mk.inj (Option.some.inj h)
    exact stretched b
  | settled r =>
    obtain ⟨rfl, rfl⟩ := Prod.mk.inj (Option.some.inj h)
    rfl
  | passed r => cases h
  | refused r => cases h

/-- The calls before and after the `k`-th. -/
theorem split_calls {α : Type} {xs : List α} {x : α} {k : Nat} (h : xs[k]? = some x) (y : α) :
    xs = xs.take k ++ x :: xs.drop (k + 1) ∧
      xs.set k y = xs.take k ++ y :: xs.drop (k + 1) := by
  obtain ⟨hlt, hx⟩ := List.getElem?_eq_some_iff.1 h
  refine ⟨?_, by rw [List.set_eq_take_append_cons_drop, if_pos hlt]⟩
  rw [← hx, List.getElem_cons_drop, List.take_append_drop]

/-- Everything before the call that may go on is final. -/
theorem Serial.final_take (hc : Serial c) (hk : c.calls[k]? = some call)
    (h : c.next call = some (s, p)) : ∀ x ∈ c.calls.take k, x.phase.final = true := by
  intro x hx
  obtain ⟨j, hj, hjx⟩ := List.mem_iff_getElem.1 hx
  rw [List.length_take] at hj
  refine hc.final_before hk h (j := j) ?_ (by omega)
  rw [List.getElem?_eq_some_iff]
  rw [List.getElem_take] at hjx
  exact ⟨by omega, hjx⟩

/-- **Step lemma.** Going on does not change how the chain ends, and a new call
ends it as if it were made alone at that end. -/
theorem Serial.finish_step (hc : Serial c) (a : Action σ ρ) :
    (c.step a).finish = ((sequential c.finish.1 (entries [a])).1,
      c.finish.2 ++ (sequential c.finish.1 (entries [a])).2) := by
  cases a with
  | call e =>
    have happ : ∀ new : Call σ ρ, new.phase.remaining = e →
        sequential c.state ((c.calls ++ [new]).map fun call => call.phase.remaining) =
          ((sequential c.finish.1 [e]).1, c.finish.2 ++ (sequential c.finish.1 [e]).2) := by
      intro new hnew
      rw [List.map_append, List.map_singleton, hnew, sequential_append]
      rfl
    cases e with
    | enter b => exact happ ⟨c.mutex, .queued b⟩ rfl
    | refuse r => exact happ ⟨none, .refused r⟩ rfl
  | go k =>
    change (c.step (.go k)).finish = (c.finish.1, c.finish.2 ++ [])
    rw [List.append_nil]
    rcases go_cases c k with h | ⟨call, s, p, hk, hn, h⟩
    · rw [h]
    · rw [h]
      obtain ⟨hold, hset⟩ := split_calls hk { call with phase := p }
      have hpre := sequential_settled fun x hx => settled_of_final (hc.final_take hk hn x hx)
      unfold Chain.finish
      simp only
      rw [hset]
      conv_rhs => rw [hold]
      rw [List.map_append, List.map_append, sequential_append, sequential_append, hpre, hpre,
        List.map_cons, List.map_cons, sequential_next hn]

/-- **How the calls end.** Whatever the schedule, what is done and what is left
come together to the calls run one after another. -/
theorem finish_run (s : σ) (acts : List (Action σ ρ)) :
    (Runs.run Chain.step (Chain.start s) acts).finish = sequential s (entries acts) := by
  have key : ∀ (acts : List (Action σ ρ)) (c : Chain σ ρ), Serial c →
      (Runs.run Chain.step c acts).finish = ((sequential c.finish.1 (entries acts)).1,
        c.finish.2 ++ (sequential c.finish.1 (entries acts)).2) := by
    intro acts
    induction acts with
    | nil =>
      intro c _
      exact (Prod.ext rfl (List.append_nil _).symm)
    | cons a acts ih =>
      intro c hc
      have happ : entries (a :: acts) = entries [a] ++ entries acts := by
        rw [← List.singleton_append, entries, List.filterMap_append]
        rfl
      rw [Runs.run_cons, ih _ (hc.step a), hc.finish_step a, happ, sequential_append,
        List.append_assoc]
  exact key acts _ (.start s)

/-- **The end.** When every call has settled, the state is what the calls leave
one after another, and so is every result. -/
theorem finish_allSettled (h : c.allSettled = true) : c.finish = (c.state, c.results) :=
  sequential_settled (List.all_eq_true.1 h) c.state

/-- A result does not change any more. -/
theorem finish_result {r : ρ} (hk : c.calls[k]? = some call) (hr : call.phase.result? = some r) :
    c.finish.2[k]? = some r := by
  obtain ⟨hold, -⟩ := split_calls hk call
  have hrem : call.phase.remaining = .refuse r := by
    obtain ⟨after, phase⟩ := call
    cases phase with
    | queued b => cases hr
    | running b => cases hr
    | settled r => exact congrArg Entry.refuse (Option.some.inj hr)
    | passed r => exact congrArg Entry.refuse (Option.some.inj hr)
    | refused r => exact congrArg Entry.refuse (Option.some.inj hr)
  have hlen : (c.calls.take k).length = k := by
    rw [List.length_take, Nat.min_eq_left (Nat.le_of_lt (getElem?_lt hk))]
  unfold Chain.finish
  rw [hold, List.map_append, List.map_cons, hrem, sequential_append]
  simp only [sequential]
  rw [List.getElem?_append_right (by rw [length_sequential, List.length_map, hlen]),
    length_sequential, List.length_map, hlen, Nat.sub_self]
  rfl

/-! ## Progress -/

/-- The continuations left of a phase that goes on from `s`. -/
def Phase.work (s : σ) : Phase σ ρ → Nat
  | queued b | running b => max 1 (b.length s) + 1
  | settled _ => 1
  | passed _ | refused _ => 0

/-- The continuations left of calls that go on one after another. -/
def workFrom (s : σ) : List (Phase σ ρ) → Nat
  | [] => 0
  | p :: ps => p.work s + workFrom (sequential s [p.remaining]).1 ps

def Chain.work (c : Chain σ ρ) : Nat := workFrom c.state (c.calls.map Call.phase)

theorem workFrom_final {calls : List (Call σ ρ)} (h : ∀ call ∈ calls, call.phase.final = true)
    (s : σ) (ps : List (Phase σ ρ)) : workFrom s (calls.map Call.phase ++ ps) = workFrom s ps := by
  induction calls with
  | nil => rfl
  | cons call calls ih =>
    have hcall := h call List.mem_cons_self
    rw [List.map_cons, List.cons_append, workFrom]
    have hs : (sequential s [call.phase.remaining]).1 = s ∧ call.phase.work s = 0 := by
      obtain ⟨after, phase⟩ := call
      cases phase with
      | queued b => cases hcall
      | running b => cases hcall
      | settled r => cases hcall
      | passed r => exact ⟨rfl, rfl⟩
      | refused r => exact ⟨rfl, rfl⟩
    rw [hs.1, hs.2, Nat.zero_add]
    exact ih fun x hx => h x (List.mem_cons_of_mem _ hx)

/-- A continuation is one less. -/
theorem work_next (h : c.next call = some (s, p)) : p.work s + 1 = call.phase.work c.state := by
  have stretched (b : Body σ ρ) : (Phase.ofBody (b.stretch c.state).2).work (b.stretch c.state).1 + 1
      = max 1 (b.length c.state) + 1 := by
    cases b with
    | settled r => rfl
    | waiting leaves rest =>
      simp only [Body.stretch, Body.length]
      cases rest c.state with
      | settled r => rfl
      | waiting leaves' rest' =>
        simp only [Phase.ofBody, Phase.work, Body.length]
        omega
  obtain ⟨after, phase⟩ := call
  unfold Chain.next at h
  cases phase with
  | queued b =>
    simp only at h
    split at h
    · obtain ⟨rfl, rfl⟩ := Prod.mk.inj (Option.some.inj h)
      exact stretched b
    · cases h
  | running b =>
    obtain ⟨rfl, rfl⟩ := Prod.mk.inj (Option.some.inj h)
    exact stretched b
  | settled r =>
    obtain ⟨rfl, rfl⟩ := Prod.mk.inj (Option.some.inj h)
    rfl
  | passed r => cases h
  | refused r => cases h

/-- **Every continuation that runs leaves one less to run.** -/
theorem Serial.work_go (hc : Serial c) (h : c.Enabled k) : (c.step (.go k)).work + 1 = c.work := by
  obtain ⟨call, ⟨s, p⟩, hk, h⟩ := h
  have hstep : c.step (.go k) =
      { c with state := s, calls := c.calls.set k { call with phase := p } } := by
    unfold Chain.step
    simp only [hk, h]
  obtain ⟨hold, hset⟩ := split_calls hk { call with phase := p }
  have hfin := hc.final_take hk h
  rw [hstep]
  unfold Chain.work
  simp only
  rw [hset]
  conv_rhs => rw [hold]
  rw [List.map_append, List.map_append, workFrom_final hfin, workFrom_final hfin, List.map_cons,
    List.map_cons, workFrom, workFrom, sequential_next h, ← work_next h]
  simp only
  omega

/-- **Progress.** Unless everything is final some continuation is ready. -/
theorem Serial.ready (hc : Serial c) (h : ∃ call ∈ c.calls, call.phase.final = false) :
    ∃ k, c.Enabled k := by
  have hex : ∃ (k : Nat) (call : Call σ ρ), c.calls[k]? = some call ∧ call.phase.final = false := by
    obtain ⟨call, hm, hf⟩ := h
    obtain ⟨k, hk⟩ := List.mem_iff_getElem?.1 hm
    exact ⟨k, call, hk, hf⟩
  classical
  -- the first call that is not final waits for one that is
  obtain ⟨call, hk, hf⟩ := Nat.find_spec hex
  have hleast := fun m (hm : m < Nat.find hex) => Nat.find_min hex hm
  generalize Nat.find hex = k at hk hleast
  refine ⟨k, ?_⟩
  obtain ⟨after, phase⟩ := call
  cases phase with
  | queued b =>
    have hlink : c.linked after = true := by
      cases after with
      | none => rfl
      | some m =>
        obtain ⟨hmk, prev, hprev, hpe⟩ := hc.link hk rfl
        obtain ⟨after', phase'⟩ := prev
        have hpf : Phase.final phase' = true := by
          cases hpf : Phase.final phase' with
          | true => rfl
          | false => exact absurd ⟨_, hprev, hpf⟩ (hleast m hmk)
        unfold Chain.linked
        cases phase' with
        | passed r => simp only [hprev]
        | refused r => cases hpe
        | queued b => cases hpf
        | running b => cases hpf
        | settled r => cases hpf
    exact ⟨_, _, hk, by unfold Chain.next; simp only [hlink]; rfl⟩
  | running b => exact ⟨_, _, hk, rfl⟩
  | settled r => exact ⟨_, _, hk, rfl⟩
  | passed r => cases hf
  | refused r => cases hf

/-- Between two continuations the state may be changed by others. -/
theorem Serial.withState (hc : Serial c) (s : σ) : Serial { c with state := s } :=
  ⟨hc.link, hc.before, hc.last, hc.top, hc.order⟩

/-! ## What every body keeps -/

def Entry.Keeps (I : σ → Prop) : Entry σ ρ → Prop
  | .enter b => b.Keeps I
  | .refuse _ => True

def Phase.Keeps (I : σ → Prop) : Phase σ ρ → Prop
  | queued b | running b => b.Keeps I
  | settled _ | passed _ | refused _ => True

/-- The state meets `I` and what is left to run keeps it. -/
structure Kept (I : σ → Prop) (c : Chain σ ρ) : Prop where
  state : I c.state
  calls : ∀ call ∈ c.calls, call.phase.Keeps I

variable {I : σ → Prop}

theorem keeps_next (hs : I c.state) (hk : call.phase.Keeps I) (h : c.next call = some (s, p)) :
    I s ∧ p.Keeps I := by
  have stretched {b : Body σ ρ} (hb : b.Keeps I) :
      I (b.stretch c.state).1 ∧ (Phase.ofBody (b.stretch c.state).2).Keeps I := by
    obtain ⟨h1, h2⟩ := hb.stretch hs
    refine ⟨h1, ?_⟩
    cases hb' : (b.stretch c.state).2 with
    | settled r => trivial
    | waiting leaves rest =>
      rw [hb'] at h2
      exact h2
  obtain ⟨after, phase⟩ := call
  unfold Chain.next at h
  cases phase with
  | queued b =>
    simp only at h
    split at h
    · obtain ⟨rfl, rfl⟩ := Prod.mk.inj (Option.some.inj h)
      exact stretched hk
    · cases h
  | running b =>
    obtain ⟨rfl, rfl⟩ := Prod.mk.inj (Option.some.inj h)
    exact stretched hk
  | settled r =>
    obtain ⟨rfl, rfl⟩ := Prod.mk.inj (Option.some.inj h)
    exact ⟨hs, trivial⟩
  | passed r => cases h
  | refused r => cases h

theorem Kept.go (h : Kept I c) (k : Nat) : Kept I (c.step (.go k)) := by
  rcases go_cases c k with hstep | ⟨call, s, p, hk, hn, hstep⟩
  · rw [hstep]
    exact h
  · rw [hstep]
    obtain ⟨hs, hp⟩ := keeps_next h.state (h.calls call (List.mem_of_getElem? hk)) hn
    refine ⟨hs, fun x hx => ?_⟩
    rcases List.mem_or_eq_of_mem_set hx with hx | rfl
    · exact h.calls x hx
    · exact hp

theorem Kept.add (h : Kept I c) {e : Entry σ ρ} (he : e.Keeps I) : Kept I (c.step (.call e)) := by
  have concat : ∀ {new : Call σ ρ}, new.phase.Keeps I → ∀ x ∈ c.calls ++ [new],
      x.phase.Keeps I := by
    intro new hnew x hx
    rcases List.mem_append.1 hx with hx | hx
    · exact h.calls x hx
    · rw [List.mem_singleton.1 hx]
      exact hnew
  cases e with
  | enter b => exact ⟨h.state, concat he⟩
  | refuse r => exact ⟨h.state, concat trivial⟩

end PromiseChain
