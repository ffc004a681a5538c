import Mathlib.Data.List.Perm.Subperm
import TangentFeed.Js.Text
import TangentFeed.Lib.PromiseChain

/-!
# The Dart watch stream

`Space._watch` reads when it is listened to and again on every matching event,
each read behind a chain of futures. The store, the events and the reads are
arbitrary: a read takes any number of steps and ends with a value or an error.
`watch_serialised` says what the stream emits under every schedule.
-/

namespace TangentFeed.Dart

open PromiseChain

/-! ## The stream -/

/-- A read has ended, or waits and goes on with the store it then finds. -/
inductive Read (σ α ε : Type) where
  | done (result : Except ε α)
  | waiting (next : σ → Read σ α ε)

/-- The arguments of `_watch`: what its `k`-th call of `read` does, and the events that match. -/
structure Watcher (σ α ε β : Type) where
  read : Nat → Read σ α ε
  isMatch : β → Bool

inductive Listener where
  | none
  | listening
  | cancelled
  deriving DecidableEq

/-- A value or an error of the `read`-th read, which began when `began` batches were committed. -/
structure Emission (α ε : Type) where
  read : Nat
  began : Nat
  result : Except ε α

/-- `added` is what it was given, `delivered` what it passed on. -/
structure StreamController (α ε : Type) where
  isClosed : Bool
  listener : Listener
  added : List (Emission α ε)
  delivered : List (Emission α ε)

inductive Mark where
  | began (read : Nat)
  | ended (read : Nat)
  deriving DecidableEq

/-- What the links of the chain see and leave: the store and the batches committed to it, the
controller, and when reads began and ended. -/
structure View (σ α ε β : Type) where
  store : σ
  batches : List β
  controller : StreamController α ε
  marks : List Mark

abbrev Link (σ α ε β : Type) := PromiseChain.Call (View σ α ε β) Unit

variable {σ α ε β : Type}

/-- `watch(table)`, by the tables and rows that an event changes. -/
def watch (list : Nat → Read σ α ε) (table : JsString) :
    Watcher σ α ε (List (JsString × JsString)) :=
  ⟨list, fun changes => changes.any fun c => c.1 == table⟩

/-- `watchRow(table, row)`. -/
def watchRow (get : Nat → Read σ α ε) (table row : JsString) :
    Watcher σ α ε (List (JsString × JsString)) :=
  ⟨get, fun changes => changes.any fun c => c.1 == table && c.2 == row⟩

/-- `read()`, up to its first await. -/
def Read.start (store : σ) : Read σ α ε → Read σ α ε
  | done result => done result
  | waiting next => next store

namespace View

def mark (v : View σ α ε β) (m : Mark) : View σ α ε β := { v with marks := v.marks ++ [m] }

/-- `controller.add` or `controller.addError`, unless it is closed. A subscription that was
cancelled receives nothing. -/
def emit (v : View σ α ε β) (e : Emission α ε) : View σ α ε β :=
  if v.controller.isClosed then v
  else
    let c := v.controller
    { v with controller := { c with
        added := c.added ++ [e]
        delivered := if c.listener = .listening then c.delivered ++ [e] else c.delivered } }

end View

/-- `catchError`. -/
def catching (k began : Nat) (err : ε) : Body (View σ α ε β) Unit :=
  .waiting (fun v => v.emit ⟨k, began, .error err⟩) fun _ => .settled ()

/-- `await read()` and what follows it. -/
def awaiting (k began : Nat) : Read σ α ε → Body (View σ α ε β) Unit
  | .done (.ok value) =>
    .waiting (fun v => (v.mark (.ended k)).emit ⟨k, began, .ok value⟩) fun _ => .settled ()
  | .done (.error err) => .waiting (fun v => v.mark (.ended k)) fun _ => catching k began err
  | .waiting next => .waiting id fun v => awaiting k began (next v.store)

/-- The link that `schedule` appends for the `k`-th read. -/
def link (read : Read σ α ε) (k : Nat) : Body (View σ α ε β) Unit :=
  .waiting (fun v => if v.controller.isClosed then v else v.mark (.began k)) fun v =>
    if v.controller.isClosed then .settled ()
    else awaiting k v.batches.length (read.start v.store)

/-- A watch and the engine it subscribes to. The engine has not told its subscribers of the
batches in `untold`; of those in `calling` it has, and is to call the callback. The batches in
`told` scheduled a read, the last read when `due` batches were committed. -/
structure Watch (σ α ε β : Type) where
  chain : Chain (View σ α ε β) Unit
  subscribed : Bool
  untold : List Nat
  calling : List Nat
  told : List Nat
  due : Nat

namespace Watch

def start (store : σ) : Watch σ α ε β where
  chain := .start ⟨store, [], ⟨false, .none, [], []⟩, []⟩
  subscribed := false
  untold := []
  calling := []
  told := []
  due := 0

inductive Action (σ β : Type) where
  /-- A batch is committed. -/
  | commit (store : σ) (event : β)
  /-- The engine copies its list of subscribers to tell them of a batch. -/
  | tell (n : Nat)
  /-- It calls the callback. -/
  | callback (n : Nat)
  | listen
  | cancel
  /-- The next continuation of the `k`-th link runs, if it is ready. -/
  | go (k : Nat)

def view (w : Watch σ α ε β) : View σ α ε β := w.chain.state

def setView (w : Watch σ α ε β) (v : View σ α ε β) : Watch σ α ε β :=
  { w with chain := { w.chain with state := v } }

def setListener (w : Watch σ α ε β) (l : Listener) : Watch σ α ε β :=
  w.setView { w.view with controller := { w.view.controller with listener := l } }

def schedule (watcher : Watcher σ α ε β) (w : Watch σ α ε β) : Watch σ α ε β :=
  let k := w.chain.calls.length
  { w with chain := w.chain.step (.call (.enter (link (watcher.read k) k)))
           due := w.view.batches.length }

/-- A stream is listened to once. -/
def step (watcher : Watcher σ α ε β) (w : Watch σ α ε β) : Action σ β → Watch σ α ε β
  | .commit store event =>
    { w.setView { w.view with store := store, batches := w.view.batches ++ [event] } with
      untold := w.untold ++ [w.view.batches.length] }
  | .tell n =>
    if n ∈ w.untold then
      { w with untold := w.untold.erase n
               calling := if w.subscribed then w.calling ++ [n] else w.calling }
    else w
  | .callback n =>
    if n ∈ w.calling then
      let called := { w with calling := w.calling.erase n }
      if (w.view.batches[n]?).any watcher.isMatch then
        schedule watcher { called with told := w.told ++ [n] }
      else called
    else w
  | .listen =>
    if w.view.controller.listener = .none then
      schedule watcher { w.setListener .listening with subscribed := true }
    else w
  | .cancel =>
    if w.view.controller.listener = .listening then
      { w.setListener .cancelled with subscribed := false }
    else w
  | .go k => { w with chain := w.chain.step (.go k) }

/-- Every scheduled read is done. -/
def Done (w : Watch σ α ε β) : Prop := ∀ call ∈ w.chain.calls, call.phase.final = true

/-- The marks of `n` reads, one after another. -/
def inOrder (n : Nat) : List Mark := (List.range n).flatMap fun k => [.began k, .ended k]

/-- Every scheduled read was emitted, and the last is later than every batch that scheduled one;
to a listener it was delivered, and it is later than every batch that matches. -/
structure Rested (watcher : Watcher σ α ε β) (w : Watch σ α ε β) : Prop where
  every : w.view.controller.added.map Emission.read = List.range w.chain.calls.length
  last : w.view.controller.listener ≠ .none → ∃ e, w.view.controller.added.getLast? = some e ∧
    (∀ n ∈ w.told, n < e.began) ∧
    (w.view.controller.listener = .listening →
      w.view.controller.delivered = w.view.controller.added ∧
      (w.untold = [] → w.calling = [] → ∀ n event, w.view.batches[n]? = some event →
        watcher.isMatch event = true → n < e.began))

/-! ## The read that is under way -/

/-- How far the chain is with a read; `began` as in its emission. -/
inductive Stage (σ α ε : Type) where
  | idle
  | reading (began : Nat) (read : Read σ α ε)
  | failing (began : Nat) (err : ε)

namespace Stage

def marks (k : Nat) : Stage σ α ε → List Mark
  | idle => []
  | reading _ _ => [.began k]
  | failing _ _ => [.began k, .ended k]

/-- The phase of the `k`-th link. -/
def phase (watcher : Watcher σ α ε β) (k : Nat) :
    Stage σ α ε → Phase (View σ α ε β) Unit
  | idle => .queued (link (watcher.read k) k)
  | reading began read => .running (awaiting k began read)
  | failing began err => .running (catching k began err)

def began? : Stage σ α ε → Option Nat
  | idle => none
  | reading began _ => some began
  | failing began _ => some began

end Stage

/-- The first `j` reads were emitted, the `j`-th is at the stage, the others wait; and the last of
the reads, if it has begun, began after `due` batches. -/
structure Shape (watcher : Watcher σ α ε β) (c : Chain (View σ α ε β) Unit) (due j : Nat)
    (stage : Stage σ α ε) : Prop where
  serial : Serial c
  isOpen : c.state.controller.isClosed = false
  ended : ∀ i call, c.calls[i]? = some call → i < j → ∃ r, call.phase.result? = some r
  current : ∀ call, c.calls[j]? = some call → call.phase = stage.phase watcher j
  within : j ≤ c.calls.length ∧ (stage.began? ≠ none → j < c.calls.length)
  queued : ∀ i call, c.calls[i]? = some call → j < i →
    call.phase = .queued (link (watcher.read i) i)
  marks : c.state.marks = inOrder j ++ stage.marks j
  added : c.state.controller.added.map Emission.read = List.range j
  due_le : due ≤ c.state.batches.length
  late : ∀ began, stage.began? = some began → j + 1 = c.calls.length → due ≤ began
  emitted : ∀ e ∈ c.state.controller.added, e.read + 1 = c.calls.length → due ≤ e.began
  delivered : c.state.controller.listener = .listening →
    c.state.controller.delivered = c.state.controller.added

variable {watcher : Watcher σ α ε β} {c : Chain (View σ α ε β) Unit} {due j k : Nat}
  {stage stage' : Stage σ α ε}

theorem inOrder_succ (n : Nat) : inOrder (n + 1) = inOrder n ++ [.began n, .ended n] := by
  unfold inOrder
  rw [List.range_succ, List.flatMap_append, List.flatMap_singleton]

theorem emit_of_open {v : View σ α ε β} (h : v.controller.isClosed = false) (e : Emission α ε) :
    v.emit e = { v with controller := { v.controller with
      added := v.controller.added ++ [e]
      delivered := if v.controller.listener = .listening then v.controller.delivered ++ [e]
        else v.controller.delivered } } := by
  unfold View.emit
  rw [h]
  rfl

theorem Shape.read_lt (h : Shape watcher c due j stage) {e : Emission α ε}
    (he : e ∈ c.state.controller.added) : e.read < j := by
  have hm : e.read ∈ c.state.controller.added.map Emission.read := List.mem_map.2 ⟨e, he, rfl⟩
  rw [h.added] at hm
  exact List.mem_range.1 hm

/-- Others change the store, the batches and the listener. -/
theorem Shape.withState (h : Shape watcher c due j stage) {v : View σ α ε β}
    (hopen : v.controller.isClosed = false) (hmarks : v.marks = c.state.marks)
    (hadded : v.controller.added = c.state.controller.added)
    (hdue : due ≤ v.batches.length)
    (hdelivered : v.controller.listener = .listening →
      v.controller.delivered = v.controller.added) :
    Shape watcher { c with state := v } due j stage where
  serial := h.serial.withState v
  isOpen := hopen
  ended := h.ended
  current := h.current
  within := h.within
  queued := h.queued
  marks := hmarks.trans h.marks
  added := by rw [← h.added, ← hadded]
  due_le := hdue
  late := h.late
  emitted e he := h.emitted e (by rw [← hadded]; exact he)
  delivered := hdelivered

/-- A read is scheduled. -/
theorem Shape.schedule (h : Shape watcher c due j stage) :
    Shape watcher (c.step (.call (.enter (link (watcher.read c.calls.length) c.calls.length))))
      c.state.batches.length j stage := by
  have hlen : (c.step (.call (.enter (link (watcher.read c.calls.length)
      c.calls.length)))).calls.length = c.calls.length + 1 := List.length_append
  refine {
    serial := h.serial.step _, isOpen := h.isOpen, marks := h.marks, added := h.added
    due_le := Nat.le_refl _, delivered := h.delivered
    ended := fun i call hi hlt => ?_, current := fun call hj => ?_, within := ?_
    queued := fun i call hi hlt => ?_, late := fun began hb hlast => ?_
    emitted := fun e he hlast => ?_ }
  · rcases getElem?_concat hi with hi | ⟨rfl, -⟩
    · exact h.ended i call hi hlt
    · exact absurd hlt (Nat.not_lt.2 h.within.1)
  · rcases getElem?_concat hj with hj | ⟨hlast, rfl⟩
    · exact h.current call hj
    · cases stage with
      | idle => rw [hlast]; rfl
      | reading began read => exact absurd hlast (Nat.ne_of_lt (h.within.2 nofun))
      | failing began err => exact absurd hlast (Nat.ne_of_lt (h.within.2 nofun))
  · rw [hlen]
    exact ⟨Nat.le_succ_of_le h.within.1, fun hs => Nat.lt_succ_of_lt (h.within.2 hs)⟩
  · rcases getElem?_concat hi with hi | ⟨rfl, rfl⟩
    · exact h.queued i call hi hlt
    · rfl
  · -- the last read is the one that was scheduled now
    have hlt := h.within.2 (by rw [hb]; nofun)
    omega
  · have hlt := h.read_lt he
    have hle := h.within.1
    omega

/-- The call that goes on is the current one, or one that has emitted. -/
theorem Shape.le_of_next (h : Shape watcher c due j stage) {call : Link σ α ε β}
    {v : View σ α ε β} {p : Phase (View σ α ε β) Unit} (hk : c.calls[k]? = some call)
    (hn : c.next call = some (v, p)) : k ≤ j := by
  by_contra hlt
  rw [Nat.not_le] at hlt
  obtain ⟨cur, hcur⟩ : ∃ cur, c.calls[j]? = some cur :=
    ⟨_, List.getElem?_eq_getElem (Nat.lt_trans hlt (getElem?_lt hk))⟩
  have hfinal := h.serial.final_before hk hn hcur hlt
  rw [h.current cur hcur] at hfinal
  cases stage <;> cases hfinal

section Go

variable {call : Link σ α ε β} {v : View σ α ε β} {p : Phase (View σ α ε β) Unit}

/-- The chain after a continuation of the `k`-th link. -/
def went (c : Chain (View σ α ε β) Unit) (k : Nat) (call : Link σ α ε β)
    (v : View σ α ε β) (p : Phase (View σ α ε β) Unit) : Chain (View σ α ε β) Unit :=
  { c with state := v, calls := c.calls.set k { call with phase := p } }

theorem length_went : (went c k call v p).calls.length = c.calls.length := List.length_set

theorem state_went : (went c k call v p).state = v := rfl

/-- A link passes on. -/
theorem Shape.pass (h : Shape watcher c due j stage) (hk : c.calls[k]? = some call)
    (hn : c.next call = some (v, p)) (hlt : k < j) :
    Shape watcher (went c k call v p) due j stage := by
  obtain ⟨r, hr⟩ := h.ended k call hk hlt
  obtain ⟨hv, r', hp⟩ : v = c.state ∧ ∃ r', p = .passed r' := by
    obtain ⟨after, phase⟩ := call
    unfold Chain.next at hn
    cases phase with
    | settled r' => exact ⟨(Prod.mk.inj (Option.some.inj hn)).1.symm, r',
        (Prod.mk.inj (Option.some.inj hn)).2.symm⟩
    | queued b => cases hr
    | running b => cases hr
    | passed r' => cases hn
    | refused r' => cases hn
  subst hv
  have hother : ∀ {i : Nat} {x : Link σ α ε β}, k ≠ i →
      (went c k call c.state p).calls[i]? = some x → c.calls[i]? = some x := by
    intro i x hne hi
    rwa [went, List.getElem?_set_ne hne] at hi
  refine {
    serial := h.serial.go hk hn, isOpen := h.isOpen, marks := h.marks, added := h.added
    due_le := h.due_le, delivered := h.delivered
    ended := fun i x hi hi' => ?_, current := fun x hj => h.current x (hother (by omega) hj)
    within := by rw [length_went]; exact h.within
    queued := fun i x hi hi' => h.queued i x (hother (by omega) hi) hi'
    late := by rw [length_went]; exact h.late
    emitted := by rw [length_went]; exact h.emitted }
  by_cases hki : k = i
  · subst hki
    rw [went, List.getElem?_set_self (getElem?_lt hk)] at hi
    rw [← Option.some.inj hi, hp]
    exact ⟨r', rfl⟩
  · exact h.ended i x (hother hki hi) hi'

/-- The current read goes on to another stage. -/
theorem Shape.goOn (h : Shape watcher c due j stage) (hk : c.calls[j]? = some call)
    (hn : c.next call = some (v, p)) (hp : p = stage'.phase watcher j)
    (hopen : v.controller.isClosed = false) (hmarks : v.marks = inOrder j ++ stage'.marks j)
    (hcontroller : v.controller = c.state.controller) (hbatches : v.batches = c.state.batches)
    (hlate : ∀ began, stage'.began? = some began → j + 1 = c.calls.length → due ≤ began) :
    Shape watcher (went c j call v p) due j stage' := by
  have hlt := getElem?_lt hk
  have hother : ∀ {i : Nat} {x : Link σ α ε β}, j ≠ i →
      (went c j call v p).calls[i]? = some x → c.calls[i]? = some x := by
    intro i x hne hi
    rwa [went, List.getElem?_set_ne hne] at hi
  refine {
    serial := h.serial.go hk hn, isOpen := hopen, marks := hmarks
    added := by rw [← h.added, ← hcontroller]; rfl
    due_le := by rw [state_went, hbatches]; exact h.due_le
    delivered := by rw [state_went, hcontroller]; exact h.delivered
    ended := fun i x hi hi' => h.ended i x (hother (by omega) hi) hi'
    current := fun x hj => ?_
    within := by rw [length_went]; exact ⟨Nat.le_of_lt hlt, fun _ => hlt⟩
    queued := fun i x hi hi' => h.queued i x (hother (by omega) hi) hi'
    late := by rw [length_went]; exact hlate
    emitted := by rw [length_went, state_went, hcontroller]; exact h.emitted }
  rw [went, List.getElem?_set_self hlt] at hj
  rw [← Option.some.inj hj]
  exact hp

/-- The current read emits. -/
theorem Shape.emits (h : Shape watcher c due j stage) (hk : c.calls[j]? = some call)
    {v : View σ α ε β} {e : Emission α ε} (hn : c.next call = some (v.emit e, .settled ()))
    (hopen : v.controller = c.state.controller) (hbatches : v.batches = c.state.batches)
    (hmarks : v.marks = inOrder (j + 1)) (hread : e.read = j)
    (hbegan : stage.began? = some e.began) :
    Shape watcher (went c j call (v.emit e) (.settled ())) due (j + 1) .idle := by
  have hlt := getElem?_lt hk
  have hother : ∀ {i : Nat} {x : Link σ α ε β}, j ≠ i →
      (went c j call (v.emit e) (.settled ())).calls[i]? = some x → c.calls[i]? = some x := by
    intro i x hne hi
    rwa [went, List.getElem?_set_ne hne] at hi
  have hemit := emit_of_open (by rw [hopen]; exact h.isOpen) e
  rw [hopen] at hemit
  have hadded : (v.emit e).controller.added = c.state.controller.added ++ [e] := by rw [hemit]
  refine {
    serial := h.serial.go hk hn
    isOpen := by rw [state_went, hemit]; exact h.isOpen
    marks := by rw [state_went, hemit, Stage.marks, List.append_nil]; exact hmarks
    added := by rw [state_went, hadded, List.map_append, h.added, List.range_succ,
      List.map_singleton, hread]
    due_le := by rw [state_went, hemit, hbatches]; exact h.due_le
    delivered := fun hl => ?_
    ended := fun i x hi hi' => ?_
    current := fun x hj => h.queued (j + 1) x (hother (by omega) hj) (Nat.lt_succ_self j)
    within := by rw [length_went]; exact ⟨hlt, fun hs => absurd rfl hs⟩
    queued := fun i x hi hi' => h.queued i x (hother (by omega) hi) (Nat.lt_of_succ_lt hi')
    late := nofun
    emitted := fun x hx hlast => ?_ }
  · by_cases hji : j = i
    · subst hji
      rw [went, List.getElem?_set_self hlt] at hi
      rw [← Option.some.inj hi]
      exact ⟨(), rfl⟩
    · exact h.ended i x (hother hji hi) (by omega)
  · rw [length_went] at hlast
    rw [state_went, hadded] at hx
    rcases List.mem_append.1 hx with hx | hx
    · exact h.emitted x hx hlast
    · obtain rfl := List.mem_singleton.1 hx
      rw [hread] at hlast
      exact h.late _ hbegan hlast
  · rw [state_went, hemit] at hl ⊢
    simp only at hl ⊢
    rw [if_pos hl, h.delivered hl]

theorem ofBody_awaiting (k began : Nat) (read : Read σ α ε) :
    Phase.ofBody (awaiting (β := β) k began read) = .running (awaiting k began read) := by
  cases read with
  | done result => cases result <;> rfl
  | waiting next => rfl

/-- A queued link that is ready begins its read. -/
theorem Shape.begins (h : Shape watcher c due j .idle) (hk : c.calls[j]? = some call)
    (hn : c.next call = some (v, p)) :
    ∃ stage', Shape watcher (went c j call v p) due j stage' := by
  have hphase : call.phase = .queued (link (watcher.read j) j) := h.current call hk
  have hnext := hn
  unfold Chain.next at hnext
  rw [hphase] at hnext
  simp only at hnext
  split at hnext
  · obtain ⟨hv, hp⟩ := Prod.mk.inj (Option.some.inj hnext)
    have hleaves : v = c.state.mark (.began j) := by
      rw [← hv]
      exact if_neg (by rw [h.isOpen]; exact Bool.false_ne_true)
    have hrest : p = .running
        (awaiting j c.state.batches.length ((watcher.read j).start c.state.store)) := by
      rw [← hp, ← ofBody_awaiting]
      refine congrArg Phase.ofBody (if_neg ?_)
      rw [h.isOpen]
      exact Bool.false_ne_true
    subst hleaves
    refine ⟨.reading c.state.batches.length ((watcher.read j).start c.state.store),
      h.goOn hk hn hrest h.isOpen ?_ rfl rfl fun began hb _ => ?_⟩
    · change c.state.marks ++ [.began j] = _
      rw [h.marks, Stage.marks, List.append_nil]
      rfl
    · rw [← Option.some.inj hb]
      exact h.due_le
  · cases hnext

/-- The read that is under way goes on, fails or is emitted. -/
theorem Shape.reads {began : Nat} {read : Read σ α ε}
    (h : Shape watcher c due j (.reading began read)) (hk : c.calls[j]? = some call)
    (hn : c.next call = some (v, p)) :
    ∃ j' stage', Shape watcher (went c j call v p) due j' stage' := by
  have hphase : call.phase = .running (awaiting j began read) := h.current call hk
  have hnext := hn
  unfold Chain.next at hnext
  rw [hphase] at hnext
  obtain ⟨hv, hp⟩ := Prod.mk.inj (Option.some.inj hnext)
  have hmarks : c.state.marks ++ [.ended j] = inOrder (j + 1) := by
    rw [h.marks, inOrder_succ, List.append_assoc]
    rfl
  cases read with
  | done result =>
    cases result with
    | ok value =>
      subst hv
      subst hp
      exact ⟨_, _, h.emits hk hn rfl rfl hmarks rfl rfl⟩
    | error err =>
      subst hv
      subst hp
      refine ⟨j, .failing began err, h.goOn hk hn rfl h.isOpen ?_ rfl rfl h.late⟩
      change c.state.marks ++ [.ended j] = _
      rw [hmarks, inOrder_succ]
      rfl
  | waiting next =>
    subst hv
    subst hp
    exact ⟨j, .reading began (next c.state.store),
      h.goOn hk hn (ofBody_awaiting ..) h.isOpen h.marks rfl rfl h.late⟩

/-- The error is emitted. -/
theorem Shape.fails {began : Nat} {err : ε} (h : Shape watcher c due j (.failing began err))
    (hk : c.calls[j]? = some call) (hn : c.next call = some (v, p)) :
    ∃ j' stage', Shape watcher (went c j call v p) due j' stage' := by
  have hphase : call.phase = .running (catching j began err) := h.current call hk
  have hnext := hn
  unfold Chain.next at hnext
  rw [hphase] at hnext
  obtain ⟨hv, hp⟩ := Prod.mk.inj (Option.some.inj hnext)
  subst hv
  subst hp
  refine ⟨_, _, h.emits hk hn rfl rfl ?_ rfl rfl⟩
  rw [h.marks, inOrder_succ]
  rfl

end Go

/-- **A continuation keeps the shape.** -/
theorem Shape.go (h : Shape watcher c due j stage) (k : Nat) :
    ∃ j' stage', Shape watcher (c.step (.go k)) due j' stage' := by
  rcases go_cases c k with hstep | ⟨call, v, p, hk, hn, hstep⟩
  · rw [hstep]
    exact ⟨j, stage, h⟩
  · rw [hstep]
    rcases Nat.lt_or_eq_of_le (h.le_of_next hk hn) with hlt | rfl
    · exact ⟨j, stage, h.pass hk hn hlt⟩
    · cases stage with
      | idle =>
        obtain ⟨stage', h'⟩ := h.begins hk hn
        exact ⟨k, stage', h'⟩
      | reading began read => exact h.reads hk hn
      | failing began err => exact h.fails hk hn

/-! ## What a continuation leaves alone -/

/-- The batches and the listener. -/
def Still (batches : List β) (listener : Listener) (v : View σ α ε β) : Prop :=
  v.batches = batches ∧ v.controller.listener = listener

variable {batches : List β} {listener : Listener}

theorem Still.emit {v : View σ α ε β} (h : Still batches listener v) (e : Emission α ε) :
    Still batches listener (v.emit e) := by
  unfold View.emit
  split
  · exact h
  · exact h

theorem catching_keeps (k began : Nat) (err : ε) :
    (catching (σ := σ) (α := α) k began err).Keeps (Still batches listener) :=
  fun _ hv => ⟨hv.emit _, trivial⟩

theorem awaiting_keeps (k began : Nat) (read : Read σ α ε) :
    (awaiting k began read).Keeps (Still batches listener) := by
  induction read with
  | done result =>
    cases result with
    | ok value => exact fun v hv => ⟨Still.emit (v := v.mark _) hv _, trivial⟩
    | error err => exact fun v hv => ⟨hv, catching_keeps k began err⟩
  | waiting next ih => exact fun v hv => ⟨hv, ih v.store⟩

theorem link_keeps (read : Read σ α ε) (k : Nat) :
    (link read k).Keeps (Still batches listener) := by
  intro v hv
  cases hclosed : v.controller.isClosed with
  | true =>
    simp only [hclosed, if_true]
    exact ⟨hv, trivial⟩
  | false =>
    simp only [hclosed, Bool.false_eq_true, if_false]
    exact ⟨hv, awaiting_keeps ..⟩

theorem Shape.still (h : Shape watcher c due j stage) (k : Nat) :
    Still c.state.batches c.state.controller.listener (c.step (.go k)).state := by
  have hkept : PromiseChain.Kept (Still c.state.batches c.state.controller.listener) c := by
    refine ⟨⟨rfl, rfl⟩, fun call hm => ?_⟩
    obtain ⟨i, hi⟩ := List.mem_iff_getElem?.1 hm
    rcases Nat.lt_trichotomy i j with hlt | rfl | hlt
    · obtain ⟨r, hr⟩ := h.ended i call hi hlt
      cases hp : call.phase with
      | queued b => rw [hp] at hr; cases hr
      | running b => rw [hp] at hr; cases hr
      | settled r' => trivial
      | passed r' => trivial
      | refused r' => trivial
    · rw [h.current call hi]
      cases stage with
      | idle => exact link_keeps (watcher.read i) i
      | reading began read => exact awaiting_keeps i began read
      | failing began err => exact catching_keeps i began err
    · rw [h.queued i call hi hlt]
      exact link_keeps (watcher.read i) i
  exact (hkept.go k).state

/-! ## Every step -/

structure Kept (watcher : Watcher σ α ε β) (w : Watch σ α ε β) : Prop where
  shape : ∃ j stage, Shape watcher w.chain w.due j stage
  counted : w.chain.calls.length =
    w.told.length + if w.view.controller.listener = .none then 0 else 1
  subscribed : w.subscribed = true ↔ w.view.controller.listener = .listening
  before : w.view.controller.listener = .none →
    w.calling = [] ∧ w.told = [] ∧ w.view.controller.delivered = []
  committed : ∀ n, n ∈ w.untold ∨ n ∈ w.calling → n < w.view.batches.length
  told : ∀ n ∈ w.told, n < w.due
  matched : w.view.controller.listener = .listening → ∀ n event, w.view.batches[n]? = some event →
    watcher.isMatch event = true → n ∈ w.untold ∨ n ∈ w.calling ∨ n < w.due

variable {w : Watch σ α ε β}

theorem mem_erase_or {n m : Nat} {l : List Nat} (h : n ∈ l) : n = m ∨ n ∈ l.erase m := by
  by_cases hne : n = m
  · exact .inl hne
  · exact .inr ((List.mem_erase_of_ne hne).2 h)

theorem kept_start (store : σ) : Kept watcher (start (α := α) (ε := ε) (β := β) store) where
  shape := ⟨0, .idle, {
    serial := .start _, isOpen := rfl, ended := nofun, current := nofun
    within := ⟨Nat.le_refl 0, fun h => absurd rfl h⟩, queued := nofun, marks := rfl, added := rfl
    due_le := Nat.le_refl 0, late := nofun, emitted := nofun, delivered := nofun }⟩
  counted := rfl
  subscribed := ⟨nofun, nofun⟩
  before _ := ⟨rfl, rfl, rfl⟩
  committed n h := by rcases h with h | h <;> cases h
  told := nofun
  matched := nofun

theorem Kept.commit (h : Kept watcher w) (store : σ) (event : β) :
    Kept watcher (w.step watcher (.commit store event)) := by
  obtain ⟨j, stage, hshape⟩ := h.shape
  have hlen : (w.view.batches ++ [event]).length = w.view.batches.length + 1 :=
    List.length_append
  refine ⟨⟨j, stage, hshape.withState hshape.isOpen rfl rfl ?_ hshape.delivered⟩, h.counted,
    h.subscribed, h.before, fun n hn => ?_, h.told, fun hl n ev hev hm => ?_⟩
  · change w.due ≤ (w.view.batches ++ [event]).length
    rw [hlen]
    exact Nat.le_succ_of_le hshape.due_le
  · change n < (w.view.batches ++ [event]).length
    rw [hlen]
    rcases hn with hn | hn
    · rcases List.mem_append.1 hn with hn | hn
      · exact Nat.lt_succ_of_lt (h.committed n (.inl hn))
      · rw [List.mem_singleton.1 hn]
        exact Nat.lt_succ_self _
    · exact Nat.lt_succ_of_lt (h.committed n (.inr hn))
  · rcases getElem?_concat hev with hev | ⟨rfl, -⟩
    · exact (h.matched hl n ev hev hm).imp_left (List.mem_append_left _)
    · exact .inl (List.mem_append_right _ (List.mem_singleton_self _))

theorem Kept.tell (h : Kept watcher w) (n : Nat) : Kept watcher (w.step watcher (.tell n)) := by
  unfold step
  simp only
  by_cases hn : n ∈ w.untold
  · rw [if_pos hn]
    have hcalling : ∀ m, m ∈ (if w.subscribed then w.calling ++ [n] else w.calling) →
        m = n ∨ m ∈ w.calling := by
      intro m hm
      split at hm
      · rcases List.mem_append.1 hm with hm | hm
        · exact .inr hm
        · exact .inl (List.mem_singleton.1 hm)
      · exact .inr hm
    refine ⟨h.shape, h.counted, h.subscribed, fun hl => ?_, fun m hm => ?_, h.told,
      fun hl m ev hev hmatch => ?_⟩
    · obtain ⟨hc, ht⟩ := h.before hl
      have hsub : w.subscribed = false := by
        have hl : w.view.controller.listener = .none := hl
        rw [← Bool.not_eq_true, h.subscribed, hl]
        nofun
      exact ⟨by simp only [hsub, Bool.false_eq_true, if_false]; exact hc, ht⟩
    · rcases hm with hm | hm
      · exact h.committed m (.inl (List.mem_of_mem_erase hm))
      · rcases hcalling m hm with rfl | hm
        · exact h.committed m (.inl hn)
        · exact h.committed m (.inr hm)
    · have hsub : w.subscribed = true := h.subscribed.2 hl
      simp only [hsub, if_true]
      rcases h.matched hl m ev hev hmatch with hm | hm | hm
      · rcases mem_erase_or (m := n) hm with rfl | hm
        · exact .inr (.inl (List.mem_append_right _ (List.mem_singleton_self _)))
        · exact .inl hm
      · exact .inr (.inl (List.mem_append_left _ hm))
      · exact .inr (.inr hm)
  · rw [if_neg hn]
    exact h

theorem Kept.callback (h : Kept watcher w) (n : Nat) :
    Kept watcher (w.step watcher (.callback n)) := by
  unfold step
  simp only
  by_cases hn : n ∈ w.calling
  · rw [if_pos hn]
    have hlistener : w.view.controller.listener ≠ .none := by
      intro hl
      rw [(h.before hl).1] at hn
      cases hn
    have hcommitted : ∀ m, m ∈ w.untold ∨ m ∈ w.calling.erase n → m < w.view.batches.length :=
      fun m hm => h.committed m (hm.imp_right List.mem_of_mem_erase)
    obtain ⟨j, stage, hshape⟩ := h.shape
    by_cases hmatch : (w.view.batches[n]?).any watcher.isMatch = true
    · -- a read is scheduled after every batch so far
      rw [if_pos hmatch]
      refine ⟨⟨j, stage, hshape.schedule⟩, ?_, h.subscribed, fun hl => absurd hl hlistener,
        hcommitted, fun m hm => ?_, fun hl m ev hev _ => ?_⟩
      · change (w.chain.calls ++ [_]).length =
          (w.told ++ [n]).length + if w.view.controller.listener = .none then 0 else 1
        rw [List.length_append, List.length_append, h.counted]
        simp only [List.length_singleton]
        omega
      · rcases List.mem_append.1 hm with hm | hm
        · exact Nat.lt_of_lt_of_le (h.told m hm) hshape.due_le
        · rw [List.mem_singleton.1 hm]
          exact h.committed n (.inr hn)
      · exact .inr (.inr (getElem?_lt hev))
    · rw [if_neg hmatch]
      refine ⟨h.shape, h.counted, h.subscribed, fun hl => absurd hl hlistener, hcommitted, h.told,
        fun hl m ev hev hm => ?_⟩
      rcases h.matched hl m ev hev hm with hu | hc | hd
      · exact .inl hu
      · rcases mem_erase_or (m := n) hc with rfl | hc
        · have hev : w.view.batches[m]? = some ev := hev
          rw [hev] at hmatch
          exact absurd hm hmatch
        · exact .inr (.inl hc)
      · exact .inr (.inr hd)
  · rw [if_neg hn]
    exact h

theorem Kept.listen (h : Kept watcher w) : Kept watcher (w.step watcher .listen) := by
  unfold step
  simp only
  by_cases hl : w.view.controller.listener = .none
  · rw [if_pos hl]
    obtain ⟨hcalling, htold, hdelivered⟩ := h.before hl
    obtain ⟨j, stage, hshape⟩ := h.shape
    have hempty : w.chain.calls.length = 0 := by
      rw [h.counted, htold, if_pos hl]
      rfl
    have hadded : w.view.controller.added = [] := by
      have hj : j = 0 := Nat.le_zero.1 (Nat.le_trans hshape.within.1 (Nat.le_of_eq hempty))
      have hmap := hshape.added
      rw [hj, List.range_zero] at hmap
      exact List.map_eq_nil_iff.1 hmap
    have hset := hshape.withState
      (v := { w.view with controller := { w.view.controller with listener := .listening } })
      hshape.isOpen rfl rfl hshape.due_le fun _ => hdelivered.trans hadded.symm
    refine ⟨⟨j, stage, hset.schedule⟩, ?_, ⟨fun _ => rfl, fun _ => rfl⟩, nofun, h.committed,
      fun n hn => ?_, fun _ n ev hev _ => .inr (.inr (getElem?_lt hev))⟩
    · change (w.chain.calls ++ [_]).length = w.told.length + 1
      rw [List.length_append, hempty, htold]
      rfl
    · have hn : n ∈ w.told := hn
      rw [htold] at hn
      cases hn
  · rw [if_neg hl]
    exact h

theorem Kept.cancel (h : Kept watcher w) : Kept watcher (w.step watcher .cancel) := by
  unfold step
  simp only
  by_cases hl : w.view.controller.listener = .listening
  · rw [if_pos hl]
    obtain ⟨j, stage, hshape⟩ := h.shape
    refine ⟨⟨j, stage, hshape.withState hshape.isOpen rfl rfl hshape.due_le nofun⟩, ?_,
      ⟨nofun, nofun⟩, nofun, h.committed, h.told, nofun⟩
    have hcounted := h.counted
    rw [if_neg (by rw [hl]; nofun)] at hcounted
    exact hcounted
  · rw [if_neg hl]
    exact h

theorem length_go (c : Chain (View σ α ε β) Unit) (k : Nat) :
    (c.step (.go k)).calls.length = c.calls.length := by
  rcases go_cases c k with h | ⟨call, v, p, -, -, h⟩
  · rw [h]
  · rw [h]
    exact List.length_set

theorem Kept.go (h : Kept watcher w) (k : Nat) : Kept watcher (w.step watcher (.go k)) := by
  obtain ⟨j, stage, hshape⟩ := h.shape
  obtain ⟨hbatches, hlistener⟩ := hshape.still k
  have hbatches : (w.step watcher (.go k)).view.batches = w.view.batches := hbatches
  have hlistener : (w.step watcher (.go k)).view.controller.listener =
    w.view.controller.listener := hlistener
  refine ⟨hshape.go k, ?_, ?_, fun hl => ?_, ?_, h.told, ?_⟩
  · rw [hlistener]
    exact (length_go w.chain k).trans h.counted
  · rw [hlistener]
    exact h.subscribed
  · rw [hlistener] at hl
    obtain ⟨hcalling, htold, hdelivered⟩ := h.before hl
    have hempty : w.chain.calls = [] := by
      rw [← List.length_eq_zero_iff, h.counted, htold, if_pos hl]
      rfl
    have hsame : w.chain.step (.go k) = w.chain := by
      rcases go_cases w.chain k with hstep | ⟨call, _, _, hk, _⟩
      · exact hstep
      · rw [hempty] at hk
        cases hk
    refine ⟨hcalling, htold, ?_⟩
    change (w.chain.step (.go k)).state.controller.delivered = []
    rw [hsame]
    exact hdelivered
  · rw [hbatches]
    exact h.committed
  · rw [hlistener, hbatches]
    exact h.matched

theorem Kept.step (h : Kept watcher w) (a : Action σ β) : Kept watcher (w.step watcher a) := by
  cases a with
  | commit store event => exact h.commit store event
  | tell n => exact h.tell n
  | callback n => exact h.callback n
  | listen => exact h.listen
  | cancel => exact h.cancel
  | go k => exact h.go k

/-! ## What follows -/

/-- When every read is done, the last was scheduled after everything that was told. -/
theorem Kept.rested (h : Kept watcher w) (hdone : w.Done) : Rested watcher w := by
  obtain ⟨j, stage, hshape⟩ := h.shape
  obtain rfl : j = w.chain.calls.length := by
    refine Nat.le_antisymm hshape.within.1 (Nat.le_of_not_lt fun hlt => ?_)
    have hj := List.getElem?_eq_getElem hlt
    have hfinal := hdone _ (List.mem_of_getElem? hj)
    rw [hshape.current _ hj] at hfinal
    cases stage <;> cases hfinal
  refine ⟨hshape.added, fun hl => ?_⟩
  have hpos : w.chain.calls.length ≠ 0 := by
    rw [h.counted, if_neg hl]
    omega
  obtain ⟨n, hn⟩ := Nat.exists_eq_succ_of_ne_zero hpos
  have hlast : (w.view.controller.added.map Emission.read).getLast? = some n := by
    have hmap : w.view.controller.added.map Emission.read = List.range (n + 1) := by
      rw [← Nat.succ_eq_add_one, ← hn]
      exact hshape.added
    rw [hmap, List.range_succ, List.getLast?_concat]
  rw [List.getLast?_map] at hlast
  obtain ⟨e, he, hread⟩ := Option.map_eq_some_iff.1 hlast
  have hdue : w.due ≤ e.began := hshape.emitted e (List.mem_of_getLast? he) (by rw [hread, hn])
  refine ⟨e, he, fun m hm => Nat.lt_of_lt_of_le (h.told m hm) hdue, fun hlisten =>
    ⟨hshape.delivered hlisten, fun hu hc m ev hev hmatch => ?_⟩⟩
  rcases h.matched hlisten m ev hev hmatch with hm | hm | hm
  · rw [hu] at hm
    cases hm
  · rw [hc] at hm
    cases hm
  · exact Nat.lt_of_lt_of_le hm hdue

/-- A batch that is told after the cancellation schedules nothing: only those whose callbacks the
engine was about to call may. -/
structure Detached (w w' : Watch σ α ε β) : Prop where
  listener : w'.view.controller.listener = .cancelled
  subscribed : w'.subscribed = false
  late : ∃ late, w'.told = w.told ++ late ∧ (late ++ w'.calling).Subperm w.calling
  counted : w'.chain.calls.length + w.told.length = w.chain.calls.length + w'.told.length

theorem Detached.step {w' : Watch σ α ε β} (h : Detached w w') (hk : Kept watcher w')
    (a : Action σ β) : Detached w (w'.step watcher a) := by
  obtain ⟨late, htold, hlate⟩ := h.late
  cases a with
  | commit store event => exact ⟨h.listener, h.subscribed, h.late, h.counted⟩
  | tell n =>
    unfold Watch.step
    simp only
    split
    · refine ⟨h.listener, h.subscribed, ⟨late, htold, ?_⟩, h.counted⟩
      simp only [h.subscribed, Bool.false_eq_true, if_false]
      exact hlate
    · exact h
  | callback n =>
    unfold Watch.step
    simp only
    by_cases hn : n ∈ w'.calling
    · rw [if_pos hn]
      have hperm : (late ++ w'.calling).Perm ((late ++ [n]) ++ w'.calling.erase n) := by
        rw [List.append_assoc]
        exact (List.perm_cons_erase hn).append_left late
      by_cases hmatch : (w'.view.batches[n]?).any watcher.isMatch = true
      · rw [if_pos hmatch]
        refine ⟨h.listener, h.subscribed, ⟨late ++ [n], ?_, hperm.symm.subperm.trans hlate⟩, ?_⟩
        · change w'.told ++ [n] = _
          rw [htold, List.append_assoc]
        · change (w'.chain.calls ++ [_]).length + w.told.length =
            w.chain.calls.length + (w'.told ++ [n]).length
          rw [List.length_append, List.length_append, List.length_singleton, List.length_singleton]
          have hcounted := h.counted
          omega
      · rw [if_neg hmatch]
        refine ⟨h.listener, h.subscribed, ⟨late, htold, List.Subperm.trans ?_ hlate⟩, h.counted⟩
        exact ((List.erase_sublist).append_left late).subperm
    · rw [if_neg hn]
      exact h
  | listen =>
    unfold Watch.step
    simp only
    rw [if_neg (by rw [h.listener]; nofun)]
    exact h
  | cancel =>
    unfold Watch.step
    simp only
    rw [if_neg (by rw [h.listener]; nofun)]
    exact h
  | go k =>
    obtain ⟨j, stage, hshape⟩ := hk.shape
    refine ⟨(hshape.still k).2.trans h.listener, h.subscribed, h.late, ?_⟩
    change (w'.chain.step (.go k)).calls.length + _ = _
    rw [length_go]
    exact h.counted

/-- The first read fails while a second is scheduled, which is emitted all the same. -/
example :
    let watcher : Watcher Nat Nat Unit Bool :=
      ⟨fun k => .waiting fun n => .done (if k = 0 then .error () else .ok n), id⟩
    let w := Runs.run (step watcher) (start 7)
      ([.listen, .go 0, .commit 8 true, .tell 0, .callback 0] ++ List.replicate 4 (.go 0) ++
        List.replicate 3 (.go 1))
    w.view.controller.delivered.map (fun e => (e.read, e.began, e.result.toOption)) =
      [(0, 0, none), (1, 1, some 8)] := by decide

/-! ## A table and a row -/

/-- The last that the listener received is of a read later than every batch that concerns it. -/
def UpToDate (w : Watch σ α ε β) (concerns : β → Prop) : Prop :=
  ∃ e, w.view.controller.delivered.getLast? = some e ∧
    ∀ n event, w.view.batches[n]? = some event → concerns event → n < e.began

/-- A listener, every read done and every batch told. -/
structure AtRest (w : Watch σ α ε β) : Prop where
  done : w.Done
  listening : w.view.controller.listener = .listening
  untold : w.untold = []
  calling : w.calling = []

theorem Kept.upToDate (h : Kept watcher w) (hrest : AtRest w) :
    UpToDate w fun event => watcher.isMatch event = true := by
  obtain ⟨e, he, -, hlast⟩ := (h.rested hrest.done).last (by rw [hrest.listening]; nofun)
  obtain ⟨hdelivered, hmatch⟩ := hlast hrest.listening
  exact ⟨e, hdelivered ▸ he, hmatch hrest.untold hrest.calling⟩

theorem UpToDate.of_imp {p q : β → Prop} (h : UpToDate w p) (hpq : ∀ event, q event → p event) :
    UpToDate w q := by
  obtain ⟨e, he, hlast⟩ := h
  exact ⟨e, he, fun n event hn hq => hlast n event hn (hpq event hq)⟩

/-- **A watched table is up to date at rest**: the list that was received last was read after
every batch that changed a row of the table. -/
theorem watch_upToDate (list : Nat → Read σ α ε) (table : JsString) (store : σ)
    (acts : List (Action σ (List (JsString × JsString)))) :
    let w := Runs.run (step (watch list table)) (start store) acts
    AtRest w → UpToDate w fun changes => ∃ row, (table, row) ∈ changes := by
  intro w hrest
  have hkept : Kept (watch list table) w :=
    Runs.run_invariant (fun _ a hw => hw.step a) (kept_start store) acts
  refine (hkept.upToDate hrest).of_imp fun changes ⟨row, hm⟩ => ?_
  exact List.any_eq_true.2 ⟨_, hm, beq_self_eq_true table⟩

/-- **A watched row is up to date at rest.** -/
theorem watchRow_upToDate (get : Nat → Read σ α ε) (table row : JsString) (store : σ)
    (acts : List (Action σ (List (JsString × JsString)))) :
    let w := Runs.run (step (watchRow get table row)) (start store) acts
    AtRest w → UpToDate w fun changes => (table, row) ∈ changes := by
  intro w hrest
  have hkept : Kept (watchRow get table row) w :=
    Runs.run_invariant (fun _ a hw => hw.step a) (kept_start store) acts
  refine (hkept.upToDate hrest).of_imp fun changes hm => ?_
  refine List.any_eq_true.2 ⟨_, hm, ?_⟩
  rw [Bool.and_eq_true]
  exact ⟨beq_self_eq_true table, beq_self_eq_true row⟩

end Watch

end TangentFeed.Dart
