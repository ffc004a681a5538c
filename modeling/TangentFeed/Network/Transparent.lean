import TangentFeed.Network.Veiled
import TangentFeed.Replica.Sample

/-!
# Encryption is transparent

Whether the replicas of a space encrypt what they write or not, each holds the same
operations but for values and signatures, resolves the same conflicts, compacts
alike, tells its subscribers of the same rows and shows the same data.
-/

namespace TangentFeed

open Std SyncEngine

variable {cr : Crypto} {space : JsString} {c : Cipher} {ι : Type}

/-- The rows a committed batch tells the subscribers of. -/
def Event.changed : Event ι → Option (ι × List (JsString × JsString))
  | committed i ev => some (i, ev.changes)
  | opened _ | handling .. | sent .. | finished .. | failed .. | syncing .. | synced _
  | unsynced _ => none

theorem Event.Veiled.changed {ev ev' : Event ι} (h : ev.Veiled c ev') : ev.changed = ev'.changed := by
  cases h with
  | committed i hev => exact congrArg (fun changes => some (i, changes)) hev.changes
  | handling | sent | finished | syncing | synced => rfl

/-- What two replicas hold and show alike: everything but values and signatures, and of
values the canonical JSON. -/
structure SyncEngine.Transparent (e e' : SyncEngine) : Prop where
  log : e.storage.allOps.map (fun o => (o.id, o.cell)) =
    e'.storage.allOps.map fun o => (o.id, o.cell)
  winners : ∀ x : Cell, (e.storage.winner x).map Op.id = (e'.storage.winner x).map Op.id
  frontier : e.frontier = e'.frontier
  compact : ∀ {opts : CompactionOptions} {stats stats' : CompactionStats},
    (e.compact opts).result = .ok stats → (e'.compact opts).result = .ok stats' → stats = stats'
  get : ∀ table row, ∃ found found', e.get table row = some found ∧ e'.get table row = some found' ∧
    Option.Rel SameData found found'
  list : ∀ table, ∃ shown shown', e.list table = some shown ∧ e'.list table = some shown' ∧
    List.Forall₂ SameData shown shown'
  dump : ∀ inherited, ∃ state state', e.dump inherited = some state ∧
    e'.dump inherited = some state' ∧ ExtTreeMap.Rel (ExtTreeMap.Rel SameData) state state'

theorem SyncEngine.Veiled.transparent {e e' : SyncEngine} (h : e.Veiled c e')
    (hk : e.storage.Keyed) : e.Transparent e' where
  log := h.storage.allOps.map_eq fun hab => by rw [hab.id, hab.cell]
  winners x := by
    have hw := h.storage.winner x
    generalize e.storage.winner x = o at hw ⊢
    generalize e'.storage.winner x = o' at hw ⊢
    cases hw with
    | none => rfl
    | some hab => exact congrArg some hab.id
  frontier := h.storage.frontier
  compact {opts stats stats'} hr hr' := by
    have hres := (compact_veiled h opts hr hr').result
    rw [hr, hr'] at hres
    exact Except.ok.inj hres
  get := get_veiled h hk
  list := list_veiled h hk
  dump := dump_veiled h hk

namespace Config

variable [DecidableEq ι]

/-- **Encryption is transparent.** In two runs of the same actions, on replicas of the same
devices without a cipher and with one and the same cipher, given the same readings and row
ids and without a call that rejects, each replica holds and shows the same in both after
every action, and the subscribers were told of the same rows. -/
theorem encryption_transparent {ae : Aead} (hs : ae.Sound) (cipher : SpaceCipher)
    (d d' : Deployment cr ι) (hseed : d'.seed = d.seed) (hplain : ∀ i, (d.opts i).cipher = none)
    (hcipher : ∀ i, (d'.opts i).cipher = some (cipher.cipher ae)) (space : JsString)
    {acts acts' : List (Action ι)}
    (h : Runs.Along (Runs.both (step cr space) (step cr space)) (InStep cr space)
      (d.initial, d'.initial) (acts ++ acts')) :
    let w := Runs.run (step cr space) d.initial acts
    let w' := Runs.run (step cr space) d'.initial acts
    (∀ i, (w.node i).engine.Transparent (w'.node i).engine) ∧
      w.trace.filterMap Event.changed = w'.trace.filterMap Event.changed := by
  intro w w'
  have hrel := (Runs.along_append.1 h).1.invariant
    (I := fun w : Config ι × Config ι => w.1.Veiled (cipher.cipher ae) w.2)
    (fun w a hstep hw => hw.step (SpaceCipher.inverts hs cipher) hstep)
    (Veiled.initial hseed hplain hcipher)
  rw [Runs.run_both] at hrel
  have hw : w.Veiled (cipher.cipher ae) w' := hrel
  refine ⟨fun i => (hw.node i).engine.transparent ?_, ?_⟩
  · exact ((base_run d space acts).consistent i).ledger.keyed
  · have htrace := hw.trace
    generalize w.trace = t at htrace ⊢
    generalize w'.trace = t' at htrace ⊢
    induction htrace with
    | nil => rfl
    | cons hev _ ih => rw [List.filterMap_cons, List.filterMap_cons, hev.changed, ih]

/-! ## On samples -/

/-- `Resolves`, computed. -/
def resolvesCheck (cr : Crypto) (space : JsString) (w : Config ι) (a : Action ι) : Bool :=
  (match a with
    | .call i c =>
      match (c.run cr (w.node i).engine).result with
      | .ok () => true
      | .error _ => false
    | _ => true) && (w.step cr space a).trace.all fun e => !e.isRejection

theorem resolves_of_check {w : Config ι} {a : Action ι} (h : w.resolvesCheck cr space a = true) :
    w.Resolves cr space a := by
  unfold resolvesCheck at h
  rw [Bool.and_eq_true, List.all_eq_true] at h
  refine ⟨fun {i c} ha => ?_, fun e he => by simpa using h.2 e he⟩
  subst ha
  have hcall := h.1
  simp only at hcall
  split at hcall
  · rename_i hr
    exact hr
  · cases hcall

/-- The pair of replicas, with the secret of the space. -/
def sealedPair : Deployment plainCrypto Bool where
  opts _ := ⟨Sample.env, some (SpaceCipher.cipher plainAead ⟨[]⟩)⟩
  seed := Sample.pair.seed
  distinct := Sample.pair.distinct

/-- A value that looks encrypted, an exchange and a compaction. -/
def sealedRun : List (Action Bool) :=
  .call false (.update Sample.table Sample.row (Sample.record (.str (js "e1:")))) ::
    .syncOnce false true :: List.replicate 9 (.resumeSync 0) ++ [.call false (.compact ⟨false, false⟩)]

/-- `InStep` for ordinary actions, computed. -/
def inStepCheck (w : Config Bool × Config Bool) (a : Action Bool) : Bool :=
  decide (w.1.inputs plainCrypto a = w.2.inputs plainCrypto a) &&
    w.1.resolvesCheck plainCrypto Sample.space a && w.2.resolvesCheck plainCrypto Sample.space a

theorem inStep_of_check {w : Config Bool × Config Bool} {a : Action Bool} (ho : a.Ordinary)
    (h : inStepCheck w a = true) : InStep plainCrypto Sample.space w a := by
  rw [inStepCheck, Bool.and_eq_true, Bool.and_eq_true, decide_eq_true_eq] at h
  exact ⟨ho, h.1.1, resolves_of_check h.1.2, resolves_of_check h.2⟩

theorem encryption_transparent_sample :
    ((Runs.run (step plainCrypto Sample.space) Sample.pair.initial sealedRun).node
        true).engine.Transparent
      ((Runs.run (step plainCrypto Sample.space) sealedPair.initial sealedRun).node true).engine := by
  have hordinary : ∀ a ∈ sealedRun, a.Ordinary := by
    unfold sealedRun
    simp only [List.cons_append, List.forall_mem_cons, List.forall_mem_append]
    refine ⟨?_, trivial, fun a ha => ?_, trivial, List.forall_mem_nil _⟩
    · intro v hv
      rw [List.mem_singleton.1 hv]
      rfl
    · rw [List.eq_of_mem_replicate ha]
      trivial
  have hcheck : Runs.alongCheck
      (Runs.both (step plainCrypto Sample.space) (step plainCrypto Sample.space)) inStepCheck
      (Sample.pair.initial, sealedPair.initial) sealedRun = true := by
    decide +kernel
  have hstep := (Runs.along_of_check hcheck).and_mem hordinary
  have hrun := hstep.mono fun w a ha => inStep_of_check ha.2 ha.1
  rw [← List.append_nil sealedRun] at hrun
  exact (encryption_transparent plainAead_sound ⟨[]⟩ Sample.pair sealedPair rfl (fun _ => rfl)
    (fun _ => rfl) Sample.space hrun).1 true

end Config

end TangentFeed
