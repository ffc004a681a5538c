import Mathlib.Logic.Basic

/-!
# Runs of a deterministic system

`run step s acts` is the state after the actions `acts`. `Along step P s acts`
says that every action of the run meets `P` in the state it is taken from.
-/

namespace Runs

variable {σ α : Type} {step : σ → α → σ} {P Q : σ → α → Prop} {s : σ} {a : α} {acts acts' : List α}

def run (step : σ → α → σ) (s : σ) (acts : List α) : σ := acts.foldl step s

def Along (step : σ → α → σ) (P : σ → α → Prop) : σ → List α → Prop
  | _, [] => True
  | s, a :: acts => P s a ∧ Along step P (step s a) acts

@[simp] theorem run_nil : run step s [] = s := rfl

@[simp] theorem run_cons : run step s (a :: acts) = run step (step s a) acts := rfl

theorem run_append : run step s (acts ++ acts') = run step (run step s acts) acts' :=
  List.foldl_append

theorem along_append :
    Along step P s (acts ++ acts') ↔ Along step P s acts ∧ Along step P (run step s acts) acts' := by
  induction acts generalizing s with
  | nil => simp [Along]
  | cons a acts ih => simp only [List.cons_append, Along, run_cons, ih, and_assoc]

theorem along_iff_forall :
    Along step P s acts ↔ ∀ p a q, acts = p ++ a :: q → P (run step s p) a := by
  induction acts generalizing s with
  | nil => exact iff_of_true trivial fun p a q h => by cases p <;> cases h
  | cons b acts ih =>
    constructor
    · rintro ⟨hb, hacts⟩ p a q h
      cases p with
      | nil =>
        obtain ⟨rfl, rfl⟩ := List.cons.inj h
        exact hb
      | cons c p =>
        obtain ⟨rfl, hp⟩ := List.cons.inj h
        exact ih.1 hacts p a q hp
    · intro h
      refine ⟨h [] b acts rfl, ih.2 fun p a q hp => ?_⟩
      exact h (b :: p) a q (congrArg (b :: ·) hp)

/-- Some action of the run met `P`, and none after it met `Q`. -/
def Since (step : σ → α → σ) (P Q : σ → α → Prop) (s : σ) (acts : List α) : Prop :=
  ∃ before a after, acts = before ++ a :: after ∧ P (run step s before) a ∧
    Along step (fun s a => ¬ Q s a) (step (run step s before) a) after

@[simp] theorem not_since_nil : ¬ Since step P Q s [] := by
  rintro ⟨before, a, after, h, -⟩
  exact List.append_ne_nil_of_right_ne_nil before (List.cons_ne_nil a after) h.symm

/-- One more action. -/
theorem since_append_singleton :
    Since step P Q s (acts ++ [a]) ↔
      P (run step s acts) a ∨ Since step P Q s acts ∧ ¬ Q (run step s acts) a := by
  constructor
  · rintro ⟨before, b, after, h, hp, hq⟩
    rcases List.eq_nil_or_concat after with rfl | ⟨after, c, rfl⟩
    · obtain ⟨rfl, hb⟩ := List.append_inj' h rfl
      obtain rfl := List.singleton_inj.1 hb
      exact .inl hp
    · rw [List.concat_eq_append] at h hq
      rw [← List.cons_append, ← List.append_assoc] at h
      obtain ⟨rfl, hc⟩ := List.append_inj' h rfl
      obtain rfl := List.singleton_inj.1 hc
      obtain ⟨hq, hlast, -⟩ := along_append.1 hq
      refine .inr ⟨⟨before, b, after, rfl, hp, hq⟩, ?_⟩
      rwa [run_append]
  · rintro (hp | ⟨⟨before, b, after, rfl, hp, hq⟩, hlast⟩)
    · exact ⟨acts, a, [], rfl, hp, trivial⟩
    · refine ⟨before, b, after ++ [a], by rw [List.append_assoc, List.cons_append], hp, ?_⟩
      rw [run_append] at hlast
      exact along_append.2 ⟨hq, hlast, trivial⟩

/-- `Along` for a condition that is computed. -/
def alongCheck (step : σ → α → σ) (p : σ → α → Bool) : σ → List α → Bool
  | _, [] => true
  | s, a :: acts => p s a && alongCheck step p (step s a) acts

theorem along_of_check {p : σ → α → Bool} (h : alongCheck step p s acts = true) :
    Along step (fun s a => p s a = true) s acts := by
  induction acts generalizing s with
  | nil => trivial
  | cons a acts ih =>
    rw [alongCheck, Bool.and_eq_true] at h
    exact ⟨h.1, ih h.2⟩

theorem Along.mono (h : Along step P s acts) (hpq : ∀ s a, P s a → Q s a) :
    Along step Q s acts := by
  induction acts generalizing s with
  | nil => trivial
  | cons a acts ih => exact ⟨hpq _ _ h.1, ih h.2⟩

theorem Along.forall_mem {R : α → Prop} (h : Along step P s acts) (hr : ∀ s a, P s a → R a) :
    ∀ a ∈ acts, R a := by
  induction acts generalizing s with
  | nil => exact fun a ha => by cases ha
  | cons b acts ih =>
    intro a ha
    rcases List.mem_cons.1 ha with rfl | ha
    · exact hr _ _ h.1
    · exact ih h.2 a ha

/-- What is known of every action holds along the run. -/
theorem Along.and_mem {R : α → Prop} (h : Along step P s acts) (hr : ∀ a ∈ acts, R a) :
    Along step (fun s a => P s a ∧ R a) s acts := by
  induction acts generalizing s with
  | nil => trivial
  | cons a acts ih =>
    exact ⟨⟨h.1, hr a List.mem_cons_self⟩, ih h.2 fun b hb => hr b (List.mem_cons_of_mem _ hb)⟩

theorem Along.and (h : Along step P s acts) (h' : Along step Q s acts) :
    Along step (fun s a => P s a ∧ Q s a) s acts := by
  induction acts generalizing s with
  | nil => trivial
  | cons a acts ih => exact ⟨⟨h.1, h'.1⟩, ih h.2 h'.2⟩

/-- **Invariant rule** for runs without a condition. -/
theorem run_invariant {I : σ → Prop} (hstep : ∀ s a, I s → I (step s a)) (hs : I s)
    (acts : List α) : I (run step s acts) := by
  induction acts generalizing s with
  | nil => exact hs
  | cons a acts ih => exact ih (hstep s a hs)

/-- **Invariant rule.** What every step of the run keeps holds at its end. -/
theorem Along.invariant {I : σ → Prop} (hstep : ∀ s a, P s a → I s → I (step s a))
    (h : Along step P s acts) (hs : I s) : I (run step s acts) := by
  induction acts generalizing s with
  | nil => exact hs
  | cons a acts ih => exact ih h.2 (hstep _ _ h.1 hs)

/-- An invariant may be used to establish the condition of the steps. -/
theorem Along.strengthen {I : σ → Prop} (hstep : ∀ s a, P s a → I s → I (step s a))
    (h : Along step P s acts) (hs : I s) : Along step (fun s a => P s a ∧ I s) s acts := by
  induction acts generalizing s with
  | nil => trivial
  | cons a acts ih => exact ⟨⟨h.1, hs⟩, ih h.2 (hstep _ _ h.1 hs)⟩

/-! ## Two systems side by side -/

section Both

variable {τ : Type} {step' : τ → α → τ} {t : τ}

/-- Both take the same action. -/
def both (step : σ → α → σ) (step' : τ → α → τ) (s : σ × τ) (a : α) : σ × τ :=
  (step s.1 a, step' s.2 a)

theorem run_both :
    run (both step step') (s, t) acts = (run step s acts, run step' t acts) := by
  induction acts generalizing s t with
  | nil => rfl
  | cons a acts ih => exact ih

end Both

end Runs
