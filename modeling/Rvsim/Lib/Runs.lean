/-
# Runs of a machine

A machine takes a list of events, one after another. A property of an event, at
the state that the event meets, is asked of every event of the run. An invariant
that lasts as long as one property holds makes that property, along whole runs,
the same as another.

Key definitions:
  - `Runs.Always`
Key theorems:
  - `Runs.always_of_inv`, `Runs.inv_of_always`, `Runs.always_imp`, `Runs.always_congr`
-/
import Mathlib.Tactic.Common

namespace Runs

variable {σ ε : Type*} (step : σ → ε → σ)

/-- The property holds of every event of the run, at the state it meets. -/
def Always (Q : σ → ε → Prop) : σ → List ε → Prop
  | _, [] => True
  | s, e :: es => Q s e ∧ Always Q (step s e) es

instance Always.decidable (Q : σ → ε → Prop) [∀ s e, Decidable (Q s e)] : ∀ (s : σ) (es : List ε),
    Decidable (Always step Q s es)
  | _, [] => isTrue trivial
  | s, e :: es =>
    let _ := Always.decidable Q (step s e) es
    inferInstanceAs (Decidable (Q s e ∧ Always step Q (step s e) es))

variable {step} {P Q : σ → ε → Prop} {s : σ} {es : List ε}

theorem always_append (es' : List ε) :
    Always step Q s (es ++ es') ↔ Always step Q s es ∧ Always step Q (es.foldl step s) es' := by
  induction es generalizing s with
  | nil => exact (and_iff_right trivial).symm
  | cons e es ih =>
    show Q s e ∧ Always step Q (step s e) (es ++ es') ↔
      (Q s e ∧ Always step Q (step s e) es) ∧ Always step Q (es.foldl step (step s e)) es'
    rw [ih, and_assoc]

/-- Every event keeps the invariant, and each has the property where it holds. -/
theorem always_of_inv (Inv : σ → Prop) (hinv : Inv s) (hkeep : ∀ s, ∀ e ∈ es, Inv s → Inv (step s e))
    (hq : ∀ s, ∀ e ∈ es, Inv s → Q s e) :
    Always step Q s es := by
  induction es generalizing s with
  | nil => trivial
  | cons e es ih =>
    have hrest := ih (hkeep s e List.mem_cons_self hinv) (fun s e' he => hkeep s e' (List.mem_cons_of_mem _ he))
      (fun s e' he => hq s e' (List.mem_cons_of_mem _ he))
    exact ⟨hq s e List.mem_cons_self hinv, hrest⟩

/-- An invariant that lasts as long as the property holds is there at the end of a run that has it. -/
theorem inv_of_always (Inv : σ → Prop) (hinv : Inv s) (hkeep : ∀ s, ∀ e ∈ es, Inv s → P s e → Inv (step s e))
    (h : Always step P s es) :
    Inv (es.foldl step s) := by
  induction es generalizing s with
  | nil => exact hinv
  | cons e es ih =>
    have hnext := hkeep s e List.mem_cons_self hinv h.1
    exact ih hnext (fun s e' he => hkeep s e' (List.mem_cons_of_mem _ he)) h.2

/-- Where the invariant holds, one property gives another; along runs too, when the invariant lasts as long as
the first holds. -/
theorem always_imp (Inv : σ → Prop) (hinv : Inv s) (hkeep : ∀ s, ∀ e ∈ es, Inv s → P s e → Inv (step s e))
    (hpq : ∀ s, ∀ e ∈ es, Inv s → P s e → Q s e) (h : Always step P s es) : Always step Q s es := by
  induction es generalizing s with
  | nil => trivial
  | cons e es ih =>
    have hnext := hkeep s e List.mem_cons_self hinv h.1
    have hrest := ih hnext (fun s e' he => hkeep s e' (List.mem_cons_of_mem _ he))
      (fun s e' he => hpq s e' (List.mem_cons_of_mem _ he)) h.2
    exact ⟨hpq s e List.mem_cons_self hinv h.1, hrest⟩

/-- **Two properties that agree where the invariant holds agree along runs**, when
the invariant lasts as long as they hold. -/
theorem always_congr (Inv : σ → Prop) (hinv : Inv s) (hkeep : ∀ s, ∀ e ∈ es, Inv s → P s e → Inv (step s e))
    (hpq : ∀ s, ∀ e ∈ es, Inv s → (P s e ↔ Q s e)) : Always step P s es ↔ Always step Q s es := by
  induction es generalizing s with
  | nil => exact Iff.rfl
  | cons e es ih =>
    have hhead := hpq s e List.mem_cons_self hinv
    have htail : P s e → (Always step P (step s e) es ↔ Always step Q (step s e) es) := fun hp =>
      ih (hkeep s e List.mem_cons_self hinv hp) (fun s e' he => hkeep s e' (List.mem_cons_of_mem _ he))
        (fun s e' he => hpq s e' (List.mem_cons_of_mem _ he))
    constructor
    · rintro ⟨hp, hps⟩
      exact ⟨hhead.mp hp, (htail hp).mp hps⟩
    · rintro ⟨hq, hqs⟩
      exact ⟨hhead.mpr hq, (htail (hhead.mpr hq)).mpr hqs⟩

end Runs
