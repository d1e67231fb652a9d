/-
# Rules taken in order

A list of rules of which the first that is selected decides, and a default where
none is. When two readings of the same list agree: up to the first rule that one
of them selects, and there. A reading that passes over some of the rules the
other stops at differs from it exactly where such a rule comes first and the
rules behind it say yes.

Key definitions:
  - `FirstMatch.Verdict`, `FirstMatch.Agree`, `FirstMatch.upTo`, `FirstMatch.PassesOver`
Key theorems:
  - `FirstMatch.agree_iff`, `FirstMatch.verdict_congr`, `FirstMatch.verdict_iff_verdict_iff`
-/
import Mathlib.Data.List.Basic

namespace FirstMatch

variable {α : Type} (sel sel' : α → Prop) [DecidablePred sel] [DecidablePred sel']
  (ok ok' : α → Prop) (dflt dflt' : Prop)

/-- What the first selected rule says; with none, the default. -/
def Verdict : List α → Prop
  | [] => dflt
  | x :: xs => if sel x then ok x else Verdict xs

instance [DecidablePred ok] [Decidable dflt] : DecidablePred (Verdict sel ok dflt) := fun xs => by
  induction xs with
  | nil => exact inferInstanceAs (Decidable dflt)
  | cons x xs ih => exact inferInstanceAs (Decidable (if sel x then ok x else Verdict sel ok dflt xs))

/-- The two readings come to a rule that one of them selects, and what they say from there on is the same. -/
def Agree : List α → Prop
  | [] => dflt ↔ dflt'
  | x :: xs =>
    if sel x then ok x ↔ if sel' x then ok' x else Verdict sel' ok' dflt' xs
    else if sel' x then Verdict sel ok dflt xs ↔ ok' x
    else Agree xs

instance [DecidablePred ok] [DecidablePred ok'] [Decidable dflt] [Decidable dflt'] :
    DecidablePred (Agree sel sel' ok ok' dflt dflt') := fun xs => by
  induction xs with
  | nil => exact inferInstanceAs (Decidable (dflt ↔ dflt'))
  | cons x xs ih =>
    exact inferInstanceAs (Decidable (
      if sel x then ok x ↔ if sel' x then ok' x else Verdict sel' ok' dflt' xs
      else if sel' x then Verdict sel ok dflt xs ↔ ok' x
      else Agree sel sel' ok ok' dflt dflt' xs))

/-- The rules up to the first selected one, and that one. -/
def upTo : List α → List α
  | [] => []
  | x :: xs => if sel x then [x] else x :: upTo xs

/-- The first rule that `sel` stops at is passed over by `sel'`, and the rules behind it say yes. -/
def PassesOver (xs : List α) : Prop :=
  ∃ pre x post, xs = pre ++ x :: post ∧ (∀ y ∈ pre, ¬ sel y) ∧ sel x ∧ ¬ sel' x ∧ Verdict sel' ok' dflt post

variable {sel sel' ok ok' dflt dflt'} {x : α} {xs : List α}

theorem verdict_cons_of_sel (h : sel x) : Verdict sel ok dflt (x :: xs) ↔ ok x := by
  simp [Verdict, h]

theorem verdict_cons_of_not_sel (h : ¬ sel x) : Verdict sel ok dflt (x :: xs) ↔ Verdict sel ok dflt xs := by
  simp [Verdict, h]

theorem upTo_cons_of_sel (h : sel x) : upTo sel (x :: xs) = [x] := by
  simp [upTo, h]

theorem upTo_cons_of_not_sel (h : ¬ sel x) : upTo sel (x :: xs) = x :: upTo sel xs := by
  simp [upTo, h]

/-- What comes behind the first selected rule does not matter. -/
theorem verdict_congr (hs : ∀ x ∈ upTo sel xs, sel x ↔ sel' x) (hok : ∀ x ∈ upTo sel xs, sel x → (ok x ↔ ok' x)) :
    Verdict sel ok dflt xs ↔ Verdict sel' ok' dflt xs := by
  induction xs with
  | nil => exact Iff.rfl
  | cons x xs ih =>
    by_cases h : sel x
    · rw [upTo_cons_of_sel h] at hs hok
      have hx := hs x List.mem_cons_self
      rw [verdict_cons_of_sel h, verdict_cons_of_sel (hx.mp h)]
      exact hok x List.mem_cons_self h
    · rw [upTo_cons_of_not_sel h] at hs hok
      have hx := hs x List.mem_cons_self
      rw [verdict_cons_of_not_sel h, verdict_cons_of_not_sel (fun hc => h (hx.mpr hc))]
      exact ih (fun y hy => hs y (List.mem_cons_of_mem _ hy)) fun y hy => hok y (List.mem_cons_of_mem _ hy)

/-- **Two readings say the same exactly when they agree at the first rule one of them selects.** -/
theorem agree_iff (xs : List α) :
    Agree sel sel' ok ok' dflt dflt' xs ↔ (Verdict sel ok dflt xs ↔ Verdict sel' ok' dflt' xs) := by
  induction xs with
  | nil => exact Iff.rfl
  | cons x xs ih =>
    by_cases h : sel x
    · by_cases h' : sel' x
      · simp [Agree, Verdict, h, h']
      · simp [Agree, Verdict, h, h']
    · by_cases h' : sel' x
      · simp [Agree, Verdict, h, h']
      · simp [Agree, Verdict, h, h', ih]

omit [DecidablePred sel] in
theorem passesOver_cons_of_not_sel (h : ¬ sel x) :
    PassesOver sel sel' ok' dflt (x :: xs) ↔ PassesOver sel sel' ok' dflt xs := by
  constructor
  · rintro ⟨pre, y, post, heq, hpre, hy, hrest⟩
    cases pre with
    | nil =>
      obtain ⟨rfl, -⟩ := List.cons.inj heq
      exact absurd hy h
    | cons z pre =>
      obtain ⟨-, rfl⟩ := List.cons.inj heq
      exact ⟨pre, y, post, rfl, fun w hw => hpre w (List.mem_cons_of_mem _ hw), hy, hrest⟩
  · rintro ⟨pre, y, post, rfl, hpre, hy, hrest⟩
    refine ⟨x :: pre, y, post, rfl, fun w hw => ?_, hy, hrest⟩
    rcases List.mem_cons.mp hw with rfl | hw
    · exact h
    · exact hpre w hw

omit [DecidablePred sel] in
theorem passesOver_cons_of_sel (h : sel x) :
    PassesOver sel sel' ok' dflt (x :: xs) ↔ ¬ sel' x ∧ Verdict sel' ok' dflt xs := by
  constructor
  · rintro ⟨pre, y, post, heq, hpre, -, hrest⟩
    cases pre with
    | nil =>
      obtain ⟨rfl, rfl⟩ := List.cons.inj heq
      exact hrest
    | cons z pre =>
      obtain ⟨rfl, -⟩ := List.cons.inj heq
      exact absurd h (hpre x List.mem_cons_self)
  · exact fun hrest => ⟨[], x, xs, rfl, by simp, h, hrest⟩

/-- **A reading that passes over rules.** The stricter reading says no where it stops at a rule the other
passes over, so they differ exactly where the other then finds a yes. -/
theorem verdict_iff_verdict_iff (hsel : ∀ x ∈ xs, sel' x → sel x) :
    (Verdict sel (fun x => sel' x ∧ ok' x) dflt xs ↔ Verdict sel' ok' dflt xs) ↔ ¬ PassesOver sel sel' ok' dflt xs := by
  induction xs with
  | nil =>
    refine ⟨fun _ => ?_, fun _ => Iff.rfl⟩
    rintro ⟨pre, y, post, heq, -⟩
    simp at heq
  | cons x xs ih =>
    have hrest := ih fun y hy => hsel y (List.mem_cons_of_mem _ hy)
    by_cases h : sel x
    · rw [passesOver_cons_of_sel h, verdict_cons_of_sel h]
      by_cases h' : sel' x
      · simp [verdict_cons_of_sel h', h']
      · simp [verdict_cons_of_not_sel h', h']
    · have h' : ¬ sel' x := fun hc => h (hsel x List.mem_cons_self hc)
      rw [passesOver_cons_of_not_sel h, verdict_cons_of_not_sel h, verdict_cons_of_not_sel h']
      exact hrest

end FirstMatch
