/-
# Hops

A list of hops, each from a position to a next one, is a path when every hop
starts where the one before it leads.

Key definitions: `Hops.Follows`, `Hops.endFrom`.
Key theorems: `Hops.follows_append`, `Hops.endFrom_append`.
-/
import Mathlib.Data.List.Basic

namespace Hops

variable {α P : Type*} (start next : α → P)

/-- The hops lead on from `p`. -/
def Follows (p : P) : List α → Prop
  | [] => True
  | x :: xs => start x = p ∧ Follows (next x) xs

/-- Where the hops lead. -/
def endFrom (p : P) : List α → P
  | [] => p
  | x :: xs => endFrom (next x) xs

@[simp] theorem endFrom_nil (p : P) : endFrom next p [] = p := rfl

@[simp] theorem endFrom_cons (p : P) (x : α) (xs : List α) : endFrom next p (x :: xs) = endFrom next (next x) xs := rfl

theorem endFrom_append (p : P) (xs ys : List α) :
    endFrom next p (xs ++ ys) = endFrom next (endFrom next p xs) ys := by
  induction xs generalizing p with
  | nil => rfl
  | cons x xs ih => exact ih (next x)

theorem follows_append (p : P) (xs ys : List α) :
    Follows start next p (xs ++ ys) ↔ Follows start next p xs ∧ Follows start next (endFrom next p xs) ys := by
  induction xs generalizing p with
  | nil => exact ⟨fun h => ⟨trivial, h⟩, fun h => h.2⟩
  | cons x xs ih =>
    constructor
    · rintro ⟨hx, h⟩
      exact ⟨⟨hx, ((ih (next x)).mp h).1⟩, ((ih (next x)).mp h).2⟩
    · rintro ⟨⟨hx, hxs⟩, hys⟩
      exact ⟨hx, (ih (next x)).mpr ⟨hxs, hys⟩⟩

instance decidableFollows [DecidableEq P] : ∀ (p : P) (xs : List α), Decidable (Follows start next p xs)
  | _, [] => inferInstanceAs (Decidable True)
  | p, x :: xs =>
    have := decidableFollows (next x) xs
    inferInstanceAs (Decidable (start x = p ∧ Follows start next (next x) xs))

end Hops
