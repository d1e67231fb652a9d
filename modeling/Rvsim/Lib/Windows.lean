/-
# Windows that recur

From the first multiple of a period on, a window of some length opens at every
multiple. What keeps out of all of them is told by the remainder; what falls into
one is out when it waits for the end, if the windows are shorter than the period;
if they are not, there is no way out.

Key definitions:
  - `Windows.Outside`, `Windows.opened`
Key theorems:
  - `Windows.outside_iff`, `Windows.not_outside_of_full`
-/
import Mathlib.Tactic.Common
import Mathlib.Algebra.Order.Group.Nat
import Mathlib.Algebra.Order.Ring.Nat

namespace Windows

variable {p d t k : Nat}

/-- The time is in no window; with period zero there are none. -/
def Outside (p d t : Nat) : Prop := p = 0 ∨ ∀ k, 1 ≤ k → t < k * p ∨ k * p + d ≤ t

/-- Where the last window opened, the time being past the first one. -/
def opened (p t : Nat) : Nat := t / p * p

theorem opened_le (p t : Nat) : opened p t ≤ t := Nat.div_mul_le_self t p

theorem lt_opened_add (hp : 0 < p) (t : Nat) : t < opened p t + p := Nat.lt_div_mul_add hp

theorem outside_iff (hp : 0 < p) : Outside p d t ↔ t < p ∨ opened p t + d ≤ t := by
  unfold Outside
  have hdiv : p ≤ t → 1 ≤ t / p := fun h => Nat.div_pos h hp
  constructor
  · rintro (hz | h)
    · omega
    · rcases Nat.lt_or_ge t p with hlt | hge
      · exact Or.inl hlt
      · refine Or.inr ((h (t / p) (hdiv hge)).resolve_left ?_)
        exact Nat.not_lt.mpr (opened_le p t)
  · rintro (hlt | hle)
    · refine Or.inr fun k hk => Or.inl (lt_of_lt_of_le hlt ?_)
      exact Nat.le_mul_of_pos_left p hk
    · refine Or.inr fun k _ => ?_
      rcases Nat.lt_or_ge t (k * p) with hlt | hge
      · exact Or.inl hlt
      · -- the last window to open is this one or a later one
        have hmono : k * p ≤ opened p t := Nat.mul_le_mul_right p ((Nat.le_div_iff_mul_le hp).mpr hge)
        omega

instance : Decidable (Outside p d t) :=
  if hz : p = 0 then isTrue (Or.inl hz)
  else decidable_of_iff (t < p ∨ opened p t + d ≤ t) (outside_iff (Nat.pos_of_ne_zero hz)).symm

/-- Windows as long as the period leave no time outside, once the first is open. -/
theorem not_outside_of_full (hp : 0 < p) (hd : p ≤ d) (ht : p ≤ t) : ¬Outside p d t := by
  rw [outside_iff hp, not_or]
  have hlt := lt_opened_add hp t
  omega

end Windows
