/-
# Who was used last

A clock that ticks at every use, and for each thing the time of its last use; a
thing never used has time zero. A list stands most recent first when the times
fall along it, the things never used at its end in any order.

Key definitions:
  - `Recency`, `Recency.touch`, `Recency.Falling`
Key theorems:
  - `Recency.last_touch`, `Recency.touch_lt`, `Recency.falling_touch`
-/
import Mathlib.Data.List.Nodup
import Mathlib.Logic.Function.Basic
import Mathlib.Tactic.Common

structure Recency (α : Type*) where
  clock : Nat
  last : α → Nat
  last_le : ∀ a, last a ≤ clock

namespace Recency

variable {α β : Type*}

def never : Recency α := ⟨0, fun _ => 0, fun _ => Nat.le_refl 0⟩

section

variable [DecidableEq α]

def touch (r : Recency α) (a : α) : Recency α where
  clock := r.clock + 1
  last := Function.update r.last a (r.clock + 1)
  last_le b := by
    by_cases hb : b = a
    · have hself : Function.update r.last a (r.clock + 1) b = r.clock + 1 := by rw [hb, Function.update_self]
      exact Nat.le_of_eq hself
    · rw [Function.update_of_ne hb]
      exact Nat.le_succ_of_le (r.last_le b)

variable {r : Recency α} {a b : α}

theorem last_touch (r : Recency α) (a b : α) : (r.touch a).last b = if b = a then r.clock + 1 else r.last b := by
  show Function.update r.last a (r.clock + 1) b = _
  rw [Function.update_apply]

theorem last_touch_of_ne (h : b ≠ a) : (r.touch a).last b = r.last b := Function.update_of_ne h _ _

/-- The thing touched is the one used last. -/
theorem touch_lt (h : b ≠ a) : (r.touch a).last b < (r.touch a).last a := by
  rw [last_touch_of_ne h, last_touch, if_pos rfl]
  exact Nat.lt_succ_of_le (r.last_le b)

theorem touch_pos : 0 < (r.touch a).last a := by
  rw [last_touch, if_pos rfl]
  exact Nat.succ_pos _

theorem pos_of_touch (h : 0 < r.last b) : 0 < (r.touch a).last b := by
  rw [last_touch]
  split
  · exact Nat.succ_pos _
  · exact h

end

/-- The times fall along the list, or are zero. -/
def Falling (time : β → Nat) (l : List β) : Prop := l.Pairwise fun x y => time y < time x ∨ time x = 0 ∧ time y = 0

variable {time time' : β → Nat} {l : List β} {x y : β}

theorem falling_of_zero (h : ∀ x, time x = 0) (l : List β) : Falling time l :=
  List.pairwise_of_forall fun x y => .inr ⟨h x, h y⟩

/-- What is used goes to the front. -/
theorem falling_touch [DecidableEq β] (h : Falling time l) (hl : l.Nodup) (hx : ∀ y, y ≠ x → time' y < time' x)
    (hother : ∀ y, y ≠ x → time' y = time y) : Falling time' (x :: l.erase x) := by
  refine List.pairwise_cons.mpr ⟨fun y hy => .inl (hx y ((List.Nodup.mem_erase_iff hl).mp hy).1), ?_⟩
  have hsub : Falling time (l.erase x) := h.sublist List.erase_sublist
  refine List.Pairwise.imp_of_mem (fun {y z} hy hz hyz => ?_) hsub
  rw [hother y ((List.Nodup.mem_erase_iff hl).mp hy).1, hother z ((List.Nodup.mem_erase_iff hl).mp hz).1]
  exact hyz

/-- Nothing in the list is more recent than its first element. -/
theorem le_head (h : Falling time (x :: l)) (hy : y ∈ x :: l) : time y ≤ time x := by
  rcases List.mem_cons.mp hy with rfl | hy
  · exact Nat.le_refl _
  · rcases List.rel_of_pairwise_cons h hy with hlt | ⟨h0, h0'⟩ <;> omega

/-- Nothing in the list is less recent than its last element, and what is as old was never used. -/
theorem last_lt (h : Falling time (l ++ [x])) (hy : y ∈ l) : time x < time y ∨ time y = 0 ∧ time x = 0 :=
  (List.pairwise_append.mp h).2.2 y hy x (List.mem_singleton.mpr rfl)

end Recency
