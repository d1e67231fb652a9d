/-
# Arbitration by one pass over the candidates

A pass that keeps the best candidate so far and replaces it only by a strictly
better one ends with the first of the best.

Key definitions:
  - `Arbiter.pick`: one step of the pass
Key theorems:
  - `Arbiter.foldl_pick`: what the pass ends with
  - `Arbiter.foldl_pick_range`: over numbered candidates, the lowest-numbered of the best
-/
import Mathlib

namespace Arbiter

variable {α κ : Type*} [LinearOrder κ]

/-- Take `x` if it is a candidate and better than what is held. -/
def pick (ok : α → Bool) (key : α → κ) (best : κ × α) (x : α) : κ × α :=
  if ok x = true ∧ best.1 < key x then (key x, x) else best

/-- The pass ends with what it started with, or with a candidate better than that: the first of the best. -/
theorem foldl_pick (ok : α → Bool) (key : α → κ) (xs : List α) (b : κ × α) :
    (xs.foldl (pick ok key) b = b ∧ ∀ x ∈ xs, ok x = true → key x ≤ b.1) ∨
      ∃ pre y post, xs = pre ++ y :: post ∧ xs.foldl (pick ok key) b = (key y, y) ∧ ok y = true ∧ b.1 < key y ∧
        (∀ x ∈ pre, ok x = true → key x < key y) ∧ ∀ x ∈ post, ok x = true → key x ≤ key y := by
  induction xs generalizing b with
  | nil => exact Or.inl ⟨rfl, by simp⟩
  | cons x xs ih =>
    by_cases hx : ok x = true ∧ b.1 < key x
    · have hstep : pick ok key b x = (key x, x) := if_pos hx
      rw [List.foldl_cons, hstep]
      right
      rcases ih (key x, x) with ⟨heq, hle⟩ | ⟨pre, y, post, hxs, heq, hy, hlt, hpre, hpost⟩
      · exact ⟨[], x, xs, rfl, heq, hx.1, hx.2, by simp, hle⟩
      · refine ⟨x :: pre, y, post, by rw [hxs]; rfl, heq, hy, hx.2.trans hlt, ?_, hpost⟩
        intro z hz hok
        rcases List.mem_cons.mp hz with rfl | hz
        · exact hlt
        · exact hpre z hz hok
    · have hstep : pick ok key b x = b := if_neg hx
      have hxle : ok x = true → key x ≤ b.1 := fun hok => not_lt.mp fun hlt => hx ⟨hok, hlt⟩
      rw [List.foldl_cons, hstep]
      rcases ih b with ⟨heq, hle⟩ | ⟨pre, y, post, hxs, heq, hy, hlt, hpre, hpost⟩
      · left
        refine ⟨heq, fun z hz hok => ?_⟩
        rcases List.mem_cons.mp hz with rfl | hz
        · exact hxle hok
        · exact hle z hz hok
      · right
        refine ⟨x :: pre, y, post, by rw [hxs]; rfl, heq, hy, hlt, ?_, hpost⟩
        intro z hz hok
        rcases List.mem_cons.mp hz with rfl | hz
        · exact (hxle hok).trans_lt hlt
        · exact hpre z hz hok

/-- Over the numbers below `n`, the lowest-numbered of the best candidates, or what the pass started with. -/
theorem foldl_pick_range (ok : Nat → Bool) (key : Nat → κ) (n : Nat) (b : κ × Nat) :
    ((List.range n).foldl (pick ok key) b = b ∧ ∀ i < n, ok i = true → key i ≤ b.1) ∨
      ∃ j < n, (List.range n).foldl (pick ok key) b = (key j, j) ∧ ok j = true ∧ b.1 < key j ∧
        ∀ i < n, ok i = true → key i < key j ∨ (key i = key j ∧ j ≤ i) := by
  rcases foldl_pick ok key (List.range n) b with ⟨heq, hle⟩ | ⟨pre, j, post, hsplit, heq, hj, hlt, hpre, hpost⟩
  · exact Or.inl ⟨heq, fun i hi => hle i (List.mem_range.mpr hi)⟩
  · right
    have hmem : ∀ i, i ∈ List.range n ↔ i ∈ pre ∨ i = j ∨ i ∈ post := fun i => by
      rw [hsplit, List.mem_append, List.mem_cons]
    have hjn : j < n := List.mem_range.mp ((hmem j).mpr (Or.inr (Or.inl rfl)))
    refine ⟨j, hjn, heq, hj, hlt, fun i hi hok => ?_⟩
    rcases (hmem i).mp (List.mem_range.mpr hi) with hp | rfl | hp
    · exact Or.inl (hpre i hp hok)
    · exact Or.inr ⟨rfl, le_rfl⟩
    · -- what comes after `j` is larger
      have hsorted := hsplit ▸ (List.pairwise_lt_range (n := n))
      have hji : j < i := (List.pairwise_cons.mp (List.pairwise_append.mp hsorted).2.1).1 i hp
      rcases (hpost i hp hok).lt_or_eq with h | h
      · exact Or.inl h
      · exact Or.inr ⟨h, hji.le⟩

end Arbiter
