/-
# Loops with a budget

A loop takes the elements of a batch in their order, as long as a budget lasts
and nothing makes it wait; an element that fails ends the loop. When a step that
has room succeeds and uses up one unit of the room, the budget being the room at
the start, no element fails, and the loop takes a prefix and leaves the rest.

Key definitions:
  - `Batches.take`, `Batches.failed`, `Batches.Chain`
Key theorems:
  - `Batches.take_whole`
-/
import Mathlib.Tactic.Common

namespace Batches

variable {σ α : Type*} (waits : σ → α → Bool) (step : σ → α → Bool × σ)

/-- The loop: what is left and the state. An element that fails is left alone, the others behind it are lost. -/
def take : Nat → σ → List α → List α × σ
  | _, s, [] => ([], s)
  | 0, s, a :: rest => (a :: rest, s)
  | n + 1, s, a :: rest =>
    if waits s a then (a :: rest, s)
    else
      match step s a with
      | (true, s) => take n s rest
      | (false, s) => ([a], s)

/-- The element that fails, if one does. -/
def failed : Nat → σ → List α → Option α
  | _, _, [] => none
  | 0, _, _ :: _ => none
  | n + 1, s, a :: rest =>
    if waits s a then none
    else
      match step s a with
      | (true, s) => failed n s rest
      | (false, _) => some a

/-- Steps of one kind, an element each. -/
inductive Chain (R : σ → α → σ → Prop) : σ → List α → σ → Prop where
  | nil (s : σ) : Chain R s [] s
  | cons {s m t : σ} {a : α} {as : List α} (h : R s a m) (hs : Chain R m as t) : Chain R s (a :: as) t

variable {waits step} {R : σ → α → σ → Prop} {room : σ → Nat → Prop}

/-- What the loop did: it took a prefix, nothing failed, and it ended for one of three reasons. -/
structure Whole (waits : σ → α → Bool) (step : σ → α → Bool × σ) (R : σ → α → σ → Prop) (n : Nat) (s : σ) (as : List α)
    (taken : List α) : Prop where
  split : as = taken ++ (take waits step n s as).1
  chain : Chain R s taken (take waits step n s as).2
  failed : failed waits step n s as = none
  budget : taken.length ≤ n
  ended : (take waits step n s as).1 = [] ∨ taken.length = n ∨
    ∃ a rest, (take waits step n s as).1 = a :: rest ∧ waits (take waits step n s as).2 a = true

/-- **Within its budget the loop takes a prefix of the batch**, each element of it by a step that succeeds. -/
theorem take_whole (hstep : ∀ n s a, room s (n + 1) → waits s a = false → ∃ m, step s a = (true, m) ∧
    R s a m ∧ room m n)
    {n : Nat} {s : σ} (h : room s n) (as : List α) : ∃ taken, Whole waits step R n s as taken := by
  induction n generalizing s as with
  | zero =>
    cases as with
    | nil => exact ⟨[], rfl, .nil s, rfl, Nat.le_refl _, Or.inl rfl⟩
    | cons a rest => exact ⟨[], rfl, .nil s, rfl, Nat.le_refl _, Or.inr (Or.inl rfl)⟩
  | succ n ih =>
    cases as with
    | nil => exact ⟨[], rfl, .nil s, rfl, Nat.zero_le _, Or.inl rfl⟩
    | cons a rest =>
      cases hw : waits s a with
      | true =>
        have htake : take waits step (n + 1) s (a :: rest) = (a :: rest, s) := if_pos hw
        have hfailed : Batches.failed waits step (n + 1) s (a :: rest) = none := if_pos hw
        exact ⟨[], by rw [htake]; rfl, by rw [htake]; exact .nil s, hfailed, Nat.zero_le _,
          Or.inr (Or.inr ⟨a, rest, by rw [htake], by rw [htake]; exact hw⟩)⟩
      | false =>
        obtain ⟨m, hm, hr, hroom⟩ := hstep n s a h hw
        obtain ⟨taken, hwhole⟩ := ih hroom rest
        have htake : take waits step (n + 1) s (a :: rest) = take waits step n m rest := by
          rw [take, if_neg (by simp [hw]), hm]
        have hfailed : Batches.failed waits step (n + 1) s (a :: rest) = Batches.failed waits step n m rest := by
          rw [Batches.failed, if_neg (by simp [hw]), hm]
        refine ⟨a :: taken, ?_, ?_, hfailed.trans hwhole.failed, Nat.succ_le_succ hwhole.budget, ?_⟩
        · rw [htake, List.cons_append, ← hwhole.split]
        · rw [htake]
          exact .cons hr hwhole.chain
        · rw [htake]
          exact hwhole.ended.imp_right fun h => h.imp_left (congrArg (· + 1))

end Batches
