/-
# Folding a stream of bits

The first `n` bits of a stream, cut into pieces of `w` bits and combined by
exclusive or. A register that holds the fold can follow the stream: when a bit
comes in at the front it rotates, takes in the new bit and takes out the one
that leaves the window. The fold can also be computed block by block, if the
fold of each block is rotated to where the block starts.

Key definitions:
  - `Folding.fold`, `Folding.shiftIn`
Key theorems:
  - `Folding.fold_slide`, `Folding.fold_add`
-/
import Mathlib.Tactic.Common

namespace Folding

variable {w n m j : Nat} {h h' : Nat → Bool} {b : Bool}

/-- Bit `j` of the fold: the exclusive or of the bits at `j`, `j + w`, `j + 2 * w`, … below `n`. -/
def fold (w : Nat) (h : Nat → Bool) : Nat → Nat → Bool
  | 0, _ => false
  | n + 1, j => fold w h n j ^^ (decide (n % w = j) && h n)

/-- The stream behind a new bit. -/
def shiftIn (b : Bool) (h : Nat → Bool) : Nat → Bool
  | 0 => b
  | i + 1 => h i

@[simp] theorem fold_zero : fold w h 0 j = false := rfl

theorem fold_succ : fold w h (n + 1) j = (fold w h n j ^^ (decide (n % w = j) && h n)) := rfl

theorem fold_congr (hn : ∀ i, i < n → h i = h' i) : fold w h n j = fold w h' n j := by
  induction n with
  | zero => rfl
  | succ n ih =>
    rw [fold_succ, fold_succ, ih fun i hi => hn i (by omega), hn n (by omega)]

theorem fold_false (hn : ∀ i, i < n → h i = false) : fold w h n j = false := by
  induction n with
  | zero => rfl
  | succ n ih =>
    rw [fold_succ, ih fun i hi => hn i (by omega), hn n (by omega)]
    simp

/-- Only the first piece counts when the window ends with it. -/
theorem fold_piece (hn : n ≤ w) (hj : j < w) : fold w h n j = (decide (j < n) && h j) := by
  induction n with
  | zero => simp
  | succ n ih =>
    rw [fold_succ, ih (by omega), Nat.mod_eq_of_lt (by omega : n < w)]
    by_cases hjn : n = j
    · subst hjn
      simp
    · have hiff : (j < n + 1) = (j < n) := by
        refine propext ⟨fun hlt => ?_, fun hlt => ?_⟩ <;> omega
      simp [hjn, hiff]

/-! ### Windows -/

/-- Where a bit is before it moves on by one. -/
theorem mod_succ_iff (hj : j < w) : (n + 1) % w = j ↔ n % w = (j + (w - 1)) % w := by
  refine ⟨fun hn => ?_, fun hn => ?_⟩
  · rw [← hn, Nat.mod_add_mod, show n + 1 + (w - 1) = n + w by omega, Nat.add_mod_right]
  · rw [← Nat.mod_add_mod, hn, Nat.mod_add_mod, show j + (w - 1) + 1 = j + w by omega, Nat.add_mod_right,
      Nat.mod_eq_of_lt hj]

/-- A new bit rotates the fold. -/
theorem fold_shiftIn (hj : j < w) :
    fold w (shiftIn b h) (n + 1) j = (fold w h n ((j + (w - 1)) % w) ^^ (decide (j = 0) && b)) := by
  induction n with
  | zero =>
    have hw : 0 % w = 0 := Nat.zero_mod w
    rw [fold_succ, fold_zero, fold_zero, hw]
    have hcomm : decide (0 = j) = decide (j = 0) := decide_eq_decide.mpr eq_comm
    rw [hcomm]
    rfl
  | succ n ih =>
    rw [fold_succ, ih, fold_succ, decide_eq_decide.mpr (mod_succ_iff hj)]
    change ((_ ^^ _) ^^ (_ && h n)) = ((_ ^^ (_ && h n)) ^^ _)
    rw [Bool.xor_assoc, Bool.xor_assoc]
    congr 1
    exact Bool.xor_comm _ _

/-- **The window slides.** Rotate, take in the new bit, take out the one that leaves. -/
theorem fold_slide (hn : 0 < n) (hj : j < w) :
    fold w (shiftIn b h) n j =
      ((fold w h n ((j + (w - 1)) % w) ^^ (decide (j = 0) && b)) ^^ (decide (n % w = j) && h (n - 1))) := by
  obtain ⟨k, rfl⟩ : ∃ k, n = k + 1 := ⟨n - 1, by omega⟩
  have hin : fold w (shiftIn b h) (k + 1 + 1) j =
      (fold w h (k + 1) ((j + (w - 1)) % w) ^^ (decide (j = 0) && b)) := fold_shiftIn hj
  rw [fold_succ] at hin
  rw [← hin, Bool.xor_assoc]
  change _ = (_ ^^ ((_ && h k) ^^ (_ && h k)))
  rw [Bool.xor_self, Bool.xor_false]

/-! ### Blocks -/

/-- A bit of a block that starts at `m`. -/
theorem add_mod_iff (hj : j < w) : (m + n) % w = j ↔ n % w = (j + (w - m % w)) % w := by
  have hm : m % w < w := Nat.mod_lt m (by omega)
  refine ⟨fun hn => ?_, fun hn => ?_⟩
  · rw [← hn, Nat.mod_add_mod]
    calc n % w = (n + w * (m / w + 1)) % w := (Nat.add_mul_mod_self_left n w _).symm
      _ = (m + n + (w - m % w)) % w := by
        congr 1
        have hdiv := Nat.div_add_mod m w
        rw [Nat.mul_add, Nat.mul_one]
        omega
  · rw [← Nat.add_mod_mod, hn, Nat.add_mod_mod]
    calc (m + (j + (w - m % w))) % w = (j + w * (m / w + 1)) % w := by
          congr 1
          have hdiv := Nat.div_add_mod m w
          rw [Nat.mul_add, Nat.mul_one]
          omega
      _ = j := by rw [Nat.add_mul_mod_self_left, Nat.mod_eq_of_lt hj]

/-- **Block by block.** The fold of the bits from `m` on is rotated by `m`. -/
theorem fold_add (hj : j < w) :
    fold w h (m + n) j = (fold w h m j ^^ fold w (fun i => h (m + i)) n ((j + (w - m % w)) % w)) := by
  induction n with
  | zero => simp
  | succ n ih =>
    rw [← Nat.add_assoc, fold_succ, ih, fold_succ, decide_eq_decide.mpr (add_mod_iff hj), Bool.xor_assoc]

/-- The first piece, and the rest. -/
theorem fold_cut (hj : j < w) : fold w h (w + n) j = (h j ^^ fold w (fun i => h (w + i)) n j) := by
  rw [fold_add hj, fold_piece (Nat.le_refl w) hj, Nat.mod_self, Nat.sub_zero, Nat.add_mod_right, Nat.mod_eq_of_lt hj]
  simp [hj]

end Folding
