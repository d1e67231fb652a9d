/-
# Conversions from floating point to integers

FCVT.W, FCVT.WU, FCVT.L and FCVT.LU take their result from a saturating cast
and their flags from range tests on the rounded operand. The result is the
integer part saturated to the target, for every operand. The tests of the
three narrower targets are exact at both ends; the one of FCVT.LU looks only
below zero, so that an operand of 2^64 or more saturates with no flag raised.

Key definitions:
  - `Fpu.IntTarget`, `Fpu.IntTarget.Fits`, `Fpu.Converts`
Key theorems:
  - `Fpu.executeFull_result`, `Fpu.toIntFlags_eq`
  - `Fpu.converts_iff`, `Fpu.converts_fails`
-/
import Rvsim.Fpu

namespace Rvsim.Fpu

open Ieee

/-! ### Targets -/

/-- The integer types that FCVT converts to. -/
inductive IntTarget where
  | w | wu | l | lu
  deriving DecidableEq, Repr

namespace IntTarget

def op : IntTarget → AluOp
  | w => .fCvtWS
  | wu => .fCvtWUS
  | l => .fCvtLS
  | lu => .fCvtLUS

def bits : IntTarget → Nat
  | w | wu => 32
  | l | lu => 64

def min : IntTarget → ℤ
  | w => -2 ^ 31
  | l => -2 ^ 63
  | wu | lu => 0

def max : IntTarget → ℤ
  | w => 2 ^ 31 - 1
  | wu => 2 ^ 32 - 1
  | l => 2 ^ 63 - 1
  | lu => 2 ^ 64 - 1

/-- The integer part is a value of the type. -/
def Fits (t : IntTarget) (q : ℚ) : Prop := t.min ≤ truncate q ∧ truncate q ≤ t.max

/-- The integer part saturated; a NaN counts as too large. -/
def saturated (t : IntTarget) : Value → ℤ
  | .nan => t.max
  | .inf negative => if negative then t.min else t.max
  | .finite q => Max.max t.min (Min.min t.max (truncate q))

/-- The register: the integer in the type's own width, sign-extended. -/
def register (t : IntTarget) (n : ℤ) : U64 := (BitVec.ofInt t.bits n).signExtend 64

end IntTarget

/-- What a conversion of the operand `v` to `t` owes its result and flags. -/
structure Converts (t : IntTarget) (v : Value) (r : U64 × U8) : Prop where
  result : r.1 = t.register (t.saturated v)
  invalid : FpFlags.contains r.2 FpFlags.NV = true ↔
    v = .nan ∨ (∃ negative, v = .inf negative) ∨ ∃ q, v = .finite q ∧ ¬ t.Fits q
  inexact : FpFlags.contains r.2 FpFlags.NX = true ↔ ∃ q, v = .finite q ∧ t.Fits q ∧ q ≠ truncate q

/-! ### Results -/

/-- The casts: a NaN apart, Rust's saturating `as`. -/
theorem toInt_eq_saturated (t : IntTarget) {v : Value} (hv : v.isNan = false) :
    v.toInt t.min t.max = t.saturated v := by
  cases v with
  | nan => exact absurd hv (by decide)
  | inf negative => rfl
  | finite q => rfl

theorem register_cast (t : IntTarget) (v : Value) :
    (if v.isNan then BitVec.ofInt t.bits t.max else BitVec.ofInt t.bits (v.toInt t.min t.max)).signExtend 64 =
      t.register (t.saturated v) := by
  by_cases hv : v.isNan = true
  · rw [if_pos hv]
    cases v with
    | nan => rfl
    | inf negative => exact absurd hv Bool.false_ne_true
    | finite q => exact absurd hv Bool.false_ne_true
  · rw [if_neg hv, toInt_eq_saturated t (Bool.eq_false_iff.mpr hv)]
    rfl

/-- The result is the saturated integer part, whatever the operand. -/
theorem executeFull_result (h : Host) (t : IntTarget) (a b c : U64) (is32 : Bool) :
    (executeFull h t.op a b c is32).1 = t.register (t.saturated (operandValue a is32)) := by
  rw [← register_cast]
  cases is32 <;> cases t <;> first | rfl | exact (BitVec.signExtend_eq _).symm

/-! ### Flags -/

theorem executeFull_flags (h : Host) (t : IntTarget) (a b c : U64) (is32 : Bool) :
    (executeFull h t.op a b c is32).2 = toIntFlags t.op (operandValue a is32) := by
  cases t <;> rfl

/-- A test against both ends of the type is exact. -/
theorem outside_iff (t : IntTarget) {lo hi : ℚ} (hlo : lo = t.min) (hhi : hi = (t.max + 1 : ℤ)) (q : ℚ) :
    (!Value.inRange (.finite lo) (.finite hi) (Value.finite q).trunc) = true ↔ ¬ t.Fits q := by
  rw [hlo, hhi, Value.inRange_trunc, Bool.not_eq_true', decide_eq_false_iff_not, Int.lt_add_one_iff]
  rfl

/-- The range tests: exact for three targets, and one-sided for the fourth. -/
theorem overflows_trunc (t : IntTarget) (q : ℚ) :
    overflows t.op (Value.finite q).trunc = true ↔ if t = .lu then truncate q < 0 else ¬ t.Fits q := by
  cases t with
  | w => exact outside_iff .w (by norm_num [IntTarget.min]) (by norm_num [IntTarget.max]) q
  | wu => exact outside_iff .wu (by norm_num [IntTarget.min]) (by norm_num [IntTarget.max]) q
  | l => exact outside_iff .l (by norm_num [IntTarget.min]) (by norm_num [IntTarget.max]) q
  | lu => simp [IntTarget.op, overflows, Value.trunc, Value.lt]

/-- The tests are right unless the operand exceeds an unsigned double word. -/
theorem overflows_iff (t : IntTarget) (q : ℚ) :
    (overflows t.op (Value.finite q).trunc = true ↔ ¬ t.Fits q) ↔ ¬ (t = .lu ∧ 2 ^ 64 ≤ q) := by
  rw [overflows_trunc]
  by_cases ht : t = .lu
  · subst ht
    have hbig : (2 ^ 64 : ℤ) ≤ truncate q ↔ (2 ^ 64 : ℚ) ≤ q := by
      rw [le_truncate_iff (by norm_num)]
      norm_num
    simp only [if_true, true_and, ← hbig, IntTarget.Fits, IntTarget.min, IntTarget.max]
    omega
  · simp [ht]

/-- NaNs and infinities are invalid operands. -/
theorem toIntFlags_special (op : AluOp) {v : Value} (hv : (v.isNan || v.isInfinite) = true) :
    toIntFlags op v = FpFlags.NV := by
  unfold toIntFlags
  rw [if_pos hv]

/-- What the flags of a finite operand are. -/
theorem toIntFlags_finite (t : IntTarget) (q : ℚ) : toIntFlags t.op (.finite q) =
    if overflows t.op (Value.finite q).trunc then FpFlags.NV else if q = truncate q then FpFlags.NONE else
        FpFlags.NX := by
  unfold toIntFlags
  rw [Value.trunc_eq]
  by_cases hq : q = truncate q
  · simp [Value.isNan, Value.isInfinite, ← hq]
  · simp [Value.isNan, Value.isInfinite, hq]

/-- NV and NX of a finite operand are right exactly when its range test is. -/
theorem toIntFlags_right (t : IntTarget) (q : ℚ) :
    ((FpFlags.contains (toIntFlags t.op (.finite q)) FpFlags.NV = true ↔ ¬ t.Fits q) ∧
      (FpFlags.contains (toIntFlags t.op (.finite q)) FpFlags.NX = true ↔ t.Fits q ∧ q ≠ truncate q)) ↔
    (overflows t.op (Value.finite q).trunc = true ↔ ¬ t.Fits q) := by
  rw [toIntFlags_finite]
  by_cases ho : overflows t.op (Value.finite q).trunc = true
  · have hnv : FpFlags.contains FpFlags.NV FpFlags.NV = true := by decide
    have hnx : FpFlags.contains FpFlags.NV FpFlags.NX = false := by decide
    rw [if_pos ho, hnv, hnx]
    simp only [ho, true_iff, Bool.false_eq_true, false_iff]
    exact ⟨fun h => h.1, fun h => ⟨h, fun hf => h hf.1⟩⟩
  · rw [if_neg ho]
    by_cases hq : q = truncate q
    · have hnv : FpFlags.contains FpFlags.NONE FpFlags.NV = false := by decide
      have hnx : FpFlags.contains FpFlags.NONE FpFlags.NX = false := by decide
      rw [if_pos hq, hnv, hnx]
      simp only [ho, Bool.false_eq_true, false_iff, not_not]
      exact ⟨fun h => h.1, fun h => ⟨h, fun hf => hf.2 hq⟩⟩
    · have hnv : FpFlags.contains FpFlags.NX FpFlags.NV = false := by decide
      have hnx : FpFlags.contains FpFlags.NX FpFlags.NX = true := by decide
      rw [if_neg hq, hnv, hnx]
      simp only [ho, Bool.false_eq_true, false_iff, not_not, true_iff]
      exact ⟨fun h => h.1, fun h => ⟨h, h, hq⟩⟩

/-- **A conversion is right unless FCVT.LU gets a number of 2^64 or more.** The
result is the saturated integer part in any case; there the range test has no
upper bound, and NV is not raised. -/
theorem converts_iff (h : Host) (t : IntTarget) (a b c : U64) (is32 : Bool) :
    Converts t (operandValue a is32) (executeFull h t.op a b c is32) ↔
      ¬ (t = .lu ∧ ∃ q, operandValue a is32 = .finite q ∧ 2 ^ 64 ≤ q) := by
  have hresult := executeFull_result h t a b c is32
  have hflags := executeFull_flags h t a b c is32
  revert hresult hflags
  generalize executeFull h t.op a b c is32 = r
  generalize operandValue a is32 = v
  intro hresult hflags
  have hnv : FpFlags.contains FpFlags.NV FpFlags.NV = true := by decide
  have hnx : FpFlags.contains FpFlags.NV FpFlags.NX = false := by decide
  cases v with
  | nan =>
    rw [toIntFlags_special t.op rfl] at hflags
    refine iff_of_true ⟨hresult, ?_, ?_⟩ ?_
    · simp [hflags, hnv]
    · simp [hflags, hnx]
    · simp
  | inf negative =>
    rw [toIntFlags_special t.op rfl] at hflags
    refine iff_of_true ⟨hresult, ?_, ?_⟩ ?_
    · simp [hflags, hnv]
    · simp [hflags, hnx]
    · simp
  | finite q =>
    have hright := (toIntFlags_right t q).trans (overflows_iff t q)
    rw [← hflags] at hright
    have hop : (t = .lu ∧ ∃ q', Value.finite q = .finite q' ∧ 2 ^ 64 ≤ q') ↔ t = .lu ∧ 2 ^ 64 ≤ q := by simp
    rw [hop, ← hright]
    constructor
    · rintro ⟨-, hnv, hnx⟩
      exact ⟨by simpa using hnv, by simpa using hnx⟩
    · rintro ⟨hnv, hnx⟩
      exact ⟨hresult, by simpa using hnv, by simpa using hnx⟩

/-- A host that answers zero and raises nothing. -/
def silentHost : Host where
  f32 := ⟨fun _ _ => (0, 0), fun _ _ => (0, 0), fun _ _ => (0, 0), fun _ _ => (0, 0), fun _ => (0, 0),
      fun _ _ _ => (0, 0)⟩
  f64 := ⟨fun _ _ => (0, 0), fun _ _ => (0, 0), fun _ _ => (0, 0), fun _ _ => (0, 0), fun _ => (0, 0),
      fun _ _ _ => (0, 0)⟩
  intToF32 := fun _ => (0, 0)
  intToF64 := fun _ => (0, 0)
  f64ToF32 := fun _ => (0, 0)
  f32ToF64 := fun _ => (0, 0)

/-- FCVT.LU.D of 2^64: all ones, and no flag. -/
theorem converts_fails :
    operandValue 0x43F0000000000000 false = .finite (2 ^ 64) ∧
      executeFull silentHost .fCvtLUS 0x43F0000000000000 0 0 false = (0xFFFFFFFFFFFFFFFF, FpFlags.NONE) ∧
      ¬ Converts .lu (operandValue 0x43F0000000000000 false)
          (executeFull silentHost .fCvtLUS 0x43F0000000000000 0 0 false) := by
  have hv : operandValue 0x43F0000000000000 false = .finite (2 ^ 64) := by decide +kernel
  have hr : executeFull silentHost .fCvtLUS 0x43F0000000000000 0 0 false = (0xFFFFFFFFFFFFFFFF, FpFlags.NONE) := by
    decide +kernel
  refine ⟨hv, hr, fun hc => ?_⟩
  have hnv := hc.invalid
  rw [hv, hr] at hnv
  have hbig : ¬ IntTarget.lu.Fits (2 ^ 64) := by
    unfold IntTarget.Fits
    decide
  have hraised := hnv.mpr (Or.inr (Or.inr ⟨2 ^ 64, rfl, hbig⟩))
  exact absurd hraised (by decide)

end Rvsim.Fpu
