/-
# Binary interchange formats

A pattern of a binary format denotes an exact dyadic number, an infinity or a
NaN. Comparisons, truncation toward zero and the saturating conversion to an
integer range are about what is denoted, so that two formats meet in one type
of values.

Key definitions:
  - `Ieee.Format`, `Ieee.Value`, `Ieee.Format.value`
  - `Ieee.truncate`, `Ieee.Value.trunc`, `Ieee.Value.toInt`
Key theorems:
  - `Ieee.Format.isNan_iff`, `Ieee.Format.isNan_iff_masks`
  - `Ieee.le_truncate_iff`, `Ieee.Value.inRange_trunc`, `Ieee.Value.trunc_eq`
-/
import Mathlib.Data.Rat.Floor
import Mathlib.Tactic.Linarith
import Rvsim.Lib.Masks

namespace Ieee

/-! ### Values -/

inductive Value where
  | nan
  | inf (negative : Bool)
  | finite (q : ℚ)
  deriving DecidableEq

namespace Value

def isNan : Value → Bool
  | nan => true
  | _ => false

def isInfinite : Value → Bool
  | inf _ => true
  | _ => false

/-- Equality of numbers: a NaN equals nothing. -/
def eq : Value → Value → Bool
  | nan, _ => false
  | _, nan => false
  | a, b => a == b

/-- Order of numbers: a NaN is below nothing and above nothing. -/
def lt : Value → Value → Bool
  | nan, _ => false
  | _, nan => false
  | inf s, inf t => s && !t
  | inf s, finite _ => s
  | finite _, inf t => !t
  | finite q, finite r => decide (q < r)

def le (a b : Value) : Bool := a.lt b || a.eq b

/-- Membership in the half-open range from `lo` to `hi`. -/
def inRange (lo hi a : Value) : Bool := lo.le a && a.lt hi

end Value

/-! ### Truncation -/

/-- The integer part, toward zero. -/
def truncate (q : ℚ) : ℤ := if 0 ≤ q then ⌊q⌋ else ⌈q⌉

/-- A positive integer is below the integer part exactly when it is below the number. -/
theorem le_truncate_iff {n : ℤ} (hn : 0 < n) (q : ℚ) : n ≤ truncate q ↔ (n : ℚ) ≤ q := by
  unfold truncate
  by_cases hq : 0 ≤ q
  · rw [if_pos hq]
    exact Int.le_floor
  · rw [if_neg hq]
    have hneg : ⌈q⌉ ≤ 0 := Int.ceil_le.mpr (by simpa using (not_le.mp hq).le)
    have hpos : (0 : ℚ) < n := by exact_mod_cast hn
    constructor
    · intro h
      omega
    · intro h
      exact absurd (hpos.le.trans h) hq

namespace Value

/-- Rounded toward zero; infinities and NaNs stay. -/
def trunc : Value → Value
  | finite q => finite (truncate q)
  | v => v

/-- The integer of `[lo, hi]` closest to the integer part; a NaN gives zero. -/
def toInt (lo hi : ℤ) : Value → ℤ
  | nan => 0
  | inf negative => if negative then lo else hi
  | finite q => max lo (min hi (truncate q))

theorem eq_finite (q r : ℚ) : eq (finite q) (finite r) = decide (q = r) := by
  rw [Bool.eq_iff_iff]
  simp [eq]

theorem le_finite (q r : ℚ) : le (finite q) (finite r) = decide (q ≤ r) := by
  unfold le
  rw [eq_finite, Bool.eq_iff_iff]
  simp only [lt, Bool.or_eq_true, decide_eq_true_eq]
  exact le_iff_lt_or_eq.symm

/-- An integer bound is met by the integer part. -/
theorem inRange_trunc (lo hi : ℤ) (q : ℚ) :
    inRange (finite lo) (finite hi) (finite q).trunc = decide (lo ≤ truncate q ∧ truncate q < hi) := by
  unfold inRange trunc
  rw [le_finite, Bool.eq_iff_iff]
  simp [lt]

theorem trunc_eq (q : ℚ) : eq (finite q) (finite q).trunc = decide (q = truncate q) := eq_finite q _

end Value

/-! ### Formats -/

/-- Widths of the exponent and of the fraction; the sign is the bit above them. -/
structure Format where
  exponent : Nat
  fraction : Nat

def binary32 : Format := ⟨8, 23⟩

def binary64 : Format := ⟨11, 52⟩

namespace Format

variable (f : Format) (x : Nat)

def negative : Bool := x.testBit (f.fraction + f.exponent)

def exponentOf : Nat := x / 2 ^ f.fraction % 2 ^ f.exponent

def fractionOf : Nat := x % 2 ^ f.fraction

def bias : Nat := 2 ^ (f.exponent - 1) - 1

/-- The fraction under its leading bit, which a subnormal lacks. -/
def significand : Nat := if f.exponentOf x = 0 then f.fractionOf x else 2 ^ f.fraction + f.fractionOf x

/-- The power of two that one unit of the significand is worth. -/
def scale : ℤ := (max (f.exponentOf x) 1 : ℕ) - (f.bias : ℤ) - f.fraction

def number : ℚ := (if f.negative x then -1 else 1) * f.significand x * 2 ^ f.scale x

/-- What the pattern denotes. -/
def value : Value :=
  if f.exponentOf x = 2 ^ f.exponent - 1 then
    if f.fractionOf x = 0 then .inf (f.negative x) else .nan
  else .finite (f.number x)

/-- A NaN has all exponent bits set and some fraction bit. -/
theorem isNan_iff : (f.value x).isNan = true ↔ f.exponentOf x = 2 ^ f.exponent - 1 ∧ f.fractionOf x ≠ 0 := by
  unfold value
  by_cases he : f.exponentOf x = 2 ^ f.exponent - 1
  · rw [if_pos he]
    by_cases hf : f.fractionOf x = 0
    · simp [hf, Value.isNan]
    · simp [he, hf, Value.isNan]
  · rw [if_neg he]
    simp [he, Value.isNan]

/-- The two field masks of a format name its NaNs. -/
theorem isNan_iff_masks {n : Nat} (hw : f.fraction + f.exponent < n) (x : BitVec n) :
    (f.value x.toNat).isNan = true ↔
      x &&& ((((1 : BitVec n) <<< f.exponent) - 1) <<< f.fraction) =
          (((1 : BitVec n) <<< f.exponent) - 1) <<< f.fraction ∧
        x &&& (((1 : BitVec n) <<< f.fraction) - 1) ≠ 0 := by
  have hexp : f.exponent < n := by omega
  have hfrac : f.fraction < n := by omega
  rw [isNan_iff, Masks.and_field_eq_iff hexp x (by omega)]
  have hzero : x &&& (((1 : BitVec n) <<< f.fraction) - 1) = 0 ↔ f.fractionOf x.toNat = 0 := by
    rw [← BitVec.toNat_inj, Masks.toNat_low hfrac]
    simp [fractionOf]
  rw [ne_eq, ne_eq, hzero]
  rfl

end Format

end Ieee
