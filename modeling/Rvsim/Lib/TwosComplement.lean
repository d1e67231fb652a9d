/-
# Words as integers

A `w`-bit word stands for a signed and for an unsigned integer, and an integer
is kept in a word modulo `2 ^ w` (`BitVec.ofInt`). Each operation on words is
here the operation on integers, kept in a word.
-/
import Mathlib

namespace TwosComplement

variable {w : Nat}

theorem toInt_eq_zero {x : BitVec w} : x.toInt = 0 ↔ x = 0#w := by
  rw [← BitVec.toInt_inj]
  simp

theorem toNat_eq_zero {x : BitVec w} : x.toNat = 0 ↔ x = 0#w := by
  rw [← BitVec.toNat_inj]
  simp

theorem ofInt_neg_one : BitVec.ofInt w (-1) = BitVec.allOnes w := by
  rw [← BitVec.neg_one_eq_allOnes, BitVec.ofInt_neg]
  simp

theorem ofInt_allOnes : BitVec.ofInt w (2 ^ w - 1) = BitVec.allOnes w := by
  have hc : (2 ^ w - 1 : Int) = ((2 ^ w - 1 : Nat) : Int) := by
    push_cast [Nat.one_le_two_pow]
    rfl
  apply BitVec.eq_of_toNat_eq
  rw [hc, BitVec.ofInt_natCast, BitVec.toNat_ofNat, BitVec.toNat_allOnes]
  exact Nat.mod_eq_of_lt (Nat.sub_lt (Nat.two_pow_pos w) one_pos)

/-! ### Sums and products -/

theorem add_ofInt (x y : BitVec w) : x + y = BitVec.ofInt w (x.toInt + y.toInt) := by
  rw [BitVec.ofInt_add, BitVec.ofInt_toInt, BitVec.ofInt_toInt]

theorem sub_ofInt (x y : BitVec w) : x - y = BitVec.ofInt w (x.toInt - y.toInt) :=
  BitVec.eq_of_toInt_eq (by rw [BitVec.toInt_sub, BitVec.toInt_ofInt])

theorem mul_ofInt (x y : BitVec w) : x * y = BitVec.ofInt w (x.toInt * y.toInt) := by
  rw [BitVec.ofInt_mul, BitVec.ofInt_toInt, BitVec.ofInt_toInt]

theorem emod_mul_self_ediv (n : Int) {b : Int} (hb : 0 < b) : n % (b * b) / b = n / b % b := by
  calc n % (b * b) / b = (n - b * (b * (n / (b * b)))) / b := by rw [Int.emod_def, mul_assoc]
    _ = n / b - b * (n / (b * b)) := Int.sub_mul_ediv_left n _ hb.ne'
    _ = n / b - b * (n / b / b) := by rw [Int.ediv_ediv_of_nonneg hb.le]
    _ = n / b % b := (Int.emod_def _ _).symm

/-- The upper half of a word of twice the width is a floor division. -/
theorem high_ofInt (n : Int) :
    ((BitVec.ofInt (2 * w) n) >>> w).setWidth w = BitVec.ofInt w (n / 2 ^ w) := by
  have hsq : ((2 ^ (2 * w) : Nat) : Int) = 2 ^ w * 2 ^ w := by
    push_cast
    rw [two_mul, pow_add]
  have hw : ((2 ^ w : Nat) : Int) = 2 ^ w := by
    push_cast
    rfl
  have hpos : (0 : Int) < 2 ^ w := by positivity
  have hn : 0 ≤ n % (2 ^ w * 2 ^ w : Int) := Int.emod_nonneg n (by positivity)
  apply BitVec.eq_of_toNat_eq
  apply Int.ofNat_inj.mp
  rw [BitVec.toNat_setWidth, BitVec.toNat_ushiftRight, BitVec.toNat_ofInt, BitVec.toNat_ofInt,
    Nat.shiftRight_eq_div_pow, Int.natCast_emod, Int.natCast_ediv, hsq, Int.toNat_of_nonneg hn, hw,
    emod_mul_self_ediv n hpos, Int.emod_emod, Int.toNat_of_nonneg (Int.emod_nonneg _ hpos.ne')]

/-- So is the upper half of a product. -/
theorem high_mul_ofInt (m n : Int) :
    ((BitVec.ofInt (2 * w) m * BitVec.ofInt (2 * w) n) >>> w).setWidth w =
      BitVec.ofInt w (m * n / 2 ^ w) := by
  rw [← BitVec.ofInt_mul, high_ofInt]

theorem setWidth_ofInt {v : Nat} (x : BitVec w) : x.setWidth v = BitVec.ofInt v x.toNat := by
  apply BitVec.eq_of_toNat_eq
  rw [BitVec.ofInt_natCast, BitVec.toNat_setWidth, BitVec.toNat_ofNat]

/-! ### Quotients and remainders -/

theorem sdiv_ofInt (x y : BitVec w) : x.sdiv y = BitVec.ofInt w (x.toInt.tdiv y.toInt) :=
  BitVec.eq_of_toInt_eq (by rw [BitVec.toInt_sdiv, BitVec.toInt_ofInt])

theorem srem_ofInt (x y : BitVec w) : x.srem y = BitVec.ofInt w (x.toInt.tmod y.toInt) := by
  rw [← BitVec.toInt_srem, BitVec.ofInt_toInt]

/-- A natural number below a word is a word. -/
theorem toNat_ofInt_of_le {x : BitVec w} {n : Nat} (h : n ≤ x.toNat) :
    (BitVec.ofInt w n).toNat = n := by
  rw [BitVec.ofInt_natCast, BitVec.toNat_ofNat]
  exact Nat.mod_eq_of_lt (h.trans_lt x.isLt)

theorem udiv_ofInt (x y : BitVec w) : x / y = BitVec.ofInt w (x.toNat / y.toNat) := by
  apply BitVec.eq_of_toNat_eq
  rw [BitVec.toNat_udiv, ← Int.natCast_ediv, toNat_ofInt_of_le (Nat.div_le_self x.toNat y.toNat)]

theorem umod_ofInt (x y : BitVec w) : x % y = BitVec.ofInt w (x.toNat % y.toNat) := by
  apply BitVec.eq_of_toNat_eq
  rw [BitVec.toNat_umod, ← Int.natCast_emod, toNat_ofInt_of_le (Nat.mod_le x.toNat y.toNat)]

/-! ### Shifts -/

theorem shiftLeft_ofInt (x : BitVec w) (n : Nat) : x <<< n = BitVec.ofInt w (x.toNat * 2 ^ n) := by
  have hc : (x.toNat * 2 ^ n : Int) = ((x.toNat * 2 ^ n : Nat) : Int) := by push_cast; rfl
  apply BitVec.eq_of_toNat_eq
  rw [hc, BitVec.ofInt_natCast, BitVec.toNat_shiftLeft, BitVec.toNat_ofNat, Nat.shiftLeft_eq]

theorem ushiftRight_ofInt (x : BitVec w) (n : Nat) : x >>> n = BitVec.ofInt w (x.toNat / 2 ^ n) := by
  have hc : (x.toNat / 2 ^ n : Int) = ((x.toNat / 2 ^ n : Nat) : Int) := by push_cast; rfl
  apply BitVec.eq_of_toNat_eq
  rw [hc, toNat_ofInt_of_le (Nat.div_le_self _ _), BitVec.toNat_ushiftRight,
    Nat.shiftRight_eq_div_pow]

theorem sshiftRight_ofInt (x : BitVec w) (n : Nat) :
    x.sshiftRight n = BitVec.ofInt w (x.toInt / 2 ^ n) := by
  rw [BitVec.sshiftRight, Int.shiftRight_eq_div_pow]
  norm_cast

/-! ### Comparisons -/

theorem slt_min_ofInt (x y : BitVec w) :
    (if x.slt y then x else y) = BitVec.ofInt w (min x.toInt y.toInt) := by
  by_cases h : x.toInt < y.toInt
  · simp [BitVec.slt_iff_toInt_lt.mpr h, min_eq_left h.le]
  · simp [mt BitVec.slt_iff_toInt_lt.mp h, min_eq_right (not_lt.mp h)]

theorem slt_max_ofInt (x y : BitVec w) :
    (if x.slt y then y else x) = BitVec.ofInt w (max x.toInt y.toInt) := by
  by_cases h : x.toInt < y.toInt
  · simp [BitVec.slt_iff_toInt_lt.mpr h, max_eq_right h.le]
  · simp [mt BitVec.slt_iff_toInt_lt.mp h, max_eq_left (not_lt.mp h)]

theorem ult_min_ofNat (x y : BitVec w) :
    (if x.ult y then x else y) = BitVec.ofNat w (min x.toNat y.toNat) := by
  by_cases h : x.toNat < y.toNat
  · simp [BitVec.ult_iff_toNat_lt.mpr h, min_eq_left h.le]
  · simp [mt BitVec.ult_iff_toNat_lt.mp h, min_eq_right (not_lt.mp h)]

theorem ult_max_ofNat (x y : BitVec w) :
    (if x.ult y then y else x) = BitVec.ofNat w (max x.toNat y.toNat) := by
  by_cases h : x.toNat < y.toNat
  · simp [BitVec.ult_iff_toNat_lt.mpr h, max_eq_right h.le]
  · simp [mt BitVec.ult_iff_toNat_lt.mp h, max_eq_left (not_lt.mp h)]

end TwosComplement
