/-
# Words edited under masks

A register word is edited by keeping the bits of one mask and putting others
in. What an edit does to a field, or to a view that shows some of the bits, is
decided by how the masks lie to each other.

Key definitions:
  - `Masks.put`: set or clear the bits of a mask
Key theorems:
  - `Masks.test_bit`, `Masks.getLsbD_low`, `Masks.toNat_field`, `Masks.and_field_eq_iff`, `Masks.field_edit`,
  `Masks.view_edit`, `Masks.merge`
-/
import Mathlib.Data.BitVec
import Mathlib.Tactic.Common

namespace Masks

variable {w : Nat} {x y a b k f : BitVec w}

/-- Set or clear the bits of `bit` in `x`. -/
def put (x bit : BitVec w) (on : Bool) : BitVec w := if on then x ||| bit else x &&& ~~~bit

/-! ### Bits -/

theorem getLsbD_put (x bit : BitVec w) (on : Bool) (i : Nat) :
    (put x bit on).getLsbD i = if bit.getLsbD i then on else x.getLsbD i := by
  unfold put
  by_cases hi : i < w
  · cases on with
    | true =>
      simp only [if_true, BitVec.getLsbD_or]
      cases bit.getLsbD i <;> simp
    | false =>
      simp only [Bool.false_eq_true, if_false, BitVec.getLsbD_and, BitVec.getLsbD_not, hi, decide_true, Bool.true_and]
      cases bit.getLsbD i <;> simp
  · have hx : x.getLsbD i = false := BitVec.getLsbD_of_ge x i (by omega)
    have hb : bit.getLsbD i = false := BitVec.getLsbD_of_ge bit i (by omega)
    cases on <;> simp [hx, hb]

/-- The bits of a one-bit mask. -/
theorem getLsbD_bit (n i : Nat) (hn : n < w) : ((1 : BitVec w) <<< n).getLsbD i = decide (i = n) := by
  rw [show (1 : BitVec w) = 1#w from rfl, ← BitVec.twoPow_eq, BitVec.getLsbD_twoPow, decide_eq_true hn, Bool.true_and]
  exact decide_eq_decide.mpr eq_comm

/-- The bits of a mask of the low `n` bits. -/
theorem getLsbD_low {n : Nat} (hn : n < w) (i : Nat) : (((1 : BitVec w) <<< n) - 1).getLsbD i = decide (i < n) := by
  have hpow : 2 ^ n < 2 ^ w := Nat.pow_lt_pow_right (by decide) hn
  have hpos : 0 < 2 ^ n := Nat.two_pow_pos n
  have heq : ((1 : BitVec w) <<< n) - 1 = BitVec.ofNat w (2 ^ n - 1) := by
    apply BitVec.eq_of_toNat_eq
    have hone : (1 : BitVec w).toNat = 1 := Nat.mod_eq_of_lt (lt_of_le_of_lt hpos hpow)
    have hshift : ((1 : BitVec w) <<< n).toNat = 2 ^ n := by
      rw [BitVec.toNat_shiftLeft, hone, Nat.shiftLeft_eq, Nat.one_mul, Nat.mod_eq_of_lt hpow]
    have hsum : 2 ^ w - 1 + 2 ^ n = 2 ^ n - 1 + 2 ^ w := by omega
    rw [BitVec.toNat_sub, hshift, BitVec.toNat_ofNat, hone, hsum, Nat.add_mod_right]
  rw [heq, BitVec.getLsbD_ofNat, Nat.testBit_two_pow_sub_one]
  by_cases h : i < n
  · simp [h]
    omega
  · simp [h]

/-- Testing a word with a one-bit mask. -/
theorem test_bit (x : BitVec w) {n : Nat} (hn : n < w) : (x &&& (1 : BitVec w) <<< n != 0) = x.getLsbD n := by
  rw [show (1 : BitVec w) = 1#w from rfl, ← BitVec.twoPow_eq, BitVec.and_twoPow]
  cases hx : x.getLsbD n with
  | false => simp
  | true =>
    have hne : BitVec.twoPow w n ≠ 0#w := fun h => by
      have hi := congrArg (fun z => z.getLsbD n) h
      simp [hn] at hi
    simpa using hne

/-- Equality bit by bit. -/
theorem ext_bits (h : ∀ i, i < w → x.getLsbD i = y.getLsbD i) : x = y := BitVec.eq_of_getLsbD_eq fun i hi => h i hi

theorem bit_of_and_eq (h : a &&& b = b) {i : Nat} (hb : b.getLsbD i = true) : a.getLsbD i = true := by
  have hi := congrArg (fun z => z.getLsbD i) h
  simpa [hb] using hi

theorem bit_of_and_zero (h : a &&& b = 0) {i : Nat} (hb : b.getLsbD i = true) : a.getLsbD i = false := by
  have hi := congrArg (fun z => z.getLsbD i) h
  simpa [hb] using hi

/-! ### Numbers -/

theorem toNat_low {n : Nat} (hn : n < w) (x : BitVec w) :
    (x &&& (((1 : BitVec w) <<< n) - 1)).toNat = x.toNat % 2 ^ n := by
  refine Nat.eq_of_testBit_eq fun i => ?_
  rw [BitVec.testBit_toNat, BitVec.getLsbD_and, getLsbD_low hn, Nat.testBit_mod_two_pow,
      BitVec.testBit_toNat, Bool.and_comm]

/-- The bits above the low `n`, as a number. -/
theorem toNat_high {n : Nat} (hn : n < w) (x : BitVec w) :
    (x &&& ~~~(((1 : BitVec w) <<< n) - 1)).toNat = x.toNat / 2 ^ n * 2 ^ n := by
  refine Nat.eq_of_testBit_eq fun i => ?_
  rw [BitVec.testBit_toNat, BitVec.getLsbD_and, BitVec.getLsbD_not, getLsbD_low hn, Nat.testBit_mul_two_pow,
      Nat.testBit_div_two_pow]
  by_cases hi : n ≤ i
  · have hlow : ¬ i < n := Nat.not_lt.mpr hi
    rw [Nat.sub_add_cancel hi, BitVec.testBit_toNat, decide_eq_true hi, decide_eq_false hlow]
    by_cases hw : i < w
    · simp [hw]
    · simp [BitVec.getLsbD_of_ge x i (Nat.le_of_not_lt hw)]
  · have hlow : i < n := Nat.lt_of_not_le hi
    rw [decide_eq_false hi, decide_eq_true hlow]
    simp

/-- The `n` bits from `lo` on, as a number. -/
theorem toNat_field {n : Nat} (hn : n < w) (lo : Nat) (x : BitVec w) :
    ((x >>> lo) &&& (((1 : BitVec w) <<< n) - 1)).toNat = x.toNat / 2 ^ lo % 2 ^ n := by
  rw [toNat_low hn, BitVec.toNat_ushiftRight, Nat.shiftRight_eq_div_pow]

/-- The `n` bits from `lo` on, kept in place, as a number. -/
theorem toNat_and_field {n lo : Nat} (hn : n < w) (x : BitVec w) (hw : lo + n ≤ w) :
    (x &&& ((((1 : BitVec w) <<< n) - 1) <<< lo)).toNat = x.toNat / 2 ^ lo % 2 ^ n * 2 ^ lo := by
  refine Nat.eq_of_testBit_eq fun i => ?_
  rw [BitVec.testBit_toNat, BitVec.getLsbD_and, BitVec.getLsbD_shiftLeft, getLsbD_low hn, Nat.testBit_mul_two_pow,
    Nat.testBit_mod_two_pow, Nat.testBit_div_two_pow]
  by_cases hi : lo ≤ i
  · have hlo : ¬ i < lo := Nat.not_lt.mpr hi
    rw [Nat.sub_add_cancel hi, BitVec.testBit_toNat, decide_eq_true hi, decide_eq_false hlo]
    by_cases hfield : i - lo < n
    · have hiw : i < w := by omega
      simp [hfield, hiw]
    · simp [hfield]
  · have hlo : i < lo := Nat.lt_of_not_le hi
    simp [hi, hlo]

theorem toNat_fieldMask {n lo : Nat} (hn : n < w) (hw : lo + n ≤ w) :
    ((((1 : BitVec w) <<< n) - 1) <<< lo).toNat = (2 ^ n - 1) * 2 ^ lo := by
  refine Nat.eq_of_testBit_eq fun i => ?_
  rw [BitVec.testBit_toNat, BitVec.getLsbD_shiftLeft, getLsbD_low hn, Nat.testBit_mul_two_pow,
      Nat.testBit_two_pow_sub_one]
  by_cases hi : lo ≤ i
  · have hlo : ¬ i < lo := Nat.not_lt.mpr hi
    by_cases hfield : i - lo < n
    · have hiw : i < w := by omega
      simp [hfield, hiw, hi]
    · simp [hfield]
  · have hlo : i < lo := Nat.lt_of_not_le hi
    simp [hi, hlo]

/-- All bits of a field are set when it holds its largest number. -/
theorem and_field_eq_iff {n lo : Nat} (hn : n < w) (x : BitVec w) (hw : lo + n ≤ w) :
    x &&& ((((1 : BitVec w) <<< n) - 1) <<< lo) = (((1 : BitVec w) <<< n) - 1) <<< lo ↔
        x.toNat / 2 ^ lo % 2 ^ n = 2 ^ n - 1 := by
  rw [← BitVec.toNat_inj, toNat_and_field hn x hw, toNat_fieldMask hn hw]
  exact Nat.mul_left_inj (Nat.two_pow_pos lo).ne'

/-- Words without common bits are added. -/
theorem toNat_or_of_dvd {n : Nat} (hx : 2 ^ n ∣ x.toNat) (hy : y.toNat < 2 ^ n) :
    (x ||| y).toNat = x.toNat + y.toNat := by
  obtain ⟨q, hq⟩ := hx
  rw [BitVec.toNat_or, hq, Nat.two_pow_add_eq_or_of_lt hy]

/-! ### Fields -/

/-- A field that is kept, and into which nothing is put, stays. -/
theorem field_edit (hk : k &&& f = f) (hb : b &&& f = 0) : ((x &&& k) ||| b) &&& f = x &&& f := by
  refine ext_bits fun i hi => ?_
  simp only [BitVec.getLsbD_and, BitVec.getLsbD_or]
  cases hf : f.getLsbD i with
  | false => simp
  | true => simp [bit_of_and_eq hk hf, bit_of_and_zero hb hf]

theorem field_keep (hk : k &&& f = f) : (x &&& k) &&& f = x &&& f := by
  rw [BitVec.and_assoc, hk]

/-- A field that is not kept is empty, whatever else is dropped. -/
theorem field_clear (hk : k &&& f = 0) : ((x &&& k) &&& a) &&& f = 0 := by
  refine ext_bits fun i hi => ?_
  simp only [BitVec.getLsbD_and]
  cases hf : f.getLsbD i with
  | false => simp
  | true => simp [bit_of_and_zero hk hf]

theorem field_put {bit : BitVec w} (hb : bit &&& f = 0) (on : Bool) : put x bit on &&& f = x &&& f := by
  refine ext_bits fun i hi => ?_
  simp only [BitVec.getLsbD_and, getLsbD_put]
  cases hf : f.getLsbD i with
  | false => simp
  | true => simp [bit_of_and_zero hb hf]

/-! ### Views -/

/-- An edit seen through a view. -/
theorem view_edit : ((x &&& k) ||| b) &&& f = ((x &&& f) &&& k) ||| (b &&& f) := by
  refine ext_bits fun i hi => ?_
  simp only [BitVec.getLsbD_and, BitVec.getLsbD_or]
  cases x.getLsbD i <;> cases k.getLsbD i <;> cases b.getLsbD i <;> cases f.getLsbD i <;> rfl

/-- A view that was edited under `k` alone, put back into the word. -/
theorem merge (hk : f &&& k = k) (hy : y &&& ~~~k = (x &&& f) &&& ~~~k) : ((x &&& ~~~k) ||| (y &&& k)) &&& f = y := by
  refine ext_bits fun i hi => ?_
  have hyi := congrArg (fun z => z.getLsbD i) hy
  simp only [BitVec.getLsbD_and, BitVec.getLsbD_not, hi, decide_true, Bool.true_and] at hyi
  simp only [BitVec.getLsbD_and, BitVec.getLsbD_or, BitVec.getLsbD_not, hi, decide_true, Bool.true_and]
  cases hki : k.getLsbD i with
  | false =>
    rw [hki, Bool.not_false, Bool.and_true, Bool.and_true] at hyi
    simp [hyi]
  | true => simp [bit_of_and_eq hk hki]

end Masks
