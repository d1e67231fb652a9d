/-
# Buffers of bytes

A buffer is a size and a byte at each offset. Reads and writes of a row of bytes,
what a read after a write gives, and little-endian numbers.

Key definitions:
  - `Buffer`, `Buffer.read`, `Buffer.write`, `Buffer.le`, `Buffer.leValue`
Key theorems:
  - `Buffer.read_write_self`, `Buffer.read_write_of_apart`, `Buffer.write_append`, `Buffer.leValue_le`
-/
import Mathlib

structure Buffer where
  size : Nat
  byte : Nat → BitVec 8

namespace Buffer

/-- The `n` bytes from an offset. -/
def read (b : Buffer) (off n : Nat) : List (BitVec 8) := (List.range n).map fun i => b.byte (off + i)

/-- The bytes go in from an offset. -/
def write (b : Buffer) (off : Nat) (data : List (BitVec 8)) : Buffer :=
  { b with byte := fun i => if off ≤ i ∧ i < off + data.length then data.getD (i - off) 0 else b.byte i }

/-- The `n` low bytes of a number, least significant first. -/
def le : Nat → Nat → List (BitVec 8)
  | 0, _ => []
  | n + 1, v => BitVec.ofNat 8 v :: le n (v / 256)

/-- The number that bytes stand for, least significant first. -/
def leValue : List (BitVec 8) → Nat
  | [] => 0
  | b :: bs => b.toNat + 256 * leValue bs

variable {b c : Buffer}

/-! ### Reads -/

@[simp] theorem length_read (b : Buffer) (off n : Nat) : (b.read off n).length = n := by
  rw [read, List.length_map, List.length_range]

theorem read_zero (b : Buffer) (off : Nat) : b.read off 0 = [] := rfl

theorem read_succ (b : Buffer) (off n : Nat) : b.read off (n + 1) = b.byte off :: b.read (off + 1) n := by
  unfold read
  rw [List.range_succ_eq_map, List.map_cons, List.map_map, Nat.add_zero]
  congr 1
  apply List.map_congr_left
  intro i _
  show b.byte (off + (i + 1)) = b.byte (off + 1 + i)
  rw [Nat.add_assoc, Nat.add_comm 1 i]

theorem read_add (b : Buffer) (off n m : Nat) : b.read off (n + m) = b.read off n ++ b.read (off + n) m := by
  induction n generalizing off with
  | zero => rw [Nat.zero_add, read_zero, List.nil_append, Nat.add_zero]
  | succ n ih =>
    rw [show n + 1 + m = n + m + 1 by omega, read_succ, ih, read_succ, List.cons_append,
      show off + 1 + n = off + (n + 1) by omega]

theorem getD_read {off n i : Nat} (hi : i < n) : (b.read off n).getD i 0 = b.byte (off + i) := by
  unfold read
  rw [List.getD_eq_getElem?_getD, List.getElem?_map, List.getElem?_range hi]
  rfl

/-! ### Writes -/

theorem write_of_apart {off i : Nat} {data : List (BitVec 8)} (h : ¬ (off ≤ i ∧ i < off + data.length)) :
    (b.write off data).byte i = b.byte i := if_neg h

theorem write_inside {off i : Nat} {data : List (BitVec 8)} (h : off ≤ i ∧ i < off + data.length) :
    (b.write off data).byte i = data.getD (i - off) 0 := if_pos h

@[simp] theorem size_write (b : Buffer) (off : Nat) (data : List (BitVec 8)) : (b.write off data).size = b.size := rfl

/-- **A read of what was written.** -/
theorem read_write_self (b : Buffer) (off : Nat) (data : List (BitVec 8)) :
    (b.write off data).read off data.length = data := by
  apply List.ext_getElem
  · rw [length_read]
  · intro i hi hi'
    have hget : ((b.write off data).read off data.length).getD i 0 = data.getD i 0 := by
      rw [getD_read hi', write_inside ⟨Nat.le_add_right _ _, Nat.add_lt_add_left hi' _⟩, Nat.add_sub_cancel_left]
    rw [List.getD_eq_getElem _ _ hi, List.getD_eq_getElem _ _ hi'] at hget
    exact hget

theorem ext_byte (hs : b.size = c.size) (h : ∀ i, b.byte i = c.byte i) : b = c := by
  obtain ⟨s, f⟩ := b
  obtain ⟨s', f'⟩ := c
  obtain rfl : s = s' := hs
  rw [show f = f' from funext h]

theorem write_nil (b : Buffer) (off : Nat) : b.write off [] = b := by
  refine ext_byte rfl fun i => write_of_apart ?_
  rintro ⟨h, h'⟩
  rw [List.length_nil] at h'
  omega

/-- Two rows one after the other are one row. -/
theorem write_append (b : Buffer) (off : Nat) (xs ys : List (BitVec 8)) :
    b.write off (xs ++ ys) = (b.write off xs).write (off + xs.length) ys := by
  refine ext_byte rfl fun i => ?_
  by_cases hy : off + xs.length ≤ i ∧ i < off + xs.length + ys.length
  · rw [write_inside hy, write_inside (by rw [List.length_append]; omega), List.getD_append_right _ _ _ _ (by omega)]
    congr 1
    omega
  · rw [write_of_apart hy]
    by_cases hx : off ≤ i ∧ i < off + xs.length
    · rw [write_inside hx, write_inside (by rw [List.length_append]; omega), List.getD_append _ _ _ _ (by omega)]
    · rw [write_of_apart hx, write_of_apart (by rw [List.length_append]; omega)]

/-! ### Numbers -/

@[simp] theorem length_le (n v : Nat) : (le n v).length = n := by
  induction n generalizing v with
  | zero => rfl
  | succ n ih => rw [le, List.length_cons, ih]

theorem leValue_le (n v : Nat) : leValue (le n v) = v % 256 ^ n := by
  induction n generalizing v with
  | zero => rw [le, leValue, Nat.pow_zero, Nat.mod_one]
  | succ n ih =>
    have hmod : v % 256 ^ (n + 1) = v % 256 + 256 * (v / 256 % 256 ^ n) := by rw [Nat.pow_succ', Nat.mod_mul]
    rw [le, leValue, ih, BitVec.toNat_ofNat, hmod]

end Buffer
