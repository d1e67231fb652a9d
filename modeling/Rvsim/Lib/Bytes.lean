/-
# Numbers and strings at offsets of a byte block

Big-endian numbers, strings that a zero byte ends, and reads at an offset that
fail outside the block. A read that succeeds stays as it is when the block
grows at its end.

Key definitions:
  - `Bytes.be`, `Bytes.value`, `Bytes.slice`, `Bytes.number`, `Bytes.cstring`, `Bytes.alignUp`
Key theorems:
  - `Bytes.value_be`, `Bytes.number_at`, `Bytes.number_row`, `Bytes.slice_mono`, `Bytes.cstring_at`,
  `Bytes.cstring_mono`
-/
import Mathlib

namespace Bytes

/-- The `n` low bytes of a number, most significant first. -/
def be : Nat → Nat → List (BitVec 8)
  | 0, _ => []
  | n + 1, v => BitVec.ofNat 8 (v / 256 ^ n) :: be n v

/-- The number that bytes stand for, most significant first. -/
def value (bs : List (BitVec 8)) : Nat := bs.foldl (fun acc b => acc * 256 + b.toNat) 0

/-- The `n` bytes from an offset, when the block has them. -/
def slice (bs : List (BitVec 8)) (off n : Nat) : Option (List (BitVec 8)) :=
  if off + n ≤ bs.length then some ((bs.drop off).take n) else none

/-- The number in `n` bytes at an offset. -/
def number (n : Nat) (bs : List (BitVec 8)) (off : Nat) : Option Nat := (slice bs off n).map value

/-- The bytes from an offset up to a zero byte, when there is one. -/
def cstring (bs : List (BitVec 8)) (off : Nat) : Option (List (BitVec 8)) :=
  if 0 ∈ bs.drop off then some ((bs.drop off).takeWhile (· ≠ 0)) else none

/-- The next multiple of `k`. -/
def alignUp (k n : Nat) : Nat := n + (k - n % k) % k

/-! ### Numbers -/

@[simp] theorem length_be (n v : Nat) : (be n v).length = n := by
  induction n with
  | zero => rfl
  | succ n ih => rw [be, List.length_cons, ih]

theorem value_append_singleton (bs : List (BitVec 8)) (b : BitVec 8) :
    value (bs ++ [b]) = value bs * 256 + b.toNat := by
  rw [value, List.foldl_append]
  rfl

theorem be_succ_snoc (n v : Nat) : be (n + 1) v = be n (v / 256) ++ [BitVec.ofNat 8 v] := by
  induction n generalizing v with
  | zero => simp [be]
  | succ n ih =>
    rw [be, ih, be, List.cons_append, Nat.pow_succ', ← Nat.div_div_eq_div_mul]

theorem value_be (n v : Nat) : value (be n v) = v % 256 ^ n := by
  induction n generalizing v with
  | zero => simp [be, value, Nat.mod_one]
  | succ n ih =>
    have hmod : v % 256 ^ (n + 1) = v % 256 + 256 * (v / 256 % 256 ^ n) := by rw [Nat.pow_succ', Nat.mod_mul]
    rw [be_succ_snoc, value_append_singleton, ih, BitVec.toNat_ofNat, hmod]
    omega

/-- The bytes of two halves. -/
theorem be_append (n m v : Nat) : be n (v / 256 ^ m) ++ be m v = be (n + m) v := by
  induction n with
  | zero => rw [Nat.zero_add, be, List.nil_append]
  | succ n ih =>
    rw [be, List.cons_append, ih, show n + 1 + m = (n + m) + 1 by omega, be, Nat.div_div_eq_div_mul, ← Nat.pow_add,
      Nat.add_comm m n]

/-- Only the low bits count. -/
theorem be_mod (n v : Nat) {k : Nat} (hk : n ≤ k) : be n (v % 256 ^ k) = be n v := by
  induction n with
  | zero => rfl
  | succ n ih =>
    rw [be, be, ih (by omega)]
    congr 1
    refine BitVec.eq_of_toNat_eq ?_
    rw [BitVec.toNat_ofNat, BitVec.toNat_ofNat, show (2 : Nat) ^ 8 = 256 from rfl]
    obtain ⟨d, rfl⟩ := Nat.exists_eq_add_of_le hk
    rw [show n + 1 + d = n + (1 + d) by omega, Nat.pow_add, Nat.mod_mul_right_div_self, Nat.pow_add, Nat.pow_one,
      Nat.mod_mul_right_mod]

/-! ### Reads at an offset -/

variable {bs more : List (BitVec 8)} {off n : Nat}

theorem slice_at (pre mid post : List (BitVec 8)) : slice (pre ++ (mid ++ post)) pre.length mid.length = some mid := by
  rw [slice, if_pos (by simp only [List.length_append]; omega), List.drop_left, List.take_left]

theorem slice_mono {x : List (BitVec 8)} (h : slice bs off n = some x) : slice (bs ++ more) off n = some x := by
  unfold slice at h ⊢
  by_cases hin : off + n ≤ bs.length
  · rw [if_pos hin] at h
    rw [if_pos (by rw [List.length_append]; omega), List.drop_append_of_le_length (by omega),
      List.take_append_of_le_length (by rw [List.length_drop]; omega)]
    exact h
  · rw [if_neg hin] at h
    cases h

theorem number_at (pre post : List (BitVec 8)) (v : Nat) (hv : v < 256 ^ n) :
    number n (pre ++ (be n v ++ post)) pre.length = some v := by
  have hs := slice_at pre (be n v) post
  rw [length_be] at hs
  rw [number, hs, Option.map_some, value_be, Nat.mod_eq_of_lt hv]

theorem number_mono {v : Nat} (h : number n bs off = some v) : number n (bs ++ more) off = some v := by
  obtain ⟨x, hx, hv⟩ := Option.map_eq_some_iff.mp h
  rw [number, slice_mono hx, Option.map_some, hv]

/-- The numbers of a row. -/
theorem number_row (vs : List Nat) (post : List (BitVec 8)) (hv : ∀ v ∈ vs, v < 256 ^ n) {i : Nat}
    (hi : i < vs.length) :
    number n (vs.flatMap (be n) ++ post) (i * n) = some vs[i] := by
  have hlen : ∀ l : List Nat, (l.flatMap (be n)).length = l.length * n := by
    intro l
    induction l with
    | nil => simp
    | cons v l ih =>
      rw [List.flatMap_cons, List.length_append, length_be, ih, List.length_cons, Nat.succ_mul, Nat.add_comm]
  have hsplit : vs.flatMap (be n) ++ post =
      (vs.take i).flatMap (be n) ++ (be n vs[i] ++ ((vs.drop (i + 1)).flatMap (be n) ++ post)) := by
    conv_lhs => rw [← List.take_append_drop i vs, List.drop_eq_getElem_cons hi, List.flatMap_append, List.flatMap_cons]
    simp only [List.append_assoc]
  have hpos : ((vs.take i).flatMap (be n)).length = i * n := by
    rw [hlen, List.length_take, Nat.min_eq_left (Nat.le_of_lt hi)]
  rw [hsplit, ← hpos]
  exact number_at _ _ _ (hv _ (List.getElem_mem hi))

theorem cstring_at (pre s post : List (BitVec 8)) (hs : 0 ∉ s) :
    cstring (pre ++ (s ++ 0 :: post)) pre.length = some s := by
  rw [cstring, List.drop_left, if_pos (by simp)]
  have hpos : ∀ b ∈ s, decide (b ≠ 0) = true := fun b hb => decide_eq_true fun heq => hs (heq ▸ hb)
  rw [List.takeWhile_append_of_pos hpos, List.takeWhile_cons_of_neg (by simp), List.append_nil]

theorem cstring_mono {s : List (BitVec 8)} (h : cstring bs off = some s) : cstring (bs ++ more) off = some s := by
  unfold cstring at h ⊢
  by_cases hin : 0 ∈ bs.drop off
  · rw [if_pos hin] at h
    have hlt : off ≤ bs.length := by
      by_contra hge
      rw [List.drop_eq_nil_of_le (by omega)] at hin
      cases hin
    rw [List.drop_append_of_le_length hlt, if_pos (List.mem_append_left _ hin)]
    -- the zero byte that ends the string is in the old part
    obtain ⟨l₁, l₂, hl, hfirst⟩ := List.eq_append_cons_of_mem hin
    have hpos : ∀ b ∈ l₁, decide (b ≠ 0) = true := fun b hb => decide_eq_true fun heq => hfirst (heq ▸ hb)
    rw [hl] at h ⊢
    rw [List.takeWhile_append_of_pos hpos, List.takeWhile_cons_of_neg (by simp)] at h
    rw [List.append_assoc, List.takeWhile_append_of_pos hpos, List.cons_append, List.takeWhile_cons_of_neg (by simp)]
    exact h
  · rw [if_neg hin] at h
    cases h

/-! ### Alignment -/

end Bytes
