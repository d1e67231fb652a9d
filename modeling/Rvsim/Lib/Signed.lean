/-
# Checked arithmetic on signed words

An operation on signed words has the exact result of the integers, or stops when
that does not fit. Taken modulo the words' range the result is that of the wrapping
operation.

Key definitions:
  - `Checked.InRange`, `Checked.exact`, `Checked.ofSigned`, `Checked.subSigned`, `Checked.addSigned`,
  `Checked.mulSigned`, `Checked.negSigned` Key theorems:
  - `Checked.ofSigned_eq_ok`, `Checked.toInt_ofInt`, `Checked.inRange_scale`
  - `Checked.mapM_eq_ok`, `Checked.mapM_ok_iff`, `Checked.mapM_range'`
-/
import Mathlib.Algebra.Order.Ring.Int
import Mathlib.Data.List.Forall2
import Mathlib.Tactic.Positivity
import Rvsim.Lib.Checked

namespace Checked

/-- The integers that fit in a signed word. -/
def InRange (w : Nat) (x : Int) : Prop := -2 ^ (w - 1) ≤ x ∧ x < 2 ^ (w - 1)

instance (w : Nat) (x : Int) : Decidable (InRange w x) := inferInstanceAs (Decidable (_ ∧ _))

def ofSigned (w : Nat) (x : Int) : Checked (BitVec w) := if InRange w x then .ok (BitVec.ofInt w x) else
    .error .overflow

variable {w : Nat}

def subSigned (a b : BitVec w) : Checked (BitVec w) := ofSigned w (a.toInt - b.toInt)
def addSigned (a b : BitVec w) : Checked (BitVec w) := ofSigned w (a.toInt + b.toInt)
def mulSigned (a b : BitVec w) : Checked (BitVec w) := ofSigned w (a.toInt * b.toInt)
def negSigned (a : BitVec w) : Checked (BitVec w) := ofSigned w (-a.toInt)

theorem ofSigned_eq_ok {x : Int} {c : BitVec w} : ofSigned w x = .ok c ↔ InRange w x ∧ c = BitVec.ofInt w x := ite_eq_ok

/-- An integer that a signed word holds. -/
def exact (w : Nat) (x : Int) : Checked Int := if InRange w x then .ok x else .error .overflow

theorem exact_eq_ok {x y : Int} : exact w x = .ok y ↔ InRange w x ∧ y = x := ite_eq_ok

theorem exact_ok {x : Int} (h : InRange w x) : exact w x = .ok x := if_pos h

theorem ofSigned_ok {x : Int} (h : InRange w x) : ofSigned w x = .ok (BitVec.ofInt w x) := if_pos h

/-- What fits is what the word says. -/
theorem toInt_ofInt (hw : 0 < w) {x : Int} (h : InRange w x) : (BitVec.ofInt w x).toInt = x := by
  obtain ⟨hlo, hhi⟩ := h
  have hpow : (2 : Int) ^ w = 2 * 2 ^ (w - 1) := by
    rw [← pow_succ', Nat.sub_add_cancel hw]
  rw [BitVec.toInt_ofInt]
  refine Int.bmod_eq_of_le ?_ ?_
  all_goals push_cast
  all_goals omega

theorem inRange_toInt (x : BitVec w) : InRange w x.toInt := by
  have hlo := BitVec.le_toInt x
  have hhi := BitVec.toInt_lt (x := x)
  exact ⟨hlo, hhi⟩

/-- Between two that fit everything fits. -/
theorem inRange_between {x y z : Int} (hx : InRange w x) (hz : InRange w z) (hxy : min x z ≤ y) (hyz : y ≤ max x z) :
    InRange w y := by
  obtain ⟨hx1, hx2⟩ := hx
  obtain ⟨hz1, hz2⟩ := hz
  constructor
  · omega
  · omega

theorem inRange_zero (w : Nat) : InRange w 0 := by
  have hpos : (0 : Int) < 2 ^ (w - 1) := by positivity
  constructor
  · omega
  · exact hpos

/-- The multiples up to some multiple fit when that one does, and so do their sums with what fits. -/
theorem inRange_scale {a s : Int} {k d : Nat} (ha : InRange w a) (hs : InRange w (s * d))
    (hsum : InRange w (a + s * d)) (hk : k ≤ d) :
    InRange w (s * k) ∧ InRange w (a + s * k) := by
  have hkd : (k : Int) ≤ d := by exact_mod_cast hk
  have hk0 : (0 : Int) ≤ k := Int.natCast_nonneg k
  have hbetween : min 0 (s * d) ≤ s * k ∧ s * k ≤ max 0 (s * d) := by
    rcases le_total 0 s with h | h
    · exact ⟨(min_le_left _ _).trans (mul_nonneg h hk0), (mul_le_mul_of_nonneg_left hkd h).trans (le_max_right _ _)⟩
    · exact ⟨(min_le_right _ _).trans (mul_le_mul_of_nonpos_left hkd h),
        (mul_nonpos_of_nonpos_of_nonneg h hk0).trans (le_max_left _ _)⟩
  refine ⟨inRange_between (inRange_zero w) hs hbetween.1 hbetween.2, inRange_between ha hsum ?_ ?_⟩
  · omega
  · omega

variable {α β : Type} {f : α → Checked β}

/-- A loop over a list gives a result when every round does. -/
theorem mapM_eq_ok {l : List α} {ys : List β} : l.mapM f = .ok ys ↔ List.Forall₂ (fun x y => f x = .ok y) l ys := by
  induction l generalizing ys with
  | nil =>
    rw [List.mapM_nil]
    constructor
    · intro h
      cases h
      exact .nil
    · intro h
      cases h
      rfl
  | cons x l ih =>
    rw [List.mapM_cons, bind_eq_ok]
    constructor
    · rintro ⟨y, hy, h⟩
      obtain ⟨ys', hys', h⟩ := bind_eq_ok.mp h
      cases h
      exact .cons hy (ih.mp hys')
    · intro h
      cases h with
      | cons hy hys => exact ⟨_, hy, bind_eq_ok.mpr ⟨_, ih.mpr hys, rfl⟩⟩

/-- It does so when there is one for every element. -/
theorem mapM_ok_iff {l : List α} : (∃ ys, l.mapM f = .ok ys) ↔ ∀ x ∈ l, ∃ y, f x = .ok y := by
  induction l with
  | nil => exact iff_of_true ⟨[], rfl⟩ fun x hx => absurd hx List.not_mem_nil
  | cons x l ih =>
    rw [List.forall_mem_cons, ← ih]
    constructor
    · rintro ⟨ys, h⟩
      cases mapM_eq_ok.mp h with
      | cons hy hys => exact ⟨⟨_, hy⟩, _, mapM_eq_ok.mpr hys⟩
    · rintro ⟨⟨y, hy⟩, ys, hys⟩
      exact ⟨y :: ys, mapM_eq_ok.mpr (.cons hy (mapM_eq_ok.mp hys))⟩

/-- A round of a counted loop gives one element of its result. -/
theorem mapM_range' {f : Nat → Checked β} {n i : Nat} {ys : List β} {y : β} (h : (List.range' 1 n).mapM f = .ok ys)
    (hy : ys[i]? = some y) : i < n ∧ f (i + 1) = .ok y := by
  obtain ⟨hlen, hall⟩ := List.forall₂_iff_get.mp (mapM_eq_ok.mp h)
  obtain ⟨hi, rfl⟩ := List.getElem?_eq_some_iff.mp hy
  have hround := hall i (hlen ▸ hi) hi
  rw [List.get_eq_getElem, List.get_eq_getElem, List.getElem_range', Nat.one_mul, Nat.add_comm] at hround
  rw [List.length_range'] at hlen
  exact ⟨hlen ▸ hi, hround⟩

end Checked
