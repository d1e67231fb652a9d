/-
# Computations that can stop

Programs whose sums, products and slices are checked and whose loops are given a
number of rounds: a result, or what stopped it.

Key definitions:
  - `Halt`, `Checked`, `Checked.add`, `Checked.mul`, `Checked.addNat`, `Checked.mulNat`, `Checked.subNat`,
  `Checked.slice` Key theorems:
  - `Checked.bind_eq_ok` and one rule an operation for when it gives a result
-/
import Mathlib.Data.BitVec

inductive Halt where
  | overflow
  | outOfRange
  /-- More rounds than were given. -/
  | unfinished
  deriving DecidableEq, Repr

abbrev Checked := Except Halt

namespace Checked

def add {w : Nat} (a b : BitVec w) : Checked (BitVec w) :=
  if a.toNat + b.toNat < 2 ^ w then .ok (a + b) else .error .overflow

def mul {w : Nat} (a b : BitVec w) : Checked (BitVec w) :=
  if a.toNat * b.toNat < 2 ^ w then .ok (a * b) else .error .overflow

/-- A sum of `w` bits. -/
def addNat (w a b : Nat) : Checked Nat := if a + b < 2 ^ w then .ok (a + b) else .error .overflow

def mulNat (w a b : Nat) : Checked Nat := if a * b < 2 ^ w then .ok (a * b) else .error .overflow

def subNat (a b : Nat) : Checked Nat := if b ≤ a then .ok (a - b) else .error .overflow

/-- The slice from `lo` to `hi` of a row of `len`. -/
def slice (len lo hi : Nat) : Checked Unit := if lo ≤ hi ∧ hi ≤ len then .ok () else .error .outOfRange

variable {α β : Type} {w : Nat}

theorem bind_eq_ok {x : Checked α} {f : α → Checked β} {b : β} : (x >>= f) = .ok b ↔ ∃ a, x = .ok a ∧ f a = .ok b := by
  constructor
  · intro h
    cases x with
    | error e => cases h
    | ok a => exact ⟨a, rfl, h⟩
  · rintro ⟨a, rfl, h⟩
    exact h

/-- A result that is given under a condition. -/
theorem ite_eq_ok {p : Prop} [Decidable p] {a b : α} {e : Halt} :
    (if p then .ok a else .error e : Checked α) = .ok b ↔ p ∧ b = a := by
  by_cases h : p
  · rw [if_pos h, and_iff_right h]
    exact ⟨fun hab => (Except.ok.inj hab).symm, fun hab => congrArg Except.ok hab.symm⟩
  · rw [if_neg h]
    exact ⟨fun hab => (by cases hab), fun hab => absurd hab.1 h⟩

@[simp] theorem ok_bind (a : α) (f : α → Checked β) : ((.ok a : Checked α) >>= f) = f a := rfl

theorem exists_ok {x : Checked α} (h : x.isOk = true) : ∃ a, x = .ok a := by
  cases x with
  | error e => cases h
  | ok a => exact ⟨a, rfl⟩

theorem add_eq_ok {a b c : BitVec w} : add a b = .ok c ↔ a.toNat + b.toNat < 2 ^ w ∧ c = a + b := ite_eq_ok

theorem mul_eq_ok {a b c : BitVec w} : mul a b = .ok c ↔ a.toNat * b.toNat < 2 ^ w ∧ c = a * b := ite_eq_ok

theorem addNat_eq_ok {a b c : Nat} : addNat w a b = .ok c ↔ a + b < 2 ^ w ∧ c = a + b := ite_eq_ok

theorem mulNat_eq_ok {a b c : Nat} : mulNat w a b = .ok c ↔ a * b < 2 ^ w ∧ c = a * b := ite_eq_ok

theorem subNat_eq_ok {a b c : Nat} : subNat a b = .ok c ↔ b ≤ a ∧ c = a - b := ite_eq_ok

theorem add_ok {a b : BitVec w} (h : a.toNat + b.toNat < 2 ^ w) : add a b = .ok (a + b) := if_pos h

theorem addNat_ok {a b : Nat} (h : a + b < 2 ^ w) : addNat w a b = .ok (a + b) := if_pos h

theorem mulNat_ok {a b : Nat} (h : a * b < 2 ^ w) : mulNat w a b = .ok (a * b) := if_pos h

theorem slice_ok {len lo hi : Nat} (h : lo ≤ hi ∧ hi ≤ len) : slice len lo hi = .ok () := if_pos h

end Checked
