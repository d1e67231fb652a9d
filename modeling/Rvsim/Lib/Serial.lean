/-
# Serial numbers

A counter of `w` bits that wraps names events in order; two names are
compared by the sign of their wrapped difference. The comparison is right
while the names in use are less than half the space behind the counter: there
it is the order of their ages.

Key definitions:
  - `Serial.age`: how far a name lies behind the counter
  - `Serial.Window`: a list of names, oldest first, all within half the space
  - `Serial.Naming`: names given out one after the other

Key theorems:
  - `Serial.sub_msb_iff`: the sign of the difference is the order of ages
  - `Serial.Window.newer_split`: what a cut at a name keeps and drops
-/
import Mathlib.Data.BitVec
import Mathlib.Data.List.Pairwise
import Mathlib.Tactic.Common

namespace Serial

variable {w : Nat}

/-- How many steps before `now` the name `t` was given out. -/
def age (now t : BitVec w) : Nat := (now - t).toNat

/-- Half of the name space. -/
def half (w : Nat) : Nat := 2 ^ (w - 1)

theorem two_mul_half (hw : 0 < w) : 2 * half w = 2 ^ w := by
  unfold half
  rw [← Nat.pow_succ']
  congr 1
  omega

theorem age_lt (now t : BitVec w) : age now t < 2 ^ w := (now - t).isLt

theorem age_self (t : BitVec w) : age t t = 0 := by simp [age]

theorem sub_toNat (now a b : BitVec w) :
    (a - b).toNat = (2 ^ w - age now a + age now b) % 2 ^ w := by
  rw [← sub_sub_sub_cancel_left b a now, BitVec.toNat_sub]
  rfl

/-- The sign of the difference is the order of ages, within half the space. -/
theorem sub_msb_iff (hw : 0 < w) {now a b : BitVec w} (ha : age now a < half w)
    (hb : age now b < half w) : (a - b).msb = true ↔ age now b < age now a := by
  have h2 := two_mul_half hw
  have hlt := age_lt now a
  rw [BitVec.msb_eq_decide, decide_eq_true_eq, sub_toNat now a b]
  change half w ≤ _ ↔ _
  by_cases h : age now b < age now a
  · rw [Nat.mod_eq_of_lt (by omega)]
    omega
  · have hmod : (2 ^ w - age now a + age now b) % 2 ^ w = age now b - age now a := by
      rw [show 2 ^ w - age now a + age now b = (age now b - age now a) + 2 ^ w by omega,
        Nat.add_mod_right]
      exact Nat.mod_eq_of_lt (by omega)
    rw [hmod]
    omega

/-- A name less than half the space before one in use is not the name to be given out next. -/
theorem ne_now (hw : 0 < w) {now a t : BitVec w} (hpos : 0 < age now a) (ha : age now a < half w)
    (ht : age a t < half w) : t ≠ now := by
  rintro rfl
  have h2 := two_mul_half hw
  have hneg : age a t = (2 ^ w - age t a) % 2 ^ w := by
    unfold age
    rw [← BitVec.toNat_neg, neg_sub]
  rw [hneg, Nat.mod_eq_of_lt (by omega)] at ht
  omega

/-- The counter moves on by `k`: ages grow by `k` while they fit. -/
theorem age_advance {now t : BitVec w} (k : Nat) (h : age now t + k < 2 ^ w) :
    age (now + BitVec.ofNat w k) t = age now t + k := by
  have hk : k % 2 ^ w = k := Nat.mod_eq_of_lt (by omega)
  unfold age at *
  rw [add_sub_right_comm, BitVec.toNat_add, BitVec.toNat_ofNat, hk]
  exact Nat.mod_eq_of_lt h

/-! ### Names as numbers -/

theorem age_of_le {now t : BitVec w} (h : t.toNat ≤ now.toNat) : age now t = now.toNat - t.toNat := by
  have hnow := now.isLt
  unfold age
  rw [BitVec.toNat_sub, (by omega : 2 ^ w - t.toNat + now.toNat = now.toNat - t.toNat + 2 ^ w), Nat.add_mod_right]
  exact Nat.mod_eq_of_lt (by omega)

theorem age_of_lt {now t : BitVec w} (h : now.toNat < t.toNat) : age now t = 2 ^ w + now.toNat - t.toNat := by
  have ht := t.isLt
  unfold age
  rw [BitVec.toNat_sub, (by omega : 2 ^ w - t.toNat + now.toNat = 2 ^ w + now.toNat - t.toNat)]
  exact Nat.mod_eq_of_lt (by omega)

/-- When an older name is the greater number, the counter has wrapped between the two, and every number
up to that of the younger is younger. -/
theorem age_of_wrap {now a b c : BitVec w} (hage : age now b < age now a) (hab : b.toNat < a.toNat)
    (hcb : c.toNat ≤ b.toNat) :
    age now c < age now a := by
  have hlt := a.isLt
  rcases Nat.lt_or_ge now.toNat a.toNat with ha | ha
  · rcases Nat.lt_or_ge now.toNat b.toNat with hb | hb
    · rw [age_of_lt ha, age_of_lt hb] at hage
      omega
    · rw [age_of_lt ha, age_of_le (hcb.trans hb)]
      omega
  · rw [age_of_le ha, age_of_le (by omega)] at hage
    omega

/-! ### Windows of names -/

/-- Names in use, oldest first: ages fall along the list and stay below half the space. -/
structure Window (now : BitVec w) (ts : List (BitVec w)) : Prop where
  ordered : ts.Pairwise fun a b => age now b < age now a
  bounded : ∀ t ∈ ts, 0 < age now t ∧ age now t < half w

namespace Window

variable {now : BitVec w} {ts : List (BitVec w)}

theorem nil : Window now [] := ⟨List.Pairwise.nil, by simp⟩

theorem sublist {us : List (BitVec w)} (h : Window now ts) (hs : us.Sublist ts) : Window now us :=
  ⟨h.ordered.sublist hs, fun t ht => h.bounded t (hs.subset ht)⟩

theorem nodup (h : Window now ts) : ts.Nodup := by
  refine h.ordered.imp fun {a b} hab hne => ?_
  subst hne
  exact absurd hab (lt_irrefl _)

/-- Give out the name `now`, the counter moving on by `k`. -/
theorem push {k : Nat} (h : Window now ts) (hw : 0 < w) (hk : 0 < k)
    (hspan : ∀ t ∈ ts, age now t + k < half w) (hself : k < half w) :
    Window (now + BitVec.ofNat w k) (ts ++ [now]) := by
  have h2 := two_mul_half hw
  have hnow : age (now + BitVec.ofNat w k) now = k := by
    rw [age_advance k (by rw [age_self]; omega), age_self, Nat.zero_add]
  have hold : ∀ t ∈ ts, age (now + BitVec.ofNat w k) t = age now t + k := fun t ht =>
    age_advance k (by have := hspan t ht; omega)
  refine ⟨List.pairwise_append.mpr ⟨?_, List.pairwise_singleton _ _, ?_⟩, ?_⟩
  · refine h.ordered.imp_of_mem fun {a b} ha hb hab => ?_
    rw [hold a ha, hold b hb]
    omega
  · intro a ha b hb
    rw [List.mem_singleton.mp hb, hnow, hold a ha]
    have := (h.bounded a ha).1
    omega
  · intro t ht
    rcases List.mem_append.mp ht with h' | h'
    · rw [hold t h']
      exact ⟨by omega, hspan t h'⟩
    · rw [List.mem_singleton.mp h', hnow]
      exact ⟨hk, hself⟩

/-- Comparison inside a window is the order of the list. -/
theorem sub_msb_iff (h : Window now ts) (hw : 0 < w) {a b : BitVec w} (ha : a ∈ ts) (hb : b ∈ ts) :
    (a - b).msb = true ↔ age now b < age now a :=
  Serial.sub_msb_iff hw (h.bounded a ha).2 (h.bounded b hb).2

/-- Cut at `t`: the names not newer than `t` are those up to it, the newer ones those behind it. -/
theorem newer_split {xs ys : List (BitVec w)} {t : BitVec w} (h : Window now (xs ++ t :: ys)) (hw : 0 < w) :
    (∀ x ∈ xs, (t - x).msb = false) ∧ (t - t).msb = false ∧ ∀ y ∈ ys, (t - y).msb = true := by
  have hord := List.pairwise_append.mp h.ordered
  have htail := List.pairwise_cons.mp hord.2.1
  have ht : t ∈ xs ++ t :: ys := by simp
  refine ⟨fun x hx => ?_, ?_, fun y hy => ?_⟩
  · rw [← Bool.not_eq_true, h.sub_msb_iff hw ht (by simp [hx])]
    have := hord.2.2 x hx t (by simp)
    omega
  · simp
  · rw [h.sub_msb_iff hw ht (by simp [hy])]
    exact htail.1 y hy

end Window

/-! ### Naming one after the other -/

/-- Names in use grow by the counter's value, which then moves on by at most `b`. -/
inductive Naming (b : Nat) : BitVec w → List (BitVec w) → BitVec w → List (BitVec w) → Prop where
  | done (now : BitVec w) (ts : List (BitVec w)) : Naming b now ts now ts
  | step {now now' : BitVec w} {ts us ts' : List (BitVec w)} (k : Nat) (hk : 0 < k ∧ k ≤ b) (hsub : ∀ t ∈ ts, t ∈ us)
      (hnow : now ∈ us) (rest : Naming b (now + BitVec.ofNat w k) us now' ts') : Naming b now ts now' ts'

namespace Naming

variable {b : Nat} {now now' : BitVec w} {ts ts' : List (BitVec w)}

/-- Ending with every name within half the space, the counter moved on by less than that. -/
theorem advance (h : Naming b now ts now' ts') (hw : 0 < w) (hb : b < half w) (hspan : ∀ t ∈ ts', age now' t < half w) :
    (∀ t ∈ ts, t ∈ ts') ∧ ∃ k < half w, now' = now + BitVec.ofNat w k := by
  have h2 := two_mul_half hw
  induction h with
  | done now ts => exact ⟨fun _ ht => ht, 0, by omega, by simp⟩
  | step k hk hsub hnow rest ih =>
    rename_i now now' ts us ts'
    obtain ⟨hin, j, hj, heq⟩ := ih hspan
    have hadd : now' = now + BitVec.ofNat w (k + j) := by rw [heq, BitVec.add_assoc, ← BitVec.ofNat_add]
    refine ⟨fun t ht => hin t (hsub t ht), k + j, ?_, hadd⟩
    have hage := hspan now (hin now hnow)
    rwa [hadd, age_advance _ (by rw [age_self]; omega), age_self, Nat.zero_add] at hage

/-- After the first step the names of before are as much older, and still within half the space. -/
theorem first {us : List (BitVec w)} {k : Nat} (hk : 0 < k ∧ k ≤ b) (hsub : ∀ t ∈ ts, t ∈ us) (hnow : now ∈ us)
    (rest : Naming b (now + BitVec.ofNat w k) us now' ts') (hw : 0 < w) (hb : b < half w)
    (hspan : ∀ t ∈ ts', age now' t < half w) :
    (∀ t ∈ ts, age now t < half w → age (now + BitVec.ofNat w k) t = age now t + k ∧ age now t + k < half w) ∧
      k < half w := by
  have h2 := two_mul_half hw
  obtain ⟨hin, j, hj, heq⟩ := rest.advance hw hb hspan
  have hadd : now' = now + BitVec.ofNat w (k + j) := by rw [heq, BitVec.add_assoc, ← BitVec.ofNat_add]
  -- the counter's own name bounds the whole move
  have hkj : k + j < half w := by
    have hage := hspan now (hin now hnow)
    rwa [hadd, age_advance _ (by rw [age_self]; omega), age_self, Nat.zero_add] at hage
  refine ⟨fun t ht hage => ?_, by omega⟩
  have hend := hspan t (hin t (hsub t ht))
  rw [hadd, age_advance _ (by omega)] at hend
  exact ⟨age_advance k (by omega), by omega⟩

end Naming

end Serial
