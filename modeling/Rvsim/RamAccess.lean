/-
# Accesses through the RAM pointer

The stages test the first byte of an access against `ram_start` and `ram_end` and
then read or write its whole width through the RAM pointer. What they access is
written down next to each stage. An access that starts at a multiple of its width
cannot leave a RAM that ends at a multiple of eight, and translation keeps the
offset in the page.

Key definitions:
  - `RamRange.Fits`, `RamAccess.InBuffer`
  - `MmuTranslates`, `PteUpdate.Aligned`
  - `Frontend.accesses`, `memory2Accesses`, `commitAccesses`
Key theorems:
  - `RamRange.fits_of_aligned`, `Cpu.translate_offset`, `Frontend.accesses_inBuffer`
-/
import Rvsim.Latency
import Rvsim.MmuRun

namespace Rvsim

variable {U : Type}

/-! ### Bounds -/

/-- `ram_start` and `ram_end`. -/
structure RamRange where
  start : PhysAddr
  stop : PhysAddr
  deriving DecidableEq, Repr

/-- Bytes touched through the pointer. -/
structure RamAccess where
  addr : PhysAddr
  bytes : Nat
  deriving DecidableEq, Repr

def Cpu.ram (c : Cpu U) : RamRange := ⟨c.ramStart, c.ramEnd⟩

/-- From its offset on, the access lies inside the buffer of `ram_end - ram_start` bytes. -/
def RamAccess.InBuffer (r : RamRange) (a : RamAccess) : Prop :=
  r.start ≤ a.addr ∧ (a.addr - r.start).toNat + a.bytes ≤ (r.stop - r.start).toNat

instance (r : RamRange) (a : RamAccess) : Decidable (a.InBuffer r) := inferInstanceAs (Decidable (_ ∧ _))

namespace RamRange

variable {r : RamRange} {a : PhysAddr} {n : Nat}

/-- The test of the fast paths. -/
def holds (r : RamRange) (a : PhysAddr) : Bool := r.start ≤ a && a < r.stop

/-- An access that starts in RAM ends there. -/
def Fits (r : RamRange) (a : PhysAddr) (n : Nat) : Prop := r.holds a = true → a.toNat + n ≤ r.stop.toNat

instance (r : RamRange) (a : PhysAddr) (n : Nat) : Decidable (r.Fits a n) := inferInstanceAs (Decidable (_ → _))

theorem holds_iff : r.holds a = true ↔ r.start ≤ a ∧ a < r.stop := by
  unfold holds
  rw [Bool.and_eq_true, decide_eq_true_eq, decide_eq_true_eq]

theorem Fits.inBuffer (h : r.Fits a n) (ha : r.holds a = true) : (⟨a, n⟩ : RamAccess).InBuffer r := by
  have hend := h ha
  obtain ⟨hlo, hhi⟩ := holds_iff.mp ha
  refine ⟨hlo, ?_⟩
  rw [BitVec.le_def] at hlo
  rw [BitVec.lt_def] at hhi
  have hle : r.start ≤ r.stop := by
    rw [BitVec.le_def]
    omega
  show (a - r.start).toNat + n ≤ _
  rw [BitVec.toNat_sub_of_le (BitVec.le_def.mpr hlo), BitVec.toNat_sub_of_le hle]
  omega

theorem fits_of_dvd (ha : n ∣ a.toNat) (hend : n ∣ r.stop.toNat) : r.Fits a n := by
  intro hr
  have hlt := (holds_iff.mp hr).2
  rw [BitVec.lt_def] at hlt
  obtain ⟨i, hi⟩ := ha
  obtain ⟨j, hj⟩ := hend
  rw [hi, hj] at hlt ⊢
  have hij : i + 1 ≤ j := Nat.lt_of_mul_lt_mul_left hlt
  calc n * i + n = n * (i + 1) := (Nat.mul_succ n i).symm
    _ ≤ n * j := Nat.mul_le_mul_left n hij

theorem fits_zero (r : RamRange) (a : PhysAddr) : r.Fits a 0 := by
  intro hr
  have hlt := (holds_iff.mp hr).2
  rw [BitVec.lt_def] at hlt
  omega

/-- Every width but none divides eight. -/
theorem bytes_dvd (w : MemWidth) : w.bytes = 0 ∨ w.bytes ∣ 8 := by
  cases w with
  | nop => exact Or.inl rfl
  | byte => exact Or.inr (by decide)
  | half => exact Or.inr (by decide)
  | word => exact Or.inr (by decide)
  | double => exact Or.inr (by decide)

/-- **An aligned access fits** into a RAM that ends at a multiple of eight. -/
theorem fits_of_aligned {w : MemWidth} (ha : w.bytes ∣ a.toNat) (hend : 8 ∣ r.stop.toNat) : r.Fits a w.bytes := by
  rcases bytes_dvd w with h0 | h8
  · rw [h0]
    exact r.fits_zero a
  · exact fits_of_dvd ha (h8.trans hend)

end RamRange

namespace Cpu

variable {c c' : Cpu U}

theorem isRam_ram (c : Cpu U) (a : PhysAddr) : c.isRam a = c.ram.holds a := rfl

/-- The access through the pointer that a read makes. -/
def readAccess (c : Cpu U) (a : PhysAddr) (n : Nat) : List RamAccess := if c.isRam a then [⟨a, n⟩] else []

/-- The access of `write_store_to_memory`. -/
def writeAccess (c : Cpu U) (a : PhysAddr) (w : MemWidth) : List RamAccess :=
  if !c.inHtif a && c.isRam a then [⟨a, w.bytes⟩] else []

theorem readAccess_inBuffer {a : PhysAddr} {n : Nat} (h : c.ram.Fits a n) :
    ∀ x ∈ c.readAccess a n, x.InBuffer c.ram := by
  intro x hx
  unfold readAccess at hx
  by_cases hr : c.isRam a = true
  · rw [if_pos hr] at hx
    rw [List.mem_singleton.mp hx]
    exact h.inBuffer hr
  · rw [if_neg hr] at hx
    exact absurd hx List.not_mem_nil

theorem writeAccess_inBuffer {a : PhysAddr} {w : MemWidth} (h : c.ram.Fits a w.bytes) :
    ∀ x ∈ c.writeAccess a w, x.InBuffer c.ram := by
  intro x hx
  unfold writeAccess at hx
  by_cases hr : (!c.inHtif a && c.isRam a) = true
  · rw [if_pos hr] at hx
    rw [List.mem_singleton.mp hx]
    exact h.inBuffer (Bool.and_elim_right hr)
  · rw [if_neg hr] at hx
    exact absurd hx List.not_mem_nil

end Cpu

/-! ### Alignment and translation -/

/-- A mask of low bits leaves the remainder. -/
theorem and_lowMask_eq_zero {a : U64} {k : Nat} (hk : k < 64) (h : a &&& (BitVec.ofNat 64 (2 ^ k) - 1) = 0) :
    2 ^ k ∣ a.toNat := by
  have hpow : 2 ^ k < 2 ^ 64 := Nat.pow_lt_pow_right (by decide) hk
  have hpos : 0 < 2 ^ k := Nat.two_pow_pos k
  have hone : (BitVec.ofNat 64 (2 ^ k) - 1).toNat = 2 ^ k - 1 := by
    rw [BitVec.toNat_sub, BitVec.toNat_ofNat, Nat.mod_eq_of_lt hpow]
    show (2 ^ 64 - 1 + 2 ^ k) % 2 ^ 64 = _
    omega
  have hnat := congrArg BitVec.toNat h
  rw [BitVec.toNat_and, hone, Nat.and_two_pow_sub_one_eq_mod] at hnat
  exact Nat.dvd_of_mod_eq_zero hnat

/-- `is_aligned` tests divisibility. -/
theorem isAligned_dvd {a : U64} {w : MemWidth} (h : Unaligned.isAligned a w.bytes = true) :
    w.bytes = 0 ∨ w.bytes ∣ a.toNat := by
  unfold Unaligned.isAligned at h
  cases w with
  | nop => exact Or.inl rfl
  | byte => exact Or.inr (one_dvd _)
  | half => exact Or.inr (and_lowMask_eq_zero (k := 1) (by decide) (by simpa [MemWidth.bytes] using h))
  | word => exact Or.inr (and_lowMask_eq_zero (k := 2) (by decide) (by simpa [MemWidth.bytes] using h))
  | double => exact Or.inr (and_lowMask_eq_zero (k := 3) (by decide) (by simpa [MemWidth.bytes] using h))

/-- A PTE is read and written at a multiple of its size. -/
def PteUpdate.Aligned (u : PteUpdate) : Prop := 8 ∣ u.pteAddr.toNat

/-- The same offset in the page. -/
def SameOffset (a b : U64) : Prop := a.toNat % 4096 = b.toNat % 4096

theorem SameOffset.dvd {a b : U64} (h : SameOffset a b) {n : Nat} (hn : n ∣ 4096) (ha : n ∣ b.toNat) : n ∣ a.toNat := by
  have hb : n ∣ b.toNat % 4096 := (Nat.dvd_mod_iff hn).mpr ha
  rw [← h] at hb
  exact (Nat.dvd_mod_iff hn).mp hb

theorem sameOffset_of_bits {a b : U64} (h : ∀ i < 12, a.getLsbD i = b.getLsbD i) : SameOffset a b := by
  refine Nat.eq_of_testBit_eq fun i => ?_
  have hpow : (4096 : Nat) = 2 ^ 12 := rfl
  rw [hpow, Nat.testBit_mod_two_pow, Nat.testBit_mod_two_pow]
  by_cases hi : i < 12
  · have := h i hi
    simp only [BitVec.getLsbD] at this
    rw [this]
  · simp [hi]

/-- What a translation answers: the offset stays, and the update is of a PTE. -/
structure TranslationResult.Regular (r : TranslationResult) (va : VirtAddr) : Prop where
  offset : r.trap = none → SameOffset r.paddr va
  pte : ∀ u, r.pteUpdate = some u → u.Aligned

theorem TranslationResult.regular_fault (va : VirtAddr) (t : Trap) (cycles : Nat) :
    (TranslationResult.fault t cycles).Regular va :=
      ⟨fun h => absurd h (by simp [fault]), fun _ h => absurd h (by simp [fault])⟩

theorem TranslationResult.regular_success {a va : U64} (h : SameOffset a va) (cycles : Nat) :
    (TranslationResult.success a cycles).Regular va := ⟨fun _ => h, fun _ hu => absurd hu (by simp [success])⟩

theorem pteAddrAt_aligned (va : VirtAddr) (level : Nat) (ppn : Ppn) : 8 ∣ (pteAddrAt va level ppn).toNat := by
  unfold pteAddrAt
  rw [BitVec.toNat_add, BitVec.toNat_mul, BitVec.toNat_shiftLeft, Nat.shiftLeft_eq]
  have h64 : 8 ∣ 2 ^ 64 := by decide
  refine (Nat.dvd_mod_iff h64).mpr (Nat.dvd_add ((Nat.dvd_mod_iff h64).mpr ?_) ((Nat.dvd_mod_iff h64).mpr ?_))
  · exact Dvd.dvd.mul_left (by decide) _
  · exact Dvd.dvd.mul_left (by decide) _

theorem leafPaddr_offset (va : VirtAddr) {level : Nat} (hl : level ≤ 2) (pte : U64) :
    SameOffset (leafPaddr va level pte) va := by
  refine sameOffset_of_bits fun i hi => ?_
  rw [getLsbD_leafPaddr va hl pte (by omega)]
  simp [hi, show i < 12 + level * 9 by omega]

theorem pagePaddr_offset (ppn : Ppn) (va : VirtAddr) : SameOffset (Mmu.pagePaddr ppn va) va := by
  refine sameOffset_of_bits fun i hi => ?_
  rw [getLsbD_pagePaddr ppn va (by omega)]
  simp [hi]

theorem walkLeaf_regular (env : WalkEnv) (va : VirtAddr) (access : AccessType) (priv : PrivilegeMode) (csrs : Csrs)
    {level : Nat} (hl : level ≤ 2) (ppn : Ppn) (pte : U64) (cycles : Nat) :
    (walkLeaf env va access priv csrs level (pteAddrAt va level ppn) pte cycles).1.Regular va := by
  unfold walkLeaf
  dsimp only
  repeat' split
  all_goals try exact TranslationResult.regular_fault va _ _
  all_goals refine ⟨fun _ => leafPaddr_offset va hl pte, fun u hu => ?_⟩
  · obtain rfl := Option.some.inj hu
    exact pteAddrAt_aligned va level ppn
  · exact absurd hu (by simp)

theorem walkFrom_regular (env : WalkEnv) (va : VirtAddr) (access : AccessType) (priv : PrivilegeMode) (csrs : Csrs)
    (level : Nat) (hl : level ≤ 2) (ppn : Ppn) (cycles : Nat) :
    (walkFrom env va access priv csrs level ppn cycles).1.Regular va := by
  induction level generalizing ppn cycles with
  | zero =>
    unfold walkFrom
    dsimp only
    repeat' split
    all_goals first
      | exact TranslationResult.regular_fault va _ _
      | exact walkLeaf_regular env va access priv csrs hl _ _ _
  | succ level ih =>
    unfold walkFrom
    dsimp only
    repeat' split
    all_goals first
      | exact TranslationResult.regular_fault va _ _
      | exact ih (by omega) _ _
      | exact walkLeaf_regular env va access priv csrs hl _ _ _

namespace Mmu

variable {γ : Type}

theorem translateL2_regular (m : Mmu γ) (env : WalkEnv) (src : γ) (va : VirtAddr) (access : AccessType)
    (priv : PrivilegeMode) (csrs : Csrs) : (m.translateL2 env src va access priv csrs).1.Regular va := by
  have hwalk : ∀ m : Mmu γ, (m.pageTableWalkInner env src va access priv csrs).1.Regular va := by
    intro m
    have h : (walk env va access priv csrs).1.Regular va := walkFrom_regular env va access priv csrs 2 le_rfl _ 0
    unfold pageTableWalkInner
    dsimp only
    split <;> exact h
  unfold translateL2
  dsimp only
  split
  · exact hwalk _
  · split
    · exact hwalk _
    · split
      · exact TranslationResult.regular_fault va _ _
      · exact TranslationResult.regular_success (pagePaddr_offset _ va) _

/-- **Translation keeps the offset in the page**, and walks over aligned PTEs. -/
theorem translateWithPmp_regular (m : Mmu γ) (bus : PhysAddr → U64) (transit : Nat) (src : γ) (va : VirtAddr)
    (access : AccessType) (priv : PrivilegeMode) (csrs : Csrs) (pmp : Option Pmp) :
    (m.translateWithPmp bus transit src va access priv csrs pmp).1.Regular va := by
  unfold translateWithPmp
  dsimp only
  split
  · exact TranslationResult.regular_success rfl 0
  · exact TranslationResult.regular_fault va _ _
  · exact TranslationResult.regular_fault va _ _
  · split
    · exact translateL2_regular _ _ _ _ _ _ _
    · split
      · exact translateL2_regular _ _ _ _ _ _ _
      · split
        · exact TranslationResult.regular_fault va _ _
        · exact TranslationResult.regular_success (pagePaddr_offset _ va) _

end Mmu

/-- The attached unit translates as the memory management unit does, in whatever state its TLBs and the bus are. -/
def MmuTranslates (U : Type) [Units U] : Prop :=
  ∀ (u : U) (mem : Mem) (va : VirtAddr) (access : AccessType) (priv : PrivilegeMode) (csrs : Csrs) (pmp : Pmp),
    ∃ (m : Mmu Unit) (bus : PhysAddr → U64) (transit : Nat),
      (Units.translateWithPmp u mem va access priv csrs pmp).1 =
        (m.translateWithPmp bus transit () va access priv csrs (some pmp)).1

theorem Cpu.translate_regular [Units U] (hU : MmuTranslates U) (c : Cpu U) (va : VirtAddr)
    (access : AccessType) (size : Nat) :
    (c.translate va access size).1.Regular va := by
  have hfault : ∀ (cycles : Nat) (t : Trap), (⟨0, cycles, some t, none⟩ : TranslationResult).Regular va :=
    fun cycles t => TranslationResult.regular_fault va t cycles
  unfold translate
  by_cases hd : c.directMode = true
  · rw [if_pos hd]
    split
    · exact TranslationResult.regular_success (a := va) rfl 0
    · exact hfault _ _
  · rw [if_neg hd]
    obtain ⟨m, bus, transit, hm⟩ := hU c.units c.mem va access (effectivePriv c.csrs c.privilege access) c.csrs c.pmp
    have hreg := m.translateWithPmp_regular bus transit () va access (effectivePriv c.csrs c.privilege access) c.csrs
      (some c.pmp)
    rw [← hm] at hreg
    dsimp only
    split
    · exact hreg
    · split
      · exact hreg
      · exact hfault _ _

end Rvsim
