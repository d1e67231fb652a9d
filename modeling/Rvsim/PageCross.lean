/-
# Accesses that cross a page

`memory1_stage` translates the address of the first byte of a data access and checks
the width of the access against the physical memory protection from there on. Within
a page translation keeps the distance to the first byte; across a page boundary it
does so only when the next page is mapped right behind the first.

Key definitions:
  - `MmuUnits`: units whose translation is the memory management unit's
  - `Cpu.mem1Paddr`, `Cpu.TranslatesBytes`
  - `Cpu.Torn`, `Cpu.Even`, `Cpu.ServedRight`
Key theorems:
  - `Mmu.landing_within`, `Cpu.translatesBytes_iff`
-/
import Rvsim.Memory
import Rvsim.RamAccess

namespace Rvsim

/-! ### Translation within a page -/

/-- Equal page numbers, all 52 bits of them. -/
def SamePage (va va' : VirtAddr) : Prop := va >>> pageShift = va' >>> pageShift

namespace SamePage

variable {va va' : VirtAddr}

theorem getLsbD (h : SamePage va va') {i : Nat} (hi : 12 ≤ i) : va.getLsbD i = va'.getLsbD i := by
  have hbit : (va >>> pageShift).getLsbD (i - 12) = (va' >>> pageShift).getLsbD (i - 12) := by rw [h]
  have hsub : pageShift + (i - 12) = i := by
    have : pageShift = 12 := rfl
    omega
  rwa [BitVec.getLsbD_ushiftRight, BitVec.getLsbD_ushiftRight, hsub] at hbit

theorem vpnOf (h : SamePage va va') : vpnOf va = vpnOf va' := by
  rw [Rvsim.vpnOf, Rvsim.vpnOf, h]

theorem regime (h : SamePage va va') (priv : PrivilegeMode) (csrs : Csrs) :
    regime va priv csrs = regime va' priv csrs := by
  have hshift : va >>> 39 = va' >>> 39 := by
    apply BitVec.eq_of_getLsbD_eq
    intro i _
    rw [BitVec.getLsbD_ushiftRight, BitVec.getLsbD_ushiftRight, h.getLsbD (by omega)]
  rw [Rvsim.regime, Rvsim.regime, hshift, h.getLsbD (i := 38) (by decide)]

end SamePage

namespace TranslationResult

/-- The physical address, when there is no fault. -/
def landing (r : TranslationResult) : Option PhysAddr := if r.trap.isSome then none else some r.paddr

/-- The physical page, when there is no fault. -/
def frame (r : TranslationResult) : Option Ppn := r.landing.map fun p : U64 => p >>> pageShift

@[simp] theorem landing_fault (t : Trap) (cycles : Nat) : (fault t cycles).landing = none := rfl

@[simp] theorem landing_success (a : PhysAddr) (cycles : Nat) : (success a cycles).landing = some a := rfl

theorem landing_eq_some {r : TranslationResult} {p : PhysAddr} (h : r.landing = some p) :
    r.trap = none ∧ r.paddr = p := by
  unfold landing at h
  split at h
  · cases h
  · rename_i ht
    exact ⟨by simpa using ht, Option.some.inj h⟩

end TranslationResult

open TranslationResult

section

variable {va va' : VirtAddr}

theorem leafPaddr_frame (h : SamePage va va') {level : Nat} (hl : level ≤ 2) (pte : U64) :
    leafPaddr va level pte >>> pageShift = leafPaddr va' level pte >>> pageShift := by
  apply BitVec.eq_of_getLsbD_eq
  intro i hi
  rw [BitVec.getLsbD_ushiftRight, BitVec.getLsbD_ushiftRight, pageShift]
  by_cases h64 : 12 + i < 64
  · rw [getLsbD_leafPaddr va hl pte h64, getLsbD_leafPaddr va' hl pte h64, h.getLsbD (by omega)]
  · rw [BitVec.getLsbD_of_ge _ _ (by omega), BitVec.getLsbD_of_ge _ _ (by omega)]

theorem pagePaddr_frame (ppn : Ppn) (va va' : VirtAddr) :
    Mmu.pagePaddr ppn va >>> pageShift = Mmu.pagePaddr ppn va' >>> pageShift := by
  apply BitVec.eq_of_getLsbD_eq
  intro i hi
  rw [BitVec.getLsbD_ushiftRight, BitVec.getLsbD_ushiftRight, pageShift]
  by_cases h64 : 12 + i < 64
  · have h12 : ¬12 + i < 12 := by omega
    rw [getLsbD_pagePaddr ppn va h64, getLsbD_pagePaddr ppn va' h64, decide_eq_false h12,
        Bool.and_false, Bool.and_false]
  · rw [BitVec.getLsbD_of_ge _ _ (by omega), BitVec.getLsbD_of_ge _ _ (by omega)]

theorem walkLeaf_frame (h : SamePage va va') (env : WalkEnv) (access : AccessType) (priv : PrivilegeMode) (csrs : Csrs)
    {level : Nat} (hl : level ≤ 2) (a : PhysAddr) (pte : U64) (cycles : Nat) :
    (walkLeaf env va access priv csrs level a pte cycles).1.frame =
      (walkLeaf env va' access priv csrs level a pte cycles).1.frame := by
  unfold walkLeaf
  dsimp only
  repeat' split
  all_goals first
    | rfl
    | exact congrArg some (leafPaddr_frame h hl pte)

/-- The walk reads the same PTEs for every address of a page. -/
theorem walkFrom_frame (h : SamePage va va') (env : WalkEnv) (access : AccessType) (priv : PrivilegeMode) (csrs : Csrs)
    (level : Nat) (hl : level ≤ 2) (ppn : Ppn) (cycles : Nat) :
    (walkFrom env va access priv csrs level ppn cycles).1.frame =
      (walkFrom env va' access priv csrs level ppn cycles).1.frame := by
  induction level generalizing ppn cycles with
  | zero =>
    unfold walkFrom
    dsimp only
    rw [pteAddrAt_congr h.vpnOf hl]
    repeat' split
    all_goals first
      | rfl
      | exact walkLeaf_frame h env access priv csrs hl _ _ _
  | succ level ih =>
    unfold walkFrom
    dsimp only
    rw [pteAddrAt_congr h.vpnOf hl]
    repeat' split
    all_goals first
      | rfl
      | exact ih (by omega) _ _
      | exact walkLeaf_frame h env access priv csrs hl _ _ _

end

namespace Mmu

variable {γ : Type} {va va' : VirtAddr}

/-- The address only appears in the trap of a refused hit. -/
theorem isSome_hitFault (va va' : VirtAddr) (r w x u : Bool) (access : AccessType)
    (priv : PrivilegeMode) (csrs : Csrs) :
    (hitFault r w x u va access priv csrs).isSome = (hitFault r w x u va' access priv csrs).isSome := by
  unfold hitFault
  repeat' split
  all_goals rfl

/-- What a hit lands on. -/
theorem hit_frame (ppn : Ppn) (va va' : VirtAddr) (r w x u : Bool) (access : AccessType)
    (priv : PrivilegeMode) (csrs : Csrs)
    (m m' n n' : Mmu γ) (cycles : Nat) :
    (match hitFault r w x u va access priv csrs with
      | some t => (fault t cycles, m)
      | none => (success (pagePaddr ppn va) cycles, n)).1.frame =
    (match hitFault r w x u va' access priv csrs with
      | some t => (fault t cycles, m')
      | none => (success (pagePaddr ppn va') cycles, n')).1.frame := by
  have hsome := isSome_hitFault va va' r w x u access priv csrs
  cases hv : hitFault r w x u va access priv csrs with
  | none =>
    cases hv' : hitFault r w x u va' access priv csrs with
    | none => exact congrArg some (pagePaddr_frame ppn va va')
    | some t => simp [hv, hv'] at hsome
  | some t =>
    cases hv' : hitFault r w x u va' access priv csrs with
    | none => simp [hv, hv'] at hsome
    | some t' => rfl

theorem pageTableWalkInner_frame (h : SamePage va va') (m : Mmu γ) (env : WalkEnv) (src : γ) (access : AccessType)
    (priv : PrivilegeMode) (csrs : Csrs) :
    (m.pageTableWalkInner env src va access priv csrs).1.frame =
        (m.pageTableWalkInner env src va' access priv csrs).1.frame := by
  have hres : ∀ va : VirtAddr, (m.pageTableWalkInner env src va access priv csrs).1 =
      (walk env va access priv csrs).1 := by
    intro va
    unfold pageTableWalkInner
    dsimp only
    split <;> rfl
  rw [hres, hres]
  exact walkFrom_frame h env access priv csrs 2 le_rfl _ 0

theorem translateL2_frame (h : SamePage va va') (m : Mmu γ) (env : WalkEnv) (src : γ) (access : AccessType)
    (priv : PrivilegeMode) (csrs : Csrs) :
    (m.translateL2 env src va access priv csrs).1.frame = (m.translateL2 env src va' access priv csrs).1.frame := by
  unfold translateL2
  dsimp only
  rw [h.vpnOf]
  split
  · exact pageTableWalkInner_frame h _ env src access priv csrs
  · split
    · exact pageTableWalkInner_frame h _ env src access priv csrs
    · exact hit_frame _ va va' _ _ _ _ access priv csrs _ _ _ _ _

theorem translateWithPmp_frame (h : SamePage va va') (m : Mmu γ) (bus : PhysAddr → U64) (transit : Nat) (src : γ)
    (access : AccessType) (priv : PrivilegeMode) (csrs : Csrs) (pmp : Option Pmp) :
    (m.translateWithPmp bus transit src va access priv csrs pmp).1.frame =
      (m.translateWithPmp bus transit src va' access priv csrs pmp).1.frame := by
  unfold translateWithPmp
  dsimp only
  rw [h.regime priv csrs, h.vpnOf]
  split
  · exact congrArg some h
  · rfl
  · rfl
  · split
    · exact translateL2_frame h _ _ src access priv csrs
    · split
      · exact translateL2_frame h _ _ src access priv csrs
      · exact hit_frame _ va va' _ _ _ _ access priv csrs _ _ _ _ _

/-- **Within a page translation keeps distances**, and one byte faults exactly when another does. -/
theorem landing_within (m : Mmu γ) (bus : PhysAddr → U64) (transit : Nat) (src : γ) (va : VirtAddr)
    (access : AccessType)
    (priv : PrivilegeMode) (csrs : Csrs) (pmp : Option Pmp) {i : Nat} (hi : va.toNat % 4096 + i < 4096) :
    (m.translateWithPmp bus transit src (va + BitVec.ofNat 64 i) access priv csrs pmp).1.landing =
      (m.translateWithPmp bus transit src va access priv csrs pmp).1.landing.map (· + BitVec.ofNat 64 i) := by
  have hva : (va + BitVec.ofNat 64 i).toNat = va.toNat + i := by
    rw [BitVec.toNat_add, BitVec.toNat_ofNat]
    have := va.isLt
    omega
  have hpage : SamePage va (va + BitVec.ofNat 64 i) := by
    refine BitVec.eq_of_toNat_eq ?_
    rw [BitVec.toNat_ushiftRight, BitVec.toNat_ushiftRight, hva, Nat.shiftRight_eq_div_pow, Nat.shiftRight_eq_div_pow]
    show va.toNat / 4096 = (va.toNat + i) / 4096
    omega
  have hframe := translateWithPmp_frame hpage m bus transit src access priv csrs pmp
  have hreg := fun va => m.translateWithPmp_regular bus transit src va access priv csrs pmp
  unfold frame at hframe
  cases hp : (m.translateWithPmp bus transit src va access priv csrs pmp).1.landing with
  | none =>
    rw [hp] at hframe
    exact Option.map_eq_none_iff.mp hframe.symm
  | some p =>
    rw [hp, Option.map_some] at hframe
    obtain ⟨q, hq, hpq⟩ := Option.map_eq_some_iff.mp hframe.symm
    obtain ⟨ht, rfl⟩ := landing_eq_some hp
    obtain ⟨ht', rfl⟩ := landing_eq_some hq
    have hoff := (hreg va).offset ht
    have hoff' := (hreg _).offset ht'
    unfold SameOffset at hoff hoff'
    have hdiv := congrArg BitVec.toNat hpq
    rw [BitVec.toNat_ushiftRight, BitVec.toNat_ushiftRight, Nat.shiftRight_eq_div_pow,
        Nat.shiftRight_eq_div_pow] at hdiv
    have h12 : 2 ^ pageShift = 4096 := rfl
    rw [h12] at hdiv
    rw [hq, Option.map_some]
    refine congrArg some (BitVec.eq_of_toNat_eq ?_)
    rw [BitVec.toNat_add, BitVec.toNat_ofNat]
    have := (m.translateWithPmp bus transit src va access priv csrs pmp).1.paddr.isLt
    omega

end Mmu

/-- Units whose translation is that of a memory management unit; a translation leaves the address map alone. -/
class MmuUnits (U : Type) extends Units U where
  mmu : U → Mmu Unit
  /-- `bus.read_u64` of the walker. -/
  ptRead : U → Mem → PhysAddr → U64
  transit : U → Nat
  translate_eq (u : U) (mem : Mem) (va : VirtAddr) (access : AccessType) (priv : PrivilegeMode)
      (csrs : Csrs) (pmp : Pmp) :
    (translateWithPmp u mem va access priv csrs pmp).1 =
      ((mmu u).translateWithPmp (ptRead u mem) (transit u) () va access priv csrs (some pmp)).1
  isValid_translate (u : U) (mem : Mem) (va : VirtAddr) (access : AccessType) (priv : PrivilegeMode) (csrs : Csrs)
    (pmp : Pmp) (a : PhysAddr) : isValidAddress (translateWithPmp u mem va access priv csrs pmp).2 a =
        isValidAddress u a

/-! ### Where memory1 sends an access -/

namespace MshrFile

/-- The waiters of the valid registers. -/
def waiting (m : MshrFile) : List MshrWaiter := (m.entries.filter (·.valid)).flatMap (·.waiters)

theorem count_coalesce (line : U64) (isWrite : Bool) (w w' : MshrWaiter) (es : List MshrEntry)
    (h : (es.any fun e => e.valid && e.lineAddr == line) = true) :
    (((coalesce line isWrite w es).filter (·.valid)).flatMap (·.waiters)).count w' =
      ((es.filter (·.valid)).flatMap (·.waiters)).count w' + [w].count w' := by
  induction es with
  | nil => simp at h
  | cons e es ih =>
    unfold coalesce
    by_cases he : (e.valid && e.lineAddr == line) = true
    · have hv : e.valid = true := Bool.and_elim_left he
      rw [if_pos he]
      simp only [List.filter_cons, hv, if_true, List.flatMap_cons, List.count_append]
      omega
    · have hrest : (es.any fun e => e.valid && e.lineAddr == line) = true := by
        simpa [List.any_cons, he] using h
      rw [if_neg he]
      cases hv : e.valid with
      | false => simpa only [List.filter_cons, hv, Bool.false_eq_true, if_false] using ih hrest
      | true =>
        simp only [List.filter_cons, hv, if_true, List.flatMap_cons, List.count_append]
        rw [ih hrest, Nat.add_assoc]

theorem count_allocateSlot {new : MshrEntry} (hv : new.valid = true) (w' : MshrWaiter) (es : List MshrEntry)
    {es' : List MshrEntry} (h : allocateSlot new es = some es') :
    ((es'.filter (·.valid)).flatMap (·.waiters)).count w' =
      ((es.filter (·.valid)).flatMap (·.waiters)).count w' + new.waiters.count w' := by
  induction es generalizing es' with
  | nil => cases h
  | cons e es ih =>
    unfold allocateSlot at h
    cases he : e.valid with
    | false =>
      rw [he] at h
      obtain rfl := Option.some.inj h
      simp only [List.filter_cons, hv, he, if_true, Bool.false_eq_true, if_false, List.flatMap_cons, List.count_append]
      omega
    | true =>
      rw [he] at h
      obtain ⟨es'', hes, rfl⟩ := Option.map_eq_some_iff.mp h
      simp only [List.filter_cons, he, if_true, List.flatMap_cons, List.count_append]
      rw [ih hes, Nat.add_assoc]

/-- A request that finds room adds one waiter. -/
theorem count_request (m : MshrFile) (addr : U64) (isWrite : Bool) (latency now : Nat) (w w' : MshrWaiter)
    (h : (m.request addr isWrite latency now w).1 ≠ .mshrFull) :
    (m.request addr isWrite latency now w).2.waiting.count w' = m.waiting.count w' + [w].count w' := by
  unfold request at h ⊢
  dsimp only at h ⊢
  split at h
  · rename_i hany
    rw [if_pos hany]
    exact count_coalesce _ isWrite w w' m.entries hany
  · rename_i hany
    rw [if_neg hany]
    split at h
    · exact absurd rfl h
    · rename_i hcap
      rw [if_neg hcap]
      split at h
      · rename_i es hes
        refine count_allocateSlot ?_ w' m.entries hes
        rfl
      · exact absurd rfl h

end MshrFile

/-- Where byte `i` of an access is. -/
def Mem1Mem2Entry.byteAddr (m : Mem1Mem2Entry) (i : Nat) : PhysAddr := m.paddr + BitVec.ofNat 64 i

/-- `m` leaves memory1 with the tag: into the latch, or newly waiting in a miss register. -/
def Mem1Outcome.Leaves (o : Mem1Outcome) (tag : RobTag) (before after : MshrFile) (m : Mem1Mem2Entry) : Prop :=
  match o with
  | .pass m' => m = m'
  | .parked _ => before.waiting.count ⟨tag, some m⟩ < after.waiting.count ⟨tag, some m⟩
  | _ => False

/-- The access goes to `paddr`, unless it has to wait for a register. -/
structure Mem1Outcome.SentTo (o : Mem1Outcome) (tag : RobTag) (before after : MshrFile) (paddr : PhysAddr) : Prop where
  untrapped : ∀ m, o ≠ .trapped m
  leaves : o ≠ .full → ∃ m, o.Leaves tag before after m
  lands : ∀ m, o.Leaves tag before after m → m.paddr = paddr

theorem Mem1Outcome.SentTo.pass {m : Mem1Mem2Entry} {paddr : PhysAddr} (h : m.paddr = paddr) (tag : RobTag)
    (before after : MshrFile) : (Mem1Outcome.pass m).SentTo tag before after paddr where
  untrapped _ := by simp
  leaves _ := ⟨m, rfl⟩
  lands _ hm := hm ▸ h

theorem Mem1Outcome.SentTo.parked {m : Mem1Mem2Entry} {paddr : PhysAddr} (h : m.paddr = paddr) (tag : RobTag)
    (p : PhysReg) {before after : MshrFile}
    (hcount : ∀ w, after.waiting.count w = before.waiting.count w + [(⟨tag, some m⟩ : MshrWaiter)].count w) :
    (Mem1Outcome.parked p).SentTo tag before after paddr where
  untrapped _ := by simp
  leaves _ := by
    refine ⟨m, ?_⟩
    show before.waiting.count _ < after.waiting.count _
    rw [hcount, List.count_singleton_self]
    exact Nat.lt_succ_self _
  lands m' hm := by
    change before.waiting.count _ < after.waiting.count _ at hm
    rw [hcount] at hm
    have hmem : (⟨tag, some m'⟩ : MshrWaiter) ∈ [(⟨tag, some m⟩ : MshrWaiter)] :=
      List.count_pos_iff.mp (by omega)
    have heq := List.mem_singleton.mp hmem
    injection heq with _ hm'
    rw [Option.some.inj hm', h]

section

variable {U : Type} [Units U] {ex : ExMem1Entry} {paddr : PhysAddr} {upd : Option PteUpdate} {latency now : Nat}

theorem mem1Mshr_sentTo (c : Cpu U) :
    (mem1Mshr c ex paddr upd latency now).1.SentTo ex.robTag c.l1dMshrs (mem1Mshr c ex paddr upd latency now).2.l1dMshrs
      paddr := by
  unfold mem1Mshr
  dsimp only
  split
  · exact .pass rfl _ _ _
  · split
    · exact .pass rfl _ _ _
    · split
      · exact ⟨fun _ => by simp, fun h => absurd rfl h, fun _ hm => hm.elim⟩
      · rename_i hfull
        exact .parked rfl _ _ fun w => MshrFile.count_request _ _ _ _ _ _ w hfull

theorem mem1Access_sentTo (c : Cpu U) :
    (mem1Access c ex paddr upd latency now).1.SentTo ex.robTag c.l1dMshrs
      (mem1Access c ex paddr upd latency now).2.l1dMshrs paddr := by
  unfold mem1Access
  split
  · exact mem1Mshr_sentTo c
  · split
    · exact .pass rfl _ _ _
    · exact .pass rfl _ _ _

end

namespace Cpu

section

variable {U : Type} [Units U]

/-- Translation and address checks of `n` bytes from `va` on, as memory1 makes them. -/
def mem1Paddr (c : Cpu U) (access : AccessType) (va : VirtAddr) (n : Nat) : Option PhysAddr :=
  let (r, c) := c.translate va access n
  match r.trap with
  | some _ => none
  | none => if c.privilege != .machine && !Units.isValidAddress c.units r.paddr then none else some r.paddr

/-- Byte `i` of an access at `va`, translated on its own. -/
def bytePaddr (c : Cpu U) (access : AccessType) (va : VirtAddr) (i : Nat) : Option PhysAddr :=
  c.mem1Paddr access (va + BitVec.ofNat 64 i) 1

/-- `ex` is a data access, is not refused for its alignment, and finds a miss register if it needs one. -/
structure Performs (c : Cpu U) (ex : ExMem1Entry) (now : Nat) (lq : Option LoadQueue) : Prop where
  trap : ex.trap = none
  access : (ex.ctrl.memRead || ex.ctrl.memWrite) = true
  width : ex.ctrl.width ≠ .nop
  aligned : Unaligned.isAligned ex.alu ex.ctrl.width.bytes = true ∨
    c.misalignedAccessTrap = false ∧ ex.ctrl.atomicOp = .none
  room : (memory1One c ex now lq).1 ≠ .full

/-- `m` is what becomes of `ex` after memory1. -/
def Leaves (c : Cpu U) (ex : ExMem1Entry) (now : Nat) (lq : Option LoadQueue) (m : Mem1Mem2Entry) : Prop :=
  (memory1One c ex now lq).1.Leaves ex.robTag c.l1dMshrs (memory1One c ex now lq).2.1.l1dMshrs m

/-- Every byte of the access is translated: it faults exactly when one of them does, and each lies
where its own translation puts it. -/
structure TranslatesBytes (c : Cpu U) (ex : ExMem1Entry) (now : Nat) (lq : Option LoadQueue) : Prop where
  faults : (∃ m, (memory1One c ex now lq).1 = .trapped m) ↔
    ∃ i < ex.ctrl.width.bytes, c.bytePaddr ex.ctrl.accessType ex.alu i = none
  lands : ∀ m, c.Leaves ex now lq m → ∀ i < ex.ctrl.width.bytes,
    c.bytePaddr ex.ctrl.accessType ex.alu i = some (m.byteAddr i)

variable {c : Cpu U} {ex : ExMem1Entry} {now : Nat} {lq : Option LoadQueue}

@[simp] theorem l1dMshrs_translate (c : Cpu U) (va : VirtAddr) (access : AccessType) (n : Nat) :
    (c.translate va access n).2.l1dMshrs = c.l1dMshrs := by
  unfold translate
  dsimp only
  repeat' split
  all_goals rfl

/-- Memory1 translates the address of the access and nothing else. -/
theorem Performs.memory1One (h : c.Performs ex now lq) :
    (c.mem1Paddr ex.ctrl.accessType ex.alu ex.ctrl.width.bytes = none →
      ∃ m, (memory1One c ex now lq).1 = .trapped m) ∧
    ∀ p, c.mem1Paddr ex.ctrl.accessType ex.alu ex.ctrl.width.bytes = some p →
      (memory1One c ex now lq).1.SentTo ex.robTag c.l1dMshrs (memory1One c ex now lq).2.1.l1dMshrs p := by
  have hgo : ¬(!Unaligned.isAligned ex.alu ex.ctrl.width.bytes &&
      (c.misalignedAccessTrap || ex.ctrl.atomicOp != .none)) = true := by
    rcases h.aligned with ha | ⟨hm, ha⟩
    · simp [ha]
    · simp [hm, ha]
  have hmshrs := c.l1dMshrs_translate ex.alu ex.ctrl.accessType ex.ctrl.width.bytes
  unfold Rvsim.memory1One
  rw [h.trap]
  dsimp only
  rw [if_pos h.access]
  unfold mem1Translate mem1Paddr
  dsimp only
  rw [if_neg hgo, ← hmshrs]
  cases (c.translate ex.alu ex.ctrl.accessType ex.ctrl.width.bytes).1.trap with
  | some t => exact ⟨fun _ => ⟨_, rfl⟩, fun p hp => nomatch hp⟩
  | none =>
    dsimp only
    split
    · exact ⟨fun _ => ⟨_, rfl⟩, fun p hp => nomatch hp⟩
    · refine ⟨fun hp => (nomatch hp), fun p hp => ?_⟩
      obtain rfl := Option.some.inj hp
      exact mem1Access_sentTo _

end

/-! ### The condition -/

section

variable {U : Type} [MmuUnits U]

/-- Where the MMU puts an address, before any check of the physical address. -/
def mmuPaddr (c : Cpu U) (access : AccessType) (va : VirtAddr) : Option PhysAddr :=
  if c.directMode then some va
  else
    ((MmuUnits.mmu c.units).translateWithPmp (MmuUnits.ptRead c.units c.mem) (MmuUnits.transit c.units) () va access
      (effectivePriv c.csrs c.privilege access) c.csrs (some c.pmp)).1.landing

/-- The checks of `n` bytes from `p` on: direct mode asks for a device only, otherwise the PMP decides,
and outside M-mode there has to be a device too. -/
def allows (c : Cpu U) (access : AccessType) (p : PhysAddr) (n : Nat) : Bool :=
  if c.directMode then Units.isValidAddress c.units p
  else c.pmp.check p (BitVec.ofNat 64 n) (access == .read) (access == .write) (access == .fetch)
      (effectivePriv c.csrs c.privilege access == .machine) == .allow &&
    (c.privilege == .machine || Units.isValidAddress c.units p)

variable (c : Cpu U) (access : AccessType)

/-- The access reaches the next page, and that is not mapped right behind the first. -/
def Torn (va : VirtAddr) (n : Nat) : Prop :=
  4096 - va.toNat % 4096 < n ∧
    c.mmuPaddr access (va + BitVec.ofNat 64 (4096 - va.toNat % 4096)) ≠
      (c.mmuPaddr access va).map (· + BitVec.ofNat 64 (4096 - va.toNat % 4096))

instance (va : VirtAddr) (n : Nat) : Decidable (c.Torn access va n) := inferInstanceAs (Decidable (_ ∧ _))

/-- The checks of the whole span let through what those of its bytes do. -/
def Even (p : PhysAddr) (n : Nat) : Prop :=
  c.allows access p n = true ↔ ∀ i < n, c.allows access (p + BitVec.ofNat 64 i) 1 = true

/-- When one translation does for all bytes: the first byte is not mapped at all, or the pages lie as the
bytes do and the checks of the span are those of its bytes. A torn access is right only where the span is
refused and a byte is refused too. -/
def ServedRight (va : VirtAddr) (n : Nat) : Prop :=
  ∀ p, c.mmuPaddr access va = some p →
    if c.Torn access va n then c.allows access p n = false ∧ ∃ i < n, c.bytePaddr access va i = none
    else c.Even access p n

theorem mem1Paddr_eq (va : VirtAddr) (n : Nat) :
    c.mem1Paddr access va n = (c.mmuPaddr access va).filter fun p => c.allows access p n := by
  unfold mem1Paddr mmuPaddr allows translate
  by_cases hd : c.directMode = true
  · simp only [hd, if_true]
    cases hv : Units.isValidAddress c.units va <;> simp [hv, Option.filter]
  · have heq := MmuUnits.translate_eq c.units c.mem va access (effectivePriv c.csrs c.privilege access) c.csrs c.pmp
    have hvalid := MmuUnits.isValid_translate c.units c.mem va access
        (effectivePriv c.csrs c.privilege access) c.csrs c.pmp
    simp only [if_neg hd]
    rw [← heq]
    generalize Units.translateWithPmp c.units c.mem va access
        (effectivePriv c.csrs c.privilege access) c.csrs c.pmp = ru
      at hvalid ⊢
    obtain ⟨⟨paddr, cycles, trap, upd⟩, u⟩ := ru
    cases trap with
    | some t => rfl
    | none =>
      dsimp only at hvalid ⊢
      cases hpmp : c.pmp.check paddr (BitVec.ofNat 64 n) (access == .read) (access == .write) (access == .fetch)
        (effectivePriv c.csrs c.privilege access == .machine) with
      | allow =>
        cases hm : (c.privilege == .machine) with
        | true => simp [landing, Option.filter, hpmp, hm, bne]
        | false =>
          cases hv : Units.isValidAddress c.units paddr <;> simp [landing, Option.filter, hpmp, hm, hv, hvalid, bne]
      | deny => simp [landing, Option.filter, hpmp]
      | noMatch => simp [landing, Option.filter, hpmp]

theorem mmuPaddr_within {va : VirtAddr} {i : Nat} (hi : va.toNat % 4096 + i < 4096) :
    c.mmuPaddr access (va + BitVec.ofNat 64 i) = (c.mmuPaddr access va).map (· + BitVec.ofNat 64 i) := by
  unfold mmuPaddr
  split
  · rfl
  · exact Mmu.landing_within _ _ _ _ va access _ c.csrs (some c.pmp) hi

variable {c access}

/-- A span that is not torn lies in physical memory as in the address space. -/
theorem mmuPaddr_of_not_torn {va : VirtAddr} {n : Nat} (hn : n ≤ 8) (h : ¬c.Torn access va n) {i : Nat} (hi : i < n) :
    c.mmuPaddr access (va + BitVec.ofNat 64 i) = (c.mmuPaddr access va).map (· + BitVec.ofNat 64 i) := by
  by_cases hpage : va.toNat % 4096 + i < 4096
  · exact c.mmuPaddr_within access hpage
  · -- the byte is in the next page, `i - k` bytes behind its start
    let k := 4096 - va.toNat % 4096
    have hk : k ≤ i := by omega
    have hnext : c.mmuPaddr access (va + BitVec.ofNat 64 k) = (c.mmuPaddr access va).map (· + BitVec.ofNat 64 k) := by
      by_contra hne
      exact h ⟨by omega, hne⟩
    have hsum : BitVec.ofNat 64 i = BitVec.ofNat 64 k + BitVec.ofNat 64 (i - k) := by
      rw [← BitVec.ofNat_add]
      congr 1
      omega
    have hstart : (va + BitVec.ofNat 64 k).toNat % 4096 + (i - k) < 4096 := by
      rw [BitVec.toNat_add, BitVec.toNat_ofNat]
      omega
    rw [hsum, ← BitVec.add_assoc, c.mmuPaddr_within access hstart, hnext, Option.map_map]
    refine congrArg (Option.map · _) (funext fun p => ?_)
    exact BitVec.add_assoc _ _ _

/-- A translation that is refused by the checks of the byte. -/
theorem bytePaddr_eq (va : VirtAddr) (i : Nat) :
    c.bytePaddr access va i = (c.mmuPaddr access (va + BitVec.ofNat 64 i)).filter fun p => c.allows access p 1 :=
  c.mem1Paddr_eq access _ 1

theorem bytePaddr_of_not_torn {va : VirtAddr} {n : Nat} (hn : n ≤ 8) (h : ¬c.Torn access va n) {i : Nat} (hi : i < n)
    {p : PhysAddr} (hp : c.mmuPaddr access va = some p) :
    c.bytePaddr access va i =
      if c.allows access (p + BitVec.ofNat 64 i) 1 = true then some (p + BitVec.ofNat 64 i) else none := by
  rw [bytePaddr_eq, mmuPaddr_of_not_torn hn h hi, hp]
  rfl

/-- The first byte of the next page is not where the span has it. -/
theorem Torn.not_lands {va : VirtAddr} {n : Nat} (h : c.Torn access va n) {p : PhysAddr}
    (hp : c.mmuPaddr access va = some p) : ¬∀ i < n, c.bytePaddr access va i = some (p + BitVec.ofNat 64 i) := by
  intro hall
  have hfirst := hall _ h.1
  rw [bytePaddr_eq, Option.filter_eq_some_iff] at hfirst
  refine h.2 ?_
  rw [hp, Option.map_some]
  exact hfirst.1

theorem lands_iff_of_not_torn {va : VirtAddr} {n : Nat} (hn : n ≤ 8) (h : ¬c.Torn access va n) {p : PhysAddr}
    (hp : c.mmuPaddr access va = some p) :
    (∀ i < n, c.bytePaddr access va i = some (p + BitVec.ofNat 64 i)) ↔
      ∀ i < n, c.allows access (p + BitVec.ofNat 64 i) 1 = true := by
  refine forall₂_congr fun i hi => ?_
  rw [bytePaddr_of_not_torn hn h hi hp]
  split <;> simp [*]

theorem refused_iff_of_not_torn {va : VirtAddr} {n : Nat} (hn : n ≤ 8) (h : ¬c.Torn access va n) {p : PhysAddr}
    (hp : c.mmuPaddr access va = some p) :
    (∃ i < n, c.bytePaddr access va i = none) ↔ ¬∀ i < n, c.allows access (p + BitVec.ofNat 64 i) 1 = true := by
  have hbyte : ∀ i < n, c.bytePaddr access va i = none ↔ ¬c.allows access (p + BitVec.ofNat 64 i) 1 = true := by
    intro i hi
    rw [bytePaddr_of_not_torn hn h hi hp]
    split <;> simp [*]
  simp only [not_forall, exists_prop]
  exact exists_congr fun i => and_congr_right (hbyte i)

theorem bytes_le (w : MemWidth) : w.bytes ≤ 8 := by cases w <;> decide

theorem bytes_pos {w : MemWidth} (h : w ≠ .nop) : 0 < w.bytes := by
  cases w with
  | nop => exact absurd rfl h
  | byte => decide
  | half => decide
  | word => decide
  | double => decide

/-! ### One translation for all bytes -/

variable {ex : ExMem1Entry} {now : Nat} {lq : Option LoadQueue}

/-- A refused access is right when a byte of it is refused. -/
theorem Performs.translatesBytes_none (h : c.Performs ex now lq)
    (hm : c.mem1Paddr ex.ctrl.accessType ex.alu ex.ctrl.width.bytes = none) :
    c.TranslatesBytes ex now lq ↔ ∃ i < ex.ctrl.width.bytes, c.bytePaddr ex.ctrl.accessType ex.alu i = none := by
  have htrap := h.memory1One.1 hm
  refine ⟨fun ht => ht.faults.mp htrap, fun hb => ⟨⟨fun _ => hb, fun _ => htrap⟩, fun m hl => ?_⟩⟩
  obtain ⟨t, ht⟩ := htrap
  unfold Leaves at hl
  rw [ht] at hl
  exact hl.elim

/-- An access sent to `p` is right when its bytes lie from `p` on. -/
theorem Performs.translatesBytes_some (h : c.Performs ex now lq) {p : PhysAddr}
    (hm : c.mem1Paddr ex.ctrl.accessType ex.alu ex.ctrl.width.bytes = some p) :
    c.TranslatesBytes ex now lq ↔
      ∀ i < ex.ctrl.width.bytes, c.bytePaddr ex.ctrl.accessType ex.alu i = some (p + BitVec.ofNat 64 i) := by
  have hsent := h.memory1One.2 p hm
  constructor
  · intro ht i hi
    obtain ⟨m, hl⟩ := hsent.leaves h.room
    have hland := ht.lands m hl i hi
    rwa [Mem1Mem2Entry.byteAddr, hsent.lands m hl] at hland
  · intro hb
    refine ⟨⟨fun ⟨m, ht⟩ => absurd ht (hsent.untrapped m), fun ⟨i, hi, hnone⟩ => ?_⟩, fun m hl i hi => ?_⟩
    · rw [hb i hi] at hnone
      cases hnone
    · rw [Mem1Mem2Entry.byteAddr, hsent.lands m hl]
      exact hb i hi

/-- **Misaligned and page-crossing accesses.** An access that is performed translates every byte exactly when
it is not torn and its checks are those of its bytes, or is refused with one of its bytes. -/
theorem translatesBytes_iff (h : c.Performs ex now lq) :
    c.TranslatesBytes ex now lq ↔ c.ServedRight ex.ctrl.accessType ex.alu ex.ctrl.width.bytes := by
  have hn := bytes_le ex.ctrl.width
  have hm := c.mem1Paddr_eq ex.ctrl.accessType ex.alu ex.ctrl.width.bytes
  cases hp : c.mmuPaddr ex.ctrl.accessType ex.alu with
  | none =>
    -- the first byte is one that is refused
    have hbyte : c.bytePaddr ex.ctrl.accessType ex.alu 0 = none := by
      rw [bytePaddr_eq, BitVec.add_zero, hp]
      rfl
    rw [hp] at hm
    rw [h.translatesBytes_none hm]
    refine iff_of_true ⟨0, bytes_pos h.width, hbyte⟩ fun p hp' => ?_
    rw [hp] at hp'
    cases hp'
  | some p =>
    have hright : c.ServedRight ex.ctrl.accessType ex.alu ex.ctrl.width.bytes ↔
        if c.Torn ex.ctrl.accessType ex.alu ex.ctrl.width.bytes then
          c.allows ex.ctrl.accessType p ex.ctrl.width.bytes = false ∧
            ∃ i < ex.ctrl.width.bytes, c.bytePaddr ex.ctrl.accessType ex.alu i = none
        else c.Even ex.ctrl.accessType p ex.ctrl.width.bytes := by
      refine ⟨fun hr => hr p hp, fun hr q hq => ?_⟩
      obtain rfl := Option.some.inj (hp.symm.trans hq)
      exact hr
    rw [hp] at hm
    rw [hright]
    cases ha : c.allows ex.ctrl.accessType p ex.ctrl.width.bytes with
    | true =>
      have hm' :
          c.mem1Paddr ex.ctrl.accessType ex.alu ex.ctrl.width.bytes = some p := by rw [hm, Option.filter, ha]; rfl
      rw [h.translatesBytes_some hm']
      split
      · rename_i ht
        exact iff_of_false (ht.not_lands hp) (by simp)
      · rename_i ht
        rw [lands_iff_of_not_torn hn ht hp]
        exact ⟨fun hall => iff_of_true ha hall, fun heven => heven.mp ha⟩
    | false =>
      have hm' : c.mem1Paddr ex.ctrl.accessType ex.alu ex.ctrl.width.bytes = none := by rw [hm, Option.filter, ha]; rfl
      rw [h.translatesBytes_none hm']
      split
      · exact ⟨fun hb => ⟨rfl, hb⟩, fun hb => hb.2⟩
      · rename_i ht
        rw [refused_iff_of_not_torn hn ht hp]
        refine ⟨fun hall => iff_of_false (by rw [ha]; decide) hall, fun heven hall => ?_⟩
        rw [heven.mpr hall] at ha
        cases ha

/-- An access that starts at a multiple of its width stays in its page. -/
theorem not_torn_of_aligned {va : VirtAddr} {w : MemWidth} (h : Unaligned.isAligned va w.bytes = true) :
    ¬c.Torn access va w.bytes := by
  rintro ⟨hlt, -⟩
  have hdvd := isAligned_dvd h
  cases w <;> simp only [MemWidth.bytes] at hlt hdvd <;> omega

end

/-! ### The bytes of an access -/

section

variable {U : Type} [Units U]

theorem byte_read (mem : Mem) (a : U64) {n i : Nat} (hn : n ≤ 8) (hi : i < n) :
    ((mem.read a n) >>> (8 * i)).setWidth 8 = mem (a + BitVec.ofNat 64 i) := by
  apply BitVec.eq_of_getLsbD_eq
  intro j hj
  have hdiv : (8 * i + j) / 8 = i := by omega
  have hmod : (8 * i + j) % 8 = j := by omega
  rw [BitVec.getLsbD_setWidth, BitVec.getLsbD_ushiftRight, Mem.getLsbD_read, hdiv, hmod]
  simp [hj, show 8 * i + j < 8 * n by omega, show 8 * i + j < 64 by omega]

/-- A load from RAM takes byte `i` from the address of byte `i`. -/
theorem loadPhys_byte (c : Cpu U) (m : Mem1Mem2Entry) {i : Nat} (hi : i < m.ctrl.width.bytes)
    (hram : c.isRam m.paddr = true) :
    (((c.loadPhys m.paddr m.ctrl.width).1) >>> (8 * i)).setWidth 8 = c.mem (m.byteAddr i) := by
  unfold loadPhys
  rw [if_pos hram]
  exact byte_read c.mem m.paddr (by cases m.ctrl.width <;> decide) hi

/-- A store to RAM puts byte `i` to the address of byte `i`. -/
theorem writeStoreToMemory_byte (c : Cpu U) (m : Mem1Mem2Entry) (d : U64) {i : Nat} (hi : i < m.ctrl.width.bytes)
    (hram : (!c.inHtif m.paddr && c.isRam m.paddr) = true) :
    (c.writeStoreToMemory m.paddr d m.ctrl.width).mem (m.byteAddr i) = (d >>> (8 * i)).setWidth 8 := by
  have hle : m.ctrl.width.bytes ≤ 8 := by cases m.ctrl.width <;> decide
  have hoff : (m.byteAddr i - m.paddr).toNat = i := by
    rw [Mem1Mem2Entry.byteAddr, BitVec.add_comm, BitVec.add_sub_cancel, BitVec.toNat_ofNat]
    exact Nat.mod_eq_of_lt (by omega)
  unfold writeStoreToMemory
  rw [if_pos hram]
  show c.mem.write m.paddr m.ctrl.width.bytes d (m.byteAddr i) = _
  rw [Mem.write, hoff, if_pos hi]

end

/-! ### A torn load -/

/-- The bench machine with an MMU whose TLBs are empty and whose tables are in RAM. -/
def ColdBench : Type := Bench

instance : MmuUnits ColdBench :=
  { (inferInstanceAs (Units Bench) : Units Bench) with
    translateWithPmp := fun u mem va access priv csrs pmp =>
      (((Mmu.new 2 4 2 1 false : Mmu Unit).translateWithPmp (fun a => mem.read a 8) 0 () va access priv csrs
          (some pmp)).1, u)
    mmu := fun _ => Mmu.new 2 4 2 1 false
    ptRead := fun _ mem a => mem.read a 8
    transit := fun _ => 0
    translate_eq := fun _ _ _ _ _ _ _ => rfl
    isValid_translate := fun _ _ _ _ _ _ _ _ => rfl }

/-- Three levels of tables: page 0 lies at `0x80010000`, page 1 at `0x80020000`, page 2 right behind it. -/
def scatteredPages : Mem :=
  let pte (a : U64) (ppn : Ppn) (flags : U64) (m : Mem) : Mem := m.write a 8 ((ppn <<< 10) ||| flags)
  pte 0x80000000 0x80001 1 <| pte 0x80001000 0x80002 1 <| pte 0x80002000 0x80010 0xC7 <|
    pte 0x80002008 0x80020 0xC7 <| pte 0x80002010 0x80021 0xC7 fun _ => 0

/-- S-mode under Sv39 with all of memory open to it; misaligned accesses do not trap. -/
def scatteredCpu : Cpu ColdBench :=
  let c : Cpu ColdBench := Cpu.new { directMode := false } scatteredPages (({} : Bench) : ColdBench)
  { c with
    privilege := .supervisor
    csrs := { c.csrs with satp := ((8 : U64) <<< 60) ||| 0x80000 }
    pmp := (c.pmp.setAddr 0 (BitVec.allOnes 64)).setCfg 0 0x1F }

/-- `ld` from `va`. -/
def loadDouble (va : VirtAddr) : ExMem1Entry :=
  { robTag := 1, pc := 0x80000000, inst := 0x00003003, instSize := .standard, rd := 5, rdPhys := 5,
    alu := va, storeData := 0, ctrl := { memRead := true, width := .double }, trap := none, fpFlags := 0,
    sfenceVma := none }

theorem scatteredCpu_performs (va : VirtAddr) (h : (memory1One scatteredCpu (loadDouble va) 0 none).1 ≠ .full) :
    scatteredCpu.Performs (loadDouble va) 0 none := ⟨rfl, rfl, by simp [loadDouble], Or.inr ⟨rfl, rfl⟩, h⟩

/-- Half of the load is in page 1 and half in page 2, which is mapped behind it. -/
theorem translatesBytes_iff_adjoining : scatteredCpu.Performs (loadDouble 0x1FFC) 0 none ∧
    scatteredCpu.TranslatesBytes (loadDouble 0x1FFC) 0 none := by
  have hp : scatteredCpu.Performs (loadDouble 0x1FFC) 0 none := scatteredCpu_performs _ (by decide)
  refine ⟨hp, (translatesBytes_iff hp).mpr fun p hpage => ?_⟩
  have hfirst : scatteredCpu.mmuPaddr .read 0x1FFC = some 0x80020FFC := by decide
  obtain rfl : (0x80020FFC : PhysAddr) = p := Option.some.inj (hfirst.symm.trans hpage)
  have hwhole : ¬scatteredCpu.Torn .read 0x1FFC 8 := by decide
  have hbytes : (scatteredCpu.allows .read 0x80020FFC 8 = true ↔
      ∀ i < 8, scatteredCpu.allows .read (0x80020FFC + BitVec.ofNat 64 i) 1 = true) := by decide
  exact (if_neg hwhole).mpr hbytes

/-- Half of the load is in page 0 and half in page 1, which is mapped elsewhere; the upper half is taken
from behind page 0. -/
theorem torn_load_runs_on : scatteredCpu.Performs (loadDouble 0xFFC) 0 none ∧
    (∃ m, scatteredCpu.Leaves (loadDouble 0xFFC) 0 none m ∧ m.byteAddr 4 = 0x80011000) ∧
    scatteredCpu.bytePaddr .read 0xFFC 4 = some 0x80020000 ∧
    ¬scatteredCpu.TranslatesBytes (loadDouble 0xFFC) 0 none := by
  have hpass : (memory1One scatteredCpu (loadDouble 0xFFC) 0 none).1 =
      .pass ((loadDouble 0xFFC).toMem2 2 0xFFC 0x80010FFC) := by decide
  have hleaves : scatteredCpu.Leaves (loadDouble 0xFFC) 0 none ((loadDouble 0xFFC).toMem2 2 0xFFC 0x80010FFC) := by
    unfold Leaves
    rw [hpass]
    rfl
  have hbyte : scatteredCpu.bytePaddr .read 0xFFC 4 = some 0x80020000 := by decide
  refine ⟨scatteredCpu_performs _ (by rw [hpass]; simp), ⟨_, hleaves, by decide⟩, hbyte, fun h => ?_⟩
  have hland := h.lands _ hleaves 4 (by decide)
  change scatteredCpu.bytePaddr .read 0xFFC 4 = _ at hland
  rw [hbyte] at hland
  exact absurd hland (by decide)

end Cpu

end Rvsim
