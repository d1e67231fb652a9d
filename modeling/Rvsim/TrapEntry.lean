/-
# Selecting an interrupt, entering a trap and returning

`check_interrupts` goes down a fixed chain of sources and takes the first that
is pending, enabled and not masked. A source that is not delegated goes to
machine mode and ought to come before one that is; the chain knows nothing of
it. Trap entry and the return from it are inverse on the interrupt stack of
the mode the trap goes to.

Key definitions:
  - `IrqSource`, `Cpu.takable`, `Cpu.targetOf`, `Cpu.Selects`
  - `Cpu.TrapReturns`
Key theorems:
  - `Cpu.checkInterrupts_eq`, `Cpu.selects_iff`, `Cpu.trapReturns_iff`
-/
import Rvsim.Commit
import Rvsim.CsrLegal

namespace Rvsim

variable {U : Type}

/-! ### Sources of interrupts -/

/-- An interrupt source: its bit in `mip`, `mie` and `mideleg`, and the trap it raises. -/
structure IrqSource where
  line : Nat
  trap : Trap
  deriving DecidableEq, Repr

namespace IrqSource

def bit (x : IrqSource) : U64 := 1 <<< x.line

/-- MEI, MSI, MTI, SEI, SSI, STI. -/
def chain : List IrqSource :=
  [⟨11, .machineExternalInterrupt⟩, ⟨3, .machineSoftwareInterrupt⟩, ⟨7, .machineTimerInterrupt⟩,
    ⟨9, .supervisorExternalInterrupt⟩, ⟨1, .supervisorSoftwareInterrupt⟩, ⟨5, .supervisorTimerInterrupt⟩]

theorem line_lt {x : IrqSource} (h : x ∈ chain) : x.line < 64 := by
  revert x
  decide

theorem trapCode_eq {x : IrqSource} (h : x ∈ chain) : Cpu.trapCode x.trap = (true, BitVec.ofNat 64 x.line) := by
  revert x
  decide

end IrqSource

/-- The order of privileges. -/
def PrivilegeMode.rank (p : PrivilegeMode) : Nat := p.toU8.toNat

namespace Cpu

/-- The mode an interrupt goes to. -/
def targetOf (c : Cpu U) (x : IrqSource) : PrivilegeMode :=
  if c.csrs.mideleg.getLsbD x.line then .supervisor else .machine

/-- Interrupts are enabled in this mode. -/
def globalEnable (c : Cpu U) : PrivilegeMode → Bool
  | .machine => c.csrs.mstatus.getLsbD 3
  | .supervisor => c.csrs.mstatus.getLsbD 1
  | .user => false

/-- Pending and enabled, and the mode it goes to is above the current one, or is the current one with
interrupts enabled. -/
def takable (c : Cpu U) (x : IrqSource) : Bool :=
  c.csrs.mip.getLsbD x.line && c.csrs.mie.getLsbD x.line &&
    (decide (c.privilege.rank < (c.targetOf x).rank) || (c.privilege == c.targetOf x && c.globalEnable (c.targetOf x)))

/-- `x` is the interrupt to take: no takable one goes to a higher mode, and none that goes to the same
mode comes before it. -/
structure Selects (c : Cpu U) (x : IrqSource) : Prop where
  takable : c.takable x = true
  highest : ∀ y ∈ IrqSource.chain, c.takable y = true → (c.targetOf y).rank ≤ (c.targetOf x).rank
  first : ∃ pre post, IrqSource.chain = pre ++ x :: post ∧
    ∀ y ∈ pre, c.takable y = true → (c.targetOf y).rank < (c.targetOf x).rank

theorem checkInterrupt_eq (c : Cpu U) {x : IrqSource} (h : x.line < 64) :
    checkInterrupt c x.bit x.trap = if c.takable x then some x.trap else none := by
  have hzero : ∀ m : U64, (m &&& x.bit == 0) = !m.getLsbD x.line := fun m => by
    rw [← Masks.test_bit m h, bne, Bool.not_not]
    rfl
  have hone : ∀ m : U64, (m &&& x.bit != 0) = m.getLsbD x.line := fun m => Masks.test_bit m h
  have hsie : (c.csrs.mstatus &&& Csr.mstatusSie ≠ 0) ↔ c.csrs.mstatus.getLsbD 1 = true := by
    rw [← Masks.test_bit c.csrs.mstatus (show 1 < 64 by decide), bne_iff_ne]
    rfl
  have hmie : (c.csrs.mstatus &&& Csr.mstatusMie ≠ 0) ↔ c.csrs.mstatus.getLsbD 3 = true := by
    rw [← Masks.test_bit c.csrs.mstatus (show 3 < 64 by decide), bne_iff_ne]
    rfl
  unfold checkInterrupt takable targetOf
  simp only [hzero, hone, hsie, hmie]
  cases c.csrs.mip.getLsbD x.line with
  | false => simp
  | true =>
    cases c.csrs.mie.getLsbD x.line with
    | false => simp
    | true =>
      cases c.csrs.mideleg.getLsbD x.line with
      | true =>
        cases c.privilege with
        | user => simp [PrivilegeMode.rank, PrivilegeMode.toU8]
        | supervisor => simp [PrivilegeMode.rank, PrivilegeMode.toU8, globalEnable]
        | machine => simp [PrivilegeMode.rank, PrivilegeMode.toU8]
      | false =>
        cases c.privilege with
        | user => simp [PrivilegeMode.rank, PrivilegeMode.toU8]
        | supervisor => simp [PrivilegeMode.rank, PrivilegeMode.toU8]
        | machine => simp [PrivilegeMode.rank, PrivilegeMode.toU8, globalEnable]

/-- The first takable source of the chain is taken. -/
theorem checkInterrupts_eq (c : Cpu U) : checkInterrupts c = (IrqSource.chain.find? c.takable).map IrqSource.trap := by
  have hone : ∀ x ∈ IrqSource.chain, checkInterrupt c x.bit x.trap = if c.takable x then some x.trap else none :=
    fun x hx => checkInterrupt_eq c (IrqSource.line_lt hx)
  have hloop : ∀ xs : List IrqSource,
      (∀ x ∈ xs, checkInterrupt c x.bit x.trap = if c.takable x then some x.trap else none) →
      xs.foldr (fun x o => (checkInterrupt c x.bit x.trap).or o) none = (xs.find? c.takable).map IrqSource.trap := by
    intro xs hxs
    induction xs with
    | nil => rfl
    | cons x xs ih =>
      rw [List.foldr_cons, hxs x List.mem_cons_self, ih fun y hy => hxs y (List.mem_cons_of_mem _ hy)]
      cases ht : c.takable x with
      | true => simp [ht]
      | false => simp [ht]
  rw [← hloop _ hone]
  simp only [IrqSource.chain, List.foldr_cons, List.foldr_nil, Option.or_none]
  rfl

/-! ### The mode a trap enters -/

/-- Outside direct mode a trap enters the supervisor when it is delegated and machine mode otherwise. -/
theorem trap_privilege {c : Cpu U} (hd : c.directMode = false) (t : Trap) (epc : U64) :
    (c.trap t epc).privilege = if c.delegates t then .supervisor else .machine := by
  rw [trap_eq hd]
  split <;> rfl

theorem trap_privilege_direct {c : Cpu U} (hd : c.directMode = true) (t : Trap) (epc : U64) :
    (c.trap t epc).privilege = c.privilege := by
  unfold trap
  dsimp only
  rw [if_pos hd]

theorem delegates_source (c : Cpu U) {x : IrqSource} (hx : x ∈ IrqSource.chain) :
    c.delegates x.trap = (c.privilege != .machine && c.csrs.mideleg.getLsbD x.line) := by
  have hlt := IrqSource.line_lt hx
  unfold delegates
  rw [IrqSource.trapCode_eq hx]
  dsimp only
  have hnat : x.line % 2 ^ 64 % 64 = x.line := by omega
  rw [if_pos rfl, BitVec.toNat_ofNat, hnat, BitVec.getLsbD_ushiftRight, Nat.add_zero]

/-- A takable interrupt goes to a mode at least as privileged as the current one. -/
theorem rank_le_of_takable {c : Cpu U} {x : IrqSource} (h : c.takable x = true) :
    c.privilege.rank ≤ (c.targetOf x).rank := by
  simp only [takable, Bool.and_eq_true, Bool.or_eq_true, decide_eq_true_eq, beq_iff_eq] at h
  rcases h.2 with hlt | ⟨heq, -⟩
  · omega
  · rw [heq]

/-- Trap entry takes a takable interrupt to its own mode. -/
theorem trap_targetOf {c : Cpu U} (hd : c.directMode = false) {x : IrqSource} (hx : x ∈ IrqSource.chain)
    (h : c.takable x = true) (epc : U64) : (c.trap x.trap epc).privilege = c.targetOf x := by
  have hle := rank_le_of_takable h
  rw [trap_privilege hd, delegates_source c hx]
  unfold targetOf at hle ⊢
  cases hdel : c.csrs.mideleg.getLsbD x.line with
  | false => simp
  | true =>
    rw [hdel] at hle
    cases hp : c.privilege with
    | user => rfl
    | supervisor => rfl
    | machine =>
      rw [hp] at hle
      exact absurd hle (by decide)

/-! ### Selection -/

/-- What `check_interrupts` and the trap it leads to ought to do. -/
structure SelectsRight (c : Cpu U) : Prop where
  some : ∀ t, checkInterrupts c = some t → ∃ x ∈ IrqSource.chain, x.trap = t ∧ c.Selects x ∧
    ∀ epc, (c.trap t epc).privilege = c.targetOf x ∧ c.privilege.rank ≤ (c.trap t epc).privilege.rank
  none : checkInterrupts c = none → ∀ x ∈ IrqSource.chain, c.takable x = false

/-- If a takable interrupt is not delegated, then one that is not comes before all that are; and in direct
mode, where no trap is entered, every takable one goes to the current mode. -/
structure MachineFirst (c : Cpu U) : Prop where
  order : ∀ x ∈ IrqSource.chain, c.takable x = true → c.targetOf x = .machine →
    ∃ pre z post, IrqSource.chain = pre ++ z :: post ∧ c.takable z = true ∧ c.targetOf z = .machine ∧
      ∀ y ∈ pre, c.takable y = true → c.targetOf y = .machine
  direct : c.directMode = true → ∀ x ∈ IrqSource.chain, c.takable x = true → c.targetOf x = c.privilege

theorem targetOf_cases (c : Cpu U) (x : IrqSource) : c.targetOf x = .machine ∨ c.targetOf x = .supervisor := by
  unfold targetOf
  split
  · exact Or.inr rfl
  · exact Or.inl rfl

theorem rank_le_machine (p : PrivilegeMode) : p.rank ≤ PrivilegeMode.machine.rank := by
  cases p <;> decide

/-- The first takable source, when those that go to machine mode come first. -/
theorem selects_of_first {c : Cpu U} (h : c.MachineFirst) {x : IrqSource}
    (hx : IrqSource.chain.find? c.takable = some x) :
    c.Selects x := by
  obtain ⟨ht, pre, post, hchain, hpre⟩ := List.find?_eq_some_iff_append.mp hx
  have hnone : ∀ y ∈ pre, c.takable y = true → (c.targetOf y).rank < (c.targetOf x).rank := fun y hy hyt => by
    have hyn := hpre y hy
    rw [hyt] at hyn
    exact absurd hyn (by decide)
  refine ⟨ht, fun y hy hyt => ?_, pre, post, hchain, hnone⟩
  rcases c.targetOf_cases x with hm | hs
  · rw [hm]
    exact rank_le_machine _
  · rcases c.targetOf_cases y with hym | hys
    · -- a takable source that goes to machine mode: then the first takable one does
      obtain ⟨pre', z, post', hchain', hzt, hzm, hpre'⟩ := h.order y hy hyt hym
      rw [hchain', List.find?_append] at hx
      cases hf : pre'.find? c.takable with
      | some w =>
        rw [hf, Option.some_or, Option.some.injEq] at hx
        subst hx
        rw [hpre' w (List.mem_of_find?_eq_some hf) (List.find?_some hf)] at hs
        exact absurd hs (by decide)
      | none =>
        rw [hf, Option.none_or, List.find?_cons_of_pos hzt, Option.some.injEq] at hx
        subst hx
        rw [hzm] at hs
        exact absurd hs (by decide)
    · rw [hys, hs]

theorem trap_injective {x y : IrqSource} (hx : x ∈ IrqSource.chain) (hy : y ∈ IrqSource.chain) (h : x.trap = y.trap) :
    x = y := by
  have hall : ∀ x ∈ IrqSource.chain, ∀ y ∈ IrqSource.chain, x.trap = y.trap → x = y := by decide
  exact hall x hx y hy h

/-- **Interrupt selection** is right exactly when machine-mode interrupts come first. -/
theorem selects_iff (c : Cpu U) : c.SelectsRight ↔ c.MachineFirst := by
  constructor
  · intro h
    -- what is selected when something is takable
    have hsel : ∀ y ∈ IrqSource.chain, c.takable y = true → ∃ x, IrqSource.chain.find? c.takable = some x ∧
        x ∈ IrqSource.chain ∧ c.Selects x ∧ (c.trap x.trap 0).privilege = c.targetOf x := by
      intro y hy hyt
      cases hf : IrqSource.chain.find? c.takable with
      | none =>
        have hn := List.find?_eq_none.mp hf y hy
        exact absurd hyt hn
      | some x =>
        have hc : checkInterrupts c = Option.some x.trap := by rw [checkInterrupts_eq, hf, Option.map_some]
        obtain ⟨x', hx', heq, hs, htrap⟩ := h.some _ hc
        have hmem := List.mem_of_find?_eq_some hf
        rw [trap_injective hx' hmem heq] at hs htrap
        exact ⟨x, rfl, hmem, hs, (htrap 0).1⟩
    constructor
    · intro y hy hyt hym
      obtain ⟨x, hf, -, hs, -⟩ := hsel y hy hyt
      obtain ⟨ht, pre, post, hchain, hpre⟩ := List.find?_eq_some_iff_append.mp hf
      have hle := hs.highest y hy hyt
      rw [hym] at hle
      refine ⟨pre, x, post, hchain, ht, ?_, fun w hw hwt => ?_⟩
      · rcases c.targetOf_cases x with hm | hs'
        · exact hm
        · rw [hs'] at hle
          exact absurd hle (by decide)
      · have hwn := hpre w hw
        rw [hwt] at hwn
        exact absurd hwn (by decide)
    · intro hd y hy hyt
      obtain ⟨x, -, -, hs, htrap⟩ := hsel y hy hyt
      rw [trap_privilege_direct hd] at htrap
      have hle := hs.highest y hy hyt
      have hge := rank_le_of_takable hyt
      rw [← htrap] at hle
      -- equal ranks, so equal modes
      revert hle hge
      cases c.privilege <;> cases c.targetOf y <;> decide
  · intro h
    constructor
    · intro t ht
      rw [checkInterrupts_eq, Option.map_eq_some_iff] at ht
      obtain ⟨x, hf, rfl⟩ := ht
      have hmem := List.mem_of_find?_eq_some hf
      have hx := List.find?_some hf
      refine ⟨x, hmem, rfl, selects_of_first h hf, fun epc => ?_⟩
      have htrap : (c.trap x.trap epc).privilege = c.targetOf x := by
        cases hd : c.directMode with
        | false => exact trap_targetOf hd hmem hx epc
        | true => rw [trap_privilege_direct hd, h.direct hd x hmem hx]
      exact ⟨htrap, by rw [htrap]; exact rank_le_of_takable hx⟩
    · intro hn x hx
      rw [checkInterrupts_eq, Option.map_eq_none_iff] at hn
      simpa using List.find?_eq_none.mp hn x hx

/-- The external interrupt of the supervisor is delegated and its software interrupt is not; both are
pending in user mode. -/
def mixedDelegation : Cpu Bench :=
  let c := Cpu.new { directMode := false } (fun _ => 0) {}
  { c with
    csrs := { c.csrs with mip := 0x202, mie := 0x202, mideleg := 0x200 }
    privilege := .user }

/-- The delegated one is taken, to the supervisor. -/
theorem mixedDelegation_wrong : checkInterrupts mixedDelegation = some .supervisorExternalInterrupt ∧
    mixedDelegation.takable ⟨1, .supervisorSoftwareInterrupt⟩ = true ∧
    mixedDelegation.targetOf ⟨1, .supervisorSoftwareInterrupt⟩ = .machine ∧
    mixedDelegation.targetOf ⟨9, .supervisorExternalInterrupt⟩ = .supervisor ∧ ¬mixedDelegation.SelectsRight := by
  refine ⟨by decide, by decide, by decide, by decide, fun h => ?_⟩
  obtain ⟨x, hx, heq, hs, -⟩ := h.some .supervisorExternalInterrupt (by decide)
  have hxe : x = ⟨9, .supervisorExternalInterrupt⟩ := trap_injective hx (by decide) heq
  have hle := hs.highest ⟨1, .supervisorSoftwareInterrupt⟩ (by decide) (by decide)
  rw [hxe] at hle
  exact absurd hle (by decide)

/-! ### Returning -/

/-- The return instruction of the mode the hart is in. -/
def xret (c : Cpu U) : Cpu U := if c.privilege = .supervisor then c.doSret else c.doMret

/-- `mstatus` after a trap to the supervisor and `SRET`: the previous enable is set, and the previous
mode and `MPRV` are cleared. -/
def sretStatus (m : U64) : U64 := ((m ||| Csr.mstatusSpie) &&& ~~~Csr.mstatusSpp) &&& ~~~Csr.mstatusMprv

/-- `mstatus` after a trap from `p` to machine mode and `MRET`. -/
def mretStatus (m : U64) (p : PrivilegeMode) : U64 :=
  let m := (m ||| Csr.mstatusMpie) &&& ~~~Csr.mstatusMpp
  if p = .machine then m else m &&& ~~~Csr.mstatusMprv

/-- Trap entry shifts the delegation mask within its width, and the return from the mode that was
entered undoes it. -/
structure TrapReturns (c : Cpu U) (t : Trap) (epc : U64) : Prop where
  /-- In machine mode the delegation mask is not looked at. -/
  shift : c.privilege ≠ .machine → (trapCode t).2.toNat < 64
  privilege : (c.trap t epc).xret.privilege = c.privilege
  pc : (c.trap t epc).xret.pc = epc
  mstatus : (c.trap t epc).xret.csrs.mstatus =
    if c.delegates t then sretStatus c.csrs.mstatus else mretStatus c.csrs.mstatus c.privilege
  sstatus : (c.trap t epc).xret.csrs.sstatus = (c.trap t epc).xret.csrs.mstatus &&& Csr.sstatusMask

theorem setBit_getLsbD (x bit : U64) (on : Bool) (i : Nat) :
    (setBit x bit on).getLsbD i = if bit.getLsbD i then on else x.getLsbD i := Masks.getLsbD_put x bit on i

theorem mstatusMpp_getLsbD {i : Nat} (hi : i < 64) :
    Csr.mstatusMpp.getLsbD i = (decide (i = 11) || decide (i = 12)) := by
  revert i
  decide

/-- `MPP` aside, nothing is put into the status word with the mode. -/
theorem stacked_getLsbD (p : PrivilegeMode) {i : Nat} (hi : i < 64) (h : Csr.mstatusMpp.getLsbD i = false) :
    ((p.toU8.setWidth 64 : U64) <<< Csr.mstatusMppShift).getLsbD i = false := by
  have hsub : ((p.toU8.setWidth 64 : U64) <<< Csr.mstatusMppShift) &&& ~~~Csr.mstatusMpp = 0 := by cases p <;> decide
  exact Masks.bit_of_and_zero hsub (by rw [BitVec.getLsbD_not, h, decide_eq_true hi]; rfl)

/-- A trap to the supervisor and the return from it. -/
theorem trapToS_doSret {c : Cpu U} (h : c.csrs.Stored) (hp : c.privilege ≠ .machine) (i : Bool) (code tval epc : U64) :
    (c.trapToS i code tval epc).doSret.privilege = c.privilege ∧
      (c.trapToS i code tval epc).doSret.pc = epc &&& ~~~1 ∧
      (c.trapToS i code tval epc).doSret.csrs.mstatus = sretStatus c.csrs.mstatus := by
  have hview : ∀ n, Csr.sstatusMask.getLsbD n = true → c.csrs.sstatus.getLsbD n = c.csrs.mstatus.getLsbD n := by
    intro n hn
    rw [h.view, BitVec.getLsbD_and, hn, Bool.and_true]
  have hsie : ∀ n, Csr.mstatusSie.getLsbD n = decide (n = 1) := fun n => Masks.getLsbD_bit 1 n (by decide)
  have hspie : ∀ n, Csr.mstatusSpie.getLsbD n = decide (n = 5) := fun n => Masks.getLsbD_bit 5 n (by decide)
  have hspp : ∀ n, Csr.mstatusSpp.getLsbD n = decide (n = 8) := fun n => Masks.getLsbD_bit 8 n (by decide)
  have htest1 : ∀ x : U64, (x &&& Csr.mstatusSie != 0) = x.getLsbD 1 := fun x => Masks.test_bit x (by decide)
  have htest5 : ∀ x : U64, (x &&& Csr.mstatusSpie != 0) = x.getLsbD 5 := fun x => Masks.test_bit x (by decide)
  have htest8 : ∀ x : U64, (x &&& Csr.mstatusSpp != 0) = x.getLsbD 8 := fun x => Masks.test_bit x (by decide)
  refine ⟨?_, rfl, Masks.ext_bits fun n hn => ?_⟩
  · unfold trapToS doSret
    dsimp only
    rw [htest8]
    simp only [BitVec.getLsbD_and, BitVec.getLsbD_not, setBit_getLsbD, hsie, hspp]
    revert hp
    cases c.privilege <;> simp
  · unfold trapToS doSret sretStatus
    dsimp only
    simp only [htest1, htest5, BitVec.getLsbD_and, BitVec.getLsbD_or, BitVec.getLsbD_not, setBit_getLsbD,
        hsie, hspie, hspp]
    by_cases h1 : n = 1
    · subst h1
      simp [hview 1 (by decide), -BitVec.getLsbD_eq_getElem]
    · by_cases h5 : n = 5
      · subst h5
        simp
      · by_cases h8 : n = 8
        · subst h8
          simp
        · simp [h1, h5, h8, hn]

/-- A trap to machine mode and the return from it. -/
theorem trapToM_doMret (c : Cpu U) (i : Bool) (code tval epc : U64) :
    (c.trapToM i code tval epc).doMret.privilege = c.privilege ∧
      (c.trapToM i code tval epc).doMret.pc = epc &&& ~~~1 ∧
      (c.trapToM i code tval epc).doMret.csrs.mstatus = mretStatus c.csrs.mstatus c.privilege := by
  have hmie : ∀ n, Csr.mstatusMie.getLsbD n = decide (n = 3) := fun n => Masks.getLsbD_bit 3 n (by decide)
  have hmpie : ∀ n, Csr.mstatusMpie.getLsbD n = decide (n = 7) := fun n => Masks.getLsbD_bit 7 n (by decide)
  have htest3 : ∀ x : U64, (x &&& Csr.mstatusMie != 0) = x.getLsbD 3 := fun x => Masks.test_bit x (by decide)
  have htest7 : ∀ x : U64, (x &&& Csr.mstatusMpie != 0) = x.getLsbD 7 := fun x => Masks.test_bit x (by decide)
  -- the word without MPRV is the same in both cases of the return
  have hword : (setBit (((setBit c.csrs.mstatus Csr.mstatusMpie (c.csrs.mstatus &&& Csr.mstatusMie != 0) &&&
      ~~~Csr.mstatusMpp) ||| (c.privilege.toU8.setWidth 64 <<< Csr.mstatusMppShift)) &&& ~~~Csr.mstatusMie)
          Csr.mstatusMie
      ((((setBit c.csrs.mstatus Csr.mstatusMpie (c.csrs.mstatus &&& Csr.mstatusMie != 0) &&& ~~~Csr.mstatusMpp) |||
        (c.privilege.toU8.setWidth 64 <<< Csr.mstatusMppShift)) &&& ~~~Csr.mstatusMie) &&& Csr.mstatusMpie != 0) |||
      Csr.mstatusMpie) &&& ~~~Csr.mstatusMpp = (c.csrs.mstatus ||| Csr.mstatusMpie) &&& ~~~Csr.mstatusMpp := by
    refine Masks.ext_bits fun n hn => ?_
    cases hm : Csr.mstatusMpp.getLsbD n with
    | true => simp [hm]
    | false =>
      have h3 := stacked_getLsbD c.privilege (show 7 < 64 by decide) (by decide)
      simp only [htest3, htest7, BitVec.getLsbD_and, BitVec.getLsbD_or, BitVec.getLsbD_not, setBit_getLsbD,
          hmie, hmpie, hm,
        stacked_getLsbD c.privilege hn hm, h3, hn]
      by_cases h7 : n = 7
      · subst h7
        simp
      · by_cases h3 : n = 3
        · subst h3
          simp [mstatusMpp_getLsbD, -BitVec.getLsbD_eq_getElem]
        · simp [h7, h3]
  refine ⟨?_, rfl, ?_⟩
  · unfold trapToM doMret
    dsimp only
    rw [mpp_stacked]
    cases c.privilege <;> decide
  · unfold trapToM doMret mretStatus
    dsimp only
    rw [mpp_stacked, hword]
    cases c.privilege <;> rfl

/-- The bit that the returns clear of the stored pc. -/
theorem clear_low_iff (v : U64) : v &&& ~~~1 = v ↔ v.getLsbD 0 = false := by
  constructor
  · intro h
    rw [← h]
    exact even_mask v
  · intro h
    refine Masks.ext_bits fun i hi => ?_
    have hone : (1 : U64).getLsbD i = decide (i = 0) := Masks.getLsbD_bit 0 i (by decide)
    rw [BitVec.getLsbD_and, BitVec.getLsbD_not, hone]
    by_cases h0 : i = 0
    · subst h0
      rw [h]
      rfl
    · simp [h0, hi]

/-- Every cause but a requested one has a code below the width of the delegation registers. -/
theorem trapCode_lt_iff (t : Trap) : (trapCode t).2.toNat < 64 ↔ ∀ k, t = .requestedTrap k → k.toNat < 64 := by
  cases t with
  | requestedTrap k => exact ⟨fun h j hj => by cases hj; exact h, fun h => h k rfl⟩
  | _ => exact ⟨fun _ k hk => Trap.noConfusion hk, fun _ => Nat.lt_of_sub_eq_succ rfl⟩

/-- Outside direct mode, entry and return fit together exactly for these causes and pcs. -/
theorem trapReturns_iff {c : Cpu U} (h : c.csrs.Stored) (hd : c.directMode = false) (t : Trap) (epc : U64) :
    c.TrapReturns t epc ↔
      (c.privilege ≠ .machine → ∀ k, t = .requestedTrap k → k.toNat < 64) ∧ epc.getLsbD 0 = false := by
  -- the state after the return, in both modes
  have hret : (c.trap t epc).xret.privilege = c.privilege ∧ (c.trap t epc).xret.pc = epc &&& ~~~1 ∧
      (c.trap t epc).xret.csrs.mstatus =
        (if c.delegates t then sretStatus c.csrs.mstatus else mretStatus c.csrs.mstatus c.privilege) ∧
      (c.trap t epc).xret.csrs.Stored := by
    have hstored := trap_stored h t epc
    have htrap := trap_eq hd t epc
    have hpriv := trap_privilege hd t epc
    unfold xret
    cases hdel : c.delegates t with
    | true =>
      have hp : c.privilege ≠ .machine := by
        intro hm
        rw [delegates, hm] at hdel
        exact absurd hdel (by simp)
      rw [hdel, if_pos rfl] at htrap hpriv
      rw [if_pos hpriv]
      have hs := trapToS_doSret (c := { c with loadReservation := none }) h hp (trapCode t).1 (trapCode t).2
          (trapTval t) epc
      rw [← htrap] at hs
      exact ⟨hs.1, hs.2.1, hs.2.2, doSret_stored hstored⟩
    | false =>
      rw [hdel, if_neg (by decide)] at htrap hpriv
      rw [if_neg (by rw [hpriv]; decide)]
      have hm := trapToM_doMret { c with loadReservation := none } (trapCode t).1 (trapCode t).2 (trapTval t) epc
      rw [← htrap] at hm
      exact ⟨hm.1, hm.2.1, hm.2.2, doMret_stored hstored⟩
  obtain ⟨hpriv, hpc, hms, hst⟩ := hret
  constructor
  · intro hr
    exact ⟨fun hp => (trapCode_lt_iff t).mp (hr.shift hp), (clear_low_iff epc).mp (hpc.symm.trans hr.pc)⟩
  · rintro ⟨hk, he⟩
    exact ⟨fun hp => (trapCode_lt_iff t).mpr (hk hp), hpriv, hpc.trans ((clear_low_iff epc).mpr he), hms, hst.view⟩

/-- **Trap and return.** From every state that CSR instructions, traps and returns lead to, a trap that
is entered is undone by the return exactly when a cause requested below machine mode is below 64 and the
pc is even. -/
theorem reachable_trapReturns_iff [Units U] (cfg : Config) (mem : Mem) (u : U) (evs : List CsrEvent) (t : Trap)
    (epc : U64) : ((evs.foldl csrEvent (Cpu.new cfg mem u)).directMode = false →
      (evs.foldl csrEvent (Cpu.new cfg mem u)).TrapReturns t epc) ↔
    ((evs.foldl csrEvent (Cpu.new cfg mem u)).directMode = false →
      ((evs.foldl csrEvent (Cpu.new cfg mem u)).privilege ≠ .machine →
        ∀ k, t = .requestedTrap k → k.toNat < 64) ∧ epc.getLsbD 0 = false) := by
  have hrun : ∀ (evs : List CsrEvent) (c : Cpu U), c.csrs.Stored → (evs.foldl csrEvent c).csrs.Stored := by
    intro evs
    induction evs with
    | nil => exact fun c h => h
    | cons ev evs ih => exact fun c h => ih _ (csrEvent_stored h ev)
  have hst := hrun evs _ (new_legal cfg mem u).toStored
  constructor
  · intro h hd
    exact (trapReturns_iff hst hd t epc).mp (h hd)
  · intro h hd
    exact (trapReturns_iff hst hd t epc).mpr (h hd)

end Cpu

/-- A program that opens memory to user mode, returns to it and there asks for the trap with cause 64. -/
def requestsTrap : O3Pipeline Bench :=
  let cfg := { O3Pipeline.smallO3 with directMode := false }
  -- auipc x1,0; csrrw x0,pmpaddr0,x1; csrrwi x0,pmpcfg0,15; addi x1,x1,24; csrrw x0,mepc,x1; mret
  -- addi x1,x0,64; csrrw x0,0x8ff,x1
  .init cfg (Cpu.new cfg (O3Pipeline.memOfWords 0x80000000
    [0x00000097, 0x3b009073, 0x3a07d073, 0x01808093, 0x34109073, 0x30200073, 0x04000093, 0x8ff09073]) {})

/-- In user mode the write raises it, and the delegation mask is shifted by its whole width. -/
theorem requestsTrap_shift :
    O3Pipeline.Reach { O3Pipeline.smallO3 with directMode := false } (requestsTrap.ticks 30) ∧
    (requestsTrap.ticks 31).core.cpu.csrs.mcause = 64 ∧
    (requestsTrap.ticks 30).core.cpu.directMode = false ∧
    ¬(requestsTrap.ticks 30).core.cpu.TrapReturns (.requestedTrap 64) 0x8000001c := by
  have hrun : O3Pipeline.Run { O3Pipeline.smallO3 with directMode := false } (fun _ _ => True)
      (requestsTrap.ticks 30) :=
    O3Pipeline.Run.ticks 30 (.init _ (O3Pipeline.loaded_new _ _ _)) (by decide)
  have huser : (requestsTrap.ticks 30).core.cpu.privilege = .user := by decide +kernel
  refine ⟨hrun.reach, by decide +kernel, by decide +kernel, fun h => ?_⟩
  exact absurd (h.shift (by rw [huser]; decide)) (by decide)

end Rvsim
