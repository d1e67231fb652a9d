/-
# Legality of system instructions

Which SYSTEM instructions the privileged architecture makes illegal
(`Instr.Illegal`), against what the two copies of execution check
(`CodeIllegal`). A copy that faults touches nothing but the entry's trap, and
a CSR access that only reads queues no write. The checks fall short in three
places (`LegalityMissed`): SFENCE.VMA in U-mode, the FP CSRs while
`mstatus.FS` is Off, and the reserved SYSTEM words the decoder lets through.

Key definitions:
  - `Isa.Instr.Illegal`, `CodeIllegal`, `Legality`, `LegalityMissed`
Key theorems:
  - `system_legality_iff`
-/
import Rvsim.DecodeExact
import Rvsim.ExecuteAgree

namespace Rvsim

/-! ### The privileged architecture -/

/-- The CSRs that `csr_read` handles. -/
def Csr.Handled (a : CsrAddr) : Prop :=
  a ∈ [Csr.fflags, Csr.frm, Csr.fcsr, Csr.mvendorid, Csr.marchid, Csr.mimpid, Csr.mhartid,
      Csr.mstatus, Csr.medeleg, Csr.mideleg, Csr.mie, Csr.mtvec, Csr.misa, Csr.mscratch, Csr.mepc,
      Csr.mcause, Csr.mtval, Csr.mip, Csr.sstatus, Csr.sie, Csr.stvec, Csr.sscratch, Csr.sepc,
      Csr.scause, Csr.stval, Csr.sip, Csr.stimecmp, Csr.satp, Csr.mcounteren, Csr.scounteren,
      Csr.menvcfg, Csr.cycle, Csr.mcycle, Csr.time, Csr.instret, Csr.minstret, 0x3A0, 0x3A2] ∨
    (0x3B0 ≤ a ∧ a ≤ 0x3BF)

/-- Every other address reads as zero, whatever the state. -/
theorem csrRead_of_not_handled {U : Type} (c : Cpu U) (a : CsrAddr) (h : ¬Csr.Handled a) :
    c.csrRead a = 0 := by
  simp only [Csr.Handled, List.mem_cons, List.not_mem_nil, or_false, not_or] at h
  obtain ⟨h, hp⟩ := h
  simp only [Cpu.csrRead, h, hp, or_self, if_false]

namespace Isa

/-- The access writes the CSR: always, or with a nonzero source register or immediate. -/
def CsrInstr.Writes (o : CsrInstr) (rs1 : RegIdx) : Prop :=
  match o with
  | .rw | .rwi => True
  | .rs | .rc | .rsi | .rci => rs1 ≠ 0

/-- A counter is enabled by bit `bit` of `mcounteren` below M-mode, of `scounteren` too in U-mode. -/
def CounterOff (s : Csrs) (m : PrivilegeMode) (bit : Nat) : Prop :=
  match m with
  | .machine => False
  | .supervisor => s.mcounteren.getLsbD bit = false
  | .user => s.mcounteren.getLsbD bit = false ∨ s.scounteren.getLsbD bit = false

/-- The FP CSRs. -/
def FpCsr (a : CsrAddr) : Prop := a = Csr.fflags ∨ a = Csr.frm ∨ a = Csr.fcsr

def FsOff (s : Csrs) : Prop := s.mstatus &&& Csr.mstatusFs = 0

/-- A CSR access is illegal: privilege of bits 9:8, read-only by bits 11:10, `satp` under TVM, a
counter switched off, an FP CSR with `FS` Off. -/
structure CsrLegal (s : Csrs) (m : PrivilegeMode) (o : CsrInstr) (rs1 : RegIdx) (a : CsrAddr) :
    Prop where
  privilege : (a.extractLsb' 8 2).toNat ≤ m.toU8.toNat
  readOnly : a.extractLsb' 10 2 = 3 → ¬o.Writes rs1
  satp : a = Csr.satp → m = .supervisor → s.mstatus.getLsbD 20 = false
  cycle : a = Csr.cycle → ¬CounterOff s m 0
  time : a = Csr.time → ¬CounterOff s m 1
  instret : a = Csr.instret → ¬CounterOff s m 2
  fp : FpCsr a → ¬FsOff s

/-- The system instructions the privileged architecture makes illegal in a mode and CSR state. -/
def Instr.Illegal (s : Csrs) (m : PrivilegeMode) : Instr → Prop
  | .mret => m ≠ .machine
  | .sret => m = .user ∨ (m = .supervisor ∧ s.mstatus.getLsbD 22 = true)
  | .wfi => m = .user ∨ (m = .supervisor ∧ s.mstatus.getLsbD 21 = true)
  | .sfenceVma .. => m = .user ∨ (m = .supervisor ∧ s.mstatus.getLsbD 20 = true)
  | .csr o _ rs1 a => ¬CsrLegal s m o rs1 a
  | _ => False

end Isa

open Isa

/-! ### What execution records -/

section Records

variable {U : Type}

def trapOf (r : Rob) (tag : RobTag) : Option Trap := (r.findEntry tag).bind (·.trap)

def updateOf (r : Rob) (tag : RobTag) : Option CsrUpdate := (r.findEntry tag).bind (·.csrUpdate)

/-- The entry of an instruction that has not executed yet. -/
structure Fresh (r : Rob) (tag : RobTag) : Prop where
  present : (r.findEntry tag).isSome = true
  trap : trapOf r tag = none
  update : updateOf r tag = none

/-- Execution raised IllegalInstruction. -/
def Raises (id : RenameIssueEntry) (o : ExecOut U) : Prop :=
  trapOf o.rob id.robTag = some (.illegalInstruction id.inst)

/-- Legality of SYSTEM word `w`, executed to `o`: an instruction that names a
CSR the core has, or none, raises IllegalInstruction iff it is illegal, a
reserved word always does; a CSR access that faults leaves the core as it was
and queues no write, and one that passes and only reads queues none either. -/
structure Legality (w : U32) (cpu : Cpu U) (id : RenameIssueEntry) (o : ExecOut U) : Prop where
  valid : ∀ i, encode i = w → (∀ op rd rs1 a, i = .csr op rd rs1 a → Csr.Handled a) →
    (Raises id o ↔ i.Illegal cpu.csrs cpu.privilege)
  reserved : ¬Valid w → Raises id o
  fault : ∀ op rd rs1 a, encode (.csr op rd rs1 a) = w → Raises id o →
    o.cpu = cpu ∧ updateOf o.rob id.robTag = none
  read : ∀ op rd rs1 a, encode (.csr op rd rs1 a) = w → ¬Raises id o → ¬op.Writes rs1 →
    updateOf o.rob id.robTag = none

/-- What one SYSTEM instruction leaves: it faults and nothing else happens, or it passes. -/
structure SystemOut (cpu : Cpu U) (id : RenameIssueEntry) (rob : Rob) (illegal writes : Prop)
    (o : ExecOut U) : Prop where
  faults : illegal → o.cpu = cpu ∧ o.rob = rob.fault id.robTag (.illegalInstruction id.inst)
  passes : ¬illegal → trapOf o.rob id.robTag ≠ some (.illegalInstruction id.inst)
  quiet : ¬illegal → ¬writes → updateOf o.rob id.robTag = none

variable {cpu : Cpu U} {id : RenameIssueEntry} {rob : Rob}

theorem findEntry_fault (r : Rob) (tag : RobTag) (t : Trap) : (r.fault tag t).findEntry tag =
    (r.findEntry tag).map fun e => { e with state := .faulted, trap := some t } :=
  r.findEntry_modify tag _ fun _ => rfl

theorem findEntry_setCsrUpdate (r : Rob) (tag : RobTag) (u : CsrUpdate) :
    (r.setCsrUpdate tag u).findEntry tag = (r.findEntry tag).map fun e => { e with csrUpdate := some u } :=
  r.findEntry_modify tag _ fun _ => rfl

theorem trapOf_fault (hf : Fresh rob id.robTag) (t : Trap) :
    trapOf (rob.fault id.robTag t) id.robTag = some t := by
  obtain ⟨e, he⟩ := Option.isSome_iff_exists.mp hf.present
  rw [trapOf, findEntry_fault, he]
  rfl

theorem updateOf_fault (hf : Fresh rob id.robTag) (t : Trap) :
    updateOf (rob.fault id.robTag t) id.robTag = none := by
  have hu := hf.update
  rw [updateOf] at hu ⊢
  rw [findEntry_fault, Option.bind_map]
  exact hu

theorem trapOf_setCsrUpdate (r : Rob) (tag : RobTag) (u : CsrUpdate) :
    trapOf (r.setCsrUpdate tag u) tag = trapOf r tag := by
  rw [trapOf, trapOf, findEntry_setCsrUpdate, Option.bind_map]
  rfl

/-- Two outs that agree on the core and the buffer are summarised alike. -/
theorem SystemOut.congr {p q : Prop} {o o' : ExecOut U} (h : SystemOut cpu id rob p q o)
    (hc : o'.cpu = o.cpu) (hr : o'.rob = o.rob) : SystemOut cpu id rob p q o' where
  faults hp := by
    rw [hc, hr]
    exact h.faults hp
  passes hp := by
    rw [hr]
    exact h.passes hp
  quiet hp hq := by
    rw [hr]
    exact h.quiet hp hq

/-- A checked instruction: it faults under the check and otherwise leaves its entry alone. -/
theorem SystemOut.checked {p : Prop} {_ : Decidable p} {q : Prop} {x y : ExecOut U}
    (hf : Fresh rob id.robTag)
    (hx : x.cpu = cpu ∧ x.rob = rob.fault id.robTag (.illegalInstruction id.inst))
    (hy : y.rob = rob) : SystemOut cpu id rob p q (if p then x else y) where
  faults hp := by rwa [if_pos hp]
  passes hp := by
    rw [if_neg hp, hy, hf.trap]
    exact (Option.some_ne_none _).symm
  quiet hp _ := by rw [if_neg hp, hy, hf.update]

theorem SystemOut.raises_iff {p q : Prop} {o : ExecOut U} (h : SystemOut cpu id rob p q o)
    (hf : Fresh rob id.robTag) : Raises id o ↔ p := by
  refine ⟨fun hr => ?_, fun hp => ?_⟩
  · by_contra hp
    exact h.passes hp hr
  · rw [Raises, (h.faults hp).2]
    exact trapOf_fault hf _

end Records

/-! ### What execution checks -/

section Checks

variable {U : Type} [Units U]

/-- The checks of both copies of execution, instruction by instruction. -/
def CodeIllegal (cpu : Cpu U) : Instr → Prop
  | .mret => cpu.privilege ≠ .machine
  | .sret =>
    cpu.privilege = .user ∨ (cpu.privilege = .supervisor ∧ (cpu.csrs.mstatus >>> 22) &&& 1 ≠ 0)
  | .wfi =>
    cpu.privilege = .user ∨ (cpu.privilege = .supervisor ∧ (cpu.csrs.mstatus >>> 21) &&& 1 ≠ 0)
  | .sfenceVma .. => cpu.privilege = .supervisor ∧ (cpu.csrs.mstatus >>> 20) &&& 1 ≠ 0
  | .csr o _ rs1 a =>
    (a = Csr.satp ∧ cpu.privilege = .supervisor ∧ (cpu.csrs.mstatus >>> 20) &&& 1 ≠ 0) ∨
      InOrder.counterDenied cpu a = true ∨ cpu.privilege.toU8 < a.privilegeLevel.setWidth 8 ∨
      (a.isReadOnly = true ∧ InOrder.wouldWrite o.op rs1 = true)
  | _ => False

/-- A CSR instruction with a source that makes it write. -/
def WritesCsr : Instr → Prop
  | .csr o _ rs1 _ => InOrder.wouldWrite o.op rs1 = true
  | _ => False

variable {cpu : Cpu U} {id : RenameIssueEntry} {rob : Rob}

theorem csrInstr_op_ne_none (o : CsrInstr) : o.op ≠ .none := by
  cases o <;> decide

omit [Units U] in
/-- A CSR access that passed its checks: flags drained, a write queued if there is one. -/
theorem SystemOut.csr {p writes : Prop} {x : ExecOut U} {r : Rob} (hf : Fresh rob id.robTag)
    (hr : r.findEntry id.robTag = rob.findEntry id.robTag) (hp : ¬p)
    (hw : writes → ∃ u, x.rob = r.setCsrUpdate id.robTag u) (hn : ¬writes → x.rob = r) :
    SystemOut cpu id rob p writes x where
  faults h := absurd h hp
  passes _ := by
    have ht : trapOf r id.robTag = none := by
      rw [trapOf, hr]
      exact hf.trap
    by_cases h : writes
    · obtain ⟨u, hu⟩ := hw h
      rw [hu, trapOf_setCsrUpdate, ht]
      exact (Option.some_ne_none _).symm
    · rw [hn h, ht]
      exact (Option.some_ne_none _).symm
  quiet _ h := by
    rw [hn h, updateOf, hr]
    exact hf.update

omit [Units U] in
theorem SystemOut.of_illegal {p q : Prop} {x : ExecOut U} (hp : p) (hc : x.cpu = cpu)
    (hr : x.rob = rob.fault id.robTag (.illegalInstruction id.inst)) :
    SystemOut cpu id rob p q x :=
  ⟨fun _ => ⟨hc, hr⟩, fun hn => absurd hp hn, fun hn => absurd hp hn⟩

omit [Units U] in
/-- Nothing illegal, and the entry's trap is another one or none. -/
theorem SystemOut.passed {q : Prop} {x : ExecOut U} (hf : Fresh rob id.robTag)
    (hr : x.rob = rob ∨ x.rob = rob.fault id.robTag (O3.ecallTrap cpu.privilege)) :
    SystemOut cpu id rob False q x where
  faults h := h.elim
  passes _ := by
    rcases hr with hr | hr
    · rw [hr, hf.trap]
      exact (Option.some_ne_none _).symm
    · rw [hr, trapOf_fault hf]
      cases cpu.privilege <;> simp [O3.ecallTrap]
  quiet _ _ := by
    rcases hr with hr | hr
    · rw [hr, hf.update]
    · rw [hr, updateOf_fault hf]

namespace O3

omit [Units U] in
theorem executeCsr_out (o : CsrInstr) (rd rs1 : RegIdx) (a : CsrAddr) (fwdA sd : U64)
    (hf : Fresh rob id.robTag) (hc : id.ctrl = (Instr.csr o rd rs1 a).signals) (h1 : id.rs1 = rs1) :
    SystemOut cpu id rob (CodeIllegal cpu (.csr o rd rs1 a)) (WritesCsr (.csr o rd rs1 a))
      (executeCsr cpu id rob fwdA sd) := by
  have ha : id.ctrl.csrAddr = a := by rw [hc]; rfl
  have ho : id.ctrl.csrOp = o.op := by rw [hc]; rfl
  have hill := csrIllegal_eq cpu id
  rw [ha, ho, h1] at hill
  unfold executeCsr
  by_cases h : csrIllegal cpu id = true
  · rw [if_pos h]
    exact SystemOut.of_illegal (hill.mp h) rfl rfl
  · rw [if_neg h]
    have hw : wouldWrite id.ctrl.csrOp id.rs1 = InOrder.wouldWrite o.op rs1 := by
      rw [ho, h1, wouldWrite_eq]
    refine SystemOut.csr hf (drainFpFlags_findEntry cpu id rob) (fun hn => h (hill.mpr hn))
      (fun hq => ?_) (fun hq => ?_)
    · simp only [hw, show InOrder.wouldWrite o.op rs1 = true from hq, if_true]
      exact ⟨_, rfl⟩
    · simp only [hw, show ¬InOrder.wouldWrite o.op rs1 = true from hq]
      rfl

theorem executeOne_out (i : Instr) (hs : IsSystem i) (he : i ≠ .ebreak) (hf : Fresh rob id.robTag)
    (ht : id.trap = none) (hc : id.ctrl = i.signals) (hi : id.inst = encode i)
    (h1 : ∀ r ∈ i.rs1, id.rs1 = r) :
    SystemOut cpu id rob (CodeIllegal cpu i) (WritesCsr i) (executeOne cpu id rob) := by
  unfold executeOne
  rw [ht]
  cases i with
  | ebreak => exact absurd rfl he
  | mret =>
    simp only [hc, Instr.signals, executeSystem]
    exact SystemOut.checked hf ⟨rfl, rfl⟩ rfl
  | sret =>
    simp only [hc, Instr.signals, executeSystem, ← ite_or]
    exact SystemOut.checked hf ⟨rfl, rfl⟩ rfl
  | wfi =>
    simp only [hc, Instr.signals, executeSystem]
    exact SystemOut.checked hf ⟨rfl, rfl⟩ rfl
  | sfenceVma rs1 rs2 =>
    have htvm : tvmTrap cpu = true ↔ CodeIllegal cpu (.sfenceVma rs1 rs2) := by
      simp [tvmTrap, CodeIllegal]
    simp only [hc, Instr.signals, executeSystem]
    by_cases h : tvmTrap cpu = true
    · rw [if_pos h]
      exact SystemOut.of_illegal (htvm.mp h) rfl rfl
    · rw [if_neg h]
      exact SystemOut.csr hf rfl (fun hn => h (htvm.mpr hn)) False.elim fun _ => rfl
  | ecall =>
    simp only [hc, Instr.signals, executeSystem]
    rw [if_pos (hi.trans (by decide))]
    exact SystemOut.passed hf (.inr rfl)
  | csr o rd rs1 a =>
    have hne : id.inst ≠ Inst.ecall := by
      intro h
      have hf3 := congrArg Inst.funct3 (hi.symm.trans h)
      simp only [encode, wordI, funct3_word] at hf3
      exact csr_funct3_ne_zero o (hf3.trans (by decide))
    simp only [hc, Instr.signals, executeSystem]
    rw [if_neg hne, if_pos (csrInstr_op_ne_none o)]
    exact executeCsr_out o rd rs1 a id.rv1 id.rv2 hf hc (h1 rs1 rfl)
  | _ => exact hs.elim

/-- On a reserved word nothing is recorded at all. -/
theorem executeOne_reserved (hf : Fresh rob id.robTag) (ht : id.trap = none)
    (hc : id.ctrl = {} ∨ (id.inst ≠ Inst.ecall ∧ ∃ a r, id.ctrl =
      { systemOp := .system, bSrc := .zero, csrAddr := a, regWrite := r })) :
    SystemOut cpu id rob False False (executeOne cpu id rob) := by
  refine SystemOut.passed hf (.inl ?_)
  unfold executeOne
  rw [ht]
  rcases hc with hc | ⟨hne, a, r, hc⟩
  · simp [hc, executeRest, isFpInst, executeControl]
  · simp only [hc, executeSystem, if_neg hne]
    rfl

end O3

namespace InOrder

omit [Units U] in
theorem executeCsr_out (o : CsrInstr) (rd rs1 : RegIdx) (a : CsrAddr) (held : U8)
    (hf : Fresh rob id.robTag) (hc : id.ctrl = (Instr.csr o rd rs1 a).signals) (h1 : id.rs1 = rs1) :
    SystemOut cpu id rob (CodeIllegal cpu (.csr o rd rs1 a)) (WritesCsr (.csr o rd rs1 a))
      (executeCsr cpu id rob held) := by
  have ha : id.ctrl.csrAddr = a := by rw [hc]; rfl
  have ho : id.ctrl.csrOp = o.op := by rw [hc]; rfl
  unfold executeCsr
  simp only [ha, ho, h1]
  by_cases hs : a = Csr.satp ∧ cpu.privilege = .supervisor ∧ (cpu.csrs.mstatus >>> 20) &&& 1 ≠ 0
  · rw [if_pos hs]
    exact SystemOut.of_illegal (.inl hs) rfl rfl
  by_cases hk : counterDenied cpu a = true
  · rw [if_neg hs, if_pos hk]
    exact SystemOut.of_illegal (.inr (.inl hk)) rfl rfl
  by_cases hp : cpu.privilege.toU8 < a.privilegeLevel.setWidth 8
  · rw [if_neg hs, if_neg hk, if_pos hp]
    exact SystemOut.of_illegal (.inr (.inr (.inl hp))) rfl rfl
  by_cases hr : a.isReadOnly = true ∧ wouldWrite o.op rs1 = true
  · rw [if_neg hs, if_neg hk, if_neg hp, if_pos hr]
    exact SystemOut.of_illegal (.inr (.inr (.inr hr))) rfl rfl
  rw [if_neg hs, if_neg hk, if_neg hp, if_neg hr]
  have hn : ¬CodeIllegal cpu (.csr o rd rs1 a) := by
    rintro (h | h | h | h)
    · exact hs h
    · exact hk h
    · exact hp h
    · exact hr h
  refine SystemOut.csr hf (drainFpFlags_findEntry cpu id rob held) hn (fun hq => ?_) (fun hq => ?_)
  · simp only [show wouldWrite o.op rs1 = true from hq, if_true]
    exact ⟨_, rfl⟩
  · simp only [show ¬wouldWrite o.op rs1 = true from hq]
    rfl

theorem executeEntry_out (i : Instr) (hs : IsSystem i) (he : i ≠ .ebreak) (held : U8)
    (hf : Fresh rob id.robTag) (ht : id.trap = none) (hc : id.ctrl = i.signals)
    (hi : id.inst = encode i) (h1 : ∀ r ∈ i.rs1, id.rs1 = r) :
    SystemOut cpu id rob (CodeIllegal cpu i) (WritesCsr i) (executeEntry cpu id rob held) := by
  unfold executeEntry
  rw [ht]
  cases i with
  | ebreak => exact absurd rfl he
  | mret =>
    simp only [hc, Instr.signals, executeSystem, ← apply_ite some, Option.getD_some]
    exact SystemOut.checked hf ⟨rfl, rfl⟩ rfl
  | sret =>
    simp only [hc, Instr.signals, executeSystem, ← apply_ite some, ← ite_or, Option.getD_some]
    exact SystemOut.checked hf ⟨rfl, rfl⟩ rfl
  | wfi =>
    simp only [hc, Instr.signals, executeSystem, ← apply_ite some, Option.getD_some]
    exact SystemOut.checked hf ⟨rfl, rfl⟩ rfl
  | sfenceVma rs1 rs2 =>
    simp only [hc, Instr.signals, executeSystem, ← apply_ite some, Option.getD_some]
    exact SystemOut.checked hf ⟨rfl, rfl⟩ rfl
  | ecall =>
    simp only [hc, Instr.signals, executeSystem]
    rw [if_pos (hi.trans (by decide))]
    exact SystemOut.passed hf (.inr rfl)
  | csr o rd rs1 a =>
    have hne : id.inst ≠ Inst.ecall := by
      intro h
      have hf3 := congrArg Inst.funct3 (hi.symm.trans h)
      simp only [encode, wordI, funct3_word] at hf3
      exact csr_funct3_ne_zero o (hf3.trans (by decide))
    simp only [hc, Instr.signals, executeSystem]
    rw [if_neg hne, if_pos (csrInstr_op_ne_none o)]
    exact executeCsr_out o rd rs1 a held hf hc (h1 rs1 rfl)
  | _ => exact hs.elim

theorem executeEntry_reserved (held : U8) (hf : Fresh rob id.robTag) (ht : id.trap = none)
    (hc : id.ctrl = {} ∨ (id.inst ≠ Inst.ecall ∧ ∃ a r, id.ctrl =
      { systemOp := .system, bSrc := .zero, csrAddr := a, regWrite := r })) :
    SystemOut cpu id rob False False (executeEntry cpu id rob held) := by
  refine SystemOut.passed hf (.inl ?_)
  unfold executeEntry
  rw [ht]
  rcases hc with hc | ⟨hne, a, r, hc⟩
  · simp [hc, executeRest]
  · simp only [hc, executeSystem, if_neg hne]
    simp [hc, executeRest]

end InOrder

end Checks

/-! ### The checks against the architecture -/

theorem shift_and_one_iff (v : U64) (n : Nat) : (v >>> n) &&& 1 ≠ 0 ↔ v.getLsbD n = true := by
  have h := BitVec.and_one_eq_setWidth_ofBool_getLsbD (x := v >>> n)
  rw [show (1 : U64) = 1#64 from rfl, h]
  cases hb : v.getLsbD n <;> simp [hb]

/-- The bits of the three counters. -/
theorem and_counterMask_iff (v : U64) {n : Nat} (hn : n < 3) :
    (v &&& ((1 <<< n : ℕ) : U64) == 0) = true ↔ v.getLsbD n = false := by
  have hmask : ∀ n < 3, ((1 <<< n : ℕ) : U64) = BitVec.twoPow 64 n ∧ BitVec.twoPow 64 n ≠ 0#64 := by
    decide
  obtain ⟨hm, hne⟩ := hmask n hn
  rw [beq_iff_eq, hm, BitVec.and_twoPow]
  cases hb : v.getLsbD n
  · simp
  · simpa using hne

theorem extract_privilege (a : CsrAddr) : a.extractLsb' 8 2 = a.privilegeLevel := by
  ext i hi
  simp [CsrAddr.privilegeLevel]

theorem isReadOnly_iff (a : CsrAddr) : a.isReadOnly = true ↔ a.extractLsb' 10 2 = 3 := by
  have h : a.extractLsb' 10 2 = (a >>> 10).setWidth 2 := by
    ext i hi
    simp
  rw [h]
  simp [CsrAddr.isReadOnly]

theorem toU8_lt_iff (m : PrivilegeMode) (a : CsrAddr) :
    m.toU8 < a.privilegeLevel.setWidth 8 ↔ ¬(a.extractLsb' 8 2).toNat ≤ m.toU8.toNat := by
  have h : (a.privilegeLevel.setWidth 8).toNat = a.privilegeLevel.toNat := by
    have := a.privilegeLevel.isLt
    rw [BitVec.toNat_setWidth]
    omega
  rw [BitVec.lt_def, h, extract_privilege]
  omega

theorem wouldWrite_iff (o : CsrInstr) (rs1 : RegIdx) :
    InOrder.wouldWrite o.op rs1 = true ↔ o.Writes rs1 := by
  cases o <;> simp [InOrder.wouldWrite, CsrInstr.op, CsrInstr.Writes, RegIdx.isZero]

/-- The counters' enable bits, as the in-order copy tests them. -/
theorem counterDenied_iff {U : Type} (cpu : Cpu U) (a : CsrAddr) :
    InOrder.counterDenied cpu a = true ↔
      (a = Csr.cycle ∧ CounterOff cpu.csrs cpu.privilege 0) ∨
        (a = Csr.time ∧ CounterOff cpu.csrs cpu.privilege 1) ∨
        (a = Csr.instret ∧ CounterOff cpu.csrs cpu.privilege 2) := by
  unfold InOrder.counterDenied
  dsimp only
  split_ifs with h0 h1 h2
  · subst h0
    cases cpu.privilege <;> simp +decide only [CounterOff, Bool.or_eq_true, and_counterMask_iff] <;>
      simp
  · subst h1
    cases cpu.privilege <;> simp +decide only [CounterOff, Bool.or_eq_true, and_counterMask_iff] <;>
      simp
  · subst h2
    cases cpu.privilege <;> simp +decide only [CounterOff, Bool.or_eq_true, and_counterMask_iff] <;>
      simp
  · simp [h0, h1, h2]

/-- A CSR access passes the checks and names no FP CSR of a switched-off unit: it is legal. -/
theorem csrLegal_iff {U : Type} (cpu : Cpu U) (o : CsrInstr) (rd rs1 : RegIdx) (a : CsrAddr) :
    CsrLegal cpu.csrs cpu.privilege o rs1 a ↔
      ¬CodeIllegal cpu (.csr o rd rs1 a) ∧ ¬(FpCsr a ∧ FsOff cpu.csrs) := by
  have hcode : CodeIllegal cpu (.csr o rd rs1 a) ↔
      (a = Csr.satp ∧ cpu.privilege = .supervisor ∧ cpu.csrs.mstatus.getLsbD 20 = true) ∨
      ((a = Csr.cycle ∧ CounterOff cpu.csrs cpu.privilege 0) ∨
        (a = Csr.time ∧ CounterOff cpu.csrs cpu.privilege 1) ∨
        (a = Csr.instret ∧ CounterOff cpu.csrs cpu.privilege 2)) ∨
      ¬(a.extractLsb' 8 2).toNat ≤ cpu.privilege.toU8.toNat ∨
      (a.extractLsb' 10 2 = 3 ∧ o.Writes rs1) := by
    rw [← counterDenied_iff, ← toU8_lt_iff, ← isReadOnly_iff, ← wouldWrite_iff, ← shift_and_one_iff]
    exact Iff.rfl
  rw [hcode]
  constructor
  · intro h
    refine ⟨?_, fun hfp => h.fp hfp.1 hfp.2⟩
    rintro (⟨ha, hm, ht⟩ | (⟨ha, hk⟩ | ⟨ha, hk⟩ | ⟨ha, hk⟩) | hp | ⟨hr, hw⟩)
    · rw [h.satp ha hm] at ht
      cases ht
    · exact h.cycle ha hk
    · exact h.time ha hk
    · exact h.instret ha hk
    · exact hp h.privilege
    · exact h.readOnly hr hw
  · rintro ⟨hn, hfp⟩
    simp only [not_or, not_and, not_not] at hn hfp
    obtain ⟨hsatp, ⟨hcycle, htime, hinstret⟩, hpriv, hro⟩ := hn
    exact ⟨hpriv, hro, fun ha hm => Bool.eq_false_iff.mpr (hsatp ha hm), hcycle, htime, hinstret, hfp⟩

/-- What execution does not check: SFENCE.VMA in U-mode, and FP CSRs of a switched-off unit. -/
def Unchecked (s : Csrs) (m : PrivilegeMode) : Instr → Prop
  | .sfenceVma .. => m = .user
  | .csr _ _ _ a => FpCsr a ∧ FsOff s
  | _ => False

theorem illegal_iff {U : Type} (cpu : Cpu U) (i : Instr) : i.Illegal cpu.csrs cpu.privilege ↔
    CodeIllegal cpu i ∨ Unchecked cpu.csrs cpu.privilege i := by
  cases i with
  | csr o rd rs1 a =>
    rw [Instr.Illegal, csrLegal_iff cpu o rd rs1 a, not_and_or, not_not, not_not]
    exact Iff.rfl
  | sfenceVma rs1 rs2 =>
    simp only [Instr.Illegal, CodeIllegal, Unchecked, shift_and_one_iff]
    tauto
  | sret => simp only [Instr.Illegal, CodeIllegal, Unchecked, shift_and_one_iff, or_false]
  | wfi => simp only [Instr.Illegal, CodeIllegal, Unchecked, shift_and_one_iff, or_false]
  | _ => simp [Instr.Illegal, CodeIllegal, Unchecked]

theorem not_codeIllegal_of_unchecked {U : Type} (cpu : Cpu U) (i : Instr)
    (h : Unchecked cpu.csrs cpu.privilege i) : ¬CodeIllegal cpu i := by
  cases i with
  | sfenceVma rs1 rs2 =>
    rintro ⟨hm, -⟩
    rw [show cpu.privilege = .user from h] at hm
    cases hm
  | csr o rd rs1 a =>
    -- readable and writable in every mode, no counter and not `satp`
    rintro (⟨ha, -⟩ | hk | hp | ⟨hr, -⟩)
    · rcases h.1 with rfl | rfl | rfl <;> exact absurd ha (by decide)
    · rw [counterDenied_iff] at hk
      rcases h.1 with rfl | rfl | rfl <;> revert hk <;> simp +decide
    · rw [toU8_lt_iff] at hp
      rcases h.1 with rfl | rfl | rfl <;> exact hp (Nat.zero_le _)
    · rcases h.1 with rfl | rfl | rfl <;> exact absurd hr (by decide)
  | _ => exact h.elim

/-! ### Legality of a word -/

/-- A word whose legality execution gets wrong: a reserved one, or one of an unchecked instruction. -/
def LegalityMissed (w : U32) (m : PrivilegeMode) (s : Csrs) : Prop :=
  SystemOverlooked w ∨ (w &&& 0xFE007FFF = Inst.sfenceVma ∧ m = .user) ∨
    (Inst.funct3 w ≠ 0 ∧ FpCsr (Inst.csr w) ∧ FsOff s)

theorem csr_extract (a : CsrAddr) : a.extractLsb' 5 7 ++ a.extractLsb' 0 5 = a := by
  ext i hi
  simp
  grind

theorem not_systemOverlooked_encode (i : Instr) (h : IsSystem i) : ¬SystemOverlooked (encode i) := by
  intro ho
  refine not_overlooked_encode i ?_
  simp only [Overlooked, (opcode_encode_system i).mpr h, ho, and_self, or_true]

/-- On an instruction's word the missed cases are the unchecked ones. -/
theorem legalityMissed_encode (i : Instr) (h : IsSystem i) (m : PrivilegeMode) (s : Csrs) :
    LegalityMissed (encode i) m s ↔ Unchecked s m i := by
  rw [LegalityMissed, or_iff_right (not_systemOverlooked_encode i h)]
  cases i with
  | sfenceVma rs1 rs2 =>
    have hs := (and_sfenceMask_eq_iff 0b0001001 rs2 rs1 0 0 Op.system).mpr ⟨rfl, rfl, rfl, rfl⟩
    have h3 : Inst.funct3 (encode (.sfenceVma rs1 rs2)) = 0 := by simp [encode]
    constructor
    · rintro (⟨-, hm⟩ | ⟨hn, -⟩)
      · exact hm
      · exact absurd h3 hn
    · exact fun hm => .inl ⟨hs, hm⟩
  | csr o rd rs1 a =>
    have h3 : Inst.funct3 (encode (.csr o rd rs1 a)) = o.funct3 := by simp [encode, wordI]
    have ha : Inst.csr (encode (.csr o rd rs1 a)) = a := by simp [encode, wordI, csr_extract]
    rw [h3, ha]
    constructor
    · rintro (⟨hs, -⟩ | ⟨-, hfp⟩)
      · exact absurd (h3.symm.trans (funct3_of_sfence _ hs)) (csr_funct3_ne_zero o)
      · exact hfp
    · exact fun hfp => .inr ⟨csr_funct3_ne_zero o, hfp⟩
  | ecall | ebreak | mret | sret | wfi => simp +decide [encode, Unchecked]
  | _ => exact h.elim

section Words

variable {U : Type} {w : U32} {cpu : Cpu U} {id : RenameIssueEntry} {rob : Rob} {o : ExecOut U}

/-- Legality from the summaries: of the instruction the word encodes, or of a reserved word. -/
theorem legality_iff (hop : Inst.opcode w = Op.system) (hf : Fresh rob id.robTag)
    (hout : ∀ i, encode i = w → SystemOut cpu id rob (CodeIllegal cpu i) (WritesCsr i) o)
    (hres : ¬Valid w → SystemOut cpu id rob False False o) :
    Legality w cpu id o ↔ ¬LegalityMissed w cpu.privilege cpu.csrs := by
  by_cases hv : Valid w
  · have hsys : ∀ i, encode i = w → IsSystem i := fun i hi =>
      (opcode_encode_system i).mp (hi ▸ hop)
    constructor
    · intro hl hm
      obtain ⟨i, hi⟩ := hv
      have hu : Unchecked cpu.csrs cpu.privilege i := by
        rwa [← hi, legalityMissed_encode i (hsys i hi)] at hm
      have hh : ∀ op rd rs1 a, i = .csr op rd rs1 a → Csr.Handled a := by
        rintro op rd rs1 a rfl
        rcases hu.1 with rfl | rfl | rfl <;> simp [Csr.Handled]
      have hr := (hl.valid i hi hh).mpr ((illegal_iff cpu i).mpr (.inr hu))
      exact not_codeIllegal_of_unchecked cpu i hu (((hout i hi).raises_iff hf).mp hr)
    · intro hm
      refine ⟨fun i hi _ => ?_, fun hn => absurd hv hn, fun op rd rs1 a hi hr => ?_,
        fun op rd rs1 a hi hr hw => ?_⟩
      · have hu : ¬Unchecked cpu.csrs cpu.privilege i := by
          rwa [← hi, legalityMissed_encode i (hsys i hi)] at hm
        rw [(hout i hi).raises_iff hf, illegal_iff, or_iff_left hu]
      · have ho := hout _ hi
        have hc := ho.faults ((ho.raises_iff hf).mp hr)
        rw [hc.2]
        exact ⟨hc.1, updateOf_fault hf _⟩
      · have ho := hout _ hi
        refine ho.quiet (mt (ho.raises_iff hf).mpr hr) ?_
        rwa [WritesCsr, wouldWrite_iff]
  · -- a reserved word is missed, and raises nothing
    have hm : LegalityMissed w cpu.privilege cpu.csrs := by
      refine .inl ?_
      by_contra hn
      obtain ⟨f7, rs2, rs1, f3, rd, op, rfl⟩ := exists_word w
      rw [opcode_word] at hop
      subst hop
      exact hv (valid_system f7 rs2 rs1 rd f3 hn)
    refine iff_of_false (fun hl => ?_) (not_not.mpr hm)
    exact ((hres hv).raises_iff hf).mp (hl.reserved hv)

/-- What the issue entry of a SYSTEM instruction carries. -/
theorem IsIssueOf.system (hw : IsIssueOf w id) (hop : Inst.opcode w = Op.system) (i : Instr)
    (hi : encode i = w) : IsSystem i ∧ i ≠ .ebreak ∧ id.ctrl = i.signals ∧ id.inst = encode i ∧
      ∀ r ∈ i.rs1, id.rs1 = r := by
  have hd := hw.ctrl
  have hinst := hw.inst
  have hrs1 := hw.rs1
  subst hi
  rw [decodeInstruction_encode] at hd
  have hne : i ≠ .ebreak := by
    rintro rfl
    cases hd
  refine ⟨(opcode_encode_system i).mp hop, hne, ?_, hinst, fun r hr => ?_⟩
  · cases i <;> first | exact absurd rfl hne | exact (Except.ok.inj hd).symm
  · rw [hrs1]
    exact (carries_encode i).rs1 r hr

/-- The issue entry of a reserved SYSTEM word: no signals, or those of a CSR access that is none. -/
theorem IsIssueOf.reserved (hw : IsIssueOf w id) (hop : Inst.opcode w = Op.system)
    (hv : ¬Valid w) : id.ctrl = {} ∨ (id.inst ≠ Inst.ecall ∧ ∃ a r, id.ctrl =
      { systemOp := .system, bSrc := .zero, csrAddr := a, regWrite := r }) := by
  have hd := hw.ctrl
  rw [decodeInstruction, decode_opcode, if_pos hop] at hd
  by_cases h0 : Inst.funct3 w = 0
  · left
    have hne : ∀ i, w ≠ encode i := fun i hi => hv ⟨i, hi.symm⟩
    have hs : ¬w &&& 0xFE007FFF = Inst.sfenceVma := by
      obtain ⟨f7, rs2, rs1, f3, rd, op, rfl⟩ := exists_word w
      intro hs
      obtain ⟨rfl, rfl, rfl, rfl⟩ := (and_sfenceMask_eq_iff ..).mp hs
      exact hv ⟨.sfenceVma rs1 rs2, rfl⟩
    have hb : w ≠ Inst.ebreak := hne .ebreak
    have hm : w ≠ Inst.mret := hne .mret
    have hr : w ≠ Inst.sret := hne .sret
    have hi : w ≠ Inst.wfi := hne .wfi
    have hc : w ≠ Inst.ecall := hne .ecall
    rw [decodeSystem, if_neg hs, if_neg hb, if_neg hm, if_neg hr, if_neg hi, if_neg hc, decode_funct3,
      if_neg (not_not.mpr h0)] at hd
    exact (Except.ok.inj hd).symm
  · right
    rw [decodeSystem_csr w id.pc h0] at hd
    have h4 : Inst.funct3 w = 4 := by
      by_contra h4
      obtain ⟨o, ho⟩ := exists_csr h0 h4
      obtain ⟨f7, rs2, rs1, f3, rd, op, rfl⟩ := exists_word w
      rw [opcode_word] at hop
      rw [funct3_word] at ho
      subst hop ho
      exact hv ⟨.csr o rd rs1 _, (word_eq_wordI ..).symm⟩
    refine ⟨?_, Inst.csr w, !(Inst.rd w).isZero, ?_⟩
    · rw [hw.inst]
      rintro rfl
      exact h0 (by decide)
    · rw [← Except.ok.inj hd, csrSignals, h4]
      rfl

variable [Units U]

/-- Both copies of execution get the legality of a SYSTEM word right exactly when it is none of
the missed ones, in any mode and CSR state. -/
theorem system_legality_iff (w : U32) (cpu : Cpu U) (id : RenameIssueEntry) (rob : Rob) (held : U8)
    (hop : Inst.opcode w = Op.system) (hw : IsIssueOf w id)
    (hf : Fresh rob id.robTag) :
    (Legality w cpu id (O3.executeOne cpu id rob) ↔
      ¬LegalityMissed w cpu.privilege cpu.csrs) ∧
    (Legality w cpu id (InOrder.executeEntry cpu id rob held) ↔
      ¬LegalityMissed w cpu.privilege cpu.csrs) := by
  constructor
  · refine legality_iff hop hf (fun i hi => ?_) fun hv => ?_
    · obtain ⟨hs, hne, hc, hinst, h1⟩ := hw.system hop i hi
      exact O3.executeOne_out i hs hne hf hw.trap hc hinst h1
    · exact O3.executeOne_reserved hf hw.trap (hw.reserved hop hv)
  · refine legality_iff hop hf (fun i hi => ?_) fun hv => ?_
    · obtain ⟨hs, hne, hc, hinst, h1⟩ := hw.system hop i hi
      exact InOrder.executeEntry_out i hs hne held hf hw.trap hc hinst h1
    · exact InOrder.executeEntry_reserved held hf hw.trap (hw.reserved hop hv)

end Words

/-! ### One word of each kind -/

/-- MRET in M-mode, where both copies pass it. -/
theorem system_legality_mret :
    Legality Inst.mret benchCpu (benchEntry Inst.mret { systemOp := .mret } 0)
        (O3.executeOne benchCpu (benchEntry Inst.mret { systemOp := .mret } 0)
          (benchRob (benchEntry Inst.mret { systemOp := .mret } 0))) ∧
      Legality Inst.mret benchCpu (benchEntry Inst.mret { systemOp := .mret } 0)
        (InOrder.executeEntry benchCpu (benchEntry Inst.mret { systemOp := .mret } 0)
          (benchRob (benchEntry Inst.mret { systemOp := .mret } 0)) 0) := by
  have hm : ¬LegalityMissed Inst.mret benchCpu.privilege benchCpu.csrs := by
    rintro (h | ⟨h, -⟩ | ⟨h, -⟩)
    · exact not_systemOverlooked_encode .mret trivial h
    · exact absurd h (by decide)
    · exact absurd h (by decide)
  have h := system_legality_iff Inst.mret benchCpu (benchEntry Inst.mret { systemOp := .mret } 0)
    (benchRob (benchEntry Inst.mret { systemOp := .mret } 0)) 0 (by decide)
    ⟨rfl, rfl, rfl, rfl, rfl, by decide, rfl⟩ ⟨rfl, rfl, rfl⟩
  exact ⟨h.1.mpr hm, h.2.mpr hm⟩

def userCpu : Cpu Bench := { benchCpu with privilege := .user }

/-- SFENCE.VMA in U-mode passes both copies. -/
theorem sfence_user_passes :
    IsIssueOf Inst.sfenceVma (benchEntry Inst.sfenceVma { systemOp := .sfenceVma } 0) ∧
      Fresh (benchRob (benchEntry Inst.sfenceVma { systemOp := .sfenceVma } 0)) 1 ∧
      ¬Legality Inst.sfenceVma userCpu (benchEntry Inst.sfenceVma { systemOp := .sfenceVma } 0)
        (O3.executeOne userCpu (benchEntry Inst.sfenceVma { systemOp := .sfenceVma } 0)
          (benchRob (benchEntry Inst.sfenceVma { systemOp := .sfenceVma } 0))) ∧
      ¬Legality Inst.sfenceVma userCpu (benchEntry Inst.sfenceVma { systemOp := .sfenceVma } 0)
        (InOrder.executeEntry userCpu (benchEntry Inst.sfenceVma { systemOp := .sfenceVma } 0)
          (benchRob (benchEntry Inst.sfenceVma { systemOp := .sfenceVma } 0)) 0) := by
  refine ⟨⟨rfl, rfl, rfl, rfl, rfl, by decide, rfl⟩, ⟨rfl, rfl, rfl⟩, fun h => ?_, fun h => ?_⟩
  · have hr := (h.valid (.sfenceVma 0 0) (by decide) nofun).mpr (.inl rfl)
    exact absurd hr (by unfold Raises; decide)
  · have hr := (h.valid (.sfenceVma 0 0) (by decide) nofun).mpr (.inl rfl)
    exact absurd hr (by unfold Raises; decide)

end Rvsim
