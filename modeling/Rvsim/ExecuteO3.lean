/-
# Execution in the out-of-order backend

`backend/o3/execute.rs`: one issued instruction is executed, its trap, CSR
update and branch outcome recorded in the reorder buffer, and the entry that
goes on to the memory stages returned with a flag that asks for a flush of
everything younger.

Key definitions:
  - `O3.computeAlu`, `O3.executeCsr`, `O3.executeSystem`, `O3.executeOne`
-/
import Rvsim.Alu
import Rvsim.Cpu
import Rvsim.Decode

namespace Rvsim

/-- Condition of a conditional branch, from `funct3` of the word. -/
def branchTaken (inst : U32) (a b : U64) : Bool :=
  let f := Inst.funct3 inst
  if f = 0 then a == b
  else if f = 1 then a != b
  else if f = 4 then a.slt b
  else if f = 5 then !a.slt b
  else if f = 6 then a.ult b
  else if f = 7 then !a.ult b
  else false

/-- What execution hands back: the entry, the flush request, the core and the buffer. -/
structure ExecOut (U : Type) where
  result : ExMem1Entry
  flush : Bool
  cpu : Cpu U
  rob : Rob

namespace O3

variable {U : Type} [Units U]

def opA (id : RenameIssueEntry) : U64 :=
  match id.ctrl.aSrc with
  | .reg1 => id.rv1
  | .pc => id.pc
  | .zero => 0

def opB (id : RenameIssueEntry) : U64 :=
  match id.ctrl.bSrc with
  | .reg2 => id.rv2
  | .imm => id.imm
  | .zero => 0

/-- Conversions that run on the host's own casts. -/
def isHostConvert : AluOp → Bool
  | .fCvtSW | .fCvtSL | .fCvtSWU | .fCvtSLU | .fCvtSD | .fCvtDS => true
  | _ => false

def isFpOp : AluOp → Bool
  | .fAdd | .fSub | .fMul | .fDiv | .fSqrt | .fMin | .fMax | .fMAdd | .fMSub | .fNMAdd | .fNMSub
  | .fSgnJ | .fSgnJN | .fSgnJX | .fEq | .fLt | .fLe | .fClass | .fCvtWS | .fCvtWUS | .fCvtLS
  | .fCvtLUS | .fMvToX => true
  | _ => false

def computeAlu (U : Type) [Units U] (op : AluOp) (a b c : U64) (isRv32 : Bool) : U64 × U8 :=
  if isHostConvert op then Units.fpuConvert U op a isRv32
  else if op = .fMvToF then
    (if isRv32 then 0xFFFFFFFF00000000 ||| (a.setWidth 32).setWidth 64 else a, 0)
  else if isFpOp op then Units.fpuExecuteFull U op a b c isRv32
  else (Alu.execute op a b isRv32, 0)

def mkResult (id : RenameIssueEntry) (alu storeData : U64) (fpFlags : U8 := 0)
    (sfenceVma : Option SfenceVmaInfo := none) : ExMem1Entry where
  robTag := id.robTag
  pc := id.pc
  inst := id.inst
  instSize := id.instSize
  rd := id.rd
  rdPhys := id.rdPhys
  alu := alu
  storeData := storeData
  ctrl := id.ctrl
  trap := none
  fpFlags := fpFlags
  sfenceVma := sfenceVma

/-- The entry faults: `IllegalInstruction(inst)` is recorded and everything younger goes. -/
def illegal (cpu : Cpu U) (id : RenameIssueEntry) (rob : Rob) (storeData : U64 := 0) : ExecOut U :=
  ⟨mkResult id 0 storeData, true, cpu, rob.fault id.robTag (.illegalInstruction id.inst)⟩

/-- `cpu.pc := pc; cpu.redirect_pending := true`. -/
def redirect (cpu : Cpu U) (pc : U64) : Cpu U := { cpu with pc := pc, redirectPending := true }

def fallThrough (id : RenameIssueEntry) : U64 := id.pc + id.instSize.asU64

/-- Bit of `mcounteren`/`scounteren` that gates a counter CSR. -/
def counterBit (a : CsrAddr) : Option Nat :=
  if a = Csr.cycle then some 0
  else if a = Csr.time then some 1
  else if a = Csr.instret then some 2
  else none

def counterDenied (csrs : Csrs) (priv : PrivilegeMode) (a : CsrAddr) : Bool :=
  match counterBit a with
  | none => false
  | some bit =>
    let mask : U64 := 1 <<< bit
    match priv with
    | .supervisor => csrs.mcounteren &&& mask == 0
    | .user => csrs.mcounteren &&& mask == 0 || csrs.scounteren &&& mask == 0
    | .machine => false

/-- CSRRS/CSRRC with `x0`, and the immediate forms with zero, do not write. -/
def wouldWrite (op : CsrOp) (rs1 : RegIdx) : Bool :=
  match op with
  | .rw | .rwi => true
  | .rs | .rc | .rsi | .rci => !rs1.isZero
  | .none => false

def csrSrc (op : CsrOp) (rs1 : RegIdx) (fwdA : U64) : U64 :=
  match op with
  | .rwi | .rsi | .rci => rs1.setWidth 64
  | _ => fwdA

def csrNew (op : CsrOp) (old src : U64) : U64 :=
  match op with
  | .rw | .rwi => src
  | .rs | .rsi => old ||| src
  | .rc | .rci => old &&& ~~~src
  | .none => old

def isFpCsr (a : CsrAddr) : Bool := a == Csr.fflags || a == Csr.fcsr || a == Csr.frm

/-- `TVM` makes `satp` accesses and SFENCE.VMA illegal in S-mode. -/
def tvmTrap (cpu : Cpu U) : Bool :=
  cpu.privilege == .supervisor && (cpu.csrs.mstatus >>> 20) &&& 1 != 0

/-- The checks of `execute_csr`, in its order; any of them is an illegal instruction. -/
def csrIllegal (cpu : Cpu U) (id : RenameIssueEntry) : Bool :=
  (id.ctrl.csrAddr == Csr.satp && tvmTrap cpu) ||
  counterDenied cpu.csrs cpu.privilege id.ctrl.csrAddr ||
  decide (cpu.privilege.toU8 < id.ctrl.csrAddr.privilegeLevel.setWidth 8) ||
  (id.ctrl.csrAddr.isReadOnly && wouldWrite id.ctrl.csrOp id.rs1)

/-- A read of the FP CSRs first takes the flags older instructions still hold. -/
def drainFpFlags (cpu : Cpu U) (id : RenameIssueEntry) (rob : Rob) : Cpu U × Rob :=
  if isFpCsr id.ctrl.csrAddr then
    let (acc, rob) := rob.drainFpFlagsBefore id.robTag
    ({ cpu with csrs := { cpu.csrs with fflags := cpu.csrs.fflags ||| acc.setWidth 64 } }, rob)
  else (cpu, rob)

/-- A write is recorded for commit and refetches what follows; a pure read does not flush. -/
def executeCsr (cpu : Cpu U) (id : RenameIssueEntry) (rob : Rob) (fwdA storeData : U64) : ExecOut U :=
  if csrIllegal cpu id then illegal cpu id rob
  else
    let (cpu, rob) := drainFpFlags cpu id rob
    let old := cpu.csrRead id.ctrl.csrAddr
    let new := csrNew id.ctrl.csrOp old (csrSrc id.ctrl.csrOp id.rs1 fwdA)
    if wouldWrite id.ctrl.csrOp id.rs1 then
      ⟨mkResult id old storeData, true, redirect cpu (fallThrough id),
        rob.setCsrUpdate id.robTag ⟨id.ctrl.csrAddr, old, new, false⟩⟩
    else ⟨mkResult id old storeData, false, cpu, rob⟩

def ecallTrap : PrivilegeMode → Trap
  | .user => .environmentCallFromUMode
  | .supervisor => .environmentCallFromSMode
  | .machine => .environmentCallFromMMode

def executeSystem (cpu : Cpu U) (id : RenameIssueEntry) (rob : Rob) (fwdA storeData : U64) : ExecOut U :=
  match id.ctrl.systemOp with
  | .mret =>
    if cpu.privilege ≠ .machine then illegal cpu id rob else ⟨mkResult id 0 0, true, cpu, rob⟩
  | .sret =>
    if cpu.privilege = .user then illegal cpu id rob
    else if cpu.privilege = .supervisor ∧ (cpu.csrs.mstatus >>> 22) &&& 1 ≠ 0 then illegal cpu id rob
    else ⟨mkResult id 0 0, true, cpu, rob⟩
  | .wfi =>
    if cpu.privilege = .user ∨ (cpu.privilege = .supervisor ∧ (cpu.csrs.mstatus >>> 21) &&& 1 ≠ 0) then
      illegal cpu id rob
    else ⟨mkResult id 0 0, true, cpu, rob⟩
  | .sfenceVma =>
    if tvmTrap cpu then illegal cpu id rob storeData
    else ⟨mkResult id 0 storeData 0 (some ⟨id.rs1, id.rs2, fwdA, storeData⟩), false, cpu, rob⟩
  | _ =>
    if id.inst = Inst.ecall then
      ⟨mkResult id 0 0, true, cpu, rob.fault id.robTag (ecallTrap cpu.privilege)⟩
    else if id.ctrl.csrOp ≠ .none then executeCsr cpu id rob fwdA storeData
    -- any other SYSTEM word: flush requested, no redirect supplied
    else ⟨mkResult id 0 0, true, cpu, rob⟩

def isFpInst (c : ControlSignals) : Bool := c.fpRegWrite || c.rs1Fp || c.rs2Fp || c.rs3Fp

def fsOff (cpu : Cpu U) : Bool := (cpu.csrs.mstatus &&& Csr.mstatusFs) >>> 13 == 0

/-- Resolve a conditional branch; returns whether it was mispredicted. -/
def executeBranch (cpu : Cpu U) (id : RenameIssueEntry) (rob : Rob) (a b : U64) :
    Bool × Cpu U × Rob :=
  let taken := branchTaken id.inst a b
  let target := id.pc + id.imm
  let predicted := if id.predTaken then id.predTarget else fallThrough id
  let next := if taken then target else fallThrough id
  let mispredicted := predicted != next
  let rob := rob.setBpUpdate id.robTag id.pc ⟨taken, mispredicted⟩ (if taken then some target else none)
  let cpu := { cpu with units := Units.resolveBranch cpu.units id.pc taken target mispredicted }
  (mispredicted, if mispredicted then redirect cpu next else cpu, rob)

def jumpTarget (id : RenameIssueEntry) (fwdA : U64) : U64 :=
  if Inst.opcode id.inst = Op.jalr then (fwdA + id.imm) &&& ~~~1 else id.pc + id.imm

def executeJump (cpu : Cpu U) (id : RenameIssueEntry) (rob : Rob) (fwdA : U64) :
    Bool × Cpu U × Rob :=
  let target := jumpTarget id fwdA
  let predicted := if id.predTaken then id.predTarget else fallThrough id
  let mispredicted := target != predicted
  let rob := rob.setBpTarget id.robTag target
  let cpu := { cpu with units := Units.resolveBranch cpu.units id.pc true target mispredicted }
  (mispredicted, if mispredicted then redirect cpu target else cpu, rob)

/-- The control-flow part of an instruction that is not a system operation. -/
def executeControl (cpu : Cpu U) (id : RenameIssueEntry) (rob : Rob) : Bool × Cpu U × Rob :=
  match id.ctrl.controlFlow with
  | .branch => executeBranch cpu id rob (opA id) (opB id)
  | .jump => executeJump cpu id rob id.rv1
  | .sequential => (false, cpu, rob)

/-- The ALU, FPU, branch and jump path. -/
def executeRest (cpu : Cpu U) (id : RenameIssueEntry) (rob : Rob) : ExecOut U :=
  if fsOff cpu && isFpInst id.ctrl then illegal cpu id rob
  else
    let (alu, flags) := computeAlu U id.ctrl.alu (opA id) (opB id) id.rv3 id.ctrl.isRv32
    let (flush, cpu, rob) := executeControl cpu id rob
    ⟨mkResult id alu id.rv2 flags, flush, cpu, rob⟩

def executeOne (cpu : Cpu U) (id : RenameIssueEntry) (rob : Rob) : ExecOut U :=
  match id.trap with
  | some t => ⟨mkResult id 0 0, true, cpu, rob.fault id.robTag t⟩
  | none =>
    match id.ctrl.systemOp with
    | .fenceI => ⟨mkResult id 0 0, true, redirect cpu (fallThrough id), rob⟩
    | .none | .fence => executeRest cpu id rob
    | _ => executeSystem cpu id rob id.rv1 id.rv2

end O3

end Rvsim
