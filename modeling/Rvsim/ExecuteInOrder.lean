/-
# Execution in the in-order backend

`backend/inorder/execute.rs`: the second copy of the execution semantics,
over a bundle of instructions that stops at the first one that flushes. It
has its own operand selection, ALU dispatch, CSR checks, system handling and
branch resolution, so they are written out here a second time too.

Key definitions:
  - `InOrder.computeAlu`, `InOrder.executeCsr`, `InOrder.executeSystem`
  - `InOrder.executeEntry`, `InOrder.executeInorder`
-/
import Rvsim.ExecuteO3

namespace Rvsim

namespace InOrder

variable {U : Type} [Units U]

def computeAlu (U : Type) [Units U] (op : AluOp) (a b c : U64) (isRv32 : Bool) : U64 × U8 :=
  match op with
  | .fCvtSW | .fCvtSL | .fCvtSWU | .fCvtSLU | .fCvtSD | .fCvtDS => Units.fpuConvert U op a isRv32
  | .fMvToF => (if isRv32 then 0xFFFFFFFF00000000 ||| (a.setWidth 32).setWidth 64 else a, 0)
  | .fAdd | .fSub | .fMul | .fDiv | .fSqrt | .fMin | .fMax | .fMAdd | .fMSub | .fNMAdd | .fNMSub
  | .fSgnJ | .fSgnJN | .fSgnJX | .fEq | .fLt | .fLe | .fClass | .fCvtWS | .fCvtWUS | .fCvtLS
  | .fCvtLUS | .fMvToX => Units.fpuExecuteFull U op a b c isRv32
  | _ => (Alu.execute op a b isRv32, 0)

/-- No physical registers here: `rd_phys` is the default. -/
def mkResult (id : RenameIssueEntry) (alu storeData : U64) (fpFlags : U8 := 0)
    (sfenceVma : Option SfenceVmaInfo := none) : ExMem1Entry where
  robTag := id.robTag
  pc := id.pc
  inst := id.inst
  instSize := id.instSize
  rd := id.rd
  rdPhys := 0
  alu := alu
  storeData := storeData
  ctrl := id.ctrl
  trap := none
  fpFlags := fpFlags
  sfenceVma := sfenceVma

def illegal (cpu : Cpu U) (id : RenameIssueEntry) (rob : Rob) : ExecOut U :=
  ⟨mkResult id 0 0, true, cpu, rob.fault id.robTag (.illegalInstruction id.inst)⟩

/-! ### CSR instructions -/

/-- Counter CSRs need their enable bit below M-mode. -/
def counterDenied (cpu : Cpu U) (a : CsrAddr) : Bool :=
  let denied (bit : Nat) : Bool :=
    let mask : U64 := 1 <<< bit
    match cpu.privilege with
    | .supervisor => cpu.csrs.mcounteren &&& mask == 0
    | .user => cpu.csrs.mcounteren &&& mask == 0 || cpu.csrs.scounteren &&& mask == 0
    | .machine => false
  if a = Csr.cycle then denied 0
  else if a = Csr.time then denied 1
  else if a = Csr.instret then denied 2
  else false

def wouldWrite (op : CsrOp) (rs1 : RegIdx) : Bool :=
  match op with
  | .rw | .rwi => true
  | .rs | .rc => !rs1.isZero
  | .rsi | .rci => rs1 != 0
  | .none => false

/-- Pending FP flags also sit in the pipeline latches and in this bundle (`held`). -/
def drainFpFlags (cpu : Cpu U) (id : RenameIssueEntry) (rob : Rob) (held : U8) : Cpu U × Rob :=
  if id.ctrl.csrAddr = Csr.fflags ∨ id.ctrl.csrAddr = Csr.fcsr ∨ id.ctrl.csrAddr = Csr.frm then
    let (acc, rob) := rob.drainFpFlagsBefore id.robTag
    ({ cpu with
        csrs := { cpu.csrs with fflags := cpu.csrs.fflags ||| (acc ||| held).setWidth 64 } }, rob)
  else (cpu, rob)

/-- Every CSR access refetches what follows, a pure read too. -/
def executeCsr (cpu : Cpu U) (id : RenameIssueEntry) (rob : Rob) (held : U8) : ExecOut U :=
  let a := id.ctrl.csrAddr
  if a = Csr.satp ∧ cpu.privilege = .supervisor ∧ (cpu.csrs.mstatus >>> 20) &&& 1 ≠ 0 then
    illegal cpu id rob
  else if counterDenied cpu a then illegal cpu id rob
  else if cpu.privilege.toU8 < a.privilegeLevel.setWidth 8 then illegal cpu id rob
  else if a.isReadOnly ∧ wouldWrite id.ctrl.csrOp id.rs1 then illegal cpu id rob
  else
    let (cpu, rob) := drainFpFlags cpu id rob held
    let old := cpu.csrRead a
    let src : U64 :=
      match id.ctrl.csrOp with
      | .rwi | .rsi | .rci => id.rs1.setWidth 64
      | _ => id.rv1
    let new :=
      match id.ctrl.csrOp with
      | .rw | .rwi => src
      | .rs | .rsi => old ||| src
      | .rc | .rci => old &&& ~~~src
      | .none => old
    let rob :=
      if wouldWrite id.ctrl.csrOp id.rs1 then rob.setCsrUpdate id.robTag ⟨a, old, new, false⟩ else rob
    ⟨mkResult id old id.rv2, true,
      { cpu with pc := id.pc + id.instSize.asU64, redirectPending := true }, rob⟩

/-! ### System instructions -/

/-- The system branch; `none` means the code falls through to the ALU path. -/
def executeSystem (cpu : Cpu U) (id : RenameIssueEntry) (rob : Rob) (held : U8) :
    Option (ExecOut U) :=
  match id.ctrl.systemOp with
  | .mret =>
    if cpu.privilege ≠ .machine then some (illegal cpu id rob)
    else some ⟨mkResult id 0 0, true, cpu, rob⟩
  | .sret =>
    if cpu.privilege = .user then some (illegal cpu id rob)
    else if cpu.privilege = .supervisor ∧ (cpu.csrs.mstatus >>> 22) &&& 1 ≠ 0 then
      some (illegal cpu id rob)
    else some ⟨mkResult id 0 0, true, cpu, rob⟩
  | .wfi =>
    if cpu.privilege = .user ∨
        (cpu.privilege = .supervisor ∧ (cpu.csrs.mstatus >>> 21) &&& 1 ≠ 0) then
      some (illegal cpu id rob)
    else some ⟨mkResult id 0 0, true, cpu, rob⟩
  | .sfenceVma =>
    if cpu.privilege = .supervisor ∧ (cpu.csrs.mstatus >>> 20) &&& 1 ≠ 0 then
      some (illegal cpu id rob)
    else
      some
        ⟨mkResult id 0 id.rv2 0 (some ⟨id.rs1, id.rs2, id.rv1, id.rv2⟩), true,
          { cpu with pc := id.pc + id.instSize.asU64, redirectPending := true }, rob⟩
  | _ =>
    if id.inst = Inst.ecall then
      let t : Trap :=
        match cpu.privilege with
        | .user => .environmentCallFromUMode
        | .supervisor => .environmentCallFromSMode
        | .machine => .environmentCallFromMMode
      some ⟨mkResult id 0 0, true, cpu, rob.fault id.robTag t⟩
    else if id.ctrl.csrOp ≠ .none then some (executeCsr cpu id rob held)
    else none

/-! ### ALU, FPU, branches and jumps -/

def executeBranch (cpu : Cpu U) (id : RenameIssueEntry) (rob : Rob) (a b : U64) :
    Bool × Cpu U × Rob :=
  let f := Inst.funct3 id.inst
  let taken : Bool :=
    if f = 0 then a == b
    else if f = 1 then a != b
    else if f = 4 then a.slt b
    else if f = 5 then b.sle a
    else if f = 6 then a.ult b
    else if f = 7 then b.ule a
    else false
  let target := id.pc + id.imm
  let fallthrough := id.pc + id.instSize.asU64
  let predicted := if id.predTaken then id.predTarget else fallthrough
  let next := if taken then target else fallthrough
  let mispredicted := predicted != next
  let rob := rob.setBpUpdate id.robTag id.pc ⟨taken, mispredicted⟩ (if taken then some target else none)
  let cpu := { cpu with units := Units.resolveBranch cpu.units id.pc taken target mispredicted }
  (mispredicted, if mispredicted then { cpu with pc := next, redirectPending := true } else cpu, rob)

def executeJump (cpu : Cpu U) (id : RenameIssueEntry) (rob : Rob) : Bool × Cpu U × Rob :=
  let target :=
    if Inst.opcode id.inst = Op.jalr then (id.rv1 + id.imm) &&& ~~~1 else id.pc + id.imm
  let predicted := if id.predTaken then id.predTarget else id.pc + id.instSize.asU64
  let mispredicted := target != predicted
  let rob := rob.setBpTarget id.robTag target
  let cpu := { cpu with units := Units.resolveBranch cpu.units id.pc true target mispredicted }
  (mispredicted, if mispredicted then { cpu with pc := target, redirectPending := true } else cpu, rob)

def executeRest (cpu : Cpu U) (id : RenameIssueEntry) (rob : Rob) : ExecOut U :=
  let a :=
    match id.ctrl.aSrc with
    | .reg1 => id.rv1
    | .pc => id.pc
    | .zero => 0
  let b :=
    match id.ctrl.bSrc with
    | .reg2 => id.rv2
    | .imm => id.imm
    | .zero => 0
  let isFp := id.ctrl.fpRegWrite || id.ctrl.rs1Fp || id.ctrl.rs2Fp || id.ctrl.rs3Fp
  if (cpu.csrs.mstatus &&& Csr.mstatusFs) >>> 13 = 0 ∧ isFp then illegal cpu id rob
  else
    let (alu, flags) := computeAlu U id.ctrl.alu a b id.rv3 id.ctrl.isRv32
    let (flush, cpu, rob) :=
      match id.ctrl.controlFlow with
      | .branch => executeBranch cpu id rob a b
      | .jump => executeJump cpu id rob
      | .sequential => (false, cpu, rob)
    ⟨mkResult id alu id.rv2 flags, flush, cpu, rob⟩

/-- One instruction of the bundle; `held` are the FP flags in flight before it. -/
def executeEntry (cpu : Cpu U) (id : RenameIssueEntry) (rob : Rob) (held : U8) : ExecOut U :=
  match id.trap with
  | some t => ⟨mkResult id 0 0, true, cpu, rob.fault id.robTag t⟩
  | none =>
    match id.ctrl.systemOp with
    | .fenceI => ⟨mkResult id 0 0, true, { cpu with pc := id.pc + id.instSize.asU64, redirectPending := true }, rob⟩
    | .none | .fence => executeRest cpu id rob
    | _ => (executeSystem cpu id rob held).getD (executeRest cpu id rob)

/-- The bundle loop: FP flags accumulate, a flush drops the rest. -/
def executeBundle (inflight : U8) : (batch : U8) → Cpu U → Rob → List RenameIssueEntry →
    List ExMem1Entry × Bool × Cpu U × Rob
  | _, cpu, rob, [] => ([], false, cpu, rob)
  | batch, cpu, rob, id :: rest =>
    let o := executeEntry cpu id rob (inflight ||| batch)
    if o.flush then ([o.result], true, o.cpu, o.rob)
    else
      let (rs, flush, cpu, rob) := executeBundle inflight (batch ||| o.result.fpFlags) o.cpu o.rob rest
      (o.result :: rs, flush, cpu, rob)

def executeInorder (cpu : Cpu U) (entries : List RenameIssueEntry) (rob : Rob) (inflight : U8) :
    List ExMem1Entry × Bool × Cpu U × Rob :=
  executeBundle inflight 0 cpu rob entries

end InOrder

end Rvsim
