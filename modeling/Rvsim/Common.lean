/-
# Words, traps, control signals and latch entries

The vocabulary the pipeline model is written in: fixed-width words, the
traps of `common/error.rs`, the control signals of `pipeline/signals.rs`
and the entries of `pipeline/latches.rs`. Names are the simulator's.

Not carried: what only traces and statistics read (`exception_stage`,
`ghr_snapshot`, `ras_snapshot`, the counters of `SimStats` other than the
two that CSRs expose). The branch predictor is a parameter (`Rvsim.Units`),
so the snapshots it takes of itself stay on its side.
-/
import Mathlib.Data.BitVec
import Mathlib.Tactic.Common

namespace Rvsim

abbrev U8 := BitVec 8
abbrev U16 := BitVec 16
abbrev U32 := BitVec 32
abbrev U64 := BitVec 64
abbrev PhysAddr := BitVec 64
abbrev VirtAddr := BitVec 64

/-- Architectural register index: five bits, `x0`/`f0` to `x31`/`f31`. -/
abbrev RegIdx := BitVec 5

/-- A physical register; `0` is hardwired zero and also stands for "no destination". -/
abbrev PhysReg := BitVec 16

/-- CSR address: twelve bits. -/
abbrev CsrAddr := BitVec 12

/-- Tag of an in-flight instruction; wraps, and skips `0`. -/
abbrev RobTag := BitVec 32

def RegIdx.isZero (r : RegIdx) : Bool := r == 0

def CsrAddr.privilegeLevel (a : CsrAddr) : BitVec 2 := (a >>> 8).setWidth 2

def CsrAddr.isReadOnly (a : CsrAddr) : Bool := (a >>> 10).setWidth 2 == 3#2

inductive InstSize where
  | compressed
  | standard
  deriving DecidableEq, Repr, Inhabited

def InstSize.asU64 : InstSize → U64
  | .compressed => 2
  | .standard => 4

inductive PrivilegeMode where
  | user
  | supervisor
  | machine
  deriving DecidableEq, Repr, Inhabited

/-- `User = 0`, `Supervisor = 1`, `Machine = 3`. -/
def PrivilegeMode.toU8 : PrivilegeMode → U8
  | .user => 0
  | .supervisor => 1
  | .machine => 3

def PrivilegeMode.fromU8 (v : U8) : PrivilegeMode :=
  if v = 0 then .user else if v = 1 then .supervisor else .machine

inductive AccessType where
  | fetch
  | read
  | write
  deriving DecidableEq, Repr

inductive Trap where
  | instructionAddressMisaligned (a : U64)
  | instructionAccessFault (a : U64)
  | illegalInstruction (i : U32)
  | breakpoint (pc : U64)
  | loadAddressMisaligned (a : U64)
  | loadAccessFault (a : U64)
  | storeAddressMisaligned (a : U64)
  | storeAccessFault (a : U64)
  | environmentCallFromUMode
  | environmentCallFromSMode
  | environmentCallFromMMode
  | instructionPageFault (a : U64)
  | loadPageFault (a : U64)
  | storePageFault (a : U64)
  | userSoftwareInterrupt
  | supervisorSoftwareInterrupt
  | machineSoftwareInterrupt
  | machineTimerInterrupt
  | supervisorTimerInterrupt
  | machineExternalInterrupt
  | supervisorExternalInterrupt
  | userExternalInterrupt
  | requestedTrap (c : U64)
  | doubleFault (a : U64)
  deriving DecidableEq, Repr

/-! ### Control signals -/

inductive AluOp where
  | add | sub | sll | slt | sltu | xor | srl | sra | or | and
  | mul | mulh | mulhsu | mulhu | div | divu | rem | remu
  | fAdd | fSub | fMul | fDiv | fSqrt | fMin | fMax
  | fMAdd | fMSub | fNMAdd | fNMSub
  | fCvtWS | fCvtLS | fCvtSW | fCvtSL | fCvtWUS | fCvtLUS | fCvtSWU | fCvtSLU | fCvtSD | fCvtDS
  | fSgnJ | fSgnJN | fSgnJX | fEq | fLt | fLe | fClass | fMvToX | fMvToF
  deriving DecidableEq, Repr, Inhabited

inductive AtomicOp where
  | none | lr | sc | swap | add | xor | and | or | min | max | minu | maxu
  deriving DecidableEq, Repr, Inhabited

inductive MemWidth where
  | nop | byte | half | word | double
  deriving DecidableEq, Repr, Inhabited

/-- `width_to_bytes`. -/
def MemWidth.bytes : MemWidth → Nat
  | .nop => 0
  | .byte => 1
  | .half => 2
  | .word => 4
  | .double => 8

inductive OpASrc where
  | reg1 | pc | zero
  deriving DecidableEq, Repr, Inhabited

inductive OpBSrc where
  | imm | reg2 | zero
  deriving DecidableEq, Repr, Inhabited

inductive ControlFlow where
  | sequential | branch | jump
  deriving DecidableEq, Repr, Inhabited

inductive SystemOp where
  | none | mret | sret | wfi | fence | fenceI | sfenceVma | system
  deriving DecidableEq, Repr, Inhabited

inductive CsrOp where
  | none | rw | rs | rc | rwi | rsi | rci
  deriving DecidableEq, Repr, Inhabited

/-- `ControlSignals`, with its `Default`. -/
structure ControlSignals where
  regWrite : Bool := false
  fpRegWrite : Bool := false
  memRead : Bool := false
  memWrite : Bool := false
  controlFlow : ControlFlow := .sequential
  isRv32 : Bool := false
  width : MemWidth := .nop
  signedLoad : Bool := false
  alu : AluOp := .add
  aSrc : OpASrc := .reg1
  bSrc : OpBSrc := .imm
  systemOp : SystemOp := .none
  csrOp : CsrOp := .none
  csrAddr : CsrAddr := 0
  rs1Fp : Bool := false
  rs2Fp : Bool := false
  rs3Fp : Bool := false
  atomicOp : AtomicOp := .none
  deriving DecidableEq, Repr, Inhabited

/-- The instruction goes through the memory pipeline. -/
def ControlSignals.isMem (c : ControlSignals) : Bool :=
  c.memRead || c.memWrite || c.atomicOp != .none

/-- A branch or a jump, the instructions that take a checkpoint. -/
def ControlSignals.isBranchOrJump (c : ControlSignals) : Bool :=
  c.controlFlow == .branch || c.controlFlow == .jump

/-! ### Records deferred to commit -/

structure PteUpdate where
  pteAddr : PhysAddr
  pteValue : U64
  deriving DecidableEq, Repr

structure SfenceVmaInfo where
  rs1Idx : RegIdx
  rs2Idx : RegIdx
  rs1Val : U64
  rs2Val : U64
  deriving DecidableEq, Repr

inductive LrScRecord where
  | lr (paddr : PhysAddr)
  | sc (paddr : PhysAddr)
  deriving DecidableEq, Repr

structure CsrUpdate where
  addr : CsrAddr
  oldVal : U64
  newVal : U64
  applied : Bool
  deriving DecidableEq, Repr

structure TranslationResult where
  paddr : PhysAddr
  cycles : Nat
  trap : Option Trap
  pteUpdate : Option PteUpdate
  deriving DecidableEq, Repr

/-! ### Latch entries -/

structure Fetch1Fetch2Entry where
  pc : U64
  paddr : PhysAddr
  predTaken : Bool
  predTarget : U64
  trap : Option Trap
  deriving DecidableEq, Repr

structure IfIdEntry where
  pc : U64
  inst : U32
  instSize : InstSize
  predTaken : Bool
  predTarget : U64
  trap : Option Trap
  deriving DecidableEq, Repr

/-- Decode to rename. The register values decode reads (`rv1` to `rv3`) are
dropped by rename, so they are not carried. -/
structure IdExEntry where
  pc : U64
  inst : U32
  instSize : InstSize
  rs1 : RegIdx := 0
  rs2 : RegIdx := 0
  rs3 : RegIdx := 0
  rd : RegIdx := 0
  imm : U64 := 0
  ctrl : ControlSignals := {}
  trap : Option Trap
  predTaken : Bool := false
  predTarget : U64 := 0
  deriving DecidableEq, Repr

structure RenameIssueEntry where
  robTag : RobTag
  pc : U64
  inst : U32
  instSize : InstSize
  rs1 : RegIdx
  rs2 : RegIdx
  rs3 : RegIdx
  rd : RegIdx
  imm : U64
  rv1 : U64
  rv2 : U64
  rv3 : U64
  rs1Tag : Option RobTag
  rs2Tag : Option RobTag
  rs3Tag : Option RobTag
  rs1Phys : PhysReg
  rs2Phys : PhysReg
  rs3Phys : PhysReg
  rdPhys : PhysReg
  ctrl : ControlSignals
  trap : Option Trap
  predTaken : Bool
  predTarget : U64
  deriving DecidableEq, Repr

structure ExMem1Entry where
  robTag : RobTag
  pc : U64
  inst : U32
  instSize : InstSize
  rd : RegIdx
  rdPhys : PhysReg
  alu : U64
  storeData : U64
  ctrl : ControlSignals
  trap : Option Trap
  fpFlags : U8
  sfenceVma : Option SfenceVmaInfo
  deriving DecidableEq, Repr

structure Mem1Mem2Entry where
  robTag : RobTag
  pc : U64
  inst : U32
  instSize : InstSize
  rd : RegIdx
  rdPhys : PhysReg
  alu : U64
  vaddr : VirtAddr
  paddr : PhysAddr
  storeData : U64
  ctrl : ControlSignals
  trap : Option Trap
  fpFlags : U8
  completeCycle : Nat
  pteUpdate : Option PteUpdate
  sfenceVma : Option SfenceVmaInfo
  deriving DecidableEq, Repr

structure Mem2WbEntry where
  robTag : RobTag
  pc : U64
  inst : U32
  instSize : InstSize
  rd : RegIdx
  rdPhys : PhysReg
  alu : U64
  loadData : U64
  ctrl : ControlSignals
  trap : Option Trap
  fpFlags : U8
  pteUpdate : Option PteUpdate
  sfenceVma : Option SfenceVmaInfo
  lrSc : Option LrScRecord
  deriving DecidableEq, Repr

end Rvsim
