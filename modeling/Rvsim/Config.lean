/-
# Configuration and the initial core

The fields of `config.rs` that decide the size and timing of the pipeline,
and `Cpu::new`. Nothing validates a configuration: the sizing rules its
documentation states (`prf_gpr_size >= 32 + rob_size`, and the same for the
FP half) are the user's to keep.

Key definitions:
  - `Config`, `FuConfig`, `Cpu.new`
  - `Bench`: concrete units for runs on fixed programs
-/
import Rvsim.Cpu
import Rvsim.Rvc

namespace Rvsim

structure FuConfig where
  numIntAlu : Nat := 4
  intAluLatency : Nat := 1
  numIntMul : Nat := 1
  intMulLatency : Nat := 3
  numIntDiv : Nat := 1
  intDivLatency : Nat := 35
  numFpAdd : Nat := 2
  fpAddLatency : Nat := 4
  numFpMul : Nat := 2
  fpMulLatency : Nat := 5
  numFpFma : Nat := 2
  fpFmaLatency : Nat := 5
  numFpDivSqrt : Nat := 1
  fpDivSqrtLatency : Nat := 21
  numBranch : Nat := 2
  branchLatency : Nat := 1
  numMem : Nat := 2
  memLatency : Nat := 1
  deriving DecidableEq, Repr

inductive BackendType where
  | inOrder
  | outOfOrder
  deriving DecidableEq, Repr

structure Config where
  width : Nat := 1
  backend : BackendType := .inOrder
  robSize : Nat := 64
  storeBufferSize : Nat := 16
  issueQueueSize : Nat := 32
  prfGprSize : Nat := 256
  prfFprSize : Nat := 128
  loadQueueSize : Nat := 32
  loadPorts : Nat := 2
  storePorts : Nat := 1
  fuConfig : FuConfig := {}
  checkpointCount : Nat := 32
  mshrCount : Nat := 0
  l1dLineBytes : Nat := 64
  l1iLineBytes : Nat := 64
  startPc : U64 := 0x80000000
  directMode : Bool := true
  initialSp : Option U64 := none
  ramBase : U64 := 0x80000000
  ramSize : U64 := 0x8000000
  misa : U64 := Csr.misaDefault
  clintDivider : U64 := 10
  misalignedAccessTrap : Bool := false
  deriving DecidableEq, Repr

/-- `Cpu::new` around RAM contents `mem` and the other units. -/
def Cpu.new {U : Type} (cfg : Config) (mem : Mem) (units : U) : Cpu U :=
  let mstatus :=
    if cfg.directMode then Csr.mstatusDefaultRv64 ||| Csr.mstatusFsInit else Csr.mstatusDefaultRv64
  { regs :=
      if cfg.directMode then
        RegisterFile.new.write 2 (cfg.initialSp.getD (cfg.ramBase + 0x1000000))
      else RegisterFile.new
    pc := cfg.startPc
    csrs :=
      { mstatus
        sstatus := mstatus &&& Csr.sstatusMask
        misa := cfg.misa
        stimecmp := BitVec.allOnes 64 }
    privilege := .machine
    loadReservation := none
    mem := mem
    ramStart := cfg.ramBase
    ramEnd := cfg.ramBase + cfg.ramSize
    htifRange := none
    pmp := Pmp.new
    l1dMshrs := MshrFile.new cfg.mshrCount cfg.l1dLineBytes
    cacheBase := cfg.ramBase
    pipelineWidth := cfg.width
    iCacheLineBytes := max cfg.l1iLineBytes 1
    exitCode := none
    cycles := 0
    instructionsRetired := 0
    directMode := cfg.directMode
    clintDivider := cfg.clintDivider
    wfiWaiting := false
    wfiPc := 0
    committedNextPc := cfg.startPc
    redirectPending := false
    misalignedAccessTrap := cfg.misalignedAccessTrap
    swSeip := false
    units := units }

/-! ### Units for runs on fixed programs -/

/-- Identity translation, caches off, no device, a fixed branch target buffer. -/
structure Bench where
  btb : List (U64 × U64) := []
  deriving DecidableEq, Repr

instance : Units Bench where
  translateWithPmp u _ va _ _ _ _ := (⟨va, 0, none, none⟩, u)
  isValidAddress _ _ := true
  busRead u _ _ := (0, u)
  busWrite u m _ _ _ := (u, m)
  busTick u m := ((false, false, false, false), u, m)
  checkExit _ := none
  simulateMemoryAccess u _ _ := (0, u)
  simulateL1dMissLatency u _ _ := (0, u)
  l1dAccessCheck u _ _ := (true, u)
  l1dLatency _ := 0
  l1iEnabled _ := false
  predictBranch u _ := ((false, none), u)
  predictBtb u pc := ((u.btb.find? fun e => e.1 == pc).map (·.2), u)
  predictReturn u := (none, u)
  mdpDispatch u _ _ isLoad _ := (if isLoad then .waitAll else .none, u)
  mdpStoreResolved u _ := (none, u)
  fpuExecuteFull _ a _ _ _ := (a, 0)
  fpuConvert _ a _ := (a, 0)
  expand := Rvc.expand

end Rvsim
