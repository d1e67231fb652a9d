/-
# The core: architectural state, CSR access, traps, memory access

`core/cpu/*.rs` and `units/cache/mshr.rs`. What the core is built around but
does not decide itself stands behind the class `Units`: page walks, cache
and DRAM timing, devices, the branch predictor and the memory-dependence
predictor. A unit answers from its own state and returns the next one, so an
instance can replay any answers the real unit gives over a run; nothing is
assumed of it.

Key definitions:
  - `Units`, `MshrFile`, `Cpu`
  - `Cpu.csrRead`, `Cpu.csrWrite`, `Cpu.trap`, `Cpu.doMret`, `Cpu.doSret`
  - `Cpu.translate`, `Cpu.writeStoreToMemory`
-/
import Rvsim.Arch
import Rvsim.LoadStore

namespace Rvsim

/-! ### Units outside the core -/

/-- What the memory-dependence predictor makes an entry wait for. -/
inductive MemDepState where
  | none
  | bypass
  | waitAll
  | waitFor (barrier : RobTag)
  | resolved (barrier : RobTag)
  deriving DecidableEq, Repr

class Units (U : Type) where
  -- MMU and bus
  translateWithPmp : U → Mem → VirtAddr → AccessType → PrivilegeMode → Csrs → Pmp →
    TranslationResult × U
  isValidAddress : U → PhysAddr → Bool
  busRead : U → PhysAddr → MemWidth → U64 × U
  busWrite : U → Mem → PhysAddr → MemWidth → U64 → U × Mem
  /-- `System::tick`: `(timer, msip, meip, seip)`; devices may write RAM. -/
  busTick : U → Mem → (Bool × Bool × Bool × Bool) × U × Mem
  checkExit : U → Option U64
  sfenceVma : U → SfenceVmaInfo → U := fun u _ => u
  satpFlush : U → U := id
  -- caches
  simulateMemoryAccess : U → PhysAddr → AccessType → Nat × U
  simulateL1dMissLatency : U → PhysAddr → AccessType → Nat × U
  l1dAccessCheck : U → U64 → Bool → Bool × U
  l1dLatency : U → Nat
  l1iEnabled : U → Bool
  installLine : U → U64 → Bool → U := fun u _ _ => u
  /-- Cache and write-combining traffic of one drained RAM store. -/
  storeTraffic : U → PhysAddr → U64 → Nat → U := fun u _ _ _ => u
  flushWcb : U → U := id
  invalidateL1i : U → U := id
  -- branch predictor
  predictBranch : U → U64 → (Bool × Option U64) × U
  predictBtb : U → U64 → Option U64 × U
  predictReturn : U → Option U64 × U
  /-- Repair and training after a branch or jump resolves at `pc`. -/
  resolveBranch : U → (pc : U64) → (taken : Bool) → (target : U64) → (mispredicted : Bool) → U :=
    fun u _ _ _ _ => u
  updateBranch : U → U64 → Bool → Option U64 → U := fun u _ _ _ => u
  repairToCommitted : U → U := id
  -- memory dependence predictor
  mdpTick : U → U := id
  mdpDispatch : U → (pc : U64) → RobTag → (isLoad isStore : Bool) → MemDepState × U
  mdpStoreResolved : U → RobTag → Option RobTag × U
  mdpIssued : U → RobTag → U := fun u _ => u
  mdpViolation : U → (loadPc storePc : U64) → U := fun u _ _ => u
  mdpFlush : U → U := id
  mdpFlushAfter : U → RobTag → Rob → U := fun u _ _ => u
  -- pure functions kept uninterpreted: host floating point and `rvc::expand`
  /-- `Fpu::execute_full`: result and exception flags. -/
  fpuExecuteFull : AluOp → (a b c : U64) → (isRv32 : Bool) → U64 × U8
  /-- The host conversions of `compute_alu`: result and exception flags. -/
  fpuConvert : AluOp → U64 → (isRv32 : Bool) → U64 × U8
  expand : U16 → U32

/-! ### Miss status holding registers -/

structure MshrWaiter where
  robTag : RobTag
  parkedEntry : Option Mem1Mem2Entry
  deriving DecidableEq, Repr

structure MshrEntry where
  lineAddr : U64 := 0
  completeCycle : Nat := 0
  waiters : List MshrWaiter := []
  valid : Bool := false
  isWrite : Bool := false
  deriving DecidableEq, Repr

inductive CacheResponse where
  | mshrAllocated
  | mshrCoalesced
  | mshrFull
  deriving DecidableEq, Repr

structure MshrFile where
  entries : List MshrEntry
  cap : Nat
  count : Nat
  lineBytes : Nat
  deriving DecidableEq, Repr

namespace MshrFile

def new (capacity lineBytes : Nat) : MshrFile :=
  ⟨List.replicate capacity {}, capacity, 0, if lineBytes = 0 then 64 else lineBytes⟩

def capacity (m : MshrFile) : Nat := m.cap

def lineAlign (m : MshrFile) (addr : U64) : U64 := addr &&& ~~~(BitVec.ofNat 64 m.lineBytes - 1)

/-- Add a waiter to the first entry that holds the line. -/
def coalesce (line : U64) (isWrite : Bool) (w : MshrWaiter) : List MshrEntry → List MshrEntry
  | [] => []
  | e :: rest =>
    if e.valid && e.lineAddr == line then
      { e with waiters := e.waiters ++ [w], isWrite := e.isWrite || isWrite } :: rest
    else e :: coalesce line isWrite w rest

/-- Put a new entry into the first invalid slot. -/
def allocateSlot (new : MshrEntry) : List MshrEntry → Option (List MshrEntry)
  | [] => none
  | e :: rest => if e.valid then (allocateSlot new rest).map (e :: ·) else some (new :: rest)

def request (m : MshrFile) (addr : U64) (isWrite : Bool) (missLatency currentCycle : Nat)
    (w : MshrWaiter) : CacheResponse × MshrFile :=
  let line := m.lineAlign addr
  if m.entries.any fun e => e.valid && e.lineAddr == line then
    (.mshrCoalesced, { m with entries := coalesce line isWrite w m.entries })
  else if m.count ≥ m.cap then (.mshrFull, m)
  else
    match allocateSlot ⟨line, (currentCycle + missLatency) % 2 ^ 64, [w], true, isWrite⟩ m.entries with
    | some es => (.mshrAllocated, { m with entries := es, count := m.count + 1 })
    | none => (.mshrFull, m)

def isDone (now : Nat) (e : MshrEntry) : Bool := e.valid && e.completeCycle ≤ now

def drainCompletions (m : MshrFile) (now : Nat) : List MshrEntry × MshrFile :=
  (m.entries.filter (isDone now),
    { m with
      entries := m.entries.map fun e => if isDone now e then {} else e
      count := m.count - m.entries.countP (isDone now) })

def flushAfter (m : MshrFile) (keep : RobTag) : MshrFile :=
  { m with
    entries := m.entries.map fun e =>
      if e.valid then
        { e with waiters := e.waiters.filter fun w => RobTag.isOlderOrEq w.robTag keep }
      else e }

def flush (m : MshrFile) : MshrFile :=
  { m with entries := m.entries.map fun e => { e with valid := false, waiters := [] }, count := 0 }

end MshrFile

/-! ### The core -/

structure Cpu (U : Type) where
  regs : RegisterFile
  pc : U64
  csrs : Csrs
  privilege : PrivilegeMode
  loadReservation : Option PhysAddr
  mem : Mem
  ramStart : U64
  ramEnd : U64
  htifRange : Option (U64 × U64)
  pmp : Pmp
  l1dMshrs : MshrFile
  cacheBase : U64
  pipelineWidth : Nat
  iCacheLineBytes : Nat
  exitCode : Option U64
  /-- `stats.cycles`, the `cycle` CSR. -/
  cycles : U64
  instructionsRetired : U64
  directMode : Bool
  clintDivider : U64
  wfiWaiting : Bool
  wfiPc : U64
  committedNextPc : U64
  redirectPending : Bool
  misalignedAccessTrap : Bool
  swSeip : Bool
  units : U

namespace Cpu

variable {U : Type}

/-! #### Reservation -/

/-- Reservations are kept per 64-byte granule. -/
def alignReservationAddress (a : PhysAddr) : PhysAddr := a &&& ~~~(64 - 1 : U64)

def setReservation (c : Cpu U) (a : PhysAddr) : Cpu U :=
  { c with loadReservation := some (alignReservationAddress a) }

def checkReservation (c : Cpu U) (a : PhysAddr) : Bool :=
  match c.loadReservation with
  | some r => r == alignReservationAddress a
  | none => false

def clearReservation (c : Cpu U) : Cpu U := { c with loadReservation := none }

/-! #### Traps -/

/-- `(is_interrupt, code)` of a trap. -/
def trapCode : Trap → Bool × U64
  | .instructionAddressMisaligned _ => (false, 0)
  | .instructionAccessFault _ => (false, 1)
  | .illegalInstruction _ => (false, 2)
  | .breakpoint _ => (false, 3)
  | .loadAddressMisaligned _ => (false, 4)
  | .loadAccessFault _ => (false, 5)
  | .storeAddressMisaligned _ => (false, 6)
  | .storeAccessFault _ => (false, 7)
  | .environmentCallFromUMode => (false, 8)
  | .environmentCallFromSMode => (false, 9)
  | .environmentCallFromMMode => (false, 11)
  | .instructionPageFault _ => (false, 12)
  | .loadPageFault _ => (false, 13)
  | .storePageFault _ => (false, 15)
  | .userSoftwareInterrupt => (true, 0)
  | .supervisorSoftwareInterrupt => (true, 1)
  | .machineSoftwareInterrupt => (true, 3)
  | .supervisorTimerInterrupt => (true, 5)
  | .machineTimerInterrupt => (true, 7)
  | .userExternalInterrupt => (true, 8)
  | .supervisorExternalInterrupt => (true, 9)
  | .machineExternalInterrupt => (true, 11)
  | .requestedTrap c => (false, c)
  | .doubleFault _ => (false, 18)

def trapTval : Trap → U64
  | .instructionAddressMisaligned a => a
  | .instructionAccessFault a => a
  | .loadAddressMisaligned a => a
  | .loadAccessFault a => a
  | .storeAddressMisaligned a => a
  | .storeAccessFault a => a
  | .instructionPageFault a => a
  | .loadPageFault a => a
  | .storePageFault a => a
  | .illegalInstruction i => i.setWidth 64
  | _ => 0

def causeInterruptBit : U64 := 1 <<< 63

def isEcall : Trap → Bool
  | .environmentCallFromUMode => true
  | .environmentCallFromSMode => true
  | .environmentCallFromMMode => true
  | _ => false

/-- Direct mode has no handler: every trap ends the run with an exit code. -/
def directExit (c : Cpu U) (cause : Trap) : U64 :=
  if isEcall cause then
    if c.regs.read 17 = 93 then c.regs.read 10
    else if c.regs.read 10 = 93 then c.regs.read 11
    else 1
  else if cause = .illegalInstruction 0 then 0
  else 1

/-- Set or clear `bit` of `w`. -/
def setBit (w bit : U64) (b : Bool) : U64 := if b then w ||| bit else w &&& ~~~bit

/-- Handler address: vectored only for interrupts. -/
def trapVector (tvec : U64) (isInterrupt : Bool) (code : U64) : U64 :=
  (tvec &&& ~~~3) + (if tvec &&& 1 != 0 && isInterrupt then 4 * code else 0)

def trapToS (c : Cpu U) (isInterrupt : Bool) (code tval epc : U64) : Cpu U :=
  let ss := setBit c.csrs.sstatus Csr.mstatusSpie (c.csrs.sstatus &&& Csr.mstatusSie != 0)
  let ss := setBit ss Csr.mstatusSpp (c.privilege == .supervisor)
  let ss := ss &&& ~~~Csr.mstatusSie
  let mask := Csr.mstatusSie ||| Csr.mstatusSpie ||| Csr.mstatusSpp
  { c with
    csrs := { c.csrs with
      scause := if isInterrupt then causeInterruptBit ||| code else code
      sepc := epc
      stval := tval
      sstatus := ss
      mstatus := (c.csrs.mstatus &&& ~~~mask) ||| (ss &&& mask) }
    privilege := .supervisor
    pc := trapVector c.csrs.stvec isInterrupt code }

def trapToM (c : Cpu U) (isInterrupt : Bool) (code tval epc : U64) : Cpu U :=
  let ms := setBit c.csrs.mstatus Csr.mstatusMpie (c.csrs.mstatus &&& Csr.mstatusMie != 0)
  let ms := (ms &&& ~~~Csr.mstatusMpp) |||
    (c.privilege.toU8.setWidth 64 <<< Csr.mstatusMppShift)
  let ms := ms &&& ~~~Csr.mstatusMie
  { c with
    csrs := { c.csrs with
      mcause := if isInterrupt then causeInterruptBit ||| code else code
      mepc := epc
      mtval := tval
      mstatus := ms }
    privilege := .machine
    pc := trapVector c.csrs.mtvec isInterrupt code }

/-- `Cpu::trap`. The delegation shift takes its count modulo 64, as the release build does. -/
def trap (c : Cpu U) (cause : Trap) (epc : U64) : Cpu U :=
  let c := { c with loadReservation := none }
  if c.directMode then { c with exitCode := some (c.directExit cause) }
  else
    let (isInterrupt, code) := trapCode cause
    let deleg := if isInterrupt then c.csrs.mideleg else c.csrs.medeleg
    if c.privilege != .machine && (deleg >>> (code.toNat % 64)).getLsbD 0 then
      c.trapToS isInterrupt code (trapTval cause) epc
    else c.trapToM isInterrupt code (trapTval cause) epc

def doMret (c : Cpu U) : Cpu U :=
  let ms := c.csrs.mstatus
  let mpp := (ms >>> Csr.mstatusMppShift) &&& Csr.mstatusMppMask
  let new := setBit ms Csr.mstatusMie (ms &&& Csr.mstatusMpie != 0)
  let new := (new ||| Csr.mstatusMpie) &&& ~~~Csr.mstatusMpp
  let new := if mpp ≠ 3 then new &&& ~~~Csr.mstatusMprv else new
  { c with
    loadReservation := none
    pc := c.csrs.mepc &&& ~~~1
    privilege := PrivilegeMode.fromU8 (mpp.setWidth 8)
    csrs := { c.csrs with mstatus := new } }

def doSret (c : Cpu U) : Cpu U :=
  let ss := c.csrs.sstatus
  let new := setBit ss Csr.mstatusSie (ss &&& Csr.mstatusSpie != 0)
  let new := (new ||| Csr.mstatusSpie) &&& ~~~Csr.mstatusSpp
  let mask := Csr.mstatusSie ||| Csr.mstatusSpie ||| Csr.mstatusSpp
  { c with
    loadReservation := none
    pc := c.csrs.sepc &&& ~~~1
    privilege := if ss &&& Csr.mstatusSpp != 0 then .supervisor else .user
    csrs := { c.csrs with
      sstatus := new
      mstatus := ((c.csrs.mstatus &&& ~~~mask) ||| (new &&& mask)) &&& ~~~Csr.mstatusMprv } }

/-! #### CSR access -/

/-- `SD` is read as `FS = Dirty`. -/
def withSd (v : U64) : U64 :=
  let v := v &&& ~~~Csr.mstatusSd
  if v &&& Csr.mstatusFs = Csr.mstatusFsDirty then v ||| Csr.mstatusSd else v

/-- `pmpcfg0`/`pmpcfg2`: eight configuration bytes from entry `base`. -/
def pmpCfgWord (p : Pmp) (base : Nat) : U64 :=
  (List.range 8).foldl (fun acc i => acc ||| ((p.getCfg (base + i)).setWidth 64 <<< (8 * i))) 0

def csrRead (c : Cpu U) (a : CsrAddr) : U64 :=
  if a = Csr.fflags then c.csrs.fflags &&& 0x1F
  else if a = Csr.frm then c.csrs.frm &&& 0x7
  else if a = Csr.fcsr then ((c.csrs.frm &&& 0x7) <<< 5) ||| (c.csrs.fflags &&& 0x1F)
  else if a = Csr.mvendorid ∨ a = Csr.marchid ∨ a = Csr.mimpid ∨ a = Csr.mhartid then 0
  else if a = Csr.mstatus then withSd c.csrs.mstatus
  else if a = Csr.medeleg then c.csrs.medeleg
  else if a = Csr.mideleg then c.csrs.mideleg
  else if a = Csr.mie then c.csrs.mie
  else if a = Csr.mtvec then c.csrs.mtvec
  else if a = Csr.misa then c.csrs.misa
  else if a = Csr.mscratch then c.csrs.mscratch
  else if a = Csr.mepc then c.csrs.mepc
  else if a = Csr.mcause then c.csrs.mcause
  else if a = Csr.mtval then c.csrs.mtval
  else if a = Csr.mip then c.csrs.mip
  else if a = Csr.sstatus then withSd c.csrs.sstatus
  else if a = Csr.sie then c.csrs.mie &&& c.csrs.mideleg
  else if a = Csr.stvec then c.csrs.stvec
  else if a = Csr.sscratch then c.csrs.sscratch
  else if a = Csr.sepc then c.csrs.sepc
  else if a = Csr.scause then c.csrs.scause
  else if a = Csr.stval then c.csrs.stval
  else if a = Csr.sip then c.csrs.mip &&& c.csrs.mideleg
  else if a = Csr.stimecmp then c.csrs.stimecmp
  else if a = Csr.satp then c.csrs.satp
  else if a = Csr.mcounteren then c.csrs.mcounteren
  else if a = Csr.scounteren then c.csrs.scounteren
  else if a = Csr.menvcfg then c.csrs.menvcfg
  else if a = Csr.cycle ∨ a = Csr.mcycle then c.cycles
  else if a = Csr.time then c.cycles / c.clintDivider
  else if a = Csr.instret ∨ a = Csr.minstret then c.instructionsRetired
  else if a = 0x3A0 then pmpCfgWord c.pmp 0
  else if a = 0x3A2 then pmpCfgWord c.pmp 8
  else if 0x3B0 ≤ a ∧ a ≤ 0x3BF then c.pmp.getAddr (a.toNat - 0x3B0)
  else 0

/-- Write eight configuration bytes from entry `base`, lowest first. -/
def setPmpCfgWord (p : Pmp) (base : Nat) (v : U64) : Pmp :=
  (List.range 8).foldl (fun p i => p.setCfg (base + i) ((v >>> (8 * i)).setWidth 8)) p

/-- `mtvec`/`stvec`: reserved modes fall back to direct. -/
def legalTvec (v : U64) : U64 := if v &&& 3 ≥ 2 then v &&& ~~~3 else v

def writeMstatus (s : Csrs) (v : U64) : Csrs :=
  let writable := Csr.mstatusSie ||| Csr.mstatusMie ||| Csr.mstatusSpie ||| Csr.mstatusMpie |||
    Csr.mstatusSpp ||| Csr.mstatusMpp ||| Csr.mstatusFs ||| Csr.mstatusMprv ||| Csr.mstatusSum |||
    Csr.mstatusMxr ||| Csr.mstatusTvm ||| Csr.mstatusTw ||| Csr.mstatusTsr
  let ms := (v &&& writable) ||| (s.mstatus &&& (Csr.mstatusUxl ||| Csr.mstatusSxl))
  let ms :=
    if (ms >>> Csr.mstatusMppShift) &&& Csr.mstatusMppMask = 2 then ms &&& ~~~Csr.mstatusMpp else ms
  { s with mstatus := ms, sstatus := ms &&& Csr.sstatusMask }

def writeSstatus (s : Csrs) (v : U64) : Csrs :=
  let writable := Csr.mstatusSie ||| Csr.mstatusSpie ||| Csr.mstatusSpp ||| Csr.mstatusFs |||
    Csr.mstatusSum ||| Csr.mstatusMxr
  let ms := (s.mstatus &&& ~~~writable) ||| (v &&& writable)
  { s with mstatus := ms, sstatus := ms &&& Csr.sstatusMask }

/-- Unsupported `satp` modes are stored as `Bare`. -/
def legalSatp (v : U64) : U64 :=
  let mode := (v >>> Csr.satpModeShift) &&& Csr.satpModeMask
  if mode = Csr.satpModeSv39 ∨ mode = Csr.satpModeBare then v
  else v &&& ~~~(Csr.satpModeMask <<< Csr.satpModeShift)

def csrWrite [Units U] (c : Cpu U) (a : CsrAddr) (v : U64) : Cpu U :=
  let s := c.csrs
  if a = Csr.fflags then { c with csrs := { s with fflags := v &&& 0x1F }.setFsDirty }
  else if a = Csr.frm then { c with csrs := { s with frm := v &&& 0x7 }.setFsDirty }
  else if a = Csr.fcsr then
    { c with csrs := { s with fflags := v &&& 0x1F, frm := (v >>> 5) &&& 0x7 }.setFsDirty }
  else if a = Csr.csrSimPanic then c.trap (.requestedTrap v) c.pc
  else if a = Csr.mstatus then { c with csrs := writeMstatus s v }
  else if a = Csr.medeleg then { c with csrs := { s with medeleg := v &&& ~~~(1 <<< 11 : U64) } }
  else if a = Csr.mideleg then
    { c with csrs := { s with mideleg := v &&& (Csr.mipSsip ||| Csr.mipStip ||| Csr.mipSeip) } }
  else if a = Csr.mie then
    let mask := Csr.mipSsip ||| Csr.mipMsip ||| Csr.mipStip ||| Csr.mipMtip ||| Csr.mipSeip |||
      Csr.mipMeip
    { c with csrs := { s with mie := v &&& mask } }
  else if a = Csr.mtvec then { c with csrs := { s with mtvec := legalTvec v } }
  else if a = Csr.misa then c
  else if a = Csr.mscratch then { c with csrs := { s with mscratch := v } }
  else if a = Csr.mepc then { c with csrs := { s with mepc := v &&& ~~~1 } }
  else if a = Csr.mcause then { c with csrs := { s with mcause := v } }
  else if a = Csr.mtval then { c with csrs := { s with mtval := v } }
  else if a = Csr.mip then
    let mask := Csr.mipSsip ||| Csr.mipStip ||| Csr.mipSeip
    { c with
      csrs := { s with mip := (s.mip &&& ~~~mask) ||| (v &&& mask) }
      swSeip := v &&& Csr.mipSeip != 0 }
  else if a = Csr.sstatus then { c with csrs := writeSstatus s v }
  else if a = Csr.sie then
    { c with csrs := { s with mie := (s.mie &&& ~~~s.mideleg) ||| (v &&& s.mideleg) } }
  else if a = Csr.stvec then { c with csrs := { s with stvec := legalTvec v } }
  else if a = Csr.sscratch then { c with csrs := { s with sscratch := v } }
  else if a = Csr.sepc then { c with csrs := { s with sepc := v &&& ~~~1 } }
  else if a = Csr.scause then { c with csrs := { s with scause := v } }
  else if a = Csr.stval then { c with csrs := { s with stval := v } }
  else if a = Csr.sip then
    let mask := s.mideleg &&& Csr.mipSsip
    { c with csrs := { s with mip := (s.mip &&& ~~~mask) ||| (v &&& mask) } }
  else if a = Csr.mcounteren then { c with csrs := { s with mcounteren := v &&& 0x7 } }
  else if a = Csr.scounteren then { c with csrs := { s with scounteren := v &&& 0x7 } }
  else if a = Csr.menvcfg then { c with csrs := { s with menvcfg := v } }
  else if a = Csr.mcycle then { c with cycles := v }
  else if a = Csr.minstret then { c with instructionsRetired := v }
  else if a = 0x3A0 then { c with pmp := setPmpCfgWord c.pmp 0 v }
  else if a = 0x3A2 then { c with pmp := setPmpCfgWord c.pmp 8 v }
  else if 0x3B0 ≤ a ∧ a ≤ 0x3BF then { c with pmp := c.pmp.setAddr (a.toNat - 0x3B0) v }
  else if a = Csr.stimecmp then
    { c with csrs := { s with stimecmp := v, mip := s.mip &&& ~~~Csr.mipStip } }
  else if a = Csr.satp then
    { c with csrs := { s with satp := legalSatp v }, units := Units.satpFlush c.units }
  else c

/-! #### Memory -/

def isRam (c : Cpu U) (a : PhysAddr) : Bool := c.ramStart ≤ a && a < c.ramEnd

def inHtif (c : Cpu U) (a : PhysAddr) : Bool :=
  match c.htifRange with
  | some (lo, hi) => lo ≤ a && a < hi
  | none => false

/-- `bus.read_*`: the HTIF overlay answers first, then RAM, then the other devices. -/
def busRead [Units U] (c : Cpu U) (a : PhysAddr) (w : MemWidth) : U64 × Cpu U :=
  if !c.inHtif a && c.isRam a then (c.mem.read a w.bytes, c)
  else
    let (v, u) := Units.busRead c.units a w
    (v, { c with units := u })

/-- A load through the RAM pointer when the address is in RAM, else over the bus. -/
def loadPhys [Units U] (c : Cpu U) (a : PhysAddr) (w : MemWidth) : U64 × Cpu U :=
  if c.isRam a then (c.mem.read a w.bytes, c)
  else if w = .nop then (0, c)
  else
    let (v, u) := Units.busRead c.units a w
    (v, { c with units := u })

def writeStoreToMemory [Units U] (c : Cpu U) (a : PhysAddr) (d : U64) (w : MemWidth) : Cpu U :=
  if !c.inHtif a && c.isRam a then { c with mem := c.mem.write a w.bytes d }
  else if w = .nop then c
  else
    let (u, m) := Units.busWrite c.units c.mem a w d
    { c with units := u, mem := m }

def accessFault (access : AccessType) (a : VirtAddr) : Trap :=
  match access with
  | .fetch => .instructionAccessFault a
  | .read => .loadAccessFault a
  | .write => .storeAccessFault a

/-- `MPRV` lets data accesses run with the privilege in `MPP`. -/
def effectivePriv (csrs : Csrs) (priv : PrivilegeMode) (access : AccessType) : PrivilegeMode :=
  if access ≠ .fetch ∧ csrs.mstatus &&& Csr.mstatusMprv ≠ 0 then
    PrivilegeMode.fromU8
      (((csrs.mstatus >>> Csr.mstatusMppShift) &&& Csr.mstatusMppMask).setWidth 8)
  else priv

def translate [Units U] (c : Cpu U) (va : VirtAddr) (access : AccessType) (size : Nat) :
    TranslationResult × Cpu U :=
  if c.directMode then
    if Units.isValidAddress c.units va then (⟨va, 0, none, none⟩, c)
    else (⟨0, 0, some (accessFault access va), none⟩, c)
  else
    let priv := effectivePriv c.csrs c.privilege access
    let (r, u) := Units.translateWithPmp c.units c.mem va access priv c.csrs c.pmp
    let c := { c with units := u }
    if r.trap.isSome then (r, c)
    else
      match c.pmp.check r.paddr (BitVec.ofNat 64 size) (access == .read) (access == .write)
        (access == .fetch) (priv == .machine) with
      | .allow => (r, c)
      | _ => (⟨0, r.cycles, some (accessFault access va), none⟩, c)

end Cpu

end Rvsim
