/-
# Commit

`backend/shared/commit.rs`: interrupts are taken first, then up to `width`
instructions retire from the head of the reorder buffer, then one committed
store drains to memory. Effects that must not be speculative happen here:
register writes, CSR writes, xRET, reservations, stores, fences, TLB flushes.

Both backends call it. The out-of-order one passes its load queue, physical
register file and checkpoints; the in-order one passes none of them.

Key definitions:
  - `CommitState`, `checkInterrupts`
  - `retire`, `commitLoop`, `commitStage`
-/
import Rvsim.Memory
import Rvsim.Renaming

namespace Rvsim

variable {U : Type}

/-- What commit works on. -/
structure CommitState (U : Type) where
  cpu : Cpu U
  rob : Rob
  sb : StoreBuffer
  scoreboard : Scoreboard
  committedMap : RenameMap
  freeList : FreeList
  lq : Option LoadQueue
  prf : Option PhysRegFile
  checkpoints : Option CheckpointTable

/-! ### Interrupts -/

/-- One interrupt line: pending, enabled, and not masked at the current privilege. -/
def checkInterrupt (cpu : Cpu U) (bit : U64) (t : Trap) : Option Trap :=
  if cpu.csrs.mip &&& bit == 0 || cpu.csrs.mie &&& bit == 0 then none
  else if cpu.csrs.mideleg &&& bit != 0 then
    if cpu.privilege.toU8 < PrivilegeMode.supervisor.toU8 then some t
    else if cpu.privilege = .supervisor ∧ cpu.csrs.mstatus &&& Csr.mstatusSie ≠ 0 then some t
    else none
  else if cpu.privilege.toU8 < PrivilegeMode.machine.toU8 then some t
  else if cpu.csrs.mstatus &&& Csr.mstatusMie ≠ 0 then some t
  else none

/-- The highest-priority interrupt to take: MEI, MSI, MTI, SEI, SSI, STI. -/
def checkInterrupts (cpu : Cpu U) : Option Trap :=
  (checkInterrupt cpu Csr.mipMeip .machineExternalInterrupt).or <|
  (checkInterrupt cpu Csr.mipMsip .machineSoftwareInterrupt).or <|
  (checkInterrupt cpu Csr.mipMtip .machineTimerInterrupt).or <|
  (checkInterrupt cpu Csr.mipSeip .supervisorExternalInterrupt).or <|
  (checkInterrupt cpu Csr.mipSsip .supervisorSoftwareInterrupt).or <|
  checkInterrupt cpu Csr.mipStip .supervisorTimerInterrupt

/-! ### Draining stores -/

/-- `drain_one_store`: the oldest store goes to memory if it is committed. -/
def drainOneStore [Units U] (cpu : Cpu U) (sb : StoreBuffer) : Cpu U × StoreBuffer :=
  match sb.drainOne with
  | none => (cpu, sb)
  | some (e, sb) =>
    match e.resolution with
    | .committed a d =>
      let cpu :=
        if cpu.isRam a then { cpu with units := Units.storeTraffic cpu.units a d e.width.bytes } else cpu
      (cpu.writeStoreToMemory a d e.width, sb)
    | _ => (cpu, sb)

/-- The loop of `drain_all_committed`, over the entries from the head. -/
def drainCommitted [Units U] (cpu : Cpu U) : List StoreBufferEntry → Cpu U × List StoreBufferEntry
  | [] => (cpu, [])
  | e :: rest =>
    match e.resolution with
    | .committed a d =>
      let cpu :=
        if cpu.isRam a then { cpu with units := (Units.simulateMemoryAccess cpu.units a .write).2 }
        else cpu
      drainCommitted (cpu.writeStoreToMemory a d e.width) rest
    | .cancelled => drainCommitted cpu rest
    | _ => (cpu, e :: rest)

def drainAllCommitted [Units U] (cpu : Cpu U) (sb : StoreBuffer) : Cpu U × StoreBuffer :=
  let (cpu, es) := drainCommitted cpu sb.entries
  ({ cpu with units := Units.flushWcb cpu.units }, { sb with entries := es })

/-! ### Retiring one instruction -/

/-- `committed_next_pc` of an entry. -/
def RobEntry.nextPc (e : RobEntry) : U64 :=
  match e.ctrl.controlFlow with
  | .jump => e.bpTarget.getD e.fallThrough
  | .branch => if e.bpOutcome.taken then e.bpTarget.getD e.fallThrough else e.fallThrough
  | .sequential => e.fallThrough

namespace CommitState

/-- The pc to go on from, the retired count, predictor training. -/
def retirePc [Units U] (s : CommitState U) (e : RobEntry) : CommitState U :=
  { s with cpu := { s.cpu with
      committedNextPc := e.nextPc
      instructionsRetired :=
        if e.inst ≠ 0 ∧ e.inst ≠ 0x13 then s.cpu.instructionsRetired + 1
        else s.cpu.instructionsRetired
      units :=
        if e.bpUpdate then Units.updateBranch s.cpu.units e.bpPc e.bpOutcome.taken e.bpTarget
        else s.cpu.units } }

/-- The register the entry replaces is free once the entry retires. -/
def freeOld (s : CommitState U) (e : RobEntry) : FreeList :=
  if e.oldPhysDst ≠ e.physDst then s.freeList.reclaim e.oldPhysDst else s.freeList

/-- Register write: architectural file, scoreboard, free list, committed map. -/
def retireReg (s : CommitState U) (e : RobEntry) : CommitState U :=
  let val := e.result.getD 0
  if e.ctrl.fpRegWrite then
    { s with
      cpu := { s.cpu with regs := s.cpu.regs.writeF e.rd val, csrs := s.cpu.csrs.setFsDirty }
      scoreboard := s.scoreboard.clearIfMatch e.rd true e.tag
      freeList := s.freeOld e
      committedMap := s.committedMap.set e.rd true e.physDst }
  else if e.writesGpr then
    { s with
      cpu := { s.cpu with regs := s.cpu.regs.write e.rd val }
      scoreboard := s.scoreboard.clearIfMatch e.rd false e.tag
      freeList := s.freeOld e
      committedMap := s.committedMap.set e.rd false e.physDst }
  else s

/-- Page-table `A`/`D` bits and FP exception flags. -/
def retireRecords [Units U] (s : CommitState U) (e : RobEntry) : CommitState U :=
  let s :=
    match e.pteUpdate with
    | some u => { s with cpu := s.cpu.writeStoreToMemory u.pteAddr u.pteValue .double }
    | none => s
  if e.fpFlags ≠ 0 then
    { s with cpu := { s.cpu with
        csrs := { s.cpu.csrs with fflags := s.cpu.csrs.fflags ||| e.fpFlags.setWidth 64 }.setFsDirty } }
  else s

/-- Resume fetching after the entry: `cpu.pc` moves and the front end is told. -/
def redirectAfter (s : CommitState U) (e : RobEntry) : CommitState U :=
  { s with cpu := { s.cpu with pc := e.fallThrough, redirectPending := true } }

def drainAll [Units U] (s : CommitState U) : CommitState U :=
  let (cpu, sb) := drainAllCommitted s.cpu s.sb
  { s with cpu, sb }

/-- A CSR write takes effect; a `satp` write drains stores first and refetches. -/
def retireCsr [Units U] (s : CommitState U) (e : RobEntry) (u : CsrUpdate) : CommitState U :=
  let s := if u.addr = Csr.satp then s.drainAll else s
  let s := if u.applied then s else { s with cpu := s.cpu.csrWrite u.addr u.newVal }
  if u.addr = Csr.satp then s.redirectAfter e else s

def retireXret (s : CommitState U) (cpu : Cpu U) : CommitState U :=
  { s with cpu := { cpu with committedNextPc := cpu.pc } }

/-- WFI waits when an interrupt is enabled or pending, else it goes on. -/
def retireWfi (s : CommitState U) (e : RobEntry) : CommitState U :=
  let s :=
    if s.cpu.csrs.mie ≠ 0 ∨ s.cpu.csrs.mip ≠ 0 then
      { s with cpu := { s.cpu with wfiWaiting := true, wfiPc := e.fallThrough } }
    else s.redirectAfter e
  { s with cpu := { s.cpu with committedNextPc := e.fallThrough } }

/-- A store-conditional without its reservation: drop the store, return 1, refetch. -/
def failSc (s : CommitState U) (e : RobEntry) : CommitState U :=
  let s := { s with sb := s.sb.cancel e.tag }
  let s :=
    if e.writesGpr then
      { s with
        cpu := { s.cpu with regs := s.cpu.regs.write e.rd 1 }
        prf := s.prf.map fun f => f.write e.physDst 1 }
    else s
  s.redirectAfter e

/-- Stores become drainable; load queue slot and checkpoint are given back. -/
def retireMem (s : CommitState U) (e : RobEntry) : CommitState U :=
  let s :=
    if e.ctrl.memWrite then
      let hit := e.lrSc.isNone && ((s.sb.findPaddr e.tag).elim false fun a => s.cpu.checkReservation a)
      { s with
        cpu := if hit then s.cpu.clearReservation else s.cpu
        sb := s.sb.markCommitted e.tag }
    else s
  let s := if e.ctrl.memRead then { s with lq := s.lq.map fun q => q.deallocate e.tag } else s
  match e.checkpointId with
  | some id => { s with checkpoints := s.checkpoints.map fun t => t.free id }
  | none => s

def fencePred (inst : U32) : Bool × Bool := ((inst >>> 24).getLsbD 1, (inst >>> 24).getLsbD 0)

/-- The end of an iteration: fences; the flag says whether the loop goes on. -/
def retireFence [Units U] (s : CommitState U) (e : RobEntry) : Bool × CommitState U :=
  if e.ctrl.systemOp = .fenceI then
    let s := s.drainAll
    (false, { s with cpu := { s.cpu with units := Units.invalidateL1i s.cpu.units } }.redirectAfter e)
  else
    let s :=
      if e.ctrl.systemOp = .fence ∧ ((fencePred e.inst).1 ∨ (fencePred e.inst).2) then s.drainAll else s
    match e.sfenceVma with
    | some i =>
      let cpu := { s.cpu with units := Units.sfenceVma s.cpu.units i }
      (false, { s with cpu := cpu.clearReservation }.redirectAfter e)
    | none => (true, { s with cpu := { s.cpu with regs := s.cpu.regs.write 0 0 } })

/-- Effects after the LR/SC check. -/
def retireTail [Units U] (s : CommitState U) (e : RobEntry) : Bool × CommitState U :=
  (s.retireMem e).retireFence e

/-- What follows the register write: CSR, xRET, WFI, LR/SC, memory, fences. -/
def retireEffects [Units U] (s : CommitState U) (e : RobEntry) : Bool × CommitState U :=
  match e.csrUpdate with
  | some u => (false, s.retireCsr e u)
  | none =>
    match e.ctrl.systemOp with
    | .mret => (false, s.retireXret s.cpu.doMret)
    | .sret => (false, s.retireXret s.cpu.doSret)
    | .wfi => (false, s.retireWfi e)
    | _ =>
      match e.lrSc with
      | some (.lr a) => { s with cpu := s.cpu.setReservation a }.retireTail e
      | some (.sc a) =>
        if s.cpu.checkReservation a then { s with cpu := s.cpu.clearReservation }.retireTail e
        else (false, s.failSc e)
      | none => s.retireTail e

/-- Retire `e`, already taken off the buffer; the flag says whether the loop goes on. -/
def retire [Units U] (s : CommitState U) (e : RobEntry) : Bool × CommitState U :=
  (((s.retirePc e).retireReg e).retireRecords e).retireEffects e

/-- A faulted head leaves the buffer, its register goes back, its trap is taken. -/
def retireFault (s : CommitState U) (e : RobEntry) : Option (Trap × U64) × CommitState U :=
  match e.trap with
  | some t => (some (t, e.pc), { s with freeList := s.freeList.reclaim e.physDst })
  | none => (none, s)

/-- The head may not retire in this cycle. -/
def headBlocked (s : CommitState U) (e : RobEntry) : Bool :=
  (e.state == .completed && e.ctrl.memRead && s.sb.hasUnresolvedStoreBefore e.tag) ||
  e.state == .issued ||
  (e.state == .completed && e.ctrl.systemOp == .sfenceVma && s.sb.hasCommittedStores)

end CommitState

/-! ### The stage -/

/-- Up to `width` instructions retire. -/
def commitLoop [Units U] : Nat → CommitState U → Option (Trap × U64) × CommitState U
  | 0, s => (none, s)
  | n + 1, s =>
    match s.rob.entries with
    | [] => (none, s)
    | e :: rest =>
      if s.headBlocked e then (none, s)
      else
        let s := { s with rob := { s.rob with entries := rest } }
        if e.state = .faulted then s.retireFault e
        else
          match s.retire e with
          | (true, s) => commitLoop n s
          | (false, s) => (none, s)

/-- Where an interrupt taken now returns to. -/
def interruptEpc (cpu : Cpu U) (rob : Rob) : U64 :=
  if cpu.wfiWaiting then cpu.wfiPc
  else
    match rob.peekHead with
    | some head => head.pc
    | none => cpu.committedNextPc

/-- A waiting core: wake up when an enabled interrupt is pending. -/
def wfiWake (cpu : Cpu U) : Cpu U :=
  if cpu.csrs.mip &&& cpu.csrs.mie ≠ 0 then
    { cpu with wfiWaiting := false, pc := cpu.wfiPc, redirectPending := true }
  else cpu

def commitStage [Units U] (s : CommitState U) (width : Nat) : Option (Trap × U64) × CommitState U :=
  match checkInterrupts s.cpu with
  | some t => (some (t, interruptEpc s.cpu s.rob), { s with cpu := { s.cpu with wfiWaiting := false } })
  | none =>
    if s.cpu.wfiWaiting then (none, { s with cpu := wfiWake s.cpu })
    else
      let (trap, s) := commitLoop width s
      let (cpu, sb) := drainOneStore s.cpu s.sb
      (trap, { s with cpu, sb })

end Rvsim
