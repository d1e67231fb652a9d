/-
# The out-of-order engine

`backend/o3/mod.rs`. One tick runs the stages from commit back to dispatch,
so that each stage sees what the stage in front of it left in the previous
cycle, and returns early when a stage squashed the pipeline: on a trap, on a
redirect made by commit, on a memory-order violation.

Key definitions:
  - `O3Engine`, `O3State`
  - `O3.tick` and its stages `commit`, `writeback`, `drainMshrs`, `memory2`,
    `violationFlush`, `memory1`, `drainPending`, `issue`, `recover`, `dispatch`
  - `O3.flush`, `O3.canAccept`, `O3.syncArchRegs`
-/
import Rvsim.Commit
import Rvsim.ExecuteO3
import Rvsim.IssueQueue

namespace Rvsim

/-- A result waiting for its functional unit's latency; `speculativeWritten` when the
reorder buffer and the register file already have it. -/
structure PendingResult where
  entry : ExMem1Entry
  completeCycle : Nat
  speculativeWritten : Bool
  deriving DecidableEq, Repr

structure O3Engine where
  rob : Rob
  sb : StoreBuffer
  lq : LoadQueue
  prf : PhysRegFile
  freeList : FreeList
  renameMap : RenameMap
  committedMap : RenameMap
  scoreboard : Scoreboard
  iq : IssueQueue
  fuPool : FuPool
  pendingResults : List PendingResult
  width : Nat
  loadPorts : Nat
  storePorts : Nat
  executeMem1 : List ExMem1Entry
  mem1Mem2 : List Mem1Mem2Entry
  mem2Wb : List Mem2WbEntry
  cycle : Nat
  checkpoints : CheckpointTable
  squashStallRemaining : Nat

/-- The engine, the core it works on and the latch rename fills for it. -/
structure O3State (U : Type) where
  eng : O3Engine
  cpu : Cpu U
  renameOutput : List RenameIssueEntry

namespace O3

variable {U : Type}

def numArch : Nat := 64

def Engine.new (cfg : Config) : O3Engine :=
  let prfTotal := cfg.prfGprSize + cfg.prfFprSize
  { rob := Rob.new cfg.robSize
    sb := StoreBuffer.new cfg.storeBufferSize
    lq := LoadQueue.new cfg.loadQueueSize
    prf := (PhysRegFile.new prfTotal).markArchReady numArch
    freeList := FreeList.new prfTotal numArch
    renameMap := RenameMap.new
    committedMap := RenameMap.new
    scoreboard := Scoreboard.new
    iq := IssueQueue.new cfg.issueQueueSize
    fuPool := FuPool.new cfg.fuConfig
    pendingResults := []
    width := cfg.width
    loadPorts := cfg.loadPorts
    storePorts := cfg.storePorts
    executeMem1 := []
    mem1Mem2 := []
    mem2Wb := []
    cycle := 0
    checkpoints := CheckpointTable.new cfg.checkpointCount
    squashStallRemaining := 0 }

/-- Copy a nonzero register into its initial physical register. -/
def syncReg (f : PhysRegFile) (p : PhysReg) (v : U64) : PhysRegFile := if v = 0 then f else f.write p v

/-- `sync_arch_regs`: the register values set up before the run reach the register file. -/
def syncArchRegs (eng : O3Engine) (cpu : Cpu U) : O3Engine :=
  let gprs := (List.range' 1 31).foldl
    (fun f i => syncReg f (BitVec.ofNat 16 i) (cpu.regs.read (BitVec.ofNat 5 i))) eng.prf
  let fprs := (List.range 32).foldl
    (fun f i => syncReg f (BitVec.ofNat 16 (32 + i)) (cpu.regs.readF (BitVec.ofNat 5 i))) gprs
  { eng with prf := fprs }

def computeSquashStall (eng : O3Engine) (squashed surviving : Nat) : Nat :=
  let w := max eng.width 1
  ((squashed + w - 1) / w - 1) + (surviving + w - 1) / w

def canAccept (eng : O3Engine) : Nat :=
  if eng.squashStallRemaining > 0 then 0
  else
    min (min (min (min (min eng.rob.freeSlots eng.sb.freeSlots) eng.lq.freeSlots) eng.iq.availableSlots)
      eng.freeList.available) eng.width

/-- `O3Engine::flush`: everything in flight goes, the map falls back to the committed one. -/
def flush [Units U] (s : O3State U) : O3State U :=
  { s with
    eng := { s.eng with
      freeList := s.eng.freeList.reclaimAll s.eng.rob.entries
      renameMap := s.eng.committedMap
      rob := s.eng.rob.flushAll
      sb := s.eng.sb.flushSpeculative
      lq := s.eng.lq.flush
      scoreboard := Scoreboard.new
      iq := s.eng.iq.flush
      checkpoints := s.eng.checkpoints.flushAll
      pendingResults := []
      executeMem1 := []
      mem1Mem2 := []
      mem2Wb := [] }
    cpu := { s.cpu with
      l1dMshrs := s.cpu.l1dMshrs.flush
      units := Units.repairToCommitted (Units.mdpFlush s.cpu.units) } }

/-! ### Stages of a tick, in their order -/

def start [Units U] (s : O3State U) : O3State U :=
  { s with
    eng := { s.eng with
      cycle := s.eng.cycle + 1
      squashStallRemaining := s.eng.squashStallRemaining - 1 }
    cpu := { s.cpu with units := Units.mdpTick s.cpu.units } }

def toCommit (s : O3State U) : CommitState U :=
  ⟨s.cpu, s.eng.rob, s.eng.sb, s.eng.scoreboard, s.eng.committedMap, s.eng.freeList, some s.eng.lq,
    some s.eng.prf, some s.eng.checkpoints⟩

def ofCommit (s : O3State U) (c : CommitState U) : O3State U :=
  { s with
    cpu := c.cpu
    eng := { s.eng with
      rob := c.rob
      sb := c.sb
      scoreboard := c.scoreboard
      committedMap := c.committedMap
      freeList := c.freeList
      lq := c.lq.getD s.eng.lq
      prf := c.prf.getD s.eng.prf
      checkpoints := c.checkpoints.getD s.eng.checkpoints } }

def commit [Units U] (s : O3State U) : Option (Trap × U64) × O3State U :=
  let (trap, c) := commitStage (toCommit s) s.eng.width
  (trap, ofCommit s c)

/-- Flush and charge the squash, as after a trap or a redirect by commit. -/
def squashAll [Units U] (s : O3State U) : O3State U :=
  let stall := computeSquashStall s.eng s.eng.rob.len 0
  let s := flush s
  { s with eng := { s.eng with squashStallRemaining := stall } }

def takeTrap [Units U] (s : O3State U) (t : Trap) (epc : U64) : O3State U :=
  let s := squashAll s
  let cpu := { s.cpu with redirectPending := true }.trap t epc
  { s with cpu := { cpu with committedNextPc := cpu.pc } }

/-- Write a result to the register file and wake its consumers. -/
def broadcast (eng : O3Engine) (p : PhysReg) (v : U64) : O3Engine :=
  { eng with prf := eng.prf.write p v, iq := eng.iq.wakeupPhys p v }

def writeback (s : O3State U) : O3State U :=
  let wakeups := s.eng.mem2Wb.filter fun wb => wb.trap.isNone
  let eng := { s.eng with rob := writebackStage s.eng.rob s.eng.mem2Wb, mem2Wb := [] }
  { s with eng := wakeups.foldl (fun eng wb => broadcast eng wb.rdPhys wb.result) eng }

/-- The parked entries of completed misses, ready now. -/
def unpark (now : Nat) (done : List MshrEntry) : List Mem1Mem2Entry :=
  done.flatMap fun e => e.waiters.filterMap fun w => w.parkedEntry.map fun p => { p with completeCycle := now }

/-- Completed misses fill the cache and their loads go on to memory2. -/
def drainMshrs [Units U] (s : O3State U) : O3State U :=
  if s.cpu.l1dMshrs.capacity > 0 then
    let (done, mshrs) := s.cpu.l1dMshrs.drainCompletions s.eng.cycle
    { s with
      eng := { s.eng with mem1Mem2 := s.eng.mem1Mem2 ++ unpark s.eng.cycle done }
      cpu := { s.cpu with
        l1dMshrs := mshrs
        units := done.foldl (fun u e => Units.installLine u e.lineAddr e.isWrite) s.cpu.units } }
  else s

/-- Tell the dependence predictor of a resolved store and wake who waited for it. -/
def storeResolved [Units U] (s : O3State U) (wb : Mem2WbEntry) : O3State U :=
  if wb.ctrl.memWrite then
    match Units.mdpStoreResolved s.cpu.units wb.robTag with
    | (some t, u) =>
      { s with eng := { s.eng with iq := s.eng.iq.wakeupMemDep t }, cpu := { s.cpu with units := u } }
    | (none, u) => { s with cpu := { s.cpu with units := u } }
  else s

def memory2 [Units U] (s : O3State U) : Option (RobTag × U64) × O3State U :=
  let (left, out, m) := memory2Stage ⟨s.cpu, s.eng.sb, some s.eng.lq, none⟩ s.eng.mem1Mem2
  let s := { s with
    cpu := m.cpu
    eng := { s.eng with sb := m.sb, lq := m.lq.getD s.eng.lq, mem1Mem2 := left, mem2Wb := out } }
  (m.violation, out.foldl storeResolved s)

def rebuildRenameMap (eng : O3Engine) : O3Engine :=
  { eng with renameMap := eng.committedMap.rebuild eng.rob.entries }

/-- Drop everything newer than `keep`: queues, buffers and MSHR waiters. -/
def flushQueuesAfter [Units U] (s : O3State U) (keep : RobTag) : O3State U :=
  let rob := s.eng.rob.flushAfter keep
  { s with
    eng := { s.eng with
      freeList := s.eng.freeList.reclaimAll (s.eng.rob.after keep)
      iq := s.eng.iq.flushAfter keep
      rob := rob
      sb := s.eng.sb.flushAfter keep
      lq := s.eng.lq.flushAfter keep }
    cpu := { s.cpu with
      l1dMshrs := s.cpu.l1dMshrs.flushAfter keep
      units := Units.mdpFlushAfter s.cpu.units keep rob } }

/-- Drop everything in the same structures. -/
def flushQueues [Units U] (s : O3State U) : O3State U :=
  { s with
    eng := { s.eng with
      freeList := s.eng.freeList.reclaimAll s.eng.rob.entries
      iq := s.eng.iq.flush
      rob := s.eng.rob.flushAll
      sb := s.eng.sb.flushSpeculative
      lq := s.eng.lq.flush }
    cpu := { s.cpu with l1dMshrs := s.cpu.l1dMshrs.flush, units := Units.mdpFlush s.cpu.units } }

/-- The latches keep what is older than `keep` or is `keep`. -/
def retainLatches (eng : O3Engine) (keep : RobTag) : O3Engine :=
  { eng with
    mem1Mem2 := eng.mem1Mem2.filter fun e => RobTag.isOlderOrEq e.robTag keep
    mem2Wb := eng.mem2Wb.filter fun e => RobTag.isOlderOrEq e.robTag keep
    pendingResults := eng.pendingResults.filter fun p => RobTag.isOlderOrEq p.entry.robTag keep
    executeMem1 := eng.executeMem1.filter fun e => RobTag.isOlderOrEq e.robTag keep }

def clearLatches (eng : O3Engine) : O3Engine :=
  { eng with mem1Mem2 := [], mem2Wb := [], pendingResults := [], executeMem1 := [] }

/-- Squash from the violating load on and refetch it. -/
def violationFlush [Units U] (s : O3State U) (violating : RobTag) (storePc : U64) : O3State U :=
  let pc := (s.eng.rob.findEntry violating).elim s.cpu.pc (·.pc)
  let s := { s with cpu := { s.cpu with units := Units.mdpViolation s.cpu.units pc storePc } }
  let s :=
    match s.eng.rob.prevTagOf violating with
    | some keep =>
      let squashed := (s.eng.rob.after keep).length
      let s := flushQueuesAfter s keep
      let eng := rebuildRenameMap (retainLatches s.eng keep)
      { s with eng := { eng with
          squashStallRemaining := computeSquashStall eng squashed eng.rob.len
          checkpoints := eng.checkpoints.flushAfter keep } }
    | none =>
      let squashed := s.eng.rob.len
      let s := flushQueues s
      let eng := rebuildRenameMap (clearLatches s.eng)
      { s with eng := { eng with
          squashStallRemaining := computeSquashStall eng squashed 0
          checkpoints := eng.checkpoints.flushAll } }
  { eng := { s.eng with scoreboard := Scoreboard.rebuildFromRob s.eng.rob }
    cpu := { s.cpu with pc := pc, redirectPending := true }
    renameOutput := [] }

/-- Without MSHRs memory1 waits until the accesses in front of it are done. -/
def mem1Busy (s : O3State U) : Bool :=
  s.cpu.l1dMshrs.capacity == 0 &&
    s.eng.mem1Mem2.any fun e => (e.ctrl.memRead || e.ctrl.memWrite) && e.completeCycle > s.eng.cycle

def memory1 [Units U] (s : O3State U) : O3State U :=
  if mem1Busy s then s
  else
    let m := memory1Stage s.cpu s.eng.executeMem1 s.eng.mem1Mem2 s.eng.cycle (some s.eng.lq)
    { s with
      cpu := m.cpu
      eng := { s.eng with
        executeMem1 := m.input
        mem1Mem2 := m.output
        lq := m.lq.getD s.eng.lq
        iq := m.cancelled.foldl (fun q p => q.cancelWakeupPhys p s.eng.prf) s.eng.iq } }

/-- Register result of an instruction that skips the memory stages. -/
def aluResult (e : ExMem1Entry) : U64 :=
  if e.ctrl.controlFlow = .jump then e.pc + e.instSize.asU64 else e.alu

/-- Record an instruction that skips the memory stages as complete. -/
def completeAlu (eng : O3Engine) (e : ExMem1Entry) : O3Engine :=
  let rob := eng.rob.setFpFlags e.robTag e.fpFlags
  let rob := match e.sfenceVma with
    | some i => rob.setSfenceVma e.robTag i
    | none => rob
  broadcast { eng with rob := rob.complete e.robTag (aluResult e) } e.rdPhys (aluResult e)

/-- Where `swap_remove` leaves the rest: the last element comes to the front. -/
def rotateLast {α : Type} (l : List α) : List α :=
  match l.getLast? with
  | none => []
  | some x => x :: l.dropLast

/-- The loop over `pending_results`: which results are due, in the order they leave, and which stay.
Each step settles one element, so `n` counts down from the length. -/
def splitDue (now : Nat) : Nat → List PendingResult → List PendingResult × List PendingResult
  | 0, _ => ([], [])
  | _ + 1, [] => ([], [])
  | n + 1, p :: rest =>
    if p.completeCycle ≤ now then
      let (due, left) := splitDue now n (rotateLast rest)
      (p :: due, left)
    else
      let (due, left) := splitDue now n rest
      (due, p :: left)

/-- One due result: memory instructions go to memory1, others complete unless they already did. -/
def finishPending (eng : O3Engine) (p : PendingResult) : O3Engine :=
  if p.entry.ctrl.isMem then { eng with executeMem1 := eng.executeMem1 ++ [p.entry] }
  else if p.speculativeWritten then eng
  else completeAlu eng p.entry

def drainPending (eng : O3Engine) : O3Engine :=
  let (due, left) := splitDue eng.cycle eng.pendingResults.length eng.pendingResults
  due.foldl finishPending { eng with pendingResults := left }

/-- The entry cannot execute in this cycle and goes back to the queue. -/
def mustWait (eng : O3Engine) (backpressured : Bool) (e : RenameIssueEntry) : Bool :=
  let fu := FuType.classify e.ctrl
  (backpressured && fu == .mem) || !eng.fuPool.hasFree fu eng.cycle

/-- Execute one selected instruction and put its result among the pending ones. -/
def issueOne [Units U] (s : O3State U) (e : RenameIssueEntry) : Bool × O3State U :=
  let fu := FuType.classify e.ctrl
  let cpu :=
    if e.ctrl.memRead || e.ctrl.memWrite then
      { s.cpu with units := Units.mdpIssued s.cpu.units e.robTag }
    else s.cpu
  let (complete, pool) := s.eng.fuPool.acquire fu s.eng.cycle
  let r := executeOne cpu e s.eng.rob
  let eng := { s.eng with fuPool := pool, rob := r.rob }
  let written := !r.result.ctrl.isMem && pool.isPipelined fu && r.result.trap.isNone
  let eng := if written then completeAlu eng r.result else eng
  let eng :=
    if r.result.ctrl.memRead && !r.result.ctrl.memWrite && r.result.trap.isNone &&
        r.cpu.l1dMshrs.capacity > 0 then
      { eng with iq := eng.iq.speculativeWakeupPhys r.result.rdPhys }
    else eng
  let eng := { eng with pendingResults := eng.pendingResults ++ [⟨r.result, complete, written⟩] }
  (r.flush, { s with eng := eng, cpu := r.cpu })

/-- The issue loop; an instruction that asks for a flush ends it. -/
def issueLoop [Units U] (backpressured : Bool) (s : O3State U) :
    List SelectedEntry → Option RobTag × O3State U
  | [] => (none, s)
  | sel :: rest =>
    if mustWait s.eng backpressured sel.entry then
      let iq := s.eng.iq.dispatch sel.entry s.eng.prf sel.memDep
      issueLoop backpressured { s with eng := { s.eng with iq := iq } } rest
    else
      match issueOne s sel.entry with
      | (true, s) => (some sel.entry.robTag, s)
      | (false, s) => issueLoop backpressured s rest

/-- What requeueing and every executed instruction relate, the loop relates. -/
theorem issueLoop_lift [Units U] {R : O3State U → O3State U → Prop} (hrefl : ∀ s, R s s)
    (htrans : ∀ {a b c}, R a b → R b c → R a c) (hqueue : ∀ s q, R s { s with eng := { s.eng with iq := q } })
    (hone : ∀ s e, R s (issueOne s e).2) (bp : Bool) (s : O3State U) (sel : List SelectedEntry) :
    R s (issueLoop bp s sel).2 := by
  induction sel generalizing s with
  | nil => exact hrefl s
  | cons x rest ih =>
    unfold issueLoop
    split
    · exact htrans (hqueue s _) (ih _)
    · have h := hone s x.entry
      split
      · rename_i heq
        rw [heq] at h
        exact h
      · rename_i heq
        rw [heq] at h
        exact htrans h (ih _)

/-- Select and issue; `backpressured` says memory1 still holds entries. -/
def issue [Units U] (backpressured : Bool) (s : O3State U) : Option RobTag × O3State U :=
  let (sel, iq) :=
    s.eng.iq.select s.eng.width s.eng.sb s.eng.rob s.eng.loadPorts s.eng.storePorts s.eng.prf
  issueLoop backpressured { s with eng := { s.eng with iq := iq } } sel

/-- The rename map after a flush that keeps `keep`: its checkpoint, else a rebuild. -/
def recoverMap (eng : O3Engine) (keep : RobTag) (squashed : Nat) : O3Engine :=
  let rebuilt (eng : O3Engine) : O3Engine :=
    { rebuildRenameMap eng with
      squashStallRemaining := computeSquashStall eng squashed eng.rob.len }
  if eng.checkpoints.capacity > 0 then
    let eng :=
      match eng.checkpoints.findByTag keep with
      | some c =>
        { eng with
          renameMap := c.renameMap
          squashStallRemaining := computeSquashStall eng squashed 0 }
      | none => rebuilt eng
    { eng with checkpoints := eng.checkpoints.flushAfter keep }
  else rebuilt eng

/-- Squash everything newer than `keep`, the instruction that asked for the flush. -/
def squashAfter [Units U] (s : O3State U) (keep : RobTag) : Nat × O3State U :=
  let found := (s.eng.rob.findEntry keep).isSome
  let squashed := if found then (s.eng.rob.after keep).length else s.eng.rob.len
  let s := if found then flushQueuesAfter s keep else flushQueues s
  (squashed, { s with eng := retainLatches s.eng keep })

def recover [Units U] (s : O3State U) (keep : RobTag) : O3State U :=
  let (squashed, s) := squashAfter s keep
  let eng := recoverMap s.eng keep squashed
  { s with
    eng := { eng with scoreboard := Scoreboard.rebuildFromRob eng.rob }
    renameOutput := [] }

def dispatchOne [Units U] (s : O3State U) (e : RenameIssueEntry) : O3State U :=
  let (dep, u) := Units.mdpDispatch s.cpu.units e.pc e.robTag e.ctrl.memRead e.ctrl.memWrite
  { s with
    cpu := { s.cpu with units := u }
    eng := { s.eng with iq := s.eng.iq.dispatch e s.eng.prf dep } }

def dispatch [Units U] (s : O3State U) : O3State U :=
  s.renameOutput.foldl dispatchOne { s with renameOutput := [] }

/-! ### The tick -/

/-- From memory1 to dispatch. -/
def tickBack [Units U] (s : O3State U) : O3State U :=
  let s := memory1 s
  let backpressured := !s.eng.executeMem1.isEmpty
  match issue backpressured { s with eng := drainPending s.eng } with
  | (some keep, s) => recover s keep
  | (none, s) => dispatch s

/-- From writeback to dispatch. -/
def tickRest [Units U] (s : O3State U) : O3State U :=
  match memory2 (drainMshrs (writeback s)) with
  | (some (violating, storePc), s) => violationFlush s violating storePc
  | (none, s) => tickBack s

def tick [Units U] (s : O3State U) : O3State U :=
  let s := start s
  let pcBefore := s.cpu.pc
  match commit s with
  | (some (t, epc), s) => takeTrap s t epc
  | (none, s) =>
    if s.cpu.pc ≠ pcBefore then { squashAll s with renameOutput := [] } else tickRest s

end O3

end Rvsim
