/-
# The in-order engine

`backend/inorder/mod.rs` and `issue.rs`: the same commit, memory and
writeback stages, a FIFO issue queue that reads operands by producer tag,
and no physical registers, load queue or checkpoints.

Key definitions:
  - `InOrderEngine`, `InOrder.select`, `InOrder.tick`, `InOrder.flush`
-/
import Rvsim.Commit
import Rvsim.Config
import Rvsim.ExecuteInOrder

namespace Rvsim

structure InOrderEngine where
  rob : Rob
  sb : StoreBuffer
  scoreboard : Scoreboard
  queue : List RenameIssueEntry
  queueCapacity : Nat
  width : Nat
  executeMem1 : List ExMem1Entry
  mem1Mem2 : List Mem1Mem2Entry
  mem2Wb : List Mem2WbEntry
  mem1Stall : Nat
  cycle : Nat
  committedMap : RenameMap
  freeList : FreeList

structure InOrderState (U : Type) where
  eng : InOrderEngine
  cpu : Cpu U
  renameOutput : List RenameIssueEntry

namespace InOrder

variable {U : Type}

def Engine.new (cfg : Config) : InOrderEngine :=
  { rob := Rob.new cfg.robSize
    sb := StoreBuffer.new cfg.storeBufferSize
    scoreboard := Scoreboard.new
    queue := []
    queueCapacity := cfg.robSize
    width := cfg.width
    executeMem1 := []
    mem1Mem2 := []
    mem2Wb := []
    mem1Stall := 0
    cycle := 0
    committedMap := RenameMap.new
    freeList := FreeList.new 0 0 }

def canAccept (eng : InOrderEngine) : Nat :=
  min (min (min eng.rob.freeSlots eng.sb.freeSlots) (eng.queueCapacity - eng.queue.length)) eng.width

/-! ### Issue -/

def readArch (cpu : Cpu U) (reg : RegIdx) (isFp : Bool) : U64 :=
  if isFp then cpu.regs.readF reg else cpu.regs.read reg

/-- `read_operand_by_tag`: the producer's result, or the register once it has retired. -/
def readOperandByTag (reg : RegIdx) (isFp : Bool) (tag : Option RobTag) (rob : Rob) (cpu : Cpu U) :
    Option U64 :=
  if !isFp && reg.isZero then some 0
  else
    match tag.bind rob.findEntry with
    | some e => if e.state = .completed then e.result else none
    | none => some (readArch cpu reg isFp)

/-- The head of the queue may not issue yet. -/
def issueBlocked (e : RenameIssueEntry) (rob : Rob) (sb : StoreBuffer) : Bool :=
  (e.ctrl.systemOp != .none && !rob.allBeforeCompleted e.robTag) ||
  (e.ctrl.systemOp == .fence &&
    !rob.fencePredSatisfied e.robTag ((e.inst >>> 24).getLsbD 1) ((e.inst >>> 24).getLsbD 0)) ||
  ((e.ctrl.memRead || e.ctrl.memWrite) && rob.hasFenceBlocking e.robTag e.ctrl.memRead e.ctrl.memWrite) ||
  (e.ctrl.memRead && sb.hasUnresolvedStoreBefore e.robTag)

/-- The operands of the head, when all of them are there. -/
def readOperands (e : RenameIssueEntry) (rob : Rob) (cpu : Cpu U) : Option RenameIssueEntry :=
  match readOperandByTag e.rs1 e.ctrl.rs1Fp e.rs1Tag rob cpu,
    readOperandByTag e.rs2 e.ctrl.rs2Fp e.rs2Tag rob cpu,
    (if e.ctrl.rs3Fp then readOperandByTag e.rs3 true e.rs3Tag rob cpu else some 0) with
  | some v1, some v2, some v3 => some { e with rv1 := v1, rv2 := v2, rv3 := v3 }
  | _, _, _ => none

/-- Issue up to `width` instructions from the head: the issued ones and the rest. -/
def select (rob : Rob) (sb : StoreBuffer) (cpu : Cpu U) :
    Nat → List RenameIssueEntry → List RenameIssueEntry × List RenameIssueEntry
  | 0, q => ([], q)
  | _ + 1, [] => ([], [])
  | n + 1, e :: rest =>
    if e.trap.isSome then
      let (out, q) := select rob sb cpu n rest
      (e :: out, q)
    else if issueBlocked e rob sb then ([], e :: rest)
    else
      match readOperands e rob cpu with
      | some e' =>
        let (out, q) := select rob sb cpu n rest
        (e' :: out, q)
      | none => ([], e :: rest)

/-- Entries beyond the capacity are dropped. -/
def dispatch (eng : InOrderEngine) (es : List RenameIssueEntry) : InOrderEngine :=
  { eng with queue := eng.queue ++ es.take (eng.queueCapacity - eng.queue.length) }

/-! ### The tick -/

def flush [Units U] (s : InOrderState U) : InOrderState U :=
  { s with
    eng := { s.eng with
      rob := s.eng.rob.flushAll
      sb := s.eng.sb.flushSpeculative
      scoreboard := Scoreboard.new
      queue := []
      executeMem1 := []
      mem1Mem2 := []
      mem2Wb := []
      mem1Stall := 0 }
    cpu := { s.cpu with
      l1dMshrs := s.cpu.l1dMshrs.flush
      units := Units.repairToCommitted s.cpu.units } }

def start (s : InOrderState U) : InOrderState U :=
  { s with eng := { s.eng with cycle := s.eng.cycle + 1 } }

def drainMshrs [Units U] (s : InOrderState U) : InOrderState U :=
  if s.cpu.l1dMshrs.capacity = 0 then s
  else
    let (done, mshrs) := s.cpu.l1dMshrs.drainCompletions s.eng.cycle
    let parked := done.flatMap fun e => e.waiters.filterMap fun w =>
      w.parkedEntry.map fun p => { p with completeCycle := s.eng.cycle }
    { s with
      eng := { s.eng with mem1Mem2 := s.eng.mem1Mem2 ++ parked }
      cpu := { s.cpu with
        l1dMshrs := mshrs
        units := done.foldl (fun u e => Units.installLine u e.lineAddr e.isWrite) s.cpu.units } }

def commit [Units U] (s : InOrderState U) : Option (Trap × U64) × InOrderState U :=
  let (trap, c) := commitStage
    ⟨s.cpu, s.eng.rob, s.eng.sb, s.eng.scoreboard, s.eng.committedMap, s.eng.freeList, none, none, none⟩
    s.eng.width
  (trap, { s with
    cpu := c.cpu
    eng := { s.eng with
      rob := c.rob
      sb := c.sb
      scoreboard := c.scoreboard
      committedMap := c.committedMap
      freeList := c.freeList } })

def takeTrap [Units U] (s : InOrderState U) (t : Trap) (epc : U64) : InOrderState U :=
  let s := flush s
  let cpu := { s.cpu with redirectPending := true }.trap t epc
  { s with cpu := { cpu with committedNextPc := cpu.pc } }

def memory2 [Units U] (s : InOrderState U) : InOrderState U :=
  let (left, out, m) := memory2Stage ⟨s.cpu, s.eng.sb, none, none⟩ s.eng.mem1Mem2
  { s with cpu := m.cpu, eng := { s.eng with sb := m.sb, mem1Mem2 := left, mem2Wb := out } }

/-- Longest wait among the accesses in front of memory1. -/
def maxWait (now : Nat) (es : List Mem1Mem2Entry) : Nat :=
  es.foldl (fun acc e => max acc (e.completeCycle - now)) 0

def memory1 [Units U] (s : InOrderState U) : InOrderState U :=
  if s.eng.mem1Stall > 0 then { s with eng := { s.eng with mem1Stall := s.eng.mem1Stall - 1 } }
  else
    let m := memory1Stage s.cpu s.eng.executeMem1 s.eng.mem1Mem2 s.eng.cycle none
    { s with
      cpu := m.cpu
      eng := { s.eng with
        executeMem1 := m.input
        mem1Mem2 := m.output
        mem1Stall := maxWait s.eng.cycle m.output } }

/-- FP flags still in the latches. -/
def inflightFpFlags (eng : InOrderEngine) : U8 :=
  (eng.executeMem1.map (·.fpFlags) ++ eng.mem1Mem2.map (·.fpFlags) ++ eng.mem2Wb.map (·.fpFlags)).foldl
    (· ||| ·) 0

/-- Select and execute, unless memory1 still holds entries; the flag asks for a flush. -/
def issue [Units U] (s : InOrderState U) : Bool × InOrderState U :=
  if !s.eng.executeMem1.isEmpty then (false, s)
  else
    let (issued, queue) := select s.eng.rob s.eng.sb s.cpu s.eng.width s.eng.queue
    let (results, flush, cpu, rob) := executeInorder s.cpu issued s.eng.rob (inflightFpFlags s.eng)
    (flush, { s with
      cpu := cpu
      eng := { s.eng with queue := queue, rob := rob, executeMem1 := s.eng.executeMem1 ++ results } })

/-- Squash what is newer than the last executed instruction. -/
def recover (s : InOrderState U) : InOrderState U :=
  let eng := { s.eng with queue := [], mem1Stall := 0 }
  let eng :=
    match eng.executeMem1.getLast? with
    | some last =>
      { eng with rob := eng.rob.flushAfter last.robTag, sb := eng.sb.flushAfter last.robTag }
    | none => eng
  { s with
    eng := { eng with scoreboard := Scoreboard.rebuildFromRob eng.rob }
    renameOutput := [] }

def tickRest [Units U] (s : InOrderState U) : InOrderState U :=
  let s := { s with eng := { s.eng with rob := writebackStage s.eng.rob s.eng.mem2Wb, mem2Wb := [] } }
  match issue (memory1 (memory2 s)) with
  | (true, s) => recover s
  | (false, s) => { s with eng := dispatch s.eng s.renameOutput, renameOutput := [] }

def tick [Units U] (s : InOrderState U) : InOrderState U :=
  let s := drainMshrs (start s)
  let pcBefore := s.cpu.pc
  match commit s with
  | (some (t, epc), s) => takeTrap s t epc
  | (none, s) => if s.cpu.pc ≠ pcBefore then { flush s with renameOutput := [] } else tickRest s

end InOrder

end Rvsim
