/-
# Issue queue and functional units of the out-of-order backend

`backend/o3/issue_queue.rs` and `fu_pool.rs`. A slot holds an instruction
with the readiness of its three operands; a load's consumer may be woken
before the load has its data, and is then held back until the register file
confirms the value. The `count` of the source is the number of filled slots.

Key definitions:
  - `OperandReady`, `IssueQueue.dispatch`, `IssueQueue.wakeupPhys`, `IssueQueue.cancelWakeupPhys`
  - `IssueQueue.select`
  - `FuPool.hasFree`, `FuPool.acquire`
-/
import Rvsim.Config
import Rvsim.Renaming
import Mathlib.Data.List.Sort

namespace Rvsim

/-! ### Operands -/

inductive OperandReady where
  | notReady
  | speculative
  | ready (v : U64)
  deriving DecidableEq, Repr

namespace OperandReady

def isReady : OperandReady → Bool
  | .notReady => false
  | _ => true

def isSpeculative : OperandReady → Bool
  | .speculative => true
  | _ => false

end OperandReady

/-- An operand. The tag of the source is used only without a register file, never here. -/
structure OperandState where
  phys : PhysReg
  readiness : OperandReady
  deriving DecidableEq, Repr

namespace OperandState

/-- `resolve_operand_prf`. -/
def resolve (reg : RegIdx) (isFp : Bool) (phys : PhysReg) (prf : PhysRegFile) : OperandState :=
  if !isFp && reg.isZero then ⟨0, .ready 0⟩
  else if prf.isReady phys then ⟨phys, .ready (prf.read phys)⟩
  else if phys = 0 then ⟨0, .ready 0⟩
  else ⟨phys, .notReady⟩

/-- The operand waits for `p`: give it its value. -/
def wakeup (p : PhysReg) (v : U64) (o : OperandState) : OperandState :=
  if o.phys = p ∧ o.readiness.isReady = false then { o with readiness := .ready v } else o

def speculativeWakeup (p : PhysReg) (o : OperandState) : OperandState :=
  if o.phys = p ∧ o.readiness.isReady = false then { o with readiness := .speculative } else o

def cancelWakeup (p : PhysReg) (o : OperandState) : OperandState :=
  if o.phys = p ∧ o.readiness.isSpeculative then { o with readiness := .notReady } else o

/-- A speculative operand may be used only once the register file has its value. -/
def prfValidated (prf : PhysRegFile) (o : OperandState) : Bool :=
  match o.readiness with
  | .speculative => prf.isReady o.phys
  | _ => true

def value (prf : PhysRegFile) (o : OperandState) : U64 :=
  match o.readiness with
  | .ready v => v
  | .speculative => if o.phys = 0 then 0 else prf.read o.phys
  | .notReady => 0

end OperandState

/-! ### The queue -/

structure IssueQueueEntry where
  entry : RenameIssueEntry
  src1 : OperandState
  src2 : OperandState
  src3 : OperandState
  memDep : MemDepState
  deriving DecidableEq, Repr

namespace IssueQueueEntry

/-- Apply `f` to the three operands. -/
def mapSrc (f : OperandState → OperandState) (q : IssueQueueEntry) : IssueQueueEntry :=
  { q with src1 := f q.src1, src2 := f q.src2, src3 := f q.src3 }

/-- The entry `dispatch` makes of a renamed instruction. -/
def ofRenamed (e : RenameIssueEntry) (prf : PhysRegFile) (memDep : MemDepState) : IssueQueueEntry where
  entry := e
  src1 := .resolve e.rs1 e.ctrl.rs1Fp e.rs1Phys prf
  src2 := .resolve e.rs2 e.ctrl.rs2Fp e.rs2Phys prf
  src3 := if e.ctrl.rs3Fp then .resolve e.rs3 true e.rs3Phys prf else ⟨0, .ready 0⟩
  memDep := memDep

/-- An entry that carries a trap needs no operands. -/
def allReady (q : IssueQueueEntry) : Bool :=
  q.entry.trap.isSome || (q.src1.readiness.isReady && q.src2.readiness.isReady && q.src3.readiness.isReady)

def prfValid (q : IssueQueueEntry) (prf : PhysRegFile) : Bool :=
  q.src1.prfValidated prf && q.src2.prfValidated prf && q.src3.prfValidated prf

def memReady (q : IssueQueueEntry) (sb : StoreBuffer) : Bool :=
  match q.memDep with
  | .none | .bypass | .resolved _ => true
  | .waitAll => !sb.hasUnresolvedStoreBefore q.entry.robTag
  | .waitFor barrier => !sb.isUnresolved barrier

/-- System operations other than FENCE wait for every older instruction to complete. -/
def systemReady (q : IssueQueueEntry) (rob : Rob) : Bool :=
  q.entry.ctrl.systemOp == .none || q.entry.ctrl.systemOp == .fence ||
    rob.allBeforeCompleted q.entry.robTag

def fenceReady (q : IssueQueueEntry) (rob : Rob) : Bool :=
  q.entry.ctrl.systemOp != .fence ||
    rob.fencePredSatisfied q.entry.robTag ((q.entry.inst >>> 24).getLsbD 1)
      ((q.entry.inst >>> 24).getLsbD 0)

def fenceBlocked (q : IssueQueueEntry) (rob : Rob) : Bool :=
  (q.entry.ctrl.memRead || q.entry.ctrl.memWrite) &&
    rob.hasFenceBlocking q.entry.robTag q.entry.ctrl.memRead q.entry.ctrl.memWrite

def selectable (q : IssueQueueEntry) (sb : StoreBuffer) (rob : Rob) (prf : PhysRegFile) : Bool :=
  q.allReady && q.prfValid prf && q.memReady sb && q.systemReady rob && q.fenceReady rob &&
    !q.fenceBlocked rob

/-- The instruction with its operand values filled in. -/
def issued (q : IssueQueueEntry) (prf : PhysRegFile) : RenameIssueEntry :=
  if q.entry.trap.isSome then q.entry
  else { q.entry with rv1 := q.src1.value prf, rv2 := q.src2.value prf, rv3 := q.src3.value prf }

end IssueQueueEntry

structure SelectedEntry where
  entry : RenameIssueEntry
  memDep : MemDepState
  deriving DecidableEq, Repr

structure IssueQueue where
  slots : List (Option IssueQueueEntry)
  deriving DecidableEq, Repr

namespace IssueQueue

def new (capacity : Nat) : IssueQueue := ⟨List.replicate capacity none⟩

/-- The instructions waiting, in slot order. -/
def entries (q : IssueQueue) : List IssueQueueEntry := q.slots.filterMap id

def availableSlots (q : IssueQueue) : Nat := q.slots.countP Option.isNone

def map (q : IssueQueue) (f : IssueQueueEntry → IssueQueueEntry) : IssueQueue :=
  ⟨q.slots.map (Option.map f)⟩

/-- Put an entry into the first empty slot; with none left it is dropped. -/
def putFirst (e : IssueQueueEntry) : List (Option IssueQueueEntry) → List (Option IssueQueueEntry)
  | [] => []
  | none :: rest => some e :: rest
  | some x :: rest => some x :: putFirst e rest

def dispatch (q : IssueQueue) (e : RenameIssueEntry) (prf : PhysRegFile) (memDep : MemDepState) :
    IssueQueue :=
  ⟨putFirst (.ofRenamed e prf memDep) q.slots⟩

def wakeupPhys (q : IssueQueue) (p : PhysReg) (v : U64) : IssueQueue :=
  q.map (·.mapSrc (·.wakeup p v))

def speculativeWakeupPhys (q : IssueQueue) (p : PhysReg) : IssueQueue :=
  if p = 0 then q else q.map (·.mapSrc (·.speculativeWakeup p))

def cancelWakeupPhys (q : IssueQueue) (p : PhysReg) (prf : PhysRegFile) : IssueQueue :=
  if p = 0 ∨ prf.isReady p then q else q.map (·.mapSrc (·.cancelWakeup p))

/-- A store some entry waits for has resolved. -/
def wakeupMemDep (q : IssueQueue) (t : RobTag) : IssueQueue :=
  q.map fun e => if e.memDep = .waitFor t then { e with memDep := .resolved t } else e

def flush (q : IssueQueue) : IssueQueue := ⟨q.slots.map fun _ => none⟩

def flushAfter (q : IssueQueue) (keep : RobTag) : IssueQueue :=
  ⟨q.slots.map fun s => s.filter fun e => !RobTag.isNewerThan e.entry.robTag keep⟩

/-- The selectable entries with their slots, in slot order. -/
def readyIndices (q : IssueQueue) (sb : StoreBuffer) (rob : Rob) (prf : PhysRegFile) :
    List (Nat × IssueQueueEntry) :=
  q.slots.zipIdx.filterMap fun (s, i) =>
    (s.filter fun e => e.selectable sb rob prf).map fun e => (i, e)

/-- `sort_by_key(rob_tag.0)`: by the raw tag, which is not age once tags wrap. -/
def sortByRawTag (es : List (Nat × IssueQueueEntry)) : List (Nat × IssueQueueEntry) :=
  es.insertionSort fun a b => a.2.entry.robTag.toNat ≤ b.2.entry.robTag.toNat

/-- Take up to `width` entries, within the ports left for loads and stores. -/
def pick : (width loads stores : Nat) → List (Nat × IssueQueueEntry) → List (Nat × IssueQueueEntry)
  | _, _, _, [] => []
  | 0, _, _, _ => []
  | width + 1, loads, stores, e :: rest =>
    let isLoad := e.2.entry.ctrl.memRead
    let isStore := e.2.entry.ctrl.memWrite
    if (isLoad && loads == 0) || (isStore && stores == 0) then pick (width + 1) loads stores rest
    else
      e :: pick width (if isLoad then loads - 1 else loads) (if isStore then stores - 1 else stores) rest

/-- Empty the slots with these indices. -/
def clear (q : IssueQueue) (is : List Nat) : IssueQueue :=
  ⟨q.slots.zipIdx.map fun (s, i) => if i ∈ is then none else s⟩

def select (q : IssueQueue) (width : Nat) (sb : StoreBuffer) (rob : Rob) (loadPorts storePorts : Nat)
    (prf : PhysRegFile) : List SelectedEntry × IssueQueue :=
  let picked := pick width loadPorts storePorts (sortByRawTag (q.readyIndices sb rob prf))
  (picked.map fun e => ⟨e.2.issued prf, e.2.memDep⟩, q.clear (picked.map (·.1)))

end IssueQueue

/-! ### Functional units -/

inductive FuType where
  | intAlu | intMul | intDiv | fpAdd | fpMul | fpFma | fpDivSqrt | branch | mem
  deriving DecidableEq, Repr

namespace FuType

def ofAlu : AluOp → FuType
  | .mul | .mulh | .mulhsu | .mulhu => .intMul
  | .div | .divu | .rem | .remu => .intDiv
  | .fMul => .fpMul
  | .fDiv | .fSqrt => .fpDivSqrt
  | .fMAdd | .fMSub | .fNMAdd | .fNMSub => .fpFma
  | .fAdd | .fSub | .fMin | .fMax | .fSgnJ | .fSgnJN | .fSgnJX | .fEq | .fLt | .fLe | .fClass
  | .fCvtWS | .fCvtWUS | .fCvtLS | .fCvtLUS | .fCvtSW | .fCvtSWU | .fCvtSL | .fCvtSLU | .fCvtSD
  | .fCvtDS | .fMvToX | .fMvToF => .fpAdd
  | _ => .intAlu

def classify (c : ControlSignals) : FuType :=
  if c.isMem then .mem else if c.controlFlow ≠ .sequential then .branch else ofAlu c.alu

end FuType

structure FuUnit where
  fuType : FuType
  latency : Nat
  isPipelined : Bool
  busyUntil : Nat := 0
  deriving DecidableEq, Repr

namespace FuUnit

def isFree (u : FuUnit) (now : Nat) : Bool := now ≥ u.busyUntil

def acquire (u : FuUnit) (now : Nat) : FuUnit :=
  { u with busyUntil := if u.isPipelined then now + 1 else now + u.latency }

end FuUnit

structure FuPool where
  units : List FuUnit
  deriving DecidableEq, Repr

namespace FuPool

def new (c : FuConfig) : FuPool :=
  ⟨List.replicate c.numIntAlu ⟨.intAlu, c.intAluLatency, true, 0⟩ ++
    List.replicate c.numIntMul ⟨.intMul, c.intMulLatency, true, 0⟩ ++
    List.replicate c.numIntDiv ⟨.intDiv, c.intDivLatency, false, 0⟩ ++
    List.replicate c.numFpAdd ⟨.fpAdd, c.fpAddLatency, true, 0⟩ ++
    List.replicate c.numFpMul ⟨.fpMul, c.fpMulLatency, true, 0⟩ ++
    List.replicate c.numFpFma ⟨.fpFma, c.fpFmaLatency, true, 0⟩ ++
    List.replicate c.numFpDivSqrt ⟨.fpDivSqrt, c.fpDivSqrtLatency, false, 0⟩ ++
    List.replicate c.numBranch ⟨.branch, c.branchLatency, true, 0⟩ ++
    List.replicate c.numMem ⟨.mem, c.memLatency, true, 0⟩⟩

def hasFree (p : FuPool) (t : FuType) (now : Nat) : Bool :=
  p.units.any fun u => u.fuType == t && u.isFree now

/-- Acquire the first free unit; its completion cycle, or `none` where the source panics. -/
def acquireFirst (t : FuType) (now : Nat) : List FuUnit → Option Nat × List FuUnit
  | [] => (none, [])
  | u :: rest =>
    if u.fuType = t ∧ u.isFree now then (some (now + u.latency), u.acquire now :: rest)
    else
      let (c, us) := acquireFirst t now rest
      (c, u :: us)

/-- Called only after `hasFree`. -/
def acquire (p : FuPool) (t : FuType) (now : Nat) : Nat × FuPool :=
  let (c, us) := acquireFirst t now p.units
  (c.getD now, ⟨us⟩)

def isPipelined (p : FuPool) (t : FuType) : Bool :=
  match p.units.find? fun u => u.fuType == t with
  | some u => u.isPipelined
  | none => true

end FuPool

end Rvsim
