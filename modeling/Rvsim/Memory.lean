/-
# The memory stages and writeback

`backend/shared/memory1.rs`, `memory2.rs` and `writeback.rs`, which both
backends share. Memory1 translates and starts the cache access, memory2
forwards from the store buffer or reads memory and resolves stores,
writeback completes the entry in the reorder buffer. Each stage is a loop
over its latch with early exits: what is said of one entry is in `memory1One`
and `memory2One`, the loops only thread it.

Key definitions:
  - `memory1One`, `memory1Stage`
  - `memory2One`, `memory2Stage`
  - `writebackOne`, `writebackStage`
-/
import Rvsim.Alu
import Rvsim.Cpu
import Mathlib.Data.List.Sort

namespace Rvsim

variable {U : Type}

/-! ### Alignment -/

namespace Unaligned

def isAligned (addr : U64) (size : Nat) : Bool :=
  size == 0 || size == 1 || addr &&& (BitVec.ofNat 64 size - 1) == 0

def crossesCacheLine (addr : U64) (size line : Nat) : Bool :=
  size != 0 && (addr &&& (BitVec.ofNat 64 line - 1)).toNat + (size - 1) ≥ line

/-- Extra cycles of an unaligned access that does not trap. -/
def calculateUnalignedLatency (addr : U64) (size line : Nat) : Nat :=
  if isAligned addr size then 0 else if crossesCacheLine addr size line then 2 else 1

def misalignedTrap (isWrite : Bool) (addr : U64) : Trap :=
  if isWrite then .storeAddressMisaligned addr else .loadAddressMisaligned addr

end Unaligned

/-! ### Memory1 -/

/-- The entry memory1 makes of `ex`; the defaults are those of an entry that trapped. -/
def ExMem1Entry.toMem2 (ex : ExMem1Entry) (completeCycle : Nat) (vaddr : VirtAddr)
    (paddr : PhysAddr := 0) (trap : Option Trap := none) (pteUpdate : Option PteUpdate := none) :
    Mem1Mem2Entry where
  robTag := ex.robTag
  pc := ex.pc
  inst := ex.inst
  instSize := ex.instSize
  rd := ex.rd
  rdPhys := ex.rdPhys
  alu := ex.alu
  vaddr := vaddr
  paddr := paddr
  storeData := ex.storeData
  ctrl := ex.ctrl
  trap := trap
  fpFlags := ex.fpFlags
  completeCycle := completeCycle
  pteUpdate := pteUpdate
  sfenceVma := ex.sfenceVma

/-- What becomes of one entry of the execute latch. -/
inductive Mem1Outcome where
  /-- It goes on to memory2. -/
  | pass (m : Mem1Mem2Entry)
  /-- It goes on with a trap, and the entries behind it wait. -/
  | trapped (m : Mem1Mem2Entry)
  /-- A miss holds it in an MSHR; the wakeup of its register is taken back. -/
  | parked (rdPhys : PhysReg)
  /-- No MSHR is free: it waits, and so do the entries behind it. -/
  | full
  deriving DecidableEq, Repr

/-- A store that is neither a load nor an atomic: its miss does not hold it. -/
def ControlSignals.isStoreOnly (c : ControlSignals) : Bool :=
  c.memWrite && !c.memRead && c.atomicOp == .none

def ControlSignals.accessType (c : ControlSignals) : AccessType := if c.memWrite then .write else .read

/-- A cacheable access with MSHRs present. -/
def mem1Mshr [Units U] (cpu : Cpu U) (ex : ExMem1Entry) (paddr : PhysAddr)
    (pteUpdate : Option PteUpdate) (latency now : Nat) : Mem1Outcome × Cpu U :=
  let done (cpu : Cpu U) : Mem1Outcome :=
    .pass (ex.toMem2 (now + (latency + Units.l1dLatency cpu.units)) ex.alu paddr none pteUpdate)
  let (hit, u) := Units.l1dAccessCheck cpu.units paddr ex.ctrl.memWrite
  let cpu := { cpu with units := u }
  if hit then (done cpu, cpu)
  else
    let l1d := Units.l1dLatency cpu.units
    let (miss, u) := Units.simulateL1dMissLatency cpu.units paddr ex.ctrl.accessType
    let cpu := { cpu with units := u }
    if ex.ctrl.isStoreOnly then
      let (_, mshrs) := cpu.l1dMshrs.request paddr true (l1d + miss) now ⟨ex.robTag, none⟩
      let cpu := { cpu with l1dMshrs := mshrs }
      (done cpu, cpu)
    else
      let parked := ex.toMem2 0 ex.alu paddr none pteUpdate
      let (resp, mshrs) :=
        cpu.l1dMshrs.request paddr ex.ctrl.memWrite (l1d + miss) now ⟨ex.robTag, some parked⟩
      match resp with
      | .mshrFull => (.full, cpu)
      | _ => (.parked ex.rdPhys, { cpu with l1dMshrs := mshrs })

/-- A translated access: record the address, then the cache. -/
def mem1Access [Units U] (cpu : Cpu U) (ex : ExMem1Entry) (paddr : PhysAddr)
    (pteUpdate : Option PteUpdate) (latency now : Nat) : Mem1Outcome × Cpu U :=
  if paddr ≥ cpu.cacheBase && cpu.l1dMshrs.capacity > 0 then
    mem1Mshr cpu ex paddr pteUpdate latency now
  else if paddr ≥ cpu.cacheBase then
    let (lat, u) := Units.simulateMemoryAccess cpu.units paddr ex.ctrl.accessType
    (.pass (ex.toMem2 (now + (latency + lat)) ex.alu paddr none pteUpdate), { cpu with units := u })
  else (.pass (ex.toMem2 (now + latency) ex.alu paddr none pteUpdate), cpu)

def fillAddressOpt (lq : Option LoadQueue) (ex : ExMem1Entry) (paddr : PhysAddr) : Option LoadQueue :=
  if ex.ctrl.memRead then lq.map fun q => q.fillAddress ex.robTag ex.alu paddr else lq

/-- Alignment, translation and address checks of a load or store, then the access. -/
def mem1Translate [Units U] (cpu : Cpu U) (ex : ExMem1Entry) (now : Nat) (lq : Option LoadQueue) :
    Mem1Outcome × Cpu U × Option LoadQueue :=
  let size := ex.ctrl.width.bytes
  if !Unaligned.isAligned ex.alu size && (cpu.misalignedAccessTrap || ex.ctrl.atomicOp != .none) then
    (.trapped (ex.toMem2 now ex.alu 0 (some (Unaligned.misalignedTrap ex.ctrl.memWrite ex.alu))),
      cpu, lq)
  else
    let penalty := Unaligned.calculateUnalignedLatency ex.alu size 64
    let (r, cpu) := cpu.translate ex.alu ex.ctrl.accessType size
    let latency := penalty + r.cycles
    match r.trap with
    | some t => (.trapped (ex.toMem2 (now + latency) ex.alu 0 (some t)), cpu, lq)
    | none =>
      if cpu.privilege != .machine && !Units.isValidAddress cpu.units r.paddr then
        (.trapped (ex.toMem2 (now + latency) ex.alu 0
          (some (Cpu.accessFault ex.ctrl.accessType ex.alu))), cpu, lq)
      else
        let (o, cpu) := mem1Access cpu ex r.paddr r.pteUpdate latency now
        (o, cpu, fillAddressOpt lq ex r.paddr)

def memory1One [Units U] (cpu : Cpu U) (ex : ExMem1Entry) (now : Nat) (lq : Option LoadQueue) :
    Mem1Outcome × Cpu U × Option LoadQueue :=
  match ex.trap with
  | some t => (.trapped (ex.toMem2 now ex.alu 0 (some t)), cpu, lq)
  | none =>
    if ex.ctrl.memRead || ex.ctrl.memWrite then mem1Translate cpu ex now lq
    else (.pass (ex.toMem2 now 0), cpu, lq)

/-- Memory1 after its loop: `input` is what was pushed back. -/
structure Mem1Out (U : Type) where
  cpu : Cpu U
  input : List ExMem1Entry
  output : List Mem1Mem2Entry
  lq : Option LoadQueue
  cancelled : List PhysReg

def memory1Stage [Units U] (cpu : Cpu U) (input : List ExMem1Entry) (output : List Mem1Mem2Entry)
    (now : Nat) (lq : Option LoadQueue) (cancelled : List PhysReg := []) : Mem1Out U :=
  match input with
  | [] => ⟨cpu, [], output, lq, cancelled⟩
  | ex :: rest =>
    match memory1One cpu ex now lq with
    | (.pass m, cpu, lq) => memory1Stage cpu rest (output ++ [m]) now lq cancelled
    | (.trapped m, cpu, lq) => ⟨cpu, rest, output ++ [m], lq, cancelled⟩
    | (.parked p, cpu, lq) => memory1Stage cpu rest output now lq (cancelled ++ [p])
    | (.full, cpu, lq) => ⟨cpu, ex :: rest, output, lq, cancelled⟩

/-! ### Memory2 -/

/-- Sign- or zero-extension of a loaded value, as the load asks; an FP word is NaN-boxed. -/
def extendLoad (c : ControlSignals) (v : U64) : U64 :=
  let v :=
    if c.signedLoad then
      match c.width with
      | .byte => (v.setWidth 8).signExtend 64
      | .half => (v.setWidth 16).signExtend 64
      | .word => (v.setWidth 32).signExtend 64
      | _ => v
    else v
  if c.fpRegWrite && c.width == .word then v ||| 0xFFFFFFFF00000000 else v

/-- Old value of an LR or an AMO: a sign-extended word, a double, or nothing. -/
def atomicRead [Units U] (cpu : Cpu U) (paddr : PhysAddr) (w : MemWidth) : U64 × Cpu U :=
  match w with
  | .word =>
    let (v, cpu) := cpu.busRead paddr .word
    ((v.setWidth 32).signExtend 64, cpu)
  | .double => cpu.busRead paddr .double
  | _ => (0, cpu)

def Mem1Mem2Entry.toWb (m : Mem1Mem2Entry) (loadData : U64) (trap : Option Trap := none)
    (lrSc : Option LrScRecord := none) : Mem2WbEntry where
  robTag := m.robTag
  pc := m.pc
  inst := m.inst
  instSize := m.instSize
  rd := m.rd
  rdPhys := m.rdPhys
  alu := m.alu
  loadData := loadData
  ctrl := m.ctrl
  trap := trap
  fpFlags := m.fpFlags
  pteUpdate := m.pteUpdate
  sfenceVma := m.sfenceVma
  lrSc := lrSc

/-- What memory2 works on besides its latches. -/
structure Mem2State (U : Type) where
  cpu : Cpu U
  sb : StoreBuffer
  lq : Option LoadQueue
  /-- Oldest load found to have run too early, with the pc of the store that found it. -/
  violation : Option (RobTag × U64) := none

/-- A resolved store checks the load queue and keeps the older violating load. -/
def Mem2State.checkViolation (s : Mem2State U) (m : Mem1Mem2Entry) : Mem2State U :=
  match s.lq.bind fun q => q.checkOrderingViolation m.paddr m.ctrl.width m.robTag with
  | none => s
  | some t =>
    match s.violation with
    | none => { s with violation := some (t, m.pc) }
    | some (prev, _) => if RobTag.isOlderThan t prev then { s with violation := some (t, m.pc) } else s

def Mem2State.resolve (s : Mem2State U) (m : Mem1Mem2Entry) (data : U64) : Mem2State U :=
  { s with sb := s.sb.resolve m.robTag m.vaddr m.paddr data }

/-- An atomic in memory2; `none` when it has to wait for an older store. -/
def mem2Atomic [Units U] (s : Mem2State U) (m : Mem1Mem2Entry) : Option (Mem2WbEntry × Mem2State U) :=
  match m.ctrl.atomicOp with
  | .lr =>
    if s.sb.hasOlderStoreTo m.paddr m.ctrl.width m.robTag then none
    else
      let (v, cpu) := atomicRead s.cpu m.paddr m.ctrl.width
      some (m.toWb v none (some (.lr m.paddr)), { s with cpu })
  | .sc => some (m.toWb 0 none (some (.sc m.paddr)), (s.resolve m m.storeData).checkViolation m)
  | op =>
    if s.sb.hasOlderStoreTo m.paddr m.ctrl.width m.robTag then none
    else
      let (old, cpu) := atomicRead s.cpu m.paddr m.ctrl.width
      let new := Lsu.atomicAlu op old m.storeData m.ctrl.width
      some (m.toWb old, (({ s with cpu } : Mem2State U).resolve m new).checkViolation m)

/-- A load in memory2; `none` when it has to wait for a store that covers it partly. -/
def mem2Load [Units U] (s : Mem2State U) (m : Mem1Mem2Entry) : Option (Mem2WbEntry × Mem2State U) :=
  match s.sb.forwardLoad m.paddr m.ctrl.width m.robTag with
  | .hit v =>
    let ld := extendLoad m.ctrl v
    some (m.toWb ld, { s with lq := s.lq.map fun q => q.fillData m.robTag ld })
  | .stall => none
  | .miss =>
    let (v, cpu) := s.cpu.loadPhys m.paddr m.ctrl.width
    let ld := extendLoad m.ctrl v
    some (m.toWb ld, { s with cpu, lq := s.lq.map fun q => q.fillData m.robTag ld })

/-- One entry without a trap; `none` means it stays in the latch, and so do those behind it. -/
def memory2One [Units U] (s : Mem2State U) (m : Mem1Mem2Entry) : Option (Mem2WbEntry × Mem2State U) :=
  if m.ctrl.atomicOp ≠ .none then mem2Atomic s m
  else if m.ctrl.memRead then mem2Load s m
  else if m.ctrl.memWrite then some (m.toWb 0, (s.resolve m m.storeData).checkViolation m)
  else some (m.toWb 0, s)

/-- The loop of memory2: what is left in the latch, what goes to writeback, the state. -/
def memory2Loop [Units U] (s : Mem2State U) :
    List Mem1Mem2Entry → List Mem1Mem2Entry × List Mem2WbEntry × Mem2State U
  | [] => ([], [], s)
  | m :: rest =>
    match m.trap with
    | some t => (rest, [m.toWb 0 (some t)], s)
    | none =>
      match memory2One s m with
      | none => (m :: rest, [], s)
      | some (wb, s) =>
        let (left, out, s) := memory2Loop s rest
        (left, wb :: out, s)

/-- `entries.sort_by_key(|e| e.rob_tag.0)`: by the raw tag, which is not age once tags wrap. -/
def sortByRawTag (es : List Mem1Mem2Entry) : List Mem1Mem2Entry :=
  es.insertionSort fun a b => a.robTag.toNat ≤ b.robTag.toNat

def memory2Stage [Units U] (s : Mem2State U) (input : List Mem1Mem2Entry) :
    List Mem1Mem2Entry × List Mem2WbEntry × Mem2State U :=
  memory2Loop s (sortByRawTag input)

/-! ### Writeback -/

/-- The register result: loaded data, link address of a jump, or the ALU's. -/
def Mem2WbEntry.result (wb : Mem2WbEntry) : U64 :=
  if wb.ctrl.memRead then wb.loadData
  else if wb.ctrl.controlFlow = .jump then wb.pc + wb.instSize.asU64
  else wb.alu

/-- The records an entry carries to commit. -/
def Mem2WbEntry.record (wb : Mem2WbEntry) (e : RobEntry) : RobEntry :=
  { e with
    fpFlags := e.fpFlags ||| wb.fpFlags
    pteUpdate := wb.pteUpdate.or e.pteUpdate
    sfenceVma := wb.sfenceVma.or e.sfenceVma
    lrSc := wb.lrSc.or e.lrSc }

def writebackOne (rob : Rob) (wb : Mem2WbEntry) : Rob :=
  match wb.trap with
  | some t => rob.fault wb.robTag t
  | none => (rob.modify wb.robTag wb.record).complete wb.robTag wb.result

def writebackStage (rob : Rob) (input : List Mem2WbEntry) : Rob := input.foldl writebackOne rob

end Rvsim
