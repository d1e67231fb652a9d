/-
# Fetch and decode

`frontend/fetch1.rs`, `fetch2.rs` and `decode.rs` (`decode_stage`), with the
latches between them. Fetch1 translates, predicts and moves `cpu.pc` on;
fetch2 reads the words (again, from memory as it is then) and waits out the
instruction cache; decode drops canonical NOPs and, without renaming, ends a
bundle at the first dependence inside it.

Key definitions:
  - `fetch1Stage`, `fetch2Stage`, `decodeStage`
  - `Frontend`, `Frontend.flush`
-/
import Rvsim.Cpu
import Rvsim.Decode

namespace Rvsim

variable {U : Type}

/-! ### Fetch1 -/

def Csr.misaExtC : U64 := 1 <<< 2

/-- A half word through the RAM pointer when the address is in RAM, else over the bus. -/
def fetchHalf [Units U] (cpu : Cpu U) (a : PhysAddr) : U16 × Cpu U :=
  let (v, cpu) := cpu.loadPhys a .half
  (v.setWidth 16, cpu)

def isCompressed (half : U16) : Bool := half &&& 3 != 3

def crossesPage (pc : U64) : Bool := pc >>> 12 != (pc + 2) >>> 12

/-- A prediction: where fetch goes next, if not to the following instruction. -/
structure Prediction where
  target : Option U64 := none
  /-- The fetch group ends here. -/
  stop : Bool := false
  deriving DecidableEq, Repr

def predictBranchAt [Units U] (cpu : Cpu U) (pc : U64) : Prediction × Cpu U :=
  match Units.predictBranch cpu.units pc with
  | ((true, some t), u) => (⟨some t, true⟩, { cpu with units := u })
  | (_, u) => ({}, { cpu with units := u })

def isLink (r : RegIdx) : Bool := r == 1 || r == 5

/-- The prediction for a full-size word. -/
def predictWord [Units U] (cpu : Cpu U) (pc : U64) (inst : U32) : Prediction × Cpu U :=
  if Inst.opcode inst = Op.branch then predictBranchAt cpu pc
  else if Inst.opcode inst = Op.jal then
    let (t, u) := Units.predictBtb cpu.units pc
    (⟨t, t.isSome⟩, { cpu with units := u })
  else if Inst.opcode inst = Op.jalr then
    let rd := Inst.rd inst
    let rs1 := Inst.rs1 inst
    let (t, u) :=
      if isLink rs1 && (!isLink rd || rd != rs1) then Units.predictReturn cpu.units
      else Units.predictBtb cpu.units pc
    (⟨t, true⟩, { cpu with units := u })
  else ({}, cpu)

/-- The prediction for a compressed word: only `C.BEQZ` and `C.BNEZ` are predicted. -/
def predictHalf [Units U] (cpu : Cpu U) (pc : U64) (half : U16) : Prediction × Cpu U :=
  let f := (half >>> 13) &&& 7
  if half &&& 3 = 1 ∧ (f = 6 ∨ f = 7) then predictBranchAt cpu pc else ({}, cpu)

/-- What one step of the fetch loop did. -/
inductive FetchStep where
  /-- The group ends with this entry, `cpu.pc` stays at it. -/
  | last (e : Fetch1Fetch2Entry)
  /-- The entry, where fetch goes next, whether the group ends. -/
  | next (e : Fetch1Fetch2Entry) (pc : U64) (stop : Bool)

/-- One instruction at `pc`, already translated to `paddr`; `stall` grows by page-walk cycles. -/
def fetch1Word [Units U] (cpu : Cpu U) (pc : U64) (paddr : PhysAddr) (stall : Nat) :
    FetchStep × Nat × Cpu U :=
  let entry (p : Prediction) : Fetch1Fetch2Entry := ⟨pc, paddr, p.target.isSome, p.target.getD 0, none⟩
  let (half, cpu) := fetchHalf cpu paddr
  if isCompressed half then
    let (p, cpu) := predictHalf cpu pc half
    (.next (entry p) (p.target.getD (pc + 2)) p.stop, stall, cpu)
  else
    let (r, cpu) : TranslationResult × Cpu U :=
      if crossesPage pc then cpu.translate (pc + 2) .fetch 2 else (⟨paddr + 2, 0, none, none⟩, cpu)
    if r.trap.isSome then (.last (entry {}), stall + r.cycles, cpu)
    else
      let (upper, cpu) := fetchHalf cpu r.paddr
      let (p, cpu) := predictWord cpu pc (upper ++ half)
      (.next (entry p) (p.target.getD (pc + 4)) p.stop, stall + r.cycles, cpu)

/-- The fetch loop: up to `n` instructions of one cache line, from `pc`. -/
def fetch1Loop [Units U] (lineEnd alignMask : U64) : Nat → Cpu U → U64 → List Fetch1Fetch2Entry →
    Nat → List Fetch1Fetch2Entry × U64 × Nat × Cpu U
  | 0, cpu, pc, out, stall => (out, pc, stall, cpu)
  | n + 1, cpu, pc, out, stall =>
    if pc + 2 > lineEnd then (out, pc, stall, cpu)
    else if pc &&& alignMask ≠ 0 then
      if out.isEmpty then
        (out ++ [⟨pc, 0, false, 0, some (.instructionAddressMisaligned pc)⟩], pc, stall, cpu)
      else (out, pc, stall, cpu)
    else
      let (r, cpu) := cpu.translate pc .fetch 4
      let stall := stall + r.cycles
      match r.trap with
      | some t => (out ++ [⟨pc, 0, false, 0, some t⟩], pc, stall, cpu)
      | none =>
        match fetch1Word cpu pc r.paddr stall with
        | (.last e, stall, cpu) => (out ++ [e], pc, stall, cpu)
        | (.next e next stop, stall, cpu) =>
          if stop then (out ++ [e], next, stall, cpu)
          else fetch1Loop lineEnd alignMask n cpu next (out ++ [e]) stall

def fetch1Stage [Units U] (cpu : Cpu U) (stall : Nat) : List Fetch1Fetch2Entry × Nat × Cpu U :=
  let lineEnd := (cpu.pc ||| (BitVec.ofNat 64 cpu.iCacheLineBytes - 1)) + 1
  let alignMask : U64 := if cpu.csrs.misa &&& Csr.misaExtC ≠ 0 then 1 else 3
  let (out, pc, stall, cpu) := fetch1Loop lineEnd alignMask cpu.pipelineWidth cpu cpu.pc [] stall
  (out, stall, { cpu with pc := pc })

/-! ### Fetch2 -/

/-- Instruction-cache cycles: one access a line, up to the first entry that trapped. -/
def icachePenalty [Units U] (mask : U64) : U64 → Cpu U → List Fetch1Fetch2Entry → Nat × Cpu U
  | _, cpu, [] => (0, cpu)
  | last, cpu, f :: rest =>
    if f.trap.isSome then (0, cpu)
    else
      let line := f.paddr &&& mask
      if line = last then icachePenalty mask last cpu rest
      else
        let (c, u) := Units.simulateMemoryAccess cpu.units f.paddr .fetch
        let (p, cpu) := icachePenalty mask line { cpu with units := u } rest
        (c + p, cpu)

/-- The word at an entry: the word, its size, a trap, and page-walk cycles. -/
def fetch2Word [Units U] (cpu : Cpu U) (f : Fetch1Fetch2Entry) :
    (U32 × InstSize × Option Trap × Nat) × Cpu U :=
  let (half, cpu) := fetchHalf cpu f.paddr
  if isCompressed half then
    let inst := Units.expand U half
    if inst = 0 then ((0, .compressed, some (.illegalInstruction (half.setWidth 32)), 0), cpu)
    else ((inst, .compressed, none, 0), cpu)
  else
    let (r, cpu) : TranslationResult × Cpu U :=
      if crossesPage f.pc then cpu.translate (f.pc + 2) .fetch 2
      else (⟨f.paddr + 2, 0, none, none⟩, cpu)
    match r.trap with
    | some t => ((0, .standard, some t, r.cycles), cpu)
    | none =>
      let (upper, cpu) := fetchHalf cpu r.paddr
      ((upper ++ half, .standard, none, r.cycles), cpu)

/-- The loop over fetched entries; it ends at the first trap. -/
def fetch2Loop [Units U] : Cpu U → List Fetch1Fetch2Entry → List IfIdEntry × Nat × Cpu U
  | cpu, [] => ([], 0, cpu)
  | cpu, f :: rest =>
    match f.trap with
    | some t => ([⟨f.pc, 0, .standard, f.predTaken, f.predTarget, some t⟩], 0, cpu)
    | none =>
      match fetch2Word cpu f with
      | ((_, size, some t, c), cpu) => ([⟨f.pc, 0, size, f.predTaken, f.predTarget, some t⟩], c, cpu)
      | ((inst, size, none, c), cpu) =>
        let (es, c', cpu) := fetch2Loop cpu rest
        (⟨f.pc, inst, size, f.predTaken, f.predTarget, none⟩ :: es, c + c', cpu)

/-! ### Decode -/

/-- The sources of `d` do not read what an earlier instruction of the bundle writes. -/
def bundleHazard (writes : List (RegIdx × Bool)) (d : Decoded) (rs3 : RegIdx) (c : ControlSignals) :
    Bool :=
  ((!d.rs1.isZero || c.rs1Fp) && writes.contains (d.rs1, c.rs1Fp)) ||
  ((!d.rs2.isZero || c.rs2Fp) && writes.contains (d.rs2, c.rs2Fp)) ||
  (c.rs3Fp && writes.contains (rs3, true))

def bundleWrites (d : Decoded) (c : ControlSignals) : List (RegIdx × Bool) :=
  (if c.regWrite && !d.rd.isZero then [(d.rd, false)] else []) ++
    (if c.fpRegWrite then [(d.rd, true)] else [])

/-- One fetched word, decoded. -/
def decodeEntry (e : IfIdEntry) : IdExEntry :=
  let d := decode e.inst
  let base : IdExEntry :=
    { pc := e.pc, inst := e.inst, instSize := e.instSize, rs1 := d.rs1, rs2 := d.rs2,
      rs3 := Inst.rs3 e.inst, rd := d.rd, imm := d.imm, trap := none,
      predTaken := e.predTaken, predTarget := e.predTarget }
  match decodeInstruction e.inst e.pc d with
  | .ok c => { base with ctrl := c }
  | .error t => { base with trap := some t }

/-- `decode_stage`: what stays in the latch and what is decoded. -/
def decodeStage (renames : Bool) (writes : List (RegIdx × Bool)) :
    List IfIdEntry → List IfIdEntry × List IdExEntry
  | [] => ([], [])
  | e :: rest =>
    match e.trap with
    | some t => (rest, [{ pc := e.pc, inst := e.inst, instSize := e.instSize, trap := some t }])
    | none =>
      -- canonical NOPs never reach rename
      if e.inst = Inst.nop then decodeStage renames writes rest
      else
        let d := decode e.inst
        let id := decodeEntry e
        if !renames && bundleHazard writes d id.rs3 id.ctrl then (e :: rest, [])
        else if id.trap.isSome then (rest, [id])
        else
          let (left, out) := decodeStage renames (writes ++ bundleWrites d id.ctrl) rest
          (left, id :: out)

/-! ### The latches -/

structure Frontend where
  fetch1Fetch2 : List Fetch1Fetch2Entry := []
  fetch2Decode : List IfIdEntry := []
  decodeRename : List IdExEntry := []
  fetch1Stall : Nat := 0
  fetch2Stall : Nat := 0
  fetch2Pending : List IfIdEntry := []
  deriving DecidableEq, Repr

namespace Frontend

def flush (_ : Frontend) : Frontend := {}

/-- `fetch2_stage`: with an instruction-cache penalty the words wait in `fetch2Pending`. -/
def fetch2Stage [Units U] (f : Frontend) (cpu : Cpu U) : Frontend × Cpu U :=
  let f := { f with fetch2Decode := [], fetch2Pending := [] }
  if f.fetch1Fetch2.isEmpty then (f, cpu)
  else
    let (penalty, cpu) :=
      if Units.l1iEnabled cpu.units then
        icachePenalty (~~~(BitVec.ofNat 64 cpu.iCacheLineBytes - 1)) (BitVec.allOnes 64) cpu f.fetch1Fetch2
      else (0, cpu)
    let (es, cycles, cpu) := fetch2Loop cpu f.fetch1Fetch2
    let f := { f with fetch1Fetch2 := [], fetch2Stall := f.fetch2Stall + penalty + cycles }
    (if penalty > 0 then { f with fetch2Pending := es } else { f with fetch2Decode := es }, cpu)

/-- Decode, when rename took everything. -/
def tickDecode (f : Frontend) (renames : Bool) : Frontend :=
  if f.decodeRename.isEmpty then
    let (left, out) := decodeStage renames [] f.fetch2Decode
    { f with fetch2Decode := left, decodeRename := out }
  else f

def tickFetch2 [Units U] (f : Frontend) (cpu : Cpu U) : Frontend × Cpu U :=
  if f.fetch2Stall > 0 then
    let f := { f with fetch2Stall := f.fetch2Stall - 1 }
    (if f.fetch2Stall = 0 then
      { f with fetch2Decode := f.fetch2Decode ++ f.fetch2Pending, fetch2Pending := [] } else f, cpu)
  else if f.fetch2Decode.isEmpty then f.fetch2Stage cpu
  else (f, cpu)

def tickFetch1 [Units U] (f : Frontend) (cpu : Cpu U) : Frontend × Cpu U :=
  if f.fetch1Stall > 0 then ({ f with fetch1Stall := f.fetch1Stall - 1 }, cpu)
  else if f.fetch1Fetch2.isEmpty then
    let (out, stall, cpu) := fetch1Stage cpu f.fetch1Stall
    ({ f with fetch1Fetch2 := out, fetch1Stall := stall }, cpu)
  else (f, cpu)

/-- The stages behind rename, in their order. -/
def tickBehind [Units U] (f : Frontend) (cpu : Cpu U) (renames : Bool) : Frontend × Cpu U :=
  let (f, cpu) := (f.tickDecode renames).tickFetch2 cpu
  f.tickFetch1 cpu

end Frontend

end Rvsim
