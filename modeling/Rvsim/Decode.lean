/-
# Decoding

`isa/decode.rs`, `isa/instruction.rs` and `decode_instruction` of
`frontend/decode.rs`: fields and immediates of a 32-bit word, then its
control signals or the trap it raises.

Key definitions:
  - `Decoded`, `decode`
  - `decodeInstruction`
Key theorems:
  - `decodeInstruction_cases`: the shapes of the signals it returns
  - `decodeInstruction_writes`: at most one destination file
-/
import Rvsim.Common

namespace Rvsim

/-! ### Fields and immediates -/

abbrev Opcode := BitVec 7
abbrev Funct3 := BitVec 3
abbrev Funct7 := BitVec 7

namespace Op

def load : Opcode := 0b0000011
def imm : Opcode := 0b0010011
def auipc : Opcode := 0b0010111
def imm32 : Opcode := 0b0011011
def store : Opcode := 0b0100011
def reg : Opcode := 0b0110011
def lui : Opcode := 0b0110111
def reg32 : Opcode := 0b0111011
def branch : Opcode := 0b1100011
def jalr : Opcode := 0b1100111
def jal : Opcode := 0b1101111
def miscMem : Opcode := 0b0001111
def amo : Opcode := 0b0101111
def loadFp : Opcode := 0b0000111
def storeFp : Opcode := 0b0100111
def fp : Opcode := 0b1010011
def fmadd : Opcode := 0b1000011
def fmsub : Opcode := 0b1000111
def fnmsub : Opcode := 0b1001011
def fnmadd : Opcode := 0b1001111
def system : Opcode := 0b1110011

end Op

namespace Inst

def ecall : U32 := 0x00000073
def ebreak : U32 := 0x00100073
def mret : U32 := 0x30200073
def sret : U32 := 0x10200073
def wfi : U32 := 0x10500073
def sfenceVma : U32 := 0x12000073
def nop : U32 := 0x00000013

def opcode (w : U32) : Opcode := w.setWidth 7
def rd (w : U32) : RegIdx := (w >>> 7).setWidth 5
def rs1 (w : U32) : RegIdx := (w >>> 15).setWidth 5
def rs2 (w : U32) : RegIdx := (w >>> 20).setWidth 5
def rs3 (w : U32) : RegIdx := (w >>> 27).setWidth 5
def funct3 (w : U32) : Funct3 := (w >>> 12).setWidth 3
def funct7 (w : U32) : Funct7 := (w >>> 25).setWidth 7
def csr (w : U32) : CsrAddr := (w >>> 20).setWidth 12

end Inst

structure Decoded where
  raw : U32
  opcode : Opcode
  rd : RegIdx
  rs1 : RegIdx
  rs2 : RegIdx
  funct3 : Funct3
  funct7 : Funct7
  imm : U64
  deriving DecidableEq, Repr

def decodeITypeImm (w : U32) : U64 := (w.sshiftRight 20).signExtend 64

def decodeSTypeImm (w : U32) : U64 :=
  (((w >>> 25).setWidth 7 ++ (w >>> 7).setWidth 5 : BitVec 12)).signExtend 64

def decodeBTypeImm (w : U32) : U64 :=
  ((w >>> 31).setWidth 1 ++ (w >>> 7).setWidth 1 ++ (w >>> 25).setWidth 6 ++
    (w >>> 8).setWidth 4 ++ (0 : BitVec 1) : BitVec 13).signExtend 64

def decodeUTypeImm (w : U32) : U64 := (w &&& 0xFFFFF000).signExtend 64

def decodeJTypeImm (w : U32) : U64 :=
  ((w >>> 31).setWidth 1 ++ (w >>> 12).setWidth 8 ++ (w >>> 20).setWidth 1 ++
    (w >>> 21).setWidth 10 ++ (0 : BitVec 1) : BitVec 21).signExtend 64

def decodeImm (w : U32) : U64 :=
  let op := Inst.opcode w
  if op = Op.imm ∨ op = Op.load ∨ op = Op.jalr ∨ op = Op.imm32 ∨ op = Op.loadFp then
    decodeITypeImm w
  else if op = Op.store ∨ op = Op.storeFp then decodeSTypeImm w
  else if op = Op.branch then decodeBTypeImm w
  else if op = Op.lui ∨ op = Op.auipc then decodeUTypeImm w
  else if op = Op.jal then decodeJTypeImm w
  else 0

def decode (w : U32) : Decoded where
  raw := w
  opcode := Inst.opcode w
  rd := Inst.rd w
  rs1 := Inst.rs1 w
  rs2 := Inst.rs2 w
  funct3 := Inst.funct3 w
  funct7 := Inst.funct7 w
  imm := decodeImm w

/-! ### Control signals

One function per group of opcodes; `none` is `IllegalInstruction(inst)`. -/

def loadWidth (f : Funct3) : Option (MemWidth × Bool) :=
  if f = 0 then some (.byte, true)
  else if f = 1 then some (.half, true)
  else if f = 2 then some (.word, true)
  else if f = 3 then some (.double, true)
  else if f = 4 then some (.byte, false)
  else if f = 5 then some (.half, false)
  else if f = 6 then some (.word, false)
  else none

def storeWidth (f : Funct3) : Option MemWidth :=
  if f = 0 then some .byte
  else if f = 1 then some .half
  else if f = 2 then some .word
  else if f = 3 then some .double
  else none

/-- Widths of FP loads and stores, and of AMOs: only word and double. -/
def wordOrDouble (f : Funct3) : Option MemWidth :=
  if f = 2 then some .word else if f = 3 then some .double else none

/-- Register-immediate operation; bit 5 of `funct7` picks `SRA`. -/
def immAlu (f3 : Funct3) (f7 : Funct7) : AluOp :=
  if f3 = 0 then .add
  else if f3 = 2 then .slt
  else if f3 = 3 then .sltu
  else if f3 = 4 then .xor
  else if f3 = 6 then .or
  else if f3 = 7 then .and
  else if f3 = 1 then .sll
  else if f7 &&& 0x20 ≠ 0 then .sra
  else .srl

def mulAlu (f3 : Funct3) : AluOp :=
  if f3 = 0 then .mul
  else if f3 = 1 then .mulh
  else if f3 = 2 then .mulhsu
  else if f3 = 3 then .mulhu
  else if f3 = 4 then .div
  else if f3 = 5 then .divu
  else if f3 = 6 then .rem
  else .remu

def regAlu (f3 : Funct3) (f7 : Funct7) : Option AluOp :=
  if f7 = 1 then some (mulAlu f3)
  else if f3 = 0 ∧ f7 = 0 then some .add
  else if f3 = 0 ∧ f7 = 0x20 then some .sub
  else if f3 = 1 ∧ f7 = 0 then some .sll
  else if f3 = 2 ∧ f7 = 0 then some .slt
  else if f3 = 3 ∧ f7 = 0 then some .sltu
  else if f3 = 4 ∧ f7 = 0 then some .xor
  else if f3 = 5 ∧ f7 = 0 then some .srl
  else if f3 = 5 ∧ f7 = 0x20 then some .sra
  else if f3 = 6 ∧ f7 = 0 then some .or
  else if f3 = 7 ∧ f7 = 0 then some .and
  else none

def amoOp (f5 : BitVec 5) : Option AtomicOp :=
  if f5 = 0b00010 then some .lr
  else if f5 = 0b00011 then some .sc
  else if f5 = 0b00001 then some .swap
  else if f5 = 0b00000 then some .add
  else if f5 = 0b00100 then some .xor
  else if f5 = 0b01100 then some .and
  else if f5 = 0b01000 then some .or
  else if f5 = 0b10000 then some .min
  else if f5 = 0b10100 then some .max
  else if f5 = 0b11000 then some .minu
  else if f5 = 0b11100 then some .maxu
  else none

/-- `rs2` field of an integer conversion: `W`, `WU`, `L`, `LU`. -/
def cvtSelect (rs2 : RegIdx) (w wu l lu : AluOp) : Option AluOp :=
  if rs2 = 0 then some w
  else if rs2 = 1 then some wu
  else if rs2 = 2 then some l
  else if rs2 = 3 then some lu
  else none

/-- The `OP_FP` group: `c` already has both FP sources and the FP destination set. -/
def decodeFp (d : Decoded) (c : ControlSignals) : Option ControlSignals :=
  let f7 := d.funct7
  let f3 := d.funct3
  let toX (op : AluOp) : ControlSignals := { c with fpRegWrite := false, regWrite := true, alu := op }
  let fromX (op : AluOp) : ControlSignals := { c with rs1Fp := false, fpRegWrite := true, alu := op }
  if f7 = 0b0000000 ∨ f7 = 0b0000001 then some { c with alu := .fAdd }
  else if f7 = 0b0000100 ∨ f7 = 0b0000101 then some { c with alu := .fSub }
  else if f7 = 0b0001000 ∨ f7 = 0b0001001 then some { c with alu := .fMul }
  else if f7 = 0b0001100 ∨ f7 = 0b0001101 then some { c with alu := .fDiv }
  else if f7 = 0b0101100 ∨ f7 = 0b0101101 then some { c with alu := .fSqrt }
  else if f7 = 0b0010000 ∨ f7 = 0b0010001 then
    if f3 = 0 then some { c with alu := .fSgnJ }
    else if f3 = 1 then some { c with alu := .fSgnJN }
    else if f3 = 2 then some { c with alu := .fSgnJX }
    else none
  else if f7 = 0b0010100 ∨ f7 = 0b0010101 then
    if f3 = 0 then some { c with alu := .fMin }
    else if f3 = 1 then some { c with alu := .fMax }
    else none
  else if f7 = 0b1010000 ∨ f7 = 0b1010001 then
    if f3 = 2 then some (toX .fEq)
    else if f3 = 1 then some (toX .fLt)
    else if f3 = 0 then some (toX .fLe)
    else none
  else if f7 = 0b1110000 ∨ f7 = 0b1110001 then
    if f3 = 0 then some (toX .fMvToX) else if f3 = 1 then some (toX .fClass) else none
  else if f7 = 0b1111000 ∨ f7 = 0b1111001 then some (fromX .fMvToF)
  else if f7 = 0b1100000 ∨ f7 = 0b1100001 then
    (cvtSelect d.rs2 .fCvtWS .fCvtWUS .fCvtLS .fCvtLUS).map toX
  else if f7 = 0b1101000 ∨ f7 = 0b1101001 then
    (cvtSelect d.rs2 .fCvtSW .fCvtSWU .fCvtSL .fCvtSLU).map fromX
  else if f7 = 0b0100001 then some { c with alu := .fCvtDS }
  else if f7 = 0b0100000 then some { c with alu := .fCvtSD }
  else none

def csrOpOf (f3 : Funct3) : CsrOp :=
  if f3 = 1 then .rw
  else if f3 = 2 then .rs
  else if f3 = 3 then .rc
  else if f3 = 5 then .rwi
  else if f3 = 6 then .rsi
  else if f3 = 7 then .rci
  else .none

/-- The SYSTEM group. A `funct3` of 4 is no CSR access but is accepted all the same. -/
def decodeSystem (w : U32) (pc : U64) (d : Decoded) : Except Trap ControlSignals :=
  if w &&& 0xFE007FFF = Inst.sfenceVma then .ok { systemOp := .sfenceVma }
  else if w = Inst.ebreak then .error (.breakpoint pc)
  else if w = Inst.mret then .ok { systemOp := .mret }
  else if w = Inst.sret then .ok { systemOp := .sret }
  else if w = Inst.wfi then .ok { systemOp := .wfi }
  else if w = Inst.ecall then .ok { systemOp := .system }
  else if d.funct3 ≠ 0 then
    .ok
      { systemOp := .system
        csrAddr := Inst.csr w
        bSrc := .zero
        csrOp := csrOpOf d.funct3
        regWrite := !d.rd.isZero }
  else .ok {}

/-- The groups other than SYSTEM. -/
def decodeCommon (d : Decoded) : Option ControlSignals :=
  if d.opcode = Op.lui then some { regWrite := true, aSrc := .zero }
  else if d.opcode = Op.auipc then some { regWrite := true, aSrc := .pc }
  else if d.opcode = Op.jal ∨ d.opcode = Op.jalr then
    some { regWrite := true, controlFlow := .jump }
  else if d.opcode = Op.branch then some { controlFlow := .branch, bSrc := .reg2 }
  else if d.opcode = Op.load then
    (loadWidth d.funct3).map fun ws =>
      { regWrite := true, memRead := true, width := ws.1, signedLoad := ws.2 }
  else if d.opcode = Op.store then
    (storeWidth d.funct3).map fun w => { memWrite := true, width := w }
  else if d.opcode = Op.imm ∨ d.opcode = Op.imm32 then
    some { regWrite := true, isRv32 := d.opcode == Op.imm32, alu := immAlu d.funct3 d.funct7 }
  else if d.opcode = Op.reg ∨ d.opcode = Op.reg32 then
    (regAlu d.funct3 d.funct7).map fun op =>
      { regWrite := true, isRv32 := d.opcode == Op.reg32, bSrc := .reg2, alu := op }
  else if d.opcode = Op.amo then
    (wordOrDouble d.funct3).bind fun w =>
      (amoOp ((d.funct7 >>> 2).setWidth 5)).map fun op =>
        { width := w, atomicOp := op, bSrc := .zero, memRead := true, memWrite := op != .lr
          regWrite := true }
  else if d.opcode = Op.loadFp then
    (wordOrDouble d.funct3).map fun w => { fpRegWrite := true, memRead := true, width := w }
  else if d.opcode = Op.storeFp then
    (wordOrDouble d.funct3).map fun w => { memWrite := true, rs2Fp := true, width := w }
  else if d.opcode = Op.fp then
    let fmt := d.funct7 &&& 3
    if fmt = 0 ∨ fmt = 1 then
      decodeFp d { isRv32 := fmt == 0, rs1Fp := true, rs2Fp := true, fpRegWrite := true, bSrc := .reg2 }
    else none
  else if d.opcode = Op.fmadd ∨ d.opcode = Op.fmsub ∨ d.opcode = Op.fnmadd ∨ d.opcode = Op.fnmsub then
    some
      { rs1Fp := true, rs2Fp := true, rs3Fp := true, fpRegWrite := true, bSrc := .reg2
        isRv32 := d.funct7 &&& 3 == 0
        alu :=
          if d.opcode = Op.fmadd then .fMAdd
          else if d.opcode = Op.fmsub then .fMSub
          else if d.opcode = Op.fnmadd then .fNMAdd
          else .fNMSub }
  else if d.opcode = Op.miscMem then
    if d.funct3 = 0 then some { systemOp := .fence }
    else if d.funct3 = 1 then some { systemOp := .fenceI }
    else none
  else none

def decodeInstruction (w : U32) (pc : U64) (d : Decoded) : Except Trap ControlSignals :=
  if d.opcode = Op.system then decodeSystem w pc d
  else
    match decodeCommon d with
    | some c => .ok c
    | none => .error (.illegalInstruction w)

/-! ### What the decoder can return

A property of the signals is checked branch by branch of the decoder, through
`decodeFp` as well. -/

theorem forall_mem_ite {α : Type} {p : Prop} [Decidable p] {x y : Option α} {Q : α → Prop}
    (hx : ∀ c ∈ x, Q c) (hy : ∀ c ∈ y, Q c) : ∀ c ∈ (if p then x else y), Q c := by
  split
  · exact hx
  · exact hy

theorem forall_mem_map {α β : Type} {x : Option α} {f : α → β} {Q : β → Prop}
    (h : ∀ a, Q (f a)) : ∀ c ∈ x.map f, Q c := by
  intro c hc
  obtain ⟨a, -, rfl⟩ := Option.map_eq_some_iff.mp hc
  exact h a

theorem forall_mem_some {α : Type} {a : α} {Q : α → Prop} (h : Q a) : ∀ c ∈ some a, Q c := by
  intro c hc
  cases hc
  exact h

theorem forall_mem_none {α : Type} {Q : α → Prop} : ∀ c ∈ (none : Option α), Q c := by
  intro c hc
  cases hc

/-- Only MISC-MEM words outside the SYSTEM group carry a system operation. -/
theorem decodeCommon_systemOp (d : Decoded) :
    ∀ c ∈ decodeCommon d, c.systemOp = .none ∨ c.systemOp = .fence ∨ c.systemOp = .fenceI := by
  unfold decodeCommon
  repeat' first
    | refine forall_mem_ite ?_ ?_
    | exact forall_mem_none
    | exact forall_mem_some (.inl rfl)
    | exact forall_mem_some (.inr (.inl rfl))
    | exact forall_mem_some (.inr (.inr rfl))
    | exact forall_mem_map fun _ => .inl rfl
  -- AMO: width and operation are decoded one after the other
  intro c hc
  obtain ⟨w, -, hc⟩ := Option.bind_eq_some_iff.mp hc
  obtain ⟨op, -, rfl⟩ := Option.map_eq_some_iff.mp hc
  exact .inl rfl

theorem decodeCommon_writes (d : Decoded) :
    ∀ c ∈ decodeCommon d, ¬(c.regWrite = true ∧ c.fpRegWrite = true) := by
  unfold decodeCommon
  repeat' first
    | refine forall_mem_ite ?_ ?_
    | exact forall_mem_none
    | exact forall_mem_some (by simp)
    | exact forall_mem_map fun _ => by simp
  intro c hc
  obtain ⟨w, -, hc⟩ := Option.bind_eq_some_iff.mp hc
  obtain ⟨op, -, rfl⟩ := Option.map_eq_some_iff.mp hc
  simp

theorem decodeCommon_mem (d : Decoded) : ∀ c ∈ decodeCommon d, c.isMem = true → c.systemOp = .none := by
  unfold decodeCommon
  repeat' first
    | refine forall_mem_ite ?_ ?_
    | exact forall_mem_none
    | exact forall_mem_some fun _ => rfl
    | exact forall_mem_some (by simp [ControlSignals.isMem])
    | exact forall_mem_map fun _ _ => rfl
  intro c hc _
  obtain ⟨w, -, hc⟩ := Option.bind_eq_some_iff.mp hc
  obtain ⟨op, -, rfl⟩ := Option.map_eq_some_iff.mp hc
  rfl

/-- Signals of a SYSTEM word that reads `funct3` as a CSR operation. -/
def csrSignals (w : U32) : ControlSignals :=
  { systemOp := .system
    csrAddr := Inst.csr w
    bSrc := .zero
    csrOp := csrOpOf (Inst.funct3 w)
    regWrite := !(Inst.rd w).isZero }

theorem funct3_of_sfence (w : U32) (h : w &&& 0xFE007FFF = Inst.sfenceVma) : Inst.funct3 w = 0 := by
  have hm : Inst.funct3 (w &&& 0xFE007FFF) = Inst.funct3 w := by
    ext i hi
    have : i = 0 ∨ i = 1 ∨ i = 2 := by omega
    rcases this with rfl | rfl | rfl <;> simp [Inst.funct3]
  rw [← hm, h]
  decide

/-- Signals outside the CSR shape: no system operation, or one named by the whole word. -/
def NamedSignals (w : U32) (c : ControlSignals) : Prop :=
  (c.systemOp = .none ∨ c.systemOp = .fence ∨ c.systemOp = .fenceI) ∨
    c = { systemOp := .sfenceVma } ∨ c = { systemOp := .mret } ∨ c = { systemOp := .sret } ∨
    c = { systemOp := .wfi } ∨ (w = Inst.ecall ∧ c = { systemOp := .system })

/-- A SYSTEM word with a nonzero `funct3` gets the CSR signals; every other word gets named ones. -/
theorem decodeInstruction_cases (w : U32) (pc : U64) (c : ControlSignals)
    (h : decodeInstruction w pc (decode w) = .ok c) :
    ((Inst.opcode w = Op.system → Inst.funct3 w = 0) ∧ NamedSignals w c) ∨
      (Inst.opcode w = Op.system ∧ Inst.funct3 w ≠ 0 ∧ w ≠ Inst.ecall ∧ c = csrSignals w) := by
  unfold decodeInstruction at h
  unfold NamedSignals
  split_ifs at h with hop
  · unfold decodeSystem at h
    split_ifs at h with h1 h2 h3 h4 h5 h6 h7
    all_goals simp only [Except.ok.injEq] at h
    · exact .inl ⟨fun _ => funct3_of_sfence w h1, .inr (.inl h.symm)⟩
    · exact .inl ⟨fun _ => by rw [h3]; decide, .inr (.inr (.inl h.symm))⟩
    · exact .inl ⟨fun _ => by rw [h4]; decide, .inr (.inr (.inr (.inl h.symm)))⟩
    · exact .inl ⟨fun _ => by rw [h5]; decide, .inr (.inr (.inr (.inr (.inl h.symm))))⟩
    · exact .inl ⟨fun _ => by rw [h6]; decide, .inr (.inr (.inr (.inr (.inr ⟨h6, h.symm⟩))))⟩
    · exact .inr ⟨hop, h7, h6, h.symm⟩
    · exact .inl ⟨fun _ => not_not.mp h7, .inl (.inl (by rw [← h]))⟩
  · split at h
    · next c' hc =>
      simp only [Except.ok.injEq] at h
      subst h
      exact .inl ⟨fun ho => absurd ho hop, .inl (decodeCommon_systemOp _ _ hc)⟩
    · cases h

/-- No instruction writes both register files. -/
theorem decodeInstruction_writes (w : U32) (pc : U64) (c : ControlSignals)
    (h : decodeInstruction w pc (decode w) = .ok c) :
    ¬(c.regWrite = true ∧ c.fpRegWrite = true) := by
  unfold decodeInstruction at h
  split_ifs at h with hop
  · unfold decodeSystem at h
    split_ifs at h <;> simp only [Except.ok.injEq] at h <;> simp [← h]
  · split at h
    · next c' hc =>
      simp only [Except.ok.injEq] at h
      subst h
      exact decodeCommon_writes _ _ hc
    · cases h

/-- Loads, stores and atomics carry no system operation. -/
theorem decodeInstruction_mem (w : U32) (pc : U64) (c : ControlSignals)
    (h : decodeInstruction w pc (decode w) = .ok c) : c.isMem = true → c.systemOp = .none := by
  unfold decodeInstruction at h
  split_ifs at h with hop
  · unfold decodeSystem at h
    split_ifs at h <;> simp only [Except.ok.injEq] at h <;> simp [← h, ControlSignals.isMem]
  · split at h
    · next c' hc =>
      simp only [Except.ok.injEq] at h
      subst h
      exact decodeCommon_mem _ _ hc
    · cases h

end Rvsim
