/-
# The instruction set

RV64IMAFD with Zicsr, Zifencei and the privileged instructions, as the
manual lists them: an instruction is a value of `Instr`, `encode` is its
32-bit word, and a word is valid when it is some instruction's. Nothing here
is read off the decoder; a reserved field value is one that no instruction
encodes to.

* `Instr`, `encode`: the instructions and their words.
* `Instr.outcome`, `Instr.imm`, `Instr.rd` and the source registers: what a
  front end has to make of an instruction.
-/
import Rvsim.Decode

namespace Rvsim

namespace Isa

/-! ### Operations -/

inductive Cond where
  | eq | ne | lt | ge | ltu | geu
  deriving DecidableEq, Repr

def Cond.funct3 : Cond → Funct3
  | .eq => 0 | .ne => 1 | .lt => 4 | .ge => 5 | .ltu => 6 | .geu => 7

inductive LoadOp where
  | lb | lh | lw | ld | lbu | lhu | lwu
  deriving DecidableEq, Repr

def LoadOp.funct3 : LoadOp → Funct3
  | .lb => 0 | .lh => 1 | .lw => 2 | .ld => 3 | .lbu => 4 | .lhu => 5 | .lwu => 6

def LoadOp.width : LoadOp → MemWidth
  | .lb | .lbu => .byte
  | .lh | .lhu => .half
  | .lw | .lwu => .word
  | .ld => .double

def LoadOp.signed : LoadOp → Bool
  | .lb | .lh | .lw | .ld => true
  | .lbu | .lhu | .lwu => false

inductive StoreOp where
  | sb | sh | sw | sd
  deriving DecidableEq, Repr

def StoreOp.funct3 : StoreOp → Funct3
  | .sb => 0 | .sh => 1 | .sw => 2 | .sd => 3

def StoreOp.width : StoreOp → MemWidth
  | .sb => .byte | .sh => .half | .sw => .word | .sd => .double

inductive ImmOp where
  | addi | slti | sltiu | xori | ori | andi
  deriving DecidableEq, Repr

def ImmOp.funct3 : ImmOp → Funct3
  | .addi => 0 | .slti => 2 | .sltiu => 3 | .xori => 4 | .ori => 6 | .andi => 7

def ImmOp.alu : ImmOp → AluOp
  | .addi => .add | .slti => .slt | .sltiu => .sltu | .xori => .xor | .ori => .or | .andi => .and

inductive ShiftOp where
  | sll | srl | sra
  deriving DecidableEq, Repr

def ShiftOp.funct3 : ShiftOp → Funct3
  | .sll => 1 | .srl | .sra => 5

/-- The bits above the shift amount, of six or of five bits. -/
def ShiftOp.funct6 : ShiftOp → BitVec 6
  | .sll | .srl => 0 | .sra => 0x10

def ShiftOp.funct7 : ShiftOp → Funct7
  | .sll | .srl => 0 | .sra => 0x20

def ShiftOp.alu : ShiftOp → AluOp
  | .sll => .sll | .srl => .srl | .sra => .sra

inductive RegOp where
  | add | sub | sll | slt | sltu | xor | srl | sra | or | and
  | mul | mulh | mulhsu | mulhu | div | divu | rem | remu
  deriving DecidableEq, Repr

def RegOp.funct3 : RegOp → Funct3
  | .add | .sub | .mul => 0
  | .sll | .mulh => 1
  | .slt | .mulhsu => 2
  | .sltu | .mulhu => 3
  | .xor | .div => 4
  | .srl | .sra | .divu => 5
  | .or | .rem => 6
  | .and | .remu => 7

def RegOp.funct7 : RegOp → Funct7
  | .sub | .sra => 0x20
  | .add | .sll | .slt | .sltu | .xor | .srl | .or | .and => 0
  | .mul | .mulh | .mulhsu | .mulhu | .div | .divu | .rem | .remu => 1

def RegOp.alu : RegOp → AluOp
  | .add => .add | .sub => .sub | .sll => .sll | .slt => .slt | .sltu => .sltu
  | .xor => .xor | .srl => .srl | .sra => .sra | .or => .or | .and => .and
  | .mul => .mul | .mulh => .mulh | .mulhsu => .mulhsu | .mulhu => .mulhu
  | .div => .div | .divu => .divu | .rem => .rem | .remu => .remu

/-- Register operations with a 32-bit form. -/
inductive RegOpW where
  | addw | subw | sllw | srlw | sraw | mulw | divw | divuw | remw | remuw
  deriving DecidableEq, Repr

def RegOpW.wide : RegOpW → RegOp
  | .addw => .add | .subw => .sub | .sllw => .sll | .srlw => .srl | .sraw => .sra
  | .mulw => .mul | .divw => .div | .divuw => .divu | .remw => .rem | .remuw => .remu

/-- Width of an atomic access, and format of an FP load or store. -/
inductive Width where
  | w | d
  deriving DecidableEq, Repr

def Width.funct3 : Width → Funct3
  | .w => 2 | .d => 3

def Width.mem : Width → MemWidth
  | .w => .word | .d => .double

inductive AmoOp where
  | swap | add | xor | and | or | min | max | minu | maxu
  deriving DecidableEq, Repr

def AmoOp.funct5 : AmoOp → BitVec 5
  | .swap => 0b00001 | .add => 0b00000 | .xor => 0b00100 | .and => 0b01100 | .or => 0b01000
  | .min => 0b10000 | .max => 0b10100 | .minu => 0b11000 | .maxu => 0b11100

def AmoOp.op : AmoOp → AtomicOp
  | .swap => .swap | .add => .add | .xor => .xor | .and => .and | .or => .or
  | .min => .min | .max => .max | .minu => .minu | .maxu => .maxu

inductive Fmt where
  | s | d
  deriving DecidableEq, Repr

def Fmt.bits : Fmt → BitVec 2
  | .s => 0 | .d => 1

/-- Rounding modes; 5 and 6 are reserved. -/
inductive Rm where
  | rne | rtz | rdn | rup | rmm | dyn
  deriving DecidableEq, Repr

def Rm.bits : Rm → Funct3
  | .rne => 0 | .rtz => 1 | .rdn => 2 | .rup => 3 | .rmm => 4 | .dyn => 7

inductive FusedOp where
  | fmadd | fmsub | fnmsub | fnmadd
  deriving DecidableEq, Repr

def FusedOp.opcode : FusedOp → Opcode
  | .fmadd => Op.fmadd | .fmsub => Op.fmsub | .fnmsub => Op.fnmsub | .fnmadd => Op.fnmadd

def FusedOp.alu : FusedOp → AluOp
  | .fmadd => .fMAdd | .fmsub => .fMSub | .fnmsub => .fNMSub | .fnmadd => .fNMAdd

inductive FpOp where
  | fadd | fsub | fmul | fdiv
  deriving DecidableEq, Repr

def FpOp.funct5 : FpOp → BitVec 5
  | .fadd => 0b00000 | .fsub => 0b00001 | .fmul => 0b00010 | .fdiv => 0b00011

def FpOp.alu : FpOp → AluOp
  | .fadd => .fAdd | .fsub => .fSub | .fmul => .fMul | .fdiv => .fDiv

/-- Two-operand FP operations that do not round. -/
inductive FpPick where
  | fsgnj | fsgnjn | fsgnjx | fmin | fmax
  deriving DecidableEq, Repr

def FpPick.funct5 : FpPick → BitVec 5
  | .fsgnj | .fsgnjn | .fsgnjx => 0b00100
  | .fmin | .fmax => 0b00101

def FpPick.funct3 : FpPick → Funct3
  | .fsgnj | .fmin => 0
  | .fsgnjn | .fmax => 1
  | .fsgnjx => 2

def FpPick.alu : FpPick → AluOp
  | .fsgnj => .fSgnJ | .fsgnjn => .fSgnJN | .fsgnjx => .fSgnJX | .fmin => .fMin | .fmax => .fMax

inductive FpCmp where
  | feq | flt | fle
  deriving DecidableEq, Repr

def FpCmp.funct3 : FpCmp → Funct3
  | .feq => 2 | .flt => 1 | .fle => 0

def FpCmp.alu : FpCmp → AluOp
  | .feq => .fEq | .flt => .fLt | .fle => .fLe

/-- Integer side of a conversion. -/
inductive IntFmt where
  | w | wu | l | lu
  deriving DecidableEq, Repr

def IntFmt.bits : IntFmt → RegIdx
  | .w => 0 | .wu => 1 | .l => 2 | .lu => 3

def IntFmt.fromFp : IntFmt → AluOp
  | .w => .fCvtWS | .wu => .fCvtWUS | .l => .fCvtLS | .lu => .fCvtLUS

def IntFmt.toFp : IntFmt → AluOp
  | .w => .fCvtSW | .wu => .fCvtSWU | .l => .fCvtSL | .lu => .fCvtSLU

inductive CsrInstr where
  | rw | rs | rc | rwi | rsi | rci
  deriving DecidableEq, Repr

def CsrInstr.funct3 : CsrInstr → Funct3
  | .rw => 1 | .rs => 2 | .rc => 3 | .rwi => 5 | .rsi => 6 | .rci => 7

def CsrInstr.op : CsrInstr → CsrOp
  | .rw => .rw | .rs => .rs | .rc => .rc | .rwi => .rwi | .rsi => .rsi | .rci => .rci

/-! ### Instructions

Jump and branch offsets are even: a value holds the offset without its bit 0.
FENCE and FENCE.I ignore their remaining fields. -/

inductive Instr where
  | lui (rd : RegIdx) (imm : BitVec 20)
  | auipc (rd : RegIdx) (imm : BitVec 20)
  | jal (rd : RegIdx) (offset : BitVec 20)
  | jalr (rd rs1 : RegIdx) (imm : BitVec 12)
  | branch (c : Cond) (rs1 rs2 : RegIdx) (offset : BitVec 12)
  | load (o : LoadOp) (rd rs1 : RegIdx) (imm : BitVec 12)
  | store (o : StoreOp) (rs1 rs2 : RegIdx) (imm : BitVec 12)
  | opImm (o : ImmOp) (rd rs1 : RegIdx) (imm : BitVec 12)
  | shiftImm (o : ShiftOp) (rd rs1 : RegIdx) (shamt : BitVec 6)
  | addiw (rd rs1 : RegIdx) (imm : BitVec 12)
  | shiftImmW (o : ShiftOp) (rd rs1 : RegIdx) (shamt : BitVec 5)
  | op (o : RegOp) (rd rs1 rs2 : RegIdx)
  | opW (o : RegOpW) (rd rs1 rs2 : RegIdx)
  | lr (width : Width) (aqrl : BitVec 2) (rd rs1 : RegIdx)
  | sc (width : Width) (aqrl : BitVec 2) (rd rs1 rs2 : RegIdx)
  | amo (o : AmoOp) (width : Width) (aqrl : BitVec 2) (rd rs1 rs2 : RegIdx)
  | loadFp (width : Width) (rd rs1 : RegIdx) (imm : BitVec 12)
  | storeFp (width : Width) (rs1 rs2 : RegIdx) (imm : BitVec 12)
  | fused (o : FusedOp) (fmt : Fmt) (rm : Rm) (rd rs1 rs2 rs3 : RegIdx)
  | fpOp (o : FpOp) (fmt : Fmt) (rm : Rm) (rd rs1 rs2 : RegIdx)
  | fsqrt (fmt : Fmt) (rm : Rm) (rd rs1 : RegIdx)
  | fpPick (o : FpPick) (fmt : Fmt) (rd rs1 rs2 : RegIdx)
  | fpCmp (o : FpCmp) (fmt : Fmt) (rd rs1 rs2 : RegIdx)
  | fmvToX (fmt : Fmt) (rd rs1 : RegIdx)
  | fclass (fmt : Fmt) (rd rs1 : RegIdx)
  | fmvToF (fmt : Fmt) (rd rs1 : RegIdx)
  | fcvtToX (int : IntFmt) (fmt : Fmt) (rm : Rm) (rd rs1 : RegIdx)
  | fcvtToF (int : IntFmt) (fmt : Fmt) (rm : Rm) (rd rs1 : RegIdx)
  | fcvtDS (rm : Rm) (rd rs1 : RegIdx)
  | fcvtSD (rm : Rm) (rd rs1 : RegIdx)
  | fence (imm : BitVec 12) (rd rs1 : RegIdx)
  | fenceI (imm : BitVec 12) (rd rs1 : RegIdx)
  | ecall
  | ebreak
  | mret
  | sret
  | wfi
  | sfenceVma (rs1 rs2 : RegIdx)
  | csr (o : CsrInstr) (rd rs1 : RegIdx) (addr : CsrAddr)
  deriving DecidableEq, Repr

/-! ### Words -/

/-- The fields of the R format, which every other format rearranges. -/
def word (f7 : Funct7) (rs2 rs1 : RegIdx) (f3 : Funct3) (rd : RegIdx) (op : Opcode) : U32 :=
  f7 ++ rs2 ++ rs1 ++ f3 ++ rd ++ op

def wordI (imm : BitVec 12) (rs1 : RegIdx) (f3 : Funct3) (rd : RegIdx) (op : Opcode) : U32 :=
  word (imm.extractLsb' 5 7) (imm.extractLsb' 0 5) rs1 f3 rd op

def wordS (imm : BitVec 12) (rs2 rs1 : RegIdx) (f3 : Funct3) (op : Opcode) : U32 :=
  word (imm.extractLsb' 5 7) rs2 rs1 f3 (imm.extractLsb' 0 5) op

/-- Bits 12, 10 to 5, 4 to 1 and 11 of the offset, in this order. -/
def wordB (offset : BitVec 12) (rs2 rs1 : RegIdx) (f3 : Funct3) (op : Opcode) : U32 :=
  word (offset.extractLsb' 11 1 ++ offset.extractLsb' 4 6) rs2 rs1 f3
    (offset.extractLsb' 0 4 ++ offset.extractLsb' 10 1) op

def wordU (imm : BitVec 20) (rd : RegIdx) (op : Opcode) : U32 :=
  word (imm.extractLsb' 13 7) (imm.extractLsb' 8 5) (imm.extractLsb' 3 5) (imm.extractLsb' 0 3) rd op

/-- Bits 20, 10 to 1, 11 and 19 to 12 of the offset, in this order. -/
def wordJ (offset : BitVec 20) (rd : RegIdx) (op : Opcode) : U32 :=
  wordU (offset.extractLsb' 19 1 ++ offset.extractLsb' 0 10 ++ offset.extractLsb' 10 1 ++
    offset.extractLsb' 11 8) rd op

/-- An `OP-FP` word: a five-bit operation over a format. -/
def wordFp (f5 : BitVec 5) (fmt : Fmt) (rs2 rs1 : RegIdx) (f3 : Funct3) (rd : RegIdx) : U32 :=
  word (f5 ++ fmt.bits) rs2 rs1 f3 rd Op.fp

def encode : Instr → U32
  | .lui rd imm => wordU imm rd Op.lui
  | .auipc rd imm => wordU imm rd Op.auipc
  | .jal rd offset => wordJ offset rd Op.jal
  | .jalr rd rs1 imm => wordI imm rs1 0 rd Op.jalr
  | .branch c rs1 rs2 offset => wordB offset rs2 rs1 c.funct3 Op.branch
  | .load o rd rs1 imm => wordI imm rs1 o.funct3 rd Op.load
  | .store o rs1 rs2 imm => wordS imm rs2 rs1 o.funct3 Op.store
  | .opImm o rd rs1 imm => wordI imm rs1 o.funct3 rd Op.imm
  | .shiftImm o rd rs1 shamt => wordI (o.funct6 ++ shamt) rs1 o.funct3 rd Op.imm
  | .addiw rd rs1 imm => wordI imm rs1 0 rd Op.imm32
  | .shiftImmW o rd rs1 shamt => wordI (o.funct7 ++ shamt) rs1 o.funct3 rd Op.imm32
  | .op o rd rs1 rs2 => word o.funct7 rs2 rs1 o.funct3 rd Op.reg
  | .opW o rd rs1 rs2 => word o.wide.funct7 rs2 rs1 o.wide.funct3 rd Op.reg32
  | .lr width aqrl rd rs1 => word (0b00010#5 ++ aqrl) 0 rs1 width.funct3 rd Op.amo
  | .sc width aqrl rd rs1 rs2 => word (0b00011#5 ++ aqrl) rs2 rs1 width.funct3 rd Op.amo
  | .amo o width aqrl rd rs1 rs2 => word (o.funct5 ++ aqrl) rs2 rs1 width.funct3 rd Op.amo
  | .loadFp width rd rs1 imm => wordI imm rs1 width.funct3 rd Op.loadFp
  | .storeFp width rs1 rs2 imm => wordS imm rs2 rs1 width.funct3 Op.storeFp
  | .fused o fmt rm rd rs1 rs2 rs3 => word (rs3 ++ fmt.bits) rs2 rs1 rm.bits rd o.opcode
  | .fpOp o fmt rm rd rs1 rs2 => wordFp o.funct5 fmt rs2 rs1 rm.bits rd
  | .fsqrt fmt rm rd rs1 => wordFp 0b01011 fmt 0 rs1 rm.bits rd
  | .fpPick o fmt rd rs1 rs2 => wordFp o.funct5 fmt rs2 rs1 o.funct3 rd
  | .fpCmp o fmt rd rs1 rs2 => wordFp 0b10100 fmt rs2 rs1 o.funct3 rd
  | .fmvToX fmt rd rs1 => wordFp 0b11100 fmt 0 rs1 0 rd
  | .fclass fmt rd rs1 => wordFp 0b11100 fmt 0 rs1 1 rd
  | .fmvToF fmt rd rs1 => wordFp 0b11110 fmt 0 rs1 0 rd
  | .fcvtToX int fmt rm rd rs1 => wordFp 0b11000 fmt int.bits rs1 rm.bits rd
  | .fcvtToF int fmt rm rd rs1 => wordFp 0b11010 fmt int.bits rs1 rm.bits rd
  | .fcvtDS rm rd rs1 => wordFp 0b01000 .d 0 rs1 rm.bits rd
  | .fcvtSD rm rd rs1 => wordFp 0b01000 .s 1 rs1 rm.bits rd
  | .fence imm rd rs1 => wordI imm rs1 0 rd Op.miscMem
  | .fenceI imm rd rs1 => wordI imm rs1 1 rd Op.miscMem
  | .ecall => word 0 0 0 0 0 Op.system
  | .ebreak => word 0 1 0 0 0 Op.system
  | .mret => word 0b0011000 2 0 0 0 Op.system
  | .sret => word 0b0001000 2 0 0 0 Op.system
  | .wfi => word 0b0001000 5 0 0 0 Op.system
  | .sfenceVma rs1 rs2 => word 0b0001001 rs2 rs1 0 0 Op.system
  | .csr o rd rs1 addr => wordI addr rs1 o.funct3 rd Op.system

/-! ### What a front end makes of an instruction -/

def Instr.rd : Instr → Option RegIdx
  | .lui rd _ | .auipc rd _ | .jal rd _ | .jalr rd _ _ | .load _ rd _ _ | .opImm _ rd _ _
  | .shiftImm _ rd _ _ | .addiw rd _ _ | .shiftImmW _ rd _ _ | .op _ rd _ _ | .opW _ rd _ _
  | .lr _ _ rd _ | .sc _ _ rd _ _ | .amo _ _ _ rd _ _ | .loadFp _ rd _ _ | .fused _ _ _ rd _ _ _
  | .fpOp _ _ _ rd _ _ | .fsqrt _ _ rd _ | .fpPick _ _ rd _ _ | .fpCmp _ _ rd _ _ | .fmvToX _ rd _
  | .fclass _ rd _ | .fmvToF _ rd _ | .fcvtToX _ _ _ rd _ | .fcvtToF _ _ _ rd _ | .fcvtDS _ rd _
  | .fcvtSD _ rd _ | .csr _ rd _ _ => some rd
  | .branch .. | .store .. | .storeFp .. | .fence .. | .fenceI .. | .ecall | .ebreak | .mret | .sret
  | .wfi | .sfenceVma .. => none

/-- First source, or the five-bit immediate that the `I` forms of the CSR instructions keep there. -/
def Instr.rs1 : Instr → Option RegIdx
  | .jalr _ rs1 _ | .branch _ rs1 _ _ | .load _ _ rs1 _ | .store _ rs1 _ _ | .opImm _ _ rs1 _
  | .shiftImm _ _ rs1 _ | .addiw _ rs1 _ | .shiftImmW _ _ rs1 _ | .op _ _ rs1 _ | .opW _ _ rs1 _
  | .lr _ _ _ rs1 | .sc _ _ _ rs1 _ | .amo _ _ _ _ rs1 _ | .loadFp _ _ rs1 _ | .storeFp _ rs1 _ _
  | .fused _ _ _ _ rs1 _ _ | .fpOp _ _ _ _ rs1 _ | .fsqrt _ _ _ rs1 | .fpPick _ _ _ rs1 _
  | .fpCmp _ _ _ rs1 _ | .fmvToX _ _ rs1 | .fclass _ _ rs1 | .fmvToF _ _ rs1 | .fcvtToX _ _ _ _ rs1
  | .fcvtToF _ _ _ _ rs1 | .fcvtDS _ _ rs1 | .fcvtSD _ _ rs1 | .sfenceVma rs1 _
  | .csr _ _ rs1 _ => some rs1
  | .lui .. | .auipc .. | .jal .. | .fence .. | .fenceI .. | .ecall | .ebreak | .mret | .sret
  | .wfi => none

def Instr.rs2 : Instr → Option RegIdx
  | .branch _ _ rs2 _ | .store _ _ rs2 _ | .op _ _ _ rs2 | .opW _ _ _ rs2 | .sc _ _ _ _ rs2
  | .amo _ _ _ _ _ rs2 | .storeFp _ _ rs2 _ | .fused _ _ _ _ _ rs2 _ | .fpOp _ _ _ _ _ rs2
  | .fpPick _ _ _ _ rs2 | .fpCmp _ _ _ _ rs2 | .sfenceVma _ rs2 => some rs2
  | _ => none

def Instr.rs3 : Instr → Option RegIdx
  | .fused _ _ _ _ _ _ rs3 => some rs3
  | _ => none

/-- The immediate, sign-extended. A shift amount is the low bits of the I format's. -/
def Instr.imm : Instr → Option U64
  | .lui _ imm | .auipc _ imm => some ((imm ++ 0#12).signExtend 64)
  | .jal _ offset => some ((offset ++ 0#1).signExtend 64)
  | .branch _ _ _ offset => some ((offset ++ 0#1).signExtend 64)
  | .jalr _ _ imm | .load _ _ _ imm | .store _ _ _ imm | .opImm _ _ _ imm | .addiw _ _ imm
  | .loadFp _ _ _ imm | .storeFp _ _ _ imm => some (imm.signExtend 64)
  | .shiftImm o _ _ shamt => some ((o.funct6 ++ shamt).signExtend 64)
  | .shiftImmW o _ _ shamt => some ((o.funct7 ++ shamt).signExtend 64)
  | _ => none

/-- Sources and destination of an FP operation on registers of the format. -/
def fpSignals (fmt : Fmt) (alu : AluOp) : ControlSignals where
  fpRegWrite := true
  isRv32 := fmt = .s
  bSrc := .reg2
  rs1Fp := true
  rs2Fp := true
  alu := alu

/-- An FP operation whose result is an integer. -/
def toXSignals (fmt : Fmt) (alu : AluOp) : ControlSignals :=
  { fpSignals fmt alu with fpRegWrite := false, regWrite := true }

/-- An FP operation whose operand is an integer. -/
def toFSignals (fmt : Fmt) (alu : AluOp) : ControlSignals :=
  { fpSignals fmt alu with rs1Fp := false }

def Instr.signals : Instr → ControlSignals
  | .lui .. => { regWrite := true, aSrc := .zero }
  | .auipc .. => { regWrite := true, aSrc := .pc }
  | .jal .. | .jalr .. => { regWrite := true, controlFlow := .jump }
  | .branch .. => { controlFlow := .branch, bSrc := .reg2 }
  | .load o .. => { regWrite := true, memRead := true, width := o.width, signedLoad := o.signed }
  | .store o .. => { memWrite := true, width := o.width }
  | .opImm o .. => { regWrite := true, alu := o.alu }
  | .shiftImm o .. => { regWrite := true, alu := o.alu }
  | .addiw .. => { regWrite := true, isRv32 := true, alu := .add }
  | .shiftImmW o .. => { regWrite := true, isRv32 := true, alu := o.alu }
  | .op o .. => { regWrite := true, bSrc := .reg2, alu := o.alu }
  | .opW o .. => { regWrite := true, isRv32 := true, bSrc := .reg2, alu := o.wide.alu }
  | .lr width .. =>
    { regWrite := true, memRead := true, bSrc := .zero, width := width.mem, atomicOp := .lr }
  | .sc width .. =>
    { regWrite := true, memRead := true, memWrite := true, bSrc := .zero, width := width.mem
      atomicOp := .sc }
  | .amo o width .. =>
    { regWrite := true, memRead := true, memWrite := true, bSrc := .zero, width := width.mem
      atomicOp := o.op }
  | .loadFp width .. => { fpRegWrite := true, memRead := true, width := width.mem }
  | .storeFp width .. => { memWrite := true, rs2Fp := true, width := width.mem }
  | .fused o fmt .. => { fpSignals fmt o.alu with rs3Fp := true }
  | .fpOp o fmt .. => fpSignals fmt o.alu
  | .fsqrt fmt .. => fpSignals fmt .fSqrt
  | .fpPick o fmt .. => fpSignals fmt o.alu
  | .fpCmp o fmt .. => toXSignals fmt o.alu
  | .fmvToX fmt .. => toXSignals fmt .fMvToX
  | .fclass fmt .. => toXSignals fmt .fClass
  | .fmvToF fmt .. => toFSignals fmt .fMvToF
  | .fcvtToX int fmt .. => toXSignals fmt int.fromFp
  | .fcvtToF int fmt .. => toFSignals fmt int.toFp
  | .fcvtDS .. => fpSignals .d .fCvtDS
  | .fcvtSD .. => fpSignals .s .fCvtSD
  | .fence .. => { systemOp := .fence }
  | .fenceI .. => { systemOp := .fenceI }
  | .ecall => { systemOp := .system }
  | .ebreak => {}
  | .mret => { systemOp := .mret }
  | .sret => { systemOp := .sret }
  | .wfi => { systemOp := .wfi }
  | .sfenceVma .. => { systemOp := .sfenceVma }
  | .csr o rd _ addr =>
    { systemOp := .system, bSrc := .zero, csrOp := o.op, csrAddr := addr, regWrite := !rd.isZero }

/-- EBREAK traps where it is decoded; every other instruction goes on with its signals. -/
def Instr.outcome (pc : U64) : Instr → Except Trap ControlSignals
  | .ebreak => .error (.breakpoint pc)
  | i => .ok i.signals

/-- A word is valid when it is an instruction's. -/
def Valid (w : U32) : Prop := ∃ i, encode i = w

/-! ### Fields of a word -/

section Fields

variable (f7 : Funct7) (rs2 rs1 rd : RegIdx) (f3 : Funct3) (op : Opcode) (w : U32)

theorem getLsbD_word (i : Nat) : (word f7 rs2 rs1 f3 rd op).getLsbD i =
    if i < 7 then op.getLsbD i
    else if i < 12 then rd.getLsbD (i - 7)
    else if i < 15 then f3.getLsbD (i - 12)
    else if i < 20 then rs1.getLsbD (i - 15)
    else if i < 25 then rs2.getLsbD (i - 20)
    else f7.getLsbD (i - 25) := by
  unfold word
  simp only [BitVec.getLsbD_append (x := f7 ++ rs2 ++ rs1 ++ f3 ++ rd) (y := op),
    BitVec.getLsbD_append]
  grind

@[simp] theorem opcode_word : Inst.opcode (word f7 rs2 rs1 f3 rd op) = op := by
  ext i hi
  simp [Inst.opcode, getLsbD_word, hi]

@[simp] theorem rd_word : Inst.rd (word f7 rs2 rs1 f3 rd op) = rd := by
  ext i hi
  simp [Inst.rd, getLsbD_word]
  grind

@[simp] theorem funct3_word : Inst.funct3 (word f7 rs2 rs1 f3 rd op) = f3 := by
  ext i hi
  simp [Inst.funct3, getLsbD_word]
  grind

@[simp] theorem rs1_word : Inst.rs1 (word f7 rs2 rs1 f3 rd op) = rs1 := by
  ext i hi
  simp [Inst.rs1, getLsbD_word]
  grind

@[simp] theorem rs2_word : Inst.rs2 (word f7 rs2 rs1 f3 rd op) = rs2 := by
  ext i hi
  simp [Inst.rs2, getLsbD_word]
  grind

@[simp] theorem funct7_word : Inst.funct7 (word f7 rs2 rs1 f3 rd op) = f7 := by
  ext i hi
  simp [Inst.funct7, getLsbD_word]
  grind

@[simp] theorem csr_word : Inst.csr (word f7 rs2 rs1 f3 rd op) = f7 ++ rs2 := by
  ext i hi
  simp [Inst.csr, getLsbD_word]
  grind

@[simp] theorem rs3_word : Inst.rs3 (word f7 rs2 rs1 f3 rd op) = f7.extractLsb' 2 5 := by
  ext i hi
  simp [Inst.rs3, getLsbD_word]
  grind

/-- A word is its six fields. -/
theorem word_fields :
    word (Inst.funct7 w) (Inst.rs2 w) (Inst.rs1 w) (Inst.funct3 w) (Inst.rd w) (Inst.opcode w) = w := by
  unfold word Inst.opcode Inst.rd Inst.funct3 Inst.rs1 Inst.rs2 Inst.funct7
  ext i hi
  simp
  grind

theorem word_injective {f7' : Funct7} {rs2' rs1' rd' : RegIdx} {f3' : Funct3} {op' : Opcode} :
    word f7 rs2 rs1 f3 rd op = word f7' rs2' rs1' f3' rd' op' ↔
      f7 = f7' ∧ rs2 = rs2' ∧ rs1 = rs1' ∧ f3 = f3' ∧ rd = rd' ∧ op = op' := by
  constructor
  · intro h
    refine ⟨?_, ?_, ?_, ?_, ?_, ?_⟩
    · simpa using congrArg Inst.funct7 h
    · simpa using congrArg Inst.rs2 h
    · simpa using congrArg Inst.rs1 h
    · simpa using congrArg Inst.funct3 h
    · simpa using congrArg Inst.rd h
    · simpa using congrArg Inst.opcode h
  · rintro ⟨rfl, rfl, rfl, rfl, rfl, rfl⟩
    rfl

end Fields

end Isa

end Rvsim
