/-
# The compressed instruction set

RV64C with its D extension, as the manual lists it: a compressed instruction
is a value of `CInstr`, `CInstr.encode` is its 16-bit word and
`CInstr.meaning` the instruction it stands for. Nothing here is read off
`expand`; a reserved word is one that no legal instruction encodes to.

The layouts give the eleven bits between `funct3` and the quadrant. An offset
or an immediate is held without the low bits that are always zero, and its
bits are put into the layout in the order of the manual.

* `CInstr`, `CInstr.encode`, `CInstr.Legal`: the instructions and their words.
* `CInstr.meaning`: the 32-bit instruction each stands for.
-/
import Rvsim.Isa
import Rvsim.Lib.Masks

namespace Rvsim

namespace Isa

/-! ### Instructions -/

/-- What a compressed load or store moves: a word, a doubleword, or a double to or from `f`. -/
inductive CAccess where
  | word | double | fp
  deriving DecidableEq, Repr

inductive CRegOp where
  | sub | xor | or | and | subw | addw
  deriving DecidableEq, Repr

/-- A three-bit register is one of `x8` to `x15`. -/
inductive CInstr where
  | addi4spn (imm : BitVec 8) (rd : BitVec 3)
  | load (a : CAccess) (offset : BitVec 5) (rs1 rd : BitVec 3)
  | store (a : CAccess) (offset : BitVec 5) (rs1 rs2 : BitVec 3)
  | addi (imm : BitVec 6) (rd : RegIdx)
  | addiw (imm : BitVec 6) (rd : RegIdx)
  | li (imm : BitVec 6) (rd : RegIdx)
  | addi16sp (imm : BitVec 6)
  | lui (imm : BitVec 6) (rd : RegIdx)
  | srli (shamt : BitVec 6) (rd : BitVec 3)
  | srai (shamt : BitVec 6) (rd : BitVec 3)
  | andi (imm : BitVec 6) (rd : BitVec 3)
  | reg (o : CRegOp) (rd rs2 : BitVec 3)
  | j (offset : BitVec 11)
  | beqz (offset : BitVec 8) (rs1 : BitVec 3)
  | bnez (offset : BitVec 8) (rs1 : BitVec 3)
  | slli (shamt : BitVec 6) (rd : RegIdx)
  | loadSp (a : CAccess) (offset : BitVec 6) (rd : RegIdx)
  | jr (rs1 : RegIdx)
  | mv (rd rs2 : RegIdx)
  | ebreak
  | jalr (rs1 : RegIdx)
  | add (rd rs2 : RegIdx)
  | storeSp (a : CAccess) (offset : BitVec 6) (rs2 : RegIdx)
  deriving DecidableEq, Repr

/-- The field values that the manual does not reserve; the hints are instructions like the others. -/
def CInstr.Legal : CInstr → Prop
  | .addi4spn imm _ => imm ≠ 0
  | .addiw _ rd => rd ≠ 0
  | .addi16sp imm => imm ≠ 0
  | .lui imm rd => imm ≠ 0 ∧ rd ≠ 2
  | .loadSp .fp _ _ => True
  | .loadSp _ _ rd => rd ≠ 0
  | .jr rs1 => rs1 ≠ 0
  | .mv _ rs2 => rs2 ≠ 0
  | .jalr rs1 => rs1 ≠ 0
  | .add _ rs2 => rs2 ≠ 0
  | _ => True

/-! ### What they stand for -/

/-- Registers `x8` to `x15`. -/
def short (r : BitVec 3) : RegIdx := 0b01#2 ++ r

/-- The byte offset of a load or store against a register. -/
def CAccess.bytes (offset : BitVec 5) : CAccess → BitVec 12
  | .word => 0#5 ++ offset ++ 0#2
  | .double | .fp => 0#4 ++ offset ++ 0#3

/-- The byte offset of a load or store against the stack pointer. -/
def CAccess.spBytes (offset : BitVec 6) : CAccess → BitVec 12
  | .word => 0#4 ++ offset ++ 0#2
  | .double | .fp => 0#3 ++ offset ++ 0#3

def CAccess.load (rd rs1 : RegIdx) (imm : BitVec 12) : CAccess → Instr
  | .word => .load .lw rd rs1 imm
  | .double => .load .ld rd rs1 imm
  | .fp => .loadFp .d rd rs1 imm

def CAccess.store (rs1 rs2 : RegIdx) (imm : BitVec 12) : CAccess → Instr
  | .word => .store .sw rs1 rs2 imm
  | .double => .store .sd rs1 rs2 imm
  | .fp => .storeFp .d rs1 rs2 imm

def CRegOp.instr (rd rs2 : RegIdx) : CRegOp → Instr
  | .sub => .op .sub rd rd rs2
  | .xor => .op .xor rd rd rs2
  | .or => .op .or rd rd rs2
  | .and => .op .and rd rd rs2
  | .subw => .opW .subw rd rd rs2
  | .addw => .opW .addw rd rd rs2

def CInstr.meaning : CInstr → Instr
  | .addi4spn imm rd => .opImm .addi (short rd) 2 (0#2 ++ imm ++ 0#2)
  | .load a offset rs1 rd => a.load (short rd) (short rs1) (a.bytes offset)
  | .store a offset rs1 rs2 => a.store (short rs1) (short rs2) (a.bytes offset)
  | .addi imm rd => .opImm .addi rd rd (imm.signExtend 12)
  | .addiw imm rd => .addiw rd rd (imm.signExtend 12)
  | .li imm rd => .opImm .addi rd 0 (imm.signExtend 12)
  | .addi16sp imm => .opImm .addi 2 2 ((imm ++ 0#4).signExtend 12)
  | .lui imm rd => .lui rd (imm.signExtend 20)
  | .srli shamt rd => .shiftImm .srl (short rd) (short rd) shamt
  | .srai shamt rd => .shiftImm .sra (short rd) (short rd) shamt
  | .andi imm rd => .opImm .andi (short rd) (short rd) (imm.signExtend 12)
  | .reg o rd rs2 => o.instr (short rd) (short rs2)
  | .j offset => .jal 0 (offset.signExtend 20)
  | .beqz offset rs1 => .branch .eq (short rs1) 0 (offset.signExtend 12)
  | .bnez offset rs1 => .branch .ne (short rs1) 0 (offset.signExtend 12)
  | .slli shamt rd => .shiftImm .sll rd rd shamt
  | .loadSp a offset rd => a.load rd 2 (a.spBytes offset)
  | .jr rs1 => .jalr 0 rs1 0
  | .mv rd rs2 => .op .add rd 0 rs2
  | .ebreak => .ebreak
  | .jalr rs1 => .jalr 1 rs1 0
  | .add rd rs2 => .op .add rd rd rs2
  | .storeSp a offset rs2 => a.store 2 rs2 (a.spBytes offset)

/-! ### Words -/

def cword (f3 : Funct3) (body : BitVec 11) (q : BitVec 2) : U16 := f3 ++ body ++ q

/-- The layout of CI and CR: bit 12, a register, five bits. -/
def layI (a : BitVec 1) (r b : BitVec 5) : BitVec 11 := a ++ r ++ b

/-- The layout of CL, CS, CA and CB: bits 12 to 10, a register, bits 6 and 5, three bits. -/
def layM (a r : BitVec 3) (b : BitVec 2) (s : BitVec 3) : BitVec 11 := a ++ r ++ b ++ s

/-- The layout of CSS: bits 12 to 7 and a register. -/
def layS (a : BitVec 6) (r : RegIdx) : BitVec 11 := a ++ r

/-- The layout of CIW: bits 12 to 5 and a register. -/
def layW (a : BitVec 8) (r : BitVec 3) : BitVec 11 := a ++ r

/-- A six-bit immediate around a register. -/
def immI (imm : BitVec 6) (r : RegIdx) : BitVec 11 := layI (imm.extractLsb' 5 1) r (imm.extractLsb' 0 5)

/-- A six-bit immediate around a register of `x8` to `x15`, under two bits that name the operation. -/
def immM (o : BitVec 2) (imm : BitVec 6) (r : BitVec 3) : BitVec 11 :=
  layM (imm.extractLsb' 5 1 ++ o) r (imm.extractLsb' 3 2) (imm.extractLsb' 0 3)

def CAccess.loadFunct3 : CAccess → Funct3
  | .word => 0b010 | .double => 0b011 | .fp => 0b001

def CAccess.storeFunct3 : CAccess → Funct3
  | .word => 0b110 | .double => 0b111 | .fp => 0b101

/-- The offset over bits 12 to 10 and over bits 6 and 5. -/
def CAccess.high (offset : BitVec 5) : CAccess → BitVec 3
  | .word => offset.extractLsb' 1 3
  | .double | .fp => offset.extractLsb' 0 3

def CAccess.low (offset : BitVec 5) : CAccess → BitVec 2
  | .word => offset.extractLsb' 0 1 ++ offset.extractLsb' 4 1
  | .double | .fp => offset.extractLsb' 3 2

/-- The offset of a stack load over bit 12 and over bits 6 to 2. -/
def CAccess.spHigh (offset : BitVec 6) : CAccess → BitVec 1
  | .word => offset.extractLsb' 3 1
  | .double | .fp => offset.extractLsb' 2 1

def CAccess.spLow (offset : BitVec 6) : CAccess → BitVec 5
  | .word => offset.extractLsb' 0 3 ++ offset.extractLsb' 4 2
  | .double | .fp => offset.extractLsb' 0 2 ++ offset.extractLsb' 3 3

/-- The offset of a stack store over bits 12 to 7. -/
def CAccess.spStore (offset : BitVec 6) : CAccess → BitVec 6
  | .word => offset.extractLsb' 0 4 ++ offset.extractLsb' 4 2
  | .double | .fp => offset.extractLsb' 0 3 ++ offset.extractLsb' 3 3

/-- Bit 12, and bits 6 and 5. -/
def CRegOp.bits : CRegOp → BitVec 1 × BitVec 2
  | .sub => (0, 0) | .xor => (0, 1) | .or => (0, 2) | .and => (0, 3) | .subw => (1, 0) | .addw => (1, 1)

/-- C.ADDI4SPN: bits 5, 4, 9 to 6, 2 and 3 of the immediate. -/
def frameBits (imm : BitVec 8) : BitVec 8 :=
  imm.extractLsb' 2 2 ++ imm.extractLsb' 4 4 ++ imm.extractLsb' 0 1 ++ imm.extractLsb' 1 1

/-- C.ADDI16SP: bits 4, 6, 8, 7 and 5 of the immediate; bit 9 stands in bit 12 of the word. -/
def stackBits (imm : BitVec 6) : BitVec 5 :=
  imm.extractLsb' 0 1 ++ imm.extractLsb' 2 1 ++ imm.extractLsb' 3 2 ++ imm.extractLsb' 1 1

/-- Bits 8, 4, 3, a register, bits 7, 6, 2, 1 and 5 of the offset. -/
def branchBody (offset : BitVec 8) (rs1 : BitVec 3) : BitVec 11 :=
  layM (offset.extractLsb' 7 1 ++ offset.extractLsb' 2 2) rs1 (offset.extractLsb' 5 2)
    (offset.extractLsb' 0 2 ++ offset.extractLsb' 4 1)

/-- Bits 11, 4, 9, 8, 10, 6, 7, 3, 2, 1 and 5 of the offset. -/
def jumpBody (offset : BitVec 11) : BitVec 11 :=
  offset.extractLsb' 10 1 ++ offset.extractLsb' 3 1 ++ offset.extractLsb' 7 2 ++ offset.extractLsb' 9 1 ++
    offset.extractLsb' 5 1 ++ offset.extractLsb' 6 1 ++ offset.extractLsb' 0 3 ++ offset.extractLsb' 4 1

def CInstr.encode : CInstr → U16
  | .addi4spn imm rd => cword 0b000 (layW (frameBits imm) rd) 0b00
  | .load a offset rs1 rd => cword a.loadFunct3 (layM (a.high offset) rs1 (a.low offset) rd) 0b00
  | .store a offset rs1 rs2 => cword a.storeFunct3 (layM (a.high offset) rs1 (a.low offset) rs2) 0b00
  | .addi imm rd => cword 0b000 (immI imm rd) 0b01
  | .addiw imm rd => cword 0b001 (immI imm rd) 0b01
  | .li imm rd => cword 0b010 (immI imm rd) 0b01
  | .addi16sp imm => cword 0b011 (layI (imm.extractLsb' 5 1) 2 (stackBits imm)) 0b01
  | .lui imm rd => cword 0b011 (immI imm rd) 0b01
  | .srli shamt rd => cword 0b100 (immM 0b00 shamt rd) 0b01
  | .srai shamt rd => cword 0b100 (immM 0b01 shamt rd) 0b01
  | .andi imm rd => cword 0b100 (immM 0b10 imm rd) 0b01
  | .reg o rd rs2 => cword 0b100 (layM (o.bits.1 ++ 0b11#2) rd o.bits.2 rs2) 0b01
  | .j offset => cword 0b101 (jumpBody offset) 0b01
  | .beqz offset rs1 => cword 0b110 (branchBody offset rs1) 0b01
  | .bnez offset rs1 => cword 0b111 (branchBody offset rs1) 0b01
  | .slli shamt rd => cword 0b000 (immI shamt rd) 0b10
  | .loadSp a offset rd => cword a.loadFunct3 (layI (a.spHigh offset) rd (a.spLow offset)) 0b10
  | .jr rs1 => cword 0b100 (layI 0 rs1 0) 0b10
  | .mv rd rs2 => cword 0b100 (layI 0 rd rs2) 0b10
  | .ebreak => cword 0b100 (layI 1 0 0) 0b10
  | .jalr rs1 => cword 0b100 (layI 1 rs1 0) 0b10
  | .add rd rs2 => cword 0b100 (layI 1 rd rs2) 0b10
  | .storeSp a offset rs2 => cword a.storeFunct3 (layS (a.spStore offset) rs2) 0b10

end Isa

end Rvsim
