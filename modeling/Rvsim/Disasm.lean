/-
# The disassembler

`isa/disasm.rs`: the text of an instruction word. A line is a mnemonic and
operands between commas; numbers are printed as the format strings print
them, decimal or hexadecimal with their padding.

Key definitions:
  - `Disasm.xreg`, `Disasm.freg`
  - `Disasm.disasmOpReg`, `Disasm.disasmOpImm`, `Disasm.disasmOpFp`, `Disasm.disasmAmo`, `Disasm.disasmSystem`
  - `Disasm.disassemble`
-/
import Rvsim.Rvc

namespace Rvsim

namespace Disasm

/-! ### Registers and numbers -/

def regNames : List String :=
  ["zero", "ra", "sp", "gp", "tp", "t0", "t1", "t2", "s0", "s1", "a0", "a1", "a2", "a3", "a4",
    "a5", "a6", "a7", "s2", "s3", "s4", "s5", "s6", "s7", "s8", "s9", "s10", "s11", "t3", "t4",
    "t5", "t6"]

def fregNames : List String :=
  ["ft0", "ft1", "ft2", "ft3", "ft4", "ft5", "ft6", "ft7", "fs0", "fs1", "fa0", "fa1", "fa2",
    "fa3", "fa4", "fa5", "fa6", "fa7", "fs2", "fs3", "fs4", "fs5", "fs6", "fs7", "fs8", "fs9",
    "fs10", "fs11", "ft8", "ft9", "ft10", "ft11"]

def xreg (idx : RegIdx) : String := (regNames[idx.toNat]?).getD "x??"

def freg (idx : RegIdx) : String := (fregNames[idx.toNat]?).getD "f??"

/-- `{v}` of an `i64`. -/
def decimal (v : U64) : String := toString v.toInt

def hexDigits (n : Nat) : List Char := Nat.toDigits 16 n

/-- `{v:#x}`, zero-padded to `width` digits. -/
def hex (n width : Nat) : String :=
  "0x" ++ String.ofList (List.replicate (width - (hexDigits n).length) '0' ++ hexDigits n)

/-- `{mn} {}, {}, {}`: a mnemonic and its operands. -/
def line (mn : String) (operands : List String) : String := mn ++ " " ++ ", ".intercalate operands

/-- `{offset}({base})`. -/
def address (offset : U64) (base : RegIdx) : String := decimal offset ++ "(" ++ xreg base ++ ")"

def unknown (inst : U32) : String := "unknown (" ++ hex inst.toNat 8 ++ ")"

/-! ### Immediates -/

def immI (inst : U32) : U64 := (inst.sshiftRight 20).signExtend 64

def immS (inst : U32) : U64 :=
  let lo := (inst >>> 7) &&& 0x1F
  let hi := (inst >>> 25) &&& 0x7F
  let v := (hi <<< 5) ||| lo
  ((v <<< 20).sshiftRight 20).signExtend 64

def immB (inst : U32) : U64 :=
  let bit11 := (inst >>> 7) &&& 1
  let bits4_1 := (inst >>> 8) &&& 0xF
  let bits10_5 := (inst >>> 25) &&& 0x3F
  let bit12 := (inst >>> 31) &&& 1
  let v := (bit12 <<< 12) ||| (bit11 <<< 11) ||| (bits10_5 <<< 5) ||| (bits4_1 <<< 1)
  ((v <<< 19).sshiftRight 19).signExtend 64

def immU (inst : U32) : U64 := (inst &&& 0xFFFFF000).signExtend 64

def immJ (inst : U32) : U64 :=
  let bits19_12 := (inst >>> 12) &&& 0xFF
  let bit11 := (inst >>> 20) &&& 1
  let bits10_1 := (inst >>> 21) &&& 0x3FF
  let bit20 := (inst >>> 31) &&& 1
  let v := (bit20 <<< 20) ||| (bits19_12 <<< 12) ||| (bit11 <<< 11) ||| (bits10_1 <<< 1)
  ((v <<< 11).sshiftRight 11).signExtend 64

/-- The twenty bits that LUI and AUIPC print. -/
def upper (inst : U32) : String := hex (((immU inst).sshiftRight 12) &&& 0xFFFFF).toNat 1

/-! ### Groups -/

def mulName (f3 : Funct3) : String :=
  if f3 = 0 then "mul"
  else if f3 = 1 then "mulh"
  else if f3 = 2 then "mulhsu"
  else if f3 = 3 then "mulhu"
  else if f3 = 4 then "div"
  else if f3 = 5 then "divu"
  else if f3 = 6 then "rem"
  else "remu"

def regName (f3 : Funct3) (f7 : Funct7) : String :=
  if f3 = 0 ∧ f7 = 0 then "add"
  else if f3 = 0 ∧ f7 = 0x20 then "sub"
  else if f3 = 1 then "sll"
  else if f3 = 2 then "slt"
  else if f3 = 3 then "sltu"
  else if f3 = 4 then "xor"
  else if f3 = 5 ∧ f7 = 0 then "srl"
  else if f3 = 5 ∧ f7 = 0x20 then "sra"
  else if f3 = 6 then "or"
  else if f3 = 7 then "and"
  else "r??"

def suffix (isW : Bool) : String := if isW then "w" else ""

def disasmOpReg (rd rs1 rs2 : RegIdx) (f3 : Funct3) (f7 : Funct7) (isW : Bool) : String :=
  if f7 = 1 then line (mulName f3 ++ suffix isW) [xreg rd, xreg rs1, xreg rs2]
  else line (regName f3 f7 ++ suffix isW) [xreg rd, xreg rs1, xreg rs2]

def disasmOpImm (rd rs1 : RegIdx) (f3 : Funct3) (imm : U64) (isW : Bool) : String :=
  let shamt := imm &&& 0x3F
  let arith (mn : String) := line (mn ++ suffix isW) [xreg rd, xreg rs1, decimal imm]
  let shift (mn : String) := line (mn ++ suffix isW) [xreg rd, xreg rs1, decimal shamt]
  if f3 = 0 then arith "addi"
  else if f3 = 2 then arith "slti"
  else if f3 = 3 then arith "sltiu"
  else if f3 = 4 then arith "xori"
  else if f3 = 6 then arith "ori"
  else if f3 = 7 then arith "andi"
  else if f3 = 1 then shift "slli"
  else if (imm.sshiftRight 10) &&& 1 ≠ 0 then shift "srai"
  else shift "srli"

/-- The integer side of a conversion, by the `rs2` field. -/
def cvtVariant (rs2 : RegIdx) : String :=
  if rs2 = 0 then "w" else if rs2 = 1 then "wu" else if rs2 = 2 then "l" else "lu"

def disasmOpFp (rd rs1 rs2 : RegIdx) (f3 : Funct3) (f7 : Funct7) : String :=
  let isDouble : Bool := f7 &&& 1 ≠ 0
  let p := if isDouble then "d" else "s"
  let fff (mn : String) := line (mn ++ "." ++ p) [freg rd, freg rs1, freg rs2]
  if f7 = 0b0000000 ∨ f7 = 0b0000001 then fff "fadd"
  else if f7 = 0b0000100 ∨ f7 = 0b0000101 then fff "fsub"
  else if f7 = 0b0001000 ∨ f7 = 0b0001001 then fff "fmul"
  else if f7 = 0b0001100 ∨ f7 = 0b0001101 then fff "fdiv"
  else if f7 = 0b0101100 ∨ f7 = 0b0101101 then line ("fsqrt." ++ p) [freg rd, freg rs1]
  else if f7 = 0b0010000 ∨ f7 = 0b0010001 then
    fff (if f3 = 0 then "fsgnj" else if f3 = 1 then "fsgnjn" else if f3 = 2 then "fsgnjx" else "fsgnj?")
  else if f7 = 0b0010100 ∨ f7 = 0b0010101 then fff (if f3 = 0 then "fmin" else "fmax")
  else if f7 = 0b1010000 ∨ f7 = 0b1010001 then
    let mn := if f3 = 2 then "feq" else if f3 = 1 then "flt" else if f3 = 0 then "fle" else "fcmp?"
    line (mn ++ "." ++ p) [xreg rd, freg rs1, freg rs2]
  else if f7 = 0b1110000 ∨ f7 = 0b1110001 then
    if f3 = 1 then line ("fclass." ++ p) [xreg rd, freg rs1]
    else line ("fmv.x." ++ if isDouble then "d" else "w") [xreg rd, freg rs1]
  else if f7 = 0b1100000 ∨ f7 = 0b1100001 then line ("fcvt." ++ cvtVariant rs2 ++ "." ++ p) [xreg rd, freg rs1]
  else if f7 = 0b1101000 ∨ f7 = 0b1101001 then line ("fcvt." ++ p ++ "." ++ cvtVariant rs2) [freg rd, xreg rs1]
  else if f7 = 0b1111000 ∨ f7 = 0b1111001 then
    line ("fmv." ++ (if isDouble then "d" else "w") ++ ".x") [freg rd, xreg rs1]
  else if f7 = 0b0100001 then line "fcvt.d.s" [freg rd, freg rs1]
  else if f7 = 0b0100000 then line "fcvt.s.d" [freg rd, freg rs1]
  else "fp?? (funct7=" ++ hex f7.toNat 2 ++ ")"

def ordering (aq rl : Bool) : String :=
  match aq, rl with
  | true, true => ".aqrl"
  | true, false => ".aq"
  | false, true => ".rl"
  | false, false => ""

def amoName (f5 : BitVec 5) : String :=
  if f5 = 0b00011 then "sc"
  else if f5 = 0b00001 then "amoswap"
  else if f5 = 0b00000 then "amoadd"
  else if f5 = 0b00100 then "amoxor"
  else if f5 = 0b01100 then "amoand"
  else if f5 = 0b01000 then "amoor"
  else if f5 = 0b10000 then "amomin"
  else if f5 = 0b10100 then "amomax"
  else if f5 = 0b11000 then "amominu"
  else if f5 = 0b11100 then "amomaxu"
  else "amo??"

/-- `.aq` and `.rl`, by the low bits of `funct7`. -/
def aqrl (f7 : Funct7) : String := ordering ((f7 >>> 1) &&& 1 ≠ 0) (f7 &&& 1 ≠ 0)

def disasmAmo (rd rs1 rs2 : RegIdx) (f3 : Funct3) (f7 : Funct7) : String :=
  let width := if f3 = 0b011 then ".d" else ".w"
  let funct5 := (f7 >>> 2).setWidth 5
  if funct5 = 0b00010 then line ("lr" ++ width ++ aqrl f7) [xreg rd, "(" ++ xreg rs1 ++ ")"]
  else line (amoName funct5 ++ width ++ aqrl f7) [xreg rd, xreg rs2, "(" ++ xreg rs1 ++ ")"]

def disasmSystem (inst : U32) (rd rs1 : RegIdx) (f3 : Funct3) : String :=
  let csr := hex (Inst.csr inst).toNat 3
  let register (mn : String) := line mn [xreg rd, csr, xreg rs1]
  let immediate (mn : String) := line mn [xreg rd, csr, toString rs1.toNat]
  if inst = Inst.ecall then "ecall"
  else if inst = Inst.ebreak then "ebreak"
  else if inst = Inst.mret then "mret"
  else if inst = Inst.sret then "sret"
  else if inst = Inst.wfi then "wfi"
  else if inst &&& 0xFE007FFF = Inst.sfenceVma then line "sfence.vma" [xreg rs1, xreg (Inst.rs2 inst)]
  else if f3 = 1 then register "csrrw"
  else if f3 = 2 then register "csrrs"
  else if f3 = 3 then register "csrrc"
  else if f3 = 5 then immediate "csrrwi"
  else if f3 = 6 then immediate "csrrsi"
  else if f3 = 7 then immediate "csrrci"
  else "system?? (" ++ hex inst.toNat 8 ++ ")"

def fpPrecision (f7 : Funct7) : String := if f7 &&& 3 = 1 then "d" else "s"

def loadName (f3 : Funct3) : String :=
  if f3 = 0 then "lb"
  else if f3 = 1 then "lh"
  else if f3 = 2 then "lw"
  else if f3 = 3 then "ld"
  else if f3 = 4 then "lbu"
  else if f3 = 5 then "lhu"
  else if f3 = 6 then "lwu"
  else "l??"

def storeName (f3 : Funct3) : String :=
  if f3 = 0 then "sb" else if f3 = 1 then "sh" else if f3 = 2 then "sw" else if f3 = 3 then "sd" else "s??"

def branchName (f3 : Funct3) : String :=
  if f3 = 0 then "beq"
  else if f3 = 1 then "bne"
  else if f3 = 4 then "blt"
  else if f3 = 5 then "bge"
  else if f3 = 6 then "bltu"
  else if f3 = 7 then "bgeu"
  else "b??"

/-! ### Words -/

/-- The text of a 32-bit instruction word. -/
def disassembleWord (inst : U32) : String :=
  let opcode := Inst.opcode inst
  let rd := Inst.rd inst
  let rs1 := Inst.rs1 inst
  let rs2 := Inst.rs2 inst
  let f3 := Inst.funct3 inst
  let f7 := Inst.funct7 inst
  let fused (mn : String) := line (mn ++ "." ++ fpPrecision f7) [freg rd, freg rs1, freg rs2, freg (Inst.rs3 inst)]
  if opcode = Op.reg then disasmOpReg rd rs1 rs2 f3 f7 false
  else if opcode = Op.reg32 then disasmOpReg rd rs1 rs2 f3 f7 true
  else if opcode = Op.imm then disasmOpImm rd rs1 f3 (immI inst) false
  else if opcode = Op.imm32 then disasmOpImm rd rs1 f3 (immI inst) true
  else if opcode = Op.load then line (loadName f3) [xreg rd, address (immI inst) rs1]
  else if opcode = Op.loadFp then line (if f3 = 2 then "flw" else "fld") [freg rd, address (immI inst) rs1]
  else if opcode = Op.store then line (storeName f3) [xreg rs2, address (immS inst) rs1]
  else if opcode = Op.storeFp then line (if f3 = 2 then "fsw" else "fsd") [freg rs2, address (immS inst) rs1]
  else if opcode = Op.branch then line (branchName f3) [xreg rs1, xreg rs2, decimal (immB inst)]
  else if opcode = Op.lui then line "lui" [xreg rd, upper inst]
  else if opcode = Op.auipc then line "auipc" [xreg rd, upper inst]
  else if opcode = Op.jal then line "jal" [xreg rd, decimal (immJ inst)]
  else if opcode = Op.jalr then line "jalr" [xreg rd, address (immI inst) rs1]
  else if opcode = Op.fp then disasmOpFp rd rs1 rs2 f3 f7
  else if opcode = Op.fmadd then fused "fmadd"
  else if opcode = Op.fmsub then fused "fmsub"
  else if opcode = Op.fnmsub then fused "fnmsub"
  else if opcode = Op.fnmadd then fused "fnmadd"
  else if opcode = Op.amo then disasmAmo rd rs1 rs2 f3 f7
  else if opcode = Op.miscMem then if f3 = 1 then "fence.i" else "fence"
  else if opcode = Op.system then disasmSystem inst rd rs1 f3
  else unknown inst

/-- A compressed word is expanded first. The source calls itself on the
expansion, which is a 32-bit instruction word (`Rvc.expand_low`). -/
def disassemble (inst : U32) : String :=
  if inst &&& 0x3 ≠ 0x3 then
    let expanded := Rvc.expand (inst.setWidth 16)
    if expanded = 0 then unknown inst else disassembleWord expanded
  else disassembleWord inst

end Disasm

end Rvsim
