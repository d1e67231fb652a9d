/-
# Compressed instructions

`isa/rvc/expand.rs`: a 16-bit instruction word to the 32-bit word of the same
instruction, or zero where there is none. Every other result is a 32-bit
instruction word: its two low bits are set.

Key definitions:
  - `Rvc.expand`
Key theorems:
  - `Rvc.expand_low`
-/
import Rvsim.Decode
import Rvsim.Lib.Masks

namespace Rvsim

namespace Rvc

/-- `sign_extend`: the low `bits` bits, carried to 32. -/
def signExtend (val : U32) (bits : Nat) : U32 := (val <<< (32 - bits)).sshiftRight (32 - bits)

/-- Bits `lo` and up of the word, under a mask. -/
def field (inst : U16) (lo : Nat) (mask : U16) : U16 := (inst >>> lo) &&& mask

/-- A register field, as the 32-bit words carry it. -/
def reg (inst : U16) (lo : Nat) : U32 := (field inst lo 0x1F).setWidth 32

/-- A three-bit register field, which counts from `x8`. -/
def regShort (inst : U16) (lo : Nat) : U32 := 8 + (field inst lo 0x7).setWidth 32

/-- The six-bit immediate of the CI format. -/
def immCi (inst : U16) : U16 := field inst 2 0x1F ||| (field inst 12 1 <<< 5)

def immCiSigned (inst : U16) : U32 := signExtend ((immCi inst).setWidth 32) 6

/-- An I-format word. -/
def wordIType (imm rs1 funct3 rd opcode : U32) : U32 :=
  (imm <<< 20) ||| (rs1 <<< 15) ||| (funct3 <<< 12) ||| (rd <<< 7) ||| opcode

/-- An R-format word. -/
def wordRType (funct7 rs2 rs1 funct3 rd opcode : U32) : U32 :=
  (funct7 <<< 25) ||| (rs2 <<< 20) ||| (rs1 <<< 15) ||| (funct3 <<< 12) ||| (rd <<< 7) ||| opcode

/-- An S-format word; the immediate is split over two fields. -/
def wordSType (imm : U16) (rs2 rs1 funct3 opcode : U32) : U32 :=
  ((imm >>> 5).setWidth 32 <<< 25) ||| (rs2 <<< 20) ||| (rs1 <<< 15) ||| (funct3 <<< 12) |||
    ((imm &&& 0x1F).setWidth 32 <<< 7) ||| opcode

def op (o : Opcode) : U32 := o.setWidth 32

def quadrant0 (inst : U16) : U32 :=
  let funct3 := field inst 13 0x7
  let immW := (field inst 6 1 <<< 2) ||| (field inst 10 0x7 <<< 3) ||| (field inst 5 1 <<< 6)
  let immD := (field inst 10 0x7 <<< 3) ||| (field inst 5 0x3 <<< 6)
  let rs1 := regShort inst 7
  let rd := regShort inst 2
  if funct3 = 0b000 then
    let imm := (field inst 6 1 <<< 2) ||| (field inst 5 1 <<< 3) ||| (field inst 11 0x3 <<< 4) |||
        (field inst 7 0xF <<< 6)
    if imm = 0 then 0 else wordIType (imm.setWidth 32) 2 0 rd (op Op.imm)
  else if funct3 = 0b001 then wordIType (immD.setWidth 32) rs1 3 rd (op Op.loadFp)
  else if funct3 = 0b010 then wordIType (immW.setWidth 32) rs1 2 rd (op Op.load)
  else if funct3 = 0b011 then wordIType (immD.setWidth 32) rs1 3 rd (op Op.load)
  else if funct3 = 0b101 then wordSType immD rd rs1 3 (op Op.storeFp)
  else if funct3 = 0b110 then wordSType immW rd rs1 2 (op Op.store)
  else if funct3 = 0b111 then wordSType immD rd rs1 3 (op Op.store)
  else 0

/-- C.SRLI, C.SRAI, C.ANDI and the register forms. -/
def miscAlu1 (inst : U16) : U32 :=
  let rd := regShort inst 7
  let rs2 := regShort inst 2
  let imm := immCiSigned inst
  let funct2 := field inst 10 0x3
  if funct2 = 0 then wordIType (imm &&& 0x3F) rd 5 rd (op Op.imm)
  else if funct2 = 1 then (0b0100000 <<< 25) ||| wordIType (imm &&& 0x3F) rd 5 rd (op Op.imm)
  else if funct2 = 2 then wordIType (imm &&& 0xFFF) rd 7 rd (op Op.imm)
  else
    let bit12 := field inst 12 1
    let subOp := field inst 5 0x3
    if bit12 = 0 ∧ subOp = 0 then wordRType 0b0100000 rs2 rd 0 rd (op Op.reg)
    else if bit12 = 0 ∧ subOp = 1 then wordRType 0 rs2 rd 4 rd (op Op.reg)
    else if bit12 = 0 ∧ subOp = 2 then wordRType 0 rs2 rd 6 rd (op Op.reg)
    else if bit12 = 0 ∧ subOp = 3 then wordRType 0 rs2 rd 7 rd (op Op.reg)
    else if bit12 = 1 ∧ subOp = 0 then wordRType 0b0100000 rs2 rd 0 rd (op Op.reg32)
    else if bit12 = 1 ∧ subOp = 1 then wordRType 0 rs2 rd 0 rd (op Op.reg32)
    else 0

/-- C.J: a JAL that links nothing. -/
def jump (inst : U16) : U32 :=
  let offset :=
    signExtend
      (((field inst 3 0x7 <<< 1) ||| (field inst 11 1 <<< 4) ||| (field inst 2 1 <<< 5) ||| (field inst 7 1 <<< 6) |||
        (field inst 6 1 <<< 7) ||| (field inst 9 3 <<< 8) ||| (field inst 8 1 <<< 10) |||
            (field inst 12 1 <<< 11)).setWidth 32)
      12
  let imm20 := (offset >>> 20) &&& 1
  let imm10_1 := (offset >>> 1) &&& 0x3FF
  let imm11 := (offset >>> 11) &&& 1
  let imm19_12 := (offset >>> 12) &&& 0xFF
  (imm20 <<< 31) ||| (imm19_12 <<< 12) ||| (imm11 <<< 20) ||| (imm10_1 <<< 21) ||| op Op.jal

/-- C.BEQZ and C.BNEZ, by the condition. -/
def branch (inst : U16) (funct3 : U32) : U32 :=
  let offset :=
    signExtend
      (((field inst 3 0x3 <<< 1) ||| (field inst 10 0x3 <<< 3) ||| (field inst 2 1 <<< 5) |||
          (field inst 5 0x3 <<< 6) |||
        (field inst 12 1 <<< 8)).setWidth 32) 9
  let rs1 := regShort inst 7
  let imm12 := (offset >>> 12) &&& 1
  let imm10_5 := (offset >>> 5) &&& 0x3F
  let imm4_1 := (offset >>> 1) &&& 0xF
  let imm11 := (offset >>> 11) &&& 1
  (imm12 <<< 31) ||| (imm10_5 <<< 25) ||| (rs1 <<< 15) ||| (funct3 <<< 12) ||| (imm4_1 <<< 8) ||| (imm11 <<< 7) |||
    op Op.branch

def quadrant1 (inst : U16) : U32 :=
  let funct3 := field inst 13 0x7
  let rd := reg inst 7
  if funct3 = 0b000 then wordIType (immCiSigned inst &&& 0xFFF) rd 0 rd (op Op.imm)
  else if funct3 = 0b001 then
    if rd = 0 then 0 else wordIType (immCiSigned inst &&& 0xFFF) rd 0 rd (op Op.imm32)
  else if funct3 = 0b010 then wordIType (immCiSigned inst &&& 0xFFF) 0 0 rd (op Op.imm)
  else if funct3 = 0b011 then
    if rd = 2 then
      let imm :=
        signExtend
          (((field inst 6 1 <<< 4) ||| (field inst 2 1 <<< 5) ||| (field inst 5 1 <<< 6) ||| (field inst 3 3 <<< 7) |||
            (field inst 12 1 <<< 9)).setWidth 32) 10
      if imm = 0 then 0 else wordIType (imm &&& 0xFFF) 2 0 2 (op Op.imm)
    else
      let imm := immCiSigned inst
      if imm = 0 then 0 else (imm <<< 12) ||| (rd <<< 7) ||| op Op.lui
  else if funct3 = 0b100 then miscAlu1 inst
  else if funct3 = 0b101 then jump inst
  else if funct3 = 0b110 then branch inst 0
  else branch inst 1

/-- C.JR, C.MV, C.EBREAK, C.JALR and C.ADD. -/
def miscAlu2 (inst : U16) : U32 :=
  let rs2 := reg inst 2
  let rs1 := reg inst 7
  if field inst 12 1 = 0 then
    if rs2 = 0 then if rs1 = 0 then 0 else wordIType 0 rs1 0 0 (op Op.jalr)
    else wordRType 0 rs2 0 0 rs1 (op Op.reg)
  else if rs2 = 0 then if rs1 = 0 then Inst.ebreak else wordIType 0 rs1 0 1 (op Op.jalr)
  else wordRType 0 rs2 rs1 0 rs1 (op Op.reg)

def quadrant2 (inst : U16) : U32 :=
  let funct3 := field inst 13 0x7
  let rd := reg inst 7
  let immWsp := (field inst 12 1 <<< 5) ||| (field inst 4 0x7 <<< 2) ||| (field inst 2 0x3 <<< 6)
  let immDsp := (field inst 12 1 <<< 5) ||| (field inst 5 0x3 <<< 3) ||| (field inst 2 0x7 <<< 6)
  let storeW := (field inst 9 0xF <<< 2) ||| (field inst 7 0x3 <<< 6)
  let storeD := (field inst 10 0x7 <<< 3) ||| (field inst 7 0x7 <<< 6)
  let rs2 := reg inst 2
  if funct3 = 0b000 then if rd = 0 then 0 else wordIType ((immCi inst).setWidth 32) rd 1 rd (op Op.imm)
  else if funct3 = 0b001 then wordIType (immDsp.setWidth 32) 2 3 rd (op Op.loadFp)
  else if funct3 = 0b010 then if rd = 0 then 0 else wordIType (immWsp.setWidth 32) 2 2 rd (op Op.load)
  else if funct3 = 0b011 then if rd = 0 then 0 else wordIType (immDsp.setWidth 32) 2 3 rd (op Op.load)
  else if funct3 = 0b100 then miscAlu2 inst
  else if funct3 = 0b101 then wordSType storeD rs2 2 3 (op Op.storeFp)
  else if funct3 = 0b110 then wordSType storeW rs2 2 2 (op Op.store)
  else wordSType storeD rs2 2 3 (op Op.store)

def expand (inst : U16) : U32 :=
  if inst &&& 0x3 = 0b00 then quadrant0 inst
  else if inst &&& 0x3 = 0b01 then quadrant1 inst
  else if inst &&& 0x3 = 0b10 then quadrant2 inst
  else 0

/-! ### What an expansion is -/

/-- No instruction, or a 32-bit instruction word. -/
def Whole (w : U32) : Prop := w = 0 ∨ w &&& 0x3 = 0x3

theorem whole_zero : Whole 0 := Or.inl rfl

/-- An opcode with its two low bits set makes the word one. -/
theorem whole_or (x o : U32) (ho : o &&& 0x3 = 0x3) : Whole (x ||| o) := by
  refine Or.inr (Masks.ext_bits fun i _ => ?_)
  have hi := congrArg (fun z : U32 => z.getLsbD i) ho
  simp only [BitVec.getLsbD_and] at hi
  rw [BitVec.getLsbD_and, BitVec.getLsbD_or]
  cases hx : x.getLsbD i <;> cases h3 : (0x3 : U32).getLsbD i <;> simp_all

theorem whole_ite {p : Prop} [Decidable p] {x y : U32} (hx : Whole x) (hy : Whole y) : Whole (if p then x else y) := by
  split
  · exact hx
  · exact hy

theorem whole_wordIType (imm rs1 f3 rd o : U32) (ho : o &&& 0x3 = 0x3) :
    Whole (wordIType imm rs1 f3 rd o) := whole_or _ o ho

theorem whole_wordRType (f7 rs2 rs1 f3 rd o : U32) (ho : o &&& 0x3 = 0x3) : Whole (wordRType f7 rs2 rs1 f3 rd o) :=
  whole_or _ o ho

theorem whole_wordSType (imm : U16) (rs2 rs1 f3 o : U32) (ho : o &&& 0x3 = 0x3) : Whole (wordSType imm rs2 rs1 f3 o) :=
  whole_or _ o ho

theorem whole_ebreak : Whole Inst.ebreak := Or.inr (by decide)

theorem whole_quadrant0 (inst : U16) : Whole (quadrant0 inst) := by
  unfold quadrant0
  dsimp only
  repeat' first
    | with_reducible refine whole_ite ?_ ?_
    | with_reducible exact whole_zero
    | with_reducible exact whole_wordIType _ _ _ _ _ (by decide)
    | with_reducible exact whole_wordSType _ _ _ _ _ (by decide)

theorem whole_miscAlu1 (inst : U16) : Whole (miscAlu1 inst) := by
  unfold miscAlu1
  dsimp only
  repeat' first
    | with_reducible refine whole_ite ?_ ?_
    | with_reducible exact whole_zero
    | with_reducible exact whole_wordIType _ _ _ _ _ (by decide)
    | with_reducible exact whole_wordRType _ _ _ _ _ _ (by decide)
  -- C.SRAI sets a bit over the I format
  unfold wordIType
  rw [← BitVec.or_assoc]
  exact whole_or _ _ (by decide)

theorem whole_jump (inst : U16) : Whole (jump inst) := whole_or _ _ (by decide)

theorem whole_branch (inst : U16) (funct3 : U32) : Whole (branch inst funct3) := whole_or _ _ (by decide)

theorem whole_quadrant1 (inst : U16) : Whole (quadrant1 inst) := by
  unfold quadrant1
  dsimp only
  repeat' first
    | with_reducible refine whole_ite ?_ ?_
    | with_reducible exact whole_zero
    | with_reducible exact whole_miscAlu1 inst
    | with_reducible exact whole_jump inst
    | with_reducible exact whole_branch inst _
    | with_reducible exact whole_wordIType _ _ _ _ _ (by decide)
    | with_reducible exact whole_or _ _ (by decide)

theorem whole_quadrant2 (inst : U16) : Whole (quadrant2 inst) := by
  unfold quadrant2 miscAlu2
  dsimp only
  repeat' first
    | with_reducible refine whole_ite ?_ ?_
    | with_reducible exact whole_zero
    | with_reducible exact whole_wordIType _ _ _ _ _ (by decide)
    | with_reducible exact whole_wordRType _ _ _ _ _ _ (by decide)
    | with_reducible exact whole_wordSType _ _ _ _ _ (by decide)
    | with_reducible exact whole_ebreak

/-- Every expansion is a 32-bit instruction word, or zero. -/
theorem expand_low (inst : U16) : Whole (expand inst) := by
  unfold expand
  refine whole_ite (whole_quadrant0 inst)
      (whole_ite (whole_quadrant1 inst) (whole_ite (whole_quadrant2 inst) whole_zero))

end Rvc

end Rvsim
