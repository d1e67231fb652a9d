/-
# Assembly of the control signals

What the disassembler is to print. A word that the decoder accepts denotes the
instruction its control signals select. `Disasm.assembly` spells that
instruction out: the mnemonic by the operation, width, W form, precision and
signedness of the signals, and the operands by the fields, each in the
register file that the signals name. `Disasm.Names` compares a text with it,
and asks for an unknown form of a word that the decoder refuses.

Key definitions:
  - `Disasm.Assembly`, `Disasm.assembly`
  - `Disasm.Names`, `Disasm.Agrees`
Key theorems:
  - `Disasm.names_of_some`, `Disasm.names_iff_unknown`, `Disasm.misprint`
-/
import Rvsim.Disasm
import Rvsim.Lib.Text
import Rvsim.NanBoxing

namespace Rvsim

open Isa

namespace Disasm

/-! ### Assembly text -/

inductive Operand where
  | x (r : RegIdx)
  | f (r : RegIdx)
  | imm (v : U64)
  /-- The upper twenty bits of a 32-bit constant. -/
  | upper (v : U64)
  | memory (offset : U64) (base : RegIdx)
  | location (base : RegIdx)
  | csr (a : CsrAddr)
  | uimm (r : RegIdx)

def Operand.text : Operand → String
  | x r => xreg r
  | f r => freg r
  | imm v => decimal v
  | upper v => hex ((v.sshiftRight 12) &&& 0xFFFFF).toNat 1
  | memory offset base => address offset base
  | location base => "(" ++ xreg base ++ ")"
  | csr a => hex a.toNat 3
  | uimm r => toString r.toNat

structure Assembly where
  mnemonic : String
  operands : List Operand

def Assembly.text (a : Assembly) : String :=
  match a.operands with
  | [] => a.mnemonic
  | ops => line a.mnemonic (ops.map Operand.text)

/-- No two registers, of one file or of both, print alike. -/
theorem registers_nodup : (regNames ++ fregNames).Nodup := by decide

/-! ### The instruction of the signals -/

section Signals

variable (w : U32) (c : ControlSignals)

def destination : Operand := if c.fpRegWrite then .f (Inst.rd w) else .x (Inst.rd w)

def source1 : Operand := if c.rs1Fp then .f (Inst.rs1 w) else .x (Inst.rs1 w)

def source2 : Operand := if c.rs2Fp then .f (Inst.rs2 w) else .x (Inst.rs2 w)

def source3 : Operand := if c.rs3Fp then .f (Inst.rs3 w) else .x (Inst.rs3 w)

def csrAssembly : Option Assembly :=
  let ops := [.x (Inst.rd w), .csr c.csrAddr, .x (Inst.rs1 w)]
  let opsI := [.x (Inst.rd w), .csr c.csrAddr, .uimm (Inst.rs1 w)]
  match c.csrOp with
  | .rw => some ⟨"csrrw", ops⟩
  | .rs => some ⟨"csrrs", ops⟩
  | .rc => some ⟨"csrrc", ops⟩
  | .rwi => some ⟨"csrrwi", opsI⟩
  | .rsi => some ⟨"csrrsi", opsI⟩
  | .rci => some ⟨"csrrci", opsI⟩
  | .none => none

def atomicName : AtomicOp → String
  | .none => ""
  | .lr => "lr"
  | .sc => "sc"
  | .swap => "amoswap"
  | .add => "amoadd"
  | .xor => "amoxor"
  | .and => "amoand"
  | .or => "amoor"
  | .min => "amomin"
  | .max => "amomax"
  | .minu => "amominu"
  | .maxu => "amomaxu"

/-- LR, SC and AMOs; the ordering bits are in the word. -/
def atomicAssembly : Option Assembly :=
  let name (width : String) := atomicName c.atomicOp ++ width ++ aqrl (Inst.funct7 w)
  let ops :=
    if c.atomicOp = .lr then [.x (Inst.rd w), .location (Inst.rs1 w)]
    else [.x (Inst.rd w), .x (Inst.rs2 w), .location (Inst.rs1 w)]
  match c.width with
  | .word => some ⟨name ".w", ops⟩
  | .double => some ⟨name ".d", ops⟩
  | _ => none

def loadAssembly : Option Assembly :=
  let ops := [destination w c, .memory (decodeImm w) (Inst.rs1 w)]
  match c.fpRegWrite, c.width, c.signedLoad with
  | false, .byte, true => some ⟨"lb", ops⟩
  | false, .half, true => some ⟨"lh", ops⟩
  | false, .word, true => some ⟨"lw", ops⟩
  | false, .double, true => some ⟨"ld", ops⟩
  | false, .byte, false => some ⟨"lbu", ops⟩
  | false, .half, false => some ⟨"lhu", ops⟩
  | false, .word, false => some ⟨"lwu", ops⟩
  | true, .word, _ => some ⟨"flw", ops⟩
  | true, .double, _ => some ⟨"fld", ops⟩
  | _, _, _ => none

def storeAssembly : Option Assembly :=
  let ops := [source2 w c, .memory (decodeImm w) (Inst.rs1 w)]
  match c.rs2Fp, c.width with
  | false, .byte => some ⟨"sb", ops⟩
  | false, .half => some ⟨"sh", ops⟩
  | false, .word => some ⟨"sw", ops⟩
  | false, .double => some ⟨"sd", ops⟩
  | true, .word => some ⟨"fsw", ops⟩
  | true, .double => some ⟨"fsd", ops⟩
  | _, _ => none

/-- A branch; its condition is read off `funct3` where it is executed. -/
def branchAssembly : Option Assembly :=
  let ops := [.x (Inst.rs1 w), .x (Inst.rs2 w), .imm (decodeImm w)]
  if Inst.funct3 w = 0 then some ⟨"beq", ops⟩
  else if Inst.funct3 w = 1 then some ⟨"bne", ops⟩
  else if Inst.funct3 w = 4 then some ⟨"blt", ops⟩
  else if Inst.funct3 w = 5 then some ⟨"bge", ops⟩
  else if Inst.funct3 w = 6 then some ⟨"bltu", ops⟩
  else if Inst.funct3 w = 7 then some ⟨"bgeu", ops⟩
  else none

/-- A jump: JALR adds to a register, JAL to the pc. -/
def jumpAssembly : Assembly :=
  if Inst.opcode w = Op.jalr then ⟨"jalr", [.x (Inst.rd w), .memory (decodeImm w) (Inst.rs1 w)]⟩
  else ⟨"jal", [.x (Inst.rd w), .imm (decodeImm w)]⟩

def fpMnemonic : String :=
  let p := if c.isRv32 then "s" else "d"
  let m := if c.isRv32 then "w" else "d"
  match c.alu with
  | .fAdd => "fadd." ++ p
  | .fSub => "fsub." ++ p
  | .fMul => "fmul." ++ p
  | .fDiv => "fdiv." ++ p
  | .fSqrt => "fsqrt." ++ p
  | .fMin => "fmin." ++ p
  | .fMax => "fmax." ++ p
  | .fMAdd => "fmadd." ++ p
  | .fMSub => "fmsub." ++ p
  | .fNMAdd => "fnmadd." ++ p
  | .fNMSub => "fnmsub." ++ p
  | .fSgnJ => "fsgnj." ++ p
  | .fSgnJN => "fsgnjn." ++ p
  | .fSgnJX => "fsgnjx." ++ p
  | .fEq => "feq." ++ p
  | .fLt => "flt." ++ p
  | .fLe => "fle." ++ p
  | .fClass => "fclass." ++ p
  | .fMvToX => "fmv.x." ++ m
  | .fMvToF => "fmv." ++ m ++ ".x"
  | .fCvtWS => "fcvt.w." ++ p
  | .fCvtWUS => "fcvt.wu." ++ p
  | .fCvtLS => "fcvt.l." ++ p
  | .fCvtLUS => "fcvt.lu." ++ p
  | .fCvtSW => "fcvt." ++ p ++ ".w"
  | .fCvtSWU => "fcvt." ++ p ++ ".wu"
  | .fCvtSL => "fcvt." ++ p ++ ".l"
  | .fCvtSLU => "fcvt." ++ p ++ ".lu"
  | .fCvtSD => "fcvt.s.d"
  | .fCvtDS => "fcvt.d.s"
  | _ => ""

/-- The sources an operation reads. -/
def fpSources : List Operand :=
  match c.alu with
  | .fMAdd | .fMSub | .fNMAdd | .fNMSub => [source1 w c, source2 w c, source3 w c]
  | .fAdd | .fSub | .fMul | .fDiv | .fMin | .fMax | .fSgnJ | .fSgnJN | .fSgnJX | .fEq | .fLt | .fLe =>
    [source1 w c, source2 w c]
  | _ => [source1 w c]

def aluName : AluOp → String
  | .add => "add" | .sub => "sub" | .sll => "sll" | .slt => "slt" | .sltu => "sltu" | .xor => "xor"
  | .srl => "srl" | .sra => "sra" | .or => "or" | .and => "and" | .mul => "mul" | .mulh => "mulh"
  | .mulhsu => "mulhsu" | .mulhu => "mulhu" | .div => "div" | .divu => "divu" | .rem => "rem" | .remu => "remu"
  | _ => ""

def aluImmName : AluOp → String
  | .add => "addi" | .slt => "slti" | .sltu => "sltiu" | .xor => "xori" | .or => "ori" | .and => "andi"
  | .sll => "slli" | .srl => "srli" | .sra => "srai"
  | _ => ""

/-- The immediate, or the amount by which the ALU shifts: six bits of it, or five in a W form. -/
def aluImm : Operand :=
  match c.alu with
  | .sll | .srl | .sra => .imm (decodeImm w &&& if c.isRv32 then 0x1F else 0x3F)
  | _ => .imm (decodeImm w)

def intAssembly : Option Assembly :=
  let wForm := if c.isRv32 then "w" else ""
  match c.aSrc, c.bSrc with
  | .zero, .imm => some ⟨"lui", [.x (Inst.rd w), .upper (decodeImm w)]⟩
  | .pc, .imm => some ⟨"auipc", [.x (Inst.rd w), .upper (decodeImm w)]⟩
  | .reg1, .reg2 => some ⟨aluName c.alu ++ wForm, [.x (Inst.rd w), .x (Inst.rs1 w), .x (Inst.rs2 w)]⟩
  | .reg1, .imm => some ⟨aluImmName c.alu ++ wForm, [.x (Inst.rd w), .x (Inst.rs1 w), aluImm w c]⟩
  | _, _ => none

/-- An operation of the ALU or the FPU; without a destination there is none. -/
def computeAssembly : Option Assembly :=
  if c.regWrite || c.fpRegWrite then
    if Fpu.isFp c.alu then some ⟨fpMnemonic c, destination w c :: fpSources w c⟩ else intAssembly w c
  else none

/-- The instruction that the signals select, with the operands of the word. -/
def assembly : Option Assembly :=
  match c.systemOp with
  | .fence => some ⟨"fence", []⟩
  | .fenceI => some ⟨"fence.i", []⟩
  | .mret => some ⟨"mret", []⟩
  | .sret => some ⟨"sret", []⟩
  | .wfi => some ⟨"wfi", []⟩
  | .sfenceVma => some ⟨"sfence.vma", [.x (Inst.rs1 w), .x (Inst.rs2 w)]⟩
  | .system => if w = Inst.ecall then some ⟨"ecall", []⟩ else csrAssembly w c
  | .none =>
    if c.atomicOp ≠ .none then atomicAssembly w c
    else if c.memRead then loadAssembly w c
    else if c.memWrite then storeAssembly w c
    else
      match c.controlFlow with
      | .branch => branchAssembly w
      | .jump => some (jumpAssembly w)
      | .sequential => computeAssembly w c

end Signals

/-! ### Agreement -/

/-- An unknown form. -/
def Unknown (s : String) : Prop := '?' ∈ s.toList ∨ "unknown".toList <:+: s.toList

/-- The 32-bit word of what was fetched. -/
def instructionWord (inst : U32) : U32 := if inst &&& 0x3 ≠ 0x3 then Rvc.expand (inst.setWidth 16) else inst

/-- `text` is the one of the instruction that the decoder makes of `w`, or unknown where it refuses the word. -/
def Names (w : U32) (pc : U64) (text : String) : Prop :=
  match decodeInstruction w pc (decode w) with
  | .ok c => ∃ a, assembly w c = some a ∧ text = a.text
  | .error (.illegalInstruction _) => Unknown text
  | .error _ => True

/-- The disassembler agrees with the decoder about `inst`, of 32 or of 16 bits. -/
def Agrees (inst : U32) (pc : U64) : Prop := Names (instructionWord inst) pc (disassemble inst)

/-! ### Rules -/

section Rules

variable {w : U32} {pc : U64} {text : String} {c : ControlSignals} {a : Assembly}

/-- An accepted word is named by its assembly. -/
theorem names_of_some (hop : Inst.opcode w ≠ Op.system) (hc : decodeCommon (decode w) = some c)
    (ha : assembly w c = some a) (ht : text = a.text) : Names w pc text := by
  unfold Names decodeInstruction
  rw [decode_opcode, if_neg hop, hc]
  exact ⟨a, ha, ht⟩

/-- An accepted word is not named by anything else. -/
theorem not_names_of_some (hop : Inst.opcode w ≠ Op.system) (hc : decodeCommon (decode w) = some c)
    (ha : ∀ a, assembly w c = some a → text ≠ a.text) : ¬ Names w pc text := by
  unfold Names decodeInstruction
  rw [decode_opcode, if_neg hop, hc]
  rintro ⟨a, hs, ht⟩
  exact ha a hs ht

/-- Of a refused word, the text is to be an unknown form. -/
theorem names_iff_unknown (hop : Inst.opcode w ≠ Op.system) (hc : decodeCommon (decode w) = none) :
    Names w pc text ↔ Unknown text := by
  unfold Names decodeInstruction
  rw [decode_opcode, if_neg hop, hc]

end Rules

/-! ### Unknown forms -/

/-- Characters of which every unknown form has one. -/
def marks : List Char := ['?', 'k']

theorem not_unknown {s : String} (h : Text.Avoids marks s) : ¬ Unknown s := by
  have hmark : '?' ∈ marks := by decide
  have hk : 'k' ∈ marks := by decide
  rintro (hq | hin)
  · exact h.not_mem hmark hq
  · exact h.not_infix hk (by decide) hin

theorem unknown_append {s t : String} (h : '?' ∈ s.toList) : Unknown (s ++ t) := by
  refine Or.inl ?_
  rw [String.toList_append]
  exact List.mem_append_left _ h

theorem unknown_line {mn : String} {ops : List String} (h : '?' ∈ mn.toList) : Unknown (line mn ops) := by
  refine unknown_append ?_
  rw [String.toList_append]
  exact List.mem_append_left _ h

theorem unknown_unknown (w : U32) : Unknown (unknown w) := by
  refine Or.inr ?_
  unfold unknown
  simp only [String.toList_append]
  exact ⟨[], " (".toList ++ (hex w.toNat 8).toList ++ ")".toList, by simp⟩

theorem avoids_xreg : ∀ r : RegIdx, Text.Avoids marks (xreg r) := by decide

theorem avoids_freg : ∀ r : RegIdx, Text.Avoids marks (freg r) := by decide

theorem marks_isDigit : ∀ ch ∈ marks, ch.isDigit = false :=
  List.forall_mem_cons.mpr ⟨rfl, List.forall_mem_singleton.mpr rfl⟩

theorem avoids_decimal (v : U64) : Text.Avoids marks (decimal v) := Text.avoids_int marks_isDigit (by decide) _

theorem avoids_address (v : U64) (r : RegIdx) : Text.Avoids marks (address v r) :=
  (((avoids_decimal v).append (by decide)).append (avoids_xreg r)).append (by decide)

theorem avoids_line {mn : String} {ops : List String} (hm : Text.Avoids marks mn)
    (ho : ∀ s ∈ ops, Text.Avoids marks s) :
    Text.Avoids marks (line mn ops) :=
  (hm.append (by decide)).append (Text.avoids_intercalate (by decide) ho)

/-- Lines that differ in the last operand are different. -/
theorem line_ne {mn : String} (ops : List String) {s t : String} (h : s ≠ t) :
    line mn (ops ++ [s]) ≠ line mn (ops ++ [t]) :=
  Text.append_ne (Text.intercalate_ne ops h)

/-- Mnemonics of one length tell lines apart. -/
theorem line_mnemonic_ne {mn mn' : String} (hlen : mn.toList.length = mn'.toList.length) (h : mn ≠ mn')
    (ops ops' : List String) :
    line mn ops ≠ line mn' ops' := by
  unfold line
  rw [String.append_assoc, String.append_assoc]
  exact Text.ne_of_prefix _ _ hlen h

/-- What is refused and printed with the name of an instruction is no unknown form. -/
theorem misprint {text : String} {P : Prop} (ht : Text.Avoids marks text) (hp : P) : Unknown text ↔ ¬ P :=
  iff_of_false (not_unknown ht) (not_not.mpr hp)

end Disasm

end Rvsim
