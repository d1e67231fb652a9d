/-
# What the decoder accepts

`decode_instruction` against the instruction set of `Isa.lean`. On a valid
word the decoder is right: the registers, the immediate and the signals are
the instruction's (`decodeInstruction_encode`, `fields_encode`). What it does
not do is refuse every reserved encoding: the ones it lets through are
`Overlooked`, group by group, and `decode_exact_iff` says that these are all.

Key definitions:
  - `Overlooked`: the reserved encodings the decoder accepts
  - `DecodeExact`: the decoder does what the instruction set says of a word
Key theorems:
  - `decode_exact_iff`
-/
import Rvsim.Isa

namespace Rvsim

open Isa

/-! ### Immediates -/

section Immediates

variable (rs2 rs1 rd : RegIdx) (f3 : Funct3) (op : Opcode)

theorem decodeITypeImm_wordI (imm : BitVec 12) :
    decodeITypeImm (wordI imm rs1 f3 rd op) = imm.signExtend 64 := by
  apply BitVec.eq_of_getLsbD_eq
  intro i hi
  simp only [decodeITypeImm, wordI, BitVec.getLsbD_signExtend, BitVec.getLsbD_sshiftRight,
    BitVec.msb_eq_getLsbD_last, getLsbD_word, BitVec.getLsbD_extractLsb']
  grind

theorem decodeSTypeImm_wordS (imm : BitVec 12) :
    decodeSTypeImm (wordS imm rs2 rs1 f3 op) = imm.signExtend 64 := by
  unfold decodeSTypeImm
  congr 1
  apply BitVec.eq_of_getLsbD_eq
  intro i hi
  simp only [wordS, BitVec.getLsbD_append, BitVec.getLsbD_setWidth, BitVec.getLsbD_ushiftRight,
    getLsbD_word, BitVec.getLsbD_extractLsb']
  grind

theorem decodeBTypeImm_wordB (offset : BitVec 12) :
    decodeBTypeImm (wordB offset rs2 rs1 f3 op) = (offset ++ 0#1).signExtend 64 := by
  unfold decodeBTypeImm
  congr 1
  apply BitVec.eq_of_getLsbD_eq
  intro i hi
  simp only [wordB, BitVec.getLsbD_append, BitVec.getLsbD_setWidth, BitVec.getLsbD_ushiftRight,
    getLsbD_word, BitVec.getLsbD_extractLsb']
  grind

theorem getLsbD_uMask : ∀ i < 32, (0xFFFFF000 : U32).getLsbD i = decide (12 ≤ i) := by
  decide

theorem decodeUTypeImm_wordU (imm : BitVec 20) :
    decodeUTypeImm (wordU imm rd op) = (imm ++ 0#12).signExtend 64 := by
  unfold decodeUTypeImm
  congr 1
  apply BitVec.eq_of_getLsbD_eq
  intro i hi
  simp only [wordU, BitVec.getLsbD_and, getLsbD_uMask i hi, BitVec.getLsbD_append, getLsbD_word,
    BitVec.getLsbD_extractLsb']
  grind

theorem decodeJTypeImm_wordJ (offset : BitVec 20) :
    decodeJTypeImm (wordJ offset rd op) = (offset ++ 0#1).signExtend 64 := by
  unfold decodeJTypeImm
  congr 1
  apply BitVec.eq_of_getLsbD_eq
  intro i hi
  simp only [wordJ, wordU, BitVec.getLsbD_append, BitVec.getLsbD_setWidth,
    BitVec.getLsbD_ushiftRight, getLsbD_word, BitVec.getLsbD_extractLsb']
  grind

end Immediates

/-! ### The fields of a `funct7` -/

def funct5 (f7 : Funct7) : BitVec 5 := f7.extractLsb' 2 5

def fmtBits (f7 : Funct7) : BitVec 2 := f7.extractLsb' 0 2

@[simp] theorem funct5_append (f5 : BitVec 5) (fmt : BitVec 2) : funct5 (f5 ++ fmt) = f5 := by
  ext i hi
  simp [funct5]
  grind

@[simp] theorem fmtBits_append (f5 : BitVec 5) (fmt : BitVec 2) : fmtBits (f5 ++ fmt) = fmt := by
  ext i hi
  simp only [fmtBits, BitVec.getElem_extractLsb', BitVec.getLsbD_append]
  grind

@[simp] theorem extract_two_five (f5 : BitVec 5) (fmt : BitVec 2) :
    BitVec.extractLsb' 2 5 (f5 ++ fmt) = f5 := funct5_append f5 fmt

theorem funct5_append_fmtBits (f7 : Funct7) : funct5 f7 ++ fmtBits f7 = f7 := by
  ext i hi
  simp [funct5, fmtBits]
  grind

theorem shift_eq_funct5 (f7 : Funct7) : (f7 >>> 2).setWidth 5 = funct5 f7 := by
  ext i hi
  simp [funct5]

theorem fmt_eq_zero (f7 : Funct7) : f7 &&& 3#7 = 0#7 ↔ fmtBits f7 = 0 := by
  revert f7
  decide

theorem fmt_eq_one (f7 : Funct7) : f7 &&& 3#7 = 1#7 ↔ fmtBits f7 = 1 := by
  revert f7
  decide

theorem funct3_cases (f : Funct3) :
    f = 0 ∨ f = 1 ∨ f = 2 ∨ f = 3 ∨ f = 4 ∨ f = 5 ∨ f = 6 ∨ f = 7 := by
  revert f
  decide

/-! ### The groups of the decoder -/

section Groups

variable {d : Decoded}

theorem decodeCommon_lui (h : d.opcode = Op.lui) :
    decodeCommon d = some { regWrite := true, aSrc := .zero } := by
  simp [decodeCommon, h]

theorem decodeCommon_auipc (h : d.opcode = Op.auipc) :
    decodeCommon d = some { regWrite := true, aSrc := .pc } := by
  simp +decide [decodeCommon, h]

theorem decodeCommon_jump (h : d.opcode = Op.jal ∨ d.opcode = Op.jalr) :
    decodeCommon d = some { regWrite := true, controlFlow := .jump } := by
  rcases h with h | h <;> simp +decide [decodeCommon, h]

theorem decodeCommon_branch (h : d.opcode = Op.branch) :
    decodeCommon d = some { controlFlow := .branch, bSrc := .reg2 } := by
  simp +decide [decodeCommon, h]

theorem decodeCommon_load (h : d.opcode = Op.load) :
    decodeCommon d = (loadWidth d.funct3).map fun ws =>
      { regWrite := true, memRead := true, width := ws.1, signedLoad := ws.2 } := by
  simp +decide [decodeCommon, h]

theorem decodeCommon_store (h : d.opcode = Op.store) :
    decodeCommon d = (storeWidth d.funct3).map fun w => { memWrite := true, width := w } := by
  simp +decide [decodeCommon, h]

theorem decodeCommon_imm (h : d.opcode = Op.imm) :
    decodeCommon d = some { regWrite := true, alu := immAlu d.funct3 d.funct7 } := by
  simp +decide [decodeCommon, h]

theorem decodeCommon_imm32 (h : d.opcode = Op.imm32) :
    decodeCommon d =
      some { regWrite := true, isRv32 := true, alu := immAlu d.funct3 d.funct7 } := by
  simp +decide [decodeCommon, h]

theorem decodeCommon_reg (h : d.opcode = Op.reg) :
    decodeCommon d = (regAlu d.funct3 d.funct7).map fun op =>
      { regWrite := true, bSrc := .reg2, alu := op } := by
  have hr : (Op.reg == Op.reg32) = false := by decide
  simp +decide [decodeCommon, h, hr]

theorem decodeCommon_reg32 (h : d.opcode = Op.reg32) :
    decodeCommon d = (regAlu d.funct3 d.funct7).map fun op =>
      { regWrite := true, isRv32 := true, bSrc := .reg2, alu := op } := by
  simp +decide [decodeCommon, h]

theorem decodeCommon_amo (h : d.opcode = Op.amo) :
    decodeCommon d = (wordOrDouble d.funct3).bind fun w =>
      (amoOp (funct5 d.funct7)).map fun op =>
        { width := w, atomicOp := op, bSrc := .zero, memRead := true, memWrite := op != .lr
          regWrite := true } := by
  rw [← shift_eq_funct5]
  simp +decide [decodeCommon, h]

theorem decodeCommon_loadFp (h : d.opcode = Op.loadFp) :
    decodeCommon d = (wordOrDouble d.funct3).map fun w =>
      { fpRegWrite := true, memRead := true, width := w } := by
  simp +decide [decodeCommon, h]

theorem decodeCommon_storeFp (h : d.opcode = Op.storeFp) :
    decodeCommon d = (wordOrDouble d.funct3).map fun w =>
      { memWrite := true, rs2Fp := true, width := w } := by
  simp +decide [decodeCommon, h]

theorem decodeCommon_fp (fmt : Fmt) (h : d.opcode = Op.fp) (hf : fmtBits d.funct7 = fmt.bits) :
    decodeCommon d = decodeFp d (fpSignals fmt .add) := by
  cases fmt
  · simp +decide [decodeCommon, h, fmt_eq_zero, hf, fpSignals, beq_eq_decide]
  · simp +decide [decodeCommon, h, fmt_eq_zero, fmt_eq_one, hf, fpSignals, beq_eq_decide]

/-- A format other than single and double is refused on `OP-FP`. -/
theorem decodeCommon_fp_none (h : d.opcode = Op.fp)
    (hf : ¬(fmtBits d.funct7 = 0 ∨ fmtBits d.funct7 = 1)) : decodeCommon d = none := by
  have hn : ¬(d.funct7 &&& 3#7 = 0#7 ∨ d.funct7 &&& 3#7 = 1#7) := by
    rwa [fmt_eq_zero, fmt_eq_one]
  simp +decide [decodeCommon, h, hn]

theorem decodeCommon_fused (o : FusedOp) (h : d.opcode = o.opcode) :
    decodeCommon d =
      some { fpSignals .d o.alu with isRv32 := fmtBits d.funct7 = 0, rs3Fp := true } := by
  have hb : (d.funct7 &&& 3#7 == 0#7) = decide (fmtBits d.funct7 = 0#2) := by
    rw [beq_eq_decide, decide_eq_decide]
    exact fmt_eq_zero _
  cases o <;> simp +decide [decodeCommon, h, FusedOp.opcode, fpSignals, hb, FusedOp.alu]

theorem decodeCommon_miscMem (h : d.opcode = Op.miscMem) :
    decodeCommon d =
      if d.funct3 = 0 then some { systemOp := .fence }
      else if d.funct3 = 1 then some { systemOp := .fenceI }
      else none := by
  simp +decide [decodeCommon, h]

end Groups

/-! ### Valid words -/

@[simp] theorem decode_opcode (w : U32) : (decode w).opcode = Inst.opcode w := rfl
@[simp] theorem decode_rd (w : U32) : (decode w).rd = Inst.rd w := rfl
@[simp] theorem decode_rs1 (w : U32) : (decode w).rs1 = Inst.rs1 w := rfl
@[simp] theorem decode_rs2 (w : U32) : (decode w).rs2 = Inst.rs2 w := rfl
@[simp] theorem decode_funct3 (w : U32) : (decode w).funct3 = Inst.funct3 w := rfl
@[simp] theorem decode_funct7 (w : U32) : (decode w).funct7 = Inst.funct7 w := rfl
@[simp] theorem decode_imm (w : U32) : (decode w).imm = decodeImm w := rfl

theorem loadWidth_funct3 (o : LoadOp) : loadWidth o.funct3 = some (o.width, o.signed) := by
  cases o <;> rfl

theorem storeWidth_funct3 (o : StoreOp) : storeWidth o.funct3 = some o.width := by
  cases o <;> rfl

theorem wordOrDouble_funct3 (width : Width) : wordOrDouble width.funct3 = some width.mem := by
  cases width <;> rfl

theorem amoOp_funct5 (o : AmoOp) : amoOp o.funct5 = some o.op := by
  cases o <;> rfl

theorem amo_op_ne_lr (o : AmoOp) : (o.op != .lr) = true := by
  cases o <;> rfl

theorem immAlu_funct3 (o : ImmOp) (f7 : Funct7) : immAlu o.funct3 f7 = o.alu := by
  cases o <;> rfl

/-- Bit 0 of `funct7` is the top bit of a six-bit shift amount: only bit 5 tells the shifts apart. -/
theorem immAlu_shift (o : ShiftOp) (shamt : BitVec 6) :
    immAlu o.funct3 ((o.funct6 ++ shamt).extractLsb' 5 7) = o.alu := by
  revert shamt
  cases o <;> decide

theorem immAlu_shiftW (o : ShiftOp) (shamt : BitVec 5) :
    immAlu o.funct3 ((o.funct7 ++ shamt).extractLsb' 5 7) = o.alu := by
  revert shamt
  cases o <;> decide

theorem regAlu_funct (o : RegOp) : regAlu o.funct3 o.funct7 = some o.alu := by
  cases o <;> rfl

/-- The instruction set's SYSTEM instructions, which the decoder treats on their own. -/
def IsSystem : Instr → Prop
  | .ecall | .ebreak | .mret | .sret | .wfi | .sfenceVma .. | .csr .. => True
  | _ => False

/-- On an `OP-FP` word the groups hand over to `decodeFp`, which reads the operation. -/
theorem decodeCommon_wordFp (f5 : BitVec 5) (fmt : Fmt) (rs2 rs1 : RegIdx) (f3 : Funct3)
    (rd : RegIdx) : decodeCommon (decode (wordFp f5 fmt rs2 rs1 f3 rd)) =
      decodeFp (decode (wordFp f5 fmt rs2 rs1 f3 rd)) (fpSignals fmt .add) :=
  decodeCommon_fp fmt (by simp [wordFp]) (by simp [wordFp])

theorem decodeCommon_encode (i : Instr) (h : ¬IsSystem i) :
    decodeCommon (decode (encode i)) = some i.signals := by
  cases i with
  | lui rd imm => exact decodeCommon_lui (by simp [encode, wordU])
  | auipc rd imm => exact decodeCommon_auipc (by simp [encode, wordU])
  | jal rd offset => exact decodeCommon_jump (.inl (by simp [encode, wordJ, wordU]))
  | jalr rd rs1 imm => exact decodeCommon_jump (.inr (by simp [encode, wordI]))
  | branch c rs1 rs2 offset => exact decodeCommon_branch (by simp [encode, wordB])
  | load o rd rs1 imm =>
    rw [decodeCommon_load (by simp [encode, wordI])]
    simp [encode, wordI, loadWidth_funct3, Instr.signals]
  | store o rs1 rs2 imm =>
    rw [decodeCommon_store (by simp [encode, wordS])]
    simp [encode, wordS, storeWidth_funct3, Instr.signals]
  | opImm o rd rs1 imm =>
    rw [decodeCommon_imm (by simp [encode, wordI])]
    simp [encode, wordI, immAlu_funct3, Instr.signals]
  | shiftImm o rd rs1 shamt =>
    rw [decodeCommon_imm (by simp [encode, wordI])]
    simp [encode, wordI, immAlu_shift, Instr.signals]
  | addiw rd rs1 imm =>
    rw [decodeCommon_imm32 (by simp [encode, wordI])]
    simp [encode, wordI, immAlu, Instr.signals]
  | shiftImmW o rd rs1 shamt =>
    rw [decodeCommon_imm32 (by simp [encode, wordI])]
    simp [encode, wordI, immAlu_shiftW, Instr.signals]
  | op o rd rs1 rs2 =>
    rw [decodeCommon_reg (by simp [encode])]
    simp [encode, regAlu_funct, Instr.signals]
  | opW o rd rs1 rs2 =>
    rw [decodeCommon_reg32 (by simp [encode])]
    simp [encode, regAlu_funct, Instr.signals]
  | lr width aqrl rd rs1 =>
    rw [decodeCommon_amo (by simp [encode])]
    simp [encode, wordOrDouble_funct3, Instr.signals, amoOp]
  | sc width aqrl rd rs1 rs2 =>
    rw [decodeCommon_amo (by simp [encode])]
    simp +decide [encode, wordOrDouble_funct3, Instr.signals, amoOp]
  | amo o width aqrl rd rs1 rs2 =>
    rw [decodeCommon_amo (by simp [encode])]
    simp [encode, wordOrDouble_funct3, Instr.signals, amoOp_funct5, amo_op_ne_lr]
  | loadFp width rd rs1 imm =>
    rw [decodeCommon_loadFp (by simp [encode, wordI])]
    simp [encode, wordI, wordOrDouble_funct3, Instr.signals]
  | storeFp width rs1 rs2 imm =>
    rw [decodeCommon_storeFp (by simp [encode, wordS])]
    simp [encode, wordS, wordOrDouble_funct3, Instr.signals]
  | fused o fmt rm rd rs1 rs2 rs3 =>
    rw [decodeCommon_fused o (by simp [encode])]
    cases fmt <;> simp [encode, Fmt.bits, Instr.signals, fpSignals]
  | fpOp o fmt rm rd rs1 rs2 =>
    refine (decodeCommon_wordFp ..).trans ?_
    cases o <;> cases fmt <;> simp +decide [decodeFp, wordFp] <;> rfl
  | fsqrt fmt rm rd rs1 =>
    refine (decodeCommon_wordFp ..).trans ?_
    cases fmt <;> simp +decide [decodeFp, wordFp] <;> rfl
  | fpPick o fmt rd rs1 rs2 =>
    refine (decodeCommon_wordFp ..).trans ?_
    cases o <;> cases fmt <;> simp +decide [decodeFp, wordFp] <;> rfl
  | fpCmp o fmt rd rs1 rs2 =>
    refine (decodeCommon_wordFp ..).trans ?_
    cases o <;> cases fmt <;> simp +decide [decodeFp, wordFp] <;> rfl
  | fmvToX fmt rd rs1 =>
    refine (decodeCommon_wordFp ..).trans ?_
    cases fmt <;> simp +decide [decodeFp, wordFp] <;> rfl
  | fclass fmt rd rs1 =>
    refine (decodeCommon_wordFp ..).trans ?_
    cases fmt <;> simp +decide [decodeFp, wordFp] <;> rfl
  | fmvToF fmt rd rs1 =>
    refine (decodeCommon_wordFp ..).trans ?_
    cases fmt <;> simp +decide [decodeFp, wordFp] <;> rfl
  | fcvtToX int fmt rm rd rs1 =>
    refine (decodeCommon_wordFp ..).trans ?_
    cases int <;> cases fmt <;> simp +decide [decodeFp, wordFp, cvtSelect] <;> rfl
  | fcvtToF int fmt rm rd rs1 =>
    refine (decodeCommon_wordFp ..).trans ?_
    cases int <;> cases fmt <;> simp +decide [decodeFp, wordFp, cvtSelect] <;> rfl
  | fcvtDS rm rd rs1 =>
    refine (decodeCommon_wordFp ..).trans ?_
    simp +decide [decodeFp, wordFp]
    rfl
  | fcvtSD rm rd rs1 =>
    refine (decodeCommon_wordFp ..).trans ?_
    simp +decide [decodeFp, wordFp]
    rfl
  | fence imm rd rs1 =>
    rw [decodeCommon_miscMem (by simp [encode, wordI])]
    simp [encode, wordI, Instr.signals]
  | fenceI imm rd rs1 =>
    rw [decodeCommon_miscMem (by simp [encode, wordI])]
    simp [encode, wordI, Instr.signals]
  | ecall | ebreak | mret | sret | wfi | sfenceVma | csr => exact absurd trivial h

/-- The mask the decoder lays over a SYSTEM word clears the two source registers. -/
theorem word_and_sfenceMask (f7 : Funct7) (rs2 rs1 rd : RegIdx) (f3 : Funct3) (op : Opcode) :
    word f7 rs2 rs1 f3 rd op &&& 0xFE007FFF = word f7 0 0 f3 rd op := by
  have hm : ∀ i < 32, (0xFE007FFF : U32).getLsbD i = decide (i < 15 ∨ 25 ≤ i) := by decide
  apply BitVec.eq_of_getLsbD_eq
  intro i hi
  simp only [BitVec.getLsbD_and, hm i hi, getLsbD_word]
  grind

theorem and_sfenceMask_eq_iff (f7 : Funct7) (rs2 rs1 rd : RegIdx) (f3 : Funct3) (op : Opcode) :
    word f7 rs2 rs1 f3 rd op &&& 0xFE007FFF = Inst.sfenceVma ↔
      f7 = 0b0001001 ∧ f3 = 0 ∧ rd = 0 ∧ op = Op.system := by
  have hs : Inst.sfenceVma = word 0b0001001 0 0 0 0 Op.system := by decide
  rw [word_and_sfenceMask, hs, word_injective]
  simp

theorem csr_funct3_ne_zero (o : CsrInstr) : o.funct3 ≠ 0 := by
  cases o <;> decide

theorem csrOpOf_funct3 (o : CsrInstr) : csrOpOf o.funct3 = o.op := by
  cases o <;> rfl

/-- A SYSTEM word with a nonzero `funct3` is none of those the decoder knows by their whole word. -/
theorem decodeSystem_csr (w : U32) (pc : U64) (h : Inst.funct3 w ≠ 0) :
    decodeSystem w pc (decode w) = .ok (csrSignals w) := by
  have hn : ∀ v : U32, Inst.funct3 v = 0 → w ≠ v := by
    rintro v hv rfl
    exact h hv
  have hs : ¬w &&& 0xFE007FFF = Inst.sfenceVma := fun hs => h (funct3_of_sfence w hs)
  simp only [decodeSystem, hs, hn _ (show Inst.funct3 Inst.ebreak = 0 by decide),
    hn _ (show Inst.funct3 Inst.mret = 0 by decide), hn _ (show Inst.funct3 Inst.sret = 0 by decide),
    hn _ (show Inst.funct3 Inst.wfi = 0 by decide), hn _ (show Inst.funct3 Inst.ecall = 0 by decide),
    decode_funct3, decode_rd, ne_eq, h, not_false_eq_true, if_true, if_false, csrSignals]

theorem decodeSystem_encode (i : Instr) (pc : U64) (h : IsSystem i) :
    decodeSystem (encode i) pc (decode (encode i)) = i.outcome pc := by
  cases i with
  | ecall => rfl
  | ebreak => rfl
  | mret => rfl
  | sret => rfl
  | wfi => rfl
  | sfenceVma rs1 rs2 =>
    have hs : encode (.sfenceVma rs1 rs2) &&& 0xFE007FFF = Inst.sfenceVma :=
      (and_sfenceMask_eq_iff ..).mpr ⟨rfl, rfl, rfl, rfl⟩
    rw [decodeSystem, if_pos hs]
    rfl
  | csr o rd rs1 addr =>
    have hf : Inst.funct3 (encode (.csr o rd rs1 addr)) = o.funct3 := by simp [encode, wordI]
    have ha : addr.extractLsb' 5 7 ++ addr.extractLsb' 0 5 = addr := by
      ext i hi
      simp
      grind
    rw [decodeSystem_csr _ _ (by rw [hf]; exact csr_funct3_ne_zero o)]
    simp [csrSignals, csrOpOf_funct3, encode, wordI, ha, Instr.outcome, Instr.signals]
  | lui | auipc | jal | jalr | branch | load | store | opImm | shiftImm | addiw | shiftImmW | op
  | opW | lr | sc | amo | loadFp | storeFp | fused | fpOp | fsqrt | fpPick | fpCmp | fmvToX | fclass
  | fmvToF | fcvtToX | fcvtToF | fcvtDS | fcvtSD | fence | fenceI => exact h.elim

theorem opcode_encode_system (i : Instr) : Inst.opcode (encode i) = Op.system ↔ IsSystem i := by
  cases i with
  | fused o =>
    cases o <;> simp +decide [encode, IsSystem, FusedOp.opcode]
  | _ => simp +decide [encode, IsSystem, wordI, wordS, wordB, wordU, wordJ, wordFp]

theorem outcome_eq (i : Instr) (pc : U64) (h : ¬IsSystem i) : i.outcome pc = .ok i.signals := by
  cases i with
  | ebreak => exact absurd trivial h
  | _ => rfl

/-- A valid word gets its instruction's signals, EBREAK its breakpoint. -/
theorem decodeInstruction_encode (i : Instr) (pc : U64) :
    decodeInstruction (encode i) pc (decode (encode i)) = i.outcome pc := by
  unfold decodeInstruction
  rw [decode_opcode]
  by_cases h : IsSystem i
  · rw [if_pos ((opcode_encode_system i).mpr h), decodeSystem_encode i pc h]
  · rw [if_neg (mt (opcode_encode_system i).mp h), decodeCommon_encode i h, outcome_eq i pc h]

/-! ### Registers and immediate -/

/-- The register fields and the immediate of a decoded word are the instruction's, where it has them. -/
structure Carries (w : U32) (i : Instr) : Prop where
  rd : ∀ r ∈ i.rd, (decode w).rd = r
  rs1 : ∀ r ∈ i.rs1, (decode w).rs1 = r
  rs2 : ∀ r ∈ i.rs2, (decode w).rs2 = r
  rs3 : ∀ r ∈ i.rs3, Inst.rs3 w = r
  imm : ∀ v ∈ i.imm, (decode w).imm = v

theorem decodeImm_i {w : U32} (h : Inst.opcode w = Op.imm ∨ Inst.opcode w = Op.load ∨
    Inst.opcode w = Op.jalr ∨ Inst.opcode w = Op.imm32 ∨ Inst.opcode w = Op.loadFp) :
    decodeImm w = decodeITypeImm w := by
  simp only [decodeImm, if_pos h]

theorem decodeImm_s {w : U32} (h : Inst.opcode w = Op.store ∨ Inst.opcode w = Op.storeFp) :
    decodeImm w = decodeSTypeImm w := by
  rcases h with h | h <;> simp +decide [decodeImm, h]

theorem decodeImm_b {w : U32} (h : Inst.opcode w = Op.branch) : decodeImm w = decodeBTypeImm w := by
  simp +decide [decodeImm, h]

theorem decodeImm_u {w : U32} (h : Inst.opcode w = Op.lui ∨ Inst.opcode w = Op.auipc) :
    decodeImm w = decodeUTypeImm w := by
  rcases h with h | h <;> simp +decide [decodeImm, h]

theorem decodeImm_j {w : U32} (h : Inst.opcode w = Op.jal) : decodeImm w = decodeJTypeImm w := by
  simp +decide [decodeImm, h]

theorem imm_encode (i : Instr) (v : U64) (hv : v ∈ i.imm) : decodeImm (encode i) = v := by
  cases i with
  | lui rd imm =>
    cases hv
    exact (decodeImm_u (.inl (by simp [encode, wordU]))).trans (decodeUTypeImm_wordU ..)
  | auipc rd imm =>
    cases hv
    exact (decodeImm_u (.inr (by simp [encode, wordU]))).trans (decodeUTypeImm_wordU ..)
  | jal rd offset =>
    cases hv
    exact (decodeImm_j (by simp [encode, wordJ, wordU])).trans (decodeJTypeImm_wordJ ..)
  | branch c rs1 rs2 offset =>
    cases hv
    exact (decodeImm_b (by simp [encode, wordB])).trans (decodeBTypeImm_wordB ..)
  | store | storeFp =>
    cases hv
    exact (decodeImm_s (by simp [encode, wordS])).trans (decodeSTypeImm_wordS ..)
  | jalr | load | opImm | shiftImm | addiw | shiftImmW | loadFp =>
    cases hv
    exact (decodeImm_i (by simp [encode, wordI])).trans (decodeITypeImm_wordI ..)
  | op | opW | lr | sc | amo | fused | fpOp | fsqrt | fpPick | fpCmp | fmvToX | fclass | fmvToF
  | fcvtToX | fcvtToF | fcvtDS | fcvtSD | fence | fenceI | ecall | ebreak | mret | sret | wfi
  | sfenceVma | csr => cases hv

theorem carries_encode (i : Instr) : Carries (encode i) i where
  rd := by
    intro r hr
    cases i <;> cases hr <;> simp [encode, wordI, wordU, wordJ, wordFp]
  rs1 := by
    intro r hr
    cases i <;> cases hr <;> simp [encode, wordI, wordS, wordB, wordFp]
  rs2 := by
    intro r hr
    cases i <;> cases hr <;> simp [encode, wordS, wordB, wordFp]
  rs3 := by
    intro r hr
    cases i <;> cases hr
    simp [encode]
  imm := imm_encode i

/-! ### What the decoder overlooks

Reserved encodings it accepts, one predicate a group of opcodes. The other
groups (`LOAD`, `STORE`, `OP`, the FP loads and stores, `MISC-MEM`) have none. -/

/-- A rounding mode the decoder never looks at. -/
def ReservedRm (f3 : Funct3) : Prop := f3 = 5 ∨ f3 = 6

/-- `OP-IMM`: of the bits above a shift amount only the one that tells `SRAI` is read. -/
def ImmOverlooked (f7 : Funct7) (f3 : Funct3) : Prop :=
  let f6 := f7.extractLsb' 1 6
  (f3 = 1 ∧ f6 ≠ 0) ∨ (f3 = 5 ∧ f6 ≠ 0 ∧ f6 ≠ 0x10)

/-- `OP-IMM-32` goes through the table of `OP-IMM`. -/
def Imm32Overlooked (f7 : Funct7) (f3 : Funct3) : Prop :=
  (f3 = 1 ∧ f7 ≠ 0) ∨ (f3 = 5 ∧ f7 ≠ 0 ∧ f7 ≠ 0x20) ∨ (f3 ≠ 0 ∧ f3 ≠ 1 ∧ f3 ≠ 5)

/-- `OP-32` goes through the table of `OP`: compares, logic and high products have no 32-bit form. -/
def Reg32Overlooked (f7 : Funct7) (f3 : Funct3) : Prop :=
  (f7 = 0 ∧ (f3 = 2 ∨ f3 = 3 ∨ f3 = 4 ∨ f3 = 6 ∨ f3 = 7)) ∨ (f7 = 1 ∧ (f3 = 1 ∨ f3 = 2 ∨ f3 = 3))

/-- `AMO`: the second source of a load-reserved. -/
def AmoOverlooked (f7 : Funct7) (rs2 : RegIdx) (f3 : Funct3) : Prop :=
  funct5 f7 = 0b00010 ∧ rs2 ≠ 0 ∧ (f3 = 2 ∨ f3 = 3)

/-- `OP-FP`, in a format it knows: rounding modes, and the second source of one-operand operations. -/
def FpOverlooked (f7 : Funct7) (rs2 : RegIdx) (f3 : Funct3) : Prop :=
  (fmtBits f7 = 0 ∨ fmtBits f7 = 1) ∧
    ((funct5 f7 = 0b00000 ∨ funct5 f7 = 0b00001 ∨ funct5 f7 = 0b00010 ∨ funct5 f7 = 0b00011) ∧
        ReservedRm f3 ∨
      funct5 f7 = 0b01011 ∧ (rs2 ≠ 0 ∨ ReservedRm f3) ∨
      funct5 f7 = 0b11100 ∧ rs2 ≠ 0 ∧ (f3 = 0 ∨ f3 = 1) ∨
      funct5 f7 = 0b11110 ∧ (rs2 ≠ 0 ∨ f3 ≠ 0) ∨
      (funct5 f7 = 0b11000 ∨ funct5 f7 = 0b11010) ∧
        (rs2 = 0 ∨ rs2 = 1 ∨ rs2 = 2 ∨ rs2 = 3) ∧ ReservedRm f3 ∨
      f7 = 0b0100000 ∧ (rs2 ≠ 1 ∨ ReservedRm f3) ∨
      f7 = 0b0100001 ∧ (rs2 ≠ 0 ∨ ReservedRm f3))

/-- The fused operations: neither the format nor the rounding mode is checked. -/
def FusedOverlooked (f7 : Funct7) (f3 : Funct3) : Prop :=
  ¬(fmtBits f7 = 0 ∨ fmtBits f7 = 1) ∨ ReservedRm f3

/-- `SYSTEM`: a `funct3` of 4, and with a `funct3` of 0 every word the decoder does not know. -/
def SystemOverlooked (w : U32) : Prop :=
  Inst.funct3 w = 4 ∨
    Inst.funct3 w = 0 ∧ ¬(Inst.funct7 w = 0b0001001 ∧ Inst.rd w = 0) ∧ w ≠ Inst.ebreak ∧
      w ≠ Inst.mret ∧ w ≠ Inst.sret ∧ w ≠ Inst.wfi ∧ w ≠ Inst.ecall

/-- A reserved encoding that the decoder accepts. -/
def Overlooked (w : U32) : Prop :=
  let op := Inst.opcode w
  let f3 := Inst.funct3 w
  let f7 := Inst.funct7 w
  let rs2 := Inst.rs2 w
  op = Op.branch ∧ (f3 = 2 ∨ f3 = 3) ∨
    op = Op.jalr ∧ f3 ≠ 0 ∨
    op = Op.imm ∧ ImmOverlooked f7 f3 ∨
    op = Op.imm32 ∧ Imm32Overlooked f7 f3 ∨
    op = Op.reg32 ∧ Reg32Overlooked f7 f3 ∨
    op = Op.amo ∧ AmoOverlooked f7 rs2 f3 ∨
    op = Op.fp ∧ FpOverlooked f7 rs2 f3 ∨
    (op = Op.fmadd ∨ op = Op.fmsub ∨ op = Op.fnmsub ∨ op = Op.fnmadd) ∧ FusedOverlooked f7 f3 ∨
    op = Op.system ∧ SystemOverlooked w

/-! No instruction encodes to one of them. -/

theorem not_reservedRm (rm : Rm) : ¬ReservedRm rm.bits := by
  cases rm <;> simp [ReservedRm, Rm.bits]

/-- On an `OP-FP` word only the FP group can be at fault. -/
theorem overlooked_wordFp (f5 : BitVec 5) (fmt : Fmt) (rs2 rs1 : RegIdx) (f3 : Funct3)
    (rd : RegIdx) : Overlooked (wordFp f5 fmt rs2 rs1 f3 rd) ↔ FpOverlooked (f5 ++ fmt.bits) rs2 f3 := by
  simp +decide [Overlooked, wordFp]

theorem not_overlooked_encode (i : Instr) : ¬Overlooked (encode i) := by
  cases i with
  | branch c => cases c <;> simp +decide [Overlooked, encode, wordB, Cond.funct3]
  | opImm o => cases o <;> simp +decide [Overlooked, encode, wordI, ImmOp.funct3, ImmOverlooked]
  | shiftImm o rd rs1 shamt =>
    have hb : ((o.funct6 ++ shamt).extractLsb' 5 7).extractLsb' 1 6 = o.funct6 := by
      ext i hi
      simp
      grind
    cases o <;>
      simp_all +decide [Overlooked, encode, wordI, ShiftOp.funct3, ImmOverlooked, ShiftOp.funct6]
  | shiftImmW o rd rs1 shamt =>
    have hb : (o.funct7 ++ shamt).extractLsb' 5 7 = o.funct7 := by
      ext i hi
      simp
      grind
    cases o <;>
      simp_all +decide [Overlooked, encode, wordI, ShiftOp.funct3, Imm32Overlooked, ShiftOp.funct7]
  | opW o => cases o <;> simp +decide [Overlooked, encode, Reg32Overlooked]
  | lr width => simp +decide [Overlooked, encode, AmoOverlooked]
  | sc width => simp +decide [Overlooked, encode, AmoOverlooked]
  | amo o => cases o <;> simp +decide [Overlooked, encode, AmoOverlooked]
  | fused o fmt rm =>
    have hr := not_reservedRm rm
    cases o <;> cases fmt <;>
      simp +decide [Overlooked, encode, FusedOp.opcode, FusedOverlooked, hr, Fmt.bits]
  | fpOp o fmt rm =>
    rw [encode, overlooked_wordFp]
    have hr := not_reservedRm rm
    cases o <;> cases fmt <;> simp +decide [FpOverlooked, hr]
  | fsqrt fmt rm =>
    rw [encode, overlooked_wordFp]
    have hr := not_reservedRm rm
    cases fmt <;> simp +decide [FpOverlooked, hr]
  | fpPick o fmt =>
    rw [encode, overlooked_wordFp]
    cases o <;> cases fmt <;> simp +decide [FpOverlooked]
  | fpCmp o fmt =>
    rw [encode, overlooked_wordFp]
    cases o <;> cases fmt <;> simp +decide [FpOverlooked]
  | fmvToX fmt =>
    rw [encode, overlooked_wordFp]
    cases fmt <;> simp +decide [FpOverlooked]
  | fclass fmt =>
    rw [encode, overlooked_wordFp]
    cases fmt <;> simp +decide [FpOverlooked]
  | fmvToF fmt =>
    rw [encode, overlooked_wordFp]
    cases fmt <;> simp +decide [FpOverlooked]
  | fcvtToX int fmt rm =>
    rw [encode, overlooked_wordFp]
    have hr := not_reservedRm rm
    cases int <;> cases fmt <;> simp +decide [FpOverlooked, hr]
  | fcvtToF int fmt rm =>
    rw [encode, overlooked_wordFp]
    have hr := not_reservedRm rm
    cases int <;> cases fmt <;> simp +decide [FpOverlooked, hr]
  | fcvtDS rm =>
    rw [encode, overlooked_wordFp]
    have hr := not_reservedRm rm
    simp +decide [FpOverlooked, hr]
  | fcvtSD rm =>
    rw [encode, overlooked_wordFp]
    have hr := not_reservedRm rm
    simp +decide [FpOverlooked, hr]
  | sfenceVma rs1 rs2 =>
    simp +decide [Overlooked, encode, SystemOverlooked]
  | csr o => cases o <;> simp +decide [Overlooked, encode, wordI, SystemOverlooked, CsrInstr.funct3]
  | ecall | ebreak | mret | sret | wfi =>
    simp +decide [Overlooked, encode, SystemOverlooked]
  | lui | auipc | jal | jalr | load | store | addiw | op | loadFp | storeFp | fence | fenceI =>
    simp +decide [Overlooked, encode, wordI, wordS, wordU, wordJ, Imm32Overlooked]

/-! ### Accepted words

Whatever the decoder accepts and is not overlooked is some instruction's word. -/

section Formats

variable (f7 : Funct7) (rs2 rs1 rd : RegIdx) (f3 : Funct3) (op : Opcode)

theorem word_eq_wordI : word f7 rs2 rs1 f3 rd op = wordI (f7 ++ rs2) rs1 f3 rd op := by
  refine (word_injective ..).mpr ⟨?_, ?_, rfl, rfl, rfl, rfl⟩
  all_goals
    ext i hi
    simp
    grind

theorem word_eq_wordS : word f7 rs2 rs1 f3 rd op = wordS (f7 ++ rd) rs2 rs1 f3 op := by
  refine (word_injective ..).mpr ⟨?_, rfl, rfl, rfl, ?_, rfl⟩
  all_goals
    ext i hi
    simp
    grind

theorem exists_wordB : ∃ offset, word f7 rs2 rs1 f3 rd op = wordB offset rs2 rs1 f3 op := by
  refine ⟨f7.extractLsb' 6 1 ++ rd.extractLsb' 0 1 ++ f7.extractLsb' 0 6 ++ rd.extractLsb' 1 4,
    (word_injective ..).mpr ⟨?_, rfl, rfl, rfl, ?_, rfl⟩⟩
  all_goals
    apply BitVec.eq_of_getLsbD_eq
    intro i hi
    simp only [BitVec.getLsbD_append, BitVec.getLsbD_extractLsb']
    grind

theorem word_eq_wordU : word f7 rs2 rs1 f3 rd op = wordU (f7 ++ rs2 ++ rs1 ++ f3) rd op := by
  refine (word_injective ..).mpr ⟨?_, ?_, ?_, ?_, rfl, rfl⟩
  all_goals
    ext i hi
    simp
    grind

theorem exists_wordJ : ∃ offset, word f7 rs2 rs1 f3 rd op = wordJ offset rd op := by
  generalize hu : (f7 ++ rs2 ++ rs1 ++ f3 : BitVec 20) = u
  refine ⟨u.extractLsb' 19 1 ++ u.extractLsb' 0 8 ++ u.extractLsb' 8 1 ++ u.extractLsb' 9 10, ?_⟩
  rw [word_eq_wordU, hu, wordJ]
  congr 1
  apply BitVec.eq_of_getLsbD_eq
  intro i hi
  simp only [BitVec.getLsbD_append, BitVec.getLsbD_extractLsb']
  grind

end Formats

theorem exists_word (w : U32) : ∃ f7 rs2 rs1 f3 rd op, w = word f7 rs2 rs1 f3 rd op :=
  ⟨_, _, _, _, _, _, (word_fields w).symm⟩

theorem exists_cond {f : Funct3} (h : ¬(f = 2 ∨ f = 3)) : ∃ c : Cond, c.funct3 = f := by
  rcases funct3_cases f with rfl | rfl | rfl | rfl | rfl | rfl | rfl | rfl
  · exact ⟨.eq, rfl⟩
  · exact ⟨.ne, rfl⟩
  · exact absurd (.inl rfl) h
  · exact absurd (.inr rfl) h
  · exact ⟨.lt, rfl⟩
  · exact ⟨.ge, rfl⟩
  · exact ⟨.ltu, rfl⟩
  · exact ⟨.geu, rfl⟩

theorem exists_loadOp {f : Funct3} (h : loadWidth f ≠ none) : ∃ o : LoadOp, o.funct3 = f := by
  rcases funct3_cases f with rfl | rfl | rfl | rfl | rfl | rfl | rfl | rfl
  · exact ⟨.lb, rfl⟩
  · exact ⟨.lh, rfl⟩
  · exact ⟨.lw, rfl⟩
  · exact ⟨.ld, rfl⟩
  · exact ⟨.lbu, rfl⟩
  · exact ⟨.lhu, rfl⟩
  · exact ⟨.lwu, rfl⟩
  · exact absurd rfl h

/-- A branch of the table that yields signals, with its condition. -/
theorem ne_none_ite {α : Type} {p Q : Prop} {_ : Decidable p} {x y : Option α}
    (hx : p → x ≠ none → Q) (hy : ¬p → y ≠ none → Q) : (if p then x else y) ≠ none → Q := by
  intro h
  split at h
  · exact hx ‹_› h
  · exact hy ‹_› h

/-- A chain of conditions that yields something: its first condition holds, or the rest yields something. -/
theorem ite_ne_none {α : Type} {p : Prop} {_ : Decidable p} {x y : Option α} (h : (if p then x else y) ≠ none) :
    p ∨ y ≠ none :=
  ne_none_ite (fun hp _ => .inl hp) (fun _ hy => .inr hy) h

theorem exists_storeOp {f : Funct3} (h : storeWidth f ≠ none) : ∃ o : StoreOp, o.funct3 = f := by
  unfold storeWidth at h
  split_ifs at h with h0 h1 h2 h3
  · exact ⟨.sb, h0.symm⟩
  · exact ⟨.sh, h1.symm⟩
  · exact ⟨.sw, h2.symm⟩
  · exact ⟨.sd, h3.symm⟩
  · exact absurd rfl h

theorem exists_width {f : Funct3} (h : wordOrDouble f ≠ none) : ∃ width : Width, width.funct3 = f := by
  unfold wordOrDouble at h
  split_ifs at h with h2 h3
  · exact ⟨.w, h2.symm⟩
  · exact ⟨.d, h3.symm⟩
  · exact absurd rfl h

theorem exists_rm {f : Funct3} (h : ¬ReservedRm f) : ∃ rm : Rm, rm.bits = f := by
  rcases funct3_cases f with rfl | rfl | rfl | rfl | rfl | rfl | rfl | rfl
  · exact ⟨.rne, rfl⟩
  · exact ⟨.rtz, rfl⟩
  · exact ⟨.rdn, rfl⟩
  · exact ⟨.rup, rfl⟩
  · exact ⟨.rmm, rfl⟩
  · exact absurd (.inl rfl) h
  · exact absurd (.inr rfl) h
  · exact ⟨.dyn, rfl⟩

theorem exists_csr {f : Funct3} (h0 : f ≠ 0) (h4 : f ≠ 4) : ∃ o : CsrInstr, o.funct3 = f := by
  rcases funct3_cases f with rfl | rfl | rfl | rfl | rfl | rfl | rfl | rfl
  · exact absurd rfl h0
  · exact ⟨.rw, rfl⟩
  · exact ⟨.rs, rfl⟩
  · exact ⟨.rc, rfl⟩
  · exact absurd rfl h4
  · exact ⟨.rwi, rfl⟩
  · exact ⟨.rsi, rfl⟩
  · exact ⟨.rci, rfl⟩

theorem exists_fmt {b : BitVec 2} (h : b = 0 ∨ b = 1) : ∃ fmt : Fmt, fmt.bits = b := by
  rcases h with rfl | rfl
  · exact ⟨.s, rfl⟩
  · exact ⟨.d, rfl⟩

theorem exists_regOp {f3 : Funct3} {f7 : Funct7} (h : regAlu f3 f7 ≠ none) :
    ∃ o : RegOp, o.funct3 = f3 ∧ o.funct7 = f7 := by
  by_cases hm : f7 = 1
  · subst hm
    rcases funct3_cases f3 with rfl | rfl | rfl | rfl | rfl | rfl | rfl | rfl
    · exact ⟨.mul, rfl, rfl⟩
    · exact ⟨.mulh, rfl, rfl⟩
    · exact ⟨.mulhsu, rfl, rfl⟩
    · exact ⟨.mulhu, rfl, rfl⟩
    · exact ⟨.div, rfl, rfl⟩
    · exact ⟨.divu, rfl, rfl⟩
    · exact ⟨.rem, rfl, rfl⟩
    · exact ⟨.remu, rfl, rfl⟩
  unfold regAlu at h
  rw [if_neg hm] at h
  obtain ⟨rfl, rfl⟩ | h := ite_ne_none h
  · exact ⟨.add, rfl, rfl⟩
  obtain ⟨rfl, rfl⟩ | h := ite_ne_none h
  · exact ⟨.sub, rfl, rfl⟩
  obtain ⟨rfl, rfl⟩ | h := ite_ne_none h
  · exact ⟨.sll, rfl, rfl⟩
  obtain ⟨rfl, rfl⟩ | h := ite_ne_none h
  · exact ⟨.slt, rfl, rfl⟩
  obtain ⟨rfl, rfl⟩ | h := ite_ne_none h
  · exact ⟨.sltu, rfl, rfl⟩
  obtain ⟨rfl, rfl⟩ | h := ite_ne_none h
  · exact ⟨.xor, rfl, rfl⟩
  obtain ⟨rfl, rfl⟩ | h := ite_ne_none h
  · exact ⟨.srl, rfl, rfl⟩
  obtain ⟨rfl, rfl⟩ | h := ite_ne_none h
  · exact ⟨.sra, rfl, rfl⟩
  obtain ⟨rfl, rfl⟩ | h := ite_ne_none h
  · exact ⟨.or, rfl, rfl⟩
  obtain ⟨rfl, rfl⟩ | h := ite_ne_none h
  · exact ⟨.and, rfl, rfl⟩
  exact absurd rfl h

/-- The operations of `OP` that `OP-32` lacks are the overlooked ones. -/
theorem exists_regOpW (o : RegOp) (h : ¬Reg32Overlooked o.funct7 o.funct3) :
    ∃ o' : RegOpW, o'.wide = o := by
  cases o with
  | add => exact ⟨.addw, rfl⟩
  | sub => exact ⟨.subw, rfl⟩
  | sll => exact ⟨.sllw, rfl⟩
  | srl => exact ⟨.srlw, rfl⟩
  | sra => exact ⟨.sraw, rfl⟩
  | mul => exact ⟨.mulw, rfl⟩
  | div => exact ⟨.divw, rfl⟩
  | divu => exact ⟨.divuw, rfl⟩
  | rem => exact ⟨.remw, rfl⟩
  | remu => exact ⟨.remuw, rfl⟩
  | slt | sltu | xor | or | and | mulh | mulhsu | mulhu =>
    exact absurd (by simp [Reg32Overlooked, RegOp.funct7, RegOp.funct3]) h

theorem exists_intFmt {rs2 : RegIdx} {w wu l lu : AluOp} (h : cvtSelect rs2 w wu l lu ≠ none) :
    ∃ int : IntFmt, int.bits = rs2 := by
  unfold cvtSelect at h
  split_ifs at h with h0 h1 h2 h3
  · exact ⟨.w, h0.symm⟩
  · exact ⟨.wu, h1.symm⟩
  · exact ⟨.l, h2.symm⟩
  · exact ⟨.lu, h3.symm⟩
  · exact absurd rfl h

theorem exists_amoOp {f5 : BitVec 5} (h : amoOp f5 ≠ none) (hl : f5 ≠ 0b00010) (hs : f5 ≠ 0b00011) :
    ∃ o : AmoOp, o.funct5 = f5 := by
  unfold amoOp at h
  rw [if_neg hl, if_neg hs] at h
  obtain rfl | h := ite_ne_none h
  · exact ⟨.swap, rfl⟩
  obtain rfl | h := ite_ne_none h
  · exact ⟨.add, rfl⟩
  obtain rfl | h := ite_ne_none h
  · exact ⟨.xor, rfl⟩
  obtain rfl | h := ite_ne_none h
  · exact ⟨.and, rfl⟩
  obtain rfl | h := ite_ne_none h
  · exact ⟨.or, rfl⟩
  obtain rfl | h := ite_ne_none h
  · exact ⟨.min, rfl⟩
  obtain rfl | h := ite_ne_none h
  · exact ⟨.max, rfl⟩
  obtain rfl | h := ite_ne_none h
  · exact ⟨.minu, rfl⟩
  obtain rfl | h := ite_ne_none h
  · exact ⟨.maxu, rfl⟩
  exact absurd rfl h

/-- The six bits above a shift amount of `OP-IMM`, then the amount. -/
theorem shamt_split (f7 : Funct7) (rs2 : RegIdx) :
    f7 ++ rs2 = f7.extractLsb' 1 6 ++ (f7.extractLsb' 0 1 ++ rs2) := by
  have hf : f7 = f7.extractLsb' 1 6 ++ f7.extractLsb' 0 1 := by
    revert f7
    decide
  calc f7 ++ rs2 = (f7.extractLsb' 1 6 ++ f7.extractLsb' 0 1 : BitVec 7) ++ rs2 := by rw [← hf]
    _ = f7.extractLsb' 1 6 ++ (f7.extractLsb' 0 1 ++ rs2) := by
        rw [BitVec.append_assoc]
        rfl

section Accepted

variable (f7 : Funct7) (rs2 rs1 rd : RegIdx) (f3 : Funct3)

theorem valid_imm (h : ¬ImmOverlooked f7 f3) : Valid (word f7 rs2 rs1 f3 rd Op.imm) := by
  rw [word_eq_wordI]
  simp only [ImmOverlooked, not_or, not_and, not_not] at h
  obtain ⟨hsll, hsr⟩ := h
  have shift : ∀ o : ShiftOp, o.funct6 = f7.extractLsb' 1 6 →
      Valid (wordI (f7 ++ rs2) rs1 o.funct3 rd Op.imm) := by
    intro o ho
    exact ⟨.shiftImm o rd rs1 (f7.extractLsb' 0 1 ++ rs2), by rw [encode, ho, ← shamt_split]⟩
  rcases funct3_cases f3 with rfl | rfl | rfl | rfl | rfl | rfl | rfl | rfl
  · exact ⟨.opImm .addi rd rs1 _, rfl⟩
  · exact shift .sll (hsll rfl).symm
  · exact ⟨.opImm .slti rd rs1 _, rfl⟩
  · exact ⟨.opImm .sltiu rd rs1 _, rfl⟩
  · exact ⟨.opImm .xori rd rs1 _, rfl⟩
  · by_cases h0 : f7.extractLsb' 1 6 = 0
    · exact shift .srl h0.symm
    · exact shift .sra (hsr rfl h0).symm
  · exact ⟨.opImm .ori rd rs1 _, rfl⟩
  · exact ⟨.opImm .andi rd rs1 _, rfl⟩

theorem valid_imm32 (h : ¬Imm32Overlooked f7 f3) : Valid (word f7 rs2 rs1 f3 rd Op.imm32) := by
  rw [word_eq_wordI]
  simp only [Imm32Overlooked, not_or, not_and, not_not] at h
  obtain ⟨hsll, hsr, hother⟩ := h
  by_cases h0 : f3 = 0
  · subst h0
    exact ⟨.addiw rd rs1 _, rfl⟩
  by_cases h1 : f3 = 1
  · subst h1
    exact ⟨.shiftImmW .sll rd rs1 rs2, by rw [hsll rfl]; rfl⟩
  have h5 := hother h0 h1
  subst h5
  by_cases hf : f7 = 0
  · exact ⟨.shiftImmW .srl rd rs1 rs2, by rw [hf]; rfl⟩
  · exact ⟨.shiftImmW .sra rd rs1 rs2, by rw [hsr rfl hf]; rfl⟩

theorem valid_amo (width : Width) (hop : amoOp (funct5 f7) ≠ none)
    (h : ¬AmoOverlooked f7 rs2 width.funct3) : Valid (word f7 rs2 rs1 width.funct3 rd Op.amo) := by
  obtain ⟨f5, aqrl, rfl⟩ : ∃ (f5 : BitVec 5) (aqrl : BitVec 2), f7 = f5 ++ aqrl :=
    ⟨_, _, (funct5_append_fmtBits f7).symm⟩
  rw [funct5_append] at hop
  have hw : width.funct3 = 2 ∨ width.funct3 = 3 := by
    cases width
    · exact .inl rfl
    · exact .inr rfl
  by_cases hl : f5 = 0b00010
  · subst hl
    have hz : rs2 = 0 := by
      by_contra hz
      exact h ⟨funct5_append .., hz, hw⟩
    exact ⟨.lr width aqrl rd rs1, by rw [hz]; rfl⟩
  by_cases hs : f5 = 0b00011
  · subst hs
    exact ⟨.sc width aqrl rd rs1 rs2, rfl⟩
  obtain ⟨o, rfl⟩ := exists_amoOp hop hl hs
  exact ⟨.amo o width aqrl rd rs1 rs2, rfl⟩

theorem valid_fused (o : FusedOp) (h : ¬FusedOverlooked f7 f3) :
    Valid (word f7 rs2 rs1 f3 rd o.opcode) := by
  obtain ⟨hf, hr⟩ := not_or.mp h
  obtain ⟨fmt, hf⟩ := exists_fmt (not_not.mp hf)
  obtain ⟨rm, rfl⟩ := exists_rm hr
  refine ⟨.fused o fmt rm rd rs1 rs2 (funct5 f7), ?_⟩
  rw [encode, hf, funct5_append_fmtBits]

theorem valid_system (h : ¬SystemOverlooked (word f7 rs2 rs1 f3 rd Op.system)) :
    Valid (word f7 rs2 rs1 f3 rd Op.system) := by
  simp only [SystemOverlooked, funct3_word, funct7_word, rd_word, not_or] at h
  obtain ⟨h4, h0⟩ := h
  by_cases hz : f3 = 0
  · subst hz
    by_cases hs : f7 = 0b0001001 ∧ rd = 0
    · obtain ⟨rfl, rfl⟩ := hs
      exact ⟨.sfenceVma rs1 rs2, rfl⟩
    -- one of the five words the decoder compares with
    by_cases he : word f7 rs2 rs1 0 rd Op.system = Inst.ebreak
    · exact ⟨.ebreak, by rw [he]; rfl⟩
    by_cases hm : word f7 rs2 rs1 0 rd Op.system = Inst.mret
    · exact ⟨.mret, by rw [hm]; rfl⟩
    by_cases hr : word f7 rs2 rs1 0 rd Op.system = Inst.sret
    · exact ⟨.sret, by rw [hr]; rfl⟩
    by_cases hw : word f7 rs2 rs1 0 rd Op.system = Inst.wfi
    · exact ⟨.wfi, by rw [hw]; rfl⟩
    by_cases hc : word f7 rs2 rs1 0 rd Op.system = Inst.ecall
    · exact ⟨.ecall, by rw [hc]; rfl⟩
    exact absurd ⟨rfl, hs, he, hm, hr, hw, hc⟩ h0
  · obtain ⟨o, rfl⟩ := exists_csr hz h4
    exact ⟨.csr o rd rs1 _, (word_eq_wordI ..).symm⟩

/-- The format is the low part of `funct7`, once the operation is known. -/
theorem eq_append_fmt (f5 : BitVec 5) {a b : Funct7} {f7 : Funct7} (h : f7 = a ∨ f7 = b)
    (ha : a = f5 ++ Fmt.s.bits) (hb : b = f5 ++ Fmt.d.bits) : ∃ fmt : Fmt, f7 = f5 ++ fmt.bits := by
  rcases h with rfl | rfl
  · exact ⟨.s, ha⟩
  · exact ⟨.d, hb⟩

theorem fpOverlooked_append (f5 : BitVec 5) (fmt : Fmt) (rs2 : RegIdx) (f3 : Funct3) :
    FpOverlooked (f5 ++ fmt.bits) rs2 f3 ↔
      (f5 = 0b00000 ∨ f5 = 0b00001 ∨ f5 = 0b00010 ∨ f5 = 0b00011) ∧ ReservedRm f3 ∨
      f5 = 0b01011 ∧ (rs2 ≠ 0 ∨ ReservedRm f3) ∨
      f5 = 0b11100 ∧ rs2 ≠ 0 ∧ (f3 = 0 ∨ f3 = 1) ∨
      f5 = 0b11110 ∧ (rs2 ≠ 0 ∨ f3 ≠ 0) ∨
      (f5 = 0b11000 ∨ f5 = 0b11010) ∧ (rs2 = 0 ∨ rs2 = 1 ∨ rs2 = 2 ∨ rs2 = 3) ∧ ReservedRm f3 ∨
      f5 ++ fmt.bits = 0b0100000 ∧ (rs2 ≠ 1 ∨ ReservedRm f3) ∨
      f5 ++ fmt.bits = 0b0100001 ∧ (rs2 ≠ 0 ∨ ReservedRm f3) := by
  have hf : fmtBits (f5 ++ fmt.bits) = 0 ∨ fmtBits (f5 ++ fmt.bits) = 1 := by
    rw [fmtBits_append]
    cases fmt
    · exact .inl rfl
    · exact .inr rfl
  simp only [FpOverlooked, funct5_append, hf, true_and]

theorem valid_fpOp (o : FpOp) (fmt : Fmt) (h : ¬FpOverlooked (o.funct5 ++ fmt.bits) rs2 f3) :
    Valid (wordFp o.funct5 fmt rs2 rs1 f3 rd) := by
  rw [fpOverlooked_append] at h
  obtain ⟨rm, rfl⟩ : ∃ rm : Rm, rm.bits = f3 := by
    apply exists_rm
    intro hr
    refine h (.inl ⟨?_, hr⟩)
    cases o <;> simp [FpOp.funct5]
  exact ⟨.fpOp o fmt rm rd rs1 rs2, rfl⟩

theorem valid_cvt (fmt : Fmt) (int : IntFmt) (f5 : BitVec 5)
    (h5 : f5 = 0b11000 ∨ f5 = 0b11010) (h : ¬FpOverlooked (f5 ++ fmt.bits) int.bits f3) :
    Valid (wordFp f5 fmt int.bits rs1 f3 rd) := by
  rw [fpOverlooked_append] at h
  have hi : int.bits = 0 ∨ int.bits = 1 ∨ int.bits = 2 ∨ int.bits = 3 := by
    cases int <;> simp [IntFmt.bits]
  obtain ⟨rm, rfl⟩ : ∃ rm : Rm, rm.bits = f3 := by
    apply exists_rm
    intro hr
    exact h (.inr (.inr (.inr (.inr (.inl ⟨h5, hi, hr⟩)))))
  rcases h5 with rfl | rfl
  · exact ⟨.fcvtToX int fmt rm rd rs1, rfl⟩
  · exact ⟨.fcvtToF int fmt rm rd rs1, rfl⟩

theorem ne_none_of_map {α β : Type} {x : Option α} {f : α → β} (h : x.map f ≠ none) : x ≠ none := by
  rintro rfl
  exact h rfl

/-- The decoder's `OP-FP` table, read backwards. -/
theorem valid_fp (c : ControlSignals) (h : ¬FpOverlooked f7 rs2 f3) :
    decodeFp (decode (word f7 rs2 rs1 f3 rd Op.fp)) c ≠ none →
      Valid (word f7 rs2 rs1 f3 rd Op.fp) := by
  unfold decodeFp
  rw [decode_funct7, decode_funct3, decode_rs2, funct7_word, funct3_word, rs2_word]
  dsimp only
  refine ne_none_ite (fun hf _ => ?fadd) fun _ => ne_none_ite (fun hf _ => ?fsub) fun _ =>
    ne_none_ite (fun hf _ => ?fmul) fun _ => ne_none_ite (fun hf _ => ?fdiv) fun _ =>
    ne_none_ite (fun hf _ => ?fsqrt) fun _ => ne_none_ite (fun hf => ?fsgnj) fun _ =>
    ne_none_ite (fun hf => ?fminmax) fun _ => ne_none_ite (fun hf => ?fcmp) fun _ =>
    ne_none_ite (fun hf => ?fclass) fun _ => ne_none_ite (fun hf _ => ?fmvToF) fun _ =>
    ne_none_ite (fun hf hc => ?fcvtToX) fun _ => ne_none_ite (fun hf hc => ?fcvtToF) fun _ =>
    ne_none_ite (fun hf _ => ?fcvtDS) fun _ => ne_none_ite (fun hf _ => ?fcvtSD) fun _ hn =>
      absurd rfl hn
  case fadd =>
    obtain ⟨fmt, rfl⟩ := eq_append_fmt FpOp.fadd.funct5 hf rfl rfl
    exact valid_fpOp rs2 rs1 rd f3 .fadd fmt h
  case fsub =>
    obtain ⟨fmt, rfl⟩ := eq_append_fmt FpOp.fsub.funct5 hf rfl rfl
    exact valid_fpOp rs2 rs1 rd f3 .fsub fmt h
  case fmul =>
    obtain ⟨fmt, rfl⟩ := eq_append_fmt FpOp.fmul.funct5 hf rfl rfl
    exact valid_fpOp rs2 rs1 rd f3 .fmul fmt h
  case fdiv =>
    obtain ⟨fmt, rfl⟩ := eq_append_fmt FpOp.fdiv.funct5 hf rfl rfl
    exact valid_fpOp rs2 rs1 rd f3 .fdiv fmt h
  case fsqrt =>
    obtain ⟨fmt, rfl⟩ := eq_append_fmt 0b01011 hf rfl rfl
    have hn : ¬(rs2 ≠ 0 ∨ ReservedRm f3) := fun hn =>
      h ((fpOverlooked_append ..).mpr (.inr (.inl ⟨rfl, hn⟩)))
    obtain ⟨hz, hr⟩ := not_or.mp hn
    obtain ⟨rm, rfl⟩ := exists_rm hr
    exact ⟨.fsqrt fmt rm rd rs1, by rw [not_not.mp hz]; rfl⟩
  case fsgnj =>
    obtain ⟨fmt, rfl⟩ := eq_append_fmt FpPick.fsgnj.funct5 hf rfl rfl
    refine ne_none_ite (fun h3 _ => ?_) fun _ => ne_none_ite (fun h3 _ => ?_) fun _ =>
      ne_none_ite (fun h3 _ => ?_) fun _ hn => absurd rfl hn
    · exact ⟨.fpPick .fsgnj fmt rd rs1 rs2, by rw [h3]; rfl⟩
    · exact ⟨.fpPick .fsgnjn fmt rd rs1 rs2, by rw [h3]; rfl⟩
    · exact ⟨.fpPick .fsgnjx fmt rd rs1 rs2, by rw [h3]; rfl⟩
  case fminmax =>
    obtain ⟨fmt, rfl⟩ := eq_append_fmt FpPick.fmin.funct5 hf rfl rfl
    refine ne_none_ite (fun h3 _ => ?_) fun _ => ne_none_ite (fun h3 _ => ?_) fun _ hn =>
      absurd rfl hn
    · exact ⟨.fpPick .fmin fmt rd rs1 rs2, by rw [h3]; rfl⟩
    · exact ⟨.fpPick .fmax fmt rd rs1 rs2, by rw [h3]; rfl⟩
  case fcmp =>
    obtain ⟨fmt, rfl⟩ := eq_append_fmt 0b10100 hf rfl rfl
    refine ne_none_ite (fun h3 _ => ?_) fun _ => ne_none_ite (fun h3 _ => ?_) fun _ =>
      ne_none_ite (fun h3 _ => ?_) fun _ hn => absurd rfl hn
    · exact ⟨.fpCmp .feq fmt rd rs1 rs2, by rw [h3]; rfl⟩
    · exact ⟨.fpCmp .flt fmt rd rs1 rs2, by rw [h3]; rfl⟩
    · exact ⟨.fpCmp .fle fmt rd rs1 rs2, by rw [h3]; rfl⟩
  case fclass =>
    obtain ⟨fmt, rfl⟩ := eq_append_fmt 0b11100 hf rfl rfl
    have hz : f3 = 0 ∨ f3 = 1 → rs2 = 0 := by
      intro h3
      by_contra hz
      exact h ((fpOverlooked_append ..).mpr (.inr (.inr (.inl ⟨rfl, hz, h3⟩))))
    refine ne_none_ite (fun h3 _ => ?_) fun _ => ne_none_ite (fun h3 _ => ?_) fun _ hn =>
      absurd rfl hn
    · exact ⟨.fmvToX fmt rd rs1, by rw [hz (.inl h3), h3]; rfl⟩
    · exact ⟨.fclass fmt rd rs1, by rw [hz (.inr h3), h3]; rfl⟩
  case fmvToF =>
    obtain ⟨fmt, rfl⟩ := eq_append_fmt 0b11110 hf rfl rfl
    have hn : ¬(rs2 ≠ 0 ∨ f3 ≠ 0) := fun hn =>
      h ((fpOverlooked_append ..).mpr (.inr (.inr (.inr (.inl ⟨rfl, hn⟩)))))
    obtain ⟨hz, h3⟩ := not_or.mp hn
    exact ⟨.fmvToF fmt rd rs1, by rw [not_not.mp hz, not_not.mp h3]; rfl⟩
  case fcvtToX =>
    obtain ⟨fmt, rfl⟩ := eq_append_fmt 0b11000 hf rfl rfl
    obtain ⟨int, rfl⟩ := exists_intFmt (ne_none_of_map hc)
    exact valid_cvt rs1 rd f3 fmt int _ (.inl rfl) h
  case fcvtToF =>
    obtain ⟨fmt, rfl⟩ := eq_append_fmt 0b11010 hf rfl rfl
    obtain ⟨int, rfl⟩ := exists_intFmt (ne_none_of_map hc)
    exact valid_cvt rs1 rd f3 fmt int _ (.inr rfl) h
  case fcvtDS =>
    subst hf
    have hn : ¬(rs2 ≠ 0 ∨ ReservedRm f3) := fun hn =>
      h ((fpOverlooked_append 0b01000 .d ..).mpr (.inr (.inr (.inr (.inr (.inr (.inr ⟨rfl, hn⟩)))))))
    obtain ⟨hz, hr⟩ := not_or.mp hn
    obtain ⟨rm, rfl⟩ := exists_rm hr
    exact ⟨.fcvtDS rm rd rs1, by rw [not_not.mp hz]; rfl⟩
  case fcvtSD =>
    subst hf
    have hn : ¬(rs2 ≠ 1 ∨ ReservedRm f3) := fun hn =>
      h ((fpOverlooked_append 0b01000 .s ..).mpr (.inr (.inr (.inr (.inr (.inr (.inl ⟨rfl, hn⟩)))))))
    obtain ⟨hz, hr⟩ := not_or.mp hn
    obtain ⟨rm, rfl⟩ := exists_rm hr
    exact ⟨.fcvtSD rm rd rs1, by rw [not_not.mp hz]; rfl⟩

end Accepted

/-- Outside SYSTEM, an accepted word that is not overlooked is an instruction's. -/
theorem valid_of_accepted (w : U32) (h : ¬Overlooked w) :
    decodeCommon (decode w) ≠ none → Valid w := by
  obtain ⟨f7, rs2, rs1, f3, rd, op, rfl⟩ := exists_word w
  simp only [Overlooked, opcode_word, funct3_word, funct7_word, rs2_word, not_or, not_and] at h
  obtain ⟨hbranch, hjalr, himm, himm32, hreg32, hamo, hfp, hfused, -⟩ := h
  unfold decodeCommon
  rw [decode_opcode, decode_funct3, decode_funct7, opcode_word, funct3_word, funct7_word]
  dsimp only
  refine ne_none_ite (fun ho _ => ?lui) fun _ => ne_none_ite (fun ho _ => ?auipc) fun _ =>
    ne_none_ite (fun ho _ => ?jump) fun _ => ne_none_ite (fun ho _ => ?branch) fun _ =>
    ne_none_ite (fun ho hw => ?load) fun _ => ne_none_ite (fun ho hw => ?store) fun _ =>
    ne_none_ite (fun ho _ => ?imm) fun _ => ne_none_ite (fun ho hw => ?reg) fun _ =>
    ne_none_ite (fun ho hw => ?amo) fun _ => ne_none_ite (fun ho hw => ?loadFp) fun _ =>
    ne_none_ite (fun ho hw => ?storeFp) fun _ => ne_none_ite (fun ho => ?fp) fun _ =>
    ne_none_ite (fun ho _ => ?fused) fun _ => ne_none_ite (fun ho => ?miscMem) fun _ hn =>
      absurd rfl hn
  case lui =>
    subst ho
    exact ⟨.lui rd _, (word_eq_wordU ..).symm⟩
  case auipc =>
    subst ho
    exact ⟨.auipc rd _, (word_eq_wordU ..).symm⟩
  case jump =>
    rcases ho with rfl | rfl
    · obtain ⟨offset, hw⟩ := exists_wordJ f7 rs2 rs1 rd f3 Op.jal
      exact ⟨.jal rd offset, hw.symm⟩
    · refine ⟨.jalr rd rs1 (f7 ++ rs2), ?_⟩
      rw [not_not.mp (hjalr rfl)]
      exact (word_eq_wordI ..).symm
  case branch =>
    subst ho
    obtain ⟨c, rfl⟩ := exists_cond (fun hc => hc.elim (hbranch rfl).1 (hbranch rfl).2)
    obtain ⟨offset, hw⟩ := exists_wordB f7 rs2 rs1 rd c.funct3 Op.branch
    exact ⟨.branch c rs1 rs2 offset, hw.symm⟩
  case load =>
    subst ho
    obtain ⟨o, rfl⟩ := exists_loadOp (ne_none_of_map hw)
    exact ⟨.load o rd rs1 _, (word_eq_wordI ..).symm⟩
  case store =>
    subst ho
    obtain ⟨o, rfl⟩ := exists_storeOp (ne_none_of_map hw)
    exact ⟨.store o rs1 rs2 _, (word_eq_wordS ..).symm⟩
  case imm =>
    rcases ho with rfl | rfl
    · exact valid_imm f7 rs2 rs1 rd f3 (himm rfl)
    · exact valid_imm32 f7 rs2 rs1 rd f3 (himm32 rfl)
  case reg =>
    obtain ⟨o, rfl, rfl⟩ := exists_regOp (ne_none_of_map hw)
    rcases ho with rfl | rfl
    · exact ⟨.op o rd rs1 rs2, rfl⟩
    · obtain ⟨o', rfl⟩ := exists_regOpW o (hreg32 rfl)
      exact ⟨.opW o' rd rs1 rs2, rfl⟩
  case amo =>
    subst ho
    rw [shift_eq_funct5] at hw
    obtain ⟨width, rfl⟩ : ∃ width : Width, width.funct3 = f3 := by
      apply exists_width
      intro hn
      exact hw (by rw [hn]; rfl)
    refine valid_amo f7 rs2 rs1 rd width (fun hn => hw ?_) (hamo rfl)
    rw [hn, wordOrDouble_funct3]
    rfl
  case loadFp =>
    subst ho
    obtain ⟨width, rfl⟩ := exists_width (ne_none_of_map hw)
    exact ⟨.loadFp width rd rs1 _, (word_eq_wordI ..).symm⟩
  case storeFp =>
    subst ho
    obtain ⟨width, rfl⟩ := exists_width (ne_none_of_map hw)
    exact ⟨.storeFp width rs1 rs2 _, (word_eq_wordS ..).symm⟩
  case fp =>
    subst ho
    exact ne_none_ite (fun _ => valid_fp f7 rs2 rs1 rd f3 _ (hfp rfl)) fun _ hn => absurd rfl hn
  case fused =>
    rcases ho with rfl | rfl | rfl | rfl
    · exact valid_fused f7 rs2 rs1 rd f3 .fmadd (hfused (.inl rfl))
    · exact valid_fused f7 rs2 rs1 rd f3 .fmsub (hfused (.inr (.inl rfl)))
    · exact valid_fused f7 rs2 rs1 rd f3 .fnmadd (hfused (.inr (.inr (.inr rfl))))
    · exact valid_fused f7 rs2 rs1 rd f3 .fnmsub (hfused (.inr (.inr (.inl rfl))))
  case miscMem =>
    subst ho
    refine ne_none_ite (fun h3 _ => ?_) fun _ => ne_none_ite (fun h3 _ => ?_) fun _ hn =>
      absurd rfl hn
    · exact ⟨.fence _ rd rs1, by rw [h3]; exact (word_eq_wordI ..).symm⟩
    · exact ⟨.fenceI _ rd rs1, by rw [h3]; exact (word_eq_wordI ..).symm⟩

/-! ### Overlooked words are accepted -/

/-- The decoder refuses nothing of SYSTEM. -/
theorem decodeSystem_ne_illegal (w : U32) (pc : U64) (d : Decoded) (x : U32) :
    decodeSystem w pc d ≠ .error (.illegalInstruction x) := by
  unfold decodeSystem
  split_ifs <;> simp

theorem decodeInstruction_illegal_iff (w : U32) (pc : U64) :
    decodeInstruction w pc (decode w) = .error (.illegalInstruction w) ↔
      Inst.opcode w ≠ Op.system ∧ decodeCommon (decode w) = none := by
  unfold decodeInstruction
  rw [decode_opcode]
  by_cases hs : Inst.opcode w = Op.system
  · rw [if_pos hs]
    exact iff_of_false (decodeSystem_ne_illegal w pc _ w) (fun h => h.1 hs)
  · rw [if_neg hs]
    cases hc : decodeCommon (decode w) <;> simp [hs]

/-- The operations `OP-32` lacks are in the table of `OP` it goes through. -/
theorem regAlu_of_overlooked {f7 : Funct7} {f3 : Funct3} (h : Reg32Overlooked f7 f3) :
    regAlu f3 f7 ≠ none := by
  rcases h with ⟨rfl, rfl | rfl | rfl | rfl | rfl⟩ | ⟨rfl, rfl | rfl | rfl⟩ <;> decide

theorem decodeFp_of_overlooked {d : Decoded} (c : ControlSignals)
    (h : FpOverlooked d.funct7 d.rs2 d.funct3) : decodeFp d c ≠ none := by
  obtain ⟨hfmt, h⟩ := h
  obtain ⟨fmt, hf⟩ := exists_fmt hfmt
  have h7 : d.funct7 = funct5 d.funct7 ++ fmt.bits := by
    rw [hf, funct5_append_fmtBits]
  rcases h with ⟨h5 | h5 | h5 | h5, -⟩ | ⟨h5, -⟩ | ⟨h5, -, h3⟩ | ⟨h5, -⟩ | ⟨h5, h2, -⟩ | ⟨h5, -⟩ |
    ⟨h5, -⟩
  case inr.inr.inl =>
    rw [h5] at h7
    cases fmt <;> rcases h3 with h3 | h3 <;> simp +decide [decodeFp, h7, h3]
  case inr.inr.inr.inr.inl =>
    rcases h5 with h5 | h5 <;> rw [h5] at h7 <;> cases fmt <;> rcases h2 with h2 | h2 | h2 | h2 <;>
      simp +decide [decodeFp, h7, h2, cvtSelect]
  case inr.inr.inr.inr.inr.inl => simp +decide [decodeFp, h5]
  case inr.inr.inr.inr.inr.inr => simp +decide [decodeFp, h5]
  all_goals
    rw [h5] at h7
    cases fmt <;> simp +decide [decodeFp, h7]

theorem accepted_of_overlooked (w : U32) (pc : U64) (h : Overlooked w) :
    decodeInstruction w pc (decode w) ≠ .error (.illegalInstruction w) := by
  rw [Ne, decodeInstruction_illegal_iff]
  rintro ⟨hs, hn⟩
  revert hn
  rcases h with ⟨ho, -⟩ | ⟨ho, -⟩ | ⟨ho, -⟩ | ⟨ho, -⟩ | ⟨ho, h⟩ | ⟨ho, h⟩ | ⟨ho, h⟩ | ⟨ho, -⟩ | ⟨ho, -⟩
  · rw [decodeCommon_branch ho]
    exact Option.some_ne_none _
  · rw [decodeCommon_jump (.inr ho)]
    exact Option.some_ne_none _
  · rw [decodeCommon_imm ho]
    exact Option.some_ne_none _
  · rw [decodeCommon_imm32 ho]
    exact Option.some_ne_none _
  · rw [decodeCommon_reg32 ho, Option.map_eq_none_iff]
    exact regAlu_of_overlooked h
  · obtain ⟨h5, -, h3⟩ := h
    rw [decodeCommon_amo ho, decode_funct3, decode_funct7, h5]
    rcases h3 with h3 | h3 <;> rw [h3] <;> exact Option.some_ne_none _
  · obtain ⟨fmt, hf⟩ := exists_fmt h.1
    rw [decodeCommon_fp fmt ho hf.symm]
    exact decodeFp_of_overlooked _ h
  · rcases ho with ho | ho | ho | ho
    · rw [decodeCommon_fused .fmadd ho]
      exact Option.some_ne_none _
    · rw [decodeCommon_fused .fmsub ho]
      exact Option.some_ne_none _
    · rw [decodeCommon_fused .fnmsub ho]
      exact Option.some_ne_none _
    · rw [decodeCommon_fused .fnmadd ho]
      exact Option.some_ne_none _
  · exact absurd ho hs

/-! ### The decoder against the instruction set -/

/-- The decoder does what the instruction set says of a word: it refuses the
word exactly when no instruction encodes to it, and an instruction's word gets
the instruction's registers, immediate and signals. -/
def DecodeExact (w : U32) (pc : U64) : Prop :=
  (decodeInstruction w pc (decode w) = .error (.illegalInstruction w) ↔ ¬Valid w) ∧
    ∀ i, encode i = w → decodeInstruction w pc (decode w) = i.outcome pc ∧ Carries w i

theorem outcome_ne_illegal (i : Instr) (pc : U64) (x : U32) :
    i.outcome pc ≠ .error (.illegalInstruction x) := by
  cases i <;> simp [Instr.outcome]

theorem valid_of_system {w : U32} (hs : Inst.opcode w = Op.system) (h : ¬Overlooked w) : Valid w := by
  obtain ⟨f7, rs2, rs1, f3, rd, op, rfl⟩ := exists_word w
  rw [opcode_word] at hs
  subst hs
  refine valid_system f7 rs2 rs1 rd f3 fun hn => h ?_
  simp only [Overlooked, opcode_word, hn, and_self, or_true]

/-- The decoder is exact on a word just when the word is not one of the overlooked encodings. -/
theorem decode_exact_iff (w : U32) (pc : U64) : DecodeExact w pc ↔ ¬Overlooked w := by
  constructor
  · rintro ⟨hill, -⟩ ho
    have hv : Valid w := by
      by_contra hv
      exact accepted_of_overlooked w pc ho (hill.mpr hv)
    obtain ⟨i, rfl⟩ := hv
    exact not_overlooked_encode i ho
  · intro ho
    refine ⟨⟨?_, ?_⟩, ?_⟩
    · rintro hill ⟨i, rfl⟩
      rw [decodeInstruction_encode] at hill
      exact outcome_ne_illegal i pc _ hill
    · intro hv
      rw [decodeInstruction_illegal_iff]
      refine ⟨fun hs => hv (valid_of_system hs ho), ?_⟩
      by_contra hacc
      exact hv (valid_of_accepted w ho hacc)
    · rintro i rfl
      exact ⟨decodeInstruction_encode i pc, carries_encode i⟩

/-- A branch word with a `funct3` of 2, in the 32-bit space, is accepted and is no instruction. -/
theorem branch_two_accepted :
    ¬∀ (w : U32) (pc : U64), w &&& 3 = 3 → DecodeExact w pc := by
  intro h
  obtain ⟨hill, -⟩ := h 0x00002063 0 (by decide)
  have ho : Overlooked 0x00002063 := .inl ⟨by decide, .inl (by decide)⟩
  refine accepted_of_overlooked _ 0 ho (hill.mpr ?_)
  rintro ⟨i, hi⟩
  exact not_overlooked_encode i (hi ▸ ho)

end Rvsim
