/-
# The disassembler against the decoder

The disassembler classifies words by a match of its own. It prints the text of
an accepted word's signals, and an unknown form of a refused word, away from
`Misprinted`, and on no misprinted word.

* accepted, and printed otherwise: branches of no condition, W-form shifts
  with a sixth bit in the amount, fused operations of no format, and SYSTEM
  words of no instruction;
* refused, and printed as an instruction: the wildcard arms of floating-point
  loads and stores, register operations, OP-FP, atomics and MISC-MEM.

Key definitions:
  - `Disasm.Misprinted`
Key theorems:
  - `Disasm.agrees_word`: every 32-bit word
  - `Disasm.agrees_iff`, `Disasm.agrees_fails`
-/
import Rvsim.Assembly

namespace Rvsim

open Isa

namespace Disasm

/-! ### Misprinted words -/

/-- SYSTEM words that are an instruction as a whole. -/
def NamedSystem (w : U32) : Prop :=
  w = Inst.ecall ∨ w = Inst.ebreak ∨ w = Inst.mret ∨ w = Inst.sret ∨ w = Inst.wfi ∨ w &&& 0xFE007FFF = Inst.sfenceVma

/-- OP-FP words whose last field falls to a wildcard. -/
def FpMisprinted (f7 : Funct7) (rs2 : RegIdx) (f3 : Funct3) : Prop :=
  ((f7 = 0b0010100 ∨ f7 = 0b0010101) ∧ f3 ≠ 0 ∧ f3 ≠ 1) ∨
    ((f7 = 0b1110000 ∨ f7 = 0b1110001) ∧ f3 ≠ 0 ∧ f3 ≠ 1) ∨
    ((f7 = 0b1100000 ∨ f7 = 0b1100001 ∨ f7 = 0b1101000 ∨ f7 = 0b1101001) ∧ rs2 ≠ 0 ∧ rs2 ≠ 1 ∧ rs2 ≠ 2 ∧ rs2 ≠ 3)

/-- LR, SC and the AMOs, by the upper five bits of `funct7`. -/
def amoCodes : List (BitVec 5) :=
  [0b00010, 0b00011, 0b00001, 0b00000, 0b00100, 0b01100, 0b01000, 0b10000, 0b10100, 0b11000, 0b11100]

/-- The words about which disassembler and decoder differ, opcode by opcode. -/
def Misprinted (w : U32) : Prop :=
  let op := Inst.opcode w
  let f3 := Inst.funct3 w
  let f7 := Inst.funct7 w
  -- accepted by the decoder
  (op = Op.branch ∧ (f3 = 2 ∨ f3 = 3)) ∨
    (op = Op.imm32 ∧ (f3 = 1 ∨ f3 = 5) ∧ f7 &&& 1 ≠ 0) ∨
    ((op = Op.fmadd ∨ op = Op.fmsub ∨ op = Op.fnmsub ∨ op = Op.fnmadd) ∧ f7 &&& 2 ≠ 0) ∨
    (op = Op.system ∧ (f3 = 0 ∨ f3 = 4) ∧ ¬ NamedSystem w) ∨
  -- refused by the decoder
    ((op = Op.loadFp ∨ op = Op.storeFp) ∧ f3 ≠ 2 ∧ f3 ≠ 3) ∨
    ((op = Op.reg ∨ op = Op.reg32) ∧ f3 ≠ 0 ∧ f3 ≠ 5 ∧ f7 ≠ 0 ∧ f7 ≠ 1) ∨
    (op = Op.fp ∧ FpMisprinted f7 (Inst.rs2 w) f3) ∨
    (op = Op.amo ∧ f3 ≠ 2 ∧ f3 ≠ 3 ∧ (f7 >>> 2).setWidth 5 ∈ amoCodes) ∨
    (op = Op.miscMem ∧ f3 ≠ 0 ∧ f3 ≠ 1)

/-! ### Immediates -/

/-- Two shifts carry bit `n - 1` of a word upwards. -/
theorem shift_signExtend (v : U32) {n : Nat} (hn : 0 < n) (h : n ≤ 32) :
    ((v <<< (32 - n)).sshiftRight (32 - n)).signExtend 64 = (v.setWidth n).signExtend 64 := by
  refine BitVec.eq_of_getLsbD_eq fun i hi => ?_
  simp only [BitVec.getLsbD_signExtend, BitVec.getLsbD_sshiftRight, BitVec.getLsbD_shiftLeft, BitVec.getLsbD_setWidth,
    BitVec.msb_eq_getLsbD_last]
  grind

/-- A masked field is the field, widened. -/
theorem and_mask {k : Nat} (x : BitVec k) {n : Nat} (hn : n < k) :
    x &&& (((1 : BitVec k) <<< n) - 1) = (x.setWidth n).setWidth k := by
  refine BitVec.eq_of_getLsbD_eq fun i hi => ?_
  rw [BitVec.getLsbD_and, Masks.getLsbD_low hn, BitVec.getLsbD_setWidth, BitVec.getLsbD_setWidth, decide_eq_true hi,
    Bool.true_and, Bool.and_comm]

/-- Fields side by side, widened, are the fields shifted into place. -/
theorem setWidth_append (n m : Nat) (x : BitVec n) (y : BitVec m) :
    (x ++ y).setWidth 32 = (x.setWidth 32 <<< m) ||| y.setWidth 32 := by
  refine BitVec.eq_of_getLsbD_eq fun i hi => ?_
  rw [BitVec.getLsbD_setWidth, BitVec.getLsbD_append, BitVec.getLsbD_or, BitVec.getLsbD_shiftLeft,
      BitVec.getLsbD_setWidth,
    BitVec.getLsbD_setWidth, decide_eq_true hi]
  by_cases him : i < m
  · simp [him]
  · have hy : y.getLsbD i = false := BitVec.getLsbD_of_ge y i (Nat.le_of_not_lt him)
    have him' : i - m < 32 := by omega
    simp [him, hy, him']

/-- An immediate gathered in a 32-bit word is the one gathered in its own width. -/
theorem gathered {n : Nat} (hn : 0 < n) (h : n ≤ 32) {v : U32} {imm : BitVec n} (hv : v = imm.setWidth 32) :
    ((v <<< (32 - n)).sshiftRight (32 - n)).signExtend 64 = imm.signExtend 64 := by
  rw [shift_signExtend v hn h, hv, BitVec.setWidth_setWidth_of_le _ h, BitVec.setWidth_eq]

theorem immS_eq (w : U32) : immS w = decodeSTypeImm w := by
  refine gathered (n := 12) (by decide) (by decide) ?_
  rw [setWidth_append, ← and_mask _ (by decide), ← and_mask _ (by decide)]
  rfl

theorem immB_eq (w : U32) : immB w = decodeBTypeImm w := by
  refine gathered (n := 13) (by decide) (by decide) ?_
  simp only [setWidth_append, BitVec.shiftLeft_or_distrib, ← BitVec.shiftLeft_add]
  rw [← and_mask _ (by decide), ← and_mask _ (by decide), ← and_mask _ (by decide), ← and_mask _ (by decide)]
  rw [show (0 : BitVec 1).setWidth 32 = 0#32 from rfl, BitVec.or_zero]
  rfl

theorem immJ_eq (w : U32) : immJ w = decodeJTypeImm w := by
  refine gathered (n := 21) (by decide) (by decide) ?_
  simp only [setWidth_append, BitVec.shiftLeft_or_distrib, ← BitVec.shiftLeft_add]
  rw [← and_mask _ (by decide), ← and_mask _ (by decide), ← and_mask _ (by decide), ← and_mask _ (by decide)]
  rw [show (0 : BitVec 1).setWidth 32 = 0#32 from rfl, BitVec.or_zero]
  rfl

theorem immI_eq {w : U32} (h : Inst.opcode w = Op.imm ∨ Inst.opcode w = Op.load ∨ Inst.opcode w = Op.jalr ∨
    Inst.opcode w = Op.imm32 ∨ Inst.opcode w = Op.loadFp) : immI w = decodeImm w := (decodeImm_i h).symm

/-! ### Shift amounts -/

/-- Six bits of an amount print as five of them exactly if the sixth is clear. -/
theorem decimal_amount_iff (v : U64) : decimal (v &&& 0x3F) = decimal (v &&& 0x1F) ↔ v.getLsbD 5 = false := by
  have hsix : ∀ x : BitVec 6, decimal (x.setWidth 64) = decimal ((x.setWidth 64 : U64) &&& 0x1F) ↔
      x.getLsbD 5 = false := by
    decide
  have h6 : v &&& 0x3F = (v.setWidth 6).setWidth 64 := and_mask v (n := 6) (by decide)
  have h5 : v &&& 0x1F = (v.setWidth 6).setWidth 64 &&& 0x1F := by
    rw [← h6, BitVec.and_assoc]
    rfl
  rw [h6, h5, hsix, BitVec.getLsbD_setWidth]
  rfl

theorem getLsbD_immI (w : U32) {i : Nat} (hi : i < 12) : (immI w).getLsbD i = w.getLsbD (20 + i) := by
  have hi64 : i < 64 := by omega
  have hi32 : i < 32 := by omega
  have hw : 20 + i < 32 := by omega
  rw [immI, BitVec.getLsbD_signExtend, BitVec.getLsbD_sshiftRight, if_pos hi32, if_pos hw]
  simp [hi64, hi32]

theorem getLsbD_funct7 (w : U32) {i : Nat} (hi : i < 7) : (Inst.funct7 w).getLsbD i = w.getLsbD (25 + i) := by
  rw [Inst.funct7, BitVec.getLsbD_setWidth, BitVec.getLsbD_ushiftRight, decide_eq_true hi, Bool.true_and]

theorem and_bit_iff {k : Nat} (x : BitVec k) {n : Nat} (hn : n < k) :
    x &&& (1 : BitVec k) <<< n ≠ 0 ↔ x.getLsbD n = true := by
  rw [← Masks.test_bit x hn, bne_iff_ne]

/-- Bit 30 picks the arithmetic shift: read off the immediate, or off `funct7`. -/
theorem arithmetic_iff (w : U32) : (immI w).sshiftRight 10 &&& 1 ≠ 0 ↔ Inst.funct7 w &&& 0x20 ≠ 0 := by
  have h0 := and_bit_iff ((immI w).sshiftRight 10) (n := 0) (by decide)
  have h5 := and_bit_iff (Inst.funct7 w) (n := 5) (by decide)
  have h10 : ((immI w).sshiftRight 10).getLsbD 0 = (immI w).getLsbD 10 := by
    rw [BitVec.getLsbD_sshiftRight]
    rfl
  rw [h10, getLsbD_immI w (by decide)] at h0
  rw [getLsbD_funct7 w (by decide)] at h5
  exact h0.trans h5.symm

/-- Bit 25 is the sixth bit of the amount. -/
theorem amount_bit (w : U32) : (immI w).getLsbD 5 = false ↔ ¬ Inst.funct7 w &&& 1 ≠ 0 := by
  have h0 := and_bit_iff (Inst.funct7 w) (n := 0) (by decide)
  rw [getLsbD_funct7 w (by decide)] at h0
  rw [getLsbD_immI w (by decide), ← Bool.not_eq_true]
  exact not_congr h0.symm

/-! ### One word -/

/-- The disassembler's text names what the decoder makes of the word. -/
def WordAgrees (w : U32) (pc : U64) : Prop := Names w pc (disassembleWord w)

/-- A group that reads its signals off a table: with a row, the text is the one of the row's instruction;
without, it is to be an unknown form. -/
theorem agrees_of_table {w : U32} {pc : U64} {α : Type} {t : Option α} {sig : α → ControlSignals}
    (hop : Inst.opcode w ≠ Op.system) (hc : decodeCommon (decode w) = t.map sig)
    (hs : ∀ row, t = some row → (∃ a, assembly w (sig row) = some a ∧ disassembleWord w = a.text) ∧ ¬ Misprinted w)
    (hn : t = none → (Unknown (disassembleWord w) ↔ ¬ Misprinted w)) : WordAgrees w pc ↔ ¬ Misprinted w := by
  cases ht : t with
  | some row =>
    obtain ⟨⟨a, ha, htext⟩, hm⟩ := hs row ht
    rw [ht] at hc
    exact iff_of_true (names_of_some hop hc ha htext) hm
  | none =>
    rw [ht] at hc
    exact (names_iff_unknown hop hc).trans (hn ht)

section Groups

variable {w : U32} (pc : U64)

/-! ### Upper immediates, jumps and branches -/

theorem agrees_upper (h : Inst.opcode w = Op.lui ∨ Inst.opcode w = Op.auipc) : WordAgrees w pc ↔ ¬ Misprinted w := by
  have himm : immU w = decodeImm w := (decodeImm_u h).symm
  rcases h with h | h
  · refine iff_of_true (names_of_some (by rw [h]; decide) (decodeCommon_lui h) rfl ?_) (by simp +decide [Misprinted, h])
    simp +decide only [disassembleWord, h, if_true, if_false, upper, himm]
    rfl
  · refine iff_of_true (names_of_some (by rw [h]; decide) (decodeCommon_auipc h) rfl ?_)
      (by simp +decide [Misprinted, h])
    simp +decide only [disassembleWord, h, if_true, if_false, upper, himm]
    rfl

theorem agrees_jump (h : Inst.opcode w = Op.jal ∨ Inst.opcode w = Op.jalr) : WordAgrees w pc ↔ ¬ Misprinted w := by
  have hc := decodeCommon_jump (d := decode w) h
  rcases h with h | h
  · have himm : immJ w = decodeImm w := (immJ_eq w).trans (decodeImm_j h).symm
    refine iff_of_true (names_of_some (by rw [h]; decide) hc rfl ?_) (by simp +decide [Misprinted, h])
    simp +decide only [disassembleWord, h, if_true, if_false, himm, jumpAssembly]
    rfl
  · refine iff_of_true (names_of_some (by rw [h]; decide) hc rfl ?_) (by simp +decide [Misprinted, h])
    simp +decide only [disassembleWord, h, if_true, if_false, immI_eq (Or.inr (Or.inr (Or.inl h))), jumpAssembly]
    rfl

/-- Away from the two conditions that no branch has, both tables agree. -/
theorem branchAssembly_eq (hf : ¬ (Inst.funct3 w = 2 ∨ Inst.funct3 w = 3)) : branchAssembly w =
    some ⟨branchName (Inst.funct3 w), [.x (Inst.rs1 w), .x (Inst.rs2 w), .imm (decodeImm w)]⟩ := by
  unfold branchAssembly branchName
  rcases funct3_cases (Inst.funct3 w) with h | h | h | h | h | h | h | h
  case inr.inr.inl => exact absurd (Or.inl h) hf
  case inr.inr.inr.inl => exact absurd (Or.inr h) hf
  all_goals simp +decide only [h, if_true, if_false]

theorem agrees_branch (h : Inst.opcode w = Op.branch) : WordAgrees w pc ↔ ¬ Misprinted w := by
  have hop : Inst.opcode w ≠ Op.system := by rw [h]; decide
  have himm : immB w = decodeImm w := (immB_eq w).trans (decodeImm_b h).symm
  have hmis : Misprinted w ↔ Inst.funct3 w = 2 ∨ Inst.funct3 w = 3 := by simp +decide [Misprinted, h]
  have htext : disassembleWord w = line (branchName (Inst.funct3 w))
      [xreg (Inst.rs1 w), xreg (Inst.rs2 w), decimal (decodeImm w)] := by
    simp +decide only [disassembleWord, h, if_true, if_false, himm]
  unfold WordAgrees
  rw [hmis, htext]
  by_cases hf : Inst.funct3 w = 2 ∨ Inst.funct3 w = 3
  · refine iff_of_false (not_names_of_some hop (decodeCommon_branch h) fun a ha => ?_) (not_not.mpr hf)
    have hnone : branchAssembly w = some a := ha
    unfold branchAssembly at hnone
    rcases hf with hf | hf
    · simp +decide [hf] at hnone
    · simp +decide [hf] at hnone
  · have ha := branchAssembly_eq (w := w) hf
    exact iff_of_true (names_of_some hop (decodeCommon_branch h) ha rfl) hf

/-! ### Loads and stores -/

/-- Accesses named by the table that also gives their signals. -/
theorem agrees_access {α : Type} {t : Option α} {sig : α → ControlSignals} {mn : String} {ops : List String}
    (hop : Inst.opcode w ≠ Op.system) (hc : decodeCommon (decode w) = t.map sig) (hmis : ¬ Misprinted w)
    (htext : disassembleWord w = line mn ops)
    (hs : ∀ row ∈ t, ∃ a, assembly w (sig row) = some a ∧ line mn ops = a.text)
    (hn : t = none → '?' ∈ mn.toList) : WordAgrees w pc ↔ ¬ Misprinted w := by
  rw [← htext] at hs
  refine agrees_of_table hop hc (fun row ht => ⟨hs row ht, hmis⟩) (fun ht => iff_of_true ?_ hmis)
  rw [htext]
  exact unknown_line (hn ht)

/-- The loads by width and signedness are the loads by `funct3`. -/
theorem loadAssembly_eq (f3 : Funct3) {ws : MemWidth × Bool} (h : ws ∈ loadWidth f3) :
    loadAssembly w { regWrite := true, memRead := true, width := ws.1, signedLoad := ws.2 } =
      some ⟨loadName f3, [.x (Inst.rd w), .memory (decodeImm w) (Inst.rs1 w)]⟩ := by
  rcases funct3_cases f3 with rfl | rfl | rfl | rfl | rfl | rfl | rfl | rfl <;> cases h <;> rfl

theorem loadWidth_none {f3 : Funct3} (h : loadWidth f3 = none) : '?' ∈ (loadName f3).toList := by
  revert f3
  decide

theorem agrees_load (h : Inst.opcode w = Op.load) : WordAgrees w pc ↔ ¬ Misprinted w := by
  have htext : disassembleWord w = line (loadName (Inst.funct3 w))
      [xreg (Inst.rd w), address (decodeImm w) (Inst.rs1 w)] := by
    simp +decide only [disassembleWord, h, if_true, if_false, immI_eq (Or.inr (Or.inl h))]
  exact agrees_access pc (by rw [h]; decide) (decodeCommon_load h) (by simp +decide [Misprinted, h]) htext
    (fun ws hw => ⟨_, loadAssembly_eq _ hw, rfl⟩) loadWidth_none

/-- The stores by width are the stores by `funct3`. -/
theorem storeAssembly_eq (f3 : Funct3) {width : MemWidth} (h : width ∈ storeWidth f3) :
    storeAssembly w { memWrite := true, width := width } =
      some ⟨storeName f3, [.x (Inst.rs2 w), .memory (decodeImm w) (Inst.rs1 w)]⟩ := by
  rcases funct3_cases f3 with rfl | rfl | rfl | rfl | rfl | rfl | rfl | rfl <;> cases h <;> rfl

theorem storeWidth_none {f3 : Funct3} (h : storeWidth f3 = none) : '?' ∈ (storeName f3).toList := by
  revert f3
  decide

theorem agrees_store (h : Inst.opcode w = Op.store) : WordAgrees w pc ↔ ¬ Misprinted w := by
  have himm : immS w = decodeImm w := (immS_eq w).trans (decodeImm_s (Or.inl h)).symm
  have htext : disassembleWord w = line (storeName (Inst.funct3 w))
      [xreg (Inst.rs2 w), address (decodeImm w) (Inst.rs1 w)] := by
    simp +decide only [disassembleWord, h, if_true, if_false, himm]
  exact agrees_access pc (by rw [h]; decide) (decodeCommon_store h) (by simp +decide [Misprinted, h]) htext
    (fun width hw => ⟨_, storeAssembly_eq _ hw, rfl⟩) storeWidth_none

theorem wordOrDouble_none {f3 : Funct3} : wordOrDouble f3 = none ↔ f3 ≠ 2 ∧ f3 ≠ 3 := by
  revert f3
  decide

theorem wordOrDouble_some {f3 : Funct3} {width : MemWidth} (h : wordOrDouble f3 = some width) :
    (f3 = 2 ∧ width = .word) ∨ (f3 = 3 ∧ width = .double) := by
  unfold wordOrDouble at h
  split_ifs at h with h2 h3
  · exact Or.inl ⟨h2, (Option.some.inj h).symm⟩
  · exact Or.inr ⟨h3, (Option.some.inj h).symm⟩

/-- A floating-point access of another width is refused, and printed as one of a double. -/
theorem agrees_fpAccess {sig : MemWidth → ControlSignals} {single double : String} {r : RegIdx}
    (hop : Inst.opcode w ≠ Op.system) (hc : decodeCommon (decode w) = (wordOrDouble (Inst.funct3 w)).map sig)
    (hmis : Misprinted w ↔ Inst.funct3 w ≠ 2 ∧ Inst.funct3 w ≠ 3)
    (htext : disassembleWord w = line (if Inst.funct3 w = 2 then single else double)
      [freg r, address (decodeImm w) (Inst.rs1 w)])
    (hsingle : assembly w (sig .word) = some ⟨single, [.f r, .memory (decodeImm w) (Inst.rs1 w)]⟩)
    (hdouble : assembly w (sig .double) = some ⟨double, [.f r, .memory (decodeImm w) (Inst.rs1 w)]⟩)
    (hd : Text.Avoids marks double) : WordAgrees w pc ↔ ¬ Misprinted w := by
  refine agrees_of_table hop hc (fun width ht => ?_) (fun ht => ?_)
  · rw [htext, hmis]
    rcases wordOrDouble_some ht with ⟨hf, rfl⟩ | ⟨hf, rfl⟩ <;> rw [hf]
    · exact ⟨⟨_, hsingle, rfl⟩, by decide⟩
    · exact ⟨⟨_, hdouble, rfl⟩, by decide⟩
  · obtain ⟨h2, h3⟩ := wordOrDouble_none.mp ht
    rw [htext, hmis, if_neg h2]
    refine misprint (avoids_line hd ?_) ⟨h2, h3⟩
    simp only [List.forall_mem_cons, List.not_mem_nil, false_imp_iff, implies_true, and_true]
    exact ⟨avoids_freg _, avoids_address _ _⟩

theorem agrees_loadFp (h : Inst.opcode w = Op.loadFp) : WordAgrees w pc ↔ ¬ Misprinted w := by
  have htext : disassembleWord w = line (if Inst.funct3 w = 2 then "flw" else "fld")
      [freg (Inst.rd w), address (decodeImm w) (Inst.rs1 w)] := by
    simp +decide only [disassembleWord, h, if_true, if_false, immI_eq (Or.inr (Or.inr (Or.inr (Or.inr h))))]
  exact agrees_fpAccess pc (by rw [h]; decide) (decodeCommon_loadFp h) (by simp +decide [Misprinted, h]) htext rfl rfl
    (by decide)

theorem agrees_storeFp (h : Inst.opcode w = Op.storeFp) : WordAgrees w pc ↔ ¬ Misprinted w := by
  have himm : immS w = decodeImm w := (immS_eq w).trans (decodeImm_s (Or.inr h)).symm
  have htext : disassembleWord w = line (if Inst.funct3 w = 2 then "fsw" else "fsd")
      [freg (Inst.rs2 w), address (decodeImm w) (Inst.rs1 w)] := by
    simp +decide only [disassembleWord, h, if_true, if_false, himm]
  exact agrees_fpAccess pc (by rw [h]; decide) (decodeCommon_storeFp h) (by simp +decide [Misprinted, h]) htext rfl rfl
    (by decide)

/-! ### Immediate operations -/

/-- The signals of a register-immediate operation. -/
def immSignals (w : U32) (isW : Bool) : ControlSignals :=
  { regWrite := true, isRv32 := isW, alu := immAlu (Inst.funct3 w) (Inst.funct7 w) }

def IsShift (w : U32) : Prop := Inst.funct3 w = 1 ∨ Inst.funct3 w = 5

instance (w : U32) : Decidable (IsShift w) := inferInstanceAs (Decidable (_ ∨ _))

theorem immAlu_cases (f3 : Funct3) (f7 : Funct7) : Fpu.isFp (immAlu f3 f7) = false ∧
    (immAlu f3 f7 = .sll ∨ immAlu f3 f7 = .srl ∨ immAlu f3 f7 = .sra ↔ f3 = 1 ∨ f3 = 5) := by
  revert f3 f7
  decide

theorem disasmOpImm_eq (isW : Bool) : disasmOpImm (Inst.rd w) (Inst.rs1 w) (Inst.funct3 w) (immI w) isW =
    line (aluImmName (immAlu (Inst.funct3 w) (Inst.funct7 w)) ++ suffix isW)
      [xreg (Inst.rd w), xreg (Inst.rs1 w), decimal (if IsShift w then immI w &&& 0x3F else immI w)] := by
  have ha := arithmetic_iff w
  unfold disasmOpImm immAlu IsShift
  rcases funct3_cases (Inst.funct3 w) with h | h | h | h | h | h | h | h
  case inr.inr.inr.inr.inr.inl =>
    by_cases hs : Inst.funct7 w &&& 0x20 ≠ 0
    · simp +decide only [h, if_true, if_false, if_pos hs, if_pos (ha.mpr hs), aluImmName]
    · simp +decide only [h, if_true, if_false, if_neg hs, if_neg (mt ha.mp hs), aluImmName]
  all_goals simp +decide only [h, if_true, if_false, aluImmName]

/-- The amount where the ALU shifts, else the immediate. -/
theorem aluImm_text (isW : Bool) : (aluImm w (immSignals w isW)).text =
    decimal (if IsShift w then decodeImm w &&& (if isW then 0x1F else 0x3F) else decodeImm w) := by
  have hshift := (immAlu_cases (Inst.funct3 w) (Inst.funct7 w)).2
  unfold aluImm immSignals
  by_cases hs : IsShift w
  · rw [if_pos hs]
    rcases hshift.mpr hs with h | h | h <;> rw [h] <;> rfl
  · rw [if_neg hs]
    have hn := mt hshift.mp hs
    split
    · exact absurd (Or.inl ‹_›) hn
    · exact absurd (Or.inr (Or.inl ‹_›)) hn
    · exact absurd (Or.inr (Or.inr ‹_›)) hn
    · rfl

theorem immAssembly_eq (isW : Bool) : ∃ a, assembly w (immSignals w isW) = some a ∧
    a.text = line (aluImmName (immAlu (Inst.funct3 w) (Inst.funct7 w)) ++ suffix isW)
      [xreg (Inst.rd w), xreg (Inst.rs1 w),
          decimal (if IsShift w then decodeImm w &&& (if isW then 0x1F else 0x3F) else decodeImm w)] := by
  have hfp := (immAlu_cases (Inst.funct3 w) (Inst.funct7 w)).1
  refine ⟨⟨aluImmName (immSignals w isW).alu ++ suffix isW,
      [.x (Inst.rd w), .x (Inst.rs1 w), aluImm w (immSignals w isW)]⟩, ?_, ?_⟩
  · change (if Fpu.isFp (immAlu (Inst.funct3 w) (Inst.funct7 w)) then _ else _) = _
    rw [hfp]
    rfl
  · rw [← aluImm_text]
    rfl

theorem agrees_imm (h : Inst.opcode w = Op.imm) : WordAgrees w pc ↔ ¬ Misprinted w := by
  have hop : Inst.opcode w ≠ Op.system := by rw [h]; decide
  have htext : disassembleWord w = disasmOpImm (Inst.rd w) (Inst.rs1 w) (Inst.funct3 w) (immI w) false := by
    simp +decide only [disassembleWord, h, if_true, if_false]
  obtain ⟨a, ha, hat⟩ := immAssembly_eq (w := w) false
  refine iff_of_true (names_of_some hop (decodeCommon_imm h) ha ?_) (by simp +decide [Misprinted, h])
  rw [htext, disasmOpImm_eq, immI_eq (Or.inl h), hat]
  rfl

/-- An amount of six bits is printed in full, and a W form shifts by five of them. -/
theorem agrees_imm32 (h : Inst.opcode w = Op.imm32) : WordAgrees w pc ↔ ¬ Misprinted w := by
  have hop : Inst.opcode w ≠ Op.system := by rw [h]; decide
  have himm : immI w = decodeImm w := immI_eq (Or.inr (Or.inr (Or.inr (Or.inl h))))
  have hmis : Misprinted w ↔ IsShift w ∧ Inst.funct7 w &&& 1 ≠ 0 := by simp +decide [Misprinted, h, IsShift]
  have htext : disassembleWord w = disasmOpImm (Inst.rd w) (Inst.rs1 w) (Inst.funct3 w) (immI w) true := by
    simp +decide only [disassembleWord, h, if_true, if_false]
  obtain ⟨a, ha, hat⟩ := immAssembly_eq (w := w) true
  have hc := decodeCommon_imm32 (d := decode w) h
  unfold WordAgrees
  rw [hmis, htext, disasmOpImm_eq, himm]
  rw [if_pos rfl] at hat
  by_cases hs : IsShift w
  · have hbit := amount_bit w
    rw [himm] at hbit
    rw [if_pos hs] at hat ⊢
    by_cases h7 : Inst.funct7 w &&& 1 ≠ 0
    · refine iff_of_false (not_names_of_some hop hc fun a' ha' => ?_) (not_not.mpr ⟨hs, h7⟩)
      obtain rfl : a = a' := Option.some.inj (ha.symm.trans ha')
      rw [hat]
      refine line_ne [_, _] (mt (decimal_amount_iff _).mp ?_)
      exact fun h5 => hbit.mp h5 h7
    · refine iff_of_true (names_of_some hop hc ha ?_) fun hm => h7 hm.2
      rw [hat, (decimal_amount_iff _).mpr (hbit.mpr h7)]
  · rw [if_neg hs] at hat ⊢
    exact iff_of_true (names_of_some hop hc ha hat.symm) fun hm => hs hm.1

/-! ### Register operations -/

def regMnemonic (f3 : Funct3) (f7 : Funct7) : String := if f7 = 1 then mulName f3 else regName f3 f7

theorem disasmOpReg_eq (rd rs1 rs2 : RegIdx) (f3 : Funct3) (f7 : Funct7) (isW : Bool) :
    disasmOpReg rd rs1 rs2 f3 f7 isW = line (regMnemonic f3 f7 ++ suffix isW) [xreg rd, xreg rs1, xreg rs2] := by
  unfold disasmOpReg regMnemonic
  split <;> rfl

def RegMisprinted (f3 : Funct3) (f7 : Funct7) : Prop := f3 ≠ 0 ∧ f3 ≠ 5 ∧ f7 ≠ 0 ∧ f7 ≠ 1

instance (f3 : Funct3) (f7 : Funct7) : Decidable (RegMisprinted f3 f7) := inferInstanceAs (Decidable (_ ∧ _))

/-- The table of the decoder against the one of the disassembler, which does not look at `funct7` everywhere. -/
def RegTable (f3 : Funct3) (f7 : Funct7) : Prop :=
  (∀ op ∈ regAlu f3 f7, regMnemonic f3 f7 = aluName op ∧ Fpu.isFp op = false ∧ ¬ RegMisprinted f3 f7) ∧
    (regAlu f3 f7 = none → (RegMisprinted f3 f7 ∧ Text.Avoids marks (regMnemonic f3 f7)) ∨
      (¬ RegMisprinted f3 f7 ∧ '?' ∈ (regMnemonic f3 f7).toList))

instance (f3 : Funct3) (f7 : Funct7) : Decidable (RegTable f3 f7) := by
  unfold RegTable
  infer_instance

/-- The other values of `funct7` are all alike. -/
theorem regTable_other {f7 : Funct7} (h0 : f7 ≠ 0) (h1 : f7 ≠ 1) (h32 : f7 ≠ 0x20) (f3 : Funct3) :
    RegTable f3 2 → RegTable f3 f7 := by
  have halu : regAlu f3 f7 = regAlu f3 2 := by simp +decide only [regAlu, h0, h1, h32, and_false, if_false]
  have hname : regMnemonic f3 f7 = regMnemonic f3 2 := by
    simp +decide only [regMnemonic, regName, h0, h1, h32, and_false, if_false]
  have hm : RegMisprinted f3 f7 ↔ RegMisprinted f3 2 := by
    unfold RegMisprinted
    simp +decide only [ne_eq, h0, h1, not_false_eq_true, and_true]
  unfold RegTable
  rw [halu, hname, hm]
  exact id

theorem regAlu_table (f3 : Funct3) (f7 : Funct7) : RegTable f3 f7 := by
  have hall : ∀ f : Funct3, RegTable f 0 ∧ RegTable f 1 ∧ RegTable f 0x20 ∧ RegTable f 2 := by decide
  obtain ⟨ht0, ht1, ht32, ht2⟩ := hall f3
  by_cases h0 : f7 = 0
  · exact h0 ▸ ht0
  by_cases h1 : f7 = 1
  · exact h1 ▸ ht1
  by_cases h32 : f7 = 0x20
  · exact h32 ▸ ht32
  · exact regTable_other h0 h1 h32 f3 ht2

/-- The signals of a register operation. -/
def regSignals (isW : Bool) (op : AluOp) : ControlSignals :=
  { regWrite := true, isRv32 := isW, bSrc := .reg2, alu := op }

theorem regAssembly_eq (isW : Bool) {op : AluOp} (hop : Fpu.isFp op = false) : assembly w (regSignals isW op) =
    some ⟨aluName op ++ suffix isW, [.x (Inst.rd w), .x (Inst.rs1 w), .x (Inst.rs2 w)]⟩ := by
  change (if Fpu.isFp op then _ else _) = _
  rw [hop]
  rfl

theorem avoids_suffix (isW : Bool) : Text.Avoids marks (suffix isW) := by
  cases isW <;> decide

/-- Both forms, on 64 and on 32 bits. -/
theorem agrees_regForm (isW : Bool) (hop : Inst.opcode w ≠ Op.system)
    (hc : decodeCommon (decode w) = (regAlu (Inst.funct3 w) (Inst.funct7 w)).map (regSignals isW))
    (hmis : Misprinted w ↔ RegMisprinted (Inst.funct3 w) (Inst.funct7 w))
    (htext : disassembleWord w = disasmOpReg (Inst.rd w) (Inst.rs1 w) (Inst.rs2 w) (Inst.funct3 w)
        (Inst.funct7 w) isW) :
    WordAgrees w pc ↔ ¬ Misprinted w := by
  obtain ⟨hsome, hnone⟩ := regAlu_table (Inst.funct3 w) (Inst.funct7 w)
  rw [disasmOpReg_eq] at htext
  refine agrees_of_table hop hc (fun op ht => ?_) (fun ht => ?_) <;> rw [htext, hmis]
  · obtain ⟨hname, hfp, hm⟩ := hsome op ht
    exact ⟨⟨_, regAssembly_eq isW hfp, by rw [hname]; rfl⟩, hm⟩
  · rcases hnone ht with ⟨hm, havoid⟩ | ⟨hm, hmark⟩
    · refine misprint (avoids_line (havoid.append (avoids_suffix isW)) ?_) hm
      simp only [List.forall_mem_cons, List.not_mem_nil, false_imp_iff, implies_true, and_true]
      exact ⟨avoids_xreg _, avoids_xreg _, avoids_xreg _⟩
    · refine iff_of_true (unknown_line ?_) hm
      rw [String.toList_append]
      exact List.mem_append_left _ hmark

theorem agrees_reg (h : Inst.opcode w = Op.reg ∨ Inst.opcode w = Op.reg32) : WordAgrees w pc ↔ ¬ Misprinted w := by
  rcases h with h | h
  · refine agrees_regForm pc false (by rw [h]; decide) (decodeCommon_reg h)
      (by simp +decide [Misprinted, RegMisprinted, h]) ?_
    simp +decide only [disassembleWord, h, if_true, if_false]
  · refine agrees_regForm pc true (by rw [h]; decide) (decodeCommon_reg32 h)
      (by simp +decide [Misprinted, RegMisprinted, h]) ?_
    simp +decide only [disassembleWord, h, if_true, if_false]

/-! ### Fences -/

theorem agrees_miscMem (h : Inst.opcode w = Op.miscMem) : WordAgrees w pc ↔ ¬ Misprinted w := by
  have hop : Inst.opcode w ≠ Op.system := by rw [h]; decide
  have hc := decodeCommon_miscMem (d := decode w) h
  have hmis : Misprinted w ↔ Inst.funct3 w ≠ 0 ∧ Inst.funct3 w ≠ 1 := by simp +decide [Misprinted, h]
  have htext : disassembleWord w = if Inst.funct3 w = 1 then "fence.i" else "fence" := by
    simp +decide only [disassembleWord, h, if_true, if_false]
  rw [decode_funct3] at hc
  unfold WordAgrees
  rw [htext, hmis]
  by_cases h0 : Inst.funct3 w = 0
  · rw [h0] at hc ⊢
    exact iff_of_true (names_of_some hop hc rfl rfl) (by decide)
  by_cases h1 : Inst.funct3 w = 1
  · rw [h1] at hc ⊢
    exact iff_of_true (names_of_some hop hc rfl rfl) (by decide)
  · rw [if_neg h0, if_neg h1] at hc
    rw [if_neg h1]
    exact (names_iff_unknown hop hc).trans (misprint (by decide) ⟨h0, h1⟩)

/-! ### Atomics -/

/-- The mnemonic of an atomic, without its width and its ordering. -/
def amoMnemonic (f5 : BitVec 5) : String := if f5 = 0b00010 then "lr" else amoName f5

def amoOperands (rd rs1 rs2 : RegIdx) (f5 : BitVec 5) : List String :=
  if f5 = 0b00010 then [xreg rd, "(" ++ xreg rs1 ++ ")"] else [xreg rd, xreg rs2, "(" ++ xreg rs1 ++ ")"]

theorem disasmAmo_eq (rd rs1 rs2 : RegIdx) (f3 : Funct3) (f7 : Funct7) : disasmAmo rd rs1 rs2 f3 f7 =
    line (amoMnemonic ((f7 >>> 2).setWidth 5) ++ (if f3 = 0b011 then ".d" else ".w") ++ aqrl f7)
      (amoOperands rd rs1 rs2 ((f7 >>> 2).setWidth 5)) := by
  unfold disasmAmo amoMnemonic amoOperands
  dsimp only
  split <;> rfl

theorem amoOp_table (f5 : BitVec 5) :
    (∀ op ∈ amoOp f5, amoMnemonic f5 = atomicName op ∧ (op = .lr ↔ f5 = 0b00010) ∧ op ≠ .none) ∧
      (amoOp f5 ≠ none → Text.Avoids marks (amoMnemonic f5)) ∧ (amoOp f5 = none → '?' ∈ (amoMnemonic f5).toList) := by
  revert f5
  decide

theorem avoids_aqrl (f7 : Funct7) : Text.Avoids marks (aqrl f7) := by
  revert f7
  decide

theorem amoOp_ne_none (f5 : BitVec 5) : amoOp f5 ≠ none ↔ f5 ∈ amoCodes := by
  revert f5
  decide

/-- The signals of an atomic. -/
def amoSignals (row : MemWidth × AtomicOp) : ControlSignals :=
  { width := row.1, atomicOp := row.2, bSrc := .zero, memRead := true, memWrite := row.2 != .lr, regWrite := true }

theorem amoAssembly_eq {row : MemWidth × AtomicOp} (hop : row.2 ≠ .none) :
    assembly w (amoSignals row) = atomicAssembly w (amoSignals row) := if_pos hop

theorem decodeCommon_amoSignals (h : Inst.opcode w = Op.amo) : decodeCommon (decode w) =
    ((wordOrDouble (Inst.funct3 w)).bind fun width => (amoOp ((Inst.funct7 w >>> 2).setWidth 5)).map fun op =>
      (width, op)).map amoSignals := by
  rw [decodeCommon_amo h, shift_eq_funct5, decode_funct3, decode_funct7]
  cases wordOrDouble (Inst.funct3 w) with
  | none => rfl
  | some width => cases amoOp (funct5 (Inst.funct7 w)) <;> rfl

theorem amoOperands_text (rd rs1 rs2 : RegIdx) {op : AtomicOp} {f5 : BitVec 5} (hlr : op = .lr ↔ f5 = 0b00010) :
    amoOperands rd rs1 rs2 f5 =
      (if op = .lr then [.x rd, .location rs1] else [.x rd, .x rs2, .location rs1]).map Operand.text := by
  unfold amoOperands
  by_cases hl : op = .lr
  · rw [if_pos (hlr.mp hl), if_pos hl]
    rfl
  · rw [if_neg (mt hlr.mpr hl), if_neg hl]
    rfl

theorem avoids_amoOperands (rd rs1 rs2 : RegIdx) (f5 : BitVec 5) :
    ∀ s ∈ amoOperands rd rs1 rs2 f5, Text.Avoids marks s := by
  have hloc : Text.Avoids marks ("(" ++ xreg rs1 ++ ")") :=
    ((by decide : Text.Avoids marks "(").append (avoids_xreg rs1)).append (by decide)
  unfold amoOperands
  split <;> simp only [List.forall_mem_cons, List.not_mem_nil, false_imp_iff, implies_true, and_true]
  · exact ⟨avoids_xreg rd, hloc⟩
  · exact ⟨avoids_xreg rd, avoids_xreg rs2, hloc⟩

/-- An atomic of another width is refused, and printed as one of a word. -/
theorem agrees_amo (h : Inst.opcode w = Op.amo) : WordAgrees w pc ↔ ¬ Misprinted w := by
  have hop : Inst.opcode w ≠ Op.system := by rw [h]; decide
  have hmis : Misprinted w ↔
      Inst.funct3 w ≠ 2 ∧ Inst.funct3 w ≠ 3 ∧ amoOp ((Inst.funct7 w >>> 2).setWidth 5) ≠ none := by
    rw [amoOp_ne_none]
    simp +decide [Misprinted, h]
  have htext : disassembleWord w = disasmAmo (Inst.rd w) (Inst.rs1 w) (Inst.rs2 w) (Inst.funct3 w) (Inst.funct7 w) := by
    simp +decide only [disassembleWord, h, if_true, if_false]
  rw [disasmAmo_eq] at htext
  obtain ⟨hrow, havoid, hmark⟩ := amoOp_table ((Inst.funct7 w >>> 2).setWidth 5)
  refine agrees_of_table hop (decodeCommon_amoSignals h) (fun row ht => ?_) (fun ht => ?_) <;> rw [htext, hmis]
  · obtain ⟨width, hw, ht⟩ := Option.bind_eq_some_iff.mp ht
    obtain ⟨op, ho, rfl⟩ := Option.map_eq_some_iff.mp ht
    obtain ⟨hname, hlr, hnone⟩ := hrow op ho
    rw [hname, amoOperands_text _ _ _ hlr, amoAssembly_eq hnone]
    rcases wordOrDouble_some hw with ⟨hf, rfl⟩ | ⟨hf, rfl⟩ <;> rw [hf]
    · refine ⟨⟨_, rfl, ?_⟩, fun hm => hm.1 rfl⟩
      by_cases hl : op = .lr <;> simp only [amoSignals, hl, if_true, if_false] <;> rfl
    · refine ⟨⟨_, rfl, ?_⟩, fun hm => hm.2.1 rfl⟩
      by_cases hl : op = .lr <;> simp only [amoSignals, hl, if_true, if_false] <;> rfl
  · by_cases ho : amoOp ((Inst.funct7 w >>> 2).setWidth 5) = none
    · refine iff_of_true (unknown_line ?_) fun hm => hm.2.2 ho
      simp only [String.toList_append]
      exact List.mem_append_left _ (List.mem_append_left _ (hmark ho))
    · have hw : wordOrDouble (Inst.funct3 w) = none := by
        obtain ⟨op, hop'⟩ := Option.ne_none_iff_exists'.mp ho
        cases hw : wordOrDouble (Inst.funct3 w) with
        | none => rfl
        | some width =>
          rw [hw, hop'] at ht
          cases ht
      obtain ⟨h2, h3⟩ := wordOrDouble_none.mp hw
      refine misprint (avoids_line (((havoid ho).append ?_).append (avoids_aqrl _)) (avoids_amoOperands _ _ _ _))
          ⟨h2, h3, ho⟩
      split <;> decide

/-! ### Fused operations -/

def fusedName (o : FusedOp) (precision : String) : String :=
  match o with
  | .fmadd => "fmadd." ++ precision
  | .fmsub => "fmsub." ++ precision
  | .fnmsub => "fnmsub." ++ precision
  | .fnmadd => "fnmadd." ++ precision

def precisionName (single : Bool) : String := if single then "s" else "d"

/-- The signals of a fused operation; every format but the first counts as double. -/
def fusedSignals (o : FusedOp) (single : Bool) : ControlSignals :=
  { fpSignals .d o.alu with isRv32 := single, rs3Fp := true }

theorem disassembleWord_fused {o : FusedOp} (h : Inst.opcode w = o.opcode) : disassembleWord w =
    line (fusedName o (fpPrecision (Inst.funct7 w)))
      [freg (Inst.rd w), freg (Inst.rs1 w), freg (Inst.rs2 w), freg (Inst.rs3 w)] := by
  cases o <;> simp +decide only [disassembleWord, h, FusedOp.opcode, if_true, if_false] <;> rfl

theorem fusedAssembly_eq (o : FusedOp) (single : Bool) : assembly w (fusedSignals o single) =
    some ⟨fusedName o (precisionName single), [.f (Inst.rd w), .f (Inst.rs1 w), .f (Inst.rs2 w), .f (Inst.rs3 w)]⟩ := by
  cases o <;> cases single <;> rfl

theorem fpPrecision_cases (f7 : Funct7) : if f7 &&& 2 ≠ 0 then fpPrecision f7 = "s" ∧ fmtBits f7 ≠ 0
    else fpPrecision f7 = precisionName (fmtBits f7 = 0) := by
  revert f7
  decide

theorem fusedName_precisions (o : FusedOp) :
    (fusedName o "s").toList.length = (fusedName o "d").toList.length ∧ fusedName o "s" ≠ fusedName o "d" := by
  cases o <;> decide

/-- A format that is neither single nor double is decoded as double, and printed as single. -/
theorem agrees_fused (o : FusedOp) (h : Inst.opcode w = o.opcode) : WordAgrees w pc ↔ ¬ Misprinted w := by
  have hop : Inst.opcode w ≠ Op.system := by rw [h]; cases o <;> decide
  have hmis : Misprinted w ↔ Inst.funct7 w &&& 2 ≠ 0 := by cases o <;> simp +decide [Misprinted, h, FusedOp.opcode]
  have hp := fpPrecision_cases (Inst.funct7 w)
  have hc := decodeCommon_fused (d := decode w) o h
  have ha := fusedAssembly_eq (w := w) o (fmtBits (Inst.funct7 w) = 0)
  unfold WordAgrees
  rw [disassembleWord_fused h, hmis]
  by_cases h2 : Inst.funct7 w &&& 2 ≠ 0
  · rw [if_pos h2] at hp
    obtain ⟨hs, hf⟩ := hp
    refine iff_of_false (not_names_of_some hop hc fun a ha' => ?_) (not_not.mpr h2)
    obtain rfl := Option.some.inj (ha.symm.trans ha')
    rw [hs, decide_eq_false hf]
    obtain ⟨hlen, hne⟩ := fusedName_precisions o
    exact line_mnemonic_ne hlen hne _ _
  · rw [if_neg h2] at hp
    refine iff_of_true (names_of_some hop hc ha ?_) h2
    rw [hp]
    rfl

/-! ### System instructions -/

theorem names_ok {text : String} {c : ControlSignals} (hd : decodeInstruction w pc (decode w) = .ok c) :
    Names w pc text ↔ ∃ a, assembly w c = some a ∧ text = a.text := by
  unfold Names
  rw [hd]

theorem decodeInstruction_system (h : Inst.opcode w = Op.system) :
    decodeInstruction w pc (decode w) = decodeSystem w pc (decode w) := if_pos h

/-- A word that is an instruction as a whole is printed as it. -/
theorem names_named (h : Inst.opcode w = Op.system) (hn : NamedSystem w) :
    Names w pc (disasmSystem w (Inst.rd w) (Inst.rs1 w) (Inst.funct3 w)) := by
  have hd := decodeInstruction_system pc h
  rcases hn with rfl | rfl | rfl | rfl | rfl | hs
  · exact ⟨_, rfl, rfl⟩
  · trivial
  · exact ⟨_, rfl, rfl⟩
  · exact ⟨_, rfl, rfl⟩
  · exact ⟨_, rfl, rfl⟩
  · have hne : ∀ v : U32, v &&& 0xFE007FFF ≠ Inst.sfenceVma → w ≠ v := fun v hv heq => hv (heq ▸ hs)
    have hd : decodeInstruction w pc (decode w) = .ok { systemOp := .sfenceVma } := hd.trans (if_pos hs)
    have ht : disasmSystem w (Inst.rd w) (Inst.rs1 w) (Inst.funct3 w) =
        line "sfence.vma" [xreg (Inst.rs1 w), xreg (Inst.rs2 w)] := by
      unfold disasmSystem
      rw [if_neg (hne _ (by decide)), if_neg (hne _ (by decide)), if_neg (hne _ (by decide)),
          if_neg (hne _ (by decide)),
        if_neg (hne _ (by decide)), if_pos hs]
    rw [names_ok pc hd, ht]
    exact ⟨_, rfl, rfl⟩

theorem decodeSystem_unnamed (hn : ¬ NamedSystem w) :
    decodeSystem w pc (decode w) = if Inst.funct3 w ≠ 0 then .ok (csrSignals w) else .ok {} := by
  simp only [NamedSystem, not_or] at hn
  obtain ⟨hecall, hebreak, hmret, hsret, hwfi, hsfence⟩ := hn
  unfold decodeSystem
  rw [if_neg hsfence, if_neg hebreak, if_neg hmret, if_neg hsret, if_neg hwfi, if_neg hecall]
  rfl

/-- The text of a CSR access, the operand by `funct3` a register or an immediate. -/
theorem csrAssembly_eq (hn : ¬ NamedSystem w) (hf : ¬ (Inst.funct3 w = 0 ∨ Inst.funct3 w = 4)) :
    ∃ a, assembly w (csrSignals w) = some a ∧ disasmSystem w (Inst.rd w) (Inst.rs1 w) (Inst.funct3 w) = a.text := by
  simp only [NamedSystem, not_or] at hn
  obtain ⟨hecall, hebreak, hmret, hsret, hwfi, hsfence⟩ := hn
  have ha : assembly w (csrSignals w) = csrAssembly w (csrSignals w) := if_neg hecall
  have hop : (csrSignals w).csrOp = csrOpOf (Inst.funct3 w) := rfl
  rw [ha, csrAssembly, hop, disasmSystem, if_neg hecall, if_neg hebreak, if_neg hmret, if_neg hsret,
      if_neg hwfi, if_neg hsfence]
  rcases funct3_cases (Inst.funct3 w) with h | h | h | h | h | h | h | h
  case inl => exact absurd (Or.inl h) hf
  case inr.inr.inr.inr.inl => exact absurd (Or.inr h) hf
  all_goals
    rw [h]
    exact ⟨_, rfl, rfl⟩

/-- The accepted SYSTEM words that are no instruction have no text of one. -/
theorem agrees_system (h : Inst.opcode w = Op.system) : WordAgrees w pc ↔ ¬ Misprinted w := by
  have hmis : Misprinted w ↔ (Inst.funct3 w = 0 ∨ Inst.funct3 w = 4) ∧ ¬ NamedSystem w := by
    simp +decide [Misprinted, h]
  have htext : disassembleWord w = disasmSystem w (Inst.rd w) (Inst.rs1 w) (Inst.funct3 w) := by
    simp +decide only [disassembleWord, h, if_true, if_false]
  unfold WordAgrees
  rw [htext, hmis]
  by_cases hn : NamedSystem w
  · exact iff_of_true (names_named pc h hn) fun hm => hm.2 hn
  have hd := (decodeInstruction_system pc h).trans (decodeSystem_unnamed pc hn)
  by_cases hf : Inst.funct3 w = 0 ∨ Inst.funct3 w = 4
  · refine iff_of_false ?_ (not_not.mpr ⟨hf, hn⟩)
    have hecall : w ≠ Inst.ecall := fun heq => hn (Or.inl heq)
    rcases hf with hf | hf
    · rw [names_ok pc (hd.trans (if_neg (not_not.mpr hf)))]
      rintro ⟨a, ha, -⟩
      cases ha
    · rw [names_ok pc (hd.trans (if_pos (by rw [hf]; decide)))]
      rintro ⟨a, ha, -⟩
      have hnone : assembly w (csrSignals w) = none := by
        have hcsr : (csrSignals w).csrOp = .none := congrArg csrOpOf hf
        refine (if_neg hecall).trans ?_
        rw [csrAssembly, hcsr]
      rw [hnone] at ha
      cases ha
  · rw [names_ok pc (hd.trans (if_pos fun h0 => hf (Or.inl h0)))]
    exact iff_of_true (csrAssembly_eq hn hf) fun hm => hf hm.1

/-! ### Floating-point operations -/

/-- The groups of OP-FP, by the upper five bits of `funct7`. -/
def fpGroups : List (BitVec 5) :=
  [0b00000, 0b00001, 0b00010, 0b00011, 0b01011, 0b00100, 0b00101, 0b10100, 0b11100, 0b11000, 0b11010, 0b11110, 0b01000]

def fpArms : List Funct7 := fpGroups.flatMap fun f5 => [f5 ++ Fmt.s.bits, f5 ++ Fmt.d.bits]

/-- `decodeFp` on the three fields that it reads. -/
def decodeFpFields (f7 : Funct7) (f3 : Funct3) (rs2 : RegIdx) (c : ControlSignals) : Option ControlSignals :=
  decodeFp ⟨0, 0, 0, 0, rs2, f3, f7, 0⟩ c

/-- Text and signals of an OP-FP word agree, or differ as the word is misprinted. -/
def FpAgrees (w : U32) (f7 : Funct7) (f3 : Funct3) (rs2 : RegIdx) (c : ControlSignals) : Prop :=
  (∃ c' a, decodeFpFields f7 f3 rs2 c = some c' ∧ assembly w c' = some a ∧
      disasmOpFp (Inst.rd w) (Inst.rs1 w) rs2 f3 f7 = a.text ∧ ¬ FpMisprinted f7 rs2 f3) ∨
    (decodeFpFields f7 f3 rs2 c = none ∧
      (Unknown (disasmOpFp (Inst.rd w) (Inst.rs1 w) rs2 f3 f7) ↔ ¬ FpMisprinted f7 rs2 f3))

instance (f7 : Funct7) (rs2 : RegIdx) (f3 : Funct3) : Decidable (FpMisprinted f7 rs2 f3) := by
  unfold FpMisprinted
  infer_instance

/-- The operations that read no other field. -/
theorem fpAgrees_plain (fmt : Fmt) {f5 : BitVec 5}
    (h : f5 ∈ [0b00000#5, 0b00001, 0b00010, 0b00011, 0b01011, 0b11110, 0b01000]) :
    FpAgrees w (f5 ++ fmt.bits) (Inst.funct3 w) (Inst.rs2 w) (fpSignals fmt .add) := by
  simp only [List.mem_cons, List.not_mem_nil, or_false] at h
  have hm : ¬ FpMisprinted (f5 ++ fmt.bits) (Inst.rs2 w) (Inst.funct3 w) := by
    rcases h with rfl | rfl | rfl | rfl | rfl | rfl | rfl <;> cases fmt <;> simp +decide [FpMisprinted]
  rcases h with rfl | rfl | rfl | rfl | rfl | rfl | rfl <;> cases fmt <;> exact Or.inl ⟨_, _, rfl, rfl, rfl, hm⟩

/-- Sign injections and comparisons, by three values of `funct3`. -/
theorem fpAgrees_three (fmt : Fmt) {f5 : BitVec 5} (h : f5 = 0b00100 ∨ f5 = 0b10100) (f3 : Funct3) :
    FpAgrees w (f5 ++ fmt.bits) f3 (Inst.rs2 w) (fpSignals fmt .add) := by
  have hm : ¬ FpMisprinted (f5 ++ fmt.bits) (Inst.rs2 w) f3 := by
    rcases h with rfl | rfl <;> cases fmt <;> simp +decide [FpMisprinted]
  rcases funct3_cases f3 with rfl | rfl | rfl | rfl | rfl | rfl | rfl | rfl
  case inl | inr.inl | inr.inr.inl =>
    rcases h with rfl | rfl <;> cases fmt <;> exact Or.inl ⟨_, _, rfl, rfl, rfl, hm⟩
  all_goals
    rcases h with rfl | rfl <;> cases fmt <;> exact Or.inr ⟨rfl, iff_of_true (unknown_line (by decide)) hm⟩

theorem avoids_fpOperands (r s : RegIdx) :
    (∀ t ∈ [freg r, freg s], Text.Avoids marks t) ∧ (∀ t ∈ [xreg r, freg s], Text.Avoids marks t) ∧
      (∀ t ∈ [freg r, xreg s], Text.Avoids marks t) := by
  simp only [List.forall_mem_cons, List.not_mem_nil, false_imp_iff, implies_true, and_true]
  exact ⟨⟨avoids_freg r, avoids_freg s⟩, ⟨avoids_xreg r, avoids_freg s⟩, avoids_freg r, avoids_xreg s⟩

/-- FMAX is printed for every other `funct3`. -/
theorem fpAgrees_extremum (fmt : Fmt) (f3 : Funct3) :
    FpAgrees w (0b00101#5 ++ fmt.bits) f3 (Inst.rs2 w) (fpSignals fmt .add) := by
  have hm : FpMisprinted (0b00101#5 ++ fmt.bits) (Inst.rs2 w) f3 ↔ f3 ≠ 0 ∧ f3 ≠ 1 := by
    cases fmt <;> simp +decide [FpMisprinted]
  unfold FpAgrees
  rw [hm]
  have hops : ∀ t ∈ [freg (Inst.rd w), freg (Inst.rs1 w), freg (Inst.rs2 w)], Text.Avoids marks t := by
    simp only [List.forall_mem_cons, List.not_mem_nil, false_imp_iff, implies_true, and_true]
    exact ⟨avoids_freg _, avoids_freg _, avoids_freg _⟩
  rcases funct3_cases f3 with rfl | rfl | rfl | rfl | rfl | rfl | rfl | rfl
  case inl | inr.inl => cases fmt <;> exact Or.inl ⟨_, _, rfl, rfl, rfl, by decide⟩
  all_goals cases fmt <;> exact Or.inr ⟨rfl, misprint (avoids_line (by decide) hops) (by decide)⟩

/-- A move to an integer register is printed for every other `funct3`. -/
theorem fpAgrees_move (fmt : Fmt) (f3 : Funct3) :
    FpAgrees w (0b11100#5 ++ fmt.bits) f3 (Inst.rs2 w) (fpSignals fmt .add) := by
  have hm : FpMisprinted (0b11100#5 ++ fmt.bits) (Inst.rs2 w) f3 ↔ f3 ≠ 0 ∧ f3 ≠ 1 := by
    cases fmt <;> simp +decide [FpMisprinted]
  unfold FpAgrees
  rw [hm]
  have hops := (avoids_fpOperands (Inst.rd w) (Inst.rs1 w)).2.1
  rcases funct3_cases f3 with rfl | rfl | rfl | rfl | rfl | rfl | rfl | rfl
  case inl | inr.inl => cases fmt <;> exact Or.inl ⟨_, _, rfl, rfl, rfl, by decide⟩
  all_goals cases fmt <;> exact Or.inr ⟨rfl, misprint (avoids_line (by decide) hops) (by decide)⟩

/-- Four conversions to or from an integer; the last one is printed for every other `rs2`. -/
theorem fpAgrees_convert (fmt : Fmt) {f5 : BitVec 5} (h : f5 = 0b11000 ∨ f5 = 0b11010) (f3 : Funct3) (rs2 : RegIdx) :
    FpAgrees w (f5 ++ fmt.bits) f3 rs2 (fpSignals fmt .add) := by
  have hm : FpMisprinted (f5 ++ fmt.bits) rs2 f3 ↔ rs2 ≠ 0 ∧ rs2 ≠ 1 ∧ rs2 ≠ 2 ∧ rs2 ≠ 3 := by
    rcases h with rfl | rfl <;> cases fmt <;> simp +decide [FpMisprinted]
  obtain ⟨-, hto, hfrom⟩ := avoids_fpOperands (Inst.rd w) (Inst.rs1 w)
  unfold FpAgrees
  rw [hm]
  by_cases h0 : rs2 = 0
  · subst h0
    rcases h with rfl | rfl <;> cases fmt <;> exact Or.inl ⟨_, _, rfl, rfl, rfl, by decide⟩
  by_cases h1 : rs2 = 1
  · subst h1
    rcases h with rfl | rfl <;> cases fmt <;> exact Or.inl ⟨_, _, rfl, rfl, rfl, by decide⟩
  by_cases h2 : rs2 = 2
  · subst h2
    rcases h with rfl | rfl <;> cases fmt <;> exact Or.inl ⟨_, _, rfl, rfl, rfl, by decide⟩
  by_cases h3 : rs2 = 3
  · subst h3
    rcases h with rfl | rfl <;> cases fmt <;> exact Or.inl ⟨_, _, rfl, rfl, rfl, by decide⟩
  have hselect : ∀ a b c d : AluOp, cvtSelect rs2 a b c d = none := by
    intro a b c d
    rw [cvtSelect, if_neg h0, if_neg h1, if_neg h2, if_neg h3]
  have hvariant : cvtVariant rs2 = "lu" := by rw [cvtVariant, if_neg h0, if_neg h1, if_neg h2]
  refine Or.inr ⟨?_, misprint ?_ ⟨h0, h1, h2, h3⟩⟩
  · rcases h with rfl | rfl <;> cases fmt <;> exact congrArg (Option.map _) (hselect _ _ _ _)
  · rcases h with rfl | rfl
    · have ht : disasmOpFp (Inst.rd w) (Inst.rs1 w) rs2 f3 ((0b11000 : BitVec 5) ++ fmt.bits) =
          line ("fcvt." ++ cvtVariant rs2 ++ "." ++ precisionName (fmt = .s))
            [xreg (Inst.rd w), freg (Inst.rs1 w)] := by
        cases fmt <;> rfl
      rw [ht, hvariant]
      exact avoids_line (by cases fmt <;> decide) hto
    · have ht : disasmOpFp (Inst.rd w) (Inst.rs1 w) rs2 f3 ((0b11010 : BitVec 5) ++ fmt.bits) =
          line ("fcvt." ++ precisionName (fmt = .s) ++ "." ++ cvtVariant rs2)
            [freg (Inst.rd w), xreg (Inst.rs1 w)] := by
        cases fmt <;> rfl
      rw [ht, hvariant]
      exact avoids_line (by cases fmt <;> decide) hfrom

/-- Every group is one of the above. -/
theorem fpAgrees_group (fmt : Fmt) {f5 : BitVec 5} (h : f5 ∈ fpGroups) :
    FpAgrees w (f5 ++ fmt.bits) (Inst.funct3 w) (Inst.rs2 w) (fpSignals fmt .add) := by
  simp only [fpGroups, List.mem_cons, List.not_mem_nil, or_false] at h
  rcases h with rfl | rfl | rfl | rfl | rfl | rfl | rfl | rfl | rfl | rfl | rfl | rfl | rfl
  case inr.inr.inr.inr.inr.inl => exact fpAgrees_three fmt (Or.inl rfl) _
  case inr.inr.inr.inr.inr.inr.inl => exact fpAgrees_extremum fmt _
  case inr.inr.inr.inr.inr.inr.inr.inl => exact fpAgrees_three fmt (Or.inr rfl) _
  case inr.inr.inr.inr.inr.inr.inr.inr.inl => exact fpAgrees_move fmt _
  case inr.inr.inr.inr.inr.inr.inr.inr.inr.inl => exact fpAgrees_convert fmt (Or.inl rfl) _ _
  case inr.inr.inr.inr.inr.inr.inr.inr.inr.inr.inl => exact fpAgrees_convert fmt (Or.inr rfl) _ _
  all_goals exact fpAgrees_plain fmt (by decide)

/-- Outside the groups both tables end in their last arm. -/
theorem fp_unlisted {f7 : Funct7} (h : f7 ∉ fpArms) (rd rs1 rs2 : RegIdx) (f3 : Funct3) (c : ControlSignals) :
    decodeFpFields f7 f3 rs2 c = none ∧ disasmOpFp rd rs1 rs2 f3 f7 = "fp?? (funct7=" ++ hex f7.toNat 2 ++ ")" ∧
      ¬ FpMisprinted f7 rs2 f3 := by
  simp only [fpArms, fpGroups, List.flatMap_cons, List.flatMap_nil, List.cons_append, List.nil_append, List.mem_cons,
    List.not_mem_nil, or_false, not_or, Fmt.bits, BitVec.reduceAppend] at h
  refine ⟨?_, ?_, ?_⟩
  · unfold decodeFpFields decodeFp
    simp [h]
  · unfold disasmOpFp
    simp [h]
  · unfold FpMisprinted
    simp [h]

theorem agrees_fields {c : ControlSignals} (hop : Inst.opcode w ≠ Op.system)
    (hc : decodeCommon (decode w) = decodeFpFields (Inst.funct7 w) (Inst.funct3 w) (Inst.rs2 w) c)
    (ha : FpAgrees w (Inst.funct7 w) (Inst.funct3 w) (Inst.rs2 w) c) :
    Names w pc (disasmOpFp (Inst.rd w) (Inst.rs1 w) (Inst.rs2 w) (Inst.funct3 w) (Inst.funct7 w)) ↔
      ¬ FpMisprinted (Inst.funct7 w) (Inst.rs2 w) (Inst.funct3 w) := by
  rcases ha with ⟨c', a, hsome, ha, htext, hm⟩ | ⟨hnone, hu⟩
  · exact iff_of_true (names_of_some hop (hc.trans hsome) ha htext) hm
  · exact (names_iff_unknown hop (hc.trans hnone)).trans hu

theorem mem_fpArms {f7 : Funct7} (h : f7 ∈ fpArms) : ∃ f5 ∈ fpGroups, ∃ fmt : Fmt, f7 = f5 ++ fmt.bits := by
  obtain ⟨f5, hf5, h⟩ := List.mem_flatMap.mp h
  simp only [List.mem_cons, List.not_mem_nil, or_false] at h
  rcases h with h | h
  · exact ⟨f5, hf5, .s, h⟩
  · exact ⟨f5, hf5, .d, h⟩

theorem agrees_fp (h : Inst.opcode w = Op.fp) : WordAgrees w pc ↔ ¬ Misprinted w := by
  have hop : Inst.opcode w ≠ Op.system := by rw [h]; decide
  have hmis :
      Misprinted w ↔ FpMisprinted (Inst.funct7 w) (Inst.rs2 w) (Inst.funct3 w) := by simp +decide [Misprinted, h]
  have htext :
      disassembleWord w = disasmOpFp (Inst.rd w) (Inst.rs1 w) (Inst.rs2 w) (Inst.funct3 w) (Inst.funct7 w) := by
    simp +decide only [disassembleWord, h, if_true, if_false]
  unfold WordAgrees
  rw [htext, hmis]
  by_cases ha : Inst.funct7 w ∈ fpArms
  · obtain ⟨f5, hf5, fmt, h7⟩ := mem_fpArms ha
    have hfmt : fmtBits (decode w).funct7 = fmt.bits := by rw [decode_funct7, h7, fmtBits_append]
    refine agrees_fields pc hop (decodeCommon_fp fmt h hfmt) ?_
    rw [h7]
    exact fpAgrees_group fmt hf5
  · obtain ⟨-, ht, hm⟩ := fp_unlisted ha (Inst.rd w) (Inst.rs1 w) (Inst.rs2 w) (Inst.funct3 w) (fpSignals .s .add)
    rw [ht]
    have hc : decodeCommon (decode w) = none := by
      by_cases hg : fmtBits (Inst.funct7 w) = 0 ∨ fmtBits (Inst.funct7 w) = 1
      · obtain ⟨fmt, hfmt⟩ : ∃ fmt : Fmt, fmtBits (Inst.funct7 w) = fmt.bits := by
          rcases hg with hg | hg
          · exact ⟨.s, hg⟩
          · exact ⟨.d, hg⟩
        exact (decodeCommon_fp fmt h hfmt).trans (fp_unlisted ha 0 0 _ _ _).1
      · exact decodeCommon_fp_none h hg
    have hmark : Unknown ("fp?? (funct7=" ++ hex (Inst.funct7 w).toNat 2 ++ ")") := by
      rw [String.append_assoc]
      exact unknown_append (by decide)
    exact (names_iff_unknown hop hc).trans (iff_of_true hmark hm)

/-! ### Every word -/

/-- Opcodes of no group. -/
theorem agrees_other (hop : Inst.opcode w ≠ Op.system) (hc : decodeCommon (decode w) = none) (hm : ¬ Misprinted w)
    (htext : disassembleWord w = unknown w) : WordAgrees w pc ↔ ¬ Misprinted w := by
  unfold WordAgrees
  rw [htext]
  exact iff_of_true ((names_iff_unknown hop hc).mpr (unknown_unknown w)) hm

theorem agrees_word : WordAgrees w pc ↔ ¬ Misprinted w := by
  by_cases hlui : Inst.opcode w = Op.lui ∨ Inst.opcode w = Op.auipc
  · exact agrees_upper pc hlui
  by_cases hjump : Inst.opcode w = Op.jal ∨ Inst.opcode w = Op.jalr
  · exact agrees_jump pc hjump
  by_cases hbranch : Inst.opcode w = Op.branch
  · exact agrees_branch pc hbranch
  by_cases hload : Inst.opcode w = Op.load
  · exact agrees_load pc hload
  by_cases hstore : Inst.opcode w = Op.store
  · exact agrees_store pc hstore
  by_cases himm : Inst.opcode w = Op.imm
  · exact agrees_imm pc himm
  by_cases himm32 : Inst.opcode w = Op.imm32
  · exact agrees_imm32 pc himm32
  by_cases hreg : Inst.opcode w = Op.reg ∨ Inst.opcode w = Op.reg32
  · exact agrees_reg pc hreg
  by_cases hamo : Inst.opcode w = Op.amo
  · exact agrees_amo pc hamo
  by_cases hloadFp : Inst.opcode w = Op.loadFp
  · exact agrees_loadFp pc hloadFp
  by_cases hstoreFp : Inst.opcode w = Op.storeFp
  · exact agrees_storeFp pc hstoreFp
  by_cases hfp : Inst.opcode w = Op.fp
  · exact agrees_fp pc hfp
  by_cases hmadd : Inst.opcode w = Op.fmadd
  · exact agrees_fused pc .fmadd hmadd
  by_cases hmsub : Inst.opcode w = Op.fmsub
  · exact agrees_fused pc .fmsub hmsub
  by_cases hnmsub : Inst.opcode w = Op.fnmsub
  · exact agrees_fused pc .fnmsub hnmsub
  by_cases hnmadd : Inst.opcode w = Op.fnmadd
  · exact agrees_fused pc .fnmadd hnmadd
  by_cases hmisc : Inst.opcode w = Op.miscMem
  · exact agrees_miscMem pc hmisc
  by_cases hsystem : Inst.opcode w = Op.system
  · exact agrees_system pc hsystem
  simp only [not_or] at hlui hjump hreg
  refine agrees_other pc hsystem ?_ ?_ ?_
  · simp only [decodeCommon, decode_opcode, hlui, hjump, hbranch, hload, hstore, himm, himm32, hreg, hamo,
      hloadFp, hstoreFp,
      hfp, hmadd, hmsub, hnmsub, hnmadd, hmisc, or_self, if_false]
  · simp only [Misprinted, hbranch, himm32, hmadd, hmsub, hnmsub, hnmadd, hsystem, hloadFp, hstoreFp, hreg,
      hfp, hamo, hmisc,
      or_self, false_and, not_false_eq_true]
  · simp only [disassembleWord, hlui, hjump, hbranch, hload, hstore, himm, himm32, hreg, hamo, hloadFp, hstoreFp,
      hfp, hmadd, hmsub, hnmsub, hnmadd, hmisc, hsystem, if_false]

end Groups

/-! ### Instructions -/

/-- A compressed word is printed as its expansion, and one that has none as unknown. -/
theorem agrees_compressed {inst : U32} (pc : U64) (h : inst &&& 0x3 ≠ 0x3) :
    Agrees inst pc ↔ ¬ Misprinted (instructionWord inst) := by
  have hw : instructionWord inst = Rvc.expand (inst.setWidth 16) := if_pos h
  unfold Agrees disassemble
  rw [if_pos h, hw]
  by_cases h0 : Rvc.expand (inst.setWidth 16) = 0
  · rw [if_pos h0, h0]
    exact iff_of_true ((names_iff_unknown (by decide) rfl).mpr (unknown_unknown inst)) (by simp +decide [Misprinted])
  · rw [if_neg h0]
    exact agrees_word pc

/-- Disassembler and decoder agree about an instruction exactly if its word is not one of the misprinted ones. -/
theorem agrees_iff (inst : U32) (pc : U64) : Agrees inst pc ↔ ¬ Misprinted (instructionWord inst) := by
  by_cases h : inst &&& 0x3 ≠ 0x3
  · exact agrees_compressed pc h
  · have hw : instructionWord inst = inst := if_neg h
    unfold Agrees disassemble
    rw [if_neg h, hw]
    exact agrees_word pc

/-- `0x0200109B` shifts by none of its five bits and is printed with 32; `0x00001007` loads a half, which the
decoder refuses, and is printed as FLD. -/
theorem agrees_fails :
    ((∃ c, decodeInstruction 0x0200109B 0 (decode 0x0200109B) = .ok c ∧ c.alu = .sll ∧ c.isRv32 = true) ∧
        disassemble 0x0200109B = "slliw ra, zero, 32" ∧ ¬ Agrees 0x0200109B 0) ∧
      decodeInstruction 0x00001007 0 (decode 0x00001007) = .error (.illegalInstruction 0x00001007) ∧
        disassemble 0x00001007 = "fld ft0, 0(zero)" ∧ ¬ Agrees 0x00001007 0 := by
  refine ⟨⟨⟨_, rfl, rfl, rfl⟩, by decide, ?_⟩, rfl, by decide, ?_⟩
  · exact fun h => (agrees_word 0).mp h (by simp +decide [Misprinted])
  · exact fun h => (agrees_word 0).mp h (by simp +decide [Misprinted])

end Disasm

end Rvsim
