/-
# The expansion keeps every compressed instruction

`Rvc.expand` against the compressed instruction set: a word that some legal
compressed instruction encodes to becomes the word of the instruction it
stands for, and every other word becomes zero, which the decoder refuses. The
one exception is C.SLLI to `x0`: a hint of the manual, it becomes zero too.

Key definitions: `Rvc.Kept`.
Key theorems: `Rvc.expand_encode`, `Rvc.exists_of_expand`, `Rvc.expand_exact`.
-/
import Rvsim.Rvc
import Rvsim.Compressed
import Rvsim.DecodeExact
import Mathlib.Tactic.IntervalCases

namespace Rvsim

open Isa

namespace Rvc

/-! ### Fields of a compressed word -/

theorem field_eq (w : U16) (lo : Nat) {k : Nat} (hk : k < 16) :
    field w lo (((1 : U16) <<< k) - 1) = (w.extractLsb' lo k).setWidth 16 := by
  refine Masks.ext_bits fun i hi => ?_
  rw [field, BitVec.getLsbD_and, Masks.getLsbD_low hk, BitVec.getLsbD_ushiftRight, BitVec.getLsbD_setWidth,
    BitVec.getLsbD_extractLsb', Bool.and_comm]
  simp [hi]

/-- A part of a part. -/
theorem extract_extract {n : Nat} (w : BitVec n) (lo k : Nat) {i j : Nat} (h : i + j ≤ k) :
    w.extractLsb' (lo + i) j = (w.extractLsb' lo k).extractLsb' i j := by
  refine Masks.ext_bits fun b hb => ?_
  rw [BitVec.getLsbD_extractLsb', BitVec.getLsbD_extractLsb', BitVec.getLsbD_extractLsb', Nat.add_assoc]
  have hlt : i + b < k := by omega
  simp [hb, hlt]

theorem getLsbD_cword (f3 : Funct3) (body : BitVec 11) (q : BitVec 2) (i : Nat) :
    (cword f3 body q).getLsbD i =
      if i < 2 then q.getLsbD i else if i < 13 then body.getLsbD (i - 2) else f3.getLsbD (i - 13) := by
  unfold cword
  rw [BitVec.getLsbD_append (x := f3 ++ body) (y := q), BitVec.getLsbD_append]
  grind

section Word

variable (f3 : Funct3) (body : BitVec 11) (q : BitVec 2)

theorem extract_body {lo k : Nat} (h : lo + k ≤ 11) :
    (cword f3 body q).extractLsb' (2 + lo) k = body.extractLsb' lo k := by
  refine Masks.ext_bits fun i hi => ?_
  rw [BitVec.getLsbD_extractLsb', BitVec.getLsbD_extractLsb', getLsbD_cword, if_neg (by omega), if_pos (by omega)]
  congr 2
  omega

theorem field_funct3 : field (cword f3 body q) 13 0x7 = f3.setWidth 16 := by
  have hf : (cword f3 body q).extractLsb' 13 3 = f3 := by
    refine Masks.ext_bits fun i hi => ?_
    rw [BitVec.getLsbD_extractLsb', getLsbD_cword, if_neg (by omega), if_neg (by omega)]
    simp [hi]
  rw [show (0x7 : U16) = ((1 : U16) <<< 3) - 1 from rfl, field_eq _ _ (by omega), hf]

theorem quadrant_eq : cword f3 body q &&& 0x3 = q.setWidth 16 := by
  refine Masks.ext_bits fun i hi => ?_
  rw [show (0x3 : U16) = ((1 : U16) <<< 2) - 1 from rfl, BitVec.getLsbD_and, Masks.getLsbD_low (by omega),
    getLsbD_cword, BitVec.getLsbD_setWidth]
  by_cases h : i < 2
  · simp [h, hi]
  · simp [h, BitVec.getLsbD_of_ge q i (by omega)]

variable {body}

/-- Bits `i` to `i + j` of the part of the layout that starts at `lo`. -/
theorem field_part {lo n m : Nat} {mask : U16} {p : BitVec n} (hp : body.extractLsb' lo n = p) (i j : Nat)
    (hm : m = 2 + (lo + i)) (hmask : mask = ((1 : U16) <<< j) - 1) (hj : i + j ≤ n) (hn : lo + n ≤ 11) :
    field (cword f3 body q) m mask = (p.extractLsb' i j).setWidth 16 := by
  rw [hm, hmask, field_eq _ _ (by omega), extract_body f3 body q (by omega), extract_extract body lo n hj, hp]

/-- A whole part of the layout. -/
theorem field_whole {lo n m : Nat} {mask : U16} {p : BitVec n} (hp : body.extractLsb' lo n = p) (hm : m = 2 + lo)
    (hmask : mask = ((1 : U16) <<< n) - 1) (hn : lo + n ≤ 11) : field (cword f3 body q) m mask = p.setWidth 16 := by
  rw [hm, hmask, field_eq _ _ (by omega), extract_body f3 body q hn, hp]

end Word

theorem exists_cword (w : U16) : ∃ f3 body q, w = cword f3 body q := by
  refine ⟨w.extractLsb' 13 3, w.extractLsb' 2 11, w.extractLsb' 0 2, Masks.ext_bits fun i hi => ?_⟩
  simp only [getLsbD_cword, BitVec.getLsbD_extractLsb']
  grind

/-! ### Layouts -/

section Layout

theorem getLsbD_layI (a : BitVec 1) (r b : BitVec 5) (i : Nat) : (layI a r b).getLsbD i =
    if i < 5 then b.getLsbD i else if i < 10 then r.getLsbD (i - 5) else a.getLsbD (i - 10) := by
  unfold layI
  rw [BitVec.getLsbD_append (x := a ++ r) (y := b), BitVec.getLsbD_append]
  grind

theorem getLsbD_layM (a r : BitVec 3) (b : BitVec 2) (s : BitVec 3) (i : Nat) : (layM a r b s).getLsbD i =
    if i < 3 then s.getLsbD i else if i < 5 then b.getLsbD (i - 3)
    else if i < 8 then r.getLsbD (i - 5) else a.getLsbD (i - 8) := by
  unfold layM
  rw [BitVec.getLsbD_append (x := a ++ r ++ b) (y := s), BitVec.getLsbD_append (x := a ++ r) (y := b),
    BitVec.getLsbD_append]
  grind

theorem layI_parts (a : BitVec 1) (r b : BitVec 5) :
    (layI a r b).extractLsb' 10 1 = a ∧ (layI a r b).extractLsb' 5 5 = r ∧ (layI a r b).extractLsb' 0 5 = b := by
  refine ⟨?_, ?_, ?_⟩ <;> refine Masks.ext_bits fun i hi => ?_ <;> rw [BitVec.getLsbD_extractLsb', getLsbD_layI]
  · rw [if_neg (by omega), if_neg (by omega)]
    simp [hi]
  · rw [if_neg (by omega), if_pos (by omega)]
    simp [hi]
  · rw [if_pos (by omega)]
    simp [hi]

theorem layM_parts (a r : BitVec 3) (b : BitVec 2) (s : BitVec 3) :
    (layM a r b s).extractLsb' 8 3 = a ∧ (layM a r b s).extractLsb' 5 3 = r ∧
      (layM a r b s).extractLsb' 3 2 = b ∧ (layM a r b s).extractLsb' 0 3 = s := by
  refine ⟨?_, ?_, ?_, ?_⟩ <;> refine Masks.ext_bits fun i hi => ?_ <;> rw [BitVec.getLsbD_extractLsb', getLsbD_layM]
  · rw [if_neg (by omega), if_neg (by omega), if_neg (by omega)]
    simp [hi]
  · rw [if_neg (by omega), if_neg (by omega), if_pos (by omega)]
    simp [hi]
  · rw [if_neg (by omega), if_pos (by omega)]
    simp [hi]
  · rw [if_pos (by omega)]
    simp [hi]

/-- Two layouts are read back by their parts. -/
theorem append_parts {m n : Nat} (a : BitVec m) (b : BitVec n) :
    (a ++ b).extractLsb' n m = a ∧ (a ++ b).extractLsb' 0 n = b :=
  ⟨BitVec.extractLsb'_append_eq_left, BitVec.extractLsb'_append_eq_right⟩

theorem layS_parts (a : BitVec 6) (r : RegIdx) :
    (layS a r).extractLsb' 5 6 = a ∧ (layS a r).extractLsb' 0 5 = r := append_parts a r

theorem layW_parts (a : BitVec 8) (r : BitVec 3) :
    (layW a r).extractLsb' 3 8 = a ∧ (layW a r).extractLsb' 0 3 = r := append_parts a r

end Layout

/-! ### The 32-bit words -/

section Words

variable (f7 : Funct7) (rs2 rs1 rd : RegIdx) (f3 : Funct3) (o : Opcode) (imm : BitVec 12)

theorem wordRType_eq :
    wordRType (f7.setWidth 32) (rs2.setWidth 32) (rs1.setWidth 32) (f3.setWidth 32) (rd.setWidth 32) (op o) =
      Isa.word f7 rs2 rs1 f3 rd o := by
  refine Masks.ext_bits fun i hi => ?_
  rw [getLsbD_word]
  simp only [wordRType, op, BitVec.getLsbD_or, BitVec.getLsbD_shiftLeft, BitVec.getLsbD_setWidth, hi, decide_true,
    Bool.true_and]
  grind

theorem wordIType_eq :
    wordIType (imm.setWidth 32) (rs1.setWidth 32) (f3.setWidth 32) (rd.setWidth 32) (op o) = wordI imm rs1 f3 rd o := by
  refine Masks.ext_bits fun i hi => ?_
  rw [wordI, getLsbD_word]
  simp only [wordIType, op, BitVec.getLsbD_or, BitVec.getLsbD_shiftLeft, BitVec.getLsbD_setWidth,
    BitVec.getLsbD_extractLsb', hi, decide_true, Bool.true_and]
  grind

theorem wordSType_eq :
    wordSType (imm.setWidth 16) (rs2.setWidth 32) (rs1.setWidth 32) (f3.setWidth 32) (op o) =
        wordS imm rs2 rs1 f3 o := by
  have hhigh : ((imm.setWidth 16 : U16) >>> 5).setWidth 32 = ((imm.extractLsb' 5 7).setWidth 32 : U32) := by
    refine Masks.ext_bits fun i hi => ?_
    simp only [BitVec.getLsbD_setWidth, BitVec.getLsbD_ushiftRight, BitVec.getLsbD_extractLsb']
    grind
  have hlow : ((imm.setWidth 16 : U16) &&& 0x1F).setWidth 32 = ((imm.extractLsb' 0 5).setWidth 32 : U32) := by
    refine Masks.ext_bits fun i hi => ?_
    rw [show (0x1F : U16) = ((1 : U16) <<< 5) - 1 from rfl, BitVec.getLsbD_setWidth, BitVec.getLsbD_and,
      Masks.getLsbD_low (by omega)]
    simp only [BitVec.getLsbD_setWidth, BitVec.getLsbD_extractLsb']
    grind
  rw [wordSType, hhigh, hlow]
  exact wordRType_eq (imm.extractLsb' 5 7) rs2 rs1 (imm.extractLsb' 0 5) f3 o

/-- The word of LUI: the immediate over the register and the opcode. -/
theorem wordUType_eq (x : BitVec 20) :
    ((x.setWidth 32 : U32) <<< 12) ||| ((rd.setWidth 32 : U32) <<< 7) ||| op o = wordU x rd o := by
  refine Masks.ext_bits fun i hi => ?_
  rw [wordU, getLsbD_word]
  simp only [op, BitVec.getLsbD_or, BitVec.getLsbD_shiftLeft, BitVec.getLsbD_setWidth, BitVec.getLsbD_extractLsb', hi,
    decide_true, Bool.true_and]
  grind

variable {f7 rs2 rs1 rd f3 o imm} {x y r f d : U32} {z : U16}

theorem wordIType_of (hx : x = imm.setWidth 32) (hr : r = rs1.setWidth 32) (hf : f = f3.setWidth 32)
    (hd : d = rd.setWidth 32) : wordIType x r f d (op o) = wordI imm rs1 f3 rd o := by
  rw [hx, hr, hf, hd, wordIType_eq]

theorem wordRType_of (hx : x = f7.setWidth 32) (hy : y = rs2.setWidth 32) (hr : r = rs1.setWidth 32)
    (hf : f = f3.setWidth 32) (hd : d = rd.setWidth 32) : wordRType x y r f d (op o) = Isa.word f7 rs2 rs1 f3 rd o := by
  rw [hx, hy, hr, hf, hd, wordRType_eq]

theorem wordSType_of (hz : z = imm.setWidth 16) (hy : y = rs2.setWidth 32) (hr : r = rs1.setWidth 32)
    (hf : f = f3.setWidth 32) : wordSType z y r f (op o) = wordS imm rs2 rs1 f3 o := by
  rw [hz, hy, hr, hf, wordSType_eq]

end Words

/-! ### Registers and immediates -/

section Parts

variable (f3 : Funct3) (q : BitVec 2) {body : BitVec 11}

theorem regShort_eq {lo m : Nat} {r : BitVec 3} (hp : body.extractLsb' lo 3 = r) (hm : m = 2 + lo) (hn : lo + 3 ≤ 11) :
    regShort (cword f3 body q) m = (short r).setWidth 32 := by
  have hf : field (cword f3 body q) m 0x7 = r.setWidth 16 := field_whole f3 q hp hm rfl hn
  rw [regShort, hf]
  clear hp hf
  revert r
  decide

theorem reg_eq {lo m : Nat} {r : RegIdx} (hp : body.extractLsb' lo 5 = r) (hm : m = 2 + lo) (hn : lo + 5 ≤ 11) :
    reg (cword f3 body q) m = r.setWidth 32 := by
  have hf : field (cword f3 body q) m 0x1F = r.setWidth 16 := field_whole f3 q hp hm rfl hn
  rw [reg, hf]
  clear hp hf
  revert r
  decide

/-- The offset of C.LW and C.SW. -/
theorem offsetW (r s : BitVec 3) (offset : BitVec 5) :
    let w := cword f3 (layM (CAccess.word.high offset) r (CAccess.word.low offset) s) q
    (field w 6 1 <<< 2) ||| (field w 10 0x7 <<< 3) ||| (field w 5 1 <<< 6) =
      (CAccess.word.bytes offset).setWidth 16 := by
  intro w
  obtain ⟨ha, -, hb, -⟩ := layM_parts (CAccess.word.high offset) r (CAccess.word.low offset) s
  have h6 : field w 6 1 = ((CAccess.word.low offset).extractLsb' 1 1).setWidth 16 :=
    field_part f3 q hb 1 1 rfl rfl (by omega) (by omega)
  have h10 : field w 10 0x7 = (CAccess.word.high offset).setWidth 16 := field_whole f3 q ha rfl rfl (by omega)
  have h5 : field w 5 1 = ((CAccess.word.low offset).extractLsb' 0 1).setWidth 16 :=
    field_part f3 q hb 0 1 rfl rfl (by omega) (by omega)
  have hbits : ∀ o : BitVec 5,
      (((CAccess.word.low o).extractLsb' 1 1).setWidth 16 <<< 2) ||| ((CAccess.word.high o).setWidth 16 <<< 3) |||
        (((CAccess.word.low o).extractLsb' 0 1).setWidth 16 <<< 6) = ((CAccess.word.bytes o).setWidth 16 : U16) := by
    decide
  rw [h6, h10, h5, hbits]

/-- The offset of C.LD, C.SD, C.FLD and C.FSD. -/
theorem offsetD (r s : BitVec 3) (offset : BitVec 5) :
    let w := cword f3 (layM (CAccess.double.high offset) r (CAccess.double.low offset) s) q
    (field w 10 0x7 <<< 3) ||| (field w 5 0x3 <<< 6) = (CAccess.double.bytes offset).setWidth 16 := by
  intro w
  obtain ⟨ha, -, hb, -⟩ := layM_parts (CAccess.double.high offset) r (CAccess.double.low offset) s
  have h10 : field w 10 0x7 = (CAccess.double.high offset).setWidth 16 := field_whole f3 q ha rfl rfl (by omega)
  have h5 : field w 5 0x3 = (CAccess.double.low offset).setWidth 16 := field_whole f3 q hb rfl rfl (by omega)
  have hbits : ∀ o : BitVec 5,
      ((CAccess.double.high o).setWidth 16 <<< 3) ||| ((CAccess.double.low o).setWidth 16 <<< 6) =
        ((CAccess.double.bytes o).setWidth 16 : U16) := by decide
  rw [h10, h5, hbits]

/-- The six-bit immediate of the CI format, wherever the layout puts its bits 5 and 4 to 0. -/
theorem immCi_eq {imm : BitVec 6} (h5 : body.extractLsb' 10 1 = imm.extractLsb' 5 1)
    (h0 : body.extractLsb' 0 5 = imm.extractLsb' 0 5) : immCi (cword f3 body q) = imm.setWidth 16 := by
  have h2 : field (cword f3 body q) 2 0x1F = (imm.extractLsb' 0 5).setWidth 16 := field_whole f3 q h0 rfl rfl (by omega)
  have h12 : field (cword f3 body q) 12 1 = (imm.extractLsb' 5 1).setWidth 16 := field_whole f3 q h5 rfl rfl (by omega)
  have hbits : ∀ x : BitVec 6,
      (x.extractLsb' 0 5).setWidth 16 ||| ((x.extractLsb' 5 1).setWidth 16 <<< 5) = (x.setWidth 16 : U16) := by decide
  rw [immCi, h2, h12, hbits]

theorem immCiSigned_eq {imm : BitVec 6} (h5 : body.extractLsb' 10 1 = imm.extractLsb' 5 1)
    (h0 : body.extractLsb' 0 5 = imm.extractLsb' 0 5) : immCiSigned (cword f3 body q) = imm.signExtend 32 := by
  have hbits : ∀ x : BitVec 6, signExtend ((x.setWidth 16 : U16).setWidth 32) 6 = (x.signExtend 32 : U32) := by decide
  rw [immCiSigned, immCi_eq f3 q h5 h0, hbits]

end Parts

theorem immI_parts (imm : BitVec 6) (r : RegIdx) :
    (immI imm r).extractLsb' 10 1 = imm.extractLsb' 5 1 ∧ (immI imm r).extractLsb' 5 5 = r ∧
      (immI imm r).extractLsb' 0 5 = imm.extractLsb' 0 5 := layI_parts _ r _

theorem immM_parts (o : BitVec 2) (imm : BitVec 6) (r : BitVec 3) :
    (immM o imm r).extractLsb' 10 1 = imm.extractLsb' 5 1 ∧ (immM o imm r).extractLsb' 8 2 = o ∧
      (immM o imm r).extractLsb' 5 3 = r ∧ (immM o imm r).extractLsb' 0 5 = imm.extractLsb' 0 5 := by
  obtain ⟨ha, hr, hb, hs⟩ :=
    layM_parts (imm.extractLsb' 5 1 ++ o) r (imm.extractLsb' 3 2) (imm.extractLsb' 0 3)
  obtain ⟨hhigh, hlow⟩ := append_parts (imm.extractLsb' 5 1) o
  refine ⟨?_, ?_, hr, ?_⟩
  · exact (extract_extract (immM o imm r) 8 3 (i := 2) (j := 1) (by omega)).trans ((congrArg _ ha).trans hhigh)
  · exact (extract_extract (immM o imm r) 8 3 (i := 0) (j := 2) (by omega)).trans ((congrArg _ ha).trans hlow)
  · unfold immM
    refine Masks.ext_bits fun i hi => ?_
    have h3 := congrArg (fun x : BitVec 3 => x.getLsbD i) hs
    have h2 := congrArg (fun x : BitVec 2 => x.getLsbD (i - 3)) hb
    simp only [BitVec.getLsbD_extractLsb', Nat.zero_add] at h3 h2 ⊢
    by_cases h : i < 3
    · simpa [h, hi] using h3
    · have hi' : 3 + (i - 3) = i := by omega
      rw [hi'] at h2
      simpa [show i - 3 < 2 by omega, hi] using h2

/-! ### Quadrant 0 -/

theorem expand_quadrant0 (f3 : Funct3) (body : BitVec 11) :
    expand (cword f3 body 0b00) = quadrant0 (cword f3 body 0b00) := by
  unfold expand
  rw [quadrant_eq]
  exact if_pos rfl

/-- An offset on its way to a 32-bit word. -/
theorem widen {n : Nat} {z : U16} {imm : BitVec n} (h : z = imm.setWidth 16) (hn : n ≤ 16) :
    z.setWidth 32 = (imm.setWidth 32 : U32) := by
  rw [h]
  refine Masks.ext_bits fun i hi => ?_
  simp only [BitVec.getLsbD_setWidth]
  grind

theorem expand_addi4spn (imm : BitVec 8) (rd : BitVec 3) :
    expand (CInstr.addi4spn imm rd).encode =
      if imm = 0 then 0 else Isa.encode (CInstr.addi4spn imm rd).meaning := by
  unfold CInstr.encode
  rw [expand_quadrant0]
  obtain ⟨ha, hd⟩ := layW_parts (frameBits imm) rd
  have h2 : regShort _ 2 = _ := regShort_eq 0b000 0b00 hd rfl (by omega)
  have h6 : field (cword 0b000 (layW (frameBits imm) rd) 0b00) 6 1 = ((frameBits imm).extractLsb' 1 1).setWidth 16 :=
    field_part _ _ ha 1 1 rfl rfl (by omega) (by omega)
  have h5 : field (cword 0b000 (layW (frameBits imm) rd) 0b00) 5 1 = ((frameBits imm).extractLsb' 0 1).setWidth 16 :=
    field_part _ _ ha 0 1 rfl rfl (by omega) (by omega)
  have h11 : field (cword 0b000 (layW (frameBits imm) rd) 0b00) 11 0x3 =
      ((frameBits imm).extractLsb' 6 2).setWidth 16 :=
    field_part _ _ ha 6 2 rfl rfl (by omega) (by omega)
  have h7 : field (cword 0b000 (layW (frameBits imm) rd) 0b00) 7 0xF = ((frameBits imm).extractLsb' 2 4).setWidth 16 :=
    field_part _ _ ha 2 4 rfl rfl (by omega) (by omega)
  have hbits : ∀ x : BitVec 8,
      (((frameBits x).extractLsb' 1 1).setWidth 16 <<< 2) ||| (((frameBits x).extractLsb' 0 1).setWidth 16 <<< 3) |||
          (((frameBits x).extractLsb' 6 2).setWidth 16 <<< 4) ||| (((frameBits x).extractLsb' 2 4).setWidth 16 <<< 6) =
        ((0#2 ++ x ++ 0#2).setWidth 16 : U16) := by decide
  have hzero : ∀ x : BitVec 8, ((0#2 ++ x ++ 0#2).setWidth 16 : U16) = 0 ↔ x = 0 := by decide
  unfold quadrant0
  rw [field_funct3, h6, h5, h11, h7, hbits]
  by_cases h0 : imm = 0
  · rw [if_pos h0]
    exact if_pos ((hzero imm).mpr h0)
  · rw [if_neg h0]
    exact (if_neg (mt (hzero imm).mp h0)).trans (wordIType_of (widen rfl (by omega)) rfl rfl h2)

theorem expand_load (a : CAccess) (offset : BitVec 5) (rs1 rd : BitVec 3) :
    expand (CInstr.load a offset rs1 rd).encode = Isa.encode (CInstr.load a offset rs1 rd).meaning := by
  unfold CInstr.encode
  rw [expand_quadrant0]
  obtain ⟨-, hr, -, hd⟩ := layM_parts (a.high offset) rs1 (a.low offset) rd
  have h1 : regShort _ 7 = _ := regShort_eq a.loadFunct3 0b00 hr rfl (by omega)
  have h2 : regShort _ 2 = _ := regShort_eq a.loadFunct3 0b00 hd rfl (by omega)
  unfold quadrant0
  rw [field_funct3]
  cases a with
  | word => exact wordIType_of (widen (offsetW _ 0b00 rs1 rd offset) (by omega)) h1 rfl h2
  | double => exact wordIType_of (widen (offsetD _ 0b00 rs1 rd offset) (by omega)) h1 rfl h2
  | fp => exact wordIType_of (widen (offsetD _ 0b00 rs1 rd offset) (by omega)) h1 rfl h2

theorem expand_store (a : CAccess) (offset : BitVec 5) (rs1 rs2 : BitVec 3) :
    expand (CInstr.store a offset rs1 rs2).encode = Isa.encode (CInstr.store a offset rs1 rs2).meaning := by
  unfold CInstr.encode
  rw [expand_quadrant0]
  obtain ⟨-, hr, -, hd⟩ := layM_parts (a.high offset) rs1 (a.low offset) rs2
  have h1 : regShort _ 7 = _ := regShort_eq a.storeFunct3 0b00 hr rfl (by omega)
  have h2 : regShort _ 2 = _ := regShort_eq a.storeFunct3 0b00 hd rfl (by omega)
  unfold quadrant0
  rw [field_funct3]
  cases a with
  | word => exact wordSType_of (offsetW _ 0b00 rs1 rs2 offset) h2 h1 rfl
  | double => exact wordSType_of (offsetD _ 0b00 rs1 rs2 offset) h2 h1 rfl
  | fp => exact wordSType_of (offsetD _ 0b00 rs1 rs2 offset) h2 h1 rfl

/-! ### Quadrant 1 -/

theorem expand_quadrant1 (f3 : Funct3) (body : BitVec 11) :
    expand (cword f3 body 0b01) = quadrant1 (cword f3 body 0b01) := by
  unfold expand
  rw [quadrant_eq, if_neg (by decide)]
  exact if_pos rfl

/-- A six-bit immediate in an I-format word. -/
theorem low12 (imm : BitVec 6) : (imm.signExtend 32 : U32) &&& 0xFFF = (imm.signExtend 12).setWidth 32 := by
  revert imm
  decide

theorem low6 (imm : BitVec 6) : (imm.signExtend 32 : U32) &&& 0x3F = (0#6 ++ imm).setWidth 32 := by
  revert imm
  decide

theorem reg_eq_zero (r : RegIdx) : (r.setWidth 32 : U32) = 0 ↔ r = 0 := by
  revert r
  decide

theorem reg_eq_two (r : RegIdx) : (r.setWidth 32 : U32) = 2 ↔ r = 2 := by
  revert r
  decide

theorem expand_addi (imm : BitVec 6) (rd : RegIdx) :
    expand (CInstr.addi imm rd).encode = Isa.encode (CInstr.addi imm rd).meaning := by
  unfold CInstr.encode
  obtain ⟨h5, hr, h0⟩ := immI_parts imm rd
  have h7 : reg _ 7 = _ := reg_eq 0b000 0b01 hr rfl (by omega)
  rw [expand_quadrant1]
  unfold quadrant1
  rw [field_funct3, immCiSigned_eq 0b000 0b01 h5 h0, low12]
  exact wordIType_of rfl h7 rfl h7

theorem expand_addiw (imm : BitVec 6) (rd : RegIdx) :
    expand (CInstr.addiw imm rd).encode = if rd = 0 then 0 else Isa.encode (CInstr.addiw imm rd).meaning := by
  unfold CInstr.encode
  obtain ⟨h5, hr, h0⟩ := immI_parts imm rd
  have h7 : reg _ 7 = _ := reg_eq 0b001 0b01 hr rfl (by omega)
  rw [expand_quadrant1]
  unfold quadrant1
  rw [field_funct3, immCiSigned_eq 0b001 0b01 h5 h0, low12, h7]
  by_cases hd : rd = 0
  · rw [if_pos hd]
    exact if_pos ((reg_eq_zero rd).mpr hd)
  · rw [if_neg hd]
    exact (if_neg (mt (reg_eq_zero rd).mp hd)).trans (wordIType_of rfl rfl rfl rfl)

theorem expand_li (imm : BitVec 6) (rd : RegIdx) :
    expand (CInstr.li imm rd).encode = Isa.encode (CInstr.li imm rd).meaning := by
  unfold CInstr.encode
  obtain ⟨h5, hr, h0⟩ := immI_parts imm rd
  have h7 : reg _ 7 = _ := reg_eq 0b010 0b01 hr rfl (by omega)
  rw [expand_quadrant1]
  unfold quadrant1
  rw [field_funct3, immCiSigned_eq 0b010 0b01 h5 h0, low12]
  exact wordIType_of rfl rfl rfl h7

theorem expand_addi16sp (imm : BitVec 6) :
    expand (CInstr.addi16sp imm).encode = if imm = 0 then 0 else Isa.encode (CInstr.addi16sp imm).meaning := by
  show expand (cword 0b011 (layI (imm.extractLsb' 5 1) 2 (stackBits imm)) 0b01) = _
  obtain ⟨ha, hr, h0⟩ := layI_parts (imm.extractLsb' 5 1) 2 (stackBits imm)
  rw [expand_quadrant1]
  generalize hw : cword 0b011 (layI (imm.extractLsb' 5 1) 2 (stackBits imm)) 0b01 = w
  have h13 : field w 13 0x7 = 0b011 := hw ▸ field_funct3 _ _ _
  have h7 : reg w 7 = 2 := hw ▸ reg_eq _ _ hr rfl (by omega)
  have h6 : field w 6 1 = ((stackBits imm).extractLsb' 4 1).setWidth 16 :=
    hw ▸ field_part _ _ h0 4 1 rfl rfl (by omega) (by omega)
  have h2 : field w 2 1 = ((stackBits imm).extractLsb' 0 1).setWidth 16 :=
    hw ▸ field_part _ _ h0 0 1 rfl rfl (by omega) (by omega)
  have h5 : field w 5 1 = ((stackBits imm).extractLsb' 3 1).setWidth 16 :=
    hw ▸ field_part _ _ h0 3 1 rfl rfl (by omega) (by omega)
  have h3 : field w 3 3 = ((stackBits imm).extractLsb' 1 2).setWidth 16 :=
    hw ▸ field_part _ _ h0 1 2 rfl rfl (by omega) (by omega)
  have h12 : field w 12 1 = (imm.extractLsb' 5 1).setWidth 16 := hw ▸ field_whole _ _ ha rfl rfl (by omega)
  have hbits : ∀ x : BitVec 6,
      signExtend
          (((((stackBits x).extractLsb' 4 1).setWidth 16 <<< 4) |||
              (((stackBits x).extractLsb' 0 1).setWidth 16 <<< 5) |||
              (((stackBits x).extractLsb' 3 1).setWidth 16 <<< 6) |||
                  (((stackBits x).extractLsb' 1 2).setWidth 16 <<< 7) |||
              ((x.extractLsb' 5 1).setWidth 16 <<< 9) : U16).setWidth 32) 10 =
        ((x ++ 0#4).signExtend 32 : U32) := by decide
  have hzero : ∀ x : BitVec 6, ((x ++ 0#4).signExtend 32 : U32) = 0 ↔ x = 0 := by decide
  have hlow : ∀ x : BitVec 6,
      ((x ++ 0#4).signExtend 32 : U32) &&& 0xFFF = ((x ++ 0#4).signExtend 12 : BitVec 12).setWidth 32 := by decide
  unfold quadrant1
  rw [h13, h7, h6, h2, h5, h3, h12, hbits]
  by_cases hz : imm = 0
  · rw [if_pos hz]
    exact if_pos ((hzero imm).mpr hz)
  · rw [if_neg hz]
    exact (if_neg (mt (hzero imm).mp hz)).trans (wordIType_of (hlow imm) rfl rfl rfl)

theorem expand_lui (imm : BitVec 6) {rd : RegIdx} (hd : rd ≠ 2) :
    expand (CInstr.lui imm rd).encode = if imm = 0 then 0 else Isa.encode (CInstr.lui imm rd).meaning := by
  unfold CInstr.encode
  obtain ⟨h5, hr, h0⟩ := immI_parts imm rd
  have h7 : reg _ 7 = _ := reg_eq 0b011 0b01 hr rfl (by omega)
  have hzero : ∀ x : BitVec 6, (x.signExtend 32 : U32) = 0 ↔ x = 0 := by decide
  have hshift : ∀ x : BitVec 6, (x.signExtend 32 : U32) <<< 12 = (x.signExtend 20).setWidth 32 <<< 12 := by decide
  rw [expand_quadrant1]
  unfold quadrant1
  rw [field_funct3, immCiSigned_eq 0b011 0b01 h5 h0, h7]
  refine Eq.trans (if_neg (mt (reg_eq_two rd).mp hd)) ?_
  by_cases hz : imm = 0
  · rw [if_pos hz]
    exact if_pos ((hzero imm).mpr hz)
  · rw [if_neg hz, hshift]
    exact (if_neg (mt (hzero imm).mp hz)).trans (wordUType_eq rd Op.lui (imm.signExtend 20))

/-! The operations of quadrant 1 on `x8` to `x15`. -/

theorem expand_misc (a r : BitVec 3) (b : BitVec 2) (s : BitVec 3) :
    expand (cword 0b100 (layM a r b s) 0b01) = miscAlu1 (cword 0b100 (layM a r b s) 0b01) := by
  rw [expand_quadrant1]
  unfold quadrant1
  rw [field_funct3]
  rfl

section Short

variable (o : BitVec 2) (imm : BitVec 6) (rd : BitVec 3)

/-- The shifts and C.ANDI, which bits 11 and 10 tell apart. -/
theorem field_immM : field (cword 0b100 (immM o imm rd) 0b01) 10 0x3 = o.setWidth 16 :=
  field_whole 0b100 0b01 (immM_parts o imm rd).2.1 rfl rfl (by omega)

theorem regShort_immM : regShort (cword 0b100 (immM o imm rd) 0b01) 7 = (short rd).setWidth 32 :=
  regShort_eq 0b100 0b01 (immM_parts o imm rd).2.2.1 rfl (by omega)

theorem immCiSigned_immM : immCiSigned (cword 0b100 (immM o imm rd) 0b01) = imm.signExtend 32 :=
  immCiSigned_eq 0b100 0b01 (immM_parts o imm rd).1 (immM_parts o imm rd).2.2.2

theorem expand_immM : expand (cword 0b100 (immM o imm rd) 0b01) = miscAlu1 (cword 0b100 (immM o imm rd) 0b01) :=
  expand_misc _ _ _ _

end Short

theorem expand_srli (shamt : BitVec 6) (rd : BitVec 3) :
    expand (CInstr.srli shamt rd).encode = Isa.encode (CInstr.srli shamt rd).meaning := by
  show expand (cword 0b100 (immM 0b00 shamt rd) 0b01) = _
  rw [expand_immM]
  unfold miscAlu1
  rw [field_immM, immCiSigned_immM, regShort_immM]
  exact wordIType_of (low6 shamt) rfl rfl rfl

theorem expand_andi (imm : BitVec 6) (rd : BitVec 3) :
    expand (CInstr.andi imm rd).encode = Isa.encode (CInstr.andi imm rd).meaning := by
  show expand (cword 0b100 (immM 0b10 imm rd) 0b01) = _
  rw [expand_immM]
  unfold miscAlu1
  rw [field_immM, immCiSigned_immM, regShort_immM]
  exact wordIType_of (low12 imm) rfl rfl rfl

/-- Bit 30 of C.SRAI is put in over the I format. -/
theorem expand_srai (shamt : BitVec 6) (rd : BitVec 3) :
    expand (CInstr.srai shamt rd).encode = Isa.encode (CInstr.srai shamt rd).meaning := by
  have hover : ∀ b x r f d c : U32, (b <<< 20) ||| wordIType x r f d c = wordIType (b ||| x) r f d c := by
    intro b x r f d c
    unfold wordIType
    rw [BitVec.shiftLeft_or_distrib]
    simp only [BitVec.or_assoc]
  have hbits :
      ∀ x : BitVec 6, (0x400 : U32) ||| (x.signExtend 32 &&& 0x3F) = (ShiftOp.sra.funct6 ++ x).setWidth 32 := by
    decide
  show expand (cword 0b100 (immM 0b01 shamt rd) 0b01) = _
  rw [expand_immM]
  unfold miscAlu1
  rw [field_immM, immCiSigned_immM, regShort_immM]
  exact (hover 0x400 _ _ _ _ _).trans (wordIType_of (hbits shamt) rfl rfl rfl)

/-- The fields of a register operation. -/
theorem fields_reg (p : BitVec 1) (rd : BitVec 3) (b : BitVec 2) (rs2 : BitVec 3) :
    let w := cword 0b100 (layM (p ++ 0b11#2) rd b rs2) 0b01
    field w 10 0x3 = 3 ∧ field w 12 1 = p.setWidth 16 ∧ field w 5 0x3 = b.setWidth 16 ∧
      regShort w 7 = (short rd).setWidth 32 ∧ regShort w 2 = (short rs2).setWidth 32 := by
  intro w
  obtain ⟨ha, hr, hb, hs⟩ := layM_parts (p ++ 0b11#2) rd b rs2
  obtain ⟨h1, h3⟩ := append_parts p 0b11#2
  refine ⟨?_, ?_, ?_, ?_, ?_⟩
  · exact (field_part 0b100 0b01 ha 0 2 rfl rfl (by omega) (by omega)).trans (congrArg (BitVec.setWidth 16) h3)
  · exact (field_part 0b100 0b01 ha 2 1 rfl rfl (by omega) (by omega)).trans (congrArg (BitVec.setWidth 16) h1)
  · exact field_whole 0b100 0b01 hb rfl rfl (by omega)
  · exact regShort_eq 0b100 0b01 hr rfl (by omega)
  · exact regShort_eq 0b100 0b01 hs rfl (by omega)

/-- The register operations, which bits 12, 6 and 5 tell apart. -/
theorem expand_reg (o : CRegOp) (rd rs2 : BitVec 3) :
    expand (CInstr.reg o rd rs2).encode = Isa.encode (CInstr.reg o rd rs2).meaning := by
  show expand (cword 0b100 (layM (o.bits.1 ++ 0b11#2) rd o.bits.2 rs2) 0b01) = _
  obtain ⟨h10, h12, h5, h7, h2⟩ := fields_reg o.bits.1 rd o.bits.2 rs2
  rw [expand_misc]
  unfold miscAlu1
  rw [h10, h12, h5, h7, h2]
  cases o <;> exact wordRType_of rfl rfl rfl rfl rfl

/-- Two combinations of these bits are reserved. -/
theorem expand_reg_reserved (rd rs2 : BitVec 3) {b : BitVec 2} (hb : b = 2 ∨ b = 3) :
    expand (cword 0b100 (layM ((1 : BitVec 1) ++ 0b11#2) rd b rs2) 0b01) = 0 := by
  obtain ⟨h10, h12, h5, -, -⟩ := fields_reg 1 rd b rs2
  rw [expand_misc]
  unfold miscAlu1
  rw [h10, h12, h5]
  rcases hb with rfl | rfl <;> rfl

/-! ### Jumps and branches -/

/-- Bit `i` of a mask of `n` ones. -/
theorem getLsbD_ones {w : Nat} {mask : BitVec w} {n : Nat} (hm : mask = ((1 : BitVec w) <<< n) - 1)
    (hn : n < w) (i : Nat) :
    mask.getLsbD i = decide (i < n) := by
  rw [hm, Masks.getLsbD_low hn]

/-- Shifting up and back is sign extension. -/
theorem signExtend_eq {n : Nat} (h0 : 0 < n) (hn : n ≤ 32) (y : BitVec n) :
    signExtend (y.setWidth 32) n = y.signExtend 32 := by
  refine Masks.ext_bits fun i hi => ?_
  unfold signExtend
  rw [BitVec.getLsbD_sshiftRight, BitVec.getLsbD_signExtend, BitVec.msb_eq_getLsbD_last, BitVec.msb_eq_getLsbD_last]
  simp only [BitVec.getLsbD_shiftLeft, BitVec.getLsbD_setWidth]
  grind

/-- The word of a JAL that links nothing, from the byte offset. -/
theorem wordJ_eq (off : U32) (x : BitVec 20) (h : ∀ i < 20, off.getLsbD (i + 1) = x.getLsbD i) :
    (((off >>> 20) &&& 1) <<< 31) ||| (((off >>> 12) &&& 0xFF) <<< 12) ||| (((off >>> 11) &&& 1) <<< 20) |||
      (((off >>> 1) &&& 0x3FF) <<< 21) ||| op Op.jal = wordJ x 0 Op.jal := by
  have m1 : ∀ i, (1 : U32).getLsbD i = decide (i < 1) := getLsbD_ones rfl (by omega)
  have m8 : ∀ i, (0xFF : U32).getLsbD i = decide (i < 8) := getLsbD_ones rfl (by omega)
  have m10 : ∀ i, (0x3FF : U32).getLsbD i = decide (i < 10) := getLsbD_ones rfl (by omega)
  have r0 : ∀ i, (0 : RegIdx).getLsbD i = false := fun i => BitVec.getLsbD_zero
  refine Masks.ext_bits fun i hi => ?_
  rw [wordJ, wordU, getLsbD_word]
  simp only [op, BitVec.getLsbD_or, BitVec.getLsbD_shiftLeft, BitVec.getLsbD_and, BitVec.getLsbD_ushiftRight,
    BitVec.getLsbD_setWidth, BitVec.getLsbD_extractLsb', m1, m8, m10, r0, hi, decide_true, Bool.true_and]
  simp only [BitVec.getLsbD_append, BitVec.getLsbD_extractLsb']
  grind

/-- The word of a branch against `x0`, from the byte offset. -/
theorem wordB_eq (off : U32) (x : BitVec 12) (rs1 : RegIdx) (f3 : Funct3)
    (h : ∀ i < 12, off.getLsbD (i + 1) = x.getLsbD i) :
    (((off >>> 12) &&& 1) <<< 31) ||| (((off >>> 5) &&& 0x3F) <<< 25) ||| ((rs1.setWidth 32 : U32) <<< 15) |||
      ((f3.setWidth 32 : U32) <<< 12) ||| (((off >>> 1) &&& 0xF) <<< 8) |||
          (((off >>> 11) &&& 1) <<< 7) ||| op Op.branch =
      wordB x 0 rs1 f3 Op.branch := by
  have m1 : ∀ i, (1 : U32).getLsbD i = decide (i < 1) := getLsbD_ones rfl (by omega)
  have m4 : ∀ i, (0xF : U32).getLsbD i = decide (i < 4) := getLsbD_ones rfl (by omega)
  have m6 : ∀ i, (0x3F : U32).getLsbD i = decide (i < 6) := getLsbD_ones rfl (by omega)
  have r0 : ∀ i, (0 : RegIdx).getLsbD i = false := fun i => BitVec.getLsbD_zero
  refine Masks.ext_bits fun i hi => ?_
  rw [wordB, getLsbD_word]
  simp only [op, BitVec.getLsbD_or, BitVec.getLsbD_shiftLeft, BitVec.getLsbD_and, BitVec.getLsbD_ushiftRight,
    BitVec.getLsbD_setWidth, m1, m4, m6, r0, hi, decide_true, Bool.true_and]
  simp only [BitVec.getLsbD_append, BitVec.getLsbD_extractLsb']
  grind

/-- Bit `i` of a sign-extended even offset is bit `i - 1` of the offset without its bit 0. -/
theorem getLsbD_even {n m : Nat} (x : BitVec n) (hn : 0 < n) (hm : m < 32) :
    ∀ i < m, ((x ++ 0#1).signExtend 32 : U32).getLsbD (i + 1) = (x.signExtend m).getLsbD i := by
  intro i hi
  rw [BitVec.getLsbD_signExtend, BitVec.getLsbD_signExtend, BitVec.msb_append, BitVec.getLsbD_append]
  grind

theorem jumpBody_bit (o : BitVec 11) : ∀ i < 11,
    (jumpBody o).getLsbD i = o.getLsbD ([4, 0, 1, 2, 6, 5, 9, 7, 8, 3, 10].getD i 0) := by
  intro i hi
  unfold jumpBody
  rw [BitVec.getLsbD_append (x := o.extractLsb' 10 1 ++ o.extractLsb' 3 1 ++ o.extractLsb' 7 2 ++ o.extractLsb' 9 1 ++
    o.extractLsb' 5 1 ++ o.extractLsb' 6 1 ++ o.extractLsb' 0 3) (y := o.extractLsb' 4 1)]
  simp only [BitVec.getLsbD_append, BitVec.getLsbD_extractLsb']
  interval_cases i <;> simp

theorem expand_j (offset : BitVec 11) : expand (CInstr.j offset).encode = Isa.encode (CInstr.j offset).meaning := by
  show expand (cword 0b101 (jumpBody offset) 0b01) = _
  have hbit := jumpBody_bit offset
  generalize jumpBody offset = y at hbit ⊢
  have hy : y.extractLsb' 0 11 = y := BitVec.extractLsb'_eq_self
  rw [expand_quadrant1]
  generalize hw : cword 0b101 y 0b01 = w
  have h13 : field w 13 0x7 = 0b101 := hw ▸ field_funct3 _ _ _
  have h3 : field w 3 0x7 = (y.extractLsb' 1 3).setWidth 16 := hw ▸ field_part _ _ hy 1 3 rfl rfl (by omega) (by omega)
  have h11 : field w 11 1 = (y.extractLsb' 9 1).setWidth 16 := hw ▸ field_part _ _ hy 9 1 rfl rfl (by omega) (by omega)
  have h2 : field w 2 1 = (y.extractLsb' 0 1).setWidth 16 := hw ▸ field_part _ _ hy 0 1 rfl rfl (by omega) (by omega)
  have h7 : field w 7 1 = (y.extractLsb' 5 1).setWidth 16 := hw ▸ field_part _ _ hy 5 1 rfl rfl (by omega) (by omega)
  have h6 : field w 6 1 = (y.extractLsb' 4 1).setWidth 16 := hw ▸ field_part _ _ hy 4 1 rfl rfl (by omega) (by omega)
  have h9 : field w 9 3 = (y.extractLsb' 7 2).setWidth 16 := hw ▸ field_part _ _ hy 7 2 rfl rfl (by omega) (by omega)
  have h8 : field w 8 1 = (y.extractLsb' 6 1).setWidth 16 := hw ▸ field_part _ _ hy 6 1 rfl rfl (by omega) (by omega)
  have h12 : field w 12 1 = (y.extractLsb' 10 1).setWidth 16 :=
    hw ▸ field_part _ _ hy 10 1 rfl rfl (by omega) (by omega)
  have hoffset : ((y.extractLsb' 1 3).setWidth 16 <<< 1) ||| ((y.extractLsb' 9 1).setWidth 16 <<< 4) |||
      ((y.extractLsb' 0 1).setWidth 16 <<< 5) ||| ((y.extractLsb' 5 1).setWidth 16 <<< 6) |||
      ((y.extractLsb' 4 1).setWidth 16 <<< 7) ||| ((y.extractLsb' 7 2).setWidth 16 <<< 8) |||
      ((y.extractLsb' 6 1).setWidth 16 <<< 10) ||| ((y.extractLsb' 10 1).setWidth 16 <<< 11) =
        ((offset ++ 0#1).setWidth 16 : U16) := by
    refine Masks.ext_bits fun i hi => ?_
    simp only [BitVec.getLsbD_or, BitVec.getLsbD_shiftLeft, BitVec.getLsbD_setWidth, BitVec.getLsbD_extractLsb',
      BitVec.getLsbD_append]
    interval_cases i <;> simp [hbit, -BitVec.getLsbD_eq_getElem]
  have hjump : quadrant1 w = jump w := by
    unfold quadrant1
    rw [h13]
    rfl
  rw [hjump]
  unfold jump
  rw [h3, h11, h2, h7, h6, h9, h8, h12, widen hoffset (by omega), signExtend_eq (by omega) (by omega)]
  exact wordJ_eq _ _ (getLsbD_even offset (by omega) (by omega))

/-- C.BEQZ and C.BNEZ; the condition is the source's `funct3`. -/
theorem branch_eq (f3 g : Funct3) (offset : BitVec 8) (rs1 : BitVec 3) :
    branch (cword f3 (branchBody offset rs1) 0b01) (g.setWidth 32) =
      wordB (offset.signExtend 12) 0 (short rs1) g Op.branch := by
  obtain ⟨ha, hr, hb, hs⟩ := layM_parts (offset.extractLsb' 7 1 ++ offset.extractLsb' 2 2) rs1 (offset.extractLsb' 5 2)
    (offset.extractLsb' 0 2 ++ offset.extractLsb' 4 1)
  obtain ⟨ha1, ha2⟩ := append_parts (offset.extractLsb' 7 1) (offset.extractLsb' 2 2)
  obtain ⟨hs2, hs1⟩ := append_parts (offset.extractLsb' 0 2) (offset.extractLsb' 4 1)
  generalize hw : cword f3 (branchBody offset rs1) 0b01 = w
  have h3 : field w 3 0x3 = (offset.extractLsb' 0 2).setWidth 16 :=
    hw ▸ (field_part _ _ hs 1 2 rfl rfl (by omega) (by omega)).trans (congrArg (BitVec.setWidth 16) hs2)
  have h10 : field w 10 0x3 = (offset.extractLsb' 2 2).setWidth 16 :=
    hw ▸ (field_part _ _ ha 0 2 rfl rfl (by omega) (by omega)).trans (congrArg (BitVec.setWidth 16) ha2)
  have h2 : field w 2 1 = (offset.extractLsb' 4 1).setWidth 16 :=
    hw ▸ (field_part _ _ hs 0 1 rfl rfl (by omega) (by omega)).trans (congrArg (BitVec.setWidth 16) hs1)
  have h5 : field w 5 0x3 = (offset.extractLsb' 5 2).setWidth 16 := hw ▸ field_whole _ _ hb rfl rfl (by omega)
  have h12 : field w 12 1 = (offset.extractLsb' 7 1).setWidth 16 :=
    hw ▸ (field_part _ _ ha 2 1 rfl rfl (by omega) (by omega)).trans (congrArg (BitVec.setWidth 16) ha1)
  have h7 : regShort w 7 = (short rs1).setWidth 32 := hw ▸ regShort_eq _ _ hr rfl (by omega)
  have hoffset : ∀ x : BitVec 8, ((x.extractLsb' 0 2).setWidth 16 <<< 1) ||| ((x.extractLsb' 2 2).setWidth 16 <<< 3) |||
      ((x.extractLsb' 4 1).setWidth 16 <<< 5) ||| ((x.extractLsb' 5 2).setWidth 16 <<< 6) |||
      ((x.extractLsb' 7 1).setWidth 16 <<< 8) = ((x ++ 0#1).setWidth 16 : U16) := by decide
  unfold branch
  rw [h3, h10, h2, h5, h12, h7, widen (hoffset offset) (by omega), signExtend_eq (by omega) (by omega)]
  exact wordB_eq _ _ (short rs1) g (getLsbD_even offset (by omega) (by omega))

theorem expand_beqz (offset : BitVec 8) (rs1 : BitVec 3) :
    expand (CInstr.beqz offset rs1).encode = Isa.encode (CInstr.beqz offset rs1).meaning := by
  show expand (cword 0b110 (branchBody offset rs1) 0b01) = _
  refine Eq.trans ?_ (branch_eq 0b110 Cond.eq.funct3 offset rs1)
  rw [expand_quadrant1]
  unfold quadrant1
  rw [field_funct3]
  rfl

theorem expand_bnez (offset : BitVec 8) (rs1 : BitVec 3) :
    expand (CInstr.bnez offset rs1).encode = Isa.encode (CInstr.bnez offset rs1).meaning := by
  show expand (cword 0b111 (branchBody offset rs1) 0b01) = _
  refine Eq.trans ?_ (branch_eq 0b111 Cond.ne.funct3 offset rs1)
  rw [expand_quadrant1]
  unfold quadrant1
  rw [field_funct3]
  rfl

/-! ### Quadrant 2 -/

theorem expand_quadrant2 (f3 : Funct3) (body : BitVec 11) :
    expand (cword f3 body 0b10) = quadrant2 (cword f3 body 0b10) := by
  unfold expand
  rw [quadrant_eq, if_neg (by decide), if_neg (by decide)]
  exact if_pos rfl

theorem expand_slli (shamt : BitVec 6) (rd : RegIdx) :
    expand (CInstr.slli shamt rd).encode = if rd = 0 then 0 else Isa.encode (CInstr.slli shamt rd).meaning := by
  show expand (cword 0b000 (immI shamt rd) 0b10) = _
  obtain ⟨h5, hr, h0⟩ := immI_parts shamt rd
  have h7 : reg _ 7 = _ := reg_eq 0b000 0b10 hr rfl (by omega)
  have hbits : ∀ x : BitVec 6, (x.setWidth 16 : U16).setWidth 32 = ((0#6 ++ x).setWidth 32 : U32) := by decide
  rw [expand_quadrant2]
  unfold quadrant2
  rw [field_funct3, immCi_eq 0b000 0b10 h5 h0, h7]
  by_cases hd : rd = 0
  · rw [if_pos hd]
    exact if_pos ((reg_eq_zero rd).mpr hd)
  · rw [if_neg hd]
    exact (if_neg (mt (reg_eq_zero rd).mp hd)).trans (wordIType_of (hbits shamt) rfl rfl rfl)

/-- The offset of a load against the stack pointer. -/
theorem offsetSpW (f3 : Funct3) (offset : BitVec 6) (rd : RegIdx) :
    let w := cword f3 (layI (CAccess.word.spHigh offset) rd (CAccess.word.spLow offset)) 0b10
    (field w 12 1 <<< 5) ||| (field w 4 0x7 <<< 2) ||| (field w 2 0x3 <<< 6) =
        (CAccess.word.spBytes offset).setWidth 16 := by
  intro w
  obtain ⟨ha, -, hb⟩ := layI_parts (CAccess.word.spHigh offset) rd (CAccess.word.spLow offset)
  have h12 : field w 12 1 = (CAccess.word.spHigh offset).setWidth 16 := field_whole _ _ ha rfl rfl (by omega)
  have h4 : field w 4 0x7 = ((CAccess.word.spLow offset).extractLsb' 2 3).setWidth 16 :=
    field_part _ _ hb 2 3 rfl rfl (by omega) (by omega)
  have h2 : field w 2 0x3 = ((CAccess.word.spLow offset).extractLsb' 0 2).setWidth 16 :=
    field_part _ _ hb 0 2 rfl rfl (by omega) (by omega)
  have hbits : ∀ o : BitVec 6,
      ((CAccess.word.spHigh o).setWidth 16 <<< 5) ||| (((CAccess.word.spLow o).extractLsb' 2 3).setWidth 16 <<< 2) |||
        (((CAccess.word.spLow o).extractLsb' 0 2).setWidth 16 <<< 6) = ((CAccess.word.spBytes o).setWidth 16 : U16) :=
          by decide
  rw [h12, h4, h2, hbits]

theorem offsetSpD (f3 : Funct3) (offset : BitVec 6) (rd : RegIdx) :
    let w := cword f3 (layI (CAccess.double.spHigh offset) rd (CAccess.double.spLow offset)) 0b10
    (field w 12 1 <<< 5) ||| (field w 5 0x3 <<< 3) ||| (field w 2 0x7 <<< 6) =
        (CAccess.double.spBytes offset).setWidth 16 := by
  intro w
  obtain ⟨ha, -, hb⟩ := layI_parts (CAccess.double.spHigh offset) rd (CAccess.double.spLow offset)
  have h12 : field w 12 1 = (CAccess.double.spHigh offset).setWidth 16 := field_whole _ _ ha rfl rfl (by omega)
  have h5 : field w 5 0x3 = ((CAccess.double.spLow offset).extractLsb' 3 2).setWidth 16 :=
    field_part _ _ hb 3 2 rfl rfl (by omega) (by omega)
  have h2 : field w 2 0x7 = ((CAccess.double.spLow offset).extractLsb' 0 3).setWidth 16 :=
    field_part _ _ hb 0 3 rfl rfl (by omega) (by omega)
  have hbits : ∀ o : BitVec 6,
      ((CAccess.double.spHigh o).setWidth 16 <<< 5) |||
          (((CAccess.double.spLow o).extractLsb' 3 2).setWidth 16 <<< 3) |||
        (((CAccess.double.spLow o).extractLsb' 0 3).setWidth 16 <<< 6) =
            ((CAccess.double.spBytes o).setWidth 16 : U16) := by
    decide
  rw [h12, h5, h2, hbits]

/-- What quadrant 2 makes of a load: nothing when it would load `x0`. -/
theorem quadrant2_load (a : CAccess) (body : BitVec 11) :
    let w := cword a.loadFunct3 body 0b10
    quadrant2 w =
      match a with
      | .word => if reg w 7 = 0 then 0 else
          wordIType (((field w 12 1 <<< 5) ||| (field w 4 0x7 <<< 2) ||| (field w 2 0x3 <<< 6)).setWidth 32) 2 2
              (reg w 7) (op Op.load)
      | .double => if reg w 7 = 0 then 0 else
          wordIType (((field w 12 1 <<< 5) ||| (field w 5 0x3 <<< 3) ||| (field w 2 0x7 <<< 6)).setWidth 32) 2 3
              (reg w 7) (op Op.load)
      | .fp =>
          wordIType (((field w 12 1 <<< 5) ||| (field w 5 0x3 <<< 3) ||| (field w 2 0x7 <<< 6)).setWidth 32) 2 3
              (reg w 7) (op Op.loadFp) := by
  intro w
  have h13 : field w 13 0x7 = a.loadFunct3.setWidth 16 := field_funct3 _ _ _
  unfold quadrant2
  rw [h13]
  cases a <;> rfl

/-- Loads to `x0` are reserved, loads to `f0` are not. -/
theorem expand_loadSp (a : CAccess) (offset : BitVec 6) (rd : RegIdx) :
    expand (CInstr.loadSp a offset rd).encode =
      if a ≠ .fp ∧ rd = 0 then 0 else Isa.encode (CInstr.loadSp a offset rd).meaning := by
  show expand (cword a.loadFunct3 (layI (a.spHigh offset) rd (a.spLow offset)) 0b10) = _
  obtain ⟨-, hr, -⟩ := layI_parts (a.spHigh offset) rd (a.spLow offset)
  have h7 : reg _ 7 = _ := reg_eq a.loadFunct3 0b10 hr rfl (by omega)
  have hz := reg_eq_zero rd
  rw [expand_quadrant2, quadrant2_load]
  cases a with
  | word =>
    have hword : wordIType (((CAccess.word.spBytes offset).setWidth 16 : U16).setWidth 32) 2 2
        (rd.setWidth 32) (op Op.load) =
        Isa.encode (CInstr.loadSp .word offset rd).meaning := wordIType_of (widen rfl (by omega)) rfl rfl rfl
    simp only [h7, offsetSpW, hword, hz, ne_eq, reduceCtorEq, not_false_eq_true, true_and]
  | double =>
    have hword : wordIType (((CAccess.double.spBytes offset).setWidth 16 : U16).setWidth 32) 2 3
        (rd.setWidth 32) (op Op.load) =
        Isa.encode (CInstr.loadSp .double offset rd).meaning := wordIType_of (widen rfl (by omega)) rfl rfl rfl
    simp only [h7, offsetSpD, hword, hz, ne_eq, reduceCtorEq, not_false_eq_true, true_and]
  | fp =>
    refine Eq.trans ?_ (if_neg (fun h => h.1 rfl)).symm
    exact wordIType_of (widen (offsetSpD _ offset rd) (by omega)) rfl rfl h7

theorem expand_storeSp (a : CAccess) (offset : BitVec 6) (rs2 : RegIdx) :
    expand (CInstr.storeSp a offset rs2).encode = Isa.encode (CInstr.storeSp a offset rs2).meaning := by
  show expand (cword a.storeFunct3 (layS (a.spStore offset) rs2) 0b10) = _
  obtain ⟨ha, hr⟩ := layS_parts (a.spStore offset) rs2
  rw [expand_quadrant2]
  generalize hw : cword a.storeFunct3 (layS (a.spStore offset) rs2) 0b10 = w
  have h13 : field w 13 0x7 = a.storeFunct3.setWidth 16 := hw ▸ field_funct3 _ _ _
  have h2 : reg w 2 = rs2.setWidth 32 := hw ▸ reg_eq _ _ hr rfl (by omega)
  have hW : ∀ o : BitVec 6, (((CAccess.word.spStore o).extractLsb' 2 4).setWidth 16 <<< 2) |||
      (((CAccess.word.spStore o).extractLsb' 0 2).setWidth 16 <<< 6) = ((CAccess.word.spBytes o).setWidth 16 : U16) :=
        by decide
  have hD : ∀ o : BitVec 6, (((CAccess.double.spStore o).extractLsb' 3 3).setWidth 16 <<< 3) |||
      (((CAccess.double.spStore o).extractLsb' 0 3).setWidth 16 <<< 6) =
          ((CAccess.double.spBytes o).setWidth 16 : U16) := by
    decide
  have h9 : field w 9 0xF = ((a.spStore offset).extractLsb' 2 4).setWidth 16 :=
    hw ▸ field_part _ _ ha 2 4 rfl rfl (by omega) (by omega)
  have h73 : field w 7 0x3 = ((a.spStore offset).extractLsb' 0 2).setWidth 16 :=
    hw ▸ field_part _ _ ha 0 2 rfl rfl (by omega) (by omega)
  have h10 : field w 10 0x7 = ((a.spStore offset).extractLsb' 3 3).setWidth 16 :=
    hw ▸ field_part _ _ ha 3 3 rfl rfl (by omega) (by omega)
  have h77 : field w 7 0x7 = ((a.spStore offset).extractLsb' 0 3).setWidth 16 :=
    hw ▸ field_part _ _ ha 0 3 rfl rfl (by omega) (by omega)
  unfold quadrant2
  rw [h13, h2, h9, h73, h10, h77]
  cases a with
  | word => exact wordSType_of (hW offset) rfl rfl rfl
  | double => exact wordSType_of (hD offset) rfl rfl rfl
  | fp => exact wordSType_of (hD offset) rfl rfl rfl

/-- C.JR, C.MV, C.EBREAK, C.JALR and C.ADD, which bit 12 and the two registers tell apart. -/
theorem expand_cr (a : BitVec 1) (rs1 rs2 : RegIdx) :
    expand (cword 0b100 (layI a rs1 rs2) 0b10) =
      if a = 0 then
        if rs2 = 0 then if rs1 = 0 then 0 else Isa.encode (CInstr.jr rs1).meaning
        else Isa.encode (CInstr.mv rs1 rs2).meaning
      else if rs2 = 0 then
        if rs1 = 0 then Isa.encode CInstr.ebreak.meaning else Isa.encode (CInstr.jalr rs1).meaning
      else Isa.encode (CInstr.add rs1 rs2).meaning := by
  obtain ⟨ha, hr, hb⟩ := layI_parts a rs1 rs2
  rw [expand_quadrant2]
  generalize hw : cword 0b100 (layI a rs1 rs2) 0b10 = w
  have h13 : field w 13 0x7 = 0b100 := hw ▸ field_funct3 _ _ _
  have h12 : field w 12 1 = a.setWidth 16 := hw ▸ field_whole _ _ ha rfl rfl (by omega)
  have h2 : reg w 2 = rs2.setWidth 32 := hw ▸ reg_eq _ _ hb rfl (by omega)
  have h7 : reg w 7 = rs1.setWidth 32 := hw ▸ reg_eq _ _ hr rfl (by omega)
  have hbit : ∀ x : BitVec 1, (x.setWidth 16 : U16) = 0 ↔ x = 0 := by decide
  have hmisc : quadrant2 w = miscAlu2 w := by
    unfold quadrant2
    rw [h13]
    rfl
  have hjr : wordIType 0 (rs1.setWidth 32) 0 0 (op Op.jalr) = Isa.encode (CInstr.jr rs1).meaning :=
    wordIType_of rfl rfl rfl rfl
  have hjalr : wordIType 0 (rs1.setWidth 32) 0 1 (op Op.jalr) = Isa.encode (CInstr.jalr rs1).meaning :=
    wordIType_of rfl rfl rfl rfl
  have hmv : wordRType 0 (rs2.setWidth 32) 0 0 (rs1.setWidth 32) (op Op.reg) = Isa.encode (CInstr.mv rs1 rs2).meaning :=
    wordRType_of rfl rfl rfl rfl rfl
  have hadd : wordRType 0 (rs2.setWidth 32) (rs1.setWidth 32) 0 (rs1.setWidth 32) (op Op.reg) =
      Isa.encode (CInstr.add rs1 rs2).meaning := wordRType_of rfl rfl rfl rfl rfl
  rw [hmisc]
  unfold miscAlu2
  simp only [h12, h2, h7, hbit, reg_eq_zero, hjr, hjalr, hmv, hadd]
  rfl

/-! ### Every legal instruction, and nothing else -/

/-- What `expand` keeps: the legal instructions, but not the hint that it takes for reserved. -/
def Kept : CInstr → Prop
  | .slli _ rd => rd ≠ 0
  | c => c.Legal

theorem kept_iff (c : CInstr) : Kept c ↔ c.Legal ∧ ∀ shamt, c ≠ .slli shamt 0 := by
  cases c with
  | slli shamt rd =>
    constructor
    · intro h
      refine ⟨trivial, fun _ heq => h ?_⟩
      cases heq
      rfl
    · rintro ⟨-, h⟩ rfl
      exact h shamt rfl
  | _ => exact ⟨fun h => ⟨h, fun _ heq => CInstr.noConfusion heq⟩, fun h => h.1⟩

/-- The word of an instruction that is kept expands to the word of the instruction it stands for. -/
theorem expand_encode (c : CInstr) (h : Kept c) : expand c.encode = Isa.encode c.meaning := by
  cases c with
  | addi4spn imm rd => exact (expand_addi4spn imm rd).trans (if_neg h)
  | load a offset rs1 rd => exact expand_load a offset rs1 rd
  | store a offset rs1 rs2 => exact expand_store a offset rs1 rs2
  | addi imm rd => exact expand_addi imm rd
  | addiw imm rd => exact (expand_addiw imm rd).trans (if_neg h)
  | li imm rd => exact expand_li imm rd
  | addi16sp imm => exact (expand_addi16sp imm).trans (if_neg h)
  | lui imm rd => exact (expand_lui imm h.2).trans (if_neg h.1)
  | srli shamt rd => exact expand_srli shamt rd
  | srai shamt rd => exact expand_srai shamt rd
  | andi imm rd => exact expand_andi imm rd
  | reg o rd rs2 => exact expand_reg o rd rs2
  | j offset => exact expand_j offset
  | beqz offset rs1 => exact expand_beqz offset rs1
  | bnez offset rs1 => exact expand_bnez offset rs1
  | slli shamt rd => exact (expand_slli shamt rd).trans (if_neg h)
  | loadSp a offset rd =>
    refine (expand_loadSp a offset rd).trans (if_neg ?_)
    cases a with
    | word => exact fun hz => h hz.2
    | double => exact fun hz => h hz.2
    | fp => exact fun hz => hz.1 rfl
  | jr rs1 => exact (expand_cr 0 rs1 0).trans (if_neg h)
  | mv rd rs2 => exact (expand_cr 0 rd rs2).trans (if_neg h)
  | ebreak => exact expand_cr 1 0 0
  | jalr rs1 => exact (expand_cr 1 rs1 0).trans (if_neg h)
  | add rd rs2 => exact (expand_cr 1 rd rs2).trans (if_neg h)
  | storeSp a offset rs2 => exact expand_storeSp a offset rs2

/-! Each layout, and each immediate put into one, is read off the word again. -/

theorem exists_layI (body : BitVec 11) : ∃ a r b, body = layI a r b := by
  refine ⟨body.extractLsb' 10 1, body.extractLsb' 5 5, body.extractLsb' 0 5, Masks.ext_bits fun i hi => ?_⟩
  rw [getLsbD_layI]
  simp only [BitVec.getLsbD_extractLsb']
  grind

theorem exists_layM (body : BitVec 11) : ∃ a r b s, body = layM a r b s := by
  refine ⟨body.extractLsb' 8 3, body.extractLsb' 5 3, body.extractLsb' 3 2, body.extractLsb' 0 3,
    Masks.ext_bits fun i hi => ?_⟩
  rw [getLsbD_layM]
  simp only [BitVec.getLsbD_extractLsb']
  grind

theorem exists_append {m n : Nat} (x : BitVec (m + n)) : ∃ (a : BitVec m) (b : BitVec n), x = a ++ b := by
  refine ⟨x.extractLsb' n m, x.extractLsb' 0 n, Masks.ext_bits fun i hi => ?_⟩
  simp only [BitVec.getLsbD_append, BitVec.getLsbD_extractLsb']
  grind

theorem exists_immI (body : BitVec 11) : ∃ imm r, body = immI imm r := by
  obtain ⟨a, r, b, rfl⟩ := exists_layI body
  obtain ⟨ha, hb⟩ := append_parts a b
  refine ⟨a ++ b, r, ?_⟩
  rw [immI, ha, hb]

theorem exists_immM (body : BitVec 11) : ∃ o imm r, body = immM o imm r := by
  obtain ⟨a, r, b, s, rfl⟩ := exists_layM body
  have hparts : ∀ (a : BitVec 3) (b : BitVec 2) (s : BitVec 3),
      (a.extractLsb' 2 1 ++ b ++ s : BitVec 6).extractLsb' 5 1 ++ a.extractLsb' 0 2 = a ∧
        (a.extractLsb' 2 1 ++ b ++ s : BitVec 6).extractLsb' 3 2 = b ∧
        (a.extractLsb' 2 1 ++ b ++ s : BitVec 6).extractLsb' 0 3 = s := by decide
  obtain ⟨h1, h2, h3⟩ := hparts a b s
  refine ⟨a.extractLsb' 0 2, a.extractLsb' 2 1 ++ b ++ s, r, ?_⟩
  rw [immM, h1, h2, h3]

theorem exists_offset (a : CAccess) (x : BitVec 3) (y : BitVec 2) : ∃ offset, a.high offset = x ∧ a.low offset = y := by
  have hword : ∀ (x : BitVec 3) (y : BitVec 2), CAccess.word.high (y.extractLsb' 0 1 ++ x ++ y.extractLsb' 1 1) = x ∧
      CAccess.word.low (y.extractLsb' 0 1 ++ x ++ y.extractLsb' 1 1) = y := by decide
  have hdouble : ∀ (x : BitVec 3) (y : BitVec 2), CAccess.double.high (y ++ x) = x ∧
      CAccess.double.low (y ++ x) = y := by
    decide
  cases a with
  | word => exact ⟨_, hword x y⟩
  | double => exact ⟨_, hdouble x y⟩
  | fp => exact ⟨_, hdouble x y⟩

theorem exists_spOffset (a : CAccess) (x : BitVec 1) (y : BitVec 5) :
    ∃ offset, a.spHigh offset = x ∧ a.spLow offset = y := by
  have hword : ∀ (x : BitVec 1) (y : BitVec 5), CAccess.word.spHigh (y.extractLsb' 0 2 ++ x ++ y.extractLsb' 2 3) = x ∧
      CAccess.word.spLow (y.extractLsb' 0 2 ++ x ++ y.extractLsb' 2 3) = y := by decide
  have hdouble : ∀ (x : BitVec 1) (y : BitVec 5),
      CAccess.double.spHigh (y.extractLsb' 0 3 ++ x ++ y.extractLsb' 3 2) = x ∧
      CAccess.double.spLow (y.extractLsb' 0 3 ++ x ++ y.extractLsb' 3 2) = y := by decide
  cases a with
  | word => exact ⟨_, hword x y⟩
  | double => exact ⟨_, hdouble x y⟩
  | fp => exact ⟨_, hdouble x y⟩

theorem exists_spStore (a : CAccess) (x : BitVec 6) : ∃ offset, a.spStore offset = x := by
  have hword : ∀ x : BitVec 6, CAccess.word.spStore (x.extractLsb' 0 2 ++ x.extractLsb' 2 4) = x := by decide
  have hdouble : ∀ x : BitVec 6, CAccess.double.spStore (x.extractLsb' 0 3 ++ x.extractLsb' 3 3) = x := by decide
  cases a with
  | word => exact ⟨_, hword x⟩
  | double => exact ⟨_, hdouble x⟩
  | fp => exact ⟨_, hdouble x⟩

theorem exists_frameBits (x : BitVec 8) : ∃ imm, frameBits imm = x := by
  have hx : ∀ x : BitVec 8,
      frameBits (x.extractLsb' 2 4 ++ x.extractLsb' 6 2 ++ x.extractLsb' 0 1 ++ x.extractLsb' 1 1) = x := by decide
  exact ⟨_, hx x⟩

theorem exists_stackBits (x : BitVec 1) (y : BitVec 5) :
    ∃ imm : BitVec 6, imm.extractLsb' 5 1 = x ∧ stackBits imm = y := by
  have hxy : ∀ (x : BitVec 1) (y : BitVec 5),
      let imm : BitVec 6 := x ++ y.extractLsb' 1 2 ++ y.extractLsb' 3 1 ++ y.extractLsb' 0 1 ++ y.extractLsb' 4 1
      imm.extractLsb' 5 1 = x ∧ stackBits imm = y := by decide
  exact ⟨_, hxy x y⟩

theorem exists_branchBody (body : BitVec 11) : ∃ offset rs1, branchBody offset rs1 = body := by
  obtain ⟨a, r, b, s, rfl⟩ := exists_layM body
  have hparts : ∀ (a : BitVec 3) (b : BitVec 2) (s : BitVec 3),
      let offset : BitVec 8 := a.extractLsb' 2 1 ++ b ++ s.extractLsb' 0 1 ++ a.extractLsb' 0 2 ++ s.extractLsb' 1 2
      offset.extractLsb' 7 1 ++ offset.extractLsb' 2 2 = a ∧ offset.extractLsb' 5 2 = b ∧
        offset.extractLsb' 0 2 ++ offset.extractLsb' 4 1 = s := by decide
  obtain ⟨h1, h2, h3⟩ := hparts a b s
  refine ⟨a.extractLsb' 2 1 ++ b ++ s.extractLsb' 0 1 ++ a.extractLsb' 0 2 ++ s.extractLsb' 1 2, r, ?_⟩
  rw [branchBody, h1, h2, h3]

/-- Every bit of the offset stands somewhere in the word, so different offsets make different words. -/
theorem exists_jumpBody (body : BitVec 11) : ∃ offset, jumpBody offset = body := by
  have hinj : Function.Injective jumpBody := by
    intro x y hxy
    refine Masks.ext_bits fun i hi => ?_
    have hplace : ∀ i < 11, [4, 0, 1, 2, 6, 5, 9, 7, 8, 3, 10].getD
        ([1, 2, 3, 9, 0, 5, 4, 7, 8, 6, 10].getD i 0) 0 = i := by
      decide
    have hin : ∀ i < 11, [1, 2, 3, 9, 0, 5, 4, 7, 8, 6, 10].getD i 0 < 11 := by decide
    have hx := jumpBody_bit x _ (hin i hi)
    have hy := jumpBody_bit y _ (hin i hi)
    rw [hplace i hi] at hx hy
    rw [← hx, ← hy, hxy]
  have : Finite (BitVec 11) := Finite.of_injective BitVec.toFin fun _ _ h => BitVec.toFin_inj.mp h
  exact Finite.surjective_of_injective hinj body

/-- A field value the expansion does not refuse is one that it keeps. -/
theorem kept_of {c : CInstr} {w : U16} (hw : c.encode = w) (h0 : ¬Kept c → expand c.encode = 0) (h : expand w ≠ 0) :
    ∃ c, Kept c ∧ c.encode = w :=
  ⟨c, by_contra fun hc => h (hw ▸ h0 hc), hw⟩

section Complete

variable {f3 : Funct3} {body : BitVec 11}

theorem exists_load (a : CAccess) : ∃ c, Kept c ∧ c.encode = cword a.loadFunct3 body 0b00 := by
  obtain ⟨x, r, y, s, rfl⟩ := exists_layM body
  obtain ⟨offset, rfl, rfl⟩ := exists_offset a x y
  exact ⟨.load a offset r s, trivial, rfl⟩

theorem exists_store (a : CAccess) : ∃ c, Kept c ∧ c.encode = cword a.storeFunct3 body 0b00 := by
  obtain ⟨x, r, y, s, rfl⟩ := exists_layM body
  obtain ⟨offset, rfl, rfl⟩ := exists_offset a x y
  exact ⟨.store a offset r s, trivial, rfl⟩

theorem quadrant0_kept (h : expand (cword f3 body 0b00) ≠ 0) : ∃ c, Kept c ∧ c.encode = cword f3 body 0b00 := by
  rcases funct3_cases f3 with rfl | rfl | rfl | rfl | rfl | rfl | rfl | rfl
  · obtain ⟨u, r, rfl⟩ : ∃ u r, body = layW u r := @exists_append 8 3 body
    obtain ⟨imm, rfl⟩ := exists_frameBits u
    exact kept_of (c := .addi4spn imm r) rfl (fun hc => (expand_addi4spn imm r).trans (if_pos (not_not.mp hc))) h
  · exact exists_load .fp
  · exact exists_load .word
  · exact exists_load .double
  · refine absurd ?_ h
    rw [expand_quadrant0]
    unfold quadrant0
    rw [field_funct3]
    rfl
  · exact exists_store .fp
  · exact exists_store .word
  · exact exists_store .double

theorem misc_kept (h : expand (cword 0b100 body 0b01) ≠ 0) : ∃ c, Kept c ∧ c.encode = cword 0b100 body 0b01 := by
  obtain ⟨o, imm, r, rfl⟩ := exists_immM body
  have ho : ∀ o : BitVec 2, o = 0 ∨ o = 1 ∨ o = 2 ∨ o = 3 := by decide
  rcases ho o with rfl | rfl | rfl | rfl
  · exact ⟨.srli imm r, trivial, rfl⟩
  · exact ⟨.srai imm r, trivial, rfl⟩
  · exact ⟨.andi imm r, trivial, rfl⟩
  · have hop : ∀ (p : BitVec 1) (b : BitVec 2), (p = 1 ∧ (b = 2 ∨ b = 3)) ∨ p = (0 : BitVec 1) ∧ b = 0 ∨
        p = (0 : BitVec 1) ∧ b = 1 ∨ p = (0 : BitVec 1) ∧ b = 2 ∨ p = (0 : BitVec 1) ∧ b = 3 ∨
            p = (1 : BitVec 1) ∧ b = 0 ∨
        p = (1 : BitVec 1) ∧ b = 1 := by decide
    unfold immM at h ⊢
    generalize imm.extractLsb' 5 1 = p at h ⊢
    generalize imm.extractLsb' 3 2 = b at h ⊢
    generalize imm.extractLsb' 0 3 = s at h ⊢
    rcases hop p b with ⟨rfl, hb⟩ | ⟨rfl, rfl⟩ | ⟨rfl, rfl⟩ | ⟨rfl, rfl⟩ | ⟨rfl, rfl⟩ | ⟨rfl, rfl⟩ | ⟨rfl, rfl⟩
    · exact absurd (expand_reg_reserved r s hb) h
    · exact ⟨.reg .sub r s, trivial, rfl⟩
    · exact ⟨.reg .xor r s, trivial, rfl⟩
    · exact ⟨.reg .or r s, trivial, rfl⟩
    · exact ⟨.reg .and r s, trivial, rfl⟩
    · exact ⟨.reg .subw r s, trivial, rfl⟩
    · exact ⟨.reg .addw r s, trivial, rfl⟩

theorem quadrant1_kept (h : expand (cword f3 body 0b01) ≠ 0) : ∃ c, Kept c ∧ c.encode = cword f3 body 0b01 := by
  rcases funct3_cases f3 with rfl | rfl | rfl | rfl | rfl | rfl | rfl | rfl
  · obtain ⟨imm, r, rfl⟩ := exists_immI body
    exact ⟨.addi imm r, trivial, rfl⟩
  · obtain ⟨imm, r, rfl⟩ := exists_immI body
    exact kept_of (c := .addiw imm r) rfl (fun hc => (expand_addiw imm r).trans (if_pos (not_not.mp hc))) h
  · obtain ⟨imm, r, rfl⟩ := exists_immI body
    exact ⟨.li imm r, trivial, rfl⟩
  · -- C.ADDI16SP is C.LUI to the stack pointer
    obtain ⟨a, r, b, rfl⟩ := exists_layI body
    by_cases hr : r = 2
    · subst hr
      obtain ⟨imm, rfl, rfl⟩ := exists_stackBits a b
      exact kept_of (c := .addi16sp imm) rfl (fun hc => (expand_addi16sp imm).trans (if_pos (not_not.mp hc))) h
    · obtain ⟨ha, hb⟩ := append_parts a b
      have hw : (CInstr.lui (a ++ b) r).encode = cword 0b011 (layI a r b) 0b01 := by
        show cword 0b011 (immI (a ++ b) r) 0b01 = _
        rw [immI, ha, hb]
      refine kept_of hw (fun hc => (expand_lui (a ++ b) hr).trans (if_pos ?_)) h
      exact by_contra fun hz => hc ⟨hz, hr⟩
  · exact misc_kept h
  · obtain ⟨offset, rfl⟩ := exists_jumpBody body
    exact ⟨.j offset, trivial, rfl⟩
  · obtain ⟨offset, rs1, rfl⟩ := exists_branchBody body
    exact ⟨.beqz offset rs1, trivial, rfl⟩
  · obtain ⟨offset, rs1, rfl⟩ := exists_branchBody body
    exact ⟨.bnez offset rs1, trivial, rfl⟩

theorem loadSp_kept (a : CAccess) (h : expand (cword a.loadFunct3 body 0b10) ≠ 0) :
    ∃ c, Kept c ∧ c.encode = cword a.loadFunct3 body 0b10 := by
  obtain ⟨x, r, y, rfl⟩ := exists_layI body
  obtain ⟨offset, rfl, rfl⟩ := exists_spOffset a x y
  refine kept_of (c := .loadSp a offset r) rfl (fun hc => (expand_loadSp a offset r).trans (if_pos ?_)) h
  cases a with
  | word => exact ⟨CAccess.noConfusion, not_not.mp hc⟩
  | double => exact ⟨CAccess.noConfusion, not_not.mp hc⟩
  | fp => exact absurd trivial hc

theorem storeSp_kept (a : CAccess) : ∃ c, Kept c ∧ c.encode = cword a.storeFunct3 body 0b10 := by
  obtain ⟨x, r, rfl⟩ : ∃ x r, body = layS x r := @exists_append 6 5 body
  obtain ⟨offset, rfl⟩ := exists_spStore a x
  exact ⟨.storeSp a offset r, trivial, rfl⟩

theorem cr_kept (h : expand (cword 0b100 body 0b10) ≠ 0) : ∃ c, Kept c ∧ c.encode = cword 0b100 body 0b10 := by
  obtain ⟨a, rs1, rs2, rfl⟩ := exists_layI body
  have ha : ∀ a : BitVec 1, a = 0 ∨ a = 1 := by decide
  by_cases h2 : rs2 = 0
  · subst h2
    rcases ha a with rfl | rfl
    · exact kept_of (c := .jr rs1) rfl (fun hc => (expand_cr 0 rs1 0).trans (if_pos (not_not.mp hc))) h
    · by_cases h1 : rs1 = 0
      · subst h1
        exact ⟨.ebreak, trivial, rfl⟩
      · exact ⟨.jalr rs1, h1, rfl⟩
  · rcases ha a with rfl | rfl
    · exact ⟨.mv rs1 rs2, h2, rfl⟩
    · exact ⟨.add rs1 rs2, h2, rfl⟩

theorem quadrant2_kept (h : expand (cword f3 body 0b10) ≠ 0) : ∃ c, Kept c ∧ c.encode = cword f3 body 0b10 := by
  rcases funct3_cases f3 with rfl | rfl | rfl | rfl | rfl | rfl | rfl | rfl
  · obtain ⟨imm, r, rfl⟩ := exists_immI body
    exact kept_of (c := .slli imm r) rfl (fun hc => (expand_slli imm r).trans (if_pos (not_not.mp hc))) h
  · exact loadSp_kept .fp h
  · exact loadSp_kept .word h
  · exact loadSp_kept .double h
  · exact cr_kept h
  · exact storeSp_kept .fp
  · exact storeSp_kept .word
  · exact storeSp_kept .double

end Complete

/-- A word that expands to something is that of an instruction that is kept. -/
theorem exists_of_expand {w : U16} (h : expand w ≠ 0) : ∃ c, Kept c ∧ c.encode = w := by
  obtain ⟨f3, body, q, rfl⟩ := exists_cword w
  have hq : ∀ q : BitVec 2, q = 0b00 ∨ q = 0b01 ∨ q = 0b10 ∨ q = 0b11 := by decide
  rcases hq q with rfl | rfl | rfl | rfl
  · exact quadrant0_kept h
  · exact quadrant1_kept h
  · exact quadrant2_kept h
  · refine absurd ?_ h
    unfold expand
    rw [quadrant_eq]
    rfl

theorem decode_zero (pc : U64) : decodeInstruction 0 pc (decode 0) = .error (.illegalInstruction 0) := by
  rfl

/-- **The expansion keeps every compressed instruction but one.** A 16-bit word is the word of a legal
compressed instruction other than C.SLLI to `x0`, and then the decoder gets the word of the instruction
it stands for and makes of it the signals, registers and immediate of that instruction; or it is the
word of none but that hint, and the expansion is zero, which the decoder refuses. -/
theorem expand_exact (w : U16) (pc : U64) :
    (∃ c : CInstr, c.Legal ∧ (∀ shamt, c ≠ .slli shamt 0) ∧ c.encode = w ∧ expand w = Isa.encode c.meaning ∧
        decodeInstruction (expand w) pc (decode (expand w)) = c.meaning.outcome pc ∧ Carries (expand w) c.meaning) ∨
      (∀ c : CInstr, c.Legal → c.encode = w → ∃ shamt, c = .slli shamt 0) ∧ expand w = 0 ∧
        decodeInstruction (expand w) pc (decode (expand w)) = .error (.illegalInstruction 0) := by
  by_cases h : ∃ c, Kept c ∧ c.encode = w
  · obtain ⟨c, hk, rfl⟩ := h
    obtain ⟨hc, hne⟩ := (kept_iff c).mp hk
    refine Or.inl ⟨c, hc, hne, rfl, expand_encode c hk, ?_, ?_⟩
    · rw [expand_encode c hk, decodeInstruction_encode]
    · rw [expand_encode c hk]
      exact carries_encode c.meaning
  · have hz : expand w = 0 := by_contra fun hne => h (exists_of_expand hne)
    refine Or.inr ⟨fun c hc hw => ?_, hz, ?_⟩
    · by_contra hno
      exact h ⟨c, (kept_iff c).mpr ⟨hc, fun shamt heq => hno ⟨shamt, heq⟩⟩, hw⟩
    · rw [hz]
      exact decode_zero pc

end Rvc

end Rvsim
