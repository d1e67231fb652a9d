/-
# NaN boxing and canonical NaNs

What the floating-point words that the decoder accepts do with the upper half
of an `f` register and with the payload of a NaN. A result of single precision
is boxed, whichever arm computes it and wherever FLW gets its data; an operand
of single precision that is not boxed acts as the canonical NaN; and a NaN that
is computed is the canonical one. Of the host only this is assumed, that an
integer converts to a number.

Two operations keep out of it. FMV.X.W moves the low half of the register as
it is, boxed or not. FCVT.D.S hands the widened operand to the register without
canonicalising it, so that a NaN keeps the payload the host gives it.

Key definitions:
  - `Fpu.Boxed`, `Fpu.CanonicalF32`, `Fpu.CanonicalF64`, `Fpu.Runs`
  - `Fpu.BoxesSingles`, `Fpu.ReadsUnboxed`, `Fpu.CanonicalNans`
Key theorems:
  - `Fpu.Shape`, `Fpu.decodeInstruction_shape`
  - `Fpu.nan_boxing`, `Fpu.nan_boxing_exceptions`
-/
import Rvsim.DecodeExact
import Rvsim.ExecuteAgree
import Rvsim.FpuConvert
import Rvsim.Memory

namespace Rvsim

open Ieee Isa

namespace Fpu

/-! ### Boxes -/

/-- The upper half is all ones. -/
def Boxed (v : U64) : Prop := v &&& nanBoxMask = nanBoxMask

instance (v : U64) : Decidable (Boxed v) := inferInstanceAs (Decidable (_ = _))

theorem boxed_or (v : U64) : Boxed (v ||| nanBoxMask) := by
  unfold Boxed
  refine Masks.ext_bits fun i _ => ?_
  rw [BitVec.getLsbD_and, BitVec.getLsbD_or]
  cases v.getLsbD i <;> cases nanBoxMask.getLsbD i <;> rfl

theorem boxed_boxF32 (f : U32) : Boxed (boxF32 f) := boxed_or _

theorem low_boxF32 (f : U32) : (boxF32 f).setWidth 32 = f := by
  refine Masks.ext_bits fun i hi => ?_
  have hmask : nanBoxMask.getLsbD i = false := by
    revert i
    decide
  unfold boxF32
  rw [BitVec.getLsbD_setWidth, BitVec.getLsbD_or, BitVec.getLsbD_setWidth, hmask, decide_eq_true hi]
  simp [Nat.lt_trans hi (by decide : 32 < 64)]

/-- A single-precision operand as it acts: what is not boxed is the canonical NaN. -/
def rebox (single : Bool) (v : U64) : U64 := if single && !decide (Boxed v) then 0xFFFFFFFF7FC00000 else v

theorem unboxF32_rebox (single : Bool) (v : U64) : unboxF32 (rebox single v) = unboxF32 v := by
  by_cases hv : Boxed v
  · simp [rebox, hv]
  · cases single with
    | false => rfl
    | true =>
      have hunbox : unboxF32 v = canonicalNanF32 := if_neg hv
      rw [hunbox]
      simp only [rebox, hv, decide_false, Bool.not_false, Bool.and_self, if_true]
      decide

/-! ### Canonical NaNs -/

/-- A NaN in the low half is the canonical one, boxed. -/
def CanonicalF32 (r : U64) : Prop := isNanF32 (r.setWidth 32) = true → r = boxF32 canonicalNanF32

def CanonicalF64 (r : U64) : Prop := isNanF64 r = true → r = canonicalNanF64

theorem isNanF32_iff (f : U32) : isNanF32 f = true ↔ f &&& 0x7F800000 = 0x7F800000 ∧ f &&& 0x007FFFFF ≠ 0 :=
  binary32.isNan_iff_masks (by decide) f

theorem isNanF64_iff (f : U64) :
    isNanF64 f = true ↔ f &&& 0x7FF0000000000000 = 0x7FF0000000000000 ∧ f &&& 0x000FFFFFFFFFFFFF ≠ 0 :=
  binary64.isNan_iff_masks (by decide) f

/-- The mask test of the canonicaliser is the test for a NaN. -/
theorem boxF32Canon_eq (f : U32) : boxF32Canon f = boxF32 (if isNanF32 f then canonicalNanF32 else f) := by
  unfold boxF32Canon
  by_cases h : isNanF32 f = true
  · rw [if_pos ((isNanF32_iff f).mp h), if_pos h]
  · rw [if_neg (mt (isNanF32_iff f).mpr h), if_neg h]

theorem canonicalizeF64Bits_eq (f : U64) : canonicalizeF64Bits f = if isNanF64 f then canonicalNanF64 else f := by
  unfold canonicalizeF64Bits
  by_cases h : isNanF64 f = true
  · rw [if_pos ((isNanF64_iff f).mp h), if_pos h]
  · rw [if_neg (mt (isNanF64_iff f).mpr h), if_neg h]

theorem boxed_boxF32Canon (f : U32) : Boxed (boxF32Canon f) := by
  rw [boxF32Canon_eq]
  exact boxed_boxF32 _

/-- A boxed result is canonical as soon as its NaN is. -/
theorem canonicalF32_boxF32 {f : U32} (h : isNanF32 f = true → f = canonicalNanF32) : CanonicalF32 (boxF32 f) := by
  intro hn
  rw [low_boxF32] at hn
  rw [h hn]

theorem canonicalF32_boxF32Canon (f : U32) : CanonicalF32 (boxF32Canon f) := by
  rw [boxF32Canon_eq]
  refine canonicalF32_boxF32 fun hn => ?_
  by_cases h : isNanF32 f = true
  · rw [if_pos h]
  · rw [if_neg h] at hn
    exact absurd hn h

theorem canonicalF64_canonicalizeF64Bits (f : U64) : CanonicalF64 (canonicalizeF64Bits f) := by
  rw [canonicalizeF64Bits_eq]
  intro hn
  by_cases h : isNanF64 f = true
  · rw [if_pos h]
  · rw [if_neg h] at hn
    exact absurd hn h

/-- Minimum and maximum are NaN only of two NaNs. -/
theorem preferNumber_nan {n : Nat} {isNan : BitVec n → Bool} {canonical a b pick : BitVec n} (hp : pick = a ∨ pick = b)
    (h : isNan (preferNumber isNan canonical a b pick) = true) : preferNumber isNan canonical a b pick = canonical := by
  unfold preferNumber at h ⊢
  cases ha : isNan a <;> cases hb : isNan b
  · simp only [ha, hb] at h
    rcases hp with rfl | rfl
    · exact absurd h (by simp [ha])
    · exact absurd h (by simp [hb])
  · simp only [ha, hb] at h
    exact absurd h Bool.false_ne_true
  · simp only [ha, hb] at h
    exact absurd h Bool.false_ne_true
  · rfl

theorem minNumber_mem {n : Nat} (f : Format) (z a b : BitVec n) : minNumber f z a b = a ∨ minNumber f z a b = b := by
  unfold minNumber
  split_ifs <;> simp

theorem maxNumber_mem {n : Nat} (f : Format) (z a b : BitVec n) : maxNumber f z a b = a ∨ maxNumber f z a b = b := by
  unfold maxNumber
  split_ifs <;> simp

/-! ### The decoder -/

/-- Operations that write an `f` register. -/
def writesFp : AluOp → Bool
  | .fEq | .fLt | .fLe | .fClass | .fMvToX | .fCvtWS | .fCvtWUS | .fCvtLS | .fCvtLUS => false
  | _ => true

/-- Operations whose first operand is an integer register. -/
def readsInt : AluOp → Bool
  | .fMvToF | .fCvtSW | .fCvtSWU | .fCvtSL | .fCvtSLU => true
  | _ => false

def isFp (op : AluOp) : Bool := O3.isHostConvert op || op == .fMvToF || O3.isFpOp op

/-- The signals of a floating-point computation, as far as precision is concerned. -/
structure Shape (f7 : Funct7) (c : ControlSignals) : Prop where
  fp : isFp c.alu = true
  notMem : c.isMem = false
  controlFlow : c.controlFlow = .sequential
  operands : c.aSrc = .reg1 ∧ c.bSrc = .reg2
  single : c.isRv32 = (f7 &&& 3 == 0)
  dest : c.fpRegWrite = writesFp c.alu
  rs1 : c.rs1Fp = !readsInt c.alu
  narrow : c.alu = .fCvtSD → f7 = 0b0100000
  widen : c.alu = .fCvtDS → f7 = 0b0100001

/-- The operations of one format. -/
def OneFormat (op : AluOp) : Prop := isFp op = true ∧ op ≠ .fCvtSD ∧ op ≠ .fCvtDS

instance (op : AluOp) : Decidable (OneFormat op) := inferInstanceAs (Decidable (_ ∧ _))

theorem forall_mem_dite {α : Type} {p : Prop} [Decidable p] {x y : Option α} {Q : α → Prop}
    (hx : p → ∀ c ∈ x, Q c) (hy : ∀ c ∈ y, Q c) : ∀ c ∈ (if p then x else y), Q c := by
  split
  · next h => exact hx h
  · exact hy

theorem forall_mem_cvtSelect {rs2 : RegIdx} {w wu l lu : AluOp} {f : AluOp → ControlSignals} {Q : ControlSignals → Prop}
    (hw : Q (f w)) (hwu : Q (f wu)) (hl : Q (f l)) (hlu : Q (f lu)) : ∀ c ∈ (cvtSelect rs2 w wu l lu).map f, Q c := by
  intro c hc
  obtain ⟨op, hop, rfl⟩ := Option.map_eq_some_iff.mp hc
  unfold cvtSelect at hop
  split_ifs at hop <;> cases hop <;> assumption

/-- Every arm of `OP-FP` sets the register files its operation reads and writes. -/
theorem decodeFp_shape (d : Decoded) (c : ControlSignals) (hm : c.isMem = false) (hc : c.controlFlow = .sequential)
    (ho : c.aSrc = .reg1 ∧ c.bSrc = .reg2) (hs : c.isRv32 = (d.funct7 &&& 3 == 0)) (hw : c.fpRegWrite = true)
    (h1 : c.rs1Fp = true) :
    ∀ s ∈ decodeFp d c, Shape d.funct7 s := by
  have plain : ∀ op, OneFormat op → writesFp op = true → readsInt op = false → Shape d.funct7 { c with alu := op } :=
    fun op hf hwo hro =>
      ⟨hf.1, hm, hc, ho, hs, hw.trans hwo.symm, h1.trans (by rw [hro]; rfl), fun h => absurd h hf.2.1,
          fun h => absurd h hf.2.2⟩
  have toX : ∀ op, OneFormat op → writesFp op = false → readsInt op = false →
      Shape d.funct7 { c with fpRegWrite := false, regWrite := true, alu := op } :=
    fun op hf hwo hro =>
      ⟨hf.1, hm, hc, ho, hs, hwo.symm, h1.trans (by rw [hro]; rfl), fun h => absurd h hf.2.1, fun h => absurd h hf.2.2⟩
  have fromX : ∀ op, OneFormat op → writesFp op = true → readsInt op = true →
      Shape d.funct7 { c with rs1Fp := false, fpRegWrite := true, alu := op } :=
    fun op hf hwo hro =>
      ⟨hf.1, hm, hc, ho, hs, hwo.symm, by rw [hro]; rfl, fun h => absurd h hf.2.1, fun h => absurd h hf.2.2⟩
  unfold decodeFp
  dsimp only
  repeat' first
    | refine forall_mem_dite (fun _ => ?_) ?_
    | exact forall_mem_none
    | exact forall_mem_some (plain _ (by decide) rfl rfl)
    | exact forall_mem_some (toX _ (by decide) rfl rfl)
    | exact forall_mem_some (fromX _ (by decide) rfl rfl)
  · exact forall_mem_cvtSelect (toX _ (by decide) rfl rfl) (toX _ (by decide) rfl rfl) (toX _ (by decide) rfl rfl)
      (toX _ (by decide) rfl rfl)
  · exact forall_mem_cvtSelect (fromX _ (by decide) rfl rfl) (fromX _ (by decide) rfl rfl)
      (fromX _ (by decide) rfl rfl) (fromX _ (by decide) rfl rfl)
  · next h => exact forall_mem_some ⟨rfl, hm, hc, ho, hs, hw, h1, nofun, fun _ => h⟩
  · next h => exact forall_mem_some ⟨rfl, hm, hc, ho, hs, hw, h1, fun _ => h, nofun⟩

/-- FCVT.S.D and FCVT.D.S, the two that read the other format. -/
theorem decodeFp_convert (d : Decoded) (c : ControlSignals) (h : d.funct7 = 0b0100000 ∨ d.funct7 = 0b0100001) :
    ∀ s ∈ decodeFp d c, s.alu = .fCvtSD ∨ s.alu = .fCvtDS := by
  rcases h with h | h
  · simp [decodeFp, h]
  · simp [decodeFp, h]

/-- `OP-FP` and the fused multiply-adds. -/
def IsFpWord (w : U32) : Prop :=
  Inst.opcode w = Op.fp ∨ Inst.opcode w = Op.fmadd ∨ Inst.opcode w = Op.fmsub ∨ Inst.opcode w = Op.fnmadd ∨
    Inst.opcode w = Op.fnmsub

/-- The format field names single precision: the format of the result, if it is a float. -/
def isSingle (w : U32) : Bool := Inst.funct7 w &&& 3 == 0

/-- FCVT.S.D or FCVT.D.S, by opcode and the upper bits of `funct7`. -/
def BetweenFormats (w : U32) : Prop := Inst.opcode w = Op.fp ∧ funct5 (Inst.funct7 w) = 0b01000

instance (w : U32) : Decidable (BetweenFormats w) := inferInstanceAs (Decidable (_ ∧ _))

/-- The float operands are of single precision. -/
def singleSource (w : U32) : Bool := if BetweenFormats w then !isSingle w else isSingle w

theorem funct7_of_between : ∀ f7 : Funct7, funct5 f7 = 0b01000 → f7 &&& 3 = 0 ∨ f7 &&& 3 = 1 →
    f7 = 0b0100000 ∨ f7 = 0b0100001 := by
  decide

theorem decodeInstruction_fp {w : U32} {pc : U64} {c : ControlSignals} (hop : Inst.opcode w ≠ Op.system)
    (hd : decodeInstruction w pc (decode w) = .ok c) : c ∈ decodeCommon (decode w) := by
  unfold decodeInstruction at hd
  rw [decode_opcode, if_neg hop] at hd
  cases hc : decodeCommon (decode w) with
  | none =>
    rw [hc] at hd
    cases hd
  | some c' =>
    rw [hc] at hd
    cases hd
    rfl

theorem fmt_beq_zero (f7 : Funct7) : (f7 &&& 3 == 0) = decide (fmtBits f7 = 0) := by
  rw [beq_eq_decide, decide_eq_decide]
  exact fmt_eq_zero f7

/-- What is known of the signals of an accepted word. -/
theorem decodeInstruction_shape {w : U32} {pc : U64} {c : ControlSignals} (hw : IsFpWord w)
    (hd : decodeInstruction w pc (decode w) = .ok c) :
    Shape (Inst.funct7 w) c ∧ (BetweenFormats w ↔ c.alu = .fCvtSD ∨ c.alu = .fCvtDS) := by
  have fused : ∀ o : FusedOp, Inst.opcode w = o.opcode →
      Shape (Inst.funct7 w) c ∧ (BetweenFormats w ↔ c.alu = .fCvtSD ∨ c.alu = .fCvtDS) := by
    intro o ho
    have hc := decodeInstruction_fp (by rw [ho]; cases o <;> decide) hd
    rw [decodeCommon_fused o ho] at hc
    cases hc
    have hne : ¬ BetweenFormats w := fun h => by
      have hfp := ho.symm.trans h.1
      cases o <;> exact absurd hfp (by decide)
    have hsingle : decide (fmtBits (Inst.funct7 w) = 0) = (Inst.funct7 w &&& 3 == 0) := (fmt_beq_zero _).symm
    refine ⟨?_, iff_of_false hne ?_⟩
    · cases o <;> exact ⟨rfl, rfl, rfl, ⟨rfl, rfl⟩, hsingle, rfl, rfl, nofun, nofun⟩
    · cases o <;> exact fun h => h.elim nofun nofun
  rcases hw with hop | hop | hop | hop | hop
  · have hc := decodeInstruction_fp (by rw [hop]; decide) hd
    by_cases hf : fmtBits (Inst.funct7 w) = 0 ∨ fmtBits (Inst.funct7 w) = 1
    · obtain ⟨fmt, hfmt⟩ := exists_fmt hf
      rw [decodeCommon_fp fmt hop hfmt.symm] at hc
      have hsingle : (fpSignals fmt .add).isRv32 = (Inst.funct7 w &&& 3 == 0) := by
        rw [fmt_beq_zero, ← hfmt]
        cases fmt <;> rfl
      have hshape := decodeFp_shape (decode w) (fpSignals fmt .add) rfl rfl ⟨rfl, rfl⟩ hsingle rfl rfl c hc
      refine ⟨hshape, fun hb => ?_, fun ha => ⟨hop, ?_⟩⟩
      · have hf7 := funct7_of_between _ hb.2 (hf.imp (fmt_eq_zero _).mpr (fmt_eq_one _).mpr)
        exact decodeFp_convert (decode w) _ hf7 c hc
      · rcases ha with ha | ha
        · exact (congrArg funct5 (hshape.narrow ha)).trans (by decide)
        · exact (congrArg funct5 (hshape.widen ha)).trans (by decide)
    · rw [decodeCommon_fp_none hop hf] at hc
      cases hc
  · exact fused .fmadd hop
  · exact fused .fmsub hop
  · exact fused .fnmadd hop
  · exact fused .fnmsub hop

/-! ### The unit -/

theorem executeF32_boxed (h : Host) {op : AluOp} (hop : O3.isFpOp op = true) (hw : writesFp op = true) (a b c : U64) :
    Boxed (executeF32 h op a b c).1 := by
  cases op
  case fAdd | fSub | fMul | fDiv | fSqrt | fMAdd | fMSub | fNMAdd | fNMSub => exact boxed_boxF32Canon _
  case fMin | fMax | fSgnJ | fSgnJN | fSgnJX => exact boxed_boxF32 _
  all_goals first | exact absurd hop (by decide) | exact absurd hw (by decide)

/-- Only the moves and the conversions from integers look past the unboxed operands. -/
theorem executeF32_congr (h : Host) {op : AluOp} (hop : O3.isFpOp op = true) (hx : op ≠ .fMvToX) {a a' b b' c c' : U64}
    (ha : unboxF32 a = unboxF32 a') (hb : unboxF32 b = unboxF32 b') (hc : unboxF32 c = unboxF32 c') :
    executeF32 h op a b c = executeF32 h op a' b' c' := by
  unfold executeF32
  rw [ha, hb, hc]
  cases op <;> first
    | rfl
    | exact absurd hop (by decide)
    | exact absurd rfl hx

theorem manualFlags_congr (op : AluOp) {a a' b b' : U64} (ha : unboxF32 a = unboxF32 a')
    (hb : unboxF32 b = unboxF32 b') : manualFlags op a b true = manualFlags op a' b' true := by
  have hs : signalingFlags a b true = signalingFlags a' b' true := by
    simp only [signalingFlags, if_true, ha, hb]
  have hn : nanFlags a b true = nanFlags a' b' true := by
    simp only [nanFlags, if_true, ha, hb]
  have hv : operandValue a true = operandValue a' true := by
    simp only [operandValue, if_true, ha]
  unfold manualFlags
  rw [hs, hn, hv]

theorem executeFull_congr (h : Host) {op : AluOp} (hop : O3.isFpOp op = true) (hx : op ≠ .fMvToX)
    {a a' b b' c c' : U64} (ha : unboxF32 a = unboxF32 a') (hb : unboxF32 b = unboxF32 b')
    (hc : unboxF32 c = unboxF32 c') : executeFull h op a b c true = executeFull h op a' b' c' true := by
  unfold executeFull
  simp only [if_true]
  rw [executeF32_congr h hop hx ha hb hc, manualFlags_congr op ha hb]

theorem executeFull_fst (h : Host) (op : AluOp) (a b c : U64) (is32 : Bool) :
    (executeFull h op a b c is32).1 = if is32 then (executeF32 h op a b c).1 else (executeF64 h op a b c).1 := by
  unfold executeFull
  cases isArith op <;> cases is32 <;> rfl

/-- Sign injection and moves, which pass NaNs on as they are. -/
def movesBits : AluOp → Bool
  | .fSgnJ | .fSgnJN | .fSgnJX | .fMvToF | .fMvToX => true
  | _ => false

theorem executeF32_canonical (h : Host) {op : AluOp} (hop : O3.isFpOp op = true) (hw : writesFp op = true)
    (hm : movesBits op = false) (a b c : U64) : CanonicalF32 (executeF32 h op a b c).1 := by
  cases op
  case fAdd | fSub | fMul | fDiv | fSqrt | fMAdd | fMSub | fNMAdd | fNMSub => exact canonicalF32_boxF32Canon _
  case fMin => exact canonicalF32_boxF32 (preferNumber_nan (minNumber_mem ..))
  case fMax => exact canonicalF32_boxF32 (preferNumber_nan (maxNumber_mem ..))
  all_goals first | exact absurd hop (by decide) | exact absurd hw (by decide) | exact absurd hm (by decide)

theorem executeF64_canonical (h : Host) {op : AluOp} (hop : O3.isFpOp op = true) (hw : writesFp op = true)
    (hm : movesBits op = false) (a b c : U64) : CanonicalF64 (executeF64 h op a b c).1 := by
  cases op
  case fAdd | fSub | fMul | fDiv | fSqrt | fMAdd | fMSub | fNMAdd | fNMSub => exact canonicalF64_canonicalizeF64Bits _
  case fMin => exact preferNumber_nan (minNumber_mem ..)
  case fMax => exact preferNumber_nan (maxNumber_mem ..)
  all_goals first | exact absurd hop (by decide) | exact absurd hw (by decide) | exact absurd hm (by decide)

/-- An integer converts to a number. -/
structure Host.IntsAreNumbers (h : Host) : Prop where
  f32 : ∀ n, isNanF32 (h.intToF32 n).1 = false
  f64 : ∀ n, isNanF64 (h.intToF64 n).1 = false

theorem fromInt_boxed (h : Host) (n : Int) : Boxed (fromInt h true n).1 := boxed_boxF32 _

theorem fromInt_canonicalF32 {h : Host} (hi : h.IntsAreNumbers) (n : Int) : CanonicalF32 (fromInt h true n).1 :=
  canonicalF32_boxF32 fun hn => absurd hn (by rw [hi.f32 n]; decide)

theorem fromInt_canonicalF64 {h : Host} (hi : h.IntsAreNumbers) (n : Int) : CanonicalF64 (fromInt h false n).1 :=
  fun hn => absurd hn (by
    show ¬ isNanF64 (h.intToF64 n).1 = true
    rw [hi.f64 n]
    decide)

theorem convert_boxed (h : Host) {op : AluOp} (hop : O3.isHostConvert op = true) (hd : op ≠ .fCvtDS) (a : U64) :
    Boxed (convert h op a true).1 := by
  cases op
  case fCvtSW | fCvtSL | fCvtSWU | fCvtSLU => exact fromInt_boxed h _
  case fCvtSD => exact boxed_boxF32Canon _
  case fCvtDS => exact absurd rfl hd
  all_goals exact absurd hop (by decide)

theorem convert_canonicalF32 {h : Host} (hi : h.IntsAreNumbers) {op : AluOp} (hop : O3.isHostConvert op = true)
    (hd : op ≠ .fCvtDS) (a : U64) : CanonicalF32 (convert h op a true).1 := by
  cases op
  case fCvtSW | fCvtSL | fCvtSWU | fCvtSLU => exact fromInt_canonicalF32 hi _
  case fCvtSD => exact canonicalF32_boxF32Canon _
  case fCvtDS => exact absurd rfl hd
  all_goals exact absurd hop (by decide)

theorem convert_canonicalF64 {h : Host} (hi : h.IntsAreNumbers) {op : AluOp} (hop : O3.isHostConvert op = true)
    (hd : op ≠ .fCvtDS) (hs : op ≠ .fCvtSD) (a : U64) : CanonicalF64 (convert h op a false).1 := by
  cases op
  case fCvtSW | fCvtSL | fCvtSWU | fCvtSLU => exact fromInt_canonicalF64 hi _
  case fCvtSD => exact absurd rfl hs
  case fCvtDS => exact absurd rfl hd
  all_goals exact absurd hop (by decide)

/-! ### The two copies of `compute_alu` -/

/-- The units hand floating-point work to the source's own unit, on the host `h`. -/
structure Runs (U : Type) [Units U] (h : Host) : Prop where
  executeFull : Units.fpuExecuteFull U = executeFull h
  convert : Units.fpuConvert U = convert h

section Compute

variable {U : Type} [Units U] {h : Host} (hr : Runs U h) {op : AluOp} (a b c : U64) (isRv32 : Bool)

include hr

theorem computeAlu_convert (hop : O3.isHostConvert op = true) :
    O3.computeAlu U op a b c isRv32 = convert h op a isRv32 := by
  unfold O3.computeAlu
  rw [if_pos hop, hr.convert]

theorem computeAlu_execute (hop : O3.isFpOp op = true) :
    O3.computeAlu U op a b c isRv32 = executeFull h op a b c isRv32 := by
  have hc : ¬ O3.isHostConvert op = true := by
    cases op <;> first | exact absurd hop (by decide) | decide
  have hm : op ≠ .fMvToF := fun hm => absurd (hm ▸ hop) (by decide)
  unfold O3.computeAlu
  rw [if_neg hc, if_neg hm, if_pos hop, hr.executeFull]

omit hr in
theorem computeAlu_move : O3.computeAlu U .fMvToF a b c isRv32 =
    (if isRv32 then nanBoxMask ||| (a.setWidth 32).setWidth 64 else a, 0) := rfl

theorem computeAlu_boxed (hop : isFp op = true) (hw : writesFp op = true) (hd : op ≠ .fCvtDS) :
    Boxed (O3.computeAlu U op a b c true).1 := by
  unfold isFp at hop
  simp only [Bool.or_eq_true, beq_iff_eq] at hop
  rcases hop with (hop | rfl) | hop
  · rw [computeAlu_convert hr a b c true hop]
    exact convert_boxed h hop hd a
  · rw [computeAlu_move]
    have hor : nanBoxMask ||| (a.setWidth 32).setWidth 64 = (a.setWidth 32).setWidth 64 ||| nanBoxMask :=
      BitVec.or_comm _ _
    simp only [if_true, hor]
    exact boxed_or _
  · rw [computeAlu_execute hr a b c true hop, executeFull_fst, if_pos rfl]
    exact executeF32_boxed h hop hw a b c

theorem computeAlu_canonicalF32 (hi : h.IntsAreNumbers) (hop : isFp op = true) (hw : writesFp op = true)
    (hm : movesBits op = false) (hd : op ≠ .fCvtDS) : CanonicalF32 (O3.computeAlu U op a b c true).1 := by
  unfold isFp at hop
  simp only [Bool.or_eq_true, beq_iff_eq] at hop
  rcases hop with (hop | rfl) | hop
  · rw [computeAlu_convert hr a b c true hop]
    exact convert_canonicalF32 hi hop hd a
  · exact absurd hm (by decide)
  · rw [computeAlu_execute hr a b c true hop, executeFull_fst, if_pos rfl]
    exact executeF32_canonical h hop hw hm a b c

theorem computeAlu_canonicalF64 (hi : h.IntsAreNumbers) (hop : isFp op = true) (hw : writesFp op = true)
    (hm : movesBits op = false) (hd : op ≠ .fCvtDS) (hs : op ≠ .fCvtSD) :
    CanonicalF64 (O3.computeAlu U op a b c false).1 := by
  unfold isFp at hop
  simp only [Bool.or_eq_true, beq_iff_eq] at hop
  rcases hop with (hop | rfl) | hop
  · rw [computeAlu_convert hr a b c false hop]
    exact convert_canonicalF64 hi hop hd hs a
  · exact absurd hm (by decide)
  · rw [computeAlu_execute hr a b c false hop, executeFull_fst, if_neg Bool.false_ne_true]
    exact executeF64_canonical h hop hw hm a b c

end Compute

/-! ### Rules of a word -/

/-- A copy of `compute_alu`: operation, three operands and precision to result and flags. -/
abbrev Compute := AluOp → U64 → U64 → U64 → Bool → U64 × U8

/-- A result of single precision is boxed. -/
def BoxesSingles (compute : Compute) (w : U32) (c : ControlSignals) : Prop :=
  c.fpRegWrite = true → isSingle w = true → ∀ a b x, Boxed (compute c.alu a b x c.isRv32).1

/-- Result and flags see an operand of single precision through its box. -/
def ReadsUnboxed (compute : Compute) (w : U32) (c : ControlSignals) : Prop :=
  ∀ a b x, compute c.alu (rebox (c.rs1Fp && singleSource w) a) (rebox (c.rs2Fp && singleSource w) b)
    (rebox (c.rs3Fp && singleSource w) x) c.isRv32 = compute c.alu a b x c.isRv32

/-- A NaN result is the canonical one of its format. -/
def CanonicalNans (compute : Compute) (w : U32) (c : ControlSignals) : Prop :=
  c.fpRegWrite = true → ∀ a b x,
    if isSingle w then CanonicalF32 (compute c.alu a b x c.isRv32).1 else CanonicalF64 (compute c.alu a b x c.isRv32).1

/-- What an accepted floating-point word does, its signals being `c`. -/
structure FpRules (compute : Compute) (w : U32) (c : ControlSignals) : Prop where
  operands : ∀ id : RenameIssueEntry, id.ctrl = c → O3.opA id = id.rv1 ∧ O3.opB id = id.rv2
  boxed : BoxesSingles compute w c
  unboxed : c.alu ≠ .fMvToX → ReadsUnboxed compute w c
  canonical : movesBits c.alu = false → c.alu ≠ .fCvtDS → CanonicalNans compute w c

theorem Shape.isRv32_eq {w : U32} {c : ControlSignals} (hs : Shape (Inst.funct7 w) c) :
    c.isRv32 = isSingle w := hs.single

/-- The widening conversion has a double result. -/
theorem Shape.widen_single {w : U32} {c : ControlSignals} (hs : Shape (Inst.funct7 w) c) (h : c.alu = .fCvtDS) :
    isSingle w = false := by
  unfold isSingle
  rw [hs.widen h]
  decide

theorem Shape.narrow_single {w : U32} {c : ControlSignals} (hs : Shape (Inst.funct7 w) c) (h : c.alu = .fCvtSD) :
    isSingle w = true := by
  unfold isSingle
  rw [hs.narrow h]
  decide

theorem rebox_false (v : U64) : rebox false v = v := rfl

section Rules

variable {U : Type} [Units U] {h : Host} {w : U32} {c : ControlSignals}

theorem boxesSingles (hr : Runs U h) (hs : Shape (Inst.funct7 w) c) : BoxesSingles (O3.computeAlu U) w c := by
  intro hfp hsingle a b x
  rw [hs.isRv32_eq, hsingle]
  refine computeAlu_boxed hr a b x hs.fp (hs.dest ▸ hfp) fun hd => ?_
  exact absurd hsingle (by rw [hs.widen_single hd]; decide)

theorem readsUnboxed (hr : Runs U h) (hs : Shape (Inst.funct7 w) c)
    (hb : BetweenFormats w ↔ c.alu = .fCvtSD ∨ c.alu = .fCvtDS) (hx : c.alu ≠ .fMvToX) :
    ReadsUnboxed (O3.computeAlu U) w c := by
  intro a b x
  by_cases hd : c.alu = .fCvtDS
  · -- the conversion reads its one operand through `unbox_f32`
    rw [hd, computeAlu_convert hr _ _ _ _ rfl, computeAlu_convert hr _ _ _ _ rfl]
    show convert h .fCvtDS _ _ = convert h .fCvtDS a _
    unfold convert
    simp only [unboxF32_rebox]
  · by_cases hn : c.alu = .fCvtSD
    · have hsource : singleSource w = false := by
        unfold singleSource
        rw [if_pos (hb.mpr (Or.inl hn)), hs.narrow_single hn]
        rfl
      simp only [hsource, Bool.and_false, rebox_false]
    · have hsource : singleSource w = c.isRv32 := by
        unfold singleSource
        rw [if_neg fun hbet => (hb.mp hbet).elim hn hd, hs.isRv32_eq]
      rw [hsource]
      cases hrv : c.isRv32 with
      | false => simp only [Bool.and_false, rebox_false]
      | true =>
        by_cases hint : readsInt c.alu = true
        · -- an integer operand is no single, and the others are not read
          rw [hs.rs1, hint]
          simp only [Bool.not_true, Bool.false_and, rebox_false]
          by_cases hmv : c.alu = .fMvToF
          · rw [hmv]
            rfl
          · have hconv : O3.isHostConvert c.alu = true := by
              revert hint hmv
              cases c.alu <;> decide
            rw [computeAlu_convert hr _ _ _ _ hconv, computeAlu_convert hr _ _ _ _ hconv]
        · have hop : O3.isFpOp c.alu = true := by
            have hfp := hs.fp
            revert hint hfp hd hn
            cases c.alu <;> decide
          rw [computeAlu_execute hr _ _ _ _ hop, computeAlu_execute hr _ _ _ _ hop]
          exact executeFull_congr h hop hx (unboxF32_rebox _ a) (unboxF32_rebox _ b) (unboxF32_rebox _ x)

theorem canonicalNans (hr : Runs U h) (hi : h.IntsAreNumbers) (hs : Shape (Inst.funct7 w) c)
    (hm : movesBits c.alu = false) (hd : c.alu ≠ .fCvtDS) : CanonicalNans (O3.computeAlu U) w c := by
  intro hfp a b x
  have hw : writesFp c.alu = true := hs.dest ▸ hfp
  rw [hs.isRv32_eq]
  cases hsingle : isSingle w with
  | true =>
    rw [if_pos rfl]
    exact computeAlu_canonicalF32 hr a b x hi hs.fp hw hm hd
  | false =>
    rw [if_neg Bool.false_ne_true]
    refine computeAlu_canonicalF64 hr a b x hi hs.fp hw hm hd fun hn => ?_
    exact absurd (hs.narrow_single hn) (by rw [hsingle]; decide)

theorem fpRules (hr : Runs U h) (hi : h.IntsAreNumbers) (hs : Shape (Inst.funct7 w) c)
    (hb : BetweenFormats w ↔ c.alu = .fCvtSD ∨ c.alu = .fCvtDS) : FpRules (O3.computeAlu U) w c where
  operands := by
    rintro id rfl
    unfold O3.opA O3.opB
    rw [hs.operands.1, hs.operands.2]
    exact ⟨rfl, rfl⟩
  boxed := boxesSingles hr hs
  unboxed := readsUnboxed hr hs hb
  canonical := canonicalNans hr hi hs

end Rules

/-! ### Memory and writeback -/

section Memory

variable {U : Type} [Units U] {s s' : Mem2State U} {m : Mem1Mem2Entry} {wb : Mem2WbEntry}

/-- A computed result passes memory2 and is written as it is. -/
theorem memory2One_computed (hm : m.ctrl.isMem = false) (hc : m.ctrl.controlFlow = .sequential) :
    memory2One s m = some (m.toWb 0, s) ∧ (m.toWb 0).result = m.alu := by
  unfold ControlSignals.isMem at hm
  simp only [Bool.or_eq_false_iff, bne_eq_false_iff_eq] at hm
  obtain ⟨⟨hread, hwrite⟩, hatomic⟩ := hm
  constructor
  · simp [memory2One, hread, hwrite, hatomic]
  · simp [Mem2WbEntry.result, Mem1Mem2Entry.toWb, hread, hc]

theorem extendLoad_boxed {c : ControlSignals} (hf : c.fpRegWrite = true) (hw : c.width = .word) (v : U64) :
    Boxed (extendLoad c v) := by
  unfold extendLoad
  simp only [hf, hw, Bool.true_and, beq_self_eq_true, if_true]
  exact boxed_or _

/-- A word loaded into an `f` register is boxed, forwarded or read. -/
theorem memory2One_loaded (ha : m.ctrl.atomicOp = .none) (hr : m.ctrl.memRead = true) (hf : m.ctrl.fpRegWrite = true)
    (hw : m.ctrl.width = .word) (h : memory2One s m = some (wb, s')) : Boxed wb.result := by
  have hboxed := extendLoad_boxed hf hw
  simp only [memory2One, ha, ne_eq, not_true_eq_false, if_false, hr, if_true] at h
  unfold mem2Load at h
  cases hfw : s.sb.forwardLoad m.paddr m.ctrl.width m.robTag with
  | hit v =>
    simp only [hfw, Option.some.injEq, Prod.mk.injEq] at h
    rw [← h.1]
    simpa [Mem2WbEntry.result, Mem1Mem2Entry.toWb, hr] using hboxed v
  | stall => simp [hfw] at h
  | miss =>
    simp only [hfw, Option.some.injEq, Prod.mk.injEq] at h
    rw [← h.1]
    simpa [Mem2WbEntry.result, Mem1Mem2Entry.toWb, hr] using hboxed _

end Memory

/-- FLW: the signals of the one load whose result is a single. -/
def IsFlw (w : U32) : Prop := Inst.opcode w = Op.loadFp ∧ Inst.funct3 w = 2

theorem decodeInstruction_flw {w : U32} {pc : U64} {c : ControlSignals} (hw : IsFlw w)
    (hd : decodeInstruction w pc (decode w) = .ok c) : c = { fpRegWrite := true, memRead := true, width := .word } := by
  have hc := decodeInstruction_fp (by rw [hw.1]; decide) hd
  rw [decodeCommon_loadFp hw.1, decode_funct3, hw.2] at hc
  exact (Option.mem_some_iff.mp hc).symm

/-- **NaN boxing and canonical NaNs.** Of every floating-point word the decoder
accepts, in both copies of the execution: single results are boxed, also those
that FLW loads; but for FMV.X.W, operands act through their box; and but for
sign injection, moves and FCVT.D.S, a NaN result is the canonical one. -/
theorem nan_boxing {U : Type} [Units U] {h : Host} (hr : Runs U h) (hi : h.IntsAreNumbers) {w : U32} {pc : U64}
    {c : ControlSignals} (hd : decodeInstruction w pc (decode w) = .ok c) :
    (IsFpWord w → FpRules (O3.computeAlu U) w c ∧ FpRules (InOrder.computeAlu U) w c ∧
      ∀ (s : Mem2State U) (m : Mem1Mem2Entry), m.ctrl = c →
        memory2One s m = some (m.toWb 0, s) ∧ (m.toWb 0).result = m.alu) ∧
    (IsFlw w → ∀ (s s' : Mem2State U) (m : Mem1Mem2Entry) (wb : Mem2WbEntry), m.ctrl = c →
      memory2One s m = some (wb, s') → Boxed wb.result) := by
  constructor
  · intro hw
    obtain ⟨hs, hb⟩ := decodeInstruction_shape hw hd
    have hrules := fpRules hr hi hs hb
    have hcopies : O3.computeAlu U = InOrder.computeAlu U := by
      funext op a b x isRv32
      exact computeAlu_eq op a b x isRv32
    refine ⟨hrules, hcopies ▸ hrules, fun s m hm => ?_⟩
    exact memory2One_computed (hm ▸ hs.notMem) (hm ▸ hs.controlFlow)
  · intro hw s s' m wb hm hwb
    have hc := decodeInstruction_flw hw hd
    rw [hc] at hm
    exact memory2One_loaded (by rw [hm]) (by rw [hm]) (by rw [hm]) (by rw [hm]) hwb

/-- A host as far as zero and the NaNs: a widened NaN is quiet and keeps its payload. -/
def nanHost : Host :=
  { silentHost with
    f32ToF64 := fun f =>
      (((f &&& f32SignBit).setWidth 64 <<< 32) ||| 0x7FF8000000000000 ||| ((f &&& 0x007FFFFF).setWidth 64 <<< 29), 0) }

theorem nanHost_ints : nanHost.IntsAreNumbers :=
  ⟨fun _ => (by decide : isNanF32 0 = false), fun _ => (by decide : isNanF64 0 = false)⟩

/-- The bench machine with the source's floating-point unit on a host. -/
def FpBench (_ : Host) : Type := Bench

instance (h : Host) : Units (FpBench h) :=
  { (inferInstanceAs (Units Bench) : Units Bench) with
    fpuExecuteFull := executeFull h
    fpuConvert := convert h }

/-- `fcvt.s.w f10,x10` of zero. -/
theorem nan_boxing_cvtSW : Boxed (O3.computeAlu (FpBench nanHost) .fCvtSW 0 0 0 true).1 :=
  have hruns : Runs (FpBench nanHost) nanHost := ⟨rfl, rfl⟩
  have hd : decodeInstruction 0xD0050553 0 (decode 0xD0050553) =
      .ok { isRv32 := true, rs2Fp := true, fpRegWrite := true, bSrc := .reg2, alu := .fCvtSW } := by decide
  ((nan_boxing hruns nanHost_ints hd).1 (Or.inl (by decide))).1.boxed rfl (by decide) 0 0 0

/-- `fmv.x.w x10,f10` shows the low half of a register that is not boxed;
`fcvt.d.s f10,f10` of a NaN with a payload gives one with a payload. -/
theorem nan_boxing_exceptions :
    (∃ c, decodeInstruction 0xE0050553 0 (decode 0xE0050553) = .ok c ∧
      ¬ ReadsUnboxed (O3.computeAlu (FpBench nanHost)) 0xE0050553 c) ∧
    ∃ c, decodeInstruction 0x42050553 0 (decode 0x42050553) = .ok c ∧
      ¬ CanonicalNans (O3.computeAlu (FpBench nanHost)) 0x42050553 c := by
  constructor
  · refine ⟨{ isRv32 := true, rs1Fp := true, rs2Fp := true, regWrite := true, bSrc := .reg2, alu := .fMvToX },
      by decide, fun h => ?_⟩
    have hzero := h 0x3F800000 0 0
    exact absurd hzero (by decide)
  · refine ⟨{ rs1Fp := true, rs2Fp := true, fpRegWrite := true, bSrc := .reg2, alu := .fCvtDS }, by decide, fun h => ?_⟩
    have hnan := h rfl 0xFFFFFFFF7FC00001 0 0
    have hdouble : isSingle 0x42050553 = false := by decide
    rw [hdouble, if_neg Bool.false_ne_true] at hnan
    have hcanon := hnan (by decide)
    exact absurd hcanon (by decide)

end Fpu

end Rvsim
