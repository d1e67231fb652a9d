/-
# Execution means what the manual says

The two copies of the execution semantics against the meanings of
`Semantics.lean`: on the word of an integer instruction, with any operands,
each leaves the value, the address, the data and the next instruction of
`Instr.effect`, and asks for a flush exactly when the prediction was not that
next instruction. A bundle of the in-order backend, fetched along its
predictions, then follows the program up to its first wrong prediction.

Key definitions:
  - `Performs`: an execution does what its instruction stands for
  - `Follows`: instructions fetched one after the other along the predictions
Key theorems:
  - `execute_performs`, `executeBundle_path`
-/
import Rvsim.DecodeExact
import Rvsim.ExecuteAgree
import Rvsim.Semantics
import Rvsim.Lib.TwosComplement

namespace Rvsim

open Isa TwosComplement

/-! ### The ALU -/

theorem divS_value {w : Nat} (x y : BitVec w) : Alu.divS x y = RegOp.div.value x y := by
  unfold Alu.divS RegOp.value RegOp.int
  by_cases h : y = 0#w
  · simp [h, ofInt_neg_one]
  · simp [h, toInt_eq_zero, sdiv_ofInt]

theorem divU_value {w : Nat} (x y : BitVec w) : Alu.divU x y = RegOp.divu.value x y := by
  unfold Alu.divU RegOp.value RegOp.int
  by_cases h : y = 0#w
  · simp [h, ofInt_allOnes]
  · simp only [toNat_eq_zero, if_neg h]
    exact (if_neg h).trans (udiv_ofInt x y)

theorem remS_value {w : Nat} (x y : BitVec w) : Alu.remS x y = RegOp.rem.value x y := by
  unfold Alu.remS RegOp.value RegOp.int
  by_cases h : y = 0#w
  · simp [h]
  · simp [h, toInt_eq_zero, srem_ofInt]

theorem remU_value {w : Nat} (x y : BitVec w) : Alu.remU x y = RegOp.remu.value x y := by
  unfold Alu.remU RegOp.value RegOp.int
  by_cases h : y = 0#w
  · simp [h]
  · simp only [toNat_eq_zero, if_neg h]
    exact (if_neg h).trans (umod_ofInt x y)

theorem ofBool_slt {w : Nat} (x y : BitVec w) :
    Alu.ofBool (x.slt y) = BitVec.ofInt 64 (RegOp.slt.int x y) := by
  unfold Alu.ofBool RegOp.int
  by_cases h : x.toInt < y.toInt <;> simp [BitVec.slt_iff_toInt_lt, h]

theorem ofBool_sltu {w : Nat} (x y : BitVec w) :
    Alu.ofBool (x.ult y) = BitVec.ofInt 64 (RegOp.sltu.int x y) := by
  unfold Alu.ofBool RegOp.int
  by_cases h : x.toNat < y.toNat <;> simp [BitVec.ult_iff_toNat_lt, h]

/-- The masked shift amounts. -/
theorem toNat_and_six (y : U64) : (y &&& 0x3f).toNat = y.toNat % 64 := by
  rw [BitVec.toNat_and]
  exact Nat.and_two_pow_sub_one_eq_mod y.toNat 6

theorem toNat_and_five (y : U32) : (y &&& 0x1f).toNat = y.toNat % 32 := by
  rw [BitVec.toNat_and]
  exact Nat.and_two_pow_sub_one_eq_mod y.toNat 5

/-- `Alu::execute` computes the operation's value. -/
theorem execute_regOp (o : RegOp) (a b : U64) : Alu.execute o.alu a b false = o.value a b := by
  have hhigh (m n : Int) : Alu.mulHigh (BitVec.ofInt (2 * 64) m) (BitVec.ofInt (2 * 64) n) =
      BitVec.ofInt 64 (m * n / 2 ^ 64) := high_mul_ofInt m n
  cases o with
  | add => exact add_ofInt a b
  | sub => exact sub_ofInt a b
  | sll => exact (congrArg (a <<< ·) (toNat_and_six b)).trans (shiftLeft_ofInt a _)
  | slt => exact ofBool_slt a b
  | sltu => exact ofBool_sltu a b
  | xor => exact (BitVec.ofInt_toInt).symm
  | srl => exact (congrArg (a >>> ·) (toNat_and_six b)).trans (ushiftRight_ofInt a _)
  | sra => exact (congrArg a.sshiftRight (toNat_and_six b)).trans (sshiftRight_ofInt a _)
  | or => exact (BitVec.ofInt_toInt).symm
  | and => exact (BitVec.ofInt_toInt).symm
  | mul => exact mul_ofInt a b
  | mulh => exact hhigh a.toInt b.toInt
  | mulhsu => exact (congrArg (Alu.mulHigh _) (setWidth_ofInt b)).trans (hhigh a.toInt b.toNat)
  | mulhu =>
    exact (congrArg₂ Alu.mulHigh (setWidth_ofInt a) (setWidth_ofInt b)).trans (hhigh a.toNat b.toNat)
  | div => exact divS_value a b
  | divu => exact divU_value a b
  | rem => exact remS_value a b
  | remu => exact remU_value a b

/-- With `is32` it computes the value of the 32-bit form. -/
theorem execute_regOpW (o : RegOpW) (a b : U64) : Alu.execute o.wide.alu a b true = o.wide.valueW a b := by
  have hsext {x y : U32} (h : x = y) : Alu.sext32 x = y.signExtend 64 := congrArg (BitVec.signExtend 64) h
  cases o with
  | addw => exact hsext (add_ofInt _ _)
  | subw => exact hsext (sub_ofInt _ _)
  | sllw => exact hsext ((congrArg (a.setWidth 32 <<< ·) (toNat_and_five _)).trans (shiftLeft_ofInt _ _))
  | srlw => exact hsext ((congrArg (a.setWidth 32 >>> ·) (toNat_and_five _)).trans (ushiftRight_ofInt _ _))
  | sraw =>
    exact hsext ((congrArg (a.setWidth 32).sshiftRight (toNat_and_five _)).trans (sshiftRight_ofInt _ _))
  | mulw => exact hsext (mul_ofInt _ _)
  | divw => exact hsext (divS_value _ _)
  | divuw => exact hsext (divU_value _ _)
  | remw => exact hsext (remS_value _ _)
  | remuw => exact hsext (remU_value _ _)

/-! ### Immediates, conditions and atomics -/

theorem execute_immOp (o : ImmOp) (a b : U64) : Alu.execute o.alu a b false = o.wide.value a b := by
  rw [← execute_regOp]
  cases o <;> rfl

/-- A shift sees its amount only modulo the width. -/
theorem ShiftOp.value_congr {w : Nat} (o : ShiftOp) (x : BitVec w) {y y' : BitVec w}
    (h : y.toNat % w = y'.toNat % w) : o.wide.value x y = o.wide.value x y' := by
  cases o <;> simp only [ShiftOp.wide, RegOp.value, RegOp.int, h]

/-- Sign extension keeps the low field of a word it extends. -/
theorem low_signExtend {u v : Nat} (f : BitVec u) (x : BitVec v) (h : v ≤ 64) :
    ((f ++ x).signExtend 64).toNat % 2 ^ v = x.toNat := by
  have hlow : ((f ++ x).signExtend 64).setWidth v = x := by
    ext i hi
    rw [BitVec.getElem_setWidth, BitVec.getLsbD_signExtend, BitVec.getLsbD_append]
    simp [hi, hi.trans_le h, Nat.lt_add_left u hi]
  rw [← BitVec.toNat_setWidth, hlow]

/-- The bits above the amount say which shift it is and do not change by how much. -/
theorem execute_shift (o : ShiftOp) (a : U64) (shamt : BitVec 6) :
    Alu.execute o.alu a ((o.funct6 ++ shamt).signExtend 64) false =
      o.wide.value a (shamt.setWidth 64) := by
  have hmod : ((o.funct6 ++ shamt).signExtend 64).toNat % 64 = (shamt.setWidth 64).toNat % 64 := by
    have hlow := low_signExtend o.funct6 shamt (by omega)
    rw [BitVec.toNat_setWidth]
    omega
  rw [← ShiftOp.value_congr o a hmod, ← execute_regOp]
  cases o <;> rfl

theorem execute_shiftW (o : ShiftOp) (a : U64) (shamt : BitVec 5) :
    Alu.execute o.alu a ((o.funct7 ++ shamt).signExtend 64) true =
      o.wide.valueW a (shamt.setWidth 64) := by
  have hmod : (((o.funct7 ++ shamt).signExtend 64).setWidth 32).toNat % 32 =
      ((shamt.setWidth 64).setWidth 32).toNat % 32 := by
    have hlow := low_signExtend o.funct7 shamt (by omega)
    simp only [BitVec.toNat_setWidth]
    omega
  unfold RegOp.valueW
  rw [← ShiftOp.value_congr o _ hmod]
  cases o with
  | sll => exact execute_regOpW .sllw a _
  | srl => exact execute_regOpW .srlw a _
  | sra => exact execute_regOpW .sraw a _

/-- The condition read off `funct3` is the branch's. -/
theorem branchTaken_iff {w : U32} {c : Cond} (h : Inst.funct3 w = c.funct3) (a b : U64) :
    branchTaken w a b = true ↔ c.holds a b := by
  unfold branchTaken
  rw [h]
  cases c <;> simp [Cond.funct3, Cond.holds, BitVec.slt_eq_decide, BitVec.ult_eq_decide]

theorem atomicOp_value {w : Nat} (o : AmoOp) (x y : BitVec w) : Lsu.atomicOp o.op x y = o.value x y := by
  cases o with
  | swap | xor | and | or => rfl
  | add => exact add_ofInt x y
  | min => exact slt_min_ofInt x y
  | max => exact slt_max_ofInt x y
  | minu => exact ult_min_ofNat x y
  | maxu => exact ult_max_ofNat x y

/-- What an AMO leaves in memory over `x`. -/
theorem atomicAlu_value (o : AmoOp) (width : Width) (x y : U64) :
    Lsu.atomicAlu o.op x y width.mem = o.valueAt width x y := by
  cases width with
  | w => exact congrArg (BitVec.signExtend 64) (atomicOp_value o _ _)
  | d => exact atomicOp_value o x y

/-- Clearing bit 0 rounds down to an even address. -/
theorem and_not_one (x : U64) : x &&& ~~~1 = BitVec.ofNat 64 (2 * (x.toNat / 2)) := by
  have hsh : BitVec.ofNat 64 (2 * (x.toNat / 2)) = (x >>> 1) <<< 1 := by
    apply BitVec.eq_of_toNat_eq
    rw [BitVec.toNat_ofNat, BitVec.toNat_shiftLeft, BitVec.toNat_ushiftRight, Nat.shiftLeft_eq,
      Nat.shiftRight_eq_div_pow, Nat.mul_comm]
  rw [hsh]
  change x &&& ~~~1#64 = _
  ext i hi
  rw [BitVec.getElem_and, BitVec.getElem_not, BitVec.getElem_one]
  cases i with
  | zero => simp
  | succ i =>
    rw [BitVec.getElem_shiftLeft]
    simp [Nat.add_comm, BitVec.getLsbD_eq_getElem hi]

/-! ### Where an instruction goes on -/

variable {U : Type}

/-- The instruction fetch went on with. -/
def predictedNext (id : RenameIssueEntry) : U64 :=
  if id.predTaken then id.predTarget else O3.fallThrough id

/-- The control-flow part of an execution that goes on at `next`; `turns` where the instruction is
a branch or a jump. -/
structure GoesOn (cpu : Cpu U) (id : RenameIssueEntry) (rob : Rob) (turns : Bool) (next : U64)
    (c : Bool × Cpu U × Rob) : Prop where
  flush : c.1 = (turns && predictedNext id != next)
  cpu : ∃ units, c.2.1 =
    { cpu with units := units, pc := if c.1 then next else cpu.pc
               redirectPending := c.1 || cpu.redirectPending }
  trap : (c.2.2.findEntry id.robTag).bind (·.trap) = (rob.findEntry id.robTag).bind (·.trap)
  target : turns = true → ∀ t ∈ (c.2.2.findEntry id.robTag).bind (·.bpTarget), t = next

variable [Units U] (cpu : Cpu U) (id : RenameIssueEntry) (rob : Rob)

theorem executeControl_eq : InOrder.executeControl cpu id rob = O3.executeControl cpu id rob := by
  unfold InOrder.executeControl O3.executeControl
  cases id.ctrl.controlFlow with
  | branch => exact (executeBranch_eq cpu id rob _ _).symm
  | jump => rfl
  | sequential => rfl

theorem goesOn_sequential (h : id.ctrl.controlFlow = .sequential) (next : U64) :
    GoesOn cpu id rob false next (O3.executeControl cpu id rob) := by
  unfold O3.executeControl
  simp only [h]
  exact ⟨rfl, ⟨cpu.units, rfl⟩, rfl, fun ht => absurd ht (by decide)⟩

theorem trap_setBpUpdate (r : Rob) (tag : RobTag) (pc : U64) (o : BpOutcome) (target : Option U64) :
    ((r.setBpUpdate tag pc o target).findEntry tag).bind (·.trap) = (r.findEntry tag).bind (·.trap) := by
  unfold Rob.setBpUpdate
  rw [Rob.findEntry_modify _ _ _ (by intro e; rfl), Option.bind_map]
  rfl

theorem target_of_setBpUpdate {r : Rob} {tag : RobTag} {pc t : U64} {o : BpOutcome} {target : Option U64}
    (h : t ∈ ((r.setBpUpdate tag pc o target).findEntry tag).bind (·.bpTarget)) : target = some t := by
  unfold Rob.setBpUpdate at h
  rw [Rob.findEntry_modify _ _ _ (by intro e; rfl), Option.bind_map] at h
  obtain ⟨_, _, ht⟩ := Option.bind_eq_some_iff.mp h
  exact ht

theorem trap_setBpTarget (r : Rob) (tag : RobTag) (target : U64) :
    ((r.setBpTarget tag target).findEntry tag).bind (·.trap) = (r.findEntry tag).bind (·.trap) := by
  unfold Rob.setBpTarget
  rw [Rob.findEntry_modify _ _ _ (by intro e; rfl), Option.bind_map]
  rfl

theorem target_of_setBpTarget {r : Rob} {tag : RobTag} {t target : U64}
    (h : t ∈ ((r.setBpTarget tag target).findEntry tag).bind (·.bpTarget)) : target = t := by
  unfold Rob.setBpTarget at h
  rw [Rob.findEntry_modify _ _ _ (by intro e; rfl), Option.bind_map] at h
  obtain ⟨_, _, ht⟩ := Option.bind_eq_some_iff.mp h
  exact Option.some.inj ht

omit [Units U] in
/-- A redirect goes where the prediction was not. -/
theorem redirect_if (b : Bool) (next : U64) (u : U) :
    (if b = true then O3.redirect { cpu with units := u } next else { cpu with units := u }) =
      { cpu with units := u, pc := if b then next else cpu.pc
                 redirectPending := b || cpu.redirectPending } := by
  cases b <;> rfl

theorem goesOn_branch (h : id.ctrl.controlFlow = .branch) :
    GoesOn cpu id rob true
      (if branchTaken id.inst (O3.opA id) (O3.opB id) then id.pc + id.imm else O3.fallThrough id)
      (O3.executeControl cpu id rob) := by
  unfold O3.executeControl
  simp only [h]
  refine ⟨rfl, ⟨_, redirect_if cpu _ _ _⟩, trap_setBpUpdate rob id.robTag _ _ _, fun _ t ht => ?_⟩
  have hs := target_of_setBpUpdate ht
  by_cases hb : branchTaken id.inst (O3.opA id) (O3.opB id) = true
  · rw [if_pos hb] at hs ⊢
    exact (Option.some.inj hs).symm
  · rw [if_neg hb] at hs
    cases hs

theorem goesOn_jump (h : id.ctrl.controlFlow = .jump) :
    GoesOn cpu id rob true (O3.jumpTarget id id.rv1) (O3.executeControl cpu id rob) := by
  unfold O3.executeControl
  simp only [h]
  refine ⟨bne_comm, ⟨_, redirect_if cpu _ _ _⟩, trap_setBpTarget rob id.robTag _, fun _ t ht => ?_⟩
  exact (target_of_setBpTarget ht).symm

/-! ### One instruction -/

/-- The entry for the memory stages carries the effect. -/
structure Shows (e : Effect) (r : ExMem1Entry) : Prop where
  result : rdValue r = e.result
  address : (if r.ctrl.isMem then some r.alu else none) = e.address
  data : (if r.ctrl.memWrite then some r.storeData else none) = e.data
  update : ∀ f ∈ e.update, ∀ x, Lsu.atomicAlu r.ctrl.atomicOp x r.storeData r.ctrl.width = f x

/-- The execution `out` does what instruction `i` stands for: its effect `e` is what the entry for
the memory stages and the core hold, no fault is recorded, and whatever was fetched behind it is
dropped exactly when it was not at `e.next`. FENCE.I drops it always. -/
structure Performs (cpu : Cpu U) (id : RenameIssueEntry) (rob : Rob) (i : Instr) (e : Effect)
    (out : ExecOut U) : Prop where
  shown : Shows e out.result
  flush : out.flush = (i.refetches || i.transfers && predictedNext id != e.next)
  cpu : ∃ units, out.cpu =
    { cpu with units := units, pc := if out.flush then e.next else cpu.pc
               redirectPending := out.flush || cpu.redirectPending }
  trap : (out.rob.findEntry id.robTag).bind (·.trap) = (rob.findEntry id.robTag).bind (·.trap)
  target : i.transfers = true → ∀ t ∈ (out.rob.findEntry id.robTag).bind (·.bpTarget), t = e.next

/-- The entry both copies build, without the destination's physical register. -/
structure ResultOf (id : RenameIssueEntry) (alu : U64) (r : ExMem1Entry) : Prop where
  pc : r.pc = id.pc
  instSize : r.instSize = id.instSize
  rd : r.rd = id.rd
  alu : r.alu = alu
  storeData : r.storeData = id.rv2
  ctrl : r.ctrl = id.ctrl

/-- The ALU's output for the entry's operands. -/
def aluOf (id : RenameIssueEntry) : U64 :=
  Alu.execute id.ctrl.alu (O3.opA id) (O3.opB id) id.ctrl.isRv32

/-- Integer signals: no FP operand, an ALU operation of the integer unit. -/
structure IntegerSignals (c : ControlSignals) : Prop where
  fp : O3.isFpInst c = false
  convert : O3.isHostConvert c.alu = false
  move : (c.alu == .fMvToF) = false
  alu : O3.isFpOp c.alu = false

theorem integerSignals {i : Instr} {pc size a b : U64} {e : Effect} (h : i.effect pc size a b = some e) :
    IntegerSignals i.signals := by
  cases i with
  | opImm o | shiftImm o | shiftImmW o | op o | opW o =>
    cases o <;> exact ⟨rfl, rfl, rfl, rfl⟩
  | lui | auipc | jal | jalr | branch | load | store | addiw | lr | sc | amo | fence | fenceI =>
    exact ⟨rfl, rfl, rfl, rfl⟩
  | _ => cases h

theorem computeAlu_integer {c : ControlSignals} (h : IntegerSignals c) (a b d : U64) :
    O3.computeAlu U c.alu a b d c.isRv32 = (Alu.execute c.alu a b c.isRv32, 0) := by
  unfold O3.computeAlu
  rw [h.convert, h.alu, if_neg (by decide), if_neg (by simpa using h.move), if_neg (by decide)]

theorem inOrder_executeRest_integer (h : IntegerSignals id.ctrl) :
    InOrder.executeRest cpu id rob =
      ⟨InOrder.mkResult id (aluOf id) id.rv2, (O3.executeControl cpu id rob).1,
        (O3.executeControl cpu id rob).2.1, (O3.executeControl cpu id rob).2.2⟩ := by
  rw [executeRest_eq, h.fp, Bool.and_false, if_neg (by decide), ← computeAlu_eq, computeAlu_integer h,
    executeControl_eq]
  rfl

theorem resultOf_inOrder_mkResult (alu : U64) : ResultOf id alu (InOrder.mkResult id alu id.rv2) :=
  ⟨rfl, rfl, rfl, rfl, rfl, rfl⟩

section Issued

variable {id} {i : Instr} {e : Effect} (h : IsIssueOf (encode i) id)
  (he : i.effect id.pc id.instSize.asU64 id.rv1 id.rv2 = some e)

include h

include he in
theorem issued_signals : id.ctrl = i.signals := by
  have hd := (decodeInstruction_encode i id.pc).symm.trans h.ctrl
  cases i with
  | ebreak => cases he
  | _ => exact (Except.ok.inj hd).symm

theorem issued_imm {v : U64} (hv : v ∈ i.imm) : id.imm = v := h.imm.trans (imm_encode i v hv)

theorem issued_rd {r : RegIdx} (hr : r ∈ i.rd) : id.rd = r := h.rd.trans ((carries_encode i).rd r hr)

include he

/-- Every integer instruction goes on where its effect says. -/
theorem issued_goesOn : GoesOn cpu id rob i.transfers e.next (O3.executeControl cpu id rob) := by
  have hs := issued_signals h he
  cases i with
  | jal rd offset =>
    have hj := goesOn_jump cpu id rob (by rw [hs]; rfl)
    obtain rfl := Option.some.inj he
    have hop : Inst.opcode id.inst ≠ Op.jalr := by
      rw [h.inst]
      simp [encode, wordJ, wordU]
      decide
    unfold O3.jumpTarget at hj
    rw [if_neg hop, issued_imm h rfl] at hj
    exact hj
  | jalr rd rs1 imm =>
    have hj := goesOn_jump cpu id rob (by rw [hs]; rfl)
    obtain rfl := Option.some.inj he
    have hop : Inst.opcode id.inst = Op.jalr := by
      rw [h.inst]
      simp [encode, wordI]
    unfold O3.jumpTarget at hj
    rw [if_pos hop, issued_imm h rfl, and_not_one] at hj
    exact hj
  | branch c rs1 rs2 offset =>
    have hb := goesOn_branch cpu id rob (by rw [hs]; rfl)
    obtain rfl := Option.some.inj he
    have hf : Inst.funct3 id.inst = c.funct3 := by
      rw [h.inst]
      simp [encode, wordB]
    have ha : O3.opA id = id.rv1 := by unfold O3.opA; rw [hs]; rfl
    have hb' : O3.opB id = id.rv2 := by unfold O3.opB; rw [hs]; rfl
    simp only [branchTaken_iff hf, ha, hb', issued_imm h rfl] at hb
    exact hb
  | _ => exact goesOn_sequential cpu id rob (by rw [hs]; rfl) e.next

/-- The ALU adds an immediate to `rs1` for an address; LR, SC and AMOs take `rs1` as it is. -/
theorem issued_address (hm : i.signals.isMem = true) : e.address = some (aluOf id) := by
  have hi := fun v => issued_imm (v := v) h
  unfold aluOf O3.opA O3.opB
  rw [issued_signals h he]
  cases i with
  | load o rd rs1 imm | store o rs1 rs2 imm =>
    obtain rfl := Option.some.inj he
    exact congrArg (fun v => some (id.rv1 + v)) (hi _ rfl).symm
  | lr | sc | amo =>
    obtain rfl := Option.some.inj he
    exact congrArg some (BitVec.add_zero id.rv1).symm
  | loadFp | storeFp => cases he
  | _ => cases hm

omit h he in
/-- An integer result goes to `rd`; a jump's is its link. -/
theorem rdValue_writes {r : ExMem1Entry} {alu : U64} (hr : ResultOf id alu r) (hm : id.ctrl.isMem = false)
    (hw : id.ctrl.regWrite = true) (hf : id.ctrl.fpRegWrite = false) : rdValue r =
      writes id.rd (if id.ctrl.controlFlow = .jump then id.pc + id.instSize.asU64 else alu) := by
  unfold rdValue writes RegIdx.isZero
  rw [hr.ctrl, hr.rd, hr.pc, hr.instSize, hr.alu, hm, hw, hf]
  by_cases hz : id.rd = 0 <;> simp [hz]

omit h he in
theorem rdValue_none {r : ExMem1Entry} {alu : U64} (hr : ResultOf id alu r)
    (hn : id.ctrl.isMem = true ∨ id.ctrl.regWrite = false ∧ id.ctrl.fpRegWrite = false) :
    rdValue r = none := by
  unfold rdValue
  rw [hr.ctrl]
  rcases hn with hm | ⟨hw, hf⟩
  · rw [if_pos hm]
  · simp [hw, hf]

/-- The value written to `rd` is the effect's. -/
theorem issued_result {r : ExMem1Entry} (hr : ResultOf id (aluOf id) r) : rdValue r = e.result := by
  have hs := issued_signals h he
  have hi := fun v => issued_imm (v := v) h
  have hd := fun v => issued_rd (r := v) h
  have hw := rdValue_writes hr
  have hn := rdValue_none hr
  unfold aluOf O3.opA O3.opB at hw
  rw [hs] at hw hn
  cases i with
  | load | lr | sc | amo | store =>
    obtain rfl := Option.some.inj he
    exact hn (.inl rfl)
  | branch | fence | fenceI =>
    obtain rfl := Option.some.inj he
    exact hn (.inr ⟨rfl, rfl⟩)
  | jal rd | jalr rd =>
    obtain rfl := Option.some.inj he
    exact (hw rfl rfl rfl).trans (congrArg (writes · _) (hd rd rfl))
  | lui rd imm =>
    obtain rfl := Option.some.inj he
    rw [hw rfl rfl rfl, hd rd rfl]
    exact congrArg (writes rd) ((BitVec.zero_add id.imm).trans (hi _ rfl))
  | auipc rd imm =>
    obtain rfl := Option.some.inj he
    rw [hw rfl rfl rfl, hd rd rfl]
    exact congrArg (fun v => writes rd (id.pc + v)) (hi _ rfl)
  | opImm o rd rs1 imm =>
    obtain rfl := Option.some.inj he
    rw [hw rfl rfl rfl, hd rd rfl, hi _ rfl]
    exact congrArg (writes rd) (execute_immOp o id.rv1 _)
  | shiftImm o rd rs1 shamt =>
    obtain rfl := Option.some.inj he
    rw [hw rfl rfl rfl, hd rd rfl, hi _ rfl]
    exact congrArg (writes rd) (execute_shift o id.rv1 shamt)
  | addiw rd rs1 imm =>
    obtain rfl := Option.some.inj he
    rw [hw rfl rfl rfl, hd rd rfl, hi _ rfl]
    exact congrArg (writes rd) (execute_regOpW .addw id.rv1 _)
  | shiftImmW o rd rs1 shamt =>
    obtain rfl := Option.some.inj he
    rw [hw rfl rfl rfl, hd rd rfl, hi _ rfl]
    exact congrArg (writes rd) (execute_shiftW o id.rv1 shamt)
  | op o rd rs1 rs2 =>
    obtain rfl := Option.some.inj he
    rw [hw rfl rfl rfl, hd rd rfl]
    exact congrArg (writes rd) (execute_regOp o id.rv1 id.rv2)
  | opW o rd rs1 rs2 =>
    obtain rfl := Option.some.inj he
    rw [hw rfl rfl rfl, hd rd rfl]
    exact congrArg (writes rd) (execute_regOpW o id.rv1 id.rv2)
  | _ => cases he

/-- What the execution sends to memory is the effect's. -/
theorem issued_data : (if id.ctrl.memWrite then some id.rv2 else none) = e.data := by
  rw [issued_signals h he]
  cases i with
  | lui | auipc | jal | jalr | branch | load | store | opImm | shiftImm | addiw | shiftImmW | op | opW
  | lr | sc | amo | fence | fenceI =>
    obtain rfl := Option.some.inj he
    rfl
  | _ => cases he

theorem issued_no_address (hm : i.signals.isMem = false) : e.address = none := by
  cases i with
  | lui | auipc | jal | jalr | branch | opImm | shiftImm | addiw | shiftImmW | op | opW | fence | fenceI =>
    obtain rfl := Option.some.inj he
    rfl
  | load | store | lr | sc | amo => cases hm
  | _ => cases he

theorem issued_update (f : U64 → U64) (hf : f ∈ e.update) (x : U64) :
    Lsu.atomicAlu id.ctrl.atomicOp x id.rv2 id.ctrl.width = f x := by
  rw [issued_signals h he]
  cases i with
  | amo o width aqrl rd rs1 rs2 =>
    obtain rfl := Option.some.inj he
    obtain rfl := Option.some.inj hf
    exact atomicAlu_value o width x id.rv2
  | lui | auipc | jal | jalr | branch | load | store | opImm | shiftImm | addiw | shiftImmW | op | opW
  | lr | sc | fence | fenceI =>
    obtain rfl := Option.some.inj he
    cases hf
  | _ => cases he

theorem issued_shown {r : ExMem1Entry} (hr : ResultOf id (aluOf id) r) : Shows e r where
  result := issued_result h he hr
  address := by
    rw [hr.ctrl, hr.alu, issued_signals h he]
    by_cases hm : i.signals.isMem = true
    · rw [if_pos hm, issued_address h he hm]
    · rw [if_neg hm, issued_no_address h he (by simpa using hm)]
  data := by
    rw [hr.ctrl, hr.storeData]
    exact issued_data h he
  update := by
    rw [hr.ctrl, hr.storeData]
    exact issued_update h he

/-- Either copy of the ALU path. -/
theorem issued_performs {r : ExMem1Entry} (hi : i.refetches = false) (hr : ResultOf id (aluOf id) r) :
    Performs cpu id rob i e
      ⟨r, (O3.executeControl cpu id rob).1, (O3.executeControl cpu id rob).2.1,
        (O3.executeControl cpu id rob).2.2⟩ := by
  have hg := issued_goesOn cpu rob h he
  exact ⟨issued_shown h he hr, by rw [hi]; exact hg.flush, hg.cpu, hg.trap, hg.target⟩

omit h in
theorem systemOp_integer (hi : i.refetches = false) :
    i.signals.systemOp = .none ∨ i.signals.systemOp = .fence := by
  cases i with
  | fence => exact .inr rfl
  | fenceI => cases hi
  | lui | auipc | jal | jalr | branch | load | store | opImm | shiftImm | addiw | shiftImmW | op | opW
  | lr | sc | amo => exact .inl rfl
  | _ => cases he

omit [Units U] in
/-- FENCE.I, in either copy. -/
theorem fenceI_performs {r : ExMem1Entry} (hi : i.refetches = true) (hc : r.ctrl = id.ctrl) :
    Performs cpu id rob i e ⟨r, true, O3.redirect cpu (O3.fallThrough id), rob⟩ := by
  have hs := issued_signals h he
  cases i with
  | fenceI imm rd rs1 =>
    obtain rfl := Option.some.inj he
    refine ⟨⟨?_, ?_, ?_, fun f hf => by cases hf⟩, rfl, ⟨cpu.units, rfl⟩, rfl, fun ht => by cases ht⟩
    · unfold rdValue
      rw [hc, hs]
      rfl
    · rw [hc, hs]
      rfl
    · rw [hc, hs]
      rfl
  | _ => cases hi

end Issued

theorem systemOp_fenceI {i : Instr} (hi : i.refetches = true) : i.signals.systemOp = .fenceI := by
  cases i with
  | fenceI => rfl
  | _ => cases hi

theorem executeEntry_performs {i : Instr} {e : Effect} (held : U8) (h : IsIssueOf (encode i) id)
    (he : i.effect id.pc id.instSize.asU64 id.rv1 id.rv2 = some e) :
    Performs cpu id rob i e (InOrder.executeEntry cpu id rob held) := by
  have hs := issued_signals h he
  unfold InOrder.executeEntry
  simp only [h.trap, hs]
  by_cases hi : i.refetches = true
  · simp only [systemOp_fenceI hi]
    exact fenceI_performs cpu rob h he hi rfl
  · have hi' : i.refetches = false := by simpa using hi
    rw [inOrder_executeRest_integer cpu id rob (hs ▸ integerSignals he)]
    have hp := issued_performs cpu rob h he hi' (resultOf_inOrder_mkResult id (aluOf id))
    rcases systemOp_integer he hi' with hop | hop <;> simp only [hop] <;> exact hp

/-- `addi x5, x6, 1` on 7. -/
def benchAddi : RenameIssueEntry := benchEntry addiWord { regWrite := true } 7

theorem benchAddi_issue : IsIssueOf (encode (.opImm .addi 5 6 1)) benchAddi := by
  have hw : encode (.opImm .addi 5 6 1) = addiWord := by decide
  rw [hw]
  exact ⟨rfl, rfl, rfl, rfl, rfl, by decide, rfl⟩

theorem benchAddi_effect (pc : U64) : (Instr.opImm .addi 5 6 1).effect pc 4 7 0 =
    some { result := some 8, next := pc + 4 } := by
  have hv : writes 5 (ImmOp.addi.wide.value (7 : U64) ((1 : BitVec 12).signExtend 64)) = some 8 := by decide
  simp only [Instr.effect, hv]

/-- An issue entry with the instruction it is of and that instruction's effect. -/
structure Issued where
  entry : RenameIssueEntry
  instr : Instr
  effect : Effect
  issue : IsIssueOf (encode instr) entry
  means : instr.effect entry.pc entry.instSize.asU64 entry.rv1 entry.rv2 = some effect

/-- `y` was fetched behind `x`, where the prediction for `x` points. -/
def Issued.FetchedBefore (x y : Issued) : Prop := y.entry.pc = predictedNext x.entry

/-- `y` is the instruction that follows `x` in the program. -/
def Issued.GoesTo (x y : Issued) : Prop := y.entry.pc = x.effect.next

/-- Fetch predicts branches and jumps only. -/
def Issued.Predicted (x : Issued) : Prop := x.instr.transfers = false → x.entry.predTaken = false

theorem next_of_sequential {i : Instr} {e : Effect} {pc size a b : U64} (ht : i.transfers = false)
    (he : i.effect pc size a b = some e) : e.next = pc + size := by
  cases i with
  | lui | auipc | load | store | opImm | shiftImm | addiw | shiftImmW | op | opW | lr | sc | amo
  | fence | fenceI =>
    obtain rfl := Option.some.inj he
    rfl
  | jal | jalr | branch => cases ht
  | _ => cases he

/-- An execution that does not flush was predicted right. -/
theorem Issued.next_eq (x : Issued) (hp : x.Predicted)
    (hf : (x.instr.refetches || x.instr.transfers && predictedNext x.entry != x.effect.next) = false) :
    predictedNext x.entry = x.effect.next := by
  simp only [Bool.or_eq_false_iff, Bool.and_eq_false_iff, bne_eq_false_iff_eq] at hf
  rcases hf.2 with ht | heq
  · unfold predictedNext
    rw [hp ht, next_of_sequential ht x.means]
    rfl
  · exact heq

/-- Of the bundle `l` the part `done` was executed and left `out`: the instructions are a path of
the program, each shows its effect, and the core goes on where the path leads. -/
structure Follows (cpu : Cpu U) (l done rest : List Issued)
    (out : List ExMem1Entry × Bool × Cpu U × Rob) : Prop where
  split : l = done ++ rest
  shown : List.Forall₂ (fun x r => Shows x.effect r) done out.1
  path : done.IsChain Issued.GoesTo
  core : ∃ units, out.2.2.1 = { cpu with units := units, pc := out.2.2.1.pc
                                         redirectPending := out.2.1 || cpu.redirectPending }
  /-- Left early or at the end: by an instruction behind which fetch was wrong. -/
  flushed : out.2.1 = true → ∃ x ∈ done.getLast?, out.2.2.1.pc = x.effect.next
  /-- Otherwise all of it is executed, and fetch goes on behind it rightly. -/
  whole : out.2.1 = false → rest = [] ∧ out.2.2.1.pc = cpu.pc ∧
    ∀ x ∈ l.getLast?, predictedNext x.entry = x.effect.next

/-- **A bundle follows the program.** However the instructions of a bundle came to be predicted,
the in-order backend executes a path of the program, each instruction with its effect, and leaves
the bundle exactly where fetch left the path. -/
theorem executeBundle_path (inflight batch : U8) (l : List Issued)
    (hp : ∀ x ∈ l, x.Predicted) (hl : l.IsChain Issued.FetchedBefore) :
    ∃ done rest, Follows cpu l done rest
      (InOrder.executeBundle inflight batch cpu rob (l.map Issued.entry)) := by
  induction l generalizing batch cpu rob with
  | nil =>
    exact ⟨[], [], rfl, .nil, .nil, ⟨cpu.units, rfl⟩, nofun, fun _ => ⟨rfl, rfl, by simp⟩⟩
  | cons x l ih =>
    have hx := executeEntry_performs cpu x.entry rob (inflight ||| batch) x.issue x.means
    rw [List.map_cons, InOrder.executeBundle]
    generalize InOrder.executeEntry cpu x.entry rob (inflight ||| batch) = o at hx ⊢
    obtain ⟨units, hcpu⟩ := hx.cpu
    by_cases hf : o.flush = true
    · -- the bundle ends with `x`
      simp only [hf, if_true]
      refine ⟨[x], l, rfl, .cons hx.shown .nil, .singleton x, ⟨units, ?_⟩, fun _ => ⟨x, rfl, ?_⟩,
        nofun⟩
      · rw [hcpu, hf]
      · rw [hcpu, hf]
        rfl
    · simp only [hf, Bool.false_eq_true, if_false]
      have hff : o.flush = false := by simpa using hf
      have hnext := x.next_eq (hp x List.mem_cons_self) (hx.flush.symm.trans hff)
      rw [hff] at hcpu
      obtain ⟨done, rest, hr⟩ := ih o.cpu o.rob (batch ||| o.result.fpFlags)
        (fun y hy => hp y (List.mem_cons_of_mem _ hy)) hl.tail
      generalize InOrder.executeBundle inflight (batch ||| o.result.fpFlags) o.cpu o.rob
        (l.map Issued.entry) = out at hr ⊢
      refine ⟨x :: done, rest, by rw [hr.split]; rfl, .cons hx.shown hr.shown, ?_, ?_, ?_, ?_⟩
      · rw [List.isChain_cons]
        refine ⟨fun y hy => ?_, hr.path⟩
        have hyl : y ∈ l.head? := by
          rw [hr.split, List.head?_append]
          exact Option.mem_def.mpr (by rw [Option.mem_def.mp hy]; rfl)
        exact ((List.isChain_cons.mp hl).1 y hyl).trans hnext
      · obtain ⟨u, hu⟩ := hr.core
        refine ⟨u, hu.trans ?_⟩
        rw [hcpu]
        rfl
      · intro h
        obtain ⟨y, hy, hpc⟩ := hr.flushed h
        refine ⟨y, ?_, hpc⟩
        rw [List.getLast?_cons, Option.mem_def.mp hy]
        rfl
      · intro h
        obtain ⟨hrest, hpc, hlast⟩ := hr.whole h
        refine ⟨hrest, by rw [hpc, hcpu]; rfl, fun y hy => ?_⟩
        rw [List.getLast?_cons] at hy
        cases hlq : l.getLast? with
        | none =>
          rw [hlq] at hy
          obtain rfl := Option.some.inj hy
          exact hnext
        | some z =>
          rw [hlq] at hy
          obtain rfl := Option.some.inj hy
          exact hlast _ hlq

/-- `beq x0, x0, 8` behind it, fetched as not taken. -/
def benchBranch : RenameIssueEntry :=
  { benchEntry (encode (.branch .eq 0 0 4)) { controlFlow := .branch, bSrc := .reg2 } 0 with
    pc := 0x80000004 }

/-- The `addi`, the branch, and the `addi` of the wrong path again. -/
def benchBundle : List Issued :=
  [⟨benchAddi, .opImm .addi 5 6 1, _, benchAddi_issue, benchAddi_effect 0x80000000⟩,
    ⟨benchBranch, .branch .eq 0 0 4, { next := 0x8000000c },
      ⟨rfl, rfl, rfl, rfl, rfl, by decide, rfl⟩, rfl⟩,
    ⟨{ benchAddi with pc := 0x80000008 }, .opImm .addi 5 6 1, _,
      ⟨benchAddi_issue.inst, benchAddi_issue.rs1, benchAddi_issue.rs2, benchAddi_issue.rd,
        benchAddi_issue.imm, benchAddi_issue.ctrl, rfl⟩, benchAddi_effect 0x80000008⟩]

theorem executeBundle_path_branch : ∃ done rest, Follows benchCpu benchBundle done rest
    (InOrder.executeBundle 0 0 benchCpu (benchRob benchAddi) (benchBundle.map Issued.entry)) :=
  executeBundle_path benchCpu (benchRob benchAddi) 0 0 benchBundle
    (by
      intro x hx ht
      fin_cases hx <;> rfl)
    (.cons_cons rfl (.cons_cons rfl (.singleton _)))

end Rvsim
