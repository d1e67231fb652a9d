/-
# The two copies of the execution semantics

The out-of-order and the in-order backend each execute instructions with a
copy of the same semantics. Here an instruction's architectural outcome is
read off what execution leaves behind, and the outcomes of the two copies are
compared over every word the decoder accepts.

They differ in one place. A SYSTEM word with `funct3 = 4` names no CSR
access; the out-of-order copy ends in the catch-all of `execute_system` with
result zero, while the in-order copy falls through to its ALU path and writes
`rs1 + 0` to `rd`.

Key definitions:
  - `ArchOutcome`, `archOutcome`, `IsIssueOf`
Key theorems:
  - `execute_agree_iff`: the outcomes agree exactly away from that word
-/
import Rvsim.Config
import Rvsim.ExecuteInOrder

namespace Rvsim

/-! ### Architectural outcome -/

structure ArchOutcome where
  trap : Option Trap
  rdResult : Option U64
  taken : Bool
  target : Option U64
  address : Option U64
  storeData : Option U64
  csrUpdate : Option CsrUpdate
  sfenceVma : Option SfenceVmaInfo
  fpFlags : U8
  deriving DecidableEq, Repr

/-- The value a non-memory instruction writes to `rd`: jumps link, the rest take the ALU output. -/
def rdValue (r : ExMem1Entry) : Option U64 :=
  if r.ctrl.isMem then none
  else if (r.ctrl.regWrite && !r.rd.isZero) || r.ctrl.fpRegWrite then
    some (if r.ctrl.controlFlow = .jump then r.pc + r.instSize.asU64 else r.alu)
  else none

/-- What an executed instruction leaves behind: its result entry and its buffer entry. -/
def archOutcome (r : ExMem1Entry) (rob : Rob) : ArchOutcome where
  trap := (rob.findEntry r.robTag).bind (·.trap)
  rdResult := rdValue r
  taken := ((rob.findEntry r.robTag).map (·.bpOutcome.taken)).getD false
  target := (rob.findEntry r.robTag).bind (·.bpTarget)
  address := if r.ctrl.isMem then some r.alu else none
  storeData := if r.ctrl.memWrite then some r.storeData else none
  csrUpdate := (rob.findEntry r.robTag).bind (·.csrUpdate)
  sfenceVma := r.sfenceVma
  fpFlags := r.fpFlags

/-- The issue entry of word `w`: fields and control signals as decode and rename carry them. -/
structure IsIssueOf (w : U32) (id : RenameIssueEntry) : Prop where
  inst : id.inst = w
  rs1 : id.rs1 = Inst.rs1 w
  rs2 : id.rs2 = Inst.rs2 w
  rd : id.rd = Inst.rd w
  imm : id.imm = decodeImm w
  ctrl : decodeInstruction w id.pc (decode w) = .ok id.ctrl
  trap : id.trap = none

/-! ### The shared arithmetic -/

variable {U : Type}

theorem computeAlu_eq [Units U] (op : AluOp) (a b c : U64) (isRv32 : Bool) :
    O3.computeAlu U op a b c isRv32 = InOrder.computeAlu U op a b c isRv32 := by
  cases op <;> rfl

theorem counterDenied_eq (cpu : Cpu U) (a : CsrAddr) :
    O3.counterDenied cpu.csrs cpu.privilege a = InOrder.counterDenied cpu a := by
  unfold O3.counterDenied O3.counterBit InOrder.counterDenied
  split_ifs <;> rfl

theorem wouldWrite_eq (op : CsrOp) (rs1 : RegIdx) :
    O3.wouldWrite op rs1 = InOrder.wouldWrite op rs1 := by
  cases op <;> rfl

theorem executeBranch_eq [Units U] (cpu : Cpu U) (id : RenameIssueEntry) (rob : Rob) (a b : U64) :
    O3.executeBranch cpu id rob a b = InOrder.executeBranch cpu id rob a b := by
  have hle : b.sle a = !a.slt b := BitVec.sle_eq_not_slt
  have hule : b.ule a = !a.ult b := BitVec.ule_eq_not_ult b a
  unfold O3.executeBranch InOrder.executeBranch branchTaken
  rw [hle, hule]
  rfl

/-- The checks of a CSR access agree. -/
theorem csrIllegal_eq (cpu : Cpu U) (id : RenameIssueEntry) :
    O3.csrIllegal cpu id = true ↔
      (id.ctrl.csrAddr = Csr.satp ∧ cpu.privilege = .supervisor ∧
          (cpu.csrs.mstatus >>> 20) &&& 1 ≠ 0) ∨
        InOrder.counterDenied cpu id.ctrl.csrAddr = true ∨
        cpu.privilege.toU8 < id.ctrl.csrAddr.privilegeLevel.setWidth 8 ∨
        (id.ctrl.csrAddr.isReadOnly = true ∧ InOrder.wouldWrite id.ctrl.csrOp id.rs1 = true) := by
  unfold O3.csrIllegal O3.tvmTrap
  rw [counterDenied_eq, wouldWrite_eq]
  simp only [Bool.or_eq_true, Bool.and_eq_true, beq_iff_eq, bne_iff_ne, decide_eq_true_eq]
  tauto

/-! ### Outcomes of equal results -/

/-- Both copies build the entry from the same fields; only `rd_phys` differs. -/
theorem archOutcome_mkResult (id : RenameIssueEntry) (alu sd sd' : U64) (f : U8)
    (s : Option SfenceVmaInfo) (r r' : Rob) (hsd : id.ctrl.memWrite = true → sd = sd')
    (h : r.findEntry id.robTag = r'.findEntry id.robTag) :
    archOutcome (O3.mkResult id alu sd f s) r = archOutcome (InOrder.mkResult id alu sd' f s) r' := by
  unfold archOutcome O3.mkResult InOrder.mkResult rdValue
  simp only [h]
  by_cases hw : id.ctrl.memWrite = true
  · rw [hsd hw]
  · simp [hw]

/-- Updates of one entry keep two buffers that agree on it in agreement. -/
theorem findEntry_modify_congr {r r' : Rob} {tag : RobTag} (f : RobEntry → RobEntry)
    (hf : ∀ e, (f e).tag = e.tag) (h : r.findEntry tag = r'.findEntry tag) :
    (r.modify tag f).findEntry tag = (r'.modify tag f).findEntry tag := by
  rw [Rob.findEntry_modify _ _ _ hf, Rob.findEntry_modify _ _ _ hf, h]

theorem archOutcome_illegal (cpu : Cpu U) (id : RenameIssueEntry) (r r' : Rob) (sd : U64)
    (hsd : id.ctrl.memWrite = true → sd = 0) (h : r.findEntry id.robTag = r'.findEntry id.robTag) :
    archOutcome (O3.illegal cpu id r sd).result (O3.illegal cpu id r sd).rob =
      archOutcome (InOrder.illegal cpu id r').result (InOrder.illegal cpu id r').rob :=
  archOutcome_mkResult id 0 sd 0 0 none _ _ hsd (findEntry_modify_congr _ (fun _ => rfl) h)

/-! ### Agreement, group by group -/

/-- The in-order choice between branch, jump and neither. -/
def InOrder.executeControl [Units U] (cpu : Cpu U) (id : RenameIssueEntry) (rob : Rob) :
    Bool × Cpu U × Rob :=
  match id.ctrl.controlFlow with
  | .branch => InOrder.executeBranch cpu id rob (O3.opA id) (O3.opB id)
  | .jump => InOrder.executeJump cpu id rob
  | .sequential => (false, cpu, rob)

theorem executeControl_findEntry [Units U] (cpu : Cpu U) (id : RenameIssueEntry) (r r' : Rob)
    (h : r.findEntry id.robTag = r'.findEntry id.robTag) :
    (O3.executeControl cpu id r).2.2.findEntry id.robTag =
      (InOrder.executeControl cpu id r').2.2.findEntry id.robTag := by
  unfold O3.executeControl InOrder.executeControl
  cases id.ctrl.controlFlow with
  | sequential => exact h
  | branch =>
    dsimp only
    rw [executeBranch_eq]
    exact findEntry_modify_congr _ (fun _ => rfl) h
  | jump => exact findEntry_modify_congr _ (fun _ => rfl) h

/-- The in-order ALU path, with its operand and control-flow cases named. -/
theorem executeRest_eq [Units U] (cpu : Cpu U) (id : RenameIssueEntry) (rob : Rob) :
    InOrder.executeRest cpu id rob =
      if (O3.fsOff cpu && O3.isFpInst id.ctrl) = true then InOrder.illegal cpu id rob
      else
        let af := InOrder.computeAlu U id.ctrl.alu (O3.opA id) (O3.opB id) id.rv3 id.ctrl.isRv32
        let ctl := InOrder.executeControl cpu id rob
        ⟨InOrder.mkResult id af.1 id.rv2 af.2, ctl.1, ctl.2.1, ctl.2.2⟩ := by
  have hoff : (cpu.csrs.mstatus &&& Csr.mstatusFs) >>> 13 = 0 ∧ O3.isFpInst id.ctrl = true ↔
      (O3.fsOff cpu && O3.isFpInst id.ctrl) = true := by
    rw [Bool.and_eq_true, O3.fsOff, beq_iff_eq]
  exact if_congr hoff rfl rfl

theorem agree_rest [Units U] (cpu : Cpu U) (id : RenameIssueEntry) (r r' : Rob)
    (h : r.findEntry id.robTag = r'.findEntry id.robTag) :
    archOutcome (O3.executeRest cpu id r).result (O3.executeRest cpu id r).rob =
      archOutcome (InOrder.executeRest cpu id r').result (InOrder.executeRest cpu id r').rob := by
  rw [executeRest_eq]
  unfold O3.executeRest
  split
  · exact archOutcome_illegal cpu id r r' 0 (fun _ => rfl) h
  · dsimp only
    rw [computeAlu_eq]
    exact archOutcome_mkResult id _ _ _ _ none _ _ (fun _ => rfl)
      (executeControl_findEntry cpu id r r' h)

/-- Whatever is no SYSTEM operation takes the same path in both copies. -/
theorem agree_plain [Units U] (cpu : Cpu U) (id : RenameIssueEntry) (r r' : Rob) (held : U8)
    (htrap : id.trap = none)
    (hs : id.ctrl.systemOp = .none ∨ id.ctrl.systemOp = .fence ∨ id.ctrl.systemOp = .fenceI)
    (h : r.findEntry id.robTag = r'.findEntry id.robTag) :
    archOutcome (O3.executeOne cpu id r).result (O3.executeOne cpu id r).rob =
      archOutcome (InOrder.executeEntry cpu id r' held).result
        (InOrder.executeEntry cpu id r' held).rob := by
  unfold O3.executeOne InOrder.executeEntry
  rcases hs with hs | hs | hs
  · simp only [htrap, hs]
    exact agree_rest cpu id r r' h
  · simp only [htrap, hs]
    exact agree_rest cpu id r r' h
  · simp only [htrap, hs]
    exact archOutcome_mkResult id 0 0 0 0 none r r' (fun _ => rfl) h

/-- MRET, SRET, WFI and SFENCE.VMA: same checks, same record. -/
theorem agree_system [Units U] (cpu : Cpu U) (id : RenameIssueEntry) (r r' : Rob) (held : U8)
    (htrap : id.trap = none)
    (hs : id.ctrl.systemOp = .mret ∨ id.ctrl.systemOp = .sret ∨ id.ctrl.systemOp = .wfi ∨
      id.ctrl.systemOp = .sfenceVma)
    (hw : id.ctrl.memWrite = false) (h : r.findEntry id.robTag = r'.findEntry id.robTag) :
    archOutcome (O3.executeOne cpu id r).result (O3.executeOne cpu id r).rob =
      archOutcome (InOrder.executeEntry cpu id r' held).result
        (InOrder.executeEntry cpu id r' held).rob := by
  have hill : ∀ sd, archOutcome (O3.illegal cpu id r sd).result (O3.illegal cpu id r sd).rob =
      archOutcome (InOrder.illegal cpu id r').result (InOrder.illegal cpu id r').rob :=
    fun sd => archOutcome_illegal cpu id r r' sd (by simp [hw]) h
  have hok : archOutcome (O3.mkResult id 0 0) r = archOutcome (InOrder.mkResult id 0 0) r' :=
    archOutcome_mkResult id 0 0 0 0 none r r' (fun _ => rfl) h
  unfold O3.executeOne InOrder.executeEntry O3.executeSystem InOrder.executeSystem
  rcases hs with hs | hs | hs | hs <;> simp only [htrap, hs]
  · by_cases hp : cpu.privilege ≠ .machine
    · simp only [if_pos hp, Option.getD_some]
      exact hill 0
    · simp only [if_neg hp, Option.getD_some]
      exact hok
  · by_cases hp : cpu.privilege = .user
    · simp only [if_pos hp, Option.getD_some]
      exact hill 0
    · by_cases ht : cpu.privilege = .supervisor ∧ (cpu.csrs.mstatus >>> 22) &&& 1 ≠ 0
      · simp only [if_neg hp, if_pos ht, Option.getD_some]
        exact hill 0
      · simp only [if_neg hp, if_neg ht, Option.getD_some]
        exact hok
  · by_cases ht : cpu.privilege = .user ∨
        (cpu.privilege = .supervisor ∧ (cpu.csrs.mstatus >>> 21) &&& 1 ≠ 0)
    · simp only [if_pos ht, Option.getD_some]
      exact hill 0
    · simp only [if_neg ht, Option.getD_some]
      exact hok
  · have htvm : (O3.tvmTrap cpu = true) ↔
        (cpu.privilege = .supervisor ∧ (cpu.csrs.mstatus >>> 20) &&& 1 ≠ 0) := by
      simp [O3.tvmTrap]
    by_cases ht : cpu.privilege = .supervisor ∧ (cpu.csrs.mstatus >>> 20) &&& 1 ≠ 0
    · simp only [if_pos (htvm.mpr ht), if_pos ht, Option.getD_some]
      exact hill id.rv2
    · simp only [if_neg (mt htvm.mp ht), if_neg ht, Option.getD_some]
      exact archOutcome_mkResult id 0 _ _ 0 _ r r' (fun _ => rfl) h

theorem drainFpFlags_cpu (cpu : Cpu U) (id : RenameIssueEntry) (r r' : Rob) (held : U8)
    (hf : (r.drainFpFlagsBefore id.robTag).1 = (r'.drainFpFlagsBefore id.robTag).1 ||| held) :
    (O3.drainFpFlags cpu id r).1 = (InOrder.drainFpFlags cpu id r' held).1 := by
  have hc : (O3.isFpCsr id.ctrl.csrAddr = true) ↔
      (id.ctrl.csrAddr = Csr.fflags ∨ id.ctrl.csrAddr = Csr.fcsr ∨ id.ctrl.csrAddr = Csr.frm) := by
    simp [O3.isFpCsr, or_assoc]
  unfold O3.drainFpFlags InOrder.drainFpFlags
  by_cases h : id.ctrl.csrAddr = Csr.fflags ∨ id.ctrl.csrAddr = Csr.fcsr ∨ id.ctrl.csrAddr = Csr.frm
  · simp only [if_pos (hc.mpr h), if_pos h, hf]
  · simp only [if_neg (mt hc.mp h), if_neg h]

theorem drainFpFlags_findEntry (cpu : Cpu U) (id : RenameIssueEntry) (r : Rob) :
    (O3.drainFpFlags cpu id r).2.findEntry id.robTag = r.findEntry id.robTag := by
  unfold O3.drainFpFlags
  split
  · exact r.findEntry_drainFpFlagsBefore id.robTag
  · rfl

theorem InOrder.drainFpFlags_findEntry (cpu : Cpu U) (id : RenameIssueEntry) (r : Rob) (held : U8) :
    (InOrder.drainFpFlags cpu id r held).2.findEntry id.robTag = r.findEntry id.robTag := by
  unfold InOrder.drainFpFlags
  split
  · exact r.findEntry_drainFpFlagsBefore id.robTag
  · rfl

/-- The value written, as the in-order copy spells it out. -/
theorem csrNew_csrSrc (op : CsrOp) (rs1 : RegIdx) (rv1 old : U64) : O3.csrNew op old (O3.csrSrc op rs1 rv1) =
    match op with
    | .rw | .rwi => (match op with | .rwi | .rsi | .rci => rs1.setWidth 64 | _ => rv1)
    | .rs | .rsi => old ||| (match op with | .rwi | .rsi | .rci => rs1.setWidth 64 | _ => rv1)
    | .rc | .rci => old &&& ~~~(match op with | .rwi | .rsi | .rci => rs1.setWidth 64 | _ => rv1)
    | .none => old := by
  cases op <;> rfl

/-- CSR accesses: same legality, same value read, same update recorded. -/
theorem agree_csr (cpu : Cpu U) (id : RenameIssueEntry) (r r' : Rob) (held : U8)
    (h : r.findEntry id.robTag = r'.findEntry id.robTag)
    (hf : (r.drainFpFlagsBefore id.robTag).1 = (r'.drainFpFlagsBefore id.robTag).1 ||| held) :
    archOutcome (O3.executeCsr cpu id r id.rv1 id.rv2).result
        (O3.executeCsr cpu id r id.rv1 id.rv2).rob =
      archOutcome (InOrder.executeCsr cpu id r' held).result
        (InOrder.executeCsr cpu id r' held).rob := by
  have hill := archOutcome_illegal cpu id r r' 0 (fun _ => rfl) h
  have hent : (O3.drainFpFlags cpu id r).2.findEntry id.robTag =
      (InOrder.drainFpFlags cpu id r' held).2.findEntry id.robTag := by
    rw [drainFpFlags_findEntry, InOrder.drainFpFlags_findEntry, h]
  by_cases hi : O3.csrIllegal cpu id = true
  · unfold O3.executeCsr
    rw [if_pos hi]
    -- one of the four checks of the in-order copy fires
    unfold InOrder.executeCsr
    rw [csrIllegal_eq] at hi
    dsimp only
    by_cases h1 : id.ctrl.csrAddr = Csr.satp ∧ cpu.privilege = .supervisor ∧
        (cpu.csrs.mstatus >>> 20) &&& 1 ≠ 0
    · rw [if_pos h1]
      exact hill
    · by_cases h2 : InOrder.counterDenied cpu id.ctrl.csrAddr = true
      · rw [if_neg h1, if_pos h2]
        exact hill
      · by_cases h3 : cpu.privilege.toU8 < id.ctrl.csrAddr.privilegeLevel.setWidth 8
        · rw [if_neg h1, if_neg h2, if_pos h3]
          exact hill
        · rw [if_neg h1, if_neg h2, if_neg h3, if_pos (by tauto)]
          exact hill
  · unfold O3.executeCsr InOrder.executeCsr
    rw [if_neg hi]
    rw [csrIllegal_eq] at hi
    have h1 := fun x => hi (.inl x)
    have h2 := fun x => hi (.inr (.inl x))
    have h3 := fun x => hi (.inr (.inr (.inl x)))
    have h4 := fun x => hi (.inr (.inr (.inr x)))
    dsimp only
    rw [if_neg h1, if_neg h2, if_neg h3, if_neg h4, drainFpFlags_cpu cpu id r r' held hf,
      wouldWrite_eq]
    by_cases hw : InOrder.wouldWrite id.ctrl.csrOp id.rs1 = true
    · rw [if_pos hw, if_pos hw]
      rw [csrNew_csrSrc]
      exact archOutcome_mkResult id _ _ _ 0 none _ _ (fun _ => rfl)
        (findEntry_modify_congr _ (fun _ => rfl) hent)
    · rw [if_neg hw, if_neg hw]
      exact archOutcome_mkResult id _ _ _ 0 none _ _ (fun _ => rfl) hent

theorem agree_ecall [Units U] (cpu : Cpu U) (id : RenameIssueEntry) (r r' : Rob) (held : U8)
    (htrap : id.trap = none) (hinst : id.inst = Inst.ecall) (hs : id.ctrl.systemOp = .system)
    (h : r.findEntry id.robTag = r'.findEntry id.robTag) :
    archOutcome (O3.executeOne cpu id r).result (O3.executeOne cpu id r).rob =
      archOutcome (InOrder.executeEntry cpu id r' held).result
        (InOrder.executeEntry cpu id r' held).rob := by
  unfold O3.executeOne InOrder.executeEntry O3.executeSystem InOrder.executeSystem O3.ecallTrap
  simp only [htrap, hs, hinst, if_pos, Option.getD_some]
  exact archOutcome_mkResult id 0 0 0 0 none _ _ (fun _ => rfl)
    (findEntry_modify_congr _ (fun _ => rfl) h)

/-! ### The whole instruction set -/

/-- A bundle of one is that instruction executed on its own. -/
theorem executeInorder_single [Units U] (cpu : Cpu U) (id : RenameIssueEntry) (rob : Rob)
    (inflight : U8) :
    InOrder.executeInorder cpu [id] rob inflight =
      let o := InOrder.executeEntry cpu id rob inflight
      ([o.result], o.flush, o.cpu, o.rob) := by
  have h0 : inflight ||| 0 = inflight := by simp
  unfold InOrder.executeInorder InOrder.executeBundle InOrder.executeBundle
  rw [h0]
  by_cases h : (InOrder.executeEntry cpu id rob inflight).flush = true
  · simp [h]
  · simp [h]

theorem csrOpOf_eq_none_iff (f : Funct3) : csrOpOf f = .none ↔ f = 0 ∨ f = 4 := by
  revert f
  decide

/-- SYSTEM words read through `funct3`: a CSR access, or the word both copies miss. -/
theorem executeOne_csrSignals [Units U] (w : U32) (cpu : Cpu U) (id : RenameIssueEntry) (r : Rob)
    (htrap : id.trap = none) (hinst : id.inst = w) (hne : w ≠ Inst.ecall)
    (hc : id.ctrl = csrSignals w) :
    O3.executeOne cpu id r =
      if csrOpOf (Inst.funct3 w) ≠ .none then O3.executeCsr cpu id r id.rv1 id.rv2
      else ⟨O3.mkResult id 0 0, true, cpu, r⟩ := by
  have hs : id.ctrl.systemOp = .system := by rw [hc]; rfl
  have ho : id.ctrl.csrOp = csrOpOf (Inst.funct3 w) := by rw [hc]; rfl
  unfold O3.executeOne O3.executeSystem
  simp only [htrap, hs, hinst, if_neg hne, ho]

theorem executeEntry_csrSignals [Units U] (w : U32) (cpu : Cpu U) (id : RenameIssueEntry) (r : Rob)
    (held : U8) (htrap : id.trap = none) (hinst : id.inst = w) (hne : w ≠ Inst.ecall)
    (hc : id.ctrl = csrSignals w) :
    InOrder.executeEntry cpu id r held =
      if csrOpOf (Inst.funct3 w) ≠ .none then InOrder.executeCsr cpu id r held
      else ⟨InOrder.mkResult id id.rv1 id.rv2, false, cpu, r⟩ := by
  have hs : id.ctrl.systemOp = .system := by rw [hc]; rfl
  have ho : id.ctrl.csrOp = csrOpOf (Inst.funct3 w) := by rw [hc]; rfl
  unfold InOrder.executeEntry InOrder.executeSystem
  simp only [htrap, hs, hinst, if_neg hne, ho]
  by_cases hn : csrOpOf (Inst.funct3 w) ≠ .none
  · rw [if_pos hn, if_pos hn]
    rfl
  · rw [if_neg hn, if_neg hn, Option.getD_none, executeRest_eq]
    -- no FP operand, no control flow: the ALU adds zero to `rs1`
    have hfp : O3.isFpInst id.ctrl = false := by rw [hc]; rfl
    have hctl : InOrder.executeControl cpu id r = (false, cpu, r) := by
      unfold InOrder.executeControl
      rw [hc]
      rfl
    have hadd : InOrder.computeAlu U id.ctrl.alu (O3.opA id) (O3.opB id) id.rv3 id.ctrl.isRv32 =
        (id.rv1, 0) := by
      unfold O3.opA O3.opB
      rw [hc]
      show ((id.rv1 + 0 : U64), (0 : U8)) = (id.rv1, 0)
      simp
    simp only [hfp, Bool.and_false, hctl, hadd]
    rfl

/-- With CSR signals the ALU output shows in the outcome exactly when `rd` is not `x0`. -/
theorem archOutcome_alu_iff (w : U32) (id : RenameIssueEntry) (a a' sd : U64) (r : Rob)
    (hc : id.ctrl = csrSignals w) (hrd : id.rd = Inst.rd w) :
    archOutcome (InOrder.mkResult id a sd) r = archOutcome (InOrder.mkResult id a' sd) r ↔
      Inst.rd w = 0 ∨ a = a' := by
  have hv : ∀ x, rdValue (InOrder.mkResult id x sd) = if Inst.rd w = 0 then none else some x := by
    intro x
    unfold rdValue InOrder.mkResult
    simp only [hc, hrd, csrSignals, ControlSignals.isMem, RegIdx.isZero]
    by_cases h : Inst.rd w = 0 <;> simp [h]
  have hm : id.ctrl.isMem = false := by rw [hc]; rfl
  constructor
  · intro h
    have := congrArg ArchOutcome.rdResult h
    simp only [archOutcome, hv] at this
    by_cases h0 : Inst.rd w = 0
    · exact .inl h0
    · simp only [if_neg h0, Option.some.injEq] at this
      exact .inr this
  · rintro (h0 | rfl)
    · unfold archOutcome
      simp only [hv, if_pos h0]
      simp only [InOrder.mkResult, hm, Bool.false_eq_true, if_false]
      rfl
    · rfl

/-- The word on which the copies disagree, as a condition on the word and its operand. -/
def Diverges (w : U32) (rv1 : U64) : Prop :=
  Inst.opcode w = Op.system ∧ Inst.funct3 w = 4 ∧ Inst.rd w ≠ 0 ∧ rv1 ≠ 0

/-- **The copies agree away from one word.** For every word the decoder accepts, with any
operands, core state and pending FP flags (in the buffer for the out-of-order backend, in the
buffer and the latches for the in-order one), both executions have the same outcome unless the
word is SYSTEM with `funct3 = 4`, has a destination and a nonzero `rs1` operand. -/
theorem execute_agree_iff [Units U] (w : U32) (cpu : Cpu U) (id : RenameIssueEntry)
    (robO robI : Rob) (inflight : U8) (hw : IsIssueOf w id)
    (hrob : robO.findEntry id.robTag = robI.findEntry id.robTag)
    (hflags : (robO.drainFpFlagsBefore id.robTag).1 =
      (robI.drainFpFlagsBefore id.robTag).1 ||| inflight) :
    (InOrder.executeInorder cpu [id] robI inflight).1.map
        (archOutcome · (InOrder.executeInorder cpu [id] robI inflight).2.2.2) =
      [archOutcome (O3.executeOne cpu id robO).result (O3.executeOne cpu id robO).rob] ↔
    ¬Diverges w id.rv1 := by
  rw [executeInorder_single]
  simp only [List.map_cons, List.map_nil, List.cons.injEq, and_true]
  rcases decodeInstruction_cases w id.pc id.ctrl hw.ctrl with ⟨hf3, hnamed⟩ | ⟨hop, h0, hne, hc⟩
  · -- every word outside the CSR shape agrees, and none of them diverges
    have hnd : ¬Diverges w id.rv1 := by
      rintro ⟨hop, h4, -⟩
      rw [hf3 hop] at h4
      exact absurd h4 (by decide)
    refine iff_of_true (Eq.symm ?_) hnd
    rcases hnamed with hp | hc | hc | hc | hc | ⟨he, hc⟩
    · exact agree_plain cpu id robO robI inflight hw.trap hp hrob
    · exact agree_system cpu id robO robI inflight hw.trap (by simp [hc]) (by rw [hc]) hrob
    · exact agree_system cpu id robO robI inflight hw.trap (by simp [hc]) (by rw [hc]) hrob
    · exact agree_system cpu id robO robI inflight hw.trap (by simp [hc]) (by rw [hc]) hrob
    · exact agree_system cpu id robO robI inflight hw.trap (by simp [hc]) (by rw [hc]) hrob
    · exact agree_ecall cpu id robO robI inflight hw.trap (hw.inst.trans he) (by rw [hc]) hrob
  · rw [executeOne_csrSignals w cpu id robO hw.trap hw.inst hne hc,
      executeEntry_csrSignals w cpu id robI inflight hw.trap hw.inst hne hc]
    by_cases hn : csrOpOf (Inst.funct3 w) ≠ .none
    · simp only [if_pos hn]
      refine iff_of_true (agree_csr cpu id robO robI inflight hrob hflags).symm ?_
      rintro ⟨-, h4, -⟩
      exact hn ((csrOpOf_eq_none_iff _).mpr (.inr h4))
    · -- `rs1` against zero in a destination that is written
      have h4 : Inst.funct3 w = 4 := ((csrOpOf_eq_none_iff _).mp (not_not.mp hn)).resolve_left h0
      simp only [if_neg hn]
      rw [archOutcome_mkResult id 0 0 id.rv2 0 none robO robI (by simp [hc, csrSignals]) hrob,
        archOutcome_alu_iff w id id.rv1 0 id.rv2 robI hc hw.rd]
      unfold Diverges
      tauto

/-! ### A word of each kind -/

/-- An issue entry for `w` at the start of RAM, with `rs1` reading `rv1`. -/
def benchEntry (w : U32) (ctrl : ControlSignals) (rv1 : U64) : RenameIssueEntry :=
  { robTag := 1, pc := 0x80000000, inst := w, instSize := .standard, rs1 := Inst.rs1 w
    rs2 := Inst.rs2 w, rs3 := Inst.rs3 w, rd := Inst.rd w, imm := decodeImm w, rv1 := rv1, rv2 := 0
    rv3 := 0, rs1Tag := none, rs2Tag := none, rs3Tag := none, rs1Phys := 6, rs2Phys := 0, rs3Phys := 0
    rdPhys := 64, ctrl := ctrl, trap := none, predTaken := false, predTarget := 0 }

/-- A buffer that holds just that entry. -/
def benchRob (id : RenameIssueEntry) : Rob :=
  { capacity := 4, nextTag := 2
    entries := [{ tag := 1, pc := id.pc, inst := id.inst, instSize := id.instSize, rd := id.rd
                  rdFp := false, ctrl := id.ctrl, physDst := 64, oldPhysDst := 5 }] }

def benchCpu : Cpu Bench := Cpu.new {} (fun _ => 0) {}

/-- `funct3 = 4`, `rd = x5`, `rs1 = x6`: accepted by the decoder, no CSR access. -/
def missedWord : U32 := 0x000342F3

/-- `addi x5, x6, 1`. -/
def addiWord : U32 := 0x00130293

theorem execute_agree_addi :
    ¬Diverges addiWord 7 ∧
      (InOrder.executeInorder benchCpu [benchEntry addiWord { regWrite := true } 7]
          (benchRob (benchEntry addiWord { regWrite := true } 7)) 0).1.map
        (archOutcome · (InOrder.executeInorder benchCpu [benchEntry addiWord { regWrite := true } 7]
          (benchRob (benchEntry addiWord { regWrite := true } 7)) 0).2.2.2) =
      [archOutcome
        (O3.executeOne benchCpu (benchEntry addiWord { regWrite := true } 7)
          (benchRob (benchEntry addiWord { regWrite := true } 7))).result
        (O3.executeOne benchCpu (benchEntry addiWord { regWrite := true } 7)
          (benchRob (benchEntry addiWord { regWrite := true } 7))).rob] := by
  have hd : ¬Diverges addiWord 7 := fun h => absurd h.1 (by decide)
  refine ⟨hd, (execute_agree_iff addiWord benchCpu _ _ _ 0 ⟨rfl, rfl, rfl, rfl, rfl, ?_, rfl⟩ rfl ?_).mpr hd⟩
  · decide
  · decide

/-- The word both copies miss, executed with `rs1 = 1`: same inputs, different result in `x5`. -/
theorem execute_disagree_missedWord :
    decodeInstruction missedWord 0x80000000 (decode missedWord) = .ok (csrSignals missedWord) ∧
      (archOutcome
        (O3.executeOne benchCpu (benchEntry missedWord (csrSignals missedWord) 1)
          (benchRob (benchEntry missedWord (csrSignals missedWord) 1))).result
        (O3.executeOne benchCpu (benchEntry missedWord (csrSignals missedWord) 1)
          (benchRob (benchEntry missedWord (csrSignals missedWord) 1))).rob).rdResult = some 0 ∧
      (InOrder.executeInorder benchCpu [benchEntry missedWord (csrSignals missedWord) 1]
          (benchRob (benchEntry missedWord (csrSignals missedWord) 1)) 0).1.map
        (fun r => (archOutcome r
          (InOrder.executeInorder benchCpu [benchEntry missedWord (csrSignals missedWord) 1]
            (benchRob (benchEntry missedWord (csrSignals missedWord) 1)) 0).2.2.2).rdResult) =
      [some 1] := by
  refine ⟨by decide, by decide, by decide⟩

end Rvsim
