/-
# Runs of the in-order pipeline, and the operands it reads

What a tick of the engine and rename keep, a tick of the pipeline keeps. When
`select` issues an instruction, the name it kept for an operand leads to the
last older writer of the register, if that is still in the buffer, and to the
register file otherwise: it reads what the older instructions leave there when
they retire in order. A store-conditional is the exception. Its result counts
as 0 from writeback on, and becomes 1 when it fails at commit.

Key definitions:
  - `InOrderPipeline.Run`, `InOrderPipeline.selecting`
  - `CommitState.runOlder`, `CommitState.reserved`, `RenameIssueEntry.Reads`
Key theorems:
  - `InOrderPipeline.Run.inv`, `InOrderInv.issued_reads`, `InOrderPipeline.Run.reads`
-/
import Rvsim.InOrderIssue

namespace Rvsim

open Producers

variable {U : Type}

/-! ### What older instructions leave -/

/-- The register write of a retiring entry. -/
def RegisterFile.retire (regs : RegisterFile) (e : RobEntry) : RegisterFile :=
  if e.ctrl.fpRegWrite then regs.writeF e.rd (e.result.getD 0)
  else if e.writesGpr then regs.write e.rd (e.result.getD 0)
  else regs

/-- The instructions `es` retire, one after the other. -/
def CommitState.runOlder [Units U] (c : CommitState U) (es : List RobEntry) : CommitState U :=
  es.foldl (fun c e => (c.retire e).2) c

/-- Every store-conditional among the instructions finds its reservation when it is its turn. -/
def CommitState.reserved [Units U] (c : CommitState U) : List RobEntry → Bool
  | [] => true
  | e :: es =>
    (match e.lrSc with
      | some (.sc a) => (((c.retirePc e).retireReg e).retireRecords e).cpu.checkReservation a
      | _ => true) && (c.retire e).2.reserved es

/-- The operands of an instruction are the values of these registers. -/
structure RenameIssueEntry.Reads (w : RenameIssueEntry) (regs : RegisterFile) : Prop where
  rs1 : w.rv1 = regs.arch w.rs1 w.ctrl.rs1Fp
  rs2 : w.rv2 = regs.arch w.rs2 w.ctrl.rs2Fp
  rs3 : w.ctrl.rs3Fp = true → w.rv3 = regs.arch w.rs3 true

instance (w : RenameIssueEntry) (regs : RegisterFile) : Decidable (w.Reads regs) :=
  decidable_of_iff (w.rv1 = regs.arch w.rs1 w.ctrl.rs1Fp ∧ w.rv2 = regs.arch w.rs2 w.ctrl.rs2Fp ∧
    (w.ctrl.rs3Fp = true → w.rv3 = regs.arch w.rs3 true)) ⟨fun h => ⟨h.1, h.2.1, h.2.2⟩, fun h => ⟨h.rs1, h.rs2, h.rs3⟩⟩

/-- The entries in front of the one tagged `tag`. -/
def Rob.before (r : Rob) (tag : RobTag) : List RobEntry := r.entries.takeWhile fun e => e.tag ≠ tag

theorem Rob.before_eq {r : Rob} {pre post : List RobEntry} {e : RobEntry} (hes : r.entries = pre ++ e :: post)
    (hnd : r.tags.Nodup) : r.before e.tag = pre := by
  rw [Rob.tags, hes, List.map_append, List.map_cons] at hnd
  have hpre : ∀ x ∈ pre, decide (x.tag ≠ e.tag) = true := fun x hx => by
    refine decide_eq_true fun heq => ?_
    exact (List.nodup_append.mp hnd).2.2 _ (List.mem_map_of_mem hx) _ List.mem_cons_self heq
  rw [Rob.before, hes, List.takeWhile_append_of_pos hpre, List.takeWhile_cons_of_neg (by simp), List.append_nil]

section

theorem RegisterFile.arch_retire (regs : RegisterFile) (e : RobEntry) (r : RegIdx) (fp : Bool) :
    (regs.retire e).arch r fp = if e.dst = some (r, fp) then e.result.getD 0 else regs.arch r fp := by
  unfold RegisterFile.retire RobEntry.dst
  by_cases hf : e.ctrl.fpRegWrite
  · simp only [if_pos hf, Option.some.injEq, Prod.mk.injEq]
    cases fp with
    | false => simp [RegisterFile.arch, RegisterFile.read, RegisterFile.writeF]
    | true =>
      by_cases hr : e.rd = r
      · simp [RegisterFile.arch, RegisterFile.readF, RegisterFile.writeF, hr]
      · simp [RegisterFile.arch, RegisterFile.readF, RegisterFile.writeF, hr, Ne.symm hr]
  · simp only [if_neg hf]
    by_cases hg : e.writesGpr
    · have hz : e.rd.isZero = false := by
        simp only [RobEntry.writesGpr, Bool.and_eq_true, Bool.not_eq_true'] at hg
        exact hg.2
      simp only [if_pos hg, Option.some.injEq, Prod.mk.injEq]
      cases fp with
      | true => simp [RegisterFile.arch, RegisterFile.readF, RegisterFile.write, hz]
      | false =>
        by_cases hr : e.rd = r
        · subst hr
          simp [RegisterFile.arch, RegisterFile.read, RegisterFile.write, hz]
        · simp [RegisterFile.arch, RegisterFile.read, RegisterFile.write, hz, hr, Ne.symm hr]
    · simp [if_neg hg]

/-- Retiring in order leaves every register with the result of its producer. -/
theorem RegisterFile.arch_foldl_retire (res : RobTag → U64) (es : List RobEntry) (regs : RegisterFile)
    (hres : ∀ e ∈ es, res e.tag = e.result.getD 0) (r : RegIdx) (fp : Bool) :
    (es.foldl RegisterFile.retire regs).arch r fp =
      valueOf (fun x => regs.arch x.1 x.2) res (r, fp) (es.map RobEntry.writer) := by
  rw [← foldl_write]
  induction es generalizing regs with
  | nil => rfl
  | cons e es ih =>
    have hstep : (fun x : RegIdx × Bool => (regs.retire e).arch x.1 x.2) =
        Producers.write res (fun x => regs.arch x.1 x.2) e.writer := by
      funext x
      rw [arch_retire]
      unfold Producers.write
      rw [show e.writer.dst = e.dst from rfl]
      cases hd : e.dst with
      | none => simp
      | some d =>
        dsimp only
        rw [show e.writer.tag = e.tag from rfl, hres e List.mem_cons_self]
        by_cases hx : d = x
        · subst hx
          simp
        · rw [if_neg (by simpa using hx)]
          rw [Function.update_of_ne (Ne.symm hx)]
    rw [List.foldl_cons, ih _ fun x hx => hres x (List.mem_cons_of_mem _ hx), hstep]
    rfl

variable [Units U]

/-- Where every reservation holds, retiring writes the recorded results. -/
theorem CommitState.regs_runOlder (c : CommitState U) (es : List RobEntry) (h : c.reserved es = true) :
    (c.runOlder es).cpu.regs = es.foldl RegisterFile.retire c.cpu.regs := by
  induction es generalizing c with
  | nil => rfl
  | cons e es ih =>
    rw [CommitState.reserved, Bool.and_eq_true] at h
    have hsc : ∀ a, e.lrSc = some (.sc a) →
        (((c.retirePc e).retireReg e).retireRecords e).cpu.checkReservation a = true := fun a ha => by
      have hhead := h.1
      rw [ha] at hhead
      exact hhead
    have hreg : (c.retire e).2.cpu.regs = c.cpu.regs.retire e := by
      rw [(retire_quiet c e hsc).cpu.regs]
      unfold CommitState.retireReg RegisterFile.retire
      dsimp only
      by_cases hf : e.ctrl.fpRegWrite
      · rw [if_pos hf, if_pos hf]
        rfl
      · rw [if_neg hf, if_neg hf]
        by_cases hg : e.writesGpr
        · rw [if_pos hg, if_pos hg]
          rfl
        · rw [if_neg hg, if_neg hg]
          rfl
    rw [List.foldl_cons, ← hreg]
    exact ih _ h.2

end

/-! ### Reading by name -/

namespace InOrder

variable {s : InOrderState U}

/-- The result recorded under a tag. -/
def resultOf (r : Rob) (t : RobTag) : U64 := ((r.findEntry t).bind RobEntry.result).getD 0

theorem findEntry_of_mem {r : Rob} (hnd : r.tags.Nodup) {e : RobEntry} (he : e ∈ r.entries) :
    r.findEntry e.tag = some e := by
  obtain ⟨pre, post, hes⟩ := List.append_of_mem he
  rw [Rob.tags, hes, List.map_append, List.map_cons] at hnd
  have hpre : ∀ x ∈ pre, ¬(x.tag == e.tag) = true := fun x hx heq =>
    (List.nodup_append.mp hnd).2.2 _ (List.mem_map_of_mem hx) _ List.mem_cons_self (by simpa using heq)
  rw [Rob.findEntry, hes, List.find?_append, List.find?_eq_none.mpr hpre, Option.none_or,
      List.find?_cons_of_pos (by simp)]

/-- **An operand read by name** is the value the older writers leave in the register. -/
theorem readOperandByTag_names {rob : Rob} {cpu : Cpu U} {reg : RegIdx} {fp : Bool} {tag : Option RobTag}
    {pre : List RobEntry} {v : U64} (hn : Names tag (reg, fp) (pre.map RobEntry.writer) rob.tags)
    (hr : readOperandByTag reg fp tag rob cpu = some v) :
    v = valueOf (fun x => cpu.regs.arch x.1 x.2) (resultOf rob) (reg, fp) (pre.map RobEntry.writer) := by
  unfold readOperandByTag at hr
  by_cases hz : (!fp && reg.isZero) = true
  · -- nobody writes x0
    rw [if_pos hz] at hr
    simp only [Bool.and_eq_true, Bool.not_eq_true'] at hz
    obtain ⟨rfl, hz⟩ := hz
    have hnone : ∀ es : List RobEntry, producer (reg, false) (es.map RobEntry.writer) = none := by
      intro es
      induction es with
      | nil => rfl
      | cons e es ih =>
        rw [List.map_cons, producer, ih, Option.none_or, if_neg]
        unfold RobEntry.writer RobEntry.dst RobEntry.writesGpr
        intro hd
        dsimp only at hd
        split at hd
        · simp at hd
        · split at hd
          · rename_i hg
            rw [Option.some.injEq, Prod.mk.injEq] at hd
            rw [hd.1, hz] at hg
            simp at hg
          · exact absurd hd (by simp)
    unfold valueOf
    rw [hnone]
    rw [← Option.some.inj hr]
    simp [RegisterFile.arch, RegisterFile.read, hz]
  · rw [if_neg hz] at hr
    unfold Names at hn
    cases hb : tag.bind rob.findEntry with
    | some e =>
      -- the producer is in the buffer, and has completed
      rw [hb] at hr
      dsimp only at hr
      obtain ⟨t, rfl, hfind⟩ := Option.bind_eq_some_iff.mp hb
      have hmem : e ∈ rob.entries := List.mem_of_find?_eq_some hfind
      have htag : e.tag = t := Rob.tag_of_find? hfind
      have hlive : t ∈ rob.tags := htag ▸ List.mem_map_of_mem hmem
      rw [Option.filter_some_pos (by simpa using hlive)] at hn
      unfold valueOf
      rw [hn]
      dsimp only
      unfold resultOf
      rw [hfind, Option.bind_some]
      by_cases hst : e.state = .completed
      · rw [if_pos hst] at hr
        rw [hr, Option.getD_some]
      · rw [if_neg hst] at hr
        exact absurd hr (by simp)
    | none =>
      -- the producer has retired, or there was none
      rw [hb] at hr
      have hfilter : (tag.filter fun t => decide (t ∈ rob.tags)) = none := by
        cases tag with
        | none => rfl
        | some t =>
          rw [Option.bind_some] at hb
          have hout : t ∉ rob.tags := fun hin => by
            obtain ⟨e, he, het⟩ := List.mem_map.mp hin
            have hne := List.find?_eq_none.mp hb e he
            simp [het] at hne
          exact Option.filter_some_neg (by simpa using hout)
      rw [hfilter] at hn
      unfold valueOf
      rw [hn, ← Option.some.inj hr]
      rfl

end InOrder

/-- **What `select` issues reads what the older instructions leave.** -/
theorem InOrderInv.issued_reads {s : InOrderState U} (h : InOrderInv s) {w : RenameIssueEntry}
    (hw : w ∈ (InOrder.select s.eng.rob s.eng.sb s.cpu s.eng.width s.eng.queue).1) (ht : w.trap = none) :
    w.robTag ∈ s.eng.rob.tags ∧
      w.Reads ((s.eng.rob.before w.robTag).foldl RegisterFile.retire s.cpu.regs) := by
  obtain ⟨k, -, hall⟩ := InOrder.select_spec s.eng.rob s.eng.sb s.cpu s.eng.width s.eng.queue
  obtain ⟨x, hx, hpick⟩ : ∃ x ∈ s.eng.queue.take k, InOrder.Picked s.eng.rob s.cpu x w := by
    obtain ⟨i, hi, rfl⟩ := List.mem_iff_getElem.mp hw
    exact ⟨_, List.getElem_mem (by rw [hall.length_eq]; exact hi), hall.get (by rw [hall.length_eq]; exact hi) hi⟩
  have hxw : x ∈ s.waiting := List.mem_append_left _ (List.mem_of_mem_take hx)
  obtain ⟨done, hsplit, -⟩ := h.split
  have htag := hpick.tag
  have hin : x.robTag ∈ s.eng.rob.tags := by
    rw [hsplit]
    exact List.mem_append_right _ (List.mem_map_of_mem hxw)
  obtain ⟨e, he, het⟩ := List.mem_map.mp hin
  obtain ⟨pre, post, hes⟩ := List.append_of_mem he
  have hsrc := h.sources x hxw pre e post hes het
  rcases hpick with ⟨hxt, rfl⟩ | ⟨-, hread⟩
  · rw [ht] at hxt
    exact absurd hxt (by simp)
  · rw [htag]
    refine ⟨hin, ?_⟩
    rw [← het, Rob.before_eq hes h.nodup]
    have hres : ∀ y ∈ pre, InOrder.resultOf s.eng.rob y.tag = y.result.getD 0 := fun y hy => by
      unfold InOrder.resultOf
      rw [InOrder.findEntry_of_mem h.nodup (by rw [hes]; exact List.mem_append_left _ hy), Option.bind_some]
    unfold InOrder.readOperands at hread
    split at hread
    · rename_i v1 v2 v3 h1 h2 h3
      rw [← Option.some.inj hread]
      refine ⟨?_, ?_, fun hf => ?_⟩
      · rw [RegisterFile.arch_foldl_retire _ pre s.cpu.regs hres]
        exact InOrder.readOperandByTag_names hsrc.rs1 h1
      · rw [RegisterFile.arch_foldl_retire _ pre s.cpu.regs hres]
        exact InOrder.readOperandByTag_names hsrc.rs2 h2
      · have hf' : x.ctrl.rs3Fp = true := hf
        rw [if_pos hf'] at h3
        rw [RegisterFile.arch_foldl_retire _ pre s.cpu.regs hres]
        exact InOrder.readOperandByTag_names (hsrc.rs3 hf') h3
    · exact absurd hread (by simp)

/-! ### Runs -/

theorem InOrderInv.ofCpu {s : InOrderState U} (h : InOrderInv s) {cpu : Cpu U} (hf : s.cpu.Frame cpu) :
    InOrderInv { s with cpu := cpu } := by
  refine h.moved rfl rfl rfl rfl ?_ ?_
  · simp only [InOrderState.flying, hf.mshrs]
    exact List.Subperm.refl _
  · change cpu.l1dMshrs.Ok
    rw [hf.mshrs]
    exact h.mshrs

namespace InOrderPipeline

section

variable [Units U] {p : InOrderPipeline U}

/-- The pipeline once the engine has ticked and the front end is flushed if it has to be. -/
def afterEngine (p : InOrderPipeline U) : InOrderPipeline U :=
  redirect { p with core := InOrder.tick p.core } p.core.cpu.pc

theorem afterEngine_inv (h : InOrderInv p.core) :
    InOrderInv p.afterEngine.core ∧ p.afterEngine.core.renameOutput = [] := by
  obtain ⟨hk, ho⟩ := InOrder.tick_inv h
  unfold afterEngine redirect
  dsimp only
  by_cases hr : (InOrder.tick p.core).cpu.redirectPending || (InOrder.tick p.core).cpu.pc != p.core.cpu.pc
  · rw [if_pos hr]
    exact ⟨hk.ofCpu ⟨rfl, rfl⟩, rfl⟩
  · rw [if_neg hr]
    simp only [Bool.or_eq_true, not_or] at hr
    have hout := ho.resolve_right hr.1
    have heq : ({ InOrder.tick p.core with renameOutput := [] } : InOrderState U) = InOrder.tick p.core := by
      rw [← hout]
    rw [heq] at hk
    exact ⟨hk, hout⟩

theorem pipelineTick_eq (p : InOrderPipeline U) :
    p.pipelineTick = if p.afterEngine.core.cpu.fetching then p.afterEngine.frontendTick else p.afterEngine := rfl

theorem frontendTick_inv (h : InOrderInv p.core) (ho : p.core.renameOutput = [])
    (hspan : p.frontendTick.core.SpanOk) : InOrderInv p.frontendTick.core := by
  have hren := InOrder.renameStage_inv p.frontend.decodeRename h ho hspan
  have hcpu : (InOrder.renameStage p.core p.frontend.decodeRename).2.cpu.Frame
      (Frontend.tickBehind { p.frontend with decodeRename := (InOrder.renameStage p.core p.frontend.decodeRename).1 }
        (InOrder.renameStage p.core p.frontend.decodeRename).2.cpu false).2 := by
    obtain ⟨u, pc, heq⟩ := Frontend.tickBehind_cpu
      { p.frontend with decodeRename := (InOrder.renameStage p.core p.frontend.decodeRename).1 }
      (InOrder.renameStage p.core p.frontend.decodeRename).2.cpu false
    rw [heq]
    exact ⟨rfl, rfl⟩
  exact hren.ofCpu hcpu

/-- **A tick of the simulator keeps the invariant.** -/
theorem tick_inv (h : InOrderInv p.core) (hspan : p.tick.core.SpanOk) : InOrderInv p.tick.core := by
  have hpre := h.ofCpu (O3Pipeline.preTick_frame p.core.cpu)
  unfold tick at hspan ⊢
  rcases hr : p.core.cpu.preTick with ⟨skip, cpu⟩
  simp only [hr] at hpre hspan ⊢
  cases skip with
  | true => exact hpre.ofCpu (O3Pipeline.postTick_frame _)
  | false =>
    simp only [Bool.false_eq_true, if_false] at hspan ⊢
    refine InOrderInv.ofCpu ?_ (O3Pipeline.postTick_frame _)
    obtain ⟨heng, hout⟩ := @afterEngine_inv _ _ { p with core := { p.core with cpu := cpu } } hpre
    rw [pipelineTick_eq] at hspan ⊢
    by_cases hf : (afterEngine { p with core := { p.core with cpu := cpu } }).core.cpu.fetching
    · simp only [if_pos hf, InOrderState.SpanOk] at hspan ⊢
      revert heng hout hspan
      generalize afterEngine { p with core := { p.core with cpu := cpu } } = q
      exact fun heng hout hspan => frontendTick_inv heng hout hspan
    · rw [if_neg hf]
      exact heng

omit [Units U] in
theorem init_inv {cfg : Config} {cpu : Cpu U} (hl : O3Pipeline.Loaded cfg cpu) : InOrderInv (init cfg cpu).core := by
  have hpark : cpu.l1dMshrs.parked = [] := by
    rw [hl.mshrs]
    simp [MshrFile.parked, MshrFile.new, MshrEntry.parked]
  refine InOrderInv.flushed rfl rfl rfl ?_ ?_
  · simp [InOrderState.flying, init, InOrder.Engine.new, hpark]
  · change cpu.l1dMshrs.Ok
    rw [hl.mshrs]
    exact MshrFile.Ok.new _ _

end

/-- The states a run can be in when each of its steps meets `S`. -/
inductive Run [Units U] (cfg : Config) (S : InOrderPipeline U → InOrderPipeline U → Prop) :
    InOrderPipeline U → Prop where
  | init (cpu : Cpu U) (h : O3Pipeline.Loaded cfg cpu) : Run cfg S (InOrderPipeline.init cfg cpu)
  | tick (p : InOrderPipeline U) (h : Run cfg S p) (hs : S p p.tick) : Run cfg S p.tick

/-- Every state of the run has its tags within half the tag space. -/
def SpanStep (_ q : InOrderPipeline U) : Prop := q.core.SpanOk

/-- **The invariant of runs** whose tags stay within half the tag space. -/
theorem Run.inv [Units U] {cfg : Config} {p : InOrderPipeline U} (h : Run cfg SpanStep p) : InOrderInv p.core := by
  induction h with
  | init cpu h => exact init_inv h
  | tick p _ hs ih => exact tick_inv ih hs

end InOrderPipeline

/-! ### The operands of a run -/

/-- What commit works on. -/
def InOrderState.committing (s : InOrderState U) : CommitState U :=
  ⟨s.cpu, s.eng.rob, s.eng.sb, s.eng.scoreboard, s.eng.committedMap, s.eng.freeList, none, none, none⟩

/-- What the state's tick issues, once it is there. -/
def InOrderState.issued (s : InOrderState U) : List RenameIssueEntry :=
  (InOrder.select s.eng.rob s.eng.sb s.cpu s.eng.width s.eng.queue).1

namespace InOrder

variable [Units U]

/-- The state in which a tick selects, behind commit, writeback and the memory stages; none when the tick
takes a trap or flushes, or memory1 has not taken all of its latch. -/
def selecting (s : InOrderState U) : Option (InOrderState U) :=
  let s := drainMshrs (start s)
  match commit s with
  | (some _, _) => none
  | (none, s') =>
    if s'.cpu.pc ≠ s.cpu.pc then none
    else
      let m := memory1 (memory2 (writing s' (writebackStage s'.eng.rob s'.eng.mem2Wb) []))
      if m.eng.executeMem1.isEmpty then some m else none

theorem tickRest_eq (s : InOrderState U) : tickRest s =
    match issue (memory1 (memory2 (writing s (writebackStage s.eng.rob s.eng.mem2Wb) []))) with
    | (true, s) => recover s
    | (false, s) => { s with eng := dispatch s.eng s.renameOutput, renameOutput := [] } := rfl

/-- The rest of the tick executes what is issued there. -/
theorem tick_of_selecting {s m : InOrderState U} (h : selecting s = some m) :
    tick s = (match executeInorder m.cpu m.issued m.eng.rob (inflightFpFlags m.eng) with
      | (results, true, cpu, rob) =>
          recover { m with cpu := cpu, eng := { m.eng with rob := rob, executeMem1 := results } }
      | (results, false, cpu, rob) =>
        let eng := { m.eng with
          queue := (select m.eng.rob m.eng.sb m.cpu m.eng.width m.eng.queue).2
          rob := rob
          executeMem1 := results }
        { m with cpu := cpu, eng := dispatch eng m.renameOutput, renameOutput := [] }) := by
  unfold selecting at h
  unfold tick
  dsimp only at h ⊢
  generalize commit (drainMshrs (start s)) = r at h ⊢
  obtain ⟨trap, s'⟩ := r
  cases trap with
  | some te => exact absurd h (by simp)
  | none =>
    dsimp only at h ⊢
    by_cases hp : s'.cpu.pc ≠ (drainMshrs (start s)).cpu.pc
    · rw [if_pos hp] at h
      exact absurd h (by simp)
    · rw [if_neg hp] at h ⊢
      rw [Option.ite_none_right_eq_some] at h
      obtain ⟨he, h⟩ := h
      have hm := Option.some.inj h
      rw [hm] at he
      have he' : m.eng.executeMem1 = [] := by simpa using he
      rw [tickRest_eq, hm]
      unfold issue
      rw [if_neg (by simp [he'])]
      dsimp only [InOrderState.issued]
      generalize executeInorder m.cpu _ m.eng.rob _ = x
      obtain ⟨results, fl, cpu, rob⟩ := x
      cases fl with
      | true =>
        dsimp only
        rw [he', List.nil_append]
        rfl
      | false =>
        dsimp only
        rw [he', List.nil_append]

theorem selecting_inv {s m : InOrderState U} (h : InOrderInv s) (hm : selecting s = some m) : InOrderInv m := by
  have hc := @commit_inv U _ _ (drainMshrs_inv (start_inv h))
  unfold selecting at hm
  dsimp only at hm
  revert hc hm
  generalize commit (drainMshrs (start s)) = r
  obtain ⟨trap, s'⟩ := r
  intro hm hc
  cases trap with
  | some te => exact absurd hm (by simp)
  | none =>
    dsimp only at hm
    split at hm
    · exact absurd hm (by simp)
    · rw [Option.ite_none_right_eq_some] at hm
      rw [← Option.some.inj hm.2]
      exact memory1_inv (memory2_inv (writeback_inv (hc rfl)) rfl)

end InOrder

namespace InOrderPipeline

variable [Units U]

/-- The state in which the next tick selects. -/
def selecting (p : InOrderPipeline U) : Option (InOrderState U) :=
  match p.core.cpu.preTick with
  | (true, _) => none
  | (false, cpu) => InOrder.selecting { p.core with cpu := cpu }

/-- **Operands in a run.** What a tick issues reads the registers as the results recorded for the older
instructions leave them; these are the values retiring them in order leaves, while every older
store-conditional finds its reservation. -/
theorem Run.reads {cfg : Config} {p : InOrderPipeline U} (h : Run cfg SpanStep p) {m : InOrderState U}
    (hm : p.selecting = some m) {w : RenameIssueEntry} (hw : w ∈ m.issued) (ht : w.trap = none) :
    w.robTag ∈ m.eng.rob.tags ∧
      w.Reads ((m.eng.rob.before w.robTag).foldl RegisterFile.retire m.cpu.regs) ∧
      (m.committing.reserved (m.eng.rob.before w.robTag) = true →
        w.Reads (m.committing.runOlder (m.eng.rob.before w.robTag)).cpu.regs) := by
  have hinv : InOrderInv m := by
    unfold selecting at hm
    have hpre := h.inv.ofCpu (O3Pipeline.preTick_frame p.core.cpu)
    revert hm hpre
    rcases p.core.cpu.preTick with ⟨skip, cpu⟩
    cases skip with
    | true => exact fun hm => absurd hm (by simp)
    | false => exact fun hm hpre => InOrder.selecting_inv hpre hm
  obtain ⟨hin, hreads⟩ := hinv.issued_reads hw ht
  refine ⟨hin, hreads, fun hres => ?_⟩
  rw [CommitState.regs_runOlder _ _ hres]
  exact hreads

/-! ### A store-conditional that fails -/

omit [Units U] in
/-- The test of `SpanOk`. -/
def spanOk (s : InOrderState U) : Bool :=
  s.eng.rob.tags.all fun t => Serial.age s.eng.rob.nextTag t < Serial.half 32

omit [Units U] in
theorem spanOk_iff (s : InOrderState U) : spanOk s = true ↔ s.SpanOk := by
  simp only [spanOk, InOrderState.SpanOk, List.all_eq_true, decide_eq_true_eq]

/-- The state after `n` ticks. -/
def ticks (p : InOrderPipeline U) : Nat → InOrderPipeline U
  | 0 => p
  | n + 1 => p.tick.ticks n

/-- The next `n` states have their tags within half the tag space. -/
def spans : Nat → InOrderPipeline U → Bool
  | 0, _ => true
  | n + 1, p => spanOk p.tick.core && spans n p.tick

theorem Run.ticks {cfg : Config} (n : Nat) {p : InOrderPipeline U} (h : Run cfg SpanStep p) (hs : spans n p = true) :
    Run cfg SpanStep (p.ticks n) := by
  induction n generalizing p with
  | zero => exact h
  | succ n ih =>
    rw [spans, Bool.and_eq_true] at hs
    exact ih (.tick p h ((spanOk_iff _).mp hs.1)) hs.2

/-- Some instruction the next tick issues passes the test. -/
def issues (p : InOrderPipeline U) (test : InOrderState U → RenameIssueEntry → Bool) : Bool :=
  p.selecting.any fun m => m.issued.any (test m)

theorem exists_of_issues {p : InOrderPipeline U} {test : InOrderState U → RenameIssueEntry → Bool}
    (h : p.issues test = true) : ∃ m w, p.selecting = some m ∧ w ∈ m.issued ∧ test m w = true := by
  unfold issues at h
  cases hm : p.selecting with
  | none =>
    rw [hm] at h
    exact absurd h (by simp)
  | some m =>
    rw [hm, Option.any_some, List.any_eq_true] at h
    obtain ⟨w, hw, ht⟩ := h
    exact ⟨m, w, rfl, hw, ht⟩

/-- A small two-wide machine. -/
def smallInOrder : Config :=
  { backend := .inOrder, width := 2, robSize := 8, storeBufferSize := 4 }

/-- A store-conditional without a reservation, and an instruction that reads its result. -/
def scRead : InOrderPipeline Bench :=
  init smallInOrder (Cpu.new smallInOrder
    -- addi x5,x0,7; auipc x6,0x1; sc.w x8,x5,(x6); addi x9,x8,0; jal x0,0
    (O3Pipeline.memOfWords 0x80000000 [0x00700293, 0x00001317, 0x1853242f, 0x00040493, 0x0000006f])
    { btb := [(0x80000010, 0x80000010)] })

/-- The store-conditional reads both its operands from the buffer. -/
theorem reads_scRead : ∃ m w, (scRead.ticks 8).selecting = some m ∧ w ∈ m.issued ∧ w.rv2 = 7 ∧
    w.Reads (m.committing.runOlder (m.eng.rob.before w.robTag)).cpu.regs := by
  obtain ⟨m, w, hm, hw, ht⟩ := @exists_of_issues Bench _ (scRead.ticks 8)
    (fun m w => w.trap == none && w.rv2 == 7 && m.committing.reserved (m.eng.rob.before w.robTag))
    (by decide +kernel)
  simp only [Bool.and_eq_true, beq_iff_eq] at ht
  have hrun : Run smallInOrder SpanStep (scRead.ticks 8) :=
    Run.ticks 8 (.init _ (O3Pipeline.loaded_new smallInOrder _ _)) (by decide)
  exact ⟨m, w, hm, hw, ht.1.2, (hrun.reads hm hw ht.1.1).2.2 ht.2⟩

/-- Written back, the store-conditional counts as successful: the instruction behind it issues with 0,
where retiring leaves 1. -/
theorem scRead_reads_zero : ¬∀ p : InOrderPipeline Bench, Run smallInOrder SpanStep p → ∀ m, p.selecting = some m →
    ∀ w ∈ m.issued, w.trap = none → w.Reads (m.committing.runOlder (m.eng.rob.before w.robTag)).cpu.regs := by
  intro h
  obtain ⟨m, w, hm, hw, ht⟩ := @exists_of_issues Bench _ (scRead.ticks 11)
    (fun m w => w.trap == none && !decide (w.Reads (m.committing.runOlder (m.eng.rob.before w.robTag)).cpu.regs))
    (by decide +kernel)
  simp only [Bool.and_eq_true, beq_iff_eq, Bool.not_eq_true', decide_eq_false_iff_not] at ht
  have hrun : Run smallInOrder SpanStep (scRead.ticks 11) :=
    Run.ticks 11 (.init _ (O3Pipeline.loaded_new smallInOrder _ _)) (by decide)
  exact ht.2 (h _ hrun m hm w hw ht.1)

end InOrderPipeline

end Rvsim
