/-
# The counter in the out-of-order backend

A counter read executes when its operands are there, not when the instructions
in front of it have retired: what it returns is right if it is at the head of
the buffer by then. In a run in which that is so of every read, and in which
decode drops no NOP, every stage keeps what the counter needs.

Key definitions:
  - `O3State.coming`, `O3State.carried`, `O3State.Steady`, `O3State.Counted`
  - `O3Pipeline.CountedRun`, `O3Pipeline.ReadsFirst`
Key theorems:
  - `O3.executeOne_executed`, `O3.issueLoop_counts`, `O3.tick_counts`
  - `O3Pipeline.CountedRun.right`
-/
import Rvsim.InstretFlow

namespace Rvsim

variable {U : Type} {D : Prop} {total : Nat} {s s' s'' : O3State U}

namespace O3

/-! ### Execution -/

section

variable [Units U]

omit [Units U] in
/-- An instruction that keeps the buffer as it is, or records in it. -/
theorem executed_plain {cpu c : Cpu U} {id : RenameIssueEntry} {rob rob' : Rob} (alu sd : U64) (fl : U8)
    (sf : Option SfenceVmaInfo) (b : Bool) (htrap : id.trap = none)
    (hn : c.instructionsRetired = cpu.instructionsRetired)
    (hr : rob.Settles [] rob') (hread : id.ctrl.readsInstret = true → alu = cpu.instructionsRetired) :
    Executed cpu id rob ⟨mkResult id alu sd fl sf, b, c, rob'⟩ :=
  ⟨rfl, rfl, hn, hr, fun h => by simp [htrap] at h, fun _ h => Or.inr (hread h)⟩

omit [Units U] in
/-- An instruction that faults. -/
theorem executed_fault (cpu : Cpu U) (id : RenameIssueEntry) (rob : Rob) (alu sd : U64) (b : Bool) (t : Trap) :
    Executed cpu id rob ⟨mkResult id alu sd, b, cpu, rob.fault id.robTag t⟩ :=
  ⟨rfl, rfl, rfl, Rob.Settles.fault _ _, fun _ => Rob.state_fault, fun _ _ => Or.inl Rob.state_fault⟩

omit [Units U] in
theorem executeCsr_executed (cpu : Cpu U) (id : RenameIssueEntry) (rob : Rob) (a d : U64) (htrap : id.trap = none) :
    Executed cpu id rob (executeCsr cpu id rob a d) := by
  have hdrain : rob.Settles [] (drainFpFlags cpu id rob).2 ∧
      (drainFpFlags cpu id rob).1.instructionsRetired = cpu.instructionsRetired := by
    unfold drainFpFlags
    split
    · refine ⟨?_, rfl⟩
      refine Rob.Settles.of_map (g := fun e => if RobTag.isOlderThan e.tag id.robTag then
          { e with fpFlags := 0 } else e)
        rfl (RobEntry.Fixes.ite (g := fun e => { e with fpFlags := 0 }) (fun _ => rfl) _) ?_ ?_
      all_goals
        intro e
        by_cases h : RobTag.isOlderThan e.tag id.robTag <;> simp [h]
    · exact ⟨Rob.Settles.refl rob, rfl⟩
  -- the counter is no register the flags are taken for
  have hold : id.ctrl.readsInstret = true →
      (drainFpFlags cpu id rob).1.csrRead id.ctrl.csrAddr = cpu.instructionsRetired := by
    intro hr
    simp only [ControlSignals.readsInstret, Bool.and_eq_true, Bool.or_eq_true, beq_iff_eq] at hr
    rw [← hdrain.2]
    rcases hr.2 with ha | ha
    · rw [ha]
      rfl
    · rw [ha]
      rfl
  unfold executeCsr
  split
  · exact executed_fault cpu id rob 0 0 true _
  · dsimp only
    split
    · refine executed_plain _ _ _ _ _ htrap hdrain.2 (hdrain.1.trans ?_) hold
      exact Rob.Settles.modify _ (fun _ => rfl) (fun _ => rfl) fun _ => rfl
    · exact executed_plain _ _ _ _ _ htrap hdrain.2 hdrain.1 hold

omit [Units U] in
theorem executeSystem_executed (cpu : Cpu U) (id : RenameIssueEntry) (rob : Rob) (a d : U64) (htrap : id.trap = none) :
    Executed cpu id rob (executeSystem cpu id rob a d) := by
  have hplain : ∀ (sd : U64) (sf : Option SfenceVmaInfo) (b : Bool), id.ctrl.readsInstret = false →
      Executed cpu id rob ⟨mkResult id 0 sd 0 sf, b, cpu, rob⟩ := fun sd sf b hr =>
    executed_plain 0 sd 0 sf b htrap rfl (Rob.Settles.refl rob) fun h => by simp [hr] at h
  have hother : ∀ op, id.ctrl.systemOp = op → op ≠ .system → id.ctrl.readsInstret = false := by
    intro op hop hne
    simp [ControlSignals.readsInstret, hop, hne]
  unfold executeSystem
  split
  case h_1 hop =>
    split
    · exact executed_fault cpu id rob 0 0 true _
    · exact hplain 0 none true (hother _ hop (by decide))
  case h_2 hop =>
    split
    · exact executed_fault cpu id rob 0 0 true _
    · split
      · exact executed_fault cpu id rob 0 0 true _
      · exact hplain 0 none true (hother _ hop (by decide))
  case h_3 hop =>
    split
    · exact executed_fault cpu id rob 0 0 true _
    · exact hplain 0 none true (hother _ hop (by decide))
  case h_4 hop =>
    split
    · exact executed_fault cpu id rob 0 d true _
    · exact hplain d _ false (hother _ hop (by decide))
  case h_5 =>
    split
    · exact executed_fault cpu id rob 0 0 true _
    · split
      · exact executeCsr_executed cpu id rob a d htrap
      · rename_i hop
        refine hplain 0 none true ?_
        simp only [ne_eq, not_not] at hop
        simp [ControlSignals.readsInstret, hop]

theorem executeRest_executed (cpu : Cpu U) (id : RenameIssueEntry) (rob : Rob) (htrap : id.trap = none)
    (hr : id.ctrl.readsInstret = false) : Executed cpu id rob (executeRest cpu id rob) := by
  have hif : ∀ (b : Bool) (c : Cpu U) (pc : U64), c.instructionsRetired = cpu.instructionsRetired →
      (if b then redirect c pc else c).instructionsRetired = cpu.instructionsRetired := fun b c pc h => by
    cases b <;> exact h
  have hctl : rob.Settles [] (executeControl cpu id rob).2.2 ∧
      (executeControl cpu id rob).2.1.instructionsRetired = cpu.instructionsRetired := by
    unfold executeControl
    split
    · exact ⟨Rob.Settles.modify _ (fun _ => rfl) (fun _ => rfl) fun _ => rfl, hif _ _ _ rfl⟩
    · exact ⟨Rob.Settles.modify _ (fun _ => rfl) (fun _ => rfl) fun _ => rfl, hif _ _ _ rfl⟩
    · exact ⟨Rob.Settles.refl rob, rfl⟩
  unfold executeRest
  split
  · exact executed_fault cpu id rob 0 0 true _
  · exact executed_plain _ _ _ _ _ htrap hctl.2 hctl.1 fun h => by simp [hr] at h

/-- **An instruction executes**, and only its result is on its way afterwards. -/
theorem executeOne_executed (cpu : Cpu U) (id : RenameIssueEntry) (rob : Rob) :
    Executed cpu id rob (executeOne cpu id rob) := by
  have hother : ∀ op, id.ctrl.systemOp = op → op ≠ .system → id.ctrl.readsInstret = false := by
    intro op hop hne
    simp [ControlSignals.readsInstret, hop, hne]
  unfold executeOne
  split
  · exact executed_fault cpu id rob 0 0 true _
  · rename_i htrap
    split
    case h_1 hop =>
      exact executed_plain 0 0 0 none true htrap rfl (Rob.Settles.refl rob) fun h => by
        simp [hother _ hop (by decide)] at h
    case h_2 hop => exact executeRest_executed cpu id rob htrap (hother _ hop (by decide))
    case h_3 hop => exact executeRest_executed cpu id rob htrap (hother _ hop (by decide))
    case h_4 => exact executeSystem_executed cpu id rob _ _ htrap

end

end O3

/-! ### What the stages keep -/

namespace O3State

/-- Results on their way to the buffer; a pending result that is written already is there. -/
def coming (s : O3State U) : Coming :=
  comings ((s.eng.pendingResults.filter fun p => !p.speculativeWritten).map (·.entry) ++ s.eng.executeMem1)
    s.eng.mem1Mem2 s.eng.mem2Wb s.cpu.l1dMshrs.parked

/-- The same of what else the latches carry. -/
def carried {β : Type} (k : Carried β) (s : O3State U) : List β :=
  k.latched ((s.eng.pendingResults.filter fun p => !p.speculativeWritten).map (·.entry) ++ s.eng.executeMem1)
    s.eng.mem1Mem2 s.eng.mem2Wb s.cpu.l1dMshrs.parked

theorem mem_carried {β : Type} {k : Carried β} {x : β} : x ∈ s.carried k ↔
    (∃ p ∈ s.eng.pendingResults, p.speculativeWritten = false ∧ k.ex p.entry = x) ∨
      (∃ e ∈ s.eng.executeMem1, k.ex e = x) ∨ (∃ e ∈ s.eng.mem1Mem2, k.mem e = x) ∨
        (∃ e ∈ s.eng.mem2Wb, k.wb e = x) ∨ ∃ e ∈ s.cpu.l1dMshrs.parked, k.mem e = x := by
  simp only [carried, Carried.latched, List.map_append, List.map_map, List.mem_append, List.mem_map, List.mem_filter,
    Bool.not_eq_true', Function.comp_def, and_assoc, or_assoc]

theorem mem_coming {x : RobTag × Option U64} : x ∈ s.coming ↔
    (∃ p ∈ s.eng.pendingResults, p.speculativeWritten = false ∧ p.entry.coming = x) ∨
      (∃ e ∈ s.eng.executeMem1, e.coming = x) ∨ (∃ e ∈ s.eng.mem1Mem2, e.coming = x) ∨
        (∃ e ∈ s.eng.mem2Wb, e.coming = x) ∨ ∃ e ∈ s.cpu.l1dMshrs.parked, e.coming = x :=
  mem_carried (k := Carried.result)

/-- A stage settles entries with what is on its way, sets nothing on its way and keeps the counter. -/
structure Steady (s s' : O3State U) : Prop where
  rob : s.eng.rob.Settles s.coming s'.eng.rob
  carried : ∀ {β : Type} (k : Carried β), ∀ x ∈ s'.carried k, x ∈ s.carried k
  instret : s'.cpu.instructionsRetired = s.cpu.instructionsRetired

namespace Steady

theorem coming (h : Steady s s') : ∀ x ∈ s'.coming, x ∈ s.coming := h.carried .result

theorem refl (s : O3State U) : Steady s s := ⟨Rob.Settles.refl _, fun _ _ h => h, rfl⟩

theorem trans (h : Steady s s') (h' : Steady s' s'') : Steady s s'' :=
  ⟨h.rob.trans (h'.rob.mono h.coming), fun k x hx => h.carried k x (h'.carried k x hx), h'.instret.trans h.instret⟩

end Steady

/-- What the counter needs holds of the engine. -/
def Counted (s : O3State U) : Prop := Counting s.eng.rob s.coming s.waiting s.cpu.instructionsRetired

theorem Counted.steady (h : s.Counted) (hs : Steady s s') (hw : ∀ w ∈ s'.waiting, w ∈ s.waiting) : s'.Counted := by
  have hc := h.settles hs.rob hs.coming fun w hw' => ⟨w, hw w hw', rfl⟩
  unfold Counted
  rw [hs.instret]
  exact hc

end O3State

theorem Rob.keepThrough_prefix (tag : RobTag) (es : List RobEntry) : Rob.keepThrough tag es <+: es := by
  induction es with
  | nil => exact List.prefix_rfl
  | cons e es ih =>
    rw [Rob.keepThrough]
    split
    · exact ⟨es, rfl⟩
    · exact (List.prefix_cons_inj e).mpr ih

namespace O3

open O3State (Steady Counted)

/-- A stage that moves results and keeps the buffer. -/
theorem steady_of_moved (hr : s'.eng.rob.entries = s.eng.rob.entries)
    (hc : ∀ {β : Type} (k : Carried β), ∀ x ∈ s'.carried k, x ∈ s.carried k)
    (hn : s'.cpu.instructionsRetired = s.cpu.instructionsRetired) : Steady s s' :=
  ⟨Rob.Settles.of_entries hr, hc, hn⟩

/-- Everything is dropped. -/
theorem steady_of_flushed (hr : s'.eng.rob.entries = []) (hp : s'.eng.pendingResults = [])
    (he : s'.eng.executeMem1 = []) (h1 : s'.eng.mem1Mem2 = []) (h2 : s'.eng.mem2Wb = [])
    (hm : s'.cpu.l1dMshrs = s.cpu.l1dMshrs.flush) (hn : s'.cpu.instructionsRetired = s.cpu.instructionsRetired) :
    Steady s s' := by
  refine ⟨Rob.Settles.front (hr ▸ List.nil_prefix), fun k x hx => ?_, hn⟩
  simp only [O3State.mem_carried, hp, he, h1, h2, hm, MshrFile.flush_parked.2, List.not_mem_nil, false_and,
    exists_false, or_false] at hx

section

variable [Units U]

theorem start_steady (s : O3State U) : Steady s (start s) := steady_of_moved rfl (fun _ _ h => h) rfl

theorem takeTrap_steady (s : O3State U) (t : Trap) (epc : U64) : Steady s (takeTrap s t epc) :=
  steady_of_flushed rfl rfl rfl rfl rfl (Cpu.trap_frame _ t epc).mshrs (Cpu.trap_instret _ t epc)

omit [Units U] in
theorem writeOne_steady {eng : O3Engine} {wb : Mem2WbEntry} {left : List Mem2WbEntry} :
    Steady (writing s eng (wb :: left)) (writing s (writeOne eng wb) left) := by
  have hin : wb.coming ∈ (writing s eng (wb :: left)).coming := by
    rw [O3State.mem_coming]
    exact Or.inr (Or.inr (Or.inr (Or.inl ⟨wb, List.mem_cons_self, rfl⟩)))
  have hset : eng.rob.Settles (writing s eng (wb :: left)).coming (writeOne eng wb).rob := by
    have hone := writebackOne_settles eng.rob hin
    unfold writeOne
    unfold writebackOne at hone ⊢
    cases ht : wb.trap with
    | some t =>
      rw [ht] at hone
      exact hone
    | none =>
      rw [ht] at hone
      exact hone
  refine ⟨hset, fun k x hx => ?_, rfl⟩
  have hlatch : (writeOne eng wb).pendingResults = eng.pendingResults ∧
      (writeOne eng wb).executeMem1 = eng.executeMem1 ∧ (writeOne eng wb).mem1Mem2 = eng.mem1Mem2 := by
    unfold writeOne
    split
    · exact ⟨rfl, rfl, rfl⟩
    · exact ⟨rfl, rfl, rfl⟩
  obtain ⟨h1, h2, h3⟩ := hlatch
  simp only [O3State.carried, Carried.latched, writing, h1, h2, h3, List.mem_append, List.map_cons,
    List.mem_cons] at hx ⊢
  tauto

omit [Units U] in
theorem writeback_steady (s : O3State U) : Steady s (writeback s) := by
  have hloop : ∀ (wbs : List Mem2WbEntry) (eng : O3Engine),
      Steady (writing s eng wbs) (writing s (wbs.foldl writeOne eng) []) := by
    intro wbs
    induction wbs with
    | nil => exact fun eng => Steady.refl _
    | cons wb wbs ih => exact fun eng => writeOne_steady.trans (ih (writeOne eng wb))
  rw [writeback_state]
  exact hloop s.eng.mem2Wb s.eng

theorem drainMshrs_steady (h : O3Inv D total s) : Steady s (drainMshrs s) := by
  unfold drainMshrs
  by_cases hc : s.cpu.l1dMshrs.capacity > 0
  · simp only [if_pos hc]
    refine steady_of_moved rfl (fun k x hx => ?_) rfl
    have hd := ((MshrFile.drain_parked h.mshrs s.eng.cycle).2.map k.mem).mem_iff (a := x)
    simp only [List.map_append, List.mem_append] at hd
    simp only [O3State.carried, Carried.latched, List.map_append, List.mem_append, unpark_carried] at hx ⊢
    tauto
  · simp only [if_neg hc]
    exact Steady.refl s

theorem storeResolved_steady (s : O3State U) (wb : Mem2WbEntry) : Steady s (storeResolved s wb) := by
  unfold storeResolved
  split
  · split
    · exact steady_of_moved rfl (fun _ _ h => h) rfl
    · exact steady_of_moved rfl (fun _ _ h => h) rfl
  · exact Steady.refl s

theorem foldl_storeResolved_steady (wbs : List Mem2WbEntry) (s : O3State U) :
    Steady s (wbs.foldl storeResolved s) := by
  induction wbs generalizing s with
  | nil => exact Steady.refl s
  | cons wb wbs ih => exact (storeResolved_steady s wb).trans (ih (storeResolved s wb))

/-- Memory2 fills a latch that writeback has emptied. -/
theorem memory2_steady (s : O3State U) : Steady s (memory2 s).2 := by
  have hmoved := memory2Stage_moved s.eng.mem1Mem2 ⟨s.cpu, s.eng.sb, some s.eng.lq, none⟩
  have hcarried := fun {β : Type} (k : Carried β) =>
    memory2Stage_carried k s.eng.mem1Mem2 ⟨s.cpu, s.eng.sb, some s.eng.lq, none⟩
  unfold memory2
  simp only
  revert hmoved hcarried
  generalize memory2Stage (⟨s.cpu, s.eng.sb, some s.eng.lq, none⟩ : Mem2State U) s.eng.mem1Mem2 = r
  obtain ⟨left, out, m⟩ := r
  rintro ⟨-, ⟨u, hu⟩, -⟩ hcarried
  simp only at hu hcarried
  have hmv : Steady s { s with cpu := m.cpu, eng := { s.eng with
      sb := m.sb, lq := m.lq.getD s.eng.lq, mem1Mem2 := left, mem2Wb := out } } := by
    refine steady_of_moved rfl (fun k x hx => ?_) (by rw [hu])
    have hx' := hcarried k x
    simp only [List.mem_append] at hx'
    simp only [O3State.carried, Carried.latched, List.mem_append, hu] at hx ⊢
    tauto
  exact hmv.trans (foldl_storeResolved_steady out _)

omit [Units U] in
/-- A squash behind an entry keeps the rest as it is. -/
theorem CutAfter.steady {e : RobEntry} (hc : CutAfter s e s') (hok : s.cpu.l1dMshrs.Ok)
    (hn : s'.cpu.instructionsRetired = s.cpu.instructionsRetired) : Steady s s' := by
  refine ⟨Rob.Settles.front ?_, fun k x hx => ?_, hn⟩
  · rw [hc.rob]
    exact Rob.keepThrough_prefix e.tag s.eng.rob.entries
  · simp only [O3State.mem_carried, hc.pending, hc.executeMem1, hc.mem1Mem2, hc.mem2Wb, hc.mshrs,
      (MshrFile.flushAfter_parked hok e.tag).2, List.mem_filter] at hx ⊢
    rcases hx with ⟨p, ⟨hp, -⟩, hpx⟩ | ⟨y, ⟨hy, -⟩, hyx⟩ | ⟨y, ⟨hy, -⟩, hyx⟩ | ⟨y, ⟨hy, -⟩, hyx⟩ | ⟨y, ⟨hy, -⟩, hyx⟩
    · exact Or.inl ⟨p, hp, hpx⟩
    · exact Or.inr (Or.inl ⟨y, hy, hyx⟩)
    · exact Or.inr (Or.inr (Or.inl ⟨y, hy, hyx⟩))
    · exact Or.inr (Or.inr (Or.inr (Or.inl ⟨y, hy, hyx⟩)))
    · exact Or.inr (Or.inr (Or.inr (Or.inr ⟨y, hy, hyx⟩)))

theorem violationFlush_instret (s : O3State U) (t : RobTag) (pc : U64) :
    (violationFlush s t pc).cpu.instructionsRetired = s.cpu.instructionsRetired := by
  unfold violationFlush
  dsimp only
  split
  · rfl
  · rfl

theorem violationFlush_steady (h : O3Inv D total s) (t : RobTag) (pc : U64) : Steady s (violationFlush s t pc) := by
  cases hprev : s.eng.rob.prevTagOf t with
  | some keep =>
    obtain ⟨pre, e, x, post, hsplit, rfl, rfl⟩ := prevTagOf_some hprev
    exact (violationFlush_cut pc hsplit hprev).2.steady h.mshrs (violationFlush_instret s _ pc)
  | none =>
    have hn := violationFlush_instret s t pc
    unfold violationFlush at hn ⊢
    simp only [hprev] at hn ⊢
    exact steady_of_flushed rfl rfl rfl rfl rfl rfl hn

theorem memory1_steady (h : O3Inv D total s) : Steady s (memory1 s) := by
  unfold memory1
  by_cases hb : mem1Busy s
  · rw [if_pos hb]
    exact Steady.refl s
  · rw [if_neg hb]
    obtain ⟨⟨u, ms, hc⟩, -, -⟩ := memory1Stage_perm s.eng.executeMem1 s.cpu h.mshrs s.eng.mem1Mem2 s.eng.cycle
      (some s.eng.lq) []
    refine steady_of_moved rfl (fun k x hx => ?_) ?_
    swap
    · dsimp only
      rw [hc]
    have hx' := memory1Stage_carried k s.eng.executeMem1 s.cpu h.mshrs s.eng.mem1Mem2 s.eng.mem2Wb s.eng.cycle
      (some s.eng.lq) [] x
    simp only [Carried.latched, List.mem_append] at hx'
    simp only [O3State.carried, Carried.latched, List.map_append, List.mem_append] at hx ⊢
    tauto

omit [Units U] in
theorem completeAlu_settles {cs : Coming} (eng : O3Engine) {e : ExMem1Entry} (h : e.coming ∈ cs) :
    eng.rob.Settles cs (completeAlu eng e).rob := by
  have hfp : eng.rob.Settles cs (eng.rob.setFpFlags e.robTag e.fpFlags) :=
    Rob.Settles.modify _ (fun _ => rfl) (fun _ => rfl) fun _ => rfl
  refine Rob.Settles.trans ?_ (Rob.Settles.complete h e.coming_alu)
  split
  · exact hfp.trans (Rob.Settles.modify _ (fun _ => rfl) (fun _ => rfl) fun _ => rfl)
  · exact hfp

omit [Units U] in
theorem finishPending_steady {eng : O3Engine} {p : PendingResult} {due left : List PendingResult}
    (hp : p.speculativeWritten = true → p.entry.ctrl.isMem = false) :
    Steady (draining s eng (p :: due) left) (draining s (finishPending eng p) due left) := by
  have hkeep : ∀ eng' : O3Engine, (∀ e ∈ eng'.executeMem1, e ∈ eng.executeMem1 ∨
      (p.speculativeWritten = false ∧ e = p.entry)) → eng'.mem1Mem2 = eng.mem1Mem2 → eng'.mem2Wb = eng.mem2Wb →
      ∀ {β : Type} (k : Carried β), ∀ x ∈ (draining s eng' due left).carried k,
        x ∈ (draining s eng (p :: due) left).carried k := by
    intro eng' h1 h2 h3 β k x hx
    rw [O3State.mem_carried] at hx ⊢
    simp only [draining, h2, h3] at hx
    rcases hx with ⟨q, hq, hqx⟩ | ⟨e, he, hex⟩ | hx
    · exact Or.inl ⟨q, List.mem_cons_of_mem _ hq, hqx⟩
    · rcases h1 e he with he' | ⟨hw, rfl⟩
      · exact Or.inr (Or.inl ⟨e, he', hex⟩)
      · exact Or.inl ⟨p, List.mem_cons_self, hw, hex⟩
    · exact Or.inr (Or.inr hx)
  unfold finishPending
  by_cases hmem : p.entry.ctrl.isMem
  · rw [if_pos hmem]
    have hw : p.speculativeWritten = false := by
      by_contra hw
      rw [hp (by simpa using hw)] at hmem
      exact absurd hmem (by decide)
    refine steady_of_moved rfl
      (hkeep { eng with executeMem1 := eng.executeMem1 ++ [p.entry] } (fun e he => ?_) rfl rfl) rfl
    rcases List.mem_append.mp he with he' | he'
    · exact Or.inl he'
    · exact Or.inr ⟨hw, List.mem_singleton.mp he'⟩
  · rw [if_neg hmem]
    by_cases hw : p.speculativeWritten
    · rw [if_pos hw]
      exact steady_of_moved rfl (hkeep eng (fun _ he => Or.inl he) rfl rfl) rfl
    · rw [if_neg hw]
      refine ⟨completeAlu_settles eng ?_, hkeep _ (fun _ he => Or.inl he) rfl rfl, rfl⟩
      rw [O3State.mem_coming]
      exact Or.inl ⟨p, List.mem_cons_self, by simpa using hw, rfl⟩

omit [Units U] in
theorem drainPending_steady (h : O3Inv D total s) : Steady s { s with eng := drainPending s.eng } := by
  have hloop : ∀ (due left : List PendingResult) (eng : O3Engine),
      (∀ p ∈ due, p.speculativeWritten = true → p.entry.ctrl.isMem = false) →
        Steady (draining s eng due left) (draining s (due.foldl finishPending eng) [] left) := by
    intro due left
    induction due with
    | nil => exact fun eng _ => Steady.refl _
    | cons p due ih =>
      intro eng hp
      have hone : Steady (draining s eng (p :: due) left) (draining s (finishPending eng p) due left) :=
        finishPending_steady (hp p List.mem_cons_self)
      exact hone.trans (ih (finishPending eng p) fun q hq => hp q (List.mem_cons_of_mem _ hq))
  have hsplit := splitDue_perm s.eng.cycle s.eng.pendingResults.length s.eng.pendingResults rfl
  unfold drainPending
  revert hsplit
  generalize splitDue s.eng.cycle s.eng.pendingResults.length s.eng.pendingResults = r
  obtain ⟨due, left⟩ := r
  intro hsplit
  dsimp only at hsplit
  have hstart : Steady s (draining s s.eng due left) := by
    refine steady_of_moved rfl (fun k x hx => ?_) rfl
    rw [O3State.mem_carried] at hx ⊢
    refine hx.imp_left ?_
    rintro ⟨p, hp, hpx⟩
    exact ⟨p, hsplit.mem_iff.mp hp, hpx⟩
  dsimp only
  rw [foldl_finishPending_latch]
  exact hstart.trans (hloop due left s.eng fun p hp =>
    h.written p (hsplit.mem_iff.mp (List.mem_append_left _ hp)))

theorem recover_steady {rest : List RenameIssueEntry} {keep : RobTag} (h : O3Selected D total s rest)
    (hk : keep ∈ s.eng.rob.entries.map (·.tag)) : Steady s (recover s keep) := by
  obtain ⟨e, he, rfl⟩ := List.mem_map.mp hk
  refine (recover_cut h he).steady h.mshrs ?_
  unfold recover squashAfter
  dsimp only
  split
  · rfl
  · rfl

theorem dispatch_steady (s : O3State U) : Steady s (dispatch s) := by
  have hloop : ∀ (ws : List RenameIssueEntry) (t : O3State U), Steady t (ws.foldl dispatchOne t) := by
    intro ws
    induction ws with
    | nil => exact fun t => Steady.refl t
    | cons e ws ih =>
      intro t
      have hone : Steady t (dispatchOne t e) := steady_of_moved rfl (fun _ _ h => h) rfl
      exact hone.trans (ih (dispatchOne t e))
  have hstart : Steady s { s with renameOutput := [] } := steady_of_moved rfl (fun _ _ h => h) rfl
  exact hstart.trans (hloop s.renameOutput { s with renameOutput := [] })

/-! ### Issue -/

omit [Units U] in
/-- **One instruction executes and is noted as pending.** -/
theorem Issued.counts {e : RenameIssueEntry} {ws : List RenameIssueEntry} {cpu : Cpu U} {r : ExecOut U}
    (hi : Issued s e r s') (hx : Executed cpu e s.eng.rob r)
    (h : Counting s.eng.rob s.coming (e :: ws) cpu.instructionsRetired)
    (hhead : e.readsInstret = true → s.eng.rob.entries.head?.map (·.tag) = some e.robTag) :
    Counting s'.eng.rob s'.coming ws cpu.instructionsRetired := by
  obtain ⟨c, w, hpend, -, hrob, -⟩ := hi.written
  obtain ⟨-, -, -, -, -, h6, h7, h8⟩ := hi.rest
  have hset : r.rob.Settles (r.result.coming :: s.coming) s'.eng.rob := by
    rw [hrob]
    cases w with
    | false => exact Rob.Settles.refl _
    | true => exact completeAlu_settles { s.eng with rob := r.rob } List.mem_cons_self
  refine (h.execute hx hhead).settles hset (fun x hx' => ?_) fun w hw => ⟨w, hw, rfl⟩
  rw [List.mem_cons]
  simp only [O3State.mem_coming, hpend, h6, h7, h8, hi.frame.mshrs] at hx' ⊢
  rcases hx' with ⟨p, hp, hpw, hpx⟩ | hx'
  · rcases List.mem_append.mp hp with hp' | hp'
    · exact Or.inr (Or.inl ⟨p, hp', hpw, hpx⟩)
    · rw [List.mem_singleton.mp hp'] at hpx
      exact Or.inl hpx.symm
  · exact Or.inr (Or.inr hx')

theorem issueOne_instret (s : O3State U) (e : RenameIssueEntry) :
    (issueOne s e).2.cpu.instructionsRetired = s.cpu.instructionsRetired := by
  have hcpu : (issueCpu s e).instructionsRetired = s.cpu.instructionsRetired := by
    unfold issueCpu
    split
    · rfl
    · rfl
  exact (executeOne_executed (issueCpu s e) e s.eng.rob).instret.trans hcpu

/-- **The issue loop**, if every read it executes is at the head of the buffer. -/
theorem issueLoop_counts {n : U64} (bp : Bool) (sel : List SelectedEntry) (s : O3State U)
    (hsel : O3Selected D total s (sel.map (·.entry))) (hn : s.cpu.instructionsRetired = n)
    (h : Counting s.eng.rob s.coming (sel.map (·.entry) ++ s.waiting) n)
    (hfirst : ∀ x ∈ issueTrace bp s sel, x.2.readsInstret = true →
      s.eng.rob.entries.head?.map (·.tag) = some x.2.robTag) :
    (issueLoop bp s sel).2.Counted ∧ (issueLoop bp s sel).2.cpu.instructionsRetired = n := by
  induction sel generalizing s with
  | nil =>
    refine ⟨?_, hn⟩
    unfold Counted
    rw [issueLoop, hn]
    exact h
  | cons e rest ih =>
    rw [issueLoop]
    rw [issueTrace] at hfirst
    by_cases hw : mustWait s.eng bp e.entry
    · rw [if_pos hw] at hfirst ⊢
      have hback := h.settles (Rob.Settles.refl s.eng.rob) (fun _ hx => hx) (requeue_back (s := s) e rest)
      exact ih _ (requeue_selected e.memDep s.cpu.units hsel) hn hback hfirst
    · rw [if_neg hw] at hfirst ⊢
      have hi := issueOne_issued s e.entry
      have hx := executeOne_executed (issueCpu s e.entry) e.entry s.eng.rob
      obtain ⟨hsel', -, htags⟩ := hi.selected (executeOne_spec (issueCpu s e.entry) e.entry s.eng.rob) hsel
      have hn' := (issueOne_instret s e.entry).trans hn
      have hcpu : (issueCpu s e.entry).instructionsRetired = n := hx.instret.symm.trans hn'
      rw [← hcpu] at h
      have hcount : Counting (issueOne s e.entry).2.eng.rob (issueOne s e.entry).2.coming
          (rest.map (·.entry) ++ s.waiting) (issueCpu s e.entry).instructionsRetired :=
        hi.counts hx h (hfirst _ List.mem_cons_self)
      rw [hcpu] at hcount
      have hwait : (issueOne s e.entry).2.waiting = s.waiting := by
        unfold O3State.waiting
        rw [hi.iq, hi.output]
      have hhead : (issueOne s e.entry).2.eng.rob.entries.head?.map (·.tag) =
          s.eng.rob.entries.head?.map (·.tag) := by
        rw [← List.head?_map, ← List.head?_map, htags]
      rw [← hwait] at hcount
      revert hfirst hsel' hn' hcount hhead
      generalize issueOne s e.entry = out
      obtain ⟨fl, s'⟩ := out
      intro hfirst hsel' hn' hcount hhead
      cases fl with
      | true =>
        refine ⟨?_, hn'⟩
        unfold Counted
        rw [hn']
        exact hcount.settles (Rob.Settles.refl _) (fun _ hx => hx) fun w hw => ⟨w, List.mem_append_right _ hw, rfl⟩
      | false =>
        refine ih s' hsel' hn' hcount fun x hx' hr => ?_
        rw [hhead]
        exact hfirst x (List.mem_cons_of_mem _ hx') hr

/-- What `issue` executes is in the buffer. -/
theorem mem_issueExecuted (bp : Bool) (h : O3Inv D total s) {x : Cpu U × RenameIssueEntry}
    (hx : x ∈ issueExecuted bp s) : x.2.robTag ∈ s.eng.rob.entries.map (·.tag) := by
  refine (chosen_selected h).flight.tag_mem (x := x.2.dest) (List.mem_append_left _ ?_)
  have hin := mem_issueTrace hx
  simp only [O3State.flightWith, List.map_append, List.map_map, List.mem_append]
  refine Or.inl ?_
  obtain ⟨e, he, heq⟩ := List.mem_map.mp hin
  exact List.mem_map.mpr ⟨e, he, by rw [← heq]; rfl⟩

theorem issue_counts (bp : Bool) (h : O3Inv D total s) (hc : s.Counted)
    (hfirst : ∀ x ∈ issueExecuted bp s, x.2.readsInstret = true →
      s.eng.rob.entries.head?.map (·.tag) = some x.2.robTag) :
    (issue bp s).2.Counted ∧ (issue bp s).2.cpu.instructionsRetired = s.cpu.instructionsRetired :=
  issueLoop_counts bp (chosen s).1 _ (chosen_selected h) rfl
    (hc.settles (Rob.Settles.refl s.eng.rob) (fun _ hx => hx) (chosen_back s)) hfirst

/-! ### The tick -/

/-- Every counter read a tick executes is at the head of what commit leaves of the buffer. -/
def ReadsFirst (s : O3State U) : Prop := ∀ x ∈ executed s, x.2.readsInstret = true →
  (commit (start s)).2.eng.rob.entries.head?.map (·.tag) = some x.2.robTag

instance (s : O3State U) : Decidable (ReadsFirst s) := List.decidableBAll _ _

/-- The counter stays, and what it needs holds. -/
def KeepsCount (s s' : O3State U) : Prop :=
  s'.Counted ∧ s'.cpu.instructionsRetired = s.cpu.instructionsRetired

omit [Units U] in
theorem keepsCount (hc : s.Counted) (hs : Steady s s') (hw : ∀ w ∈ s'.waiting, w ∈ s.waiting) : KeepsCount s s' :=
  ⟨hc.steady hs hw, hs.instret⟩

theorem tickBack_counts (h : O3Inv D total s) (hc : s.Counted)
    (hfirst : ∀ x ∈ issueExecuted (!(memory1 s).eng.executeMem1.isEmpty)
      { memory1 s with eng := drainPending (memory1 s).eng }, x.2.readsInstret = true →
        s.eng.rob.entries.head?.map (·.tag) = some x.2.robTag) : KeepsCount s (tickBack s) := by
  have hm := memory1_keeps h
  have hd := drainPending_keeps hm.inv
  have hcalm := (memory1_calm h).trans (drainPending_calm (memory1 s))
  have hst := (memory1_steady h).trans (drainPending_steady hm.inv)
  have hc' := hc.steady hst hcalm.waiting
  obtain ⟨hcount, hn⟩ := issue_counts (!(memory1 s).eng.executeMem1.isEmpty) hd.inv hc' fun x hx hr => by
    obtain ⟨e, he, -⟩ := List.mem_map.mp (mem_issueExecuted _ hd.inv hx)
    exact (hst.rob.head (List.ne_nil_of_mem he)).trans (hfirst x hx hr)
  have hl := issue_looped (!(memory1 s).eng.executeMem1.isEmpty) hd.inv
  have hn' := hn.trans hst.instret
  unfold tickBack
  dsimp only
  revert hcount hn' hl
  generalize issue (!(memory1 s).eng.executeMem1.isEmpty)
    { memory1 s with eng := drainPending (memory1 s).eng } = r
  obtain ⟨fl, s'⟩ := r
  intro hcount hl hn'
  cases fl with
  | none =>
    have hdis := dispatch_steady s'
    exact ⟨hcount.steady hdis (dispatch_calm s').waiting, hdis.instret.trans hn'⟩
  | some keep =>
    obtain ⟨rest, hsel, hmem, -⟩ := hl.flush keep rfl
    have hrec := recover_steady hsel hmem
    exact ⟨hcount.steady hrec (recover_calm hsel hmem).waiting, hrec.instret.trans hn'⟩

/-- Commit with the ledger. -/
theorem commit_counts (h : O3Inv D total s) (hc : s.Counted) {l : Ledger}
    (hl : l.Follows s.cpu.instructionsRetired) :
    (l.commit (toCommit s) (commitStage (toCommit s) s.eng.width).2).Follows (commit s).2.cpu.instructionsRetired ∧
      (commit s).2.Counted := by
  have hd := CommitState.commitStage_done s.eng.width (toCommit s) (toCommit_inv h)
  obtain ⟨hfol, hcount⟩ := commitStage_counts (c := toCommit s) s.eng.width hc h.flight.nodup_tags hl
  refine ⟨hfol, ?_⟩
  have hcoming : (commit s).2.coming = s.coming := by
    show comings _ _ _ (commitStage (toCommit s) s.eng.width).2.cpu.l1dMshrs.parked = _
    rw [hd.mshrs]
    rfl
  unfold Counted
  rw [hcoming]
  exact hcount

/-- **A tick of the engine.** -/
theorem tick_counts (h : O3Inv D total s) (hc : s.Counted) (hfirst : ReadsFirst s) {l : Ledger}
    (hl : l.Follows s.cpu.instructionsRetired) :
    (tick s).Counted ∧ (l.commit (toCommit (start s)) (commitStage (toCommit (start s)) (start s).eng.width).2).Follows
      (tick s).cpu.instructionsRetired := by
  have hs := start_keeps h
  have hw := (start_calm s).trans (commit_calm hs.inv)
  obtain ⟨hfol, hcom⟩ := commit_counts hs.inv (hc.steady (start_steady s) (start_calm s).waiting) (l := l) hl
  suffices hk : KeepsCount (commit (start s)).2 (tick s) from ⟨hk.1, by rw [hk.2]; exact hfol⟩
  clear hfol hl
  unfold ReadsFirst executed at hfirst
  unfold tick
  dsimp only
  rcases hcm : commit (start s) with ⟨_ | ⟨t, epc⟩, s₁⟩
  · rw [hcm] at hfirst hcom hw
    dsimp only at hfirst hcom hw ⊢
    by_cases hpc : s₁.cpu.pc ≠ (start s).cpu.pc
    · rw [if_pos hpc]
      refine keepsCount hcom (steady_of_flushed rfl rfl rfl rfl rfl rfl rfl) fun w hw' => ?_
      simp [O3State.waiting, squashAll, flush, IssueQueue.flush_bares] at hw'
    · rw [if_neg hpc] at hfirst
      rw [if_neg hpc]
      have hk := commit_keeps hs.inv (by rw [hcm])
      rw [hcm] at hk
      have hwb := writeback_keeps hk.inv
      have hd := drainMshrs_keeps hwb.inv
      obtain ⟨hm, -⟩ := memory2_keeps hd.inv (drainMshrs_latch.trans writeback_latch)
      have hcalm := ((writeback_calm s₁).trans (drainMshrs_calm hwb.inv)).trans (memory2_calm _)
      have hst := ((writeback_steady s₁).trans (drainMshrs_steady hwb.inv)).trans (memory2_steady _)
      unfold tickRest
      rcases hm2 : memory2 (drainMshrs (writeback s₁)) with ⟨_ | ⟨v, pc⟩, s₂⟩
      · rw [hm2] at hfirst hm hcalm hst
        dsimp only at hfirst hm hcalm hst ⊢
        have hkm := memory1_keeps hm.inv
        have hkd := hkm.trans (drainPending_keeps hkm.inv)
        obtain ⟨hcount, hn⟩ := tickBack_counts hm.inv (hcom.steady hst hcalm.waiting) fun x hx hr => by
          obtain ⟨e, he, -⟩ := List.mem_map.mp (hkd.within.tags.subset (mem_issueExecuted _ hkd.inv hx))
          exact (hst.rob.head (List.ne_nil_of_mem he)).trans (hfirst x hx hr)
        exact ⟨hcount, hn.trans hst.instret⟩
      · rw [hm2] at hm hcalm hst
        exact keepsCount hcom (hst.trans (violationFlush_steady hm.inv v pc)) fun w hw' =>
          hcalm.waiting w ((violationFlush_calm hm.inv v pc).waiting w hw')
  · rw [hcm] at hcom
    exact keepsCount hcom (takeTrap_steady s₁ t epc) (takeTrap_calm s₁ t epc).waiting

end

/-! ### Rename -/

/-- Rename puts entries behind the others, each with the instruction that waits for it. -/
structure Adds (s s' : O3State U) : Prop where
  added : ∃ (g : RobEntry → RobEntry) (es : List RobEntry) (ws : List RenameIssueEntry),
    s'.eng.rob.entries = s.eng.rob.entries.map g ++ es ∧ RobEntry.Fixes g ∧ (∀ e, (g e).state = e.state) ∧
      (∀ e, (g e).result = e.result) ∧ (∀ e ∈ es, e.state = .issued) ∧ s'.waiting = s.waiting ++ ws ∧
      (∀ w ∈ ws, w.Sound) ∧ ∀ w ∈ ws, ∃ e ∈ es, e.tag = w.robTag ∧ w.Describes e

theorem RenameRun.adds {n : Nat} {ids : List IdExEntry} {r : List IdExEntry × O3State U}
    (h : RenameRun n s ids r) (hp : ∀ id ∈ ids, id.Sound) : Adds s r.2 := by
  induction h with
  | stop n s ids =>
    exact ⟨id, [], [], by simp, fun _ => rfl, fun _ => rfl, fun _ => rfl, fun e he => absurd he List.not_mem_nil,
      by simp, fun w hw => absurd hw List.not_mem_nil, fun w hw => absurd hw List.not_mem_nil⟩
  | step hr hrest ih =>
    rename_i n s s' id ids r
    obtain ⟨g, es, ws, hent, hfix, hst, hres, hissued, hwait, hsound, hdesc⟩ :=
      (ih fun x hx => hp x (List.mem_cons_of_mem _ hx)).added
    obtain ⟨p, old, fl, -, -, -, -, ⟨g₀, hfix₀, hst₀, hres₀, -, hrob⟩, -, -, hout⟩ := hr.alloc
    have hid := hp id List.mem_cons_self
    have hbare : (g (g₀ (newEntry s id p old))).bare = (newEntry s id p old).bare :=
      (hfix _).trans (hfix₀ _)
    refine ⟨g ∘ g₀, g (g₀ (newEntry s id p old)) :: es,
      (renamedEntry s.eng.renameMap id s.eng.rob.nextTag p).bare :: ws, ?_, fun e => (hfix _).trans (hfix₀ e),
      fun e => (hst _).trans (hst₀ e), fun e => (hres _).trans (hres₀ e), fun e he => ?_, ?_, fun w hw => ?_,
      fun w hw => ?_⟩
    · rw [hent, hrob, List.map_map, List.map_append, List.append_assoc]
      rfl
    · rcases List.mem_cons.mp he with rfl | he'
      · exact (hst _).trans (hst₀ _)
      · exact hissued e he'
    · rw [hwait]
      simp only [O3State.waiting, hr.iq, hout, List.map_append, List.map_cons, List.map_nil, List.append_assoc,
        List.singleton_append]
    · rcases List.mem_cons.mp hw with rfl | hw'
      · exact ⟨hid.counted, hid.read⟩
      · exact hsound w hw'
    · rcases List.mem_cons.mp hw with rfl | hw'
      · refine ⟨_, List.mem_cons_self, (RobEntry.fixed_of_bare hbare).1, ?_⟩
        have hd : (renamedEntry s.eng.renameMap id s.eng.rob.nextTag p).bare.Describes (newEntry s id p old).bare :=
          ⟨rfl, rfl, rfl⟩
        rw [← hbare] at hd
        exact hd
      · obtain ⟨e, he, hd⟩ := hdesc w hw'
        exact ⟨e, List.mem_cons_of_mem _ he, hd⟩

/-- What is on its way or waits is in the buffer. -/
theorem tag_of_coming (h : O3Inv D total s) {x : RobTag × Option U64} (hx : x ∈ s.coming) :
    x.1 ∈ s.eng.rob.entries.map (·.tag) := by
  have hfly : ∃ d ∈ s.flying, d.1 = x.1 := by
    simp only [O3State.flying, List.mem_append, List.mem_map, List.mem_filter, Bool.not_eq_true']
    rcases O3State.mem_coming.mp hx with ⟨p, hp, hw, rfl⟩ | ⟨e, he, rfl⟩ | ⟨e, he, rfl⟩ | ⟨e, he, rfl⟩ | ⟨e, he, rfl⟩
    · exact ⟨p.entry.dest, Or.inl ⟨p, ⟨hp, hw⟩, rfl⟩, rfl⟩
    · exact ⟨e.dest, Or.inr (Or.inl ⟨e, he, rfl⟩), rfl⟩
    · exact ⟨e.dest, Or.inr (Or.inr (Or.inl ⟨e, he, rfl⟩)), rfl⟩
    · exact ⟨e.dest, Or.inr (Or.inr (Or.inr (Or.inl ⟨e, he, rfl⟩))), rfl⟩
    · exact ⟨e.dest, Or.inr (Or.inr (Or.inr (Or.inr ⟨e, he, rfl⟩))), rfl⟩
  obtain ⟨d, hd, hdx⟩ := hfly
  rw [← hdx]
  exact h.flight.tag_mem (List.mem_append_right _ hd)

theorem tag_of_waiting (h : O3Inv D total s) {w : RenameIssueEntry} (hw : w ∈ s.waiting) :
    w.robTag ∈ s.eng.rob.entries.map (·.tag) :=
  h.flight.tag_mem (x := w.dest) (List.mem_append_left _ (List.mem_map_of_mem hw))

/-- **Rename.** -/
theorem renameStage_counts {ids : List IdExEntry} (h : O3Inv D total s) (hc : s.Counted) (ho : s.renameOutput = [])
    (hone : ∀ id ∈ ids, id.ctrl.OneFile) (hp : ∀ id ∈ ids, id.Sound)
    (hnd : ((renameStage s ids).2.eng.rob.entries.map (·.tag)).Nodup) : (renameStage s ids).2.Counted := by
  have hframe := renameLoop_frame (canAccept s.eng) s ids
  obtain ⟨rob, fl, m, prf, sb, lq, ckpts, heng⟩ := hframe.eng
  obtain ⟨g, es, ws, hent, hfix, hst, hres, hissued, hwait, hsound, hdesc⟩ :=
    ((renameLoop_run _ s ids (budget_canAccept ho) hone).adds hp).added
  have hcoming : (renameStage s ids).2.coming = s.coming := by
    unfold O3State.coming renameStage
    rw [heng, hframe.cpu]
  have happ := Counting.append hc hent hfix hst hres hissued hnd (fun x hx => tag_of_coming h hx)
    (fun w hw => tag_of_waiting h hw) hsound hdesc
  unfold Counted
  rw [hcoming, show (renameStage s ids).2.waiting = s.waiting ++ ws from hwait,
    show (renameStage s ids).2.cpu = s.cpu from hframe.cpu]
  exact happ

end O3

/-! ### Runs -/

namespace O3

/-- The load a memory-order violation squashes from. -/
def violation [Units U] (s : O3State U) : Option RobTag :=
  match commit (start s) with
  | (some _, _) => none
  | (none, s₁) =>
    if s₁.cpu.pc ≠ (start s).cpu.pc then none else (memory2 (drainMshrs (writeback s₁))).1.map Prod.fst

end O3

namespace O3Pipeline

section

variable [Units U] {p : O3Pipeline U} {l : Ledger}

/-- The pipeline between the engine's tick and rename. -/
def ticked (p : O3Pipeline U) : O3Pipeline U := afterEngine { p with core := p.entering }

/-- The front end as decode finds it in the next tick, if it runs. -/
def decoding (p : O3Pipeline U) : Option Frontend :=
  if p.core.cpu.preTick.1 then none
  else if p.ticked.core.cpu.fetching then
    some { p.ticked.frontend with
      decodeRename := (O3.renameStage p.ticked.core p.ticked.frontend.decodeRename).1 }
  else none

/-- The tags rename gives out in the next tick, if it runs. -/
def newTags (p : O3Pipeline U) : List RobTag :=
  ((O3.renameStage p.ticked.core p.ticked.frontend.decodeRename).2.eng.rob.entries.drop
    p.ticked.core.eng.rob.len).map (·.tag)

/-- The engine redirects fetch in the next tick. -/
def redirects (p : O3Pipeline U) : Bool :=
  (O3.tick p.entering).cpu.redirectPending || (O3.tick p.entering).cpu.pc != p.entering.cpu.pc

/-- The ledger after the next tick. A load that broke the order of memory is fetched again, but not the NOPs
in front of it. -/
def ledgerAfter (p : O3Pipeline U) (l : Ledger) : Ledger :=
  if p.core.cpu.preTick.1 then l
  else
    let s := O3.start p.entering
    let l := l.commit (O3.toCommit s) (commitStage (O3.toCommit s) s.eng.width).2
    let l := if p.redirects then l.redirect ((O3.violation p.entering).elim 0 l.ahead) else l
    match p.decoding with
    | some f => (l.rename p.newTags).decode f true
    | none => l

/-- A run whose steps meet `S`, with its ledger. -/
inductive CountedRun (cfg : Config) (S : O3Pipeline U → O3Pipeline U → Prop) : O3Pipeline U → Ledger → Prop where
  | init (cpu : Cpu U) (h : Loaded cfg cpu) :
    CountedRun cfg S (O3Pipeline.init cfg cpu) { isa := cpu.instructionsRetired }
  | tick (p : O3Pipeline U) (l : Ledger) (h : CountedRun cfg S p l) (hs : S p p.tick) :
    CountedRun cfg S p.tick (p.ledgerAfter l)

theorem CountedRun.run {cfg : Config} {S : O3Pipeline U → O3Pipeline U → Prop} (h : CountedRun cfg S p l) :
    Run cfg S p := by
  induction h with
  | init cpu h => exact .init cpu h
  | tick p l _ hs ih => exact .tick p ih hs

/-- Every counter read executed in the next tick is at the head of the buffer. -/
def ReadsFirst (p : O3Pipeline U) : Prop := p.core.cpu.preTick.1 = false → O3.ReadsFirst p.entering

instance (p : O3Pipeline U) : Decidable p.ReadsFirst := inferInstanceAs (Decidable (_ → _))

/-- Decode drops no NOP in the next tick. -/
def DropsNoNop (p : O3Pipeline U) : Prop := ∀ f ∈ p.decoding, f.DropsNoNop true

instance (p : O3Pipeline U) : Decidable p.DropsNoNop :=
  match h : p.decoding with
  | none => .isTrue fun f hf => by simp [h] at hf
  | some f => decidable_of_iff (f.DropsNoNop true) (by simp [DropsNoNop, h])

omit [Units U] in
/-- What a run keeps. -/
structure Counts (p : O3Pipeline U) (l : Ledger) : Prop where
  counted : p.core.Counted
  decoded : ∀ id ∈ p.frontend.decodeRename, id.Sound
  follows : l.Follows p.core.cpu.instructionsRetired

omit [Units U] in
theorem Counts.ofCpu (h : Counts p l) {cpu : Cpu U} (hf : p.core.cpu.Frame cpu)
    (hn : cpu.instructionsRetired = p.core.cpu.instructionsRetired) :
    Counts { p with core := { p.core with cpu := cpu } } l := by
  refine ⟨h.counted.steady (O3.steady_of_moved rfl (fun k x hx => ?_) hn) fun _ hw => hw, h.decoded, ?_⟩
  · simpa only [O3State.carried, hf.mshrs] using hx
  · change l.Follows cpu.instructionsRetired
    rw [hn]
    exact h.follows

theorem preTick_instret (c : Cpu U) : c.preTick.2.instructionsRetired = c.instructionsRetired := by
  unfold Cpu.preTick
  split
  · rfl
  · rfl

/-- The engine's tick and the redirect. -/
theorem Counts.afterEngine (hinv : O3Inv D total p.core) (h : Counts p l) (hfirst : O3.ReadsFirst p.core) :
    let s := O3.start p.core
    let l := l.commit (O3.toCommit s) (commitStage (O3.toCommit s) s.eng.width).2
    Counts p.afterEngine (if (O3.tick p.core).cpu.redirectPending || (O3.tick p.core).cpu.pc != p.core.cpu.pc then
      l.redirect ((O3.violation p.core).elim 0 l.ahead) else l) := by
  intro s l'
  obtain ⟨hcount, hfol⟩ := O3.tick_counts hinv h.counted hfirst h.follows
  unfold O3Pipeline.afterEngine O3Pipeline.redirect
  dsimp only
  split
  · have hzero : (O3.violation p.core).elim 0 l'.ahead = 0 := by
      cases O3.violation p.core with
      | none => rfl
      | some t => exact hfol.clean.ahead t
    rw [hzero]
    refine ⟨hcount.steady (O3.steady_of_moved rfl (fun _ _ hx => hx) rfl) fun w hw => ?_, ?_, hfol.redirect⟩
    · exact List.mem_append_left _ (by simpa [O3State.waiting] using hw)
    · simp [Frontend.flush]
  · exact ⟨hcount, h.decoded, hfol⟩

/-- Rename and the front end. -/
theorem Counts.frontendTick (hinv : O3Inv D total p.core) (h : Counts p l) (ho : p.core.renameOutput = [])
    (hone : p.frontend.Decoded) (hnodup : (p.frontendTick.core.eng.rob.entries.map (·.tag)).Nodup) (tags : List RobTag)
    (hdrop : Frontend.DropsNoNop { p.frontend with
      decodeRename := (O3.renameStage p.core p.frontend.decodeRename).1 } true) :
    Counts p.frontendTick ((l.rename tags).decode { p.frontend with
      decodeRename := (O3.renameStage p.core p.frontend.decodeRename).1 } true) := by
  have hren := O3.renameStage_counts hinv h.counted ho hone h.decoded hnodup
  obtain ⟨hcpu, hleft⟩ := O3.renameStage_cpu ho hone
  obtain ⟨u, pc, htick⟩ := Frontend.tickBehind_cpu
    { p.frontend with decodeRename := (O3.renameStage p.core p.frontend.decodeRename).1 }
    (O3.renameStage p.core p.frontend.decodeRename).2.cpu true
  have hsound := Frontend.tickBehind_sound (f := { p.frontend with
    decodeRename := (O3.renameStage p.core p.frontend.decodeRename).1 }) (fun id hid => h.decoded id (hleft id hid))
    (O3.renameStage p.core p.frontend.decodeRename).2.cpu true
  have hfol := (h.follows.rename tags).decode hdrop
  rw [← hcpu] at hfol
  have hmid : Counts { p with core := (O3.renameStage p.core p.frontend.decodeRename).2 } _ := ⟨hren, h.decoded, hfol⟩
  have hframe : (O3.renameStage p.core p.frontend.decodeRename).2.cpu.Frame p.frontendTick.core.cpu ∧
      p.frontendTick.core.cpu.instructionsRetired =
        (O3.renameStage p.core p.frontend.decodeRename).2.cpu.instructionsRetired := by
    unfold O3Pipeline.frontendTick
    dsimp only
    rw [htick]
    exact ⟨⟨rfl, rfl⟩, rfl⟩
  have hend := hmid.ofCpu hframe.1 hframe.2
  exact ⟨hend.counted, hsound, hend.follows⟩

/-- **A tick of the simulator.** -/
theorem Counts.tick (hinv : Inv D total p) (hinv' : Inv D total p.tick) (h : Counts p l) (hfirst : p.ReadsFirst)
    (hdrop : p.DropsNoNop) : Counts p.tick (p.ledgerAfter l) := by
  have hpre := h.ofCpu (preTick_frame p.core.cpu) (preTick_instret p.core.cpu)
  have hinvpre := hinv.ofCpu (preTick_frame p.core.cpu)
  unfold ReadsFirst at hfirst
  unfold DropsNoNop decoding ticked at hdrop
  unfold ledgerAfter redirects newTags decoding ticked
  unfold O3Pipeline.tick at hinv' ⊢
  unfold entering at hfirst hdrop ⊢
  rcases hr : p.core.cpu.preTick with ⟨skip, cpu⟩
  simp only [hr] at hpre hinvpre hfirst hdrop hinv' ⊢
  cases skip with
  | true =>
    simp only [if_true]
    exact hpre.ofCpu (postTick_frame _) rfl
  | false =>
    simp only [Bool.false_eq_true, if_false] at hdrop hinv' ⊢
    refine Counts.ofCpu ?_ (postTick_frame _) rfl
    obtain ⟨heng, hout⟩ := afterEngine_inv hinvpre
    have hafter := Counts.afterEngine hinvpre.core hpre (hfirst rfl)
    rw [pipelineTick_eq] at hinv' ⊢
    generalize O3Pipeline.afterEngine { p with core := { p.core with cpu := cpu } } =
        q at heng hout hafter hdrop hinv' ⊢
    by_cases hf : q.core.cpu.fetching
    · simp only [if_pos hf, Option.mem_def, Option.some.injEq, forall_eq'] at hdrop hinv' ⊢
      exact hafter.frontendTick heng.core hout heng.decoded hinv'.core.flight.nodup_tags _ hdrop
    · simp only [if_neg hf]
      exact hafter

/-- **The counter in a run** in which every read it executes is at the head of the buffer, and no NOP is
dropped. -/
theorem CountedRun.right {cfg : Config}
    (h : CountedRun cfg (fun p q => SpanStep p q ∧ p.ReadsFirst ∧ p.DropsNoNop) p l) : l.Right := by
  have hinv : ∀ {q : O3Pipeline U} {k : Ledger},
      CountedRun cfg (fun p q => SpanStep p q ∧ p.ReadsFirst ∧ p.DropsNoNop) q k →
        Inv False (cfg.prfGprSize + cfg.prfFprSize) q :=
    fun hq => hq.run.inv (fun _ _ hs => hs.1) fun hf => hf.elim
  suffices hm : Counts p l from hm.follows.right
  induction h with
  | init cpu hl =>
    refine ⟨⟨?_, ?_, ?_, ?_⟩, fun id hid => absurd hid List.not_mem_nil, ⟨⟨fun _ => rfl, ?_, rfl⟩, rfl, ?_⟩⟩
    · exact fun e he => absurd he List.not_mem_nil
    · exact fun x _ e he => absurd he List.not_mem_nil
    · have hbares : (IssueQueue.new cfg.issueQueueSize).bares = [] := by
        simp [IssueQueue.bares, IssueQueue.entries, IssueQueue.new]
      intro w hw
      simp only [O3State.waiting, O3Pipeline.init, O3.syncArchRegs, O3.Engine.new, hbares, List.map_nil,
        List.append_nil, List.not_mem_nil] at hw
    · exact fun w _ e he => absurd he List.not_mem_nil
    · exact fun n hn => absurd hn List.not_mem_nil
    · exact fun x hx => absurd hx List.not_mem_nil
  | tick q k hq hs ih => exact Counts.tick (hinv hq) (hinv (.tick q k hq hs)) ih hs.2.1 hs.2.2

/-- The ledger over the next `n` ticks. -/
def ledgerTicks (p : O3Pipeline U) (l : Ledger) : Nat → Ledger
  | 0 => l
  | n + 1 => ledgerTicks p.tick (p.ledgerAfter l) n

theorem CountedRun.ticks {cfg : Config} {S : O3Pipeline U → O3Pipeline U → Prop} [∀ p q, Decidable (S p q)]
    (n : Nat) (h : CountedRun cfg S p l) (hm : meets S n p = true) :
    CountedRun cfg S (p.ticks n) (p.ledgerTicks l n) := by
  induction n generalizing p l with
  | zero => exact h
  | succ n ih =>
    simp only [meets, Bool.and_eq_true, decide_eq_true_eq] at hm
    exact ih (.tick p l h hm.1) hm.2

end

end O3Pipeline

end Rvsim
