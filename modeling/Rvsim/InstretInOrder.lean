/-
# The counter in the in-order backend

System instructions wait until everything in front of them has completed, not
until it has retired: here too a counter read is right if it executes at the
head of the buffer. A read also flushes what is behind it.

Key definitions:
  - `InOrderState.coming`, `InOrderState.carried`, `InOrderState.Steady`, `InOrderState.Counted`
  - `InOrderPipeline.CountedRun`, `InOrderPipeline.ReadsFirst`
Key theorems:
  - `InOrder.executeEntry_executed`, `InOrder.executeBundle_counts`, `InOrder.tick_counts`
  - `InOrderPipeline.CountedRun.right`
-/
import Rvsim.InOrderRun
import Rvsim.InstretO3

namespace Rvsim

variable {U : Type} {s s' s'' : InOrderState U}

namespace InOrder

/-! ### Execution -/

section

variable [Units U]

omit [Units U] in
/-- An instruction that keeps the buffer as it is, or records in it. -/
theorem executed_plain {cpu c : Cpu U} {id : RenameIssueEntry} {rob rob' : Rob} (alu sd : U64) (fl : U8)
    (sf : Option SfenceVmaInfo) (b : Bool) (htrap : id.trap = none)
    (hn : c.instructionsRetired = cpu.instructionsRetired)
    (hr : rob.Settles [] rob') (hread : id.ctrl.readsInstret = true → alu = cpu.instructionsRetired) :
    Executed cpu id rob ⟨mkResult id alu sd fl sf, b, c, rob'⟩ :=
  ⟨rfl, rfl, hn, hr, fun h => by simp [htrap] at h, fun _ h => Or.inr (hread h)⟩

omit [Units U] in
/-- An instruction that faults. -/
theorem executed_fault (cpu : Cpu U) (id : RenameIssueEntry) (rob : Rob) (t : Trap) :
    Executed cpu id rob ⟨mkResult id 0 0, true, cpu, rob.fault id.robTag t⟩ :=
  ⟨rfl, rfl, rfl, Rob.Settles.fault _ _, fun _ => Rob.state_fault, fun _ _ => Or.inl Rob.state_fault⟩

omit [Units U] in
theorem executeCsr_executed (cpu : Cpu U) (id : RenameIssueEntry) (rob : Rob) (held : U8) (htrap : id.trap = none) :
    Executed cpu id rob (executeCsr cpu id rob held) := by
  have hdrain : rob.Settles [] (drainFpFlags cpu id rob held).2 ∧
      (drainFpFlags cpu id rob held).1.instructionsRetired = cpu.instructionsRetired := by
    unfold drainFpFlags
    split
    · refine ⟨?_, rfl⟩
      refine Rob.Settles.of_map (g := fun e => if RobTag.isOlderThan e.tag id.robTag then
          { e with fpFlags := 0 } else e)
        rfl (RobEntry.Fixes.ite (g := fun e => { e with fpFlags := 0 }) (fun _ => rfl) _) ?_ ?_
      all_goals
        intro e
        by_cases h : RobTag.isOlderThan e.tag id.robTag <;> simp [h]
    · exact ⟨Rob.Settles.refl rob, rfl⟩
  have hold : id.ctrl.readsInstret = true →
      (drainFpFlags cpu id rob held).1.csrRead id.ctrl.csrAddr = cpu.instructionsRetired := by
    intro hr
    simp only [ControlSignals.readsInstret, Bool.and_eq_true, Bool.or_eq_true, beq_iff_eq] at hr
    rw [← hdrain.2]
    rcases hr.2 with ha | ha
    · rw [ha]
      rfl
    · rw [ha]
      rfl
  have hillegal := executed_fault cpu id rob (.illegalInstruction id.inst)
  unfold executeCsr
  dsimp only
  split
  · exact hillegal
  · split
    · exact hillegal
    · split
      · exact hillegal
      · split
        · exact hillegal
        · refine executed_plain _ _ _ _ _ htrap ?_ ?_ hold
          · exact hdrain.2
          · split
            · exact hdrain.1.trans (Rob.Settles.modify _ (fun _ => rfl) (fun _ => rfl) fun _ => rfl)
            · exact hdrain.1

theorem executeRest_executed (cpu : Cpu U) (id : RenameIssueEntry) (rob : Rob) (htrap : id.trap = none)
    (hr : id.ctrl.readsInstret = false) : Executed cpu id rob (executeRest cpu id rob) := by
  have hif : ∀ (b : Bool) (c : Cpu U) (pc : U64), c.instructionsRetired = cpu.instructionsRetired →
      (if b then { c with pc := pc, redirectPending := true } else c).instructionsRetired =
        cpu.instructionsRetired := fun b c pc h => by cases b <;> exact h
  unfold executeRest
  dsimp only
  split
  · exact executed_fault cpu id rob _
  · refine executed_plain _ _ _ _ _ htrap ?_ ?_ fun h => by simp [hr] at h
    · split
      · exact hif _ _ _ rfl
      · exact hif _ _ _ rfl
      · rfl
    · split
      · exact Rob.Settles.modify _ (fun _ => rfl) (fun _ => rfl) fun _ => rfl
      · exact Rob.Settles.modify _ (fun _ => rfl) (fun _ => rfl) fun _ => rfl
      · exact Rob.Settles.refl rob

theorem executeSystem_executed (cpu : Cpu U) (id : RenameIssueEntry) (rob : Rob) (held : U8) (htrap : id.trap = none) :
    Executed cpu id rob ((executeSystem cpu id rob held).getD (executeRest cpu id rob)) := by
  have hother : ∀ op, id.ctrl.systemOp = op → op ≠ .system → id.ctrl.readsInstret = false := by
    intro op hop hne
    simp [ControlSignals.readsInstret, hop, hne]
  have hplain : ∀ (c : Cpu U) (sd : U64) (sf : Option SfenceVmaInfo), c.instructionsRetired = cpu.instructionsRetired →
      id.ctrl.readsInstret = false → Executed cpu id rob ⟨mkResult id 0 sd 0 sf, true, c, rob⟩ := fun c sd sf hn hr =>
    executed_plain 0 sd 0 sf true htrap hn (Rob.Settles.refl rob) fun h => by simp [hr] at h
  have hillegal := executed_fault cpu id rob (.illegalInstruction id.inst)
  unfold executeSystem
  split
  case h_1 hop =>
    split
    · exact hillegal
    · exact hplain cpu 0 none rfl (hother _ hop (by decide))
  case h_2 hop =>
    split
    · exact hillegal
    · split
      · exact hillegal
      · exact hplain cpu 0 none rfl (hother _ hop (by decide))
  case h_3 hop =>
    split
    · exact hillegal
    · exact hplain cpu 0 none rfl (hother _ hop (by decide))
  case h_4 hop =>
    split
    · exact hillegal
    · exact hplain _ id.rv2 _ rfl (hother _ hop (by decide))
  case h_5 =>
    split
    · exact executed_fault cpu id rob _
    · split
      · exact executeCsr_executed cpu id rob held htrap
      · rename_i hop
        refine executeRest_executed cpu id rob htrap ?_
        simp only [ne_eq, not_not] at hop
        simp [ControlSignals.readsInstret, hop]

/-- **An instruction executes**, and only its result is on its way afterwards. -/
theorem executeEntry_executed (cpu : Cpu U) (id : RenameIssueEntry) (rob : Rob) (held : U8) :
    Executed cpu id rob (executeEntry cpu id rob held) := by
  have hother : ∀ op, id.ctrl.systemOp = op → op ≠ .system → id.ctrl.readsInstret = false := by
    intro op hop hne
    simp [ControlSignals.readsInstret, hop, hne]
  unfold executeEntry
  split
  · exact executed_fault cpu id rob _
  · rename_i htrap
    split
    case h_1 hop =>
      refine executed_plain 0 0 0 none true htrap ?_ (Rob.Settles.refl rob) fun h => ?_
      · rfl
      · simp [hother _ hop (by decide)] at h
    case h_2 hop => exact executeRest_executed cpu id rob htrap (hother _ hop (by decide))
    case h_3 hop => exact executeRest_executed cpu id rob htrap (hother _ hop (by decide))
    case h_4 => exact executeSystem_executed cpu id rob held htrap

/-- **The bundle**, if every read it executes is at the head of the buffer. -/
theorem executeBundle_counts {cs : Coming} {ws : List RenameIssueEntry} {n : U64} (inflight : U8)
    (es : List RenameIssueEntry) (batch : U8) (cpu : Cpu U) (rob : Rob) (hn : cpu.instructionsRetired = n)
    (h : Counting rob cs (es ++ ws) n)
    (hfirst : ∀ w ∈ es.take (executeBundle inflight batch cpu rob es).1.length, w.readsInstret = true →
      rob.entries.head?.map (·.tag) = some w.robTag) :
    let r := executeBundle inflight batch cpu rob es
    Counting r.2.2.2 (r.1.map ExMem1Entry.coming ++ cs) ws n ∧ r.2.2.1.instructionsRetired = n := by
  induction es generalizing batch cpu rob cs with
  | nil => exact ⟨h, hn⟩
  | cons id rest ih =>
    intro r
    have hx := executeEntry_executed cpu id rob (inflight ||| batch)
    have htags := (executeEntry_spec cpu id rob (inflight ||| batch)).upd.tags
    simp only [r, executeBundle]
    rw [executeBundle] at hfirst
    clear r
    subst hn
    have hfront : id.readsInstret = true → rob.entries.head?.map (·.tag) = some id.robTag := by
      refine hfirst id ?_
      split
      · exact List.mem_cons_self
      · exact List.mem_cons_self
    have hone := h.execute hx hfront
    revert hx htags hfirst hone
    generalize executeEntry cpu id rob (inflight ||| batch) = o
    intro hfirst hx htags hone
    have hhead : o.rob.entries.head?.map (·.tag) = rob.entries.head?.map (·.tag) := by
      rw [← List.head?_map, ← List.head?_map]
      exact congrArg List.head? htags
    by_cases hf : o.flush
    · simp only [if_pos hf]
      refine ⟨hone.settles (Rob.Settles.refl _) (fun _ hx => hx) fun w hw => ?_, hx.instret⟩
      exact ⟨w, List.mem_append_right _ hw, rfl⟩
    · simp only [if_neg hf] at hfirst ⊢
      obtain ⟨hc, hn'⟩ := ih (batch ||| o.result.fpFlags) o.cpu o.rob hx.instret hone fun w hw hr => by
        rw [hhead]
        exact hfirst w (List.mem_cons_of_mem _ hw) hr
      refine ⟨hc.settles (Rob.Settles.refl _) (fun x hx' => ?_) fun w hw => ⟨w, hw, rfl⟩, hn'⟩
      simp only [List.map_cons, List.cons_append, List.mem_cons, List.mem_append] at hx' ⊢
      tauto

end

end InOrder

/-! ### What the stages keep -/

namespace InOrderState

/-- Results on their way to the buffer. -/
def coming (s : InOrderState U) : Coming :=
  comings s.eng.executeMem1 s.eng.mem1Mem2 s.eng.mem2Wb s.cpu.l1dMshrs.parked

/-- The same of what else the latches carry. -/
def carried {β : Type} (k : Carried β) (s : InOrderState U) : List β :=
  k.latched s.eng.executeMem1 s.eng.mem1Mem2 s.eng.mem2Wb s.cpu.l1dMshrs.parked

theorem mem_carried {β : Type} {k : Carried β} {x : β} : x ∈ s.carried k ↔
    (∃ e ∈ s.eng.executeMem1, k.ex e = x) ∨ (∃ e ∈ s.eng.mem1Mem2, k.mem e = x) ∨
      (∃ e ∈ s.eng.mem2Wb, k.wb e = x) ∨ ∃ e ∈ s.cpu.l1dMshrs.parked, k.mem e = x := by
  simp only [carried, Carried.latched, List.mem_append, List.mem_map]

/-- A stage settles entries with what is on its way, sets nothing on its way and keeps the counter. -/
structure Steady (s s' : InOrderState U) : Prop where
  rob : s.eng.rob.Settles s.coming s'.eng.rob
  carried : ∀ {β : Type} (k : Carried β), ∀ x ∈ s'.carried k, x ∈ s.carried k
  instret : s'.cpu.instructionsRetired = s.cpu.instructionsRetired

theorem Steady.coming (h : Steady s s') : ∀ x ∈ s'.coming, x ∈ s.coming := h.carried .result

theorem Steady.trans (h : Steady s s') (h' : Steady s' s'') : Steady s s'' :=
  ⟨h.rob.trans (h'.rob.mono h.coming), fun k x hx => h.carried k x (h'.carried k x hx), h'.instret.trans h.instret⟩

/-- What the counter needs holds of the engine. -/
def Counted (s : InOrderState U) : Prop := Counting s.eng.rob s.coming s.waiting s.cpu.instructionsRetired

theorem Counted.steady (h : s.Counted) (hs : Steady s s') (hw : ∀ w ∈ s'.waiting, w ∈ s.waiting) : s'.Counted := by
  have hc := h.settles hs.rob hs.coming fun w hw' => ⟨w, hw w hw', rfl⟩
  unfold Counted
  rw [hs.instret]
  exact hc

end InOrderState

namespace InOrder

open InOrderState (Steady Counted)

/-- A stage that moves results and keeps the buffer. -/
theorem steady_of_moved (hr : s'.eng.rob.entries = s.eng.rob.entries)
    (hc : ∀ {β : Type} (k : Carried β), ∀ x ∈ s'.carried k, x ∈ s.carried k)
    (hn : s'.cpu.instructionsRetired = s.cpu.instructionsRetired) : Steady s s' :=
  ⟨Rob.Settles.of_entries hr, hc, hn⟩

/-- Everything is dropped. -/
theorem steady_of_flushed (hr : s'.eng.rob.entries = []) (he : s'.eng.executeMem1 = []) (h1 : s'.eng.mem1Mem2 = [])
    (h2 : s'.eng.mem2Wb = []) (hm : s'.cpu.l1dMshrs = s.cpu.l1dMshrs.flush)
    (hn : s'.cpu.instructionsRetired = s.cpu.instructionsRetired) : Steady s s' := by
  refine ⟨Rob.Settles.front (hr ▸ List.nil_prefix), fun k x hx => ?_, hn⟩
  simp only [InOrderState.mem_carried, he, h1, h2, hm, MshrFile.flush_parked.2, List.not_mem_nil, false_and,
    exists_false, or_false] at hx

/-- Writeback takes an entry out of the latch. -/
theorem writing_carried {β : Type} (k : Carried β) (rob rob' : Rob) (wb : Mem2WbEntry) (wbs : List Mem2WbEntry) :
    ∀ x ∈ (writing s rob' wbs).carried k, x ∈ (writing s rob (wb :: wbs)).carried k := by
  intro x hx
  rw [InOrderState.mem_carried] at hx ⊢
  refine hx.imp_right (Or.imp_right (Or.imp_left ?_))
  rintro ⟨w, hw, hwx⟩
  exact ⟨w, List.mem_cons_of_mem _ hw, hwx⟩

section

variable [Units U]

theorem drainMshrs_steady (h : InOrderInv s) : Steady s (drainMshrs s) := by
  unfold drainMshrs
  by_cases hc : s.cpu.l1dMshrs.capacity = 0
  · rw [if_pos hc]
    exact steady_of_moved rfl (fun _ _ hx => hx) rfl
  · rw [if_neg hc]
    refine steady_of_moved rfl (fun k x hx => ?_) rfl
    have hd := ((MshrFile.drain_parked h.mshrs s.eng.cycle).2.map k.mem).mem_iff (a := x)
    have hun : ∀ done : List MshrEntry, (done.flatMap fun e => e.waiters.filterMap fun w =>
        w.parkedEntry.map fun p => { p with completeCycle := s.eng.cycle }).map k.mem =
          (done.flatMap MshrEntry.parked).map k.mem := unpark_carried k s.eng.cycle
    simp only [List.map_append, List.mem_append] at hd
    simp only [InOrderState.carried, Carried.latched, List.map_append, List.mem_append, hun] at hx ⊢
    tauto

omit [Units U] in
theorem writeback_steady (s : InOrderState U) : Steady s (writing s (writebackStage s.eng.rob s.eng.mem2Wb) []) := by
  have hloop : ∀ (wbs : List Mem2WbEntry) (rob : Rob),
      Steady (writing s rob wbs) (writing s (wbs.foldl writebackOne rob) []) := by
    intro wbs
    induction wbs with
    | nil => exact fun rob => steady_of_moved rfl (fun _ _ hx => hx) rfl
    | cons wb wbs ih =>
      intro rob
      have hin : wb.coming ∈ (writing s rob (wb :: wbs)).coming := by
        simp [InOrderState.coming, comings, writing]
      have hone : Steady (writing s rob (wb :: wbs)) (writing s (writebackOne rob wb) wbs) :=
        ⟨writebackOne_settles rob hin, fun k => writing_carried k rob _ wb wbs, rfl⟩
      exact hone.trans (ih (writebackOne rob wb))
  exact hloop s.eng.mem2Wb s.eng.rob

/-- Memory2 fills a latch that writeback has emptied. -/
theorem memory2_steady (s : InOrderState U) : Steady s (memory2 s) := by
  have hmoved := memory2Stage_moved s.eng.mem1Mem2 ⟨s.cpu, s.eng.sb, none, none⟩
  have hcarried := fun {β : Type} (k : Carried β) =>
    memory2Stage_carried k s.eng.mem1Mem2 ⟨s.cpu, s.eng.sb, none, none⟩
  unfold memory2
  dsimp only
  revert hmoved hcarried
  generalize memory2Stage (⟨s.cpu, s.eng.sb, none, none⟩ : Mem2State U) s.eng.mem1Mem2 = r
  obtain ⟨left, out, m⟩ := r
  rintro ⟨-, ⟨u, hu⟩, -⟩ hcarried
  dsimp only at hu hcarried ⊢
  refine steady_of_moved rfl (fun k x hx => ?_) (by rw [hu])
  have hx' := hcarried k x
  simp only [List.mem_append] at hx'
  simp only [InOrderState.carried, Carried.latched, List.mem_append, hu] at hx ⊢
  tauto

theorem memory1_steady (h : InOrderInv s) : Steady s (memory1 s) := by
  unfold memory1
  by_cases hb : s.eng.mem1Stall > 0
  · rw [if_pos hb]
    exact steady_of_moved rfl (fun _ _ hx => hx) rfl
  · rw [if_neg hb]
    obtain ⟨⟨u, ms, hc⟩, -, -⟩ := memory1Stage_perm s.eng.executeMem1 s.cpu h.mshrs s.eng.mem1Mem2 s.eng.cycle none []
    have hn : (memory1Stage s.cpu s.eng.executeMem1 s.eng.mem1Mem2 s.eng.cycle none).cpu.instructionsRetired =
        s.cpu.instructionsRetired := by rw [hc]
    exact steady_of_moved rfl (fun k =>
      memory1Stage_carried k s.eng.executeMem1 s.cpu h.mshrs s.eng.mem1Mem2 s.eng.mem2Wb s.eng.cycle none []) hn

omit [Units U] in
theorem recover_steady (s : InOrderState U) : Steady s (recover s) := by
  refine ⟨?_, fun _ _ hx => ?_, rfl⟩
  · unfold recover
    dsimp only
    split
    · exact Rob.Settles.front (Rob.keepThrough_prefix _ _)
    · exact Rob.Settles.refl _
  · unfold recover at hx
    dsimp only at hx
    revert hx
    split
    · exact fun hx => hx
    · exact fun hx => hx

/-! ### Issue -/

/-- What is executed of the issued instructions. -/
def executedIn (m : InOrderState U) : List RenameIssueEntry :=
  m.issued.take (executeInorder m.cpu m.issued m.eng.rob (inflightFpFlags m.eng)).1.length

omit [Units U] in
theorem Picked.bare {rob : Rob} {cpu : Cpu U} {w w' : RenameIssueEntry} (h : Picked rob cpu w w') :
    w.bare = w'.bare := by
  rcases h with ⟨-, rfl⟩ | ⟨-, h⟩
  · rfl
  · unfold readOperands at h
    split at h
    · rw [← Option.some.inj h]
      rfl
    · exact absurd h (by simp)

omit [Units U] in
theorem picked_mem {rob : Rob} {cpu : Cpu U} {ws ws' : List RenameIssueEntry}
    (h : List.Forall₂ (Picked rob cpu) ws ws') : ∀ w' ∈ ws', ∃ w ∈ ws, w.bare = w'.bare := by
  induction h with
  | nil => exact fun w hw => absurd hw List.not_mem_nil
  | cons hw _ ih =>
    intro w' hw'
    rcases List.mem_cons.mp hw' with rfl | hw'
    · exact ⟨_, List.mem_cons_self, hw.bare⟩
    · obtain ⟨w, hw, hb⟩ := ih w' hw'
      exact ⟨w, List.mem_cons_of_mem _ hw, hb⟩

theorem issue_counts (hc : s.Counted) (hfirst : s.eng.executeMem1 = [] → ∀ w ∈ executedIn s, w.readsInstret = true →
    s.eng.rob.entries.head?.map (·.tag) = some w.robTag) :
    (issue s).2.Counted ∧ (issue s).2.cpu.instructionsRetired = s.cpu.instructionsRetired := by
  by_cases he : s.eng.executeMem1 = []
  · obtain ⟨k, hd, ht⟩ := select_spec s.eng.rob s.eng.sb s.cpu s.eng.width s.eng.queue
    have hfr := (executeBundle_spec (inflightFpFlags s.eng) 0 s.cpu s.eng.rob
      (select s.eng.rob s.eng.sb s.cpu s.eng.width s.eng.queue).1).frame
    have hheld : Counting s.eng.rob s.coming ((select s.eng.rob s.eng.sb s.cpu s.eng.width s.eng.queue).1 ++
        ((select s.eng.rob s.eng.sb s.cpu s.eng.width s.eng.queue).2 ++ s.renameOutput))
        s.cpu.instructionsRetired := by
      refine hc.settles (Rob.Settles.refl _) (fun _ hx => hx) fun w hw => ?_
      rw [hd, List.mem_append, List.mem_append] at hw
      unfold InOrderState.waiting
      rcases hw with hw | hw | hw
      · obtain ⟨w₀, hw₀, hb⟩ := picked_mem ht w hw
        exact ⟨w₀, List.mem_append_left _ (List.mem_of_mem_take hw₀), hb⟩
      · exact ⟨w, List.mem_append_left _ (List.mem_of_mem_drop hw), rfl⟩
      · exact ⟨w, List.mem_append_right _ hw, rfl⟩
    obtain ⟨hcount, hn⟩ := executeBundle_counts (inflightFpFlags s.eng) _ 0 s.cpu s.eng.rob rfl hheld (hfirst he)
    have hcoming : s.coming = comings [] s.eng.mem1Mem2 s.eng.mem2Wb s.cpu.l1dMshrs.parked := by
      unfold InOrderState.coming
      rw [he]
    unfold issue executeInorder
    rw [if_neg (by simp [he])]
    dsimp only
    revert hfr hcount hn
    generalize executeBundle (inflightFpFlags s.eng) 0 s.cpu s.eng.rob
      (select s.eng.rob s.eng.sb s.cpu s.eng.width s.eng.queue).1 = r
    obtain ⟨results, fl, cpu', rob'⟩ := r
    intro hfr hcount hn
    dsimp only at hfr hcount hn ⊢
    refine ⟨?_, hn⟩
    unfold Counted InOrderState.coming
    dsimp only
    rw [hn, hfr.mshrs, he, List.nil_append]
    rw [hcoming] at hcount
    exact hcount
  · have hi : issue s = (false, s) := by
      unfold issue
      rw [if_pos (by simpa using he)]
    rw [hi]
    exact ⟨hc, rfl⟩

/-! ### The tick -/

/-- Every counter read a tick executes is at the head of the buffer. -/
def ReadsFirst (s : InOrderState U) : Prop := ∀ m ∈ selecting s, ∀ w ∈ executedIn m, w.readsInstret = true →
  m.eng.rob.entries.head?.map (·.tag) = some w.robTag

instance (s : InOrderState U) : Decidable (ReadsFirst s) :=
  match h : selecting s with
  | none => .isTrue fun m hm => by simp [h] at hm
  | some m => decidable_of_iff (∀ w ∈ executedIn m, w.readsInstret = true →
      m.eng.rob.entries.head?.map (·.tag) = some w.robTag) (by simp [ReadsFirst, h])

/-- The counter stays, and what it needs holds. -/
def KeepsCount (s s' : InOrderState U) : Prop :=
  s'.Counted ∧ s'.cpu.instructionsRetired = s.cpu.instructionsRetired

omit [Units U] in
theorem keepsCount (hc : s.Counted) (hs : Steady s s') (hw : ∀ w ∈ s'.waiting, w ∈ s.waiting) : KeepsCount s s' :=
  ⟨hc.steady hs hw, hs.instret⟩

/-- From memory1 on. -/
theorem issueRest_counts (hc : s.Counted) (hfirst : s.eng.executeMem1 = [] → ∀ w ∈ executedIn s,
    w.readsInstret = true → s.eng.rob.entries.head?.map (·.tag) = some w.robTag) :
    KeepsCount s (match issue s with
      | (true, s) => recover s
      | (false, s) => { s with eng := dispatch s.eng s.renameOutput, renameOutput := [] }) := by
  obtain ⟨hcount, hn⟩ := issue_counts hc hfirst
  revert hcount hn
  generalize issue s = r
  obtain ⟨fl, s'⟩ := r
  intro hcount hn
  dsimp only at hcount hn
  cases fl with
  | true =>
    have hrec := recover_steady s'
    refine ⟨hcount.steady hrec fun w hw => ?_, hrec.instret.trans hn⟩
    have hq : (recover s').waiting = [] := by
      unfold recover InOrderState.waiting
      dsimp only
      split
      · rfl
      · rfl
    rw [hq] at hw
    exact absurd hw List.not_mem_nil
  | false =>
    refine ⟨hcount.steady (steady_of_moved rfl (fun _ _ hx => hx) rfl) fun w hw => ?_, hn⟩
    simp only [InOrderState.waiting, dispatch, List.append_nil, List.mem_append] at hw ⊢
    exact hw.imp_right List.mem_of_mem_take

theorem commitLoop_mshrs (n : Nat) (c : CommitState U) : (commitLoop n c).2.cpu.l1dMshrs = c.cpu.l1dMshrs := by
  induction n generalizing c with
  | zero => rfl
  | succ n ih =>
    rw [commitLoop]
    cases c.rob.entries with
    | nil => rfl
    | cons e rest =>
      dsimp only
      split
      · rfl
      · split
        · unfold CommitState.retireFault
          cases e.trap <;> rfl
        · have hm := (CommitState.retire_frame { c with rob := { c.rob with entries := rest } } e).2.2
          split
          · rename_i heq
            rw [heq] at hm
            exact (ih _).trans hm
          · rename_i heq
            rw [heq] at hm
            exact hm

theorem commitStage_mshrs (c : CommitState U) (width : Nat) :
    (commitStage c width).2.cpu.l1dMshrs = c.cpu.l1dMshrs := by
  unfold commitStage
  split
  · rfl
  · split
    · unfold wfiWake
      split <;> rfl
    · exact (drainOneStore_frame _ _).mshrs.trans (commitLoop_mshrs width c)

/-- Commit with the ledger. -/
theorem commit_counts (h : InOrderInv s) (hc : s.Counted) {l : Ledger} (hl : l.Follows s.cpu.instructionsRetired) :
    (l.commit s.committing (commitStage s.committing s.eng.width).2).Follows (commit s).2.cpu.instructionsRetired ∧
      (commit s).2.Counted := by
  obtain ⟨hfol, hcount⟩ := commitStage_counts (c := s.committing) s.eng.width hc h.nodup hl
  refine ⟨hfol, ?_⟩
  have hcoming : (commit s).2.coming = s.coming := by
    show comings _ _ _ (commitStage s.committing s.eng.width).2.cpu.l1dMshrs.parked = _
    rw [commitStage_mshrs]
    rfl
  unfold Counted
  rw [hcoming]
  exact hcount

/-- **A tick of the engine.** -/
theorem tick_counts (h : InOrderInv s) (hc : s.Counted) (hfirst : ReadsFirst s) {l : Ledger}
    (hl : l.Follows s.cpu.instructionsRetired) :
    (tick s).Counted ∧ (l.commit (drainMshrs (start s)).committing
      (commitStage (drainMshrs (start s)).committing (drainMshrs (start s)).eng.width).2).Follows
        (tick s).cpu.instructionsRetired := by
  have hinv := @drainMshrs_inv U _ _ (start_inv h)
  have hstart : Steady s (start s) := steady_of_moved rfl (fun _ _ hx => hx) rfl
  have hst := hstart.trans (drainMshrs_steady (start_inv h))
  have hwait : (drainMshrs (start s)).waiting = s.waiting := by
    unfold drainMshrs
    split
    · rfl
    · rfl
  obtain ⟨hfol, hcom⟩ := commit_counts hinv (hc.steady hst fun w hw => hwait ▸ hw) (l := l) (hst.instret ▸ hl)
  suffices hk : KeepsCount (commit (drainMshrs (start s))).2 (tick s) from ⟨hk.1, by rw [hk.2]; exact hfol⟩
  have hkeep := @commit_inv U _ _ hinv
  clear hfol hl hwait hst
  unfold ReadsFirst selecting at hfirst
  unfold tick
  dsimp only at hfirst ⊢
  revert hcom hkeep hfirst
  generalize commit (drainMshrs (start s)) = r
  obtain ⟨trap, s'⟩ := r
  intro hfirst hcom hkeep
  cases trap with
  | some te =>
    refine keepsCount hcom (steady_of_flushed rfl rfl rfl rfl ?_ ?_) fun w hw => ?_
    · exact (Cpu.trap_frame _ te.1 te.2).mshrs
    · exact Cpu.trap_instret _ te.1 te.2
    · exact List.mem_append_right _ (by simpa [InOrderState.waiting, takeTrap, flush] using hw)
  | none =>
    dsimp only at hcom hkeep hfirst ⊢
    by_cases hp : s'.cpu.pc ≠ (drainMshrs (start s)).cpu.pc
    · rw [if_pos hp]
      refine keepsCount hcom (steady_of_flushed rfl rfl rfl rfl rfl rfl) fun w hw => ?_
      simp [InOrderState.waiting, flush] at hw
    · rw [if_neg hp] at hfirst ⊢
      have hwb := @writeback_inv U _ (hkeep rfl)
      have hm2 := memory2_inv hwb rfl
      have hsteady := ((writeback_steady s').trans (memory2_steady _)).trans (memory1_steady hm2)
      have hwait : (memory1 (memory2 (writing s' (writebackStage s'.eng.rob s'.eng.mem2Wb) []))).waiting =
          s'.waiting := by
        unfold memory1
        split
        · rfl
        · rfl
      obtain ⟨hcount, hn⟩ := issueRest_counts (hcom.steady hsteady fun w hw => hwait ▸ hw) fun he w hw hr =>
        hfirst _ (by rw [if_pos (by simp [he])]; exact rfl) w hw hr
      exact ⟨hcount, hn.trans hsteady.instret⟩

/-! ### Rename -/

omit [Units U] in
/-- **Rename** puts entries behind the others, each with the instruction that waits for it. -/
theorem renameLoop_adds (n : Nat) (s : InOrderState U) (ids : List IdExEntry) (hb : Budget s n)
    (hp : ∀ id ∈ ids, id.Sound) :
    ∃ es ws, (renameLoop n s ids).2.eng.rob.entries = s.eng.rob.entries ++ es ∧ (∀ e ∈ es, e.state = .issued) ∧
      (renameLoop n s ids).2.waiting = s.waiting ++ ws ∧ (∀ w ∈ ws, w.Sound) ∧
      (∀ w ∈ ws, ∃ e ∈ es, e.tag = w.robTag ∧ w.Describes e) ∧ (renameLoop n s ids).2.coming = s.coming ∧
      ∀ id ∈ (renameLoop n s ids).1, id ∈ ids := by
  have hstop : ∃ es ws, s.eng.rob.entries = s.eng.rob.entries ++ es ∧ (∀ e ∈ es, e.state = .issued) ∧
      s.waiting = s.waiting ++ ws ∧ (∀ w ∈ ws, w.Sound) ∧
      (∀ w ∈ ws, ∃ e ∈ es, e.tag = w.robTag ∧ w.Describes e) ∧ s.coming = s.coming ∧ ∀ id ∈ ids, id ∈ ids :=
    ⟨[], [], (List.append_nil _).symm, fun e he => absurd he List.not_mem_nil, (List.append_nil _).symm,
      fun w hw => absurd hw List.not_mem_nil, fun w hw => absurd hw List.not_mem_nil, rfl, fun _ h => h⟩
  induction n generalizing s ids with
  | zero =>
    cases ids with
    | nil => exact hstop
    | cons id ids => exact hstop
  | succ n ih =>
    cases ids with
    | nil => exact hstop
    | cons id ids =>
      obtain ⟨sb, heq, hb'⟩ := renameOne_renamed hb id
      have hid := hp id List.mem_cons_self
      obtain ⟨es, ws, hent, hissued, hwait, hsound, hdesc, hcoming, hleft⟩ := ih (renamed s id sb) ids hb'
        (fun x hx => hp x (List.mem_cons_of_mem _ hx))
        ⟨[], [], (List.append_nil _).symm, fun e he => absurd he List.not_mem_nil, (List.append_nil _).symm,
          fun w hw => absurd hw List.not_mem_nil, fun w hw => absurd hw List.not_mem_nil, rfl, fun _ h => h⟩
      rw [renameLoop, heq]
      refine ⟨newEntry s id :: es, newIssue s id :: ws, ?_, fun e he => ?_, ?_, fun w hw => ?_, fun w hw => ?_,
        hcoming, fun x hx => List.mem_cons_of_mem _ (hleft x hx)⟩
      · rw [hent]
        simp [renamed]
      · rcases List.mem_cons.mp he with rfl | he'
        · rfl
        · exact hissued e he'
      · rw [hwait, renamed_waiting, List.append_assoc]
        rfl
      · rcases List.mem_cons.mp hw with rfl | hw'
        · exact ⟨hid.counted, hid.read⟩
        · exact hsound w hw'
      · rcases List.mem_cons.mp hw with rfl | hw'
        · exact ⟨_, List.mem_cons_self, rfl, rfl, rfl, rfl⟩
        · obtain ⟨e, he, hd⟩ := hdesc w hw'
          exact ⟨e, List.mem_cons_of_mem _ he, hd⟩

omit [Units U] in
/-- What is on its way is in the buffer. -/
theorem tag_of_coming (h : InOrderInv s) {x : RobTag × Option U64} (hx : x ∈ s.coming) :
    x.1 ∈ s.eng.rob.entries.map (·.tag) := by
  obtain ⟨done, hsplit, hfly⟩ := h.split
  have hin : x.1 ∈ s.flyTags := by
    simp only [InOrderState.coming, comings, List.mem_append, List.mem_map] at hx
    simp only [InOrderState.flyTags, InOrderState.flying, List.map_append, List.map_map, List.mem_append,
      List.mem_map]
    rcases hx with ⟨e, he, rfl⟩ | ⟨e, he, rfl⟩ | ⟨e, he, rfl⟩ | ⟨e, he, rfl⟩
    · exact Or.inl ⟨e, he, rfl⟩
    · exact Or.inr (Or.inl ⟨e, he, rfl⟩)
    · exact Or.inr (Or.inr (Or.inl ⟨e, he, rfl⟩))
    · exact Or.inr (Or.inr (Or.inr ⟨e, he, rfl⟩))
  change x.1 ∈ s.eng.rob.tags
  rw [hsplit]
  exact List.mem_append_left _ (hfly _ hin)

omit [Units U] in
theorem renameStage_counts {ids : List IdExEntry} (h : InOrderInv s) (hc : s.Counted) (ho : s.renameOutput = [])
    (hp : ∀ id ∈ ids, id.Sound) (hnd : (renameStage s ids).2.eng.rob.tags.Nodup) :
    (renameStage s ids).2.Counted ∧ ∀ id ∈ (renameStage s ids).1, id ∈ ids := by
  obtain ⟨es, ws, hent, hissued, hwait, hsound, hdesc, hcoming, hleft⟩ :=
    renameLoop_adds (canAccept s.eng) s ids (budget_canAccept ho h) hp
  have hcpu := renameStage_cpu ids h ho
  obtain ⟨done, hsplit, -⟩ := h.split
  refine ⟨?_, hleft⟩
  have happ := Counting.append (g := id) hc (by rw [List.map_id]; exact hent) (fun _ => rfl) (fun _ => rfl)
      (fun _ => rfl) hissued hnd
    (fun x hx => tag_of_coming h hx) (fun w hw => ?_) hsound hdesc
  · unfold Counted
    rw [hcpu, show (renameStage s ids).2.coming = s.coming from hcoming,
      show (renameStage s ids).2.waiting = s.waiting ++ ws from hwait]
    exact happ
  · change w.robTag ∈ s.eng.rob.tags
    rw [hsplit]
    exact List.mem_append_right _ (List.mem_map_of_mem hw)

end

end InOrder

/-! ### Runs -/

namespace InOrderPipeline

section

variable [Units U] {p : InOrderPipeline U} {l : Ledger}

/-- The core as the engine's tick finds it. -/
def entering (p : InOrderPipeline U) : InOrderState U := { p.core with cpu := p.core.cpu.preTick.2 }

/-- The pipeline between the engine's tick and rename. -/
def ticked (p : InOrderPipeline U) : InOrderPipeline U := afterEngine { p with core := p.entering }

/-- The front end as decode finds it in the next tick, if it runs. -/
def decoding (p : InOrderPipeline U) : Option Frontend :=
  if p.core.cpu.preTick.1 then none
  else if p.ticked.core.cpu.fetching then
    some { p.ticked.frontend with
      decodeRename := (InOrder.renameStage p.ticked.core p.ticked.frontend.decodeRename).1 }
  else none

/-- The tags rename gives out in the next tick, if it runs. -/
def newTags (p : InOrderPipeline U) : List RobTag :=
  ((InOrder.renameStage p.ticked.core p.ticked.frontend.decodeRename).2.eng.rob.entries.drop
    p.ticked.core.eng.rob.len).map (·.tag)

/-- The engine redirects fetch in the next tick. -/
def redirects (p : InOrderPipeline U) : Bool :=
  (InOrder.tick p.entering).cpu.redirectPending || (InOrder.tick p.entering).cpu.pc != p.entering.cpu.pc

/-- The ledger after the next tick. -/
def ledgerAfter (p : InOrderPipeline U) (l : Ledger) : Ledger :=
  if p.core.cpu.preTick.1 then l
  else
    let s := InOrder.drainMshrs (InOrder.start p.entering)
    let l := l.commit s.committing (commitStage s.committing s.eng.width).2
    let l := if p.redirects then l.redirect 0 else l
    match p.decoding with
    | some f => (l.rename p.newTags).decode f false
    | none => l

/-- A run whose steps meet `S`, with its ledger. -/
inductive CountedRun (cfg : Config) (S : InOrderPipeline U → InOrderPipeline U → Prop) :
    InOrderPipeline U → Ledger → Prop where
  | init (cpu : Cpu U) (h : O3Pipeline.Loaded cfg cpu) :
    CountedRun cfg S (InOrderPipeline.init cfg cpu) { isa := cpu.instructionsRetired }
  | tick (p : InOrderPipeline U) (l : Ledger) (h : CountedRun cfg S p l) (hs : S p p.tick) :
    CountedRun cfg S p.tick (p.ledgerAfter l)

/-- Every counter read executed in the next tick is at the head of the buffer. -/
def ReadsFirst (p : InOrderPipeline U) : Prop := p.core.cpu.preTick.1 = false → InOrder.ReadsFirst p.entering

instance (p : InOrderPipeline U) : Decidable p.ReadsFirst := inferInstanceAs (Decidable (_ → _))

/-- Decode drops no NOP in the next tick. -/
def DropsNoNop (p : InOrderPipeline U) : Prop := ∀ f ∈ p.decoding, f.DropsNoNop false

instance (p : InOrderPipeline U) : Decidable p.DropsNoNop :=
  match h : p.decoding with
  | none => .isTrue fun f hf => by simp [h] at hf
  | some f => decidable_of_iff (f.DropsNoNop false) (by simp [DropsNoNop, h])

omit [Units U] in
/-- What a run keeps. -/
structure Counts (p : InOrderPipeline U) (l : Ledger) : Prop where
  counted : p.core.Counted
  decoded : ∀ id ∈ p.frontend.decodeRename, id.Sound
  follows : l.Follows p.core.cpu.instructionsRetired

omit [Units U] in
theorem Counts.ofCpu (h : Counts p l) {cpu : Cpu U} (hf : p.core.cpu.Frame cpu)
    (hn : cpu.instructionsRetired = p.core.cpu.instructionsRetired) :
    Counts { p with core := { p.core with cpu := cpu } } l := by
  refine ⟨h.counted.steady (InOrder.steady_of_moved rfl (fun k x hx => ?_) hn) fun _ hw => hw, h.decoded, ?_⟩
  · simpa only [InOrderState.carried, hf.mshrs] using hx
  · change l.Follows cpu.instructionsRetired
    rw [hn]
    exact h.follows

/-- The engine's tick and the redirect. -/
theorem Counts.afterEngine (hinv : InOrderInv p.core) (h : Counts p l) (hfirst : InOrder.ReadsFirst p.core) :
    let s := InOrder.drainMshrs (InOrder.start p.core)
    let l := l.commit s.committing (commitStage s.committing s.eng.width).2
    Counts p.afterEngine (if (InOrder.tick p.core).cpu.redirectPending ||
      (InOrder.tick p.core).cpu.pc != p.core.cpu.pc then l.redirect 0 else l) := by
  intro s l'
  obtain ⟨hcount, hfol⟩ := InOrder.tick_counts hinv h.counted hfirst h.follows
  unfold InOrderPipeline.afterEngine InOrderPipeline.redirect
  dsimp only
  split
  · refine ⟨hcount.steady (InOrder.steady_of_moved rfl (fun _ _ hx => hx) rfl) fun w hw => ?_, ?_, hfol.redirect⟩
    · exact List.mem_append_left _ (by simpa [InOrderState.waiting] using hw)
    · simp [Frontend.flush]
  · exact ⟨hcount, h.decoded, hfol⟩

/-- Rename and the front end. -/
theorem Counts.frontendTick (hinv : InOrderInv p.core) (h : Counts p l) (ho : p.core.renameOutput = [])
    (hnodup : p.frontendTick.core.eng.rob.tags.Nodup) (tags : List RobTag)
    (hdrop : Frontend.DropsNoNop { p.frontend with
      decodeRename := (InOrder.renameStage p.core p.frontend.decodeRename).1 } false) :
    Counts p.frontendTick ((l.rename tags).decode { p.frontend with
      decodeRename := (InOrder.renameStage p.core p.frontend.decodeRename).1 } false) := by
  obtain ⟨hren, hleft⟩ := InOrder.renameStage_counts hinv h.counted ho h.decoded hnodup
  have hcpu := InOrder.renameStage_cpu p.frontend.decodeRename hinv ho
  obtain ⟨u, pc, htick⟩ := Frontend.tickBehind_cpu
    { p.frontend with decodeRename := (InOrder.renameStage p.core p.frontend.decodeRename).1 }
    (InOrder.renameStage p.core p.frontend.decodeRename).2.cpu false
  have hsound := Frontend.tickBehind_sound (f := { p.frontend with
    decodeRename := (InOrder.renameStage p.core p.frontend.decodeRename).1 })
    (fun id hid => h.decoded id (hleft id hid)) (InOrder.renameStage p.core p.frontend.decodeRename).2.cpu false
  have hfol := (h.follows.rename tags).decode hdrop
  rw [← hcpu] at hfol
  have hmid : Counts { p with core := (InOrder.renameStage p.core p.frontend.decodeRename).2 } _ :=
    ⟨hren, h.decoded, hfol⟩
  have hframe : (InOrder.renameStage p.core p.frontend.decodeRename).2.cpu.Frame p.frontendTick.core.cpu ∧
      p.frontendTick.core.cpu.instructionsRetired =
        (InOrder.renameStage p.core p.frontend.decodeRename).2.cpu.instructionsRetired := by
    unfold InOrderPipeline.frontendTick
    dsimp only
    rw [htick]
    exact ⟨⟨rfl, rfl⟩, rfl⟩
  have hend := hmid.ofCpu hframe.1 hframe.2
  exact ⟨hend.counted, hsound, hend.follows⟩

/-- **A tick of the simulator.** -/
theorem Counts.tick (hinv : InOrderInv p.core) (hinv' : InOrderInv p.tick.core) (h : Counts p l)
    (hfirst : p.ReadsFirst) (hdrop : p.DropsNoNop) : Counts p.tick (p.ledgerAfter l) := by
  have hpre := h.ofCpu (O3Pipeline.preTick_frame p.core.cpu) (O3Pipeline.preTick_instret p.core.cpu)
  have hinvpre := hinv.ofCpu (O3Pipeline.preTick_frame p.core.cpu)
  unfold ReadsFirst at hfirst
  unfold DropsNoNop decoding ticked at hdrop
  unfold ledgerAfter redirects newTags decoding ticked
  unfold InOrderPipeline.tick at hinv' ⊢
  unfold entering at hfirst hdrop ⊢
  rcases hr : p.core.cpu.preTick with ⟨skip, cpu⟩
  simp only [hr] at hpre hinvpre hfirst hdrop hinv' ⊢
  cases skip with
  | true =>
    simp only [if_true]
    exact hpre.ofCpu (O3Pipeline.postTick_frame _) rfl
  | false =>
    simp only [Bool.false_eq_true, if_false] at hdrop hinv' ⊢
    refine Counts.ofCpu ?_ (O3Pipeline.postTick_frame _) rfl
    obtain ⟨heng, hout⟩ := @afterEngine_inv _ _ { p with core := { p.core with cpu := cpu } } hinvpre
    have hafter := Counts.afterEngine (p := { p with core := { p.core with cpu := cpu } }) hinvpre hpre (hfirst rfl)
    rw [pipelineTick_eq] at hinv' ⊢
    by_cases hf : (InOrderPipeline.afterEngine { p with core := { p.core with cpu := cpu } }).core.cpu.fetching
    · simp only [if_pos hf, Option.mem_def, Option.some.injEq, forall_eq'] at hdrop hinv' ⊢
      revert heng hout hafter hinv' hdrop
      generalize InOrderPipeline.afterEngine { p with core := { p.core with cpu := cpu } } = q
      intro heng hout hafter hdrop hinv'
      exact hafter.frontendTick heng hout hinv'.nodup _ hdrop
    · simp only [if_neg hf]
      exact hafter

/-- **The counter in a run** in which every read it executes is at the head of the buffer, and no NOP is
dropped. -/
theorem CountedRun.right {cfg : Config}
    (h : CountedRun cfg (fun p q => SpanStep p q ∧ p.ReadsFirst ∧ p.DropsNoNop) p l) : l.Right := by
  have hinv : ∀ {q : InOrderPipeline U} {k : Ledger},
      CountedRun cfg (fun p q => SpanStep p q ∧ p.ReadsFirst ∧ p.DropsNoNop) q k → InOrderInv q.core := by
    intro q k hq
    induction hq with
    | init cpu h => exact init_inv h
    | tick q k _ hs ih => exact tick_inv ih hs.1
  suffices hm : Counts p l from hm.follows.right
  induction h with
  | init cpu hl =>
    refine ⟨⟨?_, ?_, ?_, ?_⟩, fun id hid => absurd hid List.not_mem_nil, ⟨⟨fun _ => rfl, ?_, rfl⟩, rfl, ?_⟩⟩
    · exact fun e he => absurd he List.not_mem_nil
    · exact fun x _ e he => absurd he List.not_mem_nil
    · exact fun w hw => absurd hw List.not_mem_nil
    · exact fun w _ e he => absurd he List.not_mem_nil
    · exact fun n hn => absurd hn List.not_mem_nil
    · exact fun x hx => absurd hx List.not_mem_nil
  | tick q k hq hs ih => exact Counts.tick (hinv hq) (hinv (.tick q k hq hs)) ih hs.2.1 hs.2.2

instance (p q : InOrderPipeline U) : Decidable (SpanStep p q) := decidable_of_iff _ (spanOk_iff q.core)

/-- The ledger over the next `n` ticks. -/
def ledgerTicks (p : InOrderPipeline U) (l : Ledger) : Nat → Ledger
  | 0 => l
  | n + 1 => ledgerTicks p.tick (p.ledgerAfter l) n

/-- Each of the next `n` steps meets `S`. -/
def meets (S : InOrderPipeline U → InOrderPipeline U → Prop) [∀ p q, Decidable (S p q)] :
    Nat → InOrderPipeline U → Bool
  | 0, _ => true
  | n + 1, p => decide (S p p.tick) && meets S n p.tick

theorem CountedRun.ticks {cfg : Config} {S : InOrderPipeline U → InOrderPipeline U → Prop}
    [∀ p q, Decidable (S p q)] (n : Nat) (h : CountedRun cfg S p l) (hm : meets S n p = true) :
    CountedRun cfg S (p.ticks n) (p.ledgerTicks l n) := by
  induction n generalizing p l with
  | zero => exact h
  | succ n ih =>
    simp only [meets, Bool.and_eq_true, decide_eq_true_eq] at hm
    exact ih (.tick p l h hm.1) hm.2

end

end InOrderPipeline

/-! ### Both backends -/

/-- **What a counter read returns** is what the ISA counts, in every run of either backend in which decode
drops no NOP and every read executes with nothing older in the buffer. -/
theorem instret_right [Units U] :
    (∀ (cfg : Config) (p : O3Pipeline U) (l : Ledger), O3Pipeline.CountedRun cfg
      (fun p q => O3Pipeline.SpanStep p q ∧ p.ReadsFirst ∧ p.DropsNoNop) p l → l.Right) ∧
    (∀ (cfg : Config) (p : InOrderPipeline U) (l : Ledger), InOrderPipeline.CountedRun cfg
      (fun p q => InOrderPipeline.SpanStep p q ∧ p.ReadsFirst ∧ p.DropsNoNop) p l → l.Right) :=
  ⟨fun _ _ _ h => h.right, fun _ _ _ h => h.right⟩

/-- A word in front of a read of `minstret`. -/
def readBehind (w : U32) : Mem :=
  -- w; csrrs x8,minstret,x0; jal x0,0
  O3Pipeline.memOfWords 0x80000000 [w, 0xb0202473, 0x0000006f]

/-- The loop at its end, and the one with an instruction more in front of it. -/
def readBench : Bench := { btb := [(0x80000008, 0x80000008), (0x8000000c, 0x8000000c)] }

/-- The core before the read. -/
def readCpu (cfg : Config) (w : U32) : Cpu Bench := Cpu.new cfg (readBehind w) readBench

/-- Out of order behind `addi x5,x0,1`, which has retired; in order behind a FENCE.I, which has flushed. -/
theorem instret_right_behind :
    ((O3Pipeline.init O3Pipeline.smallO3 (readCpu O3Pipeline.smallO3 0x00100293)).ledgerTicks { isa := 0 } 8).reads =
      [(1, 1)] ∧
    ((O3Pipeline.init O3Pipeline.smallO3 (readCpu O3Pipeline.smallO3 0x00100293)).ledgerTicks { isa := 0 } 8).Right ∧
    ((InOrderPipeline.init InOrderPipeline.smallInOrder (readCpu InOrderPipeline.smallInOrder 0x0000100f)).ledgerTicks
      { isa := 0 } 19).reads = [(1, 1)] ∧
    ((InOrderPipeline.init InOrderPipeline.smallInOrder (readCpu InOrderPipeline.smallInOrder 0x0000100f)).ledgerTicks
      { isa := 0 } 19).Right :=
  ⟨by decide +kernel,
    instret_right.1 O3Pipeline.smallO3 _ _
      (O3Pipeline.CountedRun.ticks 8 (.init _ (O3Pipeline.loaded_new _ _ _)) (by decide +kernel)),
    by decide +kernel,
    instret_right.2 InOrderPipeline.smallInOrder _ _
      (InOrderPipeline.CountedRun.ticks 19 (.init _ (O3Pipeline.loaded_new _ _ _)) (by decide +kernel))⟩

/-- `div x6,x5,x5; addi x7,x0,1` in front of the read. -/
def readBehindDiv : O3Pipeline Bench :=
  .init O3Pipeline.smallO3 (Cpu.new O3Pipeline.smallO3
    (O3Pipeline.memOfWords 0x80000000 [0x0252c333, 0x00100393, 0xb0202473, 0x0000006f]) readBench)

/-- In order, the read behind `addi x5,x0,1` executes before that has retired, and so does, out of order, the
one behind a division and another instruction. -/
theorem instret_early :
    (∃ (p : InOrderPipeline Bench) (l : Ledger),
      InOrderPipeline.CountedRun InOrderPipeline.smallInOrder InOrderPipeline.SpanStep p l ∧ ¬l.Right) ∧
    ∃ (p : O3Pipeline Bench) (l : Ledger),
      O3Pipeline.CountedRun O3Pipeline.smallO3 O3Pipeline.SpanStep p l ∧ ¬l.Right :=
  ⟨⟨_, _, InOrderPipeline.CountedRun.ticks 13 (.init (readCpu InOrderPipeline.smallInOrder 0x00100293)
      (O3Pipeline.loaded_new _ _ _)) (by decide +kernel), by decide +kernel⟩,
    ⟨_, _, O3Pipeline.CountedRun.ticks 44 (p := readBehindDiv) (.init _ (O3Pipeline.loaded_new _ _ _))
      (by decide +kernel), by decide +kernel⟩⟩

end Rvsim
