/-
# Device loads in the in-order backend

As out of order, but misses that are done go on in front of commit, there is
no load queue to find a violation, and a flush squashes behind the last
instruction that executed.

Key definitions:
  - `InOrderState.deviceView`, `InOrder.deviceTick`, `InOrderState.Tracks`
  - `InOrderPipeline.Orderly`, `InOrderPipeline.LoggedRun`
Key theorems:
  - `InOrder.sound`, `InOrder.reaches`, `InOrder.deviceTick_from`, `InOrder.deviceTick_kept`
  - `InOrder.tick_served`, `InOrderPipeline.LoggedRun.exact`
-/
import Rvsim.DeviceO3
import Rvsim.InstretInOrder

namespace Rvsim

variable {U : Type} {s s' m : InOrderState U} {l : DeviceLog} {pend : List (RobTag × DeviceRead)}

namespace InOrderState

/-- What the condition reads of the engine. -/
def deviceView (s : InOrderState U) : DeviceView U where
  cpu := s.cpu
  rob := s.eng.rob
  sb := s.eng.sb
  loads := []
  front := s.eng.mem1Mem2 ++ s.cpu.l1dMshrs.parked
  past := s.eng.mem2Wb.map (·.robTag)

/-- The control signals of what waits and of what the latches carry. -/
def signals (s : InOrderState U) : List (RobTag × ControlSignals) :=
  s.waiting.map (fun w => (w.robTag, w.ctrl)) ++ s.carried .signals

theorem signals_of_steady (hs : ∀ x ∈ s'.carried .signals, x ∈ s.carried .signals)
    (hw : ∀ w ∈ s'.waiting, w ∈ s.waiting) : ∀ x ∈ s'.signals, x ∈ s.signals := by
  intro x hx
  rcases List.mem_append.mp hx with hx | hx
  · obtain ⟨w, hw', rfl⟩ := List.mem_map.mp hx
    exact List.mem_append_left _ (List.mem_map_of_mem (hw w hw'))
  · exact List.mem_append_right _ (hs x hx)

theorem signals_of_mem {m : Mem1Mem2Entry} (h : m ∈ s.deviceView.front) : (m.robTag, m.ctrl) ∈ s.signals := by
  refine List.mem_append_right _ (mem_carried.mpr ?_)
  rcases List.mem_append.mp h with h | h
  · exact Or.inr (Or.inl ⟨m, h, rfl⟩)
  · exact Or.inr (Or.inr (Or.inr ⟨m, h, rfl⟩))

/-- The table `F` has the signals of all that is in flight, and `K` holds of the loads past memory2. -/
def Tracks (F : RobTag → Option ControlSignals) (K : RobTag → Prop) (s : InOrderState U) : Prop :=
  Tracked F K s.eng.rob s.signals s.eng.mem2Wb

end InOrderState

namespace InOrder

open InOrderState (Steady)

section

variable [Units U]

/-! ### The buffer's tags through the tick -/

theorem drainMshrs_frame (s : InOrderState U) : (drainMshrs s).eng.rob = s.eng.rob ∧
    (drainMshrs s).eng.sb = s.eng.sb ∧ (drainMshrs s).eng.mem2Wb = s.eng.mem2Wb ∧
      (drainMshrs s).waiting = s.waiting ∧ (drainMshrs s).cpu.bounds = s.cpu.bounds ∧
        checkInterrupts (drainMshrs s).cpu = checkInterrupts s.cpu ∧
          (drainMshrs s).cpu.wfiWaiting = s.cpu.wfiWaiting := by
  unfold drainMshrs
  split
  · exact ⟨rfl, rfl, rfl, rfl, rfl, rfl, rfl⟩
  · exact ⟨rfl, rfl, rfl, rfl, rfl, rfl, rfl⟩

theorem drainMshrs_front (h : s.cpu.l1dMshrs.Ok) : ∀ x ∈ (drainMshrs s).eng.mem1Mem2,
    ∃ x' ∈ s.eng.mem1Mem2 ++ s.cpu.l1dMshrs.parked, ∃ now, x = { x' with completeCycle := now } := by
  unfold drainMshrs
  by_cases hc : s.cpu.l1dMshrs.capacity = 0
  · rw [if_pos hc]
    exact fun x hx => ⟨x, List.mem_append_left _ hx, x.completeCycle, rfl⟩
  · rw [if_neg hc]
    intro x hx
    rcases List.mem_append.mp hx with hx | hx
    · exact ⟨x, List.mem_append_left _ hx, x.completeCycle, rfl⟩
    · have hun : x ∈ O3.unpark s.eng.cycle (s.cpu.l1dMshrs.drainCompletions s.eng.cycle).1 := hx
      obtain ⟨x', hx', rfl⟩ := mem_unpark hun
      have hin := (MshrFile.drain_parked h s.eng.cycle).2.mem_iff.mp (List.mem_append_left _ hx')
      exact ⟨x', List.mem_append_right _ hin, s.eng.cycle, rfl⟩

theorem memory1_frame (s : InOrderState U) : (memory1 s).eng.rob = s.eng.rob ∧
    (memory1 s).eng.mem2Wb = s.eng.mem2Wb ∧ (memory1 s).waiting = s.waiting := by
  unfold memory1
  split <;> exact ⟨rfl, rfl, rfl⟩

theorem issue_frame (s : InOrderState U) : (issue s).2.eng.rob.tags = s.eng.rob.tags ∧
    (issue s).2.eng.mem2Wb = s.eng.mem2Wb := by
  unfold issue
  split
  · exact ⟨rfl, rfl⟩
  · exact ⟨(executeBundle_spec _ _ s.cpu s.eng.rob _).upd.tags, rfl⟩

/-- What asks for a flush was waiting. -/
theorem issue_keep (h : (issue s).1 = true) : ∃ last, (issue s).2.eng.executeMem1.getLast? = some last ∧
    last.robTag ∈ s.waiting.map (·.robTag) := by
  by_cases he : s.eng.executeMem1.isEmpty = true
  · have hnil : s.eng.executeMem1 = [] := List.isEmpty_iff.mp he
    obtain ⟨k, -, ht⟩ := select_spec s.eng.rob s.eng.sb s.cpu s.eng.width s.eng.queue
    have hx := executeBundle_spec (inflightFpFlags s.eng) 0 s.cpu s.eng.rob
      (select s.eng.rob s.eng.sb s.cpu s.eng.width s.eng.queue).1
    have hissue : issue s = (true, (issue s).2) := Prod.ext h rfl
    have hresults : (issue s).2.eng.executeMem1 = (executeBundle (inflightFpFlags s.eng) 0 s.cpu s.eng.rob
        (select s.eng.rob s.eng.sb s.cpu s.eng.width s.eng.queue).1).1 := by
      unfold issue
      rw [he]
      dsimp only [Bool.not_true]
      rw [hnil]
      rfl
    have hflush : (executeBundle (inflightFpFlags s.eng) 0 s.cpu s.eng.rob
        (select s.eng.rob s.eng.sb s.cpu s.eng.width s.eng.queue).1).2.1 = true := by
      unfold issue at h
      rw [he] at h
      exact h
    have hne := hx.some hflush
    rw [hresults]
    refine ⟨_, List.getLast?_eq_some_getLast hne, ?_⟩
    have hin := List.mem_map_of_mem (f := fun x : ExMem1Entry => x.robTag) (List.getLast_mem hne)
    rw [hx.tags] at hin
    have hsel : ((select s.eng.rob s.eng.sb s.cpu s.eng.width s.eng.queue).1).map (·.robTag) =
        (s.eng.queue.take k).map (·.robTag) := picked_tags ht
    have hin' := hsel ▸ ((List.take_sublist _ _).map _).subset hin
    unfold InOrderState.waiting
    rw [List.map_append]
    exact List.mem_append_left _ (((List.take_sublist k _).map _).subset hin')
  · unfold issue at h
    rw [Bool.not_eq_true] at he
    rw [he] at h
    exact absurd h Bool.false_ne_true

omit [Units U] in
theorem rob_recover {last : ExMem1Entry} (h : s.eng.executeMem1.getLast? = some last) :
    (recover s).eng.rob = s.eng.rob.flushAfter last.robTag := by
  unfold recover
  dsimp only
  rw [h]

omit [Units U] in
theorem recover_frame (s : InOrderState U) : (recover s).eng.rob.entries <+: s.eng.rob.entries ∧
    (recover s).eng.mem2Wb = s.eng.mem2Wb ∧ (recover s).waiting = [] := by
  unfold recover InOrderState.waiting
  dsimp only
  split
  · exact ⟨Rob.keepThrough_prefix _ _, rfl, rfl⟩
  · exact ⟨List.prefix_rfl, rfl, rfl⟩

/-! ### What stands where -/

omit [Units U] in
theorem tag_of_flyTags (h : InOrderInv s) {t : RobTag} (ht : t ∈ s.flyTags) : t ∈ s.eng.rob.tags := by
  obtain ⟨done, hsplit, hfly⟩ := h.split
  rw [hsplit]
  exact List.mem_append_left _ (hfly t ht)

omit [Units U] in
/-- What waits, what is in front of memory2 and what is behind it. -/
theorem sound (h : InOrderInv s) : s.deviceView.Sound (s.waiting.map (·.robTag)) := by
  have htags : s.flyTags = s.eng.executeMem1.map (·.robTag) ++ (s.eng.mem1Mem2.map (·.robTag) ++
      (s.eng.mem2Wb.map (·.robTag) ++ s.cpu.l1dMshrs.parked.map (·.robTag))) := by
    unfold InOrderState.flyTags InOrderState.flying
    simp only [List.map_append, List.map_map]
    rfl
  have hnd := h.flyNodup
  rw [htags] at hnd
  obtain ⟨-, hmem, -⟩ := List.nodup_append.mp hnd
  obtain ⟨hnodup, hpast⟩ := DeviceView.nodup_front hmem
  have hfront : s.deviceView.front.map (·.robTag) =
      s.eng.mem1Mem2.map (·.robTag) ++ s.cpu.l1dMshrs.parked.map (·.robTag) := List.map_append
  rw [← hfront] at hnodup hpast
  have hin : ∀ t ∈ s.deviceView.front.map (·.robTag),
      t ∈ s.eng.mem1Mem2.map (·.robTag) ∨ t ∈ s.cpu.l1dMshrs.parked.map (·.robTag) := fun t ht =>
    List.mem_append.mp (hfront ▸ ht)
  have hfly : ∀ t ∈ s.deviceView.front.map (·.robTag), t ∈ s.flyTags := by
    intro t ht
    rw [htags]
    simp only [List.mem_append]
    rcases hin t ht with ht | ht
    · exact Or.inr (Or.inl ht)
    · exact Or.inr (Or.inr (Or.inr ht))
  refine ⟨h.nodup, hnodup, fun t ht hp => ?_, fun t ht hf => h.apart (hfly t hf) ht, fun t ht => ?_⟩
  · rcases List.mem_append.mp ht with ht | ht
    · have hp' : t ∈ s.eng.mem2Wb.map (·.robTag) := hp
      refine h.apart ?_ ht
      rw [htags]
      simp only [List.mem_append]
      exact Or.inr (Or.inr (Or.inl hp'))
    · exact hpast t ht hp
  · rcases List.mem_append.mp ht with ht | ht
    · have hmemb : t ∈ s.eng.rob.tags := by
        obtain ⟨done, hsplit, -⟩ := h.split
        rw [hsplit]
        exact List.mem_append_right _ ht
      obtain ⟨e, he, rfl⟩ := List.mem_map.mp hmemb
      exact ⟨e, he, rfl, fun hc => absurd ((h.issued e he ht).symm.trans hc) (by decide)⟩
    · obtain ⟨e, he, rfl⟩ := List.mem_map.mp (tag_of_flyTags h (hfly t ht))
      exact ⟨e, he, rfl, h.unfinished e he (hfly _ ht)⟩

theorem reachingMem2_some (hm : reachingMem2 s = some m) : (commit (drainMshrs (start s))).1 = none ∧
    m = writing (commit (drainMshrs (start s))).2 (writebackStage (commit (drainMshrs (start s))).2.eng.rob
      (commit (drainMshrs (start s))).2.eng.mem2Wb) [] := by
  unfold reachingMem2 at hm
  dsimp only at hm
  generalize commit (drainMshrs (start s)) = r at hm ⊢
  obtain ⟨trap, s'⟩ := r
  cases trap with
  | some te => exact absurd hm (by simp)
  | none =>
    dsimp only at hm ⊢
    rw [Option.ite_none_left_eq_some] at hm
    exact ⟨rfl, (Option.some.inj hm.2).symm⟩

theorem reachingMem2_inv (h : InOrderInv s) (hm : reachingMem2 s = some m) :
    InOrderInv (commit (drainMshrs (start s))).2 ∧ InOrderInv m := by
  obtain ⟨hnone, rfl⟩ := reachingMem2_some hm
  have hc := commit_inv (drainMshrs_inv (start_inv h)) hnone
  exact ⟨hc, writeback_inv hc⟩

/-- What memory2 finds in the buffer is what commit has left there. -/
theorem reachingMem2_tags (hm : reachingMem2 s = some m) :
    m.eng.rob.tags = (commit (drainMshrs (start s))).2.eng.rob.tags := by
  obtain ⟨-, rfl⟩ := reachingMem2_some hm
  exact tags_writebackStage _ _

/-- **What memory2 takes** stood in front of it when the tick began. -/
theorem reaches (h : InOrderInv s) (hm : reachingMem2 s = some m) :
    s.deviceView.Reaches (commit (drainMshrs (start s))).2.eng.rob ⟨m.cpu, m.eng.sb, none, none⟩ m.eng.mem1Mem2 := by
  have hsound := sound (reachingMem2_inv h hm).2
  have htags := reachingMem2_tags hm
  obtain ⟨-, hsb, -, -, hb, -⟩ := drainMshrs_frame (start s)
  have heases := commitStage_eases (drainMshrs (start s)).committing (drainMshrs (start s)).eng.width
  have hlatch := drainMshrs_front (s := start s) h.mshrs
  obtain ⟨-, heq⟩ := reachingMem2_some hm
  have hbuf : ∀ x ∈ m.eng.mem1Mem2, x.robTag ∈ m.eng.rob.tags := fun x hx =>
    hsound.mem_tags (List.mem_append_right _ (List.mem_map_of_mem (List.mem_append_left _ hx)))
  have hnd := hsound.front
  have hview : m.deviceView.front = m.eng.mem1Mem2 ++ m.cpu.l1dMshrs.parked := rfl
  rw [hview, List.map_append] at hnd
  refine ⟨?_, ?_, fun t ht => absurd ht List.not_mem_nil, fun x hx => hlatch x ?_, (List.nodup_append.mp hnd).1,
    fun x hx => htags ▸ hbuf x hx⟩
  · rw [heq]
    exact heases.bounds.trans hb
  · rw [heq]
    have hsb' := heases.sb
    have hsame : (drainMshrs (start s)).committing.sb = s.eng.sb := hsb
    rw [hsame] at hsb'
    exact hsb'
  · rw [heq] at hx
    exact hx

/-! ### What a tick does to the log -/

/-- The tick, as the log sees it. -/
def deviceTick (s : InOrderState U) : DeviceTick :=
  .ofRobs s.deviceView (commit (drainMshrs (start s))).2.eng.rob (tick s).eng.rob <|
    (reachingMem2 s).elim [] fun m => mem2Devices ⟨m.cpu, m.eng.sb, none, none⟩ (sortByRawTag m.eng.mem1Mem2)

/-- Memory1, issue and dispatch leave the buffer, or squash behind an instruction that waited. -/
theorem tags_issueRest (s : InOrderState U) : ∀ t : InOrderState U, t = (match issue (memory1 s) with
      | (true, s) => recover s
      | (false, s) => { s with eng := dispatch s.eng s.renameOutput, renameOutput := [] }) →
    t.eng.rob.tags = s.eng.rob.tags ∨ ∃ keep ∈ s.waiting.map (·.robTag), ∃ r : Rob, r.tags = s.eng.rob.tags ∧
      t.eng.rob = r.flushAfter keep := by
  rintro t rfl
  obtain ⟨hrob, -, hwait⟩ := memory1_frame s
  have htags := (issue_frame (memory1 s)).1.trans (congrArg Rob.tags hrob)
  have hkeep := issue_keep (s := memory1 s)
  rw [hwait] at hkeep
  generalize issue (memory1 s) = r at htags hkeep ⊢
  obtain ⟨fl, s'⟩ := r
  cases fl with
  | false => exact Or.inl htags
  | true =>
    obtain ⟨last, hlast, hin⟩ := hkeep rfl
    exact Or.inr ⟨last.robTag, hin, s'.eng.rob, htags, rob_recover hlast⟩

/-- The buffer at the end of a tick that reaches memory2. -/
theorem tags_reaching (hm : reachingMem2 s = some m) :
    (tick s).eng.rob.tags = (commit (drainMshrs (start s))).2.eng.rob.tags ∨
      ∃ keep ∈ s.waiting.map (·.robTag), ∃ r : Rob, r.tags = (commit (drainMshrs (start s))).2.eng.rob.tags ∧
        (tick s).eng.rob = r.flushAfter keep := by
  have hwait : (memory2 m).waiting = s.waiting := by
    have hdrain := (drainMshrs_frame (start s)).2.2.2.1
    obtain ⟨-, rfl⟩ := reachingMem2_some hm
    exact hdrain
  have hrob : (memory2 m).eng.rob = m.eng.rob := rfl
  have htags := (congrArg Rob.tags hrob).trans (reachingMem2_tags hm)
  rcases tick_reaching s with ⟨hnone, -, -⟩ | ⟨m', hm', -, htick⟩
  · rw [hnone] at hm
    exact absurd hm (by simp)
  · rw [hm] at hm'
    obtain rfl := Option.some.inj hm'
    have hrest := tags_issueRest (memory2 m) _ htick
    rw [hwait, htags] at hrest
    exact hrest

/-- Behind commit the buffer only shrinks. -/
theorem tick_tags (s : InOrderState U) :
    (tick s).eng.rob.tags.Sublist (commit (drainMshrs (start s))).2.eng.rob.tags := by
  rcases tick_reaching s with ⟨-, -, hnil⟩ | ⟨m, hm, -, -⟩
  · rw [hnil]
    exact List.nil_sublist _
  · rcases tags_reaching hm with htags | ⟨keep, -, r, hr, htags⟩
    · rw [htags]
    · rw [htags, ← hr]
      exact r.tags_flushAfter keep

/-- **The tick** takes finished entries off the head, and memory2 passes loads that were about to read. -/
theorem deviceTick_from (h : InOrderInv s) (ho : s.deviceView.Orderly pend) :
    (deviceTick s).From s.deviceView (commit (drainMshrs (start s))).2.eng.rob := by
  have hrob : (drainMshrs (start s)).committing.rob = s.deviceView.rob := (drainMshrs_frame (start s)).1
  refine DeviceTick.ofRobs_from hrob (tick_tags s) ?_
  cases hm : reachingMem2 s with
  | none => exact DeviceView.Passes.nil _ _
  | some m => exact (reaches h hm).passes ho

/-- A load that has read stays in the buffer only if commit does not stop. -/
theorem reaching_of_pend (h : InOrderInv s) (ho : s.deviceView.Orderly pend) {x : RobTag × DeviceRead}
    (hx : x ∈ pend) (hin : x.1 ∈ (commit (drainMshrs (start s))).2.eng.rob.tags) : reachingMem2 s ≠ none := by
  obtain ⟨hrob, -, -, -, -, hint, hwait⟩ := drainMshrs_frame (start s)
  obtain ⟨htrap, hpc⟩ := ho.commits (sound h) (c := (drainMshrs (start s)).committing) hrob hint hwait hx hin
  have htrap' : (commit (drainMshrs (start s))).1 = none := htrap
  have hpc' : (commit (drainMshrs (start s))).2.cpu.pc = (drainMshrs (start s)).cpu.pc := hpc
  unfold reachingMem2
  dsimp only
  generalize commit (drainMshrs (start s)) = r at htrap' hpc'
  obtain ⟨trap, s'⟩ := r
  dsimp only at htrap' hpc'
  rw [htrap']
  dsimp only
  rw [if_neg (not_not.mpr hpc')]
  exact Option.some_ne_none _

/-- **No load that has read is squashed** in a tick from an orderly state. -/
theorem deviceTick_kept (h : InOrderInv s) (ho : s.deviceView.Orderly l.pend)
    (hal : Ledger.Along s.eng.rob.tags l.pend) : ∀ x ∈ l.held (deviceTick s), x.1 ∈ (tick s).eng.rob.tags := by
  have hf := deviceTick_from h ho
  have hv := sound h
  intro x hx
  have hmem := DeviceLog.mem_committed hf hv hal hx
  cases hm : reachingMem2 s with
  | none =>
    -- nothing is passed, and nothing that has read is left
    have hnotes : (deviceTick s).notes = [] := by
      show ((reachingMem2 s).elim [] _).map _ = []
      rw [hm]
      rfl
    unfold DeviceLog.held at hx
    rw [hnotes, List.append_nil] at hx
    exact absurd hm (reaching_of_pend h ho (List.mem_of_mem_filter hx) hmem)
  | some m =>
    rcases tags_reaching hm with htags | ⟨keep, hkeep, r, hr, htags⟩
    · rw [htags]
      exact hmem
    · have hfront := DeviceLog.held_inFront_waiting hf hv ho hal hkeep x hx
      rw [← hr] at hfront
      rw [htags]
      exact Rob.mem_flushAfter (hr.symm ▸ (reachingMem2_inv h hm).1.nodup) hfront

/-! ### Loads past memory2 -/

section

variable {F : RobTag → Option ControlSignals} {K : RobTag → Prop}

omit [Units U] in
theorem writeback_tracks (h : s.Tracks F K) :
    (writing s (writebackStage s.eng.rob s.eng.mem2Wb) []).Tracks F K := by
  have hloop : ∀ (wbs : List Mem2WbEntry) (rob : Rob), (writing s rob wbs).Tracks F K →
      (writing s (wbs.foldl writebackOne rob) []).Tracks F K := by
    intro wbs
    induction wbs with
    | nil => exact fun _ h => h
    | cons wb wbs ih =>
      intro rob h
      refine ih (writebackOne rob wb) ?_
      have hin : (wb.robTag, wb.ctrl) ∈ (writing s rob (wb :: wbs)).signals :=
        List.mem_append_right _ (InOrderState.mem_carried.mpr (Or.inr (Or.inr (Or.inl ⟨wb, List.mem_cons_self, rfl⟩))))
      exact h.writebackOne hin (InOrderState.signals_of_steady (writing_carried .signals rob _ wb wbs) fun _ hw => hw)
  exact hloop s.eng.mem2Wb s.eng.rob h

theorem memory1_tracks (hinv : InOrderInv s) (h : s.Tracks F K) : (memory1 s).Tracks F K := by
  obtain ⟨hrob, hwb, hwait⟩ := memory1_frame s
  refine h.front ?_ (InOrderState.signals_of_steady ((memory1_steady hinv).carried .signals) fun w hw => hwait ▸ hw) ?_
  · rw [hrob]
  · rw [hwb]
    exact fun _ h => h

/-- **The bundle** completes nothing, and its results have the signals of what it executes. -/
theorem executeBundle_tracks {cs : List (RobTag × ControlSignals)} {wbs : List Mem2WbEntry} (inflight : U8)
    (es : List RenameIssueEntry) (batch : U8) (cpu : Cpu U) (rob : Rob) (h : Tracked F K rob cs wbs)
    (hin : ∀ w ∈ es, (w.robTag, w.ctrl) ∈ cs) : let r := executeBundle inflight batch cpu rob es
    Tracked F K r.2.2.2 cs wbs ∧ ∀ x ∈ r.1, (x.robTag, x.ctrl) ∈ cs := by
  induction es generalizing batch cpu rob with
  | nil => exact ⟨h, fun _ hx => absurd hx List.not_mem_nil⟩
  | cons id rest ih =>
    have hx := executeEntry_executed cpu id rob (inflight ||| batch)
    have hone : Tracked F K (executeEntry cpu id rob (inflight ||| batch)).rob cs wbs :=
      h.settles hx.settles (fun _ hx => absurd hx List.not_mem_nil) (fun _ hx => hx) fun _ hwb => hwb
    have hres : ((executeEntry cpu id rob (inflight ||| batch)).result.robTag,
        (executeEntry cpu id rob (inflight ||| batch)).result.ctrl) ∈ cs := by
      rw [hx.tag, hx.ctrl]
      exact hin id List.mem_cons_self
    rw [executeBundle]
    revert hone hres
    generalize executeEntry cpu id rob (inflight ||| batch) = o
    intro hone hres
    dsimp only
    split
    · refine ⟨hone, fun x hx => ?_⟩
      rw [List.mem_singleton.mp hx]
      exact hres
    · obtain ⟨hrest, hall⟩ := ih (batch ||| o.result.fpFlags) o.cpu o.rob hone fun w hw =>
        hin w (List.mem_cons_of_mem _ hw)
      refine ⟨hrest, fun x hx => ?_⟩
      rcases List.mem_cons.mp hx with rfl | hx
      · exact hres
      · exact hall x hx

theorem issue_tracks (h : s.Tracks F K) : (issue s).2.Tracks F K := by
  by_cases he : s.eng.executeMem1 = []
  · obtain ⟨k, hd, ht⟩ := select_spec s.eng.rob s.eng.sb s.cpu s.eng.width s.eng.queue
    have hfr := (executeBundle_spec (inflightFpFlags s.eng) 0 s.cpu s.eng.rob
      (select s.eng.rob s.eng.sb s.cpu s.eng.width s.eng.queue).1).frame
    have hpicked : ∀ w ∈ (select s.eng.rob s.eng.sb s.cpu s.eng.width s.eng.queue).1,
        (w.robTag, w.ctrl) ∈ s.signals := by
      intro w hw
      obtain ⟨w', hw', hb⟩ := picked_mem ht w hw
      have hsame : (w'.bare.robTag, w'.bare.ctrl) = (w.bare.robTag, w.bare.ctrl) := by rw [hb]
      refine List.mem_append_left _ (List.mem_map.mpr ⟨w', ?_, hsame⟩)
      exact List.mem_append_left _ (List.mem_of_mem_take hw')
    obtain ⟨htrack, hres⟩ := executeBundle_tracks (inflightFpFlags s.eng) _ 0 s.cpu s.eng.rob h hpicked
    unfold issue executeInorder
    rw [if_neg (by simp [he])]
    dsimp only
    revert hfr htrack hres
    generalize executeBundle (inflightFpFlags s.eng) 0 s.cpu s.eng.rob
      (select s.eng.rob s.eng.sb s.cpu s.eng.width s.eng.queue).1 = r
    obtain ⟨results, fl, cpu', rob'⟩ := r
    intro hfr htrack hres
    dsimp only at hfr htrack hres ⊢
    refine htrack.front List.prefix_rfl (fun x hx => ?_) fun _ hwb => hwb
    rcases List.mem_append.mp hx with hx | hx
    · obtain ⟨w, hw, rfl⟩ := List.mem_map.mp hx
      refine List.mem_append_left _ (List.mem_map_of_mem ?_)
      unfold InOrderState.waiting at hw ⊢
      dsimp only at hw
      rw [hd] at hw
      exact (List.mem_append.mp hw).elim (fun hw => List.mem_append_left _ (List.mem_of_mem_drop hw))
        (List.mem_append_right _)
    · rw [InOrderState.mem_carried] at hx
      dsimp only at hx
      rw [he, List.nil_append, hfr.mshrs] at hx
      rcases hx with ⟨e, hex, rfl⟩ | hx
      · exact hres e hex
      · exact List.mem_append_right _ (InOrderState.mem_carried.mpr (Or.inr hx))
  · have hi : issue s = (false, s) := by
      unfold issue
      rw [if_pos (by simpa using he)]
    rw [hi]
    exact h

/-- **Behind memory2** loads only leave. -/
theorem issueRest_tracks (h : s.Tracks F K) : (match issue s with
      | (true, s) => recover s
      | (false, s) => { s with eng := dispatch s.eng s.renameOutput, renameOutput := [] } :
        InOrderState U).Tracks F K := by
  have hissue := issue_tracks h
  generalize issue s = r at hissue ⊢
  obtain ⟨fl, s'⟩ := r
  cases fl with
  | true =>
    obtain ⟨hrob, hwb, hwait⟩ := recover_frame s'
    refine hissue.front hrob (InOrderState.signals_of_steady ((recover_steady s').carried .signals) fun w hw => ?_) ?_
    · rw [hwait] at hw
      exact absurd hw List.not_mem_nil
    · rw [hwb]
      exact fun _ h => h
  | false =>
    refine hissue.front List.prefix_rfl (InOrderState.signals_of_steady (fun _ hx => hx) fun w hw => ?_)
      fun _ hwb => hwb
    simp only [InOrderState.waiting, dispatch, List.append_nil, List.mem_append] at hw ⊢
    exact hw.imp_right List.mem_of_mem_take

/-- A tick that ends before memory2 leaves what rename has handed over, and nothing else. -/
theorem tick_squashed (h : reachingMem2 s = none) : (tick s).eng.rob.entries = [] ∧ (tick s).eng.mem2Wb = [] ∧
    ∀ x ∈ (tick s).signals, x ∈ s.signals := by
  have hflushed : ∀ t : InOrderState U, t.eng.executeMem1 = [] → t.eng.mem1Mem2 = [] → t.eng.mem2Wb = [] →
      t.cpu.l1dMshrs.parked = [] → t.eng.queue = [] → (∀ w ∈ t.renameOutput, w ∈ s.renameOutput) →
      ∀ x ∈ t.signals, x ∈ s.signals := by
    intro t he h1 h2 hm hq ho x hx
    rcases List.mem_append.mp hx with hx | hx
    · obtain ⟨w, hw, rfl⟩ := List.mem_map.mp hx
      unfold InOrderState.waiting at hw
      rw [hq, List.nil_append] at hw
      exact List.mem_append_left _ (List.mem_map_of_mem (List.mem_append_right _ (ho w hw)))
    · simp only [InOrderState.mem_carried, he, h1, h2, hm, List.not_mem_nil, false_and, exists_false, or_false] at hx
  have hdrain : (drainMshrs (start s)).renameOutput = s.renameOutput := by
    unfold drainMshrs
    split <;> rfl
  have hout : (commit (drainMshrs (start s))).2.renameOutput = s.renameOutput := hdrain
  unfold reachingMem2 at h
  unfold tick
  dsimp only at h ⊢
  generalize commit (drainMshrs (start s)) = r at h hout ⊢
  obtain ⟨trap, s₁⟩ := r
  dsimp only at hout
  cases trap with
  | some te =>
    obtain ⟨t, epc⟩ := te
    refine ⟨rfl, rfl, hflushed _ rfl rfl rfl ?_ rfl fun w hw => hout ▸ hw⟩
    have hm : (takeTrap s₁ t epc).cpu.l1dMshrs = s₁.cpu.l1dMshrs.flush := (Cpu.trap_frame _ t epc).mshrs
    dsimp only
    rw [hm]
    exact MshrFile.flush_parked.2
  | none =>
    dsimp only at h ⊢
    by_cases hpc : s₁.cpu.pc ≠ (drainMshrs (start s)).cpu.pc
    · rw [if_pos hpc]
      exact ⟨rfl, rfl, hflushed _ rfl rfl rfl MshrFile.flush_parked.2 rfl fun w hw => absurd hw List.not_mem_nil⟩
    · rw [if_neg hpc] at h
      exact absurd h (Option.some_ne_none _)

/-- Commit leaves what waits and what the latches carry. -/
theorem commit_signals (h : InOrderInv s) : ∀ x ∈ (commit (drainMshrs (start s))).2.signals, x ∈ s.signals := by
  obtain ⟨-, -, -, hwait, -⟩ := drainMshrs_frame (start s)
  have hparked : (commit (drainMshrs (start s))).2.cpu.l1dMshrs = (drainMshrs (start s)).cpu.l1dMshrs :=
    commitStage_mshrs _ _
  have hcommit : ∀ x ∈ (commit (drainMshrs (start s))).2.signals, x ∈ (drainMshrs (start s)).signals := by
    refine InOrderState.signals_of_steady (fun y hy => ?_) fun w hw => hw
    rw [InOrderState.mem_carried, hparked] at hy
    exact InOrderState.mem_carried.mpr hy
  intro x hx
  have hdrained := hcommit x hx
  exact InOrderState.signals_of_steady (s := start s) ((drainMshrs_steady (start_inv h)).carried .signals)
    (fun w hw => hwait ▸ hw) x hdrained

omit [Units U] in
/-- All of this is in the buffer. -/
theorem tag_of_signals (h : InOrderInv s) {x : RobTag × ControlSignals} (hx : x ∈ s.signals) :
    x.1 ∈ s.eng.rob.tags := by
  rcases List.mem_append.mp hx with hx | hx
  · obtain ⟨w, hw, rfl⟩ := List.mem_map.mp hx
    obtain ⟨done, hsplit, -⟩ := h.split
    rw [hsplit]
    exact List.mem_append_right _ (List.mem_map_of_mem hw)
  · have hcoming : ∃ y ∈ s.coming, y.1 = x.1 := by
      have hin : ∀ y : RobTag × Option U64, y ∈ s.carried .result → y ∈ s.coming := fun _ h => h
      rcases InOrderState.mem_carried.mp hx with ⟨e, he, rfl⟩ | ⟨e, he, rfl⟩ | ⟨e, he, rfl⟩ | ⟨e, he, rfl⟩
      · exact ⟨e.coming, hin _ (InOrderState.mem_carried.mpr (Or.inl ⟨e, he, rfl⟩)), rfl⟩
      · exact ⟨e.coming, hin _ (InOrderState.mem_carried.mpr (Or.inr (Or.inl ⟨e, he, rfl⟩))), rfl⟩
      · exact ⟨e.coming, hin _ (InOrderState.mem_carried.mpr (Or.inr (Or.inr (Or.inl ⟨e, he, rfl⟩)))), rfl⟩
      · exact ⟨e.coming, hin _ (InOrderState.mem_carried.mpr (Or.inr (Or.inr (Or.inr ⟨e, he, rfl⟩)))), rfl⟩
    obtain ⟨y, hy, hyx⟩ := hcoming
    exact hyx ▸ tag_of_coming h hy

omit [Units U] in
theorem mem2Wb_tags (h : InOrderInv s) : ∀ wb ∈ s.eng.mem2Wb, wb.robTag ∈ s.eng.rob.tags := fun wb hwb =>
  tag_of_signals h (x := (wb.robTag, wb.ctrl)) (List.mem_append_right _ (InOrderState.mem_carried.mpr
    (Or.inr (Or.inr (Or.inl ⟨wb, hwb, rfl⟩)))))

/-- **Through a tick** that reaches memory2. -/
theorem tick_tracks (h : InOrderInv s) (hm : reachingMem2 s = some m)
    (hf : (deviceTick s).From s.deviceView (commit (drainMshrs (start s))).2.eng.rob)
    (htrack : s.Tracks F (DeviceLog.Knows F l.landings l.pend)) :
    InOrderInv (tick s) ∧ (tick s).Tracks F (DeviceLog.Knows F (l.after (deviceTick s)).landings
      (l.held (deviceTick s))) := by
  have hv := sound h
  obtain ⟨hcommit, hminv⟩ := reachingMem2_inv h hm
  have hreach := reaches h hm
  have hpassed : (deviceTick s).passed = mem2Devices ⟨m.cpu, m.eng.sb, none, none⟩ (sortByRawTag m.eng.mem1Mem2) := by
    show (reachingMem2 s).elim [] _ = _
    rw [hm]
    rfl
  have hsig : ∀ m ∈ s.deviceView.front, F m.robTag = some m.ctrl := fun m hm =>
    htrack.signals _ (InOrderState.signals_of_mem hm)
  have hlatch : (commit (drainMshrs (start s))).2.eng.mem2Wb = s.eng.mem2Wb := (drainMshrs_frame (start s)).2.2.1
  have hbegin : Tracked F (DeviceLog.Knows F l.landings l.pend) s.deviceView.rob s.signals
      (commit (drainMshrs (start s))).2.eng.mem2Wb := by
    rw [hlatch]
    exact htrack
  have hcommitted : (commit (drainMshrs (start s))).2.Tracks F
      (DeviceLog.Knows F (l.after (deviceTick s)).landings (l.held (deviceTick s))) :=
    DeviceLog.Knows.committed hbegin hf hv (fun wb hwb => List.mem_map_of_mem (hlatch ▸ hwb)) (mem2Wb_tags hcommit)
      (commit_signals h)
  obtain ⟨-, hmeq⟩ := reachingMem2_some hm
  have hreached : m.Tracks F (DeviceLog.Knows F (l.after (deviceTick s)).landings (l.held (deviceTick s))) := by
    rw [hmeq]
    exact writeback_tracks hcommitted
  have hwb : m.eng.mem2Wb = [] := by
    rw [hmeq]
    rfl
  have hmem : (memory2 m).Tracks F (DeviceLog.Knows F (l.after (deviceTick s)).landings (l.held (deviceTick s))) := by
    unfold InOrderState.Tracks at hreached
    rw [hwb] at hreached
    exact DeviceLog.Knows.memory2 hreached hf hv hreach hpassed hsig
      (InOrderState.signals_of_steady ((memory2_steady m).carried .signals) fun _ hw => hw)
  have hinv := tickRest_inv hcommit
  rcases tick_reaching s with ⟨hnone, -, -⟩ | ⟨m', hm', -, htick⟩
  · rw [hnone] at hm
    exact absurd hm (by simp)
  · rw [hm] at hm'
    obtain rfl := Option.some.inj hm'
    rw [tickRest_eq, ← hmeq] at hinv
    rw [htick]
    exact ⟨hinv, issueRest_tracks (memory1_tracks (memory2_inv hminv hwb) hmem)⟩

/-- **An orderly tick** serves the loads that commit, and its log accounts for what is in flight. -/
theorem tick_served (h : InOrderInv s) (ho : s.deviceView.Orderly l.pend) (hex : l.Exact s.eng.rob.tags)
    (hacc : l.Accounts s.eng.rob s.signals s.eng.mem2Wb) :
    (l.after (deviceTick s)).Exact (tick s).eng.rob.tags ∧
      (l.after (deviceTick s)).Accounts (tick s).eng.rob (tick s).signals (tick s).eng.mem2Wb := by
  have hf := deviceTick_from h ho
  have hv := sound h
  have hkept := deviceTick_kept h ho hex.along
  obtain ⟨F, htrack, hrec⟩ := hacc
  have hrec' := hrec.held hf hv ho hex.along fun m hm => htrack.signals _ (InOrderState.signals_of_mem hm)
  constructor
  · obtain ⟨hlive, hserved⟩ := DeviceLog.served hf hv ho hex.along htrack hrec hkept
    exact DeviceLog.after_exact (hlive ▸ hex) hserved
  · cases hm : reachingMem2 s with
    | none =>
      obtain ⟨hrob, hwb, hsub⟩ := tick_squashed hm
      refine DeviceLog.Accounts.after (htrack.emptied hrob hwb hsub) hrec' rfl ?_
      rw [hwb]
      exact fun _ h => absurd h List.not_mem_nil
    | some m =>
      obtain ⟨hinv, htracks⟩ := tick_tracks h hm hf htrack
      exact DeviceLog.Accounts.after htracks hrec' rfl (mem2Wb_tags hinv)

end

end

end InOrder

/-! ### Runs -/

namespace InOrderPipeline

variable [Units U]

/-- The log behind the next tick of the engine, if the machine has not exited. -/
def logAfter (p : InOrderPipeline U) (l : DeviceLog) : DeviceLog :=
  p.toTick.elim l fun s => l.after (InOrder.deviceTick s)

/-- The condition on the state in which the engine's next tick begins. -/
def Orderly (p : InOrderPipeline U) (l : DeviceLog) : Prop :=
  p.core.SpanOk ∧ ∀ s ∈ p.toTick, s.deviceView.Orderly l.pend

omit [Units U] in
instance (s : InOrderState U) : Decidable s.SpanOk := decidable_of_iff _ (spanOk_iff s)

instance (p : InOrderPipeline U) (l : DeviceLog) : Decidable (p.Orderly l) :=
  inferInstanceAs (Decidable (_ ∧ ∀ s ∈ _, _))

/-- A run whose steps meet `S`, with its log. -/
inductive LoggedRun (cfg : Config) (S : InOrderPipeline U → DeviceLog → Prop) :
    InOrderPipeline U → DeviceLog → Prop where
  | init (cpu : Cpu U) (h : O3Pipeline.Loaded cfg cpu) : LoggedRun cfg S (InOrderPipeline.init cfg cpu) {}
  | tick (p : InOrderPipeline U) (l : DeviceLog) (h : LoggedRun cfg S p l) (hs : S p l) :
      LoggedRun cfg S p.tick (p.logAfter l)

section

variable {p : InOrderPipeline U}

omit [Units U] in
/-- What a run keeps. -/
structure Logs (p : InOrderPipeline U) (l : DeviceLog) : Prop where
  accounts : l.Accounts p.core.eng.rob p.core.signals p.core.eng.mem2Wb
  decoded : ∀ id ∈ p.frontend.decodeRename, id.Sound

omit [Units U] in
theorem signals_ofCpu {s : InOrderState U} {cpu : Cpu U} (hf : s.cpu.Frame cpu) :
    ({ s with cpu := cpu } : InOrderState U).signals = s.signals := by
  unfold InOrderState.signals InOrderState.waiting InOrderState.carried
  dsimp only
  rw [hf.mshrs]

omit [Units U] in
theorem Logs.ofCpu (h : Logs p l) {cpu : Cpu U} (hf : p.core.cpu.Frame cpu) :
    Logs { p with core := { p.core with cpu := cpu } } l :=
  ⟨(signals_ofCpu hf).symm ▸ h.accounts, h.decoded⟩

/-- **The engine's tick** and the redirect. -/
theorem Logs.afterEngine (hinv : InOrderInv p.core) (h : Logs p l) (ho : p.core.deviceView.Orderly l.pend)
    (hex : l.Exact p.core.eng.rob.tags) : Logs p.afterEngine (l.after (InOrder.deviceTick p.core)) ∧
      (l.after (InOrder.deviceTick p.core)).Exact p.afterEngine.core.eng.rob.tags := by
  obtain ⟨hexact, hacc⟩ := InOrder.tick_served hinv ho hex h.accounts
  unfold InOrderPipeline.afterEngine InOrderPipeline.redirect
  dsimp only
  split
  · refine ⟨⟨hacc.steady List.prefix_rfl (InOrderState.signals_of_steady (fun x hx => hx) fun w hw => ?_)
      fun _ hwb => hwb, ?_⟩, hexact⟩
    · exact List.mem_append_left _ (by simpa [InOrderState.waiting] using hw)
    · simp [Frontend.flush]
  · exact ⟨⟨hacc, h.decoded⟩, hexact⟩

/-- **Rename** and the front end. -/
theorem Logs.frontendTick (hinv : InOrderInv p.core) (h : Logs p l) (hout : p.core.renameOutput = [])
    (hal : Ledger.Along p.core.eng.rob.tags l.pend) (hnd : p.frontendTick.core.eng.rob.tags.Nodup) :
    Logs p.frontendTick l := by
  obtain ⟨es, ws, hent, hissued, hwait, -, hdesc, -, hleft⟩ :=
    InOrder.renameLoop_adds (InOrder.canAccept p.core.eng) p.core p.frontend.decodeRename
      (InOrder.budget_canAccept hout hinv) h.decoded
  obtain ⟨rob, board, sb, heng⟩ :=
    (InOrder.renameLoop_frame (InOrder.canAccept p.core.eng) p.core p.frontend.decodeRename).eng
  have hcpu := InOrder.renameStage_cpu p.frontend.decodeRename hinv hout
  obtain ⟨u, pc, htick⟩ := Frontend.tickBehind_cpu
    { p.frontend with decodeRename := (InOrder.renameStage p.core p.frontend.decodeRename).1 }
    (InOrder.renameStage p.core p.frontend.decodeRename).2.cpu false
  have hsound := Frontend.tickBehind_sound (f := { p.frontend with
    decodeRename := (InOrder.renameStage p.core p.frontend.decodeRename).1 })
    (fun id hid => h.decoded id (hleft id hid)) (InOrder.renameStage p.core p.frontend.decodeRename).2.cpu false
  have hnew : ∀ x ∈ ws.map (fun w => (w.robTag, w.ctrl)), ∃ e ∈ es, x = (e.tag, e.ctrl) := by
    intro x hx
    obtain ⟨w, hw, rfl⟩ := List.mem_map.mp hx
    obtain ⟨e, he, htag, hd⟩ := hdesc w hw
    exact ⟨e, he, by rw [htag, hd.2.2]⟩
  have hbuf : (InOrder.renameStage p.core p.frontend.decodeRename).2.eng.rob.entries =
      p.core.eng.rob.entries.map id ++ es := by
    rw [List.map_id]
    exact hent
  have happ := h.accounts.append hbuf (fun _ => rfl) (fun _ => rfl) hissued hnd
    (fun x hx => InOrder.tag_of_signals hinv hx) (InOrder.mem2Wb_tags hinv) hal hnew
  have hcarried : (InOrder.renameStage p.core p.frontend.decodeRename).2.carried Carried.signals =
      p.core.carried Carried.signals := by
    unfold InOrderState.carried
    rw [hcpu]
    unfold InOrder.renameStage
    rw [heng]
  have hlogs : Logs { p with core := (InOrder.renameStage p.core p.frontend.decodeRename).2 } l := by
    refine ⟨happ.steady List.prefix_rfl (fun x hx => ?_) fun wb hwb => ?_, h.decoded⟩
    · rcases List.mem_append.mp hx with hx | hx
      · have hwait' : (InOrder.renameStage p.core p.frontend.decodeRename).2.waiting = p.core.waiting ++ ws := hwait
        rw [hwait', List.map_append] at hx
        rcases List.mem_append.mp hx with hx | hx
        · exact List.mem_append_left _ (List.mem_append_left _ hx)
        · exact List.mem_append_right _ hx
      · rw [hcarried] at hx
        exact List.mem_append_left _ (List.mem_append_right _ hx)
    · unfold InOrder.renameStage at hwb
      rw [heng] at hwb
      exact hwb
  have hframe : (InOrder.renameStage p.core p.frontend.decodeRename).2.cpu.Frame p.frontendTick.core.cpu := by
    unfold InOrderPipeline.frontendTick
    dsimp only
    rw [htick]
    exact ⟨rfl, rfl⟩
  exact ⟨(hlogs.ofCpu hframe).accounts, hsound⟩

theorem pipelineTick_tags (p : InOrderPipeline U) :
    ∃ new, p.pipelineTick.core.eng.rob.tags = p.afterEngine.core.eng.rob.tags ++ new := by
  rw [pipelineTick_eq]
  split
  · obtain ⟨new, hnew⟩ := (InOrder.renameLoop_frame (InOrder.canAccept p.afterEngine.core.eng) p.afterEngine.core
      p.afterEngine.frontend.decodeRename).tags
    exact ⟨new, hnew⟩
  · exact ⟨[], (List.append_nil _).symm⟩

/-- **A tick of the simulator.** -/
theorem Logs.tick (hinv : InOrderInv p.core) (h : Logs p l) (ho : p.Orderly l) (hex : l.Exact p.core.eng.rob.tags) :
    (p.logAfter l).Exact p.tick.core.eng.rob.tags ∧
      (InOrderInv p.tick.core → Logs p.tick (p.logAfter l)) := by
  have hpre := h.ofCpu (O3Pipeline.preTick_frame p.core.cpu)
  have hinvpre := hinv.ofCpu (O3Pipeline.preTick_frame p.core.cpu)
  obtain ⟨-, hview⟩ := ho
  unfold toTick at hview
  unfold logAfter toTick InOrderPipeline.tick
  rcases hr : p.core.cpu.preTick with ⟨skip, cpu⟩
  simp only [hr] at hpre hinvpre hview ⊢
  cases skip with
  | true =>
    simp only [if_true, Option.elim_none]
    exact ⟨hex, fun _ => hpre.ofCpu (O3Pipeline.postTick_frame _)⟩
  | false =>
    simp only [Bool.false_eq_true, if_false, Option.elim_some, Option.mem_def, Option.some.injEq, forall_eq'] at hview ⊢
    obtain ⟨hafter, hexact⟩ := Logs.afterEngine hinvpre hpre hview hex
    obtain ⟨heng, hout⟩ := @afterEngine_inv _ _ { p with core := { p.core with cpu := cpu } } hinvpre
    obtain ⟨new, hnew⟩ := pipelineTick_tags { p with core := { p.core with cpu := cpu } }
    refine ⟨?_, fun hinv' => Logs.ofCpu ?_ (O3Pipeline.postTick_frame _)⟩
    · rw [hnew]
      exact hexact.append new
    · have hnd := hinv'.nodup
      rw [pipelineTick_eq] at hnd ⊢
      generalize InOrderPipeline.afterEngine { p with core := { p.core with cpu := cpu } } = q
        at heng hout hafter hexact hnd ⊢
      by_cases hf : q.core.cpu.fetching
      · rw [if_pos hf] at hnd ⊢
        exact hafter.frontendTick heng hout hexact.along hnd
      · rw [if_neg hf]
        exact hafter

omit [Units U] in
theorem logs_init {cfg : Config} {cpu : Cpu U} (hl : O3Pipeline.Loaded cfg cpu) :
    Logs (InOrderPipeline.init cfg cpu) {} := by
  have hinv : InOrderInv (InOrderPipeline.init cfg cpu).core := init_inv hl
  refine ⟨(DeviceLog.accounts_init rfl).steady List.prefix_rfl (fun x hx => ?_) fun _ hwb => hwb,
    fun id hid => absurd hid List.not_mem_nil⟩
  exact absurd (InOrder.tag_of_signals hinv hx) List.not_mem_nil

/-- **Exactly once in a run** of which each tick begins in an orderly state. -/
theorem LoggedRun.exact {cfg : Config} (h : LoggedRun cfg Orderly p l) : l.Exact p.core.eng.rob.tags := by
  suffices hrun : (p.core.SpanOk → InOrderInv p.core ∧ Logs p l) ∧ l.Exact p.core.eng.rob.tags from hrun.2
  induction h with
  | init cpu hl => exact ⟨fun _ => ⟨init_inv hl, logs_init hl⟩, DeviceLog.exact_init _⟩
  | tick p l _ hs ih =>
    obtain ⟨hall, hex⟩ := ih
    obtain ⟨hinv, hlogs⟩ := hall hs.1
    obtain ⟨hexact, hlogs'⟩ := hlogs.tick hinv hs hex
    refine ⟨fun hspan => ?_, hexact⟩
    have hinv' := tick_inv hinv hspan
    exact ⟨hinv', hlogs' hinv'⟩

end

end InOrderPipeline

end Rvsim
