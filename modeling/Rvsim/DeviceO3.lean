/-
# Device loads in the out-of-order backend

A tick from an orderly state serves the device loads that commit: what memory2
takes is what stood in front of it when the tick began, commit stops neither
for a trap nor for a redirect while a load that has read is in the buffer, and
what a violation or a flush squashes lies behind these loads.

Key definitions:
  - `O3State.deviceView`, `O3.deviceTick`, `O3State.Tracks`
  - `O3Pipeline.Orderly`, `O3Pipeline.LoggedRun`
Key theorems:
  - `O3.sound`, `O3.reaches`, `O3.deviceTick_from`, `O3.deviceTick_kept`
  - `O3.tick_served`, `O3Pipeline.LoggedRun.exact`
-/
import Rvsim.DeviceFlight
import Rvsim.InstretO3

namespace Rvsim

variable {U : Type} {D : Prop} {total : Nat} {s s' m : O3State U} {l : DeviceLog} {pend : List (RobTag × DeviceRead)}

/-- What the condition reads of the engine. -/
def O3State.deviceView (s : O3State U) : DeviceView U where
  cpu := s.cpu
  rob := s.eng.rob
  sb := s.eng.sb
  loads := s.eng.lq.live
  front := s.eng.mem1Mem2 ++ s.cpu.l1dMshrs.parked
  past := s.eng.mem2Wb.map (·.robTag)

namespace O3State

/-- The control signals of what waits and of what the latches carry. -/
def signals (s : O3State U) : List (RobTag × ControlSignals) :=
  s.waiting.map (fun w => (w.robTag, w.ctrl)) ++ s.carried .signals

theorem signals_of_steady (hs : ∀ x ∈ s'.carried .signals, x ∈ s.carried .signals)
    (hw : ∀ w ∈ s'.waiting, w ∈ s.waiting) : ∀ x ∈ s'.signals, x ∈ s.signals := by
  intro x hx
  rcases List.mem_append.mp hx with hx | hx
  · obtain ⟨w, hw', rfl⟩ := List.mem_map.mp hx
    exact List.mem_append_left _ (List.mem_map_of_mem (hw w hw'))
  · exact List.mem_append_right _ (hs x hx)

theorem signals_of_mem {m : Mem1Mem2Entry} (h : m ∈ s.deviceView.front) : (m.robTag, m.ctrl) ∈ s.signals := by
  refine List.mem_append_right _ (mem_carried.mpr ?_)
  rcases List.mem_append.mp h with h | h
  · exact Or.inr (Or.inr (Or.inl ⟨m, h, rfl⟩))
  · exact Or.inr (Or.inr (Or.inr (Or.inr ⟨m, h, rfl⟩)))

/-- The table `F` has the signals of all that is in flight, and `K` holds of the loads past memory2. -/
def Tracks (F : RobTag → Option ControlSignals) (K : RobTag → Prop) (s : O3State U) : Prop :=
  Tracked F K s.eng.rob s.signals s.eng.mem2Wb

end O3State

namespace O3

/-! ### The buffer's tags through the tick -/

section

variable [Units U]

omit [Units U] in
/-- What writeback leaves as it is. -/
theorem writeback_frame (s : O3State U) : ∃ rob prf iq, writeback s =
    { s with eng := { s.eng with rob := rob, prf := prf, iq := iq, mem2Wb := [] } } ∧ rob.tags = s.eng.rob.tags := by
  have hfold : ∀ (wbs : List Mem2WbEntry) (eng : O3Engine), ∃ prf iq,
      wbs.foldl (fun eng wb => broadcast eng wb.rdPhys wb.result) eng = { eng with prf := prf, iq := iq } := by
    intro wbs
    induction wbs with
    | nil => exact fun eng => ⟨eng.prf, eng.iq, rfl⟩
    | cons wb wbs ih =>
      intro eng
      obtain ⟨prf, iq, heq⟩ := ih (broadcast eng wb.rdPhys wb.result)
      exact ⟨prf, iq, heq⟩
  obtain ⟨prf, iq, heq⟩ := hfold (s.eng.mem2Wb.filter fun wb => wb.trap.isNone)
    { s.eng with rob := writebackStage s.eng.rob s.eng.mem2Wb, mem2Wb := [] }
  refine ⟨writebackStage s.eng.rob s.eng.mem2Wb, prf, iq, ?_, tags_writebackStage _ _⟩
  unfold writeback
  dsimp only
  rw [heq]

theorem rob_drainMshrs (s : O3State U) : (drainMshrs s).eng.rob = s.eng.rob := by
  unfold drainMshrs
  split <;> rfl

/-- Memory2 leaves its latches to the predictor. -/
theorem foldl_storeResolved_frame (wbs : List Mem2WbEntry) (s : O3State U) :
    (wbs.foldl storeResolved s).eng.rob = s.eng.rob ∧ (wbs.foldl storeResolved s).eng.mem2Wb = s.eng.mem2Wb := by
  induction wbs generalizing s with
  | nil => exact ⟨rfl, rfl⟩
  | cons wb wbs ih =>
    obtain ⟨hrob, hwb⟩ := ih (storeResolved s wb)
    rw [List.foldl_cons, hrob, hwb]
    unfold storeResolved
    split
    · split <;> exact ⟨rfl, rfl⟩
    · exact ⟨rfl, rfl⟩

theorem memory2_frame (s : O3State U) : (memory2 s).2.eng.rob = s.eng.rob ∧
    (memory2 s).2.eng.mem2Wb = (memory2Stage ⟨s.cpu, s.eng.sb, some s.eng.lq, none⟩ s.eng.mem1Mem2).2.1 ∧
    (memory2 s).1 = (memory2Stage ⟨s.cpu, s.eng.sb, some s.eng.lq, none⟩ s.eng.mem1Mem2).2.2.violation := by
  obtain ⟨hrob, hwb⟩ := foldl_storeResolved_frame
    (memory2Stage ⟨s.cpu, s.eng.sb, some s.eng.lq, none⟩ s.eng.mem1Mem2).2.1 { s with
      cpu := (memory2Stage ⟨s.cpu, s.eng.sb, some s.eng.lq, none⟩ s.eng.mem1Mem2).2.2.cpu
      eng := { s.eng with
        sb := (memory2Stage ⟨s.cpu, s.eng.sb, some s.eng.lq, none⟩ s.eng.mem1Mem2).2.2.sb
        lq := (memory2Stage ⟨s.cpu, s.eng.sb, some s.eng.lq, none⟩ s.eng.mem1Mem2).2.2.lq.getD s.eng.lq
        mem1Mem2 := (memory2Stage ⟨s.cpu, s.eng.sb, some s.eng.lq, none⟩ s.eng.mem1Mem2).1
        mem2Wb := (memory2Stage ⟨s.cpu, s.eng.sb, some s.eng.lq, none⟩ s.eng.mem1Mem2).2.1 } }
  exact ⟨hrob, hwb, rfl⟩

theorem memory1_frame (s : O3State U) :
    (memory1 s).eng.rob = s.eng.rob ∧ (memory1 s).eng.mem2Wb = s.eng.mem2Wb := by
  unfold memory1
  split <;> exact ⟨rfl, rfl⟩

theorem dispatch_frame (s : O3State U) :
    (dispatch s).eng.rob = s.eng.rob ∧ (dispatch s).eng.mem2Wb = s.eng.mem2Wb := by
  have hfold : ∀ (es : List RenameIssueEntry) (s : O3State U),
      (es.foldl dispatchOne s).eng.rob = s.eng.rob ∧ (es.foldl dispatchOne s).eng.mem2Wb = s.eng.mem2Wb := by
    intro es
    induction es with
    | nil => exact fun _ => ⟨rfl, rfl⟩
    | cons e es ih => exact fun s => ih _
  exact hfold _ _

omit [Units U] in
theorem tags_drainPending (eng : O3Engine) : (drainPending eng).rob.tags = eng.rob.tags := by
  have hfold : ∀ (ps : List PendingResult) (eng : O3Engine), (ps.foldl finishPending eng).rob.tags = eng.rob.tags := by
    intro ps
    induction ps with
    | nil => exact fun _ => rfl
    | cons p ps ih =>
      intro eng
      have hone : (finishPending eng p).rob.tags = eng.rob.tags := by
        unfold finishPending
        split
        · rfl
        · split
          · rfl
          · exact completeAlu_tags eng p.entry
      exact (ih _).trans hone
  exact hfold _ _

theorem tags_issueOne (s : O3State U) (e : RenameIssueEntry) : (issueOne s e).2.eng.rob.tags = s.eng.rob.tags := by
  have hwake : ∀ (b : Bool) (eng : O3Engine) (q : IssueQueue),
      (if b then { eng with iq := q } else eng).rob = eng.rob := by
    intro b eng q
    cases b <;> rfl
  have hwritten : ∀ (b : Bool) (eng : O3Engine) (x : ExMem1Entry),
      (if b then completeAlu eng x else eng).rob.tags = eng.rob.tags := by
    intro b eng x
    cases b with
    | true => exact completeAlu_tags eng x
    | false => rfl
  unfold issueOne
  dsimp only
  rw [hwake, hwritten]
  exact (executeOne_spec _ e s.eng.rob).upd.tags

theorem tags_issue (bp : Bool) (s : O3State U) : (issue bp s).2.eng.rob.tags = s.eng.rob.tags :=
  issueLoop_lift (R := fun a b => b.eng.rob.tags = a.eng.rob.tags) (fun _ => rfl) (fun h h' => h'.trans h)
    (fun _ _ => rfl) tags_issueOne bp _ _

/-- What asks for a flush was waiting. -/
theorem issueLoop_keep {bp : Bool} {sel : List SelectedEntry} {keep : RobTag} (h : (issueLoop bp s sel).1 = some keep) :
    keep ∈ sel.map (·.entry.robTag) := by
  induction sel generalizing s with
  | nil => exact absurd h (by simp [issueLoop])
  | cons e rest ih =>
    rw [issueLoop] at h
    rw [List.map_cons]
    split at h
    · exact List.mem_cons_of_mem _ (ih h)
    · split at h
      · exact List.mem_cons.mpr (Or.inl (Option.some.inj h).symm)
      · exact List.mem_cons_of_mem _ (ih h)

theorem issue_keep {bp : Bool} {keep : RobTag} (h : (issue bp s).1 = some keep) :
    keep ∈ s.waiting.map (·.robTag) := by
  obtain ⟨x, hx, rfl⟩ := List.mem_map.mp (issueLoop_keep h)
  obtain ⟨w, hw, hb⟩ := chosen_back s x.entry (List.mem_append_left _ (List.mem_map_of_mem hx))
  have htag : w.bare.robTag = x.entry.bare.robTag := by rw [hb]
  exact List.mem_map.mpr ⟨w, hw, htag⟩

theorem rob_recover {keep : RobTag} (hk : keep ∈ s.eng.rob.tags) :
    (recover s keep).eng.rob = s.eng.rob.flushAfter keep := by
  have hmap : ∀ (eng : O3Engine) (n : Nat), (recoverMap eng keep n).rob = eng.rob := by
    intro eng n
    unfold recoverMap
    dsimp only
    split
    · split <;> rfl
    · rfl
  have hrob : (recover s keep).eng.rob = (squashAfter s keep).2.eng.rob := hmap _ _
  rw [hrob, squashAfter_found hk]
  rfl

/-! ### What stands where -/

omit [Units U] in
/-- What waits, what is in front of memory2 and what is behind it. -/
theorem sound (h : O3Inv D total s) : s.deviceView.Sound (s.waiting.map (·.robTag)) := by
  have hnd : (s.waiting.map (·.robTag) ++
      ((s.eng.pendingResults.filter fun p => !p.speculativeWritten).map (fun p => p.entry.robTag) ++
        (s.eng.executeMem1.map (·.robTag) ++ (s.eng.mem1Mem2.map (·.robTag) ++ (s.eng.mem2Wb.map (·.robTag) ++
          s.cpu.l1dMshrs.parked.map (·.robTag)))))).Nodup := by
    have htags := h.flight.nodup
    unfold Flight.tags Flight.held O3State.flight O3State.flying at htags
    simp only [List.map_append, List.map_map] at htags
    exact htags
  obtain ⟨-, hfly, hwait⟩ := List.nodup_append.mp hnd
  obtain ⟨-, hrest, -⟩ := List.nodup_append.mp hfly
  obtain ⟨-, hmem, -⟩ := List.nodup_append.mp hrest
  obtain ⟨hnodup, hpast⟩ := DeviceView.nodup_front hmem
  have hfront : s.deviceView.front.map (·.robTag) =
      s.eng.mem1Mem2.map (·.robTag) ++ s.cpu.l1dMshrs.parked.map (·.robTag) := List.map_append
  rw [← hfront] at hnodup hpast
  have hin : ∀ t ∈ s.deviceView.front.map (·.robTag),
      t ∈ s.eng.mem1Mem2.map (·.robTag) ∨ t ∈ s.cpu.l1dMshrs.parked.map (·.robTag) := fun t ht =>
    List.mem_append.mp (hfront ▸ ht)
  refine ⟨h.flight.nodup_tags, hnodup, fun t ht hp => ?_, fun t ht hf => ?_, fun t ht => ?_⟩
  · rcases List.mem_append.mp ht with ht | ht
    · have hp' : t ∈ s.eng.mem2Wb.map (·.robTag) := hp
      refine hwait t ht t ?_ rfl
      simp only [List.mem_append]
      exact Or.inr (Or.inr (Or.inr (Or.inl hp')))
    · exact hpast t ht hp
  · refine hwait t ht t ?_ rfl
    simp only [List.mem_append]
    rcases hin t hf with hf | hf
    · exact Or.inr (Or.inr (Or.inl hf))
    · exact Or.inr (Or.inr (Or.inr (Or.inr hf)))
  · have hheld : ∃ x ∈ s.flight.held, x.1 = t := by
      refine List.mem_map.mp ?_
      unfold Flight.held O3State.flight O3State.flying
      simp only [List.map_append, List.map_map, List.mem_append]
      rcases List.mem_append.mp ht with ht | ht
      · exact Or.inl ht
      · rcases hin t ht with ht | ht
        · exact Or.inr (Or.inr (Or.inr (Or.inl ht)))
        · exact Or.inr (Or.inr (Or.inr (Or.inr (Or.inr ht))))
    obtain ⟨x, hx, rfl⟩ := hheld
    obtain ⟨e, he, htag, -, hst⟩ := h.flight.held x hx
    exact ⟨e, he, htag, hst⟩

theorem reachingMem2_some (hm : reachingMem2 s = some m) :
    (commit (start s)).1 = none ∧ m = drainMshrs (writeback (commit (start s)).2) := by
  unfold reachingMem2 at hm
  dsimp only at hm
  generalize commit (start s) = r at hm ⊢
  obtain ⟨trap, s'⟩ := r
  cases trap with
  | some te => exact absurd hm (by simp)
  | none =>
    dsimp only at hm ⊢
    rw [Option.ite_none_left_eq_some] at hm
    exact ⟨rfl, (Option.some.inj hm.2).symm⟩

/-- The stages in front of memory2. -/
theorem reachingMem2_keeps (h : O3Inv D total s) (hm : reachingMem2 s = some m) :
    O3Inv D total (commit (start s)).2 ∧ Keeps D total (commit (start s)).2 m := by
  obtain ⟨hnone, rfl⟩ := reachingMem2_some hm
  have hc := commit_keeps (start_keeps h).inv hnone
  have hw := writeback_keeps hc.inv
  exact ⟨hc.inv, hw.trans (drainMshrs_keeps hw.inv)⟩

/-- What memory2 finds in the buffer is what commit has left there. -/
theorem reachingMem2_tags (hm : reachingMem2 s = some m) : m.eng.rob.tags = (commit (start s)).2.eng.rob.tags := by
  obtain ⟨-, rfl⟩ := reachingMem2_some hm
  obtain ⟨rob, prf, iq, heq, htags⟩ := writeback_frame (commit (start s)).2
  rw [rob_drainMshrs, heq]
  exact htags

/-- Misses that are done go on, and nothing else that memory2 looks at changes. -/
theorem drainMshrs_front (h : s.cpu.l1dMshrs.Ok) : (drainMshrs s).cpu.bounds = s.cpu.bounds ∧
    (drainMshrs s).eng.sb = s.eng.sb ∧ (drainMshrs s).eng.lq = s.eng.lq ∧
      ∀ x ∈ (drainMshrs s).eng.mem1Mem2, ∃ x' ∈ s.eng.mem1Mem2 ++ s.cpu.l1dMshrs.parked, ∃ now,
        x = { x' with completeCycle := now } := by
  unfold drainMshrs
  by_cases hc : s.cpu.l1dMshrs.capacity > 0
  · rw [if_pos hc]
    refine ⟨rfl, rfl, rfl, fun x hx => ?_⟩
    rcases List.mem_append.mp hx with hx | hx
    · exact ⟨x, List.mem_append_left _ hx, x.completeCycle, rfl⟩
    · obtain ⟨x', hx', rfl⟩ := mem_unpark hx
      have hin := (MshrFile.drain_parked h s.eng.cycle).2.mem_iff.mp (List.mem_append_left _ hx')
      exact ⟨x', List.mem_append_right _ hin, s.eng.cycle, rfl⟩
  · rw [if_neg hc]
    exact ⟨rfl, rfl, rfl, fun x hx => ⟨x, List.mem_append_left _ hx, x.completeCycle, rfl⟩⟩

/-- **What memory2 takes** stood in front of it when the tick began. -/
theorem reaches (h : O3Inv D total s) (hm : reachingMem2 s = some m) :
    s.deviceView.Reaches (commit (start s)).2.eng.rob ⟨m.cpu, m.eng.sb, some m.eng.lq, none⟩ m.eng.mem1Mem2 := by
  obtain ⟨hcommit, hkeeps⟩ := reachingMem2_keeps h hm
  have hsound := sound hkeeps.inv
  have htags := reachingMem2_tags hm
  obtain ⟨-, rfl⟩ := reachingMem2_some hm
  have hdone := CommitState.commitStage_done (start s).eng.width (toCommit (start s)) (toCommit_inv (start_keeps h).inv)
  have heases := commitStage_eases (toCommit (start s)) (start s).eng.width
  have hparked : (commit (start s)).2.cpu.l1dMshrs = s.cpu.l1dMshrs := hdone.mshrs
  obtain ⟨rob, prf, iq, heq, -⟩ := writeback_frame (commit (start s)).2
  have hfront := drainMshrs_front (s := writeback (commit (start s)).2) (by rw [heq]; exact hcommit.mshrs)
  obtain ⟨hb, hsb, hlq, hlatch⟩ := hfront
  rw [heq] at hb hsb hlq hlatch
  have hlatch' : ∀ x ∈ (drainMshrs (writeback (commit (start s)).2)).eng.mem1Mem2, ∃ x' ∈ s.deviceView.front, ∃ now,
      x = { x' with completeCycle := now } := by
    intro x hx
    obtain ⟨x', hx', now, hxx⟩ := hlatch x (heq ▸ hx)
    refine ⟨x', ?_, now, hxx⟩
    have hview : s.deviceView.front = s.eng.mem1Mem2 ++ s.cpu.l1dMshrs.parked := rfl
    rw [hview, ← hparked]
    exact hx'
  have hnd := hsound.front
  have hbuf : ∀ x ∈ (drainMshrs (writeback (commit (start s)).2)).eng.mem1Mem2,
      x.robTag ∈ (drainMshrs (writeback (commit (start s)).2)).eng.rob.tags := fun x hx =>
    hsound.mem_tags (List.mem_append_right _ (List.mem_map_of_mem (List.mem_append_left _ hx)))
  refine ⟨?_, ?_, ?_, hlatch', ?_, fun x hx => htags ▸ hbuf x hx⟩
  · rw [heq]
    exact hb.trans heases.bounds
  · rw [heq, hsb]
    exact heases.sb
  · intro t ht
    rw [heq] at ht
    have ht' : t ∈ (commit (start s)).2.eng.lq.live := hlq ▸ ht
    unfold commit ofCommit at ht'
    dsimp only at ht'
    have hback := heases.loads t
    cases hq : (commitStage (toCommit (start s)) (start s).eng.width).2.lq with
    | none =>
      rw [hq] at ht'
      exact ht'
    | some q =>
      rw [hq] at ht'
      unfold CommitState.loads at hback
      rw [hq] at hback
      exact hback ht'
  · have hview : (drainMshrs (writeback (commit (start s)).2)).deviceView.front =
        (drainMshrs (writeback (commit (start s)).2)).eng.mem1Mem2 ++
          (drainMshrs (writeback (commit (start s)).2)).cpu.l1dMshrs.parked := rfl
    rw [hview, List.map_append] at hnd
    exact (List.nodup_append.mp hnd).1

/-! ### What a tick does to the log -/

/-- The tick, as the log sees it. -/
def deviceTick (s : O3State U) : DeviceTick :=
  .ofRobs s.deviceView (commit (start s)).2.eng.rob (tick s).eng.rob <|
    (reachingMem2 s).elim [] fun m =>
      mem2Devices ⟨m.cpu, m.eng.sb, some m.eng.lq, none⟩ (sortByRawTag m.eng.mem1Mem2)

/-- Memory1, issue and dispatch leave the buffer, or squash behind an instruction that waited. -/
theorem tags_tickBack (h : O3Inv D total s) : (tickBack s).eng.rob.tags = s.eng.rob.tags ∨
    ∃ keep ∈ s.waiting.map (·.robTag), ∃ r : Rob, r.tags = s.eng.rob.tags ∧
      (tickBack s).eng.rob = r.flushAfter keep := by
  have hm := memory1_keeps h
  have hd := drainPending_keeps hm.inv
  have hcalm := (memory1_calm h).trans (drainPending_calm (memory1 s))
  have htags : (drainPending (memory1 s).eng).rob.tags = s.eng.rob.tags :=
    (tags_drainPending _).trans (congrArg Rob.tags (memory1_frame s).1)
  have hissue := tags_issue (!(memory1 s).eng.executeMem1.isEmpty)
    { memory1 s with eng := drainPending (memory1 s).eng }
  have hl := issue_looped (!(memory1 s).eng.executeMem1.isEmpty) hd.inv
  have hkeep : ∀ keep, (issue (!(memory1 s).eng.executeMem1.isEmpty)
      { memory1 s with eng := drainPending (memory1 s).eng }).1 = some keep →
        keep ∈ ({ memory1 s with eng := drainPending (memory1 s).eng } : O3State U).waiting.map (·.robTag) :=
    fun _ => issue_keep
  unfold tickBack
  dsimp only at hissue ⊢
  rw [htags] at hissue
  revert hissue hl hkeep
  generalize issue (!(memory1 s).eng.executeMem1.isEmpty)
    { memory1 s with eng := drainPending (memory1 s).eng } = r
  obtain ⟨fl, s'⟩ := r
  intro hissue hl hkeep
  cases fl with
  | none =>
    left
    rw [← hissue]
    exact congrArg Rob.tags (dispatch_frame s').1
  | some keep =>
    right
    obtain ⟨rest, hsel, hmem, -⟩ := hl.flush keep rfl
    obtain ⟨w, hw, hwt⟩ := List.mem_map.mp (hkeep keep rfl)
    exact ⟨keep, List.mem_map.mpr ⟨w, hcalm.waiting w hw, hwt⟩, s'.eng.rob, hissue, rob_recover hmem⟩

theorem rob_violationFlush (s : O3State U) (t : RobTag) (pc : U64) : (violationFlush s t pc).eng.rob =
    (s.eng.rob.prevTagOf t).elim s.eng.rob.flushAll s.eng.rob.flushAfter := by
  unfold violationFlush
  dsimp only
  cases s.eng.rob.prevTagOf t with
  | some keep => rfl
  | none => rfl

/-- Behind commit the buffer only shrinks. -/
theorem tick_tags (h : O3Inv D total s) : (tick s).eng.rob.tags.Sublist (commit (start s)).2.eng.rob.tags := by
  rcases tick_reaching s with ⟨-, -, hnil⟩ | ⟨m, hm, htick⟩
  · rw [hnil]
    exact List.nil_sublist _
  · obtain ⟨hrob, -, -⟩ := memory2_frame m
    have hkeeps := (reachingMem2_keeps h hm).2
    have hwb : m.eng.mem2Wb = [] := by
      obtain ⟨-, rfl⟩ := reachingMem2_some hm
      exact drainMshrs_latch.trans writeback_latch
    have hinv := (memory2_keeps hkeeps.inv hwb).1.inv
    rw [htick, ← reachingMem2_tags hm, ← hrob]
    generalize memory2 m = r at hinv
    rcases r with ⟨_ | ⟨t, pc⟩, s'⟩
    · dsimp only at hinv ⊢
      rcases tags_tickBack hinv with htags | ⟨keep, -, r, hr, htags⟩
      · rw [htags]
      · rw [htags, ← hr]
        exact r.tags_flushAfter keep
    · dsimp only
      rw [rob_violationFlush]
      cases s'.eng.rob.prevTagOf t with
      | some keep => exact s'.eng.rob.tags_flushAfter keep
      | none => exact List.nil_sublist _

/-- **The tick** takes finished entries off the head, and memory2 passes loads that were about to read. -/
theorem deviceTick_from (h : O3Inv D total s) (ho : s.deviceView.Orderly pend) :
    (deviceTick s).From s.deviceView (commit (start s)).2.eng.rob := by
  refine DeviceTick.ofRobs_from (c := toCommit (start s)) rfl (tick_tags h) ?_
  cases hm : reachingMem2 s with
  | none => exact DeviceView.Passes.nil _ _
  | some m => exact (reaches h hm).passes ho

/-- A load that has read stays in the buffer only if commit does not stop. -/
theorem reaching_of_pend (h : O3Inv D total s) (ho : s.deviceView.Orderly pend) {x : RobTag × DeviceRead}
    (hx : x ∈ pend) (hin : x.1 ∈ (commit (start s)).2.eng.rob.tags) : reachingMem2 s ≠ none := by
  obtain ⟨htrap, hpc⟩ := ho.commits (sound h) (c := toCommit (start s)) rfl rfl rfl hx hin
  have htrap' : (commit (start s)).1 = none := htrap
  have hpc' : (commit (start s)).2.cpu.pc = (start s).cpu.pc := hpc
  unfold reachingMem2
  dsimp only
  generalize commit (start s) = r at htrap' hpc'
  obtain ⟨trap, s'⟩ := r
  dsimp only at htrap' hpc'
  rw [htrap']
  dsimp only
  rw [if_neg (not_not.mpr hpc')]
  exact Option.some_ne_none _

/-- **No load that has read is squashed** in a tick from an orderly state. -/
theorem deviceTick_kept (h : O3Inv D total s) (ho : s.deviceView.Orderly l.pend)
    (hal : Ledger.Along s.eng.rob.tags l.pend) : ∀ x ∈ l.held (deviceTick s), x.1 ∈ (tick s).eng.rob.tags := by
  have hf := deviceTick_from h ho
  have hv := sound h
  intro x hx
  have hmem := DeviceLog.mem_committed hf hv hal hx
  rcases tick_reaching s with ⟨hnone, -, -⟩ | ⟨m, hm, htick⟩
  · -- nothing is passed, and nothing that has read is left
    have hnotes : (deviceTick s).notes = [] := by
      show ((reachingMem2 s).elim [] _).map _ = []
      rw [hnone]
      rfl
    unfold DeviceLog.held at hx
    rw [hnotes, List.append_nil] at hx
    exact absurd hnone (reaching_of_pend h ho (List.mem_of_mem_filter hx) hmem)
  · obtain ⟨hrob, -, hviol⟩ := memory2_frame m
    obtain ⟨hcommit, hkeeps⟩ := reachingMem2_keeps h hm
    have hwb : m.eng.mem2Wb = [] := by
      obtain ⟨-, rfl⟩ := reachingMem2_some hm
      exact drainMshrs_latch.trans writeback_latch
    have hinv := (memory2_keeps hkeeps.inv hwb).1.inv
    have hcalm : ∀ w ∈ (memory2 m).2.waiting, w ∈ s.waiting := by
      have hfirst := (start_calm s).trans (commit_calm (start_keeps h).inv)
      have hwrite := writeback_keeps hcommit
      have hall := ((hfirst.trans (writeback_calm _)).trans (drainMshrs_calm hwrite.inv)).trans (memory2_calm _)
      obtain ⟨-, rfl⟩ := reachingMem2_some hm
      exact hall.waiting
    have htags : (memory2 m).2.eng.rob.tags = (commit (start s)).2.eng.rob.tags :=
      (congrArg Rob.tags hrob).trans (reachingMem2_tags hm)
    rw [htick]
    generalize hr : memory2 m = r at hinv hcalm htags hviol
    rcases r with ⟨_ | ⟨t, pc⟩, s'⟩
    · dsimp only at hinv hcalm htags ⊢
      rcases tags_tickBack hinv with hback | ⟨keep, hkeep, rob, hrt, hback⟩
      · rw [hback, htags]
        exact hmem
      · obtain ⟨w, hw, rfl⟩ := List.mem_map.mp hkeep
        have hfront := DeviceLog.held_inFront_waiting hf hv ho hal (List.mem_map_of_mem (hcalm w hw)) x hx
        have hrt' : rob.tags = (commit (start s)).2.eng.rob.tags := hrt.trans htags
        rw [← hrt'] at hfront
        rw [hback]
        exact Rob.mem_flushAfter (hrt'.symm ▸ hcommit.flight.nodup_tags) hfront
    · dsimp only at htags hviol ⊢
      have hfront := DeviceLog.held_inFront hf hv.named ((reaches h hm).violation ho rfl hviol.symm) x hx
      rw [← htags] at hfront
      obtain ⟨keep, hprev, hin⟩ := Rob.prevTagOf_inFront (htags.symm ▸ hcommit.flight.nodup_tags) hfront
      rw [rob_violationFlush, hprev]
      exact hin

/-! ### Loads past memory2 -/

section

variable {F : RobTag → Option ControlSignals} {K : RobTag → Prop}

omit [Units U] in
/-- A stage that completes nothing. -/
theorem tracks_of_kept (h : s.Tracks F K) (hs : O3State.Steady s s') (hw : ∀ w ∈ s'.waiting, w ∈ s.waiting)
    (hr : s'.eng.rob.entries <+: s.eng.rob.entries) (hwb : ∀ wb ∈ s'.eng.mem2Wb, wb ∈ s.eng.mem2Wb) :
    s'.Tracks F K :=
  h.front hr (O3State.signals_of_steady (hs.carried .signals) hw) hwb

omit [Units U] in
/-- An instruction that is in the latches and does not access memory is no load. -/
theorem not_loads (h : s.Tracks F K) {e : ExMem1Entry} (hin : (e.robTag, e.ctrl) ∈ s.signals)
    (hmem : e.ctrl.isMem = false) : ∀ x ∈ [e.coming], ∀ c, F x.1 = some c → c.loads = true → K x.1 := by
  intro x hx c hc hl
  rw [List.mem_singleton.mp hx] at hc
  have hctrl : some e.ctrl = some c := (h.signals _ hin).symm.trans hc
  obtain rfl := Option.some.inj hctrl
  rw [ControlSignals.loads_of_not_isMem hmem] at hl
  exact absurd hl (by decide)

omit [Units U] in
theorem writeback_tracks (h : s.Tracks F K) : (writeback s).Tracks F K := by
  have hloop : ∀ (wbs : List Mem2WbEntry) (eng : O3Engine), (writing s eng wbs).Tracks F K →
      (writing s (wbs.foldl writeOne eng) []).Tracks F K := by
    intro wbs
    induction wbs with
    | nil => exact fun _ h => h
    | cons wb wbs ih =>
      intro eng h
      refine ih (writeOne eng wb) ?_
      have hrob : (writeOne eng wb).rob = writebackOne eng.rob wb := by
        unfold writeOne
        unfold writebackOne
        cases wb.trap with
        | some t => rfl
        | none => rfl
      have hin : (wb.robTag, wb.ctrl) ∈ (writing s eng (wb :: wbs)).signals :=
        List.mem_append_right _ (O3State.mem_carried.mpr
          (Or.inr (Or.inr (Or.inr (Or.inl ⟨wb, List.mem_cons_self, rfl⟩)))))
      have hone : Tracked F K (writebackOne eng.rob wb) (writing s (writeOne eng wb) wbs).signals wbs :=
        h.writebackOne hin (O3State.signals_of_steady (writeOne_steady.carried .signals) writeOne_calm.waiting)
      rw [← hrob] at hone
      exact hone
  rw [writeback_state]
  exact hloop s.eng.mem2Wb s.eng h

theorem drainMshrs_tracks (hinv : O3Inv D total s) (h : s.Tracks F K) : (drainMshrs s).Tracks F K := by
  refine tracks_of_kept h (drainMshrs_steady hinv) (drainMshrs_calm hinv).waiting ?_ ?_
  · rw [rob_drainMshrs]
  · rw [drainMshrs_latch]
    exact fun _ h => h

theorem memory1_tracks (hinv : O3Inv D total s) (h : s.Tracks F K) : (memory1 s).Tracks F K := by
  obtain ⟨hrob, hwb⟩ := memory1_frame s
  refine tracks_of_kept h (memory1_steady hinv) (memory1_calm hinv).waiting ?_ ?_
  · rw [hrob]
  · rw [hwb]
    exact fun _ h => h

omit [Units U] in
theorem drainPending_tracks (hinv : O3Inv D total s) (h : s.Tracks F K) :
    ({ s with eng := drainPending s.eng } : O3State U).Tracks F K := by
  have hloop : ∀ (due left : List PendingResult) (eng : O3Engine),
      (∀ p ∈ due, p.speculativeWritten = true → p.entry.ctrl.isMem = false) →
        (draining s eng due left).Tracks F K → (draining s (due.foldl finishPending eng) [] left).Tracks F K := by
    intro due left
    induction due with
    | nil => exact fun eng _ h => h
    | cons p due ih =>
      intro eng hp h
      refine ih (finishPending eng p) (fun q hq => hp q (List.mem_cons_of_mem _ hq)) ?_
      have hst : O3State.Steady (draining s eng (p :: due) left) (draining s (finishPending eng p) due left) :=
        finishPending_steady (hp p List.mem_cons_self)
      have hcalm : O3State.Calm (draining s eng (p :: due) left) (draining s (finishPending eng p) due left) :=
        finishPending_calm
      have hcs := O3State.signals_of_steady (hst.carried .signals) hcalm.waiting
      by_cases hmem : p.entry.ctrl.isMem = true
      · refine h.front ?_ hcs fun wb hwb => ?_
        · unfold finishPending draining
          rw [if_pos hmem]
        · unfold finishPending draining at hwb
          rw [if_pos hmem] at hwb
          exact hwb
      · by_cases hw : p.speculativeWritten = true
        · refine h.front ?_ hcs fun wb hwb => ?_
          · unfold finishPending draining
            rw [if_neg hmem, if_pos hw]
          · unfold finishPending draining at hwb
            rw [if_neg hmem, if_pos hw] at hwb
            exact hwb
        · have hin : (p.entry.robTag, p.entry.ctrl) ∈ (draining s eng (p :: due) left).signals :=
            List.mem_append_right _ (O3State.mem_carried.mpr (Or.inl
              ⟨p, List.mem_cons_self, Bool.not_eq_true _ ▸ hw, rfl⟩))
          refine h.settles (d := [p.entry.coming]) ?_ (not_loads h hin (Bool.not_eq_true _ ▸ hmem)) hcs
            fun wb hwb => ?_
          · unfold finishPending draining
            rw [if_neg hmem, if_neg hw]
            exact completeAlu_settles eng (List.mem_singleton_self _)
          · unfold finishPending draining at hwb
            rw [if_neg hmem, if_neg hw] at hwb
            exact hwb
  have hsplit := splitDue_perm s.eng.cycle s.eng.pendingResults.length s.eng.pendingResults rfl
  unfold drainPending
  revert hsplit
  generalize splitDue s.eng.cycle s.eng.pendingResults.length s.eng.pendingResults = r
  obtain ⟨due, left⟩ := r
  intro hsplit
  dsimp only at hsplit
  have hstart : (draining s s.eng due left).Tracks F K := by
    refine h.front List.prefix_rfl (O3State.signals_of_steady (fun x hx => ?_) fun _ hw => hw) fun _ hwb => hwb
    rw [O3State.mem_carried] at hx ⊢
    refine hx.imp_left ?_
    rintro ⟨p, hp, hpx⟩
    exact ⟨p, hsplit.mem_iff.mp hp, hpx⟩
  dsimp only
  rw [foldl_finishPending_latch]
  exact hloop due left s.eng (fun p hp => hinv.written p (hsplit.mem_iff.mp (List.mem_append_left _ hp))) hstart

/-- **One instruction executes.** Only one that does not access memory completes. -/
theorem issueOne_tracks {e : RenameIssueEntry} {cs : List (RobTag × ControlSignals)}
    (h : Tracked F K s.eng.rob cs s.eng.mem2Wb) (hin : (e.robTag, e.ctrl) ∈ cs)
    (hcs : ∀ x ∈ s.carried .signals, x ∈ cs) :
    Tracked F K (issueOne s e).2.eng.rob cs (issueOne s e).2.eng.mem2Wb ∧
      ∀ x ∈ (issueOne s e).2.carried .signals, x ∈ cs := by
  have hi := issueOne_issued s e
  have hx := executeOne_executed (issueCpu s e) e s.eng.rob
  obtain ⟨c, w, hpend, hw, hrob, -⟩ := hi.written
  obtain ⟨-, -, -, -, -, h6, h7, h8⟩ := hi.rest
  constructor
  · have hset : s.eng.rob.Settles (if w then [(executeOne (issueCpu s e) e s.eng.rob).result.coming] else [])
        (issueOne s e).2.eng.rob := by
      rw [hrob]
      cases w with
      | false => exact hx.settles
      | true =>
        refine (hx.settles.mono fun x hx => absurd hx List.not_mem_nil).trans ?_
        exact completeAlu_settles { s.eng with rob := (executeOne (issueCpu s e) e s.eng.rob).rob }
          (List.mem_singleton_self _)
    refine h.settles hset (fun x hxm k hk hl => ?_) (fun _ hx => hx) fun wb hwb => h8 ▸ hwb
    cases w with
    | false => exact absurd hxm List.not_mem_nil
    | true =>
      have htag : x.1 = e.robTag := by
        rw [List.mem_singleton.mp hxm]
        exact hx.tag
      have hctrl : some e.ctrl = some k := by
        rw [← hk, htag]
        exact (h.signals _ hin).symm
      obtain rfl := Option.some.inj hctrl
      have hmem := hw rfl
      rw [hx.ctrl] at hmem
      rw [ControlSignals.loads_of_not_isMem hmem] at hl
      exact absurd hl (by decide)
  · intro x hxc
    rw [O3State.mem_carried] at hxc
    simp only [hpend, h6, h7, h8, hi.frame.mshrs] at hxc
    rcases hxc with ⟨p, hp, hpw, hpx⟩ | hrest
    · rcases List.mem_append.mp hp with hp' | hp'
      · exact hcs x (O3State.mem_carried.mpr (Or.inl ⟨p, hp', hpw, hpx⟩))
      · rw [List.mem_singleton.mp hp'] at hpx
        have hsame : x = (e.robTag, e.ctrl) := by
          rw [← hpx, ← hx.tag, ← hx.ctrl]
          rfl
        exact hsame ▸ hin
    · exact hcs x (O3State.mem_carried.mpr (Or.inr hrest))

theorem issueLoop_tracks {cs : List (RobTag × ControlSignals)} (bp : Bool) (sel : List SelectedEntry) (s : O3State U)
    (h : Tracked F K s.eng.rob cs s.eng.mem2Wb)
    (hin : ∀ w ∈ sel.map (·.entry) ++ s.waiting, (w.robTag, w.ctrl) ∈ cs) (hcs : ∀ x ∈ s.carried .signals, x ∈ cs) :
    (issueLoop bp s sel).2.Tracks F K := by
  have hdone : ∀ s : O3State U, Tracked F K s.eng.rob cs s.eng.mem2Wb → (∀ w ∈ s.waiting, (w.robTag, w.ctrl) ∈ cs) →
      (∀ x ∈ s.carried .signals, x ∈ cs) → s.Tracks F K := by
    intro s h hwait hcs
    refine h.front List.prefix_rfl (fun x hx => ?_) fun _ hwb => hwb
    rcases List.mem_append.mp hx with hx | hx
    · obtain ⟨w, hw, rfl⟩ := List.mem_map.mp hx
      exact hwait w hw
    · exact hcs x hx
  induction sel generalizing s with
  | nil => exact hdone s h (fun w hw => hin w hw) hcs
  | cons e rest ih =>
    rw [issueLoop]
    by_cases hw : mustWait s.eng bp e.entry
    · rw [if_pos hw]
      refine ih _ h (fun w hwm => ?_) hcs
      obtain ⟨w', hw', hb⟩ := requeue_back (s := s) e rest w hwm
      have hsame : (w'.bare.robTag, w'.bare.ctrl) = (w.bare.robTag, w.bare.ctrl) := by rw [hb]
      exact hsame ▸ hin w' hw'
    · rw [if_neg hw]
      obtain ⟨hone, hcs'⟩ := issueOne_tracks h (hin e.entry List.mem_cons_self) hcs
      have hi := issueOne_issued s e.entry
      have hwait : (issueOne s e.entry).2.waiting = s.waiting := by
        unfold O3State.waiting
        rw [hi.iq, hi.output]
      revert hone hcs' hwait
      generalize issueOne s e.entry = out
      obtain ⟨fl, s'⟩ := out
      intro hone hcs' hwait
      have hin' : ∀ w ∈ rest.map (·.entry) ++ s'.waiting, (w.robTag, w.ctrl) ∈ cs := by
        intro w hwm
        rw [hwait] at hwm
        exact hin w (List.mem_cons_of_mem _ hwm)
      cases fl with
      | true => exact hdone s' hone (fun w hw' => hin' w (List.mem_append_right _ hw')) hcs'
      | false => exact ih s' hone hin' hcs'

theorem issue_tracks (bp : Bool) (h : s.Tracks F K) : (issue bp s).2.Tracks F K := by
  refine issueLoop_tracks bp (chosen s).1 _ h (fun w hw => ?_) fun x hx => List.mem_append_right _ hx
  obtain ⟨w', hw', hb⟩ := chosen_back s w hw
  have hsame : (w'.bare.robTag, w'.bare.ctrl) = (w.bare.robTag, w.bare.ctrl) := by rw [hb]
  exact List.mem_append_left _ (List.mem_map.mpr ⟨w', hw', hsame⟩)

/-- **Behind memory2** loads only leave. -/
theorem tickBack_tracks (hinv : O3Inv D total s) (h : s.Tracks F K) : (tickBack s).Tracks F K := by
  have hm := memory1_keeps hinv
  have hd := drainPending_keeps hm.inv
  have hissue := issue_tracks (!(memory1 s).eng.executeMem1.isEmpty)
    (drainPending_tracks hm.inv (memory1_tracks hinv h))
  have hl := issue_looped (!(memory1 s).eng.executeMem1.isEmpty) hd.inv
  unfold tickBack
  dsimp only
  revert hissue hl
  generalize issue (!(memory1 s).eng.executeMem1.isEmpty)
    { memory1 s with eng := drainPending (memory1 s).eng } = r
  obtain ⟨fl, s'⟩ := r
  intro hissue hl
  cases fl with
  | none =>
    obtain ⟨hrob, hwb⟩ := dispatch_frame s'
    refine tracks_of_kept hissue (dispatch_steady s') (dispatch_calm s').waiting ?_ ?_
    · dsimp only
      rw [hrob]
    · dsimp only
      rw [hwb]
      exact fun _ h => h
  | some keep =>
    obtain ⟨rest, hsel, hmem, -⟩ := hl.flush keep rfl
    obtain ⟨e, he, rfl⟩ := List.mem_map.mp hmem
    have hcut := recover_cut hsel he
    refine tracks_of_kept hissue (recover_steady hsel hmem) (recover_calm hsel hmem).waiting ?_ fun wb hwb => ?_
    · dsimp only
      rw [hcut.rob]
      exact Rob.keepThrough_prefix _ _
    · dsimp only at hwb
      rw [hcut.mem2Wb] at hwb
      exact List.mem_of_mem_filter hwb

theorem violationFlush_tracks (hinv : O3Inv D total s) (h : s.Tracks F K) (t : RobTag) (pc : U64) :
    (violationFlush s t pc).Tracks F K := by
  refine tracks_of_kept h (violationFlush_steady hinv t pc) (violationFlush_calm hinv t pc).waiting ?_ fun wb hwb => ?_
  · rw [rob_violationFlush]
    cases s.eng.rob.prevTagOf t with
    | some keep => exact Rob.keepThrough_prefix _ _
    | none => exact List.nil_prefix
  · unfold violationFlush at hwb
    dsimp only at hwb
    cases hp : s.eng.rob.prevTagOf t with
    | some keep =>
      rw [hp] at hwb
      exact List.mem_of_mem_filter hwb
    | none =>
      rw [hp] at hwb
      exact absurd hwb List.not_mem_nil

/-- A tick that ends before memory2 leaves what rename has handed over, and nothing else. -/
theorem tick_squashed (h : reachingMem2 s = none) : (tick s).eng.rob.entries = [] ∧ (tick s).eng.mem2Wb = [] ∧
    ∀ x ∈ (tick s).signals, x ∈ s.signals := by
  have hflushed : ∀ t : O3State U, t.eng.pendingResults = [] → t.eng.executeMem1 = [] → t.eng.mem1Mem2 = [] →
      t.eng.mem2Wb = [] → t.cpu.l1dMshrs.parked = [] → t.eng.iq.bares = [] →
      (∀ w ∈ t.renameOutput, w ∈ s.renameOutput) → ∀ x ∈ t.signals, x ∈ s.signals := by
    intro t hp he h1 h2 hm hq ho x hx
    rcases List.mem_append.mp hx with hx | hx
    · obtain ⟨w, hw, rfl⟩ := List.mem_map.mp hx
      unfold O3State.waiting at hw
      rw [hq, List.nil_append] at hw
      obtain ⟨w', hw', rfl⟩ := List.mem_map.mp hw
      refine List.mem_append_left _ (List.mem_map.mpr ⟨w'.bare, ?_, rfl⟩)
      exact List.mem_append_right _ (List.mem_map_of_mem (ho w' hw'))
    · simp only [O3State.mem_carried, hp, he, h1, h2, hm, List.not_mem_nil, false_and, exists_false, or_false] at hx
  have hout : (commit (start s)).2.renameOutput = s.renameOutput := rfl
  unfold reachingMem2 at h
  unfold tick
  dsimp only at h ⊢
  generalize commit (start s) = r at h hout ⊢
  obtain ⟨trap, s₁⟩ := r
  dsimp only at hout
  cases trap with
  | some te =>
    obtain ⟨t, epc⟩ := te
    refine ⟨rfl, rfl, hflushed _ rfl rfl rfl rfl ?_ (IssueQueue.flush_bares) fun w hw => hout ▸ hw⟩
    have hm : (takeTrap s₁ t epc).cpu.l1dMshrs = s₁.cpu.l1dMshrs.flush := (Cpu.trap_frame _ t epc).mshrs
    dsimp only
    rw [hm]
    exact MshrFile.flush_parked.2
  | none =>
    dsimp only at h ⊢
    by_cases hpc : s₁.cpu.pc ≠ (start s).cpu.pc
    · rw [if_pos hpc]
      exact ⟨rfl, rfl, hflushed _ rfl rfl rfl rfl MshrFile.flush_parked.2 IssueQueue.flush_bares
        fun w hw => absurd hw List.not_mem_nil⟩
    · rw [if_neg hpc] at h
      exact absurd h (Option.some_ne_none _)

/-- Commit leaves what waits and what the latches carry. -/
theorem commit_signals (h : O3Inv D total s) : ∀ x ∈ (commit (start s)).2.signals, x ∈ s.signals := by
  have hs := start_keeps h
  have hdone := CommitState.commitStage_done (start s).eng.width (toCommit (start s)) (toCommit_inv hs.inv)
  have hparked : (commit (start s)).2.cpu.l1dMshrs = s.cpu.l1dMshrs := hdone.mshrs
  refine O3State.signals_of_steady (fun x hx => ?_) ((start_calm s).trans (commit_calm hs.inv)).waiting
  rw [O3State.mem_carried, hparked] at hx
  exact O3State.mem_carried.mpr hx

omit [Units U] in
/-- All of this is in the buffer. -/
theorem tag_of_signals (h : O3Inv D total s) {x : RobTag × ControlSignals} (hx : x ∈ s.signals) :
    x.1 ∈ s.eng.rob.tags := by
  rcases List.mem_append.mp hx with hx | hx
  · obtain ⟨w, hw, rfl⟩ := List.mem_map.mp hx
    exact tag_of_waiting h hw
  · have hcoming : ∃ y ∈ s.coming, y.1 = x.1 := by
      rcases O3State.mem_carried.mp hx with ⟨p, hp, hw, rfl⟩ | ⟨e, he, rfl⟩ | ⟨e, he, rfl⟩ | ⟨e, he, rfl⟩ | ⟨e, he, rfl⟩
      · exact ⟨p.entry.coming, O3State.mem_coming.mpr (Or.inl ⟨p, hp, hw, rfl⟩), rfl⟩
      · exact ⟨e.coming, O3State.mem_coming.mpr (Or.inr (Or.inl ⟨e, he, rfl⟩)), rfl⟩
      · exact ⟨e.coming, O3State.mem_coming.mpr (Or.inr (Or.inr (Or.inl ⟨e, he, rfl⟩))), rfl⟩
      · exact ⟨e.coming, O3State.mem_coming.mpr (Or.inr (Or.inr (Or.inr (Or.inl ⟨e, he, rfl⟩)))), rfl⟩
      · exact ⟨e.coming, O3State.mem_coming.mpr (Or.inr (Or.inr (Or.inr (Or.inr ⟨e, he, rfl⟩)))), rfl⟩
    obtain ⟨y, hy, hyx⟩ := hcoming
    exact hyx ▸ tag_of_coming h hy

omit [Units U] in
theorem mem2Wb_tags (h : O3Inv D total s) : ∀ wb ∈ s.eng.mem2Wb, wb.robTag ∈ s.eng.rob.tags := fun wb hwb =>
  tag_of_signals h (x := (wb.robTag, wb.ctrl)) (List.mem_append_right _ (O3State.mem_carried.mpr
    (Or.inr (Or.inr (Or.inr (Or.inl ⟨wb, hwb, rfl⟩))))))

/-- **Through a tick** that reaches memory2. -/
theorem tick_tracks (h : O3Inv D total s) (hm : reachingMem2 s = some m) (hf : (deviceTick s).From s.deviceView
      (commit (start s)).2.eng.rob) (htrack : s.Tracks F (DeviceLog.Knows F l.landings l.pend)) :
    O3Inv D total (tick s) ∧ (tick s).Tracks F (DeviceLog.Knows F (l.after (deviceTick s)).landings
      (l.held (deviceTick s))) := by
  have hv := sound h
  obtain ⟨hcommit, hkeeps⟩ := reachingMem2_keeps h hm
  have hwrite := writeback_keeps hcommit
  have hreach := reaches h hm
  have hpassed : (deviceTick s).passed =
      mem2Devices ⟨m.cpu, m.eng.sb, some m.eng.lq, none⟩ (sortByRawTag m.eng.mem1Mem2) := by
    show (reachingMem2 s).elim [] _ = _
    rw [hm]
    rfl
  have hsig : ∀ m ∈ s.deviceView.front, F m.robTag = some m.ctrl := fun m hm =>
    htrack.signals _ (O3State.signals_of_mem hm)
  have hbegin : Tracked F (DeviceLog.Knows F l.landings l.pend) s.deviceView.rob s.signals
      (commit (start s)).2.eng.mem2Wb := htrack
  have hcommitted : (commit (start s)).2.Tracks F (DeviceLog.Knows F (l.after (deviceTick s)).landings
      (l.held (deviceTick s))) :=
    DeviceLog.Knows.committed hbegin hf hv (fun wb hwb => List.mem_map_of_mem hwb) (mem2Wb_tags hcommit)
      (commit_signals h)
  obtain ⟨-, hmeq⟩ := reachingMem2_some hm
  have hreached : m.Tracks F (DeviceLog.Knows F (l.after (deviceTick s)).landings (l.held (deviceTick s))) := by
    rw [hmeq]
    exact drainMshrs_tracks hwrite.inv (writeback_tracks hcommitted)
  have hwb : m.eng.mem2Wb = [] := by
    rw [hmeq]
    exact drainMshrs_latch.trans writeback_latch
  obtain ⟨hrob, hout, -⟩ := memory2_frame m
  have hmem : (memory2 m).2.Tracks F (DeviceLog.Knows F (l.after (deviceTick s)).landings (l.held (deviceTick s))) := by
    unfold O3State.Tracks at hreached ⊢
    rw [hwb] at hreached
    rw [hrob, hout]
    exact DeviceLog.Knows.memory2 hreached hf hv hreach hpassed hsig
      (O3State.signals_of_steady ((memory2_steady m).carried .signals) (memory2_calm m).waiting)
  have hinv := (memory2_keeps hkeeps.inv hwb).1.inv
  have hrest := (tickRest_keeps hcommit).1.inv
  rcases tick_reaching s with ⟨hnone, -, -⟩ | ⟨m', hm', htick⟩
  · rw [hnone] at hm
    exact absurd hm (by simp)
  · rw [hm] at hm'
    obtain rfl := Option.some.inj hm'
    unfold tickRest at hrest
    rw [← hmeq] at hrest
    rw [htick]
    refine ⟨hrest, ?_⟩
    generalize memory2 m = r at hmem hinv
    rcases r with ⟨_ | ⟨t, pc⟩, s'⟩
    · exact tickBack_tracks hinv hmem
    · exact violationFlush_tracks hinv hmem t pc

/-- **An orderly tick** serves the loads that commit, and its log accounts for what is in flight. -/
theorem tick_served (h : O3Inv D total s) (ho : s.deviceView.Orderly l.pend) (hex : l.Exact s.eng.rob.tags)
    (hacc : l.Accounts s.eng.rob s.signals s.eng.mem2Wb) :
    (l.after (deviceTick s)).Exact (tick s).eng.rob.tags ∧
      (l.after (deviceTick s)).Accounts (tick s).eng.rob (tick s).signals (tick s).eng.mem2Wb := by
  have hf := deviceTick_from h ho
  have hv := sound h
  have hkept := deviceTick_kept h ho hex.along
  obtain ⟨F, htrack, hrec⟩ := hacc
  have hrec' := hrec.held hf hv ho hex.along fun m hm => htrack.signals _ (O3State.signals_of_mem hm)
  constructor
  · obtain ⟨hlive, hserved⟩ := DeviceLog.served hf hv ho hex.along htrack hrec hkept
    exact DeviceLog.after_exact (hlive ▸ hex) hserved
  · rcases tick_reaching s with ⟨hnone, -, -⟩ | ⟨m, hm, -⟩
    · obtain ⟨hrob, hwb, hsub⟩ := tick_squashed hnone
      refine DeviceLog.Accounts.after (htrack.emptied hrob hwb hsub) hrec' rfl ?_
      rw [hwb]
      exact fun _ h => absurd h List.not_mem_nil
    · obtain ⟨hinv, htracks⟩ := tick_tracks h hm hf htrack
      exact DeviceLog.Accounts.after htracks hrec' rfl (mem2Wb_tags hinv)

end

end

end O3

/-! ### Runs -/

namespace O3Pipeline

variable [Units U]

/-- The log behind the next tick of the engine, if the machine has not exited. -/
def logAfter (p : O3Pipeline U) (l : DeviceLog) : DeviceLog := p.toTick.elim l fun s => l.after (O3.deviceTick s)

/-- The condition on the state in which the engine's next tick begins. -/
def Orderly (p : O3Pipeline U) (l : DeviceLog) : Prop := p.core.SpanOk ∧ ∀ s ∈ p.toTick, s.deviceView.Orderly l.pend

instance (p : O3Pipeline U) (l : DeviceLog) : Decidable (p.Orderly l) := inferInstanceAs (Decidable (_ ∧ ∀ s ∈ _, _))

/-- A run whose steps meet `S`, with its log. -/
inductive LoggedRun (cfg : Config) (S : O3Pipeline U → DeviceLog → Prop) : O3Pipeline U → DeviceLog → Prop where
  | init (cpu : Cpu U) (h : Loaded cfg cpu) : LoggedRun cfg S (O3Pipeline.init cfg cpu) {}
  | tick (p : O3Pipeline U) (l : DeviceLog) (h : LoggedRun cfg S p l) (hs : S p l) :
      LoggedRun cfg S p.tick (p.logAfter l)

section

variable {p : O3Pipeline U}

omit [Units U] in
/-- What a run keeps. -/
structure Logs (p : O3Pipeline U) (l : DeviceLog) : Prop where
  accounts : l.Accounts p.core.eng.rob p.core.signals p.core.eng.mem2Wb
  decoded : ∀ id ∈ p.frontend.decodeRename, id.Sound

omit [Units U] in
theorem signals_ofCpu {s : O3State U} {cpu : Cpu U} (hf : s.cpu.Frame cpu) :
    ({ s with cpu := cpu } : O3State U).signals = s.signals := by
  unfold O3State.signals O3State.waiting O3State.carried
  dsimp only
  rw [hf.mshrs]

omit [Units U] in
theorem Logs.ofCpu (h : Logs p l) {cpu : Cpu U} (hf : p.core.cpu.Frame cpu) :
    Logs { p with core := { p.core with cpu := cpu } } l :=
  ⟨(signals_ofCpu hf).symm ▸ h.accounts, h.decoded⟩

/-- **The engine's tick** and the redirect. -/
theorem Logs.afterEngine (hinv : O3Inv D total p.core) (h : Logs p l) (ho : p.core.deviceView.Orderly l.pend)
    (hex : l.Exact p.core.eng.rob.tags) : Logs p.afterEngine (l.after (O3.deviceTick p.core)) ∧
      (l.after (O3.deviceTick p.core)).Exact p.afterEngine.core.eng.rob.tags := by
  obtain ⟨hexact, hacc⟩ := O3.tick_served hinv ho hex h.accounts
  unfold O3Pipeline.afterEngine O3Pipeline.redirect
  dsimp only
  split
  · refine ⟨⟨hacc.steady List.prefix_rfl (O3State.signals_of_steady (fun x hx => hx) fun w hw => ?_)
      fun _ hwb => hwb, ?_⟩, hexact⟩
    · exact List.mem_append_left _ (by simpa [O3State.waiting] using hw)
    · simp [Frontend.flush]
  · exact ⟨⟨hacc, h.decoded⟩, hexact⟩

/-- **Rename** and the front end. -/
theorem Logs.frontendTick (hinv : O3Inv D total p.core) (h : Logs p l) (hout : p.core.renameOutput = [])
    (hone : p.frontend.Decoded) (hal : Ledger.Along p.core.eng.rob.tags l.pend)
    (hnd : p.frontendTick.core.eng.rob.tags.Nodup) : Logs p.frontendTick l := by
  obtain ⟨g, es, ws, hent, hfix, hst, -, hissued, hwait, -, hdesc⟩ :=
    ((O3.renameLoop_run _ p.core p.frontend.decodeRename (O3.budget_canAccept hout) hone).adds h.decoded).added
  obtain ⟨rob, fl, m, prf, sb, lq, ckpts, heng⟩ :=
    (O3.renameLoop_frame (O3.canAccept p.core.eng) p.core p.frontend.decodeRename).eng
  obtain ⟨hcpu, hleft⟩ := O3.renameStage_cpu hout hone
  obtain ⟨u, pc, htick⟩ := Frontend.tickBehind_cpu
    { p.frontend with decodeRename := (O3.renameStage p.core p.frontend.decodeRename).1 }
    (O3.renameStage p.core p.frontend.decodeRename).2.cpu true
  have hsound := Frontend.tickBehind_sound (f := { p.frontend with
    decodeRename := (O3.renameStage p.core p.frontend.decodeRename).1 }) (fun id hid => h.decoded id (hleft id hid))
    (O3.renameStage p.core p.frontend.decodeRename).2.cpu true
  have hnew : ∀ x ∈ ws.map (fun w => (w.robTag, w.ctrl)), ∃ e ∈ es, x = (e.tag, e.ctrl) := by
    intro x hx
    obtain ⟨w, hw, rfl⟩ := List.mem_map.mp hx
    obtain ⟨e, he, htag, hd⟩ := hdesc w hw
    exact ⟨e, he, by rw [htag, hd.2.2]⟩
  have hbuf : (O3.renameStage p.core p.frontend.decodeRename).2.eng.rob.entries =
      p.core.eng.rob.entries.map g ++ es := hent
  have happ := h.accounts.append hbuf hfix hst hissued hnd (fun x hx => O3.tag_of_signals hinv hx)
    (O3.mem2Wb_tags hinv) hal hnew
  have hcarried : (O3.renameStage p.core p.frontend.decodeRename).2.carried Carried.signals =
      p.core.carried Carried.signals := by
    unfold O3State.carried
    rw [hcpu]
    unfold O3.renameStage
    rw [heng]
  have hlogs : Logs { p with core := (O3.renameStage p.core p.frontend.decodeRename).2 } l := by
    refine ⟨happ.steady List.prefix_rfl (fun x hx => ?_) fun wb hwb => ?_, h.decoded⟩
    · rcases List.mem_append.mp hx with hx | hx
      · have hwait' : (O3.renameStage p.core p.frontend.decodeRename).2.waiting = p.core.waiting ++ ws := hwait
        rw [hwait', List.map_append] at hx
        rcases List.mem_append.mp hx with hx | hx
        · exact List.mem_append_left _ (List.mem_append_left _ hx)
        · exact List.mem_append_right _ hx
      · rw [hcarried] at hx
        exact List.mem_append_left _ (List.mem_append_right _ hx)
    · unfold O3.renameStage at hwb
      rw [heng] at hwb
      exact hwb
  have hframe : (O3.renameStage p.core p.frontend.decodeRename).2.cpu.Frame p.frontendTick.core.cpu := by
    unfold O3Pipeline.frontendTick
    dsimp only
    rw [htick]
    exact ⟨rfl, rfl⟩
  exact ⟨(hlogs.ofCpu hframe).accounts, hsound⟩

theorem pipelineTick_tags (p : O3Pipeline U) :
    ∃ new, p.pipelineTick.core.eng.rob.tags = p.afterEngine.core.eng.rob.tags ++ new := by
  rw [pipelineTick_eq]
  split
  · obtain ⟨new, hnew⟩ := (O3.renameLoop_frame (O3.canAccept p.afterEngine.core.eng) p.afterEngine.core
      p.afterEngine.frontend.decodeRename).tags
    exact ⟨new, hnew⟩
  · exact ⟨[], (List.append_nil _).symm⟩

/-- **A tick of the simulator.** -/
theorem Logs.tick (hinv : Inv D total p) (h : Logs p l) (ho : p.Orderly l) (hex : l.Exact p.core.eng.rob.tags) :
    (p.logAfter l).Exact p.tick.core.eng.rob.tags ∧
      (Inv D total p.tick → Logs p.tick (p.logAfter l)) := by
  have hpre := h.ofCpu (preTick_frame p.core.cpu)
  have hinvpre := hinv.ofCpu (preTick_frame p.core.cpu)
  obtain ⟨-, hview⟩ := ho
  unfold toTick at hview
  unfold logAfter toTick O3Pipeline.tick
  rcases hr : p.core.cpu.preTick with ⟨skip, cpu⟩
  simp only [hr] at hpre hinvpre hview ⊢
  cases skip with
  | true =>
    simp only [if_true, Option.elim_none]
    exact ⟨hex, fun _ => hpre.ofCpu (postTick_frame _)⟩
  | false =>
    simp only [Bool.false_eq_true, if_false, Option.elim_some, Option.mem_def, Option.some.injEq, forall_eq'] at hview ⊢
    obtain ⟨hafter, hexact⟩ := Logs.afterEngine hinvpre.core hpre hview hex
    obtain ⟨heng, hout⟩ := afterEngine_inv hinvpre
    obtain ⟨new, hnew⟩ := pipelineTick_tags { p with core := { p.core with cpu := cpu } }
    refine ⟨?_, fun hinv' => Logs.ofCpu ?_ (postTick_frame _)⟩
    · rw [hnew]
      exact hexact.append new
    · have hnd := hinv'.core.flight.nodup_tags
      rw [pipelineTick_eq] at hnd ⊢
      generalize O3Pipeline.afterEngine { p with core := { p.core with cpu := cpu } } = q
        at heng hout hafter hexact hnd ⊢
      by_cases hf : q.core.cpu.fetching
      · rw [if_pos hf] at hnd ⊢
        exact hafter.frontendTick heng.core hout heng.decoded hexact.along hnd
      · rw [if_neg hf]
        exact hafter

omit [Units U] in
theorem logs_init {cfg : Config} {cpu : Cpu U} (hl : Loaded cfg cpu) : Logs (O3Pipeline.init cfg cpu) {} := by
  have hinv : Inv False (cfg.prfGprSize + cfg.prfFprSize) (O3Pipeline.init cfg cpu) := init_inv hl
  refine ⟨(DeviceLog.accounts_init rfl).steady List.prefix_rfl (fun x hx => ?_) fun _ hwb => hwb,
    fun id hid => absurd hid List.not_mem_nil⟩
  exact absurd (O3.tag_of_signals hinv.core hx) List.not_mem_nil

/-- **Exactly once in a run** of which each tick begins in an orderly state. -/
theorem LoggedRun.exact {cfg : Config} (h : LoggedRun cfg Orderly p l) : l.Exact p.core.eng.rob.tags := by
  suffices hrun : (p.core.SpanOk → Inv False (cfg.prfGprSize + cfg.prfFprSize) p ∧ Logs p l) ∧
      l.Exact p.core.eng.rob.tags from hrun.2
  induction h with
  | init cpu hl => exact ⟨fun _ => ⟨init_inv hl, logs_init hl⟩, DeviceLog.exact_init _⟩
  | tick p l _ hs ih =>
    obtain ⟨hall, hex⟩ := ih
    obtain ⟨hinv, hlogs⟩ := hall hs.1
    obtain ⟨hexact, hlogs'⟩ := hlogs.tick hinv hs hex
    refine ⟨fun hspan => ?_, hexact⟩
    have hinv' := tick_inv hinv hspan fun hf => hf.elim
    exact ⟨hinv', hlogs' hinv'⟩

end

end O3Pipeline

end Rvsim
