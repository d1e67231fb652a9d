/-
# What the stages leave of a faulted entry

A result written for a memory access may bring a trap of its own, which
replaces the one its entry has; `complete` leaves a faulted entry alone.
So a faulted entry is safe from every stage but execution unless a memory
access with its tag is on its way, and no stage starts one.

Key definitions:
  - `O3State.memFlying`, `Rob.Cools`, `O3State.Calm`, `O3State.Frozen`
Key theorems:
  - `O3.commit_calm`, `O3.writeback_calm`, `O3.memory2_calm`, `O3.memory1_calm`,
    `O3.drainPending_calm`, `O3.violationFlush_calm`, `O3.recover_calm`, `O3.dispatch_calm`
-/
import Rvsim.Registers

namespace Rvsim

variable {U : Type} {D : Prop} {total : Nat} {s s' s'' : O3State U}

/-! ### What the memory stages hold -/

/-- Memory accesses on their way: pending, in the latches, or behind a miss. -/
def O3State.memFlying (s : O3State U) : List (RobTag × PhysReg) :=
  (s.eng.pendingResults.filter fun p => p.entry.ctrl.isMem).map (fun p => p.entry.dest) ++
    (s.eng.executeMem1.map ExMem1Entry.dest ++
      (s.eng.mem1Mem2.map Mem1Mem2Entry.dest ++
        (s.eng.mem2Wb.map Mem2WbEntry.dest ++ s.cpu.l1dMshrs.parked.map Mem1Mem2Entry.dest)))

/-- Their tags. -/
def O3State.memTags (s : O3State U) : List RobTag := s.memFlying.map Prod.fst

/-- Every entry of `r'` was in `r`; one that had faulted has kept its trap unless its tag is hot. -/
def Rob.Cools (hot : List RobTag) (r r' : Rob) : Prop :=
  ∀ e' ∈ r'.entries, ∃ e ∈ r.entries, e.tag = e'.tag ∧
    (e.state = .faulted → e.tag ∉ hot → e'.state = .faulted ∧ e'.trap = e.trap)

theorem Rob.mem_of_keepThrough {tag : RobTag} {es : List RobEntry} {x : RobEntry}
    (h : x ∈ Rob.keepThrough tag es) : x ∈ es := by
  induction es with
  | nil => exact h
  | cons e es ih =>
    rw [Rob.keepThrough] at h
    split at h
    · exact List.mem_singleton.mp h ▸ List.mem_cons_self
    · rcases List.mem_cons.mp h with rfl | h'
      · exact List.mem_cons_self
      · exact List.mem_cons_of_mem _ (ih h')

namespace Rob.Cools

variable {hot : List RobTag} {r r' r'' : Rob}

theorem of_subset (h : ∀ e ∈ r'.entries, e ∈ r.entries) : Cools hot r r' :=
  fun e he => ⟨e, h e he, rfl, fun hf _ => ⟨hf, rfl⟩⟩

theorem refl (r : Rob) : Cools hot r r := of_subset fun _ h => h

theorem trans (h : Cools hot r r') (h' : Cools hot r' r'') : Cools hot r r'' := by
  intro e'' he''
  obtain ⟨e', he', htag', hkeep'⟩ := h' e'' he''
  obtain ⟨e, he, htag, hkeep⟩ := h e' he'
  refine ⟨e, he, htag.trans htag', fun hf hcold => ?_⟩
  obtain ⟨hf', htrap⟩ := hkeep hf hcold
  obtain ⟨hf'', htrap'⟩ := hkeep' hf' (htag ▸ hcold)
  exact ⟨hf'', htrap'.trans htrap⟩

theorem mono {hot' : List RobTag} (hsub : ∀ t ∈ hot, t ∈ hot') (h : Cools hot r r') : Cools hot' r r' := by
  intro e' he'
  obtain ⟨e, he, htag, hkeep⟩ := h e' he'
  exact ⟨e, he, htag, fun hf hcold => hkeep hf fun hc => hcold (hsub _ hc)⟩

/-- Entries updated one by one. -/
theorem of_map {g : RobEntry → RobEntry} (hr : r'.entries = r.entries.map g) (htag : ∀ e, (g e).tag = e.tag)
    (hkeep : ∀ e, e.state = .faulted → e.tag ∉ hot → (g e).state = .faulted ∧ (g e).trap = e.trap) :
    Cools hot r r' := by
  intro e' he'
  rw [hr] at he'
  obtain ⟨e, he, rfl⟩ := List.mem_map.mp he'
  exact ⟨e, he, (htag e).symm, hkeep e⟩

/-- An update that leaves faulted entries as they are. -/
theorem modify (tag : RobTag) {f : RobEntry → RobEntry} (htag : ∀ e, (f e).tag = e.tag)
    (hkeep : ∀ e, e.state = .faulted → (f e).state = .faulted ∧ (f e).trap = e.trap) :
    Cools hot r (r.modify tag f) := by
  refine of_map (g := fun e => if e.tag = tag then f e else e) rfl (fun e => ?_) fun e hf _ => ?_
  · split
    · exact htag e
    · rfl
  · split
    · exact hkeep e hf
    · exact ⟨hf, rfl⟩

theorem complete (tag : RobTag) (v : U64) : Cools hot r (r.complete tag v) := by
  refine modify tag (fun e => ?_) fun e hf => ?_
  · split
    · rfl
    · rfl
  · rw [if_pos hf]
    exact ⟨hf, rfl⟩

theorem fault {tag : RobTag} (hhot : tag ∈ hot) (t : Trap) : Cools hot r (r.fault tag t) := by
  refine of_map (g := fun e => if e.tag = tag then { e with state := .faulted, trap := some t } else e) rfl
    (fun e => ?_) fun e hf hcold => ?_
  · split
    · rfl
    · rfl
  · rw [if_neg fun h : e.tag = tag => hcold (by rw [h]; exact hhot)]
    exact ⟨hf, rfl⟩

end Rob.Cools

/-- Nothing that had faulted changes, unless a memory access with its tag is on its way; no memory
access comes up and nothing starts to wait. -/
structure O3State.Calm (s s' : O3State U) : Prop where
  rob : Rob.Cools s.memTags s.eng.rob s'.eng.rob
  mem : ∀ x ∈ s'.memFlying, x ∈ s.memFlying
  waiting : ∀ w ∈ s'.waiting, w ∈ s.waiting

namespace O3State.Calm

theorem refl (s : O3State U) : Calm s s := ⟨Rob.Cools.refl _, fun _ h => h, fun _ h => h⟩

theorem memTags (h : Calm s s') : ∀ t ∈ s'.memTags, t ∈ s.memTags := by
  intro t ht
  obtain ⟨x, hx, rfl⟩ := List.mem_map.mp ht
  exact List.mem_map_of_mem (h.mem x hx)

theorem trans (h : Calm s s') (h' : Calm s' s'') : Calm s s'' :=
  ⟨h.rob.trans (h'.rob.mono h.memTags), fun x hx => h.mem x (h'.mem x hx), fun w hw => h.waiting w (h'.waiting w hw)⟩

end O3State.Calm

/-- The entry tagged `m.1` has the trap `m.2`, and nothing that waits or is on its way in the memory
stages has its tag. -/
structure O3State.Frozen (s : O3State U) (ws : List RenameIssueEntry) (m : RobTag × Trap) : Prop where
  entry : ∀ e ∈ s.eng.rob.entries, e.tag = m.1 → e.state = .faulted ∧ e.trap = some m.2
  mem : m.1 ∉ s.memTags
  waiting : m.1 ∉ ws.map (·.robTag)

namespace O3State.Frozen

variable {m : RobTag × Trap} {ws : List RenameIssueEntry}

theorem calm (h : s.Frozen s.waiting m) (hc : Calm s s') : s'.Frozen s'.waiting m where
  entry e' he' ht := by
    obtain ⟨e, he, htag, hkeep⟩ := hc.rob e' he'
    obtain ⟨hf, htrap⟩ := h.entry e he (htag.trans ht)
    obtain ⟨hf', htrap'⟩ := hkeep hf (by rw [htag, ht]; exact h.mem)
    exact ⟨hf', htrap'.trans htrap⟩
  mem hm := h.mem (hc.memTags _ hm)
  waiting hw := by
    obtain ⟨w, hw', ht⟩ := List.mem_map.mp hw
    exact h.waiting (List.mem_map.mpr ⟨w, hc.waiting w hw', ht⟩)

theorem mono {ws' : List RenameIssueEntry} (h : s.Frozen ws m) (hsub : ∀ w ∈ ws', ∃ w' ∈ ws, w'.robTag = w.robTag) :
    s.Frozen ws' m :=
  ⟨h.entry, h.mem, fun hw => by
    obtain ⟨w, hw, ht⟩ := List.mem_map.mp hw
    obtain ⟨w', hw', ht'⟩ := hsub w hw
    exact h.waiting (List.mem_map.mpr ⟨w', hw', ht'.trans ht⟩)⟩

end O3State.Frozen

namespace O3

open O3State (Calm)

/-! ### The stages are calm -/

/-- A stage that moves memory accesses and keeps buffer and queue. -/
theorem calm_of_moved (hr : s'.eng.rob.entries = s.eng.rob.entries) (hm : ∀ x ∈ s'.memFlying, x ∈ s.memFlying)
    (hq : s'.eng.iq.bares = s.eng.iq.bares) (ho : s'.renameOutput = s.renameOutput) : Calm s s' where
  rob := Rob.Cools.of_subset fun e he => hr ▸ he
  mem := hm
  waiting w hw := by
    unfold O3State.waiting at hw ⊢
    rw [hq, ho] at hw
    exact hw

/-- Everything is dropped, but for what waits for dispatch. -/
theorem calm_of_flushed (hr : s'.eng.rob.entries = []) (hp : s'.eng.pendingResults = [])
    (he : s'.eng.executeMem1 = []) (h1 : s'.eng.mem1Mem2 = []) (h2 : s'.eng.mem2Wb = [])
    (hm : s'.cpu.l1dMshrs = s.cpu.l1dMshrs.flush) (hq : s'.eng.iq = s.eng.iq.flush)
    (ho : ∀ w ∈ s'.renameOutput, w ∈ s.renameOutput) : Calm s s' where
  rob := Rob.Cools.of_subset fun e he => by simp [hr] at he
  mem x hx := by
    simp only [O3State.memFlying, hp, he, h1, h2, hm, MshrFile.flush_parked.2, List.filter_nil, List.map_nil,
      List.append_nil, List.not_mem_nil] at hx
  waiting w hw := by
    simp only [O3State.waiting, hq, IssueQueue.flush_bares, List.nil_append] at hw
    obtain ⟨w', hw', rfl⟩ := List.mem_map.mp hw
    exact List.mem_append_right _ (List.mem_map_of_mem (ho w' hw'))

section

variable [Units U]

theorem start_calm (s : O3State U) : Calm s (start s) := calm_of_moved rfl (fun _ h => h) rfl rfl

theorem commit_calm (h : O3Inv D total s) : Calm s (commit s).2 := by
  have hd := CommitState.commitStage_done s.eng.width (toCommit s) (toCommit_inv h)
  have hm : (commit s).2.memFlying = s.memFlying := by
    show _ ++ (_ ++ (_ ++ (_ ++ (commitStage (toCommit s) s.eng.width).2.cpu.l1dMshrs.parked.map _))) = _
    rw [hd.mshrs]
    rfl
  exact ⟨Rob.Cools.of_subset fun e he => hd.entries.subset he, fun x hx => hm ▸ hx, fun w hw => hw⟩

theorem takeTrap_calm (s : O3State U) (t : Trap) (epc : U64) : Calm s (takeTrap s t epc) :=
  calm_of_flushed rfl rfl rfl rfl rfl (Cpu.trap_frame _ t epc).mshrs rfl fun _ h => h

omit [Units U] in
theorem writeOne_calm {eng : O3Engine} {wb : Mem2WbEntry} {left : List Mem2WbEntry} :
    Calm (writing s eng (wb :: left)) (writing s (writeOne eng wb) left) := by
  have hhot : wb.robTag ∈ (writing s eng (wb :: left)).memTags := by
    refine List.mem_map.mpr ⟨wb.dest, ?_, rfl⟩
    simp [O3State.memFlying, writing]
  have hmem : ∀ x ∈ (writing s (writeOne eng wb) left).memFlying, x ∈ (writing s eng (wb :: left)).memFlying := by
    intro x hx
    have hlatch : (writeOne eng wb).pendingResults = eng.pendingResults ∧
        (writeOne eng wb).executeMem1 = eng.executeMem1 ∧ (writeOne eng wb).mem1Mem2 = eng.mem1Mem2 := by
      unfold writeOne
      split
      · exact ⟨rfl, rfl, rfl⟩
      · exact ⟨rfl, rfl, rfl⟩
    obtain ⟨h1, h2, h3⟩ := hlatch
    simp only [O3State.memFlying, writing, h1, h2, h3, List.mem_append, List.map_cons, List.mem_cons] at hx ⊢
    tauto
  have hiq : (writeOne eng wb).iq.bares = eng.iq.bares := by
    unfold writeOne
    split
    · rfl
    · exact IssueQueue.bares_wakeupPhys _ _
  refine ⟨?_, hmem, fun w hw => ?_⟩
  · show Rob.Cools _ eng.rob (writeOne eng wb).rob
    unfold writeOne
    split
    · exact Rob.Cools.fault hhot _
    · next hnone =>
      show Rob.Cools _ eng.rob (writebackOne eng.rob wb)
      unfold writebackOne
      rw [hnone]
      refine Rob.Cools.trans ?_ (Rob.Cools.complete _ _)
      exact Rob.Cools.modify _ (fun _ => rfl) fun _ hf => ⟨hf, rfl⟩
  · unfold O3State.waiting at hw ⊢
    change w ∈ (writeOne eng wb).iq.bares ++ _ at hw
    rw [hiq] at hw
    exact hw

omit [Units U] in
theorem writeback_calm (s : O3State U) : Calm s (writeback s) := by
  have hloop : ∀ (wbs : List Mem2WbEntry) (eng : O3Engine),
      Calm (writing s eng wbs) (writing s (wbs.foldl writeOne eng) []) := by
    intro wbs
    induction wbs with
    | nil => exact fun eng => Calm.refl _
    | cons wb wbs ih => exact fun eng => writeOne_calm.trans (ih (writeOne eng wb))
  rw [writeback_state]
  exact hloop s.eng.mem2Wb s.eng

theorem drainMshrs_calm (h : O3Inv D total s) : Calm s (drainMshrs s) := by
  unfold drainMshrs
  by_cases hc : s.cpu.l1dMshrs.capacity > 0
  · simp only [if_pos hc]
    refine calm_of_moved rfl (fun x hx => ?_) rfl rfl
    have hd := ((MshrFile.drain_parked h.mshrs s.eng.cycle).2.map Mem1Mem2Entry.dest).mem_iff (a := x)
    simp only [List.map_append, List.mem_append] at hd
    simp only [O3State.memFlying, List.map_append, List.mem_append, unpark_dest] at hx ⊢
    tauto
  · simp only [if_neg hc]
    exact Calm.refl s

theorem storeResolved_calm (s : O3State U) (wb : Mem2WbEntry) : Calm s (storeResolved s wb) := by
  unfold storeResolved
  split
  · split
    · exact calm_of_moved rfl (fun _ h => h) (IssueQueue.bares_wakeupMemDep _) rfl
    · exact calm_of_moved rfl (fun _ h => h) rfl rfl
  · exact Calm.refl s

theorem foldl_storeResolved_calm (wbs : List Mem2WbEntry) (s : O3State U) : Calm s (wbs.foldl storeResolved s) := by
  induction wbs generalizing s with
  | nil => exact Calm.refl s
  | cons wb wbs ih => exact (storeResolved_calm s wb).trans (ih (storeResolved s wb))

theorem memory2_calm (s : O3State U) : Calm s (memory2 s).2 := by
  have hmoved := memory2Stage_moved s.eng.mem1Mem2 ⟨s.cpu, s.eng.sb, some s.eng.lq, none⟩
  unfold memory2
  simp only
  revert hmoved
  generalize memory2Stage (⟨s.cpu, s.eng.sb, some s.eng.lq, none⟩ : Mem2State U) s.eng.mem1Mem2 = r
  obtain ⟨left, out, m⟩ := r
  rintro ⟨hp, ⟨u, hu⟩, -⟩
  simp only at hp hu
  have hmv : Calm s { s with cpu := m.cpu, eng := { s.eng with
      sb := m.sb, lq := m.lq.getD s.eng.lq, mem1Mem2 := left, mem2Wb := out } } := by
    refine calm_of_moved rfl (fun x hx => ?_) rfl rfl
    have hx' := hp.mem_iff (a := x)
    simp only [List.mem_append] at hx'
    simp only [O3State.memFlying, List.mem_append, hu] at hx ⊢
    tauto
  exact hmv.trans (foldl_storeResolved_calm out _)

omit [Units U] in
/-- A squash behind an entry drops, and keeps the rest as it is. -/
theorem CutAfter.calm {e : RobEntry} (hc : CutAfter s e s') (hok : s.cpu.l1dMshrs.Ok) : Calm s s' := by
  refine ⟨Rob.Cools.of_subset fun x hx => ?_, fun x hx => ?_, fun w hw => ?_⟩
  · rw [hc.rob] at hx
    exact Rob.mem_of_keepThrough hx
  · have hsub : s'.memFlying.Sublist s.memFlying := by
      simp only [O3State.memFlying, hc.pending, hc.executeMem1, hc.mem1Mem2, hc.mem2Wb, hc.mshrs,
        (MshrFile.flushAfter_parked hok e.tag).2]
      refine ((List.filter_sublist.filter _).map _).append ((List.filter_sublist.map _).append ?_)
      exact (List.filter_sublist.map _).append ((List.filter_sublist.map _).append (List.filter_sublist.map _))
    exact hsub.subset hx
  · simp only [O3State.waiting, hc.output, hc.iq, IssueQueue.flushAfter_bares, List.map_nil, List.append_nil] at hw
    exact List.mem_append_left _ (List.mem_filter.mp hw).1

theorem violationFlush_calm (h : O3Inv D total s) (t : RobTag) (pc : U64) : Calm s (violationFlush s t pc) := by
  cases hprev : s.eng.rob.prevTagOf t with
  | some keep =>
    obtain ⟨pre, e, x, post, hsplit, rfl, rfl⟩ := prevTagOf_some hprev
    exact (violationFlush_cut pc hsplit hprev).2.calm h.mshrs
  | none =>
    unfold violationFlush
    simp only [hprev]
    exact calm_of_flushed rfl rfl rfl rfl rfl rfl rfl fun w hw => absurd hw List.not_mem_nil

theorem memory1_calm (h : O3Inv D total s) : Calm s (memory1 s) := by
  unfold memory1
  by_cases hb : mem1Busy s
  · rw [if_pos hb]
    exact Calm.refl s
  · rw [if_neg hb]
    obtain ⟨-, -, hp⟩ := memory1Stage_perm s.eng.executeMem1 s.cpu h.mshrs s.eng.mem1Mem2 s.eng.cycle
      (some s.eng.lq) []
    refine calm_of_moved rfl (fun x hx => ?_) (IssueQueue.foldl_cancelWakeupPhys _ _ _).1 rfl
    have hx' := hp.mem_iff (a := x)
    simp only [List.mem_append] at hx'
    simp only [O3State.memFlying, List.mem_append] at hx ⊢
    tauto

omit [Units U] in
theorem completeAlu_cools (hot : List RobTag) (eng : O3Engine) (e : ExMem1Entry) :
    Rob.Cools hot eng.rob (completeAlu eng e).rob := by
  have hfp : Rob.Cools hot eng.rob (eng.rob.setFpFlags e.robTag e.fpFlags) :=
    Rob.Cools.modify _ (fun _ => rfl) fun _ hf => ⟨hf, rfl⟩
  refine Rob.Cools.trans ?_ (Rob.Cools.complete e.robTag (aluResult e))
  split
  · exact hfp.trans (Rob.Cools.modify _ (fun _ => rfl) fun _ hf => ⟨hf, rfl⟩)
  · exact hfp

omit [Units U] in
theorem finishPending_calm {eng : O3Engine} {p : PendingResult} {due left : List PendingResult} :
    Calm (draining s eng (p :: due) left) (draining s (finishPending eng p) due left) := by
  unfold finishPending
  by_cases hmem : p.entry.ctrl.isMem
  · rw [if_pos hmem]
    refine calm_of_moved rfl (fun x hx => ?_) rfl rfl
    simp only [O3State.memFlying, draining, List.cons_append, List.filter_cons, hmem, if_true, List.map_cons,
      List.map_append, List.map_nil, List.mem_append, List.mem_cons, List.not_mem_nil, or_false] at hx ⊢
    tauto
  · have hdrop : ∀ eng' : O3Engine, eng'.executeMem1 = eng.executeMem1 → eng'.mem1Mem2 = eng.mem1Mem2 →
        eng'.mem2Wb = eng.mem2Wb → ∀ x ∈ (draining s eng' due left).memFlying,
          x ∈ (draining s eng (p :: due) left).memFlying := by
      intro eng' h1 h2 h3 x hx
      simp only [O3State.memFlying, draining, h1, h2, h3, List.cons_append, List.filter_cons, hmem,
        Bool.false_eq_true, if_false] at hx ⊢
      exact hx
    rw [if_neg hmem]
    by_cases hw : p.speculativeWritten
    · rw [if_pos hw]
      exact calm_of_moved rfl (hdrop eng rfl rfl rfl) rfl rfl
    · rw [if_neg hw]
      refine ⟨completeAlu_cools _ eng p.entry, hdrop _ rfl rfl rfl, fun w hw' => ?_⟩
      unfold O3State.waiting at hw' ⊢
      rw [show (draining s (completeAlu eng p.entry) due left).eng.iq.bares = eng.iq.bares from
        IssueQueue.bares_wakeupPhys _ _] at hw'
      exact hw'

omit [Units U] in
theorem drainPending_calm (s : O3State U) : Calm s { s with eng := drainPending s.eng } := by
  have hloop : ∀ (due left : List PendingResult) (eng : O3Engine),
      Calm (draining s eng due left) (draining s (due.foldl finishPending eng) [] left) := by
    intro due left
    induction due with
    | nil => exact fun eng => Calm.refl _
    | cons p due ih => exact fun eng => finishPending_calm.trans (ih (finishPending eng p))
  have hsplit := splitDue_perm s.eng.cycle s.eng.pendingResults.length s.eng.pendingResults rfl
  unfold drainPending
  revert hsplit
  generalize splitDue s.eng.cycle s.eng.pendingResults.length s.eng.pendingResults = r
  obtain ⟨due, left⟩ := r
  intro hsplit
  have hstart : Calm s (draining s s.eng due left) := by
    refine calm_of_moved rfl (fun x hx => ?_) rfl rfl
    have hx' := ((hsplit.filter fun p => p.entry.ctrl.isMem).map fun p => p.entry.dest).mem_iff (a := x)
    simp only [O3State.memFlying, draining, List.mem_append] at hx hx' ⊢
    tauto
  dsimp only
  rw [foldl_finishPending_latch]
  exact hstart.trans (hloop due left s.eng)

theorem recover_calm {rest : List RenameIssueEntry} {keep : RobTag} (h : O3Selected D total s rest)
    (hk : keep ∈ s.eng.rob.entries.map (·.tag)) : Calm s (recover s keep) := by
  obtain ⟨e, he, rfl⟩ := List.mem_map.mp hk
  exact (recover_cut h he).calm h.mshrs

theorem dispatch_calm (s : O3State U) : Calm s (dispatch s) := by
  have hone : ∀ (e : RenameIssueEntry) (t : O3State U), (dispatchOne t e).eng.rob = t.eng.rob ∧
      (dispatchOne t e).memFlying = t.memFlying ∧ (dispatchOne t e).renameOutput = t.renameOutput ∧
      ∀ w ∈ (dispatchOne t e).eng.iq.bares, w = e.bare ∨ w ∈ t.eng.iq.bares :=
    fun e t => ⟨rfl, rfl, rfl, fun w hw => IssueQueue.mem_dispatch_bares hw⟩
  have hloop : ∀ (ws : List RenameIssueEntry) (t : O3State U),
      (ws.foldl dispatchOne t).eng.rob = t.eng.rob ∧ (ws.foldl dispatchOne t).memFlying = t.memFlying ∧
      (ws.foldl dispatchOne t).renameOutput = t.renameOutput ∧
      ∀ w ∈ (ws.foldl dispatchOne t).eng.iq.bares, w ∈ ws.map RenameIssueEntry.bare ∨ w ∈ t.eng.iq.bares := by
    intro ws
    induction ws with
    | nil => exact fun t => ⟨rfl, rfl, rfl, fun w hw => Or.inr hw⟩
    | cons e ws ih =>
      intro t
      obtain ⟨h1, h2, h3, h4⟩ := hone e t
      obtain ⟨i1, i2, i3, i4⟩ := ih (dispatchOne t e)
      refine ⟨i1.trans h1, i2.trans h2, i3.trans h3, fun w hw => ?_⟩
      rcases i4 w hw with hw' | hw'
      · exact Or.inl (List.mem_cons_of_mem _ hw')
      · rcases h4 w hw' with rfl | hw''
        · exact Or.inl List.mem_cons_self
        · exact Or.inr hw''
  obtain ⟨h1, h2, h3, h4⟩ := hloop s.renameOutput { s with renameOutput := [] }
  refine ⟨Rob.Cools.of_subset fun e he => h1 ▸ he, fun x hx => h2 ▸ hx, fun w hw => ?_⟩
  unfold O3State.waiting at hw ⊢
  rw [show (dispatch s).renameOutput = [] from h3, List.map_nil, List.append_nil] at hw
  rcases h4 w hw with hw' | hw'
  · exact List.mem_append_right _ hw'
  · exact List.mem_append_left _ hw'

end

end O3

end Rvsim
