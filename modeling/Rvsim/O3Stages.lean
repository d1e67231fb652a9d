/-
# The stages of the engine keep the invariant

One lemma for each stage from commit to memory1: what is in flight
before the stage is in flight after it, in the same place or the next one,
or has its result written, or was squashed because something older asked for
it.

Key definitions:
  - `O3.Keeps`: the invariant holds afterwards and no tag or checkpoint is new
Key theorems:
  - `O3.commit_keeps`, `O3.writeback_keeps`, `O3.drainMshrs_keeps`, `O3.memory2_keeps`,
    `O3.violationFlush_keeps`, `O3.memory1_keeps`
-/
import Rvsim.O3Commit

namespace Rvsim

namespace O3

variable {U : Type} {D : Prop} {total : Nat} {s s' s'' : O3State U}

/-- From `s` to `s'` the invariant is kept and nothing is allocated. -/
structure Keeps (D : Prop) (total : Nat) (s s' : O3State U) : Prop where
  inv : O3Inv D total s'
  within : s.Within s'

theorem Keeps.refl (h : O3Inv D total s) : Keeps D total s s := ⟨h, O3State.Within.refl s⟩

theorem Keeps.trans (h : Keeps D total s s') (h' : Keeps D total s' s'') : Keeps D total s s'' :=
  ⟨h'.inv, h.within.trans h'.within⟩

/-! ### What is not waiting for dispatch is older -/

/-- A tag held outside the dispatch latch is in the buffer and not in the latch. -/
theorem tag_of_held (h : O3Inv D total s) {l : List (RobTag × PhysReg)}
    (hl : s.flight.held.Perm (l ++ s.renameOutput.map RenameIssueEntry.dest)) {x : RobTag × PhysReg}
    (hx : x ∈ l) : (∃ e ∈ s.eng.rob.entries, e.tag = x.1) ∧ x.1 ∉ s.renameOutput.map (·.robTag) := by
  obtain ⟨e, he, hte, -, -⟩ := h.flight.held x (hl.mem_iff.mpr (List.mem_append_left _ hx))
  refine ⟨⟨e, he, hte⟩, fun hin => ?_⟩
  have hnd := (hl.map Prod.fst).nodup_iff.mp h.flight.nodup
  rw [List.map_append] at hnd
  refine (List.disjoint_of_nodup_append hnd) (List.mem_map_of_mem hx) ?_
  rw [List.map_map]
  exact hin

theorem held_perm : s.flight.held.Perm
    ((s.eng.iq.bares.map RenameIssueEntry.dest ++ s.flying) ++ s.renameOutput.map RenameIssueEntry.dest) := by
  have hout : (s.renameOutput.map RenameIssueEntry.bare).map RenameIssueEntry.dest =
      s.renameOutput.map RenameIssueEntry.dest := by
    rw [List.map_map]
    rfl
  refine List.perm_iff_count.mpr fun a => ?_
  simp only [Flight.held, O3State.flight, O3State.waiting, List.map_append, List.count_append, hout]
  omega

/-- Flying instructions and queued ones are older than what waits for dispatch. -/
theorem age_of_held (h : O3Inv D total s) {w : RenameIssueEntry} (hw : w ∈ s.renameOutput)
    {x : RobTag × PhysReg} (hx : x ∈ s.eng.iq.bares.map RenameIssueEntry.dest ++ s.flying) :
    Serial.age s.eng.rob.nextTag w.robTag < Serial.age s.eng.rob.nextTag x.1 := by
  obtain ⟨⟨e, he, hte⟩, hout⟩ := tag_of_held h held_perm hx
  have := (h.young w hw).entries e he (hte ▸ hout)
  rwa [hte] at this

theorem young_of_within (h : O3Inv D total s) (hin : s.Within s') (ho : s'.renameOutput = s.renameOutput)
    (hran : ∀ t ∈ s'.eng.lq.ran, t ∈ s.eng.lq.ran ∨ t ∈ s.flying.map Prod.fst) :
    ∀ w ∈ s'.renameOutput, s'.NewerThanAll w.robTag := by
  intro w hw
  rw [ho] at hw
  refine ⟨fun e he hout => ?_, fun t htr => ?_⟩
  · obtain ⟨e₀, he₀, hte⟩ := List.mem_map.mp (hin.tags.subset (List.mem_map_of_mem he))
    rw [hin.next, ← hte]
    rw [ho, ← hte] at hout
    exact (h.young w hw).entries e₀ he₀ hout
  · rw [hin.next]
    rcases hran t htr with h' | h'
    · exact (h.young w hw).loads t h'
    · obtain ⟨x, hx, rfl⟩ := List.mem_map.mp h'
      exact age_of_held h hw (List.mem_append_right _ hx)

theorem ran_of_within (h : O3Inv D total s) (hin : s.Within s')
    (hran : ∀ t ∈ s'.eng.lq.ran, t ∈ s.eng.lq.ran ∨ t ∈ s.flying.map Prod.fst) :
    ∀ t ∈ s'.eng.lq.ran, 0 < Serial.age s'.eng.rob.nextTag t ∧
      Serial.age s'.eng.rob.nextTag t < Serial.half 32 := by
  intro t htr
  rw [hin.next]
  rcases hran t htr with h' | h'
  · exact h.ran t h'
  · obtain ⟨x, hx, rfl⟩ := List.mem_map.mp h'
    exact h.flight.window.bounded x.1 (h.flight.tag_mem (List.mem_append_right _ hx))

/-- A stage that changes neither queue nor what waits for dispatch. -/
theorem Keeps.of_flight (h : O3Inv D total s) (hf : FlightInv D total s'.flight)
    (hm : s'.cpu.l1dMshrs.Ok)
    (hw : ∀ p ∈ s'.eng.pendingResults, p.speculativeWritten = true → p.entry.ctrl.isMem = false)
    (hq : s'.eng.iq.bares = s.eng.iq.bares) (hl : s'.eng.iq.slots.length = s.eng.iq.slots.length)
    (ho : s'.renameOutput = s.renameOutput)
    (hran : ∀ t ∈ s'.eng.lq.ran, t ∈ s.eng.lq.ran ∨ t ∈ s.flying.map Prod.fst)
    (hin : s.Within s') : Keeps D total s s' where
  inv := by
    refine ⟨hf, hm, hw, ?_, fun hD => hin.noWrap (h.noWrap hD), young_of_within h hin ho hran,
      ran_of_within h hin hran⟩
    have := h.room
    simpa only [IssueQueue.Room, hq, hl, ho] using this
  within := hin

section

variable [Units U]

theorem start_keeps (h : O3Inv D total s) : Keeps D total s (start s) :=
  Keeps.of_flight h h.flight h.mshrs h.written rfl rfl rfl (fun _ ht => Or.inl ht)
    ⟨rfl, List.Sublist.refl _, fun _ hc => hc⟩

/-! ### Commit -/

omit [Units U] in
theorem toCommit_inv (h : O3Inv D total s) : CommitState.Inv D total s (toCommit s) :=
  ⟨h.flight, rfl, rfl, rfl, List.Sublist.refl _, fun _ hx => hx, fun _ ht => ht⟩

omit [Units U] in
theorem ofCommit_flight {c : CommitState U} (hm : c.cpu.l1dMshrs = s.cpu.l1dMshrs) :
    (ofCommit s c).flight = c.flight s.flight := by
  simp only [O3State.flight, CommitState.flight, ofCommit, O3State.waiting, O3State.flying, hm]

theorem commit_within (h : O3Inv D total s) : s.Within (commit s).2 := by
  have hd := CommitState.commitStage_done s.eng.width (toCommit s) (toCommit_inv h)
  exact ⟨hd.next, hd.entries.map _, hd.ckpts⟩

/-- **Commit without a trap.** -/
theorem commit_keeps (h : O3Inv D total s) (hn : (commit s).1 = none) :
    Keeps D total s (commit s).2 := by
  have hd := CommitState.commitStage_done s.eng.width (toCommit s) (toCommit_inv h)
  refine Keeps.of_flight h ?_ ?_ h.written rfl rfl rfl (fun t htr => Or.inl (hd.ran t htr)) (commit_within h)
  · exact (ofCommit_flight hd.mshrs).symm ▸ hd.flight hn
  · change (commitStage (toCommit s) s.eng.width).2.cpu.l1dMshrs.Ok
    rw [hd.mshrs]
    exact h.mshrs

/-! ### Squashing everything -/

omit [Units U] in
/-- The engine after a flush, with nothing waiting for dispatch. -/
theorem squashed_inv (hf : FlightInv D total s.flight.squashed) (s' : O3State U)
    (heng : s'.eng.rob = s.eng.rob.flushAll ∧ s'.eng.freeList = s.eng.freeList.reclaimAll s.eng.rob.entries ∧
      s'.eng.renameMap = s.eng.committedMap ∧ s'.eng.committedMap = s.eng.committedMap ∧
      s'.eng.checkpoints = s.eng.checkpoints.flushAll ∧ s'.eng.prf = s.eng.prf)
    (hlatch : s'.eng.pendingResults = [] ∧ s'.eng.executeMem1 = [] ∧ s'.eng.mem1Mem2 = [] ∧
      s'.eng.mem2Wb = [])
    (hq : s'.eng.iq = s.eng.iq.flush) (hm : s'.cpu.l1dMshrs = s.cpu.l1dMshrs.flush)
    (hlq : s'.eng.lq = s.eng.lq.flush) (hr : s'.cpu.regs = s.cpu.regs) (ho : s'.renameOutput = []) :
    O3Inv D total s' := by
  obtain ⟨h1, h2, h3, h4, h5, h6⟩ := heng
  obtain ⟨l1, l2, l3, l4⟩ := hlatch
  have hpk := MshrFile.flush_parked (m := s.cpu.l1dMshrs)
  have hflight : s'.flight = s.flight.squashed := by
    simp only [O3State.flight, Flight.squashed, O3State.waiting, O3State.flying, h1, h2, h3, h4, h5, h6,
      l1, l2, l3, l4, hq, hm, hr, ho, IssueQueue.flush_bares, hpk.2, List.filter_nil, List.map_nil,
      List.append_nil]
  refine ⟨hflight ▸ hf, hm ▸ hpk.1, by simp [l1], ?_, ?_, by simp [ho], ?_⟩
  · simp [IssueQueue.Room, hq, ho, IssueQueue.flush_bares]
  · intro _
    simp [Rob.NoWrap, h1, Rob.flushAll]
  · simp [hlq, LoadQueue.flush, LoadQueue.ran]

omit [Units U] in
theorem within_squashed (hr : s'.eng.rob = s.eng.rob.flushAll)
    (hc : s'.eng.checkpoints = s.eng.checkpoints.flushAll) : s.Within s' :=
  ⟨by rw [hr]; rfl, by rw [hr]; simp [Rob.flushAll], by rw [hc, CheckpointTable.live_flushAll]; simp⟩

theorem squashAll_inv (hf : FlightInv D total s.flight.squashed) :
    O3Inv D total { squashAll s with renameOutput := [] } :=
  squashed_inv hf _ ⟨rfl, rfl, rfl, rfl, rfl, rfl⟩ ⟨rfl, rfl, rfl, rfl⟩ rfl rfl rfl rfl rfl

theorem takeTrap_inv (hf : FlightInv D total s.flight.squashed) (t : Trap) (epc : U64) :
    O3Inv D total { takeTrap s t epc with renameOutput := [] } := by
  have hfr := Cpu.trap_frame ({ (squashAll s).cpu with redirectPending := true } : Cpu U) t epc
  exact squashed_inv hf _ ⟨rfl, rfl, rfl, rfl, rfl, rfl⟩ ⟨rfl, rfl, rfl, rfl⟩ rfl hfr.mshrs rfl hfr.regs rfl

/-! ### Updates of the buffer in place -/

end

/-- The buffer changes only in what execution records in an entry. -/
structure RobUpd (r r' : Rob) : Prop where
  inv : ∀ {D : Prop} {total : Nat} {f : Flight}, f.rob = r → FlightInv D total f →
    FlightInv D total { f with rob := r' }
  tags : r'.entries.map (·.tag) = r.entries.map (·.tag)
  next : r'.nextTag = r.nextTag

namespace RobUpd

variable {r r' r'' : Rob}

theorem refl (r : Rob) : RobUpd r r := ⟨fun hr h => hr ▸ h, rfl, rfl⟩

theorem trans (h : RobUpd r r') (h' : RobUpd r' r'') : RobUpd r r'' :=
  ⟨fun {_ _ f} hr hf => h'.inv (f := { f with rob := r' }) rfl (h.inv hr hf), h'.tags.trans h.tags,
    h'.next.trans h.next⟩

/-- Every entry is updated by `g`, which records but neither completes nor faults. -/
theorem of_map {g : RobEntry → RobEntry} (hg : RobEntry.Fixes g) (hst : ∀ e, (g e).state = e.state)
    (hres : ∀ e, (g e).result = e.result) (htr : ∀ e, (g e).trap = e.trap) :
    RobUpd r { r with entries := r.entries.map g } := by
  refine ⟨?_, ?_, rfl⟩
  · rintro D total f rfl h
    exact h.touch hg hst hres htr
  · rw [List.map_map]
    exact List.map_congr_left fun e _ => hg.tag e

theorem modify (tag : RobTag) {g : RobEntry → RobEntry} (hg : RobEntry.Fixes g)
    (hst : ∀ e, (g e).state = e.state) (hres : ∀ e, (g e).result = e.result)
    (htr : ∀ e, (g e).trap = e.trap) : RobUpd r (r.modify tag g) := by
  refine of_map (g := fun e => if e.tag = tag then g e else e) (hg.ite _) ?_ ?_ ?_ <;>
    intro e <;> by_cases h : e.tag = tag <;> simp [h, hst, hres, htr]

theorem fault (tag : RobTag) (t : Trap) : RobUpd r (r.fault tag t) := by
  refine ⟨?_, ?_, rfl⟩
  · rintro D total f rfl h
    exact h.fault tag t
  · simp only [Rob.fault, Rob.modify, List.map_map]
    refine List.map_congr_left fun e _ => ?_
    by_cases h : e.tag = tag <;> simp [h]

end RobUpd

theorem sublist_of_eq {α : Type} {l l' : List α} (h : l = l') : l.Sublist l' := h ▸ List.Sublist.refl l

theorem complete_tags (r : Rob) (tag : RobTag) (v : U64) :
    (r.complete tag v).entries.map (·.tag) = r.entries.map (·.tag) := by
  simp only [Rob.complete, Rob.modify, List.map_map]
  refine List.map_congr_left fun e _ => ?_
  exact (FlightInv.fixes_complete tag v).tag e

/-! ### Writeback -/

theorem record_upd (r : Rob) (wb : Mem2WbEntry) : RobUpd r (r.modify wb.robTag wb.record) :=
  RobUpd.modify _ (fun _ => rfl) (fun _ => rfl) (fun _ => rfl) fun _ => rfl

/-- One entry of the latch: buffer and, without a trap, register file and queue. -/
def writeOne (eng : O3Engine) (wb : Mem2WbEntry) : O3Engine :=
  match wb.trap with
  | some t => { eng with rob := eng.rob.fault wb.robTag t }
  | none => broadcast { eng with rob := writebackOne eng.rob wb } wb.rdPhys wb.result

/-- The two loops of writeback are one. -/
theorem writeback_eq (wbs : List Mem2WbEntry) (eng : O3Engine) :
    (wbs.filter fun wb => wb.trap.isNone).foldl (fun eng wb => broadcast eng wb.rdPhys wb.result)
      { eng with rob := writebackStage eng.rob wbs } = wbs.foldl writeOne eng := by
  induction wbs generalizing eng with
  | nil => rfl
  | cons wb wbs ih =>
    rw [List.foldl_cons, ← ih]
    cases ht : wb.trap with
    | some t =>
      rw [List.filter_cons_of_neg (by simp [ht])]
      simp only [writeOne, ht, writebackStage, List.foldl_cons, writebackOne]
    | none =>
      rw [List.filter_cons_of_pos (by simp [ht])]
      simp only [writeOne, ht, writebackStage, List.foldl_cons, broadcast]

theorem foldl_writeOne_latch (wbs left : List Mem2WbEntry) (eng : O3Engine) :
    wbs.foldl writeOne { eng with mem2Wb := left } = { wbs.foldl writeOne eng with mem2Wb := left } := by
  induction wbs generalizing eng with
  | nil => rfl
  | cons wb wbs ih =>
    rw [List.foldl_cons, List.foldl_cons, ← ih]
    congr 1
    unfold writeOne
    cases wb.trap <;> rfl

/-- The engine state in the middle of writeback. -/
def writing (s : O3State U) (eng : O3Engine) (left : List Mem2WbEntry) : O3State U :=
  { s with eng := { eng with mem2Wb := left } }

theorem writeback_state (s : O3State U) :
    writeback s = writing s (s.eng.mem2Wb.foldl writeOne s.eng) [] := by
  unfold writeback writing
  rw [← foldl_writeOne_latch]
  exact congrArg (fun eng => ({ s with eng := eng } : O3State U))
    (writeback_eq s.eng.mem2Wb { s.eng with mem2Wb := [] })

theorem writeOne_keeps {eng : O3Engine} {wb : Mem2WbEntry} {left : List Mem2WbEntry}
    (h : O3Inv D total (writing s eng (wb :: left))) :
    Keeps D total (writing s eng (wb :: left)) (writing s (writeOne eng wb) left) := by
  have hperm : (writing s eng (wb :: left)).flying.Perm (wb.dest :: (writing s eng left).flying) := by
    refine List.perm_iff_count.mpr fun a => ?_
    simp only [O3State.flying, writing, List.map_cons, List.count_append, List.count_cons]
    omega
  cases htr : wb.trap with
  | some t =>
    have heq : writeOne eng wb = { eng with rob := eng.rob.fault wb.robTag t } := by simp [writeOne, htr]
    rw [heq]
    refine Keeps.of_flight h ?_ h.mshrs h.written rfl rfl rfl (fun _ htr => Or.inl htr)
      ⟨rfl, ?_, fun _ hc => hc⟩
    · exact h.flight.fault_drop hperm t
    · exact sublist_of_eq (RobUpd.fault wb.robTag t).tags
  | none =>
    have heq : writeOne eng wb = broadcast { eng with
        rob := (eng.rob.modify wb.robTag wb.record).complete wb.robTag wb.result } wb.rdPhys wb.result := by
      simp [writeOne, htr, writebackOne]
    rw [heq]
    have hupd := record_upd eng.rob wb
    refine Keeps.of_flight h ?_ h.mshrs h.written (IssueQueue.bares_wakeupPhys _ _)
      (IssueQueue.slots_map_length _) rfl (fun _ htr => Or.inl htr) ⟨rfl, ?_, fun _ hc => hc⟩
    · have hrec := hupd.inv (f := (writing s eng (wb :: left)).flight) rfl h.flight
      have hfin := hrec.finish_of_perm hperm wb.result
      simpa only [O3State.flight, O3State.waiting, O3State.flying, writing, broadcast,
        IssueQueue.bares_wakeupPhys] using hfin
    · exact sublist_of_eq ((complete_tags _ _ _).trans hupd.tags)

theorem writeback_keeps (h : O3Inv D total s) : Keeps D total s (writeback s) := by
  have hloop : ∀ (wbs : List Mem2WbEntry) (eng : O3Engine), O3Inv D total (writing s eng wbs) →
      Keeps D total (writing s eng wbs) (writing s (wbs.foldl writeOne eng) []) := by
    intro wbs
    induction wbs with
    | nil => exact fun eng h => Keeps.refl h
    | cons wb wbs ih =>
      intro eng h
      have hone := writeOne_keeps h
      exact hone.trans (ih _ hone.inv)
  rw [writeback_state]
  exact hloop s.eng.mem2Wb s.eng h

/-! ### The memory stages -/

section

variable [Units U]

omit [Units U] in
/-- A stage that moves flying instructions and keeps everything else in view. -/
theorem Keeps.of_moved (h : O3Inv D total s) (heng : s'.eng.rob = s.eng.rob ∧ s'.eng.freeList = s.eng.freeList ∧
      s'.eng.renameMap = s.eng.renameMap ∧ s'.eng.committedMap = s.eng.committedMap ∧
      s'.eng.checkpoints = s.eng.checkpoints ∧ s'.eng.prf = s.eng.prf)
    (hr : s'.cpu.regs = s.cpu.regs) (hm : s'.cpu.l1dMshrs.Ok)
    (hw : ∀ p ∈ s'.eng.pendingResults, p.speculativeWritten = true → p.entry.ctrl.isMem = false)
    (hq : s'.eng.iq.bares = s.eng.iq.bares) (hl : s'.eng.iq.slots.length = s.eng.iq.slots.length)
    (ho : s'.renameOutput = s.renameOutput)
    (hran : ∀ t ∈ s'.eng.lq.ran, t ∈ s.eng.lq.ran ∨ t ∈ s.flying.map Prod.fst)
    (hp : s'.flying.Perm s.flying) : Keeps D total s s' := by
  obtain ⟨h1, h2, h3, h4, h5, h6⟩ := heng
  refine Keeps.of_flight h ?_ hm hw hq hl ho hran ⟨by rw [h1], by rw [h1], by rw [h5]; exact fun _ hc => hc⟩
  have hmv := h.flight.move (fun _ (hw : _ ∈ s.waiting) => hw)
    (List.Perm.append_left _ hp)
  simpa only [O3State.flight, O3State.waiting, h1, h2, h3, h4, h5, h6, hr, hq, ho] using hmv

omit [Units U] in
theorem unpark_dest (now : Nat) (done : List MshrEntry) :
    (unpark now done).map Mem1Mem2Entry.dest = (done.flatMap MshrEntry.parked).map Mem1Mem2Entry.dest := by
  simp only [unpark, MshrEntry.parked, List.map_flatMap]
  congr 1
  funext e
  induction e.waiters with
  | nil => rfl
  | cons w ws ih =>
    cases hp : w.parkedEntry with
    | none => simpa [hp] using ih
    | some p => simpa [hp, Mem1Mem2Entry.dest] using ih

theorem drainMshrs_keeps (h : O3Inv D total s) : Keeps D total s (drainMshrs s) := by
  unfold drainMshrs
  by_cases hc : s.cpu.l1dMshrs.capacity > 0
  · simp only [if_pos hc]
    have hd := MshrFile.drain_parked h.mshrs s.eng.cycle
    refine Keeps.of_moved h ⟨rfl, rfl, rfl, rfl, rfl, rfl⟩ rfl hd.1 h.written rfl rfl rfl
      (fun _ htr => Or.inl htr) ?_
    refine List.perm_iff_count.mpr fun a => ?_
    have hcount := (hd.2.map Mem1Mem2Entry.dest).count_eq a
    simp only [List.map_append, List.count_append] at hcount
    simp only [O3State.flying, List.map_append, List.count_append, unpark_dest]
    omega
  · simp only [if_neg hc]
    exact Keeps.refl h

omit [Units U] in
theorem writeback_latch : (writeback s).eng.mem2Wb = [] := by
  rw [writeback_state]
  rfl

theorem drainMshrs_latch : (drainMshrs s).eng.mem2Wb = s.eng.mem2Wb := by
  unfold drainMshrs
  split <;> rfl

theorem storeResolved_keeps (h : O3Inv D total s) (wb : Mem2WbEntry) : Keeps D total s (storeResolved s wb) := by
  unfold storeResolved
  split
  · split
    · exact Keeps.of_moved h ⟨rfl, rfl, rfl, rfl, rfl, rfl⟩ rfl h.mshrs h.written
        (IssueQueue.bares_wakeupMemDep _) (IssueQueue.slots_map_length _) rfl (fun _ htr => Or.inl htr)
        (List.Perm.refl _)
    · exact Keeps.of_moved h ⟨rfl, rfl, rfl, rfl, rfl, rfl⟩ rfl h.mshrs h.written rfl rfl rfl
        (fun _ htr => Or.inl htr) (List.Perm.refl _)
  · exact Keeps.refl h

theorem foldl_storeResolved_keeps (wbs : List Mem2WbEntry) (h : O3Inv D total s) :
    Keeps D total s (wbs.foldl storeResolved s) := by
  induction wbs generalizing s with
  | nil => exact Keeps.refl h
  | cons wb wbs ih =>
    have hone := storeResolved_keeps h wb
    exact hone.trans (ih hone.inv)

/-- Memory2 runs when writeback has emptied the latch behind it. A violation is of a load that ran. -/
theorem memory2_keeps (h : O3Inv D total s) (hwb : s.eng.mem2Wb = []) :
    Keeps D total s (memory2 s).2 ∧ ∀ t pc, (memory2 s).1 = some (t, pc) →
      ∀ w ∈ s.renameOutput, Serial.age s.eng.rob.nextTag w.robTag < Serial.age s.eng.rob.nextTag t := by
  have hmoved := memory2Stage_moved s.eng.mem1Mem2 ⟨s.cpu, s.eng.sb, some s.eng.lq, none⟩
  unfold memory2
  simp only
  revert hmoved
  generalize memory2Stage (⟨s.cpu, s.eng.sb, some s.eng.lq, none⟩ : Mem2State U) s.eng.mem1Mem2 = r
  obtain ⟨left, out, m⟩ := r
  rintro ⟨hp, ⟨u, hu⟩, hran⟩
  simp only at hp hu
  have hran' : ∀ t, m.Ran t → t ∈ s.eng.lq.ran ∨ t ∈ s.flying.map Prod.fst := by
    intro t htr
    rcases hran t htr with (⟨q, hq, h'⟩ | ⟨pc, h'⟩) | h'
    · exact Or.inl (Option.some.inj hq ▸ h')
    · simp at h'
    · refine Or.inr ?_
      obtain ⟨x, hx, rfl⟩ := List.mem_map.mp h'
      refine List.mem_map.mpr ⟨x.dest, ?_, rfl⟩
      simp only [O3State.flying, List.mem_append]
      exact Or.inr (Or.inr (Or.inl (List.mem_map_of_mem hx)))
  have hlq : ∀ t ∈ (m.lq.getD s.eng.lq).ran, t ∈ s.eng.lq.ran ∨ t ∈ s.flying.map Prod.fst := by
    intro t htr
    cases hq : m.lq with
    | none => exact Or.inl (by simpa [hq] using htr)
    | some q => exact hran' t (Or.inl ⟨q, hq, by simpa [hq] using htr⟩)
  have hmv : Keeps D total s { s with
      cpu := m.cpu
      eng := { s.eng with sb := m.sb, lq := m.lq.getD s.eng.lq, mem1Mem2 := left, mem2Wb := out } } := by
    refine Keeps.of_moved h ⟨rfl, rfl, rfl, rfl, rfl, rfl⟩ ?_ ?_ h.written rfl rfl rfl hlq ?_
    · simp only [hu]
    · simp only [hu]
      exact h.mshrs
    · refine List.perm_iff_count.mpr fun a => ?_
      have hcount := hp.count_eq a
      simp only [List.count_append] at hcount
      simp only [O3State.flying, List.count_append, hwb, hu, List.map_nil, List.count_nil]
      omega
  refine ⟨hmv.trans (foldl_storeResolved_keeps out hmv.inv), fun t pc hv w hw => ?_⟩
  rcases hran' t (Or.inr ⟨pc, hv⟩) with h' | h'
  · exact (h.young w hw).loads t h'
  · obtain ⟨x, hx, rfl⟩ := List.mem_map.mp h'
    exact age_of_held h hw (List.mem_append_right _ hx)

/-! ### Squashing behind an entry -/

omit [Units U] in
theorem flying_filter (keep : RobTag) (hok : s.cpu.l1dMshrs.Ok)
    (hp : s'.eng.pendingResults = s.eng.pendingResults.filter fun p => RobTag.isOlderOrEq p.entry.robTag keep)
    (h1 : s'.eng.executeMem1 = s.eng.executeMem1.filter fun e => RobTag.isOlderOrEq e.robTag keep)
    (h2 : s'.eng.mem1Mem2 = s.eng.mem1Mem2.filter fun e => RobTag.isOlderOrEq e.robTag keep)
    (h3 : s'.eng.mem2Wb = s.eng.mem2Wb.filter fun e => RobTag.isOlderOrEq e.robTag keep)
    (hm : s'.cpu.l1dMshrs = s.cpu.l1dMshrs.flushAfter keep) :
    s'.flying = s.flying.filter fun x => !RobTag.isNewerThan x.1 keep := by
  simp only [O3State.flying, hp, h1, h2, h3, hm, (MshrFile.flushAfter_parked hok keep).2, List.filter_append,
    List.filter_map, List.filter_filter]
  congr 1
  refine congrArg (List.map _) (List.filter_congr fun p _ => ?_)
  exact Bool.and_comm _ _

/-- The engine after a squash of everything newer than `e`. -/
structure CutAfter (s : O3State U) (e : RobEntry) (s' : O3State U) : Prop where
  rob : s'.eng.rob = s.eng.rob.flushAfter e.tag
  freeList : s'.eng.freeList = s.eng.freeList.reclaimAll (s.eng.rob.after e.tag)
  renameMap : s'.eng.renameMap = s.eng.committedMap.rebuild (s.eng.rob.flushAfter e.tag).entries
  committedMap : s'.eng.committedMap = s.eng.committedMap
  prf : s'.eng.prf = s.eng.prf
  ckpts : ∀ c ∈ s'.eng.checkpoints.live,
    c ∈ s.eng.checkpoints.live ∧ RobTag.isNewerThan c.branchTag e.tag = false
  iq : s'.eng.iq = s.eng.iq.flushAfter e.tag
  pending : s'.eng.pendingResults =
    s.eng.pendingResults.filter fun p => RobTag.isOlderOrEq p.entry.robTag e.tag
  executeMem1 : s'.eng.executeMem1 = s.eng.executeMem1.filter fun x => RobTag.isOlderOrEq x.robTag e.tag
  mem1Mem2 : s'.eng.mem1Mem2 = s.eng.mem1Mem2.filter fun x => RobTag.isOlderOrEq x.robTag e.tag
  mem2Wb : s'.eng.mem2Wb = s.eng.mem2Wb.filter fun x => RobTag.isOlderOrEq x.robTag e.tag
  mshrs : s'.cpu.l1dMshrs = s.cpu.l1dMshrs.flushAfter e.tag
  lq : s'.eng.lq = s.eng.lq.flushAfter e.tag
  regs : s'.cpu.regs = s.cpu.regs
  output : s'.renameOutput = []

omit [Units U] in
/-- **Squash behind an entry.** What is selected or waits for dispatch is dropped too, so it must be
newer. -/
theorem CutAfter.keeps {e : RobEntry} {sel : List RenameIssueEntry} (hc : CutAfter s e s')
    (h : O3Selected D total s sel) (he : e ∈ s.eng.rob.entries)
    (hnew : D → ∀ w ∈ sel ++ s.renameOutput, RobTag.isNewerThan w.robTag e.tag = true) : Keeps D total s s' := by
  obtain ⟨pre, post, hsplit⟩ := List.append_of_mem he
  have hfly := flying_filter e.tag h.mshrs hc.pending hc.executeMem1 hc.mem1Mem2 hc.mem2Wb hc.mshrs
  have hiq : s'.eng.iq.bares = s.eng.iq.bares.filter fun w => !RobTag.isNewerThan w.robTag e.tag := by
    rw [hc.iq, IssueQueue.flushAfter_bares]
  have hrob : s.eng.rob.flushAfter e.tag = { s.eng.rob with entries := pre ++ [e] } := by
    rw [Rob.flushAfter, Rob.keepThrough_split hsplit h.flight.nodup_tags]
  have hafter : s.eng.rob.after e.tag = post := by
    have hwin : Serial.Window s.eng.rob.nextTag ((pre ++ e :: post).map (·.tag)) := by
      rw [← hsplit]
      exact h.flight.window
    rw [Rob.after, hsplit]
    exact Rob.filter_newer_split hwin
  -- what stays held is what was queued or flying and is not newer
  have hheld : s'.waiting.map RenameIssueEntry.dest ++ s'.flying =
      (s.eng.iq.bares.map RenameIssueEntry.dest ++ s.flying).filter fun x => !RobTag.isNewerThan x.1 e.tag := by
    simp only [O3State.waiting, hc.output, List.map_nil, List.append_nil, hiq, hfly, List.filter_append,
      List.filter_map]
    rfl
  have hwait : ∀ w ∈ s'.waiting, w ∈ (s.flightWith sel).waiting := by
    intro w hw
    simp only [O3State.waiting, hc.output, List.map_nil, List.append_nil, hiq] at hw
    exact List.mem_append_right _ (List.mem_append_left _ (List.mem_filter.mp hw).1)
  have hsub : (s.eng.iq.bares.map RenameIssueEntry.dest ++ s.flying).Sublist (s.flightWith sel).held := by
    simp only [Flight.held, O3State.flightWith, O3State.flight, O3State.waiting, List.map_append,
      List.append_assoc]
    exact (List.Sublist.append_left (List.sublist_append_right _ _) _).trans (List.sublist_append_right _ _)
  have hcov : D → ∀ x ∈ (s.flightWith sel).held, RobTag.isNewerThan x.1 e.tag = false →
      x ∈ s'.waiting.map RenameIssueEntry.dest ++ s'.flying := by
    intro hD x hx hold
    have hdropped : ∀ w ∈ sel ++ s.renameOutput, x ≠ w.bare.dest := by
      rintro w hw rfl
      have := hnew hD w hw
      rw [show w.bare.dest.1 = w.robTag from rfl, this] at hold
      exact absurd hold (by decide)
    rw [hheld]
    refine List.mem_filter.mpr ⟨?_, by simpa using hold⟩
    simp only [Flight.held, O3State.flightWith, O3State.flight, O3State.waiting, List.map_append, List.map_map,
      List.mem_append] at hx ⊢
    rcases hx with (hx | hx | hx) | hx
    · obtain ⟨w, hw, rfl⟩ := List.mem_map.mp hx
      exact absurd rfl (hdropped w (List.mem_append_left _ hw))
    · exact Or.inl hx
    · obtain ⟨w, hw, rfl⟩ := List.mem_map.mp hx
      exact absurd rfl (hdropped w (List.mem_append_right _ hw))
    · exact Or.inr hx
  have hinv := @FlightInv.flushAfter_inv _ _ _ h.flight _ _ _ hsplit s'.eng.checkpoints s'.waiting s'.flying
    hc.ckpts hwait
    (by rw [hheld]; exact (List.filter_sublist.trans hsub).subperm)
    (by
      intro x hx
      rw [hheld] at hx
      simpa using (List.mem_filter.mp hx).2)
    hcov
  have hin : s.Within s' := by
    refine ⟨by rw [hc.rob]; rfl, ?_, fun c hcl => (hc.ckpts c hcl).1⟩
    rw [hc.rob, hrob, hsplit]
    refine List.Sublist.map _ ?_
    exact List.Sublist.append_left (by simp) pre
  refine ⟨⟨?_, ?_, ?_, ?_, fun hD => hin.noWrap (h.noWrap hD), by simp [hc.output], fun t htr => ?_⟩, hin⟩
  · have hflight : s'.flight = { s.flightWith sel with
        rob := { s.eng.rob with entries := pre ++ [e] }, freeList := s.eng.freeList.reclaimAll post,
        renameMap := s.eng.committedMap.rebuild (pre ++ [e]), checkpoints := s'.eng.checkpoints,
        waiting := s'.waiting, flying := s'.flying } := by
      simp only [O3State.flightWith, O3State.flight, hc.rob, hrob, hc.freeList, hafter, hc.renameMap,
        hc.committedMap, hc.prf, hc.regs]
    exact hflight ▸ hinv
  · rw [hc.mshrs]
    exact (MshrFile.flushAfter_parked h.mshrs e.tag).1
  · intro p hp
    rw [hc.pending] at hp
    exact h.written p (List.mem_filter.mp hp).1
  · have hroom := h.room
    have hle : s'.eng.iq.bares.length ≤ s.eng.iq.bares.length := by
      rw [hiq]
      exact List.length_filter_le _ _
    have hslots : s'.eng.iq.slots.length = s.eng.iq.slots.length := by
      rw [hc.iq]
      simp [IssueQueue.flushAfter]
    simp only [IssueQueue.Room, hc.output, List.length_nil] at hroom ⊢
    omega
  · rw [hin.next]
    rw [hc.lq] at htr
    exact h.ran t (LoadQueue.ran_flushAfter _ htr)

omit [Units U] in
/-- The entry in front of the one tagged `tag`. -/
theorem prevTagFrom_some {tag keep : RobTag} {prev : Option RobTag} {es : List RobEntry}
    (h : Rob.prevTagFrom tag prev es = some keep) :
    (prev = some keep ∧ ∃ x post, es = x :: post ∧ x.tag = tag) ∨
      ∃ pre e x post, es = pre ++ e :: x :: post ∧ e.tag = keep ∧ x.tag = tag := by
  induction es generalizing prev with
  | nil => simp [Rob.prevTagFrom] at h
  | cons y es ih =>
    by_cases hy : y.tag = tag
    · rw [Rob.prevTagFrom, if_pos hy] at h
      exact Or.inl ⟨h, y, es, rfl, hy⟩
    · rw [Rob.prevTagFrom, if_neg hy] at h
      rcases ih h with ⟨hk, x, post, rfl, hx⟩ | ⟨pre, e, x, post, rfl, hk, hx⟩
      · exact Or.inr ⟨[], y, x, post, rfl, Option.some.inj hk, hx⟩
      · exact Or.inr ⟨y :: pre, e, x, post, rfl, hk, hx⟩

omit [Units U] in
theorem prevTagOf_some {r : Rob} {tag keep : RobTag} (h : r.prevTagOf tag = some keep) :
    ∃ pre e x post, r.entries = pre ++ e :: x :: post ∧ e.tag = keep ∧ x.tag = tag := by
  rcases prevTagFrom_some h with ⟨h', -⟩ | h'
  · simp at h'
  · exact h'

omit [Units U] in
theorem output_mem (h : O3Inv D total s) {w : RenameIssueEntry} (hw : w ∈ s.renameOutput) :
    w.robTag ∈ s.eng.rob.entries.map (·.tag) :=
  h.flight.tag_mem (x := w.dest) (held_perm.mem_iff.mpr (List.mem_append_right _ (List.mem_map_of_mem hw)))

/-- With an entry in front of the violating load, everything behind that entry is squashed. -/
theorem violationFlush_cut {e x : RobEntry} {pre post : List RobEntry} (pc : U64)
    (hsplit : s.eng.rob.entries = pre ++ e :: x :: post) (hprev : s.eng.rob.prevTagOf x.tag = some e.tag) :
    e ∈ s.eng.rob.entries ∧ CutAfter s e (violationFlush s x.tag pc) := by
  refine ⟨by simp [hsplit], ?_⟩
  unfold violationFlush
  simp only [hprev]
  exact ⟨rfl, rfl, rfl, rfl, rfl, fun c hc => CheckpointTable.mem_live_flushAfter hc, rfl, rfl, rfl, rfl, rfl,
    rfl, rfl, rfl, rfl⟩

/-- **Memory-order violation.** -/
theorem violationFlush_keeps (h : O3Inv D total s) {t : RobTag} (pc : U64)
    (hold : ∀ w ∈ s.renameOutput, Serial.age s.eng.rob.nextTag w.robTag < Serial.age s.eng.rob.nextTag t) :
    Keeps D total s (violationFlush s t pc) := by
  cases hprev : s.eng.rob.prevTagOf t with
  | some keep =>
    obtain ⟨pre, e, x, post, hsplit, rfl, rfl⟩ := prevTagOf_some hprev
    have hage : Serial.age s.eng.rob.nextTag x.tag < Serial.age s.eng.rob.nextTag e.tag := by
      have hord := h.flight.window.ordered
      simp only [O3State.flight] at hord
      rw [hsplit] at hord
      simp only [List.map_append, List.map_cons, List.pairwise_append, List.pairwise_cons] at hord
      exact hord.2.1.1 x.tag (by simp)
    obtain ⟨hmem, hcut⟩ := violationFlush_cut pc hsplit hprev
    refine hcut.keeps h.selected hmem fun _ w hw => ?_
    exact h.flight.newer_of_age (output_mem h hw) (List.mem_map_of_mem hmem) ((hold w hw).trans hage)
  | none =>
    unfold violationFlush
    simp only [hprev]
    refine ⟨squashed_inv h.flight.squashed_inv _ ⟨rfl, rfl, rfl, rfl, rfl, rfl⟩ ⟨rfl, rfl, rfl, rfl⟩ rfl rfl rfl
      rfl rfl, within_squashed rfl rfl⟩

/-- Memory1 only records addresses in the load queue. -/
theorem memory1One_lq (cpu : Cpu U) (ex : ExMem1Entry) (now : Nat) (q : LoadQueue) :
    ∃ q', (memory1One cpu ex now (some q)).2.2 = some q' ∧ ∀ t ∈ q'.ran, t ∈ q.ran := by
  have hsame : ∃ q', some q = some q' ∧ ∀ t ∈ q'.ran, t ∈ q.ran := ⟨q, rfl, fun _ h => h⟩
  unfold memory1One
  split
  · exact hsame
  · split
    · unfold mem1Translate
      dsimp only
      split
      · exact hsame
      · split
        · exact hsame
        · split
          · exact hsame
          · unfold fillAddressOpt
            split
            · exact ⟨_, rfl, fun t ht => LoadQueue.ran_fillAddress _ _ _ ht⟩
            · exact hsame
    · exact hsame

theorem memory1Stage_lq (input : List ExMem1Entry) (cpu : Cpu U) (output : List Mem1Mem2Entry) (now : Nat)
    (q : LoadQueue) (cancelled : List PhysReg) (d : LoadQueue) :
    ∀ t ∈ ((memory1Stage cpu input output now (some q) cancelled).lq.getD d).ran, t ∈ q.ran := by
  induction input generalizing cpu output q cancelled with
  | nil => exact fun t ht => ht
  | cons ex rest ih =>
    obtain ⟨q', hq', hran⟩ := memory1One_lq cpu ex now q
    rw [memory1Stage]
    generalize memory1One cpu ex now (some q) = r at hq'
    obtain ⟨o, cpu', lq'⟩ := r
    dsimp only at hq'
    subst hq'
    intro t ht
    cases o with
    | pass x => exact hran t (ih _ _ _ _ t ht)
    | trapped x => exact hran t ht
    | parked x => exact hran t (ih _ _ _ _ t ht)
    | full => exact hran t ht

theorem memory1_ran (s : O3State U) :
    ∀ t ∈ ((memory1Stage s.cpu s.eng.executeMem1 s.eng.mem1Mem2 s.eng.cycle (some s.eng.lq)).lq.getD s.eng.lq).ran,
      t ∈ s.eng.lq.ran ∨ t ∈ s.flying.map Prod.fst :=
  fun t ht => Or.inl (memory1Stage_lq _ _ _ _ _ _ _ t ht)

theorem memory1_keeps (h : O3Inv D total s) : Keeps D total s (memory1 s) := by
  unfold memory1
  by_cases hb : mem1Busy s
  · rw [if_pos hb]
    exact Keeps.refl h
  · rw [if_neg hb]
    obtain ⟨⟨u, ms, hc⟩, hok, hp⟩ := memory1Stage_perm s.eng.executeMem1 s.cpu h.mshrs s.eng.mem1Mem2
      s.eng.cycle (some s.eng.lq) []
    simp only
    have hlq := memory1_ran s
    obtain ⟨hq, hl⟩ := IssueQueue.foldl_cancelWakeupPhys s.eng.prf (memory1Stage s.cpu s.eng.executeMem1
      s.eng.mem1Mem2 s.eng.cycle (some s.eng.lq)).cancelled s.eng.iq
    refine Keeps.of_moved h ⟨rfl, rfl, rfl, rfl, rfl, rfl⟩ (by rw [hc]) hok h.written hq hl rfl hlq ?_
    refine List.perm_iff_count.mpr fun a => ?_
    have hcount := hp.count_eq a
    simp only [List.count_append] at hcount
    simp only [O3State.flying, List.count_append]
    omega

end

end O3

end Rvsim
