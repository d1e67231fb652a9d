/-
# Issue, recovery and dispatch keep the invariant

The second half of a tick. Due results complete, selected instructions
execute one after the other until one asks for a flush, and then either the
recovery cuts everything behind it or what rename handed over is
dispatched.

Key definitions:
  - `O3.ExecSpec`: what executing one instruction may change
Key theorems:
  - `O3.drainPending_keeps`, `O3.issueLoop_keeps`, `O3.recover_keeps`, `O3.dispatch_keeps`
-/
import Rvsim.O3Stages

namespace Rvsim

namespace O3

variable {U : Type} {D : Prop} {total : Nat} {s s' s'' : O3State U}

/-! ### Results that skip the memory stages -/

/-- The records `completeAlu` makes before it completes the entry. -/
theorem completeAlu_records (r : Rob) (e : ExMem1Entry) :
    RobUpd r (match e.sfenceVma with
      | some i => (r.setFpFlags e.robTag e.fpFlags).setSfenceVma e.robTag i
      | none => r.setFpFlags e.robTag e.fpFlags) := by
  have hfp : RobUpd r (r.setFpFlags e.robTag e.fpFlags) :=
    RobUpd.modify _ (fun _ => rfl) (fun _ => rfl) (fun _ => rfl) fun _ => rfl
  split
  · exact hfp.trans (RobUpd.modify _ (fun _ => rfl) (fun _ => rfl) (fun _ => rfl) fun _ => rfl)
  · exact hfp

theorem completeAlu_tags (eng : O3Engine) (e : ExMem1Entry) :
    (completeAlu eng e).rob.entries.map (·.tag) = eng.rob.entries.map (·.tag) :=
  (complete_tags _ _ _).trans (completeAlu_records eng.rob e).tags

theorem completeAlu_next (eng : O3Engine) (e : ExMem1Entry) :
    (completeAlu eng e).rob.nextTag = eng.rob.nextTag := (completeAlu_records eng.rob e).next

/-- A flying instruction gets its result. -/
theorem completeAlu_flight {f : Flight} (h : FlightInv D total f) (eng : O3Engine)
    (hrob : f.rob = eng.rob) (hprf : f.prf = eng.prf) {e : ExMem1Entry} {fl : List (RobTag × PhysReg)}
    (hp : f.flying.Perm (e.dest :: fl)) :
    FlightInv D total { f with rob := (completeAlu eng e).rob, prf := (completeAlu eng e).prf, flying := fl } := by
  have hrec := (completeAlu_records eng.rob e).inv hrob h
  have hfin := hrec.finish_of_perm hp (aluResult e)
  rw [hprf] at hfin
  exact hfin

theorem perm_rotateLast {α : Type} (l : List α) : (rotateLast l).Perm l := by
  rcases List.eq_nil_or_concat l with rfl | ⟨xs, x, rfl⟩
  · exact List.Perm.refl _
  · simp only [rotateLast, List.concat_eq_append, List.getLast?_append, List.getLast?_singleton, Option.some_or,
      List.dropLast_concat]
    exact List.perm_append_singleton x xs |>.symm

/-- Every pending result leaves or stays. -/
theorem splitDue_perm (now n : Nat) (l : List PendingResult) (hn : l.length = n) :
    ((splitDue now n l).1 ++ (splitDue now n l).2).Perm l := by
  induction n generalizing l with
  | zero =>
    rw [List.length_eq_zero_iff.mp hn]
    exact List.Perm.refl _
  | succ n ih =>
    cases l with
    | nil => simp at hn
    | cons p rest =>
      have hlen : rest.length = n := by simpa using hn
      rw [splitDue]
      by_cases hd : p.completeCycle ≤ now
      · simp only [if_pos hd, List.cons_append]
        have hrot := perm_rotateLast rest
        exact ((ih _ (hrot.length_eq.trans hlen)).trans hrot).cons p
      · simp only [if_neg hd]
        exact List.perm_middle.trans ((ih rest hlen).cons p)

/-- The engine state while due results are handled; `due` are those still to come. -/
def draining (s : O3State U) (eng : O3Engine) (due left : List PendingResult) : O3State U :=
  { s with eng := { eng with pendingResults := due ++ left } }

theorem finishPending_keeps {eng : O3Engine} {p : PendingResult}
    {due left : List PendingResult} (h : O3Inv D total (draining s eng (p :: due) left)) :
    Keeps D total (draining s eng (p :: due) left) (draining s (finishPending eng p) due left) := by
  have hwr : ∀ q ∈ due ++ left, q.speculativeWritten = true → q.entry.ctrl.isMem = false := fun q hq =>
    h.written q (List.mem_cons_of_mem _ hq)
  unfold finishPending
  by_cases hmem : p.entry.ctrl.isMem
  · rw [if_pos hmem]
    have hnw : p.speculativeWritten = false := by
      by_contra hw
      have := h.written p (by simp [draining]) (by simpa using hw)
      rw [hmem] at this
      exact absurd this (by decide)
    refine Keeps.of_moved h ⟨rfl, rfl, rfl, rfl, rfl, rfl⟩ rfl h.mshrs hwr rfl rfl rfl (fun _ htr => Or.inl htr) ?_
    refine List.perm_iff_count.mpr fun a => ?_
    simp only [O3State.flying, draining, List.cons_append, List.filter_cons, hnw, Bool.not_false, if_true,
      List.map_cons, List.map_append, List.map_nil, List.count_append, List.count_cons, List.count_nil]
    omega
  · rw [if_neg hmem]
    by_cases hw : p.speculativeWritten
    · rw [if_pos hw]
      refine Keeps.of_moved h ⟨rfl, rfl, rfl, rfl, rfl, rfl⟩ rfl h.mshrs hwr rfl rfl rfl (fun _ htr => Or.inl htr) ?_
      simp only [O3State.flying, draining, List.cons_append, List.filter_cons, hw, Bool.not_true]
      exact List.Perm.refl _
    · rw [if_neg hw]
      have hperm : (draining s eng (p :: due) left).flying.Perm
          (p.entry.dest :: (draining s eng due left).flying) := by
        simp only [O3State.flying, draining, List.cons_append, List.filter_cons, hw]
        exact List.Perm.refl _
      refine Keeps.of_flight h ?_ h.mshrs hwr (IssueQueue.bares_wakeupPhys _ _) (IssueQueue.slots_map_length _) rfl
        (fun _ htr => Or.inl htr) ⟨completeAlu_next eng p.entry, ?_, fun _ hc => hc⟩
      · have hfin := completeAlu_flight h.flight eng rfl rfl hperm
        simpa only [O3State.flight, O3State.waiting, O3State.flying, draining, completeAlu, broadcast,
          IssueQueue.bares_wakeupPhys] using hfin
      · exact sublist_of_eq (completeAlu_tags eng p.entry)

theorem foldl_finishPending_latch (due left : List PendingResult) (eng : O3Engine) :
    due.foldl finishPending { eng with pendingResults := left } =
      { due.foldl finishPending eng with pendingResults := left } := by
  induction due generalizing eng with
  | nil => rfl
  | cons p due ih =>
    rw [List.foldl_cons, List.foldl_cons, ← ih]
    congr 1
    unfold finishPending
    split
    · rfl
    · split <;> rfl

theorem drainPending_keeps (h : O3Inv D total s) :
    Keeps D total s { s with eng := drainPending s.eng } := by
  have hloop : ∀ (due left : List PendingResult) (eng : O3Engine), O3Inv D total (draining s eng due left) →
      Keeps D total (draining s eng due left) (draining s (due.foldl finishPending eng) [] left) := by
    intro due left
    induction due with
    | nil => exact fun eng h => Keeps.refl h
    | cons p due ih =>
      intro eng h
      have hone := finishPending_keeps h
      exact hone.trans (ih _ hone.inv)
  have hsplit := splitDue_perm s.eng.cycle s.eng.pendingResults.length s.eng.pendingResults rfl
  unfold drainPending
  revert hsplit
  generalize splitDue s.eng.cycle s.eng.pendingResults.length s.eng.pendingResults = r
  obtain ⟨due, left⟩ := r
  intro hsplit
  have hstart : Keeps D total s (draining s s.eng due left) := by
    refine Keeps.of_moved h ⟨rfl, rfl, rfl, rfl, rfl, rfl⟩ rfl h.mshrs (fun p hp => h.written p ?_) rfl rfl rfl
      (fun _ htr => Or.inl htr) ?_
    · exact hsplit.mem_iff.mp hp
    · exact ((hsplit.filter _).map _).append_right _
  dsimp only
  rw [foldl_finishPending_latch]
  exact hstart.trans (hloop due left s.eng hstart.inv)

/-! ### Issue -/

section

variable [Units U]

/-- What executing one instruction does: it records in the buffer or faults there, and the result
keeps tag, destination and control signals. -/
structure ExecSpec (cpu : Cpu U) (id : RenameIssueEntry) (rob : Rob) (r : ExecOut U) : Prop where
  dest : r.result.dest = id.dest
  ctrl : r.result.ctrl = id.ctrl
  upd : RobUpd rob r.rob
  frame : Cpu.Frame cpu r.cpu

omit [Units U] in
theorem illegal_spec (cpu : Cpu U) (id : RenameIssueEntry) (rob : Rob) (d : U64) :
    ExecSpec cpu id rob (illegal cpu id rob d) := ⟨rfl, rfl, RobUpd.fault _ _, Cpu.Frame.refl cpu⟩

omit [Units U] in
theorem executeCsr_spec (cpu : Cpu U) (id : RenameIssueEntry) (rob : Rob) (a d : U64) :
    ExecSpec cpu id rob (executeCsr cpu id rob a d) := by
  have hdrain : RobUpd rob (drainFpFlags cpu id rob).2 ∧ Cpu.Frame cpu (drainFpFlags cpu id rob).1 := by
    unfold drainFpFlags
    split
    · refine ⟨?_, ⟨rfl, rfl⟩⟩
      refine RobUpd.of_map (g := fun e => if RobTag.isOlderThan e.tag id.robTag then { e with fpFlags := 0 } else e)
        (RobEntry.Fixes.ite (g := fun e => { e with fpFlags := 0 }) (fun _ => rfl) _) ?_ ?_ ?_ <;>
        intro e <;> by_cases h : RobTag.isOlderThan e.tag id.robTag <;> simp [h]
    · exact ⟨RobUpd.refl rob, Cpu.Frame.refl cpu⟩
  unfold executeCsr
  split
  · exact illegal_spec cpu id rob 0
  · dsimp only
    split
    · refine ⟨rfl, rfl, hdrain.1.trans ?_, hdrain.2.trans ⟨rfl, rfl⟩⟩
      exact RobUpd.modify _ (fun _ => rfl) (fun _ => rfl) (fun _ => rfl) fun _ => rfl
    · exact ⟨rfl, rfl, hdrain.1, hdrain.2⟩

omit [Units U] in
theorem executeSystem_spec (cpu : Cpu U) (id : RenameIssueEntry) (rob : Rob) (a d : U64) :
    ExecSpec cpu id rob (executeSystem cpu id rob a d) := by
  have hplain : ∀ (alu sd : U64) (fl : U8) (sf : Option SfenceVmaInfo) (b : Bool),
      ExecSpec cpu id rob ⟨mkResult id alu sd fl sf, b, cpu, rob⟩ := fun _ _ _ _ _ =>
    ⟨rfl, rfl, RobUpd.refl rob, Cpu.Frame.refl cpu⟩
  unfold executeSystem
  split
  · split
    · exact illegal_spec cpu id rob 0
    · exact hplain _ _ _ _ _
  · split
    · exact illegal_spec cpu id rob 0
    · split
      · exact illegal_spec cpu id rob 0
      · exact hplain _ _ _ _ _
  · split
    · exact illegal_spec cpu id rob 0
    · exact hplain _ _ _ _ _
  · split
    · exact illegal_spec cpu id rob d
    · exact hplain _ _ _ _ _
  · split
    · exact ⟨rfl, rfl, RobUpd.fault _ _, Cpu.Frame.refl cpu⟩
    · split
      · exact executeCsr_spec cpu id rob a d
      · exact hplain _ _ _ _ _

omit [Units U] in
theorem frame_redirectIf {cpu c : Cpu U} {b : Bool} {pc : U64} (h : Cpu.Frame cpu c) :
    Cpu.Frame cpu (if b then redirect c pc else c) := by
  cases b with
  | false => exact h
  | true => exact ⟨h.regs, h.mshrs⟩

theorem executeControl_spec (cpu : Cpu U) (id : RenameIssueEntry) (rob : Rob) :
    RobUpd rob (executeControl cpu id rob).2.2 ∧ Cpu.Frame cpu (executeControl cpu id rob).2.1 := by
  unfold executeControl
  split
  · refine ⟨RobUpd.modify _ (fun _ => rfl) (fun _ => rfl) (fun _ => rfl) fun _ => rfl, ?_⟩
    exact frame_redirectIf ⟨rfl, rfl⟩
  · refine ⟨RobUpd.modify _ (fun _ => rfl) (fun _ => rfl) (fun _ => rfl) fun _ => rfl, ?_⟩
    exact frame_redirectIf ⟨rfl, rfl⟩
  · exact ⟨RobUpd.refl rob, Cpu.Frame.refl cpu⟩

theorem executeOne_spec (cpu : Cpu U) (id : RenameIssueEntry) (rob : Rob) :
    ExecSpec cpu id rob (executeOne cpu id rob) := by
  have hrest : ExecSpec cpu id rob (executeRest cpu id rob) := by
    unfold executeRest
    split
    · exact illegal_spec cpu id rob 0
    · obtain ⟨hu, hf⟩ := executeControl_spec cpu id rob
      exact ⟨rfl, rfl, hu, hf⟩
  unfold executeOne
  split
  · exact ⟨rfl, rfl, RobUpd.fault _ _, Cpu.Frame.refl cpu⟩
  · split
    · exact ⟨rfl, rfl, RobUpd.refl rob, ⟨rfl, rfl⟩⟩
    · exact hrest
    · exact hrest
    · exact executeSystem_spec cpu id rob _ _

omit [Units U] in
theorem young_of_same (h : ∀ w ∈ s.renameOutput, s.NewerThanAll w.robTag) (hin : s.Within s')
    (ho : s'.renameOutput = s.renameOutput) (hl : s'.eng.lq = s.eng.lq) :
    ∀ w ∈ s'.renameOutput, s'.NewerThanAll w.robTag := by
  intro w hw
  rw [ho] at hw
  refine ⟨fun e he hout => ?_, fun t htr => ?_⟩
  · obtain ⟨e₀, he₀, hte⟩ := List.mem_map.mp (hin.tags.subset (List.mem_map_of_mem he))
    rw [hin.next, ← hte]
    rw [ho, ← hte] at hout
    exact (h w hw).entries e₀ he₀ hout
  · rw [hin.next]
    rw [hl] at htr
    exact (h w hw).loads t htr

/-- The engine after `e` executed and its result `r` is pending. -/
structure Issued (s : O3State U) (e : RenameIssueEntry) (r : ExecOut U) (s' : O3State U) : Prop where
  written : ∃ c w, s'.eng.pendingResults = s.eng.pendingResults ++ [⟨r.result, c, w⟩] ∧
    (w = true → r.result.ctrl.isMem = false) ∧
    s'.eng.rob = (if w then (completeAlu { s.eng with rob := r.rob } r.result).rob else r.rob) ∧
    s'.eng.prf = (if w then (completeAlu { s.eng with rob := r.rob } r.result).prf else s.eng.prf)
  iq : s'.eng.iq.bares = s.eng.iq.bares
  slots : s'.eng.iq.slots.length = s.eng.iq.slots.length
  rest : s'.eng.freeList = s.eng.freeList ∧ s'.eng.renameMap = s.eng.renameMap ∧
    s'.eng.committedMap = s.eng.committedMap ∧ s'.eng.checkpoints = s.eng.checkpoints ∧
    s'.eng.lq = s.eng.lq ∧ s'.eng.executeMem1 = s.eng.executeMem1 ∧ s'.eng.mem1Mem2 = s.eng.mem1Mem2 ∧
    s'.eng.mem2Wb = s.eng.mem2Wb
  frame : Cpu.Frame s.cpu s'.cpu
  output : s'.renameOutput = s.renameOutput

omit [Units U] in
/-- The end of `issueOne`: write the result if it may be written, wake consumers, note it as pending. -/
def noteResult (eng : O3Engine) (e : ExMem1Entry) (complete : Nat) (written wake : Bool) : O3Engine :=
  let eng := if written then completeAlu eng e else eng
  let eng := if wake then { eng with iq := eng.iq.speculativeWakeupPhys e.rdPhys } else eng
  { eng with pendingResults := eng.pendingResults ++ [⟨e, complete, written⟩] }

omit [Units U] in
theorem noteResult_iq (eng : O3Engine) (e : ExMem1Entry) (c : Nat) (w k : Bool) :
    (noteResult eng e c w k).iq.bares = eng.iq.bares ∧
      (noteResult eng e c w k).iq.slots.length = eng.iq.slots.length := by
  have hw : (if w then completeAlu eng e else eng).iq.bares = eng.iq.bares ∧
      (if w then completeAlu eng e else eng).iq.slots.length = eng.iq.slots.length := by
    cases w with
    | false => exact ⟨rfl, rfl⟩
    | true => exact ⟨IssueQueue.bares_wakeupPhys _ _, IssueQueue.slots_map_length _⟩
  cases k with
  | false => exact hw
  | true => exact ⟨(IssueQueue.bares_speculativeWakeupPhys _).trans hw.1,
      (IssueQueue.slots_speculativeWakeupPhys _).trans hw.2⟩

/-- The core as the instruction sees it when it executes. -/
def issueCpu (s : O3State U) (e : RenameIssueEntry) : Cpu U :=
  if e.ctrl.memRead || e.ctrl.memWrite then { s.cpu with units := Units.mdpIssued s.cpu.units e.robTag }
  else s.cpu

theorem issueCpu_frame (s : O3State U) (e : RenameIssueEntry) : Cpu.Frame s.cpu (issueCpu s e) := by
  unfold issueCpu
  split <;> exact ⟨rfl, rfl⟩

theorem issueOne_issued (s : O3State U) (e : RenameIssueEntry) :
    Issued s e (executeOne (issueCpu s e) e s.eng.rob) (issueOne s e).2 := by
  have hframe := issueCpu_frame s e
  have hx := executeOne_spec (issueCpu s e) e s.eng.rob
  have hcpu : (if e.ctrl.memRead || e.ctrl.memWrite then
      { s.cpu with units := Units.mdpIssued s.cpu.units e.robTag } else s.cpu) = issueCpu s e := rfl
  unfold issueOne
  simp only [hcpu]
  generalize s.eng.fuPool.acquire (FuType.classify e.ctrl) s.eng.cycle = fu
  obtain ⟨complete, pool⟩ := fu
  revert hx
  generalize executeOne (issueCpu s e) e s.eng.rob = r
  intro hx
  obtain ⟨w, hw, hmem⟩ : ∃ w, (!r.result.ctrl.isMem && pool.isPipelined (FuType.classify e.ctrl) &&
      r.result.trap.isNone) = w ∧ (w = true → r.result.ctrl.isMem = false) := by
    refine ⟨_, rfl, fun h => ?_⟩
    simp only [Bool.and_eq_true, Bool.not_eq_true'] at h
    exact h.1.1
  obtain ⟨k, hk⟩ : ∃ k : Bool, (r.result.ctrl.memRead && !r.result.ctrl.memWrite && r.result.trap.isNone &&
      decide (r.cpu.l1dMshrs.capacity > 0)) = k := ⟨_, rfl⟩
  simp only [hw, hk]
  obtain ⟨hq, hl⟩ := noteResult_iq { s.eng with fuPool := pool, rob := r.rob } r.result complete w k
  refine ⟨⟨complete, w, ?_, hmem, ?_, ?_⟩, hq, hl, ?_, hframe.trans hx.frame, rfl⟩
  · cases w <;> cases k <;> rfl
  · cases w <;> cases k <;> rfl
  · cases w <;> cases k <;> rfl
  · cases w <;> cases k <;> exact ⟨rfl, rfl, rfl, rfl, rfl, rfl, rfl, rfl⟩

omit [Units U] in
/-- **One instruction executes.** -/
theorem Issued.selected {e : RenameIssueEntry} {rest : List RenameIssueEntry} {cpu : Cpu U} {r : ExecOut U}
    (hi : Issued s e r s') (hx : ExecSpec cpu e s.eng.rob r)
    (h : O3Selected D total s (e :: rest)) : O3Selected D total s' rest ∧ s.Within s' ∧
      s'.eng.rob.entries.map (·.tag) = s.eng.rob.entries.map (·.tag) := by
  obtain ⟨c, w, hpend, hmem, hrob, hprf⟩ := hi.written
  obtain ⟨h1, h2, h3, h4, h5, h6, h7, h8⟩ := hi.rest
  have hupd := hx.upd.inv (f := s.flightWith (e :: rest)) rfl h.flight
  -- the instruction leaves the waiting ones and flies
  have hfly : ∀ fl, fl.Perm (e.dest :: s.flying) → FlightInv D total { s.flight with
      rob := r.rob, waiting := rest.map RenameIssueEntry.bare ++ s.waiting, flying := fl } := by
    intro fl hfl
    refine hupd.move (fun x hx => List.mem_cons_of_mem _ hx) ?_
    refine (List.Perm.append_left _ hfl).trans ?_
    exact List.perm_middle
  have htags : s'.eng.rob.entries.map (·.tag) = s.eng.rob.entries.map (·.tag) := by
    rw [hrob]
    split
    · exact (completeAlu_tags _ _).trans hx.upd.tags
    · exact hx.upd.tags
  have hin : s.Within s' := by
    refine ⟨?_, sublist_of_eq htags, by rw [h4]; exact fun _ hc => hc⟩
    rw [hrob]
    split
    · exact (completeAlu_next _ _).trans hx.upd.next
    · exact hx.upd.next
  refine ⟨⟨?_, ?_, ?_, ?_, fun hD => hin.noWrap (h.noWrap hD), young_of_same h.young hin hi.output h5,
    by rw [hin.next, h5]; exact h.ran⟩, hin, htags⟩
  · have hview : s'.flightWith rest = { s.flight with
        rob := s'.eng.rob, prf := s'.eng.prf, waiting := rest.map RenameIssueEntry.bare ++ s.waiting,
        flying := s'.flying } := by
      simp only [O3State.flightWith, O3State.flight, O3State.waiting, h1, h2, h3, h4, hi.frame.regs, hi.iq,
        hi.output]
    cases w with
    | false =>
      have hperm : s'.flying.Perm (e.dest :: s.flying) := by
        refine List.perm_iff_count.mpr fun a => ?_
        simp only [O3State.flying, hpend, h6, h7, h8, hi.frame.mshrs, List.filter_append, List.map_append,
          List.count_append, List.count_cons, List.filter_cons, Bool.not_false, if_true, List.filter_nil,
          List.map_cons, List.map_nil, List.count_nil, hx.dest]
        omega
      simp only [Bool.false_eq_true, if_false] at hrob hprf
      rw [hview, hrob, hprf]
      exact hfly s'.flying hperm
    | true =>
      have hsame : s'.flying = s.flying := by
        simp only [O3State.flying, hpend, h6, h7, h8, hi.frame.mshrs, List.filter_append, List.filter_cons,
          Bool.not_true, List.filter_nil]
        simp
      simp only [if_true] at hrob hprf
      rw [hview, hrob, hprf, hsame]
      exact completeAlu_flight (hfly (e.dest :: s.flying) (List.Perm.refl _))
        { s.eng with rob := r.rob } rfl rfl (by rw [hx.dest])
  · rw [hi.frame.mshrs]
    exact h.mshrs
  · intro p hp hw
    rw [hpend] at hp
    rcases List.mem_append.mp hp with hp' | hp'
    · exact h.written p hp' hw
    · rw [List.mem_singleton.mp hp'] at hw ⊢
      exact hmem hw
  · have := h.room
    simp only [IssueQueue.Room, hi.iq, hi.slots, hi.output, List.length_cons] at this ⊢
    omega

omit [Units U] in
/-- Without a wrap the raw order of tags is program order. -/
theorem age_of_raw {f : Flight} (h : FlightInv D total f) (hn : f.rob.NoWrap) {a b : RobTag}
    (ha : a ∈ f.rob.entries.map (·.tag)) (hb : b ∈ f.rob.entries.map (·.tag)) (hab : a.toNat < b.toNat) :
    Serial.age f.rob.nextTag b < Serial.age f.rob.nextTag a := by
  have hraw : (f.rob.entries.map (·.tag)).Pairwise fun a b => a.toNat < b.toNat := by
    unfold Rob.NoWrap at hn
    rw [List.pairwise_map] at hn ⊢
    exact hn
  -- of two entries one is in front of the other; the raw order says which
  have hsymm : Std.Symm fun a b : RobTag =>
      (a.toNat < b.toNat → Serial.age f.rob.nextTag b < Serial.age f.rob.nextTag a) ∧
      (b.toNat < a.toNat → Serial.age f.rob.nextTag a < Serial.age f.rob.nextTag b) :=
    ⟨fun x y hxy => ⟨hxy.2, hxy.1⟩⟩
  have hboth := (hraw.and h.window.ordered).imp
    (S := fun a b : RobTag =>
      (a.toNat < b.toNat → Serial.age f.rob.nextTag b < Serial.age f.rob.nextTag a) ∧
      (b.toNat < a.toNat → Serial.age f.rob.nextTag a < Serial.age f.rob.nextTag b))
    fun {x y} hxy => ⟨fun _ => hxy.2, fun hlt => by omega⟩
  exact (hboth.forall_of_forall (fun x _ => ⟨fun hlt => absurd hlt (lt_irrefl _), fun hlt => absurd hlt
    (lt_irrefl _)⟩) ha hb).1 hab

omit [Units U] in
/-- An instruction in hand goes (back) into the queue. -/
theorem requeue_selected {e : RenameIssueEntry} {rest : List RenameIssueEntry} (dep : MemDepState) (u : U)
    (h : O3Selected D total s (e :: rest)) :
    O3Selected D total { s with
      cpu := { s.cpu with units := u }
      eng := { s.eng with iq := s.eng.iq.dispatch e s.eng.prf dep } } rest := by
  have hroom : s.eng.iq.Room (rest.length + s.renameOutput.length + 1) := by
    have := h.room
    simp only [IssueQueue.Room, List.length_cons] at this ⊢
    omega
  have hperm := IssueQueue.dispatch_perm e s.eng.prf dep hroom
  refine ⟨?_, h.mshrs, h.written, IssueQueue.dispatch_room _ _ _ hroom, h.noWrap, fun w hw =>
    ⟨(h.young w hw).entries, (h.young w hw).loads⟩, h.ran⟩
  refine h.flight.move (fun x hx => ?_) ?_
  · simp only [O3State.waiting, O3State.flightWith, List.mem_append, List.map_cons, List.mem_cons] at hx ⊢
    rcases hx with hx | hx | hx
    · exact Or.inl (Or.inr hx)
    · rcases List.mem_cons.mp (hperm.mem_iff.mp hx) with hx' | hx'
      · exact Or.inl (Or.inl hx')
      · exact Or.inr (Or.inl hx')
    · exact Or.inr (Or.inr hx)
  · refine List.perm_iff_count.mpr fun a => ?_
    have hcount := (hperm.map RenameIssueEntry.dest).count_eq a
    simp only [List.map_cons, List.count_cons] at hcount
    simp only [Flight.held, O3State.flightWith, O3State.flight, O3State.waiting, O3State.flying, List.map_append,
      List.count_append, List.map_cons, List.count_cons]
    omega

/-- What the issue loop leaves: the invariant, or the instruction that asked for a flush, with the rest
of the selected ones in hand; if nothing may be lost they are newer. -/
structure Looped (D : Prop) (total : Nat) (s : O3State U) (r : Option RobTag × O3State U) : Prop where
  within : s.Within r.2
  output : r.2.renameOutput = s.renameOutput
  done : r.1 = none → O3Inv D total r.2
  flush : ∀ keep, r.1 = some keep → ∃ rest, O3Selected D total r.2 rest ∧
    keep ∈ r.2.eng.rob.entries.map (·.tag) ∧
    (D → ∀ w ∈ rest ++ r.2.renameOutput, RobTag.isNewerThan w.robTag keep = true)

omit [Units U] in
/-- What is left in hand when `e` asks for a flush is newer than `e`. -/
theorem newer_rest {e : RenameIssueEntry} {rest : List RenameIssueEntry}
    (h : O3Selected D total s (e :: rest)) (hsorted : ∀ w ∈ rest, e.robTag.toNat ≤ w.robTag.toNat) (hD : D) :
    ∀ w ∈ rest ++ s.renameOutput, RobTag.isNewerThan w.robTag e.robTag = true := by
  have hheld : (s.flightWith (e :: rest)).held.Perm
      (e.dest :: ((rest ++ s.renameOutput).map RenameIssueEntry.dest ++
        (s.eng.iq.bares.map RenameIssueEntry.dest ++ s.flying))) := by
    have hbare : ∀ l : List RenameIssueEntry, (l.map RenameIssueEntry.bare).map RenameIssueEntry.dest =
        l.map RenameIssueEntry.dest := fun l => by
      rw [List.map_map]
      rfl
    refine List.perm_iff_count.mpr fun a => ?_
    simp only [Flight.held, O3State.flightWith, O3State.flight, O3State.waiting, List.map_append, hbare,
      List.count_append, List.map_cons, List.count_cons, RenameIssueEntry.bare_dest]
    omega
  have hself : e.robTag ∈ s.eng.rob.entries.map (·.tag) :=
    h.flight.tag_mem (x := e.dest) (hheld.mem_iff.mpr List.mem_cons_self)
  have hne : ∀ w ∈ rest ++ s.renameOutput, w.robTag ≠ e.robTag := by
    intro w hw heq
    have hnd := (hheld.map Prod.fst).nodup_iff.mp h.flight.nodup
    refine (List.nodup_cons.mp hnd).1 ?_
    refine List.mem_map.mpr ⟨w.dest, List.mem_append_left _ (List.mem_map_of_mem hw), heq⟩
  intro w hw
  have hmem : w.robTag ∈ s.eng.rob.entries.map (·.tag) :=
    h.flight.tag_mem (x := w.dest) (hheld.mem_iff.mpr
      (List.mem_cons_of_mem _ (List.mem_append_left _ (List.mem_map_of_mem hw))))
  refine h.flight.newer_of_age hmem hself ?_
  rcases List.mem_append.mp hw with hw' | hw'
  · refine age_of_raw h.flight (h.noWrap hD) hself hmem ?_
    have h1 := hsorted w hw'
    have h2 : w.robTag.toNat ≠ e.robTag.toNat := fun heq => hne w hw (BitVec.eq_of_toNat_eq heq)
    omega
  · obtain ⟨x, hx, hxt⟩ := List.mem_map.mp hself
    have := (h.young w hw').entries x hx
    rw [hxt] at this
    refine this fun hin => ?_
    obtain ⟨y, hy, hyt⟩ := List.mem_map.mp hin
    exact hne y (List.mem_append_right _ hy) hyt

/-- **The issue loop.** -/
theorem issueLoop_looped (bp : Bool) (sel : List SelectedEntry) (s : O3State U)
    (h : O3Selected D total s (sel.map (·.entry)))
    (hsorted : (sel.map fun x => x.entry.robTag.toNat).Pairwise (· ≤ ·)) :
    Looped D total s (issueLoop bp s sel) := by
  induction sel generalizing s with
  | nil => exact ⟨O3State.Within.refl s, rfl, fun _ => h.inv, by simp [issueLoop]⟩
  | cons e rest ih =>
    have hs := List.pairwise_cons.mp hsorted
    rw [issueLoop]
    by_cases hw : mustWait s.eng bp e.entry
    · rw [if_pos hw]
      obtain ⟨h1, h2, h3, h4⟩ := ih _ (requeue_selected e.memDep s.cpu.units h) hs.2
      exact ⟨⟨h1.next, h1.tags, h1.ckpts⟩, h2, h3, h4⟩
    · rw [if_neg hw]
      have hx := executeOne_spec (issueCpu s e.entry) e.entry s.eng.rob
      have hi := issueOne_issued s e.entry
      obtain ⟨hsel, hin, htags⟩ := hi.selected hx h
      revert hi hsel hin htags
      generalize issueOne s e.entry = out
      obtain ⟨fl, s'⟩ := out
      intro hi hsel hin htags
      cases fl with
      | true =>
        refine ⟨hin, hi.output, by simp, fun keep hk => ⟨_, hsel, ?_, fun hD => ?_⟩⟩
        · obtain rfl := Option.some.inj hk
          rw [htags]
          exact h.flight.tag_mem (x := e.entry.dest) (List.mem_append_left _ (by simp [O3State.flightWith]))
        · obtain rfl := Option.some.inj hk
          rw [hi.output]
          refine newer_rest h (fun w hw' => ?_) hD
          obtain ⟨x, hx', rfl⟩ := List.mem_map.mp hw'
          exact hs.1 _ (List.mem_map_of_mem hx')
      | false =>
        obtain ⟨h1, h2, h3, h4⟩ := ih s' hsel hs.2
        exact ⟨hin.trans h1, h2.trans hi.output, h3, h4⟩

omit [Units U] in
/-- What `select` takes off the queue and what it leaves. -/
def chosen (s : O3State U) : List SelectedEntry × IssueQueue :=
  s.eng.iq.select s.eng.width s.eng.sb s.eng.rob s.eng.loadPorts s.eng.storePorts s.eng.prf

omit [Units U] in
theorem chosen_selected (h : O3Inv D total s) :
    O3Selected D total { s with eng := { s.eng with iq := (chosen s).2 } } ((chosen s).1.map (·.entry)) := by
  have hperm := IssueQueue.select_perm (q := s.eng.iq) s.eng.width s.eng.sb s.eng.rob s.eng.loadPorts
    s.eng.storePorts s.eng.prf
  have hlen := IssueQueue.select_length (q := s.eng.iq) s.eng.width s.eng.sb s.eng.rob s.eng.loadPorts
    s.eng.storePorts s.eng.prf
  unfold chosen
  revert hperm hlen
  generalize s.eng.iq.select s.eng.width s.eng.sb s.eng.rob s.eng.loadPorts s.eng.storePorts s.eng.prf = r
  obtain ⟨sel, iq⟩ := r
  intro hperm hlen
  dsimp only at hperm hlen ⊢
  refine ⟨?_, h.mshrs, h.written, ?_, h.noWrap, fun w hw => ⟨(h.young w hw).entries, (h.young w hw).loads⟩,
    h.ran⟩
  · refine h.flight.move (fun x hx => ?_) ?_
    · simp only [O3State.waiting, O3State.flight, List.mem_append, List.map_map] at hx ⊢
      rcases hx with hx | hx | hx
      · exact Or.inl (hperm.mem_iff.mp (List.mem_append_left _ hx))
      · exact Or.inl (hperm.mem_iff.mp (List.mem_append_right _ hx))
      · exact Or.inr hx
    · refine List.perm_iff_count.mpr fun a => ?_
      have hcount := (hperm.map RenameIssueEntry.dest).count_eq a
      simp only [List.map_append, List.count_append, List.map_map] at hcount
      simp only [Flight.held, O3State.flight, O3State.waiting, O3State.flying, List.map_append,
        List.count_append, List.map_map]
      simp only [Function.comp_def] at hcount ⊢
      omega
  · have hl := hperm.length_eq
    have hroom := h.room
    simp only [List.length_append, List.length_map] at hl
    simp only [IssueQueue.Room, List.length_map] at hroom ⊢
    omega

theorem issue_looped (bp : Bool) (h : O3Inv D total s) : Looped D total s (issue bp s) := by
  have hsorted : ((chosen s).1.map fun x => x.entry.robTag.toNat).Pairwise (· ≤ ·) :=
    IssueQueue.select_sorted (q := s.eng.iq) s.eng.width s.eng.sb s.eng.rob s.eng.loadPorts s.eng.storePorts s.eng.prf
  obtain ⟨h1, h2, h3, h4⟩ := issueLoop_looped bp (chosen s).1 _ (chosen_selected h) hsorted
  exact ⟨⟨h1.next, h1.tags, h1.ckpts⟩, h2, h3, h4⟩

/-! ### Recovery -/

omit [Units U] in
theorem live_of_capacity {t : CheckpointTable} (h : ¬t.capacity > 0) : t.live = [] := by
  have : t.slots = [] := List.length_eq_zero_iff.mp (by simpa [CheckpointTable.capacity] using h)
  simp [CheckpointTable.live, this]

/-- The map `rebuild_rename_map` gives after the squash that keeps `keep`. -/
def rebuiltMap (s : O3State U) (keep : RobTag) : RenameMap :=
  (rebuildRenameMap (squashAfter s keep).2.eng).renameMap

theorem squashAfter_found {keep : RobTag} (hk : keep ∈ s.eng.rob.entries.map (·.tag)) :
    (squashAfter s keep).2 = { flushQueuesAfter s keep with
      eng := retainLatches (flushQueuesAfter s keep).eng keep } := by
  have hfound : (s.eng.rob.findEntry keep).isSome := by
    rw [Rob.findEntry, List.find?_isSome]
    obtain ⟨e, he, hte⟩ := List.mem_map.mp hk
    exact ⟨e, he, by simpa using hte⟩
  simp only [squashAfter, hfound, if_true]

/-- **Restoring a checkpoint is rebuilding.** -/
theorem restore_eq_rebuilt {sel : List RenameIssueEntry} (h : O3Selected D total s sel) {keep : RobTag}
    (hk : keep ∈ s.eng.rob.entries.map (·.tag)) {c : Checkpoint}
    (hc : s.eng.checkpoints.findByTag keep = some c) : c.renameMap = rebuiltMap s keep := by
  obtain ⟨e, he, rfl⟩ := List.mem_map.mp hk
  obtain ⟨pre, post, hsplit⟩ := List.append_of_mem he
  obtain ⟨hlive, htag⟩ := CheckpointTable.findByTag_some hc
  have hbare : (s.flightWith sel).renamer.entries =
      pre.map RobEntry.bare ++ e.bare :: post.map RobEntry.bare := by
    simp [Flight.renamer, O3State.flightWith, O3State.flight, hsplit]
  have hmap : c.renameMap = s.eng.committedMap.rebuild (pre.map RobEntry.bare ++ [e.bare]) :=
    h.flight.ren.restore_eq_rebuild hbare hlive htag
  have hkeep : (s.eng.rob.flushAfter e.tag).entries = pre ++ [e] :=
    Rob.keepThrough_split hsplit h.flight.nodup_tags
  rw [hmap, rebuiltMap, squashAfter_found hk]
  change _ = s.eng.committedMap.rebuild (s.eng.rob.flushAfter e.tag).entries
  rw [hkeep, ← RenameMap.rebuild_bare _ (pre ++ [e])]
  simp

/-- The recovery leaves the map a rebuild would give, whichever way it took. -/
theorem recoverMap_eq {sel : List RenameIssueEntry} (h : O3Selected D total s sel) {keep : RobTag}
    (hk : keep ∈ s.eng.rob.entries.map (·.tag)) (n : Nat) :
    (recoverMap (squashAfter s keep).2.eng keep n).renameMap = rebuiltMap s keep := by
  have hck : (squashAfter s keep).2.eng.checkpoints = s.eng.checkpoints := by
    rw [squashAfter_found hk]
    rfl
  unfold recoverMap
  dsimp only
  split
  · split
    · rename_i c hc
      rw [hck] at hc
      exact restore_eq_rebuilt h hk hc
    · rfl
  · rfl

/-- Recovery squashes everything behind the entry that asked for it. -/
theorem recover_cut {rest : List RenameIssueEntry} {e : RobEntry} (h : O3Selected D total s rest)
    (he : e ∈ s.eng.rob.entries) : CutAfter s e (recover s e.tag) := by
  have hk : e.tag ∈ s.eng.rob.entries.map (·.tag) := List.mem_map_of_mem he
  have hmap := recoverMap_eq h hk (squashAfter s e.tag).1
  have hsq := squashAfter_found hk
  -- only the map, the checkpoints, the stall and the scoreboard differ from the squashed engine
  have hrec : ∀ (eng : O3Engine) (n : Nat), ∃ m t k, recoverMap eng e.tag n =
      { eng with renameMap := m, checkpoints := t, squashStallRemaining := k } ∧
      ∀ c ∈ t.live, c ∈ eng.checkpoints.live ∧ RobTag.isNewerThan c.branchTag e.tag = false := by
    intro eng n
    unfold recoverMap
    dsimp only
    by_cases hcap : eng.checkpoints.capacity > 0
    · rw [if_pos hcap]
      split
      · exact ⟨_, _, _, rfl, fun c hc => CheckpointTable.mem_live_flushAfter hc⟩
      · exact ⟨_, _, _, rfl, fun c hc => CheckpointTable.mem_live_flushAfter hc⟩
    · rw [if_neg hcap]
      exact ⟨_, eng.checkpoints, _, rfl, fun c hc => by simp [live_of_capacity hcap] at hc⟩
  obtain ⟨m, t, k, heq, hlive⟩ := hrec (squashAfter s e.tag).2.eng (squashAfter s e.tag).1
  rw [heq] at hmap
  have hmap' : m = s.eng.committedMap.rebuild (s.eng.rob.flushAfter e.tag).entries := by
    refine hmap.trans ?_
    rw [rebuiltMap, hsq]
    rfl
  have hstate : recover s e.tag = { (squashAfter s e.tag).2 with
      eng := { (squashAfter s e.tag).2.eng with
        renameMap := m, checkpoints := t, squashStallRemaining := k
        scoreboard := Scoreboard.rebuildFromRob (squashAfter s e.tag).2.eng.rob }
      renameOutput := [] } := by
    simp only [recover, heq]
  rw [hstate, hsq]
  rw [hsq] at hlive
  exact ⟨rfl, rfl, hmap', rfl, rfl, hlive, rfl, rfl, rfl, rfl, rfl, rfl, rfl, rfl, rfl⟩

/-- **Recovery from a flush request.** -/
theorem recover_keeps {rest : List RenameIssueEntry} {keep : RobTag} (h : O3Selected D total s rest)
    (hk : keep ∈ s.eng.rob.entries.map (·.tag))
    (hnew : D → ∀ w ∈ rest ++ s.renameOutput, RobTag.isNewerThan w.robTag keep = true) :
    Keeps D total s (recover s keep) := by
  obtain ⟨e, he, rfl⟩ := List.mem_map.mp hk
  exact (recover_cut h he).keeps h he hnew

/-! ### Dispatch -/

theorem foldl_dispatchOne (ws : List RenameIssueEntry) (h : O3Selected D total s ws)
    (ho : s.renameOutput = []) :
    O3Inv D total (ws.foldl dispatchOne s) ∧ s.Within (ws.foldl dispatchOne s) ∧
      (ws.foldl dispatchOne s).renameOutput = [] := by
  induction ws generalizing s with
  | nil => exact ⟨h.inv, O3State.Within.refl s, ho⟩
  | cons e ws ih =>
    rw [List.foldl_cons]
    obtain ⟨h1, h2, h3⟩ := ih (s := dispatchOne s e) (requeue_selected _ _ h) ho
    exact ⟨h1, ⟨h2.next, h2.tags, h2.ckpts⟩, h3⟩

/-- What rename handed over enters the queue. -/
theorem dispatch_keeps (h : O3Inv D total s) :
    Keeps D total s (dispatch s) ∧ (dispatch s).renameOutput = [] := by
  have hsel : O3Selected D total { s with renameOutput := [] } s.renameOutput := by
    refine ⟨?_, h.mshrs, h.written, ?_, h.noWrap, by simp, h.ran⟩
    · refine h.flight.move (fun x hx => ?_) ?_
      · simp only [O3State.waiting, O3State.flight, List.map_nil, List.append_nil, List.mem_append] at hx ⊢
        exact hx.symm
      · refine List.Perm.append_right _ (List.Perm.map _ ?_)
        simp only [O3State.waiting, O3State.flight, List.map_nil, List.append_nil]
        exact List.perm_append_comm
    · simpa using h.room
  obtain ⟨h1, h2, h3⟩ := foldl_dispatchOne s.renameOutput hsel rfl
  exact ⟨⟨h1, ⟨h2.next, h2.tags, h2.ckpts⟩⟩, h3⟩

/-! ### The tick -/

theorem tickBack_keeps (h : O3Inv D total s) :
    Keeps D total s (tickBack s) ∧ (tickBack s).renameOutput = [] := by
  have hm := memory1_keeps h
  have hd := hm.trans (drainPending_keeps hm.inv)
  unfold tickBack
  dsimp only
  have hl := issue_looped (!(memory1 s).eng.executeMem1.isEmpty) hd.inv
  revert hl
  generalize issue (!(memory1 s).eng.executeMem1.isEmpty)
    { memory1 s with eng := drainPending (memory1 s).eng } = r
  obtain ⟨fl, s'⟩ := r
  intro hl
  cases fl with
  | none =>
    obtain ⟨hk, ho⟩ := dispatch_keeps (hl.done rfl)
    exact ⟨⟨hk.inv, (hd.within.trans hl.within).trans hk.within⟩, ho⟩
  | some keep =>
    obtain ⟨rest, hsel, hmem, hnew⟩ := hl.flush keep rfl
    have hk := recover_keeps hsel hmem hnew
    exact ⟨⟨hk.inv, (hd.within.trans hl.within).trans hk.within⟩, rfl⟩

theorem foldl_storeResolved_output (wbs : List Mem2WbEntry) (s : O3State U) :
    (wbs.foldl storeResolved s).renameOutput = s.renameOutput := by
  induction wbs generalizing s with
  | nil => rfl
  | cons wb wbs ih =>
    rw [List.foldl_cons, ih]
    unfold storeResolved
    split
    · split <;> rfl
    · rfl

theorem tickRest_keeps (h : O3Inv D total s) :
    Keeps D total s (tickRest s) ∧ (tickRest s).renameOutput = [] := by
  have hw := writeback_keeps h
  have hd := hw.trans (drainMshrs_keeps hw.inv)
  obtain ⟨hm, hv⟩ := memory2_keeps hd.inv (drainMshrs_latch.trans writeback_latch)
  have ho : (memory2 (drainMshrs (writeback s))).2.renameOutput = (drainMshrs (writeback s)).renameOutput :=
    foldl_storeResolved_output _ _
  unfold tickRest
  revert hm hv ho
  generalize memory2 (drainMshrs (writeback s)) = r
  obtain ⟨v, s'⟩ := r
  intro hm hv ho
  cases v with
  | none =>
    obtain ⟨hb, hout⟩ := tickBack_keeps hm.inv
    exact ⟨(hd.trans hm).trans hb, hout⟩
  | some v =>
    obtain ⟨t, pc⟩ := v
    refine ⟨(hd.trans hm).trans (violationFlush_keeps hm.inv pc fun w hwm => ?_), rfl⟩
    rw [hm.within.next]
    dsimp only at hwm ho
    rw [ho] at hwm
    exact hv t pc rfl w hwm

omit [Units U] in
theorem trap_redirectPending (c : Cpu U) (t : Trap) (epc : U64) :
    (c.trap t epc).redirectPending = c.redirectPending := by
  simp only [Cpu.trap, Cpu.trapToS, Cpu.trapToM, apply_ite Cpu.redirectPending, ite_self]

/-- The rest of a tick after commit, which began with fetch at `pcBefore`. -/
def afterCommit (pcBefore : U64) : Option (Trap × U64) × O3State U → O3State U
  | (some (t, epc), s) => takeTrap s t epc
  | (none, s) => if s.cpu.pc ≠ pcBefore then { squashAll s with renameOutput := [] } else tickRest s

theorem tick_eq (s : O3State U) : tick s = afterCommit (start s).cpu.pc (commit (start s)) := by
  unfold tick
  dsimp only
  split
  · rename_i heq
    rw [heq]
    rfl
  · rename_i heq
    rw [heq]
    rfl

/-- **The tick.** The invariant holds afterwards; the latch to dispatch is empty, or is about to be
emptied because fetch is redirected. -/
theorem tick_keeps (h : O3Inv D total s) :
    Keeps D total s { tick s with renameOutput := [] } ∧
      ((tick s).renameOutput = [] ∨ (tick s).cpu.redirectPending = true) := by
  have hs := start_keeps h
  have hwithin := commit_within hs.inv
  have hdone := CommitState.commitStage_done (start s).eng.width (toCommit (start s)) (toCommit_inv hs.inv)
  have hsq : FlightInv D total (commit (start s)).2.flight.squashed := by
    have := hdone.squash
    rwa [← ofCommit_flight hdone.mshrs] at this
  have hk := commit_keeps hs.inv
  rw [tick_eq]
  revert hwithin hsq hk
  generalize commit (start s) = r
  obtain ⟨trap, s'⟩ := r
  intro hwithin hsq hk
  dsimp only at hwithin hsq hk ⊢
  have hin := hs.within.trans hwithin
  cases trap with
  | some te =>
    obtain ⟨t, epc⟩ := te
    refine ⟨⟨takeTrap_inv hsq t epc, hin.trans (within_squashed rfl rfl)⟩, Or.inr ?_⟩
    exact trap_redirectPending _ t epc
  | none =>
    by_cases hpc : s'.cpu.pc ≠ (start s).cpu.pc
    · simp only [afterCommit, if_pos hpc]
      exact ⟨⟨squashAll_inv hsq, hin.trans (within_squashed rfl rfl)⟩, Or.inl trivial⟩
    · simp only [afterCommit, if_neg hpc]
      obtain ⟨hr, ho⟩ := tickRest_keeps (hk rfl).inv
      have heq : (⟨(tickRest s').eng, (tickRest s').cpu, []⟩ : O3State U) = tickRest s' := by
        rw [← ho]
      rw [heq]
      exact ⟨⟨hr.inv, hin.trans hr.within⟩, Or.inl ho⟩

end

end O3

end Rvsim
