/-
# Memory latency

Memory1 writes into each entry the cycle in which its access is complete;
memory2 takes the entry in the next tick and does not look at it. So the
latency is honoured only where it is at most one cycle, or where the entry
waits elsewhere: behind a miss it is parked, and goes on when the miss has
completed. `mem1_busy` and `mem1_stall` delay the entries behind, not the one
that is slow.

Key definitions:
  - `mem1Latency`, `mem1Prompt`, `mem2Honours`
  - `Latch`, `Latch.Due`, `Latch.Narrows`
  - `O3.reachingMem2`, `InOrder.reachingMem2`
Key theorems:
  - `memory1One_pass`, `memory2Loop_split`
  - `O3.tick_due`, `InOrder.tick_due`, `runs_honoured`
-/
import Rvsim.O3Run
import Rvsim.InOrderRun

namespace Rvsim

variable {U : Type}

/-! ### What memory1 charges -/

/-- A load, an AMO, an LR or an SC. -/
def ControlSignals.returnsValue (c : ControlSignals) : Bool := c.memRead || c.atomicOp != .none

/-- The latency memory1 charges for an access that it does not park: of the alignment, the translation, and
the cache or what lies behind it. -/
def mem1Latency [Units U] (cpu : Cpu U) (ex : ExMem1Entry) : Nat :=
  let size := ex.ctrl.width.bytes
  let (r, cpu) := cpu.translate ex.alu ex.ctrl.accessType size
  let latency := Unaligned.calculateUnalignedLatency ex.alu size 64 + r.cycles
  if r.paddr ≥ cpu.cacheBase && cpu.l1dMshrs.capacity > 0 then
    latency + Units.l1dLatency (Units.l1dAccessCheck cpu.units r.paddr ex.ctrl.memWrite).2
  else if r.paddr ≥ cpu.cacheBase then latency + (Units.simulateMemoryAccess cpu.units r.paddr ex.ctrl.accessType).1
  else latency

theorem returnsValue_not_storeOnly {c : ControlSignals} (h : c.returnsValue = true) : c.isStoreOnly = false := by
  unfold ControlSignals.returnsValue at h
  unfold ControlSignals.isStoreOnly
  cases hr : c.memRead with
  | true => simp
  | false =>
    rw [hr, Bool.false_or, bne_iff_ne] at h
    simp [h]

theorem mem1Mshr_pass [Units U] {cpu cpu' : Cpu U} {ex : ExMem1Entry} {paddr : PhysAddr} {pte : Option PteUpdate}
    {latency now : Nat} {m : Mem1Mem2Entry} (h : mem1Mshr cpu ex paddr pte latency now = (.pass m, cpu'))
    (hv : ex.ctrl.returnsValue = true) :
    m.completeCycle = now + (latency + Units.l1dLatency (Units.l1dAccessCheck cpu.units paddr ex.ctrl.memWrite).2) := by
  unfold mem1Mshr at h
  dsimp only at h
  split at h
  · cases h
    rfl
  · rw [if_neg (by rw [returnsValue_not_storeOnly hv]; exact Bool.false_ne_true)] at h
    split at h <;> cases h

theorem mem1Access_pass [Units U] {cpu cpu' : Cpu U} {ex : ExMem1Entry} {paddr : PhysAddr} {pte : Option PteUpdate}
    {latency now : Nat} {m : Mem1Mem2Entry} (h : mem1Access cpu ex paddr pte latency now = (.pass m, cpu'))
    (hv : ex.ctrl.returnsValue = true) : m.completeCycle = now +
      (if paddr ≥ cpu.cacheBase && cpu.l1dMshrs.capacity > 0 then
        latency + Units.l1dLatency (Units.l1dAccessCheck cpu.units paddr ex.ctrl.memWrite).2
      else if paddr ≥ cpu.cacheBase then latency + (Units.simulateMemoryAccess cpu.units paddr ex.ctrl.accessType).1
      else latency) := by
  unfold mem1Access at h
  split at h
  · rename_i hc
    rw [if_pos hc]
    exact mem1Mshr_pass h hv
  · rename_i hc
    rw [if_neg hc]
    split at h
    · rename_i hp
      rw [if_pos hp]
      cases h
      rfl
    · rename_i hp
      rw [if_neg hp]
      cases h
      rfl

theorem mem1Access_ctrl [Units U] {cpu cpu' : Cpu U} {ex : ExMem1Entry} {paddr : PhysAddr} {pte : Option PteUpdate}
    {latency now : Nat} {m : Mem1Mem2Entry} (h : mem1Access cpu ex paddr pte latency now = (.pass m, cpu')) :
    m.ctrl = ex.ctrl := by
  unfold mem1Access at h
  split at h
  · unfold mem1Mshr at h
    dsimp only at h
    split at h
    · cases h
      rfl
    · split at h
      · cases h
        rfl
      · split at h <;> cases h
  · split at h
    · cases h
      rfl
    · cases h
      rfl

/-- What passes memory1 with a value to return completes after its latency. -/
theorem memory1One_pass [Units U] {cpu cpu' : Cpu U} {ex : ExMem1Entry} {now : Nat} {lq lq' : Option LoadQueue}
    {m : Mem1Mem2Entry} (h : memory1One cpu ex now lq = (.pass m, cpu', lq')) :
    m.ctrl = ex.ctrl ∧ (m.ctrl.returnsValue = true → m.completeCycle ≤ now + mem1Latency cpu ex) := by
  unfold memory1One at h
  split at h
  · cases h
  · split at h
    · unfold mem1Translate at h
      dsimp only at h
      split at h
      · cases h
      · split at h
        · cases h
        · split at h
          · cases h
          · obtain ⟨o, hacc⟩ : ∃ c, mem1Access (cpu.translate ex.alu ex.ctrl.accessType ex.ctrl.width.bytes).2 ex
                (cpu.translate ex.alu ex.ctrl.accessType ex.ctrl.width.bytes).1.paddr
                (cpu.translate ex.alu ex.ctrl.accessType ex.ctrl.width.bytes).1.pteUpdate
                (Unaligned.calculateUnalignedLatency ex.alu ex.ctrl.width.bytes 64 +
                  (cpu.translate ex.alu ex.ctrl.accessType ex.ctrl.width.bytes).1.cycles) now = (.pass m, c) :=
              ⟨_, Prod.ext (congrArg (·.1) h) rfl⟩
            have hctrl := mem1Access_ctrl hacc
            refine ⟨hctrl, fun hv => le_of_eq ?_⟩
            rw [hctrl] at hv
            exact mem1Access_pass hacc hv
    · cases h
      exact ⟨rfl, fun _ => Nat.le_add_right _ _⟩

theorem memory1One_trapped [Units U] {cpu cpu' : Cpu U} {ex : ExMem1Entry} {now : Nat} {lq lq' : Option LoadQueue}
    {m : Mem1Mem2Entry} (h : memory1One cpu ex now lq = (.trapped m, cpu', lq')) : m.trap ≠ none := by
  have hacc : ∀ (c : Cpu U) (p : PhysAddr) (u : Option PteUpdate) (k : Nat), (mem1Access c ex p u k now).1 ≠
      .trapped m := by
    intro c p u k
    unfold mem1Access mem1Mshr
    dsimp only
    repeat' split
    all_goals simp
  unfold memory1One at h
  split at h
  · cases h
    exact Option.some_ne_none _
  · split at h
    · unfold mem1Translate at h
      dsimp only at h
      split at h
      · cases h
        exact Option.some_ne_none _
      · split at h
        · cases h
          exact Option.some_ne_none _
        · split at h
          · cases h
            exact Option.some_ne_none _
          · exact absurd (congrArg (·.1) h) (hacc _ _ _ _)
    · cases h

/-- Along the loop of memory1, what passes with a value to return is charged one cycle at most. -/
def mem1Prompt [Units U] (now : Nat) (cpu : Cpu U) (lq : Option LoadQueue) : List ExMem1Entry → Bool
  | [] => true
  | ex :: rest =>
    match memory1One cpu ex now lq with
    | (.pass _, cpu', lq') => (!ex.ctrl.returnsValue || decide (mem1Latency cpu ex ≤ 1)) && mem1Prompt now cpu' lq' rest
    | (.parked _, cpu', lq') => mem1Prompt now cpu' lq' rest
    | _ => true

/-! ### The latch between the memory stages -/

/-- The value that this entry returns, if any, is complete by the cycle. -/
def Mem1Mem2Entry.DueBy (m : Mem1Mem2Entry) (cycle : Nat) : Prop :=
  m.trap = none → m.ctrl.returnsValue = true → m.completeCycle ≤ cycle

/-- The cycle and the entries in front of memory2. -/
structure Latch where
  now : Nat
  entries : List Mem1Mem2Entry

namespace Latch

/-- Every value is complete in the next cycle. -/
def Due (l : Latch) : Prop := ∀ m ∈ l.entries, m.DueBy (l.now + 1)

/-- In the same cycle, no new entry. -/
structure Narrows (l l' : Latch) : Prop where
  now : l'.now = l.now
  entries : ∀ m ∈ l'.entries, m ∈ l.entries

variable {l l' l'' : Latch}

theorem Narrows.refl (l : Latch) : l.Narrows l := ⟨rfl, fun _ h => h⟩

theorem Narrows.of_eq (h : l' = l) : l.Narrows l' := h ▸ Narrows.refl l

theorem Narrows.trans (h : l.Narrows l') (h' : l'.Narrows l'') : l.Narrows l'' :=
  ⟨h'.now.trans h.now, fun m hm => h.entries m (h'.entries m hm)⟩

theorem Due.narrows (h : l.Due) (hn : l.Narrows l') : l'.Due := by
  intro m hm
  rw [hn.now]
  exact h m (hn.entries m hm)

end Latch

theorem memory1Stage_due [Units U] {now : Nat} {input : List ExMem1Entry} {cpu : Cpu U} {output : List Mem1Mem2Entry}
    {lq : Option LoadQueue} {cancelled : List PhysReg} (h : ∀ m ∈ output, m.DueBy (now + 1))
    (hp : mem1Prompt now cpu lq input = true) : ∀ m ∈ (memory1Stage cpu input output now lq cancelled).output,
        m.DueBy (now + 1) := by
  induction input generalizing cpu output lq cancelled with
  | nil => exact h
  | cons ex rest ih =>
    unfold memory1Stage
    unfold mem1Prompt at hp
    rcases hone : memory1One cpu ex now lq with ⟨o, cpu', lq'⟩
    rw [hone] at hp
    cases o with
    | pass m =>
      obtain ⟨hctrl, hlat⟩ := memory1One_pass hone
      rw [Bool.and_eq_true, Bool.or_eq_true, Bool.not_eq_true', decide_eq_true_eq] at hp
      refine ih (fun x hx => ?_) hp.2
      rcases List.mem_append.mp hx with hx | hx
      · exact h x hx
      · rw [List.mem_singleton.mp hx]
        intro _ hv
        have hle := hp.1.resolve_left (by rw [← hctrl, hv]; decide)
        have := hlat hv
        omega
    | trapped m =>
      -- what goes on last carries a trap
      intro x hx
      rcases List.mem_append.mp hx with hx | hx
      · exact h x hx
      · rw [List.mem_singleton.mp hx]
        intro htrap
        exact absurd htrap (memory1One_trapped hone)
    | parked p => exact ih h hp
    | full => exact h

/-- Memory2 takes a prefix of its latch, in the order of the tags, and hands on one result for each. -/
theorem memory2Loop_split [Units U] (s : Mem2State U) (es : List Mem1Mem2Entry) :
    ∃ gone, es = gone ++ (memory2Loop s es).1 ∧ (memory2Loop s es).2.1.map (·.robTag) = gone.map (·.robTag) := by
  induction es generalizing s with
  | nil => exact ⟨[], rfl, rfl⟩
  | cons m rest ih =>
    rw [memory2Loop]
    split
    · exact ⟨[m], rfl, rfl⟩
    · split
      · exact ⟨[], rfl, rfl⟩
      · rename_i wb s' hone
        obtain ⟨gone, hes, htags⟩ := ih s'
        refine ⟨m :: gone, congrArg (m :: ·) hes, ?_⟩
        dsimp only
        rw [List.map_cons, List.map_cons, htags]
        exact congrArg (fun t => t :: _) (congrArg Prod.fst (memory2One_spec hone).dest)

/-- No value leaves memory2 before it is complete: what leaves is what the results are of. -/
def mem2Honours [Units U] (now : Nat) (s : Mem2State U) (input : List Mem1Mem2Entry) : Prop :=
  ∃ gone, sortByRawTag input = gone ++ (memory2Stage s input).1 ∧
    (memory2Stage s input).2.1.map (·.robTag) = gone.map (·.robTag) ∧ ∀ m ∈ gone, m.DueBy now

theorem mem_sortByRawTag {m : Mem1Mem2Entry} {es : List Mem1Mem2Entry} : m ∈ sortByRawTag es ↔ m ∈ es := by
  unfold sortByRawTag
  rw [List.mem_insertionSort]

theorem memory2Stage_left [Units U] (s : Mem2State U) (input : List Mem1Mem2Entry) :
    ∀ m ∈ (memory2Stage s input).1, m ∈ input := by
  intro m hm
  obtain ⟨gone, hes, -⟩ := memory2Loop_split s (sortByRawTag input)
  rw [← mem_sortByRawTag, hes]
  exact List.mem_append_right _ hm

theorem mem2Honours_of_due [Units U] {now : Nat} {input : List Mem1Mem2Entry} (h : ∀ m ∈ input, m.DueBy now)
    (s : Mem2State U) : mem2Honours now s input := by
  obtain ⟨gone, hes, htags⟩ := memory2Loop_split s (sortByRawTag input)
  refine ⟨gone, hes, htags, fun m hm => h m ?_⟩
  rw [← mem_sortByRawTag, hes]
  exact List.mem_append_left _ hm

/-- A miss is drained once it has completed. -/
theorem drainCompletions_completed (f : MshrFile) (now : Nat) :
    ∀ e ∈ (f.drainCompletions now).1, e.completeCycle ≤ now := by
  intro e he
  have hdone := (List.mem_filter.mp he).2
  unfold MshrFile.isDone at hdone
  rw [Bool.and_eq_true, decide_eq_true_eq] at hdone
  exact hdone.2

/-- What was parked goes on in the cycle in which its miss is drained. -/
theorem unpark_due (now : Nat) (done : List MshrEntry) : ∀ m ∈ O3.unpark now done, m.DueBy now := by
  intro m hm _ _
  unfold O3.unpark at hm
  obtain ⟨e, -, hm⟩ := List.mem_flatMap.mp hm
  obtain ⟨w, -, hm⟩ := List.mem_filterMap.mp hm
  obtain ⟨p, -, rfl⟩ := Option.map_eq_some_iff.mp hm
  exact le_rfl

/-! ### Out of order -/

def O3State.latch (s : O3State U) : Latch := ⟨s.eng.cycle, s.eng.mem1Mem2⟩

namespace O3

variable [Units U]

/-- The state in which a tick runs memory2; none when the tick takes a trap or flushes before. -/
def reachingMem2 (s : O3State U) : Option (O3State U) :=
  let s := start s
  match commit s with
  | (some _, _) => none
  | (none, s') => if s'.cpu.pc ≠ s.cpu.pc then none else some (drainMshrs (writeback s'))

/-- The state in which a tick runs memory1. -/
def reachingMem1 (s : O3State U) : Option (O3State U) :=
  (reachingMem2 s).bind fun m =>
    match memory2 m with
    | (some _, _) => none
    | (none, m') => if mem1Busy m' then none else some m'

/-- In the tick from `s` no value leaves memory2 before it is complete. -/
def Honoured (s : O3State U) : Prop := ∀ m, reachingMem2 s = some m →
  mem2Honours m.eng.cycle ⟨m.cpu, m.eng.sb, some m.eng.lq, none⟩ m.eng.mem1Mem2

/-- In the tick from `s` memory1 charges one cycle at most for what returns a value. -/
def prompt (s : O3State U) : Bool :=
  (reachingMem1 s).all fun m => mem1Prompt m.eng.cycle m.cpu (some m.eng.lq) m.eng.executeMem1

variable {s : O3State U}

omit [Units U] in
theorem writeback_mem1Mem2 (s : O3State U) : (writeback s).latch = s.latch := by
  have hfold : ∀ (wbs : List Mem2WbEntry) (eng : O3Engine), (wbs.foldl writeOne eng).cycle = eng.cycle ∧
      (wbs.foldl writeOne eng).mem1Mem2 = eng.mem1Mem2 := by
    intro wbs
    induction wbs with
    | nil => exact fun _ => ⟨rfl, rfl⟩
    | cons wb wbs ih =>
      intro eng
      have hone : (writeOne eng wb).cycle = eng.cycle ∧ (writeOne eng wb).mem1Mem2 = eng.mem1Mem2 := by
        unfold writeOne
        cases wb.trap <;> exact ⟨rfl, rfl⟩
      rw [List.foldl_cons, (ih _).1, (ih _).2]
      exact hone
  obtain ⟨hc, hm⟩ := hfold s.eng.mem2Wb s.eng
  rw [writeback_state]
  exact congrArg₂ Latch.mk hc hm

theorem drainMshrs_due (h : ∀ m ∈ s.eng.mem1Mem2, m.DueBy s.eng.cycle) :
    (drainMshrs s).eng.cycle = s.eng.cycle ∧ ∀ m ∈ (drainMshrs s).eng.mem1Mem2, m.DueBy s.eng.cycle := by
  unfold drainMshrs
  split
  · refine ⟨rfl, fun m hm => ?_⟩
    rcases List.mem_append.mp hm with hm | hm
    · exact h m hm
    · exact unpark_due _ _ m hm
  · exact ⟨rfl, h⟩

theorem memory2_latch (s : O3State U) : (memory2 s).2.latch =
    ⟨s.eng.cycle, (memory2Stage ⟨s.cpu, s.eng.sb, some s.eng.lq, none⟩ s.eng.mem1Mem2).1⟩ := by
  have hfold : ∀ (wbs : List Mem2WbEntry) (s : O3State U), (wbs.foldl storeResolved s).latch = s.latch := by
    intro wbs
    induction wbs with
    | nil => exact fun _ => rfl
    | cons wb wbs ih =>
      intro s
      rw [List.foldl_cons, ih]
      unfold storeResolved
      split
      · split <;> rfl
      · rfl
  exact hfold _ _

theorem flush_narrows (s : O3State U) : s.latch.Narrows (flush s).latch := ⟨rfl, fun _ h => absurd h List.not_mem_nil⟩

theorem violationFlush_narrows (s : O3State U) (t : RobTag) (pc : U64) :
    s.latch.Narrows (violationFlush s t pc).latch := by
  unfold violationFlush
  dsimp only
  split
  · exact ⟨rfl, fun _ h => List.mem_of_mem_filter h⟩
  · exact ⟨rfl, fun _ h => absurd h List.not_mem_nil⟩

omit [Units U] in
theorem drainPending_latch (eng : O3Engine) :
    (drainPending eng).cycle = eng.cycle ∧ (drainPending eng).mem1Mem2 = eng.mem1Mem2 := by
  have hfold : ∀ (ps : List PendingResult) (eng : O3Engine), (ps.foldl finishPending eng).cycle = eng.cycle ∧
      (ps.foldl finishPending eng).mem1Mem2 = eng.mem1Mem2 := by
    intro ps
    induction ps with
    | nil => exact fun _ => ⟨rfl, rfl⟩
    | cons p ps ih =>
      intro eng
      have hone : (finishPending eng p).cycle = eng.cycle ∧ (finishPending eng p).mem1Mem2 = eng.mem1Mem2 := by
        unfold finishPending
        split
        · exact ⟨rfl, rfl⟩
        · split <;> exact ⟨rfl, rfl⟩
      rw [List.foldl_cons, (ih _).1, (ih _).2]
      exact hone
  exact hfold _ _

theorem issueOne_latch (s : O3State U) (e : RenameIssueEntry) : (issueOne s e).2.latch = s.latch := by
  have hwake : ∀ (b : Bool) (eng : O3Engine) (q : IssueQueue),
      (if b then { eng with iq := q } else eng).cycle = eng.cycle ∧
        (if b then { eng with iq := q } else eng).mem1Mem2 = eng.mem1Mem2 := by
    intro b eng q
    cases b <;> exact ⟨rfl, rfl⟩
  have hwritten : ∀ (b : Bool) (eng : O3Engine) (x : ExMem1Entry),
      (if b then completeAlu eng x else eng).cycle = eng.cycle ∧
      (if b then completeAlu eng x else eng).mem1Mem2 = eng.mem1Mem2 := by
    intro b eng x
    cases b <;> exact ⟨rfl, rfl⟩
  unfold issueOne O3State.latch
  dsimp only
  rw [(hwake _ _ _).1, (hwake _ _ _).2, (hwritten _ _ _).1, (hwritten _ _ _).2]

theorem issueLoop_latch (bp : Bool) (sel : List SelectedEntry) (s : O3State U) :
    (issueLoop bp s sel).2.latch = s.latch :=
  issueLoop_lift (R := fun a b => b.latch = a.latch) (fun _ => rfl) (fun h h' => h'.trans h) (fun _ _ => rfl)
    issueOne_latch bp s sel

theorem issue_latch (bp : Bool) (s : O3State U) : (issue bp s).2.latch = s.latch := issueLoop_latch bp _ _

theorem recover_narrows (s : O3State U) (keep : RobTag) : s.latch.Narrows (recover s keep).latch := by
  have hmap : ∀ (eng : O3Engine) (n : Nat), (recoverMap eng keep n).cycle = eng.cycle ∧
      (recoverMap eng keep n).mem1Mem2 = eng.mem1Mem2 := by
    intro eng n
    unfold recoverMap
    dsimp only
    split
    · split <;> exact ⟨rfl, rfl⟩
    · exact ⟨rfl, rfl⟩
  have hsquash : s.latch.Narrows (squashAfter s keep).2.latch := by
    unfold squashAfter
    dsimp only
    split <;> exact ⟨rfl, fun _ h => List.mem_of_mem_filter h⟩
  obtain ⟨hc, hm⟩ := hmap (squashAfter s keep).2.eng (squashAfter s keep).1
  exact hsquash.trans (Latch.Narrows.of_eq (congrArg₂ Latch.mk hc hm))

theorem dispatch_latch (s : O3State U) : (dispatch s).latch = s.latch := by
  have hfold : ∀ (es : List RenameIssueEntry) (s : O3State U), (es.foldl dispatchOne s).latch = s.latch := by
    intro es
    induction es with
    | nil => exact fun _ => rfl
    | cons e es ih => exact fun s => (ih _).trans rfl
  exact hfold _ _

/-- A tick ends before memory2 and squashes everything, or runs memory2 in the state that it reaches. -/
theorem tick_reaching (s : O3State U) :
    (reachingMem2 s = none ∧ (start s).latch.Narrows (tick s).latch ∧ (tick s).eng.rob.tags = []) ∨
    ∃ m, reachingMem2 s = some m ∧ tick s = (match memory2 m with
      | (some (violating, storePc), s) => violationFlush s violating storePc
      | (none, s) => tickBack s) := by
  unfold reachingMem2 tick
  dsimp only
  have hlatch : (commit (start s)).2.latch = (start s).latch := rfl
  generalize commit (start s) = r at hlatch ⊢
  obtain ⟨trap, s'⟩ := r
  have hflush : (start s).latch.Narrows (flush s').latch := (Latch.Narrows.of_eq hlatch).trans (flush_narrows s')
  cases trap with
  | some te => exact Or.inl ⟨rfl, hflush, rfl⟩
  | none =>
    dsimp only
    by_cases hp : s'.cpu.pc ≠ (start s).cpu.pc
    · rw [if_pos hp, if_pos hp]
      exact Or.inl ⟨rfl, hflush, rfl⟩
    · rw [if_neg hp, if_neg hp]
      exact Or.inr ⟨_, rfl, rfl⟩

theorem reachingMem2_due {m : O3State U} (h : s.latch.Due) (hm : reachingMem2 s = some m) :
    ∀ x ∈ m.eng.mem1Mem2, x.DueBy m.eng.cycle := by
  unfold reachingMem2 at hm
  dsimp only at hm
  have hlatch : (commit (start s)).2.latch = (start s).latch := rfl
  generalize commit (start s) = r at hlatch hm
  obtain ⟨trap, s'⟩ := r
  cases trap with
  | some te => exact absurd hm (by simp)
  | none =>
    dsimp only at hm
    rw [Option.ite_none_left_eq_some] at hm
    obtain ⟨-, hm⟩ := hm
    cases hm
    have hwb : (writeback s').latch = (start s).latch := (writeback_mem1Mem2 s').trans hlatch
    have hcycle : (writeback s').eng.cycle = s.eng.cycle + 1 := congrArg Latch.now hwb
    have hentries : (writeback s').eng.mem1Mem2 = s.eng.mem1Mem2 := congrArg Latch.entries hwb
    have hdrain := drainMshrs_due (s := writeback s') (by rw [hcycle, hentries]; exact h)
    rw [hdrain.1]
    exact hdrain.2

theorem honoured_of_due (h : s.latch.Due) : Honoured s := fun _ hm => mem2Honours_of_due (reachingMem2_due h hm) _

theorem memory1_due (h : s.latch.Due)
    (hp : mem1Busy s = false → mem1Prompt s.eng.cycle s.cpu (some s.eng.lq) s.eng.executeMem1 = true) :
    (memory1 s).latch.Due := by
  unfold memory1
  cases hb : mem1Busy s with
  | true => exact h
  | false => exact memory1Stage_due h (hp hb)

theorem tickBack_due (h : s.latch.Due)
    (hp : mem1Busy s = false → mem1Prompt s.eng.cycle s.cpu (some s.eng.lq) s.eng.executeMem1 = true) :
    (tickBack s).latch.Due := by
  have hm := memory1_due h hp
  unfold tickBack
  dsimp only
  have hpend : ({ memory1 s with eng := drainPending (memory1 s).eng } : O3State U).latch = (memory1 s).latch :=
    congrArg₂ Latch.mk (drainPending_latch _).1 (drainPending_latch _).2
  have hissue := issue_latch (!(memory1 s).eng.executeMem1.isEmpty)
      { memory1 s with eng := drainPending (memory1 s).eng }
  rw [hpend] at hissue
  split
  · rename_i heq
    rw [heq] at hissue
    exact (hm.narrows (Latch.Narrows.of_eq hissue)).narrows (recover_narrows _ _)
  · rename_i heq
    rw [heq] at hissue
    rw [dispatch_latch, hissue]
    exact hm

/-- **One tick** that charges a cycle at most leaves every value complete in the next. -/
theorem tick_due (h : s.latch.Due) (hp : prompt s = true) : (tick s).latch.Due := by
  rcases tick_reaching s with ⟨-, hn, -⟩ | ⟨m, hm, htick⟩
  · have hstart : (start s).latch.Due := fun x hx ht hv => (h x hx ht hv).trans (Nat.le_succ _)
    exact hstart.narrows hn
  · have hdue := reachingMem2_due h hm
    have hmem2 : (memory2 m).2.latch.Due := by
      rw [memory2_latch]
      exact fun x hx ht hv => (hdue x (memory2Stage_left _ _ x hx) ht hv).trans (Nat.le_succ _)
    have hp' : ∀ s', memory2 m = (none, s') → mem1Busy s' = false →
        mem1Prompt s'.eng.cycle s'.cpu (some s'.eng.lq) s'.eng.executeMem1 = true := by
      intro s' heq hb
      unfold prompt reachingMem1 at hp
      rw [hm, Option.bind_some, heq] at hp
      dsimp only at hp
      rw [if_neg (by rw [hb]; exact Bool.false_ne_true)] at hp
      exact hp
    rw [htick]
    generalize memory2 m = r at hmem2 hp'
    obtain ⟨v, s'⟩ := r
    cases v with
    | some v => exact hmem2.narrows (violationFlush_narrows _ _ _)
    | none => exact tickBack_due hmem2 (hp' s' rfl)

end O3

/-! ### In order -/

def InOrderState.latch (s : InOrderState U) : Latch := ⟨s.eng.cycle, s.eng.mem1Mem2⟩

namespace InOrder

variable [Units U]

/-- The state in which a tick runs memory2. -/
def reachingMem2 (s : InOrderState U) : Option (InOrderState U) :=
  let s := drainMshrs (start s)
  match commit s with
  | (some _, _) => none
  | (none, s') =>
    if s'.cpu.pc ≠ s.cpu.pc then none
    else some { s' with eng := { s'.eng with rob := writebackStage s'.eng.rob s'.eng.mem2Wb, mem2Wb := [] } }

/-- The state in which a tick runs memory1. -/
def reachingMem1 (s : InOrderState U) : Option (InOrderState U) :=
  (reachingMem2 s).bind fun m => if (memory2 m).eng.mem1Stall > 0 then none else some (memory2 m)

def Honoured (s : InOrderState U) : Prop := ∀ m, reachingMem2 s = some m →
  mem2Honours m.eng.cycle ⟨m.cpu, m.eng.sb, none, none⟩ m.eng.mem1Mem2

def prompt (s : InOrderState U) : Bool :=
  (reachingMem1 s).all fun m => mem1Prompt m.eng.cycle m.cpu none m.eng.executeMem1

variable {s : InOrderState U}

theorem drainMshrs_due (h : ∀ m ∈ s.eng.mem1Mem2, m.DueBy s.eng.cycle) :
    (drainMshrs s).eng.cycle = s.eng.cycle ∧ ∀ m ∈ (drainMshrs s).eng.mem1Mem2, m.DueBy s.eng.cycle := by
  unfold drainMshrs
  split
  · exact ⟨rfl, h⟩
  · refine ⟨rfl, fun m hm => ?_⟩
    rcases List.mem_append.mp hm with hm | hm
    · exact h m hm
    · exact unpark_due _ _ m hm

theorem flush_narrows (s : InOrderState U) :
    s.latch.Narrows (flush s).latch := ⟨rfl, fun _ h => absurd h List.not_mem_nil⟩

theorem issue_latch (s : InOrderState U) : (issue s).2.latch = s.latch := by
  unfold issue
  split <;> rfl

omit [Units U] in
theorem recover_latch (s : InOrderState U) : (recover s).latch = s.latch := by
  unfold recover InOrderState.latch
  dsimp only
  split <;> rfl

theorem memory1_due (h : s.latch.Due)
    (hp : ¬s.eng.mem1Stall > 0 → mem1Prompt s.eng.cycle s.cpu none s.eng.executeMem1 = true) :
    (memory1 s).latch.Due := by
  unfold memory1
  split
  · exact h
  · rename_i hs
    exact memory1Stage_due h (hp hs)

/-- A tick ends before memory2 and squashes everything, or runs memory2 in the state that it reaches. -/
theorem tick_reaching (s : InOrderState U) :
    (reachingMem2 s = none ∧ (drainMshrs (start s)).latch.Narrows (tick s).latch ∧ (tick s).eng.rob.tags = []) ∨
    ∃ m, reachingMem2 s = some m ∧ (drainMshrs (start s)).latch = m.latch ∧
        tick s = (match issue (memory1 (memory2 m)) with
      | (true, s) => recover s
      | (false, s) => { s with eng := dispatch s.eng s.renameOutput, renameOutput := [] }) := by
  unfold reachingMem2 tick
  dsimp only
  have hlatch : (commit (drainMshrs (start s))).2.latch = (drainMshrs (start s)).latch := rfl
  generalize commit (drainMshrs (start s)) = r at hlatch ⊢
  obtain ⟨trap, s'⟩ := r
  have hflush : (drainMshrs (start s)).latch.Narrows (flush s').latch :=
    (Latch.Narrows.of_eq hlatch).trans (flush_narrows s')
  cases trap with
  | some te => exact Or.inl ⟨rfl, hflush, rfl⟩
  | none =>
    dsimp only
    by_cases hp : s'.cpu.pc ≠ (drainMshrs (start s)).cpu.pc
    · rw [if_pos hp, if_pos hp]
      exact Or.inl ⟨rfl, hflush, rfl⟩
    · rw [if_neg hp, if_neg hp]
      exact Or.inr ⟨_, rfl, hlatch.symm, rfl⟩

theorem drained_due (h : s.latch.Due) : (drainMshrs (start s)).eng.cycle = s.eng.cycle + 1 ∧
    ∀ x ∈ (drainMshrs (start s)).eng.mem1Mem2, x.DueBy (s.eng.cycle + 1) := drainMshrs_due (s := start s) h

theorem reachingMem2_due {m : InOrderState U} (h : s.latch.Due) (hm : reachingMem2 s = some m) :
    ∀ x ∈ m.eng.mem1Mem2, x.DueBy m.eng.cycle := by
  rcases tick_reaching s with ⟨hnone, -, -⟩ | ⟨m', hm', hlatch, -⟩
  · rw [hnone] at hm
    exact absurd hm (by simp)
  · rw [hm'] at hm
    cases hm
    obtain ⟨hc, hd⟩ := drained_due h
    have hcycle : (drainMshrs (start s)).eng.cycle = m.eng.cycle := congrArg Latch.now hlatch
    have hentries : (drainMshrs (start s)).eng.mem1Mem2 = m.eng.mem1Mem2 := congrArg Latch.entries hlatch
    rw [← hcycle, ← hentries, hc]
    exact hd

theorem honoured_of_due (h : s.latch.Due) : Honoured s := fun _ hm => mem2Honours_of_due (reachingMem2_due h hm) _

/-- **One tick** that charges a cycle at most leaves every value complete in the next. -/
theorem tick_due (h : s.latch.Due) (hp : prompt s = true) : (tick s).latch.Due := by
  rcases tick_reaching s with ⟨-, hn, -⟩ | ⟨m, hm, -, htick⟩
  · obtain ⟨hc, hd⟩ := drained_due h
    refine Latch.Due.narrows (fun x hx ht hv => ?_) hn
    have hdue := hd x hx ht hv
    show _ ≤ (drainMshrs (start s)).eng.cycle + 1
    omega
  · have hdue := reachingMem2_due h hm
    have hmem2 : (memory2 m).latch.Due := fun x hx ht hv =>
      (hdue x (memory2Stage_left _ _ x hx) ht hv).trans (Nat.le_succ _)
    have hmem1 := memory1_due hmem2 fun hs => by
      unfold prompt reachingMem1 at hp
      rw [hm, Option.bind_some, if_neg hs] at hp
      exact hp
    have hissue := issue_latch (memory1 (memory2 m))
    rw [htick]
    generalize issue (memory1 (memory2 m)) = r at hissue
    obtain ⟨fl, s'⟩ := r
    have hnarrow : (memory1 (memory2 m)).latch.Narrows s'.latch := Latch.Narrows.of_eq hissue
    cases fl with
    | true => exact (hmem1.narrows hnarrow).narrows (Latch.Narrows.of_eq (recover_latch s'))
    | false => exact hmem1.narrows hnarrow

end InOrder

/-! ### Runs -/

namespace O3

theorem renameLoop_latch (n : Nat) (s : O3State U) (ids : List IdExEntry) : (renameLoop n s ids).2.latch = s.latch := by
  obtain ⟨rob, fl, m, prf, sb, lq, ckpts, heng⟩ := (renameLoop_frame n s ids).eng
  unfold O3State.latch
  rw [heng]

end O3

namespace InOrder

theorem renameLoop_latch (n : Nat) (s : InOrderState U) (ids : List IdExEntry) :
    (renameLoop n s ids).2.latch = s.latch := by
  obtain ⟨rob, board, sb, heng⟩ := (renameLoop_frame n s ids).eng
  unfold InOrderState.latch
  rw [heng]

end InOrder

namespace O3Pipeline

variable [Units U]

/-- The engine's state when the simulator ticks it. -/
def toTick (p : O3Pipeline U) : Option (O3State U) :=
  if p.core.cpu.preTick.1 then none else some { p.core with cpu := p.core.cpu.preTick.2 }

def Honoured (p : O3Pipeline U) : Prop := ∀ s, p.toTick = some s → O3.Honoured s

def prompt (p : O3Pipeline U) : Bool := p.toTick.all O3.prompt

omit [Units U] in
theorem redirect_latch (p : O3Pipeline U) (pc : U64) : (p.redirect pc).core.latch = p.core.latch := by
  unfold O3State.latch
  rw [redirect_eng]

theorem frontendTick_latch (p : O3Pipeline U) : p.frontendTick.core.latch = p.core.latch :=
  O3.renameLoop_latch _ _ _

theorem pipelineTick_latch (p : O3Pipeline U) : p.pipelineTick.core.latch = (O3.tick p.core).latch := by
  unfold pipelineTick
  dsimp only
  split
  · rw [frontendTick_latch, redirect_latch]
  · rw [redirect_latch]

theorem tick_due {p : O3Pipeline U} (h : p.core.latch.Due) (hp : p.prompt = true) : p.tick.core.latch.Due := by
  unfold prompt toTick at hp
  unfold tick
  dsimp only
  by_cases hs : p.core.cpu.preTick.1 = true
  · rw [if_pos hs]
    exact h
  · rw [if_neg hs] at hp ⊢
    have hdue : (O3.tick { p.core with cpu := p.core.cpu.preTick.2 }).latch.Due := O3.tick_due h hp
    rw [← pipelineTick_latch { p with core := { p.core with cpu := p.core.cpu.preTick.2 } }] at hdue
    exact hdue

theorem run_honoured {cfg : Config} {p : O3Pipeline U} (h : Run cfg (fun p _ => p.prompt = true) p) : p.Honoured := by
  have hdue : p.core.latch.Due := by
    induction h with
    | init cpu _ => exact fun _ hm => absurd hm List.not_mem_nil
    | tick p _ hs ih => exact tick_due ih hs
  intro s hs
  unfold toTick at hs
  rw [Option.ite_none_left_eq_some] at hs
  rw [← Option.some.inj hs.2]
  exact O3.honoured_of_due hdue

end O3Pipeline

namespace InOrderPipeline

variable [Units U]

def toTick (p : InOrderPipeline U) : Option (InOrderState U) :=
  if p.core.cpu.preTick.1 then none else some { p.core with cpu := p.core.cpu.preTick.2 }

def Honoured (p : InOrderPipeline U) : Prop := ∀ s, p.toTick = some s → InOrder.Honoured s

def prompt (p : InOrderPipeline U) : Bool := p.toTick.all InOrder.prompt

omit [Units U] in
theorem redirect_latch (p : InOrderPipeline U) (pc : U64) : (p.redirect pc).core.latch = p.core.latch := by
  unfold InOrderState.latch
  rw [redirect_eng]

theorem frontendTick_latch (p : InOrderPipeline U) : p.frontendTick.core.latch = p.core.latch :=
  InOrder.renameLoop_latch _ _ _

theorem pipelineTick_latch (p : InOrderPipeline U) : p.pipelineTick.core.latch = (InOrder.tick p.core).latch := by
  unfold pipelineTick
  dsimp only
  split
  · rw [frontendTick_latch, redirect_latch]
  · rw [redirect_latch]

theorem tick_due {p : InOrderPipeline U} (h : p.core.latch.Due) (hp : p.prompt = true) : p.tick.core.latch.Due := by
  unfold prompt toTick at hp
  unfold tick
  dsimp only
  by_cases hs : p.core.cpu.preTick.1 = true
  · rw [if_pos hs]
    exact h
  · rw [if_neg hs] at hp ⊢
    have hdue : (InOrder.tick { p.core with cpu := p.core.cpu.preTick.2 }).latch.Due := InOrder.tick_due h hp
    rw [← pipelineTick_latch { p with core := { p.core with cpu := p.core.cpu.preTick.2 } }] at hdue
    exact hdue

theorem run_honoured {cfg : Config} {p : InOrderPipeline U} (h : Run cfg (fun p _ => p.prompt = true) p) :
    p.Honoured := by
  have hdue : p.core.latch.Due := by
    induction h with
    | init cpu _ => exact fun _ hm => absurd hm List.not_mem_nil
    | tick p _ hs ih => exact tick_due ih hs
  intro s hs
  unfold toTick at hs
  rw [Option.ite_none_left_eq_some] at hs
  rw [← Option.some.inj hs.2]
  exact InOrder.honoured_of_due hdue

end InOrderPipeline

/-- **Memory latency.** In every run of either backend whose ticks charge a load, an AMO or an SC at most one
cycle, none leaves memory2 before it is complete; those that a miss parked come back when it has completed. -/
theorem runs_honoured [Units U] (cfg : Config) :
    (∀ p : O3Pipeline U, O3Pipeline.Run cfg (fun p _ => p.prompt = true) p → p.Honoured) ∧
      (∀ p : InOrderPipeline U, InOrderPipeline.Run cfg (fun p _ => p.prompt = true) p → p.Honoured) ∧
      ∀ (f : MshrFile) (now : Nat), ∀ e ∈ (f.drainCompletions now).1, e.completeCycle ≤ now :=
  ⟨fun _ => O3Pipeline.run_honoured, fun _ => InOrderPipeline.run_honoured, drainCompletions_completed⟩

/-! ### Two loads -/

/-- Everything leaves memory2, though a value is not complete. -/
def O3Pipeline.early [Units U] (p : O3Pipeline U) : Bool :=
  (p.toTick.bind O3.reachingMem2).any fun m =>
    (memory2Stage ⟨m.cpu, m.eng.sb, some m.eng.lq, none⟩ m.eng.mem1Mem2).1.isEmpty &&
      m.eng.mem1Mem2.any fun e => e.trap.isNone && e.ctrl.returnsValue && decide (m.eng.cycle < e.completeCycle)

theorem O3Pipeline.not_honoured_of_early [Units U] {p : O3Pipeline U} (h : p.early = true) : ¬p.Honoured := by
  intro hp
  unfold early at h
  cases ht : p.toTick with
  | none =>
    rw [ht] at h
    exact absurd h Bool.false_ne_true
  | some s =>
    rw [ht, Option.bind_some] at h
    cases hm : O3.reachingMem2 s with
    | none =>
      rw [hm] at h
      exact absurd h Bool.false_ne_true
    | some m =>
      rw [hm, Option.any_some, Bool.and_eq_true, List.isEmpty_iff, List.any_eq_true] at h
      obtain ⟨hleft, e, he, hlate⟩ := h
      simp only [Bool.and_eq_true, Option.isNone_iff_eq_none, decide_eq_true_eq] at hlate
      obtain ⟨⟨htrap, hv⟩, hlate⟩ := hlate
      obtain ⟨gone, hgone, -, hdue⟩ := hp s ht m hm
      rw [hleft, List.append_nil] at hgone
      have := hdue e (hgone ▸ mem_sortByRawTag.mpr he) htrap hv
      omega

/-- A load from the second page, on a machine that does not trap on misaligned addresses. -/
def loadAt (ld : U32) : O3Pipeline Bench :=
  let cfg := { O3Pipeline.smallO3 with misalignedAccessTrap := false }
  .init cfg (Cpu.new cfg
    -- auipc x6,1; the load; jal x0,0
    (O3Pipeline.memOfWords 0x80000000 [0x00001317, ld, 0x0000006f])
    { btb := [(0x80000008, 0x80000008)] })

/-- `ld x5,0x38(x6)` ends with its line: it is charged nothing, and goes through memory2 in time. -/
theorem loadAt_honoured : ((loadAt 0x03833283).ticks 9).core.eng.mem1Mem2.map (·.completeCycle) = [9] ∧
    ((loadAt 0x03833283).ticks 9).Honoured := by
  refine ⟨by decide +kernel, (runs_honoured { O3Pipeline.smallO3 with misalignedAccessTrap := false }).1 _ ?_⟩
  exact O3Pipeline.Run.ticks 9 (.init _ (O3Pipeline.loaded_new _ _ _)) (by decide +kernel)

/-- `ld x5,0x3d(x6)` crosses into the next line: memory1 has it complete in cycle 11, and it leaves memory2 in
cycle 10. -/
theorem loadAt_early : O3Pipeline.Reach { O3Pipeline.smallO3 with misalignedAccessTrap := false }
    ((loadAt 0x03d33283).ticks 9) ∧
    ((loadAt 0x03d33283).ticks 9).core.eng.cycle = 9 ∧
    ((loadAt 0x03d33283).ticks 9).core.eng.mem1Mem2.map (·.completeCycle) = [11] ∧
    ¬((loadAt 0x03d33283).ticks 9).Honoured := by
  have hrun : O3Pipeline.Run { O3Pipeline.smallO3 with misalignedAccessTrap := false } (fun _ _ => True)
      ((loadAt 0x03d33283).ticks 9) :=
    O3Pipeline.Run.ticks 9 (.init _ (O3Pipeline.loaded_new _ _ _)) (by decide)
  exact ⟨hrun.reach, by decide +kernel, by decide +kernel, O3Pipeline.not_honoured_of_early (by decide +kernel)⟩

end Rvsim
