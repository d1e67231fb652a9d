/-
# Rename is all or nothing

`frontend/rename.rs` computes a budget once, and then allocates in up to six
structures for every instruction. Running out in the middle would lose the rest of
the batch and leave an instruction half renamed. The budget covers all of them but
the checkpoints, for which the loop waits; and that the wait is long enough rests on
the count of the checkpoint table, which every stage of a tick keeps.

Key definitions:
  - `CheckpointTable.Tallied`
  - `O3.Allocated`, `O3.Renames`, `O3.RenamedWhole`, `InOrder.RenamedWhole`
Key theorems:
  - `O3.tick_tallied`, `O3Pipeline.Reach.tallied`
  - `O3.renameOne_allocated`, `rename_whole`
-/
import Rvsim.Lib.Batches
import Rvsim.Registers

namespace Rvsim

variable {U : Type}

/-! ### The count of the checkpoint table -/

namespace CheckpointTable

variable {t : CheckpointTable}

/-- The count is the number of occupied slots. -/
def Tallied (t : CheckpointTable) : Prop := t.count = t.slots.countP Option.isSome

theorem new_tallied (capacity : Nat) : (new capacity).Tallied := by
  unfold Tallied new
  rw [List.countP_replicate]
  rfl

theorem flushAll_tallied (t : CheckpointTable) : t.flushAll.Tallied := by
  unfold Tallied flushAll
  rw [List.countP_map]
  exact (List.countP_eq_zero.mpr fun _ _ => Bool.false_ne_true).symm

theorem Tallied.flushAfter (h : t.Tallied) (keep : RobTag) : (t.flushAfter keep).Tallied := by
  have hsplit : ∀ ss : List (Option Checkpoint), ss.countP Option.isSome =
      (ss.map fun s => if flushed keep s then none else s).countP Option.isSome + ss.countP (flushed keep) := by
    intro ss
    induction ss with
    | nil => rfl
    | cons s ss ih =>
      rw [List.map_cons, List.countP_cons, List.countP_cons, List.countP_cons, ih]
      cases s with
      | none =>
        have hno : flushed keep none = false := rfl
        simp [hno]
      | some c =>
        cases hf : flushed keep (some c) with
        | true => simp; omega
        | false => simp; omega
  unfold Tallied CheckpointTable.flushAfter
  dsimp only
  rw [h, hsplit]
  exact Nat.add_sub_cancel _ _

theorem Tallied.free (h : t.Tallied) (id : U8) : (t.free id).Tallied := by
  unfold CheckpointTable.free
  split
  · rename_i c hc
    obtain ⟨hlt, hget⟩ := List.getElem?_eq_some_iff.mp hc
    unfold Tallied at h ⊢
    dsimp only
    rw [List.countP_set hlt, hget, h]
    rfl
  · exact h

theorem firstFree_none {ss : List (Option Checkpoint)} {i : Nat} (h : firstFree i ss = none) :
    ∀ s ∈ ss, s.isSome = true := by
  induction ss generalizing i with
  | nil => exact fun _ hs => absurd hs List.not_mem_nil
  | cons s ss ih =>
    cases s with
    | none => cases h
    | some c => exact List.forall_mem_cons.mpr ⟨rfl, ih h⟩

/-- A checkpoint is put into an empty slot. -/
structure Put (t : CheckpointTable) (c : Checkpoint) (num : U8) (t' : CheckpointTable) : Prop where
  slot : ∃ i, t.slots[i]? = some none ∧ num = BitVec.ofNat 8 i ∧ t'.slots = t.slots.set i (some c)
  count : t'.count = t.count + 1

/-- **A counted table that does not say that it is full has room.** -/
theorem Tallied.allocate (h : t.Tallied) (hfull : t.isFull = false) (tag : RobTag) (m : RenameMap) :
    ∃ num t', t.allocate tag m = (some num, t') ∧ t.Put ⟨tag, m⟩ num t' := by
  unfold CheckpointTable.allocate
  cases hf : firstFree 0 t.slots with
  | none =>
    have hall := List.countP_eq_length.mpr (firstFree_none hf)
    have hcount : t.isFull = true := by
      unfold isFull
      rw [h, hall]
      exact beq_self_eq_true _
    rw [hcount] at hfull
    cases hfull
  | some j =>
    obtain ⟨k, hk, hnone⟩ := firstFree_some hf
    rw [Nat.zero_add] at hk
    subst hk
    exact ⟨_, _, rfl, ⟨j, hnone, rfl, rfl⟩, rfl⟩

/-- The branches with a checkpoint. -/
def tags (t : CheckpointTable) : List RobTag := t.live.map (·.branchTag)

theorem Put.tags {c : Checkpoint} {num : U8} {t' : CheckpointTable} (hp : t.Put c num t') :
    t'.tags.Perm (t.tags ++ [c.branchTag]) := by
  obtain ⟨i, hnone, -, hslots⟩ := hp.slot
  obtain ⟨hlt, hget⟩ := List.getElem?_eq_some_iff.mp hnone
  have hsplit : t.slots = t.slots.take i ++ none :: t.slots.drop (i + 1) := by
    rw [← hget, List.getElem_cons_drop, List.take_append_drop]
  have hlive : t.live = (t.slots.take i).filterMap id ++ (t.slots.drop (i + 1)).filterMap id := by
    unfold live
    conv_lhs => rw [hsplit, List.filterMap_append]
    rfl
  have hlive' : t'.live = (t.slots.take i).filterMap id ++ c :: (t.slots.drop (i + 1)).filterMap id := by
    unfold live
    rw [hslots, List.set_eq_take_append_cons_drop, if_pos hlt, List.filterMap_append]
    rfl
  unfold CheckpointTable.tags
  rw [hlive, hlive', List.map_append, List.map_append, List.map_cons]
  exact List.perm_middle.trans (List.perm_append_singleton _ _).symm

theorem Put.tallied {c : Checkpoint} {num : U8} {t' : CheckpointTable} (h : t.Tallied) (hp : t.Put c num t') :
    t'.Tallied := by
  obtain ⟨i, hnone, -, hslots⟩ := hp.slot
  obtain ⟨hlt, hget⟩ := List.getElem?_eq_some_iff.mp hnone
  unfold Tallied
  rw [hslots, List.countP_set hlt, hget, hp.count, h]
  rfl

end CheckpointTable

namespace CommitState

variable [Units U] {c c' : CommitState U} {e : RobEntry}

/-- What commit works on, if it works on checkpoints, is counted. -/
def Tallied (c : CommitState U) : Prop := ∀ t, c.checkpoints = some t → t.Tallied

omit [Units U] in
theorem Tallied.congr (h : c.Tallied) (heq : c'.checkpoints = c.checkpoints) : c'.Tallied := by
  intro t ht
  exact h t (heq.symm.trans ht)

theorem retireRecords_ckpts (c : CommitState U) (e : RobEntry) : (c.retireRecords e).checkpoints = c.checkpoints := by
  unfold retireRecords
  dsimp only
  split <;> split <;> rfl

theorem retireCsr_ckpts (c : CommitState U) (e : RobEntry) (u : CsrUpdate) :
    (c.retireCsr e u).checkpoints = c.checkpoints := by
  unfold retireCsr
  dsimp only
  split <;> split <;> rfl

omit [Units U] in
theorem retireWfi_ckpts (c : CommitState U) (e : RobEntry) : (c.retireWfi e).checkpoints = c.checkpoints := by
  unfold retireWfi
  dsimp only
  split <;> rfl

omit [Units U] in
theorem failSc_ckpts (c : CommitState U) (e : RobEntry) : (c.failSc e).checkpoints = c.checkpoints := by
  unfold failSc redirectAfter
  dsimp only
  split <;> rfl

theorem retireFence_ckpts (c : CommitState U) (e : RobEntry) : (c.retireFence e).2.checkpoints = c.checkpoints := by
  unfold retireFence
  split
  · rfl
  · dsimp only
    split <;> split <;> rfl

omit [Units U] in
theorem Tallied.freeCheckpoint (h : c.Tallied) {c₂ : CommitState U} (heq : c₂.checkpoints = c.checkpoints)
    (id : Option U8) :
    CommitState.Tallied (match id with
      | some id => { c₂ with checkpoints := c₂.checkpoints.map fun t => t.free id }
      | none => c₂) := by
  cases id with
  | none => exact h.congr heq
  | some id =>
    intro t ht
    change c₂.checkpoints.map (fun t => t.free id) = some t at ht
    rw [heq] at ht
    obtain ⟨t₀, ht₀, rfl⟩ := Option.map_eq_some_iff.mp ht
    exact (h t₀ ht₀).free id

omit [Units U] in
theorem Tallied.retireMem (h : c.Tallied) (e : RobEntry) : (c.retireMem e).Tallied := by
  unfold CommitState.retireMem
  refine h.freeCheckpoint ?_ _
  split <;> split <;> rfl

theorem Tallied.retireTail (h : c.Tallied) (e : RobEntry) : (c.retireTail e).2.Tallied :=
  (h.retireMem e).congr (retireFence_ckpts _ e)

/-- Retiring gives back one checkpoint at most. -/
theorem Tallied.retire (h : c.Tallied) (e : RobEntry) : (c.retire e).2.Tallied := by
  have hhead : (((c.retirePc e).retireReg e).retireRecords e).checkpoints = c.checkpoints :=
    (retireRecords_ckpts _ e).trans (retireReg_frame (c.retirePc e) e).2.2.2.1
  unfold CommitState.retire
  revert hhead
  generalize ((c.retirePc e).retireReg e).retireRecords e = c₁
  intro hhead
  have h₁ : c₁.Tallied := h.congr hhead
  unfold retireEffects
  split
  · exact h₁.congr (retireCsr_ckpts c₁ e _)
  · split
    · exact h₁
    · exact h₁
    · exact h₁.congr (retireWfi_ckpts c₁ e)
    · split
      · rename_i a _
        exact Tallied.retireTail (c := { c₁ with cpu := c₁.cpu.setReservation a }) h₁ e
      · split
        · exact Tallied.retireTail (c := { c₁ with cpu := c₁.cpu.clearReservation }) h₁ e
        · exact h₁.congr (failSc_ckpts c₁ e)
      · exact h₁.retireTail e

theorem Tallied.commitLoop (h : c.Tallied) (n : Nat) : (commitLoop n c).2.Tallied := by
  induction n generalizing c with
  | zero => exact h
  | succ n ih =>
    rw [Rvsim.commitLoop]
    cases c.rob.entries with
    | nil => exact h
    | cons e rest =>
      dsimp only
      split
      · exact h
      · split
        · unfold retireFault
          cases e.trap <;> exact h
        · have hr := Tallied.retire (c := { c with rob := { c.rob with entries := rest } }) h e
          split
          · rename_i heq
            rw [heq] at hr
            exact ih hr
          · rename_i heq
            rw [heq] at hr
            exact hr

theorem Tallied.commitStage (h : c.Tallied) (width : Nat) : (commitStage c width).2.Tallied := by
  unfold Rvsim.commitStage
  split
  · exact h
  · split
    · exact h
    · exact h.commitLoop width

end CommitState

/-! ### An instruction in the structures that hold it -/

/-- What the reorder buffer says of an instruction. -/
def RobEntry.claim (e : RobEntry) : RobTag × U64 × U32 × RegIdx × ControlSignals × PhysReg :=
  (e.tag, e.pc, e.inst, e.rd, e.ctrl, e.physDst)

namespace RenameIssueEntry

/-- What rename hands on of it. -/
def claim (w : RenameIssueEntry) : RobTag × U64 × U32 × RegIdx × ControlSignals × PhysReg :=
  (w.robTag, w.pc, w.inst, w.rd, w.ctrl, w.rdPhys)

/-- It is the instruction that decode handed over. -/
def IsOf (w : RenameIssueEntry) (id : IdExEntry) : Prop :=
  w.pc = id.pc ∧ w.inst = id.inst ∧ w.rd = id.rd ∧ w.imm = id.imm ∧ w.ctrl = id.ctrl ∧ w.trap = id.trap

/-- It gets a physical destination. -/
def takesDst (w : RenameIssueEntry) : Bool := (w.ctrl.regWrite && !w.rd.isZero) || w.ctrl.fpRegWrite

def storeSlot (w : RenameIssueEntry) : StoreBufferEntry := { robTag := w.robTag, width := w.ctrl.width }

def loadSlot (w : RenameIssueEntry) : LoadQueueEntry := { robTag := w.robTag, width := w.ctrl.width }

end RenameIssueEntry

open RenameIssueEntry

namespace O3

variable [Units U] {s : O3State U}

/-- The checkpoints of the engine are counted. -/
def Tallied (eng : O3Engine) : Prop := eng.checkpoints.Tallied

theorem commit_tallied (h : Tallied s.eng) : Tallied (commit s).2.eng := by
  have hc : (toCommit s).Tallied := by
    rintro t ht
    cases ht
    exact h
  have hdone := hc.commitStage s.eng.width
  show ((commitStage (toCommit s) s.eng.width).2.checkpoints.getD s.eng.checkpoints).Tallied
  cases ht : (commitStage (toCommit s) s.eng.width).2.checkpoints with
  | none => exact h
  | some t => exact hdone t ht

omit [Units U] in
theorem writeback_ckpts (s : O3State U) : (writeback s).eng.checkpoints = s.eng.checkpoints := by
  have hfold : ∀ (wbs : List Mem2WbEntry) (eng : O3Engine),
      (wbs.foldl (fun eng wb => broadcast eng wb.rdPhys wb.result) eng).checkpoints = eng.checkpoints := by
    intro wbs
    induction wbs with
    | nil => exact fun _ => rfl
    | cons wb wbs ih => exact fun eng => (ih _).trans rfl
  exact hfold _ _

theorem drainMshrs_ckpts (s : O3State U) : (drainMshrs s).eng.checkpoints = s.eng.checkpoints := by
  unfold drainMshrs
  split <;> rfl

theorem memory2_ckpts (s : O3State U) : (memory2 s).2.eng.checkpoints = s.eng.checkpoints := by
  have hfold : ∀ (wbs : List Mem2WbEntry) (s : O3State U), (wbs.foldl storeResolved s).eng.checkpoints =
      s.eng.checkpoints := by
    intro wbs
    induction wbs with
    | nil => exact fun _ => rfl
    | cons wb wbs ih =>
      intro s
      rw [List.foldl_cons, ih]
      unfold storeResolved
      split
      · split <;> rfl
      · rfl
  exact hfold _ _

theorem violationFlush_tallied (h : Tallied s.eng) (violating : RobTag) (storePc : U64) :
    Tallied (violationFlush s violating storePc).eng := by
  unfold violationFlush
  dsimp only
  split
  · exact h.flushAfter _
  · exact CheckpointTable.flushAll_tallied _

theorem memory1_ckpts (s : O3State U) : (memory1 s).eng.checkpoints = s.eng.checkpoints := by
  unfold memory1
  split <;> rfl

omit [Units U] in
theorem drainPending_ckpts (eng : O3Engine) : (drainPending eng).checkpoints = eng.checkpoints := by
  have hfold : ∀ (ps : List PendingResult) (eng : O3Engine), (ps.foldl finishPending eng).checkpoints =
      eng.checkpoints := by
    intro ps
    induction ps with
    | nil => exact fun _ => rfl
    | cons p ps ih =>
      intro eng
      rw [List.foldl_cons, ih]
      unfold finishPending
      split
      · rfl
      · split <;> rfl
  exact hfold _ _

theorem issue_ckpts (bp : Bool) (s : O3State U) : (issue bp s).2.eng.checkpoints = s.eng.checkpoints := by
  have hone : ∀ (s : O3State U) (e : RenameIssueEntry), (issueOne s e).2.eng.checkpoints = s.eng.checkpoints := by
    intro s e
    have hwake : ∀ (b : Bool) (eng : O3Engine) (q : IssueQueue),
        (if b then { eng with iq := q } else eng).checkpoints = eng.checkpoints := by
      intro b eng q
      cases b <;> rfl
    have hwritten : ∀ (b : Bool) (eng : O3Engine) (x : ExMem1Entry),
        (if b then completeAlu eng x else eng).checkpoints = eng.checkpoints := by
      intro b eng x
      cases b <;> rfl
    unfold issueOne
    dsimp only
    rw [hwake, hwritten]
  exact issueLoop_lift (R := fun a b => b.eng.checkpoints = a.eng.checkpoints) (fun _ => rfl) (fun h h' => h'.trans h)
    (fun _ _ => rfl) hone bp _ _

theorem recover_tallied (h : Tallied s.eng) (keep : RobTag) : Tallied (recover s keep).eng := by
  have hsquash : (squashAfter s keep).2.eng.checkpoints = s.eng.checkpoints := by
    unfold squashAfter
    dsimp only
    split <;> rfl
  have hmap : ∀ (eng : O3Engine) (n : Nat), Tallied eng → Tallied (recoverMap eng keep n) := by
    intro eng n heng
    unfold recoverMap
    dsimp only
    split
    · split
      · exact heng.flushAfter keep
      · exact heng.flushAfter keep
    · exact heng
  have hleft : Tallied (squashAfter s keep).2.eng := by
    unfold Tallied
    rw [hsquash]
    exact h
  exact hmap _ _ hleft

theorem dispatch_ckpts (s : O3State U) : (dispatch s).eng.checkpoints = s.eng.checkpoints := by
  have hfold : ∀ (es : List RenameIssueEntry) (s : O3State U), (es.foldl dispatchOne s).eng.checkpoints =
      s.eng.checkpoints := by
    intro es
    induction es with
    | nil => exact fun _ => rfl
    | cons e es ih => exact fun s => (ih _).trans rfl
  exact hfold _ _

theorem tickBack_tallied (h : Tallied s.eng) : Tallied (tickBack s).eng := by
  unfold tickBack
  have hissue := issue_ckpts (!(memory1 s).eng.executeMem1.isEmpty)
      { memory1 s with eng := drainPending (memory1 s).eng }
  dsimp only at hissue ⊢
  rw [drainPending_ckpts, memory1_ckpts] at hissue
  revert hissue
  generalize issue (!(memory1 s).eng.executeMem1.isEmpty) { memory1 s with eng := drainPending (memory1 s).eng } = r
  obtain ⟨fl, s'⟩ := r
  intro hissue
  have h' : Tallied s'.eng := by
    unfold Tallied
    rw [hissue]
    exact h
  cases fl with
  | some keep => exact recover_tallied h' keep
  | none =>
    unfold Tallied
    rw [dispatch_ckpts]
    exact h'

theorem tickRest_tallied (h : Tallied s.eng) : Tallied (tickRest s).eng := by
  have hmem := (memory2_ckpts (drainMshrs (writeback s))).trans ((drainMshrs_ckpts _).trans (writeback_ckpts s))
  unfold tickRest
  revert hmem
  generalize memory2 (drainMshrs (writeback s)) = r
  obtain ⟨v, s'⟩ := r
  intro hmem
  have h' : Tallied s'.eng := by
    unfold Tallied
    rw [hmem]
    exact h
  cases v with
  | some v => exact violationFlush_tallied h' v.1 v.2
  | none => exact tickBack_tallied h'

/-- **A tick keeps the count.** -/
theorem tick_tallied (h : Tallied s.eng) : Tallied (tick s).eng := by
  have hc : Tallied (commit (start s)).2.eng := commit_tallied h
  rw [tick_eq]
  revert hc
  generalize commit (start s) = r
  obtain ⟨trap, s'⟩ := r
  intro hc
  cases trap with
  | some te => exact CheckpointTable.flushAll_tallied _
  | none =>
    unfold afterCommit
    dsimp only
    split
    · exact CheckpointTable.flushAll_tallied _
    · exact tickRest_tallied hc

/-! ### One instruction -/

omit [Units U]

/-- It gets a checkpoint, in an engine that has any. -/
def takesCheckpoint (eng : O3Engine) (w : RenameIssueEntry) : Bool :=
  w.ctrl.isBranchOrJump && eng.checkpoints.capacity > 0

/-- The entries `new` are those that are in `s'` and were not in `s`, in every structure
that rename allocates in: nothing else has been allocated. -/
structure Renames (s : O3State U) (new : List RenameIssueEntry) (s' : O3State U) : Prop where
  output : s'.renameOutput = s.renameOutput ++ new
  rob : s'.eng.rob.entries.map RobEntry.claim = s.eng.rob.entries.map RobEntry.claim ++ new.map claim
  free : s.eng.freeList.queue = (new.filter takesDst).map (·.rdPhys) ++ s'.eng.freeList.queue
  sb : s'.eng.sb.entries = s.eng.sb.entries ++ (new.filter (·.ctrl.memWrite)).map storeSlot
  lq : s'.eng.lq.entries = s.eng.lq.entries ++ (new.filter (·.ctrl.memRead)).map loadSlot
  ckpts : s'.eng.checkpoints.tags.Perm (s.eng.checkpoints.tags ++ (new.filter (takesCheckpoint s.eng)).map (·.robTag))
  sizes : s'.eng.rob.capacity = s.eng.rob.capacity ∧ s'.eng.sb.capacity = s.eng.sb.capacity ∧
    s'.eng.lq.capacity = s.eng.lq.capacity ∧ s'.eng.checkpoints.capacity = s.eng.checkpoints.capacity ∧
        s'.eng.iq = s.eng.iq

/-- A checkpoint of the map as it is now, under the tag that the next instruction gets; the buffer has its number. -/
structure Checkpointed (s : O3State U) (s' : O3State U) : Prop where
  put : ∃ c, s.eng.checkpoints.Put ⟨s.eng.rob.nextTag, s'.eng.renameMap⟩ c s'.eng.checkpoints ∧
    ∀ e ∈ s'.eng.rob.entries, e.tag = s.eng.rob.nextTag → e.checkpointId = some c

/-- One instruction renamed in full: what it needs it has, and the output has one entry of it. -/
structure Allocated (s : O3State U) (id : IdExEntry) (s' : O3State U) : Prop where
  done : renameOne s id = (true, s')
  entry : ∃ w, IsOf w id ∧ w.robTag = s.eng.rob.nextTag ∧ Renames s [w] s'
  checkpoint : id.ctrl.isBranchOrJump = true → s.eng.checkpoints.capacity > 0 → Checkpointed s s'
  tallied : Tallied s'.eng

/-- Room for `n` more instructions, and a table of checkpoints that counts them. -/
def Ready (s : O3State U) (n : Nat) : Prop := Budget s n ∧ Tallied s.eng

variable {id : IdExEntry} {n : Nat}

/-- The buffers of memory accesses, with the slots of the instruction. -/
theorem allocMem_slots {eng : O3Engine} (hsb : 0 < eng.sb.freeSlots) (hlq : 0 < eng.lq.freeSlots) (id : IdExEntry)
    (tag : RobTag) :
    allocMem eng id tag = (true, { eng with
      sb := { eng.sb with entries := eng.sb.entries ++ if id.ctrl.memWrite then
          [{ robTag := tag, width := id.ctrl.width }] else [] }
      lq := { eng.lq with
        entries := eng.lq.entries ++ if id.ctrl.memRead then
            [{ robTag := tag, width := id.ctrl.width }] else [] } }) := by
  have hs : ¬eng.sb.isFull = true := by
    simp only [StoreBuffer.freeSlots] at hsb
    simp only [StoreBuffer.isFull, beq_iff_eq]
    omega
  have hl : ¬eng.lq.isFull = true := by
    simp only [LoadQueue.freeSlots] at hlq
    simp only [LoadQueue.isFull, beq_iff_eq]
    omega
  unfold allocMem StoreBuffer.allocate LoadQueue.allocate
  rw [if_neg hs, if_neg hl]
  cases id.ctrl.memWrite <;> cases id.ctrl.memRead <;> simp

/-- The engine before the checkpoint is taken. -/
def allocEng (s : O3State U) (id : IdExEntry) (p old : PhysReg) (fl : FreeList) (m : RenameMap)
    (f : PhysRegFile) : O3Engine :=
  { s.eng with
    freeList := fl
    rob := grownRob s id p old
    renameMap := m
    prf := f
    sb := { s.eng.sb with
      entries := s.eng.sb.entries ++ if id.ctrl.memWrite then
          [{ robTag := s.eng.rob.nextTag, width := id.ctrl.width }] else [] }
    lq := { s.eng.lq with
      entries := s.eng.lq.entries ++ if id.ctrl.memRead then
          [{ robTag := s.eng.rob.nextTag, width := id.ctrl.width }] else [] } }

/-- With room in the structures only the checkpoint is left to take. -/
theorem renameOne_eq (hb : Budget s (n + 1)) (id : IdExEntry) :
    ∃ p old fl m f, RenInv.Takes s.eng.freeList (newEntry s id p old) fl ∧
      renameOne s id = (true, { s with
        eng := takeCheckpoint (allocEng s id p old fl m f) id s.eng.rob.nextTag
        renameOutput := s.renameOutput ++ [renamedEntry s.eng.renameMap id s.eng.rob.nextTag p] }) := by
  obtain ⟨p, old, fl, hdst, htakes, -, -⟩ := allocDst_some hb id
  obtain ⟨m, f, hbind⟩ := bindDst_eng { s.eng with freeList := fl, rob := grownRob s id p old } id p
  have hrob := rob_allocate hb id p old
  have hsb := hb.sb
  have hlq := hb.lq
  refine ⟨p, old, fl, m, f, htakes, ?_⟩
  refine renameOne_true hdst hrob ?_
  refine (congrArg (allocMem · id s.eng.rob.nextTag) hbind).trans ?_
  rw [allocMem_slots (by dsimp only; omega) (by dsimp only; omega)]
  rfl

theorem takeCheckpoint_none (eng : O3Engine) (tag : RobTag)
    (h : ¬(id.ctrl.isBranchOrJump && eng.checkpoints.capacity > 0) = true) :
    takeCheckpoint eng id tag = eng := by
  unfold takeCheckpoint
  rw [if_neg h]

theorem takeCheckpoint_put (eng : O3Engine) (tag : RobTag)
    (h : (id.ctrl.isBranchOrJump && eng.checkpoints.capacity > 0) = true)
    (htally : Tallied eng) (hfull : eng.checkpoints.isFull = false) :
    ∃ num t, eng.checkpoints.Put ⟨tag, eng.renameMap⟩ num t ∧
      takeCheckpoint eng id tag = { eng with checkpoints := t, rob := eng.rob.setCheckpointId tag num } := by
  obtain ⟨num, t, halloc, hput⟩ := htally.allocate hfull tag eng.renameMap
  refine ⟨num, t, hput, ?_⟩
  unfold takeCheckpoint
  rw [if_pos h, halloc]

theorem setCheckpointId_claims (r : Rob) (tag : RobTag) (num : U8) :
    (r.setCheckpointId tag num).entries.map RobEntry.claim = r.entries.map RobEntry.claim := by
  unfold Rob.setCheckpointId Rob.modify
  rw [List.map_map]
  refine List.map_congr_left fun e _ => ?_
  rw [Function.comp_apply]
  by_cases h : e.tag = tag
  · rw [if_pos h]
    rfl
  · rw [if_neg h]

/-- What the new state holds more than the old, whatever becomes of the checkpoints. -/
theorem allocEng_renames {p old : PhysReg} {fl : FreeList}
    (htakes : RenInv.Takes s.eng.freeList (newEntry s id p old) fl)
    (m : RenameMap) (f : PhysRegFile) {r : Rob} {t : CheckpointTable}
    (hr : r.entries.map RobEntry.claim = (grownRob s id p old).entries.map RobEntry.claim)
    (hcap : r.capacity = s.eng.rob.capacity)
    (ht : t.tags.Perm (s.eng.checkpoints.tags ++
      ([renamedEntry s.eng.renameMap id s.eng.rob.nextTag p].filter (takesCheckpoint s.eng)).map (·.robTag)))
    (hsize : t.capacity = s.eng.checkpoints.capacity) :
    Renames s [renamedEntry s.eng.renameMap id s.eng.rob.nextTag p] { s with
      eng := { allocEng s id p old fl m f with checkpoints := t, rob := r }
      renameOutput := s.renameOutput ++ [renamedEntry s.eng.renameMap id s.eng.rob.nextTag p] } := by
  have hdst : takesDst (renamedEntry s.eng.renameMap id s.eng.rob.nextTag p) = id.needsDst := rfl
  refine ⟨rfl, ?_, ?_, ?_, ?_, ht, hcap, rfl, rfl, hsize, rfl⟩
  · show r.entries.map RobEntry.claim = _
    rw [hr]
    exact List.map_append
  · rw [List.filter_singleton, hdst]
    rcases htakes with ⟨hw, hq⟩ | ⟨hw, -, rfl⟩
    · rw [newEntry_writesReg] at hw
      rw [hw]
      exact hq
    · rw [newEntry_writesReg] at hw
      rw [hw]
      rfl
  · rw [List.filter_singleton]
    refine congrArg (s.eng.sb.entries ++ ·) ?_
    show (if id.ctrl.memWrite then _ else _) = List.map storeSlot (bif id.ctrl.memWrite then [_] else [])
    cases id.ctrl.memWrite <;> rfl
  · rw [List.filter_singleton]
    refine congrArg (s.eng.lq.entries ++ ·) ?_
    show (if id.ctrl.memRead then _ else _) = List.map loadSlot (bif id.ctrl.memRead then [_] else [])
    cases id.ctrl.memRead <;> rfl

/-- **Within the budget, and not waiting for a checkpoint, an instruction gets all it needs.** -/
theorem renameOne_allocated (h : Ready s (n + 1)) (hw : checkpointStall s.eng id = false) :
    ∃ s', Allocated s id s' := by
  obtain ⟨hb, htally⟩ := h
  obtain ⟨p, old, fl, m, f, htakes, hone⟩ := renameOne_eq hb id
  have hof : IsOf (renamedEntry s.eng.renameMap id s.eng.rob.nextTag p) id := ⟨rfl, rfl, rfl, rfl, rfl, rfl⟩
  have htakesC : takesCheckpoint s.eng (renamedEntry s.eng.renameMap id s.eng.rob.nextTag p) =
      (id.ctrl.isBranchOrJump && decide (s.eng.checkpoints.capacity > 0)) := rfl
  by_cases hbranch : (id.ctrl.isBranchOrJump && s.eng.checkpoints.capacity > 0) = true
  · have hfull : s.eng.checkpoints.isFull = false := by
      unfold checkpointStall at hw
      rw [hbranch, Bool.true_and] at hw
      exact hw
    obtain ⟨num, t, hput, htake⟩ :=
      takeCheckpoint_put (allocEng s id p old fl m f) s.eng.rob.nextTag hbranch htally hfull
    rw [htake] at hone
    have hsize : t.capacity = s.eng.checkpoints.capacity := by
      obtain ⟨i, -, -, hslots⟩ := hput.slot
      unfold CheckpointTable.capacity
      rw [hslots, List.length_set]
      rfl
    refine ⟨_, hone, ⟨_, hof, rfl, allocEng_renames htakes m f (setCheckpointId_claims _ _ _) rfl ?_ hsize⟩,
      fun _ _ => ⟨num, hput, fun e he htag => ?_⟩, hput.tallied htally⟩
    · rw [List.filter_singleton, htakesC, hbranch]
      exact hput.tags
    · obtain ⟨e₀, -, rfl⟩ := List.mem_map.mp he
      by_cases h₀ : e₀.tag = s.eng.rob.nextTag
      · rw [if_pos h₀]
      · rw [if_neg h₀] at htag
        exact absurd htag h₀
  · rw [takeCheckpoint_none (allocEng s id p old fl m f) _ hbranch] at hone
    refine ⟨_, hone, ⟨_, hof, rfl, allocEng_renames htakes m f rfl rfl ?_ rfl⟩,
      fun h₁ h₂ => absurd (by rw [h₁]; simpa using h₂) hbranch, htally⟩
    rw [List.filter_singleton, htakesC, Bool.eq_false_iff.mpr hbranch]
    exact List.Perm.of_eq (List.append_nil _).symm

/-! ### The batch -/

variable {a b c s' : O3State U} {new more : List RenameIssueEntry} {ids taken : List IdExEntry}

theorem Renames.refl (s : O3State U) : Renames s [] s :=
  ⟨(List.append_nil _).symm, (List.append_nil _).symm, rfl, (List.append_nil _).symm, (List.append_nil _).symm,
    List.Perm.of_eq (List.append_nil _).symm, rfl, rfl, rfl, rfl, rfl⟩

theorem Renames.trans (h : Renames a new b) (h' : Renames b more c) : Renames a (new ++ more) c := by
  obtain ⟨hrob, hsb, hlq, hck, hiq⟩ := h.sizes
  obtain ⟨hrob', hsb', hlq', hck', hiq'⟩ := h'.sizes
  have hsame : takesCheckpoint b.eng = takesCheckpoint a.eng := by
    unfold takesCheckpoint
    rw [hck]
  refine ⟨?_, ?_, ?_, ?_, ?_, ?_, hrob'.trans hrob, hsb'.trans hsb, hlq'.trans hlq, hck'.trans hck, hiq'.trans hiq⟩
  · rw [h'.output, h.output, List.append_assoc]
  · rw [h'.rob, h.rob, List.map_append, List.append_assoc]
  · rw [h.free, h'.free, List.filter_append, List.map_append, List.append_assoc]
  · rw [h'.sb, h.sb, List.filter_append, List.map_append, List.append_assoc]
  · rw [h'.lq, h.lq, List.filter_append, List.map_append, List.append_assoc]
  · have hmore := h'.ckpts
    rw [hsame] at hmore
    rw [List.filter_append, List.map_append, ← List.append_assoc]
    exact hmore.trans (h.ckpts.append_right _)

/-- One unit of the room is used. -/
theorem Allocated.ready (h : Ready s (n + 1)) (ha : Allocated s id s') : Ready s' n := by
  obtain ⟨w, -, -, hr⟩ := ha.entry
  obtain ⟨hb, -⟩ := h
  obtain ⟨hrobc, hsbc, hlqc, -, hiqc⟩ := hr.sizes
  have hrob : s'.eng.rob.entries.length = s.eng.rob.entries.length + 1 := by simpa using congrArg List.length hr.rob
  have hsb : s'.eng.sb.entries.length ≤ s.eng.sb.entries.length + 1 := by
    have hlen := congrArg List.length hr.sb
    rw [List.length_append, List.length_map] at hlen
    have hone := List.length_filter_le (fun w : RenameIssueEntry => w.ctrl.memWrite) [w]
    rw [List.length_singleton] at hone
    omega
  have hlq : s'.eng.lq.entries.length ≤ s.eng.lq.entries.length + 1 := by
    have hlen := congrArg List.length hr.lq
    rw [List.length_append, List.length_map] at hlen
    have hone := List.length_filter_le (fun w : RenameIssueEntry => w.ctrl.memRead) [w]
    rw [List.length_singleton] at hone
    omega
  have hfree : s.eng.freeList.queue.length ≤ s'.eng.freeList.queue.length + 1 := by
    have hlen := congrArg List.length hr.free
    rw [List.length_append, List.length_map] at hlen
    have hone := List.length_filter_le takesDst [w]
    rw [List.length_singleton] at hone
    omega
  have h₁ := hb.rob
  have h₂ := hb.sb
  have h₃ := hb.lq
  have h₄ := hb.free
  have h₅ := hb.iq
  unfold Rob.freeSlots at h₁
  unfold StoreBuffer.freeSlots at h₂
  unfold LoadQueue.freeSlots at h₃
  unfold FreeList.available at h₄
  refine ⟨⟨?_, ?_, ?_, ?_, ?_⟩, ha.tallied⟩
  · unfold Rob.freeSlots
    omega
  · unfold StoreBuffer.freeSlots
    omega
  · unfold LoadQueue.freeSlots
    omega
  · unfold FreeList.available
    omega
  · unfold IssueQueue.Room at h₅ ⊢
    rw [hiqc, hr.output, List.length_append, List.length_singleton]
    omega

/-- What the instructions of a chain got, they have together at its end. -/
theorem chain_renames (h : Batches.Chain Allocated s taken s') :
    ∃ new, List.Forall₂ IsOf new taken ∧ Renames s new s' := by
  induction h with
  | nil s => exact ⟨[], .nil, Renames.refl s⟩
  | cons ha _ ih =>
    obtain ⟨w, hof, -, hone⟩ := ha.entry
    obtain ⟨new, hall, hrest⟩ := ih
    exact ⟨w :: new, .cons hof hall, hone.trans hrest⟩

theorem chain_tallied (h : Batches.Chain Allocated s taken s') (ht : Tallied s.eng) : Tallied s'.eng := by
  induction h with
  | nil s => exact ht
  | cons ha _ ih => exact ih ha.tallied

theorem renameLoop_eq (n : Nat) (s : O3State U) (ids : List IdExEntry) :
    renameLoop n s ids = Batches.take (fun s id => checkpointStall s.eng id) renameOne n s ids := by
  induction ids generalizing n s with
  | nil => cases n <;> rfl
  | cons id rest ih =>
    cases n with
    | zero => rfl
    | succ n =>
      rw [renameLoop, Batches.take]
      by_cases hw : checkpointStall s.eng id
      · rw [if_pos hw, if_pos hw]
      · rw [if_neg hw, if_neg hw]
        rcases renameOne s id with ⟨ok, m⟩
        cases ok with
        | true => exact ih n m
        | false => rfl

/-- A batch was renamed in whole instructions: `taken` from its front, each in full, the rest
back in its order; the loop did not break off. -/
structure RenamedWhole (s : O3State U) (ids taken : List IdExEntry) : Prop where
  split : ids = taken ++ (renameStage s ids).1
  held : ∃ new, List.Forall₂ IsOf new taken ∧ Renames s new (renameStage s ids).2
  each : Batches.Chain Allocated s taken (renameStage s ids).2
  unbroken : Batches.failed (fun s id => checkpointStall s.eng id) renameOne (canAccept s.eng) s ids = none
  ended : (renameStage s ids).1 = [] ∨ taken.length = canAccept s.eng ∨
    ∃ id rest, (renameStage s ids).1 = id :: rest ∧ checkpointStall (renameStage s ids).2.eng id = true

theorem renameStage_whole (h : Tallied s.eng) (ho : s.renameOutput = []) (ids : List IdExEntry) :
    ∃ taken, RenamedWhole s ids taken := by
  have hready : Ready s (canAccept s.eng) := ⟨budget_canAccept ho, h⟩
  have hstep : ∀ (n : Nat) (s : O3State U) (id : IdExEntry), Ready s (n + 1) → checkpointStall s.eng id = false →
      ∃ m, renameOne s id = (true, m) ∧ Allocated s id m ∧ Ready m n := by
    intro n s id hr hw
    obtain ⟨m, ha⟩ := renameOne_allocated hr hw
    exact ⟨m, ha.done, ha, ha.ready hr⟩
  obtain ⟨taken, hwhole⟩ := Batches.take_whole hstep hready ids
  have hstage : renameStage s ids = Batches.take (fun s id => checkpointStall s.eng id) renameOne
      (canAccept s.eng) s ids :=
    renameLoop_eq _ s ids
  refine ⟨taken, ?_, ?_, ?_, hwhole.failed, ?_⟩
  · rw [hstage]
    exact hwhole.split
  · rw [hstage]
    exact chain_renames hwhole.chain
  · rw [hstage]
    exact hwhole.chain
  · rw [hstage]
    exact hwhole.ended

/-! ### The latch to dispatch -/

variable [Units U]

theorem dispatch_output (s : O3State U) : (dispatch s).renameOutput = [] := by
  have hfold :
      ∀ (es : List RenameIssueEntry) (s : O3State U), (es.foldl dispatchOne s).renameOutput = s.renameOutput := by
    intro es
    induction es with
    | nil => exact fun _ => rfl
    | cons e es ih => exact fun s => (ih _).trans rfl
  exact hfold _ _

theorem tickRest_output (s : O3State U) : (tickRest s).renameOutput = [] := by
  have hback : ∀ s : O3State U, (tickBack s).renameOutput = [] := by
    intro s
    unfold tickBack
    dsimp only
    split
    · rfl
    · exact dispatch_output _
  unfold tickRest
  split
  · rfl
  · exact hback _

/-- After a tick nothing waits for dispatch, or the front end is about to be flushed with what does. -/
theorem tick_output (s : O3State U) : (tick s).renameOutput = [] ∨ (tick s).cpu.redirectPending = true := by
  rw [tick_eq]
  rcases commit (start s) with ⟨_ | ⟨t, epc⟩, s'⟩
  · refine Or.inl ?_
    unfold afterCommit
    dsimp only
    split
    · rfl
    · exact tickRest_output s'
  · exact Or.inr (trap_redirectPending _ t epc)

end O3

namespace O3Pipeline

open O3

variable [Units U] {p : O3Pipeline U} {cfg : Config}

/-- The state that rename works on in the next tick. -/
def atRename (p : O3Pipeline U) : O3State U := (afterEngine { p with core := p.entering }).core

theorem afterEngine_output (p : O3Pipeline U) : p.afterEngine.core.renameOutput = [] := by
  have hout := tick_output p.core
  unfold afterEngine redirect
  dsimp only
  by_cases hr : ((O3.tick p.core).cpu.redirectPending || (O3.tick p.core).cpu.pc != p.core.cpu.pc) = true
  · rw [if_pos hr]
  · rw [if_neg hr]
    rw [Bool.or_eq_true, not_or] at hr
    exact hout.resolve_right hr.1

theorem afterEngine_tallied (h : Tallied p.core.eng) : Tallied p.afterEngine.core.eng := by
  unfold afterEngine
  rw [redirect_eng]
  exact tick_tallied h

omit [Units U] in
theorem renameStage_tallied {s : O3State U} (h : Tallied s.eng) (ho : s.renameOutput = []) (ids : List IdExEntry) :
    Tallied (renameStage s ids).2.eng := by
  obtain ⟨taken, hwhole⟩ := renameStage_whole h ho ids
  exact chain_tallied hwhole.each h

theorem tick_core_tallied (h : Tallied p.core.eng) : Tallied p.tick.core.eng := by
  have hpipe : ∀ p : O3Pipeline U, Tallied p.core.eng → Tallied p.pipelineTick.core.eng := by
    intro p h
    rw [pipelineTick_eq]
    split
    · exact renameStage_tallied (afterEngine_tallied h) (afterEngine_output p) _
    · exact afterEngine_tallied h
  unfold tick
  rcases p.core.cpu.preTick with ⟨skip, cpu⟩
  cases skip with
  | true => exact h
  | false => exact hpipe { p with core := { p.core with cpu := cpu } } h

/-- **In every state of every run the table of checkpoints counts its slots.** -/
theorem Reach.tallied (h : Reach cfg p) : Tallied p.core.eng := by
  induction h with
  | init cpu h => exact CheckpointTable.new_tallied cfg.checkpointCount
  | tick p _ ih => exact tick_core_tallied ih

end O3Pipeline

/-! ### In order -/

namespace InOrder

variable {s a b c s' : InOrderState U} {new more : List RenameIssueEntry} {id : IdExEntry}
    {ids taken : List IdExEntry} {n : Nat}

/-- The entries `new` are those that are in `s'` and were not in `s`. -/
structure Renames (s : InOrderState U) (new : List RenameIssueEntry) (s' : InOrderState U) : Prop where
  output : s'.renameOutput = s.renameOutput ++ new
  rob : s'.eng.rob.entries.map RobEntry.claim = s.eng.rob.entries.map RobEntry.claim ++ new.map claim
  sb : s'.eng.sb.entries = s.eng.sb.entries ++ (new.filter (·.ctrl.memWrite)).map storeSlot
  sizes : s'.eng.rob.capacity = s.eng.rob.capacity ∧ s'.eng.sb.capacity = s.eng.sb.capacity

structure Allocated (s : InOrderState U) (id : IdExEntry) (s' : InOrderState U) : Prop where
  done : renameOne s id = (true, s')
  entry : ∃ w, IsOf w id ∧ w.robTag = s.eng.rob.nextTag ∧ Renames s [w] s'

/-- Room for `n` more instructions. -/
def Ready (s : InOrderState U) (n : Nat) : Prop := n ≤ s.eng.rob.freeSlots ∧ n ≤ s.eng.sb.freeSlots

theorem renameOne_allocated (h : Ready s (n + 1)) (id : IdExEntry) : ∃ s', Allocated s id s' := by
  have hfull : ¬s.eng.rob.isFull = true := by
    have hrob := h.1
    simp only [Rob.freeSlots] at hrob
    simp only [Rob.isFull, beq_iff_eq]
    omega
  have hsb : ¬s.eng.sb.isFull = true := by
    have hfree := h.2
    simp only [StoreBuffer.freeSlots] at hfree
    simp only [StoreBuffer.isFull, beq_iff_eq]
    omega
  have hrob : ∃ e rob, e.claim = (s.eng.rob.nextTag, id.pc, id.inst, id.rd, id.ctrl, 0) ∧
      s.eng.rob.allocate id.pc id.inst id.instSize id.rd id.ctrl.fpRegWrite id.ctrl 0 0 =
          some (s.eng.rob.nextTag, rob) ∧
        rob.entries = s.eng.rob.entries ++ [e] ∧ rob.capacity = s.eng.rob.capacity := by
    unfold Rob.allocate
    rw [if_neg hfull]
    exact ⟨_, _, rfl, rfl, rfl, rfl⟩
  have hstore : ∃ sb, (if id.ctrl.memWrite then s.eng.sb.allocate s.eng.rob.nextTag id.ctrl.width else
      (true, s.eng.sb)) =
      (true, sb) ∧ sb.capacity = s.eng.sb.capacity ∧
        sb.entries = s.eng.sb.entries ++ if id.ctrl.memWrite then
            [{ robTag := s.eng.rob.nextTag, width := id.ctrl.width }] else [] := by
    unfold StoreBuffer.allocate
    rw [if_neg hsb]
    cases id.ctrl.memWrite with
    | true => exact ⟨_, rfl, rfl, rfl⟩
    | false => exact ⟨_, rfl, rfl, (List.append_nil _).symm⟩
  obtain ⟨e, rob, hclaim, halloc, hentries, hcap⟩ := hrob
  obtain ⟨sb, hsb', hsbcap, hsbe⟩ := hstore
  obtain ⟨s', w, hdone, hof, htag, hclaim', hout, hrob', hsb''⟩ : ∃ s' w, renameOne s id = (true, s') ∧ IsOf w id ∧
      w.robTag = s.eng.rob.nextTag ∧ w.claim = (s.eng.rob.nextTag, id.pc, id.inst, id.rd, id.ctrl, 0) ∧
        s'.renameOutput = s.renameOutput ++ [w] ∧ s'.eng.rob = rob ∧ s'.eng.sb = sb := by
    unfold renameOne
    rw [halloc]
    dsimp only
    rw [hsb']
    exact ⟨_, _, rfl, ⟨rfl, rfl, rfl, rfl, rfl, rfl⟩, rfl, rfl, rfl, rfl, rfl⟩
  refine ⟨s', hdone, w, hof, htag, hout, ?_, ?_, by rw [hrob', hcap], by rw [hsb'', hsbcap]⟩
  · rw [hrob', hentries, List.map_append, List.map_singleton, List.map_singleton, hclaim, hclaim']
  · have hwrite : w.storeSlot = { robTag := s.eng.rob.nextTag, width := id.ctrl.width } := by
      unfold storeSlot
      rw [htag, hof.2.2.2.2.1]
    rw [hsb'', hsbe, List.filter_singleton, hof.2.2.2.2.1]
    cases id.ctrl.memWrite with
    | true => exact congrArg (s.eng.sb.entries ++ [·]) hwrite.symm
    | false => rfl

theorem Renames.refl (s : InOrderState U) : Renames s [] s :=
  ⟨(List.append_nil _).symm, (List.append_nil _).symm, (List.append_nil _).symm, rfl, rfl⟩

theorem Renames.trans (h : Renames a new b) (h' : Renames b more c) : Renames a (new ++ more) c := by
  refine ⟨?_, ?_, ?_, h'.sizes.1.trans h.sizes.1, h'.sizes.2.trans h.sizes.2⟩
  · rw [h'.output, h.output, List.append_assoc]
  · rw [h'.rob, h.rob, List.map_append, List.append_assoc]
  · rw [h'.sb, h.sb, List.filter_append, List.map_append, List.append_assoc]

theorem Allocated.ready (h : Ready s (n + 1)) (ha : Allocated s id s') : Ready s' n := by
  obtain ⟨w, -, -, hr⟩ := ha.entry
  obtain ⟨hrobc, hsbc⟩ := hr.sizes
  have hrob : s'.eng.rob.entries.length = s.eng.rob.entries.length + 1 := by simpa using congrArg List.length hr.rob
  have hsb : s'.eng.sb.entries.length ≤ s.eng.sb.entries.length + 1 := by
    have hlen := congrArg List.length hr.sb
    rw [List.length_append, List.length_map] at hlen
    have hone := List.length_filter_le (fun w : RenameIssueEntry => w.ctrl.memWrite) [w]
    rw [List.length_singleton] at hone
    omega
  unfold Ready Rob.freeSlots StoreBuffer.freeSlots at h ⊢
  omega

theorem chain_renames (h : Batches.Chain Allocated s taken s') :
    ∃ new, List.Forall₂ IsOf new taken ∧ Renames s new s' := by
  induction h with
  | nil s => exact ⟨[], .nil, Renames.refl s⟩
  | cons ha _ ih =>
    obtain ⟨w, hof, -, hone⟩ := ha.entry
    obtain ⟨new, hall, hrest⟩ := ih
    exact ⟨w :: new, .cons hof hall, hone.trans hrest⟩

theorem renameLoop_eq (n : Nat) (s : InOrderState U) (ids : List IdExEntry) :
    renameLoop n s ids = Batches.take (fun _ _ => false) renameOne n s ids := by
  induction ids generalizing n s with
  | nil => cases n <;> rfl
  | cons id rest ih =>
    cases n with
    | zero => rfl
    | succ n =>
      rw [renameLoop, Batches.take, if_neg Bool.false_ne_true]
      rcases renameOne s id with ⟨ok, m⟩
      cases ok with
      | true => exact ih n m
      | false => rfl

/-- A batch was renamed in whole instructions. -/
structure RenamedWhole (s : InOrderState U) (ids taken : List IdExEntry) : Prop where
  split : ids = taken ++ (renameStage s ids).1
  held : ∃ new, List.Forall₂ IsOf new taken ∧ Renames s new (renameStage s ids).2
  each : Batches.Chain Allocated s taken (renameStage s ids).2
  unbroken : Batches.failed (fun _ _ => false) renameOne (canAccept s.eng) s ids = none
  ended : (renameStage s ids).1 = [] ∨ taken.length = canAccept s.eng

theorem renameStage_whole (s : InOrderState U) (ids : List IdExEntry) : ∃ taken, RenamedWhole s ids taken := by
  have hready : Ready s (canAccept s.eng) := by
    unfold Ready canAccept
    omega
  have hstep : ∀ (n : Nat) (s : InOrderState U) (id : IdExEntry), Ready s (n + 1) → false = false →
      ∃ m, renameOne s id = (true, m) ∧ Allocated s id m ∧ Ready m n := by
    intro n s id hr _
    obtain ⟨m, ha⟩ := renameOne_allocated hr id
    exact ⟨m, ha.done, ha, ha.ready hr⟩
  obtain ⟨taken, hwhole⟩ := Batches.take_whole hstep hready ids
  have hstage : renameStage s ids = Batches.take (fun _ _ => false) renameOne (canAccept s.eng) s ids :=
    renameLoop_eq _ s ids
  refine ⟨taken, ?_, ?_, ?_, hwhole.failed, ?_⟩
  · rw [hstage]
    exact hwhole.split
  · rw [hstage]
    exact chain_renames hwhole.chain
  · rw [hstage]
    exact hwhole.chain
  · rw [hstage]
    refine hwhole.ended.imp_right fun h => h.resolve_right ?_
    rintro ⟨_, _, -, hfalse⟩
    cases hfalse

end InOrder

/-- **Rename is all or nothing.** Of every batch, in every state of every run, it takes a
prefix; what it takes it has renamed in full, what it leaves has nothing, and the branches
for a failed allocation are not reached. -/
theorem rename_whole [Units U] {cfg : Config} {p : O3Pipeline U} (h : O3Pipeline.Reach cfg p) (ids : List IdExEntry) :
    (p.atRename.renameOutput = [] ∧ ∃ taken, O3.RenamedWhole p.atRename ids taken) ∧
      ∀ s : InOrderState U, ∃ taken, InOrder.RenamedWhole s ids taken := by
  have hout : p.atRename.renameOutput = [] := O3Pipeline.afterEngine_output _
  have htally : O3.Tallied p.atRename.eng :=
    O3Pipeline.afterEngine_tallied (p := { p with core := p.entering }) h.tallied
  exact ⟨⟨hout, O3.renameStage_whole htally hout ids⟩, fun s => InOrder.renameStage_whole s ids⟩

/-- A load and a branch. -/
def loadThenBranch : List IdExEntry :=
  [decodeEntry ⟨0x80000000, 0x0000b283, .standard, false, 0, none⟩,
      decodeEntry ⟨0x80000004, 0x00000463, .standard, false, 0, none⟩]

/-- A small machine that has just been built. -/
def freshO3 : O3Pipeline Bench := O3Pipeline.init O3Pipeline.smallO3 (Cpu.new O3Pipeline.smallO3 (fun _ => 0) {})

example : (O3.renameStage freshO3.atRename loadThenBranch).2.eng.checkpoints.tags = [2] := by decide

theorem rename_whole_fresh :
    (freshO3.atRename.renameOutput = [] ∧ ∃ taken, O3.RenamedWhole freshO3.atRename loadThenBranch taken) ∧
      ∀ s : InOrderState Bench, ∃ taken, InOrder.RenamedWhole s loadThenBranch taken :=
  rename_whole (.init _ (O3Pipeline.loaded_new O3Pipeline.smallO3 _ _)) loadThenBranch

end Rvsim
