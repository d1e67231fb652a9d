/-
# Rename

`frontend/rename.rs`, once for each backend. The out-of-order one takes a
physical register, a reorder buffer entry, store buffer and load queue slots
and, for branches and jumps, a checkpoint; the in-order one looks up
producer tags in the scoreboard. A budget computed before the loop keeps the
allocations from failing.

Key definitions:
  - `O3.renameOne`, `O3.renameStage`
  - `InOrder.renameOne`, `InOrder.renameStage`
-/
import Rvsim.InOrder
import Rvsim.O3

namespace Rvsim

/-- The instruction gets a physical destination register. -/
def IdExEntry.needsDst (id : IdExEntry) : Bool :=
  (id.ctrl.regWrite && !id.rd.isZero) || id.ctrl.fpRegWrite

/-- The entry rename hands to dispatch, before its sources are filled in. -/
def IdExEntry.toIssue (id : IdExEntry) (tag : RobTag) : RenameIssueEntry :=
  { robTag := tag, pc := id.pc, inst := id.inst, instSize := id.instSize, rs1 := id.rs1, rs2 := id.rs2,
    rs3 := id.rs3, rd := id.rd, imm := id.imm, rv1 := 0, rv2 := 0, rv3 := 0, rs1Tag := none,
    rs2Tag := none, rs3Tag := none, rs1Phys := 0, rs2Phys := 0, rs3Phys := 0, rdPhys := 0,
    ctrl := id.ctrl, trap := id.trap, predTaken := id.predTaken, predTarget := id.predTarget }

/-! ### Out of order -/

namespace O3

variable {U : Type}

/-- A branch waits for a free checkpoint. -/
def checkpointStall (eng : O3Engine) (id : IdExEntry) : Bool :=
  id.ctrl.isBranchOrJump && eng.checkpoints.capacity > 0 && eng.checkpoints.isFull

/-- New destination, the register it replaces, and the free list; `none` when no register is free. -/
def allocDst (eng : O3Engine) (id : IdExEntry) : Option (PhysReg × PhysReg × FreeList) :=
  if id.needsDst then
    match eng.freeList.allocate with
    | some (p, fl) => some (p, eng.renameMap.get id.rd id.ctrl.fpRegWrite, fl)
    | none => none
  else some (0, 0, eng.freeList)

/-- Map the destination to its new register, which is not ready yet. -/
def bindDst (eng : O3Engine) (id : IdExEntry) (p : PhysReg) : O3Engine :=
  if id.needsDst then
    { eng with
      renameMap := eng.renameMap.set id.rd id.ctrl.fpRegWrite p
      prf := eng.prf.allocate p }
  else eng

/-- Store buffer slot, then load queue slot; the flag is false when one of them is full. -/
def allocMem (eng : O3Engine) (id : IdExEntry) (tag : RobTag) : Bool × O3Engine :=
  let (okSb, sb) := if id.ctrl.memWrite then eng.sb.allocate tag id.ctrl.width else (true, eng.sb)
  if !okSb then (false, eng)
  else
    let (okLq, lq) := if id.ctrl.memRead then eng.lq.allocate tag id.ctrl.width else (true, eng.lq)
    (okLq, { eng with sb := sb, lq := lq })

/-- A branch or jump takes a checkpoint of the map as it is now. -/
def takeCheckpoint (eng : O3Engine) (id : IdExEntry) (tag : RobTag) : O3Engine :=
  if id.ctrl.isBranchOrJump && eng.checkpoints.capacity > 0 then
    match eng.checkpoints.allocate tag eng.renameMap with
    | (some c, t) => { eng with checkpoints := t, rob := eng.rob.setCheckpointId tag c }
    -- the stall check before makes this unreachable
    | (none, _) => eng
  else eng

/-- The renamed instruction, its sources looked up in the map before the destination is bound. -/
def renamedEntry (m : RenameMap) (id : IdExEntry) (tag : RobTag) (p : PhysReg) : RenameIssueEntry :=
  { id.toIssue tag with
    rs1Phys := m.get id.rs1 id.ctrl.rs1Fp
    rs2Phys := m.get id.rs2 id.ctrl.rs2Fp
    rs3Phys := if id.ctrl.rs3Fp then m.get id.rs3 true else 0
    rdPhys := p }

/-- Rename one instruction; the flag is false when an allocation failed. -/
def renameOne (s : O3State U) (id : IdExEntry) : Bool × O3State U :=
  match allocDst s.eng id with
  | none => (false, s)
  | some (p, old, fl) =>
    match s.eng.rob.allocate id.pc id.inst id.instSize id.rd id.ctrl.fpRegWrite id.ctrl p old with
    | none =>
      (false, { s with eng := { s.eng with freeList := if id.needsDst then fl.reclaim p else fl } })
    | some (tag, rob) =>
      match allocMem (bindDst { s.eng with freeList := fl, rob := rob } id p) id tag with
      | (false, eng) => (false, { s with eng := eng })
      | (true, eng) =>
        (true, { s with
          eng := takeCheckpoint eng id tag
          renameOutput := s.renameOutput ++ [renamedEntry s.eng.renameMap id tag p] })

/-- The loop. Out of budget, the rest stays in the latch; after a failed allocation the loop
breaks and only the failing instruction is put back. -/
def renameLoop : Nat → O3State U → List IdExEntry → List IdExEntry × O3State U
  | _, s, [] => ([], s)
  | 0, s, id :: rest => (id :: rest, s)
  | n + 1, s, id :: rest =>
    if checkpointStall s.eng id then (id :: rest, s)
    else
      match renameOne s id with
      | (true, s) => renameLoop n s rest
      | (false, s) => ([id], s)

def renameStage (s : O3State U) (input : List IdExEntry) : List IdExEntry × O3State U :=
  renameLoop (canAccept s.eng) s input

/-- Rename works on its own structures, and the buffer only grows at its tail. -/
structure RenameFrame (s s' : O3State U) : Prop where
  cpu : s'.cpu = s.cpu
  eng : ∃ rob fl m prf sb lq ckpts, s'.eng = { s.eng with
    rob := rob, freeList := fl, renameMap := m, prf := prf, sb := sb, lq := lq, checkpoints := ckpts }
  tags : ∃ new, s'.eng.rob.entries.map (·.tag) = s.eng.rob.entries.map (·.tag) ++ new

theorem RenameFrame.refl (s : O3State U) : RenameFrame s s :=
  ⟨rfl, ⟨_, _, _, _, _, _, _, rfl⟩, [], (List.append_nil _).symm⟩

theorem RenameFrame.trans {a b c : O3State U} (h : RenameFrame a b) (h' : RenameFrame b c) : RenameFrame a c := by
  obtain ⟨rob, fl, m, prf, sb, lq, ckpts, heng⟩ := h.eng
  obtain ⟨rob', fl', m', prf', sb', lq', ckpts', heng'⟩ := h'.eng
  obtain ⟨new, hnew⟩ := h.tags
  obtain ⟨more, hmore⟩ := h'.tags
  exact ⟨h'.cpu.trans h.cpu, ⟨rob', fl', m', prf', sb', lq', ckpts', by rw [heng', heng]⟩, new ++ more,
    by rw [hmore, hnew, List.append_assoc]⟩

theorem allocMem_eng (eng : O3Engine) (id : IdExEntry) (tag : RobTag) :
    ∃ sb lq, (allocMem eng id tag).2 = { eng with sb := sb, lq := lq } := by
  unfold allocMem
  generalize (if id.ctrl.memWrite then eng.sb.allocate tag id.ctrl.width else (true, eng.sb)) = a
  obtain ⟨ok, sb⟩ := a
  cases ok with
  | false => exact ⟨eng.sb, eng.lq, rfl⟩
  | true => exact ⟨sb, _, rfl⟩

theorem takeCheckpoint_eng (eng : O3Engine) (id : IdExEntry) (tag : RobTag) :
    ∃ t r, takeCheckpoint eng id tag = { eng with checkpoints := t, rob := r } ∧
      r.entries.map (·.tag) = eng.rob.entries.map (·.tag) := by
  unfold takeCheckpoint
  split
  · split
    · refine ⟨_, _, rfl, ?_⟩
      unfold Rob.setCheckpointId Rob.modify
      rw [List.map_map]
      refine List.map_congr_left fun e _ => ?_
      dsimp only [Function.comp_apply]
      split <;> rfl
    · exact ⟨eng.checkpoints, eng.rob, rfl, rfl⟩
  · exact ⟨eng.checkpoints, eng.rob, rfl, rfl⟩

theorem bindDst_eng (eng : O3Engine) (id : IdExEntry) (p : PhysReg) :
    ∃ m f, bindDst eng id p = { eng with renameMap := m, prf := f } := by
  unfold bindDst
  split
  · exact ⟨_, _, rfl⟩
  · exact ⟨eng.renameMap, eng.prf, rfl⟩

theorem renameOne_frame (s : O3State U) (id : IdExEntry) : RenameFrame s (renameOne s id).2 := by
  unfold renameOne
  split
  · exact RenameFrame.refl s
  · rename_i p old fl _
    split
    · exact ⟨rfl, ⟨_, _, _, _, _, _, _, rfl⟩, [], (List.append_nil _).symm⟩
    · rename_i tag rob halloc
      have htags := Rob.map_tag_allocate halloc
      obtain ⟨m, f, hb⟩ := bindDst_eng { s.eng with freeList := fl, rob := rob } id p
      obtain ⟨sb, lq, ha⟩ := allocMem_eng (bindDst { s.eng with freeList := fl, rob := rob } id p) id tag
      rw [hb] at ha ⊢
      generalize allocMem _ id tag = r at ha ⊢
      obtain ⟨ok, eng⟩ := r
      dsimp only at ha
      subst ha
      cases ok with
      | false => exact ⟨rfl, ⟨_, _, _, _, _, _, _, rfl⟩, [tag], htags⟩
      | true =>
        obtain ⟨t, r, hc, hr⟩ := takeCheckpoint_eng
          { s.eng with freeList := fl, rob := rob, renameMap := m, prf := f, sb := sb, lq := lq } id tag
        refine ⟨rfl, ?_, [tag], ?_⟩
        · dsimp only
          rw [hc]
          exact ⟨_, _, _, _, _, _, _, rfl⟩
        · dsimp only
          rw [hc]
          exact hr.trans htags

theorem renameLoop_frame (n : Nat) (s : O3State U) (ids : List IdExEntry) : RenameFrame s (renameLoop n s ids).2 := by
  induction ids generalizing n s with
  | nil => cases n <;> exact RenameFrame.refl s
  | cons id rest ih =>
    cases n with
    | zero => exact RenameFrame.refl s
    | succ n =>
      have h := renameOne_frame s id
      unfold renameLoop
      split
      · exact RenameFrame.refl s
      · split
        · rename_i heq
          rw [heq] at h
          exact h.trans (ih _ _)
        · rename_i heq
          rw [heq] at h
          exact h

end O3

/-! ### In order -/

namespace InOrder

variable {U : Type}

def renameOne (s : InOrderState U) (id : IdExEntry) : Bool × InOrderState U :=
  match s.eng.rob.allocate id.pc id.inst id.instSize id.rd id.ctrl.fpRegWrite id.ctrl 0 0 with
  | none => (false, s)
  | some (tag, rob) =>
    let sc := s.eng.scoreboard
    let eng := { s.eng with
      rob := rob
      scoreboard :=
        if id.ctrl.regWrite || id.ctrl.fpRegWrite then sc.setProducer id.rd id.ctrl.fpRegWrite tag else sc }
    let entry := { id.toIssue tag with
      rs1Tag := sc.getProducer id.rs1 id.ctrl.rs1Fp
      rs2Tag := sc.getProducer id.rs2 id.ctrl.rs2Fp
      rs3Tag := if id.ctrl.rs3Fp then sc.getProducer id.rs3 true else none }
    match (if id.ctrl.memWrite then eng.sb.allocate tag id.ctrl.width else (true, eng.sb)) with
    | (false, _) => (false, { s with eng := eng })
    | (true, sb) =>
      (true, { s with eng := { eng with sb := sb }, renameOutput := s.renameOutput ++ [entry] })

def renameLoop : Nat → InOrderState U → List IdExEntry → List IdExEntry × InOrderState U
  | _, s, [] => ([], s)
  | 0, s, id :: rest => (id :: rest, s)
  | n + 1, s, id :: rest =>
    match renameOne s id with
    | (true, s) => renameLoop n s rest
    | (false, s) => ([id], s)

def renameStage (s : InOrderState U) (input : List IdExEntry) : List IdExEntry × InOrderState U :=
  renameLoop (canAccept s.eng) s input

/-- Rename works on its own structures, and the buffer only grows at its tail. -/
structure RenameFrame (s s' : InOrderState U) : Prop where
  cpu : s'.cpu = s.cpu
  eng : ∃ rob board sb, s'.eng = { s.eng with rob := rob, scoreboard := board, sb := sb }
  tags : ∃ new, s'.eng.rob.entries.map (·.tag) = s.eng.rob.entries.map (·.tag) ++ new

theorem RenameFrame.refl (s : InOrderState U) : RenameFrame s s :=
  ⟨rfl, ⟨_, _, _, rfl⟩, [], (List.append_nil _).symm⟩

theorem RenameFrame.trans {a b c : InOrderState U} (h : RenameFrame a b) (h' : RenameFrame b c) : RenameFrame a c := by
  obtain ⟨rob, board, sb, heng⟩ := h.eng
  obtain ⟨rob', board', sb', heng'⟩ := h'.eng
  obtain ⟨new, hnew⟩ := h.tags
  obtain ⟨more, hmore⟩ := h'.tags
  exact ⟨h'.cpu.trans h.cpu, ⟨rob', board', sb', by rw [heng', heng]⟩, new ++ more,
    by rw [hmore, hnew, List.append_assoc]⟩

theorem renameOne_frame (s : InOrderState U) (id : IdExEntry) : RenameFrame s (renameOne s id).2 := by
  unfold renameOne
  split
  · exact RenameFrame.refl s
  · rename_i tag rob halloc
    have htags := Rob.map_tag_allocate halloc
    dsimp only
    split
    · exact ⟨rfl, ⟨_, _, _, rfl⟩, [tag], htags⟩
    · exact ⟨rfl, ⟨_, _, _, rfl⟩, [tag], htags⟩

theorem renameLoop_frame (n : Nat) (s : InOrderState U) (ids : List IdExEntry) :
    RenameFrame s (renameLoop n s ids).2 := by
  induction ids generalizing n s with
  | nil => cases n <;> exact RenameFrame.refl s
  | cons id rest ih =>
    cases n with
    | zero => exact RenameFrame.refl s
    | succ n =>
      have h := renameOne_frame s id
      unfold renameLoop
      split
      · rename_i heq
        rw [heq] at h
        exact h.trans (ih _ _)
      · rename_i heq
        rw [heq] at h
        exact h

end InOrder

end Rvsim
