/-
# Commit keeps the invariant

Commit is the only stage that changes architectural state. Seen from the
instructions in flight it pops completed heads, frees the registers they
replace and moves the committed map on; what else it does (CSRs, memory,
reservations, fences) leaves registers and miss registers alone.

Key definitions:
  - `Cpu.Frame`, `CommitState.flight`, `CommitInv`
Key theorems:
  - `retire_inv`, `commitStage_inv`
-/
import Rvsim.O3View

namespace Rvsim

variable {U : Type}

/-! ### What leaves registers and miss registers alone -/

/-- Registers and miss registers are unchanged. -/
structure Cpu.Frame (c c' : Cpu U) : Prop where
  regs : c'.regs = c.regs
  mshrs : c'.l1dMshrs = c.l1dMshrs

namespace Cpu.Frame

theorem refl (c : Cpu U) : Cpu.Frame c c := ⟨rfl, rfl⟩

theorem trans {a b c : Cpu U} (h : Cpu.Frame a b) (h' : Cpu.Frame b c) : Cpu.Frame a c :=
  ⟨h'.regs.trans h.regs, h'.mshrs.trans h.mshrs⟩

end Cpu.Frame

namespace Cpu

theorem trap_frame (c : Cpu U) (t : Trap) (epc : U64) : Frame c (c.trap t epc) := by
  constructor
  · simp only [trap, trapToS, trapToM, apply_ite Cpu.regs, ite_self]
  · simp only [trap, trapToS, trapToM, apply_ite Cpu.l1dMshrs, ite_self]

theorem doMret_frame (c : Cpu U) : Frame c c.doMret := ⟨rfl, rfl⟩

theorem doSret_frame (c : Cpu U) : Frame c c.doSret := ⟨rfl, rfl⟩

section

variable [Units U]

theorem csrWrite_frame (c : Cpu U) (a : CsrAddr) (v : U64) : Frame c (c.csrWrite a v) := by
  have ht := c.trap_frame (.requestedTrap v) c.pc
  constructor
  · simp only [csrWrite, apply_ite Cpu.regs, ht.regs, ite_self]
  · simp only [csrWrite, apply_ite Cpu.l1dMshrs, ht.mshrs, ite_self]

theorem writeStoreToMemory_frame (c : Cpu U) (a : PhysAddr) (d : U64) (w : MemWidth) :
    Frame c (c.writeStoreToMemory a d w) := by
  unfold writeStoreToMemory
  split
  · exact ⟨rfl, rfl⟩
  · split <;> exact ⟨rfl, rfl⟩

end

end Cpu

section

variable [Units U]

theorem drainOneStore_frame (c : Cpu U) (sb : StoreBuffer) : Cpu.Frame c (drainOneStore c sb).1 := by
  unfold drainOneStore
  split
  · exact Cpu.Frame.refl c
  · split
    · refine Cpu.Frame.trans ?_ (Cpu.writeStoreToMemory_frame _ _ _ _)
      split <;> exact ⟨rfl, rfl⟩
    · exact Cpu.Frame.refl c

theorem drainCommitted_cons (c : Cpu U) (e : StoreBufferEntry) (rest : List StoreBufferEntry) :
    drainCommitted c (e :: rest) = match e.resolution with
      | .committed a d =>
        drainCommitted ((if c.isRam a then { c with units := (Units.simulateMemoryAccess c.units a .write).2 }
          else c).writeStoreToMemory a d e.width) rest
      | .cancelled => drainCommitted c rest
      | _ => (c, e :: rest) := rfl

theorem drainCommitted_frame (c : Cpu U) (es : List StoreBufferEntry) :
    Cpu.Frame c (drainCommitted c es).1 := by
  induction es generalizing c with
  | nil => exact Cpu.Frame.refl c
  | cons e rest ih =>
    rw [drainCommitted_cons]
    cases e.resolution with
    | committed a d =>
      refine Cpu.Frame.trans ?_ (ih _)
      refine Cpu.Frame.trans ?_ (Cpu.writeStoreToMemory_frame _ _ _ _)
      by_cases h : c.isRam a
      · rw [if_pos h]
        exact ⟨rfl, rfl⟩
      · rw [if_neg h]
        exact Cpu.Frame.refl c
    | cancelled => exact ih c
    | _ => exact Cpu.Frame.refl c

theorem drainAllCommitted_frame (c : Cpu U) (sb : StoreBuffer) :
    Cpu.Frame c (drainAllCommitted c sb).1 := by
  have h := drainCommitted_frame c sb.entries
  exact ⟨h.regs, h.mshrs⟩

end

/-! ### The state of commit, seen as a flight -/

namespace CommitState

/-- `f` with what commit changes taken from `c`. -/
def flight (f : Flight) (c : CommitState U) : Flight :=
  { f with
    rob := c.rob
    freeList := c.freeList
    committedMap := c.committedMap
    checkpoints := c.checkpoints.getD f.checkpoints
    prf := c.prf.getD f.prf
    regs := c.cpu.regs }

/-- Everything commit does beside renaming: registers, renaming structures and buffer are as before,
checkpoints may be given back. -/
structure Quiet (c c' : CommitState U) : Prop where
  cpu : Cpu.Frame c.cpu c'.cpu
  rob : c'.rob = c.rob
  committedMap : c'.committedMap = c.committedMap
  freeList : c'.freeList = c.freeList
  prf : c'.prf = c.prf
  board : c'.scoreboard = c.scoreboard
  ckpts : ∀ d, ∀ x ∈ (c'.checkpoints.getD d).live, x ∈ (c.checkpoints.getD d).live
  ran : ∀ d, ∀ t ∈ (c'.lq.getD d).ran, t ∈ (c.lq.getD d).ran

namespace Quiet

variable {a b c : CommitState U}

theorem refl (c : CommitState U) : Quiet c c :=
  ⟨Cpu.Frame.refl _, rfl, rfl, rfl, rfl, rfl, fun _ _ h => h, fun _ _ h => h⟩

theorem trans (h : Quiet a b) (h' : Quiet b c) : Quiet a c :=
  ⟨h.cpu.trans h'.cpu, h'.rob.trans h.rob, h'.committedMap.trans h.committedMap, h'.freeList.trans h.freeList,
    h'.prf.trans h.prf, h'.board.trans h.board, fun d x hx => h.ckpts d x (h'.ckpts d x hx),
        fun d t ht => h.ran d t (h'.ran d t ht)⟩

theorem flight_inv (h : Quiet a b) {D : Prop} {total : Nat} {f : Flight}
    (hf : FlightInv D total (a.flight f)) : FlightInv D total (b.flight f) := by
  have hd := hf.dropCkpts (b.checkpoints.getD f.checkpoints) (h.ckpts f.checkpoints)
  simpa only [flight, h.rob, h.committedMap, h.freeList, h.prf, h.cpu.regs] using hd

/-- A change of the core alone. -/
theorem of_cpu {cpu : Cpu U} (h : Cpu.Frame a.cpu cpu) : Quiet a { a with cpu := cpu } :=
  ⟨h, rfl, rfl, rfl, rfl, rfl, fun _ _ h => h, fun _ _ h => h⟩

end Quiet

theorem redirectAfter_quiet (c : CommitState U) (e : RobEntry) : Quiet c (c.redirectAfter e) :=
  Quiet.of_cpu ⟨rfl, rfl⟩

section

variable [Units U]

theorem retirePc_quiet (c : CommitState U) (e : RobEntry) : Quiet c (c.retirePc e) := Quiet.of_cpu ⟨rfl, rfl⟩

theorem drainAll_quiet (c : CommitState U) : Quiet c c.drainAll :=
  ⟨drainAllCommitted_frame c.cpu c.sb, rfl, rfl, rfl, rfl, rfl, fun _ _ h => h, fun _ _ h => h⟩

theorem retireRecords_quiet (c : CommitState U) (e : RobEntry) : Quiet c (c.retireRecords e) := by
  have hflags : ∀ c : CommitState U, Quiet c (if e.fpFlags ≠ 0 then { c with cpu := { c.cpu with
      csrs := { c.cpu.csrs with fflags := c.cpu.csrs.fflags ||| e.fpFlags.setWidth 64 }.setFsDirty } }
      else c) := by
    intro c
    split
    · exact Quiet.of_cpu ⟨rfl, rfl⟩
    · exact Quiet.refl c
  unfold retireRecords
  cases e.pteUpdate with
  | none => exact hflags c
  | some u => exact (Quiet.of_cpu (Cpu.writeStoreToMemory_frame _ _ _ _)).trans (hflags _)

theorem retireCsr_quiet (c : CommitState U) (e : RobEntry) (u : CsrUpdate) : Quiet c (c.retireCsr e u) := by
  have h1 : Quiet c (if u.addr = Csr.satp then c.drainAll else c) := by
    split
    · exact drainAll_quiet c
    · exact Quiet.refl c
  have h2 : ∀ c : CommitState U,
      Quiet c (if u.applied then c else { c with cpu := c.cpu.csrWrite u.addr u.newVal }) := by
    intro c
    split
    · exact Quiet.refl c
    · exact Quiet.of_cpu (Cpu.csrWrite_frame _ _ _)
  have h3 : ∀ c : CommitState U, Quiet c (if u.addr = Csr.satp then c.redirectAfter e else c) := by
    intro c
    split
    · exact redirectAfter_quiet c e
    · exact Quiet.refl c
  exact (h1.trans (h2 _)).trans (h3 _)

omit [Units U] in
theorem retireXret_quiet (c : CommitState U) {cpu : Cpu U} (h : Cpu.Frame c.cpu cpu) :
    Quiet c (c.retireXret cpu) := Quiet.of_cpu ⟨h.regs, h.mshrs⟩

omit [Units U] in
theorem retireWfi_quiet (c : CommitState U) (e : RobEntry) : Quiet c (c.retireWfi e) := by
  have h : Quiet c (if c.cpu.csrs.mie ≠ 0 ∨ c.cpu.csrs.mip ≠ 0 then
      { c with cpu := { c.cpu with wfiWaiting := true, wfiPc := e.fallThrough } } else c.redirectAfter e) := by
    split
    · exact Quiet.of_cpu ⟨rfl, rfl⟩
    · exact redirectAfter_quiet c e
  exact h.trans (Quiet.of_cpu ⟨rfl, rfl⟩)

/-- A fence changes memory and units only; the reset of `x0` changes nothing. -/
theorem retireFence_quiet (c : CommitState U) (e : RobEntry) : Quiet c (c.retireFence e).2 := by
  unfold retireFence
  split
  · exact (drainAll_quiet c).trans ⟨⟨rfl, rfl⟩, rfl, rfl, rfl, rfl, rfl, fun _ _ h => h, fun _ _ h => h⟩
  · refine Quiet.trans (b := if e.ctrl.systemOp = .fence ∧ ((fencePred e.inst).1 ∨ (fencePred e.inst).2)
      then c.drainAll else c) ?_ ?_
    · split
      · exact drainAll_quiet c
      · exact Quiet.refl c
    · cases e.sfenceVma with
      | some i => exact ⟨⟨rfl, rfl⟩, rfl, rfl, rfl, rfl, rfl, fun _ _ h => h, fun _ _ h => h⟩
      | none => exact ⟨⟨rfl, rfl⟩, rfl, rfl, rfl, rfl, rfl, fun _ _ h => h, fun _ _ h => h⟩

end

theorem freeCheckpoint_quiet (c : CommitState U) (id : Option U8) : Quiet c (match id with
    | some id => { c with checkpoints := c.checkpoints.map fun t => t.free id }
    | none => c) := by
  cases id with
  | none => exact Quiet.refl c
  | some id =>
    refine ⟨Cpu.Frame.refl _, rfl, rfl, rfl, rfl, rfl, fun d x hx => ?_, fun _ _ h => h⟩
    cases hc : c.checkpoints with
    | none => simpa [hc] using hx
    | some t => exact CheckpointTable.mem_live_free (show _ ∈ (t.free id).live by simpa [hc] using hx)

/-- Queue slots and the checkpoint are given back. -/
theorem retireMem_quiet (c : CommitState U) (e : RobEntry) : Quiet c (c.retireMem e) := by
  have hstore : ∀ c : CommitState U, Quiet c (if e.ctrl.memWrite then
      { c with
        cpu := if (e.lrSc.isNone && ((c.sb.findPaddr e.tag).elim false fun a => c.cpu.checkReservation a))
          then c.cpu.clearReservation else c.cpu
        sb := c.sb.markCommitted e.tag }
      else c) := by
    intro c
    split
    · refine ⟨?_, rfl, rfl, rfl, rfl, rfl, fun _ _ h => h, fun _ _ h => h⟩
      dsimp only
      split <;> exact ⟨rfl, rfl⟩
    · exact Quiet.refl c
  have hload : ∀ c : CommitState U,
      Quiet c (if e.ctrl.memRead then { c with lq := c.lq.map fun q => q.deallocate e.tag } else c) := by
    intro c
    split
    · refine ⟨Cpu.Frame.refl _, rfl, rfl, rfl, rfl, rfl, fun _ _ h => h, fun d t ht => ?_⟩
      cases hq : c.lq with
      | none => simpa [hq] using ht
      | some q => exact LoadQueue.ran_deallocate e.tag (by simpa [hq] using ht)
    · exact Quiet.refl c
  exact ((hstore c).trans (hload _)).trans (freeCheckpoint_quiet _ e.checkpointId)

/-! ### Retiring the head -/

/-- What holds inside commit, which began in the engine state `s`. -/
structure Inv (D : Prop) (total : Nat) (s : O3State U) (c : CommitState U) : Prop where
  flight : FlightInv D total (c.flight s.flight)
  mshrs : c.cpu.l1dMshrs = s.cpu.l1dMshrs
  prf : c.prf.isSome
  next : c.rob.nextTag = s.eng.rob.nextTag
  entries : c.rob.entries.Sublist s.eng.rob.entries
  ckpts : ∀ x ∈ (c.checkpoints.getD s.eng.checkpoints).live, x ∈ s.eng.checkpoints.live
  ran : ∀ t ∈ (c.lq.getD s.eng.lq).ran, t ∈ s.eng.lq.ran

variable {D : Prop} {total : Nat} {s : O3State U} {c c' : CommitState U}

theorem Inv.quiet (h : Inv D total s c) (hq : Quiet c c') : Inv D total s c' where
  flight := hq.flight_inv h.flight
  mshrs := hq.cpu.mshrs.trans h.mshrs
  prf := by rw [hq.prf]; exact h.prf
  next := by rw [hq.rob]; exact h.next
  entries := by rw [hq.rob]; exact h.entries
  ckpts := fun x hx => h.ckpts x (hq.ckpts _ x hx)
  ran := fun t ht => h.ran t (hq.ran _ t ht)

/-- The state with its head taken off. -/
def popped (c : CommitState U) (rest : List RobEntry) : CommitState U :=
  { c with rob := { c.rob with entries := rest } }

/-- The register write of commit is the one of `retireHead`. -/
theorem retireReg_writes (c : CommitState U) (e : RobEntry) :
    FlightInv.Writes e (e.result.getD 0) c.cpu.regs (c.retireReg e).cpu.regs := by
  intro r fp
  unfold retireReg
  by_cases hf : e.ctrl.fpRegWrite
  · simp only [if_pos hf]
    have hw : e.writesReg = true := by simp [RobEntry.writesReg, hf]
    cases fp with
    | false => simp [RegisterFile.arch, RegisterFile.read, RegisterFile.writeF, hf]
    | true =>
      by_cases hr : r = e.rd
      · subst hr
        simp [RegisterFile.arch, RegisterFile.readF, RegisterFile.writeF, hw, hf]
      · simp [RegisterFile.arch, RegisterFile.readF, RegisterFile.writeF, hr]
  · simp only [if_neg hf]
    by_cases hg : e.writesGpr
    · simp only [if_pos hg]
      have hw : e.writesReg = true := by simp [RobEntry.writesReg, hg]
      have hz : e.rd.isZero = false := by
        simp only [RobEntry.writesGpr, Bool.and_eq_true, Bool.not_eq_true'] at hg
        exact hg.2
      cases fp with
      | true => simp [RegisterFile.arch, RegisterFile.readF, RegisterFile.write, hz, hf]
      | false =>
        by_cases hr : r = e.rd
        · subst hr
          simp [RegisterFile.arch, RegisterFile.read, RegisterFile.write, hz, hw, hf]
        · simp [RegisterFile.arch, RegisterFile.read, RegisterFile.write, hz, hr]
    · have hw : e.writesReg = false := by simp [RobEntry.writesReg, hg, hf]
      simp [hg, hw]

theorem retireReg_flight (c : CommitState U) (e : RobEntry) (hone : e.ctrl.OneFile) (f : Flight) :
    (c.retireReg e).flight f = { c.flight f with
      committedMap := c.committedMap.applyEntry e
      freeList :=
        if e.writesReg = true ∧ e.oldPhysDst ≠ e.physDst then c.freeList.reclaim e.oldPhysDst else c.freeList
      regs := (c.retireReg e).cpu.regs } := by
  rw [RenameMap.applyEntry_eq _ e hone]
  unfold retireReg
  by_cases hf : e.ctrl.fpRegWrite
  · have hw : e.writesReg = true := by simp [RobEntry.writesReg, hf]
    simp only [hw, true_and, if_true, hf]
    rfl
  · simp only [if_neg hf]
    by_cases hg : e.writesGpr
    · have hw : e.writesReg = true := by simp [RobEntry.writesReg, hg]
      have hf' : e.ctrl.fpRegWrite = false := by simpa using hf
      simp only [if_pos hg, hw, true_and, if_true, hf']
      rfl
    · have hw : e.writesReg = false := by simp [RobEntry.writesReg, hg, hf]
      simp [hg, hw, flight]

theorem retireReg_frame (c : CommitState U) (e : RobEntry) :
    (c.retireReg e).cpu.l1dMshrs = c.cpu.l1dMshrs ∧ (c.retireReg e).rob = c.rob ∧
      (c.retireReg e).prf = c.prf ∧ (c.retireReg e).checkpoints = c.checkpoints ∧
      (c.retireReg e).lq = c.lq := by
  unfold retireReg
  dsimp only
  split
  · exact ⟨rfl, rfl, rfl, rfl, rfl⟩
  · split <;> exact ⟨rfl, rfl, rfl, rfl, rfl⟩

/-- **The register write of a completed head.** -/
theorem Inv.retireReg (h : Inv D total s c) {e : RobEntry} {rest : List RobEntry}
    (he : c.rob.entries = e :: rest) (hst : e.state = .completed) :
    Inv D total s ((c.popped rest).retireReg e) := by
  obtain ⟨hm, hr, hp, hc, hl⟩ := retireReg_frame (c.popped rest) e
  have hone : e.ctrl.OneFile :=
    h.flight.ren.oneFile e.bare (FlightInv.mem_bare (show e ∈ (c.flight s.flight).rob.entries by
      simp [CommitState.flight, he]))
  refine ⟨?_, hm.trans h.mshrs, by rw [hp]; exact h.prf, by rw [hr]; exact h.next, ?_, ?_,
    by rw [hl]; exact h.ran⟩
  · rw [retireReg_flight _ e hone]
    exact h.flight.retire_inv (by simp [CommitState.flight, he]) hst (retireReg_writes (c.popped rest) e)
  · rw [hr]
    refine List.Sublist.trans ?_ h.entries
    rw [he]
    exact List.sublist_cons_self e rest
  · rw [hc]
    exact h.ckpts

/-- After a register write the committed map has the entry's register. -/
theorem committedMap_retireReg (c : CommitState U) {e : RobEntry} (hg : e.writesGpr) (hone : e.ctrl.OneFile) :
    (c.retireReg e).committedMap.get e.rd false = e.physDst := by
  have hg' := hg
  simp only [RobEntry.writesGpr, Bool.and_eq_true, Bool.not_eq_true'] at hg'
  have hf : ¬e.ctrl.fpRegWrite = true := fun hf => hone ⟨hg'.1, hf⟩
  unfold retireReg
  simp only [if_neg hf, if_pos hg]
  rw [RenameMap.get_set _ _ _ _ _ _ (Or.inr (by simpa [RegIdx.isZero] using hg'.2))]
  simp

/-- A failed store-conditional: register and register file get the 1. -/
theorem Inv.failSc (h : Inv D total s c) {e : RobEntry}
    (hmap : e.writesGpr → c.committedMap.get e.rd false = e.physDst) : Inv D total s (c.failSc e) := by
  unfold CommitState.failSc
  refine Inv.quiet ?_ (redirectAfter_quiet _ e)
  dsimp only
  by_cases hg : e.writesGpr
  · rw [if_pos hg]
    have hz : e.rd ≠ 0 := by
      simp only [RobEntry.writesGpr, Bool.and_eq_true, Bool.not_eq_true'] at hg
      simpa [RegIdx.isZero] using hg.2
    obtain ⟨p, hp⟩ := Option.isSome_iff_exists.mp h.prf
    refine ⟨?_, h.mshrs, by simp [hp], h.next, h.entries, h.ckpts, h.ran⟩
    have := h.flight.rewrite_inv hz 1
    simp only [CommitState.flight, hp, Option.getD_some, hmap hg] at this
    simpa only [CommitState.flight, hp, Option.map_some, Option.getD_some] using this
  · rw [if_neg hg]
    exact ⟨h.flight, h.mshrs, h.prf, h.next, h.entries, h.ckpts, h.ran⟩

section

variable [Units U]

/-- **Retiring a completed head.** -/
theorem Inv.retire (h : Inv D total s c) {e : RobEntry} {rest : List RobEntry}
    (he : c.rob.entries = e :: rest) (hst : e.state = .completed) :
    Inv D total s ((c.popped rest).retire e).2 := by
  have h0 : Inv D total s (c.retirePc e) := h.quiet (retirePc_quiet c e)
  have h1 : Inv D total s (((c.popped rest).retirePc e).retireReg e) :=
    h0.retireReg (c := c.retirePc e) he hst
  have hone : e.ctrl.OneFile :=
    h.flight.ren.oneFile e.bare (FlightInv.mem_bare (show e ∈ (c.flight s.flight).rob.entries by
      simp [CommitState.flight, he]))
  have hq := retireRecords_quiet (((c.popped rest).retirePc e).retireReg e) e
  have h2 := h1.quiet hq
  have hmap : e.writesGpr →
      ((((c.popped rest).retirePc e).retireReg e).retireRecords e).committedMap.get e.rd false = e.physDst := by
    intro hg
    rw [hq.committedMap]
    exact committedMap_retireReg _ hg hone
  unfold CommitState.retire
  revert h2 hmap
  generalize (((c.popped rest).retirePc e).retireReg e).retireRecords e = c₂
  intro h2 hmap
  have htail : ∀ c₃ : CommitState U, Inv D total s c₃ → Inv D total s (c₃.retireTail e).2 := fun c₃ h3 =>
    (h3.quiet (retireMem_quiet c₃ e)).quiet (retireFence_quiet _ e)
  unfold retireEffects
  split
  · exact h2.quiet (retireCsr_quiet c₂ e _)
  · split
    · exact h2.quiet (retireXret_quiet c₂ (Cpu.doMret_frame _))
    · exact h2.quiet (retireXret_quiet c₂ (Cpu.doSret_frame _))
    · exact h2.quiet (retireWfi_quiet c₂ e)
    · split
      · exact htail _ (h2.quiet (Quiet.of_cpu ⟨rfl, rfl⟩))
      · split
        · exact htail _ (h2.quiet (Quiet.of_cpu ⟨rfl, rfl⟩))
        · exact h2.failSc hmap
      · exact htail _ h2

/-- Beside its register write, retiring changes neither registers nor renaming structures, unless a
store-conditional finds its reservation gone. -/
theorem retire_quiet (c : CommitState U) (e : RobEntry)
    (hsc : ∀ a, e.lrSc = some (.sc a) →
      (((c.retirePc e).retireReg e).retireRecords e).cpu.checkReservation a = true) :
    Quiet ((c.retirePc e).retireReg e) (c.retire e).2 := by
  have h2 := retireRecords_quiet ((c.retirePc e).retireReg e) e
  unfold CommitState.retire
  revert h2 hsc
  generalize ((c.retirePc e).retireReg e).retireRecords e = c₂
  intro hsc h2
  have htail : ∀ c₃ : CommitState U, Quiet c₂ c₃ → Quiet ((c.retirePc e).retireReg e) (c₃.retireTail e).2 :=
    fun c₃ h3 => (h2.trans h3).trans ((retireMem_quiet c₃ e).trans (retireFence_quiet _ e))
  unfold retireEffects
  split
  · exact h2.trans (retireCsr_quiet c₂ e _)
  · split
    · exact h2.trans (retireXret_quiet c₂ (Cpu.doMret_frame _))
    · exact h2.trans (retireXret_quiet c₂ (Cpu.doSret_frame _))
    · exact h2.trans (retireWfi_quiet c₂ e)
    · split
      · exact htail _ (Quiet.of_cpu ⟨rfl, rfl⟩)
      · rw [if_pos (hsc _ ‹_›)]
        exact htail _ (Quiet.of_cpu ⟨rfl, rfl⟩)
      · exact htail _ (Quiet.refl c₂)

/-- Retiring leaves the rest of the buffer alone; the scoreboard is cleared by the register write. -/
theorem retire_frame (c : CommitState U) (e : RobEntry) :
    (c.retire e).2.rob = c.rob ∧ (c.retire e).2.scoreboard = (c.retireReg e).scoreboard ∧
      (c.retire e).2.cpu.l1dMshrs = c.cpu.l1dMshrs := by
  have hreg := retireReg_frame (c.retirePc e) e
  have hboard : ((c.retirePc e).retireReg e).scoreboard = (c.retireReg e).scoreboard := by
    unfold CommitState.retireReg
    dsimp only
    split
    · rfl
    · split <;> rfl
  by_cases hsc : ∀ a, e.lrSc = some (.sc a) →
      (((c.retirePc e).retireReg e).retireRecords e).cpu.checkReservation a = true
  · have hq := retire_quiet c e hsc
    exact ⟨hq.rob.trans hreg.2.1, hq.board.trans hboard, hq.cpu.mshrs.trans hreg.1⟩
  · have h2 := retireRecords_quiet ((c.retirePc e).retireReg e) e
    have hfail : ∀ c₂ : CommitState U, Quiet ((c.retirePc e).retireReg e) c₂ →
        c₂.rob = c.rob ∧ c₂.scoreboard = (c.retireReg e).scoreboard ∧ c₂.cpu.l1dMshrs = c.cpu.l1dMshrs :=
      fun c₂ h => ⟨h.rob.trans hreg.2.1, h.board.trans hboard, h.cpu.mshrs.trans hreg.1⟩
    unfold CommitState.retire
    revert h2 hsc
    generalize ((c.retirePc e).retireReg e).retireRecords e = c₂
    intro hsc h2
    simp only [not_forall, Bool.not_eq_true] at hsc
    obtain ⟨a, ha, hres⟩ := hsc
    unfold retireEffects
    split
    · exact hfail _ (h2.trans (retireCsr_quiet c₂ e _))
    · split
      · exact hfail _ (h2.trans (retireXret_quiet c₂ (Cpu.doMret_frame _)))
      · exact hfail _ (h2.trans (retireXret_quiet c₂ (Cpu.doSret_frame _)))
      · exact hfail _ (h2.trans (retireWfi_quiet c₂ e))
      · rw [ha]
        simp only [hres, Bool.false_eq_true, if_false]
        have hsame := hfail c₂ h2
        unfold CommitState.failSc redirectAfter
        dsimp only
        split
        · exact hsame
        · exact hsame

/-! ### The stage -/

/-- Commit is over: without a trap the invariant holds; with one it holds once everything is squashed. -/
structure Done (D : Prop) (total : Nat) (s : O3State U) (r : Option (Trap × U64) × CommitState U) : Prop where
  flight : r.1 = none → FlightInv D total (r.2.flight s.flight)
  squash : FlightInv D total (r.2.flight s.flight).squashed
  mshrs : r.2.cpu.l1dMshrs = s.cpu.l1dMshrs
  next : r.2.rob.nextTag = s.eng.rob.nextTag
  entries : r.2.rob.entries.Sublist s.eng.rob.entries
  ckpts : ∀ x ∈ (r.2.checkpoints.getD s.eng.checkpoints).live, x ∈ s.eng.checkpoints.live
  ran : ∀ t ∈ (r.2.lq.getD s.eng.lq).ran, t ∈ s.eng.lq.ran

omit [Units U] in
theorem Inv.done (h : Inv D total s c) (t : Option (Trap × U64)) : Done D total s (t, c) :=
  ⟨fun _ => h.flight, h.flight.squashed_inv, h.mshrs, h.next, h.entries, h.ckpts, h.ran⟩

omit [Units U] in
/-- A change of core and store buffer that keeps registers and miss registers. -/
theorem Done.frame {r : Option (Trap × U64) × CommitState U} (h : Done D total s r) {cpu : Cpu U}
    (sb : StoreBuffer) (hf : Cpu.Frame r.2.cpu cpu) : Done D total s (r.1, { r.2 with cpu := cpu, sb := sb }) := by
  have heq : ({ r.2 with cpu := cpu, sb := sb } : CommitState U).flight s.flight = r.2.flight s.flight := by
    simp only [CommitState.flight, hf.regs]
  exact ⟨fun hn => heq ▸ h.flight hn, heq ▸ h.squash, hf.mshrs.trans h.mshrs, h.next, h.entries, h.ckpts,
    h.ran⟩

/-- **The commit loop.** -/
theorem commitLoop_done (n : Nat) (c : CommitState U) (h : Inv D total s c) :
    Done D total s (commitLoop n c) := by
  induction n generalizing c with
  | zero => exact h.done none
  | succ n ih =>
    rw [commitLoop]
    cases he : c.rob.entries with
    | nil => exact h.done none
    | cons e rest =>
      by_cases hb : c.headBlocked e
      · simp only [if_pos hb]
        exact h.done none
      · simp only [if_neg hb]
        by_cases hf : e.state = .faulted
        · -- the faulted head leaves: its register goes back first, as a flush would give it back
          simp only [if_pos hf]
          have hmem : e ∈ (c.flight s.flight).rob.entries := by simp [CommitState.flight, he]
          obtain ⟨t, htrap⟩ := Option.isSome_iff_exists.mp (h.flight.faults e hmem hf)
          simp only [retireFault, htrap]
          refine ⟨by simp, ?_, h.mshrs, h.next, ?_, h.ckpts, h.ran⟩
          · have hsq := h.flight.squashed_inv
            simpa only [Flight.squashed, CommitState.flight, he, FreeList.reclaimAll, List.foldl_cons, Rob.flushAll]
              using hsq
          · refine List.Sublist.trans ?_ h.entries
            rw [he]
            exact List.sublist_cons_self e rest
        · simp only [if_neg hf]
          have hst : e.state = .completed := by
            cases hs : e.state with
            | issued => simp [headBlocked, hs] at hb
            | completed => rfl
            | faulted => exact absurd hs hf
          have hr := h.retire he hst
          unfold popped at hr
          rcases hrest : CommitState.retire { c with rob := { c.rob with entries := rest } } e with ⟨go, c'⟩
          rw [hrest] at hr
          cases go with
          | true => exact ih c' hr
          | false => exact hr.done none

/-- A faulted entry stays in the buffer until its trap is taken. -/
theorem commitLoop_faulted {e : RobEntry} {t : Trap} (hf : e.state = .faulted) (ht : e.trap = some t) (n : Nat)
    (c : CommitState U) (he : e ∈ c.rob.entries) :
    e ∈ (commitLoop n c).2.rob.entries ∨ (commitLoop n c).1 = some (t, e.pc) := by
  induction n generalizing c with
  | zero => exact Or.inl he
  | succ n ih =>
    rw [commitLoop]
    cases hes : c.rob.entries with
    | nil => exact absurd (hes ▸ he) List.not_mem_nil
    | cons x rest =>
      by_cases hb : c.headBlocked x
      · simp only [if_pos hb]
        exact Or.inl he
      · simp only [if_neg hb]
        rw [hes] at he
        rcases List.mem_cons.mp he with rfl | he'
        · simp only [if_pos hf, retireFault, ht]
          exact Or.inr trivial
        · by_cases hx : x.state = .faulted
          · simp only [if_pos hx]
            unfold retireFault
            split
            · exact Or.inl he'
            · exact Or.inl he'
          · simp only [if_neg hx]
            have hr := (retire_frame { c with rob := { c.rob with entries := rest } } x).1
            rcases hrest : CommitState.retire { c with rob := { c.rob with entries := rest } } x with ⟨go, c'⟩
            rw [hrest] at hr
            have hin : e ∈ c'.rob.entries := by
              rw [hr]
              exact he'
            cases go with
            | true => exact ih c' hin
            | false => exact Or.inl hin

theorem commitStage_faulted {e : RobEntry} {t : Trap} (hf : e.state = .faulted) (ht : e.trap = some t) (n : Nat)
    (c : CommitState U) (he : e ∈ c.rob.entries) :
    e ∈ (commitStage c n).2.rob.entries ∨ (commitStage c n).1 = some (t, e.pc) := by
  unfold commitStage
  split
  · exact Or.inl he
  · split
    · exact Or.inl he
    · exact commitLoop_faulted hf ht n c he

/-- At the head its trap is taken, unless an interrupt comes first or the core waits for one. -/
theorem commitStage_faultedHead {e : RobEntry} {rest : List RobEntry} {t : Trap} (hf : e.state = .faulted)
    (ht : e.trap = some t) {n : Nat} (hn : 0 < n) (c : CommitState U) (he : c.rob.entries = e :: rest)
    (hint : checkInterrupts c.cpu = none) (hw : c.cpu.wfiWaiting = false) :
    (commitStage c n).1 = some (t, e.pc) := by
  obtain ⟨k, rfl⟩ : ∃ k, n = k + 1 := ⟨n - 1, by omega⟩
  have hb : c.headBlocked e = false := by simp [headBlocked, hf]
  unfold commitStage
  rw [hint, hw]
  simp only [Bool.false_eq_true, if_false, commitLoop, he, hb, if_pos hf, retireFault, ht]


theorem commitStage_done (n : Nat) (c : CommitState U) (h : Inv D total s c) :
    Done D total s (commitStage c n) := by
  unfold commitStage
  split
  · refine Inv.done (h.quiet ?_) _
    exact ⟨⟨rfl, rfl⟩, rfl, rfl, rfl, rfl, rfl, fun _ _ h => h, fun _ _ h => h⟩
  · split
    · refine (h.quiet (Quiet.of_cpu ?_)).done none
      unfold wfiWake
      split <;> exact ⟨rfl, rfl⟩
    · exact (commitLoop_done n c h).frame _ (drainOneStore_frame _ _)

end

end CommitState

end Rvsim
