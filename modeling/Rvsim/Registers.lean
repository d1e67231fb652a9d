/-
# What a run keeps of its registers

Three results on runs of the out-of-order pipeline, from the invariant:
physical registers are conserved, the committed map mirrors the architectural
registers, and a checkpoint is as good as a rebuild. The first two need
register numbers without aliases: `FreeList::new` casts them to `u16`, and
the committed map names 64 of them.

Key definitions:
  - `O3State.Conserved`, `O3State.Mirrored`, `O3.recovery`
Key theorems:
  - `O3Pipeline.conserved_iff`, `O3Pipeline.Run.mirrored`,
    `O3Pipeline.Run.restore_checkpoint`
-/
import Rvsim.O3Run

namespace Rvsim

variable {U : Type} {D : Prop} {total : Nat}

/-! ### Conservation -/

/-- Every register of a file of `total` is free, committed or in flight, exactly one of these and
exactly once; and what a map or a waiting instruction still names is not free. -/
structure O3State.Conserved (total : Nat) (s : O3State U) : Prop where
  partition : ((s.eng.freeList.queue ++ s.eng.committedMap.image ++ dsts s.eng.rob.entries).map
    BitVec.toNat).Perm (List.range total)
  mapped : ∀ r fp, s.eng.renameMap.get r fp ∉ s.eng.freeList.queue
  saved : ∀ c ∈ s.eng.checkpoints.live, ∀ e ∈ s.eng.rob.entries, e.tag = c.branchTag →
    ∀ r fp, c.renameMap.get r fp ∉ s.eng.freeList.queue
  sources : ∀ w ∈ s.eng.iq.entries.map (·.entry) ++ s.renameOutput,
    w.rs1Phys ∉ s.eng.freeList.queue ∧ w.rs2Phys ∉ s.eng.freeList.queue ∧
      (w.ctrl.rs3Fp = true → w.rs3Phys ∉ s.eng.freeList.queue)

theorem physRegs_toNat (h : total ≤ 65536) : (physRegs total).map BitVec.toNat = List.range total := by
  rw [physRegs, List.map_map]
  conv_rhs => rw [← List.map_id (List.range total)]
  refine List.map_congr_left fun i hi => ?_
  have := List.mem_range.mp hi
  simp only [Function.comp_apply, BitVec.toNat_ofNat, id]
  omega

/-- With a partition every register has a number of its own, and the 64 committed ones exist. -/
theorem O3State.Conserved.numbered {s : O3State U} (h : s.Conserved total) : Numbered total := by
  have hlen := h.partition.length_eq
  simp only [List.length_map, List.length_append, List.length_range] at hlen
  refine ⟨?_, ?_⟩
  · have : s.eng.committedMap.image.length = 64 := by simp [RenameMap.image, RenameMap.archRegs]
    omega
  · by_contra hgt
    have hmem : 65536 ∈ List.range total := List.mem_range.mpr (by omega)
    obtain ⟨p, -, hp⟩ := List.mem_map.mp (h.partition.mem_iff.mpr hmem)
    have := p.isLt
    omega

theorem O3Inv.conserved {s : O3State U} (h : O3Inv D total s) (hn : Numbered total) : s.Conserved total := by
  have hpart := h.flight.ren.part hn
  have hdst : dsts (s.eng.rob.entries.map RobEntry.bare) = dsts s.eng.rob.entries := by
    simp only [dsts, List.map_map]
    rfl
  have hfree : ∀ {es post : List RobEntry}, s.eng.rob.entries.map RobEntry.bare = es ++ post → ∀ r fp,
      (s.eng.committedMap.rebuild es).get r fp ∉ s.eng.freeList.queue :=
    fun hes => h.flight.ren.get_not_free hn hes
  refine ⟨?_, ?_, ?_, ?_⟩
  · rw [← physRegs_toNat hn.2]
    refine List.Perm.map _ (List.perm_iff_count.mpr fun p => ?_)
    rw [← hpart p, List.count_append, List.count_append, ← hdst]
    rfl
  · intro r fp
    have hmap : s.eng.renameMap = s.eng.committedMap.rebuild (s.eng.rob.entries.map RobEntry.bare) :=
      h.flight.ren.map
    rw [hmap]
    exact hfree (List.append_nil _).symm r fp
  · intro c hc e he htag r fp
    obtain ⟨pre, post, hsplit⟩ := List.append_of_mem he
    have hbare : s.eng.rob.entries.map RobEntry.bare =
        pre.map RobEntry.bare ++ e.bare :: post.map RobEntry.bare := by simp [hsplit]
    rw [h.flight.ren.restore_eq_rebuild hbare hc htag.symm]
    exact hfree (hbare.trans (List.append_cons _ _ _)) r fp
  · intro w hw
    have hwait : w.bare ∈ s.flight.waiting := by
      rcases List.mem_append.mp hw with h' | h'
      · obtain ⟨q, hq, rfl⟩ := List.mem_map.mp h'
        exact List.mem_append_left _ (List.mem_map.mpr ⟨q, hq, rfl⟩)
      · exact List.mem_append_right _ (List.mem_map_of_mem h')
    obtain ⟨e, he, hte, -, -⟩ := h.flight.held w.bare.dest
      (List.mem_append_left _ (List.mem_map_of_mem hwait))
    obtain ⟨pre, post, hsplit⟩ := List.append_of_mem he
    have hbare : s.flight.renamer.entries = pre.map RobEntry.bare ++ e.bare :: post.map RobEntry.bare := by
      change s.eng.rob.entries.map RobEntry.bare = _
      rw [show s.eng.rob.entries = pre ++ e :: post from hsplit]
      simp
    have hsrc := h.flight.sources w.bare hwait _ e.bare _ hbare hte
    refine ⟨?_, ?_, fun h3 => ?_⟩
    · exact hsrc.rs1 ▸ hfree hbare _ _
    · exact hsrc.rs2 ▸ hfree hbare _ _
    · exact hsrc.rs3 h3 ▸ hfree hbare _ _

namespace O3Pipeline

/-- **Conservation of physical registers.** It holds in every state of every run exactly when the
register file has room for the architectural registers and no more registers than there are numbers. -/
theorem conserved_iff [Units U] (cfg : Config) (u : U) :
    (∀ p : O3Pipeline U, Run cfg SpanStep p → p.core.Conserved (cfg.prfGprSize + cfg.prfFprSize)) ↔
      Numbered (cfg.prfGprSize + cfg.prfFprSize) := by
  refine ⟨fun h => ?_, fun hn p hp => ?_⟩
  · exact (h _ (.init _ (loaded_new cfg (fun _ => 0) u))).numbered
  · have hinv : Inv False (cfg.prfGprSize + cfg.prfFprSize) p := hp.inv (fun _ _ hs => hs) (fun hf => hf.elim)
    exact hinv.core.conserved hn

/-- With 65601 registers the cast gives register 64 out twice: the fresh free list already holds it at
both ends. -/
theorem freeList_aliased : ∃ p : O3Pipeline Bench, Reach { prfGprSize := 65569, prfFprSize := 32 } p ∧
    ¬p.core.eng.freeList.queue.Nodup := by
  refine ⟨_, .init _ (loaded_new _ (fun _ => 0) {}), fun hnd => ?_⟩
  have hqueue : ((List.range' 64 65537).map fun i => BitVec.ofNat 16 i).Nodup := hnd
  have h1 : 64 ∈ List.range' 64 65537 := List.mem_range'_1.mpr (by omega)
  have h2 : 65600 ∈ List.range' 64 65537 := List.mem_range'_1.mpr (by omega)
  have := List.inj_on_of_nodup_map hqueue h1 h2 (by decide)
  omega

/-! ### The committed mirror -/

end O3Pipeline

/-- Each committed mapping is ready and holds the architectural value. -/
def O3State.Mirrored (s : O3State U) : Prop :=
  ∀ r fp, s.eng.prf.isReady (s.eng.committedMap.get r fp) = true ∧
    s.eng.prf.read (s.eng.committedMap.get r fp) = s.cpu.regs.arch r fp ∧ s.eng.committedMap.get 0 false = 0

namespace O3Pipeline

/-- **The committed map mirrors the architectural registers**, after every tick. -/
theorem Run.mirrored [Units U] {cfg : Config} {p : O3Pipeline U}
    (hn : Numbered (cfg.prfGprSize + cfg.prfFprSize)) (h : Run cfg SpanStep p) : p.core.Mirrored := by
  have hinv : Inv False (cfg.prfGprSize + cfg.prfFprSize) p := h.inv (fun _ _ hs => hs) (fun hf => hf.elim)
  intro r fp
  obtain ⟨hready, hval⟩ := hinv.core.flight.mirror hn r fp
  exact ⟨hready, hval, RenameMap.get_x0 _⟩

/-- A store-conditional that fails at commit, in front of a loop that fetch runs into. -/
def scFailing : O3Pipeline Bench :=
  init smallO3 (Cpu.new smallO3
    -- addi x5,x0,7; auipc x6,0x1; sw x5,0(x6); lw x7,0(x6); sc.w x8,x5,(x6); jal x0,0
    (memOfWords 0x80000000 [0x00700293, 0x00001317, 0x00532023, 0x00032383, 0x1853242f, 0x0000006f])
    { btb := [(0x80000014, 0x80000014)] })

/-- The mirror just after the failed store-conditional has replaced its result. -/
theorem mirrored_scFailing : (scFailing.ticks 15).core.cpu.regs.arch 8 false = 1 ∧
    (scFailing.ticks 15).core.Mirrored :=
  ⟨by decide +kernel,
    Run.mirrored (by decide) (Run.ticks 15 (.init _ (loaded_new smallO3 _ _)) (by decide +kernel))⟩

/-- Nothing enforces that the file has room for the architectural registers: with 48 the committed map
names registers that do not exist. -/
theorem mirror_outOfRange : ∃ p : O3Pipeline Bench, Reach { prfGprSize := 32, prfFprSize := 16 } p ∧
    ¬p.core.Mirrored := by
  refine ⟨_, .init _ (loaded_new _ (fun _ => 0) {}), fun h => ?_⟩
  have hready := (h 31 true).1
  rw [PhysRegFile.isReady, if_neg] at hready
  · exact absurd hready (by decide)
  · decide

end O3Pipeline

/-! ### Checkpoints -/

namespace O3

variable [Units U] {s s' : O3State U} {keep : RobTag}

/-- Where a tick recovers from a misprediction: the instruction that asked for the flush and the state
it is made in. -/
def recovery (s : O3State U) : Option (RobTag × O3State U) :=
  match commit (start s) with
  | (some _, _) => none
  | (none, s₁) =>
    if s₁.cpu.pc ≠ (start s).cpu.pc then none
    else
      match memory2 (drainMshrs (writeback s₁)) with
      | (some _, _) => none
      | (none, s₂) =>
        match issue (!(memory1 s₂).eng.executeMem1.isEmpty)
          { memory1 s₂ with eng := drainPending (memory1 s₂).eng } with
        | (none, _) => none
        | (some keep, s₃) => some (keep, s₃)

/-- The tick ends with that recovery. -/
theorem tick_of_recovery (h : recovery s = some (keep, s')) : tick s = recover s' keep := by
  unfold recovery at h
  unfold tick
  dsimp only
  split at h
  · exact absurd h (by simp)
  · rename_i s₁ hc
    rw [hc]
    dsimp only
    by_cases hpc : s₁.cpu.pc ≠ (start s).cpu.pc
    · rw [if_pos hpc] at h
      exact absurd h (by simp)
    · rw [if_neg hpc] at h ⊢
      unfold tickRest
      split at h
      · exact absurd h (by simp)
      · rename_i s₂ hm
        rw [hm]
        dsimp only
        unfold tickBack
        dsimp only
        split at h
        · exact absurd h (by simp)
        · rename_i k s₃ hi
          rw [hi]
          obtain ⟨rfl, rfl⟩ : k = keep ∧ s₃ = s' := by simpa using h
          rfl

/-- Recovery starts in order, from an instruction in flight. -/
theorem recovery_selected (hinv : O3Inv D total s) (h : recovery s = some (keep, s')) :
    ∃ rest, O3Selected D total s' rest ∧ keep ∈ s'.eng.rob.entries.map (·.tag) := by
  have hs := start_keeps hinv
  unfold recovery at h
  split at h
  · exact absurd h (by simp)
  · rename_i s₁ hc
    have hk := commit_keeps hs.inv (by rw [hc])
    rw [hc] at hk
    split at h
    · exact absurd h (by simp)
    · have hw := writeback_keeps hk.inv
      have hd := drainMshrs_keeps hw.inv
      obtain ⟨hm, -⟩ := memory2_keeps hd.inv (drainMshrs_latch.trans writeback_latch)
      split at h
      · exact absurd h (by simp)
      · rename_i s₂ hm2
        rw [hm2] at hm
        have h1 := memory1_keeps hm.inv
        have hl := issue_looped (!(memory1 s₂).eng.executeMem1.isEmpty) (drainPending_keeps h1.inv).inv
        split at h
        · exact absurd h (by simp)
        · rename_i k s₃ hi
          rw [hi] at hl
          obtain ⟨rfl, rfl⟩ : k = keep ∧ s₃ = s' := by simpa using h
          obtain ⟨rest, hsel, hmem, -⟩ := hl.flush k rfl
          exact ⟨rest, hsel, hmem⟩

end O3

namespace O3Pipeline

/-- The state the engine's tick starts from. -/
def entering [Units U] (p : O3Pipeline U) : O3State U := { p.core with cpu := p.core.cpu.preTick.2 }

/-- **Restoring a checkpoint equals rebuilding.** When a tick recovers from a misprediction of an
instruction that has a checkpoint, it restores it, and the map is the one `rebuild_rename_map` gives
over the entries that survive. -/
theorem Run.restore_checkpoint [Units U] {cfg : Config} {p : O3Pipeline U} (h : Run cfg SpanStep p)
    {keep : RobTag} {s : O3State U} (hr : O3.recovery p.entering = some (keep, s)) {c : Checkpoint}
    (hc : s.eng.checkpoints.findByTag keep = some c) :
    (O3.tick p.entering).eng.renameMap = c.renameMap ∧
      ∀ r fp, c.renameMap.get r fp =
        (O3.rebuildRenameMap (O3.flushQueuesAfter s keep).eng).renameMap.get r fp := by
  have hinv : Inv False (cfg.prfGprSize + cfg.prfFprSize) p := h.inv (fun _ _ hs => hs) (fun hf => hf.elim)
  have hent : O3Inv False (cfg.prfGprSize + cfg.prfFprSize) p.entering := hinv.core.ofCpu (preTick_frame _)
  obtain ⟨rest, hsel, hmem⟩ := O3.recovery_selected hent hr
  have hmap := O3.restore_eq_rebuilt hsel hmem hc
  have hrec := O3.recoverMap_eq hsel hmem (O3.squashAfter s keep).1
  have hflush : O3.rebuiltMap s keep = (O3.rebuildRenameMap (O3.flushQueuesAfter s keep).eng).renameMap := by
    rw [O3.rebuiltMap, O3.squashAfter_found hmem]
    rfl
  refine ⟨?_, fun r fp => by rw [hmap, hflush]⟩
  rw [O3.tick_of_recovery hr, hmap, ← hrec]
  rfl

/-- A taken branch and a jump, both fetched past. -/
def branching : O3Pipeline Bench :=
  init smallO3 (Cpu.new smallO3
    -- addi x5,x0,1; beq x0,x0,8; addi x5,x0,2; jal x0,0
    (memOfWords 0x80000000 [0x00100293, 0x00000463, 0x00200293, 0x0000006f]) {})

/-- The jump's checkpoint, taken after the branch's was given back. -/
theorem restore_branching : ∃ keep s c, O3.recovery (branching.ticks 10).entering = some (keep, s) ∧
    s.eng.checkpoints.findByTag keep = some c ∧
    (O3.tick (branching.ticks 10).entering).eng.renameMap = c.renameMap ∧
      ∀ r fp, c.renameMap.get r fp =
        (O3.rebuildRenameMap (O3.flushQueuesAfter s keep).eng).renameMap.get r fp := by
  have hsome : ((O3.recovery (branching.ticks 10).entering).bind
      fun x => x.2.eng.checkpoints.findByTag x.1).isSome = true := by decide +kernel
  obtain ⟨c, hc⟩ := Option.isSome_iff_exists.mp hsome
  obtain ⟨⟨keep, s⟩, hr, hf⟩ := Option.bind_eq_some_iff.mp hc
  have hrun : Run smallO3 SpanStep (branching.ticks 10) :=
    Run.ticks 10 (.init _ (loaded_new smallO3 _ _)) (by decide)
  exact ⟨keep, s, c, hr, hf, Run.restore_checkpoint hrun hr hf⟩

end O3Pipeline

end Rvsim
