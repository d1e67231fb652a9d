/-
# Runs of the out-of-order pipeline

A run starts from a freshly built simulator and takes ticks. The front end
touches neither registers nor miss registers, and what it hands to rename
writes at most one register file, so that a tick of the pipeline keeps what
the engine's tick and rename keep.

Key definitions:
  - `O3Pipeline.Run`, `O3Pipeline.Inv`
Key theorems:
  - `O3Pipeline.tick_inv`, `O3Pipeline.Run.inv`
-/
import Rvsim.O3Rename
import Rvsim.Pipeline

namespace Rvsim

variable {U : Type} {D : Prop} {total : Nat}

/-! ### The front end -/

/-- Only the attached units changed. -/
def Cpu.UnitsOnly (c c' : Cpu U) : Prop := ∃ u, c' = { c with units := u }

namespace Cpu.UnitsOnly

theorem refl (c : Cpu U) : Cpu.UnitsOnly c c := ⟨c.units, rfl⟩

theorem trans {a b c : Cpu U} (h : Cpu.UnitsOnly a b) (h' : Cpu.UnitsOnly b c) : Cpu.UnitsOnly a c := by
  obtain ⟨u, rfl⟩ := h
  obtain ⟨v, rfl⟩ := h'
  exact ⟨v, rfl⟩

end Cpu.UnitsOnly

section

variable [Units U]

theorem predictBranchAt_units (c : Cpu U) (pc : U64) : c.UnitsOnly (predictBranchAt c pc).2 := by
  unfold predictBranchAt
  split <;> exact ⟨_, rfl⟩

theorem predictHalf_units (c : Cpu U) (pc : U64) (half : U16) : c.UnitsOnly (predictHalf c pc half).2 := by
  unfold predictHalf
  dsimp only
  split
  · exact predictBranchAt_units c pc
  · exact Cpu.UnitsOnly.refl c

theorem predictWord_units (c : Cpu U) (pc : U64) (inst : U32) : c.UnitsOnly (predictWord c pc inst).2 := by
  unfold predictWord
  split
  · exact predictBranchAt_units c pc
  · split
    · exact ⟨_, rfl⟩
    · split
      · exact ⟨_, rfl⟩
      · exact Cpu.UnitsOnly.refl c

theorem fetchHalf_units (c : Cpu U) (a : PhysAddr) : c.UnitsOnly (fetchHalf c a).2 := c.loadPhys_eq a .half

/-- The upper half of an instruction is looked up when it lies on another page. -/
theorem translateUpper_units (c : Cpu U) (crosses : Bool) (va : VirtAddr) (r : TranslationResult) :
    c.UnitsOnly (if crosses then c.translate va .fetch 2 else (r, c)).2 := by
  cases crosses with
  | true => exact c.translate_eq va .fetch 2
  | false => exact Cpu.UnitsOnly.refl c

theorem fetch1Word_units (c : Cpu U) (pc : U64) (a : PhysAddr) (stall : Nat) :
    c.UnitsOnly (fetch1Word c pc a stall).2.2 := by
  have h1 := fetchHalf_units c a
  have h2 := translateUpper_units (fetchHalf c a).2 (crossesPage pc) (pc + 2) ⟨a + 2, 0, none, none⟩
  unfold fetch1Word
  dsimp only
  by_cases hc : isCompressed (fetchHalf c a).1
  · rw [if_pos hc]
    exact h1.trans (predictHalf_units _ _ _)
  · rw [if_neg hc]
    by_cases ht : (if crossesPage pc then (fetchHalf c a).2.translate (pc + 2) .fetch 2
        else (⟨a + 2, 0, none, none⟩, (fetchHalf c a).2)).1.trap.isSome
    · rw [if_pos ht]
      exact h1.trans h2
    · rw [if_neg ht]
      exact ((h1.trans h2).trans (fetchHalf_units _ _)).trans (predictWord_units _ _ _)

theorem fetch1Loop_units (lineEnd mask : U64) (n : Nat) (c : Cpu U) (pc : U64)
    (out : List Fetch1Fetch2Entry) (stall : Nat) :
    c.UnitsOnly (fetch1Loop lineEnd mask n c pc out stall).2.2.2 := by
  induction n generalizing c pc out stall with
  | zero => exact Cpu.UnitsOnly.refl c
  | succ n ih =>
    rw [fetch1Loop]
    split
    · exact Cpu.UnitsOnly.refl c
    · split
      · split <;> exact Cpu.UnitsOnly.refl c
      · have h1 : c.UnitsOnly (c.translate pc .fetch 4).2 := c.translate_eq pc .fetch 4
        dsimp only
        split
        · exact h1
        · have h2 := h1.trans (fetch1Word_units (c.translate pc .fetch 4).2 pc (c.translate pc .fetch 4).1.paddr
            (stall + (c.translate pc .fetch 4).1.cycles))
          split
          · rename_i heq
            rw [heq] at h2
            exact h2
          · rename_i heq
            rw [heq] at h2
            split
            · exact h2
            · exact h2.trans (ih _ _ _ _)

theorem icachePenalty_units (mask last : U64) (c : Cpu U) (fs : List Fetch1Fetch2Entry) :
    c.UnitsOnly (icachePenalty mask last c fs).2 := by
  induction fs generalizing last c with
  | nil => exact Cpu.UnitsOnly.refl c
  | cons f fs ih =>
    rw [icachePenalty]
    split
    · exact Cpu.UnitsOnly.refl c
    · dsimp only
      split
      · exact ih _ _
      · refine Cpu.UnitsOnly.trans ⟨_, rfl⟩ (ih _ _)

theorem fetch2Word_units (c : Cpu U) (f : Fetch1Fetch2Entry) : c.UnitsOnly (fetch2Word c f).2 := by
  have h1 := fetchHalf_units c f.paddr
  have h2 := translateUpper_units (fetchHalf c f.paddr).2 (crossesPage f.pc) (f.pc + 2)
    ⟨f.paddr + 2, 0, none, none⟩
  unfold fetch2Word
  dsimp only
  split
  · split <;> exact h1
  · split
    · exact h1.trans h2
    · exact (h1.trans h2).trans (fetchHalf_units _ _)

theorem fetch2Loop_units (c : Cpu U) (fs : List Fetch1Fetch2Entry) :
    c.UnitsOnly (fetch2Loop c fs).2.2 := by
  induction fs generalizing c with
  | nil => exact Cpu.UnitsOnly.refl c
  | cons f fs ih =>
    rw [fetch2Loop]
    split
    · exact Cpu.UnitsOnly.refl c
    · have h1 := fetch2Word_units c f
      split
      · rename_i heq
        rw [heq] at h1
        exact h1
      · rename_i heq
        rw [heq] at h1
        exact h1.trans (ih _)

theorem Frontend.tickFetch2_units (f : Frontend) (c : Cpu U) :
    c.UnitsOnly (f.tickFetch2 c).2 ∧ (f.tickFetch2 c).1.decodeRename = f.decodeRename := by
  unfold tickFetch2
  split
  · refine ⟨Cpu.UnitsOnly.refl c, ?_⟩
    dsimp only
    split <;> rfl
  · split
    · unfold fetch2Stage
      dsimp only
      split
      · exact ⟨Cpu.UnitsOnly.refl c, rfl⟩
      · refine ⟨Cpu.UnitsOnly.trans ?_ (fetch2Loop_units _ _), ?_⟩
        · split
          · exact icachePenalty_units _ _ _ _
          · exact Cpu.UnitsOnly.refl c
        · split <;> split <;> rfl
    · exact ⟨Cpu.UnitsOnly.refl c, rfl⟩

theorem Frontend.tickFetch1_units (f : Frontend) (c : Cpu U) :
    (∃ u pc, (f.tickFetch1 c).2 = { c with units := u, pc := pc }) ∧
      (f.tickFetch1 c).1.decodeRename = f.decodeRename := by
  unfold tickFetch1
  split
  · exact ⟨⟨c.units, c.pc, rfl⟩, rfl⟩
  · split
    · refine ⟨?_, rfl⟩
      obtain ⟨u, hu⟩ := fetch1Loop_units ((c.pc ||| (BitVec.ofNat 64 c.iCacheLineBytes - 1)) + 1)
        (if c.csrs.misa &&& Csr.misaExtC ≠ 0 then 1 else 3) c.pipelineWidth c c.pc [] f.fetch1Stall
      unfold fetch1Stage
      dsimp only
      rw [hu]
      exact ⟨_, _, rfl⟩
    · exact ⟨⟨c.units, c.pc, rfl⟩, rfl⟩

/-- The stages behind rename move `pc` and work the attached units. -/
theorem Frontend.tickBehind_cpu (f : Frontend) (c : Cpu U) (renames : Bool) :
    ∃ u pc, (f.tickBehind c renames).2 = { c with units := u, pc := pc } := by
  unfold tickBehind
  dsimp only
  obtain ⟨u, hu⟩ := ((f.tickDecode renames).tickFetch2_units c).1
  obtain ⟨v, pc, hv⟩ := (((f.tickDecode renames).tickFetch2 c).1.tickFetch1_units
    ((f.tickDecode renames).tickFetch2 c).2).1
  rw [hv, hu]
  exact ⟨v, pc, rfl⟩

end

/-! ### Decoded instructions -/

theorem decodeEntry_oneFile (e : IfIdEntry) : (decodeEntry e).ctrl.OneFile := by
  unfold decodeEntry
  dsimp only
  split
  · rename_i c hc
    exact decodeInstruction_writes e.inst e.pc c hc
  · simp [ControlSignals.OneFile]

/-- A property of every decoded word and of every word that faulted in fetch. -/
theorem decodeStage_forall {P : IdExEntry → Prop} (hd : ∀ e, P (decodeEntry e))
    (hf : ∀ (e : IfIdEntry) (t : Trap), P { pc := e.pc, inst := e.inst, instSize := e.instSize, trap := some t })
    (renames : Bool) (es : List IfIdEntry) (writes : List (RegIdx × Bool)) :
    ∀ id ∈ (decodeStage renames writes es).2, P id := by
  induction es generalizing writes with
  | nil => simp [decodeStage]
  | cons e es ih =>
    rw [decodeStage]
    split
    · intro id hid
      rw [List.mem_singleton.mp hid]
      exact hf e _
    · split
      · exact ih writes
      · dsimp only
        split
        · simp
        · split
          · intro id hid
            rw [List.mem_singleton.mp hid]
            exact hd e
          · intro id hid
            rcases List.mem_cons.mp hid with rfl | hid'
            · exact hd e
            · exact ih _ id hid'

/-- What the front end leaves for rename has a property that decoding gives. -/
theorem Frontend.tickBehind_forall [Units U] {P : IdExEntry → Prop} (hd : ∀ e, P (decodeEntry e))
    (hf : ∀ (e : IfIdEntry) (t : Trap), P { pc := e.pc, inst := e.inst, instSize := e.instSize, trap := some t })
    {f : Frontend} (h : ∀ id ∈ f.decodeRename, P id) (c : Cpu U) (renames : Bool) :
    ∀ id ∈ (f.tickBehind c renames).1.decodeRename, P id := by
  have hdec : ∀ id ∈ (f.tickDecode renames).decodeRename, P id := by
    unfold tickDecode
    split
    · exact decodeStage_forall hd hf renames f.fetch2Decode []
    · exact h
  unfold Frontend.tickBehind
  dsimp only
  rw [(((f.tickDecode renames).tickFetch2 c).1.tickFetch1_units ((f.tickDecode renames).tickFetch2 c).2).2,
    ((f.tickDecode renames).tickFetch2_units c).2]
  exact hdec

/-- What waits for rename writes at most one register file. -/
def Frontend.Decoded (f : Frontend) : Prop := ∀ id ∈ f.decodeRename, id.ctrl.OneFile

theorem Frontend.Decoded.tickBehind [Units U] {f : Frontend} (h : f.Decoded) (c : Cpu U) (renames : Bool) :
    (f.tickBehind c renames).1.Decoded :=
  Frontend.tickBehind_forall decodeEntry_oneFile (fun _ _ => by simp [ControlSignals.OneFile]) h c renames

/-! ### A tick of the pipeline -/

/-- The core may change in everything but registers and miss registers. -/
theorem O3Inv.ofCpu {s : O3State U} (h : O3Inv D total s) {cpu : Cpu U} (hf : s.cpu.Frame cpu) :
    O3Inv D total { s with cpu := cpu } := by
  have hfl : ({ s with cpu := cpu } : O3State U).flight = s.flight := by
    simp only [O3State.flight, O3State.flying, O3State.waiting, hf.regs, hf.mshrs]
  refine ⟨hfl ▸ h.flight, ?_, h.written, h.room, h.noWrap, fun w hw => ?_, h.ran⟩
  · change cpu.l1dMshrs.Ok
    rw [hf.mshrs]
    exact h.mshrs
  · exact ⟨(h.young w hw).entries, (h.young w hw).loads⟩

/-- The engine alone never leaves the half of the tag space it is in. -/
theorem O3.Keeps.spanOk {s s' : O3State U} (h : O3.Keeps D total s s') (hs : s.SpanOk) : s'.SpanOk := by
  refine ⟨fun e he => ?_, fun c hc => ?_, fun t ht => (h.inv.ran t ht).2⟩
  · obtain ⟨x, hx, hxt⟩ := List.mem_map.mp (h.within.tags.subset (List.mem_map_of_mem he))
    rw [h.within.next, ← hxt]
    exact hs.entries x hx
  · rw [h.within.next]
    exact hs.ckpts c (h.within.ckpts c hc)

namespace O3Pipeline

/-- What holds of the pipeline between ticks. -/
structure Inv (D : Prop) (total : Nat) (p : O3Pipeline U) : Prop where
  core : O3Inv D total p.core
  span : p.core.SpanOk
  decoded : p.frontend.Decoded

section

variable [Units U] {p : O3Pipeline U}

omit [Units U] in
theorem Inv.ofCpu (h : Inv D total p) {cpu : Cpu U} (hf : p.core.cpu.Frame cpu) :
    Inv D total { p with core := { p.core with cpu := cpu } } :=
  ⟨h.core.ofCpu hf, ⟨h.span.entries, h.span.ckpts, h.span.ran⟩, h.decoded⟩

theorem preTick_frame (c : Cpu U) : c.Frame c.preTick.2 := by
  unfold Cpu.preTick
  split
  · exact ⟨rfl, rfl⟩
  · exact ⟨rfl, rfl⟩

omit [Units U] in
theorem postTick_frame (c : Cpu U) : c.Frame c.postTick := ⟨rfl, rfl⟩

/-- The pipeline once the engine has ticked and the front end is flushed if it has to be. -/
def afterEngine (p : O3Pipeline U) : O3Pipeline U := redirect { p with core := O3.tick p.core } p.core.cpu.pc

theorem afterEngine_inv (h : Inv D total p) :
    Inv D total p.afterEngine ∧ p.afterEngine.core.renameOutput = [] := by
  obtain ⟨hk, ho⟩ := O3.tick_keeps h.core
  have hspan := hk.spanOk h.span
  unfold afterEngine redirect
  dsimp only
  by_cases hr : (O3.tick p.core).cpu.redirectPending || (O3.tick p.core).cpu.pc != p.core.cpu.pc
  · rw [if_pos hr]
    refine ⟨⟨hk.inv.ofCpu ⟨rfl, rfl⟩, ⟨hspan.entries, hspan.ckpts, hspan.ran⟩, ?_⟩, rfl⟩
    simp [Frontend.Decoded, Frontend.flush]
  · rw [if_neg hr]
    simp only [Bool.or_eq_true, not_or] at hr
    have hout := ho.resolve_right hr.1
    have heq : ({ O3.tick p.core with renameOutput := [] } : O3State U) = O3.tick p.core := by
      rw [← hout]
    rw [heq] at hk hspan
    exact ⟨⟨hk.inv, hspan, h.decoded⟩, hout⟩

theorem pipelineTick_eq (p : O3Pipeline U) :
    p.pipelineTick = if p.afterEngine.core.cpu.fetching then p.afterEngine.frontendTick else p.afterEngine := rfl

theorem frontendTick_inv (h : Inv D total p) (ho : p.core.renameOutput = [])
    (hspan : p.frontendTick.core.SpanOk) (hD : D → p.frontendTick.core.eng.rob.NoWrap) :
    Inv D total p.frontendTick := by
  have hren := @O3.renameStage_inv _ _ _ _ p.frontend.decodeRename h.core ho h.decoded h.span
    ⟨hspan.entries, hspan.ckpts, hspan.ran⟩ hD
  obtain ⟨-, hleft⟩ := @O3.renameStage_cpu _ _ p.frontend.decodeRename ho h.decoded
  have hcpu : (O3.renameStage p.core p.frontend.decodeRename).2.cpu.Frame
      (Frontend.tickBehind { p.frontend with decodeRename := (O3.renameStage p.core p.frontend.decodeRename).1 }
        (O3.renameStage p.core p.frontend.decodeRename).2.cpu true).2 := by
    obtain ⟨u, pc, heq⟩ := Frontend.tickBehind_cpu
      { p.frontend with decodeRename := (O3.renameStage p.core p.frontend.decodeRename).1 }
      (O3.renameStage p.core p.frontend.decodeRename).2.cpu true
    rw [heq]
    exact ⟨rfl, rfl⟩
  exact ⟨hren.ofCpu hcpu, hspan,
    Frontend.Decoded.tickBehind (fun id hid => h.decoded id (hleft id hid)) _ true⟩

/-- **A tick of the simulator keeps the invariant.** -/
theorem tick_inv (h : Inv D total p) (hspan : p.tick.core.SpanOk) (hD : D → p.tick.core.eng.rob.NoWrap) :
    Inv D total p.tick := by
  have hpre := h.ofCpu (preTick_frame p.core.cpu)
  unfold tick at hspan hD ⊢
  rcases hr : p.core.cpu.preTick with ⟨skip, cpu⟩
  simp only [hr] at hpre hspan hD ⊢
  cases skip with
  | true => exact hpre.ofCpu (postTick_frame _)
  | false =>
    simp only [Bool.false_eq_true, if_false] at hspan hD ⊢
    refine Inv.ofCpu ?_ (postTick_frame _)
    obtain ⟨heng, hout⟩ := afterEngine_inv hpre
    rw [pipelineTick_eq] at hspan hD ⊢
    by_cases hf : (afterEngine { p with core := { p.core with cpu := cpu } }).core.cpu.fetching
    · simp only [if_pos hf] at hspan hD ⊢
      exact frontendTick_inv heng hout ⟨hspan.entries, hspan.ckpts, hspan.ran⟩ hD
    · rw [if_neg hf]
      exact heng

end

/-! ### The first state -/

theorem syncReg_capacity (f : PhysRegFile) (p : PhysReg) (v : U64) :
    (O3.syncReg f p v).capacity = f.capacity := by
  unfold O3.syncReg
  split
  · rfl
  · exact PhysRegFile.write_capacity _ _ _

/-- Copying values into registers that hold zero: each ends with its value, the others with theirs. -/
theorem foldl_syncReg (vs : List (PhysReg × U64)) (f : PhysRegFile) (hnd : (vs.map Prod.fst).Nodup)
    (hin : ∀ x ∈ vs, f.inRange x.1 = true) (hz : ∀ x ∈ vs, f.Holds x.1 0) :
    (∀ x ∈ vs, (vs.foldl (fun f x => O3.syncReg f x.1 x.2) f).Holds x.1 x.2) ∧
      (∀ q u, f.Holds q u → q ∉ vs.map Prod.fst →
        (vs.foldl (fun f x => O3.syncReg f x.1 x.2) f).Holds q u) := by
  induction vs generalizing f with
  | nil => exact ⟨by simp, fun _ _ h _ => h⟩
  | cons x vs ih =>
    obtain ⟨hx, hnd'⟩ := List.nodup_cons.mp hnd
    have hown : (O3.syncReg f x.1 x.2).Holds x.1 x.2 := by
      unfold O3.syncReg
      split
      · rename_i h0
        rw [h0]
        exact hz x List.mem_cons_self
      · exact f.holds_write x.2 (hin x List.mem_cons_self)
    have hother : ∀ q u, f.Holds q u → q ≠ x.1 → (O3.syncReg f x.1 x.2).Holds q u := by
      intro q u hq hne
      unfold O3.syncReg
      split
      · exact hq
      · exact hq.write_of_ne x.2 hne
    have hne : ∀ y ∈ vs, y.1 ≠ x.1 := fun y hy heq => hx (heq ▸ List.mem_map_of_mem hy)
    obtain ⟨h1, h2⟩ := ih (O3.syncReg f x.1 x.2) hnd'
      (fun y hy => by
        have := hin y (List.mem_cons_of_mem _ hy)
        simpa only [PhysRegFile.inRange, syncReg_capacity] using this)
      (fun y hy => hother _ _ (hz y (List.mem_cons_of_mem _ hy)) (hne y hy))
    refine ⟨fun y hy => ?_, fun q u hq hnot => ?_⟩
    · rcases List.mem_cons.mp hy with rfl | hy'
      · exact h2 _ _ hown hx
      · exact h1 y hy'
    · rw [List.map_cons, List.mem_cons, not_or] at hnot
      exact h2 q u (hother q u hq hnot.1) hnot.2

/-- What `sync_arch_regs` copies, register by register. -/
def syncList (regs : RegisterFile) : List (PhysReg × U64) :=
  (List.range' 1 31).map (fun i => (BitVec.ofNat 16 i, regs.read (BitVec.ofNat 5 i))) ++
    (List.range 32).map fun i => (BitVec.ofNat 16 (32 + i), regs.readF (BitVec.ofNat 5 i))

theorem syncArchRegs_prf (eng : O3Engine) (cpu : Cpu U) :
    (O3.syncArchRegs eng cpu).prf = (syncList cpu.regs).foldl (fun f x => O3.syncReg f x.1 x.2) eng.prf := by
  simp only [O3.syncArchRegs, syncList, List.foldl_append, List.foldl_map]

theorem map_fst_syncList (regs : RegisterFile) :
    (syncList regs).map Prod.fst = (List.range' 1 63).map fun i => BitVec.ofNat 16 i := by
  simp only [syncList, List.map_append, List.map_map, Function.comp_def]
  decide

theorem mem_syncList (regs : RegisterFile) (r : RegIdx) (fp : Bool) (h : RenameMap.IsReal r fp) :
    (RenameMap.new.get r fp, regs.arch r fp) ∈ syncList regs := by
  have hr : BitVec.ofNat 5 r.toNat = r := by simp
  have hlt : r.toNat < 32 := r.isLt
  cases fp with
  | true =>
    refine List.mem_append_right _ (List.mem_map.mpr ⟨r.toNat, List.mem_range.mpr hlt, ?_⟩)
    rw [hr]
    refine Prod.ext ?_ rfl
    simp only [RenameMap.get, RenameMap.new, Bool.not_true, Bool.false_and, Bool.false_eq_true, if_false, if_true]
    bv_omega
  | false =>
    have h0 : r ≠ 0 := h.resolve_left (by decide)
    have hpos : r.toNat ≠ 0 := fun h' => h0 (BitVec.eq_of_toNat_eq h')
    refine List.mem_append_left _ (List.mem_map.mpr ⟨r.toNat, List.mem_range'_1.mpr (by omega), ?_⟩)
    rw [hr]
    have hz : r.isZero = false := by simpa [RegIdx.isZero] using h0
    refine Prod.ext ?_ rfl
    simp only [RenameMap.get, RenameMap.new, hz, Bool.not_false, Bool.and_false, Bool.false_eq_true, if_false]
    bv_omega

/-- A fresh file with the architectural registers ready. -/
theorem holds_fresh (hn : Numbered total) {p : PhysReg} (hp : p.toNat < 64) :
    ((PhysRegFile.new total).markArchReady O3.numArch).Holds p 0 := by
  have := hn.1
  have hlt : p.toNat < total := by omega
  simp [PhysRegFile.Holds, PhysRegFile.isReady, PhysRegFile.read, PhysRegFile.markArchReady, PhysRegFile.new,
    O3.numArch, hlt, hp]

theorem syncArchRegs_cap (eng : O3Engine) (cpu : Cpu U) :
    (O3.syncArchRegs eng cpu).prf.capacity = eng.prf.capacity := by
  rw [syncArchRegs_prf]
  generalize syncList cpu.regs = vs
  generalize eng.prf = f
  induction vs generalizing f with
  | nil => rfl
  | cons x vs ih => exact (ih _).trans (syncReg_capacity f x.1 x.2)

theorem init_mirror (hn : Numbered total) (eng : O3Engine) (cpu : Cpu U)
    (heng : eng.prf = (PhysRegFile.new total).markArchReady O3.numArch) (r : RegIdx) (fp : Bool) :
    (O3.syncArchRegs eng cpu).prf.Holds (RenameMap.new.get r fp) (cpu.regs.arch r fp) := by
  have hcap := hn.1
  have hsmall : ∀ x ∈ syncList cpu.regs, x.1 ≠ 0 ∧ x.1.toNat < 64 := by
    intro x hx
    have := List.mem_map_of_mem (f := Prod.fst) hx
    rw [map_fst_syncList] at this
    obtain ⟨i, hi, hix⟩ := List.mem_map.mp this
    have hi' := List.mem_range'_1.mp hi
    rw [← hix]
    constructor <;> bv_omega
  obtain ⟨h1, h2⟩ := foldl_syncReg (syncList cpu.regs) eng.prf (by rw [map_fst_syncList]; decide)
    (fun x hx => by
      rw [heng]
      obtain ⟨h0, hlt⟩ := hsmall x hx
      have hlt' : x.1.toNat < total := by omega
      simpa [PhysRegFile.inRange, PhysRegFile.markArchReady, PhysRegFile.new, hlt'] using h0)
    (fun x hx => heng ▸ holds_fresh hn (hsmall x hx).2)
  rw [syncArchRegs_prf]
  by_cases hreal : RenameMap.IsReal r fp
  · exact h1 _ (mem_syncList cpu.regs r fp hreal)
  · simp only [RenameMap.IsReal, not_or, Bool.not_eq_true, not_not] at hreal
    obtain ⟨rfl, rfl⟩ := hreal
    have hx0 : cpu.regs.arch 0 false = 0 := by simp [RegisterFile.arch, RegisterFile.read, RegIdx.isZero]
    rw [hx0, RenameMap.get_x0]
    refine h2 0 0 (heng ▸ holds_fresh hn (by decide)) ?_
    rw [map_fst_syncList]
    decide

/-- The registers of a fresh engine: the first 64 are mapped, the others free. -/
theorem init_part (hn : Numbered total) (p : PhysReg) :
    (FreeList.new total O3.numArch).queue.count p + RenameMap.new.image.count p = (physRegs total).count p := by
  have himg : RenameMap.new.image = (List.range' 0 64).map fun i => BitVec.ofNat 16 i := by decide
  have hall : List.range total = List.range' 0 64 ++ List.range' 64 (total - 64) := by
    have hsum : 64 + (total - 64) = total := by
      have := hn.1
      omega
    rw [List.range_eq_range', ← hsum, ← List.range'_append_1]
    simp
  simp only [physRegs, hall, himg, List.map_append, List.count_append, FreeList.new, O3.numArch]
  omega

/-- **A fresh simulator satisfies the invariant.** -/
theorem init_inv {cfg : Config} {cpu : Cpu U} (hl : Loaded cfg cpu) :
    Inv D (cfg.prfGprSize + cfg.prfFprSize) (init cfg cpu) := by
  have hlive : (CheckpointTable.new cfg.checkpointCount).live = [] := by
    simp [CheckpointTable.live, CheckpointTable.new]
  have hbares : (IssueQueue.new cfg.issueQueueSize).bares = [] := by
    simp [IssueQueue.bares, IssueQueue.entries, IssueQueue.new]
  have hpark : cpu.l1dMshrs.parked = [] := by
    rw [hl.mshrs]
    simp [MshrFile.parked, MshrFile.new, MshrEntry.parked]
  have hfly : (init cfg cpu).core.flying = [] := by
    simp [O3State.flying, init, O3.syncArchRegs, O3.Engine.new, hpark]
  have hwait : (init cfg cpu).core.waiting = [] := by
    simp only [O3State.waiting, init, O3.syncArchRegs, O3.Engine.new, hbares, List.map_nil, List.append_nil]
  have hheld : (init cfg cpu).core.flight.held = [] := by
    simp only [Flight.held, O3State.flight, hfly, hwait, List.map_nil, List.append_nil]
  have hnone : ∀ e : RobEntry, e ∉ (init cfg cpu).core.eng.rob.entries := fun _ he => List.not_mem_nil he
  have hbare : (init cfg cpu).core.flight.renamer.entries = [] := rfl
  have hren : RenInv (cfg.prfGprSize + cfg.prfFprSize) (init cfg cpu).core.flight.renamer := by
    refine ⟨Serial.Window.nil, fun e he => ?_, fun _ e he => ?_, fun pre e post hs => ?_, rfl, fun _ => ?_,
      fun hn p => ?_, fun c hc => ?_⟩
    · exact absurd he List.not_mem_nil
    · exact absurd he List.not_mem_nil
    · rw [hbare] at hs
      exact absurd hs (by simp)
    · exact (by decide : ∀ r fp, RenameMap.IsReal r fp → RenameMap.new.get r fp ≠ 0)
    · exact init_part hn p
    · exact absurd (hlive ▸ hc) List.not_mem_nil
  refine ⟨⟨⟨hren, ?_, ?_, ?_, ?_, ?_, ?_, ?_, ?_, ?_⟩, ?_, ?_, ?_, ?_, ?_, ?_⟩, ⟨?_, ?_, ?_⟩, ?_⟩
  · rw [Flight.tags, hheld]
    exact List.nodup_nil
  · rw [hheld]
    simp
  · exact fun _ e he => absurd he (hnone e)
  · intro w hw
    have hw' : w ∈ (init cfg cpu).core.waiting := hw
    exact absurd (hwait ▸ hw') List.not_mem_nil
  · exact syncArchRegs_cap _ _
  · exact fun _ e he => absurd he (hnone e)
  · exact fun _ e he => absurd he (hnone e)
  · exact fun hn => init_mirror hn _ cpu rfl
  · exact fun e he => absurd he (hnone e)
  · change cpu.l1dMshrs.Ok
    rw [hl.mshrs]
    exact MshrFile.Ok.new _ _
  · exact fun p hp => absurd hp List.not_mem_nil
  · change (IssueQueue.new cfg.issueQueueSize).bares.length + 0 ≤ _
    rw [hbares]
    exact Nat.zero_le _
  · exact fun _ => List.Pairwise.nil
  · exact fun w hw => absurd hw List.not_mem_nil
  · exact fun t ht => absurd ht List.not_mem_nil
  · exact fun e he => absurd he (hnone e)
  · exact fun c hc => absurd (hlive ▸ hc) List.not_mem_nil
  · exact fun t ht => absurd ht List.not_mem_nil
  · exact fun id hid => absurd hid List.not_mem_nil

/-! ### Runs -/

/-- The states a run can be in when each of its steps meets `S`. -/
inductive Run [Units U] (cfg : Config) (S : O3Pipeline U → O3Pipeline U → Prop) : O3Pipeline U → Prop where
  | init (cpu : Cpu U) (h : Loaded cfg cpu) : Run cfg S (O3Pipeline.init cfg cpu)
  | tick (p : O3Pipeline U) (h : Run cfg S p) (hs : S p p.tick) : Run cfg S p.tick

namespace Run

variable [Units U] {cfg : Config} {S : O3Pipeline U → O3Pipeline U → Prop} {p : O3Pipeline U}

theorem reach (h : Run cfg S p) : Reach cfg p := by
  induction h with
  | init cpu h => exact .init cpu h
  | tick p _ _ ih => exact .tick p ih

theorem mono {S' : O3Pipeline U → O3Pipeline U → Prop} (hS : ∀ p q, S p q → S' p q) (h : Run cfg S p) :
    Run cfg S' p := by
  induction h with
  | init cpu h => exact .init cpu h
  | tick p _ hs ih => exact .tick p ih (hS p _ hs)

/-- **The invariant of runs** whose tags stay within half the tag space; with `D`, also without a wrap
of the counter inside the buffer. -/
theorem inv (hspan : ∀ p q, S p q → q.core.SpanOk) (hD : D → ∀ p q, S p q → q.core.eng.rob.NoWrap)
    (h : Run cfg S p) : Inv D (cfg.prfGprSize + cfg.prfFprSize) p := by
  induction h with
  | init cpu h => exact init_inv h
  | tick p _ hs ih => exact tick_inv ih (hspan p _ hs) fun hd => hD hd p _ hs

end Run

/-- Every state of the run has its tags within half the tag space. -/
def SpanStep (_ q : O3Pipeline U) : Prop := q.core.SpanOk

/-! ### Runs on fixed programs -/

/-- RAM with the words of a program from `base` on. -/
def memOfWords (base : PhysAddr) (ws : List U32) : Mem := fun a =>
  let off := (a - base).toNat
  (ws.getD (off / 4) 0 >>> (8 * (off % 4))).setWidth 8

/-- A small two-wide machine. -/
def smallO3 : Config :=
  { backend := .outOfOrder, width := 2, robSize := 8, storeBufferSize := 4, issueQueueSize := 8, prfGprSize := 48,
    prfFprSize := 32, loadQueueSize := 4, checkpointCount := 4 }

theorem loaded_new (cfg : Config) (mem : Mem) (u : U) : Loaded cfg (Cpu.new cfg mem u) := by
  refine ⟨rfl, rfl, rfl, rfl, ?_⟩
  unfold Cpu.new
  dsimp only
  split <;> rfl

/-- The state after `n` ticks. -/
def ticks [Units U] (p : O3Pipeline U) : Nat → O3Pipeline U
  | 0 => p
  | n + 1 => p.tick.ticks n

/-- The next `n` steps meet `S`. -/
def meets [Units U] (S : O3Pipeline U → O3Pipeline U → Prop) [∀ p q, Decidable (S p q)] :
    Nat → O3Pipeline U → Bool
  | 0, _ => true
  | n + 1, p => decide (S p p.tick) && meets S n p.tick

theorem Run.ticks [Units U] {cfg : Config} {S : O3Pipeline U → O3Pipeline U → Prop} [∀ p q, Decidable (S p q)]
    (n : Nat) {p : O3Pipeline U} (h : Run cfg S p) (hm : meets S n p = true) : Run cfg S (p.ticks n) := by
  induction n generalizing p with
  | zero => exact h
  | succ n ih =>
    simp only [meets, Bool.and_eq_true, decide_eq_true_eq] at hm
    exact ih (.tick p h hm.1) hm.2

/-- The test of `SpanOk`, list by list: a bounded quantifier over tags would be tested on all of them. -/
def spanOk (s : O3State U) : Bool :=
  s.eng.rob.entries.all (fun e => Serial.age s.eng.rob.nextTag e.tag < Serial.half 32) &&
    s.eng.checkpoints.live.all (fun c => Serial.age s.eng.rob.nextTag c.branchTag < Serial.half 32) &&
    s.eng.lq.ran.all fun t => Serial.age s.eng.rob.nextTag t < Serial.half 32

theorem spanOk_iff (s : O3State U) : spanOk s = true ↔ s.SpanOk := by
  simp only [spanOk, Bool.and_eq_true, List.all_eq_true, decide_eq_true_eq]
  exact ⟨fun h => ⟨h.1.1, h.1.2, h.2⟩, fun h => ⟨⟨h.entries, h.ckpts⟩, h.ran⟩⟩

instance (s : O3State U) : Decidable s.SpanOk := decidable_of_iff _ (spanOk_iff s)

instance (p q : O3Pipeline U) : Decidable (SpanStep p q) := inferInstanceAs (Decidable q.core.SpanOk)

end O3Pipeline

end Rvsim
