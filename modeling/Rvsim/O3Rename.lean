/-
# Rename keeps the invariant

Rename is the only stage that allocates. Its budget is the least room of all
the structures it allocates in, so that inside the loop no allocation fails
and no instruction is left behind half renamed.

Key definitions:
  - `O3.Budget`, `O3State.SpanOk`
Key theorems:
  - `O3.renameOne_keeps`, `O3.renameStage_keeps`
-/
import Rvsim.O3Issue
import Rvsim.Rename

namespace Rvsim

variable {U : Type} {D : Prop} {total : Nat} {s s' : O3State U}

/-- The tags in use, of the buffer, the checkpoints and the loads that ran, lie within half the tag
space, as the comparison of tags assumes. -/
structure O3State.SpanOk (s : O3State U) : Prop where
  entries : ∀ e ∈ s.eng.rob.entries, Serial.age s.eng.rob.nextTag e.tag < Serial.half 32
  ckpts : ∀ c ∈ s.eng.checkpoints.live, Serial.age s.eng.rob.nextTag c.branchTag < Serial.half 32
  ran : ∀ t ∈ s.eng.lq.ran, Serial.age s.eng.rob.nextTag t < Serial.half 32

namespace O3

/-! ### One instruction -/

/-- Room for `n` more instructions in everything rename allocates in. -/
structure Budget (s : O3State U) (n : Nat) : Prop where
  rob : n ≤ s.eng.rob.freeSlots
  sb : n ≤ s.eng.sb.freeSlots
  lq : n ≤ s.eng.lq.freeSlots
  free : n ≤ s.eng.freeList.available
  iq : s.eng.iq.Room (s.renameOutput.length + n)

/-- The entry rename makes for `id`. -/
def newEntry (s : O3State U) (id : IdExEntry) (p old : PhysReg) : RobEntry :=
  { tag := s.eng.rob.nextTag, pc := id.pc, inst := id.inst, instSize := id.instSize, rd := id.rd,
    rdFp := id.ctrl.fpRegWrite, ctrl := id.ctrl, physDst := p, oldPhysDst := old }

theorem newEntry_writesReg (s : O3State U) (id : IdExEntry) (p old : PhysReg) :
    (newEntry s id p old).writesReg = id.needsDst := rfl

/-- The destination and what it leaves on the free list. -/
theorem allocDst_some {n : Nat} (hb : Budget s (n + 1)) (id : IdExEntry) :
    ∃ p old fl, allocDst s.eng id = some (p, old, fl) ∧
      RenInv.Takes s.eng.freeList (newEntry s id p old) fl ∧
      (id.needsDst → old = s.eng.renameMap.get id.rd id.ctrl.fpRegWrite) ∧
      s.eng.freeList.available ≤ fl.available + 1 := by
  unfold allocDst
  by_cases hd : id.needsDst
  · rw [if_pos hd]
    have hfree := hb.free
    cases hq : s.eng.freeList.queue with
    | nil => simp [FreeList.available, hq] at hfree
    | cons p rest =>
      refine ⟨p, s.eng.renameMap.get id.rd id.ctrl.fpRegWrite, ⟨rest⟩, ?_, Or.inl ⟨hd, hq⟩, fun _ => rfl, ?_⟩
      · simp [FreeList.allocate, hq]
      · simp [FreeList.available, hq]
  · rw [if_neg hd]
    have hw : ∀ p old, (newEntry s id p old).writesReg = false := fun p old => by
      rw [newEntry_writesReg]
      simpa using hd
    exact ⟨0, 0, s.eng.freeList, rfl, Or.inr ⟨hw 0 0, rfl, rfl⟩, fun h => absurd h hd, by omega⟩

/-- What one successful rename did. -/
structure Renamed (s : O3State U) (id : IdExEntry) (s' : O3State U) : Prop where
  alloc : ∃ p old fl, RenInv.Takes s.eng.freeList (newEntry s id p old) fl ∧
    (id.needsDst → old = s.eng.renameMap.get id.rd id.ctrl.fpRegWrite) ∧
    s.eng.freeList.available ≤ fl.available + 1 ∧
    s'.eng.freeList = fl ∧
    (∃ g : RobEntry → RobEntry, RobEntry.Fixes g ∧ (∀ e, (g e).state = e.state) ∧
      (∀ e, (g e).result = e.result) ∧ (∀ e, (g e).trap = e.trap) ∧
      s'.eng.rob = { s.eng.rob with
        entries := (s.eng.rob.entries ++ [newEntry s id p old]).map g
        nextTag := s.eng.rob.nextTag.next }) ∧
    s'.eng.renameMap = s.eng.renameMap.applyEntry (newEntry s id p old) ∧
    s'.eng.prf = (if id.needsDst then s.eng.prf.allocate p else s.eng.prf) ∧
    s'.renameOutput = s.renameOutput ++ [renamedEntry s.eng.renameMap id s.eng.rob.nextTag p]
  committedMap : s'.eng.committedMap = s.eng.committedMap
  ckpts : ∀ c ∈ s'.eng.checkpoints.live,
    c = ⟨s.eng.rob.nextTag, s'.eng.renameMap⟩ ∨ c ∈ s.eng.checkpoints.live
  oldCkpts : ∀ c ∈ s.eng.checkpoints.live, c ∈ s'.eng.checkpoints.live
  iq : s'.eng.iq = s.eng.iq
  flying : s'.flying = s.flying
  pending : s'.eng.pendingResults = s.eng.pendingResults
  cpu : s'.cpu = s.cpu
  ran : ∀ t ∈ s'.eng.lq.ran, t ∈ s.eng.lq.ran
  oldRan : ∀ t ∈ s.eng.lq.ran, t ∈ s'.eng.lq.ran
  sb : s.eng.sb.freeSlots ≤ s'.eng.sb.freeSlots + 1
  lq : s.eng.lq.freeSlots ≤ s'.eng.lq.freeSlots + 1

theorem rob_allocate {n : Nat} (hb : Budget s (n + 1)) (id : IdExEntry) (p old : PhysReg) :
    s.eng.rob.allocate id.pc id.inst id.instSize id.rd id.ctrl.fpRegWrite id.ctrl p old =
      some (s.eng.rob.nextTag, { s.eng.rob with
        entries := s.eng.rob.entries ++ [newEntry s id p old], nextTag := s.eng.rob.nextTag.next }) := by
  have hfull : ¬s.eng.rob.isFull = true := by
    have := hb.rob
    simp only [Rob.freeSlots] at this
    simp only [Rob.isFull, beq_iff_eq]
    omega
  rw [Rob.allocate, if_neg hfull]
  rfl

theorem allocMem_true {eng : O3Engine} (hsb : 0 < eng.sb.freeSlots) (hlq : 0 < eng.lq.freeSlots)
    (id : IdExEntry) (tag : RobTag) :
    ∃ sb lq, allocMem eng id tag = (true, { eng with sb := sb, lq := lq }) ∧
      eng.sb.freeSlots ≤ sb.freeSlots + 1 ∧ eng.lq.freeSlots ≤ lq.freeSlots + 1 ∧
      (∀ t, t ∈ lq.ran ↔ t ∈ eng.lq.ran) := by
  have hs : ∃ sb, (if id.ctrl.memWrite then eng.sb.allocate tag id.ctrl.width else (true, eng.sb)) = (true, sb) ∧
      eng.sb.freeSlots ≤ sb.freeSlots + 1 := by
    split
    · have hfull : ¬eng.sb.isFull = true := by
        simp only [StoreBuffer.freeSlots] at hsb
        simp only [StoreBuffer.isFull, beq_iff_eq]
        omega
      refine ⟨_, by rw [StoreBuffer.allocate, if_neg hfull], ?_⟩
      simp only [StoreBuffer.freeSlots, List.length_append, List.length_singleton]
      omega
    · exact ⟨_, rfl, by omega⟩
  have hl : ∃ lq, (if id.ctrl.memRead then eng.lq.allocate tag id.ctrl.width else (true, eng.lq)) = (true, lq) ∧
      eng.lq.freeSlots ≤ lq.freeSlots + 1 ∧ (∀ t, t ∈ lq.ran ↔ t ∈ eng.lq.ran) := by
    split
    · have hfull : ¬eng.lq.isFull = true := by
        simp only [LoadQueue.freeSlots] at hlq
        simp only [LoadQueue.isFull, beq_iff_eq]
        omega
      refine ⟨_, by rw [LoadQueue.allocate, if_neg hfull], ?_, fun t => ?_⟩
      · simp only [LoadQueue.freeSlots, List.length_append, List.length_singleton]
        omega
      · simp [LoadQueue.ran]
    · exact ⟨_, rfl, by omega, fun _ => Iff.rfl⟩
  obtain ⟨sb, hsb', hsb''⟩ := hs
  obtain ⟨lq, hlq', hlq'', hran⟩ := hl
  refine ⟨sb, lq, ?_, hsb'', hlq'', hran⟩
  unfold allocMem
  simp only [hsb', hlq']
  rfl

theorem takeCheckpoint_eq (eng : O3Engine) (id : IdExEntry) (tag : RobTag) :
    ∃ t g, takeCheckpoint eng id tag =
        { eng with checkpoints := t, rob := { eng.rob with entries := eng.rob.entries.map g } } ∧
      (∀ c ∈ t.live, c = ⟨tag, eng.renameMap⟩ ∨ c ∈ eng.checkpoints.live) ∧
      (∀ c ∈ eng.checkpoints.live, c ∈ t.live) ∧
      RobEntry.Fixes g ∧ (∀ e, (g e).state = e.state) ∧ (∀ e, (g e).result = e.result) ∧
      ∀ e, (g e).trap = e.trap := by
  have hsame : ∃ t g, eng = { eng with checkpoints := t, rob := { eng.rob with entries := eng.rob.entries.map g } } ∧
      (∀ c ∈ t.live, c = ⟨tag, eng.renameMap⟩ ∨ c ∈ eng.checkpoints.live) ∧
      (∀ c ∈ eng.checkpoints.live, c ∈ t.live) ∧
      RobEntry.Fixes g ∧ (∀ e, (g e).state = e.state) ∧ (∀ e, (g e).result = e.result) ∧
      ∀ e, (g e).trap = e.trap :=
    ⟨eng.checkpoints, fun e => e, by simp, fun _ h => Or.inr h, fun _ h => h, fun _ => rfl, fun _ => rfl, fun _ => rfl,
      fun _ => rfl⟩
  unfold takeCheckpoint
  split
  · have hnew := @CheckpointTable.mem_live_allocate eng.checkpoints tag eng.renameMap
    have hold := @CheckpointTable.mem_live_allocate_old eng.checkpoints tag eng.renameMap
    revert hnew hold
    generalize eng.checkpoints.allocate tag eng.renameMap = r
    obtain ⟨c, t⟩ := r
    intro hnew hold
    cases c with
    | none => exact hsame
    | some c =>
      refine ⟨t, fun e => if e.tag = tag then { e with checkpointId := some c } else e, rfl,
        fun _ h => hnew h, fun _ h => hold h,
        RobEntry.Fixes.ite (g := fun e => { e with checkpointId := some c }) (fun _ => rfl) _, ?_, ?_, ?_⟩ <;>
        intro e <;> by_cases h : e.tag = tag <;> simp [h]
  · exact hsame

/-- The buffer with the new entry. -/
def grownRob (s : O3State U) (id : IdExEntry) (p old : PhysReg) : Rob :=
  { s.eng.rob with
    entries := s.eng.rob.entries ++ [newEntry s id p old], nextTag := s.eng.rob.nextTag.next }

/-- The engine once the destination is bound. -/
def boundEng (s : O3State U) (id : IdExEntry) (p old : PhysReg) (fl : FreeList) : O3Engine :=
  { s.eng with
    freeList := fl
    rob := grownRob s id p old
    renameMap := s.eng.renameMap.applyEntry (newEntry s id p old)
    prf := if id.needsDst then s.eng.prf.allocate p else s.eng.prf }

/-- Binding the destination is what `applyEntry` does. -/
theorem bindDst_eq (id : IdExEntry) (hone : id.ctrl.OneFile) (p old : PhysReg) (fl : FreeList) :
    bindDst { s.eng with freeList := fl, rob := grownRob s id p old } id p = boundEng s id p old fl := by
  unfold bindDst boundEng
  rw [RenameMap.applyEntry_eq _ _ (show (newEntry s id p old).ctrl.OneFile from hone), newEntry_writesReg]
  split
  · rfl
  · rfl

/-- When nothing fails, the checkpoint is taken last. -/
theorem renameOne_true {s : O3State U} {id : IdExEntry} {p old : PhysReg} {fl : FreeList} {tag : RobTag} {rob : Rob}
    {eng : O3Engine}
    (hdst : allocDst s.eng id = some (p, old, fl))
    (hrob : s.eng.rob.allocate id.pc id.inst id.instSize id.rd id.ctrl.fpRegWrite id.ctrl p old = some (tag, rob))
    (hmem : allocMem (bindDst { s.eng with freeList := fl, rob := rob } id p) id tag = (true, eng)) :
    renameOne s id = (true, { s with
      eng := takeCheckpoint eng id tag
      renameOutput := s.renameOutput ++ [renamedEntry s.eng.renameMap id tag p] }) := by
  simp only [renameOne, hdst, hrob, hmem]

/-- **Within its budget rename succeeds.** -/
theorem renameOne_renamed {n : Nat} (hb : Budget s (n + 1)) {id : IdExEntry} (hone : id.ctrl.OneFile) :
    ∃ s', renameOne s id = (true, s') ∧ Renamed s id s' := by
  obtain ⟨p, old, fl, hdst, htakes, hold, havail⟩ := allocDst_some hb id
  have hrob := rob_allocate hb id p old
  have hsb0 := hb.sb
  have hlq0 := hb.lq
  obtain ⟨sb, lq, hmem, hsb, hlq, hran⟩ := @allocMem_true (boundEng s id p old fl)
    (by simp only [boundEng]; omega) (by simp only [boundEng]; omega) id s.eng.rob.nextTag
  obtain ⟨t, g, hck, hnew, holdc, hfix, hst, hres, htr⟩ := takeCheckpoint_eq
    { boundEng s id p old fl with sb := sb, lq := lq } id s.eng.rob.nextTag
  refine ⟨{ s with
      eng := { boundEng s id p old fl with
        sb := sb
        lq := lq
        checkpoints := t
        rob := { grownRob s id p old with entries := (grownRob s id p old).entries.map g } }
      renameOutput := s.renameOutput ++ [renamedEntry s.eng.renameMap id s.eng.rob.nextTag p] }, ?_,
    ⟨p, old, fl, htakes, hold, havail, rfl, ⟨g, hfix, hst, hres, htr, rfl⟩, rfl, rfl, rfl⟩, rfl, hnew, holdc, rfl,
    rfl, rfl, rfl, fun t ht => (hran t).mp ht, fun t ht => (hran t).mpr ht, hsb, hlq⟩
  · have hbound := bindDst_eq (s := s) id hone p old fl
    rw [renameOne_true hdst hrob ((congrArg (allocMem · id s.eng.rob.nextTag) hbound).trans hmem), hck]
    rfl

/-- With `k` more tags given out everything is still within half the tag space. -/
structure Spare (s : O3State U) (k : Nat) : Prop where
  entries : ∀ e ∈ s.eng.rob.entries, Serial.age s.eng.rob.nextTag e.tag + k < Serial.half 32
  ckpts : ∀ c ∈ s.eng.checkpoints.live, Serial.age s.eng.rob.nextTag c.branchTag + k < Serial.half 32
  ran : ∀ t ∈ s.eng.lq.ran, Serial.age s.eng.rob.nextTag t + k < Serial.half 32

namespace Renamed

variable {id : IdExEntry}

theorem next (hr : Renamed s id s') :
    s'.eng.rob.nextTag = s.eng.rob.nextTag + BitVec.ofNat 32 (RenInv.tagStep s.eng.rob.nextTag) := by
  obtain ⟨p, old, fl, -, -, -, -, ⟨g, -, -, -, -, hrob⟩, -⟩ := hr.alloc
  rw [hrob]
  exact RenInv.next_eq _

theorem tags (hr : Renamed s id s') :
    s'.eng.rob.entries.map (·.tag) = s.eng.rob.entries.map (·.tag) ++ [s.eng.rob.nextTag] := by
  obtain ⟨p, old, fl, -, -, -, -, ⟨g, hfix, -, -, -, hrob⟩, -⟩ := hr.alloc
  rw [hrob, List.map_map]
  have : ((fun e : RobEntry => e.tag) ∘ g) = fun e => e.tag := funext fun e => hfix.tag e
  rw [this]
  simp [newEntry]

theorem outputTags (hr : Renamed s id s') :
    s'.renameOutput.map (·.robTag) = s.renameOutput.map (·.robTag) ++ [s.eng.rob.nextTag] := by
  obtain ⟨p, old, fl, -, -, -, -, -, -, -, hout⟩ := hr.alloc
  rw [hout, List.map_append]
  rfl

theorem age_old (hr : Renamed s id s') {t : RobTag}
    (h : Serial.age s.eng.rob.nextTag t + RenInv.tagStep s.eng.rob.nextTag < Serial.half 32) :
    Serial.age s'.eng.rob.nextTag t =
      Serial.age s.eng.rob.nextTag t + RenInv.tagStep s.eng.rob.nextTag := by
  have hhalf : Serial.half 32 < 2 ^ 32 := by decide
  rw [hr.next]
  exact Serial.age_advance _ (by omega)

theorem age_new (hr : Renamed s id s') :
    Serial.age s'.eng.rob.nextTag s.eng.rob.nextTag = RenInv.tagStep s.eng.rob.nextTag := by
  have hle := RenInv.tagStep_le s.eng.rob.nextTag
  rw [hr.next, Serial.age_advance _ (by rw [Serial.age_self]; omega), Serial.age_self, Nat.zero_add]

/-- **One rename.** -/
theorem inv (hr : Renamed s id s') (h : O3Inv D total s) (hone : id.ctrl.OneFile)
    (hroom : s.eng.iq.Room (s.renameOutput.length + 1))
    (hspare : Spare s (RenInv.tagStep s.eng.rob.nextTag)) (hD : D → s'.eng.rob.NoWrap) : O3Inv D total s' := by
  have hpos := RenInv.tagStep_pos s.eng.rob.nextTag
  have hle := RenInv.tagStep_le s.eng.rob.nextTag
  obtain ⟨p, old, fl, htakes, hold, -, hfl, ⟨g, hfix, hst, hres, htr, hrob⟩, hmap, hprf, hout⟩ := hr.alloc
  have hw : (renamedEntry s.eng.renameMap id s.eng.rob.nextTag p).bare =
      renamedEntry s.eng.renameMap id s.eng.rob.nextTag p := rfl
  have hsrc : SourcesOk s.eng.renameMap (renamedEntry s.eng.renameMap id s.eng.rob.nextTag p) := by
    refine ⟨rfl, rfl, fun h3 => ?_⟩
    have h3' : id.ctrl.rs3Fp = true := h3
    simp only [renamedEntry, h3', if_true]
    rfl
  have halloc := h.flight.alloc_inv (e := newEntry s id p old)
    (w := renamedEntry s.eng.renameMap id s.eng.rob.nextTag p)
    ⟨lt_of_le_of_lt hle (by decide), ?_, hspare.ckpts⟩ rfl rfl hone htakes hold rfl hsrc
  · have hsnap := halloc.snapshot (show _ = s.eng.rob.entries ++ [_] from rfl) s'.eng.checkpoints (fun c hc => ?_)
    · have htouch := hsnap.touch hfix hst hres htr
      refine ⟨?_, ?_, ?_, ?_, hD, ?_, ?_⟩
      · have hview : s'.flight = Flight.mapEntries { FlightInv.alloc s.flight (newEntry s id p old) fl
            (renamedEntry s.eng.renameMap id s.eng.rob.nextTag p) with checkpoints := s'.eng.checkpoints } g := by
          simp only [Flight.mapEntries, FlightInv.alloc, O3State.flight, O3State.waiting, hrob, hfl, hmap,
            hr.committedMap, hprf, hr.cpu, hr.iq, hout, hr.flying, List.map_append, List.map_cons, List.map_nil, hw,
            List.append_assoc, newEntry_writesReg]
          rfl
        exact hview ▸ htouch
      · rw [hr.cpu]
        exact h.mshrs
      · rw [hr.pending]
        exact h.written
      · rw [hr.iq, hout, List.length_append]
        exact hroom
      · -- the new instruction is the youngest; the older ones keep their order
        intro w hwm
        refine ⟨fun e he hne => ?_, fun t htr => ?_⟩
        · rw [hr.outputTags] at hne
          simp only [List.mem_append, List.mem_singleton, not_or] at hne
          have hetag : e.tag ∈ s.eng.rob.entries.map (·.tag) := by
            have := List.mem_map_of_mem (f := (·.tag)) he
            rw [hr.tags] at this
            rcases List.mem_append.mp this with h' | h'
            · exact h'
            · exact absurd (List.mem_singleton.mp h') hne.2
          obtain ⟨x, hx, hxt⟩ := List.mem_map.mp hetag
          have hxs := hspare.entries x hx
          rw [hxt] at hxs
          rw [hr.age_old hxs]
          rw [hout] at hwm
          rcases List.mem_append.mp hwm with hwm' | hwm'
          · have hlt := (h.young w hwm').entries x hx (by rw [hxt]; exact hne.1)
            rw [hxt] at hlt
            rw [hr.age_old (by omega)]
            omega
          · rw [List.mem_singleton.mp hwm']
            have hage := (h.flight.window.bounded e.tag hetag).1
            have hnew := hr.age_new
            change Serial.age s'.eng.rob.nextTag s.eng.rob.nextTag < _
            change 0 < Serial.age s.eng.rob.nextTag e.tag at hage
            omega
        · have htr' := hr.ran t htr
          have hts := hspare.ran t htr'
          rw [hr.age_old hts]
          rw [hout] at hwm
          rcases List.mem_append.mp hwm with hwm' | hwm'
          · have hlt := (h.young w hwm').loads t htr'
            rw [hr.age_old (by omega)]
            omega
          · rw [List.mem_singleton.mp hwm']
            have hage := (h.ran t htr').1
            have hnew := hr.age_new
            change Serial.age s'.eng.rob.nextTag s.eng.rob.nextTag < _
            omega
      · intro t htr
        have htr' := hr.ran t htr
        have hts := hspare.ran t htr'
        rw [hr.age_old hts]
        exact ⟨by omega, hts⟩
    · rcases hr.ckpts c hc with rfl | hc'
      · exact Or.inl (by rw [hmap]; rfl)
      · exact Or.inr hc'
  · intro e he
    obtain ⟨x, hx, rfl⟩ := List.mem_map.mp he
    exact hspare.entries x hx

theorem budget (hr : Renamed s id s') {n : Nat} (hb : Budget s (n + 1)) : Budget s' n := by
  obtain ⟨p, old, fl, -, -, havail, hfl, ⟨g, -, -, -, -, hrob⟩, -, -, hout⟩ := hr.alloc
  have h1 := hb.rob
  have h2 := hb.sb
  have h3 := hb.lq
  have h4 := hb.free
  have h5 := hr.sb
  have h6 := hr.lq
  refine ⟨?_, by omega, by omega, ?_, ?_⟩
  · rw [hrob]
    simp only [Rob.freeSlots, List.length_map, List.length_append, List.length_singleton] at h1 ⊢
    omega
  · rw [hfl]
    omega
  · have := hb.iq
    rw [hr.iq, hout]
    simp only [IssueQueue.Room, List.length_append, List.length_singleton] at this ⊢
    omega

end Renamed

/-! ### The loop -/

/-- What rename leaves of what was there: all of it, `k` tags further on. -/
structure Grows (s s' : O3State U) (k : Nat) : Prop where
  next : s'.eng.rob.nextTag = s.eng.rob.nextTag + BitVec.ofNat 32 k
  tags : (s.eng.rob.entries.map (·.tag)).Sublist (s'.eng.rob.entries.map (·.tag))
  ckpts : ∀ c ∈ s.eng.checkpoints.live, c ∈ s'.eng.checkpoints.live
  ran : ∀ t ∈ s.eng.lq.ran, t ∈ s'.eng.lq.ran

theorem Grows.refl (s : O3State U) : Grows s s 0 :=
  ⟨by simp, List.Sublist.refl _, fun _ h => h, fun _ h => h⟩

theorem Renamed.grows {id : IdExEntry} (hr : Renamed s id s') :
    Grows s s' (RenInv.tagStep s.eng.rob.nextTag) :=
  ⟨hr.next, by rw [hr.tags]; exact List.sublist_append_left _ _, hr.oldCkpts, hr.oldRan⟩

theorem Grows.trans {a b c : O3State U} {j k : Nat} (h : Grows a b j) (h' : Grows b c k) : Grows a c (j + k) := by
  refine ⟨?_, h.tags.trans h'.tags, fun x hx => h'.ckpts x (h.ckpts x hx), fun t ht => h'.ran t (h.ran t ht)⟩
  rw [h'.next, h.next, BitVec.add_assoc, ← BitVec.ofNat_add]

/-- What was within half the space, and is so `k` tags later, had `k` tags to spare. -/
theorem Grows.spare {k : Nat} (hg : Grows s s' k) (hk : k < 2 ^ 31) (h : s.SpanOk) (h' : s'.SpanOk) : Spare s k := by
  have hhalf : Serial.half 32 = 2 ^ 31 := rfl
  have hage : ∀ t, Serial.age s.eng.rob.nextTag t < Serial.half 32 →
      Serial.age s'.eng.rob.nextTag t = Serial.age s.eng.rob.nextTag t + k := by
    intro t ht
    rw [hg.next]
    exact Serial.age_advance k (by omega)
  refine ⟨fun e he => ?_, fun c hc => ?_, fun t htr => ?_⟩
  · obtain ⟨x, hx, hxt⟩ := List.mem_map.mp (hg.tags.subset (List.mem_map_of_mem he))
    rw [← hage _ (h.entries e he), ← hxt]
    exact h'.entries x hx
  · rw [← hage _ (h.ckpts c hc)]
    exact h'.ckpts c (hg.ckpts c hc)
  · rw [← hage _ (h.ran t htr)]
    exact h'.ran t (hg.ran t htr)

theorem Spare.mono {j k : Nat} (h : Spare s k) (hjk : j ≤ k) : Spare s j :=
  ⟨fun e he => by have := h.entries e he; omega, fun c hc => by have := h.ckpts c hc; omega,
    fun t ht => by have := h.ran t ht; omega⟩

/-- After a rename with tags to spare everything is within half the space again. -/
theorem Renamed.spanOk {id : IdExEntry} (hr : Renamed s id s')
    (h : Spare s (RenInv.tagStep s.eng.rob.nextTag)) : s'.SpanOk := by
  have hnew : Serial.age s'.eng.rob.nextTag s.eng.rob.nextTag < Serial.half 32 := by
    rw [hr.age_new]
    exact lt_of_le_of_lt (RenInv.tagStep_le _) (by decide)
  refine ⟨fun e he => ?_, fun c hc => ?_, fun t htr => ?_⟩
  · have hmem := List.mem_map_of_mem (f := (·.tag)) he
    rw [hr.tags] at hmem
    rcases List.mem_append.mp hmem with h' | h'
    · obtain ⟨x, hx, hxt⟩ := List.mem_map.mp h'
      have := h.entries x hx
      rw [← hxt, hr.age_old this]
      exact this
    · rw [List.mem_singleton.mp h']
      exact hnew
  · rcases hr.ckpts c hc with rfl | hc'
    · exact hnew
    · rw [hr.age_old (h.ckpts c hc')]
      exact h.ckpts c hc'
  · have := h.ran t (hr.ran t htr)
    rw [hr.age_old this]
    exact this

/-- The loop takes instructions off its input one by one, each of them renamed. -/
inductive RenameRun : Nat → O3State U → List IdExEntry → List IdExEntry × O3State U → Prop where
  | stop (n : Nat) (s : O3State U) (ids : List IdExEntry) : RenameRun n s ids (ids, s)
  | step {n : Nat} {s s' : O3State U} {id : IdExEntry} {ids : List IdExEntry}
      {r : List IdExEntry × O3State U} (hr : Renamed s id s') (hrest : RenameRun n s' ids r) :
      RenameRun (n + 1) s (id :: ids) r

theorem renameLoop_run (n : Nat) (s : O3State U) (ids : List IdExEntry) (hb : Budget s n)
    (hone : ∀ id ∈ ids, id.ctrl.OneFile) : RenameRun n s ids (renameLoop n s ids) := by
  induction n generalizing s ids with
  | zero => cases ids <;> exact .stop _ _ _
  | succ n ih =>
    cases ids with
    | nil => exact .stop _ _ _
    | cons id ids =>
      rw [renameLoop]
      by_cases hc : checkpointStall s.eng id
      · rw [if_pos hc]
        exact .stop _ _ _
      · rw [if_neg hc]
        obtain ⟨s', heq, hr⟩ := renameOne_renamed hb (hone id (by simp))
        rw [heq]
        exact .step hr (ih s' ids (hr.budget hb) fun x hx => hone x (by simp [hx]))

/-- An instruction that is in the buffer to the end is not too far behind there. -/
theorem Renamed.grows_lt {id : IdExEntry} {t : O3State U} {k : Nat} (hr : Renamed s id s') (hg : Grows s' t k)
    (hk : k < Serial.half 32) (hspan : t.SpanOk) :
    RenInv.tagStep s.eng.rob.nextTag + k < Serial.half 32 := by
  have hle := RenInv.tagStep_le s.eng.rob.nextTag
  have hhalf : Serial.half 32 = 2 ^ 31 := rfl
  have hmem : s.eng.rob.nextTag ∈ t.eng.rob.entries.map (·.tag) := hg.tags.subset (by rw [hr.tags]; simp)
  obtain ⟨e, he, het⟩ := List.mem_map.mp hmem
  have hage := hspan.entries e he
  rwa [het, (hr.grows.trans hg).next, Serial.age_advance _ (by rw [Serial.age_self]; omega), Serial.age_self,
    Nat.zero_add] at hage

/-- Ending within half the tag space, the loop gave out fewer tags than that. -/
theorem RenameRun.grows {n : Nat} {ids : List IdExEntry} {r : List IdExEntry × O3State U}
    (h : RenameRun n s ids r) (hspan : r.2.SpanOk) : ∃ k, k < Serial.half 32 ∧ Grows s r.2 k := by
  induction h with
  | stop n s ids => exact ⟨0, by decide, Grows.refl s⟩
  | step hr hrest ih =>
    obtain ⟨k, hk, hg⟩ := ih hspan
    exact ⟨_, hr.grows_lt hg hk hspan, hr.grows.trans hg⟩

theorem RenameRun.cpu {n : Nat} {ids : List IdExEntry} {r : List IdExEntry × O3State U}
    (h : RenameRun n s ids r) : r.2.cpu = s.cpu ∧ ∀ id ∈ r.1, id ∈ ids := by
  induction h with
  | stop n s ids => exact ⟨rfl, fun _ h => h⟩
  | step hr _ ih => exact ⟨ih.1.trans hr.cpu, fun id hid => List.mem_cons_of_mem _ (ih.2 id hid)⟩

/-- **The rename loop.** -/
theorem RenameRun.inv {n : Nat} {ids : List IdExEntry} {r : List IdExEntry × O3State U}
    (hrun : RenameRun n s ids r) (hb : Budget s n)
    (h : O3Inv D total s) (hone : ∀ id ∈ ids, id.ctrl.OneFile) (hspan : s.SpanOk) (hspan' : r.2.SpanOk)
    (hD : D → r.2.eng.rob.NoWrap) : O3Inv D total r.2 := by
  induction hrun with
  | stop n s ids => exact h
  | step hr hrest ih =>
    rename_i n s s' id ids r
    obtain ⟨k, hk, hg⟩ := hrest.grows hspan'
    have hspare := ((hr.grows.trans hg).spare (hr.grows_lt hg hk hspan') hspan hspan').mono
      (Nat.le_add_right (RenInv.tagStep s.eng.rob.nextTag) k)
    have hroom : s.eng.iq.Room (s.renameOutput.length + 1) := by
      have := hb.iq
      simp only [IssueQueue.Room] at this ⊢
      omega
    have hinv := hr.inv h (hone id (by simp)) hroom hspare fun hd => (hD hd).sublist hg.tags
    exact ih (hr.budget hb) hinv (fun x hx => hone x (by simp [hx])) (hr.spanOk hspare) hspan' hD

/-- The budget rename computes is one. -/
theorem budget_canAccept (ho : s.renameOutput = []) : Budget s (canAccept s.eng) := by
  have hiq := s.eng.iq.length_entries_add_available
  unfold canAccept
  by_cases hstall : s.eng.squashStallRemaining > 0
  · rw [if_pos hstall]
    refine ⟨Nat.zero_le _, Nat.zero_le _, Nat.zero_le _, Nat.zero_le _, ?_⟩
    rw [IssueQueue.Room, IssueQueue.length_bares, ho, List.length_nil]
    omega
  · rw [if_neg hstall]
    refine ⟨by omega, by omega, by omega, by omega, ?_⟩
    rw [IssueQueue.Room, IssueQueue.length_bares, ho, List.length_nil]
    omega

/-- **The rename stage.** -/
theorem renameStage_inv {ids : List IdExEntry} (h : O3Inv D total s) (ho : s.renameOutput = [])
    (hone : ∀ id ∈ ids, id.ctrl.OneFile) (hspan : s.SpanOk) (hspan' : (renameStage s ids).2.SpanOk)
    (hD : D → (renameStage s ids).2.eng.rob.NoWrap) : O3Inv D total (renameStage s ids).2 :=
  (renameLoop_run _ s ids (budget_canAccept ho) hone).inv (budget_canAccept ho) h hone hspan hspan' hD

theorem renameStage_cpu {ids : List IdExEntry} (ho : s.renameOutput = []) (hone : ∀ id ∈ ids, id.ctrl.OneFile) :
    (renameStage s ids).2.cpu = s.cpu ∧ ∀ id ∈ (renameStage s ids).1, id ∈ ids :=
  (renameLoop_run _ s ids (budget_canAccept ho) hone).cpu

end O3

end Rvsim
