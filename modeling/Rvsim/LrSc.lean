/-
# Load-reserved and store-conditional

Memory2 takes every store-conditional for a success; commit checks the
reservation and undoes the ones that fail. Here commit runs beside the log of
the store buffer and beside the reservation as it ought to be: set by the last
load-reserved, lost to a store that writes a byte of its granule and to a
store-conditional that succeeds.

Commit compares the granule of a store's first byte only. So the reservation
survives a store that starts in the granule before and ends in it.

Key definitions:
  - `LrScRun`: commit, the store log and the reservation as it ought to be
  - `LrScRun.ScRight`, `LrScRun.Retires`, `LrScRun.Guarded`
Key theorems:
  - `LrScRun.step_inv`, `LrScRun.scRight_of_guarded`, `LrScRun.runs_right`
-/
import Rvsim.O3Run
import Rvsim.StoreRing

namespace Rvsim

variable {U : Type}

/-! ### What retiring does -/

namespace CommitState

/-- The part of retiring before the LR/SC check. -/
def retireHead [Units U] (s : CommitState U) (e : RobEntry) : CommitState U :=
  ((s.retirePc e).retireReg e).retireRecords e

theorem retire_eq [Units U] (s : CommitState U) (e : RobEntry) : s.retire e = (s.retireHead e).retireEffects e := rfl

theorem writeStoreToMemory_state [Units U] (c : Cpu U) (a : PhysAddr) (d : U64) (w : MemWidth) :
    (c.writeStoreToMemory a d w).loadReservation = c.loadReservation ∧ (c.writeStoreToMemory a d w).pc = c.pc ∧
      (c.writeStoreToMemory a d w).regs = c.regs := by
  unfold Cpu.writeStoreToMemory
  split
  · exact ⟨rfl, rfl, rfl⟩
  · split <;> exact ⟨rfl, rfl, rfl⟩

/-- Before the check nothing happens to the store buffer, the reservation, the pc and the register file of
renamed registers. -/
theorem retireHead_state [Units U] (s : CommitState U) (e : RobEntry) :
    (s.retireHead e).sb = s.sb ∧ (s.retireHead e).prf = s.prf ∧
      (s.retireHead e).cpu.loadReservation = s.cpu.loadReservation ∧ (s.retireHead e).cpu.pc = s.cpu.pc ∧
      (s.retireHead e).cpu.regs = (s.retireReg e).cpu.regs := by
  have hreg : ((s.retirePc e).retireReg e).sb = s.sb ∧ ((s.retirePc e).retireReg e).prf = s.prf ∧
      ((s.retirePc e).retireReg e).cpu.loadReservation = s.cpu.loadReservation ∧
      ((s.retirePc e).retireReg e).cpu.pc = s.cpu.pc ∧
      ((s.retirePc e).retireReg e).cpu.regs = (s.retireReg e).cpu.regs := by
    unfold retireReg
    dsimp only
    split
    · exact ⟨rfl, rfl, rfl, rfl, rfl⟩
    · split <;> exact ⟨rfl, rfl, rfl, rfl, rfl⟩
  have hrec : ∀ c : CommitState U, (c.retireRecords e).sb = c.sb ∧ (c.retireRecords e).prf = c.prf ∧
      (c.retireRecords e).cpu.loadReservation = c.cpu.loadReservation ∧ (c.retireRecords e).cpu.pc = c.cpu.pc ∧
      (c.retireRecords e).cpu.regs = c.cpu.regs := by
    intro c
    unfold retireRecords
    cases e.pteUpdate with
    | none =>
      dsimp only
      split <;> exact ⟨rfl, rfl, rfl, rfl, rfl⟩
    | some u =>
      have hw := writeStoreToMemory_state c.cpu u.pteAddr u.pteValue .double
      dsimp only
      split <;> exact ⟨rfl, rfl, hw.1, hw.2.1, hw.2.2⟩
  have h := hrec ((s.retirePc e).retireReg e)
  exact ⟨h.1.trans hreg.1, h.2.1.trans hreg.2.1, h.2.2.1.trans hreg.2.2.1, h.2.2.2.1.trans hreg.2.2.2.1,
    h.2.2.2.2.trans hreg.2.2.2.2⟩

/-- Without a page-table update it leaves memory alone as well. -/
theorem retireHead_mem [Units U] (s : CommitState U) {e : RobEntry} (h : e.pteUpdate = none) :
    (s.retireHead e).cpu.mem = s.cpu.mem := by
  have hreg : ((s.retirePc e).retireReg e).cpu.mem = s.cpu.mem := by
    unfold retireReg
    dsimp only
    split
    · rfl
    · split <;> rfl
  unfold retireHead retireRecords
  rw [h]
  dsimp only
  split <;> exact hreg

/-- Whether the store of `e` ends the reservation. -/
def storeHits (s : CommitState U) (e : RobEntry) : Bool :=
  e.ctrl.memWrite && e.lrSc.isNone && ((s.sb.findPaddr e.tag).elim false fun a => s.cpu.checkReservation a)

theorem retireMem_state (s : CommitState U) (e : RobEntry) :
    (s.retireMem e).sb = (if e.ctrl.memWrite then s.sb.markCommitted e.tag else s.sb) ∧
      (s.retireMem e).cpu.loadReservation = (if s.storeHits e then none else s.cpu.loadReservation) ∧
      (s.retireMem e).cpu.pc = s.cpu.pc ∧ (s.retireMem e).cpu.regs = s.cpu.regs := by
  have hcpu : ∀ hit : Bool, (if hit then s.cpu.clearReservation else s.cpu).loadReservation =
      (if hit then none else s.cpu.loadReservation) ∧ (if hit then s.cpu.clearReservation else s.cpu).pc = s.cpu.pc ∧
      (if hit then s.cpu.clearReservation else s.cpu).regs = s.cpu.regs := by
    intro hit
    cases hit <;> exact ⟨rfl, rfl, rfl⟩
  unfold retireMem storeHits
  dsimp only
  cases e.ctrl.memWrite with
  | false => cases e.ctrl.memRead <;> cases e.checkpointId <;> exact ⟨rfl, rfl, rfl, rfl⟩
  | true =>
    rw [Bool.true_and]
    cases e.ctrl.memRead <;> cases e.checkpointId <;> exact ⟨rfl, hcpu _⟩

/-- The end of an iteration for what is no fence. -/
theorem retireTail_state [Units U] (s : CommitState U) {e : RobEntry} (hi : e.ctrl.systemOp ≠ .fenceI)
    (hf : e.ctrl.systemOp ≠ .fence) :
    (s.retireTail e).1 = e.sfenceVma.isNone ∧ (s.retireTail e).2.sb = (s.retireMem e).sb ∧
      (s.retireTail e).2.cpu.loadReservation =
        (if e.sfenceVma.isSome then none else (s.retireMem e).cpu.loadReservation) ∧
      (e.sfenceVma = none → (s.retireTail e).2.cpu.regs = (s.retireMem e).cpu.regs ∧
        (s.retireTail e).2.cpu.pc = s.cpu.pc) := by
  have hpc := (s.retireMem_state e).2.2.1
  unfold retireTail retireFence
  dsimp only
  rw [if_neg hi, if_neg fun h => hf h.1]
  cases e.sfenceVma with
  | none => exact ⟨rfl, rfl, rfl, fun _ => ⟨rfl, hpc⟩⟩
  | some i => exact ⟨rfl, rfl, rfl, fun h => absurd h (by simp)⟩

end CommitState

/-! ### Commit beside the reservation as it ought to be -/

/-- A store of this width at `a` writes a byte of granule `g`. -/
def writesGranule (a : PhysAddr) (w : MemWidth) (g : PhysAddr) : Bool :=
  (List.range w.bytes).any fun k => Cpu.alignReservationAddress (a + BitVec.ofNat 64 k) == g

/-- Address and width of the store with this tag. -/
def StoreBuffer.storeOf (b : StoreBuffer) (tag : RobTag) : Option (PhysAddr × MemWidth) :=
  (b.entries.find? fun e => e.robTag == tag).bind fun e => e.resolution.paddr.map fun a => (a, e.width)

theorem StoreBuffer.findPaddr_eq (b : StoreBuffer) (tag : RobTag) : b.findPaddr tag = (b.storeOf tag).map (·.1) := by
  unfold findPaddr storeOf
  rw [Option.map_bind]
  congr 1
  funext e
  simp [Option.map_map, Function.comp_def]

/-- Commit, the history of the store buffer, and the granule that the last load-reserved reserved if no
store has written to it and no store-conditional has succeeded since. -/
structure LrScRun (U : Type) where
  st : CommitState U
  log : StoreLog
  reserved : Option PhysAddr

inductive LrScEvent where
  /-- Rename gives a store its slot. -/
  | allocate (n : Nat) (w : MemWidth)
  /-- Memory2 resolves a store, a store-conditional or an AMO. -/
  | resolve (tag : RobTag) (vaddr : VirtAddr) (paddr : PhysAddr) (data : U64)
  /-- Everything newer than the `n`-th instruction is squashed. -/
  | squash (n : Nat)
  | drain
  | retire (e : RobEntry)
  | trap (t : Trap) (epc : U64)
  deriving DecidableEq, Repr

namespace LrScRun

section

variable [Units U]

/-- What retiring `e` does to the store buffer. -/
def storeOps (s : LrScRun U) (e : RobEntry) : List StoreOp :=
  match e.lrSc with
  | some (.sc a) => if s.st.cpu.checkReservation a then [.markCommitted e.tag] else [.cancel e.tag]
  | _ => if e.ctrl.memWrite then [.markCommitted e.tag] else []

/-- Commit stopped at `e` and the engine found the pc changed, so it flushes. -/
def refetches (s : LrScRun U) (e : RobEntry) : Bool :=
  !(s.st.retire e).1 && (s.st.retire e).2.cpu.pc != s.st.cpu.pc

/-- The store of `e` writes into the reserved granule. -/
def storeWrites (s : LrScRun U) (e : RobEntry) : Bool :=
  match s.reserved, s.st.sb.storeOf e.tag with
  | some g, some (a, w) => writesGranule a w g
  | _, _ => false

def reservedAfter (s : LrScRun U) (e : RobEntry) : Option PhysAddr :=
  match e.lrSc with
  | some (.lr a) => some (Cpu.alignReservationAddress a)
  | some (.sc _) => if (s.st.retire e).1 then none else s.reserved
  | none => if e.ctrl.memWrite && s.storeWrites e then none else s.reserved

/-- A call on the store buffer from outside commit. -/
def storeStep (s : LrScRun U) (op : StoreOp) : LrScRun U :=
  { s with st := { s.st with sb := (s.st.sb.step op).2 }, log := s.log.step op }

def step (s : LrScRun U) : LrScEvent → LrScRun U
  | .allocate n w => s.storeStep (.allocate n w)
  | .resolve t v p d => s.storeStep (.resolve t v p d)
  | .squash n => s.storeStep (.flushAfter n)
  | .drain =>
    let (cpu, sb) := drainOneStore s.st.cpu s.st.sb
    { s with st := { s.st with cpu := cpu, sb := sb }, log := s.log.step .drainOne }
  | .retire e =>
    let st := (s.st.retire e).2
    let log := s.log.run (s.storeOps e)
    if s.refetches e then
      { st := { st with sb := st.sb.flushSpeculative }, log := log.step .flushSpeculative,
          reserved := s.reservedAfter e }
    else { st := st, log := log, reserved := s.reservedAfter e }
  | .trap t epc =>
    { s with
      st := { s.st with cpu := s.st.cpu.trap t epc, sb := s.st.sb.flushSpeculative }
      log := s.log.step .flushSpeculative }

end

/-- What the pipelines retire: neither a CSR write nor a fence nor WFI; a store was resolved by memory2 and
is the oldest; memory2 has resolved a store-conditional at the address it records, with 0 as its result. -/
structure Retires (s : LrScRun U) (e : RobEntry) : Prop where
  csr : e.csrUpdate = none
  op : e.ctrl.systemOp = .none ∨
    ((e.ctrl.systemOp = .sfenceVma ∨ e.ctrl.systemOp = .mret ∨ e.ctrl.systemOp = .sret) ∧ e.ctrl.memWrite = false ∧
      e.lrSc = none)
  sfence : e.sfenceVma.isSome = true → e.ctrl.systemOp = .sfenceVma
  store : e.ctrl.memWrite = true → s.log.Legal (.markCommitted e.tag)
  lr : ∀ a, e.lrSc = some (.lr a) → e.ctrl.memWrite = false
  sc : ∀ a, e.lrSc = some (.sc a) → e.ctrl.memWrite = true ∧ e.ctrl.regWrite = true ∧ e.ctrl.fpRegWrite = false ∧
    e.result = some 0 ∧ s.st.sb.findPaddr e.tag = some a

/-- The event is one the pipelines make. -/
def Legal (s : LrScRun U) : LrScEvent → Prop
  | .allocate n w => s.log.Legal (.allocate n w)
  | .resolve t v p d => s.log.Legal (.resolve t v p d)
  | .squash n => s.log.Legal (.flushAfter n)
  | .drain => True
  | .retire e => s.Retires e
  | .trap _ _ => True

/-- A store that writes into the reserved granule starts in it. A store-conditional that fails needs no
page-table update, and does not fall through to the pc that is fetched from. -/
def Guarded (s : LrScRun U) : LrScEvent → Prop
  | .retire e =>
    (e.ctrl.memWrite = true → e.lrSc = none → ∀ a w g, s.st.sb.storeOf e.tag = some (a, w) → s.reserved = some g →
      writesGranule a w g = true → Cpu.alignReservationAddress a = g) ∧
    ∀ a, e.lrSc = some (.sc a) → s.st.cpu.checkReservation a = false → e.pteUpdate = none ∧ e.fallThrough ≠ s.st.cpu.pc
  | _ => True

section

variable [Units U]

/-- What a retired store-conditional ought to do. -/
structure ScRight (s : LrScRun U) (e : RobEntry) (a : PhysAddr) : Prop where
  /-- Success needs the reservation; it returns 0 and commits its store. -/
  success : (s.st.retire e).1 = true → s.reserved = some (Cpu.alignReservationAddress a) ∧
    (s.step (.retire e)).st.cpu.regs.read e.rd = 0 ∧
    ∃ i d, i.2.robTag = e.tag ∧ i.2.resolution = .committed a d ∧
        (s.step (.retire e)).log.committed = s.log.committed ++ [i]
  /-- Failure returns 1, in the renamed registers as well, writes nothing, commits nothing, and of the
  stores only the ones already committed are left. -/
  failure : (s.st.retire e).1 = false → (e.rd.isZero = false → (s.step (.retire e)).st.cpu.regs.read e.rd = 1 ∧
      (s.step (.retire e)).st.prf = s.st.prf.map fun f => f.write e.physDst 1) ∧
    (s.step (.retire e)).st.cpu.mem = s.st.cpu.mem ∧ (s.step (.retire e)).log.drained = s.log.drained ∧
    (s.step (.retire e)).log.committed = s.log.committed ∧
    ((s.step (.retire e)).st.sb.entries.filter fun x => x.resolution != .cancelled) =
      s.st.sb.entries.filter fun x => x.isDone

/-- Every store-conditional that retires does what it ought to. -/
def Right (s : LrScRun U) : LrScEvent → Prop
  | .retire e => ∀ a, e.lrSc = some (.sc a) → s.ScRight e a
  | _ => True

/-- `P` holds at every event of the run. -/
def Always (P : LrScRun U → LrScEvent → Prop) (s : LrScRun U) : List LrScEvent → Prop
  | [] => True
  | ev :: evs => P s ev ∧ Always P (s.step ev) evs

end

/-- The buffer is the log's. -/
structure Synced (s : LrScRun U) : Prop where
  log : s.log.Inv
  buffer : s.st.sb = s.log.buffer

/-- Besides, the hart's reservation is the one that ought to be there or is gone. -/
structure Inv (s : LrScRun U) : Prop extends Synced s where
  reserved : ∀ g, s.st.cpu.loadReservation = some g → s.reserved = some g

theorem checkReservation_iff (c : Cpu U) (a : PhysAddr) :
    c.checkReservation a = true ↔ c.loadReservation = some (Cpu.alignReservationAddress a) := by
  unfold Cpu.checkReservation
  cases c.loadReservation with
  | none => simp
  | some r => simp

theorem checkReservation_congr {c c' : Cpu U} (h : c'.loadReservation = c.loadReservation) (a : PhysAddr) :
    c'.checkReservation a = c.checkReservation a := by
  unfold Cpu.checkReservation
  rw [h]

variable {s : LrScRun U} {e : RobEntry} {a : PhysAddr}

/-- Neither a fence nor WFI. -/
theorem Retires.op_cases (h : s.Retires e) :
    e.ctrl.systemOp ≠ .fenceI ∧ e.ctrl.systemOp ≠ .fence ∧ e.ctrl.systemOp ≠ .wfi := by
  rcases h.op with ho | ⟨ho | ho | ho, -⟩ <;> rw [ho] <;> decide

/-- A load-reserved or store-conditional is no system instruction. -/
theorem Retires.op_lrSc (h : s.Retires e) (hl : e.lrSc.isSome = true) :
    e.ctrl.systemOp = .none ∧ e.sfenceVma = none := by
  have ho : e.ctrl.systemOp = .none := by
    rcases h.op with ho | ⟨-, -, hn⟩
    · exact ho
    · rw [hn] at hl
      exact absurd hl (by simp)
  refine ⟨ho, ?_⟩
  cases hs : e.sfenceVma with
  | none => rfl
  | some i =>
    have hop := h.sfence (by rw [hs]; rfl)
    rw [ho] at hop
    exact absurd hop (by decide)

variable [Units U]

theorem retire_success (h : s.Retires e) (ha : e.lrSc = some (.sc a)) (hc : s.st.cpu.checkReservation a = true) :
    (s.st.retire e).1 = true ∧ (s.st.retire e).2.sb = s.st.sb.markCommitted e.tag ∧
      (s.st.retire e).2.cpu.loadReservation = none ∧ (s.st.retire e).2.cpu.regs = (s.st.retireReg e).cpu.regs := by
  obtain ⟨hop, hsf⟩ := h.op_lrSc (by rw [ha]; rfl)
  obtain ⟨hsb, -, hres, -, hregs⟩ := s.st.retireHead_state e
  have hcheck : (s.st.retireHead e).cpu.checkReservation a = true := (checkReservation_congr hres a).trans hc
  have hret : s.st.retire e =
      { s.st.retireHead e with cpu := (s.st.retireHead e).cpu.clearReservation }.retireTail e := by
    rw [CommitState.retire_eq]
    unfold CommitState.retireEffects
    rw [h.csr, hop, ha]
    dsimp only
    rw [if_pos hcheck]
  obtain ⟨hflag, htsb, htres, htregs⟩ := CommitState.retireTail_state
    { s.st.retireHead e with cpu := (s.st.retireHead e).cpu.clearReservation } h.op_cases.1 h.op_cases.2.1
  obtain ⟨hmsb, hmres, -, hmregs⟩ := CommitState.retireMem_state
    { s.st.retireHead e with cpu := (s.st.retireHead e).cpu.clearReservation } e
  rw [hret]
  refine ⟨by rw [hflag, hsf]; rfl, ?_, ?_, ?_⟩
  · rw [htsb, hmsb, if_pos (h.sc a ha).1]
    exact congrArg (fun b : StoreBuffer => b.markCommitted e.tag) hsb
  · rw [htres, hmres, hsf]
    exact ite_self _
  · exact (htregs hsf).1.trans (hmregs.trans hregs)

theorem retire_failure (h : s.Retires e) (ha : e.lrSc = some (.sc a)) (hc : s.st.cpu.checkReservation a = false) :
    (s.st.retire e).1 = false ∧ (s.st.retire e).2.sb = s.st.sb.cancel e.tag ∧
      (s.st.retire e).2.cpu.loadReservation = s.st.cpu.loadReservation ∧ (s.st.retire e).2.cpu.pc = e.fallThrough ∧
      (s.st.retire e).2.cpu.mem = (s.st.retireHead e).cpu.mem ∧
      (e.rd.isZero = false → (s.st.retire e).2.cpu.regs.read e.rd = 1 ∧
        (s.st.retire e).2.prf = s.st.prf.map fun f => f.write e.physDst 1) := by
  obtain ⟨hop, hsf⟩ := h.op_lrSc (by rw [ha]; rfl)
  obtain ⟨hsb, hprf, hres, -, -⟩ := s.st.retireHead_state e
  have hcheck : (s.st.retireHead e).cpu.checkReservation a = false := (checkReservation_congr hres a).trans hc
  have hret : s.st.retire e = (false, (s.st.retireHead e).failSc e) := by
    rw [CommitState.retire_eq]
    unfold CommitState.retireEffects
    rw [h.csr, hop, ha]
    dsimp only
    rw [if_neg (by rw [hcheck]; decide)]
  rw [hret]
  unfold CommitState.failSc RobEntry.writesGpr
  dsimp only
  rw [(h.sc a ha).2.1, Bool.true_and, hsb]
  cases hz : e.rd.isZero with
  | true => exact ⟨rfl, rfl, hres, rfl, rfl, fun hn => absurd hn (by decide)⟩
  | false =>
    refine ⟨rfl, rfl, hres, rfl, rfl,
        fun _ => ⟨?_, congrArg (Option.map fun f : PhysRegFile => f.write e.physDst 1) hprf⟩⟩
    show (RegisterFile.write _ e.rd 1).read e.rd = 1
    unfold RegisterFile.read RegisterFile.write
    rw [hz]
    simp

theorem retire_lr (h : s.Retires e) (ha : e.lrSc = some (.lr a)) :
    (s.st.retire e).1 = true ∧ (s.st.retire e).2.sb = s.st.sb ∧
      (s.st.retire e).2.cpu.loadReservation = some (Cpu.alignReservationAddress a) := by
  obtain ⟨hop, hsf⟩ := h.op_lrSc (by rw [ha]; rfl)
  obtain ⟨hsb, -, -, -, -⟩ := s.st.retireHead_state e
  have hret : s.st.retire e =
      { s.st.retireHead e with cpu := (s.st.retireHead e).cpu.setReservation a }.retireTail e := by
    rw [CommitState.retire_eq]
    unfold CommitState.retireEffects
    rw [h.csr, hop, ha]
  obtain ⟨hflag, htsb, htres, -⟩ := CommitState.retireTail_state
    { s.st.retireHead e with cpu := (s.st.retireHead e).cpu.setReservation a } h.op_cases.1 h.op_cases.2.1
  obtain ⟨hmsb, hmres, -, -⟩ := CommitState.retireMem_state
    { s.st.retireHead e with cpu := (s.st.retireHead e).cpu.setReservation a } e
  have hhits : CommitState.storeHits { s.st.retireHead e with cpu := (s.st.retireHead e).cpu.setReservation a } e =
      false := by
    unfold CommitState.storeHits
    rw [h.lr a ha]
    rfl
  rw [hret]
  refine ⟨by rw [hflag, hsf]; rfl, ?_, ?_⟩
  · rw [htsb, hmsb, h.lr a ha]
    exact hsb
  · rw [htres, hmres, hhits, hsf]
    rfl

/-- Neither load-reserved nor store-conditional: a reservation that is left was there and was not hit. -/
theorem retire_plain (h : s.Retires e) (ha : e.lrSc = none) :
    (s.st.retire e).2.sb = (if e.ctrl.memWrite then s.st.sb.markCommitted e.tag else s.st.sb) ∧
      ∀ g, (s.st.retire e).2.cpu.loadReservation = some g → s.st.cpu.loadReservation = some g ∧
          s.st.storeHits e = false := by
  obtain ⟨hsb, -, hres, -, -⟩ := s.st.retireHead_state e
  have hhits : (s.st.retireHead e).storeHits e = s.st.storeHits e := by
    unfold CommitState.storeHits
    rw [hsb]
    congr 2
    funext a
    exact checkReservation_congr hres a
  -- an xRET has no store and ends the reservation
  have hxret : e.ctrl.memWrite = false → ∀ c : Cpu U, c.loadReservation = none →
      (s.st.retireHead e).sb = (if e.ctrl.memWrite then s.st.sb.markCommitted e.tag else s.st.sb) ∧
        ∀ g, c.loadReservation = some g → s.st.cpu.loadReservation = some g ∧ s.st.storeHits e = false := by
    intro hw c hn
    rw [hw, hn]
    exact ⟨hsb, fun g hg => absurd hg (by simp)⟩
  have htail : s.st.retire e = (s.st.retireHead e).retireTail e →
      (s.st.retire e).2.sb = (if e.ctrl.memWrite then s.st.sb.markCommitted e.tag else s.st.sb) ∧
        ∀ g, (s.st.retire e).2.cpu.loadReservation = some g → s.st.cpu.loadReservation = some g ∧
            s.st.storeHits e = false := by
    intro hret
    obtain ⟨-, htsb, htres, -⟩ := (s.st.retireHead e).retireTail_state h.op_cases.1 h.op_cases.2.1
    obtain ⟨hmsb, hmres, -, -⟩ := (s.st.retireHead e).retireMem_state e
    rw [hret, htsb, hmsb, htres, hmres, hsb, hhits, hres]
    refine ⟨rfl, fun g hg => ?_⟩
    cases hi : e.sfenceVma.isSome with
    | true =>
      rw [hi, if_pos rfl] at hg
      exact absurd hg (by simp)
    | false =>
      rw [hi, if_neg (by decide)] at hg
      cases hs : s.st.storeHits e with
      | true =>
        rw [hs, if_pos rfl] at hg
        exact absurd hg (by simp)
      | false =>
        rw [hs, if_neg (by decide)] at hg
        exact ⟨hg, rfl⟩
  rcases h.op with ho | ⟨ho | ho | ho, hw, -⟩
  · refine htail ?_
    rw [CommitState.retire_eq]
    unfold CommitState.retireEffects
    rw [h.csr, ho, ha]
  · refine htail ?_
    rw [CommitState.retire_eq]
    unfold CommitState.retireEffects
    rw [h.csr, ho, ha]
  · have hret : s.st.retire e = (false, (s.st.retireHead e).retireXret (s.st.retireHead e).cpu.doMret) := by
      rw [CommitState.retire_eq]
      unfold CommitState.retireEffects
      rw [h.csr, ho]
    rw [hret]
    exact hxret hw _ rfl
  · have hret : s.st.retire e = (false, (s.st.retireHead e).retireXret (s.st.retireHead e).cpu.doSret) := by
      rw [CommitState.retire_eq]
      unfold CommitState.retireEffects
      rw [h.csr, ho]
    rw [hret]
    exact hxret hw _ rfl

/-! ### Steps -/

omit [Units U] in
/-- The calls that commit makes are legal ones. -/
theorem storeOps_legal (h : s.Retires e) : ∀ op ∈ s.storeOps e, s.log.Legal op := by
  intro op hop
  have hstore := h.store
  unfold storeOps at hop
  split at hop
  · rename_i a ha
    have hmark := hstore (h.sc a ha).1
    split at hop
    · rw [List.mem_singleton.mp hop]
      exact hmark
    · rw [List.mem_singleton.mp hop]
      exact hmark.1
  · split at hop
    · rw [List.mem_singleton.mp hop]
      exact hstore ‹_›
    · exact absurd hop (by simp)

/-- The store buffer after retiring is the log's. -/
theorem retire_buffer (hi : s.Synced) (h : s.Retires e) :
    (s.st.retire e).2.sb = (s.log.run (s.storeOps e)).buffer ∧ (s.log.run (s.storeOps e)).Inv := by
  have hone : ∀ op, s.log.Legal op → (s.log.run [op]).buffer = (s.st.sb.step op).2 ∧ (s.log.run [op]).Inv := by
    intro op hop
    rw [hi.buffer]
    exact ⟨hi.log.buffer_step hop, hi.log.step hop⟩
  have hlegal := storeOps_legal h
  cases ha : e.lrSc with
  | none =>
    have hops : s.storeOps e = if e.ctrl.memWrite then [.markCommitted e.tag] else [] := by
      unfold storeOps
      rw [ha]
    rw [(retire_plain h ha).1]
    rw [hops] at hlegal ⊢
    cases hw : e.ctrl.memWrite with
    | true =>
      have := hone (.markCommitted e.tag) (hlegal _ (by rw [hw]; exact List.mem_singleton.mpr rfl))
      exact ⟨this.1.symm, this.2⟩
    | false => exact ⟨hi.buffer, hi.log⟩
  | some x =>
    cases x with
    | lr a =>
      have hops : s.storeOps e = [] := by
        unfold storeOps
        rw [ha, h.lr a ha]
        rfl
      rw [(retire_lr h ha).2.1, hops]
      exact ⟨hi.buffer, hi.log⟩
    | sc a =>
      cases hc : s.st.cpu.checkReservation a with
      | true =>
        have hops : s.storeOps e = [.markCommitted e.tag] := by
          unfold storeOps
          rw [ha]
          exact if_pos hc
        have := hone (.markCommitted e.tag) (hlegal _ (by rw [hops]; exact List.mem_singleton.mpr rfl))
        rw [(retire_success h ha hc).2.1, hops]
        exact ⟨this.1.symm, this.2⟩
      | false =>
        have hops : s.storeOps e = [.cancel e.tag] := by
          unfold storeOps
          rw [ha]
          exact if_neg (by rw [hc]; decide)
        have := hone (.cancel e.tag) (hlegal _ (by rw [hops]; exact List.mem_singleton.mpr rfl))
        rw [(retire_failure h ha hc).2.1, hops]
        exact ⟨this.1.symm, this.2⟩

/-- The reservation after retiring, when the condition is met. -/
theorem retire_reserved (hi : s.Inv) (h : s.Retires e) (hg : s.Guarded (.retire e)) {g : PhysAddr}
    (hr : (s.st.retire e).2.cpu.loadReservation = some g) : s.reservedAfter e = some g := by
  unfold reservedAfter
  cases ha : e.lrSc with
  | none =>
    obtain ⟨hold, hhit⟩ := (retire_plain h ha).2 g hr
    have hres := hi.reserved g hold
    dsimp only
    rw [if_neg]
    · exact hres
    · -- a store into the granule starts in it, so commit would have seen it
      intro hw
      rw [Bool.and_eq_true] at hw
      obtain ⟨hw, hwrites⟩ := hw
      unfold storeWrites at hwrites
      rw [hres] at hwrites
      cases hst : s.st.sb.storeOf e.tag with
      | none =>
        rw [hst] at hwrites
        exact absurd hwrites (by simp)
      | some x =>
        obtain ⟨a, w⟩ := x
        rw [hst] at hwrites
        have halign := hg.1 hw ha a w g hst hres hwrites
        have hcheck : s.st.cpu.checkReservation a = true := (checkReservation_iff _ a).mpr (by rw [halign]; exact hold)
        unfold CommitState.storeHits at hhit
        rw [hw, ha, StoreBuffer.findPaddr_eq, hst] at hhit
        simp [hcheck] at hhit
  | some x =>
    cases x with
    | lr a =>
      rw [(retire_lr h ha).2.2] at hr
      exact hr
    | sc a =>
      dsimp only
      cases hc : s.st.cpu.checkReservation a with
      | true =>
        rw [(retire_success h ha hc).2.2.1] at hr
        exact absurd hr (by simp)
      | false =>
        obtain ⟨hflag, -, hres, -⟩ := retire_failure h ha hc
        rw [hflag, if_neg (by decide)]
        rw [hres] at hr
        exact hi.reserved g hr

omit [Units U] in
theorem trap_loadReservation (c : Cpu U) (t : Trap) (epc : U64) : (c.trap t epc).loadReservation = none := by
  simp only [Cpu.trap, Cpu.trapToS, Cpu.trapToM, apply_ite Cpu.loadReservation, ite_self]

omit [Units U] in
theorem storeStep_synced (hi : s.Synced) {op : StoreOp} (h : s.log.Legal op) : (s.storeStep op).Synced := by
  refine ⟨hi.log.step h, ?_⟩
  show (s.st.sb.step op).2 = (s.log.step op).buffer
  rw [hi.buffer, hi.log.buffer_step h]

theorem drainOneStore_state (c : Cpu U) (b : StoreBuffer) :
    (drainOneStore c b).2 = (b.step .drainOne).2 ∧ (drainOneStore c b).1.loadReservation = c.loadReservation := by
  unfold drainOneStore StoreBuffer.step
  cases hd : b.drainOne with
  | none => exact ⟨rfl, rfl⟩
  | some x =>
    obtain ⟨e, b'⟩ := x
    dsimp only
    split
    · rename_i a d _
      refine ⟨rfl, ?_⟩
      rw [(CommitState.writeStoreToMemory_state _ a d e.width).1]
      split <;> rfl
    · exact ⟨rfl, rfl⟩

/-- One step keeps the buffer in step with the log. -/
theorem step_synced (hi : s.Synced) {ev : LrScEvent} (h : s.Legal ev) : (s.step ev).Synced := by
  cases ev with
  | allocate n w => exact storeStep_synced hi h
  | resolve t v p d => exact storeStep_synced hi h
  | squash n => exact storeStep_synced hi h
  | drain =>
    have hlegal : s.log.Legal .drainOne := trivial
    refine ⟨hi.log.step hlegal, ?_⟩
    show (drainOneStore s.st.cpu s.st.sb).2 = (s.log.step .drainOne).buffer
    rw [(drainOneStore_state s.st.cpu s.st.sb).1, hi.buffer, hi.log.buffer_step hlegal]
  | retire e =>
    obtain ⟨hbuf, hlog⟩ := retire_buffer hi h
    unfold step
    dsimp only
    split
    · have hlegal : (s.log.run (s.storeOps e)).Legal .flushSpeculative := trivial
      refine ⟨hlog.step hlegal, ?_⟩
      rw [hlog.buffer_step hlegal]
      exact congrArg StoreBuffer.flushSpeculative hbuf
    · exact ⟨hlog, hbuf⟩
  | trap t epc =>
    have hlegal : s.log.Legal .flushSpeculative := trivial
    refine ⟨hi.log.step hlegal, ?_⟩
    rw [show (s.step (.trap t epc)).log = s.log.step .flushSpeculative from rfl, hi.log.buffer_step hlegal, ← hi.buffer]
    rfl

/-- **One step** keeps the invariant when it meets the condition. -/
theorem step_inv (hi : s.Inv) {ev : LrScEvent} (h : s.Legal ev) (hg : s.Guarded ev) : (s.step ev).Inv := by
  refine ⟨step_synced hi.toSynced h, ?_⟩
  cases ev with
  | allocate n w => exact hi.reserved
  | resolve t v p d => exact hi.reserved
  | squash n => exact hi.reserved
  | drain => exact fun g hr => hi.reserved g ((drainOneStore_state s.st.cpu s.st.sb).2 ▸ hr)
  | retire e =>
    have hres : ∀ g, (s.st.retire e).2.cpu.loadReservation = some g → s.reservedAfter e = some g :=
      fun g hr => retire_reserved hi h hg hr
    unfold step
    dsimp only
    split
    · exact hres
    · exact hres
  | trap t epc =>
    intro g hr
    rw [show (s.step (.trap t epc)).st.cpu = s.st.cpu.trap t epc from rfl, trap_loadReservation] at hr
    exact absurd hr (by simp)

/-! ### Store-conditionals -/

theorem success_right (hi : s.Inv) (h : s.Retires e) (ha : e.lrSc = some (.sc a))
    (hc : s.st.cpu.checkReservation a = true) :
    s.reserved = some (Cpu.alignReservationAddress a) ∧ (s.step (.retire e)).st.cpu.regs.read e.rd = 0 ∧
      ∃ i d, i.2.robTag = e.tag ∧ i.2.resolution = .committed a d ∧
        (s.step (.retire e)).log.committed = s.log.committed ++ [i] := by
  obtain ⟨hflag, -, -, hregs⟩ := retire_success h ha hc
  obtain ⟨hw, hreg, hfp, hresult, haddr⟩ := h.sc a ha
  have hstep : s.step (.retire e) =
      { st := (s.st.retire e).2, log := s.log.run (s.storeOps e), reserved := s.reservedAfter e } := by
    have hre : s.refetches e = false := by
      unfold refetches
      rw [hflag]
      rfl
    exact if_neg (by rw [hre]; decide)
  have hops : s.storeOps e = [.markCommitted e.tag] := by
    unfold storeOps
    rw [ha]
    exact if_pos hc
  refine ⟨hi.reserved _ ((checkReservation_iff _ a).mp hc), ?_, ?_⟩
  · rw [hstep, hregs]
    unfold CommitState.retireReg RobEntry.writesGpr
    rw [hfp, hreg, hresult]
    cases hz : e.rd.isZero with
    | true => simp [RegisterFile.read, hz]
    | false => simp [RegisterFile.read, RegisterFile.write, hz]
  · obtain ⟨older, n, x, younger, a', d, hq, -, htag, hr, hmark⟩ := hi.log.step_markCommitted (h.store hw)
    -- the store found by the mark is the one memory2 resolved at `a`
    have hfind : s.st.sb.entries.find? (fun y => y.robTag == e.tag) = some x := by
      have hentries : s.st.sb.entries = older.map (·.2) ++ x :: younger.map (·.2) := by
        rw [hi.buffer]
        show s.log.items.map (·.2) = _
        rw [hq, List.map_append, List.map_cons]
      have hnone : (older.map (·.2)).find? (fun y => y.robTag == e.tag) = none := by
        refine List.find?_eq_none.mpr fun y hy => ?_
        obtain ⟨j, hj, rfl⟩ := List.mem_map.mp hy
        have hne := (hi.log.split hq).1 j hj
        rw [htag] at hne
        simpa using hne
      rw [hentries, List.find?_append, hnone, Option.none_or, List.find?_cons_of_pos (by simp [htag])]
    unfold StoreBuffer.findPaddr at haddr
    rw [hfind, Option.bind_some, hr] at haddr
    have ha' : a' = a := Option.some.inj haddr
    refine ⟨(n, { x with resolution := .committed a' d }), d, htag, by rw [ha'], ?_⟩
    rw [hstep, hops]
    show (s.log.step (.markCommitted e.tag)).committed = _
    rw [hmark]

theorem failure_right (hi : s.Inv) (h : s.Retires e) (ha : e.lrSc = some (.sc a))
    (hc : s.st.cpu.checkReservation a = false)
    (hpte : e.pteUpdate = none) (hpc : e.fallThrough ≠ s.st.cpu.pc) :
    (e.rd.isZero = false → (s.step (.retire e)).st.cpu.regs.read e.rd = 1 ∧
        (s.step (.retire e)).st.prf = s.st.prf.map fun f => f.write e.physDst 1) ∧
      (s.step (.retire e)).st.cpu.mem = s.st.cpu.mem ∧ (s.step (.retire e)).log.drained = s.log.drained ∧
      (s.step (.retire e)).log.committed = s.log.committed ∧
      ((s.step (.retire e)).st.sb.entries.filter fun x => x.resolution != .cancelled) =
        s.st.sb.entries.filter fun x => x.isDone := by
  obtain ⟨hflag, hsb, -, hrpc, hmem, hrd⟩ := retire_failure h ha hc
  have hstep : s.step (.retire e) =
      { st := { (s.st.retire e).2 with sb := (s.st.retire e).2.sb.flushSpeculative }
        log := (s.log.run (s.storeOps e)).step .flushSpeculative
        reserved := s.reservedAfter e } := by
    have hre : s.refetches e = true := by
      unfold refetches
      rw [hflag, hrpc]
      simpa using hpc
    exact if_pos hre
  have hops : s.storeOps e = [.cancel e.tag] := by
    unfold storeOps
    rw [ha]
    exact if_neg (by rw [hc]; decide)
  have hcancel : s.log.Legal (.cancel e.tag) := (h.store (h.sc a ha).1).1
  obtain ⟨older, ⟨n, x⟩, younger, hq, hold, hlive, htag⟩ := hcancel.split
  dsimp only at hlive htag
  have hlog : s.log.run (s.storeOps e) =
      { s.log with
        items := if younger.isEmpty then older else older ++ (n, { x with resolution := .cancelled }) :: younger } := by
    rw [hops, ← htag]
    exact hi.log.step_cancel hq
  have hbuf : (s.st.retire e).2.sb = (s.log.run (s.storeOps e)).buffer := (retire_buffer hi.toSynced h).1
  have hyoung := hi.log.younger_live hq hlive
  -- of what was retired before, the live ones are those not cancelled
  have hdone : ∀ y : StoreBufferEntry, y.resolution.isCommitted = true → (y.resolution != .cancelled) = y.isDone := by
    intro y hy
    unfold StoreBufferEntry.isDone
    cases hr : y.resolution with
    | committed b d => simp
    | cancelled => simp
    | pending =>
      rw [hr] at hy
      exact absurd hy Bool.false_ne_true
    | ready b d =>
      rw [hr] at hy
      exact absurd hy Bool.false_ne_true
  have hkept : (older.map (·.2)).filter (fun y => y.resolution.isCommitted && (y.resolution != .cancelled)) =
      (older.map (·.2)).filter fun y => y.isDone := by
    refine List.filter_congr fun y hy => ?_
    obtain ⟨j, hj, rfl⟩ := List.mem_map.mp hy
    rw [hold j hj, Bool.true_and]
    exact hdone j.2 (hold j hj)
  have hnone : (younger.map (·.2)).filter (fun y => y.resolution.isCommitted && (y.resolution != .cancelled)) = [] := by
    refine List.filter_eq_nil_iff.mpr fun y hy => ?_
    obtain ⟨j, hj, rfl⟩ := List.mem_map.mp hy
    rw [hyoung j hj]
    simp
  have hnone' : (younger.map (·.2)).filter (fun y => y.isDone) = [] := by
    refine List.filter_eq_nil_iff.mpr fun y hy => ?_
    obtain ⟨j, hj, rfl⟩ := List.mem_map.mp hy
    rw [StoreLog.not_done (hyoung j hj)]
    simp
  rw [hstep, hlog]
  refine ⟨fun hz => hrd hz, ?_, rfl, rfl, ?_⟩
  · show (s.st.retire e).2.cpu.mem = s.st.cpu.mem
    rw [hmem, s.st.retireHead_mem hpte]
  · have hentries : s.st.sb.entries = older.map (·.2) ++ x :: younger.map (·.2) := by
      rw [hi.buffer]
      show s.log.items.map (·.2) = _
      rw [hq, List.map_append, List.map_cons]
    have hafter : (s.st.retire e).2.sb.entries = (if younger.isEmpty then older
        else older ++ (n, { x with resolution := .cancelled }) :: younger).map (·.2) := by
      rw [hbuf, hlog]
      rfl
    have hx : (x.isDone) = false := StoreLog.not_done hlive
    show (((s.st.retire e).2.sb.entries.filter fun y => y.resolution.isCommitted).filter fun y =>
      y.resolution != .cancelled) = _
    rw [List.filter_filter, hafter, hentries, List.filter_append, List.filter_cons_of_neg (by simp [hx]), hnone',
      List.append_nil, ← hkept]
    have hswap : ∀ l : List StoreBufferEntry,
        l.filter (fun y => (y.resolution != .cancelled) && y.resolution.isCommitted) =
        l.filter fun y => y.resolution.isCommitted && (y.resolution != .cancelled) :=
      fun l => List.filter_congr fun y _ => Bool.and_comm _ _
    rw [hswap]
    cases hy : younger.isEmpty with
    | true => rfl
    | false =>
      rw [if_neg (by decide), List.map_append, List.map_cons, List.filter_append,
          List.filter_cons_of_neg (by simp), hnone,
        List.append_nil]

/-- A store-conditional that retires does what it ought to when the condition is met. -/
theorem scRight_of_guarded (hi : s.Inv) (h : s.Retires e) (hg : s.Guarded (.retire e)) (ha : e.lrSc = some (.sc a)) :
    s.ScRight e a := by
  cases hc : s.st.cpu.checkReservation a with
  | true =>
    refine ⟨fun _ => success_right hi h ha hc, fun hf => ?_⟩
    rw [(retire_success h ha hc).1] at hf
    exact absurd hf (by decide)
  | false =>
    obtain ⟨hpte, hpc⟩ := hg.2 a ha hc
    refine ⟨fun ht => ?_, fun _ => failure_right hi h ha hc hpte hpc⟩
    rw [(retire_failure h ha hc).1] at ht
    exact absurd ht (by decide)

/-! ### Runs -/

/-- Commit with an empty store buffer and without a reservation. -/
def init (st : CommitState U) (capacity : Nat) : LrScRun U where
  st := { st with cpu := st.cpu.clearReservation, sb := StoreBuffer.new capacity }
  log := StoreLog.new capacity
  reserved := none

/-- The store buffer is the log's, and every committed store is once among those drained and those live. -/
structure Accounted (s : LrScRun U) : Prop where
  buffer : s.st.sb = s.log.buffer
  once : s.log.drained.filter (fun i => i.2.isDone) ++ s.log.items.filter (fun i => i.2.isDone) = s.log.committed
  distinct : s.log.committed.Pairwise fun x y => x.1 < y.1

omit [Units U] in
theorem Inv.accounted (hi : s.Inv) : s.Accounted := by
  refine ⟨hi.buffer, hi.log.done, ?_⟩
  rw [← hi.log.done, ← List.filter_append]
  exact hi.log.sorted.sublist List.filter_sublist

/-- **LR/SC.** In every run of the pipelines' events whose steps meet the condition, every
store-conditional does what it ought to, and every committed store drains once. -/
theorem runs_right (st : CommitState U) (capacity : Nat) (evs : List LrScEvent)
    (hl : (init st capacity).Always Legal evs) (hg : (init st capacity).Always Guarded evs) :
    (init st capacity).Always (fun s ev => s.Right ev ∧ (s.step ev).Accounted) evs := by
  have hinit : (init st capacity).Inv :=
    ⟨⟨StoreLog.Inv.new capacity, rfl⟩, fun g hr => absurd hr (by simp [init, Cpu.clearReservation])⟩
  generalize init st capacity = s at hl hg hinit ⊢
  induction evs generalizing s with
  | nil => trivial
  | cons ev evs ih =>
    have hstep := step_inv hinit hl.1 hg.1
    refine ⟨⟨?_, hstep.accounted⟩, ih _ hl.2 hg.2 hstep⟩
    cases ev with
    | retire e => exact fun a ha => scRight_of_guarded hinit hl.1 hg.1 ha
    | allocate n w => trivial
    | resolve t v p d => trivial
    | squash n => trivial
    | drain => trivial
    | trap t epc => trivial

end LrScRun

/-! ### Two runs -/

/-- A retired entry with these signals. -/
def lrScEntry (tag : RobTag) (ctrl : ControlSignals) (lrSc : Option LrScRecord) : RobEntry :=
  { tag := tag, pc := 0x80000000, inst := 0, instSize := .standard, rd := 8, rdFp := false,
    result := some 0, ctrl := ctrl, state := .completed, physDst := 40, oldPhysDst := 8, lrSc := lrSc }

def lrEntry : RobEntry := lrScEntry 1 { regWrite := true, memRead := true } (some (.lr 0x80001040))
def storeEntry : RobEntry := lrScEntry 2 { memWrite := true } none
def scEntry : RobEntry := lrScEntry 3 { regWrite := true, memWrite := true } (some (.sc 0x80001040))

/-- Load-reserved, a store of this width at this address, and a store-conditional. -/
def lrScAround (a : PhysAddr) (w : MemWidth) : List LrScEvent :=
  [.retire lrEntry, .allocate 2 w, .resolve 2 a a 5, .retire storeEntry, .allocate 3 .word,
    .resolve 3 0x80001040 0x80001040 7, .retire scEntry]

def lrScStart : LrScRun Bench :=
  .init (O3.toCommit (O3Pipeline.init O3Pipeline.smallO3 (Cpu.new O3Pipeline.smallO3 (fun _ => 0) {})).core) 4

/-- What the run asks of the store buffer. -/
def lrScOps (a : PhysAddr) (w : MemWidth) : List StoreOp :=
  [.allocate 2 w, .resolve 2 a a 5, .markCommitted 2, .allocate 3 .word, .resolve 3 0x80001040 0x80001040 7,
      .markCommitted 3]

theorem lrScAround_legal {a : PhysAddr} {w : MemWidth} (hl : (StoreLog.new 4).LegalRun (lrScOps a w))
    (hp : (((lrScAround a w).take 6).foldl LrScRun.step lrScStart).st.sb.findPaddr 3 = some 0x80001040) :
    lrScStart.Always (fun s ev => s.Legal ev) (lrScAround a w) := by
  obtain ⟨h1, h2, h3, h4, h5, h6, -⟩ := hl
  have hlr : ∀ s : LrScRun Bench, s.Retires lrEntry := fun s =>
    { csr := rfl
      op := Or.inl rfl
      sfence := fun h => absurd h (by decide)
      store := fun h => absurd h (by decide)
      lr := fun _ _ => rfl
      sc := fun _ h => nomatch h }
  have hstore : ∀ s : LrScRun Bench, s.log.Legal (.markCommitted 2) → s.Retires storeEntry := fun s hs =>
    { csr := rfl
      op := Or.inl rfl
      sfence := fun h => absurd h (by decide)
      store := fun _ => hs
      lr := fun _ h => nomatch h
      sc := fun _ h => nomatch h }
  have hsc : ∀ s : LrScRun Bench, s.log.Legal (.markCommitted 3) → s.st.sb.findPaddr 3 = some 0x80001040 →
      s.Retires scEntry :=
    fun s hs hf =>
    { csr := rfl
      op := Or.inl rfl
      sfence := fun h => absurd h (by decide)
      store := fun _ => hs
      lr := fun _ h => nomatch h
      sc := fun _ h => by
        cases h
        exact ⟨rfl, rfl, rfl, rfl, hf⟩ }
  exact ⟨hlr _, h1, h2, hstore _ h3, h4, h5, hsc _ h6 hp, trivial⟩

/-- A store into the granule that starts in it: the store-conditional fails and returns 1. -/
theorem lrScAround_fails : (((lrScAround 0x80001044 .word).foldl LrScRun.step lrScStart).st.cpu.regs.read 8 = 1) ∧
    lrScStart.Always (fun s ev => s.Right ev ∧ (s.step ev).Accounted) (lrScAround 0x80001044 .word) := by
  have hstart : ∀ s : LrScRun Bench, s.st.sb.storeOf 2 = some (0x80001044, .word) → s.reserved = some 0x80001040 →
      s.Guarded (.retire storeEntry) := by
    intro s hst hres
    refine ⟨fun _ _ a w g h1 h2 _ => ?_, fun _ h => nomatch h⟩
    cases hst.symm.trans h1
    cases hres.symm.trans h2
    decide
  refine ⟨by decide, LrScRun.runs_right _ 4 _ (lrScAround_legal (by decide) (by decide)) ?_⟩
  refine ⟨⟨fun h => absurd h (by decide), fun _ h => nomatch h⟩, trivial, trivial, hstart _ (by decide) (by decide),
    trivial, trivial, ⟨fun _ h => absurd h (by decide), fun _ _ _ => ⟨rfl, by decide⟩⟩, trivial⟩

/-- A machine on which a store starts below the reserved granule and ends in it. -/
def straddlingStore : O3Pipeline Bench :=
  let cfg := { O3Pipeline.smallO3 with misalignedAccessTrap := false }
  .init cfg (Cpu.new cfg
    -- addi x5,x0,7; auipc x6,1; addi x6,x6,0x3c; lr.w x7,(x6); sd x5,-4(x6); sc.w x8,x5,(x6); jal x0,0
    (O3Pipeline.memOfWords 0x80000000
        [0x00700293, 0x00001317, 0x03c30313, 0x100323af, 0xfe533e23, 0x1853242f, 0x0000006f])
    { btb := [(0x80000018, 0x80000018)] })

/-- The store-conditional succeeds though the store has written into its granule, in a sequence of events
and in the pipeline. -/
theorem straddlingStore_succeeds :
    (lrScStart.Always (fun s ev => s.Legal ev) (lrScAround 0x8000103c .double) ∧
      ¬lrScStart.Always (fun s ev => s.Right ev) (lrScAround 0x8000103c .double)) ∧
    O3Pipeline.Reach { O3Pipeline.smallO3 with misalignedAccessTrap := false } (straddlingStore.ticks 16) ∧
      (straddlingStore.ticks 15).core.cpu.loadReservation = some 0x80001040 ∧
      (straddlingStore.ticks 16).core.cpu.instructionsRetired = 7 ∧
          (straddlingStore.ticks 16).core.cpu.regs.read 8 = 0 := by
  have hrun : O3Pipeline.Run { O3Pipeline.smallO3 with misalignedAccessTrap := false } (fun _ _ => True)
      (straddlingStore.ticks 16) :=
    O3Pipeline.Run.ticks 16 (.init _ (O3Pipeline.loaded_new _ _ _)) (by decide)
  refine ⟨⟨lrScAround_legal (by decide) (by decide), fun h => ?_⟩, hrun.reach, by decide +kernel,
    by decide +kernel, by decide +kernel⟩
  have hsc := (h.2.2.2.2.2.2.1 0x80001040 rfl).success (by decide)
  exact absurd hsc.1 (by decide)

end Rvsim
