/-
# The stored CSRs stay legal

`mstatus` and `sstatus` are stored twice and kept in step by hand, in CSR
writes, at trap entry, by both returns and when commit marks the FP state
dirty. Reserved values are clamped where CSRs are written. Trap entry stores
the interrupted pc as it is, while a write to `mepc` or `sepc` clears its
lowest bit: that is the one way out of the legal states.

Key definitions:
  - `Csrs.Stored`, `Csrs.Legal`, `Cpu.CsrEdit`, `CsrEvent`, `CsrEvent.Aligned`
Key theorems:
  - `Cpu.csrWrite_edit`, `Cpu.csrEvent_stored`, `Cpu.csrEvent_legal_iff`, `Cpu.csrRuns_legal_iff`
-/
import Rvsim.Lib.Masks
import Rvsim.O3Run

namespace Rvsim

variable {U : Type}

/-! ### Legality -/

/-- The bits of interrupts a supervisor may get delegated. -/
def Csr.supervisorInterrupts : U64 := Csr.mipSsip ||| Csr.mipStip ||| Csr.mipSeip

/-- The previous privilege in `mstatus`. -/
def Csrs.mpp (s : Csrs) : U64 := (s.mstatus >>> Csr.mstatusMppShift) &&& Csr.mstatusMppMask

/-- The translation mode in `satp`. -/
def Csrs.satpMode (s : Csrs) : U64 := (s.satp >>> Csr.satpModeShift) &&& Csr.satpModeMask

/-- What the stored CSRs satisfy whatever is done to them. -/
structure Csrs.Stored (s : Csrs) : Prop where
  view : s.sstatus = s.mstatus &&& Csr.sstatusMask
  mpp : s.mpp ≠ 2
  uxl : s.mstatus &&& Csr.mstatusUxl = (2 : U64) <<< 32
  sxl : s.mstatus &&& Csr.mstatusSxl = (2 : U64) <<< 34
  mideleg : s.mideleg &&& ~~~Csr.supervisorInterrupts = 0
  medeleg : s.medeleg.getLsbD 11 = false
  satp : s.satpMode = Csr.satpModeBare ∨ s.satpMode = Csr.satpModeSv39
  mtvec : s.mtvec &&& 3 < 2
  stvec : s.stvec &&& 3 < 2

/-- The pcs kept for returns are even. -/
def Csrs.EvenPcs (s : Csrs) : Prop := s.mepc.getLsbD 0 = false ∧ s.sepc.getLsbD 0 = false

/-- The stored CSRs hold legal values. -/
structure Csrs.Legal (s : Csrs) : Prop extends Csrs.Stored s where
  pcs : s.EvenPcs

/-- `FS` and `SD` as `csr_read` shows them. -/
def Csr.fpState : U64 := Csr.mstatusFs ||| Csr.mstatusSd

namespace Csrs

variable {s s' : Csrs}

theorem mpp_eq (s : Csrs) : s.mpp = (s.mstatus &&& Csr.mstatusMpp) >>> Csr.mstatusMppShift := by
  rw [mpp, BitVec.ushiftRight_and_distrib]
  rfl

/-- The registers these look at. -/
def guarded (s : Csrs) : List U64 := [s.mstatus, s.sstatus, s.mideleg, s.medeleg, s.satp, s.mtvec, s.stvec]

theorem Stored.of_guarded (h : s.Stored) (heq : s'.guarded = s.guarded) : s'.Stored := by
  simp only [guarded, List.cons.injEq, and_true] at heq
  obtain ⟨h1, h2, h3, h4, h5, h6, h7⟩ := heq
  refine ⟨by rw [h1, h2]; exact h.view, ?_,
      by rw [h1]; exact h.uxl, by rw [h1]; exact h.sxl, by rw [h3]; exact h.mideleg,
    by rw [h4]; exact h.medeleg, ?_, by rw [h6]; exact h.mtvec, by rw [h7]; exact h.stvec⟩
  · rw [Csrs.mpp, h1]
    exact h.mpp
  · rw [Csrs.satpMode, h5]
    exact h.satp

/-- The two status words change, and nothing else that is guarded. -/
theorem Stored.status (h : s.Stored) {m ss : U64} (hview : ss = m &&& Csr.sstatusMask)
    (hmpp : (m >>> Csr.mstatusMppShift) &&& Csr.mstatusMppMask ≠ 2)
    (huxl : m &&& Csr.mstatusUxl = s.mstatus &&& Csr.mstatusUxl)
    (hsxl : m &&& Csr.mstatusSxl = s.mstatus &&& Csr.mstatusSxl) : Stored { s with mstatus := m, sstatus := ss } :=
  ⟨hview, hmpp, huxl.trans h.uxl, hsxl.trans h.sxl, h.mideleg, h.medeleg, h.satp, h.mtvec, h.stvec⟩

/-- Where `MPP` stays as well. -/
theorem Stored.mpp_of_eq (h : s.Stored) {m : U64} (hm : m &&& Csr.mstatusMpp = s.mstatus &&& Csr.mstatusMpp) :
    (m >>> Csr.mstatusMppShift) &&& Csr.mstatusMppMask ≠ 2 := by
  have heq : (m >>> Csr.mstatusMppShift) &&& Csr.mstatusMppMask = s.mpp := by
    have hm' := mpp_eq { s with mstatus := m }
    rw [show ({ s with mstatus := m } : Csrs).mstatus = m from rfl, hm, ← mpp_eq] at hm'
    exact hm'
  rw [heq]
  exact h.mpp

theorem mpp_of_zero {m : U64} (hm : m &&& Csr.mstatusMpp = 0) :
    (m >>> Csr.mstatusMppShift) &&& Csr.mstatusMppMask ≠ 2 := by
  have heq := mpp_eq { mstatus := m }
  rw [mpp, hm] at heq
  rw [heq]
  decide

/-- FP state is marked dirty. -/
theorem Stored.setFsDirty (h : s.Stored) : s.setFsDirty.Stored := by
  refine h.status ?_ (h.mpp_of_eq ?_) ?_ ?_
  · rw [Masks.view_edit, ← h.view]
    rfl
  · exact Masks.field_edit (by decide) (by decide)
  · exact Masks.field_edit (by decide) (by decide)
  · exact Masks.field_edit (by decide) (by decide)

/-- A field written from `v`, of which it takes no bit. -/
theorem take_none {v m f : U64} (h : m &&& f = 0) : (v &&& m) &&& f = 0 := by
  rw [BitVec.and_assoc, h]
  exact BitVec.and_zero

theorem Stored.writeSstatus (h : s.Stored) (v : U64) : (Cpu.writeSstatus s v).Stored := by
  refine h.status rfl (h.mpp_of_eq ?_) ?_ ?_
  · exact Masks.field_edit (by decide) (take_none (by decide))
  · exact Masks.field_edit (by decide) (take_none (by decide))
  · exact Masks.field_edit (by decide) (take_none (by decide))

theorem Stored.writeMstatus (h : s.Stored) (v : U64) : (Cpu.writeMstatus s v).Stored := by
  -- UXL and SXL are taken from the old word
  have hkeep : ∀ {f m : U64}, (Csr.mstatusUxl ||| Csr.mstatusSxl) &&& f = f → m &&& f = 0 →
      ((v &&& m) ||| (s.mstatus &&& (Csr.mstatusUxl ||| Csr.mstatusSxl))) &&& f = s.mstatus &&& f := by
    intro f m hf hm
    rw [BitVec.or_comm]
    exact Masks.field_edit hf (take_none hm)
  unfold Cpu.writeMstatus
  dsimp only
  split
  · refine h.status rfl ?_ ?_ ?_
    · -- the reserved value is cleared
      exact mpp_of_zero (take_none (by decide))
    · rw [Masks.field_keep (by decide)]
      exact hkeep (by decide) (by decide)
    · rw [Masks.field_keep (by decide)]
      exact hkeep (by decide) (by decide)
  · rename_i hne
    exact h.status rfl hne (hkeep (by decide) (by decide)) (hkeep (by decide) (by decide))

end Csrs

/-! ### Traps and returns -/

namespace Cpu

variable {c : Cpu U}

/-- The bits of the supervisor's interrupt stack. -/
def supervisorStack : U64 := Csr.mstatusSie ||| Csr.mstatusSpie ||| Csr.mstatusSpp

/-- An `sstatus` edited in these bits, and `mstatus` with them copied. -/
theorem stored_supervisorStack (h : c.csrs.Stored) {ss : U64} (k : U64)
    (hss : ss &&& ~~~supervisorStack = c.csrs.sstatus &&& ~~~supervisorStack)
    (hk : k &&& Csr.sstatusMask = Csr.sstatusMask)
    (hmpp : k &&& Csr.mstatusMpp = Csr.mstatusMpp) (huxl : k &&& Csr.mstatusUxl = Csr.mstatusUxl)
    (hsxl : k &&& Csr.mstatusSxl = Csr.mstatusSxl) :
    Csrs.Stored { c.csrs with
      sstatus := ss
      mstatus := ((c.csrs.mstatus &&& ~~~supervisorStack) ||| (ss &&& supervisorStack)) &&& k } := by
  refine h.status ?_ (h.mpp_of_eq ?_) ?_ ?_
  · rw [Masks.field_keep hk, Masks.merge (by decide)]
    rw [hss, h.view]
  · rw [Masks.field_keep hmpp]
    exact Masks.field_edit (by decide) (Csrs.take_none (by decide))
  · rw [Masks.field_keep huxl]
    exact Masks.field_edit (by decide) (Csrs.take_none (by decide))
  · rw [Masks.field_keep hsxl]
    exact Masks.field_edit (by decide) (Csrs.take_none (by decide))

theorem trapToS_stored (h : c.csrs.Stored) (i : Bool) (code tval epc : U64) :
    (c.trapToS i code tval epc).csrs.Stored := by
  have hss : (setBit (setBit c.csrs.sstatus Csr.mstatusSpie (c.csrs.sstatus &&& Csr.mstatusSie != 0)) Csr.mstatusSpp
      (c.privilege == .supervisor) &&& ~~~Csr.mstatusSie) &&& ~~~supervisorStack =
        c.csrs.sstatus &&& ~~~supervisorStack := by
    rw [Masks.field_keep (by decide)]
    exact (Masks.field_put (by decide) _).trans (Masks.field_put (by decide) _)
  have hstack := stored_supervisorStack h (BitVec.allOnes 64) hss (by decide) (by decide) (by decide) (by decide)
  refine hstack.of_guarded ?_
  rw [show ∀ x : U64, x &&& BitVec.allOnes 64 = x from fun x => BitVec.and_allOnes]
  rfl

/-- What trap entry puts into `MPP` is read back from it. -/
theorem mpp_stacked (m : U64) (p : PrivilegeMode) :
    ((((m &&& ~~~Csr.mstatusMpp) ||| (p.toU8.setWidth 64 <<< Csr.mstatusMppShift)) &&& ~~~Csr.mstatusMie) >>>
      Csr.mstatusMppShift) &&& Csr.mstatusMppMask = p.toU8.setWidth 64 := by
  have hclear : ∀ x : U64, ((((m &&& ~~~Csr.mstatusMpp) ||| x) &&& ~~~Csr.mstatusMie) >>> Csr.mstatusMppShift) &&&
      Csr.mstatusMppMask = (x >>> Csr.mstatusMppShift) &&& Csr.mstatusMppMask := by
    intro x
    have hfield := Csrs.mpp_eq { mstatus := ((m &&& ~~~Csr.mstatusMpp) ||| x) &&& ~~~Csr.mstatusMie }
    have hfield' := Csrs.mpp_eq { mstatus := x }
    rw [Csrs.mpp] at hfield hfield'
    rw [hfield, hfield', Masks.field_keep (by decide)]
    congr 1
    rw [Masks.view_edit, Csrs.take_none (by decide)]
    exact BitVec.zero_or
  rw [hclear]
  cases p <;> decide

/-- The privilege put into `MPP` is none of the reserved ones. -/
theorem mpp_privilege (m : U64) (p : PrivilegeMode) :
    ((((m &&& ~~~Csr.mstatusMpp) ||| (p.toU8.setWidth 64 <<< Csr.mstatusMppShift)) &&& ~~~Csr.mstatusMie) >>>
      Csr.mstatusMppShift) &&& Csr.mstatusMppMask ≠ 2 := by
  rw [mpp_stacked]
  cases p <;> decide

theorem trapToM_stored (h : c.csrs.Stored) (i : Bool) (code tval epc : U64) :
    (c.trapToM i code tval epc).csrs.Stored := by
  have hprev : ∀ {f : U64}, Csr.mstatusMpp &&& f = 0 →
      ((c.privilege.toU8.setWidth 64 : U64) <<< Csr.mstatusMppShift) &&& f = 0 := by
    intro f hf
    have hsub : ∀ p : PrivilegeMode, (p.toU8.setWidth 64 : U64) <<< Csr.mstatusMppShift =
        ((p.toU8.setWidth 64 : U64) <<< Csr.mstatusMppShift) &&& Csr.mstatusMpp := by
      intro p
      cases p <;> decide
    rw [hsub, BitVec.and_assoc, hf]
    exact BitVec.and_zero
  -- what stays of the old word outside the machine's interrupt stack
  have hkeep : ∀ {f : U64}, ~~~Csr.mstatusMie &&& f = f → ~~~Csr.mstatusMpp &&& f = f → Csr.mstatusMpie &&& f = 0 →
      Csr.mstatusMpp &&& f = 0 →
      (((setBit c.csrs.mstatus Csr.mstatusMpie (c.csrs.mstatus &&& Csr.mstatusMie != 0) &&& ~~~Csr.mstatusMpp) |||
        (c.privilege.toU8.setWidth 64 <<< Csr.mstatusMppShift)) &&& ~~~Csr.mstatusMie) &&& f =
            c.csrs.mstatus &&& f := by
    intro f h1 h2 h3 h4
    rw [Masks.field_keep h1, Masks.field_edit h2 (hprev h4)]
    exact Masks.field_put h3 _
  have hstatus := h.status (h.view.trans (hkeep (by decide) (by decide) (by decide) (by decide)).symm)
    (mpp_privilege _ c.privilege) (hkeep (by decide) (by decide) (by decide) (by decide))
    (hkeep (by decide) (by decide) (by decide) (by decide))
  exact hstatus.of_guarded rfl

/-- A trap taken now goes to the supervisor. -/
def delegates (c : Cpu U) (t : Trap) : Bool :=
  c.privilege != .machine &&
    ((if (trapCode t).1 then c.csrs.mideleg else c.csrs.medeleg) >>> ((trapCode t).2.toNat % 64)).getLsbD 0

theorem trap_eq (hd : c.directMode = false) (t : Trap) (epc : U64) :
    c.trap t epc = if c.delegates t then
      { c with loadReservation := none }.trapToS (trapCode t).1 (trapCode t).2 (trapTval t) epc
    else { c with loadReservation := none }.trapToM (trapCode t).1 (trapCode t).2 (trapTval t) epc := by
  unfold trap
  dsimp only
  rw [if_neg (by simp [hd])]
  rfl

theorem trap_csrs_direct (hd : c.directMode = true) (t : Trap) (epc : U64) : (c.trap t epc).csrs = c.csrs := by
  unfold trap
  dsimp only
  rw [if_pos hd]

theorem trap_stored (h : c.csrs.Stored) (t : Trap) (epc : U64) : (c.trap t epc).csrs.Stored := by
  cases hd : c.directMode with
  | true =>
    rw [trap_csrs_direct hd]
    exact h
  | false =>
    rw [trap_eq hd]
    split
    · exact @trapToS_stored U { c with loadReservation := none } h _ _ _ _
    · exact @trapToM_stored U { c with loadReservation := none } h _ _ _ _

/-- **Trap entry** keeps the pcs even exactly when the interrupted one is. -/
theorem trap_evenPcs_iff (h : c.csrs.EvenPcs) (t : Trap) (epc : U64) :
    (c.trap t epc).csrs.EvenPcs ↔ (c.directMode = false → epc.getLsbD 0 = false) := by
  cases hd : c.directMode with
  | true =>
    rw [trap_csrs_direct hd]
    exact ⟨fun _ hf => absurd hf (by decide), fun _ => h⟩
  | false =>
    rw [trap_eq hd]
    split
    · exact ⟨fun he _ => he.2, fun he => ⟨h.1, he rfl⟩⟩
    · exact ⟨fun he _ => he.1, fun he => ⟨he rfl, h.2⟩⟩

theorem doMret_stored (h : c.csrs.Stored) : c.doMret.csrs.Stored := by
  unfold doMret
  dsimp only
  have hkeep : ∀ {f : U64}, ~~~Csr.mstatusMpp &&& f = f → Csr.mstatusMpie &&& f = 0 → Csr.mstatusMie &&& f = 0 →
      ((setBit c.csrs.mstatus Csr.mstatusMie (c.csrs.mstatus &&& Csr.mstatusMpie != 0) ||| Csr.mstatusMpie) &&&
        ~~~Csr.mstatusMpp) &&& f = c.csrs.mstatus &&& f := by
    intro f h1 h2 h3
    rw [Masks.field_keep h1]
    exact (Masks.field_put h2 true).trans (Masks.field_put h3 _)
  split
  · refine h.status ?_ (Csrs.mpp_of_zero (Masks.field_clear (by decide))) ?_ ?_
    · rw [Masks.field_keep (by decide), hkeep (by decide) (by decide) (by decide)]
      exact h.view
    · rw [Masks.field_keep (by decide)]
      exact hkeep (by decide) (by decide) (by decide)
    · rw [Masks.field_keep (by decide)]
      exact hkeep (by decide) (by decide) (by decide)
  · refine h.status ?_ (Csrs.mpp_of_zero (Csrs.take_none (by decide))) (hkeep (by decide) (by decide) (by decide))
      (hkeep (by decide) (by decide) (by decide))
    rw [hkeep (by decide) (by decide) (by decide)]
    exact h.view

theorem doSret_stored (h : c.csrs.Stored) : c.doSret.csrs.Stored := by
  refine stored_supervisorStack h (~~~Csr.mstatusMprv) ?_ (by decide) (by decide) (by decide) (by decide)
  rw [Masks.field_keep (by decide)]
  have hset : (setBit c.csrs.sstatus Csr.mstatusSie (c.csrs.sstatus &&& Csr.mstatusSpie != 0) ||| Csr.mstatusSpie) &&&
      ~~~supervisorStack = setBit c.csrs.sstatus Csr.mstatusSie (c.csrs.sstatus &&& Csr.mstatusSpie != 0) &&&
        ~~~supervisorStack := Masks.field_put (by decide) true
  exact hset.trans (Masks.field_put (by decide) _)

/-! ### CSR writes -/

theorem legalTvec_lt (v : U64) : legalTvec v &&& 3 < 2 := by
  unfold legalTvec
  split
  · rw [Csrs.take_none (by decide)]
    decide
  · rename_i h
    exact BitVec.not_le.mp h

theorem legalSatp_mode (v : U64) : ({ satp := legalSatp v } : Csrs).satpMode = Csr.satpModeBare ∨
    ({ satp := legalSatp v } : Csrs).satpMode = Csr.satpModeSv39 := by
  unfold legalSatp Csrs.satpMode
  dsimp only
  split
  · rename_i h
    exact h.symm
  · left
    rw [BitVec.ushiftRight_and_distrib, BitVec.and_assoc]
    have hclear :
        (~~~(Csr.satpModeMask <<< Csr.satpModeShift) >>> Csr.satpModeShift) &&& Csr.satpModeMask = 0 := by decide
    rw [hclear]
    exact BitVec.and_zero

theorem even_mask (v : U64) : (v &&& ~~~1).getLsbD 0 = false := by
  simp

/-- What a write of `v` may do to the guarded registers and the pcs. -/
inductive CsrEdit (c : Cpu U) (a : CsrAddr) (v : U64) : Csrs → Prop where
  | quiet {s : Csrs} (h : s.guarded = c.csrs.guarded) (hm : s.mepc = c.csrs.mepc) (hs : s.sepc = c.csrs.sepc) :
      CsrEdit c a v s
  | dirty {s : Csrs} (h : s.guarded = c.csrs.guarded) (hm : s.mepc = c.csrs.mepc) (hs : s.sepc = c.csrs.sepc) :
      CsrEdit c a v s.setFsDirty
  | trap (h : a = Csr.csrSimPanic) : CsrEdit c a v (c.trap (.requestedTrap v) c.pc).csrs
  | mstatus : CsrEdit c a v (writeMstatus c.csrs v)
  | sstatus : CsrEdit c a v (writeSstatus c.csrs v)
  | medeleg : CsrEdit c a v { c.csrs with medeleg := v &&& ~~~(1 <<< 11 : U64) }
  | mideleg : CsrEdit c a v { c.csrs with mideleg := v &&& Csr.supervisorInterrupts }
  | mtvec : CsrEdit c a v { c.csrs with mtvec := legalTvec v }
  | stvec : CsrEdit c a v { c.csrs with stvec := legalTvec v }
  | mepc : CsrEdit c a v { c.csrs with mepc := v &&& ~~~1 }
  | sepc : CsrEdit c a v { c.csrs with sepc := v &&& ~~~1 }
  | satp : CsrEdit c a v { c.csrs with satp := legalSatp v }

/-- One branch of `csr_write`. -/
theorem CsrEdit.ite {a : CsrAddr} {v : U64} {q : Prop} [Decidable q] {x y : Cpu U} (hx : q → CsrEdit c a v x.csrs)
    (hy : ¬q → CsrEdit c a v y.csrs) : CsrEdit c a v (if q then x else y).csrs := by
  split
  · exact hx ‹_›
  · exact hy ‹_›

variable [Units U]

theorem csrWrite_edit (c : Cpu U) (a : CsrAddr) (v : U64) : CsrEdit c a v (c.csrWrite a v).csrs := by
  unfold csrWrite
  dsimp only
  -- fflags, frm, fcsr
  refine CsrEdit.ite (fun _ => .dirty rfl rfl rfl) fun _ => ?_
  refine CsrEdit.ite (fun _ => .dirty rfl rfl rfl) fun _ => ?_
  refine CsrEdit.ite (fun _ => .dirty rfl rfl rfl) fun _ => ?_
  refine CsrEdit.ite .trap fun _ => ?_
  refine CsrEdit.ite (fun _ => .mstatus) fun _ => ?_
  refine CsrEdit.ite (fun _ => .medeleg) fun _ => ?_
  refine CsrEdit.ite (fun _ => .mideleg) fun _ => ?_
  -- mie
  refine CsrEdit.ite (fun _ => .quiet rfl rfl rfl) fun _ => ?_
  refine CsrEdit.ite (fun _ => .mtvec) fun _ => ?_
  -- misa, mscratch
  refine CsrEdit.ite (fun _ => .quiet rfl rfl rfl) fun _ => ?_
  refine CsrEdit.ite (fun _ => .quiet rfl rfl rfl) fun _ => ?_
  refine CsrEdit.ite (fun _ => .mepc) fun _ => ?_
  -- mcause, mtval, mip
  refine CsrEdit.ite (fun _ => .quiet rfl rfl rfl) fun _ => ?_
  refine CsrEdit.ite (fun _ => .quiet rfl rfl rfl) fun _ => ?_
  refine CsrEdit.ite (fun _ => .quiet rfl rfl rfl) fun _ => ?_
  refine CsrEdit.ite (fun _ => .sstatus) fun _ => ?_
  -- sie
  refine CsrEdit.ite (fun _ => .quiet rfl rfl rfl) fun _ => ?_
  refine CsrEdit.ite (fun _ => .stvec) fun _ => ?_
  -- sscratch
  refine CsrEdit.ite (fun _ => .quiet rfl rfl rfl) fun _ => ?_
  refine CsrEdit.ite (fun _ => .sepc) fun _ => ?_
  -- scause, stval, sip, mcounteren, scounteren, menvcfg
  refine CsrEdit.ite (fun _ => .quiet rfl rfl rfl) fun _ => ?_
  refine CsrEdit.ite (fun _ => .quiet rfl rfl rfl) fun _ => ?_
  refine CsrEdit.ite (fun _ => .quiet rfl rfl rfl) fun _ => ?_
  refine CsrEdit.ite (fun _ => .quiet rfl rfl rfl) fun _ => ?_
  refine CsrEdit.ite (fun _ => .quiet rfl rfl rfl) fun _ => ?_
  refine CsrEdit.ite (fun _ => .quiet rfl rfl rfl) fun _ => ?_
  -- mcycle, minstret, the PMP registers, stimecmp
  refine CsrEdit.ite (fun _ => .quiet rfl rfl rfl) fun _ => ?_
  refine CsrEdit.ite (fun _ => .quiet rfl rfl rfl) fun _ => ?_
  refine CsrEdit.ite (fun _ => .quiet rfl rfl rfl) fun _ => ?_
  refine CsrEdit.ite (fun _ => .quiet rfl rfl rfl) fun _ => ?_
  refine CsrEdit.ite (fun _ => .quiet rfl rfl rfl) fun _ => ?_
  refine CsrEdit.ite (fun _ => .quiet rfl rfl rfl) fun _ => ?_
  exact CsrEdit.ite (fun _ => .satp) fun _ => .quiet rfl rfl rfl

omit [Units U] in
theorem CsrEdit.stored {a : CsrAddr} {v : U64} {s : Csrs} (he : CsrEdit c a v s) (h : c.csrs.Stored) : s.Stored := by
  cases he with
  | quiet hg => exact h.of_guarded hg
  | dirty hg => exact (h.of_guarded hg).setFsDirty
  | trap => exact trap_stored h _ _
  | mstatus => exact h.writeMstatus v
  | sstatus => exact h.writeSstatus v
  | medeleg => exact ⟨h.view, h.mpp, h.uxl, h.sxl, h.mideleg, by simp, h.satp, h.mtvec, h.stvec⟩
  | mideleg =>
    exact ⟨h.view, h.mpp, h.uxl, h.sxl, Csrs.take_none (by decide), h.medeleg, h.satp, h.mtvec, h.stvec⟩
  | mtvec => exact ⟨h.view, h.mpp, h.uxl, h.sxl, h.mideleg, h.medeleg, h.satp, legalTvec_lt v, h.stvec⟩
  | stvec => exact ⟨h.view, h.mpp, h.uxl, h.sxl, h.mideleg, h.medeleg, h.satp, h.mtvec, legalTvec_lt v⟩
  | mepc => exact h.of_guarded rfl
  | sepc => exact h.of_guarded rfl
  | satp => exact ⟨h.view, h.mpp, h.uxl, h.sxl, h.mideleg, h.medeleg, legalSatp_mode v, h.mtvec, h.stvec⟩

omit [Units U] in
theorem CsrEdit.evenPcs {a : CsrAddr} {v : U64} {s : Csrs} (he : CsrEdit c a v s) (h : c.csrs.EvenPcs)
    (hp : a = Csr.csrSimPanic → c.directMode = false → c.pc.getLsbD 0 = false) : s.EvenPcs := by
  cases he with
  | quiet _ hm hs =>
    rw [Csrs.EvenPcs, hm, hs]
    exact h
  | dirty _ hm hs =>
    refine ⟨?_, ?_⟩
    · exact (congrArg (fun x : U64 => x.getLsbD 0) hm).trans h.1
    · exact (congrArg (fun x : U64 => x.getLsbD 0) hs).trans h.2
  | trap ha => exact (trap_evenPcs_iff h _ _).mpr (hp ha)
  | mepc => exact ⟨even_mask v, h.2⟩
  | sepc => exact ⟨h.1, even_mask v⟩
  | mstatus => exact h
  | sstatus => exact h
  | medeleg => exact h
  | mideleg => exact h
  | mtvec => exact h
  | stvec => exact h
  | satp => exact h

/-! ### Runs -/

end Cpu

/-- What touches the stored CSRs, and fetch, which moves the pc between them. -/
inductive CsrEvent where
  | write (a : CsrAddr) (v : U64)
  | trap (t : Trap) (epc : U64)
  | mret
  | sret
  /-- Commit of an instruction that writes an FP register or raises `flags`. -/
  | dirty (flags : U64)
  | fetch (pc : U64)
  deriving DecidableEq, Repr

/-- A trap entered in this step interrupts an even pc. -/
def CsrEvent.Aligned (c : Cpu U) : CsrEvent → Prop
  | .write a _ => a = Csr.csrSimPanic → c.directMode = false → c.pc.getLsbD 0 = false
  | .trap _ epc => c.directMode = false → epc.getLsbD 0 = false
  | _ => True

namespace Cpu

variable [Units U] {c : Cpu U}

def csrEvent (c : Cpu U) : CsrEvent → Cpu U
  | .write a v => c.csrWrite a v
  | .trap t epc => c.trap t epc
  | .mret => c.doMret
  | .sret => c.doSret
  | .dirty flags => { c with csrs := { c.csrs with fflags := c.csrs.fflags ||| flags }.setFsDirty }
  | .fetch pc => { c with pc := pc }

/-- Every step of the sequence is aligned where it is taken. -/
def AlignedRun (c : Cpu U) : List CsrEvent → Prop
  | [] => True
  | ev :: evs => ev.Aligned c ∧ (c.csrEvent ev).AlignedRun evs

/-- **One step** keeps what is stored in step. -/
theorem csrEvent_stored (h : c.csrs.Stored) (ev : CsrEvent) : (c.csrEvent ev).csrs.Stored := by
  cases ev with
  | write a v => exact (csrWrite_edit c a v).stored h
  | trap t epc => exact trap_stored h t epc
  | mret => exact doMret_stored h
  | sret => exact doSret_stored h
  | dirty flags =>
    have hf : Csrs.Stored { c.csrs with fflags := c.csrs.fflags ||| flags } := h.of_guarded rfl
    exact hf.setFsDirty
  | fetch pc => exact h

/-- **One step** keeps the CSRs legal exactly when it is aligned. -/
theorem csrEvent_legal_iff (h : c.csrs.Legal) (ev : CsrEvent) : (c.csrEvent ev).csrs.Legal ↔ ev.Aligned c := by
  have hpcs : (c.csrEvent ev).csrs.EvenPcs ↔ ev.Aligned c := by
    cases ev with
    | write a v =>
      refine ⟨fun hl ha => ?_, (csrWrite_edit c a v).evenPcs h.pcs⟩
      subst ha
      exact (trap_evenPcs_iff h.pcs (.requestedTrap v) c.pc).mp hl
    | trap t epc => exact trap_evenPcs_iff h.pcs t epc
    | mret => exact ⟨fun _ => trivial, fun _ => h.pcs⟩
    | sret => exact ⟨fun _ => trivial, fun _ => h.pcs⟩
    | dirty flags => exact ⟨fun _ => trivial, fun _ => h.pcs⟩
    | fetch pc => exact ⟨fun _ => trivial, fun _ => h.pcs⟩
  exact ⟨fun hl => hpcs.mp hl.pcs, fun ha => ⟨csrEvent_stored h.toStored ev, hpcs.mpr ha⟩⟩

omit [Units U] in
theorem new_legal (cfg : Config) (mem : Mem) (u : U) : (Cpu.new cfg mem u).csrs.Legal := by
  have hzero : Csrs.Stored
      { mstatus := Csr.mstatusDefaultRv64, sstatus := Csr.mstatusDefaultRv64 &&& Csr.sstatusMask } :=
    ⟨rfl, by decide, by decide, by decide, by decide, by decide, Or.inl (by decide), by decide, by decide⟩
  have hinit : Csrs.Stored
      { mstatus := Csr.mstatusDefaultRv64 ||| Csr.mstatusFsInit
        sstatus := (Csr.mstatusDefaultRv64 ||| Csr.mstatusFsInit) &&& Csr.sstatusMask } :=
    hzero.status rfl (by decide) (by decide) (by decide)
  refine ⟨?_, BitVec.getLsbD_zero, BitVec.getLsbD_zero⟩
  unfold Cpu.new
  cases cfg.directMode with
  | true => exact hinit.of_guarded rfl
  | false => exact hzero.of_guarded rfl

omit [Units U] in
/-- Both status registers show the same FP state. -/
theorem fpState_eq (h : c.csrs.Stored) :
    c.csrRead Csr.mstatus &&& Csr.fpState = c.csrRead Csr.sstatus &&& Csr.fpState := by
  have hm : c.csrRead Csr.mstatus = withSd c.csrs.mstatus := rfl
  have hs : c.csrRead Csr.sstatus = withSd c.csrs.sstatus := rfl
  have hfs : ∀ x k : U64, k &&& Csr.mstatusFs = Csr.mstatusFs → (x &&& k) &&& Csr.mstatusFs = x &&& Csr.mstatusFs :=
    fun x k hk => Masks.field_keep hk
  have hfield : (c.csrs.sstatus &&& ~~~Csr.mstatusSd) &&& Csr.mstatusFs =
      (c.csrs.mstatus &&& ~~~Csr.mstatusSd) &&& Csr.mstatusFs := by
    rw [hfs _ _ (by decide), hfs _ _ (by decide), h.view, hfs _ _ (by decide)]
  -- with SD cleared, what is left of FS and SD is FS
  have hshow : ∀ x : U64, withSd x &&& Csr.fpState =
      if (x &&& ~~~Csr.mstatusSd) &&& Csr.mstatusFs = Csr.mstatusFsDirty then Csr.fpState
      else (x &&& ~~~Csr.mstatusSd) &&& Csr.mstatusFs := by
    intro x
    have hsplit : ∀ y : U64, (x &&& ~~~Csr.mstatusSd ||| y) &&& Csr.fpState =
        ((x &&& ~~~Csr.mstatusSd) &&& Csr.mstatusFs) ||| (y &&& Csr.fpState) := by
      intro y
      rw [BitVec.and_or_distrib_right]
      congr 1
      rw [BitVec.and_assoc, BitVec.and_assoc]
      rfl
    unfold withSd
    dsimp only
    split
    · rename_i hd
      rw [hsplit, hd]
      rfl
    · simpa using hsplit 0
  rw [hm, hs, hshow, hshow, hfield]

/-- **Legality over runs.** The CSRs are legal, and both status registers show the same FP state, in
every state of a run exactly when every trap of the run interrupts an even pc. -/
theorem csrRuns_legal_iff (cfg : Config) (mem : Mem) (u : U) (evs : List CsrEvent) :
    (∀ pre post, evs = pre ++ post → (pre.foldl csrEvent (Cpu.new cfg mem u)).csrs.Legal ∧
      (pre.foldl csrEvent (Cpu.new cfg mem u)).csrRead Csr.mstatus &&& Csr.fpState =
        (pre.foldl csrEvent (Cpu.new cfg mem u)).csrRead Csr.sstatus &&& Csr.fpState) ↔
      (Cpu.new cfg mem u).AlignedRun evs := by
  have hruns : ∀ (evs : List CsrEvent) (c : Cpu U), c.csrs.Legal →
      ((∀ pre post, evs = pre ++ post → (pre.foldl csrEvent c).csrs.Legal) ↔ c.AlignedRun evs) := by
    intro evs
    induction evs with
    | nil =>
      intro c hc
      refine ⟨fun _ => trivial, fun _ pre post he => ?_⟩
      rw [(List.append_eq_nil_iff.mp he.symm).1]
      exact hc
    | cons ev evs ih =>
      intro c hc
      constructor
      · intro hall
        have hstep := hall [ev] evs rfl
        refine ⟨(csrEvent_legal_iff hc ev).mp hstep, (ih _ hstep).mp fun pre post he => ?_⟩
        exact hall (ev :: pre) post (by rw [he]; rfl)
      · rintro ⟨hev, hrest⟩ pre post he
        cases pre with
        | nil => exact hc
        | cons x pre =>
          rw [List.cons_append, List.cons.injEq] at he
          obtain ⟨rfl, he⟩ := he
          have hstep := (csrEvent_legal_iff hc ev).mpr hev
          exact (ih _ hstep).mpr hrest pre post he
  rw [← hruns evs _ (new_legal cfg mem u)]
  exact ⟨fun hall pre post he => (hall pre post he).1,
      fun hall pre post he => ⟨hall pre post he, fpState_eq (hall pre post he).toStored⟩⟩

end Cpu

/-- A machine that starts at an odd pc. -/
def oddStart : Config := { O3Pipeline.smallO3 with directMode := false, startPc := 0x80000001 }

/-- The first fetch traps and the trap stores the odd pc, in a sequence of events and in the pipeline. -/
theorem oddStart_mepc :
    (¬∀ pre : List CsrEvent, (pre.foldl Cpu.csrEvent (Cpu.new oddStart (fun _ => 0) ({} : Bench))).csrs.Legal) ∧
      ∃ p : O3Pipeline Bench, O3Pipeline.Reach oddStart p ∧ p.core.cpu.csrs.mepc = 0x80000001 ∧
          ¬p.core.cpu.csrs.Legal := by
  refine ⟨fun h => ?_, ?_⟩
  · have hl := h [.trap (.instructionAddressMisaligned 0x80000001) 0x80000001]
    exact absurd hl.pcs.1 (by decide)
  · have hrun : O3Pipeline.Run oddStart (fun _ _ => True)
        ((O3Pipeline.init oddStart (Cpu.new oddStart (fun _ => 0) ({} : Bench))).ticks 7) :=
      O3Pipeline.Run.ticks 7 (.init _ (O3Pipeline.loaded_new oddStart _ _)) (by decide)
    have hodd : ((O3Pipeline.init oddStart (Cpu.new oddStart (fun _ => 0) ({} : Bench))).ticks 7).core.cpu.csrs.mepc =
        0x80000001 := by decide +kernel
    refine ⟨_, hrun.reach, hodd, fun hl => ?_⟩
    have he := hl.pcs.1
    rw [hodd] at he
    exact absurd he (by decide)

end Rvsim
