/-
# The supervisor external interrupt bit

`mip.SEIP` shows the controller's line or a bit that software has written,
and `sw_seip` remembers the latter. A CSR instruction computes the new word
from the shown bit when it executes and writes it when it commits, with any
number of ticks in between; so a read-modify-write that leaves `SEIP` alone
writes back what was shown.

Key definitions:
  - `SeipRun`: the hart, the CSR instructions in flight and the software's bit
  - `SeipRun.Right`, `SeipRun.Unlatched`
Key theorems:
  - `Cpu.updateMip_seip`, `Cpu.csrWrite_seip`, `SeipRun.step_inv`, `SeipRun.right_iff`
-/
import Rvsim.Pipeline
import Rvsim.Plic

namespace Rvsim

variable {U : Type}

namespace Cpu

/-- `mip.SEIP` as it is shown. -/
def seip (c : Cpu U) : Bool := c.csrs.mip.getLsbD 9

theorem setBit_ninth (x : U64) (n : Nat) (hn : n < 64) (h9 : n ≠ 9) (on : Bool) :
    (setBit x ((1 : U64) <<< n) on).getLsbD 9 = x.getLsbD 9 := by
  have hbit : ((1 : U64) <<< n).getLsbD 9 = false := by
    rw [Masks.getLsbD_bit n 9 hn]
    exact decide_eq_false fun h => h9 h.symm
  have hput := Masks.getLsbD_put x ((1 : U64) <<< n) on 9
  rw [hbit] at hput
  exact hput

/-- After a tick the bit shows the line, or what was there if software had written it. -/
theorem updateMip_seip (c : Cpu U) (timer msip meip line : Bool) :
    (c.updateMip timer msip meip line).getLsbD 9 = (line || (c.swSeip && c.seip)) := by
  have hset : ∀ x : U64, (x ||| Csr.mipSeip).getLsbD 9 = true := fun x => by
    rw [BitVec.getLsbD_or, show Csr.mipSeip.getLsbD 9 = true by decide, Bool.or_true]
  have hclear : ∀ x : U64, (x &&& ~~~Csr.mipSeip).getLsbD 9 = false := fun x => by
    rw [BitVec.getLsbD_and, show (~~~Csr.mipSeip).getLsbD 9 = false by decide, Bool.and_false]
  have hlines : (setBit (setBit (setBit c.csrs.mip Csr.mipMtip timer) Csr.mipMsip msip) Csr.mipMeip meip).getLsbD 9 =
      c.seip := by
    exact (setBit_ninth _ 11 (by decide) (by decide) _).trans
      ((setBit_ninth _ 3 (by decide) (by decide) _).trans (setBit_ninth _ 7 (by decide) (by decide) _))
  unfold updateMip
  dsimp only
  rw [apply_ite (fun x : U64 => x.getLsbD 9), show Csr.mipStip = (1 : U64) <<< 5 from rfl,
    setBit_ninth _ 5 (by decide) (by decide), ite_self]
  cases line with
  | true => rw [if_pos rfl, hset, Bool.true_or]
  | false =>
    cases hsw : c.swSeip with
    | true => rw [if_neg (by decide), if_pos rfl, hlines, Bool.true_and, Bool.false_or]
    | false => rw [if_neg (by decide), if_neg (by decide), hclear, Bool.false_and, Bool.false_or]

theorem trap_seip (c : Cpu U) (t : Trap) (epc : U64) :
    (c.trap t epc).csrs.mip = c.csrs.mip ∧ (c.trap t epc).swSeip = c.swSeip := by
  constructor
  · simp only [trap, trapToS, trapToM, apply_ite Cpu.csrs, apply_ite Csrs.mip, ite_self]
  · simp only [trap, trapToS, trapToM, apply_ite Cpu.swSeip, ite_self]

variable [Units U]

/-- A write of `mip` sets the shown bit and the software's bit; no other CSR write touches either. -/
theorem csrWrite_seip (c : Cpu U) (a : CsrAddr) (v : U64) :
    (c.csrWrite a v).seip = (if a = Csr.mip then v.getLsbD 9 else c.seip) ∧
      (c.csrWrite a v).swSeip = if a = Csr.mip then v.getLsbD 9 else c.swSeip := by
  by_cases ha : a = Csr.mip
  · subst ha
    have hw : c.csrWrite Csr.mip v = { c with
        csrs := { c.csrs with mip := (c.csrs.mip &&& ~~~(Csr.mipSsip ||| Csr.mipStip ||| Csr.mipSeip)) |||
          (v &&& (Csr.mipSsip ||| Csr.mipStip ||| Csr.mipSeip)) }
        swSeip := v &&& Csr.mipSeip != 0 } := rfl
    rw [hw, if_pos rfl, if_pos rfl]
    refine ⟨?_, Masks.test_bit v (by decide)⟩
    unfold seip
    rw [BitVec.getLsbD_or, BitVec.getLsbD_and, BitVec.getLsbD_and,
      show (~~~(Csr.mipSsip ||| Csr.mipStip ||| Csr.mipSeip)).getLsbD 9 = false by decide,
      show (Csr.mipSsip ||| Csr.mipStip ||| Csr.mipSeip).getLsbD 9 = true by decide, Bool.and_false, Bool.false_or,
      Bool.and_true]
  · have ht := c.trap_seip (.requestedTrap v) c.pc
    have hdirty : ∀ s : Csrs, s.setFsDirty.mip = s.mip := fun _ => rfl
    have hms : (writeMstatus c.csrs v).mip = c.csrs.mip := rfl
    have hss : (writeSstatus c.csrs v).mip = c.csrs.mip := rfl
    -- `sip` writes `SSIP` at most, and `stimecmp` clears `STIP`
    have hsip : ((c.csrs.mip &&& ~~~(c.csrs.mideleg &&& Csr.mipSsip)) |||
        (v &&& (c.csrs.mideleg &&& Csr.mipSsip))).getLsbD 9 =
        c.csrs.mip.getLsbD 9 := by
      rw [BitVec.getLsbD_or, BitVec.getLsbD_and, BitVec.getLsbD_and, BitVec.getLsbD_not, BitVec.getLsbD_and,
        show Csr.mipSsip.getLsbD 9 = false by decide]
      simp
    have hstip : (c.csrs.mip &&& ~~~Csr.mipStip).getLsbD 9 = c.csrs.mip.getLsbD 9 := by
      rw [BitVec.getLsbD_and, show (~~~Csr.mipStip).getLsbD 9 = true by decide, Bool.and_true]
    rw [if_neg ha, if_neg ha]
    constructor
    · unfold seip
      simp only [csrWrite, if_neg ha, apply_ite Cpu.csrs, apply_ite Csrs.mip,
          apply_ite (fun x : U64 => x.getLsbD 9), ht.1,
        hdirty, hms, hss, hsip, hstip, ite_self]
    · simp only [csrWrite, if_neg ha, apply_ite Cpu.swSeip, ht.2, ite_self]

/-- The line of the supervisor that the next tick samples. -/
def seipLine (c : Cpu U) : Bool := (Units.busTick c.units c.mem).1.2.2.2

theorem preTick_seip {c : Cpu U} (h : Units.checkExit c.units = none) :
    c.preTick.2.seip = (c.seipLine || (c.swSeip && c.seip)) ∧ c.preTick.2.swSeip = c.swSeip := by
  unfold preTick
  rw [h]
  exact ⟨updateMip_seip _ _ _ _ _, rfl⟩

theorem preTick_exit {c : Cpu U} {code : U64} (h : Units.checkExit c.units = some code) :
    c.preTick.2.seip = c.seip ∧ c.preTick.2.swSeip = c.swSeip := by
  unfold preTick
  rw [h]
  exact ⟨rfl, rfl⟩

/-- The update that executing a CSR instruction records. -/
def csrUpdateOf (c : Cpu U) (addr : CsrAddr) (op : CsrOp) (rs1 : RegIdx) (fwdA : U64) : CsrUpdate :=
  ⟨addr, c.csrRead addr, O3.csrNew op (c.csrRead addr) (O3.csrSrc op rs1 fwdA), false⟩

omit [Units U] in
theorem executeCsr_update (c : Cpu U) {id : RenameIssueEntry} (hl : O3.csrIllegal c id = false)
    (hw : O3.wouldWrite id.ctrl.csrOp id.rs1 = true) (hf : O3.isFpCsr id.ctrl.csrAddr = false) (rob : Rob)
    (fwdA data : U64) :
    (O3.executeCsr c id rob fwdA data).rob =
      rob.setCsrUpdate id.robTag (c.csrUpdateOf id.ctrl.csrAddr id.ctrl.csrOp id.rs1 fwdA) := by
  unfold O3.executeCsr O3.drainFpFlags
  rw [hl, hw, hf]
  rfl

end Cpu

/-! ### Runs -/

/-- A CSR instruction that has executed and has not committed. -/
structure CsrInFlight where
  op : CsrOp
  src : U64
  update : CsrUpdate
  deriving DecidableEq, Repr

/-- What the instruction does to `SEIP` as software wrote it. -/
def softwareAfter (op : CsrOp) (src : U64) (bit : Bool) : Bool :=
  match op with
  | .rw | .rwi => src.getLsbD 9
  | .rs | .rsi => bit || src.getLsbD 9
  | .rc | .rci => bit && !src.getLsbD 9
  | .none => bit

/-- The instruction sets or clears bits of `mip`, and `SEIP` is none of them. -/
def CsrInFlight.LeavesSeip (p : CsrInFlight) : Prop :=
  p.update.addr = Csr.mip ∧ p.op ≠ .rw ∧ p.op ≠ .rwi ∧ p.src.getLsbD 9 = false

theorem csrNew_seip (op : CsrOp) (old src : U64) :
    (O3.csrNew op old src).getLsbD 9 = softwareAfter op src (old.getLsbD 9) := by
  cases op <;> simp [O3.csrNew, softwareAfter, -BitVec.getLsbD_eq_getElem]

inductive SeipEvent (U : Type) where
  | preTick
  | execute (addr : CsrAddr) (op : CsrOp) (rs1 : RegIdx) (fwdA : U64)
  /-- The oldest CSR instruction in flight commits. -/
  | commit
  /-- All but the `n` oldest are squashed. -/
  | squash (n : Nat)
  /-- Anything else: it leaves `mip` and the software's bit alone. -/
  | other (f : Cpu U → Cpu U)

/-- The hart with its CSR instructions in flight, and `SEIP` as software has written it last. -/
structure SeipRun (U : Type) where
  cpu : Cpu U
  inFlight : List CsrInFlight
  software : Bool

namespace SeipRun

variable [Units U]

def init (c : Cpu U) : SeipRun U := ⟨c, [], false⟩

def commit (s : SeipRun U) : SeipRun U :=
  match s.inFlight with
  | [] => s
  | p :: ps =>
    { cpu := s.cpu.csrWrite p.update.addr p.update.newVal
      inFlight := ps
      software := if p.update.addr = Csr.mip then softwareAfter p.op p.src s.software else s.software }

def step (s : SeipRun U) : SeipEvent U → SeipRun U
  | .preTick => { s with cpu := s.cpu.preTick.2 }
  | .execute addr op rs1 fwdA =>
    if O3.wouldWrite op rs1 then
      { s with inFlight := s.inFlight ++ [⟨op, O3.csrSrc op rs1 fwdA, s.cpu.csrUpdateOf addr op rs1 fwdA⟩] }
    else s
  | .commit => s.commit
  | .squash n => { s with inFlight := s.inFlight.take n }
  | .other f =>
    { s with cpu := { f s.cpu with csrs := { (f s.cpu).csrs with mip := s.cpu.csrs.mip }, swSeip := s.cpu.swSeip } }

/-- `P` holds at every event of the run. -/
def Always (P : SeipRun U → SeipEvent U → Prop) (s : SeipRun U) : List (SeipEvent U) → Prop
  | [] => True
  | ev :: evs => P s ev ∧ Always P (s.step ev) evs

/-- After a tick the bit shows the line or the software's bit, and an instruction that leaves `SEIP` alone
does not change the software's bit. -/
def Right (s : SeipRun U) : SeipEvent U → Prop
  | .preTick => Units.checkExit s.cpu.units = none → (s.step .preTick).cpu.seip = (s.cpu.seipLine || s.software)
  | .commit => ∀ p ps, s.inFlight = p :: ps → p.LeavesSeip → (s.step .commit).cpu.swSeip = s.cpu.swSeip
  | _ => True

/-- An instruction that leaves `SEIP` alone has read the software's bit from it. -/
def Unlatched (s : SeipRun U) : SeipEvent U → Prop
  | .commit => ∀ p ps, s.inFlight = p :: ps → p.LeavesSeip → p.update.oldVal.getLsbD 9 = s.cpu.swSeip
  | _ => True

structure Inv (s : SeipRun U) : Prop where
  software : s.cpu.swSeip = s.software
  shown : s.software = true → s.cpu.seip = true
  inFlight : ∀ p ∈ s.inFlight, p.op ≠ .none ∧ p.update.newVal = O3.csrNew p.op p.update.oldVal p.src

omit [Units U] in
theorem init_inv (cfg : Config) (mem : Mem) (u : U) : (init (Cpu.new cfg mem u)).Inv := by
  refine ⟨?_, fun h => absurd h Bool.false_ne_true, fun p hp => absurd hp (by simp [init])⟩
  unfold init Cpu.new
  split <;> rfl

/-- What a commit does to both bits. -/
theorem commit_bits {s : SeipRun U} {p : CsrInFlight} {ps : List CsrInFlight} (h : s.inFlight = p :: ps)
    (hp : p.update.newVal = O3.csrNew p.op p.update.oldVal p.src) :
    s.commit.cpu.swSeip = (if p.update.addr = Csr.mip then softwareAfter p.op p.src (p.update.oldVal.getLsbD 9)
      else s.cpu.swSeip) ∧
    s.commit.cpu.seip = (if p.update.addr = Csr.mip then softwareAfter p.op p.src (p.update.oldVal.getLsbD 9)
      else s.cpu.seip) ∧
    s.commit.software = (if p.update.addr = Csr.mip then softwareAfter p.op p.src s.software else s.software) ∧
    s.commit.inFlight = ps := by
  have hw := s.cpu.csrWrite_seip p.update.addr p.update.newVal
  rw [hp, csrNew_seip, ← hp] at hw
  unfold commit
  rw [h]
  exact ⟨hw.2, hw.1, rfl, rfl⟩

omit [Units U] in
/-- Where the instruction leaves `SEIP` alone it writes back what it has read. -/
theorem softwareAfter_leaves {p : CsrInFlight} (h : p.LeavesSeip) (bit : Bool) :
    softwareAfter p.op p.src bit = bit := by
  obtain ⟨-, hrw, hrwi, hsrc⟩ := h
  unfold softwareAfter
  cases hop : p.op with
  | rw => exact absurd hop hrw
  | rwi => exact absurd hop hrwi
  | none => rfl
  | _ => simp [hsrc, -BitVec.getLsbD_eq_getElem]

omit [Units U] in
/-- Elsewhere what it has read does not matter. -/
theorem softwareAfter_writes {p : CsrInFlight} (ha : p.update.addr = Csr.mip) (hop : p.op ≠ .none) (h : ¬p.LeavesSeip)
    (b b' : Bool) : softwareAfter p.op p.src b = softwareAfter p.op p.src b' := by
  have hcase : p.op = .rw ∨ p.op = .rwi ∨ p.src.getLsbD 9 = true := by
    by_contra hn
    simp only [not_or, Bool.not_eq_true] at hn
    exact h ⟨ha, hn.1, hn.2.1, hn.2.2⟩
  unfold softwareAfter
  rcases hcase with hc | hc | hc
  · rw [hc]
  · rw [hc]
  · rw [hc]
    cases hp : p.op with
    | none => exact absurd hp hop
    | _ => simp

/-- A commit keeps the two bits in step when it meets `Unlatched`. -/
theorem commit_inv {s : SeipRun U} (h : s.Inv) (hu : s.Unlatched .commit) : s.commit.Inv := by
  cases hin : s.inFlight with
  | nil =>
    have hs : s.commit = s := by
      unfold commit
      rw [hin]
    rw [hs]
    exact h
  | cons p ps =>
    obtain ⟨hop, hp⟩ := h.inFlight p (by rw [hin]; exact List.mem_cons_self)
    obtain ⟨hsw, hshown, hsoft, hrest⟩ := commit_bits hin hp
    have hps : ∀ q ∈ s.commit.inFlight, q.op ≠ .none ∧ q.update.newVal = O3.csrNew q.op q.update.oldVal q.src := by
      intro q hq
      rw [hrest] at hq
      exact h.inFlight q (by rw [hin]; exact List.mem_cons_of_mem _ hq)
    by_cases ha : p.update.addr = Csr.mip
    · rw [if_pos ha] at hsw hshown hsoft
      have heq : softwareAfter p.op p.src (p.update.oldVal.getLsbD 9) = softwareAfter p.op p.src s.software := by
        by_cases hl : p.LeavesSeip
        · rw [hu p ps hin hl, h.software]
        · exact softwareAfter_writes ha hop hl _ _
      refine ⟨hsw.trans (heq.trans hsoft.symm), fun hon => ?_, hps⟩
      rw [hshown, heq, ← hsoft]
      exact hon
    · rw [if_neg ha] at hsw hshown hsoft
      refine ⟨by rw [hsw, hsoft, h.software], fun hon => ?_, hps⟩
      rw [hsoft] at hon
      rw [hshown]
      exact h.shown hon

/-- **One step** keeps the invariant when it meets `Unlatched`. -/
theorem step_inv {s : SeipRun U} (h : s.Inv) {ev : SeipEvent U} (hu : s.Unlatched ev) : (s.step ev).Inv := by
  cases ev with
  | preTick =>
    cases hx : Units.checkExit s.cpu.units with
    | some code =>
      obtain ⟨hseip, hsw⟩ := Cpu.preTick_exit hx
      exact ⟨hsw.trans h.software, fun hon => hseip.trans (h.shown hon), h.inFlight⟩
    | none =>
      obtain ⟨hseip, hsw⟩ := Cpu.preTick_seip hx
      refine ⟨hsw.trans h.software, fun hon => ?_, h.inFlight⟩
      have hon' : s.software = true := hon
      show s.cpu.preTick.2.seip = true
      rw [hseip, h.software, hon', h.shown hon']
      simp
  | execute addr op rs1 fwdA =>
    unfold step
    dsimp only
    split
    · rename_i hw
      refine ⟨h.software, h.shown, fun p hp => ?_⟩
      rcases List.mem_append.mp hp with hp | hp
      · exact h.inFlight p hp
      · rw [List.mem_singleton.mp hp]
        refine ⟨fun hn => ?_, rfl⟩
        dsimp only at hn
        rw [hn] at hw
        exact absurd hw (by simp [O3.wouldWrite])
    · exact h
  | commit => exact commit_inv h hu
  | squash n => exact ⟨h.software, h.shown, fun p hp => h.inFlight p (List.mem_of_mem_take hp)⟩
  | other f => exact ⟨h.software, h.shown, h.inFlight⟩

/-- At each event, a step is right exactly when it meets `Unlatched`. -/
theorem right_step_iff {s : SeipRun U} (h : s.Inv) (ev : SeipEvent U) : s.Right ev ↔ s.Unlatched ev := by
  cases ev with
  | preTick =>
    refine ⟨fun _ => trivial, fun _ hx => ?_⟩
    refine (Cpu.preTick_seip hx).1.trans ?_
    rw [h.software]
    cases hon : s.software with
    | false => rw [Bool.false_and]
    | true => rw [h.shown hon, Bool.true_and]
  | commit =>
    have hbits : ∀ p ps, s.inFlight = p :: ps → p.LeavesSeip →
        (s.step .commit).cpu.swSeip = p.update.oldVal.getLsbD 9 := by
      intro p ps hin hl
      have hp := (h.inFlight p (by rw [hin]; exact List.mem_cons_self)).2
      have hsw := (commit_bits hin hp).1
      rw [if_pos hl.1, softwareAfter_leaves hl] at hsw
      exact hsw
    constructor
    · intro hr p ps hin hl
      rw [← hbits p ps hin hl]
      exact hr p ps hin hl
    · intro hu p ps hin hl
      rw [hbits p ps hin hl]
      exact hu p ps hin hl
  | execute addr op rs1 fwdA => exact Iff.rfl
  | squash n => exact Iff.rfl
  | other f => exact Iff.rfl

/-- **SEIP.** Over a whole run the bit is right exactly when each committed instruction that sets or clears
other bits of `mip` has read from `SEIP` the software's bit. -/
theorem right_iff (cfg : Config) (mem : Mem) (u : U) (evs : List (SeipEvent U)) :
    (init (Cpu.new cfg mem u)).Always Right evs ↔ (init (Cpu.new cfg mem u)).Always Unlatched evs := by
  have hruns : ∀ (evs : List (SeipEvent U)) (s : SeipRun U), s.Inv → (s.Always Right evs ↔ s.Always Unlatched evs) := by
    intro evs
    induction evs with
    | nil => exact fun _ _ => Iff.rfl
    | cons ev evs ih =>
      intro s h
      constructor
      · rintro ⟨hev, hrest⟩
        have hu := (right_step_iff h ev).mp hev
        exact ⟨hu, (ih _ (step_inv h hu)).mp hrest⟩
      · rintro ⟨hev, hrest⟩
        exact ⟨(right_step_iff h ev).mpr hev, (ih _ (step_inv h hev)).mpr hrest⟩
  exact hruns evs _ (init_inv cfg mem u)

end SeipRun

/-- Devices reduced to a PLIC and the lines into it. -/
structure PlicBench where
  plic : Plic := {}
  lines : U64 := 0

instance : Units PlicBench where
  translateWithPmp u _ va _ _ _ _ := (⟨va, 0, none, none⟩, u)
  isValidAddress _ _ := true
  busRead u a _ :=
    let (v, p) := u.plic.readU32 (a - 0x0c000000)
    (v.setWidth 64, { u with plic := p })
  busWrite u m a _ v := ({ u with plic := u.plic.writeU32 (a - 0x0c000000) (v.setWidth 32) }, m)
  busTick u m :=
    let ((meip, seip), p) := (u.plic.updateIrqs u.lines).checkInterrupts
    ((false, false, meip, seip), { u with plic := p }, m)
  checkExit _ := none
  simulateMemoryAccess u _ _ := (0, u)
  simulateL1dMissLatency u _ _ := (0, u)
  l1dAccessCheck u _ _ := (true, u)
  l1dLatency _ := 0
  l1iEnabled _ := false
  predictBranch u _ := ((false, none), u)
  predictBtb u _ := (none, u)
  predictReturn u := (none, u)
  mdpDispatch u _ _ _ _ := (.none, u)
  mdpStoreResolved u _ := (none, u)
  fpuExecuteFull _ a _ _ _ := (a, 0)
  fpuConvert _ a _ := (a, 0)
  expand _ := 0

/-- Source 1 is enabled for the supervisor and its line is up. -/
def lineUp : PlicBench :=
  { plic := { priorities := Function.update (fun _ => 0) 1 1, enables := fun ctx _ => if ctx = 1 then 2 else 0 },
      lines := 2 }

/-- `csrrs x0, mip, x1` with `SSIP` in `x1` while the line is up; then the line goes down. -/
def setSsip : List (SeipEvent PlicBench) :=
  [.preTick, .execute Csr.mip .rs 1 2, .preTick, .commit,
      .other fun c => { c with units := { c.units with lines := 0 } },
    .preTick]

/-- The line has been latched: `SEIP` stays up, though software never wrote it. -/
theorem setSsip_latched : (setSsip.foldl SeipRun.step (SeipRun.init (Cpu.new {} (fun _ => 0) lineUp))).cpu.seip = true ∧
    (setSsip.foldl SeipRun.step (SeipRun.init (Cpu.new {} (fun _ => 0) lineUp))).software = false ∧
    ¬(SeipRun.init (Cpu.new {} (fun _ => 0) lineUp)).Always SeipRun.Right setSsip := by
  refine ⟨by decide, by decide, fun h => ?_⟩
  have htick := h.2.2.2.2.2.1 rfl
  exact absurd htick (by decide)

end Rvsim
