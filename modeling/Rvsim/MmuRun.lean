/-
# Runs of the translation unit

A run is any sequence of translations, SFENCE.VMA commits, `satp` writes and
changes of memory. Every walk that fills the TLBs is logged with the memory
it read, and each entry carries the index of its fill in the log, so that a
hit can be compared with the walk behind it and a fence with the leaves it
should have covered.

Key definitions:
  - `MmuSystem`, `MmuSystem.step`, `MmuSystem.Reach`, `MmuSystem.Inv`
  - `FillRecord.coveredBy`, `MmuSystem.Precise`
Key theorems:
  - `Mmu.holds_sfenceVmaCommit`, `MmuSystem.Inv.step`
  - `MmuSystem.hit_agrees`, `MmuSystem.fence_complete_iff`
-/
import Rvsim.TlbAgree

namespace Rvsim

/-! ### Fences select entries -/

/-- The address spaces a fence names: all of them, or the non-global entries of one. -/
def SfenceVmaInfo.spaceOf (info : SfenceVmaInfo) (global : Bool) (asid : Asid) : Bool :=
  info.rs2Idx.isZero || (!global && asid == info.rs2Val.setWidth 16)

/-- The entries `sfence_vma_commit` drops. -/
def SfenceVmaInfo.selects {γ : Type} (info : SfenceVmaInfo) (e : TlbEntry γ) : Bool :=
  (info.rs1Idx.isZero || e.vpn == vpnOf info.rs1Val) && info.spaceOf e.global e.asid

namespace Mmu

variable {γ : Type} {m : Mmu γ}

/-- Every TLB of the unit under one selection. -/
def dropAll (m : Mmu γ) (p : TlbEntry γ → Bool) : Mmu γ :=
  { m with
    dtlb := { m.dtlb with entries := m.dtlb.entries.map (.dropIf p) }
    itlb := { m.itlb with entries := m.itlb.entries.map (.dropIf p) }
    l2Tlb := { m.l2Tlb with entries := m.l2Tlb.entries.map (.dropIf p) } }

theorem mem_map_dropIf {l : List (TlbEntry γ)} {p : TlbEntry γ → Bool} {e : TlbEntry γ} (hv : e.valid = true) :
    e ∈ l.map (.dropIf p) ↔ e ∈ l ∧ p e = false := by
  rw [List.mem_map]
  constructor
  · rintro ⟨e', he', rfl⟩
    obtain ⟨heq, -, hp⟩ := TlbEntry.valid_dropIf hv
    rw [heq]
    exact ⟨he', hp⟩
  · rintro ⟨he, hp⟩
    exact ⟨e, he, TlbEntry.dropIf_of_not fun _ => hp⟩

theorem holds_dropAll {p : TlbEntry γ → Bool} {e : TlbEntry γ} :
    (m.dropAll p).Holds e ↔ m.Holds e ∧ p e = false := by
  unfold Holds dropAll
  by_cases hv : e.valid = true
  · simp only [mem_map_dropIf hv]
    tauto
  · simp [hv]

/-- Each TLB of `m'` has the valid entries of its own in `m` that `p` names. -/
structure Keeps (p : TlbEntry γ → Bool) (m m' : Mmu γ) : Prop where
  dtlb : ∀ e ∈ m.dtlb.entries, e.valid = true → p e = true → e ∈ m'.dtlb.entries
  itlb : ∀ e ∈ m.itlb.entries, e.valid = true → p e = true → e ∈ m'.itlb.entries
  l2Tlb : ∀ e ∈ m.l2Tlb.entries, e.valid = true → p e = true → e ∈ m'.l2Tlb.entries

theorem keeps_dropAll {p q : TlbEntry γ → Bool} (h : ∀ e, p e = true → q e = false) : Keeps p m (m.dropAll q) where
  dtlb e he hv hp := (mem_map_dropIf hv).mpr ⟨he, h e hp⟩
  itlb e he hv hp := (mem_map_dropIf hv).mpr ⟨he, h e hp⟩
  l2Tlb e he hv hp := (mem_map_dropIf hv).mpr ⟨he, h e hp⟩

theorem Placed.dropAll (h : m.Placed) (p : TlbEntry γ → Bool) : (m.dropAll p).Placed :=
  ⟨h.dtlb.map p, h.itlb.map p, h.l2Tlb.map p⟩

/-- An entry that is dropped in any case is dropped by every selection. -/
theorem holds_flush {e : TlbEntry γ} : ¬m.flush.Holds e := by
  rintro ⟨hx, hv⟩
  have hdrop : ∀ l : List (TlbEntry γ), e ∉ l.map .drop := by
    intro l he
    obtain ⟨e', -, rfl⟩ := List.mem_map.mp he
    exact Bool.false_ne_true hv
  rcases hx with hx | hx | hx
  · exact hdrop _ hx
  · exact hdrop _ hx
  · exact hdrop _ hx

theorem Placed.flush (h : m.Placed) : m.flush.Placed := by
  have hdrop : ∀ (l : List (TlbEntry γ)) (i : Nat) (e : TlbEntry γ), (l.map .drop)[i]? = some e →
      e.valid = true → False := by
    intro l i e he hv
    rw [List.getElem?_map] at he
    obtain ⟨e', -, rfl⟩ := Option.map_eq_some_iff.mp he
    exact Bool.false_ne_true hv
  refine ⟨?_, ?_, h.l2Tlb.ways, ?_⟩
  · exact fun i e he hv => (hdrop _ i e he hv).elim
  · exact fun i e he hv => (hdrop _ i e he hv).elim
  · exact fun i e he hv => (hdrop _ i e he hv).elim

/-- A fence with an address or an address space drops what it selects, wherever it stands. -/
theorem sfenceVmaCommit_eq (h : m.Placed) (info : SfenceVmaInfo)
    (hsome : (info.rs1Idx.isZero && info.rs2Idx.isZero) = false) :
    m.sfenceVmaCommit info = m.dropAll info.selects := by
  have hva : ∀ e : TlbEntry γ, byVaddr (vpnOf info.rs1Val) e = true → e.vpn = vpnOf info.rs1Val :=
    fun e he => beq_iff_eq.mp he
  have hboth : ∀ e : TlbEntry γ, byVaddrAsid (vpnOf info.rs1Val) (info.rs2Val.setWidth 16) e = true →
      e.vpn = vpnOf info.rs1Val := fun e he => hva e (Bool.and_elim_left he)
  unfold sfenceVmaCommit dropAll
  cases h1 : info.rs1Idx.isZero with
  | true =>
    cases h2 : info.rs2Idx.isZero with
    | true => simp [h1, h2] at hsome
    | false =>
      have hsel : (info.selects : TlbEntry γ → Bool) = byAsid (info.rs2Val.setWidth 16) := by
        funext e
        simp [SfenceVmaInfo.selects, SfenceVmaInfo.spaceOf, byAsid, h1, h2]
      rw [hsel]
      rfl
  | false =>
    cases h2 : info.rs2Idx.isZero with
    | true =>
      have hsel : (info.selects : TlbEntry γ → Bool) = byVaddr (vpnOf info.rs1Val) := by
        funext e
        simp [SfenceVmaInfo.selects, SfenceVmaInfo.spaceOf, byVaddr, h1, h2]
      rw [hsel]
      simp only [Bool.not_false, Bool.not_true, Tlb.flushVaddr, L2Tlb.flushVaddr,
        Tlb.entries_dropAt h.dtlb hva, Tlb.entries_dropAt h.itlb hva, L2Tlb.entries_dropIn h.l2Tlb hva]
    | false =>
      have hsel : (info.selects : TlbEntry γ → Bool) =
          byVaddrAsid (vpnOf info.rs1Val) (info.rs2Val.setWidth 16) := by
        funext e
        simp [SfenceVmaInfo.selects, SfenceVmaInfo.spaceOf, byVaddrAsid, byVaddr, byAsid, h1, h2]
      rw [hsel]
      simp only [Bool.not_false, Tlb.flushVaddrAsid, L2Tlb.flushVaddrAsid,
        Tlb.entries_dropAt h.dtlb hboth, Tlb.entries_dropAt h.itlb hboth, L2Tlb.entries_dropIn h.l2Tlb hboth]

theorem sfenceVmaCommit_eq_flush {info : SfenceVmaInfo}
    (hnone : (info.rs1Idx.isZero && info.rs2Idx.isZero) = true) : m.sfenceVmaCommit info = m.flush := by
  obtain ⟨h1, h2⟩ := Bool.and_eq_true_iff.mp hnone
  unfold sfenceVmaCommit
  rw [h1, h2]
  rfl

/-- **A fence drops exactly the entries it selects.** -/
theorem holds_sfenceVmaCommit (h : m.Placed) (info : SfenceVmaInfo) (e : TlbEntry γ) :
    (m.sfenceVmaCommit info).Holds e ↔ m.Holds e ∧ info.selects e = false := by
  cases hz : info.rs1Idx.isZero && info.rs2Idx.isZero with
  | true =>
    rw [sfenceVmaCommit_eq_flush hz]
    obtain ⟨h1, h2⟩ := Bool.and_eq_true_iff.mp hz
    simp [holds_flush, SfenceVmaInfo.selects, SfenceVmaInfo.spaceOf, h1, h2]
  | false =>
    rw [sfenceVmaCommit_eq h info hz]
    exact holds_dropAll

theorem Placed.sfenceVmaCommit (h : m.Placed) (info : SfenceVmaInfo) : (m.sfenceVmaCommit info).Placed := by
  cases hz : info.rs1Idx.isZero && info.rs2Idx.isZero with
  | true => exact sfenceVmaCommit_eq_flush (m := m) hz ▸ h.flush
  | false => exact sfenceVmaCommit_eq h info hz ▸ h.dropAll _

@[simp] theorem softwareAdBits_sfenceVmaCommit (m : Mmu γ) (info : SfenceVmaInfo) :
    (m.sfenceVmaCommit info).softwareAdBits = m.softwareAdBits := by
  unfold Mmu.sfenceVmaCommit
  split <;> rfl

end Mmu

/-! ### The system -/

/-- A walk that filled the TLBs: what it found, the memory and `satp` it found it under, and
whether a fence has covered its leaf since. -/
structure FillRecord where
  fill : TlbFill
  bus : PhysAddr → U64
  satp : U64
  covered : Bool

namespace FillRecord

/-- The leaf PTE that mapped `va` when the record was made is the one the record comes from. -/
def mapsFrom (r : FillRecord) (va : VirtAddr) : Bool :=
  (pathAddrs r.bus va 2 (r.satp &&& satpPpnMask)).getLast? == some r.fill.pteAddr

/-- A fence covers a fill from the leaf of its address, in the address spaces it names. -/
def coveredBy (r : FillRecord) (info : SfenceVmaInfo) : Bool :=
  (info.rs1Idx.isZero || r.mapsFrom info.rs1Val) && info.spaceOf (r.fill.pte.getLsbD 5) r.fill.asid

/-- The record is of a walk that was made, under the setting `soft`. -/
def FromWalk (r : FillRecord) (soft : Bool) : Prop :=
  ∃ env va access priv csrs, (walk env va access priv csrs).2 = some r.fill ∧ env.bus = r.bus ∧
    env.softwareAdBits = soft ∧ csrs.satp = r.satp

/-- The record after a fence. -/
def fence (r : FillRecord) (info : SfenceVmaInfo) : FillRecord :=
  { r with covered := r.covered || r.coveredBy info }

end FillRecord

structure MmuSystem where
  mmu : Mmu Nat
  satp : U64
  bus : PhysAddr → U64
  log : List FillRecord

/-- One translation: the access, and the CSRs, PMP unit and bus timing it is made under. -/
structure TranslateOp where
  va : VirtAddr
  access : AccessType
  priv : PrivilegeMode
  csrs : Csrs
  pmp : Option Pmp
  transit : Nat

inductive MmuOp where
  | translate (t : TranslateOp)
  | fence (info : SfenceVmaInfo)
  | writeSatp (v : U64)
  | memory (bus : PhysAddr → U64)

namespace MmuSystem

/-- The CSRs of a translation, with the `satp` of the system. -/
def csrsOf (s : MmuSystem) (t : TranslateOp) : Csrs := { t.csrs with satp := s.satp }

def envOf (s : MmuSystem) (t : TranslateOp) : WalkEnv := ⟨s.bus, t.transit, t.pmp, s.mmu.softwareAdBits⟩

/-- `translate_with_pmp` for an access. -/
def result (s : MmuSystem) (t : TranslateOp) : TranslationResult × Mmu Nat :=
  s.mmu.translateWithPmp s.bus t.transit s.log.length t.va t.access t.priv (s.csrsOf t) t.pmp

/-- The fill an access makes, if it walks. -/
def fillOf (s : MmuSystem) (t : TranslateOp) : Option TlbFill :=
  if regime t.va t.priv (s.csrsOf t) = .sv39 ∧ s.mmu.servedBy t.va t.access (s.csrsOf t) = none then
    (walk (s.envOf t) t.va t.access t.priv (s.csrsOf t)).2
  else none

def recordOf (s : MmuSystem) (f : TlbFill) : FillRecord := ⟨f, s.bus, s.satp, false⟩

def translate (s : MmuSystem) (t : TranslateOp) : MmuSystem :=
  { s with mmu := (s.result t).2, log := s.log ++ ((s.fillOf t).map s.recordOf).toList }

/-- A committed SFENCE.VMA. -/
def fence (s : MmuSystem) (info : SfenceVmaInfo) : MmuSystem :=
  { s with mmu := s.mmu.sfenceVmaCommit info, log := s.log.map (·.fence info) }

def step (s : MmuSystem) : MmuOp → MmuSystem
  | .translate t => s.translate t
  | .fence info => s.fence info
  -- `csr_write` of `satp` flushes all three TLBs
  | .writeSatp v => { s with mmu := s.mmu.flush, satp := Cpu.legalSatp v }
  | .memory bus => { s with bus := bus }

/-- The states of runs whose steps meet `P`. -/
inductive Reach (P : MmuSystem → MmuOp → Prop) : MmuSystem → Prop
  | init (tlbSize l2Size l2Ways l2Latency : Nat) (soft : Bool) (satp : U64) (bus : PhysAddr → U64) :
      Reach P ⟨Mmu.new tlbSize l2Size l2Ways l2Latency soft, satp, bus, []⟩
  | step {s : MmuSystem} (op : MmuOp) : Reach P s → P s op → Reach P (s.step op)

/-- The entry `e` stands for the logged fill `r`. -/
def FilledBy (s : MmuSystem) (e : TlbEntry Nat) (r : FillRecord) : Prop :=
  ∃ k, e.src = some k ∧ s.log[k]? = some r

/-! ### The invariant -/

structure Inv (s : MmuSystem) : Prop where
  placed : s.mmu.Placed
  /-- every valid entry is what its walk wrote, under the present `satp` -/
  held : ∀ e, s.mmu.Holds e → ∃ k r, s.log[k]? = some r ∧ e = Mmu.fillEntry k r.fill ∧
    r.satp = s.satp ∧ r.FromWalk s.mmu.softwareAdBits

variable {s : MmuSystem} {info : SfenceVmaInfo}

theorem not_holds_new (tlbSize l2Size l2Ways l2Latency : Nat) (soft : Bool) (e : TlbEntry Nat) :
    ¬(Mmu.new tlbSize l2Size l2Ways l2Latency soft : Mmu Nat).Holds e := by
  rintro ⟨he | he | he, hv⟩
  · rw [List.eq_of_mem_replicate he] at hv
    exact Bool.false_ne_true hv
  · rw [List.eq_of_mem_replicate he] at hv
    exact Bool.false_ne_true hv
  · rw [List.eq_of_mem_replicate he] at hv
    exact Bool.false_ne_true hv

theorem Inv.init (tlbSize l2Size l2Ways l2Latency : Nat) (soft : Bool) (satp : U64) (bus : PhysAddr → U64) :
    Inv ⟨Mmu.new tlbSize l2Size l2Ways l2Latency soft, satp, bus, []⟩ where
  placed := Mmu.Placed.new _ _ _ _ _
  held e he := absurd he (not_holds_new _ _ _ _ _ e)

/-- A translation leaves in the TLBs entries that were there and the one of its own fill. -/
theorem result_adds (s : MmuSystem) (t : TranslateOp) :
    Mmu.Adds s.mmu (s.result t).2 ((s.fillOf t).map (Mmu.fillEntry s.log.length)) := by
  by_cases hreg : regime t.va t.priv (s.csrsOf t) = .sv39
  · have hans := Mmu.translateWithPmp_answers s.mmu s.bus t.transit s.log.length t.va t.access t.priv
      (s.csrsOf t) t.pmp hreg
    change Mmu.Answers s.mmu (s.envOf t) s.log.length t.va t.access t.priv (s.csrsOf t) (s.result t) _ at hans
    generalize ho : s.mmu.servedBy t.va t.access (s.csrsOf t) = o at hans
    unfold fillOf
    cases hans with
    | hit e hheld hhits hclean hout hup hadds =>
      rw [if_neg (by simp [ho])]
      exact hadds
    | walk hres hadds =>
      rw [if_pos ⟨hreg, ho⟩]
      exact hadds
  · have hfill : s.fillOf t = none := by
      unfold fillOf
      rw [if_neg (by simp [hreg])]
    have hsame : (s.result t).2 = s.mmu := by
      unfold result Mmu.translateWithPmp
      cases hr : regime t.va t.priv (s.csrsOf t) with
      | sv39 => exact absurd hr hreg
      | bare => rfl
      | unsupported => rfl
      | nonCanonical => rfl
    rw [hfill, hsame]
    exact Mmu.Adds.refl _ _

theorem fillOf_walk {t : TranslateOp} {f : TlbFill} (h : s.fillOf t = some f) :
    (walk (s.envOf t) t.va t.access t.priv (s.csrsOf t)).2 = some f := by
  unfold fillOf at h
  split at h
  · exact h
  · cases h

theorem Inv.translate (h : s.Inv) (t : TranslateOp) : (s.translate t).Inv := by
  have hadds := s.result_adds t
  refine ⟨hadds.placed h.placed, fun e he => ?_⟩
  have hsoft : (s.translate t).mmu.softwareAdBits = s.mmu.softwareAdBits := hadds.soft
  rcases hadds.holds e he with hold | hnew
  · obtain ⟨k, r, hr, heq, hsatp, hwalk⟩ := h.held e hold
    refine ⟨k, r, ?_, heq, hsatp, hsoft ▸ hwalk⟩
    exact List.getElem?_append_left (List.getElem?_eq_some_iff.mp hr).1 ▸ hr
  · -- the entry of this walk is the last record of the log
    obtain ⟨f, hf, rfl⟩ := Option.map_eq_some_iff.mp hnew
    refine ⟨s.log.length, s.recordOf f, ?_, rfl, rfl, ?_⟩
    · show (s.log ++ ((s.fillOf t).map s.recordOf).toList)[s.log.length]? = _
      rw [hf]
      simp
    · exact ⟨s.envOf t, t.va, t.access, t.priv, s.csrsOf t, fillOf_walk hf, rfl, hsoft.symm, rfl⟩

theorem Inv.fence (h : s.Inv) (info : SfenceVmaInfo) : (s.fence info).Inv := by
  refine ⟨h.placed.sfenceVmaCommit info, fun e he => ?_⟩
  obtain ⟨hold, -⟩ := (Mmu.holds_sfenceVmaCommit h.placed info e).mp he
  obtain ⟨k, r, hr, heq, hsatp, env, hwalk⟩ := h.held e hold
  refine ⟨k, r.fence info, ?_, heq, hsatp, ?_⟩
  · show (s.log.map (·.fence info))[k]? = _
    rw [List.getElem?_map, hr]
    rfl
  · show FillRecord.FromWalk _ (s.mmu.sfenceVmaCommit info).softwareAdBits
    rw [Mmu.softwareAdBits_sfenceVmaCommit]
    exact ⟨env, hwalk⟩

theorem Inv.step (h : s.Inv) (op : MmuOp) : (s.step op).Inv := by
  cases op with
  | translate t => exact h.translate t
  | fence info => exact h.fence info
  | writeSatp v => exact ⟨h.placed.flush, fun e he => absurd he Mmu.holds_flush⟩
  | memory bus => exact ⟨h.placed, h.held⟩

theorem Reach.inv {P : MmuSystem → MmuOp → Prop} (h : Reach P s) : s.Inv := by
  induction h with
  | init => exact Inv.init _ _ _ _ _ _ _
  | step op _ _ ih => exact ih.step op

/-! ### A hit and the walk behind it -/

/-- The record behind a valid entry. -/
theorem Inv.filledBy (h : s.Inv) {e : TlbEntry Nat} (he : s.mmu.Holds e) {r : FillRecord}
    (hr : s.FilledBy e r) :
    (∃ k, e = Mmu.fillEntry k r.fill) ∧ r.satp = s.satp ∧ r.FromWalk s.mmu.softwareAdBits := by
  obtain ⟨k, r', hr', heq, hsatp, hwalk⟩ := h.held e he
  obtain ⟨k', hsrc, hk'⟩ := hr
  have hk : k = k' := by
    rw [heq] at hsrc
    exact Option.some.inj hsrc
  obtain rfl : r' = r := Option.some.inj (hr'.symm.trans (hk ▸ hk'))
  exact ⟨⟨k, heq⟩, hsatp, hwalk⟩

/-- In any state a run reaches, a hit whose tables are those of its fill answers as a fresh walk. -/
theorem Inv.hit_of_unmodified (h : s.Inv) {t : TranslateOp} {src : Option Nat}
    (hreg : regime t.va t.priv (s.csrsOf t) = .sv39)
    (hhit : s.mmu.servedBy t.va t.access (s.csrsOf t) = some src)
    (hmem : ∀ e r, s.mmu.Holds e → e.src = src → s.FilledBy e r → Unmodified r.bus s.bus r.satp t.va) :
    (s.result t).1.outcome =
      (s.mmu.pageTableWalk s.bus t.transit s.log.length t.va t.access t.priv (s.csrsOf t)).1.outcome := by
  have hans := Mmu.translateWithPmp_answers s.mmu s.bus t.transit s.log.length t.va t.access t.priv
    (s.csrsOf t) t.pmp hreg
  change Mmu.Answers s.mmu (s.envOf t) s.log.length t.va t.access t.priv (s.csrsOf t) (s.result t) _ at hans
  rw [hhit] at hans
  cases hans with
  | hit e hheld hhits hclean hout hup hadds =>
    obtain ⟨k, r, hr, heq, hsatp, env₀, va₀, access₀, priv₀, csrs₀, hwalk, hbus, hsoft, hsatp₀⟩ := h.held e hheld
    have hfilled : s.FilledBy e r := ⟨k, by rw [heq]; rfl, hr⟩
    have hun := hmem e r hheld rfl hfilled
    rw [← hbus, ← hsatp₀] at hun
    have hpage : r.fill.vpn = vpnOf t.va := by
      have hvpn := Mmu.hits_vpn hhits
      rw [heq] at hvpn
      exact hvpn
    have hdirty : ¬(t.access = .write ∧ Pte.isDirty r.fill.pte = false) := by
      rw [heq] at hclean
      exact hclean
    rw [hout, heq, Mmu.pageTableWalk, (Mmu.pageTableWalkInner_adds _ _ _ _ _ _ _).1]
    exact walk_of_fill hwalk hpage
      (hsatp.symm.trans hsatp₀.symm) hsoft.symm rfl hun hdirty

/-- A fence with an address finds the leaf of that address cached under the address's own page only. -/
def Precise (s : MmuSystem) (info : SfenceVmaInfo) : Prop :=
  info.rs1Idx.isZero = false → ∀ e r, s.mmu.Holds e → s.FilledBy e r → r.coveredBy info = true →
    e.vpn = vpnOf info.rs1Val

/-- Every fence of the run is precise. -/
def FencesPrecise (s : MmuSystem) : MmuOp → Prop
  | .fence info => s.Precise info
  | _ => True

/-- What a precise fence covers it drops. -/
theorem Precise.selects (hp : s.Precise info) (h : s.Inv) {e : TlbEntry Nat} (he : s.mmu.Holds e)
    {r : FillRecord} (hr : s.FilledBy e r) (hc : r.coveredBy info = true) : info.selects e = true := by
  obtain ⟨⟨k, heq⟩, -, -⟩ := h.filledBy he hr
  have hspace : info.spaceOf e.global e.asid = true := by
    rw [heq]
    exact Bool.and_elim_right hc
  unfold SfenceVmaInfo.selects
  rw [hspace, Bool.and_true]
  cases hz : info.rs1Idx.isZero with
  | true => rfl
  | false =>
    rw [hp hz e r he hr hc]
    simp

/-- No valid entry has been covered by a fence since its fill. -/
def Uncovered (s : MmuSystem) : Prop := ∀ e r, s.mmu.Holds e → s.FilledBy e r → r.covered = false

theorem Uncovered.translate (hu : s.Uncovered) (h : s.Inv) (t : TranslateOp) : (s.translate t).Uncovered := by
  intro e r he hr
  obtain ⟨k, hk, hlog⟩ := hr
  change (s.log ++ ((s.fillOf t).map s.recordOf).toList)[k]? = some r at hlog
  rcases (s.result_adds t).holds e he with hold | hnew
  · obtain ⟨k', r', hr', heq, -, -⟩ := h.held e hold
    have hkk : k = k' := by
      rw [heq] at hk
      exact (Option.some.inj hk).symm
    have hlt : k < s.log.length := hkk ▸ (List.getElem?_eq_some_iff.mp hr').1
    rw [List.getElem?_append_left hlt] at hlog
    exact hu e r hold ⟨k, hk, hlog⟩
  · obtain ⟨f, hf, rfl⟩ := Option.map_eq_some_iff.mp hnew
    obtain rfl : s.log.length = k := Option.some.inj hk
    rw [hf] at hlog
    simp only [Option.map_some, Option.toList_some, List.getElem?_concat_length, Option.some.injEq] at hlog
    rw [← hlog]
    rfl

theorem Uncovered.fence (hu : s.Uncovered) (h : s.Inv) {info : SfenceVmaInfo} (hp : s.Precise info) :
    (s.fence info).Uncovered := by
  intro e r he hr
  obtain ⟨hold, hsel⟩ := (Mmu.holds_sfenceVmaCommit h.placed info e).mp he
  obtain ⟨k, hk, hlog⟩ := hr
  change (s.log.map (·.fence info))[k]? = some r at hlog
  rw [List.getElem?_map] at hlog
  obtain ⟨r', hr', rfl⟩ := Option.map_eq_some_iff.mp hlog
  have hfilled : s.FilledBy e r' := ⟨k, hk, hr'⟩
  show (r'.covered || r'.coveredBy info) = false
  rw [hu e r' hold hfilled, Bool.false_or]
  by_contra hc
  have hdrop := hp.selects h hold hfilled (by simpa using hc)
  rw [hsel] at hdrop
  exact Bool.false_ne_true hdrop

theorem Reach.uncovered (h : Reach FencesPrecise s) : s.Uncovered := by
  induction h with
  | init => exact fun e r he _ => absurd he (not_holds_new _ _ _ _ _ e)
  | step op hreach hp ih =>
    cases op with
    | translate t => exact ih.translate hreach.inv t
    | fence info => exact ih.fence hreach.inv hp
    | writeSatp v => exact fun e r he _ => absurd he Mmu.holds_flush
    | memory bus => exact ih

/-- **The TLB fast path is the walk.** In a run whose fences are precise, a hit of the first or the
second level answers as a fresh walk, if the tables were not changed after the fill without a fence
that covers it. -/
theorem hit_agrees (h : Reach FencesPrecise s) (t : TranslateOp) (src : Option Nat)
    (hreg : regime t.va t.priv (s.csrsOf t) = .sv39)
    (hhit : s.mmu.servedBy t.va t.access (s.csrsOf t) = some src)
    (hmem : ∀ k r, src = some k → s.log[k]? = some r → r.covered = false →
      Unmodified r.bus s.bus r.satp t.va) :
    (s.result t).1.outcome =
      (s.mmu.pageTableWalk s.bus t.transit s.log.length t.va t.access t.priv (s.csrsOf t)).1.outcome := by
  refine h.inv.hit_of_unmodified hreg hhit fun e r he hsrc hr => ?_
  obtain ⟨k, hk, hlog⟩ := hr
  exact hmem k r (hsrc.symm.trans hk) hlog (h.uncovered e r he ⟨k, hk, hlog⟩)

/-- Two pages of memory as page tables: a root with one pointer, and behind it a 2 MiB leaf. -/
def superpageTables (ppn : Ppn) : PhysAddr → U64 := fun a =>
  if a = 0x80000000 then ((0x80001 : U64) <<< 10) ||| 1
  else if a = 0x80001000 then (ppn <<< 10) ||| 0xCF
  else 0

/-- An empty unit under Sv39 over those tables. -/
def superpageSystem : MmuSystem :=
  ⟨Mmu.new 2 4 2 1 false, ((8 : U64) <<< 60) ||| 0x80000, superpageTables 0x80200, []⟩

def supervisorRead (va : VirtAddr) : TranslateOp := ⟨va, .read, .supervisor, {}, none, 0⟩

/-- SFENCE.VMA x5, x0 -/
def fenceAddress (va : VirtAddr) : SfenceVmaInfo := ⟨5, 0, va, 0⟩

theorem Reach.superpageSystem (P : MmuSystem → MmuOp → Prop) : Reach P superpageSystem := Reach.init 2 4 2 1 _ _ _

theorem hit_agrees_superpage :
    ((superpageSystem.translate (supervisorRead 0)).result (supervisorRead 0x10)).1.outcome =
      ((superpageSystem.translate (supervisorRead 0)).mmu.pageTableWalk (superpageTables 0x80200) 0 1 0x10 .read
        .supervisor ((superpageSystem.translate (supervisorRead 0)).csrsOf (supervisorRead 0x10))).1.outcome := by
  have hreach : Reach FencesPrecise (superpageSystem.translate (supervisorRead 0)) :=
    (Reach.superpageSystem _).step (.translate (supervisorRead 0)) trivial
  refine hit_agrees hreach (supervisorRead 0x10) (some 0) (by decide) (by decide) ?_
  intro k r _ hlog _
  have hmem : r ∈ ((superpageSystem.fillOf (supervisorRead 0)).map superpageSystem.recordOf).toList :=
    List.mem_of_getElem? hlog
  obtain ⟨f, -, rfl⟩ := Option.map_eq_some_iff.mp (Option.mem_toList.mp hmem)
  exact fun a _ => AdOnly.refl _

/-- The leaf changes, SFENCE.VMA names another page of the superpage, and the first page still hits
the translation of before. -/
theorem superpage_hit_stale :
    ∃ s t src, Reach (fun _ _ => True) s ∧ regime t.va t.priv (s.csrsOf t) = .sv39 ∧
      s.mmu.servedBy t.va t.access (s.csrsOf t) = some src ∧
      (∀ k r, src = some k → s.log[k]? = some r → r.covered = false → Unmodified r.bus s.bus r.satp t.va) ∧
      (s.result t).1.outcome ≠
        (s.mmu.pageTableWalk s.bus t.transit s.log.length t.va t.access t.priv (s.csrsOf t)).1.outcome := by
  let s := ((superpageSystem.step (.translate (supervisorRead 0))).step (.memory (superpageTables 0x80400))).step
    (.fence (fenceAddress 0x1000))
  have hreach : Reach (fun _ _ => True) s :=
    (((Reach.superpageSystem _).step _ trivial).step _ trivial).step _ trivial
  have hcovered : (s.log[0]?).map (·.covered) = some true := by decide
  refine ⟨s, supervisorRead 0, some 0, hreach, by decide, by decide, ?_, by decide⟩
  intro k r hk hlog hc
  obtain rfl : 0 = k := Option.some.inj hk
  rw [hlog, Option.map_some, hc] at hcovered
  simp at hcovered

/-! ### What a fence with an address leaves behind -/

/-- **A fence is complete exactly when it is precise.** No entry filled from the leaf of the fenced
address is left in the address spaces the fence names, and each TLB keeps its entries of the others. -/
theorem fence_complete_iff (h : Reach (fun _ _ => True) s) (info : SfenceVmaInfo)
    (hrs1 : info.rs1Idx.isZero = false) :
    ((∀ e r, (s.fence info).mmu.Holds e → s.FilledBy e r → r.coveredBy info = false) ∧
      Mmu.Keeps (fun e => !info.spaceOf e.global e.asid) s.mmu (s.fence info).mmu) ↔ s.Precise info := by
  have hholds := Mmu.holds_sfenceVmaCommit h.inv.placed info
  constructor
  · rintro ⟨hnone, -⟩ - e r he hr hc
    by_contra hvpn
    have hsel : info.selects e = false := by
      unfold SfenceVmaInfo.selects
      rw [hrs1, Bool.false_or, beq_false_of_ne hvpn, Bool.false_and]
    have hleft := hnone e r ((hholds e).mpr ⟨he, hsel⟩) hr
    rw [hc] at hleft
    exact Bool.false_ne_true hleft.symm
  · intro hp
    constructor
    · intro e r he hr
      obtain ⟨hold, hsel⟩ := (hholds e).mp he
      by_contra hc
      have hdrop := hp.selects h.inv hold hr (by simpa using hc)
      rw [hsel] at hdrop
      exact Bool.false_ne_true hdrop
    · have hsome : (info.rs1Idx.isZero && info.rs2Idx.isZero) = false := by rw [hrs1, Bool.false_and]
      show Mmu.Keeps _ s.mmu (s.mmu.sfenceVmaCommit info)
      rw [Mmu.sfenceVmaCommit_eq h.inv.placed info hsome]
      refine Mmu.keeps_dropAll fun e hspace => ?_
      have hother : info.spaceOf e.global e.asid = false := by simpa using hspace
      unfold SfenceVmaInfo.selects
      rw [hother, Bool.and_false]

/-- A fence of the first page of a superpage is precise, and so complete: the walk has filled the entry for that
page. -/
theorem fence_complete_iff_superpage :
    (superpageSystem.translate (supervisorRead 0)).Precise (fenceAddress 0) ∧
      (∀ e r, ((superpageSystem.translate (supervisorRead 0)).fence (fenceAddress 0)).mmu.Holds e →
          (superpageSystem.translate (supervisorRead 0)).FilledBy e r → r.coveredBy (fenceAddress 0) = false) ∧
        Mmu.Keeps (fun e => !(fenceAddress 0).spaceOf e.global e.asid)
            (superpageSystem.translate (supervisorRead 0)).mmu
          ((superpageSystem.translate (supervisorRead 0)).fence (fenceAddress 0)).mmu := by
  have hreach := (Reach.superpageSystem fun _ _ => True).step (.translate (supervisorRead 0)) trivial
  have hprecise : (superpageSystem.translate (supervisorRead 0)).Precise (fenceAddress 0) := by
    have hall : ∀ e ∈ (superpageSystem.translate (supervisorRead 0)).mmu.dtlb.entries ++
        ((superpageSystem.translate (supervisorRead 0)).mmu.itlb.entries ++
          (superpageSystem.translate (supervisorRead 0)).mmu.l2Tlb.entries), e.valid = true → e.vpn = 0 := by decide
    rintro - e r ⟨hin, hv⟩ - -
    refine hall e ?_ hv
    simpa only [List.mem_append] using hin
  exact ⟨hprecise, (fence_complete_iff hreach (fenceAddress 0) (by decide)).mpr hprecise⟩

/-- A fence of the second page of a superpage leaves the entry of the first. -/
theorem superpage_fence_incomplete :
    ∃ s info, Reach (fun _ _ => True) s ∧ info.rs1Idx.isZero = false ∧
      ¬((∀ e r, (s.fence info).mmu.Holds e → s.FilledBy e r → r.coveredBy info = false) ∧
        Mmu.Keeps (fun e => !info.spaceOf e.global e.asid) s.mmu (s.fence info).mmu) := by
  let s := superpageSystem.step (.translate (supervisorRead 0))
  refine ⟨s, fenceAddress 0x1000, (Reach.superpageSystem _).step _ trivial, by decide, ?_⟩
  rintro ⟨hnone, -⟩
  have hcovered : (s.log[0]?).map (·.coveredBy (fenceAddress 0x1000)) = some true := by decide
  obtain ⟨r, hr, hc⟩ := Option.map_eq_some_iff.mp hcovered
  let e : TlbEntry Nat := .ofPte 0 0x80200 ((0x80200 <<< 10) ||| 0xCF) 0 (some 0)
  have hleft : (s.fence (fenceAddress 0x1000)).mmu.Holds e := by
    refine ⟨Or.inl ?_, rfl⟩
    decide
  rw [hnone e r hleft ⟨0, rfl, hr⟩] at hc
  exact Bool.false_ne_true hc

end MmuSystem

end Rvsim
