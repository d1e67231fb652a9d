/-
# A TLB hit and the walk behind it

Every valid TLB entry was written by a page table walk; it answers an access
to its page the way a walk of the same tables would. The tables count as the
same when the PTEs on the path read as they did at the fill, except that
accessed and dirty bits may have been set. Runs of the unit are sequences of
translations, fences, `satp` writes and arbitrary changes of memory.

Key definitions:
  - `AdOnly`, `pathAddrs`, `MmuSystem`, `MmuSystem.Inv`
Key theorems:
  - `walk_of_fill`, `MmuSystem.Inv.step`, `MmuSystem.hit_agrees`
-/
import Rvsim.Mmu
import Rvsim.Cpu
import Rvsim.Lib.Masks

namespace Rvsim

/-! ### Bits of addresses -/

theorem getLsbD_lowMask {n : Nat} (hn : n < 64) (i : Nat) :
    (((1 : U64) <<< n) - 1).getLsbD i = decide (i < n) := Masks.getLsbD_low hn i

/-- Bits of the page number are the address bits from 12 on. -/
theorem getLsbD_vpnOf (va : VirtAddr) (i : Nat) :
    (vpnOf va).getLsbD i = (va.getLsbD (12 + i) && decide (i < 27)) := by
  have hmask : vpnMask = ((1 : U64) <<< 27) - 1 := by decide
  rw [vpnOf, BitVec.getLsbD_and, hmask, getLsbD_lowMask (by decide), BitVec.getLsbD_ushiftRight]
  rfl

/-- Addresses of one page agree on the bits that index the tables. -/
theorem getLsbD_of_vpn {va va' : VirtAddr} (h : vpnOf va = vpnOf va') {i : Nat} (h12 : 12 ≤ i)
    (h39 : i < 39) : va.getLsbD i = va'.getLsbD i := by
  have hbit : (vpnOf va).getLsbD (i - 12) = (vpnOf va').getLsbD (i - 12) := by rw [h]
  have hi : 12 + (i - 12) = i := by omega
  have hlt : decide (i - 12 < 27) = true := decide_eq_true (by omega)
  rw [getLsbD_vpnOf, getLsbD_vpnOf, hi, hlt, Bool.and_true, Bool.and_true] at hbit
  exact hbit

theorem pteAddrAt_congr {va va' : VirtAddr} (h : vpnOf va = vpnOf va') {level : Nat} (hl : level ≤ 2)
    (ppn : Ppn) : pteAddrAt va level ppn = pteAddrAt va' level ppn := by
  have hmask : (0x1FF : U64) = ((1 : U64) <<< 9) - 1 := by decide
  have hidx : (va >>> (pageShift + level * 9)) &&& 0x1FF = (va' >>> (pageShift + level * 9)) &&& 0x1FF := by
    apply BitVec.eq_of_getLsbD_eq
    intro i _
    rw [BitVec.getLsbD_and, BitVec.getLsbD_and, hmask, getLsbD_lowMask (by decide),
      BitVec.getLsbD_ushiftRight, BitVec.getLsbD_ushiftRight]
    by_cases hi : i < 9
    · have hps : pageShift = 12 := rfl
      rw [getLsbD_of_vpn h (by omega) (by omega)]
    · simp [hi]
  rw [pteAddrAt, pteAddrAt, hidx]

theorem getLsbD_leafPaddr (va : VirtAddr) {level : Nat} (hl : level ≤ 2) (pte : U64) {i : Nat} (hi : i < 64) :
    (leafPaddr va level pte).getLsbD i =
      (!decide (i < 12) && (Pte.ppn pte).getLsbD (i - 12) || va.getLsbD i && decide (i < 12 + level * 9)) := by
  rw [leafPaddr, BitVec.getLsbD_or, BitVec.getLsbD_and, BitVec.getLsbD_shiftLeft, pageShift,
    getLsbD_lowMask (by omega), decide_eq_true hi, Bool.true_and]

theorem getLsbD_pagePaddr (ppn : Ppn) (va : VirtAddr) {i : Nat} (hi : i < 64) :
    (Mmu.pagePaddr ppn va).getLsbD i =
      (!decide (i < 12) && ppn.getLsbD (i - 12) || va.getLsbD i && decide (i < 12)) := by
  have hmask : (0xFFF : U64) = ((1 : U64) <<< 12) - 1 := by decide
  rw [Mmu.pagePaddr, BitVec.getLsbD_or, BitVec.getLsbD_and, BitVec.getLsbD_shiftLeft, pageShift, hmask,
    getLsbD_lowMask (by decide), decide_eq_true hi, Bool.true_and]

/-- The 4 KiB view of a leaf gives the leaf's own translation. -/
theorem pagePaddr_leaf {va va' : VirtAddr} (h : vpnOf va = vpnOf va') {level : Nat} (hl : level ≤ 2)
    (pte : U64) : Mmu.pagePaddr (leafPaddr va level pte >>> pageShift) va' = leafPaddr va' level pte := by
  apply BitVec.eq_of_getLsbD_eq
  intro i hi
  rw [getLsbD_pagePaddr _ _ hi, getLsbD_leafPaddr va' hl pte hi, BitVec.getLsbD_ushiftRight, pageShift]
  by_cases h12 : i < 12
  · simp [h12, show i < 12 + level * 9 by omega]
  · -- a bit above the page offset comes from the cached page number
    have hsub : 12 + (i - 12) = i := by omega
    rw [hsub, getLsbD_leafPaddr va hl pte hi]
    by_cases hlev : i < 12 + level * 9
    · rw [getLsbD_of_vpn h (by omega) (by omega)]
      simp [h12, hlev]
    · simp [h12, hlev]

/-! ### PTEs that differ in accessed and dirty bits -/

/-- `y` is `x` with accessed or dirty bits set, or `x` itself. -/
structure AdOnly (x y : U64) : Prop where
  same : ∀ i, i ≠ 6 → i ≠ 7 → y.getLsbD i = x.getLsbD i
  set : ∀ i, x.getLsbD i = true → y.getLsbD i = true

namespace AdOnly

theorem refl (x : U64) : AdOnly x x := ⟨fun _ _ _ => rfl, fun _ h => h⟩

variable {x y : U64}

theorem isValid (h : AdOnly x y) : Pte.isValid y = Pte.isValid x := h.same 0 (by decide) (by decide)

theorem canRead (h : AdOnly x y) : Pte.canRead y = Pte.canRead x := h.same 1 (by decide) (by decide)

theorem canWrite (h : AdOnly x y) : Pte.canWrite y = Pte.canWrite x := h.same 2 (by decide) (by decide)

theorem canExec (h : AdOnly x y) : Pte.canExec y = Pte.canExec x := h.same 3 (by decide) (by decide)

theorem isUser (h : AdOnly x y) : Pte.isUser y = Pte.isUser x := h.same 4 (by decide) (by decide)

theorem isPointer (h : AdOnly x y) : Pte.isPointer y = Pte.isPointer x := by
  rw [Pte.isPointer, Pte.isPointer, h.canRead, h.canWrite, h.canExec]

theorem ppn (h : AdOnly x y) : Pte.ppn y = Pte.ppn x := by
  have hshift : y >>> 10 = x >>> 10 := by
    apply BitVec.eq_of_getLsbD_eq
    intro i _
    rw [BitVec.getLsbD_ushiftRight, BitVec.getLsbD_ushiftRight]
    exact h.same (10 + i) (by omega) (by omega)
  rw [Pte.ppn, Pte.ppn, hshift]

theorem checkPermissions (h : AdOnly x y) (access : AccessType) (priv : PrivilegeMode) (csrs : Csrs) :
    checkPermissions y access priv csrs = checkPermissions x access priv csrs := by
  unfold Rvsim.checkPermissions
  rw [h.canRead, h.canWrite, h.canExec, h.isUser]

theorem misaligned (h : AdOnly x y) (level : Nat) : misalignedSuperpage level y = misalignedSuperpage level x := by
  unfold misalignedSuperpage
  rw [h.ppn]

theorem leafPaddr (h : AdOnly x y) (va : VirtAddr) (level : Nat) : leafPaddr va level y = leafPaddr va level x := by
  unfold Rvsim.leafPaddr
  rw [h.ppn]

end AdOnly

/-! ### What a walk leaves behind -/

/-- The PTE addresses a walk reads, from `level` down. -/
def pathAddrs (bus : PhysAddr → U64) (va : VirtAddr) : Nat → Ppn → List PhysAddr
  | level, ppn =>
    let a := pteAddrAt va level ppn
    a :: if Pte.isValid (bus a) && Pte.isPointer (bus a) then
        match level with
        | 0 => []
        | level + 1 => pathAddrs bus va level (Pte.ppn (bus a))
      else []

theorem pathAddrs_congr (bus : PhysAddr → U64) {va va' : VirtAddr} (h : vpnOf va = vpnOf va') {level : Nat}
    (hl : level ≤ 2) (ppn : Ppn) : pathAddrs bus va level ppn = pathAddrs bus va' level ppn := by
  induction level generalizing ppn with
  | zero =>
    unfold pathAddrs
    rw [pteAddrAt_congr h hl]
  | succ level ih =>
    unfold pathAddrs
    rw [pteAddrAt_congr h hl]
    simp only [ih (by omega)]

/-- The tables that map `va` read under `bus'` as under `bus`, but for accessed and dirty bits set
in between. -/
def Unmodified (bus bus' : PhysAddr → U64) (satp : U64) (va : VirtAddr) : Prop :=
  ∀ a ∈ pathAddrs bus va 2 (satp &&& satpPpnMask), AdOnly (bus a) (bus' a)

/-- The leaf behind a fill passes the walker's structural checks. -/
structure TlbFill.Good (f : TlbFill) (soft : Bool) (va : VirtAddr) (satp : U64) : Prop where
  level : f.level ≤ 2
  vpn : f.vpn = vpnOf va
  ppn : f.ppn = leafPaddr va f.level f.pte >>> pageShift
  asid : f.asid = asidOf satp
  readable : (Pte.canWrite f.pte && !Pte.canRead f.pte) = false
  aligned : misalignedSuperpage f.level f.pte = false
  accessed : soft = true → Pte.isAccessed f.pte = true

variable {env : WalkEnv} {va : VirtAddr} {access : AccessType} {priv : PrivilegeMode} {csrs : Csrs}

theorem walkLeaf_fill {level : Nat} {a : PhysAddr} {pte : U64} {c : Nat} {f : TlbFill} (hl : level ≤ 2)
    (h : (walkLeaf env va access priv csrs level a pte c).2 = some f) :
    f.level = level ∧ f.pteAddr = a ∧ f.pte = pte ∧ f.Good env.softwareAdBits va csrs.satp := by
  unfold walkLeaf at h
  by_cases h1 : (Pte.canWrite pte && !Pte.canRead pte) = true
  · simp [h1] at h
  by_cases h2 : misalignedSuperpage level pte = true
  · simp [h1, h2] at h
  by_cases h3 : (!checkPermissions pte access priv csrs) = true
  · simp [h1, h2, h3] at h
  by_cases h4 : (env.softwareAdBits && !Pte.isAccessed pte) = true
  · simp [h1, h2, h3, h4] at h
  by_cases h5 : (env.softwareAdBits && access == .write && !Pte.isDirty pte) = true
  · simp [h1, h2, h3, h4, h5] at h
  simp only [h1, h2, h3, h4, h5, Bool.false_eq_true, if_false, Option.some.injEq] at h
  subst h
  refine ⟨rfl, rfl, rfl, hl, rfl, rfl, rfl, ?_, ?_, ?_⟩
  · exact Bool.eq_false_iff.mpr h1
  · exact Bool.eq_false_iff.mpr h2
  · intro hsoft
    rw [hsoft, Bool.true_and] at h4
    simpa using h4

/-- The walk behind a pointer at `level`. -/
def walkDeeper (env : WalkEnv) (va : VirtAddr) (access : AccessType) (priv : PrivilegeMode) (csrs : Csrs)
    (ppn : Ppn) (c : Nat) : Nat → TranslationResult × Option TlbFill
  | 0 => (.fault (pageFault va access) c, none)
  | level + 1 => walkFrom env va access priv csrs level ppn c

/-- One level of a walk without PMP that finds the PTE `pte` there, but for accessed and dirty bits. -/
theorem walkFrom_read {va' : VirtAddr} {level : Nat} {ppn : Ppn} {c : Nat} {pte : U64} (hl : level ≤ 2)
    (hpmp : env.pmp = none) (hvpn : vpnOf va' = vpnOf va) (hvalid : Pte.isValid pte = true)
    (had : AdOnly pte (env.bus (pteAddrAt va' level ppn))) :
    walkFrom env va access priv csrs level ppn c =
      if Pte.isPointer pte then walkDeeper env va access priv csrs (Pte.ppn pte) (c + env.transit) level
      else
        walkLeaf env va access priv csrs level (pteAddrAt va' level ppn) (env.bus (pteAddrAt va' level ppn))
          (c + env.transit) := by
  have hfree : env.blocks (pteAddrAt va' level ppn) = false := by
    unfold WalkEnv.blocks
    rw [hpmp]
  rw [walkFrom.eq_def]
  simp only [← pteAddrAt_congr hvpn hl, hfree, Bool.false_eq_true, if_false, had.isValid, hvalid,
    Bool.not_true, had.isPointer, had.ppn]
  cases level <;> rfl

/-- A walk that fills ends at a leaf, and any walk of the same page through the same tables ends
at that leaf. -/
theorem walkFrom_fill {level : Nat} {ppn : Ppn} {c : Nat} {f : TlbFill} (hl : level ≤ 2)
    (h : (walkFrom env va access priv csrs level ppn c).2 = some f) :
    f.Good env.softwareAdBits va csrs.satp ∧ f.pte = env.bus f.pteAddr ∧
      ∀ env' va' access' priv' csrs' c', env'.pmp = none → vpnOf va = vpnOf va' →
        (∀ a ∈ pathAddrs env.bus va level ppn, AdOnly (env.bus a) (env'.bus a)) →
        AdOnly f.pte (env'.bus f.pteAddr) ∧
          ∃ c'', walkFrom env' va' access' priv' csrs' level ppn c' =
            walkLeaf env' va' access' priv' csrs' f.level f.pteAddr (env'.bus f.pteAddr) c'' := by
  induction level using Nat.strong_induction_on generalizing ppn c with
  | _ level ih =>
  unfold walkFrom at h
  by_cases hb : env.blocks (pteAddrAt va level ppn) = true
  · simp [hb] at h
  rw [if_neg hb] at h
  by_cases hv : (!Pte.isValid (env.bus (pteAddrAt va level ppn))) = true
  · simp [hv] at h
  simp only [hv, Bool.false_eq_true, if_false] at h
  have hvalid : Pte.isValid (env.bus (pteAddrAt va level ppn)) = true := by simpa using hv
  have hself : pteAddrAt va level ppn ∈ pathAddrs env.bus va level ppn := by
    unfold pathAddrs
    exact List.mem_cons_self
  by_cases hp : Pte.isPointer (env.bus (pteAddrAt va level ppn)) = true
  · rw [if_pos hp] at h
    cases level with
    | zero => simp at h
    | succ level =>
      simp only at h
      obtain ⟨hgood, hpte, hstable⟩ := ih level (Nat.lt_succ_self _) (by omega) h
      refine ⟨hgood, hpte, ?_⟩
      intro env' va' access' priv' csrs' c' hpmp hvpn hpath
      have hdeeper : ∀ a ∈ pathAddrs env.bus va level (Pte.ppn (env.bus (pteAddrAt va (level + 1) ppn))),
          AdOnly (env.bus a) (env'.bus a) := by
        intro a ha
        refine hpath a ?_
        unfold pathAddrs
        simp only [hvalid, hp, Bool.and_self, if_true]
        exact List.mem_cons_of_mem _ ha
      rw [walkFrom_read hl hpmp hvpn hvalid (hpath _ hself), if_pos hp]
      exact hstable env' va' access' priv' csrs' (c' + env'.transit) hpmp hvpn hdeeper
  · rw [if_neg hp] at h
    obtain ⟨hlev, ha, hpte, hgood⟩ := walkLeaf_fill hl h
    refine ⟨hgood, by rw [hpte, ha], ?_⟩
    intro env' va' access' priv' csrs' c' hpmp hvpn hpath
    rw [walkFrom_read hl hpmp hvpn hvalid (hpath _ hself), if_neg hp, hpte, ha, hlev]
    exact ⟨hpath _ hself, _, rfl⟩

/-! ### A hit answers like the walk -/

/-- The part of a translation the program sees: a trap, or a physical address. -/
def TranslationResult.outcome (r : TranslationResult) : Except Trap PhysAddr :=
  match r.trap with
  | some t => .error t
  | none => .ok r.paddr

/-- What the checks of a hit on this entry come to. -/
def TlbEntry.answer {γ : Type} (e : TlbEntry γ) (va : VirtAddr) (access : AccessType) (priv : PrivilegeMode)
    (csrs : Csrs) : Except Trap PhysAddr :=
  match Mmu.hitFault e.r e.w e.x e.u va access priv csrs with
  | some t => .error t
  | none => .ok (Mmu.pagePaddr e.ppn va)

/-- The checks of the TLB paths are the walker's. -/
theorem hitFault_eq (pte : U64) (va : VirtAddr) (access : AccessType) (priv : PrivilegeMode) (csrs : Csrs) :
    Mmu.hitFault (pte.getLsbD 1) (pte.getLsbD 2) (pte.getLsbD 3) (pte.getLsbD 4) va access priv csrs =
      if checkPermissions pte access priv csrs then none else some (pageFault va access) := by
  unfold Mmu.hitFault checkPermissions Pte.canRead Pte.canWrite Pte.canExec Pte.isUser
  generalize pte.getLsbD 1 = r
  generalize pte.getLsbD 2 = w
  generalize pte.getLsbD 3 = x
  generalize pte.getLsbD 4 = u
  generalize mxr csrs.sstatus = m
  generalize sum csrs.sstatus = s
  cases access <;> cases priv <;> revert r w x u m s <;> simp [pageFault]

/-- The entry a fill wrote answers an access to its page as a walk that ends at the filled leaf
does, if the access is no write to a page cached as clean. -/
theorem TlbFill.Good.answer {γ : Type} {f : TlbFill} {soft : Bool} {va₀ : VirtAddr} {satp : U64}
    (h : f.Good soft va₀ satp) {src : Option γ} (hvpn : f.vpn = vpnOf va) {pte : U64} (had : AdOnly f.pte pte)
    (hsoft : env.softwareAdBits = soft) (hd : ¬(access = .write ∧ Pte.isDirty f.pte = false))
    (a : PhysAddr) (c : Nat) :
    (TlbEntry.ofPte f.vpn f.ppn f.pte f.asid src).answer va access priv csrs =
      (walkLeaf env va access priv csrs f.level a pte c).1.outcome := by
  have hfault := hitFault_eq f.pte va access priv csrs
  unfold TlbEntry.answer
  show (match Mmu.hitFault (f.pte.getLsbD 1) (f.pte.getLsbD 2) (f.pte.getLsbD 3) (f.pte.getLsbD 4)
    va access priv csrs with
    | some t => Except.error t
    | none => Except.ok (Mmu.pagePaddr f.ppn va)) = _
  have hrw : (Pte.canWrite pte && !Pte.canRead pte) = false := by
    rw [had.canWrite, had.canRead]
    exact h.readable
  have hal : misalignedSuperpage f.level pte = false := (had.misaligned _).trans h.aligned
  have hacc : (env.softwareAdBits && !Pte.isAccessed pte) = false := by
    cases hs : env.softwareAdBits with
    | false => rfl
    | true =>
      have hset : Pte.isAccessed pte = true := had.set 6 (h.accessed (hsoft ▸ hs))
      rw [hset]
      rfl
  have hdirty : (env.softwareAdBits && access == .write && !Pte.isDirty pte) = false := by
    by_cases hw : access = .write
    · have hfd : Pte.isDirty f.pte = true := by
        by_contra hc
        exact hd ⟨hw, by simpa using hc⟩
      have hset : Pte.isDirty pte = true := had.set 7 hfd
      rw [hset, Bool.not_true, Bool.and_false]
    · have hne : (access == .write) = false := by simpa using hw
      rw [hne, Bool.and_false, Bool.false_and]
  unfold walkLeaf
  rw [hfault, hrw, hal, hacc, hdirty, had.checkPermissions]
  cases hc : checkPermissions f.pte access priv csrs with
  | false => rfl
  | true =>
    simp only [Bool.not_true, Bool.false_eq_true, if_false, if_true]
    show Except.ok _ = Except.ok (leafPaddr va f.level pte)
    rw [had.leafPaddr, h.ppn, pagePaddr_leaf (h.vpn.symm.trans hvpn) h.level]

/-- **An entry answers like a fresh walk** of tables that are those of its fill. -/
theorem walk_of_fill {γ : Type} {f : TlbFill} {env₀ : WalkEnv} {va₀ : VirtAddr} {access₀ : AccessType}
    {priv₀ : PrivilegeMode} {csrs₀ : Csrs} (h : (walk env₀ va₀ access₀ priv₀ csrs₀).2 = some f)
    {src : Option γ} (hvpn : f.vpn = vpnOf va) (hsatp : csrs.satp = csrs₀.satp)
    (hsoft : env.softwareAdBits = env₀.softwareAdBits) (hpmp : env.pmp = none)
    (hpath : Unmodified env₀.bus env.bus csrs₀.satp va)
    (hd : ¬(access = .write ∧ Pte.isDirty f.pte = false)) :
    (TlbEntry.ofPte f.vpn f.ppn f.pte f.asid src).answer va access priv csrs =
      (walk env va access priv csrs).1.outcome := by
  obtain ⟨hgood, -, hstable⟩ := walkFrom_fill (le_refl 2) h
  have hpage : vpnOf va₀ = vpnOf va := hgood.vpn.symm.trans hvpn
  obtain ⟨had, c, hwalk⟩ := hstable env va access priv csrs 0 hpmp hpage fun a ha => by
    rw [pathAddrs_congr _ hpage (le_refl 2)] at ha
    exact hpath a ha
  have hfresh : walk env va access priv csrs =
      walkLeaf env va access priv csrs f.level f.pteAddr (env.bus f.pteAddr) c := by
    rw [walk, hsatp]
    exact hwalk
  rw [hfresh]
  exact hgood.answer hvpn had hsoft hd _ _

/-! ### What a translation does to the TLBs -/

namespace TlbEntry

variable {γ : Type}

theorem answer_error {e : TlbEntry γ} {t : Trap} (h : Mmu.hitFault e.r e.w e.x e.u va access priv csrs = some t) :
    e.answer va access priv csrs = .error t := by
  unfold answer
  rw [h]

theorem answer_ok {e : TlbEntry γ} (h : Mmu.hitFault e.r e.w e.x e.u va access priv csrs = none) :
    e.answer va access priv csrs = .ok (Mmu.pagePaddr e.ppn va) := by
  unfold answer
  rw [h]

/-- An entry that goes through the second level comes back as it was. -/
theorem ofPte_reconstructPte {e : TlbEntry γ} (h : e.valid = true) :
    ofPte e.vpn e.ppn e.reconstructPte e.asid e.src = e := by
  obtain ⟨h1, h2, h3, h4, h5, h7⟩ := getLsbD_flagBits e.r e.w e.x e.u e.global e.d
  unfold ofPte reconstructPte
  rw [h1, h2, h3, h4, h5, h7, ← h]

end TlbEntry

namespace Mmu

variable {γ : Type} {m : Mmu γ}

/-- A valid entry of any of the three TLBs. -/
def Holds (m : Mmu γ) (e : TlbEntry γ) : Prop :=
  (e ∈ m.dtlb.entries ∨ e ∈ m.itlb.entries ∨ e ∈ m.l2Tlb.entries) ∧ e.valid = true

/-- Entries stand where lookups and flushes look for them. -/
structure Placed (m : Mmu γ) : Prop where
  dtlb : m.dtlb.Placed
  itlb : m.itlb.Placed
  l2Tlb : m.l2Tlb.Placed

theorem Placed.new (tlbSize l2Size l2Ways l2Latency : Nat) (soft : Bool) :
    (Mmu.new tlbSize l2Size l2Ways l2Latency soft : Mmu γ).Placed :=
  ⟨Tlb.Placed.new _, Tlb.Placed.new _, L2Tlb.Placed.new _ _ _⟩

theorem holds_of_l1 {access : AccessType} {e : TlbEntry γ} (h : e ∈ (m.l1 access).entries)
    (hv : e.valid = true) : m.Holds e := by
  unfold l1 at h
  split at h
  · exact ⟨Or.inr (Or.inl h), hv⟩
  · exact ⟨Or.inl h, hv⟩

/-- `m'` has the entries of `m`, fewer of them, or copies of `e`. -/
structure Adds (m m' : Mmu γ) (e : Option (TlbEntry γ)) : Prop where
  holds : ∀ x, m'.Holds x → m.Holds x ∨ e = some x
  placed : m.Placed → m'.Placed
  soft : m'.softwareAdBits = m.softwareAdBits

theorem Adds.refl (m : Mmu γ) (e : Option (TlbEntry γ)) : Adds m m e := ⟨fun _ h => Or.inl h, id, rfl⟩

theorem Adds.trans {m₁ m₂ m₃ : Mmu γ} {e : Option (TlbEntry γ)} (h : Adds m₁ m₂ e) (h' : Adds m₂ m₃ e) :
    Adds m₁ m₃ e where
  holds x hx := (h'.holds x hx).elim (h.holds x) Or.inr
  placed hp := h'.placed (h.placed hp)
  soft := h'.soft.trans h.soft

theorem Adds.weaken {m m' : Mmu γ} (h : Adds m m' none) (e : Option (TlbEntry γ)) : Adds m m' e where
  holds x hx := (h.holds x hx).imp id fun hc => nomatch hc
  placed := h.placed
  soft := h.soft

/-- A copy of an entry that was there adds nothing. -/
theorem Adds.trans_held {m₁ m₂ m₃ : Mmu γ} {e : TlbEntry γ} (h : Adds m₁ m₂ none) (h' : Adds m₂ m₃ (some e))
    (he : m₁.Holds e) : Adds m₁ m₃ none where
  holds x hx := by
    rcases h'.holds x hx with hx | hx
    · exact h.holds x hx
    · cases hx
      exact Or.inl he
  placed hp := h'.placed (h.placed hp)
  soft := h'.soft.trans h.soft

theorem adds_insertL1 (m : Mmu γ) (access : AccessType) (vpn : Vpn) (ppn : Ppn) (pte : U64) (asid : Asid)
    (src : Option γ) :
    Adds m (m.insertL1 access vpn ppn pte asid src) (some (.ofPte vpn ppn pte asid src)) := by
  unfold insertL1
  split
  · refine ⟨?_, fun h => ⟨h.dtlb, h.itlb.insert _ _ _ _ _, h.l2Tlb⟩, rfl⟩
    rintro x ⟨hx | hx | hx, hv⟩
    · exact Or.inl ⟨Or.inl hx, hv⟩
    · rcases Tlb.mem_insert hx with hx | rfl
      · exact Or.inl ⟨Or.inr (Or.inl hx), hv⟩
      · exact Or.inr rfl
    · exact Or.inl ⟨Or.inr (Or.inr hx), hv⟩
  · refine ⟨?_, fun h => ⟨h.dtlb.insert _ _ _ _ _, h.itlb, h.l2Tlb⟩, rfl⟩
    rintro x ⟨hx | hx | hx, hv⟩
    · rcases Tlb.mem_insert hx with hx | rfl
      · exact Or.inl ⟨Or.inl hx, hv⟩
      · exact Or.inr rfl
    · exact Or.inl ⟨Or.inr (Or.inl hx), hv⟩
    · exact Or.inl ⟨Or.inr (Or.inr hx), hv⟩

theorem adds_insertL2 (m : Mmu γ) (vpn : Vpn) (ppn : Ppn) (pte : U64) (asid : Asid) (src : Option γ) :
    Adds m { m with l2Tlb := m.l2Tlb.insert vpn ppn pte asid src } (some (.ofPte vpn ppn pte asid src)) := by
  refine ⟨?_, fun h => ⟨h.dtlb, h.itlb, h.l2Tlb.insert _ _ _ _ _⟩, rfl⟩
  rintro x ⟨hx | hx | hx, hv⟩
  · exact Or.inl ⟨Or.inl hx, hv⟩
  · exact Or.inl ⟨Or.inr (Or.inl hx), hv⟩
  · rcases L2Tlb.mem_insert hx with hx | rfl
    · exact Or.inl ⟨Or.inr (Or.inr hx), hv⟩
    · exact Or.inr rfl

/-- The entry a fill writes. -/
def fillEntry (src : γ) (f : TlbFill) : TlbEntry γ := .ofPte f.vpn f.ppn f.pte f.asid (some src)

theorem pageTableWalkInner_adds (m : Mmu γ) (env : WalkEnv) (src : γ) (va : VirtAddr) (access : AccessType)
    (priv : PrivilegeMode) (csrs : Csrs) :
    (m.pageTableWalkInner env src va access priv csrs).1 = (walk env va access priv csrs).1 ∧
      Adds m (m.pageTableWalkInner env src va access priv csrs).2
        ((walk env va access priv csrs).2.map (fillEntry src)) := by
  unfold pageTableWalkInner
  cases hw : (walk env va access priv csrs).2 with
  | none => exact ⟨by simp [hw], by simpa [hw] using Adds.refl m none⟩
  | some f =>
    simp only [hw]
    exact ⟨trivial, (adds_insertL1 _ _ _ _ _ _ _).trans (adds_insertL2 _ _ _ _ _ _)⟩

/-- The walk, or an answer from an entry that was there. -/
inductive Answers (m : Mmu γ) (env : WalkEnv) (src : γ) (va : VirtAddr) (access : AccessType)
    (priv : PrivilegeMode) (csrs : Csrs) (r : TranslationResult × Mmu γ) : Option (Option γ) → Prop
  | hit (e : TlbEntry γ) : m.Holds e → e.hits (vpnOf va) (asidOf csrs.satp) = true →
      ¬(access = .write ∧ e.d = false) → r.1.outcome = e.answer va access priv csrs → r.1.pteUpdate = none →
      Adds m r.2 none → Answers m env src va access priv csrs r (some e.src)
  | walk : r.1 = (Rvsim.walk env va access priv csrs).1 →
      Adds m r.2 ((Rvsim.walk env va access priv csrs).2.map (fillEntry src)) →
      Answers m env src va access priv csrs r none

theorem hits_valid {e : TlbEntry γ} {vpn : Vpn} {asid : Asid} (h : e.hits vpn asid = true) : e.valid = true := by
  unfold TlbEntry.hits at h
  simp only [Bool.and_eq_true] at h
  exact h.1.1

theorem hits_vpn {e : TlbEntry γ} {vpn : Vpn} {asid : Asid} (h : e.hits vpn asid = true) : e.vpn = vpn := by
  unfold TlbEntry.hits at h
  simp only [Bool.and_eq_true, beq_iff_eq] at h
  exact h.1.2

theorem Answers.of_adds {m m' : Mmu γ} {env : WalkEnv} {src : γ} {r : TranslationResult × Mmu γ}
    {o : Option (Option γ)} (h : Answers m' env src va access priv csrs r o) (hm : Adds m m' none) :
    Answers m env src va access priv csrs r o := by
  cases h with
  | hit e hheld hhits hclean hout hup hadds =>
    have hheld' : m.Holds e := (hm.holds e hheld).elim id fun hc => nomatch hc
    exact .hit e hheld' hhits hclean hout hup (hm.trans hadds)
  | walk hres hadds => exact .walk hres ((hm.weaken _).trans hadds)

theorem adds_invalidate (m : Mmu γ) (vpn : Vpn) : Adds m { m with dtlb := m.dtlb.invalidate vpn } none := by
  refine ⟨?_, fun h => ⟨?_, h.itlb, h.l2Tlb⟩, rfl⟩
  · rintro x ⟨hx | hx | hx, hv⟩
    · exact Or.inl ⟨Or.inl (Tlb.mem_dropAt hx hv), hv⟩
    · exact Or.inl ⟨Or.inr (Or.inl hx), hv⟩
    · exact Or.inl ⟨Or.inr (Or.inr hx), hv⟩
  · show (m.dtlb.dropAt vpn (byVaddr vpn)).Placed
    have hsel : ∀ e : TlbEntry γ, byVaddr vpn e = true → e.vpn = vpn := fun e he => beq_iff_eq.mp he
    rw [Tlb.entries_dropAt h.dtlb hsel]
    exact h.dtlb.map _

theorem translateL2_answers (m : Mmu γ) (env : WalkEnv) (src : γ) (va : VirtAddr) (access : AccessType)
    (priv : PrivilegeMode) (csrs : Csrs) :
    Answers m env src va access priv csrs (m.translateL2 env src va access priv csrs)
      (m.servedByL2 va access csrs) := by
  have hsame : Adds m { m with l2Tlb := (m.l2Tlb.lookup (vpnOf va) (asidOf csrs.satp)).2 } none := by
    refine ⟨?_, fun h => ⟨h.dtlb, h.itlb, h.l2Tlb.lookup _ _⟩, rfl⟩
    rintro x ⟨hx, hv⟩
    rw [L2Tlb.entries_lookup] at hx
    exact Or.inl ⟨hx, hv⟩
  have hwalk : Answers m env src va access priv csrs
      (pageTableWalkInner { m with l2Tlb := (m.l2Tlb.lookup (vpnOf va) (asidOf csrs.satp)).2 } env src va access
        priv csrs) none := by
    obtain ⟨hres, hadds⟩ := pageTableWalkInner_adds
      { m with l2Tlb := (m.l2Tlb.lookup (vpnOf va) (asidOf csrs.satp)).2 } env src va access priv csrs
    exact .walk hres ((hsame.weaken _).trans hadds)
  unfold translateL2 servedByL2
  cases hl : (m.l2Tlb.lookup (vpnOf va) (asidOf csrs.satp)).1 with
  | none => simpa only [hl] using hwalk
  | some h =>
    obtain ⟨e, hmem, hhits, rfl⟩ := L2Tlb.mem_lookup hl
    have hvalid := hits_valid hhits
    obtain ⟨h1, h2, h3, h4, -, h7⟩ := TlbEntry.getLsbD_flagBits e.r e.w e.x e.u e.global e.d
    simp only [hl, TlbEntry.reconstructPte, h1, h2, h3, h4, h7]
    by_cases hd : access = .write ∧ !e.d
    · rw [if_pos hd, if_pos hd]
      exact hwalk
    · rw [if_neg hd, if_neg hd]
      have hclean : ¬(access = .write ∧ e.d = false) := by simpa using hd
      have hholds : m.Holds e := ⟨Or.inr (Or.inr hmem), hvalid⟩
      cases hf : hitFault e.r e.w e.x e.u va access priv csrs with
      | some t => exact .hit e hholds hhits hclean (TlbEntry.answer_error hf).symm rfl hsame
      | none =>
        refine .hit e hholds hhits hclean (TlbEntry.answer_ok hf).symm rfl ?_
        -- the entry copied to the first level is the one found in the second
        have hself : TlbEntry.ofPte (vpnOf va) e.ppn e.reconstructPte e.asid e.src = e := by
          rw [← hits_vpn hhits]
          exact TlbEntry.ofPte_reconstructPte hvalid
        have hcopy := adds_insertL1 { m with l2Tlb := (m.l2Tlb.lookup (vpnOf va) (asidOf csrs.satp)).2 } access
          (vpnOf va) e.ppn e.reconstructPte e.asid e.src
        rw [hself] at hcopy
        exact hsame.trans_held hcopy hholds

/-- What a translation under Sv39 answers, and what it leaves in the TLBs. -/
theorem translateWithPmp_answers (m : Mmu γ) (bus : PhysAddr → U64) (transit : Nat) (src : γ) (va : VirtAddr)
    (access : AccessType) (priv : PrivilegeMode) (csrs : Csrs) (pmp : Option Pmp)
    (hreg : regime va priv csrs = .sv39) :
    Answers m ⟨bus, transit, pmp, m.softwareAdBits⟩ src va access priv csrs
      (m.translateWithPmp bus transit src va access priv csrs pmp) (m.servedBy va access csrs) := by
  unfold translateWithPmp servedBy
  simp only [hreg]
  cases hl : (m.l1 access).lookup (vpnOf va) (asidOf csrs.satp) with
  | none => exact translateL2_answers _ _ _ _ _ _ _
  | some h =>
    obtain ⟨e, hmem, hhits, rfl⟩ := Tlb.mem_lookup hl
    have hholds : m.Holds e := holds_of_l1 hmem (hits_valid hhits)
    by_cases hd : access = .write ∧ !e.hit.d
    · simp only [if_pos hd]
      exact (translateL2_answers _ _ _ _ _ _ _).of_adds (adds_invalidate m _)
    · simp only [if_neg hd]
      have hclean : ¬(access = .write ∧ e.d = false) := by simpa [TlbEntry.hit] using hd
      cases hf : hitFault e.hit.r e.hit.w e.hit.x e.hit.u va access priv csrs with
      | some t =>
        exact .hit e hholds hhits hclean (TlbEntry.answer_error hf).symm rfl (Adds.refl _ _)
      | none =>
        exact .hit e hholds hhits hclean (TlbEntry.answer_ok hf).symm rfl (Adds.refl _ _)

end Mmu

end Rvsim
