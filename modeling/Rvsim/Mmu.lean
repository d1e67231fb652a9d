/-
# The memory management unit

`units/mmu/mod.rs` and `units/mmu/ptw.rs`: translation through the two levels
of TLB and the Sv39 page table walk behind them, and the TLB part of
`sfence_vma_commit`. The bus is what it answers to an 8-byte read, with the
cycles one read takes.

Key definitions:
  - `Mmu.translateWithPmp`, `Mmu.pageTableWalk`, `Mmu.sfenceVmaCommit`
  - `checkPermissions`, `updateAccessBits`
-/
import Rvsim.Tlb

namespace Rvsim

def pageShift : Nat := 12
def vpnMask : U64 := 0x7FFFFFF
def satpPpnMask : U64 := 0xFFFFFFFFFFF
def satpAsidShift : Nat := 44
def sstatusMxrShift : Nat := 19
def sstatusSumShift : Nat := 18

def pageFault (a : VirtAddr) (access : AccessType) : Trap :=
  match access with
  | .fetch => .instructionPageFault a
  | .read => .loadPageFault a
  | .write => .storePageFault a

def walkAccessFault (a : VirtAddr) (access : AccessType) : Trap :=
  match access with
  | .fetch => .instructionAccessFault a
  | .read => .loadAccessFault a
  | .write => .storeAccessFault a

/-- The page number of an address, 27 bits. -/
def vpnOf (va : VirtAddr) : Vpn := (va >>> pageShift) &&& vpnMask

/-- The address space `satp` selects. -/
def asidOf (satp : U64) : Asid := (satp >>> satpAsidShift).setWidth 16

namespace TranslationResult

def success (paddr : PhysAddr) (cycles : Nat) : TranslationResult := ⟨paddr, cycles, none, none⟩

def fault (trap : Trap) (cycles : Nat) : TranslationResult := ⟨0, cycles, some trap, none⟩

end TranslationResult

/-! ### Page table entries -/

namespace Pte

def accessedBit : U64 := (1 : U64) <<< 6
def dirtyBit : U64 := (1 : U64) <<< 7

def isValid (p : U64) : Bool := p.getLsbD 0
def canRead (p : U64) : Bool := p.getLsbD 1
def canWrite (p : U64) : Bool := p.getLsbD 2
def canExec (p : U64) : Bool := p.getLsbD 3
def isUser (p : U64) : Bool := p.getLsbD 4
def isAccessed (p : U64) : Bool := p.getLsbD 6
def isDirty (p : U64) : Bool := p.getLsbD 7
def ppn (p : U64) : Ppn := (p >>> 10) &&& satpPpnMask
def isPointer (p : U64) : Bool := !canRead p && !canWrite p && !canExec p
def withAccessed (p : U64) : U64 := p ||| accessedBit
def withDirty (p : U64) : U64 := p ||| dirtyBit

end Pte

def mxr (sstatus : U64) : Bool := sstatus.getLsbD sstatusMxrShift

def sum (sstatus : U64) : Bool := sstatus.getLsbD sstatusSumShift

/-- The walker's own permission check. -/
def checkPermissions (pte : U64) (access : AccessType) (priv : PrivilegeMode) (csrs : Csrs) : Bool :=
  if access = .write ∧ !Pte.canWrite pte then false
  else if access = .fetch ∧ !Pte.canExec pte then false
  else if access = .read ∧ !(Pte.canRead pte || (Pte.canExec pte && mxr csrs.sstatus)) then false
  else if priv = .user ∧ !Pte.isUser pte then false
  else if priv = .supervisor ∧ Pte.isUser pte then
    if !sum csrs.sstatus then false else access != .fetch
  else true

/-- The PTE with the bits this access sets, and whether that is a change. -/
def updateAccessBits (pte : U64) (access : AccessType) : U64 × Bool :=
  let needAccessed := !Pte.isAccessed pte
  let needDirty := access == .write && !Pte.isDirty pte
  let newPte := if needAccessed then Pte.withAccessed pte else pte
  let newPte := if needDirty then Pte.withDirty newPte else newPte
  (newPte, needAccessed || needDirty)

/-! ### The walk -/

/-- What the walker reads of the machine. -/
structure WalkEnv where
  /-- `bus.read_u64` -/
  bus : PhysAddr → U64
  /-- `bus.calculate_transit_time(8)` -/
  transit : Nat
  pmp : Option Pmp
  softwareAdBits : Bool

/-- The PMP check of one PTE read. -/
def WalkEnv.blocks (env : WalkEnv) (a : PhysAddr) : Bool :=
  match env.pmp with
  | none => false
  | some p => p.check a 8 true false false false != .allow

/-- What a successful walk puts into the TLBs, and the leaf it comes from. -/
structure TlbFill where
  vpn : Vpn
  ppn : Ppn
  pte : U64
  asid : Asid
  pteAddr : PhysAddr
  level : Nat
  deriving DecidableEq, Repr

/-- Address of the PTE for `va` at `level` in the table at `ppn`. -/
def pteAddrAt (va : VirtAddr) (level : Nat) (ppn : Ppn) : PhysAddr :=
  (ppn <<< pageShift) + ((va >>> (pageShift + level * 9)) &&& 0x1FF) * 8

/-- The physical address a leaf at `level` gives. -/
def leafPaddr (va : VirtAddr) (level : Nat) (pte : U64) : PhysAddr :=
  (Pte.ppn pte <<< pageShift) ||| (va &&& (((1 : U64) <<< (pageShift + level * 9)) - 1))

/-- A superpage whose low PPN bits are not zero. -/
def misalignedSuperpage (level : Nat) (pte : U64) : Bool :=
  level > 0 && Pte.ppn pte &&& (((1 : U64) <<< (level * 9)) - 1) != 0

/-- The end of a walk, at a leaf. -/
def walkLeaf (env : WalkEnv) (va : VirtAddr) (access : AccessType) (priv : PrivilegeMode) (csrs : Csrs)
    (level : Nat) (pteAddr : PhysAddr) (pte : U64) (cycles : Nat) : TranslationResult × Option TlbFill :=
  let denied := (TranslationResult.fault (pageFault va access) cycles, none)
  if Pte.canWrite pte && !Pte.canRead pte then denied
  else if misalignedSuperpage level pte then denied
  else if !checkPermissions pte access priv csrs then denied
  else if env.softwareAdBits && !Pte.isAccessed pte then denied
  else if env.softwareAdBits && access == .write && !Pte.isDirty pte then denied
  else
    let (newPte, updated) := updateAccessBits pte access
    let cycles := if updated then cycles + 10 else cycles
    let paddr := leafPaddr va level pte
    let update : Option PteUpdate := if updated then some ⟨pteAddr, newPte⟩ else none
    (⟨paddr, cycles, none, update⟩,
      some ⟨vpnOf va, paddr >>> pageShift, pte, asidOf csrs.satp, pteAddr, level⟩)

/-- The loop over the levels, from `level` down. -/
def walkFrom (env : WalkEnv) (va : VirtAddr) (access : AccessType) (priv : PrivilegeMode) (csrs : Csrs) :
    Nat → Ppn → Nat → TranslationResult × Option TlbFill
  | level, ppn, cycles =>
    let pteAddr := pteAddrAt va level ppn
    if env.blocks pteAddr then (.fault (walkAccessFault va access) cycles, none)
    else
      let cycles := cycles + env.transit
      let pte := env.bus pteAddr
      if !Pte.isValid pte then (.fault (pageFault va access) cycles, none)
      else if Pte.isPointer pte then
        match level with
        | 0 => (.fault (pageFault va access) cycles, none)
        | level + 1 => walkFrom env va access priv csrs level (Pte.ppn pte) cycles
      else walkLeaf env va access priv csrs level pteAddr pte cycles

/-- The walk from the root table of `satp`. -/
def walk (env : WalkEnv) (va : VirtAddr) (access : AccessType) (priv : PrivilegeMode) (csrs : Csrs) :
    TranslationResult × Option TlbFill :=
  walkFrom env va access priv csrs 2 (csrs.satp &&& satpPpnMask) 0

/-! ### The unit -/

structure Mmu (γ : Type) where
  dtlb : Tlb γ
  itlb : Tlb γ
  l2Tlb : L2Tlb γ
  softwareAdBits : Bool
  deriving DecidableEq, Repr

variable {γ : Type}

/-- What decides whether and how an address is translated at all. -/
inductive Regime where
  | bare
  | unsupported
  | nonCanonical
  | sv39
  deriving DecidableEq, Repr

def regime (va : VirtAddr) (priv : PrivilegeMode) (csrs : Csrs) : Regime :=
  let mode := (csrs.satp >>> Csr.satpModeShift) &&& Csr.satpModeMask
  if priv = .machine ∨ mode = Csr.satpModeBare then .bare
  else if mode ≠ Csr.satpModeSv39 then .unsupported
  else if va >>> 39 ≠ (if va.getLsbD 38 then 0x1FFFFFF else 0) then .nonCanonical
  else .sv39

namespace Mmu

def new (tlbSize l2Size l2Ways l2Latency : Nat) (softwareAdBits : Bool) : Mmu γ :=
  ⟨Tlb.new tlbSize, Tlb.new tlbSize, L2Tlb.new l2Size l2Ways l2Latency, softwareAdBits⟩

/-- The first-level TLB of an access. -/
def l1 (m : Mmu γ) (access : AccessType) : Tlb γ := if access = .fetch then m.itlb else m.dtlb

def insertL1 (m : Mmu γ) (access : AccessType) (vpn : Vpn) (ppn : Ppn) (pte : U64) (asid : Asid)
    (src : Option γ) : Mmu γ :=
  if access = .fetch then { m with itlb := m.itlb.insert vpn ppn pte asid src }
  else { m with dtlb := m.dtlb.insert vpn ppn pte asid src }

/-- `page_table_walk_inner`, with `src` as the origin of the entries it fills. -/
def pageTableWalkInner (m : Mmu γ) (env : WalkEnv) (src : γ) (va : VirtAddr) (access : AccessType)
    (priv : PrivilegeMode) (csrs : Csrs) : TranslationResult × Mmu γ :=
  let (res, fill) := walk env va access priv csrs
  match fill with
  | none => (res, m)
  | some f =>
    let m := m.insertL1 access f.vpn f.ppn f.pte f.asid (some src)
    (res, { m with l2Tlb := m.l2Tlb.insert f.vpn f.ppn f.pte f.asid (some src) })

/-- The checks both TLB paths make on a hit, in order. -/
def hitFault (r w x u : Bool) (va : VirtAddr) (access : AccessType) (priv : PrivilegeMode) (csrs : Csrs) :
    Option Trap :=
  if access = .write ∧ !w then some (.storePageFault va)
  else if access = .fetch ∧ !x then some (.instructionPageFault va)
  else if access = .read ∧ !(r || (x && mxr csrs.sstatus)) then some (.loadPageFault va)
  else if priv = .user ∧ !u then some (pageFault va access)
  else if priv = .supervisor ∧ u then
    if !sum csrs.sstatus then some (pageFault va access)
    else if access = .fetch then some (.instructionPageFault va)
    else none
  else none

/-- `hit.ppn.to_addr() | vaddr.page_offset()` -/
def pagePaddr (ppn : Ppn) (va : VirtAddr) : PhysAddr := (ppn <<< pageShift) ||| (va &&& 0xFFF)

/-- The part behind the first level: the second level, then the walk. -/
def translateL2 (m : Mmu γ) (env : WalkEnv) (src : γ) (va : VirtAddr) (access : AccessType)
    (priv : PrivilegeMode) (csrs : Csrs) : TranslationResult × Mmu γ :=
  let vpn := vpnOf va
  let latency := m.l2Tlb.latency
  let (found, l2) := m.l2Tlb.lookup vpn (asidOf csrs.satp)
  let m := { m with l2Tlb := l2 }
  match found with
  | none => m.pageTableWalkInner env src va access priv csrs
  | some h =>
    -- a write to a clean page falls through to the walk
    if access = .write ∧ !h.pteBits.getLsbD 7 then m.pageTableWalkInner env src va access priv csrs
    else
      match hitFault (h.pteBits.getLsbD 1) (h.pteBits.getLsbD 2) (h.pteBits.getLsbD 3)
        (h.pteBits.getLsbD 4) va access priv csrs with
      | some trap => (.fault trap latency, m)
      | none =>
        (.success (pagePaddr h.ppn va) latency, m.insertL1 access vpn h.ppn h.pteBits h.asid h.src)

def translateWithPmp (m : Mmu γ) (bus : PhysAddr → U64) (transit : Nat) (src : γ) (va : VirtAddr)
    (access : AccessType) (priv : PrivilegeMode) (csrs : Csrs) (pmp : Option Pmp) :
    TranslationResult × Mmu γ :=
  let env : WalkEnv := ⟨bus, transit, pmp, m.softwareAdBits⟩
  match regime va priv csrs with
  | .bare => (.success va 0, m)
  | .unsupported => (.fault (.instructionAccessFault va) 0, m)
  | .nonCanonical => (.fault (pageFault va access) 0, m)
  | .sv39 =>
    match (m.l1 access).lookup (vpnOf va) (asidOf csrs.satp) with
    | none => m.translateL2 env src va access priv csrs
    | some h =>
      -- the cached dirty bit may be stale: drop the entry and walk again
      if access = .write ∧ !h.d then
        { m with dtlb := m.dtlb.invalidate (vpnOf va) }.translateL2 env src va access priv csrs
      else
        match hitFault h.r h.w h.x h.u va access priv csrs with
        | some trap => (.fault trap 0, m)
        | none => (.success (pagePaddr h.ppn va) 0, m)

/-- Where the entry of a second-level hit came from; a write to a page cached as clean is no hit. -/
def servedByL2 (m : Mmu γ) (va : VirtAddr) (access : AccessType) (csrs : Csrs) : Option (Option γ) :=
  match (m.l2Tlb.lookup (vpnOf va) (asidOf csrs.satp)).1 with
  | none => none
  | some h => if access = .write ∧ !h.pteBits.getLsbD 7 then none else some h.src

/-- Where the entry came from that serves this access, if the first or the second level has one. -/
def servedBy (m : Mmu γ) (va : VirtAddr) (access : AccessType) (csrs : Csrs) : Option (Option γ) :=
  match (m.l1 access).lookup (vpnOf va) (asidOf csrs.satp) with
  | none => m.servedByL2 va access csrs
  | some h => if access = .write ∧ !h.d then m.servedByL2 va access csrs else some h.src

/-- `page_table_walk`, without the PMP unit. -/
def pageTableWalk (m : Mmu γ) (bus : PhysAddr → U64) (transit : Nat) (src : γ) (va : VirtAddr)
    (access : AccessType) (priv : PrivilegeMode) (csrs : Csrs) : TranslationResult × Mmu γ :=
  m.pageTableWalkInner ⟨bus, transit, none, m.softwareAdBits⟩ src va access priv csrs

/-- The flushes of a `satp` write. -/
def flush (m : Mmu γ) : Mmu γ :=
  { m with dtlb := m.dtlb.flush, itlb := m.itlb.flush, l2Tlb := m.l2Tlb.flush }

/-- The TLB part of `sfence_vma_commit`. -/
def sfenceVmaCommit (m : Mmu γ) (info : SfenceVmaInfo) : Mmu γ :=
  let vpn := vpnOf info.rs1Val
  let asid : Asid := info.rs2Val.setWidth 16
  match !info.rs1Idx.isZero, !info.rs2Idx.isZero with
  | false, false => m.flush
  | true, false =>
    { m with
      dtlb := m.dtlb.flushVaddr vpn, itlb := m.itlb.flushVaddr vpn, l2Tlb := m.l2Tlb.flushVaddr vpn }
  | false, true =>
    { m with
      dtlb := m.dtlb.flushAsid asid, itlb := m.itlb.flushAsid asid, l2Tlb := m.l2Tlb.flushAsid asid }
  | true, true =>
    { m with
      dtlb := m.dtlb.flushVaddrAsid vpn asid
      itlb := m.itlb.flushVaddrAsid vpn asid
      l2Tlb := m.l2Tlb.flushVaddrAsid vpn asid }

end Mmu

end Rvsim
