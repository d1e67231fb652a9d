/-
# The walk and the Sv39 algorithm

The translation algorithm of the architecture, on numbers and on what a machine has
at its physical addresses, and beside it what `units/mmu/ptw.rs` computes: the same
algorithm for a machine on which no encoding is reserved, an address without a
device holds zero, and every PTE may be written. When the two answer alike is told
by the entries on the path.

Key definitions:
  - `Sv39.Machine`, `Sv39.translate`, `Sv39.Machine.lenient`
  - `Sv39.deadEnd`, `Sv39.sound`
Key theorems:
  - `Sv39.walkFrom_returns`, `Sv39.walk_eq_iff`
  - `Cpu.translate_sv39`, `Cpu.translate_reserved`
-/
import Rvsim.AdBits
import Rvsim.CsrLegal
import Rvsim.PageCross

namespace Rvsim

namespace Sv39

/-! ### The algorithm -/

/-- Bits `hi` to `lo` of a word, as a number. -/
def field (x : U64) (hi lo : Nat) : Nat := x.toNat / 2 ^ lo % 2 ^ (hi + 1 - lo)

inductive Outcome where
  | page (paddr : PhysAddr) (update : Option PteUpdate)
  | pageFault
  | accessFault
  deriving DecidableEq, Repr

/-- What the algorithm is told: memory, with `none` where there is no device; whether
the protection lets a PTE be read and written; the encodings that are reserved; whether
the accessed and dirty bits are kept by software; the `MXR` and `SUM` bits. -/
structure Machine where
  memory : PhysAddr → Option U64
  readable : PhysAddr → Bool
  writable : PhysAddr → Bool
  reserved : U64 → Bool
  svade : Bool
  mxr : Bool
  sum : Bool

/-- Bits 63 to 54 of every PTE, and A, D and U of one that is no leaf. -/
def reserved (pte : U64) : Bool :=
  field pte 63 54 != 0 || !(Pte.canRead pte || Pte.canExec pte) &&
      (Pte.isAccessed pte || Pte.isDirty pte || Pte.isUser pte)

/-- All bits from 39 on are bit 38. -/
def Canonical (va : VirtAddr) : Prop := ∀ i < 64, 39 ≤ i → va.getLsbD i = va.getLsbD 38

instance (va : VirtAddr) : Decidable (Canonical va) := inferInstanceAs (Decidable (∀ i < 64, _ → _))

/-- `a + va.vpn[i] * 8`, with `a` the page of the table. -/
def pteAddr (va : VirtAddr) (i ppn : Nat) : PhysAddr :=
  BitVec.ofNat 64 (ppn * 4096 + field va (20 + 9 * i) (12 + 9 * i) * 8)

def permitted (m : Machine) (access : AccessType) (priv : PrivilegeMode) (pte : U64) : Bool :=
  (match access with
    | .fetch => Pte.canExec pte
    | .read => Pte.canRead pte || m.mxr && Pte.canExec pte
    | .write => Pte.canWrite pte) &&
  match priv with
  | .user => Pte.isUser pte
  | .supervisor => !Pte.isUser pte || m.sum && access != .fetch
  | .machine => true

/-- A is clear, or D is and the access writes. -/
def stale (access : AccessType) (pte : U64) : Bool := !Pte.isAccessed pte || access == .write && !Pte.isDirty pte

/-- The PTE with A set, and D if the access writes. -/
def marked (access : AccessType) (pte : U64) : U64 :=
  match access with
  | .write => pte ||| (1 : U64) <<< 6 ||| (1 : U64) <<< 7
  | _ => pte ||| (1 : U64) <<< 6

/-- The upper page numbers of the PTE, the lower ones and the offset of the address. -/
def leafAddr (va : VirtAddr) (i : Nat) (pte : U64) : PhysAddr :=
  BitVec.ofNat 64 (field pte 53 (10 + 9 * i) * 2 ^ (12 + 9 * i) + field va (11 + 9 * i) 0)

/-- The leaf maps nothing for this access. -/
def refused (m : Machine) (access : AccessType) (priv : PrivilegeMode) (i : Nat) (pte : U64) : Bool :=
  field pte (9 + 9 * i) 10 != 0 || !permitted m access priv pte || m.svade && stale access pte

def leaf (m : Machine) (va : VirtAddr) (access : AccessType) (priv : PrivilegeMode) (i : Nat) (a : PhysAddr)
    (pte : U64) : Outcome :=
  if refused m access priv i pte then .pageFault
  else if !stale access pte then .page (leafAddr va i pte) none
  else if m.writable a then .page (leafAddr va i pte) (some ⟨a, marked access pte⟩)
  else .accessFault

/-- One entry, at `a`; a pointer leads on to the table in that page. -/
def visit (m : Machine) (va : VirtAddr) (access : AccessType) (priv : PrivilegeMode) (i : Nat) (a : PhysAddr)
    (next : Nat → Outcome) :
    Outcome :=
  if !m.readable a then .accessFault
  else
    match m.memory a with
    | none => .accessFault
    | some pte =>
      if !Pte.isValid pte || !Pte.canRead pte && Pte.canWrite pte || m.reserved pte then .pageFault
      else if Pte.canRead pte || Pte.canExec pte then leaf m va access priv i a pte
      else next (field pte 53 10)

def walk (m : Machine) (va : VirtAddr) (access : AccessType) (priv : PrivilegeMode) : Nat → Nat → Outcome
  | 0, ppn => visit m va access priv 0 (pteAddr va 0 ppn) fun _ => .pageFault
  | i + 1, ppn => visit m va access priv (i + 1) (pteAddr va (i + 1) ppn) (walk m va access priv i)

/-- **The Sv39 algorithm.** -/
def translate (m : Machine) (va : VirtAddr) (access : AccessType) (priv : PrivilegeMode) (satp : U64) : Outcome :=
  if Canonical va then walk m va access priv 2 (field satp 43 0) else .pageFault

namespace Outcome

/-- The protection of the access itself comes last. -/
def checked (allows : PhysAddr → Bool) : Outcome → Outcome
  | page paddr update => if allows paddr then page paddr update else accessFault
  | o => o

def trap (va : VirtAddr) (access : AccessType) : Outcome → Option Trap
  | page _ _ => none
  | pageFault => some (Rvsim.pageFault va access)
  | accessFault => some (walkAccessFault va access)

end Outcome

/-- The result says what the outcome is, with `va` in the trap. -/
structure Returns (va : VirtAddr) (access : AccessType) (r : TranslationResult) (o : Outcome) : Prop where
  trap : r.trap = o.trap va access
  page : ∀ paddr update, o = .page paddr update → r.paddr = paddr
  update : r.pteUpdate = match o with | .page _ update => update | _ => none

/-! ### The code's walk as a walk -/

/-- The machine that the walker takes its own for. -/
def Machine.lenient (m : Machine) : Machine :=
  { m with
    memory := fun a => some ((m.memory a).getD 0)
    writable := fun _ => true
    reserved := fun _ => false }

/-- The walker reads what the machine has. -/
structure Sees (env : WalkEnv) (csrs : Csrs) (m : Machine) : Prop where
  bus : ∀ a, env.bus a = (m.memory a).getD 0
  blocks : ∀ a, env.blocks a = !m.readable a
  soft : env.softwareAdBits = m.svade
  mxr : mxr csrs.sstatus = m.mxr
  sum : sum csrs.sstatus = m.sum

variable {m : Machine} {env : WalkEnv} {va : VirtAddr} {access : AccessType} {priv : PrivilegeMode} {csrs : Csrs}

theorem toNat_ppn (pte : U64) : (Pte.ppn pte).toNat = field pte 53 10 := by
  have hmask : satpPpnMask = ((1 : U64) <<< 44) - 1 := by decide
  unfold Pte.ppn
  rw [hmask, Masks.toNat_field (by decide)]
  rfl

theorem toNat_root (satp : U64) : (satp &&& satpPpnMask).toNat = field satp 43 0 := by
  have hmask : satpPpnMask = ((1 : U64) <<< 44) - 1 := by decide
  rw [hmask, Masks.toNat_low (by decide)]
  unfold field
  rw [Nat.pow_zero, Nat.div_one]

theorem field_lt (x : U64) (hi lo : Nat) : field x hi lo < 2 ^ (hi + 1 - lo) := Nat.mod_lt _ (Nat.two_pow_pos _)

theorem pteAddrAt_eq (va : VirtAddr) (i : Nat) (ppn : Ppn) : pteAddrAt va i ppn = pteAddr va i ppn.toNat := by
  have hmask : (0x1FF : U64) = ((1 : U64) <<< 9) - 1 := by decide
  have hidx : ((va >>> (pageShift + i * 9)) &&& 0x1FF).toNat = field va (20 + 9 * i) (12 + 9 * i) := by
    have hlo : pageShift + i * 9 = 12 + 9 * i := by
      rw [Nat.mul_comm]
      rfl
    have hwidth : 20 + 9 * i + 1 - (12 + 9 * i) = 9 := by omega
    rw [hmask, Masks.toNat_field (by decide), hlo]
    unfold field
    rw [hwidth]
  have hlt := field_lt va (20 + 9 * i) (12 + 9 * i)
  have hwidth : 20 + 9 * i + 1 - (12 + 9 * i) = 9 := by omega
  rw [hwidth] at hlt
  apply BitVec.eq_of_toNat_eq
  unfold pteAddrAt pteAddr
  rw [BitVec.toNat_add, BitVec.toNat_mul, hidx, BitVec.toNat_shiftLeft, BitVec.toNat_ofNat, Nat.shiftLeft_eq]
  show (ppn.toNat * 4096 % 2 ^ 64 + field va (20 + 9 * i) (12 + 9 * i) * 8 % 2 ^ 64) % 2 ^ 64 = _
  omega

/-- The pages of an aligned superpage lie as they are numbered. -/
theorem leafPaddr_eq (va : VirtAddr) {i : Nat} (hi : i ≤ 2) {pte : U64} (haligned : field pte (9 + 9 * i) 10 = 0) :
    leafPaddr va i pte = leafAddr va i pte := by
  have hbase : (Pte.ppn pte <<< pageShift).toNat = field pte 53 (10 + 9 * i) * 2 ^ (12 + 9 * i) := by
    have hppn := toNat_ppn pte
    have hlt := field_lt pte 53 10
    rw [BitVec.toNat_shiftLeft, hppn, Nat.shiftLeft_eq]
    unfold field pageShift at *
    obtain rfl | rfl | rfl : i = 0 ∨ i = 1 ∨ i = 2 := by omega
    all_goals omega
  have hoff : (va &&& (((1 : U64) <<< (pageShift + i * 9)) - 1)).toNat = field va (11 + 9 * i) 0 := by
    have hlo : pageShift + i * 9 = 12 + 9 * i := by
      rw [Nat.mul_comm]
      rfl
    have hwidth : 11 + 9 * i + 1 - 0 = 12 + 9 * i := by omega
    rw [hlo, Masks.toNat_low (by omega)]
    unfold field
    rw [hwidth, Nat.pow_zero, Nat.div_one]
  have hlt : field va (11 + 9 * i) 0 < 2 ^ (12 + 9 * i) := by
    have h := field_lt va (11 + 9 * i) 0
    rwa [show 11 + 9 * i + 1 - 0 = 12 + 9 * i by omega] at h
  apply BitVec.eq_of_toNat_eq
  unfold leafPaddr leafAddr
  rw [Masks.toNat_or_of_dvd (by rw [hbase]; exact Nat.dvd_mul_left _ _) (by rw [hoff]; exact hlt), hbase, hoff,
      BitVec.toNat_ofNat]
  refine (Nat.mod_eq_of_lt ?_).symm
  have hfield := field_lt pte 53 (10 + 9 * i)
  obtain rfl | rfl | rfl : i = 0 ∨ i = 1 ∨ i = 2 := by omega
  all_goals omega

theorem misaligned_eq {i : Nat} (hi : i ≤ 2) (pte : U64) :
    misalignedSuperpage i pte = (field pte (9 + 9 * i) 10 != 0) := by
  have hfield : (Pte.ppn pte &&& (((1 : U64) <<< (i * 9)) - 1)).toNat = field pte (9 + 9 * i) 10 := by
    rw [Masks.toNat_low (by omega), toNat_ppn]
    unfold field
    obtain rfl | rfl | rfl : i = 0 ∨ i = 1 ∨ i = 2 := by omega
    all_goals omega
  unfold misalignedSuperpage
  rw [Bool.eq_iff_iff, Bool.and_eq_true, bne_iff_ne, bne_iff_ne, decide_eq_true_iff, ← hfield]
  constructor
  · rintro ⟨-, hne⟩ hzero
    exact hne (BitVec.eq_of_toNat_eq hzero)
  · intro hne
    refine ⟨?_, fun hzero => hne (by rw [hzero]; rfl)⟩
    by_contra hle
    obtain rfl : i = 0 := Nat.eq_zero_of_not_pos hle
    rw [hfield] at hne
    exact hne (Nat.mod_one _)

theorem checkPermissions_eq (h : Sees env csrs m) (access : AccessType) (priv : PrivilegeMode) (pte : U64) :
    checkPermissions pte access priv csrs = permitted m access priv pte := by
  unfold checkPermissions permitted
  rw [h.mxr, h.sum]
  cases access <;> cases priv <;> cases Pte.canRead pte <;> cases Pte.canWrite pte <;> cases Pte.canExec pte <;>
    cases Pte.isUser pte <;> cases m.mxr <;> cases m.sum <;> rfl

theorem updateAccessBits_eq (pte : U64) (access : AccessType) :
    updateAccessBits pte access = (marked access pte, stale access pte) := by
  refine Prod.ext (Masks.ext_bits fun i hi => ?_) rfl
  have h6 : ((1 : U64) <<< 6).getLsbD i = decide (i = 6) := Masks.getLsbD_bit 6 i (by decide)
  have h7 : ((1 : U64) <<< 7).getLsbD i = decide (i = 7) := Masks.getLsbD_bit 7 i (by decide)
  rw [getLsbD_updateAccessBits]
  cases access with
  | fetch =>
    unfold marked
    rw [BitVec.getLsbD_or, h6, show (AccessType.fetch == AccessType.write) = false from rfl,
        Bool.and_false, Bool.or_false]
  | read =>
    unfold marked
    rw [BitVec.getLsbD_or, h6, show (AccessType.read == AccessType.write) = false from rfl,
        Bool.and_false, Bool.or_false]
  | write =>
    unfold marked
    rw [BitVec.getLsbD_or, BitVec.getLsbD_or, h6, h7, show (AccessType.write == AccessType.write) =
        true from rfl, Bool.and_true]

/-- A PTE is written back exactly when a bit is to be set, and only these bits change. -/
theorem marked_bits (access : AccessType) (pte : U64) (i : Nat) :
    (marked access pte).getLsbD i = (pte.getLsbD i || decide (i = 6) || (decide (i = 7) && access == .write)) := by
  rw [← getLsbD_updateAccessBits, updateAccessBits_eq]

theorem returns_fault {o : Outcome} {t : Trap} (cycles : Nat) (ht : o.trap va access = some t) :
    Returns va access (.fault t cycles) o := by
  cases o with
  | page paddr update => cases ht
  | pageFault => exact ⟨ht.symm, fun _ _ h => (nomatch h), rfl⟩
  | accessFault => exact ⟨ht.symm, fun _ _ h => (nomatch h), rfl⟩

/-- The two tests of the software mode are one. -/
theorem software_eq {α : Type} (soft : Bool) (access : AccessType) (pte : U64) (x y : α) :
    (if soft && !Pte.isAccessed pte then x else if soft && access == .write && !Pte.isDirty pte then x else y) =
      if soft && stale access pte then x else y := by
  unfold stale
  cases soft <;> cases Pte.isAccessed pte <;> cases Pte.isDirty pte <;> cases access <;> rfl

theorem walkLeaf_returns (h : Sees env csrs m) {i : Nat} (hi : i ≤ 2) {pte : U64}
    (hrw : (Pte.canWrite pte && !Pte.canRead pte) = false)
    (a : PhysAddr) (cycles : Nat) :
    Returns va access (walkLeaf env va access priv csrs i a pte cycles).1 (leaf m.lenient va access priv i a pte) := by
  have hsame : refused m.lenient access priv i pte = refused m access priv i pte := rfl
  unfold walkLeaf leaf
  rw [if_neg (by rw [hrw]; exact Bool.false_ne_true), hsame, misaligned_eq hi, checkPermissions_eq h, h.soft,
      updateAccessBits_eq, software_eq]
  unfold refused
  cases hf : (field pte (9 + 9 * i) 10 != 0) with
  | true => exact returns_fault cycles rfl
  | false =>
    cases hp : permitted m access priv pte with
    | false => exact returns_fault cycles rfl
    | true =>
      have haddr := leafPaddr_eq va hi (bne_eq_false_iff_eq.mp hf)
      cases hs : m.svade && stale access pte with
      | true => exact returns_fault cycles rfl
      | false =>
        cases hst : stale access pte with
        | false => exact ⟨rfl, fun _ _ heq => haddr.trans (Outcome.page.inj heq).1, rfl⟩
        | true => exact ⟨rfl, fun _ _ heq => haddr.trans (Outcome.page.inj heq).1, rfl⟩

/-- One entry, whatever the pointer leads to. -/
theorem visit_returns (h : Sees env csrs m) {i : Nat} (hi : i ≤ 2) (a : PhysAddr) (cycles : Nat)
    {r : TranslationResult × Option TlbFill}
    {next : Nat → Outcome} (hnext : Returns va access r.1 (next (Pte.ppn (env.bus a)).toNat)) :
    Returns va access
      (if env.blocks a then (.fault (walkAccessFault va access) cycles, none)
      else if !Pte.isValid (env.bus a) then (.fault (pageFault va access) (cycles + env.transit), none)
      else if Pte.isPointer (env.bus a) then r
      else walkLeaf env va access priv csrs i a (env.bus a) (cycles + env.transit)).1
      (visit m.lenient va access priv i a next) := by
  have hread : m.lenient.readable = m.readable := rfl
  have hmem : m.lenient.memory a = some (env.bus a) := congrArg some (h.bus a).symm
  have hres : m.lenient.reserved (env.bus a) = false := rfl
  unfold visit
  rw [hread, h.blocks, hmem]
  dsimp only
  rw [hres, Bool.or_false]
  generalize env.bus a = pte at *
  cases m.readable a with
  | false => exact returns_fault cycles rfl
  | true =>
    cases Pte.isValid pte with
    | false => exact returns_fault _ rfl
    | true =>
      rw [toNat_ppn] at hnext
      rw [Bool.and_comm (!Pte.canRead pte)]
      cases hrw : Pte.canWrite pte && !Pte.canRead pte with
      | true =>
        -- the code comes to this test behind the one for a pointer
        have hptr : Pte.isPointer pte = false := by
          unfold Pte.isPointer
          rw [Bool.and_elim_left hrw, Bool.not_true, Bool.and_false, Bool.false_and]
        rw [hptr]
        unfold walkLeaf
        rw [if_pos hrw]
        exact returns_fault _ rfl
      | false =>
        have hptr : Pte.isPointer pte = !(Pte.canRead pte || Pte.canExec pte) := by
          unfold Pte.isPointer
          revert hrw
          cases Pte.canRead pte <;> cases Pte.canWrite pte <;> cases Pte.canExec pte <;> decide
        rw [hptr]
        cases Pte.canRead pte || Pte.canExec pte with
        | false => exact hnext
        | true => exact walkLeaf_returns h hi hrw a _

/-- **What the code walks**: from any level down, the algorithm of the lenient machine. -/
theorem walkFrom_returns (h : Sees env csrs m) {i : Nat} (hi : i ≤ 2) (ppn : Ppn) (cycles : Nat) :
    Returns va access (walkFrom env va access priv csrs i ppn cycles).1
      (walk m.lenient va access priv i ppn.toNat) := by
  induction i generalizing ppn cycles with
  | zero =>
    unfold walkFrom walk
    rw [← pteAddrAt_eq]
    exact visit_returns h hi _ _ (returns_fault _ rfl)
  | succ i ih =>
    unfold walkFrom walk
    rw [← pteAddrAt_eq]
    exact visit_returns h hi _ _ (ih (by omega) _ _)

/-! ### Where the two part -/

section

variable (m : Machine) (va : VirtAddr) (access : AccessType) (priv : PrivilegeMode)

/-- One entry of a path on which the code comes to a page fault. -/
def ends (i : Nat) (a : PhysAddr) (next : Nat → Bool) : Bool :=
  m.readable a &&
    match m.memory a with
    | none => true
    | some pte =>
      !Pte.isValid pte || !Pte.canRead pte && Pte.canWrite pte ||
        if Pte.canRead pte || Pte.canExec pte then refused m access priv i pte else next (field pte 53 10)

/-- The path from this table on maps nothing: it ends at no device, at an entry that is not
valid or writable only, at a pointer of the last level, or at a leaf that refuses the access. -/
def deadEnd : Nat → Nat → Bool
  | 0, ppn => ends m access priv 0 (pteAddr va 0 ppn) fun _ => true
  | i + 1, ppn => ends m access priv (i + 1) (pteAddr va (i + 1) ppn) (deadEnd i)

/-- One entry of a path on which the reserved encodings, the missing devices and the protection
against updates make no difference. -/
def harmless (allows : PhysAddr → Bool) (i : Nat) (a : PhysAddr) (dead next : Nat → Bool) : Bool :=
  !m.readable a ||
    match m.memory a with
    | none => false
    | some pte =>
      !Pte.isValid pte || !Pte.canRead pte && Pte.canWrite pte ||
        if Pte.canRead pte || Pte.canExec pte then
          refused m access priv i pte ||
            !m.reserved pte && (!stale access pte || m.writable a || !allows (leafAddr va i pte))
        else if m.reserved pte then dead (field pte 53 10)
        else next (field pte 53 10)

/-- Every PTE of the path is at a device; a reserved one leads nowhere anyway, and the leaf may be
updated if it has to be, or the page may not be accessed at all. -/
def sound (allows : PhysAddr → Bool) : Nat → Nat → Bool
  | 0, ppn => harmless m va access priv allows 0 (pteAddr va 0 ppn) (fun _ => true) fun _ => true
  | i + 1, ppn =>
    harmless m va access priv allows (i + 1) (pteAddr va (i + 1) ppn) (deadEnd m va access priv i) (sound allows i)

end

variable {allows : PhysAddr → Bool} {i ppn : Nat} {a : PhysAddr} {pte : U64}

theorem Machine.memory_lenient (m : Machine) (a : PhysAddr) :
    m.lenient.memory a = match m.memory a with | none => some 0 | some pte => some pte := by
  show some ((m.memory a).getD 0) = _
  cases m.memory a with
  | none => rfl
  | some pte => rfl

theorem leaf_eq_pageFault_iff : leaf m.lenient va access priv i a pte = .pageFault ↔
    refused m access priv i pte = true := by
  have hsame : refused m.lenient access priv i pte = refused m access priv i pte := rfl
  unfold leaf
  rw [hsame]
  cases refused m access priv i pte with
  | true => exact iff_of_true rfl rfl
  | false =>
    refine iff_of_false ?_ Bool.false_ne_true
    cases stale access pte with
    | false => exact fun h => nomatch h
    | true => exact fun h => nomatch h

theorem visit_eq_pageFault_iff {next : Nat → Outcome} {next' : Nat → Bool}
    (hnext : ∀ p, next p = .pageFault ↔ next' p = true) :
    visit m.lenient va access priv i a next = .pageFault ↔ ends m access priv i a next' = true := by
  have hread : m.lenient.readable = m.readable := rfl
  unfold visit ends
  rw [hread, m.memory_lenient]
  cases m.readable a with
  | false => exact iff_of_false (fun h => nomatch h) Bool.false_ne_true
  | true =>
    cases m.memory a with
    | none => exact iff_of_true rfl rfl
    | some pte =>
      have hres : m.lenient.reserved pte = false := rfl
      dsimp only
      rw [hres, Bool.or_false, Bool.true_and]
      cases !Pte.isValid pte || !Pte.canRead pte && Pte.canWrite pte with
      | true => exact iff_of_true rfl rfl
      | false =>
        cases Pte.canRead pte || Pte.canExec pte with
        | true => exact leaf_eq_pageFault_iff
        | false => exact hnext _

theorem walk_eq_pageFault_iff : walk m.lenient va access priv i ppn = .pageFault ↔
    deadEnd m va access priv i ppn = true := by
  induction i generalizing ppn with
  | zero => exact visit_eq_pageFault_iff fun _ => iff_of_true rfl rfl
  | succ i ih => exact visit_eq_pageFault_iff fun _ => ih

theorem checked_eq_pageFault_iff {o : Outcome} : o.checked allows = .pageFault ↔ o = .pageFault := by
  cases o with
  | page paddr update =>
    refine iff_of_false ?_ (fun h => nomatch h)
    show (if allows paddr then _ else _) ≠ _
    split
    · exact fun h => nomatch h
    · exact fun h => nomatch h
  | pageFault => exact iff_of_true rfl rfl
  | accessFault => exact Iff.rfl

theorem leaf_checked_iff : (leaf m.lenient va access priv i a pte).checked allows =
    (leaf m va access priv i a pte).checked allows ↔
    (refused m access priv i pte || !stale access pte || m.writable a || !allows (leafAddr va i pte)) = true := by
  have hsame : refused m.lenient access priv i pte = refused m access priv i pte := rfl
  have hwrite : m.lenient.writable a = true := rfl
  unfold leaf
  rw [hsame, hwrite]
  cases refused m access priv i pte with
  | true => exact iff_of_true rfl rfl
  | false =>
    cases stale access pte with
    | false => exact iff_of_true rfl rfl
    | true =>
      cases m.writable a with
      | true => exact iff_of_true rfl rfl
      | false =>
        show (if allows (leafAddr va i pte) then _ else _) = Outcome.accessFault ↔ (!allows (leafAddr va i pte)) = true
        cases allows (leafAddr va i pte) with
        | false => exact iff_of_true rfl rfl
        | true => exact iff_of_false (fun h => nomatch h) Bool.false_ne_true

theorem visit_checked_iff {next next' : Nat → Outcome} {dead good : Nat → Bool}
    (hdead : ∀ p, next' p = .pageFault ↔ dead p = true)
    (hgood : ∀ p, (next' p).checked allows = (next p).checked allows ↔ good p = true) :
    (visit m.lenient va access priv i a next').checked allows = (visit m va access priv i a next).checked allows ↔
      harmless m va access priv allows i a dead good = true := by
  have hread : m.lenient.readable = m.readable := rfl
  unfold visit harmless
  rw [hread, m.memory_lenient]
  cases m.readable a with
  | false => exact iff_of_true rfl rfl
  | true =>
    cases m.memory a with
    | none => exact iff_of_false (fun h => nomatch h) Bool.false_ne_true
    | some pte =>
      have hres : m.lenient.reserved pte = false := rfl
      dsimp only
      rw [hres, Bool.or_false, Bool.not_true, Bool.false_or]
      cases !Pte.isValid pte || !Pte.canRead pte && Pte.canWrite pte with
      | true => exact iff_of_true rfl rfl
      | false =>
        cases Pte.canRead pte || Pte.canExec pte with
        | true =>
          cases m.reserved pte with
          | true =>
            rw [Bool.not_true, Bool.false_and, Bool.or_false]
            exact checked_eq_pageFault_iff.trans leaf_eq_pageFault_iff
          | false =>
            rw [Bool.not_false, Bool.true_and, ← Bool.or_assoc, ← Bool.or_assoc]
            exact leaf_checked_iff
        | false =>
          cases m.reserved pte with
          | true => exact checked_eq_pageFault_iff.trans (hdead _)
          | false => exact hgood _

/-- **The code's walk is the algorithm** where the path is sound, and nowhere else. -/
theorem walk_eq_iff : (walk m.lenient va access priv i ppn).checked allows =
    (walk m va access priv i ppn).checked allows ↔
    sound m va access priv allows i ppn = true := by
  induction i generalizing ppn with
  | zero => exact visit_checked_iff (fun _ => iff_of_true rfl rfl) fun _ => iff_of_true rfl rfl
  | succ i ih => exact visit_checked_iff (fun _ => walk_eq_pageFault_iff) fun _ => ih

/-! ### The translation of the core -/

theorem canonical_iff (va : VirtAddr) : Canonical va ↔ va >>> 39 = if va.getLsbD 38 then 0x1FFFFFF else 0 := by
  have hmask : (0x1FFFFFF : U64) = ((1 : U64) <<< 25) - 1 := by decide
  have hbit : ∀ j, (if va.getLsbD 38 then (0x1FFFFFF : U64) else 0).getLsbD j = (va.getLsbD 38 && decide (j < 25)) := by
    intro j
    cases va.getLsbD 38 with
    | false => exact BitVec.getLsbD_zero
    | true =>
      rw [if_pos rfl, hmask, Masks.getLsbD_low (by decide), Bool.true_and]
  constructor
  · intro h
    refine Masks.ext_bits fun j _ => ?_
    rw [BitVec.getLsbD_ushiftRight, hbit]
    by_cases hj : j < 25
    · rw [h (39 + j) (by omega) (by omega), decide_eq_true hj, Bool.and_true]
    · rw [BitVec.getLsbD_of_ge va _ (by omega), decide_eq_false hj, Bool.and_false]
  · intro h i hi hle
    have hj := hbit (i - 39)
    rw [← h, BitVec.getLsbD_ushiftRight, decide_eq_true (by omega), Bool.and_true] at hj
    rwa [show 39 + (i - 39) = i by omega] at hj

theorem regime_eq (va : VirtAddr) (hpriv : priv ≠ .machine) (hmode : csrs.satpMode = Csr.satpModeSv39) :
    regime va priv csrs = if Canonical va then .sv39 else .nonCanonical := by
  unfold Csrs.satpMode at hmode
  unfold regime
  dsimp only
  rw [if_neg (by rw [hmode]; exact fun h => h.elim hpriv (by decide)), if_neg (not_not.mpr hmode)]
  by_cases hc : Canonical va
  · rw [if_neg (not_not.mpr ((canonical_iff va).mp hc)), if_pos hc]
  · rw [if_pos (fun h => hc ((canonical_iff va).mpr h)), if_neg hc]

theorem Returns.unique {r : TranslationResult} {o o' : Outcome} (h : Returns va access r o)
    (h' : Returns va access r o') : o = o' := by
  have htrap := h.trap.symm.trans h'.trap
  have hupdate := h.update.symm.trans h'.update
  have hkinds : pageFault va access ≠ walkAccessFault va access := by cases access <;> exact fun heq => nomatch heq
  cases o with
  | page paddr update =>
    cases o' with
    | page paddr' update' =>
      obtain rfl : update = update' := hupdate
      rw [(h.page _ _ rfl).symm.trans (h'.page _ _ rfl)]
    | pageFault => cases htrap
    | accessFault => cases htrap
  | pageFault =>
    cases o' with
    | page paddr' update' => cases htrap
    | pageFault => rfl
    | accessFault => exact absurd (Option.some.inj htrap) hkinds
  | accessFault =>
    cases o' with
    | page paddr' update' => cases htrap
    | pageFault => exact absurd (Option.some.inj htrap).symm hkinds
    | accessFault => rfl

end Sv39

/-- Units in which `bus.read_u64` answers zero where no device claims the address. -/
class BusUnits (U : Type) extends MmuUnits U where
  ptRead_unclaimed (u : U) (mem : Mem) (a : PhysAddr) : isValidAddress u a = false → ptRead u mem a = 0

namespace Cpu

section

variable {U : Type} [BusUnits U]

/-- What the algorithm is told of this machine. -/
def sv39 (c : Cpu U) : Sv39.Machine where
  memory := fun a => if Units.isValidAddress c.units a then some (MmuUnits.ptRead c.units c.mem a) else none
  readable := fun a => c.pmp.check a 8 true false false false == .allow
  writable := fun a => c.pmp.check a 8 false true false false == .allow
  reserved := Sv39.reserved
  svade := (MmuUnits.mmu c.units).softwareAdBits
  mxr := mxr c.csrs.sstatus
  sum := sum c.csrs.sstatus

/-- The protection of the access itself. -/
def permits (c : Cpu U) (access : AccessType) (priv : PrivilegeMode) (size : Nat) (a : PhysAddr) : Bool :=
  c.pmp.check a (BitVec.ofNat 64 size) (access == .read) (access == .write) (access == .fetch)
      (priv == .machine) == .allow

variable {c : Cpu U} {va : VirtAddr} {access : AccessType} {priv : PrivilegeMode}

theorem sees_sv39 (c : Cpu U) : Sv39.Sees
    ⟨MmuUnits.ptRead c.units c.mem, MmuUnits.transit c.units, some c.pmp, (MmuUnits.mmu c.units).softwareAdBits⟩
        c.csrs c.sv39 := by
  refine ⟨fun a => ?_, fun _ => rfl, rfl, rfl, rfl⟩
  show _ = (if Units.isValidAddress c.units a then _ else _ : Option U64).getD 0
  cases hv : Units.isValidAddress c.units a with
  | true => rfl
  | false => exact BusUnits.ptRead_unclaimed c.units c.mem a hv

/-- What a miss in both TLBs returns, before the protection of the access. -/
theorem mmu_returns (va : VirtAddr) (access : AccessType) (hpriv : priv ≠ .machine)
    (hmode : c.csrs.satpMode = Csr.satpModeSv39)
    (hmiss : (MmuUnits.mmu c.units).servedBy va access c.csrs = none) :
    Sv39.Returns va access
      ((MmuUnits.mmu c.units).translateWithPmp (MmuUnits.ptRead c.units c.mem) (MmuUnits.transit c.units)
          () va access priv c.csrs
        (some c.pmp)).1
      (Sv39.translate c.sv39.lenient va access priv c.csrs.satp) := by
  have hreg := Sv39.regime_eq va hpriv hmode
  unfold Sv39.translate
  by_cases hc : Sv39.Canonical va
  · rw [if_pos hc] at hreg ⊢
    have hans := (MmuUnits.mmu c.units).translateWithPmp_answers (MmuUnits.ptRead c.units c.mem)
        (MmuUnits.transit c.units) () va access
      priv c.csrs (some c.pmp) hreg
    rw [hmiss] at hans
    cases hans with
    | walk hres _ =>
      rw [hres, ← Sv39.toNat_root]
      exact Sv39.walkFrom_returns c.sees_sv39 (Nat.le_refl 2) _ _
  · rw [if_neg hc] at hreg ⊢
    unfold Mmu.translateWithPmp
    rw [hreg]
    exact Sv39.returns_fault 0 rfl

theorem translate_returns (va : VirtAddr) (size : Nat) (hdirect : c.directMode = false)
    (hpriv : effectivePriv c.csrs c.privilege access ≠ .machine)
    (hmode : c.csrs.satpMode = Csr.satpModeSv39) (hmiss : (MmuUnits.mmu c.units).servedBy va access c.csrs = none) :
    Sv39.Returns va access (c.translate va access size).1
      ((Sv39.translate c.sv39.lenient va access (effectivePriv c.csrs c.privilege access) c.csrs.satp).checked
        (c.permits access (effectivePriv c.csrs c.privilege access) size)) := by
  have hmmu := mmu_returns va access hpriv hmode hmiss
  rw [← MmuUnits.translate_eq] at hmmu
  unfold translate
  rw [hdirect, if_neg Bool.false_ne_true]
  dsimp only
  generalize Units.translateWithPmp c.units c.mem va access
      (effectivePriv c.csrs c.privilege access) c.csrs c.pmp = ru at hmmu
  obtain ⟨r, u⟩ := ru
  dsimp only at hmmu ⊢
  generalize Sv39.translate c.sv39.lenient va access (effectivePriv c.csrs c.privilege access) c.csrs.satp = o at hmmu
  have hkinds : accessFault access va = walkAccessFault va access := rfl
  cases o with
  | page paddr update =>
    have htrap : r.trap = none := hmmu.trap
    have hpage : r.paddr = paddr := hmmu.page _ _ rfl
    rw [if_neg (by rw [htrap]; exact Bool.false_ne_true), hpage]
    show Sv39.Returns _ _ _ (if (_ == PmpResult.allow) = true then _ else _)
    cases c.pmp.check paddr (BitVec.ofNat 64 size) (access == .read) (access == .write) (access == .fetch)
      (effectivePriv c.csrs c.privilege access == .machine) with
    | allow => exact hmmu
    | deny => exact Sv39.returns_fault r.cycles (congrArg some hkinds.symm)
    | noMatch => exact Sv39.returns_fault r.cycles (congrArg some hkinds.symm)
  | pageFault =>
    rw [if_pos (by rw [hmmu.trap]; rfl)]
    exact hmmu
  | accessFault =>
    rw [if_pos (by rw [hmmu.trap]; rfl)]
    exact hmmu

/-- **A translation that misses both TLBs answers as the Sv39 algorithm does** exactly where the
path of its address is sound. -/
theorem translate_sv39 (c : Cpu U) (va : VirtAddr) (access : AccessType) (size : Nat) (hdirect : c.directMode = false)
    (hpriv : effectivePriv c.csrs c.privilege access ≠ .machine) (hmode : c.csrs.satpMode = Csr.satpModeSv39)
    (hmiss : (MmuUnits.mmu c.units).servedBy va access c.csrs = none) :
    Sv39.Returns va access (c.translate va access size).1
        ((Sv39.translate c.sv39 va access (effectivePriv c.csrs c.privilege access) c.csrs.satp).checked
          (c.permits access (effectivePriv c.csrs c.privilege access) size)) ↔
      (Sv39.Canonical va → Sv39.sound c.sv39 va access (effectivePriv c.csrs c.privilege access)
        (c.permits access (effectivePriv c.csrs c.privilege access) size) 2 (Sv39.field c.csrs.satp 43 0) = true) := by
  have hret := translate_returns va size hdirect hpriv hmode hmiss
  unfold Sv39.translate at hret ⊢
  by_cases hc : Sv39.Canonical va
  · rw [if_pos hc] at hret ⊢
    rw [forall_prop_of_true hc, ← Sv39.walk_eq_iff]
    constructor
    · intro h
      exact hret.unique h
    · intro heq
      rw [← heq]
      exact hret
  · rw [if_neg hc] at hret ⊢
    exact iff_of_true hret fun h => absurd h hc

end

instance : BusUnits ColdBench :=
  { (inferInstanceAs (MmuUnits ColdBench) : MmuUnits ColdBench) with ptRead_unclaimed := fun _ _ _ h => nomatch h }

theorem translate_sv39_scattered : Sv39.Returns 0x1008 .read (scatteredCpu.translate 0x1008 .read 8).1
    ((Sv39.translate scatteredCpu.sv39 0x1008 .read .supervisor scatteredCpu.csrs.satp).checked
      (scatteredCpu.permits .read .supervisor 8)) :=
  (translate_sv39 scatteredCpu 0x1008 .read 8 rfl (by decide) (by decide) (by decide)).mpr fun _ => by decide

/-- The leaf of page 1 with bit 54 set. -/
def reservedCpu : Cpu ColdBench :=
  { scatteredCpu with
    mem := scatteredPages.write 0x80002008 8 (((0x80020 : Ppn) <<< 10) ||| 0xC7 ||| (1 : U64) <<< 54) }

/-- **A reserved bit of a leaf is overlooked.** -/
theorem translate_reserved : reservedCpu.directMode = false ∧
    effectivePriv reservedCpu.csrs reservedCpu.privilege .read = .supervisor ∧
    reservedCpu.csrs.satpMode = Csr.satpModeSv39 ∧
        (MmuUnits.mmu reservedCpu.units).servedBy 0x1008 .read reservedCpu.csrs = none ∧
    (reservedCpu.translate 0x1008 .read 8).1.trap = none ∧
    ¬Sv39.Returns 0x1008 .read (reservedCpu.translate 0x1008 .read 8).1
      ((Sv39.translate reservedCpu.sv39 0x1008 .read .supervisor reservedCpu.csrs.satp).checked
          (reservedCpu.permits .read .supervisor 8)) := by
  have htrap : (reservedCpu.translate 0x1008 .read 8).1.trap = none := by decide
  have hspec : (Sv39.translate reservedCpu.sv39 0x1008 .read .supervisor reservedCpu.csrs.satp).checked
      (reservedCpu.permits .read .supervisor 8) = .pageFault := by decide
  refine ⟨rfl, by decide, by decide, by decide, htrap, fun h => ?_⟩
  rw [hspec] at h
  exact absurd (htrap.symm.trans h.trap) (fun heq => nomatch heq)

end Cpu

end Rvsim
