/-
# Deferred accessed and dirty bits

The walker does not write the accessed and dirty bits it wants to set: the
update travels with the instruction that walked and is written, as a whole
PTE, when that instruction commits. The TLB entry of the walk is there at
once. Here the translation unit runs over a memory, with the accesses that
have translated and neither committed nor been squashed, in any order of
walks, commits, squashes, drained stores, device writes and fences.

Key definitions:
  - `AdSystem`, `AdSystem.step`, `AdSystem.Reach`, `AdSystem.Inv`
  - `Retired.Kept`, `Retired.Fresh`, `AdSystem.Landed`
Key theorems:
  - `AdSystem.Inv.step`, `AdSystem.kept_iff_fresh`, `AdSystem.retired_complete`
-/
import Rvsim.Lib.Masks
import Rvsim.MmuRun
import Rvsim.LoadStore

namespace Rvsim

/-! ### The update a walk asks for -/

theorem getLsbD_updateAccessBits (pte : U64) (access : AccessType) (i : Nat) :
    (updateAccessBits pte access).1.getLsbD i =
      (pte.getLsbD i || decide (i = 6) || (decide (i = 7) && access == .write)) := by
  have h6 : Pte.isAccessed pte = true → (pte.getLsbD i || decide (i = 6)) = pte.getLsbD i := by
    intro hA
    by_cases h : i = 6
    · have hi : pte.getLsbD i = true := by rw [h]; exact hA
      rw [hi, Bool.true_or]
    · rw [decide_eq_false h, Bool.or_false]
  have h7 : Pte.isDirty pte = true → (pte.getLsbD i || decide (i = 7)) = pte.getLsbD i := by
    intro hD
    by_cases h : i = 7
    · have hi : pte.getLsbD i = true := by rw [h]; exact hD
      rw [hi, Bool.true_or]
    · rw [decide_eq_false h, Bool.or_false]
  have hA : (Pte.withAccessed pte).getLsbD i = (pte.getLsbD i || decide (i = 6)) := by
    rw [Pte.withAccessed, BitVec.getLsbD_or, Pte.accessedBit, Masks.getLsbD_bit 6 i (by decide)]
  have hD : ∀ p, (Pte.withDirty p).getLsbD i = (p.getLsbD i || decide (i = 7)) := by
    intro p
    rw [Pte.withDirty, BitVec.getLsbD_or, Pte.dirtyBit, Masks.getLsbD_bit 7 i (by decide)]
  unfold updateAccessBits
  cases ha : Pte.isAccessed pte with
  | false =>
    by_cases hw : access == .write
    · cases hd : Pte.isDirty pte with
      | false => simp [hw, hA, hD]
      | true =>
        simp only [hw, hA, Bool.not_false, Bool.not_true, Bool.and_false, Bool.and_true, if_true,
          Bool.false_eq_true, if_false]
        rw [Bool.or_right_comm, h7 hd]
    · simp [hw, hA]
  | true =>
    by_cases hw : access == .write
    · cases hd : Pte.isDirty pte with
      | false => simp [hw, hD, h6 ha]
      | true => simp [hw, h6 ha, h7 hd]
    · simp [hw, h6 ha]

/-- No update is asked for exactly when the bits are set already. -/
theorem updateAccessBits_unchanged (pte : U64) (access : AccessType) :
    (updateAccessBits pte access).2 = false ↔
      Pte.isAccessed pte = true ∧ (access = .write → Pte.isDirty pte = true) := by
  show (!Pte.isAccessed pte || (access == .write && !Pte.isDirty pte)) = false ↔ _
  cases Pte.isAccessed pte <;> cases Pte.isDirty pte <;> cases access <;> simp

/-- The update a successful walk hands to its instruction. -/
def TlbFill.update (f : TlbFill) (access : AccessType) : Option PteUpdate :=
  if (updateAccessBits f.pte access).2 then some ⟨f.pteAddr, (updateAccessBits f.pte access).1⟩ else none

/-- A walk either traps, or fills and hands out the update of its fill. -/
def WalkDone (access : AccessType) (r : TranslationResult × Option TlbFill) : Prop :=
  match r.2 with
  | none => r.1.trap.isSome = true
  | some f => r.1.trap = none ∧ r.1.pteUpdate = f.update access

theorem walkLeaf_done (env : WalkEnv) (va : VirtAddr) (access : AccessType) (priv : PrivilegeMode) (csrs : Csrs)
    (level : Nat) (a : PhysAddr) (pte : U64) (c : Nat) :
    WalkDone access (walkLeaf env va access priv csrs level a pte c) := by
  unfold walkLeaf
  by_cases h1 : (Pte.canWrite pte && !Pte.canRead pte) = true
  · rw [if_pos h1]
    rfl
  rw [if_neg h1]
  by_cases h2 : misalignedSuperpage level pte = true
  · rw [if_pos h2]
    rfl
  rw [if_neg h2]
  by_cases h3 : (!checkPermissions pte access priv csrs) = true
  · rw [if_pos h3]
    rfl
  rw [if_neg h3]
  by_cases h4 : (env.softwareAdBits && !Pte.isAccessed pte) = true
  · rw [if_pos h4]
    rfl
  rw [if_neg h4]
  by_cases h5 : (env.softwareAdBits && access == .write && !Pte.isDirty pte) = true
  · rw [if_pos h5]
    rfl
  rw [if_neg h5]
  exact ⟨rfl, rfl⟩

theorem walkFrom_done (env : WalkEnv) (va : VirtAddr) (access : AccessType) (priv : PrivilegeMode) (csrs : Csrs)
    (level : Nat) (ppn : Ppn) (c : Nat) : WalkDone access (walkFrom env va access priv csrs level ppn c) := by
  induction level generalizing ppn c with
  | zero =>
    unfold walkFrom
    simp only
    split
    · rfl
    · split
      · rfl
      · split
        · rfl
        · exact walkLeaf_done _ _ _ _ _ _ _ _ _
  | succ level ih =>
    unfold walkFrom
    simp only
    split
    · rfl
    · split
      · rfl
      · split
        · exact ih _ _
        · exact walkLeaf_done _ _ _ _ _ _ _ _ _

/-! ### The system -/

/-- An access between its translation and its commit: the logged walk behind the translation, and
the PTE update it carries. -/
structure AdAccess where
  src : Nat
  access : AccessType
  update : Option PteUpdate
  deriving DecidableEq

/-- A commit that has happened: the PTE its walk read, and the PTE in memory right before and right
after it. -/
structure Retired where
  access : AccessType
  updated : Bool
  walked : U64
  before : U64
  after : U64

/-- An access in flight carries the update of the walk behind it, or needs no dirty bit from it. -/
structure AdAccess.Fits (x : AdAccess) (f : TlbFill) : Prop where
  update : ∀ u, x.update = some u → f.update x.access = some u
  dirty : x.update = none → x.access = .write → Pte.isDirty f.pte = true

namespace Retired

/-- The commit left the PTE in memory as it was, but for setting A, and D for a write. -/
def Kept (w : Retired) : Prop :=
  ∀ i, w.after.getLsbD i = w.before.getLsbD i ∨
    (w.after.getLsbD i = true ∧ (i = 6 ∨ (i = 7 ∧ w.access = .write)))

/-- If the commit wrote a PTE, memory still held the one its walk read, but for A, and D for a write. -/
def Fresh (w : Retired) : Prop :=
  w.updated = true → ∀ i, i ≠ 6 → ¬(i = 7 ∧ w.access = .write) → w.before.getLsbD i = w.walked.getLsbD i

/-- The PTE in memory after the commit has its accessed bit, and its dirty bit after a write. -/
def Complete (w : Retired) : Prop :=
  Pte.isAccessed w.after = true ∧ (w.access = .write → Pte.isDirty w.after = true)

end Retired

structure AdSystem where
  unit : MmuSystem
  mem : Mem
  devices : PhysAddr → U64
  isRam : PhysAddr → Bool
  inFlight : List AdAccess
  /-- walks whose update has been written -/
  landed : List Nat
  /-- walks whose PTE has lost an accessed or a dirty bit since -/
  cleared : List Nat
  retired : List Retired

/-- `bus.read_u64`: RAM, or a device. -/
def busOf (isRam : PhysAddr → Bool) (mem : Mem) (devices : PhysAddr → U64) : PhysAddr → U64 :=
  fun a => if isRam a then mem.read a 8 else devices a

/-- An accessed or a dirty bit set in `x` is not set in `y`. -/
def lostBits (x y : U64) : Bool :=
  (Pte.isAccessed x && !Pte.isAccessed y) || (Pte.isDirty x && !Pte.isDirty y)

inductive AdOp where
  | translate (t : TranslateOp)
  | commit (x : AdAccess)
  | squash (x : AdAccess)
  /-- a committed store drains -/
  | drain (a : PhysAddr) (w : MemWidth) (data : U64)
  /-- devices change, and may write RAM -/
  | devices (mem : Mem) (devices : PhysAddr → U64)
  | fence (info : SfenceVmaInfo)
  | writeSatp (v : U64)

namespace AdSystem

/-- What walk number `k` found. -/
def fillAt (s : AdSystem) (k : Nat) : Option TlbFill := (s.unit.log[k]?).map (·.fill)

/-- The log entry an access is translated by: that of the TLB entry it hits, or its own walk. -/
def sourceOf (s : AdSystem) (t : TranslateOp) : Nat :=
  match s.unit.mmu.servedBy t.va t.access (s.unit.csrsOf t) with
  | some (some k) => k
  | _ => s.unit.log.length

/-- The access a translation hands to memory: none if it traps or is not paged, and none for a
fetch, whose PTE update goes nowhere. -/
def accessOf (s : AdSystem) (t : TranslateOp) : Option AdAccess :=
  let res := (s.unit.result t).1
  if t.access = .fetch ∨ regime t.va t.priv (s.unit.csrsOf t) ≠ .sv39 ∨ res.trap.isSome then none
  else some ⟨s.sourceOf t, t.access, res.pteUpdate⟩

def translate (s : AdSystem) (t : TranslateOp) : AdSystem :=
  { s with unit := s.unit.translate t, inFlight := s.inFlight ++ (s.accessOf t).toList }

/-- Memory and devices change under the unit. -/
def remember (s : AdSystem) (mem : Mem) (devices : PhysAddr → U64) : AdSystem :=
  let bus := busOf s.isRam mem devices
  let lost (k : Nat) : Bool :=
    match s.fillAt k with
    | some f => lostBits (s.unit.bus f.pteAddr) (bus f.pteAddr)
    | none => false
  { s with
    unit := { s.unit with bus := bus }
    mem := mem
    devices := devices
    cleared := s.cleared ++ (List.range s.unit.log.length).filter lost }

/-- `write_store_to_memory`; what a store to a device does comes as a step of the devices. -/
def write (s : AdSystem) (a : PhysAddr) (w : MemWidth) (data : U64) : AdSystem :=
  if s.isRam a then s.remember (s.mem.write a w.bytes data) s.devices else s

/-- The PTE write of a commit. -/
def applyUpdate (s : AdSystem) (x : AdAccess) : AdSystem :=
  match x.update with
  | none => s
  | some u =>
    let s := s.write u.pteAddr .double u.pteValue
    { s with landed := x.src :: s.landed, cleared := s.cleared.filter (· ≠ x.src) }

def commit (s : AdSystem) (x : AdAccess) : AdSystem :=
  let after := s.applyUpdate x
  let note : Option Retired :=
    match s.fillAt x.src with
    | some f =>
      if s.isRam f.pteAddr then
        some ⟨x.access, x.update.isSome, f.pte, s.mem.read f.pteAddr 8, after.mem.read f.pteAddr 8⟩
      else none
    | none => none
  { after with inFlight := after.inFlight.erase x, retired := after.retired ++ note.toList }

def step (s : AdSystem) : AdOp → AdSystem
  | .translate t => s.translate t
  | .commit x => if x ∈ s.inFlight then s.commit x else s
  | .squash x => { s with inFlight := s.inFlight.erase x }
  | .drain a w data => s.write a w data
  | .devices mem devices => s.remember mem devices
  | .fence info => { s with unit := s.unit.fence info }
  | .writeSatp v => { s with unit := s.unit.step (.writeSatp v) }

/-- The states of runs whose steps meet `P`. -/
inductive Reach (P : AdSystem → AdOp → Prop) : AdSystem → Prop
  | init (tlbSize l2Size l2Ways l2Latency : Nat) (soft : Bool) (satp : U64) (isRam : PhysAddr → Bool) (mem : Mem)
      (devices : PhysAddr → U64) :
      Reach P ⟨⟨Mmu.new tlbSize l2Size l2Ways l2Latency soft, satp, busOf isRam mem devices, []⟩, mem, devices,
        isRam, [], [], [], []⟩
  | step {s : AdSystem} (op : AdOp) : Reach P s → P s op → Reach P (s.step op)

/-! ### The invariant -/

structure Inv (s : AdSystem) : Prop where
  unit : s.unit.Inv
  bus : s.unit.bus = busOf s.isRam s.mem s.devices
  inFlight : ∀ x ∈ s.inFlight, ∃ f, s.fillAt x.src = some f ∧ x.Fits f
  landed : ∀ k ∈ s.landed, k < s.unit.log.length
  /-- the bits a walk found or wrote are in memory, unless something has cleared them -/
  marks : ∀ k f, s.fillAt k = some f → k ∉ s.cleared → s.isRam f.pteAddr = true →
    (Pte.isDirty f.pte = true → Pte.isDirty (s.unit.bus f.pteAddr) = true) ∧
      (Pte.isAccessed f.pte = true ∨ k ∈ s.landed → Pte.isAccessed (s.unit.bus f.pteAddr) = true)

variable {s : AdSystem}

theorem fillAt_lt {k : Nat} {f : TlbFill} (h : s.fillAt k = some f) : k < s.unit.log.length := by
  obtain ⟨r, hr, -⟩ := Option.map_eq_some_iff.mp h
  exact (List.getElem?_eq_some_iff.mp hr).1

theorem kept_of_not_lost {x y : U64} (h : lostBits x y = false) :
    (Pte.isAccessed x = true → Pte.isAccessed y = true) ∧ (Pte.isDirty x = true → Pte.isDirty y = true) := by
  unfold lostBits at h
  constructor
  · intro hx
    rw [hx] at h
    simpa using (Bool.or_eq_false_iff.mp h).1
  · intro hx
    rw [hx] at h
    simpa using (Bool.or_eq_false_iff.mp h).2

@[simp] theorem fillAt_remember (s : AdSystem) (mem : Mem) (devices : PhysAddr → U64) (k : Nat) :
    (s.remember mem devices).fillAt k = s.fillAt k := rfl

/-- A change of memory marks the walks whose PTE loses a bit. -/
theorem Inv.remember (h : s.Inv) (mem : Mem) (devices : PhysAddr → U64) : (s.remember mem devices).Inv where
  unit := ⟨h.unit.placed, h.unit.held⟩
  bus := rfl
  inFlight := h.inFlight
  landed := h.landed
  marks := by
    intro k f hf hk hram
    change k ∉ s.cleared ++ (List.range s.unit.log.length).filter _ at hk
    rw [List.mem_append, not_or] at hk
    obtain ⟨hold, hnew⟩ := hk
    obtain ⟨hD, hA⟩ := h.marks k f hf hold hram
    have hlost : lostBits (s.unit.bus f.pteAddr) (busOf s.isRam mem devices f.pteAddr) = false := by
      by_contra hc
      refine hnew (List.mem_filter.mpr ⟨List.mem_range.mpr (fillAt_lt hf), ?_⟩)
      have hf' : s.fillAt k = some f := hf
      simp only [hf']
      simpa using hc
    obtain ⟨keepA, keepD⟩ := kept_of_not_lost hlost
    exact ⟨fun hd => keepD (hD hd), fun ha => keepA (hA ha)⟩

theorem Inv.write (h : s.Inv) (a : PhysAddr) (w : MemWidth) (data : U64) : (s.write a w data).Inv := by
  unfold AdSystem.write
  split
  · exact h.remember _ _
  · exact h

theorem fillAt_write (s : AdSystem) (a : PhysAddr) (w : MemWidth) (data : U64) (k : Nat) :
    (s.write a w data).fillAt k = s.fillAt k := by
  unfold write
  split
  · rfl
  · rfl

theorem isRam_write (s : AdSystem) (a : PhysAddr) (w : MemWidth) (data : U64) :
    (s.write a w data).isRam = s.isRam := by
  unfold write
  split
  · rfl
  · rfl

theorem length_log_write (s : AdSystem) (a : PhysAddr) (w : MemWidth) (data : U64) :
    (s.write a w data).unit.log.length = s.unit.log.length := by
  unfold write
  split
  · rfl
  · rfl

/-- After a PTE write RAM holds the PTE that was written. -/
theorem mem_write_double {a : PhysAddr} (hram : s.isRam a = true) (data : U64) :
    (s.write a .double data).mem.read a 8 = data := by
  unfold write
  rw [if_pos hram]
  exact Mem.read_write_self _ _ _

theorem update_eq_some {f : TlbFill} {access : AccessType} {u : PteUpdate} (h : f.update access = some u) :
    u = ⟨f.pteAddr, (updateAccessBits f.pte access).1⟩ := by
  unfold TlbFill.update at h
  split at h
  · exact (Option.some.inj h).symm
  · cases h

/-- The PTE an update writes has its accessed bit, and its dirty bit if the walk saw it or the
access is a write. -/
theorem update_bits {f : TlbFill} {access : AccessType} {u : PteUpdate} (h : f.update access = some u) :
    Pte.isAccessed u.pteValue = true ∧ (Pte.isDirty f.pte = true → Pte.isDirty u.pteValue = true) ∧
      (access = .write → Pte.isDirty u.pteValue = true) := by
  rw [update_eq_some h]
  refine ⟨?_, fun hd => ?_, fun hw => ?_⟩
  · show (updateAccessBits f.pte access).1.getLsbD 6 = true
    rw [getLsbD_updateAccessBits]
    simp
  · show (updateAccessBits f.pte access).1.getLsbD 7 = true
    rw [getLsbD_updateAccessBits, show f.pte.getLsbD 7 = true from hd]
    rfl
  · show (updateAccessBits f.pte access).1.getLsbD 7 = true
    rw [getLsbD_updateAccessBits, hw]
    simp

/-- The PTE write of a commit puts the marks of its own walk right. -/
theorem Inv.applyUpdate (h : s.Inv) {x : AdAccess} (hx : x ∈ s.inFlight) : (s.applyUpdate x).Inv := by
  obtain ⟨f₀, hf₀, hfits⟩ := h.inFlight x hx
  unfold AdSystem.applyUpdate
  cases hu : x.update with
  | none => exact h
  | some u =>
    have hup := hfits.update u hu
    have hw := h.write u.pteAddr .double u.pteValue
    refine ⟨hw.unit, hw.bus, hw.inFlight, ?_, ?_⟩
    · intro k hk
      rcases List.mem_cons.mp hk with rfl | hk
      · exact (length_log_write s _ _ _).symm ▸ fillAt_lt hf₀
      · exact hw.landed k hk
    · intro k f hf hk hram
      change (s.write u.pteAddr .double u.pteValue).fillAt k = some f at hf
      change (s.write u.pteAddr .double u.pteValue).isRam f.pteAddr = true at hram
      show (Pte.isDirty f.pte = true →
          Pte.isDirty ((s.write u.pteAddr .double u.pteValue).unit.bus f.pteAddr) = true) ∧
        (Pte.isAccessed f.pte = true ∨ k ∈ x.src :: (s.write u.pteAddr .double u.pteValue).landed →
          Pte.isAccessed ((s.write u.pteAddr .double u.pteValue).unit.bus f.pteAddr) = true)
      by_cases hkx : k = x.src
      · -- the PTE just written is the one this walk read
        rw [hkx, fillAt_write, hf₀] at hf
        obtain rfl : f₀ = f := Option.some.inj hf
        obtain ⟨hA, hD, -⟩ := update_bits hup
        have haddr : u.pteAddr = f₀.pteAddr := by rw [update_eq_some hup]
        have hnow : (s.write u.pteAddr .double u.pteValue).unit.bus f₀.pteAddr = u.pteValue := by
          rw [hw.bus, busOf, if_pos hram, ← haddr]
          refine mem_write_double ?_ _
          rw [isRam_write] at hram
          rw [haddr]
          exact hram
        rw [hnow]
        exact ⟨hD, fun _ => hA⟩
      · have hk' : k ∉ (s.write u.pteAddr .double u.pteValue).cleared := by
          intro hc
          exact hk (List.mem_filter.mpr ⟨hc, by simpa using hkx⟩)
        obtain ⟨hD, hA⟩ := hw.marks k f hf hk' hram
        refine ⟨hD, fun ha => hA (ha.imp id fun hm => ?_)⟩
        exact (List.mem_cons.mp hm).resolve_left hkx

theorem Inv.commit (h : s.Inv) {x : AdAccess} (hx : x ∈ s.inFlight) : (s.commit x).Inv := by
  have ha := h.applyUpdate hx
  exact ⟨ha.unit, ha.bus, fun y hy => ha.inFlight y (List.mem_of_mem_erase hy), ha.landed, ha.marks⟩

/-- A walk that fills has read the PTE it fills with from memory. -/
theorem fillOf_read {t : TranslateOp} {f : TlbFill} (h : s.unit.fillOf t = some f) :
    f.pte = s.unit.bus f.pteAddr :=
  (walkFrom_fill (le_refl 2) (MmuSystem.fillOf_walk h)).2.1

theorem fillAt_translate (s : AdSystem) (t : TranslateOp) (k : Nat) :
    (s.translate t).fillAt k =
      if k < s.unit.log.length then s.fillAt k
      else if k = s.unit.log.length then s.unit.fillOf t else none := by
  show ((s.unit.log ++ ((s.unit.fillOf t).map s.unit.recordOf).toList)[k]?).map (·.fill) = _
  by_cases hk : k < s.unit.log.length
  · rw [if_pos hk, List.getElem?_append_left hk]
    rfl
  · rw [if_neg hk, List.getElem?_append_right (Nat.le_of_not_lt hk)]
    by_cases heq : k = s.unit.log.length
    · rw [if_pos heq, heq, Nat.sub_self]
      cases s.unit.fillOf t with
      | none => rfl
      | some f => rfl
    · rw [if_neg heq]
      have hpos : k - s.unit.log.length ≠ 0 := by omega
      obtain ⟨n, hn⟩ := Nat.exists_eq_succ_of_ne_zero hpos
      rw [hn]
      cases s.unit.fillOf t with
      | none => rfl
      | some f => rfl

/-- The access a translation hands out fits the walk it names. -/
theorem Inv.accessOf (h : s.Inv) {t : TranslateOp} {x : AdAccess} (hx : s.accessOf t = some x) :
    ∃ f, (s.translate t).fillAt x.src = some f ∧ x.Fits f := by
  unfold AdSystem.accessOf at hx
  simp only [Option.ite_none_left_eq_some, not_or, Option.some.injEq, not_not] at hx
  obtain ⟨⟨-, hreg, htrap⟩, rfl⟩ := hx
  have hans := Mmu.translateWithPmp_answers s.unit.mmu s.unit.bus t.transit s.unit.log.length t.va t.access t.priv
    (s.unit.csrsOf t) t.pmp hreg
  change Mmu.Answers s.unit.mmu (s.unit.envOf t) s.unit.log.length t.va t.access t.priv (s.unit.csrsOf t)
    (s.unit.result t) _ at hans
  unfold sourceOf
  generalize ho : s.unit.mmu.servedBy t.va t.access (s.unit.csrsOf t) = o at hans
  cases hans with
  | hit e hheld hhits hclean hout hup hadds =>
    obtain ⟨k, r, hr, heq, -, -⟩ := h.unit.held e hheld
    have hsrc : e.src = some k := by rw [heq]; rfl
    have hk : s.fillAt k = some r.fill := by
      unfold fillAt
      rw [hr]
      rfl
    simp only [hsrc, hup]
    refine ⟨r.fill, ?_, ⟨fun u (hu : none = some u) => (nomatch hu), fun _ hw => ?_⟩⟩
    · rw [fillAt_translate, if_pos (fillAt_lt hk), hk]
    · have hd : e.d = Pte.isDirty r.fill.pte := by rw [heq]; rfl
      rw [hd] at hclean
      by_contra hc
      exact hclean ⟨hw, by simpa using hc⟩
  | walk hres hadds =>
    have hdone := walkFrom_done (s.unit.envOf t) t.va t.access t.priv (s.unit.csrsOf t) 2
      ((s.unit.csrsOf t).satp &&& satpPpnMask) 0
    change WalkDone t.access (walk (s.unit.envOf t) t.va t.access t.priv (s.unit.csrsOf t)) at hdone
    unfold WalkDone at hdone
    cases hfill : (walk (s.unit.envOf t) t.va t.access t.priv (s.unit.csrsOf t)).2 with
    | none =>
      rw [hfill] at hdone
      rw [hres] at htrap
      exact absurd hdone htrap
    | some f =>
      rw [hfill] at hdone
      obtain ⟨-, hupd⟩ := hdone
      have hof : s.unit.fillOf t = some f := by
        unfold MmuSystem.fillOf
        rw [if_pos ⟨hreg, ho⟩]
        exact hfill
      rw [hres, hupd]
      refine ⟨f, ?_, ⟨fun u hu => hu, fun hnone hw => ?_⟩⟩
      · show (s.translate t).fillAt s.unit.log.length = some f
        rw [fillAt_translate, if_neg (Nat.lt_irrefl _), if_pos rfl]
        exact hof
      · have hsame : (updateAccessBits f.pte t.access).2 = false := by
          by_contra hc
          unfold TlbFill.update at hnone
          rw [if_pos (by simpa using hc)] at hnone
          cases hnone
        exact ((updateAccessBits_unchanged f.pte t.access).mp hsame).2 hw

theorem Inv.translate (h : s.Inv) (t : TranslateOp) : (s.translate t).Inv where
  unit := h.unit.translate t
  bus := h.bus
  inFlight := by
    intro x hx
    rcases List.mem_append.mp hx with hx | hx
    · obtain ⟨f, hf, hfits⟩ := h.inFlight x hx
      refine ⟨f, ?_, hfits⟩
      rw [fillAt_translate, if_pos (fillAt_lt hf), hf]
    · exact h.accessOf (Option.mem_toList.mp hx)
  landed := by
    intro k hk
    show k < (s.unit.log ++ _).length
    rw [List.length_append]
    have := h.landed k hk
    omega
  marks := by
    intro k f hf hk hram
    rw [fillAt_translate] at hf
    show (Pte.isDirty f.pte = true → Pte.isDirty (s.unit.bus f.pteAddr) = true) ∧
      (Pte.isAccessed f.pte = true ∨ k ∈ s.landed → Pte.isAccessed (s.unit.bus f.pteAddr) = true)
    by_cases hlt : k < s.unit.log.length
    · rw [if_pos hlt] at hf
      exact h.marks k f hf hk hram
    · -- the walk of this translation: what it read is what memory holds
      rw [if_neg hlt] at hf
      by_cases heq : k = s.unit.log.length
      · rw [if_pos heq] at hf
        rw [← fillOf_read hf]
        refine ⟨id, fun ha => ha.resolve_right fun hm => hlt (h.landed k hm)⟩
      · rw [if_neg heq] at hf
        cases hf

theorem Inv.fence (h : s.Inv) (info : SfenceVmaInfo) : Inv { s with unit := s.unit.fence info } := by
  have hfill : ∀ k, AdSystem.fillAt { s with unit := s.unit.fence info } k = s.fillAt k := by
    intro k
    show ((s.unit.log.map (·.fence info))[k]?).map (·.fill) = (s.unit.log[k]?).map (·.fill)
    rw [List.getElem?_map, Option.map_map]
    rfl
  refine ⟨h.unit.fence info, h.bus, ?_, ?_, ?_⟩
  · intro x hx
    rw [hfill]
    exact h.inFlight x hx
  · intro k hk
    show k < (s.unit.log.map _).length
    rw [List.length_map]
    exact h.landed k hk
  · intro k f hf
    rw [hfill] at hf
    exact h.marks k f hf

theorem Inv.step (h : s.Inv) (op : AdOp) : (s.step op).Inv := by
  cases op with
  | translate t => exact h.translate t
  | commit x =>
    show Inv (if x ∈ s.inFlight then s.commit x else s)
    by_cases hx : x ∈ s.inFlight
    · rw [if_pos hx]
      exact h.commit hx
    · rw [if_neg hx]
      exact h
  | squash x =>
    exact ⟨h.unit, h.bus, fun y hy => h.inFlight y (List.mem_of_mem_erase hy), h.landed, h.marks⟩
  | drain a w data => exact h.write a w data
  | devices mem devices => exact h.remember mem devices
  | fence info => exact h.fence info
  | writeSatp v => exact ⟨h.unit.step (.writeSatp v), h.bus, h.inFlight, h.landed, h.marks⟩

theorem Inv.init (tlbSize l2Size l2Ways l2Latency : Nat) (soft : Bool) (satp : U64) (isRam : PhysAddr → Bool)
    (mem : Mem) (devices : PhysAddr → U64) :
    Inv ⟨⟨Mmu.new tlbSize l2Size l2Ways l2Latency soft, satp, busOf isRam mem devices, []⟩, mem, devices, isRam,
      [], [], [], []⟩ where
  unit := MmuSystem.Inv.init _ _ _ _ _ _ _
  bus := rfl
  inFlight x hx := absurd hx List.not_mem_nil
  landed k hk := absurd hk List.not_mem_nil
  marks k f hf := by simp [fillAt] at hf

theorem Reach.inv {P : AdSystem → AdOp → Prop} (h : Reach P s) : s.Inv := by
  induction h with
  | init => exact Inv.init _ _ _ _ _ _ _ _ _
  | step op _ _ ih => exact ih.step op

/-! ### What a commit writes -/

/-- The note a commit leaves, over the walk behind its access. -/
structure Noted (s : AdSystem) (x : AdAccess) (w : Retired) (f : TlbFill) : Prop where
  fill : s.fillAt x.src = some f
  ram : s.isRam f.pteAddr = true
  note : w = ⟨x.access, x.update.isSome, f.pte, s.mem.read f.pteAddr 8, (s.applyUpdate x).mem.read f.pteAddr 8⟩

/-- A commit adds at most its own note. -/
theorem mem_retired_commit {x : AdAccess} {w : Retired} (h : w ∈ (s.commit x).retired) :
    w ∈ s.retired ∨ ∃ f, s.Noted x w f := by
  have hsame : (s.applyUpdate x).retired = s.retired := by
    unfold applyUpdate
    cases x.update with
    | none => rfl
    | some u =>
      show (s.write u.pteAddr .double u.pteValue).retired = s.retired
      unfold write
      split
      · rfl
      · rfl
  rcases List.mem_append.mp h with h | h
  · exact Or.inl (hsame ▸ h)
  · refine Or.inr ?_
    have hw := Option.mem_toList.mp h
    cases hf : s.fillAt x.src with
    | none =>
      rw [hf] at hw
      cases hw
    | some f =>
      rw [hf] at hw
      by_cases hram : s.isRam f.pteAddr = true
      · simp only [hram, if_true, Option.some.injEq] at hw
        exact ⟨f, hf, hram, hw.symm⟩
      · simp only [hram, Bool.false_eq_true, if_false] at hw
        cases hw

/-- Other steps leave the notes alone. -/
theorem mem_retired_step {op : AdOp} {w : Retired} (h : w ∈ (s.step op).retired) :
    w ∈ s.retired ∨ ∃ x ∈ s.inFlight, op = .commit x ∧ ∃ f, s.Noted x w f := by
  cases op with
  | commit x =>
    change w ∈ (if x ∈ s.inFlight then s.commit x else s).retired at h
    by_cases hx : x ∈ s.inFlight
    · rw [if_pos hx] at h
      exact (mem_retired_commit h).imp id fun hnote => ⟨x, hx, rfl, hnote⟩
    · rw [if_neg hx] at h
      exact Or.inl h
  | drain a w data =>
    change _ ∈ (s.write a w data).retired at h
    unfold write at h
    split at h
    · exact Or.inl h
    · exact Or.inl h
  | translate t => exact Or.inl h
  | squash x => exact Or.inl h
  | devices mem devices => exact Or.inl h
  | fence info => exact Or.inl h
  | writeSatp v => exact Or.inl h

/-- In memory an update is written as it was computed at the walk. -/
theorem Noted.after {x : AdAccess} {w : Retired} {f : TlbFill} (hn : s.Noted x w f) (hfits : x.Fits f) :
    w.after = if x.update.isSome then (updateAccessBits f.pte x.access).1 else w.before := by
  obtain ⟨-, hram, rfl⟩ := hn
  unfold applyUpdate
  cases hu : x.update with
  | none => rfl
  | some u =>
    rw [update_eq_some (hfits.update u hu)]
    show (s.write f.pteAddr .double (updateAccessBits f.pte x.access).1).mem.read f.pteAddr 8 = _
    rw [mem_write_double hram]
    rfl

theorem Noted.kept_iff {x : AdAccess} {w : Retired} {f : TlbFill} (hn : s.Noted x w f) (hfits : x.Fits f) :
    w.Kept ↔ w.Fresh := by
  have hafter := hn.after hfits
  have hupdated : w.updated = x.update.isSome := by rw [hn.note]
  have haccess : w.access = x.access := by rw [hn.note]
  have hwalked : w.walked = f.pte := by rw [hn.note]
  unfold Retired.Kept Retired.Fresh
  rw [hupdated, haccess, hwalked]
  cases hu : x.update with
  | none =>
    rw [hu] at hafter
    have hsame : w.after = w.before := hafter
    rw [hsame]
    exact ⟨fun _ hc => absurd hc Bool.false_ne_true, fun _ i => Or.inl rfl⟩
  | some u =>
    rw [hu] at hafter
    have hnew : w.after = (updateAccessBits f.pte x.access).1 := hafter
    have hbit : ∀ i, w.after.getLsbD i =
        (f.pte.getLsbD i || decide (i = 6) || (decide (i = 7) && x.access == .write)) := by
      intro i
      rw [hnew, getLsbD_updateAccessBits]
    constructor
    · intro hkept _ i h6 h7
      have hi : w.after.getLsbD i = w.before.getLsbD i :=
        (hkept i).resolve_right fun hc => hc.2.elim h6 h7
      have hold : (decide (i = 7) && x.access == .write) = false := by
        by_contra hc
        simp only [Bool.not_eq_false, Bool.and_eq_true, decide_eq_true_eq, beq_iff_eq] at hc
        exact h7 hc
      rw [← hi, hbit, hold, decide_eq_false h6, Bool.or_false, Bool.or_false]
    · intro hfresh i
      by_cases h6 : i = 6
      · refine Or.inr ⟨?_, Or.inl h6⟩
        rw [hbit, decide_eq_true h6, Bool.or_true, Bool.true_or]
      · by_cases h7 : i = 7 ∧ x.access = .write
        · refine Or.inr ⟨?_, Or.inr h7⟩
          rw [hbit, h7.1, h7.2]
          simp
        · refine Or.inl ?_
          have hold : (decide (i = 7) && x.access == .write) = false := by
            by_contra hc
            simp only [Bool.not_eq_false, Bool.and_eq_true, decide_eq_true_eq, beq_iff_eq] at hc
            exact h7 hc
          rw [hbit, hold, decide_eq_false h6, Bool.or_false, Bool.or_false, hfresh rfl i h6 h7]

/-- **A commit keeps the PTE in memory exactly when it is the one the walk read**, in every run. -/
theorem kept_iff_fresh (h : Reach (fun _ _ => True) s) : ∀ w ∈ s.retired, w.Kept ↔ w.Fresh := by
  induction h with
  | init => exact fun w hw => absurd hw List.not_mem_nil
  | step op hreach _ ih =>
    intro w hw
    rcases mem_retired_step hw with hold | ⟨x, hx, -, f, hn⟩
    · exact ih w hold
    · obtain ⟨f', hf', hfits⟩ := hreach.inv.inFlight x hx
      obtain rfl : f' = f := Option.some.inj (hf'.symm.trans hn.fill)
      exact hn.kept_iff hfits

/-- A 2 MiB leaf with neither accessed nor dirty bit, behind a root with one pointer. -/
def cleanTables : Mem :=
  (Mem.write (fun _ => 0) 0x80000000 8 (((0x80001 : U64) <<< 10) ||| 1)).write 0x80001000 8
    (((0x80200 : U64) <<< 10) ||| 0xF)

/-- An empty unit with hardware A/D updating over those tables. -/
def cleanSystem : AdSystem :=
  ⟨⟨Mmu.new 2 4 2 1 false, ((8 : U64) <<< 60) ||| 0x80000, busOf (fun _ => true) cleanTables fun _ => 0, []⟩,
    cleanTables, fun _ => 0, fun _ => true, [], [], [], []⟩

def supervisorAccess (access : AccessType) : TranslateOp := ⟨0, access, .supervisor, {}, none, 0⟩

theorem Reach.cleanSystem (P : AdSystem → AdOp → Prop) : Reach P cleanSystem := Reach.init 2 4 2 1 _ _ _ _ _

/-- The access of a read that walked first. -/
def readWalked : AdAccess := ⟨0, .read, some ⟨0x80001000, ((0x80200 : U64) <<< 10) ||| 0x4F⟩⟩

/-- The access of a write that walked after it. -/
def writeWalked : AdAccess := ⟨1, .write, some ⟨0x80001000, ((0x80200 : U64) <<< 10) ||| 0xCF⟩⟩

theorem kept_iff_fresh_read :
    ∃ w ∈ ((cleanSystem.step (.translate (supervisorAccess .read))).step (.commit readWalked)).retired,
      w.updated = true ∧ (w.Kept ↔ w.Fresh) := by
  let s := (cleanSystem.step (.translate (supervisorAccess .read))).step (.commit readWalked)
  have hnote : (s.retired[0]?).map (·.updated) = some true := by decide
  obtain ⟨w, hw, hup⟩ := Option.map_eq_some_iff.mp hnote
  refine ⟨w, List.mem_of_getElem? hw, hup, ?_⟩
  exact kept_iff_fresh (((Reach.cleanSystem _).step _ trivial).step _ trivial) w (List.mem_of_getElem? hw)

/-- A read walks, then an older write walks; the write commits and sets both bits, and the commit of
the read takes the dirty bit away again. -/
theorem read_clears_dirty : ∃ s, Reach (fun _ _ => True) s ∧ ∃ w ∈ s.retired, ¬w.Kept := by
  let s := (((cleanSystem.step (.translate (supervisorAccess .read))).step
    (.translate (supervisorAccess .write))).step (.commit writeWalked)).step (.commit readWalked)
  have hbits : (s.retired[1]?).map (fun w => (w.before.getLsbD 7, w.after.getLsbD 7)) = some (true, false) := by
    decide
  obtain ⟨w, hw, hpair⟩ := Option.map_eq_some_iff.mp hbits
  obtain ⟨hbefore, hafter⟩ := Prod.mk.inj hpair
  refine ⟨s, ((((Reach.cleanSystem _).step _ trivial).step _ trivial).step _ trivial).step _ trivial, w,
    List.mem_of_getElem? hw, fun hkept => ?_⟩
  rcases hkept 7 with h | h
  · rw [hbefore, hafter] at h
    exact Bool.false_ne_true h
  · rw [hafter] at h
    exact Bool.false_ne_true h.1

/-! ### Bits after a commit -/

/-- When an access without an update of its own commits, a walk that read the same PTE found the
accessed bit set or has had its update written, and nothing has cleared the bits since. -/
def Landed (s : AdSystem) : AdOp → Prop
  | .commit x => x.update = none → ∀ f, s.fillAt x.src = some f →
      (∃ k g, s.fillAt k = some g ∧ g.pteAddr = f.pteAddr ∧ k ∉ s.cleared ∧
        (Pte.isAccessed g.pte = true ∨ k ∈ s.landed)) ∧
      (x.access = .write → x.src ∉ s.cleared)
  | _ => True

theorem Inv.complete (h : s.Inv) {x : AdAccess} {w : Retired} {f : TlbFill} (hn : s.Noted x w f)
    (hfits : x.Fits f) (hl : s.Landed (.commit x)) : w.Complete := by
  have hafter := hn.after hfits
  have haccess : w.access = x.access := by rw [hn.note]
  unfold Retired.Complete
  rw [haccess]
  cases hu : x.update with
  | some u =>
    have hup := hfits.update u hu
    obtain ⟨hA, -, hD⟩ := update_bits hup
    rw [hu] at hafter
    have hnew : w.after = u.pteValue := by
      rw [update_eq_some hup]
      exact hafter
    rw [hnew]
    exact ⟨hA, hD⟩
  | none =>
    obtain ⟨⟨k, g, hg, haddr, hclear, hland⟩, hwrite⟩ := hl hu f hn.fill
    obtain ⟨-, hA⟩ := h.marks k g hg hclear (haddr ▸ hn.ram)
    rw [haddr] at hA
    rw [hu] at hafter
    have hsame : w.after = w.before := hafter
    have hbefore : w.before = s.mem.read f.pteAddr 8 := by rw [hn.note]
    have hold : w.after = s.unit.bus f.pteAddr := by rw [h.bus, busOf, if_pos hn.ram, hsame, hbefore]
    rw [hold]
    refine ⟨hA hland, fun hw => ?_⟩
    exact (h.marks x.src f hn.fill (hwrite hw) hn.ram).1 (hfits.dirty hu hw)

/-- **Committed accesses have their bits in memory** in every run whose commits meet `Landed`. -/
theorem retired_complete (h : Reach Landed s) : ∀ w ∈ s.retired, w.Complete := by
  induction h with
  | init => exact fun w hw => absurd hw List.not_mem_nil
  | step op hreach hp ih =>
    intro w hw
    rcases mem_retired_step hw with hold | ⟨x, hx, rfl, f, hn⟩
    · exact ih w hold
    · obtain ⟨f', hf', hfits⟩ := hreach.inv.inFlight x hx
      obtain rfl : f' = f := Option.some.inj (hf'.symm.trans hn.fill)
      exact hreach.inv.complete hn hfits hp

/-- The access of a read that hits the entry of the first walk. -/
def readHit : AdAccess := ⟨0, .read, none⟩

theorem retired_complete_hit :
    ∃ w ∈ ((((cleanSystem.step (.translate (supervisorAccess .read))).step (.commit readWalked)).step
      (.translate (supervisorAccess .read))).step (.commit readHit)).retired, w.updated = false ∧ w.Complete := by
  let s := (((cleanSystem.step (.translate (supervisorAccess .read))).step (.commit readWalked)).step
    (.translate (supervisorAccess .read))).step (.commit readHit)
  have hreach : Reach Landed s := by
    refine ((((Reach.cleanSystem _).step _ trivial).step _ ?_).step _ trivial).step _ ?_
    · exact fun hnone => nomatch hnone
    · exact fun _ f hf => ⟨⟨0, f, hf, rfl, by decide, Or.inr (by decide)⟩, fun hw => nomatch hw⟩
  have hnote : (s.retired[1]?).map (·.updated) = some false := by decide
  obtain ⟨w, hw, hup⟩ := Option.map_eq_some_iff.mp hnote
  exact ⟨w, List.mem_of_getElem? hw, hup, retired_complete hreach w (List.mem_of_getElem? hw)⟩

/-- A read walks and is squashed; the next read hits the entry that walk left and commits, and the
accessed bit is never set. -/
theorem hit_after_squash_incomplete : ∃ s, Reach (fun _ _ => True) s ∧ ∃ w ∈ s.retired, ¬w.Complete := by
  let s := (((cleanSystem.step (.translate (supervisorAccess .read))).step (.squash readWalked)).step
    (.translate (supervisorAccess .read))).step (.commit readHit)
  have hbit : (s.retired[0]?).map (fun w => Pte.isAccessed w.after) = some false := by decide
  obtain ⟨w, hw, hclear⟩ := Option.map_eq_some_iff.mp hbit
  refine ⟨s, ((((Reach.cleanSystem _).step _ trivial).step _ trivial).step _ trivial).step _ trivial, w,
    List.mem_of_getElem? hw, fun hcomplete => ?_⟩
  rw [hcomplete.1] at hclear
  exact Bool.false_ne_true hclear.symm

end AdSystem

end Rvsim
