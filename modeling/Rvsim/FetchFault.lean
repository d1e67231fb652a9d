/-
# Faults of a fetch

`frontend/fetch1.rs` and `fetch2.rs`: which page and access faults an entry carries.
Fetch1 translates the pc as an access of four bytes before it knows the size of the
instruction; fetch2 translates the second parcel, as two bytes, only where that is on
the next page. So the protection is asked about bytes behind a compressed
instruction, and it is asked about the two parcels of a page at once, with the pc as
the address of the fault. What an entry ought to carry is the fault of the first
parcel of the instruction that faults by itself.

Key definitions:
  - `delivered`, `parcelFault`, `Cpu.ChecksParcels`
Key theorems:
  - `fetch_fault_iff`, `fetch_fault_behind`
  - `stages_deliver`: entries of the stages are delivered ones
  - `Cpu.checksParcels_of_aligned`
-/
import Rvsim.FetchStream
import Rvsim.PageCross
import Rvsim.PmpCheck

namespace Rvsim

variable {U : Type}

def Trap.isFetchFault : Trap → Bool
  | .instructionPageFault _ => true
  | .instructionAccessFault _ => true
  | _ => false

/-- The page or access fault of an entry. -/
def IfIdEntry.fetchFault (e : IfIdEntry) : Option Trap := e.trap.filter Trap.isFetchFault

/-! ### What the stages deliver -/

section

variable [Units U]

/-- The mask of `fetch1_stage`. -/
def Cpu.alignMask (c : Cpu U) : U64 := if c.csrs.misa &&& Csr.misaExtC ≠ 0 then 1 else 3

/-- What fetch1 puts out for `pc`, as the first of a group and with room in its line. -/
def fetched (c : Cpu U) (pc : U64) : List Fetch1Fetch2Entry :=
  (fetch1Loop (BitVec.allOnes 64) c.alignMask 1 c pc [] 0).1

/-- What fetch2, in `c'`, makes of it. -/
def delivered (c c' : Cpu U) (pc : U64) : List IfIdEntry := (fetch2Loop c' (fetched c pc)).1

/-- The fault of a second parcel, translated and checked as two bytes of its own: on the page of the first in the
state of fetch1, on the next one in the state in which fetch2 has read the first. -/
def secondFault (c c' : Cpu U) (pc : U64) (p : PhysAddr) : Option Trap :=
  let (half, read) := fetchHalf c' p
  if isCompressed half then none
  else ((if crossesPage pc then read else c).translate (pc + 2) .fetch 2).1.trap

/-- The fault of the first parcel that faults, of those that the instruction has. -/
def parcelFault (c c' : Cpu U) (pc : U64) : Option Trap :=
  let first := (c.translate pc .fetch 2).1
  first.trap.or (secondFault c c' pc first.paddr)

/-- The fault that fetch2 finds behind a first parcel at `p`. -/
def upperFault (c' : Cpu U) (pc : U64) (p : PhysAddr) : Option Trap :=
  let (half, read) := fetchHalf c' p
  if isCompressed half then none
  else if crossesPage pc then (read.translate (pc + 2) .fetch 2).1.trap
  else none

variable {c c' : Cpu U} {pc : U64}

theorem not_gt_allOnes (a : U64) : ¬a > BitVec.allOnes 64 := by
  rw [gt_iff_lt, BitVec.lt_def, BitVec.toNat_allOnes]
  have := a.isLt
  omega

theorem fetched_misaligned (h : pc &&& c.alignMask ≠ 0) :
    fetched c pc = [⟨pc, 0, false, 0, some (.instructionAddressMisaligned pc)⟩] := by
  unfold fetched fetch1Loop
  rw [if_neg (not_gt_allOnes _), if_pos h]
  rfl

theorem fetched_trap (h : pc &&& c.alignMask = 0) {t : Trap} (ht : (c.translate pc .fetch 4).1.trap = some t) :
    fetched c pc = [⟨pc, 0, false, 0, some t⟩] := by
  unfold fetched fetch1Loop
  rw [if_neg (not_gt_allOnes _), if_neg (not_not.mpr h)]
  dsimp only
  rw [ht]
  rfl

def FetchStep.entry : FetchStep → Fetch1Fetch2Entry
  | .last e => e
  | .next e _ _ => e

/-- The walk cycles spent before do not show in the step. -/
theorem fetch1Word_stall (c : Cpu U) (pc : U64) (p : PhysAddr) (stall stall' : Nat) :
    (fetch1Word c pc p stall).1 = (fetch1Word c pc p stall').1 := by
  unfold fetch1Word
  dsimp only
  generalize (if crossesPage pc then _ else _ : TranslationResult × Cpu U) = r
  split
  · rfl
  · split
    · rfl
    · rfl

theorem fetch1Word_entry (c : Cpu U) (pc : U64) (p : PhysAddr) (stall : Nat) :
    (fetch1Word c pc p stall).1.entry.pc = pc ∧ (fetch1Word c pc p stall).1.entry.paddr = p ∧
      (fetch1Word c pc p stall).1.entry.trap = none := by
  rcases hw : fetch1Word c pc p stall with ⟨⟨e⟩ | ⟨e, next, stop⟩, stall', cpu⟩
  · obtain ⟨hpc, hpaddr, htrap, -⟩ := fetch1Word_last hw
    exact ⟨hpc, hpaddr, htrap⟩
  · obtain ⟨hpc, hpaddr, htrap, -⟩ := fetch1Word_next hw
    exact ⟨hpc, hpaddr, htrap⟩

theorem fetched_none (h : pc &&& c.alignMask = 0) (ht : (c.translate pc .fetch 4).1.trap = none) (stall : Nat) :
    fetched c pc = [(fetch1Word (c.translate pc .fetch 4).2 pc (c.translate pc .fetch 4).1.paddr stall).1.entry] := by
  rw [fetch1Word_stall _ _ _ stall (0 + (c.translate pc .fetch 4).1.cycles)]
  unfold fetched fetch1Loop
  rw [if_neg (not_gt_allOnes _), if_neg (not_not.mpr h)]
  dsimp only
  rw [ht]
  dsimp only
  split
  · rename_i heq
    rw [heq]
    rfl
  · rename_i stop _ _ heq
    rw [heq]
    cases stop with
    | true => rfl
    | false => rfl

omit [Units U] in
theorem Cpu.UnitsOnly.alignMask (h : c.UnitsOnly c') : c'.alignMask = c.alignMask := by
  obtain ⟨u, rfl⟩ := h
  rfl

/-- Every entry of the loop is one that is put out for its pc, in the state that the loop had come to. -/
theorem fetch1Loop_fetched (lineEnd : U64) (n : Nat) (pc : U64) (out : List Fetch1Fetch2Entry)
    (stall : Nat) {cpu : Cpu U}
    (hc : c.UnitsOnly cpu) : ∃ new, (fetch1Loop lineEnd c.alignMask n cpu pc out stall).1 = out ++ new ∧
      ∀ f ∈ new, ∃ t, c.UnitsOnly t ∧ fetched t f.pc = [f] := by
  induction n generalizing cpu pc out stall with
  | zero => exact ⟨[], (List.append_nil _).symm, fun f hf => nomatch hf⟩
  | succ n ih =>
    have hmask := hc.alignMask
    have hone : ∀ f : Fetch1Fetch2Entry, fetched cpu f.pc = [f] → ∀ g ∈ [f], ∃ t, c.UnitsOnly t ∧
        fetched t g.pc = [g] :=
      fun f hf g hg => List.mem_singleton.mp hg ▸ ⟨cpu, hc, hf⟩
    unfold fetch1Loop
    split
    · exact ⟨[], (List.append_nil _).symm, fun f hf => nomatch hf⟩
    · split
      · rename_i halign
        split
        · exact ⟨_, rfl, hone _ (fetched_misaligned (by rw [hmask]; exact halign))⟩
        · exact ⟨[], (List.append_nil _).symm, fun f hf => nomatch hf⟩
      · rename_i halign
        have halign' : pc &&& cpu.alignMask = 0 := by
          rw [hmask]
          exact not_not.mp halign
        dsimp only
        split
        · rename_i t ht
          exact ⟨_, rfl, hone _ (fetched_trap halign' ht)⟩
        · rename_i hnone
          have hcpu : c.UnitsOnly (cpu.translate pc .fetch 4).2 := hc.trans (cpu.translate_eq pc .fetch 4)
          have hword := fetch1Word_units (cpu.translate pc .fetch 4).2 pc (cpu.translate pc .fetch 4).1.paddr
            (stall + (cpu.translate pc .fetch 4).1.cycles)
          have hfetched := fetched_none halign' hnone (stall + (cpu.translate pc .fetch 4).1.cycles)
          have hpc := (fetch1Word_entry (cpu.translate pc .fetch 4).2 pc (cpu.translate pc .fetch 4).1.paddr
            (stall + (cpu.translate pc .fetch 4).1.cycles)).1
          have hone' := hone _ ((congrArg (fetched cpu) hpc).trans hfetched)
          split
          · rename_i e _ _ heq
            rw [heq] at hone'
            exact ⟨[e], rfl, hone'⟩
          · rename_i e next stop _ _ heq
            rw [heq] at hone' hword
            split
            · exact ⟨[e], rfl, hone'⟩
            · obtain ⟨new, hout, hall⟩ := ih next (out ++ [e]) _ (hcpu.trans hword)
              refine ⟨e :: new, ?_, List.forall_mem_cons.mpr ⟨hone' e List.mem_cons_self, hall⟩⟩
              rw [hout, List.append_assoc]
              rfl

theorem fetch2Loop_single {cpu : Cpu U} {fs : List Fetch1Fetch2Entry} (hc : c.UnitsOnly cpu) :
    ∀ e ∈ (fetch2Loop cpu fs).1, ∃ f ∈ fs, f.pc = e.pc ∧ ∃ t, c.UnitsOnly t ∧ (fetch2Loop t [f]).1 = [e] := by
  induction fs generalizing cpu with
  | nil => exact fun e he => nomatch he
  | cons f rest ih =>
    have hword := fetch2Word_units cpu f
    intro e he
    unfold fetch2Loop at he
    split at he
    · rename_i t ht
      obtain rfl := List.mem_singleton.mp he
      refine ⟨f, List.mem_cons_self, rfl, cpu, hc, ?_⟩
      unfold fetch2Loop
      rw [ht]
    · rename_i hnone
      split at he
      · rename_i heq
        obtain rfl := List.mem_singleton.mp he
        refine ⟨f, List.mem_cons_self, rfl, cpu, hc, ?_⟩
        unfold fetch2Loop
        rw [hnone]
        dsimp only
        rw [heq]
      · rename_i heq
        rw [heq] at hword
        rcases List.mem_cons.mp he with rfl | he
        · refine ⟨f, List.mem_cons_self, rfl, cpu, hc, ?_⟩
          unfold fetch2Loop
          rw [hnone]
          dsimp only
          rw [heq]
          rfl
        · obtain ⟨g, hg, h⟩ := ih (hc.trans hword) e he
          exact ⟨g, List.mem_cons_of_mem _ hg, h⟩

/-- **What the stages hand on is delivered**: every entry of fetch2, for what fetch1 put out, in two states that
differ from those of the stages in their units only. -/
theorem stages_deliver (c c' : Cpu U) (stall : Nat) : ∀ e ∈ (fetch2Loop c' (fetch1Stage c stall).1).1,
    ∃ t t', c.UnitsOnly t ∧ c'.UnitsOnly t' ∧ delivered t t' e.pc = [e] := by
  intro e he
  obtain ⟨f, hf, hpc, t', ht', he'⟩ := fetch2Loop_single (Cpu.UnitsOnly.refl c') e he
  obtain ⟨new, hnew, hall⟩ := fetch1Loop_fetched ((c.pc ||| (BitVec.ofNat 64 c.iCacheLineBytes - 1)) + 1)
      c.pipelineWidth c.pc [] stall
    (Cpu.UnitsOnly.refl c)
  have hout : (fetch1Stage c stall).1 = new := hnew
  rw [hout] at hf
  obtain ⟨t, ht, hfetched⟩ := hall f hf
  refine ⟨t, t', ht, ht', ?_⟩
  unfold delivered
  rw [← hpc, hfetched]
  exact he'

end

/-! ### The fault of a translation -/

/-- A fetch fault with that address. -/
def Trap.AtFetch (t : Trap) (va : VirtAddr) : Prop := t = .instructionPageFault va ∨ t = .instructionAccessFault va

theorem Trap.AtFetch.isFetchFault {t : Trap} {va : VirtAddr} (h : t.AtFetch va) : t.isFetchFault = true := by
  rcases h with rfl | rfl
  · rfl
  · rfl

theorem Trap.AtFetch.unique {t : Trap} {va va' : VirtAddr} (h : t.AtFetch va) (h' : t.AtFetch va') : va = va' := by
  rcases h with rfl | rfl
  · rcases h' with h' | h'
    · cases h'
      rfl
    · cases h'
  · rcases h' with h' | h'
    · cases h'
    · cases h'
      rfl

/-- Every trap of the result is such a fault. -/
def TranslationResult.FaultsAt (r : TranslationResult) (va : VirtAddr) : Prop := ∀ t, r.trap = some t → t.AtFetch va

theorem TranslationResult.faultsAt_fault {va : VirtAddr} {t : Trap} (h : t.AtFetch va) (cycles : Nat) :
    (TranslationResult.fault t cycles).FaultsAt va := by
  intro t' ht'
  cases ht'
  exact h

theorem TranslationResult.faultsAt_none {r : TranslationResult} {va : VirtAddr} (h : r.trap = none) : r.FaultsAt va :=
  fun _ ht => nomatch h.symm.trans ht

namespace Mmu

theorem walkFrom_faultsAt (env : WalkEnv) (va : VirtAddr) (priv : PrivilegeMode) (csrs : Csrs) (level : Nat)
    (ppn : Ppn) (cycles : Nat) :
    (walkFrom env va .fetch priv csrs level ppn cycles).1.FaultsAt va := by
  have hpage : ∀ cycles, (TranslationResult.fault (pageFault va .fetch) cycles).FaultsAt va :=
    fun cycles => TranslationResult.faultsAt_fault (Or.inl rfl) cycles
  have haccess : ∀ cycles, (TranslationResult.fault (walkAccessFault va .fetch) cycles).FaultsAt va :=
    fun cycles => TranslationResult.faultsAt_fault (Or.inr rfl) cycles
  have hleaf : ∀ level a pte cycles, (walkLeaf env va .fetch priv csrs level a pte cycles).1.FaultsAt va := by
    intro level a pte cycles
    unfold walkLeaf
    dsimp only
    repeat' split
    all_goals first | exact hpage _ | exact TranslationResult.faultsAt_none rfl
  induction level generalizing ppn cycles with
  | zero =>
    unfold walkFrom
    dsimp only
    repeat' split
    all_goals first | exact haccess _ | exact hpage _ | exact hleaf _ _ _ _
  | succ level ih =>
    unfold walkFrom
    dsimp only
    repeat' split
    all_goals first | exact haccess _ | exact hpage _ | exact ih _ _ | exact hleaf _ _ _ _

theorem hitFault_atFetch {r w x u : Bool} {va : VirtAddr} {priv : PrivilegeMode} {csrs : Csrs} {t : Trap}
    (h : hitFault r w x u va .fetch priv csrs = some t) : t.AtFetch va := by
  unfold hitFault at h
  simp only [reduceCtorEq, false_and, if_false] at h
  repeat' split at h
  all_goals first | (obtain rfl := Option.some.inj h; exact Or.inl rfl) | cases h

variable {γ : Type}

theorem translateL2_faultsAt (m : Mmu γ) (env : WalkEnv) (src : γ) (va : VirtAddr)
    (priv : PrivilegeMode) (csrs : Csrs) :
    (m.translateL2 env src va .fetch priv csrs).1.FaultsAt va := by
  have hwalk : ∀ m : Mmu γ, (m.pageTableWalkInner env src va .fetch priv csrs).1.FaultsAt va := by
    intro m
    have h : (walk env va .fetch priv csrs).1.FaultsAt va := walkFrom_faultsAt env va priv csrs 2 _ 0
    unfold pageTableWalkInner
    dsimp only
    split <;> exact h
  unfold translateL2
  dsimp only
  split
  · exact hwalk _
  · split
    · exact hwalk _
    · split
      · rename_i hf
        exact TranslationResult.faultsAt_fault (hitFault_atFetch hf) _
      · exact TranslationResult.faultsAt_none rfl

theorem translateWithPmp_faultsAt (m : Mmu γ) (bus : PhysAddr → U64) (transit : Nat) (src : γ) (va : VirtAddr)
    (priv : PrivilegeMode)
    (csrs : Csrs) (pmp : Option Pmp) : (m.translateWithPmp bus transit src va .fetch priv csrs pmp).1.FaultsAt va := by
  unfold translateWithPmp
  dsimp only
  split
  · exact TranslationResult.faultsAt_none rfl
  · exact TranslationResult.faultsAt_fault (Or.inr rfl) _
  · exact TranslationResult.faultsAt_fault (Or.inl rfl) _
  · split
    · exact translateL2_faultsAt _ _ _ _ _ _
    · split
      · exact translateL2_faultsAt _ _ _ _ _ _
      · split
        · rename_i hf
          exact TranslationResult.faultsAt_fault (hitFault_atFetch hf) _
        · exact TranslationResult.faultsAt_none rfl

end Mmu

namespace Cpu

section

variable [MmuUnits U]

/-- The check of `n` bytes to be fetched from `p` on. -/
def allowsFetch (c : Cpu U) (p : PhysAddr) (n : Nat) : Bool :=
  if c.directMode then Units.isValidAddress c.units p
  else c.pmp.check p (BitVec.ofNat 64 n) false false true (c.privilege == .machine) == .allow

variable {c : Cpu U} {va : VirtAddr}

theorem effectivePriv_fetch (csrs : Csrs) (priv : PrivilegeMode) : effectivePriv csrs priv .fetch = priv := by
  unfold effectivePriv
  exact if_neg fun h => h.1 rfl

/-- Nothing mapped: the same fault, however many bytes are asked for. -/
theorem translate_fetch_none (h : c.mmuPaddr .fetch va = none) :
    ∃ t : Trap, t.AtFetch va ∧ ∀ n, (c.translate va .fetch n).1.trap = some t := by
  unfold mmuPaddr at h
  cases hd : c.directMode with
  | true =>
    rw [hd] at h
    cases h
  | false =>
    have hfaults := (MmuUnits.mmu c.units).translateWithPmp_faultsAt (MmuUnits.ptRead c.units c.mem)
        (MmuUnits.transit c.units) () va
      (effectivePriv c.csrs c.privilege .fetch) c.csrs (some c.pmp)
    rw [hd, if_neg Bool.false_ne_true, ← MmuUnits.translate_eq] at h
    rw [← MmuUnits.translate_eq] at hfaults
    unfold TranslationResult.landing at h
    cases ht : (Units.translateWithPmp c.units c.mem va .fetch
        (effectivePriv c.csrs c.privilege .fetch) c.csrs c.pmp).1.trap with
    | none =>
      rw [ht] at h
      cases h
    | some t =>
      refine ⟨t, hfaults t ht, fun n => ?_⟩
      unfold translate
      rw [hd, if_neg Bool.false_ne_true]
      dsimp only
      rw [if_pos (by rw [ht]; rfl)]
      exact ht

/-- Something mapped: the check of the bytes decides. -/
theorem translate_fetch_some {p : PhysAddr} (h : c.mmuPaddr .fetch va = some p) (n : Nat) :
    (c.translate va .fetch n).1.trap = (if c.allowsFetch p n then none else some (.instructionAccessFault va)) ∧
      (c.allowsFetch p n = true → (c.translate va .fetch n).1.paddr = p) := by
  unfold mmuPaddr at h
  unfold translate allowsFetch
  cases hd : c.directMode with
  | true =>
    rw [hd, if_pos rfl] at h
    obtain rfl := Option.some.inj h
    rw [if_pos rfl, if_pos rfl]
    cases Units.isValidAddress c.units va with
    | true => exact ⟨rfl, fun _ => rfl⟩
    | false => exact ⟨rfl, fun hf => absurd hf Bool.false_ne_true⟩
  | false =>
    rw [hd, if_neg Bool.false_ne_true, ← MmuUnits.translate_eq] at h
    obtain ⟨htrap, hpaddr⟩ := TranslationResult.landing_eq_some h
    rw [if_neg Bool.false_ne_true, if_neg Bool.false_ne_true]
    dsimp only
    have hread : (AccessType.fetch == AccessType.read) = false := rfl
    have hwrite : (AccessType.fetch == AccessType.write) = false := rfl
    have hfetch : (AccessType.fetch == AccessType.fetch) = true := rfl
    rw [if_neg (by rw [htrap]; exact Bool.false_ne_true), hpaddr, hread, hwrite, hfetch, effectivePriv_fetch]
    rw [effectivePriv_fetch] at htrap hpaddr
    cases c.pmp.check p (BitVec.ofNat 64 n) false false true (c.privilege == .machine) with
    | allow => exact ⟨htrap, fun _ => hpaddr⟩
    | deny => exact ⟨rfl, fun hf => absurd hf Bool.false_ne_true⟩
    | noMatch => exact ⟨rfl, fun hf => absurd hf Bool.false_ne_true⟩

/-- The second parcel of a page lies behind the first. -/
theorem mmuPaddr_upper (h : crossesPage va = false) :
    c.mmuPaddr .fetch (va + 2) = (c.mmuPaddr .fetch va).map (· + 2) := by
  refine c.mmuPaddr_within .fetch (i := 2) ?_
  have hpage := congrArg BitVec.toNat (bne_eq_false_iff_eq.mp h)
  rw [BitVec.toNat_ushiftRight, BitVec.toNat_ushiftRight, Nat.shiftRight_eq_div_pow, Nat.shiftRight_eq_div_pow,
      BitVec.toNat_add] at hpage
  have hva := va.isLt
  have htwo : (2 : U64).toNat = 2 := rfl
  rw [htwo] at hpage
  omega

theorem translate_faultsAt (c : Cpu U) (va : VirtAddr) (n : Nat) : (c.translate va .fetch n).1.FaultsAt va := by
  intro t ht
  cases hm : c.mmuPaddr .fetch va with
  | none =>
    obtain ⟨t', hat, htrap⟩ := translate_fetch_none hm
    rw [htrap n] at ht
    exact Option.some.inj ht ▸ hat
  | some p =>
    rw [(translate_fetch_some hm n).1] at ht
    split at ht
    · cases ht
    · exact Option.some.inj ht ▸ Or.inr rfl

/-- When the check of four bytes at the pc is the check of the parcels: it decides as that of the first, and what
lets the first through lets a second one on the page through. Where the pc is not aligned there is no check at all. -/
def ChecksParcels (c c' : Cpu U) (pc : U64) : Prop :=
  if pc &&& c.alignMask ≠ 0 then parcelFault c c' pc = none
  else ∀ p, c.mmuPaddr .fetch pc = some p →
    c.allowsFetch p 4 = c.allowsFetch p 2 ∧
      (c.allowsFetch p 2 = true → isCompressed (fetchHalf c' p).1 = false → crossesPage pc = false →
          c.allowsFetch (p + 2) 2 = true)

end

end Cpu

/-! ### The faults of the stages -/

section

variable [MmuUnits U] {c c' : Cpu U} {pc : U64}

theorem fetchFault_eq_some {e : IfIdEntry} {t : Trap} {va : VirtAddr} (h : e.trap = some t) (hat : t.AtFetch va) :
    e.fetchFault = some t := by
  unfold IfIdEntry.fetchFault
  rw [h, Option.filter_some, if_pos hat.isFetchFault]

theorem fetch2_fault (c' : Cpu U) {f : Fetch1Fetch2Entry} (hf : f.trap = none) :
    (fetch2Loop c' [f]).1.map IfIdEntry.fetchFault = [upperFault c' f.pc f.paddr] := by
  unfold fetch2Loop fetch2Word upperFault
  rw [hf]
  dsimp only
  cases isCompressed (fetchHalf c' f.paddr).1 with
  | true =>
    rw [if_pos rfl, if_pos rfl]
    by_cases hz : Units.expand U (fetchHalf c' f.paddr).1 = 0
    · rw [if_pos hz]
      rfl
    · rw [if_neg hz]
      rfl
  | false =>
    rw [if_neg Bool.false_ne_true, if_neg Bool.false_ne_true]
    cases crossesPage f.pc with
    | false => rfl
    | true =>
      rw [if_pos rfl, if_pos rfl]
      have hfaults := (fetchHalf c' f.paddr).2.translate_faultsAt (f.pc + 2) 2
      cases ht : ((fetchHalf c' f.paddr).2.translate (f.pc + 2) .fetch 2).1.trap with
      | none => rfl
      | some t => exact congrArg (fun x => [x]) (fetchFault_eq_some rfl (hfaults t ht))

/-- The fault of the entry: what the four bytes say, and behind them the second parcel of a crossing. -/
theorem delivered_fault (h : pc &&& c.alignMask = 0) : (delivered c c' pc).map IfIdEntry.fetchFault =
    [(c.translate pc .fetch 4).1.trap.or (upperFault c' pc (c.translate pc .fetch 4).1.paddr)] := by
  unfold delivered
  cases ht : (c.translate pc .fetch 4).1.trap with
  | some t =>
    rw [fetched_trap h ht]
    exact congrArg (fun x => [x]) (fetchFault_eq_some rfl (c.translate_faultsAt pc 4 t ht))
  | none =>
    obtain ⟨hpc, hpaddr, htrap⟩ := fetch1Word_entry (c.translate pc .fetch 4).2 pc (c.translate pc .fetch 4).1.paddr 0
    rw [fetched_none h ht 0, fetch2_fault c' htrap, hpc, hpaddr]
    rfl

theorem upperFault_at {p : PhysAddr} {t : Trap} (h : upperFault c' pc p = some t) : t.AtFetch (pc + 2) := by
  unfold upperFault at h
  dsimp only at h
  split at h
  · cases h
  · split at h
    · exact Cpu.translate_faultsAt _ _ _ t h
    · cases h

theorem secondFault_at {p : PhysAddr} {t : Trap} (h : secondFault c c' pc p = some t) : t.AtFetch (pc + 2) := by
  unfold secondFault at h
  dsimp only at h
  split at h
  · cases h
  · exact Cpu.translate_faultsAt _ _ _ t h

/-- Fetch2 asks about a second parcel on the next page only. -/
theorem upperFault_eq_iff {p : PhysAddr} (hp : c.mmuPaddr .fetch pc = some p) :
    upperFault c' pc p = secondFault c c' pc p ↔
    (isCompressed (fetchHalf c' p).1 = false → crossesPage pc = false → c.allowsFetch (p + 2) 2 = true) := by
  unfold upperFault secondFault
  dsimp only
  cases isCompressed (fetchHalf c' p).1 with
  | true => exact iff_of_true rfl (fun h => nomatch h)
  | false =>
    rw [if_neg Bool.false_ne_true, if_neg Bool.false_ne_true, forall_prop_of_true rfl]
    cases hcross : crossesPage pc with
    | true => exact iff_of_true rfl (fun h => nomatch h)
    | false =>
      have hupper := Cpu.mmuPaddr_upper (c := c) hcross
      rw [hp, Option.map_some] at hupper
      rw [if_neg Bool.false_ne_true, if_neg Bool.false_ne_true, forall_prop_of_true rfl,
          (Cpu.translate_fetch_some hupper 2).1]
      cases c.allowsFetch (p + 2) 2 with
      | true => exact iff_of_true rfl rfl
      | false => exact iff_of_false (fun h => nomatch h) Bool.false_ne_true

theorem pc_ne_upper (pc : U64) : pc ≠ pc + 2 := by
  intro h
  have hnum := congrArg BitVec.toNat h
  have htwo : (2 : U64).toNat = 2 := rfl
  have hlt := pc.isLt
  rw [BitVec.toNat_add, htwo] at hnum
  omega

/-- **Fetch faults as the parcels of the instruction do** exactly where the check of four bytes is that of
the parcels. -/
theorem fetch_fault_iff (c c' : Cpu U) (pc : U64) :
    (delivered c c' pc).map IfIdEntry.fetchFault = [parcelFault c c' pc] ↔ c.ChecksParcels c' pc := by
  unfold Cpu.ChecksParcels
  by_cases halign : pc &&& c.alignMask = 0
  · rw [if_neg (not_not.mpr halign), delivered_fault halign, List.cons_eq_cons, and_iff_left rfl]
    unfold parcelFault
    dsimp only
    cases hm : c.mmuPaddr .fetch pc with
    | none =>
      obtain ⟨t, -, htrap⟩ := Cpu.translate_fetch_none hm
      rw [htrap, htrap]
      exact iff_of_true rfl fun p hp => nomatch hp
    | some p =>
      obtain ⟨htrap₄, hpaddr₄⟩ := Cpu.translate_fetch_some hm 4
      obtain ⟨htrap₂, hpaddr₂⟩ := Cpu.translate_fetch_some hm 2
      have hfirst : (Trap.instructionAccessFault pc).AtFetch pc := Or.inr rfl
      have hupper : upperFault c' pc p ≠ some (.instructionAccessFault pc) :=
        fun h => pc_ne_upper pc (hfirst.unique (upperFault_at h))
      have hsecond : secondFault c c' pc p ≠ some (.instructionAccessFault pc) :=
        fun h => pc_ne_upper pc (hfirst.unique (secondFault_at h))
      have hall : ∀ P : PhysAddr → Prop, (∀ q, some p = some q → P q) ↔ P p :=
        fun P => ⟨fun h => h p rfl, fun h q hq => Option.some.inj hq ▸ h⟩
      rw [htrap₄, htrap₂, hall]
      cases h₄ : c.allowsFetch p 4 with
      | true =>
        rw [if_pos rfl, Option.none_or, hpaddr₄ h₄]
        cases h₂ : c.allowsFetch p 2 with
        | true =>
          rw [if_pos rfl, Option.none_or, hpaddr₂ h₂, and_iff_right rfl, forall_prop_of_true rfl]
          exact upperFault_eq_iff hm
        | false => exact iff_of_false hupper fun h => nomatch h.1
      | false =>
        cases h₂ : c.allowsFetch p 2 with
        | true =>
          rw [if_pos rfl, Option.none_or, hpaddr₂ h₂]
          exact iff_of_false (fun h => hsecond h.symm) fun h => nomatch h.1
        | false => exact iff_of_true rfl ⟨rfl, fun h => nomatch h⟩
  · rw [if_pos halign]
    unfold delivered
    rw [fetched_misaligned halign]
    constructor
    · intro h
      exact (List.cons.inj h).1.symm
    · intro h
      rw [h]
      rfl

/-- A word is checked as its parcels are: fetch is right at every pc that is a multiple of four. -/
theorem Cpu.checksParcels_of_aligned (hdirect : c.directMode = false) (halign : 4 ∣ pc.toNat)
    (hend : ∀ p, c.mmuPaddr .fetch pc = some p → p.toNat + 4 < 2 ^ 64) : c.ChecksParcels c' pc := by
  have hmask : pc &&& c.alignMask = 0 := by
    have hone : (1 : U64) = ((1 : U64) <<< 1) - 1 := by decide
    have hthree : (3 : U64) = ((1 : U64) <<< 2) - 1 := by decide
    apply BitVec.eq_of_toNat_eq
    show _ = 0
    unfold alignMask
    split
    · rw [hone, Masks.toNat_low (by decide)]
      omega
    · rw [hthree, Masks.toNat_low (by decide)]
      omega
  have hdvd : ∀ p, c.mmuPaddr .fetch pc = some p → 4 ∣ p.toNat := by
    intro p hp
    unfold mmuPaddr at hp
    rw [hdirect, if_neg Bool.false_ne_true] at hp
    obtain ⟨htrap, hpaddr⟩ := TranslationResult.landing_eq_some hp
    have hsame := (Mmu.translateWithPmp_regular _ _ _ _ _ _ _ _ _).offset htrap
    rw [hpaddr] at hsame
    exact hsame.dvd (by decide) halign
  have hcheck : ∀ q n, c.allowsFetch q n =
      (c.pmp.check q (BitVec.ofNat 64 n) false false true (c.privilege == .machine) == .allow) := by
    intro q n
    unfold allowsFetch
    rw [hdirect, if_neg Bool.false_ne_true]
  unfold ChecksParcels
  rw [if_neg (not_not.mpr hmask)]
  intro p hp
  have hfirst := c.pmp.check_word (hdvd p hp) (hend p hp) (k := 0) (n := 2) (by decide) (by decide) false false true
      (c.privilege == .machine)
  have hsecond := c.pmp.check_word (hdvd p hp) (hend p hp) (k := 2) (n := 2) (by decide) (by decide) false false true
      (c.privilege == .machine)
  have hzero : p + BitVec.ofNat 64 0 = p := BitVec.add_zero p
  rw [hzero] at hfirst
  rw [hcheck, hcheck, hcheck, hfirst]
  refine ⟨rfl, fun hallow _ _ => ?_⟩
  exact (congrArg (· == PmpResult.allow) hsecond).trans hallow

end

/-! ### The end of a region -/

/-- S-mode without paging, executing up to `0x80000010` only; a half word lies in the last two bytes of that. -/
def boundaryCpu (half : U64) : Cpu Cpu.ColdBench :=
  let mem : Mem := fun _ => 0
  let c : Cpu Cpu.ColdBench := Cpu.new { directMode := false } (mem.write 0x8000000E 2 half)
      (({} : Bench) : Cpu.ColdBench)
  { c with privilege := .supervisor, pmp := (c.pmp.setAddr 0 0x20000004).setCfg 0 0x0D }

/-- A compressed instruction at the end is refused for the bytes behind it, and an instruction of two parcels with
the address of the first. -/
theorem fetch_fault_behind :
    ((delivered (boundaryCpu 0x0001) (boundaryCpu 0x0001) 0x8000000E).map IfIdEntry.fetchFault =
        [some (.instructionAccessFault 0x8000000E)] ∧
      parcelFault (boundaryCpu 0x0001) (boundaryCpu 0x0001) 0x8000000E = none) ∧
    (delivered (boundaryCpu 0x0013) (boundaryCpu 0x0013) 0x8000000E).map IfIdEntry.fetchFault =
        [some (.instructionAccessFault 0x8000000E)] ∧
      parcelFault (boundaryCpu 0x0013) (boundaryCpu 0x0013) 0x8000000E = some (.instructionAccessFault 0x80000010) := by
  decide

end Rvsim
