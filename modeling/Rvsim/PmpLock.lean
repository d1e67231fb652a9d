/-
# Locked PMP entries

`units/mmu/pmp.rs` behind `csr_write`. A write to a locked entry is ignored,
so its own two registers stay as they are. The range of a `TOR` entry also
depends on the address register of the entry before it, which only that
entry's own lock protects: `set_addr` does not look at the entry above.

Key definitions:
  - `Pmp.protection`, `Pmp.MovesBase`
Key theorems:
  - `Pmp.protection_csrWrite_iff`, `Pmp.protection_writes_iff`
-/
import Rvsim.Cpu
import Rvsim.Config

namespace Rvsim

variable {U : Type}

namespace Pmp

/-- The entry exists and is locked. -/
def Locked (p : Pmp) (i : Nat) : Prop := ∃ e, p.entries[i]? = some e ∧ e.isLocked = true

/-- The address register below entry `i`, which a `TOR` entry reads. -/
def below (p : Pmp) : Nat → Option U64
  | 0 => none
  | i + 1 => p.entries[i]?.map (·.addr)

/-- What entry `i` protects: the range it matches, and its permissions there. -/
def protection (p : Pmp) (i : Nat) : Option (Option (U64 × U64) × Bool × Bool × Bool × Bool) :=
  p.entries[i]?.map fun e =>
    (range (p.below i) e, e.isReadable, e.isWritable, e.isExecutable, e.isLocked)

/-- What a CSR write does to the unit. -/
def csrWrite (p : Pmp) (a : CsrAddr) (v : U64) : Pmp :=
  if a = 0x3A0 then Cpu.setPmpCfgWord p 0 v
  else if a = 0x3A2 then Cpu.setPmpCfgWord p 8 v
  else if 0x3B0 ≤ a ∧ a ≤ 0x3BF then p.setAddr (a.toNat - 0x3B0) v
  else p

theorem csrWrite_other (p : Pmp) {a : CsrAddr} (v : U64) (h0 : a ≠ 0x3A0) (h2 : a ≠ 0x3A2)
    (hr : ¬(0x3B0 ≤ a ∧ a ≤ 0x3BF)) : p.csrWrite a v = p := by
  rw [csrWrite, if_neg h0, if_neg h2, if_neg hr]

end Pmp

theorem Cpu.csrWrite_pmp [Units U] (c : Cpu U) (a : CsrAddr) (v : U64) :
    (c.csrWrite a v).pmp = c.pmp.csrWrite a v := by
  have htrap : (c.trap (.requestedTrap v) c.pc).pmp = c.pmp := by
    simp only [Cpu.trap, Cpu.trapToS, Cpu.trapToM, apply_ite Cpu.pmp, ite_self]
  unfold Cpu.csrWrite
  simp only [apply_ite Cpu.pmp, htrap]
  by_cases hp : 0x3A0 ≤ a ∧ a ≤ 0x3BF
  · -- none of the named registers lies among the unit's own
    have hn : ∀ x : CsrAddr, x < 0x3A0 ∨ 0x3BF < x → a ≠ x := by
      rintro x hx rfl
      bv_omega
    repeat (refine (if_neg (hn _ ?_)).trans ?_; · decide)
    by_cases h0 : a = 0x3A0
    · rw [if_pos h0, Pmp.csrWrite, if_pos h0]
    · by_cases h2 : a = 0x3A2
      · rw [if_neg h0, if_pos h2, Pmp.csrWrite, if_neg h0, if_pos h2]
      · rw [if_neg h0, if_neg h2, Pmp.csrWrite, if_neg h0, if_neg h2]
        by_cases hr : 0x3B0 ≤ a ∧ a ≤ 0x3BF
        · rw [if_pos hr, if_pos hr]
        · simp only [if_neg hr, ite_self]
  · have h0 : a ≠ 0x3A0 := by rintro rfl; exact hp (by decide)
    have h2 : a ≠ 0x3A2 := by rintro rfl; exact hp (by decide)
    have hr : ¬(0x3B0 ≤ a ∧ a ≤ 0x3BF) := fun h => hp (by bv_omega)
    simp only [if_neg h0, if_neg h2, if_neg hr, ite_self, c.pmp.csrWrite_other v h0 h2 hr]

namespace Pmp

variable {p : Pmp} {i j : Nat}

/-! ### One write -/

theorem entries_update (f : PmpEntry → PmpEntry) (hne : j ≠ i) : (p.update j f).entries[i]? = p.entries[i]? := by
  unfold update
  split
  · split
    · rfl
    · exact List.getElem?_set_ne hne
  · rfl

theorem entries_update_locked (f : PmpEntry → PmpEntry) (h : p.Locked i) :
    (p.update i f).entries[i]? = p.entries[i]? := by
  obtain ⟨e, he, hl⟩ := h
  unfold update
  rw [he]
  dsimp only
  rw [if_pos hl, he]

/-- A locked entry survives every update, its own included. -/
theorem entries_of_locked (f : PmpEntry → PmpEntry) (h : p.Locked i) :
    (p.update j f).entries[i]? = p.entries[i]? := by
  by_cases hj : j = i
  · subst hj
    exact entries_update_locked f h
  · exact entries_update f hj

theorem Locked.update (f : PmpEntry → PmpEntry) (h : p.Locked i) : (p.update j f).Locked i := by
  obtain ⟨e, he, hl⟩ := h
  exact ⟨e, (entries_of_locked f ⟨e, he, hl⟩).trans he, hl⟩

/-- Configuration bytes are no address. -/
theorem addr_setCfg (k : Nat) (b : U8) :
    ((p.setCfg k b).entries[j]?).map PmpEntry.addr = (p.entries[j]?).map PmpEntry.addr := by
  by_cases hk : k = j
  · subst hk
    unfold setCfg Pmp.update
    cases he : p.entries[k]? with
    | none => rw [he]
    | some e =>
      dsimp only
      split
      · rw [he]
      · rw [List.getElem?_set_self (List.getElem?_eq_some_iff.mp he).1]
        rfl
  · rw [setCfg, entries_update _ hk]

/-- Eight configuration bytes: a locked entry keeps its own, and no address moves. -/
theorem setPmpCfgWord_spec (base : Nat) (v : U64) (h : p.Locked i) :
    (Cpu.setPmpCfgWord p base v).entries[i]? = p.entries[i]? ∧
      ∀ j : Nat, ((Cpu.setPmpCfgWord p base v).entries[j]?).map PmpEntry.addr = (p.entries[j]?).map PmpEntry.addr := by
  unfold Cpu.setPmpCfgWord
  generalize List.range 8 = ks
  induction ks generalizing p with
  | nil => exact ⟨rfl, fun _ => rfl⟩
  | cons k ks ih =>
    rw [List.foldl_cons]
    obtain ⟨h1, h2⟩ := ih (h.update (j := base + k) _)
    exact ⟨h1.trans (entries_of_locked _ h), fun j => (h2 j).trans (addr_setCfg _ _)⟩

/-- A write that moves the lower bound of entry `i`: a `TOR` entry, and the address register below it,
whose own entry is not locked, gets other bits. -/
def MovesBase (p : Pmp) (i : Nat) (a : CsrAddr) (v : U64) : Prop :=
  ∃ j e b, i = j + 1 ∧ a.toNat = 0x3B0 + j ∧ j < 16 ∧ p.entries[i]? = some e ∧ e.matchMode = .tor ∧
    p.entries[j]? = some b ∧ b.isLocked = false ∧ v <<< 2 ≠ b.addr <<< 2

/-- Of a locked entry only the lower bound can move. -/
theorem protection_eq_iff {q : Pmp} {e : PmpEntry} (hp : p.entries[i]? = some e) (hq : q.entries[i]? = some e) :
    q.protection i = p.protection i ↔ range (q.below i) e = range (p.below i) e := by
  unfold protection
  rw [hp, hq]
  simp

theorem range_tor {e : PmpEntry} (h : e.matchMode = .tor) (x : Option U64) :
    range x e = some ((x.map fun a : U64 => a <<< 2).getD 0, e.addr <<< 2) := by
  unfold range
  rw [h]

theorem range_not_tor {e : PmpEntry} (h : e.matchMode ≠ .tor) (x y : Option U64) : range x e = range y e := by
  unfold range
  cases hm : e.matchMode with
  | tor => exact absurd hm h
  | _ => rfl

/-- The address register below changes only by a write to it that its own lock lets through. -/
theorem below_setAddr (k : Nat) (v : U64) :
    (p.setAddr k v).below i =
      if i = k + 1 ∧ ∃ b, p.entries[k]? = some b ∧ b.isLocked = false then some v else p.below i := by
  cases i with
  | zero => rfl
  | succ i =>
    change ((p.update k _).entries[i]?).map PmpEntry.addr = _
    by_cases hk : k = i
    · subst hk
      cases hb : p.entries[k]? with
      | none =>
        have hno : ¬(k + 1 = k + 1 ∧ ∃ b, (none : Option PmpEntry) = some b ∧ b.isLocked = false) := by simp
        rw [if_neg hno, Pmp.update, hb]
        change (p.entries[k]?).map PmpEntry.addr = (p.entries[k]?).map PmpEntry.addr
        rfl
      | some b =>
        by_cases hl : b.isLocked
        · have hno : ¬(k + 1 = k + 1 ∧ ∃ b', some b = some b' ∧ b'.isLocked = false) := by simp [hl]
          rw [if_neg hno, entries_update_locked _ ⟨b, hb, hl⟩]
          rfl
        · have hyes : k + 1 = k + 1 ∧ ∃ b', some b = some b' ∧ b'.isLocked = false := by simpa using hl
          rw [if_pos hyes, Pmp.update, hb]
          dsimp only
          rw [if_neg hl, List.getElem?_set_self (List.getElem?_eq_some_iff.mp hb).1]
          rfl
    · have hno : ¬(i + 1 = k + 1 ∧ ∃ b, p.entries[k]? = some b ∧ b.isLocked = false) := fun h => hk (by omega)
      rw [if_neg hno, entries_update _ hk]
      rfl

theorem entries_csrWrite (h : p.Locked i) (a : CsrAddr) (v : U64) :
    (p.csrWrite a v).entries[i]? = p.entries[i]? := by
  unfold csrWrite
  split_ifs
  · exact (setPmpCfgWord_spec 0 v h).1
  · exact (setPmpCfgWord_spec 8 v h).1
  · exact entries_of_locked _ h
  · rfl

theorem Locked.csrWrite (h : p.Locked i) (a : CsrAddr) (v : U64) : (p.csrWrite a v).Locked i := by
  obtain ⟨e, he, hl⟩ := h
  exact ⟨e, (entries_csrWrite ⟨e, he, hl⟩ a v).trans he, hl⟩

/-- The register below entry `i` after a write. -/
theorem below_csrWrite (h : p.Locked i) (a : CsrAddr) (v : U64) :
    (p.csrWrite a v).below i =
      if (0x3B0 ≤ a ∧ a ≤ 0x3BF) ∧ i = (a.toNat - 0x3B0) + 1 ∧
        ∃ b, p.entries[a.toNat - 0x3B0]? = some b ∧ b.isLocked = false then some v
      else p.below i := by
  have hcfg : ∀ base, (Cpu.setPmpCfgWord p base v).below i = p.below i := by
    intro base
    cases i with
    | zero => rfl
    | succ i => exact (setPmpCfgWord_spec base v h).2 i
  unfold Pmp.csrWrite
  by_cases h0 : a = 0x3A0
  · rw [if_pos h0, hcfg, if_neg]
    rintro ⟨hr, -⟩
    subst h0
    exact absurd hr (by decide)
  · by_cases h2 : a = 0x3A2
    · rw [if_neg h0, if_pos h2, hcfg, if_neg]
      rintro ⟨hr, -⟩
      subst h2
      exact absurd hr (by decide)
    · rw [if_neg h0, if_neg h2]
      by_cases hr : 0x3B0 ≤ a ∧ a ≤ 0x3BF
      · rw [if_pos hr, below_setAddr]
        simp only [hr, and_self, true_and]
      · rw [if_neg hr, if_neg fun hc => hr hc.1]

/-- **One CSR write and a locked entry.** What the entry protects changes exactly when the write moves
its lower bound. -/
theorem protection_csrWrite_iff (h : p.Locked i) (a : CsrAddr) (v : U64) :
    (p.csrWrite a v).protection i = p.protection i ↔ ¬p.MovesBase i a v := by
  have hsame := entries_csrWrite h a v
  have hbelow := below_csrWrite h a v
  obtain ⟨e, he, hl⟩ := h
  rw [protection_eq_iff he (hsame.trans he)]
  by_cases htor : e.matchMode = .tor
  · by_cases hc : (0x3B0 ≤ a ∧ a ≤ 0x3BF) ∧ i = (a.toNat - 0x3B0) + 1 ∧
        ∃ b, p.entries[a.toNat - 0x3B0]? = some b ∧ b.isLocked = false
    · -- the register below gets `v`
      rw [if_pos hc] at hbelow
      obtain ⟨hr, hi, b, hb, hbl⟩ := hc
      have hold : p.below i = some b.addr := by
        rw [hi]
        change (p.entries[a.toNat - 0x3B0]?).map PmpEntry.addr = _
        rw [hb]
        rfl
      have haddr : a.toNat = 0x3B0 + (a.toNat - 0x3B0) ∧ a.toNat - 0x3B0 < 16 := by bv_omega
      rw [hbelow, hold, range_tor htor, range_tor htor]
      constructor
      · rintro heq ⟨j, e', b', hij, haj, hj, he', -, hb', -, hne⟩
        have hjk : j = a.toNat - 0x3B0 := by omega
        rw [hjk, hb] at hb'
        obtain rfl := Option.some.inj hb'
        exact hne (by simpa using heq)
      · intro hno
        by_contra hne
        exact hno ⟨a.toNat - 0x3B0, e, b, hi, haddr.1, haddr.2, he, htor, hb, hbl, by simpa using hne⟩
    · rw [if_neg hc] at hbelow
      rw [hbelow]
      refine ⟨fun _ => ?_, fun _ => rfl⟩
      rintro ⟨j, e', b', hij, haj, hj, -, -, hb', hbl', -⟩
      have hjk : a.toNat - 0x3B0 = j := by omega
      refine hc ⟨by bv_omega, by omega, b', ?_, hbl'⟩
      rw [hjk]
      exact hb'
  · -- the register below is not read
    refine ⟨fun _ => ?_, fun _ => range_not_tor htor _ _⟩
    rintro ⟨j, e', b', -, -, -, he', htor', -⟩
    rw [he] at he'
    exact htor (Option.some.inj he' ▸ htor')

end Pmp

/-! ### Sequences of writes -/

/-- CSR writes in order. -/
def Cpu.csrWrites [Units U] (c : Cpu U) (ws : List (CsrAddr × U64)) : Cpu U :=
  ws.foldl (fun c w => c.csrWrite w.1 w.2) c

/-- **What a locked entry protects, over any sequence of CSR writes.** It stays as it is through the
whole sequence exactly when no write of it moves the lower bound. -/
theorem Pmp.protection_writes_iff [Units U] (c : Cpu U) (i : Nat) (h : c.pmp.Locked i)
    (ws : List (CsrAddr × U64)) :
    (∀ pre, pre <+: ws → (c.csrWrites pre).pmp.protection i = c.pmp.protection i) ↔
      ∀ pre a v, pre ++ [(a, v)] <+: ws → ¬(c.csrWrites pre).pmp.MovesBase i a v := by
  induction ws generalizing c with
  | nil => simp [Cpu.csrWrites]
  | cons w ws ih =>
    obtain ⟨a, v⟩ := w
    have hlock : (c.csrWrite a v).pmp.Locked i := by
      rw [Cpu.csrWrite_pmp]
      exact h.csrWrite a v
    have hstep : (c.csrWrite a v).pmp.protection i = c.pmp.protection i ↔ ¬c.pmp.MovesBase i a v := by
      rw [Cpu.csrWrite_pmp]
      exact Pmp.protection_csrWrite_iff h a v
    have hrest := ih (c.csrWrite a v) hlock
    constructor
    · intro hall pre b u hpre
      have hfirst : (c.csrWrite a v).pmp.protection i = c.pmp.protection i :=
        hall [(a, v)] (List.prefix_cons_inj (a, v) |>.mpr List.nil_prefix)
      cases pre with
      | nil =>
        obtain ⟨heq, -⟩ := List.cons_prefix_cons.mp hpre
        obtain ⟨rfl, rfl⟩ := Prod.mk.inj heq
        exact hstep.mp hfirst
      | cons x pre =>
        obtain ⟨rfl, hpre'⟩ := List.cons_prefix_cons.mp hpre
        refine hrest.mp (fun q hq => ?_) pre b u hpre'
        rw [hfirst]
        exact hall ((a, v) :: q) (List.cons_prefix_cons.mpr ⟨rfl, hq⟩)
    · intro hall pre hpre
      cases pre with
      | nil => rfl
      | cons x pre =>
        obtain ⟨rfl, hpre'⟩ := List.cons_prefix_cons.mp hpre
        have hfirst := hstep.mpr (hall [] a v (List.cons_prefix_cons.mpr ⟨rfl, List.nil_prefix⟩))
        have := hrest.mpr (fun q b u hq => hall ((a, v) :: q) b u (List.cons_prefix_cons.mpr ⟨rfl, hq⟩)) pre hpre'
        exact this.trans hfirst

/-- Entry 1 is `TOR`, readable and locked, with the range from 0 to `0x4000`. -/
def lockedTor : Cpu Bench :=
  (Cpu.new {} (fun _ => 0) {}).csrWrites [(0x3B1, 0x1000), (0x3A0, 0x8900)]

theorem lockedTor_locked : lockedTor.pmp.Locked 1 := ⟨⟨0x89, 0x1000⟩, by decide, by decide⟩

/-- Writes around the locked entry, and to it. -/
def aroundTor : List (CsrAddr × U64) := [(0x3B1, 0), (0x3A0, 0), (0x3B2, 5)]

/-- They leave it alone. -/
theorem protection_lockedTor : lockedTor.pmp.Locked 1 ∧
    (lockedTor.csrWrites aroundTor).pmp.protection 1 = lockedTor.pmp.protection 1 := by
  refine ⟨lockedTor_locked, ?_⟩
  refine (Pmp.protection_writes_iff lockedTor 1 lockedTor_locked aroundTor).mpr (fun pre a v hpre hmv => ?_)
    aroundTor (List.prefix_refl _)
  obtain ⟨j, -, -, hj, ha, -⟩ := hmv
  have hmem : (a, v) ∈ aroundTor := hpre.subset (List.mem_append_right _ List.mem_cons_self)
  have ha' : a.toNat = 0x3B0 := by omega
  simp only [aroundTor, List.mem_cons, Prod.mk.injEq, List.not_mem_nil, or_false] at hmem
  rcases hmem with ⟨rfl, -⟩ | ⟨rfl, -⟩ | ⟨rfl, -⟩ <;> exact absurd ha' (by decide)

/-- Entry 0 is not locked, so a write to `pmpaddr0` moves the range of the locked entry above it. -/
theorem lockedTor_moved : lockedTor.pmp.Locked 1 ∧
    (lockedTor.csrWrite 0x3B0 0x800).pmp.protection 1 ≠ lockedTor.pmp.protection 1 :=
  ⟨lockedTor_locked, by decide⟩

end Rvsim
