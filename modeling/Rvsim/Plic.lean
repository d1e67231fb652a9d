/-
# The platform-level interrupt controller

`soc/devices/plic.rs`: priorities, pending bits, and for each of two contexts
enables, a threshold and a claim register. `check_interrupts` arbitrates and
leaves the winner in the claim register; a claim read returns what is there
and clears the pending bit, and `update_irqs` writes the pending bits of the
first 64 sources from the level of their lines.

A claim read is right while nothing that arbitration reads has changed since
`check_interrupts`, and it returns no source that is in service while none of
them is pending again.

Not carried: `base_addr`, `name` and the address range.

Key definitions:
  - `Plic`, `Plic.calcMaxId`, `Plic.readU32`, `Plic.writeU32`
  - `Plic.Best`, `PlicRun`, `PlicRun.Claims`
Key theorems:
  - `Plic.calcMaxId_best`, `PlicRun.step_inv`, `PlicRun.claims`
-/
import Rvsim.Common
import Rvsim.Lib.Masks
import Rvsim.Lib.Arbiter

namespace Rvsim

/-- A PLIC. The vectors have 1024 priorities, 32 words of pending bits, and 32 words of enables for each
of the two contexts. -/
structure Plic where
  priorities : Nat → U32 := fun _ => 0
  pending : Nat → U32 := fun _ => 0
  enables : Nat → Nat → U32 := fun _ _ => 0
  thresholds : Nat → U32 := fun _ => 0
  claims : Nat → U32 := fun _ => 0

namespace Plic

def numContexts : Nat := 2
def enableWordsPerContext : Nat := 32
def numSources : Nat := 1024
def pendingWords : Nat := 32

def priorityBase : U64 := 0x000000
def pendingBase : U64 := 0x001000
def enableBase : U64 := 0x002000
def contextBase : U64 := 0x200000

/-! ### Lines and arbitration -/

/-- The pending bits of the first 64 sources are the levels of their lines. -/
def updateIrqs (p : Plic) (mask : U64) : Plic :=
  let pending := Function.update p.pending 0 ((mask &&& 0xFFFFFFFF).setWidth 32)
  { p with pending := Function.update pending 1 ((mask >>> 32).setWidth 32) }

/-- Some pending interrupt is enabled for the context and above its threshold. -/
def hasQualifiedIrq (p : Plic) (ctx : Nat) : Bool :=
  (List.range (min pendingWords enableWordsPerContext)).any fun word =>
    let active := p.pending word &&& p.enables ctx word
    active != 0 && (List.range 32).any fun bit =>
      let irqId := word * 32 + bit
      irqId != 0 && (active &&& (1 : U32) <<< bit != 0) && decide (irqId < numSources) &&
        decide (p.thresholds ctx < p.priorities irqId)

/-- One bit of the inner loop of `calc_max_id`; `acc` is `(max_prio, max_id)`. -/
def calcBit (p : Plic) (ctx word : Nat) (active : U32) (acc : U32 × U32) (bit : Nat) : U32 × U32 :=
  let irqId := word * 32 + bit
  if irqId = 0 then acc
  else if active &&& (1 : U32) <<< bit ≠ 0 ∧ irqId < numSources then
    let prio := p.priorities irqId
    if acc.1 < prio ∧ p.thresholds ctx < prio then (prio, BitVec.ofNat 32 irqId) else acc
  else acc

def calcWord (p : Plic) (ctx word : Nat) (acc : U32 × U32) : U32 × U32 :=
  let active := p.pending word &&& p.enables ctx word
  if active = 0 then acc else (List.range 32).foldl (p.calcBit ctx word active) acc

def calcMaxId (p : Plic) (ctx : Nat) : U32 :=
  ((List.range (min pendingWords enableWordsPerContext)).foldl (fun acc word => p.calcWord ctx word acc) (0, 0)).2

/-- The claim register of one context after `check_interrupts`. -/
def arbitrate (p : Plic) (ctx : Nat) : U32 := if p.hasQualifiedIrq ctx then p.calcMaxId ctx else 0

/-- `(meip, seip)` and the claim registers. -/
def checkInterrupts (p : Plic) : (Bool × Bool) × Plic :=
  let q := { p with claims := Function.update p.claims 0 (p.arbitrate 0) }
  ((p.hasQualifiedIrq 0, q.hasQualifiedIrq 1), { q with claims := Function.update q.claims 1 (q.arbitrate 1) })

/-! ### Registers -/

/-- Clear the pending bit of `irqId`. -/
def clearPending (p : Plic) (irqId : U32) : Plic :=
  if 0 < irqId ∧ irqId.toNat < 1024 then
    let idx := irqId.toNat / 32
    if idx < pendingWords then
      { p with pending := Function.update p.pending idx (p.pending idx &&& ~~~((1 : U32) <<< (irqId.toNat % 32))) }
    else p
  else p

/-- The context and the register that an offset past `PLIC_CONTEXT_BASE` names. -/
def contextReg (offset : U64) : Nat × U64 := ((offset - contextBase).toNat / 0x1000, offset &&& 0xFFF)

def readU32 (p : Plic) (offset : U64) : U32 × Plic :=
  if offset < pendingBase then
    let idx := (offset - priorityBase).toNat / 4
    if idx < numSources then (p.priorities idx, p) else (0, p)
  else if offset < enableBase then
    let idx := (offset - pendingBase).toNat / 4
    if idx < pendingWords then (p.pending idx, p) else (0, p)
  else if offset < contextBase then
    let rel := (offset - enableBase).toNat
    let ctx := rel / 0x80
    let wordIdx := (rel % 0x80) / 4
    if ctx < numContexts ∧ wordIdx < enableWordsPerContext then (p.enables ctx wordIdx, p) else (0, p)
  else
    let (ctx, reg) := contextReg offset
    if ctx < 2 then
      if reg = 0 then (p.thresholds ctx, p)
      else if reg = 4 then (p.claims ctx, p.clearPending (p.claims ctx))
      else (0, p)
    else (0, p)

def writeU32 (p : Plic) (offset : U64) (val : U32) : Plic :=
  if offset < pendingBase then
    let idx := (offset - priorityBase).toNat / 4
    if idx < numSources then { p with priorities := Function.update p.priorities idx val } else p
  else if offset < enableBase then p
  else if offset < contextBase then
    let rel := (offset - enableBase).toNat
    let ctx := rel / 0x80
    let wordIdx := (rel % 0x80) / 4
    if ctx < numContexts ∧ wordIdx < enableWordsPerContext then
      { p with enables := Function.update p.enables ctx (Function.update (p.enables ctx) wordIdx val) }
    else p
  else
    let (ctx, reg) := contextReg offset
    if ctx < 2 then
      if reg = 0 then { p with thresholds := Function.update p.thresholds ctx val }
      else if reg = 4 then
        let p := p.clearPending val
        { p with claims := Function.update p.claims ctx 0 }
      else p
    else p

def readU8 (p : Plic) (offset : U64) : U8 × Plic :=
  let (v, p) := p.readU32 (offset &&& ~~~3)
  ((v >>> ((offset &&& 3).toNat * 8)).setWidth 8, p)

def readU16 (p : Plic) (offset : U64) : U16 × Plic :=
  let (v, p) := p.readU32 (offset &&& ~~~3)
  ((v >>> ((offset &&& 3).toNat * 8)).setWidth 16, p)

def readU64 (p : Plic) (offset : U64) : U64 × Plic :=
  let (v, p) := p.readU32 offset
  (v.setWidth 64, p)

/-- The read of the word that holds the byte is a read like any other. -/
def writeU8 (p : Plic) (offset : U64) (val : U8) : Plic :=
  let aligned := offset &&& ~~~3
  let bytePos := (offset &&& 3).toNat * 8
  let (old, p) := p.readU32 aligned
  p.writeU32 aligned ((old &&& ~~~((0xFF : U32) <<< bytePos)) ||| (val.setWidth 32 <<< bytePos))

def writeU16 (p : Plic) (offset : U64) (val : U16) : Plic :=
  let aligned := offset &&& ~~~3
  let bytePos := (offset &&& 2).toNat * 8
  let (old, p) := p.readU32 aligned
  p.writeU32 aligned ((old &&& ~~~((0xFFFF : U32) <<< bytePos)) ||| (val.setWidth 32 <<< bytePos))

def writeU64 (p : Plic) (offset : U64) (val : U64) : Plic := p.writeU32 offset (val.setWidth 32)

/-! ### Arbitration selects the best -/

/-- Source `id` is pending, enabled for the context and above its threshold. -/
def qualified (p : Plic) (ctx id : Nat) : Bool :=
  id != 0 && decide (id < numSources) && (p.pending (id / 32)).getLsbD (id % 32) &&
    (p.enables ctx (id / 32)).getLsbD (id % 32) && decide (p.thresholds ctx < p.priorities id)

/-- `id` is the lowest-numbered of the qualified sources with the highest priority, or 0 if there are none. -/
def Best (p : Plic) (ctx : Nat) (id : U32) : Prop :=
  (id = 0 ∧ ∀ j, p.qualified ctx j = false) ∨
    (p.qualified ctx id.toNat = true ∧ ∀ j, p.qualified ctx j = true →
      p.priorities j < p.priorities id.toNat ∨ (p.priorities j = p.priorities id.toNat ∧ id.toNat ≤ j))

/-- A source as the loops come by it. -/
theorem qualified_word (p : Plic) (ctx word : Nat) {bit : Nat} (hb : bit < 32) :
    p.qualified ctx (word * 32 + bit) = true ↔ word * 32 + bit ≠ 0 ∧
      ((p.pending word &&& p.enables ctx word) &&& (1 : U32) <<< bit ≠ 0 ∧ word * 32 + bit < numSources) ∧
      p.thresholds ctx < p.priorities (word * 32 + bit) := by
  have hdiv : (word * 32 + bit) / 32 = word := by omega
  have hmod : (word * 32 + bit) % 32 = bit := by omega
  have hbit : (p.pending word &&& p.enables ctx word) &&& (1 : U32) <<< bit ≠ 0 ↔
      (p.pending word).getLsbD bit = true ∧ (p.enables ctx word).getLsbD bit = true := by
    rw [← bne_iff_ne, Masks.test_bit _ hb, BitVec.getLsbD_and, Bool.and_eq_true]
  unfold qualified
  rw [hdiv, hmod, hbit]
  simp only [Bool.and_eq_true, bne_iff_ne, decide_eq_true_eq]
  tauto

/-- The accumulator of `calc_max_id` as numbers. -/
def accNat (acc : U32 × U32) : Nat × Nat := (acc.1.toNat, acc.2.toNat)

/-- The pass that `calc_max_id` makes. -/
def arbiter (p : Plic) (ctx : Nat) : Nat × Nat → Nat → Nat × Nat :=
  Arbiter.pick (p.qualified ctx) fun j => (p.priorities j).toNat

theorem calcBit_arbiter (p : Plic) (ctx word : Nat) (acc : U32 × U32) {bit : Nat} (hb : bit < 32) :
    accNat (p.calcBit ctx word (p.pending word &&& p.enables ctx word) acc bit) =
      p.arbiter ctx (accNat acc) (word * 32 + bit) := by
  have hq := p.qualified_word ctx word hb
  unfold calcBit arbiter Arbiter.pick
  dsimp only
  by_cases h0 : word * 32 + bit = 0
  · rw [if_pos h0, if_neg fun h => (hq.mp h.1).1 h0]
  · rw [if_neg h0]
    by_cases ha : (p.pending word &&& p.enables ctx word) &&& (1 : U32) <<< bit ≠ 0 ∧ word * 32 + bit < numSources
    · have hlt : word * 32 + bit < 2 ^ 32 := lt_trans ha.2 (by decide)
      rw [if_pos ha]
      by_cases hp : acc.1 < p.priorities (word * 32 + bit) ∧ p.thresholds ctx < p.priorities (word * 32 + bit)
      · rw [if_pos hp, if_pos ⟨hq.mpr ⟨h0, ha, hp.2⟩, BitVec.lt_def.mp hp.1⟩]
        unfold accNat
        rw [BitVec.toNat_ofNat, Nat.mod_eq_of_lt hlt]
      · rw [if_neg hp, if_neg fun h => hp ⟨BitVec.lt_def.mpr h.2, (hq.mp h.1).2.2⟩]
    · rw [if_neg ha, if_neg fun h => ha (hq.mp h.1).2.1]

theorem calcWord_arbiter (p : Plic) (ctx word : Nat) (acc : U32 × U32) :
    accNat (p.calcWord ctx word acc) = ((List.range 32).map (word * 32 + ·)).foldl (p.arbiter ctx) (accNat acc) := by
  have hbits : ∀ (bits : List Nat) (acc : U32 × U32), (∀ b ∈ bits, b < 32) →
      accNat (bits.foldl (p.calcBit ctx word (p.pending word &&& p.enables ctx word)) acc) =
        bits.foldl (fun b bit => p.arbiter ctx b (word * 32 + bit)) (accNat acc) := by
    intro bits
    induction bits with
    | nil => exact fun _ _ => rfl
    | cons b bits ih =>
      intro acc hb
      rw [List.foldl_cons, List.foldl_cons, ih _ fun c hc => hb c (List.mem_cons_of_mem _ hc),
        calcBit_arbiter p ctx word acc (hb b List.mem_cons_self)]
  -- a word without an active bit is skipped, and none of its bits would have been taken
  have hskip : p.pending word &&& p.enables ctx word = 0 → ∀ (bits : List Nat) (acc : U32 × U32),
      bits.foldl (p.calcBit ctx word (p.pending word &&& p.enables ctx word)) acc = acc := by
    intro hz bits acc
    induction bits with
    | nil => rfl
    | cons b bits ih =>
      have hstep : p.calcBit ctx word (p.pending word &&& p.enables ctx word) acc b = acc := by
        unfold calcBit
        rw [hz]
        simp
      rw [List.foldl_cons, hstep, ih]
  have hword : p.calcWord ctx word acc =
      (List.range 32).foldl (p.calcBit ctx word (p.pending word &&& p.enables ctx word)) acc := by
    unfold calcWord
    dsimp only
    split
    · exact (hskip ‹_› _ _).symm
    · rfl
  rw [hword, List.foldl_map, hbits _ acc fun b hb => List.mem_range.mp hb]

/-- `calc_max_id` goes over all sources in order. -/
theorem calcMaxId_arbiter (p : Plic) (ctx : Nat) : (p.calcMaxId ctx).toNat =
    ((List.range numSources).foldl (p.arbiter ctx) (0, 0)).2 := by
  have hids :
      (List.range 32).flatMap (fun w => (List.range 32).map (w * 32 + ·)) = List.range numSources := by decide +kernel
  have hwords : ∀ (ws : List Nat) (acc : U32 × U32),
      accNat (ws.foldl (fun acc word => p.calcWord ctx word acc) acc) = ws.foldl (fun b w =>
        ((List.range 32).map (w * 32 + ·)).foldl (p.arbiter ctx) b) (accNat acc) := by
    intro ws
    induction ws with
    | nil => exact fun _ => rfl
    | cons w ws ih =>
      intro acc
      rw [List.foldl_cons, List.foldl_cons, ih, calcWord_arbiter]
  rw [← hids, List.foldl_flatMap]
  exact congrArg Prod.snd (hwords (List.range 32) (0, 0))

/-- **Arbitration** finds the lowest-numbered of the qualified sources with the highest priority. -/
theorem calcMaxId_best (p : Plic) (ctx : Nat) : p.Best ctx (p.calcMaxId ctx) := by
  have hid := p.calcMaxId_arbiter ctx
  unfold arbiter at hid
  have hbound : ∀ j, p.qualified ctx j = true → j < numSources ∧ 0 < (p.priorities j).toNat := by
    intro j hj
    simp only [qualified, Bool.and_eq_true, decide_eq_true_eq] at hj
    have hlt := BitVec.lt_def.mp hj.2
    exact ⟨hj.1.1.1.2, by omega⟩
  rcases Arbiter.foldl_pick_range (p.qualified ctx) (fun j => (p.priorities j).toNat) numSources (0, 0) with
    ⟨heq, hnone⟩ | ⟨k, hk, heq, hq, -, hbest⟩
  · left
    rw [heq] at hid
    refine ⟨BitVec.eq_of_toNat_eq hid, fun j => ?_⟩
    by_contra hj
    rw [Bool.not_eq_false] at hj
    have hpos := (hbound j hj).2
    have hle : (p.priorities j).toNat ≤ 0 := hnone j (hbound j hj).1 hj
    omega
  · right
    rw [heq] at hid
    dsimp only at hid
    rw [hid]
    refine ⟨hq, fun j hj => ?_⟩
    rcases hbest j (hbound j hj).1 hj with hlt | ⟨heq, hle⟩
    · exact Or.inl (BitVec.lt_def.mpr hlt)
    · exact Or.inr ⟨BitVec.eq_of_toNat_eq heq, hle⟩

theorem hasQualifiedIrq_iff (p : Plic) (ctx : Nat) : p.hasQualifiedIrq ctx = true ↔ ∃ j, p.qualified ctx j = true := by
  unfold hasQualifiedIrq
  simp only [List.any_eq_true, List.mem_range, Bool.and_eq_true, bne_iff_ne, decide_eq_true_eq]
  constructor
  · rintro ⟨word, -, -, bit, hbit, ⟨⟨h0, ha⟩, hlt⟩, hp⟩
    exact ⟨word * 32 + bit, (p.qualified_word ctx word hbit).mpr ⟨h0, ⟨ha, hlt⟩, hp⟩⟩
  · rintro ⟨j, hj⟩
    have hsplit : j = j / 32 * 32 + j % 32 := by omega
    have hbit : j % 32 < 32 := Nat.mod_lt _ (by decide)
    rw [hsplit] at hj
    obtain ⟨h0, ⟨ha, hlt⟩, hp⟩ := (p.qualified_word ctx (j / 32) hbit).mp hj
    refine ⟨j / 32, ?_, fun hz => ha ?_, j % 32, hbit, ⟨⟨h0, ha⟩, hlt⟩, hp⟩
    · have hj32 : j / 32 * 32 + j % 32 < 1024 := hlt
      have hmin : min pendingWords enableWordsPerContext = 32 := rfl
      omega
    · rw [hz]
      exact BitVec.zero_and

theorem arbitrate_best (p : Plic) (ctx : Nat) : p.Best ctx (p.arbitrate ctx) := by
  unfold arbitrate
  split
  · exact p.calcMaxId_best ctx
  · rename_i h
    refine Or.inl ⟨rfl, fun j => ?_⟩
    by_contra hj
    exact h ((p.hasQualifiedIrq_iff ctx).mpr ⟨j, by simpa using hj⟩)

/-- What arbitration for `ctx` reads is the same in both. -/
structure SameInputs (p q : Plic) (ctx : Nat) : Prop where
  pending : p.pending = q.pending
  priorities : p.priorities = q.priorities
  enables : p.enables ctx = q.enables ctx
  thresholds : p.thresholds ctx = q.thresholds ctx

theorem SameInputs.qualified {p q : Plic} {ctx : Nat} (h : SameInputs p q ctx) : p.qualified ctx = q.qualified ctx := by
  funext j
  unfold Plic.qualified
  rw [h.pending, h.priorities, h.enables, h.thresholds]

theorem SameInputs.arbitrate {p q : Plic} {ctx : Nat} (h : SameInputs p q ctx) : p.arbitrate ctx = q.arbitrate ctx := by
  have hirq : p.hasQualifiedIrq ctx = q.hasQualifiedIrq ctx := by
    rw [Bool.eq_iff_iff, hasQualifiedIrq_iff, hasQualifiedIrq_iff, h.qualified]
  have hid : p.calcMaxId ctx = q.calcMaxId ctx := by
    refine BitVec.eq_of_toNat_eq ?_
    rw [calcMaxId_arbiter, calcMaxId_arbiter, arbiter, arbiter, h.qualified, h.priorities]
  unfold Plic.arbitrate
  rw [hirq, hid]

/-- After `check_interrupts` each claim register holds what arbitration selects. -/
theorem checkInterrupts_claims (p : Plic) {ctx : Nat} (hc : ctx < 2) :
    p.checkInterrupts.2.claims ctx = p.checkInterrupts.2.arbitrate ctx := by
  have hsame : ∀ ctx, SameInputs p p.checkInterrupts.2 ctx := fun _ => ⟨rfl, rfl, rfl, rfl⟩
  rw [← (hsame ctx).arbitrate]
  have hcases : ctx = 0 ∨ ctx = 1 := by omega
  rcases hcases with rfl | rfl
  · rfl
  · exact SameInputs.arbitrate (q := p) ⟨rfl, rfl, rfl, rfl⟩

/-! ### Claims and completions -/

/-- The context whose claim register is at this offset. -/
def claimCtx (offset : U64) : Option Nat :=
  if contextBase ≤ offset ∧ (contextReg offset).1 < 2 ∧ (contextReg offset).2 = 4 then
      some (contextReg offset).1 else none

theorem claimCtx_eq_some {offset : U64} {ctx : Nat} (h : claimCtx offset = some ctx) :
    contextBase ≤ offset ∧ ctx < 2 ∧ contextReg offset = (ctx, 4) := by
  unfold claimCtx at h
  split at h
  · rename_i hc
    have hctx := Option.some.inj h
    exact ⟨hc.1, hctx ▸ hc.2.1, Prod.ext hctx hc.2.2⟩
  · exact absurd h (by simp)

/-- Offsets past `PLIC_CONTEXT_BASE` are none of the others. -/
theorem context_offset {offset : U64} (h : contextBase ≤ offset) :
    ¬offset < pendingBase ∧ ¬offset < enableBase ∧ ¬offset < contextBase := by
  have hnat := BitVec.le_def.mp h
  have hb : contextBase.toNat = 0x200000 := rfl
  have hp : pendingBase.toNat = 0x1000 := rfl
  have he : enableBase.toNat = 0x2000 := rfl
  simp only [BitVec.lt_def]
  omega

/-- A claim read returns the claim register and clears the pending bit. -/
theorem readU32_claim (p : Plic) {offset : U64} {ctx : Nat} (h : claimCtx offset = some ctx) :
    p.readU32 offset = (p.claims ctx, p.clearPending (p.claims ctx)) := by
  obtain ⟨hle, hctx, hreg⟩ := claimCtx_eq_some h
  obtain ⟨h1, h2, h3⟩ := context_offset hle
  unfold readU32
  rw [if_neg h1, if_neg h2, if_neg h3, hreg]
  dsimp only
  rw [if_pos hctx, if_neg (by decide), if_pos rfl]

end Plic

/-! ### Runs -/

inductive PlicOp where
  | updateIrqs (mask : U64)
  | checkInterrupts
  | readU32 (offset : U64)
  | writeU32 (offset : U64) (val : U32)
  deriving DecidableEq, Repr

/-- The source that the operation completes. -/
def PlicOp.completes : PlicOp → Option U32
  | .writeU32 offset val => (Plic.claimCtx offset).map fun _ => val
  | _ => none

/-- A PLIC with what it was at the last `check_interrupts`, and the sources that were claimed and not
completed yet. -/
structure PlicRun where
  plic : Plic := {}
  sampled : Plic := {}
  inService : List U32 := []

namespace PlicRun

/-- The context and the source of a claim. -/
def claim (s : PlicRun) : PlicOp → Option (Nat × U32)
  | .readU32 offset => (Plic.claimCtx offset).map fun ctx => (ctx, (s.plic.readU32 offset).1)
  | _ => none

def step (s : PlicRun) (op : PlicOp) : PlicRun :=
  let plic := match op with
    | .updateIrqs mask => s.plic.updateIrqs mask
    | .checkInterrupts => s.plic.checkInterrupts.2
    | .readU32 offset => (s.plic.readU32 offset).2
    | .writeU32 offset val => s.plic.writeU32 offset val
  { plic := plic
    sampled := if op = .checkInterrupts then plic else s.sampled
    inService := ((s.claim op).map (·.2)).toList ++ s.inService.filter fun id => op.completes != some id }

def run (s : PlicRun) (ops : List PlicOp) : PlicRun := ops.foldl step s

/-- Every claim returns the best source at that moment, and a source that was returned is returned again,
to either context, only after it was completed. -/
structure Claims (s : PlicRun) (ops : List PlicOp) : Prop where
  best : ∀ pre op post ctx id, ops = pre ++ op :: post → (s.run pre).claim op = some (ctx, id) →
    (s.run pre).plic.Best ctx id
  once : ∀ pre op mid op' post ctx ctx' id, ops = pre ++ op :: (mid ++ op' :: post) →
    (s.run pre).claim op = some (ctx, id) → (s.run (pre ++ op :: mid)).claim op' = some (ctx', id) → id ≠ 0 →
    ∃ o ∈ mid, o.completes = some id

/-- Nothing that decides what `ctx` claims has changed since `check_interrupts`, and no source in service
is pending, enabled and above the threshold. -/
structure Claimable (s : PlicRun) (ctx : Nat) : Prop where
  inputs : Plic.SameInputs s.plic s.sampled ctx
  register : s.plic.claims ctx = s.sampled.claims ctx
  free : ∀ id ∈ s.inService, s.plic.qualified ctx id.toNat = false

/-- Every claim of the run meets `Claimable`. -/
def Orderly (s : PlicRun) : List PlicOp → Prop
  | [] => True
  | op :: ops => (∀ ctx id, s.claim op = some (ctx, id) → s.Claimable ctx) ∧ (s.step op).Orderly ops

/-- The registers were sampled by `check_interrupts`. -/
def Inv (s : PlicRun) : Prop := ∀ ctx < 2, s.sampled.claims ctx = s.sampled.arbitrate ctx

theorem init_inv : Inv {} := by
  intro ctx _
  have hnone : ({} : Plic).hasQualifiedIrq ctx = false := by
    rw [Bool.eq_false_iff]
    intro h
    obtain ⟨j, hj⟩ := (Plic.hasQualifiedIrq_iff _ ctx).mp h
    simp [Plic.qualified] at hj
  show (0 : U32) = _
  rw [Plic.arbitrate, hnone]
  rfl

theorem step_inv {s : PlicRun} (h : s.Inv) (op : PlicOp) : (s.step op).Inv := by
  intro ctx hctx
  by_cases hop : op = .checkInterrupts
  · subst hop
    exact s.plic.checkInterrupts_claims hctx
  · have hkeep : (s.step op).sampled = s.sampled := if_neg hop
    rw [hkeep]
    exact h ctx hctx

theorem run_inv {s : PlicRun} (h : s.Inv) (ops : List PlicOp) : (s.run ops).Inv := by
  induction ops generalizing s with
  | nil => exact h
  | cons op ops ih => exact ih (step_inv h op)

theorem claim_eq_some {s : PlicRun} {op : PlicOp} {ctx : Nat} {id : U32} (h : s.claim op = some (ctx, id)) :
    ctx < 2 ∧ id = s.plic.claims ctx := by
  cases op with
  | readU32 offset =>
    simp only [claim, Option.map_eq_some_iff, Prod.mk.injEq] at h
    obtain ⟨ctx', hctx, rfl, rfl⟩ := h
    exact ⟨(Plic.claimCtx_eq_some hctx).2.1, by rw [Plic.readU32_claim _ hctx]⟩
  | updateIrqs mask => exact absurd h (by simp [claim])
  | checkInterrupts => exact absurd h (by simp [claim])
  | writeU32 offset val => exact absurd h (by simp [claim])

/-- A claim that meets `Claimable` returns the best source. -/
theorem claim_best {s : PlicRun} (hi : s.Inv) {op : PlicOp} {ctx : Nat} {id : U32} (h : s.claim op = some (ctx, id))
    (hc : s.Claimable ctx) : s.plic.Best ctx id := by
  obtain ⟨hctx, rfl⟩ := claim_eq_some h
  rw [hc.register, hi ctx hctx, ← hc.inputs.arbitrate]
  exact s.plic.arbitrate_best ctx

/-- A claimed source stays in service while nothing completes it. -/
theorem inService_run {s : PlicRun} {id : U32} (h : id ∈ s.inService) {ops : List PlicOp}
    (hops : ∀ o ∈ ops, o.completes ≠ some id) : id ∈ (s.run ops).inService := by
  induction ops generalizing s with
  | nil => exact h
  | cons op ops ih =>
    refine ih ?_ fun o ho => hops o (List.mem_cons_of_mem _ ho)
    have hop := hops op List.mem_cons_self
    refine List.mem_append_right _ (List.mem_filter.mpr ⟨h, ?_⟩)
    rw [bne_iff_ne]
    exact hop

theorem Orderly.at {s : PlicRun} {pre post : List PlicOp} {op : PlicOp} (h : s.Orderly (pre ++ op :: post)) :
    ∀ ctx id, (s.run pre).claim op = some (ctx, id) → (s.run pre).Claimable ctx := by
  induction pre generalizing s with
  | nil => exact h.1
  | cons o pre ih => exact ih h.2

/-- **Claims.** In a run whose claims come while the registers are as `check_interrupts` found them, and
while no source in service is pending again, every claim is right and no source is claimed twice. -/
theorem orderly_claims (ops : List PlicOp) (h : ({} : PlicRun).Orderly ops) : ({} : PlicRun).Claims ops := by
  constructor
  · intro pre op post ctx id hsplit hclaim
    subst hsplit
    exact claim_best (run_inv init_inv pre) hclaim (h.at ctx id hclaim)
  · intro pre op mid op' post ctx ctx' id hsplit hclaim hclaim' hid
    by_contra hnone
    have hnone' : ∀ o ∈ mid, o.completes ≠ some id := fun o ho hc => hnone ⟨o, ho, hc⟩
    rw [show pre ++ op :: (mid ++ op' :: post) = (pre ++ op :: mid) ++ op' :: post by simp] at hsplit
    subst hsplit
    have hclaimable := h.at ctx' id hclaim'
    -- the source is in service when it is claimed again
    have hrun : ({} : PlicRun).run (pre ++ op :: mid) = ((({} : PlicRun).run pre).step op).run mid := by
      rw [run, List.foldl_append]
      rfl
    have hin : id ∈ (({} : PlicRun).run (pre ++ op :: mid)).inService := by
      rw [hrun]
      refine inService_run ?_ hnone'
      refine List.mem_append_left _ ?_
      rw [hclaim]
      exact List.mem_singleton.mpr rfl
    have hfree := hclaimable.free id hin
    rcases claim_best (run_inv init_inv _) hclaim' hclaimable with ⟨h0, -⟩ | ⟨hq, -⟩
    · exact hid h0
    · rw [hfree] at hq
      exact absurd hq (by decide)

/-- Source 1 gets priority 1, is enabled for the first context, raises its line and is claimed. -/
def claimOne : List PlicOp :=
  [.writeU32 0x4 1, .writeU32 0x2000 2, .updateIrqs 2, .checkInterrupts, .readU32 0x200004]

/-- It is claimed again after its line went down, it was completed and its line rose again. -/
theorem claims_completed : (({} : PlicRun).run (claimOne ++ [.updateIrqs 0, .writeU32 0x200004 1, .updateIrqs 2,
      .checkInterrupts])).claim (.readU32 0x200004) = some (0, 1) ∧
    ({} : PlicRun).Claims (claimOne ++ [.updateIrqs 0, .writeU32 0x200004 1, .updateIrqs 2, .checkInterrupts,
      .readU32 0x200004]) := by
  have hquiet : ∀ {s : PlicRun} {op : PlicOp}, s.claim op = none → ∀ ctx id, s.claim op = some (ctx, id) →
      s.Claimable ctx := by
    intro s op hn ctx id h
    rw [hn] at h
    exact absurd h (by simp)
  have hcheck : ∀ {s : PlicRun} {op : PlicOp}, (s.step .checkInterrupts).inService = [] →
      ∀ ctx id, (s.step .checkInterrupts).claim op = some (ctx, id) → (s.step .checkInterrupts).Claimable ctx := by
    intro s op hn ctx id _
    refine ⟨⟨rfl, rfl, rfl, rfl⟩, rfl, fun id hid => ?_⟩
    rw [hn] at hid
    exact absurd hid (by simp)
  refine ⟨by decide, orderly_claims _ ?_⟩
  exact ⟨hquiet rfl, hquiet rfl, hquiet rfl, hquiet rfl, hcheck (by decide),
    hquiet rfl, hquiet rfl, hquiet rfl, hquiet rfl, hcheck (by decide), trivial⟩

/-- A second read of the claim register returns the source again, though nothing is pending, and so does
a claim after the level of its line was taken over once more. -/
theorem claimOne_again : ¬({} : PlicRun).Claims (claimOne ++ [.readU32 0x200004]) ∧
    ¬({} : PlicRun).Claims (claimOne ++ [.updateIrqs 2, .checkInterrupts, .readU32 0x200004]) := by
  have hfirst : (({} : PlicRun).run (claimOne.take 4)).claim (.readU32 0x200004) = some (0, 1) := by decide
  constructor
  · intro h
    obtain ⟨o, ho, -⟩ := h.once (claimOne.take 4) (.readU32 0x200004) [] (.readU32 0x200004) [] 0 0 1 rfl hfirst
      (by decide) (by decide)
    exact absurd ho (by simp)
  · intro h
    obtain ⟨o, ho, hc⟩ := h.once (claimOne.take 4) (.readU32 0x200004) [.updateIrqs 2, .checkInterrupts]
      (.readU32 0x200004) [] 0 0 1 rfl hfirst (by decide) (by decide)
    simp only [List.mem_cons, List.not_mem_nil, or_false] at ho
    rcases ho with rfl | rfl
    · exact absurd hc (by decide)
    · exact absurd hc (by decide)

end PlicRun

end Rvsim
