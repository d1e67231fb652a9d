/-
# The return address stack and its repair

`units/bru/ras.rs`, as the predictors call it: `on_call` pushes, `on_return`
pops, `predict_return` reads the top. A snapshot is the pointer alone. What a
wrong path has pushed at or above the pointer is out of sight once the pointer
is put back; what it has pushed below, after returning past the snapshot or into
the top slot of a full stack, stays.

Key definitions:
  - `Ras`, `Ras.run`, `Ras.lastWrite`, `Ras.Repaired`, `Ras.Spares`
Key theorems:
  - `Ras.run_eq`, `Ras.agree_iff`, `Ras.restore_right`, `Ras.restore_lost`
-/
import Mathlib.Data.List.Basic
import Rvsim.Arch

namespace Rvsim

structure Ras where
  stack : List U64
  ptr : Nat
  capacity : Nat
  deriving DecidableEq, Repr

inductive RasOp where
  | onCall (retAddr : U64)
  | onReturn
  deriving DecidableEq, Repr

namespace Ras

def new (capacity : Nat) : Ras := ⟨List.replicate capacity 0, 0, capacity⟩

/-- A full stack has its last entry overwritten; one of no entries has none, and the index panics. -/
def push (r : Ras) (addr : U64) : Option Ras :=
  if r.ptr < r.capacity then some { r with stack := r.stack.set r.ptr addr, ptr := r.ptr + 1 }
  else if 0 < r.capacity then some { r with stack := r.stack.set (r.capacity - 1) addr }
  else none

def pop (r : Ras) : Option U64 × Ras :=
  if r.ptr = 0 then (none, r) else (r.stack[r.ptr - 1]?, { r with ptr := r.ptr - 1 })

def top (r : Ras) : Option U64 := if r.ptr = 0 then none else r.stack[r.ptr - 1]?

def snapshotPtr (r : Ras) : Nat := r.ptr

def restorePtr (r : Ras) (ptr : Nat) : Ras := { r with ptr := ptr }

def step (r : Ras) : RasOp → Option Ras
  | .onCall retAddr => r.push retAddr
  | .onReturn => some r.pop.2

def run (r : Ras) : List RasOp → Option Ras
  | [] => some r
  | op :: ops => (r.step op).bind fun r => run r ops

structure Sound (r : Ras) : Prop where
  length : r.stack.length = r.capacity
  ptr_le : r.ptr ≤ r.capacity

/-- The stack predicts the returns of every later sequence as the other one does. -/
def SamePredictions (r r' : Ras) : Prop := ∀ later, (r'.run later).map top = (r.run later).map top

/-- The operations run, and with the pointer put back the stack predicts what it would have without them. -/
def Repaired (r : Ras) (ops : List RasOp) : Prop :=
  ∃ r', r.run ops = some r' ∧ r.SamePredictions (r'.restorePtr r.snapshotPtr)

/-- The address that the calls write last into a slot, from some depth on. -/
def lastWrite (capacity slot : Nat) : Nat → List RasOp → Option U64
  | _, [] => none
  | depth, .onReturn :: ops => lastWrite capacity slot (depth - 1) ops
  | depth, .onCall addr :: ops =>
    (lastWrite capacity slot (min (depth + 1) capacity) ops).or
      (if min depth (capacity - 1) = slot then some addr else none)

/-- What is written below the snapshot is, in the end, what was there; and a stack
of no entries is not pushed to. -/
def Spares (r : Ras) (ops : List RasOp) : Prop :=
  (r.capacity = 0 → ∀ op ∈ ops, op = .onReturn) ∧
    ∀ slot < r.ptr, ∀ addr, lastWrite r.capacity slot r.ptr ops = some addr → r.stack[slot]? = some addr

variable {r r' : Ras} {ops : List RasOp}

theorem new_sound (capacity : Nat) : (new capacity).Sound := ⟨List.length_replicate, Nat.zero_le _⟩

theorem Sound.restore (h : r.Sound) {ptr : Nat} (hp : ptr ≤ r.capacity) : (r.restorePtr ptr).Sound := ⟨h.length, hp⟩

theorem run_call (r : Ras) (addr : U64) (ops : List RasOp) :
    r.run (.onCall addr :: ops) = (r.push addr).bind fun r => r.run ops := rfl

/-- A stack of no entries has no last one. -/
theorem push_none (hc : r.capacity = 0) (addr : U64) : r.push addr = none := by
  unfold push
  rw [if_neg (by omega), if_neg (by omega)]

/-- A push to a stack that has entries. -/
theorem push_eq (h : r.Sound) (hpos : 0 < r.capacity) (addr : U64) :
    r.push addr = some ⟨r.stack.set (min r.ptr (r.capacity - 1)) addr, min (r.ptr + 1) r.capacity, r.capacity⟩ := by
  unfold push
  have hle := h.ptr_le
  by_cases hlt : r.ptr < r.capacity
  · rw [if_pos hlt, Nat.min_eq_left (by omega : r.ptr ≤ r.capacity - 1),
      Nat.min_eq_left (by omega : r.ptr + 1 ≤ r.capacity)]
  · rw [if_neg hlt, if_pos hpos, Nat.min_eq_right (by omega : r.capacity - 1 ≤ r.ptr),
      Nat.min_eq_right (by omega : r.capacity ≤ r.ptr + 1), (by omega : r.capacity = r.ptr)]

theorem pop_eq (r : Ras) : r.pop.2 = ⟨r.stack, r.ptr - 1, r.capacity⟩ := by
  unfold pop
  by_cases h : r.ptr = 0
  · rw [if_pos h, h, Nat.zero_sub, ← h]
  · rw [if_neg h]

theorem step_sound (h : r.Sound) (op : RasOp) (hs : r.step op = some r') : r'.Sound ∧ r'.capacity = r.capacity := by
  have hle := h.ptr_le
  cases op with
  | onCall addr =>
    change r.push addr = some r' at hs
    by_cases hpos : 0 < r.capacity
    · rw [push_eq h hpos] at hs
      cases hs
      exact ⟨⟨(List.length_set).trans h.length, Nat.min_le_right _ _⟩, rfl⟩
    · rw [push_none (by omega)] at hs
      cases hs
  | onReturn =>
    cases hs
    rw [pop_eq]
    exact ⟨⟨h.length, by show r.ptr - 1 ≤ r.capacity; omega⟩, rfl⟩

/-! ### What a run leaves in the slots -/

/-- **A run leaves in each slot what its calls wrote there last**, or what was there. -/
theorem run_eq (h : r.Sound) (hops : r.capacity = 0 → ∀ op ∈ ops, op = .onReturn) :
    ∃ r', r.run ops = some r' ∧ r'.Sound ∧ r'.capacity = r.capacity ∧
      ∀ slot < r.capacity, r'.stack[slot]? = (lastWrite r.capacity slot r.ptr ops).or r.stack[slot]? := by
  induction ops generalizing r with
  | nil => exact ⟨r, rfl, h, rfl, fun slot _ => Option.none_or.symm⟩
  | cons op ops ih =>
    have hrest : r.capacity = 0 → ∀ op ∈ ops, op = .onReturn := fun hc o ho => hops hc o (List.mem_cons_of_mem _ ho)
    cases op with
    | onReturn =>
      have hs := step_sound h .onReturn rfl
      obtain ⟨r', hrun, hsound, hcap, hslots⟩ := ih hs.1 (by rw [hs.2]; exact hrest)
      refine ⟨r', hrun, hsound, hcap.trans hs.2, fun slot hslot => ?_⟩
      have hslot' := hslots slot (hs.2.symm ▸ hslot)
      rw [hslot', pop_eq]
      rfl
    | onCall addr =>
      have hpos : 0 < r.capacity := by
        by_contra hzero
        exact absurd (hops (by omega) _ List.mem_cons_self) (by simp)
      have hstep : r.step (.onCall addr) = _ := push_eq h hpos addr
      have hs := step_sound h _ hstep
      obtain ⟨r', hrun, hsound, hcap, hslots⟩ := ih hs.1 hrest
      refine ⟨r', by unfold run; rw [hstep]; exact hrun, hsound, hcap, fun slot hslot => ?_⟩
      rw [hslots slot hslot]
      have hset : (r.stack.set (min r.ptr (r.capacity - 1)) addr)[slot]? =
          (if min r.ptr (r.capacity - 1) = slot then some addr else none).or r.stack[slot]? := by
        rw [List.getElem?_set]
        by_cases heq : min r.ptr (r.capacity - 1) = slot
        · rw [if_pos heq, if_pos (by rw [h.length, heq]; exact hslot), if_pos heq]
          rfl
        · rw [if_neg heq, if_neg heq]
          rfl
      show (lastWrite r.capacity slot (min (r.ptr + 1) r.capacity) ops).or
        (r.stack.set (min r.ptr (r.capacity - 1)) addr)[slot]? = _
      rw [hset, ← Option.or_assoc]
      rfl

/-- Calls to a stack of no entries do not run. -/
theorem returns_of_run (hc : r.capacity = 0) (hr : r.run ops = some r') : ∀ op ∈ ops, op = .onReturn := by
  induction ops generalizing r with
  | nil => exact fun op ho => absurd ho List.not_mem_nil
  | cons op ops ih =>
    cases op with
    | onReturn =>
      have hcap : r.pop.2.capacity = 0 := by
        rw [pop_eq]
        exact hc
      exact List.forall_mem_cons.mpr ⟨rfl, ih hcap hr⟩
    | onCall addr =>
      rw [run_call, push_none hc] at hr
      cases hr

/-! ### What is predicted -/

/-- Two stacks that hold the same below one pointer. -/
structure Agree (r r' : Ras) : Prop where
  sound : r.Sound
  sound' : r'.Sound
  capacity : r'.capacity = r.capacity
  ptr : r'.ptr = r.ptr
  slots : ∀ slot < r.ptr, r'.stack[slot]? = r.stack[slot]?

theorem Agree.top (h : Agree r r') : r'.top = r.top := by
  unfold Ras.top
  rw [h.ptr]
  by_cases hp : r.ptr = 0
  · rw [if_pos hp, if_pos hp]
  · rw [if_neg hp, if_neg hp]
    exact h.slots _ (by omega)

theorem Agree.push (h : Agree r r') (hpos : 0 < r.capacity) (addr : U64) :
    ∃ q q', r.push addr = some q ∧ r'.push addr = some q' ∧ Agree q q' := by
  have hpush := push_eq h.sound hpos addr
  have hpush' := push_eq h.sound' (by rw [h.capacity]; exact hpos) addr
  refine ⟨_, _, hpush, hpush', (step_sound h.sound (.onCall addr) hpush).1,
    (step_sound h.sound' (.onCall addr) hpush').1, h.capacity, ?_, fun slot hslot => ?_⟩
  · rw [h.ptr, h.capacity]
  · have hslot : slot < min (r.ptr + 1) r.capacity := hslot
    have hle := h.sound.ptr_le
    have hlen := h.sound.length
    have hlen' := h.sound'.length
    have hcap := h.capacity
    show (r'.stack.set (min r'.ptr (r'.capacity - 1)) addr)[slot]? =
        (r.stack.set (min r.ptr (r.capacity - 1)) addr)[slot]?
    rw [h.ptr, h.capacity, List.getElem?_set, List.getElem?_set]
    by_cases heq : min r.ptr (r.capacity - 1) = slot
    · rw [if_pos heq, if_pos heq, if_pos (by omega), if_pos (by omega)]
    · rw [if_neg heq, if_neg heq]
      exact h.slots slot (by omega)

theorem Agree.samePredictions (h : Agree r r') : r.SamePredictions r' := by
  intro later
  induction later generalizing r r' with
  | nil => exact congrArg some h.top
  | cons op later ih =>
    cases op with
    | onReturn =>
      have hs := step_sound h.sound .onReturn rfl
      have hs' := step_sound h.sound' .onReturn rfl
      suffices hpop : Agree r.pop.2 r'.pop.2 from ih hpop
      refine ⟨hs.1, hs'.1, ?_, ?_, fun slot hslot => ?_⟩
      · rw [pop_eq, pop_eq]
        exact h.capacity
      · rw [pop_eq, pop_eq]
        exact congrArg (· - 1) h.ptr
      · rw [pop_eq] at hslot ⊢
        rw [pop_eq]
        have hslot : slot < r.ptr - 1 := hslot
        exact h.slots slot (by omega)
    | onCall addr =>
      by_cases hpos : 0 < r.capacity
      · obtain ⟨q, q', hq, hq', hagree⟩ := h.push hpos addr
        rw [run_call, run_call, hq, hq']
        exact ih hagree
      · have hzero : r.capacity = 0 := by omega
        rw [run_call, run_call, push_none hzero, push_none (h.capacity.trans hzero)]

/-- Returns alone bring the top down to any slot. -/
theorem run_returns (r : Ras) (n : Nat) :
    r.run (List.replicate n .onReturn) = some ⟨r.stack, r.ptr - n, r.capacity⟩ := by
  induction n generalizing r with
  | zero => rfl
  | succ n ih =>
    have hstep : r.run (List.replicate (n + 1) .onReturn) = r.pop.2.run (List.replicate n .onReturn) := rfl
    rw [hstep, ih, pop_eq]
    dsimp only
    rw [Nat.sub_sub, Nat.add_comm 1 n]

/-- **Stacks with one pointer predict the same just when they hold the same below it.** -/
theorem agree_iff (h : r.Sound) (h' : r'.Sound) (hcap : r'.capacity = r.capacity) (hptr : r'.ptr = r.ptr) :
    r.SamePredictions r' ↔ ∀ slot < r.ptr, r'.stack[slot]? = r.stack[slot]? := by
  constructor
  · intro hsame slot hslot
    have hk := hsame (List.replicate (r.ptr - 1 - slot) .onReturn)
    rw [run_returns, run_returns, hptr, Option.map_some, Option.map_some, Option.some_inj] at hk
    have hdepth : r.ptr - (r.ptr - 1 - slot) = slot + 1 := by omega
    unfold top at hk
    dsimp only at hk
    rw [hdepth, if_neg (Nat.succ_ne_zero slot), if_neg (Nat.succ_ne_zero slot), Nat.add_sub_cancel] at hk
    exact hk
  · exact fun hslots => Agree.samePredictions ⟨h, h', hcap, hptr, hslots⟩

/-- **The repair gives back every prediction just when the wrong path has left what
it wrote below the snapshot as it was.** -/
theorem restore_right (h : r.Sound) (ops : List RasOp) : r.Repaired ops ↔ r.Spares ops := by
  have hiff : ∀ r', r.run ops = some r' → r'.Sound → r'.capacity = r.capacity →
      (∀ slot < r.capacity, r'.stack[slot]? = (lastWrite r.capacity slot r.ptr ops).or r.stack[slot]?) →
      (r.SamePredictions (r'.restorePtr r.snapshotPtr) ↔
        ∀ slot < r.ptr, ∀ addr, lastWrite r.capacity slot r.ptr ops = some addr → r.stack[slot]? = some addr) := by
    intro r' _ hsound hcap hslots
    have hle := h.ptr_le
    have hrestored : (r'.restorePtr r.snapshotPtr).Sound := hsound.restore (by rw [hcap]; exact hle)
    rw [agree_iff h hrestored hcap rfl]
    refine forall_congr' fun slot => forall_congr' fun hslot => ?_
    show r'.stack[slot]? = r.stack[slot]? ↔ _
    rw [hslots slot (by omega)]
    cases lastWrite r.capacity slot r.ptr ops with
    | none => simp
    | some a => simp [eq_comm]
  constructor
  · rintro ⟨r', hrun, hsame⟩
    have hops : r.capacity = 0 → ∀ op ∈ ops, op = .onReturn := fun hc => returns_of_run hc hrun
    obtain ⟨q, hq, hsound, hcap, hslots⟩ := run_eq h hops
    obtain rfl : q = r' := Option.some.inj (hq.symm.trans hrun)
    exact ⟨hops, (hiff q hq hsound hcap hslots).mp hsame⟩
  · rintro ⟨hops, hwrites⟩
    obtain ⟨r', hrun, hsound, hcap, hslots⟩ := run_eq h hops
    exact ⟨r', hrun, (hiff r' hrun hsound hcap hslots).mpr hwrites⟩

/-- Two calls deep in a stack of four. -/
def twoDeep : Ras := ⟨[0x100, 0x200, 0, 0], 2, 4⟩

/-- A call and its return write above the snapshot only. -/
theorem restore_right_twoDeep : twoDeep.Spares [.onCall 0x300, .onReturn] ∧
    twoDeep.Repaired [.onCall 0x300, .onReturn] := by
  have hspares : twoDeep.Spares [.onCall 0x300, .onReturn] := by
    have hnone :
        ∀ slot < twoDeep.ptr, lastWrite twoDeep.capacity slot twoDeep.ptr [.onCall 0x300, .onReturn] = none := by
      decide
    refine ⟨fun hc => absurd hc (by decide), fun slot hslot addr hw => ?_⟩
    rw [hnone slot hslot] at hw
    cases hw
  exact ⟨hspares, (restore_right ⟨rfl, by decide⟩ _).mpr hspares⟩

/-- **A return and a call on the wrong path** leave the call's address where the
caller's was. -/
theorem restore_lost : twoDeep.Sound ∧ ¬ twoDeep.Repaired [.onReturn, .onCall 0x300] := by
  refine ⟨⟨rfl, by decide⟩, ?_⟩
  rintro ⟨r', hrun, hsame⟩
  cases hrun
  exact absurd (hsame []) (by decide)

end Ras

end Rvsim
