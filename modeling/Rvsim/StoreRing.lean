/-
# The store buffer as a ring

`pipeline/store_buffer.rs` as the source lays it out: one circular buffer for
pending, resolved, committed and cancelled stores. The ring refines the list
model `StoreBuffer` for every sequence of calls. Called as the pipelines call
it, it hands out the committed stores in program order and nothing else but
the slots of failed store-conditionals.

Key definitions:
  - `StoreRing`, `StoreOp`, `StoreLog`, `StoreLog.Legal`
Key theorems:
  - `StoreRing.Refines.step`, `StoreLog.Inv.step`, `StoreRing.run_drains`
-/
import Rvsim.LoadStore
import Rvsim.RobRing

namespace Rvsim

structure StoreSlot where
  entry : StoreBufferEntry
  valid : Bool := true
  deriving DecidableEq, Repr

namespace StoreSlot

/-- `StoreBufferEntry::default()`. -/
def vacant : StoreSlot := ⟨{ robTag := 0, width := .nop }, false⟩

def invalidate (s : StoreSlot) : StoreSlot := { s with valid := false }

/-- The test of `find_by_tag_mut`. -/
def hasTag (tag : RobTag) (s : StoreSlot) : Bool := s.valid && s.entry.robTag == tag

end StoreSlot

structure StoreRing where
  ring : Circular StoreSlot

namespace StoreRing

def new (capacity : Nat) : StoreRing := ⟨⟨List.replicate capacity .vacant, 0, 0, 0⟩⟩

def allocate (b : StoreRing) (tag : RobTag) (width : MemWidth) : Bool × StoreRing :=
  if b.ring.count = b.ring.cap then (false, b)
  else (true, ⟨b.ring.push { entry := { robTag := tag, width } }⟩)

/-- What a change through `find_by_tag_mut` does. -/
def modify (b : StoreRing) (tag : RobTag) (f : StoreBufferEntry → StoreBufferEntry) : StoreRing :=
  match b.ring.scan (StoreSlot.hasTag tag) b.ring.count b.ring.head with
  | none => b
  | some i => ⟨b.ring.modify i fun s => { s with entry := f s.entry }⟩

def resolve (b : StoreRing) (tag : RobTag) (vaddr : VirtAddr) (paddr : PhysAddr) (data : U64) :
    StoreRing :=
  b.modify tag fun e => { e with vaddr, resolution := .ready paddr data }

def markCommitted (b : StoreRing) (tag : RobTag) : StoreRing := b.modify tag StoreBuffer.commitEntry

def drainOne (b : StoreRing) : Option StoreBufferEntry × StoreRing :=
  if b.ring.count = 0 then (none, b)
  else
    match b.ring.slots[b.ring.head]? with
    | none => (none, b)
    | some s =>
      if !s.valid || !s.entry.resolution.isCommitted then (none, b)
      else (some s.entry, ⟨b.ring.pop StoreSlot.invalidate⟩)

def flushSpeculative (b : StoreRing) : StoreRing :=
  if b.ring.count = 0 then b
  else ⟨b.ring.compact (fun s => s.valid && s.entry.resolution.isCommitted) StoreSlot.invalidate⟩

def flushAfter (b : StoreRing) (keep : RobTag) : StoreRing :=
  if b.ring.count = 0 then b
  else ⟨b.ring.compact (fun s => s.valid && RobTag.isOlderOrEq s.entry.robTag keep) StoreSlot.invalidate⟩

def prevTail (b : StoreRing) : Nat := if b.ring.tail = 0 then b.ring.cap - 1 else b.ring.tail - 1

/-- Retract the entry when it is the youngest, else leave a cancelled slot to drain. -/
def cancel (b : StoreRing) (tag : RobTag) : StoreRing :=
  match b.ring.scan (StoreSlot.hasTag tag) b.ring.count b.ring.head with
  | none => b
  | some i =>
    if i = b.prevTail then
      ⟨⟨b.ring.slots.modify i StoreSlot.invalidate, b.ring.head, b.prevTail, b.ring.count - 1⟩⟩
    else ⟨b.ring.modify i fun s => { s with entry := { s.entry with resolution := .cancelled } }⟩

/-- The live entries, oldest first. -/
def live (b : StoreRing) : List StoreBufferEntry :=
  (List.range b.ring.count).filterMap fun i =>
    (b.ring.slots[b.ring.index i]?).bind fun s => if s.valid then some s.entry else none

end StoreRing

/-! ### Calls -/

/-- A call on the buffer. New stores and the instruction a flush keeps are given by the number of
their allocation in the reorder buffer. -/
inductive StoreOp where
  | allocate (n : Nat) (width : MemWidth)
  | resolve (tag : RobTag) (vaddr : VirtAddr) (paddr : PhysAddr) (data : U64)
  | markCommitted (tag : RobTag)
  | cancel (tag : RobTag)
  | drainOne
  | flushSpeculative
  | flushAfter (n : Nat)
  deriving DecidableEq, Repr

/-- What a call returns. -/
inductive StoreReply where
  | accepted (b : Bool)
  | drained (e : Option StoreBufferEntry)
  | unit
  deriving DecidableEq, Repr

def StoreRing.step (b : StoreRing) : StoreOp → StoreReply × StoreRing
  | .allocate n w => (.accepted (b.allocate (RobFifo.tagOf n) w).1, (b.allocate (RobFifo.tagOf n) w).2)
  | .resolve t v p d => (.unit, b.resolve t v p d)
  | .markCommitted t => (.unit, b.markCommitted t)
  | .cancel t => (.unit, b.cancel t)
  | .drainOne => (.drained b.drainOne.1, b.drainOne.2)
  | .flushSpeculative => (.unit, b.flushSpeculative)
  | .flushAfter n => (.unit, b.flushAfter (RobFifo.tagOf n))

def StoreBuffer.step (b : StoreBuffer) : StoreOp → StoreReply × StoreBuffer
  | .allocate n w => (.accepted (b.allocate (RobFifo.tagOf n) w).1, (b.allocate (RobFifo.tagOf n) w).2)
  | .resolve t v p d => (.unit, b.resolve t v p d)
  | .markCommitted t => (.unit, b.markCommitted t)
  | .cancel t => (.unit, b.cancel t)
  | .drainOne =>
    match b.drainOne with
    | none => (.drained none, b)
    | some (e, b) => (.drained (some e), b)
  | .flushSpeculative => (.unit, b.flushSpeculative)
  | .flushAfter n => (.unit, b.flushAfter (RobFifo.tagOf n))

/-! ### The ring refines the list -/

namespace StoreRing

/-- The slots in use hold the list's entries, all valid; no other slot is valid. -/
structure Refines (b : StoreRing) (l : StoreBuffer) : Prop where
  wf : b.ring.WF
  cap : b.ring.cap = l.capacity
  contents : b.ring.contents = l.entries.map fun e => ⟨e, true⟩
  spare : ∀ s ∈ b.ring.spare, s.valid = false

variable {b : StoreRing} {l : StoreBuffer}

theorem Refines.count (h : b.Refines l) : b.ring.count = l.entries.length := by
  rw [← Circular.length_contents h.wf, h.contents, List.length_map]

theorem Refines.new (capacity : Nat) : (new capacity).Refines (StoreBuffer.new capacity) where
  wf := ⟨Nat.zero_mod _, (Nat.zero_mod _).symm, Nat.zero_le _⟩
  cap := List.length_replicate
  contents := List.take_zero
  spare := by
    intro s hs
    have hmem : s ∈ List.replicate capacity StoreSlot.vacant := by
      rw [← List.mem_rotate (n := 0)]
      exact List.mem_of_mem_drop hs
    rw [List.eq_of_mem_replicate hmem]
    rfl

/-- **The count is the number of live slots.** -/
theorem Refines.count_valid (h : b.Refines l) : b.ring.slots.countP (fun s => s.valid) = b.ring.count := by
  have hperm : b.ring.slots.countP (fun s => s.valid) = b.ring.unrolled.countP fun s => s.valid :=
    ((List.rotate_perm b.ring.slots b.ring.head).countP_eq _).symm
  have hsplit : b.ring.unrolled = b.ring.contents ++ b.ring.spare := (List.take_append_drop _ _).symm
  rw [hperm, hsplit, List.countP_append, List.countP_eq_length.mpr, List.countP_eq_zero.mpr,
    Circular.length_contents h.wf, Nat.add_zero]
  · intro s hs
    rw [h.spare s hs]
    simp
  · intro s hs
    rw [h.contents] at hs
    obtain ⟨e, -, rfl⟩ := List.mem_map.mp hs
    rfl

theorem Refines.live (h : b.Refines l) : b.live = l.entries := by
  unfold StoreRing.live
  rw [Circular.filterMap_index h.wf, h.contents, List.filterMap_map]
  exact List.filterMap_some

theorem Refines.allocate (h : b.Refines l) (tag : RobTag) (width : MemWidth) :
    (b.allocate tag width).1 = (l.allocate tag width).1 ∧
      (b.allocate tag width).2.Refines (l.allocate tag width).2 := by
  have hcount := h.count
  have hle := h.wf.count
  have hcap := h.cap
  unfold StoreRing.allocate StoreBuffer.allocate StoreBuffer.isFull
  by_cases hfull : b.ring.count = b.ring.cap
  · rw [if_pos hfull, if_pos (by simp; omega)]
    exact ⟨rfl, h⟩
  · rw [if_neg hfull, if_neg (by simp; omega)]
    refine ⟨rfl, Circular.wf_push h.wf _ (by omega), (Circular.cap_push _ _).trans h.cap, ?_, ?_⟩
    · rw [Circular.contents_push h.wf _ (by omega), h.contents, List.map_append]
      rfl
    · intro s hs
      rw [Circular.spare_push h.wf _ (by omega)] at hs
      exact h.spare s (List.mem_of_mem_tail hs)

/-- The loop of `find_by_tag_mut` and `cancel`. -/
theorem Refines.scan (h : b.Refines l) (tag : RobTag) :
    b.ring.scan (StoreSlot.hasTag tag) b.ring.count b.ring.head =
      (l.entries.findIdx? fun e => e.robTag == tag).map b.ring.index := by
  rw [Circular.scan_eq h.wf, h.contents, List.findIdx?_map]
  rfl

theorem modifyFirst_eq (tag : RobTag) (f : StoreBufferEntry → StoreBufferEntry) (es : List StoreBufferEntry) :
    StoreBuffer.modifyFirst tag f es =
      match es.findIdx? fun e => e.robTag == tag with
      | none => es
      | some k => es.modify k f := by
  induction es with
  | nil => rfl
  | cons e es ih =>
    rw [StoreBuffer.modifyFirst, List.findIdx?_cons]
    by_cases ht : e.robTag = tag
    · rw [if_pos ht, if_pos (by simpa using ht)]
      rfl
    · rw [if_neg ht, if_neg (by simpa using ht), ih]
      cases es.findIdx? fun e => e.robTag == tag <;> rfl

theorem cancelFirst_eq (tag : RobTag) (es : List StoreBufferEntry) :
    StoreBuffer.cancelFirst tag es =
      match es.findIdx? fun e => e.robTag == tag with
      | none => es
      | some k =>
        if k + 1 = es.length then es.take k else es.modify k fun e => { e with resolution := .cancelled } := by
  induction es with
  | nil => rfl
  | cons e es ih =>
    rw [StoreBuffer.cancelFirst, List.findIdx?_cons]
    by_cases ht : e.robTag = tag
    · have hb : (e.robTag == tag) = true := by simpa using ht
      rw [if_pos ht, hb]
      cases es <;> rfl
    · have hb : (e.robTag == tag) = false := by simpa using ht
      rw [if_neg ht, hb, ih]
      cases es.findIdx? fun e => e.robTag == tag with
      | none => rfl
      | some k =>
        simp only [Bool.false_eq_true, if_false, Option.map_some, List.length_cons,
          Nat.add_right_cancel_iff]
        split <;> rfl

theorem Refines.lt_count (h : b.Refines l) {tag : RobTag} {k : Nat}
    (hk : l.entries.findIdx? (fun e => e.robTag == tag) = some k) : k < b.ring.count := by
  rw [h.count]
  exact (List.findIdx?_eq_some_iff_getElem.mp hk).1

/-- Rewriting the entry at place `k`. -/
theorem Refines.modifyAt (h : b.Refines l) (f : StoreBufferEntry → StoreBufferEntry) {k : Nat}
    (hk : k < b.ring.count) :
    Refines ⟨b.ring.modify (b.ring.index k) fun s => { s with entry := f s.entry }⟩
      { l with entries := l.entries.modify k f } := by
  obtain ⟨hc, hsp⟩ := Circular.contents_modify h.wf (fun s : StoreSlot => { s with entry := f s.entry }) hk
  refine ⟨Circular.wf_modify h.wf _ _, (Circular.cap_modify _ _ _).trans h.cap, ?_, ?_⟩
  · rw [hc, h.contents]
    refine List.ext_getElem? fun j => ?_
    simp only [List.getElem?_modify, List.getElem?_map]
    cases l.entries[j]? with
    | none => rfl
    | some e =>
      show some _ = some _
      split <;> rfl
  · intro s hs
    exact h.spare s (hsp ▸ hs)

theorem Refines.modify (h : b.Refines l) (tag : RobTag) (f : StoreBufferEntry → StoreBufferEntry) :
    (b.modify tag f).Refines { l with entries := StoreBuffer.modifyFirst tag f l.entries } := by
  unfold StoreRing.modify
  rw [h.scan, modifyFirst_eq]
  cases hk : l.entries.findIdx? fun e => e.robTag == tag with
  | none => exact h
  | some k => exact h.modifyAt f (h.lt_count hk)

theorem Refines.cancel (h : b.Refines l) (tag : RobTag) : (b.cancel tag).Refines (l.cancel tag) := by
  unfold StoreRing.cancel StoreBuffer.cancel
  rw [h.scan, cancelFirst_eq]
  cases hk : l.entries.findIdx? fun e => e.robTag == tag with
  | none => exact h
  | some k =>
    have hlt := h.lt_count hk
    have hle := h.wf.count
    have hprev : b.prevTail = b.ring.index (b.ring.count - 1) := by
      rw [← Circular.prev_index b.ring (k := b.ring.count - 1) (by omega), prevTail, h.wf.tail,
        Nat.sub_add_cancel (by omega)]
    simp only [Option.map_some, hprev, Circular.index_inj b.ring (show k < b.ring.cap by omega)
      (show b.ring.count - 1 < b.ring.cap by omega), ← h.count]
    by_cases hlast : k + 1 = b.ring.count
    · -- the youngest store: the tail steps back over it
      rw [if_pos (by omega), if_pos hlast]
      have hk' : b.ring.count - 1 = k := by omega
      rw [hk']
      obtain ⟨hc, hsp⟩ := Circular.contents_modify h.wf StoreSlot.invalidate hlt
      have hwf := Circular.wf_modify h.wf (b.ring.index k) StoreSlot.invalidate
      have hidx : (b.ring.modify (b.ring.index k) StoreSlot.invalidate).index k = b.ring.index k := by
        rw [Circular.index, Circular.cap_modify]
        rfl
      have hcut : (⟨⟨b.ring.slots.modify (b.ring.index k) StoreSlot.invalidate, b.ring.head,
          b.ring.index k, k⟩⟩ : StoreRing) =
          ⟨(b.ring.modify (b.ring.index k) StoreSlot.invalidate).cut k⟩ := by
        rw [Circular.cut, hidx]
        rfl
      rw [hcut]
      have hkc : k ≤ (b.ring.modify (b.ring.index k) StoreSlot.invalidate).count := by
        show k ≤ b.ring.count
        omega
      refine ⟨Circular.wf_cut hwf hkc, (Circular.cap_modify _ _ _).trans h.cap, ?_, ?_⟩
      · show Circular.contents _ = _
        rw [Circular.contents_cut hkc, hc, h.contents, List.map_take]
        refine List.ext_getElem? fun j => ?_
        simp only [List.getElem?_take]
        by_cases hj : j < k
        · rw [if_pos hj, if_pos hj, List.getElem?_modify_ne _ _ (by omega)]
        · rw [if_neg hj, if_neg hj]
      · intro s hs
        rw [Circular.spare_cut hwf hkc, hc, hsp] at hs
        rcases List.mem_append.mp hs with hs | hs
        · obtain ⟨j, hj⟩ := List.mem_iff_getElem?.mp hs
          have hjlt := (List.getElem?_eq_some_iff.mp hj).1
          rw [List.length_drop, List.length_modify, Circular.length_contents h.wf] at hjlt
          have hj0 : j = 0 := by omega
          subst hj0
          rw [List.getElem?_drop, Nat.add_zero, List.getElem?_modify_eq] at hj
          obtain ⟨x, -, rfl⟩ := Option.map_eq_some_iff.mp hj
          rfl
        · exact h.spare s hs
    · rw [if_neg (by omega), if_neg hlast]
      exact h.modifyAt (fun e => { e with resolution := .cancelled }) hlt

theorem Refines.drainOne (h : b.Refines l) :
    b.drainOne.1 = l.drainOne.map (·.1) ∧ b.drainOne.2.Refines ((l.drainOne.map (·.2)).getD l) := by
  have hcount := h.count
  unfold StoreRing.drainOne StoreBuffer.drainOne
  cases hl : l.entries with
  | nil =>
    rw [if_pos (by rw [hcount, hl]; rfl)]
    exact ⟨rfl, h⟩
  | cons e rest =>
    have hpos : 0 < b.ring.count := by rw [hcount, hl]; simp
    have hc : b.ring.contents = ⟨e, true⟩ :: rest.map fun e => ⟨e, true⟩ := by
      rw [h.contents, hl, List.map_cons]
    rw [if_neg (by omega), Circular.getElem?_head h.wf hpos, hc]
    simp only [List.head?_cons, Bool.not_true, Bool.false_or]
    by_cases he : e.resolution.isCommitted = true
    · rw [if_neg (by simp [he]), if_pos he]
      obtain ⟨hc', hsp⟩ := Circular.contents_pop h.wf StoreSlot.invalidate hc
      refine ⟨rfl, Circular.wf_pop h.wf _ hpos, (Circular.cap_pop _ _).trans h.cap, hc', ?_⟩
      intro s hs
      rw [hsp] at hs
      rcases List.mem_append.mp hs with hs | hs
      · exact h.spare s hs
      · rw [List.mem_singleton.mp hs]
        rfl
    · rw [if_pos (by simp [he]), if_neg he]
      exact ⟨rfl, h⟩

/-- Both flushes compact the buffer by a test on its entries. -/
theorem Refines.compact (h : b.Refines l) (keep : StoreBufferEntry → Bool) :
    Refines (if b.ring.count = 0 then b
      else ⟨b.ring.compact (fun s => s.valid && keep s.entry) StoreSlot.invalidate⟩)
      { l with entries := l.entries.filter keep } := by
  by_cases h0 : b.ring.count = 0
  · rw [if_pos h0]
    have hnil : l.entries = [] := by
      rw [h.count] at h0
      exact List.length_eq_zero_iff.mp h0
    rw [hnil, List.filter_nil, ← hnil]
    exact h
  · rw [if_neg h0]
    obtain ⟨hwf, hcap, hc, hsp⟩ :=
      Circular.contents_compact h.wf (fun s => s.valid && keep s.entry) StoreSlot.invalidate
    refine ⟨hwf, hcap.trans h.cap, ?_, ?_⟩
    · rw [hc, h.contents, List.filter_map]
      rfl
    · intro s hs
      rcases hsp s hs with hs | ⟨x, -, rfl⟩
      · exact h.spare s hs
      · rfl

/-- **The ring does what the list does**, call by call. -/
theorem Refines.step (h : b.Refines l) (op : StoreOp) :
    (b.step op).1 = (l.step op).1 ∧ (b.step op).2.Refines (l.step op).2 := by
  cases op with
  | allocate n w =>
    obtain ⟨hr, href⟩ := h.allocate (RobFifo.tagOf n) w
    exact ⟨by rw [StoreRing.step, hr]; rfl, href⟩
  | resolve t v p d =>
    exact ⟨rfl, h.modify t fun e => { e with vaddr := v, resolution := .ready p d }⟩
  | markCommitted t => exact ⟨rfl, h.modify t StoreBuffer.commitEntry⟩
  | cancel t => exact ⟨rfl, h.cancel t⟩
  | drainOne =>
    obtain ⟨hr, href⟩ := h.drainOne
    rw [StoreRing.step, StoreBuffer.step, hr]
    cases hd : l.drainOne with
    | none => exact ⟨rfl, by rw [hd] at href; exact href⟩
    | some d => exact ⟨rfl, by rw [hd] at href; exact href⟩
  | flushSpeculative => exact ⟨rfl, h.compact fun e => e.resolution.isCommitted⟩
  | flushAfter n => exact ⟨rfl, h.compact fun e => RobTag.isOlderOrEq e.robTag (RobFifo.tagOf n)⟩

end StoreRing

/-! ### Stores in program order -/

/-- A store that has been committed and not cancelled. -/
def StoreBufferEntry.isDone (e : StoreBufferEntry) : Bool :=
  match e.resolution with
  | .committed _ _ => true
  | _ => false

/-- Resolved, and not yet retired. -/
def StoreBufferEntry.isReady (e : StoreBufferEntry) : Bool :=
  match e.resolution with
  | .ready _ _ => true
  | _ => false

/-- The buffer with the history of its stores: the live ones under the numbers of their
allocation, those `mark_committed` has committed and those `drain_one` has returned. -/
structure StoreLog where
  capacity : Nat
  items : List (Nat × StoreBufferEntry)
  next : Nat
  committed : List (Nat × StoreBufferEntry)
  drained : List (Nat × StoreBufferEntry)

namespace StoreLog

def new (capacity : Nat) : StoreLog := ⟨capacity, [], 0, [], []⟩

def buffer (q : StoreLog) : StoreBuffer := ⟨q.capacity, q.items.map (·.2)⟩

/-- Rewrite the store with this tag. -/
def modify (q : StoreLog) (tag : RobTag) (f : StoreBufferEntry → StoreBufferEntry) : StoreLog :=
  { q with items := q.items.map fun i => if i.2.robTag = tag then (i.1, f i.2) else i }

def step (q : StoreLog) : StoreOp → StoreLog
  | .allocate n w =>
    if q.items.length = q.capacity then { q with next := n + 1 }
    else { q with items := q.items ++ [(n, { robTag := RobFifo.tagOf n, width := w })], next := n + 1 }
  | .resolve t v p d => q.modify t fun e => { e with vaddr := v, resolution := .ready p d }
  | .markCommitted t =>
    { q.modify t StoreBuffer.commitEntry with
      committed := q.committed ++
        (q.items.filter fun i => i.2.robTag == t).map fun i => (i.1, StoreBuffer.commitEntry i.2) }
  | .cancel t =>
    match q.items.getLast? with
    | none => q
    | some i =>
      if i.2.robTag = t then { q with items := q.items.dropLast }
      else q.modify t fun e => { e with resolution := .cancelled }
  | .drainOne =>
    match q.items with
    | [] => q
    | i :: rest =>
      if i.2.resolution.isCommitted then { q with items := rest, drained := q.drained ++ [i] } else q
  | .flushSpeculative => { q with items := q.items.filter fun i => i.2.resolution.isCommitted }
  | .flushAfter n => { q with items := q.items.filter fun i => decide (i.1 ≤ n) }

/-- `t` is the oldest store not yet committed or cancelled. -/
def Oldest (q : StoreLog) (t : RobTag) : Prop :=
  (q.items.find? fun i => !i.2.resolution.isCommitted).map (·.2.robTag) = some t

/-- How the pipelines call the buffer. Rename allocates under a tag just given out. Memory2
resolves stores that have not retired. Commit retires in order: it marks the oldest store, resolved
by then, or cancels it. A flush behind an instruction keeps one that has not retired, so it lies
behind every committed store. Tags in use together are less than `2^31` apart. -/
def Legal (q : StoreLog) : StoreOp → Prop
  | .allocate n _ => q.next ≤ n ∧ ∀ i ∈ q.items, n < i.1 + 2 ^ 31
  | .resolve t _ _ _ => ∀ i ∈ q.items, i.2.robTag = t → i.2.resolution.isCommitted = false
  | .markCommitted t =>
    q.Oldest t ∧ ∀ i ∈ q.items, i.2.robTag = t → i.2.isReady = true
  | .cancel t => q.Oldest t
  | .drainOne => True
  | .flushSpeculative => True
  | .flushAfter n =>
    ∀ i ∈ q.items, (i.2.resolution.isCommitted = true → i.1 ≤ n) ∧ i.1 < n + 2 ^ 31 ∧ n < i.1 + 2 ^ 31

instance (q : StoreLog) : ∀ op, Decidable (q.Legal op)
  | .allocate n _ => inferInstanceAs (Decidable (q.next ≤ n ∧ ∀ i ∈ q.items, n < i.1 + 2 ^ 31))
  | .resolve t _ _ _ =>
    inferInstanceAs (Decidable (∀ i ∈ q.items, i.2.robTag = t → i.2.resolution.isCommitted = false))
  | .markCommitted t =>
    inferInstanceAs (Decidable (_ = some t ∧ ∀ i ∈ q.items, i.2.robTag = t → i.2.isReady = true))
  | .cancel t => inferInstanceAs (Decidable (_ = some t))
  | .drainOne => inferInstanceAs (Decidable True)
  | .flushSpeculative => inferInstanceAs (Decidable True)
  | .flushAfter n =>
    inferInstanceAs (Decidable (∀ i ∈ q.items,
      (i.2.resolution.isCommitted = true → i.1 ≤ n) ∧ i.1 < n + 2 ^ 31 ∧ n < i.1 + 2 ^ 31))

/-- Every call of the sequence is one the pipelines make. -/
def LegalRun (q : StoreLog) : List StoreOp → Prop
  | [] => True
  | op :: ops => q.Legal op ∧ LegalRun (q.step op) ops

instance decidableLegalRun : ∀ (q : StoreLog) (ops : List StoreOp), Decidable (q.LegalRun ops)
  | _, [] => inferInstanceAs (Decidable True)
  | q, op :: ops =>
    have := decidableLegalRun (q.step op) ops
    inferInstanceAs (Decidable (q.Legal op ∧ LegalRun (q.step op) ops))

theorem Oldest.split {q : StoreLog} {t : RobTag} (h : q.Oldest t) :
    ∃ older i younger, q.items = older ++ i :: younger ∧
      (∀ j ∈ older, j.2.resolution.isCommitted = true) ∧ i.2.resolution.isCommitted = false ∧
      i.2.robTag = t := by
  obtain ⟨i, hi, ht⟩ := Option.map_eq_some_iff.mp h
  obtain ⟨hlive, older, younger, hq, hold⟩ := List.find?_eq_some_iff_append.mp hi
  exact ⟨older, i, younger, hq, fun j hj => by simpa using hold j hj, by simpa using hlive, ht⟩

def run (q : StoreLog) (ops : List StoreOp) : StoreLog := ops.foldl step q

/-- The stores ever drained or still live stand in program order, with the retired ones in front;
those that committed are the committed ones drained and the committed ones still live. -/
structure Inv (q : StoreLog) : Prop where
  sorted : (q.drained ++ q.items).Pairwise fun a b => a.1 < b.1
  bound : ∀ i ∈ q.drained ++ q.items, i.1 < q.next
  tags : ∀ i ∈ q.items, i.2.robTag = RobFifo.tagOf i.1
  span : ∀ a ∈ q.items, ∀ b ∈ q.items, b.1 < a.1 + 2 ^ 31
  retired : q.items.Pairwise fun a b => b.2.resolution.isCommitted = true → a.2.resolution.isCommitted = true
  done : q.drained.filter (fun i => i.2.isDone) ++ q.items.filter (fun i => i.2.isDone) = q.committed
  out : ∀ i ∈ q.drained, i.2.resolution.isCommitted = true

variable {q : StoreLog}

theorem Inv.new (capacity : Nat) : (new capacity).Inv :=
  ⟨List.Pairwise.nil, by simp [StoreLog.new], by simp [StoreLog.new], by simp [StoreLog.new],
    List.Pairwise.nil, rfl, by simp [StoreLog.new]⟩

theorem Inv.sorted_items (h : q.Inv) : q.items.Pairwise fun a b => a.1 < b.1 :=
  (List.pairwise_append.mp h.sorted).2.1

/-- Live stores have different tags. -/
theorem Inv.tags_pairwise (h : q.Inv) : q.items.Pairwise fun a b => a.2.robTag ≠ b.2.robTag := by
  refine h.sorted_items.imp_of_mem fun {a b} ha hb hab heq => ?_
  have hold := RobFifo.tagOf_older hab (h.span a ha b hb)
  rw [← h.tags a ha, ← h.tags b hb, heq] at hold
  exact absurd (hold.1.symm.trans hold.2) (by simp)

/-- The store with a given tag, when there is one, splits the buffer. -/
theorem Inv.split (h : q.Inv) {older younger : List (Nat × StoreBufferEntry)} {i : Nat × StoreBufferEntry}
    (hq : q.items = older ++ i :: younger) :
    (∀ j ∈ older, j.2.robTag ≠ i.2.robTag) ∧ ∀ j ∈ younger, j.2.robTag ≠ i.2.robTag := by
  have hp := h.tags_pairwise
  rw [hq, List.pairwise_append, List.pairwise_cons] at hp
  exact ⟨fun j hj => hp.2.2 j hj i (by simp), fun j hj => (hp.2.1.1 j hj).symm⟩

/-- Rewriting by a tag that stands between `older` and `younger`. -/
theorem Inv.modify_split (h : q.Inv) {older younger : List (Nat × StoreBufferEntry)}
    {i : Nat × StoreBufferEntry} (hq : q.items = older ++ i :: younger)
    (f : StoreBufferEntry → StoreBufferEntry) :
    (q.modify i.2.robTag f).items = older ++ (i.1, f i.2) :: younger := by
  obtain ⟨hold, hyoung⟩ := h.split hq
  have hid : ∀ l : List (Nat × StoreBufferEntry), (∀ j ∈ l, j.2.robTag ≠ i.2.robTag) →
      (l.map fun j => if j.2.robTag = i.2.robTag then (j.1, f j.2) else j) = l := by
    intro l hl
    refine (List.map_congr_left fun j hj => if_neg (hl j hj)).trans (List.map_id' l)
  show q.items.map _ = _
  rw [hq, List.map_append, List.map_cons, hid older hold, hid younger hyoung, if_pos rfl]

/-! #### The buffer of the log is the list model -/

theorem modifyFirst_map {items : List (Nat × StoreBufferEntry)} {t : RobTag}
    (h : items.Pairwise fun a b => a.2.robTag ≠ b.2.robTag) (f : StoreBufferEntry → StoreBufferEntry) :
    StoreBuffer.modifyFirst t f (items.map (·.2)) =
      (items.map fun i => if i.2.robTag = t then (i.1, f i.2) else i).map (·.2) := by
  induction items with
  | nil => rfl
  | cons i items ih =>
    obtain ⟨hi, hrest⟩ := List.pairwise_cons.mp h
    rw [List.map_cons, StoreBuffer.modifyFirst, List.map_cons, List.map_cons, ih hrest]
    by_cases ht : i.2.robTag = t
    · rw [if_pos ht, if_pos ht]
      congr 1
      rw [List.map_map]
      refine List.map_congr_left fun j hj => ?_
      rw [Function.comp_apply, if_neg fun hjt => hi j hj (ht.trans hjt.symm)]
    · rw [if_neg ht, if_neg ht]

theorem Inv.buffer_modify (h : q.Inv) (t : RobTag) (f : StoreBufferEntry → StoreBufferEntry) :
    (q.modify t f).buffer = ⟨q.capacity, StoreBuffer.modifyFirst t f q.buffer.entries⟩ := by
  rw [buffer, buffer, modifyFirst_map h.tags_pairwise]
  rfl

theorem cancelFirst_append {older younger : List StoreBufferEntry} {e : StoreBufferEntry}
    (h : ∀ x ∈ older, x.robTag ≠ e.robTag) :
    StoreBuffer.cancelFirst e.robTag (older ++ e :: younger) =
      if younger.isEmpty then older else older ++ { e with resolution := .cancelled } :: younger := by
  induction older with
  | nil =>
    rw [List.nil_append, StoreBuffer.cancelFirst, if_pos rfl]
    rfl
  | cons x older ih =>
    rw [List.cons_append, StoreBuffer.cancelFirst, if_neg (h x (by simp)), ih fun y hy => h y (by simp [hy])]
    split <;> rfl

/-- Cancelling retracts the youngest store, and leaves a cancelled slot in any other place. -/
theorem Inv.step_cancel (h : q.Inv) {older younger : List (Nat × StoreBufferEntry)}
    {i : Nat × StoreBufferEntry} (hq : q.items = older ++ i :: younger) :
    q.step (.cancel i.2.robTag) =
      { q with
        items := if younger.isEmpty then older
          else older ++ (i.1, { i.2 with resolution := .cancelled }) :: younger } := by
  unfold step
  by_cases hy : younger = []
  · subst hy
    simp only [hq, List.getLast?_append, List.getLast?_singleton, Option.some_or, if_true,
      List.isEmpty_nil]
    rw [List.dropLast_concat]
  · obtain ⟨ys, y, rfl⟩ := List.eq_nil_or_concat younger |>.resolve_left hy
    have hlast : q.items.getLast? = some y :=
      List.getLast?_eq_some_iff.mpr ⟨older ++ i :: ys, by simp [hq]⟩
    have hne : y.2.robTag ≠ i.2.robTag := (h.split hq).2 y (by simp)
    have hemp : (ys.concat y).isEmpty = false := by simp
    rw [hlast, hemp]
    simp only [hne, if_false, Bool.false_eq_true]
    show { q with items := (q.modify i.2.robTag fun e => { e with resolution := .cancelled }).items } = _
    rw [h.modify_split hq]

theorem Inv.buffer_step (h : q.Inv) {op : StoreOp} (hl : q.Legal op) :
    (q.step op).buffer = (q.buffer.step op).2 := by
  have hlen : q.buffer.entries.length = q.items.length := List.length_map _
  cases op with
  | allocate n w =>
    simp only [step, StoreBuffer.step, StoreBuffer.allocate, StoreBuffer.isFull, hlen, beq_iff_eq]
    by_cases hfull : q.items.length = q.capacity
    · rw [if_pos hfull, if_pos (show q.items.length = q.buffer.capacity from hfull)]
      rfl
    · rw [if_neg hfull, if_neg (show ¬q.items.length = q.buffer.capacity from hfull)]
      simp [buffer]
  | resolve t v p d => exact h.buffer_modify t _
  | markCommitted t => exact h.buffer_modify t StoreBuffer.commitEntry
  | cancel t =>
    obtain ⟨older, i, younger, hq, -, -, rfl⟩ := hl.split
    have hentries : q.buffer.entries = older.map (·.2) ++ i.2 :: younger.map (·.2) := by
      simp [buffer, hq]
    have hcancel : (q.buffer.step (.cancel i.2.robTag)).2 =
        ⟨q.capacity, StoreBuffer.cancelFirst i.2.robTag q.buffer.entries⟩ := rfl
    rw [h.step_cancel hq, hcancel, hentries, cancelFirst_append, buffer, List.isEmpty_map]
    · simp only
      split <;> simp
    · intro x hx
      obtain ⟨j, hj, rfl⟩ := List.mem_map.mp hx
      exact (h.split hq).1 j hj
  | drainOne =>
    simp only [step, StoreBuffer.step, StoreBuffer.drainOne]
    cases hq : q.items with
    | nil => simp [buffer, hq]
    | cons i rest =>
      have hcons : q.buffer.entries = i.2 :: rest.map (·.2) := by simp [buffer, hq]
      simp only [hcons]
      by_cases hi : i.2.resolution.isCommitted = true
      · rw [if_pos hi, if_pos hi]
        rfl
      · rw [if_neg hi, if_neg hi]
  | flushSpeculative =>
    simp only [step, StoreBuffer.step, StoreBuffer.flushSpeculative, buffer, List.filter_map]
    rfl
  | flushAfter n =>
    simp only [step, StoreBuffer.step, StoreBuffer.flushAfter, buffer, List.filter_map]
    congr 2
    refine List.filter_congr fun i hi => ?_
    obtain ⟨-, hlt, hgt⟩ := hl i hi
    simp only [Function.comp_apply, RobTag.isOlderOrEq, h.tags i hi]
    rcases Nat.lt_trichotomy i.1 n with hc | hc | hc
    · rw [(RobFifo.tagOf_older hc hgt).2, decide_eq_true (by omega)]
      rfl
    · subst hc
      simp [RobTag.isOlderThan]
    · rw [(RobFifo.tagOf_older hc hlt).1, decide_eq_false (by omega)]
      rfl

/-! #### What each call keeps -/

/-- A call that only drops live stores, none of them committed. -/
theorem Inv.sublist (h : q.Inv) {items : List (Nat × StoreBufferEntry)} (hs : items.Sublist q.items)
    (hdone : items.filter (fun i => i.2.isDone) = q.items.filter fun i => i.2.isDone) :
    Inv { q with items := items } where
  sorted := h.sorted.sublist ((List.Sublist.refl _).append hs)
  bound i hi := h.bound i (((List.Sublist.refl _).append hs).subset hi)
  tags i hi := h.tags i (hs.subset hi)
  span a ha b hb := h.span a (hs.subset ha) b (hs.subset hb)
  retired := h.retired.sublist hs
  done := by
    rw [← h.done, ← hdone]
  out := h.out

/-- A call that rewrites one store in place. -/
theorem Inv.rewrite (h : q.Inv) {older younger : List (Nat × StoreBufferEntry)} {n : Nat}
    {e : StoreBufferEntry} (hq : q.items = older ++ (n, e) :: younger) (e' : StoreBufferEntry)
    (htag : e'.robTag = e.robTag)
    (hold : e'.resolution.isCommitted = true → ∀ j ∈ older, j.2.resolution.isCommitted = true)
    (hyoung : ∀ j ∈ younger, j.2.resolution.isCommitted = true → e'.resolution.isCommitted = true)
    {committed : List (Nat × StoreBufferEntry)}
    (hdone : q.drained.filter (fun i => i.2.isDone) ++
      (older ++ (n, e') :: younger).filter (fun i => i.2.isDone) = committed) :
    Inv { q with items := older ++ (n, e') :: younger, committed := committed } := by
  have hfst : (older ++ (n, e') :: younger).map (·.1) = q.items.map (·.1) := by rw [hq]; simp
  have hmem : ∀ i ∈ older ++ (n, e') :: younger, ∃ j ∈ q.items, j.1 = i.1 ∧ j.2.robTag = i.2.robTag := by
    intro i hi
    rw [hq]
    rcases List.mem_append.mp hi with hi | hi
    · exact ⟨i, by simp [hi], rfl, rfl⟩
    · rcases List.mem_cons.mp hi with rfl | hi
      · exact ⟨(n, e), by simp, rfl, htag.symm⟩
      · exact ⟨i, by simp [hi], rfl, rfl⟩
  have hret := h.retired
  rw [hq, List.pairwise_append, List.pairwise_cons] at hret
  refine ⟨?_, ?_, ?_, ?_, ?_, hdone, h.out⟩
  · have hs : ((q.drained ++ q.items).map (·.1)).Pairwise (· < ·) := List.pairwise_map.mpr h.sorted
    rw [List.map_append, ← hfst, ← List.map_append] at hs
    exact List.pairwise_map.mp hs
  · intro i hi
    rcases List.mem_append.mp hi with hi | hi
    · exact h.bound i (List.mem_append_left _ hi)
    · obtain ⟨j, hj, hn, -⟩ := hmem i hi
      exact hn ▸ h.bound j (List.mem_append_right _ hj)
  · intro i hi
    obtain ⟨j, hj, hn, ht⟩ := hmem i hi
    rw [← ht, ← hn]
    exact h.tags j hj
  · intro a ha b hb
    obtain ⟨j, hj, hn, -⟩ := hmem a ha
    obtain ⟨k, hk, hm, -⟩ := hmem b hb
    rw [← hn, ← hm]
    exact h.span j hj k hk
  · refine List.pairwise_append.mpr ⟨hret.1, List.pairwise_cons.mpr ⟨hyoung, hret.2.1.2⟩, ?_⟩
    intro a ha b hb
    rcases List.mem_cons.mp hb with rfl | hb
    · exact fun hc => hold hc a ha
    · exact hret.2.2 a ha b (List.mem_cons_of_mem _ hb)

/-- Splitting the buffer at the store with a tag, when there is one. -/
theorem exists_split (q : StoreLog) (t : RobTag) :
    (∀ i ∈ q.items, i.2.robTag ≠ t) ∨
      ∃ older n e younger, q.items = older ++ (n, e) :: younger ∧ e.robTag = t := by
  by_cases h : ∃ i ∈ q.items, i.2.robTag = t
  · obtain ⟨i, hi, ht⟩ := h
    obtain ⟨older, younger, hq⟩ := List.append_of_mem hi
    exact Or.inr ⟨older, i.1, i.2, younger, hq, ht⟩
  · exact Or.inl fun i hi ht => h ⟨i, hi, ht⟩

/-- Behind a store that has not retired, none has. -/
theorem Inv.younger_live (h : q.Inv) {older younger : List (Nat × StoreBufferEntry)} {n : Nat}
    {e : StoreBufferEntry} (hq : q.items = older ++ (n, e) :: younger)
    (he : e.resolution.isCommitted = false) : ∀ j ∈ younger, j.2.resolution.isCommitted = false := by
  have hret := h.retired
  rw [hq, List.pairwise_append, List.pairwise_cons] at hret
  intro j hj
  by_contra hc
  have := hret.2.1.1 j hj (by simpa using hc)
  rw [he] at this
  exact absurd this (by simp)

theorem isDone_committed {e : StoreBufferEntry} (h : e.isDone = true) : e.resolution.isCommitted = true := by
  unfold StoreBufferEntry.isDone at h
  cases hr : e.resolution <;> simp [hr] at h
  rfl

theorem isReady_iff {e : StoreBufferEntry} : e.isReady = true ↔ ∃ a d, e.resolution = .ready a d := by
  unfold StoreBufferEntry.isReady
  cases h : e.resolution with
  | ready a d => exact ⟨fun _ => ⟨a, d, rfl⟩, fun _ => rfl⟩
  | pending => exact ⟨fun h => absurd h Bool.false_ne_true, fun ⟨_, _, h⟩ => nomatch h⟩
  | committed a d => exact ⟨fun h => absurd h Bool.false_ne_true, fun ⟨_, _, h⟩ => nomatch h⟩
  | cancelled => exact ⟨fun h => absurd h Bool.false_ne_true, fun ⟨_, _, h⟩ => nomatch h⟩

theorem done_or_cancelled {e : StoreBufferEntry} (h : e.resolution.isCommitted = true) :
    e.isDone = true ∨ e.resolution = .cancelled := by
  unfold StoreBufferEntry.isDone
  cases hr : e.resolution with
  | committed a d => exact Or.inl rfl
  | cancelled => exact Or.inr rfl
  | pending =>
    rw [hr] at h
    exact absurd h Bool.false_ne_true
  | ready a d =>
    rw [hr] at h
    exact absurd h Bool.false_ne_true

theorem not_done {e : StoreBufferEntry} (h : e.resolution.isCommitted = false) : e.isDone = false := by
  by_contra hc
  rw [isDone_committed (by simpa using hc)] at h
  exact absurd h (by simp)

theorem Inv.younger_done (h : q.Inv) {older younger : List (Nat × StoreBufferEntry)} {n : Nat}
    {e : StoreBufferEntry} (hq : q.items = older ++ (n, e) :: younger)
    (he : e.resolution.isCommitted = false) : younger.filter (fun i => i.2.isDone) = [] := by
  refine List.filter_eq_nil_iff.mpr fun j hj => ?_
  rw [not_done (h.younger_live hq he j hj)]
  simp

theorem Inv.allocate (h : q.Inv) {n : Nat} {w : MemWidth} (hl : q.Legal (.allocate n w)) :
    (q.step (.allocate n w)).Inv := by
  obtain ⟨hn, hspan⟩ := hl
  have hbound : ∀ i ∈ q.drained ++ q.items, i.1 < n + 1 := fun i hi => by
    have := h.bound i hi
    omega
  unfold step
  simp only
  split
  · exact ⟨h.sorted, hbound, h.tags, h.span, h.retired, h.done, h.out⟩
  · refine ⟨?_, ?_, ?_, ?_, ?_, ?_, h.out⟩
    · show (q.drained ++ (q.items ++ [_])).Pairwise _
      rw [← List.append_assoc]
      refine List.pairwise_append.mpr ⟨h.sorted, List.pairwise_singleton _ _, fun a ha b hb => ?_⟩
      rw [List.mem_singleton.mp hb]
      exact lt_of_lt_of_le (h.bound a ha) hn
    · intro i hi
      rw [← List.append_assoc] at hi
      rcases List.mem_append.mp hi with hi | hi
      · exact hbound i hi
      · rw [List.mem_singleton.mp hi]
        exact Nat.lt_succ_self n
    · intro i hi
      rcases List.mem_append.mp hi with hi | hi
      · exact h.tags i hi
      · rw [List.mem_singleton.mp hi]
    · intro a ha b hb
      rcases List.mem_append.mp ha with ha | ha <;> rcases List.mem_append.mp hb with hb | hb
      · exact h.span a ha b hb
      · rw [List.mem_singleton.mp hb]
        exact hspan a ha
      · rw [List.mem_singleton.mp ha]
        have := h.bound b (List.mem_append_right _ hb)
        show b.1 < n + 2 ^ 31
        omega
      · rw [List.mem_singleton.mp ha, List.mem_singleton.mp hb]
        exact Nat.lt_add_of_pos_right (by decide)
    · refine List.pairwise_append.mpr ⟨h.retired, List.pairwise_singleton _ _, fun a ha b hb => ?_⟩
      rw [List.mem_singleton.mp hb]
      exact fun hc => absurd hc Bool.false_ne_true
    · rw [List.filter_append, List.filter_cons_of_neg (by simp [StoreBufferEntry.isDone]), List.filter_nil,
        List.append_nil]
      exact h.done

theorem Inv.resolve (h : q.Inv) {t : RobTag} {v : VirtAddr} {p : PhysAddr} {d : U64}
    (hl : q.Legal (.resolve t v p d)) : (q.step (.resolve t v p d)).Inv := by
  rcases q.exists_split t with hnone | ⟨older, n, e, younger, hq, rfl⟩
  · have hid : q.step (.resolve t v p d) = q := by
      show { q with items := q.items.map _ } = q
      rw [List.map_congr_left fun i hi => if_neg (hnone i hi), List.map_id']
    rw [hid]
    exact h
  · have hlive : e.resolution.isCommitted = false := hl (n, e) (by rw [hq]; simp) rfl
    have hnd := not_done hlive
    have hstep : q.step (.resolve e.robTag v p d) =
        { q with items := older ++ (n, { e with vaddr := v, resolution := .ready p d }) :: younger } := by
      show { q with
        items := (q.modify e.robTag fun e => { e with vaddr := v, resolution := .ready p d }).items } = _
      rw [h.modify_split hq]
    rw [hstep]
    refine h.rewrite hq { e with vaddr := v, resolution := .ready p d } rfl
      (fun hc => absurd hc Bool.false_ne_true) ?_ ?_
    · intro j hj hc
      rw [h.younger_live hq hlive j hj] at hc
      exact absurd hc (by simp)
    · rw [← h.done, hq, List.filter_append, List.filter_append,
        List.filter_cons_of_neg (by simp [StoreBufferEntry.isDone]), List.filter_cons_of_neg (by simp [hnd])]

/-- Marking finds one resolved store, with only retired ones in front, and rewrites it in place. -/
theorem Inv.step_markCommitted (h : q.Inv) {t : RobTag} (hl : q.Legal (.markCommitted t)) :
    ∃ older n e younger a d, q.items = older ++ (n, e) :: younger ∧
      (∀ j ∈ older, j.2.resolution.isCommitted = true) ∧ e.robTag = t ∧ e.resolution = .ready a d ∧
      q.step (.markCommitted t) =
        { q with
          items := older ++ (n, { e with resolution := .committed a d }) :: younger,
          committed := q.committed ++ [(n, { e with resolution := .committed a d })] } := by
  obtain ⟨hfirst, hready⟩ := hl
  obtain ⟨older, ⟨n, e⟩, younger, hq, hold, hlive, rfl⟩ := hfirst.split
  obtain ⟨a, d, hr⟩ := isReady_iff.mp (hready (n, e) (by rw [hq]; simp) rfl)
  obtain ⟨hno, hny⟩ := h.split hq
  have hcommit : StoreBuffer.commitEntry e = { e with resolution := .committed a d } := by
    unfold StoreBuffer.commitEntry
    rw [hr]
  have hfilter : (q.items.filter fun i => i.2.robTag == e.robTag) = [(n, e)] := by
    rw [hq, List.filter_append, List.filter_cons_of_pos (by simp), List.filter_eq_nil_iff.mpr,
      List.filter_eq_nil_iff.mpr, List.nil_append]
    · exact fun j hj => by simpa using hny j hj
    · exact fun j hj => by simpa using hno j hj
  refine ⟨older, n, e, younger, a, d, hq, hold, rfl, hr, ?_⟩
  show { q with items := (q.modify e.robTag _).items, committed := _ } = _
  rw [h.modify_split hq, hfilter, List.map_singleton, hcommit]

theorem Inv.markCommitted (h : q.Inv) {t : RobTag} (hl : q.Legal (.markCommitted t)) :
    (q.step (.markCommitted t)).Inv := by
  obtain ⟨older, n, e, younger, a, d, hq, hold, rfl, hr, hstep⟩ := h.step_markCommitted hl
  have hlive : e.resolution.isCommitted = false := by
    rw [hr]
    rfl
  rw [hstep]
  refine h.rewrite hq { e with resolution := .committed a d } rfl (fun _ => hold) (fun _ _ _ => rfl) ?_
  -- nothing committed stands behind the store just marked
  have hempty := h.younger_done hq hlive
  have hnd := not_done hlive
  rw [← h.done, hq, List.filter_append, List.filter_append, List.filter_cons_of_pos rfl,
    List.filter_cons_of_neg (by simp [hnd]), hempty, List.append_nil, List.append_assoc]

theorem Inv.cancel (h : q.Inv) {t : RobTag} (hl : q.Legal (.cancel t)) : (q.step (.cancel t)).Inv := by
  obtain ⟨older, ⟨n, e⟩, younger, hq, hold, hlive, rfl⟩ := hl.split
  have hnd := not_done hlive
  have hempty := h.younger_done hq hlive
  have hdone : q.items.filter (fun i => i.2.isDone) = older.filter fun i => i.2.isDone := by
    rw [hq, List.filter_append, List.filter_cons_of_neg (by simp [hnd]), hempty, List.append_nil]
  rw [h.step_cancel hq]
  by_cases hy : younger.isEmpty = true
  · rw [if_pos hy]
    exact h.sublist (hq ▸ List.sublist_append_left _ _) hdone.symm
  · rw [if_neg hy]
    refine h.rewrite hq { e with resolution := .cancelled } rfl (fun _ => hold) (fun _ _ _ => rfl) ?_
    rw [← h.done, hdone, List.filter_append,
      List.filter_cons_of_neg (by simp [StoreBufferEntry.isDone]), hempty, List.append_nil]

theorem Inv.drainOne (h : q.Inv) : (q.step .drainOne).Inv := by
  unfold step
  simp only
  split
  · exact h
  · next i rest hq =>
    split
    · next hi =>
      have hsame : q.drained ++ [i] ++ rest = q.drained ++ q.items := by rw [hq]; simp
      have hret := h.retired
      rw [hq, List.pairwise_cons] at hret
      refine ⟨?_, ?_, ?_, ?_, hret.2, ?_, ?_⟩
      · show (q.drained ++ [i] ++ rest).Pairwise _
        rw [hsame]
        exact h.sorted
      · show ∀ j ∈ q.drained ++ [i] ++ rest, _
        rw [hsame]
        exact h.bound
      · exact fun j hj => h.tags j (hq ▸ List.mem_cons_of_mem _ hj)
      · exact fun a ha b hb =>
          h.span a (hq ▸ List.mem_cons_of_mem _ ha) b (hq ▸ List.mem_cons_of_mem _ hb)
      · rw [← h.done, ← List.filter_append, hsame, List.filter_append]
      · intro j hj
        rcases List.mem_append.mp hj with hj | hj
        · exact h.out j hj
        · exact List.mem_singleton.mp hj ▸ hi
    · exact h

theorem Inv.flush (h : q.Inv) (keep : Nat × StoreBufferEntry → Bool)
    (hk : ∀ i ∈ q.items, i.2.resolution.isCommitted = true → keep i = true) :
    Inv { q with items := q.items.filter keep } := by
  refine h.sublist List.filter_sublist ?_
  rw [List.filter_filter]
  refine List.filter_congr fun i hi => ?_
  cases hd : i.2.isDone with
  | false => rfl
  | true => rw [hk i hi (isDone_committed hd), Bool.and_self]

/-- **Every call the pipelines make keeps the stores in order.** -/
theorem Inv.step (h : q.Inv) {op : StoreOp} (hl : q.Legal op) : (q.step op).Inv := by
  cases op with
  | allocate n w => exact h.allocate hl
  | resolve t v p d => exact h.resolve hl
  | markCommitted t => exact h.markCommitted hl
  | cancel t => exact h.cancel hl
  | drainOne => exact h.drainOne
  | flushSpeculative => exact h.flush _ fun i _ hc => hc
  | flushAfter n => exact h.flush _ fun i hi hc => decide_eq_true ((hl i hi).1 hc)

end StoreLog

/-! ### Runs -/

def StoreRing.run (b : StoreRing) : List StoreOp → List StoreReply × StoreRing
  | [] => ([], b)
  | op :: ops =>
    let s := b.step op
    let rest := s.2.run ops
    (s.1 :: rest.1, rest.2)

/-- The stores among the replies: what `drain_one` returned, in order. -/
def StoreReply.stores (replies : List StoreReply) : List StoreBufferEntry :=
  replies.filterMap fun
    | .drained e => e
    | _ => none

namespace StoreRing

variable {b : StoreRing} {q : StoreLog}

theorem drained_step (h : b.Refines q.buffer) (op : StoreOp) :
    (q.step op).drained.map (·.2) = q.drained.map (·.2) ++ StoreReply.stores [(b.step op).1] := by
  rw [(h.step op).1]
  cases op with
  | allocate n w =>
    simp only [StoreLog.step, StoreBuffer.step, StoreReply.stores]
    split <;> simp
  | resolve t v p d => simp [StoreLog.step, StoreLog.modify, StoreBuffer.step, StoreReply.stores]
  | markCommitted t => simp [StoreLog.step, StoreLog.modify, StoreBuffer.step, StoreReply.stores]
  | cancel t =>
    have hsame : (q.step (.cancel t)).drained = q.drained := by
      simp only [StoreLog.step]
      split
      · rfl
      · split <;> rfl
    simp [hsame, StoreBuffer.step, StoreReply.stores]
  | drainOne =>
    simp only [StoreLog.step, StoreBuffer.step, StoreBuffer.drainOne, StoreLog.buffer]
    cases hq : q.items with
    | nil => simp [StoreReply.stores]
    | cons i rest =>
      simp only [List.map_cons]
      by_cases hi : i.2.resolution.isCommitted = true
      · simp [hi, StoreReply.stores]
      · simp [hi, StoreReply.stores]
  | flushSpeculative => simp [StoreLog.step, StoreBuffer.step, StoreReply.stores]
  | flushAfter n => simp [StoreLog.step, StoreBuffer.step, StoreReply.stores]

theorem run_inv (h : b.Refines q.buffer) (hi : q.Inv) {ops : List StoreOp} (hl : q.LegalRun ops) :
    (b.run ops).2.Refines (q.run ops).buffer ∧ (q.run ops).Inv ∧
      (q.run ops).drained.map (·.2) = q.drained.map (·.2) ++ StoreReply.stores (b.run ops).1 := by
  induction ops generalizing b q with
  | nil => exact ⟨h, hi, by simp [StoreRing.run, StoreLog.run, StoreReply.stores]⟩
  | cons op ops ih =>
    obtain ⟨hop, hrest⟩ := hl
    have hstep : (b.step op).2.Refines (q.step op).buffer := by
      rw [hi.buffer_step hop]
      exact (h.step op).2
    obtain ⟨href, hinv, hdr⟩ := ih hstep (hi.step hop) hrest
    refine ⟨href, hinv, ?_⟩
    have hcons : StoreReply.stores (b.run (op :: ops)).1 =
        StoreReply.stores [(b.step op).1] ++ StoreReply.stores ((b.step op).2.run ops).1 := by
      show List.filterMap _ ([(b.step op).1] ++ _) = _
      rw [List.filterMap_append]
      rfl
    show ((q.step op).run ops).drained.map (·.2) = _
    rw [hdr, drained_step h, hcons, List.append_assoc]

/-- Retired stores stand in front, so `drain_one` gets at one whenever there is any. -/
theorem Refines.drainOne_none (h : b.Refines q.buffer) (hi : q.Inv) :
    b.drainOne.1 = none ↔ ∀ e ∈ b.live, e.resolution.isCommitted = false := by
  rw [h.drainOne.1, h.live]
  have hret := hi.retired
  unfold StoreBuffer.drainOne StoreLog.buffer
  cases hq : q.items with
  | nil => simp
  | cons i rest =>
    rw [hq, List.pairwise_cons] at hret
    simp only [List.map_cons]
    by_cases hc : i.2.resolution.isCommitted = true
    · rw [if_pos hc]
      simp [hc]
    · rw [if_neg hc]
      simp only [Option.map_none, true_iff]
      intro e he
      by_contra hcon
      have hcon : e.resolution.isCommitted = true := by simpa using hcon
      rcases List.mem_cons.mp he with rfl | he
      · exact hc hcon
      · obtain ⟨j, hj, rfl⟩ := List.mem_map.mp he
        exact hc (hret.1 j hj hcon)

/-- A flush behind an instruction removes the stores behind it, all of them not retired. -/
theorem Refines.flushAfter_live (h : b.Refines q.buffer) (hi : q.Inv) {n : Nat}
    (hn : q.Legal (.flushAfter n)) :
    (b.flushAfter (RobFifo.tagOf n)).live =
      (q.items.filter fun i => i.2.resolution.isCommitted || decide (i.1 ≤ n)).map (·.2) := by
  have hflush : (b.step (.flushAfter n)).2.live = (q.step (.flushAfter n)).buffer.entries := by
    rw [hi.buffer_step hn]
    exact (h.step (.flushAfter n)).2.live
  simp only [StoreRing.step, StoreLog.step, StoreLog.buffer] at hflush
  rw [hflush]
  congr 1
  refine List.filter_congr fun i hi => ?_
  cases hc : i.2.resolution.isCommitted with
  | false => rfl
  | true => rw [Bool.true_or, decide_eq_true ((hn i hi).1 hc)]

/-- **Committed stores drain exactly once, in program order.** Called as the pipelines call it,
the buffer returns from `drain_one` the stores that were committed, each once and in program
order, and beside them only cancelled slots; the committed stores not returned yet are live, and
the next call returns one as long as there is any. A flush removes exactly the live stores that
have not retired and lie behind its tag, or all that have not retired. The count is the number of
live slots. -/
theorem run_drains (capacity : Nat) (ops : List StoreOp) (hl : (StoreLog.new capacity).LegalRun ops) :
    let b := ((new capacity).run ops).2
    let q := (StoreLog.new capacity).run ops
    let drained := StoreReply.stores ((new capacity).run ops).1
    b.live = q.items.map (·.2) ∧
      (drained.filter fun e => e.isDone) ++ (b.live.filter fun e => e.isDone) = q.committed.map (·.2) ∧
      q.committed.Pairwise (fun a b => a.1 < b.1) ∧
      (∀ e ∈ drained, e.isDone = true ∨ e.resolution = .cancelled) ∧
      (b.drainOne.1 = none ↔ ∀ e ∈ b.live, e.resolution.isCommitted = false) ∧
      b.flushSpeculative.live = (b.live.filter fun e => e.resolution.isCommitted) ∧
      (∀ n, q.Legal (.flushAfter n) →
        (b.flushAfter (RobFifo.tagOf n)).live =
          (q.items.filter fun i => i.2.resolution.isCommitted || decide (i.1 ≤ n)).map (·.2)) ∧
      b.ring.count = b.ring.slots.countP fun s => s.valid := by
  obtain ⟨href, hinv, hdr⟩ := run_inv (Refines.new capacity) (StoreLog.Inv.new capacity) hl
  rw [show (StoreLog.new capacity).drained = [] from rfl, List.map_nil, List.nil_append] at hdr
  intro b q drained
  have hlive : b.live = q.items.map (·.2) := href.live
  have hdone : ∀ l : List (Nat × StoreBufferEntry),
      ((l.map (·.2)).filter fun e => e.isDone) = (l.filter fun i => i.2.isDone).map (·.2) := by
    intro l
    rw [List.filter_map]
    rfl
  refine ⟨hlive, ?_, ?_, ?_, ?_, ?_, ?_, href.count_valid.symm⟩
  · rw [show drained = q.drained.map (·.2) from hdr.symm, hlive, hdone, hdone, ← List.map_append, hinv.done]
  · rw [← hinv.done, ← List.filter_append]
    exact hinv.sorted.sublist List.filter_sublist
  · intro e he
    rw [show drained = q.drained.map (·.2) from hdr.symm] at he
    obtain ⟨i, hi, rfl⟩ := List.mem_map.mp he
    exact StoreLog.done_or_cancelled (hinv.out i hi)
  · exact href.drainOne_none hinv
  · rw [hlive]
    exact (href.step .flushSpeculative).2.live
  · exact fun n hn => href.flushAfter_live hinv hn

/-- A load-store unit at work: two stores and a failed store-conditional between them. -/
def failedSc : List StoreOp :=
  [.allocate 1 .word, .allocate 2 .word, .allocate 3 .double, .resolve 3 0x2008 0x2008 7,
    .resolve 1 0x1000 0x1000 5, .resolve 2 0x1004 0x1004 6, .markCommitted 1, .drainOne, .cancel 2,
    .flushAfter 2, .drainOne]

theorem run_drains_failedSc :
    (StoreLog.new 4).LegalRun failedSc ∧
      (StoreReply.stores ((new 4).run failedSc).1).filter (fun e => e.isDone) ++
          (((new 4).run failedSc).2.live.filter fun e => e.isDone) =
        ((StoreLog.new 4).run failedSc).committed.map (·.2) := by
  have hl : (StoreLog.new 4).LegalRun failedSc := by decide
  exact ⟨hl, (run_drains 4 failedSc hl).2.1⟩

/-- The cancelled slot of the store-conditional comes out of `drain_one`, though it never committed. -/
theorem drainOne_cancelled :
    (StoreLog.new 4).LegalRun failedSc ∧
      StoreReply.stores ((new 4).run failedSc).1 ≠ ((StoreLog.new 4).run failedSc).committed.map (·.2) ∧
      (StoreReply.stores ((new 4).run failedSc).1).map (fun e => (e.robTag, e.resolution)) =
        [(1, .committed 0x1000 5), (2, .cancelled)] := by decide

end StoreRing

end Rvsim
