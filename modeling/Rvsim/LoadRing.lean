/-
# The load queue as a ring

`pipeline/load_queue.rs` as the source lays it out: a circular buffer whose
slots carry a valid flag. The ring refines the list model `LoadQueue` for every
sequence of calls, also where a load leaves from the middle and a dead slot
stays behind. The store buffer is a ring of the same kind (`StoreRing`); what
its loops answer a load, a fence or the issue queue is the list's answer too.

Key definitions:
  - `LoadRing`, `LoadOp`, `StoreQuery`
Key theorems:
  - `LoadRing.Refines.step`, `LoadRing.run_entries`, `StoreRing.run_answers`
-/
import Rvsim.StoreRing

namespace Rvsim

namespace LoadQueueEntry

/-- `LoadQueueEntry::default()`. -/
def vacant : LoadQueueEntry := { robTag := 0, width := .nop, valid := false }

def invalidate (e : LoadQueueEntry) : LoadQueueEntry := { e with valid := false }

/-- The test of `find_by_tag_mut` and `deallocate`. -/
def hasTag (tag : RobTag) (e : LoadQueueEntry) : Bool := e.valid && e.robTag == tag

end LoadQueueEntry

structure LoadRing where
  ring : Circular LoadQueueEntry

namespace LoadRing

def new (capacity : Nat) : LoadRing := ⟨⟨List.replicate capacity .vacant, 0, 0, 0⟩⟩

def isFull (b : LoadRing) : Bool := b.ring.count == b.ring.cap

def freeSlots (b : LoadRing) : Nat := b.ring.cap - b.ring.count

def allocate (b : LoadRing) (tag : RobTag) (width : MemWidth) : Bool × LoadRing :=
  if b.isFull then (false, b) else (true, ⟨b.ring.push { robTag := tag, width }⟩)

/-- What a change through `find_by_tag_mut` does. -/
def modify (b : LoadRing) (tag : RobTag) (f : LoadQueueEntry → LoadQueueEntry) : LoadRing :=
  match b.ring.scan (LoadQueueEntry.hasTag tag) b.ring.count b.ring.head with
  | none => b
  | some i => ⟨b.ring.modify i f⟩

def fillAddress (b : LoadRing) (tag : RobTag) (vaddr : VirtAddr) (paddr : PhysAddr) : LoadRing :=
  b.modify tag fun e => { e with vaddr, paddr := some paddr, state := .translated }

def fillData (b : LoadRing) (tag : RobTag) (data : U64) : LoadRing :=
  b.modify tag fun e => { e with data, state := .executed }

def checkOrderingViolation (b : LoadRing) (storePaddr : PhysAddr) (storeWidth : MemWidth)
    (storeTag : RobTag) : Option RobTag :=
  if b.ring.count = 0 then none
  else
    b.ring.fold
      (fun oldest e =>
        if LoadQueue.violates storePaddr storeWidth storeTag e then LoadQueue.older oldest e.robTag else oldest)
      b.ring.count b.ring.head none

/-- The load at the head leaves. One further back leaves a dead slot, and the head moves past the
dead slots in front of it. -/
def deallocate (b : LoadRing) (tag : RobTag) : LoadRing :=
  if b.ring.count = 0 then b
  else if (b.ring.slots[b.ring.head]?).any (LoadQueueEntry.hasTag tag) then
    ⟨b.ring.pop LoadQueueEntry.invalidate⟩
  else
    match b.ring.scan (LoadQueueEntry.hasTag tag) b.ring.count b.ring.head with
    | none => b
    | some i => ⟨(b.ring.modify i LoadQueueEntry.invalidate).skip fun e => !e.valid⟩

def flush (b : LoadRing) : LoadRing := ⟨b.ring.reset LoadQueueEntry.invalidate⟩

def flushAfter (b : LoadRing) (keep : RobTag) : LoadRing :=
  if b.ring.count = 0 then b
  else
    ⟨b.ring.compact (fun e => e.valid && RobTag.isOlderOrEq e.robTag keep) LoadQueueEntry.invalidate⟩

end LoadRing

/-! ### Calls -/

inductive LoadOp where
  | allocate (tag : RobTag) (width : MemWidth)
  | fillAddress (tag : RobTag) (vaddr : VirtAddr) (paddr : PhysAddr)
  | fillData (tag : RobTag) (data : U64)
  | checkOrderingViolation (paddr : PhysAddr) (width : MemWidth) (tag : RobTag)
  | freeSlots
  | deallocate (tag : RobTag)
  | flush
  | flushAfter (keep : RobTag)
  deriving DecidableEq, Repr

/-- What a call returns. -/
inductive LoadReply where
  | accepted (b : Bool)
  | violator (t : Option RobTag)
  | slots (n : Nat)
  | unit
  deriving DecidableEq, Repr

def LoadRing.step (b : LoadRing) : LoadOp → LoadReply × LoadRing
  | .allocate t w => (.accepted (b.allocate t w).1, (b.allocate t w).2)
  | .fillAddress t v p => (.unit, b.fillAddress t v p)
  | .fillData t d => (.unit, b.fillData t d)
  | .checkOrderingViolation p w t => (.violator (b.checkOrderingViolation p w t), b)
  | .freeSlots => (.slots b.freeSlots, b)
  | .deallocate t => (.unit, b.deallocate t)
  | .flush => (.unit, b.flush)
  | .flushAfter t => (.unit, b.flushAfter t)

def LoadQueue.step (q : LoadQueue) : LoadOp → LoadReply × LoadQueue
  | .allocate t w => (.accepted (q.allocate t w).1, (q.allocate t w).2)
  | .fillAddress t v p => (.unit, q.fillAddress t v p)
  | .fillData t d => (.unit, q.fillData t d)
  | .checkOrderingViolation p w t => (.violator (q.checkOrderingViolation p w t), q)
  | .freeSlots => (.slots q.freeSlots, q)
  | .deallocate t => (.unit, q.deallocate t)
  | .flush => (.unit, q.flush)
  | .flushAfter t => (.unit, q.flushAfter t)

def LoadRing.run (b : LoadRing) : List LoadOp → List LoadReply × LoadRing
  | [] => ([], b)
  | op :: ops => ((b.step op).1 :: ((b.step op).2.run ops).1, ((b.step op).2.run ops).2)

def LoadQueue.run (q : LoadQueue) : List LoadOp → List LoadReply × LoadQueue
  | [] => ([], q)
  | op :: ops => ((q.step op).1 :: ((q.step op).2.run ops).1, ((q.step op).2.run ops).2)

/-! ### The ring refines the list -/

namespace LoadQueue

theorem modifyFirst_eq (tag : RobTag) (f : LoadQueueEntry → LoadQueueEntry) (es : List LoadQueueEntry) :
    modifyFirst tag f es =
      match es.findIdx? (LoadQueueEntry.hasTag tag) with
      | none => es
      | some k => es.modify k f := by
  induction es with
  | nil => rfl
  | cons e es ih =>
    have hif : modifyFirst tag f (e :: es) =
        if LoadQueueEntry.hasTag tag e = true then f e :: es else e :: modifyFirst tag f es := rfl
    rw [hif, List.findIdx?_cons]
    by_cases ht : LoadQueueEntry.hasTag tag e = true
    · rw [if_pos ht, if_pos ht]
      rfl
    · rw [if_neg ht, if_neg ht, ih]
      cases es.findIdx? (LoadQueueEntry.hasTag tag) <;> rfl

/-- A load that the search does not find leaves the queue as it is. -/
theorem deallocate_eq (q : LoadQueue) (tag : RobTag) (hne : q.entries ≠ [])
    (hhead : (q.entries.head?).any (LoadQueueEntry.hasTag tag) = false) :
    q.deallocate tag =
      match q.entries.findIdx? (LoadQueueEntry.hasTag tag) with
      | none => q
      | some k => { q with entries := (q.entries.modify k LoadQueueEntry.invalidate).dropWhile fun e => !e.valid } := by
  have hinv : invalidate tag q.entries = modifyFirst tag LoadQueueEntry.invalidate q.entries := rfl
  obtain ⟨e, rest, he⟩ := List.exists_cons_of_ne_nil hne
  rw [he] at hhead
  have hno : ¬(e.valid && e.robTag == tag) = true := by simpa [LoadQueueEntry.hasTag] using hhead
  unfold deallocate
  rw [hinv, modifyFirst_eq, he]
  simp only [if_neg hno]
  have hany : ((e :: rest).any fun e => e.valid && e.robTag == tag) =
      ((e :: rest).findIdx? (LoadQueueEntry.hasTag tag)).isSome := by
    rw [List.findIdx?_isSome]
    rfl
  rw [hany]
  cases (e :: rest).findIdx? (LoadQueueEntry.hasTag tag) <;> rfl

end LoadQueue

namespace LoadRing

/-- The slots in use hold the list's entries, dead ones included; no other slot is valid. -/
structure Refines (b : LoadRing) (l : LoadQueue) : Prop where
  wf : b.ring.WF
  cap : b.ring.cap = l.capacity
  contents : b.ring.contents = l.entries
  spare : ∀ e ∈ b.ring.spare, e.valid = false

variable {b : LoadRing} {l : LoadQueue}

theorem Refines.count (h : b.Refines l) : b.ring.count = l.entries.length := by
  rw [← Circular.length_contents h.wf, h.contents]

theorem Refines.new (capacity : Nat) : (new capacity).Refines (LoadQueue.new capacity) where
  wf := ⟨Nat.zero_mod _, (Nat.zero_mod _).symm, Nat.zero_le _⟩
  cap := List.length_replicate
  contents := List.take_zero
  spare := by
    intro e he
    have hmem : e ∈ List.replicate capacity LoadQueueEntry.vacant := by
      rw [← List.mem_rotate (n := 0)]
      exact List.mem_of_mem_drop he
    rw [List.eq_of_mem_replicate hmem]
    rfl

theorem Refines.isFull (h : b.Refines l) : b.isFull = l.isFull := by
  unfold LoadRing.isFull LoadQueue.isFull
  rw [h.count, h.cap]

theorem Refines.allocate (h : b.Refines l) (tag : RobTag) (width : MemWidth) :
    (b.allocate tag width).1 = (l.allocate tag width).1 ∧
      (b.allocate tag width).2.Refines (l.allocate tag width).2 := by
  unfold LoadRing.allocate LoadQueue.allocate
  rw [← h.isFull]
  by_cases hfull : b.isFull = true
  · rw [if_pos hfull, if_pos hfull]
    exact ⟨rfl, h⟩
  · rw [if_neg hfull, if_neg hfull]
    have hle := h.wf.count
    have hlt : b.ring.count < b.ring.cap := by
      simp only [LoadRing.isFull, beq_iff_eq] at hfull
      omega
    refine ⟨rfl, Circular.wf_push h.wf _ hlt, (Circular.cap_push _ _).trans h.cap, ?_, ?_⟩
    · show (b.ring.push _).contents = l.entries ++ _
      rw [Circular.contents_push h.wf _ hlt, h.contents]
    · intro e he
      have he : e ∈ (b.ring.push { robTag := tag, width }).spare := he
      rw [Circular.spare_push h.wf _ hlt] at he
      exact h.spare e (List.mem_of_mem_tail he)

/-- The loop of `find_by_tag_mut` and `deallocate`. -/
theorem Refines.scan (h : b.Refines l) (tag : RobTag) :
    b.ring.scan (LoadQueueEntry.hasTag tag) b.ring.count b.ring.head =
      (l.entries.findIdx? (LoadQueueEntry.hasTag tag)).map b.ring.index := by
  rw [Circular.scan_eq h.wf, h.contents]

theorem Refines.lt_count (h : b.Refines l) {tag : RobTag} {k : Nat}
    (hk : l.entries.findIdx? (LoadQueueEntry.hasTag tag) = some k) : k < b.ring.count := by
  rw [h.count]
  exact (List.findIdx?_eq_some_iff_getElem.mp hk).1

/-- Rewriting the entry at place `k`. -/
theorem Refines.modifyAt (h : b.Refines l) (f : LoadQueueEntry → LoadQueueEntry) {k : Nat}
    (hk : k < b.ring.count) :
    Refines ⟨b.ring.modify (b.ring.index k) f⟩ { l with entries := l.entries.modify k f } := by
  obtain ⟨hc, hsp⟩ := Circular.contents_modify h.wf f hk
  refine ⟨Circular.wf_modify h.wf _ _, (Circular.cap_modify _ _ _).trans h.cap, ?_, ?_⟩
  · rw [hc, h.contents]
  · intro e he
    exact h.spare e (hsp ▸ he)

theorem Refines.modify (h : b.Refines l) (tag : RobTag) (f : LoadQueueEntry → LoadQueueEntry) :
    (b.modify tag f).Refines { l with entries := LoadQueue.modifyFirst tag f l.entries } := by
  unfold LoadRing.modify
  rw [h.scan, LoadQueue.modifyFirst_eq]
  cases hk : l.entries.findIdx? (LoadQueueEntry.hasTag tag) with
  | none => exact h
  | some k => exact h.modifyAt f (h.lt_count hk)

/-- The loop over the slots keeps the older of the violators it meets, as the list's fold does. -/
theorem Refines.checkOrderingViolation (h : b.Refines l) (p : PhysAddr) (w : MemWidth) (t : RobTag) :
    b.checkOrderingViolation p w t = l.checkOrderingViolation p w t := by
  unfold LoadRing.checkOrderingViolation LoadQueue.checkOrderingViolation
  by_cases h0 : b.ring.count = 0
  · have hnil : l.entries = [] := List.length_eq_zero_iff.mp (h.count ▸ h0)
    rw [if_pos h0, hnil]
    rfl
  · rw [if_neg h0, Circular.fold_eq h.wf, h.contents]

theorem Refines.skip (h : b.Refines l) :
    Refines ⟨b.ring.skip fun e => !e.valid⟩ { l with entries := l.entries.dropWhile fun e => !e.valid } := by
  obtain ⟨hwf, hcap, hc, hsp⟩ := Circular.contents_skip h.wf fun e : LoadQueueEntry => !e.valid
  refine ⟨hwf, hcap.trans h.cap, by rw [hc, h.contents], ?_⟩
  intro e he
  rw [hsp] at he
  rcases List.mem_append.mp he with he | he
  · exact h.spare e he
  · simpa using List.all_eq_true.mp List.all_takeWhile e he

theorem Refines.deallocate (h : b.Refines l) (tag : RobTag) :
    (b.deallocate tag).Refines (l.deallocate tag) := by
  unfold LoadRing.deallocate
  by_cases h0 : b.ring.count = 0
  · rw [if_pos h0]
    have hnil : l.entries = [] := List.length_eq_zero_iff.mp (h.count ▸ h0)
    have hsame : l.deallocate tag = l := by rw [LoadQueue.deallocate, hnil]
    rw [hsame]
    exact h
  · have hpos : 0 < b.ring.count := Nat.pos_of_ne_zero h0
    rw [if_neg h0, Circular.getElem?_head h.wf hpos, h.contents]
    by_cases hhead : (l.entries.head?).any (LoadQueueEntry.hasTag tag) = true
    · -- the load commits in order: it stands at the head
      rw [if_pos hhead]
      cases hl : l.entries with
      | nil =>
        rw [hl] at hhead
        cases hhead
      | cons e rest =>
        rw [hl] at hhead
        obtain ⟨hc, hsp⟩ := Circular.contents_pop h.wf LoadQueueEntry.invalidate (h.contents.trans hl)
        have hsame : l.deallocate tag = { l with entries := rest } := by
          rw [LoadQueue.deallocate, hl]
          exact if_pos hhead
        rw [hsame]
        refine ⟨Circular.wf_pop h.wf _ hpos, (Circular.cap_pop _ _).trans h.cap, hc, ?_⟩
        intro e' he'
        rw [hsp] at he'
        rcases List.mem_append.mp he' with he' | he'
        · exact h.spare e' he'
        · rw [List.mem_singleton.mp he']
          rfl
    · have hne : l.entries ≠ [] := List.ne_nil_of_length_pos (h.count ▸ hpos)
      rw [if_neg hhead, h.scan, LoadQueue.deallocate_eq l tag hne (by simpa using hhead)]
      cases hk : l.entries.findIdx? (LoadQueueEntry.hasTag tag) with
      | none => exact h
      | some k => exact (h.modifyAt LoadQueueEntry.invalidate (h.lt_count hk)).skip

theorem Refines.flush (h : b.Refines l) : b.flush.Refines l.flush where
  wf := Circular.wf_reset b.ring LoadQueueEntry.invalidate
  cap := (Circular.cap_reset b.ring LoadQueueEntry.invalidate).trans h.cap
  contents := List.take_zero
  spare := by
    intro e he
    obtain ⟨e, -, rfl⟩ := Circular.mem_spare_reset he
    rfl

theorem Refines.flushAfter (h : b.Refines l) (keep : RobTag) :
    (b.flushAfter keep).Refines (l.flushAfter keep) := by
  unfold LoadRing.flushAfter
  by_cases h0 : b.ring.count = 0
  · rw [if_pos h0]
    have hnil : l.entries = [] := List.length_eq_zero_iff.mp (h.count ▸ h0)
    rw [LoadQueue.flushAfter, hnil, List.filter_nil, ← hnil]
    exact h
  · rw [if_neg h0]
    obtain ⟨hwf, hcap, hc, hsp⟩ := Circular.contents_compact h.wf
      (fun e : LoadQueueEntry => e.valid && RobTag.isOlderOrEq e.robTag keep) LoadQueueEntry.invalidate
    refine ⟨hwf, hcap.trans h.cap, by rw [hc, h.contents]; rfl, ?_⟩
    intro e he
    rcases hsp e he with he | ⟨x, -, rfl⟩
    · exact h.spare e he
    · rfl

/-- **The ring does what the list does**, call by call. -/
theorem Refines.step (h : b.Refines l) (op : LoadOp) :
    (b.step op).1 = (l.step op).1 ∧ (b.step op).2.Refines (l.step op).2 := by
  cases op with
  | allocate t w =>
    obtain ⟨hr, href⟩ := h.allocate t w
    exact ⟨congrArg LoadReply.accepted hr, href⟩
  | fillAddress t v p =>
    exact ⟨rfl, h.modify t fun e => { e with vaddr := v, paddr := some p, state := .translated }⟩
  | fillData t d => exact ⟨rfl, h.modify t fun e => { e with data := d, state := .executed }⟩
  | checkOrderingViolation p w t => exact ⟨congrArg LoadReply.violator (h.checkOrderingViolation p w t), h⟩
  | freeSlots =>
    refine ⟨congrArg LoadReply.slots ?_, h⟩
    unfold LoadRing.freeSlots LoadQueue.freeSlots
    rw [h.count, h.cap]
  | deallocate t => exact ⟨rfl, h.deallocate t⟩
  | flush => exact ⟨rfl, h.flush⟩
  | flushAfter t => exact ⟨rfl, h.flushAfter t⟩

theorem Refines.run (h : b.Refines l) (ops : List LoadOp) :
    (b.run ops).1 = (l.run ops).1 ∧ (b.run ops).2.Refines (l.run ops).2 := by
  induction ops generalizing b l with
  | nil => exact ⟨rfl, h⟩
  | cons op ops ih =>
    obtain ⟨hr, href⟩ := h.step op
    obtain ⟨hrs, hend⟩ := ih href
    refine ⟨?_, hend⟩
    show (b.step op).1 :: _ = (l.step op).1 :: _
    rw [hr, hrs]

/-- **The load queue is a bounded list of loads.** Whatever the pipelines call, in whatever order,
the circular buffer answers as the list does, its slots from the head on are the list's entries,
and none of the other slots is valid. -/
theorem run_entries (capacity : Nat) (ops : List LoadOp) :
    ((new capacity).run ops).1 = ((LoadQueue.new capacity).run ops).1 ∧
      ((new capacity).run ops).2.Refines ((LoadQueue.new capacity).run ops).2 :=
  (Refines.new capacity).run ops

end LoadRing

/-! ### What the store buffer's loops answer -/

namespace StoreRing

/-- One slot of the loop in `forward_load`; `none` means look further. -/
def forwardSlot (paddr : PhysAddr) (width : MemWidth) (loadTag : RobTag) (s : StoreSlot) :
    Option ForwardResult :=
  if s.valid then
    if !RobTag.isOlderThan s.entry.robTag loadTag then none
    else StoreBuffer.forwardFrom s.entry paddr width
  else none

/-- From the slot before the tail back to the head. -/
def forwardLoad (b : StoreRing) (paddr : PhysAddr) (width : MemWidth) (loadTag : RobTag) : ForwardResult :=
  (b.ring.searchBack (forwardSlot paddr width loadTag) b.ring.count b.prevTail).getD .miss

/-- A loop from the head that stops at the first slot of its kind. -/
def anySlot (b : StoreRing) (p : StoreBufferEntry → Bool) : Bool :=
  if b.ring.count = 0 then false
  else (b.ring.scan (fun s => s.valid && p s.entry) b.ring.count b.ring.head).isSome

def hasCommittedStores (b : StoreRing) : Bool := b.anySlot fun e => e.resolution.isCommitted

def hasUnresolvedStoreBefore (b : StoreRing) (tag : RobTag) : Bool :=
  b.anySlot fun e => RobTag.isOlderThan e.robTag tag && e.resolution.isPending

def hasOlderStoreTo (b : StoreRing) (paddr : PhysAddr) (width : MemWidth) (tag : RobTag) : Bool :=
  b.anySlot fun e => RobTag.isOlderThan e.robTag tag && StoreBuffer.conflicts e paddr width

/-- The entry a loop over the tags stops at. -/
def findByTag (b : StoreRing) (tag : RobTag) : Option StoreBufferEntry :=
  (b.ring.scan (StoreSlot.hasTag tag) b.ring.count b.ring.head).bind fun i =>
    (b.ring.slots[i]?).map (·.entry)

def isUnresolved (b : StoreRing) (tag : RobTag) : Bool :=
  if b.ring.count = 0 then false else (b.findByTag tag).any fun e => e.resolution.isPending

def findPaddr (b : StoreRing) (tag : RobTag) : Option PhysAddr :=
  (b.findByTag tag).bind fun e => e.resolution.paddr

def freeSlots (b : StoreRing) : Nat := b.ring.cap - b.ring.count

end StoreRing

/-- A question to the buffer: of a load, of an LR or AMO, of the issue queue, of a fence, of an SC. -/
inductive StoreQuery where
  | forwardLoad (paddr : PhysAddr) (width : MemWidth) (tag : RobTag)
  | hasOlderStoreTo (paddr : PhysAddr) (width : MemWidth) (tag : RobTag)
  | hasUnresolvedStoreBefore (tag : RobTag)
  | isUnresolved (tag : RobTag)
  | hasCommittedStores
  | findPaddr (tag : RobTag)
  | freeSlots
  deriving DecidableEq, Repr

inductive StoreAnswer where
  | forwarded (r : ForwardResult)
  | yes (b : Bool)
  | paddr (a : Option PhysAddr)
  | slots (n : Nat)
  deriving DecidableEq, Repr

def StoreRing.answer (b : StoreRing) : StoreQuery → StoreAnswer
  | .forwardLoad p w t => .forwarded (b.forwardLoad p w t)
  | .hasOlderStoreTo p w t => .yes (b.hasOlderStoreTo p w t)
  | .hasUnresolvedStoreBefore t => .yes (b.hasUnresolvedStoreBefore t)
  | .isUnresolved t => .yes (b.isUnresolved t)
  | .hasCommittedStores => .yes b.hasCommittedStores
  | .findPaddr t => .paddr (b.findPaddr t)
  | .freeSlots => .slots b.freeSlots

def StoreBuffer.answer (b : StoreBuffer) : StoreQuery → StoreAnswer
  | .forwardLoad p w t => .forwarded (b.forwardLoad p w t)
  | .hasOlderStoreTo p w t => .yes (b.hasOlderStoreTo p w t)
  | .hasUnresolvedStoreBefore t => .yes (b.hasUnresolvedStoreBefore t)
  | .isUnresolved t => .yes (b.isUnresolved t)
  | .hasCommittedStores => .yes b.hasCommittedStores
  | .findPaddr t => .paddr (b.findPaddr t)
  | .freeSlots => .slots b.freeSlots

def StoreBuffer.run (b : StoreBuffer) : List StoreOp → List StoreReply × StoreBuffer
  | [] => ([], b)
  | op :: ops => ((b.step op).1 :: ((b.step op).2.run ops).1, ((b.step op).2.run ops).2)

theorem StoreBuffer.forwardScan_eq (p : PhysAddr) (w : MemWidth) (t : RobTag) (es : List StoreBufferEntry) :
    forwardScan p w t es =
      (es.findSome? fun e => if RobTag.isOlderThan e.robTag t then forwardFrom e p w else none).getD .miss := by
  induction es with
  | nil => rfl
  | cons e es ih =>
    rw [forwardScan, List.findSome?_cons]
    by_cases ht : RobTag.isOlderThan e.robTag t = true
    · rw [if_pos ht, if_pos ht]
      cases forwardFrom e p w with
      | none => exact ih
      | some r => rfl
    · rw [if_neg ht, if_neg ht]
      exact ih

namespace StoreRing

variable {b : StoreRing} {l : StoreBuffer}

theorem Refines.empty (h : b.Refines l) (h0 : b.ring.count = 0) : l.entries = [] :=
  List.length_eq_zero_iff.mp (h.count ▸ h0)

theorem Refines.forwardLoad (h : b.Refines l) (p : PhysAddr) (w : MemWidth) (t : RobTag) :
    b.forwardLoad p w t = l.forwardLoad p w t := by
  have hslot : ∀ e : StoreBufferEntry, forwardSlot p w t ⟨e, true⟩ =
      if RobTag.isOlderThan e.robTag t then StoreBuffer.forwardFrom e p w else none := by
    intro e
    show (if !RobTag.isOlderThan e.robTag t then none else StoreBuffer.forwardFrom e p w) = _
    cases RobTag.isOlderThan e.robTag t <;> rfl
  unfold StoreRing.forwardLoad StoreBuffer.forwardLoad
  rw [show b.prevTail = b.ring.prev b.ring.tail from rfl, Circular.searchBack_eq h.wf, h.contents,
    ← List.map_reverse, List.findSome?_map, StoreBuffer.forwardScan_eq]
  congr 2
  funext e
  exact hslot e

theorem Refines.anySlot (h : b.Refines l) (p : StoreBufferEntry → Bool) : b.anySlot p = l.entries.any p := by
  unfold StoreRing.anySlot
  by_cases h0 : b.ring.count = 0
  · rw [if_pos h0, h.empty h0]
    rfl
  · rw [if_neg h0, Circular.scan_eq h.wf, Option.isSome_map, List.findIdx?_isSome, h.contents, List.any_map]
    rfl

theorem Refines.findByTag (h : b.Refines l) (tag : RobTag) :
    b.findByTag tag = l.entries.find? fun e => e.robTag == tag := by
  unfold StoreRing.findByTag
  rw [h.scan]
  cases hk : l.entries.findIdx? fun e => e.robTag == tag with
  | none =>
    rw [List.findIdx?_eq_none_iff] at hk
    refine (List.find?_eq_none.mpr fun e he => ?_).symm
    rw [hk e he]
    simp
  | some k =>
    have hlt := h.lt_count hk
    have hcap := h.wf.count
    obtain ⟨hlen, htag, hbefore⟩ := List.findIdx?_eq_some_iff_getElem.mp hk
    rw [Option.map_some, Option.bind_some, Circular.getElem?_index _ (by omega),
      ← Circular.getElem?_contents _ hlt, h.contents, List.getElem?_map, List.getElem?_eq_getElem hlen]
    show some l.entries[k] = _
    symm
    rw [List.find?_eq_some_iff_getElem]
    refine ⟨htag, k, hlen, rfl, fun j hj => ?_⟩
    simpa using hbefore j hj

/-- **The ring answers as the list does.** -/
theorem Refines.answer (h : b.Refines l) (q : StoreQuery) : b.answer q = l.answer q := by
  cases q with
  | forwardLoad p w t => exact congrArg StoreAnswer.forwarded (h.forwardLoad p w t)
  | hasOlderStoreTo p w t => exact congrArg StoreAnswer.yes (h.anySlot _)
  | hasUnresolvedStoreBefore t => exact congrArg StoreAnswer.yes (h.anySlot _)
  | isUnresolved t =>
    refine congrArg StoreAnswer.yes ?_
    unfold StoreRing.isUnresolved StoreBuffer.isUnresolved
    by_cases h0 : b.ring.count = 0
    · rw [if_pos h0, h.empty h0]
      rfl
    · rw [if_neg h0, h.findByTag]
      cases l.entries.find? fun e => e.robTag == t <;> rfl
  | hasCommittedStores => exact congrArg StoreAnswer.yes (h.anySlot _)
  | findPaddr t =>
    refine congrArg StoreAnswer.paddr ?_
    unfold StoreRing.findPaddr StoreBuffer.findPaddr
    rw [h.findByTag]
  | freeSlots =>
    refine congrArg StoreAnswer.slots ?_
    unfold StoreRing.freeSlots StoreBuffer.freeSlots
    rw [h.count, h.cap]

theorem Refines.run (h : b.Refines l) (ops : List StoreOp) :
    (b.run ops).1 = (l.run ops).1 ∧ (b.run ops).2.Refines (l.run ops).2 := by
  induction ops generalizing b l with
  | nil => exact ⟨rfl, h⟩
  | cons op ops ih =>
    obtain ⟨hr, href⟩ := h.step op
    obtain ⟨hrs, hend⟩ := ih href
    refine ⟨?_, hend⟩
    show (b.step op).1 :: _ = (l.step op).1 :: _
    rw [hr, hrs]

/-- **The store buffer's loops see the list of stores.** After any calls, also ones the pipelines
never make, the buffer answers a load's search for its bytes, the ordering tests of LR and AMO,
the issue queue's tests and a fence's drain test as the list of stores does that the same calls
leave, and it has replied to every call as the list did. -/
theorem run_answers (capacity : Nat) (ops : List StoreOp) (q : StoreQuery) :
    ((new capacity).run ops).1 = ((StoreBuffer.new capacity).run ops).1 ∧
      ((new capacity).run ops).2.answer q = ((StoreBuffer.new capacity).run ops).2.answer q := by
  obtain ⟨hr, href⟩ := (Refines.new capacity).run ops
  exact ⟨hr, href.answer q⟩

end StoreRing

end Rvsim
