/-
# The reorder buffer as a ring

`pipeline/rob.rs` as the source lays it out: a circular buffer of slots, a
wrapping tag counter and an index from tags to slots. Beside it a bounded
FIFO whose entries carry their unwrapped allocation number; the ring refines
it along every sequence of operations whose live numbers stay within `2^31`.
The pipelines are modelled over the FIFO's list of entries, `Rob`.

Key definitions:
  - `RobRing`, `RobRing.flushAfter`, `RobFifo`, `RobOp`
Key theorems:
  - `RobRing.flushAfter_refines`, `RobRing.run_refines`, `RobFifo.toRob_step`
-/
import Rvsim.Rob
import Rvsim.Lib.Circular

namespace Rvsim

inductive ExceptionStage where
  | fetch
  | decode
  | execute
  | memory
  deriving DecidableEq, Repr

/-- A slot of the buffer: an entry, the stage its fault was seen in, and whether it is occupied. -/
structure RobSlot where
  entry : RobEntry
  exceptionStage : Option ExceptionStage := none
  valid : Bool := true
  deriving DecidableEq, Repr

namespace RobSlot

/-- `RobEntry::default()`. -/
def vacant : RobSlot where
  entry :=
    { tag := 0, pc := 0, inst := 0, instSize := .standard, rd := 0, rdFp := false, ctrl := {},
      physDst := 0, oldPhysDst := 0 }
  valid := false

def invalidate (s : RobSlot) : RobSlot := { s with valid := false }

/-- A faulted entry stays faulted. -/
def complete (result : U64) (s : RobSlot) : RobSlot :=
  if s.entry.state = .faulted then s
  else { s with entry := { s.entry with state := .completed, result := some result } }

def fault (trap : Trap) (stage : ExceptionStage) (s : RobSlot) : RobSlot :=
  { s with entry := { s.entry with state := .faulted, trap := some trap }, exceptionStage := some stage }

end RobSlot

/-- The arguments of `allocate`. -/
structure RobAlloc where
  pc : U64
  inst : U32
  instSize : InstSize
  rd : RegIdx
  rdFp : Bool
  ctrl : ControlSignals
  physDst : PhysReg
  oldPhysDst : PhysReg
  deriving DecidableEq, Repr

def RobAlloc.slot (a : RobAlloc) (tag : RobTag) : RobSlot where
  entry :=
    { tag, pc := a.pc, inst := a.inst, instSize := a.instSize, rd := a.rd, rdFp := a.rdFp,
      ctrl := a.ctrl, physDst := a.physDst, oldPhysDst := a.oldPhysDst }

structure RobRing where
  ring : Circular RobSlot
  nextTag : RobTag
  tagIndex : RobTag → Option Nat

namespace RobRing

def new (capacity : Nat) : RobRing where
  ring := ⟨List.replicate capacity .vacant, 0, 0, 0⟩
  nextTag := 1
  tagIndex := fun _ => none

def allocate (r : RobRing) (a : RobAlloc) : Option RobTag × RobRing :=
  if r.ring.count = r.ring.cap then (none, r)
  else
    (some r.nextTag,
      { ring := r.ring.push (a.slot r.nextTag)
        nextTag := r.nextTag.next
        tagIndex := Function.update r.tagIndex r.nextTag (some r.ring.tail) })

def findEntry (r : RobRing) (tag : RobTag) : Option RobSlot :=
  match r.tagIndex tag with
  | none => none
  | some i => (r.ring.slots[i]?).filter fun s => s.valid

/-- What a change through `find_entry_mut` does. -/
def modify (r : RobRing) (tag : RobTag) (f : RobSlot → RobSlot) : RobRing :=
  match r.tagIndex tag with
  | none => r
  | some i => { r with ring := r.ring.modify i fun s => if s.valid then f s else s }

def complete (r : RobRing) (tag : RobTag) (result : U64) : RobRing :=
  r.modify tag (RobSlot.complete result)

def fault (r : RobRing) (tag : RobTag) (trap : Trap) (stage : ExceptionStage) : RobRing :=
  r.modify tag (RobSlot.fault trap stage)

def commitHead (r : RobRing) : Option RobSlot × RobRing :=
  if r.ring.count = 0 then (none, r)
  else
    match r.ring.slots[r.ring.head]? with
    | none => (none, r)
    | some s =>
      if s.entry.state = .issued then (none, r)
      else
        (some s,
          { r with
            ring := r.ring.pop RobSlot.invalidate
            tagIndex := Function.update r.tagIndex s.entry.tag none })

def flushAll (r : RobRing) : RobRing :=
  { r with ring := ⟨r.ring.slots.map RobSlot.invalidate, 0, 0, 0⟩, tagIndex := fun _ => none }

/-- One slot of the removal loop of `flush_after`. -/
def removeSlot (i : Nat) (s : List RobSlot × (RobTag → Option Nat)) :
    List RobSlot × (RobTag → Option Nat) :=
  match s.1[i]? with
  | none => s
  | some x => (s.1.modify i RobSlot.invalidate, Function.update s.2 x.entry.tag none)

/-- One slot of the recount. -/
def countSlot (slots : List RobSlot) (i n : Nat) : Nat :=
  if (slots[i]?).any fun s => s.valid then n + 1 else n

/-- `none` would be one of the two `while` loops not coming to its end. -/
def flushAfter (r : RobRing) (tag : RobTag) : Option RobRing :=
  let cap := r.ring.cap
  if r.ring.count = 0 then some r
  else
    match r.ring.scan (fun s => s.entry.tag == tag) r.ring.count r.ring.head with
    | none => some r
    | some idx =>
      let keepIdx := r.ring.next idx
      if keepIdx = r.ring.tail then some r
      else do
        let (slots, tagIndex) ←
          Circular.walk cap r.ring.tail removeSlot cap keepIdx (r.ring.slots, r.tagIndex)
        let count ← Circular.walk cap keepIdx (countSlot slots) cap r.ring.head 0
        some { r with ring := ⟨slots, r.ring.head, keepIdx, count⟩, tagIndex }

/-- The live entries, oldest first. -/
def iterInOrder (r : RobRing) : List RobSlot :=
  (List.range r.ring.count).filterMap fun i => (r.ring.slots[r.ring.index i]?).filter fun s => s.valid

end RobRing

/-! ### The bounded FIFO -/

/-- The queue the buffer stands for: slots with the number of their allocation, where the number
of an allocation is its tag before wrapping. -/
structure RobFifo where
  capacity : Nat
  items : List (Nat × RobSlot)
  next : Nat

namespace RobFifo

def tagOf (n : Nat) : RobTag := BitVec.ofNat 32 n

/-- The next number whose tag is not `0`. -/
def succ (n : Nat) : Nat := if tagOf (n + 1) = 0 then n + 2 else n + 1

def new (capacity : Nat) : RobFifo := ⟨capacity, [], 1⟩

def entries (q : RobFifo) : List RobSlot := q.items.map (·.2)

def allocate (q : RobFifo) (a : RobAlloc) : Option RobTag × RobFifo :=
  if q.items.length = q.capacity then (none, q)
  else
    (some (tagOf q.next),
      { q with items := q.items ++ [(q.next, a.slot (tagOf q.next))], next := succ q.next })

def modify (q : RobFifo) (tag : RobTag) (f : RobSlot → RobSlot) : RobFifo :=
  { q with items := q.items.map fun i => if i.2.entry.tag = tag then (i.1, f i.2) else i }

def commitHead (q : RobFifo) : Option RobSlot × RobFifo :=
  match q.items with
  | [] => (none, q)
  | i :: rest => if i.2.entry.state = .issued then (none, q) else (some i.2, { q with items := rest })

def flushAll (q : RobFifo) : RobFifo := { q with items := [] }

/-- Drop what was allocated after the entry with this tag, if there is one. -/
def flushAfter (q : RobFifo) (tag : RobTag) : RobFifo :=
  match q.items.find? fun i => i.2.entry.tag == tag with
  | none => q
  | some i => { q with items := q.items.filter fun j => decide (j.1 ≤ i.1) }

/-- The allocations alive at once span less than half the tag space. -/
def Spanned (q : RobFifo) : Prop := ∀ a ∈ q.items, ∀ b ∈ q.items, b.1 < a.1 + 2 ^ 31

instance (q : RobFifo) : Decidable q.Spanned :=
  inferInstanceAs (Decidable (∀ a ∈ q.items, ∀ b ∈ q.items, b.1 < a.1 + 2 ^ 31))

end RobFifo

/-! ### Operations -/

inductive RobOp where
  | allocate (a : RobAlloc)
  | complete (tag : RobTag) (result : U64)
  | fault (tag : RobTag) (trap : Trap) (stage : ExceptionStage)
  | commitHead
  | flushAfter (tag : RobTag)
  | flushAll
  deriving DecidableEq, Repr

/-- What an operation returns. -/
inductive RobReply where
  | tag (t : Option RobTag)
  | entry (s : Option RobSlot)
  | unit
  deriving DecidableEq, Repr

def RobRing.step (r : RobRing) : RobOp → Option (RobReply × RobRing)
  | .allocate a => some (.tag (r.allocate a).1, (r.allocate a).2)
  | .complete t v => some (.unit, r.complete t v)
  | .fault t trap stage => some (.unit, r.fault t trap stage)
  | .commitHead => some (.entry r.commitHead.1, r.commitHead.2)
  | .flushAfter t => (r.flushAfter t).map fun r => (.unit, r)
  | .flushAll => some (.unit, r.flushAll)

def RobFifo.step (q : RobFifo) : RobOp → RobReply × RobFifo
  | .allocate a => (.tag (q.allocate a).1, (q.allocate a).2)
  | .complete t v => (.unit, q.modify t (RobSlot.complete v))
  | .fault t trap stage => (.unit, q.modify t (RobSlot.fault trap stage))
  | .commitHead => (.entry q.commitHead.1, q.commitHead.2)
  | .flushAfter t => (.unit, q.flushAfter t)
  | .flushAll => (.unit, q.flushAll)

def RobRing.run (r : RobRing) : List RobOp → Option (List RobReply × RobRing)
  | [] => some ([], r)
  | op :: ops => do
    let (reply, r) ← r.step op
    let (replies, r) ← r.run ops
    some (reply :: replies, r)

def RobFifo.run (q : RobFifo) : List RobOp → List RobReply × RobFifo
  | [] => ([], q)
  | op :: ops =>
    let s := q.step op
    let rest := s.2.run ops
    (s.1 :: rest.1, rest.2)

/-! ### The FIFO keeps allocation order -/

namespace RobFifo

/-- Numbers below `2^31` apart are compared rightly by their tags. -/
theorem tagOf_older {a b : Nat} (h : a < b) (hb : b < a + 2 ^ 31) :
    RobTag.isOlderThan (tagOf a) (tagOf b) = true ∧ RobTag.isOlderThan (tagOf b) (tagOf a) = false := by
  simp only [RobTag.isOlderThan, tagOf, BitVec.msb_eq_decide, BitVec.toNat_sub, BitVec.toNat_ofNat]
  constructor
  · rw [decide_eq_true_eq]
    omega
  · rw [decide_eq_false_iff_not]
    omega

theorem tagOf_succ {n : Nat} : tagOf (succ n) = (tagOf n).next := by
  have hadd : tagOf (n + 1) = tagOf n + 1 := BitVec.ofNat_add n 1
  unfold succ RobTag.next
  rw [← hadd]
  by_cases h : tagOf (n + 1) = 0
  · rw [if_pos h, if_pos h]
    have h2 : tagOf (n + 2) = tagOf (n + 1) + 1 := BitVec.ofNat_add (n + 1) 1
    rw [h2, h]
    rfl
  · rw [if_neg h, if_neg h]

theorem lt_succ (n : Nat) : n < succ n := by
  unfold succ
  split <;> omega

/-- Items stand in the order of their numbers, each under the tag of its number. -/
structure Ordered (q : RobFifo) : Prop where
  sorted : q.items.Pairwise fun a b => a.1 < b.1
  items : ∀ i ∈ q.items, i.1 < q.next ∧ i.2.entry.tag = tagOf i.1 ∧ i.2.valid = true

theorem Ordered.new (capacity : Nat) : (new capacity).Ordered :=
  ⟨List.Pairwise.nil, by simp [RobFifo.new]⟩

theorem Ordered.sublist {q : RobFifo} (h : q.Ordered) {l : List (Nat × RobSlot)}
    (hl : l.Sublist q.items) : Ordered { q with items := l } :=
  ⟨h.sorted.sublist hl, fun i hi => h.items i (hl.subset hi)⟩

theorem Ordered.modify {q : RobFifo} (h : q.Ordered) (tag : RobTag) {f : RobSlot → RobSlot}
    (hf : ∀ s, (f s).entry.tag = s.entry.tag ∧ (f s).valid = s.valid) : (q.modify tag f).Ordered := by
  constructor
  · refine List.pairwise_map.mpr (h.sorted.imp fun {a b} hab => ?_)
    have hfst : ∀ i : Nat × RobSlot, (if i.2.entry.tag = tag then (i.1, f i.2) else i).1 = i.1 := by
      intro i
      split <;> rfl
    rw [hfst, hfst]
    exact hab
  · intro i hi
    obtain ⟨j, hj, rfl⟩ := List.mem_map.mp hi
    have := h.items j hj
    split
    · exact ⟨this.1, (hf j.2).1.trans this.2.1, (hf j.2).2.trans this.2.2⟩
    · exact this

theorem Ordered.allocate {q : RobFifo} (h : q.Ordered) (a : RobAlloc) : (q.allocate a).2.Ordered := by
  unfold RobFifo.allocate
  split
  · exact h
  · constructor
    · refine List.pairwise_append.mpr ⟨h.sorted, List.pairwise_singleton _ _, fun i hi j hj => ?_⟩
      rw [List.mem_singleton.mp hj]
      exact (h.items i hi).1
    · intro i hi
      rcases List.mem_append.mp hi with hi | hi
      · exact ⟨(h.items i hi).1.trans (lt_succ _), (h.items i hi).2⟩
      · rw [List.mem_singleton.mp hi]
        exact ⟨lt_succ _, rfl, rfl⟩

theorem Ordered.step {q : RobFifo} (h : q.Ordered) (op : RobOp) : (q.step op).2.Ordered := by
  cases op with
  | allocate a => exact h.allocate a
  | complete t v =>
    refine h.modify t fun s => ?_
    unfold RobSlot.complete
    split <;> exact ⟨rfl, rfl⟩
  | fault t trap stage => exact h.modify t fun s => ⟨rfl, rfl⟩
  | commitHead =>
    show q.commitHead.2.Ordered
    unfold RobFifo.commitHead
    split
    · exact h
    · next i rest hi =>
      split
      · exact h
      · exact h.sublist (hi ▸ List.sublist_cons_self i rest)
  | flushAfter t =>
    show (q.flushAfter t).Ordered
    unfold RobFifo.flushAfter
    split
    · exact h
    · exact h.sublist List.filter_sublist
  | flushAll => exact h.sublist (List.nil_sublist _)

/-- Within the span, tags grow along the queue. -/
theorem Ordered.older {q : RobFifo} (h : q.Ordered) (hs : q.Spanned) :
    q.entries.Pairwise fun a b =>
      RobTag.isOlderThan a.entry.tag b.entry.tag = true ∧ RobTag.isOlderThan b.entry.tag a.entry.tag = false := by
  refine List.pairwise_map.mpr (h.sorted.imp_of_mem fun {a b} ha hb hab => ?_)
  rw [(h.items a ha).2.1, (h.items b hb).2.1]
  exact tagOf_older hab (hs a ha b hb)

theorem Ordered.nodup {q : RobFifo} (h : q.Ordered) (hs : q.Spanned) :
    (q.entries.map fun s => s.entry.tag).Nodup := by
  refine List.pairwise_map.mpr ((h.older hs).imp fun {a b} hab heq => ?_)
  rw [heq, hab.2] at hab
  exact absurd hab.1 (by simp)

/-- A tag stands at one place of the queue. -/
theorem Ordered.place_inj {q : RobFifo} (h : q.Ordered) (hs : q.Spanned) {j k : Nat} {a b : RobSlot}
    (ha : q.entries[j]? = some a) (hb : q.entries[k]? = some b) (hab : a.entry.tag = b.entry.tag) :
    j = k := by
  have hmap : ∀ {k : Nat} {s : RobSlot}, q.entries[k]? = some s →
      (q.entries.map fun s => s.entry.tag)[k]? = some s.entry.tag := fun hk => by
    rw [List.getElem?_map, hk]
    rfl
  obtain ⟨hj, ea⟩ := List.getElem?_eq_some_iff.mp (hmap ha)
  obtain ⟨hk, eb⟩ := List.getElem?_eq_some_iff.mp (hmap hb)
  exact (h.nodup hs).getElem_inj_iff.mp (ea.trans (hab.trans eb.symm))

/-- A flush at the item `i` keeps the items up to `i`. -/
theorem Ordered.flushAfter {q : RobFifo} (h : q.Ordered) {older younger : List (Nat × RobSlot)}
    {i : Nat × RobSlot} (hq : q.items = older ++ i :: younger)
    (hi : q.items.find? (fun j => j.2.entry.tag == i.2.entry.tag) = some i) :
    q.flushAfter i.2.entry.tag = { q with items := older ++ [i] } := by
  have hsorted := h.sorted
  rw [hq, List.pairwise_append, List.pairwise_cons] at hsorted
  have hfilter : q.items.filter (fun j => decide (j.1 ≤ i.1)) = older ++ [i] := by
    rw [hq, List.filter_append, List.filter_cons_of_pos (by simp)]
    congr 1
    · refine List.filter_eq_self.mpr fun j hj => ?_
      have := hsorted.2.2 j hj i (by simp)
      simp only [decide_eq_true_eq]
      omega
    · congr 1
      refine List.filter_eq_nil_iff.mpr fun j hj => ?_
      have := hsorted.2.1.1 j hj
      simp only [decide_eq_true_eq]
      omega
  unfold RobFifo.flushAfter
  rw [hi]
  simp only [hfilter]

theorem Ordered.valid {q : RobFifo} (h : q.Ordered) {s : RobSlot} (hs : s ∈ q.entries) :
    s.valid = true := by
  obtain ⟨i, hi, rfl⟩ := List.mem_map.mp hs
  exact (h.items i hi).2.2

end RobFifo

/-! ### The ring refines the FIFO -/

namespace RobRing

/-- The ring holds the queue's entries from its head on, and indexes exactly their tags. -/
structure Refines (r : RobRing) (q : RobFifo) : Prop where
  wf : r.ring.WF
  cap : r.ring.cap = q.capacity
  contents : r.ring.contents = q.entries
  next : r.nextTag = RobFifo.tagOf q.next
  index : ∀ t i, r.tagIndex t = some i ↔
    ∃ k s, q.entries[k]? = some s ∧ s.entry.tag = t ∧ r.ring.index k = i

variable {r : RobRing} {q : RobFifo}

theorem Refines.count (h : r.Refines q) : r.ring.count = q.entries.length := by
  rw [← Circular.length_contents h.wf, h.contents]

theorem Refines.lt_count (h : r.Refines q) {k : Nat} {s : RobSlot} (hk : q.entries[k]? = some s) :
    k < r.ring.count := by
  rw [h.count]
  exact (List.getElem?_eq_some_iff.mp hk).1

theorem Refines.slot (h : r.Refines q) {k : Nat} {s : RobSlot} (hk : q.entries[k]? = some s) :
    r.ring.slots[r.ring.index k]? = some s := by
  have hlt := h.lt_count hk
  have hcap := h.wf.count
  rw [Circular.getElem?_index _ (by omega), ← Circular.getElem?_contents _ hlt, h.contents, hk]

theorem Refines.new (capacity : Nat) : (new capacity).Refines (RobFifo.new capacity) where
  wf := ⟨Nat.zero_mod _, (Nat.zero_mod _).symm, Nat.zero_le _⟩
  cap := List.length_replicate
  contents := List.take_zero
  next := rfl
  index := by simp [RobRing.new, RobFifo.new, RobFifo.entries]

/-- `find_entry` finds exactly the live entries. -/
theorem Refines.findEntry (h : r.Refines q) (ho : q.Ordered) (t : RobTag) (s : RobSlot) :
    r.findEntry t = some s ↔ s ∈ q.entries ∧ s.entry.tag = t := by
  unfold RobRing.findEntry
  constructor
  · intro hf
    cases hi : r.tagIndex t with
    | none => simp [hi] at hf
    | some i =>
      obtain ⟨k, s', hk, ht, rfl⟩ := (h.index t i).mp hi
      simp only [hi, h.slot hk, Option.filter_eq_some_iff, Option.some.injEq] at hf
      obtain ⟨rfl, -⟩ := hf
      exact ⟨List.mem_of_getElem? hk, ht⟩
  · rintro ⟨hs, ht⟩
    obtain ⟨k, hk⟩ := List.mem_iff_getElem?.mp hs
    simp only [(h.index t _).mpr ⟨k, s, hk, ht, rfl⟩, h.slot hk]
    simp [ho.valid hs]

theorem Refines.allocate (h : r.Refines q) (a : RobAlloc) (ho : (q.allocate a).2.Ordered)
    (hs : (q.allocate a).2.Spanned) :
    (r.allocate a).1 = (q.allocate a).1 ∧ (r.allocate a).2.Refines (q.allocate a).2 := by
  have hnodup := ho.nodup hs
  have hcount := h.count
  have hle := h.wf.count
  have hcap := h.cap
  have hlen : q.entries.length = q.items.length := List.length_map _
  unfold RobRing.allocate
  unfold RobFifo.allocate at hnodup ⊢
  by_cases hfull : r.ring.count = r.ring.cap
  · rw [if_pos hfull, if_pos (by omega)]
    exact ⟨rfl, h⟩
  · rw [if_neg hfull]
    rw [if_neg (by omega)] at hnodup ⊢
    refine ⟨by rw [h.next], ?_⟩
    have hentries : RobFifo.entries { q with
        items := q.items ++ [(q.next, a.slot (RobFifo.tagOf q.next))], next := RobFifo.succ q.next } =
        q.entries ++ [a.slot (RobFifo.tagOf q.next)] := by
      simp [RobFifo.entries]
    have hfresh : ∀ s ∈ q.entries, s.entry.tag ≠ RobFifo.tagOf q.next := by
      rw [hentries, List.map_append, List.nodup_append] at hnodup
      intro s hs
      exact hnodup.2.2 _ (List.mem_map_of_mem hs) _ (by simp [RobAlloc.slot])
    have hidx : ∀ k, (r.ring.push (a.slot r.nextTag)).index k = r.ring.index k := fun k => by
      simp only [Circular.index, Circular.cap_push]
      rfl
    refine ⟨Circular.wf_push h.wf _ (by omega), ?_, ?_, ?_, ?_⟩
    · rw [Circular.cap_push, h.cap]
    · rw [Circular.contents_push h.wf _ (by omega), h.contents, h.next, hentries]
    · show r.nextTag.next = _
      rw [h.next, RobFifo.tagOf_succ]
    · intro t i
      rw [hentries]
      simp only [hidx]
      by_cases ht : t = r.nextTag
      · subst ht
        simp only [Function.update_self, Option.some.injEq]
        constructor
        · rintro rfl
          exact ⟨q.entries.length, _, List.getElem?_concat_length, by rw [h.next]; rfl,
            by rw [← h.count, h.wf.tail]⟩
        · rintro ⟨k, s, hk, htag, rfl⟩
          rcases Nat.lt_or_ge k q.entries.length with hlt | hge
          · rw [List.getElem?_append_left hlt] at hk
            exact absurd (htag.trans h.next) (hfresh s (List.mem_of_getElem? hk))
          · have hb := (List.getElem?_eq_some_iff.mp hk).1
            rw [List.length_append, List.length_singleton] at hb
            rw [h.wf.tail, h.count]
            congr 1
            omega
      · simp only [Function.update_of_ne ht, h.index]
        constructor
        · rintro ⟨k, s, hk, htag, rfl⟩
          exact ⟨k, s, by rw [List.getElem?_append_left (List.getElem?_eq_some_iff.mp hk).1, hk],
            htag, rfl⟩
        · rintro ⟨k, s, hk, htag, rfl⟩
          rcases Nat.lt_or_ge k q.entries.length with hlt | hge
          · rw [List.getElem?_append_left hlt] at hk
            exact ⟨k, s, hk, htag, rfl⟩
          · rw [List.getElem?_append_right hge] at hk
            have hs := List.mem_of_getElem? hk
            rw [List.mem_singleton.mp hs] at htag
            exact absurd (htag.symm.trans h.next.symm) ht

/-- Rewriting the entry behind a tag, when the rewrite keeps the tag. -/
theorem Refines.modify (h : r.Refines q) (ho : q.Ordered) (hs : q.Spanned) (tag : RobTag)
    {f : RobSlot → RobSlot} (hf : ∀ s, (f s).entry.tag = s.entry.tag) :
    (r.modify tag f).Refines (q.modify tag f) := by
  let g : RobSlot → RobSlot := fun s => if s.entry.tag = tag then f s else s
  have hgtag : ∀ s, (g s).entry.tag = s.entry.tag := by
    intro s
    show (if s.entry.tag = tag then f s else s).entry.tag = _
    split
    · exact hf s
    · rfl
  have hentries : (q.modify tag f).entries = q.entries.map g := by
    simp only [RobFifo.entries, RobFifo.modify, List.map_map]
    refine List.map_congr_left fun i _ => ?_
    show (if i.2.entry.tag = tag then (i.1, f i.2) else i).2 = if i.2.entry.tag = tag then f i.2 else i.2
    split <;> rfl
  -- the tags are those of before, so the index still fits
  have hindex : ∀ t i, r.tagIndex t = some i ↔
      ∃ k s, (q.modify tag f).entries[k]? = some s ∧ s.entry.tag = t ∧ r.ring.index k = i := by
    intro t i
    rw [h.index, hentries]
    constructor
    · rintro ⟨k, s, hk, ht, rfl⟩
      exact ⟨k, g s, by rw [List.getElem?_map, hk]; rfl, (hgtag s).trans ht, rfl⟩
    · rintro ⟨k, s, hk, ht, rfl⟩
      rw [List.getElem?_map, Option.map_eq_some_iff] at hk
      obtain ⟨s', hk, rfl⟩ := hk
      exact ⟨k, s', hk, (hgtag s').symm.trans ht, rfl⟩
  unfold RobRing.modify
  cases hi : r.tagIndex tag with
  | none =>
    -- no entry has the tag
    refine ⟨h.wf, h.cap, ?_, h.next, hindex⟩
    rw [h.contents, hentries]
    refine (List.map_id' q.entries).symm.trans (List.map_congr_left fun s hs => ?_)
    show s = if s.entry.tag = tag then f s else s
    rw [if_neg]
    intro ht
    obtain ⟨k, hk⟩ := List.mem_iff_getElem?.mp hs
    rw [(h.index tag _).mpr ⟨k, s, hk, ht, rfl⟩] at hi
    exact absurd hi (by simp)
  | some i =>
    obtain ⟨k, s, hk, ht, rfl⟩ := (h.index tag i).mp hi
    have hidx : ∀ i g k, (r.ring.modify i g).index k = r.ring.index k := fun i g k => by
      simp only [Circular.index, Circular.cap_modify]
      rfl
    refine ⟨Circular.wf_modify h.wf _ _, (Circular.cap_modify _ _ _).trans h.cap, ?_, h.next, ?_⟩
    · show (r.ring.modify (r.ring.index k) _).contents = _
      rw [(Circular.contents_modify h.wf _ (h.lt_count hk)).1, h.contents, hentries]
      refine List.ext_getElem? fun j => ?_
      rw [List.getElem?_modify, List.getElem?_map]
      cases hj : q.entries[j]? with
      | none => rfl
      | some s' =>
        have hval : s'.valid = true := ho.valid (List.mem_of_getElem? hj)
        show some (if k = j then _ else _) = some (if s'.entry.tag = tag then f s' else s')
        by_cases hkj : k = j
        · subst hkj
          rw [hk, Option.some.injEq] at hj
          subst hj
          simp [ht, hval]
        · rw [if_neg hkj, if_neg]
          intro ht'
          exact hkj (ho.place_inj hs hk hj (ht.trans ht'.symm))
    · intro t i
      show r.tagIndex t = some i ↔ ∃ j s, _ ∧ _ ∧ (r.ring.modify (r.ring.index k) _).index j = i
      simp only [hidx]
      exact hindex t i

theorem Refines.commitHead (h : r.Refines q) (ho : q.Ordered) (hs : q.Spanned) :
    r.commitHead.1 = q.commitHead.1 ∧ r.commitHead.2.Refines q.commitHead.2 := by
  have hcount := h.count
  have hlen : q.entries.length = q.items.length := List.length_map _
  unfold RobRing.commitHead RobFifo.commitHead
  cases hq : q.items with
  | nil =>
    rw [if_pos (by rw [hcount, hlen, hq]; rfl)]
    exact ⟨rfl, h⟩
  | cons i rest =>
    have hentries : q.entries = i.2 :: rest.map (·.2) := by rw [RobFifo.entries, hq, List.map_cons]
    have hpos : 0 < r.ring.count := by rw [hcount, hentries]; simp
    rw [if_neg (by omega), Circular.getElem?_head h.wf hpos, h.contents, hentries]
    simp only [List.head?_cons]
    by_cases hst : i.2.entry.state = .issued
    · rw [if_pos hst, if_pos hst]
      exact ⟨rfl, h⟩
    · rw [if_neg hst, if_neg hst]
      refine ⟨rfl, Circular.wf_pop h.wf _ hpos, (Circular.cap_pop _ _).trans h.cap, ?_, h.next, ?_⟩
      · exact (Circular.contents_pop h.wf _ (h.contents.trans hentries)).1
      · have hshift : ∀ k, (r.ring.pop RobSlot.invalidate).index k = r.ring.index (k + 1) := by
          intro k
          show (r.ring.next r.ring.head + k) % _ = _
          rw [Circular.cap_pop, Circular.next, Circular.index, Nat.mod_add_mod]
          congr 1
          omega
        intro t j
        show Function.update r.tagIndex i.2.entry.tag none t = some j ↔ ∃ k s, _ ∧ _ ∧ _ = j
        simp only [hshift]
        by_cases ht : t = i.2.entry.tag
        · subst ht
          simp only [Function.update_self, reduceCtorEq, false_iff]
          rintro ⟨k, s, hk, htag, -⟩
          have hk' : q.entries[k + 1]? = some s := by rw [hentries]; exact hk
          have h0 : q.entries[0]? = some i.2 := by rw [hentries]; rfl
          exact absurd (ho.place_inj hs hk' h0 htag) (by omega)
        · rw [Function.update_of_ne ht, h.index]
          constructor
          · rintro ⟨k, s, hk, htag, rfl⟩
            cases k with
            | zero =>
              rw [hentries, List.getElem?_cons_zero, Option.some.injEq] at hk
              exact absurd (hk ▸ htag.symm) ht
            | succ k => exact ⟨k, s, by rw [hentries] at hk; exact hk, htag, rfl⟩
          · rintro ⟨k, s, hk, htag, rfl⟩
            exact ⟨k + 1, s, by rw [hentries]; exact hk, htag, rfl⟩

theorem Refines.flushAll (h : r.Refines q) : r.flushAll.Refines q.flushAll where
  wf := ⟨Nat.zero_mod _, (Nat.zero_mod _).symm, Nat.zero_le _⟩
  cap := (List.length_map _).trans h.cap
  contents := List.take_zero
  next := h.next
  index := by simp [RobRing.flushAll, RobFifo.flushAll, RobFifo.entries]

/-! #### The flush -/

/-- After `n` turns of the removal loop behind `kept`: the slots passed are no longer valid and
their tags are gone from the index. -/
theorem foldl_removeSlot (c : Circular RobSlot) (index : RobTag → Option Nat) {kept gone rest : List RobSlot}
    (hu : c.unrolled = kept ++ gone ++ rest) :
    let s := (List.range gone.length).foldl
      (fun s j => removeSlot ((c.head + kept.length + j) % c.cap) s) (c.slots, index)
    s.1.length = c.cap ∧ { c with slots := s.1 }.unrolled = kept ++ gone.map RobSlot.invalidate ++ rest ∧
      ∀ t, s.2 t = if t ∈ gone.map (fun x => x.entry.tag) then none else index t := by
  induction gone using List.reverseRecOn generalizing rest with
  | nil => exact ⟨rfl, by simpa using hu, by simp⟩
  | append_singleton gone x ih =>
    have hu' : c.unrolled = kept ++ gone ++ x :: rest := by simpa using hu
    obtain ⟨hlen, hun, hidx⟩ := ih hu'
    rw [List.length_append, List.length_singleton, List.range_succ, List.foldl_append]
    generalize (List.range gone.length).foldl
      (fun s j => removeSlot ((c.head + kept.length + j) % c.cap) s) (c.slots, index) = s at hlen hun hidx ⊢
    have hcap : { c with slots := s.1 }.cap = c.cap := hlen
    have hpos : kept.length + gone.length < c.cap := by
      rw [← Circular.length_unrolled, hu]
      simp only [List.length_append, List.length_singleton]
      omega
    have hat : (c.head + kept.length + gone.length) % c.cap =
        { c with slots := s.1 }.index (kept.length + gone.length) := by
      rw [Circular.index, hcap, Nat.add_assoc]
    have hlen' : kept.length + gone.length = (kept ++ gone.map RobSlot.invalidate).length := by simp
    have hx : s.1[{ c with slots := s.1 }.index (kept.length + gone.length)]? = some x := by
      rw [Circular.getElem?_index { c with slots := s.1 } (by omega), hun, hlen',
        List.getElem?_append_right (le_refl _)]
      simp
    simp only [List.foldl_cons, List.foldl_nil, hat]
    rw [removeSlot, hx]
    refine ⟨by rw [List.length_modify]; exact hlen, ?_, ?_⟩
    · have hmod := Circular.unrolled_modify { c with slots := s.1 } RobSlot.invalidate
        (k := kept.length + gone.length) (by omega)
      rw [hun, hlen', Circular.modify_length_append, ← hlen'] at hmod
      refine hmod.trans ?_
      simp
    · intro t
      show Function.update s.2 x.entry.tag none t = _
      by_cases ht : t = x.entry.tag
      · subst ht
        simp
      · rw [Function.update_of_ne ht, hidx]
        simp [ht]

/-- The recount finds the kept entries, all of them valid. -/
theorem foldl_countSlot (c : Circular RobSlot) {kept rest : List RobSlot}
    (hu : c.unrolled = kept ++ rest) (hv : ∀ s ∈ kept, s.valid = true) :
    (List.range kept.length).foldl (fun n j => countSlot c.slots ((c.head + j) % c.cap) n) 0 =
      kept.length := by
  induction kept using List.reverseRecOn generalizing rest with
  | nil => rfl
  | append_singleton kept x ih =>
    have hx : c.slots[c.index kept.length]? = some x := by
      have hpos : kept.length < c.cap := by
        rw [← Circular.length_unrolled, hu]
        simp only [List.length_append, List.length_singleton]
        omega
      rw [Circular.getElem?_index c hpos, hu, List.append_assoc,
        List.getElem?_append_right (le_refl _)]
      simp
    have hu' : c.unrolled = kept ++ x :: rest := by simpa using hu
    rw [List.length_append, List.length_singleton, List.range_succ, List.foldl_append,
      ih hu' fun s hs => hv s (List.mem_append_left _ hs)]
    show countSlot c.slots (c.index kept.length) kept.length = _
    rw [countSlot, hx]
    simp [hv x (by simp)]

/-- The loops of the flush, once the kept entry is found and is not the youngest. -/
theorem flushAfter_loops (h : r.Refines q) (ho : q.Ordered) {kept gone : List RobSlot}
    (hq : q.entries = kept ++ gone) (hk : kept ≠ []) (hg : gone ≠ []) :
    ∃ slots tagIndex, (do
        let (slots, tagIndex) ← Circular.walk r.ring.cap r.ring.tail removeSlot r.ring.cap
          (r.ring.index kept.length) (r.ring.slots, r.tagIndex)
        let count ← Circular.walk r.ring.cap (r.ring.index kept.length) (countSlot slots) r.ring.cap
          r.ring.head 0
        some { r with ring := ⟨slots, r.ring.head, r.ring.index kept.length, count⟩, tagIndex }) =
      some { r with ring := ⟨slots, r.ring.head, r.ring.index kept.length, kept.length⟩, tagIndex } ∧
      slots.length = r.ring.cap ∧
      { r.ring with slots := slots }.unrolled.take kept.length = kept ∧
      ∀ t, tagIndex t = if t ∈ gone.map (fun x => x.entry.tag) then none else r.tagIndex t := by
  have hcount : r.ring.count = kept.length + gone.length := by rw [h.count, hq, List.length_append]
  have hkpos := List.length_pos_of_ne_nil hk
  have hgpos := List.length_pos_of_ne_nil hg
  have hle := h.wf.count
  have hu : r.ring.unrolled = kept ++ gone ++ r.ring.spare := by
    rw [← hq, ← h.contents]
    exact (List.take_append_drop _ _).symm
  obtain ⟨hlen, hun, hidx⟩ := foldl_removeSlot r.ring r.tagIndex hu
  -- the removal goes from behind the kept entry to the tail
  have htail : r.ring.tail = (r.ring.head + kept.length + gone.length) % r.ring.cap := by
    rw [h.wf.tail, Circular.index, hcount, Nat.add_assoc]
  have hremove := Circular.walk_eq removeSlot (n := gone.length) r.ring.cap
    (r.ring.head + kept.length) (r.ring.slots, r.tagIndex) (by omega : _ < r.ring.cap) (by omega)
  rw [← htail] at hremove
  generalize (List.range gone.length).foldl
    (fun s j => removeSlot ((r.ring.head + kept.length + j) % r.ring.cap) s) (r.ring.slots, r.tagIndex) = s
    at hlen hun hidx hremove
  have hcap : { r.ring with slots := s.1 }.cap = r.ring.cap := hlen
  -- the recount goes from the head to behind the kept entry
  have hrecount := Circular.walk_eq (countSlot s.1) (n := kept.length) r.ring.cap
    r.ring.head 0 (by omega : _ < r.ring.cap) (by omega)
  have hfound := foldl_countSlot { r.ring with slots := s.1 } (hun.trans (List.append_assoc _ _ _)) fun x hx =>
      ho.valid (hq ▸ List.mem_append_left _ hx)
  rw [hcap] at hfound
  rw [hfound, h.wf.head] at hrecount
  refine ⟨s.1, s.2, ?_, hlen, ?_, hidx⟩
  · have hremove' : Circular.walk r.ring.cap r.ring.tail removeSlot r.ring.cap
        (r.ring.index kept.length) (r.ring.slots, r.tagIndex) = some s := hremove
    have hrecount' : Circular.walk r.ring.cap (r.ring.index kept.length) (countSlot s.1) r.ring.cap
        r.ring.head 0 = some kept.length := hrecount
    rw [hremove']
    show Option.bind _ _ = _
    simp only [Option.bind_some]
    rw [hrecount']
    rfl
  · rw [hun, List.append_assoc, List.take_left]

/-- The scan for the kept entry. -/
theorem scan_tag (h : r.Refines q) (tag : RobTag) :
    r.ring.scan (fun s => s.entry.tag == tag) r.ring.count r.ring.head =
      (q.entries.findIdx? fun s => s.entry.tag == tag).map r.ring.index := by
  rw [Circular.scan_eq h.wf, h.contents]

/-- A ring cut behind `kept`, with the tags of the rest taken from the index. -/
theorem Refines.cut (h : r.Refines q) (ho : q.Ordered) (hs : q.Spanned) {kept gone : List RobSlot}
    (hq : q.entries = kept ++ gone) {slots : List RobSlot} {tagIndex : RobTag → Option Nat}
    (hlen : slots.length = r.ring.cap)
    (htake : { r.ring with slots := slots }.unrolled.take kept.length = kept)
    (htags : ∀ t, tagIndex t = if t ∈ gone.map (fun x => x.entry.tag) then none else r.tagIndex t)
    {q' : RobFifo} (hcap : q'.capacity = q.capacity) (hnext : q'.next = q.next) (hq' : q'.entries = kept) :
    Refines { r with ring := ⟨slots, r.ring.head, r.ring.index kept.length, kept.length⟩, tagIndex } q' := by
  have hcount : r.ring.count = kept.length + gone.length := by rw [h.count, hq, List.length_append]
  have hle := h.wf.count
  have hidx : ∀ k, Circular.index ⟨slots, r.ring.head, r.ring.index kept.length, kept.length⟩ k =
      r.ring.index k := fun k => by
    show (r.ring.head + k) % slots.length = _
    rw [hlen]
    rfl
  refine ⟨⟨?_, (hidx _).symm, ?_⟩, ?_, ?_, ?_, ?_⟩
  · show r.ring.head % slots.length = _
    rw [hlen]
    exact h.wf.head
  · show kept.length ≤ slots.length
    omega
  · rw [hcap, ← h.cap]
    exact hlen
  · rw [hq']
    exact htake
  · rw [hnext]
    exact h.next
  · intro t j
    show tagIndex t = some j ↔ _
    simp only [hq', htags, hidx]
    have hleft : ∀ {k : Nat} {s : RobSlot}, kept[k]? = some s → q.entries[k]? = some s := fun hk => by
      rw [hq, List.getElem?_append_left (List.getElem?_eq_some_iff.mp hk).1, hk]
    by_cases ht : t ∈ gone.map fun x => x.entry.tag
    · rw [if_pos ht]
      simp only [reduceCtorEq, false_iff]
      rintro ⟨k, s, hk, htag, -⟩
      obtain ⟨x, hx, hxt⟩ := List.mem_map.mp ht
      obtain ⟨m, hm⟩ := List.mem_iff_getElem?.mp hx
      have hm' : q.entries[kept.length + m]? = some x := by
        rw [hq, List.getElem?_append_right (by omega)]
        simpa using hm
      have hlt := (List.getElem?_eq_some_iff.mp hk).1
      have := ho.place_inj hs (hleft hk) hm' (htag.trans hxt.symm)
      omega
    · rw [if_neg ht, h.index]
      constructor
      · rintro ⟨k, s, hk, htag, rfl⟩
        rw [hq] at hk
        rcases Nat.lt_or_ge k kept.length with hlt | hge
        · rw [List.getElem?_append_left hlt] at hk
          exact ⟨k, s, hk, htag, rfl⟩
        · rw [List.getElem?_append_right hge] at hk
          exact absurd (List.mem_map.mpr ⟨s, List.mem_of_getElem? hk, htag⟩) ht
      · rintro ⟨k, s, hk, htag, rfl⟩
        exact ⟨k, s, hleft hk, htag, rfl⟩

/-- **The flush does what the FIFO's does**, in a ring of any fill and at any place. -/
theorem Refines.flushAfter (h : r.Refines q) (ho : q.Ordered) (hs : q.Spanned) (tag : RobTag) :
    ∃ r', r.flushAfter tag = some r' ∧ r'.Refines (q.flushAfter tag) := by
  unfold RobRing.flushAfter
  cases hfind : q.items.find? fun j => j.2.entry.tag == tag with
  | none =>
    have hnone : q.entries.findIdx? (fun s => s.entry.tag == tag) = none := by
      rw [List.findIdx?_eq_none_iff]
      intro s hs
      obtain ⟨j, hj, rfl⟩ := List.mem_map.mp hs
      simpa using List.find?_eq_none.mp hfind j hj
    refine ⟨r, ?_, ?_⟩
    · by_cases h0 : r.ring.count = 0
      · rw [if_pos h0]
      · rw [if_neg h0, scan_tag h, hnone]
        rfl
    · rw [RobFifo.flushAfter, hfind]
      exact h
  | some i =>
    obtain ⟨hi, older, younger, hitems, hold⟩ := List.find?_eq_some_iff_append.mp hfind
    simp only [beq_iff_eq] at hi
    subst hi
    have hq := ho.flushAfter hitems hfind
    have hentries : q.entries = (older.map (·.2) ++ [i.2]) ++ younger.map (·.2) := by
      simp [RobFifo.entries, hitems]
    have hkl : (older.map (·.2) ++ [i.2]).length = older.length + 1 := by simp
    have hidx : q.entries.findIdx? (fun s => s.entry.tag == i.2.entry.tag) = some older.length := by
      have hnone : (older.map (·.2)).findIdx? (fun s => s.entry.tag == i.2.entry.tag) = none := by
        rw [List.findIdx?_eq_none_iff]
        intro s hs
        obtain ⟨j, hj, rfl⟩ := List.mem_map.mp hs
        simpa using hold j hj
      rw [hentries, List.append_assoc, List.findIdx?_append, hnone]
      simp [List.findIdx?_cons]
    have hcount : r.ring.count = older.length + 1 + younger.length := by
      rw [h.count, hentries, List.length_append, hkl, List.length_map]
    have hle := h.wf.count
    rw [if_neg (by omega), scan_tag h, hidx]
    simp only [Option.map_some, Circular.next_index]
    by_cases hy : younger = []
    · -- the kept entry is the youngest: the early return
      subst hy
      rw [if_pos (by rw [h.wf.tail, hcount]; rfl)]
      refine ⟨r, rfl, ?_⟩
      rw [hq, ← hitems]
      exact h
    · have hypos := List.length_pos_of_ne_nil hy
      have hne : r.ring.index (older.length + 1) ≠ r.ring.tail := by
        rw [h.wf.tail]
        intro heq
        have hmod : 0 ≡ younger.length [MOD r.ring.cap] := by
          refine Nat.ModEq.add_left_cancel' (r.ring.head + (older.length + 1)) ?_
          rw [Nat.add_zero, Nat.add_assoc, ← hcount]
          exact heq
        rw [Nat.ModEq, Nat.zero_mod, Nat.mod_eq_of_lt (by omega)] at hmod
        omega
      obtain ⟨slots, tagIndex, hloops, hlen, htake, htags⟩ :=
        flushAfter_loops h ho hentries (by simp) (by simpa using hy)
      rw [if_neg hne, ← hkl]
      refine ⟨_, hloops, h.cut ho hs hentries hlen htake htags ?_ ?_ ?_⟩
      · rw [hq]
      · rw [hq]
      · simp [hq, RobFifo.entries]

/-! #### Runs -/

theorem Refines.step (h : r.Refines q) (ho : q.Ordered) (hs : q.Spanned) (op : RobOp)
    (hs' : (q.step op).2.Spanned) :
    ∃ r', r.step op = some ((q.step op).1, r') ∧ r'.Refines (q.step op).2 := by
  cases op with
  | allocate a =>
    obtain ⟨htag, href⟩ := h.allocate a (ho.allocate a) hs'
    exact ⟨_, by rw [RobRing.step, htag]; rfl, href⟩
  | complete t v =>
    refine ⟨_, rfl, h.modify ho hs t fun s => ?_⟩
    unfold RobSlot.complete
    split <;> rfl
  | fault t trap stage => exact ⟨_, rfl, h.modify ho hs t fun s => rfl⟩
  | commitHead =>
    obtain ⟨hentry, href⟩ := h.commitHead ho hs
    exact ⟨_, by rw [RobRing.step, hentry]; rfl, href⟩
  | flushAfter t =>
    obtain ⟨r', hr, href⟩ := h.flushAfter ho hs t
    exact ⟨r', by rw [RobRing.step, hr]; rfl, href⟩
  | flushAll => exact ⟨_, rfl, h.flushAll⟩

theorem Refines.run (h : r.Refines q) (ho : q.Ordered) (ops : List RobOp)
    (hs : ∀ pre, pre <+: ops → (q.run pre).2.Spanned) :
    ∃ r', r.run ops = some ((q.run ops).1, r') ∧ r'.Refines (q.run ops).2 ∧ (q.run ops).2.Ordered := by
  induction ops generalizing r q with
  | nil => exact ⟨r, rfl, h, ho⟩
  | cons op ops ih =>
    have hs0 : q.Spanned := hs [] (List.nil_prefix)
    have hs1 : (q.step op).2.Spanned := hs [op] ⟨ops, rfl⟩
    obtain ⟨r₁, hr₁, href⟩ := h.step ho hs0 op hs1
    obtain ⟨r', hr', href', ho'⟩ := ih href (ho.step op) fun pre hpre =>
      hs (op :: pre) (List.cons_prefix_cons.mpr ⟨rfl, hpre⟩)
    exact ⟨r', by rw [RobRing.run, hr₁]; simp only [Option.bind_eq_bind, Option.bind_some, hr']; rfl,
      href', ho'⟩

theorem Refines.iterInOrder (h : r.Refines q) (ho : q.Ordered) : r.iterInOrder = q.entries := by
  have hloop := Circular.filterMap_index h.wf fun s => if s.valid then some s else none
  have hfilter : ∀ o : Option RobSlot,
      o.filter (fun s => s.valid) = o.bind fun s => if s.valid then some s else none := by
    intro o
    cases o <;> rfl
  unfold RobRing.iterInOrder
  simp only [hfilter]
  rw [hloop, h.contents, List.filterMap_congr (g := some), List.filterMap_some]
  intro s hs
  rw [ho.valid hs]
  rfl

/-- In a buffer that refines a spanned queue, a flush at a live tag keeps exactly the entries
that are not newer than it, and a flush at any other tag keeps everything. -/
theorem Refines.flushAfter_entries (h : r.Refines q) (ho : q.Ordered) (hs : q.Spanned) (t : RobTag) :
    ∃ r', r.flushAfter t = some r' ∧
      r'.iterInOrder =
        if (r.findEntry t).isSome then
          r.iterInOrder.filter fun s => !RobTag.isNewerThan s.entry.tag t
        else r.iterInOrder := by
  obtain ⟨r', hr, href⟩ := h.flushAfter ho hs t
  refine ⟨r', hr, ?_⟩
  rw [href.iterInOrder (ho.step (.flushAfter t)), h.iterInOrder ho]
  cases hfind : q.items.find? fun j => j.2.entry.tag == t with
  | none =>
    have hnot : r.findEntry t = none := by
      rw [Option.eq_none_iff_forall_ne_some]
      intro s hs
      obtain ⟨hmem, ht⟩ := (h.findEntry ho t s).mp hs
      obtain ⟨j, hj, rfl⟩ := List.mem_map.mp hmem
      exact absurd ht (by simpa using List.find?_eq_none.mp hfind j hj)
    rw [hnot, RobFifo.flushAfter, hfind]
    rfl
  | some i =>
    obtain ⟨hi, older, younger, hitems, -⟩ := List.find?_eq_some_iff_append.mp hfind
    simp only [beq_iff_eq] at hi
    subst hi
    have hmem : i.2 ∈ q.entries := List.mem_map_of_mem (by rw [hitems]; simp)
    rw [(h.findEntry ho _ _).mpr ⟨hmem, rfl⟩, ho.flushAfter hitems hfind]
    have hsplit : q.entries = older.map (·.2) ++ i.2 :: younger.map (·.2) := by
      simp [RobFifo.entries, hitems]
    have hpair := ho.older hs
    rw [hsplit, List.pairwise_append, List.pairwise_cons] at hpair
    have hself : RobTag.isNewerThan i.2.entry.tag i.2.entry.tag = false := by
      simp [RobTag.isNewerThan, RobTag.isOlderThan]
    simp only [Option.isSome_some, if_true]
    rw [hsplit, List.filter_append, List.filter_cons_of_pos (by rw [hself]; rfl), List.filter_eq_self.mpr,
      List.filter_eq_nil_iff.mpr]
    · simp [RobFifo.entries]
    · intro s hs
      rw [RobTag.isNewerThan, (hpair.2.1.1 s hs).1]
      simp
    · intro s hs
      rw [RobTag.isNewerThan, (hpair.2.2 s hs i.2 (by simp)).2]
      rfl

/-- **The reorder buffer is a bounded FIFO.** Along every sequence of operations whose live
allocations span less than `2^31` at each point, the ring returns what the queue returns, holds
exactly its entries in order under distinct, increasing tags, finds an entry exactly when it is
live, counts the queue's length, and cuts behind a live tag. -/
theorem run_refines (capacity : Nat) (ops : List RobOp)
    (hs : ∀ pre, pre <+: ops → ((RobFifo.new capacity).run pre).2.Spanned) :
    ∃ r, (new capacity).run ops = some (((RobFifo.new capacity).run ops).1, r) ∧
      let q := ((RobFifo.new capacity).run ops).2
      r.iterInOrder = q.entries ∧ r.ring.count = q.entries.length ∧
      (q.entries.map fun s => s.entry.tag).Nodup ∧
      (q.entries.map fun s => s.entry.tag).Pairwise (fun a b => RobTag.isOlderThan a b = true) ∧
      (∀ t s, r.findEntry t = some s ↔ s ∈ q.entries ∧ s.entry.tag = t) ∧
      ∀ t, ∃ r', r.flushAfter t = some r' ∧
        r'.iterInOrder =
          if (r.findEntry t).isSome then
            r.iterInOrder.filter fun s => !RobTag.isNewerThan s.entry.tag t
          else r.iterInOrder := by
  obtain ⟨r, hr, href, ho⟩ := (Refines.new capacity).run (RobFifo.Ordered.new capacity) ops hs
  have hspan := hs ops (List.prefix_refl ops)
  refine ⟨r, hr, href.iterInOrder ho, href.count, ho.nodup hspan, ?_, href.findEntry ho,
    href.flushAfter_entries ho hspan⟩
  exact List.pairwise_map.mpr ((ho.older hspan).imp fun h => h.1)

/-- A branch into `x1`. -/
def jal (pc : U64) : RobAlloc where
  pc := pc
  inst := 0x000000ef
  instSize := .standard
  rd := 1
  rdFp := false
  ctrl := { regWrite := true, controlFlow := .jump }
  physDst := 0
  oldPhysDst := 0

/-- A ring of two slots, filled, turned by one and cut back. -/
def turned : List RobOp :=
  [.allocate (jal 0x1000), .allocate (jal 0x1004), .complete 1 0x1004, .commitHead,
    .allocate (jal 0x1008), .flushAfter 2]

theorem run_refines_turned :
    (∀ pre, pre <+: turned → ((RobFifo.new 2).run pre).2.Spanned) ∧
      ∃ r, (new 2).run turned = some (((RobFifo.new 2).run turned).1, r) ∧
        r.iterInOrder = ((RobFifo.new 2).run turned).2.entries ∧
        (((RobFifo.new 2).run turned).2.entries.map fun s => s.entry.tag) = [2] := by
  have hspan : ∀ pre, pre <+: turned → ((RobFifo.new 2).run pre).2.Spanned := by
    intro pre hpre
    have hall : ∀ pre ∈ turned.inits, ((RobFifo.new 2).run pre).2.Spanned := by decide
    exact hall pre ((List.mem_inits _ _).mpr hpre)
  obtain ⟨r, hrun, hiter, -⟩ := run_refines 2 turned hspan
  exact ⟨hspan, r, hrun, hiter, by decide⟩

/-- Tag 1 commits, tag 2 follows: a flush at the committed tag 1 leaves 2, which is newer. -/
def committed : List RobOp :=
  [.allocate (jal 0x1000), .allocate (jal 0x1004), .complete 1 0x1004, .commitHead]

theorem flushAfter_committed :
    ¬∀ capacity ops, (∀ pre, pre <+: ops → ((RobFifo.new capacity).run pre).2.Spanned) →
      ∀ replies r, (new capacity).run ops = some (replies, r) → ∀ t r', r.flushAfter t = some r' →
        r'.iterInOrder = r.iterInOrder.filter fun s => !RobTag.isNewerThan s.entry.tag t := by
  intro h
  have hspan : ∀ pre, pre <+: committed → ((RobFifo.new 4).run pre).2.Spanned := by
    intro pre hpre
    have hall : ∀ pre ∈ committed.inits, ((RobFifo.new 4).run pre).2.Spanned := by decide
    exact hall pre ((List.mem_inits _ _).mpr hpre)
  have hrun : (((new 4).run committed).bind fun s => (s.2.flushAfter 1).map fun r' =>
      (r'.iterInOrder.map fun s => s.entry.tag,
        (s.2.iterInOrder.filter fun s => !RobTag.isNewerThan s.entry.tag 1).map fun s => s.entry.tag)) =
      some ([2], []) := by decide
  obtain ⟨⟨replies, r⟩, hr, hrun⟩ := Option.bind_eq_some_iff.mp hrun
  obtain ⟨r', hr', hrun⟩ := Option.map_eq_some_iff.mp hrun
  rw [h 4 committed hspan replies r hr 1 r' hr', Prod.mk.injEq] at hrun
  have := hrun.1.symm.trans hrun.2
  simp at this

end RobRing

/-! ### The list of entries -/

namespace RobFifo

/-- The queue as the pipelines see it: entries without allocation numbers. -/
def toRob (q : RobFifo) : Rob := ⟨q.capacity, q.entries.map (·.entry), tagOf q.next⟩

end RobFifo

/-- The operations on the list of entries. -/
def Rob.step (r : Rob) : RobOp → Rob
  | .allocate a =>
    match r.allocate a.pc a.inst a.instSize a.rd a.rdFp a.ctrl a.physDst a.oldPhysDst with
    | none => r
    | some (_, r) => r
  | .complete t v => r.complete t v
  | .fault t trap _ => r.fault t trap
  | .commitHead =>
    match r.commitHead with
    | none => r
    | some (_, r) => r
  | .flushAfter t => r.flushAfter t
  | .flushAll => r.flushAll

namespace RobFifo

theorem toRob_modify (q : RobFifo) (tag : RobTag) {f : RobSlot → RobSlot} {g : RobEntry → RobEntry}
    (hf : ∀ s, (f s).entry = g s.entry) : (q.modify tag f).toRob = q.toRob.modify tag g := by
  simp only [toRob, RobFifo.modify, Rob.modify, entries, List.map_map, Rob.mk.injEq, true_and, and_true]
  refine List.map_congr_left fun i _ => ?_
  simp only [Function.comp_apply]
  by_cases h : i.2.entry.tag = tag
  · rw [if_pos h, if_pos h]
    exact hf i.2
  · rw [if_neg h, if_neg h]

theorem keepThrough_append {older younger : List RobEntry} {e : RobEntry}
    (h : ∀ x ∈ older, x.tag ≠ e.tag) : Rob.keepThrough e.tag (older ++ e :: younger) = older ++ [e] := by
  induction older with
  | nil => simp [Rob.keepThrough]
  | cons x older ih =>
    rw [List.cons_append, Rob.keepThrough, if_neg (h x (by simp)), ih fun y hy => h y (by simp [hy]),
      List.cons_append]

theorem keepThrough_absent {es : List RobEntry} {t : RobTag} (h : ∀ x ∈ es, x.tag ≠ t) :
    Rob.keepThrough t es = es := by
  induction es with
  | nil => rfl
  | cons x es ih => rw [Rob.keepThrough, if_neg (h x (by simp)), ih fun y hy => h y (by simp [hy])]

/-- **The model of the pipelines is the queue without its numbers.** -/
theorem toRob_step {q : RobFifo} (ho : q.Ordered) (op : RobOp) :
    (q.step op).2.toRob = q.toRob.step op := by
  have hlen : q.toRob.entries.length = q.items.length := by simp [toRob, entries]
  cases op with
  | allocate a =>
    have hfull : q.toRob.isFull = decide (q.items.length = q.capacity) := by
      rw [Rob.isFull, hlen]
      rfl
    simp only [RobFifo.step, Rob.step, Rob.allocate, RobFifo.allocate, hfull, decide_eq_true_eq]
    by_cases h : q.items.length = q.capacity
    · rw [if_pos h, if_pos h]
    · rw [if_neg h, if_neg h]
      simp [toRob, entries, RobAlloc.slot, tagOf_succ]
  | complete t v =>
    refine toRob_modify q t fun s => ?_
    unfold RobSlot.complete
    split <;> rfl
  | fault t trap stage => exact toRob_modify q t fun s => rfl
  | commitHead =>
    simp only [RobFifo.step, Rob.step, Rob.commitHead, RobFifo.commitHead]
    cases hq : q.items with
    | nil => simp [toRob, entries, hq]
    | cons i rest =>
      have hcons : q.toRob.entries = i.2.entry :: rest.map (·.2.entry) := by simp [toRob, entries, hq]
      rw [hcons]
      simp only
      by_cases h : i.2.entry.state = .issued
      · rw [if_pos h, if_pos h]
      · rw [if_neg h, if_neg h]
        simp [toRob, entries]
  | flushAfter t =>
    show (q.flushAfter t).toRob = { q.toRob with entries := Rob.keepThrough t q.toRob.entries }
    cases hfind : q.items.find? fun j => j.2.entry.tag == t with
    | none =>
      rw [RobFifo.flushAfter, hfind, keepThrough_absent]
      intro x hx
      simp only [toRob, entries, List.map_map, List.mem_map] at hx
      obtain ⟨j, hj, rfl⟩ := hx
      simpa using List.find?_eq_none.mp hfind j hj
    | some i =>
      obtain ⟨hi, older, younger, hitems, hold⟩ := List.find?_eq_some_iff_append.mp hfind
      simp only [beq_iff_eq] at hi
      subst hi
      have hsplit : q.toRob.entries = older.map (·.2.entry) ++ i.2.entry :: younger.map (·.2.entry) := by
        simp [toRob, entries, hitems, Function.comp_def]
      rw [ho.flushAfter hitems hfind, hsplit, keepThrough_append]
      · simp [toRob, entries]
      · intro x hx
        obtain ⟨j, hj, rfl⟩ := List.mem_map.mp hx
        simpa using hold j hj
  | flushAll => rfl

end RobFifo

end Rvsim
