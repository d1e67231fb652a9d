/-
# The load-store unit

Store buffer, load queue and RAM as one unit, called by the stages in any order
that the pipelines allow: rename gives out slots in program order, memory1
translates, memory2 lets loads read ahead of older stores that are not resolved
yet, recovery squashes, commit retires in order and committed stores drain. The
unit keeps the memory that program order asks for beside its own.

Key definitions:
  - `LoadStoreUnit`, `LoadStoreEvent`, `LoadStoreUnit.step`, `LoadStoreUnit.Legal`
Key theorems:
  - `LoadQueue.checkOrderingViolation_eq`
-/
import Rvsim.Commit
import Rvsim.Config
import Rvsim.Decode
import Rvsim.Forwarding
import Rvsim.Lib.Serial

namespace Rvsim

variable {U : Type}

/-- The stages' view of the memory instructions in flight, beside it the memory that program order asks
for and what has been read and not retired. -/
structure LoadStoreUnit (U : Type) where
  mem2 : Mem2State U
  /-- The next tag of the reorder buffer. -/
  next : RobTag
  /-- The memory that the retired stores leave, in program order. -/
  retired : Mem
  /-- Loads, LRs and AMOs that memory2 has let through, with what they read. -/
  done : List (Mem1Mem2Entry × U64)

inductive LoadStoreEvent where
  /-- Rename gives out a tag and the slots that the instruction needs. -/
  | dispatch (c : ControlSignals)
  /-- Memory1 fills in the address. -/
  | translate (m : Mem1Mem2Entry)
  /-- Memory2 takes an entry of its latch. -/
  | access (m : Mem1Mem2Entry)
  /-- The flush that follows a memory2 in which a load was found to have read too early. -/
  | recover (keep : Option RobTag)
  | flushAfter (keep : RobTag)
  | flush
  /-- Commit retires a memory instruction. -/
  | retire (m : Mem1Mem2Entry)
  /-- Commit finds a store-conditional without its reservation, and the pipeline is flushed. -/
  | failSc (tag : RobTag)
  /-- One store goes to memory. -/
  | drain

/-! ### What the stages do -/

/-- The value of the instruction goes to a register: a load, an LR or an AMO. -/
def Mem1Mem2Entry.reads (m : Mem1Mem2Entry) : Bool := m.ctrl.memRead && m.ctrl.atomicOp != .sc

/-- What a load, an LR or an AMO returns when it reads this memory. -/
def Mem1Mem2Entry.readFrom (m : Mem1Mem2Entry) (mem : Mem) : U64 :=
  let v := mem.read m.paddr m.ctrl.width.bytes
  if m.ctrl.atomicOp ≠ .none then
    match m.ctrl.width with
    | .word => (v.setWidth 32).signExtend 64
    | .double => v
    | _ => 0
  else extendLoad m.ctrl v

/-- The flags of memory instructions: atomics read, and all but LR write; other instructions do not do both. -/
def ControlSignals.MemShape (c : ControlSignals) : Prop :=
  match c.atomicOp with
  | .none => ¬ (c.memRead = true ∧ c.memWrite = true)
  | .lr => c.memRead = true ∧ c.memWrite = false
  | _ => c.memRead = true ∧ c.memWrite = true

instance (c : ControlSignals) : Decidable c.MemShape := by
  unfold ControlSignals.MemShape
  split <;> infer_instance

/-- The decoder gives memory instructions their flags. -/
theorem decodeCommon_memShape (d : Decoded) : ∀ c ∈ decodeCommon d, c.MemShape := by
  have hplain : ∀ c : ControlSignals, c.atomicOp = .none → ¬ (c.memRead = true ∧ c.memWrite = true) → c.MemShape := by
    intro c hop hrw
    unfold ControlSignals.MemShape
    rw [hop]
    exact hrw
  unfold decodeCommon
  repeat' first
    | refine forall_mem_ite ?_ ?_
    | exact forall_mem_none
    | exact forall_mem_some (hplain _ rfl (by simp))
    | exact forall_mem_map fun _ => hplain _ rfl (by simp)
  intro c hc
  obtain ⟨w, -, hc⟩ := Option.bind_eq_some_iff.mp hc
  obtain ⟨op, hop, rfl⟩ := Option.map_eq_some_iff.mp hc
  have hne : ∀ f5, ∀ op ∈ amoOp f5, op ≠ .none := by
    intro f5
    unfold amoOp
    repeat' first
      | refine forall_mem_ite ?_ ?_
      | exact forall_mem_none
      | exact forall_mem_some (by decide)
  have hop' := hne _ op hop
  unfold ControlSignals.MemShape
  cases op with
  | none => exact absurd rfl hop'
  | _ => exact ⟨rfl, rfl⟩

namespace LoadStoreUnit

def sb (s : LoadStoreUnit U) : StoreBuffer := s.mem2.sb
def lq (s : LoadStoreUnit U) : Option LoadQueue := s.mem2.lq
def cpu (s : LoadStoreUnit U) : Cpu U := s.mem2.cpu

/-- What is newer than the tag goes, but for what has retired. -/
def cutAfter (s : LoadStoreUnit U) (keep : RobTag) : LoadStoreUnit U :=
  { s with
    mem2 := { s.mem2 with sb := s.sb.flushAfter keep, lq := s.lq.map fun q => q.flushAfter keep, violation := none }
    done := s.done.filter fun d => RobTag.isOlderOrEq d.1.robTag keep }

/-- Everything goes that has not retired. -/
def cutAll (s : LoadStoreUnit U) : LoadStoreUnit U :=
  { s with
    mem2 := { s.mem2 with sb := s.sb.flushSpeculative, lq := s.lq.map LoadQueue.flush, violation := none }
    done := [] }

/-- The store of the instruction reaches the memory of program order. -/
def retireStore (s : LoadStoreUnit U) (tag : RobTag) : Mem :=
  match s.sb.entries.find? fun e => e.robTag == tag with
  | some e => Overlay.put s.retired e.patch
  | none => s.retired

def step [Units U] (s : LoadStoreUnit U) : LoadStoreEvent → LoadStoreUnit U
  | .dispatch c =>
    { s with
      mem2 := { s.mem2 with
        sb := if c.memWrite then (s.sb.allocate s.next c.width).2 else s.sb
        lq := if c.memRead then s.lq.map fun q => (q.allocate s.next c.width).2 else s.lq }
      next := RobTag.next s.next }
  | .translate m =>
    { s with
      mem2 := { s.mem2 with
        lq := if m.ctrl.memRead then s.lq.map fun q => q.fillAddress m.robTag m.vaddr m.paddr else s.lq } }
  | .access m =>
    match memory2One s.mem2 m with
    | none => s
    | some (wb, mem2) => { s with mem2, done := if m.reads then s.done ++ [(m, wb.loadData)] else s.done }
  | .recover (some keep) => s.cutAfter keep
  | .recover none => s.cutAll
  | .flushAfter keep => s.cutAfter keep
  | .flush => s.cutAll
  | .retire m =>
    { s with
      mem2 := { s.mem2 with
        sb := if m.ctrl.memWrite then s.sb.markCommitted m.robTag else s.sb
        lq := if m.ctrl.memRead then s.lq.map fun q => q.deallocate m.robTag else s.lq }
      retired := if m.ctrl.memWrite then s.retireStore m.robTag else s.retired
      done := s.done.filter fun d => d.1.robTag != m.robTag }
  | .failSc tag => cutAll { s with mem2 := { s.mem2 with sb := s.sb.cancel tag } }
  | .drain =>
    let r := drainOneStore s.cpu s.sb
    { s with mem2 := { s.mem2 with cpu := r.1, sb := r.2 } }

/-! ### How the pipelines call it -/

/-- The tags that instructions hold in the unit. -/
def tags (s : LoadStoreUnit U) : List RobTag :=
  s.sb.entries.map (·.robTag) ++ (s.lq.elim [] fun q => q.entries.map (·.robTag)) ++ s.done.map (·.1.robTag)

/-- The tag has been given out, less than half the tags ago. -/
def Live (s : LoadStoreUnit U) (t : RobTag) : Prop := 0 < Serial.age s.next t ∧ Serial.age s.next t < Serial.half 32

/-- The instruction's data is in RAM, below the top of the address space, and not under the HTIF overlay. -/
def InRam (s : LoadStoreUnit U) (m : Mem1Mem2Entry) : Prop :=
  s.cpu.isRam m.paddr = true ∧ s.cpu.inHtif m.paddr = false ∧ m.paddr.toNat + m.ctrl.width.bytes < 2 ^ 64

/-- A load holds a slot of the load queue with its address; without a load queue it waits for older stores. -/
def Guarded (s : LoadStoreUnit U) (m : Mem1Mem2Entry) : Prop :=
  match s.lq with
  | some q => ∃ e ∈ q.entries, e.robTag = m.robTag ∧ e.paddr = some m.paddr ∧ e.width = m.ctrl.width
  | none => s.sb.hasUnresolvedStoreBefore m.robTag = false

/-- The load found to have read too early goes, and what is newer. -/
def CutsViolation (s : LoadStoreUnit U) (keep : RobTag) : Prop :=
  match s.mem2.violation with
  | none => True
  | some v => ∀ d ∈ s.done, RobTag.isOlderOrEq d.1.robTag keep = true → RobTag.isOlderThan d.1.robTag v.1 = true

/-- How the stages call the unit. Rename allocates only into free slots, in program order, with all tags in use
less than `2^31` apart. An instruction is translated before it reads, and reads and resolves once. A flush keeps
what has retired; after a violation, nothing from the violating load on stays. Commit retires in program order
what has passed memory2. -/
def Legal [Units U] (s : LoadStoreUnit U) : LoadStoreEvent → Prop
  | .dispatch c =>
    s.mem2.violation = none ∧ (c.memWrite = true → s.sb.isFull = false) ∧
        (∀ q ∈ s.lq, c.memRead = true → q.isFull = false) ∧
      ∀ t ∈ s.tags, Serial.age s.next t + 2 < Serial.half 32
  | .translate m => ∀ q ∈ s.lq, ∀ e ∈ q.entries, e.robTag = m.robTag → e.state ≠ .executed
  | .access m =>
    m.trap = none ∧ m.ctrl.MemShape ∧ s.Live m.robTag ∧ s.InRam m ∧
      (∀ e ∈ s.sb.entries, e.resolution.isCommitted = true → RobTag.isOlderThan e.robTag m.robTag = true) ∧
      (m.reads = true → ∀ d ∈ s.done, d.1.robTag ≠ m.robTag) ∧
      (m.reads = true → m.ctrl.atomicOp = .none → s.Guarded m) ∧
      (m.ctrl.memWrite = true → ∃ e ∈ s.sb.entries, e.robTag = m.robTag ∧ e.resolution = .pending ∧
          e.width = m.ctrl.width)
  | .recover none => True
  | .recover (some keep) =>
    s.Live keep ∧ (∀ e ∈ s.sb.entries, e.resolution.isCommitted = true → RobTag.isOlderOrEq e.robTag keep = true) ∧
      s.CutsViolation keep
  | .flushAfter keep =>
    s.mem2.violation = none ∧ s.Live keep ∧
      ∀ e ∈ s.sb.entries, e.resolution.isCommitted = true → RobTag.isOlderOrEq e.robTag keep = true
  | .flush => s.mem2.violation = none
  | .retire m =>
    s.mem2.violation = none ∧ s.Live m.robTag ∧
      (∀ e ∈ s.sb.entries, RobTag.isOlderThan e.robTag m.robTag = true → e.resolution.isCommitted = true) ∧
      (∀ d ∈ s.done, d.1.robTag ≠ m.robTag → RobTag.isOlderThan m.robTag d.1.robTag = true) ∧
      (m.reads = true → m ∈ s.done.map (·.1)) ∧
      (m.ctrl.memWrite = true → ∃ e ∈ s.sb.entries, e.robTag = m.robTag ∧ e.resolution.isCommitted = false ∧
        e.resolution.isPending = false) ∧
      (m.ctrl.memRead = true → ∀ q ∈ s.lq, q.entries.head?.map (·.robTag) = some m.robTag)
  | .failSc tag =>
    s.mem2.violation = none ∧ (∃ e ∈ s.sb.entries, e.robTag = tag ∧ e.resolution.isCommitted = false) ∧
      ∀ e ∈ s.sb.entries, RobTag.isOlderThan e.robTag tag = true → e.resolution.isCommitted = true
  | .drain => True

instance (s : LoadStoreUnit U) (t : RobTag) : Decidable (s.Live t) := inferInstanceAs (Decidable (_ ∧ _))

instance (s : LoadStoreUnit U) (m : Mem1Mem2Entry) : Decidable (s.InRam m) := inferInstanceAs (Decidable (_ ∧ _))

instance (s : LoadStoreUnit U) (m : Mem1Mem2Entry) : Decidable (s.Guarded m) := by
  unfold Guarded
  split <;> infer_instance

instance (s : LoadStoreUnit U) (keep : RobTag) : Decidable (s.CutsViolation keep) := by
  unfold CutsViolation
  split <;> infer_instance

instance [Units U] (s : LoadStoreUnit U) : ∀ e, Decidable (s.Legal e)
  | .dispatch _ =>
    -- over the tags in use, not over all tags
    have : Decidable (∀ t ∈ s.tags, Serial.age s.next t + 2 < Serial.half 32) := List.decidableBAll _ _
    inferInstanceAs (Decidable (_ ∧ _))
  | .translate m => inferInstanceAs (Decidable (∀ q ∈ s.lq, ∀ e ∈ q.entries, e.robTag = m.robTag → e.state ≠ .executed))
  | .access _ => inferInstanceAs (Decidable (_ ∧ _))
  | .recover none => inferInstanceAs (Decidable True)
  | .recover (some _) => inferInstanceAs (Decidable (_ ∧ _))
  | .flushAfter _ => inferInstanceAs (Decidable (_ ∧ _))
  | .flush => inferInstanceAs (Decidable (_ = _))
  | .retire _ => inferInstanceAs (Decidable (_ ∧ _))
  | .failSc _ => inferInstanceAs (Decidable (_ ∧ _))
  | .drain => inferInstanceAs (Decidable True)

end LoadStoreUnit

/-! ### Tags in use -/

namespace RobTag

variable {now a b : RobTag}

theorem isOlderThan_iff (ha : Serial.age now a < Serial.half 32) (hb : Serial.age now b < Serial.half 32) :
    isOlderThan a b = true ↔ Serial.age now b < Serial.age now a := Serial.sub_msb_iff (by decide) ha hb

theorem isOlderOrEq_iff (ha : Serial.age now a < Serial.half 32) (hb : Serial.age now b < Serial.half 32) :
    isOlderOrEq a b = true ↔ Serial.age now b ≤ Serial.age now a := by
  unfold isOlderOrEq
  rw [Bool.not_eq_true', ← Bool.not_eq_true, isOlderThan_iff hb ha, not_lt]

/-- The next tag is not older than one in use. -/
theorem not_older_next (hb : Serial.age now b < Serial.half 32) : isOlderThan now b = false := by
  rw [← Bool.not_eq_true, isOlderThan_iff (by rw [Serial.age_self]; decide) hb, Serial.age_self]
  exact Nat.not_lt_zero _

/-- The counter moves on by one, or by two past zero. -/
theorem next_eq (t : RobTag) : ∃ k, 0 < k ∧ k ≤ 2 ∧ next t = t + BitVec.ofNat 32 k := by
  unfold next
  split
  · next h =>
    refine ⟨2, by decide, le_refl _, ?_⟩
    have htwo : t + BitVec.ofNat 32 2 = t + 1 + 1 := by rw [BitVec.add_assoc]; rfl
    rw [htwo, h]
    rfl
  · exact ⟨1, by decide, by decide, rfl⟩

end RobTag

namespace LoadQueue

variable {q : LoadQueue} {e : LoadQueueEntry} {es : List LoadQueueEntry} {tag : RobTag}
    {f : LoadQueueEntry → LoadQueueEntry}

theorem tags_modifyFirst (hf : ∀ e, (f e).robTag = e.robTag) :
    (modifyFirst tag f es).map (·.robTag) = es.map (·.robTag) := by
  induction es with
  | nil => rfl
  | cons e es ih =>
    unfold modifyFirst
    split
    · rw [List.map_cons, List.map_cons, hf]
    · rw [List.map_cons, List.map_cons, ih]

theorem valid_modifyFirst (hf : ∀ e, (f e).valid = e.valid) (h : ∀ e ∈ es, e.valid = true) :
    ∀ e ∈ modifyFirst tag f es, e.valid = true := by
  induction es with
  | nil => exact h
  | cons e es ih =>
    unfold modifyFirst
    intro u hu
    split at hu
    · rcases List.mem_cons.mp hu with rfl | hu
      · rw [hf]
        exact h e List.mem_cons_self
      · exact h u (List.mem_cons_of_mem _ hu)
    · rcases List.mem_cons.mp hu with rfl | hu
      · exact h u List.mem_cons_self
      · exact ih (fun x hx => h x (List.mem_cons_of_mem _ hx)) u hu

theorem mem_modifyFirst_of_ne (he : e ∈ es) (hne : e.robTag ≠ tag) : e ∈ modifyFirst tag f es := by
  induction es with
  | nil => exact absurd he (by simp)
  | cons u us ih =>
    unfold modifyFirst
    split
    · next hu =>
      rcases List.mem_cons.mp he with rfl | he
      · rw [Bool.and_eq_true, beq_iff_eq] at hu
        exact absurd hu.2 hne
      · exact List.mem_cons_of_mem _ he
    · rcases List.mem_cons.mp he with rfl | he
      · exact List.mem_cons_self
      · exact List.mem_cons_of_mem _ (ih he)

theorem mem_modifyFirst_self (hnd : (es.map (·.robTag)).Nodup) (he : e ∈ es) (hv : e.valid = true) :
    f e ∈ modifyFirst e.robTag f es := by
  induction es with
  | nil => exact absurd he (by simp)
  | cons u us ih =>
    obtain ⟨hu, hus⟩ := List.nodup_cons.mp hnd
    unfold modifyFirst
    rcases List.mem_cons.mp he with rfl | he
    · rw [if_pos (by simp [hv])]
      exact List.mem_cons_self
    · have hne : u.robTag ≠ e.robTag := fun h => hu (List.mem_map.mpr ⟨e, he, h.symm⟩)
      rw [if_neg (by simp [hne])]
      exact List.mem_cons_of_mem _ (ih hus he)

/-- The load that retires is the head of the queue. -/
theorem deallocate_head (hv : ∀ e ∈ q.entries, e.valid = true) (h : q.entries.head?.map (·.robTag) = some tag) :
    ∃ e rest, q.entries = e :: rest ∧ e.robTag = tag ∧ q.deallocate tag = { q with entries := rest } := by
  obtain ⟨n, es⟩ := q
  cases es with
  | nil => exact absurd h (by simp)
  | cons e rest =>
    have htag : e.robTag = tag := by simpa using h
    refine ⟨e, rest, rfl, htag, if_pos ?_⟩
    rw [hv e List.mem_cons_self, htag]
    simp

/-- A load found to have read too early stays the answer while no older one comes. -/
theorem foldl_older {a : PhysAddr} {w : MemWidth} {t p : RobTag} (h : ∀ e ∈ es, RobTag.isOlderThan e.robTag p = false) :
    es.foldl (fun acc e => if violates a w t e then older acc e.robTag else acc) (some p) = some p := by
  induction es with
  | nil => rfl
  | cons e es ih =>
    have hkeep : older (some p) e.robTag = some p := if_neg (by simp [h e List.mem_cons_self])
    rw [List.foldl_cons, hkeep, ite_self]
    exact ih fun u hu => h u (List.mem_cons_of_mem _ hu)

/-- In a queue in program order the scan answers the first load that read too early, the oldest. -/
theorem checkOrderingViolation_eq {now : RobTag} (hq : Serial.Window now (q.entries.map (·.robTag)))
    (a : PhysAddr) (w : MemWidth)
    (t : RobTag) : q.checkOrderingViolation a w t = (q.entries.find? (violates a w t)).map (·.robTag) := by
  obtain ⟨n, es⟩ := q
  change Serial.Window now (es.map (·.robTag)) at hq
  show es.foldl _ none = (es.find? _).map _
  induction es with
  | nil => rfl
  | cons e es ih =>
    have hord := hq.ordered
    rw [List.map_cons, List.pairwise_cons] at hord
    rw [List.foldl_cons]
    cases hv : violates a w t e with
    | false =>
      rw [if_neg Bool.false_ne_true, List.find?_cons_of_neg (by simp [hv])]
      exact ih (hq.sublist (List.sublist_cons_self _ _))
    | true =>
      rw [if_pos rfl, List.find?_cons_of_pos hv]
      refine foldl_older fun u hu => ?_
      have hlt := hord.1 u.robTag (List.mem_map_of_mem hu)
      have hu' := (hq.bounded u.robTag (List.mem_map_of_mem (List.mem_cons_of_mem _ hu))).2
      have he' := (hq.bounded e.robTag (List.mem_map_of_mem List.mem_cons_self)).2
      rw [← Bool.not_eq_true, RobTag.isOlderThan_iff hu' he']
      omega

theorem checkOrderingViolation_oldest {now : RobTag} {a : PhysAddr} {w : MemWidth} {t : RobTag}
    (hq : Serial.Window now (q.entries.map (·.robTag))) (he : e ∈ q.entries) (hv : violates a w t e = true) :
    ∃ u ∈ q.entries, q.checkOrderingViolation a w t = some u.robTag ∧
        Serial.age now e.robTag ≤ Serial.age now u.robTag := by
  rw [checkOrderingViolation_eq hq]
  cases hf : q.entries.find? (violates a w t) with
  | none => exact absurd hv (by simpa using List.find?_eq_none.mp hf e he)
  | some u =>
    obtain ⟨-, us, vs, hsplit, hus⟩ := List.find?_eq_some_iff_append.mp hf
    refine ⟨u, List.mem_of_find?_eq_some hf, rfl, ?_⟩
    rw [hsplit] at he
    rcases List.mem_append.mp he with he | he
    · exact absurd hv (by simpa using hus e he)
    · rcases List.mem_cons.mp he with rfl | he
      · exact le_refl _
      · have hord := hq.ordered
        rw [hsplit, List.map_append, List.map_cons, List.pairwise_append, List.pairwise_cons] at hord
        exact (hord.2.1.1 e.robTag (List.mem_map_of_mem he)).le

end LoadQueue

end Rvsim
