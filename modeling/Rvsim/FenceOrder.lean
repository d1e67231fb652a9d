/-
# FENCE

Three scans order memory accesses around a FENCE: a FENCE waits for the older
accesses of its predecessor set, younger accesses wait for a FENCE with them
in its successor set, and commit drains the store buffer. The scans look at
the bits `r` and `w` of a set; `i` and `o`, for accesses to devices, are
decoded in `units/lsu/ordering.rs` and read by none of them.

Here the reorder buffer, commit and the store log run together, so that what a
FENCE leaves in the store buffer can be compared with program order.

Key definitions:
  - `FenceSet`, `Fence.decode`, `FenceSet.covers`
  - `FenceRun`: the reorder buffer beside commit and the store log
  - `FenceRun.Guarded`, `FenceRun.Ordered`, `FenceRun.Drained`
Key theorems:
  - `IssueQueue.selected_gates`, `InOrder.selected_gates`
  - `FenceRun.step_inv`, `FenceRun.fence_drains`, `FenceRun.runs_ordered`
-/
import Rvsim.LrSc
import Rvsim.InOrder
import Rvsim.Lib.Masks

namespace Rvsim

variable {U : Type}

/-! ### Ordering sets -/

/-- `FenceSet`: device input, device output, memory read, memory write. -/
structure FenceSet where
  i : Bool
  o : Bool
  r : Bool
  w : Bool
  deriving DecidableEq, Repr

namespace FenceSet

def fromBits (bits : U8) : FenceSet where
  i := bits &&& 0b1000 != 0
  o := bits &&& 0b0100 != 0
  r := bits &&& 0b0010 != 0
  w := bits &&& 0b0001 != 0

/-- The set covers an access with these signals, to a device or to memory. -/
def covers (set : FenceSet) (ctrl : ControlSignals) (device : Bool) : Bool :=
  (ctrl.memRead && (if device then set.i else set.r)) || (ctrl.memWrite && (if device then set.o else set.w))

/-- Devices are in the set as memory is. -/
def Uniform (set : FenceSet) : Prop := set.i = set.r ∧ set.o = set.w

instance (set : FenceSet) : Decidable set.Uniform := inferInstanceAs (Decidable (_ ∧ _))

theorem Uniform.covers {set : FenceSet} (h : set.Uniform) (ctrl : ControlSignals) (device : Bool) :
    set.covers ctrl device = set.covers ctrl false := by
  unfold FenceSet.covers
  cases device with
  | false => rfl
  | true =>
    rw [if_pos rfl, if_pos rfl, h.1, h.2]
    rfl

end FenceSet

structure Fence where
  pred : FenceSet
  succ : FenceSet
  deriving DecidableEq, Repr

def Fence.decode (inst : U32) : Fence where
  pred := .fromBits (((inst >>> 24) &&& 0xF).setWidth 8)
  succ := .fromBits (((inst >>> 20) &&& 0xF).setWidth 8)

/-- The bits that the scans take from the instruction are the ones for memory. -/
theorem fromBits_memory (x : U32) :
    (FenceSet.fromBits ((x &&& 0xF).setWidth 8)).r = x.getLsbD 1 ∧
        (FenceSet.fromBits ((x &&& 0xF).setWidth 8)).w = x.getLsbD 0 := by
  have hbit : ∀ n, n < 4 → ((x &&& 0xF).setWidth 8).getLsbD n = x.getLsbD n := by
    intro n hn
    have hmask : (0xF : U32).getLsbD n = true := by
      have hall : ∀ n < 4, (0xF : U32).getLsbD n = true := by decide
      exact hall n hn
    rw [BitVec.getLsbD_setWidth, BitVec.getLsbD_and, hmask, Bool.and_true,
        decide_eq_true (show n < 8 by omega), Bool.true_and]
  constructor
  · exact (Masks.test_bit _ (show 1 < 8 by decide)).trans (hbit 1 (by decide))
  · exact (Masks.test_bit _ (show 0 < 8 by decide)).trans (hbit 0 (by decide))

theorem pred_covers (inst : U32) (ctrl : ControlSignals) : (Fence.decode inst).pred.covers ctrl false =
    (((inst >>> 24).getLsbD 1 && ctrl.memRead) || ((inst >>> 24).getLsbD 0 && ctrl.memWrite)) := by
  obtain ⟨hr, hw⟩ := fromBits_memory (inst >>> 24)
  rw [← hr, ← hw, Bool.and_comm _ ctrl.memRead, Bool.and_comm _ ctrl.memWrite]
  rfl

theorem succ_covers (inst : U32) (ctrl : ControlSignals) : (Fence.decode inst).succ.covers ctrl false =
    ((ctrl.memRead && (inst >>> 20).getLsbD 1) || (ctrl.memWrite && (inst >>> 20).getLsbD 0)) := by
  obtain ⟨hr, hw⟩ := fromBits_memory (inst >>> 20)
  rw [← hr, ← hw]
  rfl

/-! ### The scans -/

namespace Rob

/-- A scan stops at `tag`; with other tags in front of it, it has seen all of them. -/
theorem noneBefore_iff {tag : RobTag} {bad : RobEntry → Bool} {pre : List RobEntry} (h : ∀ e ∈ pre, e.tag ≠ tag)
    (x : RobEntry) (post : List RobEntry) (hx : x.tag = tag) :
    noneBefore tag bad (pre ++ x :: post) = true ↔ ∀ e ∈ pre, bad e = false := by
  induction pre with
  | nil => simp [noneBefore, hx]
  | cons e pre ih =>
    have hne := h e List.mem_cons_self
    have hrest := ih fun y hy => h y (List.mem_cons_of_mem _ hy)
    rw [List.cons_append, noneBefore, if_neg hne]
    cases hb : bad e with
    | true => simp [hb]
    | false => simp [hb, hrest]

variable {r : Rob} {tag : RobTag} {pre post : List RobEntry} {x : RobEntry}

/-- What a FENCE that may issue has waited for. -/
theorem fencePredSatisfied_imp (hr : r.entries = pre ++ x :: post) (hx : x.tag = tag)
    (hd : ∀ e ∈ pre, e.tag ≠ tag) {inst : U32}
    (h : r.fencePredSatisfied tag ((inst >>> 24).getLsbD 1) ((inst >>> 24).getLsbD 0) = true) :
    ∀ e ∈ pre, (Fence.decode inst).pred.covers e.ctrl false = true → e.state ≠ .issued := by
  intro e he hcov hst
  unfold fencePredSatisfied at h
  split at h
  · rename_i hno
    simp only [Bool.and_eq_true, Bool.not_eq_true'] at hno
    rw [pred_covers, hno.1, hno.2] at hcov
    simp at hcov
  · have hbad := (noneBefore_iff hd x post hx).mp (hr ▸ h) e he
    rw [← pred_covers, hcov, hst] at hbad
    exact absurd hbad (by decide)

/-- The in-order FENCE waits for everything in front of it. -/
theorem allBeforeCompleted_imp (hr : r.entries = pre ++ x :: post) (hx : x.tag = tag) (hd : ∀ e ∈ pre, e.tag ≠ tag)
    (h : r.allBeforeCompleted tag = true) : ∀ e ∈ pre, e.state ≠ .issued := by
  intro e he hst
  unfold allBeforeCompleted at h
  rw [hr] at h
  have hbad := (noneBefore_iff hd x post hx).mp h e he
  rw [hst] at hbad
  exact absurd hbad (by decide)

/-- An access that no FENCE in front of it blocks. -/
theorem hasFenceBlocking_imp (hr : r.entries = pre ++ x :: post) (hx : x.tag = tag) (hd : ∀ e ∈ pre, e.tag ≠ tag)
    {ctrl : ControlSignals} (h : r.hasFenceBlocking tag ctrl.memRead ctrl.memWrite = false) :
    ∀ f ∈ pre, f.ctrl.systemOp = .fence → (Fence.decode f.inst).succ.covers ctrl false = false := by
  intro f hf hop
  unfold hasFenceBlocking at h
  split at h
  · rename_i hno
    simp only [Bool.and_eq_true, Bool.not_eq_true'] at hno
    rw [succ_covers, hno.1, hno.2]
    rfl
  · rw [Bool.not_eq_false'] at h
    have hbad := (noneBefore_iff hd x post hx).mp (hr ▸ h) f hf
    rw [← succ_covers, hop] at hbad
    exact hbad

end Rob

/-- An instruction the issue queue selects has passed the gates. -/
theorem IssueQueue.selected_gates {q : IssueQueue} {width : Nat} {sb : StoreBuffer} {rob : Rob} {lp sp : Nat}
    {prf : PhysRegFile}
    {x : SelectedEntry} (h : x ∈ (q.select width sb rob lp sp prf).1) :
    (x.entry.ctrl.systemOp = .fence →
      rob.fencePredSatisfied x.entry.robTag ((x.entry.inst >>> 24).getLsbD 1)
        ((x.entry.inst >>> 24).getLsbD 0) = true) ∧
      rob.hasFenceBlocking x.entry.robTag x.entry.ctrl.memRead x.entry.ctrl.memWrite = false := by
  have hpick : ∀ (es : List (Nat × IssueQueueEntry)) (w l s : Nat), ∀ y ∈ pick w l s es, y ∈ es := by
    intro es
    induction es with
    | nil => intro w l s y hy; simp [pick] at hy
    | cons e es ih =>
      intro w l s y hy
      cases w with
      | zero => simp [pick] at hy
      | succ w =>
        unfold pick at hy
        dsimp only at hy
        split at hy
        · exact List.mem_cons_of_mem _ (ih _ _ _ y hy)
        · rcases List.mem_cons.mp hy with rfl | hy
          · exact List.mem_cons_self
          · exact List.mem_cons_of_mem _ (ih _ _ _ y hy)
  obtain ⟨y, hy, rfl⟩ := List.mem_map.mp h
  have hy := hpick _ _ _ _ y hy
  unfold sortByRawTag at hy
  rw [List.mem_insertionSort] at hy
  obtain ⟨⟨slot, i⟩, -, hsome⟩ := List.mem_filterMap.mp hy
  obtain ⟨e, he, rfl⟩ := Option.map_eq_some_iff.mp hsome
  have hsel : e.selectable sb rob prf = true := (Option.filter_eq_some_iff.mp he).2
  have hissued : (e.issued prf).robTag = e.entry.robTag ∧ (e.issued prf).ctrl = e.entry.ctrl ∧
      (e.issued prf).inst = e.entry.inst := by
    unfold IssueQueueEntry.issued
    split <;> exact ⟨rfl, rfl, rfl⟩
  dsimp only
  rw [hissued.1, hissued.2.1, hissued.2.2]
  unfold IssueQueueEntry.selectable at hsel
  simp only [Bool.and_eq_true, Bool.not_eq_true'] at hsel
  obtain ⟨⟨-, hfence⟩, hblock⟩ := hsel
  constructor
  · intro hop
    unfold IssueQueueEntry.fenceReady at hfence
    rw [hop] at hfence
    simpa using hfence
  · unfold IssueQueueEntry.fenceBlocked at hblock
    cases hr : e.entry.ctrl.memRead <;> cases hw : e.entry.ctrl.memWrite <;> rw [hr, hw] at hblock
    · rfl
    · exact hblock
    · exact hblock
    · exact hblock

/-- So has an instruction that the in-order queue issues without a trap; a FENCE among them has waited for
every older instruction. -/
theorem InOrder.selected_gates {rob : Rob} {sb : StoreBuffer} {cpu : Cpu U} {n : Nat} {q : List RenameIssueEntry}
    {x : RenameIssueEntry} (h : x ∈ (InOrder.select rob sb cpu n q).1) (ht : x.trap = none) :
    (x.ctrl.systemOp = .fence → rob.allBeforeCompleted x.robTag = true) ∧
      rob.hasFenceBlocking x.robTag x.ctrl.memRead x.ctrl.memWrite = false := by
  have hgate : ∀ e : RenameIssueEntry, InOrder.issueBlocked e rob sb = false →
      (e.ctrl.systemOp = .fence → rob.allBeforeCompleted e.robTag = true) ∧
        rob.hasFenceBlocking e.robTag e.ctrl.memRead e.ctrl.memWrite = false := by
    intro e hb
    unfold InOrder.issueBlocked at hb
    simp only [Bool.or_eq_false_iff] at hb
    obtain ⟨⟨⟨hsys, -⟩, hblock⟩, -⟩ := hb
    refine ⟨fun hop => ?_, ?_⟩
    · rw [hop] at hsys
      simpa using hsys
    · cases hr : e.ctrl.memRead <;> cases hw : e.ctrl.memWrite <;> rw [hr, hw] at hblock
      · rfl
      · exact hblock
      · exact hblock
      · exact hblock
  induction n generalizing q with
  | zero => simp [InOrder.select] at h
  | succ n ih =>
    cases q with
    | nil => simp [InOrder.select] at h
    | cons e rest =>
      unfold InOrder.select at h
      by_cases htr : e.trap.isSome = true
      · rw [if_pos htr] at h
        rcases List.mem_cons.mp h with rfl | h
        · rw [ht] at htr
          exact absurd htr (by simp)
        · exact ih h
      · rw [if_neg htr] at h
        cases hb : InOrder.issueBlocked e rob sb with
        | true =>
          rw [hb, if_pos rfl] at h
          exact absurd h (by simp)
        | false =>
          rw [hb, if_neg (by decide)] at h
          cases hr : InOrder.readOperands e rob cpu with
          | none =>
            rw [hr] at h
            exact absurd h (by simp)
          | some e' =>
            rw [hr] at h
            rcases List.mem_cons.mp h with rfl | h
            · have hsame : x.robTag = e.robTag ∧ x.ctrl = e.ctrl := by
                unfold InOrder.readOperands at hr
                split at hr
                · cases hr
                  exact ⟨rfl, rfl⟩
                · exact absurd hr (by simp)
              rw [hsame.1, hsame.2]
              exact hgate e hb
            · exact ih h

/-! ### Stores that have not retired -/

namespace StoreLog

/-- The numbers of the stores that have not retired, oldest first. -/
def waiting (q : StoreLog) : List Nat := (q.items.filter fun i => !i.2.resolution.isCommitted).map (·.1)

variable {q : StoreLog}

/-- Around a store, with only retired ones in front. -/
theorem waiting_split {older younger : List (Nat × StoreBufferEntry)} {i : Nat × StoreBufferEntry} {q : StoreLog}
    (hq : q.items = older ++ i :: younger) (hold : ∀ j ∈ older, j.2.resolution.isCommitted = true) :
    q.waiting = (if i.2.resolution.isCommitted then [] else [i.1]) ++
      (younger.filter fun j => !j.2.resolution.isCommitted).map (·.1) := by
  have hnone : older.filter (fun j => !j.2.resolution.isCommitted) = [] :=
    List.filter_eq_nil_iff.mpr fun j hj => by simp [hold j hj]
  unfold waiting
  rw [hq, List.filter_append, hnone, List.nil_append]
  cases hc : i.2.resolution.isCommitted with
  | true => rw [List.filter_cons_of_neg (by simp [hc])]; rfl
  | false => rw [List.filter_cons_of_pos (by simp [hc])]; rfl

theorem waiting_allocate {n : Nat} {w : MemWidth} (hfull : q.items.length ≠ q.capacity) :
    (q.step (.allocate n w)).waiting = q.waiting ++ [n] := by
  have hitems : (q.step (.allocate n w)).items = q.items ++ [(n, { robTag := RobFifo.tagOf n, width := w })] := by
    unfold step
    dsimp only
    rw [if_neg hfull]
  unfold waiting
  rw [hitems, List.filter_append, List.map_append]
  rfl

theorem waiting_resolve {t : RobTag} {v : VirtAddr} {p : PhysAddr} {d : U64} (hl : q.Legal (.resolve t v p d)) :
    (q.step (.resolve t v p d)).waiting = q.waiting := by
  have hmap : ∀ is : List (Nat × StoreBufferEntry), (∀ i ∈ is, i.2.robTag = t → i.2.resolution.isCommitted = false) →
      ((is.map fun i => if i.2.robTag = t then (i.1, { i.2 with vaddr := v, resolution := .ready p d }) else i).filter
        fun i => !i.2.resolution.isCommitted).map (·.1) =
            (is.filter fun i => !i.2.resolution.isCommitted).map (·.1) := by
    intro is his
    induction is with
    | nil => rfl
    | cons i is ih =>
      have hrest := ih fun j hj => his j (List.mem_cons_of_mem _ hj)
      rw [List.map_cons]
      by_cases ht : i.2.robTag = t
      · have hlive := his i List.mem_cons_self ht
        rw [if_pos ht, List.filter_cons_of_pos rfl, List.filter_cons_of_pos (by simp [hlive]), List.map_cons,
            List.map_cons, hrest]
      · rw [if_neg ht, List.filter_cons, List.filter_cons]
        split
        · rw [List.map_cons, List.map_cons, hrest]
        · exact hrest
  exact hmap q.items hl

theorem waiting_markCommitted (h : q.Inv) {t : RobTag} (hl : q.Legal (.markCommitted t)) :
    (q.step (.markCommitted t)).waiting = q.waiting.tail := by
  obtain ⟨older, n, e, younger, a, d, hq, hold, -, hr, hstep⟩ := h.step_markCommitted hl
  rw [waiting_split hq hold, waiting_split (i := (n, { e with resolution := .committed a d })) (by rw [hstep]) hold, hr]
  rfl

theorem waiting_cancel (h : q.Inv) {t : RobTag} (hl : q.Legal (.cancel t)) :
    (q.step (.cancel t)).waiting = q.waiting.tail := by
  obtain ⟨older, i, younger, hq, hold, hlive, rfl⟩ := hl.split
  have hstep := h.step_cancel hq
  rw [waiting_split hq hold, hlive]
  by_cases hy : younger.isEmpty = true
  · have hnil : younger = [] := List.isEmpty_iff.mp hy
    have hitems : (q.step (.cancel i.2.robTag)).items = older := by rw [hstep, hnil]; rfl
    unfold waiting
    rw [hitems, List.filter_eq_nil_iff.mpr fun j hj => by simp [hold j hj], hnil]
    rfl
  · rw [waiting_split (i := (i.1, { i.2 with resolution := .cancelled })) (by rw [hstep, if_neg hy]) hold]
    rfl

theorem waiting_drainOne (q : StoreLog) : (q.step .drainOne).waiting = q.waiting := by
  unfold step waiting
  cases hq : q.items with
  | nil =>
    dsimp only
    rw [hq]
  | cons i rest =>
    dsimp only
    split
    · rename_i hc
      rw [List.filter_cons_of_neg (by simp [hc])]
    · rw [hq]

theorem waiting_flushSpeculative (q : StoreLog) : (q.step .flushSpeculative).waiting = [] := by
  have hnil : (q.items.filter fun i => i.2.resolution.isCommitted).filter (fun i => !i.2.resolution.isCommitted) = [] :=
    List.filter_eq_nil_iff.mpr fun i hi => by simp [(List.mem_filter.mp hi).2]
  show (((q.items.filter fun i => i.2.resolution.isCommitted).filter fun i => !i.2.resolution.isCommitted).map (·.1)) =
      []
  rw [hnil]
  rfl

theorem waiting_flushAfter (q : StoreLog) (n : Nat) :
    (q.step (.flushAfter n)).waiting = q.waiting.filter fun k => decide (k ≤ n) := by
  show ((q.items.filter fun i => decide (i.1 ≤ n)).filter fun i => !i.2.resolution.isCommitted).map (·.1) = _
  unfold waiting
  rw [List.filter_map, List.filter_filter, List.filter_filter]
  congr 1
  exact List.filter_congr fun i _ => Bool.and_comm _ _

/-- Calling `drain_one` once for each store leaves only stores that have not retired. -/
theorem run_drains_waiting (h : q.Inv) {k : Nat} (hk : q.items.length ≤ k) :
    (q.run (List.replicate k .drainOne)).items = q.items.filter fun i => !i.2.resolution.isCommitted := by
  induction k generalizing q with
  | zero =>
    have hnil : q.items = [] := List.length_eq_zero_iff.mp (by omega)
    show q.items = _
    rw [hnil]
    rfl
  | succ k ih =>
    have hinv : (q.step .drainOne).Inv := h.step trivial
    rw [List.replicate_succ]
    show ((q.step .drainOne).run (List.replicate k .drainOne)).items = _
    cases hq : q.items with
    | nil =>
      have hstep : q.step .drainOne = q := by
        unfold step
        dsimp only
        rw [hq]
      rw [hstep, ih h (by rw [hq]; simp), hq]
    | cons i rest =>
      by_cases hc : i.2.resolution.isCommitted = true
      · have hitems : (q.step .drainOne).items = rest := by
          unfold step
          rw [hq]
          dsimp only
          rw [if_pos hc]
        rw [hq, List.length_cons] at hk
        rw [ih hinv (by rw [hitems]; omega), hitems, List.filter_cons_of_neg (by simp [hc])]
      · -- the first store has not retired, so none has
        have hstep : q.step .drainOne = q := by
          unfold step
          rw [hq]
          dsimp only
          rw [if_neg hc]
        have hlive := h.younger_live (show q.items = [] ++ i :: rest from hq) (by simpa using hc)
        have hall : ∀ j ∈ i :: rest, j.2.resolution.isCommitted = false := by
          intro j hj
          rcases List.mem_cons.mp hj with rfl | hj
          · simpa using hc
          · exact hlive j hj
        have hfix : ∀ k, (q.run (List.replicate k .drainOne)) = q := by
          intro k
          induction k with
          | zero => rfl
          | succ k ihk =>
            rw [List.replicate_succ]
            show (q.step .drainOne).run (List.replicate k .drainOne) = q
            rw [hstep, ihk]
        rw [hstep, hfix, hq]
        exact (List.filter_eq_self.mpr fun j hj => by simp [hall j hj]).symm

end StoreLog

/-! ### The reorder buffer beside commit -/

/-- An access or a FENCE: no CSR, system or translation instruction. -/
structure RobEntry.OfMix (e : RobEntry) : Prop where
  csr : e.csrUpdate = none
  sfence : e.sfenceVma = none
  op : e.ctrl.systemOp = .none ∨
    (e.ctrl.systemOp = .fence ∧ e.ctrl.memRead = false ∧ e.ctrl.memWrite = false ∧ e.lrSc = none)

/-- Commit and the store log with the reorder buffer, its entries under the numbers of their allocation. -/
structure FenceRun (U : Type) where
  base : LrScRun U
  rob : List (Nat × RobEntry)

inductive FenceEvent where
  /-- Rename gives an instruction its entry, and a store its slot. -/
  | dispatch (n : Nat) (e : RobEntry) (w : MemWidth)
  /-- Execution and writeback record something in the entry of instruction `n`. -/
  | update (n : Nat) (f : RobEntry → RobEntry)
  | resolve (tag : RobTag) (vaddr : VirtAddr) (paddr : PhysAddr) (data : U64)
  /-- The head retires. -/
  | retire
  | drain
  | squash (n : Nat)
  | trap (t : Trap) (epc : U64)

namespace FenceRun

def robOf (s : FenceRun U) : Rob := { s.base.st.rob with entries := s.rob.map (·.2) }

/-- The drains that a FENCE asks of the store buffer: none, or as many calls as there are stores. -/
def fenceDrains (s : FenceRun U) (f : RobEntry) : List StoreOp :=
  if (CommitState.fencePred f.inst).1 || (CommitState.fencePred f.inst).2 then
      List.replicate s.base.log.items.length .drainOne else []

section

variable [Units U]

def step (s : FenceRun U) : FenceEvent → FenceRun U
  | .dispatch n e w =>
    { base := if e.ctrl.memWrite then s.base.step (.allocate n w) else s.base, rob := s.rob ++ [(n, e)] }
  | .update n f => { s with rob := s.rob.map fun x => if x.1 = n then (x.1, f x.2) else x }
  | .resolve t v p d => { s with base := s.base.step (.resolve t v p d) }
  | .retire =>
    match s.rob with
    | [] => s
    | (_, e) :: rest =>
      if e.ctrl.systemOp = .fence then
        { base := { s.base with st := (s.base.st.retire e).2, log := s.base.log.run (s.fenceDrains e) }, rob := rest }
      else { base := s.base.step (.retire e), rob := if s.base.refetches e then [] else rest }
  | .drain => { s with base := s.base.step .drain }
  | .squash n => { base := s.base.step (.squash n), rob := s.rob.filter fun x => decide (x.1 ≤ n) }
  | .trap t epc => { base := s.base.step (.trap t epc), rob := [] }

/-- `P` holds at every event of the run. -/
def Always (P : FenceRun U → FenceEvent → Prop) (s : FenceRun U) : List FenceEvent → Prop
  | [] => True
  | ev :: evs => P s ev ∧ Always P (s.step ev) evs

end

/-- The event is one the pipelines make. A store takes a free slot; what execution records leaves the
signals alone; the head has completed, a store among them with its address; a flush keeps an instruction
behind every committed store; tags in use together are less than `2^31` apart. -/
def Legal (s : FenceRun U) : FenceEvent → Prop
  | .dispatch n e w =>
    (∀ x ∈ s.rob, x.1 < n ∧ n < x.1 + 2 ^ 31) ∧ e.tag = RobFifo.tagOf n ∧ e.OfMix ∧
      (e.ctrl.memWrite = true → s.base.log.Legal (.allocate n w) ∧ s.base.log.items.length ≠ s.base.log.capacity)
  | .update _ f => ∀ e, (f e).tag = e.tag ∧ (f e).ctrl = e.ctrl ∧ (f e).inst = e.inst ∧ (e.OfMix → (f e).OfMix)
  | .resolve t v p d => s.base.log.Legal (.resolve t v p d)
  | .retire => ∀ n e rest, s.rob = (n, e) :: rest →
      (e.ctrl.memWrite = true → ∀ i ∈ s.base.log.items, i.2.robTag = e.tag → i.2.isReady = true) ∧
      (∀ a, e.lrSc = some (.lr a) → e.ctrl.memWrite = false) ∧
      ∀ a, e.lrSc = some (.sc a) → e.ctrl.memWrite = true ∧ e.ctrl.regWrite = true ∧ e.ctrl.fpRegWrite = false ∧
        e.result = some 0 ∧ s.base.st.sb.findPaddr e.tag = some a
  | .drain => True
  | .squash n => s.base.log.Legal (.flushAfter n)
  | .trap _ _ => True

/-- The stores of the log that have not retired are those of the reorder buffer, in its order. -/
structure Inv (s : FenceRun U) : Prop where
  base : s.base.Synced
  sorted : s.rob.Pairwise fun x y => x.1 < y.1
  span : ∀ x ∈ s.rob, ∀ y ∈ s.rob, y.1 < x.1 + 2 ^ 31
  tags : ∀ x ∈ s.rob, x.2.tag = RobFifo.tagOf x.1
  mix : ∀ x ∈ s.rob, x.2.OfMix
  stores : s.base.log.waiting = (s.rob.filter fun x => x.2.ctrl.memWrite).map (·.1)

variable {s : FenceRun U}

/-- Entries in front of one have other tags. -/
theorem Inv.distinct (hi : s.Inv) {pre post : List (Nat × RobEntry)} {x : Nat × RobEntry}
    (hr : s.rob = pre ++ x :: post) :
    ∀ y ∈ pre, y.2.tag ≠ x.2.tag := by
  intro y hy heq
  have hsorted := hi.sorted
  rw [hr, List.pairwise_append] at hsorted
  have hlt := hsorted.2.2 y hy x List.mem_cons_self
  have hmem : ∀ z ∈ pre ++ x :: post, z ∈ s.rob := fun z hz => hr ▸ hz
  have hym := hmem y (List.mem_append_left _ hy)
  have hxm := hmem x (List.mem_append_right _ List.mem_cons_self)
  have hold := RobFifo.tagOf_older hlt (hi.span y hym x hxm)
  rw [← hi.tags y hym, ← hi.tags x hxm, heq] at hold
  exact absurd (hold.1.symm.trans hold.2) (by simp)

/-- The oldest store of the log that has not retired is the head's. -/
theorem Inv.head_oldest (hi : s.Inv) {n : Nat} {e : RobEntry} {rest : List (Nat × RobEntry)}
    (hr : s.rob = (n, e) :: rest)
    (hw : e.ctrl.memWrite = true) : s.base.log.Oldest e.tag := by
  have hstores := hi.stores
  rw [hr, List.filter_cons_of_pos (by simpa using hw), List.map_cons] at hstores
  unfold StoreLog.waiting at hstores
  unfold StoreLog.Oldest
  rw [← List.head?_filter]
  cases hf : s.base.log.items.filter fun i => !i.2.resolution.isCommitted with
  | nil =>
    rw [hf] at hstores
    exact absurd hstores (by simp)
  | cons i is =>
    rw [hf, List.map_cons, List.cons.injEq] at hstores
    have hmem : i ∈ s.base.log.items := List.mem_of_mem_filter (by rw [hf]; exact List.mem_cons_self)
    have htag := hi.base.log.tags i hmem
    rw [hstores.1] at htag
    have hhead := hi.tags (n, e) (by rw [hr]; exact List.mem_cons_self)
    rw [List.head?_cons, Option.map_some, htag]
    exact congrArg some hhead.symm

/-- Retiring an access is legal for commit. -/
theorem Inv.retires (hi : s.Inv) (hl : s.Legal .retire) {n : Nat} {e : RobEntry} {rest : List (Nat × RobEntry)}
    (hr : s.rob = (n, e) :: rest) (hop : e.ctrl.systemOp ≠ .fence) : s.base.Retires e := by
  obtain ⟨hready, hlr, hsc⟩ := hl n e rest hr
  have hmix := hi.mix (n, e) (by rw [hr]; exact List.mem_cons_self)
  have hnone : e.ctrl.systemOp = .none := hmix.op.resolve_right fun h => hop h.1
  refine ⟨hmix.csr, Or.inl hnone, fun h => ?_, fun hw => ⟨hi.head_oldest hr hw, hready hw⟩, hlr, hsc⟩
  have hsf : e.sfenceVma = none := hmix.sfence
  rw [hsf] at h
  exact absurd h (by simp)

/-! ### Retiring a FENCE -/

theorem drainCommitted_eq [Units U] (es : List StoreBufferEntry) (c : Cpu U) :
    (drainCommitted c es).2 = es.dropWhile fun e => e.resolution.isCommitted := by
  induction es generalizing c with
  | nil => rfl
  | cons e es ih =>
    rw [drainCommitted_cons]
    cases hr : e.resolution with
    | committed a d =>
      rw [List.dropWhile_cons_of_pos (by rw [hr]; rfl)]
      exact ih _
    | cancelled =>
      rw [List.dropWhile_cons_of_pos (by rw [hr]; rfl)]
      exact ih _
    | pending => rw [List.dropWhile_cons_of_neg (by rw [hr]; exact Bool.false_ne_true)]
    | ready a d => rw [List.dropWhile_cons_of_neg (by rw [hr]; exact Bool.false_ne_true)]

/-- With the retired stores in front, dropping them from the front drops all of them. -/
theorem dropWhile_retired {is : List (Nat × StoreBufferEntry)}
    (h : is.Pairwise fun a b => b.2.resolution.isCommitted = true → a.2.resolution.isCommitted = true) :
    (is.map (·.2)).dropWhile (fun e => e.resolution.isCommitted) =
      (is.filter fun i => !i.2.resolution.isCommitted).map (·.2) := by
  induction is with
  | nil => rfl
  | cons i is ih =>
    rw [List.pairwise_cons] at h
    rw [List.map_cons]
    cases hc : i.2.resolution.isCommitted with
    | true =>
      rw [List.dropWhile_cons_of_pos (by simpa using hc), List.filter_cons_of_neg (by simp [hc])]
      exact ih h.2
    | false =>
      have hall : (i :: is).filter (fun j => !j.2.resolution.isCommitted) = i :: is := by
        refine List.filter_eq_self.mpr fun j hj => ?_
        rcases List.mem_cons.mp hj with rfl | hj
        · simp [hc]
        · rw [Bool.not_eq_true', ← Bool.not_eq_true]
          intro hj'
          rw [h.1 j hj hj'] at hc
          exact absurd hc (by decide)
      rw [List.dropWhile_cons_of_neg (by rw [hc]; exact Bool.false_ne_true), hall, List.map_cons]

theorem run_capacity (q : StoreLog) (k : Nat) : (q.run (List.replicate k .drainOne)).capacity = q.capacity := by
  induction k generalizing q with
  | zero => rfl
  | succ k ih =>
    have hstep : (q.step .drainOne).capacity = q.capacity := by
      unfold StoreLog.step
      cases q.items with
      | nil => rfl
      | cons i rest =>
        dsimp only
        split <;> rfl
    rw [List.replicate_succ]
    show ((q.step .drainOne).run _).capacity = q.capacity
    rw [ih, hstep]

theorem run_drains_inv {q : StoreLog} (h : q.Inv) (k : Nat) : (q.run (List.replicate k .drainOne)).Inv := by
  induction k generalizing q with
  | zero => exact h
  | succ k ih =>
    rw [List.replicate_succ]
    exact ih (h.step trivial)

variable [Units U]

/-- A FENCE with `r` or `w` in its predecessor set leaves the stores that have not retired. -/
theorem retire_fence (hi : s.Inv) {n : Nat} {e : RobEntry} {rest : List (Nat × RobEntry)} (hr : s.rob = (n, e) :: rest)
    (hop : e.ctrl.systemOp = .fence) :
    (s.base.st.retire e).2.sb = (s.base.log.run (s.fenceDrains e)).buffer ∧ (s.base.log.run (s.fenceDrains e)).Inv := by
  have hmix := hi.mix (n, e) (by rw [hr]; exact List.mem_cons_self)
  obtain ⟨-, hmw, hlr⟩ := (hmix.op.resolve_left fun h => absurd (hop.symm.trans h) (by decide)).2
  dsimp only at hmw hlr
  have hcsr : e.csrUpdate = none := hmix.csr
  have hsf : e.sfenceVma = none := hmix.sfence
  have hhead := (s.base.st.retireHead_state e).1
  have hmem := ((s.base.st.retireHead e).retireMem_state e).1
  rw [hmw, if_neg (by decide), hhead] at hmem
  have hret : s.base.st.retire e = (s.base.st.retireHead e).retireTail e := by
    rw [CommitState.retire_eq]
    unfold CommitState.retireEffects
    rw [hcsr, hop, hlr]
  have hsb : (s.base.st.retire e).2.sb =
      if (CommitState.fencePred e.inst).1 || (CommitState.fencePred e.inst).2 then
        (((s.base.st.retireHead e).retireMem e).drainAll).sb else s.base.st.sb := by
    rw [hret]
    unfold CommitState.retireTail CommitState.retireFence
    rw [if_neg (by rw [hop]; decide), hop, hsf]
    dsimp only
    by_cases hp : (CommitState.fencePred e.inst).1 = true ∨ (CommitState.fencePred e.inst).2 = true
    · rw [if_pos ⟨rfl, hp⟩, if_pos (by simpa using hp)]
    · rw [if_neg fun h => hp h.2, if_neg (by simpa using hp)]
      exact hmem
  unfold fenceDrains
  rw [hsb]
  split
  · refine ⟨?_, run_drains_inv hi.base.log _⟩
    have hdrain : ((s.base.st.retireHead e).retireMem e).drainAll.sb =
        { s.base.st.sb with entries := s.base.st.sb.entries.dropWhile fun x => x.resolution.isCommitted } := by
      unfold CommitState.drainAll drainAllCommitted
      dsimp only
      rw [drainCommitted_eq, hmem]
    rw [hdrain, hi.base.buffer]
    unfold StoreLog.buffer
    rw [dropWhile_retired hi.base.log.retired, StoreLog.run_drains_waiting hi.base.log le_rfl, run_capacity]
  · exact ⟨hi.base.buffer, hi.base.log⟩

omit [Units U] in
theorem waiting_fenceDrains (hi : s.Inv) (e : RobEntry) :
    (s.base.log.run (s.fenceDrains e)).waiting = s.base.log.waiting := by
  unfold fenceDrains
  split
  · unfold StoreLog.waiting
    rw [StoreLog.run_drains_waiting hi.base.log le_rfl, List.filter_filter]
    simp
  · rfl

/-! ### Steps -/

theorem rob_retire {n : Nat} {e : RobEntry} {rest : List (Nat × RobEntry)} (hr : s.rob = (n, e) :: rest)
    (hop : e.ctrl.systemOp ≠ .fence) : (s.step .retire).rob = if s.base.refetches e then [] else rest := by
  unfold step
  rw [hr]
  dsimp only
  rw [if_neg hop]

omit [Units U] in
/-- Taking entries out of the reorder buffer. -/
theorem Inv.sublist (hi : s.Inv) {base : LrScRun U} {rob : List (Nat × RobEntry)} (hb : base.Synced)
    (hs : rob.Sublist s.rob)
    (hw : base.log.waiting = (rob.filter fun x => x.2.ctrl.memWrite).map (·.1)) : Inv ⟨base, rob⟩ where
  base := hb
  sorted := hi.sorted.sublist hs
  span x hx y hy := hi.span x (hs.subset hx) y (hs.subset hy)
  tags x hx := hi.tags x (hs.subset hx)
  mix x hx := hi.mix x (hs.subset hx)
  stores := hw

/-- What retiring an access leaves waiting. -/
theorem waiting_retire (hi : s.Inv) (hl : s.Legal .retire) {n : Nat} {e : RobEntry} {rest : List (Nat × RobEntry)}
    (hr : s.rob = (n, e) :: rest) (hop : e.ctrl.systemOp ≠ .fence) :
    (s.base.step (.retire e)).log.waiting =
      if s.base.refetches e then [] else (rest.filter fun x => x.2.ctrl.memWrite).map (·.1) := by
  have hret := hi.retires hl hr hop
  have hstores := hi.stores
  rw [hr] at hstores
  have hone : (s.base.log.run (s.base.storeOps e)).waiting = (rest.filter fun x => x.2.ctrl.memWrite).map (·.1) := by
    cases hw : e.ctrl.memWrite with
    | false =>
      have hops : s.base.storeOps e = [] := by
        unfold LrScRun.storeOps
        split
        · rename_i a ha
          have hmw := (hret.sc a ha).1
          rw [hw] at hmw
          exact absurd hmw (by decide)
        · rw [if_neg (by rw [hw]; decide)]
      rw [List.filter_cons_of_neg (by simp [hw])] at hstores
      rw [hops]
      exact hstores
    | true =>
      have hmark : s.base.log.Legal (.markCommitted e.tag) := hret.store hw
      rw [List.filter_cons_of_pos (by simp [hw]), List.map_cons] at hstores
      have htail : s.base.log.waiting.tail = (rest.filter fun x => x.2.ctrl.memWrite).map (·.1) := by rw [hstores]; rfl
      have hcases : s.base.storeOps e = [.markCommitted e.tag] ∨ s.base.storeOps e = [.cancel e.tag] := by
        unfold LrScRun.storeOps
        split
        · split
          · exact Or.inl rfl
          · exact Or.inr rfl
        · rw [if_pos hw]
          exact Or.inl rfl
      rcases hcases with h | h
      · rw [h, ← htail]
        exact StoreLog.waiting_markCommitted hi.base.log hmark
      · rw [h, ← htail]
        exact StoreLog.waiting_cancel hi.base.log hmark.1
  unfold LrScRun.step
  dsimp only
  split
  · exact StoreLog.waiting_flushSpeculative _
  · exact hone

/-- **One step** keeps the invariant. -/
theorem step_inv (hi : s.Inv) {ev : FenceEvent} (hl : s.Legal ev) : (s.step ev).Inv := by
  have hsynced : ∀ op, s.base.Legal op → (s.base.step op).Synced := fun _ h => LrScRun.step_synced hi.base h
  cases ev with
  | dispatch n e w =>
    obtain ⟨hnew, htag, hmix, hstore⟩ := hl
    have hbase : (s.step (.dispatch n e w)).base.Synced := by
      unfold step
      dsimp only
      split
      · rename_i hw
        exact hsynced (.allocate n w) (hstore hw).1
      · exact hi.base
    have hmem : ∀ x ∈ s.rob ++ [(n, e)], x ∈ s.rob ∨ x = (n, e) := fun x hx => by simpa using hx
    refine ⟨hbase, ?_, ?_, ?_, ?_, ?_⟩
    · refine List.pairwise_append.mpr ⟨hi.sorted, List.pairwise_singleton _ _, fun x hx y hy => ?_⟩
      rw [List.mem_singleton.mp hy]
      exact (hnew x hx).1
    · intro x hx y hy
      rcases hmem x hx with hx | rfl
      · rcases hmem y hy with hy | rfl
        · exact hi.span x hx y hy
        · exact (hnew x hx).2
      · rcases hmem y hy with hy | rfl
        · have := (hnew y hy).1
          show y.1 < n + 2 ^ 31
          omega
        · exact Nat.lt_add_of_pos_right (by decide)
    · intro x hx
      rcases hmem x hx with hx | rfl
      · exact hi.tags x hx
      · exact htag
    · intro x hx
      rcases hmem x hx with hx | rfl
      · exact hi.mix x hx
      · exact hmix
    · show (s.step (.dispatch n e w)).base.log.waiting =
        ((s.rob ++ [(n, e)]).filter fun x => x.2.ctrl.memWrite).map (·.1)
      rw [List.filter_append, List.map_append, ← hi.stores]
      unfold step
      dsimp only
      cases hw : e.ctrl.memWrite with
      | true =>
        rw [if_pos rfl, List.filter_cons_of_pos (by simp [hw])]
        exact StoreLog.waiting_allocate (hstore hw).2
      | false =>
        rw [if_neg (by decide), List.filter_cons_of_neg (by simp [hw])]
        simp
  | update n f =>
    have hmap : ∀ x ∈ (s.step (.update n f)).rob, ∃ y ∈ s.rob, x.1 = y.1 ∧ x.2.tag = y.2.tag ∧
        (y.2.OfMix → x.2.OfMix) := by
      intro x hx
      obtain ⟨y, hy, rfl⟩ := List.mem_map.mp hx
      refine ⟨y, hy, ?_⟩
      split
      · exact ⟨rfl, (hl y.2).1, (hl y.2).2.2.2⟩
      · exact ⟨rfl, rfl, id⟩
    have hfst : (s.step (.update n f)).rob.map (·.1) = s.rob.map (·.1) := by
      show (s.rob.map _).map _ = _
      rw [List.map_map]
      refine List.map_congr_left fun x _ => ?_
      dsimp only [Function.comp_apply]
      split <;> rfl
    have hfilter : ∀ xs : List (Nat × RobEntry), ((xs.map fun x => if x.1 = n then (x.1, f x.2) else x).filter
        fun x => x.2.ctrl.memWrite).map (·.1) = (xs.filter fun x => x.2.ctrl.memWrite).map (·.1) := by
      intro xs
      induction xs with
      | nil => rfl
      | cons x xs ih =>
        have hctrl : (if x.1 = n then (x.1, f x.2) else x).2.ctrl = x.2.ctrl := by
          split
          · exact (hl x.2).2.1
          · rfl
        have hnum : (if x.1 = n then (x.1, f x.2) else x).1 = x.1 := by split <;> rfl
        rw [List.map_cons, List.filter_cons, List.filter_cons, hctrl]
        split
        · rw [List.map_cons, List.map_cons, ih, hnum]
        · exact ih
    refine ⟨hi.base, ?_, ?_, ?_, ?_, hi.stores.trans (hfilter s.rob).symm⟩
    · have hs : (s.rob.map (·.1)).Pairwise (· < ·) := List.pairwise_map.mpr hi.sorted
      rw [← hfst] at hs
      exact List.pairwise_map.mp hs
    · intro x hx y hy
      obtain ⟨x', hx', hxn, -⟩ := hmap x hx
      obtain ⟨y', hy', hyn, -⟩ := hmap y hy
      rw [hxn, hyn]
      exact hi.span x' hx' y' hy'
    · intro x hx
      obtain ⟨y, hy, hn, ht, -⟩ := hmap x hx
      rw [ht, hn]
      exact hi.tags y hy
    · intro x hx
      obtain ⟨y, hy, -, -, hm⟩ := hmap x hx
      exact hm (hi.mix y hy)
  | resolve t v p d =>
    exact hi.sublist (hsynced (.resolve t v p d) hl) (List.Sublist.refl _)
      ((StoreLog.waiting_resolve hl).trans hi.stores)
  | retire =>
    unfold step
    cases hr : s.rob with
    | nil =>
      dsimp only
      exact hi
    | cons x rest =>
      obtain ⟨n, e⟩ := x
      have hsub : rest.Sublist s.rob := hr ▸ List.sublist_cons_self _ _
      dsimp only
      by_cases hop : e.ctrl.systemOp = .fence
      · rw [if_pos hop]
        obtain ⟨hbuf, hlog⟩ := retire_fence hi hr hop
        refine hi.sublist ⟨hlog, hbuf⟩ hsub ?_
        have hmix := hi.mix (n, e) (by rw [hr]; exact List.mem_cons_self)
        obtain ⟨-, hmw, -⟩ := (hmix.op.resolve_left fun h => absurd (hop.symm.trans h) (by decide)).2
        rw [waiting_fenceDrains hi, hi.stores, hr, List.filter_cons_of_neg (by simpa using hmw)]
      · rw [if_neg hop]
        have hbase := hsynced (.retire e) (hi.retires hl hr hop)
        have hwait := waiting_retire hi hl hr hop
        split
        · rename_i hre
          rw [if_pos hre] at hwait
          exact hi.sublist hbase (List.nil_sublist _) hwait
        · rename_i hre
          rw [if_neg hre] at hwait
          exact hi.sublist hbase hsub hwait
  | drain =>
    exact hi.sublist (hsynced .drain trivial) (List.Sublist.refl _)
      ((StoreLog.waiting_drainOne _).trans hi.stores)
  | squash n =>
    refine hi.sublist (hsynced (.squash n) hl) List.filter_sublist ?_
    show (s.base.log.step (.flushAfter n)).waiting = _
    rw [StoreLog.waiting_flushAfter, hi.stores, List.filter_map, List.filter_filter, List.filter_filter]
    congr 1
    exact List.filter_congr fun x _ => Bool.and_comm _ _
  | trap t epc =>
    exact hi.sublist (hsynced (.trap t epc) trivial) (List.nil_sublist _)
      (StoreLog.waiting_flushSpeculative _)

/-! ### What a FENCE orders -/

/-- One of the issue stages takes this instruction out of its queue. -/
inductive Issues (s : FenceRun U) : RobTag → ControlSignals → U32 → Prop
  | o3 {q : IssueQueue} {width lp sp : Nat} {sb : StoreBuffer} {prf : PhysRegFile} {x : SelectedEntry}
      (h : x ∈ (q.select width sb s.robOf lp sp prf).1) : Issues s x.entry.robTag x.entry.ctrl x.entry.inst
  | inOrder {q : List RenameIssueEntry} {n : Nat} {sb : StoreBuffer} {cpu : Cpu U} {x : RenameIssueEntry}
      (h : x ∈ (InOrder.select s.robOf sb cpu n q).1) (ht : x.trap = none) : Issues s x.robTag x.ctrl x.inst

/-- What issues is covered by no successor set in front of it, and as a FENCE it covers nothing in front of
it that has not completed. `device` tells which instructions access a device. -/
def Ordered (device : Nat → Bool) (s : FenceRun U) : Prop :=
  ∀ pre n y post, s.rob = pre ++ (n, y) :: post → s.Issues y.tag y.ctrl y.inst →
    (∀ x ∈ pre, x.2.ctrl.systemOp = .fence → (Fence.decode x.2.inst).succ.covers y.ctrl (device n) = false) ∧
    (y.ctrl.systemOp = .fence →
      ∀ x ∈ pre, (Fence.decode y.inst).pred.covers x.2.ctrl (device x.1) = true → x.2.state ≠ .issued)

/-- A FENCE with `w` or `o` in its predecessor set leaves only younger stores in the buffer. -/
def Drained (s : FenceRun U) : FenceEvent → Prop
  | .retire => ∀ n f rest, s.rob = (n, f) :: rest → f.ctrl.systemOp = .fence →
      (Fence.decode f.inst).pred.w = true ∨ (Fence.decode f.inst).pred.o = true →
      ∀ x ∈ (s.step .retire).base.st.sb.entries, RobTag.isOlderThan f.tag x.robTag = true
  | _ => True

/-- FENCEs in flight cover by `r` and `w` what they cover by `i` and `o`: a younger access, an older one that
has not completed, and the older stores in the buffer. -/
structure Guarded (device : Nat → Bool) (s : FenceRun U) (ev : FenceEvent) : Prop where
  succ : ∀ x ∈ s.rob, ∀ y ∈ s.rob, x.1 < y.1 → x.2.ctrl.systemOp = .fence →
    (Fence.decode x.2.inst).succ.covers y.2.ctrl (device y.1) = true →
        (Fence.decode x.2.inst).succ.covers y.2.ctrl false = true
  pred : ∀ x ∈ s.rob, ∀ y ∈ s.rob, x.1 < y.1 → y.2.ctrl.systemOp = .fence → x.2.state = .issued →
    (Fence.decode y.2.inst).pred.covers x.2.ctrl (device x.1) = true →
        (Fence.decode y.2.inst).pred.covers x.2.ctrl false = true
  drain : ev = .retire → ∀ n f rest, s.rob = (n, f) :: rest → f.ctrl.systemOp = .fence →
    (Fence.decode f.inst).pred.o = true →
      ((Fence.decode f.inst).pred.r = true ∨ (Fence.decode f.inst).pred.w = true) ∨
        ∀ x ∈ s.base.st.sb.entries, RobTag.isOlderThan f.tag x.robTag = true

omit [Units U] in
theorem Issues.gates {tag : RobTag} {ctrl : ControlSignals} {inst : U32} (h : s.Issues tag ctrl inst) :
    (ctrl.systemOp = .fence → s.robOf.fencePredSatisfied tag ((inst >>> 24).getLsbD 1)
        ((inst >>> 24).getLsbD 0) = true ∨
      s.robOf.allBeforeCompleted tag = true) ∧ s.robOf.hasFenceBlocking tag ctrl.memRead ctrl.memWrite = false := by
  cases h with
  | o3 h =>
    obtain ⟨hf, hb⟩ := IssueQueue.selected_gates h
    exact ⟨fun ho => Or.inl (hf ho), hb⟩
  | inOrder h ht =>
    obtain ⟨hf, hb⟩ := InOrder.selected_gates h ht
    exact ⟨fun ho => Or.inr (hf ho), hb⟩

omit [Units U] in
theorem Inv.ordered (hi : s.Inv) {device : Nat → Bool} {ev : FenceEvent} (hg : s.Guarded device ev) :
    s.Ordered device := by
  intro pre n y post hr hissue
  obtain ⟨hpred, hblock⟩ := hissue.gates
  have hentries : s.robOf.entries = pre.map (·.2) ++ y :: post.map (·.2) := by
    show s.rob.map (·.2) = _
    rw [hr, List.map_append, List.map_cons]
  have hdistinct : ∀ e ∈ pre.map (·.2), e.tag ≠ y.tag := by
    intro e he
    obtain ⟨x, hx, rfl⟩ := List.mem_map.mp he
    exact hi.distinct hr x hx
  have hy : (n, y) ∈ s.rob := by rw [hr]; simp
  have hmem : ∀ x ∈ pre, x ∈ s.rob := fun x hx => by rw [hr]; exact List.mem_append_left _ hx
  have hlt : ∀ x ∈ pre, x.1 < n := by
    intro x hx
    have hsorted := hi.sorted
    rw [hr, List.pairwise_append] at hsorted
    exact hsorted.2.2 x hx (n, y) List.mem_cons_self
  constructor
  · intro x hx hop
    have hfree := Rob.hasFenceBlocking_imp hentries rfl hdistinct hblock x.2 (List.mem_map_of_mem hx) hop
    rw [← Bool.not_eq_true]
    intro hcov
    rw [hg.succ x (hmem x hx) (n, y) hy (hlt x hx) hop hcov] at hfree
    exact absurd hfree (by decide)
  · intro hop x hx hcov hst
    rcases hpred hop with hsat | hall
    · have hcov' := hg.pred x (hmem x hx) (n, y) hy (hlt x hx) hop hst hcov
      exact Rob.fencePredSatisfied_imp hentries rfl hdistinct hsat x.2 (List.mem_map_of_mem hx) hcov' hst
    · exact Rob.allBeforeCompleted_imp hentries rfl hdistinct hall x.2 (List.mem_map_of_mem hx) hst

omit [Units U] in
/-- What a FENCE leaves in the store buffer when it drains: stores behind it in the reorder buffer. -/
theorem fence_drains (hi : s.Inv) {n : Nat} {f : RobEntry} {rest : List (Nat × RobEntry)} (hr : s.rob = (n, f) :: rest)
    (hop : f.ctrl.systemOp = .fence) (hp : (Fence.decode f.inst).pred.r = true ∨ (Fence.decode f.inst).pred.w = true) :
    ∀ i ∈ (s.base.log.run (s.fenceDrains f)).items, ∃ x ∈ rest, x.1 = i.1 := by
  obtain ⟨hfr, hfw⟩ := fromBits_memory (f.inst >>> 24)
  have hdrains : s.fenceDrains f = List.replicate s.base.log.items.length .drainOne := by
    unfold fenceDrains CommitState.fencePred
    rw [← hfr, ← hfw, if_pos]
    rcases hp with h | h
    · exact Bool.or_eq_true_iff.mpr (Or.inl h)
    · exact Bool.or_eq_true_iff.mpr (Or.inr h)
  have hmix := hi.mix (n, f) (by rw [hr]; exact List.mem_cons_self)
  obtain ⟨-, hmw, -⟩ := (hmix.op.resolve_left fun h => absurd (hop.symm.trans h) (by decide)).2
  have hstores := hi.stores
  rw [hr, List.filter_cons_of_neg (by simpa using hmw)] at hstores
  intro i hmem
  rw [hdrains, StoreLog.run_drains_waiting hi.base.log le_rfl] at hmem
  have hwait : i.1 ∈ s.base.log.waiting := List.mem_map_of_mem hmem
  rw [hstores] at hwait
  obtain ⟨x, hx, hn⟩ := List.mem_map.mp hwait
  exact ⟨x, List.mem_of_mem_filter hx, hn⟩

theorem Inv.drained (hi : s.Inv) {device : Nat → Bool} {ev : FenceEvent} (hg : s.Guarded device ev) : s.Drained ev := by
  cases ev with
  | retire =>
    intro n f rest hr hop hp x hx
    have hstep : (s.step .retire).base.st.sb = (s.base.st.retire f).2.sb := by
      unfold step
      rw [hr]
      dsimp only
      rw [if_pos hop]
    obtain ⟨hbuf, hlog⟩ := retire_fence hi hr hop
    rw [hstep, hbuf] at hx
    by_cases hrw : (Fence.decode f.inst).pred.r = true ∨ (Fence.decode f.inst).pred.w = true
    · obtain ⟨i, hmem, rfl⟩ := List.mem_map.mp hx
      obtain ⟨y, hy, hn⟩ := fence_drains hi hr hop hrw i hmem
      have hhead : (n, f) ∈ s.rob := by rw [hr]; exact List.mem_cons_self
      have hymem : y ∈ s.rob := by rw [hr]; exact List.mem_cons_of_mem _ hy
      have hsorted := hi.sorted
      rw [hr, List.pairwise_cons] at hsorted
      rw [show f.tag = _ from hi.tags (n, f) hhead, hlog.tags i hmem, ← hn]
      exact (RobFifo.tagOf_older (hsorted.1 y hy) (hi.span (n, f) hhead y hymem)).1
    · -- the set has `o` alone, so nothing drains
      have ho : (Fence.decode f.inst).pred.o = true := hp.resolve_left fun hw => hrw (Or.inr hw)
      obtain ⟨hfr, hfw⟩ := fromBits_memory (f.inst >>> 24)
      have hdrains : s.fenceDrains f = [] := by
        unfold fenceDrains CommitState.fencePred
        rw [← hfr, ← hfw, if_neg]
        exact fun h => hrw (Bool.or_eq_true_iff.mp h)
      rw [hdrains] at hx
      have hbefore := (hg.drain rfl n f rest hr hop ho).resolve_left hrw
      rw [hi.base.buffer] at hbefore
      exact hbefore x hx
  | dispatch n e w => trivial
  | update n f => trivial
  | resolve t v p d => trivial
  | drain => trivial
  | squash n => trivial
  | trap t epc => trivial

omit [Units U] in
/-- FENCEs that treat devices as memory meet the condition. -/
theorem guarded_of_uniform {device : Nat → Bool} {ev : FenceEvent}
    (h : ∀ x ∈ s.rob, x.2.ctrl.systemOp = .fence →
      (Fence.decode x.2.inst).pred.Uniform ∧ (Fence.decode x.2.inst).succ.Uniform) : s.Guarded device ev where
  succ x hx y _ _ hop hcov := by
    rw [(h x hx hop).2.covers] at hcov
    exact hcov
  pred x _ y hy _ hop _ hcov := by
    rw [(h y hy hop).1.covers] at hcov
    exact hcov
  drain _ n f rest hr hop ho := by
    have huni := (h (n, f) (by rw [hr]; exact List.mem_cons_self) hop).1
    exact Or.inl (Or.inr (huni.2.symm.trans ho))

/-! ### Runs -/

/-- Nothing in flight. -/
def init (st : CommitState U) (capacity : Nat) : FenceRun U := ⟨.init st capacity, []⟩

omit [Units U] in
theorem init_inv (st : CommitState U) (capacity : Nat) : (init st capacity).Inv where
  base := ⟨StoreLog.Inv.new capacity, rfl⟩
  sorted := List.Pairwise.nil
  span _ h := absurd h (by simp [init])
  tags _ h := absurd h (by simp [init])
  mix _ h := absurd h (by simp [init])
  stores := rfl

/-- **FENCE.** In every run whose steps meet the condition, accesses issue as the FENCEs in flight allow, and
a FENCE that retires leaves no older store behind. -/
theorem runs_ordered (st : CommitState U) (capacity : Nat) (device : Nat → Bool) (evs : List FenceEvent)
    (hl : (init st capacity).Always Legal evs) (hg : (init st capacity).Always (Guarded device) evs) :
    (init st capacity).Always (fun s ev => s.Ordered device ∧ s.Drained ev) evs := by
  have hinit := init_inv st capacity
  generalize init st capacity = s at hl hg hinit ⊢
  induction evs generalizing s with
  | nil => trivial
  | cons ev evs ih =>
    exact ⟨⟨hinit.ordered hg.1, hinit.drained hg.1⟩, ih _ hl.2 hg.2 (step_inv hinit hl.1)⟩

end FenceRun

/-! ### Two runs -/

def fenceStart : FenceRun Bench :=
  .init (O3.toCommit (O3Pipeline.init O3Pipeline.smallO3 (Cpu.new O3Pipeline.smallO3 (fun _ => 0) {})).core) 4

def fenceEntry (inst : U32) : RobEntry := { lrScEntry 2 { systemOp := .fence } none with inst := inst, result := none }

/-- A store to a device and a FENCE behind it, both retired. -/
def fenceAround (inst : U32) : List FenceEvent :=
  [.dispatch 1 (lrScEntry 1 { memWrite := true } none) .word, .dispatch 2 (fenceEntry inst) .word,
    .resolve 1 0x10000000 0x10000000 7, .retire, .retire]

theorem fenceAround_legal (inst : U32) : fenceStart.Always FenceRun.Legal (fenceAround inst) := by
  have hready : ∀ i ∈ ((StoreLog.new 4).run [.allocate 1 .word, .resolve 1 0x10000000 0x10000000 7]).items,
      i.2.robTag = 1 → i.2.isReady = true := by decide
  refine ⟨⟨fun x hx => absurd hx List.not_mem_nil, rfl, ⟨rfl, rfl, Or.inl rfl⟩, fun _ => ⟨by decide, by decide⟩⟩,
    ⟨by decide, rfl, ⟨rfl, rfl, Or.inr ⟨rfl, rfl, rfl, rfl⟩⟩, fun h => absurd h Bool.false_ne_true⟩, ?_,
        ?_, ?_, trivial⟩
  · show ∀ i ∈ ((StoreLog.new 4).run [.allocate 1 .word]).items, i.2.robTag = 1 → i.2.resolution.isCommitted = false
    decide
  · intro n e rest h
    change [(1, lrScEntry 1 { memWrite := true } none), (2, fenceEntry inst)] = (n, e) :: rest at h
    cases h
    exact ⟨fun _ => hready, fun _ h => (nomatch h), fun _ h => (nomatch h)⟩
  · intro n e rest h
    have hrest : ∀ s : FenceRun Bench, s.rob = [(1, lrScEntry 1 { memWrite := true } none), (2, fenceEntry inst)] →
        (s.step .retire).rob = if s.base.refetches (lrScEntry 1 { memWrite := true } none) then [] else
            [(2, fenceEntry inst)] :=
      fun s hs => FenceRun.rob_retire hs (by decide)
    rw [hrest _ rfl] at h
    split at h
    · exact nomatch h
    · cases h
      exact ⟨fun h => absurd h Bool.false_ne_true, fun _ h => (nomatch h), fun _ h => (nomatch h)⟩

/-- Behind a FENCE with all the bits the buffer is empty. -/
theorem fenceAround_drained : ((fenceAround 0x0ff0000f).foldl FenceRun.step fenceStart).base.st.sb.entries = [] ∧
    fenceStart.Always (fun s ev => s.Ordered (· == 1) ∧ s.Drained ev) (fenceAround 0x0ff0000f) := by
  refine ⟨by decide, FenceRun.runs_ordered _ 4 (· == 1) _ (fenceAround_legal _) ?_⟩
  refine ⟨?_, ?_, ?_, ?_, ?_, trivial⟩
  all_goals exact FenceRun.guarded_of_uniform (by decide)

/-- A store to the UART and `fence o,o`. -/
def deviceFence : O3Pipeline Bench :=
  .init O3Pipeline.smallO3 (Cpu.new O3Pipeline.smallO3
    -- addi x5,x0,7; lui x6,0x10000; sw x5,0(x6); fence o,o; jal x0,0
    (O3Pipeline.memOfWords 0x80000000 [0x00700293, 0x10000337, 0x00532023, 0x0440000f, 0x0000006f])
    { btb := [(0x80000010, 0x80000010)] })

/-- With `o` alone the store is still in the buffer, in a sequence of events; in the pipeline the FENCE has
completed before the store has its address. -/
theorem deviceFence_unordered :
    (fenceStart.Always FenceRun.Legal (fenceAround 0x0440000f) ∧
      ¬fenceStart.Always (fun s ev => s.Ordered (· == 1) ∧ s.Drained ev) (fenceAround 0x0440000f)) ∧
    O3Pipeline.Reach O3Pipeline.smallO3 (deviceFence.ticks 7) ∧
      ((O3.toCommit (deviceFence.ticks 7).core).rob.entries.map fun e => (e.tag, e.state)) =
        [(3, .issued), (4, .completed), (5, .issued), (6, .issued)] ∧
      ((O3.toCommit (deviceFence.ticks 7).core).sb.entries.map fun e => (e.robTag, e.resolution)) = [(3, .pending)] ∧
      (O3.toCommit (deviceFence.ticks 10).core).sb.findPaddr 3 = some 0x10000000 := by
  have hrun : O3Pipeline.Run O3Pipeline.smallO3 (fun _ _ => True) (deviceFence.ticks 7) :=
    O3Pipeline.Run.ticks 7 (.init _ (O3Pipeline.loaded_new _ _ _)) (by decide)
  refine ⟨⟨fenceAround_legal _, fun h => ?_⟩, hrun.reach, by decide +kernel, by decide +kernel, by decide +kernel⟩
  have hrob :
      (((fenceAround 0x0440000f).take 4).foldl FenceRun.step fenceStart).rob = [(2, fenceEntry 0x0440000f)] := by
    decide
  have hdrained := h.2.2.2.2.1.2 2 (fenceEntry 0x0440000f) [] hrob rfl (Or.inr (by decide))
  have hleft : ¬∀ x ∈ ((fenceAround 0x0440000f).foldl FenceRun.step fenceStart).base.st.sb.entries,
      RobTag.isOlderThan 2 x.robTag = true := by decide
  exact hleft hdrained

end Rvsim
