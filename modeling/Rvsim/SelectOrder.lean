/-
# The order of select

`IssueQueue::select` sorts what is ready by the raw tag and takes from the front
what the width and the ports allow. The raw tag is not age: across the wrap of the
counter the youngest instructions have the smallest tags. So select is oldest first
just when no wrap lies between two ready entries that have a port at all.

Key definitions:
  - `CountedQueue`, `IssueQueue.takeReady`, `CountedQueue.select`
  - `CountedQueue.OldestFirst`, `IssueQueue.RawOrdered`
Key theorems:
  - `CountedQueue.select_queue`, `CountedQueue.select_counted`
  - `CountedQueue.select_right`, `CountedQueue.select_wrapped`
-/
import Rvsim.O3View
import Rvsim.Rename

namespace Rvsim

/-- The entry as it is returned, with the values of its operands. -/
def IssueQueueEntry.selected (e : IssueQueueEntry) (prf : PhysRegFile) : SelectedEntry := ⟨e.issued prf, e.memDep⟩

namespace IssueQueue

/-! ### Picking -/

section Pick

variable {w l s : Nat} {es pre post : List (Nat × IssueQueueEntry)} {x : Nat × IssueQueueEntry}

def loads (es : List (Nat × IssueQueueEntry)) : Nat := es.countP fun x => x.2.entry.ctrl.memRead

def stores (es : List (Nat × IssueQueueEntry)) : Nat := es.countP fun x => x.2.entry.ctrl.memWrite

/-- There is a port for an instruction of its kind. -/
def admits (loadPorts storePorts : Nat) (c : ControlSignals) : Bool :=
  !((c.memRead && loadPorts == 0) || (c.memWrite && storePorts == 0))

theorem pick_zero (l s : Nat) (es : List (Nat × IssueQueueEntry)) : pick 0 l s es = [] := by
  cases es <;> rfl

theorem pick_skip (h : admits l s x.2.entry.ctrl = false) : pick w l s (x :: es) = pick w l s es := by
  cases w with
  | zero => rw [pick_zero, pick_zero]
  | succ w =>
    unfold admits at h
    rw [Bool.not_eq_false'] at h
    exact if_pos h

theorem pick_take (h : admits l s x.2.entry.ctrl = true) : pick (w + 1) l s (x :: es) =
    x :: pick w (if x.2.entry.ctrl.memRead then l - 1 else l) (if x.2.entry.ctrl.memWrite then s - 1 else s) es := by
  unfold admits at h
  rw [Bool.not_eq_true'] at h
  exact if_neg (Bool.eq_false_iff.mp h)

theorem loads_cons (x : Nat × IssueQueueEntry) (es : List (Nat × IssueQueueEntry)) :
    loads (x :: es) = loads es + if x.2.entry.ctrl.memRead then 1 else 0 := List.countP_cons

theorem stores_cons (x : Nat × IssueQueueEntry) (es : List (Nat × IssueQueueEntry)) :
    stores (x :: es) = stores es + if x.2.entry.ctrl.memWrite then 1 else 0 := List.countP_cons

theorem sub_port (b : Bool) (ports used : Nat) :
    (if b then ports - 1 else ports) - used = ports - (used + if b then 1 else 0) := by
  cases b with
  | true => exact (Nat.sub_sub _ _ _).trans (congrArg (ports - ·) (Nat.add_comm _ _))
  | false => rfl

/-- Behind a part of the list picking goes on with what that part has left. -/
theorem pick_append (w l s : Nat) (es fs : List (Nat × IssueQueueEntry)) : pick w l s (es ++ fs) =
    pick w l s es ++ pick (w - (pick w l s es).length) (l - loads (pick w l s es)) (s - stores (pick w l s es)) fs := by
  induction es generalizing w l s with
  | nil => cases w <;> rfl
  | cons x es ih =>
    cases w with
    | zero => rw [pick_zero, pick_zero, Nat.zero_sub, pick_zero, List.append_nil]
    | succ w =>
      cases h : admits l s x.2.entry.ctrl with
      | false =>
        rw [List.cons_append, pick_skip h, pick_skip h]
        exact ih _ _ _
      | true =>
        rw [List.cons_append, pick_take h, pick_take h, ih, List.length_cons, loads_cons, stores_cons, List.cons_append,
          Nat.add_sub_add_right, sub_port, sub_port]

/-- What is picked stays within the width and the ports. -/
theorem pick_bounds (w l s : Nat) (es : List (Nat × IssueQueueEntry)) :
    (pick w l s es).length ≤ w ∧ loads (pick w l s es) ≤ l ∧ stores (pick w l s es) ≤ s := by
  induction es generalizing w l s with
  | nil => cases w <;> exact ⟨Nat.zero_le _, Nat.zero_le _, Nat.zero_le _⟩
  | cons x es ih =>
    cases w with
    | zero =>
      rw [pick_zero]
      exact ⟨Nat.zero_le _, Nat.zero_le _, Nat.zero_le _⟩
    | succ w =>
      cases h : admits l s x.2.entry.ctrl with
      | false =>
        rw [pick_skip h]
        exact ih _ _ _
      | true =>
        obtain ⟨h₁, h₂, h₃⟩ := ih w (if x.2.entry.ctrl.memRead then l - 1 else l)
            (if x.2.entry.ctrl.memWrite then s - 1 else s)
        rw [pick_take h, List.length_cons, loads_cons, stores_cons]
        unfold admits at h
        refine ⟨Nat.succ_le_succ h₁, ?_, ?_⟩
        · cases hr : x.2.entry.ctrl.memRead with
          | false => simpa [hr] using h₂
          | true =>
            simp only [hr, if_true, Bool.true_and, Bool.not_or, Bool.and_eq_true, Bool.not_eq_true',
                beq_eq_false_iff_ne] at h h₂ ⊢
            omega
        · cases hw : x.2.entry.ctrl.memWrite with
          | false => simpa [hw] using h₃
          | true =>
            simp only [hw, if_true, Bool.true_and, Bool.not_or, Bool.and_eq_true, Bool.not_eq_true',
                beq_eq_false_iff_ne] at h h₃ ⊢
            omega

/-- What has no port is not picked. -/
theorem pick_admits (h : x ∈ pick w l s es) : admits l s x.2.entry.ctrl = true := by
  cases hx : admits l s x.2.entry.ctrl with
  | true => rfl
  | false =>
    obtain ⟨-, hl, hs⟩ := pick_bounds w l s es
    unfold admits at hx
    rw [Bool.not_eq_false', Bool.or_eq_true, Bool.and_eq_true, Bool.and_eq_true, beq_iff_eq, beq_iff_eq] at hx
    rcases hx with ⟨hr, rfl⟩ | ⟨hw, rfl⟩
    · have hpos : 0 < loads (pick w 0 s es) := List.countP_pos_iff.mpr ⟨x, h, hr⟩
      omega
    · have hpos : 0 < stores (pick w l 0 es) := List.countP_pos_iff.mpr ⟨x, h, hw⟩
      omega

/-- An entry that is not picked: the width, or the ports of its kind, are used up in front of it. -/
theorem pick_passed (h : x ∉ pick w l s (pre ++ x :: post)) :
    w ≤ (pick w l s pre).length ∧ pick w l s (pre ++ x :: post) = pick w l s pre ∨
    (x.2.entry.ctrl.memRead = true ∧ l ≤ loads (pick w l s pre)) ∨
        (x.2.entry.ctrl.memWrite = true ∧ s ≤ stores (pick w l s pre)) := by
  rw [pick_append] at h ⊢
  rcases hw : w - (pick w l s pre).length with _ | n
  · rw [pick_zero, List.append_nil]
    exact Or.inl ⟨by omega, rfl⟩
  · rw [hw] at h
    cases hx : admits (l - loads (pick w l s pre)) (s - stores (pick w l s pre)) x.2.entry.ctrl with
    | true =>
      rw [pick_take hx] at h
      exact absurd (List.mem_append_right _ List.mem_cons_self) h
    | false =>
      unfold admits at hx
      rw [Bool.not_eq_false', Bool.or_eq_true, Bool.and_eq_true, Bool.and_eq_true, beq_iff_eq, beq_iff_eq] at hx
      refine Or.inr (hx.imp ?_ ?_)
      · exact fun ⟨hr, hl⟩ => ⟨hr, by omega⟩
      · exact fun ⟨hr, hl⟩ => ⟨hr, by omega⟩

/-- The first entry that has a port is picked first. -/
theorem pick_first (hpre : ∀ y ∈ pre, admits l s y.2.entry.ctrl = false) (hx : admits l s x.2.entry.ctrl = true) :
    ∃ rest, pick (w + 1) l s (pre ++ x :: post) = x :: rest := by
  induction pre with
  | nil => exact ⟨_, pick_take hx⟩
  | cons y pre ih =>
    rw [List.cons_append, pick_skip (hpre y List.mem_cons_self)]
    exact ih fun z hz => hpre z (List.mem_cons_of_mem _ hz)

end Pick

/-! ### The loop over the slots -/

/-- What the loop of `select` changes. -/
structure Selecting where
  slots : List (Option IssueQueueEntry)
  count : Nat
  loadsIssued : Nat
  storesIssued : Nat
  result : List SelectedEntry

/-- Take an entry out of its slot. -/
def Selecting.issue (st : Selecting) (idx : Nat) (iq : IssueQueueEntry) (prf : PhysRegFile) : Selecting where
  slots := st.slots.set idx none
  count := st.count - 1
  loadsIssued := if iq.entry.ctrl.memRead then st.loadsIssued + 1 else st.loadsIssued
  storesIssued := if iq.entry.ctrl.memWrite then st.storesIssued + 1 else st.storesIssued
  result := st.result ++ [iq.selected prf]

/-- The loop over the sorted indices. -/
def takeReady (width loadPorts storePorts : Nat) (prf : PhysRegFile) : Selecting → List Nat → Selecting
  | st, [] => st
  | st, idx :: rest =>
    if st.result.length ≥ width then st
    else
      match st.slots[idx]? with
      | some (some iq) =>
        if iq.entry.ctrl.memRead && decide (st.loadsIssued ≥ loadPorts) then
            takeReady width loadPorts storePorts prf st rest
        else if iq.entry.ctrl.memWrite && decide (st.storesIssued ≥ storePorts) then
          takeReady width loadPorts storePorts prf st rest
        else takeReady width loadPorts storePorts prf (st.issue idx iq prf) rest
      | _ => takeReady width loadPorts storePorts prf st rest

/-- The state once these entries are taken. -/
def Selecting.issueAll (st : Selecting) (prf : PhysRegFile) (es : List (Nat × IssueQueueEntry)) : Selecting :=
  es.foldl (fun st x => st.issue x.1 x.2 prf) st

/-- **The loop takes what is picked.** -/
theorem takeReady_eq (width lp sp : Nat) (prf : PhysRegFile) (es : List (Nat × IssueQueueEntry))
    (hnd : (es.map (·.1)).Nodup)
    (st : Selecting) (hslots : ∀ x ∈ es, st.slots[x.1]? = some (some x.2)) :
    takeReady width lp sp prf st (es.map (·.1)) =
      st.issueAll prf (pick (width - st.result.length) (lp - st.loadsIssued) (sp - st.storesIssued) es) := by
  induction es generalizing st with
  | nil => cases width - st.result.length <;> rfl
  | cons x es ih =>
    obtain ⟨hx, hnd⟩ := List.nodup_cons.mp hnd
    have hrest : ∀ y ∈ es, st.slots[y.1]? = some (some y.2) := fun y hy => hslots y (List.mem_cons_of_mem _ hy)
    rw [List.map_cons, takeReady]
    by_cases hw : st.result.length ≥ width
    · rw [if_pos hw, Nat.sub_eq_zero_of_le hw, pick_zero]
      rfl
    · obtain ⟨n, hn⟩ : ∃ n, width - st.result.length = n + 1 := ⟨width - st.result.length - 1, by omega⟩
      rw [if_neg hw, hslots x List.mem_cons_self]
      dsimp only
      cases ha : admits (lp - st.loadsIssued) (sp - st.storesIssued) x.2.entry.ctrl with
      | false =>
        rw [pick_skip ha, ← ih hnd st hrest]
        unfold admits at ha
        rw [Bool.not_eq_false', Bool.or_eq_true, Bool.and_eq_true, Bool.and_eq_true, beq_iff_eq, beq_iff_eq] at ha
        rcases ha with ⟨hr, hl⟩ | ⟨hr, hl⟩
        · rw [if_pos (by rw [hr, Bool.true_and]; exact decide_eq_true (by omega))]
        · by_cases hload : (x.2.entry.ctrl.memRead && decide (st.loadsIssued ≥ lp)) = true
          · rw [if_pos hload]
          · rw [if_neg hload, if_pos (by rw [hr, Bool.true_and]; exact decide_eq_true (by omega))]
      | true =>
        have hports := ha
        unfold admits at hports
        rw [Bool.not_eq_true', Bool.or_eq_false_iff, Bool.and_eq_false_iff, Bool.and_eq_false_iff, beq_eq_false_iff_ne,
          beq_eq_false_iff_ne] at hports
        have hload : ¬(x.2.entry.ctrl.memRead && decide (st.loadsIssued ≥ lp)) = true := by
          rw [Bool.and_eq_true, decide_eq_true_eq]
          rintro ⟨hr, hge⟩
          rcases hports.1 with h | h
          · rw [hr] at h
            cases h
          · omega
        have hstore : ¬(x.2.entry.ctrl.memWrite && decide (st.storesIssued ≥ sp)) = true := by
          rw [Bool.and_eq_true, decide_eq_true_eq]
          rintro ⟨hr, hge⟩
          rcases hports.2 with h | h
          · rw [hr] at h
            cases h
          · omega
        have hlater : ∀ y ∈ es, (st.issue x.1 x.2 prf).slots[y.1]? = some (some y.2) := by
          intro y hy
          have hne : x.1 ≠ y.1 := fun heq => hx (List.mem_map.mpr ⟨y, hy, heq.symm⟩)
          exact (List.getElem?_set_ne hne).trans (hrest y hy)
        have hlen : width - (st.issue x.1 x.2 prf).result.length = n := by
          show width - (st.result ++ [_]).length = n
          rw [List.length_append, List.length_singleton]
          omega
        have hloads : lp - (st.issue x.1 x.2 prf).loadsIssued =
            if x.2.entry.ctrl.memRead then lp - st.loadsIssued - 1 else lp - st.loadsIssued := by
          show lp - (if x.2.entry.ctrl.memRead then st.loadsIssued + 1 else st.loadsIssued) = _
          cases x.2.entry.ctrl.memRead <;> rfl
        have hstores : sp - (st.issue x.1 x.2 prf).storesIssued =
            if x.2.entry.ctrl.memWrite then sp - st.storesIssued - 1 else sp - st.storesIssued := by
          show sp - (if x.2.entry.ctrl.memWrite then st.storesIssued + 1 else st.storesIssued) = _
          cases x.2.entry.ctrl.memWrite <;> rfl
        rw [if_neg hload, if_neg hstore, ih hnd _ hlater, hlen, hloads, hstores, hn, pick_take ha]
        rfl

theorem issueAll_result (st : Selecting) (prf : PhysRegFile) (es : List (Nat × IssueQueueEntry)) :
    (st.issueAll prf es).result = st.result ++ es.map (·.2.selected prf) := by
  induction es generalizing st with
  | nil => exact (List.append_nil _).symm
  | cons x es ih =>
    refine (ih (st.issue x.1 x.2 prf)).trans ?_
    show (st.result ++ [_]) ++ _ = _
    rw [List.append_assoc]
    rfl

/-- The slots of what is taken are empty, the others as they were. -/
theorem issueAll_slots (st : Selecting) (prf : PhysRegFile) (es : List (Nat × IssueQueueEntry)) (i : Nat) :
    (st.issueAll prf es).slots[i]? = if i ∈ es.map (·.1) then st.slots[i]?.map fun _ => none else st.slots[i]? := by
  induction es generalizing st with
  | nil => rfl
  | cons x es ih =>
    refine (ih (st.issue x.1 x.2 prf)).trans ?_
    have hset : (st.issue x.1 x.2 prf).slots[i]? = if x.1 = i then st.slots[i]?.map fun _ => none else
        st.slots[i]? := by
      show (st.slots.set x.1 none)[i]? = _
      rw [List.getElem?_set]
      by_cases hi : x.1 = i
      · subst hi
        by_cases hlt : x.1 < st.slots.length
        · simp [hlt]
        · simp [hlt]
      · rw [if_neg hi, if_neg hi]
    rw [hset, List.map_cons]
    by_cases hi : x.1 = i
    · subst hi
      rw [if_pos rfl, if_pos List.mem_cons_self, Option.map_map]
      exact ite_self _
    · rw [if_neg hi]
      by_cases hmem : i ∈ es.map (·.1)
      · rw [if_pos hmem, if_pos (List.mem_cons_of_mem _ hmem)]
      · rw [if_neg hmem, if_neg (by rw [List.mem_cons, not_or]; exact ⟨Ne.symm hi, hmem⟩)]

/-- Each entry taken is one slot less that is filled, and one less in the count. -/
theorem issueAll_count (st : Selecting) (prf : PhysRegFile) (es : List (Nat × IssueQueueEntry))
    (hnd : (es.map (·.1)).Nodup)
    (hslots : ∀ x ∈ es, st.slots[x.1]? = some (some x.2)) (h : st.count = st.slots.countP Option.isSome) :
    (st.issueAll prf es).count = (st.issueAll prf es).slots.countP Option.isSome := by
  induction es generalizing st with
  | nil => exact h
  | cons x es ih =>
    obtain ⟨hx, hnd⟩ := List.nodup_cons.mp hnd
    obtain ⟨hlt, hget⟩ := List.getElem?_eq_some_iff.mp (hslots x List.mem_cons_self)
    refine ih (st.issue x.1 x.2 prf) hnd (fun y hy => ?_) ?_
    · have hne : x.1 ≠ y.1 := fun heq => hx (List.mem_map.mpr ⟨y, hy, heq.symm⟩)
      exact (List.getElem?_set_ne hne).trans (hslots y (List.mem_cons_of_mem _ hy))
    · show st.count - 1 = (st.slots.set x.1 none).countP Option.isSome
      rw [List.countP_set hlt, hget, h]
      rfl

theorem mem_indexed {q : IssueQueue} {x : Nat × IssueQueueEntry} : x ∈ q.indexed ↔ q.slots[x.1]? = some (some x.2) := by
  unfold indexed
  rw [List.mem_filterMap]
  constructor
  · rintro ⟨⟨s, i⟩, hmem, hs⟩
    obtain ⟨e, rfl, rfl⟩ := Option.map_eq_some_iff.mp hs
    exact List.mem_zipIdx_iff_getElem?.mp hmem
  · intro h
    exact ⟨(some x.2, x.1), List.mem_zipIdx_iff_getElem?.mpr h, rfl⟩

/-- The sort only reorders what is ready, by the raw tag. -/
theorem mem_sorted {q : IssueQueue} {sb : StoreBuffer} {rob : Rob} {prf : PhysRegFile} {x : Nat × IssueQueueEntry} :
    x ∈ sortByRawTag (q.readyIndices sb rob prf) ↔ x ∈ q.indexed ∧ x.2.selectable sb rob prf = true := by
  unfold sortByRawTag
  rw [List.mem_insertionSort, readyIndices_eq, List.mem_filter]

theorem sorted_raw (es : List (Nat × IssueQueueEntry)) :
    (sortByRawTag es).Pairwise fun a b => a.2.entry.robTag.toNat ≤ b.2.entry.robTag.toNat :=
  List.pairwise_insertionSort _ _

theorem sorted_nodup (q : IssueQueue) (sb : StoreBuffer) (rob : Rob) (prf : PhysRegFile) :
    ((sortByRawTag (q.readyIndices sb rob prf)).map (·.1)).Nodup := by
  have hperm := (List.perm_insertionSort
      (fun a b : Nat × IssueQueueEntry => a.2.entry.robTag.toNat ≤ b.2.entry.robTag.toNat)
    (q.readyIndices sb rob prf)).map (·.1)
  refine hperm.nodup_iff.mpr ?_
  rw [readyIndices_eq]
  exact indexed_nodup.sublist (List.filter_sublist.map _)

/-- The live tags lie within half the tag space. -/
def Spans (q : IssueQueue) : Prop := ∃ now, ∀ e ∈ q.entries, Serial.age now e.entry.robTag < Serial.half 32

/-- Ready, and of a kind that has a port. -/
def Eligible (sb : StoreBuffer) (rob : Rob) (loadPorts storePorts : Nat) (prf : PhysRegFile)
    (e : IssueQueueEntry) : Prop :=
  e.selectable sb rob prf = true ∧ admits loadPorts storePorts e.entry.ctrl = true

/-- Among what is ready and has a port, the raw tags grow with program order: the
counter does not wrap between two of them. -/
def RawOrdered (q : IssueQueue) (sb : StoreBuffer) (rob : Rob) (loadPorts storePorts : Nat)
    (prf : PhysRegFile) : Prop :=
  ∀ a ∈ q.entries, ∀ b ∈ q.entries, Eligible sb rob loadPorts storePorts prf a →
      Eligible sb rob loadPorts storePorts prf b →
    RobTag.isOlderThan a.entry.robTag b.entry.robTag = true → a.entry.robTag.toNat < b.entry.robTag.toNat

/-! ### Raw order and program order -/

section

variable {q : IssueQueue} {width lp sp : Nat} {sb : StoreBuffer} {rob : Rob} {prf : PhysRegFile}
    {x y : Nat × IssueQueueEntry}

theorem admits_false {c : ControlSignals} (h : admits lp sp c = false) :
    (c.memRead = true ∧ lp = 0) ∨ (c.memWrite = true ∧ sp = 0) := by
  unfold admits at h
  rw [Bool.not_eq_false', Bool.or_eq_true, Bool.and_eq_true, Bool.and_eq_true, beq_iff_eq, beq_iff_eq] at h
  exact h

/-- The ports of its kind are taken by entries that are not younger. -/
def PortsTaken (P : List (Nat × IssueQueueEntry)) (lp sp : Nat) (e : RenameIssueEntry) : Prop :=
  (e.ctrl.memRead = true ∧ lp ≤ P.countP fun x =>
      x.2.entry.ctrl.memRead && !RobTag.isOlderThan e.robTag x.2.entry.robTag) ∨
    (e.ctrl.memWrite = true ∧ sp ≤ P.countP fun x =>
        x.2.entry.ctrl.memWrite && !RobTag.isOlderThan e.robTag x.2.entry.robTag)

theorem mem_entries (h : x ∈ q.indexed) : x.2 ∈ q.entries := by
  rw [← indexed_map_snd]
  exact List.mem_map_of_mem h

theorem picked_eligible (h : x ∈ q.picked width sb rob lp sp prf) :
    x.2 ∈ q.entries ∧ Eligible sb rob lp sp prf x.2 := by
  obtain ⟨hmem, hsel⟩ := mem_sorted.mp ((pick_sublist _ _ _ _).subset h)
  exact ⟨mem_entries hmem, hsel, pick_admits h⟩

/-- With raw order for program order, what is picked is in program order. -/
theorem picked_ordered (h : q.RawOrdered sb rob lp sp prf) :
    (q.picked width sb rob lp sp prf).Pairwise fun a b =>
        RobTag.isOlderThan b.2.entry.robTag a.2.entry.robTag = false := by
  refine ((sorted_raw _).sublist (pick_sublist _ _ _ _)).imp_of_mem fun {a b} ha hb hab => ?_
  obtain ⟨ha, hea⟩ := picked_eligible ha
  obtain ⟨hb, heb⟩ := picked_eligible hb
  by_contra hold
  have hlt := h _ hb _ ha heb hea (Bool.not_eq_false _ ▸ hold)
  omega

/-- With raw order for program order, what is passed over for a younger entry has no port left. -/
theorem picked_unskipped (h : q.RawOrdered sb rob lp sp prf) (hx : x ∈ q.indexed)
    (hsel : x.2.selectable sb rob prf = true)
    (hnot : x ∉ q.picked width sb rob lp sp prf) (hy : y ∈ q.picked width sb rob lp sp prf)
    (hold : RobTag.isOlderThan x.2.entry.robTag y.2.entry.robTag = true) :
    PortsTaken (q.picked width sb rob lp sp prf) lp sp x.2.entry := by
  cases hadm : admits lp sp x.2.entry.ctrl with
  | false =>
    refine (admits_false hadm).imp ?_ ?_
    · exact fun ⟨hr, hz⟩ => ⟨hr, hz ▸ Nat.zero_le _⟩
    · exact fun ⟨hw, hz⟩ => ⟨hw, hz ▸ Nat.zero_le _⟩
  | true =>
    have hex : Eligible sb rob lp sp prf x.2 := ⟨hsel, hadm⟩
    obtain ⟨hyq, hey⟩ := picked_eligible hy
    have hxy := h _ (mem_entries hx) _ hyq hex hey hold
    obtain ⟨pre, post, hsplit⟩ := List.append_of_mem (mem_sorted.mpr ⟨hx, hsel⟩)
    have hraw := sorted_raw (q.readyIndices sb rob prf)
    unfold picked at hnot hy ⊢
    rw [hsplit] at hnot hy hraw ⊢
    have hfront : ∀ z ∈ pre, z.2.entry.robTag.toNat ≤ x.2.entry.robTag.toNat := fun z hz =>
      (List.pairwise_append.mp hraw).2.2 z hz x List.mem_cons_self
    -- what is picked in front of `x` is not younger
    have hcount : ∀ kind : ControlSignals → Bool, (pick width lp sp pre).countP (fun z => kind z.2.entry.ctrl) ≤
        (pick width lp sp (pre ++ x :: post)).countP
          fun z => kind z.2.entry.ctrl && !RobTag.isOlderThan x.2.entry.robTag z.2.entry.robTag := by
      intro kind
      rw [pick_append, List.countP_append]
      refine le_trans (le_of_eq (List.countP_congr fun z hz => ?_)) (Nat.le_add_right _ _)
      have hzp : z ∈ q.picked width sb rob lp sp prf := by
        unfold picked
        rw [hsplit, pick_append]
        exact List.mem_append_left _ hz
      obtain ⟨hzq, hez⟩ := picked_eligible hzp
      have hyoung : RobTag.isOlderThan x.2.entry.robTag z.2.entry.robTag = false := by
        by_contra hxz
        have hlt := h _ (mem_entries hx) _ hzq hex hez (Bool.not_eq_false _ ▸ hxz)
        have hle := hfront z ((pick_sublist _ _ _ _).subset hz)
        omega
      rw [hyoung, Bool.not_false, Bool.and_true]
    rcases pick_passed hnot with ⟨-, heq⟩ | ⟨hr, hl⟩ | ⟨hw, hs⟩
    · rw [heq] at hy
      have hle := hfront y ((pick_sublist _ _ _ _).subset hy)
      omega
    · exact Or.inl ⟨hr, hl.trans (hcount (·.memRead))⟩
    · exact Or.inr ⟨hw, hs.trans (hcount (·.memWrite))⟩

/-- In program order, and with no entry passed over but for its port, raw order was program order. -/
theorem rawOrdered_of_picked (hspan : q.Spans) (hw : 0 < width)
    (hord : (q.picked width sb rob lp sp prf).Pairwise fun a b =>
        RobTag.isOlderThan b.2.entry.robTag a.2.entry.robTag = false)
    (hskip : ∀ x ∈ q.indexed, x.2.selectable sb rob prf = true → x ∉ q.picked width sb rob lp sp prf →
      ∀ y ∈ q.picked width sb rob lp sp prf, RobTag.isOlderThan x.2.entry.robTag y.2.entry.robTag = true →
        PortsTaken (q.picked width sb rob lp sp prf) lp sp x.2.entry) : q.RawOrdered sb rob lp sp prf := by
  obtain ⟨now, hage⟩ := hspan
  have hiff : ∀ {a b : IssueQueueEntry}, a ∈ q.entries → b ∈ q.entries →
      (RobTag.isOlderThan a.entry.robTag b.entry.robTag = true ↔
          Serial.age now b.entry.robTag < Serial.age now a.entry.robTag) :=
    fun ha hb => Serial.sub_msb_iff (by decide) (hage _ ha) (hage _ hb)
  intro a ha b hb hea heb hab
  by_contra hge
  have hab' := (hiff ha hb).mp hab
  have hraw : b.entry.robTag.toNat < a.entry.robTag.toNat := by
    have hne : a.entry.robTag.toNat ≠ b.entry.robTag.toNat := by
      intro heq
      rw [BitVec.eq_of_toNat_eq heq] at hab'
      exact absurd hab' (lt_irrefl _)
    omega
  obtain ⟨xa, hxa, rfl⟩ := List.mem_map.mp (indexed_map_snd ▸ ha)
  obtain ⟨xb, hxb, rfl⟩ := List.mem_map.mp (indexed_map_snd ▸ hb)
  -- the first entry with a port: it is at most `b`, so that `a` is older
  obtain ⟨y, hy⟩ : ∃ y, (IssueQueue.sortByRawTag (q.readyIndices sb rob prf)).find?
      (fun z => admits lp sp z.2.entry.ctrl) = some y := by
    rw [← Option.isSome_iff_exists, List.find?_isSome]
    exact ⟨xb, mem_sorted.mpr ⟨hxb, heb.1⟩, heb.2⟩
  obtain ⟨hyadm, pre, post, hsplit, hpre⟩ := List.find?_eq_some_iff_append.mp hy
  have hpre' : ∀ z ∈ pre, admits lp sp z.2.entry.ctrl = false := fun z hz => by simpa using hpre z hz
  obtain ⟨n, rfl⟩ : ∃ n, width = n + 1 := ⟨width - 1, by omega⟩
  obtain ⟨rest, hpick⟩ : ∃ rest, pick (n + 1) lp sp (pre ++ y :: post) = y :: rest := pick_first hpre' hyadm
  have hpicked : q.picked (n + 1) sb rob lp sp prf = y :: rest := by
    unfold picked
    rw [hsplit]
    exact hpick
  have hyb : y.2.entry.robTag.toNat ≤ xb.2.entry.robTag.toNat := by
    have hmem : xb ∈ pre ++ y :: post := hsplit ▸ mem_sorted.mpr ⟨hxb, heb.1⟩
    have hsorted := sorted_raw (q.readyIndices sb rob prf)
    rw [hsplit] at hsorted
    rcases List.mem_append.mp hmem with hmem | hmem
    · exact absurd (hpre' xb hmem) (by rw [heb.2]; decide)
    · rcases List.mem_cons.mp hmem with rfl | hmem
      · exact le_rfl
      · exact (List.pairwise_cons.mp (List.pairwise_append.mp hsorted).2.1).1 xb hmem
  have hay := Serial.age_of_wrap hab' hraw hyb
  rw [hpicked] at hord hskip
  have hhead := (List.pairwise_cons.mp hord).1
  have hmemq : ∀ z ∈ y :: rest, z.2 ∈ q.entries := fun z hz => (picked_eligible (hpicked ▸ hz)).1
  -- so nothing that is picked is older than `a`
  have hyounger : ∀ z ∈ y :: rest, RobTag.isOlderThan xa.2.entry.robTag z.2.entry.robTag = true := by
    intro z hz
    refine (hiff ha (hmemq z hz)).mpr ?_
    rcases List.mem_cons.mp hz with rfl | hrest
    · exact hay
    · have hle := hhead z hrest
      rw [Bool.eq_false_iff, ne_eq, hiff (hmemq z hz) (hmemq y List.mem_cons_self)] at hle
      omega
  by_cases hin : xa ∈ y :: rest
  · have hself := (hiff ha ha).mp (hyounger xa hin)
    omega
  · have hnone : ∀ kind : ControlSignals → Bool, (y :: rest).countP (fun z => kind z.2.entry.ctrl &&
        !RobTag.isOlderThan xa.2.entry.robTag z.2.entry.robTag) = 0 := by
      intro kind
      rw [List.countP_eq_zero]
      intro z hz
      rw [hyounger z hz, Bool.not_true, Bool.and_false]
      exact Bool.false_ne_true
    have hadm := hea.2
    unfold admits at hadm
    rw [Bool.not_eq_true', Bool.or_eq_false_iff] at hadm
    rcases hskip xa hxa hea.1 hin y List.mem_cons_self (hyounger y List.mem_cons_self) with ⟨hr, hl⟩ | ⟨hr, hl⟩
    · rw [hnone (·.memRead), Nat.le_zero] at hl
      rw [hr, hl] at hadm
      exact absurd hadm.1 (by decide)
    · rw [hnone (·.memWrite), Nat.le_zero] at hl
      rw [hr, hl] at hadm
      exact absurd hadm.2 (by decide)

end

end IssueQueue

/-- The queue as the source keeps it, with the count of its filled slots. -/
structure CountedQueue where
  queue : IssueQueue
  count : Nat

namespace CountedQueue

open IssueQueue

section

variable (q : CountedQueue) (width : Nat) (sb : StoreBuffer) (rob : Rob) (loadPorts storePorts : Nat)
    (prf : PhysRegFile)

def select : List SelectedEntry × CountedQueue :=
  let ready := (IssueQueue.sortByRawTag (q.queue.readyIndices sb rob prf)).map (·.1)
  let st := takeReady width loadPorts storePorts prf ⟨q.queue.slots, q.count, 0, 0, []⟩ ready
  (st.result, ⟨⟨st.slots⟩, st.count⟩)

/-- What select promises: program order, no ready entry passed over for a younger one
but for want of a port, the width and the ports kept, exactly the returned entries
removed, and the count right. -/
structure OldestFirst (r : List SelectedEntry × CountedQueue) : Prop where
  ordered : r.1.Pairwise fun a b => RobTag.isOlderThan b.entry.robTag a.entry.robTag = false
  unskipped : ∀ e ∈ r.2.queue.entries, e.selectable sb rob prf = true →
    ∀ y ∈ r.1, RobTag.isOlderThan e.entry.robTag y.entry.robTag = true →
      (e.entry.ctrl.memRead = true ∧ loadPorts ≤ r.1.countP fun x =>
        x.entry.ctrl.memRead && !RobTag.isOlderThan e.entry.robTag x.entry.robTag) ∨
      (e.entry.ctrl.memWrite = true ∧ storePorts ≤ r.1.countP fun x =>
        x.entry.ctrl.memWrite && !RobTag.isOlderThan e.entry.robTag x.entry.robTag)
  bounded : r.1.length ≤ width ∧ r.1.countP (·.entry.ctrl.memRead) ≤ loadPorts ∧
      r.1.countP (·.entry.ctrl.memWrite) ≤ storePorts
  removed : (r.1 ++ r.2.queue.entries.map (·.selected prf)).Perm (q.queue.entries.map (·.selected prf))
  emptied : ∀ i : Nat, r.2.queue.slots[i]? = q.queue.slots[i]? ∨
    ∃ e : IssueQueueEntry, q.queue.slots[i]? = some (some e) ∧ e.selectable sb rob prf = true ∧
        r.2.queue.slots[i]? = some none
  counted : r.2.count = r.2.queue.slots.countP Option.isSome

variable {q width sb rob loadPorts storePorts prf}

/-- The loop over the slots is the select of the queue without its count. -/
theorem select_eq : (q.select width sb rob loadPorts storePorts prf).1 =
      (q.queue.picked width sb rob loadPorts storePorts prf).map (·.2.selected prf) ∧
    (q.select width sb rob loadPorts storePorts prf).2.queue =
      q.queue.clear ((q.queue.picked width sb rob loadPorts storePorts prf).map (·.1)) ∧
    (q.count = q.queue.slots.countP Option.isSome → (q.select width sb rob loadPorts storePorts prf).2.count =
      (q.select width sb rob loadPorts storePorts prf).2.queue.slots.countP Option.isSome) := by
  have hslots : ∀ x ∈ IssueQueue.sortByRawTag (q.queue.readyIndices sb rob prf),
      q.queue.slots[x.1]? = some (some x.2) :=
    fun x hx => mem_indexed.mp (mem_sorted.mp hx).1
  have hnd := sorted_nodup q.queue sb rob prf
  have hloop := takeReady_eq width loadPorts storePorts prf _ hnd ⟨q.queue.slots, q.count, 0, 0, []⟩ hslots
  have hsub := pick_sublist width loadPorts storePorts (IssueQueue.sortByRawTag (q.queue.readyIndices sb rob prf))
  unfold select
  dsimp only at hloop ⊢
  rw [hloop]
  refine ⟨issueAll_result _ _ _, ?_, fun h => ?_⟩
  · refine congrArg IssueQueue.mk (List.ext_getElem? fun i => ?_)
    rw [issueAll_slots, List.getElem?_map, List.getElem?_zipIdx]
    show (if i ∈ (q.queue.picked width sb rob loadPorts storePorts prf).map (·.1) then _ else _) = _
    cases q.queue.slots[i]? with
    | none => exact ite_self _
    | some s =>
      simp only [Option.map_some, Nat.zero_add]
      split <;> rfl
  · exact issueAll_count _ _ _ (hnd.sublist (hsub.map _)) (fun x hx => hslots x (hsub.subset hx)) h

theorem select_queue : ((q.select width sb rob loadPorts storePorts prf).1,
    (q.select width sb rob loadPorts storePorts prf).2.queue) =
    q.queue.select width sb rob loadPorts storePorts prf :=
  Prod.ext select_eq.1 select_eq.2.1

/-- The count is kept, whatever is selected. -/
theorem select_counted (h : q.count = q.queue.slots.countP Option.isSome) :
    (q.select width sb rob loadPorts storePorts prf).2.count =
      (q.select width sb rob loadPorts storePorts prf).2.queue.slots.countP Option.isSome := select_eq.2.2 h

theorem selected_tag (e : IssueQueueEntry) : (e.selected prf).entry.robTag = e.entry.robTag := by
  unfold IssueQueueEntry.selected IssueQueueEntry.issued
  dsimp only
  split <;> rfl

theorem selected_ctrl (e : IssueQueueEntry) : (e.selected prf).entry.ctrl = e.entry.ctrl := by
  unfold IssueQueueEntry.selected IssueQueueEntry.issued
  dsimp only
  split <;> rfl

/-- Counting in what is returned is counting in what was picked. -/
theorem countP_selected (p : RobTag → ControlSignals → Bool) (P : List (Nat × IssueQueueEntry)) :
    (P.map (·.2.selected prf)).countP (fun x => p x.entry.robTag x.entry.ctrl) =
      P.countP fun x => p x.2.entry.robTag x.2.entry.ctrl := by
  rw [List.countP_map]
  refine List.countP_congr fun x _ => ?_
  rw [Function.comp_apply, selected_tag, selected_ctrl]

theorem pairwise_selected {P : List (Nat × IssueQueueEntry)} :
    (P.map (·.2.selected prf)).Pairwise (fun a b => RobTag.isOlderThan b.entry.robTag a.entry.robTag = false) ↔
      P.Pairwise fun a b => RobTag.isOlderThan b.2.entry.robTag a.2.entry.robTag = false := by
  rw [List.pairwise_map]
  simp only [selected_tag]

/-- What stays is what was not picked. -/
theorem mem_left {e : IssueQueueEntry} : e ∈ (q.select width sb rob loadPorts storePorts prf).2.queue.entries ↔
    ∃ x ∈ q.queue.indexed, x.2 = e ∧ x ∉ q.queue.picked width sb rob loadPorts storePorts prf := by
  have hsub : ∀ x ∈ q.queue.picked width sb rob loadPorts storePorts prf, x ∈ q.queue.indexed := fun x hx =>
    (mem_sorted.mp ((pick_sublist _ _ _ _).subset hx)).1
  rw [select_eq.2.1, clear_entries, List.mem_map]
  constructor
  · rintro ⟨x, hx, rfl⟩
    obtain ⟨hmem, hkey⟩ := List.mem_filter.mp hx
    exact ⟨x, hmem, rfl, fun hin => (of_decide_eq_true hkey) (List.mem_map_of_mem hin)⟩
  · rintro ⟨x, hmem, rfl, hnot⟩
    refine ⟨x, List.mem_filter.mpr ⟨hmem, decide_eq_true fun hkey => ?_⟩, rfl⟩
    obtain ⟨y, hy, hyx⟩ := List.mem_map.mp hkey
    exact hnot (List.inj_on_of_nodup_map indexed_nodup (hsub y hy) hmem hyx ▸ hy)

theorem select_removed : ((q.select width sb rob loadPorts storePorts prf).1 ++
    (q.select width sb rob loadPorts storePorts prf).2.queue.entries.map (·.selected prf)).Perm
      (q.queue.entries.map (·.selected prf)) := by
  have hS : (q.queue.picked width sb rob loadPorts storePorts prf).Subperm q.queue.indexed := by
    refine (picked_subperm width sb rob loadPorts storePorts prf).trans ?_
    rw [readyIndices_eq]
    exact List.filter_sublist.subperm
  have hp := (clear_perm hS).map (·.selected prf)
  rw [List.map_append, List.map_map] at hp
  rw [select_eq.1, select_eq.2.1]
  exact hp

theorem select_emptied (i : Nat) : (q.select width sb rob loadPorts storePorts prf).2.queue.slots[i]? =
    q.queue.slots[i]? ∨
    ∃ e : IssueQueueEntry, q.queue.slots[i]? = some (some e) ∧ e.selectable sb rob prf = true ∧
      (q.select width sb rob loadPorts storePorts prf).2.queue.slots[i]? = some none := by
  have hclear : ∀ is : List Nat, (q.queue.clear is).slots[i]? =
      if i ∈ is then q.queue.slots[i]?.map fun _ => none else q.queue.slots[i]? := by
    intro is
    unfold clear
    rw [List.getElem?_map, List.getElem?_zipIdx]
    cases q.queue.slots[i]? with
    | none => exact (ite_self _).symm
    | some s =>
      simp only [Option.map_some, Nat.zero_add]
      split <;> rfl
  rw [select_eq.2.1, hclear]
  by_cases hi : i ∈ (q.queue.picked width sb rob loadPorts storePorts prf).map (·.1)
  · obtain ⟨x, hx, rfl⟩ := List.mem_map.mp hi
    obtain ⟨hmem, hsel⟩ := mem_sorted.mp ((pick_sublist _ _ _ _).subset hx)
    have hslot := mem_indexed.mp hmem
    rw [if_pos hi, hslot]
    exact Or.inr ⟨x.2, rfl, hsel, rfl⟩
  · rw [if_neg hi]
    exact Or.inl rfl

/-- **Select is oldest first just when it selects nothing or raw order is program order**
among what is ready and has a port. -/
theorem select_right (hcount : q.count = q.queue.slots.countP Option.isSome) (hspan : q.queue.Spans) :
    OldestFirst q width sb rob loadPorts storePorts prf (q.select width sb rob loadPorts storePorts prf) ↔
      width = 0 ∨ q.queue.RawOrdered sb rob loadPorts storePorts prf := by
  obtain ⟨hlen, hloads, hstores⟩ :=
    pick_bounds width loadPorts storePorts (IssueQueue.sortByRawTag (q.queue.readyIndices sb rob prf))
  have hres : (q.select width sb rob loadPorts storePorts prf).1 = _ := select_eq.1
  have hports : ∀ e : RenameIssueEntry,
      PortsTaken (q.queue.picked width sb rob loadPorts storePorts prf) loadPorts storePorts e ↔
      (e.ctrl.memRead = true ∧ loadPorts ≤ (q.select width sb rob loadPorts storePorts prf).1.countP fun x =>
        x.entry.ctrl.memRead && !RobTag.isOlderThan e.robTag x.entry.robTag) ∨
      (e.ctrl.memWrite = true ∧ storePorts ≤ (q.select width sb rob loadPorts storePorts prf).1.countP fun x =>
        x.entry.ctrl.memWrite && !RobTag.isOlderThan e.robTag x.entry.robTag) := by
    intro e
    rw [hres, countP_selected (fun t c => c.memRead && !RobTag.isOlderThan e.robTag t),
      countP_selected (fun t c => c.memWrite && !RobTag.isOlderThan e.robTag t)]
    exact Iff.rfl
  constructor
  · intro h
    rcases Nat.eq_zero_or_pos width with hw | hw
    · exact Or.inl hw
    · refine Or.inr (rawOrdered_of_picked hspan hw ?_ fun x hx hsel hnot y hy hold => ?_)
      · have hord := h.ordered
        rw [hres] at hord
        exact pairwise_selected.mp hord
      · have hleft := h.unskipped x.2 (mem_left.mpr ⟨x, hx, rfl, hnot⟩) hsel (y.2.selected prf)
          (hres ▸ List.mem_map_of_mem hy) (by rw [selected_tag]; exact hold)
        exact (hports x.2.entry).mpr hleft
  · intro h
    have hraw : width = 0 → q.queue.picked width sb rob loadPorts storePorts prf = [] := by
      rintro rfl
      exact pick_zero _ _ _
    refine ⟨?_, ?_, ⟨?_, ?_, ?_⟩, select_removed, select_emptied, select_counted hcount⟩
    · rw [hres, pairwise_selected]
      rcases h with hw | h
      · rw [hraw hw]
        exact List.Pairwise.nil
      · exact picked_ordered h
    · intro e he hsel y hy hold
      obtain ⟨x, hx, rfl, hnot⟩ := mem_left.mp he
      rw [hres] at hy
      obtain ⟨z, hz, rfl⟩ := List.mem_map.mp hy
      rw [selected_tag] at hold
      rcases h with hw | h
      · rw [hraw hw] at hz
        exact absurd hz List.not_mem_nil
      · exact (hports x.2.entry).mp (picked_unskipped h hx hsel hnot hz hold)
    · rw [hres, List.length_map]
      exact hlen
    · rw [hres, countP_selected (fun _ c => c.memRead)]
      exact hloads
    · rw [hres, countP_selected (fun _ c => c.memWrite)]
      exact hstores

end

/-- An addition of zeros, ready as soon as it is dispatched. -/
def addAt (pc : U64) (tag : RobTag) : IssueQueueEntry :=
  .ofRenamed (IdExEntry.toIssue { pc := pc, inst := 0x00000033, instSize := .standard, trap := none } tag)
      (PhysRegFile.new 64) .none

/-- The additions in the reorder buffer. -/
def addRob (tags : List (U64 × RobTag)) (next : RobTag) : Rob where
  capacity := 8
  entries := tags.map fun x =>
    { tag := x.2, pc := x.1, inst := 0x00000033, instSize := .standard, rd := 0, rdFp := false, ctrl := {}
      physDst := 0, oldPhysDst := 0 }
  nextTag := next

/-- Two additions, the older in the second slot. -/
def unwrapped : CountedQueue := ⟨⟨[some (addAt 0x104 6), some (addAt 0x100 5)]⟩, 2⟩

/-- Their raw tags are in program order, and the older is selected. -/
theorem select_right_unwrapped :
    OldestFirst unwrapped 1 (StoreBuffer.new 4) (addRob [(0x100, 5), (0x104, 6)] 7) 1 1 (PhysRegFile.new 64)
      (unwrapped.select 1 (StoreBuffer.new 4) (addRob [(0x100, 5), (0x104, 6)] 7) 1 1 (PhysRegFile.new 64)) := by
  have htags : ∀ a ∈ unwrapped.queue.entries, ∀ b ∈ unwrapped.queue.entries,
      RobTag.isOlderThan a.entry.robTag b.entry.robTag = true → a.entry.robTag.toNat < b.entry.robTag.toNat := by decide
  exact (select_right rfl ⟨7, by decide⟩).mpr (Or.inr fun a ha b hb _ _ => htags a ha b hb)

/-- Two additions, the second dispatched after the wrap of the counter. -/
def wrapped : CountedQueue := ⟨⟨[some (addAt 0x100 0xffffffff), some (addAt 0x104 1)]⟩, 2⟩

/-- **Across the wrap the younger one is selected**, and the older one stays. -/
theorem select_wrapped : wrapped.count = wrapped.queue.slots.countP Option.isSome ∧ wrapped.queue.Spans ∧
    ¬OldestFirst wrapped 1 (StoreBuffer.new 4) (addRob [(0x100, 0xffffffff), (0x104, 1)] 2) 1 1 (PhysRegFile.new 64)
      (wrapped.select 1 (StoreBuffer.new 4) (addRob [(0x100, 0xffffffff), (0x104, 1)] 2) 1 1 (PhysRegFile.new 64)) := by
  refine ⟨rfl, ⟨2, by decide⟩, fun h => ?_⟩
  have hskip := h.unskipped (addAt 0x100 0xffffffff) (by decide) (by decide)
    ((addAt 0x104 1).selected (PhysRegFile.new 64)) (by decide) (by decide)
  exact absurd hskip (by decide)

end CountedQueue

end Rvsim
