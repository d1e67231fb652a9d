/-
# The engine seen as instructions in flight

`O3State.flight` reads the engine's queue, latches and miss registers as
waiting and flying instructions, and this module says how each container
operation moves them: dispatch and select of the issue queue, a request to
and a completion of a miss register, the memory stages.

Key definitions:
  - `O3State.flight`, `O3Inv`
Key theorems:
  - `IssueQueue.dispatch_perm`, `IssueQueue.select_perm`
  - `MshrFile.request_parked`, `MshrFile.drain_parked`
  - `memory1Stage_perm`, `memory2Stage_moved`
-/
import Rvsim.Flight
import Rvsim.O3

namespace Rvsim

variable {U : Type}

/-! ### Issue queue -/

namespace IssueQueue

variable {q : IssueQueue}

theorem entries_map (f : IssueQueueEntry → IssueQueueEntry) : (q.map f).entries = q.entries.map f := by
  simp [entries, map, List.filterMap_map, List.map_filterMap]

/-- The instructions waiting, without operand values. -/
def bares (q : IssueQueue) : List RenameIssueEntry := q.entries.map fun e => e.entry.bare

/-- Waking operands or resolving dependences moves nothing. -/
theorem bares_map {f : IssueQueueEntry → IssueQueueEntry} (hf : ∀ e, (f e).entry = e.entry) :
    (q.map f).bares = q.bares := by
  simp [bares, entries_map, List.map_map, Function.comp_def, hf]

@[simp] theorem slots_map_length (f : IssueQueueEntry → IssueQueueEntry) :
    (q.map f).slots.length = q.slots.length := by simp [map]

theorem bares_wakeupPhys (p : PhysReg) (v : U64) : (q.wakeupPhys p v).bares = q.bares :=
  bares_map fun _ => rfl

theorem bares_speculativeWakeupPhys (p : PhysReg) : (q.speculativeWakeupPhys p).bares = q.bares := by
  unfold speculativeWakeupPhys
  split
  · rfl
  · exact bares_map fun _ => rfl

theorem bares_cancelWakeupPhys (p : PhysReg) (prf : PhysRegFile) :
    (q.cancelWakeupPhys p prf).bares = q.bares := by
  unfold cancelWakeupPhys
  split
  · rfl
  · exact bares_map fun _ => rfl

theorem slots_cancelWakeupPhys (p : PhysReg) (prf : PhysRegFile) :
    (q.cancelWakeupPhys p prf).slots.length = q.slots.length := by
  unfold cancelWakeupPhys
  split
  · rfl
  · exact slots_map_length _

theorem foldl_cancelWakeupPhys (prf : PhysRegFile) (ps : List PhysReg) (q : IssueQueue) :
    (ps.foldl (fun q p => q.cancelWakeupPhys p prf) q).bares = q.bares ∧
      (ps.foldl (fun q p => q.cancelWakeupPhys p prf) q).slots.length = q.slots.length := by
  induction ps generalizing q with
  | nil => exact ⟨rfl, rfl⟩
  | cons p ps ih =>
    obtain ⟨h1, h2⟩ := ih (q.cancelWakeupPhys p prf)
    exact ⟨h1.trans (bares_cancelWakeupPhys p prf), h2.trans (slots_cancelWakeupPhys p prf)⟩

theorem slots_speculativeWakeupPhys (p : PhysReg) :
    (q.speculativeWakeupPhys p).slots.length = q.slots.length := by
  unfold speculativeWakeupPhys
  split
  · rfl
  · exact slots_map_length _

theorem bares_wakeupMemDep (t : RobTag) : (q.wakeupMemDep t).bares = q.bares :=
  bares_map fun e => by split <;> rfl

/-- Slots filled and number of slots; what decides whether a dispatch finds room. -/
def Room (q : IssueQueue) (n : Nat) : Prop := q.bares.length + n ≤ q.slots.length

theorem length_bares : q.bares.length = q.entries.length := by simp [bares]

theorem length_entries_add_available : q.entries.length + q.availableSlots = q.slots.length := by
  unfold entries availableSlots
  induction q.slots with
  | nil => rfl
  | cons s ss ih =>
    cases s <;> simp at ih ⊢ <;> omega

theorem putFirst_length (e : IssueQueueEntry) (ss : List (Option IssueQueueEntry)) :
    (putFirst e ss).length = ss.length := by
  induction ss with
  | nil => rfl
  | cons s ss ih => cases s <;> simp [putFirst, ih]

theorem putFirst_perm (e : IssueQueueEntry) (ss : List (Option IssueQueueEntry))
    (h : (ss.filterMap id).length < ss.length) :
    ((putFirst e ss).filterMap id).Perm (e :: ss.filterMap id) := by
  induction ss with
  | nil => simp at h
  | cons s ss ih =>
    cases s with
    | none => simp [putFirst]
    | some x =>
      simp only [List.filterMap_cons, id, List.length_cons, Nat.add_lt_add_iff_right] at h
      simp only [putFirst, List.filterMap_cons, id]
      exact ((ih h).cons x).trans (List.Perm.swap e x _)

/-- A queue without room loses the instruction. -/
theorem mem_dispatch_bares {e w : RenameIssueEntry} {prf : PhysRegFile} {dep : MemDepState}
    (h : w ∈ (q.dispatch e prf dep).bares) : w = e.bare ∨ w ∈ q.bares := by
  have hput : ∀ ss : List (Option IssueQueueEntry), ∀ x ∈ (putFirst (.ofRenamed e prf dep) ss).filterMap id,
      x = .ofRenamed e prf dep ∨ x ∈ ss.filterMap id := by
    intro ss
    induction ss with
    | nil => simp [putFirst]
    | cons y ss ih =>
      cases y with
      | none => simp [putFirst]
      | some y =>
        intro x hx
        simp only [putFirst, List.filterMap_cons, id, List.mem_cons] at hx ⊢
        rcases hx with rfl | hx
        · exact Or.inr (Or.inl rfl)
        · exact (ih x hx).imp_right Or.inr
  obtain ⟨x, hx, rfl⟩ := List.mem_map.mp h
  rcases hput q.slots x hx with rfl | hx'
  · exact Or.inl rfl
  · exact Or.inr (List.mem_map.mpr ⟨x, hx', rfl⟩)

/-- Dispatch into a queue with room adds the instruction. -/
theorem dispatch_perm {n : Nat} (e : RenameIssueEntry) (prf : PhysRegFile) (dep : MemDepState)
    (h : q.Room (n + 1)) : ((q.dispatch e prf dep).bares).Perm (e.bare :: q.bares) := by
  have hlt : (q.slots.filterMap id).length < q.slots.length := by
    have := h
    simp only [Room, length_bares, entries] at this
    omega
  exact (putFirst_perm (.ofRenamed e prf dep) q.slots hlt).map fun x => x.entry.bare

theorem dispatch_room {n : Nat} (e : RenameIssueEntry) (prf : PhysRegFile) (dep : MemDepState)
    (h : q.Room (n + 1)) : (q.dispatch e prf dep).Room n := by
  have hp := (dispatch_perm e prf dep h).length_eq
  have hl : (q.dispatch e prf dep).slots.length = q.slots.length := putFirst_length _ _
  simp only [Room, List.length_cons] at h hp ⊢
  omega

theorem flush_bares : q.flush.bares = [] := by simp [bares, entries, flush]

@[simp] theorem flush_length : q.flush.slots.length = q.slots.length := by simp [flush]

theorem flushAfter_bares (keep : RobTag) :
    (q.flushAfter keep).bares = q.bares.filter fun e => !RobTag.isNewerThan e.robTag keep := by
  simp only [bares, entries, flushAfter, List.filterMap_map]
  induction q.slots with
  | nil => rfl
  | cons s ss ih =>
    cases s with
    | none => simpa using ih
    | some e =>
      by_cases h : RobTag.isNewerThan e.entry.robTag keep
      · simpa [List.filterMap_cons, h] using ih
      · simpa [List.filterMap_cons, Option.filter, h] using ih

/-! #### Select -/

/-- The filled slots with their indices. -/
def indexed (q : IssueQueue) : List (Nat × IssueQueueEntry) :=
  q.slots.zipIdx.filterMap fun (s, i) => s.map fun e => (i, e)

theorem indexed_map_snd : q.indexed.map (·.2) = q.entries := by
  have hz : q.slots = q.slots.zipIdx.map (·.1) := by simp
  conv_rhs => rw [entries, hz]
  simp only [indexed, List.map_filterMap, List.filterMap_map]
  congr 1
  funext x
  obtain ⟨s, i⟩ := x
  cases s <;> rfl

theorem indexed_nodup : (q.indexed.map (·.1)).Nodup := by
  have hsub : (q.indexed.map (·.1)).Sublist (q.slots.zipIdx.map (·.2)) := by
    unfold indexed
    induction q.slots.zipIdx with
    | nil => exact List.Sublist.refl _
    | cons x xs ih =>
      obtain ⟨s, i⟩ := x
      cases s with
      | none => exact ih.cons i
      | some e => exact ih.cons_cons i
  refine List.Nodup.sublist hsub ?_
  rw [List.zipIdx_map_snd]
  exact List.nodup_range'

theorem readyIndices_eq (sb : StoreBuffer) (rob : Rob) (prf : PhysRegFile) :
    q.readyIndices sb rob prf = q.indexed.filter fun x => x.2.selectable sb rob prf := by
  unfold readyIndices indexed
  induction q.slots.zipIdx with
  | nil => rfl
  | cons x xs ih =>
    obtain ⟨s, i⟩ := x
    cases s with
    | none => simpa using ih
    | some e =>
      by_cases h : e.selectable sb rob prf <;> simp [h, ih]

theorem pick_sublist (w l s : Nat) (es : List (Nat × IssueQueueEntry)) : (pick w l s es).Sublist es := by
  induction es generalizing w l s with
  | nil => cases w <;> exact List.Sublist.refl _
  | cons e es ih =>
    cases w with
    | zero => exact List.nil_sublist _
    | succ w =>
      simp only [pick]
      split
      · exact (ih _ _ _).cons e
      · exact (ih _ _ _).cons_cons e

theorem clear_entries (is : List Nat) :
    (q.clear is).entries = (q.indexed.filter fun x => x.1 ∉ is).map (·.2) := by
  unfold clear entries indexed
  rw [List.filterMap_map]
  induction q.slots.zipIdx with
  | nil => rfl
  | cons x xs ih =>
    obtain ⟨s, i⟩ := x
    cases s with
    | none => simpa using ih
    | some e =>
      by_cases h : i ∈ is
      · simpa [h] using ih
      · simpa [h] using ih

/-- A part of a list with distinct keys is what its keys select. -/
theorem perm_filter_keys {α : Type} {R S : List (Nat × α)} (hR : (R.map (·.1)).Nodup) (hS : S.Subperm R) :
    S.Perm (R.filter fun x => x.1 ∈ S.map (·.1)) := by
  have hRn : R.Nodup := List.Nodup.of_map _ hR
  have hSn : S.Nodup := by
    obtain ⟨l, hp, hl⟩ := hS
    exact hp.nodup_iff.mp (hRn.sublist hl)
  refine (List.perm_ext_iff_of_nodup hSn (hRn.filter _)).mpr fun x => ?_
  simp only [List.mem_filter, decide_eq_true_eq]
  constructor
  · exact fun hx => ⟨hS.subset hx, List.mem_map_of_mem hx⟩
  · rintro ⟨hxR, hkey⟩
    obtain ⟨y, hy, hyx⟩ := List.mem_map.mp hkey
    exact List.inj_on_of_nodup_map hR (hS.subset hy) hxR hyx ▸ hy

/-- The entries picked by `select`, with their slots. -/
def picked (q : IssueQueue) (width : Nat) (sb : StoreBuffer) (rob : Rob) (lp sp : Nat) (prf : PhysRegFile) :
    List (Nat × IssueQueueEntry) :=
  pick width lp sp (sortByRawTag (q.readyIndices sb rob prf))

theorem picked_subperm (width : Nat) (sb : StoreBuffer) (rob : Rob) (lp sp : Nat) (prf : PhysRegFile) :
    (q.picked width sb rob lp sp prf).Subperm (q.readyIndices sb rob prf) :=
  (pick_sublist _ _ _ _).subperm.trans (List.perm_insertionSort _ _).subperm

/-- The queue splits into what was picked and what stays. -/
theorem clear_perm {S : List (Nat × IssueQueueEntry)} (hS : S.Subperm q.indexed) :
    (S.map (·.2) ++ (q.clear (S.map (·.1))).entries).Perm q.entries := by
  have hp := perm_filter_keys indexed_nodup hS
  rw [clear_entries, ← indexed_map_snd, ← List.map_append]
  refine List.Perm.map _ ?_
  refine (List.Perm.append_right _ hp).trans ?_
  have := List.filter_append_perm (fun x : Nat × IssueQueueEntry => decide (x.1 ∈ S.map (·.1))) q.indexed
  refine List.Perm.trans (List.Perm.of_eq ?_) this
  congr 1
  refine List.filter_congr fun x _ => ?_
  simp

@[simp] theorem clear_length (is : List Nat) : (q.clear is).slots.length = q.slots.length := by simp [clear]

theorem issued_bare (e : IssueQueueEntry) (prf : PhysRegFile) : (e.issued prf).bare = e.entry.bare := by
  unfold IssueQueueEntry.issued
  split <;> rfl

/-- **Select.** What is selected and what stays are the queue's instructions. -/
theorem select_perm (width : Nat) (sb : StoreBuffer) (rob : Rob) (lp sp : Nat) (prf : PhysRegFile) :
    let r := q.select width sb rob lp sp prf
    (r.1.map (fun x => x.entry.bare) ++ r.2.bares).Perm q.bares := by
  have hS : (q.picked width sb rob lp sp prf).Subperm q.indexed := by
    refine (picked_subperm width sb rob lp sp prf).trans ?_
    rw [readyIndices_eq]
    exact List.filter_sublist.subperm
  have hp := (clear_perm hS).map fun x => x.entry.bare
  simp only [List.map_append, List.map_map, Function.comp_def] at hp
  simpa [select, picked, bares, List.map_map, Function.comp_def, issued_bare] using hp

theorem select_length (width : Nat) (sb : StoreBuffer) (rob : Rob) (lp sp : Nat) (prf : PhysRegFile) :
    (q.select width sb rob lp sp prf).2.slots.length = q.slots.length := by simp [select]

/-- The selected instructions come in the order of their raw tags. -/
theorem select_sorted (width : Nat) (sb : StoreBuffer) (rob : Rob) (lp sp : Nat) (prf : PhysRegFile) :
    ((q.select width sb rob lp sp prf).1.map fun x => x.entry.robTag.toNat).Pairwise (· ≤ ·) := by
  have htag : ∀ e : IssueQueueEntry, (e.issued prf).robTag = e.entry.robTag := by
    intro e
    unfold IssueQueueEntry.issued
    split <;> rfl
  have hsort : (sortByRawTag (q.readyIndices sb rob prf)).Pairwise
      fun a b => a.2.entry.robTag.toNat ≤ b.2.entry.robTag.toNat :=
    List.pairwise_insertionSort _ _
  have hpick := hsort.sublist (pick_sublist width lp sp (sortByRawTag (q.readyIndices sb rob prf)))
  simp only [select, List.map_map, Function.comp_def, htag]
  exact List.pairwise_map.mpr hpick

end IssueQueue

/-! ### Miss status holding registers -/

namespace MshrEntry

/-- The accesses a miss holds. -/
def parked (e : MshrEntry) : List Mem1Mem2Entry := e.waiters.filterMap (·.parkedEntry)

/-- A free register holds nothing, and a waiter's tag is that of its access. -/
structure Ok (e : MshrEntry) : Prop where
  free : e.valid = false → e.waiters = []
  tagged : ∀ w ∈ e.waiters, ∀ p, w.parkedEntry = some p → p.robTag = w.robTag

theorem Ok.default : Ok {} := ⟨fun _ => rfl, by simp⟩

end MshrEntry

/-- A waiter as memory1 makes it. -/
def MshrWaiter.Ok (w : MshrWaiter) : Prop := ∀ p, w.parkedEntry = some p → p.robTag = w.robTag

namespace MshrFile

variable {m : MshrFile}

/-- The accesses the file holds. -/
def parked (m : MshrFile) : List Mem1Mem2Entry := m.entries.flatMap MshrEntry.parked

def Ok (m : MshrFile) : Prop := ∀ e ∈ m.entries, e.Ok

theorem Ok.new (capacity lineBytes : Nat) : (new capacity lineBytes).Ok := by
  intro e he
  rw [List.eq_of_mem_replicate he]
  exact MshrEntry.Ok.default

theorem coalesce_parked (line : U64) (isWrite : Bool) (w : MshrWaiter) (es : List MshrEntry)
    (h : es.any fun e => e.valid && e.lineAddr == line) :
    ((coalesce line isWrite w es).flatMap MshrEntry.parked).Perm
      (es.flatMap MshrEntry.parked ++ w.parkedEntry.toList) := by
  induction es with
  | nil => simp at h
  | cons e es ih =>
    by_cases hit : (e.valid && e.lineAddr == line) = true
    · simp only [coalesce, if_pos hit, List.flatMap_cons, MshrEntry.parked, List.filterMap_append]
      have hw : [w].filterMap (·.parkedEntry) = w.parkedEntry.toList := by cases h : w.parkedEntry <;> simp [h]
      rw [hw, List.append_assoc, List.append_assoc]
      exact List.Perm.append_left _ List.perm_append_comm
    · simp only [coalesce, if_neg hit, List.flatMap_cons]
      rw [List.append_assoc]
      refine List.Perm.append_left _ (ih ?_)
      simpa [hit] using h

theorem coalesce_ok (line : U64) (isWrite : Bool) {w : MshrWaiter} (hw : w.Ok) {es : List MshrEntry}
    (h : ∀ e ∈ es, e.Ok) : ∀ e ∈ coalesce line isWrite w es, e.Ok := by
  induction es with
  | nil => simp [coalesce]
  | cons e es ih =>
    have he := h e (by simp)
    have hes : ∀ e ∈ es, e.Ok := fun x hx => h x (by simp [hx])
    intro x hx
    by_cases hit : (e.valid && e.lineAddr == line) = true
    · rw [coalesce, if_pos hit] at hx
      rcases List.mem_cons.mp hx with rfl | hx'
      · refine ⟨fun hv => ?_, fun y hy p hp => ?_⟩
        · simp only [Bool.and_eq_true] at hit
          simp [hit.1] at hv
        · rcases List.mem_append.mp hy with hy' | hy'
          · exact he.tagged y hy' p hp
          · rw [List.mem_singleton.mp hy'] at hp ⊢
            exact hw p hp
      · exact hes x hx'
    · rw [coalesce, if_neg hit] at hx
      rcases List.mem_cons.mp hx with rfl | hx'
      · exact he
      · exact ih hes x hx'

theorem allocateSlot_parked {new : MshrEntry} {es es' : List MshrEntry} (hok : ∀ e ∈ es, e.Ok)
    (h : allocateSlot new es = some es') :
    (es'.flatMap MshrEntry.parked).Perm (es.flatMap MshrEntry.parked ++ new.parked) := by
  induction es generalizing es' with
  | nil => simp [allocateSlot] at h
  | cons e es ih =>
    by_cases hv : e.valid
    · rw [allocateSlot, if_pos hv] at h
      obtain ⟨fs, hfs, rfl⟩ := Option.map_eq_some_iff.mp h
      simp only [List.flatMap_cons, List.append_assoc]
      exact List.Perm.append_left _ (ih (fun x hx => hok x (by simp [hx])) hfs)
    · rw [allocateSlot, if_neg hv] at h
      obtain rfl := Option.some.inj h
      have hnil : e.parked = [] := by
        simp [MshrEntry.parked, (hok e (by simp)).free (by simpa using hv)]
      simp only [List.flatMap_cons, hnil, List.nil_append]
      exact List.perm_append_comm

theorem allocateSlot_ok {new : MshrEntry} (hn : new.Ok) {es es' : List MshrEntry} (hok : ∀ e ∈ es, e.Ok)
    (h : allocateSlot new es = some es') : ∀ e ∈ es', e.Ok := by
  induction es generalizing es' with
  | nil => simp [allocateSlot] at h
  | cons e es ih =>
    have hes : ∀ e ∈ es, e.Ok := fun x hx => hok x (by simp [hx])
    by_cases hv : e.valid
    · rw [allocateSlot, if_pos hv] at h
      obtain ⟨fs, hfs, rfl⟩ := Option.map_eq_some_iff.mp h
      intro x hx
      rcases List.mem_cons.mp hx with rfl | hx'
      · exact hok x (by simp)
      · exact ih hes hfs x hx'
    · rw [allocateSlot, if_neg hv] at h
      obtain rfl := Option.some.inj h
      intro x hx
      rcases List.mem_cons.mp hx with rfl | hx'
      · exact hn
      · exact hes x hx'

/-- **A request.** Either it is refused and nothing changes, or the waiter is taken in. -/
theorem request_parked (hok : m.Ok) (addr : U64) (isWrite : Bool) (lat now : Nat) {w : MshrWaiter} (hw : w.Ok) :
    let r := m.request addr isWrite lat now w
    r.2.Ok ∧ ((r.1 = .mshrFull ∧ r.2 = m) ∨
      (r.1 ≠ .mshrFull ∧ r.2.parked.Perm (m.parked ++ w.parkedEntry.toList))) := by
  unfold request
  by_cases hc : m.entries.any fun e => e.valid && e.lineAddr == m.lineAlign addr
  · simp only [if_pos hc]
    exact ⟨coalesce_ok _ _ hw hok, Or.inr ⟨by simp, coalesce_parked _ _ w _ hc⟩⟩
  · simp only [if_neg hc]
    by_cases hf : m.count ≥ m.cap
    · simp only [if_pos hf]
      exact ⟨hok, Or.inl (by simp)⟩
    · simp only [if_neg hf]
      cases ha : allocateSlot ⟨m.lineAlign addr, (now + lat) % 2 ^ 64, [w], true, isWrite⟩ m.entries with
      | none => exact ⟨hok, Or.inl ⟨rfl, rfl⟩⟩
      | some es =>
        have hnew : MshrEntry.Ok ⟨m.lineAlign addr, (now + lat) % 2 ^ 64, [w], true, isWrite⟩ :=
          ⟨by simp, fun x hx p hp => by rw [List.mem_singleton.mp hx] at hp ⊢; exact hw p hp⟩
        refine ⟨allocateSlot_ok hnew hok ha, Or.inr ⟨by simp, ?_⟩⟩
        have := allocateSlot_parked hok ha
        have hpk : MshrEntry.parked ⟨m.lineAlign addr, (now + lat) % 2 ^ 64, [w], true, isWrite⟩ =
            w.parkedEntry.toList := by
          cases h : w.parkedEntry <;> simp [MshrEntry.parked, h]
        rwa [hpk] at this

/-- **Completions.** The accesses of the completed misses leave, the others stay. -/
theorem drain_parked (hok : m.Ok) (now : Nat) :
    let r := m.drainCompletions now
    r.2.Ok ∧ (r.1.flatMap MshrEntry.parked ++ r.2.parked).Perm m.parked := by
  refine ⟨fun e he => ?_, ?_⟩
  · obtain ⟨x, hx, rfl⟩ := List.mem_map.mp he
    split
    · exact MshrEntry.Ok.default
    · exact hok x hx
  · simp only [drainCompletions, parked]
    induction m.entries with
    | nil => exact List.Perm.refl _
    | cons e es ih =>
      by_cases hd : isDone now e
      · rw [List.filter_cons_of_pos (by exact hd)]
        simp only [List.map_cons, if_pos hd, List.flatMap_cons, MshrEntry.parked, List.filterMap_nil,
          List.nil_append, List.append_assoc]
        exact List.Perm.append_left _ ih
      · rw [List.filter_cons_of_neg (by simpa using hd)]
        simp only [List.map_cons, if_neg hd, List.flatMap_cons]
        refine (List.perm_append_comm_assoc _ _ _).trans ?_
        exact List.Perm.append_left _ ih

theorem flushAfter_parked (hok : m.Ok) (keep : RobTag) :
    (m.flushAfter keep).Ok ∧
      (m.flushAfter keep).parked = m.parked.filter fun p => !RobTag.isNewerThan p.robTag keep := by
  refine ⟨fun e he => ?_, ?_⟩
  · obtain ⟨x, hx, rfl⟩ := List.mem_map.mp he
    have hxo := hok x hx
    split
    · exact ⟨fun hv => absurd ‹x.valid = true› (by simpa using hv), fun w hw => hxo.tagged w (List.mem_filter.mp hw).1⟩
    · exact hxo
  · simp only [flushAfter, parked, List.flatMap_map, List.filter_flatMap]
    refine List.flatMap_congr fun e he => ?_
    have heo := hok e he
    by_cases hv : e.valid
    · simp only [if_pos hv, MshrEntry.parked]
      have htag := heo.tagged
      revert htag
      generalize e.waiters = ws
      intro htag
      induction ws with
      | nil => rfl
      | cons w ws ih =>
        have ih' := ih fun x hx => htag x (by simp [hx])
        cases hp : w.parkedEntry with
        | none =>
          by_cases hk : RobTag.isOlderOrEq w.robTag keep <;> simp [hk, hp, ih']
        | some p =>
          have hpt := htag w (by simp) p hp
          by_cases hk : RobTag.isOlderOrEq w.robTag keep
          · have hk' : RobTag.isNewerThan w.robTag keep = false := by
              simpa [RobTag.isOlderOrEq, RobTag.isNewerThan] using hk
            simp [hk, hp, hpt, hk', ih']
          · have hk' : RobTag.isNewerThan w.robTag keep = true := by
              simpa [RobTag.isOlderOrEq, RobTag.isNewerThan] using hk
            simp [hk, hp, hpt, hk', ih']
    · simp [hv, MshrEntry.parked, heo.free (by simpa using hv)]

theorem flush_parked : m.flush.Ok ∧ m.flush.parked = [] := by
  refine ⟨fun e he => ?_, ?_⟩
  · obtain ⟨x, hx, rfl⟩ := List.mem_map.mp he
    exact ⟨fun _ => rfl, by simp⟩
  · simp [flush, parked, MshrEntry.parked, List.flatMap_map]

end MshrFile

/-! ### Loads that ran -/

namespace LoadQueue

variable {q : LoadQueue} {t : RobTag}

/-- The tags of the loads that have their data. -/
def ran (q : LoadQueue) : List RobTag :=
  (q.entries.filter fun e => e.valid && e.state == .executed).map (·.robTag)

theorem mem_ran : t ∈ q.ran ↔ ∃ e ∈ q.entries, e.valid = true ∧ e.state = .executed ∧ e.robTag = t := by
  simp [ran, and_assoc]

theorem mem_modifyFirst {tag : RobTag} {f : LoadQueueEntry → LoadQueueEntry} {es : List LoadQueueEntry}
    {x : LoadQueueEntry} (h : x ∈ modifyFirst tag f es) :
    x ∈ es ∨ ∃ e ∈ es, e.robTag = tag ∧ x = f e := by
  induction es with
  | nil => simp [modifyFirst] at h
  | cons e es ih =>
    by_cases hit : (e.valid && e.robTag == tag) = true
    · rw [modifyFirst, if_pos hit] at h
      rcases List.mem_cons.mp h with rfl | h'
      · simp only [Bool.and_eq_true, beq_iff_eq] at hit
        exact Or.inr ⟨e, by simp, hit.2, rfl⟩
      · exact Or.inl (by simp [h'])
    · rw [modifyFirst, if_neg hit] at h
      rcases List.mem_cons.mp h with rfl | h'
      · exact Or.inl (by simp)
      · rcases ih h' with h'' | ⟨y, hy, hrest⟩
        · exact Or.inl (by simp [h''])
        · exact Or.inr ⟨y, by simp [hy], hrest⟩

theorem ran_fillAddress (tag : RobTag) (va : VirtAddr) (pa : PhysAddr) (h : t ∈ (q.fillAddress tag va pa).ran) :
    t ∈ q.ran := by
  obtain ⟨x, hx, hv, hs, ht⟩ := mem_ran.mp h
  rcases mem_modifyFirst hx with hx' | ⟨e, -, -, rfl⟩
  · exact mem_ran.mpr ⟨x, hx', hv, hs, ht⟩
  · simp at hs

theorem ran_fillData (tag : RobTag) (d : U64) (h : t ∈ (q.fillData tag d).ran) : t ∈ q.ran ∨ t = tag := by
  obtain ⟨x, hx, hv, hs, ht⟩ := mem_ran.mp h
  rcases mem_modifyFirst hx with hx' | ⟨e, -, he, rfl⟩
  · exact Or.inl (mem_ran.mpr ⟨x, hx', hv, hs, ht⟩)
  · exact Or.inr (ht.symm.trans he)

theorem ran_deallocate (tag : RobTag) (h : t ∈ (q.deallocate tag).ran) : t ∈ q.ran := by
  obtain ⟨x, hx, hv, hs, ht⟩ := mem_ran.mp h
  have hx' : x ∈ q.entries := by
    unfold deallocate at hx
    split at hx
    · exact hx
    · rename_i e rest heq
      split at hx
      · simp [heq, show x ∈ rest from hx]
      · split at hx
        · rcases mem_modifyFirst ((List.dropWhile_sublist _).subset hx) with hx' | ⟨e, -, -, rfl⟩
          · exact hx'
          · simp at hv
        · exact hx
  exact mem_ran.mpr ⟨x, hx', hv, hs, ht⟩

theorem ran_flushAfter (keep : RobTag) (h : t ∈ (q.flushAfter keep).ran) : t ∈ q.ran := by
  obtain ⟨x, hx, hv, hs, ht⟩ := mem_ran.mp h
  exact mem_ran.mpr ⟨x, (List.mem_filter.mp hx).1, hv, hs, ht⟩

/-- A violation is always of a load that ran. -/
theorem checkOrderingViolation_ran {a : PhysAddr} {w : MemWidth} {tag : RobTag}
    (h : q.checkOrderingViolation a w tag = some t) : t ∈ q.ran := by
  have hfold : ∀ (es : List LoadQueueEntry) (acc : Option RobTag), (∀ x ∈ es, x ∈ q.entries) →
      (∀ u, acc = some u → u ∈ q.ran) → ∀ u,
      es.foldl (fun acc e => if violates a w tag e then older acc e.robTag else acc) acc = some u → u ∈ q.ran := by
    intro es
    induction es with
    | nil => exact fun acc _ hacc u hu => hacc u hu
    | cons e es ih =>
      intro acc hes hacc
      refine ih _ (fun x hx => hes x (by simp [hx])) fun u hu => ?_
      dsimp only at hu
      by_cases hv : violates a w tag e
      · rw [if_pos hv] at hu
        have hran : e.robTag ∈ q.ran := by
          simp only [violates, Bool.and_eq_true, beq_iff_eq] at hv
          exact mem_ran.mpr ⟨e, hes e (by simp), hv.1.1.1, hv.1.2, rfl⟩
        unfold older at hu
        split at hu
        · exact Option.some.inj hu ▸ hran
        · split at hu
          · exact Option.some.inj hu ▸ hran
          · exact hacc u hu
      · rw [if_neg hv] at hu
        exact hacc u hu
  exact hfold q.entries none (fun _ hx => hx) (by simp) t h

end LoadQueue

/-! ### The memory stages -/

def ExMem1Entry.dest (e : ExMem1Entry) : RobTag × PhysReg := (e.robTag, e.rdPhys)

def Mem1Mem2Entry.dest (e : Mem1Mem2Entry) : RobTag × PhysReg := (e.robTag, e.rdPhys)

def Mem2WbEntry.dest (e : Mem2WbEntry) : RobTag × PhysReg := (e.robTag, e.rdPhys)

section Memory

variable [Units U]

theorem Cpu.translate_eq (c : Cpu U) (va : VirtAddr) (a : AccessType) (size : Nat) :
    ∃ u, (c.translate va a size).2 = { c with units := u } := by
  unfold Cpu.translate
  by_cases hd : c.directMode
  · rw [if_pos hd]
    by_cases hv : Units.isValidAddress c.units va
    · rw [if_pos hv]
      exact ⟨c.units, rfl⟩
    · rw [if_neg hv]
      exact ⟨c.units, rfl⟩
  · rw [if_neg hd]
    refine ⟨(Units.translateWithPmp c.units c.mem va a (Cpu.effectivePriv c.csrs c.privilege a) c.csrs c.pmp).2, ?_⟩
    simp only
    split
    · rfl
    · split <;> rfl

theorem Cpu.busRead_eq (c : Cpu U) (a : PhysAddr) (w : MemWidth) :
    ∃ u, (c.busRead a w).2 = { c with units := u } := by
  unfold Cpu.busRead
  split
  · exact ⟨c.units, rfl⟩
  · exact ⟨_, rfl⟩

theorem Cpu.loadPhys_eq (c : Cpu U) (a : PhysAddr) (w : MemWidth) :
    ∃ u, (c.loadPhys a w).2 = { c with units := u } := by
  unfold Cpu.loadPhys
  split
  · exact ⟨c.units, rfl⟩
  · split
    · exact ⟨c.units, rfl⟩
    · exact ⟨_, rfl⟩

theorem atomicRead_eq (c : Cpu U) (a : PhysAddr) (w : MemWidth) :
    ∃ u, (atomicRead c a w).2 = { c with units := u } := by
  unfold atomicRead
  cases w
  · exact ⟨c.units, rfl⟩
  · exact ⟨c.units, rfl⟩
  · exact ⟨c.units, rfl⟩
  · exact c.busRead_eq a .word
  · exact c.busRead_eq a .double

/-- What memory1 does to the places an access can be in. -/
def Mem1Outcome.dests (ex : ExMem1Entry) : Mem1Outcome → List (RobTag × PhysReg)
  | .pass m => [m.dest]
  | .trapped m => [m.dest]
  | .parked _ => []
  | .full => [ex.dest]

/-- The access is afterwards in the latch, back in front of it, or parked; the core changes only
in its units and miss registers. -/
structure Mem1Spec (cpu : Cpu U) (ex : ExMem1Entry) (o : Mem1Outcome) (cpu' : Cpu U) : Prop where
  core : ∃ u ms, cpu' = { cpu with units := u, l1dMshrs := ms }
  ok : cpu'.l1dMshrs.Ok
  moved : (o.dests ex ++ cpu'.l1dMshrs.parked.map Mem1Mem2Entry.dest).Perm
    (ex.dest :: cpu.l1dMshrs.parked.map Mem1Mem2Entry.dest)

omit [Units U] in
theorem Mem1Spec.of_units {cpu cpu' : Cpu U} {ex : ExMem1Entry} {o : Mem1Outcome} {u : U}
    (hok : cpu.l1dMshrs.Ok) (hcpu : cpu' = { cpu with units := u }) (ho : o.dests ex = [ex.dest]) :
    Mem1Spec cpu ex o cpu' := by
  subst hcpu
  exact ⟨⟨u, cpu.l1dMshrs, rfl⟩, hok, by rw [ho]; exact List.Perm.refl _⟩

theorem mem1Mshr_spec (cpu : Cpu U) (hok : cpu.l1dMshrs.Ok) (ex : ExMem1Entry) (paddr : PhysAddr)
    (pte : Option PteUpdate) (lat now : Nat) :
    Mem1Spec cpu ex (mem1Mshr cpu ex paddr pte lat now).1 (mem1Mshr cpu ex paddr pte lat now).2 := by
  unfold mem1Mshr
  simp only
  split
  · exact Mem1Spec.of_units hok rfl rfl
  · split
    · -- a plain store leaves a waiter without an access and goes on
      have hw : MshrWaiter.Ok ⟨ex.robTag, none⟩ := fun p hp => by simp at hp
      have hreq := MshrFile.request_parked hok paddr true (Units.l1dLatency (Units.l1dAccessCheck cpu.units
        paddr ex.ctrl.memWrite).2 + (Units.simulateL1dMissLatency (Units.l1dAccessCheck cpu.units paddr
        ex.ctrl.memWrite).2 paddr ex.ctrl.accessType).1) now hw
      refine ⟨⟨_, _, rfl⟩, hreq.1, ?_⟩
      refine List.Perm.cons _ ?_
      rcases hreq.2 with ⟨-, heq⟩ | ⟨-, hp⟩
      · rw [heq]
        exact List.Perm.refl _
      · simpa using hp.map Mem1Mem2Entry.dest
    · have hw : MshrWaiter.Ok ⟨ex.robTag, some (ex.toMem2 0 ex.alu paddr none pte)⟩ := fun p hp => by
        obtain rfl := Option.some.inj hp
        rfl
      have hreq := MshrFile.request_parked hok paddr ex.ctrl.memWrite (Units.l1dLatency (Units.l1dAccessCheck
        cpu.units paddr ex.ctrl.memWrite).2 + (Units.simulateL1dMissLatency (Units.l1dAccessCheck cpu.units
        paddr ex.ctrl.memWrite).2 paddr ex.ctrl.accessType).1) now hw
      split
      · exact Mem1Spec.of_units hok rfl rfl
      · refine ⟨⟨_, _, rfl⟩, hreq.1, ?_⟩
        rcases hreq.2 with ⟨hfull, -⟩ | ⟨-, hp⟩
        · rename_i hne
          exact absurd hfull hne
        · have := hp.map Mem1Mem2Entry.dest
          rw [List.map_append] at this
          exact this.trans List.perm_append_comm

theorem mem1Access_spec (cpu : Cpu U) (hok : cpu.l1dMshrs.Ok) (ex : ExMem1Entry) (paddr : PhysAddr)
    (pte : Option PteUpdate) (lat now : Nat) :
    Mem1Spec cpu ex (mem1Access cpu ex paddr pte lat now).1 (mem1Access cpu ex paddr pte lat now).2 := by
  unfold mem1Access
  split
  · exact mem1Mshr_spec cpu hok ex paddr pte lat now
  · split
    · exact Mem1Spec.of_units hok rfl rfl
    · exact Mem1Spec.of_units (u := cpu.units) hok rfl rfl

theorem memory1One_spec (cpu : Cpu U) (hok : cpu.l1dMshrs.Ok) (ex : ExMem1Entry) (now : Nat)
    (lq : Option LoadQueue) :
    Mem1Spec cpu ex (memory1One cpu ex now lq).1 (memory1One cpu ex now lq).2.1 := by
  unfold memory1One
  cases ex.trap with
  | some t => exact Mem1Spec.of_units (u := cpu.units) hok rfl rfl
  | none =>
    by_cases hm : (ex.ctrl.memRead || ex.ctrl.memWrite) = true
    · simp only [if_pos hm]
      unfold mem1Translate
      simp only
      split
      · exact Mem1Spec.of_units (u := cpu.units) hok rfl rfl
      · obtain ⟨u, hu⟩ := cpu.translate_eq ex.alu ex.ctrl.accessType ex.ctrl.width.bytes
        split
        · exact Mem1Spec.of_units hok hu rfl
        · split
          · exact Mem1Spec.of_units hok hu rfl
          · have hok' : (cpu.translate ex.alu ex.ctrl.accessType ex.ctrl.width.bytes).2.l1dMshrs.Ok := by
              rw [hu]
              exact hok
            have hspec := mem1Access_spec _ hok' ex
              (cpu.translate ex.alu ex.ctrl.accessType ex.ctrl.width.bytes).1.paddr
              (cpu.translate ex.alu ex.ctrl.accessType ex.ctrl.width.bytes).1.pteUpdate
              (Unaligned.calculateUnalignedLatency ex.alu ex.ctrl.width.bytes 64 +
                (cpu.translate ex.alu ex.ctrl.accessType ex.ctrl.width.bytes).1.cycles) now
            obtain ⟨u', ms, hcore⟩ := hspec.core
            refine ⟨⟨u', ms, ?_⟩, hspec.ok, ?_⟩
            · rw [hcore, hu]
            · have hms : (cpu.translate ex.alu ex.ctrl.accessType ex.ctrl.width.bytes).2.l1dMshrs =
                  cpu.l1dMshrs := by rw [hu]
              have hmoved := hspec.moved
              rwa [hms] at hmoved
    · simp only [if_neg hm]
      exact Mem1Spec.of_units (u := cpu.units) hok rfl rfl

/-- **Memory1 moves, it does not lose or copy.** -/
theorem memory1Stage_perm (input : List ExMem1Entry) (cpu : Cpu U) (hok : cpu.l1dMshrs.Ok)
    (output : List Mem1Mem2Entry) (now : Nat) (lq : Option LoadQueue) (cancelled : List PhysReg) :
    let m := memory1Stage cpu input output now lq cancelled
    (∃ u ms, m.cpu = { cpu with units := u, l1dMshrs := ms }) ∧ m.cpu.l1dMshrs.Ok ∧
    (m.input.map ExMem1Entry.dest ++ (m.output.map Mem1Mem2Entry.dest ++
      m.cpu.l1dMshrs.parked.map Mem1Mem2Entry.dest)).Perm
    (input.map ExMem1Entry.dest ++ (output.map Mem1Mem2Entry.dest ++
      cpu.l1dMshrs.parked.map Mem1Mem2Entry.dest)) := by
  induction input generalizing cpu output lq cancelled with
  | nil => exact ⟨⟨cpu.units, cpu.l1dMshrs, rfl⟩, hok, List.Perm.refl _⟩
  | cons ex rest ih =>
    obtain ⟨⟨u, ms, hcore⟩, hok', hmoved⟩ := memory1One_spec cpu hok ex now lq
    rw [memory1Stage]
    generalize memory1One cpu ex now lq = r at hcore hok' hmoved
    obtain ⟨o, cpu', lq'⟩ := r
    simp only at hcore hok' hmoved
    cases o with
    | pass x =>
      obtain ⟨⟨u', ms', hc⟩, hk, hp⟩ := ih cpu' hok' (output ++ [x]) lq' cancelled
      refine ⟨⟨u', ms', by rw [hc, hcore]⟩, hk, hp.trans (List.perm_iff_count.mpr fun a => ?_)⟩
      have := hmoved.count_eq a
      simp only [Mem1Outcome.dests, List.map_append, List.map_cons, List.map_nil, List.count_append,
        List.count_cons, List.count_nil] at this ⊢
      omega
    | trapped x =>
      refine ⟨⟨u, ms, hcore⟩, hok', List.perm_iff_count.mpr fun a => ?_⟩
      have := hmoved.count_eq a
      simp only [Mem1Outcome.dests, List.map_append, List.map_cons, List.map_nil, List.count_append,
        List.count_cons, List.count_nil] at this ⊢
      omega
    | parked p =>
      obtain ⟨⟨u', ms', hc⟩, hk, hp⟩ := ih cpu' hok' output lq' (cancelled ++ [p])
      refine ⟨⟨u', ms', by rw [hc, hcore]⟩, hk, hp.trans (List.perm_iff_count.mpr fun a => ?_)⟩
      have := hmoved.count_eq a
      simp only [Mem1Outcome.dests, List.map_cons, List.count_append, List.count_cons, List.count_nil] at this ⊢
      omega
    | full =>
      refine ⟨⟨u, ms, hcore⟩, hok', List.perm_iff_count.mpr fun a => ?_⟩
      have := hmoved.count_eq a
      simp only [Mem1Outcome.dests, List.map_cons, List.count_append, List.count_cons, List.count_nil] at this ⊢
      omega

omit [Units U] in
theorem Mem2State.checkViolation_cpu (s : Mem2State U) (m : Mem1Mem2Entry) :
    (s.checkViolation m).cpu = s.cpu := by
  unfold checkViolation
  split
  · rfl
  · split
    · rfl
    · split <;> rfl

/-- The tags of loads that ran, and of the violation found. -/
def Mem2State.Ran (s : Mem2State U) (t : RobTag) : Prop :=
  (∃ q, s.lq = some q ∧ t ∈ q.ran) ∨ ∃ pc, s.violation = some (t, pc)

omit [Units U] in
theorem Mem2State.checkViolation_ran {s : Mem2State U} {m : Mem1Mem2Entry} {t : RobTag}
    (h : (s.checkViolation m).Ran t) : s.Ran t := by
  unfold checkViolation at h
  cases hq : s.lq.bind fun q => q.checkOrderingViolation m.paddr m.ctrl.width m.robTag with
  | none => simpa only [hq] using h
  | some v =>
    obtain ⟨q, hlq, hv⟩ := Option.bind_eq_some_iff.mp hq
    have hran : s.Ran v := Or.inl ⟨q, hlq, LoadQueue.checkOrderingViolation_ran hv⟩
    have hnew : ({ s with violation := some (v, m.pc) } : Mem2State U).Ran t → s.Ran t := by
      rintro (h' | ⟨pc, h'⟩)
      · exact Or.inl h'
      · obtain ⟨rfl, -⟩ := Prod.mk.inj (Option.some.inj h')
        exact hran
    simp only [hq] at h
    split at h
    · exact hnew h
    · split at h
      · exact hnew h
      · exact h

omit [Units U] in
theorem Mem2State.fillData_ran {s : Mem2State U} {tag t : RobTag} {d : U64} {cpu : Cpu U}
    (h : ({ s with cpu := cpu, lq := s.lq.map fun q => q.fillData tag d } : Mem2State U).Ran t) :
    s.Ran t ∨ t = tag := by
  rcases h with ⟨q, hq, ht⟩ | hv
  · obtain ⟨q', hq', rfl⟩ := Option.map_eq_some_iff.mp hq
    rcases LoadQueue.ran_fillData tag d ht with h' | h'
    · exact Or.inl (Or.inl ⟨q', hq', h'⟩)
    · exact Or.inr h'
  · exact Or.inl (Or.inr hv)

/-- What one entry does to the core, the load queue and the violation. -/
structure Mem2Spec (s : Mem2State U) (m : Mem1Mem2Entry) (wb : Mem2WbEntry) (s' : Mem2State U) : Prop where
  dest : wb.dest = m.dest
  core : ∃ u, s'.cpu = { s.cpu with units := u }
  ran : ∀ t, s'.Ran t → s.Ran t ∨ t = m.robTag

/-- An entry that leaves memory2 keeps its tag and destination, and only the units change. -/
theorem memory2One_spec {s s' : Mem2State U} {m : Mem1Mem2Entry} {wb : Mem2WbEntry}
    (h : memory2One s m = some (wb, s')) : Mem2Spec s m wb s' := by
  have hstay : ∃ u, s.cpu = { s.cpu with units := u } := ⟨s.cpu.units, rfl⟩
  unfold memory2One at h
  split at h
  · unfold mem2Atomic at h
    split at h
    · split at h
      · cases h
      · obtain ⟨rfl, rfl⟩ := Prod.mk.inj (Option.some.inj h)
        exact ⟨rfl, atomicRead_eq s.cpu m.paddr m.ctrl.width, fun t ht => Or.inl ht⟩
    · obtain ⟨rfl, rfl⟩ := Prod.mk.inj (Option.some.inj h)
      refine ⟨rfl, ?_, fun t ht => Or.inl ?_⟩
      · rw [Mem2State.checkViolation_cpu]
        exact hstay
      · have hran := Mem2State.checkViolation_ran ht
        exact hran
    · split at h
      · cases h
      · obtain ⟨rfl, rfl⟩ := Prod.mk.inj (Option.some.inj h)
        refine ⟨rfl, ?_, fun t ht => Or.inl ?_⟩
        · rw [Mem2State.checkViolation_cpu]
          exact atomicRead_eq s.cpu m.paddr m.ctrl.width
        · have hran := Mem2State.checkViolation_ran ht
          exact hran
  · split at h
    · unfold mem2Load at h
      split at h
      · obtain ⟨rfl, rfl⟩ := Prod.mk.inj (Option.some.inj h)
        exact ⟨rfl, hstay, fun t ht => Mem2State.fillData_ran ht⟩
      · cases h
      · obtain ⟨rfl, rfl⟩ := Prod.mk.inj (Option.some.inj h)
        exact ⟨rfl, s.cpu.loadPhys_eq m.paddr m.ctrl.width, fun t ht => Mem2State.fillData_ran ht⟩
    · split at h
      · obtain ⟨rfl, rfl⟩ := Prod.mk.inj (Option.some.inj h)
        refine ⟨rfl, ?_, fun t ht => Or.inl ?_⟩
        · rw [Mem2State.checkViolation_cpu]
          exact hstay
        · have hran := Mem2State.checkViolation_ran ht
          exact hran
      · obtain ⟨rfl, rfl⟩ := Prod.mk.inj (Option.some.inj h)
        exact ⟨rfl, hstay, fun t ht => Or.inl ht⟩

/-- What a batch does: entries stay or go on, only the units of the core change, and a load that
ran, or is found to have run too early, ran before or is in the batch. -/
structure Mem2Moved (s : Mem2State U) (input : List Mem1Mem2Entry)
    (r : List Mem1Mem2Entry × List Mem2WbEntry × Mem2State U) : Prop where
  moved : (r.1.map Mem1Mem2Entry.dest ++ r.2.1.map Mem2WbEntry.dest).Perm (input.map Mem1Mem2Entry.dest)
  core : ∃ u, r.2.2.cpu = { s.cpu with units := u }
  ran : ∀ t, r.2.2.Ran t → s.Ran t ∨ t ∈ input.map (·.robTag)

theorem memory2Loop_moved (input : List Mem1Mem2Entry) (s : Mem2State U) :
    Mem2Moved s input (memory2Loop s input) := by
  induction input generalizing s with
  | nil => exact ⟨List.Perm.refl _, ⟨s.cpu.units, rfl⟩, fun t ht => Or.inl ht⟩
  | cons m rest ih =>
    rw [memory2Loop]
    split
    · exact ⟨List.perm_append_comm, ⟨s.cpu.units, rfl⟩, fun t ht => Or.inl ht⟩
    · split
      · exact ⟨by simp, ⟨s.cpu.units, rfl⟩, fun t ht => Or.inl ht⟩
      · rename_i wb s' hone
        have hspec := memory2One_spec hone
        obtain ⟨hp, ⟨u', hu'⟩, hran⟩ := ih s'
        obtain ⟨u, hu⟩ := hspec.core
        refine ⟨?_, ⟨u', by rw [hu', hu]⟩, fun t ht => ?_⟩
        · simp only [List.map_cons, hspec.dest]
          exact List.perm_middle.trans (hp.cons _)
        · rcases hran t ht with h' | h'
          · rcases hspec.ran t h' with h'' | rfl
            · exact Or.inl h''
            · exact Or.inr (by simp)
          · exact Or.inr (by simp [h'])

/-- **Memory2 moves, it does not lose or copy.** -/
theorem memory2Stage_moved (input : List Mem1Mem2Entry) (s : Mem2State U) :
    Mem2Moved s input (memory2Stage s input) := by
  obtain ⟨hp, hu, hran⟩ := memory2Loop_moved (sortByRawTag input) s
  have hsort := List.perm_insertionSort (fun a b : Mem1Mem2Entry => a.robTag.toNat ≤ b.robTag.toNat) input
  refine ⟨hp.trans (hsort.map _), hu, fun t ht => ?_⟩
  rcases hran t ht with h' | h'
  · exact Or.inl h'
  · exact Or.inr ((hsort.map _).mem_iff.mp h')

end Memory

/-! ### The engine as a flight -/

namespace O3State

/-- Issued instructions without a result: in the latches, pending, or behind a miss. A pending
result that is already written is kept for the timing of its unit only. -/
def flying (s : O3State U) : List (RobTag × PhysReg) :=
  (s.eng.pendingResults.filter fun p => !p.speculativeWritten).map (fun p => p.entry.dest) ++
    (s.eng.executeMem1.map ExMem1Entry.dest ++
      (s.eng.mem1Mem2.map Mem1Mem2Entry.dest ++
        (s.eng.mem2Wb.map Mem2WbEntry.dest ++ s.cpu.l1dMshrs.parked.map Mem1Mem2Entry.dest)))

def waiting (s : O3State U) : List RenameIssueEntry :=
  s.eng.iq.bares ++ s.renameOutput.map RenameIssueEntry.bare

def flight (s : O3State U) : Flight where
  rob := s.eng.rob
  freeList := s.eng.freeList
  renameMap := s.eng.renameMap
  committedMap := s.eng.committedMap
  checkpoints := s.eng.checkpoints
  prf := s.eng.prf
  regs := s.cpu.regs
  waiting := s.waiting
  flying := s.flying

/-- The same in the middle of the issue loop: `sel` is selected and still to be handled. -/
def flightWith (s : O3State U) (sel : List RenameIssueEntry) : Flight :=
  { s.flight with waiting := sel.map RenameIssueEntry.bare ++ s.waiting }

end O3State

/-- Raw tags grow along the buffer: no wrap of the counter falls between two entries. -/
def Rob.NoWrap (r : Rob) : Prop := (r.entries.map fun e => e.tag.toNat).Pairwise (· < ·)

theorem Rob.NoWrap.sublist {r r' : Rob} (hn : r.NoWrap)
    (h : (r'.entries.map (·.tag)).Sublist (r.entries.map (·.tag))) : r'.NoWrap := by
  have hmap : ∀ r : Rob, r.entries.map (fun e => e.tag.toNat) = (r.entries.map (·.tag)).map BitVec.toNat :=
    fun r => by simp [List.map_map, Function.comp_def]
  unfold Rob.NoWrap at *
  rw [hmap] at hn ⊢
  exact List.Pairwise.sublist (h.map _) hn

/-- Within a tick nothing is allocated before rename: tags and checkpoints only go. -/
structure O3State.Within (b s : O3State U) : Prop where
  next : s.eng.rob.nextTag = b.eng.rob.nextTag
  tags : (s.eng.rob.entries.map (·.tag)).Sublist (b.eng.rob.entries.map (·.tag))
  ckpts : ∀ c ∈ s.eng.checkpoints.live, c ∈ b.eng.checkpoints.live

namespace O3State.Within

variable {a b c : O3State U}

theorem refl (s : O3State U) : Within s s := ⟨rfl, List.Sublist.refl _, fun _ h => h⟩

theorem trans (h : Within a b) (h' : Within b c) : Within a c :=
  ⟨h'.next.trans h.next, h'.tags.trans h.tags, fun x hx => h.ckpts x (h'.ckpts x hx)⟩

theorem noWrap (h : Within a b) (hn : a.eng.rob.NoWrap) : b.eng.rob.NoWrap := hn.sublist h.tags

end O3State.Within

/-- Everything that is not waiting for dispatch, and every load that ran, is older than `t`. -/
structure O3State.NewerThanAll (s : O3State U) (t : RobTag) : Prop where
  entries : ∀ e ∈ s.eng.rob.entries, e.tag ∉ s.renameOutput.map (·.robTag) →
    Serial.age s.eng.rob.nextTag t < Serial.age s.eng.rob.nextTag e.tag
  loads : ∀ u ∈ s.eng.lq.ran, Serial.age s.eng.rob.nextTag t < Serial.age s.eng.rob.nextTag u

/-- What holds of the engine at every stage boundary. -/
structure O3Inv (D : Prop) (total : Nat) (s : O3State U) : Prop where
  flight : FlightInv D total s.flight
  mshrs : s.cpu.l1dMshrs.Ok
  written : ∀ p ∈ s.eng.pendingResults, p.speculativeWritten = true → p.entry.ctrl.isMem = false
  room : s.eng.iq.Room s.renameOutput.length
  noWrap : D → s.eng.rob.NoWrap
  young : ∀ w ∈ s.renameOutput, s.NewerThanAll w.robTag
  ran : ∀ u ∈ s.eng.lq.ran, 0 < Serial.age s.eng.rob.nextTag u ∧
    Serial.age s.eng.rob.nextTag u < Serial.half 32

/-- The invariant with `sel` taken off the queue. -/
structure O3Selected (D : Prop) (total : Nat) (s : O3State U) (sel : List RenameIssueEntry) : Prop where
  flight : FlightInv D total (s.flightWith sel)
  mshrs : s.cpu.l1dMshrs.Ok
  written : ∀ p ∈ s.eng.pendingResults, p.speculativeWritten = true → p.entry.ctrl.isMem = false
  room : s.eng.iq.Room (sel.length + s.renameOutput.length)
  noWrap : D → s.eng.rob.NoWrap
  young : ∀ w ∈ s.renameOutput, s.NewerThanAll w.robTag
  ran : ∀ u ∈ s.eng.lq.ran, 0 < Serial.age s.eng.rob.nextTag u ∧
    Serial.age s.eng.rob.nextTag u < Serial.half 32

variable {D : Prop} {total : Nat} {s : O3State U}

theorem O3Inv.selected (h : O3Inv D total s) : O3Selected D total s [] :=
  ⟨h.flight, h.mshrs, h.written, by simpa using h.room, h.noWrap, h.young, h.ran⟩

theorem O3Selected.inv (h : O3Selected D total s []) : O3Inv D total s :=
  ⟨h.flight, h.mshrs, h.written, by simpa using h.room, h.noWrap, h.young, h.ran⟩

end Rvsim
