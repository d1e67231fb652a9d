/-
# What the stages do to device loads

Memory2 passes the device loads in front of it in the order of their tags, over
the bus unless an older store has their bytes, and finds violations only of
loads that are newer than a store it resolves. Commit leaves the bounds of RAM
and of HTIF, brings up no older store and no load, and stops neither for a trap
nor for a redirect in front of an entry whose predecessors go on.

Key definitions:
  - `Carried.signals`, `StoreBuffer.Eases`, `CommitState.Eases`
Key theorems:
  - `mem2Devices_bus`, `memory2Loop_noted`, `memory2Loop_violation`
  - `commitStage_head`, `commitStage_eases`, `commitStage_through`
-/
import Rvsim.DeviceReads
import Rvsim.InstretFlow

namespace Rvsim

variable {U : Type}

/-! ### The store buffer and the load queue -/

namespace StoreBuffer

variable {b : StoreBuffer} {a : PhysAddr} {w : MemWidth} {t tag : RobTag}

theorem hasOlderStoreTo_eq_false : b.hasOlderStoreTo a w t = false ↔
    ∀ e ∈ b.entries, RobTag.isOlderThan e.robTag t = true → conflicts e a w = false := by
  simp [hasOlderStoreTo]

/-- Where no older store has the bytes, nothing is forwarded. -/
theorem forwardLoad_of_none (h : b.hasOlderStoreTo a w t = false) : b.forwardLoad a w t = .miss := by
  have hscan : ∀ es : List StoreBufferEntry, (∀ e ∈ es, e ∈ b.entries) → forwardScan a w t es = .miss := by
    intro es
    induction es with
    | nil => exact fun _ => rfl
    | cons e es ih =>
      intro hes
      have hrest := ih fun x hx => hes x (List.mem_cons_of_mem _ hx)
      rw [forwardScan]
      by_cases ho : RobTag.isOlderThan e.robTag t = true
      · have hno := hasOlderStoreTo_eq_false.mp h e (hes e List.mem_cons_self) ho
        have hfrom : forwardFrom e a w = none := by
          unfold conflicts at hno
          unfold forwardFrom StoreResolution.access
          cases hr : e.resolution with
          | pending => rfl
          | cancelled => rfl
          | ready a' d =>
            rw [hr] at hno
            exact if_neg (by simpa using hno)
          | committed a' d =>
            rw [hr] at hno
            exact if_neg (by simpa using hno)
        rw [if_pos ho, hfrom]
        exact hrest
      · rw [if_neg ho]
        exact hrest
  exact hscan b.entries.reverse fun e he => List.mem_reverse.mp he

theorem mem_modifyFirst {f : StoreBufferEntry → StoreBufferEntry} {es : List StoreBufferEntry}
    {x : StoreBufferEntry} (h : x ∈ modifyFirst tag f es) : x ∈ es ∨ ∃ e ∈ es, e.robTag = tag ∧ x = f e := by
  induction es with
  | nil => exact absurd h List.not_mem_nil
  | cons e es ih =>
    rw [modifyFirst] at h
    split at h
    · rename_i ht
      rcases List.mem_cons.mp h with rfl | h
      · exact Or.inr ⟨e, List.mem_cons_self, ht, rfl⟩
      · exact Or.inl (List.mem_cons_of_mem _ h)
    · rcases List.mem_cons.mp h with rfl | h
      · exact Or.inl List.mem_cons_self
      · refine (ih h).imp (List.mem_cons_of_mem _) ?_
        rintro ⟨y, hy, hrest⟩
        exact ⟨y, List.mem_cons_of_mem _ hy, hrest⟩

/-- A store that is not older changes nothing. -/
theorem hasOlderStoreTo_resolve (h : b.hasOlderStoreTo a w t = false) (hn : RobTag.isOlderThan tag t = false)
    (va : VirtAddr) (pa : PhysAddr) (d : U64) : (b.resolve tag va pa d).hasOlderStoreTo a w t = false := by
  rw [hasOlderStoreTo_eq_false] at h ⊢
  intro e he ho
  rcases mem_modifyFirst he with he | ⟨x, -, hx, rfl⟩
  · exact h e he ho
  · change RobTag.isOlderThan x.robTag t = true at ho
    rw [hx, hn] at ho
    exact absurd ho (by decide)

end StoreBuffer

namespace LoadQueue

variable {q : LoadQueue} {t : RobTag}

/-- The loads in the queue. -/
def live (q : LoadQueue) : List RobTag := (q.entries.filter (·.valid)).map (·.robTag)

theorem mem_live : t ∈ q.live ↔ ∃ e ∈ q.entries, e.valid = true ∧ e.robTag = t := by
  simp [live, and_assoc]

theorem live_fillData (tag : RobTag) (d : U64) (h : t ∈ (q.fillData tag d).live) : t ∈ q.live := by
  obtain ⟨x, hx, hv, ht⟩ := mem_live.mp h
  rcases mem_modifyFirst hx with hx | ⟨e, he, -, rfl⟩
  · exact mem_live.mpr ⟨x, hx, hv, ht⟩
  · exact mem_live.mpr ⟨e, he, hv, ht⟩

theorem live_deallocate (tag : RobTag) (h : t ∈ (q.deallocate tag).live) : t ∈ q.live := by
  obtain ⟨x, hx, hv, ht⟩ := mem_live.mp h
  refine mem_live.mpr ⟨x, ?_, hv, ht⟩
  unfold deallocate at hx
  split at hx
  · exact hx
  · rename_i e rest heq
    rw [heq]
    split at hx
    · exact List.mem_cons_of_mem _ hx
    · split at hx
      · rcases mem_modifyFirst ((List.dropWhile_sublist _).subset hx) with hx | ⟨e, -, -, rfl⟩
        · exact heq ▸ hx
        · exact absurd hv (by simp)
      · exact heq ▸ hx

/-- A violation is of a load in the queue that is newer than the store. -/
theorem checkOrderingViolation_newer {a : PhysAddr} {w : MemWidth} {tag : RobTag}
    (h : q.checkOrderingViolation a w tag = some t) : t ∈ q.live ∧ RobTag.isNewerThan t tag = true := by
  have hfold : ∀ (es : List LoadQueueEntry) (acc : Option RobTag), (∀ x ∈ es, x ∈ q.entries) →
      (∀ u ∈ acc, u ∈ q.live ∧ RobTag.isNewerThan u tag = true) → ∀ u ∈ es.foldl
        (fun acc e => if violates a w tag e then older acc e.robTag else acc) acc,
          u ∈ q.live ∧ RobTag.isNewerThan u tag = true := by
    intro es
    induction es with
    | nil => exact fun acc _ hacc => hacc
    | cons e es ih =>
      intro acc hes hacc
      refine ih _ (fun x hx => hes x (List.mem_cons_of_mem _ hx)) fun u hu => ?_
      dsimp only at hu
      by_cases hv : violates a w tag e = true
      · rw [if_pos hv] at hu
        have hnew : e.robTag ∈ q.live ∧ RobTag.isNewerThan e.robTag tag = true := by
          unfold violates at hv
          simp only [Bool.and_eq_true] at hv
          exact ⟨mem_live.mpr ⟨e, hes e List.mem_cons_self, hv.1.1.1, rfl⟩, hv.1.1.2⟩
        unfold older at hu
        split at hu
        · exact Option.some.inj hu ▸ hnew
        · split at hu
          · exact Option.some.inj hu ▸ hnew
          · exact hacc u hu
      · rw [if_neg hv] at hu
        exact hacc u hu
  exact hfold q.entries none (fun _ hx => hx) (fun u hu => absurd hu (by simp)) t h

end LoadQueue

/-! ### Memory2 -/

namespace Carried

/-- The instruction's control signals. -/
def signals : Carried (RobTag × ControlSignals) where
  ex e := (e.robTag, e.ctrl)
  mem m := (m.robTag, m.ctrl)
  wb w := (w.robTag, w.ctrl)
  toMem2 _ _ _ _ _ _ := rfl
  ready _ _ := rfl
  toWb _ _ _ _ := rfl

end Carried

namespace Mem2State

variable {s : Mem2State U} {m : Mem1Mem2Entry} {t : RobTag} {pc : U64}

/-- The loads that the queue holds. -/
def loads (s : Mem2State U) : List RobTag := s.lq.elim [] LoadQueue.live

theorem checkViolation_sb (s : Mem2State U) (m : Mem1Mem2Entry) :
    (s.checkViolation m).sb = s.sb ∧ (s.checkViolation m).lq = s.lq := by
  unfold checkViolation
  split
  · exact ⟨rfl, rfl⟩
  · split
    · exact ⟨rfl, rfl⟩
    · split <;> exact ⟨rfl, rfl⟩

theorem checkViolation_newer (h : (s.checkViolation m).violation = some (t, pc)) :
    s.violation = some (t, pc) ∨ (t ∈ s.loads ∧ RobTag.isNewerThan t m.robTag = true) := by
  unfold checkViolation at h
  cases hq : s.lq.bind fun q => q.checkOrderingViolation m.paddr m.ctrl.width m.robTag with
  | none =>
    rw [hq] at h
    exact Or.inl h
  | some u =>
    obtain ⟨q, hlq, hu⟩ := Option.bind_eq_some_iff.mp hq
    have hnew : u ∈ s.loads ∧ RobTag.isNewerThan u m.robTag = true := by
      unfold loads
      rw [hlq]
      exact LoadQueue.checkOrderingViolation_newer hu
    simp only [hq] at h
    split at h
    · obtain ⟨rfl, -⟩ := Prod.mk.inj (Option.some.inj h)
      exact Or.inr hnew
    · split at h
      · obtain ⟨rfl, -⟩ := Prod.mk.inj (Option.some.inj h)
        exact Or.inr hnew
      · exact Or.inl h

end Mem2State

section

variable [Units U] {s s' : Mem2State U} {m : Mem1Mem2Entry} {wb : Mem2WbEntry}

/-- What one entry does to store buffer, load queue and violation: it leaves them, or it is a store that resolves. -/
theorem memory2One_effect (h : memory2One s m = some (wb, s')) :
    (s'.sb = s.sb ∧ s'.violation = s.violation ∧ ∀ t ∈ s'.loads, t ∈ s.loads) ∨
      (m.ctrl.resolves = true ∧ ∃ (cpu : Cpu U) (d : U64),
        s' = (({ s with cpu := cpu } : Mem2State U).resolve m d).checkViolation m) := by
  have hfill : ∀ (cpu : Cpu U) (d : U64),
      ∀ t ∈ ({ s with cpu := cpu, lq := s.lq.map fun q => q.fillData m.robTag d } : Mem2State U).loads,
        t ∈ s.loads := by
    intro cpu d t ht
    unfold Mem2State.loads at ht ⊢
    cases hq : s.lq with
    | none => simp [hq] at ht
    | some q =>
      simp only [hq, Option.map_some, Option.elim_some] at ht ⊢
      exact LoadQueue.live_fillData _ _ ht
  unfold memory2One at h
  split at h
  · rename_i hop
    unfold mem2Atomic at h
    split at h
    · split at h
      · cases h
      · obtain ⟨-, rfl⟩ := Prod.mk.inj (Option.some.inj h)
        exact Or.inl ⟨rfl, rfl, fun _ ht => ht⟩
    · rename_i hsc
      obtain ⟨-, rfl⟩ := Prod.mk.inj (Option.some.inj h)
      refine Or.inr ⟨?_, s.cpu, _, rfl⟩
      unfold ControlSignals.resolves
      simp [hsc]
    · rename_i hlr hsc
      split at h
      · cases h
      · obtain ⟨-, rfl⟩ := Prod.mk.inj (Option.some.inj h)
        refine Or.inr ⟨?_, _, _, rfl⟩
        unfold ControlSignals.resolves
        rw [if_neg hop]
        simpa using hlr
  · rename_i hop
    have hop' : m.ctrl.atomicOp = .none := not_not.mp hop
    split at h
    · unfold mem2Load at h
      split at h
      · obtain ⟨-, rfl⟩ := Prod.mk.inj (Option.some.inj h)
        exact Or.inl ⟨rfl, rfl, hfill s.cpu _⟩
      · cases h
      · obtain ⟨-, rfl⟩ := Prod.mk.inj (Option.some.inj h)
        exact Or.inl ⟨rfl, rfl, hfill _ _⟩
    · rename_i hr
      split at h
      · rename_i hw
        obtain ⟨-, rfl⟩ := Prod.mk.inj (Option.some.inj h)
        refine Or.inr ⟨?_, s.cpu, _, rfl⟩
        unfold ControlSignals.resolves
        simp [hop', hr, hw]
      · obtain ⟨-, rfl⟩ := Prod.mk.inj (Option.some.inj h)
        exact Or.inl ⟨rfl, rfl, fun _ ht => ht⟩

theorem memory2One_loads (h : memory2One s m = some (wb, s')) : ∀ t ∈ s'.loads, t ∈ s.loads := by
  rcases memory2One_effect h with ⟨-, -, hl⟩ | ⟨-, cpu, d, rfl⟩
  · exact hl
  · intro t ht
    unfold Mem2State.loads at ht
    rw [(Mem2State.checkViolation_sb _ m).2] at ht
    exact ht

/-- Accesses land where they did. -/
theorem memory2One_deviceRead (h : memory2One s m = some (wb, s')) (x : Mem1Mem2Entry) :
    x.deviceRead s'.cpu = x.deviceRead s.cpu := by
  obtain ⟨u, hu⟩ := (memory2One_spec h).core
  rw [hu]
  rfl

/-- What memory2 passes stands in its latch, and in the same order. -/
theorem mem2Devices_sublist (s : Mem2State U) (es : List Mem1Mem2Entry) :
    ((mem2Devices s es).map (·.tag)).Sublist (es.map (·.robTag)) := by
  induction es generalizing s with
  | nil => exact List.Sublist.refl _
  | cons m rest ih =>
    rw [mem2Devices]
    cases m.trap with
    | some t => exact List.nil_sublist _
    | none =>
      dsimp only
      rcases hone : memory2One s m with _ | ⟨wb, s'⟩
      · exact List.nil_sublist _
      · dsimp only
        have haccess : ((mem2Access s m).map (·.tag)).Sublist [m.robTag] := by
          unfold mem2Access
          cases m.deviceRead s.cpu with
          | none => exact List.nil_sublist _
          | some r => exact List.Sublist.refl _
        rw [List.map_append, List.map_cons]
        exact haccess.append (ih s')

omit [Units U] in
theorem mem_mem2Access {a : DeviceAccess} : a ∈ mem2Access s m ↔
    m.deviceRead s.cpu = some a.read ∧ a.tag = m.robTag ∧ a.bus = s.asksBus m := by
  unfold mem2Access
  obtain ⟨tag, read, bus⟩ := a
  cases m.deviceRead s.cpu with
  | none => simp
  | some r => simp [eq_comm, and_left_comm]

/-- A device access that memory2 passes is of an entry without a trap. -/
theorem mem_mem2Devices {es : List Mem1Mem2Entry} {a : DeviceAccess} (ha : a ∈ mem2Devices s es) :
    ∃ m ∈ es, m.trap = none ∧ a.tag = m.robTag ∧ m.deviceRead s.cpu = some a.read := by
  induction es generalizing s with
  | nil => exact absurd ha List.not_mem_nil
  | cons m rest ih =>
    rw [mem2Devices] at ha
    cases ht : m.trap with
    | some t =>
      rw [ht] at ha
      exact absurd ha List.not_mem_nil
    | none =>
      rw [ht] at ha
      dsimp only at ha
      rcases hone : memory2One s m with _ | ⟨wb, s'⟩
      · rw [hone] at ha
        exact absurd ha List.not_mem_nil
      · rw [hone] at ha
        rcases List.mem_append.mp ha with ha | ha
        · obtain ⟨hread, htag, -⟩ := mem_mem2Access.mp ha
          exact ⟨m, List.mem_cons_self, ht, htag, hread⟩
        · obtain ⟨x, hx, hxt, htag, hread⟩ := ih ha
          exact ⟨x, List.mem_cons_of_mem _ hx, hxt, htag, memory2One_deviceRead hone x ▸ hread⟩

/-- **Over the bus.** A device load reads its device if no older store has its bytes, or resolves before it. -/
theorem mem2Devices_bus {es : List Mem1Mem2Entry} (h : ∀ m ∈ es, m.trap = none → (m.deviceRead s.cpu).isSome →
      m.ctrl.atomicOp = .none → s.sb.hasOlderStoreTo m.paddr m.ctrl.width m.robTag = false ∧
        ∀ x ∈ es, x.trap = none → x.ctrl.resolves = true → RobTag.isOlderThan x.robTag m.robTag = false) :
    ∀ a ∈ mem2Devices s es, a.bus = true := by
  induction es generalizing s with
  | nil => exact fun a ha => absurd ha List.not_mem_nil
  | cons m rest ih =>
    intro a ha
    rw [mem2Devices] at ha
    cases ht : m.trap with
    | some t =>
      rw [ht] at ha
      exact absurd ha List.not_mem_nil
    | none =>
      rw [ht] at ha
      dsimp only at ha
      rcases hone : memory2One s m with _ | ⟨wb, s'⟩
      · rw [hone] at ha
        exact absurd ha List.not_mem_nil
      · rw [hone] at ha
        rcases List.mem_append.mp ha with ha | ha
        · obtain ⟨hread, -, hbus⟩ := mem_mem2Access.mp ha
          rw [hbus]
          unfold Mem2State.asksBus
          by_cases hop : m.ctrl.atomicOp = .none
          · have hno := (h m List.mem_cons_self ht (by rw [hread]; rfl) hop).1
            simp [StoreBuffer.forwardLoad_of_none hno]
          · simp [hop]
        · refine ih (fun x hx hxt hxr hop => ?_) a ha
          rw [memory2One_deviceRead hone] at hxr
          obtain ⟨hno, hnew⟩ := h x (List.mem_cons_of_mem _ hx) hxt hxr hop
          refine ⟨?_, fun y hy => hnew y (List.mem_cons_of_mem _ hy)⟩
          rcases memory2One_effect hone with ⟨hsb, -⟩ | ⟨hres, cpu, d, rfl⟩
          · rw [hsb]
            exact hno
          · rw [(Mem2State.checkViolation_sb _ m).1]
            exact StoreBuffer.hasOlderStoreTo_resolve hno (hnew m List.mem_cons_self ht hres) _ _ _

/-- A violation is found by a store that resolves, of a newer load. -/
theorem memory2Loop_violation {es : List Mem1Mem2Entry} {t : RobTag} {pc : U64}
    (h : (memory2Loop s es).2.2.violation = some (t, pc)) : s.violation = some (t, pc) ∨
      ∃ m ∈ es, m.trap = none ∧ m.ctrl.resolves = true ∧ t ∈ s.loads ∧ RobTag.isNewerThan t m.robTag = true := by
  induction es generalizing s with
  | nil => exact Or.inl h
  | cons m rest ih =>
    rw [memory2Loop] at h
    cases ht : m.trap with
    | some t =>
      rw [ht] at h
      exact Or.inl h
    | none =>
      rw [ht] at h
      dsimp only at h
      rcases hone : memory2One s m with _ | ⟨wb, s'⟩
      · rw [hone] at h
        exact Or.inl h
      · rw [hone] at h
        rcases ih h with hv | ⟨x, hx, hxt, hres, hlive, hnew⟩
        · rcases memory2One_effect hone with ⟨-, hsame, -⟩ | ⟨hres, cpu, d, rfl⟩
          · exact Or.inl (hsame ▸ hv)
          · rcases Mem2State.checkViolation_newer hv with hv | ⟨hlive, hnew⟩
            · exact Or.inl hv
            · exact Or.inr ⟨m, List.mem_cons_self, ht, hres, hlive, hnew⟩
        · exact Or.inr ⟨x, List.mem_cons_of_mem _ hx, hxt, hres, memory2One_loads hone _ hlive, hnew⟩

/-- What leaves memory2 without a trap is noted, if it reads a device. -/
theorem memory2Loop_noted {es : List Mem1Mem2Entry} :
    ∀ wb ∈ (memory2Loop s es).2.1, wb.trap = none → ∃ m ∈ es, m.trap = none ∧ wb.robTag = m.robTag ∧
      wb.ctrl = m.ctrl ∧ ∀ r, m.deviceRead s.cpu = some r → ∃ a ∈ mem2Devices s es, a.tag = m.robTag ∧ a.read = r := by
  induction es generalizing s with
  | nil => exact fun wb hwb => absurd hwb List.not_mem_nil
  | cons m rest ih =>
    rw [memory2Loop, mem2Devices]
    cases ht : m.trap with
    | some t =>
      intro wb hwb hnone
      rw [List.mem_singleton.mp hwb] at hnone
      exact absurd hnone (by simp [Mem1Mem2Entry.toWb])
    | none =>
      dsimp only
      rcases hone : memory2One s m with _ | ⟨wb', s'⟩
      · exact fun wb hwb => absurd hwb List.not_mem_nil
      · dsimp only
        intro wb hwb hnone
        rcases List.mem_cons.mp hwb with rfl | hwb
        · obtain ⟨htag, hctrl⟩ := Prod.mk.inj (memory2One_carried Carried.signals hone)
          refine ⟨m, List.mem_cons_self, ht, htag, hctrl, fun r hr => ?_⟩
          exact ⟨⟨m.robTag, r, s.asksBus m⟩, List.mem_append_left _ (mem_mem2Access.mpr ⟨hr, rfl, rfl⟩), rfl, rfl⟩
        · obtain ⟨x, hx, hxt, htag, hctrl, hnote⟩ := ih wb hwb hnone
          refine ⟨x, List.mem_cons_of_mem _ hx, hxt, htag, hctrl, fun r hr => ?_⟩
          obtain ⟨a, ha, hat, har⟩ := hnote r ((memory2One_deviceRead hone x).trans hr)
          exact ⟨a, List.mem_append_right _ ha, hat, har⟩

end

/-! ### The buffer's tags through the stages -/

theorem Rob.tags_modify (r : Rob) (tag : RobTag) {f : RobEntry → RobEntry} (hf : ∀ e, (f e).tag = e.tag) :
    (r.modify tag f).tags = r.tags := by
  unfold Rob.tags Rob.modify
  rw [List.map_map]
  refine List.map_congr_left fun e _ => ?_
  by_cases h : e.tag = tag
  · simp [h, hf]
  · simp [h]

theorem Rob.tags_complete (r : Rob) (tag : RobTag) (v : U64) : (r.complete tag v).tags = r.tags :=
  O3.complete_tags r tag v

theorem Rob.tags_flushAfter (r : Rob) (tag : RobTag) : (r.flushAfter tag).tags.Sublist r.tags := by
  have hkeep : ∀ es : List RobEntry, (Rob.keepThrough tag es).Sublist es := by
    intro es
    induction es with
    | nil => exact List.Sublist.refl _
    | cons e rest ih =>
      rw [Rob.keepThrough]
      split
      · exact List.Sublist.cons_cons e (List.nil_sublist rest)
      · exact ih.cons_cons e
  exact (hkeep r.entries).map _

theorem tags_writebackOne (r : Rob) (wb : Mem2WbEntry) : (writebackOne r wb).tags = r.tags := by
  unfold writebackOne
  cases wb.trap with
  | some t => exact r.tags_modify wb.robTag fun _ => rfl
  | none => exact (Rob.tags_complete _ _ _).trans (r.tags_modify wb.robTag fun _ => rfl)

theorem tags_writebackStage (r : Rob) (wbs : List Mem2WbEntry) : (writebackStage r wbs).tags = r.tags := by
  unfold writebackStage
  induction wbs generalizing r with
  | nil => rfl
  | cons wb wbs ih => exact (ih _).trans (tags_writebackOne r wb)

section

variable [Units U]

omit [Units U] in
theorem CommitState.unblocked {c : CommitState U} {e : RobEntry} (h : ¬c.headBlocked e = true) : e.state ≠ .issued := by
  intro hs
  simp [CommitState.headBlocked, hs] at h

/-- Commit takes finished entries off the head, and leaves the rest as it was. -/
theorem commitLoop_head (n : Nat) (c : CommitState U) :
    ∃ gone, c.rob.entries = gone ++ (commitLoop n c).2.rob.entries ∧ ∀ e ∈ gone, e.state ≠ .issued := by
  have hnone : ∀ e ∈ ([] : List RobEntry), e.state ≠ .issued := fun e h => absurd h List.not_mem_nil
  induction n generalizing c with
  | zero => exact ⟨[], rfl, hnone⟩
  | succ n ih =>
    rw [commitLoop]
    cases he : c.rob.entries with
    | nil => exact ⟨[], he.symm, hnone⟩
    | cons e rest =>
      dsimp only
      by_cases hb : c.headBlocked e
      · rw [if_pos hb]
        exact ⟨[], he.symm, hnone⟩
      · have hone : ∀ x ∈ [e], x.state ≠ .issued := fun x hx =>
          List.mem_singleton.mp hx ▸ CommitState.unblocked hb
        rw [if_neg hb]
        by_cases hf : e.state = .faulted
        · rw [if_pos hf]
          refine ⟨[e], ?_, hone⟩
          unfold CommitState.retireFault
          cases e.trap <;> rfl
        · rw [if_neg hf]
          have hrob := (CommitState.retire_frame { c with rob := { c.rob with entries := rest } } e).1
          rcases hr : CommitState.retire { c with rob := { c.rob with entries := rest } } e with ⟨go, c'⟩
          rw [hr] at hrob
          have hrest : c'.rob.entries = rest := congrArg Rob.entries hrob
          cases go with
          | true =>
            obtain ⟨gone, hgone, hst⟩ := ih c'
            refine ⟨[e] ++ gone, ?_, fun x hx => (List.mem_append.mp hx).elim (hone x) (hst x)⟩
            rw [← hrest, hgone]
            rfl
          | false =>
            refine ⟨[e], ?_, hone⟩
            rw [← hrest]
            rfl

theorem commitStage_head (c : CommitState U) (width : Nat) :
    ∃ gone, c.rob.entries = gone ++ (commitStage c width).2.rob.entries ∧ ∀ e ∈ gone, e.state ≠ .issued := by
  have hnone : ∀ e ∈ ([] : List RobEntry), e.state ≠ .issued := fun e h => absurd h List.not_mem_nil
  unfold commitStage
  cases checkInterrupts c.cpu with
  | some t => exact ⟨[], rfl, hnone⟩
  | none =>
    dsimp only
    by_cases hw : c.cpu.wfiWaiting
    · rw [if_pos hw]
      exact ⟨[], rfl, hnone⟩
    · rw [if_neg hw]
      exact commitLoop_head width c

end

/-! ### Commit -/

namespace Cpu

/-- What decides where an access lands. -/
def bounds (c : Cpu U) : PhysAddr × PhysAddr × Option (PhysAddr × PhysAddr) := (c.ramStart, c.ramEnd, c.htifRange)

theorem landsAt_of_bounds {c c' : Cpu U} (h : c'.bounds = c.bounds) (a : PhysAddr) : c'.landsAt a = c.landsAt a := by
  obtain ⟨hs, hrest⟩ := Prod.mk.inj h
  obtain ⟨he, hh⟩ := Prod.mk.inj hrest
  unfold landsAt isRam inHtif
  rw [hs, he, hh]

theorem trap_bounds (c : Cpu U) (t : Trap) (epc : U64) : (c.trap t epc).bounds = c.bounds := by
  simp only [trap, trapToS, trapToM, apply_ite bounds]
  simp only [bounds, ite_self]

section

variable [Units U]

theorem csrWrite_bounds (c : Cpu U) (a : CsrAddr) (v : U64) : (c.csrWrite a v).bounds = c.bounds := by
  have ht := c.trap_bounds (.requestedTrap v) c.pc
  simp only [csrWrite, apply_ite bounds, ht]
  simp only [bounds, ite_self]

theorem writeStoreToMemory_bounds (c : Cpu U) (a : PhysAddr) (d : U64) (w : MemWidth) :
    (c.writeStoreToMemory a d w).bounds = c.bounds ∧ (c.writeStoreToMemory a d w).pc = c.pc := by
  unfold writeStoreToMemory
  split
  · exact ⟨rfl, rfl⟩
  · split <;> exact ⟨rfl, rfl⟩

end

end Cpu

section

variable [Units U]

theorem drainOneStore_bounds (c : Cpu U) (sb : StoreBuffer) :
    (drainOneStore c sb).1.bounds = c.bounds ∧ (drainOneStore c sb).1.pc = c.pc := by
  unfold drainOneStore
  split
  · exact ⟨rfl, rfl⟩
  · split
    · dsimp only
      rw [(Cpu.writeStoreToMemory_bounds _ _ _ _).1, (Cpu.writeStoreToMemory_bounds _ _ _ _).2]
      split <;> exact ⟨rfl, rfl⟩
    · exact ⟨rfl, rfl⟩

theorem drainCommitted_bounds (c : Cpu U) (es : List StoreBufferEntry) :
    (drainCommitted c es).1.bounds = c.bounds ∧ (drainCommitted c es).1.pc = c.pc := by
  induction es generalizing c with
  | nil => exact ⟨rfl, rfl⟩
  | cons e rest ih =>
    rw [drainCommitted_cons]
    cases e.resolution with
    | committed a d =>
      dsimp only
      rw [(ih _).1, (ih _).2, (Cpu.writeStoreToMemory_bounds _ _ _ _).1, (Cpu.writeStoreToMemory_bounds _ _ _ _).2]
      split <;> exact ⟨rfl, rfl⟩
    | cancelled => exact ih c
    | _ => exact ⟨rfl, rfl⟩

theorem drainCommitted_suffix (c : Cpu U) (es : List StoreBufferEntry) : (drainCommitted c es).2 <:+ es := by
  induction es generalizing c with
  | nil => exact List.suffix_rfl
  | cons e rest ih =>
    rw [drainCommitted_cons]
    cases e.resolution with
    | committed a d => exact (ih _).trans (List.suffix_cons e rest)
    | cancelled => exact (ih c).trans (List.suffix_cons e rest)
    | _ => exact List.suffix_rfl

end

namespace StoreBuffer

variable {b b' : StoreBuffer}

/-- What no older store has before, no older store has afterwards. -/
def Eases (b b' : StoreBuffer) : Prop := ∀ e' ∈ b'.entries, ∃ e ∈ b.entries, e'.robTag = e.robTag ∧
  ∀ a w, conflicts e a w = false → conflicts e' a w = false

theorem Eases.of_subset (h : ∀ e ∈ b'.entries, e ∈ b.entries) : b.Eases b' := fun e he =>
  ⟨e, h e he, rfl, fun _ _ hc => hc⟩

theorem Eases.trans {b'' : StoreBuffer} (h : b.Eases b') (h' : b'.Eases b'') : b.Eases b'' := by
  intro e'' he''
  obtain ⟨e', he', htag', hc'⟩ := h' e'' he''
  obtain ⟨e, he, htag, hc⟩ := h e' he'
  exact ⟨e, he, htag'.trans htag, fun a w hno => hc' a w (hc a w hno)⟩

theorem Eases.none (h : b.Eases b') {a : PhysAddr} {w : MemWidth} {t : RobTag} (hno : b.hasOlderStoreTo a w t = false) :
    b'.hasOlderStoreTo a w t = false := by
  rw [hasOlderStoreTo_eq_false] at hno ⊢
  intro e' he' ho
  obtain ⟨e, he, htag, hc⟩ := h e' he'
  exact hc a w (hno e he (htag ▸ ho))

theorem eases_markCommitted (b : StoreBuffer) (tag : RobTag) : b.Eases (b.markCommitted tag) := by
  intro e' he'
  rcases mem_modifyFirst he' with he | ⟨e, he, -, rfl⟩
  · exact ⟨e', he, rfl, fun _ _ hc => hc⟩
  · refine ⟨e, he, ?_, fun a w hc => ?_⟩
    · unfold commitEntry
      split <;> rfl
    · unfold commitEntry
      unfold conflicts at hc ⊢
      cases hr : e.resolution with
      | ready a' d => simpa [hr] using hc
      | pending => simp [hr] at hc
      | committed a' d => simpa [hr] using hc
      | cancelled => simp [hr]

theorem eases_cancel (b : StoreBuffer) (tag : RobTag) : b.Eases (b.cancel tag) := by
  have hfirst : ∀ es : List StoreBufferEntry, ∀ e' ∈ cancelFirst tag es, ∃ e ∈ es, e'.robTag = e.robTag ∧
      ∀ a w, conflicts e a w = false → conflicts e' a w = false := by
    intro es
    induction es with
    | nil => exact fun e' he' => absurd he' List.not_mem_nil
    | cons e rest ih =>
      intro e' he'
      have hback : ∀ x ∈ rest, ∃ e₀ ∈ e :: rest, x.robTag = e₀.robTag ∧
          ∀ a w, conflicts e₀ a w = false → conflicts x a w = false := fun x hx =>
        ⟨x, List.mem_cons_of_mem _ hx, rfl, fun _ _ hc => hc⟩
      rw [cancelFirst] at he'
      split at he'
      · split at he'
        · exact absurd he' List.not_mem_nil
        · rcases List.mem_cons.mp he' with rfl | he'
          · exact ⟨e, List.mem_cons_self, rfl, fun _ _ _ => rfl⟩
          · exact hback e' he'
      · rcases List.mem_cons.mp he' with rfl | he'
        · exact ⟨e', List.mem_cons_self, rfl, fun _ _ hc => hc⟩
        · obtain ⟨e₀, he₀, hrest⟩ := ih e' he'
          exact ⟨e₀, List.mem_cons_of_mem _ he₀, hrest⟩
  exact hfirst b.entries

end StoreBuffer

namespace CommitState

/-- The loads that the queue holds. -/
def loads (c : CommitState U) : List RobTag := c.lq.elim [] LoadQueue.live

/-- Accesses land where they did, no older store comes up, and no load. -/
structure Eases (c c' : CommitState U) : Prop where
  bounds : c'.cpu.bounds = c.cpu.bounds
  sb : c.sb.Eases c'.sb
  loads : ∀ t ∈ c'.loads, t ∈ c.loads

namespace Eases

variable {a b c : CommitState U}

theorem of_cpu {cpu : Cpu U} (h : cpu.bounds = a.cpu.bounds) : Eases a { a with cpu := cpu } :=
  ⟨h, .of_subset fun _ he => he, fun _ ht => ht⟩

theorem refl (a : CommitState U) : Eases a a := of_cpu rfl

theorem trans (h : Eases a b) (h' : Eases b c) : Eases a c :=
  ⟨h'.bounds.trans h.bounds, h.sb.trans h'.sb, fun t ht => h.loads t (h'.loads t ht)⟩

end Eases

section

variable [Units U] (c : CommitState U) (e : RobEntry)

theorem drainAll_eases : Eases c c.drainAll :=
  ⟨(drainCommitted_bounds c.cpu c.sb.entries).1,
    .of_subset fun _ he => (drainCommitted_suffix c.cpu c.sb.entries).subset he,
    fun _ ht => ht⟩

omit [Units U] in
theorem redirectAfter_eases : Eases c (c.redirectAfter e) := .of_cpu rfl

omit [Units U] in
theorem retireReg_eases : Eases c (c.retireReg e) := by
  unfold retireReg
  dsimp only
  split
  · exact ⟨rfl, .of_subset fun _ he => he, fun _ ht => ht⟩
  · split
    · exact ⟨rfl, .of_subset fun _ he => he, fun _ ht => ht⟩
    · exact Eases.refl c

theorem retireRecords_eases : Eases c (c.retireRecords e) := by
  have hflags : ∀ c : CommitState U, Eases c (if e.fpFlags ≠ 0 then { c with cpu := { c.cpu with
      csrs := { c.cpu.csrs with fflags := c.cpu.csrs.fflags ||| e.fpFlags.setWidth 64 }.setFsDirty } }
      else c) := by
    intro c
    split
    · exact .of_cpu rfl
    · exact Eases.refl c
  unfold retireRecords
  cases e.pteUpdate with
  | none => exact hflags c
  | some u => exact (Eases.of_cpu (Cpu.writeStoreToMemory_bounds _ _ _ _).1).trans (hflags _)

theorem retireCsr_eases (u : CsrUpdate) : Eases c (c.retireCsr e u) := by
  have h1 : Eases c (if u.addr = Csr.satp then c.drainAll else c) := by
    split
    · exact drainAll_eases c
    · exact Eases.refl c
  have h2 : ∀ c : CommitState U,
      Eases c (if u.applied then c else { c with cpu := c.cpu.csrWrite u.addr u.newVal }) := by
    intro c
    split
    · exact Eases.refl c
    · exact .of_cpu (Cpu.csrWrite_bounds _ _ _)
  have h3 : ∀ c : CommitState U, Eases c (if u.addr = Csr.satp then c.redirectAfter e else c) := by
    intro c
    split
    · exact redirectAfter_eases c e
    · exact Eases.refl c
  exact (h1.trans (h2 _)).trans (h3 _)

omit [Units U] in
theorem retireWfi_eases : Eases c (c.retireWfi e) := by
  have h : Eases c (if c.cpu.csrs.mie ≠ 0 ∨ c.cpu.csrs.mip ≠ 0 then
      { c with cpu := { c.cpu with wfiWaiting := true, wfiPc := e.fallThrough } } else c.redirectAfter e) := by
    split
    · exact .of_cpu rfl
    · exact redirectAfter_eases c e
  exact h.trans (.of_cpu rfl)

omit [Units U] in
theorem failSc_eases : Eases c (c.failSc e) := by
  have hcancel : Eases c { c with sb := c.sb.cancel e.tag } :=
    ⟨rfl, StoreBuffer.eases_cancel c.sb e.tag, fun _ ht => ht⟩
  refine hcancel.trans ?_
  unfold failSc
  refine Eases.trans ?_ (redirectAfter_eases _ e)
  dsimp only
  split
  · exact ⟨rfl, .of_subset fun _ he => he, fun _ ht => ht⟩
  · exact Eases.refl _

theorem retireFence_eases : Eases c (c.retireFence e).2 := by
  unfold retireFence
  split
  · exact (drainAll_eases c).trans (.of_cpu rfl)
  · refine Eases.trans (b := if e.ctrl.systemOp = .fence ∧ ((fencePred e.inst).1 ∨ (fencePred e.inst).2)
      then c.drainAll else c) ?_ ?_
    · split
      · exact drainAll_eases c
      · exact Eases.refl c
    · cases e.sfenceVma with
      | some i => exact .of_cpu rfl
      | none => exact .of_cpu rfl

omit [Units U] in
theorem retireMem_eases : Eases c (c.retireMem e) := by
  have hstore : ∀ c : CommitState U, Eases c (if e.ctrl.memWrite then
      { c with
        cpu := if (e.lrSc.isNone && ((c.sb.findPaddr e.tag).elim false fun a => c.cpu.checkReservation a))
          then c.cpu.clearReservation else c.cpu
        sb := c.sb.markCommitted e.tag }
      else c) := by
    intro c
    split
    · refine ⟨?_, StoreBuffer.eases_markCommitted c.sb e.tag, fun _ ht => ht⟩
      dsimp only
      split <;> rfl
    · exact Eases.refl c
  have hload : ∀ c : CommitState U,
      Eases c (if e.ctrl.memRead then { c with lq := c.lq.map fun q => q.deallocate e.tag } else c) := by
    intro c
    split
    · refine ⟨rfl, .of_subset fun _ he => he, fun t ht => ?_⟩
      unfold loads at ht ⊢
      cases hq : c.lq with
      | none => simp [hq] at ht
      | some q =>
        simp only [hq, Option.map_some, Option.elim_some] at ht ⊢
        exact LoadQueue.live_deallocate _ ht
    · exact Eases.refl c
  refine ((hstore c).trans (hload _)).trans ?_
  unfold retireMem
  dsimp only
  cases e.checkpointId with
  | none => exact Eases.refl _
  | some id => exact ⟨rfl, .of_subset fun _ he => he, fun _ ht => ht⟩

theorem retireTail_eases : Eases c (c.retireTail e).2 := (retireMem_eases c e).trans (retireFence_eases _ e)

theorem retireEffects_eases : Eases c (c.retireEffects e).2 := by
  unfold retireEffects
  cases e.csrUpdate with
  | some u => exact retireCsr_eases c e u
  | none =>
    dsimp only
    split
    · exact .of_cpu rfl
    · exact .of_cpu rfl
    · exact retireWfi_eases c e
    · split
      · rename_i a _
        exact Eases.trans (b := { c with cpu := c.cpu.setReservation a }) (.of_cpu rfl) (retireTail_eases _ e)
      · split
        · exact Eases.trans (b := { c with cpu := c.cpu.clearReservation }) (.of_cpu rfl) (retireTail_eases _ e)
        · exact failSc_eases c e
      · exact retireTail_eases c e

theorem retire_eases : Eases c (c.retire e).2 := by
  have hpc : Eases c (c.retirePc e) := .of_cpu rfl
  exact ((hpc.trans (retireReg_eases _ e)).trans (retireRecords_eases _ e)).trans (retireEffects_eases _ e)

end

/-! ### What goes on -/

section

variable [Units U] (c : CommitState U) (e : RobEntry)

theorem drainAll_pc : c.drainAll.cpu.pc = c.cpu.pc := (drainCommitted_bounds c.cpu c.sb.entries).2

omit [Units U] in
theorem retireReg_pc : (c.retireReg e).cpu.pc = c.cpu.pc := by
  unfold retireReg
  dsimp only
  split
  · rfl
  · split <;> rfl

theorem retireRecords_pc : (c.retireRecords e).cpu.pc = c.cpu.pc := by
  unfold retireRecords
  dsimp only
  split
  · split
    · exact (Cpu.writeStoreToMemory_bounds _ _ _ _).2
    · rfl
  · split
    · exact (Cpu.writeStoreToMemory_bounds _ _ _ _).2
    · rfl

omit [Units U] in
theorem retireMem_pc : (c.retireMem e).cpu.pc = c.cpu.pc := by
  have hst : ∀ b : Bool, (if b then c.cpu.clearReservation else c.cpu).pc = c.cpu.pc := fun b => by cases b <;> rfl
  unfold retireMem
  dsimp only
  split <;> split <;> split <;> first | exact hst _ | rfl

theorem retireTail_goesOn (hf : e.ctrl.systemOp ≠ .fenceI) (hs : e.sfenceVma = none) :
    (c.retireTail e).1 = true ∧ (c.retireTail e).2.cpu.pc = c.cpu.pc := by
  unfold retireTail retireFence
  rw [if_neg hf, hs]
  refine ⟨rfl, ?_⟩
  dsimp only
  split
  · exact (drainAll_pc _).trans (retireMem_pc c e)
  · exact retireMem_pc c e

/-- **An instruction that goes on** lets commit go on, and fetch too. -/
theorem retire_goesOn (h : e.goesOn = true) : (c.retire e).1 = true ∧ (c.retire e).2.cpu.pc = c.cpu.pc := by
  simp only [RobEntry.goesOn, Bool.and_eq_true, Option.isNone_iff_eq_none, bne_iff_ne] at h
  obtain ⟨⟨⟨⟨⟨⟨hcsr, hs⟩, hsc⟩, hm⟩, hr⟩, hw⟩, hf⟩ := h
  have hpc : (((c.retirePc e).retireReg e).retireRecords e).cpu.pc = c.cpu.pc :=
    (retireRecords_pc _ e).trans ((retireReg_pc _ e).trans rfl)
  unfold retire
  rw [← hpc]
  generalize ((c.retirePc e).retireReg e).retireRecords e = d
  unfold retireEffects
  rw [hcsr]
  dsimp only
  split
  · exact absurd ‹_› hm
  · exact absurd ‹_› hr
  · exact absurd ‹_› hw
  · split
    · exact retireTail_goesOn _ e hf hs
    · rename_i hlrsc
      rw [hlrsc] at hsc
      exact absurd hsc Bool.false_ne_true
    · exact retireTail_goesOn d e hf hs

end

end CommitState

section

variable [Units U]

theorem commitLoop_eases (n : Nat) (c : CommitState U) : c.Eases (commitLoop n c).2 := by
  induction n generalizing c with
  | zero => exact CommitState.Eases.refl c
  | succ n ih =>
    rw [commitLoop]
    cases c.rob.entries with
    | nil => exact CommitState.Eases.refl c
    | cons e rest =>
      dsimp only
      have hpop : c.Eases { c with rob := { c.rob with entries := rest } } :=
        ⟨rfl, .of_subset fun _ he => he, fun _ ht => ht⟩
      split
      · exact CommitState.Eases.refl c
      · split
        · refine hpop.trans ?_
          unfold CommitState.retireFault
          cases e.trap with
          | none => exact CommitState.Eases.refl _
          | some t => exact ⟨rfl, .of_subset fun _ he => he, fun _ ht => ht⟩
        · have hret := hpop.trans (CommitState.retire_eases { c with rob := { c.rob with entries := rest } } e)
          split
          · rename_i heq
            rw [heq] at hret
            exact hret.trans (ih _)
          · rename_i heq
            rw [heq] at hret
            exact hret

theorem commitStage_eases (c : CommitState U) (width : Nat) : c.Eases (commitStage c width).2 := by
  unfold commitStage
  split
  · exact .of_cpu rfl
  · split
    · refine .of_cpu ?_
      unfold wfiWake
      split <;> rfl
    · refine (commitLoop_eases width c).trans ⟨(drainOneStore_bounds _ _).1, .of_subset fun x hx => ?_, fun _ ht => ht⟩
      dsimp only at hx
      unfold drainOneStore StoreBuffer.drainOne at hx
      cases he : (commitLoop width c).2.sb.entries with
      | nil =>
        rw [he] at hx
        simp only at hx
        rw [he] at hx
        exact absurd hx List.not_mem_nil
      | cons y rest =>
        rw [he] at hx
        simp only at hx
        by_cases hcm : y.resolution.isCommitted = true
        · rw [if_pos hcm] at hx
          cases hr : y.resolution <;> simp only [hr] at hx <;> exact List.mem_cons_of_mem _ hx
        · rw [if_neg hcm] at hx
          simp only at hx
          rw [he] at hx
          exact hx

/-- In front of an entry everything retires and goes on, or has not finished: while the entry is in the buffer there
is no trap, and fetch goes on. -/
theorem commitLoop_through {pre post : List RobEntry} {x : RobEntry} (n : Nat) (c : CommitState U)
    (hc : c.rob.entries = pre ++ x :: post) (hx : x ∉ post)
    (hpre : ∀ e ∈ pre, e.state ≠ .faulted ∧ (e.state = .completed → e.goesOn = true))
    (hin : x ∈ (commitLoop n c).2.rob.entries) :
    (commitLoop n c).1 = none ∧ (commitLoop n c).2.cpu.pc = c.cpu.pc := by
  induction n generalizing c pre with
  | zero => exact ⟨rfl, rfl⟩
  | succ n ih =>
    -- once the entry is taken off the head it is not there any more
    have hgone : ∀ c' : CommitState U, c'.rob.entries = post → x ∉ (commitLoop n c').2.rob.entries := by
      intro c' hpost hmem
      obtain ⟨gone, hsplit, -⟩ := commitLoop_head n c'
      exact hx (hpost ▸ hsplit ▸ List.mem_append_right gone hmem)
    rw [commitLoop] at hin ⊢
    cases pre with
    | nil =>
      rw [hc] at hin ⊢
      dsimp only [List.nil_append] at hin ⊢
      by_cases hb : c.headBlocked x = true
      · rw [if_pos hb]
        exact ⟨rfl, rfl⟩
      · rw [if_neg hb] at hin
        by_cases hf : x.state = .faulted
        · rw [if_pos hf] at hin
          have hrob : (CommitState.retireFault { c with rob := { c.rob with entries := post } } x).2.rob.entries =
              post := by
            unfold CommitState.retireFault
            cases x.trap <;> rfl
          exact absurd (hrob ▸ hin) hx
        · rw [if_neg hf] at hin
          have hrob := (CommitState.retire_frame { c with rob := { c.rob with entries := post } } x).1
          rcases hr : CommitState.retire { c with rob := { c.rob with entries := post } } x with ⟨go, c'⟩
          rw [hr] at hrob hin
          have hpost : c'.rob.entries = post := congrArg Rob.entries hrob
          cases go with
          | true => exact absurd hin (hgone c' hpost)
          | false => exact absurd (hpost ▸ hin) hx
    | cons e pre =>
      obtain ⟨hlive, hgoes⟩ := hpre e List.mem_cons_self
      rw [hc] at hin ⊢
      dsimp only [List.cons_append] at hin ⊢
      by_cases hb : c.headBlocked e = true
      · rw [if_pos hb]
        exact ⟨rfl, rfl⟩
      · rw [if_neg hb, if_neg hlive] at hin ⊢
        have hst : e.state = .completed := by
          cases hs : e.state with
          | issued => exact absurd hs (CommitState.unblocked hb)
          | completed => rfl
          | faulted => exact absurd hs hlive
        have hrob := (CommitState.retire_frame { c with rob := { c.rob with entries := pre ++ x :: post } } e).1
        obtain ⟨hgo, hpc⟩ := CommitState.retire_goesOn { c with rob := { c.rob with entries := pre ++ x :: post } } e
          (hgoes hst)
        rcases hr : CommitState.retire { c with rob := { c.rob with entries := pre ++ x :: post } } e with ⟨go, c'⟩
        rw [hr] at hrob hgo hpc hin
        dsimp only at hgo
        rw [hgo] at hin ⊢
        dsimp only at hin ⊢
        obtain ⟨htrap, hpc'⟩ := ih c' (congrArg Rob.entries hrob)
          (fun y hy => hpre y (List.mem_cons_of_mem _ hy)) hin
        exact ⟨htrap, hpc'.trans hpc⟩

/-- **Commit in front of a load that has read.** -/
theorem commitStage_through {pre post : List RobEntry} {x : RobEntry} {c : CommitState U} {width : Nat}
    (hc : c.rob.entries = pre ++ x :: post) (hx : x ∉ post)
    (hpre : ∀ e ∈ pre, e.state ≠ .faulted ∧ (e.state = .completed → e.goesOn = true))
    (hint : checkInterrupts c.cpu = none) (hw : c.cpu.wfiWaiting = false)
    (hin : x ∈ (commitStage c width).2.rob.entries) :
    (commitStage c width).1 = none ∧ (commitStage c width).2.cpu.pc = c.cpu.pc := by
  unfold commitStage at hin ⊢
  rw [hint] at hin ⊢
  dsimp only at hin ⊢
  rw [hw, if_neg Bool.false_ne_true] at hin ⊢
  obtain ⟨htrap, hpc⟩ := commitLoop_through width c hc hx hpre hin
  exact ⟨htrap, (drainOneStore_bounds _ _).2.trans hpc⟩

end

end Rvsim
