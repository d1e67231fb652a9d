/-
# The renaming discipline

What renaming keeps true, whatever the rest of the engine does: the rename
map is the committed map with the in-flight destinations replayed over it,
every physical register is free, committed or the destination of exactly one
in-flight instruction, and a checkpoint is the map as it was at its branch.

A `Renamer` is the engine seen from here: the reorder buffer without the
fields execution fills in, the free list, the two maps and the checkpoints.

Key definitions:
  - `Renamer`, `RenInv`
Key theorems:
  - `RenInv.pushDst`, `RenInv.push`, `RenInv.snapshot`: rename
  - `RenInv.retire`, `RenInv.dropHead`: commit
  - `RenInv.flushAll`, `RenInv.flushAfter`: the squashes
  - `RenInv.restore_eq_rebuild`: a checkpoint is what a rebuild would give
-/
import Rvsim.Lib.Serial
import Rvsim.Renaming

namespace Rvsim

/-! ### What renaming sees of an entry -/

/-- The fields rename fixes; execution fills in the others. -/
def RobEntry.bare (e : RobEntry) : RobEntry :=
  { tag := e.tag, pc := e.pc, inst := e.inst, instSize := e.instSize, rd := e.rd, rdFp := e.rdFp,
    ctrl := e.ctrl, physDst := e.physDst, oldPhysDst := e.oldPhysDst }

/-- The entry has a physical destination register. -/
def RobEntry.writesReg (e : RobEntry) : Bool := e.writesGpr || e.ctrl.fpRegWrite

@[simp] theorem RobEntry.bare_tag (e : RobEntry) : e.bare.tag = e.tag := rfl

@[simp] theorem RobEntry.bare_ctrl (e : RobEntry) : e.bare.ctrl = e.ctrl := rfl

@[simp] theorem RobEntry.bare_physDst (e : RobEntry) : e.bare.physDst = e.physDst := rfl

@[simp] theorem RobEntry.bare_writesReg (e : RobEntry) : e.bare.writesReg = e.writesReg := rfl

/-- No decoded instruction writes both register files. -/
def ControlSignals.OneFile (c : ControlSignals) : Prop := ¬(c.regWrite = true ∧ c.fpRegWrite = true)

/-! ### The rename map -/

namespace RenameMap

/-- A register other than `x0`. -/
def IsReal (r : RegIdx) (fp : Bool) : Prop := fp = true ∨ r ≠ 0

instance (r : RegIdx) (fp : Bool) : Decidable (IsReal r fp) := inferInstanceAs (Decidable (_ ∨ _))

theorem get_x0 (m : RenameMap) : m.get 0 false = 0 := by simp [get, RegIdx.isZero]

theorem get_set (m : RenameMap) (r r' : RegIdx) (fp fp' : Bool) (p : PhysReg) (h : IsReal r fp) :
    (m.set r fp p).get r' fp' = if r' = r ∧ fp' = fp then p else m.get r' fp' := by
  have h' : fp = true ∨ ¬r = 0#5 := h
  by_cases hr : r' = r
  · subst hr
    cases fp <;> cases fp' <;> simp_all [get, set, RegIdx.isZero]
  · cases fp <;> cases fp' <;> simp_all [get, set, RegIdx.isZero, Function.update_of_ne]

/-- Every register with its file. -/
def archRegs : List (RegIdx × Bool) :=
  ((List.range 32).map fun i => (BitVec.ofNat 5 i, false)) ++
    (List.range 32).map fun i => (BitVec.ofNat 5 i, true)

theorem archRegs_nodup : archRegs.Nodup := by decide

theorem mem_archRegs (r : RegIdx) (fp : Bool) : (r, fp) ∈ archRegs := by
  have hr : BitVec.ofNat 5 r.toNat = r := by simp
  have hlt : r.toNat < 32 := r.isLt
  cases fp
  · exact List.mem_append_left _ (List.mem_map.mpr ⟨r.toNat, List.mem_range.mpr hlt, by rw [hr]⟩)
  · exact List.mem_append_right _ (List.mem_map.mpr ⟨r.toNat, List.mem_range.mpr hlt, by rw [hr]⟩)

/-- The physical registers a map names, one for each architectural register. -/
def image (m : RenameMap) : List PhysReg := archRegs.map fun x => m.get x.1 x.2

theorem get_mem_image (m : RenameMap) (r : RegIdx) (fp : Bool) : m.get r fp ∈ m.image :=
  List.mem_map.mpr ⟨(r, fp), mem_archRegs r fp, rfl⟩

/-- Replacing one mapping trades one name for another. -/
theorem count_image_set (m : RenameMap) (r : RegIdx) (fp : Bool) (p q : PhysReg) (h : IsReal r fp) :
    (m.set r fp p).image.count q + (if m.get r fp = q then 1 else 0) =
      m.image.count q + (if p = q then 1 else 0) := by
  obtain ⟨l₁, l₂, hsplit⟩ := List.append_of_mem (mem_archRegs r fp)
  have hnd : (l₁ ++ (r, fp) :: l₂).Nodup := hsplit ▸ archRegs_nodup
  have hout : ∀ x ∈ l₁ ++ l₂, ¬(x.1 = r ∧ x.2 = fp) := by
    intro x hx hxe
    have hxr : x = (r, fp) := Prod.ext hxe.1 hxe.2
    exact (List.nodup_cons.mp (List.nodup_middle.mp hnd)).1 (hxr ▸ hx)
  have hsame : ∀ l : List (RegIdx × Bool), (∀ x ∈ l, x ∈ l₁ ++ l₂) →
      (l.map fun x => (m.set r fp p).get x.1 x.2) = l.map fun x => m.get x.1 x.2 := by
    intro l hl
    refine List.map_congr_left fun x hx => ?_
    rw [get_set m r x.1 fp x.2 p h, if_neg (hout x (hl x hx))]
  have h₁ := hsame l₁ fun x hx => List.mem_append_left _ hx
  have h₂ := hsame l₂ fun x hx => List.mem_append_right _ hx
  have hself : (m.set r fp p).get r fp = p := by rw [get_set m r r fp fp p h, if_pos ⟨rfl, rfl⟩]
  simp only [image, hsplit, List.map_append, List.map_cons, List.count_append, List.count_cons, h₁, h₂,
    hself, beq_iff_eq]
  omega

theorem applyEntry_eq (m : RenameMap) (e : RobEntry) (h : e.ctrl.OneFile) :
    m.applyEntry e = if e.writesReg then m.set e.rd e.ctrl.fpRegWrite e.physDst else m := by
  cases hg : e.ctrl.regWrite <;> cases hf : e.ctrl.fpRegWrite <;>
    simp_all [applyEntry, RobEntry.writesReg, RobEntry.writesGpr, ControlSignals.OneFile]

theorem applyEntry_bare (m : RenameMap) (e : RobEntry) : m.applyEntry e.bare = m.applyEntry e := rfl

theorem rebuild_bare (m : RenameMap) (es : List RobEntry) : m.rebuild (es.map RobEntry.bare) = m.rebuild es := by
  induction es generalizing m with
  | nil => rfl
  | cons e es ih => exact ih (m.applyEntry e)

theorem rebuild_append (m : RenameMap) (es fs : List RobEntry) :
    m.rebuild (es ++ fs) = (m.rebuild es).rebuild fs := List.foldl_append

theorem isReal_of_writes {e : RobEntry} (h : e.writesReg) : IsReal e.rd e.ctrl.fpRegWrite := by
  simp only [RobEntry.writesReg, RobEntry.writesGpr, RegIdx.isZero, Bool.or_eq_true,
    Bool.and_eq_true, Bool.not_eq_true', beq_eq_false_iff_ne] at h
  rcases h with h | h
  · exact Or.inr h.2
  · exact Or.inl h

/-- What a replay maps a register to: the committed register, or a destination of the entries. -/
theorem get_rebuild_mem (m : RenameMap) (es : List RobEntry) (h : ∀ e ∈ es, e.ctrl.OneFile) (r : RegIdx)
    (fp : Bool) :
    (m.rebuild es).get r fp = m.get r fp ∨
      ∃ e ∈ es, e.writesReg ∧ e.physDst = (m.rebuild es).get r fp := by
  induction es using List.reverseRecOn with
  | nil => exact Or.inl rfl
  | append_singleton es e ih =>
    have hlast : m.rebuild (es ++ [e]) = (m.rebuild es).applyEntry e := by rw [rebuild_append]; rfl
    rw [hlast, applyEntry_eq _ e (h e (by simp))]
    have ih' := ih fun x hx => h x (by simp [hx])
    by_cases hw : e.writesReg
    · rw [if_pos hw, get_set _ _ _ _ _ _ (isReal_of_writes hw)]
      by_cases hr : r = e.rd ∧ fp = e.ctrl.fpRegWrite
      · rw [if_pos hr]
        exact Or.inr ⟨e, by simp, hw, rfl⟩
      · rw [if_neg hr]
        rcases ih' with h' | ⟨x, hx, hxw, hxe⟩
        · exact Or.inl h'
        · exact Or.inr ⟨x, by simp [hx], hxw, hxe⟩
    · rw [if_neg hw]
      rcases ih' with h' | ⟨x, hx, hxw, hxe⟩
      · exact Or.inl h'
      · exact Or.inr ⟨x, by simp [hx], hxw, hxe⟩

end RenameMap

/-! ### Counting registers -/

/-- All physical registers of a file of `total`, numbered as `PhysReg`s are: modulo `2^16`. -/
def physRegs (total : Nat) : List PhysReg := (List.range total).map fun i => BitVec.ofNat 16 i

theorem physRegs_nodup {total : Nat} (h : total ≤ 65536) : (physRegs total).Nodup := by
  refine List.Nodup.map_on ?_ List.nodup_range
  intro i hi j hj hij
  have hi' := List.mem_range.mp hi
  have hj' := List.mem_range.mp hj
  have hnat := congrArg BitVec.toNat hij
  simp only [BitVec.toNat_ofNat] at hnat
  omega

/-- A file that a `PhysReg` can number without aliases, and that has room for the architectural
registers. -/
def Numbered (total : Nat) : Prop := 64 ≤ total ∧ total ≤ 65536

instance (total : Nat) : Decidable (Numbered total) := inferInstanceAs (Decidable (_ ∧ _))

/-- The destinations of in-flight instructions. -/
def dsts (es : List RobEntry) : List PhysReg := (es.map (·.physDst)).filter (· ≠ 0)

theorem dsts_cons (e : RobEntry) (es : List RobEntry) :
    dsts (e :: es) = (if e.physDst = 0 then [] else [e.physDst]) ++ dsts es := by
  by_cases h : e.physDst = 0
  · simp [dsts, h]
  · rw [if_neg h]
    exact List.filter_cons_of_pos (by simpa using h)

theorem dsts_append (es fs : List RobEntry) : dsts (es ++ fs) = dsts es ++ dsts fs := by simp [dsts]

theorem FreeList.reclaim_queue (l : FreeList) (p : PhysReg) :
    (l.reclaim p).queue = l.queue ++ if p = 0 then [] else [p] := by
  unfold reclaim
  by_cases h : p = 0
  · rw [if_pos h, if_pos h, List.append_nil]
  · rw [if_neg h, if_neg h]

/-- Reclaiming entries puts their destinations behind the list. -/
theorem FreeList.reclaimAll_queue (l : FreeList) (es : List RobEntry) :
    (l.reclaimAll es).queue = l.queue ++ dsts es := by
  induction es generalizing l with
  | nil => simp [reclaimAll, dsts]
  | cons e es ih =>
    have hstep : l.reclaimAll (e :: es) = (l.reclaim e.physDst).reclaimAll es := rfl
    rw [hstep, ih, reclaim_queue, dsts_cons, List.append_assoc]

/-! ### Cutting the buffer at a tag -/

namespace Rob

theorem keepThrough_split {es pre post : List RobEntry} {e : RobEntry} (hes : es = pre ++ e :: post)
    (hnd : (es.map (·.tag)).Nodup) : keepThrough e.tag es = pre ++ [e] := by
  subst hes
  induction pre with
  | nil => simp [keepThrough]
  | cons x pre ih =>
    simp only [List.cons_append, List.map_cons, List.map_append, List.nodup_cons] at hnd
    have hne : x.tag ≠ e.tag := by
      intro heq
      exact hnd.1 (by simp [heq])
    simp only [List.cons_append, keepThrough, if_neg hne]
    rw [ih (by simpa using hnd.2)]

theorem filter_newer_split {now : RobTag} {pre post : List RobEntry} {e : RobEntry}
    (h : Serial.Window now ((pre ++ e :: post).map (·.tag))) :
    (pre ++ e :: post).filter (fun x => RobTag.isNewerThan x.tag e.tag) = post := by
  have hw : Serial.Window now (pre.map (·.tag) ++ e.tag :: post.map (·.tag)) := by simpa using h
  obtain ⟨hpre, hself, hpost⟩ := hw.newer_split (by decide)
  rw [List.filter_append, List.filter_cons_of_neg (by simp [RobTag.isNewerThan, RobTag.isOlderThan])]
  have hp : pre.filter (fun x => RobTag.isNewerThan x.tag e.tag) = [] := by
    rw [List.filter_eq_nil_iff]
    intro x hx
    have := hpre x.tag (List.mem_map_of_mem hx)
    simp [RobTag.isNewerThan, RobTag.isOlderThan, this]
  have hq : post.filter (fun x => RobTag.isNewerThan x.tag e.tag) = post := by
    rw [List.filter_eq_self]
    intro x hx
    have := hpost x.tag (List.mem_map_of_mem hx)
    simp [RobTag.isNewerThan, RobTag.isOlderThan, this]
  rw [hp, hq, List.nil_append]

end Rob

/-! ### Checkpoints held -/

namespace CheckpointTable

/-- The checkpoints in use. -/
def live (t : CheckpointTable) : List Checkpoint := t.slots.filterMap id

theorem mem_live {t : CheckpointTable} {c : Checkpoint} : c ∈ t.live ↔ some c ∈ t.slots := by
  simp [live]

theorem mem_live_allocate {t : CheckpointTable} {tag : RobTag} {m : RenameMap} {c : Checkpoint}
    (h : c ∈ (t.allocate tag m).2.live) : c = ⟨tag, m⟩ ∨ c ∈ t.live := by
  unfold allocate at h
  split at h
  · rw [mem_live] at h
    rcases List.mem_or_eq_of_mem_set h with h' | h'
    · exact Or.inr (mem_live.mpr h')
    · exact Or.inl (Option.some.inj h')
  · exact Or.inr h

theorem firstFree_some {ss : List (Option Checkpoint)} {i j : Nat} (h : firstFree i ss = some j) :
    ∃ k, j = i + k ∧ ss[k]? = some none := by
  induction ss generalizing i with
  | nil => simp [firstFree] at h
  | cons x ss ih =>
    cases x with
    | none => exact ⟨0, by simpa [firstFree] using h.symm, rfl⟩
    | some c =>
      obtain ⟨k, hk, hn⟩ := ih h
      exact ⟨k + 1, by omega, hn⟩

/-- A new checkpoint takes an empty slot. -/
theorem mem_live_allocate_old {t : CheckpointTable} {tag : RobTag} {m : RenameMap} {c : Checkpoint}
    (h : c ∈ t.live) : c ∈ (t.allocate tag m).2.live := by
  unfold allocate
  split
  · rename_i j hj
    obtain ⟨k, rfl, hn⟩ := firstFree_some hj
    rw [mem_live] at h ⊢
    obtain ⟨n, hlt, hc⟩ := List.getElem_of_mem h
    refine List.mem_of_getElem? (i := n) ?_
    have hget : t.slots[n]? = some (some c) := by rw [List.getElem?_eq_getElem hlt, hc]
    have hne : 0 + k ≠ n := by
      rintro rfl
      rw [Nat.zero_add, hn] at hget
      simp at hget
    rw [List.getElem?_set_ne hne, hget]
  · exact h

theorem mem_live_free {t : CheckpointTable} {id : U8} {c : Checkpoint} (h : c ∈ (t.free id).live) :
    c ∈ t.live := by
  unfold free at h
  split at h
  · rw [mem_live] at h ⊢
    rcases List.mem_or_eq_of_mem_set h with h' | h'
    · exact h'
    · exact absurd h' (by simp)
  · exact h

theorem mem_live_flushAfter {t : CheckpointTable} {keep : RobTag} {c : Checkpoint}
    (h : c ∈ (t.flushAfter keep).live) : c ∈ t.live ∧ RobTag.isNewerThan c.branchTag keep = false := by
  rw [mem_live] at h
  simp only [flushAfter, List.mem_map] at h
  obtain ⟨s, hs, hse⟩ := h
  by_cases hf : flushed keep s
  · rw [if_pos hf] at hse
    exact absurd hse (by simp)
  · rw [if_neg hf] at hse
    subst hse
    exact ⟨mem_live.mpr hs, by simpa [flushed] using hf⟩

theorem live_flushAll (t : CheckpointTable) : t.flushAll.live = [] := by
  simp [live, flushAll]

theorem findByTag_some {t : CheckpointTable} {tag : RobTag} {c : Checkpoint}
    (h : t.findByTag tag = some c) : c ∈ t.live ∧ c.branchTag = tag :=
  ⟨List.mem_of_find?_eq_some h, by simpa using List.find?_some h⟩

end CheckpointTable

/-! ### The discipline -/

structure Renamer where
  entries : List RobEntry
  nextTag : RobTag
  freeList : FreeList
  renameMap : RenameMap
  committedMap : RenameMap
  checkpoints : CheckpointTable

namespace Renamer

/-- `k` more tags can be given out with every tag in use within half the tag space. -/
structure Room (R : Renamer) (k : Nat) : Prop where
  self : k < Serial.half 32
  entries : ∀ e ∈ R.entries, Serial.age R.nextTag e.tag + k < Serial.half 32
  ckpts : ∀ c ∈ R.checkpoints.live, Serial.age R.nextTag c.branchTag + k < Serial.half 32

/-- A checkpoint holds the map just behind its branch, while the branch is in flight. -/
def CkptOk (R : Renamer) (c : Checkpoint) : Prop :=
  (∃ pre e post, R.entries = pre ++ e :: post ∧ e.tag = c.branchTag ∧
      c.renameMap = R.committedMap.rebuild (pre ++ [e])) ∨
    (0 < Serial.age R.nextTag c.branchTag ∧
      ∀ e ∈ R.entries, Serial.age R.nextTag e.tag < Serial.age R.nextTag c.branchTag)

end Renamer

open Renamer

/-- What holds between the renaming structures, with `total` physical registers. The maps are in
order for every `total`; the registers themselves only when they are `Numbered`. -/
structure RenInv (total : Nat) (R : Renamer) : Prop where
  window : Serial.Window R.nextTag (R.entries.map (·.tag))
  oneFile : ∀ e ∈ R.entries, e.ctrl.OneFile
  dst : Numbered total → ∀ e ∈ R.entries, e.physDst ≠ 0 ↔ e.writesReg
  old : ∀ pre e post, R.entries = pre ++ e :: post → e.writesReg →
    e.oldPhysDst = (R.committedMap.rebuild pre).get e.rd e.ctrl.fpRegWrite
  map : R.renameMap = R.committedMap.rebuild R.entries
  mapped : Numbered total → ∀ r fp, RenameMap.IsReal r fp → R.committedMap.get r fp ≠ 0
  part : Numbered total → ∀ p,
    R.freeList.queue.count p + R.committedMap.image.count p + (dsts R.entries).count p = (physRegs total).count p
  ckpt : ∀ c ∈ R.checkpoints.live, CkptOk R c

namespace RenInv

variable {total : Nat} {R : Renamer}

theorem nodup_tags (h : RenInv total R) : (R.entries.map (·.tag)).Nodup := h.window.nodup

/-- No register is in two places, or twice in one. -/
theorem count_le_one (h : RenInv total R) (ht : Numbered total) (p : PhysReg) :
    R.freeList.queue.count p + R.committedMap.image.count p + (dsts R.entries).count p ≤ 1 := by
  rw [h.part ht p]
  exact List.nodup_iff_count_le_one.mp (physRegs_nodup ht.2) p

theorem zero_not_free (h : RenInv total R) (ht : Numbered total) : (0 : PhysReg) ∉ R.freeList.queue := by
  intro hmem
  have h0 : (0 : PhysReg) ∈ R.committedMap.image := by
    have := R.committedMap.get_mem_image 0 false
    rwa [RenameMap.get_x0] at this
  have := h.count_le_one ht 0
  have := List.count_pos_iff.mpr hmem
  have := List.count_pos_iff.mpr h0
  omega

/-- A register the map names is not free. -/
theorem get_not_free (h : RenInv total R) (ht : Numbered total) {es post : List RobEntry}
    (hes : R.entries = es ++ post) (r : RegIdx) (fp : Bool) :
    (R.committedMap.rebuild es).get r fp ∉ R.freeList.queue := by
  intro hfree
  have hsub : ∀ e ∈ es, e ∈ R.entries := fun e he => hes ▸ List.mem_append_left _ he
  have hc := h.count_le_one ht ((R.committedMap.rebuild es).get r fp)
  have hf := List.count_pos_iff.mpr hfree
  rcases RenameMap.get_rebuild_mem R.committedMap es (fun e he => h.oneFile e (hsub e he)) r fp with
    heq | ⟨e, he, hew, hee⟩
  · have := List.count_pos_iff.mpr (R.committedMap.get_mem_image r fp)
    rw [← heq] at this
    omega
  · have hd : e.physDst ∈ dsts R.entries := by
      refine List.mem_filter.mpr ⟨List.mem_map_of_mem (hsub e he), ?_⟩
      simpa using (h.dst ht e (hsub e he)).mpr hew
    have := List.count_pos_iff.mpr (hee ▸ hd)
    omega

/-! #### Rename -/

/-- How far the counter moves: it skips 0. -/
def tagStep (t : RobTag) : Nat := if t + 1 = 0 then 2 else 1

theorem tagStep_pos (t : RobTag) : 0 < tagStep t := by
  unfold tagStep
  split <;> decide

theorem tagStep_le (t : RobTag) : tagStep t ≤ 2 := by
  unfold tagStep
  split <;> decide

theorem next_eq (t : RobTag) : t.next = t + BitVec.ofNat 32 (tagStep t) := by
  unfold RobTag.next tagStep
  by_cases h : t + 1 = 0
  · rw [if_pos h, if_pos h]
    have h2 : t + BitVec.ofNat 32 2 = t + 1 + 1 := by
      rw [add_assoc]
      rfl
    rw [h2, h]
    rfl
  · rw [if_neg h, if_neg h]
    rfl

/-- The free list after a destination for `e` was taken off it, if `e` needs one. -/
def Takes (fl : FreeList) (e : RobEntry) (fl' : FreeList) : Prop :=
  (e.writesReg = true ∧ fl.queue = e.physDst :: fl'.queue) ∨
    (e.writesReg = false ∧ e.physDst = 0 ∧ fl' = fl)

/-- The state after `e` is renamed. -/
def push (R : Renamer) (e : RobEntry) (fl : FreeList) : Renamer :=
  { R with
    entries := R.entries ++ [e]
    nextTag := R.nextTag.next
    freeList := fl
    renameMap := R.renameMap.applyEntry e }

theorem push_dst_iff (h : RenInv total R) (ht : Numbered total) {e : RobEntry} {fl : FreeList}
    (hfl : Takes R.freeList e fl) : e.physDst ≠ 0 ↔ e.writesReg := by
  rcases hfl with ⟨hw, hq⟩ | ⟨hw, h0, -⟩
  · refine ⟨fun _ => hw, fun _ h0 => h.zero_not_free ht ?_⟩
    rw [hq, h0]
    exact List.mem_cons_self
  · simp [hw, h0]

theorem push_part (h : RenInv total R) (ht : Numbered total) {e : RobEntry} {fl : FreeList}
    (hfl : Takes R.freeList e fl) (p : PhysReg) :
    fl.queue.count p + R.committedMap.image.count p + (dsts (R.entries ++ [e])).count p =
      (physRegs total).count p := by
  have hd := h.push_dst_iff ht hfl
  rw [← h.part ht p, dsts_append, List.count_append, dsts_cons]
  rcases hfl with ⟨hw, hq⟩ | ⟨hw, h0, rfl⟩
  · rw [if_neg (hd.mpr hw), hq, List.count_cons]
    simp only [dsts, List.map_nil, List.filter_nil, List.append_nil, List.count_singleton]
    omega
  · rw [if_pos h0]
    simp [dsts]

theorem push_ckpt (h : RenInv total R) (hroom : R.Room (tagStep R.nextTag)) (e : RobEntry) (fl : FreeList)
    (he : e.tag = R.nextTag) {c : Checkpoint} (hc : c ∈ R.checkpoints.live) :
    CkptOk (push R e fl) c := by
  rcases h.ckpt c hc with ⟨pre, x, post, hx, hxt, hm⟩ | ⟨hpos, hold⟩
  · exact Or.inl ⟨pre, x, post ++ [e], by simp [push, hx], hxt, hm⟩
  · have hhalf : Serial.half 32 < 2 ^ 32 := by decide
    have hcr := hroom.ckpts c hc
    have hnext : (push R e fl).nextTag = R.nextTag + BitVec.ofNat 32 (tagStep R.nextTag) := next_eq R.nextTag
    refine Or.inr ?_
    rw [hnext, Serial.age_advance _ (by omega)]
    refine ⟨by omega, fun x hx => ?_⟩
    rcases List.mem_append.mp (show x ∈ R.entries ++ [e] from hx) with hx' | hx'
    · have := hold x hx'
      rw [Serial.age_advance _ (by omega)]
      omega
    · rw [List.mem_singleton.mp hx', he, Serial.age_advance _ (by rw [Serial.age_self]; omega),
        Serial.age_self]
      omega

/-- **Rename keeps the discipline.** -/
theorem push_inv (h : RenInv total R) (hroom : R.Room (tagStep R.nextTag)) {e : RobEntry}
    {fl : FreeList} (he : e.tag = R.nextTag) (hone : e.ctrl.OneFile) (hfl : Takes R.freeList e fl)
    (hold : e.writesReg → e.oldPhysDst = R.renameMap.get e.rd e.ctrl.fpRegWrite) :
    RenInv total (push R e fl) := by
  have hmem : ∀ x ∈ R.entries ++ [e], x ∈ R.entries ∨ x = e := by simp
  refine ⟨?_, ?_, ?_, ?_, ?_, h.mapped, fun ht => h.push_part ht hfl, fun c hc => h.push_ckpt hroom e fl he hc⟩
  · have hw := h.window.push (k := tagStep R.nextTag) (by decide) (tagStep_pos _)
      (fun t htm => by
        obtain ⟨x, hx, rfl⟩ := List.mem_map.mp htm
        exact hroom.entries x hx)
      hroom.self
    simpa [push, next_eq, he] using hw
  · intro x hx
    rcases hmem x hx with hx' | rfl
    · exact h.oneFile x hx'
    · exact hone
  · intro ht x hx
    rcases hmem x hx with hx' | rfl
    · exact h.dst ht x hx'
    · exact h.push_dst_iff ht hfl
  · intro pre x post hx hxw
    rcases List.eq_nil_or_concat post with rfl | ⟨post', y, rfl⟩
    · obtain ⟨hpre, hxe⟩ := List.append_inj' (show R.entries ++ [e] = pre ++ [x] from hx) rfl
      obtain rfl : e = x := by simpa using hxe
      rw [hold hxw, h.map, hpre]
      rfl
    · have hsplit : R.entries ++ [e] = (pre ++ x :: post') ++ [y] := by simpa [push] using hx
      exact h.old pre x post' (List.append_inj' hsplit rfl).1 hxw
  · change R.renameMap.applyEntry e = R.committedMap.rebuild (R.entries ++ [e])
    rw [RenameMap.rebuild_append, ← h.map]
    rfl

/-- **Taking a checkpoint of the current map for the youngest entry.** -/
theorem snapshot (h : RenInv total R) {pre : List RobEntry} {e : RobEntry} (he : R.entries = pre ++ [e])
    (t : CheckpointTable)
    (hlive : ∀ c ∈ t.live, c = ⟨e.tag, R.renameMap⟩ ∨ c ∈ R.checkpoints.live) :
    RenInv total { R with checkpoints := t } := by
  refine ⟨h.window, h.oneFile, h.dst, h.old, h.map, h.mapped, h.part, fun c hc => ?_⟩
  rcases hlive c hc with rfl | hc'
  · exact Or.inl ⟨pre, e, [], he, rfl, by rw [h.map, he]⟩
  · exact h.ckpt c hc'

/-- Checkpoints may be given back at any time. -/
theorem dropCkpts (h : RenInv total R) (t : CheckpointTable) (hlive : ∀ c ∈ t.live, c ∈ R.checkpoints.live) :
    RenInv total { R with checkpoints := t } :=
  ⟨h.window, h.oneFile, h.dst, h.old, h.map, h.mapped, h.part, fun c hc => h.ckpt c (hlive c hc)⟩

/-! #### Commit -/

/-- The state after the head retires. -/
def retire (R : Renamer) (e : RobEntry) (rest : List RobEntry) : Renamer :=
  { R with
    entries := rest
    committedMap := R.committedMap.applyEntry e
    freeList :=
      if e.writesReg = true ∧ e.oldPhysDst ≠ e.physDst then R.freeList.reclaim e.oldPhysDst
      else R.freeList }

theorem old_head (h : RenInv total R) {e : RobEntry} {rest : List RobEntry} (he : R.entries = e :: rest)
    (hw : e.writesReg) : e.oldPhysDst = R.committedMap.get e.rd e.ctrl.fpRegWrite :=
  h.old [] e rest he hw

/-- The replaced register is not the new one: one is committed, the other in flight. -/
theorem old_ne_dst (h : RenInv total R) (ht : Numbered total) {e : RobEntry} {rest : List RobEntry}
    (he : R.entries = e :: rest) (hw : e.writesReg) : e.oldPhysDst ≠ e.physDst := by
  intro heq
  have hc := h.count_le_one ht e.physDst
  have himg := R.committedMap.get_mem_image e.rd e.ctrl.fpRegWrite
  rw [← h.old_head he hw, heq] at himg
  have hd : e.physDst ∈ dsts R.entries := by
    rw [he, dsts_cons, if_neg ((h.dst ht e (by simp [he])).mpr hw)]
    simp
  have := List.count_pos_iff.mpr himg
  have := List.count_pos_iff.mpr hd
  omega

theorem retire_part (h : RenInv total R) (ht : Numbered total) {e : RobEntry} {rest : List RobEntry}
    (he : R.entries = e :: rest) (p : PhysReg) :
    (retire R e rest).freeList.queue.count p + (R.committedMap.applyEntry e).image.count p +
      (dsts rest).count p = (physRegs total).count p := by
  have hone := h.oneFile e (by simp [he])
  have hd := h.dst ht e (by simp [he])
  rw [← h.part ht p, he, dsts_cons, List.count_append, RenameMap.applyEntry_eq _ e hone]
  by_cases hw : e.writesReg
  · have hreal := RenameMap.isReal_of_writes hw
    have h0 : e.oldPhysDst ≠ 0 := by
      rw [h.old_head he hw]
      exact h.mapped ht _ _ hreal
    have hcount := RenameMap.count_image_set R.committedMap e.rd e.ctrl.fpRegWrite e.physDst p hreal
    rw [← h.old_head he hw] at hcount
    simp only [retire, if_pos (And.intro hw (h.old_ne_dst ht he hw)), FreeList.reclaim_queue, if_neg h0,
      if_pos hw, if_neg (hd.mpr hw), List.count_append, List.count_singleton, beq_iff_eq]
    omega
  · have h0 : e.physDst = 0 := by
      by_contra hne
      exact hw (hd.mp hne)
    simp [retire, hw, h0]

/-- **Retiring the head keeps the discipline.** -/
theorem retire_inv (h : RenInv total R) {e : RobEntry} {rest : List RobEntry}
    (he : R.entries = e :: rest) : RenInv total (retire R e rest) := by
  have hsub : ∀ x ∈ rest, x ∈ R.entries := fun x hx => by simp [he, hx]
  have hone := h.oneFile e (by simp [he])
  refine ⟨h.window.sublist ?_, fun x hx => h.oneFile x (hsub x hx), fun ht x hx => h.dst ht x (hsub x hx),
    ?_, ?_, ?_, fun ht => h.retire_part ht he, ?_⟩
  · rw [he]
    exact List.sublist_cons_self _ _
  · intro pre x post hx hxw
    have hx' : rest = pre ++ x :: post := hx
    exact h.old (e :: pre) x post (by rw [he, hx']; rfl) hxw
  · change R.renameMap = _
    rw [h.map, he]
    rfl
  · intro ht r fp hreal
    change (R.committedMap.applyEntry e).get r fp ≠ 0
    rw [RenameMap.applyEntry_eq _ e hone]
    by_cases hw : e.writesReg
    · rw [if_pos hw, RenameMap.get_set _ _ _ _ _ _ (RenameMap.isReal_of_writes hw)]
      split
      · exact (h.dst ht e (by simp [he])).mpr hw
      · exact h.mapped ht r fp hreal
    · rw [if_neg hw]
      exact h.mapped ht r fp hreal
  · intro c hc
    rcases h.ckpt c hc with ⟨pre, x, post, hx, hxt, hm⟩ | ⟨hpos, hold⟩
    · rw [he] at hx
      rcases pre with _ | ⟨y, pre⟩
      · -- the branch itself retires: from here on it is older than everything in flight
        obtain ⟨rfl, rfl⟩ := List.cons.inj hx
        have hwin := h.window
        rw [he, List.map_cons] at hwin
        refine Or.inr ⟨?_, fun x hx => ?_⟩
        · exact hxt ▸ (hwin.bounded e.tag (by simp)).1
        · exact hxt ▸ (List.pairwise_cons.mp hwin.ordered).1 x.tag (List.mem_map_of_mem hx)
      · obtain ⟨rfl, hrest⟩ := List.cons.inj hx
        exact Or.inl ⟨pre, x, post, hrest, hxt, hm⟩
    · exact Or.inr ⟨hpos, fun x hx => hold x (hsub x hx)⟩

/-! #### Squash -/

/-- **Dropping everything in flight keeps the discipline.** -/
theorem flushAll_inv (h : RenInv total R) (t : CheckpointTable) (hlive : t.live = []) :
    RenInv total { R with
      entries := [], freeList := R.freeList.reclaimAll R.entries, renameMap := R.committedMap,
      checkpoints := t } := by
  refine ⟨Serial.Window.nil, by simp, by simp, by simp, rfl, h.mapped, fun ht p => ?_, by simp [hlive]⟩
  rw [← h.part ht p, FreeList.reclaimAll_queue, List.count_append]
  simp only [dsts, List.map_nil, List.filter_nil, List.count_nil]
  omega

theorem newer_of_behind (h : RenInv total R) {pre post : List RobEntry} {e x : RobEntry}
    (he : R.entries = pre ++ e :: post) (hx : x ∈ post) : RobTag.isNewerThan x.tag e.tag = true := by
  have hwin : Serial.Window R.nextTag (pre.map (·.tag) ++ e.tag :: post.map (·.tag)) := by
    simpa [he] using h.window
  exact (hwin.newer_split (by decide)).2.2 x.tag (List.mem_map_of_mem hx)

/-- **Cutting the buffer behind `e` keeps the discipline.** -/
theorem flushAfter_inv (h : RenInv total R) {pre post : List RobEntry} {e : RobEntry}
    (he : R.entries = pre ++ e :: post) (t : CheckpointTable)
    (hlive : ∀ c ∈ t.live, c ∈ R.checkpoints.live ∧ RobTag.isNewerThan c.branchTag e.tag = false) :
    RenInv total { R with
      entries := pre ++ [e], freeList := R.freeList.reclaimAll post,
      renameMap := R.committedMap.rebuild (pre ++ [e]), checkpoints := t } := by
  have hsplit : R.entries = (pre ++ [e]) ++ post := by simp [he]
  have hsub : ∀ x ∈ pre ++ [e], x ∈ R.entries := fun x hx => hsplit ▸ List.mem_append_left _ hx
  refine ⟨h.window.sublist ?_, fun x hx => h.oneFile x (hsub x hx), fun ht x hx => h.dst ht x (hsub x hx),
    ?_, rfl, h.mapped, fun ht p => ?_, fun c hc => ?_⟩
  · rw [hsplit]
    exact (List.sublist_append_left _ _).map _
  · intro pre' x post' hx hxw
    exact h.old pre' x (post' ++ post) (by rw [hsplit, show pre ++ [e] = pre' ++ x :: post' from hx]; simp) hxw
  · rw [← h.part ht p, FreeList.reclaimAll_queue, List.count_append, hsplit, dsts_append (pre ++ [e]) post,
      List.count_append]
    change _ + R.committedMap.image.count p + (dsts (pre ++ [e])).count p = _
    omega
  · obtain ⟨hcl, hnew⟩ := hlive c hc
    rcases h.ckpt c hcl with ⟨pre', x, post', hx, hxt, hm⟩ | ⟨hpos, hold⟩
    · -- a branch behind `e` would be newer, and its checkpoint gone
      have hin : x ∉ post := by
        intro hin
        have := h.newer_of_behind he hin
        rw [hxt, hnew] at this
        exact absurd this (by decide)
      rcases List.append_eq_append_iff.mp (hsplit.symm.trans hx) with ⟨as, has, hbs⟩ | ⟨as, has, hbs⟩
      · exact absurd (hbs ▸ by simp) hin
      · rcases as with _ | ⟨y, as⟩
        · exact absurd (show x ∈ post from by simp [← (show x :: post' = post by simpa using hbs)]) hin
        · obtain ⟨rfl, hpost⟩ := List.cons.inj hbs
          exact Or.inl ⟨pre', x, as, has, hxt, hm⟩
    · exact Or.inr ⟨hpos, fun x hx => hold x (hsub x hx)⟩

/-- **A checkpoint is what a rebuild over the surviving entries gives.** -/
theorem restore_eq_rebuild (h : RenInv total R) {pre post : List RobEntry} {e : RobEntry}
    (he : R.entries = pre ++ e :: post) {c : Checkpoint} (hc : c ∈ R.checkpoints.live)
    (htag : c.branchTag = e.tag) : c.renameMap = R.committedMap.rebuild (pre ++ [e]) := by
  rcases h.ckpt c hc with ⟨pre', x, post', hx, hxt, hm⟩ | ⟨-, hold⟩
  · have hnd := h.nodup_tags
    have hkeep := Rob.keepThrough_split he hnd
    have hkeep' := Rob.keepThrough_split hx hnd
    rw [hxt, htag, hkeep] at hkeep'
    rw [hm, hkeep']
  · have := hold e (by simp [he])
    rw [htag] at this
    exact absurd this (lt_irrefl _)

end RenInv

end Rvsim
