/-
# Instructions in flight

The out-of-order engine as what it says about instructions in flight: the
renaming structures, the register file beside the architectural registers,
and the containers that hold an instruction between rename and completion.
An instruction is `waiting` from rename until it issues and `flying` from
issue until its result is written; the queue, the latches and the miss
registers are only places where it does so.

Key definitions:
  - `Flight`, `FlightInv`
Key theorems:
  - one for each thing that can happen: `FlightInv.alloc`, `FlightInv.issue`, `FlightInv.finish`,
    `FlightInv.fault`, `FlightInv.retire`, `FlightInv.flushAll`, `FlightInv.flushAfter`
-/
import Rvsim.Arch
import Rvsim.Renamer

namespace Rvsim

/-! ### The register file -/

/-- The value of an architectural register of either file. -/
def RegisterFile.arch (r : RegisterFile) (i : RegIdx) (fp : Bool) : U64 := if fp then r.readF i else r.read i

namespace PhysRegFile

/-- The register is ready and holds `v`. -/
def Holds (f : PhysRegFile) (p : PhysReg) (v : U64) : Prop := f.isReady p = true ∧ f.read p = v

@[simp] theorem write_capacity (f : PhysRegFile) (p : PhysReg) (v : U64) :
    (f.write p v).capacity = f.capacity := by
  unfold write
  split <;> rfl

@[simp] theorem allocate_capacity (f : PhysRegFile) (p : PhysReg) : (f.allocate p).capacity = f.capacity := by
  unfold allocate
  split <;> rfl

theorem isReady_write_of_ne (f : PhysRegFile) {p q : PhysReg} (v : U64) (h : q ≠ p) :
    (f.write p v).isReady q = f.isReady q := by
  unfold write isReady
  split <;> simp [Function.update_of_ne h]

theorem read_write_of_ne (f : PhysRegFile) {p q : PhysReg} (v : U64) (h : q ≠ p) :
    (f.write p v).read q = f.read q := by
  unfold write read
  split <;> simp [Function.update_of_ne h]

theorem holds_write (f : PhysRegFile) {p : PhysReg} (v : U64) (h : f.inRange p = true) :
    (f.write p v).Holds p v := by
  have hlt : p.toNat < f.capacity := by
    simp only [inRange, Bool.and_eq_true, decide_eq_true_eq] at h
    exact h.2
  simp [Holds, write, h, isReady, read, hlt]

theorem Holds.write_of_ne {f : PhysRegFile} {p q : PhysReg} {u : U64} (h : f.Holds q u) (v : U64)
    (hne : q ≠ p) : (f.write p v).Holds q u :=
  ⟨by rw [isReady_write_of_ne f v hne]; exact h.1, by rw [read_write_of_ne f v hne]; exact h.2⟩

theorem isReady_allocate (f : PhysRegFile) {p : PhysReg} (h : f.inRange p = true) :
    (f.allocate p).isReady p = false := by
  simp [allocate, h, isReady]

theorem isReady_allocate_of_ne (f : PhysRegFile) {p q : PhysReg} (h : q ≠ p) :
    (f.allocate p).isReady q = f.isReady q := by
  unfold allocate isReady
  split <;> simp [Function.update_of_ne h]

theorem read_allocate (f : PhysRegFile) (p q : PhysReg) : (f.allocate p).read q = f.read q := by
  unfold allocate read
  split <;> rfl

/-- Writing the hardwired zero does nothing. -/
theorem write_zero (f : PhysRegFile) (v : U64) : f.write 0 v = f := by simp [write, inRange]

end PhysRegFile

/-! ### Updating entries of the buffer -/

/-- An update that leaves what rename fixed. -/
def RobEntry.Fixes (g : RobEntry → RobEntry) : Prop := ∀ e, (g e).bare = e.bare

namespace RobEntry

variable {g : RobEntry → RobEntry}

theorem Fixes.tag (h : Fixes g) (e : RobEntry) : (g e).tag = e.tag := by
  simpa using congrArg RobEntry.tag (h e)

theorem Fixes.physDst (h : Fixes g) (e : RobEntry) : (g e).physDst = e.physDst := by
  simpa using congrArg RobEntry.physDst (h e)

theorem Fixes.writesReg (h : Fixes g) (e : RobEntry) : (g e).writesReg = e.writesReg := by
  simpa using congrArg RobEntry.writesReg (h e)

theorem Fixes.map_bare (h : Fixes g) (es : List RobEntry) : (es.map g).map bare = es.map bare := by
  rw [List.map_map]
  exact List.map_congr_left fun e _ => h e

theorem Fixes.ite (h : Fixes g) (p : RobEntry → Prop) [DecidablePred p] :
    Fixes fun e => if p e then g e else e := by
  intro e
  by_cases hp : p e <;> simp [hp, h e]

end RobEntry

/-! ### The view -/

/-- The operand values are filled in when the instruction issues. -/
def RenameIssueEntry.bare (e : RenameIssueEntry) : RenameIssueEntry := { e with rv1 := 0, rv2 := 0, rv3 := 0 }

/-- The instruction's tag with the register its result goes to. -/
def RenameIssueEntry.dest (e : RenameIssueEntry) : RobTag × PhysReg := (e.robTag, e.rdPhys)

@[simp] theorem RenameIssueEntry.bare_robTag (e : RenameIssueEntry) : e.bare.robTag = e.robTag := rfl

@[simp] theorem RenameIssueEntry.bare_dest (e : RenameIssueEntry) : e.bare.dest = e.dest := rfl

structure Flight where
  rob : Rob
  freeList : FreeList
  renameMap : RenameMap
  committedMap : RenameMap
  checkpoints : CheckpointTable
  prf : PhysRegFile
  regs : RegisterFile
  /-- Renamed, not yet issued. -/
  waiting : List RenameIssueEntry
  /-- Issued, result not yet written: tag and destination. -/
  flying : List (RobTag × PhysReg)

namespace Flight

def renamer (f : Flight) : Renamer :=
  ⟨f.rob.entries.map RobEntry.bare, f.rob.nextTag, f.freeList, f.renameMap, f.committedMap, f.checkpoints⟩

/-- Everything between rename and the write of its result. -/
def held (f : Flight) : List (RobTag × PhysReg) := f.waiting.map RenameIssueEntry.dest ++ f.flying

/-- The tags held. -/
def tags (f : Flight) : List RobTag := f.held.map Prod.fst

/-- The view after a flush of everything. -/
def squashed (f : Flight) : Flight :=
  { f with
    rob := f.rob.flushAll
    freeList := f.freeList.reclaimAll f.rob.entries
    renameMap := f.committedMap
    checkpoints := f.checkpoints.flushAll
    waiting := []
    flying := [] }

/-- The view with the buffer's entries updated by `g`. -/
def mapEntries (f : Flight) (g : RobEntry → RobEntry) : Flight :=
  { f with rob := { f.rob with entries := f.rob.entries.map g } }

end Flight

/-- The sources of a renamed instruction are what `m` maps them to. -/
structure SourcesOk (m : RenameMap) (w : RenameIssueEntry) : Prop where
  rs1 : w.rs1Phys = m.get w.rs1 w.ctrl.rs1Fp
  rs2 : w.rs2Phys = m.get w.rs2 w.ctrl.rs2Fp
  rs3 : w.ctrl.rs3Fp = true → w.rs3Phys = m.get w.rs3 true

/-- What holds of the instructions in flight. With `D`, no instruction is ever lost: every entry
still `Issued` is held somewhere. -/
structure FlightInv (D : Prop) (total : Nat) (f : Flight) : Prop where
  ren : RenInv total f.renamer
  nodup : f.tags.Nodup
  held : ∀ x ∈ f.held, ∃ e ∈ f.rob.entries, e.tag = x.1 ∧ e.physDst = x.2 ∧ e.state ≠ .completed
  covered : D → ∀ e ∈ f.rob.entries, e.state = .issued → e.tag ∈ f.tags
  sources : ∀ w ∈ f.waiting, ∀ pre e post, f.renamer.entries = pre ++ e :: post → e.tag = w.robTag →
    SourcesOk (f.committedMap.rebuild pre) w
  cap : f.prf.capacity = total
  pending : Numbered total → ∀ e ∈ f.rob.entries, e.writesReg → e.state = .issued → f.prf.isReady e.physDst = false
  done : Numbered total → ∀ e ∈ f.rob.entries, e.writesReg → e.state = .completed →
    ∃ v, e.result = some v ∧ f.prf.Holds e.physDst v
  mirror : Numbered total → ∀ r fp, f.prf.Holds (f.committedMap.get r fp) (f.regs.arch r fp)
  faults : ∀ e ∈ f.rob.entries, e.state = .faulted → e.trap.isSome

namespace FlightInv

variable {D : Prop} {total : Nat} {f : Flight}

/-! ### Consequences -/

theorem mem_bare {e : RobEntry} (he : e ∈ f.rob.entries) : e.bare ∈ f.renamer.entries :=
  List.mem_map_of_mem he

theorem window (h : FlightInv D total f) : Serial.Window f.rob.nextTag (f.rob.entries.map (·.tag)) := by
  have := h.ren.window
  rwa [show f.renamer.entries.map (·.tag) = f.rob.entries.map (·.tag) by
    simp only [Flight.renamer, List.map_map]; rfl] at this

theorem nodup_tags (h : FlightInv D total f) : (f.rob.entries.map (·.tag)).Nodup := h.window.nodup

/-- Between entries of the buffer, newer is younger. -/
theorem newer_of_age (h : FlightInv D total f) {a b : RobTag} (ha : a ∈ f.rob.entries.map (·.tag))
    (hb : b ∈ f.rob.entries.map (·.tag))
    (hab : Serial.age f.rob.nextTag a < Serial.age f.rob.nextTag b) : RobTag.isNewerThan a b = true :=
  (h.window.sub_msb_iff (by decide) hb ha).mpr hab

theorem tag_mem (h : FlightInv D total f) {x : RobTag × PhysReg} (hx : x ∈ f.held) :
    x.1 ∈ f.rob.entries.map (·.tag) := by
  obtain ⟨e, he, hte, -, -⟩ := h.held x hx
  exact List.mem_map.mpr ⟨e, he, hte⟩

theorem eq_of_tag (h : FlightInv D total f) {a b : RobEntry} (ha : a ∈ f.rob.entries)
    (hb : b ∈ f.rob.entries) (hab : a.tag = b.tag) : a = b :=
  List.inj_on_of_nodup_map h.nodup_tags ha hb hab

/-- A destination of an entry in flight is a real register of the file. -/
theorem inRange_of_physRegs {p : PhysReg} {g : PhysRegFile} (hcap : g.capacity = total) (hp : p ≠ 0)
    (hmem : p ∈ physRegs total) : g.inRange p = true := by
  obtain ⟨i, hi, rfl⟩ := List.mem_map.mp hmem
  have hi' := List.mem_range.mp hi
  have hlt : (BitVec.ofNat 16 i).toNat ≤ i := by
    rw [BitVec.toNat_ofNat]
    exact Nat.mod_le _ _
  simp only [PhysRegFile.inRange, Bool.and_eq_true, decide_eq_true_eq, hcap]
  exact ⟨by simpa using hp, by omega⟩

theorem dst_mem (h : FlightInv D total f) (ht : Numbered total) {e : RobEntry} (he : e ∈ f.rob.entries)
    (hw : e.writesReg) :
    e.physDst ∈ dsts f.renamer.entries := by
  refine List.mem_filter.mpr ⟨List.mem_map.mpr ⟨e.bare, mem_bare he, rfl⟩, ?_⟩
  simpa using (h.ren.dst ht e.bare (mem_bare he)).mpr hw

theorem dst_inRange (h : FlightInv D total f) (ht : Numbered total) {e : RobEntry} (he : e ∈ f.rob.entries)
    (hw : e.writesReg) :
    f.prf.inRange e.physDst = true := by
  refine inRange_of_physRegs h.cap ((h.ren.dst ht e.bare (mem_bare he)).mpr hw) ?_
  have hpos := List.count_pos_iff.mpr (h.dst_mem ht he hw)
  have hpart := h.ren.part ht e.physDst
  exact List.count_pos_iff.mp (by omega)

theorem dst_zero (h : FlightInv D total f) (ht : Numbered total) {e : RobEntry} (he : e ∈ f.rob.entries)
    (hw : ¬e.writesReg) :
    e.physDst = 0 := by
  by_contra hne
  exact hw ((h.ren.dst ht e.bare (mem_bare he)).mp hne)

/-- Two entries in flight have different destinations. -/
theorem dst_inj (h : FlightInv D total f) (ht : Numbered total) {a b : RobEntry} (ha : a ∈ f.rob.entries)
    (hb : b ∈ f.rob.entries) (hw : a.writesReg) (hab : a.physDst = b.physDst) : a.tag = b.tag := by
  by_contra hne
  have hnd : (dsts f.renamer.entries).Nodup := by
    refine List.nodup_iff_count_le_one.mpr fun p => ?_
    have := h.ren.count_le_one ht p
    omega
  obtain ⟨l₁, l₂, hsplit⟩ := List.append_of_mem ha
  have hd0 : a.physDst ≠ 0 := (h.ren.dst ht a.bare (mem_bare ha)).mpr hw
  have hb' : b ∈ l₁ ++ l₂ := by
    have : b ∈ l₁ ++ a :: l₂ := hsplit ▸ hb
    rcases List.mem_append.mp this with h' | h'
    · exact List.mem_append_left _ h'
    · rcases List.mem_cons.mp h' with rfl | h''
      · exact absurd rfl hne
      · exact List.mem_append_right _ h''
  have hform : dsts f.renamer.entries =
      dsts (l₁.map RobEntry.bare) ++ a.physDst :: dsts (l₂.map RobEntry.bare) := by
    simp only [Flight.renamer, hsplit, List.map_append, List.map_cons, dsts_append, dsts_cons]
    rw [if_neg (show a.bare.physDst ≠ 0 from hd0)]
    rfl
  rw [hform] at hnd
  have hout := (List.nodup_cons.mp (List.nodup_middle.mp hnd)).1
  refine hout ?_
  rw [← dsts_append, ← List.map_append]
  refine List.mem_filter.mpr ⟨?_, by simpa using hd0⟩
  exact List.mem_map.mpr ⟨b.bare, List.mem_map_of_mem hb', hab.symm⟩

/-- A destination in flight is not a committed register. -/
theorem dst_ne_committed (h : FlightInv D total f) (ht : Numbered total) {e : RobEntry}
    (he : e ∈ f.rob.entries) (hw : e.writesReg) (r : RegIdx) (fp : Bool) :
    f.committedMap.get r fp ≠ e.physDst := by
  intro heq
  have h1 := List.count_pos_iff.mpr (f.committedMap.get_mem_image r fp)
  have h2 := List.count_pos_iff.mpr (h.dst_mem ht he hw)
  have h3 := h.ren.count_le_one ht e.physDst
  rw [heq] at h1
  simp only [Flight.renamer] at h2 h3
  omega

/-- Two committed registers are different physical registers. -/
theorem committed_inj (h : FlightInv D total f) (ht : Numbered total) {r r' : RegIdx} {fp fp' : Bool}
    (heq : f.committedMap.get r fp = f.committedMap.get r' fp') : r = r' ∧ fp = fp' := by
  have hnd : f.committedMap.image.Nodup := by
    refine List.nodup_iff_count_le_one.mpr fun p => ?_
    have := h.ren.count_le_one ht p
    simp only [Flight.renamer] at this
    omega
  have := List.inj_on_of_nodup_map hnd (RenameMap.mem_archRegs r fp) (RenameMap.mem_archRegs r' fp') heq
  simpa using this

/-! ### Moving instructions between containers -/

/-- **Reorganisation.** Held instructions move, and some may leave once they are no longer `Issued`. -/
theorem reorg (h : FlightInv D total f) {ws : List RenameIssueEntry} {fl : List (RobTag × PhysReg)}
    (hw : ∀ w ∈ ws, w ∈ f.waiting) (hs : (ws.map RenameIssueEntry.dest ++ fl).Subperm f.held)
    (hcov : D → ∀ e ∈ f.rob.entries, e.state = .issued →
      e.tag ∈ (ws.map RenameIssueEntry.dest ++ fl).map Prod.fst) :
    FlightInv D total { f with waiting := ws, flying := fl } where
  ren := h.ren
  nodup := by
    obtain ⟨l, hperm, hsub⟩ := hs
    exact ((hperm.map Prod.fst).nodup_iff).mp (h.nodup.sublist (hsub.map _))
  held := fun x hx => h.held x (hs.subset hx)
  covered := hcov
  sources := fun w hwm => h.sources w (hw w hwm)
  cap := h.cap
  pending := h.pending
  done := h.done
  mirror := h.mirror
  faults := h.faults

/-- Moving without losing anything. -/
theorem move (h : FlightInv D total f) {ws : List RenameIssueEntry} {fl : List (RobTag × PhysReg)}
    (hw : ∀ w ∈ ws, w ∈ f.waiting) (hp : (ws.map RenameIssueEntry.dest ++ fl).Perm f.held) :
    FlightInv D total { f with waiting := ws, flying := fl } :=
  h.reorg hw hp.subperm fun hD e he hst => by
    rw [(hp.map Prod.fst).mem_iff]
    exact h.covered hD e he hst

/-! ### Updates of buffer entries -/

theorem renamer_mapEntries {g : RobEntry → RobEntry} (hg : RobEntry.Fixes g) :
    (f.mapEntries g).renamer = f.renamer := by
  simp only [Flight.renamer, Flight.mapEntries, hg.map_bare]

/-- Fields that commit reads but renaming and dataflow do not. -/
theorem touch (h : FlightInv D total f) {g : RobEntry → RobEntry} (hg : RobEntry.Fixes g)
    (hst : ∀ e, (g e).state = e.state) (hres : ∀ e, (g e).result = e.result)
    (htr : ∀ e, (g e).trap = e.trap) : FlightInv D total (f.mapEntries g) := by
  have hmem : ∀ e' ∈ (f.mapEntries g).rob.entries, ∃ e ∈ f.rob.entries, g e = e' := fun e' he' =>
    List.mem_map.mp he'
  refine ⟨?_, h.nodup, ?_, ?_, ?_, h.cap, ?_, ?_, h.mirror, ?_⟩
  · rw [renamer_mapEntries hg]
    exact h.ren
  · intro x hx
    obtain ⟨e, he, h1, h2, h3⟩ := h.held x hx
    exact ⟨g e, List.mem_map_of_mem he, by rw [hg.tag, h1], by rw [hg.physDst, h2], by rw [hst]; exact h3⟩
  · intro hD e' he' hi
    obtain ⟨e, he, rfl⟩ := hmem e' he'
    rw [hg.tag]
    exact h.covered hD e he (by rw [← hst]; exact hi)
  · rw [renamer_mapEntries hg]
    exact h.sources
  · intro ht e' he' hw hi
    obtain ⟨e, he, rfl⟩ := hmem e' he'
    rw [hg.physDst]
    exact h.pending ht e he (by rw [← hg.writesReg]; exact hw) (by rw [← hst]; exact hi)
  · intro ht e' he' hw hc
    obtain ⟨e, he, rfl⟩ := hmem e' he'
    rw [hg.physDst, hres]
    exact h.done ht e he (by rw [← hg.writesReg]; exact hw) (by rw [← hst]; exact hc)
  · intro e' he' hf
    obtain ⟨e, he, rfl⟩ := hmem e' he'
    rw [htr]
    exact h.faults e he (by rw [← hst]; exact hf)

/-- An entry faults; it may stay held. -/
theorem fault (h : FlightInv D total f) (tag : RobTag) (t : Trap) :
    FlightInv D total { f with rob := f.rob.fault tag t } := by
  have hg : RobEntry.Fixes fun e => if e.tag = tag then { e with state := .faulted, trap := some t } else e :=
    RobEntry.Fixes.ite (g := fun e => { e with state := .faulted, trap := some t }) (fun _ => rfl) _
  refine ⟨?_, h.nodup, ?_, ?_, ?_, h.cap, ?_, ?_, h.mirror, ?_⟩
  · have := renamer_mapEntries (f := f) hg
    exact this ▸ h.ren
  · intro x hx
    obtain ⟨e, he, h1, h2, h3⟩ := h.held x hx
    refine ⟨_, List.mem_map_of_mem he, by rw [hg.tag, h1], by rw [hg.physDst, h2], ?_⟩
    by_cases hte : e.tag = tag
    · simp [hte]
    · simp only [if_neg hte]
      exact h3
  · intro hD e' he' hi
    obtain ⟨e, he, rfl⟩ := List.mem_map.mp he'
    by_cases hte : e.tag = tag
    · simp [hte] at hi
    · simp only [if_neg hte] at hi ⊢
      exact h.covered hD e he hi
  · have := renamer_mapEntries (f := f) hg
    exact fun w hw pre e post hs => h.sources w hw pre e post (this ▸ hs)
  · intro ht e' he' hw hi
    obtain ⟨e, he, rfl⟩ := List.mem_map.mp he'
    by_cases hte : e.tag = tag
    · simp [hte] at hi
    · simp only [if_neg hte] at hw hi ⊢
      exact h.pending ht e he hw hi
  · intro ht e' he' hw hc
    obtain ⟨e, he, rfl⟩ := List.mem_map.mp he'
    by_cases hte : e.tag = tag
    · simp [hte] at hc
    · simp only [if_neg hte] at hw hc ⊢
      exact h.done ht e he hw hc
  · intro e' he' hf
    obtain ⟨e, he, rfl⟩ := List.mem_map.mp he'
    by_cases hte : e.tag = tag
    · simp [hte]
    · simp only [if_neg hte] at hf ⊢
      exact h.faults e he hf

/-- The update `Rob.complete` makes. -/
def completeEntry (v : U64) (e : RobEntry) : RobEntry :=
  if e.state = .faulted then e else { e with state := .completed, result := some v }

theorem fixes_complete (tag : RobTag) (v : U64) :
    RobEntry.Fixes fun e => if e.tag = tag then completeEntry v e else e := by
  refine RobEntry.Fixes.ite (fun e => ?_) _
  unfold completeEntry
  split <;> rfl

/-- **A result is written.** The buffer entry completes, the register file gets the value, and the
instruction is no longer held. -/
theorem finish (h : FlightInv D total f) {tag : RobTag} {p : PhysReg}
    {fl : List (RobTag × PhysReg)} (hfl : f.flying = (tag, p) :: fl) (v : U64) :
    FlightInv D total { f with rob := f.rob.complete tag v, prf := f.prf.write p v, flying := fl } := by
  have hg := fixes_complete tag v
  have hren : ({ f with rob := f.rob.complete tag v } : Flight).renamer = f.renamer :=
    renamer_mapEntries (f := f) hg
  have hperm : f.held.Perm ((tag, p) :: (f.waiting.map RenameIssueEntry.dest ++ fl)) := by
    rw [Flight.held, hfl]
    exact List.perm_middle
  have hnd : tag ∉ (f.waiting.map RenameIssueEntry.dest ++ fl).map Prod.fst ∧
      ((f.waiting.map RenameIssueEntry.dest ++ fl).map Prod.fst).Nodup :=
    List.nodup_cons.mp ((hperm.map Prod.fst).nodup_iff.mp h.nodup)
  obtain ⟨e₀, he₀, ht₀, hp₀, hs₀⟩ := h.held (tag, p) (hperm.mem_iff.mpr List.mem_cons_self)
  simp only at ht₀ hp₀
  -- the register written is the entry's own, or none at all
  have hother : Numbered total → ∀ q : PhysReg, (e₀.writesReg → q ≠ e₀.physDst) →
      (f.prf.write p v).isReady q = f.prf.isReady q ∧ (f.prf.write p v).read q = f.prf.read q := by
    intro ht q hq
    by_cases hw : e₀.writesReg
    · have hne : q ≠ p := hp₀ ▸ hq hw
      exact ⟨f.prf.isReady_write_of_ne v hne, f.prf.read_write_of_ne v hne⟩
    · rw [← hp₀, h.dst_zero ht he₀ hw, PhysRegFile.write_zero]
      exact ⟨rfl, rfl⟩
  have hmem : ∀ e' ∈ (f.rob.complete tag v).entries, ∃ e ∈ f.rob.entries,
      (if e.tag = tag then completeEntry v e else e) = e' := fun e' he' => List.mem_map.mp he'
  refine ⟨?_, hnd.2, ?_, ?_, ?_, ?_, ?_, ?_, ?_, ?_⟩
  · exact hren ▸ h.ren
  · intro x hx
    obtain ⟨e, he, h1, h2, h3⟩ := h.held x (hperm.mem_iff.mpr (List.mem_cons_of_mem _ hx))
    have hne : e.tag ≠ tag := by
      rw [h1]
      intro heq
      exact hnd.1 (heq ▸ List.mem_map_of_mem hx)
    refine ⟨e, ?_, h1, h2, h3⟩
    exact List.mem_map.mpr ⟨e, he, if_neg hne⟩
  · intro hD e' he' hi
    obtain ⟨e, he, rfl⟩ := hmem e' he'
    by_cases hte : e.tag = tag
    · rw [if_pos hte] at hi
      unfold completeEntry at hi
      split at hi <;> simp_all
    · rw [if_neg hte] at hi ⊢
      have := (hperm.map Prod.fst).mem_iff.mp (h.covered hD e he hi)
      rcases List.mem_cons.mp this with h' | h'
      · exact absurd h' hte
      · exact h'
  · exact fun w hw pre e post hs => h.sources w hw pre e post (hren ▸ hs)
  · exact (PhysRegFile.write_capacity _ _ _).trans h.cap
  · intro ht e' he' hw hi
    obtain ⟨e, he, rfl⟩ := hmem e' he'
    by_cases hte : e.tag = tag
    · rw [if_pos hte] at hi
      unfold completeEntry at hi
      split at hi <;> simp_all
    · rw [if_neg hte] at hw hi ⊢
      rw [(hother ht e.physDst fun hw₀ heq => hte ((h.dst_inj ht he he₀ hw heq).trans ht₀)).1]
      exact h.pending ht e he hw hi
  · intro ht e' he' hw hc
    obtain ⟨e, he, rfl⟩ := hmem e' he'
    by_cases hte : e.tag = tag
    · rw [if_pos hte] at hw hc ⊢
      have hee : e = e₀ := h.eq_of_tag he he₀ (hte.trans ht₀.symm)
      unfold completeEntry at hw hc ⊢
      split at hc
      · rename_i hf
        rw [hf] at hc
        exact absurd hc (by decide)
      · rename_i hf
        rw [if_neg hf] at hw ⊢
        refine ⟨v, rfl, ?_⟩
        have hpe : e.physDst = p := hee ▸ hp₀
        change (f.prf.write p v).Holds e.physDst v
        rw [hpe]
        exact f.prf.holds_write v (hpe ▸ h.dst_inRange ht he hw)
    · rw [if_neg hte] at hw hc ⊢
      obtain ⟨u, hu, hr, hv⟩ := h.done ht e he hw hc
      have hsame := hother ht e.physDst fun hw₀ heq => hte ((h.dst_inj ht he he₀ hw heq).trans ht₀)
      exact ⟨u, hu, hsame.1.trans hr, hsame.2.trans hv⟩
  · intro ht r fp
    obtain ⟨hr, hv⟩ := h.mirror ht r fp
    have hsame := hother ht (f.committedMap.get r fp) fun hw₀ => h.dst_ne_committed ht he₀ hw₀ r fp
    exact ⟨hsame.1.trans hr, hsame.2.trans hv⟩
  · intro e' he' hf
    obtain ⟨e, he, rfl⟩ := hmem e' he'
    by_cases hte : e.tag = tag
    · rw [if_pos hte] at hf ⊢
      unfold completeEntry at hf ⊢
      split at hf
      · rename_i hfe
        rw [if_pos hfe]
        exact h.faults e he hfe
      · exact absurd hf (by simp)
    · rw [if_neg hte] at hf ⊢
      exact h.faults e he hf

/-- The same for an instruction found anywhere among the flying ones. -/
theorem finish_of_perm (h : FlightInv D total f) {tag : RobTag} {p : PhysReg}
    {fl : List (RobTag × PhysReg)} (hp : f.flying.Perm ((tag, p) :: fl)) (v : U64) :
    FlightInv D total { f with rob := f.rob.complete tag v, prf := f.prf.write p v, flying := fl } :=
  (h.move (fun _ hw => hw) (List.Perm.append_left (f.waiting.map RenameIssueEntry.dest) hp.symm)).finish rfl v

/-- An instruction faults and is held no longer. -/
theorem fault_drop (h : FlightInv D total f) {tag : RobTag} {p : PhysReg}
    {fl : List (RobTag × PhysReg)} (hp : f.flying.Perm ((tag, p) :: fl)) (t : Trap) :
    FlightInv D total { f with rob := f.rob.fault tag t, flying := fl } := by
  have hheld : f.held.Perm ((tag, p) :: (f.waiting.map RenameIssueEntry.dest ++ fl)) :=
    (List.Perm.append_left _ hp).trans List.perm_middle
  refine (h.fault tag t).reorg (fun _ (hw : _ ∈ f.waiting) => hw) ?_ fun hD e' he' hi => ?_
  · exact (List.sublist_cons_self _ _).subperm.trans hheld.symm.subperm
  · obtain ⟨e, he, rfl⟩ := List.mem_map.mp he'
    by_cases hte : e.tag = tag
    · simp [hte] at hi
    · simp only [if_neg hte] at hi ⊢
      have := (hheld.map Prod.fst).mem_iff.mp (h.covered hD e he hi)
      exact (List.mem_cons.mp this).resolve_left hte

/-! ### Rename -/

/-- The view after `e` is renamed and handed on as `w`. -/
def alloc (f : Flight) (e : RobEntry) (fl : FreeList) (w : RenameIssueEntry) : Flight :=
  { f with
    rob := { f.rob with entries := f.rob.entries ++ [e], nextTag := f.rob.nextTag.next }
    freeList := fl
    renameMap := f.renameMap.applyEntry e
    prf := if e.writesReg then f.prf.allocate e.physDst else f.prf
    waiting := f.waiting ++ [w] }

/-- The counter's own value is no tag in use. -/
theorem nextTag_fresh (h : FlightInv D total f) {e : RobEntry} (he : e ∈ f.rob.entries) :
    e.tag ≠ f.rob.nextTag := by
  intro heq
  have := (h.ren.window.bounded e.tag (List.mem_map.mpr ⟨e.bare, mem_bare he, rfl⟩)).1
  rw [heq] at this
  exact absurd (Serial.age_self f.rob.nextTag) (Nat.pos_iff_ne_zero.mp this)

/-- **Rename.** A destination comes off the free list, the instruction starts waiting. -/
theorem alloc_inv (h : FlightInv D total f) (hroom : f.renamer.Room (RenInv.tagStep f.rob.nextTag))
    {e : RobEntry} {fl : FreeList} {w : RenameIssueEntry} (hst : e.state = .issued) (htag : e.tag = f.rob.nextTag)
    (hone : e.ctrl.OneFile) (hfl : RenInv.Takes f.freeList e fl)
    (hold : e.writesReg → e.oldPhysDst = f.renameMap.get e.rd e.ctrl.fpRegWrite)
    (hw : w.dest = (e.tag, e.physDst)) (hsrc : SourcesOk f.renameMap w) :
    FlightInv D total (alloc f e fl w) := by
  have hren : (alloc f e fl w).renamer = RenInv.push f.renamer e.bare fl := by
    simp only [Flight.renamer, alloc, RenInv.push, List.map_append, List.map_cons, List.map_nil,
      RenameMap.applyEntry_bare]
  have hinv : RenInv total (RenInv.push f.renamer e.bare fl) := h.ren.push_inv hroom htag hone hfl hold
  have hwt : w.robTag = f.rob.nextTag := htag ▸ congrArg Prod.fst hw
  have hperm : (alloc f e fl w).held.Perm ((e.tag, e.physDst) :: f.held) := by
    simp only [Flight.held, alloc, List.map_append, List.map_cons, List.map_nil, hw, List.append_assoc,
      List.singleton_append]
    exact List.perm_middle
  have hmem : ∀ x ∈ (alloc f e fl w).rob.entries, x ∈ f.rob.entries ∨ x = e := fun x hx => by
    simpa [alloc] using hx
  -- registers other than the new destination keep their state
  have hother : ∀ q : PhysReg, (e.writesReg → q ≠ e.physDst) →
      (alloc f e fl w).prf.isReady q = f.prf.isReady q ∧ (alloc f e fl w).prf.read q = f.prf.read q := by
    intro q hq
    by_cases hwr : e.writesReg
    · simp only [alloc, if_pos hwr]
      exact ⟨f.prf.isReady_allocate_of_ne (hq hwr), f.prf.read_allocate _ _⟩
    · simp [alloc, hwr]
  have hfree : e.writesReg → e.physDst ∈ f.freeList.queue := by
    intro hwr
    rcases hfl with ⟨-, hq⟩ | ⟨hnw, -, -⟩
    · rw [hq]
      exact List.mem_cons_self
    · simp [hwr] at hnw
  have hdst : Numbered total → ∀ x ∈ f.rob.entries, x.writesReg → e.writesReg → x.physDst ≠ e.physDst := by
    intro ht x hx hxw hwr heq
    have h1 := List.count_pos_iff.mpr (h.dst_mem ht hx hxw)
    have h2 := List.count_pos_iff.mpr (hfree hwr)
    have h3 := h.ren.count_le_one ht e.physDst
    rw [heq] at h1
    simp only [Flight.renamer] at h1 h3
    omega
  refine ⟨hren ▸ hinv, ?_, ?_, ?_, ?_, ?_, ?_, ?_, ?_, ?_⟩
  · refine (hperm.map Prod.fst).nodup_iff.mpr (List.nodup_cons.mpr ⟨fun hin => ?_, h.nodup⟩)
    obtain ⟨x, hx, hxe⟩ := List.mem_map.mp hin
    obtain ⟨y, hy, hyt, -, -⟩ := h.held x hx
    exact h.nextTag_fresh hy (hyt.trans (hxe.trans htag))
  · intro x hx
    rcases List.mem_cons.mp (hperm.mem_iff.mp hx) with rfl | hx'
    · exact ⟨e, by simp [alloc], rfl, rfl, by simp [hst]⟩
    · obtain ⟨y, hy, h1, h2, h3⟩ := h.held x hx'
      exact ⟨y, by simp [alloc, hy], h1, h2, h3⟩
  · intro hD x hx hi
    refine (hperm.map Prod.fst).mem_iff.mpr ?_
    rcases hmem x hx with hx' | rfl
    · exact List.mem_cons_of_mem _ (h.covered hD x hx' hi)
    · exact List.mem_cons_self
  · intro w' hw' pre x post hsplit hxt
    rw [hren] at hsplit
    have hsplit' : f.renamer.entries ++ [e.bare] = pre ++ x :: post := hsplit
    rcases List.eq_nil_or_concat post with rfl | ⟨post', y, rfl⟩
    · obtain ⟨hpre, hxe⟩ := List.append_inj' hsplit' rfl
      obtain rfl : e.bare = x := by simpa using hxe
      rcases List.mem_append.mp hw' with hin | hin
      · -- an instruction renamed before has an older tag
        exfalso
        obtain ⟨y, hy, hyt, -, -⟩ := h.held w'.dest (List.mem_append_left _ (List.mem_map_of_mem hin))
        exact h.nextTag_fresh hy (hyt.trans (hxt.symm.trans htag))
      · rw [List.mem_singleton.mp hin, ← hpre]
        have := h.ren.map
        simp only [Flight.renamer] at this
        exact this ▸ hsrc
    · have hold' : f.renamer.entries = pre ++ x :: post' :=
        (List.append_inj' (show f.renamer.entries ++ [e.bare] = (pre ++ x :: post') ++ [y] by
          simpa using hsplit') rfl).1
      rcases List.mem_append.mp hw' with hin | hin
      · exact h.sources w' hin pre x post' hold' hxt
      · exfalso
        have hx : x ∈ f.renamer.entries := by simp [hold']
        obtain ⟨y, hy, rfl⟩ := List.mem_map.mp hx
        exact h.nextTag_fresh hy (hxt.trans (by rw [List.mem_singleton.mp hin, hwt]))
  · simp only [alloc]
    split
    · exact (PhysRegFile.allocate_capacity _ _).trans h.cap
    · exact h.cap
  · intro ht x hx hxw hi
    rcases hmem x hx with hx' | rfl
    · rw [(hother x.physDst (hdst ht x hx' hxw)).1]
      exact h.pending ht x hx' hxw hi
    · simp only [alloc, if_pos hxw]
      refine f.prf.isReady_allocate (inRange_of_physRegs h.cap ?_ ?_)
      · exact (hinv.dst ht x.bare (by simp [RenInv.push])).mpr hxw
      · have h1 := List.count_pos_iff.mpr (hfree hxw)
        have h2 := h.ren.part ht x.physDst
        simp only [Flight.renamer] at h2
        exact List.count_pos_iff.mp (by omega)
  · intro ht x hx hxw hc
    rcases hmem x hx with hx' | rfl
    · obtain ⟨u, hu, hr, hv⟩ := h.done ht x hx' hxw hc
      have hsame := hother x.physDst (hdst ht x hx' hxw)
      exact ⟨u, hu, hsame.1.trans hr, hsame.2.trans hv⟩
    · rw [hst] at hc
      exact absurd hc (by decide)
  · intro ht r fp
    obtain ⟨hr, hv⟩ := h.mirror ht r fp
    have hsame := hother (f.committedMap.get r fp) fun hwr heq => by
      have h1 := List.count_pos_iff.mpr (f.committedMap.get_mem_image r fp)
      have h2 := List.count_pos_iff.mpr (hfree hwr)
      have h3 := h.ren.count_le_one ht e.physDst
      rw [heq] at h1
      simp only [Flight.renamer] at h3
      omega
    exact ⟨hsame.1.trans hr, hsame.2.trans hv⟩
  · intro x hx hf
    rcases hmem x hx with hx' | rfl
    · exact h.faults x hx' hf
    · rw [hst] at hf
      exact absurd hf (by decide)

/-- A checkpoint of the current map for the youngest entry. -/
theorem snapshot (h : FlightInv D total f) {pre : List RobEntry} {e : RobEntry}
    (he : f.rob.entries = pre ++ [e]) (t : CheckpointTable)
    (hlive : ∀ c ∈ t.live, c = ⟨e.tag, f.renameMap⟩ ∨ c ∈ f.checkpoints.live) :
    FlightInv D total { f with checkpoints := t } where
  ren := h.ren.snapshot (show f.renamer.entries = pre.map RobEntry.bare ++ [e.bare] by simp [Flight.renamer, he])
      t hlive
  nodup := h.nodup
  held := h.held
  covered := h.covered
  sources := h.sources
  cap := h.cap
  pending := h.pending
  done := h.done
  mirror := h.mirror
  faults := h.faults

/-! ### Commit -/

/-- `regs'` is `regs` with the destination of `e` set to `v`. -/
def Writes (e : RobEntry) (v : U64) (regs regs' : RegisterFile) : Prop :=
  ∀ r fp, regs'.arch r fp =
    if e.writesReg = true ∧ r = e.rd ∧ fp = e.ctrl.fpRegWrite then v else regs.arch r fp

/-- The view after the head retires. -/
def retireHead (f : Flight) (e : RobEntry) (rest : List RobEntry) (regs : RegisterFile) : Flight :=
  { f with
    rob := { f.rob with entries := rest }
    committedMap := f.committedMap.applyEntry e
    freeList :=
      if e.writesReg = true ∧ e.oldPhysDst ≠ e.physDst then f.freeList.reclaim e.oldPhysDst else f.freeList
    regs := regs }

/-- **Retirement of a completed head.** -/
theorem retire_inv (h : FlightInv D total f) {e : RobEntry} {rest : List RobEntry}
    {regs : RegisterFile} (he : f.rob.entries = e :: rest) (hst : e.state = .completed)
    (hregs : Writes e (e.result.getD 0) f.regs regs) : FlightInv D total (retireHead f e rest regs) := by
  have hren : (retireHead f e rest regs).renamer = RenInv.retire f.renamer e.bare (rest.map RobEntry.bare) := rfl
  have hbare : f.renamer.entries = e.bare :: rest.map RobEntry.bare := by simp [Flight.renamer, he]
  have hin : e ∈ f.rob.entries := by simp [he]
  have hsub : ∀ x ∈ rest, x ∈ f.rob.entries := fun x hx => by simp [he, hx]
  have hone : e.ctrl.OneFile := h.ren.oneFile e.bare (mem_bare hin)
  refine ⟨hren ▸ h.ren.retire_inv hbare, h.nodup, ?_, fun hD x hx => h.covered hD x (hsub x hx), ?_, h.cap,
    fun ht x hx => h.pending ht x (hsub x hx), fun ht x hx => h.done ht x (hsub x hx), ?_,
    fun x hx => h.faults x (hsub x hx)⟩
  · intro x hx
    obtain ⟨y, hy, h1, h2, h3⟩ := h.held x hx
    rw [he] at hy
    rcases List.mem_cons.mp hy with rfl | hy'
    · exact absurd hst h3
    · exact ⟨y, hy', h1, h2, h3⟩
  · intro w hw pre x post hs hxt
    have hs' : rest.map RobEntry.bare = pre ++ x :: post := hs
    exact h.sources w hw (e.bare :: pre) x post (by rw [hbare, hs']; rfl) hxt
  · intro ht r fp
    rw [show (retireHead f e rest regs).regs.arch r fp = _ from hregs r fp]
    change f.prf.Holds ((f.committedMap.applyEntry e).get r fp) _
    rw [RenameMap.applyEntry_eq _ e hone]
    by_cases hw : e.writesReg
    · rw [if_pos hw, RenameMap.get_set _ _ _ _ _ _ (RenameMap.isReal_of_writes hw)]
      by_cases hr : r = e.rd ∧ fp = e.ctrl.fpRegWrite
      · rw [if_pos hr, if_pos ⟨hw, hr⟩]
        obtain ⟨v, hv, hholds⟩ := h.done ht e hin hw hst
        rw [hv]
        exact hholds
      · rw [if_neg hr, if_neg fun hc => hr hc.2]
        exact h.mirror ht r fp
    · rw [if_neg hw, if_neg fun hc => hw hc.1]
      exact h.mirror ht r fp

theorem dropCkpts (h : FlightInv D total f) (t : CheckpointTable)
    (hlive : ∀ c ∈ t.live, c ∈ f.checkpoints.live) : FlightInv D total { f with checkpoints := t } :=
  ⟨h.ren.dropCkpts t hlive, h.nodup, h.held, h.covered, h.sources, h.cap, h.pending, h.done, h.mirror,
    h.faults⟩

/-- The result of a failed store-conditional replaces the one it committed with. -/
theorem rewrite_inv (h : FlightInv D total f) {rd : RegIdx} (hrd : rd ≠ 0) (v : U64) :
    FlightInv D total { f with
      prf := f.prf.write (f.committedMap.get rd false) v, regs := f.regs.write rd v } := by
  have hreal : RenameMap.IsReal rd false := Or.inr hrd
  have hrange : Numbered total → f.prf.inRange (f.committedMap.get rd false) = true := by
    intro ht
    have h0 : f.committedMap.get rd false ≠ 0 := h.ren.mapped ht rd false hreal
    have hmem := List.count_pos_iff.mpr (f.committedMap.get_mem_image rd false)
    have hpart := h.ren.part ht (f.committedMap.get rd false)
    simp only [Flight.renamer] at hpart
    exact inRange_of_physRegs h.cap h0 (List.count_pos_iff.mp (by omega))
  have hne : Numbered total → ∀ x ∈ f.rob.entries, x.writesReg → x.physDst ≠ f.committedMap.get rd false :=
    fun ht x hx hxw heq => h.dst_ne_committed ht hx hxw rd false heq.symm
  refine ⟨h.ren, h.nodup, h.held, h.covered, h.sources, (PhysRegFile.write_capacity _ _ _).trans h.cap,
    ?_, ?_, ?_, h.faults⟩
  · intro ht x hx hxw hi
    rw [PhysRegFile.isReady_write_of_ne _ _ (hne ht x hx hxw)]
    exact h.pending ht x hx hxw hi
  · intro ht x hx hxw hc
    obtain ⟨u, hu, hholds⟩ := h.done ht x hx hxw hc
    exact ⟨u, hu, hholds.write_of_ne v (hne ht x hx hxw)⟩
  · intro ht r fp
    by_cases hr : r = rd ∧ fp = false
    · obtain ⟨rfl, rfl⟩ := hr
      have hval : (f.regs.write r v).arch r false = v := by
        have : ¬r = 0#5 := hrd
        simp [RegisterFile.arch, RegisterFile.read, RegisterFile.write, RegIdx.isZero, this]
      rw [hval]
      exact f.prf.holds_write v (hrange ht)
    · have hval : (f.regs.write rd v).arch r fp = f.regs.arch r fp := by
        have : ¬rd = 0#5 := hrd
        cases fp with
        | true => simp [RegisterFile.arch, RegisterFile.readF, RegisterFile.write, RegIdx.isZero, this]
        | false =>
          have hrr : r ≠ rd := fun heq => hr ⟨heq, rfl⟩
          simp [RegisterFile.arch, RegisterFile.read, RegisterFile.write, RegIdx.isZero, this,
            Function.update_of_ne hrr]
      rw [hval]
      refine (h.mirror ht r fp).write_of_ne v fun heq => hr ?_
      exact h.committed_inj ht heq

/-! ### Squash -/

/-- **Everything in flight is dropped.** -/
theorem squashed_inv (h : FlightInv D total f) : FlightInv D total f.squashed where
  ren := by
    have hfl : f.freeList.reclaimAll f.rob.entries = f.freeList.reclaimAll f.renamer.entries := by
      simp only [FreeList.reclaimAll, Flight.renamer, List.foldl_map]
      rfl
    rw [Flight.squashed, hfl]
    exact h.ren.flushAll_inv _ (CheckpointTable.live_flushAll _)
  nodup := List.nodup_nil
  held := by simp [Flight.held, Flight.squashed]
  covered := by simp [Flight.squashed, Rob.flushAll]
  sources := by simp [Flight.squashed]
  cap := h.cap
  pending := by simp [Flight.squashed, Rob.flushAll]
  done := by simp [Flight.squashed, Rob.flushAll]
  mirror := h.mirror
  faults := by simp [Flight.squashed, Rob.flushAll]

/-- An entry that is not newer than `e` is in front of `e` or is `e`. -/
theorem mem_kept (h : FlightInv D total f) {pre post : List RobEntry} {e x : RobEntry}
    (he : f.rob.entries = pre ++ e :: post) (hx : x ∈ f.rob.entries)
    (hold : RobTag.isNewerThan x.tag e.tag = false) : x ∈ pre ++ [e] := by
  rw [he, List.append_cons] at hx
  rcases List.mem_append.mp hx with hx' | hx'
  · exact hx'
  · have hbare : f.renamer.entries = pre.map RobEntry.bare ++ e.bare :: post.map RobEntry.bare := by
      simp [Flight.renamer, he]
    have := h.ren.newer_of_behind hbare (List.mem_map_of_mem hx')
    simp only [RobEntry.bare_tag] at this
    rw [hold] at this
    exact absurd this (by decide)

/-- **Everything newer than `e` is dropped.** -/
theorem flushAfter_inv (h : FlightInv D total f) {pre post : List RobEntry} {e : RobEntry}
    (he : f.rob.entries = pre ++ e :: post) {t : CheckpointTable} {ws : List RenameIssueEntry}
    {fl : List (RobTag × PhysReg)}
    (hlive : ∀ c ∈ t.live, c ∈ f.checkpoints.live ∧ RobTag.isNewerThan c.branchTag e.tag = false)
    (hw : ∀ w ∈ ws, w ∈ f.waiting) (hs : (ws.map RenameIssueEntry.dest ++ fl).Subperm f.held)
    (hkept : ∀ x ∈ ws.map RenameIssueEntry.dest ++ fl, RobTag.isNewerThan x.1 e.tag = false)
    (hcov : D → ∀ x ∈ f.held, RobTag.isNewerThan x.1 e.tag = false →
      x ∈ ws.map RenameIssueEntry.dest ++ fl) :
    FlightInv D total { f with
      rob := { f.rob with entries := pre ++ [e] }, freeList := f.freeList.reclaimAll post,
      renameMap := f.committedMap.rebuild (pre ++ [e]), checkpoints := t, waiting := ws, flying := fl } := by
  have hbare : f.renamer.entries = pre.map RobEntry.bare ++ e.bare :: post.map RobEntry.bare := by
    simp [Flight.renamer, he]
  have hsub : ∀ x ∈ pre ++ [e], x ∈ f.rob.entries := fun x hx => by
    rw [he, List.append_cons]
    exact List.mem_append_left _ hx
  refine ⟨?_, ?_, ?_, ?_, ?_, h.cap, fun ht x hx => h.pending ht x (hsub x hx), fun ht x hx => h.done ht x (hsub x hx),
    h.mirror, fun x hx => h.faults x (hsub x hx)⟩
  · have hfl : f.freeList.reclaimAll post = f.freeList.reclaimAll (post.map RobEntry.bare) := by
      simp only [FreeList.reclaimAll, List.foldl_map]
      rfl
    have hmap : f.committedMap.rebuild (pre ++ [e]) =
        f.committedMap.rebuild (pre.map RobEntry.bare ++ [e.bare]) := by
      rw [← RenameMap.rebuild_bare _ (pre ++ [e])]
      simp
    rw [hfl, hmap]
    have := h.ren.flushAfter_inv hbare t hlive
    simpa [Flight.renamer] using this
  · obtain ⟨l, hperm, hl⟩ := hs
    exact ((hperm.map Prod.fst).nodup_iff).mp (h.nodup.sublist (hl.map _))
  · intro x hx
    obtain ⟨y, hy, h1, h2, h3⟩ := h.held x (hs.subset hx)
    exact ⟨y, h.mem_kept he hy (by rw [h1]; exact hkept x hx), h1, h2, h3⟩
  · intro hD x hx hi
    obtain ⟨y, hy, hyt⟩ := List.mem_map.mp (h.covered hD x (hsub x hx) hi)
    refine List.mem_map.mpr ⟨y, hcov hD y hy ?_, hyt⟩
    rw [hyt]
    have hwin : Serial.Window f.rob.nextTag (pre.map (·.tag) ++ e.tag :: post.map (·.tag)) := by
      have := h.window
      rw [he] at this
      simpa using this
    obtain ⟨hpre, hself, -⟩ := hwin.newer_split (by decide)
    rcases List.mem_append.mp hx with hx' | hx'
    · exact hpre x.tag (List.mem_map_of_mem hx')
    · rw [List.mem_singleton.mp hx']
      exact hself
  · intro w hwm pre' x post' hsplit hxt
    have hsplit' : pre.map RobEntry.bare ++ [e.bare] = pre' ++ x :: post' := by
      simpa [Flight.renamer] using hsplit
    refine h.sources w (hw w hwm) pre' x (post' ++ post.map RobEntry.bare) ?_ hxt
    rw [hbare, List.append_cons, hsplit']
    simp

end FlightInv

end Rvsim
