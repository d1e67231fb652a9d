/-
# The in-order engine in flight

The buffer falls into two parts: instructions that have executed, in front,
and those that wait, behind, in the order of the queue. What the memory
stages hold belongs to the front part. The scoreboard names the last writer of
every register in the buffer, and an instruction that waits kept the names it
found there at rename.

Key definitions:
  - `InOrderState.waiting`, `InOrderState.flying`, `InOrderInv`
Key theorems:
  - `InOrderInv.advance`, `InOrderInv.pop`, `InOrderInv.flushed`
  - `InOrder.commit_inv`, `InOrder.writeback_inv`, `InOrder.memory2_inv`, `InOrder.memory1_inv`
-/
import Rvsim.FirstFault
import Rvsim.Lib.Producers

namespace Rvsim

open Producers

variable {U : Type}

/-! ### Writers -/

/-- The register an entry writes when it retires. -/
def RobEntry.dst (e : RobEntry) : Option (RegIdx × Bool) :=
  if e.ctrl.fpRegWrite then some (e.rd, true) else if e.writesGpr then some (e.rd, false) else none

def RobEntry.writer (e : RobEntry) : Producers.Writer RobTag (RegIdx × Bool) := ⟨e.tag, e.dst⟩

@[simp] theorem RobEntry.writer_tag (e : RobEntry) : e.writer.tag = e.tag := rfl

theorem RobEntry.writer_bare (e : RobEntry) : e.bare.writer = e.writer := rfl

/-- The scoreboard as a table of producers. -/
def Scoreboard.table (s : Scoreboard) (r : RegIdx × Bool) : Option RobTag := s.getProducer r.1 r.2

namespace Scoreboard

theorem table_new : new.table = fun _ => none := by
  funext r
  unfold table getProducer new
  cases r.2 <;> rfl

theorem update_table (s : Scoreboard) (rd : RegIdx) (o : Option RobTag) :
    ({ s with fpr := Function.update s.fpr rd o } : Scoreboard).table = Function.update s.table (rd, true) o ∧
      ({ s with gpr := Function.update s.gpr rd o } : Scoreboard).table = Function.update s.table (rd, false) o := by
  constructor
  · funext ⟨r, fp⟩
    cases fp <;> by_cases h : r = rd <;> simp [table, getProducer, h]
  · funext ⟨r, fp⟩
    cases fp <;> by_cases h : r = rd <;> simp [table, getProducer, h]

theorem table_applyEntry (s : Scoreboard) (e : RobEntry) : (s.applyEntry e).table = enter s.table e.writer := by
  unfold applyEntry enter RobEntry.writer RobEntry.dst RobEntry.writesGpr
  by_cases hf : e.ctrl.fpRegWrite
  · rw [if_pos hf]
    simp only [if_pos hf]
    exact (update_table s e.rd (some e.tag)).1
  · rw [if_neg hf]
    simp only [if_neg hf]
    by_cases hg : (e.ctrl.regWrite && !e.rd.isZero) = true
    · rw [if_pos hg]
      simp only [if_pos hg]
      exact (update_table s e.rd (some e.tag)).2
    · rw [if_neg hg]
      simp only [if_neg hg]

theorem table_rebuild (r : Rob) : (rebuildFromRob r).table = (r.entries.map RobEntry.writer).foldl enter
    fun _ => none := by
  have hloop : ∀ (es : List RobEntry) (s : Scoreboard),
      (es.foldl applyEntry s).table = (es.map RobEntry.writer).foldl enter s.table := by
    intro es
    induction es with
    | nil => exact fun s => rfl
    | cons e es ih =>
      intro s
      rw [List.foldl_cons, ih, table_applyEntry]
      rfl
  rw [rebuildFromRob, hloop, table_new]

theorem table_clear (s : Scoreboard) (rd : RegIdx) (fp : Bool) (tag : RobTag) :
    (s.clearIfMatch rd fp tag).table = leave s.table ⟨tag, some (rd, fp)⟩ := by
  unfold clearIfMatch leave
  dsimp only
  by_cases h : s.getProducer rd fp = some tag
  · have h' : s.table (rd, fp) = some tag := h
    rw [if_pos h, if_pos h']
    cases fp with
    | true => exact (update_table s rd none).1
    | false => exact (update_table s rd none).2
  · have h' : ¬s.table (rd, fp) = some tag := h
    rw [if_neg h, if_neg h']

/-- What rename records. -/
theorem table_setProducer (s : Scoreboard) (e : RobEntry) :
    (if e.ctrl.regWrite || e.ctrl.fpRegWrite then s.setProducer e.rd e.ctrl.fpRegWrite e.tag else s).table =
      enter s.table e.writer := by
  rw [← table_applyEntry]
  unfold setProducer applyEntry
  cases hf : e.ctrl.fpRegWrite with
  | true => simp
  | false => cases hr : e.ctrl.regWrite <;> cases hz : e.rd.isZero <;> simp

end Scoreboard

/-- The scoreboard after a register write at commit. -/
theorem CommitState.table_retireReg (c : CommitState U) (e : RobEntry) :
    (c.retireReg e).scoreboard.table = leave c.scoreboard.table e.writer := by
  unfold CommitState.retireReg RobEntry.writer RobEntry.dst
  dsimp only
  by_cases hf : e.ctrl.fpRegWrite
  · simp only [if_pos hf]
    exact Scoreboard.table_clear c.scoreboard e.rd true e.tag
  · simp only [if_neg hf]
    by_cases hg : e.writesGpr
    · simp only [if_pos hg]
      exact Scoreboard.table_clear c.scoreboard e.rd false e.tag
    · simp only [if_neg hg]
      rfl

/-! ### The invariant -/

/-- Renamed, not yet issued, oldest first. -/
def InOrderState.waiting (s : InOrderState U) : List RenameIssueEntry := s.eng.queue ++ s.renameOutput

/-- Executed, not yet written back. -/
def InOrderState.flying (s : InOrderState U) : List (RobTag × PhysReg) :=
  s.eng.executeMem1.map ExMem1Entry.dest ++ (s.eng.mem1Mem2.map Mem1Mem2Entry.dest ++
    (s.eng.mem2Wb.map Mem2WbEntry.dest ++ s.cpu.l1dMshrs.parked.map Mem1Mem2Entry.dest))

def InOrderState.flyTags (s : InOrderState U) : List RobTag := s.flying.map Prod.fst

def Rob.tags (r : Rob) : List RobTag := r.entries.map (·.tag)

/-- The operand names an instruction kept. -/
def RenameIssueEntry.srcTags (w : RenameIssueEntry) : List RobTag :=
  w.rs1Tag.toList ++ (w.rs2Tag.toList ++ w.rs3Tag.toList)

/-- They name the producers among the older entries, or ones that have retired. -/
structure RenameIssueEntry.Sources (w : RenameIssueEntry) (pre : List RobEntry) (live : List RobTag) : Prop where
  rs1 : Names w.rs1Tag (w.rs1, w.ctrl.rs1Fp) (pre.map RobEntry.writer) live
  rs2 : Names w.rs2Tag (w.rs2, w.ctrl.rs2Fp) (pre.map RobEntry.writer) live
  rs3 : w.ctrl.rs3Fp = true → Names w.rs3Tag (w.rs3, true) (pre.map RobEntry.writer) live

/-- What holds of the engine between its stages. -/
structure InOrderInv (s : InOrderState U) : Prop where
  split : ∃ done, s.eng.rob.tags = done ++ s.waiting.map (·.robTag) ∧ ∀ t ∈ s.flyTags, t ∈ done
  window : Serial.Window s.eng.rob.nextTag s.eng.rob.tags
  flyNodup : s.flyTags.Nodup
  unfinished : ∀ e ∈ s.eng.rob.entries, e.tag ∈ s.flyTags → e.state ≠ .completed
  issued : ∀ e ∈ s.eng.rob.entries, e.tag ∈ s.waiting.map (·.robTag) → e.state = .issued
  faults : ∀ e ∈ s.eng.rob.entries, e.state = .faulted → e.trap.isSome
  board : Tracks s.eng.scoreboard.table (s.eng.rob.entries.map RobEntry.writer)
  sources : ∀ w ∈ s.waiting, ∀ pre e post, s.eng.rob.entries = pre ++ e :: post → e.tag = w.robTag →
    w.Sources pre s.eng.rob.tags
  named : ∀ w ∈ s.waiting, ∀ t ∈ w.srcTags, Serial.age w.robTag t < Serial.half 32
  mshrs : s.cpu.l1dMshrs.Ok
  room : s.waiting.length ≤ s.eng.queueCapacity

namespace InOrderInv

variable {s s' : InOrderState U}

theorem nodup (h : InOrderInv s) : s.eng.rob.tags.Nodup := h.window.nodup

/-- No tag is both in the memory stages and waiting. -/
theorem apart (h : InOrderInv s) {t : RobTag} (hf : t ∈ s.flyTags) : t ∉ s.waiting.map (·.robTag) := by
  obtain ⟨done, hsplit, hfly⟩ := h.split
  have hnd := h.nodup
  rw [hsplit] at hnd
  exact fun hw => (List.nodup_append.mp hnd).2.2 _ (hfly t hf) _ hw rfl

/-- The first `j` waiting instructions execute, results are recorded, and what flies moves. Each entry
keeps what rename fixed; its state may change only if its tag is of these, or was in the memory stages. -/
theorem advance (h : InOrderInv s) (j : Nat) {g : RobEntry → RobEntry}
    (hrob : s'.eng.rob.entries = s.eng.rob.entries.map g) (hnext : s'.eng.rob.nextTag = s.eng.rob.nextTag)
    (hboard : s'.eng.scoreboard = s.eng.scoreboard) (hwait : s'.waiting = s.waiting.drop j)
    (hcap : s'.eng.queueCapacity = s.eng.queueCapacity)
    (hfly : s'.flyTags.Subperm ((s.waiting.take j).map (·.robTag) ++ s.flyTags)) (hmshrs : s'.cpu.l1dMshrs.Ok)
    (hfix : RobEntry.Fixes g)
    (hstate : ∀ e, e.tag ∉ (s.waiting.take j).map (·.robTag) ++ s.flyTags → (g e).state = e.state)
    (hun : ∀ e, e.tag ∈ s'.flyTags → e.state ≠ .completed → (g e).state ≠ .completed)
    (hfault : ∀ e, (e.state = .faulted → e.trap.isSome) → (g e).state = .faulted → (g e).trap.isSome) :
    InOrderInv s' := by
  have htag := hfix.tag
  have hwriter : ∀ es : List RobEntry, (es.map g).map RobEntry.writer = es.map RobEntry.writer := fun es => by
    rw [List.map_map]
    refine List.map_congr_left fun e _ => ?_
    rw [Function.comp_apply, ← RobEntry.writer_bare, hfix, RobEntry.writer_bare]
  have htags : s'.eng.rob.tags = s.eng.rob.tags := by
    rw [Rob.tags, hrob, List.map_map]
    exact List.map_congr_left fun e _ => htag e
  have hsub : ∀ w ∈ s'.waiting, w ∈ s.waiting := fun w hw => by
    rw [hwait] at hw
    exact List.mem_of_mem_drop hw
  obtain ⟨done, hsplit, hdone⟩ := h.split
  -- the waiting tags in two parts, and none of them twice
  have hparts : s.waiting.map (·.robTag) = (s.waiting.take j).map (·.robTag) ++ s'.waiting.map (·.robTag) := by
    rw [hwait, ← List.map_append, List.take_append_drop]
  have hnd := h.nodup
  rw [hsplit, hparts, ← List.append_assoc] at hnd
  have hflyAll : ((s.waiting.take j).map (·.robTag) ++ s.flyTags).Nodup := by
    refine List.nodup_append.mpr ⟨(List.nodup_append.mp (List.nodup_append.mp hnd).1).2.1, h.flyNodup, ?_⟩
    rintro t ht _ hf rfl
    refine h.apart hf ?_
    rw [hparts]
    exact List.mem_append_left _ ht
  refine ⟨⟨done ++ (s.waiting.take j).map (·.robTag), ?_, fun t ht => ?_⟩, ?_, ?_, ?_, ?_, ?_, ?_, ?_, ?_, hmshrs, ?_⟩
  · rw [htags, hsplit, hparts, List.append_assoc]
  · rcases List.mem_append.mp (hfly.subset ht) with ht' | ht'
    · exact List.mem_append_right _ ht'
    · exact List.mem_append_left _ (hdone t ht')
  · rw [hnext, htags]
    exact h.window
  · obtain ⟨l, hl, hsub'⟩ := hfly
    exact hl.nodup_iff.mp (hflyAll.sublist hsub')
  · intro e' he' hf
    rw [hrob] at he'
    obtain ⟨e, he, rfl⟩ := List.mem_map.mp he'
    rw [htag] at hf
    refine hun e hf ?_
    rcases List.mem_append.mp (hfly.subset hf) with ht | ht
    · rw [h.issued e he (by rw [hparts]; exact List.mem_append_left _ ht)]
      decide
    · exact h.unfinished e he ht
  · intro e' he' hw
    rw [hrob] at he'
    obtain ⟨e, he, rfl⟩ := List.mem_map.mp he'
    rw [htag] at hw
    have hw' : e.tag ∈ s.waiting.map (·.robTag) := by
      rw [hparts]
      exact List.mem_append_right _ hw
    rw [hstate e fun hin => ?_]
    · exact h.issued e he hw'
    · rcases List.mem_append.mp hin with ht | hf
      · exact (List.nodup_append.mp hnd).2.2 _ (List.mem_append_right _ ht) _ hw rfl
      · exact h.apart hf hw'
  · intro e' he' hf
    rw [hrob] at he'
    obtain ⟨e, he, rfl⟩ := List.mem_map.mp he'
    exact hfault e (h.faults e he) hf
  · rw [hboard, hrob, hwriter]
    exact h.board
  · intro w hw pre e' post hes ht
    rw [hrob] at hes
    obtain ⟨pre₀, rest, hes₀, rfl, hrest⟩ := List.map_eq_append_iff.mp hes
    obtain ⟨e, post₀, rfl, rfl, -⟩ := List.map_eq_cons_iff.mp hrest
    have hsrc := h.sources w (hsub w hw) pre₀ e post₀ hes₀ (by rw [← htag]; exact ht)
    refine ⟨?_, ?_, fun h3 => ?_⟩
    · rw [hwriter, htags]
      exact hsrc.rs1
    · rw [hwriter, htags]
      exact hsrc.rs2
    · rw [hwriter, htags]
      exact hsrc.rs3 h3
  · exact fun w hw => h.named w (hsub w hw)
  · have := h.room
    rw [hwait, hcap, List.length_drop]
    omega

/-- Nobody executes. -/
theorem update (h : InOrderInv s) {g : RobEntry → RobEntry} (hrob : s'.eng.rob.entries = s.eng.rob.entries.map g)
    (hnext : s'.eng.rob.nextTag = s.eng.rob.nextTag) (hboard : s'.eng.scoreboard = s.eng.scoreboard)
    (hwait : s'.waiting = s.waiting) (hcap : s'.eng.queueCapacity = s.eng.queueCapacity)
    (hfly : s'.flyTags.Subperm s.flyTags) (hmshrs : s'.cpu.l1dMshrs.Ok) (hfix : RobEntry.Fixes g)
    (hstate : ∀ e, e.tag ∉ s.flyTags → (g e).state = e.state)
    (hun : ∀ e, e.tag ∈ s'.flyTags → e.state ≠ .completed → (g e).state ≠ .completed)
    (hfault : ∀ e, (e.state = .faulted → e.trap.isSome) → (g e).state = .faulted → (g e).trap.isSome) :
    InOrderInv s' :=
  h.advance 0 hrob hnext hboard hwait hcap hfly hmshrs hfix hstate hun hfault

/-- A completed head retires. -/
theorem pop (h : InOrderInv s) {e : RobEntry} {rest : List RobEntry} (he : s.eng.rob.entries = e :: rest)
    (hst : e.state = .completed) (hrob : s'.eng.rob = { s.eng.rob with entries := rest })
    (hboard : s'.eng.scoreboard.table = leave s.eng.scoreboard.table e.writer) (hwait : s'.waiting = s.waiting)
    (hcap : s'.eng.queueCapacity = s.eng.queueCapacity) (hfly : s'.flyTags = s.flyTags)
    (hmshrs : s'.cpu.l1dMshrs.Ok) : InOrderInv s' := by
  have hmem : e ∈ s.eng.rob.entries := he ▸ List.mem_cons_self
  have htags : s.eng.rob.tags = e.tag :: s'.eng.rob.tags := by
    rw [Rob.tags, Rob.tags, he, hrob]
    rfl
  have hnotFly : e.tag ∉ s.flyTags := fun hf => h.unfinished e hmem hf hst
  have hnotWait : e.tag ∉ s.waiting.map (·.robTag) := fun hw => by
    rw [h.issued e hmem hw] at hst
    exact absurd hst (by decide)
  have hnd := h.nodup
  rw [htags] at hnd
  obtain ⟨hhead, -⟩ := List.nodup_cons.mp hnd
  have hentries : s'.eng.rob.entries = rest := by rw [hrob]
  have hold : ∀ x ∈ s'.eng.rob.entries, x ∈ s.eng.rob.entries := fun x hx => by
    rw [he]
    exact List.mem_cons_of_mem _ (hentries ▸ hx)
  -- the head is no waiting instruction, so it belongs to the executed ones
  obtain ⟨done, hsplit, hdone⟩ := h.split
  obtain ⟨done', rfl⟩ : ∃ done', done = e.tag :: done' := by
    cases done with
    | nil =>
      rw [htags, List.nil_append] at hsplit
      exact absurd (hsplit ▸ List.mem_cons_self) hnotWait
    | cons t done' =>
      rw [htags, List.cons_append, List.cons.injEq] at hsplit
      exact ⟨done', by rw [hsplit.1]⟩
  have hnext : s'.eng.rob.nextTag = s.eng.rob.nextTag := by rw [hrob]
  refine ⟨⟨done', ?_, fun t ht => ?_⟩, ?_, by rw [hfly]; exact h.flyNodup, fun x hx hf => ?_, fun x hx hw => ?_,
    fun x hx hf => h.faults x (hold x hx) hf, ?_, ?_, by rw [hwait]; exact h.named, hmshrs,
    by rw [hwait, hcap]; exact h.room⟩
  · rw [htags, List.cons_append, List.cons.injEq] at hsplit
    rw [hwait]
    exact hsplit.2
  · rw [hfly] at ht
    rcases List.mem_cons.mp (hdone t ht) with rfl | ht'
    · exact absurd ht hnotFly
    · exact ht'
  · have hwin := h.window
    rw [htags] at hwin
    rw [hnext]
    exact hwin.sublist (List.sublist_cons_self _ _)
  · rw [hfly] at hf
    exact h.unfinished x (hold x hx) hf
  · rw [hwait] at hw
    exact h.issued x (hold x hx) hw
  · rw [hboard, hentries]
    have hb := h.board
    rw [he] at hb
    refine hb.leave ?_
    rw [← hentries, List.map_map]
    exact hhead
  · intro w hw pre x post hes ht
    rw [hwait] at hw
    have hsrc := h.sources w hw (e :: pre) x post (by rw [he, ← hentries, hes]; rfl) ht
    have hpre : e.tag ∉ (pre.map RobEntry.writer).map Producers.Writer.tag := fun hin => by
      refine hhead ?_
      rw [List.map_map] at hin
      rw [Rob.tags, hes, List.map_append]
      exact List.mem_append_left _ hin
    rw [htags] at hsrc
    exact ⟨hsrc.rs1.leave hhead hpre, hsrc.rs2.leave hhead hpre, fun h3 => (hsrc.rs3 h3).leave hhead hpre⟩

/-- Nothing is in flight. -/
theorem flushed (hrob : s'.eng.rob.entries = []) (hboard : s'.eng.scoreboard = Scoreboard.new)
    (hwait : s'.waiting = []) (hfly : s'.flying = []) (hmshrs : s'.cpu.l1dMshrs.Ok) : InOrderInv s' := by
  have htags : s'.eng.rob.tags = [] := by rw [Rob.tags, hrob, List.map_nil]
  have hft : s'.flyTags = [] := by rw [InOrderState.flyTags, hfly, List.map_nil]
  refine ⟨⟨[], by rw [htags, hwait]; rfl, by simp [hft]⟩, by rw [htags]; exact Serial.Window.nil,
    by rw [hft]; exact List.nodup_nil, by simp [hrob], by simp [hrob], by simp [hrob], ?_, by simp [hwait],
    by simp [hwait], hmshrs, by simp [hwait]⟩
  rw [hboard, hrob, Scoreboard.table_new]
  exact Tracks.nil

/-- The buffer stays, and what flies moves. -/
theorem moved (h : InOrderInv s) (hrob : s'.eng.rob = s.eng.rob) (hboard : s'.eng.scoreboard = s.eng.scoreboard)
    (hwait : s'.waiting = s.waiting) (hcap : s'.eng.queueCapacity = s.eng.queueCapacity)
    (hfly : s'.flying.Subperm s.flying) (hmshrs : s'.cpu.l1dMshrs.Ok) : InOrderInv s' := by
  obtain ⟨l, hl, hsub⟩ := hfly
  have hfly' : s'.flyTags.Subperm s.flyTags := ⟨l.map Prod.fst, hl.map Prod.fst, hsub.map Prod.fst⟩
  exact h.update (g := id) (by rw [hrob, List.map_id]) (by rw [hrob]) hboard hwait hcap hfly' hmshrs
    (fun _ => rfl) (fun _ _ => rfl) (fun _ _ hne => hne) fun _ hf => hf

end InOrderInv

namespace InOrder

variable {s s' : InOrderState U}

/-! ### Stages -/

theorem start_inv (h : InOrderInv s) : InOrderInv (start s) :=
  h.moved rfl rfl rfl rfl (List.Subperm.refl _) h.mshrs

section

variable [Units U]

theorem flush_inv (s : InOrderState U) (ho : s.renameOutput = []) : InOrderInv (flush s) := by
  have hm := s.cpu.l1dMshrs.flush_parked
  refine InOrderInv.flushed rfl rfl ho ?_ hm.1
  change s.cpu.l1dMshrs.flush.parked.map Mem1Mem2Entry.dest = []
  rw [hm.2, List.map_nil]

/-- Completed misses leave their registers. -/
theorem drainMshrs_inv (h : InOrderInv s) : InOrderInv (drainMshrs s) := by
  unfold drainMshrs
  by_cases hc : s.cpu.l1dMshrs.capacity = 0
  · rw [if_pos hc]
    exact h
  · rw [if_neg hc]
    have hd := MshrFile.drain_parked h.mshrs s.eng.cycle
    refine h.moved rfl rfl rfl rfl (List.Perm.subperm ?_) hd.1
    have hp := hd.2.map Mem1Mem2Entry.dest
    have hun : ∀ done : List MshrEntry, (done.flatMap fun e => e.waiters.filterMap fun w =>
        w.parkedEntry.map fun p => { p with completeCycle := s.eng.cycle }).map Mem1Mem2Entry.dest =
          (done.flatMap MshrEntry.parked).map Mem1Mem2Entry.dest := O3.unpark_dest s.eng.cycle
    refine List.perm_iff_count.mpr fun a => ?_
    have hcount := hp.count_eq a
    simp only [List.map_append, List.count_append] at hcount
    simp only [InOrderState.flying, List.map_append, List.count_append, hun]
    omega

/-! ### Commit -/

omit [Units U] in
/-- The state with what commit works on put back. -/
def ofCommit (s : InOrderState U) (c : CommitState U) : InOrderState U :=
  { s with
    cpu := c.cpu
    eng := { s.eng with
      rob := c.rob
      sb := c.sb
      scoreboard := c.scoreboard
      committedMap := c.committedMap
      freeList := c.freeList } }

theorem commitLoop_inv (n : Nat) (c : CommitState U) (h : InOrderInv (ofCommit s c))
    (hnone : (commitLoop n c).1 = none) : InOrderInv (ofCommit s (commitLoop n c).2) := by
  induction n generalizing c with
  | zero => exact h
  | succ n ih =>
    rw [commitLoop] at hnone ⊢
    cases he : c.rob.entries with
    | nil => exact h
    | cons e rest =>
      simp only [he] at hnone
      by_cases hb : c.headBlocked e
      · simp only [if_pos hb]
        exact h
      · simp only [if_neg hb] at hnone ⊢
        have hmem : e ∈ (ofCommit s c).eng.rob.entries := by
          change e ∈ c.rob.entries
          rw [he]
          exact List.mem_cons_self
        by_cases hf : e.state = .faulted
        · -- a faulted head has a trap, and commit would have taken it
          obtain ⟨t, ht⟩ := Option.isSome_iff_exists.mp (h.faults e hmem hf)
          simp only [if_pos hf, CommitState.retireFault, ht] at hnone
          exact absurd hnone (by simp)
        · simp only [if_neg hf] at hnone ⊢
          have hst : e.state = .completed := by
            cases hs : e.state with
            | issued => simp [CommitState.headBlocked, hs] at hb
            | completed => rfl
            | faulted => exact absurd hs hf
          have hfr := CommitState.retire_frame { c with rob := { c.rob with entries := rest } } e
          rcases hrest : CommitState.retire { c with rob := { c.rob with entries := rest } } e with ⟨go, c'⟩
          rw [hrest] at hfr hnone
          obtain ⟨hrob, hboard, hm⟩ := hfr
          dsimp only at hrob hboard hm
          have hpop : InOrderInv (ofCommit s c') := by
            refine h.pop he hst hrob ?_ rfl rfl ?_ ?_
            · change c'.scoreboard.table = leave c.scoreboard.table e.writer
              rw [hboard]
              exact CommitState.table_retireReg (c.popped rest) e
            · simp only [InOrderState.flyTags, InOrderState.flying, ofCommit, hm]
            · change c'.cpu.l1dMshrs.Ok
              rw [hm]
              exact h.mshrs
          cases go with
          | true => exact ih c' hpop hnone
          | false => exact hpop

theorem commit_inv (h : InOrderInv s) (hnone : (commit s).1 = none) : InOrderInv (commit s).2 := by
  have hcpu : ∀ (c : CommitState U) (cpu : Cpu U) (sb : StoreBuffer), c.cpu.Frame cpu → InOrderInv (ofCommit s c) →
      InOrderInv (ofCommit s { c with cpu := cpu, sb := sb }) := fun c cpu sb hf hc => by
    refine hc.moved rfl rfl rfl rfl ?_ ?_
    · simp only [InOrderState.flying, ofCommit, hf.mshrs]
      exact List.Subperm.refl _
    · change cpu.l1dMshrs.Ok
      rw [hf.mshrs]
      exact hc.mshrs
  unfold commit at hnone ⊢
  change (commitStage _ _).1 = none at hnone
  change InOrderInv (ofCommit s (commitStage _ _).2)
  unfold commitStage at hnone ⊢
  split at hnone
  · exact absurd hnone (by simp)
  · dsimp only at hnone ⊢
    by_cases hw : s.cpu.wfiWaiting
    · rw [if_pos hw]
      refine hcpu ⟨s.cpu, s.eng.rob, s.eng.sb, s.eng.scoreboard, s.eng.committedMap, s.eng.freeList, none, none,
        none⟩ _ s.eng.sb ?_ h
      unfold wfiWake
      split <;> exact ⟨rfl, rfl⟩
    · rw [if_neg hw] at hnone ⊢
      exact hcpu _ _ _ (drainOneStore_frame _ _) (commitLoop_inv s.eng.width _ h hnone)

/-! ### Writeback and memory -/

omit [Units U] in
/-- Results written back so far; `left` are still to come. -/
def writing (s : InOrderState U) (rob : Rob) (left : List Mem2WbEntry) : InOrderState U :=
  { s with eng := { s.eng with rob := rob, mem2Wb := left } }

omit [Units U] in
theorem writebackOne_inv {rob : Rob} {wb : Mem2WbEntry} {left : List Mem2WbEntry}
    (h : InOrderInv (writing s rob (wb :: left))) : InOrderInv (writing s (writebackOne rob wb) left) := by
  have hperm : (writing s rob (wb :: left)).flyTags.Perm (wb.robTag :: (writing s rob left).flyTags) := by
    have hfly : (writing s rob (wb :: left)).flying.Perm (wb.dest :: (writing s rob left).flying) := by
      refine List.perm_iff_count.mpr fun a => ?_
      simp only [InOrderState.flying, writing, List.map_cons, List.count_append, List.count_cons]
      omega
    exact hfly.map Prod.fst
  have hhot : wb.robTag ∈ (writing s rob (wb :: left)).flyTags := hperm.mem_iff.mpr List.mem_cons_self
  have hgone : wb.robTag ∉ (writing s rob left).flyTags :=
    (List.nodup_cons.mp (hperm.nodup_iff.mp h.flyNodup)).1
  have hsub : (writing s rob left).flyTags.Subperm (writing s rob (wb :: left)).flyTags :=
    (List.sublist_cons_self _ _).subperm.trans hperm.symm.subperm
  -- an update of the entry whose result this is
  have hone : ∀ f : RobEntry → RobEntry, RobEntry.Fixes f →
      (∀ e, (e.state = .faulted → e.trap.isSome) → (f e).state = .faulted → (f e).trap.isSome) →
      ∀ r : Rob, r.entries = rob.entries.map (fun e => if e.tag = wb.robTag then f e else e) →
        r.nextTag = rob.nextTag → InOrderInv (writing s r left) := by
    intro f hfix hf r hr hn
    refine h.update hr hn rfl rfl rfl hsub h.mshrs (hfix.ite _) (fun e he => ?_) (fun e he hne => ?_) fun e hk hst => ?_
    · rw [if_neg fun ht : e.tag = wb.robTag => he (ht ▸ hhot)]
    · rw [if_neg fun ht : e.tag = wb.robTag => hgone (ht ▸ he)]
      exact hne
    · by_cases ht : e.tag = wb.robTag
      · rw [if_pos ht] at hst ⊢
        exact hf e hk hst
      · rw [if_neg ht] at hst ⊢
        exact hk hst
  unfold writebackOne
  cases wb.trap with
  | some t =>
    exact hone (fun e => { e with state := .faulted, trap := some t }) (fun _ => rfl) (fun _ _ _ => rfl) _ rfl rfl
  | none =>
    refine hone (fun e => if (wb.record e).state = .faulted then wb.record e
      else { wb.record e with state := .completed, result := some wb.result }) (fun e => ?_) (fun e hk hst => ?_)
      _ ?_ rfl
    · dsimp only
      split <;> rfl
    · dsimp only at hst ⊢
      split at hst
      · rename_i hf
        rw [if_pos hf]
        exact hk hf
      · exact absurd hst (by simp)
    · change (rob.entries.map _).map _ = _
      rw [List.map_map]
      refine List.map_congr_left fun e _ => ?_
      rw [Function.comp_apply]
      by_cases ht : e.tag = wb.robTag
      · rw [if_pos ht, if_pos ht, if_pos (show (wb.record e).tag = wb.robTag from ht)]
      · rw [if_neg ht, if_neg ht, if_neg ht]

omit [Units U] in
theorem writeback_inv (h : InOrderInv s) : InOrderInv (writing s (writebackStage s.eng.rob s.eng.mem2Wb) []) := by
  have hloop : ∀ (wbs : List Mem2WbEntry) (rob : Rob), InOrderInv (writing s rob wbs) →
      InOrderInv (writing s (wbs.foldl writebackOne rob) []) := by
    intro wbs
    induction wbs with
    | nil => exact fun rob h => h
    | cons wb wbs ih => exact fun rob h => ih _ (writebackOne_inv h)
  exact hloop s.eng.mem2Wb s.eng.rob h

theorem memory2_inv (h : InOrderInv s) (hwb : s.eng.mem2Wb = []) : InOrderInv (memory2 s) := by
  have hmoved := memory2Stage_moved s.eng.mem1Mem2 ⟨s.cpu, s.eng.sb, none, none⟩
  unfold memory2
  dsimp only
  revert hmoved
  generalize memory2Stage (⟨s.cpu, s.eng.sb, none, none⟩ : Mem2State U) s.eng.mem1Mem2 = r
  obtain ⟨left, out, m⟩ := r
  rintro ⟨hp, ⟨u, hu⟩, -⟩
  dsimp only at hp hu ⊢
  refine h.moved rfl rfl rfl rfl (List.Perm.subperm ?_) ?_
  · refine List.perm_iff_count.mpr fun a => ?_
    have hcount := hp.count_eq a
    simp only [List.count_append] at hcount
    simp only [InOrderState.flying, hwb, hu, List.count_append, List.map_nil, List.count_nil]
    omega
  · rw [hu]
    exact h.mshrs

theorem memory1_inv (h : InOrderInv s) : InOrderInv (memory1 s) := by
  unfold memory1
  by_cases hs : s.eng.mem1Stall > 0
  · rw [if_pos hs]
    exact h.moved rfl rfl rfl rfl (List.Subperm.refl _) h.mshrs
  · rw [if_neg hs]
    obtain ⟨-, hok, hp⟩ := memory1Stage_perm s.eng.executeMem1 s.cpu h.mshrs s.eng.mem1Mem2 s.eng.cycle none []
    refine h.moved rfl rfl rfl rfl (List.Perm.subperm ?_) hok
    refine List.perm_iff_count.mpr fun a => ?_
    have hcount := hp.count_eq a
    simp only [List.count_append] at hcount
    simp only [InOrderState.flying, List.count_append]
    omega

end

end InOrder

end Rvsim
