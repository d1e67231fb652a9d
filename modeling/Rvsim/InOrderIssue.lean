/-
# Issue and rename keep the in-order flight

`select` takes instructions off the front of the queue, and executes them up
to the first that asks for a flush. The flush cuts the buffer behind that one,
which drops every waiting instruction, and rebuilds the scoreboard. Rename
adds at the back.

Key definitions:
  - `ExecUpd`, `InOrder.ExecSpec`, `InOrderState.SpanOk`
Key theorems:
  - `InOrder.executeEntry_spec`, `InOrder.issue_inv`, `InOrder.tick_inv`, `InOrder.renameStage_inv`
-/
import Rvsim.InOrderFlight
import Rvsim.Rename

namespace Rvsim

open Producers

variable {U : Type} {s s' : InOrderState U}

/-- The tags of the buffer lie within half the tag space, as the comparison of tags assumes. -/
def InOrderState.SpanOk (s : InOrderState U) : Prop :=
  ∀ t ∈ s.eng.rob.tags, Serial.age s.eng.rob.nextTag t < Serial.half 32

/-! ### Execution -/

/-- What executing instructions tagged `hot` does to the buffer: records, and faults among these. -/
structure ExecUpd (hot : List RobTag) (r r' : Rob) : Prop where
  map : ∃ g : RobEntry → RobEntry, r'.entries = r.entries.map g ∧ RobEntry.Fixes g ∧
    (∀ e, e.tag ∉ hot → (g e).state = e.state) ∧ (∀ e, e.state ≠ .completed → (g e).state ≠ .completed) ∧
    ∀ e, (e.state = .faulted → e.trap.isSome) → (g e).state = .faulted → (g e).trap.isSome
  next : r'.nextTag = r.nextTag

namespace ExecUpd

variable {hot : List RobTag} {r r' r'' : Rob}

theorem refl (r : Rob) : ExecUpd hot r r :=
  ⟨⟨id, by simp, fun _ => rfl, fun _ _ => rfl, fun _ h => h, fun _ h => h⟩, rfl⟩

theorem trans (h : ExecUpd hot r r') (h' : ExecUpd hot r' r'') : ExecUpd hot r r'' := by
  obtain ⟨⟨g, hg, hfix, hst, hun, hf⟩, hn⟩ := h
  obtain ⟨⟨g', hg', hfix', hst', hun', hf'⟩, hn'⟩ := h'
  refine ⟨⟨g' ∘ g, by rw [hg', hg, List.map_map], fun e => (hfix' (g e)).trans (hfix e), fun e he => ?_,
    fun e he => hun' _ (hun e he), fun e he => hf' _ (hf e he)⟩, hn'.trans hn⟩
  exact (hst' (g e) (by rw [hfix.tag]; exact he)).trans (hst e he)

theorem mono {hot' : List RobTag} (h : ExecUpd hot r r') (hsub : ∀ t ∈ hot, t ∈ hot') : ExecUpd hot' r r' := by
  obtain ⟨⟨g, hg, hfix, hst, hun, hf⟩, hn⟩ := h
  exact ⟨⟨g, hg, hfix, fun e he => hst e fun hin => he (hsub _ hin), hun, hf⟩, hn⟩

/-- Entries that record something, and keep state and trap. -/
theorem of_map {g : RobEntry → RobEntry} (hr : r'.entries = r.entries.map g) (hn : r'.nextTag = r.nextTag)
    (hfix : RobEntry.Fixes g) (hst : ∀ e, (g e).state = e.state) (htr : ∀ e, (g e).trap = e.trap) :
    ExecUpd hot r r' :=
  ⟨⟨g, hr, hfix, fun e _ => hst e, fun e he => by rw [hst]; exact he, fun e he hf => by
    rw [htr]
    exact he ((hst e).symm.trans hf)⟩, hn⟩

theorem modify (tag : RobTag) {f : RobEntry → RobEntry} (hfix : RobEntry.Fixes f) (hst : ∀ e, (f e).state = e.state)
    (htr : ∀ e, (f e).trap = e.trap) : ExecUpd hot r (r.modify tag f) := by
  refine of_map (g := fun e => if e.tag = tag then f e else e) rfl rfl (hfix.ite _) (fun e => ?_) fun e => ?_
  · by_cases h : e.tag = tag
    · simp only [if_pos h, hst]
    · simp only [if_neg h]
  · by_cases h : e.tag = tag
    · simp only [if_pos h, htr]
    · simp only [if_neg h]

theorem fault (tag : RobTag) (t : Trap) : ExecUpd [tag] r (r.fault tag t) := by
  have hfix : RobEntry.Fixes fun e => { e with state := .faulted, trap := some t } := fun _ => rfl
  refine ⟨⟨fun e => if e.tag = tag then { e with state := .faulted, trap := some t } else e, rfl, hfix.ite _,
    fun e he => ?_, fun e he => ?_, fun e he hf => ?_⟩, rfl⟩
  · dsimp only
    rw [if_neg (by simpa using he)]
  · dsimp only
    split
    · exact fun h => RobState.noConfusion h
    · exact he
  · dsimp only at hf ⊢
    split
    · rfl
    · rename_i h
      rw [if_neg h] at hf
      exact he hf

theorem tags (h : ExecUpd hot r r') : r'.tags = r.tags := by
  obtain ⟨⟨g, hg, hfix, -⟩, -⟩ := h
  rw [Rob.tags, hg, List.map_map]
  exact List.map_congr_left fun e _ => hfix.tag e

end ExecUpd

namespace InOrder

section

variable [Units U]

/-- What executing one instruction leaves. -/
structure ExecSpec (cpu : Cpu U) (id : RenameIssueEntry) (rob : Rob) (r : ExecOut U) : Prop where
  tag : r.result.robTag = id.robTag
  upd : ExecUpd [id.robTag] rob r.rob
  frame : cpu.Frame r.cpu

omit [Units U] in
theorem illegal_spec (cpu : Cpu U) (id : RenameIssueEntry) (rob : Rob) : ExecSpec cpu id rob (illegal cpu id rob) :=
  ⟨rfl, ExecUpd.fault _ _, Cpu.Frame.refl cpu⟩

omit [Units U] in
theorem executeCsr_spec (cpu : Cpu U) (id : RenameIssueEntry) (rob : Rob) (held : U8) :
    ExecSpec cpu id rob (executeCsr cpu id rob held) := by
  have hdrain : ExecUpd [id.robTag] rob (drainFpFlags cpu id rob held).2 ∧
      cpu.Frame (drainFpFlags cpu id rob held).1 := by
    unfold drainFpFlags
    split
    · refine ⟨?_, ⟨rfl, rfl⟩⟩
      refine ExecUpd.of_map (g := fun e => if RobTag.isOlderThan e.tag id.robTag then { e with fpFlags := 0 } else e)
        rfl rfl (RobEntry.Fixes.ite (g := fun e => { e with fpFlags := 0 }) (fun _ => rfl) _) (fun e => ?_) fun e => ?_
      · by_cases h : RobTag.isOlderThan e.tag id.robTag <;> simp [h]
      · by_cases h : RobTag.isOlderThan e.tag id.robTag <;> simp [h]
    · exact ⟨ExecUpd.refl rob, Cpu.Frame.refl cpu⟩
  unfold executeCsr
  dsimp only
  split
  · exact illegal_spec cpu id rob
  · split
    · exact illegal_spec cpu id rob
    · split
      · exact illegal_spec cpu id rob
      · split
        · exact illegal_spec cpu id rob
        · refine ⟨rfl, hdrain.1.trans ?_, hdrain.2.trans ⟨rfl, rfl⟩⟩
          split
          · exact ExecUpd.modify _ (fun _ => rfl) (fun _ => rfl) fun _ => rfl
          · exact ExecUpd.refl _

omit [Units U] in
/-- A taken redirect, or none. -/
theorem redirect_frame {cpu cpu' : Cpu U} (m : Bool) (pc : U64) (h : cpu.Frame cpu') :
    cpu.Frame (if m then { cpu' with pc := pc, redirectPending := true } else cpu') := by
  cases m with
  | true => exact h.trans ⟨rfl, rfl⟩
  | false => exact h

theorem executeBranch_spec (cpu : Cpu U) (id : RenameIssueEntry) (rob : Rob) (a b : U64) :
    ExecUpd [id.robTag] rob (executeBranch cpu id rob a b).2.2 ∧ cpu.Frame (executeBranch cpu id rob a b).2.1 :=
  ⟨ExecUpd.modify id.robTag (fun _ => rfl) (fun _ => rfl) fun _ => rfl, redirect_frame _ _ ⟨rfl, rfl⟩⟩

theorem executeJump_spec (cpu : Cpu U) (id : RenameIssueEntry) (rob : Rob) :
    ExecUpd [id.robTag] rob (executeJump cpu id rob).2.2 ∧ cpu.Frame (executeJump cpu id rob).2.1 :=
  ⟨ExecUpd.modify id.robTag (fun _ => rfl) (fun _ => rfl) fun _ => rfl, redirect_frame _ _ ⟨rfl, rfl⟩⟩

theorem executeRest_spec (cpu : Cpu U) (id : RenameIssueEntry) (rob : Rob) :
    ExecSpec cpu id rob (executeRest cpu id rob) := by
  unfold executeRest
  dsimp only
  split
  · exact illegal_spec cpu id rob
  · cases id.ctrl.controlFlow with
    | branch => exact ⟨rfl, (executeBranch_spec cpu id rob _ _).1, (executeBranch_spec cpu id rob _ _).2⟩
    | jump => exact ⟨rfl, (executeJump_spec cpu id rob).1, (executeJump_spec cpu id rob).2⟩
    | sequential => exact ⟨rfl, ExecUpd.refl rob, Cpu.Frame.refl cpu⟩

omit [Units U] in
theorem executeSystem_spec (cpu : Cpu U) (id : RenameIssueEntry) (rob : Rob) (held : U8) :
    ∀ r ∈ executeSystem cpu id rob held, ExecSpec cpu id rob r := by
  have hplain : ∀ (alu sd : U64) (fl : U8) (sf : Option SfenceVmaInfo) (b : Bool),
      ExecSpec cpu id rob ⟨mkResult id alu sd fl sf, b, cpu, rob⟩ := fun _ _ _ _ _ =>
    ⟨rfl, ExecUpd.refl rob, Cpu.Frame.refl cpu⟩
  unfold executeSystem
  split
  · split
    · exact forall_mem_some (illegal_spec cpu id rob)
    · exact forall_mem_some (hplain _ _ _ _ _)
  · split
    · exact forall_mem_some (illegal_spec cpu id rob)
    · split
      · exact forall_mem_some (illegal_spec cpu id rob)
      · exact forall_mem_some (hplain _ _ _ _ _)
  · split
    · exact forall_mem_some (illegal_spec cpu id rob)
    · exact forall_mem_some (hplain _ _ _ _ _)
  · split
    · exact forall_mem_some (illegal_spec cpu id rob)
    · exact forall_mem_some ⟨rfl, ExecUpd.refl rob, ⟨rfl, rfl⟩⟩
  · split
    · exact forall_mem_some ⟨rfl, ExecUpd.fault _ _, Cpu.Frame.refl cpu⟩
    · split
      · exact forall_mem_some (executeCsr_spec cpu id rob held)
      · exact forall_mem_none

theorem executeEntry_spec (cpu : Cpu U) (id : RenameIssueEntry) (rob : Rob) (held : U8) :
    ExecSpec cpu id rob (executeEntry cpu id rob held) := by
  unfold executeEntry
  split
  · exact ⟨rfl, ExecUpd.fault _ _, Cpu.Frame.refl cpu⟩
  · split
    · exact ⟨rfl, ExecUpd.refl rob, ⟨rfl, rfl⟩⟩
    · exact executeRest_spec cpu id rob
    · exact executeRest_spec cpu id rob
    · cases hs : executeSystem cpu id rob held with
      | none => exact executeRest_spec cpu id rob
      | some r => exact executeSystem_spec cpu id rob held r hs

/-- A bundle executes up to its first instruction that asks for a flush. -/
structure BundleSpec (cpu : Cpu U) (es : List RenameIssueEntry) (rob : Rob)
    (r : List ExMem1Entry × Bool × Cpu U × Rob) : Prop where
  count : r.1.length ≤ es.length
  tags : r.1.map (·.robTag) = (es.take r.1.length).map (·.robTag)
  all : r.2.1 = false → r.1.length = es.length
  some : r.2.1 = true → r.1 ≠ []
  upd : ExecUpd (r.1.map (·.robTag)) rob r.2.2.2
  frame : cpu.Frame r.2.2.1

theorem executeBundle_spec (inflight batch : U8) (cpu : Cpu U) (rob : Rob) (es : List RenameIssueEntry) :
    BundleSpec cpu es rob (executeBundle inflight batch cpu rob es) := by
  induction es generalizing batch cpu rob with
  | nil => exact ⟨Nat.le_refl _, rfl, fun _ => rfl, fun h => absurd h (by simp [executeBundle]), ExecUpd.refl rob,
      Cpu.Frame.refl cpu⟩
  | cons id rest ih =>
    have hx := executeEntry_spec cpu id rob (inflight ||| batch)
    rw [executeBundle]
    dsimp only
    by_cases hf : (executeEntry cpu id rob (inflight ||| batch)).flush
    · rw [if_pos hf]
      refine ⟨by simp, ?_, fun h => absurd h (by simp), fun _ => by simp, ?_, hx.frame⟩
      · simp [hx.tag]
      · simpa [hx.tag] using hx.upd
    · rw [if_neg hf]
      have hi := ih (batch ||| (executeEntry cpu id rob (inflight ||| batch)).result.fpFlags)
        (executeEntry cpu id rob (inflight ||| batch)).cpu (executeEntry cpu id rob (inflight ||| batch)).rob
      revert hi
      generalize executeBundle inflight _ (executeEntry cpu id rob (inflight ||| batch)).cpu
        (executeEntry cpu id rob (inflight ||| batch)).rob rest = r
      obtain ⟨rs, fl, cpu', rob'⟩ := r
      rintro ⟨hc, ht, ha, hs, hu, hfr⟩
      refine ⟨by simpa using hc, ?_, fun h => by simpa using ha h, fun _ => by simp, ?_, hx.frame.trans hfr⟩
      · simp only [List.map_cons, List.length_cons, List.take_succ_cons, hx.tag, ht]
      · refine (hx.upd.mono ?_).trans (hu.mono ?_)
        · simp [hx.tag]
        · exact fun t ht => List.mem_cons_of_mem _ ht

end

/-! ### Selection -/

/-- What `select` makes of an instruction: its operands are read, unless it carries a trap. -/
def Picked (rob : Rob) (cpu : Cpu U) (w w' : RenameIssueEntry) : Prop :=
  (w.trap.isSome ∧ w' = w) ∨ (w.trap.isSome = false ∧ readOperands w rob cpu = some w')

theorem Picked.tag {rob : Rob} {cpu : Cpu U} {w w' : RenameIssueEntry} (h : Picked rob cpu w w') :
    w'.robTag = w.robTag := by
  rcases h with ⟨-, rfl⟩ | ⟨-, h⟩
  · rfl
  · unfold readOperands at h
    split at h
    · rw [← Option.some.inj h]
    · exact absurd h (by simp)

/-- `select` takes a front part of the queue. -/
theorem select_spec (rob : Rob) (sb : StoreBuffer) (cpu : Cpu U) (n : Nat) (q : List RenameIssueEntry) :
    ∃ k, (select rob sb cpu n q).2 = q.drop k ∧ List.Forall₂ (Picked rob cpu) (q.take k) (select rob sb cpu n q).1 := by
  have hstop : ∀ q : List RenameIssueEntry, ∃ k, q = q.drop k ∧ List.Forall₂ (Picked rob cpu) (q.take k) [] :=
    fun q => ⟨0, rfl, List.Forall₂.nil⟩
  have hmore : ∀ {w w' : RenameIssueEntry} {rest : List RenameIssueEntry}
      {r : List RenameIssueEntry × List RenameIssueEntry},
      Picked rob cpu w w' → (∃ k, r.2 = rest.drop k ∧ List.Forall₂ (Picked rob cpu) (rest.take k) r.1) →
        ∃ k, r.2 = (w :: rest).drop k ∧ List.Forall₂ (Picked rob cpu) ((w :: rest).take k) (w' :: r.1) := by
    rintro w w' rest r hw ⟨k, hd, ht⟩
    exact ⟨k + 1, hd, List.Forall₂.cons hw ht⟩
  induction n generalizing q with
  | zero => exact hstop q
  | succ n ih =>
    cases q with
    | nil => exact hstop []
    | cons w rest =>
      rw [select]
      by_cases ht : w.trap.isSome
      · rw [if_pos ht]
        exact hmore (Or.inl ⟨ht, rfl⟩) (ih rest)
      · rw [if_neg ht]
        by_cases hb : issueBlocked w rob sb
        · rw [if_pos hb]
          exact hstop _
        · rw [if_neg hb]
          cases hr : readOperands w rob cpu with
          | none => exact hstop _
          | some w' => exact hmore (Or.inr ⟨by simpa using ht, hr⟩) (ih rest)

theorem picked_tags {rob : Rob} {cpu : Cpu U} {ws ws' : List RenameIssueEntry}
    (h : List.Forall₂ (Picked rob cpu) ws ws') : ws'.map (·.robTag) = ws.map (·.robTag) := by
  induction h with
  | nil => rfl
  | cons hw _ ih => rw [List.map_cons, List.map_cons, ih, hw.tag]

section

variable [Units U]

/-! ### Issue -/

/-- The state after issue, had `select` stopped behind the last instruction that executed. -/
theorem issued_inv (h : InOrderInv s) (he : s.eng.executeMem1 = []) :
    ∃ j, InOrderInv { (issue s).2 with eng := { (issue s).2.eng with queue := s.eng.queue.drop j } } ∧
      (issue s).2.renameOutput = s.renameOutput ∧ (issue s).2.eng.rob.tags = s.eng.rob.tags ∧
      (issue s).2.eng.executeMem1.map (·.robTag) = (s.eng.queue.take j).map (·.robTag) ∧
      ((issue s).1 = true → (issue s).2.eng.executeMem1 ≠ []) ∧
      ((issue s).1 = false → (issue s).2.eng.queue = s.eng.queue.drop j) := by
  obtain ⟨k, hd, ht⟩ := select_spec s.eng.rob s.eng.sb s.cpu s.eng.width s.eng.queue
  have hb := executeBundle_spec (inflightFpFlags s.eng) 0 s.cpu s.eng.rob
    (select s.eng.rob s.eng.sb s.cpu s.eng.width s.eng.queue).1
  have htags := picked_tags ht
  have hlen : (select s.eng.rob s.eng.sb s.cpu s.eng.width s.eng.queue).1.length = min k s.eng.queue.length := by
    rw [← ht.length_eq, List.length_take]
  unfold issue executeInorder
  rw [if_neg (by simp [he])]
  dsimp only
  revert hd hb htags hlen
  generalize select s.eng.rob s.eng.sb s.cpu s.eng.width s.eng.queue = sel
  obtain ⟨issued, q⟩ := sel
  generalize executeBundle (inflightFpFlags s.eng) 0 s.cpu s.eng.rob issued = r
  obtain ⟨results, fl, cpu', rob'⟩ := r
  rintro hd ⟨hcount, hres, hall, hsome, hupd, hfr⟩ htags hlen
  dsimp only at hd hcount hres hall hsome hupd hfr htags hlen ⊢
  have hle : results.length ≤ s.eng.queue.length := by omega
  have hexec : results.map (·.robTag) = (s.eng.queue.take results.length).map (·.robTag) := by
    rw [hres, List.map_take, htags, ← List.map_take, List.take_take]
    congr 2
    omega
  refine ⟨results.length, ?_, rfl, hupd.tags,
      by rw [he]; exact hexec, fun hf => by simpa [he] using hsome hf, fun hf => ?_⟩
  · obtain ⟨⟨g, hg, hfix, hst, hun, hf⟩, hn⟩ := hupd
    have hwait : (s.waiting.take results.length).map (·.robTag) = results.map (·.robTag) := by
      rw [hexec, InOrderState.waiting, List.take_append_of_le_length hle]
    have hfly : ∀ t, t ∈ results.map (·.robTag) ++ s.flyTags ↔
        t ∈ (results.map ExMem1Entry.dest ++ s.flying).map Prod.fst := fun t => by
      rw [List.map_append, List.map_map]
      rfl
    refine h.advance results.length hg hn rfl ?_ rfl (List.Perm.subperm ?_) ?_ hfix (fun e hne => ?_)
        (fun e _ => hun e) hf
    · rw [InOrderState.waiting, InOrderState.waiting, List.drop_append_of_le_length hle]
    · rw [hwait]
      refine List.Perm.of_eq ?_
      simp only [InOrderState.flyTags, InOrderState.flying, he, hfr.mshrs, List.map_nil, List.nil_append,
          List.map_append,
        List.map_map]
      rfl
    · change cpu'.l1dMshrs.Ok
      rw [hfr.mshrs]
      exact h.mshrs
    · refine hst e fun hin => hne ?_
      rw [hwait]
      exact List.mem_append_left _ hin
  · have hk := hall hf
    rw [hd]
    by_cases hkl : k ≤ s.eng.queue.length
    · rw [show results.length = k by omega]
    · rw [List.drop_of_length_le (by omega), List.drop_of_length_le (by omega)]

omit [Units U] in
/-- A cut behind an executed instruction that no waiting one is older than. -/
theorem recover_inv {last : ExMem1Entry} (h : InOrderInv s) (hl : s.eng.executeMem1.getLast? = some last)
    (hlast : ∃ pre, s.eng.rob.tags = pre ++ last.robTag :: s.waiting.map (·.robTag)) : InOrderInv (recover s) := by
  obtain ⟨done, hsplit, hfly⟩ := h.split
  obtain ⟨pre, hpre⟩ := hlast
  have hdone : done = pre ++ [last.robTag] := by
    rw [hsplit, show pre ++ last.robTag :: s.waiting.map (·.robTag) = (pre ++ [last.robTag]) ++
        s.waiting.map (·.robTag) by
      simp] at hpre
    exact List.append_cancel_right hpre
  obtain ⟨es, e, post, hes, rfl, he⟩ : ∃ es e post, s.eng.rob.entries = es ++ e :: post ∧ es.map (·.tag) = pre ∧
      e.tag = last.robTag := by
    rw [Rob.tags] at hpre
    obtain ⟨es, rest, hes, hpre', hrest⟩ := List.map_eq_append_iff.mp hpre
    obtain ⟨e, post, rfl, he, -⟩ := List.map_eq_cons_iff.mp hrest
    exact ⟨es, e, post, hes, hpre', he⟩
  have hkeep : Rob.keepThrough last.robTag s.eng.rob.entries = es ++ [e] := by
    rw [← he]
    exact Rob.keepThrough_split hes h.nodup
  have hrec : recover s = { s with
      eng := { s.eng with
        queue := []
        mem1Stall := 0
        rob := s.eng.rob.flushAfter last.robTag
        sb := s.eng.sb.flushAfter last.robTag
        scoreboard := Scoreboard.rebuildFromRob (s.eng.rob.flushAfter last.robTag) }
      renameOutput := [] } := by
    unfold recover
    dsimp only
    rw [hl]
  rw [hrec]
  have hent : (s.eng.rob.flushAfter last.robTag).entries = es ++ [e] := hkeep
  have hsub : ∀ x ∈ es ++ [e], x ∈ s.eng.rob.entries := fun x hx => by
    rw [hes]
    rcases List.mem_append.mp hx with hx | hx
    · exact List.mem_append_left _ hx
    · rw [List.mem_singleton.mp hx]
      exact List.mem_append_right _ List.mem_cons_self
  refine ⟨⟨es.map (·.tag) ++ [last.robTag], ?_, fun t ht => ?_⟩, ?_, h.flyNodup, fun x hx hf => ?_, fun x _ hw => ?_,
    fun x hx hf => h.faults x (hsub x (hent ▸ hx)) hf, ?_, fun w hw => ?_, fun w hw => ?_, h.mshrs, Nat.zero_le _⟩
  · change (s.eng.rob.flushAfter last.robTag).entries.map (·.tag) = _
    rw [hent, List.map_append, List.map_singleton, he]
    exact (List.append_nil _).symm
  · rw [← hdone]
    exact hfly t ht
  · refine h.window.sublist ?_
    change ((s.eng.rob.flushAfter last.robTag).entries.map (·.tag)).Sublist _
    rw [hent, Rob.tags, hes]
    refine List.Sublist.map _ (List.Sublist.append_left ?_ _)
    exact List.Sublist.cons_cons _ (List.nil_sublist _)
  · exact h.unfinished x (hsub x (hent ▸ hx)) hf
  · exact absurd hw (List.not_mem_nil)
  · change Tracks (Scoreboard.rebuildFromRob _).table _
    rw [Scoreboard.table_rebuild]
    exact tracks_rebuild _
  · exact absurd hw (List.not_mem_nil)
  · exact absurd hw (List.not_mem_nil)

omit [Units U] in
/-- Entries go to the queue as they are. -/
theorem dispatch_inv (h : InOrderInv s) :
    InOrderInv { s with eng := dispatch s.eng s.renameOutput, renameOutput := [] } := by
  refine h.moved rfl rfl ?_ rfl (List.Subperm.refl _) h.mshrs
  have hroom := h.room
  rw [InOrderState.waiting, List.length_append] at hroom
  simp only [InOrderState.waiting, dispatch, List.append_nil]
  rw [List.take_of_length_le (by omega)]

theorem issueRest_inv (h : InOrderInv s) :
    InOrderInv (match issue s with
      | (true, s) => recover s
      | (false, s) => { s with eng := dispatch s.eng s.renameOutput, renameOutput := [] }) := by
  by_cases he : s.eng.executeMem1 = []
  · obtain ⟨j, hinv, hro, hrob, htags, hsome, hq⟩ := issued_inv h he
    obtain ⟨done, hsplit, -⟩ := h.split
    revert hinv hro hrob htags hsome hq
    generalize issue s = r
    obtain ⟨fl, s'⟩ := r
    intro hinv hro hrob htags hsome hq
    dsimp only at hinv hro hrob htags hsome hq
    cases fl with
    | true =>
      -- the cut comes behind the last of the instructions that executed
      have hne := hsome rfl
      have hl : s'.eng.executeMem1.getLast? = some (s'.eng.executeMem1.getLast hne) := List.getLast?_eq_some_getLast hne
      have hsplit' : (s.eng.queue.take j).map (·.robTag) =
          s'.eng.executeMem1.dropLast.map (·.robTag) ++ [(s'.eng.executeMem1.getLast hne).robTag] := by
        rw [← htags, ← List.map_singleton, ← List.map_append, List.dropLast_append_getLast]
      refine @recover_inv _ { s' with eng := { s'.eng with queue := s.eng.queue.drop j } } _ hinv hl
        ⟨done ++ s'.eng.executeMem1.dropLast.map (·.robTag), ?_⟩
      calc s'.eng.rob.tags = done ++ s.waiting.map (·.robTag) := hrob.trans hsplit
        _ = done ++ ((s.eng.queue.take j).map (·.robTag) ++
              (s.eng.queue.drop j ++ s'.renameOutput).map (·.robTag)) := by
          rw [hro, InOrderState.waiting, ← List.map_append, ← List.append_assoc, List.take_append_drop]
        _ = done ++ s'.eng.executeMem1.dropLast.map (·.robTag) ++ (s'.eng.executeMem1.getLast hne).robTag ::
              (s.eng.queue.drop j ++ s'.renameOutput).map (·.robTag) := by
          rw [hsplit']
          simp only [List.append_assoc, List.singleton_append]
    | false =>
      have hs : ({ s' with eng := { s'.eng with queue := s.eng.queue.drop j } } : InOrderState U) = s' := by
        rw [← hq rfl]
      rw [hs] at hinv
      exact dispatch_inv hinv
  · have hi : issue s = (false, s) := by
      unfold issue
      rw [if_pos (by simpa using he)]
    rw [hi]
    exact dispatch_inv h

/-! ### The tick -/

theorem tickRest_inv (h : InOrderInv s) : InOrderInv (tickRest s) :=
  issueRest_inv (memory1_inv (memory2_inv (writeback_inv h) rfl))

omit [Units U] in
theorem recover_output (s : InOrderState U) : (recover s).renameOutput = [] := rfl

theorem tickRest_output (s : InOrderState U) : (tickRest s).renameOutput = [] := by
  unfold tickRest
  dsimp only
  split
  · exact recover_output _
  · rfl

/-- A tick empties the rename latch, or asks for it to be emptied. -/
theorem tick_inv (h : InOrderInv s) :
    InOrderInv { tick s with renameOutput := [] } ∧
      ((tick s).renameOutput = [] ∨ (tick s).cpu.redirectPending = true) := by
  have hc := @commit_inv U _ _ (drainMshrs_inv (start_inv h))
  unfold tick
  dsimp only
  revert hc
  generalize commit (drainMshrs (start s)) = r
  obtain ⟨trap, s'⟩ := r
  intro hc
  cases trap with
  | some te =>
    refine ⟨?_, Or.inr (O3.trap_redirectPending _ te.1 te.2)⟩
    have hm := s'.cpu.l1dMshrs.flush_parked
    have hfr := Cpu.trap_frame ({ (flush s').cpu with redirectPending := true } : Cpu U) te.1 te.2
    refine InOrderInv.flushed rfl rfl rfl ?_ ?_
    · change ((({ (flush s').cpu with redirectPending := true } : Cpu U).trap te.1 te.2).l1dMshrs.parked).map _ = []
      rw [hfr.mshrs]
      change s'.cpu.l1dMshrs.flush.parked.map Mem1Mem2Entry.dest = []
      rw [hm.2, List.map_nil]
    · change (({ (flush s').cpu with redirectPending := true } : Cpu U).trap te.1 te.2).l1dMshrs.Ok
      rw [hfr.mshrs]
      exact hm.1
  | none =>
    have hinv := hc rfl
    dsimp only
    by_cases hp : s'.cpu.pc ≠ (drainMshrs (start s)).cpu.pc
    · rw [if_pos hp]
      exact ⟨flush_inv { s' with renameOutput := [] } rfl, Or.inl rfl⟩
    · rw [if_neg hp]
      have ho := tickRest_output s'
      refine ⟨?_, Or.inl ho⟩
      have hs : ({ tickRest s' with renameOutput := [] } : InOrderState U) = tickRest s' := by rw [← ho]
      rw [hs]
      exact tickRest_inv hinv

end

/-! ### Rename -/

/-- Room for `n` more instructions. -/
structure Budget (s : InOrderState U) (n : Nat) : Prop where
  rob : n ≤ s.eng.rob.freeSlots
  sb : n ≤ s.eng.sb.freeSlots
  queue : s.waiting.length + n ≤ s.eng.queueCapacity

/-- The entry rename makes for `id`. -/
def newEntry (s : InOrderState U) (id : IdExEntry) : RobEntry :=
  { tag := s.eng.rob.nextTag, pc := id.pc, inst := id.inst, instSize := id.instSize, rd := id.rd,
    rdFp := id.ctrl.fpRegWrite, ctrl := id.ctrl, physDst := 0, oldPhysDst := 0 }

/-- What it sends on, with the producers the scoreboard names. -/
def newIssue (s : InOrderState U) (id : IdExEntry) : RenameIssueEntry :=
  { id.toIssue s.eng.rob.nextTag with
    rs1Tag := s.eng.scoreboard.getProducer id.rs1 id.ctrl.rs1Fp
    rs2Tag := s.eng.scoreboard.getProducer id.rs2 id.ctrl.rs2Fp
    rs3Tag := if id.ctrl.rs3Fp then s.eng.scoreboard.getProducer id.rs3 true else none }

/-- The state with `id` renamed, and this store buffer. -/
def renamed (s : InOrderState U) (id : IdExEntry) (sb : StoreBuffer) : InOrderState U :=
  { s with
    eng := { s.eng with
      rob := { s.eng.rob with
        entries := s.eng.rob.entries ++ [newEntry s id]
        nextTag := s.eng.rob.nextTag.next }
      scoreboard :=
        if id.ctrl.regWrite || id.ctrl.fpRegWrite then
          s.eng.scoreboard.setProducer id.rd id.ctrl.fpRegWrite s.eng.rob.nextTag
        else s.eng.scoreboard
      sb := sb }
    renameOutput := s.renameOutput ++ [newIssue s id] }

theorem renameOne_renamed {n : Nat} (hb : Budget s (n + 1)) (id : IdExEntry) :
    ∃ sb, renameOne s id = (true, renamed s id sb) ∧ Budget (renamed s id sb) n := by
  have hrob := hb.rob
  have hsb := hb.sb
  have hqueue := hb.queue
  have hnotFull : s.eng.rob.isFull = false := by
    simp only [Rob.freeSlots] at hrob
    simp only [Rob.isFull, beq_eq_false_iff_ne]
    omega
  have hbudget : ∀ sb : StoreBuffer, n ≤ sb.freeSlots → Budget (renamed s id sb) n := fun sb hn => by
    refine ⟨?_, hn, ?_⟩
    · simp only [Rob.freeSlots, renamed, List.length_append, List.length_singleton] at hrob ⊢
      omega
    · simp only [InOrderState.waiting, renamed, List.length_append, List.length_singleton] at hqueue ⊢
      omega
  unfold renameOne Rob.allocate
  rw [hnotFull]
  simp only [Bool.false_eq_true, if_false]
  cases hm : id.ctrl.memWrite with
  | false => exact ⟨s.eng.sb, rfl, hbudget _ (by omega)⟩
  | true =>
    have hsbFull : s.eng.sb.isFull = false := by
      simp only [StoreBuffer.freeSlots] at hsb
      simp only [StoreBuffer.isFull, beq_eq_false_iff_ne]
      omega
    simp only [StoreBuffer.allocate, hsbFull, Bool.false_eq_true, if_false, if_true]
    refine ⟨_, rfl, hbudget _ ?_⟩
    simp only [StoreBuffer.freeSlots, List.length_append, List.length_singleton] at hsb ⊢
    omega

theorem renamed_tags (s : InOrderState U) (id : IdExEntry) (sb : StoreBuffer) :
    (renamed s id sb).eng.rob.tags = s.eng.rob.tags ++ [s.eng.rob.nextTag] := by
  simp only [Rob.tags, renamed, newEntry, List.map_append, List.map_singleton]

theorem renamed_waiting (s : InOrderState U) (id : IdExEntry) (sb : StoreBuffer) :
    (renamed s id sb).waiting = s.waiting ++ [newIssue s id] := by
  simp only [InOrderState.waiting, renamed, List.append_assoc]

/-- Operand names found in the scoreboard are tags of the buffer. -/
theorem newIssue_srcTags (h : InOrderInv s) (id : IdExEntry) : ∀ t ∈ (newIssue s id).srcTags, t ∈ s.eng.rob.tags := by
  have hboard : ∀ (r : RegIdx) (fp : Bool) (t : RobTag), s.eng.scoreboard.getProducer r fp = some t →
      t ∈ s.eng.rob.tags := fun r fp t ht => by
    have hmem := mem_of_producer ((h.board (r, fp)).symm.trans ht)
    rwa [List.map_map] at hmem
  intro t ht
  simp only [RenameIssueEntry.srcTags, newIssue, List.mem_append, Option.mem_toList] at ht
  rcases ht with ht | ht | ht
  · exact hboard _ _ _ ht
  · exact hboard _ _ _ ht
  · by_cases h3 : id.ctrl.rs3Fp
    · rw [if_pos h3] at ht
      exact hboard _ _ _ ht
    · rw [if_neg h3] at ht
      exact absurd ht (by simp)

/-- **One rename.** -/
theorem renamed_inv (h : InOrderInv s) (id : IdExEntry) (sb : StoreBuffer)
    (hroom : s.waiting.length < s.eng.queueCapacity)
    (hspan : ∀ t ∈ s.eng.rob.tags, Serial.age s.eng.rob.nextTag t + RenInv.tagStep s.eng.rob.nextTag < Serial.half 32) :
    InOrderInv (renamed s id sb) := by
  obtain ⟨done, hsplit, hfly⟩ := h.split
  have hentries : (renamed s id sb).eng.rob.entries = s.eng.rob.entries ++ [newEntry s id] := rfl
  -- the counter's value is no tag of the buffer
  have hfresh : s.eng.rob.nextTag ∉ s.eng.rob.tags := fun hin => by
    have hpos := (h.window.bounded _ hin).1
    rw [Serial.age_self] at hpos
    exact lt_irrefl _ hpos
  have hwaitTags : ∀ w ∈ s.waiting, w.robTag ∈ s.eng.rob.tags := fun w hw => by
    rw [hsplit]
    exact List.mem_append_right _ (List.mem_map_of_mem hw)
  -- a name an older instruction kept is not given out again
  have hother : ∀ w ∈ s.waiting, ∀ t ∈ w.srcTags, t ≠ s.eng.rob.nextTag := fun w hw t ht => by
    obtain ⟨hpos, hlt⟩ := h.window.bounded _ (hwaitTags w hw)
    exact Serial.ne_now (by decide) hpos hlt (h.named w hw t ht)
  refine ⟨⟨done, ?_, hfly⟩, ?_, h.flyNodup, fun e he hf => ?_, fun e he hw => ?_, fun e he hf => ?_, ?_,
    fun w hw pre e post hes ht => ?_, fun w hw t ht => ?_, h.mshrs, ?_⟩
  · rw [renamed_tags, renamed_waiting, List.map_append, ← List.append_assoc, ← hsplit]
    rfl
  · rw [renamed_tags]
    change Serial.Window s.eng.rob.nextTag.next _
    rw [RenInv.next_eq]
    exact h.window.push (by decide) (RenInv.tagStep_pos _) hspan (lt_of_le_of_lt (RenInv.tagStep_le _) (by decide))
  · rw [hentries] at he
    rcases List.mem_append.mp he with he' | he'
    · exact h.unfinished e he' hf
    · rw [List.mem_singleton.mp he']
      exact fun hst => RobState.noConfusion hst
  · rw [hentries] at he
    rcases List.mem_append.mp he with he' | he'
    · rw [renamed_waiting, List.map_append] at hw
      rcases List.mem_append.mp hw with hw' | hw'
      · exact h.issued e he' hw'
      · have htag : e.tag = s.eng.rob.nextTag := List.mem_singleton.mp hw'
        exact absurd (htag ▸ List.mem_map_of_mem he') hfresh
    · rw [List.mem_singleton.mp he']
      rfl
  · rw [hentries] at he
    rcases List.mem_append.mp he with he' | he'
    · exact h.faults e he' hf
    · rw [List.mem_singleton.mp he'] at hf
      exact RobState.noConfusion hf
  · rw [hentries, List.map_append]
    have hb := h.board.enter (newEntry s id).writer
    rw [← Scoreboard.table_setProducer] at hb
    exact hb
  · rw [hentries] at hes
    rw [renamed_tags]
    rw [renamed_waiting] at hw
    have hlive : ∀ t ∈ (s.eng.rob.entries.map RobEntry.writer).map Producers.Writer.tag,
        t ∈ s.eng.rob.tags ++ [s.eng.rob.nextTag] := by
      intro t ht
      rw [List.map_map] at ht
      exact List.mem_append_left _ ht
    rcases List.eq_nil_or_concat post with rfl | ⟨post', e', rfl⟩
    · -- the new entry itself: the scoreboard names the producers of all that is there
      obtain ⟨rfl, hnew⟩ := List.append_inj' hes rfl
      obtain rfl := List.singleton_injective hnew
      rcases List.mem_append.mp hw with hw' | hw'
      · have htag : s.eng.rob.nextTag = w.robTag := ht
        exact absurd (htag ▸ hwaitTags w hw') hfresh
      · rw [List.mem_singleton.mp hw']
        refine ⟨Names.of_tracks h.board hlive _, Names.of_tracks h.board hlive _, fun h3 => ?_⟩
        have h3' : id.ctrl.rs3Fp = true := h3
        have htag : (newIssue s id).rs3Tag = s.eng.scoreboard.table (id.rs3, true) := by
          simp only [newIssue, if_pos h3']
          rfl
        rw [htag]
        exact Names.of_tracks h.board hlive _
    · rw [List.concat_eq_append, ← List.cons_append, ← List.append_assoc] at hes
      obtain ⟨hes', -⟩ := List.append_inj' hes rfl
      have hmem : e ∈ s.eng.rob.entries := by
        rw [hes']
        simp
      rcases List.mem_append.mp hw with hw' | hw'
      · have hsrc := h.sources w hw' pre e post' hes' ht
        have hne : ∀ o : Option RobTag, (∀ t ∈ o.toList, t ∈ w.srcTags) → o ≠ some s.eng.rob.nextTag := fun o ho heq =>
          hother w hw' s.eng.rob.nextTag (ho _ (by simp [heq])) rfl
        refine ⟨hsrc.rs1.enter (hne _ fun t ht => List.mem_append_left _ ht),
          hsrc.rs2.enter (hne _ fun t ht => List.mem_append_right _ (List.mem_append_left _ ht)),
          fun h3 => (hsrc.rs3 h3).enter (hne _ fun t ht => List.mem_append_right _ (List.mem_append_right _ ht))⟩
      · rw [List.mem_singleton.mp hw'] at ht
        have htag : e.tag = s.eng.rob.nextTag := ht
        exact absurd (htag ▸ List.mem_map_of_mem hmem) hfresh
  · rw [renamed_waiting] at hw
    rcases List.mem_append.mp hw with hw' | hw'
    · exact h.named w hw' t ht
    · rw [List.mem_singleton.mp hw'] at ht ⊢
      exact (h.window.bounded t (newIssue_srcTags h id t ht)).2
  · rw [renamed_waiting, List.length_append]
    exact hroom

/-! ### The rename stage -/

theorem renameLoop_naming (n : Nat) (s : InOrderState U) (ids : List IdExEntry) (hb : Budget s n) :
    Serial.Naming 2 s.eng.rob.nextTag s.eng.rob.tags (renameLoop n s ids).2.eng.rob.nextTag
      (renameLoop n s ids).2.eng.rob.tags := by
  induction n generalizing s ids with
  | zero => cases ids <;> exact .done _ _
  | succ n ih =>
    cases ids with
    | nil => exact .done _ _
    | cons id ids =>
      obtain ⟨sb, heq, hb'⟩ := renameOne_renamed hb id
      rw [renameLoop, heq]
      have hnext : (renamed s id sb).eng.rob.nextTag =
          s.eng.rob.nextTag + BitVec.ofNat 32 (RenInv.tagStep s.eng.rob.nextTag) := RenInv.next_eq _
      have htags := renamed_tags s id sb
      have hrest := ih (renamed s id sb) ids hb'
      rw [hnext] at hrest
      refine .step (RenInv.tagStep s.eng.rob.nextTag) ⟨RenInv.tagStep_pos _, RenInv.tagStep_le _⟩
          (fun t ht => ?_) ?_ hrest
      · rw [htags]
        exact List.mem_append_left _ ht
      · rw [htags]
        exact List.mem_append_right _ List.mem_cons_self

theorem renameLoop_inv (n : Nat) (ids : List IdExEntry) (h : InOrderInv s) (hb : Budget s n)
    (hspan : (renameLoop n s ids).2.SpanOk) : InOrderInv (renameLoop n s ids).2 := by
  induction n generalizing s ids with
  | zero => cases ids <;> exact h
  | succ n ih =>
    cases ids with
    | nil => exact h
    | cons id ids =>
      obtain ⟨sb, heq, hb'⟩ := renameOne_renamed hb id
      have hrest := renameLoop_naming n (renamed s id sb) ids hb'
      rw [renameLoop, heq] at hspan ⊢
      dsimp only at hspan ⊢
      have hnext : (renamed s id sb).eng.rob.nextTag =
          s.eng.rob.nextTag + BitVec.ofNat 32 (RenInv.tagStep s.eng.rob.nextTag) := RenInv.next_eq _
      have htags := renamed_tags s id sb
      rw [hnext] at hrest
      have hsub : ∀ t ∈ s.eng.rob.tags, t ∈ (renamed s id sb).eng.rob.tags := fun t ht => by
        rw [htags]
        exact List.mem_append_left _ ht
      obtain ⟨hold, -⟩ := Serial.Naming.first ⟨RenInv.tagStep_pos _, RenInv.tagStep_le _⟩ hsub
        (by rw [htags]; exact List.mem_append_right _ List.mem_cons_self) hrest (by decide) (by decide) hspan
      have hqueue := hb.queue
      refine ih ids (renamed_inv h id sb (by omega) fun t ht => ?_) hb' hspan
      exact (hold t ht (h.window.bounded t ht).2).2

theorem renameLoop_cpu (n : Nat) (s : InOrderState U) (ids : List IdExEntry) (hb : Budget s n) :
    (renameLoop n s ids).2.cpu = s.cpu := by
  induction n generalizing s ids with
  | zero => cases ids <;> rfl
  | succ n ih =>
    cases ids with
    | nil => rfl
    | cons id ids =>
      obtain ⟨sb, heq, hb'⟩ := renameOne_renamed hb id
      rw [renameLoop, heq]
      exact ih (renamed s id sb) ids hb'

theorem budget_canAccept (ho : s.renameOutput = []) (h : InOrderInv s) : Budget s (canAccept s.eng) := by
  have hroom := h.room
  rw [InOrderState.waiting, ho, List.append_nil] at hroom
  unfold canAccept
  refine ⟨by omega, by omega, ?_⟩
  rw [InOrderState.waiting, ho, List.append_nil]
  omega

/-- **The rename stage.** -/
theorem renameStage_inv (ids : List IdExEntry) (h : InOrderInv s) (ho : s.renameOutput = [])
    (hspan : (renameStage s ids).2.SpanOk) : InOrderInv (renameStage s ids).2 :=
  renameLoop_inv _ ids h (budget_canAccept ho h) hspan

theorem renameStage_cpu (ids : List IdExEntry) (h : InOrderInv s) (ho : s.renameOutput = []) :
    (renameStage s ids).2.cpu = s.cpu :=
  renameLoop_cpu _ s ids (budget_canAccept ho h)

end InOrder

end Rvsim
