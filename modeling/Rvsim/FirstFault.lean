/-
# The first fault wins

When an instruction faults in execution, its buffer entry gets the trap, but
the instruction goes on through the pipeline with its control signals and
without the trap. One that is no memory access only completes, and `complete`
leaves a faulted entry alone. A floating-point load or store that finds the
unit off is a memory access: it goes on to the memory stages with address 0,
and a trap it meets there replaces the first. No other memory access faults
in execution.

Key definitions:
  - `O3.executeTrap`, `O3.executed`, `O3.faults`
  - `O3Pipeline.MarkedRun`, `O3Pipeline.FirstFault`
Key theorems:
  - `O3.executeOne_rob`, `O3.issueLoop_frozen`, `O3.tick_safe`
  - `O3Pipeline.MarkedRun.firstFault`
-/
import Rvsim.O3Calm
import Rvsim.Registers

namespace Rvsim

variable {U : Type} {D : Prop} {total : Nat} {s s' s'' : O3State U}

namespace O3

open O3State (Calm)

/-! ### What execution records -/

/-- The trap `execute_system` records. -/
def systemTrap (cpu : Cpu U) (id : RenameIssueEntry) : Option Trap :=
  let illegalIf (p : Bool) : Option Trap := if p then some (.illegalInstruction id.inst) else none
  match id.ctrl.systemOp with
  | .mret => illegalIf (cpu.privilege != .machine)
  | .sret =>
    illegalIf (cpu.privilege == .user ||
      (cpu.privilege == .supervisor && (cpu.csrs.mstatus >>> 22) &&& 1 != 0))
  | .wfi =>
    illegalIf (cpu.privilege == .user ||
      (cpu.privilege == .supervisor && (cpu.csrs.mstatus >>> 21) &&& 1 != 0))
  | .sfenceVma => illegalIf (tvmTrap cpu)
  | _ =>
    if id.inst = Inst.ecall then some (ecallTrap cpu.privilege)
    else illegalIf (id.ctrl.csrOp != .none && csrIllegal cpu id)

/-- The trap `execute_one` records. -/
def executeTrap (cpu : Cpu U) (id : RenameIssueEntry) : Option Trap :=
  match id.trap with
  | some t => some t
  | none =>
    match id.ctrl.systemOp with
    | .fenceI => none
    | .none | .fence => if fsOff cpu && isFpInst id.ctrl then some (.illegalInstruction id.inst) else none
    | _ => systemTrap cpu id

/-- Entries change, but none in tag, state or trap. -/
def SameFaults (r r' : Rob) : Prop :=
  ∃ g : RobEntry → RobEntry, r'.entries = r.entries.map g ∧
    ∀ e, (g e).tag = e.tag ∧ (g e).state = e.state ∧ (g e).trap = e.trap

namespace SameFaults

theorem refl (r : Rob) : SameFaults r r := ⟨id, by simp, fun _ => ⟨rfl, rfl, rfl⟩⟩

theorem modify (r : Rob) (tag : RobTag) {f : RobEntry → RobEntry}
    (hf : ∀ e, (f e).tag = e.tag ∧ (f e).state = e.state ∧ (f e).trap = e.trap) :
    SameFaults r (r.modify tag f) := by
  refine ⟨fun e => if e.tag = tag then f e else e, rfl, fun e => ?_⟩
  dsimp only
  split
  · exact hf e
  · exact ⟨rfl, rfl, rfl⟩

theorem trans {a b c : Rob} (h : SameFaults a b) (h' : SameFaults b c) : SameFaults a c := by
  obtain ⟨g, hg, hk⟩ := h
  obtain ⟨g', hg', hk'⟩ := h'
  refine ⟨g' ∘ g, by rw [hg', hg, List.map_map], fun e => ?_⟩
  obtain ⟨h1, h2, h3⟩ := hk e
  obtain ⟨k1, k2, k3⟩ := hk' (g e)
  exact ⟨k1.trans h1, k2.trans h2, k3.trans h3⟩

theorem cools {r r' : Rob} (h : SameFaults r r') (hot : List RobTag) : Rob.Cools hot r r' := by
  obtain ⟨g, hg, hk⟩ := h
  exact Rob.Cools.of_map hg (fun e => (hk e).1) fun e hf _ => ⟨(hk e).2.1.trans hf, (hk e).2.2⟩

end SameFaults

/-- What execution does to the buffer: the trap of `t` if there is one, else no fault at all. -/
def Records (tag : RobTag) (r r' : Rob) : Option Trap → Prop
  | some t => r' = r.fault tag t
  | none => SameFaults r r'

/-- A check that makes the instruction illegal. -/
theorem Records.illegal {tag : RobTag} {r r₁ r₂ : Rob} {t : Trap} {P : Prop} [Decidable P] {p : Bool}
    (hp : p = true ↔ P) (h₁ : P → r₁ = r.fault tag t) (h₂ : ¬P → SameFaults r r₂) :
    Records tag r (if P then r₁ else r₂) (if p then some t else none) := by
  by_cases h : P
  · rw [if_pos h, if_pos (hp.mpr h)]
    exact h₁ h
  · rw [if_neg h, if_neg fun hp' => h (hp.mp hp')]
    exact h₂ h

theorem executeCsr_rob (cpu : Cpu U) (id : RenameIssueEntry) (rob : Rob) (a d : U64) [Units U] :
    Records id.robTag rob (executeCsr cpu id rob a d).rob
      (if csrIllegal cpu id then some (.illegalInstruction id.inst) else none) := by
  have hdrain : SameFaults rob (drainFpFlags cpu id rob).2 := by
    unfold drainFpFlags
    split
    · refine ⟨fun e => if RobTag.isOlderThan e.tag id.robTag then { e with fpFlags := 0 } else e, rfl, fun e => ?_⟩
      dsimp only
      split
      · exact ⟨rfl, rfl, rfl⟩
      · exact ⟨rfl, rfl, rfl⟩
    · exact SameFaults.refl rob
  unfold executeCsr
  rw [apply_ite ExecOut.rob]
  refine Records.illegal Iff.rfl (fun _ => rfl) fun _ => ?_
  dsimp only
  split
  · exact hdrain.trans (SameFaults.modify _ _ fun _ => ⟨rfl, rfl, rfl⟩)
  · exact hdrain

theorem executeSystem_rob (cpu : Cpu U) (id : RenameIssueEntry) (rob : Rob) (a d : U64) [Units U] :
    Records id.robTag rob (executeSystem cpu id rob a d).rob (systemTrap cpu id) := by
  unfold executeSystem systemTrap
  dsimp only
  cases id.ctrl.systemOp
  case mret =>
    dsimp only
    rw [apply_ite ExecOut.rob]
    exact Records.illegal (by simp) (fun _ => rfl) fun _ => SameFaults.refl rob
  case sret =>
    dsimp only
    rw [← ite_or, apply_ite ExecOut.rob]
    exact Records.illegal (by simp) (fun _ => rfl) fun _ => SameFaults.refl rob
  case wfi =>
    dsimp only
    rw [apply_ite ExecOut.rob]
    exact Records.illegal (by simp) (fun _ => rfl) fun _ => SameFaults.refl rob
  case sfenceVma =>
    dsimp only
    rw [apply_ite ExecOut.rob]
    exact Records.illegal Iff.rfl (fun _ => rfl) fun _ => SameFaults.refl rob
  all_goals
    dsimp only
    by_cases he : id.inst = Inst.ecall
    · rw [if_pos he, if_pos he]
      exact rfl
    · rw [if_neg he, if_neg he]
      by_cases hop : id.ctrl.csrOp = .none
      · simp only [hop, ne_eq, not_true, if_false, bne_self_eq_false, Bool.false_and, Bool.false_eq_true]
        exact SameFaults.refl rob
      · have hne : (id.ctrl.csrOp != .none) = true := by simpa using hop
        rw [if_pos hop, hne, Bool.true_and]
        exact executeCsr_rob cpu id rob a d

theorem executeControl_rob (cpu : Cpu U) (id : RenameIssueEntry) (rob : Rob) [Units U] :
    SameFaults rob (executeControl cpu id rob).2.2 := by
  unfold executeControl
  split
  · exact SameFaults.modify _ _ fun _ => ⟨rfl, rfl, rfl⟩
  · exact SameFaults.modify _ _ fun _ => ⟨rfl, rfl, rfl⟩
  · exact SameFaults.refl rob

/-- **What `execute_one` records in the buffer.** -/
theorem executeOne_rob [Units U] (cpu : Cpu U) (id : RenameIssueEntry) (rob : Rob) :
    Records id.robTag rob (executeOne cpu id rob).rob (executeTrap cpu id) := by
  have hrest : Records id.robTag rob (executeRest cpu id rob).rob
      (if fsOff cpu && isFpInst id.ctrl then some (.illegalInstruction id.inst) else none) := by
    unfold executeRest
    rw [apply_ite ExecOut.rob]
    exact Records.illegal Iff.rfl (fun _ => rfl) fun _ => executeControl_rob cpu id rob
  unfold executeOne executeTrap
  cases id.trap with
  | some t => exact rfl
  | none =>
    dsimp only
    cases hop : id.ctrl.systemOp
    case fenceI => exact SameFaults.refl rob
    case none => exact hrest
    case fence => exact hrest
    all_goals exact executeSystem_rob cpu id rob id.rv1 id.rv2

/-! ### Issue -/

/-- A floating-point load or store that finds the unit off. -/
def fpAccessOff (cpu : Cpu U) (id : RenameIssueEntry) : Bool := id.ctrl.isMem && isFpInst id.ctrl && fsOff cpu

/-- An instruction that accesses memory brings no trap, and is no system operation. -/
def PlainMem (id : RenameIssueEntry) : Prop :=
  id.ctrl.isMem = true → id.trap = none ∧ id.ctrl.systemOp = .none

/-- Of the memory accesses only these fault in execution. -/
theorem isMem_of_executeTrap {cpu : Cpu U} {id : RenameIssueEntry} {t : Trap} (hp : PlainMem id)
    (ht : executeTrap cpu id = some t) (hoff : fpAccessOff cpu id = false) : id.ctrl.isMem = false := by
  by_contra hmem
  simp only [Bool.not_eq_false] at hmem
  obtain ⟨htrap, hop⟩ := hp hmem
  simp only [executeTrap, htrap, hop, Option.ite_none_right_eq_some, Bool.and_eq_true] at ht
  simp [fpAccessOff, hmem, ht.1.1, ht.1.2] at hoff

section

variable [Units U]

/-- The instructions the issue loop executes, each with the core it sees. -/
def issueTrace (backpressured : Bool) (s : O3State U) : List SelectedEntry → List (Cpu U × RenameIssueEntry)
  | [] => []
  | sel :: rest =>
    if mustWait s.eng backpressured sel.entry then
      let iq := s.eng.iq.dispatch sel.entry s.eng.prf sel.memDep
      issueTrace backpressured { s with eng := { s.eng with iq := iq } } rest
    else
      (issueCpu s sel.entry, sel.entry) ::
        match issueOne s sel.entry with
        | (true, _) => []
        | (false, s) => issueTrace backpressured s rest

omit [Units U] in
/-- The traps execution records, with the tags of their entries. -/
def faultsOf (tr : List (Cpu U × RenameIssueEntry)) : List (RobTag × Trap) :=
  tr.filterMap fun x => (executeTrap x.1 x.2).map fun t => (x.2.robTag, t)

omit [Units U] in
/-- Nothing in the memory stages has the tag of an instruction in hand. -/
theorem notMem_of_selected {e : RenameIssueEntry} {rest : List RenameIssueEntry}
    (h : O3Selected D total s (e :: rest)) :
    e.robTag ∉ s.memTags ∧ e.robTag ∉ (rest ++ s.waiting).map (·.robTag) := by
  have hnd : (e.robTag :: ((rest ++ s.waiting).map (·.robTag) ++ s.flying.map Prod.fst)).Nodup := by
    have := h.flight.nodup
    simpa only [Flight.tags, Flight.held, O3State.flightWith, O3State.flight, List.map_cons, List.map_append,
      List.map_map, List.cons_append, List.append_assoc, Function.comp_def, RenameIssueEntry.bare_robTag,
      RenameIssueEntry.bare_dest, RenameIssueEntry.dest] using this
  obtain ⟨hnot, -⟩ := List.nodup_cons.mp hnd
  simp only [List.mem_append, not_or] at hnot
  refine ⟨fun hm => hnot.2 ?_, hnot.1⟩
  obtain ⟨x, hx, hxt⟩ := List.mem_map.mp hm
  refine List.mem_map.mpr ⟨x, ?_, hxt⟩
  simp only [O3State.memFlying, O3State.flying, List.mem_append, List.mem_map, List.mem_filter] at hx ⊢
  refine hx.imp_left ?_
  rintro ⟨p, ⟨hp, hpm⟩, rfl⟩
  refine ⟨p, ⟨hp, ?_⟩, rfl⟩
  cases hw : p.speculativeWritten with
  | false => rfl
  | true => rw [h.written p hp hw] at hpm; exact absurd hpm (by simp)

omit [Units U] in
/-- The buffer after an instruction executed: a fault elsewhere stays, its own is there. -/
theorem Issued.frozen {e : RenameIssueEntry} {rest : List RenameIssueEntry} {cpu : Cpu U} {r : ExecOut U}
    (hi : Issued s e r s') (hx : ExecSpec cpu e s.eng.rob r) {t? : Option Trap}
    (hr : Records e.robTag s.eng.rob r.rob t?) (hmem : t? ≠ none → e.ctrl.isMem = false)
    (h : O3Selected D total s (e :: rest)) :
    (∀ m, s.Frozen (e :: rest ++ s.waiting) m → s'.Frozen (rest ++ s'.waiting) m) ∧
      ∀ t, t? = some t → s'.Frozen (rest ++ s'.waiting) (e.robTag, t) := by
  obtain ⟨c, w, hpend, -, hrob, -⟩ := hi.written
  obtain ⟨-, -, -, -, -, h6, h7, h8⟩ := hi.rest
  have hwait : s'.waiting = s.waiting := by
    unfold O3State.waiting
    rw [hi.iq, hi.output]
  have hafter : Rob.Cools [] r.rob s'.eng.rob := by
    rw [hrob]
    cases w with
    | false => exact Rob.Cools.refl _
    | true => exact completeAlu_cools [] _ r.result
  have hfly : ∀ x ∈ s'.memFlying, x ∈ s.memFlying ∨ (x = e.dest ∧ e.ctrl.isMem = true) := by
    intro x hx'
    simp only [O3State.memFlying, hpend, h6, h7, h8, hi.frame.mshrs, List.filter_append, List.map_append,
      List.filter_cons, List.filter_nil, hx.ctrl, List.mem_append] at hx' ⊢
    by_cases hm : e.ctrl.isMem
    · simp only [if_pos hm, List.map_cons, List.map_nil, hx.dest, List.mem_singleton] at hx'
      tauto
    · simp only [if_neg hm, List.map_nil, List.not_mem_nil, or_false] at hx'
      exact Or.inl hx'
  obtain ⟨hcold, hnew⟩ := notMem_of_selected h
  refine ⟨fun m hm => ?_, fun t ht => ?_⟩
  · have hne : m.1 ≠ e.robTag := fun heq => hm.waiting (by simp [heq])
    have hexec : Rob.Cools [e.robTag] s.eng.rob r.rob := by
      cases t? with
      | none => exact SameFaults.cools hr _
      | some t =>
        rw [show r.rob = s.eng.rob.fault e.robTag t from hr]
        exact Rob.Cools.fault (by simp) t
    have hafter' : Rob.Cools [e.robTag] r.rob s'.eng.rob := hafter.mono (by simp)
    have hcools := hexec.trans hafter'
    refine ⟨fun e' he' htag => ?_, fun hm' => ?_, fun hw' => ?_⟩
    · obtain ⟨e₀, he₀, htag₀, hkeep⟩ := hcools e' he'
      obtain ⟨hf, htrap⟩ := hm.entry e₀ he₀ (htag₀.trans htag)
      obtain ⟨hf', htrap'⟩ := hkeep hf (by rw [htag₀, htag]; simpa using hne)
      exact ⟨hf', htrap'.trans htrap⟩
    · obtain ⟨x, hx', hxt⟩ := List.mem_map.mp hm'
      rcases hfly x hx' with hold | ⟨rfl, -⟩
      · exact hm.mem (List.mem_map.mpr ⟨x, hold, hxt⟩)
      · exact hne hxt.symm
    · rw [hwait] at hw'
      exact hm.waiting (List.mem_cons_of_mem _ hw')
  · subst ht
    have hrec : r.rob = s.eng.rob.fault e.robTag t := hr
    refine ⟨fun e' he' htag => ?_, fun hm' => ?_, by rw [hwait]; exact hnew⟩
    · obtain ⟨e₁, he₁, htag₁, hkeep⟩ := hafter e' he'
      have hf₁ : e₁.state = .faulted ∧ e₁.trap = some t := by
        rw [hrec] at he₁
        obtain ⟨e₀, -, rfl⟩ := List.mem_map.mp he₁
        by_cases h0 : e₀.tag = e.robTag
        · rw [if_pos h0]
          exact ⟨rfl, rfl⟩
        · rw [if_neg h0] at htag₁
          exact absurd (htag₁.trans htag) h0
      obtain ⟨hf', htrap'⟩ := hkeep hf₁.1 (by simp)
      exact ⟨hf', htrap'.trans hf₁.2⟩
    · obtain ⟨x, hx', hxt⟩ := List.mem_map.mp hm'
      rcases hfly x hx' with hold | ⟨rfl, hmem'⟩
      · exact hcold (List.mem_map.mpr ⟨x, hold, hxt⟩)
      · rw [hmem (by simp)] at hmem'
        exact absurd hmem' (by simp)

omit [Units U] in
/-- What is in hand or waits after an instruction went back to the queue was so before. -/
theorem requeue_back (e : SelectedEntry) (rest : List SelectedEntry) :
    ∀ w ∈ rest.map (·.entry) ++
      ({ s with eng := { s.eng with iq := s.eng.iq.dispatch e.entry s.eng.prf e.memDep } } : O3State U).waiting,
      ∃ w' ∈ (e :: rest).map (·.entry) ++ s.waiting, w'.bare = w.bare := by
  intro w hw
  simp only [O3State.waiting, List.mem_append] at hw
  simp only [O3State.waiting, List.map_cons, List.cons_append, List.mem_cons, List.mem_append]
  rcases hw with hw | hw | hw
  · exact ⟨w, Or.inr (Or.inl hw), rfl⟩
  · rcases IssueQueue.mem_dispatch_bares hw with rfl | hw'
    · exact ⟨e.entry, Or.inl rfl, rfl⟩
    · exact ⟨w, Or.inr (Or.inr (Or.inl hw')), rfl⟩
  · exact ⟨w, Or.inr (Or.inr (Or.inr hw)), rfl⟩

omit [Units U] in
/-- What is selected or stays behind was waiting. -/
theorem chosen_back (s : O3State U) : ∀ w ∈ (chosen s).1.map (·.entry) ++
    ({ s with eng := { s.eng with iq := (chosen s).2 } } : O3State U).waiting,
    ∃ w' ∈ s.waiting, w'.bare = w.bare := by
  have hperm := IssueQueue.select_perm (q := s.eng.iq) s.eng.width s.eng.sb s.eng.rob s.eng.loadPorts
    s.eng.storePorts s.eng.prf
  intro w hw
  simp only [O3State.waiting, List.mem_append] at hw ⊢
  rcases hw with hw | hw | hw
  · obtain ⟨x, hx, rfl⟩ := List.mem_map.mp hw
    have hin : x.entry.bare ∈ s.eng.iq.bares :=
      hperm.mem_iff.mp (List.mem_append_left _ (List.mem_map.mpr ⟨x, hx, rfl⟩))
    exact ⟨x.entry.bare, Or.inl hin, rfl⟩
  · exact ⟨w, Or.inl (hperm.mem_iff.mp (List.mem_append_right _ hw)), rfl⟩
  · exact ⟨w, Or.inr hw, rfl⟩

/-- **The issue loop.** No fault of the loop is on a memory access: then every fault, old or new, is
safe after it. -/
theorem issueLoop_frozen (bp : Bool) (sel : List SelectedEntry) (s : O3State U)
    (h : O3Selected D total s (sel.map (·.entry)))
    (hmem : ∀ x ∈ issueTrace bp s sel, executeTrap x.1 x.2 ≠ none → x.2.ctrl.isMem = false)
    {M : List (RobTag × Trap)} (hM : ∀ m ∈ M, s.Frozen (sel.map (·.entry) ++ s.waiting) m) :
    (∀ w ∈ (issueLoop bp s sel).2.waiting, ∃ w' ∈ sel.map (·.entry) ++ s.waiting, w'.bare = w.bare) ∧
      ∀ m ∈ M ++ faultsOf (issueTrace bp s sel),
        (issueLoop bp s sel).2.Frozen (issueLoop bp s sel).2.waiting m := by
  induction sel generalizing s M with
  | nil =>
    refine ⟨fun w hw => ⟨w, hw, rfl⟩, fun m hm => ?_⟩
    exact hM m (by simpa [issueTrace, faultsOf] using hm)
  | cons e rest ih =>
    rw [issueLoop]
    rw [issueTrace] at hmem ⊢
    by_cases hw : mustWait s.eng bp e.entry
    · rw [if_pos hw] at hmem ⊢
      rw [if_pos hw]
      have hback := requeue_back (s := s) e rest
      obtain ⟨h1, h2⟩ := ih _ (requeue_selected e.memDep s.cpu.units h) hmem (M := M) fun m hm => by
        have hm' := (hM m hm).mono fun w hwm => by
          obtain ⟨w', hw', hb⟩ := hback w hwm
          have ht : w'.bare.robTag = w.bare.robTag := by rw [hb]
          exact ⟨w', hw', ht⟩
        exact ⟨hm'.entry, hm'.mem, hm'.waiting⟩
      refine ⟨fun w hwm => ?_, h2⟩
      obtain ⟨w', hw', hb⟩ := h1 w hwm
      obtain ⟨w'', hw'', hb'⟩ := hback w' hw'
      exact ⟨w'', hw'', hb'.trans hb⟩
    · rw [if_neg hw] at hmem ⊢
      rw [if_neg hw]
      have hx := executeOne_spec (issueCpu s e.entry) e.entry s.eng.rob
      have hi := issueOne_issued s e.entry
      have hwait : (issueOne s e.entry).2.waiting = s.waiting := by
        unfold O3State.waiting
        rw [hi.iq, hi.output]
      obtain ⟨hold, hnew⟩ := hi.frozen hx (executeOne_rob (issueCpu s e.entry) e.entry s.eng.rob)
        (hmem _ List.mem_cons_self) h
      obtain ⟨hsel, -, -⟩ := hi.selected hx h
      -- the marks with the one this instruction may add
      have hM' : ∀ m ∈ M ++ faultsOf [(issueCpu s e.entry, e.entry)],
          (issueOne s e.entry).2.Frozen (rest.map (·.entry) ++ (issueOne s e.entry).2.waiting) m := by
        intro m hm
        rcases List.mem_append.mp hm with hm | hm
        · exact hold m (hM m hm)
        · simp only [faultsOf, List.filterMap_cons, List.filterMap_nil] at hm
          cases ht : executeTrap (issueCpu s e.entry) e.entry with
          | none => simp [ht] at hm
          | some t =>
            simp only [ht, Option.map_some, List.mem_singleton] at hm
            exact hm ▸ hnew t ht
      have hcons : ∀ tr : List (Cpu U × RenameIssueEntry), faultsOf ((issueCpu s e.entry, e.entry) :: tr) =
          faultsOf [(issueCpu s e.entry, e.entry)] ++ faultsOf tr := fun tr => by
        rw [faultsOf, List.filterMap_cons]
        cases ht : executeTrap (issueCpu s e.entry) e.entry <;> simp [faultsOf, ht]
      rw [hcons]
      revert hmem hwait hsel hM'
      generalize issueOne s e.entry = out
      obtain ⟨fl, s'⟩ := out
      intro hmem hwait hsel hM'
      cases fl with
      | true =>
        refine ⟨fun w hwm => ⟨w, List.mem_append_right _ (hwait ▸ hwm), rfl⟩, fun m hm => ?_⟩
        refine (hM' m (by simpa [faultsOf] using hm)).mono fun w hwm => ⟨w, List.mem_append_right _ hwm, rfl⟩
      | false =>
        obtain ⟨h1, h2⟩ := ih s' hsel (fun x hx' => hmem x (List.mem_cons_of_mem _ hx')) hM'
        refine ⟨fun w hwm => ?_, fun m hm => h2 m (by rw [List.append_assoc]; exact hm)⟩
        obtain ⟨w', hw', hb⟩ := h1 w hwm
        refine ⟨w', ?_, hb⟩
        simp only [List.map_cons, List.cons_append, List.mem_cons]
        exact Or.inr (hwait ▸ hw')

theorem mem_issueTrace {bp : Bool} {sel : List SelectedEntry} {s : O3State U} {x : Cpu U × RenameIssueEntry}
    (hx : x ∈ issueTrace bp s sel) : x.2 ∈ sel.map (·.entry) := by
  induction sel generalizing s with
  | nil => exact absurd hx List.not_mem_nil
  | cons e rest ih =>
    rw [issueTrace] at hx
    split at hx
    · exact List.mem_cons_of_mem _ (ih hx)
    · rcases List.mem_cons.mp hx with rfl | hx'
      · exact List.mem_cons_self
      · split at hx'
        · exact absurd hx' List.not_mem_nil
        · exact List.mem_cons_of_mem _ (ih hx')

/-! ### The tick -/

/-- The instructions `issue` executes. -/
def issueExecuted (bp : Bool) (s : O3State U) : List (Cpu U × RenameIssueEntry) :=
  issueTrace bp { s with eng := { s.eng with iq := (chosen s).2 } } (chosen s).1

/-- The instructions a tick executes. -/
def executed (s : O3State U) : List (Cpu U × RenameIssueEntry) :=
  match commit (start s) with
  | (some _, _) => []
  | (none, s₁) =>
    if s₁.cpu.pc ≠ (start s).cpu.pc then []
    else
      match memory2 (drainMshrs (writeback s₁)) with
      | (some _, _) => []
      | (none, s₂) =>
        issueExecuted (!(memory1 s₂).eng.executeMem1.isEmpty)
          { memory1 s₂ with eng := drainPending (memory1 s₂).eng }

/-- Faults are safe, old and new; no instruction starts to wait. -/
def Safe (M new : List (RobTag × Trap)) (s s' : O3State U) : Prop :=
  (∀ w ∈ s'.waiting, ∃ w' ∈ s.waiting, w'.bare = w.bare) ∧ ∀ m ∈ M ++ new, s'.Frozen s'.waiting m

omit [Units U] in
theorem Safe.of_calm {M : List (RobTag × Trap)} (hc : Calm s s') (hM : ∀ m ∈ M, s.Frozen s.waiting m) :
    Safe M [] s s' :=
  ⟨fun w hw => ⟨w, hc.waiting w hw, rfl⟩, fun m hm => (hM m (by simpa using hm)).calm hc⟩

omit [Units U] in
theorem Safe.calm {M new : List (RobTag × Trap)} (h : Safe M new s s') (hc : Calm s' s'') : Safe M new s s'' :=
  ⟨fun w hw => h.1 w (hc.waiting w hw), fun m hm => (h.2 m hm).calm hc⟩

omit [Units U] in
theorem Safe.of_waiting {M new : List (RobTag × Trap)} (hw : ∀ w ∈ s'.waiting, w ∈ s.waiting)
    (h : Safe M new s' s'') : Safe M new s s'' :=
  ⟨fun w hw' => by
    obtain ⟨w', hw'', hb⟩ := h.1 w hw'
    exact ⟨w', hw w' hw'', hb⟩, h.2⟩

theorem issue_safe (bp : Bool) (h : O3Inv D total s) (hp : ∀ w ∈ s.waiting, PlainMem w)
    (hoff : ∀ x ∈ issueExecuted bp s, fpAccessOff x.1 x.2 = false) {M : List (RobTag × Trap)}
    (hM : ∀ m ∈ M, s.Frozen s.waiting m) : Safe M (faultsOf (issueExecuted bp s)) s (issue bp s).2 := by
  have hback := chosen_back s
  have hmem : ∀ x ∈ issueExecuted bp s, executeTrap x.1 x.2 ≠ none → x.2.ctrl.isMem = false := by
    intro x hx hne
    obtain ⟨t, ht⟩ := Option.ne_none_iff_exists'.mp hne
    obtain ⟨w', hw', hb⟩ := hback x.2 (List.mem_append_left _ (mem_issueTrace hx))
    have hplain : PlainMem w'.bare := hp w' hw'
    rw [hb] at hplain
    exact isMem_of_executeTrap hplain ht (hoff x hx)
  obtain ⟨h1, h2⟩ := issueLoop_frozen bp (chosen s).1 _ (chosen_selected h) hmem (M := M) fun m hm => by
    have hm' := (hM m hm).mono fun w hw => by
      obtain ⟨w', hw', hb⟩ := hback w hw
      have ht : w'.bare.robTag = w.bare.robTag := by rw [hb]
      exact ⟨w', hw', ht⟩
    exact ⟨hm'.entry, hm'.mem, hm'.waiting⟩
  refine ⟨fun w hw => ?_, h2⟩
  obtain ⟨w', hw', hb⟩ := h1 w hw
  obtain ⟨w'', hw'', hb'⟩ := hback w' hw'
  exact ⟨w'', hw'', hb'.trans hb⟩

theorem tickBack_safe (h : O3Inv D total s) (hp : ∀ w ∈ s.waiting, PlainMem w)
    (hoff : ∀ x ∈ issueExecuted (!(memory1 s).eng.executeMem1.isEmpty)
      { memory1 s with eng := drainPending (memory1 s).eng }, fpAccessOff x.1 x.2 = false)
    {M : List (RobTag × Trap)} (hM : ∀ m ∈ M, s.Frozen s.waiting m) :
    Safe M (faultsOf (issueExecuted (!(memory1 s).eng.executeMem1.isEmpty)
      { memory1 s with eng := drainPending (memory1 s).eng })) s (tickBack s) := by
  have hm := memory1_keeps h
  have hd := drainPending_keeps hm.inv
  have hcalm := (memory1_calm h).trans (drainPending_calm (memory1 s))
  have hsafe := (issue_safe _ hd.inv (fun w hw => hp w (hcalm.waiting w hw)) hoff
    fun m hm => (hM m hm).calm hcalm).of_waiting hcalm.waiting
  have hl := issue_looped (!(memory1 s).eng.executeMem1.isEmpty) hd.inv
  unfold tickBack
  dsimp only
  revert hsafe hl
  generalize issue (!(memory1 s).eng.executeMem1.isEmpty)
    { memory1 s with eng := drainPending (memory1 s).eng } = r
  obtain ⟨fl, s'⟩ := r
  intro hsafe hl
  cases fl with
  | none => exact hsafe.calm (dispatch_calm s')
  | some keep =>
    obtain ⟨rest, hsel, hmem, -⟩ := hl.flush keep rfl
    exact hsafe.calm (recover_calm hsel hmem)

/-- **A tick of the engine.** -/
theorem tick_safe (h : O3Inv D total s) (hp : ∀ w ∈ s.waiting, PlainMem w)
    (hoff : ∀ x ∈ executed s, fpAccessOff x.1 x.2 = false) {M : List (RobTag × Trap)}
    (hM : ∀ m ∈ M, s.Frozen s.waiting m) : Safe M (faultsOf (executed s)) s (tick s) := by
  have hs := start_keeps h
  have hc := (start_calm s).trans (commit_calm hs.inv)
  unfold executed at hoff ⊢
  unfold tick
  dsimp only
  rcases hcom : commit (start s) with ⟨_ | ⟨t, epc⟩, s₁⟩
  · rw [hcom] at hoff hc
    dsimp only at hoff hc ⊢
    by_cases hpc : s₁.cpu.pc ≠ (start s).cpu.pc
    · rw [if_pos hpc, if_pos hpc]
      refine Safe.of_calm (hc.trans ?_) hM
      exact calm_of_flushed rfl rfl rfl rfl rfl rfl rfl fun w hw => absurd hw List.not_mem_nil
    · rw [if_neg hpc] at hoff ⊢
      rw [if_neg hpc]
      have hk := commit_keeps hs.inv (by rw [hcom])
      rw [hcom] at hk
      have hw := writeback_keeps hk.inv
      have hd := drainMshrs_keeps hw.inv
      obtain ⟨hm, -⟩ := memory2_keeps hd.inv (drainMshrs_latch.trans writeback_latch)
      have hc₂ := ((hc.trans (writeback_calm s₁)).trans (drainMshrs_calm hw.inv)).trans (memory2_calm _)
      unfold tickRest
      rcases hm2 : memory2 (drainMshrs (writeback s₁)) with ⟨_ | ⟨v, pc⟩, s₂⟩
      · rw [hm2] at hoff hm hc₂
        dsimp only at hoff hm hc₂ ⊢
        exact (tickBack_safe hm.inv (fun w hw => hp w (hc₂.waiting w hw)) hoff
          fun m hm => (hM m hm).calm hc₂).of_waiting hc₂.waiting
      · rw [hm2] at hm hc₂
        exact Safe.of_calm (hc₂.trans (violationFlush_calm hm.inv v pc)) hM
  · rw [hcom] at hc
    exact Safe.of_calm (hc.trans (takeTrap_calm s₁ t epc)) hM

end

/-! ### Rename -/

/-- A decoded access brings no trap, and is no system operation. -/
def PlainDecoded (id : IdExEntry) : Prop :=
  id.ctrl.isMem = true → id.trap = none ∧ id.ctrl.systemOp = .none

theorem decodeEntry_plain (e : IfIdEntry) : PlainDecoded (decodeEntry e) := by
  unfold decodeEntry
  dsimp only
  split
  · next c hc => exact fun hm => ⟨rfl, decodeInstruction_mem e.inst e.pc c hc hm⟩
  · exact fun hm => absurd hm (by simp [ControlSignals.isMem])

/-- What the results are about in an entry. -/
def faultKey (e : RobEntry) : RobTag × RobState × Option Trap := (e.tag, e.state, e.trap)

/-- Rename appends: entries that have not faulted, and the instructions that wait with their tags. -/
structure Appends (P : RenameIssueEntry → Prop) (s s' : O3State U) : Prop where
  keys : ∃ new, s'.eng.rob.entries.map faultKey = s.eng.rob.entries.map faultKey ++ new ∧
    ∃ ws, s'.waiting = s.waiting ++ ws ∧ ws.map (·.robTag) = new.map Prod.fst ∧ ∀ w ∈ ws, P w
  mem : s'.memFlying = s.memFlying

namespace Appends

variable {P : RenameIssueEntry → Prop}

theorem refl (s : O3State U) : Appends P s s :=
  ⟨⟨[], by simp, [], by simp, rfl, fun w hw => absurd hw List.not_mem_nil⟩, rfl⟩

theorem trans (h : Appends P s s') (h' : Appends P s' s'') : Appends P s s'' := by
  obtain ⟨new, hk, ws, hw, ht, hP⟩ := h.keys
  obtain ⟨new', hk', ws', hw', ht', hP'⟩ := h'.keys
  refine ⟨⟨new ++ new', by rw [hk', hk, List.append_assoc], ws ++ ws', by rw [hw', hw, List.append_assoc],
    by rw [List.map_append, List.map_append, ht, ht'], fun w hwm => ?_⟩, h'.mem.trans h.mem⟩
  rcases List.mem_append.mp hwm with hwm | hwm
  · exact hP w hwm
  · exact hP' w hwm

/-- A fault stays safe, since the tags of what is appended are new. -/
theorem frozen (h : Appends P s s') (hnd : (s'.eng.rob.entries.map (·.tag)).Nodup) {m : RobTag × Trap}
    (hlive : m.1 ∈ s.eng.rob.entries.map (·.tag)) (hm : s.Frozen s.waiting m) : s'.Frozen s'.waiting m := by
  obtain ⟨new, hk, ws, hw, ht, -⟩ := h.keys
  have htags : ∀ es : List RobEntry, (es.map faultKey).map Prod.fst = es.map (·.tag) := fun es => by
    rw [List.map_map]
    rfl
  have hfresh : m.1 ∉ new.map Prod.fst := by
    rw [← htags, hk, List.map_append, htags] at hnd
    exact fun hin => (List.nodup_append.mp hnd).2.2 _ hlive _ hin rfl
  refine ⟨fun e' he' htag => ?_, ?_, fun hw' => ?_⟩
  · have hin := List.mem_map_of_mem (f := faultKey) he'
    rw [hk] at hin
    rcases List.mem_append.mp hin with hold | hnew
    · obtain ⟨e, he, heq⟩ := List.mem_map.mp hold
      simp only [faultKey, Prod.mk.injEq] at heq
      obtain ⟨hf, htrap⟩ := hm.entry e he (heq.1.trans htag)
      exact ⟨heq.2.1 ▸ hf, heq.2.2 ▸ htrap⟩
    · exact absurd (List.mem_map.mpr ⟨_, hnew, htag⟩) hfresh
  · unfold O3State.memTags
    rw [h.mem]
    exact hm.mem
  · rw [hw, List.map_append, ht] at hw'
    rcases List.mem_append.mp hw' with hw' | hw'
    · exact hm.waiting hw'
    · exact hfresh hw'

end Appends

theorem renameLoop_memFlying (n : Nat) (s : O3State U) (ids : List IdExEntry) :
    (renameLoop n s ids).2.memFlying = s.memFlying := by
  have hf := renameLoop_frame n s ids
  obtain ⟨rob, fl, m, prf, sb, lq, ckpts, heng⟩ := hf.eng
  unfold O3State.memFlying
  rw [heng, hf.cpu]

theorem RenameRun.keys {n : Nat} {ids : List IdExEntry} {r : List IdExEntry × O3State U}
    (h : RenameRun n s ids r) (hp : ∀ id ∈ ids, PlainDecoded id) :
    ∃ new, r.2.eng.rob.entries.map faultKey = s.eng.rob.entries.map faultKey ++ new ∧
      ∃ ws, r.2.waiting = s.waiting ++ ws ∧ ws.map (·.robTag) = new.map Prod.fst ∧ ∀ w ∈ ws, PlainMem w := by
  induction h with
  | stop n s ids => exact ⟨[], by simp, [], by simp, rfl, fun w hw => absurd hw List.not_mem_nil⟩
  | step hr hrest ih =>
    rename_i n s s' id ids r
    obtain ⟨new, hk, ws, hw, ht, hP⟩ := ih fun x hx => hp x (List.mem_cons_of_mem _ hx)
    obtain ⟨p, old, fl, -, -, -, -, ⟨g, hfix, hst, -, htr, hrob⟩, -, -, hout⟩ := hr.alloc
    have hkeys : s'.eng.rob.entries.map faultKey =
        s.eng.rob.entries.map faultKey ++ [(s.eng.rob.nextTag, .issued, none)] := by
      have hg : faultKey ∘ g = faultKey := funext fun e => by
        simp only [Function.comp_apply, faultKey, hfix.tag, hst, htr]
      rw [hrob, List.map_map, hg, List.map_append]
      rfl
    have hwait : s'.waiting = s.waiting ++ [(renamedEntry s.eng.renameMap id s.eng.rob.nextTag p).bare] := by
      simp only [O3State.waiting, hr.iq, hout, List.map_append, List.map_cons, List.map_nil, List.append_assoc]
    refine ⟨_ :: new, by rw [hk, hkeys, List.append_assoc]; rfl, _ :: ws,
      by rw [hw, hwait, List.append_assoc]; rfl, by rw [List.map_cons, List.map_cons, ht]; rfl, fun w hwm => ?_⟩
    rcases List.mem_cons.mp hwm with rfl | hwm
    · exact hp id List.mem_cons_self
    · exact hP w hwm

theorem renameStage_appends {ids : List IdExEntry} (ho : s.renameOutput = [])
    (hone : ∀ id ∈ ids, id.ctrl.OneFile) (hp : ∀ id ∈ ids, PlainDecoded id) :
    Appends PlainMem s (renameStage s ids).2 :=
  ⟨(renameLoop_run _ s ids (budget_canAccept ho) hone).keys hp, renameLoop_memFlying _ s ids⟩

end O3

/-! ### Runs -/

namespace O3Pipeline

section

variable [Units U] {p : O3Pipeline U}

/-- The instructions the engine executes in the next tick. -/
def executedIn (p : O3Pipeline U) : List (Cpu U × RenameIssueEntry) :=
  if p.core.cpu.preTick.1 then [] else O3.executed p.entering

/-- The faults recorded so far whose entries are still in the buffer, after the next tick. -/
def marksAfter (p : O3Pipeline U) (M : List (RobTag × Trap)) : List (RobTag × Trap) :=
  if p.core.cpu.preTick.1 then M
  else
    (M ++ O3.faultsOf p.executedIn).filter fun m =>
      (O3.tick p.entering).eng.rob.entries.any fun e => e.tag == m.1

/-- A run whose steps meet `S`, with the faults `execute_one` recorded on it that are in flight. -/
inductive MarkedRun (cfg : Config) (S : O3Pipeline U → O3Pipeline U → Prop) :
    O3Pipeline U → List (RobTag × Trap) → Prop where
  | init (cpu : Cpu U) (h : Loaded cfg cpu) : MarkedRun cfg S (O3Pipeline.init cfg cpu) []
  | tick (p : O3Pipeline U) (M : List (RobTag × Trap)) (h : MarkedRun cfg S p M) (hs : S p p.tick) :
      MarkedRun cfg S p.tick (p.marksAfter M)

theorem MarkedRun.run {cfg : Config} {S : O3Pipeline U → O3Pipeline U → Prop} {M : List (RobTag × Trap)}
    (h : MarkedRun cfg S p M) : Run cfg S p := by
  induction h with
  | init cpu h => exact .init cpu h
  | tick p M _ hs ih => exact .tick p ih hs

/-- **The first fault wins.** What execution recorded in an entry is what the entry has, nothing of the
instruction is in the memory stages, the entry does not leave the buffer by commit but with that trap, and
at the head the trap is taken. -/
structure FirstFault (p : O3Pipeline U) (M : List (RobTag × Trap)) : Prop where
  live : ∀ m ∈ M, ∃ e ∈ p.core.eng.rob.entries, e.tag = m.1
  kept : ∀ m ∈ M, ∀ e ∈ p.core.eng.rob.entries, e.tag = m.1 → e.state = .faulted ∧ e.trap = some m.2
  noAccess : ∀ m ∈ M, m.1 ∉ p.core.memTags
  commit : ∀ m ∈ M, ∀ e ∈ p.core.eng.rob.entries, e.tag = m.1 →
    e ∈ (O3.commit (O3.start p.entering)).2.eng.rob.entries ∨
      (O3.commit (O3.start p.entering)).1 = some (m.2, e.pc)
  head : ∀ m ∈ M, ∀ e rest, p.core.eng.rob.entries = e :: rest → e.tag = m.1 → 0 < p.core.eng.width →
    checkInterrupts p.entering.cpu = none → p.entering.cpu.wfiWaiting = false →
    (O3.commit (O3.start p.entering)).1 = some (m.2, e.pc)

/-- No floating-point load or store executes in the next tick while the unit is off. -/
def NoFpAccessOff (p : O3Pipeline U) : Prop := ∀ x ∈ p.executedIn, O3.fpAccessOff x.1 x.2 = false

instance (p : O3Pipeline U) : Decidable p.NoFpAccessOff := List.decidableBAll _ _

omit [Units U] in
/-- What the run keeps of the recorded faults. -/
structure Marked (p : O3Pipeline U) (M : List (RobTag × Trap)) : Prop where
  live : ∀ m ∈ M, m.1 ∈ p.core.eng.rob.entries.map (·.tag)
  frozen : ∀ m ∈ M, p.core.Frozen p.core.waiting m
  waiting : ∀ w ∈ p.core.waiting, O3.PlainMem w
  decoded : ∀ id ∈ p.frontend.decodeRename, O3.PlainDecoded id

omit [Units U] in
theorem calm_ofCpu {s : O3State U} {cpu : Cpu U} (hf : s.cpu.Frame cpu) :
    O3State.Calm s { s with cpu := cpu } :=
  O3.calm_of_moved rfl (fun x hx => by simpa only [O3State.memFlying, hf.mshrs] using hx) rfl rfl

omit [Units U] in
theorem Marked.calm {M : List (RobTag × Trap)} (h : Marked p M) {core : O3State U} (hc : p.core.Calm core)
    (ht : core.eng.rob.entries = p.core.eng.rob.entries) : Marked { p with core := core } M :=
  ⟨fun m hm => ht ▸ h.live m hm, fun m hm => (h.frozen m hm).calm hc,
    fun w hw => h.waiting w (hc.waiting w hw), h.decoded⟩

omit [Units U] in
theorem Marked.ofCpu {M : List (RobTag × Trap)} (h : Marked p M) {cpu : Cpu U} (hf : p.core.cpu.Frame cpu) :
    Marked { p with core := { p.core with cpu := cpu } } M := h.calm (calm_ofCpu hf) rfl

omit [Units U] in
theorem Marked.redirect {M : List (RobTag × Trap)} (h : Marked p M) (pc : U64) : Marked (p.redirect pc) M := by
  unfold O3Pipeline.redirect
  dsimp only
  split
  · have hc : p.core.Calm { p.core with cpu := { p.core.cpu with redirectPending := false }, renameOutput := [] } :=
      ⟨Rob.Cools.refl _, fun _ hx => hx, fun w hw => List.mem_append_left _ (by simpa [O3State.waiting] using hw)⟩
    have h' := h.calm hc rfl
    exact ⟨h'.live, h'.frozen, h'.waiting, by simp [Frontend.flush]⟩
  · exact h

/-- The engine's tick and the redirect, with the marks that are left. -/
theorem Marked.afterEngine {M : List (RobTag × Trap)} (hinv : O3Inv D total p.core) (h : Marked p M)
    (hoff : ∀ x ∈ O3.executed p.core, O3.fpAccessOff x.1 x.2 = false) :
    Marked p.afterEngine ((M ++ O3.faultsOf (O3.executed p.core)).filter fun m =>
      (O3.tick p.core).eng.rob.entries.any fun e => e.tag == m.1) := by
  obtain ⟨hwait, hsafe⟩ := O3.tick_safe hinv h.waiting hoff h.frozen
  have hticked : Marked { p with core := O3.tick p.core } ((M ++ O3.faultsOf (O3.executed p.core)).filter
      fun m => (O3.tick p.core).eng.rob.entries.any fun e => e.tag == m.1) := by
    refine ⟨fun m hm => ?_, fun m hm => hsafe m (List.mem_filter.mp hm).1, fun w hw => ?_, h.decoded⟩
    · obtain ⟨e, he, ht⟩ := List.any_eq_true.mp (List.mem_filter.mp hm).2
      exact List.mem_map.mpr ⟨e, he, by simpa using ht⟩
    · obtain ⟨w', hw', hb⟩ := hwait w hw
      have hplain : O3.PlainMem w'.bare := h.waiting w' hw'
      rw [hb] at hplain
      exact hplain
  exact hticked.redirect p.core.cpu.pc

/-- Rename and the front end. -/
theorem Marked.frontendTick {M : List (RobTag × Trap)} (h : Marked p M) (ho : p.core.renameOutput = [])
    (hone : p.frontend.Decoded) (hnodup : (p.frontendTick.core.eng.rob.entries.map (·.tag)).Nodup) :
    Marked p.frontendTick M := by
  have happ := O3.renameStage_appends ho hone h.decoded
  have hleft := (O3.renameStage_cpu ho hone).2
  obtain ⟨u, pc, hcpu⟩ := Frontend.tickBehind_cpu
    { p.frontend with decodeRename := (O3.renameStage p.core p.frontend.decodeRename).1 }
    (O3.renameStage p.core p.frontend.decodeRename).2.cpu true
  have hnd : ((O3.renameStage p.core p.frontend.decodeRename).2.eng.rob.entries.map (·.tag)).Nodup :=
    hnodup
  obtain ⟨new, hk, ws, hw, -, hP⟩ := happ.keys
  have hren : Marked { p with core := (O3.renameStage p.core p.frontend.decodeRename).2 } M := by
    refine ⟨fun m hm => ?_, fun m hm => happ.frozen hnd (h.live m hm) (h.frozen m hm), fun w hwm => ?_, h.decoded⟩
    · obtain ⟨e, he, ht⟩ := List.mem_map.mp (h.live m hm)
      have hin : O3.faultKey e ∈ (O3.renameStage p.core p.frontend.decodeRename).2.eng.rob.entries.map O3.faultKey := by
        rw [hk]
        exact List.mem_append_left _ (List.mem_map_of_mem he)
      obtain ⟨e', he', hkey⟩ := List.mem_map.mp hin
      exact List.mem_map.mpr ⟨e', he', (congrArg Prod.fst hkey).trans ht⟩
    · change w ∈ (O3.renameStage p.core p.frontend.decodeRename).2.waiting at hwm
      rw [hw] at hwm
      rcases List.mem_append.mp hwm with hwm | hwm
      · exact h.waiting w hwm
      · exact hP w hwm
  have hframe : (O3.renameStage p.core p.frontend.decodeRename).2.cpu.Frame p.frontendTick.core.cpu := by
    unfold O3Pipeline.frontendTick
    dsimp only
    rw [hcpu]
    exact ⟨rfl, rfl⟩
  have hmoved := hren.ofCpu hframe
  refine ⟨hmoved.live, hmoved.frozen, hmoved.waiting, ?_⟩
  exact Frontend.tickBehind_forall O3.decodeEntry_plain
    (fun _ _ hm => absurd hm (by simp [ControlSignals.isMem])) (fun id hid => h.decoded id (hleft id hid)) _ true

/-- **A tick of the simulator keeps the recorded faults.** -/
theorem Marked.tick {M : List (RobTag × Trap)} (hinv : Inv D total p) (hinv' : Inv D total p.tick)
    (h : Marked p M) (hoff : p.NoFpAccessOff) : Marked p.tick (p.marksAfter M) := by
  have hpre := h.ofCpu (preTick_frame p.core.cpu)
  have hinvpre := hinv.ofCpu (preTick_frame p.core.cpu)
  unfold NoFpAccessOff executedIn at hoff
  unfold marksAfter executedIn
  unfold O3Pipeline.tick at hinv' ⊢
  unfold entering at hoff ⊢
  rcases hr : p.core.cpu.preTick with ⟨skip, cpu⟩
  simp only [hr] at hpre hinvpre hoff hinv' ⊢
  cases skip with
  | true =>
    simp only [if_true]
    exact hpre.ofCpu (postTick_frame _)
  | false =>
    simp only [Bool.false_eq_true, if_false] at hoff hinv' ⊢
    refine Marked.ofCpu ?_ (postTick_frame _)
    obtain ⟨heng, hout⟩ := afterEngine_inv hinvpre
    have hafter := Marked.afterEngine hinvpre.core hpre hoff
    rw [pipelineTick_eq] at hinv' ⊢
    by_cases hf : (O3Pipeline.afterEngine { p with core := { p.core with cpu := cpu } }).core.cpu.fetching
    · simp only [if_pos hf] at hinv' ⊢
      exact hafter.frontendTick hout heng.decoded hinv'.core.flight.nodup_tags
    · rw [if_neg hf]
      exact hafter

theorem Marked.wins {M : List (RobTag × Trap)} (h : Marked p M) : FirstFault p M where
  live m hm := List.mem_map.mp (h.live m hm)
  kept m hm e he ht := (h.frozen m hm).entry e he ht
  noAccess m hm := (h.frozen m hm).mem
  commit m hm e he ht := by
    obtain ⟨hf, htrap⟩ := (h.frozen m hm).entry e he ht
    exact CommitState.commitStage_faulted hf htrap _ (O3.toCommit (O3.start p.entering)) he
  head m hm e rest hes ht hwidth hint hw := by
    obtain ⟨hf, htrap⟩ := (h.frozen m hm).entry e (hes ▸ List.mem_cons_self) ht
    exact CommitState.commitStage_faultedHead hf htrap hwidth (O3.toCommit (O3.start p.entering)) hes hint hw

/-- **The first fault wins** in every run in which no floating-point load or store executes while the
unit is off. -/
theorem MarkedRun.firstFault {cfg : Config} {M : List (RobTag × Trap)}
    (h : MarkedRun cfg (fun p q => SpanStep p q ∧ p.NoFpAccessOff) p M) : FirstFault p M := by
  have hinv : ∀ {q : O3Pipeline U} {N : List (RobTag × Trap)},
      MarkedRun cfg (fun p q => SpanStep p q ∧ p.NoFpAccessOff) q N →
        Inv False (cfg.prfGprSize + cfg.prfFprSize) q :=
    fun hq => hq.run.inv (fun _ _ hs => hs.1) fun hf => hf.elim
  suffices hm : Marked p M from hm.wins
  induction h with
  | init cpu hl =>
    have hbares : (IssueQueue.new cfg.issueQueueSize).bares = [] := by
      simp [IssueQueue.bares, IssueQueue.entries, IssueQueue.new]
    refine ⟨by simp, by simp, fun w hw => ?_, fun id hid => absurd hid List.not_mem_nil⟩
    simp only [O3State.waiting, O3Pipeline.init, O3.syncArchRegs, O3.Engine.new, hbares, List.map_nil,
      List.append_nil, List.not_mem_nil] at hw
  | tick q N hq hs ih =>
    exact Marked.tick (hinv hq) (hinv (.tick q N hq hs)) ih hs.2

/-- The faults recorded over the next `n` ticks. -/
def marksTicks (p : O3Pipeline U) (M : List (RobTag × Trap)) : Nat → List (RobTag × Trap)
  | 0 => M
  | n + 1 => marksTicks p.tick (p.marksAfter M) n

theorem MarkedRun.ticks {cfg : Config} {S : O3Pipeline U → O3Pipeline U → Prop} [∀ p q, Decidable (S p q)]
    (n : Nat) {M : List (RobTag × Trap)} (h : MarkedRun cfg S p M) (hm : meets S n p = true) :
    MarkedRun cfg S (p.ticks n) (p.marksTicks M n) := by
  induction n generalizing p M with
  | zero => exact h
  | succ n ih =>
    simp only [meets, Bool.and_eq_true, decide_eq_true_eq] at hm
    exact ih (.tick p M h hm.1) hm.2

end

/-- The bench machine with nothing at address 0. -/
def NullBench : Type := Bench

instance : Units NullBench :=
  { (inferInstanceAs (Units Bench) : Units Bench) with isValidAddress := fun _ a => a != 0 }

/-- The floating-point unit is turned off; behind a division waits one of its instructions. -/
def fsOffBehindDiv (w : U32) : O3Pipeline NullBench :=
  init smallO3 (Cpu.new smallO3
    -- lui x5,0x6; csrrc x0,mstatus,x5; div x6,x5,x5; w; jal x0,0
    (memOfWords 0x80000000 [0x000062b7, 0x3002b073, 0x0252c333, w, 0x0000006f])
    (({ btb := [(0x80000010, 0x80000010)] } : Bench) : NullBench))

/-- `fadd.s f1,f1,f1` only completes, and keeps its trap. -/
theorem firstFault_fsOffAdd : (fsOffBehindDiv 0x0010f0d3).marksTicks [] 16 = [(7, .illegalInstruction 0x0010f0d3)] ∧
    FirstFault ((fsOffBehindDiv 0x0010f0d3).ticks 16) ((fsOffBehindDiv 0x0010f0d3).marksTicks [] 16) :=
  ⟨by decide +kernel,
    MarkedRun.firstFault (MarkedRun.ticks 16 (.init _ (loaded_new smallO3 _ _)) (by decide))⟩

/-- `flw f1,0(x5)` loads from address 0, where there is nothing: the access fault replaces the trap. -/
theorem firstFault_fsOffLoad : ∃ M, MarkedRun smallO3 SpanStep ((fsOffBehindDiv 0x0002a087).ticks 16) M ∧
    (7, .illegalInstruction 0x0002a087) ∈ M ∧
    (∃ e ∈ ((fsOffBehindDiv 0x0002a087).ticks 16).core.eng.rob.entries, e.tag = 7 ∧
      e.trap = some (.loadAccessFault 0)) ∧
    ¬FirstFault ((fsOffBehindDiv 0x0002a087).ticks 16) M := by
  have hmark : (7, .illegalInstruction 0x0002a087) ∈ (fsOffBehindDiv 0x0002a087).marksTicks [] 16 := by
    decide +kernel
  have hentry : ∃ e ∈ ((fsOffBehindDiv 0x0002a087).ticks 16).core.eng.rob.entries, e.tag = 7 ∧
      e.trap = some (.loadAccessFault 0) := by decide +kernel
  refine ⟨_, MarkedRun.ticks 16 (.init _ (loaded_new smallO3 _ _)) (by decide), hmark, hentry, fun h => ?_⟩
  obtain ⟨e, he, htag, htrap⟩ := hentry
  have hkept := (h.kept _ hmark e he htag).2
  rw [htrap] at hkept
  exact absurd hkept (by decide)

end O3Pipeline

end Rvsim
