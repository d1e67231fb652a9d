/-
# Results on their way to the reorder buffer

Execution hands an instruction's result to the memory stages or to the latches
of its unit, and they hand it on until writeback completes the entry. The
memory stages bring the value of a load; every other value they pass through,
that of a counter read too. Decode makes counter reads of CSR words only, and
lets no word commit does not count pass without a trap.

Key definitions:
  - `ExMem1Entry.coming`, `Mem1Mem2Entry.coming`, `Mem2WbEntry.coming`
  - `Carried`
  - `Executed`, `IdExEntry.Sound`
Key theorems:
  - `memory1Stage_carried`, `memory2Stage_carried`, `writebackOne_settles`
  - `Counting.execute`
  - `decodeStage_sound`, `Frontend.tickBehind_sound`
-/
import Rvsim.FirstFault
import Rvsim.Instret

namespace Rvsim

variable {U : Type}

/-! ### Results in the latches -/

/-- The register result, unless memory brings it. -/
def resultOf (c : ControlSignals) (pc : U64) (size : InstSize) (alu : U64) : Option U64 :=
  if c.memRead then none else some (if c.controlFlow = .jump then pc + size.asU64 else alu)

def ExMem1Entry.coming (e : ExMem1Entry) : RobTag × Option U64 :=
  (e.robTag, resultOf e.ctrl e.pc e.instSize e.alu)

def Mem1Mem2Entry.coming (m : Mem1Mem2Entry) : RobTag × Option U64 :=
  (m.robTag, resultOf m.ctrl m.pc m.instSize m.alu)

def Mem2WbEntry.coming (wb : Mem2WbEntry) : RobTag × Option U64 :=
  (wb.robTag, resultOf wb.ctrl wb.pc wb.instSize wb.alu)

/-- A part of what the latches hold of an instruction that no memory stage changes. -/
structure Carried (β : Type) where
  ex : ExMem1Entry → β
  mem : Mem1Mem2Entry → β
  wb : Mem2WbEntry → β
  toMem2 : ∀ (e : ExMem1Entry) now va pa t pte, mem (e.toMem2 now va pa t pte) = ex e
  ready : ∀ (m : Mem1Mem2Entry) now, mem { m with completeCycle := now } = mem m
  toWb : ∀ (m : Mem1Mem2Entry) v t r, wb (m.toWb v t r) = mem m

namespace Carried

/-- Of each entry in the latches and the miss registers. -/
def latched {β : Type} (k : Carried β) (m1 : List ExMem1Entry) (m12 : List Mem1Mem2Entry) (m2 : List Mem2WbEntry)
    (parked : List Mem1Mem2Entry) : List β :=
  m1.map k.ex ++ (m12.map k.mem ++ (m2.map k.wb ++ parked.map k.mem))

/-- The result, or that memory brings it. -/
def result : Carried (RobTag × Option U64) where
  ex := ExMem1Entry.coming
  mem := Mem1Mem2Entry.coming
  wb := Mem2WbEntry.coming
  toMem2 _ _ _ _ _ _ := rfl
  ready _ _ := rfl
  toWb _ _ _ _ := rfl

end Carried

/-- What the latches and the miss registers hold. -/
def comings (m1 : List ExMem1Entry) (m12 : List Mem1Mem2Entry) (m2 : List Mem2WbEntry)
    (parked : List Mem1Mem2Entry) : Coming :=
  m1.map ExMem1Entry.coming ++ (m12.map Mem1Mem2Entry.coming ++ (m2.map Mem2WbEntry.coming ++
    parked.map Mem1Mem2Entry.coming))

/-- A pending result completes with the value it carries. -/
theorem ExMem1Entry.coming_alu (e : ExMem1Entry) : ∀ x ∈ e.coming.2, x = O3.aluResult e := by
  intro x hx
  unfold ExMem1Entry.coming resultOf at hx
  dsimp only at hx
  split at hx
  · exact absurd hx (by simp)
  · exact (Option.some.inj hx).symm

/-- Writeback completes with the value the latch carries. -/
theorem Mem2WbEntry.coming_result (wb : Mem2WbEntry) : ∀ x ∈ wb.coming.2, x = wb.result := by
  intro x hx
  unfold Mem2WbEntry.coming resultOf at hx
  unfold Mem2WbEntry.result
  dsimp only at hx
  split at hx
  · exact absurd hx (by simp)
  · rename_i hm
    rw [if_neg hm]
    exact (Option.some.inj hx).symm

theorem writebackOne_settles {cs : Coming} (rob : Rob) {wb : Mem2WbEntry} (h : wb.coming ∈ cs) :
    rob.Settles cs (writebackOne rob wb) := by
  unfold writebackOne
  cases wb.trap with
  | some t => exact Rob.Settles.fault _ _
  | none =>
    have hrecord : rob.Settles cs (rob.modify wb.robTag wb.record) :=
      Rob.Settles.modify wb.robTag (fun _ => rfl) (fun _ => rfl) fun _ => rfl
    exact hrecord.trans (Rob.Settles.complete h wb.coming_result)

/-! ### The memory stages -/

section

variable [Units U]

variable {β : Type} (k : Carried β)

/-- Where memory1 leaves an entry. -/
def Carried.outcome (ex : ExMem1Entry) : Mem1Outcome → List β
  | .pass m => [k.mem m]
  | .trapped m => [k.mem m]
  | .parked _ => []
  | .full => [k.ex ex]

theorem Carried.outcome_pass (ex : ExMem1Entry) (now : Nat) (va : VirtAddr) (pa : PhysAddr) (pte : Option PteUpdate) :
    k.outcome ex (.pass (ex.toMem2 now va pa none pte)) = [k.ex ex] :=
  congrArg (fun b => [b]) (k.toMem2 ex now va pa none pte)

theorem Carried.outcome_trapped (ex : ExMem1Entry) (now : Nat) (va : VirtAddr) (t : Option Trap) :
    k.outcome ex (.trapped (ex.toMem2 now va 0 t)) = [k.ex ex] :=
  congrArg (fun b => [b]) (k.toMem2 ex now va 0 t none)

/-- What is there afterwards is the entry's, or was behind a miss before. -/
def Mem1Passes (cpu : Cpu U) (ex : ExMem1Entry) (o : Mem1Outcome) (cpu' : Cpu U) : Prop :=
  ∀ x ∈ k.outcome ex o ++ cpu'.l1dMshrs.parked.map k.mem, x = k.ex ex ∨ x ∈ cpu.l1dMshrs.parked.map k.mem

variable {k}

omit [Units U] in
theorem Mem1Passes.of_mshrs {cpu cpu' : Cpu U} {ex : ExMem1Entry} {o : Mem1Outcome}
    (hm : cpu'.l1dMshrs = cpu.l1dMshrs) (ho : k.outcome ex o = [k.ex ex]) : Mem1Passes k cpu ex o cpu' := by
  intro x hx
  rw [ho, hm] at hx
  rcases List.mem_append.mp hx with hx | hx
  · exact Or.inl (List.mem_singleton.mp hx)
  · exact Or.inr hx

variable (k)

theorem mem1Mshr_passes (cpu : Cpu U) (hok : cpu.l1dMshrs.Ok) (ex : ExMem1Entry) (paddr : PhysAddr)
    (pte : Option PteUpdate) (lat now : Nat) :
    Mem1Passes k cpu ex (mem1Mshr cpu ex paddr pte lat now).1 (mem1Mshr cpu ex paddr pte lat now).2 := by
  -- a request that is accepted parks its access, if it has one
  have hreq : ∀ (w : MshrWaiter) (isWrite : Bool) (l : Nat), w.Ok →
      (∀ p, w.parkedEntry = some p → k.mem p = k.ex ex) →
      ∀ x ∈ (cpu.l1dMshrs.request paddr isWrite l now w).2.parked.map k.mem,
        x = k.ex ex ∨ x ∈ cpu.l1dMshrs.parked.map k.mem := by
    intro w isWrite l hw hp x hx
    rcases (MshrFile.request_parked hok paddr isWrite l now hw).2 with ⟨-, heq⟩ | ⟨-, hperm⟩
    · rw [heq] at hx
      exact Or.inr hx
    · rw [(hperm.map k.mem).mem_iff, List.map_append, List.mem_append] at hx
      rcases hx with hx | hx
      · exact Or.inr hx
      · obtain ⟨p, hpm, rfl⟩ := List.mem_map.mp hx
        exact Or.inl (hp p (by simpa using hpm))
  have hparked : ∀ m : Mem1Mem2Entry, m.robTag = ex.robTag → k.mem m = k.ex ex →
      MshrWaiter.Ok ⟨ex.robTag, some m⟩ ∧ ∀ p, (⟨ex.robTag, some m⟩ : MshrWaiter).parkedEntry = some p →
        k.mem p = k.ex ex := fun m ht hm =>
    ⟨fun p hp => (Option.some.inj hp) ▸ ht, fun p hp => (Option.some.inj hp) ▸ hm⟩
  unfold mem1Mshr
  simp only
  split
  · exact Mem1Passes.of_mshrs rfl (k.outcome_pass ex _ _ _ _)
  · split
    · intro x hx
      rw [k.outcome_pass] at hx
      rcases List.mem_append.mp hx with hx | hx
      · exact Or.inl (List.mem_singleton.mp hx)
      · exact hreq ⟨ex.robTag, none⟩ true _ (fun p hp => by simp at hp) (fun p hp => by simp at hp) x hx
    · obtain ⟨hw, hp⟩ := hparked (ex.toMem2 0 ex.alu paddr none pte) rfl (k.toMem2 ex _ _ _ _ _)
      split
      · exact Mem1Passes.of_mshrs rfl rfl
      · exact fun x hx => hreq _ ex.ctrl.memWrite _ hw hp x hx

theorem mem1Access_passes (cpu : Cpu U) (hok : cpu.l1dMshrs.Ok) (ex : ExMem1Entry) (paddr : PhysAddr)
    (pte : Option PteUpdate) (lat now : Nat) :
    Mem1Passes k cpu ex (mem1Access cpu ex paddr pte lat now).1 (mem1Access cpu ex paddr pte lat now).2 := by
  unfold mem1Access
  split
  · exact mem1Mshr_passes k cpu hok ex paddr pte lat now
  · split
    · exact Mem1Passes.of_mshrs rfl (k.outcome_pass ex _ _ _ _)
    · exact Mem1Passes.of_mshrs rfl (k.outcome_pass ex _ _ _ _)

theorem memory1One_passes (cpu : Cpu U) (hok : cpu.l1dMshrs.Ok) (ex : ExMem1Entry) (now : Nat)
    (lq : Option LoadQueue) :
    Mem1Passes k cpu ex (memory1One cpu ex now lq).1 (memory1One cpu ex now lq).2.1 := by
  unfold memory1One
  cases ex.trap with
  | some t => exact Mem1Passes.of_mshrs rfl (k.outcome_trapped ex _ _ _)
  | none =>
    by_cases hm : (ex.ctrl.memRead || ex.ctrl.memWrite) = true
    · simp only [if_pos hm]
      unfold mem1Translate
      simp only
      split
      · exact Mem1Passes.of_mshrs rfl (k.outcome_trapped ex _ _ _)
      · obtain ⟨u, hu⟩ := cpu.translate_eq ex.alu ex.ctrl.accessType ex.ctrl.width.bytes
        have hms : (cpu.translate ex.alu ex.ctrl.accessType ex.ctrl.width.bytes).2.l1dMshrs = cpu.l1dMshrs := by
          rw [hu]
        split
        · exact Mem1Passes.of_mshrs hms (k.outcome_trapped ex _ _ _)
        · split
          · exact Mem1Passes.of_mshrs hms (k.outcome_trapped ex _ _ _)
          · intro x hx
            have := mem1Access_passes k _ (hms ▸ hok) ex _ _ _ now x hx
            rwa [hms] at this
    · simp only [if_neg hm]
      exact Mem1Passes.of_mshrs rfl (k.outcome_pass ex _ _ _ _)

/-- **Memory1** changes nothing that is carried. -/
theorem memory1Stage_carried (input : List ExMem1Entry) (cpu : Cpu U) (hok : cpu.l1dMshrs.Ok)
    (output : List Mem1Mem2Entry) (wbs : List Mem2WbEntry) (now : Nat) (lq : Option LoadQueue)
    (cancelled : List PhysReg) :
    let m := memory1Stage cpu input output now lq cancelled
    ∀ x ∈ k.latched m.input m.output wbs m.cpu.l1dMshrs.parked,
      x ∈ k.latched input output wbs cpu.l1dMshrs.parked := by
  induction input generalizing cpu output lq cancelled with
  | nil => exact fun x hx => hx
  | cons ex rest ih =>
    intro m
    have hpass := memory1One_passes k cpu hok ex now lq
    have hok' := (memory1One_spec cpu hok ex now lq).ok
    simp only [m, memory1Stage]
    clear m
    generalize memory1One cpu ex now lq = r at hpass hok'
    obtain ⟨o, cpu', lq'⟩ := r
    dsimp only at hpass hok'
    -- what is in front of `rest` was there, or is this entry's
    have hback : ∀ (left : List ExMem1Entry) (out : List Mem1Mem2Entry) (p : List Mem1Mem2Entry),
        (∀ x ∈ left.map k.ex ++ (out.map k.mem ++ p.map k.mem),
          x ∈ rest.map k.ex ∨ x ∈ output.map k.mem ∨ x ∈ k.outcome ex o ++ cpu'.l1dMshrs.parked.map k.mem) →
        ∀ x ∈ k.latched left out wbs p, x ∈ k.latched (ex :: rest) output wbs cpu.l1dMshrs.parked := by
      intro left out p hin x hx
      have hx' : x ∈ left.map k.ex ++ (out.map k.mem ++ p.map k.mem) ∨
          x ∈ wbs.map k.wb := by
        simp only [Carried.latched, List.mem_append] at hx ⊢
        tauto
      simp only [Carried.latched, List.map_cons, List.mem_append, List.mem_cons]
      rcases hx' with hx' | hx'
      · rcases hin x hx' with h | h | h
        · exact Or.inl (Or.inr h)
        · exact Or.inr (Or.inl h)
        · rcases hpass x h with rfl | h'
          · exact Or.inl (Or.inl rfl)
          · exact Or.inr (Or.inr (Or.inr h'))
      · exact Or.inr (Or.inr (Or.inl hx'))
    cases o with
    | pass m =>
      intro x hx
      refine hback rest (output ++ [m]) cpu'.l1dMshrs.parked (fun y hy => ?_) x (ih cpu' hok' _ lq' cancelled x hx)
      simp only [Carried.outcome, List.map_append, List.map_cons, List.map_nil, List.mem_append] at hy ⊢
      tauto
    | trapped m =>
      refine hback rest (output ++ [m]) cpu'.l1dMshrs.parked fun y hy => ?_
      simp only [Carried.outcome, List.map_append, List.map_cons, List.map_nil, List.mem_append] at hy ⊢
      tauto
    | parked p =>
      intro x hx
      refine hback rest output cpu'.l1dMshrs.parked (fun y hy => ?_) x (ih cpu' hok' _ lq' _ x hx)
      simp only [Carried.outcome, List.mem_append] at hy ⊢
      tauto
    | full =>
      refine hback (ex :: rest) output cpu'.l1dMshrs.parked fun y hy => ?_
      simp only [Carried.outcome, List.map_cons, List.mem_append, List.mem_cons, List.not_mem_nil,
        or_false] at hy ⊢
      tauto

/-- An entry that leaves memory2 takes what it carries along. -/
theorem memory2One_carried {s s' : Mem2State U} {m : Mem1Mem2Entry} {wb : Mem2WbEntry}
    (h : memory2One s m = some (wb, s')) : k.wb wb = k.mem m := by
  unfold memory2One at h
  split at h
  · unfold mem2Atomic at h
    split at h
    · split at h
      · cases h
      · rw [← (Prod.mk.inj (Option.some.inj h)).1]
        exact k.toWb m _ _ _
    · rw [← (Prod.mk.inj (Option.some.inj h)).1]
      exact k.toWb m _ _ _
    · split at h
      · cases h
      · rw [← (Prod.mk.inj (Option.some.inj h)).1]
        exact k.toWb m _ _ _
  · split at h
    · unfold mem2Load at h
      split at h
      · rw [← (Prod.mk.inj (Option.some.inj h)).1]
        exact k.toWb m _ _ _
      · cases h
      · rw [← (Prod.mk.inj (Option.some.inj h)).1]
        exact k.toWb m _ _ _
    · split at h
      · rw [← (Prod.mk.inj (Option.some.inj h)).1]
        exact k.toWb m _ _ _
      · rw [← (Prod.mk.inj (Option.some.inj h)).1]
        exact k.toWb m _ _ _

theorem memory2Loop_carried (input : List Mem1Mem2Entry) (s : Mem2State U) :
    ∀ x ∈ (memory2Loop s input).1.map k.mem ++ (memory2Loop s input).2.1.map k.wb, x ∈ input.map k.mem := by
  induction input generalizing s with
  | nil => exact fun x hx => hx
  | cons m rest ih =>
    rw [memory2Loop]
    cases m.trap with
    | some t =>
      intro x hx
      rcases List.mem_append.mp hx with hx | hx
      · exact List.mem_cons_of_mem _ hx
      · rw [List.mem_singleton.mp hx, k.toWb]
        exact List.mem_cons_self
    | none =>
      dsimp only
      rcases hone : memory2One s m with _ | ⟨wb, s'⟩
      · simp
      · dsimp only
        intro x hx
        have hx' := ih s' x
        rw [List.map_cons, memory2One_carried k hone, List.mem_append, List.mem_cons] at hx
        rw [List.mem_append] at hx'
        rw [List.map_cons, List.mem_cons]
        tauto

/-- **Memory2** changes nothing that is carried. -/
theorem memory2Stage_carried (input : List Mem1Mem2Entry) (s : Mem2State U) :
    ∀ x ∈ (memory2Stage s input).1.map k.mem ++ (memory2Stage s input).2.1.map k.wb, x ∈ input.map k.mem := by
  have hsort := List.perm_insertionSort (fun a b : Mem1Mem2Entry => a.robTag.toNat ≤ b.robTag.toNat) input
  exact fun x hx => (hsort.map _).mem_iff.mp (memory2Loop_carried k (sortByRawTag input) s x hx)

omit [Units U] in
theorem unpark_carried (now : Nat) (done : List MshrEntry) :
    (O3.unpark now done).map k.mem = (done.flatMap MshrEntry.parked).map k.mem := by
  simp only [O3.unpark, MshrEntry.parked, List.map_flatMap]
  congr 1
  funext e
  induction e.waiters with
  | nil => rfl
  | cons w ws ih =>
    cases hp : w.parkedEntry with
    | none => simpa [hp] using ih
    | some p => simpa [hp, k.ready] using ih

/-! ### Execution -/

theorem Rob.state_fault {r : Rob} {tag : RobTag} {t : Trap} :
    ∀ e ∈ (r.fault tag t).entries, e.tag = tag → e.state = .faulted := by
  intro e he ht
  obtain ⟨e₀, -, rfl⟩ := List.mem_map.mp he
  dsimp only at ht ⊢
  split
  · rfl
  · rename_i hne
    rw [if_neg hne] at ht
    exact absurd ht hne

/-- What the counter needs of the execution of one instruction. -/
structure Executed (cpu : Cpu U) (id : RenameIssueEntry) (rob : Rob) (out : ExecOut U) : Prop where
  tag : out.result.robTag = id.robTag
  ctrl : out.result.ctrl = id.ctrl
  instret : out.cpu.instructionsRetired = cpu.instructionsRetired
  settles : rob.Settles [] out.rob
  /-- A trap of the front end is in the entry; a read without one has the counter, or faults. -/
  fault : id.trap.isSome = true → ∀ e ∈ out.rob.entries, e.tag = id.robTag → e.state = .faulted
  read : id.trap = none → id.ctrl.readsInstret = true →
    (∀ e ∈ out.rob.entries, e.tag = id.robTag → e.state = .faulted) ∨ out.result.alu = cpu.instructionsRetired

omit [Units U] in
/-- **An instruction executes**, a read only at the head of the buffer. -/
theorem Counting.execute {r : Rob} {cs : Coming} {id : RenameIssueEntry} {ws : List RenameIssueEntry} {cpu : Cpu U}
    {out : ExecOut U} (h : Counting r cs (id :: ws) cpu.instructionsRetired) (hx : Executed cpu id r out)
    (hhead : id.readsInstret = true → r.entries.head?.map (·.tag) = some id.robTag) :
    Counting out.rob (out.result.coming :: cs) ws cpu.instructionsRetired := by
  have hset : r.Settles cs out.rob := hx.settles.mono fun x hx => absurd hx List.not_mem_nil
  have hbase := h.settles hset (fun _ hx => hx) fun w hw => ⟨w, hw, rfl⟩
  refine ⟨hbase.done, fun x hmem e he ht hf => ?_, fun w hw => hbase.sound w (List.mem_cons_of_mem _ hw),
    fun w hw => hbase.describes w (List.mem_cons_of_mem _ hw)⟩
  rcases List.mem_cons.mp hmem with rfl | hold
  · have htag : e.tag = id.robTag := ht.trans hx.tag
    obtain ⟨hinst, hrd, hctrl⟩ := hbase.describes id List.mem_cons_self e he htag
    have hsound := h.sound id List.mem_cons_self
    have htrap : id.trap = none := by
      by_contra hne
      exact hf (hx.fault (by simpa using Option.isSome_iff_ne_none.mpr hne) e he htag)
    refine ⟨hinst ▸ hsound.counted htrap, fun hread => ?_⟩
    have hreads : id.readsInstret = true := by
      unfold RobEntry.readsInstret RobEntry.writesGpr at hread
      unfold RenameIssueEntry.readsInstret
      rw [hctrl, hrd]
      exact hread
    have hc : id.ctrl.readsInstret = true := (Bool.and_eq_true _ _ ▸ hreads).1
    obtain ⟨hmemRead, hseq⟩ := hsound.read hc
    refine ⟨by rw [hset.head (List.ne_nil_of_mem he), hhead hreads, htag], ?_⟩
    have halu : out.result.alu = cpu.instructionsRetired := by
      rcases hx.read htrap hc with hfault | halu
      · exact absurd (hfault e he htag) hf
      · exact halu
    unfold ExMem1Entry.coming resultOf
    rw [hx.ctrl, hmemRead, hseq, halu]
    rfl
  · exact hbase.coming x hold e he ht hf

end

/-! ### Decode -/

/-- A decoded word commit does not count has a trap; a counter read is a CSR word. -/
structure IdExEntry.Sound (id : IdExEntry) : Prop where
  counted : id.trap = none → counted id.inst = true
  read : id.ctrl.readsInstret = true → id.ctrl.memRead = false ∧ id.ctrl.controlFlow = .sequential

theorem decodeInstruction_readsInstret {w : U32} {pc : U64} {c : ControlSignals}
    (h : decodeInstruction w pc (decode w) = .ok c) (hr : c.readsInstret = true) :
    c.memRead = false ∧ c.controlFlow = .sequential := by
  have hsys : c.systemOp = .system ∧ c.csrOp ≠ .none := by
    unfold ControlSignals.readsInstret at hr
    simp only [Bool.and_eq_true, beq_iff_eq, bne_iff_ne] at hr
    exact hr.1
  rcases decodeInstruction_cases w pc c h with ⟨-, hn⟩ | ⟨-, -, -, rfl⟩
  · rcases hn with hn | rfl | rfl | rfl | rfl | ⟨-, rfl⟩
    · rw [hsys.1] at hn
      exact absurd hn (by decide)
    · exact absurd hsys.1 (by decide)
    · exact absurd hsys.1 (by decide)
    · exact absurd hsys.1 (by decide)
    · exact absurd hsys.1 (by decide)
    · exact absurd rfl hsys.2
  · exact ⟨rfl, rfl⟩

theorem decodeEntry_sound (e : IfIdEntry) (hnop : e.inst ≠ Inst.nop) : (decodeEntry e).Sound := by
  unfold decodeEntry
  dsimp only
  split
  · rename_i c hc
    refine ⟨fun _ => ?_, fun hr => decodeInstruction_readsInstret hc hr⟩
    have hzero : e.inst ≠ 0 := fun h0 => by
      rw [h0] at hc
      have herr : decodeInstruction 0 e.pc (decode 0) = .error (.illegalInstruction 0) := rfl
      rw [herr] at hc
      cases hc
    simp only [counted, Bool.and_eq_true, bne_iff_ne]
    exact ⟨hzero, hnop⟩
  · exact ⟨fun h => absurd h (by simp), fun hr => absurd hr (by simp [ControlSignals.readsInstret])⟩

theorem decodeStage_sound (renames : Bool) (es : List IfIdEntry) (writes : List (RegIdx × Bool)) :
    ∀ id ∈ (decodeStage renames writes es).2, id.Sound := by
  induction es generalizing writes with
  | nil => simp [decodeStage]
  | cons e es ih =>
    rw [decodeStage]
    cases ht : e.trap with
    | some t =>
      intro id hid
      rw [List.mem_singleton.mp hid]
      exact ⟨fun h => absurd h (by simp), fun hr => absurd hr (by simp [ControlSignals.readsInstret])⟩
    | none =>
      dsimp only
      by_cases hnop : e.inst = Inst.nop
      · rw [if_pos hnop]
        exact ih writes
      · rw [if_neg hnop]
        split
        · simp
        · split
          · intro id hid
            rw [List.mem_singleton.mp hid]
            exact decodeEntry_sound e hnop
          · intro id hid
            rcases List.mem_cons.mp hid with rfl | hid'
            · exact decodeEntry_sound e hnop
            · exact ih _ id hid'

/-- What the front end leaves for rename is sound. -/
theorem Frontend.tickBehind_sound [Units U] {f : Frontend} (h : ∀ id ∈ f.decodeRename, id.Sound) (c : Cpu U)
    (renames : Bool) : ∀ id ∈ (f.tickBehind c renames).1.decodeRename, id.Sound := by
  have hdec : ∀ id ∈ (f.tickDecode renames).decodeRename, id.Sound := by
    unfold tickDecode
    split
    · exact decodeStage_sound renames f.fetch2Decode []
    · exact h
  unfold Frontend.tickBehind
  dsimp only
  rw [(((f.tickDecode renames).tickFetch2 c).1.tickFetch1_units ((f.tickDecode renames).tickFetch2 c).2).2,
    ((f.tickDecode renames).tickFetch2_units c).2]
  exact hdec

end Rvsim
