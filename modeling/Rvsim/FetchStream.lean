/-
# The fetch stream

What fetch1, fetch2 and decode hand on, as one path of program counters. Fetch1
moves on by the size it reads or to a predicted target; fetch2 reads the word
again. Fetch1 stays where it is when a translation fails, and also when that of
the upper half fails, which is left for fetch2 to report: there the move it
makes is overwritten at the end of the stage. And it delivers nothing where no
parcel fits in front of the end of the line, as in the last line of the address
space, whose end wraps to zero.

Key definitions:
  - `runsTo`: the entries of fetch1
  - `FetchRun`: the front end with what decode has taken
  - `FetchRun.Guarded`, `FetchRun.Right`
Key theorems:
  - `fetch1Loop_runs`, `fetch2Loop_follows`
  - `FetchRun.step_inv`, `FetchRun.runs_right`
-/
import Rvsim.O3Run
import Rvsim.Lib.Hops

namespace Rvsim

variable {U : Type}

/-! ### Fetch1 -/

/-- The entries lead from `pc` to `next`: by predicted targets, else by the size of a parcel or two. A last
entry that is not predicted taken may hold the pc; one that trapped does. -/
def runsTo (pc : U64) : List Fetch1Fetch2Entry → U64 → Prop
  | [], next => next = pc
  | f :: rest, next => f.pc = pc ∧
    ((f.predTaken = true ∧ f.trap = none ∧ runsTo f.predTarget rest next) ∨
      (f.predTaken = false ∧ ((f.trap = none ∧ ∃ k : U64, (k = 2 ∨ k = 4) ∧ runsTo (pc + k) rest next) ∨
        (rest = [] ∧ next = pc))))

/-- What an entry that does not end the group says about where fetch goes on. -/
theorem fetch1Word_next [Units U] {cpu cpu' : Cpu U} {pc next : U64} {paddr : PhysAddr} {stall stall' : Nat}
    {e : Fetch1Fetch2Entry} {stop : Bool} (h : fetch1Word cpu pc paddr stall = (.next e next stop, stall', cpu')) :
    e.pc = pc ∧ e.paddr = paddr ∧ e.trap = none ∧
      ((e.predTaken = true ∧ e.predTarget = next) ∨ (e.predTaken = false ∧ (next = pc + 2 ∨ next = pc + 4))) := by
  have hpred : ∀ (p : Prediction) (fall : U64),
      (p.target.isSome = true ∧ p.target.getD 0 = p.target.getD fall) ∨
          (p.target.isSome = false ∧ p.target.getD fall = fall) := by
    intro p fall
    cases p.target with
    | none => exact Or.inr ⟨rfl, rfl⟩
    | some t => exact Or.inl ⟨rfl, rfl⟩
  unfold fetch1Word at h
  dsimp only at h
  split at h
  · cases h
    exact ⟨rfl, rfl, rfl, (hpred _ _).imp_right fun hp => ⟨hp.1, Or.inl hp.2⟩⟩
  · generalize (if crossesPage pc then _ else _ : TranslationResult × Cpu U) = r at h
    split at h
    · cases h
    · cases h
      exact ⟨rfl, rfl, rfl, (hpred _ _).imp_right fun hp => ⟨hp.1, Or.inr hp.2⟩⟩

theorem fetch1Word_last [Units U] {cpu cpu' : Cpu U} {pc : U64} {paddr : PhysAddr} {stall stall' : Nat}
    {e : Fetch1Fetch2Entry} (h : fetch1Word cpu pc paddr stall = (.last e, stall', cpu')) :
    e.pc = pc ∧ e.paddr = paddr ∧ e.trap = none ∧ e.predTaken = false := by
  unfold fetch1Word at h
  dsimp only at h
  split at h
  · cases h
  · generalize (if crossesPage pc then _ else _ : TranslationResult × Cpu U) = r at h
    split at h
    · cases h
      exact ⟨rfl, rfl, rfl, rfl⟩
    · cases h

/-- What the loop makes of the core does not depend on the stall cycles it counts. -/
theorem fetch1Word_cpu [Units U] (cpu : Cpu U) (pc : U64) (paddr : PhysAddr) (stall : Nat) :
    (fetch1Word cpu pc paddr stall).2.2 = (fetch1Word cpu pc paddr 0).2.2 := by
  unfold fetch1Word
  dsimp only
  split
  · rfl
  · generalize (if crossesPage pc then _ else _ : TranslationResult × Cpu U) = r
    split
    · rfl
    · rfl

/-- The address of each entry is the translation of its pc by the core as the loop has it there: translating an
entry's pc and reading its parcels changes the core for the next. -/
def LocatedFrom [Units U] : Cpu U → List Fetch1Fetch2Entry → Prop
  | _, [] => True
  | c, f :: rest =>
    (f.trap = none → (c.translate f.pc .fetch 4).1.trap = none ∧ (c.translate f.pc .fetch 4).1.paddr = f.paddr) ∧
      LocatedFrom (fetch1Word (c.translate f.pc .fetch 4).2 f.pc f.paddr 0).2.2 rest

/-- **The loop of fetch1** leads from `pc` to where it ends, and adds an entry if there is room for one. -/
theorem fetch1Loop_runs [Units U] (lineEnd mask : U64) (n : Nat) (cpu : Cpu U) (pc : U64) (out : List Fetch1Fetch2Entry)
    (stall : Nat) : ∃ new, (fetch1Loop lineEnd mask n cpu pc out stall).1 = out ++ new ∧
      runsTo pc new (fetch1Loop lineEnd mask n cpu pc out stall).2.1 ∧ LocatedFrom cpu new ∧
      (out = [] → n ≠ 0 → ¬pc + 2 > lineEnd → new ≠ []) := by
  induction n generalizing cpu pc out stall with
  | zero => exact ⟨[], (List.append_nil _).symm, rfl, trivial, fun _ h => absurd rfl h⟩
  | succ n ih =>
    have htrapped : ∀ t, runsTo pc [⟨pc, 0, false, 0, some t⟩] pc := fun t => ⟨rfl, Or.inr ⟨rfl, Or.inr ⟨rfl, rfl⟩⟩⟩
    have hnowhere : ∀ t, LocatedFrom cpu [⟨pc, 0, false, 0, some t⟩] := fun t => ⟨fun h => absurd h (by simp), trivial⟩
    unfold fetch1Loop
    split
    · rename_i hfull
      exact ⟨[], (List.append_nil _).symm, rfl, trivial, fun _ _ h => absurd hfull h⟩
    · split
      · split
        · exact ⟨_, rfl, htrapped _, hnowhere _, fun _ _ _ => by simp⟩
        · rename_i hout
          exact ⟨[], (List.append_nil _).symm, rfl, trivial, fun h => absurd (List.isEmpty_iff.mpr h) hout⟩
      · dsimp only
        split
        · exact ⟨_, rfl, htrapped _, hnowhere _, fun _ _ _ => by simp⟩
        · rename_i hnone
          split
          · rename_i e _ _ heq
            obtain ⟨hpc, hpaddr, htrap, hpred⟩ := fetch1Word_last heq
            refine ⟨[e], rfl, ⟨hpc, Or.inr ⟨hpred, Or.inr ⟨rfl, rfl⟩⟩⟩, ⟨fun _ => ?_, trivial⟩, fun _ _ _ => by simp⟩
            rw [hpc, hpaddr]
            exact ⟨hnone, rfl⟩
          · rename_i e next stop _ cpu' heq
            obtain ⟨hpc, hpaddr, htrap, hnext⟩ := fetch1Word_next heq
            -- the core behind the entry is the one the loop goes on with
            have hcore := fetch1Word_cpu (cpu.translate pc .fetch 4).2 pc (cpu.translate pc .fetch 4).1.paddr
              (stall + (cpu.translate pc .fetch 4).1.cycles)
            rw [heq] at hcore
            have hloc : ∀ new, LocatedFrom cpu' new → LocatedFrom cpu (e :: new) := by
              intro new hnew
              unfold LocatedFrom
              rw [hpc, hpaddr, ← hcore]
              exact ⟨fun _ => ⟨hnone, rfl⟩, hnew⟩
            have hcons : ∀ (new : List Fetch1Fetch2Entry) (fin : U64), runsTo next new fin →
                runsTo pc (e :: new) fin := by
              intro new fin hnew
              refine ⟨hpc, ?_⟩
              rcases hnext with ⟨ht, htgt⟩ | ⟨hf, hsize⟩
              · exact Or.inl ⟨ht, htrap, htgt ▸ hnew⟩
              · refine Or.inr ⟨hf, Or.inl ⟨htrap, ?_⟩⟩
                rcases hsize with rfl | rfl
                · exact ⟨2, Or.inl rfl, hnew⟩
                · exact ⟨4, Or.inr rfl, hnew⟩
            split
            · exact ⟨[e], rfl, hcons [] next rfl, hloc [] trivial, fun _ _ _ => by simp⟩
            · obtain ⟨new, hout, hruns, hall, -⟩ := ih cpu' next (out ++ [e]) _
              refine ⟨e :: new, ?_, hcons new _ hruns, hloc new hall, fun _ _ _ => by simp⟩
              rw [hout, List.append_assoc]
              rfl

/-! ### Fetch2 -/

/-- Where the program goes on after this entry, as predicted. -/
def IfIdEntry.nextPc (e : IfIdEntry) : U64 := if e.predTaken then e.predTarget else e.pc + e.instSize.asU64

/-- The word of `e` is in memory at the address of `f` when the core reads it: a compressed instruction, expanded,
or two parcels, the upper one where its own page is translated to if it lies on another page. -/
def Stored [Units U] (c : Cpu U) (f : Fetch1Fetch2Entry) (e : IfIdEntry) : Prop :=
  let half := (fetchHalf c f.paddr).1
  let behind := (fetchHalf c f.paddr).2
  if isCompressed half then e.instSize = .compressed ∧ e.inst = Units.expand U half
  else if crossesPage f.pc then
    e.instSize = .standard ∧ (behind.translate (f.pc + 2) .fetch 2).1.trap = none ∧
      e.inst = (fetchHalf (behind.translate (f.pc + 2) .fetch 2).2
        (behind.translate (f.pc + 2) .fetch 2).1.paddr).1 ++ half
  else e.instSize = .standard ∧ e.inst = (fetchHalf behind (f.paddr + 2)).1 ++ half

/-- Every entry that did not trap has the word stored at the address of its own entry of fetch1, by the core as
the loop has it there. -/
def StoredFrom [Units U] : Cpu U → List Fetch1Fetch2Entry → List IfIdEntry → Prop
  | _, _, [] => True
  | _, [], _ :: _ => False
  | c, f :: fs, e :: es =>
    f.pc = e.pc ∧ (e.trap = none → f.trap = none ∧ Stored c f e) ∧ StoredFrom (fetch2Word c f).2 fs es

theorem storedFrom_nil [Units U] (c : Cpu U) (fs : List Fetch1Fetch2Entry) : StoredFrom c fs [] := by
  cases fs <;> trivial

theorem fetch2Word_stored [Units U] {cpu cpu' : Cpu U} {f : Fetch1Fetch2Entry} {inst : U32} {size : InstSize} {k : Nat}
    (h : fetch2Word cpu f = ((inst, size, none, k), cpu')) (taken : Bool) (target : U64) :
    Stored cpu f ⟨f.pc, inst, size, taken, target, none⟩ := by
  unfold fetch2Word at h
  unfold Stored
  dsimp only at h ⊢
  split at h
  · rename_i hhalf
    rw [if_pos hhalf]
    split at h
    · cases h
    · cases h
      exact ⟨rfl, rfl⟩
  · rename_i hhalf
    rw [if_neg hhalf]
    by_cases hcross : crossesPage f.pc = true
    · simp only [if_pos hcross] at h ⊢
      split at h
      · cases h
      · rename_i hnone
        cases h
        exact ⟨rfl, hnone, rfl⟩
    · simp only [if_neg hcross] at h ⊢
      cases h
      exact ⟨rfl, rfl⟩

theorem fetch2Loop_stored [Units U] (cpu : Cpu U) (fs : List Fetch1Fetch2Entry) :
    StoredFrom cpu fs (fetch2Loop cpu fs).1 := by
  induction fs generalizing cpu with
  | nil => trivial
  | cons f rest ih =>
    rw [fetch2Loop]
    split
    · exact ⟨rfl, fun h => absurd h (by simp), storedFrom_nil _ _⟩
    · rename_i hnone
      split
      · exact ⟨rfl, fun h => absurd h (by simp), storedFrom_nil _ _⟩
      · rename_i inst size c cpu' heq
        have hrest := ih (fetch2Word cpu f).2
        rw [heq] at hrest
        refine ⟨rfl, fun _ => ⟨hnone, fetch2Word_stored heq _ _⟩, ?_⟩
        rw [heq]
        exact hrest

theorem fetch2Word_size [Units U] {cpu cpu' : Cpu U} {f : Fetch1Fetch2Entry} {inst : U32} {size : InstSize}
    {trap : Option Trap} {k : Nat} (h : fetch2Word cpu f = ((inst, size, trap, k), cpu')) :
    size = if isCompressed (fetchHalf cpu f.paddr).1 then .compressed else .standard := by
  unfold fetch2Word at h
  dsimp only at h
  by_cases hhalf : isCompressed (fetchHalf cpu f.paddr).1 = true
  · rw [if_pos hhalf] at h ⊢
    split at h <;> cases h <;> rfl
  · rw [if_neg hhalf] at h ⊢
    split at h <;> cases h <;> rfl

/-- Where fetch1 went on behind an entry by the size of its first parcel, fetch2 reads a parcel of that size; it
finds a trap in the last entry only. `next` is where fetch1 is. -/
def fetch2Agrees [Units U] (next : U64) : Cpu U → List Fetch1Fetch2Entry → Bool
  | _, [] => true
  | cpu, f :: rest =>
    if f.trap.isSome then true
    else
      let after := (rest.head?.map (·.pc)).getD next
      let held := rest.isEmpty && after == f.pc
      (f.predTaken || held || isCompressed (fetchHalf cpu f.paddr).1 == (after == f.pc + 2)) &&
        ((fetch2Word cpu f).1.2.2.1.isNone || rest.isEmpty) && fetch2Agrees next (fetch2Word cpu f).2 rest

/-- The last entry holds the pc. -/
def holds (last : Option Fetch1Fetch2Entry) (pc : U64) : Bool := last.any fun f => !f.predTaken && f.pc == pc

theorem runsTo_after {pc k next : U64} {rest : List Fetch1Fetch2Entry} (h : runsTo (pc + k) rest next) :
    (rest.head?.map (·.pc)).getD next = pc + k := by
  cases rest with
  | nil => exact h
  | cons f rest => exact h.1

/-- **What fetch2 makes of a group** leads where fetch1 is, unless the last entry holds the pc. -/
theorem fetch2Loop_follows [Units U] {cpu : Cpu U} {pc next : U64} {fs : List Fetch1Fetch2Entry} (h : runsTo pc fs next)
    (ha : fetch2Agrees next cpu fs = true) :
    Hops.Follows IfIdEntry.pc IfIdEntry.nextPc pc (fetch2Loop cpu fs).1 ∧
      (Hops.endFrom IfIdEntry.nextPc pc (fetch2Loop cpu fs).1 = next ∨ holds fs.getLast? next = true) := by
  induction fs generalizing cpu pc with
  | nil => exact ⟨trivial, Or.inl h.symm⟩
  | cons f rest ih =>
    obtain ⟨hpc, h⟩ := h
    have hheld : f.predTaken = false → rest = [] → next = pc → holds (f :: rest).getLast? next = true := by
      rintro hf rfl rfl
      simp [holds, hf, hpc]
    cases ht : f.trap with
    | some t =>
      have hend : f.predTaken = false ∧ rest = [] ∧ next = pc := by
        rcases h with ⟨-, hnone, -⟩ | ⟨hf, ⟨hnone, -⟩ | ⟨hr, hn⟩⟩
        · exact absurd (ht.symm.trans hnone) (by simp)
        · exact absurd (ht.symm.trans hnone) (by simp)
        · exact ⟨hf, hr, hn⟩
      rw [fetch2Loop, ht]
      exact ⟨⟨hpc, trivial⟩, Or.inr (hheld hend.1 hend.2.1 hend.2.2)⟩
    | none =>
      rcases hw : fetch2Word cpu f with ⟨⟨inst, size, trap, k⟩, cpu'⟩
      unfold fetch2Agrees at ha
      rw [ht, hw] at ha
      simp only [Option.isSome_none, Bool.false_eq_true, if_false, Bool.and_eq_true, Bool.or_eq_true,
        List.isEmpty_iff, Option.isNone_iff_eq_none] at ha
      obtain ⟨⟨hsize, hlast⟩, hrec⟩ := ha
      have hword := fetch2Word_size hw
      have hmove : runsTo (if f.predTaken then f.predTarget else f.pc + size.asU64) rest next ∨
          (rest = [] ∧ holds (f :: rest).getLast? next = true) := by
        rcases h with ⟨htaken, -, hruns⟩ | ⟨hf, ⟨-, j, hj, hruns⟩ | ⟨hr, hn⟩⟩
        · rw [if_pos htaken]
          exact Or.inl hruns
        · rw [hf, if_neg Bool.false_ne_true, hpc, hword]
          rw [runsTo_after hruns, hpc] at hsize
          rcases hsize with (htaken | ⟨hr, hs⟩) | hs
          · exact absurd (hf.symm.trans htaken) Bool.false_ne_true
          · -- a held pc is where the group began, and no parcel has size zero
            rw [beq_iff_eq] at hs
            rcases hj with rfl | rfl <;> exact absurd hs (by simp)
          · rcases hj with rfl | rfl
            · rw [beq_self_eq_true, beq_true] at hs
              rw [if_pos hs]
              exact Or.inl hruns
            · rw [show (pc + 4 == pc + 2) = false by simp, beq_false, Bool.not_eq_true'] at hs
              rw [if_neg (by rw [hs]; exact Bool.false_ne_true)]
              exact Or.inl hruns
        · exact Or.inr ⟨hr, hheld hf hr hn⟩
      rw [fetch2Loop, ht]
      dsimp only
      rw [hw]
      cases trap with
      | some t =>
        have hr : rest = [] := hlast.resolve_left (by simp)
        refine ⟨⟨hpc, trivial⟩, ?_⟩
        rcases hmove with hm | ⟨-, hh⟩
        · rw [hr] at hm
          exact Or.inl hm.symm
        · exact Or.inr hh
      | none =>
        rcases hmove with hm | ⟨hr, hh⟩
        · obtain ⟨hfollows, hend⟩ := ih hm hrec
          refine ⟨⟨hpc, hfollows⟩, hend.imp_right fun hh => ?_⟩
          cases rest with
          | nil => exact absurd hh (by simp [holds])
          | cons g rest => exact hh
        · subst hr
          exact ⟨⟨hpc, trivial⟩, Or.inr hh⟩

/-! ### Decode -/

/-- Decode takes a prefix of its latch. -/
theorem decodeStage_split (renames : Bool) (writes : List (RegIdx × Bool)) (es : List IfIdEntry) :
    ∃ taken, es = taken ++ (decodeStage renames writes es).1 := by
  induction es generalizing writes with
  | nil => exact ⟨[], rfl⟩
  | cons e rest ih =>
    unfold decodeStage
    split
    · exact ⟨[e], rfl⟩
    · split
      · obtain ⟨taken, h⟩ := ih writes
        exact ⟨e :: taken, congrArg (e :: ·) h⟩
      · dsimp only
        split
        · exact ⟨[], rfl⟩
        · split
          · exact ⟨[e], rfl⟩
          · obtain ⟨taken, h⟩ := ih (writes ++ bundleWrites (decode e.inst) (decodeEntry e).ctrl)
            exact ⟨e :: taken, congrArg (e :: ·) h⟩

/-! ### Runs of the front end -/

/-- The front end and the core, with the entries that decode has taken and the last one that fetch1 made. -/
structure FetchRun (U : Type) where
  f : Frontend
  cpu : Cpu U
  delivered : List IfIdEntry
  last : Option Fetch1Fetch2Entry

inductive FetchEvent (U : Type) where
  | decode (renames : Bool)
  | fetch2
  | fetch1
  /-- Rename leaves these in its latch. -/
  | rename (left : List IdExEntry)
  /-- Something else happens to the core. -/
  | outside (g : Cpu U → Cpu U)

namespace FetchRun

def init (cpu : Cpu U) : FetchRun U := ⟨{}, cpu, [], none⟩

/-- Fetch1 runs in its tick. -/
def fetches1 (s : FetchRun U) : Bool := s.f.fetch1Stall == 0 && s.f.fetch1Fetch2.isEmpty

/-- Fetch2 runs in its tick, and has a group. -/
def fetches2 (s : FetchRun U) : Bool := s.f.fetch2Stall == 0 && s.f.fetch2Decode.isEmpty && !s.f.fetch1Fetch2.isEmpty

/-- `line_end`, which wraps to zero in the last line. -/
def lineEnd (cpu : Cpu U) : U64 := (cpu.pc ||| (BitVec.ofNat 64 cpu.iCacheLineBytes - 1)) + 1

/-- All that fetch2 has made. -/
def produced (s : FetchRun U) : List IfIdEntry := s.delivered ++ s.f.fetch2Decode ++ s.f.fetch2Pending

/-- No redirect. -/
def Legal (s : FetchRun U) : FetchEvent U → Prop
  | .outside g => (g s.cpu).pc = s.cpu.pc
  | _ => True

section

variable [Units U]

/-- The core when fetch2 reads, after the accesses to the instruction cache. -/
def reading (s : FetchRun U) : Cpu U :=
  (if Units.l1iEnabled s.cpu.units then
    icachePenalty (~~~(BitVec.ofNat 64 s.cpu.iCacheLineBytes - 1)) (BitVec.allOnes 64) s.cpu s.f.fetch1Fetch2
  else (0, s.cpu)).2

def step (s : FetchRun U) : FetchEvent U → FetchRun U
  | .decode renames =>
    let f := s.f.tickDecode renames
    { s with
      f := f
      delivered := s.delivered ++ s.f.fetch2Decode.take (s.f.fetch2Decode.length - f.fetch2Decode.length) }
  | .fetch2 =>
    let (f, cpu) := s.f.tickFetch2 s.cpu
    { s with f := f, cpu := cpu }
  | .fetch1 =>
    let (f, cpu) := s.f.tickFetch1 s.cpu
    { s with f := f, cpu := cpu, last := f.fetch1Fetch2.getLast?.or s.last }
  | .rename left => { s with f := { s.f with decodeRename := left } }
  | .outside g => { s with cpu := g s.cpu }

/-- Where fetch1 runs there is room for a parcel in front of the end of the line, and no entry holds the pc;
where fetch2 runs it finds the words as fetch1 went on from them. -/
def Guarded (s : FetchRun U) : FetchEvent U → Prop
  | .fetch1 => s.fetches1 = true →
      s.cpu.pipelineWidth ≠ 0 ∧ ¬s.cpu.pc + 2 > lineEnd s.cpu ∧ holds s.last s.cpu.pc = false
  | .fetch2 => s.fetches2 = true → fetch2Agrees s.cpu.pc s.reading s.f.fetch1Fetch2 = true
  | _ => True

/-- What decode gets is one path from the start; fetch1 delivers at least one entry, at the translation of its
pc; fetch2 delivers the words that are stored there. -/
def Right (start : U64) (s : FetchRun U) (ev : FetchEvent U) : Prop :=
  Hops.Follows IfIdEntry.pc IfIdEntry.nextPc start ((s.step ev).delivered ++ (s.step ev).f.fetch2Decode) ∧
    match ev with
    | .fetch1 => s.fetches1 = true →
      (s.step ev).f.fetch1Fetch2 ≠ [] ∧ LocatedFrom s.cpu (s.step ev).f.fetch1Fetch2
    | .fetch2 => s.fetches2 = true →
      StoredFrom s.reading s.f.fetch1Fetch2 ((s.step ev).f.fetch2Decode ++ (s.step ev).f.fetch2Pending)
    | _ => True

/-- `P` holds at every event of the run. -/
def Always (P : FetchRun U → FetchEvent U → Prop) (s : FetchRun U) : List (FetchEvent U) → Prop
  | [] => True
  | ev :: evs => P s ev ∧ Always P (s.step ev) evs

end

/-- The path goes on to the group of fetch1 and from there to the pc, unless that is held. -/
structure Inv (start : U64) (s : FetchRun U) : Prop where
  follows : Hops.Follows IfIdEntry.pc IfIdEntry.nextPc start s.produced
  ahead : runsTo (Hops.endFrom IfIdEntry.nextPc start s.produced) s.f.fetch1Fetch2 s.cpu.pc ∨
    (s.f.fetch1Fetch2 = [] ∧ holds s.last s.cpu.pc = true)
  last : ∀ f, s.f.fetch1Fetch2.getLast? = some f → s.last = some f
  pending : s.f.fetch2Pending ≠ [] → s.f.fetch2Stall ≠ 0

variable {start : U64} {s : FetchRun U}

theorem Inv.right_path (hi : s.Inv start) :
    Hops.Follows IfIdEntry.pc IfIdEntry.nextPc start (s.delivered ++ s.f.fetch2Decode) :=
  ((Hops.follows_append _ _ _ _ _).mp hi.follows).1

theorem init_inv (cpu : Cpu U) : (init cpu).Inv cpu.pc where
  follows := trivial
  ahead := Or.inl rfl
  last _ h := absurd h (by simp [init])
  pending h := absurd rfl h

variable [Units U]

theorem step_decode (hi : s.Inv start) (renames : Bool) : (s.step (.decode renames)).Inv start := by
  have hsplit : ∃ taken, s.f.fetch2Decode = taken ++ (s.f.tickDecode renames).fetch2Decode := by
    unfold Frontend.tickDecode
    split
    · exact decodeStage_split renames [] s.f.fetch2Decode
    · exact ⟨[], rfl⟩
  have hrest : (s.f.tickDecode renames).fetch1Fetch2 = s.f.fetch1Fetch2 ∧
      (s.f.tickDecode renames).fetch2Pending = s.f.fetch2Pending ∧
          (s.f.tickDecode renames).fetch2Stall = s.f.fetch2Stall := by
    unfold Frontend.tickDecode
    split <;> exact ⟨rfl, rfl, rfl⟩
  obtain ⟨taken, htaken⟩ := hsplit
  have hprod : (s.step (.decode renames)).produced = s.produced := by
    unfold step produced
    dsimp only
    rw [hrest.2.1]
    congr 1
    rw [List.append_assoc]
    congr 1
    conv_rhs => rw [htaken]
    congr 1
    conv_lhs => rw [htaken]
    rw [List.length_append, Nat.add_sub_cancel, List.take_left]
  refine ⟨hprod ▸ hi.follows, ?_, ?_, ?_⟩
  · rw [hprod]
    show runsTo _ (s.f.tickDecode renames).fetch1Fetch2 s.cpu.pc ∨ ((s.f.tickDecode renames).fetch1Fetch2 = [] ∧ _)
    rw [hrest.1]
    exact hi.ahead
  · show ∀ f, (s.f.tickDecode renames).fetch1Fetch2.getLast? = some f → s.last = some f
    rw [hrest.1]
    exact hi.last
  · show (s.f.tickDecode renames).fetch2Pending ≠ [] → (s.f.tickDecode renames).fetch2Stall ≠ 0
    rw [hrest.2.1, hrest.2.2]
    exact hi.pending

/-- What a tick of fetch2 does when it runs on a group. -/
theorem step_fetches2 (h : s.fetches2 = true) :
    (s.step .fetch2).f.fetch1Fetch2 = [] ∧
      (s.step .fetch2).f.fetch2Decode ++ (s.step .fetch2).f.fetch2Pending = (fetch2Loop s.reading s.f.fetch1Fetch2).1 ∧
      ((s.step .fetch2).f.fetch2Pending ≠ [] → (s.step .fetch2).f.fetch2Stall ≠ 0) ∧
          s.cpu.UnitsOnly (s.step .fetch2).cpu := by
  unfold fetches2 at h
  simp only [Bool.and_eq_true, beq_iff_eq, Bool.not_eq_true'] at h
  obtain ⟨⟨hstall, hdec⟩, hgroup⟩ := h
  have hunits : s.cpu.UnitsOnly (s.step .fetch2).cpu := (s.f.tickFetch2_units s.cpu).1
  have hmade : (s.step .fetch2).f.fetch1Fetch2 = [] ∧
      (s.step .fetch2).f.fetch2Decode ++ (s.step .fetch2).f.fetch2Pending = (fetch2Loop s.reading s.f.fetch1Fetch2).1 ∧
      ((s.step .fetch2).f.fetch2Pending ≠ [] → (s.step .fetch2).f.fetch2Stall ≠ 0) := by
    unfold step Frontend.tickFetch2 Frontend.fetch2Stage reading
    rw [if_neg (by omega), if_pos hdec]
    dsimp only
    rw [if_neg (by rw [hgroup]; exact Bool.false_ne_true)]
    generalize (if Units.l1iEnabled s.cpu.units then _ else _ : Nat × Cpu U) = r
    dsimp only
    split
    · refine ⟨rfl, List.nil_append _, fun _ => ?_⟩
      dsimp only
      omega
    · exact ⟨rfl, List.append_nil _, fun h => absurd rfl h⟩
  exact ⟨hmade.1, hmade.2.1, hmade.2.2, hunits⟩

/-- What it does otherwise: nothing is made. -/
theorem step_idle2 (hi : s.Inv start) (h : s.fetches2 = false) :
    (s.step .fetch2).produced = s.produced ∧ (s.step .fetch2).f.fetch1Fetch2 = s.f.fetch1Fetch2 ∧
      ((s.step .fetch2).f.fetch2Pending ≠ [] → (s.step .fetch2).f.fetch2Stall ≠ 0) ∧ (s.step .fetch2).cpu = s.cpu := by
  unfold step Frontend.tickFetch2 produced
  by_cases hstall : s.f.fetch2Stall > 0
  · rw [if_pos hstall]
    dsimp only
    by_cases hone : s.f.fetch2Stall - 1 = 0
    · rw [if_pos hone]
      dsimp only
      rw [List.append_nil, List.append_assoc]
      exact ⟨rfl, rfl, fun h => absurd rfl h, rfl⟩
    · rw [if_neg hone]
      exact ⟨rfl, rfl, fun _ => hone, rfl⟩
  · rw [if_neg hstall]
    have hpend : s.f.fetch2Pending = [] := by
      by_contra hne
      have := hi.pending hne
      omega
    by_cases hdec : s.f.fetch2Decode.isEmpty = true
    · rw [if_pos hdec]
      unfold fetches2 at h
      have hgroup : s.f.fetch1Fetch2.isEmpty = true := by
        have hz : (s.f.fetch2Stall == 0) = true := by
          rw [beq_iff_eq]
          omega
        rw [hz, hdec] at h
        simpa using h
      unfold Frontend.fetch2Stage
      dsimp only
      rw [if_pos hgroup]
      dsimp only
      rw [hpend, List.isEmpty_iff.mp hdec]
      exact ⟨rfl, rfl, fun h => absurd rfl h, rfl⟩
    · rw [if_neg hdec]
      exact ⟨rfl, rfl, fun h => absurd hpend h, rfl⟩

theorem step_fetch2 (hi : s.Inv start) (hg : s.Guarded .fetch2) : (s.step .fetch2).Inv start := by
  cases h : s.fetches2 with
  | false =>
    obtain ⟨hprod, hf1, hpend, hcpu⟩ := step_idle2 hi h
    have hlast : (s.step .fetch2).last = s.last := rfl
    refine ⟨hprod ▸ hi.follows, ?_, ?_, hpend⟩
    · rw [hprod, hf1, hcpu, hlast]
      exact hi.ahead
    · rw [hf1]
      exact hi.last
  | true =>
    obtain ⟨hf1, hout, hpend, ⟨u, hu⟩⟩ := step_fetches2 h
    have hpc : (s.step .fetch2).cpu.pc = s.cpu.pc := by rw [hu]
    -- the latches behind are empty when fetch2 runs
    have hempty : s.f.fetch2Decode = [] ∧ s.f.fetch2Pending = [] ∧ s.f.fetch1Fetch2 ≠ [] := by
      have h' := h
      unfold fetches2 at h'
      simp only [Bool.and_eq_true, beq_iff_eq, Bool.not_eq_true', List.isEmpty_iff] at h'
      refine ⟨h'.1.2, ?_, fun hne => ?_⟩
      · by_contra hne
        exact hi.pending hne h'.1.1
      · rw [hne] at h'
        exact absurd h'.2 (by decide)
    have hbefore : s.produced = s.delivered := by
      unfold produced
      rw [hempty.1, hempty.2.1, List.append_nil, List.append_nil]
    have hafter : (s.step .fetch2).produced = s.delivered ++ (fetch2Loop s.reading s.f.fetch1Fetch2).1 := by
      rw [← hout, ← List.append_assoc]
      rfl
    have hruns := hi.ahead.resolve_right fun hh => hempty.2.2 hh.1
    obtain ⟨hfollows, hend⟩ := fetch2Loop_follows hruns (hg h)
    have hold := hi.follows
    rw [hbefore] at hfollows hend hold
    refine ⟨?_, ?_, ?_, hpend⟩
    · rw [hafter, Hops.follows_append]
      exact ⟨hold, hfollows⟩
    · rw [hf1, hpc, hafter, Hops.endFrom_append]
      rcases hend with hend | hheld
      · exact Or.inl hend.symm
      · refine Or.inr ⟨rfl, ?_⟩
        show holds s.last s.cpu.pc = true
        cases hl : s.f.fetch1Fetch2.getLast? with
        | none =>
          rw [hl] at hheld
          exact absurd hheld Bool.false_ne_true
        | some f =>
          rw [hl] at hheld
          rw [hi.last f hl]
          exact hheld
    · rw [hf1]
      exact fun f hf => absurd hf (by simp)

/-- What a tick of fetch1 does when it runs. -/
theorem step_fetches1 (h : s.fetches1 = true) :
    runsTo s.cpu.pc (s.step .fetch1).f.fetch1Fetch2 (s.step .fetch1).cpu.pc ∧
      LocatedFrom s.cpu (s.step .fetch1).f.fetch1Fetch2 ∧ (s.step .fetch1).produced = s.produced ∧
      (s.step .fetch1).f.fetch2Stall = s.f.fetch2Stall ∧ (s.step .fetch1).f.fetch2Pending = s.f.fetch2Pending ∧
      (s.cpu.pipelineWidth ≠ 0 → ¬s.cpu.pc + 2 > lineEnd s.cpu → (s.step .fetch1).f.fetch1Fetch2 ≠ []) := by
  unfold fetches1 at h
  simp only [Bool.and_eq_true, beq_iff_eq] at h
  obtain ⟨new, hnew, hruns, hloc, hsome⟩ := fetch1Loop_runs (lineEnd s.cpu)
    (if s.cpu.csrs.misa &&& Csr.misaExtC ≠ 0 then 1 else 3) s.cpu.pipelineWidth s.cpu s.cpu.pc [] s.f.fetch1Stall
  have hstep : (s.step .fetch1).f.fetch1Fetch2 = new ∧ (s.step .fetch1).cpu.pc = (fetch1Loop (lineEnd s.cpu)
      (if s.cpu.csrs.misa &&& Csr.misaExtC ≠ 0 then 1 else 3) s.cpu.pipelineWidth s.cpu s.cpu.pc
          [] s.f.fetch1Stall).2.1 ∧
      (s.step .fetch1).produced = s.produced ∧ (s.step .fetch1).f.fetch2Stall = s.f.fetch2Stall ∧
      (s.step .fetch1).f.fetch2Pending = s.f.fetch2Pending := by
    unfold step Frontend.tickFetch1
    rw [if_neg (by omega), if_pos h.2]
    exact ⟨hnew, rfl, rfl, rfl, rfl⟩
  rw [hstep.1, hstep.2.1]
  exact ⟨hruns, hloc, hstep.2.2.1, hstep.2.2.2.1, hstep.2.2.2.2, hsome rfl⟩

theorem step_fetch1 (hi : s.Inv start) (hg : s.Guarded .fetch1) : (s.step .fetch1).Inv start := by
  have hlast : (s.step .fetch1).last = (s.step .fetch1).f.fetch1Fetch2.getLast?.or s.last := rfl
  cases h : s.fetches1 with
  | false =>
    have hsame : (s.step .fetch1).produced = s.produced ∧ (s.step .fetch1).f.fetch1Fetch2 = s.f.fetch1Fetch2 ∧
        (s.step .fetch1).f.fetch2Stall = s.f.fetch2Stall ∧ (s.step .fetch1).f.fetch2Pending = s.f.fetch2Pending ∧
        (s.step .fetch1).cpu = s.cpu := by
      unfold fetches1 at h
      unfold step Frontend.tickFetch1
      by_cases hs : s.f.fetch1Stall > 0
      · rw [if_pos hs]
        exact ⟨rfl, rfl, rfl, rfl, rfl⟩
      · rw [if_neg hs]
        by_cases he : s.f.fetch1Fetch2.isEmpty = true
        · rw [he, show s.f.fetch1Stall = 0 by omega] at h
          exact absurd h (by decide)
        · rw [if_neg he]
          exact ⟨rfl, rfl, rfl, rfl, rfl⟩
    obtain ⟨hprod, hf1, hstall, hpend, hcpu⟩ := hsame
    have hl : (s.step .fetch1).last = s.last := by
      rw [hlast, hf1]
      cases hgl : s.f.fetch1Fetch2.getLast? with
      | none => rfl
      | some f => exact (hi.last f hgl).symm
    refine ⟨hprod ▸ hi.follows, ?_, ?_, ?_⟩
    · rw [hprod, hf1, hcpu, hl]
      exact hi.ahead
    · rw [hf1, hl]
      exact hi.last
    · rw [hpend, hstall]
      exact hi.pending
  | true =>
    obtain ⟨hruns, -, hprod, hstall, hpend, -⟩ := step_fetches1 h
    have hempty : s.f.fetch1Fetch2 = [] := by
      unfold fetches1 at h
      simp only [Bool.and_eq_true, List.isEmpty_iff] at h
      exact h.2
    have hpc : s.cpu.pc = Hops.endFrom IfIdEntry.nextPc start s.produced := by
      rcases hi.ahead with ha | ⟨-, hheld⟩
      · rw [hempty] at ha
        exact ha
      · rw [(hg h).2.2] at hheld
        exact absurd hheld Bool.false_ne_true
    refine ⟨hprod ▸ hi.follows, Or.inl ?_, fun f hf => ?_, ?_⟩
    · rw [hprod, ← hpc]
      exact hruns
    · rw [hlast, hf]
      rfl
    · rw [hpend, hstall]
      exact hi.pending

/-- **One step** keeps the invariant. -/
theorem step_inv (hi : s.Inv start) {ev : FetchEvent U} (hl : s.Legal ev) (hg : s.Guarded ev) :
    (s.step ev).Inv start := by
  cases ev with
  | decode renames => exact step_decode hi renames
  | fetch2 => exact step_fetch2 hi hg
  | fetch1 => exact step_fetch1 hi hg
  | rename left => exact ⟨hi.follows, hi.ahead, hi.last, hi.pending⟩
  | outside g =>
    refine ⟨hi.follows, ?_, hi.last, hi.pending⟩
    show runsTo _ s.f.fetch1Fetch2 (g s.cpu).pc ∨ (s.f.fetch1Fetch2 = [] ∧ holds s.last (g s.cpu).pc = true)
    rw [show (g s.cpu).pc = s.cpu.pc from hl]
    exact hi.ahead

theorem Inv.right (hi : s.Inv start) {ev : FetchEvent U} (hl : s.Legal ev) (hg : s.Guarded ev) : s.Right start ev := by
  refine ⟨(step_inv hi hl hg).right_path, ?_⟩
  cases ev with
  | fetch1 =>
    intro h
    obtain ⟨hw, hroom, -⟩ := hg h
    obtain ⟨-, hloc, -, -, -, hsome⟩ := step_fetches1 h
    exact ⟨hsome hw hroom, hloc⟩
  | fetch2 =>
    intro h
    rw [(step_fetches2 h).2.1]
    exact fetch2Loop_stored s.reading s.f.fetch1Fetch2
  | decode renames => trivial
  | rename left => trivial
  | outside g => trivial

/-- **The fetch stream.** In every run of the front end without a redirect whose steps meet the condition, what
decode gets is one path from the start pc, fetch1 always delivers, and the words are those in memory. -/
theorem runs_chain (cpu : Cpu U) (evs : List (FetchEvent U)) (hl : (init cpu).Always Legal evs)
    (hg : (init cpu).Always Guarded evs) : (init cpu).Always (Right cpu.pc) evs := by
  have hinit := init_inv cpu
  generalize hs : init cpu = s at hl hg hinit ⊢
  clear hs
  induction evs generalizing s with
  | nil => trivial
  | cons ev evs ih => exact ⟨hinit.right hl.1 hg.1, ih _ hl.2 hg.2 (step_inv hinit hl.1 hg.1)⟩

end FetchRun

/-! ### Two streams -/

/-- A core with this program at this pc. -/
def streamCpu (pc : U64) (program : List U32) : Cpu Bench :=
  { Cpu.new O3Pipeline.smallO3 (O3Pipeline.memOfWords 0x80000000 program) {} with pc := pc }

def streamEvents : List (FetchEvent Bench) :=
  [.fetch1, .fetch2, .fetch1, .decode true, .rename [], .fetch2, .fetch1, .decode true]

/-- Four additions, two in each group, the second and the third compressed. -/
def additions : Cpu Bench :=
  -- addi x5,x0,7; c.addi x5,1; c.addi x5,1; addi x5,x5,1
  streamCpu 0x80000000 [0x00700293, 0x02850285, 0x00128293]

theorem additions_chain :
    ((streamEvents.foldl FetchRun.step (.init additions)).delivered.map fun e => (e.pc, e.inst)) =
      [(0x80000000, 0x00700293), (0x80000004, 0x00128293), (0x80000006, 0x00128293), (0x80000008, 0x00128293)] ∧
    (FetchRun.init additions).Always (FetchRun.Right additions.pc) streamEvents := by
  refine ⟨by decide, FetchRun.runs_chain additions _ ?_ ?_⟩
  · exact ⟨trivial, trivial, trivial, trivial, trivial, trivial, trivial, trivial, trivial⟩
  · refine ⟨fun _ => ⟨?_, ?_, ?_⟩, fun _ => ?_, fun _ => ⟨?_, ?_, ?_⟩, trivial, trivial, fun _ => ?_,
      fun _ => ⟨?_, ?_, ?_⟩,
      trivial, trivial⟩
    all_goals decide

/-- In the last line of the address space fetch1 delivers nothing; and an odd pc is delivered again in each group. -/
theorem stream_broken :
    (¬(FetchRun.init (streamCpu 0xffffffffffffffc0 [])).Always (FetchRun.Right 0xffffffffffffffc0) [.fetch1]) ∧
      ¬(FetchRun.init (streamCpu 0x80000001 [])).Always (FetchRun.Right 0x80000001)
        [.fetch1, .fetch2, .decode true, .fetch1, .rename [], .fetch2] := by
  constructor
  · intro h
    have hsome := (h.1.2 (by decide)).1
    exact hsome (by decide)
  · intro h
    have hpath := h.2.2.2.2.2.1.1
    revert hpath
    decide

end Rvsim
