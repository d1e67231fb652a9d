/-
# Branches in flight

What the pipeline asks of a branch predictor (`bru/branch_predictor.rs`), and
when: fetch1 predicts and speculates, execute repairs what was mispredicted and
squashes what is younger, commit trains, a flush drops everything in flight. The
branch target buffer (`bru/btb.rs`) belongs to every predictor. The return
address stack answers for returns and holds no history; its answers are inputs.

Key definitions:
  - `Btb`, `BranchPredictor`
  - `InFlight`, `Speculation`, `Speculation.step`, `Speculation.run`
Key theorems:
  - `Speculation.resolveBranch_cases`, `Speculation.resolveJump_cases`, `Speculation.commit_cases`
  - `Speculation.run_keeps`, `Speculation.run_induction`
-/
import Rvsim.BranchHistory
import Rvsim.Frontend

namespace Rvsim

/-! ### The branch target buffer -/

structure BtbEntry where
  tag : U64 := 0
  target : U64 := 0
  valid : Bool := false
  deriving DecidableEq, Repr

structure Btb where
  table : List BtbEntry
  numSets : Nat
  ways : Nat
  replacePtr : List U8
  deriving DecidableEq, Repr

namespace Btb

def new (size ways : Nat) : Btb :=
  let ways := max ways 1
  let numSets := max (size / ways) 1
  { table := List.replicate (numSets * ways) {}, numSets := numSets, ways := ways,
      replacePtr := List.replicate numSets 0 }

def setIndex (b : Btb) (pc : U64) : Nat := ((pc >>> 2) &&& (BitVec.ofNat 64 b.numSets - 1)).toNat

def entry (b : Btb) (pc : U64) (w : Nat) : BtbEntry := b.table.getD (b.setIndex pc * b.ways + w) {}

/-- The first way whose entry has the tag. -/
def wayOf (b : Btb) (pc : U64) : Option Nat :=
  (List.range b.ways).find? fun w => (b.entry pc w).valid && (b.entry pc w).tag == pc

def lookup (b : Btb) (pc : U64) : Option U64 := (b.wayOf pc).map fun w => (b.entry pc w).target

def setEntry (b : Btb) (pc : U64) (w : Nat) (e : BtbEntry) : Btb :=
  { b with table := b.table.set (b.setIndex pc * b.ways + w) e }

/-- The entry with the tag, else an invalid one, else the set's next victim. -/
def update (b : Btb) (pc target : U64) : Btb :=
  match b.wayOf pc with
  | some w => b.setEntry pc w { b.entry pc w with target := target }
  | none =>
    match (List.range b.ways).find? fun w => !(b.entry pc w).valid with
    | some w => b.setEntry pc w { tag := pc, target := target, valid := true }
    | none =>
      let set := b.setIndex pc
      let victim := (b.replacePtr.getD set 0).toNat % b.ways
      let b := { b with replacePtr := b.replacePtr.set set (BitVec.ofNat 8 ((victim + 1) % b.ways)) }
      b.setEntry pc victim { tag := pc, target := target, valid := true }

end Btb

/-! ### The trait -/

namespace Ghr

/-- `Ghr::new`: 64 bits of history. -/
def new (val : U64) : Ghr := ⟨(Vector.replicate 16 0).set 0 val, 64⟩

/-- The low 64 bits. -/
def val (g : Ghr) : U64 := g.bits[0]

@[simp] theorem val_new (v : U64) : (new v).val = v := rfl

end Ghr

class BranchPredictor (P : Type) where
  /-- The state comes back: the prediction may leave something for the update. -/
  predictBranch : P → U64 → (Bool × Option U64) × P
  updateBranch : P → U64 → (taken : Bool) → (target : Option U64) → (ghrSnapshot : Ghr) → P
  predictBtb : P → U64 → Option U64
  onCall : P → U64 → (target : U64) → P
  speculate : P → U64 → Bool → P := fun p _ _ => p
  snapshotHistory : P → Ghr := fun _ => .default
  repairHistory : P → Ghr → P := fun p _ => p
  updateBtb : P → U64 → U64 → P := fun p _ _ => p
  repairToCommitted : P → P := id

/-! ### The flight -/

inductive JumpKind where
  /-- Fetch does not look at it. -/
  | compressed
  | jal
  | jalr
  deriving DecidableEq, Repr

/-- A branch or a jump between its fetch and its commit. -/
structure InFlight (P : Type) where
  pc : U64
  fallthrough : U64
  /-- The direction that went into the history; a jump has none. -/
  speculated : Option Bool
  /-- A jump whose target fetch asked the buffer of targets for. -/
  asked : Bool := false
  rdLink : Bool := false
  /-- Where fetch went on. -/
  predictedNext : U64
  ghrSnapshot : Ghr
  /-- The direction and the target, once it is resolved. -/
  outcome : Option (Bool × U64) := none
  /-- The predictor that was asked. The source does not keep it. -/
  seen : P

namespace InFlight

variable {P : Type}

/-- The direction a branch has in the history of the instructions: its outcome, until then the speculated one. -/
def direction (x : InFlight P) : Option Bool :=
  x.speculated.map fun b => (x.outcome.map (·.1)).getD b

/-- Where the branch goes on. -/
def next (x : InFlight P) (taken : Bool) (target : U64) : U64 := if taken then target else x.fallthrough

/-- The directions that a list of instructions has in the history. -/
def directions (l : List (InFlight P)) : List Bool := l.filterMap (·.direction)

variable {l l' : List (InFlight P)} {x : InFlight P}

@[simp] theorem directions_nil : directions ([] : List (InFlight P)) = [] := rfl

theorem directions_cons : directions (x :: l) = x.direction.toList ++ directions l := by
  unfold directions
  cases h : x.direction with
  | none => rw [List.filterMap_cons_none h]; rfl
  | some b => rw [List.filterMap_cons_some h]; rfl

theorem directions_append : directions (l ++ l') = directions l ++ directions l' := List.filterMap_append

theorem directions_of_jumps (h : ∀ x ∈ l, x.speculated = none) : directions l = [] := by
  apply List.filterMap_eq_nil_iff.mpr
  intro x hx
  rw [InFlight.direction, h x hx, Option.map_none]

theorem split_at {k : Nat} (h : l[k]? = some x) :
    ∃ a b, l = a ++ x :: b ∧ (∀ y : InFlight P, l.set k y = a ++ y :: b) ∧
        ∀ y : InFlight P, (l.set k y).take (k + 1) = a ++ [y] := by
  have hk : k < l.length := (List.getElem?_eq_some_iff.mp h).1
  have hx : l[k] = x := (List.getElem?_eq_some_iff.mp h).2
  have hset (y : InFlight P) : l.set k y = l.take k ++ y :: l.drop (k + 1) := List.set_eq_take_cons_drop y hk
  refine ⟨l.take k, l.drop (k + 1), ?_, hset, fun y => ?_⟩
  · rw [← hx, List.getElem_cons_drop, List.take_append_drop]
  · rw [hset, List.take_append, List.length_take, Nat.min_eq_left hk.le, Nat.add_sub_cancel_left, List.take_take,
      Nat.min_eq_right (Nat.le_succ k)]
    rfl

/-- The same instruction, resolved or not. -/
structure Resolves (x y : InFlight P) : Prop where
  pc : y.pc = x.pc
  speculated : y.speculated = x.speculated
  asked : y.asked = x.asked
  ghrSnapshot : y.ghrSnapshot = x.ghrSnapshot
  seen : y.seen = x.seen

theorem Resolves.refl (x : InFlight P) : Resolves x x := ⟨rfl, rfl, rfl, rfl, rfl⟩

/-- A resolution brings nothing new into the flight. -/
theorem exists_resolves {a b c : List (InFlight P)} {o : Option (Bool × U64)} (h : l = a ++ x :: b) (hc : c ⊆ b)
    {y : InFlight P}
    (hy : y ∈ a ++ { x with outcome := o } :: c) : ∃ z ∈ l, Resolves z y := by
  subst h
  simp only [List.mem_append, List.mem_cons] at hy ⊢
  rcases hy with hy | rfl | hy
  · exact ⟨y, .inl hy, .refl y⟩
  · exact ⟨x, .inr (.inl rfl), ⟨rfl, rfl, rfl, rfl, rfl⟩⟩
  · exact ⟨y, .inr (.inr (hc hy)), .refl y⟩

end InFlight

/-- The predictor, what is in flight, oldest first, and the directions of the committed branches. -/
structure Speculation (P : Type) where
  predictor : P
  flight : List (InFlight P) := []
  committed : List Bool := []

/-- Nothing in flight and nothing committed. -/
def Speculation.start {P : Type} (p : P) : Speculation P := { predictor := p }

inductive BruAct where
  | fetchBranch (pc : U64) (size : InstSize)
  /-- A jump; `ret` is what the return address stack answers. -/
  | fetchJump (kind : JumpKind) (pc : U64) (size : InstSize) (rd rs1 : RegIdx) (ret : Option U64)
  | resolveBranch (k : Nat) (taken : Bool) (target : U64)
  | resolveJump (k : Nat) (target : U64)
  | commit
  /-- All but the `k` oldest are dropped: a memory-order violation or a serialising instruction. -/
  | squash (k : Nat)
  /-- A full flush: a trap, a return from one. -/
  | flush
  deriving DecidableEq, Repr

namespace Speculation

variable {P : Type} [BranchPredictor P]

open BranchPredictor

/-- The entry of a branch: the snapshot and the prediction. -/
def branchEntry (p : P) (pc : U64) (size : InstSize) : InFlight P :=
  let (taken, target) := (predictBranch p pc).1
  { pc := pc
    fallthrough := pc + size.asU64
    speculated := some taken
    predictedNext := if taken then target.getD (pc + size.asU64) else pc + size.asU64
    ghrSnapshot := snapshotHistory p
    seen := p }

/-- `fetch1_stage` at a branch: the predicted direction goes into the history, with a target or without. -/
def fetchBranch (s : Speculation P) (pc : U64) (size : InstSize) : Speculation P :=
  let ((taken, _), predictor) := predictBranch s.predictor pc
  { s with predictor := speculate predictor pc taken, flight := s.flight ++ [branchEntry s.predictor pc size] }

/-- A return: the register of the address is a link, and the jump does not call through itself. -/
def useRas (rd rs1 : RegIdx) : Bool := isLink rs1 && (!isLink rd || rd != rs1)

/-- The jump asks for a target that is not a return's. -/
def asks (kind : JumpKind) (rd rs1 : RegIdx) : Bool :=
  match kind with
  | .compressed => false
  | .jal => true
  | .jalr => !useRas rd rs1

/-- The entry of a jump; its history is only remembered. -/
def jumpEntry (p : P) (kind : JumpKind) (pc : U64) (size : InstSize) (rd rs1 : RegIdx)
    (ret : Option U64) : InFlight P :=
  let target :=
    match kind with
    | .compressed => none
    | .jal => predictBtb p pc
    | .jalr => if useRas rd rs1 then ret else predictBtb p pc
  { pc := pc
    fallthrough := pc + size.asU64
    speculated := none
    asked := asks kind rd rs1
    rdLink := isLink rd
    predictedNext := target.getD (pc + size.asU64)
    ghrSnapshot := snapshotHistory p
    seen := p }

/-- `fetch1_stage` at a jump. -/
def fetchJump (s : Speculation P) (kind : JumpKind) (pc : U64) (size : InstSize) (rd rs1 : RegIdx) (ret : Option U64) :
    Speculation P :=
  { s with flight := s.flight ++ [jumpEntry s.predictor kind pc size rd rs1 ret] }

/-- The branch resolution of `execute_one`. A mispredicted branch repairs the
history, pushes its outcome and takes everything younger out of the flight. -/
def resolveBranch (s : Speculation P) (k : Nat) (taken : Bool) (target : U64) : Option (Speculation P) :=
  s.flight[k]?.bind fun x =>
    if x.speculated = none ∨ x.outcome ≠ none then none
    else
      let flight := s.flight.set k { x with outcome := some (taken, target) }
      if x.predictedNext ≠ x.next taken target then
        let predictor := speculate (repairHistory s.predictor x.ghrSnapshot) x.pc taken
        some { s with predictor := predictor, flight := flight.take (k + 1) }
      else some { s with flight := flight }

/-- The jump resolution of `execute_one`. A call trains the buffer of targets in `on_call`. -/
def resolveJump (s : Speculation P) (k : Nat) (target : U64) : Option (Speculation P) :=
  s.flight[k]?.bind fun x =>
    if x.speculated ≠ none ∨ x.outcome ≠ none then none
    else
      let flight := s.flight.set k { x with outcome := some (true, target) }
      let mispredicted := x.predictedNext ≠ target
      let predictor := if x.rdLink then s.predictor else updateBtb s.predictor x.pc target
      let predictor := if mispredicted then repairHistory predictor x.ghrSnapshot else predictor
      let predictor := if x.rdLink then onCall predictor x.pc target else predictor
      some { s with predictor := predictor, flight := if mispredicted then flight.take (k + 1) else flight }

/-- The predictor's part of `commit_stage`: a branch trains, a jump does not. -/
def commit (s : Speculation P) : Option (Speculation P) :=
  match s.flight with
  | [] => none
  | x :: rest =>
    x.outcome.map fun (taken, target) =>
      match x.speculated with
      | none => { s with flight := rest }
      | some _ =>
        { s with
          predictor := updateBranch s.predictor x.pc taken (if taken then some target else none) x.ghrSnapshot
          flight := rest
          committed := s.committed ++ [taken] }

def step (s : Speculation P) : BruAct → Option (Speculation P)
  | .fetchBranch pc size => some (s.fetchBranch pc size)
  | .fetchJump kind pc size rd rs1 ret => some (s.fetchJump kind pc size rd rs1 ret)
  | .resolveBranch k taken target => s.resolveBranch k taken target
  | .resolveJump k target => s.resolveJump k target
  | .commit => s.commit
  | .squash k => some { s with flight := s.flight.take k }
  | .flush => some { s with predictor := repairToCommitted s.predictor, flight := [] }

def run (s : Speculation P) : List BruAct → Option (Speculation P)
  | [] => some s
  | a :: as => (s.step a).bind fun s' => s'.run as

/-- Every step of the run meets a condition on the state before it. -/
def meets (cond : Speculation P → BruAct → Bool) (s : Speculation P) : List BruAct → Bool
  | [] => true
  | a :: as => cond s a && ((s.step a).map fun s' => s'.meets cond as).getD true

variable {s s' s'' : Speculation P} {cond : Speculation P → BruAct → Bool} {as bs : List BruAct}

/-! ### What a step can do -/

theorem resolveBranch_cases {k : Nat} {taken : Bool} {target : U64} (h : s.resolveBranch k taken target = some s') :
    ∃ x a b, s.flight[k]? = some x ∧ s.flight = a ++ x :: b ∧ x.speculated ≠ none ∧ x.outcome = none ∧
      ((x.predictedNext = x.next taken target ∧
          s' = { s with flight := a ++ { x with outcome := some (taken, target) } :: b }) ∨
        (x.predictedNext ≠ x.next taken target ∧
          s' = { s with
            predictor := speculate (repairHistory s.predictor x.ghrSnapshot) x.pc taken
            flight := a ++ [{ x with outcome := some (taken, target) }] })) := by
  obtain ⟨x, hx, h⟩ := Option.bind_eq_some_iff.mp h
  obtain ⟨a, b, hflight, hset, htake⟩ := InFlight.split_at hx
  have hopen : ¬(x.speculated = none ∨ x.outcome ≠ none) := by
    intro hc
    rw [if_pos hc] at h
    cases h
  rw [if_neg hopen] at h
  push Not at hopen
  refine ⟨x, a, b, hx, hflight, hopen.1, hopen.2, ?_⟩
  dsimp only at h
  by_cases hmis : x.predictedNext = x.next taken target
  · rw [if_neg (not_not.mpr hmis), hset] at h
    exact .inl ⟨hmis, (Option.some.inj h).symm⟩
  · rw [if_pos hmis, htake] at h
    exact .inr ⟨hmis, (Option.some.inj h).symm⟩

/-- The predictor after a jump's target is known. -/
def jumpPredictor (p : P) (x : InFlight P) (target : U64) : P :=
  let p := if x.rdLink then p else updateBtb p x.pc target
  let p := if x.predictedNext ≠ target then repairHistory p x.ghrSnapshot else p
  if x.rdLink then onCall p x.pc target else p

theorem resolveJump_cases {k : Nat} {target : U64} (h : s.resolveJump k target = some s') :
    ∃ x a b, s.flight[k]? = some x ∧ s.flight = a ++ x :: b ∧ x.speculated = none ∧ x.outcome = none ∧
      s' = { s with
        predictor := jumpPredictor s.predictor x target
        flight := a ++ { x with outcome := some (true, target) } :: if x.predictedNext = target then b else [] } := by
  obtain ⟨x, hx, h⟩ := Option.bind_eq_some_iff.mp h
  obtain ⟨a, b, hflight, hset, htake⟩ := InFlight.split_at hx
  have hopen : ¬(x.speculated ≠ none ∨ x.outcome ≠ none) := by
    intro hc
    rw [if_pos hc] at h
    cases h
  rw [if_neg hopen] at h
  push Not at hopen
  refine ⟨x, a, b, hx, hflight, hopen.1, hopen.2, (Option.some.inj h).symm.trans ?_⟩
  unfold jumpPredictor
  by_cases hmis : x.predictedNext = target
  · simp only [hmis, ne_eq, not_true_eq_false, if_false, if_true, hset]
  · simp only [hmis, ne_eq, not_false_eq_true, if_false, if_true, htake]

theorem commit_cases (h : s.commit = some s') :
    ∃ x rest taken target, s.flight = x :: rest ∧ x.outcome = some (taken, target) ∧
      ((x.speculated = none ∧ s' = { s with flight := rest }) ∨
        (x.speculated ≠ none ∧
          s' = { s with
            predictor := updateBranch s.predictor x.pc taken (if taken then some target else none) x.ghrSnapshot
            flight := rest
            committed := s.committed ++ [taken] })) := by
  unfold commit at h
  split at h
  · cases h
  · next x rest hflight =>
    obtain ⟨⟨taken, target⟩, hout, h⟩ := Option.map_eq_some_iff.mp h
    refine ⟨x, rest, taken, target, hflight, hout, ?_⟩
    dsimp only at h
    cases hspec : x.speculated with
    | none =>
      rw [hspec] at h
      exact .inl ⟨rfl, h.symm⟩
    | some b =>
      rw [hspec] at h
      exact .inr ⟨Option.some_ne_none b, h.symm⟩

/-! ### Runs -/

theorem run_cons_eq {a : BruAct} : s.run (a :: as) = some s'' ↔ ∃ s', s.step a = some s' ∧ s'.run as = some s'' :=
  Option.bind_eq_some_iff

/-- The condition holds at every step of a run. -/
theorem meets_iff (hrun : s.run as = some s') :
    s.meets cond as = true ↔ ∀ bs a cs s1, as = bs ++ a :: cs → s.run bs = some s1 → cond s1 a = true := by
  induction as generalizing s with
  | nil => simp [meets]
  | cons a as ih =>
    obtain ⟨s1, h1, hrest⟩ := run_cons_eq.mp hrun
    rw [meets, h1, Bool.and_eq_true, Option.map_some, Option.getD_some, ih hrest]
    constructor
    · rintro ⟨ha, hall⟩ bs b cs s2 heq hbs
      cases bs with
      | nil =>
        obtain ⟨rfl, rfl⟩ := List.cons.inj heq
        obtain rfl : s = s2 := Option.some.inj hbs
        exact ha
      | cons b' bs =>
        obtain ⟨rfl, rfl⟩ := List.cons.inj heq
        obtain ⟨s3, h3, hbs⟩ := run_cons_eq.mp hbs
        obtain rfl := Option.some.inj (h1.symm.trans h3)
        exact hall bs b cs s2 rfl hbs
    · intro hall
      refine ⟨hall [] a as s rfl rfl, fun bs b cs s2 heq hbs => hall (a :: bs) b cs s2 (by rw [heq]; rfl) ?_⟩
      exact run_cons_eq.mpr ⟨s1, h1, hbs⟩

/-- A run goes through the states after its prefixes. -/
theorem run_prefix {bs cs : List BruAct} (hrun : s.run (bs ++ cs) = some s') :
    ∃ s1, s.run bs = some s1 ∧ s1.run cs = some s' := by
  induction bs generalizing s with
  | nil => exact ⟨s, rfl, hrun⟩
  | cons b bs ih =>
    obtain ⟨s1, h1, hrest⟩ := run_cons_eq.mp hrun
    obtain ⟨s2, h2, hcs⟩ := ih hrest
    exact ⟨s2, run_cons_eq.mpr ⟨s1, h1, h2⟩, hcs⟩

/-- **What every step keeps, every run keeps.** -/
theorem run_keeps {inv : Speculation P → Prop} (hstep : ∀ s s' a, inv s → s.step a = some s' → inv s') (h : inv s)
    (hrun : s.run as = some s') : inv s' := by
  induction as generalizing s with
  | nil =>
    obtain rfl : s = s' := Option.some.inj hrun
    exact h
  | cons a as ih =>
    obtain ⟨s1, h1, hrest⟩ := run_cons_eq.mp hrun
    exact ih (hstep s s1 a h h1) hrest

/-- **What every step that meets the condition keeps, every such run keeps.** -/
theorem run_induction {inv : Speculation P → Prop}
    (hstep : ∀ s s' a, inv s → cond s a = true → s.step a = some s' → inv s') (h : inv s) (hrun : s.run as = some s')
    (hmeets : s.meets cond as = true) : inv s' := by
  induction as generalizing s with
  | nil =>
    obtain rfl : s = s' := Option.some.inj hrun
    exact h
  | cons a as ih =>
    obtain ⟨s1, h1, hrest⟩ := run_cons_eq.mp hrun
    rw [meets, h1, Bool.and_eq_true] at hmeets
    exact ih (hstep s s1 a h hmeets.1 h1) hrest hmeets.2

end Speculation

end Rvsim
