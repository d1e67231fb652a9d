/-
# What trains ITTAGE

Fetch asks ITTAGE for the targets of jumps (`predict_btb` in `fetch1.rs`);
`Ittage::update` is called from `update_branch`, which commit calls for
conditional branches alone. A jump's target goes into the buffer of targets at
execute.

Key definitions:
  - `Speculation.due`: the updates that a step owes
  - `Speculation.TargetsTrained`, `Speculation.sparesTargets`
Key theorems:
  - `Speculation.step_updates`: the updates that a step makes
  - `targets_trained_iff`
-/
import Rvsim.ScLTage

namespace Rvsim

open BranchPredictor ScLTagePredictor

namespace Speculation

/-- ITTAGE's updates so far. -/
def updates (s : Speculation ScLTagePredictor) : List TargetUpdate := s.predictor.ittage.updates

/-- A jump whose target fetch asked for, with its target and its history. -/
def owed (x : InFlight ScLTagePredictor) : List TargetUpdate :=
  match x.speculated, x.outcome with
  | none, some (_, target) => if x.asked then [⟨x.pc, target, x.ghrSnapshot⟩] else []
  | _, _ => []

/-- **One update for each jump that commits and whose target fetch asked for**, none at any other step. -/
def due (s : Speculation ScLTagePredictor) : BruAct → List TargetUpdate
  | .commit => (s.flight.head?.map owed).getD []
  | _ => []

/-- The update of a taken branch. -/
def made (s : Speculation ScLTagePredictor) : BruAct → List TargetUpdate
  | .commit =>
    match s.flight with
    | x :: _ =>
      match x.speculated, x.outcome with
      | some _, some (true, target) => [⟨x.pc, target, x.ghrSnapshot⟩]
      | _, _ => []
    | [] => []
  | _ => []

/-- What commits is neither a jump whose target fetch asked for nor a taken branch. -/
def sparesTargets (s : Speculation ScLTagePredictor) : BruAct → Bool
  | .commit =>
    match s.flight with
    | x :: _ =>
      match x.speculated, x.outcome with
      | none, _ => !x.asked
      | some _, some (taken, _) => !taken
      | some _, none => true
    | [] => true
  | _ => true

/-- The entries that a jump's history leads to have the trainers that they had. -/
def Untouched (p q : ScLTagePredictor) (x : InFlight ScLTagePredictor) : Prop :=
  ∀ i, (q.ittage.tables.entry (q.ittage.banks.snapshotAll x.pc x.ghrSnapshot) i).trainer =
    (p.ittage.tables.entry (p.ittage.banks.snapshotAll x.pc x.ghrSnapshot) i).trainer

/-- **ITTAGE is trained on what it predicts**: every step of the run makes the
updates that are due, and after a jump's commit a prediction with its program
counter and its history uses an entry that the jump's update trained, unless
its entries have been touched since. -/
def TargetsTrained (p : ScLTagePredictor) (as : List BruAct) : Prop :=
  (∀ bs a cs s s', as = bs ++ a :: cs → (start p).run bs = some s → s.step a = some s' →
      s'.updates = s.updates ++ s.due a) ∧
    ∀ bs cs ds s s' s'' x rest, as = bs ++ .commit :: (cs ++ ds) → (start p).run bs = some s → s.flight = x :: rest →
      x.speculated = none → x.asked = true → s.step .commit = some s' → s'.run cs = some s'' →
      Untouched s'.predictor s''.predictor x → s''.predictor.specGhr = x.ghrSnapshot →
      ∃ e, s''.predictor.ittage.provider x.pc = some e ∧ e.trainer = some s.updates.length

variable {s s' : Speculation ScLTagePredictor}

theorem updates_update (it : Ittage) (pc target : U64) (g : Ghr) :
    (it.update pc target g).updates = it.updates ++ [⟨pc, target, g⟩] := by
  have hclock : it.tickClock.updates = it.updates := by
    unfold Ittage.tickClock
    split <;> rfl
  exact congrArg (· ++ [⟨pc, target, g⟩]) hclock

/-- An update with a target trains ITTAGE, one without does not. -/
theorem updateBranch_ittage (p : ScLTagePredictor) (pc : U64) (taken : Bool) (target : Option U64) (g : Ghr) :
    (p.updateBranch pc taken target g).ittage.updates =
      p.ittage.updates ++ (target.map fun t => (⟨pc, t, g⟩ : TargetUpdate)).toList := by
  cases target with
  | none => exact (List.append_nil _).symm
  | some t => exact updates_update p.ittage pc t g

theorem jumpPredictor_ittage (p : ScLTagePredictor) (x : InFlight ScLTagePredictor) (target : U64) :
    (jumpPredictor p x target).ittage.updates = p.ittage.updates := by
  unfold jumpPredictor
  dsimp only
  split_ifs
  all_goals rfl

theorem predictBranch_ittage (p : ScLTagePredictor) (pc : U64) : (p.predictBranch pc).2.ittage = p.ittage := by
  unfold ScLTagePredictor.predictBranch
  dsimp only
  split <;> rfl

/-- The repair after a misprediction moves the histories alone. -/
theorem repaired_ittage (p : ScLTagePredictor) (snapshot : Ghr) (pc : U64) (taken : Bool) :
    (speculate (repairHistory p snapshot) pc taken).ittage.updates = p.ittage.updates := rfl

/-- **The updates that a step makes** are those of the taken branches that commit. -/
theorem step_updates {a : BruAct} (hstep : s.step a = some s') : s'.updates = s.updates ++ s.made a := by
  cases a with
  | fetchBranch pc size =>
    obtain rfl := Option.some.inj hstep
    exact (congrArg Ittage.updates (predictBranch_ittage s.predictor pc)).trans (List.append_nil _).symm
  | fetchJump kind pc size rd rs1 ret =>
    obtain rfl := Option.some.inj hstep
    exact (List.append_nil _).symm
  | resolveBranch k taken target =>
    obtain ⟨x, a, b, -, -, -, -, ⟨-, rfl⟩ | ⟨-, rfl⟩⟩ := resolveBranch_cases hstep
    · exact (List.append_nil _).symm
    · exact (repaired_ittage _ _ _ _).trans (List.append_nil _).symm
  | resolveJump k target =>
    obtain ⟨x, a, b, -, -, -, -, rfl⟩ := resolveJump_cases hstep
    exact (jumpPredictor_ittage _ _ _).trans (List.append_nil _).symm
  | commit =>
    obtain ⟨x, rest, taken, target, hflight, hout, ⟨hspec, rfl⟩ | ⟨hspec, rfl⟩⟩ := commit_cases hstep
    · rw [made, hflight]
      dsimp only
      rw [hspec, List.append_nil]
      rfl
    · obtain ⟨d, hd⟩ := Option.ne_none_iff_exists'.mp hspec
      rw [made, hflight]
      dsimp only
      rw [hd, hout]
      cases taken with
      | true => exact updateBranch_ittage _ _ _ _ _
      | false => exact updateBranch_ittage _ _ _ _ _
  | squash k =>
    obtain rfl := Option.some.inj hstep
    exact (List.append_nil _).symm
  | flush =>
    obtain rfl := Option.some.inj hstep
    exact (List.append_nil _).symm

/-- What a step makes is what it owes when it spares the targets, and only then. -/
theorem made_eq_due_iff {a : BruAct} (hstep : s.step a = some s') : s.made a = s.due a ↔ s.sparesTargets a = true := by
  cases a with
  | commit =>
    obtain ⟨x, rest, taken, target, hflight, hout, hcase⟩ := commit_cases hstep
    rw [made, due, sparesTargets, hflight, List.head?_cons, Option.map_some, Option.getD_some, owed]
    dsimp only
    rw [hout]
    cases hspec : x.speculated with
    | none => cases hasked : x.asked <;> simp
    | some d => cases taken <;> simp
  | fetchBranch | fetchJump | resolveBranch | resolveJump | squash | flush => exact ⟨fun _ => rfl, fun _ => rfl⟩

end Speculation

/-- **ITTAGE is trained on what it predicts exactly in the runs that commit neither a
jump whose target fetch asked for nor a taken branch.** -/
theorem targets_trained_iff {p : ScLTagePredictor} {as : List BruAct} {s : Speculation ScLTagePredictor}
    (hrun : (Speculation.start p).run as = some s) :
    Speculation.TargetsTrained p as ↔ (Speculation.start p).meets Speculation.sparesTargets as = true := by
  rw [Speculation.meets_iff hrun]
  constructor
  · rintro ⟨hall, -⟩ bs a cs s1 rfl hbs
    obtain ⟨s1', h1, hrest⟩ := Speculation.run_prefix hrun
    obtain rfl := Option.some.inj (hbs.symm.trans h1)
    obtain ⟨s2, h2, -⟩ := Speculation.run_cons_eq.mp hrest
    apply (Speculation.made_eq_due_iff h2).mp
    exact List.append_cancel_left ((Speculation.step_updates h2).symm.trans (hall bs a cs s1 s2 rfl hbs h2))
  · intro hall
    refine ⟨fun bs a cs s1 s2 heq hbs h2 => ?_, ?_⟩
    · rw [Speculation.step_updates h2, (Speculation.made_eq_due_iff h2).mpr (hall bs a cs s1 heq hbs)]
    · -- no such jump commits
      intro bs cs ds s1 s2 s3 x rest heq hbs hflight hspec hasked
      have hspares := hall bs .commit (cs ++ ds) s1 heq hbs
      rw [Speculation.sparesTargets, hflight] at hspares
      dsimp only at hspares
      rw [hspec, hasked] at hspares
      cases hspares

/-! ### One jump, one branch -/

/-- A jump with a link, fetched, resolved and committed. -/
def oneJump : List BruAct := [.fetchJump .jal 0x80000000 .standard 1 0 none, .resolveJump 0 0x80000100, .commit]

def oneBranch (taken : Bool) : List BruAct :=
  [.fetchBranch 0x80000000 .standard, .resolveBranch 0 taken 0x80000100, .commit]

theorem targets_trained_iff_not_taken : ∃ p s, smallScLTage = some p ∧
    (Speculation.start p).run (oneBranch false) = some s ∧
    Speculation.TargetsTrained p (oneBranch false) := by
  have hrun : (smallScLTage.bind fun p => ((Speculation.start p).run (oneBranch false)).map fun _ =>
      (Speculation.start p).meets Speculation.sparesTargets (oneBranch false)) = some true := by
    decide +kernel
  obtain ⟨p, hp, hrun⟩ := Option.bind_eq_some_iff.mp hrun
  obtain ⟨s, hs, hmeets⟩ := Option.map_eq_some_iff.mp hrun
  exact ⟨p, s, hp, hs, (targets_trained_iff hs).mpr hmeets⟩

/-- The last step of the run makes other updates than it owes. -/
theorem Speculation.not_trained_of {p : ScLTagePredictor} {bs : List BruAct} {a : BruAct}
    (h : (((start p).run bs).bind fun s => (s.step a).map fun s' => decide (s'.updates = s.updates ++ s.due a)) =
        some false) :
    ¬ TargetsTrained p (bs ++ [a]) := by
  obtain ⟨s, hs, h⟩ := Option.bind_eq_some_iff.mp h
  obtain ⟨s', hs', h⟩ := Option.map_eq_some_iff.mp h
  exact fun hall => of_decide_eq_false h (hall.1 bs a [] s s' rfl hs hs')

/-- **A jump trains nothing, and a taken branch does.** -/
theorem jump_untrained : ∃ p, smallScLTage = some p ∧ ¬ Speculation.TargetsTrained p oneJump ∧
    ¬ Speculation.TargetsTrained p (oneBranch true) := by
  have hruns : (smallScLTage.map fun p =>
      ((((Speculation.start p).run (oneJump.take 2)).bind fun s => (s.step .commit).map fun s' =>
          decide (s'.updates = s.updates ++ s.due .commit)),
        (((Speculation.start p).run ((oneBranch true).take 2)).bind fun s => (s.step .commit).map fun s' =>
          decide (s'.updates = s.updates ++ s.due .commit)))) = some (some false, some false) := by
    decide +kernel
  obtain ⟨p, hp, hruns⟩ := Option.map_eq_some_iff.mp hruns
  obtain ⟨hjump, hbranch⟩ := Prod.mk.inj hruns
  exact ⟨p, hp, Speculation.not_trained_of hjump,
    Speculation.not_trained_of hbranch⟩

end Rvsim
