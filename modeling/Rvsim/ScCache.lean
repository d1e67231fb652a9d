/-
# The corrector's cache

`predict_branch` of `predictors/sc_l_tage.rs` leaves the pair of the statistical
corrector in a cache of 64 entries, found by the program counter alone, and
`update_branch` trains with what it finds there. Which prediction the pair is
from depends on the predictions in between.

Key definitions:
  - `lastPair`: the prediction that a cache entry is from
  - `Speculation.OwnPair`, `Speculation.LastIsOwn`
Key theorems:
  - `ScLTagePredictor.CacheInv.predictBranch`, `Speculation.ScInv.step`
  - `own_pair_iff`
-/
import Rvsim.ScLTage

namespace Rvsim

open BranchPredictor ScLTagePredictor

/-! ### The last prediction of a cache entry -/

/-- The number and the prediction. A branch that the loop predictor answers for leaves nothing. -/
def lastPair (asked : List Asked) (i : Fin 64) : Option (Nat × Asked) :=
  asked.zipIdx.foldl (fun last a => if a.1.pair.isSome ∧ cacheIdx a.1.pc = i then some (a.2, a.1) else last) none

theorem lastPair_snoc (asked : List Asked) (a : Asked) (i : Fin 64) :
    lastPair (asked ++ [a]) i =
      if a.pair.isSome ∧ cacheIdx a.pc = i then some (asked.length, a) else lastPair asked i := by
  unfold lastPair
  rw [List.zipIdx_append, List.foldl_append, Nat.zero_add]
  rfl

/-- It is one of the predictions, for a branch of the entry, and left a pair. -/
theorem lastPair_spec {asked : List Asked} {i : Fin 64} {n : Nat} {a : Asked} (h : lastPair asked i = some (n, a)) :
    asked[n]? = some a ∧ a.pair.isSome ∧ cacheIdx a.pc = i := by
  induction asked using List.reverseRecOn with
  | nil => cases h
  | append_singleton asked b ih =>
    rw [lastPair_snoc] at h
    split at h
    · next hb =>
      obtain ⟨rfl, rfl⟩ := Prod.mk.inj (Option.some.inj h)
      exact ⟨List.getElem?_concat_length, hb⟩
    · obtain ⟨hget, hrest⟩ := ih h
      exact ⟨(List.getElem?_append_left (List.getElem?_eq_some_iff.mp hget).1).trans hget, hrest⟩

namespace ScLTagePredictor

/-- Each cache entry is from the last prediction for it. -/
def CacheInv (p : ScLTagePredictor) : Prop :=
  ∀ i : Fin 64, p.scCache[i] =
    match lastPair p.asked i with
    | none => {}
    | some (n, a) => ⟨a.pc, a.pair, n⟩

variable {p q : ScLTagePredictor}

theorem CacheInv.of_eq (h : p.CacheInv) (hcache : q.scCache = p.scCache) (hasked : q.asked = p.asked) : q.CacheInv := by
  intro i
  rw [hcache, hasked]
  exact h i

/-- The prediction goes on record with its pair. -/
theorem asked_predictBranch (p : ScLTagePredictor) (pc : U64) :
    (p.predictBranch pc).2.asked = p.asked ++ [⟨pc, p.pairOf pc⟩] := by
  unfold predictBranch pairOf
  dsimp only
  split
  · next h => rw [h]; rfl
  · next h => rw [h]; rfl

theorem CacheInv.predictBranch (h : p.CacheInv) (pc : U64) : (p.predictBranch pc).2.CacheInv := by
  intro i
  rw [asked_predictBranch, lastPair_snoc]
  unfold ScLTagePredictor.predictBranch pairOf
  dsimp only
  split
  · next hloop =>
    rw [hloop]
    exact h i
  · next hloop =>
    rw [hloop]
    by_cases hi : cacheIdx pc = i
    · subst hi
      simp
    · have hne : (cacheIdx pc).val ≠ i.val := fun hc => hi (Fin.ext hc)
      simp only [Option.isSome_none, Bool.false_eq_true, if_false, Option.isSome_some, hi, and_false]
      rw [← h i]
      exact Vector.getElem_set_ne _ _ hne

theorem CacheInv.cached_iff (h : p.CacheInv) {pc : U64} {pair : ScPair} {n : Nat} :
    p.cached pc = some (pair, n) ↔ ∃ a, lastPair p.asked (cacheIdx pc) = some (n, a) ∧ a.pc = pc ∧
        a.pair = some pair := by
  have hentry := h (cacheIdx pc)
  unfold cached
  dsimp only
  rw [hentry]
  cases hlast : lastPair p.asked (cacheIdx pc) with
  | none => simp
  | some last =>
    obtain ⟨m, a⟩ := last
    simp only [Option.some.injEq, Prod.mk.injEq]
    by_cases hpc : a.pc = pc
    · simp only [hpc, if_true, Option.map_eq_some_iff, Prod.mk.injEq]
      constructor
      · rintro ⟨pair', hpair, rfl, rfl⟩
        exact ⟨a, ⟨rfl, rfl⟩, hpc, hpair⟩
      · rintro ⟨b, ⟨rfl, rfl⟩, -, hpair⟩
        exact ⟨pair, hpair, rfl, rfl⟩
    · simp only [hpc, if_false]
      constructor
      · intro hc
        cases hc
      · rintro ⟨b, ⟨-, rfl⟩, hb, -⟩
        exact absurd hb hpc

end ScLTagePredictor

/-! ### Runs -/

namespace Speculation

/-- **The pair that the branch's update finds is the one that its prediction computed.** -/
def OwnPair (s : Speculation ScLTagePredictor) (x : InFlight ScLTagePredictor) : Prop :=
  ∀ pair n, s.predictor.cached x.pc = some (pair, n) → n = x.seen.asked.length ∧ x.seen.pairOf x.pc = some pair

/-- Of the predictions that the loop predictor has no answer for, the last one in
the branch's cache entry is the branch's own or another program counter's. -/
def LastIsOwn (s : Speculation ScLTagePredictor) (x : InFlight ScLTagePredictor) : Prop :=
  ∀ n a, lastPair s.predictor.asked (cacheIdx x.pc) = some (n, a) → a.pc = x.pc → n = x.seen.asked.length

/-- The branch's prediction is on record. -/
def Recorded (asked : List Asked) (x : InFlight ScLTagePredictor) : Prop :=
  x.speculated ≠ none → asked[x.seen.asked.length]? = some ⟨x.pc, x.seen.pairOf x.pc⟩

structure ScInv (s : Speculation ScLTagePredictor) : Prop where
  cache : s.predictor.CacheInv
  recorded : ∀ x ∈ s.flight, Recorded s.predictor.asked x

variable {s s' : Speculation ScLTagePredictor}

/-- Nothing but a prediction moves the cache and the record. -/
structure KeepsCache (p q : ScLTagePredictor) : Prop where
  cache : q.scCache = p.scCache
  asked : q.asked = p.asked

theorem KeepsCache.trans {p q r : ScLTagePredictor} (h : KeepsCache p q) (h' : KeepsCache q r) : KeepsCache p r :=
  ⟨h'.cache.trans h.cache, h'.asked.trans h.asked⟩

theorem updateBranch_keeps (p : ScLTagePredictor) (pc : U64) (taken : Bool) (target : Option U64) (g : Ghr) :
    KeepsCache p (p.updateBranch pc taken target g) := ⟨rfl, rfl⟩

theorem speculate_keeps (p : ScLTagePredictor) (pc : U64) (taken : Bool) :
    KeepsCache p (speculate p pc taken) := ⟨rfl, rfl⟩

theorem jumpPredictor_keeps (p : ScLTagePredictor) (x : InFlight ScLTagePredictor) (target : U64) :
    KeepsCache p (jumpPredictor p x target) := by
  unfold jumpPredictor
  dsimp only
  split_ifs
  all_goals exact ⟨rfl, rfl⟩

open InFlight

namespace ScInv

theorem keep (h : s.ScInv) (hk : KeepsCache s.predictor s'.predictor)
    (hflight : ∀ y ∈ s'.flight, ∃ x ∈ s.flight, Resolves x y) :
    s'.ScInv := by
  refine ⟨h.cache.of_eq hk.cache hk.asked, fun y hy hspec => ?_⟩
  obtain ⟨x, hx, hsame⟩ := hflight y hy
  rw [hk.asked, hsame.pc, hsame.seen]
  exact h.recorded x hx (hsame.speculated ▸ hspec)

theorem fetchBranch (h : s.ScInv) (pc : U64) (size : InstSize) : (s.fetchBranch pc size).ScInv := by
  -- what the step does after the prediction leaves the cache as it is
  have hkeeps : KeepsCache (s.predictor.predictBranch pc).2 (s.fetchBranch pc size).predictor := speculate_keeps _ _ _
  refine ⟨(h.cache.predictBranch pc).of_eq hkeeps.cache hkeeps.asked, fun y hy hspec => ?_⟩
  rw [hkeeps.asked, asked_predictBranch]
  rcases List.mem_append.mp hy with hy | hy
  · have hold := h.recorded y hy hspec
    exact (List.getElem?_append_left (List.getElem?_eq_some_iff.mp hold).1).trans hold
  · obtain rfl := List.mem_singleton.mp hy
    exact List.getElem?_concat_length

theorem step (h : s.ScInv) (a : BruAct) (hstep : s.step a = some s') : s'.ScInv := by
  cases a with
  | fetchBranch pc size =>
    obtain rfl := Option.some.inj hstep
    exact h.fetchBranch pc size
  | fetchJump kind pc size rd rs1 ret =>
    obtain rfl := Option.some.inj hstep
    refine ⟨h.cache, fun y hy hspec => ?_⟩
    rcases List.mem_append.mp hy with hy | hy
    · exact h.recorded y hy hspec
    · obtain rfl := List.mem_singleton.mp hy
      exact absurd rfl hspec
  | resolveBranch k taken target =>
    obtain ⟨x, a, b, -, hflight, -, -, ⟨-, rfl⟩ | ⟨-, rfl⟩⟩ := resolveBranch_cases hstep
    · exact h.keep ⟨rfl, rfl⟩ fun y hy => exists_resolves hflight (List.Subset.refl b) hy
    · exact h.keep ⟨rfl, rfl⟩ fun y hy => exists_resolves hflight (List.nil_subset b) hy
  | resolveJump k target =>
    obtain ⟨x, a, b, -, hflight, -, -, rfl⟩ := resolveJump_cases hstep
    refine h.keep (jumpPredictor_keeps _ _ _) fun y hy => exists_resolves hflight ?_ hy
    split
    · exact List.Subset.refl b
    · exact List.nil_subset b
  | commit =>
    obtain ⟨x, rest, taken, target, hflight, -, ⟨-, rfl⟩ | ⟨-, rfl⟩⟩ := commit_cases hstep
    · exact h.keep ⟨rfl, rfl⟩ fun y hy => ⟨y, hflight ▸ List.mem_cons_of_mem x hy, .refl y⟩
    · exact h.keep (updateBranch_keeps _ _ _ _ _) fun y hy => ⟨y, hflight ▸ List.mem_cons_of_mem x hy, .refl y⟩
  | squash k =>
    obtain rfl := Option.some.inj hstep
    exact h.keep ⟨rfl, rfl⟩ fun y hy => ⟨y, List.mem_of_mem_take hy, .refl y⟩
  | flush =>
    obtain rfl := Option.some.inj hstep
    exact h.keep ⟨rfl, rfl⟩ fun y hy => absurd hy List.not_mem_nil

/-- What the update finds is from the last prediction for the entry. -/
theorem own_iff (h : s.ScInv) {x : InFlight ScLTagePredictor} (hx : x ∈ s.flight) (hspec : x.speculated ≠ none) :
    s.OwnPair x ↔ s.LastIsOwn x := by
  have hrec := h.recorded x hx hspec
  constructor
  · intro hown n a hlast hpc
    obtain ⟨pair, hpair⟩ := Option.isSome_iff_exists.mp (lastPair_spec hlast).2.1
    exact (hown pair n (h.cache.cached_iff.mpr ⟨a, hlast, hpc, hpair⟩)).1
  · intro hown pair n hcached
    obtain ⟨a, hlast, hpc, hpair⟩ := h.cache.cached_iff.mp hcached
    have hn := hown n a hlast hpc
    have hget := (lastPair_spec hlast).1
    rw [hn, hrec] at hget
    obtain rfl := Option.some.inj hget
    exact ⟨hn, hpair⟩

end ScInv

end Speculation

theorem Speculation.scInv_start {tc : TageConfig} {sc : ScConfig} {ic : IttageConfig} {bs bw : Nat}
    {p : ScLTagePredictor}
    (hp : ofConfig tc sc ic bs bw = some p) : (start p).ScInv := by
  obtain ⟨-, hcache, hasked, -⟩ := ofConfig_spec hp
  refine ⟨fun i => ?_, fun x hx => absurd hx List.not_mem_nil⟩
  change p.scCache[i] = match lastPair p.asked i with | none => {} | some (n, a) => ⟨a.pc, a.pair, n⟩
  rw [hcache, hasked]
  exact Vector.getElem_replicate i.isLt

/-- **A branch trains the corrector with its own prediction's pair exactly when that
prediction is the last one in its cache entry, or the last one there is another
program counter's.** -/
theorem own_pair_iff {tc : TageConfig} {sc : ScConfig} {ic : IttageConfig} {bs bw : Nat} {p : ScLTagePredictor}
    (hp : ofConfig tc sc ic bs bw = some p) {as : List BruAct} {s : Speculation ScLTagePredictor}
    (hrun : (Speculation.start p).run as = some s) {x : InFlight ScLTagePredictor}
    {rest : List (InFlight ScLTagePredictor)}
    (hflight : s.flight = x :: rest) (hspec : x.speculated ≠ none) : s.OwnPair x ↔ s.LastIsOwn x :=
  (Speculation.run_keeps (fun _ _ a h hs => h.step a hs) (Speculation.scInv_start hp) hrun).own_iff
    (hflight ▸ List.mem_cons_self) hspec

/-! ### Instances of one branch -/

/-- What the update of the next branch finds, what its prediction computed, and the number of that prediction. -/
def foundAndComputed (s : Speculation ScLTagePredictor) : Option (Option (ScPair × Nat) × Option ScPair × Nat) :=
  match s.flight with
  | x :: _ =>
    if x.speculated.isSome ∧ x.outcome.isSome then
        some (s.predictor.cached x.pc, x.seen.pairOf x.pc, x.seen.asked.length) else none
  | [] => none

theorem foundAndComputed_spec {s : Speculation ScLTagePredictor} {found : Option (ScPair × Nat)}
    {computed : Option ScPair} {n : Nat}
    (h : foundAndComputed s = some (found, computed, n)) :
    ∃ x rest, s.flight = x :: rest ∧ x.speculated ≠ none ∧ x.outcome ≠ none ∧ s.predictor.cached x.pc = found ∧
      x.seen.pairOf x.pc = computed ∧ x.seen.asked.length = n := by
  unfold foundAndComputed at h
  split at h
  · next x rest hflight =>
    split at h
    · next hready =>
      simp only [Option.isSome_iff_ne_none] at hready
      simp only [Option.some.injEq, Prod.mk.injEq] at h
      exact ⟨x, rest, hflight, hready.1, hready.2, h⟩
    · cases h
  · cases h

/-- One branch, fetched and resolved. -/
theorem own_pair_iff_one : ∃ p s x rest, smallScLTage = some p ∧
    (Speculation.start p).run [.fetchBranch 0x80000000 .standard, .resolveBranch 0 false 0x80000100] = some s ∧
    s.flight = x :: rest ∧ x.speculated ≠ none ∧ s.LastIsOwn x := by
  have hrun : (smallScLTage.bind fun p =>
      ((Speculation.start p).run [.fetchBranch 0x80000000 .standard, .resolveBranch 0 false 0x80000100]).bind
          foundAndComputed) =
      some (some ((⟨.low, 1, false, true, 0⟩, 5), 0), some (⟨.low, 1, false, true, 0⟩, 5), 0) := by
    decide +kernel
  obtain ⟨p, hp, hrun⟩ := Option.bind_eq_some_iff.mp hrun
  obtain ⟨s, hs, hrun⟩ := Option.bind_eq_some_iff.mp hrun
  obtain ⟨x, rest, hflight, hspec, -, hfound, hcomputed, hn⟩ := foundAndComputed_spec hrun
  refine ⟨p, s, x, rest, hp, hs, hflight, hspec, (own_pair_iff hp hs hflight hspec).mp fun pair n hcached => ?_⟩
  rw [hfound] at hcached
  obtain ⟨rfl, rfl⟩ := Prod.mk.inj (Option.some.inj hcached)
  exact ⟨hn.symm, hcomputed⟩

/-- Three instances of a branch that is not taken: the first one commits before the
third one is fetched, and the second one commits next. -/
def threeInstances : List BruAct :=
  [.fetchBranch 0x80000000 .standard, .fetchBranch 0x80000000 .standard, .resolveBranch 0 false 0x80000100, .commit,
    .fetchBranch 0x80000000 .standard, .resolveBranch 0 false 0x80000100]

/-- **The second instance trains with the third one's pair.** Its own sum is 5, the other one -1. -/
theorem younger_pair : ∃ p s x rest pair n, smallScLTage = some p ∧ (Speculation.start p).run threeInstances = some s ∧
    s.flight = x :: rest ∧ x.speculated ≠ none ∧ x.outcome ≠ none ∧ s.predictor.cached x.pc = some (pair, n) ∧
    x.seen.pairOf x.pc ≠ some pair ∧ ¬ s.OwnPair x := by
  have hrun : (smallScLTage.bind fun p => ((Speculation.start p).run threeInstances).bind foundAndComputed) =
      some (some ((⟨.low, 1, false, true, 0⟩, -1), 2), some (⟨.low, 1, false, true, 0⟩, 5), 1) := by
    decide +kernel
  obtain ⟨p, hp, hrun⟩ := Option.bind_eq_some_iff.mp hrun
  obtain ⟨s, hs, hrun⟩ := Option.bind_eq_some_iff.mp hrun
  obtain ⟨x, rest, hflight, hspec, hout, hfound, hcomputed, hn⟩ := foundAndComputed_spec hrun
  have hne : x.seen.pairOf x.pc ≠ some (⟨.low, 1, false, true, 0⟩, -1) := by
    rw [hcomputed]
    decide
  exact ⟨p, s, x, rest, _, _, hp, hs, hflight, hspec, hout, hfound, hne, fun hown => hne (hown _ _ hfound).2⟩

end Rvsim
