/-
# The loop predictor

`bru/components/loop_predictor.rs`: a table of loop branches, each with the
iteration it is in, the trip count learned at its exits and a confidence. A
loop branch is taken `n` times and then falls through; the predictor calls the
exit one iteration early, and the sum in its test leaves 16 bits when a branch
has been taken 65535 times since its last exit.

Key definitions:
  - `LoopPredictor`, `LoopPredictor.predict`, `LoopPredictor.update`
  - `LoopTrace`: updates in which one branch loops and has its entry to itself
Key theorems:
  - `LoopPredictor.predict_loop`: every prediction made for a loop
  - `LoopPredictor.overflows_iff`, `LoopPredictor.loop_never_exact`
-/
import Rvsim.Common

namespace Rvsim

structure LoopEntry where
  tag : U16 := 0
  currentIter : U16 := 0
  /-- Iterations before the exit, as the last exits had them. -/
  tripCount : U16 := 0
  confidence : U8 := 0
  age : U8 := 0
  deriving DecidableEq, Repr, Inhabited

/-- `saturating_add(1)`. -/
def saturatingSucc {w : Nat} (x : BitVec w) : BitVec w := if x = BitVec.allOnes w then x else x + 1

/-- `saturating_add(1).min(3)`. -/
def succToThree (x : U8) : U8 := if saturatingSucc x ≤ 3 then saturatingSucc x else 3

theorem toNat_saturatingSucc {w : Nat} (x : BitVec w) : (saturatingSucc x).toNat = min (x.toNat + 1) (2 ^ w - 1) := by
  have hx := x.isLt
  unfold saturatingSucc
  split
  · next h => simp [h]
  · next h =>
    have hne : x.toNat ≠ 2 ^ w - 1 := fun hc => h (BitVec.eq_of_toNat_eq (by rw [hc, BitVec.toNat_allOnes]))
    have hone : (1 : BitVec w).toNat = 1 % 2 ^ w := BitVec.toNat_ofNat 1 w
    rw [BitVec.toNat_add, hone, Nat.add_mod_mod, Nat.mod_eq_of_lt (by omega)]
    omega

theorem toNat_succToThree (x : U8) : (succToThree x).toNat = min (x.toNat + 1) 3 := by
  have hs := toNat_saturatingSucc x
  unfold succToThree
  split
  · next h =>
    rw [BitVec.le_def, hs] at h
    change _ ≤ 3 at h
    omega
  · next h =>
    rw [BitVec.le_def, hs] at h
    change ¬ _ ≤ 3 at h
    change 3 = _
    omega

namespace LoopEntry

/-- A resolved branch whose tag the entry has. -/
def hit (e : LoopEntry) (taken : Bool) : LoopEntry :=
  if taken then
    { e with currentIter := saturatingSucc e.currentIter, age := succToThree e.age }
  else if e.tripCount = 0 then { e with tripCount := e.currentIter, confidence := 1, currentIter := 0 }
  else if e.currentIter = e.tripCount then
    { e with confidence := succToThree e.confidence, currentIter := 0 }
  else { e with tripCount := e.currentIter, confidence := 0, currentIter := 0 }

/-- A resolved branch with another tag: when taken it ages the entry, or takes it over. -/
def miss (e : LoopEntry) (tag : U16) (taken : Bool) : LoopEntry :=
  if !taken then e
  else if e.age = 0 ∨ e.tag = 0 then ⟨tag, 1, 0, 0, 1⟩
  else { e with age := e.age - 1 }

def update (e : LoopEntry) (tag : U16) (taken : Bool) : LoopEntry :=
  if e.tag = tag then e.hit taken else e.miss tag taken

theorem miss_cases (e : LoopEntry) (tag : U16) (taken : Bool) :
    e.miss tag taken = ⟨tag, 1, 0, 0, 1⟩ ∨
      ((e.miss tag taken).tag = e.tag ∧ (e.miss tag taken).currentIter = e.currentIter ∧
        (e.miss tag taken).tripCount = e.tripCount ∧ (e.miss tag taken).confidence = e.confidence) := by
  unfold miss
  split_ifs
  · exact .inr ⟨rfl, rfl, rfl, rfl⟩
  · exact .inl rfl
  · exact .inr ⟨rfl, rfl, rfl, rfl⟩

/-- The entry answers for branches of the tag. -/
def Answers (e : LoopEntry) (tag : U16) : Prop := e.tag = tag ∧ 2 ≤ e.confidence ∧ e.tripCount ≠ 0

instance (e : LoopEntry) (tag : U16) : Decidable (e.Answers tag) := inferInstanceAs (Decidable (_ ∧ _ ∧ _))

theorem Answers.taken {e : LoopEntry} {tag : U16} (h : e.Answers tag) : (e.update tag true).Answers tag := by
  rw [update, if_pos h.1, hit, if_pos rfl]
  exact h

end LoopEntry

structure LoopPredictor where
  tableSize : Nat
  table : Vector LoopEntry tableSize
  size_pos : 0 < tableSize

namespace LoopPredictor

/-- At least one entry. -/
def new (size : Nat) : LoopPredictor := ⟨max size 1, Vector.replicate _ {}, by omega⟩

def index (lp : LoopPredictor) (pc : U64) : Fin lp.tableSize :=
  ⟨(pc >>> 2).toNat % lp.tableSize, Nat.mod_lt _ lp.size_pos⟩

/-- Ten bits of the program counter. -/
def tag (pc : U64) : U16 := ((pc >>> 2) ^^^ (pc >>> 12)).setWidth 16 &&& 0x3FF

def entry (lp : LoopPredictor) (pc : U64) : LoopEntry := lp.table[lp.index pc]

/-- No answer, or whether the branch will be taken. The sum wraps where overflow is not checked. -/
def predict (lp : LoopPredictor) (pc : U64) : Option Bool :=
  let e := lp.entry pc
  if e.Answers (tag pc) then some (!decide (e.currentIter + 1 ≥ e.tripCount)) else none

/-- `predict` adds one to the largest 16-bit number. -/
def PredictOverflows (lp : LoopPredictor) (pc : U64) : Prop :=
  (lp.entry pc).Answers (tag pc) ∧ 2 ^ 16 ≤ (lp.entry pc).currentIter.toNat + 1

instance (lp : LoopPredictor) (pc : U64) : Decidable (lp.PredictOverflows pc) := inferInstanceAs (Decidable (_ ∧ _))

def update (lp : LoopPredictor) (pc : U64) (taken : Bool) : LoopPredictor :=
  { lp with table := lp.table.set (lp.index pc) ((lp.entry pc).update (tag pc) taken) }

/-- Resolved branches in order. -/
def updates (lp : LoopPredictor) (us : List (U64 × Bool)) : LoopPredictor :=
  us.foldl (fun lp u => lp.update u.1 u.2) lp

/-! ### An entry through the updates -/

variable {lp : LoopPredictor} {us : List (U64 × Bool)} {pc : U64}

@[simp] theorem tableSize_update (lp : LoopPredictor) (pc : U64) (taken : Bool) :
    (lp.update pc taken).tableSize = lp.tableSize := rfl

@[simp] theorem updates_nil (lp : LoopPredictor) : lp.updates [] = lp := rfl

@[simp] theorem updates_snoc (lp : LoopPredictor) (us : List (U64 × Bool)) (pc : U64) (taken : Bool) :
    lp.updates (us ++ [(pc, taken)]) = (lp.updates us).update pc taken := by
  simp [updates]

@[simp] theorem tableSize_updates (lp : LoopPredictor) (us : List (U64 × Bool)) :
    (lp.updates us).tableSize = lp.tableSize := by
  induction us using List.reverseRecOn with
  | nil => rfl
  | append_singleton us u ih => rw [updates_snoc, tableSize_update, ih]

/-- Two branches share an entry. -/
def SameSlot (size : Nat) (pc pc' : U64) : Prop := (pc >>> 2).toNat % size = (pc' >>> 2).toNat % size

instance (size : Nat) (pc pc' : U64) : Decidable (SameSlot size pc pc') := inferInstanceAs (Decidable (_ = _))

theorem SameSlot.refl (size : Nat) (pc : U64) : SameSlot size pc pc := rfl

theorem entry_new (size : Nat) (pc : U64) : (new size).entry pc = {} := Vector.getElem_replicate _

theorem entry_update (lp : LoopPredictor) (pc pc' : U64) (taken : Bool) :
    (lp.update pc' taken).entry pc =
      if SameSlot lp.tableSize pc' pc then (lp.entry pc).update (tag pc') taken else lp.entry pc := by
  change (lp.table.set (lp.index pc') ((lp.entry pc').update (tag pc') taken))[(lp.index pc).val] = _
  rw [Vector.getElem_set]
  by_cases h : SameSlot lp.tableSize pc' pc
  · have hi : lp.index pc' = lp.index pc := Fin.ext h
    have he : lp.entry pc' = lp.entry pc := congrArg (fun i : Fin lp.tableSize => lp.table[i]) hi
    rw [if_pos h, if_pos (congrArg Fin.val hi), he]
  · rw [if_neg h]
    exact if_neg h

end LoopPredictor

/-! ### A loop -/

/-- The outcomes of the branch among the updates. -/
def outcomesOf (pc : U64) (us : List (U64 × Bool)) : List Bool := (us.filter fun u => u.1 = pc).map Prod.snd

/-- Outcome `t` of a loop branch with trip count `n`: taken `n` times, then not. -/
def loopOutcome (n t : Nat) : Bool := decide (t % (n + 1) < n)

/-- The branch loops with trip count `n`, and no other branch of the run maps to its entry. -/
structure LoopTrace (size : Nat) (pc : U64) (n : Nat) (us : List (U64 × Bool)) : Prop where
  alone : ∀ u ∈ us, LoopPredictor.SameSlot (max size 1) u.1 pc → u.1 = pc
  outcomes : outcomesOf pc us = (List.range (outcomesOf pc us).length).map (loopOutcome n)

namespace LoopTrace

variable {size n : Nat} {pc : U64} {us : List (U64 × Bool)} {u : U64 × Bool}

theorem outcomesOf_snoc (pc : U64) (us : List (U64 × Bool)) (u : U64 × Bool) :
    outcomesOf pc (us ++ [u]) = outcomesOf pc us ++ if u.1 = pc then [u.2] else [] := by
  by_cases h : u.1 = pc
  · simp [outcomesOf, h]
  · simp [outcomesOf, h]

/-- Before the last update the branch looped as well, and an update of its own is the next outcome. -/
theorem snoc (h : LoopTrace size pc n (us ++ [u])) :
    LoopTrace size pc n us ∧ (u.1 = pc → u.2 = loopOutcome n (outcomesOf pc us).length) := by
  have hout := h.outcomes
  rw [outcomesOf_snoc] at hout
  have hearly : ∀ v ∈ us, LoopPredictor.SameSlot (max size 1) v.1 pc → v.1 = pc :=
    fun v hv => h.alone v (List.mem_append_left _ hv)
  by_cases hu : u.1 = pc
  · rw [if_pos hu, List.length_append, List.length_singleton, List.range_succ, List.map_append] at hout
    obtain ⟨hfst, hsnd⟩ := List.append_inj hout (by simp)
    exact ⟨⟨hearly, hfst⟩, fun _ => by simpa using hsnd⟩
  · rw [if_neg hu, List.append_nil] at hout
    exact ⟨⟨hearly, hout⟩, fun hc => absurd hc hu⟩

end LoopTrace

/-- The entry of a loop branch after `t` of its outcomes. -/
structure InLoop (tag : U16) (n t : Nat) (e : LoopEntry) : Prop where
  tag_eq : e.tag = tag ∨ t = 0 ∧ e.age = 0
  iter : e.currentIter.toNat = t % (n + 1)
  trip : e.tripCount.toNat = if t / (n + 1) = 0 then 0 else n
  conf : e.confidence.toNat = min (t / (n + 1)) 3

namespace InLoop

variable {tag : U16} {n t : Nat} {e : LoopEntry}

theorem init (tag : U16) (n : Nat) : InLoop tag n 0 {} := ⟨.inr ⟨rfl, rfl⟩, by simp, by simp, by simp⟩

/-- The position in the loop after one more outcome. -/
theorem mod_succ (t n : Nat) : (t + 1) % (n + 1) = if t % (n + 1) = n then 0 else t % (n + 1) + 1 := by
  have hlt : t % (n + 1) < n + 1 := Nat.mod_lt t (Nat.succ_pos n)
  rw [Nat.add_mod]
  split
  · next h =>
    rcases Nat.eq_zero_or_pos n with rfl | hn
    · simp [Nat.mod_one]
    · rw [h, Nat.mod_eq_of_lt (show 1 < n + 1 by omega), Nat.mod_self]
  · next h =>
    rcases Nat.eq_zero_or_pos n with rfl | hn
    · omega
    · rw [Nat.mod_eq_of_lt (show 1 < n + 1 by omega), Nat.mod_eq_of_lt (by omega)]

/-- The passes completed after one more outcome. -/
theorem div_succ (t n : Nat) : (t + 1) / (n + 1) = if t % (n + 1) = n then t / (n + 1) + 1 else t / (n + 1) := by
  have h := Nat.div_add_mod t (n + 1)
  have h' := Nat.div_add_mod (t + 1) (n + 1)
  rw [mod_succ] at h'
  have hpos : 0 < n + 1 := Nat.succ_pos n
  split at h'
  · next hn =>
    rw [if_pos hn]
    apply Nat.eq_of_mul_eq_mul_left hpos
    rw [Nat.mul_add]
    omega
  · next hn =>
    rw [if_neg hn]
    apply Nat.eq_of_mul_eq_mul_left hpos
    omega

/-- One outcome: in the loop the iteration grows, at its end the count is confirmed. -/
theorem step (h : InLoop tag n t e) (hn : 1 ≤ n) (hn' : n ≤ 65534) :
    InLoop tag n (t + 1) (e.update tag (loopOutcome n t)) := by
  have hlt : t % (n + 1) < n + 1 := Nat.mod_lt t (Nat.succ_pos n)
  have hmod := mod_succ t n
  have hdiv := div_succ t n
  obtain ⟨htag, hiter, htrip, hconf⟩ := h
  by_cases hend : t % (n + 1) = n
  · -- the exit
    have hout : loopOutcome n t = false := by simp [loopOutcome, hend]
    have ht0 : t ≠ 0 := by
      rintro rfl
      rw [Nat.zero_mod] at hend
      omega
    have htag' : e.tag = tag := htag.resolve_right fun hc => ht0 hc.1
    rw [if_pos hend] at hmod hdiv
    rw [hout, LoopEntry.update, if_pos htag', LoopEntry.hit, if_neg Bool.false_ne_true]
    by_cases hfirst : t / (n + 1) = 0
    · -- the first one, which the trip count is learned from
      rw [if_pos hfirst] at htrip
      have hz : e.tripCount = 0 := BitVec.eq_of_toNat_eq htrip
      rw [if_pos hz]
      refine ⟨.inl htag', ?_, ?_, ?_⟩
      · rw [hmod]; rfl
      · rw [hdiv, if_neg (by omega)]
        exact hiter.trans hend
      · rw [hdiv, hfirst]; rfl
    · rw [if_neg hfirst] at htrip
      have hz : e.tripCount ≠ 0 := fun hc => by
        rw [hc] at htrip
        simp at htrip
        omega
      have hsame : e.currentIter = e.tripCount := BitVec.eq_of_toNat_eq (by rw [hiter, hend, htrip])
      rw [if_neg hz, if_pos hsame]
      refine ⟨.inl htag', ?_, ?_, ?_⟩
      · rw [hmod]; rfl
      · rw [hdiv, if_neg (by omega)]
        exact htrip
      · rw [hdiv]
        change (succToThree e.confidence).toNat = _
        rw [toNat_succToThree, hconf]
        omega
  · -- in the loop
    have hout : loopOutcome n t = true := by
      simp only [loopOutcome, decide_eq_true_eq]
      omega
    rw [if_neg hend] at hmod hdiv
    rw [hout, LoopEntry.update]
    by_cases htag' : e.tag = tag
    · rw [if_pos htag', LoopEntry.hit, if_pos rfl]
      refine ⟨.inl htag', ?_, ?_, ?_⟩
      · show (saturatingSucc e.currentIter).toNat = _
        rw [toNat_saturatingSucc, hiter, hmod]
        exact Nat.min_eq_left (by omega)
      · rw [hdiv]
        exact htrip
      · rw [hdiv]
        exact hconf
    · -- the first outcome takes the entry
      obtain ⟨rfl, hage⟩ := htag.resolve_left htag'
      rw [if_neg htag', LoopEntry.miss, if_neg (by simp), if_pos (.inl hage)]
      refine ⟨.inl rfl, ?_, ?_, ?_⟩
      · rw [hmod]; simp
      · rw [hdiv, if_pos (by simp)]; rfl
      · rw [hdiv]; simp

end InLoop

namespace LoopPredictor

variable {size n : Nat} {pc : U64} {us : List (U64 × Bool)}

theorem entry_inLoop (h : LoopTrace size pc n us) (hn : 1 ≤ n) (hn' : n ≤ 65534) :
    InLoop (tag pc) n (outcomesOf pc us).length (((new size).updates us).entry pc) := by
  induction us using List.reverseRecOn with
  | nil =>
    rw [updates_nil, entry_new]
    exact .init _ _
  | append_singleton us u ih =>
    obtain ⟨u, taken⟩ := u
    obtain ⟨hpre, hnext⟩ := h.snoc
    rw [updates_snoc, entry_update, tableSize_updates, LoopTrace.outcomesOf_snoc]
    by_cases hs : SameSlot (new size).tableSize u pc
    · obtain rfl : u = pc := h.alone (u, taken) (by simp) hs
      rw [if_pos hs, if_pos rfl, show taken = _ from hnext rfl, List.length_append]
      exact (ih hpre).step hn hn'
    · have hne : u ≠ pc := fun hc => hs (by rw [hc]; rfl)
      rw [if_neg hs, if_neg hne, List.append_nil]
      exact ih hpre

/-- **The predictions for a loop.** None in the first two passes; from then on "taken" as long as at
least two taken outcomes of the pass are left. -/
theorem predict_loop (h : LoopTrace size pc n us) (hn : 1 ≤ n) (hn' : n ≤ 65534) :
    ((new size).updates us).predict pc =
      if 2 ≤ (outcomesOf pc us).length / (n + 1) then
        some (decide ((outcomesOf pc us).length % (n + 1) + 1 < n))
      else none := by
  obtain ⟨htag, hiter, htrip, hconf⟩ := entry_inLoop h hn hn'
  have hpredict : ((new size).updates us).predict pc =
      if (((new size).updates us).entry pc).Answers (tag pc) then
        some (!decide ((((new size).updates us).entry pc).currentIter + 1 ≥
            (((new size).updates us).entry pc).tripCount))
      else none := rfl
  rw [hpredict]
  clear hpredict
  generalize ((new size).updates us).entry pc = e at htag hiter htrip hconf ⊢
  generalize (outcomesOf pc us).length = t at htag hiter htrip hconf ⊢
  have hlt : t % (n + 1) < n + 1 := Nat.mod_lt t (Nat.succ_pos n)
  by_cases hpass : 2 ≤ t / (n + 1)
  · rw [if_neg (by omega)] at htrip
    have ht : t ≠ 0 := by
      rintro rfl
      rw [Nat.zero_div] at hpass
      omega
    have hans : e.Answers (tag pc) := by
      refine ⟨htag.resolve_right fun hc => ht hc.1, ?_, fun hc => ?_⟩
      · rw [BitVec.le_def, hconf]
        exact le_min hpass (by decide)
      · rw [hc] at htrip
        exact absurd htrip (by simp; omega)
    have hsum : (e.currentIter + 1).toNat = t % (n + 1) + 1 := by
      have hone : (1 : U16).toNat = 1 := rfl
      rw [BitVec.toNat_add, hiter, hone]
      exact Nat.mod_eq_of_lt (by omega)
    have hcmp : e.currentIter + 1 ≥ e.tripCount ↔ ¬ t % (n + 1) + 1 < n := by
      rw [ge_iff_le, BitVec.le_def, hsum, htrip]
      omega
    rw [if_pos hans, if_pos hpass]
    simp only [hcmp, decide_not, Bool.not_not]
  · have hno : ¬ e.Answers (tag pc) := by
      rintro ⟨-, hc, -⟩
      rw [BitVec.le_def, hconf] at hc
      exact hpass (le_trans hc (min_le_left _ _))
    rw [if_neg hno, if_neg hpass]

/-! ### The sum in `predict` -/

/-- How often the branches of the entry and tag have been taken since the last that was not. -/
def streak (size : Nat) (pc : U64) (us : List (U64 × Bool)) : Nat :=
  ((us.filter fun u => SameSlot size u.1 pc ∧ tag u.1 = tag pc).reverse.takeWhile Prod.snd).length

theorem streak_snoc (size : Nat) (pc pc' : U64) (us : List (U64 × Bool)) (taken : Bool) :
    streak size pc (us ++ [(pc', taken)]) =
      if SameSlot size pc' pc ∧ tag pc' = tag pc then if taken then streak size pc us + 1 else 0
      else streak size pc us := by
  unfold streak
  rw [List.filter_append]
  by_cases h : SameSlot size pc' pc ∧ tag pc' = tag pc
  · cases taken with
    | true => simp [h]
    | false => simp [h]
  · simp [h]

/-- One update of the entry. Where it has seen an exit, it counts the streak. -/
theorem currentIter_step {e : LoopEntry} {u : U64} {m : Nat} (taken : Bool)
    (htag : (e.update (tag u) taken).tag = tag pc)
    (hexit : (e.update (tag u) taken).tripCount ≠ 0 ∨ (e.update (tag u) taken).confidence ≠ 0)
    (ih : e.tag = tag pc → e.tripCount ≠ 0 ∨ e.confidence ≠ 0 → e.currentIter.toNat = min m 65535)
    (hs : SameSlot size u pc) :
    (e.update (tag u) taken).currentIter.toNat =
      min (if SameSlot size u pc ∧ tag u = tag pc then if taken then m + 1 else 0 else m) 65535 := by
  by_cases hu : e.tag = tag u
  · rw [LoopEntry.update, if_pos hu] at htag hexit ⊢
    have hkeep : (e.hit taken).tag = e.tag := by
      unfold LoopEntry.hit
      split_ifs
      all_goals rfl
    have hpc : tag u = tag pc := hu.symm.trans (hkeep.symm.trans htag)
    rw [if_pos ⟨hs, hpc⟩]
    cases taken with
    | true =>
      have := ih (hkeep.symm.trans htag) hexit
      change (saturatingSucc e.currentIter).toNat = _
      rw [toNat_saturatingSucc, this, if_pos rfl]
      omega
    | false =>
      rw [LoopEntry.hit, if_neg Bool.false_ne_true, if_neg Bool.false_ne_true]
      split_ifs
      all_goals rfl
  · rw [LoopEntry.update, if_neg hu] at htag hexit ⊢
    rcases e.miss_cases (tag u) taken with hnew | ⟨h1, h2, h3, h4⟩
    · rw [hnew] at hexit
      simp at hexit
    · rw [h1] at htag
      rw [h3, h4] at hexit
      rw [h2, if_neg fun hc => hu (htag.trans hc.2.symm)]
      exact ih htag hexit

/-- Past its first exit an entry counts the streak of its branches. -/
theorem currentIter_eq (size : Nat) (us : List (U64 × Bool)) (pc : U64)
    (htag : (((new size).updates us).entry pc).tag = tag pc)
    (hexit : (((new size).updates us).entry pc).tripCount ≠ 0 ∨ (((new size).updates us).entry pc).confidence ≠ 0) :
    (((new size).updates us).entry pc).currentIter.toNat = min (streak (max size 1) pc us) 65535 := by
  induction us using List.reverseRecOn with
  | nil =>
    rw [updates_nil, entry_new] at hexit
    simp at hexit
  | append_singleton us u ih =>
    obtain ⟨u, taken⟩ := u
    rw [updates_snoc, entry_update, tableSize_updates] at htag hexit ⊢
    rw [streak_snoc]
    generalize ((new size).updates us).entry pc = e at htag hexit ih ⊢
    by_cases hs : SameSlot (new size).tableSize u pc
    · rw [if_pos hs] at htag hexit ⊢
      have hs' : SameSlot (max size 1) u pc := hs
      exact currentIter_step _ htag hexit ih hs'
    · rw [if_neg hs] at htag hexit ⊢
      rw [if_neg fun hc => hs hc.1]
      exact ih htag hexit

/-- **When the sum in `predict` overflows.** The branch is answered for and has been taken 65535 times
in a row. -/
theorem overflows_iff (size : Nat) (us : List (U64 × Bool)) (pc : U64) :
    ((new size).updates us).PredictOverflows pc ↔
      (((new size).updates us).entry pc).Answers (tag pc) ∧ 65535 ≤ streak (max size 1) pc us := by
  unfold PredictOverflows
  refine and_congr_right fun ⟨htag, _, htrip⟩ => ?_
  rw [currentIter_eq size us pc htag (.inl htrip)]
  omega

/-- The branch goes on and is taken every time. -/
theorem taken_on (size m : Nat) (pc : U64) (us : List (U64 × Bool))
    (h : (((new size).updates us).entry pc).Answers (tag pc)) :
    (((new size).updates (us ++ List.replicate m (pc, true))).entry pc).Answers (tag pc) ∧
      streak (max size 1) pc (us ++ List.replicate m (pc, true)) = streak (max size 1) pc us + m := by
  induction m with
  | zero => exact ⟨by simpa using h, by simp⟩
  | succ m ih =>
    rw [List.replicate_succ', ← List.append_assoc, updates_snoc, entry_update, if_pos (.refl _ _), streak_snoc,
      if_pos ⟨.refl _ _, rfl⟩, if_pos rfl, ih.2]
    exact ⟨ih.1.taken, by omega⟩

/-! ### What is predicted, against what happens -/

/-- Every prediction for the loop is its next outcome, in every run in which the branch has its entry to itself. -/
def PredictsExactly (size : Nat) (pc : U64) (n : Nat) : Prop :=
  ∀ us b, LoopTrace size pc n us → ((new size).updates us).predict pc = some b →
    b = loopOutcome n (outcomesOf pc us).length

/-- The first outcomes of the loop, and nothing else. -/
def loopUpdates (pc : U64) (n m : Nat) : List (U64 × Bool) := (List.range m).map fun t => (pc, loopOutcome n t)

theorem outcomesOf_loopUpdates (pc : U64) (n m : Nat) :
    outcomesOf pc (loopUpdates pc n m) = (List.range m).map (loopOutcome n) := by
  unfold outcomesOf loopUpdates
  rw [List.filter_eq_self.mpr, List.map_map]
  · rfl
  · intro u hu
    obtain ⟨t, -, rfl⟩ := List.mem_map.mp hu
    simp

theorem loopTrace_loopUpdates (size : Nat) (pc : U64) (n m : Nat) : LoopTrace size pc n (loopUpdates pc n m) where
  alone := by
    intro u hu _
    obtain ⟨t, -, rfl⟩ := List.mem_map.mp hu
    rfl
  outcomes := by simp [outcomesOf_loopUpdates]

/-- The prediction is right unless exactly one taken outcome of the pass is left. -/
theorem predict_right_iff {b : Bool} (h : LoopTrace size pc n us) (hn : 1 ≤ n) (hn' : n ≤ 65534)
    (hb : ((new size).updates us).predict pc = some b) :
    b = loopOutcome n (outcomesOf pc us).length ↔ (outcomesOf pc us).length % (n + 1) + 1 ≠ n := by
  rw [predict_loop h hn hn'] at hb
  split at hb
  · obtain rfl := Option.some.inj hb
    rw [loopOutcome, decide_eq_decide]
    omega
  · cases hb

/-- **A counted loop is never predicted exactly**, whatever its trip count: each pass the predictor knows
the count of has one wrong prediction, that of its last taken outcome; the others are right. The sum in
`predict` overflows exactly when the branch it answers for has been taken 65535 times in a row. -/
theorem loop_never_exact (size : Nat) (pc : U64) (n : Nat) (hn : 1 ≤ n) (hn' : n ≤ 65534) :
    ¬ PredictsExactly size pc n ∧
      (∀ us b, LoopTrace size pc n us → ((new size).updates us).predict pc = some b →
        (b = loopOutcome n (outcomesOf pc us).length ↔ (outcomesOf pc us).length % (n + 1) + 1 ≠ n)) ∧
      ∀ us, ((new size).updates us).PredictOverflows pc ↔
        (((new size).updates us).entry pc).Answers (tag pc) ∧ 65535 ≤ streak (max size 1) pc us := by
  refine ⟨fun hexact => ?_, fun us b h hb => predict_right_iff h hn hn' hb, fun us => overflows_iff size us pc⟩
  -- two passes, and all taken outcomes of the third but one
  have htrace := loopTrace_loopUpdates size pc n (2 * (n + 1) + (n - 1))
  have hlen : (outcomesOf pc (loopUpdates pc n (2 * (n + 1) + (n - 1)))).length = 2 * (n + 1) + (n - 1) := by
    simp [outcomesOf_loopUpdates]
  have hdiv : (2 * (n + 1) + (n - 1)) / (n + 1) = 2 := by
    rw [Nat.mul_comm, Nat.mul_add_div (Nat.succ_pos n), Nat.div_eq_of_lt (by omega)]
  have hmod : (2 * (n + 1) + (n - 1)) % (n + 1) = n - 1 := by
    rw [Nat.mul_comm, Nat.mul_add_mod, Nat.mod_eq_of_lt (by omega)]
  have hb := predict_loop htrace hn hn'
  rw [hlen, hdiv, if_pos le_rfl] at hb
  have hright := (predict_right_iff htrace hn hn' hb).mp (hexact _ _ htrace hb)
  rw [hlen, hmod] at hright
  omega

theorem loop_never_exact_five : 1 ≤ 5 ∧ 5 ≤ 65534 ∧ ¬ PredictsExactly 64 0x80001000 5 :=
  ⟨by decide, by decide, (loop_never_exact 64 0x80001000 5 (by decide) (by decide)).1⟩

/-- A loop of five in a table of 64, after two passes and four more iterations; and a branch that is
taken 65535 times in a row after two exits. -/
theorem loopPredictor_wrong :
    (((new 64).updates (loopUpdates 0x80001000 5 16)).predict 0x80001000 = some false ∧
      loopOutcome 5 (outcomesOf 0x80001000 (loopUpdates 0x80001000 5 16)).length = true ∧
      LoopTrace 64 0x80001000 5 (loopUpdates 0x80001000 5 16)) ∧
      ((new 64).updates (loopUpdates 0x80001000 1 4 ++ List.replicate 65535 (0x80001000, true))).PredictOverflows
        0x80001000 := by
  refine ⟨⟨by decide, by decide, loopTrace_loopUpdates _ _ _ _⟩, ?_⟩
  obtain ⟨hanswers, hstreak⟩ := taken_on 64 65535 0x80001000 (loopUpdates 0x80001000 1 4) (by decide)
  exact (overflows_iff _ _ _).mpr ⟨hanswers, by rw [hstreak]; exact Nat.le_add_left _ _⟩

end LoopPredictor

end Rvsim
