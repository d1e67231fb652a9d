/-
# Predictors with one history register

`predictors/gshare.rs`, `predictors/tournament.rs` and `predictors/perceptron.rs`.
Each finds its tables' entries with one history register, which fetch
speculates on. `update_branch` finds them with the register as it is when the
branch commits and shifts the outcome in once more.

The threshold of the perceptron is a floating-point product in the source and a
parameter here; the return address stack is left out.

Key definitions:
  - `GSharePredictor`, `TournamentPredictor`, `PerceptronPredictor`
  - `HistoryIndexed`, `Speculation.Right`, `Speculation.Trained`, `Speculation.quiet`
Key theorems:
  - `Speculation.quiet_inv`
  - `history_trained`
-/
import Rvsim.BranchFlight

namespace Rvsim

open BranchPredictor

/-- The history with one more outcome. -/
def shiftHistory (mask ghr : U64) (taken : Bool) : U64 := ((ghr <<< 1) ||| (if taken then 1 else 0)) &&& mask

/-- A two-bit counter moves toward the outcome. -/
def count2 (c : U8) (taken : Bool) : U8 :=
  if taken then if c < 3 then c + 1 else c else if c > 0 then c - 1 else c

/-! ### GShare -/

namespace GSharePredictor

def tableBits : Nat := 12

def tableSize : Nat := 1 <<< tableBits

def tableMask : U64 := BitVec.ofNat 64 tableSize - 1

end GSharePredictor

structure GSharePredictor where
  ghr : U64
  pht : List U8
  btb : Btb

namespace GSharePredictor

def new (btbSize btbWays : Nat) : GSharePredictor :=
  { ghr := 0, pht := List.replicate tableSize 1, btb := .new btbSize btbWays }

def index (p : GSharePredictor) (pc : U64) : Nat :=
  let pcPart := (pc >>> 2) &&& tableMask
  let ghrPart := p.ghr &&& tableMask
  (pcPart ^^^ ghrPart).toNat

def predictBranch (p : GSharePredictor) (pc : U64) : Bool × Option U64 :=
  let counter := p.pht.getD (p.index pc) 0
  let taken := decide (counter ≥ 2)
  if taken then (true, p.btb.lookup pc) else (false, none)

def updateBranch (p : GSharePredictor) (pc : U64) (taken : Bool) (target : Option U64) (_ghrSnapshot : Ghr) :
    GSharePredictor :=
  let idx := p.index pc
  let counter := p.pht.getD idx 0
  { ghr := shiftHistory tableMask p.ghr taken
    pht := p.pht.set idx (count2 counter taken)
    btb := (target.map (p.btb.update pc)).getD p.btb }

instance : BranchPredictor GSharePredictor where
  predictBranch p pc := (p.predictBranch pc, p)
  updateBranch := updateBranch
  predictBtb p pc := p.btb.lookup pc
  onCall p pc target := { p with btb := p.btb.update pc target }
  speculate p _ taken := { p with ghr := shiftHistory tableMask p.ghr taken }
  snapshotHistory p := .new p.ghr
  repairHistory p ghr := { p with ghr := ghr.val }
  updateBtb p pc target := { p with btb := p.btb.update pc target }

end GSharePredictor

/-! ### Tournament -/

structure TournamentConfig where
  globalSizeBits : Nat
  localHistBits : Nat
  localPredBits : Nat

structure TournamentPredictor where
  btb : Btb
  ghr : U64
  globalPht : List U8
  globalMask : U64
  localHistoryTable : List U16
  localHistMask : U64
  localPht : List U8
  localPredMask : U64
  /-- Local below 2, global from 2. -/
  choicePht : List U8

namespace TournamentPredictor

def new (config : TournamentConfig) (btbSize btbWays : Nat) : TournamentPredictor :=
  let globalSize := 1 <<< config.globalSizeBits
  let localHistSize := 1 <<< config.localHistBits
  let localPredSize := 1 <<< config.localPredBits
  { btb := .new btbSize btbWays
    ghr := 0
    globalPht := List.replicate globalSize 1
    globalMask := BitVec.ofNat 64 globalSize - 1
    localHistoryTable := List.replicate localHistSize 0
    localHistMask := BitVec.ofNat 64 localHistSize - 1
    localPht := List.replicate localPredSize 1
    localPredMask := BitVec.ofNat 64 localPredSize - 1
    choicePht := List.replicate globalSize 1 }

/-- The index into the global and the choice table. -/
def globalIdx (p : TournamentPredictor) (pc : U64) : Nat := ((p.ghr ^^^ pc) &&& p.globalMask).toNat

def localHistIdx (p : TournamentPredictor) (pc : U64) : Nat := (pc &&& p.localHistMask).toNat

/-- The local history of the branch. -/
def pattern (p : TournamentPredictor) (pc : U64) : U16 := p.localHistoryTable.getD (p.localHistIdx pc) 0

def predIdx (p : TournamentPredictor) (pc : U64) : Nat := ((p.pattern pc).setWidth 64 &&& p.localPredMask).toNat

def getGlobalPrediction (p : TournamentPredictor) (idx : Nat) : Bool := decide (p.globalPht.getD idx 0 ≥ 2)

def getLocalPrediction (p : TournamentPredictor) (pc : U64) : Bool := decide (p.localPht.getD (p.predIdx pc) 0 ≥ 2)

def predictBranch (p : TournamentPredictor) (pc : U64) : Bool × Option U64 :=
  let gIdx := p.globalIdx pc
  let globalTaken := p.getGlobalPrediction gIdx
  let localTaken := p.getLocalPrediction pc
  let useGlobal := decide (p.choicePht.getD gIdx 0 ≥ 2)
  let taken := if useGlobal then globalTaken else localTaken
  if taken then (true, p.btb.lookup pc) else (false, none)

def updateBranch (p : TournamentPredictor) (pc : U64) (taken : Bool) (target : Option U64) (_ghrSnapshot : Ghr) :
    TournamentPredictor :=
  let gIdx := p.globalIdx pc
  let globalCorrect := p.getGlobalPrediction gIdx == taken
  let localCorrect := p.getLocalPrediction pc == taken
  let choice := p.choicePht.getD gIdx 0
  let lhIdx := p.localHistIdx pc
  let pattern := p.pattern pc
  let predIdx := p.predIdx pc
  { p with
    choicePht := if globalCorrect ≠ localCorrect then
        p.choicePht.set gIdx (count2 choice globalCorrect) else p.choicePht
    globalPht := p.globalPht.set gIdx (count2 (p.globalPht.getD gIdx 0) taken)
    ghr := shiftHistory p.globalMask p.ghr taken
    localPht := p.localPht.set predIdx (count2 (p.localPht.getD predIdx 0) taken)
    localHistoryTable :=
      p.localHistoryTable.set lhIdx (((pattern <<< 1) ||| (if taken then 1 else 0)) &&& p.localPredMask.setWidth 16)
    btb := (target.map (p.btb.update pc)).getD p.btb }

instance : BranchPredictor TournamentPredictor where
  predictBranch p pc := (p.predictBranch pc, p)
  updateBranch := updateBranch
  predictBtb p pc := p.btb.lookup pc
  onCall p pc target := { p with btb := p.btb.update pc target }
  speculate p _ taken := { p with ghr := shiftHistory p.globalMask p.ghr taken }
  snapshotHistory p := .new p.ghr
  repairHistory p ghr := { p with ghr := ghr.val }
  updateBtb p pc target := { p with btb := p.btb.update pc target }

end TournamentPredictor

/-! ### Perceptron -/

structure PerceptronConfig where
  historyLength : Nat
  tableBits : Nat

structure PerceptronPredictor where
  ghr : U64
  /-- The rows of weights, one after the other. -/
  table : List Int
  historyLength : Nat
  tableMask : U64
  /-- The bias and one weight for each outcome of the history. -/
  rowSize : Nat
  threshold : Int
  btb : Btb
  rowSize_eq : rowSize = historyLength + 1

namespace PerceptronPredictor

def new (threshold : Nat → Int) (config : PerceptronConfig) (btbSize btbWays : Nat) : PerceptronPredictor :=
  let tableEntries := 1 <<< config.tableBits
  let histLen := config.historyLength
  let rowSize := histLen + 1
  { ghr := 0
    table := List.replicate (tableEntries * rowSize) 0
    historyLength := histLen
    tableMask := BitVec.ofNat 64 tableEntries - 1
    rowSize := rowSize
    threshold := threshold histLen
    btb := .new btbSize btbWays
    rowSize_eq := rfl }

/-- A shift takes its amount modulo 64. -/
def historyMask (p : PerceptronPredictor) : U64 := ((1 : U64) <<< (p.historyLength % 64)) - 1

def index (p : PerceptronPredictor) (pc : U64) : Nat :=
  let pcIdx := (pc >>> 2) &&& p.tableMask
  let histIdx := p.ghr &&& p.tableMask
  (pcIdx ^^^ histIdx).toNat

/-- The outcome `i` places back, as a sign. -/
def sign (p : PerceptronPredictor) (i : Nat) : Int := if (p.ghr >>> (i % 64)) &&& 1 ≠ 0 then 1 else -1

def output (p : PerceptronPredictor) (rowIdx : Nat) : Int :=
  let base := rowIdx * p.rowSize
  (List.range p.historyLength).foldl (fun y i => y + p.table.getD (base + 1 + i) 0 * p.sign i) (p.table.getD base 0)

def clampWeight (v : Int) : Int := if v > 127 then 127 else if v < -128 then -128 else v

def predictBranch (p : PerceptronPredictor) (pc : U64) : Bool × Option U64 :=
  let y := p.output (p.index pc)
  let taken := decide (y ≥ 0)
  if taken then (true, p.btb.lookup pc) else (false, none)

/-- The row's weights move toward the outcome. -/
def train (p : PerceptronPredictor) (idx : Nat) (t : Int) : List Int :=
  let base := idx * p.rowSize
  (List.range p.historyLength).foldl
    (fun table i => table.set (base + 1 + i) (clampWeight (table.getD (base + 1 + i) 0 + t * p.sign i)))
    (p.table.set base (clampWeight (p.table.getD base 0 + t)))

def updateBranch (p : PerceptronPredictor) (pc : U64) (taken : Bool) (target : Option U64) (_ghrSnapshot : Ghr) :
    PerceptronPredictor :=
  let idx := p.index pc
  let y := p.output idx
  let t := if taken then 1 else -1
  { p with
    table := if |y| ≤ p.threshold ∨ decide (y ≥ 0) ≠ taken then p.train idx t else p.table
    ghr := shiftHistory p.historyMask p.ghr taken
    btb := (target.map (p.btb.update pc)).getD p.btb }

instance : BranchPredictor PerceptronPredictor where
  predictBranch p pc := (p.predictBranch pc, p)
  updateBranch := updateBranch
  predictBtb p pc := p.btb.lookup pc
  onCall p pc target := { p with btb := p.btb.update pc target }
  speculate p _ taken := { p with ghr := shiftHistory p.historyMask p.ghr taken }
  snapshotHistory p := .new p.ghr
  repairHistory p ghr := { p with ghr := ghr.val }
  updateBtb p pc target := { p with btb := p.btb.update pc target }

end PerceptronPredictor

/-! ### What the three have in common -/

/-- A predictor with one history register. `slots` are the entries of its tables
that it finds for a branch; in a calm state no table adds a history of its own to
the register. -/
class HistoryIndexed (P : Type) extends BranchPredictor P where
  Shape : Type
  shape : P → Shape
  mask : Shape → U64
  history : P → U64
  Slot : Type
  Val : Type
  slots : P → U64 → List Slot
  value : P → Slot → Val
  Calm : P → Prop

namespace HistoryIndexed

variable {P : Type} [HistoryIndexed P]

/-- The second state has the shape of the first, this history, and is as calm. -/
structure Follows (p q : P) (ghr : U64) : Prop where
  history : history q = ghr
  shape : shape q = shape p
  calm : Calm p → Calm q

def push (p : P) (taken : Bool) : U64 := shiftHistory (mask (shape p)) (history p) taken

/-- The same register, tables of the same sizes and no other history. -/
structure Alike (p q : P) : Prop where
  shape : shape p = shape q
  history : history p = history q
  calm : Calm p
  calm' : Calm q

end HistoryIndexed

open HistoryIndexed

class LawfulHistory (P : Type) [HistoryIndexed P] : Prop where
  /-- The direction is what the slots say. -/
  predict_congr : ∀ (p q : P) (pc : U64), Alike p q → (∀ i ∈ slots p pc, value p i = value q i) →
    (predictBranch p pc).1.1 = (predictBranch q pc).1.1
  /-- The update trains the slots it finds and no other. -/
  update_frame : ∀ (p : P) (pc : U64) (taken : Bool) (target : Option U64) (g : Ghr) (i : Slot P), i ∉ slots p pc →
    value (updateBranch p pc taken target g) i = value p i
  slots_congr : ∀ (p q : P) (pc : U64), Alike p q → slots p pc = slots q pc
  predict_state : ∀ (p : P) (pc : U64), (predictBranch p pc).2 = p
  snapshot_val : ∀ p : P, (snapshotHistory p).val = history p
  speculate : ∀ (p : P) (pc : U64) (taken : Bool), Follows p (speculate p pc taken) (push p taken)
  repair : ∀ (p : P) (g : Ghr), Follows p (repairHistory p g) g.val
  updateBtb : ∀ (p : P) (pc target : U64), Follows p (updateBtb p pc target) (history p)
  onCall : ∀ (p : P) (pc target : U64), Follows p (onCall p pc target) (history p)
  /-- The outcome goes into the live register. -/
  update_history : ∀ (p : P) (pc : U64) (taken : Bool) (target : Option U64) (g : Ghr),
    history (updateBranch p pc taken target g) = push p taken
  update_shape : ∀ (p : P) (pc : U64) (taken : Bool) (target : Option U64) (g : Ghr),
    shape (updateBranch p pc taken target g) = shape p
  update_calm : ∀ (p : P) (pc : U64) (target : Option U64) (g : Ghr), Calm p → Calm (updateBranch p pc false target g)
  flush_eq : ∀ p : P, repairToCommitted p = p

theorem fst_answer (taken : Bool) (target : Option U64) :
    (if taken then (true, target) else (false, none)).1 = taken := by
  cases taken <;> rfl

theorem shiftHistory_zero (mask : U64) : shiftHistory mask 0 false = 0 := by simp [shiftHistory]

theorem getD_set_of_ne {α : Type} {l : List α} {i j : Nat} {a d : α} (h : i ≠ j) :
    (l.set i a).getD j d = l.getD j d := by
  rw [List.getD_eq_getElem?_getD, List.getD_eq_getElem?_getD, List.getElem?_set_ne h]

namespace GSharePredictor

instance : HistoryIndexed GSharePredictor where
  Shape := Unit
  shape _ := ()
  mask _ := tableMask
  history := ghr
  Slot := Nat
  Val := U8
  slots p pc := [p.index pc]
  value p i := p.pht.getD i 0
  Calm _ := True

theorem index_congr {p q : GSharePredictor} (h : p.ghr = q.ghr) (pc : U64) : p.index pc = q.index pc := by
  rw [index, index, h]

instance : LawfulHistory GSharePredictor where
  predict_congr p q pc h hval := by
    have hidx : p.index pc = q.index pc := index_congr h.history pc
    have hcount : p.pht.getD (q.index pc) 0 = q.pht.getD (q.index pc) 0 := hidx ▸ hval _ List.mem_cons_self
    change (p.predictBranch pc).1 = (q.predictBranch pc).1
    unfold predictBranch
    dsimp only
    rw [fst_answer, fst_answer, hidx, hcount]
  update_frame p pc taken target g i hi := getD_set_of_ne fun hc => hi (hc ▸ List.mem_cons_self)
  slots_congr p q pc h := congrArg (fun i => [i]) (index_congr h.history pc)
  predict_state _ _ := rfl
  snapshot_val _ := rfl
  speculate _ _ _ := ⟨rfl, rfl, id⟩
  repair _ _ := ⟨rfl, rfl, id⟩
  updateBtb _ _ _ := ⟨rfl, rfl, id⟩
  onCall _ _ _ := ⟨rfl, rfl, id⟩
  update_history _ _ _ _ _ := rfl
  update_shape _ _ _ _ _ := rfl
  update_calm _ _ _ _ := id
  flush_eq _ := rfl

end GSharePredictor

namespace TournamentPredictor

/-- The masks. -/
structure Masks where
  global : U64
  localHist : U64
  localPred : U64

inductive Slot where
  | choice (i : Nat)
  | global (i : Nat)
  | localHist (i : Nat)
  | localPred (i : Nat)
  deriving DecidableEq, Repr

/-- Every local history is empty. -/
def LocalEmpty (p : TournamentPredictor) : Prop := ∀ i, p.localHistoryTable.getD i 0 = 0

instance : HistoryIndexed TournamentPredictor where
  Shape := Masks
  shape p := ⟨p.globalMask, p.localHistMask, p.localPredMask⟩
  mask m := m.global
  history := ghr
  Slot := Slot
  Val := U16
  slots p pc := [.choice (p.globalIdx pc), .global (p.globalIdx pc), .localHist (p.localHistIdx pc),
      .localPred (p.predIdx pc)]
  value p
    | .choice i => (p.choicePht.getD i 0).setWidth 16
    | .global i => (p.globalPht.getD i 0).setWidth 16
    | .localHist i => p.localHistoryTable.getD i 0
    | .localPred i => (p.localPht.getD i 0).setWidth 16
  Calm := LocalEmpty

variable {p q : TournamentPredictor}

theorem globalIdx_congr (h : Alike p q) (pc : U64) : p.globalIdx pc = q.globalIdx pc := by
  have hmask : p.globalMask = q.globalMask := congrArg Masks.global h.shape
  have hghr : p.ghr = q.ghr := h.history
  rw [globalIdx, globalIdx, hmask, hghr]

theorem localHistIdx_congr (h : Alike p q) (pc : U64) : p.localHistIdx pc = q.localHistIdx pc := by
  have hmask : p.localHistMask = q.localHistMask := congrArg Masks.localHist h.shape
  rw [localHistIdx, localHistIdx, hmask]

theorem predIdx_congr (h : Alike p q) (pc : U64) : p.predIdx pc = q.predIdx pc := by
  have hmask : p.localPredMask = q.localPredMask := congrArg Masks.localPred h.shape
  have hp : p.pattern pc = 0 := h.calm _
  have hq : q.pattern pc = 0 := h.calm' _
  rw [predIdx, predIdx, hp, hq, hmask]

theorem setWidth_inj {a b : U8} (h : a.setWidth 16 = b.setWidth 16) : a = b := by
  apply BitVec.eq_of_toNat_eq
  have hw := congrArg BitVec.toNat h
  rwa [BitVec.toNat_setWidth_of_le (by decide), BitVec.toNat_setWidth_of_le (by decide)] at hw

theorem updateBranch_calm (h : p.LocalEmpty) (pc : U64) (target : Option U64) (g : Ghr) :
    (p.updateBranch pc false target g).LocalEmpty := by
  intro i
  have hpat : p.pattern pc = 0 := h _
  change (p.localHistoryTable.set _ (((p.pattern pc <<< 1) ||| 0) &&& _)).getD i 0 = 0
  rw [hpat]
  by_cases hi : p.localHistIdx pc = i
  · rw [hi, List.getD_eq_getElem?_getD, List.getElem?_set_self']
    cases p.localHistoryTable[i]? with
    | none => rfl
    | some _ => simp
  · rw [getD_set_of_ne hi]
    exact h i

instance : LawfulHistory TournamentPredictor where
  predict_congr p q pc h hval := by
    have hg := globalIdx_congr h pc
    have hl := predIdx_congr h pc
    have hchoice := setWidth_inj (hval (.choice (p.globalIdx pc)) (by simp [slots]))
    have hglobal := setWidth_inj (hval (.global (p.globalIdx pc)) (by simp [slots]))
    have hlocal := setWidth_inj (hval (.localPred (p.predIdx pc)) (by simp [slots]))
    change (p.predictBranch pc).1 = (q.predictBranch pc).1
    unfold predictBranch getGlobalPrediction getLocalPrediction
    dsimp only
    rw [fst_answer, fst_answer, hchoice, hglobal, hlocal, hg, hl]
  update_frame p pc taken target g i hi := by
    have hne : ∀ j ∈ slots p pc, j ≠ i := fun j hj hc => hi (hc ▸ hj)
    cases i with
    | choice i =>
      have hi : p.globalIdx pc ≠ i := fun hc => hne (.choice (p.globalIdx pc)) (by simp [slots]) (congrArg _ hc)
      change ((ite _ _ _ : List U8).getD i 0).setWidth 16 = (p.choicePht.getD i 0).setWidth 16
      split
      · rw [getD_set_of_ne hi]
      · rfl
    | global i =>
      have hi : p.globalIdx pc ≠ i := fun hc => hne (.global (p.globalIdx pc)) (by simp [slots]) (congrArg _ hc)
      exact congrArg (BitVec.setWidth 16) (getD_set_of_ne hi)
    | localHist i =>
      have hi : p.localHistIdx pc ≠ i :=
        fun hc => hne (.localHist (p.localHistIdx pc)) (by simp [slots]) (congrArg _ hc)
      exact getD_set_of_ne hi
    | localPred i =>
      have hi : p.predIdx pc ≠ i := fun hc => hne (.localPred (p.predIdx pc)) (by simp [slots]) (congrArg _ hc)
      exact congrArg (BitVec.setWidth 16) (getD_set_of_ne hi)
  slots_congr p q pc h := by
    change [Slot.choice (p.globalIdx pc), .global (p.globalIdx pc), .localHist (p.localHistIdx pc),
        .localPred (p.predIdx pc)] = _
    rw [globalIdx_congr h, localHistIdx_congr h, predIdx_congr h]
    rfl
  predict_state _ _ := rfl
  snapshot_val _ := rfl
  speculate _ _ _ := ⟨rfl, rfl, id⟩
  repair _ _ := ⟨rfl, rfl, id⟩
  updateBtb _ _ _ := ⟨rfl, rfl, id⟩
  onCall _ _ _ := ⟨rfl, rfl, id⟩
  update_history _ _ _ _ _ := rfl
  update_shape _ _ _ _ _ := rfl
  update_calm _ pc target g h := updateBranch_calm h pc target g
  flush_eq _ := rfl

end TournamentPredictor

namespace PerceptronPredictor

/-- The sizes. -/
structure Sizes where
  historyLength : Nat
  tableMask : U64
  rowSize : Nat

/-- The weights of a row. -/
def row (p : PerceptronPredictor) (i : Nat) : List Int :=
  (List.range p.rowSize).map fun j => p.table.getD (i * p.rowSize + j) 0

instance : HistoryIndexed PerceptronPredictor where
  Shape := Sizes
  shape p := ⟨p.historyLength, p.tableMask, p.rowSize⟩
  mask s := ((1 : U64) <<< (s.historyLength % 64)) - 1
  history := ghr
  Slot := Nat
  Val := List Int
  slots p pc := [p.index pc]
  value := row
  Calm _ := True

variable {p q : PerceptronPredictor}

theorem index_congr (h : Alike p q) (pc : U64) : p.index pc = q.index pc := by
  have hmask : p.tableMask = q.tableMask := congrArg Sizes.tableMask h.shape
  have hghr : p.ghr = q.ghr := h.history
  rw [index, index, hmask, hghr]

theorem weight_congr {i j : Nat} (hsize : p.rowSize = q.rowSize) (hrow : p.row i = q.row i) (hj : j < p.rowSize) :
    p.table.getD (i * p.rowSize + j) 0 = q.table.getD (i * q.rowSize + j) 0 := by
  unfold row at hrow
  rw [← hsize] at hrow ⊢
  exact List.map_inj_left.mp hrow j (List.mem_range.mpr hj)

theorem output_congr {i : Nat} (h : Alike p q) (hrow : p.row i = q.row i) : p.output i = q.output i := by
  have hlen : p.historyLength = q.historyLength := congrArg Sizes.historyLength h.shape
  have hsize : p.rowSize = q.rowSize := congrArg Sizes.rowSize h.shape
  have hghr : p.ghr = q.ghr := h.history
  have hrowSize := p.rowSize_eq
  have hbias := weight_congr (j := 0) hsize hrow (by omega)
  rw [Nat.add_zero, Nat.add_zero] at hbias
  unfold output
  dsimp only
  rw [hbias, ← hlen]
  apply List.foldl_ext
  intro y j hj
  have hj := List.mem_range.mp hj
  rw [Nat.add_assoc, Nat.add_assoc, weight_congr hsize hrow (by omega), sign, sign, hghr]

/-- Training leaves what lies outside the row. -/
theorem getD_train (p : PerceptronPredictor) (idx : Nat) (t : Int) {n : Nat}
    (hn : ∀ j ≤ p.historyLength, idx * p.rowSize + j ≠ n) : (p.train idx t).getD n 0 = p.table.getD n 0 := by
  have hloop : ∀ (l : List Nat) (table : List Int), (∀ i ∈ l, i < p.historyLength) → (l.foldl (fun table i =>
      table.set (idx * p.rowSize + 1 + i)
        (clampWeight (table.getD (idx * p.rowSize + 1 + i) 0 + t * p.sign i))) table).getD n 0 = table.getD n 0 := by
    intro l
    induction l with
    | nil => exact fun _ _ => rfl
    | cons i l ih =>
      intro table hl
      have hi := hl i List.mem_cons_self
      rw [List.foldl_cons, ih _ fun j hj => hl j (List.mem_cons_of_mem _ hj)]
      apply getD_set_of_ne
      rw [Nat.add_assoc]
      exact hn (1 + i) (by omega)
  unfold train
  dsimp only
  rw [hloop _ _ fun i hi => List.mem_range.mp hi]
  exact getD_set_of_ne (hn 0 (Nat.zero_le _))

/-- Rows do not overlap. -/
theorem row_train {idx i : Nat} (t : Int) (hi : idx ≠ i) (hq : q.rowSize = p.rowSize)
    (htable : q.table = p.train idx t) :
    q.row i = p.row i := by
  have hsize := p.rowSize_eq
  unfold row
  rw [hq, htable]
  apply List.map_congr_left
  intro j hj
  have hj := List.mem_range.mp hj
  apply getD_train
  intro m hm hc
  have hrow : (idx * p.rowSize + m) / p.rowSize = (i * p.rowSize + j) / p.rowSize := congrArg (· / p.rowSize) hc
  rw [Nat.mul_comm, Nat.mul_add_div (by omega), Nat.mul_comm, Nat.mul_add_div (by omega), Nat.div_eq_of_lt (by omega),
    Nat.div_eq_of_lt hj] at hrow
  omega

instance : LawfulHistory PerceptronPredictor where
  predict_congr p q pc h hval := by
    have hidx := index_congr h pc
    have hrow : p.row (p.index pc) = q.row (p.index pc) := hval _ List.mem_cons_self
    have hout := output_congr h hrow
    change (p.predictBranch pc).1 = (q.predictBranch pc).1
    unfold predictBranch
    dsimp only
    rw [fst_answer, fst_answer, hout, hidx]
  update_frame p pc taken target g i hi := by
    have hne : p.index pc ≠ i := fun hc => hi (hc ▸ List.mem_cons_self)
    by_cases htrain : |p.output (p.index pc)| ≤ p.threshold ∨ decide (p.output (p.index pc) ≥ 0) ≠ taken
    · exact row_train (if taken then 1 else -1) hne rfl (if_pos htrain)
    · have htable : (updateBranch p pc taken target g).table = p.table := if_neg htrain
      have hsize : (updateBranch p pc taken target g).rowSize = p.rowSize := rfl
      change (updateBranch p pc taken target g).row i = p.row i
      rw [row, row, htable, hsize]
  slots_congr p q pc h := congrArg (fun i => [i]) (index_congr h pc)
  predict_state _ _ := rfl
  snapshot_val _ := rfl
  speculate _ _ _ := ⟨rfl, rfl, id⟩
  repair _ _ := ⟨rfl, rfl, id⟩
  updateBtb _ _ _ := ⟨rfl, rfl, id⟩
  onCall _ _ _ := ⟨rfl, rfl, id⟩
  update_history _ _ _ _ _ := rfl
  update_shape _ _ _ _ _ := rfl
  update_calm _ _ _ _ := id
  flush_eq _ := rfl

end PerceptronPredictor

/-! ### Runs -/

namespace Speculation

open InFlight

variable {P : Type} [HistoryIndexed P]

/-- Each outcome once: of the committed branches, then of those in flight. -/
def expected (s : Speculation P) : List Bool := s.committed ++ directions s.flight

/-- A history of these outcomes, from an empty register. -/
def historyOf (sh : Shape P) (l : List Bool) : U64 := l.foldl (shiftHistory (mask sh)) 0

/-- **The live history has each outcome exactly once.** -/
def Right (s : Speculation P) : Prop := history s.predictor = historyOf (shape s.predictor) s.expected

/-- **The branch that commits next trains the slots that its prediction read.** -/
def Trained (s : Speculation P) : Prop :=
  ∀ x rest, s.flight = x :: rest → x.speculated ≠ none → x.outcome ≠ none → slots s.predictor x.pc = slots x.seen x.pc

/-- A branch commits with the outcome "not taken" and the register empty; one
that is not repaired goes the way that was speculated; what is dropped without a
repair has no branch, or the register is empty and only branches not taken stay. -/
def quiet (s : Speculation P) : BruAct → Bool
  | .resolveBranch k taken target =>
    match s.flight[k]? with
    | none => true
    | some x => x.predictedNext != x.next taken target || x.speculated == some taken
  | .commit =>
    match s.flight with
    | [] => true
    | x :: _ =>
      match x.speculated, x.outcome with
      | some _, some (taken, _) => !taken && history s.predictor == 0
      | _, _ => true
  | .squash k =>
    (s.flight.drop k).all (·.speculated.isNone) ||
      history s.predictor == 0 && (s.flight.take k).all fun x => x.direction != some true
  | .flush => s.flight.all (·.speculated.isNone) || history s.predictor == 0
  | .fetchBranch .. | .fetchJump .. | .resolveJump .. => true

/-- A predictor with the history of these outcomes, and a snapshot of it. -/
structure Seen (sh : Shape P) (older : List Bool) (p : P) (g : Ghr) : Prop where
  shape : shape p = sh
  calm : Calm p
  history : history p = historyOf sh older
  snapshot : g.val = historyOf sh older

/-- What is in flight was fetched with the history of what is older. -/
def AllSeen (sh : Shape P) : List Bool → List (InFlight P) → Prop
  | _, [] => True
  | older, x :: xs => Seen sh older x.seen x.ghrSnapshot ∧ AllSeen sh (older ++ x.direction.toList) xs

structure QuietInv (sh : Shape P) (s : Speculation P) : Prop where
  sizes : shape s.predictor = sh
  tables : Calm s.predictor
  right : history s.predictor = historyOf sh s.expected
  committed : ∀ b ∈ s.committed, b = false
  seen : AllSeen sh s.committed s.flight

variable {sh : Shape P} {p : P} {older : List Bool} {l l' : List (InFlight P)}

theorem allSeen_append : AllSeen sh older (l ++ l') ↔ AllSeen sh older l ∧ AllSeen sh (older ++ directions l) l' := by
  induction l generalizing older with
  | nil => simp [AllSeen]
  | cons x l ih => rw [List.cons_append, AllSeen, AllSeen, ih, directions_cons, List.append_assoc, and_assoc]

theorem historyOf_append (sh : Shape P) (a : List Bool) (b : Bool) :
    historyOf sh (a ++ [b]) = shiftHistory (mask sh) (historyOf sh a) b := by
  unfold historyOf
  rw [List.foldl_append]
  rfl

theorem historyOf_false {a : List Bool} (h : ∀ b ∈ a, b = false) : historyOf sh a = 0 := by
  induction a using List.reverseRecOn with
  | nil => rfl
  | append_singleton a b ih =>
    rw [historyOf_append, ih fun c hc => h c (List.mem_append_left _ hc), h b (by simp), shiftHistory_zero]

/-! ### What each step keeps -/

variable [LawfulHistory P] {s s' : Speculation P}

namespace QuietInv

/-- What an instruction brings into the flight. -/
theorem fetched (h : QuietInv sh s) : Seen sh s.expected s.predictor (snapshotHistory s.predictor) :=
  ⟨h.sizes, h.tables, h.right, (LawfulHistory.snapshot_val _).trans h.right⟩

/-- One more outcome in the history, at the end of the flight. -/
theorem speculated (hsh : shape p = sh) (hcalm : Calm p) (older : List Bool)
    (h : history p = historyOf sh older) (pc : U64)
    (taken : Bool) :
    shape (speculate p pc taken) = sh ∧ Calm (speculate p pc taken) ∧
      history (speculate p pc taken) = historyOf sh (older ++ [taken]) := by
  have hstep := LawfulHistory.speculate p pc taken
  refine ⟨hstep.shape.trans hsh, hstep.calm hcalm, hstep.history.trans ?_⟩
  rw [push, hsh, h, historyOf_append]

theorem fetchBranch (h : QuietInv sh s) (pc : U64) (size : InstSize) : QuietInv sh (s.fetchBranch pc size) := by
  have hdir : (branchEntry s.predictor pc size).direction = some (predictBranch s.predictor pc).1.1 := rfl
  have hpred : (s.fetchBranch pc size).predictor = speculate s.predictor pc (predictBranch s.predictor pc).1.1 := by
    change speculate (predictBranch s.predictor pc).2 pc (predictBranch s.predictor pc).1.1 = _
    rw [LawfulHistory.predict_state]
  obtain ⟨hshape, hcalm, hhist⟩ := speculated h.sizes h.tables s.expected h.right pc (predictBranch s.predictor pc).1.1
  refine ⟨hpred ▸ hshape, hpred ▸ hcalm, hpred ▸ hhist.trans ?_, h.committed,
      allSeen_append.mpr ⟨h.seen, h.fetched, trivial⟩⟩
  change _ = historyOf sh (s.committed ++ directions (s.flight ++ [_]))
  rw [directions_append, directions_cons, hdir, ← List.append_assoc]
  rfl

theorem fetchJump (h : QuietInv sh s) (kind : JumpKind) (pc : U64) (size : InstSize) (rd rs1 : RegIdx)
    (ret : Option U64) :
    QuietInv sh (s.fetchJump kind pc size rd rs1 ret) where
  sizes := h.sizes
  tables := h.tables
  right := by
    change history s.predictor = historyOf sh (s.committed ++ directions (s.flight ++ [_]))
    rw [directions_append, directions_of_jumps (l := [_]) (by simp [jumpEntry]), List.append_nil]
    exact h.right
  committed := h.committed
  seen := allSeen_append.mpr ⟨h.seen, h.fetched, trivial⟩

theorem resolveBranch (h : QuietInv sh s) {k : Nat} {taken : Bool} {target : U64}
    (hquiet : s.quiet (.resolveBranch k taken target) = true) (hstep : s.resolveBranch k taken target = some s') :
    QuietInv sh s' := by
  obtain ⟨x, a, b, hk, hflight, hspec, hout, hcase⟩ := resolveBranch_cases hstep
  obtain ⟨d, hd⟩ := Option.ne_none_iff_exists'.mp hspec
  have hold : x.direction = some d := by rw [InFlight.direction, hd, hout]; rfl
  have hnew : ({ x with outcome := some (taken, target) } : InFlight P).direction = some taken := by
    rw [InFlight.direction, hd]
    rfl
  have hseen := h.seen
  rw [hflight, allSeen_append] at hseen
  obtain ⟨hseen, hx, hrest⟩ := hseen
  rcases hcase with ⟨heq, rfl⟩ | ⟨hne, rfl⟩
  · -- the branch goes the way that the history already has
    have hway : d = taken := by
      rw [quiet, hk] at hquiet
      dsimp only at hquiet
      rw [heq, bne_self_eq_false, Bool.false_or, hd] at hquiet
      simpa using hquiet
    subst hway
    refine ⟨h.sizes, h.tables, ?_, h.committed, allSeen_append.mpr ⟨hseen, hx, ?_⟩⟩
    · have hright := h.right
      rw [expected, hflight, directions_append, directions_cons, hold] at hright
      rw [expected, directions_append, directions_cons, hnew]
      exact hright
    · rw [hnew, ← hold]
      exact hrest
  · -- the history of what is older, and the outcome
    have hrepair := LawfulHistory.repair s.predictor x.ghrSnapshot
    obtain ⟨hshape, hcalm, hhist⟩ := speculated (hrepair.shape.trans h.sizes) (hrepair.calm h.tables) _
      (hrepair.history.trans hx.snapshot) x.pc taken
    refine ⟨hshape, hcalm, hhist.trans ?_, h.committed, allSeen_append.mpr ⟨hseen, hx, trivial⟩⟩
    rw [expected, directions_append, directions_cons, hnew, List.append_assoc]
    rfl

/-- A jump leaves the history, or puts its snapshot back. -/
theorem jumped (hsh : shape p = sh) (hcalm : Calm p) (x : InFlight P) (target : U64) :
    shape (jumpPredictor p x target) = sh ∧ Calm (jumpPredictor p x target) ∧
      history (jumpPredictor p x target) = if x.predictedNext = target then history p else x.ghrSnapshot.val := by
  have hbtb := LawfulHistory.updateBtb p x.pc target
  unfold jumpPredictor
  by_cases hlink : x.rdLink = true
  · simp only [hlink, if_true]
    by_cases heq : x.predictedNext = target
    · have hcall := LawfulHistory.onCall p x.pc target
      simp only [heq, ne_eq, not_true_eq_false, if_false, if_true]
      exact ⟨hcall.shape.trans hsh, hcall.calm hcalm, hcall.history⟩
    · have hrepair := LawfulHistory.repair p x.ghrSnapshot
      have hcall := LawfulHistory.onCall (repairHistory p x.ghrSnapshot) x.pc target
      simp only [heq, ne_eq, not_false_eq_true, if_true, if_false]
      exact ⟨hcall.shape.trans (hrepair.shape.trans hsh), hcall.calm (hrepair.calm hcalm),
          hcall.history.trans hrepair.history⟩
  · simp only [hlink, Bool.false_eq_true, if_false]
    by_cases heq : x.predictedNext = target
    · simp only [heq, ne_eq, not_true_eq_false, if_false, if_true]
      exact ⟨hbtb.shape.trans hsh, hbtb.calm hcalm, hbtb.history⟩
    · have hrepair := LawfulHistory.repair (updateBtb p x.pc target) x.ghrSnapshot
      simp only [heq, ne_eq, not_false_eq_true, if_true, if_false]
      exact ⟨hrepair.shape.trans (hbtb.shape.trans hsh), hrepair.calm (hbtb.calm hcalm), hrepair.history⟩

theorem resolveJump (h : QuietInv sh s) {k : Nat} {target : U64} (hstep : s.resolveJump k target = some s') :
    QuietInv sh s' := by
  obtain ⟨x, a, b, hk, hflight, hspec, hout, rfl⟩ := resolveJump_cases hstep
  have hold : x.direction = none := by rw [InFlight.direction, hspec]; rfl
  have hnew : ({ x with outcome := some (true, target) } : InFlight P).direction = none := by
    rw [InFlight.direction, hspec]
    rfl
  have hseen := h.seen
  rw [hflight, allSeen_append] at hseen
  obtain ⟨hseen, hx, hrest⟩ := hseen
  obtain ⟨hsizes, htables, hhist⟩ := jumped h.sizes h.tables x target
  refine ⟨hsizes, htables, hhist.trans ?_, h.committed, allSeen_append.mpr ⟨hseen, hx, ?_⟩⟩
  · rw [expected, directions_append, directions_cons, hnew]
    by_cases heq : x.predictedNext = target
    · have hright := h.right
      rw [expected, hflight, directions_append, directions_cons, hold] at hright
      rw [if_pos heq, if_pos heq]
      exact hright
    · rw [if_neg heq, if_neg heq, hx.snapshot]
      simp
  · rw [hnew, ← hold]
    split
    · exact hrest
    · trivial

theorem commit (h : QuietInv sh s) (hquiet : s.quiet .commit = true) (hstep : s.commit = some s') : QuietInv sh s' := by
  obtain ⟨x, rest, taken, target, hflight, hout, hcase⟩ := commit_cases hstep
  have hseen := h.seen
  rw [hflight] at hseen
  obtain ⟨hx, hrest⟩ := hseen
  have hright := h.right
  rw [expected, hflight, directions_cons] at hright
  rcases hcase with ⟨hspec, rfl⟩ | ⟨hspec, rfl⟩
  · have hdir : x.direction = none := by rw [InFlight.direction, hspec]; rfl
    rw [hdir] at hright hrest
    rw [Option.toList_none, List.append_nil] at hrest
    exact ⟨h.sizes, h.tables, hright, h.committed, hrest⟩
  · obtain ⟨d, hd⟩ := Option.ne_none_iff_exists'.mp hspec
    have hdir : x.direction = some taken := by rw [InFlight.direction, hd, hout]; rfl
    rw [quiet, hflight] at hquiet
    dsimp only at hquiet
    rw [hd, hout] at hquiet
    simp only [Bool.and_eq_true, Bool.not_eq_true', beq_iff_eq] at hquiet
    obtain ⟨rfl, hzero⟩ := hquiet
    rw [hdir] at hright hrest
    refine ⟨(LawfulHistory.update_shape _ _ _ _ _).trans h.sizes,
        LawfulHistory.update_calm _ _ _ _ h.tables, ?_, ?_, hrest⟩
    · -- the outcome is shifted into an empty register once more
      rw [LawfulHistory.update_history, push, hzero, shiftHistory_zero, ← hzero, hright, expected, List.append_assoc]
      rfl
    · intro b hb
      rcases List.mem_append.mp hb with hb | hb
      · exact h.committed b hb
      · exact List.mem_singleton.mp hb

omit [LawfulHistory P] in
theorem squash (h : QuietInv sh s) {k : Nat} (hquiet : s.quiet (.squash k) = true) :
    QuietInv sh { s with flight := s.flight.take k } := by
  have hsplit := List.take_append_drop k s.flight
  have hseen := h.seen
  rw [← hsplit, allSeen_append] at hseen
  refine ⟨h.sizes, h.tables, ?_, h.committed, hseen.1⟩
  rw [quiet, Bool.or_eq_true, Bool.and_eq_true] at hquiet
  rcases hquiet with hjumps | ⟨hzero, hkept⟩
  · have hright := h.right
    have hnone : directions (s.flight.drop k) = [] := by
      apply directions_of_jumps
      intro x hx
      exact Option.isNone_iff_eq_none.mp (List.all_eq_true.mp hjumps x hx)
    rw [expected, ← hsplit, directions_append, hnone, List.append_nil] at hright
    exact hright
  · have hzero : history s.predictor = 0 := by simpa using hzero
    refine hzero.trans (historyOf_false fun b hb => ?_).symm
    rcases List.mem_append.mp hb with hb | hb
    · exact h.committed b hb
    · obtain ⟨x, hx, hdir⟩ := List.mem_filterMap.mp hb
      have hne := List.all_eq_true.mp hkept x hx
      rw [hdir] at hne
      simpa using hne

theorem flush (h : QuietInv sh s) (hquiet : s.quiet .flush = true) :
    QuietInv sh { s with predictor := repairToCommitted s.predictor, flight := [] } := by
  rw [LawfulHistory.flush_eq]
  have hsquash : s.quiet (.squash 0) = true := by
    simp only [quiet, Bool.or_eq_true] at hquiet ⊢
    exact hquiet.imp id fun hzero => by simpa using hzero
  exact h.squash hsquash

/-- **A quiet step keeps the history right.** -/
theorem step (h : QuietInv sh s) (a : BruAct) (hquiet : s.quiet a = true) (hstep : s.step a = some s') :
    QuietInv sh s' := by
  cases a with
  | fetchBranch pc size =>
    obtain rfl := Option.some.inj hstep
    exact h.fetchBranch pc size
  | fetchJump kind pc size rd rs1 ret =>
    obtain rfl := Option.some.inj hstep
    exact h.fetchJump kind pc size rd rs1 ret
  | resolveBranch k taken target => exact h.resolveBranch hquiet hstep
  | resolveJump k target => exact h.resolveJump hstep
  | commit => exact h.commit hquiet hstep
  | squash k =>
    obtain rfl := Option.some.inj hstep
    exact h.squash hquiet
  | flush =>
    obtain rfl := Option.some.inj hstep
    exact h.flush hquiet

/-- With an empty register, the oldest branch was predicted with one as well. -/
theorem trained (h : QuietInv sh s) (hquiet : s.quiet .commit = true) : s.Trained := by
  intro x rest hflight hspec hout
  obtain ⟨d, hd⟩ := Option.ne_none_iff_exists'.mp hspec
  obtain ⟨⟨taken, target⟩, ho⟩ := Option.ne_none_iff_exists'.mp hout
  have hseen := h.seen
  rw [hflight] at hseen
  have hx := hseen.1
  rw [quiet, hflight] at hquiet
  dsimp only at hquiet
  rw [hd, ho, Bool.and_eq_true, beq_iff_eq] at hquiet
  have hsame : history s.predictor = history x.seen := by
    rw [hquiet.2, hx.history, historyOf_false h.committed]
  exact LawfulHistory.slots_congr _ _ _ ⟨h.sizes.trans hx.shape.symm, hsame, h.tables, hx.calm⟩

end QuietInv

/-- **In a quiet run the history is right in every state, and a branch trains what its prediction read.** -/
theorem run_right {p : P} (hcalm : Calm p) (hempty : history p = 0) {as : List BruAct}
    (hrun : (start p).run as = some s) (hmeets : (start p).meets quiet as = true) :
    s.Right ∧ (s.quiet .commit = true → s.Trained) := by
  have hinit : QuietInv (shape p) (start p) := ⟨rfl, hcalm, hempty, by simp [start], trivial⟩
  have hinv := run_induction (fun _ _ a h hq hs => QuietInv.step h a hq hs) hinit hrun hmeets
  exact ⟨hinv.right.trans (by rw [hinv.sizes]), hinv.trained⟩

end Speculation

/-! ### The three predictors -/

theorem TournamentPredictor.localEmpty_new (config : TournamentConfig) (btbSize btbWays : Nat) :
    (TournamentPredictor.new config btbSize btbWays).LocalEmpty := by
  intro i
  change (List.replicate _ (0 : U16)).getD i 0 = 0
  rw [List.getD_eq_getElem?_getD, List.getElem?_replicate]
  split <;> rfl

/-- **GShare, Tournament and Perceptron in quiet runs**: each outcome stands once in
the history, and a branch that commits trains what its prediction read. -/
theorem history_trained (btbSize btbWays : Nat) (tc : TournamentConfig) (threshold : Nat → Int)
    (pc : PerceptronConfig) :
    (∀ as s, (Speculation.start (GSharePredictor.new btbSize btbWays)).run as = some s →
        (Speculation.start (GSharePredictor.new btbSize btbWays)).meets Speculation.quiet as = true →
        s.Right ∧ (s.quiet .commit = true → s.Trained)) ∧
      (∀ as s, (Speculation.start (TournamentPredictor.new tc btbSize btbWays)).run as = some s →
        (Speculation.start (TournamentPredictor.new tc btbSize btbWays)).meets Speculation.quiet as = true →
        s.Right ∧ (s.quiet .commit = true → s.Trained)) ∧
      ∀ as s, (Speculation.start (PerceptronPredictor.new threshold pc btbSize btbWays)).run as = some s →
        (Speculation.start (PerceptronPredictor.new threshold pc btbSize btbWays)).meets Speculation.quiet as = true →
        s.Right ∧ (s.quiet .commit = true → s.Trained) :=
  ⟨fun _ _ => Speculation.run_right trivial rfl,
    fun _ _ => Speculation.run_right (TournamentPredictor.localEmpty_new tc btbSize btbWays) rfl,
    fun _ _ => Speculation.run_right trivial rfl⟩

/-! ### One branch -/

namespace Speculation

variable {P : Type} [HistoryIndexed P]

instance (s : Speculation P) : Decidable s.Right := inferInstanceAs (Decidable (_ = _))

/-- A branch is fetched and resolved. -/
def oneBranch (taken : Bool) : List BruAct := [.fetchBranch 0x80000000 .standard, .resolveBranch 0 taken 0x80000100]

/-- The branch that commits next trains other slots than its prediction read. -/
def misled [DecidableEq (Slot P)] (s : Speculation P) : Bool :=
  match s.flight with
  | [] => false
  | x :: _ => x.speculated.isSome && x.outcome.isSome && decide (slots s.predictor x.pc ≠ slots x.seen x.pc)

/-- After some run a commit trains other slots and leaves a history in which not each outcome stands once. -/
def GoesAstray (p : P) : Prop :=
  ∃ as s s', (start p).run as = some s ∧ s.step .commit = some s' ∧ ¬ s.Trained ∧ ¬ s'.Right

theorem not_trained [DecidableEq (Slot P)] {s : Speculation P} (h : s.misled = true) : ¬ s.Trained := by
  unfold misled at h
  split at h
  · cases h
  · next x rest hflight =>
    simp only [Bool.and_eq_true, decide_eq_true_eq, Option.isSome_iff_ne_none] at h
    exact fun ht => h.2 (ht x rest hflight h.1.1 h.1.2)

theorem goesAstray_of [DecidableEq (Slot P)] {p : P} (as : List BruAct)
    (h : (((start p).run as).bind fun s => (s.step .commit).map fun s' => s.misled && !decide s'.Right) = some true) :
    GoesAstray p := by
  obtain ⟨s, hs, h⟩ := Option.bind_eq_some_iff.mp h
  obtain ⟨s', hs', h⟩ := Option.map_eq_some_iff.mp h
  rw [Bool.and_eq_true, Bool.not_eq_true', decide_eq_false_iff_not] at h
  exact ⟨as, s, s', hs, hs', not_trained h.1, h.2⟩

end Speculation

instance : DecidableEq (Slot GSharePredictor) := inferInstanceAs (DecidableEq Nat)

instance : DecidableEq (Slot TournamentPredictor) := inferInstanceAs (DecidableEq TournamentPredictor.Slot)

instance : DecidableEq (Slot PerceptronPredictor) := inferInstanceAs (DecidableEq Nat)

def smallGShare : GSharePredictor := .new 4 2

def smallTournament : TournamentPredictor := .new ⟨2, 2, 2⟩ 4 2

/-- The threshold is `1.93 * h + 14`, rounded down. -/
def smallPerceptron : PerceptronPredictor := .new (fun h => (193 * h / 100 : Nat) + 14) ⟨2, 2⟩ 4 2

/-- A jump to the branch's target puts it into the buffer of targets; the branch is predicted and is not taken. -/
def notTaken : List BruAct :=
  [.fetchJump .jal 0x80000000 .standard 0 0 none, .resolveJump 0 0x80000100, .commit] ++ Speculation.oneBranch false

theorem Speculation.right_of {P : Type} [HistoryIndexed P] {p : P} {as : List BruAct}
    (h : ∀ s, (start p).run as = some s → (start p).meets quiet as = true → s.Right ∧
        (s.quiet .commit = true → s.Trained))
    (hrun : ((start p).run as).any (fun s => s.quiet .commit && s.flight.length == 1) = true)
    (hmeets : (start p).meets quiet as = true) :
    ∃ s, (start p).run as = some s ∧ s.flight.length = 1 ∧ s.Right ∧ s.Trained := by
  cases hs : (start p).run as with
  | none =>
    rw [hs] at hrun
    cases hrun
  | some s =>
    rw [hs, Option.any_some, Bool.and_eq_true, beq_iff_eq] at hrun
    obtain ⟨hright, htrained⟩ := h s hs hmeets
    exact ⟨s, rfl, hrun.2, hright, htrained hrun.1⟩

theorem history_trained_not_taken :
    (∃ s, (Speculation.start smallGShare).run notTaken = some s ∧ s.flight.length = 1 ∧ s.Right ∧ s.Trained) ∧
      (∃ s, (Speculation.start smallTournament).run notTaken = some s ∧ s.flight.length = 1 ∧ s.Right ∧ s.Trained) ∧
      ∃ s, (Speculation.start smallPerceptron).run notTaken = some s ∧ s.flight.length = 1 ∧ s.Right ∧ s.Trained := by
  obtain ⟨hg, ht, hp⟩ := history_trained 4 2 ⟨2, 2, 2⟩ (fun h => (193 * h / 100 : Nat) + 14) ⟨2, 2⟩
  exact ⟨Speculation.right_of (hg notTaken) (by decide) (by decide),
    Speculation.right_of (ht notTaken) (by decide) (by decide),
    Speculation.right_of (hp notTaken) (by decide) (by decide)⟩

/-- **A taken branch trains another entry, and stands twice in the history.** -/
theorem taken_branch_astray :
    Speculation.GoesAstray smallGShare ∧ Speculation.GoesAstray smallTournament ∧
        Speculation.GoesAstray smallPerceptron :=
  ⟨Speculation.goesAstray_of (Speculation.oneBranch true) (by decide),
    Speculation.goesAstray_of (Speculation.oneBranch true) (by decide),
    Speculation.goesAstray_of (Speculation.oneBranch true) (by decide)⟩

end Rvsim
