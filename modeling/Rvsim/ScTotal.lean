/-
# When the statistical corrector stops

`components/stat_corrector.rs` once more, with its sums, shifts and indices checked,
its counters cut to eight bits when they are stored, and the loop over the history
given a number of rounds. Where nothing stops it, it is `StatCorrector`.

The loop advances by the width of an index, which is zero for tables of one entry,
and shifts a word by as much. A counter is bounded by a width that is not compared
with the eight bits it is stored in, and the threshold that the configuration gives
is cut to 32 bits and shifted.

Key definitions:
  - `StatCorrector.Strict.new`, `StatCorrector.Strict.predict`, `StatCorrector.Strict.update`
  - `ScCall`, `ScRun.TotalOn`, `ScConfig.Fits`
Key theorems:
  - `StatCorrector.Strict.tableIndex_ok_iff`, `StatCorrector.Inv.predict_ok`, `StatCorrector.Inv.update_ok`
  - `ScRun.total_iff`, `ScRun.total_fails`
-/
import Rvsim.Lib.Masks
import Rvsim.Lib.Rows
import Rvsim.Lib.Signed
import Rvsim.TageTraining

namespace Rvsim

namespace StatCorrector

/-! ### The source, checked -/

namespace Strict

open Checked

/-- `1i32 << s`. -/
def shlOne (s : Nat) : Checked Int := if s < 32 then .ok (1#32 <<< s).toInt else .error .overflow

/-- `1usize << s`. -/
def shlSize (s : Nat) : Checked Nat := if s < 64 then .ok (1 <<< s) else .error .overflow

def clampCounter (val : Int) (bits : Nat) : Checked Int := do
  let s ← subNat bits 1
  let one ← shlOne s
  let hi ← exact 32 (one - 1)
  let lo ← exact 32 (-one)
  return (BitVec.ofInt 8 (max lo (min val hi))).toInt

def nextPowerOfTwo (n : Nat) : Checked Nat := if n.nextPowerOfTwo < 2 ^ 64 then .ok n.nextPowerOfTwo else
    .error .overflow

/-- `vec![0i8; n]`: an allocation is smaller than 2^63. -/
def zeros (n : Nat) : Checked (List Int) := if n < 2 ^ 63 then .ok (List.replicate n 0) else .error .outOfRange

def new (config : ScConfig) : Checked StatCorrector :=
  if config.numTables ≤ 8 then do
    let tableSize ← nextPowerOfTwo config.tableSize
    let biasSize ← nextPowerOfTwo config.biasTableSize
    let perPcSize ← shlSize config.perPcThresholdBits
    let counters ← zeros (← mulNat 64 config.numTables tableSize)
    let bias ← zeros biasSize
    let perPcThreshold ← zeros perPcSize
    return {
      counters := counters
      numTables := config.numTables
      histLengths := config.historyLengths.take config.numTables
      tableSize := tableSize
      tableBits := tableSize.log2
      counterBits := config.counterBits
      bias := bias
      biasSk := bias
      biasBank := bias
      biasMask := BitVec.ofNat 64 biasSize - 1
      biasCounterBits := config.biasCounterBits
      updateThreshold := (BitVec.ofNat 32 config.initialThreshold <<< 3).toInt
      perPcThreshold := perPcThreshold
      perPcThresholdMask := BitVec.ofNat 64 perPcSize - 1
      firstH := -1
      secondH := -1 }
  else .error .outOfRange

def foldHist (tableBits hl : Nat) (histBits : U64) : Nat → Nat → U64 → Checked U64
  | 0, shift, h => if shift < hl then .error .unfinished else .ok h
  | n + 1, shift, h =>
    if shift < hl then
      if shift < 64 then do
        let shift' ← addNat 64 shift tableBits
        foldHist tableBits hl histBits n shift' (h ^^^ (histBits >>> shift))
      else .error .overflow
    else .ok h

def tableIndex (rounds : Nat) (sc : StatCorrector) (pc : U64) (ghr : Ghr) (table : Nat) : Checked Nat :=
  let pcHash := pc >>> 2
  let hl := sc.histLengths.getD table 0
  let tableMask : U64 := BitVec.ofNat 64 sc.tableSize - 1
  if hl = 0 then .ok (pcHash &&& tableMask).toNat
  else do
    let histBits := if hl ≥ 64 then ghr.val else ghr.val &&& FoldedHistory.mask hl
    let h ← foldHist sc.tableBits hl histBits rounds sc.tableBits histBits
    return ((pcHash ^^^ h) &&& tableMask).toNat

def counterIdx (rounds : Nat) (sc : StatCorrector) (pc : U64) (ghr : Ghr) (t : Nat) : Checked Nat := do
  let idx ← tableIndex rounds sc pc ghr t
  let first ← mulNat 64 t sc.tableSize
  addNat 64 first idx

def effectiveThreshold (sc : StatCorrector) (pc : U64) : Checked Int := do
  let pcAdj ← get sc.perPcThreshold (sc.perPcIdx pc)
  exact 32 (sc.updateThreshold / 8 + pcAdj)

/-- `sum + 2 * v + 1`, which the source takes from left to right after `2 * v + 1`. -/
def addCentred (sum v : Int) : Checked Int := do
  let twice ← exact 32 (2 * v)
  let term ← exact 32 (twice + 1)
  exact 32 (sum + term)

def predict (rounds : Nat) (sc : StatCorrector) (pc : U64) (ghr : Ghr) (m : TageScMeta) : Checked (Bool × Int) := do
  let sum ← addCentred 0 m.predCtr
  let sum ← addCentred sum (← get sc.bias (sc.biasIndex pc m))
  let sum ← addCentred sum (← get sc.biasSk (sc.biasSkIndex pc m))
  let sum ← addCentred sum (← get sc.biasBank (sc.biasBankIndex pc m))
  let sum ← (List.range sc.numTables).foldlM (fun sum t => do
    let i ← counterIdx rounds sc pc ghr t
    addCentred sum (← get sc.counters i)) sum
  let scTaken := decide (sum ≥ 0)
  let thres ← effectiveThreshold sc pc
  let sumAbs ← exact 32 |sum|
  return (if sc.overrideDecision scTaken m sumAbs thres then scTaken else m.predTaken, sum)

/-- A chooser moves. -/
def moveChooser (scTaken taken : Bool) (c : Int) : Checked Int :=
  if scTaken == taken then do
    let c' ← exact 8 (c + 1)
    return min c' 63
  else do
    let c' ← exact 8 (c - 1)
    return max c' (-64)

def trainChoosers (sc : StatCorrector) (taken scTaken : Bool) (m : TageScMeta) (sumAbs thres : Int) :
    Checked StatCorrector := do
  let quarter := thres.tdiv 4
  let half := thres.tdiv 2
  let secondH ← if m.conf = .high ∧ sumAbs ≥ quarter ∧ sumAbs < half then
      moveChooser scTaken taken sc.secondH else .ok sc.secondH
  let firstH ← if m.conf = .medium ∧ sumAbs < quarter then moveChooser scTaken taken sc.firstH else .ok sc.firstH
  return { sc with secondH := secondH, firstH := firstH }

def trainThreshold (sc : StatCorrector) (pc : U64) (taken scTaken : Bool) : Checked StatCorrector :=
  if scTaken == taken then do
    let t ← exact 32 (sc.updateThreshold - 1)
    let per ← alter sc.perPcThreshold (sc.perPcIdx pc) fun v => do
      let v' ← exact 8 (v - 1)
      return max v' (-16)
    return { sc with updateThreshold := max t 0, perPcThreshold := per }
  else do
    let t ← exact 32 (sc.updateThreshold + 1)
    let per ← alter sc.perPcThreshold (sc.perPcIdx pc) fun v => do
      let v' ← exact 8 (v + 1)
      return min v' 15
    return { sc with updateThreshold := min t 511, perPcThreshold := per }

/-- A counter moves toward the outcome. -/
def move (taken : Bool) (bits : Nat) (v : Int) : Checked Int :=
  if taken then do clampCounter (← exact 32 (v + 1)) bits else do clampCounter (← exact 32 (v - 1)) bits

def trainCounters (rounds : Nat) (sc : StatCorrector) (pc : U64) (ghr : Ghr) (taken : Bool) (m : TageScMeta) :
    Checked StatCorrector := do
  let bias ← alter sc.bias (sc.biasIndex pc m) (move taken sc.biasCounterBits)
  let biasSk ← alter sc.biasSk (sc.biasSkIndex pc m) (move taken sc.biasCounterBits)
  let biasBank ← alter sc.biasBank (sc.biasBankIndex pc m) (move taken sc.biasCounterBits)
  let counters ← (List.range sc.numTables).foldlM (fun cs t => do
    let i ← counterIdx rounds sc pc ghr t
    alter cs i (move taken sc.counterBits)) sc.counters
  return { sc with bias := bias, biasSk := biasSk, biasBank := biasBank, counters := counters }

def update (rounds : Nat) (sc : StatCorrector) (pc : U64) (ghr : Ghr) (taken : Bool) (m : TageScMeta) (sum : Int) :
    Checked StatCorrector := do
  let scTaken := decide (sum ≥ 0)
  let thres ← effectiveThreshold sc pc
  let sumAbs ← exact 32 |sum|
  let sc ← if scTaken ≠ m.predTaken then trainChoosers sc taken scTaken m sumAbs thres else .ok sc
  let sc ← if scTaken ≠ m.predTaken then trainThreshold sc pc taken scTaken else .ok sc
  let scPred := if sc.overrideDecision scTaken m sumAbs thres then scTaken else m.predTaken
  if scPred ≠ taken ∨ sumAbs < thres then trainCounters rounds sc pc ghr taken m else .ok sc

end Strict

end StatCorrector

/-! ### Calls -/

/-- A branch as the corrector is asked about it; TAGE's counter is of eight bits. -/
structure ScBranch where
  pc : U64
  ghr : Ghr
  scMeta : TageScMeta
  ctr : Checked.InRange 8 scMeta.predCtr

/-- An update is given the sum of one of the predictions before it. -/
inductive ScCall where
  | predict (b : ScBranch)
  | update (b : ScBranch) (taken : Bool) (prediction : Nat)

def ScCall.branch : ScCall → ScBranch
  | predict b => b
  | update b _ _ => b

/-- How a call may change a counter. -/
def ScCall.Moves : ScCall → Int → Int → Prop
  | predict _, v, v' => v' = v
  | update _ true _, v, v' => v ≤ v' ∧ v' ≤ v + 1
  | update _ false _, v, v' => v - 1 ≤ v' ∧ v' ≤ v

theorem ScCall.moves_refl (c : ScCall) (v : Int) : c.Moves v v := by
  cases c with
  | predict b => exact rfl
  | update b taken prediction =>
    cases taken with
    | true => exact ⟨le_refl v, by omega⟩
    | false => exact ⟨by omega, le_refl v⟩

/-- The corrector and the sums of the predictions so far. -/
structure ScRun where
  sc : StatCorrector
  sums : List Int

namespace ScRun

def call (rounds : Nat) (r : ScRun) : ScCall → Checked ScRun
  | .predict b => do
    let p ← StatCorrector.Strict.predict rounds r.sc b.pc b.ghr b.scMeta
    return { r with sums := r.sums ++ [p.2] }
  | .update b taken prediction =>
    match r.sums[prediction]? with
    | none => .ok r
    | some sum => do
      let sc ← StatCorrector.Strict.update rounds r.sc b.pc b.ghr taken b.scMeta sum
      return { r with sc := sc }

/-- The counters are of so many bits, and each has moved as the call says. -/
def TableRight (c : ScCall) (bits : Nat) (before after : List Int) : Prop :=
  List.Forall₂ c.Moves before after ∧ ∀ v ∈ after, Checked.InRange bits v

/-- What a call that gives a result is to leave: indices within their tables, counters
within their widths that moved by one toward the outcome, choosers and thresholds that
fit in their types, and a threshold that stays in its bounds. -/
structure Right (r : ScRun) (c : ScCall) (r' : ScRun) : Prop where
  indices : ∀ t < r.sc.numTables, ∀ rounds i,
    StatCorrector.Strict.tableIndex rounds r.sc c.branch.pc c.branch.ghr t = .ok i → i < r.sc.tableSize
  counters : TableRight c r.sc.counterBits r.sc.counters r'.sc.counters
  bias : TableRight c r.sc.biasCounterBits r.sc.bias r'.sc.bias
  biasSk : TableRight c r.sc.biasCounterBits r.sc.biasSk r'.sc.biasSk
  biasBank : TableRight c r.sc.biasCounterBits r.sc.biasBank r'.sc.biasBank
  firstH : Checked.InRange 8 r'.sc.firstH
  secondH : Checked.InRange 8 r'.sc.secondH
  perPc : ∀ v ∈ r'.sc.perPcThreshold, Checked.InRange 8 v
  threshold : Checked.InRange 32 r'.sc.updateThreshold
  bounds : 0 ≤ r.sc.updateThreshold ∧ r.sc.updateThreshold ≤ 511 → 0 ≤ r'.sc.updateThreshold ∧
      r'.sc.updateThreshold ≤ 511

/-- Every call of the run gives a result, and leaves what it is to leave. -/
def TotalOn : ScRun → List ScCall → Prop
  | _, [] => True
  | r, c :: cs => ∃ rounds r', r.call rounds c = .ok r' ∧ r.Right c r' ∧ r'.TotalOn cs

end ScRun

/-- The loop over a history of that length ends before it shifts a word by its width:
there is no history, or the widths of an index that are at least 64 are no shorter than it. -/
def ScConfig.FoldEnds (config : ScConfig) (t : Nat) : Prop :=
  let hl := config.historyLengths.getD t 0
  let tableBits := config.tableSize.nextPowerOfTwo.log2
  hl = 0 ∨ tableBits ≠ 0 ∧ hl ≤ (63 / tableBits + 1) * tableBits

/-- Counters of one to eight bits, histories whose loop ends, and a threshold that is not
the least number of 32 bits once it is shifted. -/
structure ScConfig.Fits (config : ScConfig) : Prop where
  bias : 1 ≤ config.biasCounterBits ∧ config.biasCounterBits ≤ 8
  counters : config.numTables = 0 ∨ 1 ≤ config.counterBits ∧ config.counterBits ≤ 8
  folds : ∀ t < config.numTables, config.FoldEnds t
  threshold : config.initialThreshold % 2 ^ 29 ≠ 2 ^ 28

/-! ### Indices -/

namespace StatCorrector

/-- A power of two less one cuts a word below it. -/
theorem toNat_and_size {k : Nat} (hk : k < 64) (x : U64) : (x &&& (BitVec.ofNat 64 (2 ^ k) - 1)).toNat < 2 ^ k := by
  have hbit : BitVec.ofNat 64 (2 ^ k) = (1 : U64) <<< k := by
    refine BitVec.eq_of_toNat_eq ?_
    rw [BitVec.toNat_ofNat, BitVec.toNat_shiftLeft, Nat.shiftLeft_eq]
    simp
  rw [hbit, Masks.toNat_low hk]
  exact Nat.mod_lt _ (by positivity)

/-- The sizes, widths and masks are those of the configuration, and the tables are as long. -/
structure Shape (config : ScConfig) (sc : StatCorrector) : Prop where
  numTables : sc.numTables = config.numTables ∧ config.numTables ≤ 8
  histLengths : sc.histLengths = config.historyLengths.take config.numTables
  tableSize : sc.tableSize = config.tableSize.nextPowerOfTwo ∧ sc.tableSize < 2 ^ 64
  tableBits : sc.tableBits = config.tableSize.nextPowerOfTwo.log2
  counterBits : sc.counterBits = config.counterBits
  biasCounterBits : sc.biasCounterBits = config.biasCounterBits
  room : config.numTables * sc.tableSize < 2 ^ 63
  counters : sc.counters.length = config.numTables * sc.tableSize
  bias : ∃ k < 64, sc.biasMask = BitVec.ofNat 64 (2 ^ k) - 1 ∧ sc.bias.length = 2 ^ k ∧ sc.biasSk.length = 2 ^ k ∧
      sc.biasBank.length = 2 ^ k
  perPc : ∃ k < 64, sc.perPcThresholdMask = BitVec.ofNat 64 (2 ^ k) - 1 ∧ sc.perPcThreshold.length = 2 ^ k

namespace Shape

variable {config : ScConfig} {sc : StatCorrector}

theorem tableSize_pow (h : Shape config sc) : ∃ k < 64, sc.tableSize = 2 ^ k := by
  obtain ⟨k, hk⟩ := Nat.isPowerOfTwo_nextPowerOfTwo config.tableSize
  have heq : sc.tableSize = 2 ^ k := h.tableSize.1.trans hk
  refine ⟨k, ?_, heq⟩
  have hlt := h.tableSize.2
  rw [heq] at hlt
  exact (Nat.pow_lt_pow_iff_right (by decide)).mp hlt

theorem tableBits_lt (h : Shape config sc) : sc.tableBits < 64 := by
  have hlt := h.tableSize.2
  rw [h.tableSize.1] at hlt
  rw [h.tableBits]
  refine (Nat.log2_lt ?_).mpr hlt
  have hpos := Nat.pos_of_isPowerOfTwo (Nat.isPowerOfTwo_nextPowerOfTwo config.tableSize)
  omega

theorem histLength (h : Shape config sc) {t : Nat} (ht : t < config.numTables) :
    sc.histLengths.getD t 0 = config.historyLengths.getD t 0 := by
  rw [h.histLengths, List.getD_eq_getElem?_getD, List.getD_eq_getElem?_getD, List.getElem?_take_of_lt ht]

theorem index_lt (h : Shape config sc) (x : U64) : (x &&& (BitVec.ofNat 64 sc.tableSize - 1)).toNat < sc.tableSize := by
  obtain ⟨k, hk, heq⟩ := h.tableSize_pow
  rw [heq]
  exact toNat_and_size hk x

theorem tableIndex_lt (h : Shape config sc) (pc : U64) (ghr : Ghr) (t : Nat) :
    sc.tableIndex pc ghr t < sc.tableSize := by
  unfold StatCorrector.tableIndex
  dsimp only
  split_ifs
  · exact h.index_lt _
  · exact h.index_lt _
  · exact h.index_lt _

theorem bias_lt (h : Shape config sc) (x : U64) : (x &&& sc.biasMask).toNat < sc.bias.length ∧
    (x &&& sc.biasMask).toNat < sc.biasSk.length ∧ (x &&& sc.biasMask).toNat < sc.biasBank.length := by
  obtain ⟨k, hk, hmask, h1, h2, h3⟩ := h.bias
  rw [hmask, h1, h2, h3]
  exact ⟨toNat_and_size hk x, toNat_and_size hk x, toNat_and_size hk x⟩

theorem perPc_lt (h : Shape config sc) (pc : U64) : sc.perPcIdx pc < sc.perPcThreshold.length := by
  obtain ⟨k, hk, hmask, hlen⟩ := h.perPc
  unfold perPcIdx
  rw [hmask, hlen]
  exact toNat_and_size hk _

end Shape

/-! ### The loop over the history -/

namespace Strict

open Checked

variable {tableBits hl : Nat} {histBits : U64}

/-- Every multiple of the width from 64 on is beyond the history. -/
def Clear (tableBits hl : Nat) : Prop := ∀ k, 64 ≤ k * tableBits → hl ≤ k * tableBits

theorem clear_iff (htb : tableBits ≠ 0) : Clear tableBits hl ↔ hl ≤ (63 / tableBits + 1) * tableBits := by
  have hpos : 0 < tableBits := Nat.pos_of_ne_zero htb
  have hfirst : 64 ≤ (63 / tableBits + 1) * tableBits := Nat.lt_mul_of_div_lt (Nat.lt_succ_self _) hpos
  constructor
  · exact fun h => h _ hfirst
  · intro h k hk
    refine h.trans (Nat.mul_le_mul_right _ ?_)
    have hdiv : 63 / tableBits < k := (Nat.div_lt_iff_lt_mul hpos).mpr hk
    exact hdiv

/-- With no width the loop stays where it is. -/
theorem foldHist_zero (hhl : 0 < hl) (n : Nat) (h : U64) (v : U64) : foldHist 0 hl histBits n 0 h ≠ .ok v := by
  induction n generalizing h with
  | zero =>
    unfold foldHist
    rw [if_pos hhl]
    exact fun hc => by cases hc
  | succ n ih =>
    unfold foldHist
    rw [if_pos hhl, if_pos (by decide), addNat_ok (by decide), ok_bind]
    exact ih _

/-- A loop that ends met no multiple of the width from 64 on below the history's length. -/
theorem foldHist_clear {n j : Nat} {h v : U64} (hok : foldHist tableBits hl histBits n (j * tableBits) h = .ok v) :
    ∀ k, j ≤ k → 64 ≤ k * tableBits → hl ≤ k * tableBits := by
  induction n generalizing j h with
  | zero =>
    unfold foldHist at hok
    split_ifs at hok with hlt
    exact fun k hk _ => (Nat.le_of_not_lt hlt).trans (Nat.mul_le_mul_right _ hk)
  | succ n ih =>
    unfold foldHist at hok
    split_ifs at hok with hlt hshift
    · obtain ⟨shift, hadd, hok⟩ := bind_eq_ok.mp hok
      obtain ⟨-, rfl⟩ := addNat_eq_ok.mp hadd
      rw [← Nat.succ_mul] at hok
      intro k hk h64
      rcases Nat.eq_or_lt_of_le hk with rfl | hk
      · omega
      · exact ih hok k hk h64
    · exact fun k hk _ => (Nat.le_of_not_lt hlt).trans (Nat.mul_le_mul_right _ hk)

/-- With a width and no such multiple the loop ends, in as many rounds as the history is long. -/
theorem foldHist_ok (histBits : U64) (htb : tableBits ≠ 0) (hlt : tableBits < 64) (hclear : Clear tableBits hl)
    {n m j : Nat} (hm : hl ≤ j * tableBits + m)
    (hnm : m ≤ n) (h : U64) :
    foldHist tableBits hl histBits n (j * tableBits) h =
        .ok (StatCorrector.foldHist tableBits hl histBits m (j * tableBits) h) := by
  induction n generalizing m j h with
  | zero =>
    obtain rfl : m = 0 := by omega
    unfold foldHist StatCorrector.foldHist
    rw [if_neg (by omega)]
  | succ n ih =>
    unfold foldHist
    by_cases hshift : j * tableBits < hl
    · obtain ⟨m, rfl⟩ : ∃ m', m = m' + 1 := ⟨m - 1, by omega⟩
      have h64 : j * tableBits < 64 := by
        by_contra hge
        have := hclear j (by omega)
        omega
      rw [if_pos hshift, if_pos h64, addNat_ok (by omega), ok_bind, StatCorrector.foldHist, if_pos hshift,
          Nat.mod_eq_of_lt h64,
        ← Nat.succ_mul]
      refine ih ?_ (by omega) _
      rw [Nat.succ_mul]
      omega
    · rw [if_neg hshift]
      cases m with
      | zero => rfl
      | succ m => rw [StatCorrector.foldHist, if_neg hshift]

/-- More rounds change nothing. -/
theorem foldHist_mono {n m shift : Nat} {h v : U64}
    (hok : foldHist tableBits hl histBits n shift h = .ok v) (hnm : n ≤ m) :
    foldHist tableBits hl histBits m shift h = .ok v := by
  induction n generalizing m shift h with
  | zero =>
    unfold foldHist at hok
    split_ifs at hok with hlt
    cases m with
    | zero => exact (if_neg hlt).trans hok
    | succ m => exact (if_neg hlt).trans hok
  | succ n ih =>
    obtain ⟨m, rfl⟩ : ∃ m', m = m' + 1 := ⟨m - 1, by omega⟩
    unfold foldHist at hok ⊢
    split_ifs at hok ⊢ with hlt h64
    · obtain ⟨shift', hadd, hok⟩ := bind_eq_ok.mp hok
      exact bind_eq_ok.mpr ⟨shift', hadd, ih hok (by omega)⟩
    · exact hok

/-- **An index is computed just when the loop over its history ends**; it is that of `StatCorrector`. -/
theorem tableIndex_ok {config : ScConfig} {sc : StatCorrector} (h : Shape config sc) {t : Nat}
    (ht : t < config.numTables)
    (hfold : config.FoldEnds t) {rounds : Nat} (hr : config.historyLengths.getD t 0 ≤ rounds) (pc : U64) (ghr : Ghr) :
    tableIndex rounds sc pc ghr t = .ok (sc.tableIndex pc ghr t) := by
  unfold tableIndex StatCorrector.tableIndex
  dsimp only
  by_cases h0 : sc.histLengths.getD t 0 = 0
  · rw [if_pos h0, if_pos h0]
  · rw [if_neg h0, if_neg h0]
    rw [h.histLength ht] at h0 ⊢
    obtain ⟨htb, hle⟩ := hfold.resolve_left h0
    rw [← h.tableBits] at htb hle
    have hclear := (clear_iff htb).mpr hle
    have hstart : config.historyLengths.getD t 0 ≤ 1 * sc.tableBits + config.historyLengths.getD t 0 := by omega
    have hloop : ∀ bits h, foldHist sc.tableBits (config.historyLengths.getD t 0) bits rounds sc.tableBits h =
        .ok (StatCorrector.foldHist sc.tableBits (config.historyLengths.getD t 0) bits
            (config.historyLengths.getD t 0) sc.tableBits h) := by
      intro bits h'
      have hgo := foldHist_ok bits htb h.tableBits_lt hclear hstart hr h'
      rwa [Nat.one_mul] at hgo
    rw [hloop, ok_bind]
    rfl

theorem foldEnds_of_ok {config : ScConfig} {sc : StatCorrector} (h : Shape config sc) {t : Nat}
    (ht : t < config.numTables)
    {rounds i : Nat} {pc : U64} {ghr : Ghr} (hok : tableIndex rounds sc pc ghr t = .ok i) : config.FoldEnds t := by
  unfold tableIndex at hok
  dsimp only at hok
  rw [h.histLength ht] at hok
  by_cases h0 : config.historyLengths.getD t 0 = 0
  · exact .inl h0
  · rw [if_neg h0, bind_eq_ok] at hok
    obtain ⟨v, hv, -⟩ := hok
    have htb : sc.tableBits ≠ 0 := by
      intro hz
      rw [hz] at hv
      exact foldHist_zero (Nat.pos_of_ne_zero h0) rounds _ v hv
    have hstart : ∀ {bits h}, foldHist sc.tableBits (config.historyLengths.getD t 0) bits rounds sc.tableBits h =
        .ok v →
        foldHist sc.tableBits (config.historyLengths.getD t 0) bits rounds (1 * sc.tableBits) h = .ok v := by
      intro bits h hgo
      rwa [Nat.one_mul]
    have hclear : Clear sc.tableBits (config.historyLengths.getD t 0) := by
      intro k hk
      have hk1 : 1 ≤ k := by
        by_contra hc
        obtain rfl : k = 0 := by omega
        rw [Nat.zero_mul] at hk
        exact absurd hk (by decide)
      exact foldHist_clear (hstart hv) k hk1 hk
    have hle := (clear_iff htb).mp hclear
    rw [h.tableBits] at htb hle
    exact .inr ⟨htb, hle⟩

/-- An index that is computed is that of `StatCorrector`. -/
theorem eq_tableIndex {config : ScConfig} {sc : StatCorrector} (h : Shape config sc) {t : Nat}
    (ht : t < config.numTables)
    {rounds i : Nat} {pc : U64} {ghr : Ghr} (hok : tableIndex rounds sc pc ghr t = .ok i) :
        i = sc.tableIndex pc ghr t := by
  have hfold := foldEnds_of_ok h ht hok
  have hmax := tableIndex_ok h ht hfold (le_max_left (config.historyLengths.getD t 0) rounds) pc ghr
  have hmore : tableIndex (max (config.historyLengths.getD t 0) rounds) sc pc ghr t = .ok i := by
    unfold tableIndex at hok ⊢
    dsimp only at hok ⊢
    by_cases h0 : sc.histLengths.getD t 0 = 0
    · rwa [if_pos h0] at hok ⊢
    · rw [if_neg h0] at hok ⊢
      obtain ⟨v, hv, hok⟩ := bind_eq_ok.mp hok
      exact bind_eq_ok.mpr ⟨v, foldHist_mono hv (le_max_right _ _), hok⟩
  exact Except.ok.inj (hmore.symm.trans hmax)

theorem tableIndex_lt {config : ScConfig} {sc : StatCorrector} (h : Shape config sc) {t rounds i : Nat}
    {pc : U64} {ghr : Ghr}
    (hok : tableIndex rounds sc pc ghr t = .ok i) : i < sc.tableSize := by
  unfold tableIndex at hok
  dsimp only at hok
  by_cases h0 : sc.histLengths.getD t 0 = 0
  · rw [if_pos h0] at hok
    obtain rfl := Except.ok.inj hok
    exact h.index_lt _
  · rw [if_neg h0] at hok
    obtain ⟨v, -, hok⟩ := bind_eq_ok.mp hok
    obtain rfl := Except.ok.inj hok
    exact h.index_lt _

theorem shlOne_eq {s : Nat} (hs : s < 31) : shlOne s = .ok (2 ^ s) := by
  have hall : ∀ s < 31, (1#32 <<< s).toInt = 2 ^ s := by decide
  unfold shlOne
  rw [if_pos (by omega), hall s hs]

/-- A counter is bounded and cut to eight bits, for a width of one to 31. -/
theorem clampCounter_eq_ok {val x : Int} {bits : Nat} :
    clampCounter val bits = .ok x ↔ (1 ≤ bits ∧ bits ≤ 31) ∧
        x = (BitVec.ofInt 8 (Rvsim.clampCounter val bits)).toInt := by
  unfold clampCounter
  by_cases h1 : 1 ≤ bits
  · rw [subNat_eq_ok.mpr ⟨h1, rfl⟩, ok_bind]
    by_cases h31 : bits ≤ 31
    · have hpow : (2 : Int) ^ (bits - 1) ≤ 2 ^ 30 := pow_le_pow_right₀ (by decide) (by omega)
      have hpos : (1 : Int) ≤ 2 ^ (bits - 1) := one_le_pow₀ (by decide)
      rw [shlOne_eq (by omega), ok_bind, exact_ok ⟨by norm_num; omega, by norm_num; omega⟩, ok_bind,
        exact_ok ⟨by norm_num; omega, by norm_num; omega⟩, ok_bind]
      exact ⟨fun h => ⟨⟨h1, h31⟩, (Except.ok.inj h).symm⟩, fun h => congrArg Except.ok h.2.symm⟩
    · refine iff_of_false (fun h => ?_) fun h => h31 h.1.2
      obtain ⟨one, hone, h⟩ := bind_eq_ok.mp h
      unfold shlOne at hone
      split_ifs at hone with h32
      obtain rfl : bits = 32 := by omega
      obtain rfl := Except.ok.inj hone
      obtain ⟨hi, hhi, -⟩ := bind_eq_ok.mp h
      exact absurd (exact_eq_ok.mp hhi).1 (by decide)
  · refine iff_of_false (fun h => ?_) fun h => h1 h.1.1
    obtain ⟨s, hs, -⟩ := bind_eq_ok.mp h
    exact h1 (subNat_eq_ok.mp hs).1

end Strict

/-! ### Where nothing stops -/

/-- A counter after an update. -/
def moved (taken : Bool) (bits : Nat) (v : Int) : Int := if taken then Rvsim.clampCounter (v + 1) bits else
    Rvsim.clampCounter (v - 1) bits

/-- Counters within their widths, choosers and thresholds in their bounds. -/
structure Inv (config : ScConfig) (sc : StatCorrector) : Prop where
  shape : Shape config sc
  counters : ∀ v ∈ sc.counters, Checked.InRange config.counterBits v
  bias : ∀ v ∈ sc.bias, Checked.InRange config.biasCounterBits v
  biasSk : ∀ v ∈ sc.biasSk, Checked.InRange config.biasCounterBits v
  biasBank : ∀ v ∈ sc.biasBank, Checked.InRange config.biasCounterBits v
  firstH : -64 ≤ sc.firstH ∧ sc.firstH ≤ 63
  secondH : -64 ≤ sc.secondH ∧ sc.secondH ≤ 63
  perPc : ∀ v ∈ sc.perPcThreshold, -16 ≤ v ∧ v ≤ 15
  threshold : -2 ^ 31 < sc.updateThreshold ∧ sc.updateThreshold < 2 ^ 31 - 1

namespace Strict

open Checked

variable {bits : Nat} {v : Int} {taken : Bool}

/-- A width of at most eight bits is within eight bits. -/
theorem inRange_eight (hb : bits ≤ 8) (hv : InRange bits v) : InRange 8 v := by
  have hpow : (2 : Int) ^ (bits - 1) ≤ 2 ^ 7 := pow_le_pow_right₀ (by decide) (by omega)
  obtain ⟨hlo, hhi⟩ := hv
  constructor
  · norm_num
    omega
  · norm_num
    omega

/-- A moved counter stays within its width and goes at most one toward the outcome. -/
theorem moved_spec (taken : Bool) (hv : InRange bits v) :
    InRange bits (moved taken bits v) ∧ (taken = true → v ≤ moved taken bits v ∧ moved taken bits v ≤ v + 1) ∧
      (taken = false → v - 1 ≤ moved taken bits v ∧ moved taken bits v ≤ v) := by
  have hpos : (1 : Int) ≤ 2 ^ (bits - 1) := one_le_pow₀ (by decide)
  obtain ⟨hlo, hhi⟩ := hv
  unfold moved Rvsim.clampCounter InRange
  cases taken with
  | true =>
    refine ⟨⟨?_, ?_⟩, fun _ => ⟨?_, ?_⟩, fun h => by cases h⟩
    all_goals rw [if_pos rfl]
    all_goals omega
  | false =>
    refine ⟨⟨?_, ?_⟩, fun h => (by cases h), fun _ => ⟨?_, ?_⟩⟩
    all_goals rw [if_neg Bool.false_ne_true]
    all_goals omega

theorem inRange_near (hb : InRange 8 v) {d : Int} (hd : -2 ^ 20 ≤ d ∧ d ≤ 2 ^ 20) : InRange 32 (v + d) := by
  obtain ⟨hlo, hhi⟩ := hb
  norm_num at hlo hhi hd
  constructor
  · norm_num
    omega
  · norm_num
    omega

theorem clampCounter_ok (hb : 1 ≤ bits ∧ bits ≤ 8) (val : Int) :
    clampCounter val bits = .ok (Rvsim.clampCounter val bits) := by
  refine clampCounter_eq_ok.mpr ⟨⟨hb.1, by omega⟩, ?_⟩
  have hpos : (1 : Int) ≤ 2 ^ (bits - 1) := one_le_pow₀ (by decide)
  have hrange : InRange bits (Rvsim.clampCounter val bits) := by
    unfold Rvsim.clampCounter
    constructor
    · omega
    · omega
  exact (toInt_ofInt (by decide) (inRange_eight hb.2 hrange)).symm

theorem move_ok (hb : 1 ≤ bits ∧ bits ≤ 8) (hv : InRange bits v) : move taken bits v = .ok (moved taken bits v) := by
  have h8 := inRange_eight hb.2 hv
  unfold move moved
  cases taken with
  | true =>
    rw [if_pos rfl, if_pos rfl, exact_ok (inRange_near h8 (d := 1) (by decide)), ok_bind]
    exact clampCounter_ok hb _
  | false =>
    rw [if_neg Bool.false_ne_true, if_neg Bool.false_ne_true, Int.sub_eq_add_neg,
      exact_ok (inRange_near h8 (d := -1) (by decide)), ok_bind]
    exact clampCounter_ok hb _

/-- A counter of eight bits adds at most 255 to a sum. -/
theorem addCentred_ok {s : Int} (hs : |s| ≤ 2 ^ 20) (hv : InRange 8 v) :
    addCentred s v = .ok (s + (2 * v + 1)) ∧ |s + (2 * v + 1)| ≤ |s| + 255 := by
  obtain ⟨hlo, hhi⟩ := hv
  norm_num at hs hlo hhi
  have hs' := abs_le.mp hs
  have h1 : InRange 32 (2 * v) := ⟨by norm_num; omega, by norm_num; omega⟩
  have h2 : InRange 32 (2 * v + 1) := ⟨by norm_num; omega, by norm_num; omega⟩
  have h3 : InRange 32 (s + (2 * v + 1)) := ⟨by norm_num; omega, by norm_num; omega⟩
  constructor
  · unfold addCentred
    rw [exact_ok h1, ok_bind, exact_ok h2, ok_bind, exact_ok h3]
  · refine (abs_add_le s (2 * v + 1)).trans ?_
    have hterm : |2 * v + 1| ≤ 255 := abs_le.mpr ⟨by omega, by omega⟩
    omega

theorem get_ok {l : List Int} {i : Nat} (hi : i < l.length) : get l i = .ok (l.getD i 0) ∧ l.getD i 0 ∈ l := by
  rw [List.getD_eq_getElem?_getD, List.getElem?_eq_getElem hi, Option.getD_some]
  exact ⟨get_eq_ok.mpr (List.getElem?_eq_getElem hi), List.getElem_mem hi⟩

/-- As many rounds as any history is long. -/
def roundsOf (config : ScConfig) : Nat := config.historyLengths.sum

theorem histLength_le (config : ScConfig) (t : Nat) : config.historyLengths.getD t 0 ≤ roundsOf config := by
  rw [List.getD_eq_getElem?_getD]
  cases h : config.historyLengths[t]? with
  | none => exact Nat.zero_le _
  | some hl => exact List.le_sum_of_mem (List.mem_of_getElem? h)

end Strict

namespace Inv

open Checked Strict

variable {config : ScConfig} {sc : StatCorrector}

/-- An entry of a table of counters, where the table is. -/
theorem counterIdx_lt (h : Inv config sc) {t : Nat} (ht : t < config.numTables) (pc : U64) (ghr : Ghr) :
    sc.counterIdx pc ghr t < sc.counters.length := by
  have hidx := h.shape.tableIndex_lt pc ghr t
  have hle : (t + 1) * sc.tableSize ≤ config.numTables * sc.tableSize := Nat.mul_le_mul_right _ ht
  rw [Nat.succ_mul] at hle
  unfold StatCorrector.counterIdx
  rw [h.shape.counters]
  omega

theorem counterIdx_ok (h : Inv config sc) (hf : config.Fits) {t : Nat} (ht : t < config.numTables)
    (pc : U64) (ghr : Ghr) :
    Strict.counterIdx (roundsOf config) sc pc ghr t = .ok (sc.counterIdx pc ghr t) := by
  have hlt := h.counterIdx_lt ht pc ghr
  have hroom := h.shape.room
  rw [h.shape.counters] at hlt
  unfold StatCorrector.counterIdx at hlt
  unfold Strict.counterIdx
  rw [tableIndex_ok h.shape ht (hf.folds t ht) (histLength_le config t), ok_bind, mulNat_ok (by omega), ok_bind,
      addNat_ok (by omega)]
  rfl

theorem effectiveThreshold_ok (h : Inv config sc) (pc : U64) :
    Strict.effectiveThreshold sc pc = .ok (sc.effectiveThreshold pc) := by
  obtain ⟨hget, hmem⟩ := get_ok (h.shape.perPc_lt pc)
  have hadj := h.perPc _ hmem
  have hthres := h.threshold
  norm_num at hthres
  unfold Strict.effectiveThreshold StatCorrector.effectiveThreshold
  rw [hget, ok_bind]
  refine exact_ok ?_
  generalize sc.perPcThreshold.getD (sc.perPcIdx pc) 0 = adj at hadj ⊢
  constructor
  · norm_num
    omega
  · norm_num
    omega

/-- An entry of eight bits is read and added. -/
theorem entry_ok {l : List Int} {i : Nat} {s : Int} (hi : i < l.length) (hl : ∀ v ∈ l, InRange 8 v)
    (hs : |s| ≤ 2 ^ 20) :
    get l i = .ok (l.getD i 0) ∧ addCentred s (l.getD i 0) = .ok (s + (2 * l.getD i 0 + 1)) ∧
      |s + (2 * l.getD i 0 + 1)| ≤ |s| + 255 := by
  obtain ⟨hget, hmem⟩ := get_ok hi
  exact ⟨hget, addCentred_ok hs (hl _ hmem)⟩

/-- **A prediction gives a result**, with a sum of few bits. -/
theorem predict_ok (h : Inv config sc) (hf : config.Fits) (b : ScBranch) :
    Strict.predict (roundsOf config) sc b.pc b.ghr b.scMeta = .ok (sc.predict b.pc b.ghr b.scMeta) ∧
      |(sc.predict b.pc b.ghr b.scMeta).2| ≤ 3060 := by
  have hbias := h.shape.bias_lt
  have h8 := fun v hv => inRange_eight hf.bias.2 (h.bias v hv)
  have h8sk := fun v hv => inRange_eight hf.bias.2 (h.biasSk v hv)
  have h8bank := fun v hv => inRange_eight hf.bias.2 (h.biasBank v hv)
  unfold Strict.predict StatCorrector.predict
  dsimp only
  obtain ⟨hadd0, hle0⟩ := addCentred_ok (s := 0) (by norm_num) b.ctr
  rw [abs_zero, Int.zero_add, zero_add] at hle0
  rw [Int.zero_add] at hadd0
  rw [hadd0, ok_bind]
  generalize 2 * b.scMeta.predCtr + 1 = s0 at hle0 ⊢
  obtain ⟨hget1, hadd1, hle1⟩ :=
    entry_ok (s := s0) (i := sc.biasIndex b.pc b.scMeta) (hbias _).1 h8 (by norm_num; omega)
  rw [hget1, ok_bind, hadd1, ok_bind]
  generalize s0 + (2 * sc.bias.getD (sc.biasIndex b.pc b.scMeta) 0 + 1) = s1 at hle1 ⊢
  obtain ⟨hget2, hadd2, hle2⟩ :=
    entry_ok (s := s1) (i := sc.biasSkIndex b.pc b.scMeta) (hbias _).2.1 h8sk (by norm_num; omega)
  rw [hget2, ok_bind, hadd2, ok_bind]
  generalize s1 + (2 * sc.biasSk.getD (sc.biasSkIndex b.pc b.scMeta) 0 + 1) = s2 at hle2 ⊢
  obtain ⟨hget3, hadd3, hle3⟩ :=
    entry_ok (s := s2) (i := sc.biasBankIndex b.pc b.scMeta) (hbias _).2.2 h8bank (by norm_num; omega)
  rw [hget3, ok_bind, hadd3, ok_bind]
  generalize s2 + (2 * sc.biasBank.getD (sc.biasBankIndex b.pc b.scMeta) 0 + 1) = s3 at hle3 ⊢
  -- each table adds at most 255, and there are at most eight
  have htables := h.shape.numTables
  obtain ⟨hloop, hle⟩ := foldlM_ok (l := List.range sc.numTables) (b := s3)
    (f := fun sum t => do
      let i ← Strict.counterIdx (roundsOf config) sc b.pc b.ghr t
      addCentred sum (← get sc.counters i))
    (g := fun sum t => sum + (2 * sc.counters.getD (sc.counterIdx b.pc b.ghr t) 0 + 1))
    (fun n s => |s| + 255 * n ≤ 3060)
    (by
      intro n s t ht hs
      push_cast at hs
      have ht' : t < config.numTables := htables.1 ▸ List.mem_range.mp ht
      have h8c : ∀ v ∈ sc.counters, InRange 8 v := by
        have hbits := hf.counters.resolve_left (by omega)
        exact fun v hv => inRange_eight hbits.2 (h.counters v hv)
      obtain ⟨hget, hadd, hle⟩ := entry_ok (s := s) (h.counterIdx_lt ht' b.pc b.ghr) h8c (by norm_num; omega)
      rw [h.counterIdx_ok hf ht', ok_bind, hget, ok_bind]
      exact ⟨hadd, by omega⟩)
    (by
      rw [List.length_range, htables.1]
      omega)
  rw [hloop, ok_bind, h.effectiveThreshold_ok, ok_bind]
  generalize (List.range sc.numTables).foldl
      (fun sum t => sum + (2 * sc.counters.getD (sc.counterIdx b.pc b.ghr t) 0 + 1)) s3 = s4 at hle ⊢
  have hsum : |s4| ≤ 3060 := by omega
  have hnonneg := abs_nonneg s4
  rw [exact_ok ⟨by norm_num; omega, by norm_num; omega⟩, ok_bind]
  exact ⟨rfl, hsum⟩

theorem moveChooser_ok {c : Int} (hc : -64 ≤ c ∧ c ≤ 63) (scTaken taken : Bool) :
    moveChooser scTaken taken c = .ok (if scTaken == taken then min (c + 1) 63 else max (c - 1) (-64)) := by
  unfold moveChooser
  split
  · rw [exact_ok ⟨by norm_num; omega, by norm_num; omega⟩]
    rfl
  · rw [exact_ok ⟨by norm_num; omega, by norm_num; omega⟩]
    rfl

theorem trainChoosers_ok (h : Inv config sc) (taken scTaken : Bool) (m : TageScMeta) (sumAbs thres : Int) :
    Strict.trainChoosers sc taken scTaken m sumAbs thres = .ok (sc.trainChoosers taken scTaken m sumAbs thres) := by
  unfold Strict.trainChoosers StatCorrector.trainChoosers
  dsimp only
  rw [moveChooser_ok h.secondH, moveChooser_ok h.firstH]
  split_ifs
  all_goals rfl

theorem trainChoosers (h : Inv config sc) (taken scTaken : Bool) (m : TageScMeta) (sumAbs thres : Int) :
    Inv config (sc.trainChoosers taken scTaken m sumAbs thres) := by
  have hmove : ∀ c : Int, -64 ≤ c ∧ c ≤ 63 → -64 ≤ (if scTaken == taken then min (c + 1) 63 else max (c - 1) (-64)) ∧
      (if scTaken == taken then min (c + 1) 63 else max (c - 1) (-64)) ≤ 63 := by
    intro c hc
    split
    · omega
    · omega
  have hsecond := hmove _ h.secondH
  have hfirst := hmove _ h.firstH
  unfold StatCorrector.trainChoosers
  dsimp only
  by_cases h1 : m.conf = .high ∧ sumAbs ≥ thres.tdiv 4 ∧ sumAbs < thres.tdiv 2
  · rw [if_pos h1]
    by_cases h2 : m.conf = .medium ∧ sumAbs < thres.tdiv 4
    · rw [if_pos h2]
      exact { h with firstH := hfirst, secondH := hsecond, shape := { h.shape with } }
    · rw [if_neg h2]
      exact { h with secondH := hsecond, shape := { h.shape with } }
  · rw [if_neg h1]
    by_cases h2 : m.conf = .medium ∧ sumAbs < thres.tdiv 4
    · rw [if_pos h2]
      exact { h with firstH := hfirst, shape := { h.shape with } }
    · rw [if_neg h2]
      exact h

theorem trainThreshold_ok (h : Inv config sc) (pc : U64) (taken scTaken : Bool) :
    Strict.trainThreshold sc pc taken scTaken = .ok (sc.trainThreshold pc taken scTaken) := by
  have hthres := h.threshold
  norm_num at hthres
  have hper : ∀ d : Int, d = 1 ∨ d = -1 → ∀ v ∈ sc.perPcThreshold, exact 8 (v + d) = .ok (v + d) := by
    intro d hd v hv
    have hv' := h.perPc v hv
    refine exact_ok ⟨?_, ?_⟩
    · norm_num
      omega
    · norm_num
      omega
  unfold Strict.trainThreshold StatCorrector.trainThreshold
  split
  · rw [exact_ok ⟨by norm_num; omega, by norm_num; omega⟩, ok_bind,
      alter_ok (h.shape.perPc_lt pc) (g := fun v => max (v - 1) (-16))]
    · rfl
    · intro v hv
      rw [Int.sub_eq_add_neg, hper (-1) (.inr rfl) v hv]
      rfl
  · rw [exact_ok ⟨by norm_num; omega, by norm_num; omega⟩, ok_bind,
      alter_ok (h.shape.perPc_lt pc) (g := fun v => min (v + 1) 15)]
    · rfl
    · intro v hv
      rw [hper 1 (.inl rfl) v hv]
      rfl

theorem trainThreshold (h : Inv config sc) (pc : U64) (taken scTaken : Bool) :
    Inv config (sc.trainThreshold pc taken scTaken) := by
  have hthres := h.threshold
  norm_num at hthres
  have hdown : -2 ^ 31 < max (sc.updateThreshold - 1) 0 ∧ max (sc.updateThreshold - 1) 0 < 2 ^ 31 - 1 := by
    norm_num
    omega
  have hup : -2 ^ 31 < min (sc.updateThreshold + 1) 511 ∧ min (sc.updateThreshold + 1) 511 < 2 ^ 31 - 1 := by
    norm_num
    omega
  obtain ⟨k, hk, hmask, hlen⟩ := h.shape.perPc
  unfold StatCorrector.trainThreshold
  split
  · refine { h with
      shape := { h.shape with perPc := ⟨k, hk, hmask, (List.length_modify ..).trans hlen⟩ }
      perPc := Tables.all_modify h.perPc (fun v hv => ⟨by omega, by omega⟩) _
      threshold := hdown }
  · refine { h with
      shape := { h.shape with perPc := ⟨k, hk, hmask, (List.length_modify ..).trans hlen⟩ }
      perPc := Tables.all_modify h.perPc (fun v hv => ⟨by omega, by omega⟩) _
      threshold := hup }

theorem counterIdx_nodup (h : Inv config sc) (pc : U64) (ghr : Ghr) :
    ((List.range sc.numTables).map (sc.counterIdx pc ghr)).Nodup := by
  have htable : ∀ t, sc.counterIdx pc ghr t / sc.tableSize = t := by
    intro t
    have hidx := h.shape.tableIndex_lt pc ghr t
    unfold StatCorrector.counterIdx
    rw [Nat.mul_comm, Nat.mul_add_div (by omega), Nat.div_eq_of_lt hidx, Nat.add_zero]
  refine List.nodup_range.map fun t t' heq => ?_
  rw [← htable t, ← htable t', heq]

/-- The tables of counters after a training. -/
theorem trainCounters_eq (sc : StatCorrector) (pc : U64) (ghr : Ghr) (taken : Bool) (m : TageScMeta) :
    sc.trainCounters pc ghr taken m = { sc with
      bias := Rows.modifyAll (moved taken sc.biasCounterBits) [sc.biasIndex pc m] sc.bias
      biasSk := Rows.modifyAll (moved taken sc.biasCounterBits) [sc.biasSkIndex pc m] sc.biasSk
      biasBank := Rows.modifyAll (moved taken sc.biasCounterBits) [sc.biasBankIndex pc m] sc.biasBank
      counters := Rows.modifyAll (moved taken sc.counterBits)
          ((List.range sc.numTables).map (sc.counterIdx pc ghr)) sc.counters } := by
  unfold Rows.modifyAll
  rw [List.foldl_map]
  rfl

theorem trainCounters_ok (h : Inv config sc) (hf : config.Fits) (pc : U64) (ghr : Ghr) (taken : Bool) (m : TageScMeta) :
    Strict.trainCounters (roundsOf config) sc pc ghr taken m = .ok (sc.trainCounters pc ghr taken m) := by
  have hbias := h.shape.bias_lt
  have hmove : ∀ v, InRange config.biasCounterBits v →
      move taken sc.biasCounterBits v = .ok (moved taken sc.biasCounterBits v) := by
    rw [h.shape.biasCounterBits]
    exact fun v hv => move_ok hf.bias hv
  unfold Strict.trainCounters
  rw [alter_ok (i := sc.biasIndex pc m) (hbias _).1 fun v hv => hmove v (h.bias v hv), ok_bind,
    alter_ok (i := sc.biasSkIndex pc m) (hbias _).2.1 fun v hv => hmove v (h.biasSk v hv), ok_bind,
    alter_ok (i := sc.biasBankIndex pc m) (hbias _).2.2 fun v hv => hmove v (h.biasBank v hv), ok_bind]
  have htables := h.shape.numTables
  obtain ⟨hloop, -⟩ := foldlM_ok (l := List.range sc.numTables) (b := sc.counters)
    (f := fun cs t => do
      let i ← Strict.counterIdx (roundsOf config) sc pc ghr t
      alter cs i (move taken sc.counterBits))
    (g := fun cs t => cs.modify (sc.counterIdx pc ghr t) (moved taken sc.counterBits))
    (fun _ cs => cs.length = sc.counters.length ∧ ∀ v ∈ cs, InRange config.counterBits v)
    (by
      rintro n cs t ht ⟨hlen, hcs⟩
      have ht' : t < config.numTables := htables.1 ▸ List.mem_range.mp ht
      have hbits := hf.counters.resolve_left (by omega)
      rw [h.counterIdx_ok hf ht', ok_bind, h.shape.counterBits]
      refine ⟨alter_ok (hlen ▸ h.counterIdx_lt ht' pc ghr) fun v hv => move_ok hbits (hcs v hv), ?_, ?_⟩
      · exact (List.length_modify ..).trans hlen
      · exact Tables.all_modify hcs (fun v hv => (moved_spec taken hv).1) _)
    ⟨rfl, h.counters⟩
  rw [hloop]
  rfl

end Inv

end StatCorrector

/-! ### Runs that fit -/

namespace ScRun

open Checked StatCorrector StatCorrector.Strict

variable {config : ScConfig} {sc : StatCorrector}

theorem tableRight_refl {c : ScCall} {bits : Nat} {l : List Int} (hl : ∀ v ∈ l, InRange bits v) :
    TableRight c bits l l :=
  ⟨List.forall₂_same.mpr fun v _ => c.moves_refl v, hl⟩

/-- Counters of a table that are moved once each. -/
theorem tableRight_modifyAll {b : ScBranch} {taken : Bool} {prediction bits : Nat} {l : List Int}
    (hl : ∀ v ∈ l, InRange bits v)
    {is : List Nat} (his : is.Nodup) :
    TableRight (.update b taken prediction) bits l (Rows.modifyAll (moved taken bits) is l) := by
  have hmoves : ∀ v, InRange bits v → (ScCall.update b taken prediction).Moves v (moved taken bits v) := by
    intro v hv
    obtain ⟨-, hup, hdown⟩ := moved_spec taken hv
    cases taken with
    | true => exact hup rfl
    | false => exact hdown rfl
  constructor
  · refine List.forall₂_iff_get.mpr ⟨(Rows.length_modifyAll is l).symm, fun i h1 h2 => ?_⟩
    have hget := Rows.getElem?_modifyAll (g := moved taken bits) his l i
    rw [List.getElem?_eq_getElem h1, List.getElem?_eq_getElem h2, Option.map_some] at hget
    rw [List.get_eq_getElem, List.get_eq_getElem, Option.some.inj hget]
    dsimp only
    split
    · exact hmoves _ (hl _ (List.getElem_mem h1))
    · exact ScCall.moves_refl _ _
  · intro v hv
    obtain ⟨i, hi⟩ := List.mem_iff_getElem?.mp hv
    rw [Rows.getElem?_modifyAll his, Option.map_eq_some_iff] at hi
    obtain ⟨w, hw, rfl⟩ := hi
    have hrange := hl w (List.mem_of_getElem? hw)
    split
    · exact (moved_spec taken hrange).1
    · exact hrange

end ScRun

namespace StatCorrector

namespace Inv

open Checked Strict

variable {config : ScConfig} {sc : StatCorrector}

theorem trainCounters (h : Inv config sc) (pc : U64) (ghr : Ghr) (taken : Bool) (m : TageScMeta) :
    Inv config (sc.trainCounters pc ghr taken m) := by
  obtain ⟨k, hk, hmask, h1, h2, h3⟩ := h.shape.bias
  have hmoved : ∀ {width bits : Nat} {l : List Int}, width = bits → (∀ v ∈ l, InRange bits v) → ∀ is,
      ∀ v ∈ Rows.modifyAll (moved taken width) is l, InRange bits v := by
    rintro width bits l rfl hl is
    induction is generalizing l with
    | nil => exact hl
    | cons i is ih => exact ih (Tables.all_modify hl (fun v hv => (moved_spec taken hv).1) i)
  rw [trainCounters_eq]
  exact { h with
    shape := { h.shape with
      counters := (Rows.length_modifyAll ..).trans h.shape.counters
      bias := ⟨k, hk, hmask, (Rows.length_modifyAll ..).trans h1, (Rows.length_modifyAll ..).trans h2,
          (Rows.length_modifyAll ..).trans h3⟩ }
    counters := hmoved h.shape.counterBits h.counters _
    bias := hmoved h.shape.biasCounterBits h.bias _
    biasSk := hmoved h.shape.biasCounterBits h.biasSk _
    biasBank := hmoved h.shape.biasCounterBits h.biasBank _ }

/-- The corrector once the choosers and the thresholds are trained. -/
def adapted (sc : StatCorrector) (pc : U64) (taken : Bool) (m : TageScMeta) (sum : Int) : StatCorrector :=
  if decide (sum ≥ 0) ≠ m.predTaken then
    (sc.trainChoosers taken (decide (sum ≥ 0)) m |sum| (sc.effectiveThreshold pc)).trainThreshold pc taken
        (decide (sum ≥ 0))
  else sc

theorem adapted_inv (h : Inv config sc) (pc : U64) (taken : Bool) (m : TageScMeta) (sum : Int) :
    Inv config (adapted sc pc taken m sum) := by
  unfold adapted
  split
  · exact (h.trainChoosers ..).trainThreshold ..
  · exact h

theorem update_eq (sc : StatCorrector) (pc : U64) (ghr : Ghr) (taken : Bool) (m : TageScMeta) (sum : Int) :
    sc.update pc ghr taken m sum =
      if (if (adapted sc pc taken m sum).overrideDecision (decide (sum ≥ 0)) m |sum| (sc.effectiveThreshold pc) then
          decide (sum ≥ 0)
          else m.predTaken) ≠ taken ∨ |sum| < sc.effectiveThreshold pc then
              (adapted sc pc taken m sum).trainCounters pc ghr taken m
      else adapted sc pc taken m sum := by
  unfold StatCorrector.update adapted
  by_cases hne : decide (sum ≥ 0) ≠ m.predTaken
  · simp only [if_pos hne]
  · simp only [if_neg hne]

/-- **An update gives a result**, for a sum of few bits. -/
theorem update_ok (h : Inv config sc) (hf : config.Fits) (b : ScBranch) (taken : Bool) {sum : Int}
    (hsum : |sum| ≤ 3060) :
    Strict.update (roundsOf config) sc b.pc b.ghr taken b.scMeta sum =
        .ok (sc.update b.pc b.ghr taken b.scMeta sum) := by
  have hnonneg := abs_nonneg sum
  have hadapted := h.adapted_inv b.pc taken b.scMeta sum
  rw [update_eq]
  unfold Strict.update
  dsimp only
  rw [h.effectiveThreshold_ok, ok_bind, exact_ok ⟨by norm_num; omega, by norm_num; omega⟩, ok_bind]
  rw [apply_ite Except.ok, ← hadapted.trainCounters_ok hf]
  unfold adapted
  by_cases hne : decide (sum ≥ 0) ≠ b.scMeta.predTaken
  · simp only [if_pos hne]
    rw [h.trainChoosers_ok, ok_bind, (h.trainChoosers ..).trainThreshold_ok, ok_bind]
  · simp only [if_neg hne]
    rw [ok_bind, ok_bind]

theorem update (h : Inv config sc) (pc : U64) (ghr : Ghr) (taken : Bool) (m : TageScMeta) (sum : Int) :
    Inv config (sc.update pc ghr taken m sum) := by
  rw [update_eq]
  exact iteInduction (motive := Inv config) (fun _ => (h.adapted_inv ..).trainCounters ..) fun _ => h.adapted_inv ..

/-- The choosers and the thresholds are trained, and no counters. -/
theorem adapted_tables (sc : StatCorrector) (pc : U64) (taken : Bool) (m : TageScMeta) (sum : Int) :
    let sc' := adapted sc pc taken m sum
    sc'.counters = sc.counters ∧ sc'.bias = sc.bias ∧ sc'.biasSk = sc.biasSk ∧ sc'.biasBank = sc.biasBank := by
  unfold adapted StatCorrector.trainThreshold StatCorrector.trainChoosers
  dsimp only
  split_ifs
  all_goals exact ⟨rfl, rfl, rfl, rfl⟩

theorem trainChoosers_threshold (sc : StatCorrector) (taken scTaken : Bool) (m : TageScMeta) (sumAbs thres : Int) :
    (sc.trainChoosers taken scTaken m sumAbs thres).updateThreshold = sc.updateThreshold := by
  unfold StatCorrector.trainChoosers
  dsimp only
  split_ifs
  all_goals rfl

/-- A threshold within its bounds stays there. -/
theorem adapted_bounds (sc : StatCorrector) (pc : U64) (taken : Bool) (m : TageScMeta) (sum : Int)
    (hb : 0 ≤ sc.updateThreshold ∧ sc.updateThreshold ≤ 511) :
    0 ≤ (adapted sc pc taken m sum).updateThreshold ∧ (adapted sc pc taken m sum).updateThreshold ≤ 511 := by
  unfold adapted
  split
  · unfold StatCorrector.trainThreshold
    split
    · dsimp only
      rw [trainChoosers_threshold]
      omega
    · dsimp only
      rw [trainChoosers_threshold]
      omega
  · exact hb

end Inv

end StatCorrector

namespace ScRun

open Checked StatCorrector StatCorrector.Strict

variable {config : ScConfig} {sc : StatCorrector}

/-- What the state says of itself in `Right`. -/
theorem right_of_tables {r r' : ScRun} {c : ScCall} (h : Inv config r.sc) (h' : Inv config r'.sc)
    (hcounters : TableRight c r.sc.counterBits r.sc.counters r'.sc.counters)
    (hbias : TableRight c r.sc.biasCounterBits r.sc.bias r'.sc.bias)
    (hbiasSk : TableRight c r.sc.biasCounterBits r.sc.biasSk r'.sc.biasSk)
    (hbiasBank : TableRight c r.sc.biasCounterBits r.sc.biasBank r'.sc.biasBank)
    (hbounds : 0 ≤ r.sc.updateThreshold ∧ r.sc.updateThreshold ≤ 511 → 0 ≤ r'.sc.updateThreshold ∧
        r'.sc.updateThreshold ≤ 511) :
    r.Right c r' where
  indices := fun _ _ _ _ hok => Strict.tableIndex_lt h.shape hok
  counters := hcounters
  bias := hbias
  biasSk := hbiasSk
  biasBank := hbiasBank
  firstH := by
    have hc := h'.firstH
    exact ⟨by norm_num; omega, by norm_num; omega⟩
  secondH := by
    have hc := h'.secondH
    exact ⟨by norm_num; omega, by norm_num; omega⟩
  perPc := fun v hv => by
    have hc := h'.perPc v hv
    exact ⟨by norm_num; omega, by norm_num; omega⟩
  threshold := by
    have ht := h'.threshold
    norm_num at ht
    exact ⟨by norm_num; omega, by norm_num; omega⟩
  bounds := hbounds

theorem update_right {r : ScRun} (h : Inv config r.sc) (b : ScBranch) (taken : Bool) (prediction : Nat) (sum : Int) :
    r.Right (.update b taken prediction) { r with sc := r.sc.update b.pc b.ghr taken b.scMeta sum } := by
  have hadapted := h.adapted_inv b.pc taken b.scMeta sum
  obtain ⟨htables, htables1, htables2, htables3⟩ := Inv.adapted_tables r.sc b.pc taken b.scMeta sum
  have hbounds := Inv.adapted_bounds r.sc b.pc taken b.scMeta sum
  have hc := h.counters
  have hc1 := h.bias
  have hc2 := h.biasSk
  have hc3 := h.biasBank
  rw [← h.shape.counterBits] at hc
  rw [← h.shape.biasCounterBits] at hc1 hc2 hc3
  refine right_of_tables h (h.update ..) ?_ ?_ ?_ ?_ ?_
  all_goals rw [Inv.update_eq]
  all_goals generalize hsc' : Inv.adapted r.sc b.pc taken b.scMeta sum =
      sc' at hadapted htables htables1 htables2 htables3 hbounds ⊢
  all_goals have hbits : sc'.counterBits = r.sc.counterBits := hadapted.shape.counterBits.trans h.shape.counterBits.symm
  all_goals have hbits1 : sc'.biasCounterBits = r.sc.biasCounterBits :=
    hadapted.shape.biasCounterBits.trans h.shape.biasCounterBits.symm
  · refine iteInduction (motive := fun s : StatCorrector => TableRight _ _ _ s.counters) (fun _ => ?_) fun _ => ?_
    · rw [Inv.trainCounters_eq, hbits, htables]
      exact tableRight_modifyAll hc (hadapted.counterIdx_nodup ..)
    · rw [htables]
      exact tableRight_refl hc
  · refine iteInduction (motive := fun s : StatCorrector => TableRight _ _ _ s.bias) (fun _ => ?_) fun _ => ?_
    · rw [Inv.trainCounters_eq, hbits1, htables1]
      exact tableRight_modifyAll hc1 (List.nodup_singleton _)
    · rw [htables1]
      exact tableRight_refl hc1
  · refine iteInduction (motive := fun s : StatCorrector => TableRight _ _ _ s.biasSk) (fun _ => ?_) fun _ => ?_
    · rw [Inv.trainCounters_eq, hbits1, htables2]
      exact tableRight_modifyAll hc2 (List.nodup_singleton _)
    · rw [htables2]
      exact tableRight_refl hc2
  · refine iteInduction (motive := fun s : StatCorrector => TableRight _ _ _ s.biasBank) (fun _ => ?_) fun _ => ?_
    · rw [Inv.trainCounters_eq, hbits1, htables3]
      exact tableRight_modifyAll hc3 (List.nodup_singleton _)
    · rw [htables3]
      exact tableRight_refl hc3
  · intro hb
    refine iteInduction (motive := fun s : StatCorrector => 0 ≤ s.updateThreshold ∧ s.updateThreshold ≤ 511)
        (fun _ => ?_) fun _ => ?_
    · exact hbounds hb
    · exact hbounds hb

/-- **Every run from there is total**, for a configuration that fits. -/
theorem totalOn {r : ScRun} (h : Inv config r.sc) (hsums : ∀ s ∈ r.sums, |s| ≤ 3060) (hf : config.Fits)
    (cs : List ScCall) : r.TotalOn cs := by
  induction cs generalizing r with
  | nil => trivial
  | cons c cs ih =>
    have hc := h.counters
    have hc1 := h.bias
    have hc2 := h.biasSk
    have hc3 := h.biasBank
    rw [← h.shape.counterBits] at hc
    rw [← h.shape.biasCounterBits] at hc1 hc2 hc3
    have hsame : ∀ r' : ScRun, r'.sc = r.sc → r.Right c r' := by
      intro r' hr'
      refine right_of_tables h (hr' ▸ h) ?_ ?_ ?_ ?_ ?_
      all_goals rw [hr']
      · exact tableRight_refl hc
      · exact tableRight_refl hc1
      · exact tableRight_refl hc2
      · exact tableRight_refl hc3
      · exact id
    cases c with
    | predict b =>
      obtain ⟨hok, hle⟩ := h.predict_ok hf b
      refine ⟨roundsOf config, ⟨r.sc, r.sums ++ [(r.sc.predict b.pc b.ghr b.scMeta).2]⟩, ?_, hsame _ rfl, ih h ?_⟩
      · unfold call
        dsimp only
        rw [hok, ok_bind]
        rfl
      · intro s hs
        rcases List.mem_append.mp hs with hs | hs
        · exact hsums s hs
        · obtain rfl := List.mem_singleton.mp hs
          exact hle
    | update b taken prediction =>
      cases hsum : r.sums[prediction]? with
      | none =>
        refine ⟨0, r, ?_, hsame _ rfl, ih h hsums⟩
        unfold call
        dsimp only
        rw [hsum]
      | some sum =>
        refine ⟨roundsOf config, ⟨r.sc.update b.pc b.ghr taken b.scMeta sum, r.sums⟩, ?_,
            update_right h b taken prediction sum,
          ih (h.update ..) hsums⟩
        unfold call
        dsimp only
        rw [hsum]
        dsimp only
        rw [h.update_ok hf b taken (hsums sum (List.mem_of_getElem? hsum)), ok_bind]
        rfl

end ScRun

/-! ### A new corrector -/

namespace StatCorrector

open Checked Strict

variable {config : ScConfig} {sc : StatCorrector}

/-- A corrector that is built has its configuration's shape, counters at zero and the shifted threshold. -/
structure Fresh (config : ScConfig) (sc : StatCorrector) : Prop where
  shape : Shape config sc
  counters : ∀ v ∈ sc.counters, v = 0
  bias : ∀ v ∈ sc.bias, v = 0
  biasSk : ∀ v ∈ sc.biasSk, v = 0
  biasBank : ∀ v ∈ sc.biasBank, v = 0
  perPc : ∀ v ∈ sc.perPcThreshold, v = 0
  choosers : sc.firstH = -1 ∧ sc.secondH = -1
  threshold : sc.updateThreshold = (BitVec.ofNat 32 config.initialThreshold <<< 3).toInt

theorem Strict.nextPowerOfTwo_eq_ok {n m : Nat} :
    nextPowerOfTwo n = .ok m ↔ n.nextPowerOfTwo < 2 ^ 64 ∧ m = n.nextPowerOfTwo := ite_eq_ok

theorem Strict.zeros_eq_ok {n : Nat} {l : List Int} : zeros n = .ok l ↔ n < 2 ^ 63 ∧ l = List.replicate n 0 := ite_eq_ok

theorem Strict.shlSize_eq_ok {s n : Nat} : shlSize s = .ok n ↔ s < 64 ∧ n = 1 <<< s := ite_eq_ok

theorem fresh_new (h : Strict.new config = .ok sc) : Fresh config sc := by
  have h8 : config.numTables ≤ 8 := by
    by_contra hc
    unfold Strict.new at h
    rw [if_neg hc] at h
    cases h
  unfold Strict.new at h
  rw [if_pos h8] at h
  simp only [bind_eq_ok, nextPowerOfTwo_eq_ok, mulNat_eq_ok, zeros_eq_ok, shlSize_eq_ok] at h
  obtain ⟨tableSize, ⟨hts, rfl⟩, biasSize, ⟨hbs, rfl⟩, perPcSize, ⟨hbits, rfl⟩, room, ⟨-, rfl⟩, counters,
      ⟨hroom, rfl⟩, bias, ⟨-, rfl⟩,
    perPc, ⟨-, rfl⟩, h⟩ := h
  obtain rfl := Except.ok.inj h
  obtain ⟨k, hk⟩ := Nat.isPowerOfTwo_nextPowerOfTwo config.biasTableSize
  have hk64 : k < 64 := by
    rw [hk] at hbs
    exact (Nat.pow_lt_pow_iff_right (by decide)).mp hbs
  refine ⟨⟨⟨rfl, h8⟩, rfl, ⟨rfl, hts⟩, rfl, rfl, rfl, hroom, List.length_replicate, ⟨k, hk64, ?_⟩,
      ⟨config.perPcThresholdBits, hbits, ?_⟩⟩,
    ?_, ?_, ?_, ?_, ?_, ⟨rfl, rfl⟩, rfl⟩
  · dsimp only
    rw [hk, List.length_replicate]
    exact ⟨rfl, rfl, rfl, rfl⟩
  · dsimp only
    rw [Nat.shiftLeft_eq, Nat.one_mul, List.length_replicate]
    exact ⟨rfl, rfl⟩
  all_goals exact fun v hv => List.eq_of_mem_replicate hv

/-- The shifted threshold is a multiple of eight, and the least number of 32 bits for one in 2^29. -/
theorem threshold_spec (n : Nat) :
    let t := (BitVec.ofNat 32 n <<< 3).toInt
    t < 2 ^ 31 - 1 ∧ -2 ^ 31 ≤ t ∧ (t = -2 ^ 31 ↔ n % 2 ^ 29 = 2 ^ 28) := by
  have hnat : (BitVec.ofNat 32 n <<< 3).toNat = n % 2 ^ 29 * 8 := by
    rw [BitVec.toNat_shiftLeft, BitVec.toNat_ofNat, Nat.shiftLeft_eq]
    omega
  dsimp only
  rw [BitVec.toInt_eq_toNat_cond, hnat]
  split
  · norm_num
    omega
  · norm_num
    omega

theorem Fresh.inv (h : Fresh config sc) (hf : config.Fits) : Inv config sc := by
  have hzero : ∀ {bits : Nat} {l : List Int}, (∀ v ∈ l, v = 0) → ∀ v ∈ l, InRange bits v := by
    intro bits l hl v hv
    rw [hl v hv]
    exact inRange_zero bits
  obtain ⟨hhi, hlo, hmin⟩ := threshold_spec config.initialThreshold
  have hne := mt hmin.mp hf.threshold
  obtain ⟨hfirst, hsecond⟩ := h.choosers
  refine ⟨h.shape, hzero h.counters, hzero h.bias, hzero h.biasSk, hzero h.biasBank, ?_, ?_, ?_, ?_⟩
  · rw [hfirst]
    decide
  · rw [hsecond]
    decide
  · intro v hv
    rw [h.perPc v hv]
    decide
  · rw [h.threshold]
    exact ⟨lt_of_le_of_ne hlo (Ne.symm hne), hhi⟩

theorem Strict.addCentred_eq {s v c : Int} (h : addCentred s v = .ok c) : c = s + (2 * v + 1) := by
  unfold addCentred at h
  simp only [bind_eq_ok, exact_eq_ok] at h
  obtain ⟨_, ⟨-, rfl⟩, _, ⟨-, rfl⟩, -, rfl⟩ := h
  rfl

/-- A prediction of a new corrector from the least counter of TAGE: the sum is negative, and the loops ended. -/
theorem Fresh.predict (h : Fresh config sc) {b : ScBranch} (hctr : b.scMeta.predCtr = -128) {rounds : Nat}
    {p : Bool × Int}
    (hok : Strict.predict rounds sc b.pc b.ghr b.scMeta = .ok p) : p.2 < 0 ∧
        ∀ t < config.numTables, config.FoldEnds t := by
  unfold Strict.predict at hok
  simp only [bind_eq_ok, get_eq_ok] at hok
  obtain ⟨s0, h0, v1, hv1, s1, h1, v2, hv2, s2, h2, v3, hv3, s3, h3, s4, h4, _, -, _, -, hp⟩ := hok
  obtain ⟨htables, h8⟩ := h.shape.numTables
  constructor
  · have hcount := foldlM_count (d := 1) (fun s s' t _ hround => by
      simp only [bind_eq_ok, get_eq_ok] at hround
      obtain ⟨i, -, v, hv, hadd⟩ := hround
      rw [addCentred_eq hadd, h.counters v (List.mem_of_getElem? hv)]
      rfl) h4
    rw [List.length_range, htables] at hcount
    obtain rfl := Except.ok.inj hp
    have e0 := addCentred_eq h0
    have e1 := addCentred_eq h1
    have e2 := addCentred_eq h2
    have e3 := addCentred_eq h3
    rw [h.bias v1 (List.mem_of_getElem? hv1)] at e1
    rw [h.biasSk v2 (List.mem_of_getElem? hv2)] at e2
    rw [h.biasBank v3 (List.mem_of_getElem? hv3)] at e3
    dsimp only
    omega
  · intro t ht
    obtain ⟨s, s', hround⟩ := foldlM_mem h4 (List.mem_range.mpr (htables ▸ ht))
    obtain ⟨i, hi, -⟩ := bind_eq_ok.mp hround
    obtain ⟨idx, hidx, -⟩ := bind_eq_ok.mp hi
    exact foldEnds_of_ok h.shape ht hidx

/-- An update of a branch that both said would not be taken and that was taken trains the counters. -/
theorem Strict.trains_of_update {rounds : Nat} {b : ScBranch} {sum : Int} {sc' : StatCorrector} (hneg : sum < 0)
    (hpred : b.scMeta.predTaken = false) (hok : Strict.update rounds sc b.pc b.ghr true b.scMeta sum = .ok sc') :
    Strict.trainCounters rounds sc b.pc b.ghr true b.scMeta = .ok sc' := by
  have hd : decide (sum ≥ 0) = false := decide_eq_false (by omega)
  have hno : ∀ a thres, sc.overrideDecision false b.scMeta a thres = false := fun a thres => if_pos hpred.symm
  unfold Strict.update at hok
  simp only [bind_eq_ok] at hok
  obtain ⟨thres, -, a, -, hok⟩ := hok
  simpa [hd, hpred, hno] using hok

/-- Only the counters differ. -/
def Twin (sc sc' : StatCorrector) : Prop :=
  sc' = { sc with counters := sc'.counters, bias := sc'.bias, biasSk := sc'.biasSk, biasBank := sc'.biasBank }

theorem Twin.refl (sc : StatCorrector) : Twin sc sc := rfl

/-- The counters that a training of the strict corrector makes. -/
theorem Twin.trained {sc' : StatCorrector} (h : Twin sc sc') {rounds : Nat} {b : ScBranch} {sc'' : StatCorrector}
    (hok : Strict.trainCounters rounds sc' b.pc b.ghr true b.scMeta = .ok sc'') :
    Twin sc sc'' ∧ alter sc'.bias (sc.biasIndex b.pc b.scMeta) (move true sc.biasCounterBits) = .ok sc''.bias ∧
      (List.range sc.numTables).foldlM (fun cs t => do
        let i ← Strict.counterIdx rounds sc b.pc b.ghr t
        alter cs i (move true sc.counterBits)) sc'.counters = .ok sc''.counters := by
  obtain ⟨cs, bias, biasSk, biasBank, rfl⟩ : ∃ cs bias biasSk biasBank,
      sc' = { sc with counters := cs, bias := bias, biasSk := biasSk, biasBank := biasBank } := ⟨_, _, _, _, h⟩
  unfold Strict.trainCounters at hok
  rw [bind_eq_ok] at hok
  obtain ⟨bias', hbias, hok⟩ := hok
  rw [bind_eq_ok] at hok
  obtain ⟨biasSk', -, hok⟩ := hok
  rw [bind_eq_ok] at hok
  obtain ⟨biasBank', -, hok⟩ := hok
  rw [bind_eq_ok] at hok
  obtain ⟨cs', hcs, hok⟩ := hok
  obtain rfl := Except.ok.inj hok
  exact ⟨rfl, hbias, hcs⟩

/-- A counter of nine or more bits goes up to 127, and from there down to -128. -/
theorem Strict.move_wide {bits : Nat} {v v' : Int} (hok : move true bits v = .ok v') :
    (1 ≤ bits ∧ bits ≤ 31) ∧ (9 ≤ bits → 0 ≤ v → v < 127 → v' = v + 1) ∧ (9 ≤ bits → v = 127 → v' = -128) := by
  unfold move at hok
  rw [if_pos rfl, bind_eq_ok] at hok
  obtain ⟨next, hnext, hok⟩ := hok
  obtain ⟨-, rfl⟩ := exact_eq_ok.mp hnext
  obtain ⟨hbits, rfl⟩ := clampCounter_eq_ok.mp hok
  have hclamp : 9 ≤ bits → 0 ≤ v → v ≤ 127 → Rvsim.clampCounter (v + 1) bits = v + 1 := by
    intro h9 h0 hv
    have hpow : (2 : Int) ^ 8 ≤ 2 ^ (bits - 1) := pow_le_pow_right₀ (by decide) (by omega)
    norm_num at hpow
    unfold Rvsim.clampCounter
    omega
  refine ⟨hbits, fun h9 h0 hv => ?_, fun h9 hv => ?_⟩
  · rw [hclamp h9 h0 (by omega)]
    exact toInt_ofInt (by decide) ⟨by norm_num; omega, by norm_num; omega⟩
  · rw [hclamp h9 (by omega) (by omega), hv]
    decide

end StatCorrector

namespace ScRun

open Checked StatCorrector StatCorrector.Strict

variable {config : ScConfig} {sc : StatCorrector} {b : ScBranch}

/-- A counter that every update moves up. -/
structure Climbs (sc : StatCorrector) (b : ScBranch) (tab : StatCorrector → List Int) (bits p : Nat) : Prop where
  moves : ∀ {rounds sc' sc'' v}, Twin sc sc' → Strict.trainCounters rounds sc' b.pc b.ghr true b.scMeta = .ok sc'' →
    (tab sc')[p]? = some v → ∃ v', move true bits v = .ok v' ∧ (tab sc'')[p]? = some v'
  right : ∀ {r r' : ScRun} {c : ScCall}, r.Right c r' → List.Forall₂ c.Moves (tab r.sc) (tab r'.sc)

/-- Updates of one branch with the sum of its prediction. -/
def again (b : ScBranch) (n : Nat) : List ScCall := List.replicate n (.update b true 0)

/-- The call of such an update trains the counters. -/
theorem trains_of_call {r r' : ScRun} {sum : Int} (hsum : r.sums[0]? = some sum) (hneg : sum < 0)
    (hpred : b.scMeta.predTaken = false)
    {rounds : Nat} (hok : r.call rounds (.update b true 0) = .ok r') :
    Strict.trainCounters rounds r.sc b.pc b.ghr true b.scMeta = .ok r'.sc ∧ r'.sums = r.sums := by
  unfold call at hok
  dsimp only at hok
  rw [hsum] at hok
  dsimp only at hok
  rw [bind_eq_ok] at hok
  obtain ⟨sc', hsc', hok⟩ := hok
  obtain rfl := Except.ok.inj hok
  exact ⟨trains_of_update hneg hpred hsc', rfl⟩

/-- A climbing counter of nine or more bits leaves no more updates than there are steps to 127. -/
theorem Climbs.steps {tab : StatCorrector → List Int} {bits p : Nat} (h : Climbs sc b tab bits p) (hbits : 9 ≤ bits)
    (hpred : b.scMeta.predTaken = false) {r : ScRun} {sum v : Int} (htwin : Twin sc r.sc) (hsum : r.sums[0]? = some sum)
    (hneg : sum < 0)
    (hv : (tab r.sc)[p]? = some v) (hrange : 0 ≤ v ∧ v ≤ 127) {n : Nat} (ht : r.TotalOn (again b n)) : v + n ≤ 127 := by
  induction n generalizing r v with
  | zero => simpa using hrange.2
  | succ n ih =>
    obtain ⟨rounds, r', hok, hright, ht⟩ := ht
    obtain ⟨htrain, hsums⟩ := trains_of_call hsum hneg hpred hok
    obtain ⟨v', hmove, hv'⟩ := h.moves htwin htrain hv
    obtain ⟨-, hup, hwrap⟩ := move_wide hmove
    obtain ⟨h1, hv1⟩ := List.getElem?_eq_some_iff.mp hv
    obtain ⟨h2, hv2⟩ := List.getElem?_eq_some_iff.mp hv'
    have hmoves := (h.right hright).get h1 h2
    rw [List.get_eq_getElem, List.get_eq_getElem, hv1, hv2] at hmoves
    have hlow : v ≤ v' := hmoves.1
    have hlt : v < 127 := by
      by_contra hc
      have hw := hwrap hbits (by omega)
      omega
    obtain rfl := hup hbits hrange.1 hlt
    have hrest := ih (htwin.trained htrain).1 (hsums ▸ hsum) hv' ⟨by omega, by omega⟩ ht
    push_cast
    omega

/-- **A climbing counter along 128 updates is of one to eight bits.** -/
theorem Climbs.width {tab : StatCorrector → List Int} {bits p : Nat} (h : Climbs sc b tab bits p)
    (hpred : b.scMeta.predTaken = false)
    {sum : Int} (hneg : sum < 0) (hv : (tab sc)[p]? = some 0) (ht : TotalOn ⟨sc, [sum]⟩ (again b 128)) :
        1 ≤ bits ∧ bits ≤ 8 := by
  have hfirst : 1 ≤ bits := by
    obtain ⟨rounds, r', hok, -, -⟩ := ht
    obtain ⟨htrain, -⟩ := trains_of_call (r := ⟨sc, [sum]⟩) rfl hneg hpred hok
    obtain ⟨v', hmove, -⟩ := h.moves (.refl sc) htrain hv
    exact (move_wide hmove).1.1
  refine ⟨hfirst, ?_⟩
  by_contra hc
  have hsteps := h.steps (by omega) hpred (r := ⟨sc, [sum]⟩) (.refl sc) rfl hneg hv ⟨le_refl 0, by decide⟩ ht
  omega

/-- The first bias counter of the branch climbs. -/
theorem climbs_bias (sc : StatCorrector) (b : ScBranch) :
    Climbs sc b (·.bias) sc.biasCounterBits (sc.biasIndex b.pc b.scMeta) where
  moves := by
    intro rounds sc' sc'' v htwin htrain hv
    obtain ⟨-, hbias, -⟩ := htwin.trained htrain
    obtain ⟨w, v', hw, hmove, hset⟩ := alter_eq_ok.mp hbias
    obtain rfl := Option.some.inj (hv.symm.trans hw)
    obtain ⟨hlt, -⟩ := List.getElem?_eq_some_iff.mp hv
    refine ⟨v', hmove, ?_⟩
    rw [hset, List.getElem?_set_self hlt]
  right := fun hright => hright.bias.1

/-- So does the counter of its first table. -/
theorem climbs_counters (h : Shape config sc) (hpos : 0 < config.numTables) (b : ScBranch) :
    Climbs sc b (·.counters) sc.counterBits (sc.counterIdx b.pc b.ghr 0) where
  moves := by
    intro rounds sc' sc'' v htwin htrain hv
    obtain ⟨-, -, hloop⟩ := htwin.trained htrain
    have hidx : ∀ {t i : Nat}, t < config.numTables → Strict.counterIdx rounds sc b.pc b.ghr t = .ok i →
        i = sc.counterIdx b.pc b.ghr t := by
      intro t i ht hi
      unfold Strict.counterIdx at hi
      simp only [bind_eq_ok, mulNat_eq_ok, addNat_eq_ok] at hi
      obtain ⟨idx, hidx, _, ⟨-, rfl⟩, -, rfl⟩ := hi
      rw [eq_tableIndex h ht hidx]
      rfl
    -- the tables after the first one are beyond the place
    have hbeyond : ∀ t, sc.counterIdx b.pc b.ghr 0 ≠ sc.counterIdx b.pc b.ghr (t + 1) := by
      intro t
      have hlt := h.tableIndex_lt b.pc b.ghr 0
      unfold StatCorrector.counterIdx
      rw [Nat.zero_mul, Nat.succ_mul]
      omega
    obtain ⟨n, hn⟩ : ∃ n, config.numTables = n + 1 := ⟨config.numTables - 1, by omega⟩
    rw [h.numTables.1, hn, List.range_succ_eq_map, List.foldlM_cons, bind_eq_ok] at hloop
    obtain ⟨cs, hfirst, hrest⟩ := hloop
    obtain ⟨i, hi, halter⟩ := bind_eq_ok.mp hfirst
    obtain rfl := hidx hpos hi
    obtain ⟨w, v', hw, hmove, rfl⟩ := alter_eq_ok.mp halter
    obtain rfl := Option.some.inj (hv.symm.trans hw)
    obtain ⟨hlt, -⟩ := List.getElem?_eq_some_iff.mp hv
    refine ⟨v', hmove, foldlM_inv (fun cs => cs[sc.counterIdx b.pc b.ghr 0]? = some v') ?_
        (List.getElem?_set_self hlt) hrest⟩
    intro cs cs' t ht hcs hround
    obtain ⟨t, ht', rfl⟩ := List.mem_map.mp ht
    have hlast := List.mem_range.mp ht'
    obtain ⟨i, hi, halter⟩ := bind_eq_ok.mp hround
    obtain rfl := hidx (by omega) hi
    obtain ⟨_, _, -, -, rfl⟩ := alter_eq_ok.mp halter
    rw [List.getElem?_set_ne (hbeyond t).symm]
    exact hcs
  right := fun hright => hright.counters.1

/-- A branch that TAGE, from its least counter, says is taken or not. -/
def probe (predTaken : Bool) : ScBranch where
  pc := 0
  ghr := .default
  scMeta := ⟨.low, 0, false, predTaken, -128⟩
  ctr := ⟨by norm_num, by norm_num⟩

/-- The run after the prediction of such a branch. -/
theorem after_probe (h : StatCorrector.Fresh config sc) {predTaken : Bool} {cs : List ScCall}
    (ht : TotalOn ⟨sc, []⟩ (.predict (probe predTaken) :: cs)) :
    (∀ t < config.numTables, config.FoldEnds t) ∧ ∃ sum < 0, TotalOn ⟨sc, [sum]⟩ cs := by
  obtain ⟨rounds, r', hok, -, ht⟩ := ht
  unfold call at hok
  dsimp only at hok
  rw [bind_eq_ok] at hok
  obtain ⟨p, hp, hok⟩ := hok
  obtain rfl := Except.ok.inj hok
  obtain ⟨hneg, hfolds⟩ := h.predict (b := probe predTaken) rfl hp
  exact ⟨hfolds, p.2, hneg, ht⟩

/-- An update that lowers the threshold stops at the least number of 32 bits. -/
theorem threshold_ne_of_total (h : StatCorrector.Fresh config sc) {sum : Int} (hneg : sum < 0)
    (ht : TotalOn ⟨sc, [sum]⟩ [.update (probe true) false 0]) : config.initialThreshold % 2 ^ 29 ≠ 2 ^ 28 := by
  intro hmod
  have hmin : sc.updateThreshold = -2 ^ 31 := h.threshold.trans ((threshold_spec config.initialThreshold).2.2.mpr hmod)
  obtain ⟨rounds, r', hok, -, -⟩ := ht
  have hd : decide (sum ≥ 0) = false := decide_eq_false (by omega)
  unfold call at hok
  dsimp only at hok
  rw [List.getElem?_cons_zero] at hok
  dsimp only at hok
  rw [bind_eq_ok] at hok
  obtain ⟨sc', hsc', -⟩ := hok
  have hlow : ∀ a thres, Strict.trainChoosers sc false false (probe true).scMeta a thres = .ok sc := fun a thres => rfl
  have hstop : Strict.trainThreshold sc (probe true).pc false false = .error .overflow := by
    unfold Strict.trainThreshold
    rw [if_pos (by decide), hmin]
    rfl
  unfold Strict.update at hsc'
  simp only [bind_eq_ok, hd, hlow] at hsc'
  obtain ⟨thres, -, a, -, hsc'⟩ := hsc'
  rw [if_pos (by decide), ok_bind, if_pos (by decide), hstop] at hsc'
  cases hsc'

/-- **Every run of a new corrector is total just when its configuration fits.** -/
theorem total_iff (h : Strict.new config = .ok sc) : (∀ calls, TotalOn ⟨sc, []⟩ calls) ↔ config.Fits := by
  have hfresh := fresh_new h
  constructor
  · intro hall
    obtain ⟨hfolds, sum, hneg, hagain⟩ := after_probe hfresh (hall (.predict (probe false) :: again (probe false) 128))
    obtain ⟨-, sum', hneg', hlower⟩ := after_probe hfresh (hall [.predict (probe true), .update (probe true) false 0])
    have hzero : ∀ {l : List Int} {i : Nat}, (∀ v ∈ l, v = 0) → i < l.length → l[i]? = some 0 := by
      intro l i hl hi
      rw [List.getElem?_eq_getElem hi, hl _ (List.getElem_mem hi)]
    have hbias := (climbs_bias sc (probe false)).width rfl hneg (hzero hfresh.bias (hfresh.shape.bias_lt _).1) hagain
    rw [hfresh.shape.biasCounterBits] at hbias
    refine ⟨hbias, ?_, hfolds, threshold_ne_of_total hfresh hneg' hlower⟩
    rcases Nat.eq_zero_or_pos config.numTables with h0 | hpos
    · exact .inl h0
    · have hplace : sc.counterIdx (probe false).pc (probe false).ghr 0 < sc.counters.length := by
        have hlt := hfresh.shape.tableIndex_lt (probe false).pc (probe false).ghr 0
        have hroom : 1 * sc.tableSize ≤ config.numTables * sc.tableSize := Nat.mul_le_mul_right _ hpos
        unfold StatCorrector.counterIdx
        rw [hfresh.shape.counters]
        omega
      have hcounters := (climbs_counters hfresh.shape hpos (probe false)).width rfl hneg
          (hzero hfresh.counters hplace) hagain
      rw [hfresh.shape.counterBits] at hcounters
      exact .inr hcounters
  · intro hf calls
    exact totalOn (hfresh.inv hf) (fun s hs => by cases hs) hf calls

/-- The configuration by default, of six tables. -/
def byDefault : ScConfig := ⟨6, 512, [0, 2, 4, 8, 12, 16], 3, 256, 6, 35, 6⟩

/-- A table of one entry, with a history of two. -/
def oneEntry : ScConfig := ⟨1, 1, [2], 3, 1, 6, 35, 0⟩

theorem total_byDefault : ∃ sc, Strict.new byDefault = .ok sc ∧ ∀ calls, TotalOn ⟨sc, []⟩ calls := by
  obtain ⟨sc, h⟩ := exists_ok (x := Strict.new byDefault) (by decide +kernel)
  have hbits : byDefault.tableSize.nextPowerOfTwo.log2 = 9 := by
    decide +kernel
  have hfolds : ∀ t < byDefault.numTables, byDefault.FoldEnds t := by
    unfold ScConfig.FoldEnds
    rw [hbits]
    decide
  exact ⟨sc, h, (total_iff h).mpr ⟨by decide, by decide, hfolds, by decide⟩⟩

/-- **The loop over the history of a table of one entry does not end.** -/
theorem total_fails : ∃ sc, Strict.new oneEntry = .ok sc ∧ ¬ ∀ calls, TotalOn ⟨sc, []⟩ calls := by
  obtain ⟨sc, h⟩ := exists_ok (x := Strict.new oneEntry) (by decide +kernel)
  refine ⟨sc, h, fun hall => ?_⟩
  obtain ⟨hfolds, -⟩ := after_probe (fresh_new h) (hall [.predict (probe false)])
  have hend : ¬ oneEntry.FoldEnds 0 := by
    unfold ScConfig.FoldEnds
    decide +kernel
  exact hend (hfolds 0 (by decide))

end ScRun

end Rvsim
