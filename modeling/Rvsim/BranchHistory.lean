/-
# Branch history

`bru/branch_predictor.rs` (`Ghr`), `bru/components/folded_history.rs`,
`bru/components/tagged_bank.rs` and the history side of `predictors/tage.rs`
and `predictors/sc_l_tage.rs`. Each bank of a TAGE predictor indexes its table
with folds of the last branch outcomes. The folds follow the history bit by
bit, once for the history fetch guesses and once for the committed one; a
repair recomputes them word by word or copies the committed ones.

What the tables hold, and the loop predictor and statistical corrector beside
them, does not move the histories and is left out.

Key definitions:
  - `Ghr`, `FoldedHistory`, `GeoBankSet`
  - `Histories`, `TagePredictor.new`, `ScLTagePredictor.new`
Key theorems:
  - `Ghr.bit_push`, `FoldedHistory.recompute_tracks`, `FoldedHistory.update_tracks`
  - `histories_fold_iff`
-/
import Rvsim.Common
import Rvsim.Lib.Folding

namespace Rvsim

/-! ### The history register -/

/-- Outcomes of branches, the latest in bit 0 of word 0, kept up to `len` bits. -/
structure Ghr where
  bits : Vector U64 16
  len : Nat
  deriving DecidableEq, Repr

namespace Ghr

/-- `Ghr::default`. -/
def default : Ghr := ⟨Vector.replicate 16 0, 0⟩

/-- More than the capacity is refused. -/
def withLen (maxBits : Nat) : Option Ghr :=
  if maxBits ≤ 16 * 64 then some ⟨Vector.replicate 16 0, maxBits⟩ else none

def word (g : Ghr) (idx : Nat) : U64 := if h : idx < 16 then g.bits[idx] else 0

/-- False beyond the storage. -/
def bit (g : Ghr) (pos : Nat) : Bool := (g.word (pos / 64)).getLsbD (pos % 64)

/-- All words move up by one bit. -/
def shifted (g : Ghr) (taken : Bool) (i : Nat) : U64 :=
  if i = 0 then (g.word 0 <<< 1) ||| (if taken then 1 else 0)
  else (g.word i <<< 1) ||| (g.word (i - 1) >>> 63)

/-- What `push` does to word `i` after the shift. -/
def masked (len i : Nat) (w : U64) : U64 :=
  if 0 < len ∧ len < 16 * 64 then
    if i < len / 64 then w
    else if i = len / 64 then if 0 < len % 64 then w &&& (((1 : U64) <<< (len % 64)) - 1) else 0
    else 0
  else w

def push (g : Ghr) (taken : Bool) : Ghr :=
  { g with bits := Vector.ofFn fun i => masked g.len i (g.shifted taken i) }

/-- How many bits the register keeps: a length of 0 is not masked. -/
def window (g : Ghr) : Nat := if 0 < g.len ∧ g.len < 16 * 64 then g.len else 16 * 64

end Ghr

/-! ### Folded registers -/

/-- The last `histLength` outcomes, folded into `foldWidth` bits. -/
structure FoldedHistory where
  val : U64
  foldWidth : Nat
  histLength : Nat
  deriving DecidableEq, Repr

namespace FoldedHistory

def new (foldWidth histLength : Nat) : FoldedHistory := ⟨0, foldWidth, histLength⟩

def mask (w : Nat) : U64 := ((1 : U64) <<< w) - 1

def ofBit (b : Bool) : U64 := if b then 1 else 0

/-- Rotate, put the new bit in, take the leaving one out; called before the history is pushed. -/
def update (f : FoldedHistory) (newBit oldBit : Bool) : FoldedHistory :=
  let w := f.foldWidth
  if w = 0 then f
  else
    let msb := (f.val >>> (w - 1)) &&& 1
    let v := ((f.val <<< 1) ||| msb) &&& mask w
    let v := v ^^^ ofBit newBit
    let v := v ^^^ (ofBit oldBit <<< (f.histLength % w))
    { f with val := v &&& mask w }

/-- The loop that folds a word into `w` bits; a word has at most 64 pieces. -/
def foldWord (w : Nat) : Nat → U64 → U64 → U64
  | 0, folded, _ => folded
  | n + 1, folded, v => if v = 0 then folded else foldWord w n (folded ^^^ (v &&& mask w)) (v >>> w)

/-- Bit `b` of word `wordIdx` belongs at `(wordIdx * 64 + b) % w`. -/
def aligned (w wordIdx : Nat) (folded : U64) : U64 :=
  let rot := (wordIdx * 64) % w
  if rot > 0 then ((folded <<< rot) ||| (folded >>> (w - rot))) &&& mask w else folded

/-- The word of the history, cut to the history length. -/
def cutWord (f : FoldedHistory) (ghr : Ghr) (wordIdx : Nat) : U64 :=
  let bitsInWord := min (f.histLength - wordIdx * 64) 64
  if bitsInWord < 64 then ghr.word wordIdx &&& mask bitsInWord else ghr.word wordIdx

/-- One iteration of `recompute`. -/
def recomputeWord (f : FoldedHistory) (ghr : Ghr) (result : U64) (wordIdx : Nat) : U64 :=
  let word := f.cutWord ghr wordIdx
  if word = 0 then result else result ^^^ aligned f.foldWidth wordIdx (foldWord f.foldWidth 64 0 word)

/-- Fold the history from scratch, word by word. -/
def recompute (f : FoldedHistory) (ghr : Ghr) : FoldedHistory :=
  if f.foldWidth = 0 then { f with val := 0 }
  else
    let result := (List.range ((f.histLength + 63) / 64)).foldl (f.recomputeWord ghr) 0
    { f with val := result &&& mask f.foldWidth }

end FoldedHistory

/-! ### Banks -/

/-- The four registers of a bank: two for its index, two for its tag. -/
structure FoldedCsrs where
  idx : FoldedHistory
  idx2 : FoldedHistory
  tag : FoldedHistory
  tag2 : FoldedHistory
  deriving DecidableEq, Repr

namespace FoldedCsrs

def new (tableBits tagWidth histLength : Nat) : FoldedCsrs :=
  { idx := .new tableBits histLength
    idx2 := .new (max (tableBits - 1) 1) histLength
    tag := .new tagWidth histLength
    tag2 := .new (max (tagWidth - 1) 1) histLength }

def update (c : FoldedCsrs) (taken oldBit : Bool) : FoldedCsrs :=
  ⟨c.idx.update taken oldBit, c.idx2.update taken oldBit, c.tag.update taken oldBit, c.tag2.update taken oldBit⟩

def recompute (c : FoldedCsrs) (ghr : Ghr) : FoldedCsrs :=
  ⟨c.idx.recompute ghr, c.idx2.recompute ghr, c.tag.recompute ghr, c.tag2.recompute ghr⟩

end FoldedCsrs

/-- A bank, with registers for the speculative and for the committed history. -/
structure GeoBank where
  histLength : Nat
  tagWidth : Nat
  spec : FoldedCsrs
  committed : FoldedCsrs
  deriving DecidableEq, Repr

/-- The bit about to leave the bank's window. -/
def GeoBank.oldBit (b : GeoBank) (ghr : Ghr) : Bool := if b.histLength > 0 then ghr.bit (b.histLength - 1) else false

/-- The banks in use, of at most `MAX_BANKS`. -/
structure GeoBankSet where
  tableBits : Nat
  banks : List GeoBank
  deriving DecidableEq, Repr

namespace GeoBankSet

def new (histLengths tagWidths : List Nat) (tableBits : Nat) : Option GeoBankSet :=
  if histLengths.length = tagWidths.length ∧ histLengths.length ≤ 16 then
    some ⟨tableBits, (histLengths.zip tagWidths).map fun (hl, tw) =>
      ⟨hl, tw, .new tableBits tw hl, .new tableBits tw hl⟩⟩
  else none

def tableMask (s : GeoBankSet) : U64 := FoldedHistory.mask s.tableBits

def index (s : GeoBankSet) (pc : U64) (c : FoldedCsrs) : U64 :=
  ((pc >>> 2) ^^^ c.idx.val ^^^ c.idx2.val) &&& s.tableMask

def tag (pc : U64) (width : Nat) (c : FoldedCsrs) : U16 :=
  ((((pc >>> 2) ^^^ (pc >>> 18)) ^^^ c.tag.val ^^^ c.tag2.val) &&& FoldedHistory.mask width).setWidth 16

/-- Fresh registers for a bank, recomputed from a snapshot. -/
def snapshot (s : GeoBankSet) (b : GeoBank) (ghr : Ghr) : FoldedCsrs :=
  (FoldedCsrs.new s.tableBits b.tagWidth b.histLength).recompute ghr

def specIndex (s : GeoBankSet) (pc : U64) (b : GeoBank) : U64 := s.index pc b.spec

def specTag (pc : U64) (b : GeoBank) : U16 := tag pc b.tagWidth b.spec

def snapshotIndex (s : GeoBankSet) (pc : U64) (b : GeoBank) (ghr : Ghr) : U64 := s.index pc (s.snapshot b ghr)

def snapshotTag (s : GeoBankSet) (pc : U64) (b : GeoBank) (ghr : Ghr) : U16 := tag pc b.tagWidth (s.snapshot b ghr)

def committedAll (s : GeoBankSet) (pc : U64) : List (U64 × U16) :=
  s.banks.map fun b => (s.index pc b.committed, tag pc b.tagWidth b.committed)

def updateCsrs (s : GeoBankSet) (taken : Bool) (ghr : Ghr) : GeoBankSet :=
  { s with banks := s.banks.map fun b => { b with spec := b.spec.update taken (b.oldBit ghr) } }

def recomputeAll (s : GeoBankSet) (ghr : Ghr) : GeoBankSet :=
  { s with banks := s.banks.map fun b => { b with spec := b.spec.recompute ghr } }

def updateCommittedCsrs (s : GeoBankSet) (taken : Bool) (ghr : Ghr) : GeoBankSet :=
  { s with banks := s.banks.map fun b => { b with committed := b.committed.update taken (b.oldBit ghr) } }

def copyCommittedToSpec (s : GeoBankSet) : GeoBankSet :=
  { s with banks := s.banks.map fun b => { b with spec := b.committed } }

end GeoBankSet

/-! ### The predictors -/

/-- What the constructors read of `TageConfig` and of `IttageConfig`. -/
structure BankConfig where
  numBanks : Nat
  tableSize : Nat
  historyLengths : List Nat
  tagWidths : List Nat
  deriving DecidableEq, Repr

/-- `TageCore::new`. -/
def TageCore.new (config : BankConfig) : Option GeoBankSet :=
  if config.tableSize.isPowerOfTwo ∧ config.historyLengths.length = config.numBanks ∧
      config.tagWidths.length = config.numBanks ∧ config.historyLengths.max?.getD 64 ≤ 1024 then
    GeoBankSet.new config.historyLengths config.tagWidths config.tableSize.log2
  else none

/-- `TageCore::max_history`. -/
def TageCore.maxHistory (s : GeoBankSet) : Nat :=
  s.banks.foldl (fun m b => if b.histLength > m then b.histLength else m) 0

/-- `Ittage::new`: the size is rounded up to a power of two, the lengths are not limited. -/
def Ittage.new (config : BankConfig) : Option GeoBankSet :=
  if config.historyLengths.length = config.numBanks ∧ config.tagWidths.length = config.numBanks then
    GeoBankSet.new config.historyLengths config.tagWidths config.tableSize.nextPowerOfTwo.log2
  else none

/-- The two histories, and the bank sets that follow them. -/
structure Histories where
  specGhr : Ghr
  commitGhr : Ghr
  sets : List GeoBankSet
  deriving DecidableEq, Repr

namespace Histories

def speculate (p : Histories) (taken : Bool) : Histories :=
  { p with sets := p.sets.map fun s => s.updateCsrs taken p.specGhr, specGhr := p.specGhr.push taken }

def updateBranch (p : Histories) (taken : Bool) : Histories :=
  { p with sets := p.sets.map fun s => s.updateCommittedCsrs taken p.commitGhr, commitGhr := p.commitGhr.push taken }

def repairHistory (p : Histories) (ghr : Ghr) : Histories :=
  { p with sets := p.sets.map fun s => s.recomputeAll ghr, specGhr := ghr }

def repairToCommitted (p : Histories) : Histories :=
  { p with sets := p.sets.map fun s => s.copyCommittedToSpec, specGhr := p.commitGhr }

end Histories

/-- `TagePredictor::new`. -/
def TagePredictor.new (config : BankConfig) : Option Histories := do
  let tage ← TageCore.new config
  let ghr ← Ghr.withLen (TageCore.maxHistory tage)
  some ⟨ghr, ghr, [tage]⟩

/-- `ScLTagePredictor::new`: the histories are as long as TAGE needs them. -/
def ScLTagePredictor.new (tageConfig ittageConfig : BankConfig) : Option Histories := do
  let tage ← TageCore.new tageConfig
  let ghr ← Ghr.withLen (TageCore.maxHistory tage)
  let ittage ← Ittage.new ittageConfig
  some ⟨ghr, ghr, [tage, ittage]⟩

/-! ### Bits of the history -/

namespace FoldedHistory

theorem getLsbD_mask {w : Nat} (hw : w < 64) (i : Nat) : (mask w).getLsbD i = decide (i < w) := by
  have hlt : 2 ^ w < 2 ^ 64 := Nat.pow_lt_pow_right (by omega) hw
  have hone : 1 ≤ 2 ^ w := Nat.one_le_two_pow
  have hval : (mask w).toNat = 2 ^ w - 1 := by
    have hshift : ((1 : U64) <<< w).toNat = 2 ^ w := by
      rw [BitVec.toNat_shiftLeft, Nat.shiftLeft_eq, show (1 : U64).toNat = 1 from rfl, Nat.one_mul,
          Nat.mod_eq_of_lt hlt]
    unfold mask
    rw [BitVec.toNat_sub, hshift, show (1 : U64).toNat = 1 from rfl]
    omega
  rw [← BitVec.testBit_toNat, hval, Nat.testBit_two_pow_sub_one]

theorem getLsbD_ofBit (b : Bool) (i : Nat) : (ofBit b).getLsbD i = (decide (i = 0) && b) := by
  cases b with
  | false => simp [ofBit]
  | true =>
    rw [ofBit, if_pos rfl, show (1 : U64) = BitVec.twoPow 64 0 from rfl, BitVec.getLsbD_twoPow]
    by_cases hi : i = 0
    · simp [hi]
    · simp [hi, Ne.symm hi]

end FoldedHistory

namespace Ghr

variable {g : Ghr} {b : Bool} {i : Nat}

theorem len_push : (g.push b).len = g.len := by
  unfold push
  rfl

theorem window_push : (g.push b).window = g.window := by
  unfold window
  rw [len_push]

theorem window_le (g : Ghr) : g.window ≤ 1024 := by
  unfold window
  split <;> omega

/-- Masking keeps the bits inside the window. -/
theorem getLsbD_masked (hi : i < 16 * 64) (w : U64) :
    (masked g.len (i / 64) w).getLsbD (i % 64) = (decide (i < g.window) && w.getLsbD (i % 64)) := by
  unfold masked window
  by_cases hl : 0 < g.len ∧ g.len < 16 * 64
  · rw [if_pos hl, if_pos hl]
    by_cases hlow : i / 64 < g.len / 64
    · rw [if_pos hlow, decide_eq_true (by omega : i < g.len), Bool.true_and]
    · rw [if_neg hlow]
      by_cases htop : i / 64 = g.len / 64
      · rw [if_pos htop]
        by_cases hrem : 0 < g.len % 64
        · rw [if_pos hrem, BitVec.getLsbD_and, ← FoldedHistory.mask, FoldedHistory.getLsbD_mask (by omega),
            Bool.and_comm]
          congr 1
          exact decide_eq_decide.mpr ⟨fun h => by omega, fun h => by omega⟩
        · rw [if_neg hrem, decide_eq_false (by omega : ¬i < g.len)]
          simp
      · rw [if_neg htop, decide_eq_false (by omega : ¬i < g.len)]
        simp
  · rw [if_neg hl, if_neg hl, decide_eq_true hi, Bool.true_and]

/-- The words, shifted as one register. -/
theorem getLsbD_shifted (g : Ghr) (b : Bool) (i : Nat) :
    (g.shifted b (i / 64)).getLsbD (i % 64) = Folding.shiftIn b g.bit i := by
  have hr : i % 64 < 64 := Nat.mod_lt i (by omega)
  have hlow : ∀ x y : U64, 0 < i % 64 → ((x <<< 1) ||| (y >>> 63)).getLsbD (i % 64) = x.getLsbD (i % 64 - 1) := by
    intro x y hpos
    rw [BitVec.getLsbD_or, BitVec.getLsbD_shiftLeft, BitVec.getLsbD_ushiftRight,
      BitVec.getLsbD_of_ge y (63 + i % 64) (by omega)]
    simp [hr, show ¬i % 64 = 0 by omega]
  cases i with
  | zero =>
    show (g.shifted b 0).getLsbD 0 = b
    rw [shifted, if_pos rfl, BitVec.getLsbD_or, BitVec.getLsbD_shiftLeft]
    cases b <;> simp
  | succ k =>
    show _ = (g.word (k / 64)).getLsbD (k % 64)
    by_cases hpos : 0 < (k + 1) % 64
    · -- the bit stays in its word
      have hdiv : (k + 1) / 64 = k / 64 := by omega
      have hmod : (k + 1) % 64 - 1 = k % 64 := by omega
      rw [← hmod, ← hdiv, shifted]
      by_cases h0 : (k + 1) / 64 = 0
      · rw [if_pos h0, h0, BitVec.getLsbD_or, BitVec.getLsbD_shiftLeft]
        have hbit : (if b then (1 : U64) else 0).getLsbD ((k + 1) % 64) = false := by
          have hone := FoldedHistory.getLsbD_ofBit b ((k + 1) % 64)
          rw [decide_eq_false (by omega : ¬(k + 1) % 64 = 0), Bool.false_and] at hone
          exact hone
        rw [hbit]
        simp [hr, show ¬(k + 1) % 64 = 0 by omega]
      · rw [if_neg h0]
        exact hlow _ _ hpos
    · -- the bit comes from the top of the word before
      have hmod : (k + 1) % 64 = 0 := by omega
      have hdiv : (k + 1) / 64 - 1 = k / 64 := by omega
      have htop : k % 64 = 63 := by omega
      rw [shifted, if_neg (by omega), hmod, hdiv, htop, BitVec.getLsbD_or, BitVec.getLsbD_shiftLeft,
        BitVec.getLsbD_ushiftRight]
      simp

/-- **Pushing an outcome** puts it in front of the others, as far as the window goes. -/
theorem bit_push (g : Ghr) (b : Bool) (i : Nat) :
    (g.push b).bit i = (decide (i < g.window) && Folding.shiftIn b g.bit i) := by
  by_cases hi : i < 16 * 64
  · have hw : i / 64 < 16 := by omega
    have hword : (g.push b).word (i / 64) = masked g.len (i / 64) (g.shifted b (i / 64)) := by
      unfold word push
      rw [dif_pos hw]
      simp
    rw [bit, hword, getLsbD_masked hi, getLsbD_shifted]
  · have hw : ¬i / 64 < 16 := by omega
    have hlt : ¬i < g.window := fun h => hi (Nat.lt_of_lt_of_le h g.window_le)
    rw [bit, word, dif_neg hw, decide_eq_false hlt]
    simp

end Ghr

/-! ### The folded registers follow the history -/

namespace FoldedHistory

variable {f : FoldedHistory} {g : Ghr}

/-- The register holds the fold of the first `histLength` bits. -/
def Tracks (f : FoldedHistory) (g : Ghr) : Prop :=
  ∀ j, f.val.getLsbD j = (decide (j < f.foldWidth) && Folding.fold f.foldWidth g.bit f.histLength j)

/-- The fold determines the register. -/
theorem Tracks.ext {f' : FoldedHistory} (h : f.Tracks g) (h' : f'.Tracks g) (hw : f.foldWidth = f'.foldWidth)
    (hl : f.histLength = f'.histLength) : f.val = f'.val := by
  refine BitVec.eq_of_getLsbD_eq fun j _ => ?_
  rw [h j, h' j, hw, hl]

theorem Tracks.high {j : Nat} (h : f.Tracks g) (hj : f.foldWidth ≤ j) : f.val.getLsbD j = false := by
  rw [h j, decide_eq_false (by omega), Bool.false_and]

@[simp] theorem update_foldWidth (f : FoldedHistory) (b o : Bool) : (f.update b o).foldWidth = f.foldWidth := by
  unfold update
  dsimp only
  split <;> rfl

@[simp] theorem update_histLength (f : FoldedHistory) (b o : Bool) : (f.update b o).histLength = f.histLength := by
  unfold update
  dsimp only
  split <;> rfl

@[simp] theorem recompute_foldWidth (f : FoldedHistory) (g : Ghr) : (f.recompute g).foldWidth = f.foldWidth := by
  unfold recompute
  split <;> rfl

@[simp] theorem recompute_histLength (f : FoldedHistory) (g : Ghr) : (f.recompute g).histLength = f.histLength := by
  unfold recompute
  split <;> rfl

/-- The bits of a register after `update`. -/
theorem getLsbD_update (hw : f.foldWidth < 64) (b o : Bool) {j : Nat} (hj : j < f.foldWidth) :
    (f.update b o).val.getLsbD j =
      ((f.val.getLsbD ((j + (f.foldWidth - 1)) % f.foldWidth) ^^ (decide (j = 0) && b)) ^^
        (decide (f.histLength % f.foldWidth = j) && o)) := by
  have hpos : ¬f.foldWidth = 0 := by omega
  have hrot : (((f.val <<< 1) ||| ((f.val >>> (f.foldWidth - 1)) &&& 1)) &&& mask f.foldWidth).getLsbD j =
      f.val.getLsbD ((j + (f.foldWidth - 1)) % f.foldWidth) := by
    rw [BitVec.getLsbD_and, getLsbD_mask hw, decide_eq_true hj, Bool.and_true, BitVec.getLsbD_or,
      BitVec.getLsbD_shiftLeft, BitVec.getLsbD_and, BitVec.getLsbD_ushiftRight]
    have hone := getLsbD_ofBit true j
    rw [Bool.and_true] at hone
    rw [show (1 : U64) = ofBit true from rfl, hone]
    by_cases h0 : j = 0
    · subst h0
      rw [Nat.zero_add, Nat.mod_eq_of_lt (by omega), Nat.add_zero]
      simp
    · have hmod : (j + (f.foldWidth - 1)) % f.foldWidth = j - 1 := by
        rw [show j + (f.foldWidth - 1) = j - 1 + f.foldWidth by omega, Nat.add_mod_right, Nat.mod_eq_of_lt (by omega)]
      rw [hmod]
      simp [h0, show j < 64 by omega]
  have hold :
      (ofBit o <<< (f.histLength % f.foldWidth)).getLsbD j = (decide (f.histLength % f.foldWidth = j) && o) := by
    rw [BitVec.getLsbD_shiftLeft, getLsbD_ofBit, decide_eq_true (by omega : j < 64), Bool.true_and]
    by_cases hlt : j < f.histLength % f.foldWidth
    · simp [hlt, show ¬f.histLength % f.foldWidth = j by omega]
    · rw [decide_eq_false hlt, Bool.not_false, Bool.true_and,
        decide_eq_decide.mpr (⟨fun h => by omega, fun h => by omega⟩ :
          j - f.histLength % f.foldWidth = 0 ↔ f.histLength % f.foldWidth = j)]
  unfold update
  dsimp only
  rw [if_neg hpos]
  dsimp only
  rw [BitVec.getLsbD_and, getLsbD_mask hw, decide_eq_true hj, Bool.and_true, BitVec.getLsbD_xor, BitVec.getLsbD_xor,
    hrot, getLsbD_ofBit, hold]

theorem getLsbD_update_high (hw : f.foldWidth < 64) (b o : Bool) (hz : f.foldWidth = 0 → f.val = 0) {j : Nat}
    (hj : f.foldWidth ≤ j) : (f.update b o).val.getLsbD j = false := by
  unfold update
  dsimp only
  by_cases h0 : f.foldWidth = 0
  · rw [if_pos h0, hz h0]
    exact BitVec.getLsbD_zero
  · rw [if_neg h0, BitVec.getLsbD_and, getLsbD_mask hw, decide_eq_false (by omega), Bool.and_false]

/-- **One outcome.** If the register holds the fold of the history, it does so after an outcome, as long as the
window of the bank is not empty and does not reach beyond that of the history. -/
theorem update_tracks (h : f.Tracks g) (hw : f.foldWidth < 64) (hl : 0 < f.histLength) (hg : f.histLength ≤ g.window)
    (b : Bool) : (f.update b (g.bit (f.histLength - 1))).Tracks (g.push b) := by
  intro j
  rw [update_foldWidth, update_histLength]
  by_cases hj : j < f.foldWidth
  · have hpush : Folding.fold f.foldWidth (g.push b).bit f.histLength j =
        Folding.fold f.foldWidth (Folding.shiftIn b g.bit) f.histLength j :=
      Folding.fold_congr fun i hi => by
        rw [Ghr.bit_push, decide_eq_true (by omega : i < g.window), Bool.true_and]
    rw [getLsbD_update hw b _ hj, h, decide_eq_true (Nat.mod_lt _ (by omega)), Bool.true_and, decide_eq_true hj,
      Bool.true_and, hpush, Folding.fold_slide hl hj]
  · have hz : f.foldWidth = 0 → f.val = 0 := fun h0 => by
      refine BitVec.eq_of_getLsbD_eq fun i _ => ?_
      rw [h.high (by omega)]
      exact BitVec.getLsbD_zero.symm
    rw [getLsbD_update_high hw _ _ hz (by omega), decide_eq_false hj, Bool.false_and]

/-! ### Recomputing -/

theorem getLsbD_empty (i : Nat) : (0 : U64).getLsbD i = false := BitVec.getLsbD_zero

/-- The pieces of a word, combined. -/
theorem getLsbD_foldWord {w : Nat} (hw : w < 64) (n : Nat) (folded v : U64) (hn : v.toNat < 2 ^ n)
    {j : Nat} (hj : j < w) :
    (foldWord w n folded v).getLsbD j = (folded.getLsbD j ^^ Folding.fold w v.getLsbD 64 j) := by
  have hzero : Folding.fold w (0 : U64).getLsbD 64 j = false := Folding.fold_false fun i _ => getLsbD_empty i
  induction n generalizing folded v with
  | zero =>
    have hv : v = 0 := BitVec.eq_of_toNat_eq (by simpa using hn)
    rw [foldWord, hv, hzero, Bool.xor_false]
  | succ n ih =>
    rw [foldWord]
    by_cases hv : v = 0
    · rw [if_pos hv, hv, hzero, Bool.xor_false]
    · have hsmall : (v >>> w).toNat < 2 ^ n := by
        rw [BitVec.toNat_ushiftRight, Nat.shiftRight_eq_div_pow]
        have hp : 2 ^ (n + 1) ≤ 2 ^ n * 2 ^ w := by
          rw [← Nat.pow_add]
          exact Nat.pow_le_pow_right (by omega) (by omega)
        exact Nat.div_lt_of_lt_mul (Nat.mul_comm _ _ ▸ Nat.lt_of_lt_of_le hn hp)
      -- the word, with zeros above it, is its first piece and the rest
      have hlong : Folding.fold w v.getLsbD (w + 64) j = Folding.fold w v.getLsbD 64 j := by
        rw [Nat.add_comm, Folding.fold_add hj, Folding.fold_false (n := w), Bool.xor_false]
        exact fun i _ => BitVec.getLsbD_of_ge v (64 + i) (by omega)
      have hrest : Folding.fold w (v >>> w).getLsbD 64 j = Folding.fold w (fun i => v.getLsbD (w + i)) 64 j :=
        Folding.fold_congr fun i _ => BitVec.getLsbD_ushiftRight v w i
      rw [if_neg hv, ih _ _ hsmall, BitVec.getLsbD_xor, BitVec.getLsbD_and, getLsbD_mask hw, decide_eq_true hj,
        Bool.and_true, hrest, ← hlong, Folding.fold_cut hj, Bool.xor_assoc]

theorem getLsbD_foldWord_high {w : Nat} (hw : w < 64) (n : Nat) (folded v : U64) {j : Nat} (hj : w ≤ j)
    (hf : folded.getLsbD j = false) : (foldWord w n folded v).getLsbD j = false := by
  induction n generalizing folded v with
  | zero => exact hf
  | succ n ih =>
    rw [foldWord]
    split
    · exact hf
    · refine ih _ _ ?_
      rw [BitVec.getLsbD_xor, hf, BitVec.getLsbD_and, getLsbD_mask hw, decide_eq_false (by omega), Bool.and_false,
        Bool.xor_false]

/-- The fold of a word, rotated to where the word starts. -/
theorem getLsbD_aligned {w : Nat} (hw : w < 64) (k : Nat) {x : U64} (hx : ∀ j, w ≤ j → x.getLsbD j = false) {j : Nat}
    (hj : j < w) : (aligned w k x).getLsbD j = x.getLsbD ((j + (w - k * 64 % w)) % w) := by
  have hr : k * 64 % w < w := Nat.mod_lt _ (by omega)
  unfold aligned
  dsimp only
  by_cases h0 : k * 64 % w > 0
  · rw [if_pos h0, BitVec.getLsbD_and, getLsbD_mask hw, decide_eq_true hj, Bool.and_true, BitVec.getLsbD_or,
      BitVec.getLsbD_shiftLeft, BitVec.getLsbD_ushiftRight, decide_eq_true (by omega : j < 64), Bool.true_and]
    by_cases hlt : j < k * 64 % w
    · rw [decide_eq_true hlt, Nat.mod_eq_of_lt (by omega : j + (w - k * 64 % w) < w), Nat.add_comm]
      simp
    · have hmod : (j + (w - k * 64 % w)) % w = j - k * 64 % w := by
        rw [show j + (w - k * 64 % w) = j - k * 64 % w + w by omega, Nat.add_mod_right, Nat.mod_eq_of_lt (by omega)]
      rw [decide_eq_false hlt, hx (w - k * 64 % w + j) (by omega), hmod]
      simp
  · rw [if_neg h0, show k * 64 % w = 0 by omega, Nat.sub_zero, Nat.add_mod_right, Nat.mod_eq_of_lt hj]

theorem getLsbD_cutWord (f : FoldedHistory) (g : Ghr) (k : Nat) {i : Nat} (hi : i < 64) :
    (f.cutWord g k).getLsbD i = (decide (k * 64 + i < f.histLength) && g.bit (k * 64 + i)) := by
  have hbit : (g.word k).getLsbD i = g.bit (k * 64 + i) := by
    rw [Ghr.bit, show (k * 64 + i) / 64 = k by omega, show (k * 64 + i) % 64 = i by omega]
  unfold cutWord
  dsimp only
  by_cases hc : min (f.histLength - k * 64) 64 < 64
  · rw [if_pos hc, BitVec.getLsbD_and, getLsbD_mask hc, hbit, Bool.and_comm]
    congr 1
    exact decide_eq_decide.mpr ⟨fun h => by omega, fun h => by omega⟩
  · rw [if_neg hc, hbit, decide_eq_true (by omega), Bool.true_and]

/-- The history, false from the bank's length on. -/
def cutBit (f : FoldedHistory) (g : Ghr) (i : Nat) : Bool := decide (i < f.histLength) && g.bit i

/-- What the first `n` words leave in the accumulator. -/
theorem getLsbD_words (hw : f.foldWidth < 64) (g : Ghr) (n : Nat) {j : Nat} (hj : j < f.foldWidth) :
    ((List.range n).foldl (f.recomputeWord g) 0).getLsbD j = Folding.fold f.foldWidth (f.cutBit g) (n * 64) j := by
  induction n with
  | zero => simp
  | succ n ih =>
    have hblock : ∀ m, Folding.fold f.foldWidth (fun i => f.cutBit g (n * 64 + i)) 64 m =
        Folding.fold f.foldWidth (f.cutWord g n).getLsbD 64 m := fun m =>
      Folding.fold_congr fun i hi => (getLsbD_cutWord f g n hi).symm
    have hlt : (j + (f.foldWidth - n * 64 % f.foldWidth)) % f.foldWidth < f.foldWidth := Nat.mod_lt _ (by omega)
    rw [List.range_succ, List.foldl_append, List.foldl_cons, List.foldl_nil, Nat.add_mul, Nat.one_mul,
      Folding.fold_add hj, hblock, ← ih, recomputeWord]
    by_cases h0 : f.cutWord g n = 0
    · rw [if_pos h0, h0, Folding.fold_false fun i _ => getLsbD_empty i, Bool.xor_false]
    · rw [if_neg h0, BitVec.getLsbD_xor, getLsbD_aligned hw n
        (fun i hi => getLsbD_foldWord_high hw 64 0 _ hi (getLsbD_empty i)) hj,
        getLsbD_foldWord hw 64 0 _ (f.cutWord g n).isLt hlt, getLsbD_empty, Bool.false_xor]

/-- **From scratch.** Recomputing gives the fold of the history, whatever the register held. -/
theorem recompute_tracks (hw : f.foldWidth < 64) (g : Ghr) : (f.recompute g).Tracks g := by
  intro j
  rw [recompute_foldWidth, recompute_histLength]
  unfold recompute
  by_cases h0 : f.foldWidth = 0
  · rw [if_pos h0, h0]
    simp
  · rw [if_neg h0]
    dsimp only
    rw [BitVec.getLsbD_and, getLsbD_mask hw, Bool.and_comm]
    by_cases hj : j < f.foldWidth
    · rw [decide_eq_true hj, Bool.true_and, Bool.true_and, getLsbD_words hw g _ hj]
      -- the last word is cut at the history length
      have hge : f.histLength ≤ (f.histLength + 63) / 64 * 64 := by omega
      obtain ⟨r, hr⟩ : ∃ r, (f.histLength + 63) / 64 * 64 = f.histLength + r := ⟨_, (Nat.add_sub_of_le hge).symm⟩
      rw [hr, Folding.fold_add hj, Folding.fold_false (n := r), Bool.xor_false]
      · refine Folding.fold_congr fun i hi => ?_
        rw [cutBit, decide_eq_true hi, Bool.true_and]
      · intro i _
        rw [cutBit, decide_eq_false (by omega), Bool.false_and]
    · rw [decide_eq_false hj, Bool.false_and, Bool.false_and]

end FoldedHistory

/-! ### Banks and predictors -/

namespace FoldedCsrs

variable {c c' : FoldedCsrs} {g : Ghr} {tb tw hl : Nat}

/-- The widths and the length a bank gives its registers. -/
structure Shape (tb tw hl : Nat) (c : FoldedCsrs) : Prop where
  widths : c.idx.foldWidth = tb ∧ c.idx2.foldWidth = max (tb - 1) 1 ∧ c.tag.foldWidth = tw ∧
    c.tag2.foldWidth = max (tw - 1) 1
  lengths : c.idx.histLength = hl ∧ c.idx2.histLength = hl ∧ c.tag.histLength = hl ∧ c.tag2.histLength = hl

structure Tracks (c : FoldedCsrs) (g : Ghr) : Prop where
  idx : c.idx.Tracks g
  idx2 : c.idx2.Tracks g
  tag : c.tag.Tracks g
  tag2 : c.tag2.Tracks g

theorem shape_new (tb tw hl : Nat) : (new tb tw hl).Shape tb tw hl := ⟨⟨rfl, rfl, rfl, rfl⟩, ⟨rfl, rfl, rfl, rfl⟩⟩

theorem Shape.update (h : c.Shape tb tw hl) (b o : Bool) : (c.update b o).Shape tb tw hl := by
  obtain ⟨⟨h1, h2, h3, h4⟩, ⟨h5, h6, h7, h8⟩⟩ := h
  refine ⟨⟨?_, ?_, ?_, ?_⟩, ⟨?_, ?_, ?_, ?_⟩⟩ <;> simpa [FoldedCsrs.update]

theorem Shape.recompute (h : c.Shape tb tw hl) (g : Ghr) : (c.recompute g).Shape tb tw hl := by
  obtain ⟨⟨h1, h2, h3, h4⟩, ⟨h5, h6, h7, h8⟩⟩ := h
  refine ⟨⟨?_, ?_, ?_, ?_⟩, ⟨?_, ?_, ?_, ?_⟩⟩ <;> simpa [FoldedCsrs.recompute]

/-- New registers track an empty history. -/
theorem tracks_new (hg : ∀ i, g.bit i = false) : (new tb tw hl).Tracks g := by
  have hreg : ∀ w, (FoldedHistory.new w hl).Tracks g := fun w j => by
    have hfold : Folding.fold w g.bit hl j = false := Folding.fold_false fun i _ => hg i
    change (0 : U64).getLsbD j = (decide (j < w) && Folding.fold w g.bit hl j)
    rw [hfold, Bool.and_false, FoldedHistory.getLsbD_empty]
  exact ⟨hreg _, hreg _, hreg _, hreg _⟩

theorem Tracks.update (h : c.Tracks g) (hs : c.Shape tb tw hl) (htb : tb < 64) (htw : tw < 64) (hl0 : 0 < hl)
    (hg : hl ≤ g.window) (b : Bool) : (c.update b (g.bit (hl - 1))).Tracks (g.push b) := by
  obtain ⟨⟨h1, h2, h3, h4⟩, ⟨h5, h6, h7, h8⟩⟩ := hs
  have hone : ∀ f : FoldedHistory, f.Tracks g → f.foldWidth < 64 → f.histLength = hl →
      (f.update b (g.bit (hl - 1))).Tracks (g.push b) := fun f hf hw hlen =>
    hlen ▸ FoldedHistory.update_tracks hf hw (hlen ▸ hl0) (hlen ▸ hg) b
  exact ⟨hone _ h.idx (by omega) h5, hone _ h.idx2 (by omega) h6, hone _ h.tag (by omega) h7,
    hone _ h.tag2 (by omega) h8⟩

theorem tracks_recompute (hs : c.Shape tb tw hl) (htb : tb < 64) (htw : tw < 64) (g : Ghr) :
    (c.recompute g).Tracks g := by
  obtain ⟨⟨h1, h2, h3, h4⟩, -⟩ := hs
  exact ⟨FoldedHistory.recompute_tracks (by omega) g, FoldedHistory.recompute_tracks (by omega) g,
    FoldedHistory.recompute_tracks (by omega) g, FoldedHistory.recompute_tracks (by omega) g⟩

/-- Registers of one shape that track one history are the same. -/
theorem Tracks.same (h : c.Tracks g) (h' : c'.Tracks g) (hs : c.Shape tb tw hl) (hs' : c'.Shape tb tw hl) :
    c.idx.val = c'.idx.val ∧ c.idx2.val = c'.idx2.val ∧ c.tag.val = c'.tag.val ∧ c.tag2.val = c'.tag2.val := by
  obtain ⟨⟨h1, h2, h3, h4⟩, ⟨h5, h6, h7, h8⟩⟩ := hs
  obtain ⟨⟨k1, k2, k3, k4⟩, ⟨k5, k6, k7, k8⟩⟩ := hs'
  exact ⟨h.idx.ext h'.idx (by omega) (by omega), h.idx2.ext h'.idx2 (by omega) (by omega),
    h.tag.ext h'.tag (by omega) (by omega), h.tag2.ext h'.tag2 (by omega) (by omega)⟩

end FoldedCsrs

namespace Histories

/-- The states that guesses, committed branches and repairs lead to from `p₀`. A repair takes a snapshot, of this
predictor or the default one that fetch puts into entries it has made no prediction for. -/
inductive Run (p₀ : Histories) : Histories → Prop where
  | start : Run p₀ p₀
  | speculate (p : Histories) (taken : Bool) (h : Run p₀ p) : Run p₀ (p.speculate taken)
  | updateBranch (p : Histories) (taken : Bool) (h : Run p₀ p) : Run p₀ (p.updateBranch taken)
  | repairHistory (p : Histories) (ghr : Ghr) (h : Run p₀ p) (hg : ghr.len = p₀.specGhr.len ∨ ghr.len = 0) :
      Run p₀ (p.repairHistory ghr)
  | repairToCommitted (p : Histories) (h : Run p₀ p) : Run p₀ p.repairToCommitted

/-- Every register holds the fold of its history, so that the tables are addressed as from a snapshot. -/
structure Folded (p : Histories) : Prop where
  spec : ∀ s ∈ p.sets, ∀ b ∈ s.banks, b.spec.Tracks p.specGhr
  committed : ∀ s ∈ p.sets, ∀ b ∈ s.banks, b.committed.Tracks p.commitGhr
  index : ∀ s ∈ p.sets, ∀ b ∈ s.banks, ∀ pc, s.specIndex pc b = s.snapshotIndex pc b p.specGhr
  tag : ∀ s ∈ p.sets, ∀ b ∈ s.banks, ∀ pc, GeoBankSet.specTag pc b = s.snapshotTag pc b p.specGhr
  all : ∀ s ∈ p.sets, ∀ pc, s.committedAll pc =
    s.banks.map fun b => (s.snapshotIndex pc b p.commitGhr, s.snapshotTag pc b p.commitGhr)

/-- The shape of the banks, their registers narrower than a word. -/
structure Shaped (p : Histories) : Prop where
  bits : ∀ s ∈ p.sets, s.tableBits < 64
  tags : ∀ s ∈ p.sets, ∀ b ∈ s.banks, b.tagWidth < 64
  spec : ∀ s ∈ p.sets, ∀ b ∈ s.banks, b.spec.Shape s.tableBits b.tagWidth b.histLength
  committed : ∀ s ∈ p.sets, ∀ b ∈ s.banks, b.committed.Shape s.tableBits b.tagWidth b.histLength

/-- A predictor as its constructor makes it. -/
structure Fresh (p : Histories) : Prop where
  shaped : p.Shaped
  same : p.commitGhr = p.specGhr
  empty : ∀ i, p.specGhr.bit i = false
  len : p.specGhr.len ≤ 1024
  banks : ∀ s ∈ p.sets, ∀ b ∈ s.banks, b.spec = .new s.tableBits b.tagWidth b.histLength ∧
    b.committed = .new s.tableBits b.tagWidth b.histLength

/-- Each bank looks at some of the history, and at no more than `window` bits. -/
def Covered (p : Histories) (window : Nat) : Prop := ∀ s ∈ p.sets, ∀ b ∈ s.banks, 0 < b.histLength ∧
    b.histLength ≤ window

variable {p p₀ : Histories} {g : Ghr}

/-- The registers decide the addresses. -/
theorem folded_of_tracks (hs : p.Shaped) (hspec : ∀ s ∈ p.sets, ∀ b ∈ s.banks, b.spec.Tracks p.specGhr)
    (hcomm : ∀ s ∈ p.sets, ∀ b ∈ s.banks, b.committed.Tracks p.commitGhr) : p.Folded := by
  have hsnap : ∀ (g : Ghr) (s : GeoBankSet), s ∈ p.sets → ∀ b ∈ s.banks, ∀ c : FoldedCsrs, c.Tracks g →
      c.Shape s.tableBits b.tagWidth b.histLength → ∀ pc, s.index pc c = s.snapshotIndex pc b g ∧
        GeoBankSet.tag pc b.tagWidth c = s.snapshotTag pc b g := by
    intro g s hin b hb c hc hshape pc
    have hnew := FoldedCsrs.shape_new s.tableBits b.tagWidth b.histLength
    have hrec := FoldedCsrs.tracks_recompute hnew (hs.bits s hin) (hs.tags s hin b hb) g
    obtain ⟨h1, h2, h3, h4⟩ := hc.same hrec hshape (hnew.recompute g)
    constructor
    · unfold GeoBankSet.snapshotIndex GeoBankSet.index GeoBankSet.snapshot
      rw [h1, h2]
    · unfold GeoBankSet.snapshotTag GeoBankSet.tag GeoBankSet.snapshot
      rw [h3, h4]
  refine ⟨hspec, hcomm, ?_, ?_, ?_⟩
  · exact fun s hin b hb pc => (hsnap _ s hin b hb _ (hspec s hin b hb) (hs.spec s hin b hb) pc).1
  · exact fun s hin b hb pc => (hsnap _ s hin b hb _ (hspec s hin b hb) (hs.spec s hin b hb) pc).2
  · intro s hin pc
    refine List.map_congr_left fun b hb => ?_
    obtain ⟨hi, ht⟩ := hsnap _ s hin b hb _ (hcomm s hin b hb) (hs.committed s hin b hb) pc
    exact Prod.ext hi ht

/-- What a run keeps: shapes, the lengths of the registers, and that every register tracks its history. -/
structure Inv (p₀ p : Histories) : Prop where
  shaped : p.Shaped
  covered : p.Covered p₀.specGhr.window
  specLen : p.specGhr.len = p₀.specGhr.len ∨ p.specGhr.len = 0
  commitLen : p.commitGhr.len = p₀.specGhr.len
  spec : ∀ s ∈ p.sets, ∀ b ∈ s.banks, b.spec.Tracks p.specGhr
  committed : ∀ s ∈ p.sets, ∀ b ∈ s.banks, b.committed.Tracks p.commitGhr

theorem Inv.windows (h : Inv p₀ p) : p₀.specGhr.window ≤ p.specGhr.window ∧ p₀.specGhr.window ≤ p.commitGhr.window := by
  constructor
  · rcases h.specLen with hl | hl
    · unfold Ghr.window
      rw [hl]
    · have hfull : p.specGhr.window = 1024 := by
        unfold Ghr.window
        rw [if_neg (by omega)]
      exact hfull ▸ p₀.specGhr.window_le
  · unfold Ghr.window
    rw [h.commitLen]

/-- The bit a covered bank takes out. -/
theorem oldBit_eq {b : GeoBank} (hl : 0 < b.histLength) (g : Ghr) : b.oldBit g = g.bit (b.histLength - 1) := if_pos hl

/-- An edit of the registers of every bank, with new histories that they track. -/
theorem Inv.edit (h : Inv p₀ p) (g g' : Ghr) (hlen : g.len = p₀.specGhr.len ∨ g.len = 0)
    (hlen' : g'.len = p₀.specGhr.len)
    (e e' : GeoBankSet → GeoBank → FoldedCsrs)
    (he : ∀ s ∈ p.sets, ∀ b ∈ s.banks, (e s b).Shape s.tableBits b.tagWidth b.histLength ∧ (e s b).Tracks g)
    (he' : ∀ s ∈ p.sets, ∀ b ∈ s.banks, (e' s b).Shape s.tableBits b.tagWidth b.histLength ∧ (e' s b).Tracks g') :
    Inv p₀ ⟨g, g', p.sets.map fun s =>
      { s with banks := s.banks.map fun b => { b with spec := e s b, committed := e' s b } }⟩ := by
  -- each new bank is an old one of a set with the same width
  have hback : ∀ s' ∈ p.sets.map (fun s : GeoBankSet =>
      { s with banks := s.banks.map fun b : GeoBank => ({ b with spec := e s b, committed := e' s b } : GeoBank) }),
      ∃ s ∈ p.sets, s'.tableBits = s.tableBits ∧
        ∀ b' ∈ s'.banks, ∃ b ∈ s.banks, ({ b with spec := e s b, committed := e' s b } : GeoBank) = b' := by
    intro s' hs'
    obtain ⟨s, hs, rfl⟩ := List.mem_map.mp hs'
    exact ⟨s, hs, rfl, fun b' hb' => List.mem_map.mp hb'⟩
  refine ⟨⟨?_, ?_, ?_, ?_⟩, ?_, hlen, hlen', ?_, ?_⟩
  · intro s' hs'
    obtain ⟨s, hs, hbits, -⟩ := hback s' hs'
    exact hbits ▸ h.shaped.bits s hs
  · intro s' hs' b' hb'
    obtain ⟨s, hs, -, hbanks⟩ := hback s' hs'
    obtain ⟨b, hb, rfl⟩ := hbanks b' hb'
    exact h.shaped.tags s hs b hb
  · intro s' hs' b' hb'
    obtain ⟨s, hs, hbits, hbanks⟩ := hback s' hs'
    obtain ⟨b, hb, rfl⟩ := hbanks b' hb'
    exact hbits ▸ (he s hs b hb).1
  · intro s' hs' b' hb'
    obtain ⟨s, hs, hbits, hbanks⟩ := hback s' hs'
    obtain ⟨b, hb, rfl⟩ := hbanks b' hb'
    exact hbits ▸ (he' s hs b hb).1
  · intro s' hs' b' hb'
    obtain ⟨s, hs, -, hbanks⟩ := hback s' hs'
    obtain ⟨b, hb, rfl⟩ := hbanks b' hb'
    exact h.covered s hs b hb
  · intro s' hs' b' hb'
    obtain ⟨s, hs, -, hbanks⟩ := hback s' hs'
    obtain ⟨b, hb, rfl⟩ := hbanks b' hb'
    exact (he s hs b hb).2
  · intro s' hs' b' hb'
    obtain ⟨s, hs, -, hbanks⟩ := hback s' hs'
    obtain ⟨b, hb, rfl⟩ := hbanks b' hb'
    exact (he' s hs b hb).2

/-- **Every step** keeps the invariant. -/
theorem Run.inv (hf : p₀.Fresh) (hc : p₀.Covered p₀.specGhr.window) (h : Run p₀ p) : Inv p₀ p := by
  induction h with
  | start =>
    refine ⟨hf.shaped, hc, Or.inl rfl, congrArg Ghr.len hf.same, ?_, ?_⟩
    · intro s hs b hb
      rw [(hf.banks s hs b hb).1]
      exact FoldedCsrs.tracks_new hf.empty
    · intro s hs b hb
      rw [(hf.banks s hs b hb).2, hf.same]
      exact FoldedCsrs.tracks_new hf.empty
  | speculate p taken _ ih =>
    have hlen : (p.specGhr.push taken).len = p₀.specGhr.len ∨ (p.specGhr.push taken).len = 0 := by
      rw [Ghr.len_push]
      exact ih.specLen
    refine ih.edit (p.specGhr.push taken) p.commitGhr hlen ih.commitLen
        (fun _ b => b.spec.update taken (b.oldBit p.specGhr))
      (fun _ b => b.committed) (fun s hs b hb => ?_) fun s hs b hb =>
          ⟨ih.shaped.committed s hs b hb, ih.committed s hs b hb⟩
    obtain ⟨hpos, hle⟩ := ih.covered s hs b hb
    rw [oldBit_eq hpos]
    exact ⟨(ih.shaped.spec s hs b hb).update _ _, (ih.spec s hs b hb).update (ih.shaped.spec s hs b hb)
      (ih.shaped.bits s hs) (ih.shaped.tags s hs b hb) hpos (Nat.le_trans hle ih.windows.1) taken⟩
  | updateBranch p taken _ ih =>
    have hlen : (p.commitGhr.push taken).len = p₀.specGhr.len := Ghr.len_push.trans ih.commitLen
    refine ih.edit p.specGhr (p.commitGhr.push taken) ih.specLen hlen (fun _ b => b.spec)
      (fun _ b => b.committed.update taken (b.oldBit p.commitGhr))
      (fun s hs b hb => ⟨ih.shaped.spec s hs b hb, ih.spec s hs b hb⟩) fun s hs b hb => ?_
    obtain ⟨hpos, hle⟩ := ih.covered s hs b hb
    rw [oldBit_eq hpos]
    exact ⟨(ih.shaped.committed s hs b hb).update _ _, (ih.committed s hs b hb).update (ih.shaped.committed s hs b hb)
      (ih.shaped.bits s hs) (ih.shaped.tags s hs b hb) hpos (Nat.le_trans hle ih.windows.2) taken⟩
  | repairHistory p ghr _ hg ih =>
    exact ih.edit ghr p.commitGhr hg ih.commitLen (fun _ b => b.spec.recompute ghr) (fun _ b => b.committed)
      (fun s hs b hb => ⟨(ih.shaped.spec s hs b hb).recompute ghr,
        FoldedCsrs.tracks_recompute (ih.shaped.spec s hs b hb) (ih.shaped.bits s hs) (ih.shaped.tags s hs b hb) ghr⟩)
      fun s hs b hb => ⟨ih.shaped.committed s hs b hb, ih.committed s hs b hb⟩
  | repairToCommitted p _ ih =>
    exact ih.edit p.commitGhr p.commitGhr (Or.inl ih.commitLen) ih.commitLen (fun _ b => b.committed)
        (fun _ b => b.committed)
      (fun s hs b hb => ⟨ih.shaped.committed s hs b hb, ih.committed s hs b hb⟩)
      fun s hs b hb => ⟨ih.shaped.committed s hs b hb, ih.committed s hs b hb⟩

/-! ### Where a bank is not covered -/

/-- Some bank's second index register holds these bits. -/
def Holds (p : Histories) (hl : Nat) (w : Nat) (bits : Nat → Bool) : Prop :=
  ∃ s ∈ p.sets, ∃ b ∈ s.banks, b.histLength = hl ∧ b.spec.idx2.histLength = hl ∧ b.spec.idx2.foldWidth = w ∧
    ∀ j, j < w → b.spec.idx2.val.getLsbD j = bits j

/-- The register after a guess, when the bit that leaves the window is false. -/
theorem Holds.speculate {hl w : Nat} {bits : Nat → Bool} (h : p.Holds hl w bits) (hw : w < 64)
    (hold : hl = 0 ∨ p.specGhr.bit (hl - 1) = false) (taken : Bool) :
    (p.speculate taken).Holds hl w fun j => bits ((j + (w - 1)) % w) ^^ (decide (j = 0) && taken) := by
  obtain ⟨s, hs, b, hb, hlen, hlen', hwidth, hbits⟩ := h
  have hout : b.oldBit p.specGhr = false := by
    unfold GeoBank.oldBit
    rcases hold with h0 | h0
    · rw [if_neg (by omega)]
    · rw [hlen, h0, ite_self]
  refine ⟨_, List.mem_map_of_mem hs, _, List.mem_map_of_mem hb, hlen, ?_, ?_, fun j hj => ?_⟩
  · exact (FoldedHistory.update_histLength _ _ _).trans hlen'
  · exact (FoldedHistory.update_foldWidth _ _ _).trans hwidth
  · change (b.spec.idx2.update taken (b.oldBit p.specGhr)).val.getLsbD j = _
    rw [hout, FoldedHistory.getLsbD_update (by omega) _ _ (by omega), hwidth, Bool.and_false, Bool.xor_false,
      hbits _ (Nat.mod_lt _ (by omega))]

/-- A register that tracks the history holds its fold. -/
theorem Folded.holds {hl w : Nat} {bits : Nat → Bool} (hf : p.Folded) (h : p.Holds hl w bits) {j : Nat} (hj : j < w) :
    bits j = Folding.fold w p.specGhr.bit hl j := by
  obtain ⟨s, hs, b, hb, -, hlen, hwidth, hbits⟩ := h
  rw [← hbits j hj, (hf.spec s hs b hb).idx2 j, hwidth, hlen, decide_eq_true hj, Bool.true_and]

/-- One taken branch, and then `n` that are not taken. -/
def oneTaken (p : Histories) : Nat → Histories
  | 0 => p.speculate true
  | n + 1 => (p.oneTaken n).speculate false

theorem Run.oneTaken (n : Nat) : Run p (p.oneTaken n) := by
  induction n with
  | zero => exact .speculate p true .start
  | succ n ih => exact .speculate _ false ih

/-- The history is that one taken branch, until it leaves the window. -/
theorem bit_oneTaken (hp : ∀ i, p.specGhr.bit i = false) (n i : Nat) :
    (p.oneTaken n).specGhr.bit i = (decide (i < p.specGhr.window) && decide (i = n)) := by
  have hwindow : ∀ n, (p.oneTaken n).specGhr.window = p.specGhr.window := fun n => by
    induction n with
    | zero => exact Ghr.window_push
    | succ n ih => exact Ghr.window_push.trans ih
  induction n generalizing i with
  | zero =>
    show (p.specGhr.push true).bit i = _
    rw [Ghr.bit_push]
    cases i with
    | zero => simp [Folding.shiftIn]
    | succ k => simp [Folding.shiftIn, hp]
  | succ n ih =>
    show ((p.oneTaken n).specGhr.push false).bit i = _
    rw [Ghr.bit_push, hwindow]
    cases i with
    | zero => simp [Folding.shiftIn]
    | succ k =>
      rw [Folding.shiftIn, ih]
      by_cases hk : k + 1 < p.specGhr.window
      · simp [hk, show k < p.specGhr.window by omega]
      · simp [hk]

/-- A register whose bank looks beyond the window keeps that branch, rotating. -/
theorem holds_oneTaken {hl w : Nat} (hw : w < 64) (hempty : ∀ i, p.specGhr.bit i = false)
    (hl' : hl = 0 ∨ p.specGhr.window < hl) (h : p.Holds hl w fun _ => false) (n : Nat) :
    (p.oneTaken n).Holds hl w fun j => decide (n % w = j) := by
  induction n with
  | zero =>
    have hone := h.speculate hw (Or.inr (hempty _)) true
    obtain ⟨s, hs, b, hb, hlen, hlen', hwidth, hbits⟩ := hone
    refine ⟨s, hs, b, hb, hlen, hlen', hwidth, fun j hj => ?_⟩
    have hone := hbits j hj
    dsimp only at hone ⊢
    rw [hone, Nat.zero_mod, Bool.and_true, Bool.false_xor]
    exact decide_eq_decide.mpr eq_comm
  | succ n ih =>
    have hout : hl = 0 ∨ (p.oneTaken n).specGhr.bit (hl - 1) = false := by
      refine hl'.imp id fun hlt => ?_
      rw [bit_oneTaken hempty, decide_eq_false (by omega), Bool.false_and]
    obtain ⟨s, hs, b, hb, hlen, hlen', hwidth, hbits⟩ := ih.speculate hw hout false
    refine ⟨s, hs, b, hb, hlen, hlen', hwidth, fun j hj => ?_⟩
    have hone := hbits j hj
    dsimp only at hone ⊢
    rw [hone, Bool.and_false, Bool.xor_false]
    exact decide_eq_decide.mpr (Folding.mod_succ_iff hj).symm

/-- Once the branch has left the window, the fold does not have it. -/
theorem not_folded_oneTaken {hl w : Nat} (hw : w < 64) (hw0 : 0 < w) (hempty : ∀ i, p.specGhr.bit i = false)
    (hl' : hl = 0 ∨ p.specGhr.window < hl) (h : p.Holds hl w fun _ => false) :
    ¬(p.oneTaken p.specGhr.window).Folded := by
  intro hf
  have hheld := holds_oneTaken hw hempty hl' h p.specGhr.window
  have hfold := hf.holds hheld (Nat.mod_lt p.specGhr.window hw0)
  rw [decide_eq_true rfl, Folding.fold_false] at hfold
  · exact absurd hfold (by decide)
  · intro i _
    rw [bit_oneTaken hempty]
    by_cases hi : i = p.specGhr.window
    · simp [hi]
    · simp [hi]

/-- **Exactly the covered ones.** A predictor keeps all folds in every run if and only if each of its banks looks at
some of the history and at no more than the history register keeps. -/
theorem runs_folded_iff (hf : p₀.Fresh) : (∀ p, Run p₀ p → p.Folded) ↔ p₀.Covered p₀.specGhr.window := by
  constructor
  · intro h s hs b hb
    obtain ⟨hspec, -⟩ := hf.banks s hs b hb
    have hbits := hf.shaped.bits s hs
    have hheld : p₀.Holds b.histLength (max (s.tableBits - 1) 1) fun _ => false :=
      ⟨s, hs, b, hb, rfl, by rw [hspec]; rfl, by rw [hspec]; rfl, fun j _ => by
        rw [hspec]
        exact FoldedHistory.getLsbD_empty j⟩
    by_contra hout
    have hl' : b.histLength = 0 ∨ p₀.specGhr.window < b.histLength := by omega
    exact not_folded_oneTaken (by omega) (by omega) hf.empty hl' hheld (h _ (Run.oneTaken _))
  · intro hc p hr
    have hinv := Run.inv hf hc hr
    exact folded_of_tracks hinv.shaped hinv.spec hinv.committed

end Histories

/-! ### The constructors -/

namespace BankConfig

/-- Registers narrower than a word. -/
def Narrow (c : BankConfig) : Prop := c.tableSize.nextPowerOfTwo.log2 < 64 ∧ c.tableSize.log2 < 64 ∧
    ∀ w ∈ c.tagWidths, w < 64

instance (c : BankConfig) : Decidable c.Narrow := inferInstanceAs (Decidable (_ ∧ _ ∧ _))

end BankConfig

/-- What `GeoBankSet::new` builds. -/
theorem GeoBankSet.new_spec {hls tws : List Nat} {tb : Nat} {s : GeoBankSet} (h : GeoBankSet.new hls tws tb = some s) :
    s.tableBits = tb ∧ s.banks.map (·.histLength) = hls ∧
      ∀ b ∈ s.banks, b.tagWidth ∈ tws ∧ b.spec = .new tb b.tagWidth b.histLength ∧
        b.committed = .new tb b.tagWidth b.histLength := by
  unfold GeoBankSet.new at h
  rw [Option.ite_none_right_eq_some] at h
  obtain ⟨⟨hlen, -⟩, hs⟩ := h
  obtain rfl := Option.some.inj hs
  refine ⟨rfl, ?_, fun b hb => ?_⟩
  · dsimp only
    rw [List.map_map]
    exact List.map_fst_zip hlen.le
  · obtain ⟨⟨hl, tw⟩, hin, rfl⟩ := List.mem_map.mp hb
    exact ⟨(List.of_mem_zip hin).2, rfl, rfl⟩

theorem TageCore.new_spec {c : BankConfig} {s : GeoBankSet} (h : TageCore.new c = some s) :
    GeoBankSet.new c.historyLengths c.tagWidths c.tableSize.log2 = some s :=
  (Option.ite_none_right_eq_some.mp h).2

theorem Ittage.new_spec {c : BankConfig} {s : GeoBankSet} (h : Ittage.new c = some s) :
    GeoBankSet.new c.historyLengths c.tagWidths c.tableSize.nextPowerOfTwo.log2 = some s :=
  (Option.ite_none_right_eq_some.mp h).2

/-- The longest bank, and that there is one unless there are none. -/
theorem TageCore.maxHistory_spec (s : GeoBankSet) : (∀ b ∈ s.banks, b.histLength ≤ maxHistory s) ∧
    (s.banks = [] ∧ maxHistory s = 0 ∨ ∃ b ∈ s.banks, b.histLength = maxHistory s) := by
  have hfold : ∀ (bs : List GeoBank) (m : Nat),
      m ≤ bs.foldl (fun m b => if b.histLength > m then b.histLength else m) m ∧
        (∀ b ∈ bs, b.histLength ≤ bs.foldl (fun m b => if b.histLength > m then b.histLength else m) m) ∧
        (bs.foldl (fun m b => if b.histLength > m then b.histLength else m) m = m ∨
          ∃ b ∈ bs, b.histLength = bs.foldl (fun m b => if b.histLength > m then b.histLength else m) m) := by
    intro bs
    induction bs with
    | nil => exact fun m => ⟨Nat.le_refl m, fun b hb => absurd hb List.not_mem_nil, Or.inl rfl⟩
    | cons b bs ih =>
      intro m
      rw [List.foldl_cons]
      obtain ⟨h1, h2, h3⟩ := ih (if b.histLength > m then b.histLength else m)
      have hb : b.histLength ≤ if b.histLength > m then b.histLength else m := by split <;> omega
      have hm : m ≤ if b.histLength > m then b.histLength else m := by split <;> omega
      refine ⟨by omega, fun x hx => ?_, ?_⟩
      · rcases List.mem_cons.mp hx with rfl | hx
        · omega
        · exact h2 x hx
      · rcases h3 with h3 | ⟨x, hx, h3⟩
        · by_cases hgt : b.histLength > m
          · rw [if_pos hgt] at h3 ⊢
            exact Or.inr ⟨b, List.mem_cons_self, h3.symm⟩
          · rw [if_neg hgt] at h3 ⊢
            exact Or.inl h3
        · exact Or.inr ⟨x, List.mem_cons_of_mem _ hx, h3⟩
  obtain ⟨-, h2, h3⟩ := hfold s.banks 0
  refine ⟨h2, ?_⟩
  cases hbs : s.banks with
  | nil => exact Or.inl ⟨rfl, by rw [maxHistory, hbs]; rfl⟩
  | cons b bs =>
    rcases h3 with h3 | h3
    · refine Or.inr ⟨b, List.mem_cons_self, ?_⟩
      have hle := h2 b (hbs ▸ List.mem_cons_self)
      change _ = s.banks.foldl _ 0
      omega
    · exact Or.inr (hbs ▸ h3)

theorem Ghr.withLen_spec {n : Nat} {g : Ghr} (h : Ghr.withLen n = some g) :
    g.len = n ∧ n ≤ 1024 ∧ ∀ i, g.bit i = false := by
  unfold Ghr.withLen at h
  rw [Option.ite_none_right_eq_some] at h
  obtain ⟨hle, hg⟩ := h
  obtain rfl := Option.some.inj hg
  refine ⟨rfl, hle, fun i => ?_⟩
  unfold Ghr.bit Ghr.word
  by_cases hi : i / 64 < 16
  · simp [hi]
  · simp [hi]

/-- Bank sets from `GeoBankSet::new` around one empty history make a fresh predictor. -/
theorem Histories.fresh {n : Nat} {g : Ghr} {sets : List GeoBankSet} (hg : Ghr.withLen n = some g)
    (hs : ∀ s ∈ sets, ∃ hls tws tb, GeoBankSet.new hls tws tb = some s ∧ tb < 64 ∧ ∀ w ∈ tws, w < 64) :
    Histories.Fresh ⟨g, g, sets⟩ := by
  obtain ⟨hlen, hn, hempty⟩ := Ghr.withLen_spec hg
  have hbanks : ∀ s ∈ sets, s.tableBits < 64 ∧ ∀ b ∈ s.banks, b.tagWidth < 64 ∧
      b.spec = .new s.tableBits b.tagWidth b.histLength ∧ b.committed = .new s.tableBits b.tagWidth b.histLength := by
    intro s hin
    obtain ⟨hls, tws, tb, hnew, htb, htws⟩ := hs s hin
    obtain ⟨hbits, -, hspec⟩ := GeoBankSet.new_spec hnew
    refine ⟨hbits ▸ htb, fun b hb => ?_⟩
    obtain ⟨htag, h1, h2⟩ := hspec b hb
    exact ⟨htws _ htag, hbits ▸ h1, hbits ▸ h2⟩
  refine ⟨⟨?_, ?_, ?_, ?_⟩, rfl, hempty, hlen ▸ hn, ?_⟩
  · exact fun s hin => (hbanks s hin).1
  · exact fun s hin b hb => ((hbanks s hin).2 b hb).1
  · intro s hin b hb
    rw [((hbanks s hin).2 b hb).2.1]
    exact FoldedCsrs.shape_new _ _ _
  · intro s hin b hb
    rw [((hbanks s hin).2 b hb).2.2]
    exact FoldedCsrs.shape_new _ _ _
  · exact fun s hin b hb => ((hbanks s hin).2 b hb).2

/-- Lengths of the banks of a set, as its configuration gives them. -/
theorem forall_banks {hls tws : List Nat} {tb : Nat} {s : GeoBankSet} (h : GeoBankSet.new hls tws tb = some s)
    (P : Nat → Prop) : (∀ b ∈ s.banks, P b.histLength) ↔ ∀ l ∈ hls, P l := by
  rw [← (GeoBankSet.new_spec h).2.1]
  exact List.forall_mem_map.symm

/-- The window of a history that is as long as the longest bank of TAGE. -/
theorem le_window_iff {c : BankConfig} {tage : GeoBankSet} {g : Ghr} (ht : TageCore.new c = some tage)
    (hg : Ghr.withLen (TageCore.maxHistory tage) = some g) (hpos : ∀ l ∈ c.historyLengths, 0 < l) {l : Nat}
    (hl : l ≤ 1024) :
    l ≤ g.window ↔ c.historyLengths = [] ∨ ∃ t ∈ c.historyLengths, l ≤ t := by
  obtain ⟨hlen, hn, -⟩ := Ghr.withLen_spec hg
  have hnew := TageCore.new_spec ht
  have hlens := (GeoBankSet.new_spec hnew).2.1
  obtain ⟨hmax, hlong⟩ := TageCore.maxHistory_spec tage
  unfold Ghr.window
  rw [hlen]
  rcases hlong with ⟨hnil, h0⟩ | ⟨b, hb, hbmax⟩
  · -- without banks the history is never masked
    rw [hnil, List.map_nil] at hlens
    rw [h0, if_neg (by omega)]
    exact ⟨fun _ => Or.inl hlens.symm, fun _ => by omega⟩
  · have hin : b.histLength ∈ c.historyLengths := hlens ▸ List.mem_map_of_mem hb
    have hb0 := hpos _ hin
    have hwin : (if 0 < TageCore.maxHistory tage ∧ TageCore.maxHistory tage < 16 * 64 then TageCore.maxHistory tage
        else 16 * 64) = TageCore.maxHistory tage := by split <;> omega
    rw [hwin]
    constructor
    · exact fun hle => Or.inr ⟨_, hin, by omega⟩
    · rintro (hnil | ⟨t, ht, hle⟩)
      · rw [hnil] at hin
        exact absurd hin List.not_mem_nil
      · rw [← hlens] at ht
        obtain ⟨b', hb', rfl⟩ := List.mem_map.mp ht
        exact Nat.le_trans hle (hmax b' hb')

/-- **Folded histories.** With registers narrower than a word, `TagePredictor` keeps every folded register equal to the
fold of its history in all runs if and only if no bank has history length 0; `ScLTagePredictor` does if and only if,
besides, no ITTAGE bank is longer than the longest TAGE bank, or TAGE has no banks at all. -/
theorem histories_fold_iff {tc ic : BankConfig} {tage sclTage : Histories} (ht : TagePredictor.new tc = some tage)
    (hs : ScLTagePredictor.new tc ic = some sclTage) (htn : tc.Narrow) (hin : ic.Narrow)
    (hlen : ∀ l ∈ ic.historyLengths, l ≤ 1024) :
    ((∀ p, tage.Run p → p.Folded) ↔ ∀ l ∈ tc.historyLengths, 0 < l) ∧
      ((∀ p, sclTage.Run p → p.Folded) ↔ (∀ l ∈ tc.historyLengths ++ ic.historyLengths, 0 < l) ∧
        (tc.historyLengths = [] ∨ ∀ l ∈ ic.historyLengths, ∃ t ∈ tc.historyLengths, l ≤ t)) := by
  -- the parts both constructors make
  unfold TagePredictor.new at ht
  unfold ScLTagePredictor.new at hs
  obtain ⟨core, hcore, ht⟩ := Option.bind_eq_some_iff.mp ht
  obtain ⟨g, hg, ht⟩ := Option.bind_eq_some_iff.mp ht
  obtain rfl := Option.some.inj ht
  obtain ⟨core', hcore', hs⟩ := Option.bind_eq_some_iff.mp hs
  obtain rfl := Option.some.inj (hcore.symm.trans hcore')
  obtain ⟨g', hg', hs⟩ := Option.bind_eq_some_iff.mp hs
  obtain rfl := Option.some.inj (hg.symm.trans hg')
  obtain ⟨ittage, hit, hs⟩ := Option.bind_eq_some_iff.mp hs
  obtain rfl := Option.some.inj hs
  have hnewT := TageCore.new_spec hcore
  have hnewI := Ittage.new_spec hit
  -- a TAGE bank is never longer than the history
  have hself : (∀ l ∈ tc.historyLengths, 0 < l) → ∀ l ∈ tc.historyLengths, l ≤ g.window := fun hpos l hl => by
    have hcap : l ≤ 1024 := by
      obtain ⟨hmax, -⟩ := TageCore.maxHistory_spec core
      have hle := (forall_banks hnewT fun l => l ≤ TageCore.maxHistory core).mp hmax l hl
      exact Nat.le_trans hle (Ghr.withLen_spec hg).2.1
    exact (le_window_iff hcore hg hpos hcap).mpr (Or.inr ⟨l, hl, Nat.le_refl l⟩)
  constructor
  · rw [Histories.runs_folded_iff (Histories.fresh hg ?_)]
    · have hcov : Histories.Covered ⟨g, g, [core]⟩ g.window ↔ ∀ l ∈ tc.historyLengths, 0 < l ∧ l ≤ g.window := by
        rw [← forall_banks hnewT fun l => 0 < l ∧ l ≤ g.window]
        exact List.forall_mem_singleton
      rw [hcov]
      exact ⟨fun h l hl => (h l hl).1, fun h l hl => ⟨h l hl, hself h l hl⟩⟩
    · intro s hs
      obtain rfl := List.mem_singleton.mp hs
      exact ⟨_, _, _, hnewT, htn.2.1, htn.2.2⟩
  · rw [Histories.runs_folded_iff (Histories.fresh hg ?_)]
    · have hcov : Histories.Covered ⟨g, g, [core, ittage]⟩ g.window ↔
          (∀ l ∈ tc.historyLengths, 0 < l ∧ l ≤ g.window) ∧ ∀ l ∈ ic.historyLengths, 0 < l ∧ l ≤ g.window := by
        rw [← forall_banks hnewT fun l => 0 < l ∧ l ≤ g.window, ← forall_banks hnewI fun l => 0 < l ∧ l ≤ g.window]
        exact List.forall_mem_cons.trans (and_congr Iff.rfl List.forall_mem_singleton)
      rw [hcov, List.forall_mem_append]
      constructor
      · rintro ⟨h, h'⟩
        have hpos : ∀ l ∈ tc.historyLengths, 0 < l := fun l hl => (h l hl).1
        refine ⟨⟨hpos, fun l hl => (h' l hl).1⟩, ?_⟩
        by_cases hnil : tc.historyLengths = []
        · exact Or.inl hnil
        · exact Or.inr fun l hl => ((le_window_iff hcore hg hpos (hlen l hl)).mp (h' l hl).2).resolve_left hnil
      · rintro ⟨⟨h, h'⟩, hcond⟩
        refine ⟨fun l hl => ⟨h l hl, hself h l hl⟩, fun l hl => ⟨h' l hl, ?_⟩⟩
        exact (le_window_iff hcore hg h (hlen l hl)).mpr (hcond.imp id fun hall => hall l hl)
    · intro s hs
      rcases List.mem_cons.mp hs with rfl | hs
      · exact ⟨_, _, _, hnewT, htn.2.1, htn.2.2⟩
      · obtain rfl := List.mem_singleton.mp hs
        exact ⟨_, _, _, hnewI, hin.1, hin.2.2⟩

/-- The banks of `TageConfig::default`, with smaller tables. -/
def tageBanks : BankConfig := ⟨8, 64, [5, 11, 22, 44, 89, 178, 356, 712], [8, 8, 9, 9, 10, 10, 11, 11]⟩

/-- The banks of `IttageConfig::default`, with smaller tables. -/
def ittageBanks : BankConfig := ⟨8, 64, [4, 8, 16, 32, 64, 128, 256, 512], [9, 9, 10, 10, 11, 11, 12, 12]⟩

/-- The default lengths are covered. -/
theorem default_folded : ∃ tage sclTage, TagePredictor.new tageBanks = some tage ∧
    ScLTagePredictor.new tageBanks ittageBanks = some sclTage ∧ (∀ p, tage.Run p → p.Folded) ∧
      ∀ p, sclTage.Run p → p.Folded := by
  obtain ⟨tage, ht⟩ := Option.isSome_iff_exists.mp (by decide : (TagePredictor.new tageBanks).isSome = true)
  obtain ⟨sclTage, hs⟩ := Option.isSome_iff_exists.mp
    (by decide : (ScLTagePredictor.new tageBanks ittageBanks).isSome = true)
  obtain ⟨h1, h2⟩ := histories_fold_iff ht hs (by decide +kernel) (by decide +kernel) (by decide)
  exact ⟨tage, sclTage, ht, hs, h1.mpr (by decide), h2.mpr (by decide)⟩

/-- TAGE looks at four outcomes, ITTAGE at eight. -/
def longIttage : Option Histories := ScLTagePredictor.new ⟨1, 8, [4], [8]⟩ ⟨1, 8, [8], [8]⟩

/-- Four branches after a taken one the history is empty; ITTAGE's index still has it. -/
theorem longIttage_unfolded : ∃ p₀, longIttage = some p₀ ∧ ¬∀ p, p₀.Run p → p.Folded := by
  have hdiff : (longIttage.map fun p₀ => (p₀.oneTaken 4).sets.map fun s => s.banks.map fun b =>
      (s.specIndex 0 b, s.snapshotIndex 0 b (p₀.oneTaken 4).specGhr)) = some [[(0, 0)], [(3, 0)]] := by decide +kernel
  obtain ⟨p₀, hp, hsets⟩ := Option.map_eq_some_iff.mp hdiff
  refine ⟨p₀, hp, fun h => ?_⟩
  have hfold := (h _ (Histories.Run.oneTaken 4)).index
  have hin : ([(3, 0)] : List (U64 × U64)) ∈ (p₀.oneTaken 4).sets.map fun s => s.banks.map fun b =>
      (s.specIndex 0 b, s.snapshotIndex 0 b (p₀.oneTaken 4).specGhr) := by
    rw [hsets]
    decide
  obtain ⟨s, hs, heq⟩ := List.mem_map.mp hin
  obtain ⟨b, hb, hpair⟩ := List.mem_map.mp (heq ▸ List.mem_singleton_self ((3, 0) : U64 × U64))
  have hne := hfold s hs b hb 0
  obtain ⟨hspec, hsnap⟩ := Prod.ext_iff.mp hpair
  dsimp only at hspec hsnap
  rw [hspec, hsnap] at hne
  exact absurd hne (by decide)

end Rvsim
