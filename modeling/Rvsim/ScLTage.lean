/-
# SC-L-TAGE with ITTAGE

`components/tage_core.rs`, `components/stat_corrector.rs`, `components/ittage.rs`
and `predictors/sc_l_tage.rs`. A branch is predicted by TAGE, by the loop
predictor when it has an answer, else by the statistical corrector over TAGE's
prediction; what the corrector was given is kept for the update in a cache of 64
entries. Targets of jumps come from ITTAGE and then from the buffer of targets.

Counters of the source are bounded far inside their types and are numbers here.
Two records are not in the source: the predictions so far, and ITTAGE's updates
so far.

Key definitions:
  - `TageCore`, `StatCorrector`, `Ittage`, `ScLTagePredictor`
  - `ScLTagePredictor.pairOf`: what the corrector computes for a branch
Key theorems:
  - `ScLTagePredictor.ofConfig_spec`, `ScLTagePredictor.histories_speculate`, `ScLTagePredictor.histories_updateBranch`:
    the histories are those of `Histories`
-/
import Rvsim.BranchFlight
import Rvsim.LoopPredictor

namespace Rvsim

/-! ### Tables of banks -/

/-- An index and a tag for each bank. -/
abbrev Places := List (U64 × U16)

namespace Places

def place (ps : Places) (i : Nat) : U64 × U16 := ps.getD i (0, 0)

end Places

def GeoBankSet.specAll (s : GeoBankSet) (pc : U64) : Places :=
  s.banks.map fun b => (s.specIndex pc b, GeoBankSet.specTag pc b)

def GeoBankSet.snapshotAll (s : GeoBankSet) (pc : U64) (ghr : Ghr) : Places :=
  s.banks.map fun b => (s.snapshotIndex pc b ghr, s.snapshotTag pc b ghr)

/-- One table a bank. -/
abbrev Tables (E : Type) := List (List E)

namespace Tables

variable {E : Type} [Inhabited E]

def entry (ts : Tables E) (ps : Places) (i : Nat) : E := (ts.getD i []).getD (ps.place i).1.toNat default

def modifyEntry (ts : Tables E) (ps : Places) (i : Nat) (f : E → E) : Tables E :=
  ts.modify i fun t => t.modify (ps.place i).1.toNat f

/-- The banks whose entry has the tag, longest history first. -/
def hits (tag : E → U16) (ts : Tables E) (ps : Places) : List Nat :=
  (List.range ts.length).reverse.filter fun i => tag (ts.entry ps i) == (ps.place i).2

/-- From bank `start` on, the first free entry is taken; when there is none, all of them decay. -/
def allocate (free : E → Bool) (take : U16 → E) (decay : E → E) (ts : Tables E) (ps : Places)
    (start : Nat) : Tables E :=
  match (List.range ts.length).find? fun i => decide (start ≤ i) && free (ts.entry ps i) with
  | some i => ts.modifyEntry ps i fun _ => take (ps.place i).2
  | none => ts.mapIdx fun i t => if start ≤ i then t.modify (ps.place i).1.toNat decay else t

end Tables

/-! ### TAGE -/

inductive TageConfLevel where
  | high
  | medium
  | low
  | none
  deriving DecidableEq, Repr

/-- From the counter, centred. -/
def TageConfLevel.fromCtr (ctr : Int) : TageConfLevel :=
  let centered := 2 * ctr.natAbs + 1
  if centered ≥ 7 then .high else if centered = 5 then .medium else if centered = 1 then .low else .none

structure TageScMeta where
  conf : TageConfLevel
  /-- 0 is the base table. -/
  providerBank : Nat
  altBankPresent : Bool
  predTaken : Bool
  predCtr : Int
  deriving DecidableEq, Repr

structure TageEntry where
  tag : U16 := 0
  ctr : Int := 0
  u : Nat := 0
  deriving DecidableEq, Repr, Inhabited

/-- `TageConfig`. -/
structure TageConfig where
  banks : BankConfig
  loopTableSize : Nat
  resetInterval : Nat
  deriving DecidableEq, Repr

structure TageCore where
  base : List Int
  geoBanks : GeoBankSet
  tables : Tables TageEntry
  useAltOnNaCtr : Int
  clockCounter : Nat
  resetInterval : Nat

namespace TageCore

/-- `TageCore::new`. -/
def ofConfig (config : TageConfig) : Option TageCore :=
  (TageCore.new config.banks).map fun geoBanks =>
    { base := List.replicate config.banks.tableSize 0
      geoBanks := geoBanks
      tables := List.replicate config.banks.numBanks (List.replicate config.banks.tableSize {})
      useAltOnNaCtr := 0
      clockCounter := 0
      resetInterval := config.resetInterval }

def baseIdx (t : TageCore) (pc : U64) : Nat := ((pc >>> 2) &&& t.geoBanks.tableMask).toNat

def weak (ctr : Int) : Bool := ctr == 0 || ctr == -1

/-- The prediction from the provider and the alternate among the banks that hit. -/
def predict (t : TageCore) (pc : U64) : TageScMeta :=
  let ps := t.geoBanks.specAll pc
  let base := t.base.getD (t.baseIdx pc) 0
  match t.tables.hits TageEntry.tag ps with
  | [] =>
    { conf := .fromCtr base, providerBank := 0, altBankPresent := false, predTaken := decide (base ≥ 0),
      predCtr := base }
  | bank :: alts =>
    let provCtr := (t.tables.entry ps bank).ctr
    let altCtr := (alts.head?.map fun a => (t.tables.entry ps a).ctr).getD base
    let ctr := if weak provCtr ∧ t.useAltOnNaCtr ≥ 0 then altCtr else provCtr
    { conf := .fromCtr ctr, providerBank := bank + 1, altBankPresent := alts.head?.isSome,
      predTaken := decide (ctr ≥ 0), predCtr := ctr }

/-- The useful bits are halved once in an interval. -/
def tickClock (t : TageCore) : TageCore :=
  if t.clockCounter + 1 ≥ t.resetInterval then
    { t with clockCounter := 0, tables := t.tables.map (·.map fun e => { e with u := e.u / 2 }) }
  else { t with clockCounter := t.clockCounter + 1 }

/-- The provider's entry after an outcome. -/
def trainEntry (taken provMispred altWrong : Bool) (e : TageEntry) : TageEntry :=
  { e with
    ctr := if taken then if e.ctr < 3 then e.ctr + 1 else e.ctr else if e.ctr > -4 then e.ctr - 1 else e.ctr
    u := if !provMispred && altWrong && decide (e.u < 3) then e.u + 1 else if provMispred && decide (e.u > 0) then
        e.u - 1 else e.u }

def trainBase (taken : Bool) (b : Int) : Int :=
  if taken then if b < 1 then b + 1 else b else if b > -2 then b - 1 else b

/-- The entries come from the committed history. -/
def update (t : TageCore) (pc : U64) (taken : Bool) : TageScMeta × TageCore :=
  let t := t.tickClock
  let ps := t.geoBanks.committedAll pc
  let hits := t.tables.hits TageEntry.tag ps
  let baseIdx := t.baseIdx pc
  let base := t.base.getD baseIdx 0
  let provCtr := (hits.head?.map fun b => (t.tables.entry ps b).ctr).getD base
  let altCtr := (hits.tail.head?.map fun b => (t.tables.entry ps b).ctr).getD base
  let provTaken := decide (provCtr ≥ 0)
  let altTaken := decide (altCtr ≥ 0)
  let providerWeak := hits.head?.isSome && weak provCtr
  let useAlt :=
    if providerWeak && provTaken != altTaken then
      if altTaken == taken then min (t.useAltOnNaCtr + 1) 7 else max (t.useAltOnNaCtr - 1) (-8)
    else t.useAltOnNaCtr
  let effCtr := if providerWeak ∧ useAlt ≥ 0 then altCtr else provCtr
  let effTaken := decide (effCtr ≥ 0)
  let provMispred := provTaken != taken
  let tables :=
    match hits.head? with
    | some bank => t.tables.modifyEntry ps bank (trainEntry taken provMispred (altTaken != taken))
    | none => t.tables
  let bases := if hits.head?.isSome then t.base else t.base.modify baseIdx (trainBase taken)
  let tables :=
    if effTaken != taken then
      tables.allocate (fun e => e.u == 0) (fun tag => { tag := tag, ctr := if taken then 0 else -1, u := 1 })
        (fun e => { e with u := e.u - 1 }) ps ((hits.head?.map (· + 1)).getD 0)
    else tables
  ({ conf := .fromCtr effCtr, providerBank := (hits.head?.map (· + 1)).getD 0, altBankPresent := hits.tail.head?.isSome,
     predTaken := effTaken, predCtr := effCtr },
    { t with base := bases, tables := tables, useAltOnNaCtr := useAlt })

end TageCore

/-! ### The statistical corrector -/

structure ScConfig where
  numTables : Nat
  tableSize : Nat
  historyLengths : List Nat
  counterBits : Nat
  biasTableSize : Nat
  biasCounterBits : Nat
  initialThreshold : Nat
  perPcThresholdBits : Nat
  deriving DecidableEq, Repr

/-- A counter of so many bits. -/
def clampCounter (val : Int) (bits : Nat) : Int := max (-(2 ^ (bits - 1))) (min val (2 ^ (bits - 1) - 1))

structure StatCorrector where
  /-- One table after the other. -/
  counters : List Int
  numTables : Nat
  histLengths : List Nat
  tableSize : Nat
  tableBits : Nat
  counterBits : Nat
  bias : List Int
  biasSk : List Int
  biasBank : List Int
  biasMask : U64
  biasCounterBits : Nat
  /-- Eight times the threshold. -/
  updateThreshold : Int
  perPcThreshold : List Int
  perPcThresholdMask : U64
  firstH : Int
  secondH : Int

namespace StatCorrector

/-- More than eight tables are refused. -/
def new (config : ScConfig) : Option StatCorrector :=
  if config.numTables ≤ 8 then
    let tableSize := config.tableSize.nextPowerOfTwo
    let biasSize := config.biasTableSize.nextPowerOfTwo
    let perPcSize := 1 <<< config.perPcThresholdBits
    some
      { counters := List.replicate (config.numTables * tableSize) 0
        numTables := config.numTables
        histLengths := config.historyLengths.take config.numTables
        tableSize := tableSize
        tableBits := tableSize.log2
        counterBits := config.counterBits
        bias := List.replicate biasSize 0
        biasSk := List.replicate biasSize 0
        biasBank := List.replicate biasSize 0
        biasMask := BitVec.ofNat 64 biasSize - 1
        biasCounterBits := config.biasCounterBits
        updateThreshold := config.initialThreshold * 8
        perPcThreshold := List.replicate perPcSize 0
        perPcThresholdMask := BitVec.ofNat 64 perPcSize - 1
        firstH := -1
        secondH := -1 }
  else none

/-- The loop that folds the history; it has at most as many rounds as the history has bits. -/
def foldHist (tableBits hl : Nat) (histBits : U64) : Nat → Nat → U64 → U64
  | 0, _, h => h
  | n + 1, shift, h =>
    if shift < hl then foldHist tableBits hl histBits n (shift + tableBits) (h ^^^ (histBits >>> (shift % 64))) else h

def tableIndex (sc : StatCorrector) (pc : U64) (ghr : Ghr) (table : Nat) : Nat :=
  let pcHash := pc >>> 2
  let hl := sc.histLengths.getD table 0
  let tableMask : U64 := BitVec.ofNat 64 sc.tableSize - 1
  if hl = 0 then (pcHash &&& tableMask).toNat
  else
    let histBits := if hl ≥ 64 then ghr.val else ghr.val &&& FoldedHistory.mask hl
    ((pcHash ^^^ foldHist sc.tableBits hl histBits hl sc.tableBits histBits) &&& tableMask).toNat

def lowConf (m : TageScMeta) : Bool := m.conf == .low || m.conf == .none

def highConf (m : TageScMeta) : Bool := m.conf == .high

def flag (b : Bool) : U64 := if b then 1 else 0

def biasIndex (sc : StatCorrector) (pc : U64) (m : TageScMeta) : Nat :=
  (((pc >>> 2) ^^^ (flag (lowConf m) <<< 1) ^^^ flag m.predTaken) &&& sc.biasMask).toNat

def biasSkIndex (sc : StatCorrector) (pc : U64) (m : TageScMeta) : Nat :=
  (((pc >>> 2) ^^^ (flag (highConf m) <<< 1) ^^^ flag m.predTaken) &&& sc.biasMask).toNat

def biasBankIndex (sc : StatCorrector) (pc : U64) (m : TageScMeta) : Nat :=
  (((pc >>> 2) ^^^ (BitVec.ofNat 64 m.providerBank &&& 0xF) ^^^ (flag (highConf m) <<< 4) ^^^
      (flag (lowConf m) <<< 5) ^^^
    (flag m.altBankPresent <<< 6) ^^^ flag m.predTaken) &&& sc.biasMask).toNat

def perPcIdx (sc : StatCorrector) (pc : U64) : Nat := ((pc >>> 2) &&& sc.perPcThresholdMask).toNat

def effectiveThreshold (sc : StatCorrector) (pc : U64) : Int :=
  sc.updateThreshold / 8 + sc.perPcThreshold.getD (sc.perPcIdx pc) 0

/-- The corrector's direction wins over TAGE's. -/
def overrideDecision (sc : StatCorrector) (scTaken : Bool) (m : TageScMeta) (sumAbs thres : Int) : Bool :=
  if scTaken = m.predTaken then false
  else if sumAbs ≥ thres then true
  else
    let quarter := thres.tdiv 4
    let half := thres.tdiv 2
    match m.conf with
    | .high => if sumAbs < quarter then false else if sumAbs < half then decide (sc.secondH ≥ 0) else false
    | .medium => if sumAbs < quarter then decide (sc.firstH ≥ 0) else false
    | _ => false

def counterIdx (sc : StatCorrector) (pc : U64) (ghr : Ghr) (t : Nat) : Nat := t * sc.tableSize + sc.tableIndex pc ghr t

/-- The direction and the sum. -/
def predict (sc : StatCorrector) (pc : U64) (ghr : Ghr) (m : TageScMeta) : Bool × Int :=
  let sum := 2 * m.predCtr + 1
  let sum := sum + (2 * sc.bias.getD (sc.biasIndex pc m) 0 + 1)
  let sum := sum + (2 * sc.biasSk.getD (sc.biasSkIndex pc m) 0 + 1)
  let sum := sum + (2 * sc.biasBank.getD (sc.biasBankIndex pc m) 0 + 1)
  let sum := (List.range sc.numTables).foldl
      (fun sum t => sum + (2 * sc.counters.getD (sc.counterIdx pc ghr t) 0 + 1)) sum
  let scTaken := decide (sum ≥ 0)
  let corrected := if sc.overrideDecision scTaken m |sum| (sc.effectiveThreshold pc) then scTaken else m.predTaken
  (corrected, sum)

/-- The choosers, in the zones that they decide. -/
def trainChoosers (sc : StatCorrector) (taken scTaken : Bool) (m : TageScMeta) (sumAbs thres : Int) : StatCorrector :=
  let quarter := thres.tdiv 4
  let half := thres.tdiv 2
  let move (c : Int) : Int := if scTaken == taken then min (c + 1) 63 else max (c - 1) (-64)
  let sc := if m.conf = .high ∧ sumAbs ≥ quarter ∧ sumAbs < half then { sc with secondH := move sc.secondH } else sc
  if m.conf = .medium ∧ sumAbs < quarter then { sc with firstH := move sc.firstH } else sc

def trainThreshold (sc : StatCorrector) (pc : U64) (taken scTaken : Bool) : StatCorrector :=
  if scTaken == taken then
    { sc with
      updateThreshold := max (sc.updateThreshold - 1) 0
      perPcThreshold := sc.perPcThreshold.modify (sc.perPcIdx pc) fun v => max (v - 1) (-16) }
  else
    { sc with
      updateThreshold := min (sc.updateThreshold + 1) 511
      perPcThreshold := sc.perPcThreshold.modify (sc.perPcIdx pc) fun v => min (v + 1) 15 }

def trainCounters (sc : StatCorrector) (pc : U64) (ghr : Ghr) (taken : Bool) (m : TageScMeta) : StatCorrector :=
  let move (bits : Nat) (v : Int) : Int := if taken then clampCounter (v + 1) bits else clampCounter (v - 1) bits
  { sc with
    bias := sc.bias.modify (sc.biasIndex pc m) (move sc.biasCounterBits)
    biasSk := sc.biasSk.modify (sc.biasSkIndex pc m) (move sc.biasCounterBits)
    biasBank := sc.biasBank.modify (sc.biasBankIndex pc m) (move sc.biasCounterBits)
    counters := (List.range sc.numTables).foldl
        (fun cs t => cs.modify (sc.counterIdx pc ghr t) (move sc.counterBits)) sc.counters }

/-- The threshold of the call is the one from before the training. -/
def update (sc : StatCorrector) (pc : U64) (ghr : Ghr) (taken : Bool) (m : TageScMeta) (sum : Int) : StatCorrector :=
  let scTaken := decide (sum ≥ 0)
  let thres := sc.effectiveThreshold pc
  let sc := if scTaken ≠ m.predTaken then sc.trainChoosers taken scTaken m |sum| thres else sc
  let sc := if scTaken ≠ m.predTaken then sc.trainThreshold pc taken scTaken else sc
  let scPred := if sc.overrideDecision scTaken m |sum| thres then scTaken else m.predTaken
  if scPred ≠ taken ∨ |sum| < thres then sc.trainCounters pc ghr taken m else sc

end StatCorrector

/-! ### ITTAGE -/

structure IttageEntry where
  tag : U16 := 0
  target : U64 := 0
  u : Nat := 0
  /-- The number of the update that trained the entry last. Not in the source. -/
  trainer : Option Nat := none
  deriving DecidableEq, Repr, Inhabited

structure IttageConfig where
  banks : BankConfig
  resetInterval : Nat
  deriving DecidableEq, Repr

/-- A call of `Ittage::update`. -/
structure TargetUpdate where
  pc : U64
  target : U64
  ghr : Ghr
  deriving DecidableEq, Repr

structure Ittage where
  banks : GeoBankSet
  tables : Tables IttageEntry
  clockCounter : Nat
  resetInterval : Nat
  /-- The updates so far. Not in the source. -/
  updates : List TargetUpdate := []

namespace Ittage

/-- `Ittage::new`. -/
def ofConfig (config : IttageConfig) : Option Ittage :=
  (Ittage.new config.banks).map fun banks =>
    { banks := banks
      tables := List.replicate config.banks.numBanks (List.replicate config.banks.tableSize.nextPowerOfTwo {})
      clockCounter := 0
      resetInterval := config.resetInterval }

/-- The entry of the longest history that has the tag and a target. -/
def provider (it : Ittage) (pc : U64) : Option IttageEntry :=
  let ps := it.banks.specAll pc
  ((it.tables.hits IttageEntry.tag ps).map (it.tables.entry ps)).find? fun e => e.target != 0

def predict (it : Ittage) (pc : U64) : Option U64 := (it.provider pc).map (·.target)

def tickClock (it : Ittage) : Ittage :=
  if it.clockCounter + 1 ≥ it.resetInterval then
    { it with clockCounter := 0, tables := it.tables.map (·.map fun e => { e with u := e.u / 2 }) }
  else { it with clockCounter := it.clockCounter + 1 }

def trainEntry (n : Nat) (target : U64) (e : IttageEntry) : IttageEntry :=
  let e := { e with trainer := some n }
  if e.target = target then { e with u := min (e.u + 1) 3 } else if e.u > 0 then { e with u := e.u - 1 } else
      { e with target := target }

/-- The entries come from the snapshot. -/
def update (it : Ittage) (pc target : U64) (ghrSnapshot : Ghr) : Ittage :=
  let n := it.updates.length
  let it := it.tickClock
  let ps := it.banks.snapshotAll pc ghrSnapshot
  let provider := (it.tables.hits IttageEntry.tag ps).head?
  let tables :=
    match provider with
    | some bank => it.tables.modifyEntry ps bank (trainEntry n target)
    | none => it.tables
  let mispredicted :=
    match provider with
    | some bank => (tables.entry ps bank).target != target
    | none => true
  let tables :=
    if mispredicted then
      tables.allocate (fun e => e.u == 0) (fun tag => { tag := tag, target := target, u := 1, trainer := some n })
        (fun e => { e with u := e.u - 1 }) ps ((provider.map (· + 1)).getD 0)
    else tables
  { it with tables := tables, updates := it.updates ++ [⟨pc, target, ghrSnapshot⟩] }

end Ittage

/-! ### The predictor -/

/-- What the statistical corrector was given and what it summed up. -/
abbrev ScPair := TageScMeta × Int

structure ScCacheEntry where
  pc : U64 := 0
  pair : Option ScPair := none
  /-- The number of the prediction that left the entry. Not in the source. -/
  serial : Nat := 0
  deriving DecidableEq, Repr, Inhabited

/-- A prediction: the branch, and the pair when the loop predictor had no answer. -/
structure Asked where
  pc : U64
  pair : Option ScPair
  deriving DecidableEq, Repr

structure ScLTagePredictor where
  btb : Btb
  specGhr : Ghr
  commitGhr : Ghr
  tage : TageCore
  loopPred : LoopPredictor
  sc : StatCorrector
  ittage : Ittage
  scCache : Vector ScCacheEntry 64
  /-- The predictions so far. Not in the source. -/
  asked : List Asked := []

namespace ScLTagePredictor

/-- `ScLTagePredictor::new`. -/
def ofConfig (tageConfig : TageConfig) (scConfig : ScConfig) (ittageConfig : IttageConfig) (btbSize btbWays : Nat) :
    Option ScLTagePredictor := do
  let tage ← TageCore.ofConfig tageConfig
  let ghr ← Ghr.withLen (TageCore.maxHistory tage.geoBanks)
  let sc ← StatCorrector.new scConfig
  let ittage ← Ittage.ofConfig ittageConfig
  some
    { btb := .new btbSize btbWays
      specGhr := ghr
      commitGhr := ghr
      tage := tage
      loopPred := .new tageConfig.loopTableSize
      sc := sc
      ittage := ittage
      scCache := Vector.replicate 64 {} }

def cacheIdx (pc : U64) : Fin 64 := Fin.ofNat 64 (pc >>> 2).toNat

/-- The pair that the prediction of a branch computes, if the loop predictor does not answer for it. -/
def pairOf (p : ScLTagePredictor) (pc : U64) : Option ScPair :=
  if (p.loopPred.predict pc).isSome then none
  else some (p.tage.predict pc, (p.sc.predict pc p.specGhr (p.tage.predict pc)).2)

def predictBranch (p : ScLTagePredictor) (pc : U64) : (Bool × Option U64) × ScLTagePredictor :=
  let m := p.tage.predict pc
  match p.loopPred.predict pc with
  | some loopTaken => ((loopTaken, if loopTaken then p.btb.lookup pc else none),
      { p with asked := p.asked ++ [⟨pc, none⟩] })
  | none =>
    let (scTaken, scSum) := p.sc.predict pc p.specGhr m
    ((scTaken, if scTaken then p.btb.lookup pc else none),
      { p with
        scCache := p.scCache.set (cacheIdx pc) ⟨pc, some (m, scSum), p.asked.length⟩
        asked := p.asked ++ [⟨pc, some (m, scSum)⟩] })

/-- The entry that the update of a branch takes its pair from. -/
def cached (p : ScLTagePredictor) (pc : U64) : Option (ScPair × Nat) :=
  let e := p.scCache[cacheIdx pc]
  if e.pc = pc then e.pair.map fun pair => (pair, e.serial) else none

def updateBranch (p : ScLTagePredictor) (pc : U64) (taken : Bool) (target : Option U64) (ghrSnapshot : Ghr) :
    ScLTagePredictor :=
  let loopPred := p.loopPred.update pc taken
  let (m, tage) := p.tage.update pc taken
  let (scMeta, scSum) :=
    match p.cached pc with
    | some (pair, _) => pair
    | none => (m, (p.sc.predict pc p.commitGhr m).2)
  let sc := p.sc.update pc p.commitGhr taken scMeta scSum
  let (ittage, btb) :=
    match target with
    | some tgt => (p.ittage.update pc tgt ghrSnapshot, p.btb.update pc tgt)
    | none => (p.ittage, p.btb)
  { p with
    loopPred := loopPred
    sc := sc
    btb := btb
    tage := { tage with geoBanks := tage.geoBanks.updateCommittedCsrs taken p.commitGhr }
    ittage := { ittage with banks := ittage.banks.updateCommittedCsrs taken p.commitGhr }
    commitGhr := p.commitGhr.push taken }

instance : BranchPredictor ScLTagePredictor where
  predictBranch := predictBranch
  updateBranch := updateBranch
  predictBtb p pc := (p.ittage.predict pc).or (p.btb.lookup pc)
  onCall p pc target := { p with btb := p.btb.update pc target }
  speculate p _ taken :=
    { p with
      tage := { p.tage with geoBanks := p.tage.geoBanks.updateCsrs taken p.specGhr }
      ittage := { p.ittage with banks := p.ittage.banks.updateCsrs taken p.specGhr }
      specGhr := p.specGhr.push taken }
  snapshotHistory := specGhr
  repairHistory p ghr :=
    { p with
      specGhr := ghr
      tage := { p.tage with geoBanks := p.tage.geoBanks.recomputeAll ghr }
      ittage := { p.ittage with banks := p.ittage.banks.recomputeAll ghr } }
  updateBtb p pc target := { p with btb := p.btb.update pc target }
  repairToCommitted p :=
    { p with
      specGhr := p.commitGhr
      tage := { p.tage with geoBanks := p.tage.geoBanks.copyCommittedToSpec }
      ittage := { p.ittage with banks := p.ittage.banks.copyCommittedToSpec } }

/-! ### Its histories -/

/-- The histories and the banks that follow them. -/
def histories (p : ScLTagePredictor) : Histories := ⟨p.specGhr, p.commitGhr, [p.tage.geoBanks, p.ittage.banks]⟩

open BranchPredictor

variable (p : ScLTagePredictor) (pc target : U64) (taken : Bool)

theorem histories_predictBranch : (p.predictBranch pc).2.histories = p.histories := by
  unfold predictBranch
  dsimp only
  split <;> rfl

theorem histories_speculate : (speculate p pc taken).histories = p.histories.speculate taken := rfl

theorem histories_repairHistory (g : Ghr) : (repairHistory p g).histories = p.histories.repairHistory g := rfl

theorem histories_repairToCommitted : (repairToCommitted p).histories = p.histories.repairToCommitted := rfl

theorem banks_update (t : TageCore) : (t.update pc taken).2.geoBanks = t.geoBanks := by
  have hclock : t.tickClock.geoBanks = t.geoBanks := by
    unfold TageCore.tickClock
    split <;> rfl
  exact hclock

theorem banks_ittage (it : Ittage) (g : Ghr) : (it.update pc target g).banks = it.banks := by
  have hclock : it.tickClock.banks = it.banks := by
    unfold Ittage.tickClock
    split <;> rfl
  exact hclock

theorem histories_updateBranch (tgt : Option U64) (g : Ghr) :
    (p.updateBranch pc taken tgt g).histories = p.histories.updateBranch taken := by
  have htage := banks_update pc taken p.tage
  cases tgt with
  | none =>
    unfold updateBranch histories Histories.updateBranch
    simp only [List.map_cons, List.map_nil, htage]
  | some target =>
    have hittage := banks_ittage pc target p.ittage g
    unfold updateBranch histories Histories.updateBranch
    simp only [List.map_cons, List.map_nil, htage, hittage]

variable {p}

theorem ofConfig_spec {tc : TageConfig} {sc : ScConfig} {ic : IttageConfig} {bs bw : Nat}
    (h : ofConfig tc sc ic bs bw = some p) :
    ScLTagePredictor.new tc.banks ic.banks = some p.histories ∧ p.scCache = Vector.replicate 64 {} ∧ p.asked = [] ∧
      p.ittage.updates = [] := by
  simp only [ofConfig, TageCore.ofConfig, Ittage.ofConfig, Option.bind_eq_bind, Option.bind_eq_some_iff,
    Option.map_eq_some_iff] at h
  obtain ⟨tage, ⟨banks, hbanks, rfl⟩, ghr, hghr, corrector, hcorrector, ittage, ⟨tbanks, htbanks, rfl⟩, hp⟩ := h
  obtain rfl := Option.some.inj hp
  refine ⟨?_, rfl, rfl, rfl⟩
  simp only [ScLTagePredictor.new, Option.bind_eq_bind, hbanks, hghr, htbanks, Option.bind_some]
  rfl

end ScLTagePredictor

/-- Small tables. -/
def smallScLTage : Option ScLTagePredictor :=
  ScLTagePredictor.ofConfig ⟨⟨1, 4, [2], [4]⟩, 4, 1000⟩ ⟨1, 4, [2], 3, 4, 3, 5, 2⟩ ⟨⟨1, 4, [2], [4]⟩, 1000⟩ 4 2

end Rvsim
