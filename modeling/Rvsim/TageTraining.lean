/-
# TAGE trains on its prediction

`components/tage_core.rs`: `update` looks the banks up again, with the committed
registers, and chooses again between the provider and the alternate. It moves the
counter that the choice depends on before it chooses, so the two choices differ
where that counter changes sign.

Key definitions:
  - `TageOp`, `TageCore.run`, `TageCore.Crosses`, `TageCore.InRange`
Key theorems:
  - `TageCore.update_meta_iff`, `TageCore.InRange.step`
  - `TageCore.trains_on_prediction_iff`, `TageCore.trains_on_other`
-/
import Rvsim.ScLTage

namespace Rvsim

/-! ### Entries through an update -/

namespace Tables

variable {E : Type} [Inhabited E] {ts : Tables E} {P : E → Prop}

/-- The entries of all banks. -/
def All (P : E → Prop) (ts : Tables E) : Prop := ∀ t ∈ ts, ∀ e ∈ t, P e

theorem entry_map {f : E → E} (hf : f default = default) (ps : Places) (i : Nat) :
    entry (ts.map (·.map f)) ps i = f (ts.entry ps i) := by
  unfold entry
  simp only [List.getD_eq_getElem?_getD, List.getElem?_map]
  cases ts[i]? with
  | none => exact hf.symm
  | some t =>
    simp only [Option.map_some, Option.getD_some, List.getElem?_map]
    cases t[(ps.place i).1.toNat]? with
    | none => exact hf.symm
    | some e => rfl

theorem hits_map {f : E → E} {tag : E → U16} (hf : f default = default) (htag : ∀ e, tag (f e) = tag e) (ps : Places) :
    hits tag (ts.map (·.map f)) ps = hits tag ts ps := by
  unfold hits
  rw [List.length_map]
  refine List.filter_congr fun i _ => ?_
  rw [entry_map hf, htag]

theorem All.entry (h : All P ts) (hdef : P default) (ps : Places) (i : Nat) : P (ts.entry ps i) := by
  unfold Tables.entry
  rw [List.getD_eq_getElem?_getD, List.getD_eq_getElem?_getD]
  cases ht : ts[i]? with
  | none => exact hdef
  | some t =>
    rw [Option.getD_some]
    cases he : t[(ps.place i).1.toNat]? with
    | none => exact hdef
    | some e => exact h t (List.mem_of_getElem? ht) e (List.mem_of_getElem? he)

omit [Inhabited E] in
theorem all_modify {l : List E} {f : E → E} (h : ∀ e ∈ l, P e) (hf : ∀ e, P e → P (f e)) (i : Nat) :
    ∀ e ∈ l.modify i f, P e := by
  intro e he
  obtain ⟨j, hj⟩ := List.getElem?_of_mem he
  rw [List.getElem?_modify] at hj
  obtain ⟨e', he', rfl⟩ := Option.map_eq_some_iff.mp hj
  have hold := h e' (List.mem_of_getElem? he')
  split
  · exact hf e' hold
  · exact hold

omit [Inhabited E] in
theorem All.map {f : E → E} (h : All P ts) (hf : ∀ e, P e → P (f e)) : All P (ts.map (·.map f)) := by
  intro t ht e he
  obtain ⟨t', ht', rfl⟩ := List.mem_map.mp ht
  obtain ⟨e', he', rfl⟩ := List.mem_map.mp he
  exact hf e' (h t' ht' e' he')

omit [Inhabited E] in
theorem All.modifyEntry (h : All P ts) (ps : Places) (i : Nat) {f : E → E} (hf : ∀ e, P e → P (f e)) :
    All P (ts.modifyEntry ps i f) := by
  intro t ht
  obtain ⟨j, hj⟩ := List.getElem?_of_mem ht
  unfold Tables.modifyEntry at hj
  rw [List.getElem?_modify] at hj
  obtain ⟨t', ht', rfl⟩ := Option.map_eq_some_iff.mp hj
  have hold := h t' (List.mem_of_getElem? ht')
  split
  · exact all_modify hold hf _
  · exact hold

theorem All.allocate (h : All P ts) {free : E → Bool} {take : U16 → E} {decay : E → E} (htake : ∀ tag, P (take tag))
    (hdecay : ∀ e, P e → P (decay e)) (ps : Places) (start : Nat) : All P (ts.allocate free take decay ps start) := by
  unfold Tables.allocate
  split
  · exact h.modifyEntry ps _ fun _ _ => htake _
  · intro t ht
    obtain ⟨i, hi, rfl⟩ := List.mem_mapIdx.mp ht
    have hold := h ts[i] (List.getElem_mem hi)
    split
    · exact all_modify hold hdecay _
    · exact hold

end Tables

/-! ### The operations -/

/-- What is done to a `TageCore`; `ghr` is the history that the caller keeps. -/
inductive TageOp where
  | update (pc : U64) (taken : Bool)
  | speculate (taken : Bool) (ghr : Ghr)
  | commitAdvance (taken : Bool) (ghr : Ghr)
  | repair (ghr : Ghr)
  | repairToCommittedCsrs

structure TageUpdateResult where
  scMeta : TageScMeta
  tageTaken : Bool
  deriving DecidableEq, Repr

namespace TageCore

def speculate (t : TageCore) (taken : Bool) (ghr : Ghr) : TageCore :=
  { t with geoBanks := t.geoBanks.updateCsrs taken ghr }
def commitAdvance (t : TageCore) (taken : Bool) (ghr : Ghr) : TageCore :=
  { t with geoBanks := t.geoBanks.updateCommittedCsrs taken ghr }
def repair (t : TageCore) (ghr : Ghr) : TageCore := { t with geoBanks := t.geoBanks.recomputeAll ghr }
def repairToCommittedCsrs (t : TageCore) : TageCore := { t with geoBanks := t.geoBanks.copyCommittedToSpec }

/-- What `update` returns: the direction is the one it chose. -/
def updateResult (t : TageCore) (pc : U64) (taken : Bool) : TageUpdateResult :=
  ⟨(t.update pc taken).1, (t.update pc taken).1.predTaken⟩

def step (t : TageCore) : TageOp → TageCore
  | .update pc taken => (t.update pc taken).2
  | .speculate taken ghr => t.speculate taken ghr
  | .commitAdvance taken ghr => t.commitAdvance taken ghr
  | .repair ghr => t.repair ghr
  | .repairToCommittedCsrs => t.repairToCommittedCsrs

def run (t : TageCore) (ops : List TageOp) : TageCore := ops.foldl step t

/-- The speculative registers of every bank are the committed ones. -/
def SpecIsCommitted (t : TageCore) : Prop := ∀ b ∈ t.geoBanks.banks, b.spec = b.committed

/-- The counter of a branch's alternate: the next bank that hits, else the base table. -/
def altCtr (t : TageCore) (pc : U64) (alts : List Nat) : Int :=
  (alts.head?.map fun a => (t.tables.entry (t.geoBanks.specAll pc) a).ctr).getD (t.base.getD (t.baseIdx pc) 0)

/-- A weak provider and its alternate disagree, and the outcome moves the counter of
their choice across its sign. -/
def Crosses (t : TageCore) (pc : U64) (taken : Bool) : Prop :=
  ∃ bank alts, t.tables.hits TageEntry.tag (t.geoBanks.specAll pc) = bank :: alts ∧
    weak (t.tables.entry (t.geoBanks.specAll pc) bank).ctr = true ∧
    decide ((t.tables.entry (t.geoBanks.specAll pc) bank).ctr ≥ 0) ≠ decide (t.altCtr pc alts ≥ 0) ∧
    t.useAltOnNaCtr = if decide (t.altCtr pc alts ≥ 0) = taken then -1 else 0

/-! ### What an update returns -/

variable {t : TageCore} {pc : U64} {taken : Bool}

theorem specAll_eq_committedAll (h : t.SpecIsCommitted) (pc : U64) :
    t.geoBanks.specAll pc = t.geoBanks.committedAll pc := by
  unfold GeoBankSet.specAll GeoBankSet.committedAll GeoBankSet.specIndex GeoBankSet.specTag
  refine List.map_congr_left fun b hb => ?_
  rw [h b hb]

/-- The clock moves useful bits only. -/
theorem tickClock_spec (t : TageCore) : t.tickClock.geoBanks = t.geoBanks ∧ t.tickClock.base = t.base ∧
    t.tickClock.useAltOnNaCtr = t.useAltOnNaCtr ∧
    (∀ ps, t.tickClock.tables.hits TageEntry.tag ps = t.tables.hits TageEntry.tag ps) ∧
    ∀ ps i, (t.tickClock.tables.entry ps i).ctr = (t.tables.entry ps i).ctr := by
  unfold tickClock
  split
  · refine ⟨rfl, rfl, rfl, fun ps => ?_, fun ps i => ?_⟩
    · exact Tables.hits_map (f := fun e : TageEntry => { e with u := e.u / 2 }) rfl (fun _ => rfl) ps
    · rw [Tables.entry_map rfl]
  · exact ⟨rfl, rfl, rfl, fun _ => rfl, fun _ _ => rfl⟩

/-- The counter of the choice after an outcome. -/
def movedUseAlt (useAlt provCtr altCtr : Int) (taken : Bool) : Int :=
  if weak provCtr && decide (provCtr ≥ 0) != decide (altCtr ≥ 0) then
    if decide (altCtr ≥ 0) == taken then min (useAlt + 1) 7 else max (useAlt - 1) (-8)
  else useAlt

/-- Without a provider the base table decides. -/
theorem update_meta_none (h : t.SpecIsCommitted) (hits : t.tables.hits TageEntry.tag (t.geoBanks.specAll pc) = [])
    (taken : Bool) :
    (t.update pc taken).1 = t.predict pc := by
  obtain ⟨hbanks, hbase, huse, hhits, hctr⟩ := tickClock_spec t
  have hcommitted := specAll_eq_committedAll h pc
  have hidx : t.tickClock.baseIdx pc = t.baseIdx pc := by unfold baseIdx; rw [hbanks]
  unfold update predict
  dsimp only
  rw [hbanks, ← hcommitted, hhits, hits, hbase, hidx]
  simp

/-- With one, the choice is made by the counter that the outcome has moved. -/
theorem update_meta_some (h : t.SpecIsCommitted) {bank : Nat} {alts : List Nat}
    (hits : t.tables.hits TageEntry.tag (t.geoBanks.specAll pc) = bank :: alts) (taken : Bool) :
    (t.update pc taken).1 =
      let provCtr := (t.tables.entry (t.geoBanks.specAll pc) bank).ctr
      let ctr := if weak provCtr ∧ movedUseAlt t.useAltOnNaCtr provCtr (t.altCtr pc alts) taken ≥ 0 then
          t.altCtr pc alts else provCtr
      { conf := .fromCtr ctr, providerBank := bank + 1, altBankPresent := alts.head?.isSome,
        predTaken := decide (ctr ≥ 0), predCtr := ctr } := by
  obtain ⟨hbanks, hbase, huse, hhits, hctr⟩ := tickClock_spec t
  have hcommitted := specAll_eq_committedAll h pc
  have hidx : t.tickClock.baseIdx pc = t.baseIdx pc := by unfold baseIdx; rw [hbanks]
  unfold update movedUseAlt altCtr
  dsimp only
  rw [hbanks, ← hcommitted, hhits, hits, hbase, hidx, huse]
  simp only [hctr, List.head?_cons, List.tail_cons, Option.map_some, Option.getD_some,
      Option.isSome_some, Bool.true_and]

theorem predict_some {bank : Nat} {alts : List Nat}
    (hits : t.tables.hits TageEntry.tag (t.geoBanks.specAll pc) = bank :: alts) :
    t.predict pc =
      let provCtr := (t.tables.entry (t.geoBanks.specAll pc) bank).ctr
      let ctr := if weak provCtr ∧ t.useAltOnNaCtr ≥ 0 then t.altCtr pc alts else provCtr
      { conf := .fromCtr ctr, providerBank := bank + 1, altBankPresent := alts.head?.isSome,
        predTaken := decide (ctr ≥ 0), predCtr := ctr } := by
  unfold predict altCtr
  dsimp only
  rw [hits]

/-- The outcome changes the sign of the counter just when it moves it off zero or to it. -/
theorem movedUseAlt_sign (useAlt : Int) {provCtr altCtr : Int} (hweak : weak provCtr = true)
    (hne : decide (provCtr ≥ 0) ≠ decide (altCtr ≥ 0))
    (taken : Bool) :
    (movedUseAlt useAlt provCtr altCtr taken ≥ 0 ↔ useAlt ≥ 0) ↔
        useAlt ≠ if decide (altCtr ≥ 0) = taken then -1 else 0 := by
  unfold movedUseAlt
  rw [hweak, Bool.true_and, if_pos (bne_iff_ne.mpr hne)]
  by_cases htaken : decide (altCtr ≥ 0) = taken
  · rw [if_pos (beq_iff_eq.mpr htaken), if_pos htaken]
    omega
  · rw [if_neg (mt beq_iff_eq.mp htaken), if_neg htaken]
    omega

/-- **An update returns the prediction's metadata just when the outcome does not turn
the choice over.** -/
theorem update_meta_iff (h : t.SpecIsCommitted) (pc : U64) (taken : Bool) :
    (t.update pc taken).1 = t.predict pc ↔ ¬ t.Crosses pc taken := by
  cases hhits : t.tables.hits TageEntry.tag (t.geoBanks.specAll pc) with
  | nil =>
    refine iff_of_true (update_meta_none h hhits taken) ?_
    rintro ⟨bank, alts, hc, -⟩
    rw [hhits] at hc
    cases hc
  | cons bank alts =>
    have hcrosses : t.Crosses pc taken ↔ weak (t.tables.entry (t.geoBanks.specAll pc) bank).ctr = true ∧
        decide ((t.tables.entry (t.geoBanks.specAll pc) bank).ctr ≥ 0) ≠ decide (t.altCtr pc alts ≥ 0) ∧
        t.useAltOnNaCtr = if decide (t.altCtr pc alts ≥ 0) = taken then -1 else 0 := by
      constructor
      · rintro ⟨bank', alts', hc, hrest⟩
        obtain ⟨rfl, rfl⟩ := List.cons.inj (hhits.symm.trans hc)
        exact hrest
      · intro hrest
        exact ⟨bank, alts, hhits, hrest⟩
    rw [update_meta_some h hhits, predict_some hhits, hcrosses]
    dsimp only
    generalize (t.tables.entry (t.geoBanks.specAll pc) bank).ctr = provCtr
    generalize t.altCtr pc alts = altCtr
    by_cases hweak : weak provCtr = true
    · by_cases hsame : decide (provCtr ≥ 0) = decide (altCtr ≥ 0)
      · have hmoved : movedUseAlt t.useAltOnNaCtr provCtr altCtr taken = t.useAltOnNaCtr := by
          unfold movedUseAlt
          rw [if_neg]
          simp [hsame]
        rw [hmoved]
        exact iff_of_true rfl fun hc => hc.2.1 hsame
      · have hsign := movedUseAlt_sign t.useAltOnNaCtr hweak hsame taken
        have hcross : ¬ (weak provCtr = true ∧ decide (provCtr ≥ 0) ≠ decide (altCtr ≥ 0) ∧
            t.useAltOnNaCtr = if decide (altCtr ≥ 0) = taken then -1 else 0) ↔
            t.useAltOnNaCtr ≠ if decide (altCtr ≥ 0) = taken then -1 else 0 :=
          not_congr ((and_iff_right hweak).trans (and_iff_right hsame))
        rw [hcross, ← hsign]
        constructor
        · intro heq
          have htaken := congrArg TageScMeta.predTaken heq
          dsimp only at htaken
          by_contra hno
          -- one of the two takes the alternate's counter, the other the provider's
          by_cases hm : movedUseAlt t.useAltOnNaCtr provCtr altCtr taken ≥ 0
          · have hu : ¬ t.useAltOnNaCtr ≥ 0 := fun hu => hno (iff_of_true hm hu)
            rw [if_pos ⟨hweak, hm⟩, if_neg (fun hc => hu hc.2)] at htaken
            exact hsame htaken.symm
          · have hu : t.useAltOnNaCtr ≥ 0 := by
              by_contra hu
              exact hno (iff_of_false hm hu)
            rw [if_neg (fun hc => hm hc.2), if_pos ⟨hweak, hu⟩] at htaken
            exact hsame htaken
        · intro hiff
          simp only [hiff]
    · refine iff_of_true ?_ fun hc => hweak hc.1
      rw [if_neg (fun hc => hweak hc.1), if_neg (fun hc => hweak hc.1)]

/-! ### The counters -/

def EntryInRange (e : TageEntry) : Prop := -4 ≤ e.ctr ∧ e.ctr ≤ 3 ∧ e.u ≤ 3

structure InRange (t : TageCore) : Prop where
  base : ∀ b ∈ t.base, -2 ≤ b ∧ b ≤ 1
  entries : t.tables.All EntryInRange
  useAlt : -8 ≤ t.useAltOnNaCtr ∧ t.useAltOnNaCtr ≤ 7

theorem ofConfig_inRange {config : TageConfig} (h : ofConfig config = some t) : t.InRange := by
  obtain ⟨banks, -, rfl⟩ := Option.map_eq_some_iff.mp h
  refine ⟨fun b hb => ?_, fun l hl e he => ?_, by show -8 ≤ (0 : Int) ∧ (0 : Int) ≤ 7; decide⟩
  · obtain rfl := List.eq_of_mem_replicate hb
    decide
  · obtain rfl := List.eq_of_mem_replicate hl
    obtain rfl := List.eq_of_mem_replicate he
    unfold EntryInRange
    decide

theorem trainEntry_inRange {e : TageEntry} (h : EntryInRange e) (taken provMispred altWrong : Bool) :
    EntryInRange (trainEntry taken provMispred altWrong e) := by
  obtain ⟨hlo, hhi, hu⟩ := h
  unfold EntryInRange trainEntry
  refine ⟨?_, ?_, ?_⟩
  · dsimp only
    split_ifs <;> omega
  · dsimp only
    split_ifs <;> omega
  · dsimp only
    split_ifs with h1 h2
    · have hlt : e.u < 3 := of_decide_eq_true (Bool.and_eq_true_iff.mp h1).2
      omega
    · omega
    · exact hu

namespace InRange

theorem tickClock (h : t.InRange) : t.tickClock.InRange := by
  unfold TageCore.tickClock
  split
  · exact ⟨h.base, h.entries.map fun e he => ⟨he.1, he.2.1, (Nat.div_le_self _ _).trans he.2.2⟩, h.useAlt⟩
  · exact ⟨h.base, h.entries, h.useAlt⟩

theorem trained (h : t.InRange) (provider : Option Nat) (ps : Places) (taken m a : Bool) : Tables.All EntryInRange
    (match provider with
    | some bank => t.tables.modifyEntry ps bank (trainEntry taken m a)
    | none => t.tables) := by
  cases provider with
  | none => exact h.entries
  | some bank => exact h.entries.modifyEntry ps bank fun e he => trainEntry_inRange he taken m a

theorem update (h : t.InRange) (pc : U64) (taken : Bool) : (t.update pc taken).2.InRange := by
  have hc := h.tickClock
  unfold TageCore.update
  dsimp only
  generalize t.tickClock = t at hc
  refine ⟨?_, ?_, ?_⟩
  · dsimp only
    split
    · exact hc.base
    · refine Tables.all_modify hc.base (fun b hb => ?_) _
      unfold trainBase
      split_ifs <;> omega
  · have hchosen : ∀ (c : Prop) [Decidable c] (ts us : Tables TageEntry), ts.All EntryInRange → us.All EntryInRange →
        Tables.All EntryInRange (if c then ts else us) := by
      intro c _ ts us hts hus
      split
      · exact hts
      · exact hus
    refine hchosen _ _ _ ((hc.trained _ _ _ _ _).allocate (fun tag => ?_) (fun e he => ?_) _ _) (hc.trained _ _ _ _ _)
    · unfold EntryInRange
      cases taken with
      | true => simp
      | false => simp
    · exact ⟨he.1, he.2.1, (Nat.sub_le _ _).trans he.2.2⟩
  · have hu := hc.useAlt
    dsimp only
    split_ifs
    all_goals omega

/-- **Every operation keeps the counters in their ranges.** -/
theorem step (h : t.InRange) (op : TageOp) : (t.step op).InRange := by
  cases op with
  | update pc taken => exact h.update pc taken
  | speculate taken ghr => exact ⟨h.base, h.entries, h.useAlt⟩
  | commitAdvance taken ghr => exact ⟨h.base, h.entries, h.useAlt⟩
  | repair ghr => exact ⟨h.base, h.entries, h.useAlt⟩
  | repairToCommittedCsrs => exact ⟨h.base, h.entries, h.useAlt⟩

theorem run (h : t.InRange) (ops : List TageOp) : (t.run ops).InRange := by
  induction ops generalizing t with
  | nil => exact h
  | cons op ops ih => exact ih (h.step op)

end InRange

/-- **In every state reached the counters are in their ranges, and an update returns
what was predicted, just when its outcome does not turn the choice between the provider
and the alternate over.** -/
theorem trains_on_prediction_iff {config : TageConfig} {t : TageCore} (h : ofConfig config = some t) (ops : List TageOp)
    (hspec : (t.run ops).SpecIsCommitted) (pc : U64) (taken : Bool) :
    ((t.run ops).updateResult pc taken = ⟨(t.run ops).predict pc, ((t.run ops).predict pc).predTaken⟩ ∧
        ((t.run ops).step (.update pc taken)).InRange) ↔ ¬ (t.run ops).Crosses pc taken := by
  have hrange := ((ofConfig_inRange h).run ops).step (.update pc taken)
  rw [and_iff_left hrange, ← update_meta_iff hspec pc taken]
  unfold updateResult
  constructor
  · intro heq
    exact congrArg TageUpdateResult.scMeta heq
  · intro heq
    rw [heq]

/-- Two banks of four entries. -/
def twoBanks : TageConfig := ⟨⟨2, 4, [2, 4], [4, 4]⟩, 4, 1000⟩

/-- The branch at address 0 hits the empty entries; it was not taken once. -/
def notTakenOnce : List TageOp := [.update 0 false]

theorem twoBanks_isSome : (ofConfig twoBanks).isSome = true := by decide

theorem twoBanks_specIsCommitted : (((ofConfig twoBanks).get twoBanks_isSome).run notTakenOnce).SpecIsCommitted := by
  unfold SpecIsCommitted
  decide

/-- Now it is taken: the update says what was predicted, and nothing crosses. -/
theorem trains_on_prediction_twoBanks : ∃ t, ofConfig twoBanks = some t ∧
    ((t.run notTakenOnce).updateResult 0 true =
        ⟨(t.run notTakenOnce).predict 0, ((t.run notTakenOnce).predict 0).predTaken⟩ ∧
      ((t.run notTakenOnce).step (.update 0 true)).InRange) ∧ ¬ (t.run notTakenOnce).Crosses 0 true := by
  have hconfig := (Option.some_get twoBanks_isSome).symm
  have hresult : (((ofConfig twoBanks).get twoBanks_isSome).run notTakenOnce).updateResult 0 true =
      ⟨(((ofConfig twoBanks).get twoBanks_isSome).run notTakenOnce).predict 0,
        ((((ofConfig twoBanks).get twoBanks_isSome).run notTakenOnce).predict 0).predTaken⟩ := by decide
  have hright := And.intro hresult (((ofConfig_inRange hconfig).run notTakenOnce).step (.update 0 true))
  exact ⟨_, hconfig, hright, (trains_on_prediction_iff hconfig notTakenOnce twoBanks_specIsCommitted 0 true).mp hright⟩

/-- It is not taken again: predicted taken by the alternate, and the update says not
taken, by the provider. -/
theorem trains_on_other : ∃ t, ofConfig twoBanks = some t ∧ (t.run notTakenOnce).SpecIsCommitted ∧
    (t.run notTakenOnce).updateResult 0 false ≠
        ⟨(t.run notTakenOnce).predict 0, ((t.run notTakenOnce).predict 0).predTaken⟩ := by
  refine ⟨_, (Option.some_get twoBanks_isSome).symm, twoBanks_specIsCommitted, ?_⟩
  decide

end TageCore

end Rvsim
