/-
# The stride and the stream prefetcher

`prefetch/stride.rs` and `prefetch/stream.rs`. Both take the difference of two
addresses as one of signed words, with the checked operator; the stride prefetcher
goes on to multiply and add, the stream prefetcher to multiply. What they ask for
is right whenever nothing overflows, so only that is in question.

Key definitions:
  - `StridePrefetcher.observe`, `StridePrefetcher.Right`, `StridePrefetcher.Fits`
  - `StreamPrefetcher.observe`, `StreamPrefetcher.Right`, `StreamPrefetcher.Fits`
Key theorems:
  - `StridePrefetcher.Inv.right_iff_fits`, `StreamPrefetcher.Inv.right_iff_fits`
  - `prefetchers_right_iff`, `prefetchers_overflow`
-/
import Mathlib.Data.Int.ModEq
import Rvsim.Common
import Rvsim.Lib.Masks
import Rvsim.Lib.Runs
import Rvsim.Lib.Signed

namespace Rvsim

open Checked

/-! ### Addresses as numbers -/

/-- The number of a word of 64 bits. -/
def word (x : Int) : Nat := (x % 2 ^ 64).toNat

def alignDown (line n : Nat) : Nat := n / line * line

theorem word_congr {x y : Int} (h : x ≡ y [ZMOD 2 ^ 64]) : word x = word y := congrArg Int.toNat h

theorem toNat_ofInt_word (x : Int) : (BitVec.ofInt 64 x).toNat = word x := by
  rw [BitVec.toNat_ofInt]
  rfl

theorem toInt_modEq (x : U64) : x.toInt ≡ x.toNat [ZMOD 2 ^ 64] := by
  rw [BitVec.toInt_eq_toNat_bmod]
  exact Int.bmod_emod

theorem toInt_ofNat_modEq (k : Nat) : (BitVec.ofNat 64 k).toInt ≡ k [ZMOD 2 ^ 64] := by
  refine (toInt_modEq _).trans ?_
  rw [BitVec.toNat_ofNat]
  exact_mod_cast Nat.mod_modEq k (2 ^ 64)

theorem toInt_ofNat_of_lt {k : Nat} (h : k < 2 ^ 63) : (BitVec.ofNat 64 k).toInt = k := by
  rw [BitVec.toInt_eq_toNat_bmod, BitVec.toNat_ofNat, Nat.mod_eq_of_lt (by omega)]
  refine Int.bmod_eq_of_le ?_ ?_
  all_goals omega

/-- A power of two that fits in a word. -/
def LineSize (line : U64) : Prop := ∃ n < 64, line = (1 : U64) <<< n

theorem toNat_shift {n : Nat} (hn : n < 64) : ((1 : U64) <<< n).toNat = 2 ^ n := by
  have hpow : 2 ^ n < 2 ^ 64 := Nat.pow_lt_pow_right (by decide) hn
  rw [BitVec.toNat_shiftLeft, Nat.shiftLeft_eq]
  show 1 * 2 ^ n % 2 ^ 64 = 2 ^ n
  rw [Nat.one_mul, Nat.mod_eq_of_lt hpow]

theorem LineSize.toNat_align {line : U64} (h : LineSize line) (x : U64) :
    (x &&& ~~~(line - 1)).toNat = alignDown line.toNat x.toNat := by
  obtain ⟨n, hn, rfl⟩ := h
  rw [Masks.toNat_high hn, toNat_shift hn, alignDown]

theorem LineSize.toNat_pos {line : U64} (h : LineSize line) : 0 < line.toNat ∧ line.toNat ∣ 2 ^ 64 := by
  obtain ⟨n, hn, rfl⟩ := h
  rw [toNat_shift hn]
  exact ⟨Nat.two_pow_pos n, Nat.pow_dvd_pow 2 (Nat.le_of_lt hn)⟩

/-- Only the largest of them is negative when taken as signed. -/
theorem LineSize.toInt_eq {line : U64} (h : LineSize line) (hneg : line.toInt ≠ -2 ^ 63) :
    line.toInt = line.toNat ∧ line.toNat < 2 ^ 63 := by
  obtain ⟨n, hn, rfl⟩ := h
  have hnat := toNat_shift hn
  rw [BitVec.toInt_eq_toNat_cond, hnat] at hneg ⊢
  by_cases h63 : n = 63
  · subst h63
    exact absurd (by decide) hneg
  · have hpow : 2 ^ n ≤ 2 ^ 62 := Nat.pow_le_pow_right (by decide) (by omega)
    rw [if_pos (by omega)]
    exact ⟨rfl, by omega⟩

theorem word_dvd {line : Nat} (hline : line ∣ 2 ^ 64) {x : Int} (hx : (line : Int) ∣ x) : line ∣ word x := by
  have hnonneg : 0 ≤ x % 2 ^ 64 := Int.emod_nonneg x (by decide)
  have hpow : (line : Int) ∣ 2 ^ 64 := by exact_mod_cast hline
  have hdvd : (line : Int) ∣ x % 2 ^ 64 := by
    rw [Int.emod_def]
    exact dvd_sub hx (hpow.mul_right _)
  rw [← Int.toNat_of_nonneg hnonneg] at hdvd
  exact Int.natCast_dvd_natCast.mp hdvd

/-! ### Strides -/

structure StreamEntry where
  lastAddr : U64 := 0
  /-- Signed. -/
  stride : U64 := 0
  confidence : U8 := 0
  deriving DecidableEq, Repr

structure StridePrefetcher where
  table : List StreamEntry
  lineBytes : U64
  tableMask : U64
  degree : U64
  deriving DecidableEq, Repr

namespace StridePrefetcher

def new (lineBytes tableSize degree : U64) : StridePrefetcher :=
  let safeSize := if tableSize > 0 ∧ tableSize.toNat.isPowerOfTwo then tableSize else 64
  { table := List.replicate safeSize.toNat {}
    lineBytes := lineBytes
    tableMask := safeSize - 1
    degree := if degree = 0 then 1 else degree }

def idx (p : StridePrefetcher) (addr : U64) : Nat := ((addr >>> 6) &&& p.tableMask).toNat

/-- A round of the loop. -/
def target (p : StridePrefetcher) (addr stride : U64) (k : Nat) : Checked U64 := do
  let lookahead ← mulSigned stride (BitVec.ofNat 64 k)
  let target ← addSigned addr lookahead
  .ok (target &&& ~~~(p.lineBytes - 1))

/-- What is asked for, and the entry. -/
def observeEntry (p : StridePrefetcher) (addr : U64) (entry : StreamEntry) : Checked (List U64 × StreamEntry) := do
  let currentStride ← subSigned addr entry.lastAddr
  if currentStride = entry.stride then
    if entry.confidence < 3 then .ok ([], { entry with confidence := entry.confidence + 1, lastAddr := addr })
    else
      let prefetches ← (List.range' 1 p.degree.toNat).mapM (p.target addr entry.stride)
      .ok (prefetches, { entry with lastAddr := addr })
  else if entry.confidence > 0 then .ok ([], { entry with confidence := entry.confidence - 1, lastAddr := addr })
  else .ok ([], { entry with stride := currentStride, lastAddr := addr })

def observe (p : StridePrefetcher) (addr : U64) (_hit : Bool) : Checked (List U64 × StridePrefetcher) :=
  match p.table[p.idx addr]? with
  | none => .error .outOfRange
  | some entry => do
    let (prefetches, entry) ← p.observeEntry addr entry
    .ok (prefetches, { p with table := p.table.set (p.idx addr) entry })

/-- A step that stops leaves nothing to go on with. -/
def step (p : StridePrefetcher) (access : U64 × Bool) : StridePrefetcher :=
  match p.observe access.1 access.2 with
  | .ok (_, p') => p'
  | .error _ => p

def entry (p : StridePrefetcher) (addr : U64) : StreamEntry := p.table.getD (p.idx addr) {}

/-- **Nothing overflows, and the `k`-th candidate is the line of the address `k` strides ahead.** -/
def Right (p : StridePrefetcher) (access : U64 × Bool) : Prop :=
  ∃ prefetches p', p.observe access.1 access.2 = .ok (prefetches, p') ∧
    ∀ (i : Nat) (v : U64), prefetches[i]? = some v → p.lineBytes.toNat ∣ v.toNat ∧
      v.toNat = alignDown p.lineBytes.toNat (word (access.1.toNat + (i + 1) * (p.entry access.1).stride.toInt))

/-- The strides ahead of an address stay in the signed range: the last of them does,
or there are none to take. A degree from `2^63` on comes round to the negative numbers. -/
def Reach (addr stride : Int) (degree : Nat) : Prop :=
  stride = 0 ∨ (degree < 2 ^ 63 ∧ InRange 64 (stride * degree) ∧ InRange 64 (addr + stride * degree)) ∨
    (2 ^ 63 ≤ degree ∧ stride = 1 ∧ addr = 0)

/-- The difference to the last address of the entry fits, and if it is the stride of
an entry with full confidence, so do the strides ahead. -/
def Fits (p : StridePrefetcher) (access : U64 × Bool) : Prop :=
  InRange 64 (access.1.toInt - (p.entry access.1).lastAddr.toInt) ∧
    (3 ≤ (p.entry access.1).confidence.toNat →
      access.1.toInt - (p.entry access.1).lastAddr.toInt = (p.entry access.1).stride.toInt →
        Reach access.1.toInt (p.entry access.1).stride.toInt p.degree.toNat)

structure Inv (p : StridePrefetcher) : Prop where
  line : LineSize p.lineBytes
  index : p.tableMask.toNat < p.table.length
  degree : p.degree ≠ 0

theorem new_inv {lineBytes : U64} (h : LineSize lineBytes) (tableSize degree : U64) :
    (new lineBytes tableSize degree).Inv := by
  have hsize : ∀ size : U64, size > 0 → (size - 1).toNat < (List.replicate size.toNat ({} : StreamEntry)).length := by
    intro size hpos
    have hpos' : 0 < size.toNat := hpos
    have hone : (1 : U64) ≤ size := BitVec.le_def.mpr hpos'
    rw [List.length_replicate, BitVec.toNat_sub_of_le hone]
    exact Nat.sub_lt hpos' Nat.one_pos
  refine ⟨h, ?_, ?_⟩
  · unfold new
    dsimp only
    split
    · next hs => exact hsize _ hs.1
    · exact hsize 64 (by decide)
  · unfold new
    dsimp only
    split
    · decide
    · next hd => exact hd

variable {p : StridePrefetcher} {addr stride : U64}

theorem target_eq_ok {k : Nat} {v : U64} :
    p.target addr stride k = .ok v ↔
      (InRange 64 (stride.toInt * (BitVec.ofNat 64 k).toInt) ∧
          InRange 64 (addr.toInt + stride.toInt * (BitVec.ofNat 64 k).toInt)) ∧
        v = BitVec.ofInt 64 (addr.toInt + stride.toInt * (BitVec.ofNat 64 k).toInt) &&& ~~~(p.lineBytes - 1) := by
  unfold target mulSigned addSigned
  rw [bind_eq_ok]
  constructor
  · rintro ⟨lookahead, hmul, h⟩
    obtain ⟨t, hadd, h⟩ := bind_eq_ok.mp h
    obtain ⟨hk, rfl⟩ := ofSigned_eq_ok.mp hmul
    obtain ⟨hsum, rfl⟩ := ofSigned_eq_ok.mp hadd
    cases h
    rw [toInt_ofInt (by decide) hk] at hsum ⊢
    exact ⟨⟨hk, hsum⟩, rfl⟩
  · rintro ⟨⟨hk, hsum⟩, rfl⟩
    refine ⟨_, ofSigned_ok hk, ?_⟩
    rw [toInt_ofInt (by decide) hk, ofSigned_ok hsum]
    rfl

/-- The line `k` strides ahead. -/
theorem target_right (hline : LineSize p.lineBytes) {k : Nat} {v : U64} (h : p.target addr stride k = .ok v) :
    p.lineBytes.toNat ∣ v.toNat ∧ v.toNat = alignDown p.lineBytes.toNat (word (addr.toNat + k * stride.toInt)) := by
  obtain ⟨-, rfl⟩ := target_eq_ok.mp h
  have hmod : addr.toInt + stride.toInt * (BitVec.ofNat 64 k).toInt ≡ addr.toNat + k * stride.toInt [ZMOD 2 ^ 64] := by
    rw [mul_comm (k : Int)]
    exact (toInt_modEq addr).add ((toInt_ofNat_modEq k).mul_left _)
  rw [hline.toNat_align, toNat_ofInt_word, word_congr hmod]
  exact ⟨Nat.dvd_mul_left _ _, rfl⟩

/-- All rounds fit just when the last one does. -/
theorem reach_iff (addr stride : U64) {degree : Nat} (hpos : 0 < degree) (hlt : degree < 2 ^ 64) :
    (∀ k, 1 ≤ k → k ≤ degree → InRange 64 (stride.toInt * (BitVec.ofNat 64 k).toInt) ∧
      InRange 64 (addr.toInt + stride.toInt * (BitVec.ofNat 64 k).toInt)) ↔ Reach addr.toInt stride.toInt degree := by
  have ha := inRange_toInt addr
  constructor
  · intro hall
    by_cases hd : degree < 2 ^ 63
    · have hlast := hall degree hpos (Nat.le_refl _)
      rw [toInt_ofNat_of_lt hd] at hlast
      exact .inr (.inl ⟨hd, hlast⟩)
    · -- the largest number and the smallest one are both among the rounds
      have hmax := hall (2 ^ 63 - 1) (by decide) (by omega)
      have hmin := hall (2 ^ 63) (by decide) (by omega)
      rw [toInt_ofNat_of_lt (by decide)] at hmax
      have hneg : (BitVec.ofNat 64 (2 ^ 63)).toInt = -2 ^ 63 := by decide
      rw [hneg] at hmin
      unfold InRange at hmax hmin
      by_cases h0 : stride.toInt = 0
      · exact .inl h0
      · exact .inr (.inr ⟨by omega, by omega, by omega⟩)
  · rintro (h0 | ⟨hd, hs, hsum⟩ | ⟨-, hs, ha0⟩) k hk hkd
    · rw [h0, zero_mul, add_zero]
      exact ⟨inRange_zero 64, ha⟩
    · rw [toInt_ofNat_of_lt (by omega)]
      exact inRange_scale ha hs hsum hkd
    · rw [hs, ha0, one_mul, zero_add]
      exact ⟨inRange_toInt _, inRange_toInt _⟩

/-- The loop goes through. -/
theorem targets_ok_iff (p : StridePrefetcher) (addr stride : U64) (hd : p.degree ≠ 0) :
    (∃ prefetches, (List.range' 1 p.degree.toNat).mapM (p.target addr stride) = .ok prefetches) ↔
      Reach addr.toInt stride.toInt p.degree.toNat := by
  have hpos : 0 < p.degree.toNat := Nat.pos_of_ne_zero fun h => hd (BitVec.eq_of_toNat_eq h)
  rw [← reach_iff addr stride hpos p.degree.isLt, mapM_ok_iff]
  constructor
  · intro hall k hk hkd
    obtain ⟨v, hv⟩ := hall k (by rw [List.mem_range'_1]; omega)
    exact (target_eq_ok.mp hv).1
  · intro hall k hk
    rw [List.mem_range'_1] at hk
    exact ⟨_, target_eq_ok.mpr ⟨hall k hk.1 (by omega), rfl⟩⟩

/-- What an entry is asked for. -/
theorem observeEntry_ok_iff (p : StridePrefetcher) (addr : U64) (e : StreamEntry) (hd : p.degree ≠ 0) :
    (∃ r, p.observeEntry addr e = .ok r) ↔
      InRange 64 (addr.toInt - e.lastAddr.toInt) ∧
        (3 ≤ e.confidence.toNat → addr.toInt - e.lastAddr.toInt = e.stride.toInt →
            Reach addr.toInt e.stride.toInt p.degree.toNat) := by
  unfold observeEntry subSigned ofSigned
  by_cases hin : InRange 64 (addr.toInt - e.lastAddr.toInt)
  · have hstride : BitVec.ofInt 64 (addr.toInt - e.lastAddr.toInt) = e.stride ↔
      addr.toInt - e.lastAddr.toInt = e.stride.toInt := by
      rw [← BitVec.toInt_inj, toInt_ofInt (by decide) hin]
    have hconf : e.confidence < 3 ↔ e.confidence.toNat < 3 := Iff.rfl
    rw [if_pos hin, ok_bind, and_iff_right hin]
    by_cases hsame : addr.toInt - e.lastAddr.toInt = e.stride.toInt
    · rw [if_pos (hstride.mpr hsame)]
      by_cases hc : e.confidence.toNat < 3
      · rw [if_pos (hconf.mpr hc)]
        exact iff_of_true ⟨_, rfl⟩ fun h => absurd hc (Nat.not_lt.mpr h)
      · rw [if_neg (mt hconf.mp hc)]
        have hloop := targets_ok_iff p addr e.stride hd
        constructor
        · rintro ⟨r, hr⟩ - -
          obtain ⟨prefetches, hp, -⟩ := bind_eq_ok.mp hr
          exact hloop.mp ⟨prefetches, hp⟩
        · intro h
          obtain ⟨prefetches, hp⟩ := hloop.mpr (h (Nat.le_of_not_lt hc) hsame)
          exact ⟨_, bind_eq_ok.mpr ⟨prefetches, hp, rfl⟩⟩
    · rw [if_neg (mt hstride.mp hsame)]
      refine iff_of_true ?_ fun _ h => absurd h hsame
      split
      · exact ⟨_, rfl⟩
      · exact ⟨_, rfl⟩
  · rw [if_neg hin]
    refine iff_of_false ?_ fun h => hin h.1
    rintro ⟨r, hr⟩
    cases hr

/-- What is asked for is the loop's. -/
theorem observeEntry_targets {e e' : StreamEntry} {prefetches : List U64}
    (h : p.observeEntry addr e = .ok (prefetches, e')) :
    prefetches = [] ∨ (List.range' 1 p.degree.toNat).mapM (p.target addr e.stride) = .ok prefetches := by
  unfold observeEntry at h
  obtain ⟨currentStride, -, h⟩ := bind_eq_ok.mp h
  split at h
  · split at h
    · cases h
      exact .inl rfl
    · obtain ⟨ps, hps, h⟩ := bind_eq_ok.mp h
      cases h
      exact .inr hps
  · split at h
    · cases h
      exact .inl rfl
    · cases h
      exact .inl rfl

namespace Inv

theorem idx_lt (h : p.Inv) (addr : U64) : p.idx addr < p.table.length := by
  unfold idx
  rw [BitVec.toNat_and]
  exact Nat.lt_of_le_of_lt Nat.and_le_right h.index

theorem getElem?_idx (h : p.Inv) (addr : U64) : p.table[p.idx addr]? = some (p.entry addr) := by
  unfold entry
  rw [List.getD_eq_getElem?_getD, List.getElem?_eq_getElem (h.idx_lt addr)]
  rfl

theorem step (h : p.Inv) (access : U64 × Bool) : (p.step access).Inv := by
  unfold StridePrefetcher.step observe
  rw [h.getElem?_idx]
  dsimp only
  cases hr : p.observeEntry access.1 (p.entry access.1) with
  | error e => exact h
  | ok r =>
    show Inv { p with table := p.table.set (p.idx access.1) r.2 }
    refine ⟨h.line, ?_, h.degree⟩
    rw [List.length_set]
    exact h.index

/-- **A step is right just when it fits.** -/
theorem right_iff_fits (h : p.Inv) (access : U64 × Bool) : p.Right access ↔ p.Fits access := by
  have hok := observeEntry_ok_iff p access.1 (p.entry access.1) h.degree
  unfold Right Fits observe
  rw [← hok, h.getElem?_idx]
  dsimp only
  constructor
  · rintro ⟨prefetches, p', hobs, -⟩
    obtain ⟨r, hr, -⟩ := bind_eq_ok.mp hobs
    exact ⟨r, hr⟩
  · rintro ⟨⟨prefetches, e⟩, hr⟩
    refine ⟨prefetches, _, bind_eq_ok.mpr ⟨_, hr, rfl⟩, fun i v hv => ?_⟩
    rcases observeEntry_targets hr with rfl | hloop
    · cases hv
    · have hright := target_right h.line (mapM_range' hloop hv).2
      rw [Nat.cast_add, Nat.cast_one] at hright
      exact hright

end Inv

end StridePrefetcher

/-! ### Streams -/

inductive Direction where
  | none
  | ascending
  | descending
  deriving DecidableEq, Repr

def Direction.sign : Direction → Int
  | .none => 0
  | .ascending => 1
  | .descending => -1

structure StreamPrefetcher where
  lineBytes : U64
  degree : U64
  lastAddr : U64 := 0
  direction : Direction := .none
  confidence : U8 := 0
  deriving DecidableEq, Repr

namespace StreamPrefetcher

def new (lineBytes degree : U64) : StreamPrefetcher :=
  { lineBytes := lineBytes, degree := if degree = 0 then 1 else degree }

/-- Which way an access goes on from the last one. -/
def currentDir (p : StreamPrefetcher) (diff : U64) : Checked Direction :=
  if diff = p.lineBytes then .ok .ascending
  else do
    let back ← negSigned p.lineBytes
    if diff = back then .ok .descending else .ok .none

/-- The direction and the confidence after an access. -/
def follow (p : StreamPrefetcher) (currentDir : Direction) : StreamPrefetcher :=
  if currentDir ≠ .none then
    if currentDir = p.direction then if p.confidence < 3 then { p with confidence := p.confidence + 1 } else p
    else { p with direction := currentDir, confidence := 1 }
  else if p.confidence > 0 then { p with confidence := p.confidence - 1 }
  else { p with direction := .none }

def offset (p : StreamPrefetcher) (k : Nat) : Checked U64 :=
  if p.direction = .ascending then mul (BitVec.ofNat 64 k) p.lineBytes
  else do
    let back ← negSigned p.lineBytes
    mulSigned (BitVec.ofNat 64 k) back

/-- A round of the loop. -/
def target (p : StreamPrefetcher) (addr : U64) (k : Nat) : Checked U64 := do
  let offset ← p.offset k
  .ok ((addr &&& ~~~(p.lineBytes - 1)) + offset)

def observe (p : StreamPrefetcher) (addr : U64) (_hit : Bool) : Checked (List U64 × StreamPrefetcher) := do
  let diff ← subSigned addr p.lastAddr
  let currentDir ← p.currentDir diff
  let p := p.follow currentDir
  if p.confidence ≥ 2 then
    let prefetches ← (List.range' 1 p.degree.toNat).mapM (p.target addr)
    .ok (prefetches, { p with lastAddr := addr })
  else .ok ([], { p with lastAddr := addr })

def step (p : StreamPrefetcher) (access : U64 × Bool) : StreamPrefetcher :=
  match p.observe access.1 access.2 with
  | .ok (_, p') => p'
  | .error _ => p

/-- **Nothing overflows, and the `k`-th candidate is the `k`-th next line in the direction detected.** -/
def Right (p : StreamPrefetcher) (access : U64 × Bool) : Prop :=
  ∃ prefetches p', p.observe access.1 access.2 = .ok (prefetches, p') ∧
    ∀ (i : Nat) (v : U64), prefetches[i]? = some v → p'.direction ≠ .none ∧ p.lineBytes.toNat ∣ v.toNat ∧
      v.toNat = word (alignDown p.lineBytes.toNat access.1.toNat + p'.direction.sign * (i + 1) * p.lineBytes.toNat)

/-- The access goes on in the direction of the stream with some confidence, or off
it with full confidence. -/
def Leads (p : StreamPrefetcher) (d : Int) : Prop :=
  (1 ≤ p.confidence.toNat ∧ (d = p.lineBytes.toInt ∧ p.direction = .ascending ∨
      d ≠ p.lineBytes.toInt ∧ d = -p.lineBytes.toInt ∧ p.direction = .descending)) ∨
    (3 ≤ p.confidence.toNat ∧ d ≠ p.lineBytes.toInt ∧ d ≠ -p.lineBytes.toInt)

/-- So many lines on are still a number of the offset's type. -/
def Reach (p : StreamPrefetcher) : Prop :=
  if p.direction = .ascending then p.degree.toNat * p.lineBytes.toNat < 2 ^ 64
  else p.degree.toNat < 2 ^ 63 ∧ p.degree.toNat * p.lineBytes.toNat ≤ 2 ^ 63

/-- The difference to the last address fits, a line is less than half of the addresses
unless it is the difference, and a stream that leads on has its lines in reach. -/
def Fits (p : StreamPrefetcher) (access : U64 × Bool) : Prop :=
  InRange 64 (access.1.toInt - p.lastAddr.toInt) ∧
    (p.lineBytes.toInt ≠ -2 ^ 63 ∨ access.1.toInt - p.lastAddr.toInt = p.lineBytes.toInt) ∧
    (p.Leads (access.1.toInt - p.lastAddr.toInt) → p.Reach)

structure Inv (p : StreamPrefetcher) : Prop where
  line : LineSize p.lineBytes
  degree : p.degree ≠ 0
  /-- A stream that is trusted has a direction. -/
  trusted : p.confidence ≠ 0 → p.direction ≠ .none

theorem new_inv {lineBytes : U64} (h : LineSize lineBytes) (degree : U64) : (new lineBytes degree).Inv := by
  refine ⟨h, ?_, fun hc => absurd rfl hc⟩
  unfold new
  dsimp only
  split
  · decide
  · next hd => exact hd

variable {p : StreamPrefetcher} {addr : U64}

/-- The direction by the numbers. -/
def dirOf (p : StreamPrefetcher) (d : Int) : Direction :=
  if d = p.lineBytes.toInt then .ascending else if d = -p.lineBytes.toInt then .descending else .none

theorem currentDir_eq_ok {d : Int} (hd : InRange 64 d) {dir : Direction} :
    p.currentDir (BitVec.ofInt 64 d) = .ok dir ↔ (p.lineBytes.toInt ≠ -2 ^ 63 ∨ d = p.lineBytes.toInt) ∧
        dir = p.dirOf d := by
  have heq : ∀ x : U64, BitVec.ofInt 64 d = x ↔ d = x.toInt := fun x => by
    rw [← BitVec.toInt_inj, toInt_ofInt (by decide) hd]
  have hback : InRange 64 (-p.lineBytes.toInt) ↔ p.lineBytes.toInt ≠ -2 ^ 63 := by
    have hl := inRange_toInt p.lineBytes
    unfold InRange at hl ⊢
    omega
  unfold currentDir dirOf
  by_cases hup : d = p.lineBytes.toInt
  · rw [if_pos ((heq _).mpr hup), if_pos hup, and_iff_right (.inr hup)]
    exact ⟨fun h => by cases h; rfl, fun h => h ▸ rfl⟩
  · rw [if_neg (mt (heq _).mp hup), if_neg hup, bind_eq_ok, or_iff_left hup, ← hback]
    unfold negSigned
    have hdown : InRange 64 (-p.lineBytes.toInt) →
        (BitVec.ofInt 64 d = BitVec.ofInt 64 (-p.lineBytes.toInt) ↔ d = -p.lineBytes.toInt) := by
      intro hin
      rw [heq, toInt_ofInt (by decide) hin]
    constructor
    · rintro ⟨back, hneg, h⟩
      obtain ⟨hin, rfl⟩ := ofSigned_eq_ok.mp hneg
      refine ⟨hin, ?_⟩
      by_cases hd' : d = -p.lineBytes.toInt
      · rw [if_pos ((hdown hin).mpr hd')] at h
        cases h
        rw [if_pos hd']
      · rw [if_neg (mt (hdown hin).mp hd')] at h
        cases h
        rw [if_neg hd']
    · rintro ⟨hin, rfl⟩
      refine ⟨_, ofSigned_ok hin, ?_⟩
      by_cases hd' : d = -p.lineBytes.toInt
      · rw [if_pos ((hdown hin).mpr hd'), if_pos hd']
      · rw [if_neg (mt (hdown hin).mp hd'), if_neg hd']

theorem follow_fields (p : StreamPrefetcher) (dir : Direction) :
    (p.follow dir).lineBytes = p.lineBytes ∧ (p.follow dir).degree = p.degree := by
  unfold follow
  split_ifs
  all_goals exact ⟨rfl, rfl⟩

/-- The confidence after an access, as a number. -/
theorem follow_confidence (p : StreamPrefetcher) (dir : Direction) :
    (p.follow dir).confidence.toNat =
      if dir = .none then p.confidence.toNat - 1
      else if dir = p.direction then if p.confidence.toNat < 3 then p.confidence.toNat + 1 else p.confidence.toNat
      else 1 := by
  have hlt : p.confidence < 3 ↔ p.confidence.toNat < 3 := Iff.rfl
  have hpos : p.confidence > 0 ↔ 0 < p.confidence.toNat := Iff.rfl
  unfold follow
  by_cases hnone : dir = .none
  · rw [if_neg (not_not.mpr hnone), if_pos hnone]
    by_cases hc : 0 < p.confidence.toNat
    · have hone : (1 : U8) ≤ p.confidence := BitVec.le_def.mpr hc
      rw [if_pos (hpos.mpr hc)]
      exact BitVec.toNat_sub_of_le hone
    · rw [if_neg (mt hpos.mp hc)]
      exact (by omega : p.confidence.toNat = p.confidence.toNat - 1)
  · rw [if_pos hnone, if_neg hnone]
    by_cases hsame : dir = p.direction
    · rw [if_pos hsame, if_pos hsame]
      by_cases hc : p.confidence.toNat < 3
      · rw [if_pos (hlt.mpr hc), if_pos hc]
        show (p.confidence + 1).toNat = _
        rw [BitVec.toNat_add]
        exact Nat.mod_eq_of_lt (by show p.confidence.toNat + 1 < 2 ^ 8; omega)
      · rw [if_neg (mt hlt.mp hc), if_neg hc]
    · rw [if_neg hsame, if_neg hsame]
      rfl

theorem follow_direction (p : StreamPrefetcher) (dir : Direction) :
    (p.follow dir).direction = if dir = .none then if 0 < p.confidence.toNat then p.direction else .none else dir := by
  have hpos : p.confidence > 0 ↔ 0 < p.confidence.toNat := Iff.rfl
  unfold follow
  by_cases hnone : dir = .none
  · rw [if_neg (not_not.mpr hnone), if_pos hnone]
    by_cases hc : 0 < p.confidence.toNat
    · rw [if_pos (hpos.mpr hc), if_pos hc]
    · rw [if_neg (mt hpos.mp hc), if_neg hc]
  · rw [if_pos hnone, if_neg hnone]
    by_cases hsame : dir = p.direction
    · rw [if_pos hsame]
      split
      · exact hsame.symm
      · exact hsame.symm
    · rw [if_neg hsame]

/-- A trusted stream leads on in its direction. -/
theorem leads_iff (p : StreamPrefetcher) (d : Int) : 2 ≤ (p.follow (p.dirOf d)).confidence.toNat ↔ p.Leads d := by
  have hcount : 2 ≤ (if p.confidence.toNat < 3 then p.confidence.toNat + 1 else p.confidence.toNat) ↔
      1 ≤ p.confidence.toNat := by
    split <;> omega
  rw [follow_confidence]
  constructor
  · intro h
    unfold dirOf at h
    by_cases hup : d = p.lineBytes.toInt
    · rw [if_pos hup, if_neg (by decide)] at h
      split at h
      · next hdir => exact .inl ⟨hcount.mp h, .inl ⟨hup, hdir.symm⟩⟩
      · omega
    · rw [if_neg hup] at h
      by_cases hdown : d = -p.lineBytes.toInt
      · rw [if_pos hdown, if_neg (by decide)] at h
        split at h
        · next hdir => exact .inl ⟨hcount.mp h, .inr ⟨hup, hdown, hdir.symm⟩⟩
        · omega
      · rw [if_neg hdown, if_pos rfl] at h
        exact .inr ⟨by omega, hup, hdown⟩
  · unfold dirOf
    rintro (⟨hconf, ⟨hup, hdir⟩ | ⟨hup, hdown, hdir⟩⟩ | ⟨hconf, hup, hdown⟩)
    · rw [if_pos hup, if_neg (by decide), if_pos hdir.symm]
      exact hcount.mpr hconf
    · rw [if_neg hup, if_pos hdown, if_neg (by decide), if_pos hdir.symm]
      exact hcount.mpr hconf
    · rw [if_neg hup, if_neg hdown, if_pos rfl]
      omega

/-- It is the direction from before the access. -/
theorem Leads.direction {d : Int} (h : p.Leads d) : (p.follow (p.dirOf d)).direction = p.direction := by
  rw [follow_direction]
  unfold dirOf
  rcases h with ⟨-, ⟨hup, hdir⟩ | ⟨hup, hdown, hdir⟩⟩ | ⟨hconf, hup, hdown⟩
  · rw [if_pos hup, hdir]
    rfl
  · rw [if_neg hup, if_pos hdown, hdir]
    rfl
  · have hpos : 0 < p.confidence.toNat := by omega
    rw [if_neg hup, if_neg hdown, if_pos rfl, if_pos hpos]

theorem Inv.follow (h : p.Inv) (dir : Direction) : (p.follow dir).Inv := by
  obtain ⟨hline, hdegree⟩ := follow_fields p dir
  refine ⟨hline ▸ h.line, hdegree ▸ h.degree, fun hc => ?_⟩
  have hpos : (p.follow dir).confidence.toNat ≠ 0 := fun h0 => hc (BitVec.eq_of_toNat_eq h0)
  rw [follow_confidence] at hpos
  rw [follow_direction]
  by_cases hnone : dir = .none
  · rw [if_pos hnone] at hpos ⊢
    have hold : p.confidence ≠ 0 := fun h0 => hpos (by rw [h0]; rfl)
    rw [if_pos (by omega)]
    exact h.trusted hold
  · rw [if_neg hnone]
    exact hnone

/-- The `k`-th offset: what it takes, and that it is `k` lines in the direction. -/
theorem offset_ok_iff (hline : LineSize p.lineBytes) (hneg : p.direction = .ascending ∨ p.lineBytes.toInt ≠ -2 ^ 63)
    (hdir : p.direction ≠ .none) {k : Nat} (hk : k < 2 ^ 64) :
    ((∃ v, p.offset k = .ok v) ↔
      if p.direction = .ascending then k * p.lineBytes.toNat < 2 ^ 64
      else InRange 64 ((BitVec.ofNat 64 k).toInt * -p.lineBytes.toNat)) ∧
    ∀ v, p.offset k = .ok v → (v.toNat : Int) ≡ p.direction.sign * k * p.lineBytes.toNat [ZMOD 2 ^ 64] := by
  have hknat : (BitVec.ofNat 64 k).toNat = k := by rw [BitVec.toNat_ofNat, Nat.mod_eq_of_lt hk]
  unfold offset
  by_cases hup : p.direction = .ascending
  · rw [if_pos hup, if_pos hup, hup]
    constructor
    · constructor
      · rintro ⟨v, hv⟩
        rw [← hknat]
        exact (mul_eq_ok.mp hv).1
      · intro h
        rw [← hknat] at h
        exact ⟨_, mul_eq_ok.mpr ⟨h, rfl⟩⟩
    · intro v hv
      obtain ⟨hlt, rfl⟩ := mul_eq_ok.mp hv
      rw [BitVec.toNat_mul, Nat.mod_eq_of_lt hlt, hknat, Direction.sign, one_mul, Nat.cast_mul]
  · have hdown : p.direction = .descending := by
      cases hd : p.direction with
      | none => exact absurd hd hdir
      | ascending => exact absurd hd hup
      | descending => rfl
    obtain ⟨hint, hlt⟩ := hline.toInt_eq (hneg.resolve_left hup)
    have hback : InRange 64 (-p.lineBytes.toInt) := by
      rw [hint]
      exact ⟨by omega, by omega⟩
    rw [if_neg hup, if_neg hup, hdown]
    unfold negSigned
    rw [ofSigned_ok hback, ok_bind]
    unfold mulSigned
    rw [toInt_ofInt (by decide) hback, hint]
    constructor
    · constructor
      · rintro ⟨v, hv⟩
        exact (ofSigned_eq_ok.mp hv).1
      · intro h
        exact ⟨_, ofSigned_ok h⟩
    · intro v hv
      obtain ⟨-, rfl⟩ := ofSigned_eq_ok.mp hv
      have hword : ((word ((BitVec.ofNat 64 k).toInt * -p.lineBytes.toNat) : Nat) : Int) =
          (BitVec.ofNat 64 k).toInt * -p.lineBytes.toNat % 2 ^ 64 :=
        Int.toNat_of_nonneg (Int.emod_nonneg _ (by decide))
      rw [toNat_ofInt_word, hword]
      refine (Int.mod_modEq _ _).trans ?_
      have hsign : Direction.sign .descending * (k : Int) * p.lineBytes.toNat = k * -p.lineBytes.toNat := by
        rw [Direction.sign, neg_one_mul, neg_mul, mul_neg]
      rw [hsign]
      exact (toInt_ofNat_modEq k).mul_right _

/-- All rounds fit just when the last one does. -/
theorem reach_iff (hline : LineSize p.lineBytes) (hpos : 0 < p.degree.toNat) :
    (∀ k, 1 ≤ k → k ≤ p.degree.toNat →
      if p.direction = .ascending then k * p.lineBytes.toNat < 2 ^ 64
      else InRange 64 ((BitVec.ofNat 64 k).toInt * -p.lineBytes.toNat)) ↔ p.Reach := by
  unfold Reach
  have hline0 := hline.toNat_pos.1
  by_cases hup : p.direction = .ascending
  · simp only [if_pos hup]
    constructor
    · intro hall
      exact hall _ hpos (Nat.le_refl _)
    · intro hlast k _ hk
      exact Nat.lt_of_le_of_lt (Nat.mul_le_mul_right _ hk) hlast
  · simp only [if_neg hup]
    constructor
    · intro hall
      have hd : p.degree.toNat < 2 ^ 63 := by
        by_contra hge
        have hmin := hall (2 ^ 63) (by decide) (by omega)
        have hneg : (BitVec.ofNat 64 (2 ^ 63)).toInt = -2 ^ 63 := by decide
        rw [hneg] at hmin
        unfold InRange at hmin
        omega
      have hlast := hall _ hpos (Nat.le_refl _)
      rw [toInt_ofNat_of_lt hd, mul_neg] at hlast
      have hlow : -2 ^ 63 ≤ -((p.degree.toNat : Int) * p.lineBytes.toNat) := hlast.1
      refine ⟨hd, ?_⟩
      exact_mod_cast neg_le_neg_iff.mp hlow
    · rintro ⟨hd, hlast⟩ k hk hkd
      have hle : k * p.lineBytes.toNat ≤ 2 ^ 63 := (Nat.mul_le_mul_right _ hkd).trans hlast
      have hkpos : 0 < k * p.lineBytes.toNat := Nat.mul_pos hk hline0
      rw [toInt_ofNat_of_lt (by omega), mul_neg, ← Nat.cast_mul]
      exact ⟨by omega, by omega⟩

/-- A candidate is the base line and its offset. -/
theorem target_right (h : p.Inv) (hneg : p.direction = .ascending ∨ p.lineBytes.toInt ≠ -2 ^ 63)
    (hdir : p.direction ≠ .none)
    {k : Nat} (hk : k < 2 ^ 64) {v : U64} (hv : p.target addr k = .ok v) :
    p.lineBytes.toNat ∣ v.toNat ∧
      v.toNat = word (alignDown p.lineBytes.toNat addr.toNat + p.direction.sign * k * p.lineBytes.toNat) := by
  obtain ⟨off, hoff, hv⟩ := bind_eq_ok.mp hv
  cases hv
  have hmod := (offset_ok_iff h.line hneg hdir hk).2 off hoff
  have hsum : ((addr &&& ~~~(p.lineBytes - 1)) + off).toNat =
      word (alignDown p.lineBytes.toNat addr.toNat + off.toNat) := by
    rw [BitVec.toNat_add, h.line.toNat_align]
    exact_mod_cast (Int.toNat_natCast _).symm
  have hcongr := word_congr (hmod.add_left (alignDown p.lineBytes.toNat addr.toNat : Int))
  rw [hsum, hcongr]
  refine ⟨word_dvd h.line.toNat_pos.2 (dvd_add ?_ (Dvd.intro_left _ rfl)), rfl⟩
  exact Int.natCast_dvd_natCast.mpr (Nat.dvd_mul_left _ _)

theorem targets_ok_iff (h : p.Inv) (addr : U64) (hneg : p.direction = .ascending ∨ p.lineBytes.toInt ≠ -2 ^ 63)
    (hdir : p.direction ≠ .none) :
    (∃ prefetches, (List.range' 1 p.degree.toNat).mapM (p.target addr) = .ok prefetches) ↔ p.Reach := by
  have hpos : 0 < p.degree.toNat := Nat.pos_of_ne_zero fun h0 => h.degree (BitVec.eq_of_toNat_eq h0)
  have hround : ∀ k, k < 2 ^ 64 → ((∃ v, p.target addr k = .ok v) ↔ ∃ v, p.offset k = .ok v) := by
    intro k _
    unfold target
    constructor
    · rintro ⟨v, hv⟩
      obtain ⟨off, hoff, -⟩ := bind_eq_ok.mp hv
      exact ⟨off, hoff⟩
    · rintro ⟨off, hoff⟩
      exact ⟨_, bind_eq_ok.mpr ⟨off, hoff, rfl⟩⟩
  rw [← reach_iff h.line hpos, mapM_ok_iff]
  have hdeg := p.degree.isLt
  constructor
  · intro hall k hk hkd
    have hk64 : k < 2 ^ 64 := by omega
    have hv := hall k (by rw [List.mem_range'_1]; omega)
    exact (offset_ok_iff h.line hneg hdir hk64).1.mp ((hround k hk64).mp hv)
  · intro hall k hk
    rw [List.mem_range'_1] at hk
    have hk64 : k < 2 ^ 64 := by omega
    exact (hround k hk64).mpr ((offset_ok_iff h.line hneg hdir hk64).1.mpr (hall k hk.1 (by omega)))

/-- The loop of an access, once the direction is known. -/
theorem observe_of_dir {hit : Bool} (hd : InRange 64 (addr.toInt - p.lastAddr.toInt))
    (hb : p.lineBytes.toInt ≠ -2 ^ 63 ∨ addr.toInt - p.lastAddr.toInt = p.lineBytes.toInt) {q : StreamPrefetcher}
    (hq : q = p.follow (p.dirOf (addr.toInt - p.lastAddr.toInt))) :
    p.observe addr hit =
      if q.confidence ≥ 2 then ((List.range' 1 q.degree.toNat).mapM (q.target addr)).map fun prefetches =>
          (prefetches, { q with lastAddr := addr })
      else .ok ([], { q with lastAddr := addr }) := by
  subst hq
  unfold observe subSigned
  rw [ofSigned_ok hd, ok_bind, (currentDir_eq_ok hd).mpr ⟨hb, rfl⟩, ok_bind]
  dsimp only
  split
  · cases (List.range' 1 (p.follow (p.dirOf (addr.toInt - p.lastAddr.toInt))).degree.toNat).mapM
      ((p.follow (p.dirOf (addr.toInt - p.lastAddr.toInt))).target addr) with
    | error e => rfl
    | ok prefetches => rfl
  · rfl

/-- An access that goes through has found its direction. -/
theorem dir_of_observe {hit : Bool} {r : List U64 × StreamPrefetcher} (h : p.observe addr hit = .ok r) :
    InRange 64 (addr.toInt - p.lastAddr.toInt) ∧
      (p.lineBytes.toInt ≠ -2 ^ 63 ∨ addr.toInt - p.lastAddr.toInt = p.lineBytes.toInt) := by
  obtain ⟨diff, hdiff, h⟩ := bind_eq_ok.mp h
  obtain ⟨hd, rfl⟩ := ofSigned_eq_ok.mp hdiff
  obtain ⟨dir, hdir, -⟩ := bind_eq_ok.mp h
  exact ⟨hd, ((currentDir_eq_ok hd).mp hdir).1⟩

namespace Inv

/-- Where a stream leads on downwards, its lines are less than half of the addresses. -/
theorem neg_of_leads {d : Int} (hl : p.Leads d) (hb : p.lineBytes.toInt ≠ -2 ^ 63 ∨ d = p.lineBytes.toInt) :
    p.direction = .ascending ∨ p.lineBytes.toInt ≠ -2 ^ 63 := by
  rcases hl with ⟨-, ⟨-, hdir⟩ | ⟨hup, -, -⟩⟩ | ⟨-, hup, -⟩
  · exact .inl hdir
  · exact .inr (hb.resolve_right hup)
  · exact .inr (hb.resolve_right hup)

/-- **A step is right just when it fits.** -/
theorem right_iff_fits (h : p.Inv) (access : U64 × Bool) : p.Right access ↔ p.Fits access := by
  obtain ⟨addr, hit⟩ := access
  have hq := h.follow (p.dirOf (addr.toInt - p.lastAddr.toInt))
  obtain ⟨hqline, hqdegree⟩ := follow_fields p (p.dirOf (addr.toInt - p.lastAddr.toInt))
  have hlead := leads_iff p (addr.toInt - p.lastAddr.toInt)
  -- the prefetcher after the access, before it takes the address over
  generalize hqdef : p.follow (p.dirOf (addr.toInt - p.lastAddr.toInt)) = q at hq hqline hqdegree hlead
  have hconf : q.confidence ≥ 2 ↔ p.Leads (addr.toInt - p.lastAddr.toInt) := hlead
  have htrust : p.Leads (addr.toInt - p.lastAddr.toInt) → q.direction ≠ .none := fun hl =>
    hq.trusted fun h0 => by
      have h2 := hconf.mpr hl
      rw [h0] at h2
      exact absurd h2 (by decide)
  have hsame : p.Leads (addr.toInt - p.lastAddr.toInt) → q.direction = p.direction := fun hl => hqdef ▸ hl.direction
  have hreach : p.Leads (addr.toInt - p.lastAddr.toInt) → (q.Reach ↔ p.Reach) := by
    intro hl
    unfold Reach
    rw [hsame hl, hqline, hqdegree]
  constructor
  · rintro ⟨prefetches, p', hobs, -⟩
    obtain ⟨hd, hb⟩ := dir_of_observe hobs
    refine ⟨hd, hb, fun hl => ?_⟩
    have hneg : q.direction = .ascending ∨ q.lineBytes.toInt ≠ -2 ^ 63 := by
      rw [hsame hl, hqline]
      exact neg_of_leads hl hb
    rw [observe_of_dir hd hb hqdef.symm, if_pos (hconf.mpr hl)] at hobs
    refine (hreach hl).mp ((targets_ok_iff hq addr hneg (htrust hl)).mp ?_)
    cases hloop : (List.range' 1 q.degree.toNat).mapM (q.target addr) with
    | error e =>
      rw [hloop] at hobs
      cases hobs
    | ok ps => exact ⟨ps, rfl⟩
  · rintro ⟨hd, hb, hlines⟩
    unfold Right
    rw [observe_of_dir hd hb hqdef.symm]
    by_cases hl : p.Leads (addr.toInt - p.lastAddr.toInt)
    · have hneg : q.direction = .ascending ∨ q.lineBytes.toInt ≠ -2 ^ 63 := by
        rw [hsame hl, hqline]
        exact neg_of_leads hl hb
      obtain ⟨ps, hloop⟩ := (targets_ok_iff hq addr hneg (htrust hl)).mpr ((hreach hl).mpr (hlines hl))
      rw [if_pos (hconf.mpr hl), hloop]
      refine ⟨ps, _, rfl, fun i v hv => ⟨htrust hl, ?_⟩⟩
      obtain ⟨hi, hround⟩ := mapM_range' hloop hv
      have hdeg := q.degree.isLt
      have hright := target_right hq hneg (htrust hl) (by omega) hround
      rw [hqline, Nat.cast_add, Nat.cast_one] at hright
      exact hright
    · rw [if_neg (mt hconf.mp hl)]
      exact ⟨[], _, rfl, fun i v hv => by cases hv⟩

theorem step (h : p.Inv) (access : U64 × Bool) : (p.step access).Inv := by
  unfold StreamPrefetcher.step
  cases hobs : p.observe access.1 access.2 with
  | error e => exact h
  | ok r =>
    obtain ⟨hd, hb⟩ := dir_of_observe hobs
    have hq := h.follow (p.dirOf (access.1.toInt - p.lastAddr.toInt))
    rw [observe_of_dir hd hb rfl] at hobs
    split at hobs
    · cases hloop : (List.range' 1 (p.follow (p.dirOf (access.1.toInt - p.lastAddr.toInt))).degree.toNat).mapM
          ((p.follow (p.dirOf (access.1.toInt - p.lastAddr.toInt))).target access.1) with
      | error e =>
        rw [hloop] at hobs
        cases hobs
      | ok ps =>
        rw [hloop] at hobs
        cases hobs
        exact ⟨hq.line, hq.degree, hq.trusted⟩
    · cases hobs
      exact ⟨hq.line, hq.degree, hq.trusted⟩

end Inv

end StreamPrefetcher

/-! ### Runs -/

/-- **Both prefetchers ask for the right lines, and nothing overflows, along a run
just when every access of it fits.** -/
theorem prefetchers_right_iff (lineBytes tableSize degree : U64) (h : LineSize lineBytes)
    (accesses : List (U64 × Bool)) :
    (Runs.Always StridePrefetcher.step StridePrefetcher.Right (.new lineBytes tableSize degree) accesses ↔
      Runs.Always StridePrefetcher.step StridePrefetcher.Fits (.new lineBytes tableSize degree) accesses) ∧
    (Runs.Always StreamPrefetcher.step StreamPrefetcher.Right (.new lineBytes degree) accesses ↔
      Runs.Always StreamPrefetcher.step StreamPrefetcher.Fits (.new lineBytes degree) accesses) := by
  constructor
  · exact Runs.always_congr StridePrefetcher.Inv (StridePrefetcher.new_inv h tableSize degree)
      (fun _ a _ hp _ => hp.step a) fun _ a _ hp => hp.right_iff_fits a
  · exact Runs.always_congr StreamPrefetcher.Inv (StreamPrefetcher.new_inv h degree)
      (fun _ a _ hp _ => hp.step a) fun _ a _ hp => hp.right_iff_fits a

/-- One line after the other. -/
def linesUp : List (U64 × Bool) := [(0x1000, false), (0x1040, false), (0x1080, false), (0x10C0, false)]

/-- They fit, and both prefetchers ask for the right lines. -/
theorem prefetchers_right_linesUp :
    Runs.Always StridePrefetcher.step StridePrefetcher.Right (.new 64 64 2) linesUp ∧
      Runs.Always StreamPrefetcher.step StreamPrefetcher.Right (.new 64 2) linesUp := by
  obtain ⟨hstride, hstream⟩ := prefetchers_right_iff 64 64 2 ⟨6, by decide, by decide⟩ linesUp
  refine ⟨hstride.mpr ⟨?_, ?_, ?_, ?_, trivial⟩, hstream.mpr ⟨?_, ?_, ?_, ?_, trivial⟩⟩
  all_goals
    simp only [StridePrefetcher.Fits, StridePrefetcher.Reach, StreamPrefetcher.Fits, StreamPrefetcher.Reach,
      StreamPrefetcher.Leads, InRange]
    decide

/-- Two addresses of one entry, half of the addresses apart. -/
def acrossTheSign : List (U64 × Bool) := [(0x1000, false), (0x8000000000000000, false)]

/-- Their difference is no signed number, and both prefetchers stop. -/
theorem prefetchers_overflow :
    ¬ Runs.Always StridePrefetcher.step StridePrefetcher.Right (.new 64 64 1) acrossTheSign ∧
      ¬ Runs.Always StreamPrefetcher.step StreamPrefetcher.Right (.new 64 1) acrossTheSign := by
  constructor
  · rintro ⟨-, ⟨prefetches, p', hobs, -⟩, -⟩
    have hstop : ((StridePrefetcher.new 64 64 1).step (0x1000, false)).observe 0x8000000000000000 false =
        .error .overflow := by
      decide
    rw [hstop] at hobs
    cases hobs
  · rintro ⟨-, ⟨prefetches, p', hobs, -⟩, -⟩
    have hstop : ((StreamPrefetcher.new 64 1).step (0x1000, false)).observe 0x8000000000000000 false =
        .error .overflow := by
      decide
    rw [hstop] at hobs
    cases hobs

end Rvsim
