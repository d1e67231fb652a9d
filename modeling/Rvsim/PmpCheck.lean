/-
# The PMP check against the privileged specification

`Pmp::check` of `units/mmu/pmp.rs`. The specification lets the lowest-numbered
entry that matches any byte of an access decide, and refuses the access if that
entry does not match all of it. The code walks on until an entry contains the
whole access, with ranges in 64-bit arithmetic; here the specification's ranges
are natural numbers.

Key definitions:
  - `PmpRow.region`, `PmpAccess.Touches`, `PmpAccess.Within`: the specification's matching
  - `Pmp.SpecAllows`, `Pmp.Straddles`
Key theorems:
  - `PmpRow.covers_iff`: the computed range, where nothing wraps
  - `Pmp.check_allow_iff`, `Pmp.check_word`
-/
import Rvsim.Arch
import Rvsim.Lib.FirstMatch

namespace Rvsim

/-- An entry, with the address register of the entry before it. -/
structure PmpRow where
  below : Option U64
  entry : PmpEntry
  deriving DecidableEq, Repr

structure PmpAccess where
  addr : U64
  size : U64
  isRead : Bool
  isWrite : Bool
  isExec : Bool
  isMachine : Bool
  deriving DecidableEq, Repr

/-! ### Matching, as the specification has it -/

namespace PmpRow

/-- The first byte of an entry's region and the first byte behind it; an entry that is off has none.
The trailing ones of a `NAPOT` register give the size, the bits above them the base. -/
def region (r : PmpRow) : Nat × Nat :=
  let addr := r.entry.addr.toNat
  match r.entry.matchMode with
  | .off => (0, 0)
  | .tor => (4 * (r.below.map BitVec.toNat).getD 0, 4 * addr)
  | .na4 => (4 * addr, 4 * addr + 4)
  | .napot =>
    let ones := Pmp.trailingOnes r.entry.addr 64
    (addr / 2 ^ (ones + 1) * 2 ^ (ones + 3), addr / 2 ^ (ones + 1) * 2 ^ (ones + 3) + 2 ^ (ones + 3))

end PmpRow

namespace PmpAccess

variable {a : PmpAccess} {r : PmpRow}

/-- The byte is among those of `[addr, addr + size)`. -/
def Has (a : PmpAccess) (b : Nat) : Prop := a.addr.toNat ≤ b ∧ b < a.addr.toNat + a.size.toNat

/-- The entry matches some byte of the access. -/
def Touches (a : PmpAccess) (r : PmpRow) : Prop := ∃ b, a.Has b ∧ r.region.1 ≤ b ∧ b < r.region.2

/-- The entry matches every byte of the access. -/
def Within (a : PmpAccess) (r : PmpRow) : Prop := ∀ b, a.Has b → r.region.1 ≤ b ∧ b < r.region.2

/-- The permission bits, which do not bind M-mode unless the entry is locked. -/
def Granted (a : PmpAccess) (r : PmpRow) : Prop :=
  (a.isMachine = true ∧ r.entry.isLocked = false) ∨
    (a.isRead = true → r.entry.isReadable = true) ∧ (a.isWrite = true → r.entry.isWritable = true) ∧
      (a.isExec = true → r.entry.isExecutable = true)

/-- The test of the code: the access lies in the range it has computed. -/
def Covers (a : PmpAccess) (r : PmpRow) : Prop :=
  ∃ lo hi, Pmp.range r.below r.entry = some (lo, hi) ∧ lo ≤ a.addr ∧ a.addr + a.size ≤ hi

theorem touches_iff :
    a.Touches r ↔ max r.region.1 a.addr.toNat < min r.region.2 (a.addr.toNat + a.size.toNat) := by
  constructor
  · rintro ⟨b, ⟨h1, h2⟩, h3, h4⟩
    omega
  · intro h
    exact ⟨max r.region.1 a.addr.toNat, ⟨by omega, by omega⟩, by omega, by omega⟩

theorem within_iff :
    a.Within r ↔ a.size.toNat = 0 ∨
      r.region.1 ≤ a.addr.toNat ∧ a.addr.toNat + a.size.toNat ≤ r.region.2 := by
  constructor
  · intro h
    by_cases hz : a.size.toNat = 0
    · exact .inl hz
    · have hfirst := h a.addr.toNat ⟨le_rfl, by omega⟩
      have hlast := h (a.addr.toNat + a.size.toNat - 1) ⟨by omega, by omega⟩
      exact .inr ⟨hfirst.1, by omega⟩
  · rintro (hz | ⟨h1, h2⟩) b ⟨hb1, hb2⟩
    · omega
    · omega

instance : DecidablePred a.Touches := fun _ => decidable_of_iff _ touches_iff.symm

instance : DecidablePred a.Within := fun _ => decidable_of_iff _ within_iff.symm

instance : DecidablePred a.Granted := fun _ => inferInstanceAs (Decidable (_ ∨ _))

instance : DecidablePred a.Covers := fun r =>
  match h : Pmp.range r.below r.entry with
  | none => isFalse (by rintro ⟨lo, hi, hr, -⟩; rw [h] at hr; cases hr)
  | some (lo, hi) => decidable_of_iff (lo ≤ a.addr ∧ a.addr + a.size ≤ hi) (by
      constructor
      · exact fun hc => ⟨lo, hi, h, hc⟩
      · rintro ⟨lo', hi', hr, hc⟩
        rw [h] at hr
        obtain ⟨rfl, rfl⟩ := Prod.mk.inj (Option.some.inj hr)
        exact hc)

end PmpAccess

/-! ### The computed ranges -/

theorem Pmp.range_of_tor {e : PmpEntry} (h : e.matchMode = .tor) (below : Option U64) :
    Pmp.range below e = some ((below.map fun b : U64 => b <<< 2).getD 0, e.addr <<< 2) := by
  simp [Pmp.range, h]

theorem toNat_shiftLeft_two (x : U64) : (x <<< 2).toNat = 4 * x.toNat % 2 ^ 64 := by
  rw [BitVec.toNat_shiftLeft, Nat.shiftLeft_eq, Nat.mul_comm]

/-- A power of two below 2^64, as a word. -/
theorem toNat_powWord {k : Nat} (hk : k < 64) : (((1 <<< k : Nat) : U64)).toNat = 2 ^ k := by
  have hlt : 2 ^ k < 2 ^ 64 := Nat.pow_lt_pow_right (by decide) hk
  rw [Nat.one_shiftLeft]
  exact Nat.mod_eq_of_lt hlt

/-- Low bits cleared: the multiple of `2 ^ k` below. -/
theorem toNat_clearLow (x : U64) {k : Nat} (hk : k < 64) :
    (x &&& ~~~(((1 <<< k : Nat) : U64) - 1)).toNat = x.toNat / 2 ^ k * 2 ^ k := by
  have hmask : ((1 <<< k : Nat) : U64) - 1 = BitVec.ofNat 64 (2 ^ k - 1) := by
    apply BitVec.eq_of_toNat_eq
    have hlt : 2 ^ k < 2 ^ 64 := Nat.pow_lt_pow_right (by decide) hk
    have hpos : 0 < 2 ^ k := Nat.two_pow_pos k
    have hone : (1 : U64).toNat = 1 := rfl
    rw [BitVec.toNat_sub, toNat_powWord hk, hone, BitVec.toNat_ofNat]
    omega
  have hshift : x &&& ~~~(((1 <<< k : Nat) : U64) - 1) = (x >>> k) <<< k := by
    rw [hmask]
    apply BitVec.eq_of_getLsbD_eq
    intro i hi
    simp only [BitVec.getLsbD_and, BitVec.getLsbD_not, BitVec.getLsbD_ofNat, Nat.testBit_two_pow_sub_one,
      BitVec.getLsbD_shiftLeft, BitVec.getLsbD_ushiftRight, hi, decide_true, Bool.true_and]
    by_cases hik : i < k
    · simp [hik]
    · have : k + (i - k) = i := by omega
      simp [hik, this]
  have hle : x.toNat / 2 ^ k * 2 ^ k ≤ x.toNat := Nat.div_mul_le_self _ _
  rw [hshift, BitVec.toNat_shiftLeft, BitVec.toNat_ushiftRight, Nat.shiftRight_eq_div_pow, Nat.shiftLeft_eq,
    Nat.mod_eq_of_lt (lt_of_le_of_lt hle x.isLt)]

/-- A multiple of a power of two below 2^64 is the same with or without the wrap at 2^64. -/
theorem div_mul_wrap {n k : Nat} (hk : k ≤ 64) (h : n / 2 ^ k * 2 ^ k < 2 ^ 64) :
    n % 2 ^ 64 / 2 ^ k * 2 ^ k = n / 2 ^ k * 2 ^ k := by
  have hsplit : 2 ^ 64 = 2 ^ k * 2 ^ (64 - k) := by rw [← Nat.pow_add, Nat.add_sub_cancel' hk]
  have hpos : 0 < 2 ^ k := Nat.two_pow_pos k
  have hq : n / 2 ^ k < 2 ^ (64 - k) := by
    apply Nat.lt_of_mul_lt_mul_right (a := 2 ^ k)
    rw [Nat.mul_comm (2 ^ (64 - k)), ← hsplit]
    exact h
  rw [hsplit, Nat.mod_mul_right_div_self, Nat.mod_eq_of_lt hq]

namespace PmpAccess

variable {a : PmpAccess} {r : PmpRow}

/-- The test on a computed range whose ends are the region's. -/
theorem covers_of_range {lo hi : U64} (hr : Pmp.range r.below r.entry = some (lo, hi)) (hpos : 0 < a.size.toNat)
    (hend : a.addr.toNat + a.size.toNat < 2 ^ 64) (hlo : lo.toNat = r.region.1)
    (hhi : hi.toNat = r.region.2 ∨ hi = BitVec.allOnes 64 ∧ 2 ^ 64 ≤ r.region.2) : a.Covers r ↔ a.Within r := by
  have hcov : a.Covers r ↔ lo ≤ a.addr ∧ a.addr + a.size ≤ hi := by
    constructor
    · rintro ⟨lo', hi', hr', hc⟩
      rw [hr] at hr'
      obtain ⟨rfl, rfl⟩ := Prod.mk.inj (Option.some.inj hr')
      exact hc
    · exact fun hc => ⟨lo, hi, hr, hc⟩
  have hsum : (a.addr + a.size).toNat = a.addr.toNat + a.size.toNat := by
    rw [BitVec.toNat_add, Nat.mod_eq_of_lt hend]
  rw [hcov, within_iff, BitVec.le_def, BitVec.le_def, hsum, hlo]
  rcases hhi with hhi | ⟨rfl, hfull⟩
  · omega
  · rw [BitVec.toNat_allOnes]
    omega

/-- **The test of the code is the specification's**, where nothing wraps. -/
theorem covers_iff (hpos : 0 < a.size.toNat) (hend : a.addr.toNat + a.size.toNat < 2 ^ 64)
    (hlo : r.region.1 < 2 ^ 64) (hhi : r.region.2 < 2 ^ 64 ∨ r.region.1 = 0 ∧ r.entry.matchMode = .napot) :
    a.Covers r ↔ a.Within r := by
  obtain ⟨below, e⟩ := r
  cases hm : e.matchMode with
  | off =>
    have hoff : Pmp.range below e = none := by simp [Pmp.range, hm]
    have hregion : PmpRow.region ⟨below, e⟩ = (0, 0) := by simp [PmpRow.region, hm]
    constructor
    · rintro ⟨lo, hi, h, -⟩
      rw [hoff] at h
      cases h
    · intro h
      rw [within_iff, hregion] at h
      omega
  | tor =>
    have hregion : PmpRow.region ⟨below, e⟩ = (4 * (below.map BitVec.toNat).getD 0, 4 * e.addr.toNat) := by
      simp [PmpRow.region, hm]
    rw [hregion] at hlo hhi
    have hhi := hhi.resolve_right fun hc => by rw [hm] at hc; cases hc.2
    refine covers_of_range (Pmp.range_of_tor hm below) hpos hend ?_ (.inl ?_)
    · rw [hregion]
      cases below with
      | none => rfl
      | some b => exact (toNat_shiftLeft_two b).trans (Nat.mod_eq_of_lt hlo)
    · rw [hregion]
      exact (toNat_shiftLeft_two _).trans (Nat.mod_eq_of_lt hhi)
  | na4 =>
    have hregion : PmpRow.region ⟨below, e⟩ = (4 * e.addr.toNat, 4 * e.addr.toNat + 4) := by simp [PmpRow.region, hm]
    rw [hregion] at hlo hhi
    have hhi := hhi.resolve_right fun hc => by rw [hm] at hc; cases hc.2
    have hbase : (e.addr <<< 2).toNat = 4 * e.addr.toNat := (toNat_shiftLeft_two _).trans (Nat.mod_eq_of_lt hlo)
    have hrange : Pmp.range below e = some (e.addr <<< 2, (e.addr <<< 2) + 4) := by simp [Pmp.range, hm, Pmp.na4Range]
    refine covers_of_range hrange hpos hend ?_ (.inl ?_)
    · rw [hregion, hbase]
    · have hfour : (4 : U64).toNat = 4 := rfl
      rw [hregion, BitVec.toNat_add, hbase, hfour, Nat.mod_eq_of_lt hhi]
  | napot =>
    generalize hk : Pmp.trailingOnes e.addr 64 = ones
    have hregion : PmpRow.region ⟨below, e⟩ = (e.addr.toNat / 2 ^ (ones + 1) * 2 ^ (ones + 3),
        e.addr.toNat / 2 ^ (ones + 1) * 2 ^ (ones + 3) + 2 ^ (ones + 3)) := by simp [PmpRow.region, hm, hk]
    have hrange : Pmp.range below e = some (Pmp.napotRange e.addr) := by simp [Pmp.range, hm]
    rw [hregion] at hlo hhi
    unfold Pmp.napotRange at hrange
    rw [hk] at hrange
    dsimp only at hrange hlo hhi
    by_cases hbig : ones + 3 ≥ 64
    · -- the whole address space
      rw [if_pos hbig] at hrange
      have hsize : 2 ^ 64 ≤ 2 ^ (ones + 3) := Nat.pow_le_pow_right (by decide) hbig
      have hzero : e.addr.toNat / 2 ^ (ones + 1) * 2 ^ (ones + 3) = 0 := by
        rcases hhi with hhi | ⟨hzero, -⟩
        · omega
        · exact hzero
      refine covers_of_range hrange hpos hend ?_ (.inr ⟨rfl, ?_⟩)
      · rw [hregion, hzero]
        rfl
      · rw [hregion]
        dsimp only
        omega
    · rw [if_neg hbig] at hrange
      have hk64 : ones + 3 < 64 := by omega
      have hsize : 2 ^ (ones + 3) < 2 ^ 64 := Nat.pow_lt_pow_right (by decide) hk64
      have hquot : 4 * e.addr.toNat / 2 ^ (ones + 3) = e.addr.toNat / 2 ^ (ones + 1) := by
        rw [show 2 ^ (ones + 3) = 4 * 2 ^ (ones + 1) by rw [Nat.pow_add 2 ones 3, Nat.pow_add 2 ones 1]; omega,
          Nat.mul_div_mul_left _ _ (by decide)]
      have hbase : ((e.addr <<< 2) &&& ~~~(((1 <<< (ones + 3) : Nat) : U64) - 1)).toNat =
          e.addr.toNat / 2 ^ (ones + 1) * 2 ^ (ones + 3) := by
        rw [toNat_clearLow _ hk64, toNat_shiftLeft_two, div_mul_wrap hk64.le (by rw [hquot]; exact hlo), hquot]
      have hfit : e.addr.toNat / 2 ^ (ones + 1) * 2 ^ (ones + 3) + 2 ^ (ones + 3) < 2 ^ 64 := by
        rcases hhi with hhi | ⟨hzero, -⟩
        · exact hhi
        · omega
      refine covers_of_range hrange hpos hend ?_ (.inl ?_)
      · rw [hregion, hbase]
      · rw [hregion, BitVec.toNat_add, hbase, toNat_powWord hk64, Nat.mod_eq_of_lt hfit]

end PmpAccess

namespace Pmp

/-! ### Words -/

/-- A range begins and ends at multiples of four bytes, or it is the whole of the addresses. -/
theorem range_words {below : Option U64} {e : PmpEntry} {lo hi : U64} (h : range below e = some (lo, hi)) :
    4 ∣ lo.toNat ∧ (4 ∣ hi.toNat ∨ hi = BitVec.allOnes 64) := by
  have hwrap : (4 : Nat) ∣ 2 ^ 64 := by decide
  have hshift : ∀ x : U64, 4 ∣ (x <<< 2).toNat := by
    intro x
    rw [toNat_shiftLeft_two]
    exact (Nat.dvd_mod_iff hwrap).mpr (Nat.dvd_mul_right 4 _)
  unfold range at h
  cases hm : e.matchMode with
  | off =>
    rw [hm] at h
    cases h
  | tor =>
    rw [hm] at h
    obtain ⟨rfl, rfl⟩ := Prod.mk.inj (Option.some.inj h)
    refine ⟨?_, Or.inl (hshift _)⟩
    cases below with
    | none => exact Nat.dvd_zero 4
    | some b => exact hshift b
  | na4 =>
    rw [hm] at h
    obtain ⟨rfl, rfl⟩ := Prod.mk.inj (Option.some.inj h)
    refine ⟨hshift _, Or.inl ?_⟩
    rw [BitVec.toNat_add]
    exact (Nat.dvd_mod_iff hwrap).mpr (Nat.dvd_add (hshift _) (Nat.dvd_refl 4))
  | napot =>
    rw [hm] at h
    have h := Option.some.inj h
    unfold napotRange at h
    dsimp only at h
    split at h
    · obtain ⟨rfl, rfl⟩ := Prod.mk.inj h
      exact ⟨Nat.dvd_zero 4, Or.inr rfl⟩
    · rename_i hsize
      obtain ⟨rfl, rfl⟩ := Prod.mk.inj h
      have hpow : (4 : Nat) ∣ 2 ^ (trailingOnes e.addr 64 + 3) :=
        Nat.pow_dvd_pow 2 (by omega : 2 ≤ trailingOnes e.addr 64 + 3)
      have hbase := toNat_clearLow (e.addr <<< 2) (by omega : trailingOnes e.addr 64 + 3 < 64)
      have hword := toNat_powWord (by omega : trailingOnes e.addr 64 + 3 < 64)
      refine ⟨?_, Or.inl ?_⟩
      · rw [hbase]
        exact Dvd.dvd.mul_left hpow _
      · rw [BitVec.toNat_add, hbase, hword]
        exact (Nat.dvd_mod_iff hwrap).mpr (Nat.dvd_add (Dvd.dvd.mul_left hpow _) hpow)

theorem checkFrom_congr {a stop a' stop' : U64} {isRead isWrite isExec isMachine : Bool}
    (h : ∀ (below : Option U64) (e : PmpEntry) (lo hi : U64), range below e = some (lo, hi) →
      (a ≥ lo ∧ stop ≤ hi ↔ a' ≥ lo ∧ stop' ≤ hi)) (below : Option U64) (es : List PmpEntry) :
    checkFrom a stop isRead isWrite isExec isMachine below es =
        checkFrom a' stop' isRead isWrite isExec isMachine below es := by
  induction es generalizing below with
  | nil => rfl
  | cons e es ih =>
    unfold checkFrom
    cases hr : range below e with
    | none => exact ih _
    | some r =>
      obtain ⟨lo, hi⟩ := r
      dsimp only
      rw [ih]
      exact if_congr (h below e lo hi hr) rfl rfl

/-- **The bytes of an aligned word are checked alike.** -/
theorem check_word (p : Pmp) {a : U64} (ha : 4 ∣ a.toNat) (hend : a.toNat + 4 < 2 ^ 64) {k n : Nat} (hn : 0 < n)
    (hk : k + n ≤ 4)
    (isRead isWrite isExec isMachine : Bool) :
    p.check (a + BitVec.ofNat 64 k) (BitVec.ofNat 64 n) isRead isWrite isExec isMachine =
      p.check a 4 isRead isWrite isExec isMachine := by
  have hstart : (a + BitVec.ofNat 64 k).toNat = a.toNat + k := by
    rw [BitVec.toNat_add, BitVec.toNat_ofNat]
    omega
  have hstop : (a + BitVec.ofNat 64 k + BitVec.ofNat 64 n).toNat = a.toNat + k + n := by
    rw [BitVec.toNat_add, hstart, BitVec.toNat_ofNat]
    omega
  have hword : (a + 4).toNat = a.toNat + 4 := BitVec.toNat_add_of_lt hend
  refine checkFrom_congr (fun below e lo hi hr => ?_) none p.entries
  obtain ⟨hlo, hhi⟩ := range_words hr
  rw [ge_iff_le, ge_iff_le, BitVec.le_def, BitVec.le_def, BitVec.le_def, BitVec.le_def, hstart, hstop, hword]
  rcases hhi with hhi | rfl
  · omega
  · rw [BitVec.toNat_allOnes]
    omega

/-! ### The specification -/

def rowsFrom : Option U64 → List PmpEntry → List PmpRow
  | _, [] => []
  | below, e :: rest => ⟨below, e⟩ :: rowsFrom (some e.addr) rest

def rows (p : Pmp) : List PmpRow := rowsFrom none p.entries

/-- **The specification.** The lowest-numbered entry that matches any byte decides, and matches all of
them if it allows; with none, M-mode has access, and everybody where no entry is implemented. -/
def SpecAllows (p : Pmp) (a : PmpAccess) : Prop :=
  FirstMatch.Verdict a.Touches (fun r => a.Within r ∧ a.Granted r) (a.isMachine = true ∨ p.entries = []) p.rows

/-- The walk of the code. -/
def CodeAllows (p : Pmp) (a : PmpAccess) : Prop :=
  FirstMatch.Verdict a.Covers a.Granted (a.isMachine = true) p.rows

instance (p : Pmp) (a : PmpAccess) : Decidable (p.SpecAllows a) :=
  inferInstanceAs (Decidable (FirstMatch.Verdict _ _ _ _))

/-- The lowest-numbered entry that matches a byte of the access matches only a part of it, and of the
entries behind it the first that matches all of it grants the access; or there is none, in M-mode. -/
def Straddles (p : Pmp) (a : PmpAccess) : Prop :=
  FirstMatch.PassesOver a.Touches a.Within a.Granted (a.isMachine = true) p.rows

/-- Nothing leaves 64 bits: the access ends below the end of the address space, and so does the region of each
entry up to the first that matches all of the access, unless it is a `NAPOT` region from 0. -/
def Wrapless (p : Pmp) (a : PmpAccess) : Prop :=
  0 < a.size.toNat ∧ a.addr.toNat + a.size.toNat < 2 ^ 64 ∧
    ∀ r ∈ FirstMatch.upTo a.Within p.rows, r.region.1 < 2 ^ 64 ∧
        (r.region.2 < 2 ^ 64 ∨ r.region.1 = 0 ∧ r.entry.matchMode = .napot)

/-! ### The walk of the code -/

variable {p : Pmp} {a : PmpAccess}

theorem checkFrom_allow_iff (a : PmpAccess) (below : Option U64) (es : List PmpEntry) :
    checkFrom a.addr (a.addr + a.size) a.isRead a.isWrite a.isExec a.isMachine below es = .allow ↔
      FirstMatch.Verdict a.Covers a.Granted (a.isMachine = true) (rowsFrom below es) := by
  induction es generalizing below with
  | nil =>
    cases hm : a.isMachine
    all_goals simp [checkFrom, rowsFrom, FirstMatch.Verdict]
  | cons e es ih =>
    rw [rowsFrom, checkFrom]
    cases hr : range below e with
    | none =>
      have hno : ¬ a.Covers ⟨below, e⟩ := by
        rintro ⟨lo, hi, h, -⟩
        rw [hr] at h
        cases h
      rw [FirstMatch.verdict_cons_of_not_sel hno]
      exact ih _
    | some lohi =>
      obtain ⟨lo, hi⟩ := lohi
      by_cases hc : lo ≤ a.addr ∧ a.addr + a.size ≤ hi
      · have hcov : a.Covers ⟨below, e⟩ := ⟨lo, hi, hr, hc⟩
        rw [FirstMatch.verdict_cons_of_sel hcov]
        dsimp only
        rw [if_pos hc]
        unfold PmpAccess.Granted
        cases a.isMachine <;> cases e.isLocked <;> cases a.isRead <;> cases a.isWrite <;> cases a.isExec <;>
          cases e.isReadable <;> cases e.isWritable <;> cases e.isExecutable <;> simp
      · have hno : ¬ a.Covers ⟨below, e⟩ := by
          rintro ⟨lo', hi', h, hc'⟩
          rw [hr] at h
          obtain ⟨rfl, rfl⟩ := Prod.mk.inj (Option.some.inj h)
          exact hc hc'
        rw [FirstMatch.verdict_cons_of_not_sel hno]
        dsimp only
        rw [if_neg hc]
        exact ih _

theorem check_allow (p : Pmp) (a : PmpAccess) :
    p.check a.addr a.size a.isRead a.isWrite a.isExec a.isMachine = .allow ↔ p.CodeAllows a :=
  checkFrom_allow_iff a none p.entries

/-- **The check against the specification.** Whether they agree is settled at the first entry that matches
a byte of the access or whose computed range contains it. Where nothing wraps on the way to the entry that
decides, they differ exactly when the access straddles the end of an entry and what comes behind the entry
lets it through. -/
theorem check_allow_iff (p : Pmp) (a : PmpAccess) (h : p.entries.length = pmpCount) :
    ((p.check a.addr a.size a.isRead a.isWrite a.isExec a.isMachine = .allow ↔ p.SpecAllows a) ↔
        FirstMatch.Agree a.Covers a.Touches a.Granted (fun r => a.Within r ∧ a.Granted r) (a.isMachine = true)
          (a.isMachine = true) p.rows) ∧
      (p.Wrapless a →
        ((p.check a.addr a.size a.isRead a.isWrite a.isExec a.isMachine = .allow ↔ p.SpecAllows a) ↔
          ¬ p.Straddles a)) := by
  have hsome : p.entries ≠ [] := fun hc => by rw [hc] at h; cases h
  have hspec : p.SpecAllows a ↔
      FirstMatch.Verdict a.Touches (fun r => a.Within r ∧ a.Granted r) (a.isMachine = true) p.rows := by
    simp [SpecAllows, hsome]
  rw [check_allow, hspec]
  refine ⟨(FirstMatch.agree_iff p.rows).symm, ?_⟩
  rintro ⟨hpos, hend, hrows⟩
  have hcode : p.CodeAllows a ↔ FirstMatch.Verdict a.Within a.Granted (a.isMachine = true) p.rows :=
    (FirstMatch.verdict_congr (fun r hr => (PmpAccess.covers_iff hpos hend (hrows r hr).1 (hrows r hr).2).symm)
      fun _ _ _ => Iff.rfl).symm
  have htouch : ∀ r ∈ p.rows, a.Within r → a.Touches r :=
    fun r _ hw => ⟨a.addr.toNat, ⟨le_rfl, by omega⟩, hw _ ⟨le_rfl, by omega⟩⟩
  rw [hcode]
  exact Iff.comm.trans (FirstMatch.verdict_iff_verdict_iff htouch)

/-- Entry 0 is the four bytes at `0x1000`, locked and without permissions. -/
def lockedWord : Pmp := (new.setAddr 0 0x400).setCfg 0 0x90

/-- An access in M-mode to the eight bytes at an address. -/
def machineRead (addr : U64) : PmpAccess := ⟨addr, 8, true, false, false, true⟩

/-- Beside the entry the check is the specification's. -/
theorem check_allow_iff_beside : lockedWord.entries.length = pmpCount ∧
    ((lockedWord.check 0x2000 8 true false false true = .allow ↔ lockedWord.SpecAllows (machineRead 0x2000)) ∧
      lockedWord.check 0x2000 8 true false false true = .allow) :=
  ⟨by decide, ((check_allow_iff lockedWord (machineRead 0x2000) (by decide)).1.mpr (by decide)),
    by decide⟩

/-- Half of the eight bytes at `0x1000` are the entry's, and the read goes through. -/
theorem check_lets_through : lockedWord.check 0x1000 8 true false false true = .allow ∧
    ¬ lockedWord.SpecAllows (machineRead 0x1000) := by
  decide

end Pmp

end Rvsim
