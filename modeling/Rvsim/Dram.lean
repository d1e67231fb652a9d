/-
# DRAM timing

`soc/memory/controller.rs`: banks with an open row, spacing of activations, and a
refresh that is due at every multiple of its interval. A refresh is applied to an
access at the cycle of the request only. The bank, the precharge, the spacing and
the activation then make it wait, and nothing looks at the refresh again, so that a
command may start in the middle of one. Between themselves the commands are spaced
as they should be.

Key definitions:
  - `DramController`, `DramController.access`, `DramCommands`
  - `DramController.Legal`, `DramController.Unhindered`, `DramController.Headroom`
Key theorems:
  - `DramController.refreshLoop_spec`, `DramController.access_spec`
  - `DramController.timing_right`, `DramController.timing_pushed`
-/
import Rvsim.Arch
import Rvsim.Lib.Windows
import Mathlib.Data.List.Chain

namespace Rvsim

structure BankState where
  openRow : Option U64
  busyUntil : U64
  deriving DecidableEq, Repr

structure DramConfig where
  tCas : U64
  tRas : U64
  tPre : U64
  tRrd : U64
  numBanks : Nat
  rowSizeBytes : U64
  tRefi : U64
  tRfc : U64
  deriving DecidableEq, Repr

/-- The parameters are kept as they were configured. -/
structure DramController where
  cfg : DramConfig
  banks : List BankState
  rowMask : U64
  rowShift : Nat
  lastActivateCycle : Option U64
  nextRefreshCycle : U64
  deriving DecidableEq, Repr

/-- When the commands of one access start, and when the bank is free again: after the
column access to a row that was open, after the activation of one that was not. -/
structure DramCommands where
  bank : Nat
  precharge : Option U64
  activate : Option U64
  column : U64
  freed : U64
  deriving DecidableEq, Repr

/-- The first of them. -/
def DramCommands.start (c : DramCommands) : U64 := c.precharge.getD (c.activate.getD c.column)

/-- Neither the column access nor an activation starts inside a refresh. -/
def DramCommands.Clear (cfg : DramConfig) (c : DramCommands) : Prop :=
  Windows.Outside cfg.tRefi.toNat cfg.tRfc.toNat c.column.toNat ∧
    ∀ a ∈ c.activate, Windows.Outside cfg.tRefi.toNat cfg.tRfc.toNat a.toNat

/-- The row is open when its column is accessed, the bank is precharged when it is activated. -/
def DramCommands.Ordered (cfg : DramConfig) (c : DramCommands) : Prop :=
  ∀ a ∈ c.activate, a.toNat + cfg.tRas.toNat ≤ c.column.toNat ∧ ∀ p ∈ c.precharge, p.toNat + cfg.tPre.toNat ≤ a.toNat

namespace DramController

def new (cfg : DramConfig) : DramController where
  cfg := cfg
  banks := List.replicate cfg.numBanks ⟨none, 0⟩
  rowMask := ~~~(cfg.rowSizeBytes - 1)
  rowShift := cfg.rowSizeBytes.ctz.toNat
  lastActivateCycle := none
  nextRefreshCycle := if 0 < cfg.tRefi then cfg.tRefi else BitVec.allOnes 64

/-- A shift by 64, where the rows have no size, is one by zero. -/
def bankIndex (s : DramController) (addr : U64) : Nat := (addr >>> (s.rowShift % 64)).toNat % s.cfg.numBanks

def rowAddr (s : DramController) (addr : U64) : U64 := addr &&& s.rowMask

/-- One refresh: all banks busy to its end, all rows closed. -/
def refresh (s : DramController) : DramController :=
  let refreshEnd := s.nextRefreshCycle + s.cfg.tRfc
  { s with
    banks := s.banks.map fun b => ⟨none, if b.busyUntil < refreshEnd then refreshEnd else b.busyUntil⟩
    nextRefreshCycle := s.nextRefreshCycle + s.cfg.tRefi }

/-- The loop of `handle_refresh`; `none` when it is not over after so many turns. -/
def refreshLoop : Nat → DramController → U64 → Option (DramController × U64)
  | 0, s, effective => if effective < s.nextRefreshCycle then some (s, effective) else none
  | fuel + 1, s, effective =>
    if effective < s.nextRefreshCycle then some (s, effective)
    else
      let refreshEnd := s.nextRefreshCycle + s.cfg.tRfc
      refreshLoop fuel s.refresh (if effective < refreshEnd then refreshEnd else effective)

def handleRefresh (fuel : Nat) (s : DramController) (currentCycle : U64) : Option (DramController × U64) :=
  if s.cfg.tRefi = 0 then some (s, currentCycle) else refreshLoop fuel s currentCycle

/-- Wait for the spacing of activations, and activate. -/
def activate (s : DramController) (readyCycle : U64) : U64 × DramController :=
  let ready :=
    match s.lastActivateCycle with
    | some lastAct => if readyCycle < lastAct + s.cfg.tRrd then lastAct + s.cfg.tRrd else readyCycle
    | none => readyCycle
  (ready, { s with lastActivateCycle := some ready })

def setBank (s : DramController) (i : Nat) (b : BankState) : DramController := { s with banks := s.banks.set i b }

/-- The row is opened from `readyCycle` on: latency, commands, state. -/
def openRow (s : DramController) (i : Nat) (row now readyCycle : U64) (precharge : Option U64) :
    U64 × DramCommands × DramController :=
  let (ready, s) := s.activate readyCycle
  ((ready - now) + s.cfg.tRas + s.cfg.tCas, ⟨i, precharge, some ready, ready + s.cfg.tRas, ready + s.cfg.tRas⟩,
    s.setBank i ⟨some row, ready + s.cfg.tRas⟩)

/-- The access once the refresh is handled. -/
def serve (s : DramController) (addr now readyCycle : U64) : Option (U64 × DramCommands × DramController) :=
  let i := s.bankIndex addr
  let row := s.rowAddr addr
  match s.banks[i]? with
  | none => none
  | some bank =>
    let ready := if readyCycle < bank.busyUntil then bank.busyUntil else readyCycle
    match bank.openRow with
    | some open' =>
      if open' = row then
        some ((ready - now) + s.cfg.tCas, ⟨i, none, none, ready, ready + s.cfg.tCas⟩,
            s.setBank i ⟨some open', ready + s.cfg.tCas⟩)
      else some (s.openRow i row now (ready + s.cfg.tPre) (some ready))
    | none => some (s.openRow i row now ready none)

/-- `access_latency`; `none` also without a bank, where the source panics. -/
def access (fuel : Nat) (s : DramController) (addr now : U64) : Option (U64 × DramCommands × DramController) :=
  (handleRefresh fuel s now).bind fun r => r.1.serve addr now r.2

/-! ### The refresh loop -/

variable {s s' t : DramController} {addr now effective effective' : U64} {fuel n : Nat}

theorem refreshLoop_done (h : effective < s.nextRefreshCycle) (fuel : Nat) :
    refreshLoop fuel s effective = some (s, effective) := by
  cases fuel with
  | zero => exact if_pos h
  | succ fuel => exact if_pos h

theorem refreshLoop_turn (h : ¬effective < s.nextRefreshCycle) (fuel : Nat) : refreshLoop (fuel + 1) s effective =
    refreshLoop fuel s.refresh (if effective < s.nextRefreshCycle + s.cfg.tRfc then
        s.nextRefreshCycle + s.cfg.tRfc else effective) :=
  if_neg h

/-- More turns than needed change nothing. -/
theorem refreshLoop_mono {r : DramController × U64} (h : refreshLoop fuel s effective = some r) (k : Nat) :
    refreshLoop (fuel + k) s effective = some r := by
  induction fuel generalizing s effective with
  | zero =>
    by_cases hd : effective < s.nextRefreshCycle
    · rw [refreshLoop_done hd] at h ⊢
      exact h
    · rw [refreshLoop, if_neg hd] at h
      cases h
  | succ fuel ih =>
    by_cases hd : effective < s.nextRefreshCycle
    · rw [refreshLoop_done hd] at h ⊢
      exact h
    · rw [refreshLoop_turn hd] at h
      rw [Nat.add_right_comm, refreshLoop_turn hd]
      exact ih h

theorem handleRefresh_mono {r : DramController × U64} (h : handleRefresh fuel s now = some r) (k : Nat) :
    handleRefresh (fuel + k) s now = some r := by
  unfold handleRefresh at h ⊢
  by_cases hz : s.cfg.tRefi = 0
  · rw [if_pos hz] at h ⊢
    exact h
  · rw [if_neg hz] at h ⊢
    exact refreshLoop_mono h k

theorem access_mono {r : U64 × DramCommands × DramController} (h : access fuel s addr now = some r) (k : Nat) :
    access (fuel + k) s addr now = some r := by
  unfold access at h ⊢
  obtain ⟨q, hq, hserve⟩ := Option.bind_eq_some_iff.mp h
  rw [handleRefresh_mono hq k]
  exact hserve

/-- What a turn keeps, the loop keeps. -/
theorem refreshLoop_keeps {P : DramController → U64 → Prop} {r : DramController × U64}
    (hturn : ∀ s effective, ¬effective < s.nextRefreshCycle → P s effective →
      P s.refresh (if effective < s.nextRefreshCycle + s.cfg.tRfc then s.nextRefreshCycle + s.cfg.tRfc else effective))
    (h : refreshLoop fuel s effective = some r) (hp : P s effective) : P r.1 r.2 := by
  induction fuel generalizing s effective with
  | zero =>
    by_cases hd : effective < s.nextRefreshCycle
    · rw [refreshLoop_done hd] at h
      cases h
      exact hp
    · rw [refreshLoop, if_neg hd] at h
      cases h
  | succ fuel ih =>
    by_cases hd : effective < s.nextRefreshCycle
    · rw [refreshLoop_done hd] at h
      cases h
      exact hp
    · rw [refreshLoop_turn hd] at h
      exact ih h (hturn s effective hd hp)

/-- The next refresh is due at a multiple of the interval. -/
def Due (s : DramController) (m : Nat) : Prop := 1 ≤ m ∧ s.nextRefreshCycle.toNat = m * s.cfg.tRefi.toNat

/-- Every refresh up to the cycle is done: the banks are busy to the end of the last one,
and the rows are closed. -/
structure Refreshed (s : DramController) (now : U64) (s' : DramController) (effective : U64) : Prop where
  cfg : s'.cfg = s.cfg
  mask : s'.rowMask = s.rowMask
  shift : s'.rowShift = s.rowShift
  last : s'.lastActivateCycle = s.lastActivateCycle
  due : Due s' (now.toNat / s.cfg.tRefi.toNat + 1)
  effective : effective.toNat = max now.toNat (Windows.opened s.cfg.tRefi.toNat now.toNat + s.cfg.tRfc.toNat)
  banks : ∃ stop : U64, stop.toNat = Windows.opened s.cfg.tRefi.toNat now.toNat + s.cfg.tRfc.toNat ∧
    s'.banks = s.banks.map fun b => ⟨none, if b.busyUntil < stop then stop else b.busyUntil⟩

theorem toNat_ite_lt (a b : U64) : (if a < b then b else a).toNat = max a.toNat b.toNat := by
  by_cases h : a < b
  · rw [if_pos h, Nat.max_eq_right (Nat.le_of_lt h)]
  · rw [if_neg h, Nat.max_eq_left (Nat.not_lt.mp h)]

/-- Two refreshes after each other leave what the later one leaves. -/
theorem ite_lt_ite_lt {b stop stop' : U64} (h : stop.toNat ≤ stop'.toNat) :
    (if (if b < stop then stop else b) < stop' then stop' else (if b < stop then stop else b)) = if b < stop' then
        stop' else b := by
  apply BitVec.eq_of_toNat_eq
  rw [toNat_ite_lt, toNat_ite_lt, toNat_ite_lt]
  omega

section

variable {m : Nat}

/-- A turn of the loop while the next refresh is due. -/
theorem refresh_due (hdue : Due s m) (hrfc : s.cfg.tRfc.toNat < s.cfg.tRefi.toNat)
    (hm : m ≤ now.toNat / s.cfg.tRefi.toNat)
    (hroom : Windows.opened s.cfg.tRefi.toNat now.toNat + s.cfg.tRefi.toNat < 2 ^ 64) :
    (s.nextRefreshCycle + s.cfg.tRfc).toNat = m * s.cfg.tRefi.toNat + s.cfg.tRfc.toNat ∧ Due s.refresh (m + 1) := by
  obtain ⟨-, hnext⟩ := hdue
  have hle : m * s.cfg.tRefi.toNat ≤ Windows.opened s.cfg.tRefi.toNat now.toNat := Nat.mul_le_mul_right _ hm
  refine ⟨?_, Nat.le_add_left 1 m, ?_⟩
  · rw [BitVec.toNat_add_of_lt (by omega), hnext]
  · show (s.nextRefreshCycle + s.cfg.tRefi).toNat = _
    rw [BitVec.toNat_add_of_lt (by omega), hnext, Nat.succ_mul]
    rfl

/-- **Refreshes shorter than their interval come to an end**, and then all that were due are done. -/
theorem refreshLoop_spec (hrefi : 0 < s.cfg.tRefi.toNat) (hrfc : s.cfg.tRfc.toNat < s.cfg.tRefi.toNat) (hdue : Due s m)
    (hpast : s.nextRefreshCycle ≤ now)
    (hroom : Windows.opened s.cfg.tRefi.toNat now.toNat + s.cfg.tRefi.toNat < 2 ^ 64) :
    ∃ fuel s' effective, refreshLoop fuel s now = some (s', effective) ∧ Refreshed s now s' effective := by
  have hmle : m ≤ now.toNat / s.cfg.tRefi.toNat := by
    rw [Nat.le_div_iff_mul_le hrefi, ← hdue.2]
    exact hpast
  obtain ⟨d, hd⟩ := Nat.exists_eq_add_of_le hmle
  clear hmle
  -- by the number of refreshes that are due behind the next one
  induction d generalizing s m with
  | zero =>
    obtain ⟨hstop, hdue'⟩ := refresh_due hdue hrfc (by omega) hroom
    have hle := Windows.opened_le s.cfg.tRefi.toNat now.toNat
    have hlt := Windows.lt_opened_add hrefi now.toNat
    have hopened : Windows.opened s.cfg.tRefi.toNat now.toNat = m * s.cfg.tRefi.toNat := by
      unfold Windows.opened
      rw [hd, Nat.add_zero]
    have hnext : s.refresh.nextRefreshCycle.toNat = m * s.cfg.tRefi.toNat + s.cfg.tRefi.toNat := by
      rw [hdue'.2, Nat.succ_mul]
      rfl
    have hdone : (if now < s.nextRefreshCycle + s.cfg.tRfc then s.nextRefreshCycle + s.cfg.tRfc else now) <
        s.refresh.nextRefreshCycle := by
      rw [BitVec.lt_def, toNat_ite_lt, hstop, hnext]
      omega
    refine ⟨1, s.refresh, _, (refreshLoop_turn (BitVec.not_lt.mpr hpast) 0).trans (refreshLoop_done hdone 0), rfl,
        rfl, rfl, rfl, ?_, ?_, ?_⟩
    · rw [hd]
      exact hdue'
    · rw [toNat_ite_lt, hstop, hopened]
    · exact ⟨s.nextRefreshCycle + s.cfg.tRfc, hstop.trans (by rw [hopened]), rfl⟩
  | succ d ih =>
    obtain ⟨hstop, hdue'⟩ := refresh_due hdue hrfc (by omega) hroom
    have hmore : (m + 1) * s.cfg.tRefi.toNat ≤ now.toNat := by
      rw [← Nat.le_div_iff_mul_le hrefi]
      omega
    have hsucc : (m + 1) * s.cfg.tRefi.toNat = m * s.cfg.tRefi.toNat + s.cfg.tRefi.toNat := Nat.succ_mul _ _
    have hover : ¬now < s.nextRefreshCycle + s.cfg.tRfc := by
      rw [BitVec.lt_def, hstop]
      omega
    have hpast' : s.refresh.nextRefreshCycle ≤ now := by
      rw [BitVec.le_def, hdue'.2]
      exact hmore
    have hd' : now.toNat / s.refresh.cfg.tRefi.toNat = m + 1 + d := hd.trans (by omega)
    obtain ⟨fuel, s', effective, hloop, hdone⟩ := ih (s := s.refresh) hrefi hrfc hdue' hpast' hroom hd'
    refine ⟨fuel + 1, s', effective, ?_, hdone.cfg, hdone.mask, hdone.shift, hdone.last, hdone.due, hdone.effective, ?_⟩
    · rw [refreshLoop_turn (BitVec.not_lt.mpr hpast), if_neg hover]
      exact hloop
    · obtain ⟨stop, hstop', hbanks⟩ := hdone.banks
      refine ⟨stop, hstop', hbanks.trans ?_⟩
      have hle : (s.nextRefreshCycle + s.cfg.tRfc).toNat ≤ stop.toNat := by
        have hlow : m * s.cfg.tRefi.toNat ≤ Windows.opened s.cfg.tRefi.toNat now.toNat :=
          Nat.mul_le_mul_right _ (by omega)
        rw [hstop, hstop']
        exact Nat.add_le_add_right hlow _
      show (s.banks.map _).map _ = _
      rw [List.map_map]
      refine List.map_congr_left fun b _ => ?_
      exact congrArg (BankState.mk none) (ite_lt_ite_lt hle)

end

/-! ### One access -/

/-- How long after the bank is ready an activation may come, when the row is not the open one. -/
def opening (s : DramController) (openRow : Option U64) (addr : U64) : Option Nat :=
  match openRow with
  | some r => if r = s.rowAddr addr then none else some s.cfg.tPre.toNat
  | none => some 0

/-- The earliest cycle for the next activation. -/
def spacedFrom (s : DramController) : Nat := s.lastActivateCycle.elim 0 fun a => a.toNat + s.cfg.tRrd.toNat

/-- The commands of an access to a bank that is ready in that cycle, activations being
spaced from the other on. -/
structure Timed (cfg : DramConfig) (spaced ready : Nat) (wait : Option Nat) (c : DramCommands) : Prop where
  hit : wait = none → c.precharge = none ∧ c.activate = none ∧ c.column.toNat = ready ∧
      c.freed.toNat = ready + cfg.tCas.toNat
  opens : ∀ pre, wait = some pre → ∃ a, c.activate = some a ∧ a.toNat = max (ready + pre) spaced ∧
    c.column.toNat = a.toNat + cfg.tRas.toNat ∧ c.freed = c.column ∧
    ((c.precharge = none ∧ pre = 0) ∨ ∃ p, c.precharge = some p ∧ p.toNat = ready ∧ pre = cfg.tPre.toNat)

structure Served (s : DramController) (addr : U64) (ready : Nat) (wait : Option Nat) (c : DramCommands)
    (s' : DramController) : Prop where
  state : s' = { s with
    banks := s.banks.set (s.bankIndex addr) ⟨some (s.rowAddr addr), c.freed⟩
    lastActivateCycle := c.activate.or s.lastActivateCycle }
  bank : c.bank = s.bankIndex addr
  timed : Timed s.cfg s.spacedFrom ready wait c

/-- No sum of the access is too large for 64 bits. -/
def WaitsFit (cfg : DramConfig) (spaced ready : Nat) : Option Nat → Prop
  | none => ready + cfg.tCas.toNat < 2 ^ 64
  | some pre => max (ready + pre) spaced + cfg.tRas.toNat < 2 ^ 64

instance (cfg : DramConfig) (spaced ready : Nat) : (wait : Option Nat) → Decidable (WaitsFit cfg spaced ready wait)
  | none => inferInstanceAs (Decidable (_ < _))
  | some _ => inferInstanceAs (Decidable (_ < _))

theorem activate_eq (s : DramController) (ready : U64) (hroom : s.spacedFrom < 2 ^ 64) :
    ∃ a : U64, s.activate ready = (a, { s with lastActivateCycle := some a }) ∧
        a.toNat = max ready.toNat s.spacedFrom := by
  refine ⟨_, rfl, ?_⟩
  unfold spacedFrom at hroom ⊢
  cases hl : s.lastActivateCycle with
  | none => exact (Nat.max_eq_left (Nat.zero_le _)).symm
  | some last =>
    rw [hl] at hroom
    have hsum : (last + s.cfg.tRrd).toNat = last.toNat + s.cfg.tRrd.toNat := BitVec.toNat_add_of_lt hroom
    exact (toNat_ite_lt _ _).trans (by rw [hsum]; rfl)

/-- **The commands of an access.** -/
theorem serve_spec (now effective : U64) {b : BankState} (hb : s.banks[s.bankIndex addr]? = some b)
    (hfit : WaitsFit s.cfg s.spacedFrom (max effective.toNat b.busyUntil.toNat) (s.opening b.openRow addr)) :
    ∃ lat c s', s.serve addr now effective = some (lat, c, s') ∧
      Served s addr (max effective.toNat b.busyUntil.toNat) (s.opening b.openRow addr) c s' := by
  have hr := toNat_ite_lt effective b.busyUntil
  unfold serve
  dsimp only
  rw [hb]
  dsimp only
  revert hr
  generalize (if effective < b.busyUntil then b.busyUntil else effective) = ready
  intro hr
  rw [← hr] at hfit ⊢
  have hopen : ∀ (r : U64) (pre : Option U64) (n : Nat), r.toNat = ready.toNat + n →
      WaitsFit s.cfg s.spacedFrom ready.toNat (some n) →
      ((pre = none ∧ n = 0) ∨ ∃ p, pre = some p ∧ p.toNat = ready.toNat ∧ n = s.cfg.tPre.toNat) →
      ∃ lat c s', s.openRow (s.bankIndex addr) (s.rowAddr addr) now r pre = (lat, c, s') ∧
          Served s addr ready.toNat (some n) c s' := by
    intro r pre n hrn hfit hpre
    have hfit : max (ready.toNat + n) s.spacedFrom + s.cfg.tRas.toNat < 2 ^ 64 := hfit
    rw [← hrn] at hfit
    obtain ⟨a, hact, ha⟩ := s.activate_eq r (by omega)
    rw [← ha] at hfit
    have hcol : (a + s.cfg.tRas).toNat = a.toNat + s.cfg.tRas.toNat := BitVec.toNat_add_of_lt hfit
    have heq : s.openRow (s.bankIndex addr) (s.rowAddr addr) now r pre =
        ((a - now) + s.cfg.tRas + s.cfg.tCas, ⟨s.bankIndex addr, pre, some a, a + s.cfg.tRas, a + s.cfg.tRas⟩,
          { s with
            banks := s.banks.set (s.bankIndex addr) ⟨some (s.rowAddr addr), a + s.cfg.tRas⟩
            lastActivateCycle := some a }) := by
      unfold openRow
      rw [hact]
      rfl
    refine ⟨_, _, _, heq, rfl, rfl, ⟨fun h => absurd h (Option.some_ne_none n), fun m hm => ?_⟩⟩
    obtain rfl := Option.some.inj hm
    exact ⟨a, rfl, by rw [ha, hrn], hcol, rfl, hpre⟩
  revert hfit
  unfold opening
  cases hrow : b.openRow with
  | none =>
    intro hfit
    obtain ⟨lat, c, s', heq, hserved⟩ := hopen ready none 0 rfl hfit (Or.inl ⟨rfl, rfl⟩)
    exact ⟨lat, c, s', congrArg some heq, hserved⟩
  | some r =>
    dsimp only
    by_cases hrr : r = s.rowAddr addr
    · rw [if_pos hrr, if_pos hrr]
      intro hfit
      unfold WaitsFit at hfit
      have hfreed : (ready + s.cfg.tCas).toNat = ready.toNat + s.cfg.tCas.toNat := BitVec.toNat_add_of_lt (by omega)
      refine ⟨_, _, _, rfl, ?_, rfl,
          ⟨fun _ => ⟨rfl, rfl, rfl, hfreed⟩, fun pre hpre => absurd hpre (Option.some_ne_none pre).symm⟩⟩
      rw [hrr]
      rfl
    · rw [if_neg hrr, if_neg hrr]
      intro hfit
      have hpre : (ready + s.cfg.tPre).toNat = ready.toNat + s.cfg.tPre.toNat := by
        unfold WaitsFit at hfit
        exact BitVec.toNat_add_of_lt (by omega)
      obtain ⟨lat, c, s', heq, hserved⟩ := hopen (ready + s.cfg.tPre) (some ready) s.cfg.tPre.toNat hpre hfit
        (Or.inr ⟨ready, rfl, rfl, rfl⟩)
      exact ⟨lat, c, s', congrArg some heq, hserved⟩

/-! ### What an access waits for -/

/-- A refresh is due at the request. -/
def RefreshDue (s : DramController) (now : U64) : Prop := s.cfg.tRefi ≠ 0 ∧ s.nextRefreshCycle ≤ now

instance (s : DramController) (now : U64) : Decidable (s.RefreshDue now) := inferInstanceAs (Decidable (_ ∧ _))

/-- The request, or the end of the refresh that is under way then. -/
def requestedAt (s : DramController) (now : U64) : Nat :=
  if s.RefreshDue now then max now.toNat (Windows.opened s.cfg.tRefi.toNat now.toNat + s.cfg.tRfc.toNat) else now.toNat

/-- When the bank may begin. -/
def readyAt (s : DramController) (b : BankState) (now : U64) : Nat := max (s.requestedAt now) b.busyUntil.toNat

/-- A refresh closes the row. -/
def rowAt (s : DramController) (b : BankState) (now : U64) : Option U64 := if s.RefreshDue now then none else b.openRow

structure Headroom (s : DramController) (addr now : U64) : Prop where
  refresh : s.RefreshDue now → Windows.opened s.cfg.tRefi.toNat now.toNat + s.cfg.tRefi.toNat < 2 ^ 64
  waits : ∀ b, s.banks[s.bankIndex addr]? = some b →
    WaitsFit s.cfg s.spacedFrom (s.readyAt b now) (s.opening (s.rowAt b now) addr)

/-- The waits of an access end outside the refreshes: for the bank, or for the precharge
and the spacing, and then for the activation. -/
def WaitsOut (cfg : DramConfig) (spaced ready : Nat) : Option Nat → Prop
  | none => Windows.Outside cfg.tRefi.toNat cfg.tRfc.toNat ready
  | some pre =>
    Windows.Outside cfg.tRefi.toNat cfg.tRfc.toNat (max (ready + pre) spaced) ∧
      Windows.Outside cfg.tRefi.toNat cfg.tRfc.toNat (max (ready + pre) spaced + cfg.tRas.toNat)

/-- The refreshes that are due come to an end, and no wait ends inside a later one. -/
structure Unhindered (s : DramController) (addr now : U64) : Prop where
  refresh : s.RefreshDue now → s.cfg.tRfc < s.cfg.tRefi
  waits : ∀ b, s.banks[s.bankIndex addr]? = some b →
    WaitsOut s.cfg s.spacedFrom (s.readyAt b now) (s.opening (s.rowAt b now) addr)

structure Inv (s : DramController) : Prop where
  banks : s.banks.length = s.cfg.numBanks
  due : s.cfg.tRefi ≠ 0 → ∃ m, Due s m

theorem new_inv (cfg : DramConfig) : (new cfg).Inv := by
  refine ⟨List.length_replicate, fun hz => ⟨1, Nat.le_refl 1, ?_⟩⟩
  have hpos : 0 < cfg.tRefi := (BitVec.pos_iff_ne_zero cfg.tRefi).mpr hz
  show (if 0 < cfg.tRefi then cfg.tRefi else BitVec.allOnes 64).toNat = _
  rw [if_pos hpos, Nat.one_mul]
  rfl

/-- A bank never becomes free earlier. -/
def Later (s s' : DramController) : Prop :=
  ∀ (j : Nat) (b : BankState), s.banks[j]? = some b →
    ∃ b' : BankState, s'.banks[j]? = some b' ∧ b.busyUntil.toNat ≤ b'.busyUntil.toNat

/-- The state in which the due refreshes are done, told by the one before. -/
structure Handled (s : DramController) (now : U64) (s₁ : DramController) (effective : U64) : Prop where
  cycle : effective.toNat = s.requestedAt now
  inv : s₁.Inv
  cfg : s₁.cfg = s.cfg
  mask : s₁.rowMask = s.rowMask
  shift : s₁.rowShift = s.rowShift
  last : s₁.lastActivateCycle = s.lastActivateCycle
  banks : ∀ (j : Nat) (b : BankState), s.banks[j]? = some b → ∃ b₁ : BankState, s₁.banks[j]? = some b₁ ∧
    b₁.openRow = s.rowAt b now ∧ b.busyUntil.toNat ≤ b₁.busyUntil.toNat ∧
        max effective.toNat b₁.busyUntil.toNat = s.readyAt b now

theorem handleRefresh_spec (hinv : s.Inv)
    (hroom : s.RefreshDue now → Windows.opened s.cfg.tRefi.toNat now.toNat + s.cfg.tRefi.toNat < 2 ^ 64)
    (hends : s.RefreshDue now → s.cfg.tRfc < s.cfg.tRefi) :
    ∃ fuel s₁ effective, handleRefresh fuel s now = some (s₁, effective) ∧ Handled s now s₁ effective := by
  by_cases hd : s.RefreshDue now
  · obtain ⟨m, hm⟩ := hinv.due hd.1
    have hpos : 0 < s.cfg.tRefi.toNat := (BitVec.pos_iff_ne_zero s.cfg.tRefi).mpr hd.1
    obtain ⟨fuel, s₁, effective, hloop, hdone⟩ := refreshLoop_spec hpos (hends hd) hm hd.2 (hroom hd)
    obtain ⟨stop, hstop, hbanks⟩ := hdone.banks
    have heff : effective.toNat = s.requestedAt now := by
      unfold requestedAt
      rw [if_pos hd]
      exact hdone.effective
    refine ⟨fuel, s₁, effective, (if_neg hd.1).trans hloop, heff, ⟨?_, fun _ => ⟨_, hdone.due⟩⟩, hdone.cfg, hdone.mask,
      hdone.shift, hdone.last, fun j b hb => ?_⟩
    · rw [hbanks, List.length_map, hdone.cfg]
      exact hinv.banks
    · refine ⟨_, by rw [hbanks, List.getElem?_map, hb]; rfl, ?_, ?_, ?_⟩
      · unfold rowAt
        rw [if_pos hd]
      · dsimp only
        rw [toNat_ite_lt]
        exact Nat.le_max_left _ _
      · unfold readyAt
        rw [← heff, toNat_ite_lt, hstop, hdone.effective]
        omega
  · have hend : ∃ fuel, handleRefresh fuel s now = some (s, now) := by
      unfold handleRefresh
      by_cases hz : s.cfg.tRefi = 0
      · exact ⟨0, if_pos hz⟩
      · have hlt : now < s.nextRefreshCycle := by
          by_contra hge
          exact hd ⟨hz, BitVec.not_lt.mp hge⟩
        exact ⟨0, (if_neg hz).trans (refreshLoop_done hlt 0)⟩
    have heff : now.toNat = s.requestedAt now := by
      unfold requestedAt
      rw [if_neg hd]
    obtain ⟨fuel, hend⟩ := hend
    refine ⟨fuel, s, now, hend, heff, hinv, rfl, rfl, rfl, rfl, fun j b hb => ⟨b, hb, ?_, Nat.le_refl _, ?_⟩⟩
    · unfold rowAt
      rw [if_neg hd]
    · unfold readyAt
      rw [← heff]

/-- What an access did, told by the state before it. -/
structure Accessed (s : DramController) (addr now : U64) (b : BankState) (c : DramCommands)
    (s' : DramController) : Prop where
  bank : c.bank = s.bankIndex addr
  timed : Timed s.cfg s.spacedFrom (s.readyAt b now) (s.opening (s.rowAt b now) addr) c
  inv : s'.Inv
  cfg : s'.cfg = s.cfg
  last : s'.lastActivateCycle = c.activate.or s.lastActivateCycle
  later : s.Later s'
  freed : ∃ b' : BankState, s'.banks[s.bankIndex addr]? = some b' ∧ b'.busyUntil = c.freed

/-- No command of the access is before the bank is ready, and the last one ends the access. -/
theorem Timed.le {cfg : DramConfig} {spaced ready : Nat} {wait : Option Nat} {c : DramCommands}
    (h : Timed cfg spaced ready wait c) :
    ready ≤ c.start.toNat ∧ c.start.toNat ≤ c.freed.toNat := by
  unfold DramCommands.start
  cases wait with
  | none =>
    obtain ⟨hp, ha, hc, hf⟩ := h.hit rfl
    rw [hp, ha]
    dsimp only [Option.getD_none]
    omega
  | some pre =>
    obtain ⟨a, ha, hat, hc, hf, hp⟩ := h.opens pre rfl
    rw [hf, ha]
    rcases hp with ⟨hp, -⟩ | ⟨p, hp, hpt, -⟩
    · rw [hp]
      dsimp only [Option.getD_none, Option.getD_some]
      omega
    · rw [hp]
      dsimp only [Option.getD_some]
      omega

/-- **An access whose refreshes come to an end.** -/
theorem access_spec {b : BankState} (hinv : s.Inv) (hb : s.banks[s.bankIndex addr]? = some b)
    (hroom : s.Headroom addr now)
    (hends : s.RefreshDue now → s.cfg.tRfc < s.cfg.tRefi) :
    ∃ fuel lat c s', access fuel s addr now = some (lat, c, s') ∧ Accessed s addr now b c s' := by
  obtain ⟨fuel, s₁, effective, hrefresh, hdone⟩ := handleRefresh_spec hinv hroom.refresh hends
  have hindex : s₁.bankIndex addr = s.bankIndex addr := by
    unfold bankIndex
    rw [hdone.shift, hdone.cfg]
  have hspaced : s₁.spacedFrom = s.spacedFrom := by
    unfold spacedFrom
    rw [hdone.last, hdone.cfg]
  obtain ⟨b₁, hb₁, hrow, hbusy, hready⟩ := hdone.banks _ b hb
  have hopening : s₁.opening b₁.openRow addr = s.opening (s.rowAt b now) addr := by
    unfold opening rowAddr
    rw [hrow, hdone.mask, hdone.cfg]
  rw [← hindex] at hb₁
  obtain ⟨lat, c, s', hserve, hserved⟩ := serve_spec now effective hb₁
    (by rw [hready, hdone.cfg, hspaced, hopening]; exact hroom.waits b hb)
  have htimed := hserved.timed
  rw [hready, hdone.cfg, hspaced, hopening] at htimed
  have hlen : s.bankIndex addr < s₁.banks.length := by
    obtain ⟨hlt, -⟩ := List.getElem?_eq_some_iff.mp hb₁
    rw [← hindex]
    exact hlt
  refine ⟨fuel, lat, c, s', ?_, hserved.bank.trans hindex, htimed, ⟨?_, ?_⟩, ?_, ?_, fun j b hj => ?_, ?_⟩
  · unfold access
    rw [hrefresh]
    exact hserve
  · rw [hserved.state]
    dsimp only
    rw [List.length_set]
    exact hdone.inv.banks
  · rw [hserved.state]
    exact hdone.inv.due
  · rw [hserved.state]
    exact hdone.cfg
  · rw [hserved.state]
    dsimp only
    rw [hdone.last]
  · obtain ⟨bj, hbj, -, hle, hj'⟩ := hdone.banks j b hj
    rw [hserved.state]
    dsimp only
    by_cases hij : s₁.bankIndex addr = j
    · subst hij
      refine ⟨⟨some (s₁.rowAddr addr), c.freed⟩, List.getElem?_set_self (by rw [hindex]; exact hlen), ?_⟩
      obtain ⟨hfrom, hto⟩ := htimed.le
      rw [hindex, hb] at hj
      obtain rfl := Option.some.inj hj
      have hmax : b.busyUntil.toNat ≤ s.readyAt b now := Nat.le_max_right _ _
      exact le_trans hmax (le_trans hfrom hto)
    · exact ⟨bj, (List.getElem?_set_ne hij).trans hbj, hle⟩
  · refine ⟨⟨some (s₁.rowAddr addr), c.freed⟩, ?_, rfl⟩
    rw [hserved.state]
    dsimp only
    rw [hindex]
    exact List.getElem?_set_self hlen

theorem access_unique {fuel fuel' : Nat} {r r' : U64 × DramCommands × DramController}
    (h : access fuel s addr now = some r)
    (h' : access fuel' s addr now = some r') : r' = r := by
  have hsum := access_mono h fuel'
  have hsum' := access_mono h' fuel
  rw [Nat.add_comm, hsum] at hsum'
  exact (Option.some.inj hsum').symm

/-! ### A refresh that is due closes the rows -/

/-- What the loop leaves once it has turned: the rows are closed and the request is over. -/
structure Closed (s : DramController) (now : U64) (s₁ : DramController) (effective : U64) : Prop where
  rows : ∀ b ∈ s₁.banks, b.openRow = none
  cfg : s₁.cfg = s.cfg
  last : s₁.lastActivateCycle = s.lastActivateCycle
  cycle : now.toNat ≤ effective.toNat

theorem refresh_rows (s : DramController) : ∀ b ∈ s.refresh.banks, b.openRow = none := by
  intro b hb
  obtain ⟨b₀, -, rfl⟩ := List.mem_map.mp hb
  rfl

theorem handleRefresh_closed {s₁ : DramController} (hd : s.RefreshDue now)
    (h : handleRefresh fuel s now = some (s₁, effective)) :
    Closed s now s₁ effective := by
  have hlater : ∀ now' : U64, ∀ stop : U64, now'.toNat ≤ (if now' < stop then stop else now').toNat := by
    intro now' stop
    rw [toNat_ite_lt]
    exact Nat.le_max_left _ _
  have hturn : ∀ s' effective', ¬effective' < s'.nextRefreshCycle → Closed s now s' effective' →
      Closed s now s'.refresh (if effective' < s'.nextRefreshCycle + s'.cfg.tRfc then
          s'.nextRefreshCycle + s'.cfg.tRfc else effective') :=
    fun s' effective' _ hc => ⟨refresh_rows s', hc.cfg, hc.last, le_trans hc.cycle (hlater effective' _)⟩
  unfold handleRefresh at h
  rw [if_neg hd.1] at h
  have hpast := BitVec.not_lt.mpr hd.2
  cases fuel with
  | zero =>
    rw [refreshLoop, if_neg hpast] at h
    cases h
  | succ fuel =>
    rw [refreshLoop_turn hpast] at h
    exact refreshLoop_keeps hturn h ⟨refresh_rows s, rfl, rfl, hlater now _⟩

/-- The access after it opens a row, and not before the interval is over. -/
theorem access_due {lat : U64} {c : DramCommands} (hinv : s.Inv) (hspaced : s.spacedFrom < 2 ^ 64)
    (hd : s.RefreshDue now)
    (h : access fuel s addr now = some (lat, c, s')) : ∃ a, c.activate = some a ∧ s.cfg.tRefi.toNat ≤ a.toNat := by
  obtain ⟨m, hm, hnext⟩ := hinv.due hd.1
  have hnow : s.cfg.tRefi.toNat ≤ now.toNat := by
    have hle : s.nextRefreshCycle.toNat ≤ now.toNat := hd.2
    rw [hnext] at hle
    exact le_trans (Nat.le_mul_of_pos_left _ hm) hle
  unfold access at h
  obtain ⟨⟨s₁, effective⟩, hrefresh, hserve⟩ := Option.bind_eq_some_iff.mp h
  have hclosed := handleRefresh_closed hd hrefresh
  have hroom : s₁.spacedFrom < 2 ^ 64 := by
    unfold spacedFrom
    rw [hclosed.last, hclosed.cfg]
    exact hspaced
  unfold serve at hserve
  dsimp only at hserve
  cases hb : s₁.banks[s₁.bankIndex addr]? with
  | none =>
    rw [hb] at hserve
    cases hserve
  | some bank =>
    rw [hb] at hserve
    dsimp only at hserve
    rw [hclosed.rows bank (List.mem_of_getElem? hb)] at hserve
    have hready := toNat_ite_lt effective bank.busyUntil
    obtain ⟨a, hact, ha⟩ := s₁.activate_eq (if effective < bank.busyUntil then bank.busyUntil else effective) hroom
    unfold openRow at hserve
    rw [hact] at hserve
    cases hserve
    refine ⟨a, rfl, ?_⟩
    have hcycle := hclosed.cycle
    omega

/-! ### Runs -/

/-- Requests as they come: an address and a cycle. -/
def run (fuel : Nat) : DramController → List (U64 × U64) → Option (List DramCommands × DramController)
  | s, [] => some ([], s)
  | s, (addr, now) :: rs =>
    (access fuel s addr now).bind fun a => (run fuel a.2.2 rs).map fun r => (a.2.1 :: r.1, r.2)

/-- What holds at every request, in the state that it meets. -/
def Along (P : DramController → U64 → U64 → Prop) : DramController → List (U64 × U64) → Prop
  | _, [] => True
  | s, (addr, now) :: rs => P s addr now ∧ ∀ fuel a, access fuel s addr now = some a → Along P a.2.2 rs

variable {rs : List (U64 × U64)} {cs : List DramCommands}

theorem run_cons_iff {r : List DramCommands × DramController} : run fuel s ((addr, now) :: rs) = some r ↔
    ∃ lat c s', access fuel s addr now = some (lat, c, s') ∧ ∃ cs t, run fuel s' rs = some (cs, t) ∧
        r = (c :: cs, t) := by
  rw [run]
  constructor
  · intro h
    obtain ⟨⟨lat, c, s'⟩, ha, hr⟩ := Option.bind_eq_some_iff.mp h
    obtain ⟨⟨cs, t⟩, hrun, heq⟩ := Option.map_eq_some_iff.mp hr
    exact ⟨lat, c, s', ha, cs, t, hrun, heq.symm⟩
  · rintro ⟨lat, c, s', ha, cs, t, hrun, rfl⟩
    rw [ha, Option.bind_some, hrun, Option.map_some]

theorem run_mono {r : List DramCommands × DramController} (h : run fuel s rs = some r) (k : Nat) :
    run (fuel + k) s rs = some r := by
  induction rs generalizing s r with
  | nil => exact h
  | cons q rs ih =>
    obtain ⟨lat, c, s', ha, cs, t, hrun, rfl⟩ := run_cons_iff.mp h
    exact run_cons_iff.mpr ⟨lat, c, s', access_mono ha k, cs, t, ih hrun, rfl⟩

theorem run_unique {fuel fuel' : Nat} {r r' : List DramCommands × DramController} (h : run fuel s rs = some r)
    (h' : run fuel' s rs = some r') : r' = r := by
  have hsum := run_mono h fuel'
  have hsum' := run_mono h' fuel
  rw [Nat.add_comm, hsum] at hsum'
  exact (Option.some.inj hsum').symm

/-! ### Legal commands -/

structure Legal (cfg : DramConfig) (cs : List DramCommands) : Prop where
  ordered : ∀ c ∈ cs, c.Ordered cfg
  spaced : (cs.filterMap DramCommands.activate).IsChain fun a b => a.toNat + cfg.tRrd.toNat ≤ b.toNat
  free : cs.Pairwise fun c d => c.bank = d.bank → c.freed.toNat ≤ d.start.toNat
  clear : ∀ c ∈ cs, c.Clear cfg

/-- The commands keep to the banks and to the last activation of the state. -/
structure From (s : DramController) (cs : List DramCommands) : Prop where
  busy : ∀ c ∈ cs, ∀ b, s.banks[c.bank]? = some b → b.busyUntil.toNat ≤ c.start.toNat
  spaced : ∀ a ∈ (cs.filterMap DramCommands.activate).head?, s.spacedFrom ≤ a.toNat

theorem Timed.ordered {cfg : DramConfig} {spaced ready : Nat} {wait : Option Nat} {c : DramCommands}
    (h : Timed cfg spaced ready wait c) : c.Ordered cfg := by
  intro a ha
  cases wait with
  | none =>
    obtain ⟨-, hnone, -⟩ := h.hit rfl
    rw [hnone] at ha
    cases ha
  | some pre =>
    obtain ⟨a', ha', hat, hc, -, hp⟩ := h.opens pre rfl
    rw [ha'] at ha
    cases ha
    refine ⟨Nat.le_of_eq hc.symm, fun p hmem => ?_⟩
    rcases hp with ⟨hnone, -⟩ | ⟨p', hp', hpt, hpre⟩
    · rw [hnone] at hmem
      cases hmem
    · rw [hp'] at hmem
      cases hmem
      omega

variable {b : BankState} {c : DramCommands}

theorem Timed.clear_iff {cfg : DramConfig} {spaced ready : Nat} {wait : Option Nat}
    (h : Timed cfg spaced ready wait c) :
    c.Clear cfg ↔ WaitsOut cfg spaced ready wait := by
  unfold DramCommands.Clear WaitsOut
  cases wait with
  | none =>
    obtain ⟨-, hnone, hc, -⟩ := h.hit rfl
    rw [hnone, hc]
    exact and_iff_left fun a ha => nomatch ha
  | some pre =>
    obtain ⟨a, ha, hat, hc, -⟩ := h.opens pre rfl
    dsimp only
    rw [ha, hc, ← hat]
    constructor
    · exact fun ⟨hcol, hact⟩ => ⟨hact a rfl, hcol⟩
    · rintro ⟨hact, hcol⟩
      refine ⟨hcol, fun a' ha' => ?_⟩
      cases ha'
      exact hact

/-- An activation is not before the spacing allows it. -/
theorem Timed.spaced_le {cfg : DramConfig} {spaced ready : Nat} {wait : Option Nat} {a : U64}
    (h : Timed cfg spaced ready wait c)
    (ha : c.activate = some a) : spaced ≤ a.toNat := by
  cases wait with
  | none =>
    obtain ⟨-, hnone, -⟩ := h.hit rfl
    rw [hnone] at ha
    cases ha
  | some pre =>
    obtain ⟨a', ha', hat, -⟩ := h.opens pre rfl
    rw [ha'] at ha
    cases ha
    rw [hat]
    exact Nat.le_max_right _ _

theorem Accessed.spacedFrom_eq (h : Accessed s addr now b c s') :
    s'.spacedFrom = c.activate.elim s.spacedFrom fun a => a.toNat + s.cfg.tRrd.toNat := by
  unfold spacedFrom
  rw [h.last, h.cfg]
  cases c.activate with
  | none => rfl
  | some a => rfl

/-- **One more access before legal ones.** -/
theorem Accessed.cons (h : Accessed s addr now b c s') (hb : s.banks[s.bankIndex addr]? = some b)
    (hclear : c.Clear s.cfg)
    (hlegal : Legal s.cfg cs) (hfrom : From s' cs) : Legal s.cfg (c :: cs) ∧ From s (c :: cs) := by
  obtain ⟨hstart, -⟩ := h.timed.le
  have hready : b.busyUntil.toNat ≤ s.readyAt b now := Nat.le_max_right _ _
  have hspaced := h.spacedFrom_eq
  have hheads : (∀ a ∈ c.activate, ∀ a' ∈ (cs.filterMap DramCommands.activate).head?,
      a.toNat + s.cfg.tRrd.toNat ≤ a'.toNat) := by
    intro a ha a' ha'
    have hle := hfrom.spaced a' ha'
    rw [hspaced, Option.mem_def.mp ha] at hle
    exact hle
  refine ⟨⟨?_, ?_, ?_, ?_⟩, ?_, ?_⟩
  · exact List.forall_mem_cons.mpr ⟨h.timed.ordered, hlegal.ordered⟩
  · cases ha : c.activate with
    | none =>
      rw [List.filterMap_cons_none ha]
      exact hlegal.spaced
    | some a =>
      rw [List.filterMap_cons_some ha, List.isChain_cons]
      exact ⟨hheads a ha, hlegal.spaced⟩
  · refine List.pairwise_cons.mpr ⟨fun d hd hbank => ?_, hlegal.free⟩
    obtain ⟨b', hb', hfreed⟩ := h.freed
    rw [← hfreed]
    refine hfrom.busy d hd b' ?_
    rw [← hbank, h.bank]
    exact hb'
  · exact List.forall_mem_cons.mpr ⟨hclear, hlegal.clear⟩
  · refine List.forall_mem_cons.mpr ⟨fun b₀ hb₀ => ?_, fun d hd b₀ hb₀ => ?_⟩
    · rw [h.bank, hb] at hb₀
      obtain rfl := Option.some.inj hb₀
      exact le_trans hready hstart
    · obtain ⟨b', hb', hle⟩ := h.later _ b₀ hb₀
      exact le_trans hle (hfrom.busy d hd b' hb')
  · intro a ha
    cases hact : c.activate with
    | none =>
      rw [List.filterMap_cons_none hact] at ha
      have hle := hfrom.spaced a ha
      rw [hspaced, hact] at hle
      exact hle
    | some a' =>
      rw [List.filterMap_cons_some hact] at ha
      cases ha
      exact h.timed.spaced_le hact

theorem Inv.bank (hinv : s.Inv) (hbanks : 0 < s.cfg.numBanks) (addr : U64) :
    ∃ b, s.banks[s.bankIndex addr]? = some b := by
  refine ⟨_, List.getElem?_eq_getElem ?_⟩
  rw [hinv.banks]
  exact Nat.mod_lt _ hbanks

/-- Unhindered requests come to legal commands. -/
theorem run_legal (hinv : s.Inv) (hbanks : 0 < s.cfg.numBanks) (hroom : Along Headroom s rs)
    (hfree : Along Unhindered s rs) :
    ∃ fuel cs t, run fuel s rs = some (cs, t) ∧ Legal s.cfg cs ∧ From s cs := by
  induction rs generalizing s with
  | nil =>
    refine ⟨0, [], s, rfl, ⟨?_, List.isChain_nil, List.Pairwise.nil, ?_⟩, ?_, ?_⟩
    · exact fun c hc => nomatch hc
    · exact fun c hc => nomatch hc
    · exact fun c hc => nomatch hc
    · exact fun a ha => nomatch ha
  | cons q rs ih =>
    obtain ⟨addr, now⟩ := q
    obtain ⟨b, hb⟩ := hinv.bank hbanks addr
    obtain ⟨fuel, lat, c, s', ha, hacc⟩ := access_spec hinv hb hroom.1 hfree.1.refresh
    have hclear := hacc.timed.clear_iff.mpr (hfree.1.waits b hb)
    obtain ⟨fuel', cs, t, hrun, hlegal, hfrom⟩ :=
      ih hacc.inv (by rw [hacc.cfg]; exact hbanks) (hroom.2 _ _ ha) (hfree.2 _ _ ha)
    rw [hacc.cfg] at hlegal
    have hlonger : run (fuel + fuel') s ((addr, now) :: rs) = some (c :: cs, t) := by
      refine run_cons_iff.mpr ⟨lat, c, s', access_mono ha fuel', cs, t, ?_, rfl⟩
      rw [Nat.add_comm]
      exact run_mono hrun fuel
    exact ⟨fuel + fuel', c :: cs, t, hlonger, hacc.cons hb hclear hlegal hfrom⟩

/-- Commands that keep out of the refreshes come from unhindered requests. -/
theorem run_unhindered {fuel : Nat} {t : DramController} (hinv : s.Inv) (hbanks : 0 < s.cfg.numBanks)
    (hroom : Along Headroom s rs)
    (hrun : run fuel s rs = some (cs, t)) (hclear : ∀ c ∈ cs, c.Clear s.cfg) : Along Unhindered s rs := by
  induction rs generalizing s cs with
  | nil => trivial
  | cons q rs ih =>
    obtain ⟨addr, now⟩ := q
    obtain ⟨lat, c, s', ha, cs', t', hrun', heq⟩ := run_cons_iff.mp hrun
    obtain ⟨rfl, rfl⟩ := Prod.mk.inj heq
    obtain ⟨hc, hcs⟩ := List.forall_mem_cons.mp hclear
    obtain ⟨b, hb⟩ := hinv.bank hbanks addr
    have hends : s.RefreshDue now → s.cfg.tRfc < s.cfg.tRefi := by
      intro hd
      by_contra hfull
      -- the windows leave no room, and the row was closed
      have hspaced : s.spacedFrom < 2 ^ 64 := by
        have hfit := hroom.1.waits b hb
        unfold rowAt at hfit
        rw [if_pos hd] at hfit
        unfold opening WaitsFit at hfit
        dsimp only at hfit
        omega
      obtain ⟨a, hact, hle⟩ := access_due hinv hspaced hd ha
      have hpos : 0 < s.cfg.tRefi.toNat := (BitVec.pos_iff_ne_zero s.cfg.tRefi).mpr hd.1
      exact Windows.not_outside_of_full hpos (Nat.not_lt.mp hfull) hle (hc.2 a hact)
    obtain ⟨fuel', lat', c', s'', ha', hacc⟩ := access_spec hinv hb hroom.1 hends
    cases access_unique ha ha'
    refine ⟨⟨hends, fun b' hb' => ?_⟩, fun fuel'' r hr => ?_⟩
    · rw [hb] at hb'
      cases hb'
      exact hacc.timed.clear_iff.mp hc
    · cases access_unique ha hr
      refine ih hacc.inv (by rw [hacc.cfg]; exact hbanks) (hroom.2 _ _ ha) hrun' ?_
      rw [hacc.cfg]
      exact hcs

/-- **The commands are legal in the runs in which no wait ends inside a refresh**, and in
no others. -/
theorem timing_right {cfg : DramConfig} (hbanks : 0 < cfg.numBanks) (rs : List (U64 × U64))
    (hroom : Along Headroom (new cfg) rs) :
    (∃ fuel cs t, run fuel (new cfg) rs = some (cs, t) ∧ Legal cfg cs) ↔ Along Unhindered (new cfg) rs := by
  constructor
  · rintro ⟨fuel, cs, t, hrun, hlegal⟩
    exact run_unhindered (new_inv cfg) hbanks hroom hrun hlegal.clear
  · intro hfree
    obtain ⟨fuel, cs, t, hrun, hlegal, -⟩ := run_legal (new_inv cfg) hbanks hroom hfree
    exact ⟨fuel, cs, t, hrun, hlegal⟩

/-- Two requests for two rows of a bank, the later one when a refresh is due. -/
theorem timing_right_apart : Along Unhindered (new ⟨5, 10, 8, 4, 2, 2048, 100, 20⟩) [(0, 10), (0x1000, 100)] := by
  have hbank : (new ⟨5, 10, 8, 4, 2, 2048, 100, 20⟩).banks[(new ⟨5, 10, 8, 4, 2, 2048, 100, 20⟩).bankIndex 0]? =
      some ⟨none, 0⟩ := by
    decide +kernel
  have hfirst : access 1 (new ⟨5, 10, 8, 4, 2, 2048, 100, 20⟩) 0 10 = some (15, ⟨0, none, some 10, 20, 20⟩,
      ⟨⟨5, 10, 8, 4, 2, 2048, 100, 20⟩, [⟨some 0, 20⟩, ⟨none, 0⟩], ~~~2047, 11, some 10, 100⟩) := by decide +kernel
  have hbank' : ([⟨some 0, 20⟩, ⟨none, 0⟩] : List BankState)[bankIndex
      ⟨⟨5, 10, 8, 4, 2, 2048, 100, 20⟩, [⟨some 0, 20⟩, ⟨none, 0⟩], ~~~2047, 11, some 10, 100⟩ 0x1000]? =
          some ⟨some 0, 20⟩ := by
    decide
  have hroom : Along Headroom (new ⟨5, 10, 8, 4, 2, 2048, 100, 20⟩) [(0, 10), (0x1000, 100)] := by
    refine ⟨⟨by decide, fun b hb => ?_⟩, fun fuel a ha => ?_⟩
    · rw [hbank] at hb
      cases hb
      decide
    · cases access_unique hfirst ha
      refine ⟨⟨by decide, fun b hb => ?_⟩, fun _ _ _ => trivial⟩
      rw [hbank'] at hb
      cases hb
      decide
  have hrun : (run 2 (new ⟨5, 10, 8, 4, 2, 2048, 100, 20⟩) [(0, 10), (0x1000, 100)]).map Prod.fst =
      some [⟨0, none, some 10, 20, 20⟩, ⟨0, none, some 120, 130, 130⟩] := by decide +kernel
  obtain ⟨⟨cs, t⟩, hrun, hcs⟩ := Option.map_eq_some_iff.mp hrun
  cases hcs
  refine (timing_right (by decide) _ hroom).mp ⟨2, _, t, hrun, ?_, ?_, ?_, ?_⟩
  · refine List.forall_mem_cons.mpr ⟨fun a ha => ?_, List.forall_mem_singleton.mpr fun a ha => ?_⟩
    · cases ha
      exact ⟨by decide, fun p hp => nomatch hp⟩
    · cases ha
      exact ⟨by decide, fun p hp => nomatch hp⟩
  · exact List.isChain_pair.mpr (by decide)
  · decide
  · refine List.forall_mem_cons.mpr
      ⟨⟨by decide, fun a ha => ?_⟩, List.forall_mem_singleton.mpr ⟨by decide, fun a ha => ?_⟩⟩
    · cases ha
      decide
    · cases ha
      decide

/-- **A precharge pushes the activation into a refresh.** -/
theorem timing_pushed : [((0 : U64), (0 : U64)), (0x1000, 95)].Pairwise (fun r r' => r.2 ≤ r'.2) ∧
    ¬∃ fuel cs t, run fuel (new ⟨5, 10, 8, 4, 2, 2048, 100, 20⟩) [(0, 0), (0x1000, 95)] = some (cs, t) ∧
      Legal ⟨5, 10, 8, 4, 2, 2048, 100, 20⟩ cs := by
  refine ⟨by decide, ?_⟩
  rintro ⟨fuel, cs, t, hrun, hlegal⟩
  have hpushed : (run 1 (new ⟨5, 10, 8, 4, 2, 2048, 100, 20⟩) [(0, 0), (0x1000, 95)]).map Prod.fst =
      some [⟨0, none, some 0, 10, 10⟩, ⟨0, some 95, some 103, 113, 113⟩] := by decide +kernel
  obtain ⟨r, hr, hcs⟩ := Option.map_eq_some_iff.mp hpushed
  cases run_unique hr hrun
  cases hcs
  have hin := (hlegal.clear _ (List.mem_cons_of_mem _ List.mem_cons_self)).2 103 rfl
  exact absurd hin (by decide)

end DramController

end Rvsim
