/-
# Time

Time is kept twice: the CLINT counts its divided `mtime`, and the core divides
its cycle counter, which is also `mcycle` and the clock of the DRAM controller.
The two agree over a run exactly as long as no write moves one of them alone,
and the Sstc comparison, which reads the cycle counter before it is advanced
and after the CLINT has ticked, sees the CLINT's time in every cycle but those
in which `mtime` advances.

Key definitions:
  - `Clint`, `TimeRun`, `TimeEvent`, `TimeRun.OneTimeBase`, `TimeRun.Keeps`
Key theorems:
  - `Cpu.preTick_stip`, `TimeRun.step_iff`, `TimeRun.InPhase.step`
  - `TimeRun.oneTimeBase_iff`, `TimeRun.untouched_iff`
-/
import Rvsim.Config
import Rvsim.Pipeline

namespace Rvsim

variable {U : Type}

/-! ### The CLINT -/

structure Clint where
  mtime : U64
  mtimecmp : U64
  msip : U32
  divider : U64
  counter : U64
  deriving DecidableEq, Repr

namespace Clint

def MSIP_OFFSET : U64 := 0x0000
def MTIMECMP_OFFSET : U64 := 0x4000
def MTIME_OFFSET : U64 := 0xBFF8

def new (divider : U64) : Clint := ⟨0, BitVec.allOnes 64, 0, if divider = 0 then 1 else divider, 0⟩

def readU64 (c : Clint) (offset : U64) : U64 :=
  if offset = MSIP_OFFSET then c.msip.setWidth 64
  else if offset = MTIMECMP_OFFSET then c.mtimecmp
  else if offset = MTIME_OFFSET then c.mtime
  else 0

/-- A new lower half. -/
def setLow (old : U64) (val : U32) : U64 := (old &&& 0xFFFFFFFF00000000) ||| val.setWidth 64

/-- A new upper half. -/
def setHigh (old : U64) (val : U32) : U64 := (old &&& 0x00000000FFFFFFFF) ||| (val.setWidth 64 <<< 32)

def writeU32 (c : Clint) (offset : U64) (val : U32) : Clint :=
  if offset = MSIP_OFFSET then { c with msip := val &&& 1 }
  else if offset = MTIMECMP_OFFSET then { c with mtimecmp := setLow c.mtimecmp val }
  else if offset = MTIMECMP_OFFSET + 4 then { c with mtimecmp := setHigh c.mtimecmp val }
  else if offset = MTIME_OFFSET then { c with mtime := setLow c.mtime val }
  else if offset = MTIME_OFFSET + 4 then { c with mtime := setHigh c.mtime val }
  else c

def writeU64 (c : Clint) (offset : U64) (val : U64) : Clint :=
  if offset = MSIP_OFFSET then { c with msip := val.setWidth 32 &&& 1 }
  else if offset = MTIMECMP_OFFSET then { c with mtimecmp := val }
  else if offset = MTIME_OFFSET then { c with mtime := val }
  else c

/-- The divided counter is about to wrap. -/
def wraps (c : Clint) : Bool := c.counter + 1 ≥ c.divider

def tick (c : Clint) : Bool × Clint :=
  let c := { c with counter := c.counter + 1 }
  let c := if c.counter ≥ c.divider then { c with mtime := c.mtime + 1, counter := 0 } else c
  (c.mtime ≥ c.mtimecmp, c)

theorem tick_mtime (c : Clint) : c.tick.2.mtime = if c.wraps then c.mtime + 1 else c.mtime := by
  unfold tick wraps
  by_cases h : c.counter + 1 ≥ c.divider
  · simp only [if_pos h, decide_eq_true h, if_true]
  · simp only [if_neg h, decide_eq_false h, Bool.false_eq_true, if_false]

theorem tick_divider (c : Clint) : c.tick.2.divider = c.divider := by
  unfold tick
  dsimp only
  split <;> rfl

theorem tick_counter (c : Clint) : c.tick.2.counter = if c.wraps then 0 else c.counter + 1 := by
  unfold tick wraps
  by_cases h : c.counter + 1 ≥ c.divider
  · simp only [if_pos h, decide_eq_true h, if_true]
  · simp only [if_neg h, decide_eq_false h, Bool.false_eq_true, if_false]

end Clint

/-! ### What the core takes for the time -/

namespace Cpu

/-- The Sstc comparison is on. -/
def sstc (c : Cpu U) : Bool := c.csrs.menvcfg &&& Csr.menvcfgStce != 0

/-- The time that `pre_tick` compares with `stimecmp`. -/
def sstcTime (c : Cpu U) : U64 := c.cycles / c.clintDivider

def stip (c : Cpu U) : Bool := c.csrs.mip.getLsbD 5

theorem csrRead_time (c : Cpu U) : c.csrRead Csr.time = c.cycles / c.clintDivider := rfl

theorem setBit_stip (m : U64) (b : Bool) : (setBit m Csr.mipStip b).getLsbD 5 = b := by
  cases b <;> simp [setBit, Csr.mipStip]

/-- The comparison sets `STIP`. -/
theorem preTick_stip [Units U] {c : Cpu U} (hx : Units.checkExit c.units = none) (hs : c.sstc = true) :
    c.preTick.2.stip = decide (c.csrs.stimecmp ≤ c.sstcTime) := by
  have hne : c.csrs.menvcfg &&& Csr.menvcfgStce ≠ 0 := by simpa [sstc] using hs
  unfold preTick stip
  rw [hx]
  dsimp only
  rw [updateMip]
  dsimp only
  rw [if_pos hne, setBit_stip]
  rfl

theorem preTick_cycles [Units U] {c : Cpu U} (hx : Units.checkExit c.units = none) :
    c.preTick.2.cycles = c.cycles + 1 ∧ c.preTick.2.clintDivider = c.clintDivider := by
  unfold preTick
  rw [hx]
  exact ⟨rfl, rfl⟩

theorem preTick_exited [Units U] {c : Cpu U} {code : U64} (hx : Units.checkExit c.units = some code) :
    c.preTick.2.cycles = c.cycles ∧ c.preTick.2.clintDivider = c.clintDivider := by
  unfold preTick
  rw [hx]
  exact ⟨rfl, rfl⟩

theorem csrWrite_cycles [Units U] (c : Cpu U) {a : CsrAddr} (ha : a ≠ Csr.mcycle) (v : U64) :
    (c.csrWrite a v).cycles = c.cycles ∧ (c.csrWrite a v).clintDivider = c.clintDivider := by
  have hc : (c.trap (.requestedTrap v) c.pc).cycles = c.cycles := by
    simp only [trap, trapToS, trapToM, apply_ite Cpu.cycles, ite_self]
  have hd : (c.trap (.requestedTrap v) c.pc).clintDivider = c.clintDivider := by
    simp only [trap, trapToS, trapToM, apply_ite Cpu.clintDivider, ite_self]
  constructor
  · simp only [csrWrite, if_neg ha, apply_ite Cpu.cycles, hc, ite_self]
  · simp only [csrWrite, apply_ite Cpu.clintDivider, hd, ite_self]

end Cpu

/-! ### Runs -/

inductive TimeEvent (U : Type) where
  | tick
  | csrWrite (addr : CsrAddr) (val : U64)
  | clintWriteU32 (offset : U64) (val : U32)
  | clintWriteU64 (offset : U64) (val : U64)
  /-- The DRAM controller is given the cycle counter. -/
  | dram
  /-- Anything else: it leaves the cycle counter and the divider alone. -/
  | other (f : Cpu U → Cpu U)

/-- The hart and the CLINT, and the cycle numbers given to the DRAM controller so far. -/
structure TimeRun (U : Type) where
  cpu : Cpu U
  clint : Clint
  given : List U64

namespace TimeRun

variable [Units U]

def init (cfg : Config) (mem : Mem) (u : U) : TimeRun U := ⟨Cpu.new cfg mem u, Clint.new cfg.clintDivider, []⟩

/-- The simulator has exited: `pre_tick` does nothing any more. -/
def exited (s : TimeRun U) : Bool := (Units.checkExit s.cpu.units).isSome

def step (s : TimeRun U) : TimeEvent U → TimeRun U
  | .tick =>
    if s.exited then { s with cpu := s.cpu.preTick.2 }
    else { s with cpu := s.cpu.preTick.2, clint := s.clint.tick.2 }
  | .csrWrite addr val => { s with cpu := s.cpu.csrWrite addr val }
  | .clintWriteU32 offset val => { s with clint := s.clint.writeU32 offset val }
  | .clintWriteU64 offset val => { s with clint := s.clint.writeU64 offset val }
  | .dram => { s with given := s.given ++ [s.cpu.cycles] }
  | .other f => { s with cpu := { f s.cpu with cycles := s.cpu.cycles, clintDivider := s.cpu.clintDivider } }

omit [Units U] in
/-- The `time` CSR reads the CLINT's `mtime`, and no division by zero. -/
def Same (s : TimeRun U) : Prop := s.cpu.clintDivider ≠ 0 ∧ s.cpu.csrRead Csr.time = s.clint.mtime

/-- What an event has to respect: the comparison of a cycle is with the CLINT's time in that cycle, and a write
to `mcycle` changes neither `time` nor `STIP`, and does not take the DRAM controller back. -/
def Right (s : TimeRun U) : TimeEvent U → Prop
  | .tick => s.exited = false → s.cpu.sstc = true → s.cpu.sstcTime = (s.step .tick).clint.mtime
  | .csrWrite addr val => addr = Csr.mcycle →
      (s.step (.csrWrite addr val)).cpu.csrRead Csr.time = s.cpu.csrRead Csr.time ∧
      (s.step (.csrWrite addr val)).cpu.stip = s.cpu.stip ∧
      ∀ n ∈ s.given, n ≤ (s.step (.csrWrite addr val)).cpu.cycles
  | _ => True

/-- One time base over the whole run. -/
def OneTimeBase (s : TimeRun U) : List (TimeEvent U) → Prop
  | [] => s.Same
  | ev :: evs => s.Same ∧ s.Right ev ∧ OneTimeBase (s.step ev) evs

/-- The events that keep the two times together: a tick where the CLINT's counter wraps only with Sstc off,
and exactly when the cycle counter enters the next tick of the timer; a write to `mcycle` within the tick it is in and
not below a number the DRAM controller has seen; a write to `mtime` of the value it has. -/
def Keeps (s : TimeRun U) : TimeEvent U → Prop
  | .tick => s.exited = false → (s.cpu.sstc = true → s.clint.wraps = false) ∧
      (s.cpu.cycles + 1) / s.cpu.clintDivider = s.cpu.cycles / s.cpu.clintDivider + (if s.clint.wraps then 1 else 0)
  | .csrWrite addr val => addr = Csr.mcycle →
      val / s.cpu.clintDivider = s.cpu.cycles / s.cpu.clintDivider ∧ ∀ n ∈ s.given, n ≤ val
  | .clintWriteU32 offset val => (s.clint.writeU32 offset val).mtime = s.clint.mtime
  | .clintWriteU64 offset val => (s.clint.writeU64 offset val).mtime = s.clint.mtime
  | _ => True

def Always (P : TimeRun U → TimeEvent U → Prop) (s : TimeRun U) : List (TimeEvent U) → Prop
  | [] => True
  | ev :: evs => P s ev ∧ Always P (s.step ev) evs

theorem step_tick {s : TimeRun U} (hx : s.exited = false) :
    (s.step .tick).cpu.cycles = s.cpu.cycles + 1 ∧ (s.step .tick).cpu.clintDivider = s.cpu.clintDivider ∧
      (s.step .tick).clint = s.clint.tick.2 := by
  have hnone : Units.checkExit s.cpu.units = none := by simpa [exited] using hx
  obtain ⟨h1, h2⟩ := Cpu.preTick_cycles hnone
  unfold step
  rw [if_neg (by simp [hx])]
  exact ⟨h1, h2, rfl⟩

theorem step_tick_exited {s : TimeRun U} (hx : s.exited = true) :
    (s.step .tick).cpu.cycles = s.cpu.cycles ∧ (s.step .tick).cpu.clintDivider = s.cpu.clintDivider ∧
      (s.step .tick).clint = s.clint := by
  obtain ⟨code, hcode⟩ := Option.isSome_iff_exists.mp hx
  obtain ⟨h1, h2⟩ := Cpu.preTick_exited hcode
  unfold step
  rw [if_pos hx]
  exact ⟨h1, h2, rfl⟩

omit [Units U] in
theorem same_iff {s s' : TimeRun U} (hd : s'.cpu.clintDivider = s.cpu.clintDivider) (h : s.Same) :
    s'.Same ↔ s'.cpu.cycles / s.cpu.clintDivider = s'.clint.mtime := by
  unfold Same
  rw [Cpu.csrRead_time, hd]
  exact ⟨fun hs => hs.2, fun hs => ⟨h.1, hs⟩⟩

/-- **One event.** From a state where the times agree, it is right and leaves them so exactly when it keeps
them together. -/
theorem step_iff {s : TimeRun U} (h : s.Same) (ev : TimeEvent U) :
    s.Right ev ∧ (s.step ev).Same ↔ s.Keeps ev := by
  have htime : s.cpu.cycles / s.cpu.clintDivider = s.clint.mtime := h.2
  cases ev with
  | tick =>
    by_cases hx : s.exited = true
    · obtain ⟨h1, h2, h3⟩ := step_tick_exited hx
      refine ⟨fun _ hn => ?_, fun _ => ⟨fun hn => ?_, ?_⟩⟩
      · rw [hx] at hn
        cases hn
      · rw [hx] at hn
        cases hn
      · rw [same_iff h2 h, h1, h3]
        exact htime
    · have hx : s.exited = false := by simpa using hx
      obtain ⟨h1, h2, h3⟩ := step_tick hx
      have hsame := same_iff h2 h
      rw [h1, h3, Clint.tick_mtime] at hsame
      have hright : s.Right .tick ↔ (s.cpu.sstc = true → s.clint.wraps = false) := by
        unfold Right
        rw [h3, Clint.tick_mtime, Cpu.sstcTime, htime]
        cases hw : s.clint.wraps with
        | false => simp
        | true => simp [hx]
      unfold Keeps
      rw [hright, hsame, htime]
      cases hw : s.clint.wraps with
      | false => simp [hx]
      | true => simp [hx]
  | csrWrite addr val =>
    by_cases ha : addr = Csr.mcycle
    · subst ha
      have hcpu : (s.step (.csrWrite Csr.mcycle val)).cpu = { s.cpu with cycles := val } := rfl
      have hd : (s.step (.csrWrite Csr.mcycle val)).cpu.clintDivider = s.cpu.clintDivider := rfl
      rw [same_iff hd h]
      unfold Right Keeps
      rw [hcpu]
      constructor
      · rintro ⟨hr, -⟩ -
        obtain ⟨ht, -, hg⟩ := hr rfl
        exact ⟨ht, hg⟩
      · intro hk
        obtain ⟨ht, hg⟩ := hk rfl
        exact ⟨fun _ => ⟨ht, rfl, hg⟩, ht.trans htime⟩
    · obtain ⟨h1, h2⟩ := Cpu.csrWrite_cycles s.cpu ha val
      have hsame : (s.step (.csrWrite addr val)).Same := by
        rw [same_iff (s := s) h2 h]
        show (s.cpu.csrWrite addr val).cycles / s.cpu.clintDivider = s.clint.mtime
        rw [h1]
        exact htime
      exact ⟨fun _ hn => absurd hn ha, fun _ => ⟨fun hn => absurd hn ha, hsame⟩⟩
  | clintWriteU32 offset val =>
    have hd : (s.step (.clintWriteU32 offset val)).cpu.clintDivider = s.cpu.clintDivider := rfl
    rw [same_iff hd h]
    show True ∧ s.cpu.cycles / s.cpu.clintDivider = (s.clint.writeU32 offset val).mtime ↔ _
    rw [htime]
    exact ⟨fun hs => hs.2.symm, fun hs => ⟨trivial, hs.symm⟩⟩
  | clintWriteU64 offset val =>
    have hd : (s.step (.clintWriteU64 offset val)).cpu.clintDivider = s.cpu.clintDivider := rfl
    rw [same_iff hd h]
    show True ∧ s.cpu.cycles / s.cpu.clintDivider = (s.clint.writeU64 offset val).mtime ↔ _
    rw [htime]
    exact ⟨fun hs => hs.2.symm, fun hs => ⟨trivial, hs.symm⟩⟩
  | dram => exact ⟨fun _ => trivial, fun _ => ⟨trivial, h⟩⟩
  | other f =>
    refine ⟨fun _ => trivial, fun _ => ⟨trivial, ?_⟩⟩
    have hd : (s.step (.other f)).cpu.clintDivider = s.cpu.clintDivider := rfl
    exact (same_iff hd h).mpr htime

/-- A run agrees throughout exactly when it starts so and every event keeps it. -/
theorem oneTimeBase_run (s : TimeRun U) (evs : List (TimeEvent U)) :
    s.OneTimeBase evs ↔ s.Same ∧ s.Always Keeps evs := by
  induction evs generalizing s with
  | nil => exact ⟨fun h => ⟨h, trivial⟩, fun h => h.1⟩
  | cons ev evs ih =>
    constructor
    · rintro ⟨h, hr, hrest⟩
      obtain ⟨hsame, hk⟩ := (ih _).mp hrest
      exact ⟨h, (step_iff h ev).mp ⟨hr, hsame⟩, hk⟩
    · rintro ⟨h, hev, hrest⟩
      obtain ⟨hr, hsame⟩ := (step_iff h ev).mpr hev
      exact ⟨h, hr, (ih _).mpr ⟨hsame, hrest⟩⟩

omit [Units U] in
/-- At reset the times agree unless the divider is zero. -/
theorem init_same (cfg : Config) (mem : Mem) (u : U) : (init cfg mem u).Same ↔ cfg.clintDivider ≠ 0 := by
  refine ⟨fun hs => hs.1, fun hs => ⟨hs, ?_⟩⟩
  show (0 : U64) / cfg.clintDivider = 0
  exact BitVec.zero_udiv

/-- **One time base.** Over every run from reset, `time` and the Sstc comparison are the CLINT's time and
`mcycle` disturbs nothing exactly when the divider is not zero and every event keeps the two times together. -/
theorem oneTimeBase_iff (cfg : Config) (mem : Mem) (u : U) (evs : List (TimeEvent U)) :
    (init cfg mem u).OneTimeBase evs ↔ cfg.clintDivider ≠ 0 ∧ (init cfg mem u).Always Keeps evs := by
  rw [oneTimeBase_run, init_same]

/-! ### Runs that write neither counter -/

omit [Units U] in
/-- The event writes neither `mcycle` nor `mtime`. -/
def Spares : TimeEvent U → Prop
  | .csrWrite addr _ => addr ≠ Csr.mcycle
  | .clintWriteU32 offset _ => offset ≠ Clint.MTIME_OFFSET ∧ offset ≠ Clint.MTIME_OFFSET + 4
  | .clintWriteU64 offset _ => offset ≠ Clint.MTIME_OFFSET
  | _ => True

/-- The CLINT's counter is the phase of the cycle counter. -/
structure InPhase (s : TimeRun U) : Prop where
  same : s.Same
  divider : s.clint.divider = s.cpu.clintDivider
  counter : s.clint.counter.toNat = s.cpu.cycles.toNat % s.cpu.clintDivider.toNat

theorem writeU32_spares {c : Clint} {offset : U64} (h : offset ≠ Clint.MTIME_OFFSET ∧ offset ≠ Clint.MTIME_OFFSET + 4)
    (val : U32) : (c.writeU32 offset val).mtime = c.mtime ∧ (c.writeU32 offset val).divider = c.divider ∧
      (c.writeU32 offset val).counter = c.counter := by
  unfold Clint.writeU32
  rw [if_neg h.1, if_neg h.2]
  split
  · exact ⟨rfl, rfl, rfl⟩
  · split
    · exact ⟨rfl, rfl, rfl⟩
    · split <;> exact ⟨rfl, rfl, rfl⟩

theorem writeU64_spares {c : Clint} {offset : U64} (h : offset ≠ Clint.MTIME_OFFSET) (val : U64) :
    (c.writeU64 offset val).mtime = c.mtime ∧ (c.writeU64 offset val).divider = c.divider ∧
      (c.writeU64 offset val).counter = c.counter := by
  unfold Clint.writeU64
  rw [if_neg h]
  split
  · exact ⟨rfl, rfl, rfl⟩
  · split <;> exact ⟨rfl, rfl, rfl⟩

omit [Units U] in
/-- In phase the CLINT's counter wraps when the cycle counter comes to a multiple of the divider, and the quotient
follows it. -/
theorem InPhase.wraps_iff {s : TimeRun U} (h : s.InPhase) (hc : s.cpu.cycles.toNat + 1 < 2 ^ 64) :
    (s.clint.wraps = true ↔ s.cpu.clintDivider.toNat ∣ s.cpu.cycles.toNat + 1) ∧
      (s.cpu.cycles + 1) / s.cpu.clintDivider =
        s.cpu.cycles / s.cpu.clintDivider + (if s.clint.wraps then 1 else 0) ∧
      s.clint.tick.2.counter.toNat = (s.cpu.cycles.toNat + 1) % s.cpu.clintDivider.toNat := by
  have hpos : 0 < s.cpu.clintDivider.toNat := by
    refine Nat.pos_of_ne_zero fun h0 => h.same.1 (BitVec.eq_of_toNat_eq h0)
  generalize hn : s.cpu.cycles.toNat = n at hc
  generalize hk : s.cpu.clintDivider.toNat = d at hpos
  have hcount : (s.clint.counter + 1).toNat = n % d + 1 := by
    rw [BitVec.toNat_add, h.counter, hn, hk]
    have := Nat.mod_lt n hpos
    have := Nat.mod_le n d
    have h1 : (1 : U64).toNat = 1 := rfl
    omega
  have hwraps : s.clint.wraps = true ↔ n % d + 1 = d := by
    have := Nat.mod_lt n hpos
    rw [Clint.wraps, decide_eq_true_iff, ge_iff_le, BitVec.le_def, h.divider, hk, hcount]
    omega
  have hlt := Nat.mod_lt n hpos
  have hsplit : n + 1 = d * (n / d) + (n % d + 1) := by
    have := Nat.div_add_mod n d
    omega
  have hdvd : d ∣ n + 1 ↔ n % d + 1 = d := by
    rw [hsplit, Nat.dvd_add_right (Nat.dvd_mul_right d _)]
    refine ⟨fun h => Nat.le_antisymm hlt (Nat.le_of_dvd (Nat.succ_pos _) h), fun h => ?_⟩
    rw [h]
  have hsucc : (s.cpu.cycles + 1).toNat = n + 1 := by
    rw [BitVec.toNat_add, hn]
    have h1 : (1 : U64).toNat = 1 := rfl
    omega
  refine ⟨hwraps.trans hdvd.symm, BitVec.eq_of_toNat_eq ?_, ?_⟩
  rotate_left
  · -- the CLINT's counter
    rw [Clint.tick_counter]
    by_cases hw : d ∣ n + 1
    · rw [if_pos (hwraps.mpr (hdvd.mp hw)), Nat.mod_eq_zero_of_dvd hw]
      rfl
    · have hne : n % d + 1 ≠ d := fun heq => hw (hdvd.mpr heq)
      have hmod : (n + 1) % d = n % d + 1 := by
        conv_lhs => rw [hsplit]
        rw [Nat.mul_add_mod, Nat.mod_eq_of_lt (by omega)]
      rw [if_neg fun hw' => hne (hwraps.mp hw'), hcount, hmod]
  -- the quotient
  rw [BitVec.toNat_udiv, hsucc, hk, Nat.succ_div, BitVec.toNat_add, BitVec.toNat_udiv, hn, hk]
  have hle := Nat.div_le_self n d
  by_cases hw : d ∣ n + 1
  · rw [if_pos hw, if_pos (hwraps.mpr (hdvd.mp hw)), show (1 : U64).toNat = 1 from rfl, Nat.mod_eq_of_lt (by omega)]
  · rw [if_neg hw, if_neg (fun hw' => hw (hdvd.mpr (hwraps.mp hw'))), show (0 : U64).toNat = 0 from rfl,
      Nat.mod_eq_of_lt (by omega)]

/-- An event that spares both counters keeps them together unless it is a tick with Sstc on in which `mtime`
advances. -/
theorem InPhase.keeps_iff {s : TimeRun U} (h : s.InPhase) (hc : s.cpu.cycles.toNat + 1 < 2 ^ 64) {ev : TimeEvent U}
    (hev : Spares ev) :
    s.Keeps ev ↔ match ev with
      | .tick => s.exited = false → s.cpu.sstc = true → ¬s.cpu.clintDivider.toNat ∣ s.cpu.cycles.toNat + 1
      | _ => True := by
  obtain ⟨hw, hq, -⟩ := h.wraps_iff hc
  cases ev with
  | tick =>
    show (s.exited = false → (s.cpu.sstc = true → s.clint.wraps = false) ∧ _) ↔ _
    rw [← hw]
    simp only [hq, and_true, Bool.not_eq_true]
  | csrWrite addr val => exact ⟨fun _ => trivial, fun _ ha => absurd ha hev⟩
  | clintWriteU32 offset val => exact ⟨fun _ => trivial, fun _ => (writeU32_spares hev val).1⟩
  | clintWriteU64 offset val => exact ⟨fun _ => trivial, fun _ => (writeU64_spares hev val).1⟩
  | dram => exact Iff.rfl
  | other f => exact Iff.rfl

/-- The phase is kept, and the cycle counter moves on by one at most. -/
theorem InPhase.step {s : TimeRun U} (h : s.InPhase) (hc : s.cpu.cycles.toNat + 1 < 2 ^ 64) {ev : TimeEvent U}
    (hev : Spares ev) : (s.step ev).InPhase ∧ (s.step ev).cpu.cycles.toNat ≤ s.cpu.cycles.toNat + 1 := by
  obtain ⟨-, hq, hcounter⟩ := h.wraps_iff hc
  have htime : s.cpu.cycles / s.cpu.clintDivider = s.clint.mtime := h.same.2
  cases ev with
  | tick =>
    by_cases hx : s.exited = true
    · obtain ⟨h1, h2, h3⟩ := step_tick_exited hx
      refine ⟨⟨(same_iff h2 h.same).mpr ?_, ?_, ?_⟩, ?_⟩
      · rw [h1, h3]
        exact htime
      · rw [h2, h3]
        exact h.divider
      · rw [h1, h2, h3]
        exact h.counter
      · rw [h1]
        exact Nat.le_succ _
    · obtain ⟨h1, h2, h3⟩ := step_tick (s := s) (by simpa using hx)
      have hsucc : (s.cpu.cycles + 1).toNat = s.cpu.cycles.toNat + 1 := by
        rw [BitVec.toNat_add, show (1 : U64).toNat = 1 from rfl, Nat.mod_eq_of_lt hc]
      refine ⟨⟨(same_iff h2 h.same).mpr ?_, ?_, ?_⟩, ?_⟩
      · rw [h1, h3, hq, htime, Clint.tick_mtime]
        cases s.clint.wraps with
        | false => exact BitVec.add_zero _
        | true => rfl
      · rw [h2, h3, Clint.tick_divider]
        exact h.divider
      · rw [h1, h2, h3, hsucc]
        exact hcounter
      · rw [h1, hsucc]
  | csrWrite addr val =>
    obtain ⟨h1, h2⟩ := Cpu.csrWrite_cycles s.cpu hev val
    refine ⟨⟨(same_iff (s := s) h2 h.same).mpr ?_, ?_, ?_⟩, ?_⟩
    · show (s.cpu.csrWrite addr val).cycles / s.cpu.clintDivider = s.clint.mtime
      rw [h1]
      exact htime
    · show s.clint.divider = (s.cpu.csrWrite addr val).clintDivider
      rw [h2]
      exact h.divider
    · show s.clint.counter.toNat = (s.cpu.csrWrite addr val).cycles.toNat % (s.cpu.csrWrite addr val).clintDivider.toNat
      rw [h1, h2]
      exact h.counter
    · show (s.cpu.csrWrite addr val).cycles.toNat ≤ _
      rw [h1]
      exact Nat.le_succ _
  | clintWriteU32 offset val =>
    obtain ⟨h1, h2, h3⟩ := writeU32_spares (c := s.clint) hev val
    exact ⟨⟨⟨h.same.1, h.same.2.trans h1.symm⟩, h2.trans h.divider, (congrArg _ h3).trans h.counter⟩, Nat.le_succ _⟩
  | clintWriteU64 offset val =>
    obtain ⟨h1, h2, h3⟩ := writeU64_spares (c := s.clint) hev val
    exact ⟨⟨⟨h.same.1, h.same.2.trans h1.symm⟩, h2.trans h.divider, (congrArg _ h3).trans h.counter⟩, Nat.le_succ _⟩
  | dram => exact ⟨⟨h.same, h.divider, h.counter⟩, Nat.le_succ _⟩
  | other f => exact ⟨⟨h.same, h.divider, h.counter⟩, Nat.le_succ _⟩

/-- A tick with Sstc on does not advance `mtime`. -/
def SstcBetween (s : TimeRun U) : TimeEvent U → Prop
  | .tick => s.exited = false → s.cpu.sstc = true → ¬s.cpu.clintDivider.toNat ∣ s.cpu.cycles.toNat + 1
  | _ => True

/-- **Runs that write neither counter.** There the one thing that goes wrong is the comparison, in the cycles in
which `mtime` advances. -/
theorem untouched_iff (cfg : Config) (mem : Mem) (u : U) (evs : List (TimeEvent U)) (hev : ∀ ev ∈ evs, Spares ev)
    (hlen : evs.length < 2 ^ 64) :
    (init cfg mem u).OneTimeBase evs ↔ cfg.clintDivider ≠ 0 ∧ (init cfg mem u).Always SstcBetween evs := by
  have hruns : ∀ (evs : List (TimeEvent U)) (s : TimeRun U), s.InPhase → s.cpu.cycles.toNat + evs.length < 2 ^ 64 →
      (∀ ev ∈ evs, Spares ev) → (s.Always Keeps evs ↔ s.Always SstcBetween evs) := by
    intro evs
    induction evs with
    | nil => exact fun _ _ _ _ => Iff.rfl
    | cons ev evs ih =>
      intro s h hc hsp
      rw [List.length_cons] at hc
      have hone := h.keeps_iff (by omega) (hsp ev List.mem_cons_self)
      obtain ⟨hnext, hcycles⟩ := h.step (by omega) (hsp ev List.mem_cons_self)
      have hrest := ih _ hnext (by omega) fun x hx => hsp x (List.mem_cons_of_mem _ hx)
      have hmatch : s.SstcBetween ev ↔ s.Keeps ev := by
        rw [hone]
        cases ev <;> exact Iff.rfl
      exact and_congr hmatch.symm hrest
  rw [oneTimeBase_run, init_same]
  refine and_congr_right fun hd => hruns evs _ ⟨(init_same cfg mem u).mpr hd, ?_, ?_⟩ ?_ hev
  · show (if cfg.clintDivider = 0 then 1 else cfg.clintDivider) = cfg.clintDivider
    rw [if_neg hd]
  · show (0 : U64).toNat = (0 : U64).toNat % cfg.clintDivider.toNat
    exact (Nat.zero_mod _).symm
  · show (0 : U64).toNat + evs.length < 2 ^ 64
    rw [show (0 : U64).toNat = 0 from rfl]
    omega

end TimeRun

/-- `csrw mcycle, 100` right after reset: `time` jumps to 10 while `mtime` is 0. -/
theorem mcycle_moves_time :
    (TimeRun.init {} (fun _ => 0) ({} : Bench)).cpu.csrRead Csr.time = 0 ∧
    ((TimeRun.init {} (fun _ => 0) ({} : Bench)).step (.csrWrite Csr.mcycle 100)).cpu.csrRead Csr.time = 10 ∧
    ((TimeRun.init {} (fun _ => 0) ({} : Bench)).step (.csrWrite Csr.mcycle 100)).clint.mtime = 0 ∧
    ¬(TimeRun.init {} (fun _ => 0) ({} : Bench)).OneTimeBase [.csrWrite Csr.mcycle 100] := by
  refine ⟨by decide, by decide, by decide, fun h => ?_⟩
  exact absurd (h.2.1 rfl).1 (by decide)

end Rvsim
