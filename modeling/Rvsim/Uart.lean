/-
# The UART and the kernel's last words

`soc/devices/uart.rs`: the 16550 with its registers, the latch of the divisor over
two of them, and the matcher that looks for a kernel panic in what the guest
transmits. A character that completes the pattern is neither printed nor does it
raise the transmit interrupt.

Reading stdin is a list of bytes that have come by the time of a tick; what is
printed is kept in the state.

Key definitions:
  - `Uart`, `Uart.checkCharForPanic`, `Uart.writeThrOrDll`, `Uart.step`
Key theorems:
  - `Uart.step_spec`, `Uart.panic_detected_iff`
-/
import Rvsim.Common
import Rvsim.Lib.Matcher

namespace Rvsim

def REG_RBR : U64 := 0
def REG_THR : U64 := 0
def REG_IER : U64 := 1
def REG_IIR : U64 := 2
def REG_LCR : U64 := 3
def REG_MCR : U64 := 4
def REG_LSR : U64 := 5
def REG_SCR : U64 := 7

def IIR_NO_INTERRUPT : U8 := 0x01
def IIR_THRE : U8 := 0x02
def IIR_RDA : U8 := 0x04
def IIR_ID_MASK : U8 := 0xC0
def LSR_DATA_READY : U8 := 0x01
def LSR_THRE : U8 := 0x20
def LSR_TEMT : U8 := 0x40
def LSR_DEFAULT : U8 := LSR_THRE ||| LSR_TEMT
def LCR_DLAB : U8 := 0x80
def IER_RDA : U8 := 0x01
def IER_THRE : U8 := 0x02

/-- `kernel panic`. -/
def PATTERN : List U8 := "kernel panic".toList.map fun c => BitVec.ofNat 8 c.toNat

inductive HostStream where
  | stdout
  | stderr
  deriving DecidableEq, Repr

structure Uart where
  baseAddr : U64
  rxQueue : List U8 := []
  ier : U8 := 0
  lcr : U8 := 0
  mcr : U8 := 0
  scr : U8 := 0
  div : U16 := 0
  tickCount : U8 := 0
  threIp : Bool := true
  toStderr : Bool
  quiet : Bool
  panicMatchState : Nat := 0
  panicDetected : Bool := false
  /-- What the host has printed. Not in the source. -/
  printed : List (HostStream × U8) := []
  deriving DecidableEq, Repr

/-- An access of the bus, or a tick by which stdin has sent so many bytes since it was polled. -/
inductive UartOp where
  | read (width : MemWidth) (offset : U64)
  | write (width : MemWidth) (offset : U64) (val : U64)
  | tick (arrived : List U8)
  deriving DecidableEq, Repr

namespace Uart

def new (baseAddr : U64) (toStderr quiet : Bool) : Uart :=
  { baseAddr := baseAddr, toStderr := toStderr, quiet := quiet }

def updateInterrupts (u : Uart) : U8 :=
  if u.ier &&& IER_RDA ≠ 0 ∧ u.rxQueue ≠ [] then IIR_RDA
  else if u.ier &&& IER_THRE ≠ 0 ∧ u.threIp then IIR_THRE
  else IIR_NO_INTERRUPT

def isAsciiUppercase (ch : U8) : Bool := 65#8 ≤ ch && ch ≤ 90#8

def toLower (ch : U8) : U8 := if isAsciiUppercase ch then ch + 32 else ch

/-- Nothing when the index has left the pattern, where the source stops. -/
def checkCharForPanic (u : Uart) (ch : U8) : Option (Bool × Uart) :=
  let chLower := toLower ch
  PATTERN[u.panicMatchState]?.map fun expected =>
    if chLower = expected then
      let u := { u with panicMatchState := u.panicMatchState + 1 }
      if u.panicMatchState = PATTERN.length then
          (true, { u with panicDetected := true, panicMatchState := 0 }) else (false, u)
    else if chLower = 0x6B then (false, { u with panicMatchState := 1 })
    else (false, { u with panicMatchState := 0 })

def checkKernelPanic (u : Uart) : Bool := u.panicDetected

def dlabSet (u : Uart) : Bool := u.lcr &&& LCR_DLAB != 0

def readRbrOrDll (u : Uart) : U8 × Uart :=
  if u.dlabSet then ((u.div &&& 0xFF).setWidth 8, u) else (u.rxQueue.headD 0, { u with rxQueue := u.rxQueue.tail })

def readIerOrDlm (u : Uart) : U8 := if u.dlabSet then (u.div >>> 8).setWidth 8 else u.ier

/-- Reading that the transmitter is empty takes the interrupt back. -/
def readIir (u : Uart) : U8 × Uart :=
  let iir := u.updateInterrupts
  (IIR_ID_MASK ||| iir, if iir = IIR_THRE then { u with threIp := false } else u)

def readLsr (u : Uart) : U8 := if u.rxQueue = [] then LSR_DEFAULT else LSR_DEFAULT ||| LSR_DATA_READY

def writeThrOrDll (u : Uart) (val : U8) : Option Uart :=
  if u.dlabSet then some { u with div := (u.div &&& 0xFF00) ||| val.setWidth 16 }
  else
    (u.checkCharForPanic val).map fun (found, u) =>
      if found then u
      else
        let printed := if u.quiet then [] else [(if u.toStderr then HostStream.stderr else .stdout, val)]
        { u with threIp := true, printed := u.printed ++ printed }

def writeIerOrDlm (u : Uart) (val : U8) : Uart :=
  if u.dlabSet then { u with div := (u.div &&& 0x00FF) ||| (val.setWidth 16 <<< 8) }
  else
    let u := { u with ier := val }
    if u.ier &&& IER_THRE ≠ 0 then { u with threIp := true } else u

def readU8 (u : Uart) (offset : U64) : U8 × Uart :=
  if offset = REG_RBR then u.readRbrOrDll
  else if offset = REG_IER then (u.readIerOrDlm, u)
  else if offset = REG_IIR then u.readIir
  else if offset = REG_LCR then (u.lcr, u)
  else if offset = REG_MCR then (u.mcr, u)
  else if offset = REG_LSR then (u.readLsr, u)
  else if offset = REG_SCR then (u.scr, u)
  else (0, u)

def readU16 (u : Uart) (offset : U64) : U16 × Uart := ((u.readU8 offset).1.setWidth 16, (u.readU8 offset).2)
def readU32 (u : Uart) (offset : U64) : U32 × Uart := ((u.readU8 offset).1.setWidth 32, (u.readU8 offset).2)
def readU64 (u : Uart) (offset : U64) : U64 × Uart := ((u.readU8 offset).1.setWidth 64, (u.readU8 offset).2)

def writeU8 (u : Uart) (offset : U64) (val : U8) : Option Uart :=
  if offset = REG_THR then u.writeThrOrDll val
  else if offset = REG_IER then some (u.writeIerOrDlm val)
  else if offset = REG_LCR then some { u with lcr := val }
  else if offset = REG_MCR then some { u with mcr := val }
  else if offset = REG_SCR then some { u with scr := val }
  else some u

def writeU16 (u : Uart) (offset : U64) (val : U16) : Option Uart := u.writeU8 offset (val.setWidth 8)
def writeU32 (u : Uart) (offset : U64) (val : U32) : Option Uart := u.writeU8 offset (val.setWidth 8)
def writeU64 (u : Uart) (offset : U64) (val : U64) : Option Uart := u.writeU8 offset (val.setWidth 8)

/-- Stdin is polled once in 256 ticks. -/
def tick (u : Uart) (arrived : List U8) : Bool × Uart :=
  let u := { u with tickCount := u.tickCount + 1 }
  let u := if u.tickCount = 0 then { u with rxQueue := u.rxQueue ++ arrived } else u
  (u.updateInterrupts &&& IIR_NO_INTERRUPT == 0, u)

/-- What an access of the bus or a tick leaves. -/
def step (u : Uart) : UartOp → Option Uart
  | .read .nop _ | .write .nop _ _ => some u
  | .read .byte offset => some (u.readU8 offset).2
  | .read .half offset => some (u.readU16 offset).2
  | .read .word offset => some (u.readU32 offset).2
  | .read .double offset => some (u.readU64 offset).2
  | .write .byte offset val => u.writeU8 offset (val.setWidth 8)
  | .write .half offset val => u.writeU16 offset (val.setWidth 16)
  | .write .word offset val => u.writeU32 offset (val.setWidth 32)
  | .write .double offset val => u.writeU64 offset val
  | .tick arrived => some (u.tick arrived).2

/-- The bytes that an operation writes to the transmit register: one, unless the divisor's latch is over it. -/
def transmits (u : Uart) : UartOp → List U8
  | .write .nop _ _ => []
  | .write _ offset val => if offset = REG_THR ∧ u.dlabSet = false then [val.setWidth 8] else []
  | _ => []

/-- The UART after the operations, and the bytes transmitted. -/
def run (u : Uart) : List UartOp → Option (Uart × List U8)
  | [] => some (u, [])
  | op :: ops => (u.step op).bind fun u' => (u'.run ops).map fun (last, sent) => (last, u.transmits op ++ sent)

/-! ### The pattern is found where it is -/

theorem pattern_headOnce : Matcher.HeadOnce PATTERN := by decide

/-- The matcher of the source is the general one. -/
theorem checkCharForPanic_spec {u : Uart} (h : u.panicMatchState < PATTERN.length) (ch : U8) :
    u.checkCharForPanic ch = some
      ((Matcher.step PATTERN u.panicMatchState (toLower ch)).2,
        { u with
          panicMatchState := (Matcher.step PATTERN u.panicMatchState (toLower ch)).1
          panicDetected := u.panicDetected || (Matcher.step PATTERN u.panicMatchState (toLower ch)).2 }) := by
  have hfirst : PATTERN[0]? = some (0x6B : U8) := by decide
  unfold checkCharForPanic Matcher.step
  dsimp only
  rw [List.getElem?_eq_getElem h, Option.map_some, hfirst]
  simp only [Option.some.injEq, eq_comm (b := toLower ch)]
  split_ifs
  all_goals simp

/-- The matcher is in step with the bytes sent, and what was found was there. -/
structure Watches (u : Uart) (sent : List U8) : Prop where
  tracks : Matcher.Tracks PATTERN (sent.map toLower) u.panicMatchState
  found : u.panicDetected = true ↔ PATTERN <:+: sent.map toLower

theorem new_watches (baseAddr : U64) (toStderr quiet : Bool) : (new baseAddr toStderr quiet).Watches [] where
  tracks := .nil (by decide)
  found := by
    rw [List.map_nil, List.infix_nil]
    exact iff_of_false Bool.false_ne_true (by decide)

variable {u u' : Uart} {sent : List U8}

/-- Where neither the index nor the flag has moved, nothing was sent. -/
theorem Watches.congr (h : u.Watches sent) (hstate : u'.panicMatchState = u.panicMatchState)
    (hflag : u'.panicDetected = u.panicDetected) : u'.Watches sent where
  tracks := hstate ▸ h.tracks
  found := hflag ▸ h.found

/-- A byte written to the register goes to the divisor's latch or through the matcher. -/
theorem Watches.writeThrOrDll (h : u.Watches sent) (val : U8) :
    ∃ u', u.writeThrOrDll val = some u' ∧ u'.Watches (sent ++ if u.dlabSet = false then [val] else []) := by
  unfold Uart.writeThrOrDll
  cases hdlab : u.dlabSet with
  | true =>
    rw [if_pos rfl]
    rw [if_neg Bool.true_eq_false.mp, List.append_nil]
    exact ⟨_, rfl, h.congr rfl rfl⟩
  | false =>
    rw [if_neg Bool.false_ne_true, if_pos rfl, checkCharForPanic_spec h.tracks.lt, Option.map_some]
    have htracks := h.tracks.step pattern_headOnce (toLower val)
    have hfound := h.tracks.infix_iff (toLower val)
    have hwatch : Watches { u with
        panicMatchState := (Matcher.step PATTERN u.panicMatchState (toLower val)).1
        panicDetected := u.panicDetected || (Matcher.step PATTERN u.panicMatchState (toLower val)).2 }
            (sent ++ [val]) := by
      refine ⟨?_, ?_⟩
      · rw [List.map_append]
        exact htracks
      · rw [List.map_append, Bool.or_eq_true, h.found]
        exact hfound.symm
    refine ⟨_, rfl, ?_⟩
    dsimp only
    split
    · exact hwatch
    · exact hwatch.congr rfl rfl

theorem Watches.readU8 (h : u.Watches sent) (offset : U64) : (u.readU8 offset).2.Watches sent := by
  unfold Uart.readU8 readRbrOrDll readIir
  dsimp only
  split_ifs
  all_goals exact h.congr rfl rfl

theorem Watches.writeU8 (h : u.Watches sent) (offset : U64) (val : U8) :
    ∃ u', u.writeU8 offset val = some u' ∧
      u'.Watches (sent ++ if offset = REG_THR ∧ u.dlabSet = false then [val] else []) := by
  unfold Uart.writeU8
  by_cases hthr : offset = REG_THR
  · rw [if_pos hthr]
    simpa only [hthr, true_and] using h.writeThrOrDll val
  · have hnone : ¬ (offset = REG_THR ∧ u.dlabSet = false) := fun hc => hthr hc.1
    rw [if_neg hthr, if_neg hnone, List.append_nil]
    unfold writeIerOrDlm
    dsimp only
    split_ifs
    all_goals exact ⟨_, rfl, h.congr rfl rfl⟩

/-- **An operation goes through, and keeps the matcher in step with the bytes sent.** -/
theorem Watches.step (h : u.Watches sent) (op : UartOp) :
    ∃ u', u.step op = some u' ∧ u'.Watches (sent ++ u.transmits op) := by
  cases op with
  | read width offset =>
    have hread := h.readU8 offset
    have hnone : sent ++ u.transmits (.read width offset) = sent := List.append_nil sent
    rw [hnone]
    cases width with
    | nop => exact ⟨u, rfl, h⟩
    | byte | half | word | double => exact ⟨_, rfl, hread⟩
  | write width offset val =>
    have hcut : ∀ n, 8 ≤ n → (val.setWidth n).setWidth 8 = val.setWidth 8 := fun n hn =>
      BitVec.setWidth_setWidth_of_le _ hn
    cases width with
    | nop =>
      have hnone : sent ++ u.transmits (.write .nop offset val) = sent := List.append_nil sent
      rw [hnone]
      exact ⟨u, rfl, h⟩
    | byte => exact h.writeU8 offset (val.setWidth 8)
    | half =>
      show ∃ u', u.writeU8 offset ((val.setWidth 16).setWidth 8) = some u' ∧ _
      rw [hcut 16 (by omega)]
      exact h.writeU8 offset (val.setWidth 8)
    | word =>
      show ∃ u', u.writeU8 offset ((val.setWidth 32).setWidth 8) = some u' ∧ _
      rw [hcut 32 (by omega)]
      exact h.writeU8 offset (val.setWidth 8)
    | double => exact h.writeU8 offset (val.setWidth 8)
  | tick arrived =>
    have hnone : sent ++ u.transmits (.tick arrived) = sent := List.append_nil sent
    rw [hnone]
    refine ⟨_, rfl, ?_⟩
    unfold tick
    dsimp only
    split
    · exact h.congr rfl rfl
    · exact h.congr rfl rfl

/-- A run goes through, and keeps the matcher in step. -/
theorem Watches.run (h : u.Watches sent) (ops : List UartOp) :
    ∃ last more, u.run ops = some (last, more) ∧ last.Watches (sent ++ more) := by
  induction ops generalizing u sent with
  | nil => exact ⟨u, [], rfl, by rw [List.append_nil]; exact h⟩
  | cons op ops ih =>
    obtain ⟨u', hstep, hu'⟩ := h.step op
    obtain ⟨last, more, hrun, hlast⟩ := ih hu'
    refine ⟨last, u.transmits op ++ more, ?_, ?_⟩
    · rw [Uart.run, hstep, Option.bind_some, hrun, Option.map_some]
    · rw [← List.append_assoc]
      exact hlast

/-- **A kernel panic is detected just when the bytes transmitted so far contain the
pattern, in letters of either case, and the index stays in the pattern.** -/
theorem panic_detected_iff (baseAddr : U64) (toStderr quiet : Bool) (ops : List UartOp) :
    ∃ u sent, (new baseAddr toStderr quiet).run ops = some (u, sent) ∧
      (u.checkKernelPanic = true ↔ PATTERN <:+: sent.map toLower) ∧ u.panicMatchState < PATTERN.length := by
  obtain ⟨u, sent, hrun, hwatch⟩ := (new_watches baseAddr toStderr quiet).run ops
  exact ⟨u, sent, hrun, hwatch.found, hwatch.tracks.lt⟩

end Uart

end Rvsim
