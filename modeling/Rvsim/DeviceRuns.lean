/-
# Runs with device loads

The condition on runs: every tick of the engine begins in an orderly state, the
tags of its buffer within half the tag space. Runs on fixed programs are
orderly, or show what goes astray where they are not.

Key definitions:
  - `O3Pipeline.orderlyFor`, `InOrderPipeline.orderlyFor`
  - `twoBytes`, `wrongPath`, `behindStore`, `overtaken`
Key theorems:
  - `deviceRuns_exact`
  - `deviceReads_astray`
-/
import Rvsim.DeviceInOrder

namespace Rvsim

variable {U : Type}

/-- **Device reads.** In every run of either backend whose ticks begin in orderly states, the reads made of devices
are those of the loads that retire, each once and in program order, and behind them those of loads still in the
buffer. The reads are all that memory2 does to the core. -/
theorem deviceRuns_exact [Units U] (cfg : Config) :
    (∀ (p : O3Pipeline U) (l : DeviceLog), O3Pipeline.LoggedRun cfg O3Pipeline.Orderly p l →
        l.Exact p.core.eng.rob.tags) ∧
      (∀ (p : InOrderPipeline U) (l : DeviceLog), InOrderPipeline.LoggedRun cfg InOrderPipeline.Orderly p l →
        l.Exact p.core.eng.rob.tags) ∧
      ∀ (s : Mem2State U) (es : List Mem1Mem2Entry), (memory2Stage s es).2.2.cpu =
        (busReads (mem2Devices s (sortByRawTag es))).foldl Cpu.readDevice s.cpu :=
  ⟨fun _ _ => O3Pipeline.LoggedRun.exact, fun _ _ => InOrderPipeline.LoggedRun.exact,
    fun s es => memory2Loop_reads s (sortByRawTag es)⟩

/-! ### Runs on fixed programs -/

namespace O3Pipeline

variable [Units U]

/-- The state and the log after `n` ticks. -/
def loggedTicks : Nat → O3Pipeline U → DeviceLog → O3Pipeline U × DeviceLog
  | 0, p, l => (p, l)
  | n + 1, p, l => loggedTicks n p.tick (p.logAfter l)

/-- The next `n` ticks meet the condition. -/
def orderlyFor : Nat → O3Pipeline U → DeviceLog → Bool
  | 0, _, _ => true
  | n + 1, p, l => decide (p.Orderly l) && orderlyFor n p.tick (p.logAfter l)

theorem LoggedRun.orderly {cfg : Config} (n : Nat) {p : O3Pipeline U} {l : DeviceLog} (h : LoggedRun cfg Orderly p l)
    (hn : orderlyFor n p l = true) : LoggedRun cfg Orderly (loggedTicks n p l).1 (loggedTicks n p l).2 := by
  induction n generalizing p l with
  | zero => exact h
  | succ n ih =>
    rw [orderlyFor, Bool.and_eq_true, decide_eq_true_eq] at hn
    exact ih (.tick p l h hn.1) hn.2

theorem LoggedRun.any {cfg : Config} (n : Nat) {p : O3Pipeline U} {l : DeviceLog}
    (h : LoggedRun cfg (fun _ _ => True) p l) :
    LoggedRun cfg (fun _ _ => True) (loggedTicks n p l).1 (loggedTicks n p l).2 := by
  induction n generalizing p l with
  | zero => exact h
  | succ n ih => exact ih (.tick p l h trivial)

end O3Pipeline

namespace InOrderPipeline

variable [Units U]

def loggedTicks : Nat → InOrderPipeline U → DeviceLog → InOrderPipeline U × DeviceLog
  | 0, p, l => (p, l)
  | n + 1, p, l => loggedTicks n p.tick (p.logAfter l)

def orderlyFor : Nat → InOrderPipeline U → DeviceLog → Bool
  | 0, _, _ => true
  | n + 1, p, l => decide (p.Orderly l) && orderlyFor n p.tick (p.logAfter l)

theorem LoggedRun.orderly {cfg : Config} (n : Nat) {p : InOrderPipeline U} {l : DeviceLog}
    (h : LoggedRun cfg Orderly p l) (hn : orderlyFor n p l = true) :
    LoggedRun cfg Orderly (loggedTicks n p l).1 (loggedTicks n p l).2 := by
  induction n generalizing p l with
  | zero => exact h
  | succ n ih =>
    rw [orderlyFor, Bool.and_eq_true, decide_eq_true_eq] at hn
    exact ih (.tick p l h hn.1) hn.2

end InOrderPipeline

/-- A core in front of a program that ends in a jump to itself at `stop`. -/
def deviceCpu (cfg : Config) (program : List U32) (stop : U64) : Cpu Bench :=
  Cpu.new cfg (O3Pipeline.memOfWords 0x80000000 program) { btb := [(stop, stop)] }

/-- Two loads of two bytes of a device. -/
def twoBytes : List U32 :=
  -- lui x6,0x10000; lb x5,0(x6); lb x8,1(x6); jal x0,0
  [0x10000337, 0x00030283, 0x00130403, 0x0000006f]

/-- Both engines read each byte once, in order. -/
theorem twoBytes_exact :
    let o3 := O3Pipeline.loggedTicks 16 (.init O3Pipeline.smallO3 (deviceCpu O3Pipeline.smallO3 twoBytes 0x8000000c)) {}
    let inOrder := InOrderPipeline.loggedTicks 16
      (.init InOrderPipeline.smallInOrder (deviceCpu InOrderPipeline.smallInOrder twoBytes 0x8000000c)) {}
    (o3.2.loads = [some ⟨0x10000000, .byte⟩, some ⟨0x10000001, .byte⟩] ∧ o3.2.Exact o3.1.core.eng.rob.tags) ∧
      inOrder.2.loads = [some ⟨0x10000000, .byte⟩, some ⟨0x10000001, .byte⟩] ∧
      inOrder.2.Exact inOrder.1.core.eng.rob.tags := by
  refine ⟨⟨by decide +kernel, (deviceRuns_exact O3Pipeline.smallO3).1 _ _ ?_⟩, by decide +kernel,
    (deviceRuns_exact InOrderPipeline.smallInOrder).2.1 _ _ ?_⟩
  · exact O3Pipeline.LoggedRun.orderly 16 (.init _ (O3Pipeline.loaded_new _ _ _)) (by decide +kernel)
  · exact InOrderPipeline.LoggedRun.orderly 16 (.init _ (O3Pipeline.loaded_new _ _ _)) (by decide +kernel)

/-- `n` ticks out of order. -/
def deviceRun (program : List U32) (stop : U64) (n : Nat) : O3Pipeline Bench × DeviceLog :=
  O3Pipeline.loggedTicks n (.init O3Pipeline.smallO3 (deviceCpu O3Pipeline.smallO3 program stop)) {}

theorem deviceRun_logged (program : List U32) (stop : U64) (n : Nat) :
    O3Pipeline.LoggedRun O3Pipeline.smallO3 (fun _ _ => True) (deviceRun program stop n).1
        (deviceRun program stop n).2 :=
  O3Pipeline.LoggedRun.any n (.init _ (O3Pipeline.loaded_new _ _ _))

/-- A load behind a branch that waits for a division and is taken, against the prediction. -/
def wrongPath : O3Pipeline Bench × DeviceLog :=
  -- lui x6,0x10000; div x7,x7,x7; beq x7,x7,8; lb x5,0(x6); jal x0,0
  deviceRun [0x10000337, 0x0273c3b3, 0x00738463, 0x00030283, 0x0000006f] 0x80000010 42

/-- A load of the address of a store that a division keeps from committing. -/
def behindStore : O3Pipeline Bench × DeviceLog :=
  -- lui x6,0x10000; div x7,x7,x7; sw x0,0(x6); lw x5,0(x6); jal x0,0
  deviceRun [0x10000337, 0x0273c3b3, 0x00032023, 0x00032283, 0x0000006f] 0x80000010 44

/-- Two loads, the first of an address that waits for a division. -/
def overtaken : O3Pipeline Bench × DeviceLog :=
  -- lui x6,0x10000; div x7,x0,x6; add x7,x6,x7; lb x5,0(x7); lb x8,1(x6); jal x0,0
  deviceRun [0x10000337, 0x026043b3, 0x007303b3, 0x00038283, 0x00130403, 0x0000006f] 0x80000014 50

/-- A load reads and never commits; a load commits and has not read; two loads read in the wrong order. -/
theorem deviceReads_astray :
    ¬(∀ (p : O3Pipeline Bench) (l : DeviceLog), O3Pipeline.LoggedRun O3Pipeline.smallO3 (fun _ _ => True) p l →
      l.Exact p.core.eng.rob.tags) ∧
      (wrongPath.2.reads = [⟨0x10000000, .byte⟩] ∧ wrongPath.2.loads = [] ∧ wrongPath.2.pend = []) ∧
      (behindStore.2.reads = [] ∧ behindStore.2.loads = [some ⟨0x10000000, .word⟩]) ∧
      overtaken.2.reads = [⟨0x10000001, .byte⟩, ⟨0x10000000, .byte⟩] ∧
      overtaken.2.loads = [some ⟨0x10000000, .byte⟩, some ⟨0x10000001, .byte⟩] := by
  have hwrong : wrongPath.2.reads = [⟨0x10000000, .byte⟩] ∧ wrongPath.2.loads = [] ∧ wrongPath.2.pend = [] := by
    decide +kernel
  refine ⟨fun h => ?_, hwrong, by decide +kernel, by decide +kernel⟩
  have hexact := h wrongPath.1 wrongPath.2 (deviceRun_logged _ _ _)
  exact DeviceLog.not_exact_of_dropped hwrong.1 hwrong.2.1 hwrong.2.2 hexact

end Rvsim
