/-
# The pipeline and the simulator

`pipeline/engine.rs` (`Pipeline::tick`), `cpu/execution.rs` and
`sim/simulator.rs`. A tick of the simulator updates the interrupt lines,
ticks the engine, flushes the front end when the engine redirected fetch,
and ticks the front end. Runs start from a freshly built simulator whose
registers a loader has set and `sync_arch_regs` has copied.

Key definitions:
  - `O3Pipeline.tick`, `InOrderPipeline.tick`
  - `O3Pipeline.Reach`, `InOrderPipeline.Reach`
-/
import Rvsim.Frontend
import Rvsim.Rename

namespace Rvsim

variable {U : Type}

/-! ### Around the pipeline -/

namespace Cpu

/-- The interrupt lines of devices, and the `stimecmp` comparison, in `mip`. -/
def updateMip (c : Cpu U) (timer msip meip seip : Bool) : U64 :=
  let mip := setBit c.csrs.mip Csr.mipMtip timer
  let mip := setBit mip Csr.mipMsip msip
  let mip := setBit mip Csr.mipMeip meip
  let mip := if seip then mip ||| Csr.mipSeip else if c.swSeip then mip else mip &&& ~~~Csr.mipSeip
  if c.csrs.menvcfg &&& Csr.menvcfgStce ≠ 0 then
    setBit mip Csr.mipStip (c.cycles / c.clintDivider ≥ c.csrs.stimecmp)
  else mip

/-- `pre_tick`; the flag says that the machine has exited and the pipeline is skipped. -/
def preTick [Units U] (c : Cpu U) : Bool × Cpu U :=
  match Units.checkExit c.units with
  | some code => (true, { c with exitCode := some code })
  | none =>
    let ((timer, msip, meip, seip), u, mem) := Units.busTick c.units c.mem
    let c := { c with units := u, mem := mem }
    (false, { c with
      csrs := { c.csrs with mip := c.updateMip timer msip meip seip }
      cycles := c.cycles + 1 })

def postTick (c : Cpu U) : Cpu U := { c with regs := c.regs.write 0 0 }

/-- The front end runs. -/
def fetching (c : Cpu U) : Bool := c.exitCode.isNone && !c.wfiWaiting

end Cpu

/-! ### The out-of-order pipeline -/

structure O3Pipeline (U : Type) where
  frontend : Frontend
  core : O3State U

namespace O3Pipeline

/-- After the engine: flush the front end if fetch was redirected. -/
def redirect (p : O3Pipeline U) (pcBefore : U64) : O3Pipeline U :=
  let cpu := p.core.cpu
  if cpu.redirectPending || cpu.pc != pcBefore then
    { frontend := p.frontend.flush
      core := { p.core with cpu := { cpu with redirectPending := false }, renameOutput := [] } }
  else p

theorem redirect_eng (p : O3Pipeline U) (pc : U64) : (p.redirect pc).core.eng = p.core.eng := by
  unfold redirect
  dsimp only
  split <;> rfl

def frontendTick [Units U] (p : O3Pipeline U) : O3Pipeline U :=
  let (left, core) := O3.renameStage p.core p.frontend.decodeRename
  let (f, cpu) := Frontend.tickBehind { p.frontend with decodeRename := left } core.cpu true
  { frontend := f, core := { core with cpu := cpu } }

/-- `Pipeline::tick`. -/
def pipelineTick [Units U] (p : O3Pipeline U) : O3Pipeline U :=
  let p := redirect { p with core := O3.tick p.core } p.core.cpu.pc
  if p.core.cpu.fetching then p.frontendTick else p

/-- `Simulator::tick`. -/
def tick [Units U] (p : O3Pipeline U) : O3Pipeline U :=
  let (skip, cpu) := p.core.cpu.preTick
  let p := { p with core := { p.core with cpu := cpu } }
  let p := if skip then p else p.pipelineTick
  { p with core := { p.core with cpu := p.core.cpu.postTick } }

/-- `Simulator::new` around a core that a loader has set up, then `sync_arch_regs`. -/
def init (cfg : Config) (cpu : Cpu U) : O3Pipeline U :=
  { frontend := {}, core := ⟨O3.syncArchRegs (O3.Engine.new cfg) cpu, cpu, []⟩ }

/-- The core as a loader may leave it: registers, pc, CSRs, RAM and devices are free, the
pipeline-facing state is that of `Cpu::new`. -/
structure Loaded (cfg : Config) (cpu : Cpu U) : Prop where
  mshrs : cpu.l1dMshrs = MshrFile.new cfg.mshrCount cfg.l1dLineBytes
  width : cpu.pipelineWidth = cfg.width
  redirect : cpu.redirectPending = false
  wfi : cpu.wfiWaiting = false
  zero : cpu.regs.gpr 0 = 0

/-- The states a run can be in after any number of ticks. -/
inductive Reach [Units U] (cfg : Config) : O3Pipeline U → Prop where
  | init (cpu : Cpu U) (h : Loaded cfg cpu) : Reach cfg (O3Pipeline.init cfg cpu)
  | tick (p : O3Pipeline U) (h : Reach cfg p) : Reach cfg p.tick

end O3Pipeline

/-! ### The in-order pipeline -/

structure InOrderPipeline (U : Type) where
  frontend : Frontend
  core : InOrderState U

namespace InOrderPipeline

def redirect (p : InOrderPipeline U) (pcBefore : U64) : InOrderPipeline U :=
  let cpu := p.core.cpu
  if cpu.redirectPending || cpu.pc != pcBefore then
    { frontend := p.frontend.flush
      core := { p.core with cpu := { cpu with redirectPending := false }, renameOutput := [] } }
  else p

theorem redirect_eng (p : InOrderPipeline U) (pc : U64) : (p.redirect pc).core.eng = p.core.eng := by
  unfold redirect
  dsimp only
  split <;> rfl

def frontendTick [Units U] (p : InOrderPipeline U) : InOrderPipeline U :=
  let (left, core) := InOrder.renameStage p.core p.frontend.decodeRename
  let (f, cpu) := Frontend.tickBehind { p.frontend with decodeRename := left } core.cpu false
  { frontend := f, core := { core with cpu := cpu } }

def pipelineTick [Units U] (p : InOrderPipeline U) : InOrderPipeline U :=
  let p := redirect { p with core := InOrder.tick p.core } p.core.cpu.pc
  if p.core.cpu.fetching then p.frontendTick else p

def tick [Units U] (p : InOrderPipeline U) : InOrderPipeline U :=
  let (skip, cpu) := p.core.cpu.preTick
  let p := { p with core := { p.core with cpu := cpu } }
  let p := if skip then p else p.pipelineTick
  { p with core := { p.core with cpu := p.core.cpu.postTick } }

def init (cfg : Config) (cpu : Cpu U) : InOrderPipeline U :=
  { frontend := {}, core := ⟨InOrder.Engine.new cfg, cpu, []⟩ }

inductive Reach [Units U] (cfg : Config) : InOrderPipeline U → Prop where
  | init (cpu : Cpu U) (h : O3Pipeline.Loaded cfg cpu) : Reach cfg (InOrderPipeline.init cfg cpu)
  | tick (p : InOrderPipeline U) (h : Reach cfg p) : Reach cfg p.tick

end InOrderPipeline

end Rvsim
