import Rvsim.ExecuteAgree
import Rvsim.PmpLock
import Rvsim.Registers
import Rvsim.StoreRing
import Rvsim.AdBits
import Rvsim.FirstFault
import Rvsim.Places
import Rvsim.InOrderRun
import Rvsim.TrapEntry
import Rvsim.Seip
import Rvsim.LrSc
import Rvsim.FenceOrder
import Rvsim.Latency
import Rvsim.FetchStream
import Rvsim.BranchHistory
import Rvsim.Mshr
import Rvsim.Fdt
import Rvsim.TimeBase
import Rvsim.CacheSim
import Rvsim.CacheEffect
import Rvsim.CacheHierarchy
import Rvsim.Inclusion
import Rvsim.Lib.Buffer
import Rvsim.Virtio
import Rvsim.VirtioBatch
import Rvsim.RamAccess
import Rvsim.Lib.Checked
import Rvsim.Lib.FirstMatch
import Rvsim.Lib.Walks
import Rvsim.LoopPredictor
import Rvsim.PmpCheck
import Rvsim.VirtioTotal
import Rvsim.BranchFlight
import Rvsim.DecodeExact
import Rvsim.HistoryIndexed
import Rvsim.IttageTraining
import Rvsim.PageCross
import Rvsim.ScCache
import Rvsim.SystemLegal
import Rvsim.Instret
import Rvsim.InstretFlow
import Rvsim.InstretInOrder
import Rvsim.DeviceRuns
import Rvsim.CacheEvents
import Rvsim.CacheFifo
import Rvsim.TlbLru
import Rvsim.Interconnect
import Rvsim.ReturnStack
import Rvsim.Lib.Batches
import Rvsim.RenameWhole
import Rvsim.SelectOrder
import Rvsim.Dram
import Rvsim.Sv39
import Rvsim.FetchFault
import Rvsim.Lib.Matcher
import Rvsim.Uart
import Rvsim.CheckpointIds
import Rvsim.Prefetch
import Rvsim.TageTraining
import Rvsim.ScTotal
import Rvsim.LruRecent
import Rvsim.Lib.Ieee
import Rvsim.Fpu
import Rvsim.FpuConvert
import Rvsim.NanBoxing
import Rvsim.Rvc
import Rvsim.Disasm
import Rvsim.Lib.Text
import Rvsim.Assembly
import Rvsim.DisasmAgree
import Rvsim.LoadOrder
import Rvsim.LoadRing
import Rvsim.RvcExact
import Rvsim.Lib.TwosComplement
import Rvsim.ExecuteIsa
