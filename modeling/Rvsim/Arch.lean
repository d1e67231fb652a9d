/-
# Architectural state: CSRs, PMP entries and the register file

`core/arch/csr.rs`, `core/arch/gpr.rs`, `core/arch/fpr.rs` and the storage
half of `units/mmu/pmp.rs`. The CSR record keeps the fields some function
reads; `sie`, `sip` and the counter shadows of the source are views the
accessors never store to and are left out.

Key definitions:
  - `Csrs`, `Pmp`, `RegisterFile`
  - `Pmp.setCfg`, `Pmp.setAddr`, `Pmp.check`
-/
import Rvsim.Common

namespace Rvsim

/-! ### CSR addresses -/

namespace Csr

def fflags : CsrAddr := 0x001
def frm : CsrAddr := 0x002
def fcsr : CsrAddr := 0x003
def mvendorid : CsrAddr := 0xF11
def marchid : CsrAddr := 0xF12
def mimpid : CsrAddr := 0xF13
def mhartid : CsrAddr := 0xF14
def mstatus : CsrAddr := 0x300
def misa : CsrAddr := 0x301
def medeleg : CsrAddr := 0x302
def mideleg : CsrAddr := 0x303
def mie : CsrAddr := 0x304
def mtvec : CsrAddr := 0x305
def mcounteren : CsrAddr := 0x306
def menvcfg : CsrAddr := 0x30A
def mscratch : CsrAddr := 0x340
def mepc : CsrAddr := 0x341
def mcause : CsrAddr := 0x342
def mtval : CsrAddr := 0x343
def mip : CsrAddr := 0x344
def sstatus : CsrAddr := 0x100
def sie : CsrAddr := 0x104
def stvec : CsrAddr := 0x105
def scounteren : CsrAddr := 0x106
def sscratch : CsrAddr := 0x140
def sepc : CsrAddr := 0x141
def scause : CsrAddr := 0x142
def stval : CsrAddr := 0x143
def sip : CsrAddr := 0x144
def satp : CsrAddr := 0x180
def stimecmp : CsrAddr := 0x14D
def cycle : CsrAddr := 0xC00
def time : CsrAddr := 0xC01
def instret : CsrAddr := 0xC02
def mcycle : CsrAddr := 0xB00
def minstret : CsrAddr := 0xB02
def csrSimPanic : CsrAddr := 0x8FF

/-! ### Bits of `mstatus`, `mie`, `mip`, `satp` -/

def mstatusSie : U64 := 1 <<< 1
def mstatusMie : U64 := 1 <<< 3
def mstatusSpie : U64 := 1 <<< 5
def mstatusMpie : U64 := 1 <<< 7
def mstatusSpp : U64 := 1 <<< 8
def mstatusMpp : U64 := 3 <<< 11
def mstatusMppShift : Nat := 11
def mstatusMppMask : U64 := 3
def mstatusFs : U64 := 3 <<< 13
def mstatusFsInit : U64 := 1 <<< 13
def mstatusFsDirty : U64 := 3 <<< 13
def mstatusSd : U64 := 1 <<< 63
def mstatusMprv : U64 := 1 <<< 17
def mstatusSum : U64 := 1 <<< 18
def mstatusMxr : U64 := 1 <<< 19
def mstatusTvm : U64 := 1 <<< 20
def mstatusTw : U64 := 1 <<< 21
def mstatusTsr : U64 := 1 <<< 22
def mstatusUxl : U64 := 3 <<< 32
def mstatusSxl : U64 := 3 <<< 34

/-- `MIE_*` and `MIP_*` share their bit positions. -/
def mipSsip : U64 := 1 <<< 1
def mipMsip : U64 := 1 <<< 3
def mipStip : U64 := 1 <<< 5
def mipMtip : U64 := 1 <<< 7
def mipSeip : U64 := 1 <<< 9
def mipMeip : U64 := 1 <<< 11

def menvcfgStce : U64 := 1 <<< 63
def satpModeShift : Nat := 60
def satpModeMask : U64 := 0xF
def satpModeBare : U64 := 0
def satpModeSv39 : U64 := 8

def mstatusDefaultRv64 : U64 := 0xa00000000
/-- The extensions of the default build: `A C D F I M S U`, with `MXL = 2`. -/
def misaDefault : U64 :=
  (2 <<< 62) ||| (1 <<< 0) ||| (1 <<< 2) ||| (1 <<< 3) ||| (1 <<< 5) ||| (1 <<< 8) |||
    (1 <<< 12) ||| (1 <<< 18) ||| (1 <<< 20)

/-- The bits of `mstatus` that `sstatus` shows. -/
def sstatusMask : U64 :=
  mstatusSie ||| mstatusSpie ||| mstatusSpp ||| mstatusFs ||| mstatusSum ||| mstatusMxr |||
    mstatusUxl

end Csr

/-! ### The CSR file -/

structure Csrs where
  mstatus : U64 := 0
  misa : U64 := 0
  medeleg : U64 := 0
  mideleg : U64 := 0
  mie : U64 := 0
  mtvec : U64 := 0
  mscratch : U64 := 0
  mepc : U64 := 0
  mcause : U64 := 0
  mtval : U64 := 0
  mip : U64 := 0
  sstatus : U64 := 0
  stvec : U64 := 0
  sscratch : U64 := 0
  sepc : U64 := 0
  scause : U64 := 0
  stval : U64 := 0
  satp : U64 := 0
  stimecmp : U64 := 0
  fflags : U64 := 0
  frm : U64 := 0
  mcounteren : U64 := 0
  scounteren : U64 := 0
  menvcfg : U64 := 0
  deriving DecidableEq, Repr, Inhabited

/-- `FS := Dirty` in `mstatus` and `sstatus`, as every FP write does. -/
def Csrs.setFsDirty (c : Csrs) : Csrs :=
  { c with
    mstatus := (c.mstatus &&& ~~~Csr.mstatusFs) ||| Csr.mstatusFsDirty
    sstatus := (c.sstatus &&& ~~~Csr.mstatusFs) ||| Csr.mstatusFsDirty }

/-! ### Physical memory protection -/

structure PmpEntry where
  cfg : U8 := 0
  addr : U64 := 0
  deriving DecidableEq, Repr, Inhabited

inductive PmpAddrMatch where
  | off | tor | na4 | napot
  deriving DecidableEq, Repr

inductive PmpResult where
  | allow | deny | noMatch
  deriving DecidableEq, Repr

namespace PmpEntry

def matchMode (e : PmpEntry) : PmpAddrMatch :=
  let bits := (e.cfg >>> 3) &&& 3
  if bits = 0 then .off else if bits = 1 then .tor else if bits = 2 then .na4 else .napot

def isReadable (e : PmpEntry) : Bool := e.cfg &&& 1 != 0
def isWritable (e : PmpEntry) : Bool := e.cfg &&& 2 != 0
def isExecutable (e : PmpEntry) : Bool := e.cfg &&& 4 != 0
def isLocked (e : PmpEntry) : Bool := e.cfg &&& 0x80 != 0

end PmpEntry

structure Pmp where
  entries : List PmpEntry
  deriving DecidableEq, Repr

namespace Pmp

def pmpCount : Nat := 16

def new : Pmp := ⟨List.replicate pmpCount {}⟩

/-- Writes to a locked entry, or past the table, are ignored. -/
def update (p : Pmp) (idx : Nat) (f : PmpEntry → PmpEntry) : Pmp :=
  match p.entries[idx]? with
  | some e => if e.isLocked then p else ⟨p.entries.set idx (f e)⟩
  | none => p

def setCfg (p : Pmp) (idx : Nat) (cfg : U8) : Pmp := p.update idx fun e => { e with cfg := cfg }

def setAddr (p : Pmp) (idx : Nat) (addr : U64) : Pmp := p.update idx fun e => { e with addr := addr }

def getCfg (p : Pmp) (idx : Nat) : U8 := (p.entries[idx]?.map (·.cfg)).getD 0

def getAddr (p : Pmp) (idx : Nat) : U64 := (p.entries[idx]?.map (·.addr)).getD 0

/-- Number of low one bits: `(!x).trailing_zeros()`, with `n` the bits still to look at. -/
def trailingOnes (x : U64) : (n : Nat) → Nat
  | 0 => 0
  | n + 1 => if x.getLsbD (63 - n) then trailingOnes x n + 1 else 0

def napotRange (pmpaddr : U64) : U64 × U64 :=
  let sizeBits := trailingOnes pmpaddr 64 + 3
  if sizeBits ≥ 64 then (0, BitVec.allOnes 64)
  else
    let size : U64 := 1 <<< sizeBits
    let base := (pmpaddr <<< 2) &&& ~~~(size - 1)
    (base, base + size)

def na4Range (pmpaddr : U64) : U64 × U64 := (pmpaddr <<< 2, (pmpaddr <<< 2) + 4)

/-- The range an entry matches; `below` is the address of the entry before it. -/
def range (below : Option U64) (e : PmpEntry) : Option (U64 × U64) :=
  match e.matchMode with
  | .off => none
  | .tor => some ((below.map fun a : U64 => a <<< 2).getD 0, e.addr <<< 2)
  | .na4 => some (na4Range e.addr)
  | .napot => some (napotRange e.addr)

def checkFrom (byteAddr accessEnd : U64) (isRead isWrite isExec isMachine : Bool) :
    Option U64 → List PmpEntry → PmpResult
  | _, [] => if isMachine then .allow else .noMatch
  | below, e :: rest =>
    match range below e with
    | none => checkFrom byteAddr accessEnd isRead isWrite isExec isMachine (some e.addr) rest
    | some (lo, hi) =>
      if byteAddr ≥ lo ∧ accessEnd ≤ hi then
        if isMachine && !e.isLocked then .allow
        else if (!isRead || e.isReadable) && (!isWrite || e.isWritable) &&
            (!isExec || e.isExecutable) then .allow
        else .deny
      else checkFrom byteAddr accessEnd isRead isWrite isExec isMachine (some e.addr) rest

def check (p : Pmp) (byteAddr size : U64) (isRead isWrite isExec isMachine : Bool) : PmpResult :=
  checkFrom byteAddr (byteAddr + size) isRead isWrite isExec isMachine none p.entries

end Pmp

/-! ### Registers -/

/-- `x0` reads as zero and ignores writes; `f0` is an ordinary register. -/
structure RegisterFile where
  gpr : RegIdx → U64
  fpr : RegIdx → U64

namespace RegisterFile

def new : RegisterFile := ⟨fun _ => 0, fun _ => 0⟩

def read (r : RegisterFile) (i : RegIdx) : U64 := if i.isZero then 0 else r.gpr i

def write (r : RegisterFile) (i : RegIdx) (v : U64) : RegisterFile :=
  if i.isZero then r else { r with gpr := Function.update r.gpr i v }

def readF (r : RegisterFile) (i : RegIdx) : U64 := r.fpr i

def writeF (r : RegisterFile) (i : RegIdx) (v : U64) : RegisterFile :=
  { r with fpr := Function.update r.fpr i v }

end RegisterFile

end Rvsim
