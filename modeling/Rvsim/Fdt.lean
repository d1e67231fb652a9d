/-
# The flattened device tree

The builder appends tokens to a structure block and names to a strings block,
sharing a name that is already there. The device tree format, version 17, is
read here by a parser of its own: header, blocks in order and in bounds, tokens
one after the other with zero padding, and a tree whose nodes have their
properties before their children. On every properly nested sequence of calls
the parser gives the tree back.

Key definitions:
  - `FdtBuilder`, `FdtCall`, `Emits`, `dtbCalls`, `generateDtb`
  - `fdtToken`, `fdtTokens`, `fdtTree`, `parseFdt`
Key theorems:
  - `FdtBuilder.apply_writes`, `FdtBuilder.run_written`, `Emits.tree`, `FdtBuilder.build_parses`
  - `dtbCalls_nested`, `generateDtb_small`, `fdt_round_trip`
-/
import Rvsim.Lib.Bytes
import Rvsim.Arch

namespace Rvsim

open Bytes

def FDT_MAGIC : U32 := 0xd00dfeed
def FDT_VERSION : U32 := 17
def FDT_LAST_COMP_VERSION : U32 := 16
def FDT_BEGIN_NODE : U32 := 1
def FDT_END_NODE : U32 := 2
def FDT_PROP : U32 := 3
def FDT_END : U32 := 9

/-- The bytes of a text of ASCII characters. -/
def ascii (s : String) : List U8 := s.toList.map fun c => BitVec.ofNat 8 c.toNat

/-- `u32::to_be_bytes`. -/
def toBeBytes (v : U32) : List U8 := be 4 v.toNat

/-- `as u32` of a length. -/
def asU32 (n : Nat) : U32 := BitVec.ofNat 32 n

/-! ### The builder -/

structure FdtBuilder where
  structBuf : List U8
  stringsBuf : List U8
  stringOffsets : List (List U8 × U32)

namespace FdtBuilder

def new : FdtBuilder := ⟨[], [], []⟩

def push (b : FdtBuilder) (data : List U8) : FdtBuilder := { b with structBuf := b.structBuf ++ data }

def pushU32 (b : FdtBuilder) (val : U32) : FdtBuilder := b.push (toBeBytes val)

/-- Zero bytes up to the next multiple of four. -/
def align (b : FdtBuilder) : FdtBuilder := b.push (List.replicate ((4 - b.structBuf.length % 4) % 4) 0)

def beginNode (b : FdtBuilder) (name : List U8) : FdtBuilder :=
  (((b.pushU32 FDT_BEGIN_NODE).push name).push [0]).align

def endNode (b : FdtBuilder) : FdtBuilder := b.pushU32 FDT_END_NODE

def stringOffset (b : FdtBuilder) (name : List U8) : U32 × FdtBuilder :=
  match b.stringOffsets.find? fun x => x.1 == name with
  | some x => (x.2, b)
  | none =>
    let off := asU32 b.stringsBuf.length
    (off, { b with stringsBuf := b.stringsBuf ++ name ++ [0], stringOffsets := b.stringOffsets ++ [(name, off)] })

def propU32 (b : FdtBuilder) (name : List U8) (val : U32) : FdtBuilder :=
  let (nameOff, b) := b.stringOffset name
  (((b.pushU32 FDT_PROP).pushU32 4).pushU32 nameOff).pushU32 val

def propString (b : FdtBuilder) (name val : List U8) : FdtBuilder :=
  let (nameOff, b) := b.stringOffset name
  (((((b.pushU32 FDT_PROP).pushU32 (asU32 (val.length + 1))).pushU32 nameOff).push val).push [0]).align

def propBytes (b : FdtBuilder) (name data : List U8) : FdtBuilder :=
  let (nameOff, b) := b.stringOffset name
  ((((b.pushU32 FDT_PROP).pushU32 (asU32 data.length)).pushU32 nameOff).push data).align

def propEmpty (b : FdtBuilder) (name : List U8) : FdtBuilder :=
  let (nameOff, b) := b.stringOffset name
  ((b.pushU32 FDT_PROP).pushU32 0).pushU32 nameOff

def propReg22 (b : FdtBuilder) (addr size : U64) : FdtBuilder :=
  b.propBytes (ascii "reg")
    (toBeBytes ((addr >>> 32).setWidth 32) ++ toBeBytes (addr.setWidth 32) ++
      toBeBytes ((size >>> 32).setWidth 32) ++ toBeBytes (size.setWidth 32))

def propReg10 (b : FdtBuilder) (val : U32) : FdtBuilder := b.propBytes (ascii "reg") (toBeBytes val)

def finalize (b : FdtBuilder) : List U8 :=
  let b := b.pushU32 FDT_END
  let structSize := asU32 b.structBuf.length
  let stringsSize := asU32 b.stringsBuf.length
  let headerSize : U32 := 40
  let memrsvSize : U32 := 16
  let dtStructOffset := headerSize + memrsvSize
  let dtStringsOffset := dtStructOffset + structSize
  let totalSize := dtStringsOffset + stringsSize
  [FDT_MAGIC, totalSize, dtStructOffset, dtStringsOffset, headerSize, FDT_VERSION, FDT_LAST_COMP_VERSION, 0,
    stringsSize, structSize].flatMap toBeBytes ++
    List.replicate 16 0 ++ b.structBuf ++ b.stringsBuf

end FdtBuilder

/-- A call on the builder. -/
inductive FdtCall where
  | beginNode (name : List U8)
  | endNode
  | propU32 (name : List U8) (val : U32)
  | propString (name val : List U8)
  | propBytes (name data : List U8)
  | propEmpty (name : List U8)
  | propReg22 (addr size : U64)
  | propReg10 (val : U32)
  deriving DecidableEq, Repr

namespace FdtBuilder

def apply (b : FdtBuilder) : FdtCall → FdtBuilder
  | .beginNode name => b.beginNode name
  | .endNode => b.endNode
  | .propU32 name val => b.propU32 name val
  | .propString name val => b.propString name val
  | .propBytes name data => b.propBytes name data
  | .propEmpty name => b.propEmpty name
  | .propReg22 addr size => b.propReg22 addr size
  | .propReg10 val => b.propReg10 val

/-- The blob of a sequence of calls. -/
def build (calls : List FdtCall) : List U8 := (calls.foldl apply new).finalize

end FdtBuilder

/-! ### The tree of the simulator -/

/-- What `generate_dtb` reads of the configuration. -/
structure DtbConfig where
  ramBase : U64
  ramSize : U64
  uartBase : U64
  diskBase : U64
  clintBase : U64
  sysconBase : U64

/-- `format!("{n:x}")`. -/
def hex (n : U64) : List U8 := (Nat.toDigits 16 n.toNat).map fun c => BitVec.ofNat 8 c.toNat

/-- The calls of `generate_dtb`. -/
def dtbCalls (config : DtbConfig) : List FdtCall :=
  let rtcBase : U64 := 0x101000
  let plicBase : U64 := 0x0c000000
  let timebaseFreq : U32 := 10000000
  let bootargs := ascii "root=/dev/vda rw console=ttyS0 earlycon=uart8250,mmio," ++
      (ascii "0x" ++ hex config.uartBase) ++
    ascii " rootwait"
  let stdoutPath := ascii "/soc/uart@" ++ hex config.uartBase
  let cpu0IntcPhandle : U32 := 1
  let plicPhandle : U32 := 2
  let sysconPhandle : U32 := 3
  [ .beginNode (ascii ""),
    .propU32 (ascii "#address-cells") 2,
    .propU32 (ascii "#size-cells") 2,
    .propString (ascii "compatible") (ascii "riscv-virtio"),
    .propString (ascii "model") (ascii "riscv-virtio,qemu"),
    -- /chosen
    .beginNode (ascii "chosen"),
    .propString (ascii "bootargs") bootargs,
    .propString (ascii "stdout-path") stdoutPath,
    .endNode,
    -- /cpus
    .beginNode (ascii "cpus"),
    .propU32 (ascii "#address-cells") 1,
    .propU32 (ascii "#size-cells") 0,
    .propU32 (ascii "timebase-frequency") timebaseFreq,
    .beginNode (ascii "cpu@0"),
    .propString (ascii "device_type") (ascii "cpu"),
    .propReg10 0,
    .propString (ascii "status") (ascii "okay"),
    .propString (ascii "compatible") (ascii "riscv"),
    .propString (ascii "riscv,isa") (ascii "rv64imafdc"),
    .propString (ascii "mmu-type") (ascii "riscv,sv39"),
    .beginNode (ascii "interrupt-controller"),
    .propU32 (ascii "#interrupt-cells") 1,
    .propEmpty (ascii "interrupt-controller"),
    .propString (ascii "compatible") (ascii "riscv,cpu-intc"),
    .propU32 (ascii "phandle") cpu0IntcPhandle,
    .endNode,
    .endNode,
    .endNode,
    -- /memory
    .beginNode (ascii "memory@" ++ hex config.ramBase),
    .propString (ascii "device_type") (ascii "memory"),
    .propReg22 config.ramBase config.ramSize,
    .endNode,
    -- /soc
    .beginNode (ascii "soc"),
    .propU32 (ascii "#address-cells") 2,
    .propU32 (ascii "#size-cells") 2,
    .propString (ascii "compatible") (ascii "simple-bus"),
    .propEmpty (ascii "ranges"),
    .beginNode (ascii "clint@" ++ hex config.clintBase),
    .propString (ascii "compatible") (ascii "riscv,clint0"),
    .propReg22 config.clintBase 0x10000,
    .propBytes (ascii "interrupts-extended")
      (toBeBytes cpu0IntcPhandle ++ toBeBytes 3 ++ toBeBytes cpu0IntcPhandle ++ toBeBytes 7),
    .endNode,
    .beginNode (ascii "uart@" ++ hex config.uartBase),
    .propString (ascii "compatible") (ascii "ns16550a"),
    .propReg22 config.uartBase 0x100,
    .propU32 (ascii "clock-frequency") 10000000,
    .propU32 (ascii "interrupt-parent") plicPhandle,
    .propBytes (ascii "interrupts") (toBeBytes 10),
    .propString (ascii "status") (ascii "okay"),
    .endNode,
    .beginNode (ascii "virtio_mmio@" ++ hex config.diskBase),
    .propString (ascii "compatible") (ascii "virtio,mmio"),
    .propReg22 config.diskBase 0x1000,
    .propU32 (ascii "interrupt-parent") plicPhandle,
    .propBytes (ascii "interrupts") (toBeBytes 1),
    .endNode,
    .beginNode (ascii "interrupt-controller@" ++ hex plicBase),
    .propString (ascii "compatible") (ascii "riscv,plic0"),
    .propReg22 plicBase 0x4000000,
    .propU32 (ascii "#interrupt-cells") 1,
    .propEmpty (ascii "interrupt-controller"),
    .propBytes (ascii "interrupts-extended")
      (toBeBytes cpu0IntcPhandle ++ toBeBytes 11 ++ toBeBytes cpu0IntcPhandle ++ toBeBytes 9),
    .propU32 (ascii "riscv,ndev") 0x35,
    .propU32 (ascii "phandle") plicPhandle,
    .endNode,
    .beginNode (ascii "syscon@" ++ hex config.sysconBase),
    .propString (ascii "compatible") (ascii "syscon"),
    .propReg22 config.sysconBase 0x1000,
    .propU32 (ascii "phandle") sysconPhandle,
    .endNode,
    .beginNode (ascii "poweroff"),
    .propString (ascii "compatible") (ascii "syscon-poweroff"),
    .propU32 (ascii "regmap") sysconPhandle,
    .propU32 (ascii "offset") 0x00,
    .propU32 (ascii "value") 0x5555,
    .endNode,
    .beginNode (ascii "reboot"),
    .propString (ascii "compatible") (ascii "syscon-reboot"),
    .propU32 (ascii "regmap") sysconPhandle,
    .propU32 (ascii "offset") 0x00,
    .propU32 (ascii "value") 0x7777,
    .endNode,
    .beginNode (ascii "rtc@" ++ hex rtcBase),
    .propString (ascii "compatible") (ascii "google,goldfish-rtc"),
    .propReg22 rtcBase 0x1000,
    .propU32 (ascii "interrupt-parent") plicPhandle,
    .propBytes (ascii "interrupts") (toBeBytes 11),
    .endNode,
    .endNode,
    .endNode ]

def generateDtb (config : DtbConfig) : List U8 := FdtBuilder.build (dtbCalls config)

/-! ### Trees and the calls that emit them -/

structure FdtProp where
  name : List U8
  value : List U8
  deriving DecidableEq, Repr

inductive FdtNode where
  | node (name : List U8) (props : List FdtProp) (children : List FdtNode)

/-- The property that a call writes: numbers and addresses big endian, texts with their end. -/
def FdtCall.prop : FdtCall → Option FdtProp
  | .beginNode _ => none
  | .endNode => none
  | .propU32 name val => some ⟨name, be 4 val.toNat⟩
  | .propString name val => some ⟨name, val ++ [0]⟩
  | .propBytes name data => some ⟨name, data⟩
  | .propEmpty name => some ⟨name, []⟩
  | .propReg22 addr size => some ⟨ascii "reg", be 8 addr.toNat ++ be 8 size.toNat⟩
  | .propReg10 val => some ⟨ascii "reg", be 4 val.toNat⟩

mutual

/-- The calls emit one node: its begin, its properties, its children, its end. -/
inductive Emits : List FdtCall → FdtNode → Prop
  | node (name : List U8) {propCalls childCalls : List FdtCall} {props : List FdtProp} {children : List FdtNode} :
      propCalls.map FdtCall.prop = props.map some → EmitsAll childCalls children →
      Emits (.beginNode name :: (propCalls ++ (childCalls ++ [.endNode]))) (.node name props children)

/-- The calls emit nodes one after the other. -/
inductive EmitsAll : List FdtCall → List FdtNode → Prop
  | nil : EmitsAll [] []
  | cons {calls restCalls : List FdtCall} {node : FdtNode} {rest : List FdtNode} :
      Emits calls node → EmitsAll restCalls rest → EmitsAll (calls ++ restCalls) (node :: rest)

end

/-- The name a call hands over. -/
def FdtCall.name : FdtCall → List U8
  | .beginNode name => name
  | .endNode => []
  | .propU32 name _ => name
  | .propString name _ => name
  | .propBytes name _ => name
  | .propEmpty name => name
  | .propReg22 _ _ => ascii "reg"
  | .propReg10 _ => ascii "reg"

/-- No name has a zero byte. -/
def NulFree (calls : List FdtCall) : Prop := ∀ c ∈ calls, (0 : U8) ∉ c.name

/-! ### The format, version 17 -/

inductive FdtToken where
  | beginNode (name : List U8)
  | endNode
  | prop (p : FdtProp)
  | nop
  deriving DecidableEq, Repr

/-- The end of what stands before `stop`, with its padding, which must be zero. -/
def padded (block : List U8) (stop : Nat) : Option Nat := do
  let pad ← slice block stop (alignUp 4 stop - stop)
  if pad.all (· == 0) then some (alignUp 4 stop) else none

/-- The token at an offset of the structure block, and the offset of the next one. -/
def fdtToken (block strings : List U8) (off : Nat) : Option (FdtToken × Nat) := do
  let tag ← number 4 block off
  if tag = 1 then
    let name ← cstring block (off + 4)
    let next ← padded block (off + 4 + (name.length + 1))
    some (.beginNode name, next)
  else if tag = 2 then some (.endNode, off + 4)
  else if tag = 3 then
    let len ← number 4 block (off + 4)
    let nameOff ← number 4 block (off + 8)
    let value ← slice block (off + 12) len
    let name ← cstring strings nameOff
    let next ← padded block (off + 12 + len)
    some (.prop ⟨name, value⟩, next)
  else if tag = 4 then some (.nop, off + 4)
  else none

/-- The tokens from an offset up to the end token, which must be the last of the block, with their offsets. -/
def fdtTokens (block strings : List U8) : Nat → Nat → Option (List (Nat × FdtToken))
  | 0, _ => none
  | fuel + 1, off =>
    if number 4 block off = some 9 then if off + 4 = block.length then some [] else none
    else do
      let (token, next) ← fdtToken block strings off
      let rest ← fdtTokens block strings fuel next
      some ((off, token) :: rest)

/-- An open node. -/
structure FdtFrame where
  name : List U8
  props : List FdtProp
  children : List FdtNode

def FdtFrame.close (f : FdtFrame) : FdtNode := .node f.name f.props f.children

/-- The tree of the tokens: one root, in each node the properties before the children. -/
def fdtTree : List FdtFrame → List FdtToken → Option FdtNode
  | _, [] => none
  | stack, .nop :: ts => fdtTree stack ts
  | stack, .beginNode name :: ts => fdtTree (⟨name, [], []⟩ :: stack) ts
  | [], .prop _ :: _ => none
  | f :: stack, .prop p :: ts =>
    if f.children.isEmpty then fdtTree ({ f with props := f.props ++ [p] } :: stack) ts else none
  | [], .endNode :: _ => none
  | [f], .endNode :: ts => if ts.all (· == .nop) then some f.close else none
  | f :: g :: stack, .endNode :: ts => fdtTree ({ g with children := g.children ++ [f.close] } :: stack) ts

/-- The memory reservations, up to the empty one that ends them. -/
def fdtReservations (blob : List U8) : Nat → Nat → Option (List (Nat × Nat))
  | 0, _ => none
  | fuel + 1, off => do
    let address ← number 8 blob off
    let size ← number 8 blob (off + 8)
    if address = 0 ∧ size = 0 then some []
    else
      let rest ← fdtReservations blob fuel (off + 16)
      some ((address, size) :: rest)

structure FdtHeader where
  magic : Nat
  totalSize : Nat
  offDtStruct : Nat
  offDtStrings : Nat
  offMemRsvmap : Nat
  version : Nat
  lastCompVersion : Nat
  bootCpuidPhys : Nat
  sizeDtStrings : Nat
  sizeDtStruct : Nat
  deriving DecidableEq, Repr

def fdtHeader (blob : List U8) : Option FdtHeader := do
  some ⟨← number 4 blob 0, ← number 4 blob 4, ← number 4 blob 8, ← number 4 blob 12, ← number 4 blob 16,
    ← number 4 blob 20, ← number 4 blob 24, ← number 4 blob 28, ← number 4 blob 32, ← number 4 blob 36⟩

/-- The header fits the blob: the blocks are aligned, in order, apart and in bounds. -/
abbrev FdtHeader.Fits (h : FdtHeader) (length : Nat) : Prop :=
  h.magic = 0xd00dfeed ∧ h.totalSize = length ∧ h.version = 17 ∧ h.lastCompVersion ≤ 17 ∧
    40 ≤ h.offMemRsvmap ∧ h.offMemRsvmap % 8 = 0 ∧ h.offMemRsvmap + 16 ≤ h.offDtStruct ∧ h.offDtStruct % 4 = 0 ∧
    h.sizeDtStruct % 4 = 0 ∧ h.offDtStruct + h.sizeDtStruct ≤ h.offDtStrings ∧
    h.offDtStrings + h.sizeDtStrings ≤ h.totalSize

structure Fdt where
  header : FdtHeader
  reservations : List (Nat × Nat)
  /-- The offsets of the structure tokens in the blob. -/
  tokenOffsets : List Nat
  root : FdtNode

def parseFdt (blob : List U8) : Option Fdt := do
  let header ← fdtHeader blob
  if header.Fits blob.length then
    let reservations ← fdtReservations (blob.take header.offDtStruct) blob.length header.offMemRsvmap
    let block ← slice blob header.offDtStruct header.sizeDtStruct
    let strings ← slice blob header.offDtStrings header.sizeDtStrings
    let tokens ← fdtTokens block strings (block.length + 1) 0
    let root ← fdtTree [] (tokens.map Prod.snd)
    some ⟨header, reservations, tokens.map fun t => header.offDtStruct + t.1, root⟩
  else none

/-! ### One call, one token -/

/-- The token a call writes. -/
def FdtCall.token (c : FdtCall) : FdtToken :=
  match c.prop, c with
  | some p, _ => .prop p
  | none, .beginNode name => .beginNode name
  | none, _ => .endNode

theorem FdtCall.prop_name {c : FdtCall} {p : FdtProp} (h : c.prop = some p) : p.name = c.name := by
  cases c with
  | beginNode _ => cases h
  | endNode => cases h
  | propU32 _ _ => cases h; rfl
  | propString _ _ => cases h; rfl
  | propBytes _ _ => cases h; rfl
  | propEmpty _ => cases h; rfl
  | propReg22 _ _ => cases h; rfl
  | propReg10 _ => cases h; rfl

@[simp] theorem length_toBeBytes (v : U32) : (toBeBytes v).length = 4 := length_be 4 _

theorem toNat_asU32 {n : Nat} (h : n < 2 ^ 32) : (asU32 n).toNat = n := by
  rw [asU32, BitVec.toNat_ofNat, Nat.mod_eq_of_lt h]

/-- A `u32` where it was written. -/
theorem number_word (pre post : List U8) (v : U32) :
    number 4 (pre ++ (toBeBytes v ++ post)) pre.length = some v.toNat :=
  number_at pre post v.toNat v.isLt

theorem padded_at (pre : List U8) (k : Nat) (hk : k = (4 - pre.length % 4) % 4) :
    padded (pre ++ List.replicate k 0) pre.length = some (pre ++ List.replicate k (0 : U8)).length := by
  have halign : alignUp 4 pre.length = pre.length + k := by rw [alignUp, hk]
  have hs : slice (pre ++ List.replicate k (0 : U8)) pre.length k = some (List.replicate k 0) := by
    have := slice_at pre (List.replicate k (0 : U8)) []
    rwa [List.append_nil, List.length_replicate] at this
  rw [padded, halign, Nat.add_sub_cancel_left, hs]
  simp

theorem padded_mono {block more : List U8} {stop next : Nat} (h : padded block stop = some next) :
    padded (block ++ more) stop = some next := by
  obtain ⟨pad, hpad, h⟩ := Option.bind_eq_some_iff.mp h
  rw [padded, slice_mono hpad]
  exact h

/-- A token read stays as it is when the blocks grow. -/
theorem fdtToken_mono {block strings : List U8} (more moreStrings : List U8) {off next : Nat} {t : FdtToken}
    (h : fdtToken block strings off = some (t, next)) :
    fdtToken (block ++ more) (strings ++ moreStrings) off = some (t, next) := by
  obtain ⟨tag, htag, h⟩ := Option.bind_eq_some_iff.mp h
  rw [fdtToken, number_mono htag]
  rw [Option.bind_eq_bind, Option.bind_some]
  by_cases h1 : tag = 1
  · rw [if_pos h1] at h ⊢
    obtain ⟨name, hname, h⟩ := Option.bind_eq_some_iff.mp h
    obtain ⟨n, hn, h⟩ := Option.bind_eq_some_iff.mp h
    simp only [cstring_mono hname, padded_mono hn, Option.bind_eq_bind, Option.bind_some]
    exact h
  · rw [if_neg h1] at h ⊢
    by_cases h2 : tag = 2
    · rw [if_pos h2] at h ⊢
      exact h
    · rw [if_neg h2] at h ⊢
      by_cases h3 : tag = 3
      · rw [if_pos h3] at h ⊢
        obtain ⟨len, hlen, h⟩ := Option.bind_eq_some_iff.mp h
        obtain ⟨nameOff, hoff, h⟩ := Option.bind_eq_some_iff.mp h
        obtain ⟨value, hvalue, h⟩ := Option.bind_eq_some_iff.mp h
        obtain ⟨name, hname, h⟩ := Option.bind_eq_some_iff.mp h
        obtain ⟨n, hn, h⟩ := Option.bind_eq_some_iff.mp h
        simp only [number_mono hlen, number_mono hoff, slice_mono hvalue, cstring_mono hname, padded_mono hn,
          Option.bind_eq_bind, Option.bind_some]
        exact h
      · rw [if_neg h3] at h ⊢
        by_cases h4 : tag = 4
        · rw [if_pos h4] at h ⊢
          exact h
        · rw [if_neg h4] at h
          cases h

namespace FdtBuilder

variable {b : FdtBuilder}

/-- The structure block ends at a token boundary, and every name in the table is where its offset says. -/
structure Sound (b : FdtBuilder) : Prop where
  aligned : b.structBuf.length % 4 = 0
  names : ∀ x ∈ b.stringOffsets, cstring b.stringsBuf x.2.toNat = some x.1

theorem Sound.new : new.Sound := ⟨rfl, by simp [FdtBuilder.new]⟩

/-- **A name.** It is where the offset says, and the names before it stay. -/
theorem stringOffset_spec (hs : b.Sound) (name : List U8) (hnul : (0 : U8) ∉ name)
    (hT : (b.stringOffset name).2.stringsBuf.length < 2 ^ 32) :
    (b.stringOffset name).2.structBuf = b.structBuf ∧ b.stringsBuf <+: (b.stringOffset name).2.stringsBuf ∧
      cstring (b.stringOffset name).2.stringsBuf (b.stringOffset name).1.toNat = some name ∧
      (b.stringOffset name).2.Sound := by
  unfold stringOffset at hT ⊢
  cases hf : b.stringOffsets.find? (fun x => x.1 == name) with
  | some x =>
    have hx : x.1 = name := by simpa using List.find?_some hf
    exact ⟨rfl, List.prefix_rfl, hx ▸ hs.names x (List.mem_of_find?_eq_some hf), hs⟩
  | none =>
    rw [hf] at hT
    simp only [List.append_assoc] at hT ⊢
    have hoff : (asU32 b.stringsBuf.length).toNat = b.stringsBuf.length := by
      refine toNat_asU32 (Nat.lt_of_le_of_lt ?_ hT)
      simp only [List.length_append]
      omega
    have hnew : cstring (b.stringsBuf ++ (name ++ [0])) (asU32 b.stringsBuf.length).toNat = some name := by
      rw [hoff]
      exact cstring_at b.stringsBuf name [] hnul
    refine ⟨trivial, List.prefix_append _ _, hnew, hs.aligned, fun x hx => ?_⟩
    rcases List.mem_append.mp hx with hx | hx
    · exact cstring_mono (hs.names x hx)
    · rw [List.mem_singleton.mp hx]
      exact hnew

theorem align_of_aligned (h : b.structBuf.length % 4 = 0) : b.align = b := by
  rw [align, h]
  simp [push]

theorem stringOffset_structBuf (b : FdtBuilder) (name : List U8) : (b.stringOffset name).2.structBuf = b.structBuf := by
  unfold stringOffset
  cases b.stringOffsets.find? (fun x => x.1 == name) <;> rfl

theorem propBytes_eq (b : FdtBuilder) (name data : List U8) :
    b.propBytes name data = (((((b.stringOffset name).2.pushU32 FDT_PROP).pushU32 (asU32 data.length)).pushU32
      (b.stringOffset name).1).push data).align := rfl

/-- The two words of a `u64`. -/
theorem toBeBytes_halves (v : U64) :
    toBeBytes ((v >>> 32).setWidth 32) ++ toBeBytes (v.setWidth 32) = be 8 v.toNat := by
  have hhi : ((v >>> 32).setWidth 32).toNat = v.toNat / 256 ^ 4 := by
    rw [BitVec.toNat_setWidth, BitVec.toNat_ushiftRight, Nat.shiftRight_eq_div_pow]
    have := v.isLt
    omega
  have hlo : (v.setWidth 32).toNat = v.toNat % 256 ^ 4 := by
    rw [BitVec.toNat_setWidth, show (2 : Nat) ^ 32 = 256 ^ 4 from rfl]
  rw [toBeBytes, toBeBytes, hhi, hlo, be_mod 4 _ (le_refl 4)]
  exact be_append 4 4 v.toNat

/-- A property call writes the bytes of its property. -/
theorem apply_prop (h : b.structBuf.length % 4 = 0) {c : FdtCall} {p : FdtProp} (hp : c.prop = some p) :
    b.apply c = b.propBytes p.name p.value := by
  cases c with
  | beginNode _ => cases hp
  | endNode => cases hp
  | propU32 name val =>
    obtain rfl := Option.some.inj hp
    rw [propBytes_eq, align_of_aligned]
    · rfl
    · simp only [push, pushU32, stringOffset_structBuf, List.length_append, length_toBeBytes, length_be]
      omega
  | propString name val =>
    obtain rfl := Option.some.inj hp
    simp only [apply, propString, propBytes, push, List.length_append, List.length_singleton, List.append_assoc]
  | propBytes name data =>
    obtain rfl := Option.some.inj hp
    rfl
  | propEmpty name =>
    obtain rfl := Option.some.inj hp
    rw [propBytes_eq, align_of_aligned]
    · simp only [push, List.append_nil]
      rfl
    · simp only [push, pushU32, stringOffset_structBuf, List.length_append, length_toBeBytes, List.length_nil]
      omega
  | propReg22 addr size =>
    obtain rfl := Option.some.inj hp
    simp only [apply, propReg22, ← toBeBytes_halves, List.append_assoc]
  | propReg10 val =>
    obtain rfl := Option.some.inj hp
    rfl

/-- What a call does to a sound builder: one token more, read back as written. -/
structure Writes (b b' : FdtBuilder) (t : FdtToken) : Prop where
  token : fdtToken b'.structBuf b'.stringsBuf b.structBuf.length = some (t, b'.structBuf.length)
  longer : b.structBuf.length + 4 ≤ b'.structBuf.length
  struct : b.structBuf <+: b'.structBuf
  strings : b.stringsBuf <+: b'.stringsBuf
  sound : b'.Sound

theorem align_structBuf (b : FdtBuilder) :
    b.align.structBuf = b.structBuf ++ List.replicate ((4 - b.structBuf.length % 4) % 4) 0 := rfl

theorem aligned_align (b : FdtBuilder) : b.align.structBuf.length % 4 = 0 := by
  rw [align_structBuf, List.length_append, List.length_replicate]
  omega

theorem propBytes_writes (hs : b.Sound) {name data : List U8} (hnul : (0 : U8) ∉ name)
    (hS : (b.propBytes name data).structBuf.length < 2 ^ 32) (hT : (b.propBytes name data).stringsBuf.length < 2 ^ 32) :
    Writes b (b.propBytes name data) (.prop ⟨name, data⟩) := by
  rw [propBytes_eq] at hS hT ⊢
  obtain ⟨hstruct, hpre, hname, hsound⟩ := stringOffset_spec hs name hnul hT
  generalize b.stringOffset name = r at hS hT hstruct hpre hname hsound ⊢
  obtain ⟨off, b₁⟩ := r
  dsimp only at hS hT hstruct hpre hname hsound ⊢
  -- the block before the padding
  generalize hpos : (((b₁.pushU32 FDT_PROP).pushU32 (asU32 data.length)).pushU32 off).push data = b₂ at hS hT ⊢
  have hblock : b₂.structBuf = b.structBuf ++ (toBeBytes FDT_PROP ++ (toBeBytes (asU32 data.length) ++
      (toBeBytes off ++ data))) := by
    rw [← hpos, ← hstruct]
    simp only [push, pushU32, List.append_assoc]
  have hstr : b₂.stringsBuf = b₁.stringsBuf := by rw [← hpos]; rfl
  have hlen : b₂.structBuf.length = b.structBuf.length + 12 + data.length := by
    rw [hblock]
    simp only [List.length_append, length_toBeBytes]
    omega
  have hdata : (asU32 data.length).toNat = data.length := by
    refine toNat_asU32 (Nat.lt_of_le_of_lt ?_ hS)
    rw [align_structBuf, List.length_append, hlen]
    omega
  refine ⟨?_, ?_, ?_, ?_, ?_, ?_⟩
  · -- the token
    rw [align_structBuf]
    show fdtToken _ b₂.stringsBuf _ = _
    have htag : number 4 b₂.structBuf b.structBuf.length = some 3 := by
      rw [hblock]
      exact number_word _ _ FDT_PROP
    have hlenAt : number 4 b₂.structBuf (b.structBuf.length + 4) = some data.length := by
      have := number_word (b.structBuf ++ toBeBytes FDT_PROP) (toBeBytes off ++ data) (asU32 data.length)
      rwa [List.append_assoc, ← hblock, List.length_append, length_toBeBytes, hdata] at this
    have hoffAt : number 4 b₂.structBuf (b.structBuf.length + 8) = some off.toNat := by
      have := number_word (b.structBuf ++ (toBeBytes FDT_PROP ++ toBeBytes (asU32 data.length))) data off
      rwa [List.append_assoc, List.append_assoc, ← hblock, List.length_append, List.length_append, length_toBeBytes,
        length_toBeBytes] at this
    have hvalue : slice b₂.structBuf (b.structBuf.length + 12) data.length = some data := by
      have := slice_at (b.structBuf ++ (toBeBytes FDT_PROP ++ (toBeBytes (asU32 data.length) ++ toBeBytes off))) data []
      rwa [List.append_nil, List.append_assoc, List.append_assoc, List.append_assoc, ← hblock, List.length_append,
        List.length_append, List.length_append, length_toBeBytes, length_toBeBytes, length_toBeBytes] at this
    have hpad := padded_at b₂.structBuf _ rfl
    rw [hlen] at hpad
    rw [hstr, fdtToken]
    simp only [number_mono htag, number_mono hlenAt, number_mono hoffAt, slice_mono hvalue, hname, hpad, hlen,
      Option.bind_eq_bind, Option.bind_some, if_pos, show ¬(3 = 1) by decide, show ¬(3 = 2) by decide, if_false]
  · rw [align_structBuf, List.length_append, hlen]
    omega
  · rw [align_structBuf, hblock, List.append_assoc]
    exact List.prefix_append _ _
  · show b.stringsBuf <+: b₂.stringsBuf
    rw [hstr]
    exact hpre
  · exact aligned_align b₂
  · rw [← hpos]
    exact hsound.names

theorem beginNode_writes (hs : b.Sound) {name : List U8} (hnul : (0 : U8) ∉ name) :
    Writes b (b.beginNode name) (.beginNode name) := by
  have hdef : b.beginNode name = (((b.pushU32 FDT_BEGIN_NODE).push name).push [0]).align := rfl
  rw [hdef]
  generalize hpos : ((b.pushU32 FDT_BEGIN_NODE).push name).push [0] = b₂
  have hblock : b₂.structBuf = b.structBuf ++ (toBeBytes FDT_BEGIN_NODE ++ (name ++ [0])) := by
    rw [← hpos]
    simp only [push, pushU32, List.append_assoc]
  have hlen : b₂.structBuf.length = b.structBuf.length + 4 + (name.length + 1) := by
    rw [hblock]
    simp only [List.length_append, length_toBeBytes, List.length_singleton]
    omega
  refine ⟨?_, ?_, ?_, ?_, aligned_align b₂, ?_⟩
  · rw [align_structBuf]
    have htag : number 4 b₂.structBuf b.structBuf.length = some 1 := by
      rw [hblock]
      exact number_word _ _ FDT_BEGIN_NODE
    have hname : cstring b₂.structBuf (b.structBuf.length + 4) = some name := by
      have := cstring_at (b.structBuf ++ toBeBytes FDT_BEGIN_NODE) name [] hnul
      rwa [List.append_assoc, ← hblock, List.length_append, length_toBeBytes] at this
    have hpad := padded_at b₂.structBuf _ rfl
    rw [hlen] at hpad
    rw [fdtToken]
    simp only [number_mono htag, cstring_mono hname, hpad, hlen, Option.bind_eq_bind, Option.bind_some, if_pos]
  · rw [align_structBuf, List.length_append, hlen]
    omega
  · rw [align_structBuf, hblock, List.append_assoc]
    exact List.prefix_append _ _
  · rw [← hpos]
    exact List.prefix_rfl
  · rw [← hpos]
    exact hs.names

theorem endNode_writes (hs : b.Sound) : Writes b b.endNode .endNode := by
  have hlen : b.endNode.structBuf.length = b.structBuf.length + 4 := by
    simp only [endNode, pushU32, push, List.length_append, length_toBeBytes]
  refine ⟨?_, by omega, List.prefix_append _ _, List.prefix_rfl, by rw [hlen]; have := hs.aligned; omega, hs.names⟩
  have htag : number 4 b.endNode.structBuf b.structBuf.length = some 2 := by
    have := number_word b.structBuf [] FDT_END_NODE
    rwa [List.append_nil] at this
  rw [fdtToken, htag, hlen]
  rfl

/-- **One call.** -/
theorem apply_writes (hs : b.Sound) (c : FdtCall) (hnul : (0 : U8) ∉ c.name)
    (hS : (b.apply c).structBuf.length < 2 ^ 32) (hT : (b.apply c).stringsBuf.length < 2 ^ 32) :
    Writes b (b.apply c) c.token := by
  cases hp : c.prop with
  | some p =>
    have hname := FdtCall.prop_name hp
    have htoken : c.token = .prop ⟨p.name, p.value⟩ := by
      simp only [FdtCall.token, hp]
    rw [apply_prop hs.aligned hp] at hS hT ⊢
    rw [htoken]
    exact propBytes_writes hs (hname ▸ hnul) hS hT
  | none =>
    cases c with
    | beginNode name => exact beginNode_writes hs hnul
    | endNode => exact endNode_writes hs
    | _ => cases hp

/-! ### A run of calls -/

theorem stringOffset_grows (b : FdtBuilder) (name : List U8) :
    b.stringsBuf.length ≤ (b.stringOffset name).2.stringsBuf.length := by
  unfold stringOffset
  cases b.stringOffsets.find? (fun x => x.1 == name) with
  | some x => exact le_refl _
  | none =>
    simp only [List.length_append]
    omega

theorem propBytes_grows (b : FdtBuilder) (name data : List U8) :
    b.structBuf.length ≤ (b.propBytes name data).structBuf.length ∧
      b.stringsBuf.length ≤ (b.propBytes name data).stringsBuf.length := by
  refine ⟨?_, stringOffset_grows b name⟩
  rw [propBytes_eq, align_structBuf]
  simp only [push, pushU32, stringOffset_structBuf, List.length_append]
  omega

theorem apply_grows (h : b.structBuf.length % 4 = 0) (c : FdtCall) :
    b.structBuf.length ≤ (b.apply c).structBuf.length ∧ b.stringsBuf.length ≤ (b.apply c).stringsBuf.length ∧
      (b.apply c).structBuf.length % 4 = 0 := by
  cases hp : c.prop with
  | some p =>
    rw [apply_prop h hp]
    exact ⟨(propBytes_grows b _ _).1, (propBytes_grows b _ _).2, aligned_align _⟩
  | none =>
    cases c with
    | beginNode name =>
      refine ⟨?_, le_refl _, aligned_align _⟩
      simp only [apply, beginNode, align, push, pushU32, List.length_append]
      omega
    | endNode =>
      simp only [apply, endNode, push, pushU32, List.length_append, length_toBeBytes]
      omega
    | _ => cases hp

theorem run_grows (h : b.structBuf.length % 4 = 0) (calls : List FdtCall) :
    b.structBuf.length ≤ (calls.foldl apply b).structBuf.length ∧
      b.stringsBuf.length ≤ (calls.foldl apply b).stringsBuf.length := by
  induction calls generalizing b with
  | nil => exact ⟨le_refl _, le_refl _⟩
  | cons c calls ih =>
    obtain ⟨h1, h2, h3⟩ := apply_grows h c
    obtain ⟨h4, h5⟩ := ih h3
    exact ⟨Nat.le_trans h1 h4, Nat.le_trans h2 h5⟩

/-- What a run of calls leaves in the blocks: their tokens in order, each at a multiple of four. -/
structure Written (b b' : FdtBuilder) (calls : List FdtCall) : Prop where
  tokens : ∀ fuel, calls.length < fuel → ∃ toks,
    fdtTokens (b'.structBuf ++ toBeBytes FDT_END) b'.stringsBuf fuel b.structBuf.length = some toks ∧
      toks.map Prod.snd = calls.map FdtCall.token ∧ ∀ x ∈ toks, x.1 % 4 = 0
  longer : b.structBuf.length + calls.length ≤ b'.structBuf.length
  struct : b.structBuf <+: b'.structBuf
  strings : b.stringsBuf <+: b'.stringsBuf
  sound : b'.Sound

/-- The end token ends the block. -/
theorem fdtTokens_end (S T : List U8) (fuel : Nat) :
    fdtTokens (S ++ toBeBytes FDT_END) T (fuel + 1) S.length = some [] := by
  have htag : number 4 (S ++ toBeBytes FDT_END) S.length = some 9 := by
    have := number_word S [] FDT_END
    rwa [List.append_nil] at this
  rw [fdtTokens, if_pos htag, if_pos (by rw [List.length_append, length_toBeBytes])]

/-- What is read as a token is not the end token. -/
theorem fdtToken_tag {block strings : List U8} {off : Nat} {x : FdtToken × Nat}
    (h : fdtToken block strings off = some x) :
    number 4 block off ≠ some 9 := by
  intro h9
  rw [fdtToken, h9] at h
  cases h

/-- **A run of calls.** -/
theorem run_written (hs : b.Sound) (calls : List FdtCall) (hnul : NulFree calls)
    (hS : (calls.foldl apply b).structBuf.length < 2 ^ 32) (hT : (calls.foldl apply b).stringsBuf.length < 2 ^ 32) :
    Written b (calls.foldl apply b) calls := by
  induction calls generalizing b with
  | nil =>
    refine ⟨fun fuel hf => ?_, le_refl _, List.prefix_rfl, List.prefix_rfl, hs⟩
    obtain ⟨n, rfl⟩ := Nat.exists_eq_succ_of_ne_zero (Nat.ne_of_gt hf)
    exact ⟨[], fdtTokens_end _ _ n, rfl, by simp⟩
  | cons c calls ih =>
    rw [List.foldl_cons] at hS hT ⊢
    obtain ⟨hgS, hgT⟩ := run_grows (apply_grows hs.aligned c).2.2 calls
    have hw := apply_writes hs c (hnul c List.mem_cons_self) (Nat.lt_of_le_of_lt hgS hS) (Nat.lt_of_le_of_lt hgT hT)
    have hr := ih hw.sound (fun x hx => hnul x (List.mem_cons_of_mem _ hx)) hS hT
    refine ⟨fun fuel hf => ?_, ?_, hw.struct.trans hr.struct, hw.strings.trans hr.strings, hr.sound⟩
    · obtain ⟨n, rfl⟩ := Nat.exists_eq_succ_of_ne_zero (Nat.ne_of_gt (Nat.lt_of_le_of_lt (Nat.zero_le _) hf))
      rw [List.length_cons] at hf
      obtain ⟨toks, htoks, htokens, halign⟩ := hr.tokens n (by omega)
      -- the token is read in the final blocks as in those it was written to
      obtain ⟨more, hmore⟩ := hr.struct
      obtain ⟨moreStrings, hmoreStrings⟩ := hr.strings
      have htok := fdtToken_mono (more ++ toBeBytes FDT_END) moreStrings hw.token
      rw [← List.append_assoc, hmore, hmoreStrings] at htok
      refine ⟨(b.structBuf.length, c.token) :: toks, ?_, ?_, ?_⟩
      · rw [fdtTokens, if_neg (fdtToken_tag htok), htok]
        simp only [Option.bind_eq_bind, Option.bind_some, htoks]
      · rw [List.map_cons, List.map_cons, htokens]
      · intro x hx
        rcases List.mem_cons.mp hx with rfl | hx
        · exact hs.aligned
        · exact halign x hx
    · have := hw.longer
      have := hr.longer
      rw [List.length_cons]
      omega

end FdtBuilder

/-! ### Nested calls are one tree -/

/-- Properties go to the open node while it has no children. -/
theorem fdtTree_props {propCalls : List FdtCall} {props : List FdtProp}
    (h : propCalls.map FdtCall.prop = props.map some)
    (name : List U8) (before : List FdtProp) (stack : List FdtFrame) (rest : List FdtToken) :
    fdtTree (⟨name, before, []⟩ :: stack) (propCalls.map FdtCall.token ++ rest) =
      fdtTree (⟨name, before ++ props, []⟩ :: stack) rest := by
  induction propCalls generalizing props before with
  | nil =>
    obtain rfl : props = [] := by simpa using h.symm
    rw [List.append_nil]
    rfl
  | cons c cs ih =>
    obtain ⟨p, ps, rfl⟩ : ∃ p ps, props = p :: ps := by
      cases props with
      | nil => simp at h
      | cons p ps => exact ⟨p, ps, rfl⟩
    rw [List.map_cons, List.map_cons, List.cons.injEq] at h
    have htoken : c.token = .prop p := by simp only [FdtCall.token, h.1]
    rw [List.map_cons, htoken, List.cons_append, fdtTree]
    simp only [List.isEmpty_nil, if_true]
    rw [ih h.2 (before ++ [p]), List.append_assoc]
    rfl

mutual

/-- The calls of a node build it up to its end. -/
theorem Emits.inside {calls : List FdtCall} {node : FdtNode} (h : Emits calls node) (stack : List FdtFrame)
    (rest : List FdtToken) :
    ∃ f : FdtFrame, f.close = node ∧
      fdtTree stack (calls.map FdtCall.token ++ rest) = fdtTree (f :: stack) (.endNode :: rest) := by
  obtain @⟨name, propCalls, childCalls, props, children, hprops, hchildren⟩ := h
  refine ⟨⟨name, props, children⟩, rfl, ?_⟩
  simp only [List.map_cons, List.map_append, List.cons_append, List.append_assoc]
  rw [show (FdtCall.beginNode name).token = .beginNode name from rfl, fdtTree, fdtTree_props hprops,
    hchildren.inside]
  rfl

/-- The calls of nodes add them to the open node. -/
theorem EmitsAll.inside {calls : List FdtCall} {nodes : List FdtNode} (h : EmitsAll calls nodes) (f : FdtFrame)
    (stack : List FdtFrame) (rest : List FdtToken) :
    fdtTree (f :: stack) (calls.map FdtCall.token ++ rest) =
      fdtTree ({ f with children := f.children ++ nodes } :: stack) rest := by
  match h with
  | .nil => simp
  | @EmitsAll.cons calls restCalls node nodes hnode hrest =>
    obtain ⟨g, hg, heq⟩ := hnode.inside (f :: stack) (restCalls.map FdtCall.token ++ rest)
    rw [List.map_append, List.append_assoc, heq, fdtTree, hg, hrest.inside, List.append_assoc]
    rfl

end

/-- One root, and nothing after it. -/
theorem Emits.tree {calls : List FdtCall} {root : FdtNode} (h : Emits calls root) :
    fdtTree [] (calls.map FdtCall.token) = some root := by
  obtain ⟨f, hf, heq⟩ := h.inside [] []
  rw [List.append_nil] at heq
  rw [heq, fdtTree, hf]
  rfl

/-! ### The blob -/

namespace FdtBuilder

variable {b : FdtBuilder}

theorem flatMap_toBeBytes (ws : List U32) : ws.flatMap toBeBytes = (ws.map (·.toNat)).flatMap (be 4) := by
  rw [List.flatMap_map]
  rfl

theorem length_finalize (b : FdtBuilder) : b.finalize.length = 60 + b.structBuf.length + b.stringsBuf.length := by
  simp only [finalize, pushU32, push, List.length_append, length_toBeBytes, List.length_replicate, List.flatMap_cons,
    List.flatMap_nil, List.length_nil]
  omega

/-- The header of a blob below 4 GiB says where the blocks are. -/
theorem finalize_eq (hsize : b.finalize.length < 2 ^ 32) :
    b.finalize = [0xd00dfeed, b.finalize.length, 56, 60 + b.structBuf.length, 40, 17, 16, 0, b.stringsBuf.length,
      b.structBuf.length + 4].flatMap (be 4) ++
        (List.replicate 16 0 ++ ((b.structBuf ++ toBeBytes FDT_END) ++ b.stringsBuf)) := by
  have hlen := length_finalize b
  have hS : (b.pushU32 FDT_END).structBuf.length = b.structBuf.length + 4 := by
    simp only [pushU32, push, List.length_append, length_toBeBytes]
  have hstruct : (asU32 (b.pushU32 FDT_END).structBuf.length).toNat = b.structBuf.length + 4 := by
    rw [toNat_asU32 (by omega), hS]
  have hstrings : (asU32 (b.pushU32 FDT_END).stringsBuf.length).toNat = b.stringsBuf.length :=
    toNat_asU32 (by show b.stringsBuf.length < 2 ^ 32; omega)
  have hoff : ((40 : U32) + 16 + asU32 (b.pushU32 FDT_END).structBuf.length).toNat = 60 + b.structBuf.length := by
    rw [BitVec.toNat_add, hstruct, show ((40 : U32) + 16).toNat = 56 from rfl]
    omega
  have htotal : ((40 : U32) + 16 + asU32 (b.pushU32 FDT_END).structBuf.length +
      asU32 (b.pushU32 FDT_END).stringsBuf.length).toNat = b.finalize.length := by
    rw [BitVec.toNat_add, hoff, hstrings]
    omega
  conv_lhs => unfold finalize
  have hend : (b.pushU32 FDT_END).structBuf = b.structBuf ++ toBeBytes FDT_END := rfl
  simp only [flatMap_toBeBytes, List.map_cons, List.map_nil, hstruct, hstrings, hoff, htotal, List.append_assoc]
  rw [hend, List.append_assoc]
  rfl

theorem header_finalize (hsize : b.finalize.length < 2 ^ 32) :
    fdtHeader b.finalize = some ⟨0xd00dfeed, b.finalize.length, 56, 60 + b.structBuf.length, 40, 17, 16, 0,
      b.stringsBuf.length, b.structBuf.length + 4⟩ := by
  have hlen := length_finalize b
  have hrow : ∀ i, i < 10 → number 4 b.finalize (i * 4) = [0xd00dfeed, b.finalize.length, 56,
      60 + b.structBuf.length, 40, 17, 16, 0, b.stringsBuf.length, b.structBuf.length + 4][i]? := by
    intro i hi
    conv_lhs => rw [finalize_eq hsize]
    rw [List.getElem?_eq_getElem (by exact hi)]
    refine number_row _ _ (fun v hv => ?_) hi
    simp only [List.mem_cons, List.not_mem_nil, or_false] at hv
    omega
  have hword : ∀ i n v, i < 10 → n = i * 4 → [0xd00dfeed, b.finalize.length, 56,
      60 + b.structBuf.length, 40, 17, 16, 0, b.stringsBuf.length, b.structBuf.length + 4][i]? = some v →
      number 4 b.finalize n = some v := by
    intro i n v hi hn hv
    rw [hn, hrow i hi, hv]
  rw [fdtHeader, hword 0 0 _ (by decide) rfl rfl, hword 1 4 _ (by decide) rfl rfl, hword 2 8 _ (by decide) rfl rfl,
    hword 3 12 _ (by decide) rfl rfl, hword 4 16 _ (by decide) rfl rfl, hword 5 20 _ (by decide) rfl rfl,
    hword 6 24 _ (by decide) rfl rfl, hword 7 28 _ (by decide) rfl rfl, hword 8 32 _ (by decide) rfl rfl,
    hword 9 36 _ (by decide) rfl rfl]
  rfl

/-- The blocks behind the header and the reservations. -/
theorem finalize_blocks (b : FdtBuilder) : ∃ header : List U8, header.length = 40 ∧
    b.finalize = (header ++ List.replicate 16 0) ++ ((b.structBuf ++ toBeBytes FDT_END) ++ b.stringsBuf) := by
  refine ⟨_, ?_, List.append_assoc _ _ _⟩
  simp only [List.flatMap_cons, List.flatMap_nil, List.length_append, length_toBeBytes, List.length_nil]

theorem slice_struct (b : FdtBuilder) :
    slice b.finalize 56 (b.structBuf.length + 4) = some (b.structBuf ++ toBeBytes FDT_END) := by
  obtain ⟨header, hlen, heq⟩ := finalize_blocks b
  have hs := slice_at (header ++ List.replicate 16 0) (b.structBuf ++ toBeBytes FDT_END) b.stringsBuf
  rwa [← heq, List.length_append, List.length_append, hlen, List.length_replicate, length_toBeBytes] at hs

theorem slice_strings (b : FdtBuilder) :
    slice b.finalize (60 + b.structBuf.length) b.stringsBuf.length = some b.stringsBuf := by
  obtain ⟨header, hlen, heq⟩ := finalize_blocks b
  have hs := slice_at ((header ++ List.replicate 16 0) ++ (b.structBuf ++ toBeBytes FDT_END)) b.stringsBuf []
  rw [List.append_nil, List.append_assoc, ← heq, List.length_append, List.length_append, List.length_append, hlen,
    List.length_replicate, length_toBeBytes] at hs
  rwa [show 60 + b.structBuf.length = 40 + 16 + (b.structBuf.length + 4) by omega]

/-- The one reservation entry is the empty one. -/
theorem reservations_finalize (b : FdtBuilder) :
    fdtReservations (b.finalize.take 56) b.finalize.length 40 = some [] := by
  obtain ⟨header, hlen, heq⟩ := finalize_blocks b
  have htake : b.finalize.take 56 = header ++ List.replicate 16 0 := by
    rw [heq]
    exact List.take_left' (by rw [List.length_append, hlen, List.length_replicate])
  have haddress : number 8 (header ++ List.replicate 16 0) 40 = some 0 := by
    have := number_at (n := 8) header (List.replicate 8 0) 0 (by decide)
    rwa [hlen] at this
  have hlength : number 8 (header ++ List.replicate 16 0) (40 + 8) = some 0 := by
    have := number_at (n := 8) (header ++ List.replicate 8 0) [] 0 (by decide)
    rwa [List.length_append, hlen, List.length_replicate, List.append_assoc] at this
  obtain ⟨n, hn⟩ : ∃ n, b.finalize.length = n + 1 := ⟨59 + b.structBuf.length + b.stringsBuf.length, by
    rw [length_finalize]
    omega⟩
  rw [htake, hn, fdtReservations, haddress, hlength]
  rfl

/-- **Round trip.** The blob of nested calls parses to their tree, under a header
that fits, with every token at a multiple of four. -/
theorem build_parses {calls : List FdtCall} {root : FdtNode} (h : Emits calls root) (hnul : NulFree calls)
    (hsize : (build calls).length < 2 ^ 32) :
    ∃ fdt, parseFdt (build calls) = some fdt ∧ fdt.root = root ∧ fdt.reservations = [] ∧
      (∀ off ∈ fdt.tokenOffsets, off % 4 = 0) ∧ fdt.header.Fits (build calls).length ∧
      fdt.header.offDtStruct = 56 ∧ fdt.header.offDtStruct + fdt.header.sizeDtStruct = fdt.header.offDtStrings ∧
      fdt.header.offDtStrings + fdt.header.sizeDtStrings = (build calls).length := by
  unfold build at hsize ⊢
  have hlen := length_finalize (calls.foldl apply new)
  have hw := run_written Sound.new calls hnul (by omega) (by omega)
  generalize calls.foldl apply new = b at hsize hlen hw ⊢
  obtain ⟨toks, htoks, htokens, halign⟩ := hw.tokens ((b.structBuf ++ toBeBytes FDT_END).length + 1) (by
    have := hw.longer
    rw [List.length_append]
    omega)
  have haligned := hw.sound.aligned
  have hfits : FdtHeader.Fits ⟨0xd00dfeed, b.finalize.length, 56, 60 + b.structBuf.length, 40, 17, 16, 0,
      b.stringsBuf.length, b.structBuf.length + 4⟩ b.finalize.length := by
    dsimp only [FdtHeader.Fits]
    omega
  refine ⟨⟨⟨0xd00dfeed, b.finalize.length, 56, 60 + b.structBuf.length, 40, 17, 16, 0, b.stringsBuf.length,
    b.structBuf.length + 4⟩, [], toks.map fun t => 56 + t.1, root⟩, ?_, rfl, rfl, ?_, hfits, rfl, ?_, ?_⟩
  · simp only [parseFdt, header_finalize hsize, Option.bind_eq_bind, Option.bind_some, if_pos hfits,
      reservations_finalize, slice_struct, slice_strings]
    rw [show (new.structBuf.length) = 0 from rfl] at htoks
    simp only [htoks, Option.bind_some, htokens, h.tree]
  · intro off hoff
    obtain ⟨t, ht, rfl⟩ := List.mem_map.mp hoff
    have := halign t ht
    omega
  · show 56 + (b.structBuf.length + 4) = 60 + b.structBuf.length
    omega
  · show 60 + b.structBuf.length + b.stringsBuf.length = b.finalize.length
    omega

end FdtBuilder

/-! ### The simulator's own tree -/

/-- The calls from number `i`, `n` of them. -/
def dtbPart (config : DtbConfig) (i n : Nat) : List FdtCall := ((dtbCalls config).drop i).take n

/-- The properties among the calls from number `i`, `n` of them. -/
def dtbProps (config : DtbConfig) (i n : Nat) : List FdtProp := (dtbPart config i n).filterMap FdtCall.prop

/-- **The calls of `generate_dtb` are nested.** -/
theorem dtbCalls_nested (config : DtbConfig) : ∃ root, Emits (dtbCalls config) root := by
  have node : ∀ (name : List U8) (i n : Nat) {childCalls : List FdtCall} {children : List FdtNode},
      (dtbPart config i n).map FdtCall.prop = (dtbProps config i n).map some → EmitsAll childCalls children →
      Emits (.beginNode name :: (dtbPart config i n ++ (childCalls ++ [.endNode])))
        (.node name (dtbProps config i n) children) := fun name i n _ _ h hc => Emits.node name h hc
  have chosen := node (ascii "chosen") 6 2 rfl .nil
  have intc := node (ascii "interrupt-controller") 21 4 rfl .nil
  have cpu0 := node (ascii "cpu@0") 14 6 rfl (.cons intc .nil)
  have cpus := node (ascii "cpus") 10 3 rfl (.cons cpu0 .nil)
  have memory := node (ascii "memory@" ++ hex config.ramBase) 29 2 rfl .nil
  have clint := node (ascii "clint@" ++ hex config.clintBase) 38 3 rfl .nil
  have uart := node (ascii "uart@" ++ hex config.uartBase) 43 6 rfl .nil
  have virtio := node (ascii "virtio_mmio@" ++ hex config.diskBase) 51 4 rfl .nil
  have plic := node (ascii "interrupt-controller@" ++ hex 0x0c000000) 57 7 rfl .nil
  have syscon := node (ascii "syscon@" ++ hex config.sysconBase) 66 3 rfl .nil
  have poweroff := node (ascii "poweroff") 71 4 rfl .nil
  have reboot := node (ascii "reboot") 77 4 rfl .nil
  have rtc := node (ascii "rtc@" ++ hex 0x101000) 83 4 rfl .nil
  have soc := node (ascii "soc") 33 4 rfl (.cons clint (.cons uart (.cons virtio (.cons plic (.cons syscon
    (.cons poweroff (.cons reboot (.cons rtc .nil))))))))
  exact ⟨_, node (ascii "") 1 4 rfl (.cons chosen (.cons cpus (.cons memory (.cons soc .nil))))⟩

/-! ### Its size -/

/-- The bytes a call adds at most. -/
def FdtCall.weight (c : FdtCall) : Nat := 20 + c.name.length + (c.prop.elim 0 fun p => p.value.length)

theorem FdtBuilder.apply_weight {b : FdtBuilder} (h : b.structBuf.length % 4 = 0) (c : FdtCall) :
    (b.apply c).structBuf.length + (b.apply c).stringsBuf.length ≤
      b.structBuf.length + b.stringsBuf.length + c.weight := by
  cases hp : c.prop with
  | some p =>
    have hstrings : (b.stringOffset p.name).2.stringsBuf.length ≤ b.stringsBuf.length + p.name.length + 1 := by
      unfold stringOffset
      cases b.stringOffsets.find? (fun x => x.1 == p.name) with
      | some x =>
        dsimp only
        omega
      | none =>
        simp only [List.length_append, List.length_singleton]
        omega
    have hkeep : (b.propBytes p.name p.value).stringsBuf = (b.stringOffset p.name).2.stringsBuf := rfl
    rw [apply_prop h hp, FdtCall.weight, hp, ← FdtCall.prop_name hp, hkeep, propBytes_eq, align_structBuf]
    simp only [push, pushU32, stringOffset_structBuf, List.length_append, length_toBeBytes, List.length_replicate,
      Option.elim]
    omega
  | none =>
    cases c with
    | beginNode name =>
      simp only [apply, beginNode, align, push, pushU32, FdtCall.weight, FdtCall.name, List.length_append,
        length_toBeBytes, List.length_replicate, List.length_singleton]
      omega
    | endNode =>
      simp only [apply, endNode, push, pushU32, FdtCall.weight, List.length_append, length_toBeBytes]
      omega
    | _ => cases hp

theorem FdtBuilder.run_weight {b : FdtBuilder} (h : b.structBuf.length % 4 = 0) {calls : List FdtCall} {k : Nat}
    (hk : ∀ c ∈ calls, c.weight ≤ k) :
    (calls.foldl apply b).structBuf.length + (calls.foldl apply b).stringsBuf.length ≤
      b.structBuf.length + b.stringsBuf.length + calls.length * k := by
  induction calls generalizing b with
  | nil => simp
  | cons c calls ih =>
    have hone := apply_weight h c
    have hc := hk c List.mem_cons_self
    have hrest := ih (apply_grows h c).2.2 fun x hx => hk x (List.mem_cons_of_mem _ hx)
    rw [List.length_cons, Nat.succ_mul, List.foldl_cons]
    omega

theorem digitChar_byte {d : Nat} (h : d < 16) : BitVec.ofNat 8 d.digitChar.toNat ≠ 0 := by
  revert d
  decide

/-- A hexadecimal number has at most 16 digits, none of them a zero byte. -/
theorem hex_spec (n : U64) : (0 : U8) ∉ hex n ∧ (hex n).length ≤ 16 := by
  constructor
  · have hdigits : ∀ k : Nat, ∀ c ∈ Nat.toDigits 16 k, BitVec.ofNat 8 c.toNat ≠ 0 := by
      intro k
      induction k using Nat.strongRecOn with
      | ind k ih =>
        intro c hc
        rw [Nat.toDigits_eq_if (by decide)] at hc
        by_cases hk : k < 16
        · rw [if_pos hk, List.mem_singleton] at hc
          exact hc ▸ digitChar_byte hk
        · rw [if_neg hk] at hc
          rcases List.mem_append.mp hc with hc | hc
          · exact ih (k / 16) (by omega) c hc
          · rw [List.mem_singleton.mp hc]
            exact digitChar_byte (Nat.mod_lt _ (by decide))
    intro hmem
    obtain ⟨c, hc, h0⟩ := List.mem_map.mp hmem
    exact hdigits n.toNat c hc h0
  · rw [hex, List.length_map]
    exact (Nat.length_toDigits_le_iff (by decide) (by decide)).mpr n.isLt

/-- A name without a zero byte and a call of at most 200 bytes. -/
structure FdtCall.Short (c : FdtCall) : Prop where
  nulFree : (0 : U8) ∉ c.name
  small : c.weight ≤ 200

instance (c : FdtCall) : Decidable c.Short :=
  decidable_of_iff ((0 : U8) ∉ c.name ∧ c.weight ≤ 200) ⟨fun h => ⟨h.1, h.2⟩, fun h => ⟨h.1, h.2⟩⟩

theorem dtbCalls_short (config : DtbConfig) : ∀ c ∈ dtbCalls config, c.Short := by
  have hname : ∀ (s : String) (n : U64), (0 : U8) ∉ ascii s → (ascii s).length ≤ 100 →
      (FdtCall.beginNode (ascii s ++ hex n)).Short := by
    intro s n h0 hlen
    obtain ⟨h1, h2⟩ := hex_spec n
    refine ⟨fun hmem => (List.mem_append.mp hmem).elim h0 h1, ?_⟩
    simp only [FdtCall.weight, FdtCall.name, FdtCall.prop, Option.elim, List.length_append]
    omega
  have hreg : ∀ addr size, (FdtCall.propReg22 addr size).Short := by
    intro addr size
    refine ⟨by show (0 : U8) ∉ ascii "reg"; decide, ?_⟩
    simp only [FdtCall.weight, FdtCall.name, FdtCall.prop, Option.elim, List.length_append, length_be]
    decide
  have hlong := (hex_spec config.uartBase).2
  have hbootargs : (FdtCall.propString (ascii "bootargs")
      (ascii "root=/dev/vda rw console=ttyS0 earlycon=uart8250,mmio," ++ (ascii "0x" ++ hex config.uartBase) ++
        ascii " rootwait")).Short := by
    refine ⟨by show (0 : U8) ∉ ascii "bootargs"; decide, ?_⟩
    simp only [FdtCall.weight, FdtCall.name, FdtCall.prop, Option.elim, List.length_append, List.length_singleton]
    have : (ascii "bootargs").length = 8 ∧
        (ascii "root=/dev/vda rw console=ttyS0 earlycon=uart8250,mmio,").length = 54 ∧
      (ascii "0x").length = 2 ∧ (ascii " rootwait").length = 9 := by decide
    omega
  have hstdout : (FdtCall.propString (ascii "stdout-path") (ascii "/soc/uart@" ++ hex config.uartBase)).Short := by
    refine ⟨by show (0 : U8) ∉ ascii "stdout-path"; decide, ?_⟩
    simp only [FdtCall.weight, FdtCall.name, FdtCall.prop, Option.elim, List.length_append, List.length_singleton]
    have : (ascii "stdout-path").length = 11 ∧ (ascii "/soc/uart@").length = 10 := by decide
    omega
  simp only [dtbCalls, List.forall_mem_cons]
  -- the calls with a configured value are those above, the others are closed
  and_intros
  all_goals first
    | decide
    | exact hreg _ _
    | exact hname _ _ (by decide) (by decide)
    | exact hbootargs
    | exact hstdout

theorem generateDtb_small (config : DtbConfig) : (generateDtb config).length < 2 ^ 32 := by
  have hweight := FdtBuilder.run_weight (b := FdtBuilder.new) rfl fun c hc => (dtbCalls_short config c hc).small
  have hlen : (dtbCalls config).length = 90 := rfl
  have hnew : FdtBuilder.new.structBuf.length = 0 ∧ FdtBuilder.new.stringsBuf.length = 0 := ⟨rfl, rfl⟩
  rw [generateDtb, FdtBuilder.build, FdtBuilder.length_finalize]
  omega

/-- **The device tree blob.** Every properly nested sequence of calls without
zero bytes in its names, whose blob is below 4 GiB, comes back from the parser
as its own tree; and `generate_dtb` makes such a sequence from every configuration. -/
theorem fdt_round_trip :
    (∀ calls root, Emits calls root → NulFree calls → (FdtBuilder.build calls).length < 2 ^ 32 →
      ∃ fdt, parseFdt (FdtBuilder.build calls) = some fdt ∧ fdt.root = root ∧ fdt.reservations = [] ∧
        (∀ off ∈ fdt.tokenOffsets, off % 4 = 0) ∧ fdt.header.Fits (FdtBuilder.build calls).length ∧
        fdt.header.offDtStruct = 56 ∧ fdt.header.offDtStruct + fdt.header.sizeDtStruct = fdt.header.offDtStrings ∧
        fdt.header.offDtStrings + fdt.header.sizeDtStrings = (FdtBuilder.build calls).length) ∧
    ∀ config, ∃ root, Emits (dtbCalls config) root ∧ NulFree (dtbCalls config) ∧
      (FdtBuilder.build (dtbCalls config)).length < 2 ^ 32 :=
  ⟨fun _ _ h hnul hsize => FdtBuilder.build_parses h hnul hsize, fun config => by
    obtain ⟨root, h⟩ := dtbCalls_nested config
    exact ⟨root, h, fun c hc => (dtbCalls_short config c hc).nulFree, generateDtb_small config⟩⟩

/-- The blob of the default machine parses. -/
theorem default_dtb_parses : ∃ fdt, parseFdt (generateDtb ⟨0x80000000, 0x08000000, 0x10000000, 0x90000000, 0x02000000,
    0x00100000⟩) = some fdt ∧ fdt.reservations = [] := by
  obtain ⟨root, h, hnul, hsize⟩ :=
    fdt_round_trip.2 ⟨0x80000000, 0x08000000, 0x10000000, 0x90000000, 0x02000000, 0x00100000⟩
  obtain ⟨fdt, hfdt, -, hrsv, -⟩ := fdt_round_trip.1 _ root h hnul hsize
  exact ⟨fdt, hfdt, hrsv⟩

end Rvsim
