/-
# The VirtIO block device

`soc/devices/virtio_disk.rs`: DMA into the RAM and `process_queue`, which takes
what the driver has made available since the last time, walks each descriptor
chain, moves the data and publishes a used element. The source stands in
`VirtioBlock.Strict`, with every sum and product checked, its slices checked
against their rows, and its two loops counted: the ring walk and the walk along
a descriptor chain. The functions without that prefix say what it computes when
nothing stops it: their offsets are numbers without a bound, and a walk that
never ends is a result that never comes.

Key definitions:
  - `VirtioBlock`, `VirtioBlock.Strict.processQueue`
  - `VirtioBlock.descriptors`, `VirtioBlock.request`, `VirtioBlock.processEntry`, `VirtioBlock.processQueue`
Key theorems:
  - `VirtioBlock.dmaRead_eq`, `VirtioBlock.dmaWrite_byteAt`, `VirtioBlock.publish_spec`
  - `VirtioBlock.writeData_spec`, `VirtioBlock.readData_spec`
-/
import Rvsim.Lib.Buffer
import Rvsim.Lib.Checked
import Rvsim.Common

namespace Rvsim

structure VirtioDesc where
  addr : U64
  len : U32
  flags : U16
  next : U16
  deriving DecidableEq, Repr

/-- The address lies in the descriptor's buffer. -/
def VirtioDesc.Has (d : VirtioDesc) (a : Nat) : Prop := d.addr.toNat ≤ a ∧ a < d.addr.toNat + d.len.toNat

structure VirtioBlock where
  ramBase : U64
  diskImage : Buffer
  ram : Buffer
  queueNum : U32 := 0
  queueDescLow : U32 := 0
  queueDescHigh : U32 := 0
  queueAvailLow : U32 := 0
  queueAvailHigh : U32 := 0
  queueUsedLow : U32 := 0
  queueUsedHigh : U32 := 0
  interruptStatus : U32 := 0
  lastAvailIdx : U16 := 0

namespace VirtioBlock

def descSize : Nat := 16

def vringDescFNext : U16 := 1

def vringDescFWrite : U16 := 2

def sectorSize : U64 := 512

/-! ### DMA -/

def dmaRead (v : VirtioBlock) (addr : U64) (len : Nat) : List U8 :=
  if addr < v.ramBase then List.replicate len 0
  else
    let offset := (addr - v.ramBase).toNat
    if offset ≥ v.ram.size ∨ offset + len > v.ram.size then List.replicate len 0 else v.ram.read offset len

def dmaReadU16 (v : VirtioBlock) (addr : U64) : U16 := BitVec.ofNat 16 (Buffer.leValue (v.dmaRead addr 2))

def dmaReadU32 (v : VirtioBlock) (addr : U64) : U32 := BitVec.ofNat 32 (Buffer.leValue (v.dmaRead addr 4))

def dmaReadU64 (v : VirtioBlock) (addr : U64) : U64 := BitVec.ofNat 64 (Buffer.leValue (v.dmaRead addr 8))

def dmaWrite (v : VirtioBlock) (addr : U64) (data : List U8) : VirtioBlock :=
  if addr < v.ramBase then v
  else
    let offset := (addr - v.ramBase).toNat
    if offset ≥ v.ram.size ∨ offset + data.length > v.ram.size then v else { v with ram := v.ram.write offset data }

/-! ### The queue -/

def descAddr (v : VirtioBlock) : U64 := v.queueDescHigh.setWidth 64 <<< 32 ||| v.queueDescLow.setWidth 64

def availAddr (v : VirtioBlock) : U64 := v.queueAvailHigh.setWidth 64 <<< 32 ||| v.queueAvailLow.setWidth 64

def usedAddr (v : VirtioBlock) : U64 := v.queueUsedHigh.setWidth 64 <<< 32 ||| v.queueUsedLow.setWidth 64

/-- The index up to which the driver has made entries available. -/
def availIdx (v : VirtioBlock) : U16 := v.dmaReadU16 (v.availAddr + 2)

/-- The slot of a ring index, which wraps at 2^16 and at the queue's size. -/
def slot (v : VirtioBlock) (idx : U16) : Nat := idx.toNat % v.queueNum.toNat

/-- The head that the available ring has for an index. -/
def headIdx (v : VirtioBlock) (idx : U16) : U16 := v.dmaReadU16 (v.availAddr + BitVec.ofNat 64 (4 + v.slot idx * 2))

def readDesc (v : VirtioBlock) (idx : U16) : VirtioDesc :=
  let addr := v.descAddr + BitVec.ofNat 64 (idx.toNat * descSize)
  { addr := v.dmaReadU64 addr
    len := v.dmaReadU32 (addr + 8)
    flags := v.dmaReadU16 (addr + 12)
    next := v.dmaReadU16 (addr + 14) }

/-- The walk of a chain, which ends at an index out of bounds. A walk of more
steps than there are descriptors never ends. -/
def descriptors (v : VirtioBlock) : Nat → U16 → Option (List VirtioDesc)
  | 0, idx => if idx.toNat ≥ v.queueNum.toNat then some [] else none
  | steps + 1, idx =>
    if idx.toNat ≥ v.queueNum.toNat then some []
    else
      let d := v.readDesc idx
      if d.flags &&& vringDescFNext = 0 then some [d] else (descriptors v steps d.next).map (d :: ·)

/-! ### A request -/

/-- The data goes to the disk, buffer by buffer; one that passes the end is left out. The source's own sums
are those of `Strict.writeData`. -/
def writeData (v : VirtioBlock) (offset : Nat) : List VirtioDesc → U32 × VirtioBlock
  | [] => (0, v)
  | d :: ds =>
    let data := v.dmaRead d.addr d.len.toNat
    let v := if offset + data.length ≤ v.diskImage.size then
        { v with diskImage := v.diskImage.write offset data } else v
    let (len, v) := writeData v (offset + d.len.toNat) ds
    (d.len + len, v)

/-- The disk's bytes go to the buffers that the device may write, as far as the disk goes; with the source's
own sums, `Strict.readData`. -/
def readData (v : VirtioBlock) (offset : Nat) : List VirtioDesc → U32 × VirtioBlock
  | [] => (0, v)
  | d :: ds =>
    if d.flags &&& vringDescFWrite ≠ 0 ∧ offset < v.diskImage.size then
      let copyLen := min d.len.toNat (v.diskImage.size - offset)
      let (len, v) := readData (v.dmaWrite d.addr (v.diskImage.read offset copyLen)) (offset + d.len.toNat) ds
      (BitVec.ofNat 32 copyLen + len, v)
    else readData v (offset + d.len.toNat) ds

/-- The type and the sector in a request's header. -/
def header (v : VirtioBlock) (addr : U64) : U32 × U64 :=
  let header := v.dmaRead addr 16
  (BitVec.ofNat 32 (Buffer.leValue (header.take 4)), BitVec.ofNat 64 (Buffer.leValue (header.drop 8)))

/-- The transfer that a header asks for, over the buffers between header and status. -/
def transfer (v : VirtioBlock) (h : VirtioDesc) (data : List VirtioDesc) : U32 × VirtioBlock :=
  let (typeVal, sector) := v.header h.addr
  let sectorOffset := (sector * sectorSize).toNat
  if typeVal = 4 then (0, v) else if typeVal = 1 then v.writeData sectorOffset data else v.readData sectorOffset data

def request (v : VirtioBlock) (descriptors : List VirtioDesc) : U32 × VirtioBlock :=
  match descriptors with
  | h :: d :: s :: rest =>
    let status := (s :: rest).getLast (List.cons_ne_nil _ _)
    let (len, v) := v.transfer h (d :: (s :: rest).dropLast)
    (len, v.dmaWrite status.addr [0])
  | _ => (0, v)

/-- The element that the used ring has for an index. -/
def usedElem (v : VirtioBlock) (idx : U16) : U64 := v.usedAddr + BitVec.ofNat 64 (4 + v.slot idx * 8)

/-- The index up to which the device has published. -/
def usedIdx (v : VirtioBlock) : U16 := v.dmaReadU16 (v.usedAddr + 2)

/-- The used element of an entry, and the used index after it. -/
def publish (v : VirtioBlock) (head : U16) (len : U32) : VirtioBlock :=
  let usedIdxAddr := v.usedAddr + 2
  let currentUsed := v.usedIdx
  let usedElem := v.usedElem currentUsed
  let v := v.dmaWrite usedElem (Buffer.le 4 head.toNat)
  let v := v.dmaWrite (usedElem + 4) (Buffer.le 4 len.toNat)
  v.dmaWrite usedIdxAddr (Buffer.le 2 (currentUsed + 1).toNat)

def processEntry (v : VirtioBlock) : Option VirtioBlock :=
  let head := v.headIdx v.lastAvailIdx
  if head.toNat ≥ v.queueNum.toNat then some { v with lastAvailIdx := v.lastAvailIdx + 1 }
  else
    (v.descriptors v.queueNum.toNat head).map fun descriptors =>
      let (len, v) := v.request descriptors
      let v := v.publish head len
      { v with lastAvailIdx := v.lastAvailIdx + 1 }

/-- The entries up to the index read at the start. -/
def processEntries : Nat → VirtioBlock → Option VirtioBlock
  | 0, v => some v
  | n + 1, v => v.processEntry.bind (processEntries n)

def processQueue (v : VirtioBlock) : Option VirtioBlock :=
  if v.queueNum = 0 then some v
  else
    (processEntries (v.availIdx - v.lastAvailIdx).toNat v).map fun v =>
      { v with interruptStatus := v.interruptStatus ||| 1 }

/-- Neither the RAM nor the disk image is larger than an allocation can be. -/
structure Allocated (v : VirtioBlock) : Prop where
  ram : v.ram.size < 2 ^ 63
  disk : v.diskImage.size < 2 ^ 63

/-! ### The source, checked -/

namespace Strict

/-- The short circuit of the source's test keeps the sum from being taken beyond the RAM. -/
def dmaRead (v : VirtioBlock) (addr : U64) (len : Nat) : Checked (List U8) :=
  if addr < v.ramBase then .ok (List.replicate len 0)
  else
    let offset := (addr - v.ramBase).toNat
    if offset ≥ v.ram.size then .ok (List.replicate len 0)
    else do
      let stop ← Checked.addNat 64 offset len
      if stop > v.ram.size then .ok (List.replicate len 0)
      else do
        Checked.slice v.ram.size offset stop
        .ok (v.ram.read offset len)

def dmaReadU16 (v : VirtioBlock) (addr : U64) : Checked U16 := do
  let b ← dmaRead v addr 2
  .ok (BitVec.ofNat 16 (Buffer.leValue b))

def dmaReadU32 (v : VirtioBlock) (addr : U64) : Checked U32 := do
  let b ← dmaRead v addr 4
  .ok (BitVec.ofNat 32 (Buffer.leValue b))

def dmaReadU64 (v : VirtioBlock) (addr : U64) : Checked U64 := do
  let b ← dmaRead v addr 8
  .ok (BitVec.ofNat 64 (Buffer.leValue b))

def dmaWrite (v : VirtioBlock) (addr : U64) (data : List U8) : Checked VirtioBlock :=
  if addr < v.ramBase then .ok v
  else
    let offset := (addr - v.ramBase).toNat
    if offset ≥ v.ram.size then .ok v
    else do
      let stop ← Checked.addNat 64 offset data.length
      if stop > v.ram.size then .ok v
      else do
        Checked.slice v.ram.size offset stop
        .ok { v with ram := v.ram.write offset data }

def readDesc (v : VirtioBlock) (idx : U16) : Checked VirtioDesc := do
  let addrOffset ← Checked.add v.descAddr (BitVec.ofNat 64 (idx.toNat * descSize))
  let addr ← dmaReadU64 v addrOffset
  let lenAddr ← Checked.add addrOffset 8
  let len ← dmaReadU32 v lenAddr
  let flagsAddr ← Checked.add addrOffset 12
  let flags ← dmaReadU16 v flagsAddr
  let nextAddr ← Checked.add addrOffset 14
  let next ← dmaReadU16 v nextAddr
  .ok { addr := addr, len := len, flags := flags, next := next }

/-- The walk of a chain, in at most `steps` rounds. -/
def descriptors (v : VirtioBlock) : Nat → U16 → Checked (List VirtioDesc)
  | 0, idx => if idx.toNat ≥ v.queueNum.toNat then .ok [] else .error .unfinished
  | steps + 1, idx =>
    if idx.toNat ≥ v.queueNum.toNat then .ok []
    else do
      let d ← readDesc v idx
      if d.flags &&& vringDescFNext = 0 then .ok [d]
      else do
        let ds ← descriptors v steps d.next
        .ok (d :: ds)

/-- One buffer's data goes to the disk unless it passes the end. -/
def writeOne (v : VirtioBlock) (offset : Nat) (data : List U8) : Checked VirtioBlock := do
  let stop ← Checked.addNat 64 offset data.length
  if stop ≤ v.diskImage.size then do
    Checked.slice v.diskImage.size offset stop
    .ok { v with diskImage := v.diskImage.write offset data }
  else .ok v

/-- The loop of a write; `lenWritten` is the sum so far. -/
def writeData (v : VirtioBlock) (offset : Nat) (lenWritten : U32) : List VirtioDesc → Checked (U32 × VirtioBlock)
  | [] => .ok (lenWritten, v)
  | d :: ds => do
    let data ← dmaRead v d.addr d.len.toNat
    let v ← writeOne v offset data
    let offset ← Checked.addNat 64 offset d.len.toNat
    let lenWritten ← Checked.add lenWritten d.len
    writeData v offset lenWritten ds

/-- The disk's bytes go to one buffer; the place on the disk is computed only if the device may write it. -/
def readOne (v : VirtioBlock) (sectorOffset currentOffset : Nat) (lenWritten : U32) (d : VirtioDesc) :
    Checked (U32 × VirtioBlock) :=
  if d.flags &&& vringDescFWrite ≠ 0 then do
    let pos ← Checked.addNat 64 sectorOffset currentOffset
    if pos < v.diskImage.size then do
      let copyLen := min d.len.toNat (v.diskImage.size - pos)
      let stop ← Checked.addNat 64 pos copyLen
      Checked.slice v.diskImage.size pos stop
      let v ← dmaWrite v d.addr (v.diskImage.read pos copyLen)
      let lenWritten ← Checked.add lenWritten (BitVec.ofNat 32 copyLen)
      .ok (lenWritten, v)
    else .ok (lenWritten, v)
  else .ok (lenWritten, v)

/-- The loop of a read. -/
def readData (v : VirtioBlock) (sectorOffset currentOffset : Nat) (lenWritten : U32) :
    List VirtioDesc → Checked (U32 × VirtioBlock)
  | [] => .ok (lenWritten, v)
  | d :: ds => do
    let (lenWritten, v) ← readOne v sectorOffset currentOffset lenWritten d
    let currentOffset ← Checked.addNat 64 currentOffset d.len.toNat
    readData v sectorOffset currentOffset lenWritten ds

/-- The sector's offset is computed for a flush as well. -/
def transfer (v : VirtioBlock) (h : VirtioDesc) (data : List VirtioDesc) : Checked (U32 × VirtioBlock) := do
  let header ← dmaRead v h.addr 16
  let typeVal : U32 := BitVec.ofNat 32 (Buffer.leValue (header.take 4))
  let sector : U64 := BitVec.ofNat 64 (Buffer.leValue (header.drop 8))
  let sectorOffset ← Checked.mulNat 64 sector.toNat 512
  if typeVal = 4 then .ok (0, v)
  else if typeVal = 1 then writeData v sectorOffset 0 data
  else readData v sectorOffset 0 0 data

def request (v : VirtioBlock) (descriptors : List VirtioDesc) : Checked (U32 × VirtioBlock) :=
  match descriptors with
  | h :: d :: s :: rest => do
    let status := (s :: rest).getLast (List.cons_ne_nil _ _)
    let (len, v) ← transfer v h (d :: (s :: rest).dropLast)
    let v ← dmaWrite v status.addr [0]
    .ok (len, v)
  | _ => .ok (0, v)

def publish (v : VirtioBlock) (head : U16) (len : U32) : Checked VirtioBlock := do
  let usedIdxAddr ← Checked.add v.usedAddr 2
  let currentUsed ← dmaReadU16 v usedIdxAddr
  let elems ← Checked.add v.usedAddr 4
  let usedElem ← Checked.add elems (BitVec.ofNat 64 (v.slot currentUsed * 8))
  let v ← dmaWrite v usedElem (Buffer.le 4 head.toNat)
  let lenAddr ← Checked.add usedElem 4
  let v ← dmaWrite v lenAddr (Buffer.le 4 len.toNat)
  dmaWrite v usedIdxAddr (Buffer.le 2 (currentUsed + 1).toNat)

/-- One round of the ring walk, with at most `steps` rounds for the chain. -/
def processEntry (steps : Nat) (v : VirtioBlock) : Checked VirtioBlock := do
  let headAddr ← Checked.add v.availAddr (BitVec.ofNat 64 (4 + v.slot v.lastAvailIdx * 2))
  let head ← dmaReadU16 v headAddr
  if head.toNat ≥ v.queueNum.toNat then .ok { v with lastAvailIdx := v.lastAvailIdx + 1 }
  else do
    let ds ← descriptors v steps head
    let (len, v) ← request v ds
    let v ← publish v head len
    .ok { v with lastAvailIdx := v.lastAvailIdx + 1 }

/-- The ring walk, in at most `rounds` rounds. -/
def processEntries (steps : Nat) (availIdx : U16) : Nat → VirtioBlock → Checked VirtioBlock
  | 0, v => if v.lastAvailIdx = availIdx then .ok v else .error .unfinished
  | rounds + 1, v =>
    if v.lastAvailIdx = availIdx then .ok v
    else do
      let v ← processEntry steps v
      processEntries steps availIdx rounds v

def processQueue (steps : Nat) (v : VirtioBlock) : Checked VirtioBlock :=
  if v.queueNum = 0 then .ok v
  else do
    let availIdxAddr ← Checked.add v.availAddr 2
    let availIdx ← dmaReadU16 v availIdxAddr
    let v ← processEntries steps availIdx steps v
    .ok { v with interruptStatus := v.interruptStatus ||| 1 }

end Strict

/-! ### Bytes by their addresses -/

/-- The byte at a physical address. -/
def byteAt (v : VirtioBlock) (a : Nat) : U8 := v.ram.byte (a - v.ramBase.toNat)

def bytes (v : VirtioBlock) (a n : Nat) : List U8 := (List.range n).map fun i => v.byteAt (a + i)

/-- The `n` bytes from an address are RAM. -/
def InRam (v : VirtioBlock) (a n : Nat) : Prop :=
  v.ramBase.toNat ≤ a ∧ a + n ≤ v.ramBase.toNat + v.ram.size

variable {v v' v'' : VirtioBlock}

theorem bytes_eq_read {a n : Nat} (h : v.ramBase.toNat ≤ a) : v.bytes a n = v.ram.read (a - v.ramBase.toNat) n := by
  unfold bytes Buffer.read
  apply List.map_congr_left
  intro i _
  show v.ram.byte (a + i - v.ramBase.toNat) = _
  rw [Nat.sub_add_comm h]

theorem offset_eq {addr : U64} (h : v.ramBase.toNat ≤ addr.toNat) :
    (addr - v.ramBase).toNat = addr.toNat - v.ramBase.toNat :=
  BitVec.toNat_sub_of_le h

/-- **DMA reads the bytes that are there.** -/
theorem dmaRead_eq {addr : U64} {n : Nat} (h : v.InRam addr.toNat n) : v.dmaRead addr n = v.bytes addr.toNat n := by
  obtain ⟨hlo, hhi⟩ := h
  unfold dmaRead
  rw [if_neg (by rw [BitVec.lt_def]; omega), offset_eq hlo, bytes_eq_read hlo]
  by_cases hn : n = 0
  · rw [hn]
    by_cases hc : addr.toNat - v.ramBase.toNat ≥ v.ram.size ∨ addr.toNat - v.ramBase.toNat + 0 > v.ram.size
    · rw [if_pos hc]; rfl
    · rw [if_neg hc]
  · rw [if_neg (by omega)]

theorem dmaWrite_eq {addr : U64} {data : List U8} (h : v.InRam addr.toNat data.length) :
    v.dmaWrite addr data = { v with ram := v.ram.write (addr.toNat - v.ramBase.toNat) data } := by
  obtain ⟨hlo, hhi⟩ := h
  unfold dmaWrite
  rw [if_neg (by rw [BitVec.lt_def]; omega), offset_eq hlo]
  by_cases hn : data = []
  · rw [hn]
    simp only [Buffer.write_nil]
    split
    · rfl
    · rfl
  · have hpos := List.length_pos_iff.mpr hn
    rw [if_neg (by omega)]

/-- **DMA writes the bytes given and no others.** -/
theorem dmaWrite_byteAt {addr : U64} {data : List U8} (h : v.InRam addr.toNat data.length) {a : Nat}
    (ha : v.ramBase.toNat ≤ a) :
    (v.dmaWrite addr data).byteAt a =
      if addr.toNat ≤ a ∧ a < addr.toNat + data.length then data.getD (a - addr.toNat) 0 else v.byteAt a := by
  obtain ⟨hlo, -⟩ := id h
  rw [dmaWrite_eq h]
  show (v.ram.write _ data).byte (a - v.ramBase.toNat) = _
  by_cases hc : addr.toNat ≤ a ∧ a < addr.toNat + data.length
  · rw [if_pos hc, Buffer.write_inside (by omega)]
    congr 1
    omega
  · rw [if_neg hc, Buffer.write_of_apart (by omega)]
    rfl

theorem bytes_congr {a n : Nat} (h : ∀ i, a ≤ i → i < a + n → v'.byteAt i = v.byteAt i) :
    v'.bytes a n = v.bytes a n := by
  unfold bytes
  apply List.map_congr_left
  intro i hi
  exact h _ (Nat.le_add_right _ _) (Nat.add_lt_add_left (List.mem_range.mp hi) _)

@[simp] theorem length_bytes (v : VirtioBlock) (a n : Nat) : (v.bytes a n).length = n := by
  rw [bytes, List.length_map, List.length_range]

/-- The bytes that were just written. -/
theorem dmaWrite_bytes {addr : U64} {data : List U8} (h : v.InRam addr.toNat data.length) :
    (v.dmaWrite addr data).bytes addr.toNat data.length = data := by
  rw [dmaWrite_eq h]
  refine (bytes_eq_read ?_).trans (Buffer.read_write_self _ _ _)
  exact h.1

theorem toNat_add {a : U64} {n : Nat} (h : a.toNat + n < 2 ^ 64) : (a + BitVec.ofNat 64 n).toNat = a.toNat + n := by
  rw [BitVec.toNat_add, BitVec.toNat_ofNat]
  omega

/-! ### What a step leaves alone -/

/-- The step writes RAM only at the addresses `W`, and moves no register of the queue. -/
structure Writes (W : Nat → Prop) (v v' : VirtioBlock) : Prop where
  ramBase : v'.ramBase = v.ramBase
  queueNum : v'.queueNum = v.queueNum
  descAddr : v'.descAddr = v.descAddr
  availAddr : v'.availAddr = v.availAddr
  usedAddr : v'.usedAddr = v.usedAddr
  ramSize : v'.ram.size = v.ram.size
  diskSize : v'.diskImage.size = v.diskImage.size
  byteAt_eq : ∀ a, v.ramBase.toNat ≤ a → ¬ W a → v'.byteAt a = v.byteAt a

namespace Writes

variable {W W' : Nat → Prop}

theorem refl (v : VirtioBlock) : Writes W v v := ⟨rfl, rfl, rfl, rfl, rfl, rfl, rfl, fun _ _ _ => rfl⟩

theorem mono (h : Writes W v v') (hw : ∀ a, W a → W' a) : Writes W' v v' :=
  ⟨h.ramBase, h.queueNum, h.descAddr, h.availAddr, h.usedAddr, h.ramSize, h.diskSize,
    fun a ha hn => h.byteAt_eq a ha fun hwa => hn (hw a hwa)⟩

theorem trans (h : Writes W v v') (h' : Writes W v' v'') : Writes W v v'' :=
  ⟨h'.ramBase.trans h.ramBase, h'.queueNum.trans h.queueNum, h'.descAddr.trans h.descAddr,
    h'.availAddr.trans h.availAddr, h'.usedAddr.trans h.usedAddr, h'.ramSize.trans h.ramSize,
    h'.diskSize.trans h.diskSize,
    fun a ha hn => (h'.byteAt_eq a (by rw [h.ramBase]; exact ha) hn).trans (h.byteAt_eq a ha hn)⟩

theorem inRam (h : Writes W v v') {a n : Nat} : v'.InRam a n ↔ v.InRam a n := by
  unfold InRam
  rw [h.ramBase, h.ramSize]

theorem bytes (h : Writes W v v') {a n : Nat} (ha : v.ramBase.toNat ≤ a) (hw : ∀ i, a ≤ i → i < a + n → ¬ W i) :
    v'.bytes a n = v.bytes a n :=
  bytes_congr fun i hi hi' => h.byteAt_eq i (le_trans ha hi) (hw i hi hi')

theorem dmaRead (h : Writes W v v') {addr : U64} {n : Nat} (hr : v.InRam addr.toNat n)
    (hw : ∀ i, addr.toNat ≤ i → i < addr.toNat + n → ¬ W i) : v'.dmaRead addr n = v.dmaRead addr n := by
  rw [dmaRead_eq hr, dmaRead_eq (h.inRam.mpr hr), h.bytes hr.1 hw]

end Writes

theorem dmaWrite_writes {addr : U64} {data : List U8} (h : v.InRam addr.toNat data.length) :
    Writes (fun a => addr.toNat ≤ a ∧ a < addr.toNat + data.length) v (v.dmaWrite addr data) := by
  have hat : ∀ a, v.ramBase.toNat ≤ a → ¬ (addr.toNat ≤ a ∧ a < addr.toNat + data.length) →
      (v.dmaWrite addr data).byteAt a = v.byteAt a := fun a ha hn => by rw [dmaWrite_byteAt h ha, if_neg hn]
  rw [dmaWrite_eq h] at hat ⊢
  exact ⟨rfl, rfl, rfl, rfl, rfl, rfl, rfl, hat⟩

theorem dmaWrite_lastAvailIdx (v : VirtioBlock) (addr : U64) (data : List U8) :
    (v.dmaWrite addr data).lastAvailIdx = v.lastAvailIdx ∧ (v.dmaWrite addr data).diskImage = v.diskImage := by
  unfold dmaWrite
  split
  · exact ⟨rfl, rfl⟩
  · dsimp only
    split
    · exact ⟨rfl, rfl⟩
    · exact ⟨rfl, rfl⟩

/-! ### The used ring -/

def usedId (v : VirtioBlock) (idx : U16) : U32 := v.dmaReadU32 (v.usedElem idx)

def usedLen (v : VirtioBlock) (idx : U16) : U32 := v.dmaReadU32 (v.usedElem idx + 4)

/-- The used ring is RAM, below the end of the address space. -/
structure UsedInRam (v : VirtioBlock) : Prop where
  queue : 0 < v.queueNum.toNat
  space : v.ramBase.toNat + v.ram.size ≤ 2 ^ 64
  inRam : v.InRam v.usedAddr.toNat (4 + v.queueNum.toNat * 8)

/-- The addresses of the used ring. -/
def InUsed (v : VirtioBlock) (a : Nat) : Prop :=
  v.usedAddr.toNat ≤ a ∧ a < v.usedAddr.toNat + (4 + v.queueNum.toNat * 8)

theorem InRam.sub {a n b m : Nat} (h : v.InRam a n) (hlo : a ≤ b) (hhi : b + m ≤ a + n) : v.InRam b m := by
  obtain ⟨h1, h2⟩ := h
  exact ⟨by omega, by omega⟩

theorem dmaWrite_readU32 {addr : U64} (h : v.InRam addr.toNat 4) (x : Nat) :
    (v.dmaWrite addr (Buffer.le 4 x)).dmaReadU32 addr = BitVec.ofNat 32 x := by
  have h' : v.InRam addr.toNat (Buffer.le 4 x).length := by rw [Buffer.length_le]; exact h
  have hr := (dmaWrite_writes h').inRam.mpr h
  have hb := dmaWrite_bytes h'
  rw [Buffer.length_le] at hb
  rw [dmaReadU32, dmaRead_eq hr, hb, Buffer.leValue_le]
  exact BitVec.eq_of_toNat_eq (by rw [BitVec.toNat_ofNat, BitVec.toNat_ofNat]; omega)

theorem dmaWrite_readU16 {addr : U64} (h : v.InRam addr.toNat 2) (x : Nat) :
    (v.dmaWrite addr (Buffer.le 2 x)).dmaReadU16 addr = BitVec.ofNat 16 x := by
  have h' : v.InRam addr.toNat (Buffer.le 2 x).length := by rw [Buffer.length_le]; exact h
  have hr := (dmaWrite_writes h').inRam.mpr h
  have hb := dmaWrite_bytes h'
  rw [Buffer.length_le] at hb
  rw [dmaReadU16, dmaRead_eq hr, hb, Buffer.leValue_le]
  exact BitVec.eq_of_toNat_eq (by rw [BitVec.toNat_ofNat, BitVec.toNat_ofNat]; omega)

theorem slot_lt (h : 0 < v.queueNum.toNat) (idx : U16) : v.slot idx < v.queueNum.toNat := Nat.mod_lt _ h

/-- Where the parts of the used ring lie. -/
theorem UsedInRam.places (h : v.UsedInRam) (idx : U16) :
    (v.usedAddr + 2).toNat = v.usedAddr.toNat + 2 ∧
      (v.usedElem idx).toNat = v.usedAddr.toNat + (4 + v.slot idx * 8) ∧
      (v.usedElem idx + 4).toNat = v.usedAddr.toNat + (8 + v.slot idx * 8) := by
  obtain ⟨hlo, hhi⟩ := h.inRam
  have hs := slot_lt h.queue idx
  have hsp := h.space
  have he : (v.usedElem idx).toNat = v.usedAddr.toNat + (4 + v.slot idx * 8) := toNat_add (by omega)
  refine ⟨toNat_add (n := 2) (by omega), he, ?_⟩
  rw [show v.usedElem idx + 4 = v.usedElem idx + BitVec.ofNat 64 4 from rfl, toNat_add (by omega), he]
  omega

theorem UsedInRam.of_writes {W : Nat → Prop} (h : v.UsedInRam) (hw : Writes W v v') : v'.UsedInRam := by
  refine ⟨by rw [hw.queueNum]; exact h.queue, by rw [hw.ramBase, hw.ramSize]; exact h.space, ?_⟩
  rw [hw.usedAddr, hw.queueNum]
  exact hw.inRam.mpr h.inRam

theorem Writes.slot {W : Nat → Prop} (hw : Writes W v v') (idx : U16) : v'.slot idx = v.slot idx := by
  unfold VirtioBlock.slot
  rw [hw.queueNum]

theorem Writes.usedElem {W : Nat → Prop} (hw : Writes W v v') (idx : U16) : v'.usedElem idx = v.usedElem idx := by
  unfold VirtioBlock.usedElem
  rw [hw.usedAddr, hw.slot]

/-- A step that keeps off an element of the used ring leaves it. -/
theorem Writes.used {W : Nat → Prop} (h : v.UsedInRam) (hw : Writes W v v') (idx : U16)
    (hoff : ∀ i, v.usedAddr.toNat + (4 + v.slot idx * 8) ≤ i → i < v.usedAddr.toNat + (12 + v.slot idx * 8) → ¬ W i) :
    v'.usedId idx = v.usedId idx ∧ v'.usedLen idx = v.usedLen idx := by
  obtain ⟨-, h1, h2⟩ := h.places idx
  have hs := slot_lt h.queue idx
  unfold usedId usedLen dmaReadU32
  rw [hw.usedElem]
  constructor
  · rw [hw.dmaRead (h.inRam.sub (by omega) (by omega)) fun i hi hi' => hoff i (by omega) (by omega)]
  · rw [hw.dmaRead (h.inRam.sub (by omega) (by omega)) fun i hi hi' => hoff i (by omega) (by omega)]

theorem Writes.usedIdx {W : Nat → Prop} (h : v.UsedInRam) (hw : Writes W v v')
    (hoff : ∀ i, v.usedAddr.toNat + 2 ≤ i → i < v.usedAddr.toNat + 4 → ¬ W i) : v'.usedIdx = v.usedIdx := by
  obtain ⟨h1, -⟩ := h.places 0
  unfold VirtioBlock.usedIdx dmaReadU16
  rw [hw.usedAddr, hw.dmaRead (h.inRam.sub (by omega) (by omega)) fun i hi hi' => hoff i (by omega) (by omega)]

structure Published (v v' : VirtioBlock) (head : U16) (len : U32) : Prop where
  writes : Writes v.InUsed v v'
  lastAvailIdx : v'.lastAvailIdx = v.lastAvailIdx
  disk : v'.diskImage = v.diskImage
  usedIdx : v'.usedIdx = v.usedIdx + 1
  usedId : v'.usedId v.usedIdx = head.setWidth 32
  usedLen : v'.usedLen v.usedIdx = len
  others : ∀ idx, v.slot idx ≠ v.slot v.usedIdx → v'.usedId idx = v.usedId idx ∧ v'.usedLen idx = v.usedLen idx

theorem dmaWrite_le_writes {addr : U64} {n : Nat} (h : v.InRam addr.toNat n) (x : Nat) :
    Writes (fun a => addr.toNat ≤ a ∧ a < addr.toNat + n) v (v.dmaWrite addr (Buffer.le n x)) := by
  have h' : v.InRam addr.toNat (Buffer.le n x).length := by rw [Buffer.length_le]; exact h
  have hw := dmaWrite_writes h'
  rw [Buffer.length_le] at hw
  exact hw

/-- **One used element is published**, in the slot of the used index. -/
theorem publish_spec (h : v.UsedInRam) (head : U16) (len : U32) : Published v (v.publish head len) head len := by
  have hs := slot_lt h.queue v.usedIdx
  obtain ⟨hidx, helem, helem4⟩ := h.places v.usedIdx
  have hr1 : v.InRam (v.usedElem v.usedIdx).toNat 4 := h.inRam.sub (by omega) (by omega)
  have hr2 : v.InRam (v.usedElem v.usedIdx + 4).toNat 4 := h.inRam.sub (by omega) (by omega)
  have hr3 : v.InRam (v.usedAddr + 2).toNat 2 := h.inRam.sub (by omega) (by omega)
  -- the id, the length and the index go in one after the other
  have hw1 := dmaWrite_le_writes hr1 head.toNat
  have hid := dmaWrite_readU32 hr1 head.toNat
  have hk1 := dmaWrite_lastAvailIdx v (v.usedElem v.usedIdx) (Buffer.le 4 head.toNat)
  generalize hv1 : v.dmaWrite (v.usedElem v.usedIdx) (Buffer.le 4 head.toNat) = v1 at hw1 hid hk1
  have hr2' := hw1.inRam.mpr hr2
  have hw2 := dmaWrite_le_writes hr2' len.toNat
  have hlen := dmaWrite_readU32 hr2' len.toNat
  have hk2 := dmaWrite_lastAvailIdx v1 (v.usedElem v.usedIdx + 4) (Buffer.le 4 len.toNat)
  generalize hv2 : v1.dmaWrite (v.usedElem v.usedIdx + 4) (Buffer.le 4 len.toNat) = v2 at hw2 hlen hk2
  have hr3' := hw2.inRam.mpr (hw1.inRam.mpr hr3)
  have hw3 := dmaWrite_le_writes hr3' (v.usedIdx + 1).toNat
  have hui := dmaWrite_readU16 hr3' (v.usedIdx + 1).toNat
  have hk3 := dmaWrite_lastAvailIdx v2 (v.usedAddr + 2) (Buffer.le 2 (v.usedIdx + 1).toNat)
  have heq : v.publish head len = v2.dmaWrite (v.usedAddr + 2) (Buffer.le 2 (v.usedIdx + 1).toNat) := by
    unfold publish
    dsimp only
    rw [hv1, hv2]
  rw [← heq] at hw3 hui hk3
  generalize v.publish head len = v' at hw3 hui hk3
  have hall : Writes v.InUsed v v' := by
    refine ((hw1.mono fun a ha => ?_).trans (hw2.mono fun a ha => ?_)).trans (hw3.mono fun a ha => ?_)
    · exact ⟨by omega, by omega⟩
    · exact ⟨by omega, by omega⟩
    · exact ⟨by omega, by omega⟩
  have hother : ∀ idx, v.slot idx ≠ v.slot v.usedIdx → v'.usedId idx = v.usedId idx ∧
      v'.usedLen idx = v.usedLen idx := by
    intro idx hne
    have hs' := slot_lt h.queue idx
    have h1 := hw1.used h idx fun i hi hi' hw => by omega
    have h2 := hw2.used (h.of_writes hw1) idx fun i hi hi' hw => by
      rw [hw1.usedAddr, hw1.slot] at hi hi'
      omega
    have h3 := hw3.used ((h.of_writes hw1).of_writes hw2) idx fun i hi hi' hw => by
      rw [hw2.usedAddr, hw2.slot, hw1.usedAddr, hw1.slot] at hi hi'
      omega
    exact ⟨h3.1.trans (h2.1.trans h1.1), h3.2.trans (h2.2.trans h1.2)⟩
  refine ⟨hall, hk3.1.trans (hk2.1.trans hk1.1), hk3.2.trans (hk2.2.trans hk1.2), ?_, ?_, ?_, hother⟩
  · unfold usedIdx
    rw [hall.usedAddr, hui, BitVec.ofNat_toNat, BitVec.setWidth_eq]
    rfl
  · unfold usedId
    rw [hall.usedElem, dmaReadU32, hw3.dmaRead (hw2.inRam.mpr (hw1.inRam.mpr hr1)) fun i hi hi' hw => by omega,
      hw2.dmaRead (hw1.inRam.mpr hr1) fun i hi hi' hw => by omega]
    rw [dmaReadU32] at hid
    rw [hid, BitVec.ofNat_toNat]
  · unfold usedLen
    rw [hall.usedElem, dmaReadU32, hw3.dmaRead (hw2.inRam.mpr (hw1.inRam.mpr hr2)) fun i hi hi' hw => by omega]
    rw [dmaReadU32] at hlen
    rw [hlen, BitVec.ofNat_toNat, BitVec.setWidth_eq]

/-! ### Data -/

/-- The length of a request's data. -/
def total (ds : List VirtioDesc) : Nat := (ds.map fun d => d.len.toNat).sum

/-- What the buffers hold, one after the other. -/
def gather (v : VirtioBlock) (ds : List VirtioDesc) : List U8 :=
  ds.flatMap fun d => v.bytes d.addr.toNat d.len.toNat

theorem total_cons (d : VirtioDesc) (ds : List VirtioDesc) : total (d :: ds) = d.len.toNat + total ds := by
  rw [total, List.map_cons, List.sum_cons]
  rfl

theorem gather_cons (v : VirtioBlock) (d : VirtioDesc) (ds : List VirtioDesc) :
    v.gather (d :: ds) = v.bytes d.addr.toNat d.len.toNat ++ v.gather ds := List.flatMap_cons

theorem len_add (d : VirtioDesc) (n : Nat) : d.len + BitVec.ofNat 32 n = BitVec.ofNat 32 (d.len.toNat + n) := by
  apply BitVec.eq_of_toNat_eq
  rw [BitVec.toNat_add, BitVec.toNat_ofNat, BitVec.toNat_ofNat, Nat.add_mod_mod]

/-- **A write** changes the disk alone; inside the disk it puts the data there. -/
theorem writeData_spec (ds : List VirtioDesc) (v : VirtioBlock) (offset : Nat) :
    ∃ disk : Buffer, v.writeData offset ds = (BitVec.ofNat 32 (total ds), { v with diskImage := disk }) ∧
      disk.size = v.diskImage.size ∧
      ((∀ d ∈ ds, v.InRam d.addr.toNat d.len.toNat) → offset + total ds ≤ v.diskImage.size →
        disk = v.diskImage.write offset (v.gather ds)) := by
  induction ds generalizing v offset with
  | nil => exact ⟨v.diskImage, rfl, rfl, fun _ _ => (Buffer.write_nil _ _).symm⟩
  | cons d ds ih =>
    -- the first buffer, then the others behind it
    obtain ⟨disk1, hdisk1⟩ : ∃ disk1 : Buffer, disk1 =
        if offset + (v.dmaRead d.addr d.len.toNat).length ≤ v.diskImage.size then
          v.diskImage.write offset (v.dmaRead d.addr d.len.toNat) else v.diskImage := ⟨_, rfl⟩
    have hstep : (if offset + (v.dmaRead d.addr d.len.toNat).length ≤ v.diskImage.size then
        { v with diskImage := v.diskImage.write offset (v.dmaRead d.addr d.len.toNat) } else v) =
        { v with diskImage := disk1 } := by
      rw [hdisk1]
      split
      · rfl
      · rfl
    have hsize1 : disk1.size = v.diskImage.size := by
      rw [hdisk1]
      split
      · rfl
      · rfl
    obtain ⟨disk, heq, hsize, hdisk⟩ := ih { v with diskImage := disk1 } (offset + d.len.toNat)
    refine ⟨disk, ?_, hsize.trans hsize1, fun hram hend => ?_⟩
    · unfold writeData
      dsimp only
      rw [hstep, heq, total_cons]
      dsimp only
      rw [len_add]
    · rw [total_cons] at hend
      have hd := hram d List.mem_cons_self
      have hbytes := dmaRead_eq hd
      rw [hbytes, length_bytes, if_pos (by omega)] at hdisk1
      have hrest := hdisk (fun d' hd' => hram d' (List.mem_cons_of_mem _ hd')) (by
        show _ ≤ disk1.size
        rw [hsize1]
        omega)
      rw [hrest, gather_cons, Buffer.write_append, length_bytes]
      show disk1.write _ (v.gather ds) = _
      rw [hdisk1]

/-- **A read** changes the buffers alone; inside the disk it fills them with the disk's bytes. -/
theorem readData_spec (ds : List VirtioDesc) (v : VirtioBlock) (offset : Nat)
    (hram : ∀ d ∈ ds, v.InRam d.addr.toNat d.len.toNat)
    (hapart : ds.Pairwise fun d e => ∀ a, d.Has a → ¬ e.Has a) :
    Writes (fun a => ∃ d ∈ ds, d.Has a) v (v.readData offset ds).2 ∧
      (v.readData offset ds).2.lastAvailIdx = v.lastAvailIdx ∧
      (v.readData offset ds).2.diskImage = v.diskImage ∧
      ((∀ d ∈ ds, d.flags &&& vringDescFWrite ≠ 0) → offset + total ds ≤ v.diskImage.size →
        (v.readData offset ds).1 = BitVec.ofNat 32 (total ds) ∧
          (v.readData offset ds).2.gather ds = v.diskImage.read offset (total ds)) := by
  induction ds generalizing v offset with
  | nil => exact ⟨.refl v, rfl, rfl, fun _ _ => ⟨rfl, rfl⟩⟩
  | cons d ds ih =>
    obtain ⟨hfirst, hapart⟩ := List.pairwise_cons.mp hapart
    have hd := hram d List.mem_cons_self
    have hram' : ∀ e ∈ ds, v.InRam e.addr.toNat e.len.toNat := fun e he => hram e (List.mem_cons_of_mem _ he)
    by_cases hc : d.flags &&& vringDescFWrite ≠ 0 ∧ offset < v.diskImage.size
    · -- as much of the buffer as the disk has
      have hlen : (v.diskImage.read offset (min d.len.toNat (v.diskImage.size - offset))).length ≤ d.len.toNat := by
        rw [Buffer.length_read]
        exact Nat.min_le_left _ _
      generalize hdata : v.diskImage.read offset (min d.len.toNat (v.diskImage.size - offset)) = data at hlen
      have hin : v.InRam d.addr.toNat data.length := hd.sub (Nat.le_refl _) (by omega)
      have hw := dmaWrite_writes hin
      obtain ⟨hlast, hdisk⟩ := dmaWrite_lastAvailIdx v d.addr data
      have hput := dmaWrite_bytes hin
      have heq : v.readData offset (d :: ds) =
          (BitVec.ofNat 32 (min d.len.toNat (v.diskImage.size - offset)) +
            ((v.dmaWrite d.addr data).readData (offset + d.len.toNat) ds).1,
            ((v.dmaWrite d.addr data).readData (offset + d.len.toNat) ds).2) := by
        rw [readData, if_pos hc]
        dsimp only
        rw [hdata]
      obtain ⟨ihw, ihlast, ihdisk, ihfull⟩ := ih (v.dmaWrite d.addr data) (offset + d.len.toNat)
        (fun e he => hw.inRam.mpr (hram' e he)) hapart
      rw [heq]
      refine ⟨(hw.mono fun a ha => ?_).trans (ihw.mono fun a ha => ?_), ihlast.trans hlast, ihdisk.trans hdisk,
        fun hflags hend => ?_⟩
      · exact ⟨d, List.mem_cons_self, ha.1, by omega⟩
      · obtain ⟨e, he, ha⟩ := ha
        exact ⟨e, List.mem_cons_of_mem _ he, ha⟩
      · rw [total_cons] at hend ⊢
        rw [Nat.min_eq_left (by omega)] at hdata
        obtain ⟨hsum, hgather⟩ := ihfull (fun e he => hflags e (List.mem_cons_of_mem _ he)) (by rw [hdisk]; omega)
        have hdlen : data.length = d.len.toNat := by rw [← hdata, Buffer.length_read]
        constructor
        · dsimp only
          rw [hsum, Nat.min_eq_left (by omega)]
          apply BitVec.eq_of_toNat_eq
          rw [BitVec.toNat_add, BitVec.toNat_ofNat, BitVec.toNat_ofNat, BitVec.toNat_ofNat, ← Nat.add_mod]
        · dsimp only
          rw [gather_cons, hgather, hdisk, Buffer.read_add]
          congr 1
          rw [hdlen] at hput
          rw [ihw.bytes (by rw [hw.ramBase]; exact hd.1) fun i hi hi' ⟨e, he, hei⟩ =>
              hfirst e he i ⟨hi, hi'⟩ hei, hput, hdata]
    · have heq : v.readData offset (d :: ds) = v.readData (offset + d.len.toNat) ds := by rw [readData, if_neg hc]
      obtain ⟨ihw, ihlast, ihdisk, ihfull⟩ := ih v (offset + d.len.toNat) hram' hapart
      rw [heq]
      refine ⟨ihw.mono fun a ⟨e, he, ha⟩ => ⟨e, List.mem_cons_of_mem _ he, ha⟩, ihlast, ihdisk, fun hflags hend => ?_⟩
      -- a buffer left out inside the disk is empty
      rw [total_cons] at hend ⊢
      have hpast : ¬ offset < v.diskImage.size := fun h => hc ⟨hflags d List.mem_cons_self, h⟩
      have hzero : d.len.toNat = 0 := by omega
      obtain ⟨hsum, hgather⟩ := ihfull (fun e he => hflags e (List.mem_cons_of_mem _ he)) (by omega)
      rw [gather_cons, hzero, Nat.zero_add, Nat.add_zero]
      rw [hzero, Nat.add_zero] at hsum hgather
      exact ⟨hsum, hgather⟩

end VirtioBlock

end Rvsim
