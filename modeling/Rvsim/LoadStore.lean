/-
# Store buffer, load queue and byte memory

`pipeline/store_buffer.rs` and `pipeline/load_queue.rs`, as the lists of
their entries from head to tail, and the byte-addressed RAM that committed
stores drain into. A store buffer entry between head and tail is always
valid; a load queue entry may be invalid there (`deallocate` out of order),
so it keeps its flag.

Key definitions:
  - `Mem.read`, `Mem.write`
  - `StoreBuffer.resolve`, `StoreBuffer.forwardLoad`, `StoreBuffer.drainOne`
  - `LoadQueue.fillData`, `LoadQueue.checkOrderingViolation`
-/
import Rvsim.Rob

namespace Rvsim

/-! ### Memory -/

/-- RAM by physical address, one byte a cell. -/
abbrev Mem := U64 → U8

namespace Mem

/-- The `n` bytes at `a`, little endian, zero-extended. -/
def read (m : Mem) (a : U64) : Nat → U64
  | 0 => 0
  | n + 1 => (m a).setWidth 64 ||| (read m (a + 1) n <<< 8)

/-- Byte `x` after the low `n` bytes of `v` are stored at `a`. -/
def write (m : Mem) (a : U64) (n : Nat) (v : U64) : Mem := fun x =>
  if (x - a).toNat < n then (v >>> (8 * (x - a).toNat)).setWidth 8 else m x

/-- Bit `i` of a read is a bit of one byte. -/
theorem getLsbD_read (m : Mem) (a : U64) (n i : Nat) :
    (m.read a n).getLsbD i =
      (decide (i < 8 * n) && decide (i < 64) && (m (a + BitVec.ofNat 64 (i / 8))).getLsbD (i % 8)) := by
  induction n generalizing a i with
  | zero => simp [read]
  | succ n ih =>
    rw [read, BitVec.getLsbD_or, BitVec.getLsbD_setWidth, BitVec.getLsbD_shiftLeft, ih]
    by_cases h8 : i < 8
    · have hdiv : i / 8 = 0 := by omega
      have hmod : i % 8 = i := by omega
      have hlt : i < 8 * (n + 1) := by omega
      have hsmall : i < 64 := by omega
      simp [h8, hdiv, hmod, hlt, hsmall]
    · -- a bit of a later byte
      have hbyte : (m a).getLsbD i = false := BitVec.getLsbD_of_ge _ _ (by omega)
      have hadd : a + 1 + BitVec.ofNat 64 ((i - 8) / 8) = a + BitVec.ofNat 64 (i / 8) := by
        have hdiv : i / 8 = 1 + (i - 8) / 8 := by omega
        rw [hdiv, BitVec.ofNat_add, ← BitVec.add_assoc]
        rfl
      have hmod : (i - 8) % 8 = i % 8 := by omega
      have hn : (i - 8 < 8 * n) = (i < 8 * (n + 1)) := by
        apply propext
        omega
      rw [hadd, hmod, hbyte]
      simp only [h8, hn, decide_false, Bool.not_false, Bool.and_true, Bool.and_false, Bool.false_or]
      by_cases h64 : i < 64
      · have hs : i - 8 < 64 := by omega
        simp [h64, hs]
      · simp [h64]

theorem read_write_self (m : Mem) (a v : U64) : (m.write a 8 v).read a 8 = v := by
  apply BitVec.eq_of_getLsbD_eq
  intro i hi
  have hoff : (a + BitVec.ofNat 64 (i / 8) - a).toNat = i / 8 := by
    rw [BitVec.add_comm, BitVec.add_sub_cancel, BitVec.toNat_ofNat]
    exact Nat.mod_eq_of_lt (by omega)
  have hlt : i / 8 < 8 := by omega
  have hpos : 8 * (i / 8) + i % 8 = i := by omega
  have hmod : i % 8 < 8 := by omega
  rw [getLsbD_read, write, hoff, if_pos hlt, BitVec.getLsbD_setWidth, BitVec.getLsbD_ushiftRight, hpos]
  simp [hi, hmod]

end Mem

/-! ### Store buffer -/

inductive ForwardResult where
  | hit (v : U64)
  | miss
  | stall
  deriving DecidableEq, Repr

inductive StoreResolution where
  | pending
  | ready (paddr : PhysAddr) (data : U64)
  | committed (paddr : PhysAddr) (data : U64)
  | cancelled
  deriving DecidableEq, Repr

namespace StoreResolution

/-- A cancelled store still holds its slot until it drains. -/
def isCommitted : StoreResolution → Bool
  | .committed _ _ => true
  | .cancelled => true
  | _ => false

def isPending : StoreResolution → Bool
  | .pending => true
  | _ => false

def paddr : StoreResolution → Option PhysAddr
  | .ready a _ => some a
  | .committed a _ => some a
  | _ => none

/-- Address and data once the store is resolved and not cancelled. -/
def access : StoreResolution → Option (PhysAddr × U64)
  | .ready a d => some (a, d)
  | .committed a d => some (a, d)
  | _ => none

end StoreResolution

structure StoreBufferEntry where
  robTag : RobTag
  vaddr : VirtAddr := 0
  width : MemWidth
  resolution : StoreResolution := .pending
  deriving DecidableEq, Repr

structure StoreBuffer where
  capacity : Nat
  entries : List StoreBufferEntry
  deriving DecidableEq, Repr

/-- `[a, a + n)` and `[b, b + k)` share a byte; ends are computed in `u64`. -/
def overlaps (a : U64) (n : Nat) (b : U64) (k : Nat) : Bool :=
  a < b + BitVec.ofNat 64 k && a + BitVec.ofNat 64 n > b

namespace StoreBuffer

def new (capacity : Nat) : StoreBuffer := ⟨capacity, []⟩

def isFull (b : StoreBuffer) : Bool := b.entries.length == b.capacity

def freeSlots (b : StoreBuffer) : Nat := b.capacity - b.entries.length

def hasCommittedStores (b : StoreBuffer) : Bool := b.entries.any fun e => e.resolution.isCommitted

def allocate (b : StoreBuffer) (tag : RobTag) (width : MemWidth) : Bool × StoreBuffer :=
  if b.isFull then (false, b)
  else (true, { b with entries := b.entries ++ [{ robTag := tag, width }] })

/-- Apply `f` to the first entry with this tag (`find_by_tag_mut`). -/
def modifyFirst (tag : RobTag) (f : StoreBufferEntry → StoreBufferEntry) :
    List StoreBufferEntry → List StoreBufferEntry
  | [] => []
  | e :: rest => if e.robTag = tag then f e :: rest else e :: modifyFirst tag f rest

def resolve (b : StoreBuffer) (tag : RobTag) (vaddr : VirtAddr) (paddr : PhysAddr) (data : U64) :
    StoreBuffer :=
  { b with
    entries := modifyFirst tag (fun e => { e with vaddr, resolution := .ready paddr data }) b.entries }

/-- Only a resolved store becomes committed. -/
def commitEntry (e : StoreBufferEntry) : StoreBufferEntry :=
  match e.resolution with
  | .ready a d => { e with resolution := .committed a d }
  | _ => e

def markCommitted (b : StoreBuffer) (tag : RobTag) : StoreBuffer :=
  { b with entries := modifyFirst tag commitEntry b.entries }

/-- Bytes `width` wide of `v`, moved down by `off` bytes. -/
def extract (v : U64) (off : U64) (width : MemWidth) : U64 :=
  let mask : U64 := if width.bytes ≥ 8 then BitVec.allOnes 64 else (1 <<< (width.bytes * 8)) - 1
  (v >>> (off.toNat * 8)) &&& mask

/-- One store of the scan in `forward_load`; `none` means look further. -/
def forwardFrom (e : StoreBufferEntry) (paddr : PhysAddr) (width : MemWidth) :
    Option ForwardResult :=
  match e.resolution.access with
  | none => none
  | some (a, d) =>
    if overlaps paddr width.bytes a e.width.bytes then
      if a ≤ paddr ∧ a + BitVec.ofNat 64 e.width.bytes ≥ paddr + BitVec.ofNat 64 width.bytes then
        some (.hit (extract d (paddr - a) width))
      else some .stall
    else none

/-- The scan of `forward_load` over entries given youngest first. -/
def forwardScan (paddr : PhysAddr) (width : MemWidth) (loadTag : RobTag) :
    List StoreBufferEntry → ForwardResult
  | [] => .miss
  | e :: rest =>
    if RobTag.isOlderThan e.robTag loadTag then
      match forwardFrom e paddr width with
      | some r => r
      | none => forwardScan paddr width loadTag rest
    else forwardScan paddr width loadTag rest

def forwardLoad (b : StoreBuffer) (paddr : PhysAddr) (width : MemWidth) (loadTag : RobTag) :
    ForwardResult :=
  forwardScan paddr width loadTag b.entries.reverse

def hasUnresolvedStoreBefore (b : StoreBuffer) (tag : RobTag) : Bool :=
  b.entries.any fun e => RobTag.isOlderThan e.robTag tag && e.resolution.isPending

def isUnresolved (b : StoreBuffer) (tag : RobTag) : Bool :=
  match b.entries.find? fun e => e.robTag == tag with
  | some e => e.resolution.isPending
  | none => false

/-- An older store that is unresolved, or resolved onto these bytes. -/
def conflicts (e : StoreBufferEntry) (paddr : PhysAddr) (width : MemWidth) : Bool :=
  match e.resolution with
  | .pending => true
  | .ready a _ => overlaps paddr width.bytes a e.width.bytes
  | .committed a _ => overlaps paddr width.bytes a e.width.bytes
  | .cancelled => false

def hasOlderStoreTo (b : StoreBuffer) (paddr : PhysAddr) (width : MemWidth) (tag : RobTag) : Bool :=
  b.entries.any fun e => RobTag.isOlderThan e.robTag tag && conflicts e paddr width

def drainOne (b : StoreBuffer) : Option (StoreBufferEntry × StoreBuffer) :=
  match b.entries with
  | [] => none
  | e :: rest => if e.resolution.isCommitted then some (e, { b with entries := rest }) else none

def flushSpeculative (b : StoreBuffer) : StoreBuffer :=
  { b with entries := b.entries.filter fun e => e.resolution.isCommitted }

def flushAfter (b : StoreBuffer) (keep : RobTag) : StoreBuffer :=
  { b with entries := b.entries.filter fun e => RobTag.isOlderOrEq e.robTag keep }

/-- Drop the entry when it is the youngest, else leave a cancelled slot to drain. -/
def cancelFirst (tag : RobTag) : List StoreBufferEntry → List StoreBufferEntry
  | [] => []
  | e :: rest =>
    if e.robTag = tag then
      if rest.isEmpty then [] else { e with resolution := .cancelled } :: rest
    else e :: cancelFirst tag rest

def cancel (b : StoreBuffer) (tag : RobTag) : StoreBuffer :=
  { b with entries := cancelFirst tag b.entries }

def findPaddr (b : StoreBuffer) (tag : RobTag) : Option PhysAddr :=
  (b.entries.find? fun e => e.robTag == tag).bind fun e => e.resolution.paddr

end StoreBuffer

/-! ### Load queue -/

inductive LoadState where
  | pending
  | translated
  | executed
  deriving DecidableEq, Repr

structure LoadQueueEntry where
  robTag : RobTag
  vaddr : VirtAddr := 0
  paddr : Option PhysAddr := none
  data : U64 := 0
  width : MemWidth
  state : LoadState := .pending
  valid : Bool := true
  deriving DecidableEq, Repr

structure LoadQueue where
  capacity : Nat
  entries : List LoadQueueEntry
  deriving DecidableEq, Repr

namespace LoadQueue

def new (capacity : Nat) : LoadQueue := ⟨capacity, []⟩

def isFull (q : LoadQueue) : Bool := q.entries.length == q.capacity

def freeSlots (q : LoadQueue) : Nat := q.capacity - q.entries.length

def allocate (q : LoadQueue) (tag : RobTag) (width : MemWidth) : Bool × LoadQueue :=
  if q.isFull then (false, q)
  else (true, { q with entries := q.entries ++ [{ robTag := tag, width }] })

def modifyFirst (tag : RobTag) (f : LoadQueueEntry → LoadQueueEntry) :
    List LoadQueueEntry → List LoadQueueEntry
  | [] => []
  | e :: rest => if e.valid && e.robTag == tag then f e :: rest else e :: modifyFirst tag f rest

def fillAddress (q : LoadQueue) (tag : RobTag) (vaddr : VirtAddr) (paddr : PhysAddr) : LoadQueue :=
  { q with
    entries :=
      modifyFirst tag (fun e => { e with vaddr, paddr := some paddr, state := .translated }) q.entries }

def fillData (q : LoadQueue) (tag : RobTag) (data : U64) : LoadQueue :=
  { q with entries := modifyFirst tag (fun e => { e with data, state := .executed }) q.entries }

/-- A younger load that already ran and read bytes of this store. -/
def violates (storePaddr : PhysAddr) (storeWidth : MemWidth) (storeTag : RobTag)
    (e : LoadQueueEntry) : Bool :=
  e.valid && RobTag.isNewerThan e.robTag storeTag && e.state == .executed &&
    (match e.paddr with
      | some a => overlaps a e.width.bytes storePaddr storeWidth.bytes
      | none => false)

/-- Keep the older of two candidate violators. -/
def older (prev : Option RobTag) (t : RobTag) : Option RobTag :=
  match prev with
  | none => some t
  | some p => if RobTag.isOlderThan t p then some t else some p

def checkOrderingViolation (q : LoadQueue) (storePaddr : PhysAddr) (storeWidth : MemWidth)
    (storeTag : RobTag) : Option RobTag :=
  q.entries.foldl
    (fun acc e => if violates storePaddr storeWidth storeTag e then older acc e.robTag else acc) none

/-- Clear the valid flag of the first live entry with this tag. -/
def invalidate (tag : RobTag) : List LoadQueueEntry → List LoadQueueEntry :=
  modifyFirst tag fun e => { e with valid := false }

/-- Pop the head when it matches; else invalidate in place and pop the dead entries at the head. -/
def deallocate (q : LoadQueue) (tag : RobTag) : LoadQueue :=
  match q.entries with
  | [] => q
  | e :: rest =>
    if e.valid && e.robTag == tag then { q with entries := rest }
    else if q.entries.any fun e => e.valid && e.robTag == tag then
      { q with entries := (invalidate tag q.entries).dropWhile fun e => !e.valid }
    else q

def flush (q : LoadQueue) : LoadQueue := { q with entries := [] }

def flushAfter (q : LoadQueue) (keep : RobTag) : LoadQueue :=
  { q with entries := q.entries.filter fun e => e.valid && RobTag.isOlderOrEq e.robTag keep }

end LoadQueue

end Rvsim
