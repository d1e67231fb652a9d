/-
# Physical registers: PRF, free list, rename map, checkpoints, scoreboard

`pipeline/prf.rs`, `free_list.rs`, `rename_map.rs`, `checkpoint.rs` and
`scoreboard.rs`. Physical register `0` is the hardwired zero: writing,
allocating or reclaiming it does nothing.

Key definitions:
  - `PhysRegFile`, `FreeList`, `RenameMap`, `CheckpointTable`, `Scoreboard`
-/
import Rvsim.Rob

namespace Rvsim

/-! ### Physical register file -/

structure PhysRegFile where
  capacity : Nat
  values : PhysReg → U64
  ready : PhysReg → Bool

namespace PhysRegFile

def new (total : Nat) : PhysRegFile := ⟨total, fun _ => 0, fun p => p == 0⟩

/-- The register exists and is not the hardwired zero. -/
def inRange (f : PhysRegFile) (p : PhysReg) : Bool := p != 0 && p.toNat < f.capacity

def write (f : PhysRegFile) (p : PhysReg) (v : U64) : PhysRegFile :=
  if f.inRange p then
    { f with values := Function.update f.values p v, ready := Function.update f.ready p true }
  else f

def read (f : PhysRegFile) (p : PhysReg) : U64 := if p.toNat < f.capacity then f.values p else 0

def isReady (f : PhysRegFile) (p : PhysReg) : Bool :=
  if p.toNat < f.capacity then f.ready p else false

def markArchReady (f : PhysRegFile) (numArch : Nat) : PhysRegFile :=
  { f with ready := fun p => p.toNat < min numArch f.capacity || f.ready p }

/-- A newly allocated register is not ready until its producer writes it. -/
def allocate (f : PhysRegFile) (p : PhysReg) : PhysRegFile :=
  if f.inRange p then { f with ready := Function.update f.ready p false } else f

end PhysRegFile

/-! ### Free list -/

structure FreeList where
  queue : List PhysReg
  deriving DecidableEq, Repr

namespace FreeList

/-- `PhysReg(i as u16)` for `i` from `num_arch` to `prf_size`: the cast wraps past `2^16`. -/
def new (prfSize numArch : Nat) : FreeList :=
  ⟨(List.range' numArch (prfSize - numArch)).map fun i => BitVec.ofNat 16 i⟩

def allocate (l : FreeList) : Option (PhysReg × FreeList) :=
  match l.queue with
  | [] => none
  | p :: rest => some (p, ⟨rest⟩)

def reclaim (l : FreeList) (p : PhysReg) : FreeList := if p = 0 then l else ⟨l.queue ++ [p]⟩

/-- Reclaim the destination of each entry, oldest first. -/
def reclaimAll (l : FreeList) (es : List RobEntry) : FreeList :=
  es.foldl (fun l e => l.reclaim e.physDst) l

def available (l : FreeList) : Nat := l.queue.length

end FreeList

/-! ### Rename map -/

structure RenameMap where
  gpr : RegIdx → PhysReg
  fpr : RegIdx → PhysReg

namespace RenameMap

def new : RenameMap := ⟨fun i => i.setWidth 16, fun i => 32 + i.setWidth 16⟩

def get (m : RenameMap) (reg : RegIdx) (isFp : Bool) : PhysReg :=
  if !isFp && reg.isZero then 0 else if isFp then m.fpr reg else m.gpr reg

def set (m : RenameMap) (reg : RegIdx) (isFp : Bool) (p : PhysReg) : RenameMap :=
  if !isFp && reg.isZero then m
  else if isFp then { m with fpr := Function.update m.fpr reg p }
  else { m with gpr := Function.update m.gpr reg p }

/-- One entry of the replay in `rebuild_rename_map`. -/
def applyEntry (m : RenameMap) (e : RobEntry) : RenameMap :=
  if e.ctrl.regWrite && !e.rd.isZero then m.set e.rd false e.physDst
  else if e.ctrl.fpRegWrite then m.set e.rd true e.physDst
  else m

/-- `rebuild_rename_map`: the committed map with every surviving entry replayed in order. -/
def rebuild (committed : RenameMap) (es : List RobEntry) : RenameMap := es.foldl applyEntry committed

end RenameMap

/-! ### Checkpoints -/

structure Checkpoint where
  branchTag : RobTag
  renameMap : RenameMap

structure CheckpointTable where
  slots : List (Option Checkpoint)
  count : Nat

namespace CheckpointTable

def new (capacity : Nat) : CheckpointTable := ⟨List.replicate capacity none, 0⟩

def capacity (t : CheckpointTable) : Nat := t.slots.length

def isFull (t : CheckpointTable) : Bool := t.count == t.slots.length

/-- Position of the first empty slot, counting from `i`. -/
def firstFree : Nat → List (Option Checkpoint) → Option Nat
  | _, [] => none
  | i, none :: _ => some i
  | i, some _ :: rest => firstFree (i + 1) rest

/-- Take the first empty slot; its index is returned as a `u8`. -/
def allocate (t : CheckpointTable) (tag : RobTag) (m : RenameMap) :
    Option U8 × CheckpointTable :=
  match firstFree 0 t.slots with
  | some i => (some (BitVec.ofNat 8 i), ⟨t.slots.set i (some ⟨tag, m⟩), t.count + 1⟩)
  | none => (none, t)

def findByTag (t : CheckpointTable) (tag : RobTag) : Option Checkpoint :=
  (t.slots.filterMap id).find? fun c => c.branchTag == tag

def free (t : CheckpointTable) (id : U8) : CheckpointTable :=
  match t.slots[id.toNat]? with
  | some (some _) => ⟨t.slots.set id.toNat none, t.count - 1⟩
  | _ => t

/-- Does a flush that keeps `keep` clear this slot? -/
def flushed (keep : RobTag) : Option Checkpoint → Bool
  | some c => RobTag.isNewerThan c.branchTag keep
  | none => false

def flushAfter (t : CheckpointTable) (keep : RobTag) : CheckpointTable :=
  ⟨t.slots.map fun s => if flushed keep s then none else s, t.count - t.slots.countP (flushed keep)⟩

def flushAll (t : CheckpointTable) : CheckpointTable := ⟨t.slots.map fun _ => none, 0⟩

end CheckpointTable

/-! ### Scoreboard -/

structure Scoreboard where
  gpr : RegIdx → Option RobTag
  fpr : RegIdx → Option RobTag

namespace Scoreboard

def new : Scoreboard := ⟨fun _ => none, fun _ => none⟩

def setProducer (s : Scoreboard) (reg : RegIdx) (isFp : Bool) (tag : RobTag) : Scoreboard :=
  if isFp then { s with fpr := Function.update s.fpr reg (some tag) }
  else if reg.isZero then s
  else { s with gpr := Function.update s.gpr reg (some tag) }

def getProducer (s : Scoreboard) (reg : RegIdx) (isFp : Bool) : Option RobTag :=
  if isFp then s.fpr reg else s.gpr reg

def clearIfMatch (s : Scoreboard) (reg : RegIdx) (isFp : Bool) (tag : RobTag) : Scoreboard :=
  if s.getProducer reg isFp = some tag then
    if isFp then { s with fpr := Function.update s.fpr reg none }
    else { s with gpr := Function.update s.gpr reg none }
  else s

def applyEntry (s : Scoreboard) (e : RobEntry) : Scoreboard :=
  if e.ctrl.fpRegWrite then { s with fpr := Function.update s.fpr e.rd (some e.tag) }
  else if e.ctrl.regWrite && !e.rd.isZero then
    { s with gpr := Function.update s.gpr e.rd (some e.tag) }
  else s

def rebuildFromRob (r : Rob) : Scoreboard := r.entries.foldl applyEntry new

end Scoreboard

end Rvsim
