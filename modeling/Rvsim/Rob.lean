/-
# The reorder buffer

`pipeline/rob.rs`. The ring of the source is read here as the list of its
valid entries, oldest first: `head`, `tail`, `count` and the tag index are
bookkeeping for that list. Tags are allocated from a 32-bit counter that
skips zero, and compared by the sign of their wrapped difference.

Key definitions:
  - `RobTag.isOlderThan`, `RobTag.next`
  - `RobEntry`, `Rob`
  - `Rob.allocate`, `Rob.complete`, `Rob.fault`, `Rob.commitHead`, `Rob.flushAfter`
-/
import Rvsim.Common

namespace Rvsim

namespace RobTag

/-- `(self - other) as i32 < 0`: right while live tags are less than `2^31` apart. -/
def isOlderThan (a b : RobTag) : Bool := (a - b).msb

def isNewerThan (a b : RobTag) : Bool := isOlderThan b a

def isOlderOrEq (a b : RobTag) : Bool := !isOlderThan b a

/-- The counter's successor: wraps past `u32::MAX` to `1`, since `0` is no tag. -/
def next (t : RobTag) : RobTag := if t + 1 = 0 then 1 else t + 1

end RobTag

inductive RobState where
  | issued
  | completed
  | faulted
  deriving DecidableEq, Repr

structure BpOutcome where
  taken : Bool := false
  mispredicted : Bool := false
  deriving DecidableEq, Repr

structure RobEntry where
  tag : RobTag
  pc : U64
  inst : U32
  instSize : InstSize
  rd : RegIdx
  rdFp : Bool
  result : Option U64 := none
  ctrl : ControlSignals
  state : RobState := .issued
  trap : Option Trap := none
  csrUpdate : Option CsrUpdate := none
  physDst : PhysReg
  oldPhysDst : PhysReg
  fpFlags : U8 := 0
  bpUpdate : Bool := false
  bpOutcome : BpOutcome := {}
  bpTarget : Option U64 := none
  bpPc : U64 := 0
  pteUpdate : Option PteUpdate := none
  sfenceVma : Option SfenceVmaInfo := none
  lrSc : Option LrScRecord := none
  checkpointId : Option U8 := none
  deriving DecidableEq, Repr

namespace RobEntry

/-- `pc + inst_size`, the address after this instruction. -/
def fallThrough (e : RobEntry) : U64 := e.pc + e.instSize.asU64

/-- The integer destination counts only away from `x0`. -/
def writesGpr (e : RobEntry) : Bool := e.ctrl.regWrite && !e.rd.isZero

end RobEntry

structure Rob where
  capacity : Nat
  entries : List RobEntry
  nextTag : RobTag
  deriving DecidableEq, Repr

namespace Rob

def new (capacity : Nat) : Rob := ⟨capacity, [], 1⟩

def len (r : Rob) : Nat := r.entries.length

def isFull (r : Rob) : Bool := r.entries.length == r.capacity

def freeSlots (r : Rob) : Nat := r.capacity - r.entries.length

def allocate (r : Rob) (pc : U64) (inst : U32) (instSize : InstSize) (rd : RegIdx) (rdFp : Bool)
    (ctrl : ControlSignals) (physDst oldPhysDst : PhysReg) : Option (RobTag × Rob) :=
  if r.isFull then none
  else
    let e : RobEntry := { tag := r.nextTag, pc, inst, instSize, rd, rdFp, ctrl, physDst, oldPhysDst }
    some (r.nextTag, { r with entries := r.entries ++ [e], nextTag := r.nextTag.next })

/-- Apply `f` to the entry with this tag, if it is still here (`find_entry_mut`). -/
def modify (r : Rob) (tag : RobTag) (f : RobEntry → RobEntry) : Rob :=
  { r with entries := r.entries.map fun e => if e.tag = tag then f e else e }

/-- A faulted entry stays faulted. -/
def complete (r : Rob) (tag : RobTag) (result : U64) : Rob :=
  r.modify tag fun e =>
    if e.state = .faulted then e else { e with state := .completed, result := some result }

def fault (r : Rob) (tag : RobTag) (trap : Trap) : Rob :=
  r.modify tag fun e => { e with state := .faulted, trap := some trap }

def setCsrUpdate (r : Rob) (tag : RobTag) (u : CsrUpdate) : Rob :=
  r.modify tag fun e => { e with csrUpdate := some u }

def setBpUpdate (r : Rob) (tag : RobTag) (pc : U64) (outcome : BpOutcome) (target : Option U64) :
    Rob :=
  r.modify tag fun e =>
    { e with bpUpdate := true, bpPc := pc, bpOutcome := outcome, bpTarget := target }

def setBpTarget (r : Rob) (tag : RobTag) (target : U64) : Rob :=
  r.modify tag fun e => { e with bpTarget := some target }

def setFpFlags (r : Rob) (tag : RobTag) (flags : U8) : Rob :=
  r.modify tag fun e => { e with fpFlags := e.fpFlags ||| flags }

def setSfenceVma (r : Rob) (tag : RobTag) (i : SfenceVmaInfo) : Rob :=
  r.modify tag fun e => { e with sfenceVma := some i }

def setCheckpointId (r : Rob) (tag : RobTag) (id : U8) : Rob :=
  r.modify tag fun e => { e with checkpointId := some id }

/-- Take the FP flags of every entry older than `before`, clearing them there. -/
def drainFpFlagsBefore (r : Rob) (before : RobTag) : U8 × Rob :=
  let older (e : RobEntry) : Bool := RobTag.isOlderThan e.tag before
  (r.entries.foldl (fun acc e => if older e then acc ||| e.fpFlags else acc) 0,
    { r with entries := r.entries.map fun e => if older e then { e with fpFlags := 0 } else e })

def peekHead (r : Rob) : Option RobEntry := r.entries.head?

/-- Retire the head unless it is still `Issued`. -/
def commitHead (r : Rob) : Option (RobEntry × Rob) :=
  match r.entries with
  | [] => none
  | e :: rest => if e.state = .issued then none else some (e, { r with entries := rest })

def flushAll (r : Rob) : Rob := { r with entries := [] }

/-- The entries up to and including the one tagged `tag`; all of them when it is absent. -/
def keepThrough (tag : RobTag) : List RobEntry → List RobEntry
  | [] => []
  | e :: rest => if e.tag = tag then [e] else e :: keepThrough tag rest

def flushAfter (r : Rob) (tag : RobTag) : Rob := { r with entries := keepThrough tag r.entries }

def findEntry (r : Rob) (tag : RobTag) : Option RobEntry := r.entries.find? fun e => e.tag == tag

/-- The tag before `tag` in program order, scanning with `prev` the last tag passed. -/
def prevTagFrom (tag : RobTag) : Option RobTag → List RobEntry → Option RobTag
  | _, [] => none
  | prev, e :: rest => if e.tag = tag then prev else prevTagFrom tag (some e.tag) rest

def prevTagOf (r : Rob) (tag : RobTag) : Option RobTag := prevTagFrom tag none r.entries

/-- `iter_after`: the entries whose tag is newer than `keep`. -/
def after (r : Rob) (keep : RobTag) : List RobEntry :=
  r.entries.filter fun e => RobTag.isNewerThan e.tag keep

/-- Scan the entries before `tag`; true when none of them satisfies `bad`. -/
def noneBefore (tag : RobTag) (bad : RobEntry → Bool) : List RobEntry → Bool
  | [] => true
  | e :: rest => if e.tag = tag then true else if bad e then false else noneBefore tag bad rest

def allBeforeCompleted (r : Rob) (tag : RobTag) : Bool :=
  noneBefore tag (fun e => e.state == .issued) r.entries

/-- A FENCE may issue once no older entry of its predecessor set is still `Issued`. -/
def fencePredSatisfied (r : Rob) (tag : RobTag) (predR predW : Bool) : Bool :=
  if !predR && !predW then true
  else
    noneBefore tag
      (fun e => e.state == .issued && ((predR && e.ctrl.memRead) || (predW && e.ctrl.memWrite)))
      r.entries

/-- An older FENCE still in the buffer orders this access behind it. -/
def hasFenceBlocking (r : Rob) (tag : RobTag) (isLoad isStore : Bool) : Bool :=
  if !isLoad && !isStore then false
  else
    !noneBefore tag
      (fun e =>
        e.ctrl.systemOp == .fence &&
          ((isLoad && (e.inst >>> 20).getLsbD 1) || (isStore && (e.inst >>> 20).getLsbD 0)))
      r.entries

theorem map_tag_allocate {r r' : Rob} {pc : U64} {inst : U32} {size : InstSize} {rd : RegIdx} {fp : Bool}
    {ctrl : ControlSignals} {p old : PhysReg} {tag : RobTag}
    (h : r.allocate pc inst size rd fp ctrl p old = some (tag, r')) :
    r'.entries.map (·.tag) = r.entries.map (·.tag) ++ [tag] := by
  unfold allocate at h
  rw [Option.ite_none_left_eq_some] at h
  obtain ⟨rfl, rfl⟩ := Prod.mk.inj (Option.some.inj h.2)
  exact List.map_append

/-! ### Lookup after an update -/

/-- Looking a tag up in entries rewritten by a map that keeps tags. -/
theorem find?_map_tag (es : List RobEntry) (tag : RobTag) (g : RobEntry → RobEntry)
    (hg : ∀ e, (g e).tag = e.tag) :
    (es.map g).find? (fun e => e.tag == tag) = (es.find? fun e => e.tag == tag).map g := by
  rw [List.find?_map]
  congr 2
  funext e
  simp [hg]

theorem tag_of_find? {es : List RobEntry} {tag : RobTag} {e : RobEntry}
    (h : es.find? (fun e => e.tag == tag) = some e) : e.tag = tag := by
  simpa using List.find?_some h

/-- Looking a tag up after an update finds the updated entry. -/
theorem findEntry_modify (r : Rob) (tag : RobTag) (f : RobEntry → RobEntry)
    (hf : ∀ e, (f e).tag = e.tag) : (r.modify tag f).findEntry tag = (r.findEntry tag).map f := by
  unfold findEntry modify
  rw [find?_map_tag _ _ _ (by intro e; split <;> simp [hf])]
  cases h : r.entries.find? fun e => e.tag == tag with
  | none => rfl
  | some e => simp [tag_of_find? h]

/-- Draining the older flags leaves the entry that asked for them alone. -/
theorem findEntry_drainFpFlagsBefore (r : Rob) (tag : RobTag) :
    (r.drainFpFlagsBefore tag).2.findEntry tag = r.findEntry tag := by
  unfold findEntry drainFpFlagsBefore
  rw [find?_map_tag _ _ _ (by intro e; split <;> rfl)]
  cases h : r.entries.find? fun e => e.tag == tag with
  | none => rfl
  | some e =>
    have hself : RobTag.isOlderThan e.tag tag = false := by simp [tag_of_find? h, RobTag.isOlderThan]
    simp [hself]

end Rob

end Rvsim
