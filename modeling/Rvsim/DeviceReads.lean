/-
# Device reads

A store reaches a device when it commits; a load, an LR or an AMO reads one in
memory2, when what is in front of it may still trap, redirect fetch or find
that it ran too early. A squash behind memory2 leaves the read done, and a load
that finds its data in the store buffer reads nothing. A device is read once
for each load that retires if memory2 finds everything in front of the load
past execution and bound to retire, and its bytes in no older store.

The log is no part of the simulator. It notes what memory2 reads, and where the
accesses in front of memory2 land. What should have been read it takes from the
instructions that retire: of each that loads, the read its control signals
stand for where its access landed.

Key definitions:
  - `ControlSignals.deviceRead`, `mem2Devices`
  - `DeviceView.Orderly`
  - `DeviceTick`, `DeviceLog`, `DeviceLog.Exact`
Key theorems:
  - `memory2Loop_reads`
  - `DeviceLog.after_exact`
-/
import Rvsim.Latency
import Rvsim.Lib.Ledger

namespace Rvsim

variable {U : Type}

/-! ### What memory2 reads -/

structure DeviceRead where
  addr : PhysAddr
  width : MemWidth
  deriving DecidableEq, Repr

/-- Where an access lands: its physical address, and what answers there. -/
structure Landing where
  paddr : PhysAddr
  ram : Bool
  htif : Bool
  deriving DecidableEq, Repr

def Cpu.landsAt (c : Cpu U) (a : PhysAddr) : Landing := ⟨a, c.isRam a, c.inHtif a⟩

namespace ControlSignals

/-- A load, an LR or an AMO. -/
def loads (c : ControlSignals) : Bool := if c.atomicOp = .none then c.memRead else c.atomicOp != .sc

/-- A store, an SC or an AMO: memory2 resolves it, and looks for loads that ran too early. -/
def resolves (c : ControlSignals) : Bool :=
  if c.atomicOp = .none then !c.memRead && c.memWrite else c.atomicOp != .lr

/-- It reads a device: a load that does not land in RAM, an LR or an AMO that the bus does not answer from RAM. -/
def readsDevice (c : ControlSignals) (p : Landing) : Bool :=
  c.loads &&
    if c.atomicOp = .none then !p.ram && c.width != .nop
    else !(!p.htif && p.ram) && (c.width == .word || c.width == .double)

/-- The device read that the instruction stands for where its access lands. -/
def deviceRead (c : ControlSignals) (p : Landing) : Option DeviceRead :=
  if c.readsDevice p then some ⟨p.paddr, c.width⟩ else none

theorem loads_of_deviceRead {c : ControlSignals} {p : Landing} {r : DeviceRead} (h : c.deviceRead p = some r) :
    c.loads = true := by
  unfold deviceRead at h
  rw [Option.ite_none_right_eq_some] at h
  exact (Bool.and_eq_true _ _ ▸ h.1).1

theorem loads_of_not_isMem {c : ControlSignals} (h : c.isMem = false) : c.loads = false := by
  unfold isMem at h
  unfold loads
  simp only [Bool.or_eq_false_iff, bne_eq_false_iff_eq] at h
  rw [if_pos h.2]
  exact h.1.1

end ControlSignals

def Mem1Mem2Entry.deviceRead (cpu : Cpu U) (m : Mem1Mem2Entry) : Option DeviceRead :=
  m.ctrl.deviceRead (cpu.landsAt m.paddr)

/-- A load, an LR or an AMO of a device address past memory2; `bus` when it read the device, and did not find its
data in the store buffer. -/
structure DeviceAccess where
  tag : RobTag
  read : DeviceRead
  bus : Bool
  deriving DecidableEq, Repr

/-- Memory2 asks the bus: always for an LR or an AMO, else when the store buffer does not have the data. -/
def Mem2State.asksBus (s : Mem2State U) (m : Mem1Mem2Entry) : Bool :=
  m.ctrl.atomicOp != .none || s.sb.forwardLoad m.paddr m.ctrl.width m.robTag == .miss

def mem2Access (s : Mem2State U) (m : Mem1Mem2Entry) : List DeviceAccess :=
  (m.deviceRead s.cpu).toList.map fun r => ⟨m.robTag, r, s.asksBus m⟩

/-- Along the loop of memory2, what leaves it of loads, LRs and AMOs of device addresses. -/
def mem2Devices [Units U] (s : Mem2State U) : List Mem1Mem2Entry → List DeviceAccess
  | [] => []
  | m :: rest =>
    match m.trap with
    | some _ => []
    | none =>
      match memory2One s m with
      | none => []
      | some (_, s') => mem2Access s m ++ mem2Devices s' rest

/-- The reads made over the bus. -/
def busReads (as : List DeviceAccess) : List DeviceRead := (as.filter (·.bus)).map (·.read)

/-- One read of a device. -/
def Cpu.readDevice [Units U] (c : Cpu U) (r : DeviceRead) : Cpu U :=
  { c with units := (Units.busRead c.units r.addr r.width).2 }

theorem busReads_append (as bs : List DeviceAccess) : busReads (as ++ bs) = busReads as ++ busReads bs := by
  unfold busReads
  rw [List.filter_append, List.map_append]

section

variable [Units U]

theorem atomicRead_device (cpu : Cpu U) (paddr : PhysAddr) (w : MemWidth) : (atomicRead cpu paddr w).2 =
    if !(!cpu.inHtif paddr && cpu.isRam paddr) && (w == .word || w == .double) then
        cpu.readDevice ⟨paddr, w⟩ else cpu := by
  have hbus : ∀ w, (cpu.busRead paddr w).2 =
      if !(!cpu.inHtif paddr && cpu.isRam paddr) then cpu.readDevice ⟨paddr, w⟩ else cpu := by
    intro w
    unfold Cpu.busRead
    cases !cpu.inHtif paddr && cpu.isRam paddr with
    | true => rfl
    | false => rfl
  unfold atomicRead
  cases w with
  | word => simpa using hbus .word
  | double => simpa using hbus .double
  | nop => simp
  | byte => simp
  | half => simp

theorem loadPhys_device (cpu : Cpu U) (paddr : PhysAddr) (w : MemWidth) : (cpu.loadPhys paddr w).2 =
    if !cpu.isRam paddr && w != .nop then cpu.readDevice ⟨paddr, w⟩ else cpu := by
  unfold Cpu.loadPhys
  cases cpu.isRam paddr with
  | true => rfl
  | false =>
    by_cases hw : w = .nop
    · rw [hw]
      rfl
    · simp [hw, Cpu.readDevice]

theorem mem2Access_reads (s : Mem2State U) (m : Mem1Mem2Entry) :
    (busReads (mem2Access s m)).foldl Cpu.readDevice s.cpu =
      if m.ctrl.readsDevice (s.cpu.landsAt m.paddr) && s.asksBus m then
        s.cpu.readDevice ⟨m.paddr, m.ctrl.width⟩ else s.cpu := by
  unfold mem2Access Mem1Mem2Entry.deviceRead ControlSignals.deviceRead busReads
  cases m.ctrl.readsDevice (s.cpu.landsAt m.paddr) with
  | false => rfl
  | true => cases s.asksBus m <;> rfl

/-- **One entry** changes the core by the device read that is noted for it, and by nothing else. -/
theorem memory2One_reads {s s' : Mem2State U} {m : Mem1Mem2Entry} {wb : Mem2WbEntry}
    (h : memory2One s m = some (wb, s')) : s'.cpu = (busReads (mem2Access s m)).foldl Cpu.readDevice s.cpu := by
  rw [mem2Access_reads]
  have hatomic : m.ctrl.atomicOp ≠ .none → m.ctrl.atomicOp ≠ .sc → (atomicRead s.cpu m.paddr m.ctrl.width).2 =
      if m.ctrl.readsDevice (s.cpu.landsAt m.paddr) && s.asksBus m then
        s.cpu.readDevice ⟨m.paddr, m.ctrl.width⟩ else s.cpu := by
    intro h1 h2
    rw [atomicRead_device]
    unfold Mem2State.asksBus ControlSignals.readsDevice ControlSignals.loads Cpu.landsAt
    simp [h1, h2]
  have hquiet : m.ctrl.loads = false → s.cpu =
      if m.ctrl.readsDevice (s.cpu.landsAt m.paddr) && s.asksBus m then
        s.cpu.readDevice ⟨m.paddr, m.ctrl.width⟩ else s.cpu := by
    intro hno
    unfold ControlSignals.readsDevice
    rw [hno, Bool.false_and, Bool.false_and, if_neg Bool.false_ne_true]
  unfold memory2One at h
  split at h
  · rename_i hop
    unfold mem2Atomic at h
    split at h
    · rename_i hlr
      split at h
      · cases h
      · obtain ⟨rfl, rfl⟩ := Prod.mk.inj (Option.some.inj h)
        exact hatomic hop (by rw [hlr]; decide)
    · rename_i hsc
      obtain ⟨rfl, rfl⟩ := Prod.mk.inj (Option.some.inj h)
      rw [Mem2State.checkViolation_cpu]
      refine hquiet ?_
      unfold ControlSignals.loads
      simp [hsc]
    · rename_i hlr hsc
      split at h
      · cases h
      · obtain ⟨rfl, rfl⟩ := Prod.mk.inj (Option.some.inj h)
        rw [Mem2State.checkViolation_cpu]
        exact hatomic hop hsc
  · rename_i hop
    have hop' : m.ctrl.atomicOp = .none := not_not.mp hop
    split at h
    · rename_i hr
      unfold mem2Load at h
      split at h
      · rename_i v hf
        obtain ⟨rfl, rfl⟩ := Prod.mk.inj (Option.some.inj h)
        have hasks : s.asksBus m = false := by
          unfold Mem2State.asksBus
          simp [hop', hf]
        rw [hasks, Bool.and_false, if_neg Bool.false_ne_true]
      · cases h
      · rename_i hf
        obtain ⟨rfl, rfl⟩ := Prod.mk.inj (Option.some.inj h)
        show (s.cpu.loadPhys m.paddr m.ctrl.width).2 = _
        rw [loadPhys_device]
        unfold Mem2State.asksBus ControlSignals.readsDevice ControlSignals.loads Cpu.landsAt
        simp [hop', hr, hf]
    · rename_i hr
      have hnone : m.ctrl.loads = false := by
        unfold ControlSignals.loads
        rw [if_pos hop']
        exact Bool.not_eq_true _ ▸ hr
      split at h
      · obtain ⟨rfl, rfl⟩ := Prod.mk.inj (Option.some.inj h)
        rw [Mem2State.checkViolation_cpu]
        exact hquiet hnone
      · obtain ⟨rfl, rfl⟩ := Prod.mk.inj (Option.some.inj h)
        exact hquiet hnone

/-- **Memory2** changes the core by the reads noted, in the order in which they are noted. -/
theorem memory2Loop_reads (s : Mem2State U) (es : List Mem1Mem2Entry) :
    (memory2Loop s es).2.2.cpu = (busReads (mem2Devices s es)).foldl Cpu.readDevice s.cpu := by
  induction es generalizing s with
  | nil => rfl
  | cons m rest ih =>
    rw [memory2Loop, mem2Devices]
    cases m.trap with
    | some t => rfl
    | none =>
      dsimp only
      rcases hone : memory2One s m with _ | ⟨wb, s'⟩
      · rfl
      · dsimp only
        rw [busReads_append, List.foldl_append, ← memory2One_reads hone]
        exact ih s'

end

/-! ### The condition -/

/-- Retiring it does not redirect fetch and leaves interrupts as they are: it writes no CSR, returns from no trap,
does not wait, fences neither translations nor fetch, and is no SC, which may yet fail. -/
def RobEntry.goesOn (e : RobEntry) : Bool :=
  e.csrUpdate.isNone && e.sfenceVma.isNone &&
    (match e.lrSc with
      | some (.sc _) => false
      | _ => true) &&
    e.ctrl.systemOp != .mret && e.ctrl.systemOp != .sret && e.ctrl.systemOp != .wfi && e.ctrl.systemOp != .fenceI

/-- The instruction has run, or is past memory2 as those with the tags `past`, and is bound to retire. -/
structure RobEntry.Through (past : List RobTag) (e : RobEntry) : Prop where
  ran : e.state = .completed ∨ (e.state = .issued ∧ e.tag ∈ past)
  goesOn : e.goesOn = true

instance (past : List RobTag) (e : RobEntry) : Decidable (e.Through past) :=
  decidable_of_iff ((e.state = .completed ∨ (e.state = .issued ∧ e.tag ∈ past)) ∧ e.goesOn = true)
    ⟨fun h => ⟨h.1, h.2⟩, fun h => ⟨h.ran, h.goesOn⟩⟩

/-- What the condition reads of an engine. -/
structure DeviceView (U : Type) where
  cpu : Cpu U
  rob : Rob
  sb : StoreBuffer
  /-- The loads in the load queue. -/
  loads : List RobTag
  /-- What is in front of memory2, or parked there behind a miss. -/
  front : List Mem1Mem2Entry
  /-- What is behind memory2. -/
  past : List RobTag

namespace DeviceView

variable (v : DeviceView U)

/-- Device loads about to read. -/
def reading : List Mem1Mem2Entry := v.front.filter fun m => m.trap.isNone && (m.deviceRead v.cpu).isSome

/-- Stores about to resolve. -/
def storing : List Mem1Mem2Entry := v.front.filter fun m => m.trap.isNone && m.ctrl.resolves

/-- What memory2 takes before `m` and does not resolve. -/
def ahead (m : Mem1Mem2Entry) : List RobTag :=
  (v.front.filter fun a => !a.ctrl.resolves && decide (a.robTag.toNat < m.robTag.toNat)).map (·.robTag)

/-- Where the accesses in front of memory2 land. -/
def landed : List (RobTag × Landing) := v.front.map fun m => (m.robTag, v.cpu.landsAt m.paddr)

/-- The condition on the state before a tick; the loads `pend` have read their device and are in the buffer. -/
structure Orderly (pend : List (RobTag × DeviceRead)) : Prop where
  /-- What is in front of a load that has read, and the load, has run and is bound to retire. -/
  read : ∀ x ∈ pend, ∀ e ∈ v.rob.entries, e.tag = x.1 ∨ Ledger.InFront v.rob.tags e.tag x.1 → e.Through v.past
  /-- So is what is in front of a load about to read, or memory2 takes it before. -/
  next : ∀ m ∈ v.reading, ∀ e ∈ v.rob.entries, Ledger.InFront v.rob.tags e.tag m.robTag →
    e.Through (v.past ++ v.ahead m)
  /-- No interrupt is taken in front of a load that has read. -/
  quiet : pend ≠ [] → checkInterrupts v.cpu = none ∧ v.cpu.wfiWaiting = false
  /-- No older store has the bytes of a load about to read, or is yet to resolve. -/
  stored : ∀ m ∈ v.reading, m.ctrl.atomicOp = .none →
    v.sb.hasOlderStoreTo m.paddr m.ctrl.width m.robTag = false ∧
      ∀ s ∈ v.storing, RobTag.isOlderThan s.robTag m.robTag = false
  /-- What a store about to resolve may squash lies behind these loads. -/
  replay : ∀ s ∈ v.storing, ∀ u ∈ v.loads, RobTag.isNewerThan u s.robTag = true →
    ∀ t ∈ pend.map Prod.fst ++ v.reading.map (·.robTag), Ledger.InFront v.rob.tags t u

instance (pend : List (RobTag × DeviceRead)) : Decidable (v.Orderly pend) :=
  decidable_of_iff
    ((∀ x ∈ pend, ∀ e ∈ v.rob.entries, e.tag = x.1 ∨ Ledger.InFront v.rob.tags e.tag x.1 → e.Through v.past) ∧
      (∀ m ∈ v.reading, ∀ e ∈ v.rob.entries, Ledger.InFront v.rob.tags e.tag m.robTag →
        e.Through (v.past ++ v.ahead m)) ∧
      (pend ≠ [] → checkInterrupts v.cpu = none ∧ v.cpu.wfiWaiting = false) ∧
      (∀ m ∈ v.reading, m.ctrl.atomicOp = .none →
        v.sb.hasOlderStoreTo m.paddr m.ctrl.width m.robTag = false ∧
          ∀ s ∈ v.storing, RobTag.isOlderThan s.robTag m.robTag = false) ∧
      ∀ s ∈ v.storing, ∀ u ∈ v.loads, RobTag.isNewerThan u s.robTag = true →
        ∀ t ∈ pend.map Prod.fst ++ v.reading.map (·.robTag), Ledger.InFront v.rob.tags t u)
    ⟨fun h => ⟨h.1, h.2.1, h.2.2.1, h.2.2.2.1, h.2.2.2.2⟩, fun h => ⟨h.read, h.next, h.quiet, h.stored, h.replay⟩⟩

end DeviceView

/-! ### The log -/

/-- What a tick does, as far as the log is concerned. -/
structure DeviceTick where
  /-- What commit takes off the head of the buffer. -/
  popped : List RobEntry
  /-- The buffer behind it. -/
  buffer : List RobTag
  /-- Where the accesses in front of memory2 land. -/
  landed : List (RobTag × Landing)
  /-- What memory2 passes. -/
  passed : List DeviceAccess
  /-- The buffer at the end. -/
  left : List RobTag

namespace DeviceTick

/-- A tick from `v` in which commit leaves the buffer `committed`. -/
def ofRobs (v : DeviceView U) (committed after : Rob) (passed : List DeviceAccess) : DeviceTick where
  popped := v.rob.entries.take (v.rob.len - committed.len)
  buffer := committed.tags
  landed := v.landed
  passed := passed
  left := after.tags

/-- What retires: a faulted head leaves the buffer too, but its trap is taken. -/
def retired (t : DeviceTick) : List RobEntry := t.popped.filter fun e => e.state != .faulted

/-- The buffer at the beginning. -/
def live (t : DeviceTick) : List RobTag := t.popped.map (·.tag) ++ t.buffer

def notes (t : DeviceTick) : List (RobTag × DeviceRead) := t.passed.map fun a => (a.tag, a.read)

theorem retired_sublist (t : DeviceTick) : (t.retired.map (·.tag)).Sublist (t.popped.map (·.tag)) :=
  List.filter_sublist.map _

end DeviceTick

/-- The device reads of a run; what the loads it committed should have read, `none` of one that never came past
memory2; the loads that have read and are in the buffer; where the accesses in flight land. -/
structure DeviceLog where
  reads : List DeviceRead := []
  loads : List (Option DeviceRead) := []
  pend : List (RobTag × DeviceRead) := []
  landings : RobTag → Option Landing := fun _ => none

namespace DeviceLog

variable {l : DeviceLog} {t : DeviceTick} {q : List RobTag}

/-- The pending loads that commit leaves in the buffer, and those that memory2 passes. -/
def held (l : DeviceLog) (t : DeviceTick) : List (RobTag × DeviceRead) :=
  (l.pend.filter fun x => x.1 ∉ t.popped.map (·.tag)) ++ t.notes

/-- What a retiring instruction should have read. -/
def loadsOf (l : DeviceLog) (e : RobEntry) : List (Option DeviceRead) :=
  if e.ctrl.loads then
    match l.landings e.tag with
    | none => [none]
    | some p => (e.ctrl.deviceRead p).toList.map some
  else []

def note (landings : RobTag → Option Landing) (new : List (RobTag × Landing)) : RobTag → Option Landing :=
  new.foldl (fun a x => Function.update a x.1 (some x.2)) landings

/-- The log behind a tick. -/
def after (l : DeviceLog) (t : DeviceTick) : DeviceLog where
  reads := l.reads ++ busReads t.passed
  loads := l.loads ++ t.retired.flatMap l.loadsOf
  pend := (l.held t).filter fun x => x.1 ∈ t.left
  landings := note l.landings t.landed

/-- **Exactly once.** The reads are those of the committed loads, in the order in which they retired, and then those
of the loads that have read and are still in the buffer `q`, in the order of the buffer. -/
structure Exact (l : DeviceLog) (q : List RobTag) : Prop where
  reads : l.reads.map some = l.loads ++ l.pend.map fun x => some x.2
  along : Ledger.Along q l.pend

theorem exact_init (q : List RobTag) : ({} : DeviceLog).Exact q := ⟨rfl, Ledger.Along.nil q⟩

theorem Exact.append (h : l.Exact q) (new : List RobTag) : l.Exact (q ++ new) :=
  ⟨h.reads, h.along.mono (List.sublist_append_left q new)⟩

/-- A read that no load accounts for. -/
theorem not_exact_of_dropped {r : DeviceRead} {rs : List DeviceRead} (hr : l.reads = r :: rs) (hl : l.loads = [])
    (hp : l.pend = []) : ¬l.Exact q := by
  intro h
  have hreads := h.reads
  rw [hr, hl, hp] at hreads
  exact absurd hreads (List.cons_ne_nil _ _)

/-- The tick loses no load that has read, nothing reads out of order or finds its data elsewhere, and what retires
is what the log has of it. -/
structure Served (l : DeviceLog) (t : DeviceTick) : Prop where
  named : t.live.Nodup
  left : t.left.Sublist t.buffer
  retired : ∀ x ∈ l.pend, x.1 ∈ t.popped.map (·.tag) → x.1 ∈ t.retired.map (·.tag)
  loads : t.retired.flatMap l.loadsOf = ((t.retired.map (·.tag)).filterMap (Ledger.recordOf l.pend)).map some
  ordered : Ledger.Along t.buffer (l.held t)
  kept : ∀ x ∈ l.held t, x.1 ∈ t.left
  bus : ∀ a ∈ t.passed, a.bus = true

/-- **One tick** keeps the log exact. -/
theorem after_exact (h : l.Exact t.live) (hs : l.Served t) : (l.after t).Exact t.left := by
  have halong : Ledger.Along (t.popped.map (·.tag) ++ t.buffer) l.pend := h.along
  obtain ⟨hserve, -⟩ := halong.serve hs.named t.retired_sublist hs.retired
  have hall : (l.held t).filter (fun x => x.1 ∈ t.left) = l.held t :=
    List.filter_eq_self.mpr fun x hx => decide_eq_true (hs.kept x hx)
  have hbus : busReads t.passed = t.notes.map Prod.snd := by
    unfold busReads DeviceTick.notes
    rw [List.filter_eq_self.mpr hs.bus, List.map_map]
    rfl
  have hsome : ∀ xs : List (RobTag × DeviceRead), (xs.map fun x => some x.2) = (xs.map Prod.snd).map some := by
    intro xs
    rw [List.map_map]
    rfl
  constructor
  · show (l.reads ++ busReads t.passed).map some = l.loads ++ t.retired.flatMap l.loadsOf ++
      ((l.held t).filter fun x => x.1 ∈ t.left).map fun x => some x.2
    rw [hall, List.map_append, h.reads, hs.loads, hsome, hsome, hserve, hbus, held, List.map_append, List.map_append,
      List.map_append]
    simp only [List.append_assoc]
  · show Ledger.Along t.left ((l.held t).filter fun x => x.1 ∈ t.left)
    rw [hall]
    have hbuffer : t.buffer.Nodup := (List.nodup_append.mp hs.named).2.1
    exact hs.ordered.narrow hbuffer hs.left hs.kept

end DeviceLog

end Rvsim
