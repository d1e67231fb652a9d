/-
# Routing on the bus

`soc/interconnect.rs`: which device an address belongs to. `find_device` looks
in four places: the HTIF range, which may lie inside the RAM, the device of the
last access, the RAM, and the devices in order of their bases. What it answers
is to be the answer of one scan of the ranges with the HTIF first. A range ends
at its base plus its size, computed in 64 bits.

Of a device the name and the range are kept; the eight kinds of device have both
for good once they are built.

Key definitions:
  - `Device`, `Bus`, `Bus.findDevice`, `Bus.isValidAddress`, `scan`
Key theorems:
  - `Bus.Built.find_eq_scan`, `Bus.isValidAddress_eq`, `Bus.routing_right`, `Bus.routing_lost`
-/
import Mathlib.Data.List.Pairwise
import Mathlib.Data.List.Sort
import Rvsim.Arch

namespace Rvsim

/-- The name and the `address_range` of a device. -/
structure Device where
  name : String
  start : U64
  size : U64
  deriving DecidableEq, Repr

namespace Device

/-- The test of every lookup. -/
def inRange (d : Device) (raw : U64) : Bool := d.start ≤ raw && raw < d.start + d.size

def isHtif (d : Device) : Bool := d.name == "HTIF"

/-- The address is one of the `size` addresses from `start` on. -/
def Covers (d : Device) (raw : U64) : Prop := d.start.toNat ≤ raw.toNat ∧ raw.toNat < d.start.toNat + d.size.toNat

instance (d : Device) (raw : U64) : Decidable (d.Covers raw) := inferInstanceAs (Decidable (_ ∧ _))

/-- No address is in both ranges. -/
def Apart (d d' : Device) : Prop := ∀ raw, ¬ (d.Covers raw ∧ d'.Covers raw)

instance : Std.Symm Apart := ⟨fun _ _ h raw hboth => h raw ⟨hboth.2, hboth.1⟩⟩

/-- The last address of the range is an address, and so is the one after it. -/
def Ends (d : Device) : Prop := d.size = 0 ∨ d.start.toNat + d.size.toNat < 2 ^ 64

instance (d : Device) : Decidable d.Ends := inferInstanceAs (Decidable (_ ∨ _))

end Device

/-- A scan of the ranges that prefers the HTIF. -/
def scan (devices : List Device) (raw : U64) : Option (Device × U64) :=
  ((devices.filter (·.isHtif) ++ devices.filter (!·.isHtif)).find? fun d => d.Covers raw).map fun d =>
      (d, raw - d.start)

/-- At most one device is the HTIF, and no two others have an address in common. -/
structure NonOverlapping (devices : List Device) : Prop where
  htif : (devices.filter (·.isHtif)).length ≤ 1
  others : (devices.filter (!·.isHtif)).Pairwise Device.Apart

structure Bus where
  devices : List Device
  lastDeviceIdx : Nat
  ramIdx : Option Nat
  uartIdx : Option Nat
  htifIdx : Option Nat
  clintIdx : Option Nat
  deriving DecidableEq, Repr

inductive BusOp where
  | addDevice (dev : Device)
  | access (paddr : U64)
  deriving DecidableEq, Repr

namespace Bus

def new : Bus := ⟨[], 0, none, none, none, none⟩

/-- The first device of that name. -/
def position (devices : List Device) (name : String) : Option Nat := devices.findIdx? (·.name == name)

def addDevice (b : Bus) (dev : Device) : Bus :=
  let devices := (b.devices ++ [dev]).insertionSort fun d d' => d.start ≤ d'.start
  { devices := devices
    lastDeviceIdx := 0
    ramIdx := position devices "DRAM"
    uartIdx := position devices "UART0"
    htifIdx := position devices "HTIF"
    clintIdx := position devices "CLINT" }

/-- The device of an index, if the address is in its range, with the offset. -/
def claims (b : Bus) (raw : U64) (idx : Nat) : Option (Nat × U64) :=
  match b.devices[idx]? with
  | some dev => if dev.inRange raw then some (idx, raw - dev.start) else none
  | none => none

def findDevice (b : Bus) (raw : U64) : Option (Nat × U64) × Bus :=
  -- the HTIF is inside the RAM range, so it comes before the shortcuts
  match b.htifIdx.bind (b.claims raw) with
  | some (idx, offset) => (some (idx, offset), { b with lastDeviceIdx := idx })
  | none =>
    match b.claims raw b.lastDeviceIdx with
    | some found => (some found, b)
    | none =>
      match b.ramIdx.bind (b.claims raw) with
      | some (idx, offset) => (some (idx, offset), { b with lastDeviceIdx := idx })
      | none =>
        match (List.range b.devices.length).findSome? (b.claims raw) with
        | some (idx, offset) => (some (idx, offset), { b with lastDeviceIdx := idx })
        | none => (none, b)

def isValidAddress (b : Bus) (raw : U64) : Bool :=
  (b.ramIdx.bind (b.claims raw)).isSome || b.devices.any (·.inRange raw)

/-- The device that an access goes to, with the offset in it. -/
def route (b : Bus) (raw : U64) : Option (Device × U64) :=
  (b.findDevice raw).1.bind fun found => b.devices[found.1]?.map fun dev => (dev, found.2)

def step (b : Bus) : BusOp → Bus
  | .addDevice dev => b.addDevice dev
  | .access paddr => (b.findDevice paddr).2

def run (ops : List BusOp) : Bus := ops.foldl step new

/-- The devices that a sequence adds. -/
def added (ops : List BusOp) : List Device :=
  ops.filterMap fun op =>
    match op with
    | .addDevice dev => some dev
    | .access _ => none

end Bus

/-! ### Ranges -/

/-- The last address there is. -/
def lastAddress : U64 := BitVec.allOnes 64

namespace Device

variable {d : Device} {raw : U64}

/-- A range that does not run over the end is the range of the test. -/
theorem inRange_iff (h : d.Ends) : d.inRange raw = true ↔ d.Covers raw := by
  unfold inRange Covers
  rw [Bool.and_eq_true, decide_eq_true_iff, decide_eq_true_iff, BitVec.le_def, BitVec.lt_def, BitVec.toNat_add]
  rcases h with hzero | hlt
  · have hsize : d.size.toNat = 0 := by rw [hzero]; rfl
    rw [hsize, Nat.add_zero, Nat.mod_eq_of_lt d.start.isLt]
  · rw [Nat.mod_eq_of_lt hlt]

/-- No test accepts the last address. -/
theorem not_inRange_last (d : Device) : d.inRange lastAddress = false := by
  unfold inRange
  rw [Bool.and_eq_false_iff]
  refine .inr (decide_eq_false ?_)
  rw [BitVec.lt_def]
  have hlast : lastAddress.toNat = 2 ^ 64 - 1 := rfl
  have hend := (d.start + d.size).isLt
  omega

/-- A range that runs over the end has the last address in it. -/
theorem covers_last (h : ¬ d.Ends) : d.Covers lastAddress := by
  unfold Ends at h
  have hlast : lastAddress.toNat = 2 ^ 64 - 1 := rfl
  have hstart := d.start.isLt
  unfold Covers
  omega

end Device

/-! ### The scan -/

section Scan

variable {devices : List Device} {d : Device} {raw : U64}

theorem mem_split : d ∈ devices.filter (·.isHtif) ++ devices.filter (!·.isHtif) ↔ d ∈ devices := by
  rw [List.mem_append, List.mem_filter, List.mem_filter]
  cases d.isHtif <;> simp

theorem scan_none (h : ∀ d ∈ devices, ¬ d.Covers raw) : scan devices raw = none := by
  unfold scan
  rw [Option.map_eq_none_iff, List.find?_eq_none]
  exact fun d hd => by simpa using h d (mem_split.mp hd)

theorem scan_isSome (hd : d ∈ devices) (hc : d.Covers raw) : (scan devices raw).isSome = true := by
  unfold scan
  rw [Option.isSome_map, List.find?_isSome]
  exact ⟨d, mem_split.mpr hd, decide_eq_true hc⟩

theorem NonOverlapping.htif_eq (h : NonOverlapping devices) (hd : d ∈ devices.filter (·.isHtif)) :
    devices.filter (·.isHtif) = [d] := by
  obtain ⟨x, hx⟩ := List.length_eq_one_iff.mp (Nat.le_antisymm h.htif (List.length_pos_iff_exists_mem.mpr ⟨d, hd⟩))
  rw [hx, List.mem_singleton] at hd
  rw [hx, hd]

/-- **A device that covers the address is the one the scan finds**, if it is the HTIF
or the HTIF does not cover it. -/
theorem scan_eq (h : NonOverlapping devices) (hd : d ∈ devices) (hc : d.Covers raw)
    (hfirst : d.isHtif = true ∨ ∀ d' ∈ devices, d'.isHtif = true → ¬ d'.Covers raw) :
    scan devices raw = some (d, raw - d.start) := by
  have hfind : (devices.filter (·.isHtif) ++ devices.filter (!·.isHtif)).find? (fun d => d.Covers raw) = some d := by
    cases hh : d.isHtif with
    | true =>
      have hmem : d ∈ devices.filter (·.isHtif) := List.mem_filter.mpr ⟨hd, hh⟩
      have hsingle := h.htif_eq hmem
      rw [hsingle, List.singleton_append]
      exact List.find?_cons_of_pos (p := fun d : Device => decide (d.Covers raw)) (decide_eq_true hc)
    | false =>
      have hnone : (devices.filter (·.isHtif)).find? (fun d => d.Covers raw) = none := by
        refine List.find?_eq_none.mpr fun d' hd' => ?_
        obtain ⟨hmem, hhtif⟩ := List.mem_filter.mp hd'
        have hno := (hfirst.resolve_left (by simp [hh])) d' hmem hhtif
        simpa using hno
      have hmem : d ∈ devices.filter (!·.isHtif) := List.mem_filter.mpr ⟨hd, by simp [hh]⟩
      rw [List.find?_append, hnone, Option.none_or]
      cases hf : (devices.filter (!·.isHtif)).find? (fun d => d.Covers raw) with
      | none => exact absurd (decide_eq_true hc) (List.find?_eq_none.mp hf d hmem)
      | some x =>
        have hx := of_decide_eq_true (List.find?_some (p := fun d : Device => decide (d.Covers raw)) hf)
        by_contra hne
        have hdiff : x ≠ d := fun heq => hne (congrArg some heq)
        exact h.others.forall (List.mem_of_find?_eq_some hf) hmem hdiff raw ⟨hx, hc⟩
  unfold scan
  rw [hfind, Option.map_some]

end Scan

/-! ### The four lookups -/

namespace Bus

variable {b : Bus} {devices : List Device} {raw : U64} {idx : Nat} {found : Nat × U64}

/-- The bus has these devices, and knows where the RAM and the HTIF are. -/
structure Built (b : Bus) (devices : List Device) : Prop where
  perm : b.devices.Perm devices
  ramIdx : b.ramIdx = position b.devices "DRAM"
  htifIdx : b.htifIdx = position b.devices "HTIF"

theorem built_new : new.Built [] := ⟨.refl _, rfl, rfl⟩

theorem Built.addDevice (h : b.Built devices) (dev : Device) : (b.addDevice dev).Built (devices ++ [dev]) :=
  ⟨(List.perm_insertionSort _ _).trans (h.perm.append_right [dev]), rfl, rfl⟩

theorem claims_eq_some (h : b.claims raw idx = some found) :
    ∃ dev, b.devices[idx]? = some dev ∧ dev.inRange raw = true ∧ found = (idx, raw - dev.start) := by
  unfold claims at h
  split at h
  next dev hdev =>
    by_cases hr : dev.inRange raw = true
    · rw [if_pos hr] at h
      exact ⟨dev, hdev, hr, (Option.some.inj h).symm⟩
    · rw [if_neg hr] at h
      cases h
  next => cases h

theorem claims_eq_none {dev : Device} (h : b.claims raw idx = none) (hdev : b.devices[idx]? = some dev) :
    dev.inRange raw = false := by
  unfold claims at h
  rw [hdev] at h
  by_contra hr
  rw [Bool.not_eq_false] at hr
  simp [hr] at h

/-- An answer names a device in range, the HTIF where that is one; without an answer no device is. -/
structure Answers (b : Bus) (raw : U64) (answer : Option (Nat × U64)) : Prop where
  some : ∀ found, answer = some found → b.claims raw found.1 = some found ∧
    (b.htifIdx = some found.1 ∨ b.htifIdx.bind (b.claims raw) = none)
  none : answer = none → ∀ dev ∈ b.devices, dev.inRange raw = false

theorem bind_claims {o : Option Nat} (h : o.bind (b.claims raw) = some found) :
    o = some found.1 ∧ b.claims raw found.1 = some found := by
  obtain ⟨idx, ho, hc⟩ := Option.bind_eq_some_iff.mp h
  obtain ⟨dev, hdev, hr, rfl⟩ := claims_eq_some hc
  exact ⟨ho, hc⟩

/-- **Whatever device was last used, the answer is right.** -/
theorem findDevice_answers (b : Bus) (raw : U64) : b.Answers raw (b.findDevice raw).1 := by
  unfold findDevice
  cases hh : b.htifIdx.bind (b.claims raw) with
  | some found =>
    obtain ⟨hidx, hc⟩ := bind_claims hh
    refine ⟨fun f hf => ?_, fun hf => by cases hf⟩
    cases hf
    exact ⟨hc, .inl hidx⟩
  | none =>
    cases hl : b.claims raw b.lastDeviceIdx with
    | some found =>
      obtain ⟨dev, hdev, hr, rfl⟩ := claims_eq_some hl
      refine ⟨fun f hf => ?_, fun hf => by cases hf⟩
      cases hf
      exact ⟨hl, .inr hh⟩
    | none =>
      cases hr : b.ramIdx.bind (b.claims raw) with
      | some found =>
        obtain ⟨-, hc⟩ := bind_claims hr
        refine ⟨fun f hf => ?_, fun hf => by cases hf⟩
        cases hf
        exact ⟨hc, .inr hh⟩
      | none =>
        cases hs : (List.range b.devices.length).findSome? (b.claims raw) with
        | some found =>
          obtain ⟨idx, -, hc⟩ := List.exists_of_findSome?_eq_some hs
          obtain ⟨dev, hdev, hr, rfl⟩ := claims_eq_some hc
          refine ⟨fun f hf => ?_, fun hf => by cases hf⟩
          cases hf
          exact ⟨hc, .inr hh⟩
        | none =>
          refine ⟨fun f hf => (by cases hf), fun _ dev hdev => ?_⟩
          obtain ⟨i, hi, hget⟩ := List.mem_iff_getElem.mp hdev
          have hclaim := List.findSome?_eq_none_iff.mp hs i (List.mem_range.mpr hi)
          exact claims_eq_none hclaim ((List.getElem?_eq_getElem hi).trans (congrArg _ hget))

/-- An address is valid just when some device is found. -/
theorem isValidAddress_eq (b : Bus) (raw : U64) : b.isValidAddress raw = (b.findDevice raw).1.isSome := by
  have hanswer := findDevice_answers b raw
  have hany : (b.findDevice raw).1.isSome = b.devices.any (·.inRange raw) := by
    cases hf : (b.findDevice raw).1 with
    | none =>
      rw [Option.isSome_none, eq_comm, List.any_eq_false]
      exact fun dev hdev => by simpa using hanswer.none hf dev hdev
    | some found =>
      obtain ⟨dev, hdev, hr, -⟩ := claims_eq_some (hanswer.some found hf).1
      rw [Option.isSome_some, eq_comm, List.any_eq_true]
      exact ⟨dev, List.mem_of_getElem? hdev, hr⟩
  rw [hany]
  unfold isValidAddress
  cases hram : b.ramIdx.bind (b.claims raw) with
  | none => rfl
  | some found =>
    obtain ⟨dev, hdev, hr, -⟩ := claims_eq_some (bind_claims hram).2
    rw [Option.isSome_some, Bool.true_or, eq_comm, List.any_eq_true]
    exact ⟨dev, List.mem_of_getElem? hdev, hr⟩

theorem position_isHtif {dev : Device} (h : position devices "HTIF" = some idx) (hdev : devices[idx]? = some dev) :
    dev.isHtif = true := by
  obtain ⟨hlt, hname, -⟩ := List.findIdx?_eq_some_iff_getElem.mp h
  rw [List.getElem?_eq_getElem hlt] at hdev
  rw [← Option.some.inj hdev]
  exact hname

/-- **Every lookup is the scan**, where no range runs over the end. -/
theorem Built.find_eq_scan (hb : b.Built devices) (h : NonOverlapping devices)
    (hends : ∀ d ∈ devices, d.Ends) (raw : U64) :
    b.route raw = scan devices raw := by
  have hanswer := findDevice_answers b raw
  have hin : ∀ d ∈ b.devices, d ∈ devices := fun d hd => hb.perm.mem_iff.mp hd
  unfold route
  cases hf : (b.findDevice raw).1 with
  | none =>
    refine (scan_none fun d hd hc => ?_).symm
    have hno := hanswer.none hf d (hb.perm.mem_iff.mpr hd)
    rw [(Device.inRange_iff (hends d hd)).mpr hc] at hno
    cases hno
  | some found =>
    obtain ⟨hclaim, hfirst⟩ := hanswer.some found hf
    obtain ⟨dev, hdev, hr, hfound⟩ := claims_eq_some hclaim
    have hmem := hin dev (List.mem_of_getElem? hdev)
    have hroute : (some found).bind (fun found => b.devices[found.1]?.map fun dev => (dev, found.2)) =
        some (dev, raw - dev.start) := by
      rw [Option.bind_some, hdev, Option.map_some, hfound]
    rw [hroute]
    refine (scan_eq h hmem ((Device.inRange_iff (hends dev hmem)).mp hr) ?_).symm
    rw [hb.htifIdx] at hfirst
    rcases hfirst with hidx | hnone
    · exact .inl (position_isHtif hidx hdev)
    · refine .inr fun d' hd' hhtif hc => ?_
      obtain ⟨i, hi, hget⟩ := List.mem_iff_getElem.mp (hb.perm.mem_iff.mpr hd')
      cases hpos : position b.devices "HTIF" with
      | none =>
        have hname := List.findIdx?_eq_none_iff.mp hpos d' (hb.perm.mem_iff.mpr hd')
        exact absurd hhtif (by simpa [Device.isHtif] using hname)
      | some j =>
        rw [hpos, Option.bind_some] at hnone
        obtain ⟨hj, hjname, -⟩ := List.findIdx?_eq_some_iff_getElem.mp hpos
        -- the HTIF is the only one of its name
        have hjmem : b.devices[j] ∈ devices := hin _ (List.getElem_mem hj)
        have heq : b.devices[j] = d' := by
          have hmem' := h.htif_eq (List.mem_filter.mpr ⟨hjmem, hjname⟩)
          have hd'' : d' ∈ devices.filter (·.isHtif) := List.mem_filter.mpr ⟨hd', hhtif⟩
          rw [hmem', List.mem_singleton] at hd''
          exact hd''.symm
        have hno := claims_eq_none hnone (List.getElem?_eq_getElem hj)
        rw [heq, (Device.inRange_iff (hends d' hd')).mpr hc] at hno
        cases hno

/-! ### Runs -/

/-- An access moves the index of the last device, and nothing else. -/
theorem findDevice_snd (b : Bus) (raw : U64) : ∃ idx, (b.findDevice raw).2 = { b with lastDeviceIdx := idx } := by
  unfold findDevice
  split
  · exact ⟨_, rfl⟩
  · split
    · exact ⟨_, rfl⟩
    · split
      · exact ⟨_, rfl⟩
      · split
        · exact ⟨_, rfl⟩
        · exact ⟨_, rfl⟩

theorem Built.withLast (h : b.Built devices) (idx : Nat) : ({ b with lastDeviceIdx := idx } : Bus).Built devices :=
  ⟨h.perm, h.ramIdx, h.htifIdx⟩

theorem run_built (ops : List BusOp) : (run ops).Built (added ops) := by
  induction ops using List.reverseRecOn with
  | nil => exact built_new
  | append_singleton ops op ih =>
    have hrun : run (ops ++ [op]) = (run ops).step op := by
      unfold run
      rw [List.foldl_append]
      rfl
    have hadded : added (ops ++ [op]) = added ops ++ added [op] := List.filterMap_append
    rw [hrun, hadded]
    cases op with
    | addDevice dev => exact ih.addDevice dev
    | access paddr =>
      obtain ⟨idx, hidx⟩ := findDevice_snd (run ops) paddr
      show ((run ops).findDevice paddr).2.Built (added ops ++ [])
      rw [hidx, List.append_nil]
      exact ih.withLast idx

/-- No lookup finds a device for the last address. -/
theorem route_last (b : Bus) : b.route lastAddress = none := by
  have hanswer := findDevice_answers b lastAddress
  unfold route
  cases hf : (b.findDevice lastAddress).1 with
  | none => rfl
  | some found =>
    obtain ⟨dev, -, hr, -⟩ := claims_eq_some (hanswer.some found hf).1
    rw [Device.not_inRange_last] at hr
    cases hr

theorem added_addDevice (devices : List Device) : added (devices.map .addDevice) = devices := by
  unfold added
  rw [List.filterMap_map]
  exact List.filterMap_some

/-- **The four lookups are one scan, whatever was accessed before and whatever the
index of the last device holds, just when no range runs over the end of the
addresses.** -/
theorem routing_right (devices : List Device) (h : NonOverlapping devices) :
    (∀ ops, added ops = devices → ∀ last raw,
      let b : Bus := { run ops with lastDeviceIdx := last }
      b.route raw = scan devices raw ∧ b.isValidAddress raw = (b.findDevice raw).1.isSome) ↔
    ∀ d ∈ devices, d.Ends := by
  constructor
  · intro hall d hd
    by_contra hends
    have hroute := (hall _ (added_addDevice devices) 0 lastAddress).1
    rw [route_last] at hroute
    have hsome := scan_isSome hd (Device.covers_last hends)
    rw [← hroute] at hsome
    cases hsome
  · intro hends ops hops last raw
    have hbuilt : (run ops).Built devices := hops ▸ run_built ops
    exact ⟨(hbuilt.withLast last).find_eq_scan h hends raw, isValidAddress_eq _ raw⟩

/-- RAM with the HTIF inside it. -/
def ramHtif : List Device := [⟨"DRAM", 0x80000000, 0x10000000⟩, ⟨"HTIF", 0x80001000, 16⟩]

theorem ramHtif_nonOverlapping : NonOverlapping ramHtif := ⟨by decide, List.pairwise_singleton _ _⟩

theorem routing_right_ramHtif :
    route { run (ramHtif.map .addDevice) with lastDeviceIdx := 1 } 0x80001008 = scan ramHtif 0x80001008 ∧
      isValidAddress { run (ramHtif.map .addDevice) with lastDeviceIdx := 1 } 0x80001008 =
        (findDevice { run (ramHtif.map .addDevice) with lastDeviceIdx := 1 } 0x80001008).1.isSome :=
  (routing_right ramHtif ramHtif_nonOverlapping).mpr (by decide) _ (added_addDevice ramHtif) 1 0x80001008

/-- A UART in the last 256 addresses. -/
def topUart : List Device := [⟨"UART0", 0xFFFFFFFFFFFFFF00, 0x100⟩]

/-- **The UART is not found** at its base. -/
theorem routing_lost : NonOverlapping topUart ∧
    (run (topUart.map .addDevice)).route 0xFFFFFFFFFFFFFF00 ≠ scan topUart 0xFFFFFFFFFFFFFF00 := by
  refine ⟨⟨by decide, List.pairwise_singleton _ _⟩, ?_⟩
  decide

end Bus

end Rvsim
