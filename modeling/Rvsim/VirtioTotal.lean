/-
# When the queue's processing ends

What stops `VirtioBlock.Strict.processQueue`, access by access, and that where
nothing does it computes what the functions over plain numbers say.

Key definitions:
  - `VirtioBlock.EntrySafe`, `VirtioBlock.QueueSafe`
Key theorems:
  - `VirtioBlock.Strict.descriptors_ok_iff`, `VirtioBlock.Strict.request_ok_iff`
  - `VirtioBlock.Strict.processQueue_eq`, `VirtioBlock.returns_iff`
-/
import Rvsim.Virtio
import Rvsim.Lib.Walks

namespace Rvsim

namespace VirtioBlock

/-! ### What the steps keep -/

/-- The size of the queue and of the buffers, and the place in the ring. -/
structure Keeps (v v' : VirtioBlock) : Prop where
  queueNum : v'.queueNum = v.queueNum
  ramSize : v'.ram.size = v.ram.size
  diskSize : v'.diskImage.size = v.diskImage.size
  lastAvailIdx : v'.lastAvailIdx = v.lastAvailIdx

namespace Keeps

variable {v v' v'' : VirtioBlock}

theorem refl (v : VirtioBlock) : Keeps v v := ⟨rfl, rfl, rfl, rfl⟩

theorem trans (h : Keeps v v') (h' : Keeps v' v'') : Keeps v v'' :=
  ⟨h'.queueNum.trans h.queueNum, h'.ramSize.trans h.ramSize, h'.diskSize.trans h.diskSize,
    h'.lastAvailIdx.trans h.lastAvailIdx⟩

theorem allocated (h : Keeps v v') (ha : v.Allocated) : v'.Allocated :=
  ⟨by rw [h.ramSize]; exact ha.ram, by rw [h.diskSize]; exact ha.disk⟩

theorem dmaWrite (v : VirtioBlock) (addr : U64) (data : List U8) : Keeps v (v.dmaWrite addr data) := by
  unfold VirtioBlock.dmaWrite
  dsimp only
  split_ifs
  · exact refl v
  · exact refl v
  · exact ⟨rfl, rfl, rfl, rfl⟩

theorem writeData (v : VirtioBlock) (offset : Nat) (ds : List VirtioDesc) : Keeps v (v.writeData offset ds).2 := by
  obtain ⟨disk, heq, hsize, -⟩ := writeData_spec ds v offset
  rw [heq]
  exact ⟨rfl, rfl, hsize, rfl⟩

theorem readData (v : VirtioBlock) (offset : Nat) (ds : List VirtioDesc) : Keeps v (v.readData offset ds).2 := by
  induction ds generalizing v offset with
  | nil => exact refl v
  | cons d ds ih =>
    unfold VirtioBlock.readData
    split
    · exact (dmaWrite v _ _).trans (ih _ _)
    · exact ih _ _

theorem transfer (v : VirtioBlock) (h : VirtioDesc) (data : List VirtioDesc) : Keeps v (v.transfer h data).2 := by
  unfold VirtioBlock.transfer
  dsimp only
  split_ifs
  · exact refl v
  · exact writeData _ _ _
  · exact readData _ _ _

theorem request (v : VirtioBlock) (ds : List VirtioDesc) : Keeps v (v.request ds).2 := by
  unfold VirtioBlock.request
  split
  · exact (transfer v _ _).trans (dmaWrite _ _ _)
  · exact refl v

theorem publish (v : VirtioBlock) (head : U16) (len : U32) : Keeps v (v.publish head len) :=
  ((dmaWrite _ _ _).trans (dmaWrite _ _ _)).trans (dmaWrite _ _ _)

end Keeps

/-! ### One access -/

namespace Strict

variable {v v' : VirtioBlock}

/-- **A DMA read always gives a result.** -/
theorem dmaRead_ok (h : v.Allocated) (addr : U64) {len : Nat} (hlen : len < 2 ^ 32) :
    dmaRead v addr len = .ok (v.dmaRead addr len) := by
  have hsize := h.ram
  unfold dmaRead VirtioBlock.dmaRead
  by_cases hlow : addr < v.ramBase
  · rw [if_pos hlow, if_pos hlow]
  · rw [if_neg hlow, if_neg hlow]
    dsimp only
    generalize (addr - v.ramBase).toNat = offset
    by_cases hout : offset ≥ v.ram.size
    · rw [if_pos hout, if_pos (.inl hout)]
    · rw [if_neg hout, Checked.addNat_ok (by omega), Checked.ok_bind]
      by_cases hend : offset + len > v.ram.size
      · rw [if_pos hend, if_pos (.inr hend)]
      · rw [if_neg hend, if_neg (by omega), Checked.slice_ok ⟨by omega, by omega⟩]
        rfl

theorem dmaWrite_ok (h : v.Allocated) (addr : U64) {data : List U8} (hlen : data.length < 2 ^ 63) :
    dmaWrite v addr data = .ok (v.dmaWrite addr data) := by
  have hsize := h.ram
  unfold dmaWrite VirtioBlock.dmaWrite
  by_cases hlow : addr < v.ramBase
  · rw [if_pos hlow, if_pos hlow]
  · rw [if_neg hlow, if_neg hlow]
    dsimp only
    generalize (addr - v.ramBase).toNat = offset
    by_cases hout : offset ≥ v.ram.size
    · rw [if_pos hout, if_pos (.inl hout)]
    · rw [if_neg hout, Checked.addNat_ok (by omega), Checked.ok_bind]
      by_cases hend : offset + data.length > v.ram.size
      · rw [if_pos hend, if_pos (.inr hend)]
      · rw [if_neg hend, if_neg (by omega), Checked.slice_ok ⟨by omega, by omega⟩]
        rfl

theorem dmaReadU16_ok (h : v.Allocated) (addr : U64) : dmaReadU16 v addr = .ok (v.dmaReadU16 addr) := by
  rw [dmaReadU16, dmaRead_ok h addr (by decide)]
  rfl

theorem dmaReadU32_ok (h : v.Allocated) (addr : U64) : dmaReadU32 v addr = .ok (v.dmaReadU32 addr) := by
  rw [dmaReadU32, dmaRead_ok h addr (by decide)]
  rfl

theorem dmaReadU64_ok (h : v.Allocated) (addr : U64) : dmaReadU64 v addr = .ok (v.dmaReadU64 addr) := by
  rw [dmaReadU64, dmaRead_ok h addr (by decide)]
  rfl

end Strict

/-! ### A chain -/

/-- The sums for a descriptor's four fields stay below 2^64. -/
def DescFits (v : VirtioBlock) (idx : U16) : Prop := v.descAddr.toNat + idx.toNat * 16 + 14 < 2 ^ 64

/-- The descriptor that a chain goes on to. -/
def follow (v : VirtioBlock) (idx : U16) : Option U16 :=
  let d := v.readDesc idx
  if d.flags &&& vringDescFNext = 0 then none else if d.next.toNat ≥ v.queueNum.toNat then none else some d.next

theorem follow_lt {v : VirtioBlock} {i j : U16} (h : v.follow i = some j) : j.toNat < v.queueNum.toNat := by
  unfold follow at h
  dsimp only at h
  split_ifs at h with hflag hnext
  rw [← Option.some.inj h]
  omega

theorem after_lt {v : VirtioBlock} {head i : U16} (hhead : head.toNat < v.queueNum.toNat) {n : Nat}
    (h : Walks.after v.follow n head = some i) : i.toNat < v.queueNum.toNat := by
  cases n with
  | zero =>
    obtain rfl : head = i := Option.some.inj h
    exact hhead
  | succ n =>
    rw [Walks.after_add n 1] at h
    obtain ⟨j, -, hj⟩ := Option.bind_eq_some_iff.mp h
    obtain ⟨k, hk, hk'⟩ := Option.bind_eq_some_iff.mp hj
    obtain rfl : k = i := Option.some.inj hk'
    exact follow_lt hk

/-- The descriptors of a chain are those of a walk along the links. -/
theorem descriptors_eq_walk (v : VirtioBlock) (n : Nat) {idx : U16} (h : idx.toNat < v.queueNum.toNat) :
    v.descriptors n idx = (Walks.walk v.follow n idx).map (·.map v.readDesc) := by
  induction n generalizing idx with
  | zero =>
    rw [descriptors, if_neg (by omega)]
    rfl
  | succ n ih =>
    have hfollow : v.follow idx = if (v.readDesc idx).flags &&& vringDescFNext = 0 then none
        else if (v.readDesc idx).next.toNat ≥ v.queueNum.toNat then none else some (v.readDesc idx).next := rfl
    rw [descriptors, if_neg (by omega), Walks.walk, hfollow]
    dsimp only
    by_cases hflag : (v.readDesc idx).flags &&& vringDescFNext = 0
    · rw [if_pos hflag, if_pos hflag]
      rfl
    · rw [if_neg hflag, if_neg hflag]
      by_cases hnext : (v.readDesc idx).next.toNat ≥ v.queueNum.toNat
      · rw [if_pos hnext]
        cases n with
        | zero => rw [descriptors, if_pos hnext]; rfl
        | succ n => rw [descriptors, if_pos hnext]; rfl
      · rw [if_neg hnext, ih (by omega)]
        simp [Option.map_map, Function.comp_def]

namespace Strict

variable {v v' : VirtioBlock}

theorem readDesc_ok_iff (h : v.Allocated) (idx : U16) (d : VirtioDesc) :
    readDesc v idx = .ok d ↔ v.DescFits idx ∧ d = v.readDesc idx := by
  have hidx := idx.isLt
  have hoff : (BitVec.ofNat 64 (idx.toNat * descSize)).toNat = idx.toNat * 16 := by
    rw [BitVec.toNat_ofNat]
    exact Nat.mod_eq_of_lt (by unfold descSize; omega)
  unfold readDesc DescFits
  by_cases hbase : v.descAddr.toNat + idx.toNat * 16 < 2 ^ 64
  · have hsum : (v.descAddr + BitVec.ofNat 64 (idx.toNat * descSize)).toNat = v.descAddr.toNat + idx.toNat * 16 := by
      rw [BitVec.toNat_add, hoff, Nat.mod_eq_of_lt hbase]
    rw [Checked.add_ok (by rw [hoff]; exact hbase)]
    simp only [Checked.ok_bind, dmaReadU64_ok h, dmaReadU32_ok h, dmaReadU16_ok h, Checked.bind_eq_ok,
        Checked.add_eq_ok, hsum]
    constructor
    · rintro ⟨_, ⟨-, rfl⟩, _, ⟨-, rfl⟩, _, ⟨h14, rfl⟩, hd⟩
      exact ⟨h14, (Except.ok.inj hd).symm⟩
    · rintro ⟨h14, rfl⟩
      have h8 : v.descAddr.toNat + idx.toNat * 16 + (8 : U64).toNat < 2 ^ 64 :=
        lt_of_le_of_lt (Nat.add_le_add_left (by decide) _) h14
      have h12 : v.descAddr.toNat + idx.toNat * 16 + (12 : U64).toNat < 2 ^ 64 :=
        lt_of_le_of_lt (Nat.add_le_add_left (by decide) _) h14
      exact ⟨_, ⟨h8, rfl⟩, _, ⟨h12, rfl⟩, _, ⟨h14, rfl⟩, rfl⟩
  · have hno : Checked.add v.descAddr (BitVec.ofNat 64 (idx.toNat * descSize)) = .error .overflow :=
      if_neg (by rw [hoff]; exact hbase)
    rw [hno]
    constructor
    · intro hc
      cases hc
    · rintro ⟨hc, -⟩
      omega

/-- **A chain is read** when its walk ends and no descriptor on it lies beyond 2^64. -/
theorem descriptors_ok_iff (h : v.Allocated) (n : Nat) {idx : U16} (hidx : idx.toNat < v.queueNum.toNat)
    (ds : List VirtioDesc) :
    descriptors v n idx = .ok ds ↔
      ∃ l, Walks.walk v.follow n idx = some l ∧ ds = l.map v.readDesc ∧ ∀ i ∈ l, v.DescFits i := by
  induction n generalizing idx ds with
  | zero =>
    have hin : ¬ v.queueNum.toNat ≤ idx.toNat := by omega
    simp [descriptors, Walks.walk, hin]
  | succ n ih =>
    have hfollow : v.follow idx = if (v.readDesc idx).flags &&& vringDescFNext = 0 then none
        else if (v.readDesc idx).next.toNat ≥ v.queueNum.toNat then none else some (v.readDesc idx).next := rfl
    rw [descriptors, if_neg (by omega), Checked.bind_eq_ok, Walks.walk]
    simp only [readDesc_ok_iff h]
    by_cases hflag : (v.readDesc idx).flags &&& vringDescFNext = 0
    · rw [if_pos hflag] at hfollow
      rw [hfollow]
      constructor
      · rintro ⟨_, ⟨hfits, rfl⟩, hd⟩
        rw [if_pos hflag] at hd
        exact ⟨[idx], rfl, (Except.ok.inj hd).symm, by simpa using hfits⟩
      · rintro ⟨l, hl, rfl, hall⟩
        obtain rfl : [idx] = l := Option.some.inj hl
        exact ⟨_, ⟨hall idx (by simp), rfl⟩, by rw [if_pos hflag]; rfl⟩
    · rw [if_neg hflag] at hfollow
      by_cases hnext : (v.readDesc idx).next.toNat ≥ v.queueNum.toNat
      · have hstop : descriptors v n (v.readDesc idx).next = .ok [] := by
          cases n with
          | zero => rw [descriptors, if_pos hnext]
          | succ n => rw [descriptors, if_pos hnext]
        rw [if_pos hnext] at hfollow
        rw [hfollow]
        constructor
        · rintro ⟨_, ⟨hfits, rfl⟩, hd⟩
          rw [if_neg hflag, hstop] at hd
          exact ⟨[idx], rfl, (Except.ok.inj hd).symm, by simpa using hfits⟩
        · rintro ⟨l, hl, rfl, hall⟩
          obtain rfl : [idx] = l := Option.some.inj hl
          exact ⟨_, ⟨hall idx (by simp), rfl⟩, by rw [if_neg hflag, hstop]; rfl⟩
      · rw [if_neg hnext] at hfollow
        rw [hfollow]
        constructor
        · rintro ⟨_, ⟨hfits, rfl⟩, hd⟩
          rw [if_neg hflag, Checked.bind_eq_ok] at hd
          obtain ⟨ds', hds', hd⟩ := hd
          obtain ⟨l, hl, rfl, hall⟩ := (ih (by omega) ds').mp hds'
          exact ⟨idx :: l, by simp [hl], (Except.ok.inj hd).symm, by simpa using ⟨hfits, hall⟩⟩
        · rintro ⟨l, hl, rfl, hall⟩
          obtain ⟨l', hl', rfl⟩ := Option.map_eq_some_iff.mp hl
          refine ⟨_, ⟨hall idx (by simp), rfl⟩, ?_⟩
          rw [if_neg hflag, Checked.bind_eq_ok]
          exact ⟨_, (ih (by omega) _).mpr ⟨l', hl', rfl, fun i hi => hall i (List.mem_cons_of_mem _ hi)⟩, rfl⟩

end Strict

/-! ### A request -/

/-- For every buffer that the device may write, the place on the disk stays below 2^64. -/
def PlacesFit (sectorOffset : Nat) : Nat → List VirtioDesc → Prop
  | _, [] => True
  | cur, d :: ds => (d.flags &&& vringDescFWrite ≠ 0 → sectorOffset + cur < 2 ^ 64) ∧
      PlacesFit sectorOffset (cur + d.len.toNat) ds

/-- How many bytes of the disk go to a buffer, from a place. -/
def copyLen (diskSize pos : Nat) (d : VirtioDesc) : Nat :=
  if d.flags &&& vringDescFWrite ≠ 0 ∧ pos < diskSize then min d.len.toNat (diskSize - pos) else 0

/-- How many go to all the buffers. -/
def copied (diskSize pos : Nat) : List VirtioDesc → Nat
  | [] => 0
  | d :: ds => copyLen diskSize pos d + copied diskSize (pos + d.len.toNat) ds

/-- The offset of the sector fits 64 bits; a write's offsets fit 64 bits and its length 32; a read's places
on the disk fit 64 bits and what it copies 32. -/
def TransferFits (v : VirtioBlock) (h : VirtioDesc) (data : List VirtioDesc) : Prop :=
  let (typeVal, sector) := v.header h.addr
  sector.toNat * 512 < 2 ^ 64 ∧
    (typeVal = 1 → sector.toNat * 512 + total data < 2 ^ 64 ∧ total data < 2 ^ 32) ∧
    (typeVal ≠ 1 → typeVal ≠ 4 → PlacesFit (sector.toNat * 512) 0 data ∧ total data < 2 ^ 64 ∧
      copied v.diskImage.size (sector.toNat * 512) data < 2 ^ 32)

/-- A chain of fewer than three descriptors transfers nothing. -/
def RequestFits (v : VirtioBlock) : List VirtioDesc → Prop
  | h :: d :: s :: rest => v.TransferFits h (d :: (s :: rest).dropLast)
  | _ => True

namespace Strict

variable {v v' : VirtioBlock}

theorem length_dmaRead (v : VirtioBlock) (addr : U64) (len : Nat) : (v.dmaRead addr len).length = len := by
  unfold VirtioBlock.dmaRead
  dsimp only
  split_ifs
  all_goals simp

theorem writeOne_ok {offset : Nat} {data : List U8} (hend : offset + data.length < 2 ^ 64) :
    writeOne v offset data = .ok (if offset + data.length ≤ v.diskImage.size then
      { v with diskImage := v.diskImage.write offset data } else v) := by
  rw [writeOne, Checked.addNat_ok hend, Checked.ok_bind]
  split
  · next hin => rw [Checked.slice_ok ⟨Nat.le_add_right _ _, hin⟩]; rfl
  · rfl

/-- **A write** goes through when its offsets fit 64 bits and its length 32. -/
theorem writeData_ok_iff (h : v.Allocated) {offset : Nat} (hoff : offset < 2 ^ 64) (acc : U32) (ds : List VirtioDesc)
    (r : U32 × VirtioBlock) :
    writeData v offset acc ds = .ok r ↔
      (offset + total ds < 2 ^ 64 ∧ acc.toNat + total ds < 2 ^ 32) ∧
        r = (acc + (v.writeData offset ds).1, (v.writeData offset ds).2) := by
  induction ds generalizing v offset acc with
  | nil =>
    have hacc := acc.isLt
    have hzero : total [] = 0 := rfl
    have hres :
        (acc + (v.writeData offset []).1, (v.writeData offset []).2) = (acc, v) := by simp [VirtioBlock.writeData]
    rw [hres, hzero, writeData]
    constructor
    · exact fun hr => ⟨⟨hoff, hacc⟩, (Except.ok.inj hr).symm⟩
    · rintro ⟨-, rfl⟩
      rfl
  | cons d ds ih =>
    have hlen := d.len.isLt
    rw [writeData, dmaRead_ok h _ hlen, Checked.ok_bind, total_cons]
    by_cases hend : offset + d.len.toNat < 2 ^ 64
    · rw [writeOne_ok (by rw [length_dmaRead]; exact hend), Checked.ok_bind, Checked.addNat_ok hend, Checked.ok_bind,
        Checked.bind_eq_ok, VirtioBlock.writeData]
      dsimp only
      have hkeeps : Keeps v (if offset + (v.dmaRead d.addr d.len.toNat).length ≤ v.diskImage.size then
          { v with diskImage := v.diskImage.write offset (v.dmaRead d.addr d.len.toNat) } else v) := by
        split
        · exact ⟨rfl, rfl, rfl, rfl⟩
        · exact .refl v
      generalize (if offset + (v.dmaRead d.addr d.len.toNat).length ≤ v.diskImage.size then
          { v with diskImage := v.diskImage.write offset (v.dmaRead d.addr d.len.toNat) } else v) = v1 at hkeeps ⊢
      simp only [Checked.add_eq_ok]
      constructor
      · rintro ⟨_, ⟨hsum, rfl⟩, hr⟩
        obtain ⟨⟨h1, h2⟩, rfl⟩ := (ih (hkeeps.allocated h) hend _).mp hr
        rw [BitVec.toNat_add, Nat.mod_eq_of_lt hsum] at h2
        exact ⟨⟨by omega, by omega⟩, by rw [BitVec.add_assoc]⟩
      · rintro ⟨⟨h1, h2⟩, rfl⟩
        have hsum : acc.toNat + d.len.toNat < 2 ^ 32 := by omega
        refine ⟨_, ⟨hsum, rfl⟩, (ih (hkeeps.allocated h) hend _).mpr ⟨⟨by omega, ?_⟩, by rw [BitVec.add_assoc]⟩⟩
        rw [BitVec.toNat_add, Nat.mod_eq_of_lt hsum]
        omega
    · have hno : writeOne v offset (v.dmaRead d.addr d.len.toNat) = .error .overflow := by
        rw [writeOne, Checked.addNat, length_dmaRead, if_neg hend]
        rfl
      rw [hno]
      constructor
      · intro hc
        cases hc
      · rintro ⟨⟨hc, -⟩, -⟩
        omega

/-- The device after one buffer of a read. -/
def afterCopy (v : VirtioBlock) (pos : Nat) (d : VirtioDesc) : VirtioBlock :=
  if d.flags &&& vringDescFWrite ≠ 0 ∧ pos < v.diskImage.size then
    v.dmaWrite d.addr (v.diskImage.read pos (copyLen v.diskImage.size pos d))
  else v

theorem afterCopy_keeps (v : VirtioBlock) (pos : Nat) (d : VirtioDesc) : Keeps v (afterCopy v pos d) := by
  unfold afterCopy
  split
  · exact .dmaWrite _ _ _
  · exact .refl v

theorem readData_cons (v : VirtioBlock) (pos : Nat) (d : VirtioDesc) (ds : List VirtioDesc) :
    v.readData pos (d :: ds) =
      (BitVec.ofNat 32 (copyLen v.diskImage.size pos d) + ((afterCopy v pos d).readData (pos + d.len.toNat) ds).1,
        ((afterCopy v pos d).readData (pos + d.len.toNat) ds).2) := by
  rw [VirtioBlock.readData, copyLen, afterCopy, copyLen]
  split
  · rfl
  · simp

theorem readOne_ok_iff (h : v.Allocated) (sectorOffset cur : Nat) (acc : U32) (d : VirtioDesc) (r : U32 × VirtioBlock) :
    readOne v sectorOffset cur acc d = .ok r ↔
      ((d.flags &&& vringDescFWrite ≠ 0 → sectorOffset + cur < 2 ^ 64) ∧
        acc.toNat + copyLen v.diskImage.size (sectorOffset + cur) d < 2 ^ 32) ∧
        r = (acc + BitVec.ofNat 32 (copyLen v.diskImage.size (sectorOffset + cur) d),
          afterCopy v (sectorOffset + cur) d) := by
  have hlen := d.len.isLt
  have hacc := acc.isLt
  have hdisk := h.disk
  -- nothing is copied
  have hskip : (.ok (acc, v) : Checked _) = .ok r ↔ (True ∧ acc.toNat + 0 < 2 ^ 32) ∧
      r = (acc + BitVec.ofNat 32 0, v) := by
    constructor
    · exact fun hr => ⟨⟨trivial, hacc⟩, by simpa using (Except.ok.inj hr).symm⟩
    · rintro ⟨-, rfl⟩
      simp
  unfold readOne afterCopy
  by_cases hflag : d.flags &&& vringDescFWrite ≠ 0
  · rw [if_pos hflag]
    by_cases hsum : sectorOffset + cur < 2 ^ 64
    · rw [Checked.addNat_ok hsum, Checked.ok_bind]
      by_cases hin : sectorOffset + cur < v.diskImage.size
      · have hcopy : copyLen v.diskImage.size (sectorOffset + cur) d =
          min d.len.toNat (v.diskImage.size - (sectorOffset + cur)) :=
          if_pos ⟨hflag, hin⟩
        have hword : (BitVec.ofNat 32 (copyLen v.diskImage.size (sectorOffset + cur) d)).toNat =
            copyLen v.diskImage.size (sectorOffset + cur) d := by
          rw [BitVec.toNat_ofNat, Nat.mod_eq_of_lt (by omega)]
        rw [if_pos hin, if_pos ⟨hflag, hin⟩]
        dsimp only
        rw [← hcopy, Checked.addNat_ok (by omega), Checked.ok_bind, Checked.slice_ok ⟨by omega, by omega⟩,
            Checked.ok_bind,
          dmaWrite_ok h _ (by rw [Buffer.length_read]; omega), Checked.ok_bind, Checked.bind_eq_ok]
        simp only [Checked.add_eq_ok, hword]
        constructor
        · rintro ⟨_, ⟨hfit, rfl⟩, hr⟩
          exact ⟨⟨fun _ => hsum, hfit⟩, (Except.ok.inj hr).symm⟩
        · rintro ⟨⟨-, hfit⟩, rfl⟩
          exact ⟨_, ⟨hfit, rfl⟩, rfl⟩
      · have hcopy : copyLen v.diskImage.size (sectorOffset + cur) d = 0 := if_neg fun hc => hin hc.2
        rw [if_neg hin, if_neg fun hc => hin hc.2, hcopy, hskip]
        simp only [hflag, hsum, ne_eq, not_false_eq_true, forall_true_left]
    · have hno : Checked.addNat 64 sectorOffset cur = .error .overflow := if_neg hsum
      rw [hno]
      constructor
      · intro hc
        cases hc
      · rintro ⟨⟨hc, -⟩, -⟩
        exact absurd (hc hflag) hsum
  · have hcopy : copyLen v.diskImage.size (sectorOffset + cur) d = 0 := if_neg fun hc => hflag hc.1
    rw [if_neg hflag, if_neg fun hc => hflag hc.1, hcopy, hskip]
    simp only [hflag, forall_false]

/-- **A read** goes through when the places it computes and the sum of the lengths fit 64 bits and what it
copies fits 32. -/
theorem readData_ok_iff (h : v.Allocated) (sectorOffset : Nat) {cur : Nat} (hcur : cur < 2 ^ 64) (acc : U32)
    (ds : List VirtioDesc) (r : U32 × VirtioBlock) :
    readData v sectorOffset cur acc ds = .ok r ↔
      (PlacesFit sectorOffset cur ds ∧ cur + total ds < 2 ^ 64 ∧
        acc.toNat + copied v.diskImage.size (sectorOffset + cur) ds < 2 ^ 32) ∧
        r = (acc + (v.readData (sectorOffset + cur) ds).1, (v.readData (sectorOffset + cur) ds).2) := by
  induction ds generalizing v cur acc with
  | nil =>
    have hacc := acc.isLt
    have hzero : total [] = 0 := rfl
    have hres : (acc + (v.readData (sectorOffset + cur) []).1, (v.readData (sectorOffset + cur) []).2) = (acc, v) := by
      simp [VirtioBlock.readData]
    rw [hres, hzero, readData]
    constructor
    · exact fun hr => ⟨⟨trivial, hcur, hacc⟩, (Except.ok.inj hr).symm⟩
    · rintro ⟨-, rfl⟩
      rfl
  | cons d ds ih =>
    have hkeeps := afterCopy_keeps v (sectorOffset + cur) d
    rw [readData, Checked.bind_eq_ok, total_cons, PlacesFit, copied, readData_cons]
    simp only [readOne_ok_iff h, Checked.bind_eq_ok, Checked.addNat_eq_ok]
    constructor
    · rintro ⟨_, ⟨⟨hplace, hfit⟩, rfl⟩, _, ⟨hsum, rfl⟩, hr⟩
      obtain ⟨⟨h1, h2, h3⟩, rfl⟩ := (ih (hkeeps.allocated h) hsum _).mp hr
      rw [hkeeps.diskSize, BitVec.toNat_add, BitVec.toNat_ofNat, Nat.add_mod_mod, Nat.mod_eq_of_lt hfit] at h3
      rw [← Nat.add_assoc] at h3
      exact ⟨⟨⟨hplace, h1⟩, by omega, by omega⟩, by rw [BitVec.add_assoc, Nat.add_assoc]⟩
    · rintro ⟨⟨⟨hplace, h1⟩, h2, h3⟩, rfl⟩
      have hfit : acc.toNat + copyLen v.diskImage.size (sectorOffset + cur) d < 2 ^ 32 := by omega
      refine ⟨_, ⟨⟨hplace, hfit⟩, rfl⟩, _, ⟨by omega, rfl⟩, ?_⟩
      refine (ih (hkeeps.allocated h) (by omega) _).mpr ⟨⟨h1, by omega, ?_⟩, by rw [BitVec.add_assoc, Nat.add_assoc]⟩
      rw [hkeeps.diskSize, BitVec.toNat_add, BitVec.toNat_ofNat, Nat.add_mod_mod, Nat.mod_eq_of_lt hfit]
      rw [Nat.add_assoc sectorOffset] at h3
      omega

theorem transfer_ok_iff (h : v.Allocated) (hd : VirtioDesc) (data : List VirtioDesc) (r : U32 × VirtioBlock) :
    transfer v hd data = .ok r ↔ v.TransferFits hd data ∧ r = v.transfer hd data := by
  unfold transfer VirtioBlock.transfer TransferFits VirtioBlock.header
  rw [dmaRead_ok h _ (by decide), Checked.ok_bind]
  dsimp only
  generalize (BitVec.ofNat 32 (Buffer.leValue ((v.dmaRead hd.addr 16).take 4)) : U32) = typeVal
  generalize (BitVec.ofNat 64 (Buffer.leValue ((v.dmaRead hd.addr 16).drop 8)) : U64) = sector
  have hsector : sectorSize.toNat = 512 := rfl
  have hzero : (0 : U32).toNat = 0 := rfl
  have hadd (x : U32) : 0 + x = x := BitVec.zero_add x
  by_cases hoff : sector.toNat * 512 < 2 ^ 64
  · have hword : (sector * sectorSize).toNat = sector.toNat * 512 := by
      rw [BitVec.toNat_mul, hsector, Nat.mod_eq_of_lt hoff]
    rw [Checked.mulNat_ok hoff, Checked.ok_bind, hword]
    by_cases hflush : typeVal = 4
    · have hno : typeVal ≠ 1 := by rw [hflush]; decide
      rw [if_pos hflush, if_pos hflush]
      constructor
      · exact fun hr => ⟨⟨hoff, fun hc => absurd hc hno, fun _ hc => absurd hflush hc⟩, (Except.ok.inj hr).symm⟩
      · rintro ⟨-, rfl⟩
        rfl
    · rw [if_neg hflush, if_neg hflush]
      by_cases hwrite : typeVal = 1
      · rw [if_pos hwrite, if_pos hwrite, writeData_ok_iff h hoff, hzero, Nat.zero_add, hadd]
        constructor
        · rintro ⟨hfit, hr⟩
          exact ⟨⟨hoff, fun _ => hfit, fun hc => absurd hwrite hc⟩, hr⟩
        · rintro ⟨⟨-, hfit, -⟩, hr⟩
          exact ⟨hfit hwrite, hr⟩
      · rw [if_neg hwrite, if_neg hwrite, readData_ok_iff h _ (Nat.two_pow_pos 64), hzero, Nat.zero_add,
          Nat.zero_add, Nat.add_zero, hadd]
        constructor
        · rintro ⟨hfit, hr⟩
          exact ⟨⟨hoff, fun hc => absurd hc hwrite, fun _ _ => hfit⟩, hr⟩
        · rintro ⟨⟨-, -, hfit⟩, hr⟩
          exact ⟨hfit hwrite hflush, hr⟩
  · have hno : Checked.mulNat 64 sector.toNat 512 = .error .overflow := if_neg hoff
    rw [hno]
    constructor
    · intro hc
      cases hc
    · rintro ⟨⟨hc, -⟩, -⟩
      exact absurd hc hoff

/-- **A request** goes through when its transfer fits. -/
theorem request_ok_iff (h : v.Allocated) (ds : List VirtioDesc) (r : U32 × VirtioBlock) :
    request v ds = .ok r ↔ v.RequestFits ds ∧ r = v.request ds := by
  unfold request VirtioBlock.request RequestFits
  split
  · rw [Checked.bind_eq_ok]
    simp only [transfer_ok_iff h]
    constructor
    · rintro ⟨_, ⟨hfit, rfl⟩, hr⟩
      rw [dmaWrite_ok ((Keeps.transfer v _ _).allocated h) _ (by simp)] at hr
      exact ⟨hfit, (Except.ok.inj hr).symm⟩
    · rintro ⟨hfit, rfl⟩
      refine ⟨_, ⟨hfit, rfl⟩, ?_⟩
      rw [dmaWrite_ok ((Keeps.transfer v _ _).allocated h) _ (by simp)]
      rfl
  · simp [eq_comm]

end Strict

/-- The sums for the used element stay below 2^64. -/
def UsedFits (v : VirtioBlock) : Prop := v.usedAddr.toNat + 4 + v.slot v.usedIdx * 8 + 4 < 2 ^ 64

namespace Strict

variable {v v' : VirtioBlock}

/-- A slot's number, times what an element takes, is far below 2^64. -/
theorem slot_lt (v : VirtioBlock) (idx : U16) : v.slot idx < 2 ^ 16 := lt_of_le_of_lt (Nat.mod_le _ _) idx.isLt

theorem publish_ok_iff (h : v.Allocated) (head : U16) (len : U32) (r : VirtioBlock) :
    publish v head len = .ok r ↔ v.UsedFits ∧ r = v.publish head len := by
  have hslot := slot_lt v v.usedIdx
  have h4 : (4 : U64).toNat = 4 := rfl
  have h2 : (2 : U64).toNat = 2 := rfl
  have hoff : (BitVec.ofNat 64 (v.slot v.usedIdx * 8)).toNat = v.slot v.usedIdx * 8 := by
    rw [BitVec.toNat_ofNat, Nat.mod_eq_of_lt (by omega)]
  have helem : v.usedAddr + 4 + BitVec.ofNat 64 (v.slot v.usedIdx * 8) = v.usedElem v.usedIdx := by
    have hfour : (4 : U64) = BitVec.ofNat 64 4 := rfl
    rw [usedElem, BitVec.add_assoc, hfour, ← BitVec.ofNat_add]
  have hk1 := Keeps.dmaWrite v (v.usedElem v.usedIdx) (Buffer.le 4 head.toNat)
  have hk2 := hk1.trans (.dmaWrite _ (v.usedElem v.usedIdx + 4) (Buffer.le 4 len.toNat))
  have hmain : v.usedAddr.toNat + 4 < 2 ^ 64 → v.usedAddr.toNat + 4 + v.slot v.usedIdx * 8 < 2 ^ 64 →
      (v.usedElem v.usedIdx).toNat = v.usedAddr.toNat + 4 + v.slot v.usedIdx * 8 := by
    intro hfirst hsecond
    rw [← helem, BitVec.toNat_add, BitVec.toNat_add, h4, hoff, Nat.mod_eq_of_lt hfirst, Nat.mod_eq_of_lt hsecond]
  have hfour : v.usedAddr.toNat + 4 < 2 ^ 64 → (v.usedAddr + 4).toNat = v.usedAddr.toNat + 4 := by
    intro hfirst
    rw [BitVec.toNat_add, h4, Nat.mod_eq_of_lt hfirst]
  have hle (n x : Nat) (hn : n < 2 ^ 63) : (Buffer.le n x).length < 2 ^ 63 := by
    rw [Buffer.length_le]
    exact hn
  unfold publish UsedFits
  simp only [Checked.bind_eq_ok, Checked.add_eq_ok]
  constructor
  · rintro ⟨_, ⟨h1, rfl⟩, _, hidx, _, ⟨h3, rfl⟩, _, ⟨h5, rfl⟩, _, hw1, _, ⟨h6, rfl⟩, _, hw2, hw3⟩
    rw [dmaReadU16_ok h] at hidx
    obtain rfl : v.usedIdx = _ := Except.ok.inj hidx
    rw [hfour h3, hoff] at h5
    rw [helem, hmain h3 h5, h4] at h6
    rw [helem, dmaWrite_ok h _ (by simp)] at hw1
    obtain rfl := Except.ok.inj hw1
    rw [helem, dmaWrite_ok (hk1.allocated h) _ (by simp)] at hw2
    obtain rfl := Except.ok.inj hw2
    rw [dmaWrite_ok (hk2.allocated h) _ (by simp)] at hw3
    exact ⟨h6, (Except.ok.inj hw3).symm⟩
  · rintro ⟨hfit, rfl⟩
    have h3 : v.usedAddr.toNat + 4 < 2 ^ 64 := by omega
    have h5 : v.usedAddr.toNat + 4 + v.slot v.usedIdx * 8 < 2 ^ 64 := by omega
    have h2' : v.usedAddr.toNat + (2 : U64).toNat < 2 ^ 64 := by rw [h2]; omega
    have h3' : v.usedAddr.toNat + (4 : U64).toNat < 2 ^ 64 := by rw [h4]; exact h3
    have h5' : (v.usedAddr + 4).toNat + (BitVec.ofNat 64 (v.slot v.usedIdx * 8)).toNat < 2 ^ 64 := by
      rw [hfour h3, hoff]
      exact h5
    have h6' : (v.usedAddr + 4 + BitVec.ofNat 64 (v.slot v.usedIdx * 8)).toNat + (4 : U64).toNat < 2 ^ 64 := by
      rw [helem, hmain h3 h5, h4]
      exact hfit
    have hw1 := dmaWrite_ok h (v.usedElem v.usedIdx) (hle 4 head.toNat (by decide))
    have hw2 := dmaWrite_ok (hk1.allocated h) (v.usedElem v.usedIdx + 4) (hle 4 len.toNat (by decide))
    have hw3 := dmaWrite_ok (hk2.allocated h) (v.usedAddr + 2) (hle 2 (v.usedIdx + 1).toNat (by decide))
    rw [← helem] at hw1 hw2
    exact ⟨_, ⟨h2', rfl⟩, _, dmaReadU16_ok h _, _, ⟨h3', rfl⟩, _, ⟨h5', rfl⟩, _, hw1, _, ⟨h6', rfl⟩, _, hw2, by
      rw [helem]
      exact hw3⟩

end Strict

/-! ### An entry -/

/-- What an entry needs: its head's address is below 2^64 and, if the head is in bounds, the chain comes to no
descriptor twice, the descriptors it comes to lie below 2^64, and its request and its used element fit. -/
structure EntrySafe (v : VirtioBlock) : Prop where
  avail : v.availAddr.toNat + (4 + v.slot v.lastAvailIdx * 2) < 2 ^ 64
  chain : (v.headIdx v.lastAvailIdx).toNat < v.queueNum.toNat → ¬ Walks.Revisits v.follow (v.headIdx v.lastAvailIdx)
  descs : (v.headIdx v.lastAvailIdx).toNat < v.queueNum.toNat →
    ∀ n i, Walks.after v.follow n (v.headIdx v.lastAvailIdx) = some i → v.DescFits i
  request : (v.headIdx v.lastAvailIdx).toNat < v.queueNum.toNat →
    ∀ ds, v.descriptors v.queueNum.toNat (v.headIdx v.lastAvailIdx) = some ds → v.RequestFits ds ∧
        (v.request ds).2.UsedFits

theorem walk_queueNum {v : VirtioBlock} {head : U16} (hhead : head.toNat < v.queueNum.toNat)
    (h : ¬ Walks.Revisits v.follow head) : ∃ l, Walks.walk v.follow v.queueNum.toNat head = some l :=
  Walks.walk_of_not_revisits BitVec.toNat (fun _ _ => BitVec.eq_of_toNat_eq) (fun _ _ => after_lt hhead) h

namespace Strict

variable {v v' : VirtioBlock}

theorem head_ok_iff (h : v.Allocated) (r : U16) :
    ((Checked.add v.availAddr (BitVec.ofNat 64 (4 + v.slot v.lastAvailIdx * 2))) >>= fun a => dmaReadU16 v a) = .ok r ↔
      v.availAddr.toNat + (4 + v.slot v.lastAvailIdx * 2) < 2 ^ 64 ∧ r = v.headIdx v.lastAvailIdx := by
  have hslot := slot_lt v v.lastAvailIdx
  have hoff : (BitVec.ofNat 64 (4 + v.slot v.lastAvailIdx * 2)).toNat = 4 + v.slot v.lastAvailIdx * 2 := by
    rw [BitVec.toNat_ofNat, Nat.mod_eq_of_lt (by omega)]
  simp only [Checked.bind_eq_ok, Checked.add_eq_ok, dmaReadU16_ok h, hoff]
  constructor
  · rintro ⟨_, ⟨hfit, rfl⟩, hr⟩
    exact ⟨hfit, (Except.ok.inj hr).symm⟩
  · rintro ⟨hfit, rfl⟩
    exact ⟨_, ⟨hfit, rfl⟩, rfl⟩

/-- **An entry that is done was safe.** -/
theorem entrySafe_of_ok (h : v.Allocated) {steps : Nat} (hok : processEntry steps v = .ok v') :
    v.EntrySafe ∧ v.processEntry = some v' := by
  unfold processEntry at hok
  rw [← bind_assoc, Checked.bind_eq_ok] at hok
  obtain ⟨head, hhead, hok⟩ := hok
  obtain ⟨havail, rfl⟩ := (head_ok_iff h head).mp hhead
  unfold VirtioBlock.processEntry
  dsimp only
  by_cases hout : (v.headIdx v.lastAvailIdx).toNat ≥ v.queueNum.toNat
  · rw [if_pos hout] at hok ⊢
    have hnot : ¬ (v.headIdx v.lastAvailIdx).toNat < v.queueNum.toNat := by omega
    exact ⟨⟨havail, fun hc => absurd hc hnot, fun hc => absurd hc hnot, fun hc => absurd hc hnot⟩,
      congrArg some (Except.ok.inj hok)⟩
  · have hin : (v.headIdx v.lastAvailIdx).toNat < v.queueNum.toNat := by omega
    rw [if_neg hout, Checked.bind_eq_ok] at hok
    obtain ⟨ds, hds, hok⟩ := hok
    obtain ⟨l, hl, rfl, hfits⟩ := (descriptors_ok_iff h steps hin ds).mp hds
    have hchain := Walks.walk_not_revisits hl
    -- the walk of the source ends within the queue's size
    obtain ⟨l', hl'⟩ := walk_queueNum hin hchain
    obtain rfl := Walks.walk_unique hl hl'
    have hdesc : v.descriptors v.queueNum.toNat (v.headIdx v.lastAvailIdx) = some (l.map v.readDesc) := by
      rw [descriptors_eq_walk v _ hin, hl', Option.map_some]
    rw [Checked.bind_eq_ok] at hok
    obtain ⟨r, hr, hok⟩ := hok
    obtain ⟨hreq, rfl⟩ := (request_ok_iff h _ r).mp hr
    rw [Checked.bind_eq_ok] at hok
    obtain ⟨v1, hv1, hok⟩ := hok
    obtain ⟨hused, rfl⟩ := (publish_ok_iff ((Keeps.request v _).allocated h) _ _ v1).mp hv1
    refine ⟨⟨havail, fun _ => hchain, fun _ n i hi => hfits i ((Walks.mem_walk_iff hl).mpr ⟨n, hi⟩),
        fun _ ds hds => ?_⟩, ?_⟩
    · obtain rfl := Option.some.inj (hdesc.symm.trans hds)
      exact ⟨hreq, hused⟩
    · rw [if_neg hout, hdesc, Option.map_some]
      exact congrArg some (Except.ok.inj hok)

/-- **A safe entry is done**, within the queue's size. -/
theorem ok_of_entrySafe (h : v.Allocated) (hsafe : v.EntrySafe) {steps : Nat} (hsteps : v.queueNum.toNat ≤ steps) :
    ∃ v', processEntry steps v = .ok v' := by
  unfold processEntry
  rw [← bind_assoc, (head_ok_iff h _).mpr ⟨hsafe.avail, rfl⟩, Checked.ok_bind]
  by_cases hout : (v.headIdx v.lastAvailIdx).toNat ≥ v.queueNum.toNat
  · exact ⟨_, if_pos hout⟩
  · have hin : (v.headIdx v.lastAvailIdx).toNat < v.queueNum.toNat := by omega
    obtain ⟨l, hl⟩ := walk_queueNum hin (hsafe.chain hin)
    have hdesc : v.descriptors v.queueNum.toNat (v.headIdx v.lastAvailIdx) = some (l.map v.readDesc) := by
      rw [descriptors_eq_walk v _ hin, hl, Option.map_some]
    obtain ⟨hreq, hused⟩ := hsafe.request hin _ hdesc
    have hds : descriptors v steps (v.headIdx v.lastAvailIdx) = .ok (l.map v.readDesc) := by
      refine (descriptors_ok_iff h steps hin _).mpr ⟨l, Walks.walk_mono hl hsteps, rfl, fun i hi => ?_⟩
      obtain ⟨n, hn⟩ := (Walks.mem_walk_iff hl).mp hi
      exact hsafe.descs hin n i hn
    rw [if_neg hout, hds, Checked.ok_bind, (request_ok_iff h _ _).mpr ⟨hreq, rfl⟩, Checked.ok_bind]
    dsimp only
    rw [(publish_ok_iff ((Keeps.request v _).allocated h) _ _ _).mpr ⟨hused, rfl⟩, Checked.ok_bind]
    exact ⟨_, rfl⟩

end Strict

/-! ### The ring -/

/-- An entry that is done keeps the queue and the sizes; the place in the ring goes on by one. -/
theorem processEntry_keeps {v v' : VirtioBlock} (h : v.processEntry = some v') :
    Keeps { v with lastAvailIdx := v.lastAvailIdx + 1 } v' := by
  unfold VirtioBlock.processEntry at h
  dsimp only at h
  split_ifs at h with hout
  · obtain rfl := Option.some.inj h
    exact .refl _
  · obtain ⟨ds, -, rfl⟩ := Option.map_eq_some_iff.mp h
    have hk := (Keeps.request v ds).trans (.publish _ (v.headIdx v.lastAvailIdx) (v.request ds).1)
    exact ⟨hk.queueNum, hk.ramSize, hk.diskSize, congrArg (· + 1) hk.lastAvailIdx⟩

/-- Each of the next entries is safe when its turn comes. -/
def EntriesSafe : Nat → VirtioBlock → Prop
  | 0, _ => True
  | n + 1, v => v.EntrySafe ∧ ∀ v', v.processEntry = some v' → EntriesSafe n v'

/-- The queue is off, or the available index has an address and every entry up to it is safe. -/
def QueueSafe (v : VirtioBlock) : Prop :=
  v.queueNum = 0 ∨ v.availAddr.toNat + 2 < 2 ^ 64 ∧ EntriesSafe (v.availIdx - v.lastAvailIdx).toNat v

/-- One entry on, one fewer is left. -/
theorem left_succ {idx last : U16} (h : last ≠ idx) : (idx - last).toNat = (idx - (last + 1)).toNat + 1 := by
  have hne : last.toNat ≠ idx.toNat := fun hc => h (BitVec.eq_of_toNat_eq hc)
  have hi := idx.isLt
  have hl := last.isLt
  bv_omega

namespace Strict

variable {v v' : VirtioBlock}

/-- **A ring walk that is done had safe entries**; it did the entries up to the index, one after the other. -/
theorem entriesSafe_of_ok (h : v.Allocated) {steps rounds : Nat} {idx : U16}
    (hok : processEntries steps idx rounds v = .ok v') :
    EntriesSafe (idx - v.lastAvailIdx).toNat v ∧
        VirtioBlock.processEntries (idx - v.lastAvailIdx).toNat v = some v' := by
  induction rounds generalizing v with
  | zero =>
    unfold processEntries at hok
    split_ifs at hok with hdone
    rw [hdone, BitVec.sub_self]
    exact ⟨trivial, congrArg some (Except.ok.inj hok)⟩
  | succ rounds ih =>
    unfold processEntries at hok
    split_ifs at hok with hdone
    · rw [hdone, BitVec.sub_self]
      exact ⟨trivial, congrArg some (Except.ok.inj hok)⟩
    · rw [Checked.bind_eq_ok] at hok
      obtain ⟨v1, hv1, hok⟩ := hok
      obtain ⟨hsafe, hentry⟩ := entrySafe_of_ok h hv1
      have hkeeps := processEntry_keeps hentry
      obtain ⟨hrest, hrun⟩ := ih (hkeeps.allocated ⟨h.ram, h.disk⟩) hok
      rw [hkeeps.lastAvailIdx] at hrest hrun
      rw [left_succ hdone]
      refine ⟨⟨hsafe, fun v2 hv2 => ?_⟩, ?_⟩
      · obtain rfl := Option.some.inj (hentry.symm.trans hv2)
        exact hrest
      · rw [VirtioBlock.processEntries, hentry, Option.bind_some]
        exact hrun

/-- **A ring walk over safe entries is done**, in as many rounds as there are entries. -/
theorem ok_of_entriesSafe (h : v.Allocated) {steps rounds : Nat} {idx : U16} (hsteps : v.queueNum.toNat ≤ steps)
    (hrounds : (idx - v.lastAvailIdx).toNat ≤ rounds) (hsafe : EntriesSafe (idx - v.lastAvailIdx).toNat v) :
    ∃ v', processEntries steps idx rounds v = .ok v' := by
  induction rounds generalizing v with
  | zero =>
    by_cases hdone : v.lastAvailIdx = idx
    · exact ⟨v, if_pos hdone⟩
    · have hleft := left_succ hdone
      omega
  | succ rounds ih =>
    by_cases hdone : v.lastAvailIdx = idx
    · exact ⟨v, if_pos hdone⟩
    · rw [left_succ hdone] at hsafe hrounds
      obtain ⟨hentry, hrest⟩ := hsafe
      obtain ⟨v1, hv1⟩ := ok_of_entrySafe h hentry hsteps
      have hstep := (entrySafe_of_ok h hv1).2
      have hkeeps := processEntry_keeps hstep
      unfold processEntries
      rw [if_neg hdone, hv1, Checked.ok_bind]
      apply ih (hkeeps.allocated ⟨h.ram, h.disk⟩)
      · rw [hkeeps.queueNum]
        exact hsteps
      · rw [hkeeps.lastAvailIdx]
        exact Nat.le_of_succ_le_succ hrounds
      · rw [hkeeps.lastAvailIdx]
        exact hrest v1 hstep

/-- What a call gives is what the unchecked transcription gives. -/
theorem processQueue_eq (h : v.Allocated) {steps : Nat} (hok : processQueue steps v = .ok v') :
    v.processQueue = some v' := by
  unfold processQueue at hok
  unfold VirtioBlock.processQueue
  split_ifs at hok ⊢
  · exact congrArg some (Except.ok.inj hok)
  · simp only [Checked.bind_eq_ok, Checked.add_eq_ok] at hok
    obtain ⟨_, ⟨-, rfl⟩, idx, hidx, v1, hrun, hok⟩ := hok
    rw [dmaReadU16_ok h] at hidx
    obtain rfl : v.availIdx = idx := Except.ok.inj hidx
    rw [(entriesSafe_of_ok h hrun).2, Option.map_some]
    exact congrArg some (Except.ok.inj hok)

theorem queueSafe_of_ok (h : v.Allocated) {steps : Nat} (hok : processQueue steps v = .ok v') : v.QueueSafe := by
  have h2 : (2 : U64).toNat = 2 := rfl
  unfold processQueue at hok
  split_ifs at hok with hoff
  · exact .inl hoff
  · simp only [Checked.bind_eq_ok, Checked.add_eq_ok, h2] at hok
    obtain ⟨_, ⟨havail, rfl⟩, idx, hidx, v1, hrun, -⟩ := hok
    rw [dmaReadU16_ok h] at hidx
    obtain rfl : v.availIdx = idx := Except.ok.inj hidx
    exact .inr ⟨havail, (entriesSafe_of_ok h hrun).1⟩

theorem ok_of_queueSafe (h : v.Allocated) (hsafe : v.QueueSafe) : ∃ steps v', processQueue steps v = .ok v' := by
  have h2 : (2 : U64).toNat = 2 := rfl
  by_cases hoff : v.queueNum = 0
  · exact ⟨0, v, if_pos hoff⟩
  · obtain ⟨havail, hsafe⟩ := hsafe.resolve_left hoff
    -- enough rounds for the ring and for every chain
    obtain ⟨n, hchain, hring⟩ : ∃ n, v.queueNum.toNat ≤ n ∧ (v.availIdx - v.lastAvailIdx).toNat ≤ n :=
      ⟨_, le_max_left _ _, le_max_right _ _⟩
    obtain ⟨v1, hv1⟩ := ok_of_entriesSafe h hchain hring hsafe
    refine ⟨n, { v1 with interruptStatus := v1.interruptStatus ||| 1 }, ?_⟩
    unfold processQueue
    rw [if_neg hoff, Checked.add_ok (by rw [h2]; exact havail), Checked.ok_bind, dmaReadU16_ok h, Checked.ok_bind]
    change (processEntries n v.availIdx n v >>= _) = _
    rw [hv1]
    rfl

end Strict

/-- **The processing of a queue ends without an overflow exactly when the queue is safe.** -/
theorem returns_iff (v : VirtioBlock) (h : v.Allocated) :
    (∃ steps v', Strict.processQueue steps v = .ok v') ↔ v.QueueSafe :=
  ⟨fun ⟨_, _, hok⟩ => Strict.queueSafe_of_ok h hok, Strict.ok_of_queueSafe h⟩

/-! ### One chain of three -/

/-- A queue of four with one available entry, a read of one byte of a sector in three
descriptors. The last one's flags are given; it names the first one as the next. -/
def oneChain (flags sector : Nat) : VirtioBlock where
  ramBase := 0x80000000
  diskImage := ⟨512, fun _ => 7⟩
  queueNum := 4
  queueDescLow := 0x80000000
  queueAvailLow := 0x80000040
  queueUsedLow := 0x80000080
  ram := (Buffer.mk 512 fun _ => 0)
    |>.write 0 (Buffer.le 8 0x80000100 ++ Buffer.le 4 16 ++ Buffer.le 2 1 ++ Buffer.le 2 1)
    |>.write 16 (Buffer.le 8 0x80000110 ++ Buffer.le 4 1 ++ Buffer.le 2 3 ++ Buffer.le 2 2)
    |>.write 32 (Buffer.le 8 0x80000111 ++ Buffer.le 4 1 ++ Buffer.le 2 flags ++ Buffer.le 2 0)
    |>.write 64 (Buffer.le 2 0 ++ Buffer.le 2 1 ++ Buffer.le 2 0)
    |>.write 256 (Buffer.le 4 0 ++ Buffer.le 4 0 ++ Buffer.le 8 sector)

theorem oneChain_allocated (flags sector : Nat) : (oneChain flags sector).Allocated := by
  have hsize : 512 < 2 ^ 63 := by decide
  exact ⟨hsize, hsize⟩

theorem returns_iff_sector_zero : (oneChain 2 0).Allocated ∧ (oneChain 2 0).QueueSafe := by
  have hrun : (Strict.processQueue 4 (oneChain 2 0)).isOk = true := by decide
  refine ⟨oneChain_allocated 2 0, (returns_iff (oneChain 2 0) (oneChain_allocated 2 0)).mp ⟨4, ?_⟩⟩
  cases h : Strict.processQueue 4 (oneChain 2 0) with
  | error e =>
    rw [h] at hrun
    cases hrun
  | ok v' => exact ⟨v', rfl⟩

/-- **A chain whose last descriptor goes on to its first, and a sector whose offset is beyond 2^64.** -/
theorem processQueue_no_result :
    (∀ steps v', Strict.processQueue steps (oneChain 1 0) ≠ .ok v') ∧
      ∀ steps v', Strict.processQueue steps (oneChain 2 (2 ^ 64 - 1)) ≠ .ok v' := by
  constructor
  · intro steps v' hok
    have hqueue : (oneChain 1 0).queueNum ≠ 0 := by decide
    have hsafe := (Strict.queueSafe_of_ok (oneChain_allocated 1 0) hok).resolve_left hqueue
    have hone : ((oneChain 1 0).availIdx - (oneChain 1 0).lastAvailIdx).toNat = 1 := by decide
    rw [hone] at hsafe
    exact hsafe.2.1.chain (by decide) ⟨0, 3, 0, by decide, by decide, by decide⟩
  · intro steps v' hok
    have hqueue : (oneChain 2 (2 ^ 64 - 1)).queueNum ≠ 0 := by decide
    have hsafe := (Strict.queueSafe_of_ok (oneChain_allocated _ _) hok).resolve_left hqueue
    have hone : ((oneChain 2 (2 ^ 64 - 1)).availIdx - (oneChain 2 (2 ^ 64 - 1)).lastAvailIdx).toNat = 1 := by
      decide
    rw [hone] at hsafe
    have hchain : (oneChain 2 (2 ^ 64 - 1)).descriptors (oneChain 2 (2 ^ 64 - 1)).queueNum.toNat
        ((oneChain 2 (2 ^ 64 - 1)).headIdx (oneChain 2 (2 ^ 64 - 1)).lastAvailIdx) =
        some [⟨0x80000100, 16, 1, 1⟩, ⟨0x80000110, 1, 3, 2⟩, ⟨0x80000111, 1, 2, 0⟩] := by decide
    have hfits := (hsafe.2.1.request (by decide) _ hchain).1.1
    exact absurd hfits (by decide)

end VirtioBlock

end Rvsim
