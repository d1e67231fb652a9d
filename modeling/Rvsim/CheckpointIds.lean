/-
# The ids of checkpoints

`pipeline/checkpoint.rs`: a branch gets the number of the slot of its checkpoint
back as an id of eight bits, and frees it by that id. The branches are told apart
here by the order in which their checkpoints were allocated, and which of them a
slot belongs to is kept beside the table.

Key definitions:
  - `CheckpointRun`, `CheckpointRun.Right`, `CheckpointRun.InReach`
Key theorems:
  - `CheckpointRun.Inv.step`, `CheckpointRun.Inv.right_iff_inReach`
  - `CheckpointRun.ids_right_iff`, `CheckpointRun.ids_collide`
-/
import Rvsim.Lib.Runs
import Rvsim.RenameWhole

namespace Rvsim

namespace CheckpointTable

variable {t t' : CheckpointTable}

/-- What the slot holds; there is nothing beyond the last one. -/
def slotAt (t : CheckpointTable) (i : Nat) : Option Checkpoint := t.slots.getD i none

theorem slotAt_of_lt {i : Nat} (h : i < t.slots.length) : t.slots[i]? = some (t.slotAt i) := by
  unfold slotAt
  rw [List.getD_eq_getElem?_getD, List.getElem?_eq_getElem h]
  rfl

theorem slotAt_new (capacity i : Nat) : (new capacity).slotAt i = none := by
  unfold slotAt new
  rw [List.getD_eq_getElem?_getD, List.getElem?_replicate]
  split <;> rfl

theorem slotAt_set {j : Nat} (hj : j < t.slots.length) (s : Option Checkpoint) (n i : Nat) :
    slotAt ⟨t.slots.set j s, n⟩ i = if i = j then s else t.slotAt i := by
  unfold slotAt
  dsimp only
  rw [List.getD_eq_getElem?_getD, List.getD_eq_getElem?_getD, List.getElem?_set]
  by_cases hij : i = j
  · subst hij
    rw [if_pos rfl, if_pos hj, if_pos rfl]
    rfl
  · rw [if_neg (Ne.symm hij), if_neg hij]

theorem slotAt_free (t : CheckpointTable) (num : U8) (i : Nat) :
    (t.free num).slotAt i = if i = num.toNat then none else t.slotAt i := by
  unfold free
  split
  · next c hc => exact slotAt_set (List.getElem?_eq_some_iff.mp hc).1 _ _ _
  · next hc =>
    split
    · next hi =>
      subst hi
      cases hs : t.slotAt num.toNat with
      | none => rfl
      | some c =>
        have hlt : num.toNat < t.slots.length := by
          by_contra hle
          unfold slotAt at hs
          rw [List.getD_eq_getElem?_getD, List.getElem?_eq_none (Nat.le_of_not_lt hle)] at hs
          cases hs
        exact absurd ((slotAt_of_lt hlt).trans (congrArg some hs)) (hc c)
    · rfl

theorem slotAt_map {f : Option Checkpoint → Option Checkpoint} (hf : f none = none) (n i : Nat) :
    slotAt ⟨t.slots.map f, n⟩ i = f (t.slotAt i) := by
  unfold slotAt
  dsimp only
  rw [List.getD_eq_getElem?_getD, List.getD_eq_getElem?_getD, List.getElem?_map]
  cases t.slots[i]? with
  | none => exact hf.symm
  | some s => rfl

theorem slotAt_flushAfter (t : CheckpointTable) (keep : RobTag) (i : Nat) :
    (t.flushAfter keep).slotAt i = if flushed keep (t.slotAt i) then none else t.slotAt i :=
  slotAt_map rfl _ _

theorem slotAt_flushAll (t : CheckpointTable) (i : Nat) : t.flushAll.slotAt i = none := slotAt_map rfl _ _

/-- The first empty slot is empty, and those before it are not. -/
theorem firstFree_spec {ss : List (Option Checkpoint)} {j : Nat} (h : firstFree 0 ss = some j) :
    ss[j]? = some none ∧ ∀ i < j, ∃ c, ss[i]? = some (some c) := by
  have hgen : ∀ (ss : List (Option Checkpoint)) (k : Nat), firstFree k ss = some j →
      k ≤ j ∧ ss[j - k]? = some none ∧ ∀ i < j - k, ∃ c, ss[i]? = some (some c) := by
    intro ss
    induction ss with
    | nil => exact fun k hk => by cases hk
    | cons s ss ih =>
      intro k hk
      cases s with
      | none =>
        obtain rfl := Option.some.inj hk
        rw [Nat.sub_self]
        exact ⟨Nat.le_refl k, rfl, fun i hi => absurd hi (Nat.not_lt_zero i)⟩
      | some c =>
        obtain ⟨hle, hnone, hbefore⟩ := ih (k + 1) hk
        obtain ⟨n, rfl⟩ := Nat.exists_eq_add_of_le hle
        have hn : k + 1 + n - k = n + 1 := by omega
        rw [Nat.add_sub_cancel_left] at hnone hbefore
        refine ⟨by omega, by rw [hn]; exact hnone, fun i hi => ?_⟩
        cases i with
        | zero => exact ⟨c, rfl⟩
        | succ i => exact hbefore i (by omega)
  have h0 := hgen ss 0 h
  rw [Nat.sub_zero] at h0
  exact h0.2

end CheckpointTable

open CheckpointTable

/-- `free` is with the id that the `b`-th allocation returned. -/
inductive CheckpointOp where
  | allocate (branchTag : RobTag) (renameMap : RenameMap)
  | free (b : Nat)
  | flushAfter (keepTag : RobTag)
  | flushAll

structure CheckpointRun where
  table : CheckpointTable
  /-- Which allocation the checkpoint of a slot is from. -/
  owner : Nat → Option Nat
  /-- The ids returned, in their order. -/
  issued : List U8

namespace CheckpointRun

def start (capacity : Nat) : CheckpointRun := ⟨.new capacity, fun _ => none, []⟩

/-- A slot that has been emptied is nobody's. -/
def emptied (owner : Nat → Option Nat) (t : CheckpointTable) (i : Nat) : Option Nat :=
  if (t.slotAt i).isSome then owner i else none

def step (r : CheckpointRun) : CheckpointOp → CheckpointRun
  | .allocate tag m =>
    match r.table.allocate tag m with
    | (some num, t) => ⟨t, fun i => if firstFree 0 r.table.slots = some i then some r.issued.length else
        r.owner i, r.issued ++ [num]⟩
    | (none, t) => { r with table := t }
  | .free b =>
    match r.issued[b]? with
    | some num => { r with table := r.table.free num, owner := emptied r.owner (r.table.free num) }
    | none => r
  | .flushAfter keep => { r with table := r.table.flushAfter keep, owner := emptied r.owner (r.table.flushAfter keep) }
  | .flushAll => { r with table := r.table.flushAll, owner := emptied r.owner r.table.flushAll }

/-- Two branches that both have a checkpoint have different ids. -/
def IdsDistinct (r : CheckpointRun) : Prop :=
  ∀ i j b c, r.owner i = some b → r.owner j = some c → r.issued[b]? = r.issued[c]? → b = c

/-- A branch that is freed loses its checkpoint, if it still has one, and no other does. -/
def FreesOwn (r : CheckpointRun) : CheckpointOp → Prop
  | .free b => ∀ i, (r.step (.free b)).table.slotAt i = if r.owner i = some b then none else r.table.slotAt i
  | _ => True

/-- What is to hold of an operation and of the state it leads to. -/
structure Right (r : CheckpointRun) (op : CheckpointOp) : Prop where
  count : (r.step op).table.Tallied
  ids : (r.step op).IdsDistinct
  frees : r.FreesOwn op

/-- An allocation finds one of the first 256 slots empty, or none at all, and a branch
is freed while the slot that its id names is its own or empty. -/
def InReach (r : CheckpointRun) : CheckpointOp → Prop
  | .allocate _ _ => (∃ i < 256, i < r.table.capacity ∧ r.table.slotAt i = none) ∨
      ∀ i < r.table.capacity, r.table.slotAt i ≠ none
  | .free b => ∀ num c, r.issued[b]? = some num → r.owner num.toNat = some c → c = b
  | _ => True

/-- The slots in use are the owned ones, all of them can be named by an id, and each owner has its id. -/
structure Inv (r : CheckpointRun) : Prop where
  tallied : r.table.Tallied
  owned : ∀ i, r.owner i = none ↔ r.table.slotAt i = none
  small : ∀ i b, r.owner i = some b → i < 256
  issued : ∀ i b, r.owner i = some b → r.issued[b]? = some (BitVec.ofNat 8 i)

theorem start_inv (capacity : Nat) : (start capacity).Inv where
  tallied := new_tallied capacity
  owned i := iff_of_true rfl (slotAt_new capacity i)
  small i b h := by cases h
  issued i b h := by cases h

variable {r : CheckpointRun}

theorem step_allocate_none (hf : firstFree 0 r.table.slots = none) (tag : RobTag) (m : RenameMap) :
    r.step (.allocate tag m) = r := by
  simp only [step, CheckpointTable.allocate, hf]

theorem step_allocate {j : Nat} (hf : firstFree 0 r.table.slots = some j) (tag : RobTag) (m : RenameMap) :
    r.step (.allocate tag m) =
      ⟨⟨r.table.slots.set j (some ⟨tag, m⟩), r.table.count + 1⟩, fun i => if j = i then
          some r.issued.length else r.owner i,
        r.issued ++ [BitVec.ofNat 8 j]⟩ := by
  simp only [step, CheckpointTable.allocate, hf, Option.some.injEq]

theorem step_free_none {b : Nat} (hb : r.issued[b]? = none) : r.step (.free b) = r := by
  simp only [step, hb]

theorem step_free {b : Nat} {num : U8} (hb : r.issued[b]? = some num) :
    r.step (.free b) = { r with table := r.table.free num, owner := emptied r.owner (r.table.free num) } := by
  simp only [step, hb]

/-- A slot that an id names. -/
theorem toNat_ofNat_slot {i : Nat} (h : i < 256) : (BitVec.ofNat 8 i).toNat = i := by
  rw [BitVec.toNat_ofNat]
  exact Nat.mod_eq_of_lt h

namespace Inv

theorem idsDistinct (h : r.Inv) : r.IdsDistinct := by
  intro i j b c hb hc hsame
  rw [h.issued i b hb, h.issued j c hc, Option.some_inj] at hsame
  have hij : i = j := by
    rw [← toNat_ofNat_slot (h.small i b hb), hsame, toNat_ofNat_slot (h.small j c hc)]
  subst hij
  exact Option.some.inj (hb.symm.trans hc)

/-- Slots are emptied. -/
theorem emptied (h : r.Inv) {t : CheckpointTable} (ht : t.Tallied)
    (hslots : ∀ i, t.slotAt i = none ∨ t.slotAt i = r.table.slotAt i) :
    Inv { r with table := t, owner := CheckpointRun.emptied r.owner t } := by
  have hold : ∀ i b, CheckpointRun.emptied r.owner t i = some b → r.owner i = some b := by
    intro i b hb
    unfold CheckpointRun.emptied at hb
    split at hb
    · exact hb
    · cases hb
  refine ⟨ht, fun i => ?_, fun i b hb => h.small i b (hold i b hb), fun i b hb => h.issued i b (hold i b hb)⟩
  show CheckpointRun.emptied r.owner t i = none ↔ t.slotAt i = none
  unfold CheckpointRun.emptied
  rcases hslots i with hi | hi
  · simp [hi]
  · rw [hi]
    cases hs : r.table.slotAt i with
    | none => simp
    | some c =>
      have hown := h.owned i
      rw [hs] at hown
      exact hown

/-- A checkpoint goes into a slot that an id can name. -/
theorem allocate (h : r.Inv) {j : Nat} (hj : firstFree 0 r.table.slots = some j) (hsmall : j < 256) (tag : RobTag)
    (m : RenameMap) :
    (r.step (.allocate tag m)).Inv := by
  have hfree : r.table.slotAt j = none := by
    unfold slotAt
    rw [List.getD_eq_getElem?_getD, (firstFree_spec hj).1]
    rfl
  have hlt : j < r.table.slots.length := (List.getElem?_eq_some_iff.mp (firstFree_spec hj).1).1
  have htally : (⟨r.table.slots.set j (some ⟨tag, m⟩), r.table.count + 1⟩ : CheckpointTable).Tallied := by
    have hget : r.table.slots[j] = none :=
      Option.some.inj ((List.getElem?_eq_getElem hlt).symm.trans (firstFree_spec hj).1)
    have hcount := h.tallied
    unfold Tallied at hcount ⊢
    dsimp only
    rw [List.countP_set hlt, hget, hcount]
    simp
  rw [step_allocate hj]
  refine ⟨htally, fun i => ?_, fun i b hb => ?_, fun i b hb => ?_⟩
  · dsimp only
    rw [slotAt_set hlt]
    by_cases hi : j = i
    · simp [hi]
    · rw [if_neg hi, if_neg (Ne.symm hi)]
      exact h.owned i
  · dsimp only at hb
    by_cases hi : j = i
    · exact hi ▸ hsmall
    · rw [if_neg hi] at hb
      exact h.small i b hb
  · dsimp only at hb ⊢
    by_cases hi : j = i
    · rw [if_pos hi] at hb
      rw [← Option.some.inj hb, ← hi]
      exact List.getElem?_concat_length
    · rw [if_neg hi] at hb
      have hold := h.issued i b hb
      exact (List.getElem?_append_left (List.getElem?_eq_some_iff.mp hold).1).trans hold

/-- **A step in reach keeps every slot in use within the reach of an id.** -/
theorem step (h : r.Inv) {op : CheckpointOp} (hr : r.InReach op) : (r.step op).Inv := by
  cases op with
  | allocate tag m =>
    cases hf : firstFree 0 r.table.slots with
    | none =>
      rw [step_allocate_none hf]
      exact h
    | some j =>
      obtain ⟨hnone, hbefore⟩ := firstFree_spec hf
      refine h.allocate hf ?_ tag m
      rcases hr with ⟨i, hi, hcap, hempty⟩ | hfull
      · refine Nat.lt_of_le_of_lt (Nat.le_of_not_lt fun hlt => ?_) hi
        obtain ⟨c, hc⟩ := hbefore i hlt
        rw [slotAt_of_lt hcap, hempty] at hc
        cases hc
      · have hlt := (List.getElem?_eq_some_iff.mp hnone).1
        rw [slotAt_of_lt hlt] at hnone
        exact absurd (Option.some.inj hnone) (hfull j hlt)
  | free b =>
    cases hb : r.issued[b]? with
    | none =>
      rw [step_free_none hb]
      exact h
    | some num =>
      rw [step_free hb]
      refine h.emptied (h.tallied.free num) fun i => ?_
      rw [slotAt_free]
      split
      · exact .inl rfl
      · exact .inr rfl
  | flushAfter keep =>
    refine h.emptied (h.tallied.flushAfter keep) fun i => ?_
    rw [slotAt_flushAfter]
    split
    · exact .inl rfl
    · exact .inr rfl
  | flushAll => exact h.emptied (flushAll_tallied r.table) fun i => .inl (slotAt_flushAll r.table i)

/-- A free takes the branch's own checkpoint just when its slot is nobody else's. -/
theorem freesOwn_iff (h : r.Inv) (b : Nat) : r.FreesOwn (.free b) ↔ r.InReach (.free b) := by
  show (∀ i, (r.step (.free b)).table.slotAt i = if r.owner i = some b then none else r.table.slotAt i) ↔
    ∀ num c, r.issued[b]? = some num → r.owner num.toNat = some c → c = b
  cases hb : r.issued[b]? with
  | none =>
    rw [step_free_none hb]
    refine iff_of_true (fun i => ?_) fun num c hnum => nomatch hnum
    have hnot : r.owner i ≠ some b := fun hi => by
      have hnum := h.issued i b hi
      rw [hb] at hnum
      cases hnum
    rw [if_neg hnot]
  | some num =>
    rw [step_free hb]
    dsimp only
    have hown : ∀ i, r.owner i = some b → i = num.toNat := by
      intro i hi
      have hnum := h.issued i b hi
      rw [hb, Option.some_inj] at hnum
      rw [hnum, toNat_ofNat_slot (h.small i b hi)]
    constructor
    · intro hfrees num' c hnum hc
      obtain rfl := Option.some.inj hnum
      by_contra hne
      have hslot := hfrees num.toNat
      rw [slotAt_free, if_pos rfl, if_neg (fun hcb => hne (Option.some.inj (hc.symm.trans hcb)))] at hslot
      rw [(h.owned num.toNat).mpr hslot.symm] at hc
      cases hc
    · intro hreach i
      rw [slotAt_free]
      by_cases hi : i = num.toNat
      · subst hi
        rw [if_pos rfl]
        cases ho : r.owner num.toNat with
        | none => rw [if_neg (fun hc => by cases hc), (h.owned _).mp ho]
        | some c => rw [if_pos (congrArg some (hreach num c rfl ho))]
      · rw [if_neg hi, if_neg (fun hc => hi (hown i hc))]

/-- A checkpoint in a slot that no id can name shares its id with another. -/
theorem not_idsDistinct (h : r.Inv) {j : Nat} (hj : firstFree 0 r.table.slots = some j) (hbig : 256 ≤ j) (tag : RobTag)
    (m : RenameMap) :
    ¬ (r.step (.allocate tag m)).IdsDistinct := by
  rw [step_allocate hj]
  intro hd
  have hmod : j % 256 < j := Nat.lt_of_lt_of_le (Nat.mod_lt j (by decide)) hbig
  obtain ⟨c, hc⟩ := (firstFree_spec hj).2 (j % 256) hmod
  have howner : ∃ b, r.owner (j % 256) = some b := by
    refine Option.ne_none_iff_exists'.mp fun hnone => ?_
    have hempty := (h.owned _).mp hnone
    have hlt := (List.getElem?_eq_some_iff.mp hc).1
    rw [slotAt_of_lt hlt, hempty] at hc
    cases hc
  obtain ⟨b, hb⟩ := howner
  have hnum := h.issued _ b hb
  have hlt := (List.getElem?_eq_some_iff.mp hnum).1
  have hsame : BitVec.ofNat 8 (j % 256) = BitVec.ofNat 8 j := by
    apply BitVec.eq_of_toNat_eq
    rw [BitVec.toNat_ofNat, BitVec.toNat_ofNat, Nat.mod_mod]
  have hold : (if j = j % 256 then some r.issued.length else r.owner (j % 256)) = some b := by
    rw [if_neg hmod.ne', hb]
  have hids : (r.issued ++ [BitVec.ofNat 8 j])[b]? = (r.issued ++ [BitVec.ofNat 8 j])[r.issued.length]? := by
    rw [List.getElem?_append_left hlt, List.getElem?_concat_length, hnum, hsame]
  exact Nat.ne_of_lt hlt (hd (j % 256) j b r.issued.length hold (if_pos rfl) hids)

/-- **An operation does right just when it is in reach.** -/
theorem right_iff_inReach (h : r.Inv) (op : CheckpointOp) : r.Right op ↔ r.InReach op := by
  constructor
  · intro hr
    cases op with
    | allocate tag m =>
      by_contra hno
      unfold InReach at hno
      push Not at hno
      obtain ⟨hfull, j, hcap, hempty⟩ := hno
      cases hf : firstFree 0 r.table.slots with
      | none =>
        have hsome := firstFree_none hf _ (List.mem_of_getElem? (slotAt_of_lt hcap))
        rw [hempty] at hsome
        cases hsome
      | some k =>
        obtain ⟨hnone, -⟩ := firstFree_spec hf
        have hlt := (List.getElem?_eq_some_iff.mp hnone).1
        rw [slotAt_of_lt hlt, Option.some_inj] at hnone
        have hbig : 256 ≤ k := Nat.le_of_not_lt fun hk => hfull k hk hlt hnone
        exact h.not_idsDistinct hf hbig tag m hr.ids
    | free b => exact (h.freesOwn_iff b).mp hr.frees
    | flushAfter keep => trivial
    | flushAll => trivial
  · intro hr
    have hnext := h.step hr
    refine ⟨hnext.tallied, hnext.idsDistinct, ?_⟩
    cases op with
    | free b => exact (h.freesOwn_iff b).mpr hr
    | allocate tag m => trivial
    | flushAfter keep => trivial
    | flushAll => trivial

end Inv

/-- **The count, the ids and what is freed are right along a run just when every
allocation finds a slot that an id can name, or none, and no branch is freed once
its slot has gone to another.** -/
theorem ids_right_iff (capacity : Nat) (ops : List CheckpointOp) :
    Runs.Always step Right (start capacity) ops ↔ Runs.Always step InReach (start capacity) ops :=
  Runs.always_congr Inv (start_inv capacity) (fun _ op _ h hr => h.step ((h.right_iff_inReach op).mp hr))
      fun _ op _ h => h.right_iff_inReach op

/-- One branch after another gets a checkpoint. -/
def branches (n : Nat) : List CheckpointOp := (List.range n).map fun k => .allocate (BitVec.ofNat 32 (k + 1)) .new

theorem firstFree_filled (cs : List Checkpoint) (rest : List (Option Checkpoint)) (k : Nat) :
    firstFree k (cs.map some ++ none :: rest) = some (k + cs.length) := by
  induction cs generalizing k with
  | nil => rfl
  | cons c cs ih =>
    have hlen : k + (cs.length + 1) = k + 1 + cs.length := by omega
    rw [List.length_cons, hlen]
    exact ih (k + 1)

/-- They take the slots in order. -/
theorem filled_branches (capacity : Nat) {n : Nat} (hn : n ≤ capacity) : ∃ cs : List Checkpoint, cs.length = n ∧
    ((branches n).foldl step (start capacity)).table.slots = cs.map some ++ List.replicate (capacity - n) none := by
  induction n with
  | zero => exact ⟨[], rfl, rfl⟩
  | succ n ih =>
    obtain ⟨cs, hlen, hslots⟩ := ih (Nat.le_of_succ_le hn)
    have hrest : capacity - n = capacity - (n + 1) + 1 := by omega
    rw [hrest, List.replicate_succ] at hslots
    have hfree := firstFree_filled cs (List.replicate (capacity - (n + 1)) none) 0
    rw [← hslots, Nat.zero_add] at hfree
    refine ⟨cs ++ [⟨BitVec.ofNat 32 (n + 1), .new⟩], by rw [List.length_append, hlen]; rfl, ?_⟩
    rw [branches, List.range_succ, List.map_append, List.foldl_append]
    refine (congrArg (fun r => r.table.slots) (step_allocate hfree (BitVec.ofNat 32 (n + 1)) .new)).trans ?_
    change (List.set _ cs.length _ : List (Option Checkpoint)) = _
    rw [hslots]
    simp

/-- 257 branches in a table of 257: the last one has the id of the first. -/
theorem ids_collide : ¬ Runs.Always step Right (start 257) (branches 257) := by
  have hsplit : branches 257 = branches 256 ++ [.allocate (BitVec.ofNat 32 257) .new] := by
    rw [branches, List.range_succ, List.map_append]
    rfl
  rw [hsplit, Runs.always_append]
  rintro ⟨hbefore, hlast, -⟩
  have hinv : ((branches 256).foldl step (start 257)).Inv :=
    Runs.inv_of_always Inv (start_inv 257) (fun _ op _ h hr => h.step ((h.right_iff_inReach op).mp hr)) hbefore
  have hfree : firstFree 0 ((branches 256).foldl step (start 257)).table.slots = some 256 := by
    obtain ⟨cs, hlen, hslots⟩ := filled_branches 257 (n := 256) (by decide)
    have hfree := firstFree_filled cs [] 0
    rw [Nat.zero_add, hlen] at hfree
    rw [hslots]
    exact hfree
  exact hinv.not_idsDistinct hfree (Nat.le_refl _) _ _ hlast.ids

end CheckpointRun

end Rvsim
