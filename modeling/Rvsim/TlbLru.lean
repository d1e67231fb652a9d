/-
# The order of use in the second-level TLB

`L2Tlb` keeps an age for each way. A use sets the age of its way to zero and
makes those ways older that were younger than it. All ages begin at zero, so no
way is ever younger than another and no age ever moves: the way given up is the
first one, whatever has been used since.

Key definitions:
  - `L2Tlb.Timed`, `L2Tlb.Timed.GivesUpOldest`, `L2Tlb.Timed.FirstIsOldest`
Key theorems:
  - `L2Tlb.Fresh.lruVictim`, `L2Tlb.lru_right`, `L2Tlb.lru_stuck`
-/
import Rvsim.Lib.Recency
import Rvsim.Lib.Runs
import Rvsim.Tlb

namespace Rvsim

variable {γ : Type}

inductive L2TlbOp (γ : Type) where
  | lookup (vpn : Vpn) (asid : Asid)
  | insert (vpn : Vpn) (ppn : Ppn) (pte : U64) (asid : Asid) (src : Option γ)

namespace L2Tlb

def step (t : L2Tlb γ) : L2TlbOp γ → L2Tlb γ
  | .lookup vpn asid => (t.lookup vpn asid).2
  | .insert vpn ppn pte asid src => t.insert vpn ppn pte asid src

/-- The set and the way that are hit or filled. -/
def used (t : L2Tlb γ) : L2TlbOp γ → Option (Nat × Nat)
  | .lookup vpn asid => (t.wayWhere (t.set vpn) fun e => e.hits vpn asid).map (t.set vpn, ·)
  | .insert vpn _ _ asid _ => some (t.set vpn, t.insertWay vpn asid)

def Full (t : L2Tlb γ) (set : Nat) : Prop := ∀ w < t.ways, (t.entries[set * t.ways + w]?).any (·.valid) = true

/-- The page is not there. -/
def Absent (t : L2Tlb γ) (vpn : Vpn) (asid : Asid) : Prop := t.wayWhere (t.set vpn) (fun e => e.hits vpn asid) = none

/-- The TLB with the times at which its ways were hit or filled. -/
structure Timed (γ : Type) where
  tlb : L2Tlb γ
  uses : Recency (Nat × Nat)

namespace Timed

def perform (t : Timed γ) (op : L2TlbOp γ) : Timed γ :=
  ⟨t.tlb.step op,
    match t.tlb.used op with
    | some place => t.uses.touch place
    | none => t.uses⟩

/-- The time of the last hit or fill of a way. -/
def time (t : Timed γ) (set way : Nat) : Nat := t.uses.last (set, way)

/-- An insert into a full set replaces the way whose last use is the oldest, and
not the one used last if there are two. -/
def GivesUpOldest (t : Timed γ) : L2TlbOp γ → Prop
  | .insert vpn _ _ asid _ =>
    let set := t.tlb.set vpn
    let way := t.tlb.insertWay vpn asid
    t.tlb.Full set → t.tlb.Absent vpn asid →
      (∀ w < t.tlb.ways, w ≠ way → t.time set way < t.time set w) ∧
        (2 ≤ t.tlb.ways → ∃ w < t.tlb.ways, t.time set way < t.time set w)
  | .lookup _ _ => True

/-- An insert into a full set meets it with every other way used since the first was. -/
def FirstIsOldest (t : Timed γ) : L2TlbOp γ → Prop
  | .insert vpn _ _ asid _ =>
    t.tlb.Full (t.tlb.set vpn) → t.tlb.Absent vpn asid →
      ∀ w < t.tlb.ways, w ≠ 0 → t.time (t.tlb.set vpn) 0 < t.time (t.tlb.set vpn) w
  | .lookup _ _ => True

end Timed

/-- No way is older than another. -/
structure Fresh (t : L2Tlb γ) : Prop where
  ways_pos : 0 < t.ways
  ages : ∀ a ∈ t.lru, a = 0

variable {t : L2Tlb γ}

theorem Fresh.age (h : t.Fresh) (i : Nat) : t.lru.getD i 0 = 0 := by
  rw [List.getD_eq_getElem?_getD]
  cases hi : t.lru[i]? with
  | none => rfl
  | some a => exact h.ages a (List.mem_of_getElem? hi)

theorem Fresh.new (totalEntries ways latency : Nat) : (new totalEntries ways latency : L2Tlb γ).Fresh :=
  ⟨(Placed.new totalEntries ways latency).ways, fun _ ha => List.eq_of_mem_replicate ha⟩

/-- **A use makes no way older** that is not already. -/
theorem Fresh.touchLru (h : t.Fresh) (set way : Nat) : (t.touchLru set way).Fresh := by
  refine ⟨h.ways_pos, fun a ha => ?_⟩
  unfold L2Tlb.touchLru at ha
  dsimp only at ha
  rw [h.age] at ha
  rcases List.mem_or_eq_of_mem_set ha with hmem | rfl
  · obtain ⟨i, hi, rfl⟩ := List.mem_mapIdx.mp hmem
    have hzero := h.ages _ (List.getElem_mem hi)
    rw [hzero, if_neg fun hc => absurd hc.2.2 (by decide)]
  · rfl

theorem Fresh.step (h : t.Fresh) (op : L2TlbOp γ) : (t.step op).Fresh := by
  cases op with
  | lookup vpn asid =>
    show (t.lookup vpn asid).2.Fresh
    unfold L2Tlb.lookup
    split
    · exact h
    · split
      · exact h
      · exact h.touchLru _ _
  | insert vpn ppn pte asid src =>
    have hwritten : Fresh { t with
        entries := t.entries.set (t.set vpn * t.ways + t.insertWay vpn asid) (.ofPte vpn ppn pte asid src) } :=
      ⟨h.ways_pos, h.ages⟩
    exact hwritten.touchLru _ _

/-- **The way given up is the first.** -/
theorem Fresh.lruVictim (h : t.Fresh) (set : Nat) : t.lruVictim set = 0 := by
  have hfold : ∀ l : List Nat, l.foldl
      (fun (best : U8 × Nat) w =>
        let a := t.lru.getD (set * t.ways + w) 0
        if a > best.1 then (a, w) else best) (0, 0) = (0, 0) := by
    intro l
    induction l with
    | nil => rfl
    | cons w l ih =>
      rw [List.foldl_cons]
      dsimp only
      rw [h.age, if_neg (by decide)]
      exact ih
  unfold L2Tlb.lruVictim
  rw [hfold]

theorem Fresh.insertWay (h : t.Fresh) {vpn : Vpn} {asid : Asid} (hfull : t.Full (t.set vpn))
    (habsent : t.Absent vpn asid) :
    t.insertWay vpn asid = 0 := by
  have hnone : t.wayWhere (t.set vpn) (fun e => !e.valid) = none := by
    unfold wayWhere
    refine List.find?_eq_none.mpr fun w hw hfree => ?_
    have hvalid := hfull w (List.mem_range.mp hw)
    cases he : t.entries[t.set vpn * t.ways + w]? with
    | none => simp [he] at hvalid
    | some e =>
      rw [he, Option.any_some] at hvalid hfree
      rw [hvalid] at hfree
      exact absurd hfree (by simp)
  have hhit : t.wayWhere (t.set vpn) (fun e => e.hits vpn asid) = none := habsent
  unfold L2Tlb.insertWay
  rw [hhit, hnone]
  exact h.lruVictim _

namespace Timed

variable {t : Timed γ}

theorem givesUpOldest_iff (h : t.tlb.Fresh) (op : L2TlbOp γ) : t.GivesUpOldest op ↔ t.FirstIsOldest op := by
  cases op with
  | lookup vpn asid => exact Iff.rfl
  | insert vpn ppn pte asid src =>
    unfold GivesUpOldest FirstIsOldest
    dsimp only
    refine forall_congr' fun hfull => forall_congr' fun habsent => ?_
    rw [h.insertWay hfull habsent]
    constructor
    · exact fun hold => hold.1
    · exact fun hold => ⟨hold, fun htwo => ⟨1, htwo, hold 1 htwo (by decide)⟩⟩

end Timed

/-- **The way replaced is the least recently used one, all along a run of lookups and
inserts, just when every insert into a full set finds all other ways used since
the first way was.** -/
theorem lru_right (totalEntries ways latency : Nat) (ops : List (L2TlbOp γ)) :
    Runs.Always Timed.perform Timed.GivesUpOldest ⟨new totalEntries ways latency, .never⟩ ops ↔
      Runs.Always Timed.perform Timed.FirstIsOldest ⟨new totalEntries ways latency, .never⟩ ops := by
  refine Runs.always_congr (fun t => t.tlb.Fresh) (.new totalEntries ways latency) ?_ ?_
  · exact fun t op _ h _ => h.step op
  · exact fun t op _ h => Timed.givesUpOldest_iff h op

/-- Four pages in turn, for a TLB of one set of two ways. -/
def fourPages : List (L2TlbOp Unit) :=
  [.insert 1 1 0 0 none, .insert 2 2 0 0 none, .insert 3 3 0 0 none, .insert 4 4 0 0 none]

/-- **The fourth page takes the place of the third**, the one filled last. -/
theorem lru_stuck : ¬ Runs.Always Timed.perform Timed.GivesUpOldest ⟨new 2 2 1, .never⟩ fourPages := by
  rintro ⟨-, -, -, hlast, -⟩
  have hold := (hlast (by unfold Full; decide) (by unfold Absent; decide)).1
  exact absurd (hold 1 (by decide) (by decide)) (by decide)

end L2Tlb

end Rvsim
