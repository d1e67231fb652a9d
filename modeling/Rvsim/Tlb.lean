/-
# Translation lookaside buffers

`units/mmu/tlb.rs`: the direct-mapped first level and the set-associative
second level. Both hold one entry for each 4 KiB page, also for pages inside
a superpage. An entry carries an annotation of type `γ` that says where it
came from; no operation looks at it, and the source has no such field.

Key definitions:
  - `TlbEntry`, `Tlb`, `L2Tlb`
Key theorems:
  - `Tlb.mem_lookup`, `Tlb.mem_insert`, `Tlb.entries_dropAt`
  - `L2Tlb.mem_lookup`, `L2Tlb.mem_insert`, `L2Tlb.entries_dropIn`
-/
import Rvsim.Arch

namespace Rvsim

abbrev Vpn := U64
abbrev Ppn := U64
abbrev Asid := BitVec 16

structure TlbEntry (γ : Type) where
  vpn : Vpn := 0
  ppn : Ppn := 0
  valid : Bool := false
  r : Bool := false
  w : Bool := false
  x : Bool := false
  u : Bool := false
  d : Bool := false
  asid : Asid := 0
  global : Bool := false
  src : Option γ := none
  deriving DecidableEq, Repr

variable {γ : Type}

namespace TlbEntry

/-- The entry both levels write for a page with this leaf PTE. -/
def ofPte (vpn : Vpn) (ppn : Ppn) (pte : U64) (asid : Asid) (src : Option γ) : TlbEntry γ where
  vpn := vpn
  ppn := ppn
  valid := true
  r := pte.getLsbD 1
  w := pte.getLsbD 2
  x := pte.getLsbD 3
  u := pte.getLsbD 4
  d := pte.getLsbD 7
  asid := asid
  global := pte.getLsbD 5
  src := src

/-- The test of `lookup`. -/
def hits (e : TlbEntry γ) (vpn : Vpn) (asid : Asid) : Bool :=
  e.valid && e.vpn == vpn && (e.global || e.asid == asid)

def drop (e : TlbEntry γ) : TlbEntry γ := { e with valid := false }

/-- What a selective flush does to one entry. -/
def dropIf (p : TlbEntry γ → Bool) (e : TlbEntry γ) : TlbEntry γ := if e.valid && p e then e.drop else e

/-- PTE bits from the flags of an entry. -/
def flagBits (r w x u global d : Bool) : U64 :=
  let bit (b : Bool) (k : Nat) : U64 := if b then (1 : U64) <<< k else 0
  1 ||| bit r 1 ||| bit w 2 ||| bit x 3 ||| bit u 4 ||| bit global 5 ||| bit d 7

theorem getLsbD_flagBits :
    ∀ r w x u global d, (flagBits r w x u global d).getLsbD 1 = r ∧
      (flagBits r w x u global d).getLsbD 2 = w ∧ (flagBits r w x u global d).getLsbD 3 = x ∧
      (flagBits r w x u global d).getLsbD 4 = u ∧
      (flagBits r w x u global d).getLsbD 5 = global ∧
      (flagBits r w x u global d).getLsbD 7 = d := by
  decide

/-- The PTE bits `L2Tlb::lookup` gives back. -/
def reconstructPte (e : TlbEntry γ) : U64 := flagBits e.r e.w e.x e.u e.global e.d

end TlbEntry

/-- The flushes of both levels are selections by page number and address space. -/
def byVaddr (vpn : Vpn) (e : TlbEntry γ) : Bool := e.vpn == vpn

def byAsid (asid : Asid) (e : TlbEntry γ) : Bool := !e.global && e.asid == asid

def byVaddrAsid (vpn : Vpn) (asid : Asid) (e : TlbEntry γ) : Bool := byVaddr vpn e && byAsid asid e

/-- `usize::next_power_of_two`. -/
def nextPowerOfTwo (n : Nat) : Nat :=
  (((List.range 64).map fun k => 2 ^ k).find? fun p => decide (n ≤ p)).getD 1

/-! ### First level -/

structure TlbHit (γ : Type) where
  ppn : Ppn
  r : Bool
  w : Bool
  x : Bool
  u : Bool
  d : Bool
  src : Option γ
  deriving DecidableEq, Repr

def TlbEntry.hit (e : TlbEntry γ) : TlbHit γ := ⟨e.ppn, e.r, e.w, e.x, e.u, e.d, e.src⟩

structure Tlb (γ : Type) where
  entries : List (TlbEntry γ)
  mask : U64
  deriving DecidableEq, Repr

namespace Tlb

def new (size : Nat) : Tlb γ :=
  let safeSize := nextPowerOfTwo size
  ⟨List.replicate safeSize {}, BitVec.ofNat 64 (safeSize - 1)⟩

def slot (t : Tlb γ) (vpn : Vpn) : Nat := (vpn &&& t.mask).toNat

def lookup (t : Tlb γ) (vpn : Vpn) (asid : Asid) : Option (TlbHit γ) :=
  match t.entries[t.slot vpn]? with
  | none => none
  | some e => if e.hits vpn asid then some e.hit else none

def insert (t : Tlb γ) (vpn : Vpn) (ppn : Ppn) (pte : U64) (asid : Asid) (src : Option γ) : Tlb γ :=
  { t with entries := t.entries.set (t.slot vpn) (.ofPte vpn ppn pte asid src) }

/-- Drop the entry in the slot of `vpn` when it passes the test. -/
def dropAt (t : Tlb γ) (vpn : Vpn) (p : TlbEntry γ → Bool) : Tlb γ :=
  { t with entries := t.entries.modify (t.slot vpn) (.dropIf p) }

def invalidate (t : Tlb γ) (vpn : Vpn) : Tlb γ := t.dropAt vpn (byVaddr vpn)

def flush (t : Tlb γ) : Tlb γ := { t with entries := t.entries.map .drop }

def flushVaddr (t : Tlb γ) (vpn : Vpn) : Tlb γ := t.dropAt vpn (byVaddr vpn)

def flushAsid (t : Tlb γ) (asid : Asid) : Tlb γ := { t with entries := t.entries.map (.dropIf (byAsid asid)) }

def flushVaddrAsid (t : Tlb γ) (vpn : Vpn) (asid : Asid) : Tlb γ := t.dropAt vpn (byVaddrAsid vpn asid)

end Tlb

/-! ### Second level -/

structure L2Tlb (γ : Type) where
  entries : List (TlbEntry γ)
  ways : Nat
  setMask : U64
  lru : List U8
  latency : Nat
  deriving DecidableEq, Repr

namespace L2Tlb

def new (totalEntries ways latency : Nat) : L2Tlb γ :=
  let safeWays := if ways = 0 then 4 else ways
  let numSets := max (nextPowerOfTwo (totalEntries / safeWays)) 1
  let capacity := numSets * safeWays
  { entries := List.replicate capacity {}
    ways := safeWays
    setMask := BitVec.ofNat 64 (numSets - 1)
    lru := List.replicate capacity 0
    latency := latency }

def set (t : L2Tlb γ) (vpn : Vpn) : Nat := (vpn &&& t.setMask).toNat

/-- The first way of a set whose entry passes the test. -/
def wayWhere (t : L2Tlb γ) (set : Nat) (p : TlbEntry γ → Bool) : Option Nat :=
  (List.range t.ways).find? fun w => (t.entries[set * t.ways + w]?).any p

/-- Ways younger than `way` age by one, and `way` becomes the youngest. -/
def touchLru (t : L2Tlb γ) (set way : Nat) : L2Tlb γ :=
  let base := set * t.ways
  let oldAge := t.lru.getD (base + way) 0
  let aged := t.lru.mapIdx fun i a => if base ≤ i ∧ i < base + t.ways ∧ a < oldAge then a + 1 else a
  { t with lru := aged.set (base + way) 0 }

/-- The first way of greatest age. -/
def lruVictim (t : L2Tlb γ) (set : Nat) : Nat :=
  ((List.range t.ways).foldl
    (fun (best : U8 × Nat) w =>
      let a := t.lru.getD (set * t.ways + w) 0
      if a > best.1 then (a, w) else best)
    (0, 0)).2

/-- `(ppn, pte_bits, asid)` of the page, and where the entry came from. -/
structure Hit (γ : Type) where
  ppn : Ppn
  pteBits : U64
  asid : Asid
  src : Option γ
  deriving DecidableEq, Repr

def lookup (t : L2Tlb γ) (vpn : Vpn) (asid : Asid) : Option (Hit γ) × L2Tlb γ :=
  match t.wayWhere (t.set vpn) fun e => e.hits vpn asid with
  | none => (none, t)
  | some w =>
    match t.entries[t.set vpn * t.ways + w]? with
    | none => (none, t)
    | some e => (some ⟨e.ppn, e.reconstructPte, e.asid, e.src⟩, t.touchLru (t.set vpn) w)

/-- The way `insert` writes: the page's own, else a free one, else the oldest. -/
def insertWay (t : L2Tlb γ) (vpn : Vpn) (asid : Asid) : Nat :=
  match t.wayWhere (t.set vpn) fun e => e.hits vpn asid with
  | some w => w
  | none =>
    match t.wayWhere (t.set vpn) fun e => !e.valid with
    | some w => w
    | none => t.lruVictim (t.set vpn)

def insert (t : L2Tlb γ) (vpn : Vpn) (ppn : Ppn) (pte : U64) (asid : Asid) (src : Option γ) : L2Tlb γ :=
  let w := t.insertWay vpn asid
  let t := { t with entries := t.entries.set (t.set vpn * t.ways + w) (.ofPte vpn ppn pte asid src) }
  t.touchLru (t.set vpn) w

/-- Drop the entries in the set of `vpn` that pass the test. -/
def dropIn (t : L2Tlb γ) (vpn : Vpn) (p : TlbEntry γ → Bool) : L2Tlb γ :=
  let base := t.set vpn * t.ways
  { t with
    entries := t.entries.mapIdx fun i e => if base ≤ i ∧ i < base + t.ways then e.dropIf p else e }

def flush (t : L2Tlb γ) : L2Tlb γ := { t with entries := t.entries.map .drop }

def flushVaddr (t : L2Tlb γ) (vpn : Vpn) : L2Tlb γ := t.dropIn vpn (byVaddr vpn)

def flushAsid (t : L2Tlb γ) (asid : Asid) : L2Tlb γ :=
  { t with entries := t.entries.map (.dropIf (byAsid asid)) }

def flushVaddrAsid (t : L2Tlb γ) (vpn : Vpn) (asid : Asid) : L2Tlb γ := t.dropIn vpn (byVaddrAsid vpn asid)

end L2Tlb

/-! ### Where entries stand -/

namespace TlbEntry

variable {p : TlbEntry γ → Bool} {e : TlbEntry γ}

@[simp] theorem vpn_dropIf : (e.dropIf p).vpn = e.vpn := by
  unfold dropIf
  split <;> rfl

/-- An entry left valid by a flush is the entry of before, and was not selected. -/
theorem valid_dropIf (h : (e.dropIf p).valid = true) :
    e.dropIf p = e ∧ e.valid = true ∧ p e = false := by
  unfold dropIf at h ⊢
  by_cases hc : (e.valid && p e) = true
  · rw [if_pos hc] at h
    exact absurd h Bool.false_ne_true
  · rw [if_neg hc] at h ⊢
    refine ⟨rfl, h, ?_⟩
    simpa [h] using hc

theorem dropIf_of_not (h : e.valid = true → p e = false) : e.dropIf p = e := by
  unfold dropIf
  by_cases hv : e.valid = true
  · rw [h hv, Bool.and_false]
    rfl
  · rw [Bool.eq_false_iff.mpr hv, Bool.false_and]
    rfl

end TlbEntry

namespace Tlb

/-- A valid entry stands in the slot of its page. -/
def Placed (t : Tlb γ) : Prop := ∀ i e, t.entries[i]? = some e → e.valid = true → t.slot e.vpn = i

variable {t : Tlb γ}

theorem Placed.new (size : Nat) : (new size : Tlb γ).Placed := by
  intro i e he hv
  rw [List.eq_of_mem_replicate (List.mem_of_getElem? he)] at hv
  exact absurd hv Bool.false_ne_true

theorem mem_lookup {vpn : Vpn} {asid : Asid} {h : TlbHit γ} (hl : t.lookup vpn asid = some h) :
    ∃ e ∈ t.entries, e.hits vpn asid = true ∧ h = e.hit := by
  unfold lookup at hl
  cases he : t.entries[t.slot vpn]? with
  | none => simp [he] at hl
  | some e =>
    simp only [he, Option.ite_none_right_eq_some, Option.some.injEq] at hl
    exact ⟨e, List.mem_of_getElem? he, hl.1, hl.2.symm⟩

theorem mem_insert {vpn : Vpn} {ppn : Ppn} {pte : U64} {asid : Asid} {src : Option γ} {e : TlbEntry γ}
    (h : e ∈ (t.insert vpn ppn pte asid src).entries) : e ∈ t.entries ∨ e = .ofPte vpn ppn pte asid src :=
  List.mem_or_eq_of_mem_set h

theorem Placed.insert (h : t.Placed) (vpn : Vpn) (ppn : Ppn) (pte : U64) (asid : Asid) (src : Option γ) :
    (t.insert vpn ppn pte asid src).Placed := by
  intro i e he hv
  change (t.entries.set (t.slot vpn) _)[i]? = some e at he
  rw [List.getElem?_set] at he
  by_cases hi : t.slot vpn = i
  · rw [if_pos hi] at he
    split at he
    · cases he
      exact hi
    · cases he
  · rw [if_neg hi] at he
    exact h i e he hv

theorem Placed.map (h : t.Placed) (p : TlbEntry γ → Bool) :
    Placed { t with entries := t.entries.map (.dropIf p) } := by
  intro i e he hv
  rw [List.getElem?_map] at he
  obtain ⟨e', he', rfl⟩ := Option.map_eq_some_iff.mp he
  rw [TlbEntry.vpn_dropIf]
  exact h i e' he' (TlbEntry.valid_dropIf hv).2.1

theorem mem_dropAt {vpn : Vpn} {p : TlbEntry γ → Bool} {e : TlbEntry γ} (h : e ∈ (t.dropAt vpn p).entries)
    (hv : e.valid = true) : e ∈ t.entries := by
  obtain ⟨i, hi⟩ := List.mem_iff_getElem?.mp h
  change (t.entries.modify (t.slot vpn) _)[i]? = some e at hi
  rw [List.getElem?_modify] at hi
  obtain ⟨e', he', hcase⟩ := Option.map_eq_some_iff.mp hi
  by_cases hs : t.slot vpn = i
  · rw [if_pos hs] at hcase
    subst hcase
    rw [(TlbEntry.valid_dropIf hv).1]
    exact List.mem_of_getElem? he'
  · rw [if_neg hs] at hcase
    exact hcase ▸ List.mem_of_getElem? he'

/-- Flushing the slot of a page flushes every entry of that page. -/
theorem entries_dropAt (h : t.Placed) {vpn : Vpn} {p : TlbEntry γ → Bool}
    (hp : ∀ e, p e = true → e.vpn = vpn) :
    t.dropAt vpn p = { t with entries := t.entries.map (.dropIf p) } := by
  unfold dropAt
  congr 1
  refine List.ext_getElem? fun i => ?_
  rw [List.getElem?_modify, List.getElem?_map]
  cases he : t.entries[i]? with
  | none => rfl
  | some e =>
    show some (if t.slot vpn = i then e.dropIf p else e) = some (e.dropIf p)
    by_cases hi : t.slot vpn = i
    · rw [if_pos hi]
    · rw [if_neg hi, TlbEntry.dropIf_of_not]
      intro hv
      by_contra hc
      have hvpn := hp e (by simpa using hc)
      exact hi (hvpn ▸ h i e he hv)

end Tlb

namespace L2Tlb

/-- A valid entry stands in the set of its page. -/
structure Placed (t : L2Tlb γ) : Prop where
  ways : 0 < t.ways
  place : ∀ i e, t.entries[i]? = some e → e.valid = true →
    t.set e.vpn * t.ways ≤ i ∧ i < t.set e.vpn * t.ways + t.ways

variable {t : L2Tlb γ}

theorem Placed.new (totalEntries ways latency : Nat) : (new totalEntries ways latency : L2Tlb γ).Placed where
  ways := by
    show 0 < if ways = 0 then 4 else ways
    split <;> omega
  place := by
    intro i e he hv
    rw [List.eq_of_mem_replicate (List.mem_of_getElem? he)] at hv
    exact absurd hv Bool.false_ne_true

@[simp] theorem entries_touchLru (set way : Nat) : (t.touchLru set way).entries = t.entries := rfl

theorem Placed.touchLru (h : t.Placed) (set way : Nat) : (t.touchLru set way).Placed := ⟨h.ways, h.place⟩

theorem Placed.lookup (h : t.Placed) (vpn : Vpn) (asid : Asid) : (t.lookup vpn asid).2.Placed := by
  unfold L2Tlb.lookup
  split
  · exact h
  · split
    · exact h
    · exact h.touchLru _ _

theorem entries_lookup (vpn : Vpn) (asid : Asid) : (t.lookup vpn asid).2.entries = t.entries := by
  unfold lookup
  split
  · rfl
  · split <;> rfl

theorem mem_lookup {vpn : Vpn} {asid : Asid} {h : Hit γ} (hl : (t.lookup vpn asid).1 = some h) :
    ∃ e ∈ t.entries, e.hits vpn asid = true ∧ h = ⟨e.ppn, e.reconstructPte, e.asid, e.src⟩ := by
  unfold lookup at hl
  cases hw : t.wayWhere (t.set vpn) fun e => e.hits vpn asid with
  | none => simp [hw] at hl
  | some w =>
    have hfound := List.find?_some hw
    cases he : t.entries[t.set vpn * t.ways + w]? with
    | none => simp [hw, he] at hl
    | some e =>
      simp only [hw, he, Option.some.injEq] at hl
      rw [he] at hfound
      exact ⟨e, List.mem_of_getElem? he, hfound, hl.symm⟩

theorem mem_insert {vpn : Vpn} {ppn : Ppn} {pte : U64} {asid : Asid} {src : Option γ} {e : TlbEntry γ}
    (h : e ∈ (t.insert vpn ppn pte asid src).entries) : e ∈ t.entries ∨ e = .ofPte vpn ppn pte asid src :=
  List.mem_or_eq_of_mem_set h

theorem wayWhere_lt {set : Nat} {p : TlbEntry γ → Bool} {w : Nat} (h : t.wayWhere set p = some w) :
    w < t.ways :=
  List.mem_range.mp (List.mem_of_find?_eq_some h)

theorem lruVictim_lt (h : t.Placed) (set : Nat) : t.lruVictim set < t.ways := by
  unfold lruVictim
  have hfold : ∀ (l : List Nat) (best : U8 × Nat), (∀ w ∈ l, w < t.ways) → best.2 < t.ways →
      (l.foldl (fun (best : U8 × Nat) w =>
        let a := t.lru.getD (set * t.ways + w) 0
        if a > best.1 then (a, w) else best) best).2 < t.ways := by
    intro l
    induction l with
    | nil => exact fun _ _ hb => hb
    | cons w l ih =>
      intro best hl hb
      refine ih _ (fun v hv => hl v (List.mem_cons_of_mem _ hv)) ?_
      show (if _ > best.1 then _ else best).2 < t.ways
      split
      · exact hl w List.mem_cons_self
      · exact hb
  exact hfold _ _ (fun w hw => List.mem_range.mp hw) h.ways

theorem insertWay_lt (h : t.Placed) (vpn : Vpn) (asid : Asid) : t.insertWay vpn asid < t.ways := by
  unfold insertWay
  split
  · next hw => exact wayWhere_lt hw
  · split
    · next hw => exact wayWhere_lt hw
    · exact lruVictim_lt h _

theorem Placed.insert (h : t.Placed) (vpn : Vpn) (ppn : Ppn) (pte : U64) (asid : Asid) (src : Option γ) :
    (t.insert vpn ppn pte asid src).Placed := by
  refine ⟨h.ways, fun i e he hv => ?_⟩
  change (t.entries.set (t.set vpn * t.ways + t.insertWay vpn asid) _)[i]? = some e at he
  have hlt := insertWay_lt h vpn asid
  rw [List.getElem?_set] at he
  by_cases hi : t.set vpn * t.ways + t.insertWay vpn asid = i
  · rw [if_pos hi] at he
    split at he
    · cases he
      show t.set vpn * t.ways ≤ i ∧ i < t.set vpn * t.ways + t.ways
      omega
    · cases he
  · rw [if_neg hi] at he
    exact h.place i e he hv

theorem Placed.map (h : t.Placed) (p : TlbEntry γ → Bool) :
    Placed { t with entries := t.entries.map (.dropIf p) } := by
  refine ⟨h.ways, fun i e he hv => ?_⟩
  rw [List.getElem?_map] at he
  obtain ⟨e', he', rfl⟩ := Option.map_eq_some_iff.mp he
  rw [TlbEntry.vpn_dropIf]
  exact h.place i e' he' (TlbEntry.valid_dropIf hv).2.1

/-- Flushing the set of a page flushes every entry of that page. -/
theorem entries_dropIn (h : t.Placed) {vpn : Vpn} {p : TlbEntry γ → Bool}
    (hp : ∀ e, p e = true → e.vpn = vpn) :
    t.dropIn vpn p = { t with entries := t.entries.map (.dropIf p) } := by
  unfold dropIn
  simp only
  congr 1
  refine List.ext_getElem? fun i => ?_
  rw [List.getElem?_mapIdx, List.getElem?_map]
  cases he : t.entries[i]? with
  | none => rfl
  | some e =>
    show some (if _ then e.dropIf p else e) = some (e.dropIf p)
    by_cases hi : t.set vpn * t.ways ≤ i ∧ i < t.set vpn * t.ways + t.ways
    · rw [if_pos hi]
    · rw [if_neg hi, TlbEntry.dropIf_of_not]
      intro hv
      by_contra hc
      have hvpn := hp e (by simpa using hc)
      exact hi (hvpn ▸ h.place i e he hv)

end L2Tlb

end Rvsim
