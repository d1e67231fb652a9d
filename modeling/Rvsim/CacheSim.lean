/-
# A set-associative cache

`units/cache/mod.rs` and its replacement policies. Lines are kept by set and
way; a prefetcher enters as any machine that answers accesses with addresses,
and a boxed policy as one of the five. Most ways into the cache look for the
line first. The install at the end of a miss and the install of a line that
another level has evicted do not, and put a second copy next to the first when
the line has come in meanwhile.

Key definitions:
  - `ReplacementPolicy`, `Prefetcher`, `CacheSim`, `CacheOp`
  - `CacheSim.Unique`, `CacheSim.Sound`, `CacheSim.Fresh`
Key theorems:
  - `ReplacementPolicy.victim_lt`, `CacheSim.unique_place_iff`, `CacheSim.step_sound`, `CacheSim.step_evictions`
  - `CacheSim.unique_iff`
-/
import Mathlib.Logic.Function.Basic
import Rvsim.Mshr

namespace Rvsim

/-! ### Replacement policies -/

inductive PolicyType where
  | fifo
  | random
  | plru
  | lru
  | mru
  deriving DecidableEq, Repr

inductive ReplacementPolicy where
  | fifo (nextWay : Nat → Nat) (ways : Nat)
  | lru (usage : Nat → List Nat)
  | mru (usage : Nat → List Nat)
  | plru (usage : Nat → U64) (ways : Nat)
  | random (ways : Nat) (state : U64)

namespace ReplacementPolicy

def new (ways : Nat) : PolicyType → ReplacementPolicy
  | .fifo => .fifo (fun _ => 0) ways
  | .lru => .lru fun _ => List.range ways
  | .mru => .mru fun _ => List.range ways
  | .plru => .plru (fun _ => 0) ways
  | .random => .random ways 123456789

/-- The way goes to the front of the stack. -/
def touch (stack : List Nat) (way : Nat) : List Nat := way :: stack.erase way

/-- The bits of a tree of `ways` ways once `way` is used; full trees start over. -/
def plruBits (ways : Nat) (usage : U64) (way : Nat) : U64 :=
  let mask := (1 : U64) <<< (way % 64)
  let usage := usage ||| mask
  let allOnes := ((1 : U64) <<< (ways % 64)) - 1
  if usage &&& allOnes = allOnes then mask else usage

def xorshift (x : U64) : U64 :=
  let x := x ^^^ (x <<< 13)
  let x := x ^^^ (x >>> 7)
  x ^^^ (x <<< 17)

def update (p : ReplacementPolicy) (set way : Nat) : ReplacementPolicy :=
  match p with
  | .fifo next ways => if next set = way then .fifo (Function.update next set ((next set + 1) % ways)) ways else p
  | .lru usage => .lru (Function.update usage set (touch (usage set) way))
  | .mru usage => .mru (Function.update usage set (touch (usage set) way))
  | .plru usage ways => .plru (Function.update usage set (plruBits ways (usage set) way)) ways
  | .random _ _ => p

def getVictim (p : ReplacementPolicy) (set : Nat) : Nat × ReplacementPolicy :=
  match p with
  | .fifo next _ => (next set, p)
  | .lru usage => ((usage set).getLast?.getD 0, p)
  | .mru usage => ((usage set).head?.getD 0, p)
  | .plru usage ways => (((List.range ways).find? fun i => !(usage set).getLsbD (i % 64)).getD 0, p)
  | .random ways state => ((xorshift state).toNat % ways, .random ways (xorshift state))

/-- What the policy keeps about ways is about the ways there are. -/
def Within (ways : Nat) : ReplacementPolicy → Prop
  | .fifo next ways' => ways' = ways ∧ ∀ set, next set < ways
  | .lru usage => ∀ set, ∀ w ∈ usage set, w < ways
  | .mru usage => ∀ set, ∀ w ∈ usage set, w < ways
  | .plru _ ways' => ways' = ways
  | .random ways' _ => ways' = ways

variable {ways : Nat} {p : ReplacementPolicy}

theorem new_within (h : 0 < ways) (t : PolicyType) : (new ways t).Within ways := by
  cases t with
  | fifo => exact ⟨rfl, fun _ => h⟩
  | random => rfl
  | plru => rfl
  | lru => exact fun _ w hw => List.mem_range.mp hw
  | mru => exact fun _ w hw => List.mem_range.mp hw

theorem touch_within {stack : List Nat} (h : ∀ w ∈ stack, w < ways) {way : Nat} (hw : way < ways) :
    ∀ w ∈ touch stack way, w < ways := by
  intro w hmem
  rcases List.mem_cons.mp hmem with rfl | hmem
  · exact hw
  · exact h w (List.mem_of_mem_erase hmem)

theorem Within.update (h : p.Within ways) (set : Nat) {way : Nat} (hw : way < ways) :
    (p.update set way).Within ways := by
  cases p with
  | fifo next ways' =>
    obtain ⟨rfl, hnext⟩ := h
    simp only [ReplacementPolicy.update]
    by_cases hn : next set = way
    · rw [if_pos hn]
      refine ⟨rfl, fun s => ?_⟩
      by_cases hs : s = set
      · rw [hs, Function.update_self]
        exact Nat.mod_lt _ (by omega)
      · rw [Function.update_of_ne hs]
        exact hnext s
    · rw [if_neg hn]
      exact ⟨rfl, hnext⟩
  | lru usage =>
    intro s w hmem
    by_cases hs : s = set
    · rw [hs, Function.update_self] at hmem
      exact touch_within (h set) hw w hmem
    · rw [Function.update_of_ne hs] at hmem
      exact h s w hmem
  | mru usage =>
    intro s w hmem
    by_cases hs : s = set
    · rw [hs, Function.update_self] at hmem
      exact touch_within (h set) hw w hmem
    · rw [Function.update_of_ne hs] at hmem
      exact h s w hmem
  | plru usage ways' => exact h
  | random ways' state => exact h

theorem Within.getVictim (h : p.Within ways) (set : Nat) : (p.getVictim set).2.Within ways := by
  cases p with
  | random ways' state => exact h
  | _ => exact h

/-- **The victim is a way of the set**, whatever the policy. -/
theorem victim_lt (h : p.Within ways) (hpos : 0 < ways) (set : Nat) : (p.getVictim set).1 < ways := by
  cases p with
  | fifo next ways' => exact h.2 set
  | lru usage =>
    show ((usage set).getLast?.getD 0) < ways
    cases hl : (usage set).getLast? with
    | none => exact hpos
    | some w => exact h set w (List.mem_of_getLast? hl)
  | mru usage =>
    show ((usage set).head?.getD 0) < ways
    cases hl : (usage set).head? with
    | none => exact hpos
    | some w => exact h set w (List.mem_of_head? hl)
  | plru usage ways' =>
    obtain rfl : ways' = ways := h
    show (((List.range ways').find? fun i => !(usage set).getLsbD (i % 64)).getD 0) < ways'
    cases hf : (List.range ways').find? (fun i => !(usage set).getLsbD (i % 64)) with
    | none => exact hpos
    | some w => exact List.mem_range.mp (List.mem_of_find?_eq_some hf)
  | random ways' state =>
    obtain rfl : ways' = ways := h
    exact Nat.mod_lt _ hpos

end ReplacementPolicy

/-! ### Prefetchers -/

class Prefetcher (P : Type) where
  observe : P → (addr : U64) → (hit : Bool) → List U64 × P

structure NextLinePrefetcher where
  lineBytes : Nat
  degree : Nat
  deriving DecidableEq, Repr

def NextLinePrefetcher.new (lineBytes degree : Nat) : NextLinePrefetcher :=
  ⟨lineBytes, if degree = 0 then 1 else degree⟩

instance : Prefetcher NextLinePrefetcher where
  observe p addr _ :=
    ((List.range p.degree).map fun k =>
      (addr &&& ~~~(BitVec.ofNat 64 p.lineBytes - 1)) + BitVec.ofNat 64 (p.lineBytes * (k + 1)), p)

/-- The lines prefetched of late, shared by the levels. -/
structure PrefetchFilter where
  table : List U64
  mask : Nat
  lineBytes : Nat
  deriving DecidableEq, Repr

namespace PrefetchFilter

def new (size lineBytes : Nat) : PrefetchFilter :=
  let line := if lineBytes = 0 then 64 else lineBytes
  if size = 0 then ⟨[], 0, line⟩
  else ⟨List.replicate size.nextPowerOfTwo (BitVec.allOnes 64), size.nextPowerOfTwo - 1, line⟩

def lineAddr (f : PrefetchFilter) (addr : U64) : U64 := addr &&& ~~~(BitVec.ofNat 64 f.lineBytes - 1)

def index (f : PrefetchFilter) (addr : U64) : Nat := ((f.lineAddr addr).toNat >>> 6) &&& f.mask

def contains (f : PrefetchFilter) (addr : U64) : Bool := f.table[f.index addr]? == some (f.lineAddr addr)

def insert (f : PrefetchFilter) (addr : U64) : PrefetchFilter :=
  { f with table := f.table.set (f.index addr) (f.lineAddr addr) }

/-- An address that is not in the filter passes, and goes in. -/
def filterAndRecord (f : PrefetchFilter) : List U64 → List U64 × PrefetchFilter
  | [] => ([], f)
  | addr :: addrs =>
    if f.contains addr then filterAndRecord f addrs
    else
      let (rest, f) := filterAndRecord (f.insert addr) addrs
      (addr :: rest, f)

end PrefetchFilter

/-! ### The cache -/

structure EvictedLine where
  addr : U64
  dirty : Bool
  deriving DecidableEq, Repr

structure CacheLine where
  tag : Nat := 0
  valid : Bool := false
  dirty : Bool := false
  deriving DecidableEq, Repr

/-- A reported line, with the place that was written over and what it held. -/
structure Eviction where
  line : EvictedLine
  set : Nat
  way : Nat
  old : CacheLine
  deriving DecidableEq, Repr

structure CacheConfig where
  enabled : Bool := true
  sizeBytes : Nat := 4096
  lineBytes : Nat := 64
  ways : Nat := 1
  policy : PolicyType := .lru
  latency : Nat := 1
  deriving DecidableEq, Repr

structure CacheSim (P : Type) where
  latency : Nat
  enabled : Bool
  prefetcher : Option P
  lines : Nat → Nat → CacheLine
  numSets : Nat
  ways : Nat
  lineBytes : Nat
  policy : ReplacementPolicy

/-- An operation as the pipeline issues it: prefetch candidates come back through
the shared filter, in whatever state the other levels have left it. -/
inductive CacheOp where
  | access (addr : U64) (isWrite : Bool)
  | accessTracked (addr : U64) (isWrite : Bool)
  | accessTrackedSplit (addr : U64) (isWrite : Bool) (filter : PrefetchFilter)
  | accessCheck (addr : U64) (isWrite : Bool)
  | missCompletion (addr : U64) (isWrite : Bool)
  | installOrReplace (addr : U64) (isWrite : Bool)
  | invalidateLine (addr : U64)
  | flush
  | invalidateAll

namespace CacheSim

variable {P : Type}

def new (config : CacheConfig) (prefetcher : Option P) : CacheSim P :=
  let ways := if config.ways = 0 then 1 else config.ways
  let line := if config.lineBytes = 0 then 64 else config.lineBytes
  let size := if config.sizeBytes = 0 then 4096 else config.sizeBytes
  { latency := config.latency
    enabled := config.enabled
    prefetcher := prefetcher
    lines := fun _ _ => {}
    numSets := size / line / ways
    ways := ways
    lineBytes := line
    policy := .new ways config.policy }

/-- A cache with less than one line to a way has no sets; the source then divides by zero at the first access, and
there are no runs. Here everything is in set `addr.toNat / c.lineBytes`. -/
def setIndex (c : CacheSim P) (addr : U64) : Nat := addr.toNat / c.lineBytes % c.numSets

def tagOf (c : CacheSim P) (addr : U64) : Nat := addr.toNat / (c.lineBytes * c.numSets)

def reconstructAddr (c : CacheSim P) (set tag : Nat) : U64 :=
  BitVec.ofNat 64 (tag * (c.lineBytes * c.numSets) + set * c.lineBytes)

/-- The way holds the tag. -/
def hits (c : CacheSim P) (set tag way : Nat) : Bool := (c.lines set way).valid && (c.lines set way).tag == tag

/-- The first way that holds the line. -/
def findWay (c : CacheSim P) (addr : U64) : Option Nat :=
  (List.range c.ways).find? (c.hits (c.setIndex addr) (c.tagOf addr))

def contains (c : CacheSim P) (addr : U64) : Bool := c.enabled && (c.findWay addr).isSome

def setLine (c : CacheSim P) (set way : Nat) (l : CacheLine) : CacheSim P :=
  { c with lines := Function.update c.lines set (Function.update (c.lines set) way l) }

/-- The line goes into a way of its set. -/
def place (c : CacheSim P) (addr : U64) (isWrite : Bool) (way : Nat) (policy : ReplacementPolicy) : CacheSim P :=
  { c.setLine (c.setIndex addr) way ⟨c.tagOf addr, true, isWrite⟩ with
    policy := policy.update (c.setIndex addr) way }

def installLineTracked (c : CacheSim P) (addr : U64) (isWrite : Bool) (nextLevelLatency : Nat) :
    (Nat × Option Eviction) × CacheSim P :=
  let set := c.setIndex addr
  let (victimWay, policy) := c.policy.getVictim set
  let old := c.lines set victimWay
  let evicted :=
    if old.valid then some ⟨⟨c.reconstructAddr set old.tag, old.dirty⟩, set, victimWay, old⟩ else none
  ((if old.valid && old.dirty then nextLevelLatency else 0, evicted), c.place addr isWrite victimWay policy)

/-- The search of the set: a hit touches the way and, for a write, makes it dirty. -/
def lookup (c : CacheSim P) (addr : U64) (isWrite : Bool) : Bool × CacheSim P :=
  let set := c.setIndex addr
  match c.findWay addr with
  | some way =>
    let l := c.lines set way
    (true, { c.setLine set way { l with dirty := l.dirty || isWrite } with policy := c.policy.update set way })
  | none => (false, c)

/-- The prefetcher sees the access. -/
def observe [Prefetcher P] (c : CacheSim P) (addr : U64) (hit : Bool) : List U64 × CacheSim P :=
  match c.prefetcher with
  | some p =>
    let (targets, p) := Prefetcher.observe p addr hit
    (targets, { c with prefetcher := some p })
  | none => ([], c)

def installPrefetches (c : CacheSim P) (nextLevelLatency : Nat) : List U64 → List Eviction × CacheSim P
  | [] => ([], c)
  | target :: targets =>
    if c.contains target then installPrefetches c nextLevelLatency targets
    else
      let ((_, evicted), c) := c.installLineTracked target false nextLevelLatency
      let (evictions, c) := installPrefetches c nextLevelLatency targets
      (evicted.toList ++ evictions, c)

section

variable [Prefetcher P]

def accessTrackedSplit (c : CacheSim P) (addr : U64) (isWrite : Bool) (nextLevelLatency : Nat) :
    (Bool × Nat × List Eviction × List U64) × CacheSim P :=
  if c.enabled then
    let (hit, c) := c.lookup addr isWrite
    if hit then
      let (prefetches, c) := c.observe addr true
      ((true, 0, [], prefetches), c)
    else
      let ((penalty, evicted), c) := c.installLineTracked addr isWrite nextLevelLatency
      let (prefetches, c) := c.observe addr false
      ((false, penalty, evicted.toList, prefetches), c)
  else ((false, 0, [], []), c)

def accessTracked (c : CacheSim P) (addr : U64) (isWrite : Bool) (nextLevelLatency : Nat) :
    (Bool × Nat × List Eviction) × CacheSim P :=
  let ((hit, penalty, evictions, candidates), c) := c.accessTrackedSplit addr isWrite nextLevelLatency
  let (more, c) := c.installPrefetches nextLevelLatency candidates
  ((hit, penalty, evictions ++ more), c)

def access (c : CacheSim P) (addr : U64) (isWrite : Bool) (nextLevelLatency : Nat) : (Bool × Nat) × CacheSim P :=
  let ((hit, penalty, _, candidates), c) := c.accessTrackedSplit addr isWrite nextLevelLatency
  let (_, c) := c.installPrefetches nextLevelLatency candidates
  ((hit, penalty), c)

def accessCheck (c : CacheSim P) (addr : U64) (isWrite : Bool) : Bool × CacheSim P :=
  if c.enabled then
    let (hit, c) := c.lookup addr isWrite
    let (prefetches, c) := c.observe addr hit
    let (_, c) := c.installPrefetches 0 prefetches
    (hit, c)
  else (false, c)

end

def installLinePublicTracked (c : CacheSim P) (addr : U64) (isWrite : Bool) (nextLevelLatency : Nat) :
    (Nat × Option Eviction) × CacheSim P := c.installLineTracked addr isWrite nextLevelLatency

def invalidateLine (c : CacheSim P) (addr : U64) : Bool × CacheSim P :=
  if c.enabled then
    match c.findWay addr with
    | some way =>
      let l := c.lines (c.setIndex addr) way
      (true, c.setLine (c.setIndex addr) way { l with valid := false, dirty := false })
    | none => (false, c)
  else (false, c)

/-- The first way of the set that holds nothing. -/
def freeWay (c : CacheSim P) (addr : U64) : Option Nat :=
  (List.range c.ways).find? fun i => !(c.lines (c.setIndex addr) i).valid

def installOrReplace (c : CacheSim P) (addr : U64) (isWrite : Bool) (nextLevelLatency : Nat) :
    (Nat × Option Eviction) × CacheSim P :=
  if c.enabled then
    match c.freeWay addr with
    | some way => ((0, none), c.place addr isWrite way c.policy)
    | none => c.installLineTracked addr isWrite nextLevelLatency
  else ((0, none), c)

/-- The dirty lines, set by set. -/
def dirtyLines (c : CacheSim P) : List Eviction :=
  (List.range c.numSets).flatMap fun set => (List.range c.ways).filterMap fun way =>
    let l := c.lines set way
    if l.valid && l.dirty then some ⟨⟨c.reconstructAddr set l.tag, true⟩, set, way, l⟩ else none

def flush (c : CacheSim P) : List Eviction × CacheSim P :=
  if c.enabled then
    (c.dirtyLines, { c with lines := fun set way =>
      let l := c.lines set way
      if l.valid && l.dirty then { l with valid := false, dirty := false } else l })
  else ([], c)

def invalidateAll (c : CacheSim P) : List Eviction × CacheSim P :=
  if c.enabled then
    (c.dirtyLines, { c with lines := fun set way =>
      let l := c.lines set way
      if l.valid then { l with valid := false, dirty := false } else l })
  else ([], c)

/-! ### Lines -/

/-- Some way of the set holds the line of the address. -/
def Holds (c : CacheSim P) (addr : U64) : Prop :=
  ∃ w < c.ways, c.hits (c.setIndex addr) (c.tagOf addr) w = true

/-- No two ways of a set hold the same line. -/
def Unique (c : CacheSim P) : Prop :=
  ∀ set tag, ∀ w < c.ways, ∀ w' < c.ways, c.hits set tag w = true → c.hits set tag w' = true → w = w'

/-- Every line in the cache is the line of an address. -/
structure Sound (c : CacheSim P) : Prop where
  line_pos : 0 < c.lineBytes
  ways_pos : 0 < c.ways
  within : c.policy.Within c.ways
  named : ∀ set tag, ∀ w < c.ways, c.hits set tag w = true → ∃ addr, c.setIndex addr = set ∧ c.tagOf addr = tag

/-- The report names the line that was replaced by its base address. -/
def Names (c : CacheSim P) (e : Eviction) : Prop :=
  e.old.valid = true ∧ e.line.dirty = e.old.dirty ∧
    ∃ addr, c.setIndex addr = e.set ∧ c.tagOf addr = e.old.tag ∧
      e.line.addr.toNat = addr.toNat / c.lineBytes * c.lineBytes

/-- The caches have the same sets and ways. -/
structure SameShape (c c' : CacheSim P) : Prop where
  enabled : c'.enabled = c.enabled
  numSets : c'.numSets = c.numSets
  ways : c'.ways = c.ways
  lineBytes : c'.lineBytes = c.lineBytes

/-- The second cache holds nothing that the first does not hold in the same way. -/
structure Shrinks (c c' : CacheSim P) : Prop extends SameShape c c' where
  within : c.policy.Within c.ways → c'.policy.Within c'.ways
  hits : ∀ set tag w, c'.hits set tag w = true → c.hits set tag w = true

variable {c c' c'' : CacheSim P}

theorem hits_iff {set tag w : Nat} :
    c.hits set tag w = true ↔ (c.lines set w).valid = true ∧ (c.lines set w).tag = tag := by
  rw [hits, Bool.and_eq_true, beq_iff_eq]

/-- Two addresses have one set and tag just when they lie in one line. -/
theorem same_line_iff {a b : U64} :
    c.setIndex a = c.setIndex b ∧ c.tagOf a = c.tagOf b ↔ a.toNat / c.lineBytes = b.toNat / c.lineBytes := by
  unfold setIndex tagOf
  rw [← Nat.div_div_eq_div_mul, ← Nat.div_div_eq_div_mul]
  constructor
  · rintro ⟨hs, ht⟩
    rw [← Nat.div_add_mod (a.toNat / c.lineBytes) c.numSets,
        ← Nat.div_add_mod (b.toNat / c.lineBytes) c.numSets, hs, ht]
  · intro h
    rw [h]
    exact ⟨rfl, rfl⟩

/-- The set and the tag of an address give back the base of its line. -/
theorem reconstructAddr_toNat (a : U64) :
    (c.reconstructAddr (c.setIndex a) (c.tagOf a)).toNat = a.toNat / c.lineBytes * c.lineBytes := by
  have hsum : c.tagOf a * (c.lineBytes * c.numSets) + c.setIndex a * c.lineBytes =
      a.toNat / c.lineBytes * c.lineBytes := by
    unfold setIndex tagOf
    rw [← Nat.div_div_eq_div_mul, Nat.mul_comm c.lineBytes c.numSets, ← Nat.mul_assoc, ← Nat.add_mul,
      Nat.div_add_mod']
  unfold reconstructAddr
  rw [BitVec.toNat_ofNat, hsum]
  apply Nat.mod_eq_of_lt
  exact lt_of_le_of_lt (Nat.div_mul_le_self _ _) a.isLt

theorem findWay_some {addr : U64} {w : Nat} (h : c.findWay addr = some w) :
    w < c.ways ∧ c.hits (c.setIndex addr) (c.tagOf addr) w = true := by
  have hp := List.find?_some h
  have hmem := List.mem_of_find?_eq_some h
  exact ⟨List.mem_range.mp hmem, hp⟩

theorem findWay_none {addr : U64} (h : c.findWay addr = none) {w : Nat} (hw : w < c.ways) :
    c.hits (c.setIndex addr) (c.tagOf addr) w = false := by
  have hn := List.find?_eq_none.mp h w (List.mem_range.mpr hw)
  simpa using hn

theorem findWay_isSome_iff {addr : U64} : (c.findWay addr).isSome = true ↔ c.Holds addr := by
  cases hf : c.findWay addr with
  | none =>
    simp only [Option.isSome_none, Bool.false_eq_true, false_iff]
    rintro ⟨w, hw, hhit⟩
    rw [findWay_none hf hw] at hhit
    exact absurd hhit Bool.false_ne_true
  | some w =>
    simp only [Option.isSome_some, true_iff]
    exact ⟨w, findWay_some hf⟩

/-! ### Shapes -/

namespace SameShape

theorem refl (c : CacheSim P) : SameShape c c := ⟨rfl, rfl, rfl, rfl⟩

theorem trans (h : SameShape c c') (h' : SameShape c' c'') : SameShape c c'' :=
  ⟨h'.enabled.trans h.enabled, h'.numSets.trans h.numSets, h'.ways.trans h.ways, h'.lineBytes.trans h.lineBytes⟩

theorem setIndex (h : SameShape c c') (addr : U64) : c'.setIndex addr = c.setIndex addr := by
  unfold CacheSim.setIndex
  rw [h.lineBytes, h.numSets]

theorem tagOf (h : SameShape c c') (addr : U64) : c'.tagOf addr = c.tagOf addr := by
  unfold CacheSim.tagOf
  rw [h.lineBytes, h.numSets]

theorem names (h : SameShape c c') {e : Eviction} (hn : c'.Names e) : c.Names e := by
  obtain ⟨hv, hd, a, hs, ht, ha⟩ := hn
  refine ⟨hv, hd, a, ?_, ?_, ?_⟩
  · rw [← h.setIndex, hs]
  · rw [← h.tagOf, ht]
  · rw [← h.lineBytes, ha]

end SameShape

namespace Shrinks

theorem refl (c : CacheSim P) : Shrinks c c := ⟨.refl c, id, fun _ _ _ => id⟩

theorem trans (h : Shrinks c c') (h' : Shrinks c' c'') : Shrinks c c'' :=
  ⟨h.toSameShape.trans h'.toSameShape, fun hw => h'.within (h.within hw),
    fun set tag w hh => h.hits set tag w (h'.hits set tag w hh)⟩

theorem unique (h : Shrinks c c') (hu : c.Unique) : c'.Unique := by
  intro set tag w hw w' hw' hh hh'
  rw [h.ways] at hw hw'
  exact hu set tag w hw w' hw' (h.hits _ _ _ hh) (h.hits _ _ _ hh')

theorem sound (h : Shrinks c c') (hs : c.Sound) : c'.Sound := by
  refine ⟨h.lineBytes ▸ hs.line_pos, h.ways ▸ hs.ways_pos, h.within hs.within, fun set tag w hw hh => ?_⟩
  rw [h.ways] at hw
  obtain ⟨a, ha, ha'⟩ := hs.named set tag w hw (h.hits _ _ _ hh)
  exact ⟨a, by rw [h.setIndex, ha], by rw [h.tagOf, ha']⟩

end Shrinks

/-! ### One line goes in -/

theorem setLine_lines (c : CacheSim P) (set way : Nat) (l : CacheLine) (s w : Nat) :
    (c.setLine set way l).lines s w = if s = set ∧ w = way then l else c.lines s w := by
  simp only [setLine]
  by_cases hs : s = set
  · rw [hs, Function.update_self]
    by_cases hw : w = way
    · rw [hw, Function.update_self, if_pos ⟨rfl, rfl⟩]
    · rw [Function.update_of_ne hw, if_neg fun h => hw h.2]
  · rw [Function.update_of_ne hs, if_neg fun h => hs h.1]

variable {addr : U64} {isWrite : Bool} {way : Nat} {policy : ReplacementPolicy}

theorem place_shape (c : CacheSim P) (addr : U64) (isWrite : Bool) (way : Nat) (policy : ReplacementPolicy) :
    SameShape c (c.place addr isWrite way policy) := ⟨rfl, rfl, rfl, rfl⟩

/-- The way written holds the new line, every other way what it held. -/
theorem place_hits_iff {set tag w : Nat} :
    (c.place addr isWrite way policy).hits set tag w = true ↔
      if set = c.setIndex addr ∧ w = way then tag = c.tagOf addr else c.hits set tag w = true := by
  have hlines : (c.place addr isWrite way policy).lines set w =
      if set = c.setIndex addr ∧ w = way then ⟨c.tagOf addr, true, isWrite⟩ else c.lines set w :=
    setLine_lines c _ way _ set w
  rw [hits_iff, hlines]
  by_cases h : set = c.setIndex addr ∧ w = way
  · rw [if_pos h, if_pos h]
    exact ⟨fun hh => hh.2.symm, fun hh => ⟨rfl, hh.symm⟩⟩
  · rw [if_neg h, if_neg h, hits_iff]

theorem Sound.place (hs : c.Sound) (hp : policy.Within c.ways) (hw : way < c.ways) :
    (c.place addr isWrite way policy).Sound := by
  refine ⟨hs.line_pos, hs.ways_pos, hp.update _ hw, fun set tag w hw' hh => ?_⟩
  have hshape := place_shape c addr isWrite way policy
  rw [place_hits_iff] at hh
  by_cases h : set = c.setIndex addr ∧ w = way
  · rw [if_pos h] at hh
    exact ⟨addr, by rw [hshape.setIndex, h.1], by rw [hshape.tagOf, hh]⟩
  · rw [if_neg h] at hh
    obtain ⟨a, ha, ha'⟩ := hs.named set tag w hw' hh
    exact ⟨a, by rw [hshape.setIndex, ha], by rw [hshape.tagOf, ha']⟩

/-- **A line that goes in stays single just when no other way holds it.** -/
theorem unique_place_iff (hu : c.Unique) (hway : way < c.ways) :
    (c.place addr isWrite way policy).Unique ↔
      ∀ w < c.ways, c.hits (c.setIndex addr) (c.tagOf addr) w = true → w = way := by
  constructor
  · intro h w hw hh
    by_contra hne
    refine hne (h (c.setIndex addr) (c.tagOf addr) w hw way hway ?_ ?_)
    · rw [place_hits_iff, if_neg fun hc => hne hc.2]
      exact hh
    · rw [place_hits_iff, if_pos ⟨rfl, rfl⟩]
  · intro h set tag w hw w' hw' hh hh'
    rw [place_hits_iff] at hh hh'
    by_cases hc : set = c.setIndex addr ∧ w = way <;> by_cases hc' : set = c.setIndex addr ∧ w' = way
    · rw [hc.2, hc'.2]
    -- the other way held the line before
    · rw [if_pos hc] at hh
      rw [if_neg hc', hc.1, hh] at hh'
      rw [hc.2, h w' hw' hh']
    · rw [if_pos hc'] at hh'
      rw [if_neg hc, hc'.1, hh'] at hh
      rw [hc'.2, h w hw hh]
    · rw [if_neg hc] at hh
      rw [if_neg hc'] at hh'
      exact hu set tag w hw w' hw' hh hh'

/-! ### The ways into the cache -/

/-- The way that the policy gives up. -/
def victim (c : CacheSim P) (addr : U64) : Nat := (c.policy.getVictim (c.setIndex addr)).1

/-- The way that an install of an evicted line writes: a free one, or else the victim. -/
def written (c : CacheSim P) (addr : U64) : Nat := (c.freeWay addr).getD (c.victim addr)

theorem Sound.victim_lt (hs : c.Sound) (addr : U64) : c.victim addr < c.ways :=
  ReplacementPolicy.victim_lt hs.within hs.ways_pos _

theorem Sound.written_lt (hs : c.Sound) (addr : U64) : c.written addr < c.ways := by
  unfold written
  cases hf : c.freeWay addr with
  | none => exact hs.victim_lt addr
  | some w => exact List.mem_range.mp (List.mem_of_find?_eq_some hf)

variable {lat : Nat}

theorem install_eq (c : CacheSim P) (addr : U64) (isWrite : Bool) (lat : Nat) :
    (c.installLineTracked addr isWrite lat).2 =
      c.place addr isWrite (c.victim addr) (c.policy.getVictim (c.setIndex addr)).2 := rfl

theorem install_shape (c : CacheSim P) (addr : U64) (isWrite : Bool) (lat : Nat) :
    SameShape c (c.installLineTracked addr isWrite lat).2 := place_shape c _ _ _ _

theorem Sound.install (hs : c.Sound) (addr : U64) (isWrite : Bool) (lat : Nat) :
    (c.installLineTracked addr isWrite lat).2.Sound :=
  hs.place (hs.within.getVictim _) (hs.victim_lt addr)

/-- A line that is not there goes in beside lines that stay single. -/
theorem unique_install (hs : c.Sound) (hu : c.Unique) (hf : c.findWay addr = none) (isWrite : Bool) (lat : Nat) :
    (c.installLineTracked addr isWrite lat).2.Unique := by
  rw [install_eq, unique_place_iff hu (hs.victim_lt addr)]
  intro w hw hh
  rw [findWay_none hf hw] at hh
  exact absurd hh Bool.false_ne_true

/-- **What an install reports is the line it wrote over**, under its base address. -/
theorem install_names (hs : c.Sound) {e : Eviction} (he : (c.installLineTracked addr isWrite lat).1.2 = some e) :
    c.Names e ∧ e.set = c.setIndex addr ∧ e.way = c.victim addr ∧ e.old = c.lines e.set e.way := by
  have heq : (c.installLineTracked addr isWrite lat).1.2 =
      if (c.lines (c.setIndex addr) (c.victim addr)).valid = true then
        some ⟨⟨c.reconstructAddr (c.setIndex addr) (c.lines (c.setIndex addr) (c.victim addr)).tag,
          (c.lines (c.setIndex addr) (c.victim addr)).dirty⟩, c.setIndex addr, c.victim addr,
          c.lines (c.setIndex addr) (c.victim addr)⟩
      else none := rfl
  rw [heq] at he
  by_cases hv : (c.lines (c.setIndex addr) (c.victim addr)).valid = true
  · rw [if_pos hv] at he
    obtain rfl := Option.some.inj he
    refine ⟨⟨hv, rfl, ?_⟩, rfl, rfl, rfl⟩
    obtain ⟨a, ha, ha'⟩ := hs.named _ _ _ (hs.victim_lt addr) (hits_iff.mpr ⟨hv, rfl⟩)
    refine ⟨a, ha, ha', ?_⟩
    show (c.reconstructAddr (c.setIndex addr) (c.lines (c.setIndex addr) (c.victim addr)).tag).toNat = _
    rw [← ha', ← ha]
    exact reconstructAddr_toNat a
  · rw [if_neg hv] at he
    exact absurd he (by simp)

/-- What the lines of a set keep of a way that is touched. -/
theorem shrinks_setLine {set : Nat} {l : CacheLine} {policy : ReplacementPolicy}
    (hp : c.policy.Within c.ways → policy.Within c.ways)
    (hl : l.valid = true → (c.lines set way).valid = true ∧ l.tag = (c.lines set way).tag) :
    Shrinks c { c.setLine set way l with policy := policy } := by
  refine ⟨⟨rfl, rfl, rfl, rfl⟩, hp, fun s tag w hh => ?_⟩
  have hlines : ({ c.setLine set way l with policy := policy } : CacheSim P).lines s w =
      if s = set ∧ w = way then l else c.lines s w := setLine_lines c set way l s w
  rw [hits_iff, hlines] at hh
  rw [hits_iff]
  by_cases h : s = set ∧ w = way
  · rw [if_pos h] at hh
    obtain ⟨hv, ht⟩ := hl hh.1
    rw [h.1, h.2]
    exact ⟨hv, ht.symm.trans hh.2⟩
  · rw [if_neg h] at hh
    exact hh

theorem lookup_fst (c : CacheSim P) (addr : U64) (isWrite : Bool) :
    (c.lookup addr isWrite).1 = (c.findWay addr).isSome := by
  unfold lookup
  cases hf : c.findWay addr with
  | none => rfl
  | some w => rfl

theorem lookup_miss (hf : c.findWay addr = none) : c.lookup addr isWrite = (false, c) := by
  unfold lookup
  rw [hf]

theorem lookup_shrinks (c : CacheSim P) (addr : U64) (isWrite : Bool) : Shrinks c (c.lookup addr isWrite).2 := by
  unfold lookup
  cases hf : c.findWay addr with
  | none => exact .refl c
  | some w => exact shrinks_setLine (fun hp => hp.update _ (findWay_some hf).1) fun hv => ⟨hv, rfl⟩

theorem observe_shrinks [Prefetcher P] (c : CacheSim P) (addr : U64) (hit : Bool) :
    Shrinks c (c.observe addr hit).2 := by
  unfold observe
  cases c.prefetcher with
  | none => exact .refl c
  | some p => exact ⟨⟨rfl, rfl, rfl, rfl⟩, id, fun _ _ _ => id⟩

theorem invalidateLine_shrinks (c : CacheSim P) (addr : U64) : Shrinks c (c.invalidateLine addr).2 := by
  unfold invalidateLine
  by_cases he : c.enabled = true
  · rw [if_pos he]
    cases hf : c.findWay addr with
    | none => exact .refl c
    | some w => exact shrinks_setLine id fun hv => absurd hv Bool.false_ne_true
  · rw [if_neg he]
    exact .refl c

theorem flush_shrinks (c : CacheSim P) : Shrinks c c.flush.2 := by
  unfold flush
  by_cases he : c.enabled = true
  · rw [if_pos he]
    refine ⟨⟨rfl, rfl, rfl, rfl⟩, id, fun set tag w hh => ?_⟩
    rw [hits_iff] at hh ⊢
    dsimp only at hh
    by_cases hd : ((c.lines set w).valid && (c.lines set w).dirty) = true
    · rw [if_pos hd] at hh
      exact absurd hh.1 Bool.false_ne_true
    · rw [if_neg hd] at hh
      exact hh
  · rw [if_neg he]
    exact .refl c

theorem invalidateAll_shrinks (c : CacheSim P) : Shrinks c c.invalidateAll.2 := by
  unfold invalidateAll
  by_cases he : c.enabled = true
  · rw [if_pos he]
    refine ⟨⟨rfl, rfl, rfl, rfl⟩, id, fun set tag w hh => ?_⟩
    rw [hits_iff] at hh ⊢
    dsimp only at hh
    by_cases hv : (c.lines set w).valid = true
    · rw [if_pos hv] at hh
      exact absurd hh.1 Bool.false_ne_true
    · rw [if_neg hv] at hh
      exact hh
  · rw [if_neg he]
    exact .refl c

theorem dirtyLines_names (hs : c.Sound) {e : Eviction} (he : e ∈ c.dirtyLines) : c.Names e := by
  unfold dirtyLines at he
  obtain ⟨set, -, he⟩ := List.mem_flatMap.mp he
  obtain ⟨w, hw, he⟩ := List.mem_filterMap.mp he
  dsimp only at he
  by_cases hd : ((c.lines set w).valid && (c.lines set w).dirty) = true
  · rw [if_pos hd] at he
    obtain rfl := Option.some.inj he
    rw [Bool.and_eq_true] at hd
    refine ⟨hd.1, hd.2.symm, ?_⟩
    obtain ⟨a, ha, ha'⟩ := hs.named set _ w (List.mem_range.mp hw) (hits_iff.mpr ⟨hd.1, rfl⟩)
    refine ⟨a, ha, ha', ?_⟩
    show (c.reconstructAddr set (c.lines set w).tag).toNat = _
    rw [← ha', ← ha]
    exact reconstructAddr_toNat a
  · rw [if_neg hd] at he
    exact absurd he (by simp)

/-! ### What the cache keeps -/

/-- What a way into the cache keeps: the shape, named and single lines, and true reports. -/
structure Keeps (c : CacheSim P) (r : List Eviction × CacheSim P) : Prop where
  shape : SameShape c r.2
  sound : c.Sound → r.2.Sound
  unique : c.Sound → c.Unique → r.2.Unique
  names : c.Sound → ∀ e ∈ r.1, c.Names e

theorem Shrinks.keeps (h : Shrinks c c') : Keeps c ([], c') :=
  ⟨h.toSameShape, h.sound, fun _ => h.unique, fun _ _ he => absurd he (List.not_mem_nil)⟩

theorem Keeps.append {evs evs' : List Eviction} (h : Keeps c (evs, c')) (h' : Keeps c' (evs', c'')) :
    Keeps c (evs ++ evs', c'') := by
  refine ⟨h.shape.trans h'.shape, fun hs => h'.sound (h.sound hs), fun hs hu => h'.unique (h.sound hs) (h.unique hs hu),
    fun hs e he => ?_⟩
  rcases List.mem_append.mp he with he | he
  · exact h.names hs e he
  · exact h.shape.names (h'.names (h.sound hs) e he)

theorem Keeps.quiet {evs : List Eviction} (h : Keeps c (evs, c')) : Keeps c ([], c') :=
  ⟨h.shape, h.sound, h.unique, fun _ _ he => absurd he List.not_mem_nil⟩

theorem keeps_install (hf : c.findWay addr = none) (isWrite : Bool) (lat : Nat) :
    Keeps c ((c.installLineTracked addr isWrite lat).1.2.toList, (c.installLineTracked addr isWrite lat).2) :=
  ⟨install_shape c addr isWrite lat, fun hs => hs.install addr isWrite lat,
    fun hs hu => unique_install hs hu hf isWrite lat, fun hs _ he => (install_names hs (Option.mem_toList.mp he)).1⟩

theorem findWay_of_not_contains (he : c.enabled = true) (h : ¬ c.contains addr = true) : c.findWay addr = none := by
  unfold contains at h
  rw [he, Bool.true_and] at h
  exact Option.not_isSome_iff_eq_none.mp h

theorem keeps_installPrefetches (he : c.enabled = true) (lat : Nat) (targets : List U64) :
    Keeps c (c.installPrefetches lat targets) := by
  induction targets generalizing c with
  | nil => exact (Shrinks.refl c).keeps
  | cons target targets ih =>
    unfold installPrefetches
    by_cases hc : c.contains target = true
    · rw [if_pos hc]
      exact ih he
    · rw [if_neg hc]
      have hk := keeps_install (findWay_of_not_contains he hc) false lat
      exact hk.append (ih (hk.shape.enabled.trans he))

section Accesses

variable [Prefetcher P]

/-- The part of an access before the prefetches. -/
theorem keeps_accessTrackedSplit (c : CacheSim P) (addr : U64) (isWrite : Bool) (lat : Nat) :
    Keeps c ((c.accessTrackedSplit addr isWrite lat).1.2.2.1, (c.accessTrackedSplit addr isWrite lat).2) := by
  unfold accessTrackedSplit
  by_cases he : c.enabled = true
  · rw [if_pos he]
    cases hf : c.findWay addr with
    | none =>
      rw [lookup_miss hf]
      have hk := (keeps_install hf isWrite lat).append (observe_shrinks _ addr false).keeps
      rw [List.append_nil] at hk
      exact hk
    | some w =>
      have hhit : (c.lookup addr isWrite).1 = true := by rw [lookup_fst, hf]; rfl
      dsimp only
      rw [if_pos hhit]
      exact ((lookup_shrinks c addr isWrite).trans (observe_shrinks _ addr true)).keeps
  · rw [if_neg he]
    exact (Shrinks.refl c).keeps

theorem split_disabled (he : ¬ c.enabled = true) :
    c.accessTrackedSplit addr isWrite lat = ((false, 0, [], []), c) := by
  unfold accessTrackedSplit
  rw [if_neg he]

/-- An access whose prefetches have gone through a filter. -/
theorem keeps_split (c : CacheSim P) (addr : U64) (isWrite : Bool) (lat lat' : Nat) (pass : List U64 → List U64)
    (hpass : pass [] = []) :
    Keeps c ((c.accessTrackedSplit addr isWrite lat).1.2.2.1 ++
        ((c.accessTrackedSplit addr isWrite lat).2.installPrefetches lat'
          (pass (c.accessTrackedSplit addr isWrite lat).1.2.2.2)).1,
      ((c.accessTrackedSplit addr isWrite lat).2.installPrefetches lat'
        (pass (c.accessTrackedSplit addr isWrite lat).1.2.2.2)).2) := by
  have hk := keeps_accessTrackedSplit c addr isWrite lat
  by_cases he : c.enabled = true
  · exact hk.append (keeps_installPrefetches (hk.shape.enabled.trans he) lat' _)
  · rw [split_disabled he]
    dsimp only
    rw [hpass]
    exact (Shrinks.refl c).keeps

theorem keeps_accessCheck (c : CacheSim P) (addr : U64) (isWrite : Bool) :
    Keeps c ([], (c.accessCheck addr isWrite).2) := by
  unfold accessCheck
  by_cases he : c.enabled = true
  · rw [if_pos he]
    have hsh := (lookup_shrinks c addr isWrite).trans (observe_shrinks _ addr (c.lookup addr isWrite).1)
    have hp := hsh.keeps.append (keeps_installPrefetches (hsh.enabled.trans he) 0
      ((c.lookup addr isWrite).2.observe addr (c.lookup addr isWrite).1).1)
    exact hp.quiet
  · rw [if_neg he]
    exact (Shrinks.refl c).keeps

end Accesses

theorem keeps_flush (c : CacheSim P) : Keeps c c.flush := by
  have hsh := flush_shrinks c
  refine ⟨hsh.toSameShape, hsh.sound, fun _ => hsh.unique, fun hs e he => ?_⟩
  unfold flush at he
  by_cases hen : c.enabled = true
  · rw [if_pos hen] at he
    exact dirtyLines_names hs he
  · rw [if_neg hen] at he
    exact absurd he List.not_mem_nil

theorem keeps_invalidateAll (c : CacheSim P) : Keeps c c.invalidateAll := by
  have hsh := invalidateAll_shrinks c
  refine ⟨hsh.toSameShape, hsh.sound, fun _ => hsh.unique, fun hs e he => ?_⟩
  unfold invalidateAll at he
  by_cases hen : c.enabled = true
  · rw [if_pos hen] at he
    exact dirtyLines_names hs he
  · rw [if_neg hen] at he
    exact absurd he List.not_mem_nil

/-- An install of an evicted line writes the free way or the victim. -/
theorem installOrReplace_eq (he : c.enabled = true) (addr : U64) (isWrite : Bool) (lat : Nat) :
    ∃ policy : ReplacementPolicy, (c.policy.Within c.ways → policy.Within c.ways) ∧
      (c.installOrReplace addr isWrite lat).2 = c.place addr isWrite (c.written addr) policy := by
  unfold installOrReplace written
  rw [if_pos he]
  cases hf : c.freeWay addr with
  | none => exact ⟨(c.policy.getVictim (c.setIndex addr)).2, fun h => h.getVictim _, rfl⟩
  | some w => exact ⟨c.policy, id, rfl⟩

theorem installOrReplace_names (hs : c.Sound) {e : Eviction} (he : (c.installOrReplace addr isWrite lat).1.2 = some e) :
    c.Names e := by
  unfold installOrReplace at he
  by_cases hen : c.enabled = true
  · rw [if_pos hen] at he
    cases hf : c.freeWay addr with
    | none =>
      rw [hf] at he
      exact (install_names hs he).1
    | some w =>
      rw [hf] at he
      exact absurd he (by simp)
  · rw [if_neg hen] at he
    exact absurd he (by simp)

theorem new_sound (config : CacheConfig) (prefetcher : Option P) : (new config prefetcher).Sound := by
  have hline : 0 < (new config prefetcher).lineBytes := by
    simp only [new]
    by_cases h : config.lineBytes = 0
    · rw [if_pos h]; omega
    · rw [if_neg h]; omega
  have hways : 0 < (new config prefetcher).ways := by
    simp only [new]
    by_cases h : config.ways = 0
    · rw [if_pos h]; omega
    · rw [if_neg h]; omega
  exact ⟨hline, hways, ReplacementPolicy.new_within hways _,
      fun _ _ _ _ hh => absurd (hits_iff.mp hh).1 Bool.false_ne_true⟩

theorem new_unique (config : CacheConfig) (prefetcher : Option P) : (new config prefetcher).Unique :=
  fun _ _ _ _ _ _ hh _ => absurd (hits_iff.mp hh).1 Bool.false_ne_true

/-! ### Runs -/

section Steps

variable [Prefetcher P]

def step (c : CacheSim P) : CacheOp → List Eviction × CacheSim P
  | .access addr isWrite => ([], (c.access addr isWrite 0).2)
  | .accessTracked addr isWrite => ((c.accessTracked addr isWrite 0).1.2.2, (c.accessTracked addr isWrite 0).2)
  | .accessTrackedSplit addr isWrite filter =>
    let ((_, _, evictions, candidates), c) := c.accessTrackedSplit addr isWrite 0
    let (more, c) := c.installPrefetches 0 (filter.filterAndRecord candidates).1
    (evictions ++ more, c)
  | .accessCheck addr isWrite => ([], (c.accessCheck addr isWrite).2)
  | .missCompletion addr isWrite =>
    let ((_, evicted), c) := c.installLinePublicTracked addr isWrite 0
    (evicted.toList, c)
  | .installOrReplace addr isWrite =>
    let ((_, evicted), c) := c.installOrReplace addr isWrite 0
    (evicted.toList, c)
  | .invalidateLine addr => ([], (c.invalidateLine addr).2)
  | .flush => c.flush
  | .invalidateAll => c.invalidateAll

/-- The line that a completed miss or an evicted line puts in is in no way but
the one written over. -/
def Fresh (c : CacheSim P) : CacheOp → Prop
  | .missCompletion addr _ => ∀ w < c.ways, c.hits (c.setIndex addr) (c.tagOf addr) w = true → w = c.victim addr
  | .installOrReplace addr _ =>
    c.enabled = true → ∀ w < c.ways, c.hits (c.setIndex addr) (c.tagOf addr) w = true → w = c.written addr
  | _ => True

theorem access_keeps (c : CacheSim P) (addr : U64) (isWrite : Bool) : Keeps c (c.step (.accessTracked addr isWrite)) :=
  keeps_split c addr isWrite 0 0 id rfl

/-- **One operation keeps the cache sound and its reports true**, and lines
single just when what it puts in is fresh. -/
theorem step_spec (op : CacheOp) (hs : c.Sound) :
    (c.step op).2.Sound ∧ (∀ e ∈ (c.step op).1, c.Names e) ∧ (c.Unique → ((c.step op).2.Unique ↔ c.Fresh op)) := by
  have keeps : Keeps c (c.step op) → c.Fresh op →
      (c.step op).2.Sound ∧ (∀ e ∈ (c.step op).1, c.Names e) ∧ (c.Unique → ((c.step op).2.Unique ↔ c.Fresh op)) :=
    fun hk hf => ⟨hk.sound hs, hk.names hs, fun hu => ⟨fun _ => hf, fun _ => hk.unique hs hu⟩⟩
  cases op with
  | access addr isWrite => exact keeps (access_keeps c addr isWrite).quiet trivial
  | accessTracked addr isWrite => exact keeps (access_keeps c addr isWrite) trivial
  | accessTrackedSplit addr isWrite filter =>
    exact keeps (keeps_split c addr isWrite 0 0 (fun l => (filter.filterAndRecord l).1) rfl) trivial
  | accessCheck addr isWrite => exact keeps (keeps_accessCheck c addr isWrite) trivial
  | missCompletion addr isWrite =>
    have hnames : ∀ e ∈ (c.installLineTracked addr isWrite 0).1.2.toList, c.Names e :=
      fun e he => (install_names hs (Option.mem_toList.mp he)).1
    exact ⟨hs.install addr isWrite 0, hnames, fun hu => unique_place_iff hu (hs.victim_lt addr)⟩
  | installOrReplace addr isWrite =>
    have hnames : ∀ e ∈ (c.installOrReplace addr isWrite 0).1.2.toList, c.Names e :=
      fun e he => installOrReplace_names hs (Option.mem_toList.mp he)
    by_cases he : c.enabled = true
    · obtain ⟨policy, hp, heq⟩ := installOrReplace_eq he addr isWrite 0
      have hstep : (c.step (.installOrReplace addr isWrite)).2 = c.place addr isWrite (c.written addr) policy := heq
      rw [hstep]
      refine ⟨hs.place (hp hs.within) (hs.written_lt addr), hnames, fun hu => ?_⟩
      rw [unique_place_iff hu (hs.written_lt addr)]
      exact ⟨fun h _ => h, fun h => h he⟩
    · have hstep : (c.step (.installOrReplace addr isWrite)).2 = c := by
        show (c.installOrReplace addr isWrite 0).2 = c
        unfold installOrReplace
        rw [if_neg he]
      rw [hstep]
      exact ⟨hs, hnames, fun hu => ⟨fun _ hen => absurd hen he, fun _ => hu⟩⟩
  | invalidateLine addr => exact keeps (invalidateLine_shrinks c addr).keeps trivial
  | flush => exact keeps (keeps_flush c) trivial
  | invalidateAll => exact keeps (keeps_invalidateAll c) trivial

/-- The cache after a sequence of operations. -/
def after (c : CacheSim P) (ops : List CacheOp) : CacheSim P := ops.foldl (fun c op => (c.step op).2) c

/-- A property of every operation, at the cache it meets. -/
def Throughout (c : CacheSim P) (ops : List CacheOp) (Q : CacheSim P → CacheOp → Prop) : Prop :=
  ∀ pre op post, ops = pre ++ op :: post → Q (c.after pre) op

theorem after_snoc (c : CacheSim P) (ops : List CacheOp) (op : CacheOp) :
    c.after (ops ++ [op]) = ((c.after ops).step op).2 := by
  unfold after
  rw [List.foldl_append]
  rfl

theorem Sound.after (hs : c.Sound) (ops : List CacheOp) : (c.after ops).Sound := by
  induction ops using List.reverseRecOn with
  | nil => exact hs
  | append_singleton ops op ih =>
    rw [after_snoc]
    exact (step_spec op ih).1

/-- **Every line stays single just when every line put in unseen is fresh**;
the reports are true either way. -/
theorem unique_iff (config : CacheConfig) (prefetcher : Option P) (ops : List CacheOp) :
    ((∀ pre, pre <+: ops → ((new config prefetcher).after pre).Unique) ∧
      (new config prefetcher).Throughout ops fun c op => ∀ e ∈ (c.step op).1, c.Names e) ↔
    (new config prefetcher).Throughout ops Fresh := by
  have hsound : ∀ pre, ((new config prefetcher).after pre).Sound := (new_sound config prefetcher).after
  constructor
  · rintro ⟨hu, -⟩ pre op post rfl
    have h := hu pre (List.prefix_append _ _)
    have h' := hu (pre ++ [op]) ⟨post, List.append_assoc _ _ _⟩
    rw [after_snoc] at h'
    exact ((step_spec op (hsound pre)).2.2 h).mp h'
  · intro hf
    refine ⟨fun pre hpre => ?_, fun pre op _ _ => (step_spec op (hsound pre)).2.1⟩
    induction pre using List.reverseRecOn with
    | nil => exact new_unique config prefetcher
    | append_singleton pre op ih =>
      obtain ⟨post, rfl⟩ := hpre
      rw [after_snoc]
      have hfresh := hf pre op post (List.append_assoc _ _ _)
      have hprev := ih ⟨op :: post, (List.append_assoc pre [op] post).symm⟩
      exact ((step_spec op (hsound pre)).2.2 hprev).mpr hfresh

end Steps

/-! ### A miss that a prefetch has overtaken -/

/-- Two ways, 64-byte lines, two sets, and the next line prefetched. -/
def smallL1d : CacheSim NextLinePrefetcher :=
  new { sizeBytes := 256, ways := 2 } (some (.new 64 1))

/-- The loads of two lines in a row, the second first: both miss, the prefetch of
the second brings the first in, and the first's fill comes back. -/
def overtaken : List CacheOp :=
  let mshrs := ((MshrFile.new 4 64).request 0x80000080 false 10 0 ⟨0, none⟩).2
  [.accessCheck 0x80000080 false, .accessCheck 0x80000040 false] ++
    (mshrs.drainCompletions 10).1.map fun m => .missCompletion m.lineAddr m.isWrite

/-- **The line is in both ways of its set.** -/
theorem overtaken_twice : ¬ (smallL1d.after overtaken).Unique := by
  intro h
  have h01 := h 0 0x1000001 0 (by decide) 1 (by decide) (by decide) (by decide)
  exact absurd h01 (by decide)

end CacheSim

end Rvsim
