/-
# The cache hierarchy

`Cpu::simulate_memory_access`, `Cpu::simulate_l1d_miss_latency`, the MSHR path of
memory1 and the MSHR completions over the two L1s, the L2 and the L3. The DRAM
and the bus enter as the cycles they would take, which no cache depends on.

Key definitions:
  - `CacheHierarchy`, `HierarchyOp`, `CacheHierarchy.apply`
  - `CacheHierarchy.Inv`
Key theorems:
  - `CacheHierarchy.missLatency_cases`, `CacheHierarchy.memoryAccess_cases`
  - `CacheHierarchy.backInvalidateL1_gone`, `CacheHierarchy.swaps_gains`
-/
import Rvsim.CacheEffect

namespace Rvsim

/-! ### The hierarchy -/

inductive InclusionPolicy where
  | nine
  | inclusive
  | exclusive
  deriving DecidableEq, Repr

structure HierarchyConfig where
  l1I : CacheConfig := {}
  l1D : CacheConfig := {}
  l2 : CacheConfig := {}
  l3 : CacheConfig := {}
  inclusionPolicy : InclusionPolicy := .nine
  mshrCount : Nat := 0
  deriving DecidableEq, Repr

structure CacheHierarchy (P : Type) where
  l1ICache : CacheSim P
  l1DCache : CacheSim P
  l2Cache : CacheSim P
  l3Cache : CacheSim P
  l1dMshrs : MshrFile
  inclusionPolicy : InclusionPolicy
  prefetchFilter : PrefetchFilter

/-- What reaches the caches: accesses, the two ways of memory1 among them, with
the cycles that the DRAM would take; the MSHR file's events; FENCE.I; and
SFENCE.VMA or a write to satp. -/
inductive HierarchyOp where
  | access (addr : U64) (access : AccessType) (ram : Nat)
  | issue (addr : U64) (isWrite : Bool) (ram now : Nat) (waiter : MshrWaiter)
  | completions (now : Nat)
  | flushAfter (keep : RobTag)
  | flushMshrs
  | fenceI
  | sfenceVma

namespace CacheHierarchy

variable {P : Type}

def new (config : HierarchyConfig) (l1I l1D l2 l3 : Option P) : CacheHierarchy P where
  l1ICache := .new config.l1I l1I
  l1DCache := .new config.l1D l1D
  l2Cache := .new config.l2 l2
  l3Cache := .new config.l3 l3
  l1dMshrs := .new config.mshrCount config.l1D.lineBytes
  inclusionPolicy := config.inclusionPolicy
  prefetchFilter := .new (if l1D.isSome || l2.isSome then 64 else 0) config.l1D.lineBytes

/-- The first-level cache of an access. -/
def l1 (h : CacheHierarchy P) (access : AccessType) : CacheSim P :=
  if access = .fetch then h.l1ICache else h.l1DCache

def setL1 (h : CacheHierarchy P) (access : AccessType) (c : CacheSim P) : CacheHierarchy P :=
  if access = .fetch then { h with l1ICache := c } else { h with l1DCache := c }

/-- A line that the L2 has evicted leaves the L1s. -/
def backInvalidateL1 (h : CacheHierarchy P) (e : Eviction) : CacheHierarchy P :=
  { h with
    l1DCache := (h.l1DCache.invalidateLine e.line.addr).2
    l1ICache := (h.l1ICache.invalidateLine e.line.addr).2 }

/-- A line that the L3 has evicted leaves the L2 and the L1s. -/
def backInvalidateL2 (h : CacheHierarchy P) (e : Eviction) : CacheHierarchy P :=
  backInvalidateL1 { h with l2Cache := (h.l2Cache.invalidateLine e.line.addr).2 } e

/-- A line that an L1 has evicted goes into the L2. -/
def swap (h : CacheHierarchy P) (e : Eviction) : CacheHierarchy P :=
  { h with l2Cache := (h.l2Cache.installOrReplace e.line.addr e.line.dirty 0).2 }

section

variable [Prefetcher P]

/-- The first level's part of an access: its evictions, before they are swapped. -/
def accessL1 (h : CacheHierarchy P) (addr : U64) (access : AccessType) : (Bool × List Eviction) × CacheHierarchy P :=
  let ((hit, evictions, filter), c) := (h.l1 access).accessAndPrefetch h.prefetchFilter addr (access = .write)
  ((hit, evictions), { h.setL1 access c with prefetchFilter := filter })

def probeL1 (h : CacheHierarchy P) (addr : U64) (access : AccessType) : Bool × CacheHierarchy P :=
  let ((hit, evictions), h) := h.accessL1 addr access
  (hit, if h.inclusionPolicy = .exclusive ∧ h.l2Cache.enabled then evictions.foldl swap h else h)

def accessL2 (h : CacheHierarchy P) (addr : U64) (isWrite : Bool) : (Bool × List Eviction) × CacheHierarchy P :=
  let ((hit, evictions, filter), c) := h.l2Cache.accessAndPrefetch h.prefetchFilter addr isWrite
  ((hit, evictions), { h with l2Cache := c, prefetchFilter := filter })

def probeL2 (h : CacheHierarchy P) (addr : U64) (isWrite : Bool) : Bool × CacheHierarchy P :=
  let ((hit, evictions), h) := h.accessL2 addr isWrite
  (hit, if h.inclusionPolicy = .inclusive then evictions.foldl backInvalidateL1 h else h)

def accessL3 (h : CacheHierarchy P) (addr : U64) (isWrite : Bool) : (Bool × List Eviction) × CacheHierarchy P :=
  let ((hit, evictions, filter), c) := h.l3Cache.accessAndPrefetch h.prefetchFilter addr isWrite
  ((hit, evictions), { h with l3Cache := c, prefetchFilter := filter })

def probeL3 (h : CacheHierarchy P) (addr : U64) (isWrite : Bool) : Bool × CacheHierarchy P :=
  let ((hit, evictions), h) := h.accessL3 addr isWrite
  (hit, if h.inclusionPolicy = .inclusive then evictions.foldl backInvalidateL2 h else h)

/-- The L3 and the DRAM behind it, after `penalty` cycles. -/
def accessBelowL2 (h : CacheHierarchy P) (addr : U64) (isWrite : Bool) (ram penalty : Nat) : Nat × CacheHierarchy P :=
  if h.l3Cache.enabled then
    let (hit, h') := h.probeL3 addr isWrite
    (if hit then penalty + h.l3Cache.latency else penalty + h.l3Cache.latency + ram, h')
  else (penalty + ram, h)

def simulateL1dMissLatency (h : CacheHierarchy P) (addr : U64) (isWrite : Bool) (ram : Nat) : Nat × CacheHierarchy P :=
  if h.l2Cache.enabled then
    let (hit, h') := h.probeL2 addr isWrite
    if hit then (h.l2Cache.latency, h') else h'.accessBelowL2 addr isWrite ram h.l2Cache.latency
  else h.accessBelowL2 addr isWrite ram 0

/-- The L2's part of a blocking access: an exclusive L2 gives up the line it hits. -/
def takeL2 (h : CacheHierarchy P) (addr : U64) (isWrite : Bool) : Bool × CacheHierarchy P :=
  let (hit, h) := h.probeL2 addr isWrite
  (hit, if h.inclusionPolicy = .exclusive ∧ hit then { h with l2Cache := (h.l2Cache.invalidateLine addr).2 } else h)

def simulateMemoryAccess (h : CacheHierarchy P) (addr : U64) (access : AccessType) (ram : Nat) :
    Nat × CacheHierarchy P :=
  if !(h.l1 access).enabled && !h.l2Cache.enabled && !h.l3Cache.enabled then (ram, h)
  else
    let (hit, h') := h.probeL1 addr access
    if hit then (0, h')
    else if h'.l2Cache.enabled then
      let (hit, h'') := h'.takeL2 addr (access = .write)
      if hit then (h.l2Cache.latency, h'') else h''.accessBelowL2 addr (access = .write) ram h.l2Cache.latency
    else h'.accessBelowL2 addr (access = .write) ram 0

/-- memory1 with MSHRs: a miss asks the lower levels at once and parks. -/
def issue (h : CacheHierarchy P) (addr : U64) (isWrite : Bool) (ram now : Nat) (waiter : MshrWaiter) :
    CacheHierarchy P :=
  let (hit, c) := h.l1DCache.accessCheck addr isWrite
  let h := { h with l1DCache := c }
  if hit then h
  else
    let (lat, h) := h.simulateL1dMissLatency addr isWrite ram
    { h with l1dMshrs := (h.l1dMshrs.request addr isWrite (h.l1DCache.latency + lat) now waiter).2 }

end

/-- A completed miss: its line goes into the L1D. -/
def complete (h : CacheHierarchy P) (m : MshrEntry) : CacheHierarchy P :=
  let ((_, evicted), c) := h.l1DCache.installLinePublicTracked m.lineAddr m.isWrite 0
  let h := { h with l1DCache := c }
  if h.inclusionPolicy = .exclusive ∧ h.l2Cache.enabled then evicted.toList.foldl swap h else h

def drainCompletions (h : CacheHierarchy P) (now : Nat) : CacheHierarchy P :=
  let (completed, mshrs) := h.l1dMshrs.drainCompletions now
  completed.foldl complete { h with l1dMshrs := mshrs }

def apply [Prefetcher P] (h : CacheHierarchy P) : HierarchyOp → CacheHierarchy P
  | .access addr access ram => (h.simulateMemoryAccess addr access ram).2
  | .issue addr isWrite ram now waiter => h.issue addr isWrite ram now waiter
  | .completions now => h.drainCompletions now
  | .flushAfter keep => { h with l1dMshrs := h.l1dMshrs.flushAfter keep }
  | .flushMshrs => { h with l1dMshrs := h.l1dMshrs.flush }
  | .fenceI => { h with l1ICache := h.l1ICache.invalidateAll.2 }
  | .sfenceVma => { h with l1DCache := h.l1DCache.flush.2, l1ICache := h.l1ICache.invalidateAll.2 }

/-! ### The levels keep their shape -/

open CacheSim

/-- All levels are on and sound, and the L1s have the L2's line size. -/
structure Inv (h : CacheHierarchy P) : Prop where
  l1IOn : h.l1ICache.enabled = true
  l1DOn : h.l1DCache.enabled = true
  l2On : h.l2Cache.enabled = true
  l3On : h.l3Cache.enabled = true
  l1ISound : h.l1ICache.Sound
  l1DSound : h.l1DCache.Sound
  l2Sound : h.l2Cache.Sound
  l3Sound : h.l3Cache.Sound
  l1ILine : h.l1ICache.lineBytes = h.l2Cache.lineBytes
  l1DLine : h.l1DCache.lineBytes = h.l2Cache.lineBytes
  l1ISingle : ∀ a, h.l1ICache.Single a

variable {h h' : CacheHierarchy P}

/-! ### Back-invalidation -/

/-- The lower levels stay, the L1s shrink. -/
structure BackInvalidated (h h' : CacheHierarchy P) : Prop where
  l1D : Shrinks h.l1DCache h'.l1DCache
  l1I : Shrinks h.l1ICache h'.l1ICache
  l2 : Shrinks h.l2Cache h'.l2Cache
  l3 : h'.l3Cache = h.l3Cache
  policy : h'.inclusionPolicy = h.inclusionPolicy

theorem BackInvalidated.refl (h : CacheHierarchy P) : BackInvalidated h h :=
  ⟨.refl _, .refl _, .refl _, rfl, rfl⟩

theorem BackInvalidated.trans {h'' : CacheHierarchy P} (hb : BackInvalidated h h') (hb' : BackInvalidated h' h'') :
    BackInvalidated h h'' :=
  ⟨hb.l1D.trans hb'.l1D, hb.l1I.trans hb'.l1I, hb.l2.trans hb'.l2, hb'.l3.trans hb.l3, hb'.policy.trans hb.policy⟩

theorem BackInvalidated.inv (hb : BackInvalidated h h') (hi : h.Inv) : h'.Inv := by
  refine ⟨hb.l1I.enabled.trans hi.l1IOn, hb.l1D.enabled.trans hi.l1DOn, hb.l2.enabled.trans hi.l2On, ?_,
    hb.l1I.sound hi.l1ISound, hb.l1D.sound hi.l1DSound, hb.l2.sound hi.l2Sound, ?_, ?_, ?_,
        fun a => hb.l1I.single (hi.l1ISingle a)⟩
  · rw [hb.l3]; exact hi.l3On
  · rw [hb.l3]; exact hi.l3Sound
  · rw [hb.l1I.lineBytes, hb.l2.lineBytes, hi.l1ILine]
  · rw [hb.l1D.lineBytes, hb.l2.lineBytes, hi.l1DLine]

theorem backInvalidateL1_shrinks (h : CacheHierarchy P) (e : Eviction) : BackInvalidated h (h.backInvalidateL1 e) :=
  ⟨invalidateLine_shrinks _ _, invalidateLine_shrinks _ _, .refl _, rfl, rfl⟩

theorem backInvalidateL2_shrinks (h : CacheHierarchy P) (e : Eviction) : BackInvalidated h (h.backInvalidateL2 e) :=
  ⟨invalidateLine_shrinks _ _, invalidateLine_shrinks _ _, invalidateLine_shrinks _ _, rfl, rfl⟩

theorem foldl_shrinks {f : CacheHierarchy P → Eviction → CacheHierarchy P} (hf : ∀ h e, BackInvalidated h (f h e))
    (evs : List Eviction) (h : CacheHierarchy P) : BackInvalidated h (evs.foldl f h) := by
  induction evs generalizing h with
  | nil => exact .refl h
  | cons e evs ih => exact (hf h e).trans (ih (f h e))

/-- The lines that the L2 reports are out of the L1s afterwards. -/
theorem backInvalidateL1_gone (hi : h.Inv) {evs : List Eviction} (hs : ∀ e ∈ evs, h.l1DCache.Single e.line.addr)
    {l : U64} (hl : l ∈ reported evs) :
    ¬ (evs.foldl backInvalidateL1 h).l1DCache.Holds l ∧ ¬ (evs.foldl backInvalidateL1 h).l1ICache.Holds l := by
  induction evs generalizing h with
  | nil => exact absurd hl List.not_mem_nil
  | cons e evs ih =>
    have hb := backInvalidateL1_shrinks h e
    have hrest := foldl_shrinks backInvalidateL1_shrinks evs (h.backInvalidateL1 e)
    rcases List.mem_cons.mp hl with rfl | hl
    · have hD := not_holds_invalidate hi.l1DOn (hs e List.mem_cons_self)
      have hI := not_holds_invalidate hi.l1IOn (hi.l1ISingle e.line.addr)
      exact ⟨fun hh => hD (hrest.l1D.holds hh), fun hh => hI (hrest.l1I.holds hh)⟩
    · exact ih (hb.inv hi) (fun e' he' => hb.l1D.single (hs e' (List.mem_cons_of_mem _ he'))) hl

/-! ### One level changes -/

namespace Inv

variable {c : CacheSim P} {gain loss : List U64}

theorem withL1D (hi : h.Inv) (he : Effect h.l1DCache c gain loss) (filter : PrefetchFilter) :
    Inv { h with l1DCache := c, prefetchFilter := filter } :=
  ⟨hi.l1IOn, he.enabled.trans hi.l1DOn, hi.l2On, hi.l3On, hi.l1ISound, he.sound hi.l1DSound, hi.l2Sound, hi.l3Sound,
    hi.l1ILine, he.lineBytes.trans hi.l1DLine, hi.l1ISingle⟩

theorem withL1I (hi : h.Inv) (he : Effect h.l1ICache c gain loss) (hs : ∀ a, h.l1ICache.Single a → c.Single a)
    (filter : PrefetchFilter) : Inv { h with l1ICache := c, prefetchFilter := filter } :=
  ⟨he.enabled.trans hi.l1IOn, hi.l1DOn, hi.l2On, hi.l3On, he.sound hi.l1ISound, hi.l1DSound, hi.l2Sound, hi.l3Sound,
    he.lineBytes.trans hi.l1ILine, hi.l1DLine, fun a => hs a (hi.l1ISingle a)⟩

theorem withL2 (hi : h.Inv) (he : Effect h.l2Cache c gain loss) (filter : PrefetchFilter) :
    Inv { h with l2Cache := c, prefetchFilter := filter } :=
  ⟨hi.l1IOn, hi.l1DOn, he.enabled.trans hi.l2On, hi.l3On, hi.l1ISound, hi.l1DSound, he.sound hi.l2Sound, hi.l3Sound,
    hi.l1ILine.trans he.lineBytes.symm, hi.l1DLine.trans he.lineBytes.symm, hi.l1ISingle⟩

theorem withL3 (hi : h.Inv) (he : Effect h.l3Cache c gain loss) (filter : PrefetchFilter) :
    Inv { h with l3Cache := c, prefetchFilter := filter } :=
  ⟨hi.l1IOn, hi.l1DOn, hi.l2On, he.enabled.trans hi.l3On, hi.l1ISound, hi.l1DSound, hi.l2Sound, he.sound hi.l3Sound,
    hi.l1ILine, hi.l1DLine, hi.l1ISingle⟩

theorem withMshrs (hi : h.Inv) (m : MshrFile) : Inv { h with l1dMshrs := m } :=
  ⟨hi.l1IOn, hi.l1DOn, hi.l2On, hi.l3On, hi.l1ISound, hi.l1DSound, hi.l2Sound, hi.l3Sound, hi.l1ILine, hi.l1DLine,
    hi.l1ISingle⟩

end Inv

theorem Inv.swap (hi : h.Inv) (e : Eviction) : (h.swap e).Inv := by
  obtain ⟨loss, he⟩ := Effect.installOrReplace hi.l2On e.line.addr e.line.dirty
  exact hi.withL2 he h.prefetchFilter

theorem Inv.swaps (hi : h.Inv) (evs : List Eviction) : (evs.foldl CacheHierarchy.swap h).Inv := by
  induction evs generalizing h with
  | nil => exact hi
  | cons e evs ih => exact ih (hi.swap e)

/-- A swap changes the L2 alone. -/
theorem swaps_eq (evs : List Eviction) (h : CacheHierarchy P) :
    evs.foldl swap h = { h with l2Cache := (evs.foldl swap h).l2Cache } := by
  induction evs generalizing h with
  | nil => rfl
  | cons e evs ih => exact ih (h.swap e)

theorem swaps_policy (evs : List Eviction) (h : CacheHierarchy P) :
    (evs.foldl swap h).inclusionPolicy = h.inclusionPolicy := by
  rw [swaps_eq]

theorem swaps_l1D (evs : List Eviction) (h : CacheHierarchy P) : (evs.foldl swap h).l1DCache = h.l1DCache := by
  rw [swaps_eq]

/-- What the L2 holds after swaps it held or is a line swapped in. -/
theorem swaps_gains (hi : h.Inv) {evs : List Eviction} {a : U64} (ha : (evs.foldl swap h).l2Cache.Holds a) :
    h.l2Cache.Holds a ∨ ∃ e ∈ evs, SameLine h.l2Cache.lineBytes a e.line.addr := by
  induction evs generalizing h with
  | nil => exact .inl ha
  | cons e evs ih =>
    obtain ⟨loss, he⟩ := Effect.installOrReplace hi.l2On e.line.addr e.line.dirty
    rcases ih (hi.swap e) ha with ha | ⟨e', he', hae⟩
    · rcases he.gains a ha with ha | ⟨g, hg, hag⟩
      · exact .inl ha
      · obtain rfl := List.mem_singleton.mp hg
        exact .inr ⟨e, List.mem_cons_self, hag⟩
    · have hline : (h.swap e).l2Cache.lineBytes = h.l2Cache.lineBytes := he.lineBytes
      rw [hline] at hae
      exact .inr ⟨e', List.mem_cons_of_mem _ he', hae⟩

theorem l1_or (access : AccessType) {a : U64} (ha : (h.l1 access).Holds a) :
    h.l1DCache.Holds a ∨ h.l1ICache.Holds a := by
  unfold l1 at ha
  by_cases hf : access = .fetch
  · rw [if_pos hf] at ha
    exact .inr ha
  · rw [if_neg hf] at ha
    exact .inl ha

theorem Inv.l1On (hi : h.Inv) (access : AccessType) : (h.l1 access).enabled = true := by
  unfold l1
  by_cases hf : access = .fetch
  · rw [if_pos hf]; exact hi.l1IOn
  · rw [if_neg hf]; exact hi.l1DOn

theorem Inv.l1Sound (hi : h.Inv) (access : AccessType) : (h.l1 access).Sound := by
  unfold l1
  by_cases hf : access = .fetch
  · rw [if_pos hf]; exact hi.l1ISound
  · rw [if_neg hf]; exact hi.l1DSound

theorem Inv.l1Line (hi : h.Inv) (access : AccessType) : (h.l1 access).lineBytes = h.l2Cache.lineBytes := by
  unfold l1
  by_cases hf : access = .fetch
  · rw [if_pos hf]; exact hi.l1ILine
  · rw [if_neg hf]; exact hi.l1DLine

section

variable [Prefetcher P]

theorem l1_spec (hi : h.Inv) (addr : U64) (access : AccessType) :
    AccessSpec (h.l1 access) h.prefetchFilter addr (access = .write)
      ((h.l1 access).accessAndPrefetch h.prefetchFilter addr (access = .write)) :=
  access_spec (hi.l1On access) (hi.l1Sound access) _ _ _

theorem l2_spec (hi : h.Inv) (addr : U64) (isWrite : Bool) :
    AccessSpec h.l2Cache h.prefetchFilter addr isWrite (h.l2Cache.accessAndPrefetch h.prefetchFilter addr isWrite) :=
  access_spec hi.l2On hi.l2Sound _ _ _

theorem accessL2_line (hi : h.Inv) (addr : U64) (isWrite : Bool) :
    (h.accessL2 addr isWrite).2.l2Cache.lineBytes = h.l2Cache.lineBytes := (l2_spec hi addr isWrite).effect.lineBytes

theorem Inv.accessL1 (hi : h.Inv) (addr : U64) (access : AccessType) : (h.accessL1 addr access).2.Inv := by
  have hs := l1_spec hi addr access
  unfold CacheHierarchy.accessL1
  by_cases hf : access = .fetch
  · simp only [l1, setL1, if_pos hf] at hs ⊢
    exact hi.withL1I hs.effect hs.single _
  · simp only [l1, setL1, if_neg hf] at hs ⊢
    exact hi.withL1D hs.effect _

theorem Inv.accessL2 (hi : h.Inv) (addr : U64) (isWrite : Bool) : (h.accessL2 addr isWrite).2.Inv :=
  hi.withL2 (l2_spec hi addr isWrite).effect _

theorem Inv.accessL3 (hi : h.Inv) (addr : U64) (isWrite : Bool) : (h.accessL3 addr isWrite).2.Inv :=
  hi.withL3 (access_spec hi.l3On hi.l3Sound _ _ _).effect _

theorem Inv.probeL1 (hi : h.Inv) (addr : U64) (access : AccessType) : (h.probeL1 addr access).2.Inv := by
  have ha := hi.accessL1 addr access
  unfold CacheHierarchy.probeL1
  dsimp only
  by_cases hc : (h.accessL1 addr access).2.inclusionPolicy = .exclusive ∧
      (h.accessL1 addr access).2.l2Cache.enabled = true
  · rw [if_pos hc]
    exact ha.swaps _
  · rw [if_neg hc]
    exact ha

theorem Inv.probeL2 (hi : h.Inv) (addr : U64) (isWrite : Bool) : (h.probeL2 addr isWrite).2.Inv := by
  have ha := hi.accessL2 addr isWrite
  unfold CacheHierarchy.probeL2
  dsimp only
  by_cases hc : (h.accessL2 addr isWrite).2.inclusionPolicy = .inclusive
  · rw [if_pos hc]
    exact (foldl_shrinks backInvalidateL1_shrinks _ _).inv ha
  · rw [if_neg hc]
    exact ha

theorem Inv.probeL3 (hi : h.Inv) (addr : U64) (isWrite : Bool) : (h.probeL3 addr isWrite).2.Inv := by
  have ha := hi.accessL3 addr isWrite
  unfold CacheHierarchy.probeL3
  dsimp only
  by_cases hc : (h.accessL3 addr isWrite).2.inclusionPolicy = .inclusive
  · rw [if_pos hc]
    exact (foldl_shrinks backInvalidateL2_shrinks _ _).inv ha
  · rw [if_neg hc]
    exact ha

/-! ### The levels one after the other -/

theorem accessBelowL2_snd (hi : h.Inv) (addr : U64) (isWrite : Bool) (ram penalty : Nat) :
    (h.accessBelowL2 addr isWrite ram penalty).2 = (h.probeL3 addr isWrite).2 := by
  unfold accessBelowL2
  rw [if_pos hi.l3On]

/-- The levels behind the L1: the L2, and the L3 after a miss. -/
theorem missLatency_cases (hi : h.Inv) (addr : U64) (isWrite : Bool) (ram : Nat) :
    (h.simulateL1dMissLatency addr isWrite ram).2 =
      if (h.probeL2 addr isWrite).1 then (h.probeL2 addr isWrite).2
      else ((h.probeL2 addr isWrite).2.probeL3 addr isWrite).2 := by
  unfold simulateL1dMissLatency
  rw [if_pos hi.l2On]
  dsimp only
  by_cases hhit : (h.probeL2 addr isWrite).1 = true
  · rw [if_pos hhit, if_pos hhit]
  · rw [if_neg hhit, if_neg hhit]
    exact accessBelowL2_snd (hi.probeL2 addr isWrite) addr isWrite ram _

theorem probeL2_policy (h : CacheHierarchy P) (addr : U64) (isWrite : Bool) :
    (h.probeL2 addr isWrite).2.inclusionPolicy = h.inclusionPolicy := by
  unfold probeL2
  dsimp only
  by_cases hc : (h.accessL2 addr isWrite).2.inclusionPolicy = .inclusive
  · rw [if_pos hc]
    exact (foldl_shrinks backInvalidateL1_shrinks _ _).policy
  · rw [if_neg hc]
    rfl

theorem probeL3_policy (h : CacheHierarchy P) (addr : U64) (isWrite : Bool) :
    (h.probeL3 addr isWrite).2.inclusionPolicy = h.inclusionPolicy := by
  unfold probeL3
  dsimp only
  by_cases hc : (h.accessL3 addr isWrite).2.inclusionPolicy = .inclusive
  · rw [if_pos hc]
    exact (foldl_shrinks backInvalidateL2_shrinks _ _).policy
  · rw [if_neg hc]
    rfl

/-- The first level's part leaves the other L1 and the L2 alone. -/
theorem accessL1_l1 (h : CacheHierarchy P) (addr : U64) (access : AccessType) :
    (h.accessL1 addr access).2.l1 access =
      ((h.l1 access).accessAndPrefetch h.prefetchFilter addr (access = .write)).2 ∧
    (h.accessL1 addr access).2.l2Cache = h.l2Cache ∧
    (h.accessL1 addr access).2.inclusionPolicy = h.inclusionPolicy := by
  unfold accessL1
  by_cases hf : access = .fetch
  · simp only [l1, setL1, if_pos hf]
    exact ⟨trivial, trivial, trivial⟩
  · simp only [l1, setL1, if_neg hf]
    exact ⟨trivial, trivial, trivial⟩

/-- What the L1s hold after an access they held, or the cache accessed holds it. -/
theorem accessL1_others {addr : U64} {access : AccessType} {a : U64}
    (ha : (h.accessL1 addr access).2.l1DCache.Holds a ∨ (h.accessL1 addr access).2.l1ICache.Holds a) :
    (h.l1DCache.Holds a ∨ h.l1ICache.Holds a) ∨ ((h.accessL1 addr access).2.l1 access).Holds a := by
  unfold accessL1 at ha ⊢
  by_cases hf : access = .fetch
  · simp only [l1, setL1, if_pos hf] at ha ⊢
    rcases ha with ha | ha
    · exact .inl (.inl ha)
    · exact .inr ha
  · simp only [l1, setL1, if_neg hf] at ha ⊢
    rcases ha with ha | ha
    · exact .inr ha
    · exact .inl (.inr ha)

theorem probeL1_of_not_exclusive (hpol : h.inclusionPolicy ≠ .exclusive) (addr : U64) (access : AccessType) :
    h.probeL1 addr access = ((h.accessL1 addr access).1.1, (h.accessL1 addr access).2) := by
  have hp := (accessL1_l1 h addr access).2.2
  unfold probeL1
  dsimp only
  rw [hp, if_neg fun hc => hpol hc.1]

theorem takeL2_of_not_exclusive (hpol : h.inclusionPolicy ≠ .exclusive) (addr : U64) (isWrite : Bool) :
    h.takeL2 addr isWrite = h.probeL2 addr isWrite := by
  have hp := probeL2_policy h addr isWrite
  unfold takeL2
  dsimp only
  rw [hp, if_neg fun hc => hpol hc.1]

theorem Inv.takeL2 (hi : h.Inv) (addr : U64) (isWrite : Bool) : (h.takeL2 addr isWrite).2.Inv := by
  have hi' := hi.probeL2 addr isWrite
  unfold CacheHierarchy.takeL2
  dsimp only
  by_cases hc : (h.probeL2 addr isWrite).2.inclusionPolicy = .exclusive ∧ (h.probeL2 addr isWrite).1 = true
  · rw [if_pos hc]
    exact hi'.withL2 (Effect.invalidateLine _ addr) (h.probeL2 addr isWrite).2.prefetchFilter
  · rw [if_neg hc]
    exact hi'

/-- A blocking access: the L1, the L2 after a miss there, the L3 after a miss there. -/
theorem memoryAccess_cases (hi : h.Inv) (addr : U64) (access : AccessType) (ram : Nat) :
    (h.simulateMemoryAccess addr access ram).2 =
      if (h.probeL1 addr access).1 then (h.probeL1 addr access).2
      else if ((h.probeL1 addr access).2.takeL2 addr (access = .write)).1 then
        ((h.probeL1 addr access).2.takeL2 addr (access = .write)).2
      else (((h.probeL1 addr access).2.takeL2 addr (access = .write)).2.probeL3 addr (access = .write)).2 := by
  have hi' := hi.probeL1 addr access
  unfold simulateMemoryAccess
  rw [hi.l2On, Bool.not_true, Bool.and_false, Bool.false_and, if_neg Bool.false_ne_true]
  dsimp only
  by_cases hhit : (h.probeL1 addr access).1 = true
  · rw [if_pos hhit, if_pos hhit]
  · rw [if_neg hhit, if_neg hhit, if_pos hi'.l2On]
    by_cases hhit2 : ((h.probeL1 addr access).2.takeL2 addr (access = .write)).1 = true
    · rw [if_pos hhit2, if_pos hhit2]
    · rw [if_neg hhit2, if_neg hhit2]
      exact accessBelowL2_snd (hi'.takeL2 addr _) addr _ ram _

theorem probeL2_of_not_inclusive (hpol : h.inclusionPolicy ≠ .inclusive) (addr : U64) (isWrite : Bool) :
    h.probeL2 addr isWrite = ((h.accessL2 addr isWrite).1.1, (h.accessL2 addr isWrite).2) := by
  unfold probeL2
  dsimp only
  rw [if_neg (show ¬ (h.accessL2 addr isWrite).2.inclusionPolicy = .inclusive from hpol)]

theorem probeL3_of_not_inclusive (hpol : h.inclusionPolicy ≠ .inclusive) (addr : U64) (isWrite : Bool) :
    h.probeL3 addr isWrite = ((h.accessL3 addr isWrite).1.1, (h.accessL3 addr isWrite).2) := by
  unfold probeL3
  dsimp only
  rw [if_neg (show ¬ (h.accessL3 addr isWrite).2.inclusionPolicy = .inclusive from hpol)]

theorem probeL1_policy (h : CacheHierarchy P) (addr : U64) (access : AccessType) :
    (h.probeL1 addr access).2.inclusionPolicy = h.inclusionPolicy := by
  have hp := (accessL1_l1 h addr access).2.2
  unfold probeL1
  dsimp only
  by_cases hc : (h.accessL1 addr access).2.inclusionPolicy = .exclusive ∧
      (h.accessL1 addr access).2.l2Cache.enabled = true
  · rw [if_pos hc, swaps_policy, hp]
  · rw [if_neg hc, hp]

theorem takeL2_policy (h : CacheHierarchy P) (addr : U64) (isWrite : Bool) :
    (h.takeL2 addr isWrite).2.inclusionPolicy = h.inclusionPolicy := by
  have hp := probeL2_policy h addr isWrite
  unfold takeL2
  dsimp only
  by_cases hc : (h.probeL2 addr isWrite).2.inclusionPolicy = .exclusive ∧ (h.probeL2 addr isWrite).1 = true
  · rw [if_pos hc]
    exact hp
  · rw [if_neg hc, hp]

theorem Inv.memoryAccess (hi : h.Inv) (addr : U64) (access : AccessType) (ram : Nat) :
    (h.simulateMemoryAccess addr access ram).2.Inv ∧
      (h.simulateMemoryAccess addr access ram).2.inclusionPolicy = h.inclusionPolicy := by
  have h1 := hi.probeL1 addr access
  have h2 := h1.takeL2 addr (access = .write)
  have hp1 := probeL1_policy h addr access
  have hp2 := (takeL2_policy (h.probeL1 addr access).2 addr (access = .write)).trans hp1
  rw [memoryAccess_cases hi]
  by_cases hhit : (h.probeL1 addr access).1 = true
  · rw [if_pos hhit]
    exact ⟨h1, hp1⟩
  · rw [if_neg hhit]
    by_cases hhit2 : ((h.probeL1 addr access).2.takeL2 addr (access = .write)).1 = true
    · rw [if_pos hhit2]
      exact ⟨h2, hp2⟩
    · rw [if_neg hhit2]
      exact ⟨h2.probeL3 addr _, (probeL3_policy _ addr _).trans hp2⟩

theorem Inv.missLatency (hi : h.Inv) (addr : U64) (isWrite : Bool) (ram : Nat) :
    (h.simulateL1dMissLatency addr isWrite ram).2.Inv ∧
      (h.simulateL1dMissLatency addr isWrite ram).2.inclusionPolicy = h.inclusionPolicy := by
  have h2 := hi.probeL2 addr isWrite
  have hp2 := probeL2_policy h addr isWrite
  rw [missLatency_cases hi]
  by_cases hhit : (h.probeL2 addr isWrite).1 = true
  · rw [if_pos hhit]
    exact ⟨h2, hp2⟩
  · rw [if_neg hhit]
    exact ⟨h2.probeL3 addr isWrite, (probeL3_policy _ addr isWrite).trans hp2⟩

theorem Inv.issue (hi : h.Inv) (addr : U64) (isWrite : Bool) (ram now : Nat) (waiter : MshrWaiter) :
    (h.issue addr isWrite ram now waiter).Inv ∧
      (h.issue addr isWrite ram now waiter).inclusionPolicy = h.inclusionPolicy := by
  obtain ⟨-, loss, heff⟩ := check_spec hi.l1DOn addr isWrite
  have hi' : Inv { h with l1DCache := (h.l1DCache.accessCheck addr isWrite).2 } := hi.withL1D heff h.prefetchFilter
  unfold CacheHierarchy.issue
  dsimp only
  by_cases hhit : (h.l1DCache.accessCheck addr isWrite).1 = true
  · rw [if_pos hhit]
    exact ⟨hi', rfl⟩
  · rw [if_neg hhit]
    obtain ⟨hm, hp⟩ := hi'.missLatency addr isWrite ram
    exact ⟨hm.withMshrs _, hp⟩

end

/-! ### Completed misses -/

theorem complete_eq (h : CacheHierarchy P) (m : MshrEntry) :
    h.complete m =
      if h.inclusionPolicy = .exclusive ∧ h.l2Cache.enabled = true then
        (h.l1DCache.installLineTracked m.lineAddr m.isWrite 0).1.2.toList.foldl swap
          { h with l1DCache := (h.l1DCache.installLineTracked m.lineAddr m.isWrite 0).2 }
      else { h with l1DCache := (h.l1DCache.installLineTracked m.lineAddr m.isWrite 0).2 } := rfl

theorem Inv.complete (hi : h.Inv) (m : MshrEntry) : (h.complete m).Inv := by
  have hi' := hi.withL1D (Effect.install h.l1DCache m.lineAddr m.isWrite 0) h.prefetchFilter
  rw [complete_eq]
  by_cases hc : h.inclusionPolicy = .exclusive ∧ h.l2Cache.enabled = true
  · rw [if_pos hc]
    exact hi'.swaps _
  · rw [if_neg hc]
    exact hi'

theorem complete_policy (h : CacheHierarchy P) (m : MshrEntry) :
    (h.complete m).inclusionPolicy = h.inclusionPolicy := by
  rw [complete_eq]
  by_cases hc : h.inclusionPolicy = .exclusive ∧ h.l2Cache.enabled = true
  · rw [if_pos hc, swaps_policy]
  · rw [if_neg hc]

end CacheHierarchy

end Rvsim
