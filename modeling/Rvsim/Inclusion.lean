/-
# What one level of cache says of the other

Under the inclusive policy the L2 holds what the L1s hold; under the exclusive
policy the L1D and the L2 hold nothing in common. Both are kept by hand on the
demand path: an eviction from the L2 or the L3 is taken out of the L1s, an
eviction from an L1 is put into an exclusive L2. Prefetches, fills of the L2 on a
miss and completed misses do not look at the other level.

Key definitions:
  - `CacheHierarchy.Inclusive`, `CacheHierarchy.Exclusive`, `CacheHierarchy.Related`
  - `CacheHierarchy.Kept`
Key theorems:
  - `CacheHierarchy.missLatency_inclusive`, `CacheHierarchy.swaps_apart`, `CacheHierarchy.apply_related`
  - `CacheHierarchy.related_kept`
-/
import Rvsim.CacheHierarchy

namespace Rvsim

namespace CacheHierarchy

variable {P : Type} {h h' : CacheHierarchy P}

/-! ### What the policies promise -/

open CacheSim

/-- Every line in an L1 is in the L2. -/
def Inclusive (h : CacheHierarchy P) : Prop :=
  ∀ a, h.l1DCache.Holds a ∨ h.l1ICache.Holds a → h.l2Cache.Holds a

/-- No line is in both the L1D and the L2. -/
def Exclusive (h : CacheHierarchy P) : Prop := ∀ a, ¬ (h.l1DCache.Holds a ∧ h.l2Cache.Holds a)

/-- What is asked under a policy: nothing, the first, or the second. -/
def asks (policy : InclusionPolicy) (inclusive exclusive : Prop) : Prop :=
  match policy with
  | .nine => True
  | .inclusive => inclusive
  | .exclusive => exclusive

def Related (h : CacheHierarchy P) : Prop := asks h.inclusionPolicy h.Inclusive h.Exclusive

section

variable [Prefetcher P]

/-- Every line that L2 and L3 evict in the access is in one way of the L1D at most. -/
def EvictsSingle (h : CacheHierarchy P) (addr : U64) (isWrite : Bool) : Prop :=
  (∀ e ∈ (h.accessL2 addr isWrite).1.2, h.l1DCache.Single e.line.addr) ∧
    ((h.probeL2 addr isWrite).1 = false →
      ∀ e ∈ ((h.probeL2 addr isWrite).2.accessL3 addr isWrite).1.2,
        (h.probeL2 addr isWrite).2.l1DCache.Single e.line.addr)

/-- A line that a prefetch has put into an L1 is in the L2 or, on a miss, is
among the lines that the L2's part of the access asks for. -/
def Covered (h : CacheHierarchy P) (hit : Bool) (addr : U64) (isWrite : Bool) (t : U64) : Prop :=
  h.l2Cache.Holds t ∨ hit = false ∧
    ∃ t' ∈ addr :: h.l2Cache.prefetchTargets h.prefetchFilter addr isWrite, SameLine h.l2Cache.lineBytes t t'

/-- The lines that the L2's prefetches put in are not in the L1D. -/
def PrefetchesApart (h : CacheHierarchy P) (addr : U64) (isWrite : Bool) : Prop :=
  ∀ t ∈ h.l2Cache.prefetchesIn h.prefetchFilter addr isWrite,
    (h.accessL2 addr isWrite).2.l2Cache.Holds t → ¬ h.l1DCache.Holds t

/-- An access under the inclusive policy: prefetches into the L1 are covered by
the L2, and back-invalidations meet one copy. -/
def AccessIncluded (h : CacheHierarchy P) (addr : U64) (access : AccessType) : Prop :=
  let (hit, h') := h.probeL1 addr access
  (∀ t ∈ (h.l1 access).prefetchesIn h.prefetchFilter addr (access = .write),
    (h'.l1 access).Holds t → h'.Covered hit addr (access = .write) t) ∧
  (hit = false → h'.EvictsSingle addr (access = .write))

def IssueIncluded (h : CacheHierarchy P) (addr : U64) (isWrite : Bool) : Prop :=
  let (hit, c) := h.l1DCache.accessCheck addr isWrite
  let h' := { h with l1DCache := c }
  (∀ t ∈ h.l1DCache.checkInstalled addr isWrite, c.Holds t → h'.Covered hit addr isWrite t) ∧
  (hit = false → h'.EvictsSingle addr isWrite)

/-- An access under the exclusive policy: prefetches bring into one level only
what the other does not hold, a swapped line has left the L1D, and a miss in the
L1D hits the L2, in one way. -/
def AccessApart (h : CacheHierarchy P) (addr : U64) (access : AccessType) : Prop :=
  let ((hit, evictions), h') := h.accessL1 addr access
  (access ≠ .fetch → ∀ t ∈ h.l1DCache.prefetchesIn h.prefetchFilter addr (access = .write),
    h'.l1DCache.Holds t → ¬ h.l2Cache.Holds t) ∧
  (∀ e ∈ evictions, ¬ h'.l1DCache.Holds e.line.addr) ∧
  (hit = false →
    let h'' := (h.probeL1 addr access).2
    (if access = .fetch then ¬ h''.l1DCache.Holds addr else h''.l2Cache.Holds addr ∧ h''.l2Cache.Single addr) ∧
    h''.PrefetchesApart addr (access = .write))

def IssueApart (h : CacheHierarchy P) (addr : U64) (isWrite : Bool) : Prop :=
  let (hit, c) := h.l1DCache.accessCheck addr isWrite
  let h' := { h with l1DCache := c }
  (∀ t ∈ h.l1DCache.checkInstalled addr isWrite, c.Holds t → ¬ h.l2Cache.Holds t) ∧
  (hit = false → ¬ c.Holds addr ∧ h'.PrefetchesApart addr isWrite)

end

/-- A completed miss finds its line in the L2 under the inclusive policy. Under
the exclusive one it does not, and what it evicts has left the L1D. -/
def CompletesRelated (h : CacheHierarchy P) (m : MshrEntry) : Prop :=
  let r := h.l1DCache.installLinePublicTracked m.lineAddr m.isWrite 0
  asks h.inclusionPolicy (h.l2Cache.Holds m.lineAddr)
    (¬ h.l2Cache.Holds m.lineAddr ∧ ∀ e ∈ r.1.2.toList, ¬ r.2.Holds e.line.addr)

def CompletionsRelated (h : CacheHierarchy P) : List MshrEntry → Prop
  | [] => True
  | m :: ms => h.CompletesRelated m ∧ CompletionsRelated (h.complete m) ms

/-- No step of the operation acts on one level against the other. -/
def Kept [Prefetcher P] (h : CacheHierarchy P) : HierarchyOp → Prop
  | .access addr access _ => asks h.inclusionPolicy (h.AccessIncluded addr access) (h.AccessApart addr access)
  | .issue addr isWrite _ _ _ => asks h.inclusionPolicy (h.IssueIncluded addr isWrite) (h.IssueApart addr isWrite)
  | .completions now =>
    { h with l1dMshrs := (h.l1dMshrs.drainCompletions now).2 }.CompletionsRelated (h.l1dMshrs.drainCompletions now).1
  | _ => True

/-- A quantifier over the addresses of a list is decided along the list, not over all words. -/
instance (priority := high) (l : List U64) (p : U64 → Prop) [DecidablePred p] : Decidable (∀ t ∈ l, p t) :=
  List.decidableBAll p l

instance (priority := high) (l : List U64) (p : U64 → Prop) [DecidablePred p] : Decidable (∃ t ∈ l, p t) :=
  List.decidableBEx p l

instance (policy : InclusionPolicy) (p q : Prop) [Decidable p] [Decidable q] : Decidable (asks policy p q) :=
  match policy with
  | .nine => .isTrue trivial
  | .inclusive => inferInstanceAs (Decidable p)
  | .exclusive => inferInstanceAs (Decidable q)

section

variable [Prefetcher P]

instance (addr : U64) (isWrite : Bool) : Decidable (h.EvictsSingle addr isWrite) := by
  delta EvictsSingle
  infer_instance

instance (hit : Bool) (addr : U64) (isWrite : Bool) (t : U64) : Decidable (h.Covered hit addr isWrite t) := by
  delta Covered
  infer_instance

instance (addr : U64) (isWrite : Bool) : Decidable (h.PrefetchesApart addr isWrite) := by
  delta PrefetchesApart
  infer_instance

instance (addr : U64) (access : AccessType) : Decidable (h.AccessIncluded addr access) := by
  delta AccessIncluded
  infer_instance

instance (addr : U64) (isWrite : Bool) : Decidable (h.IssueIncluded addr isWrite) := by
  delta IssueIncluded
  infer_instance

instance (addr : U64) (access : AccessType) : Decidable (h.AccessApart addr access) := by
  delta AccessApart
  infer_instance

instance (addr : U64) (isWrite : Bool) : Decidable (h.IssueApart addr isWrite) := by
  delta IssueApart
  infer_instance

instance (m : MshrEntry) : Decidable (h.CompletesRelated m) := by
  delta CompletesRelated
  infer_instance

def decCompletions : (ms : List MshrEntry) → (h : CacheHierarchy P) → Decidable (h.CompletionsRelated ms)
  | [], _ => .isTrue trivial
  | m :: ms, h =>
    let _ := decCompletions ms (h.complete m)
    inferInstanceAs (Decidable (h.CompletesRelated m ∧ (h.complete m).CompletionsRelated ms))

instance (op : HierarchyOp) : Decidable (h.Kept op) :=
  match op with
  | .access addr access _ =>
    inferInstanceAs (Decidable (asks h.inclusionPolicy (h.AccessIncluded addr access) (h.AccessApart addr access)))
  | .issue addr isWrite _ _ _ =>
    inferInstanceAs (Decidable (asks h.inclusionPolicy (h.IssueIncluded addr isWrite) (h.IssueApart addr isWrite)))
  | .completions now => decCompletions (h.l1dMshrs.drainCompletions now).1 _
  | .flushAfter _ => .isTrue trivial
  | .flushMshrs => .isTrue trivial
  | .fenceI => .isTrue trivial
  | .sfenceVma => .isTrue trivial

end

/-! ### Inclusion -/

/-- Taking a line out of all levels keeps inclusion. -/
theorem Inclusive.backInvalidateL2 (hi : h.Inv) (hincl : h.Inclusive) {evs : List Eviction}
    (hs : ∀ e ∈ evs, h.l1DCache.Single e.line.addr) : (evs.foldl CacheHierarchy.backInvalidateL2 h).Inclusive := by
  induction evs generalizing h with
  | nil => exact hincl
  | cons e evs ih =>
    have hb := backInvalidateL2_shrinks h e
    refine ih (hb.inv hi) (fun a ha => ?_) fun e' he' => hb.l1D.single (hs e' (List.mem_cons_of_mem _ he'))
    have hD := not_holds_invalidate hi.l1DOn (hs e List.mem_cons_self)
    have hI := not_holds_invalidate hi.l1IOn (hi.l1ISingle e.line.addr)
    have hheld : h.l2Cache.Holds a := hincl a (ha.imp hb.l1D.holds hb.l1I.holds)
    rcases (Effect.invalidateLine h.l2Cache e.line.addr).losses hi.l2Sound a hheld with h2 | ⟨l, hl, hal⟩
    · exact h2
    · obtain rfl := List.mem_singleton.mp hl
      rcases ha with ha | ha
      · refine absurd (Holds.congr ?_ ha) hD
        rw [hb.l1D.lineBytes, hi.l1DLine]
        exact hal.symm
      · refine absurd (Holds.congr ?_ ha) hI
        rw [hb.l1I.lineBytes, hi.l1ILine]
        exact hal.symm

section

variable [Prefetcher P]

/-- The L2's part of an access under the inclusive policy: when the L1s hold only
what the L2 holds or is asked for, they hold only what the L2 holds afterwards. -/
theorem probeL2_inclusive (hi : h.Inv) (hpol : h.inclusionPolicy = .inclusive) {addr : U64} {isWrite : Bool}
    (hcov : ∀ a, h.l1DCache.Holds a ∨ h.l1ICache.Holds a → h.Covered false addr isWrite a)
    (hs : ∀ e ∈ (h.accessL2 addr isWrite).1.2, h.l1DCache.Single e.line.addr) :
    (h.probeL2 addr isWrite).2.Inclusive := by
  have hspec := l2_spec hi addr isWrite
  have heq : (h.probeL2 addr isWrite).2 =
      (h.accessL2 addr isWrite).1.2.foldl backInvalidateL1 (h.accessL2 addr isWrite).2 := if_pos hpol
  have hline := accessL2_line hi addr isWrite
  have hb := foldl_shrinks backInvalidateL1_shrinks (h.accessL2 addr isWrite).1.2 (h.accessL2 addr isWrite).2
  have hi' := hi.accessL2 addr isWrite
  rw [heq]
  intro a ha
  -- the line is in the L2 before its evictions are passed on, or is among them
  have hmid : (h.accessL2 addr isWrite).2.l2Cache.Holds a ∨
      ∃ l ∈ reported (h.accessL2 addr isWrite).1.2, SameLine h.l2Cache.lineBytes a l := by
    rcases hcov a (ha.imp hb.l1D.holds hb.l1I.holds) with hheld | ⟨-, t, ht, hat⟩
    · exact hspec.effect.losses hi.l2Sound a hheld
    · rcases hspec.wanted t ht with hheld | ⟨l, hl, htl⟩
      · refine .inl (Holds.congr ?_ hheld)
        rw [hline]
        exact hat
      · exact .inr ⟨l, hl, hat.trans htl⟩
  rcases hmid with hheld | ⟨l, hl, hal⟩
  · have hl2 : ((h.accessL2 addr isWrite).1.2.foldl backInvalidateL1 (h.accessL2 addr isWrite).2).l2Cache =
        (h.accessL2 addr isWrite).2.l2Cache := by
      generalize (h.accessL2 addr isWrite).2 = g
      induction (h.accessL2 addr isWrite).1.2 generalizing g with
      | nil => rfl
      | cons e evs ih => exact ih (g.backInvalidateL1 e)
    rw [hl2]
    exact hheld
  · obtain ⟨hD, hI⟩ := backInvalidateL1_gone hi' hs hl
    rcases ha with ha | ha
    · refine absurd (Holds.congr ?_ ha) hD
      rw [hb.l1D.lineBytes, hi'.l1DLine, hline]
      exact hal.symm
    · refine absurd (Holds.congr ?_ ha) hI
      rw [hb.l1I.lineBytes, hi'.l1ILine, hline]
      exact hal.symm

theorem probeL3_inclusive (hi : h.Inv) (hpol : h.inclusionPolicy = .inclusive) (hincl : h.Inclusive) {addr : U64}
    {isWrite : Bool} (hs : ∀ e ∈ (h.accessL3 addr isWrite).1.2, h.l1DCache.Single e.line.addr) :
    (h.probeL3 addr isWrite).2.Inclusive := by
  have heq : (h.probeL3 addr isWrite).2 =
      (h.accessL3 addr isWrite).1.2.foldl CacheHierarchy.backInvalidateL2 (h.accessL3 addr isWrite).2 := if_pos hpol
  rw [heq]
  have hincl' : (h.accessL3 addr isWrite).2.Inclusive := hincl
  exact hincl'.backInvalidateL2 (hi.accessL3 addr isWrite) hs

/-- **A miss in the L1 restores inclusion** when the L1s are covered. -/
theorem missLatency_inclusive (hi : h.Inv) (hpol : h.inclusionPolicy = .inclusive) {addr : U64} {isWrite : Bool}
    (hcov : ∀ a, h.l1DCache.Holds a ∨ h.l1ICache.Holds a → h.Covered false addr isWrite a)
    (hs : h.EvictsSingle addr isWrite) (ram : Nat) : (h.simulateL1dMissLatency addr isWrite ram).2.Inclusive := by
  rw [missLatency_cases hi]
  have h2 := probeL2_inclusive hi hpol hcov hs.1
  by_cases hhit : (h.probeL2 addr isWrite).1 = true
  · rw [if_pos hhit]
    exact h2
  · rw [if_neg hhit]
    exact probeL3_inclusive (hi.probeL2 addr isWrite) ((probeL2_policy h addr isWrite).trans hpol) h2
      (hs.2 (Bool.eq_false_iff.mpr hhit))

theorem Covered.congr {hit isWrite : Bool} {addr a t : U64} (hat : SameLine h.l2Cache.lineBytes a t)
    (ht : h.Covered hit addr isWrite t) : h.Covered hit addr isWrite a := by
  rcases ht with ht | ⟨hmiss, t', ht', htt'⟩
  · exact .inl (Holds.congr hat ht)
  · exact .inr ⟨hmiss, t', ht', hat.trans htt'⟩

theorem accessL1_covered (hi : h.Inv) (hincl : h.Inclusive) {addr : U64} {access : AccessType}
    (hput : ∀ t ∈ (h.l1 access).prefetchesIn h.prefetchFilter addr (access = .write),
      ((h.accessL1 addr access).2.l1 access).Holds t →
        (h.accessL1 addr access).2.Covered (h.accessL1 addr access).1.1 addr (access = .write) t) {a : U64}
    (ha : (h.accessL1 addr access).2.l1DCache.Holds a ∨ (h.accessL1 addr access).2.l1ICache.Holds a) :
    (h.accessL1 addr access).2.Covered (h.accessL1 addr access).1.1 addr (access = .write) a := by
  obtain ⟨hl1, hl2, -⟩ := accessL1_l1 h addr access
  have hspec := l1_spec hi addr access
  have hi' := hi.accessL1 addr access
  have old : h.l1DCache.Holds a ∨ h.l1ICache.Holds a →
      (h.accessL1 addr access).2.Covered (h.accessL1 addr access).1.1 addr (access = .write) a := by
    intro hold
    left
    rw [hl2]
    exact hincl a hold
  rcases accessL1_others ha with hold | hnew
  · exact old hold
  · have hgain : (h.l1 access).Holds a ∨ ∃ g ∈ (if (h.accessL1 addr access).1.1 then [] else [addr]) ++
        (h.l1 access).prefetchesIn h.prefetchFilter addr (access = .write), SameLine (h.l1 access).lineBytes a g := by
      rw [hl1] at hnew
      exact hspec.effect.gains a hnew
    have hline : (h.accessL1 addr access).2.l2Cache.lineBytes = (h.l1 access).lineBytes := by
      rw [hl2, hi.l1Line]
    rcases hgain with hold | ⟨g, hg, hag⟩
    · exact old (l1_or access hold)
    · rcases List.mem_append.mp hg with hg | hg
      · by_cases hhit : (h.accessL1 addr access).1.1 = true
        · rw [if_pos hhit] at hg
          exact absurd hg List.not_mem_nil
        · rw [if_neg hhit] at hg
          obtain rfl := List.mem_singleton.mp hg
          exact .inr ⟨Bool.eq_false_iff.mpr hhit, g, List.mem_cons_self, by rw [hline]; exact hag⟩
      · have hcong : SameLine (h.accessL1 addr access).2.l2Cache.lineBytes a g := by rw [hline]; exact hag
        refine (hput g hg (Holds.congr ?_ hnew)).congr hcong
        rw [hi'.l1Line]
        exact hcong.symm

theorem access_inclusive (hi : h.Inv) (hpol : h.inclusionPolicy = .inclusive) (hincl : h.Inclusive) {addr : U64}
    {access : AccessType} (hk : h.AccessIncluded addr access) (ram : Nat) :
    (h.simulateMemoryAccess addr access ram).2.Inclusive := by
  have hne : h.inclusionPolicy ≠ .exclusive := by rw [hpol]; exact InclusionPolicy.noConfusion
  unfold AccessIncluded at hk
  rw [memoryAccess_cases hi]
  rw [probeL1_of_not_exclusive hne] at hk ⊢
  obtain ⟨hput, hs⟩ := hk
  have hpol' : (h.accessL1 addr access).2.inclusionPolicy = .inclusive := (accessL1_l1 h addr access).2.2.trans hpol
  have hne' :
      (h.accessL1 addr access).2.inclusionPolicy ≠ .exclusive := by rw [hpol']; exact InclusionPolicy.noConfusion
  have hcov := fun a => accessL1_covered hi hincl hput (a := a)
  dsimp only
  rw [takeL2_of_not_exclusive hne']
  by_cases hhit : (h.accessL1 addr access).1.1 = true
  · rw [if_pos hhit]
    intro a ha
    rcases hcov a ha with hheld | ⟨hmiss, -⟩
    · exact hheld
    · rw [hhit] at hmiss
      exact absurd hmiss.symm Bool.false_ne_true
  · have hmiss : (h.accessL1 addr access).1.1 = false := Bool.eq_false_iff.mpr hhit
    rw [if_neg hhit, ← missLatency_cases (hi.accessL1 addr access) addr (access = .write) ram]
    rw [hmiss] at hcov
    exact missLatency_inclusive (hi.accessL1 addr access) hpol' hcov (hs hmiss) ram

theorem issue_inclusive (hi : h.Inv) (hpol : h.inclusionPolicy = .inclusive) (hincl : h.Inclusive) {addr : U64}
    {isWrite : Bool} (hk : h.IssueIncluded addr isWrite) (ram now : Nat) (waiter : MshrWaiter) :
    (h.issue addr isWrite ram now waiter).Inclusive := by
  unfold IssueIncluded at hk
  dsimp only at hk
  obtain ⟨hput, hs⟩ := hk
  obtain ⟨-, loss, heff⟩ := check_spec hi.l1DOn addr isWrite
  have hi' : Inv { h with l1DCache := (h.l1DCache.accessCheck addr isWrite).2 } := hi.withL1D heff h.prefetchFilter
  have hcov : ∀ a, (h.l1DCache.accessCheck addr isWrite).2.Holds a ∨ h.l1ICache.Holds a →
      Covered { h with l1DCache := (h.l1DCache.accessCheck addr isWrite).2 } (h.l1DCache.accessCheck addr isWrite).1
        addr isWrite a := by
    intro a ha
    rcases ha with ha | ha
    · rcases heff.gains a ha with hold | ⟨g, hg, hag⟩
      · exact .inl (hincl a (.inl hold))
      · have hcong : SameLine h.l2Cache.lineBytes a g := by rw [← hi.l1DLine]; exact hag
        refine Covered.congr hcong (hput g hg (Holds.congr ?_ ha))
        rw [heff.lineBytes]
        exact hag.symm
    · exact .inl (hincl a (.inr ha))
  unfold issue
  dsimp only
  by_cases hhit : (h.l1DCache.accessCheck addr isWrite).1 = true
  · rw [if_pos hhit]
    intro a ha
    rcases hcov a ha with hheld | ⟨hmiss, -⟩
    · exact hheld
    · rw [hhit] at hmiss
      exact absurd hmiss.symm Bool.false_ne_true
  · have hmiss : (h.l1DCache.accessCheck addr isWrite).1 = false := Bool.eq_false_iff.mpr hhit
    rw [if_neg hhit]
    rw [hmiss] at hcov
    exact missLatency_inclusive hi' hpol hcov (hs hmiss) ram

/-! ### Exclusion -/

/-- A line of the L1D that the L2 holds after an access it held before, or it is
the line that missed. -/
theorem accessL2_apart (hi : h.Inv) {addr : U64} {isWrite : Bool} (hp : h.PrefetchesApart addr isWrite) {a : U64}
    (h1 : h.l1DCache.Holds a) (h2 : (h.accessL2 addr isWrite).2.l2Cache.Holds a) :
    h.l2Cache.Holds a ∨ (h.accessL2 addr isWrite).1.1 = false ∧ SameLine h.l2Cache.lineBytes a addr := by
  have hspec := l2_spec hi addr isWrite
  have hgain : h.l2Cache.Holds a ∨ ∃ g ∈ (if (h.accessL2 addr isWrite).1.1 then [] else [addr]) ++
      h.l2Cache.prefetchesIn h.prefetchFilter addr isWrite, SameLine h.l2Cache.lineBytes a g := hspec.effect.gains a h2
  rcases hgain with hold | ⟨g, hg, hag⟩
  · exact .inl hold
  · rcases List.mem_append.mp hg with hg | hg
    · by_cases hhit : (h.accessL2 addr isWrite).1.1 = true
      · rw [if_pos hhit] at hg
        exact absurd hg List.not_mem_nil
      · rw [if_neg hhit] at hg
        obtain rfl := List.mem_singleton.mp hg
        exact .inr ⟨Bool.eq_false_iff.mpr hhit, hag⟩
    · have hheld : (h.accessL2 addr isWrite).2.l2Cache.Holds g := by
        refine Holds.congr ?_ h2
        rw [accessL2_line hi]
        exact hag.symm
      refine absurd (Holds.congr ?_ h1) (hp g hg hheld)
      rw [hi.l1DLine]
      exact hag.symm

/-- After the first level's part and the swaps, only a line that has just missed
is in both the L1D and the L2. -/
theorem swaps_apart (hi : h.Inv) (hexcl : h.Exclusive) {addr : U64} {access : AccessType}
    (hput : access ≠ .fetch → ∀ t ∈ h.l1DCache.prefetchesIn h.prefetchFilter addr (access = .write),
      (h.accessL1 addr access).2.l1DCache.Holds t → ¬ h.l2Cache.Holds t)
    (hev : ∀ e ∈ (h.accessL1 addr access).1.2, ¬ (h.accessL1 addr access).2.l1DCache.Holds e.line.addr) {a : U64}
    (h1 : (h.accessL1 addr access).2.l1DCache.Holds a)
    (h2 : ((h.accessL1 addr access).1.2.foldl swap (h.accessL1 addr access).2).l2Cache.Holds a) :
    access ≠ .fetch ∧ (h.accessL1 addr access).1.1 = false ∧ SameLine h.l2Cache.lineBytes a addr := by
  obtain ⟨hl1, hl2, -⟩ := accessL1_l1 h addr access
  have hi' := hi.accessL1 addr access
  rcases swaps_gains hi' h2 with h2 | ⟨e, he, hae⟩
  · rw [hl2] at h2
    by_cases hf : access = .fetch
    · have hsame : (h.accessL1 addr access).2.l1DCache = h.l1DCache := by
        unfold accessL1
        simp only [l1, setL1, if_pos hf]
      rw [hsame] at h1
      exact absurd ⟨h1, h2⟩ (hexcl a)
    · have hspec := l1_spec hi addr access
      have hgain : h.l1DCache.Holds a ∨ ∃ g ∈ (if (h.accessL1 addr access).1.1 then [] else [addr]) ++
          h.l1DCache.prefetchesIn h.prefetchFilter addr (access = .write), SameLine h.l1DCache.lineBytes a g := by
        have hg := hspec.effect.gains a
        rw [← hl1] at hg
        unfold accessL1 at hg h1 ⊢
        simp only [l1, setL1, if_neg hf] at hg h1 ⊢
        exact hg h1
      rcases hgain with hold | ⟨g, hg, hag⟩
      · exact absurd ⟨hold, h2⟩ (hexcl a)
      · rw [hi.l1DLine] at hag
        rcases List.mem_append.mp hg with hg | hg
        · by_cases hhit : (h.accessL1 addr access).1.1 = true
          · rw [if_pos hhit] at hg
            exact absurd hg List.not_mem_nil
          · rw [if_neg hhit] at hg
            obtain rfl := List.mem_singleton.mp hg
            exact ⟨hf, Bool.eq_false_iff.mpr hhit, hag⟩
        · have hheld : (h.accessL1 addr access).2.l1DCache.Holds g := by
            refine Holds.congr ?_ h1
            rw [hi'.l1DLine, hl2]
            exact hag.symm
          exact absurd (Holds.congr hag.symm h2) (hput hf g hg hheld)
  · refine absurd (Holds.congr ?_ h1) (hev e he)
    rw [hi'.l1DLine]
    exact hae.symm

theorem access_exclusive (hi : h.Inv) (hpol : h.inclusionPolicy = .exclusive) (hexcl : h.Exclusive) {addr : U64}
    {access : AccessType} (hk : h.AccessApart addr access) (ram : Nat) :
    (h.simulateMemoryAccess addr access ram).2.Exclusive := by
  unfold AccessApart at hk
  dsimp only at hk
  obtain ⟨hput, hev, hmissed⟩ := hk
  have hpol1 : (h.accessL1 addr access).2.inclusionPolicy = .exclusive := (accessL1_l1 h addr access).2.2.trans hpol
  have hl2 := (accessL1_l1 h addr access).2.1
  have hi1 := hi.accessL1 addr access
  have hprobe : h.probeL1 addr access = ((h.accessL1 addr access).1.1,
      (h.accessL1 addr access).1.2.foldl swap (h.accessL1 addr access).2) := by
    unfold probeL1
    dsimp only
    rw [if_pos ⟨hpol1, hi1.l2On⟩]
  have hmid := fun a => swaps_apart hi hexcl hput hev (a := a)
  have hline : ((h.accessL1 addr access).1.2.foldl swap (h.accessL1 addr access).2).l2Cache.lineBytes =
      h.l2Cache.lineBytes := by
    rw [← (hi1.swaps _).l1DLine, swaps_l1D, hi1.l1DLine, hl2]
  rw [memoryAccess_cases hi]
  rw [hprobe] at hmissed ⊢
  dsimp only at hmissed ⊢
  have hD := swaps_l1D (h.accessL1 addr access).1.2 (h.accessL1 addr access).2
  have his := hi1.swaps (h.accessL1 addr access).1.2
  have hpols := (swaps_policy (h.accessL1 addr access).1.2 (h.accessL1 addr access).2).trans hpol1
  generalize (h.accessL1 addr access).1.2.foldl swap (h.accessL1 addr access).2 = g at *
  rw [← hD] at hmid
  by_cases hhit : (h.accessL1 addr access).1.1 = true
  · rw [if_pos hhit]
    rintro a ⟨h1, h2⟩
    obtain ⟨-, hmiss, -⟩ := hmid a h1 h2
    rw [hhit] at hmiss
    exact absurd hmiss.symm Bool.false_ne_true
  · rw [if_neg hhit]
    obtain ⟨hmine, hp⟩ := hmissed (Bool.eq_false_iff.mpr hhit)
    have hni : g.inclusionPolicy ≠ .inclusive := by rw [hpols]; exact InclusionPolicy.noConfusion
    have hspec := l2_spec his addr (access = .write)
    have htake : g.takeL2 addr (access = .write) = ((g.accessL2 addr (access = .write)).1.1,
        if (g.accessL2 addr (access = .write)).1.1 = true then
          { (g.accessL2 addr (access = .write)).2 with
            l2Cache := ((g.accessL2 addr (access = .write)).2.l2Cache.invalidateLine addr).2 }
        else (g.accessL2 addr (access = .write)).2) := by
      unfold takeL2
      rw [probeL2_of_not_inclusive hni]
      dsimp only
      have hpol2 : (g.accessL2 addr (access = .write)).2.inclusionPolicy = .exclusive := hpols
      simp only [hpol2, true_and]
    rw [htake]
    dsimp only
    by_cases hhit2 : (g.accessL2 addr (access = .write)).1.1 = true
    -- a hit in the L2 moves the line up
    · rw [if_pos hhit2, if_pos hhit2]
      rintro a ⟨h1, h2⟩
      have h2' : (g.accessL2 addr (access = .write)).2.l2Cache.Holds a := (invalidateLine_shrinks _ addr).holds h2
      rcases accessL2_apart his hp h1 h2' with hold | ⟨hmiss, -⟩
      · obtain ⟨hf, -, hsame⟩ := hmid a h1 hold
        rw [if_neg hf] at hmine
        have hsingle : (g.accessL2 addr (access = .write)).2.l2Cache.Single addr := hspec.single addr hmine.2
        have hen : (g.accessL2 addr (access = .write)).2.l2Cache.enabled = true := (his.accessL2 addr _).l2On
        refine absurd (Holds.congr ?_ h2) (not_holds_invalidate hen hsingle)
        rw [(invalidateLine_shrinks _ addr).lineBytes, accessL2_line his, hline]
        exact hsame.symm
      · rw [hhit2] at hmiss
        exact absurd hmiss.symm Bool.false_ne_true
    -- only a fetch misses here, of a line that is not in the L1D
    · rw [if_neg hhit2, if_neg hhit2]
      have hf : access = .fetch := by
        by_contra hf
        rw [if_neg hf] at hmine
        exact hhit2 (hspec.hit.mpr hmine.1)
      rw [if_pos hf] at hmine
      have hni2 : (g.accessL2 addr (access = .write)).2.inclusionPolicy ≠ .inclusive := hni
      rw [probeL3_of_not_inclusive hni2]
      rintro a ⟨h1, h2⟩
      rcases accessL2_apart his hp h1 h2 with hold | ⟨-, hsame⟩
      · exact (hmid a h1 hold).1 hf
      · refine hmine (Holds.congr ?_ h1)
        rw [his.l1DLine]
        exact hsame.symm

theorem issue_exclusive (hi : h.Inv) (hpol : h.inclusionPolicy = .exclusive) (hexcl : h.Exclusive) {addr : U64}
    {isWrite : Bool} (hk : h.IssueApart addr isWrite) (ram now : Nat) (waiter : MshrWaiter) :
    (h.issue addr isWrite ram now waiter).Exclusive := by
  unfold IssueApart at hk
  dsimp only at hk
  obtain ⟨hput, hmissed⟩ := hk
  obtain ⟨-, loss, heff⟩ := check_spec hi.l1DOn addr isWrite
  have hi' : Inv { h with l1DCache := (h.l1DCache.accessCheck addr isWrite).2 } := hi.withL1D heff h.prefetchFilter
  have hmid : Exclusive { h with l1DCache := (h.l1DCache.accessCheck addr isWrite).2 } := by
    rintro a ⟨h1, h2⟩
    rcases heff.gains a h1 with hold | ⟨g, hg, hag⟩
    · exact hexcl a ⟨hold, h2⟩
    · have hheld : (h.l1DCache.accessCheck addr isWrite).2.Holds g := by
        refine Holds.congr ?_ h1
        rw [heff.lineBytes]
        exact hag.symm
      refine hput g hg hheld (Holds.congr ?_ h2)
      show SameLine h.l2Cache.lineBytes g a
      rw [← hi.l1DLine]
      exact hag.symm
  unfold issue
  dsimp only
  by_cases hhit : (h.l1DCache.accessCheck addr isWrite).1 = true
  · rw [if_pos hhit]
    exact hmid
  · rw [if_neg hhit]
    obtain ⟨hnot, hp⟩ := hmissed (Bool.eq_false_iff.mpr hhit)
    generalize hg : ({ h with l1DCache := (h.l1DCache.accessCheck addr isWrite).2 } : CacheHierarchy P) = g at *
    have hni : g.inclusionPolicy ≠ .inclusive := by
      rw [← hg, hpol]; exact InclusionPolicy.noConfusion
    have hni2 : (g.accessL2 addr isWrite).2.inclusionPolicy ≠ .inclusive := hni
    have hD : (h.l1DCache.accessCheck addr isWrite).2 = g.l1DCache := by rw [← hg]
    rw [hD] at hnot
    -- neither the L3 nor the MSHR file is looked at
    have hsame : (g.simulateL1dMissLatency addr isWrite ram).2.l1DCache = g.l1DCache ∧
        (g.simulateL1dMissLatency addr isWrite ram).2.l2Cache = (g.accessL2 addr isWrite).2.l2Cache := by
      rw [missLatency_cases hi', probeL2_of_not_inclusive hni]
      dsimp only
      by_cases hhit2 : (g.accessL2 addr isWrite).1.1 = true
      · rw [if_pos hhit2]
        exact ⟨rfl, rfl⟩
      · rw [if_neg hhit2, probeL3_of_not_inclusive hni2]
        exact ⟨rfl, rfl⟩
    rintro a ⟨h1, h2⟩
    have h1' : g.l1DCache.Holds a := by rw [← hsame.1]; exact h1
    have h2' : (g.accessL2 addr isWrite).2.l2Cache.Holds a := by rw [← hsame.2]; exact h2
    rcases accessL2_apart hi' hp h1' h2' with hold | ⟨-, hline⟩
    · exact hmid a ⟨h1', hold⟩
    · refine hnot (Holds.congr ?_ h1')
      rw [hi'.l1DLine]
      exact hline.symm

end

/-! ### Completed misses -/

theorem complete_inclusive (hi : h.Inv) (hpol : h.inclusionPolicy = .inclusive) (hincl : h.Inclusive) {m : MshrEntry}
    (hm : h.l2Cache.Holds m.lineAddr) : (h.complete m).Inclusive := by
  rw [complete_eq, if_neg fun hc => by rw [hpol] at hc; exact InclusionPolicy.noConfusion hc.1]
  intro a ha
  rcases ha with ha | ha
  · rcases (Effect.install h.l1DCache m.lineAddr m.isWrite 0).gains a ha with hold | ⟨g, hg, hag⟩
    · exact hincl a (.inl hold)
    · obtain rfl := List.mem_singleton.mp hg
      refine Holds.congr (c := h.l2Cache) ?_ hm
      rw [← hi.l1DLine]
      exact hag
  · exact hincl a (.inr ha)

theorem complete_exclusive (hi : h.Inv) (hpol : h.inclusionPolicy = .exclusive) (hexcl : h.Exclusive) {m : MshrEntry}
    (hm : ¬ h.l2Cache.Holds m.lineAddr)
    (hev : ∀ e ∈ (h.l1DCache.installLineTracked m.lineAddr m.isWrite 0).1.2.toList,
      ¬ (h.l1DCache.installLineTracked m.lineAddr m.isWrite 0).2.Holds e.line.addr) : (h.complete m).Exclusive := by
  have heff := Effect.install h.l1DCache m.lineAddr m.isWrite 0
  have hi' := hi.withL1D heff h.prefetchFilter
  rw [complete_eq, if_pos ⟨hpol, hi.l2On⟩]
  rintro a ⟨h1, h2⟩
  rw [swaps_l1D] at h1
  rcases swaps_gains hi' h2 with h2 | ⟨e, he, hae⟩
  · rcases heff.gains a h1 with hold | ⟨g, hg, hag⟩
    · exact hexcl a ⟨hold, h2⟩
    · obtain rfl := List.mem_singleton.mp hg
      refine hm (Holds.congr ?_ h2)
      show SameLine h.l2Cache.lineBytes m.lineAddr a
      rw [← hi.l1DLine]
      exact hag.symm
  · refine hev e he (Holds.congr ?_ h1)
    rw [heff.lineBytes, hi.l1DLine]
    exact hae.symm

theorem complete_related (hi : h.Inv) (hr : h.Related) {m : MshrEntry} (hm : h.CompletesRelated m) :
    (h.complete m).Related := by
  have hpol := complete_policy h m
  unfold Related CompletesRelated at *
  rw [hpol]
  cases hp : h.inclusionPolicy with
  | nine => trivial
  | inclusive =>
    rw [hp] at hr hm
    exact complete_inclusive hi hp hr hm
  | exclusive =>
    rw [hp] at hr hm
    exact complete_exclusive hi hp hr hm.1 hm.2

theorem completions_related (hi : h.Inv) (hr : h.Related) {ms : List MshrEntry} (hm : h.CompletionsRelated ms) :
    (ms.foldl complete h).Inv ∧ (ms.foldl complete h).Related := by
  induction ms generalizing h with
  | nil => exact ⟨hi, hr⟩
  | cons m ms ih => exact ih (hi.complete m) (complete_related hi hr hm.1) hm.2

/-- What the L1s lose takes nothing from either relation. -/
theorem Related.shrink (hr : h.Related) (hb : BackInvalidated h h') (h2 : h'.l2Cache = h.l2Cache) : h'.Related := by
  unfold Related at *
  rw [hb.policy]
  cases hp : h.inclusionPolicy with
  | nine => trivial
  | inclusive =>
    rw [hp] at hr
    intro a ha
    rw [h2]
    exact hr a (ha.imp hb.l1D.holds hb.l1I.holds)
  | exclusive =>
    rw [hp] at hr
    rintro a ⟨ha, ha2⟩
    rw [h2] at ha2
    exact hr a ⟨hb.l1D.holds ha, ha2⟩

/-! ### Runs -/

section

variable [Prefetcher P]

/-- **One operation keeps the levels in order**, when no step of it acts on one
level against the other. -/
theorem apply_related (hi : h.Inv) (hr : h.Related) {op : HierarchyOp} (hk : h.Kept op) :
    (h.apply op).Inv ∧ (h.apply op).Related := by
  cases op with
  | access addr access ram =>
    obtain ⟨hi', hp⟩ := hi.memoryAccess addr access ram
    refine ⟨hi', ?_⟩
    show Related (h.simulateMemoryAccess addr access ram).2
    unfold Kept at hk
    unfold Related at *
    rw [hp]
    cases hpol : h.inclusionPolicy with
    | nine => trivial
    | inclusive =>
      simp only [hpol] at hr hk
      exact access_inclusive hi hpol hr hk ram
    | exclusive =>
      simp only [hpol] at hr hk
      exact access_exclusive hi hpol hr hk ram
  | issue addr isWrite ram now waiter =>
    obtain ⟨hi', hp⟩ := hi.issue addr isWrite ram now waiter
    refine ⟨hi', ?_⟩
    show Related (h.issue addr isWrite ram now waiter)
    unfold Kept at hk
    unfold Related at *
    rw [hp]
    cases hpol : h.inclusionPolicy with
    | nine => trivial
    | inclusive =>
      simp only [hpol] at hr hk
      exact issue_inclusive hi hpol hr hk ram now waiter
    | exclusive =>
      simp only [hpol] at hr hk
      exact issue_exclusive hi hpol hr hk ram now waiter
  | completions now => exact completions_related (hi.withMshrs (h.l1dMshrs.drainCompletions now).2) hr hk
  | flushAfter keep => exact ⟨hi.withMshrs _, hr⟩
  | flushMshrs => exact ⟨hi.withMshrs _, hr⟩
  | fenceI =>
    have hb : BackInvalidated h (h.apply .fenceI) := ⟨.refl _, invalidateAll_shrinks _, .refl _, rfl, rfl⟩
    exact ⟨hb.inv hi, hr.shrink hb rfl⟩
  | sfenceVma =>
    have hb : BackInvalidated h (h.apply .sfenceVma) := ⟨flush_shrinks _, invalidateAll_shrinks _, .refl _, rfl, rfl⟩
    exact ⟨hb.inv hi, hr.shrink hb rfl⟩

/-- The hierarchy after a sequence of operations. -/
def after (h : CacheHierarchy P) (ops : List HierarchyOp) : CacheHierarchy P := ops.foldl apply h

/-- A property of every operation, at the hierarchy it meets. -/
def Throughout (Q : CacheHierarchy P → HierarchyOp → Prop) : CacheHierarchy P → List HierarchyOp → Prop
  | _, [] => True
  | h, op :: ops => Q h op ∧ Throughout Q (h.apply op) ops

def decThroughout : (ops : List HierarchyOp) → (h : CacheHierarchy P) → Decidable (Throughout Kept h ops)
  | [], _ => .isTrue trivial
  | op :: ops, h =>
    let _ := decThroughout ops (h.apply op)
    inferInstanceAs (Decidable (h.Kept op ∧ Throughout Kept (h.apply op) ops))

instance (ops : List HierarchyOp) : Decidable (Throughout Kept h ops) := decThroughout ops h

theorem Throughout.prefix_of {Q : CacheHierarchy P → HierarchyOp → Prop} {pre ops : List HierarchyOp}
    (hpre : pre <+: ops)
    (h : CacheHierarchy P) (hq : Throughout Q h ops) : Throughout Q h pre := by
  obtain ⟨post, rfl⟩ := hpre
  induction pre generalizing h with
  | nil => trivial
  | cons op pre ih => exact ⟨hq.1, ih (h.apply op) hq.2⟩

theorem after_related (hi : h.Inv) (hr : h.Related) {ops : List HierarchyOp} (hk : Throughout Kept h ops) :
    (h.after ops).Related := by
  induction ops generalizing h with
  | nil => exact hr
  | cons op ops ih =>
    obtain ⟨hi', hr'⟩ := apply_related hi hr hk.1
    exact ih hi' hr' hk.2

end

/-! ### From an empty hierarchy -/

theorem new_empty (config : CacheConfig) (prefetcher : Option P) (a : U64) :
    ¬ (CacheSim.new config prefetcher).Holds a := by
  rintro ⟨w, -, hh⟩
  exact absurd (hits_iff.mp hh).1 Bool.false_ne_true

def lineSize (config : CacheConfig) : Nat := if config.lineBytes = 0 then 64 else config.lineBytes

/-- All levels are on. -/
structure AllOn (config : HierarchyConfig) : Prop where
  l1I : config.l1I.enabled = true
  l1D : config.l1D.enabled = true
  l2 : config.l2.enabled = true
  l3 : config.l3.enabled = true

/-- The L1s and the L2 have lines of one size. -/
structure OneLineSize (config : HierarchyConfig) : Prop where
  l1I : lineSize config.l1I = lineSize config.l2
  l1D : lineSize config.l1D = lineSize config.l2

variable {config : HierarchyConfig}

theorem new_inv (hon : AllOn config) (hline : OneLineSize config) (l1I l1D l2 l3 : Option P) :
    (new config l1I l1D l2 l3).Inv :=
  ⟨hon.l1I, hon.l1D, hon.l2, hon.l3, new_sound _ _, new_sound _ _, new_sound _ _, new_sound _ _, hline.l1I, hline.l1D,
    fun a => (new_unique config.l1I l1I).single a⟩

theorem new_related (config : HierarchyConfig) (l1I l1D l2 l3 : Option P) : (new config l1I l1D l2 l3).Related := by
  unfold Related
  cases hp : (new config l1I l1D l2 l3).inclusionPolicy with
  | nine => trivial
  | inclusive =>
    rintro a (ha | ha)
    · exact absurd ha (new_empty _ _ a)
    · exact absurd ha (new_empty _ _ a)
  | exclusive => exact fun a ha => new_empty _ _ a ha.1

/-- **The levels stay as the policy promises in every run whose operations never
act on one level against the other.** -/
theorem related_kept [Prefetcher P] (hon : AllOn config) (hline : OneLineSize config) (l1I l1D l2 l3 : Option P)
    {ops : List HierarchyOp} (hk : Throughout Kept (new config l1I l1D l2 l3) ops) {pre : List HierarchyOp}
    (hpre : pre <+: ops) : ((new config l1I l1D l2 l3).after pre).Related :=
  after_related (new_inv hon hline l1I l1D l2 l3) (new_related config l1I l1D l2 l3) (hk.prefix_of hpre)

/-- Four levels of 64-byte lines, two ways in the L1D and the L2. -/
def smallLevels (policy : InclusionPolicy) : HierarchyConfig where
  l1I := { sizeBytes := 512, ways := 4 }
  l1D := { sizeBytes := 256, ways := 2 }
  l2 := { sizeBytes := 256, ways := 2, latency := 10 }
  l3 := { sizeBytes := 4096, ways := 4, latency := 30 }
  inclusionPolicy := policy
  mshrCount := 4

def nextLine : Option NextLinePrefetcher := some (.new 64 1)

/-- Loads, stores, a fetch and a completed miss in one set of the L2, which
prefetches the next line. -/
def coveredRun : List HierarchyOp :=
  [.access 0x80000000 .read 100, .access 0x80000080 .write 100, .access 0x80000100 .fetch 100,
    .issue 0x80000180 false 100 5 ⟨3, none⟩, .completions 200, .sfenceVma, .access 0x80000180 .read 100]

/-- Lines that are fetched first and then read, until the L1D swaps one out. -/
def apartRun : List HierarchyOp :=
  [.access 0x80000000 .fetch 100, .access 0x80000000 .read 100, .access 0x80000080 .fetch 100,
    .access 0x80000080 .write 100, .access 0x80000100 .fetch 100, .access 0x80000100 .read 100,
    .issue 0x80000100 true 100 5 ⟨3, none⟩, .access 0x80000000 .read 100]

theorem related_kept_small :
    (∀ pre, pre <+: coveredRun → ((new (smallLevels .inclusive) none none nextLine none).after pre).Related) ∧
      ∀ pre, pre <+: apartRun → ((new (smallLevels .exclusive) nextLine none none none).after pre).Related :=
  ⟨fun _ hpre => related_kept ⟨rfl, rfl, rfl, rfl⟩ ⟨rfl, rfl⟩ _ _ _ _ (by decide +kernel) hpre,
    fun _ hpre => related_kept ⟨rfl, rfl, rfl, rfl⟩ ⟨rfl, rfl⟩ _ _ _ _ (by decide +kernel) hpre⟩

/-- **One load from reset breaks either promise**: the L2 keeps its copy of a line
that an exclusive L1D fills, and the L1D prefetches a line that an inclusive L2
does not have. -/
theorem load_breaks_levels :
    ¬ ((new (smallLevels .exclusive) none (none : Option NextLinePrefetcher) none none).after
        [.access 0x80000000 .read 100]).Related ∧
      ¬ ((new (smallLevels .inclusive) none nextLine none none).after [.access 0x80000000 .read 100]).Related := by
  constructor
  · exact fun h => h 0x80000000 ⟨by decide, by decide⟩
  · intro h
    have hl2 := h 0x80000040 (.inl (by decide +kernel))
    exact absurd hl2 (by decide)

end CacheHierarchy

end Rvsim
