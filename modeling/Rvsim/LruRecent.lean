/-
# An LRU cache holds the lines used last

`policies/lru.rs` and `access` of `units/cache/mod.rs`, without a prefetcher. Read
along the stack of its ways, a set holds the different lines that were accessed in
it, the one accessed last first, as far as there are ways; the ways at the end of
the stack are empty. So what is found with fewer ways is found with more.

A cache of no sets is left out: the first access divides by their number.

Key definitions:
  - `CacheAccess`, `CacheSim.accesses`, `CacheSim.residentLines`, `CacheSim.linesOf`
  - `CacheSim.Stacking`
Key theorems:
  - `CacheSim.Stacking.access`, `CacheSim.Stacking.hit_iff`, `CacheSim.stacking_accesses`
  - `CacheSim.lru_recent`, `CacheSim.lru_bypassed`
-/
import Rvsim.CacheSim
import Rvsim.Lib.MostRecent

namespace Rvsim

structure CacheAccess where
  addr : U64
  isWrite : Bool
  nextLevelLatency : Nat
  deriving DecidableEq, Repr

namespace CacheSim

open MostRecent

variable {P : Type}

section

variable [Prefetcher P]

/-- The cache after a sequence of accesses. -/
def accesses (c : CacheSim P) (as : List CacheAccess) : CacheSim P :=
  as.foldl (fun c a => (c.access a.addr a.isWrite a.nextLevelLatency).2) c

end

/-- The lines of the addresses that map to the set, in order. -/
def linesOf (c : CacheSim P) (set : Nat) (as : List CacheAccess) : List Nat :=
  (as.map fun a => a.addr.toNat / c.lineBytes).filter fun line => line % c.numSets == set

/-- The lines that the ways of the set hold. -/
def residentLines (c : CacheSim P) (set : Nat) : List Nat :=
  (List.range c.ways).filterMap fun w =>
    if (c.lines set w).valid then some ((c.lines set w).tag * c.numSets + set) else none

/-- The tags of the addresses that map to the set, in order. -/
def tagsOf (c : CacheSim P) (set : Nat) (as : List CacheAccess) : List Nat :=
  (as.filter fun a => c.setIndex a.addr == set).map fun a => c.tagOf a.addr

/-- The tag that a way holds. -/
def tagAt (c : CacheSim P) (set way : Nat) : Option Nat := if (c.lines set way).valid then
    some (c.lines set way).tag else none

/-- The ways of the set, along the stack of their use, hold the tags accessed last. -/
structure Stacking (c : CacheSim P) (seen : Nat → List Nat) : Prop where
  enabled : c.enabled = true
  alone : c.prefetcher = none
  ways_pos : 0 < c.ways
  stack : ∃ usage, c.policy = .lru usage ∧ ∀ set,
    (usage set).Perm (List.range c.ways) ∧ (usage set).map (c.tagAt set) = places c.ways (distinct (seen set))

variable {c : CacheSim P} {seen : Nat → List Nat} {addr : U64} {way : Nat}

theorem tagAt_eq_some {set tag : Nat} : c.tagAt set way = some tag ↔ c.hits set tag way = true := by
  rw [hits_iff]
  unfold tagAt
  by_cases hv : (c.lines set way).valid = true
  · rw [if_pos hv, Option.some_inj, and_iff_right hv]
  · rw [if_neg hv]
    exact iff_of_false (by simp) fun h => hv h.1

/-- A way gets a line and goes to the front. -/
def use (c : CacheSim P) (set way : Nat) (l : CacheLine) : CacheSim P :=
  { c.setLine set way l with policy := c.policy.update set way }

/-- A line that goes into a way changes what that way holds, and no other. -/
theorem tagAt_use (c : CacheSim P) (set way : Nat) (l : CacheLine) (s w : Nat) :
    (c.use set way l).tagAt s w = if s = set ∧ w = way then (if l.valid then some l.tag else none) else
        c.tagAt s w := by
  have hlines : (c.use set way l).lines s w = if s = set ∧ w = way then l else c.lines s w :=
    setLine_lines c set way l s w
  unfold tagAt
  rw [hlines]
  by_cases h : s = set ∧ w = way
  · rw [if_pos h, if_pos h]
  · rw [if_neg h, if_neg h]

namespace Stacking

/-- **A line is found just when it is among those accessed last in its set**, as many as there are ways. -/
theorem hit_iff (h : c.Stacking seen) (addr : U64) :
    (c.findWay addr).isSome = true ↔ c.tagOf addr ∈ (distinct (seen (c.setIndex addr))).take c.ways := by
  obtain ⟨usage, -, hstack⟩ := h.stack
  obtain ⟨hperm, hmap⟩ := hstack (c.setIndex addr)
  rw [← mem_places, ← hmap, findWay_isSome_iff, List.mem_map]
  constructor
  · rintro ⟨w, hw, hhit⟩
    exact ⟨w, hperm.mem_iff.mpr (List.mem_range.mpr hw), tagAt_eq_some.mpr hhit⟩
  · rintro ⟨w, hw, htag⟩
    exact ⟨w, List.mem_range.mp (hperm.mem_iff.mp hw), tagAt_eq_some.mp htag⟩

/-- A line that is in its set or comes to it leaves the stacks of the other sets. -/
theorem use (h : c.Stacking seen) {usage : Nat → List Nat} (hp : c.policy = .lru usage) (addr : U64) {l : CacheLine}
    (hl : l.valid = true)
    (htag : l.tag = c.tagOf addr) (hw : way < c.ways)
    (hmap : some (c.tagOf addr) :: ((usage (c.setIndex addr)).erase way).map (c.tagAt (c.setIndex addr)) =
      places c.ways (c.tagOf addr :: (distinct (seen (c.setIndex addr))).erase (c.tagOf addr))) :
    (c.use (c.setIndex addr) way l).Stacking
      (Function.update seen (c.setIndex addr) (seen (c.setIndex addr) ++ [c.tagOf addr])) := by
  obtain ⟨usage', hp', hstack⟩ := h.stack
  obtain rfl : usage = usage' := by
    rw [hp] at hp'
    exact ReplacementPolicy.lru.inj hp'
  refine ⟨h.enabled, h.alone, h.ways_pos,
      Function.update usage (c.setIndex addr) (ReplacementPolicy.touch (usage (c.setIndex addr)) way),
    ?_, fun set => ?_⟩
  · show c.policy.update _ _ = _
    rw [hp]
    rfl
  obtain ⟨hperm, hsame⟩ := hstack set
  have htags : ∀ w, (c.use (c.setIndex addr) way l).tagAt set w =
      if set = c.setIndex addr ∧ w = way then some (c.tagOf addr) else c.tagAt set w := by
    intro w
    rw [tagAt_use, hl, htag]
    rfl
  by_cases hs : set = c.setIndex addr
  · subst hs
    have hnodup : (usage (c.setIndex addr)).Nodup := hperm.nodup_iff.mpr List.nodup_range
    have hmem : way ∈ usage (c.setIndex addr) := hperm.mem_iff.mpr (List.mem_range.mpr hw)
    rw [Function.update_self, Function.update_self]
    refine ⟨(List.perm_cons_erase hmem).symm.trans hperm, ?_⟩
    have hrest : ((usage (c.setIndex addr)).erase way).map
        ((c.use (c.setIndex addr) way l).tagAt (c.setIndex addr)) =
        ((usage (c.setIndex addr)).erase way).map (c.tagAt (c.setIndex addr)) := by
      refine List.map_congr_left fun w hwmem => ?_
      have hne : w ≠ way := ((List.Nodup.mem_erase_iff hnodup).mp hwmem).1
      rw [htags, if_neg fun hc => hne hc.2]
    unfold ReplacementPolicy.touch
    rw [List.map_cons, htags, if_pos ⟨rfl, rfl⟩, hrest, hmap, distinct_snoc]
    rfl
  · rw [Function.update_of_ne hs, Function.update_of_ne hs]
    refine ⟨hperm, ?_⟩
    have hall : (usage set).map
        ((c.use (c.setIndex addr) way l).tagAt set) =
        (usage set).map (c.tagAt set) :=
      List.map_congr_left fun w _ => by rw [htags, if_neg fun hc => hs hc.1]
    rw [hall, hsame]
    rfl

/-- A line that is found goes to the front. -/
theorem hit (h : c.Stacking seen) (hf : c.findWay addr = some way) (dirty : Bool) :
    (c.use (c.setIndex addr) way { c.lines (c.setIndex addr) way with dirty := dirty }).Stacking
      (Function.update seen (c.setIndex addr) (seen (c.setIndex addr) ++ [c.tagOf addr])) := by
  obtain ⟨usage, hp, hstack⟩ := h.stack
  obtain ⟨hperm, hmap⟩ := hstack (c.setIndex addr)
  obtain ⟨hw, hhit⟩ := findWay_some hf
  obtain ⟨hvalid, htag⟩ := hits_iff.mp hhit
  have hat : c.tagAt (c.setIndex addr) way = some (c.tagOf addr) := tagAt_eq_some.mpr hhit
  have hrecent : c.tagOf addr ∈ (distinct (seen (c.setIndex addr))).take c.ways := by
    refine (h.hit_iff addr).mp ?_
    rw [hf]
    rfl
  refine h.use hp addr hvalid htag hw ?_
  rw [places_hit (nodup_distinct _) hrecent, ← hmap, ← hat]
  -- the tag is at that way and at no other of the stack
  obtain ⟨a, b, ha, heq, herase⟩ := List.exists_erase_eq (hperm.mem_iff.mpr (List.mem_range.mpr hw))
  have hnodup : (((usage (c.setIndex addr)).map (c.tagAt (c.setIndex addr))).filterMap id).Nodup := by
    rw [hmap, filterMap_places]
    exact (nodup_distinct _).sublist (List.take_sublist _ _)
  have hnot : c.tagAt (c.setIndex addr) way ∉ a.map (c.tagAt (c.setIndex addr)) := by
    intro hc
    rw [heq, List.map_append, List.map_cons, hat, List.filterMap_append] at hnodup
    rw [hat] at hc
    refine List.disjoint_of_nodup_append hnodup (List.mem_filterMap.mpr ⟨_, hc, rfl⟩) ?_
    exact List.mem_filterMap.mpr ⟨_, List.mem_cons_self, rfl⟩
  rw [herase, heq, List.map_append, List.map_append, List.map_cons, List.erase_append_right _ hnot,
      List.erase_cons_head]

/-- A line that is not found takes the way at the end of the stack. -/
theorem miss (h : c.Stacking seen) (hf : c.findWay addr = none) (dirty : Bool) :
    (c.use (c.setIndex addr) (c.victim addr) ⟨c.tagOf addr, true, dirty⟩).Stacking
      (Function.update seen (c.setIndex addr) (seen (c.setIndex addr) ++ [c.tagOf addr])) := by
  obtain ⟨usage, hp, hstack⟩ := h.stack
  obtain ⟨hperm, hmap⟩ := hstack (c.setIndex addr)
  have hnone : c.tagOf addr ∉ (distinct (seen (c.setIndex addr))).take c.ways := by
    intro hc
    have hfound := (h.hit_iff addr).mpr hc
    rw [hf] at hfound
    cases hfound
  have hne : usage (c.setIndex addr) ≠ [] := by
    intro hc
    have hlen := hperm.length_eq
    have hpos := h.ways_pos
    rw [hc, List.length_range, List.length_nil] at hlen
    omega
  have hvictim : c.victim addr = (usage (c.setIndex addr)).getLast hne := by
    unfold victim
    rw [hp]
    unfold ReplacementPolicy.getVictim
    dsimp only
    rw [List.getLast?_eq_some_getLast hne]
    rfl
  have hsplit := List.dropLast_append_getLast hne
  have hnodup : (usage (c.setIndex addr)).Nodup := hperm.nodup_iff.mpr List.nodup_range
  have hlast : (usage (c.setIndex addr)).getLast hne ∉ (usage (c.setIndex addr)).dropLast := by
    intro hc
    rw [← hsplit] at hnodup
    exact List.disjoint_of_nodup_append hnodup hc List.mem_cons_self
  have herase : (usage (c.setIndex addr)).erase (c.victim addr) = (usage (c.setIndex addr)).dropLast := by
    rw [hvictim]
    nth_rewrite 1 [← hsplit]
    rw [List.erase_append_right _ hlast, List.erase_cons_head, List.append_nil]
  have hw : c.victim addr < c.ways := by
    rw [hvictim]
    exact List.mem_range.mp (hperm.mem_iff.mp (List.getLast_mem hne))
  refine h.use hp addr rfl rfl hw ?_
  rw [herase, List.map_dropLast, hmap, ← places_miss h.ways_pos hnone]

section

variable [Prefetcher P]

/-- **An access puts its line at the front of its set.** -/
theorem access (h : c.Stacking seen) (a : CacheAccess) :
    (c.access a.addr a.isWrite a.nextLevelLatency).2.Stacking
      (Function.update seen (c.setIndex a.addr) (seen (c.setIndex a.addr) ++ [c.tagOf a.addr])) := by
  obtain ⟨usage, hp, -⟩ := h.stack
  unfold CacheSim.access accessTrackedSplit
  rw [if_pos h.enabled]
  cases hf : c.findWay a.addr with
  | some way =>
    have hlookup : c.lookup a.addr a.isWrite = (true, c.use (c.setIndex a.addr) way
        { c.lines (c.setIndex a.addr) way with dirty := (c.lines (c.setIndex a.addr) way).dirty || a.isWrite }) := by
      unfold lookup
      rw [hf]
      rfl
    have hused := h.hit hf ((c.lines (c.setIndex a.addr) way).dirty || a.isWrite)
    rw [hlookup]
    unfold observe
    dsimp only
    rw [if_pos rfl, hused.alone]
    exact hused
  | none =>
    have hinstall : (c.installLineTracked a.addr a.isWrite a.nextLevelLatency).2 =
        c.use (c.setIndex a.addr) (c.victim a.addr) ⟨c.tagOf a.addr, true, a.isWrite⟩ := by
      rw [install_eq, hp]
      unfold place CacheSim.use
      rw [hp]
      rfl
    have hused := h.miss hf a.isWrite
    rw [lookup_miss hf]
    unfold observe
    dsimp only
    rw [if_neg Bool.false_ne_true, hinstall, hused.alone]
    exact hused

/-- An access hits just when its line is among those accessed last. -/
theorem access_hit_iff (h : c.Stacking seen) (a : CacheAccess) :
    (c.access a.addr a.isWrite a.nextLevelLatency).1.1 = true ↔
      c.tagOf a.addr ∈ (distinct (seen (c.setIndex a.addr))).take c.ways := by
  rw [← h.hit_iff, ← lookup_fst c a.addr a.isWrite]
  unfold CacheSim.access accessTrackedSplit
  rw [if_pos h.enabled]
  cases hh : c.lookup a.addr a.isWrite with
  | mk hit c' =>
    cases hit with
    | true => exact Iff.rfl
    | false => exact Iff.rfl

end

end Stacking

/-! ### Whole sequences -/

theorem stacking_new {config : CacheConfig} (hp : config.policy = .lru) (he : config.enabled = true) :
    (new config none : CacheSim P).Stacking fun _ => [] := by
  refine ⟨he, rfl, (new_sound config none).ways_pos, fun _ => List.range (new config none : CacheSim P).ways, ?_,
      fun set => ⟨.refl _, ?_⟩⟩
  · show ReplacementPolicy.new _ config.policy = _
    rw [hp]
    rfl
  · show (List.range (new config none : CacheSim P).ways).map (fun _ => none) = _
    rw [List.map_const', List.length_range]
    unfold places distinct
    rw [List.dedup_nil, List.reverse_nil, List.map_nil, List.nil_append,
        List.take_of_length_le (by rw [List.length_replicate])]

section

variable [Prefetcher P]

theorem access_shape (c : CacheSim P) (a : CacheAccess) :
    SameShape c (c.access a.addr a.isWrite a.nextLevelLatency).2 :=
  (keeps_split c a.addr a.isWrite a.nextLevelLatency a.nextLevelLatency id rfl).shape

theorem accesses_shape (c : CacheSim P) (as : List CacheAccess) : SameShape c (c.accesses as) := by
  induction as generalizing c with
  | nil => exact .refl c
  | cons a as ih => exact (access_shape c a).trans (ih _)

omit [Prefetcher P] in
theorem tagsOf_shape {c' : CacheSim P} (h : SameShape c c') (set : Nat) (as : List CacheAccess) :
    c'.tagsOf set as = c.tagsOf set as := by
  unfold tagsOf
  simp only [h.setIndex, h.tagOf]

/-- **After a sequence of accesses the stacks hold the tags of all accesses so far.** -/
theorem stacking_accesses (h : c.Stacking seen) (as : List CacheAccess) :
    (c.accesses as).Stacking fun set => seen set ++ c.tagsOf set as := by
  induction as generalizing c seen with
  | nil =>
    have hseen : (fun set => seen set ++ c.tagsOf set []) = seen := funext fun set => List.append_nil _
    rw [hseen]
    exact h
  | cons a as ih =>
    have hrest := ih (h.access a)
    have hseen : (fun set => Function.update seen (c.setIndex a.addr)
        (seen (c.setIndex a.addr) ++ [c.tagOf a.addr]) set ++
        (c.access a.addr a.isWrite a.nextLevelLatency).2.tagsOf set as) = fun set => seen set ++
            c.tagsOf set (a :: as) := by
      funext set
      rw [tagsOf_shape (access_shape c a)]
      unfold tagsOf
      by_cases hs : set = c.setIndex a.addr
      · subst hs
        rw [Function.update_self, List.filter_cons_of_pos
            (p := fun b : CacheAccess => c.setIndex b.addr == c.setIndex a.addr) (beq_self_eq_true _),
          List.map_cons, List.append_assoc]
        rfl
      · rw [Function.update_of_ne hs, List.filter_cons_of_neg (p := fun b : CacheAccess => c.setIndex b.addr == set)
          (mt beq_iff_eq.mp (Ne.symm hs))]
    rw [hseen] at hrest
    exact hrest

end

/-- The lines accessed in a set, from their tags. -/
theorem linesOf_eq (c : CacheSim P) (set : Nat) (as : List CacheAccess) :
    c.linesOf set as = (c.tagsOf set as).map fun tag => tag * c.numSets + set := by
  unfold linesOf tagsOf
  rw [List.filter_map, List.map_map]
  refine List.map_congr_left fun a ha => ?_
  have hset : a.addr.toNat / c.lineBytes % c.numSets = set := beq_iff_eq.mp (List.mem_filter.mp ha).2
  show a.addr.toNat / c.lineBytes = a.addr.toNat / (c.lineBytes * c.numSets) * c.numSets + set
  rw [← Nat.div_div_eq_div_mul, ← hset, Nat.div_add_mod']

theorem residentLines_eq (c : CacheSim P) (set : Nat) :
    c.residentLines set = ((List.range c.ways).filterMap (c.tagAt set)).map fun tag => tag * c.numSets + set := by
  unfold residentLines
  rw [List.map_filterMap]
  refine List.filterMap_congr fun w _ => ?_
  unfold tagAt
  by_cases hv : (c.lines set w).valid = true
  · rw [if_pos hv, if_pos hv]
    rfl
  · rw [if_neg hv, if_neg hv]
    rfl

theorem distinct_map {α β : Type*} [DecidableEq α] [DecidableEq β] {f : α → β}
    (hf : Function.Injective f) (xs : List α) :
    distinct (xs.map f) = (distinct xs).map f := by
  unfold distinct
  rw [List.dedup_map_of_injective hf, List.map_reverse]

/-- A set holds the lines accessed last in it, once each. -/
theorem Stacking.residentLines (h : c.Stacking seen) {set : Nat} (hset : set < c.numSets) :
    (c.residentLines set).Perm ((distinct ((seen set).map fun tag => tag * c.numSets + set)).take c.ways) := by
  obtain ⟨usage, -, hstack⟩ := h.stack
  obtain ⟨hperm, hmap⟩ := hstack set
  have hinj : Function.Injective fun tag => tag * c.numSets + set := by
    intro t t' heq
    have hmul : t * c.numSets = t' * c.numSets := Nat.add_right_cancel heq
    exact Nat.eq_of_mul_eq_mul_right (by omega) hmul
  have htags : ((List.range c.ways).filterMap (c.tagAt set)).Perm ((distinct (seen set)).take c.ways) := by
    rw [← filterMap_places, ← hmap, List.filterMap_map]
    exact hperm.symm.filterMap _
  rw [residentLines_eq, distinct_map hinj, ← List.map_take]
  exact htags.map _

section

variable [Prefetcher P]

/-- **An enabled LRU cache holds the lines accessed last**, as many of each set's as it has
ways, and what is found with some ways is found with more. -/
theorem lru_recent {config : CacheConfig} (hp : config.policy = .lru) (he : config.enabled = true)
    (as : List CacheAccess) :
    let c : CacheSim P := new config none
    (∀ set < c.numSets, ((c.accesses as).residentLines set).Perm ((distinct (c.linesOf set as)).take c.ways) ∧
      ((c.accesses as).residentLines set).length = min c.ways (c.linesOf set as).dedup.length) ∧
    ∀ more : CacheConfig, more.policy = .lru → more.enabled = true →
      let c' : CacheSim P := new more none
      c'.numSets = c.numSets → c'.lineBytes = c.lineBytes → c.ways ≤ c'.ways → ∀ a : CacheAccess,
        ((c.accesses as).access a.addr a.isWrite a.nextLevelLatency).1.1 = true →
          ((c'.accesses as).access a.addr a.isWrite a.nextLevelLatency).1.1 = true := by
  intro c
  have hstack := stacking_accesses (stacking_new (P := P) hp he) as
  have hshape := accesses_shape c as
  constructor
  · intro set hset
    have hperm := hstack.residentLines (hshape.numSets.symm ▸ hset)
    have hseen : ([] ++ c.tagsOf set as).map (fun tag => tag * (c.accesses as).numSets + set) = c.linesOf set as := by
      rw [List.nil_append, hshape.numSets, linesOf_eq]
    have hways : (c.accesses as).ways = c.ways := hshape.ways
    rw [hways] at hperm
    have hrecent := hseen ▸ hperm
    refine ⟨hrecent, ?_⟩
    rw [hrecent.length_eq, List.length_take]
    unfold distinct
    rw [List.length_reverse]
  · intro more hp' he' c' hsets hline hways a hhit
    have hstack' := stacking_accesses (stacking_new (P := P) hp' he') as
    have hshape' := accesses_shape c' as
    have hset : ∀ addr, c'.setIndex addr = c.setIndex addr := fun addr => by unfold setIndex; rw [hline, hsets]
    have htag : ∀ addr, c'.tagOf addr = c.tagOf addr := fun addr => by unfold tagOf; rw [hline, hsets]
    have htags : ∀ set, c'.tagsOf set as = c.tagsOf set as := fun set => by unfold tagsOf; simp only [hset, htag]
    have hmem := (hstack.access_hit_iff a).mp hhit
    refine (hstack'.access_hit_iff a).mpr ?_
    have hs : (c'.accesses as).setIndex a.addr = (c.accesses as).setIndex a.addr := by
      rw [hshape'.setIndex, hshape.setIndex, hset]
    have ht : (c'.accesses as).tagOf a.addr = (c.accesses as).tagOf a.addr := by
      rw [hshape'.tagOf, hshape.tagOf, htag]
    have hw : (c'.accesses as).ways = c'.ways := hshape'.ways
    have hw' : (c.accesses as).ways = c.ways := hshape.ways
    rw [hs, ht, hw, List.nil_append]
    rw [hw', List.nil_append] at hmem
    rw [htags]
    exact List.take_subset_take_left _ hways hmem

end

/-- Two sets of two ways. -/
def twoByTwoConfig (enabled : Bool) : CacheConfig :=
  { enabled := enabled, sizeBytes := 256, lineBytes := 64, ways := 2, policy := .lru }

def twoByTwo (enabled : Bool) : CacheSim NextLinePrefetcher := new (twoByTwoConfig enabled) none

/-- Three lines of one set. -/
def threeLines : List CacheAccess := [⟨0, false, 10⟩, ⟨0x80, true, 10⟩, ⟨0x100, false, 10⟩]

theorem lru_recent_threeLines : (((twoByTwo true).accesses threeLines).residentLines 0).Perm [4, 2] := by
  have hset : 0 < (twoByTwo true).numSets := by decide
  have hp : (twoByTwoConfig true).policy = .lru := rfl
  have hrecent := ((lru_recent (P := NextLinePrefetcher) hp rfl threeLines).1 0 hset).1
  have hlines : (distinct ((twoByTwo true).linesOf 0 threeLines)).take (twoByTwo true).ways = [4, 2] := by decide
  exact hlines ▸ hrecent

/-- A disabled cache is bypassed, and holds nothing. -/
theorem lru_bypassed : ¬ (((twoByTwo false).accesses threeLines).residentLines 0).Perm
    ((distinct ((twoByTwo false).linesOf 0 threeLines)).take (twoByTwo false).ways) := by
  decide

end CacheSim

end Rvsim
