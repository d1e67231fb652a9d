/-
# Installs into sets that still have room

The victim of an install is chosen by the replacement policy, which does not
look at the lines. Whether a free way is used before a valid line goes is left
to the policy: to the order of use for LRU and MRU, to the pointer of FIFO, the
bits of PLRU and the next draw of Random. Sets that only ever fill up are filled
way by way under LRU, FIFO and PLRU; a line that was taken out leaves a hole that
these policies may pass over, and MRU comes back to the way it has just filled.

Key definitions:
  - `CacheSim.Thrifty`, `CacheSim.Traced`, `CacheSim.Traced.Offers`
Key theorems:
  - `CacheSim.Traced.thrifty_iff`, `CacheSim.thrifty_right`, `CacheSim.thrifty_wasted`
-/
import Mathlib.Data.Finset.Card
import Mathlib.Data.Finset.Range
import Rvsim.CacheEvents
import Rvsim.Lib.Masks
import Rvsim.Lib.Recency

namespace Rvsim

namespace ReplacementPolicy

variable {ways : Nat} {p : ReplacementPolicy}

theorem touch_perm {stack : List Nat} (h : stack.Perm (List.range ways)) {way : Nat} (hw : way < ways) :
    (touch stack way).Perm (List.range ways) := by
  have hmem : way ∈ stack := h.mem_iff.mpr (List.mem_range.mpr hw)
  exact (List.perm_cons_erase hmem).symm.trans h

/-- Only Random has another state once it has been asked for a victim. -/
theorem getVictim_same (h : ∀ state, p ≠ .random ways state) (hp : p.Within ways) (set : Nat) :
    (p.getVictim set).2 = p := by
  cases p with
  | random ways' state =>
    obtain rfl : ways' = ways := hp
    exact absurd rfl (h state)
  | _ => rfl

/-- The bits after a touch: the old ones and the new, or the new alone once all ways have one. -/
theorem plruBits_cases (h : ways < 64) (usage : U64) {way : Nat} (hw : way < ways) :
    (∀ v < ways, usage.getLsbD v || decide (v = way)) ∨
      ∀ v < ways, (plruBits ways usage way).getLsbD v = (usage.getLsbD v || decide (v = way)) := by
  have hbit : ∀ v < ways, (usage ||| (1 : U64) <<< (way % 64)).getLsbD v = (usage.getLsbD v || decide (v = way)) := by
    intro v hv
    rw [Nat.mod_eq_of_lt (by omega : way < 64), BitVec.getLsbD_or, Masks.getLsbD_bit way v (by omega)]
  unfold plruBits
  dsimp only
  split
  next hall =>
    refine .inl fun v hv => ?_
    rw [Nat.mod_eq_of_lt h] at hall
    rw [← hbit v hv]
    refine Masks.bit_of_and_eq hall ?_
    rw [Masks.getLsbD_low h]
    exact decide_eq_true hv
  next => exact .inr hbit

end ReplacementPolicy

/-- The policies that use every way of a set, as long as nothing is taken out. -/
def CacheConfig.Fills (config : CacheConfig) : Prop :=
  config.policy = .lru ∨ config.policy = .fifo ∨ (config.policy = .plru ∧ config.ways < 64) ∨ config.ways ≤ 1

namespace CacheSim

variable {P : Type}

/-- Some way of the line's set holds nothing. -/
def HasRoom (c : CacheSim P) (addr : U64) : Prop := ∃ w < c.ways, (c.lines (c.setIndex addr) w).valid = false

/-- How many lines a set holds. -/
def residents (c : CacheSim P) (set : Nat) : Nat := ((Finset.range c.ways).filter fun w => (c.lines set w).valid).card

/-- An install into a set with room takes no line out, and the set holds one more. -/
def Thrifty (c : CacheSim P) : Event P → Prop
  | .install addr isWrite => c.HasRoom addr → (c.installLineTracked addr isWrite 0).1.2 = none ∧
      (c.perform (.install addr isWrite)).residents (c.setIndex addr) = c.residents (c.setIndex addr) + 1
  | _ => True

/-- The set and the way that an event uses. -/
def touched (c : CacheSim P) : Event P → Option (Nat × Nat)
  | .hit addr _ => (c.findWay addr).map (c.setIndex addr, ·)
  | .install addr _ => some (c.setIndex addr, c.victim addr)
  | .refill addr _ => (c.freeWay addr).map (c.setIndex addr, ·)
  | .drop _ => none
  | .observed _ => none

variable {c : CacheSim P} {e : Event P} {addr : U64} {isWrite : Bool}

theorem place_lines (c : CacheSim P) (addr : U64) (isWrite : Bool) (way : Nat)
    (policy : ReplacementPolicy) (s w : Nat) :
    (c.place addr isWrite way policy).lines s w =
      if s = c.setIndex addr ∧ w = way then ⟨c.tagOf addr, true, isWrite⟩ else c.lines s w :=
  setLine_lines c _ way _ s w

theorem evicted_none_iff (addr : U64) (isWrite : Bool) (lat : Nat) :
    (c.installLineTracked addr isWrite lat).1.2 = none ↔ (c.lines (c.setIndex addr) (c.victim addr)).valid = false := by
  have heq : (c.installLineTracked addr isWrite lat).1.2 =
      if (c.lines (c.setIndex addr) (c.victim addr)).valid = true then
        some ⟨⟨c.reconstructAddr (c.setIndex addr) (c.lines (c.setIndex addr) (c.victim addr)).tag,
          (c.lines (c.setIndex addr) (c.victim addr)).dirty⟩, c.setIndex addr, c.victim addr,
          c.lines (c.setIndex addr) (c.victim addr)⟩
      else none := rfl
  rw [heq]
  cases hv : (c.lines (c.setIndex addr) (c.victim addr)).valid with
  | false => exact ⟨fun _ => rfl, fun _ => rfl⟩
  | true => exact ⟨fun h => absurd h (by simp), fun h => absurd h (by simp)⟩

/-- A set into whose free way a line goes holds one more. -/
theorem residents_place (hw : way < c.ways) (hv : (c.lines (c.setIndex addr) way).valid = false)
    (policy : ReplacementPolicy) :
    (c.place addr isWrite way policy).residents (c.setIndex addr) = c.residents (c.setIndex addr) + 1 := by
  have hset : (Finset.range c.ways).filter
      (fun w => ((c.place addr isWrite way policy).lines (c.setIndex addr) w).valid) =
      insert way ((Finset.range c.ways).filter fun w => (c.lines (c.setIndex addr) w).valid) := by
    ext w
    rw [Finset.mem_insert, Finset.mem_filter, Finset.mem_filter, place_lines]
    by_cases h : w = way
    · rw [if_pos ⟨rfl, h⟩, h]
      exact ⟨fun _ => .inl rfl, fun _ => ⟨Finset.mem_range.mpr hw, rfl⟩⟩
    · rw [if_neg fun hc => h hc.2]
      exact ⟨.inr, fun hc => hc.resolve_left h⟩
  have hnew : way ∉ (Finset.range c.ways).filter fun w => (c.lines (c.setIndex addr) w).valid := by
    intro hmem
    rw [Finset.mem_filter, hv] at hmem
    exact absurd hmem.2 Bool.false_ne_true
  calc (c.place addr isWrite way policy).residents (c.setIndex addr)
      = (insert way ((Finset.range c.ways).filter fun w => (c.lines (c.setIndex addr) w).valid)).card :=
        congrArg Finset.card hset
    _ = c.residents (c.setIndex addr) + 1 := Finset.card_insert_of_notMem hnew

/-- **An install is thrifty just when its victim is free**, if any way is. -/
theorem thrifty_install_iff (hv : c.victim addr < c.ways) :
    c.Thrifty (.install addr isWrite) ↔
      (c.HasRoom addr → (c.lines (c.setIndex addr) (c.victim addr)).valid = false) := by
  constructor
  · exact fun h hroom => (evicted_none_iff addr isWrite 0).mp (h hroom).1
  · exact fun h hroom => ⟨(evicted_none_iff addr isWrite 0).mpr (h hroom), residents_place hv (h hroom) _⟩

/-- The free way that a search finds, with the ways before it taken. -/
theorem freeWay_some {w : Nat} (h : c.freeWay addr = some w) :
    w < c.ways ∧ (c.lines (c.setIndex addr) w).valid = false ∧ ∀ v < w, (c.lines (c.setIndex addr) v).valid = true := by
  obtain ⟨hfree, hw, hbefore⟩ := List.find?_range_eq_some.mp h
  exact ⟨List.mem_range.mp hw, by simpa using hfree, fun v hv => by simpa using hbefore v hv⟩

/-- A way that is used is a way there is. -/
theorem touched_lt (hs : 0 < c.ways) (hp : c.policy.Within c.ways) {s w : Nat} (h : c.touched e = some (s, w)) :
    w < c.ways := by
  cases e with
  | hit addr isWrite =>
    obtain ⟨v, hf, heq⟩ := Option.map_eq_some_iff.mp h
    cases heq
    exact (findWay_some hf).1
  | install addr isWrite =>
    cases h
    exact ReplacementPolicy.victim_lt hp hs _
  | refill addr isWrite =>
    obtain ⟨v, hf, heq⟩ := Option.map_eq_some_iff.mp h
    cases heq
    exact (freeWay_some hf).1
  | drop gone => cases h
  | observed prefetcher => cases h

/-- **A line is there afterwards just when it was, or its way has been used**;
where nothing is dropped. -/
theorem valid_perform (hd : e.isDrop = false) (s w : Nat) :
    ((c.perform e).lines s w).valid = true ↔ (c.lines s w).valid = true ∨ c.touched e = some (s, w) := by
  have hplace : ∀ (addr : U64) (isWrite : Bool) (way : Nat) (policy : ReplacementPolicy),
      ((c.place addr isWrite way policy).lines s w).valid = true ↔
        (c.lines s w).valid = true ∨ some (c.setIndex addr, way) = some (s, w) := by
    intro addr isWrite way policy
    rw [place_lines, Option.some_inj, Prod.mk.injEq]
    by_cases h : s = c.setIndex addr ∧ w = way
    · rw [if_pos h]
      exact ⟨fun _ => .inr ⟨h.1.symm, h.2.symm⟩, fun _ => rfl⟩
    · rw [if_neg h]
      exact ⟨.inl, fun hc => hc.resolve_right fun hc => h ⟨hc.1.symm, hc.2.symm⟩⟩
  cases e with
  | hit addr isWrite =>
    cases hf : c.findWay addr with
    | none =>
      have hc : c.perform (.hit addr isWrite) = c := congrArg Prod.snd (lookup_miss hf)
      have ht : c.touched (.hit addr isWrite) = none := by simp only [touched, hf]; rfl
      rw [hc, ht]
      exact ⟨.inl, fun h => h.resolve_right (by simp)⟩
    | some v =>
      have hlines : (c.perform (.hit addr isWrite)).lines s w =
          if s = c.setIndex addr ∧ w = v then
            { c.lines (c.setIndex addr) v with dirty := (c.lines (c.setIndex addr) v).dirty || isWrite }
          else c.lines s w := by
        simp only [perform, lookup, hf]
        exact setLine_lines c _ v _ s w
      have ht : c.touched (.hit addr isWrite) = some (c.setIndex addr, v) := by simp only [touched, hf]; rfl
      have hvalid := (hits_iff.mp (findWay_some hf).2).1
      rw [hlines, ht, Option.some_inj, Prod.mk.injEq]
      by_cases h : s = c.setIndex addr ∧ w = v
      · rw [if_pos h]
        exact ⟨fun _ => .inr ⟨h.1.symm, h.2.symm⟩, fun _ => hvalid⟩
      · rw [if_neg h]
        exact ⟨.inl, fun hc => hc.resolve_right fun hc => h ⟨hc.1.symm, hc.2.symm⟩⟩
  | install addr isWrite => exact hplace addr isWrite (c.victim addr) _
  | refill addr isWrite =>
    cases hf : c.freeWay addr with
    | none =>
      have hc : c.perform (.refill addr isWrite) = c := by simp only [perform, hf]
      have ht : c.touched (.refill addr isWrite) = none := by simp only [touched, hf]; rfl
      rw [hc, ht]
      exact ⟨.inl, fun h => h.resolve_right (by simp)⟩
    | some v =>
      have hc : c.perform (.refill addr isWrite) = c.place addr isWrite v c.policy := by simp only [perform, hf]
      have ht : c.touched (.refill addr isWrite) = some (c.setIndex addr, v) := by simp only [touched, hf]; rfl
      rw [hc, ht]
      exact hplace addr isWrite v c.policy
  | drop gone => cases hd
  | observed prefetcher => exact ⟨.inl, fun h => h.resolve_right (by simp [touched])⟩

/-- A drop brings nothing in. -/
theorem valid_of_drop {gone : Nat → Nat → Bool} {s w : Nat} (h : ((c.perform (.drop gone)).lines s w).valid = true) :
    (c.lines s w).valid = true := by
  simp only [perform] at h
  split at h
  · cases h
  · exact h

theorem ways_perform (c : CacheSim P) (e : Event P) : (c.perform e).ways = c.ways := by
  cases e with
  | hit addr isWrite => exact (lookup_shrinks c addr isWrite).ways
  | install addr isWrite => rfl
  | refill addr isWrite =>
    simp only [perform]
    split <;> rfl
  | drop gone => rfl
  | observed prefetcher => rfl

/-- The policy that is told of an event: an install has asked it for a victim. -/
def asked (c : CacheSim P) : Event P → ReplacementPolicy
  | .install addr _ => (c.policy.getVictim (c.setIndex addr)).2
  | _ => c.policy

/-- **The policy is told of the way that is used**, and of nothing else. -/
theorem policy_perform (c : CacheSim P) (e : Event P) :
    (c.perform e).policy = (c.touched e).elim c.policy fun place => (c.asked e).update place.1 place.2 := by
  cases e with
  | hit addr isWrite =>
    simp only [perform, lookup, touched, asked]
    cases hf : c.findWay addr with
    | none => rfl
    | some w => rfl
  | install addr isWrite => rfl
  | refill addr isWrite =>
    simp only [perform, touched, asked]
    cases hf : c.freeWay addr with
    | none => rfl
    | some w => rfl
  | drop gone => rfl
  | observed prefetcher => rfl

theorem asked_same (hp : c.policy.Within c.ways) (h : ∀ state, c.policy ≠ .random c.ways state) :
    c.asked e = c.policy := by
  cases e with
  | install addr isWrite => exact ReplacementPolicy.getVictim_same h hp _
  | _ => rfl

/-- A policy keeps its kind, and Random its number of ways. -/
theorem asked_random {state : U64} (hp : c.policy = .random c.ways state) :
    ∃ state', c.asked e = .random c.ways state' := by
  cases e with
  | install addr isWrite =>
    simp only [asked, hp]
    exact ⟨_, rfl⟩
  | _ => exact ⟨state, hp⟩

/-- The cache with the times at which its ways were used. -/
structure Traced (P : Type) where
  cache : CacheSim P
  uses : Recency (Nat × Nat)

namespace Traced

def perform (t : Traced P) (e : Event P) : Traced P :=
  ⟨t.cache.perform e,
    match t.cache.touched e with
    | some place => t.uses.touch place
    | none => t.uses⟩

/-- The time at which a way was used last. -/
def time (t : Traced P) (set way : Nat) : Nat := t.uses.last (set, way)

/-- The policy stands so that a free way of the set goes first. LRU: some free way
was used before every resident one; MRU: after every resident one. FIFO: the
pointer is at a free way. PLRU: a free way has no bit, and neither has a resident
way before it one less; with all bits set the first way is free. Random: the next
draw falls on a free way. -/
def Offers (t : Traced P) (set : Nat) : Prop :=
  let free (w : Nat) : Prop := w < t.cache.ways ∧ (t.cache.lines set w).valid = false
  let resident (w : Nat) : Prop := w < t.cache.ways ∧ (t.cache.lines set w).valid = true
  match t.cache.policy with
  | .lru _ => ∃ w, free w ∧ ∀ v, resident v → t.time set w < t.time set v
  | .mru _ => ∃ w, free w ∧ ∀ v, resident v → t.time set v < t.time set w
  | .fifo next _ => free (next set)
  | .plru usage _ =>
    let marked (w : Nat) : Prop := (usage set).getLsbD (w % 64) = true
    (∃ w, free w ∧ ¬ marked w ∧ ∀ v < w, resident v → marked v) ∨ (∀ w < t.cache.ways, marked w) ∧ free 0
  | .random ways state => free ((ReplacementPolicy.xorshift state).toNat % ways)

/-- The stacks hold the ways there are, the one used last at the front. -/
def Stacked (t : Traced P) (usage : Nat → List Nat) : Prop :=
  ∀ set, (usage set).Perm (List.range t.cache.ways) ∧ Recency.Falling (t.time set) (usage set)

/-- What the policy keeps agrees with the times, and only ways in use hold lines. -/
structure Inv (t : Traced P) : Prop where
  ways_pos : 0 < t.cache.ways
  within : t.cache.policy.Within t.cache.ways
  stacked : ∀ usage, t.cache.policy = .lru usage ∨ t.cache.policy = .mru usage → t.Stacked usage
  used : ∀ set w, (t.cache.lines set w).valid = true → 0 < t.time set w

variable {t : Traced P} {e : Event P}

theorem uses_touched {place : Nat × Nat} (h : t.cache.touched e = some place) :
    (t.perform e).uses = t.uses.touch place := by
  simp only [perform, h]

theorem uses_untouched (h : t.cache.touched e = none) : (t.perform e).uses = t.uses := by
  simp only [perform, h]

theorem Inv.new (config : CacheConfig) (prefetcher : Option P) : Inv (⟨new config prefetcher, .never⟩ : Traced P) := by
  have hs := new_sound config prefetcher
  refine ⟨hs.ways_pos, hs.within, fun usage h => ?_, fun set w h => absurd h Bool.false_ne_true⟩
  have husage : usage = fun _ => List.range (CacheSim.new config prefetcher).ways := by
    simp only [CacheSim.new] at h ⊢
    cases hp : config.policy with
    | lru => simpa [ReplacementPolicy.new, hp, eq_comm] using h
    | mru => simpa [ReplacementPolicy.new, hp, eq_comm] using h
    | _ => simp [ReplacementPolicy.new, hp] at h
  rw [husage]
  exact fun set => ⟨.refl _, Recency.falling_of_zero (fun _ => rfl) _⟩

/-- A stack whose used way goes to the front stays in order. -/
theorem Stacked.touch {usage : Nat → List Nat} (h : t.Stacked usage) {set way : Nat} (hw : way < t.cache.ways)
    (ht : t.cache.touched e = some (set, way)) :
    (t.perform e).Stacked (Function.update usage set (ReplacementPolicy.touch (usage set) way)) := by
  have htime : ∀ s w, (t.perform e).time s w = (t.uses.touch (set, way)).last (s, w) := by
    intro s w
    unfold time
    rw [uses_touched ht]
  have hother : ∀ s w, (s, w) ≠ (set, way) → (t.perform e).time s w = t.time s w :=
    fun s w hne => (htime s w).trans (Recency.last_touch_of_ne hne)
  intro s
  have hways : (t.perform e).cache.ways = t.cache.ways := ways_perform t.cache e
  rw [hways]
  by_cases hs : s = set
  · subst hs
    rw [Function.update_self]
    have hnodup : (usage s).Nodup := (h s).1.nodup_iff.mpr List.nodup_range
    refine ⟨ReplacementPolicy.touch_perm (h s).1 hw, Recency.falling_touch (h s).2 hnodup (fun w hne => ?_)
        fun w hne => ?_⟩
    · rw [htime, htime]
      exact Recency.touch_lt fun hc => hne (Prod.mk.inj hc).2
    · exact hother s w fun hc => hne (Prod.mk.inj hc).2
  · rw [Function.update_of_ne hs]
    have heq : (t.perform e).time s = t.time s := funext fun w => hother s w fun hc => hs (Prod.mk.inj hc).1
    rw [heq]
    exact h s

/-- A use moves its way to the front of the stack of its set, and no policy without stacks comes to have some. -/
theorem Inv.stacked_touched (h : t.Inv) {set way : Nat} (ht : t.cache.touched e = some (set, way))
    (hw : way < t.cache.ways)
    {usage : Nat → List Nat}
    (hu : (t.cache.asked e).update set way = .lru usage ∨ (t.cache.asked e).update set way = .mru usage) :
    (t.perform e).Stacked usage := by
  have hsame := asked_same h.within (e := e)
  cases hp : t.cache.policy with
  | lru u =>
    rw [hsame (by simp [hp]), hp] at hu
    obtain rfl : Function.update u set (ReplacementPolicy.touch (u set) way) = usage := by
      simpa [ReplacementPolicy.update] using hu
    exact (h.stacked u (.inl hp)).touch hw ht
  | mru u =>
    rw [hsame (by simp [hp]), hp] at hu
    obtain rfl : Function.update u set (ReplacementPolicy.touch (u set) way) = usage := by
      simpa [ReplacementPolicy.update] using hu
    exact (h.stacked u (.inr hp)).touch hw ht
  | fifo next ways' =>
    rw [hsame (by simp [hp]), hp] at hu
    by_cases hn : next set = way
    · simp [ReplacementPolicy.update, hn] at hu
    · simp [ReplacementPolicy.update, hn] at hu
  | plru bits ways' =>
    rw [hsame (by simp [hp]), hp] at hu
    simp [ReplacementPolicy.update] at hu
  | random ways' state =>
    obtain rfl : ways' = t.cache.ways := by
      have hwithin := h.within
      rwa [hp] at hwithin
    obtain ⟨state', hasked'⟩ := asked_random hp (e := e)
    simp [hasked', ReplacementPolicy.update] at hu

/-- An event keeps the policy and the times in step. -/
theorem Inv.perform (h : t.Inv) (e : Event P) : (t.perform e).Inv := by
  have hways : (t.perform e).cache.ways = t.cache.ways := ways_perform t.cache e
  have hpol : (t.perform e).cache.policy = _ := policy_perform t.cache e
  have hasked : (t.cache.asked e).Within t.cache.ways := by
    unfold asked
    split
    · exact h.within.getVictim _
    · exact h.within
  cases ht : t.cache.touched e with
  | none =>
    have huses := uses_untouched ht
    rw [ht] at hpol
    have hstack : ∀ usage, t.Stacked usage → (t.perform e).Stacked usage := by
      intro usage hst set
      unfold time
      rw [hways, huses]
      exact hst set
    refine ⟨hways ▸ h.ways_pos, ?_, fun usage hu => ?_, fun set w hv => ?_⟩
    · rw [hways, hpol]
      exact h.within
    · rw [hpol] at hu
      exact hstack usage (h.stacked usage hu)
    · unfold time
      rw [huses]
      refine h.used set w ?_
      cases hd : e.isDrop with
      | false => exact ((valid_perform hd set w).mp hv).resolve_right (by simp [ht])
      | true =>
        cases e with
        | drop gone => exact valid_of_drop hv
        | _ => cases hd
  | some place =>
    obtain ⟨set, way⟩ := place
    have hw := touched_lt h.ways_pos h.within ht
    have hd : e.isDrop = false := by
      cases e with
      | drop gone => cases ht
      | _ => rfl
    rw [ht] at hpol
    refine ⟨hways ▸ h.ways_pos, ?_, fun usage hu => ?_, fun s w hv => ?_⟩
    · rw [hways, hpol]
      exact hasked.update _ hw
    · rw [hpol] at hu
      exact h.stacked_touched ht hw hu
    · unfold time
      rw [uses_touched ht]
      rcases (valid_perform hd s w).mp hv with hv | heq
      · exact Recency.pos_of_touch (h.used s w hv)
      · cases ht.symm.trans heq
        exact Recency.touch_pos

/-- The least recently used way is free just when a free way was used before every resident one. -/
theorem lru_free_iff {set : Nat} {l : List Nat} {x : Nat} (h : t.Inv)
    (hperm : (l ++ [x]).Perm (List.range t.cache.ways))
    (hfall : Recency.Falling (t.time set) (l ++ [x])) :
    (x < t.cache.ways ∧ (t.cache.lines set x).valid = false) ↔
      ∃ w, (w < t.cache.ways ∧ (t.cache.lines set w).valid = false) ∧
        ∀ v, v < t.cache.ways ∧ (t.cache.lines set v).valid = true → t.time set w < t.time set v := by
  have hmem : ∀ v < t.cache.ways, v ≠ x → v ∈ l := by
    intro v hv hne
    have hv' := hperm.mem_iff.mpr (List.mem_range.mpr hv)
    exact (List.mem_append.mp hv').resolve_right fun hc => hne (List.mem_singleton.mp hc)
  constructor
  · rintro ⟨hx, hfree⟩
    refine ⟨x, ⟨hx, hfree⟩, fun v ⟨hv, hres⟩ => ?_⟩
    have hne : v ≠ x := fun hc => by rw [hc, hfree] at hres; exact absurd hres Bool.false_ne_true
    have hpos := h.used set v hres
    rcases Recency.last_lt hfall (hmem v hv hne) with hlt | ⟨hzero, -⟩ <;> omega
  · rintro ⟨w, ⟨hw, hfree⟩, hbefore⟩
    have hx : x < t.cache.ways := List.mem_range.mp
        (hperm.mem_iff.mp (List.mem_append_right l (List.mem_singleton.mpr rfl)))
    refine ⟨hx, ?_⟩
    by_contra hres
    rw [Bool.not_eq_false] at hres
    have hne : w ≠ x := fun hc => by rw [← hc, hfree] at hres; exact absurd hres Bool.false_ne_true
    have hlt := hbefore x ⟨hx, hres⟩
    rcases Recency.last_lt hfall (hmem w hw hne) with hlt' | ⟨-, hzero⟩ <;> omega

/-- The most recently used way is free just when a free way was used after every resident one. -/
theorem mru_free_iff {set : Nat} {l : List Nat} {x : Nat} (h : t.Inv) (hperm : (x :: l).Perm (List.range t.cache.ways))
    (hfall : Recency.Falling (t.time set) (x :: l)) :
    (x < t.cache.ways ∧ (t.cache.lines set x).valid = false) ↔
      ∃ w, (w < t.cache.ways ∧ (t.cache.lines set w).valid = false) ∧
        ∀ v, v < t.cache.ways ∧ (t.cache.lines set v).valid = true → t.time set v < t.time set w := by
  have hmem : ∀ v < t.cache.ways, v ∈ x :: l := fun v hv => hperm.mem_iff.mpr (List.mem_range.mpr hv)
  constructor
  · rintro ⟨hx, hfree⟩
    refine ⟨x, ⟨hx, hfree⟩, fun v ⟨hv, hres⟩ => ?_⟩
    have hne : v ≠ x := fun hc => by rw [hc, hfree] at hres; exact absurd hres Bool.false_ne_true
    have hpos := h.used set v hres
    rcases List.rel_of_pairwise_cons hfall ((List.mem_cons.mp (hmem v hv)).resolve_left hne) with hlt | ⟨-, hzero⟩ <;>
        omega
  · rintro ⟨w, ⟨hw, hfree⟩, hafter⟩
    have hx : x < t.cache.ways := List.mem_range.mp (hperm.mem_iff.mp List.mem_cons_self)
    refine ⟨hx, ?_⟩
    by_contra hres
    rw [Bool.not_eq_false] at hres
    have hlt := hafter x ⟨hx, hres⟩
    have hle := Recency.le_head hfall (hmem w hw)
    omega

/-- **The victim is free just when the policy offers a free way.** -/
theorem victim_free_iff (h : t.Inv) (addr : U64) :
    (t.cache.lines (t.cache.setIndex addr) (t.cache.victim addr)).valid = false ↔ t.Offers (t.cache.setIndex addr) := by
  have hlt : t.cache.victim addr < t.cache.ways := ReplacementPolicy.victim_lt h.within h.ways_pos _
  rw [← and_iff_right (b := (t.cache.lines (t.cache.setIndex addr) (t.cache.victim addr)).valid = false) hlt]
  unfold Offers victim
  dsimp only
  generalize t.cache.setIndex addr = set
  cases hp : t.cache.policy with
  | lru usage =>
    obtain ⟨hperm, hfall⟩ := h.stacked usage (.inl hp) set
    rcases List.eq_nil_or_concat' (usage set) with hnil | ⟨l, x, hsplit⟩
    · have hlen := hperm.length_eq
      rw [hnil, List.length_range] at hlen
      exact absurd h.ways_pos (by rw [← hlen]; exact Nat.lt_irrefl 0)
    · rw [hsplit] at hperm hfall
      have hvictim : ((ReplacementPolicy.lru usage).getVictim set).1 = x := by
        simp only [ReplacementPolicy.getVictim, hsplit, List.getLast?_concat, Option.getD_some]
      rw [hvictim]
      exact lru_free_iff h hperm hfall
  | mru usage =>
    obtain ⟨hperm, hfall⟩ := h.stacked usage (.inr hp) set
    cases hsplit : usage set with
    | nil =>
      have hlen := hperm.length_eq
      rw [hsplit, List.length_range] at hlen
      exact absurd h.ways_pos (by rw [← hlen]; exact Nat.lt_irrefl 0)
    | cons x l =>
      rw [hsplit] at hperm hfall
      have hvictim : ((ReplacementPolicy.mru usage).getVictim set).1 = x := by
        simp only [ReplacementPolicy.getVictim, hsplit, List.head?_cons, Option.getD_some]
      rw [hvictim]
      exact mru_free_iff h hperm hfall
  | fifo next ways' => exact Iff.rfl
  | plru usage ways' =>
    obtain rfl : ways' = t.cache.ways := by
      have hwithin := h.within
      rwa [hp] at hwithin
    simp only [ReplacementPolicy.getVictim]
    cases hf : (List.range t.cache.ways).find? (fun i => !(usage set).getLsbD (i % 64)) with
    | none =>
      have hall : ∀ w < t.cache.ways, (usage set).getLsbD (w % 64) = true :=
        fun w hw => by simpa using List.find?_range_eq_none.mp hf w hw
      constructor
      · exact fun hfree => .inr ⟨hall, hfree⟩
      · rintro (⟨w, ⟨hw, -⟩, hclear, -⟩ | ⟨-, hfree⟩)
        · exact absurd (hall w hw) hclear
        · exact hfree
    | some v =>
      obtain ⟨hclear, hv, hbefore⟩ := List.find?_range_eq_some.mp hf
      have hv := List.mem_range.mp hv
      have hclear : ¬ (usage set).getLsbD (v % 64) = true := by simpa using hclear
      have hbefore : ∀ u < v, (usage set).getLsbD (u % 64) = true := fun u hu => by simpa using hbefore u hu
      constructor
      · exact fun hfree => .inl ⟨v, hfree, hclear, fun u hu _ => hbefore u hu⟩
      · rintro (⟨w, hw, hwclear, hres⟩ | ⟨hall, -⟩)
        · refine ⟨hv, ?_⟩
          rcases Nat.lt_trichotomy v w with hvw | rfl | hvw
          · by_contra hvalid
            exact hclear (hres v hvw ⟨hv, by simpa using hvalid⟩)
          · exact hw.2
          · exact absurd (hbefore w hvw) hwclear
        · exact absurd (hall v hv) hclear
  | random ways' state => exact Iff.rfl

/-- The condition on an event: an install into a set with room meets a policy that offers a free way. -/
def Ready (t : Traced P) : Event P → Prop
  | .install addr _ => t.cache.HasRoom addr → t.Offers (t.cache.setIndex addr)
  | _ => True

theorem thrifty_iff (h : t.Inv) (e : Event P) : t.cache.Thrifty e ↔ t.Ready e := by
  cases e with
  | install addr isWrite =>
    rw [thrifty_install_iff (ReplacementPolicy.victim_lt h.within h.ways_pos _), victim_free_iff h]
    rfl
  | _ => exact Iff.rfl

/-! ### Sets that only fill up -/

/-- No way has been left behind empty: under LRU a way that was used holds a line,
under FIFO the lines are those before the pointer and under PLRU those with a bit,
until the set is full. -/
def Filled (t : Traced P) : Prop :=
  let full (set : Nat) : Prop := ∀ w < t.cache.ways, (t.cache.lines set w).valid = true
  match t.cache.policy with
  | .lru _ => ∀ set, ∀ w < t.cache.ways, 0 < t.time set w → (t.cache.lines set w).valid = true
  | .fifo next _ => ∀ set, full set ∨ ∀ w < t.cache.ways, ((t.cache.lines set w).valid = true ↔ w < next set)
  | .plru usage _ => t.cache.ways < 64 ∧
      ∀ set, full set ∨ ∀ w < t.cache.ways, ((t.cache.lines set w).valid = true ↔ (usage set).getLsbD w = true)
  | _ => t.cache.ways = 1

/-- Where no way was left behind, a set with room has one that goes first. -/
theorem Filled.offers (hf : t.Filled) (h : t.Inv) {addr : U64} (hroom : t.cache.HasRoom addr) :
    t.Offers (t.cache.setIndex addr) := by
  obtain ⟨w, hw, hfree⟩ := hroom
  revert hfree
  unfold Offers
  generalize t.cache.setIndex addr = set
  intro hfree
  have hnot : ¬ (t.cache.lines set w).valid = true := by simp [hfree]
  have hwithin := h.within
  unfold Filled at hf
  dsimp only at hf ⊢
  cases hp : t.cache.policy with
  | lru usage =>
    rw [hp] at hf
    have hzero : ¬ 0 < t.time set w := fun hpos => hnot (hf set w hw hpos)
    refine ⟨w, ⟨hw, hfree⟩, fun v hv => ?_⟩
    have hpos := h.used set v hv.2
    omega
  | mru usage =>
    rw [hp] at hf
    refine ⟨w, ⟨hw, hfree⟩, fun v hv => ?_⟩
    have hone : t.cache.ways = 1 := hf
    obtain rfl : v = w := by omega
    exact absurd hv.2 hnot
  | fifo next ways' =>
    rw [hp] at hf hwithin
    have hnext : next set < t.cache.ways := hwithin.2 set
    rcases hf set with hfull | hiff
    · exact absurd (hfull w hw) hnot
    · exact ⟨hnext, by simpa using fun hv => Nat.lt_irrefl _ ((hiff _ hnext).mp hv)⟩
  | plru usage ways' =>
    rw [hp] at hf
    obtain ⟨hlt, hf⟩ := hf
    rcases hf set with hfull | hiff
    · exact absurd (hfull w hw) hnot
    · refine .inl ⟨w, ⟨hw, hfree⟩, ?_, fun v hvw hv => ?_⟩
      · rw [Nat.mod_eq_of_lt (by omega : w < 64)]
        exact fun hbit => hnot ((hiff w hw).mpr hbit)
      · rw [Nat.mod_eq_of_lt (by omega : v < 64)]
        exact (hiff v hv.1).mp hv.2
  | random ways' state =>
    rw [hp] at hf hwithin
    have hone : t.cache.ways = 1 := hf
    obtain rfl : ways' = t.cache.ways := hwithin
    have hdraw : (ReplacementPolicy.xorshift state).toNat % t.cache.ways = w := by
      rw [hone, Nat.mod_one]
      omega
    show _ < t.cache.ways ∧ (t.cache.lines set _).valid = false
    rw [hdraw]
    exact ⟨hw, hfree⟩

theorem Filled.ready (hf : t.Filled) (h : t.Inv) (e : Event P) : t.Ready e := by
  cases e with
  | install addr isWrite => exact hf.offers h
  | _ => trivial

theorem Filled.new (config : CacheConfig) (prefetcher : Option P) (h : config.Fills) :
    Filled (⟨CacheSim.new config prefetcher, .never⟩ : Traced P) := by
  have hways : (CacheSim.new config prefetcher).ways = if config.ways = 0 then 1 else config.ways := rfl
  have hone : config.ways ≤ 1 → (CacheSim.new config prefetcher).ways = 1 := by
    intro hle
    rw [hways]
    split <;> omega
  unfold Filled
  dsimp only
  cases hp : config.policy with
  | lru =>
    simp only [CacheSim.new, hp, ReplacementPolicy.new]
    exact fun set w _ hpos => absurd hpos (Nat.lt_irrefl 0)
  | fifo =>
    simp only [CacheSim.new, hp, ReplacementPolicy.new]
    exact fun set => .inr fun w _ => ⟨fun hv => absurd hv Bool.false_ne_true, fun hw => absurd hw (Nat.not_lt_zero w)⟩
  | plru =>
    have hlt : (CacheSim.new config prefetcher).ways < 64 := by
      rcases h with h | h | h | h
      · cases hp.symm.trans h
      · cases hp.symm.trans h
      · rw [hways]
        split <;> omega
      · rw [hone h]
        decide
    simp only [CacheSim.new, hp, ReplacementPolicy.new]
    refine ⟨hlt, fun set => .inr fun w _ => ⟨fun hv => absurd hv Bool.false_ne_true, fun hb => ?_⟩⟩
    simp at hb
  | mru =>
    simp only [CacheSim.new, hp, ReplacementPolicy.new]
    refine hone ?_
    simpa [CacheConfig.Fills, hp] using h
  | random =>
    simp only [CacheSim.new, hp, ReplacementPolicy.new]
    refine hone ?_
    simpa [CacheConfig.Fills, hp] using h

/-- A way that is used holds a line already, or is the victim, or is the first free one. -/
theorem touched_cases {set way : Nat} (h : c.touched e = some (set, way)) :
    (c.lines set way).valid = true ∨ way = (c.policy.getVictim set).1 ∨ ∀ v < way, (c.lines set v).valid = true := by
  cases e with
  | hit addr isWrite =>
    obtain ⟨v, hf, heq⟩ := Option.map_eq_some_iff.mp h
    cases heq
    exact .inl (hits_iff.mp (findWay_some hf).2).1
  | install addr isWrite =>
    cases h
    exact .inr (.inl rfl)
  | refill addr isWrite =>
    obtain ⟨v, hf, heq⟩ := Option.map_eq_some_iff.mp h
    cases heq
    exact .inr (.inr (freeWay_some hf).2.2)
  | drop gone => cases h
  | observed prefetcher => cases h

section OneSet

variable {ways next way : Nat} {valid valid' : Nat → Prop}

/-- One use of a set under FIFO: at the pointer, or before it. -/
theorem fifo_filled (hnext : next < ways) (hway : way < ways) (hvalid : ∀ w, valid' w ↔ valid w ∨ w = way)
    (hcase : valid way ∨ way = next ∨ ∀ v < way, valid v)
    (h : (∀ w < ways, valid w) ∨ ∀ w < ways, (valid w ↔ w < next)) :
    (∀ w < ways, valid' w) ∨ ∀ w < ways, (valid' w ↔ w < if next = way then (next + 1) % ways else next) := by
  rcases h with hfull | hiff
  · exact .inl fun w hw => (hvalid w).mpr (.inl (hfull w hw))
  have hle : way ≤ next := by
    rcases hcase with hv | heq | hbefore
    · exact Nat.le_of_lt ((hiff way hway).mp hv)
    · exact Nat.le_of_eq heq
    · by_contra hgt
      exact Nat.lt_irrefl next ((hiff next hnext).mp (hbefore next (by omega)))
  by_cases heq : next = way
  · rw [if_pos heq]
    by_cases hlast : next + 1 = ways
    -- the last way: the set is full, and the pointer is back at the first
    · refine .inl fun w hw => (hvalid w).mpr ?_
      rw [hiff w hw]
      omega
    · refine .inr fun w hw => ?_
      rw [hvalid, hiff w hw, Nat.mod_eq_of_lt (by omega)]
      omega
  · refine .inr fun w hw => ?_
    rw [if_neg heq, hvalid, hiff w hw]
    omega

/-- One use of a set under PLRU: the way gets its bit, or all ways have been used. -/
theorem plru_filled {usage : U64} (hlt : ways < 64) (hway : way < ways) (hvalid : ∀ w, valid' w ↔ valid w ∨ w = way)
    (h : (∀ w < ways, valid w) ∨ ∀ w < ways, (valid w ↔ usage.getLsbD w = true)) :
    (∀ w < ways, valid' w) ∨
      ∀ w < ways, (valid' w ↔ (ReplacementPolicy.plruBits ways usage way).getLsbD w = true) := by
  rcases h with hfull | hiff
  · exact .inl fun w hw => (hvalid w).mpr (.inl (hfull w hw))
  rcases ReplacementPolicy.plruBits_cases hlt usage hway with hall | hbits
  · refine .inl fun w hw => ?_
    rw [hvalid, hiff w hw]
    simpa using hall w hw
  · refine .inr fun w hw => ?_
    rw [hvalid, hiff w hw, hbits w hw]
    simp

end OneSet

/-- What `Filled` says is about the policy, the ways, the lines that are there and the times. -/
theorem Filled.congr {t' : Traced P} (hf : t.Filled) (hpolicy : t'.cache.policy = t.cache.policy)
    (hways : t'.cache.ways = t.cache.ways) (htime : t'.time = t.time)
    (hvalid : ∀ s w, (t'.cache.lines s w).valid = (t.cache.lines s w).valid) : t'.Filled := by
  unfold Filled
  simp only [hpolicy, hways, htime, hvalid]
  exact hf

/-- An event that drops nothing leaves no way behind. -/
theorem Filled.perform (hf : t.Filled) (h : t.Inv) (hd : e.isDrop = false) : (t.perform e).Filled := by
  have hways : (t.perform e).cache.ways = t.cache.ways := ways_perform t.cache e
  have hvalid : ∀ s w, ((t.perform e).cache.lines s w).valid = true ↔
      (t.cache.lines s w).valid = true ∨ t.cache.touched e = some (s, w) := valid_perform hd
  have hpolicy : (t.perform e).cache.policy = _ := policy_perform t.cache e
  have hwithin := h.within
  cases ht : t.cache.touched e with
  | none =>
    rw [ht] at hpolicy
    refine hf.congr hpolicy hways (funext fun s => funext fun w => ?_) fun s w => ?_
    · unfold time
      rw [uses_untouched ht]
    · rw [Bool.eq_iff_iff, hvalid, ht]
      simp
  | some place =>
    obtain ⟨set, way⟩ := place
    have hway := touched_lt h.ways_pos h.within ht
    have hother :
        ∀ s w, s ≠ set → (((t.perform e).cache.lines s w).valid = true ↔ (t.cache.lines s w).valid = true) := by
      intro s w hs
      rw [hvalid, ht, Option.some_inj, Prod.mk.injEq]
      exact or_iff_left fun hc => hs hc.1.symm
    have hsame : ∀ w, ((t.perform e).cache.lines set w).valid = true ↔
        (t.cache.lines set w).valid = true ∨ w = way := by
      intro w
      rw [hvalid, ht, Option.some_inj, Prod.mk.injEq, and_iff_right rfl, eq_comm (a := way)]
    rw [ht] at hpolicy
    have hasked := asked_same h.within (e := e)
    unfold Filled at hf ⊢
    dsimp only at hf ⊢
    rw [hways]
    cases hp : t.cache.policy with
    | lru usage =>
      rw [hp] at hf hasked
      rw [hasked (by simp)] at hpolicy
      rw [hpolicy]
      intro s w hw hpos
      rw [hvalid]
      by_cases hsw : (s, w) = (set, way)
      · exact .inr (ht.trans (congrArg some hsw.symm))
      · refine .inl (hf s w hw ?_)
        unfold time at hpos ⊢
        rw [uses_touched ht, Recency.last_touch_of_ne hsw] at hpos
        exact hpos
    | mru usage =>
      rw [hp] at hf hasked
      rw [hasked (by simp)] at hpolicy
      rw [hpolicy]
      exact hf
    | fifo next ways' =>
      rw [hp] at hf hwithin hasked
      rw [hasked (by simp)] at hpolicy
      obtain ⟨hw', hnext⟩ := hwithin
      have hnew : (t.perform e).cache.policy =
          .fifo (Function.update next set (if next set = way then (next set + 1) % t.cache.ways else next set))
            ways' := by
        rw [hpolicy, hw']
        simp only [Option.elim, ReplacementPolicy.update]
        by_cases hn : next set = way
        · rw [if_pos hn, if_pos hn]
        · rw [if_neg hn, if_neg hn, Function.update_eq_self]
      rw [hnew]
      intro s
      by_cases hs : s = set
      · subst hs
        have hcase := touched_cases ht
        rw [hp] at hcase
        rw [Function.update_self]
        exact fifo_filled (hnext s) hway hsame hcase (hf s)
      · rw [Function.update_of_ne hs]
        simp only [hother s _ hs]
        exact hf s
    | plru usage ways' =>
      rw [hp] at hf hwithin hasked
      rw [hasked (by simp)] at hpolicy
      obtain rfl : ways' = t.cache.ways := hwithin
      rw [hpolicy]
      refine ⟨hf.1, fun s => ?_⟩
      by_cases hs : s = set
      · subst hs
        rw [Function.update_self]
        exact plru_filled hf.1 hway hsame (hf.2 s)
      · rw [Function.update_of_ne hs]
        simp only [hother s _ hs]
        exact hf.2 s
    | random ways' state =>
      rw [hp] at hf hwithin
      obtain rfl : ways' = t.cache.ways := hwithin
      obtain ⟨state', hrandom⟩ := asked_random hp (e := e)
      rw [hrandom] at hpolicy
      rw [hpolicy]
      exact hf

end Traced

/-! ### Runs -/

section

variable [Prefetcher P]

/-- **No line goes out of a set with room just when, at every install into one, the
policy offers a free way.** So it is in every run of LRU, FIFO or PLRU of fewer
than 64 ways, or of a single way, that takes no line out. -/
theorem thrifty_right (config : CacheConfig) (prefetcher : Option P) (ops : List CacheOp) :
    (Runs.Always Traced.perform (fun t e => t.cache.Thrifty e) ⟨new config prefetcher, .never⟩
        ((new config prefetcher).history ops) ↔
      Runs.Always Traced.perform Traced.Ready ⟨new config prefetcher, .never⟩ ((new config prefetcher).history ops)) ∧
    (config.Fills → (∀ op ∈ ops, op.removes = false) →
      Runs.Always Traced.perform (fun t e => t.cache.Thrifty e) ⟨new config prefetcher, .never⟩
        ((new config prefetcher).history ops)) := by
  have hinit := Traced.Inv.new config prefetcher
  constructor
  · exact Runs.always_congr Traced.Inv hinit (fun t e _ h _ => h.perform e) fun t e _ h => Traced.thrifty_iff h e
  · intro hfills hkeep
    have hdrop := history_drop (new config prefetcher) hkeep
    refine Runs.always_of_inv (fun t => t.Inv ∧ t.Filled) ⟨hinit, .new config prefetcher hfills⟩ ?_ ?_
    · exact fun t e he h => ⟨h.1.perform e, h.2.perform h.1 (hdrop e he)⟩
    · exact fun t e _ h => (Traced.thrifty_iff h.1 e).mpr (h.2.ready h.1 e)

end

/-- 4 KiB in sets of two ways under MRU. -/
def mruL1d : CacheSim NextLinePrefetcher := new { sizeBytes := 4096, ways := 2, policy := .mru } none

/-- Reads of two lines of one set. -/
def twoReads : List CacheOp := [.access 0x1000 false, .access 0x2000 false]

/-- **The second line takes the place of the first**, with the other way empty. -/
theorem thrifty_wasted : ¬ Runs.Always Traced.perform (fun t e => t.cache.Thrifty e) ⟨mruL1d, .never⟩
    (mruL1d.history twoReads) := by
  have hevents : mruL1d.history twoReads =
      [.install 0x1000 false, .observed none, .install 0x2000 false, .observed none] := rfl
  rw [hevents]
  rintro ⟨-, -, hsecond, -⟩
  have hroom : (mruL1d.perform (.install 0x1000 false)).HasRoom 0x2000 := ⟨1, by decide, by decide⟩
  have hnone := (hsecond hroom).1
  exact absurd hnone (by decide)

end CacheSim

end Rvsim
