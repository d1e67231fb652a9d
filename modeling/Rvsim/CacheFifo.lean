/-
# First in, first out

`policies/fifo.rs` keeps one pointer for each set. It moves on when the way it
is at is used, and a hit uses a way as an install does. While a set fills up the
pointer is at the next empty way, which nothing can hit. Once the set is full it
is at the line that came in first, and a hit on that line moves it past: the
line goes out only when the pointer has come round again.

Key definitions:
  - `CacheSim.Aged`, `CacheSim.Aged.FirstOut`, `CacheSim.Aged.CameRound`
Key theorems:
  - `CacheSim.Aged.Inv.perform`, `CacheSim.fifo_right`, `CacheSim.fifo_passed_over`
-/
import Mathlib.Data.List.Rotate
import Rvsim.CacheRoom

namespace Rvsim

namespace CacheSim

variable {P : Type}

/-- A line comes in. -/
def Event.arrives : Event P → Bool
  | .install _ _ | .refill _ _ => true
  | _ => false

/-- A use of the line at the head of the queue sends it to the back. -/
def requeue (way : Nat) : List Nat → List Nat
  | [] => []
  | v :: rest => if v = way then rest ++ [v] else v :: rest

/-- The cache with the ways of each set in the order in which their lines came in,
and with the queue that the hits since the last arrival have made of that order. -/
structure Aged (P : Type) where
  cache : CacheSim P
  order : Nat → List Nat
  queue : Nat → List Nat

namespace Aged

def new (cache : CacheSim P) : Aged P := ⟨cache, fun _ => [], fun _ => []⟩

def perform (t : Aged P) (e : Event P) : Aged P :=
  match t.cache.touched e with
  | none => { t with cache := t.cache.perform e }
  | some (set, way) =>
    if e.arrives then
      let order := (t.order set).erase way ++ [way]
      ⟨t.cache.perform e, Function.update t.order set order, Function.update t.queue set order⟩
    else { t with cache := t.cache.perform e, queue := Function.update t.queue set (requeue way (t.queue set)) }

def Full (t : Aged P) (set : Nat) : Prop := ∀ w < t.cache.ways, (t.cache.lines set w).valid = true

/-- An install into a full set takes the line out that came in first. -/
def FirstOut (t : Aged P) : Event P → Prop
  | .install addr _ =>
    t.Full (t.cache.setIndex addr) → (t.order (t.cache.setIndex addr)).head? = some (t.cache.victim addr)
  | _ => True

/-- At an install into a full set the hits have sent every line to the back of the
queue equally often: the line at its head is the one that came in first. -/
def CameRound (t : Aged P) : Event P → Prop
  | .install addr _ =>
    t.Full (t.cache.setIndex addr) →
      (t.queue (t.cache.setIndex addr)).head? = (t.order (t.cache.setIndex addr)).head?
  | _ => True

/-- A set that fills up way by way, the pointer at the next. -/
structure Filling (t : Aged P) (next set : Nat) : Prop where
  valid : ∀ w < t.cache.ways, ((t.cache.lines set w).valid = true ↔ w < next)
  order : t.order set = List.range next

/-- A full set: the lines came in from some way on, round and round, and the queue starts at the pointer. -/
structure Turning (t : Aged P) (next set : Nat) : Prop where
  full : t.Full set
  order : ∃ first < t.cache.ways, t.order set = (List.range t.cache.ways).rotate first
  queue : t.queue set = (List.range t.cache.ways).rotate next

structure Inv (t : Aged P) (next : Nat → Nat) : Prop where
  policy : t.cache.policy = .fifo next t.cache.ways
  next_lt : ∀ set, next set < t.cache.ways
  sets : ∀ set, t.Filling (next set) set ∨ t.Turning (next set) set

end Aged

/-- The ways from some way on, round and round: that way, then those from the next way on. -/
theorem rotate_range {ways first : Nat} (h : first < ways) :
    ∃ rest, (List.range ways).rotate first = first :: rest ∧
      rest ++ [first] = (List.range ways).rotate ((first + 1) % ways) := by
  have hlen : first ≤ (List.range ways).length := by rw [List.length_range]; omega
  have hdrop : (List.range ways).drop first = first :: (List.range ways).drop (first + 1) := by
    have hget : first < (List.range ways).length := by rw [List.length_range]; exact h
    rw [List.drop_eq_getElem_cons hget, List.getElem_range]
  have hcons : (List.range ways).rotate first =
      first :: ((List.range ways).drop (first + 1) ++ (List.range ways).take first) := by
    rw [List.rotate_eq_drop_append_take hlen, hdrop, List.cons_append]
  refine ⟨_, hcons, ?_⟩
  calc (List.range ways).drop (first + 1) ++ (List.range ways).take first ++ [first]
      = (first :: ((List.range ways).drop (first + 1) ++ (List.range ways).take first)).rotate 1 := by
        rw [List.rotate_cons_succ, List.rotate_zero]
    _ = ((List.range ways).rotate first).rotate 1 := by rw [hcons]
    _ = (List.range ways).rotate (first + 1) := List.rotate_rotate _ _ _
    _ = (List.range ways).rotate ((first + 1) % ways) := by
        rw [← List.rotate_mod, List.length_range]

namespace Aged

variable {t : Aged P} {next : Nat → Nat} {e : Event P}

/-- **Where the queue starts with the line that came in first, that line goes out**, and nowhere else. -/
theorem Inv.firstOut_iff (h : t.Inv next) (e : Event P) : t.FirstOut e ↔ t.CameRound e := by
  cases e with
  | install addr isWrite =>
    have hvictim : t.cache.victim addr = next (t.cache.setIndex addr) := by
      unfold victim
      rw [h.policy]
      rfl
    simp only [FirstOut, CameRound, hvictim]
    refine forall_congr' fun hfull => ?_
    rcases h.sets (t.cache.setIndex addr) with hs | hs
    · have hlt := h.next_lt (t.cache.setIndex addr)
      exact absurd ((hs.valid _ hlt).mp (hfull _ hlt)) (Nat.lt_irrefl _)
    · obtain ⟨rest, hqueue, -⟩ := rotate_range (h.next_lt (t.cache.setIndex addr))
      rw [hs.queue, hqueue, List.head?_cons]
      exact eq_comm
  | _ => exact Iff.rfl

/-- The pointer after a use. -/
def moved (ways next way : Nat) : Nat := if next = way then (next + 1) % ways else next

theorem moved_lt {ways next way : Nat} (h : next < ways) : moved ways next way < ways := by
  unfold moved
  split
  · exact Nat.mod_lt _ (by omega)
  · exact h

theorem perform_cache (t : Aged P) (e : Event P) : (t.perform e).cache = t.cache.perform e := by
  unfold perform
  split
  · rfl
  · split <;> rfl

section OneSet

variable {set way : Nat} {t' : Aged P}

/-- A line goes into the way at the pointer of a set that fills up. -/
theorem Filling.arrive {n : Nat} (h : t.Filling n set) (hn : n < t.cache.ways) (hways : t'.cache.ways = t.cache.ways)
    (hvalid : ∀ w, (t'.cache.lines set w).valid = true ↔ (t.cache.lines set w).valid = true ∨ w = n)
    (horder : t'.order set = (t.order set).erase n ++ [n]) (hqueue : t'.queue set = t'.order set) :
    t'.Filling (moved t.cache.ways n n) set ∨ t'.Turning (moved t.cache.ways n n) set := by
  have hgone : (List.range n).erase n = List.range n :=
    List.erase_of_not_mem fun hmem => Nat.lt_irrefl n (List.mem_range.mp hmem)
  have hrange : t'.order set = List.range (n + 1) := by
    rw [horder, h.order, hgone, List.range_succ]
  have hnew : ∀ w < t.cache.ways, ((t'.cache.lines set w).valid = true ↔ w < n + 1) := by
    intro w hw
    rw [hvalid, h.valid w hw]
    omega
  unfold moved
  rw [if_pos rfl]
  by_cases hlast : n + 1 = t.cache.ways
  · rw [hlast, Nat.mod_self]
    refine .inr ⟨fun w hw => ?_, ⟨0, by omega, ?_⟩, ?_⟩
    · rw [hways] at hw
      exact (hnew w hw).mpr (by omega)
    · rw [hrange, hways, hlast, List.rotate_zero]
    · rw [hqueue, hrange, hways, hlast, List.rotate_zero]
  · rw [Nat.mod_eq_of_lt (by omega)]
    refine .inl ⟨fun w hw => ?_, hrange⟩
    rw [hways] at hw
    exact hnew w hw

/-- A line goes into the way of the line that came in first. -/
theorem Turning.arrive {n : Nat} (h : t.Turning n set) (hfirst : (t.order set).head? = some n)
    (hways : t'.cache.ways = t.cache.ways)
    (hvalid : ∀ w, (t'.cache.lines set w).valid = true ↔ (t.cache.lines set w).valid = true ∨ w = n)
    (horder : t'.order set = (t.order set).erase n ++ [n]) (hqueue : t'.queue set = t'.order set) :
    t'.Turning (moved t.cache.ways n n) set := by
  obtain ⟨first, hlt, hrot⟩ := h.order
  obtain ⟨rest, hcons, hnext⟩ := rotate_range hlt
  obtain rfl : first = n := by
    rw [hrot, hcons, List.head?_cons] at hfirst
    exact Option.some.inj hfirst
  have hnew : t'.order set = (List.range t.cache.ways).rotate ((first + 1) % t.cache.ways) := by
    rw [horder, hrot, hcons, List.erase_cons_head, hnext]
  unfold moved
  rw [if_pos rfl]
  refine ⟨fun w hw => (hvalid w).mpr (.inl (h.full w (hways ▸ hw))), ⟨(first + 1) % t.cache.ways, ?_, ?_⟩, ?_⟩
  · rw [hways]
    exact Nat.mod_lt _ (by omega)
  · rw [hnew, hways]
  · rw [hqueue, hnew, hways]

/-- A hit in a set that fills up leaves the pointer, which is at an empty way. -/
theorem Filling.hit {n : Nat} (h : t.Filling n set) (hway : way < t.cache.ways)
    (hthere : (t.cache.lines set way).valid = true)
    (hways : t'.cache.ways = t.cache.ways)
    (hvalid : ∀ w, (t'.cache.lines set w).valid = true ↔ (t.cache.lines set w).valid = true)
    (horder : t'.order set = t.order set) :
    t'.Filling (moved t.cache.ways n way) set := by
  have hbefore : moved t.cache.ways n way = n := by
    have hlt := (h.valid way hway).mp hthere
    unfold moved
    rw [if_neg]
    omega
  rw [hbefore]
  refine ⟨fun w hlt => ?_, horder.trans h.order⟩
  rw [hvalid]
  exact h.valid w (hways ▸ hlt)

/-- A hit in a full set moves the pointer as it moves the queue. -/
theorem Turning.hit {n : Nat} (h : t.Turning n set) (hn : n < t.cache.ways) (hways : t'.cache.ways = t.cache.ways)
    (hvalid : ∀ w, (t'.cache.lines set w).valid = true ↔ (t.cache.lines set w).valid = true)
    (horder : t'.order set = t.order set) (hqueue : t'.queue set = requeue way (t.queue set)) :
    t'.Turning (moved t.cache.ways n way) set := by
  refine ⟨fun w hw => (hvalid w).mpr (h.full w (hways ▸ hw)), ?_, ?_⟩
  · rw [horder, hways]
    exact h.order
  · obtain ⟨rest, hcons, hnext⟩ := rotate_range hn
    rw [hqueue, h.queue, hways, hcons]
    unfold moved requeue
    dsimp only
    by_cases heq : n = way
    · rw [if_pos heq, if_pos heq]
      exact hnext
    · rw [if_neg heq, if_neg heq]
      exact hcons.symm

end OneSet

/-- What is said of a set stays said while its lines and lists do. -/
theorem Inv.other {t' : Aged P} {n set : Nat} (h : t.Filling n set ∨ t.Turning n set)
    (hways : t'.cache.ways = t.cache.ways)
    (hvalid : ∀ w, (t'.cache.lines set w).valid = true ↔ (t.cache.lines set w).valid = true)
    (horder : t'.order set = t.order set) (hqueue : t'.queue set = t.queue set) :
    t'.Filling n set ∨ t'.Turning n set := by
  rcases h with h | h
  · refine .inl ⟨fun w hw => ?_, horder.trans h.order⟩
    rw [hvalid]
    exact h.valid w (hways ▸ hw)
  · refine .inr ⟨fun w hw => (hvalid w).mpr (h.full w (hways ▸ hw)), ?_, ?_⟩
    · rw [horder, hways]
      exact h.order
    · rw [hqueue, hways]
      exact h.queue

/-- A way that a line comes into is the one at the pointer. -/
theorem Inv.arrives_at (h : t.Inv next) {set way : Nat} (ht : t.cache.touched e = some (set, way))
    (ha : e.arrives = true) :
    way = next set := by
  cases e with
  | install addr isWrite =>
    cases ht
    unfold victim
    rw [h.policy]
    rfl
  | refill addr isWrite =>
    obtain ⟨v, hf, heq⟩ := Option.map_eq_some_iff.mp ht
    cases heq
    obtain ⟨hv, hfree, hbefore⟩ := freeWay_some hf
    have hnot : ¬ (t.cache.lines (t.cache.setIndex addr) way).valid = true := by simp [hfree]
    rcases h.sets (t.cache.setIndex addr) with hs | hs
    · have hlt := h.next_lt (t.cache.setIndex addr)
      rcases Nat.lt_trichotomy way (next (t.cache.setIndex addr)) with hlt' | heq | hgt
      · exact absurd ((hs.valid way hv).mpr hlt') hnot
      · exact heq
      · exact absurd ((hs.valid _ hlt).mp (hbefore _ hgt)) (Nat.lt_irrefl _)
    · exact absurd (hs.full way hv) hnot
  | _ => cases ha

/-- A way that is hit holds a line. -/
theorem valid_of_hit {set way : Nat} (ht : t.cache.touched e = some (set, way)) (ha : e.arrives = false) :
    (t.cache.lines set way).valid = true := by
  cases e with
  | hit addr isWrite =>
    obtain ⟨v, hf, heq⟩ := Option.map_eq_some_iff.mp ht
    cases heq
    exact (hits_iff.mp (findWay_some hf).2).1
  | install addr isWrite => cases ha
  | refill addr isWrite => cases ha
  | _ => cases ht

/-- Where a line comes into a full set, it is the way of the line that came in first. -/
theorem Turning.arrives_first {n set way : Nat} (h : t.Turning n set) (ht : t.cache.touched e = some (set, way))
    (ha : e.arrives = true) (hout : t.FirstOut e) : (t.order set).head? = some way := by
  cases e with
  | install addr isWrite =>
    cases ht
    exact hout h.full
  | refill addr isWrite =>
    obtain ⟨v, hf, heq⟩ := Option.map_eq_some_iff.mp ht
    cases heq
    obtain ⟨hv, hfree, -⟩ := freeWay_some hf
    rw [h.full way hv] at hfree
    cases hfree
  | _ => cases ha

/-- What an event does to the set that it uses. -/
theorem Inv.touched_set (h : t.Inv next) {set way : Nat} (ht : t.cache.touched e = some (set, way))
    (hout : t.FirstOut e)
    (hways : (t.perform e).cache.ways = t.cache.ways)
    (hline : ∀ w, ((t.perform e).cache.lines set w).valid = true ↔ (t.cache.lines set w).valid = true ∨ w = way) :
    (t.perform e).Filling (moved t.cache.ways (next set) way) set ∨
      (t.perform e).Turning (moved t.cache.ways (next set) way) set := by
  cases ha : e.arrives with
  | true =>
    obtain rfl := h.arrives_at ht ha
    have horder : (t.perform e).order set = (t.order set).erase (next set) ++ [next set] := by
      simp only [Aged.perform, ht, ha, if_true, Function.update_self]
    have hqueue : (t.perform e).queue set = (t.perform e).order set := by
      simp only [Aged.perform, ht, ha, if_true, Function.update_self]
    rcases h.sets set with hset | hset
    · exact hset.arrive (h.next_lt set) hways hline horder hqueue
    · exact .inr (hset.arrive (hset.arrives_first ht ha hout) hways hline horder hqueue)
  | false =>
    have hthere := valid_of_hit ht ha
    have horder : (t.perform e).order set = t.order set := by
      simp only [Aged.perform, ht, ha, Bool.false_eq_true, if_false]
    have hqueue : (t.perform e).queue set = requeue way (t.queue set) := by
      simp only [Aged.perform, ht, ha, Bool.false_eq_true, if_false, Function.update_self]
    have hsame : ∀ w, ((t.perform e).cache.lines set w).valid = true ↔ (t.cache.lines set w).valid = true := by
      intro w
      rw [hline]
      refine or_iff_left_of_imp ?_
      rintro rfl
      exact hthere
    rcases h.sets set with hset | hset
    · have hpos : 0 < t.cache.ways := Nat.lt_of_le_of_lt (Nat.zero_le _) (h.next_lt set)
      have hway : way < t.cache.ways := touched_lt hpos (by rw [h.policy]; exact ⟨rfl, h.next_lt⟩) ht
      exact .inl (hset.hit hway hthere hways hsame horder)
    · exact .inr (hset.hit (h.next_lt set) hways hsame horder hqueue)

/-- **An event keeps sets that fill up and sets that turn**, as long as the line
that came in first goes out. -/
theorem Inv.perform (h : t.Inv next) (hd : e.isDrop = false) (hout : t.FirstOut e) :
    ∃ next', (t.perform e).Inv next' := by
  have hways : (t.perform e).cache.ways = t.cache.ways := by rw [perform_cache]; exact ways_perform t.cache e
  have hvalid : ∀ s w, ((t.perform e).cache.lines s w).valid = true ↔
      (t.cache.lines s w).valid = true ∨ t.cache.touched e = some (s, w) := by
    rw [perform_cache]
    exact valid_perform hd
  have hpolicy : (t.perform e).cache.policy = _ := (congrArg _ (perform_cache t e)).trans (policy_perform t.cache e)
  have hasked : t.cache.asked e = t.cache.policy :=
    asked_same (by rw [h.policy]; exact ⟨rfl, h.next_lt⟩) (by rw [h.policy]; exact fun _ hc => by cases hc)
  rw [hasked, h.policy] at hpolicy
  cases ht : t.cache.touched e with
  | none =>
    rw [ht] at hpolicy
    refine ⟨next, ⟨hpolicy.trans (by rw [hways]; rfl), fun s => hways ▸ h.next_lt s, fun s => ?_⟩⟩
    refine Inv.other (h.sets s) hways (fun w => ?_) ?_ ?_
    · rw [hvalid, ht]
      simp
    · simp only [Aged.perform, ht]
    · simp only [Aged.perform, ht]
  | some place =>
    obtain ⟨set, way⟩ := place
    rw [ht] at hpolicy
    have hw : ∀ s w, ((t.perform e).cache.lines s w).valid = true ↔
        (t.cache.lines s w).valid = true ∨ (s = set ∧ w = way) := by
      intro s w
      rw [hvalid, ht, Option.some_inj, Prod.mk.injEq, eq_comm (a := set), eq_comm (a := way)]
    refine ⟨Function.update next set (moved t.cache.ways (next set) way), ⟨?_, fun s => ?_, fun s => ?_⟩⟩
    · rw [hpolicy, hways]
      unfold moved
      simp only [Option.elim, ReplacementPolicy.update]
      by_cases hn : next set = way
      · rw [if_pos hn, if_pos hn]
      · rw [if_neg hn, if_neg hn, Function.update_eq_self]
    · rw [hways]
      by_cases hs : s = set
      · rw [hs, Function.update_self]
        exact moved_lt (h.next_lt set)
      · rw [Function.update_of_ne hs]
        exact h.next_lt s
    · by_cases hs : s = set
      · subst hs
        rw [Function.update_self]
        exact h.touched_set ht hout hways fun w => (hw s w).trans (or_congr_right (and_iff_right rfl))
      · rw [Function.update_of_ne hs]
        refine Inv.other (h.sets s) hways (fun w => ?_) ?_ ?_
        · rw [hw]
          exact or_iff_left fun hc => hs hc.1
        · cases ha : e.arrives <;> simp [Aged.perform, ht, ha, Function.update_of_ne hs]
        · cases ha : e.arrives <;> simp [Aged.perform, ht, ha, Function.update_of_ne hs]

theorem Inv.new (config : CacheConfig) (prefetcher : Option P) (h : config.policy = .fifo) :
    (Aged.new (CacheSim.new config prefetcher)).Inv fun _ => 0 := by
  have hs := new_sound config prefetcher
  refine ⟨?_, fun _ => hs.ways_pos, fun set => .inl ⟨fun w _ => ?_, rfl⟩⟩
  · simp only [Aged.new, CacheSim.new, h]
    rfl
  · exact ⟨fun hv => absurd hv Bool.false_ne_true, fun hw => absurd hw (Nat.not_lt_zero w)⟩

end Aged

/-! ### Runs -/

section

variable [Prefetcher P]

/-- **Under FIFO the line that came in first goes out, at every install into a full
set of a run, just when at each of them the hits since the last arrival have been
all round the set or have not begun.** -/
theorem fifo_right (config : CacheConfig) (prefetcher : Option P) (ops : List CacheOp) (hp : config.policy = .fifo)
    (hkeep : ∀ op ∈ ops, op.removes = false) :
    Runs.Always Aged.perform Aged.FirstOut (.new (new config prefetcher)) ((new config prefetcher).history ops) ↔
      Runs.Always Aged.perform Aged.CameRound (.new (new config prefetcher)) ((new config prefetcher).history ops) := by
  have hdrop := history_drop (new config prefetcher) hkeep
  refine Runs.always_congr (fun t => ∃ next, t.Inv next) ⟨_, .new config prefetcher hp⟩ ?_ ?_
  · exact fun t e he ⟨_, h⟩ hout => h.perform (hdrop e he) hout
  · exact fun t e _ ⟨_, h⟩ => h.firstOut_iff e

end

/-- 4 KiB in sets of two ways under FIFO. -/
def fifoL1d : CacheSim NextLinePrefetcher := new { sizeBytes := 4096, ways := 2, policy := .fifo } none

/-- A set fills up and a third line comes. -/
def thirdLine : List CacheOp := [.access 0x1000 false, .access 0x2000 false, .access 0x3000 false]

/-- Nothing is read again, and the first line goes out. -/
theorem fifo_right_thirdLine : Runs.Always Aged.perform Aged.CameRound (.new fifoL1d) (fifoL1d.history thirdLine) ∧
    Runs.Always Aged.perform Aged.FirstOut (.new fifoL1d) (fifoL1d.history thirdLine) := by
  have hround : Runs.Always Aged.perform Aged.CameRound (.new fifoL1d) (fifoL1d.history thirdLine) := by
    have hevents : fifoL1d.history thirdLine =
        [.install 0x1000 false, .observed none, .install 0x2000 false, .observed none, .install 0x3000 false,
          .observed none] := rfl
    rw [hevents]
    refine ⟨?_, trivial, ?_, trivial, ?_, trivial, trivial⟩
    all_goals
      unfold Aged.CameRound Aged.Full
      decide
  exact ⟨hround, (fifo_right _ none thirdLine rfl (by decide)).mpr hround⟩

/-- A set fills up, its first line is read again and a third line comes. -/
def readAgain : List CacheOp :=
  [.access 0x1000 false, .access 0x2000 false, .access 0x1000 false, .access 0x3000 false]

/-- **The second line goes out**, and the first, read again, stays. -/
theorem fifo_passed_over : ¬ Runs.Always Aged.perform Aged.FirstOut (.new fifoL1d) (fifoL1d.history readAgain) := by
  have hevents : fifoL1d.history readAgain =
      [.install 0x1000 false, .observed none, .install 0x2000 false, .observed none, .hit 0x1000 false, .observed none,
        .install 0x3000 false, .observed none] := rfl
  rw [hevents]
  rintro ⟨-, -, -, -, -, -, hlast, -⟩
  have hhead := hlast (by unfold Aged.Full; decide)
  exact absurd hhead (by decide)

end CacheSim

end Rvsim
