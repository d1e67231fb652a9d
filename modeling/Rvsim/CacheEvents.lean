/-
# What an operation does to a cache, line by line

`units/cache/mod.rs` once more: an operation of a cache as the list of its hits,
its installs and the lines that it drops. One access makes several of these, as
its prefetches go in one after another, and each meets the cache that the one
before it has left.

Key definitions:
  - `CacheSim.Event`, `CacheSim.perform`, `CacheSim.events`, `CacheSim.history`
Key theorems:
  - `CacheSim.step_eq_events`, `CacheSim.after_eq_history`, `CacheSim.history_drop`
-/
import Rvsim.CacheSim
import Rvsim.Lib.Runs

namespace Rvsim

/-- The operation takes lines out and puts none in. -/
def CacheOp.removes : CacheOp → Bool
  | .invalidateLine _ | .flush | .invalidateAll => true
  | _ => false

namespace CacheSim

variable {P : Type}

inductive Event (P : Type) where
  | hit (addr : U64) (isWrite : Bool)
  | install (addr : U64) (isWrite : Bool)
  /-- An evicted line of another level goes into a free way. -/
  | refill (addr : U64) (isWrite : Bool)
  | drop (gone : Nat → Nat → Bool)
  | observed (prefetcher : Option P)

def Event.isDrop : Event P → Bool
  | .drop _ => true
  | _ => false

def perform (c : CacheSim P) : Event P → CacheSim P
  | .hit addr isWrite => (c.lookup addr isWrite).2
  | .install addr isWrite => (c.installLineTracked addr isWrite 0).2
  | .refill addr isWrite =>
    match c.freeWay addr with
    | some way => c.place addr isWrite way c.policy
    | none => c
  | .drop gone =>
    { c with lines := fun set way =>
        if gone set way then { c.lines set way with valid := false, dirty := false } else c.lines set way }
  | .observed prefetcher => { c with prefetcher := prefetcher }

/-- The prefetch targets that are not there, one after another. -/
def prefetchEvents (c : CacheSim P) : List U64 → List (Event P)
  | [] => []
  | target :: targets =>
    if c.contains target then prefetchEvents c targets
    else .install target false :: prefetchEvents (c.perform (.install target false)) targets

section

variable [Prefetcher P]

/-- What the prefetcher makes of an access, with the candidates that pass. -/
def observeEvents (c : CacheSim P) (addr : U64) (hit : Bool) (pass : List U64 → List U64) : List (Event P) :=
  let (targets, c) := c.observe addr hit
  .observed c.prefetcher :: c.prefetchEvents (pass targets)

/-- A hit touches its line and a miss brings its line in, then come the prefetches. -/
def accessEvents (c : CacheSim P) (addr : U64) (isWrite : Bool) (pass : List U64 → List U64) : List (Event P) :=
  if c.enabled then
    let hit := (c.findWay addr).isSome
    let first : Event P := if hit then .hit addr isWrite else .install addr isWrite
    first :: (c.perform first).observeEvents addr hit pass
  else []

/-- A miss brings nothing in yet. -/
def checkEvents (c : CacheSim P) (addr : U64) (isWrite : Bool) : List (Event P) :=
  if c.enabled then
    let hit := (c.findWay addr).isSome
    (if hit then [.hit addr isWrite] else []) ++ (c.lookup addr isWrite).2.observeEvents addr hit id
  else []

def events (c : CacheSim P) : CacheOp → List (Event P)
  | .access addr isWrite => c.accessEvents addr isWrite id
  | .accessTracked addr isWrite => c.accessEvents addr isWrite id
  | .accessTrackedSplit addr isWrite filter => c.accessEvents addr isWrite fun l => (filter.filterAndRecord l).1
  | .accessCheck addr isWrite => c.checkEvents addr isWrite
  | .missCompletion addr isWrite => [.install addr isWrite]
  | .installOrReplace addr isWrite =>
    if c.enabled then [if (c.freeWay addr).isSome then .refill addr isWrite else .install addr isWrite] else []
  | .invalidateLine addr =>
    if c.enabled then
      match c.findWay addr with
      | some way => [.drop fun s w => s == c.setIndex addr && w == way]
      | none => []
    else []
  | .flush => if c.enabled then [.drop fun s w => (c.lines s w).valid && (c.lines s w).dirty] else []
  | .invalidateAll => if c.enabled then [.drop fun s w => (c.lines s w).valid] else []

/-- The events of a sequence of operations. -/
def history (c : CacheSim P) : List CacheOp → List (Event P)
  | [] => []
  | op :: ops => c.events op ++ history (c.step op).2 ops

variable {c : CacheSim P} {op : CacheOp}

omit [Prefetcher P] in
theorem prefetch_eq_events (lat : Nat) (targets : List U64) (c : CacheSim P) :
    (c.installPrefetches lat targets).2 = (c.prefetchEvents targets).foldl perform c := by
  induction targets generalizing c with
  | nil => rfl
  | cons target targets ih =>
    unfold installPrefetches prefetchEvents
    by_cases hc : c.contains target = true
    · rw [if_pos hc, if_pos hc]
      exact ih c
    · rw [if_neg hc, if_neg hc]
      exact ih _

theorem observe_eq_events (c : CacheSim P) (addr : U64) (hit : Bool) (pass : List U64 → List U64) :
    ((c.observe addr hit).2.installPrefetches 0 (pass (c.observe addr hit).1)).2 =
      (c.observeEvents addr hit pass).foldl perform c := by
  have hobs : c.perform (.observed (c.observe addr hit).2.prefetcher) = (c.observe addr hit).2 := by
    unfold observe
    cases hp : c.prefetcher with
    | none =>
      show ({ c with prefetcher := c.prefetcher } : CacheSim P) = c
      rfl
    | some p => rfl
  show _ = ((c.observe addr hit).2.prefetchEvents (pass (c.observe addr hit).1)).foldl perform
    (c.perform (.observed (c.observe addr hit).2.prefetcher))
  rw [hobs]
  exact prefetch_eq_events 0 _ _

theorem access_eq_events (c : CacheSim P) (addr : U64) (isWrite : Bool) (pass : List U64 → List U64)
    (hpass : pass [] = []) :
    ((c.accessTrackedSplit addr isWrite 0).2.installPrefetches 0
        (pass (c.accessTrackedSplit addr isWrite 0).1.2.2.2)).2 =
      (c.accessEvents addr isWrite pass).foldl perform c := by
  unfold accessTrackedSplit accessEvents
  by_cases he : c.enabled = true
  · rw [if_pos he, if_pos he]
    cases hf : c.findWay addr with
    | none =>
      rw [lookup_miss hf]
      exact observe_eq_events _ addr false pass
    | some w =>
      have hhit : (c.lookup addr isWrite).1 = true := by rw [lookup_fst, hf]; rfl
      dsimp only
      rw [if_pos hhit]
      exact observe_eq_events _ addr true pass
  · rw [if_neg he, if_neg he]
    show (c.installPrefetches 0 (pass [])).2 = c
    rw [hpass]
    rfl

theorem check_eq_events (c : CacheSim P) (addr : U64) (isWrite : Bool) :
    (c.accessCheck addr isWrite).2 = (c.checkEvents addr isWrite).foldl perform c := by
  unfold accessCheck checkEvents
  by_cases he : c.enabled = true
  · rw [if_pos he, if_pos he]
    cases hf : c.findWay addr with
    | none =>
      rw [lookup_miss hf]
      exact observe_eq_events c addr false id
    | some w =>
      have hhit : (c.lookup addr isWrite).1 = true := by rw [lookup_fst, hf]; rfl
      have hrest := observe_eq_events (c.lookup addr isWrite).2 addr (c.lookup addr isWrite).1 id
      rw [hhit] at hrest
      dsimp only
      rw [hhit]
      exact hrest
  · rw [if_neg he, if_neg he]
    rfl

omit [Prefetcher P] in
theorem drop_line (c : CacheSim P) (set way : Nat) :
    c.setLine set way { c.lines set way with valid := false, dirty := false } =
      c.perform (.drop fun s w => s == set && w == way) := by
  have hlines : ∀ s w, (c.setLine set way { c.lines set way with valid := false, dirty := false }).lines s w =
      if (s == set && w == way) = true then { c.lines s w with valid := false, dirty := false } else c.lines s w := by
    intro s w
    have hb : (s == set && w == way) = true ↔ s = set ∧ w = way := by
      rw [Bool.and_eq_true, beq_iff_eq, beq_iff_eq]
    rw [setLine_lines]
    by_cases h : s = set ∧ w = way
    · rw [if_pos h, if_pos (hb.mpr h), h.1, h.2]
    · rw [if_neg h, if_neg (mt hb.mp h)]
  show ({ c with lines := _ } : CacheSim P) = { c with lines := _ }
  exact congrArg (fun l => ({ c with lines := l } : CacheSim P)) (funext fun s => funext (hlines s))

/-- **An operation is its events**, one after another. -/
theorem step_eq_events (c : CacheSim P) (op : CacheOp) : (c.step op).2 = (c.events op).foldl perform c := by
  cases op with
  | access addr isWrite => exact access_eq_events c addr isWrite id rfl
  | accessTracked addr isWrite => exact access_eq_events c addr isWrite id rfl
  | accessTrackedSplit addr isWrite filter =>
    exact access_eq_events c addr isWrite (fun l => (filter.filterAndRecord l).1) rfl
  | accessCheck addr isWrite => exact check_eq_events c addr isWrite
  | missCompletion addr isWrite => rfl
  | installOrReplace addr isWrite =>
    show (c.installOrReplace addr isWrite 0).2 = _
    unfold installOrReplace events
    by_cases he : c.enabled = true
    · rw [if_pos he]
      cases hf : c.freeWay addr with
      | none => simp only [hf, if_pos he]; rfl
      | some w =>
        have hrefill : c.perform (.refill addr isWrite) = c.place addr isWrite w c.policy := by
          simp only [perform, hf]
        simp only [hf, if_pos he]
        exact hrefill.symm
    · simp only [if_neg he]; rfl
  | invalidateLine addr =>
    show (c.invalidateLine addr).2 = _
    unfold invalidateLine events
    by_cases he : c.enabled = true
    · rw [if_pos he]
      cases hf : c.findWay addr with
      | none => simp only [hf, if_pos he]; rfl
      | some w =>
        simp only [hf, if_pos he]
        exact drop_line c (c.setIndex addr) w
    · simp only [if_neg he]; rfl
  | flush =>
    show c.flush.2 = _
    unfold flush events
    by_cases he : c.enabled = true
    · simp only [if_pos he]; rfl
    · simp only [if_neg he]; rfl
  | invalidateAll =>
    show c.invalidateAll.2 = _
    unfold invalidateAll events
    by_cases he : c.enabled = true
    · simp only [if_pos he]; rfl
    · simp only [if_neg he]; rfl

theorem after_eq_history (c : CacheSim P) (ops : List CacheOp) : c.after ops = (c.history ops).foldl perform c := by
  induction ops generalizing c with
  | nil => rfl
  | cons op ops ih =>
    show (c.step op).2.after ops = (c.events op ++ (c.step op).2.history ops).foldl perform c
    rw [List.foldl_append, ← step_eq_events]
    exact ih _

/-! ### Where no line is dropped -/

omit [Prefetcher P] in
theorem prefetch_drop (targets : List U64) (c : CacheSim P) : ∀ e ∈ c.prefetchEvents targets, e.isDrop = false := by
  induction targets generalizing c with
  | nil => exact fun e he => absurd he List.not_mem_nil
  | cons target targets ih =>
    unfold prefetchEvents
    by_cases hc : c.contains target = true
    · rw [if_pos hc]
      exact ih c
    · rw [if_neg hc]
      exact List.forall_mem_cons.mpr ⟨rfl, ih _⟩

theorem observe_drop (c : CacheSim P) (addr : U64) (hit : Bool) (pass : List U64 → List U64) :
    ∀ e ∈ c.observeEvents addr hit pass, e.isDrop = false :=
  List.forall_mem_cons.mpr ⟨rfl, prefetch_drop _ _⟩

theorem access_drop (c : CacheSim P) (addr : U64) (isWrite : Bool) (pass : List U64 → List U64) :
    ∀ e ∈ c.accessEvents addr isWrite pass, e.isDrop = false := by
  unfold accessEvents
  by_cases he : c.enabled = true
  · rw [if_pos he]
    refine List.forall_mem_cons.mpr ⟨?_, observe_drop _ _ _ _⟩
    split <;> rfl
  · rw [if_neg he]
    exact fun e he => absurd he List.not_mem_nil

theorem events_drop (c : CacheSim P) (h : op.removes = false) : ∀ e ∈ c.events op, e.isDrop = false := by
  cases op with
  | access addr isWrite => exact access_drop c addr isWrite id
  | accessTracked addr isWrite => exact access_drop c addr isWrite id
  | accessTrackedSplit addr isWrite filter => exact access_drop c addr isWrite _
  | accessCheck addr isWrite =>
    show ∀ e ∈ c.checkEvents addr isWrite, e.isDrop = false
    unfold checkEvents
    by_cases he : c.enabled = true
    · rw [if_pos he]
      refine List.forall_mem_append.mpr ⟨?_, observe_drop _ _ _ _⟩
      split
      · exact List.forall_mem_singleton.mpr rfl
      · exact fun e he => absurd he List.not_mem_nil
    · rw [if_neg he]
      exact fun e he => absurd he List.not_mem_nil
  | missCompletion addr isWrite => exact List.forall_mem_singleton.mpr rfl
  | installOrReplace addr isWrite =>
    unfold events
    by_cases he : c.enabled = true
    · simp only [if_pos he]
      refine List.forall_mem_singleton.mpr ?_
      split <;> rfl
    · simp only [if_neg he]
      exact fun e he => absurd he List.not_mem_nil
  | invalidateLine addr => cases h
  | flush => cases h
  | invalidateAll => cases h

/-- Operations that remove nothing have no drop among their events. -/
theorem history_drop (c : CacheSim P) {ops : List CacheOp} (h : ∀ op ∈ ops, op.removes = false) :
    ∀ e ∈ c.history ops, e.isDrop = false := by
  induction ops generalizing c with
  | nil => exact fun e he => absurd he List.not_mem_nil
  | cons op ops ih =>
    have htail := ih (c.step op).2 fun o ho => h o (List.mem_cons_of_mem _ ho)
    exact List.forall_mem_append.mpr ⟨events_drop c (h op List.mem_cons_self), htail⟩

end

end CacheSim

end Rvsim
