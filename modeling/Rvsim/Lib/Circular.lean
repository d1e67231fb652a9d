/-
# Circular buffers

A fixed array of slots with a head, a tail and a count. Read from the head,
the array is a list whose first `count` slots are in use and whose others are
spare; every operation of the buffer is an operation on that list.

Key definitions:
  - `Circular.unrolled`, `Circular.contents`, `Circular.spare`
  - `Circular.push`, `Circular.pop`, `Circular.compact`
  - `Circular.scan`, `Circular.walk`, `Circular.fold`, `Circular.searchBack`: the loops of a buffer

Key theorems:
  - `Circular.contents_push`, `Circular.contents_pop`, `Circular.contents_compact`
  - `Circular.scan_eq`, `Circular.walk_eq`, `Circular.fold_eq`, `Circular.searchBack_eq`
-/
import Mathlib.Data.List.Rotate
import Mathlib.Data.Nat.ModEq
import Mathlib.Tactic.Common

structure Circular (α : Type*) where
  slots : List α
  head : Nat
  tail : Nat
  count : Nat

namespace Circular

variable {α : Type*}

def cap (r : Circular α) : Nat := r.slots.length

/-- The slot after slot `i`. -/
def next (r : Circular α) (i : Nat) : Nat := (i + 1) % r.cap

/-- The slot `k` places behind the head. -/
def index (r : Circular α) (k : Nat) : Nat := (r.head + k) % r.cap

/-- All slots, from the head on. -/
def unrolled (r : Circular α) : List α := r.slots.rotate r.head

/-- The slots in use, oldest first. -/
def contents (r : Circular α) : List α := r.unrolled.take r.count

/-- The other slots. -/
def spare (r : Circular α) : List α := r.unrolled.drop r.count

structure WF (r : Circular α) : Prop where
  head : r.head % r.cap = r.head
  tail : r.tail = r.index r.count
  count : r.count ≤ r.cap

/-! ### Positions -/

theorem length_unrolled (r : Circular α) : r.unrolled.length = r.cap := List.length_rotate _ _

theorem length_contents {r : Circular α} (h : r.WF) : r.contents.length = r.count := by
  rw [contents, List.length_take, length_unrolled]
  exact Nat.min_eq_left h.count

theorem index_zero {r : Circular α} (h : r.WF) : r.index 0 = r.head := h.head

theorem next_index (r : Circular α) (k : Nat) : r.next (r.index k) = r.index (k + 1) := by
  unfold next index
  rw [Nat.mod_add_mod, Nat.add_assoc]

/-- Stepping back from the slot after place `k`. -/
theorem prev_index (r : Circular α) {k : Nat} (hk : k < r.cap) :
    (if r.index (k + 1) = 0 then r.cap - 1 else r.index (k + 1) - 1) = r.index k := by
  have hlt : r.index k < r.cap := Nat.mod_lt _ (by omega)
  rw [← next_index, next]
  by_cases h : r.index k + 1 = r.cap
  · rw [h, Nat.mod_self, if_pos rfl]
    omega
  · rw [Nat.mod_eq_of_lt (by omega), if_neg (by omega)]
    omega

/-- Within one turn, different places are different slots. -/
theorem index_inj (r : Circular α) {i j : Nat} (hi : i < r.cap) (hj : j < r.cap) :
    r.index i = r.index j ↔ i = j := by
  constructor
  · intro h
    have hmod : i ≡ j [MOD r.cap] := Nat.ModEq.add_left_cancel' r.head h
    rw [Nat.ModEq, Nat.mod_eq_of_lt hi, Nat.mod_eq_of_lt hj] at hmod
    exact hmod
  · rintro rfl
    rfl

theorem getElem?_index (r : Circular α) {k : Nat} (hk : k < r.cap) :
    r.slots[r.index k]? = r.unrolled[k]? := by
  rw [unrolled, List.getElem?_rotate hk, index, cap, Nat.add_comm]

theorem getElem?_contents (r : Circular α) {k : Nat} (hk : k < r.count) :
    r.contents[k]? = r.unrolled[k]? := by
  rw [contents, List.getElem?_take_of_lt hk]

/-- The slot at the head is the first of the contents. -/
theorem getElem?_head {r : Circular α} (h : r.WF) (hc : 0 < r.count) :
    r.slots[r.head]? = r.contents.head? := by
  have hcap := h.count
  rw [List.head?_eq_getElem?, getElem?_contents r hc, ← getElem?_index r (by omega), index_zero h]

theorem filterMap_range (l : List α) : ((List.range l.length).filterMap fun i => l[i]?) = l := by
  induction l using List.reverseRecOn with
  | nil => rfl
  | append_singleton l x ih =>
    rw [List.length_append, List.length_singleton, List.range_succ, List.filterMap_append]
    have hold : ((List.range l.length).filterMap fun i => (l ++ [x])[i]?) = l := by
      refine (List.filterMap_congr fun i hi => ?_).trans ih
      exact List.getElem?_append_left (List.mem_range.mp hi)
    rw [hold]
    simp

/-- A `for` loop over the slots in use collects the contents. -/
theorem filterMap_index {β : Type*} {r : Circular α} (h : r.WF) (f : α → Option β) :
    ((List.range r.count).filterMap fun i => (r.slots[r.index i]?).bind f) = r.contents.filterMap f := by
  have hcap := h.count
  calc ((List.range r.count).filterMap fun i => (r.slots[r.index i]?).bind f)
      = (List.range r.contents.length).filterMap fun i => (r.contents[i]?).bind f := by
        rw [length_contents h]
        refine List.filterMap_congr fun i hi => ?_
        have hi := List.mem_range.mp hi
        rw [getElem?_index r (by omega), ← getElem?_contents r hi]
    _ = ((List.range r.contents.length).filterMap fun i => r.contents[i]?).filterMap f := by
        rw [List.filterMap_filterMap]
    _ = r.contents.filterMap f := by rw [filterMap_range]

/-- Two buffers of one head and size, slot by slot. -/
theorem unrolled_ext {r : Circular α} {l : List α} (hl : l.length = r.cap)
    (h : ∀ k, k < r.cap → r.slots[r.index k]? = l[k]?) : r.unrolled = l := by
  refine List.ext_getElem? fun k => ?_
  by_cases hk : k < r.cap
  · rw [← getElem?_index r hk, h k hk]
  · rw [List.getElem?_eq_none (by rw [length_unrolled]; omega), List.getElem?_eq_none (by omega)]

/-- Changing the slot at place `k` changes the `k`-th of the unrolled slots. -/
theorem unrolled_modify (r : Circular α) (f : α → α) {k : Nat} (hk : k < r.cap) :
    { r with slots := r.slots.modify (r.index k) f }.unrolled = r.unrolled.modify k f := by
  have hcap : { r with slots := r.slots.modify (r.index k) f }.cap = r.cap := by simp [cap]
  refine unrolled_ext (by rw [List.length_modify, length_unrolled, hcap]) fun i hi => ?_
  rw [hcap] at hi
  have hidx : { r with slots := r.slots.modify (r.index k) f }.index i = r.index i := by
    simp [index, cap]
  rw [hidx, List.getElem?_modify, List.getElem?_modify, getElem?_index r hi]
  simp only [index_inj r hk hi]

theorem unrolled_set (r : Circular α) (v : α) {k : Nat} (hk : k < r.cap) :
    { r with slots := r.slots.set (r.index k) v }.unrolled = r.unrolled.set k v := by
  rw [List.set_eq_modify, List.set_eq_modify]
  exact unrolled_modify r _ hk

/-! ### Operations -/

/-- Write `v` at the tail. -/
def push (r : Circular α) (v : α) : Circular α :=
  { r with slots := r.slots.set r.tail v, tail := r.next r.tail, count := r.count + 1 }

/-- Leave the head, rewriting its slot by `f`. -/
def pop (r : Circular α) (f : α → α) : Circular α :=
  { r with slots := r.slots.modify r.head f, head := r.next r.head, count := r.count - 1 }

/-- Give up the slots behind the first `n`. -/
def cut (r : Circular α) (n : Nat) : Circular α := { r with tail := r.index n, count := n }

theorem cap_push (r : Circular α) (v : α) : (r.push v).cap = r.cap := by simp [push, cap]

theorem cap_pop (r : Circular α) (f : α → α) : (r.pop f).cap = r.cap := by simp [pop, cap]

theorem unrolled_push {r : Circular α} (h : r.WF) (v : α) (hc : r.count < r.cap) :
    (r.push v).unrolled = r.unrolled.set r.count v := by
  rw [← unrolled_set r v hc, ← h.tail]
  rfl

theorem wf_push {r : Circular α} (h : r.WF) (v : α) (hc : r.count < r.cap) : (r.push v).WF where
  head := by
    rw [cap_push]
    exact h.head
  tail := by
    show r.next r.tail = _
    rw [h.tail, next_index]
    simp [index, cap_push]
    rfl
  count := by
    rw [cap_push]
    exact hc

theorem contents_push {r : Circular α} (h : r.WF) (v : α) (hc : r.count < r.cap) :
    (r.push v).contents = r.contents ++ [v] := by
  have hlen : r.count < (r.unrolled.set r.count v).length := by
    rw [List.length_set, length_unrolled]
    exact hc
  have htake : (r.unrolled.set r.count v).take r.count = r.contents := by
    rw [List.take_set, List.set_eq_of_length_le (by simp), contents]
  rw [contents, unrolled_push h v hc]
  show (r.unrolled.set r.count v).take (r.count + 1) = _
  rw [List.take_succ_eq_append_getElem hlen, List.getElem_set_self, htake]

theorem spare_push {r : Circular α} (h : r.WF) (v : α) (hc : r.count < r.cap) :
    (r.push v).spare = r.spare.tail := by
  rw [spare, unrolled_push h v hc]
  show (r.unrolled.set r.count v).drop (r.count + 1) = _
  rw [List.drop_set_of_lt (Nat.lt_succ_self _), spare, List.tail_drop]

/-- Popping turns the unrolled slots by one. -/
theorem unrolled_pop {r : Circular α} (h : r.WF) (f : α → α) {x : α} {u : List α}
    (hu : r.unrolled = x :: u) : (r.pop f).unrolled = u ++ [f x] := by
  have hcap : 0 < r.cap := by rw [← length_unrolled, hu]; simp
  have hmod := unrolled_modify r f hcap
  rw [index_zero h, hu] at hmod
  have hrot : (r.pop f).unrolled = ((r.slots.modify r.head f).rotate r.head).rotate 1 := by
    rw [List.rotate_rotate]
    show (r.slots.modify r.head f).rotate (r.next r.head) = _
    have hl : r.cap = (r.slots.modify r.head f).length := by simp [cap]
    rw [next, hl, List.rotate_mod]
  rw [hrot]
  show ({ r with slots := r.slots.modify r.head f }.unrolled).rotate 1 = _
  rw [hmod]
  simp

theorem wf_pop {r : Circular α} (h : r.WF) (f : α → α) (hc : 0 < r.count) : (r.pop f).WF where
  head := by
    rw [cap_pop]
    exact Nat.mod_mod _ _
  tail := by
    show r.tail = (r.next r.head + (r.count - 1)) % (r.pop f).cap
    rw [h.tail, cap_pop, next, index, Nat.mod_add_mod]
    congr 1
    omega
  count := by
    have := h.count
    rw [cap_pop]
    show r.count - 1 ≤ r.cap
    omega

/-- What a non-empty buffer looks like unrolled. -/
theorem unrolled_cons {r : Circular α} {x : α} {rest : List α} (hx : r.contents = x :: rest) :
    r.unrolled = x :: (rest ++ r.spare) := by
  rw [← List.take_append_drop r.count r.unrolled]
  show r.contents ++ r.spare = _
  rw [hx, List.cons_append]

theorem contents_pop {r : Circular α} (h : r.WF) (f : α → α) {x : α} {rest : List α}
    (hx : r.contents = x :: rest) : (r.pop f).contents = rest ∧ (r.pop f).spare = r.spare ++ [f x] := by
  have hu := unrolled_pop h f (unrolled_cons hx)
  have hlen : r.count - 1 = rest.length := by
    rw [← length_contents h, hx]
    rfl
  rw [contents, spare, hu]
  show List.take (r.count - 1) _ = _ ∧ List.drop (r.count - 1) _ = _
  rw [hlen, List.append_assoc, List.take_left, List.drop_left]
  exact ⟨rfl, rfl⟩

theorem wf_cut {r : Circular α} (h : r.WF) {n : Nat} (hn : n ≤ r.count) : (r.cut n).WF :=
  ⟨h.head, rfl, hn.trans h.count⟩

theorem contents_cut {r : Circular α} {n : Nat} (hn : n ≤ r.count) :
    (r.cut n).contents = r.contents.take n := by
  rw [contents, contents, List.take_take, Nat.min_eq_left hn]
  rfl

theorem spare_cut {r : Circular α} (h : r.WF) {n : Nat} (hn : n ≤ r.count) :
    (r.cut n).spare = r.contents.drop n ++ r.spare := by
  have hsplit : r.unrolled = r.contents ++ r.spare := (List.take_append_drop _ _).symm
  show r.unrolled.drop n = _
  rw [hsplit, List.drop_append_of_le_length (by rw [length_contents h]; exact hn)]

/-! ### Changing slots in place -/

/-- Rewrite slot `i`. -/
def modify (r : Circular α) (i : Nat) (f : α → α) : Circular α :=
  { r with slots := r.slots.modify i f }

theorem cap_modify (r : Circular α) (i : Nat) (f : α → α) : (r.modify i f).cap = r.cap := by
  simp [modify, cap]

theorem wf_modify {r : Circular α} (h : r.WF) (i : Nat) (f : α → α) : (r.modify i f).WF where
  head := by
    rw [cap_modify]
    exact h.head
  tail := by
    show r.tail = (r.head + r.count) % _
    rw [cap_modify]
    exact h.tail
  count := by
    rw [cap_modify]
    exact h.count

theorem contents_modify {r : Circular α} (h : r.WF) (f : α → α) {k : Nat} (hk : k < r.count) :
    (r.modify (r.index k) f).contents = r.contents.modify k f ∧
      (r.modify (r.index k) f).spare = r.spare := by
  have hcap := h.count
  rw [contents, spare, modify, unrolled_modify r f (by omega)]
  show List.take r.count _ = _ ∧ List.drop r.count _ = _
  refine ⟨?_, ?_⟩
  · rw [contents, List.take_modify]
  · rw [spare, List.drop_modify_of_lt _ _ _ _ hk]

/-! ### Loops -/

/-- A `while` loop that goes round from slot `i` until it meets `stop`; `none` when `fuel` runs out. -/
def walk {σ : Type*} (cap stop : Nat) (body : Nat → σ → σ) : Nat → Nat → σ → Option σ
  | 0, i, s => if i = stop then some s else none
  | fuel + 1, i, s => if i = stop then some s else walk cap stop body fuel ((i + 1) % cap) (body i s)

/-- The loop meets a stop less than one turn ahead, having run its body on every slot before it. -/
theorem walk_eq {σ : Type*} {cap : Nat} (body : Nat → σ → σ) {n : Nat} (fuel start : Nat) (s : σ)
    (hn : n < cap) (hf : n ≤ fuel) :
    walk cap ((start + n) % cap) body fuel (start % cap) s =
      some ((List.range n).foldl (fun s k => body ((start + k) % cap) s) s) := by
  induction n generalizing start s fuel with
  | zero => cases fuel <;> simp [walk]
  | succ n ih =>
    obtain ⟨fuel, rfl⟩ : ∃ m, fuel = m + 1 := ⟨fuel - 1, by omega⟩
    have hne : start % cap ≠ (start + (n + 1)) % cap := by
      intro h
      have hmod : 0 ≡ n + 1 [MOD cap] := Nat.ModEq.add_left_cancel' start h
      rw [Nat.ModEq, Nat.zero_mod, Nat.mod_eq_of_lt hn] at hmod
      omega
    rw [walk, if_neg hne, Nat.mod_add_mod, show start + (n + 1) = start + 1 + n by omega,
      ih _ _ _ (by omega) (by omega), List.range_succ_eq_map, List.foldl_cons, List.foldl_map]
    simp only [Nat.add_zero, Nat.succ_eq_add_one, Nat.add_assoc, Nat.add_comm 1]

/-- A `for` loop over `n` slots from `i`: the first slot that passes the test. -/
def scan (r : Circular α) (p : α → Bool) : Nat → Nat → Option Nat
  | 0, _ => none
  | n + 1, i => if (r.slots[i]?).any p then some i else scan r p n (r.next i)

theorem scan_from (r : Circular α) (p : α → Bool) (n k : Nat) (h : k + n ≤ r.cap) :
    r.scan p n (r.index k) =
      (((r.unrolled.drop k).take n).findIdx? p).map fun j => r.index (k + j) := by
  induction n generalizing k with
  | zero => simp [scan]
  | succ n ih =>
    have hk : k < r.unrolled.length := by rw [length_unrolled]; omega
    have hdrop : (r.unrolled.drop k).take (n + 1) =
        r.unrolled[k] :: (r.unrolled.drop (k + 1)).take n := by
      rw [List.drop_eq_getElem_cons hk, List.take_succ_cons]
    rw [scan, next_index, ih (k + 1) (by omega), getElem?_index r (by omega),
      List.getElem?_eq_getElem hk, hdrop, List.findIdx?_cons]
    simp only [Option.any_some]
    by_cases hp : p r.unrolled[k] = true
    · simp [hp]
    · simp only [hp, Bool.false_eq_true, if_false, Option.map_map]
      congr 1
      funext j
      show r.index (k + 1 + j) = r.index (k + (j + 1))
      congr 1
      omega

/-- The loop over the slots in use is a search of the contents. -/
theorem scan_eq {r : Circular α} (h : r.WF) (p : α → Bool) :
    r.scan p r.count r.head = (r.contents.findIdx? p).map r.index := by
  have hs := scan_from r p r.count 0 (by simpa using h.count)
  rw [index_zero h, List.drop_zero] at hs
  rw [hs]
  simp only [Nat.zero_add]
  rfl

/-- Move the slots that pass the test up to the front, clearing the places they leave and the
slots that fail it: `n` slots from `i`, with the next free place and the number kept so far. -/
def compactFrom (keep : α → Bool) (clear : α → α) (cap : Nat) :
    Nat → Nat → List α → Nat → Nat → List α × Nat × Nat
  | 0, _, slots, place, kept => (slots, place, kept)
  | n + 1, i, slots, place, kept =>
    match slots[i]? with
    | none => (slots, place, kept)
    | some x =>
      if keep x then
        let slots := if i ≠ place then (slots.set place x).modify i clear else slots
        compactFrom keep clear cap n ((i + 1) % cap) slots ((place + 1) % cap) (kept + 1)
      else compactFrom keep clear cap n ((i + 1) % cap) (slots.modify i clear) place kept

def compact (r : Circular α) (keep : α → Bool) (clear : α → α) : Circular α :=
  let (slots, place, kept) := compactFrom keep clear r.cap r.count r.head r.slots r.head 0
  { r with slots, tail := place, count := kept }

theorem modify_length_append (f : α → α) (x : α) (l t : List α) :
    (l ++ x :: t).modify l.length f = l ++ f x :: t := by
  induction l with
  | nil => rfl
  | cons y l ih => rw [List.cons_append, List.length_cons, List.modify_succ_cons, ih, List.cons_append]

theorem set_length_append (v x : α) (l t : List α) : (l ++ x :: t).set l.length v = l ++ v :: t := by
  rw [List.set_eq_modify, modify_length_append]

/-- One slot of the loop, kept behind a gap: it moves to the front of the gap. -/
theorem unrolled_moveUp (r : Circular α) (clear : α → α) {kept gap todo : List α} {d x : α}
    (hu : r.unrolled = kept ++ d :: gap ++ x :: todo) :
    ({ r with slots := r.slots.set (r.index kept.length) x }.modify
        (r.index (kept.length + (d :: gap).length)) clear).unrolled =
      kept ++ [x] ++ (gap ++ [clear x]) ++ todo := by
  have hlen : kept.length + (d :: gap).length < r.cap := by
    rw [← length_unrolled, hu]
    simp only [List.length_append, List.length_cons]
    omega
  have hset := unrolled_set r x (k := kept.length) (by omega)
  rw [hu, List.append_assoc, List.cons_append, set_length_append] at hset
  have hcap : { r with slots := r.slots.set (r.index kept.length) x }.cap = r.cap := by simp [cap]
  have hidx : ∀ k, { r with slots := r.slots.set (r.index kept.length) x }.index k = r.index k := by
    intro k
    show (r.head + k) % _ = (r.head + k) % r.cap
    rw [hcap]
  have hmod := unrolled_modify { r with slots := r.slots.set (r.index kept.length) x } clear
    (k := kept.length + (d :: gap).length) (by rw [hcap]; exact hlen)
  rw [hidx, hset] at hmod
  have hfront : kept ++ x :: (gap ++ x :: todo) = (kept ++ x :: gap) ++ x :: todo := by simp
  have hlen' : kept.length + (d :: gap).length = (kept ++ x :: gap).length := by simp
  rw [hfront, hlen', modify_length_append] at hmod
  rw [hlen']
  refine hmod.trans ?_
  simp

/-- One slot of the loop: filed among the kept ones, or cleared. -/
theorem compactFrom_succ (keep : α → Bool) (clear : α → α) (n : Nat) (r : Circular α)
    {kept dead todo : List α} {x : α} (hu : r.unrolled = kept ++ dead ++ x :: todo) :
    ∃ slots kept' dead', slots.length = r.cap ∧
      { r with slots := slots }.unrolled = kept' ++ dead' ++ todo ∧
      kept' = kept ++ [x].filter keep ∧ kept'.length + dead'.length = kept.length + dead.length + 1 ∧
      (∀ y ∈ dead', y ∈ dead ∨ y = clear x) ∧
      compactFrom keep clear r.cap (n + 1) (r.index (kept.length + dead.length)) r.slots
          (r.index kept.length) kept.length =
        compactFrom keep clear r.cap n (r.index (kept.length + dead.length + 1)) slots
          (r.index kept'.length) kept'.length := by
  have hlen : kept.length + dead.length < r.cap := by
    rw [← length_unrolled, hu]
    simp only [List.length_append, List.length_cons]
    omega
  have hx : r.slots[r.index (kept.length + dead.length)]? = some x := by
    rw [getElem?_index r hlen, hu, ← List.length_append, List.getElem?_append_right (le_refl _)]
    simp
  have hnext : ∀ k, (r.index k + 1) % r.cap = r.index (k + 1) := next_index r
  rw [compactFrom, hx]
  simp only [hnext]
  by_cases hk : keep x = true
  · rw [if_pos hk]
    have hkl : kept.length + 1 = (kept ++ [x]).length := by simp
    rw [hkl]
    by_cases hd : dead = []
    · -- nothing was dropped so far: the slot stays where it is
      subst hd
      refine ⟨r.slots, kept ++ [x], [], rfl, by simpa using hu, by simp [hk], by simp, by simp, ?_⟩
      simp
    · obtain ⟨d, gap, rfl⟩ := List.exists_cons_of_ne_nil hd
      have hne : r.index (kept.length + (d :: gap).length) ≠ r.index kept.length := by
        rw [Ne, index_inj r hlen (by omega)]
        simp
      rw [if_pos hne]
      refine ⟨_, kept ++ [x], gap ++ [clear x], by simp [cap], unrolled_moveUp r clear hu,
        by simp [hk], by simp; omega, ?_, rfl⟩
      intro y hy
      rcases List.mem_append.mp hy with h | h
      · exact Or.inl (List.mem_cons_of_mem _ h)
      · exact Or.inr (List.mem_singleton.mp h)
  · rw [if_neg hk]
    refine ⟨_, kept, dead ++ [clear x], by simp [cap], ?_, by simp [hk], by simp; omega, ?_, rfl⟩
    · have hclear := unrolled_modify r clear hlen
      rw [hu, ← List.length_append, modify_length_append, List.length_append] at hclear
      rw [hclear]
      simp
    · intro y hy
      rcases List.mem_append.mp hy with h | h
      · exact Or.inl h
      · exact Or.inr (List.mem_singleton.mp h)

/-- What the loop has done after `n` more slots, in terms of the unrolled buffer: the kept ones,
the cleared places and the slots still to be looked at. -/
theorem compactFrom_spec (keep : α → Bool) (clear : α → α) (n : Nat) (r : Circular α)
    {kept dead todo : List α} (hu : r.unrolled = kept ++ dead ++ todo) (hn : n ≤ todo.length) :
    ∃ slots gone, compactFrom keep clear r.cap n (r.index (kept.length + dead.length)) r.slots
        (r.index kept.length) kept.length =
          (slots, r.index (kept ++ (todo.take n).filter keep).length,
            (kept ++ (todo.take n).filter keep).length) ∧
      slots.length = r.cap ∧
      { r with slots := slots }.unrolled = kept ++ (todo.take n).filter keep ++ gone ++ todo.drop n ∧
      ∀ y ∈ gone, y ∈ dead ∨ ∃ x ∈ todo.take n, y = clear x := by
  induction n generalizing r kept dead todo with
  | zero => exact ⟨r.slots, dead, by simp [compactFrom], rfl, by simpa using hu, fun y hy => Or.inl hy⟩
  | succ n ih =>
    obtain ⟨x, todo, rfl⟩ := List.exists_cons_of_ne_nil (List.ne_nil_of_length_pos (by omega) : todo ≠ [])
    obtain ⟨slots, kept', dead', hs, hu', rfl, hlen, hdead, hstep⟩ :=
      compactFrom_succ keep clear n r hu
    have hcap : { r with slots := slots }.cap = r.cap := hs
    have hidx : ∀ k, { r with slots := slots }.index k = r.index k := fun k => by
      simp only [index, hcap]
    obtain ⟨slots', gone, heq, hs', hun, hgone⟩ :=
      ih { r with slots := slots } hu' (by simpa using hn)
    have hkeep : kept ++ [x].filter keep ++ (todo.take n).filter keep =
        kept ++ ((x :: todo).take (n + 1)).filter keep := by
      rw [List.append_assoc, ← List.filter_append]
      rfl
    rw [hcap, hidx, hidx, hidx, hlen, hkeep] at heq
    rw [hcap] at hs'
    rw [hkeep] at hun
    refine ⟨slots', gone, hstep.trans heq, hs', hun, fun y hy => ?_⟩
    rcases hgone y hy with h | ⟨z, hz, rfl⟩
    · rcases hdead y h with h | rfl
      · exact Or.inl h
      · exact Or.inr ⟨x, by simp, rfl⟩
    · exact Or.inr ⟨z, by simp [hz], rfl⟩

/-- Compacting keeps the slots in use that pass the test, in order; every other slot is a spare
one of before or a cleared one. -/
theorem contents_compact {r : Circular α} (h : r.WF) (keep : α → Bool) (clear : α → α) :
    (r.compact keep clear).WF ∧ (r.compact keep clear).cap = r.cap ∧
      (r.compact keep clear).contents = r.contents.filter keep ∧
      ∀ y ∈ (r.compact keep clear).spare, y ∈ r.spare ∨ ∃ x ∈ r.contents, y = clear x := by
  have hcount := h.count
  obtain ⟨slots, gone, heq, hs, hun, hgone⟩ :=
    compactFrom_spec keep clear r.count r (show r.unrolled = [] ++ [] ++ r.unrolled from rfl)
      (by rw [length_unrolled]; exact hcount)
  simp only [List.length_nil, Nat.add_zero, index_zero h, List.nil_append] at heq hun
  have hc : r.compact keep clear =
      { r with slots := slots, tail := r.index (r.contents.filter keep).length,
               count := (r.contents.filter keep).length } := by
    unfold compact
    rw [heq]
    rfl
  have hcap : (r.compact keep clear).cap = r.cap := by rw [hc]; exact hs
  have hu : (r.compact keep clear).unrolled = r.contents.filter keep ++ (gone ++ r.spare) := by
    rw [hc, ← List.append_assoc]
    exact hun
  have hcnt : (r.compact keep clear).count = (r.contents.filter keep).length := by rw [hc]
  have hle : (r.contents.filter keep).length ≤ r.cap := by
    refine (List.length_filter_le _ _).trans ?_
    rw [length_contents h]
    exact hcount
  refine ⟨⟨?_, ?_, ?_⟩, hcap, ?_, ?_⟩
  · rw [hcap, hc]
    exact h.head
  · rw [index, hcap, hcnt, hc]
    rfl
  · rw [hcap, hcnt]
    exact hle
  · rw [contents, hu, hcnt, List.take_left]
  · intro y hy
    rw [spare, hu, hcnt, List.drop_left] at hy
    rcases List.mem_append.mp hy with hy | hy
    · exact Or.inr ((hgone y hy).resolve_left (by simp))
    · exact Or.inl hy

/-! ### Loops that read -/

/-- A `for` loop over `n` slots from `i` that carries a state. -/
def fold {σ : Type*} (r : Circular α) (f : σ → α → σ) : Nat → Nat → σ → σ
  | 0, _, s => s
  | n + 1, i, s => fold r f n (r.next i) ((r.slots[i]?).elim s (f s))

theorem fold_from {σ : Type*} (r : Circular α) (f : σ → α → σ) (n k : Nat) (s : σ) (h : k + n ≤ r.cap) :
    r.fold f n (r.index k) s = ((r.unrolled.drop k).take n).foldl f s := by
  induction n generalizing k s with
  | zero => simp [fold]
  | succ n ih =>
    have hk : k < r.unrolled.length := by rw [length_unrolled]; omega
    rw [fold, next_index, ih (k + 1) _ (by omega), getElem?_index r (by omega),
      List.getElem?_eq_getElem hk, List.drop_eq_getElem_cons hk, List.take_succ_cons, List.foldl_cons]
    rfl

/-- The loop over the slots in use folds the contents. -/
theorem fold_eq {σ : Type*} {r : Circular α} (h : r.WF) (f : σ → α → σ) (s : σ) :
    r.fold f r.count r.head s = r.contents.foldl f s := by
  have hf := fold_from r f r.count 0 s (by simpa using h.count)
  rw [index_zero h, List.drop_zero] at hf
  exact hf

/-- The slot before slot `i`. -/
def prev (r : Circular α) (i : Nat) : Nat := if i = 0 then r.cap - 1 else i - 1

/-- A `for` loop over `n` slots from `i` backwards: the first answer of `f`. -/
def searchBack {β : Type*} (r : Circular α) (f : α → Option β) : Nat → Nat → Option β
  | 0, _ => none
  | n + 1, i => ((r.slots[i]?).bind f).or (searchBack r f n (r.prev i))

theorem searchBack_from {β : Type*} (r : Circular α) (f : α → Option β) (n : Nat) (h : n ≤ r.cap) :
    r.searchBack f n (r.prev (r.index n)) = (r.unrolled.take n).reverse.findSome? f := by
  induction n with
  | zero => simp [searchBack]
  | succ n ih =>
    have hn : n < r.unrolled.length := by rw [length_unrolled]; omega
    have hprev : r.prev (r.index (n + 1)) = r.index n := prev_index r (by omega)
    rw [searchBack, hprev, ih (by omega), getElem?_index r (by omega), List.getElem?_eq_getElem hn,
      List.take_succ_eq_append_getElem hn, List.reverse_append, List.reverse_singleton,
      List.singleton_append, List.findSome?_cons, Option.bind_some]
    cases f r.unrolled[n] <;> rfl

/-- Backwards from the tail, the loop finds the youngest slot in use that `f` answers for. -/
theorem searchBack_eq {β : Type*} {r : Circular α} (h : r.WF) (f : α → Option β) :
    r.searchBack f r.count (r.prev r.tail) = r.contents.reverse.findSome? f := by
  rw [h.tail, searchBack_from r f r.count h.count]
  rfl

/-- A `while` loop that leaves the slots at the head that pass the test. -/
def skipFrom (dead : α → Bool) : Nat → Circular α → Circular α
  | 0, r => r
  | n + 1, r => if (r.slots[r.head]?).any dead then skipFrom dead n (r.pop id) else r

def skip (r : Circular α) (dead : α → Bool) : Circular α := skipFrom dead r.count r

theorem skipFrom_spec (dead : α → Bool) (n : Nat) {r : Circular α} (h : r.WF) (hn : r.count = n) :
    (skipFrom dead n r).WF ∧ (skipFrom dead n r).cap = r.cap ∧
      (skipFrom dead n r).contents = r.contents.dropWhile dead ∧
      (skipFrom dead n r).spare = r.spare ++ r.contents.takeWhile dead := by
  induction n generalizing r with
  | zero =>
    have hnil : r.contents = [] := List.eq_nil_of_length_eq_zero ((length_contents h).trans hn)
    simp [skipFrom, h, hnil]
  | succ n ih =>
    obtain ⟨x, rest, hx⟩ : ∃ x rest, r.contents = x :: rest :=
      List.exists_cons_of_length_eq_add_one ((length_contents h).trans hn)
    rw [skipFrom, getElem?_head h (by omega), hx, List.head?_cons, Option.any_some]
    by_cases hd : dead x = true
    · obtain ⟨hc, hs⟩ := contents_pop h id hx
      obtain ⟨hwf, hcap, hcont, hspare⟩ := ih (wf_pop h id (by omega)) (by
        show r.count - 1 = n
        omega)
      rw [if_pos hd, List.dropWhile_cons_of_pos hd, List.takeWhile_cons_of_pos hd]
      refine ⟨hwf, hcap.trans (cap_pop r id), hcont.trans (by rw [hc]), ?_⟩
      rw [hspare, hs, hc, List.append_assoc]
      rfl
    · rw [if_neg hd, List.dropWhile_cons_of_neg hd, List.takeWhile_cons_of_neg hd, List.append_nil]
      exact ⟨h, rfl, hx, rfl⟩

theorem contents_skip {r : Circular α} (h : r.WF) (dead : α → Bool) :
    (r.skip dead).WF ∧ (r.skip dead).cap = r.cap ∧ (r.skip dead).contents = r.contents.dropWhile dead ∧
      (r.skip dead).spare = r.spare ++ r.contents.takeWhile dead := skipFrom_spec dead r.count h rfl

/-- Rewrite every slot and start over at slot 0. -/
def reset (r : Circular α) (f : α → α) : Circular α := ⟨r.slots.map f, 0, 0, 0⟩

theorem cap_reset (r : Circular α) (f : α → α) : (r.reset f).cap = r.cap := List.length_map _

theorem wf_reset (r : Circular α) (f : α → α) : (r.reset f).WF :=
  ⟨Nat.zero_mod _, (Nat.zero_mod _).symm, Nat.zero_le _⟩

theorem mem_spare_reset {r : Circular α} {f : α → α} {x : α} (h : x ∈ (r.reset f).spare) :
    ∃ y ∈ r.slots, f y = x := by
  have hmem : x ∈ (r.slots.map f).rotate 0 := List.mem_of_mem_drop h
  rw [List.mem_rotate] at hmem
  exact List.mem_map.mp hmem

end Circular
