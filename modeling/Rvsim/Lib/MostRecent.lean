/-
# The things used last

The different things of a sequence, the one used last first: a use puts its thing
at the front. Some places for the first of them, the ones that are left over empty,
are kept by moving a thing that has a place to the front, and by giving the last
place to one that has none. Fewer places are the front of more.

Key definitions:
  - `MostRecent.distinct`, `MostRecent.places`
Key theorems:
  - `MostRecent.distinct_snoc`, `MostRecent.places_hit`, `MostRecent.places_miss`
  - `MostRecent.filterMap_places`
-/
import Mathlib.Data.List.Dedup
import Mathlib.Tactic.Common

namespace MostRecent

variable {α : Type*} [DecidableEq α] {l xs : List α} {x : α} {w : Nat}

/-- The different things of the sequence, the one used last first. -/
def distinct (xs : List α) : List α := xs.dedup.reverse

theorem nodup_distinct (xs : List α) : (distinct xs).Nodup := List.nodup_reverse.mpr (List.nodup_dedup xs)

theorem dedup_snoc (xs : List α) (x : α) : (xs ++ [x]).dedup = xs.dedup.erase x ++ [x] := by
  induction xs with
  | nil => rfl
  | cons a xs ih =>
    rw [List.cons_append]
    by_cases ha : a ∈ xs
    · rw [List.dedup_cons_of_mem (List.mem_append_left _ ha), List.dedup_cons_of_mem ha, ih]
    · rw [List.dedup_cons_of_notMem ha]
      by_cases hax : a = x
      · subst hax
        have hnot : a ∉ xs.dedup := mt List.mem_dedup.mp ha
        rw [List.dedup_cons_of_mem (List.mem_append_right _ List.mem_cons_self), ih, List.erase_cons_head,
            List.erase_of_not_mem hnot]
      · have hnot : a ∉ xs ++ [x] := by
          rw [List.mem_append, List.mem_singleton]
          exact not_or.mpr ⟨ha, hax⟩
        have hne : ¬ (a == x) = true := mt beq_iff_eq.mp hax
        rw [List.dedup_cons_of_notMem hnot, ih, List.erase_cons_tail hne]
        rfl

/-- **A use puts its thing at the front.** -/
theorem distinct_snoc (xs : List α) (x : α) : distinct (xs ++ [x]) = x :: (distinct xs).erase x := by
  unfold distinct
  rw [dedup_snoc, List.reverse_append, (List.nodup_reverse.mpr (List.nodup_dedup xs)).erase_eq_filter,
    (List.nodup_dedup xs).erase_eq_filter, List.filter_reverse]
  rfl

/-- The first things in so many places. -/
def places (w : Nat) (l : List α) : List (Option α) := (l.map some ++ List.replicate w none).take w

omit [DecidableEq α] in
theorem length_places (w : Nat) (l : List α) : (places w l).length = w := by
  unfold places
  rw [List.length_take, List.length_append, List.length_replicate]
  omega

omit [DecidableEq α] in
/-- What the places hold. -/
theorem filterMap_places (w : Nat) (l : List α) : (places w l).filterMap id = l.take w := by
  have hmap : ∀ l : List α, (l.map some).filterMap id = l := by
    intro l
    rw [List.filterMap_map]
    exact List.filterMap_some
  have hnone : ∀ n, (List.replicate n (none : Option α)).filterMap id = [] := by
    intro n
    refine List.filterMap_eq_nil_iff.mpr fun a ha => ?_
    exact List.eq_of_mem_replicate ha
  unfold places
  rw [List.take_append, List.filterMap_append, ← List.map_take, hmap, List.take_replicate, hnone, List.append_nil]

omit [DecidableEq α] in
theorem mem_places : some x ∈ places w l ↔ x ∈ l.take w := by
  rw [← filterMap_places, List.mem_filterMap]
  exact ⟨fun h => ⟨some x, h, rfl⟩, fun ⟨a, ha, hx⟩ => (show a = some x from hx) ▸ ha⟩

/-- A thing that has a place goes to the front. -/
theorem places_hit (hl : l.Nodup) (h : x ∈ l.take w) :
    places w (x :: l.erase x) = some x :: (places w l).erase (some x) := by
  obtain ⟨a, b, ha, rfl, herase⟩ := List.exists_erase_eq (List.mem_of_mem_take h)
  have hb : x ∉ b := by
    have hxb := (List.nodup_append.mp hl).2.1
    exact (List.nodup_cons.mp hxb).1
  have hw : a.length < w := by
    by_contra hc
    rw [List.take_append_of_le_length (Nat.le_of_not_lt hc)] at h
    exact ha (List.mem_of_mem_take h)
  obtain ⟨k, rfl⟩ : ∃ k, w = a.length + (k + 1) := ⟨w - a.length - 1, by omega⟩
  have hnot : some x ∉ a.map some := fun hc => ha (by simpa using hc)
  have hnew : places (a.length + (k + 1)) (x :: (a ++ b)) =
      some x :: (a.map some ++ (b.map some ++ List.replicate (a.length + (k + 1)) none).take k) := by
    unfold places
    rw [← Nat.add_assoc, List.map_cons, List.cons_append, List.take_succ_cons, List.map_append, List.append_assoc,
        List.take_append,
      List.length_map, Nat.add_sub_cancel_left, List.take_of_length_le (by rw [List.length_map]; omega)]
  have hold : places (a.length + (k + 1)) (a ++ x :: b) =
      a.map some ++ some x :: (b.map some ++ List.replicate (a.length + (k + 1)) none).take k := by
    unfold places
    rw [List.map_append, List.append_assoc, List.take_append, List.length_map, Nat.add_sub_cancel_left,
      List.take_of_length_le (by rw [List.length_map]; omega), List.map_cons, List.cons_append, List.take_succ_cons]
  rw [herase, hnew, hold, List.erase_append_right _ hnot, List.erase_cons_head]

/-- A thing that has no place gets the last one, at the front. -/
theorem places_miss (hw : 0 < w) (h : x ∉ l.take w) : places w (x :: l.erase x) = some x :: (places w l).dropLast := by
  obtain ⟨k, rfl⟩ : ∃ k, w = k + 1 := ⟨w - 1, by omega⟩
  have hlast : (places (k + 1) l).dropLast = (l.map some ++ List.replicate (k + 1) none).take k := by
    rw [List.dropLast_eq_take, length_places, Nat.add_sub_cancel]
    unfold places
    rw [List.take_take, Nat.min_eq_left (Nat.le_succ k)]
  have hfront : ((l.erase x).map some ++ List.replicate (k + 1) none).take k =
      (l.map some ++ List.replicate (k + 1) none).take k := by
    by_cases hx : x ∈ l
    · obtain ⟨a, b, -, rfl, herase⟩ := List.exists_erase_eq hx
      have hk : k ≤ (a.map (some : α → Option α)).length := by
        rw [List.length_map]
        by_contra hc
        refine h ?_
        rw [List.take_append, List.mem_append]
        right
        obtain ⟨j, hj⟩ : ∃ j, k + 1 - a.length = j + 1 := ⟨k - a.length, by omega⟩
        rw [hj, List.take_succ_cons]
        exact List.mem_cons_self
      rw [herase, List.map_append, List.map_append, List.append_assoc, List.append_assoc,
          List.take_append_of_le_length hk,
        List.take_append_of_le_length hk]
    · rw [List.erase_of_not_mem hx]
  rw [hlast, ← hfront]
  rfl

end MostRecent
