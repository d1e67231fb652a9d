/-
# Writes laid over a memory

A memory maps addresses to cells. A write covers some addresses and leaves a cell
at each. Writes are laid over a memory one after the other, oldest first; what the
result holds at some addresses depends on the writes that cover one of them.

Key definitions:
  - `Overlay.put`, `Overlay.lay`, `Overlay.Spares`
Key theorems:
  - `Overlay.lay_filter`, `Overlay.lay_replace`
-/
import Mathlib.Data.Set.Function
import Mathlib.Tactic.Common

namespace Overlay

variable {α β ω : Type*}

/-- One write over a memory: what it leaves at the addresses it covers. -/
def put (m : α → β) (p : α → Option β) : α → β := fun x => (p x).getD (m x)

/-- Writes over a memory, oldest first. -/
def lay (patch : ω → α → Option β) (m : α → β) (ws : List ω) : α → β := ws.foldl (fun m w => put m (patch w)) m

/-- The write covers none of these addresses. -/
def Spares (p : α → Option β) (s : Set α) : Prop := ∀ x ∈ s, p x = none

variable {patch : ω → α → Option β} {m m' : α → β} {p : α → Option β} {s : Set α} {w w' : ω} {ws us vs : List ω}

theorem put_eqOn (h : Set.EqOn m m' s) : Set.EqOn (put m p) (put m' p) s := by
  intro x hx
  show (p x).getD (m x) = (p x).getD (m' x)
  rw [h hx]

theorem Spares.put (h : Spares p s) (m : α → β) : Set.EqOn (put m p) m s := by
  intro x hx
  show (p x).getD (m x) = m x
  rw [h x hx]
  rfl

theorem lay_append (us vs : List ω) : lay patch m (us ++ vs) = lay patch (lay patch m us) vs := List.foldl_append

theorem lay_eqOn (h : Set.EqOn m m' s) (ws : List ω) : Set.EqOn (lay patch m ws) (lay patch m' ws) s := by
  induction ws generalizing m m' with
  | nil => exact h
  | cons w ws ih => exact ih (put_eqOn h)

/-- Writes that cover none of the addresses may be left out. -/
theorem lay_filter (keep : ω → Bool) (h : ∀ w ∈ ws, keep w = false → Spares (patch w) s) :
    Set.EqOn (lay patch m (ws.filter keep)) (lay patch m ws) s := by
  induction ws generalizing m with
  | nil => exact Set.eqOn_refl _ _
  | cons w ws ih =>
    have hrest := fun m => ih (m := m) fun u hu => h u (List.mem_cons_of_mem _ hu)
    cases hk : keep w with
    | true =>
      rw [List.filter_cons_of_pos hk]
      exact hrest _
    | false =>
      rw [List.filter_cons_of_neg (by simp [hk])]
      have hskip : Set.EqOn m (put m (patch w)) s := ((h w List.mem_cons_self hk).put m).symm
      exact (hrest m).trans (lay_eqOn hskip ws)

theorem lay_spared (h : ∀ w ∈ ws, Spares (patch w) s) : Set.EqOn (lay patch m ws) m s := by
  have hnone := lay_filter (m := m) (fun _ => false) fun w hw _ => h w hw
  have hempty : ws.filter (fun _ => false) = [] := List.filter_eq_nil_iff.mpr (by simp)
  rw [hempty] at hnone
  exact hnone.symm

/-- One write takes the place of another, and the addresses lie outside both. -/
theorem lay_replace (hw : Spares (patch w) s) (hw' : Spares (patch w') s) :
    Set.EqOn (lay patch m (us ++ w' :: vs)) (lay patch m (us ++ w :: vs)) s := by
  rw [lay_append, lay_append]
  exact lay_eqOn ((hw'.put _).trans (hw.put _).symm) vs

theorem lay_congr {us vs : List ω} (h : us.map patch = vs.map patch) : lay patch m us = lay patch m vs := by
  have hmap : ∀ ws : List ω, lay patch m ws = lay id m (ws.map patch) := by
    intro ws
    unfold lay
    rw [List.foldl_map]
    rfl
  rw [hmap us, hmap vs, h]

end Overlay
