/-
# Walks along links

Each place has at most one link. A walk from a place ends where there is none;
over finitely many places it ends exactly when it comes to no place twice.

Key definitions:
  - `Walks.walk`, `Walks.after`, `Walks.Revisits`
Key theorems:
  - `Walks.walk_mono`, `Walks.walk_not_revisits`, `Walks.walk_of_not_revisits`
-/
import Mathlib.Data.Fintype.Card
import Mathlib.Data.List.Nodup

namespace Walks

variable {α : Type} (f : α → Option α)

/-- The places of a walk that takes at most `n` of them. -/
def walk : Nat → α → Option (List α)
  | 0, _ => none
  | n + 1, a =>
    match f a with
    | none => some [a]
    | some b => (walk n b).map (a :: ·)

/-- The place after `n` links. -/
def after : Nat → α → Option α
  | 0, a => some a
  | n + 1, a => (f a).bind (after n)

/-- The walk comes to a place twice. -/
def Revisits (a : α) : Prop := ∃ i j x, i < j ∧ after f i a = some x ∧ after f j a = some x

variable {f} {a x : α} {l : List α} {n m : Nat}

theorem after_add (m n : Nat) (a : α) : after f (m + n) a = (after f m a).bind (after f n) := by
  induction m generalizing a with
  | zero => rw [Nat.zero_add]; rfl
  | succ m ih =>
    rw [show m + 1 + n = m + n + 1 by omega]
    cases h : f a with
    | none => simp [after, h]
    | some b => simpa [after, h] using ih b

/-- The walk takes more than `n` places exactly when it has a place after `n` links. -/
theorem walk_eq_none_iff (n : Nat) (a : α) : walk f n a = none ↔ ∃ x, after f n a = some x := by
  induction n generalizing a with
  | zero => simp [walk, after]
  | succ n ih =>
    cases h : f a with
    | none => simp [walk, after, h]
    | some b => simpa [walk, after, h] using ih b

theorem walk_mono (h : walk f n a = some l) (hnm : n ≤ m) : walk f m a = some l := by
  induction n generalizing a l m with
  | zero => cases h
  | succ n ih =>
    obtain ⟨m, rfl⟩ : ∃ k, m = k + 1 := ⟨m - 1, by omega⟩
    cases hf : f a with
    | none => simpa [walk, hf] using h
    | some b =>
      simp only [walk, hf, Option.map_eq_some_iff] at h ⊢
      obtain ⟨l', hl', rfl⟩ := h
      exact ⟨l', ih hl' (by omega), rfl⟩

theorem walk_unique {l' : List α} (h : walk f n a = some l) (h' : walk f m a = some l') : l = l' := by
  have hn := walk_mono h (le_max_left n m)
  have hm := walk_mono h' (le_max_right n m)
  exact Option.some.inj (hn.symm.trans hm)

/-- The list of a walk has its places in order, and then the walk is over. -/
theorem getElem?_walk (h : walk f n a = some l) (i : Nat) : l[i]? = after f i a := by
  induction n generalizing a l i with
  | zero => cases h
  | succ n ih =>
    cases hf : f a with
    | none =>
      obtain rfl : [a] = l := by simpa [walk, hf] using h
      cases i with
      | zero => rfl
      | succ i => simp [after, hf]
    | some b =>
      simp only [walk, hf, Option.map_eq_some_iff] at h
      obtain ⟨l', hl', rfl⟩ := h
      cases i with
      | zero => rfl
      | succ i => simpa [after, hf] using ih hl' i

theorem mem_walk_iff (h : walk f n a = some l) : x ∈ l ↔ ∃ i, after f i a = some x := by
  rw [List.mem_iff_getElem?]
  simp only [getElem?_walk h]

/-- **A walk that ends comes to no place twice.** -/
theorem walk_not_revisits (h : walk f n a = some l) : ¬ Revisits f a := by
  rintro ⟨i, j, x, hij, hi, hj⟩
  have hjl : j < l.length := by
    by_contra hc
    rw [← getElem?_walk h, List.getElem?_eq_none (by omega)] at hj
    cases hj
  -- from the two visits on the walk is the same, but only the later one is followed by its end
  have hend : after f (j + (l.length - j)) a = none := by
    rw [← getElem?_walk h, List.getElem?_eq_none (by omega)]
  rw [after_add, hj, ← hi, ← after_add, ← getElem?_walk h, List.getElem?_eq_none_iff] at hend
  omega

/-- **A walk that comes to no place twice ends**, within as many places as there are. -/
theorem walk_of_not_revisits {q : Nat} (g : α → Nat) (hg : Function.Injective g)
    (hq : ∀ i x, after f i a = some x → g x < q) (h : ¬ Revisits f a) : ∃ l, walk f q a = some l := by
  rw [← Option.ne_none_iff_exists', ne_eq, walk_eq_none_iff]
  rintro ⟨last, hlast⟩
  have hplace : ∀ i : Fin (q + 1), ∃ x, after f i a = some x := by
    intro i
    have hsplit : i + (q - i) = q := by omega
    rw [← hsplit, after_add] at hlast
    obtain ⟨x, hx, -⟩ := Option.bind_eq_some_iff.mp hlast
    exact ⟨x, hx⟩
  choose place hplace using hplace
  have hinj : Function.Injective fun i : Fin (q + 1) => (⟨g (place i), hq i _ (hplace i)⟩ : Fin q) := by
    intro i j hij
    have hsame : place i = place j := hg (Fin.mk.inj hij)
    by_contra hne
    rcases Nat.lt_or_gt_of_ne (fun hc => hne (Fin.ext hc) : i.val ≠ j.val) with hlt | hlt
    · exact h ⟨i, j, place i, hlt, hplace i, hsame ▸ hplace j⟩
    · exact h ⟨j, i, place j, hlt, hplace j, hsame ▸ hplace i⟩
  have hcard := Fintype.card_le_of_injective _ hinj
  rw [Fintype.card_fin, Fintype.card_fin] at hcard
  omega

end Walks
