/-
# Producers of registers

Instructions in flight stand in program order, each with a name and at most
one register it writes. The producer of a register is the last of them that
writes it. A table follows the producers while instructions enter at the
back, leave at the front and are cut off at the back, and an instruction that
keeps the names it found there when it entered can read its operands by name
later: the name is that of the producer, or of an instruction that has left.

Key definitions:
  - `Writer`, `producer`, `Tracks`, `Names`, `valueOf`
Key theorems:
  - `Tracks.enter`, `Tracks.leave`, `tracks_rebuild`
  - `Names.of_tracks`, `Names.leave`, `Names.enter`
  - `foldl_write`
-/
import Mathlib.Data.List.Nodup
import Mathlib.Logic.Function.Basic
import Mathlib.Tactic.Common

namespace Producers

/-- An instruction in flight: its name and the register it writes. -/
structure Writer (τ ρ : Type*) where
  tag : τ
  dst : Option ρ

variable {τ ρ V : Type*} [DecidableEq τ] [DecidableEq ρ]

/-- The name of the last instruction that writes `r`. -/
def producer (r : ρ) : List (Writer τ ρ) → Option τ
  | [] => none
  | w :: ws => (producer r ws).or (if w.dst = some r then some w.tag else none)

omit [DecidableEq τ] in
theorem producer_append (r : ρ) (xs ys : List (Writer τ ρ)) :
    producer r (xs ++ ys) = (producer r ys).or (producer r xs) := by
  induction xs with
  | nil => simp [producer]
  | cons x xs ih => rw [List.cons_append, producer, ih, producer, Option.or_assoc]

omit [DecidableEq τ] in
theorem producer_snoc (r : ρ) (ws : List (Writer τ ρ)) (w : Writer τ ρ) :
    producer r (ws ++ [w]) = if w.dst = some r then some w.tag else producer r ws := by
  rw [producer_append, producer, producer, Option.none_or]
  split
  · rfl
  · rfl

omit [DecidableEq τ] in
theorem mem_of_producer {r : ρ} {ws : List (Writer τ ρ)} {t : τ} (h : producer r ws = some t) :
    t ∈ ws.map Writer.tag := by
  induction ws with
  | nil => exact absurd h (by simp [producer])
  | cons w ws ih =>
    rw [producer, Option.or_eq_some_iff] at h
    rcases h with h | ⟨-, h⟩
    · exact List.mem_cons_of_mem _ (ih h)
    · rw [Option.ite_none_right_eq_some] at h
      rw [← Option.some.inj h.2]
      exact List.mem_cons_self

/-! ### The table -/

/-- An instruction enters: it is the producer of its register from now on. -/
def enter (T : ρ → Option τ) (w : Writer τ ρ) : ρ → Option τ :=
  match w.dst with
  | some r => Function.update T r (some w.tag)
  | none => T

/-- An instruction leaves: its register has no producer unless a later one has taken over. -/
def leave (T : ρ → Option τ) (w : Writer τ ρ) : ρ → Option τ :=
  match w.dst with
  | some r => if T r = some w.tag then Function.update T r none else T
  | none => T

/-- The table names the producers. -/
def Tracks (T : ρ → Option τ) (ws : List (Writer τ ρ)) : Prop := ∀ r, T r = producer r ws

namespace Tracks

variable {T : ρ → Option τ} {ws : List (Writer τ ρ)} {w : Writer τ ρ}

omit [DecidableEq τ] in
theorem nil : Tracks (fun _ : ρ => (none : Option τ)) [] := fun _ => rfl

omit [DecidableEq τ] in
theorem enter (h : Tracks T ws) (w : Writer τ ρ) : Tracks (Producers.enter T w) (ws ++ [w]) := by
  intro r
  rw [producer_snoc]
  unfold Producers.enter
  cases hd : w.dst with
  | none => simpa using h r
  | some d =>
    by_cases hr : d = r
    · subst hr
      simp
    · rw [if_neg (by simpa using hr)]
      dsimp only
      rw [Function.update_of_ne (Ne.symm hr)]
      exact h r

theorem leave (h : Tracks T (w :: ws)) (hw : w.tag ∉ ws.map Writer.tag) : Tracks (Producers.leave T w) ws := by
  intro r
  have hr := h r
  rw [producer] at hr
  unfold Producers.leave
  cases hd : w.dst with
  | none => simpa [hd] using hr
  | some d =>
    dsimp only
    by_cases hdr : d = r
    · subst hdr
      rw [hd, if_pos rfl] at hr
      cases hp : producer d ws with
      | none =>
        -- nobody behind it writes the register: the table named it
        rw [hp, Option.none_or] at hr
        rw [if_pos hr, Function.update_self]
      | some t =>
        rw [hp, Option.some_or] at hr
        have hne : t ≠ w.tag := fun heq => hw (heq ▸ mem_of_producer hp)
        rw [if_neg (by rw [hr]; simpa using hne)]
        exact hr
    · rw [hd, if_neg (by simpa using hdr), Option.or_none] at hr
      split
      · rw [Function.update_of_ne (Ne.symm hdr)]
        exact hr
      · exact hr

end Tracks

omit [DecidableEq τ] in
/-- A rebuilt table names the producers. -/
theorem tracks_rebuild (ws : List (Writer τ ρ)) : Tracks (ws.foldl enter fun _ => none) ws := by
  have hloop : ∀ (ys xs : List (Writer τ ρ)) (T : ρ → Option τ), Tracks T xs →
      Tracks (ys.foldl enter T) (xs ++ ys) := by
    intro ys
    induction ys with
    | nil => exact fun xs T h => by simpa using h
    | cons y ys ih =>
      intro xs T h
      have h' := ih (xs ++ [y]) (enter T y) (h.enter y)
      rwa [List.append_assoc] at h'
  exact hloop ws [] _ Tracks.nil

/-! ### Names kept by a reader -/

/-- `o` names the producer of `r` among `pre`, or an instruction that is not among `live` any more. -/
def Names (o : Option τ) (r : ρ) (pre : List (Writer τ ρ)) (live : List τ) : Prop :=
  producer r pre = o.filter fun t => decide (t ∈ live)

namespace Names

variable {o : Option τ} {r : ρ} {pre : List (Writer τ ρ)} {live : List τ}

/-- What a reader finds in the table when it enters. -/
theorem of_tracks {T : ρ → Option τ} (h : Tracks T pre) (hlive : ∀ t ∈ pre.map Writer.tag, t ∈ live) (r : ρ) :
    Names (T r) r pre live := by
  unfold Names
  rw [h r]
  cases hp : producer r pre with
  | none => rfl
  | some t => simp [Option.filter, hlive t (mem_of_producer hp)]

/-- The oldest instruction leaves. -/
theorem leave {w : Writer τ ρ} (h : Names o r (w :: pre) (w.tag :: live)) (hw : w.tag ∉ live)
    (hpre : w.tag ∉ pre.map Writer.tag) : Names o r pre live := by
  unfold Names at h ⊢
  rw [producer] at h
  cases o with
  | none =>
    rw [Option.filter_none, Option.or_eq_none_iff] at h
    rw [Option.filter_none]
    exact h.1
  | some t =>
    by_cases ht : t = w.tag
    · -- the name is that of the one that leaves, which nobody behind it has taken over
      subst ht
      rw [Option.filter_some_neg (by simpa using hw)]
      rw [Option.filter_some_pos (by simp)] at h
      cases hp : producer r pre with
      | none => rfl
      | some t' =>
        rw [hp, Option.some_or, Option.some.injEq] at h
        exact absurd (h ▸ mem_of_producer hp) hpre
    · have hmem : (decide (t ∈ w.tag :: live)) = decide (t ∈ live) := by simp [ht]
      simp only [Option.filter, hmem] at h ⊢
      by_cases hl : t ∈ live
      · simp only [hl, decide_true, if_true] at h ⊢
        rw [Option.or_eq_some_iff] at h
        rcases h with h | ⟨-, h⟩
        · exact h
        · rw [Option.ite_none_right_eq_some, Option.some.injEq] at h
          exact absurd h.2.symm ht
      · simp only [hl, decide_false, Bool.false_eq_true, if_false, Option.or_eq_none_iff] at h ⊢
        exact h.1

/-- An instruction with a name of its own enters behind the reader. -/
theorem enter {t : τ} (h : Names o r pre live) (ht : o ≠ some t) : Names o r pre (live ++ [t]) := by
  unfold Names at h ⊢
  rw [h]
  cases o with
  | none => rfl
  | some u =>
    have hne : u ≠ t := fun heq => ht (by rw [heq])
    simp [Option.filter, hne]

end Names

/-! ### Values -/

/-- The value of `r` behind `ws`: that of its producer, else the one it had. -/
def valueOf (regs : ρ → V) (res : τ → V) (r : ρ) (ws : List (Writer τ ρ)) : V :=
  match producer r ws with
  | some t => res t
  | none => regs r

/-- An instruction writes its result. -/
def write (res : τ → V) (regs : ρ → V) (w : Writer τ ρ) : ρ → V :=
  match w.dst with
  | some r => Function.update regs r (res w.tag)
  | none => regs

omit [DecidableEq τ] in
/-- Writing the results one after the other leaves every register with the value of its producer. -/
theorem foldl_write (res : τ → V) (ws : List (Writer τ ρ)) (regs : ρ → V) (r : ρ) :
    ws.foldl (write res) regs r = valueOf regs res r ws := by
  induction ws generalizing regs with
  | nil => rfl
  | cons w ws ih =>
    rw [List.foldl_cons, ih]
    unfold valueOf
    rw [producer]
    cases hp : producer r ws with
    | some t => rfl
    | none =>
      rw [Option.none_or]
      unfold write
      cases hd : w.dst with
      | none => simp
      | some d =>
        by_cases hdr : d = r
        · subst hdr
          simp
        · rw [if_neg (by simpa using hdr)]
          exact Function.update_of_ne (Ne.symm hdr) _ _

end Producers
