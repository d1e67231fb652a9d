/-
# Items that are taken in and wait for the event that ends them

A system takes items in as it handles events. `ends e t = some r` says that the
event `e` ends an item `t` that still waits, with outcome `r`. The fate of an
item is then a matter of the events after it alone, and what waits at any point
of the run are the items whose fate is still open.

Key definitions:
  - `Lives.fate`, `Lives.lives`, `Lives.advance`, `Lives.waiting`
Key theorems:
  - `Lives.fate_eq_some_iff`, `Lives.mem_lives`, `Lives.ended_at`, `Lives.still_open`
  - `Lives.flatMap_filter_perm`
-/
import Mathlib.Data.List.Basic
import Mathlib.Data.List.Nodup

namespace Lives

variable {E T R S : Type}

/-- The event that ends the item, counted from the position `i` of the next event, and its outcome. -/
def fate (ends : E → T → Option R) (t : T) : Nat → List E → Option (Nat × R)
  | _, [] => none
  | i, e :: es =>
    match ends e t with
    | some r => some (i, r)
    | none => fate ends t (i + 1) es

section Fate

variable {ends : E → T → Option R} {t : T}

theorem fate_cons_some {i : Nat} {e : E} {es : List E} {r : R} (h : ends e t = some r) :
    fate ends t i (e :: es) = some (i, r) := by
  simp only [fate, h]

theorem fate_cons_none {i : Nat} {e : E} {es : List E} (h : ends e t = none) :
    fate ends t i (e :: es) = fate ends t (i + 1) es := by
  simp only [fate, h]

theorem fate_ge {i k : Nat} {es : List E} {r : R} (h : fate ends t i es = some (k, r)) : i ≤ k := by
  induction es generalizing i with
  | nil => simp [fate] at h
  | cons e es ih =>
    cases he : ends e t with
    | some r' =>
      simp only [fate, he, Option.some.injEq, Prod.mk.injEq] at h
      omega
    | none =>
      simp only [fate, he] at h
      have := ih h
      omega

theorem fate_eq_some_iff {i k : Nat} {es : List E} {r : R} :
    fate ends t i es = some (k, r) ↔
      i ≤ k ∧ (∃ e, es[k - i]? = some e ∧ ends e t = some r) ∧ ∀ j e, j < k - i → es[j]? = some e →
          ends e t = none := by
  induction es generalizing i with
  | nil => simp [fate]
  | cons e es ih =>
    cases he : ends e t with
    | some r' =>
      simp only [fate, he, Option.some.injEq, Prod.mk.injEq]
      constructor
      · rintro ⟨rfl, rfl⟩
        refine ⟨Nat.le_refl i, ⟨e, by simp, he⟩, fun j _ hj => ?_⟩
        omega
      · rintro ⟨hik, ⟨e', hget, hr⟩, hbefore⟩
        -- a later event would come after one that ends the item
        by_cases hk : k = i
        · subst hk
          rw [Nat.sub_self, List.getElem?_cons_zero, Option.some.injEq] at hget
          rw [← hget, he] at hr
          exact ⟨rfl, Option.some.inj hr⟩
        · have := hbefore 0 e (by omega) rfl
          rw [he] at this
          cases this
    | none =>
      simp only [fate, he]
      rw [ih]
      constructor
      · rintro ⟨hik, ⟨e', hget, hr⟩, hbefore⟩
        refine ⟨by omega, ⟨e', ?_, hr⟩, fun j e'' hj hget' => ?_⟩
        · rw [show k - i = (k - (i + 1)) + 1 by omega, List.getElem?_cons_succ]
          exact hget
        · cases j with
          | zero =>
            rw [List.getElem?_cons_zero, Option.some.injEq] at hget'
            exact hget' ▸ he
          | succ j =>
            rw [List.getElem?_cons_succ] at hget'
            exact hbefore j e'' (by omega) hget'
      · rintro ⟨hik, ⟨e', hget, hr⟩, hbefore⟩
        have hne : k ≠ i := by
          rintro rfl
          rw [Nat.sub_self, List.getElem?_cons_zero, Option.some.injEq] at hget
          rw [← hget, he] at hr
          cases hr
        refine ⟨by omega, ⟨e', ?_, hr⟩, fun j e'' hj hget' => hbefore (j + 1) e'' (by omega) ?_⟩
        · rwa [show k - i = (k - (i + 1)) + 1 by omega, List.getElem?_cons_succ] at hget
        · rwa [List.getElem?_cons_succ]

end Fate

/-! ### A run -/

variable (step : S → E → S) (admits : S → Nat → E → Option T) (ends : E → T → Option R)

/-- Every item the run takes in, with its fate. -/
def lives : S → Nat → List E → List (T × Option (Nat × R))
  | _, _, [] => []
  | s, i, e :: es =>
    (admits s i e).toList.map (fun t => (t, fate ends t (i + 1) es)) ++ lives (step s e) (i + 1) es

/-- What waits after the event: those it does not end, and the one it brings. -/
def advance (s : S) (i : Nat) (e : E) (held : List T) : List T :=
  held.filter (fun t => (ends e t).isNone) ++ (admits s i e).toList

/-- What waits after the events. -/
def waiting : S → Nat → List E → List T → List T
  | _, _, [], held => held
  | s, i, e :: es, held => waiting (step s e) (i + 1) es (advance admits ends s i e held)

variable {step admits ends}

variable (step admits ends) in
/-- The items held at the start, with their fates, and those the run takes in. -/
def book (s : S) (i : Nat) (es : List E) (held : List T) : List (T × Option (Nat × R)) :=
  held.map (fun t => (t, fate ends t i es)) ++ lives step admits ends s i es

/-- An event strikes out those it ends. -/
theorem book_cons_filter (s : S) (i : Nat) (e : E) (es : List E) (held : List T) (p : Option (Nat × R) → Bool)
    (hp : ∀ r, p (some (i, r)) = false) :
    (book step admits ends s i (e :: es) held).filter (fun l => p l.2) =
      (book step admits ends (step s e) (i + 1) es (advance admits ends s i e held)).filter (fun l => p l.2) := by
  simp only [book, lives, advance, List.map_append, List.filter_append, List.append_assoc]
  congr 1
  induction held with
  | nil => rfl
  | cons t held ih =>
    cases he : ends e t with
    | some r => simp [fate_cons_some he, he, hp, ih]
    | none =>
      by_cases hpt : p (fate ends t (i + 1) es)
      · simp [fate_cons_none he, he, hpt, ih]
      · simp [fate_cons_none he, he, hpt, ih]

variable (step admits ends) in
theorem book_filter (s : S) (i : Nat) (pre post : List E) (held : List T) (p : Option (Nat × R) → Bool)
    (hp : ∀ k r, k < i + pre.length → p (some (k, r)) = false) :
    (book step admits ends s i (pre ++ post) held).filter (fun l => p l.2) =
      (book step admits ends (pre.foldl step s) (i + pre.length) post
        (waiting step admits ends s i pre held)).filter (fun l => p l.2) := by
  induction pre generalizing s i held with
  | nil => rfl
  | cons e es ih =>
    simp only [List.cons_append, List.length_cons] at hp ⊢
    rw [book_cons_filter s i e (es ++ post) held p fun r => hp i r (by omega),
      ih (step s e) (i + 1) (advance admits ends s i e held) fun k r hk => hp k r (by omega),
      show i + 1 + es.length = i + (es.length + 1) by omega]
    rfl

theorem lives_ge {s : S} {i : Nat} {es : List E} {l : T × Option (Nat × R)} (hl : l ∈ lives step admits ends s i es)
    {k : Nat} {r : R} (hk : l.2 = some (k, r)) : i < k := by
  induction es generalizing s i with
  | nil => simp [lives] at hl
  | cons e es ih =>
    rcases List.mem_append.mp hl with hnew | hrest
    · obtain ⟨t, -, rfl⟩ := List.mem_map.mp hnew
      have := fate_ge hk
      omega
    · have := ih hrest
      omega

/-- An item of the run came in at some event, and its fate is a matter of the events after that one. -/
theorem mem_lives {s : S} {i : Nat} {es : List E} {l : T × Option (Nat × R)} (hl : l ∈ lives step admits ends s i es) :
    ∃ j e, es[j]? = some e ∧ admits ((es.take j).foldl step s) (i + j) e = some l.1 ∧
      l.2 = fate ends l.1 (i + j + 1) (es.drop (j + 1)) := by
  induction es generalizing s i with
  | nil => simp [lives] at hl
  | cons e es ih =>
    rcases List.mem_append.mp hl with hnew | hrest
    · obtain ⟨t, ht, rfl⟩ := List.mem_map.mp hnew
      exact ⟨0, e, rfl, by simpa using ht, rfl⟩
    · obtain ⟨j, e', hget, ha, hf⟩ := ih hrest
      refine ⟨j + 1, e', by simpa using hget, ?_, ?_⟩
      · rwa [List.take_succ_cons, List.foldl_cons, show i + (j + 1) = i + 1 + j by omega]
      · rwa [List.drop_succ_cons, show i + (j + 1) + 1 = i + 1 + j + 1 by omega]

variable [DecidableEq R]

variable (step admits ends) in
/-- **What an event ends.** The items whose fate is the event at position `k` with
outcome `r` are those that wait there and that the event ends so. -/
theorem ended_at (s : S) (pre post : List E) (e : E) (r : R) :
    ((lives step admits ends s 0 (pre ++ e :: post)).filter fun l => l.2 = some (pre.length, r)).map Prod.fst =
      (waiting step admits ends s 0 pre []).filter fun t => ends e t = some r := by
  have hbook := book_filter step admits ends s 0 pre (e :: post) []
    (fun f => decide (f = some (pre.length, r))) fun k r' hk => by
      refine decide_eq_false fun heq => ?_
      rw [Option.some.injEq, Prod.mk.injEq] at heq
      omega
  have hlives : book step admits ends s 0 (pre ++ e :: post) [] = lives step admits ends s 0 (pre ++ e :: post) := rfl
  rw [hlives] at hbook
  rw [hbook, Nat.zero_add]
  generalize waiting step admits ends s 0 pre [] = held
  simp only [book, List.filter_append, List.map_append]
  -- what the run takes in from here on ends later
  have hlater : (lives step admits ends (pre.foldl step s) pre.length (e :: post)).filter
      (fun l => decide (l.2 = some (pre.length, r))) = [] := by
    refine List.filter_eq_nil_iff.mpr fun l hl hend => ?_
    exact absurd (lives_ge hl (of_decide_eq_true hend)) (Nat.lt_irrefl _)
  rw [hlater, List.map_nil, List.append_nil]
  induction held with
  | nil => rfl
  | cons t held ih =>
    cases he : ends e t with
    | some r' =>
      by_cases hr : r' = r
      · simp [fate_cons_some he, he, hr, ih]
      · simp [fate_cons_some he, he, hr, ih]
    | none =>
      have hne : fate ends t (pre.length + 1) post ≠ some (pre.length, r) := fun heq => by
        have := fate_ge heq
        omega
      simp [fate_cons_none he, he, hne, ih]

variable (step admits ends) in
omit [DecidableEq R] in
/-- **What is left.** The items whose fate is open are those that wait at the end. -/
theorem still_open (s : S) (es : List E) :
    ((lives step admits ends s 0 es).filter fun l => l.2.isNone).map Prod.fst = waiting step admits ends s 0 es [] := by
  have hbook := book_filter step admits ends s 0 es [] [] (fun f => f.isNone)
    fun k r _ => rfl
  have hlives : book step admits ends s 0 (es ++ []) [] = lives step admits ends s 0 es := by
    rw [List.append_nil]
    rfl
  rw [hlives] at hbook
  rw [hbook]
  generalize waiting step admits ends s 0 es [] = held
  simp only [book, lives, List.append_nil]
  induction held with
  | nil => rfl
  | cons t held ih => simpa [fate] using ih

/-! ### Items by key -/

section Keys

variable {K A : Type} [DecidableEq K]

theorem filter_or_perm (l : List T) (p q : T → Bool) (h : ∀ t ∈ l, p t = true → q t = false) :
    (l.filter p ++ l.filter q).Perm (l.filter fun t => p t || q t) := by
  induction l with
  | nil => exact List.Perm.nil
  | cons t l ih =>
    have ih := ih fun t ht => h t (List.mem_cons_of_mem _ ht)
    by_cases hp : p t
    · have hq := h t List.mem_cons_self hp
      simpa [hp, hq] using ih
    · by_cases hq : q t
      · simp only [List.filter_cons, hp, hq, Bool.false_or, Bool.false_eq_true, if_false, if_true]
        exact List.perm_middle.trans (ih.cons t)
      · simpa [hp, hq] using ih

/-- Collecting the items key by key collects those that have one of the keys. -/
theorem flatMap_filter_perm (held : List T) (key : T → K) {keys : List K} (hnd : keys.Nodup) :
    (keys.flatMap fun k => held.filter fun t => key t = k).Perm (held.filter fun t => key t ∈ keys) := by
  induction keys with
  | nil => simp
  | cons k keys ih =>
    obtain ⟨hk, hnd'⟩ := List.nodup_cons.mp hnd
    rw [List.flatMap_cons]
    refine ((ih hnd').append_left _).trans ?_
    refine (filter_or_perm held _ _ fun t _ heq => ?_).trans (List.Perm.of_eq ?_)
    · have := of_decide_eq_true heq
      exact decide_eq_false (this ▸ hk)
    · refine List.filter_congr fun t _ => ?_
      simp [List.mem_cons]

end Keys

end Lives
