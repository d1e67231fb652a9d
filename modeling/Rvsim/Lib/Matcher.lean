/-
# Looking for a word in a stream

The matcher remembers how much of the word the stream ends with. A letter that
does not fit sends it back to the first letter or to the start, whatever it had
matched. For a word whose first letter does not come again that is enough.

Key definitions:
  - `Matcher.step`, `Matcher.HeadOnce`, `Matcher.Tracks`
Key theorems:
  - `Matcher.Tracks.step`, `Matcher.Tracks.infix_iff`
-/
import Mathlib.Data.List.Infix
import Mathlib.Tactic.Common

namespace Matcher

variable {α : Type*}

/-- How much of the word is matched after a letter, and whether the letter completes it. -/
def step [DecidableEq α] (word : List α) (q : Nat) (c : α) : Nat × Bool :=
  if word[q]? = some c then
    if q + 1 = word.length then (0, true) else (q + 1, false)
  else if word[0]? = some c then (1, false)
  else (0, false)

/-- The first letter of the word does not come again. -/
def HeadOnce (word : List α) : Prop := ∀ i < word.length, word[i]? = word[0]? → i = 0

instance [DecidableEq α] (word : List α) : Decidable (HeadOnce word) :=
  inferInstanceAs (Decidable (∀ i < word.length, word[i]? = word[0]? → i = 0))

/-- `q` letters of the word are the only ones that the stream ends with; the whole word does not count. -/
structure Tracks (word seen : List α) (q : Nat) : Prop where
  lt : q < word.length
  ends : ∀ r < word.length, word.take r <:+ seen ↔ r = 0 ∨ r = q

variable {word seen : List α} {q r : Nat} {c : α}

theorem Tracks.nil (h : word ≠ []) : Tracks word [] 0 where
  lt := List.length_pos_iff.mpr h
  ends r hr := by
    rw [List.suffix_nil, List.take_eq_nil_iff, or_iff_left h, or_self]

/-- One letter more of the word is at the end of the stream with one letter more. -/
theorem take_suffix_concat (hr : r < word.length) :
    word.take (r + 1) <:+ seen ++ [c] ↔ word[r]? = some c ∧ word.take r <:+ seen := by
  rw [List.take_succ_eq_append_getElem hr, List.suffix_concat_iff, List.getElem?_eq_getElem hr]
  constructor
  · rintro (hnil | ⟨t, ht, hsuf⟩)
    · exact absurd hnil (List.append_ne_nil_of_right_ne_nil _ (List.cons_ne_nil _ _))
    · obtain ⟨rfl, hc⟩ := List.append_inj' ht rfl
      exact ⟨congrArg some (List.singleton_inj.mp hc), hsuf⟩
  · rintro ⟨hc, hsuf⟩
    exact .inr ⟨_, by rw [Option.some.inj hc], hsuf⟩

theorem Tracks.concat (h : Tracks word seen q) (hr : r < word.length) :
    word.take (r + 1) <:+ seen ++ [c] ↔ word[r]? = some c ∧ (r = 0 ∨ r = q) := by
  rw [take_suffix_concat hr, h.ends r hr]

/-- **The letter completes the word just when it is the last one and all others are matched.** -/
theorem Tracks.suffix_iff (h : Tracks word seen q) :
    word <:+ seen ++ [c] ↔ word[q]? = some c ∧ q + 1 = word.length := by
  have hlast : word.length - 1 < word.length := Nat.sub_lt (Nat.zero_lt_of_lt h.lt) Nat.one_pos
  have hall : word.take (word.length - 1 + 1) = word := List.take_of_length_le (by omega)
  have hconcat := h.concat (c := c) hlast
  rw [hall] at hconcat
  have hlt := h.lt
  rw [hconcat]
  constructor
  · rintro ⟨hc, hq⟩
    obtain rfl : q = word.length - 1 := by omega
    exact ⟨hc, by omega⟩
  · rintro ⟨hc, hq⟩
    obtain rfl : q = word.length - 1 := by omega
    exact ⟨hc, .inr rfl⟩

variable [DecidableEq α]

/-- The matcher says so. -/
theorem step_found : (step word q c).2 = true ↔ word[q]? = some c ∧ q + 1 = word.length := by
  unfold step
  split_ifs with hc hq h0
  all_goals simp_all

/-- **A letter keeps the matcher in step with the stream.** -/
theorem Tracks.step (hw : HeadOnce word) (h : Tracks word seen q) (c : α) :
    Tracks word (seen ++ [c]) (Matcher.step word q c).1 := by
  have hlt := h.lt
  -- it is enough to say which one letter more is matched
  have hends : ∀ q', (∀ r, r + 1 < word.length → (word[r]? = some c ∧ (r = 0 ∨ r = q) ↔ r + 1 = q')) →
      ∀ r < word.length, word.take r <:+ seen ++ [c] ↔ r = 0 ∨ r = q' := by
    intro q' hq' r hr
    cases r with
    | zero => simp
    | succ r =>
      rw [h.concat (Nat.lt_of_succ_lt hr), hq' r hr]
      omega
  unfold Matcher.step
  by_cases hc : word[q]? = some c
  · rw [if_pos hc]
    -- a first letter that fits is at the start
    have hfirst : word[0]? = some c → q = 0 := fun h0 => hw q hlt (hc.trans h0.symm)
    by_cases hq : q + 1 = word.length
    · rw [if_pos hq]
      refine ⟨Nat.zero_lt_of_lt hlt, hends 0 fun r hr => ⟨?_, fun hr0 => by omega⟩⟩
      rintro ⟨hrc, rfl | rfl⟩
      · have := hfirst hrc
        omega
      · omega
    · rw [if_neg hq]
      refine ⟨by show q + 1 < _; omega, hends (q + 1) fun r hr => ⟨?_, ?_⟩⟩
      · rintro ⟨hrc, rfl | rfl⟩
        · rw [hfirst hrc]
        · rfl
      · intro hr1
        obtain rfl : r = q := by omega
        exact ⟨hc, .inr rfl⟩
  · rw [if_neg hc]
    by_cases h0 : word[0]? = some c
    · rw [if_pos h0]
      have hpos : q ≠ 0 := fun hq => hc (hq ▸ h0)
      refine ⟨by show 1 < _; omega, hends 1 fun r hr => ⟨?_, ?_⟩⟩
      · rintro ⟨hrc, rfl | rfl⟩
        · rfl
        · exact absurd hrc hc
      · intro hr1
        obtain rfl : r = 0 := by omega
        exact ⟨h0, .inl rfl⟩
    · rw [if_neg h0]
      refine ⟨Nat.zero_lt_of_lt hlt, hends 0 fun r hr => ⟨?_, fun hr0 => by omega⟩⟩
      rintro ⟨hrc, rfl | rfl⟩
      · exact absurd hrc h0
      · exact absurd hrc hc

/-- **Once the letter is in, the word is somewhere in the stream if it was there or the matcher has it now.** -/
theorem Tracks.infix_iff (h : Tracks word seen q) (c : α) :
    word <:+: seen ++ [c] ↔ word <:+: seen ∨ (Matcher.step word q c).2 = true := by
  rw [List.infix_concat_iff, step_found, h.suffix_iff, or_comm]

end Matcher
