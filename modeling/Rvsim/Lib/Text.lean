/-
# Characters of printed text

Whether a text contains a word is decided by single characters: a text that
avoids a character of the word does not contain it. Texts put together from
parts that avoid a character avoid it, and numerals are made of digits.

Key definitions:
  - `Text.Avoids`
Key theorems:
  - `Text.Avoids.append`, `Text.avoids_intercalate`, `Text.avoids_int`
  - `Text.Avoids.not_infix`, `Text.intercalate_ne`
-/
import Mathlib.Data.List.Infix
import Mathlib.Tactic.Common

namespace Text

variable {bad : List Char}

/-- None of the characters of `bad` occurs. -/
def Avoids (bad : List Char) (s : String) : Prop := ∀ ch ∈ s.toList, ch ∉ bad

-- The characters of the text are tried, not all there are.
instance (bad : List Char) (s : String) : Decidable (Avoids bad s) := List.decidableBAll (· ∉ bad) s.toList

theorem Avoids.append {s t : String} (hs : Avoids bad s) (ht : Avoids bad t) : Avoids bad (s ++ t) := by
  intro ch hch
  rw [String.toList_append, List.mem_append] at hch
  exact hch.elim (hs ch) (ht ch)

theorem avoids_empty : Avoids bad "" := by
  intro ch hch
  simp at hch

theorem avoids_intercalate {sep : String} (hsep : Avoids bad sep) {l : List String} (h : ∀ s ∈ l, Avoids bad s) :
    Avoids bad (sep.intercalate l) := by
  induction l with
  | nil => rw [String.intercalate_nil]; exact avoids_empty
  | cons s l ih =>
    have hs := h s List.mem_cons_self
    have hl := ih fun t ht => h t (List.mem_cons_of_mem _ ht)
    cases l with
    | nil => rw [String.intercalate_singleton]; exact hs
    | cons t l =>
      rw [String.intercalate_cons_cons]
      exact (hs.append hsep).append hl

/-- A numeral is made of digits. -/
theorem avoids_nat (h : ∀ ch ∈ bad, ch.isDigit = false) (n : Nat) : Avoids bad n.repr := by
  intro ch hch hb
  rw [Nat.toList_repr] at hch
  have hdigit := Nat.isDigit_of_mem_toDigits (by decide) (by decide) hch
  rw [h ch hb] at hdigit
  exact absurd hdigit Bool.false_ne_true

/-- The numeral of an integer has digits, and perhaps a minus. -/
theorem avoids_int (h : ∀ ch ∈ bad, ch.isDigit = false) (hminus : '-' ∉ bad) (n : Int) : Avoids bad (toString n) := by
  rw [Int.toString_eq_repr, Int.repr_eq_if]
  split
  · exact avoids_nat h _
  · refine Avoids.append ?_ (avoids_nat h _)
    intro ch hch
    have hch' : ch = '-' := by simpa using hch
    exact hch' ▸ hminus

theorem Avoids.not_mem {s : String} {ch : Char} (h : Avoids bad s) (hb : ch ∈ bad) :
    ch ∉ s.toList := fun hch => h ch hch hb

/-- A word with a character that the text avoids is not in the text. -/
theorem Avoids.not_infix {s word : String} {ch : Char} (h : Avoids bad s) (hb : ch ∈ bad) (hw : ch ∈ word.toList) :
    ¬ word.toList <:+: s.toList := fun hin => h.not_mem hb (hin.subset hw)

/-! ### Different texts -/

/-- Texts that part after a common beginning are different. -/
theorem append_ne {p s t : String} (h : s ≠ t) : p ++ s ≠ p ++ t := by
  intro heq
  have hl := congrArg String.toList heq
  simp only [String.toList_append, List.append_right_inj] at hl
  exact h (String.toList_injective hl)

/-- Lists that differ in the last element only are joined to different texts. -/
theorem intercalate_ne {sep s t : String} (l : List String) (h : s ≠ t) :
    sep.intercalate (l ++ [s]) ≠ sep.intercalate (l ++ [t]) := by
  induction l with
  | nil =>
    rw [List.nil_append, List.nil_append, String.intercalate_singleton, String.intercalate_singleton]
    exact h
  | cons a l ih =>
    cases l with
    | nil =>
      simp only [List.cons_append, List.nil_append, String.intercalate_cons_cons] at ih ⊢
      exact append_ne ih
    | cons b l =>
      simp only [List.cons_append, String.intercalate_cons_cons] at ih ⊢
      exact append_ne ih

/-- Texts that begin with unlike parts of one length are different. -/
theorem ne_of_prefix {p q : String} (s t : String) (hlen : p.toList.length = q.toList.length) (h : p ≠ q) :
    p ++ s ≠ q ++ t := by
  intro heq
  have hl := congrArg String.toList heq
  simp only [String.toList_append] at hl
  exact h (String.toList_injective (List.append_inj_left hl hlen))

end Text
