/-
# Rows read and written by index

An index beyond its row stops the program. Entries are read, or replaced by what
a computation makes of them, one after the other in a loop.

Key definitions:
  - `Checked.get`, `Checked.alter`
Key theorems:
  - `Checked.get_eq_ok`, `Checked.alter_eq_ok`, `Checked.alter_ok`
  - `Checked.foldlM_ok`, `Checked.foldlM_mem`, `Checked.foldlM_count`
  - `Rows.getElem?_modifyAll`
-/
import Mathlib.Data.List.Basic
import Mathlib.Tactic.Ring
import Rvsim.Lib.Checked

namespace Checked

variable {α β : Type}

def get (l : List α) (i : Nat) : Checked α :=
  match l[i]? with
  | some v => .ok v
  | none => .error .outOfRange

/-- The entry is replaced by what the computation makes of it. -/
def alter (l : List α) (i : Nat) (f : α → Checked α) : Checked (List α) := do
  let v ← get l i
  let v' ← f v
  return l.set i v'

variable {l l' : List α} {i : Nat} {v : α}

theorem get_eq_ok : get l i = .ok v ↔ l[i]? = some v := by
  unfold get
  cases l[i]? with
  | none => simp
  | some w => simp

theorem alter_eq_ok {f : α → Checked α} :
    alter l i f = .ok l' ↔ ∃ v v', l[i]? = some v ∧ f v = .ok v' ∧ l' = l.set i v' := by
  unfold alter
  simp only [bind_eq_ok, get_eq_ok]
  constructor
  · rintro ⟨v, hv, v', hf, h⟩
    exact ⟨v, v', hv, hf, (Except.ok.inj h).symm⟩
  · rintro ⟨v, v', hv, hf, rfl⟩
    exact ⟨v, hv, v', hf, rfl⟩

/-- Where the computation does what a function does, so does the change. -/
theorem alter_ok {f : α → Checked α} {g : α → α} (hi : i < l.length) (hf : ∀ v ∈ l, f v = .ok (g v)) :
    alter l i f = .ok (l.modify i g) := by
  refine alter_eq_ok.mpr ⟨l[i], g l[i], List.getElem?_eq_getElem hi, hf _ (List.getElem_mem hi), ?_⟩
  rw [List.modify_eq_set_getElem?, List.getElem?_eq_getElem hi]
  rfl

/-- A loop does what its rounds do, as long as each leaves what the next ones need. -/
theorem foldlM_ok {f : β → α → Checked β} {g : β → α → β} (I : Nat → β → Prop) {b : β}
    (hround : ∀ n b, ∀ x ∈ l, I (n + 1) b → f b x = .ok (g b x) ∧ I n (g b x)) (h : I l.length b) :
    l.foldlM f b = .ok (l.foldl g b) ∧ I 0 (l.foldl g b) := by
  induction l generalizing b with
  | nil => exact ⟨rfl, h⟩
  | cons x l ih =>
    obtain ⟨hf, hI⟩ := hround l.length b x List.mem_cons_self h
    rw [List.foldlM_cons, hf, ok_bind, List.foldl_cons]
    exact ih (fun n b x hx => hround n b x (List.mem_cons_of_mem _ hx)) hI

/-- A loop that gives a result went through all its rounds. -/
theorem foldlM_mem {f : β → α → Checked β} {b c : β} (h : l.foldlM f b = .ok c) {x : α} (hx : x ∈ l) :
    ∃ b' c', f b' x = .ok c' := by
  induction l generalizing b with
  | nil => cases hx
  | cons y l ih =>
    rw [List.foldlM_cons, bind_eq_ok] at h
    obtain ⟨b', hb', h⟩ := h
    rcases List.mem_cons.mp hx with rfl | hx
    · exact ⟨b, b', hb'⟩
    · exact ih h hx

/-- A loop whose rounds each add the same. -/
theorem foldlM_count {f : Int → α → Checked Int} {d b c : Int} (hround : ∀ b c, ∀ x ∈ l, f b x = .ok c → c = b + d)
    (h : l.foldlM f b = .ok c) : c = b + l.length * d := by
  induction l generalizing b with
  | nil =>
    cases h
    simp
  | cons x l ih =>
    rw [List.foldlM_cons, bind_eq_ok] at h
    obtain ⟨b', hb', h⟩ := h
    have hhead := hround b b' x List.mem_cons_self hb'
    have htail := ih (fun b c x hx => hround b c x (List.mem_cons_of_mem _ hx)) h
    rw [htail, hhead, List.length_cons]
    push_cast
    ring

/-- What holds of the row through every round holds at the end. -/
theorem foldlM_inv {f : β → α → Checked β} (I : β → Prop) {b c : β}
    (hround : ∀ b c, ∀ x ∈ l, I b → f b x = .ok c → I c) (hb : I b)
    (h : l.foldlM f b = .ok c) : I c := by
  induction l generalizing b with
  | nil =>
    cases h
    exact hb
  | cons x l ih =>
    rw [List.foldlM_cons, bind_eq_ok] at h
    obtain ⟨b', hb', h⟩ := h
    exact ih (fun b c x hx => hround b c x (List.mem_cons_of_mem _ hx)) (hround b b' x List.mem_cons_self hb hb') h

end Checked

namespace Rows

variable {α : Type}

/-- The entries at the indices, each through the function. -/
def modifyAll (g : α → α) (is : List Nat) (l : List α) : List α := is.foldl (fun l i => l.modify i g) l

variable {g : α → α}

theorem length_modifyAll (is : List Nat) (l : List α) : (modifyAll g is l).length = l.length := by
  induction is generalizing l with
  | nil => rfl
  | cons i is ih => exact (ih (l.modify i g)).trans (List.length_modify ..)

/-- At different indices no entry is changed twice. -/
theorem getElem?_modifyAll {is : List Nat} (h : is.Nodup) (l : List α) (j : Nat) :
    (modifyAll g is l)[j]? = (l[j]?).map fun v => if j ∈ is then g v else v := by
  induction is generalizing l with
  | nil => simp [modifyAll]
  | cons i is ih =>
    obtain ⟨hi, his⟩ := List.nodup_cons.mp h
    change (modifyAll g is (l.modify i g))[j]? = _
    rw [ih his, List.getElem?_modify]
    cases hl : l[j]? with
    | none => rfl
    | some v =>
      by_cases hij : i = j
      · subst hij
        simp [hi]
      · simp [hij, Ne.symm hij]

end Rows
