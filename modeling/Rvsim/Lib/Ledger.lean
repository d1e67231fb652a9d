/-
# A queue and the records of some of its members

Members leave a queue at the head. Some of them have a record, kept aside under
the member's name. While names do not repeat and the records stand in the order
of the queue, looking records up as members leave finds them in the order in
which they stand, and leaves those of the members that stay.

Key definitions:
  - `Ledger.Along`, `Ledger.recordOf`, `Ledger.InFront`
Key theorems:
  - `Ledger.Along.narrow`, `Ledger.Along.filterMap_recordOf`, `Ledger.Along.serve`
  - `Ledger.InFront.total`, `Ledger.sublist_of_inFront`
-/
import Mathlib.Data.List.Nodup
import Mathlib.Data.List.Infix

namespace Ledger

variable {T A : Type} {q q' gone rest out : List T} {pend : List (T × A)}

/-- The records are of members of the queue, and in its order. -/
def Along (q : List T) (pend : List (T × A)) : Prop := (pend.map Prod.fst).Sublist q

theorem Along.nil (q : List T) : Along q ([] : List (T × A)) := List.nil_sublist q

theorem Along.mono (h : Along q pend) (hq : q.Sublist q') : Along q' pend := List.Sublist.trans h hq

theorem Along.mem (h : Along q pend) {x : T × A} (hx : x ∈ pend) :
    x.1 ∈ q := List.Sublist.subset h (List.mem_map_of_mem hx)

/-- The records at the head and those behind it. -/
theorem Along.split (h : Along (gone ++ rest) pend) :
    ∃ served kept, pend = served ++ kept ∧ Along gone served ∧ Along rest kept := by
  obtain ⟨l₁, l₂, heq, h₁, h₂⟩ := List.sublist_append_iff.mp h
  obtain ⟨served, kept, rfl, rfl, rfl⟩ := List.map_eq_append_iff.mp heq
  exact ⟨served, kept, rfl, h₁, h₂⟩

section

variable [DecidableEq T]

/-- A part of a list without repetition is what its members select. -/
theorem filter_mem_eq (hq : q'.Sublist q) (hnd : q.Nodup) : q.filter (fun t => t ∈ q') = q' := by
  induction hq with
  | slnil => rfl
  | @cons l₁ l₂ a hs ih =>
    obtain ⟨ha, hnd'⟩ := List.nodup_cons.mp hnd
    have hout : a ∉ l₁ := fun hin => ha (hs.subset hin)
    rw [List.filter_cons_of_neg (by simpa using hout)]
    exact ih hnd'
  | @cons_cons l₁ l₂ a hs ih =>
    obtain ⟨ha, hnd'⟩ := List.nodup_cons.mp hnd
    have hrest : l₂.filter (fun t => t ∈ a :: l₁) = l₂.filter (fun t => t ∈ l₁) := by
      refine List.filter_congr fun t ht => ?_
      have hne : t ≠ a := fun heq => ha (heq ▸ ht)
      simp [hne]
    rw [List.filter_cons_of_pos (by simp), hrest, ih hnd']

/-- Records of members that are all in a part of the queue lie along the part. -/
theorem Along.narrow (h : Along q pend) (hnd : q.Nodup) (hq : q'.Sublist q) (hin : ∀ x ∈ pend, x.1 ∈ q') :
    Along q' pend := by
  have hall : (pend.map Prod.fst).filter (fun t => t ∈ q') = pend.map Prod.fst := by
    refine List.filter_eq_self.mpr fun t ht => ?_
    obtain ⟨x, hx, rfl⟩ := List.mem_map.mp ht
    exact decide_eq_true (hin x hx)
  have hsub := List.Sublist.filter (fun t => decide (t ∈ q')) h
  rw [hall, filter_mem_eq hq hnd] at hsub
  exact hsub

/-- The record of a member, if it has one. -/
def recordOf (pend : List (T × A)) (t : T) : Option A := (pend.find? fun x => x.1 = t).map Prod.snd

theorem recordOf_eq_none {t : T} (h : ∀ x ∈ pend, x.1 ≠ t) : recordOf pend t = none := by
  unfold recordOf
  rw [List.find?_eq_none.mpr fun x hx => by simpa using h x hx]
  rfl

theorem recordOf_append_left {kept : List (T × A)} {t : T} (h : ∀ x ∈ kept, x.1 ≠ t) :
    recordOf (pend ++ kept) t = recordOf pend t := by
  have hnone : kept.find? (fun x => x.1 = t) = none := List.find?_eq_none.mpr fun x hx => by simpa using h x hx
  unfold recordOf
  rw [List.find?_append, hnone, Option.or_none]

/-- Looked up in the order of the queue, the records come in the order in which they stand. -/
theorem Along.filterMap_recordOf (h : Along q pend) (hnd : q.Nodup) :
    q.filterMap (recordOf pend) = pend.map Prod.snd := by
  induction q generalizing pend with
  | nil =>
    have hnone : pend = [] := List.map_eq_nil_iff.mp (List.sublist_nil.mp h)
    rw [hnone]
    rfl
  | cons t q ih =>
    obtain ⟨ht, hnd'⟩ := List.nodup_cons.mp hnd
    rcases List.sublist_cons_iff.mp h with h' | ⟨ts, heq, h'⟩
    · -- the member has no record
      have hbehind : Along q pend := h'
      have hnone : recordOf pend t = none := recordOf_eq_none fun x hx hxt => ht (hxt ▸ hbehind.mem hx)
      rw [List.filterMap_cons_none hnone]
      exact ih hbehind hnd'
    · -- its record is the first
      obtain ⟨x, xs, rfl, rfl, rfl⟩ := List.map_eq_cons_iff.mp heq
      have hsome : recordOf (x :: xs) x.1 = some x.2 := by
        unfold recordOf
        rw [List.find?_cons_of_pos (by simp)]
        rfl
      have hrest : q.filterMap (recordOf (x :: xs)) = q.filterMap (recordOf xs) := by
        refine List.filterMap_congr fun t ht' => ?_
        have hne : x.1 ≠ t := fun hxt => ht (hxt ▸ ht')
        unfold recordOf
        rw [List.find?_cons_of_neg (by simpa using hne)]
      rw [List.filterMap_cons_some hsome, hrest, List.map_cons]
      have hxs : Along q xs := h'
      exact congrArg (x.2 :: ·) (ih hxs hnd')

/-- **Serving the head.** The queue's first members leave, those in `out` with their records. When no other of
them has a record, what is found are the first records, in their order; the others lie along the rest. -/
theorem Along.serve (h : Along (gone ++ rest) pend) (hnd : (gone ++ rest).Nodup) (hout : out.Sublist gone)
    (hserved : ∀ x ∈ pend, x.1 ∈ gone → x.1 ∈ out) :
    pend.map Prod.snd = out.filterMap (recordOf pend) ++ (pend.filter fun x => x.1 ∉ gone).map Prod.snd ∧
      Along rest (pend.filter fun x => x.1 ∉ gone) := by
  obtain ⟨served, kept, rfl, hs, hk⟩ := h.split
  obtain ⟨hgone, -, hdisj⟩ := List.nodup_append.mp hnd
  have hkept : ∀ x ∈ kept, ∀ t ∈ gone, x.1 ≠ t := fun x hx t ht heq => hdisj t ht x.1 (hk.mem hx) heq.symm
  have hfilter : (served ++ kept).filter (fun x => x.1 ∉ gone) = kept := by
    have h₁ : served.filter (fun x => x.1 ∉ gone) = [] :=
      List.filter_eq_nil_iff.mpr fun x hx => by simpa using hs.mem hx
    have h₂ : kept.filter (fun x => x.1 ∉ gone) = kept :=
      List.filter_eq_self.mpr fun x hx => by simpa using fun hin => hkept x hx x.1 hin rfl
    rw [List.filter_append, h₁, h₂, List.nil_append]
  have hlook : out.filterMap (recordOf (served ++ kept)) = out.filterMap (recordOf served) :=
    List.filterMap_congr fun t ht => recordOf_append_left fun x hx => hkept x hx t (hout.subset ht)
  have halong : Along out served := hs.narrow hgone hout fun x hx =>
    hserved x (List.mem_append_left _ hx) (hs.mem hx)
  rw [hfilter, hlook, halong.filterMap_recordOf (hgone.sublist hout), List.map_append]
  exact ⟨rfl, hk⟩

end

/-! ### Standing in front -/

variable {a b : T}

/-- `a` stands in front of `b` in the queue. -/
def InFront (q : List T) (a b : T) : Prop := [a, b].Sublist q

instance [DecidableEq T] (q : List T) (a b : T) : Decidable (InFront q a b) :=
  inferInstanceAs (Decidable ([a, b].Sublist q))

namespace InFront

theorem mono (h : InFront q a b) (hq : q.Sublist q') : InFront q' a b := List.Sublist.trans h hq

theorem left (h : InFront q a b) : a ∈ q := List.Sublist.subset h List.mem_cons_self

theorem right (h : InFront q a b) : b ∈ q := List.Sublist.subset h (List.mem_cons_of_mem _ List.mem_cons_self)

theorem ne (h : InFront q a b) (hnd : q.Nodup) : a ≠ b := by
  intro heq
  have hpair : [a, b].Nodup := hnd.sublist h
  rw [heq] at hpair
  exact (List.nodup_cons.mp hpair).1 List.mem_cons_self

/-- Behind the members that have left. -/
theorem behind (h : InFront (gone ++ rest) a b) (ha : a ∉ gone) : InFront rest a b := by
  obtain ⟨l₁, l₂, heq, h₁, h₂⟩ := List.sublist_append_iff.mp h
  cases l₁ with
  | nil =>
    rw [List.nil_append] at heq
    unfold InFront
    rw [heq]
    exact h₂
  | cons x l₁ =>
    obtain ⟨rfl, -⟩ := List.cons.inj heq
    exact absurd (h₁.subset List.mem_cons_self) ha

/-- Of what stands in front of a member. -/
theorem mem_front (h : InFront (gone ++ b :: rest) a b) (hnd : (gone ++ b :: rest).Nodup) : a ∈ gone := by
  by_contra ha
  have hrest : InFront (b :: rest) a b := h.behind ha
  have hne := h.ne hnd
  have hb : b ∉ rest := (List.nodup_cons.mp (List.nodup_append.mp hnd).2.1).1
  rcases List.sublist_cons_iff.mp hrest with h' | ⟨r, heq, -⟩
  · exact hb (InFront.right h')
  · exact hne (List.cons.inj heq).1

theorem of_mem (ha : a ∈ gone) (rest : List T) : InFront (gone ++ b :: rest) a b :=
  List.Sublist.append (List.singleton_sublist.mpr ha) (List.singleton_sublist.mpr List.mem_cons_self)

/-- One of two members is in front. -/
theorem total (ha : a ∈ q) (hb : b ∈ q) (hne : a ≠ b) : InFront q a b ∨ InFront q b a := by
  obtain ⟨xs, ys, rfl⟩ := List.append_of_mem hb
  rcases List.mem_append.mp ha with h | h
  · exact Or.inl (of_mem h ys)
  · rcases List.mem_cons.mp h with rfl | h
    · exact absurd rfl hne
    · refine Or.inr (List.Sublist.trans ?_ (List.sublist_append_right xs _))
      exact List.Sublist.cons_cons b (List.singleton_sublist.mpr h)

end InFront

/-- Members of which each stands in front of the later ones lie along the queue. -/
theorem sublist_of_inFront {l : List T} (hnd : q.Nodup) (hin : ∀ t ∈ l, t ∈ q) (h : l.Pairwise (InFront q)) :
    l.Sublist q := by
  induction q generalizing l with
  | nil =>
    have hnil : l = [] := List.eq_nil_iff_forall_not_mem.mpr fun t ht => List.not_mem_nil (hin t ht)
    rw [hnil]
  | cons c q ih =>
    obtain ⟨hc, hnd'⟩ := List.nodup_cons.mp hnd
    -- what is not the head, and nothing behind it
    have hrest : ∀ l' : List T, c ∉ l' → (∀ t ∈ l', t ∈ c :: q) → l'.Pairwise (InFront (c :: q)) → l'.Sublist q := by
      intro l' hout hin' hp
      refine ih hnd' (fun t ht => ?_) (hp.imp_of_mem fun {a b} ha _ hab => ?_)
      · exact (List.mem_cons.mp (hin' t ht)).resolve_left fun heq => hout (heq ▸ ht)
      · have hcons : InFront ([c] ++ q) a b := hab
        exact hcons.behind fun heq => hout (List.mem_singleton.mp heq ▸ ha)
    by_cases hcl : c ∈ l
    · cases l with
      | nil => exact absurd hcl List.not_mem_nil
      | cons a l =>
        obtain ⟨ha, hp⟩ := List.pairwise_cons.mp h
        have hca : c = a := by
          by_contra hne
          have hmem := (List.mem_cons.mp hcl).resolve_left hne
          have hcons : InFront ([c] ++ q) a c := ha c hmem
          have hfront := hcons.behind fun heq => hne (List.mem_singleton.mp heq).symm
          exact hc hfront.right
        subst hca
        have hout : c ∉ l := fun hmem => (ha c hmem).ne hnd rfl
        exact (hrest l hout (fun t ht => hin t (List.mem_cons_of_mem _ ht)) hp).cons_cons c
    · exact (hrest l hcl hin h).trans (List.sublist_cons_self c q)

end Ledger
