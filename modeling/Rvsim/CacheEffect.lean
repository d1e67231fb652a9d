/-
# What comes into a cache and what goes

For each way into a cache, the lines that it can bring in and the lines that it
can take out. Whatever an access, a prefetch or an install takes out is among
the evictions it reports.

Key definitions:
  - `CacheSim.SameLine`, `CacheSim.Single`, `CacheSim.Effect`, `CacheSim.accessAndPrefetch`
Key theorems:
  - `CacheSim.Effect.install`, `CacheSim.Effect.prefetches`, `CacheSim.split_spec`, `CacheSim.access_spec`
  - `CacheSim.not_holds_invalidate`, `CacheSim.Effect.installOrReplace`
-/
import Rvsim.CacheSim

namespace Rvsim

/-! ### What comes into a cache and what goes -/

namespace CacheSim

variable {P : Type} {c c' c'' : CacheSim P}

/-- The addresses lie in one line of `n` bytes. -/
def SameLine (n : Nat) (a b : U64) : Prop := a.toNat / n = b.toNat / n

/-- At most one way holds the line of the address. -/
def Single (c : CacheSim P) (addr : U64) : Prop :=
  ∀ w < c.ways, ∀ w' < c.ways, c.hits (c.setIndex addr) (c.tagOf addr) w = true →
    c.hits (c.setIndex addr) (c.tagOf addr) w' = true → w = w'

/-- The prefetch targets that are put in, each not there at its turn. -/
def installed (c : CacheSim P) : List U64 → List U64
  | [] => []
  | target :: targets =>
    if c.contains target then installed c targets
    else target :: installed (c.installLineTracked target false 0).2 targets

/-- The lines that a step brings in and those that it may take out. -/
structure Effect (c c' : CacheSim P) (gain loss : List U64) : Prop extends SameShape c c' where
  sound : c.Sound → c'.Sound
  gains : ∀ a, c'.Holds a → c.Holds a ∨ ∃ g ∈ gain, SameLine c.lineBytes a g
  losses : c.Sound → ∀ a, c.Holds a → c'.Holds a ∨ ∃ l ∈ loss, SameLine c.lineBytes a l

instance (n : Nat) (a b : U64) : Decidable (SameLine n a b) := inferInstanceAs (Decidable (_ = _))

instance (c : CacheSim P) (a : U64) : Decidable (c.Holds a) := decidable_of_iff _ findWay_isSome_iff

instance (c : CacheSim P) (a : U64) : Decidable (c.Single a) := by
  delta Single
  infer_instance

theorem sameLine_iff {a b : U64} :
    SameLine c.lineBytes a b ↔ c.setIndex a = c.setIndex b ∧ c.tagOf a = c.tagOf b := same_line_iff.symm

theorem SameLine.symm {n : Nat} {a b : U64} (h : SameLine n a b) : SameLine n b a := Eq.symm h

theorem SameLine.trans {n : Nat} {a b d : U64} (h : SameLine n a b) (h' : SameLine n b d) : SameLine n a d :=
  Eq.trans h h'

theorem Holds.congr {a b : U64} (h : SameLine c.lineBytes a b) (hb : c.Holds b) : c.Holds a := by
  obtain ⟨w, hw, hh⟩ := hb
  obtain ⟨hs, ht⟩ := sameLine_iff.mp h
  exact ⟨w, hw, by rw [hs, ht]; exact hh⟩

/-- A report names an address of the line that was replaced. -/
theorem Names.sameLine (hs : c.Sound) {e : Eviction} (h : c.Names e) {a : U64} (hset : c.setIndex a = e.set)
    (htag : c.tagOf a = e.old.tag) : SameLine c.lineBytes a e.line.addr := by
  obtain ⟨-, -, b, hb, hb', hbase⟩ := h
  have hab : SameLine c.lineBytes a b := sameLine_iff.mpr ⟨hset.trans hb.symm, htag.trans hb'.symm⟩
  apply hab.trans
  unfold SameLine
  rw [hbase, Nat.mul_div_cancel _ hs.line_pos]

namespace Effect

variable {gain loss gain' loss' : List U64}

theorem refl (c : CacheSim P) : Effect c c [] [] :=
  ⟨.refl c, id, fun _ => .inl, fun _ _ => .inl⟩

theorem trans (h : Effect c c' gain loss) (h' : Effect c' c'' gain' loss') :
    Effect c c'' (gain ++ gain') (loss ++ loss') := by
  refine ⟨h.toSameShape.trans h'.toSameShape, fun hs => h'.sound (h.sound hs), fun a ha => ?_, fun hs a ha => ?_⟩
  · rcases h'.gains a ha with ha | ⟨g, hg, hag⟩
    · rcases h.gains a ha with ha | ⟨g, hg, hag⟩
      · exact .inl ha
      · exact .inr ⟨g, List.mem_append_left _ hg, hag⟩
    · exact .inr ⟨g, List.mem_append_right _ hg, by rw [← h.lineBytes]; exact hag⟩
  · rcases h.losses hs a ha with ha | ⟨l, hl, hal⟩
    · rcases h'.losses (h.sound hs) a ha with ha | ⟨l, hl, hal⟩
      · exact .inl ha
      · exact .inr ⟨l, List.mem_append_right _ hl, by rw [← h.lineBytes]; exact hal⟩
    · exact .inr ⟨l, List.mem_append_left _ hl, hal⟩

/-- A step that changes no tag and no valid bit. -/
theorem of_hits (hs : Shrinks c c') (h : ∀ set tag w, c.hits set tag w = true → c'.hits set tag w = true) :
    Effect c c' [] [] := by
  refine ⟨hs.toSameShape, hs.sound, fun a ⟨w, hw, hh⟩ => .inl ⟨w, hs.ways ▸ hw, ?_⟩,
      fun _ a ⟨w, hw, hh⟩ => .inl ⟨w, hs.ways ▸ hw, ?_⟩⟩
  · have hh' := hs.hits _ _ _ hh
    rw [hs.setIndex, hs.tagOf] at hh'
    exact hh'
  · rw [hs.setIndex, hs.tagOf]
    exact h _ _ _ hh

end Effect

/-- The addresses that are reported. -/
def reported (evs : List Eviction) : List U64 := evs.map (·.line.addr)

theorem reported_append (evs evs' : List Eviction) : reported (evs ++ evs') = reported evs ++ reported evs' :=
  List.map_append

theorem holds_place (c : CacheSim P) (addr : U64) (isWrite : Bool) {way : Nat} (policy : ReplacementPolicy)
    (hw : way < c.ways) : (c.place addr isWrite way policy).Holds addr :=
  ⟨way, hw, place_hits_iff.mpr (by rw [(place_shape c addr isWrite way policy).setIndex, if_pos ⟨rfl, rfl⟩,
    (place_shape c addr isWrite way policy).tagOf])⟩

theorem place_gains {addr : U64} {isWrite : Bool} {way : Nat} {policy : ReplacementPolicy} {a : U64}
    (h : (c.place addr isWrite way policy).Holds a) : c.Holds a ∨ SameLine c.lineBytes a addr := by
  obtain ⟨w, hw, hh⟩ := h
  have hshape := place_shape c addr isWrite way policy
  rw [hshape.setIndex, hshape.tagOf, place_hits_iff] at hh
  by_cases hc : c.setIndex a = c.setIndex addr ∧ w = way
  · rw [if_pos hc] at hh
    exact .inr (sameLine_iff.mpr ⟨hc.1, hh⟩)
  · rw [if_neg hc] at hh
    exact .inl ⟨w, hw, hh⟩

/-- Only what the written way held is lost. -/
theorem place_losses {addr : U64} {isWrite : Bool} {way : Nat} {policy : ReplacementPolicy} {a : U64}
    (h : c.Holds a) : (c.place addr isWrite way policy).Holds a ∨
      (c.setIndex a = c.setIndex addr ∧ c.hits (c.setIndex addr) (c.tagOf a) way = true) := by
  obtain ⟨w, hw, hh⟩ := h
  by_cases hc : c.setIndex a = c.setIndex addr ∧ w = way
  · rw [hc.2, hc.1] at hh
    exact .inr ⟨hc.1, hh⟩
  · have hshape := place_shape c addr isWrite way policy
    refine .inl ⟨w, hw, ?_⟩
    rw [hshape.setIndex, hshape.tagOf, place_hits_iff, if_neg hc]
    exact hh

/-- A line that no way holds leaves every line in at most one way when it goes in. -/
theorem Single.place {addr : U64} {isWrite : Bool} {way : Nat} {policy : ReplacementPolicy}
    (hf : c.findWay addr = none) {a : U64} (h : c.Single a) : (c.place addr isWrite way policy).Single a := by
  have hshape := place_shape c addr isWrite way policy
  intro w hw w' hw' hh hh'
  rw [hshape.setIndex, hshape.tagOf, place_hits_iff] at hh hh'
  have held : ∀ v < c.ways, c.setIndex a = c.setIndex addr → c.tagOf a = c.tagOf addr →
      ¬ c.hits (c.setIndex a) (c.tagOf a) v = true := by
    intro v hv hs ht hhit
    rw [hs, ht, findWay_none hf hv] at hhit
    exact absurd hhit Bool.false_ne_true
  by_cases hc : c.setIndex a = c.setIndex addr ∧ w = way <;> by_cases hc' : c.setIndex a = c.setIndex addr ∧ w' = way
  · rw [hc.2, hc'.2]
  · rw [if_pos hc] at hh
    rw [if_neg hc'] at hh'
    exact absurd hh' (held w' hw' hc.1 hh)
  · rw [if_neg hc] at hh
    rw [if_pos hc'] at hh'
    exact absurd hh (held w hw hc'.1 hh')
  · rw [if_neg hc] at hh
    rw [if_neg hc'] at hh'
    exact h w hw w' hw' hh hh'

theorem Shrinks.single (hs : Shrinks c c') {a : U64} (h : c.Single a) : c'.Single a := by
  intro w hw w' hw' hh hh'
  rw [hs.ways] at hw hw'
  rw [hs.setIndex, hs.tagOf] at hh hh'
  exact h w hw w' hw' (hs.hits _ _ _ hh) (hs.hits _ _ _ hh')

theorem Unique.single (h : c.Unique) (a : U64) : c.Single a :=
  fun w hw w' hw' => h (c.setIndex a) (c.tagOf a) w hw w' hw'

theorem Shrinks.holds (hs : Shrinks c c') {a : U64} (h : c'.Holds a) : c.Holds a := by
  obtain ⟨w, hw, hh⟩ := h
  have hh' := hs.hits _ _ _ hh
  rw [hs.setIndex, hs.tagOf] at hh'
  exact ⟨w, hs.ways ▸ hw, hh'⟩

namespace Effect

/-- **An install brings in its line and loses only what it reports.** -/
theorem install (c : CacheSim P) (addr : U64) (isWrite : Bool) (lat : Nat) :
    Effect c (c.installLineTracked addr isWrite lat).2 [addr]
      (reported (c.installLineTracked addr isWrite lat).1.2.toList) := by
  refine ⟨install_shape c addr isWrite lat, fun hs => hs.install addr isWrite lat, fun a ha => ?_, fun hs a ha => ?_⟩
  · rcases place_gains ha with h | h
    · exact .inl h
    · exact .inr ⟨addr, List.mem_singleton_self addr, h⟩
  · rcases place_losses ha with h | ⟨hset, hh⟩
    · exact .inl h
    · right
      obtain ⟨hv, ht⟩ := hits_iff.mp hh
      have hev : (c.installLineTracked addr isWrite lat).1.2 =
          some ⟨⟨c.reconstructAddr (c.setIndex addr) (c.lines (c.setIndex addr) (c.victim addr)).tag,
            (c.lines (c.setIndex addr) (c.victim addr)).dirty⟩, c.setIndex addr, c.victim addr,
            c.lines (c.setIndex addr) (c.victim addr)⟩ := if_pos hv
      have hn := (install_names hs hev).1
      rw [hev]
      exact ⟨_, List.mem_singleton_self _, hn.sameLine hs hset ht.symm⟩

end Effect

theorem holds_install (hs : c.Sound) (addr : U64) (isWrite : Bool) (lat : Nat) :
    (c.installLineTracked addr isWrite lat).2.Holds addr := holds_place c addr isWrite _ (hs.victim_lt addr)

/-! ### Prefetches -/

theorem installPrefetches_cons (target : U64) (targets : List U64) (lat : Nat) (h : ¬ c.contains target = true) :
    c.installPrefetches lat (target :: targets) =
      ((c.installLineTracked target false lat).1.2.toList ++
        ((c.installLineTracked target false lat).2.installPrefetches lat targets).1,
        ((c.installLineTracked target false lat).2.installPrefetches lat targets).2) := by
  rw [installPrefetches, if_neg h]

/-- Prefetches bring in the targets that are put in, and keep single lines single. -/
theorem Effect.prefetches (he : c.enabled = true) (targets : List U64) :
    Effect c (c.installPrefetches 0 targets).2 (c.installed targets) (reported (c.installPrefetches 0 targets).1) ∧
      ∀ a, c.Single a → (c.installPrefetches 0 targets).2.Single a := by
  induction targets generalizing c with
  | nil => exact ⟨.refl c, fun a h => h⟩
  | cons target targets ih =>
    by_cases hc : c.contains target = true
    · have h := ih he
      rw [installed, if_pos hc, installPrefetches, if_pos hc]
      exact h
    · rw [installPrefetches_cons target targets 0 hc, installed, if_neg hc, reported_append]
      have hi := Effect.install c target false 0
      obtain ⟨h, hsingle⟩ := ih (c := (c.installLineTracked target false 0).2) he
      exact ⟨hi.trans h, fun a ha => hsingle a (ha.place (findWay_of_not_contains he hc))⟩

/-- Every target is in the cache afterwards, or reported. -/
theorem prefetched (he : c.enabled = true) (hs : c.Sound) {targets : List U64} {target : U64} (ht : target ∈ targets) :
    (c.installPrefetches 0 targets).2.Holds target ∨
      ∃ l ∈ reported (c.installPrefetches 0 targets).1, SameLine c.lineBytes target l := by
  induction targets generalizing c with
  | nil => exact absurd ht List.not_mem_nil
  | cons t targets ih =>
    rcases List.mem_cons.mp ht with rfl | ht
    · by_cases hc : c.contains target = true
      · have hh : c.Holds target := by
          unfold contains at hc
          rw [he, Bool.true_and] at hc
          exact findWay_isSome_iff.mp hc
        exact (Effect.prefetches he (target :: targets)).1.losses hs target hh
      · rw [installPrefetches_cons target targets 0 hc, reported_append]
        have hrest := (Effect.prefetches (c := (c.installLineTracked target false 0).2) he targets).1
        rcases hrest.losses (hs.install target false 0) target (holds_install hs target false 0) with h | ⟨l, hl, h⟩
        · exact .inl h
        · exact .inr ⟨l, List.mem_append_right _ hl, h⟩
    · by_cases hc : c.contains t = true
      · rw [installPrefetches, if_pos hc]
        exact ih he hs ht
      · rw [installPrefetches_cons t targets 0 hc, reported_append]
        rcases ih (c := (c.installLineTracked t false 0).2) he (hs.install t false 0) ht with h | ⟨l, hl, h⟩
        · exact .inl h
        · exact .inr ⟨l, List.mem_append_right _ hl, h⟩

/-! ### Accesses and invalidations -/

theorem setLine_hits_of_same {set way : Nat} {l : CacheLine} {policy : ReplacementPolicy}
    (hv : (c.lines set way).valid = true → l.valid = true) (ht : l.tag = (c.lines set way).tag) {s tag w : Nat}
    (h : c.hits s tag w = true) : ({ c.setLine set way l with policy := policy } : CacheSim P).hits s tag w = true := by
  have hlines : ({ c.setLine set way l with policy := policy } : CacheSim P).lines s w =
      if s = set ∧ w = way then l else c.lines s w := setLine_lines c set way l s w
  rw [hits_iff, hlines]
  by_cases hc : s = set ∧ w = way
  · rw [if_pos hc]
    rw [hc.1, hc.2, hits_iff] at h
    exact ⟨hv h.1, ht.trans h.2⟩
  · rw [if_neg hc]
    exact hits_iff.mp h

theorem Effect.lookup (c : CacheSim P) (addr : U64) (isWrite : Bool) : Effect c (c.lookup addr isWrite).2 [] [] := by
  apply Effect.of_hits (lookup_shrinks c addr isWrite)
  intro set tag w hh
  unfold CacheSim.lookup
  cases hf : c.findWay addr with
  | none => exact hh
  | some way =>
    dsimp only
    refine setLine_hits_of_same ?_ ?_ hh
    · exact id
    · rfl

theorem Effect.observe [Prefetcher P] (c : CacheSim P) (addr : U64) (hit : Bool) :
    Effect c (c.observe addr hit).2 [] [] := by
  apply Effect.of_hits (observe_shrinks c addr hit)
  intro set tag w hh
  unfold CacheSim.observe
  cases c.prefetcher with
  | none => exact hh
  | some p => exact hh

theorem lookup_hit_iff (c : CacheSim P) (addr : U64) (isWrite : Bool) :
    (c.lookup addr isWrite).1 = true ↔ c.Holds addr := by
  rw [lookup_fst, findWay_isSome_iff]

section Accesses

variable [Prefetcher P]

theorem split_miss (he : c.enabled = true) {addr : U64} (hf : c.findWay addr = none) (isWrite : Bool) :
    c.accessTrackedSplit addr isWrite 0 =
      ((false, (c.installLineTracked addr isWrite 0).1.1, (c.installLineTracked addr isWrite 0).1.2.toList,
        ((c.installLineTracked addr isWrite 0).2.observe addr false).1),
        ((c.installLineTracked addr isWrite 0).2.observe addr false).2) := by
  unfold accessTrackedSplit
  rw [if_pos he, lookup_miss hf]
  rfl

theorem split_hit (he : c.enabled = true) {addr : U64} {isWrite : Bool} (hh : (c.lookup addr isWrite).1 = true) :
    c.accessTrackedSplit addr isWrite 0 =
      ((true, 0, [], ((c.lookup addr isWrite).2.observe addr true).1),
        ((c.lookup addr isWrite).2.observe addr true).2) := by
  unfold accessTrackedSplit
  rw [if_pos he]
  exact if_pos hh

/-- **What an access does before its prefetches**: a miss brings the line in. -/
theorem split_spec (he : c.enabled = true) (hs : c.Sound) (addr : U64) (isWrite : Bool) :
    let r := c.accessTrackedSplit addr isWrite 0
    (r.1.1 = true ↔ c.Holds addr) ∧ r.2.Holds addr ∧ (∀ a, c.Single a → r.2.Single a) ∧
      Effect c r.2 (if r.1.1 then [] else [addr]) (reported r.1.2.2.1) := by
  dsimp only
  cases hf : c.findWay addr with
  | none =>
    rw [split_miss he hf]
    have hobs := Effect.observe (c.installLineTracked addr isWrite 0).2 addr false
    have heff := (Effect.install c addr isWrite 0).trans hobs
    have hnot : ¬ c.Holds addr := by
      rw [← findWay_isSome_iff, hf]
      exact Bool.false_ne_true
    refine ⟨iff_of_false Bool.false_ne_true hnot, ?_, fun a ha => ?_, ?_⟩
    · rcases hobs.losses (hs.install addr isWrite 0) addr (holds_install hs addr isWrite 0) with h | ⟨l, hl, -⟩
      · exact h
      · exact absurd hl List.not_mem_nil
    · exact (observe_shrinks _ addr false).single (ha.place hf)
    · rw [List.append_nil, List.append_nil] at heff
      exact heff
  | some w =>
    have hhit : (c.lookup addr isWrite).1 = true := by rw [lookup_fst, hf]; rfl
    have hheld : c.Holds addr := ⟨w, findWay_some hf⟩
    rw [split_hit he hhit]
    have heff := (Effect.lookup c addr isWrite).trans (Effect.observe (c.lookup addr isWrite).2 addr true)
    refine ⟨iff_of_true rfl hheld, ?_, fun a ha => ?_, heff⟩
    · rcases heff.losses hs addr hheld with h | ⟨l, hl, -⟩
      · exact h
      · exact absurd hl List.not_mem_nil
    · exact ((lookup_shrinks c addr isWrite).trans (observe_shrinks _ addr true)).single ha

/-- The lines that the prefetches of a checked access put in. -/
def checkInstalled (c : CacheSim P) (addr : U64) (isWrite : Bool) : List U64 :=
  let (hit, c) := c.lookup addr isWrite
  let (prefetches, c) := c.observe addr hit
  c.installed prefetches

theorem check_spec (he : c.enabled = true) (addr : U64) (isWrite : Bool) :
    ((c.accessCheck addr isWrite).1 = true ↔ c.Holds addr) ∧
      ∃ loss, Effect c (c.accessCheck addr isWrite).2 (c.checkInstalled addr isWrite) loss := by
  unfold accessCheck
  rw [if_pos he]
  have heff := (Effect.lookup c addr isWrite).trans
    (Effect.observe (c.lookup addr isWrite).2 addr (c.lookup addr isWrite).1)
  have hp := (Effect.prefetches (heff.enabled.trans he)
    ((c.lookup addr isWrite).2.observe addr (c.lookup addr isWrite).1).1).1
  exact ⟨lookup_hit_iff c addr isWrite, _, heff.trans hp⟩

end Accesses

/-- An invalidation takes out no other line. -/
theorem Effect.invalidateLine (c : CacheSim P) (addr : U64) : Effect c (c.invalidateLine addr).2 [] [addr] := by
  have hsh := invalidateLine_shrinks c addr
  refine ⟨hsh.toSameShape, hsh.sound, fun a ha => .inl (hsh.holds ha), fun _ a ⟨w, hw, hh⟩ => ?_⟩
  by_cases hsame : SameLine c.lineBytes a addr
  · exact .inr ⟨addr, List.mem_singleton_self addr, hsame⟩
  · left
    refine ⟨w, hsh.ways ▸ hw, ?_⟩
    rw [hsh.setIndex, hsh.tagOf]
    unfold CacheSim.invalidateLine
    by_cases he : c.enabled = true
    · rw [if_pos he]
      cases hf : c.findWay addr with
      | none => exact hh
      | some way =>
        obtain ⟨-, hway⟩ := findWay_some hf
        rw [hits_iff] at hh hway ⊢
        rw [setLine_lines]
        by_cases hc : c.setIndex a = c.setIndex addr ∧ w = way
        · rw [hc.1, hc.2, hway.2] at hh
          exact absurd (sameLine_iff.mpr ⟨hc.1, hh.2.symm⟩) hsame
        · rw [if_neg hc]
          exact hh
    · rw [if_neg he]
      exact hh

/-- A line that is single is gone once it is invalidated. -/
theorem not_holds_invalidate (he : c.enabled = true) {addr : U64} (h : c.Single addr) :
    ¬ (c.invalidateLine addr).2.Holds addr := by
  have hsh := invalidateLine_shrinks c addr
  rintro ⟨w, hw, hh⟩
  have hh' := hsh.hits _ _ _ hh
  rw [hsh.ways] at hw
  rw [hsh.setIndex, hsh.tagOf] at hh hh'
  unfold invalidateLine at hh
  rw [if_pos he] at hh
  cases hf : c.findWay addr with
  | none =>
    rw [findWay_none hf hw] at hh'
    exact absurd hh' Bool.false_ne_true
  | some way =>
    obtain ⟨hlt, hway⟩ := findWay_some hf
    rw [hf] at hh
    obtain rfl := h w hw way hlt hh' hway
    rw [hits_iff] at hh
    dsimp only at hh
    rw [setLine_lines, if_pos ⟨rfl, rfl⟩] at hh
    exact absurd hh.1 Bool.false_ne_true

/-- An install of an evicted line brings in that line. -/
theorem Effect.installOrReplace (he : c.enabled = true) (addr : U64) (isWrite : Bool) :
    ∃ loss, Effect c (c.installOrReplace addr isWrite 0).2 [addr] loss := by
  unfold CacheSim.installOrReplace
  rw [if_pos he]
  cases hf : c.freeWay addr with
  | none => exact ⟨_, Effect.install c addr isWrite 0⟩
  | some w =>
    have hw : w < c.ways := List.mem_range.mp (List.mem_of_find?_eq_some hf)
    have hfree : (c.lines (c.setIndex addr) w).valid = false := by
      have h := List.find?_some hf
      simpa using h
    refine ⟨[], place_shape c addr isWrite w c.policy, fun hs => hs.place hs.within hw, fun a ha => ?_,
        fun _ a ha => ?_⟩
    · rcases place_gains ha with h | h
      · exact .inl h
      · exact .inr ⟨addr, List.mem_singleton_self addr, h⟩
    · rcases place_losses ha with h | ⟨-, hh⟩
      · exact .inl h
      · rw [hits_iff, hfree] at hh
        exact absurd hh.1 Bool.false_ne_true

/-! ### An access with its prefetches -/

section Accesses

variable [Prefetcher P]

/-- The prefetch candidates of an access that pass the shared filter. -/
def prefetchTargets (c : CacheSim P) (filter : PrefetchFilter) (addr : U64) (isWrite : Bool) : List U64 :=
  (filter.filterAndRecord (c.accessTrackedSplit addr isWrite 0).1.2.2.2).1

/-- The lines that the prefetches of an access put in. -/
def prefetchesIn (c : CacheSim P) (filter : PrefetchFilter) (addr : U64) (isWrite : Bool) : List U64 :=
  (c.accessTrackedSplit addr isWrite 0).2.installed (c.prefetchTargets filter addr isWrite)

/-- An access, the filter, and the installs of what passes it. -/
def accessAndPrefetch (c : CacheSim P) (filter : PrefetchFilter) (addr : U64) (isWrite : Bool) :
    (Bool × List Eviction × PrefetchFilter) × CacheSim P :=
  let ((hit, _, evictions, candidates), c) := c.accessTrackedSplit addr isWrite 0
  let (targets, filter) := filter.filterAndRecord candidates
  let (more, c) := c.installPrefetches 0 targets
  ((hit, evictions ++ more, filter), c)

structure AccessSpec (c : CacheSim P) (filter : PrefetchFilter) (addr : U64) (isWrite : Bool)
    (r : (Bool × List Eviction × PrefetchFilter) × CacheSim P) : Prop where
  hit : r.1.1 = true ↔ c.Holds addr
  single : ∀ a, c.Single a → r.2.Single a
  effect : Effect c r.2 ((if r.1.1 then [] else [addr]) ++ c.prefetchesIn filter addr isWrite) (reported r.1.2.1)
  wanted : ∀ t ∈ addr :: c.prefetchTargets filter addr isWrite,
    r.2.Holds t ∨ ∃ l ∈ reported r.1.2.1, SameLine c.lineBytes t l

/-- **An access with its prefetches**: it hits a line that is there, brings in
the line and what the prefetches put in, and reports what is lost. -/
theorem access_spec (he : c.enabled = true) (hs : c.Sound) (filter : PrefetchFilter) (addr : U64) (isWrite : Bool) :
    AccessSpec c filter addr isWrite (c.accessAndPrefetch filter addr isWrite) := by
  obtain ⟨hhit, hheld, hsingle, heff⟩ := split_spec he hs addr isWrite
  have he' := heff.enabled.trans he
  obtain ⟨hp, hpsingle⟩ := Effect.prefetches he' (c.prefetchTargets filter addr isWrite)
  have hall := heff.trans hp
  rw [← reported_append] at hall
  refine ⟨hhit, fun a ha => hpsingle a (hsingle a ha), hall, fun t ht => ?_⟩
  have hmore : ∀ l ∈ reported ((c.accessTrackedSplit addr isWrite 0).2.installPrefetches 0
      (c.prefetchTargets filter addr isWrite)).1, l ∈ reported (c.accessAndPrefetch filter addr isWrite).1.2.1 := by
    intro l hl
    show l ∈ reported ((c.accessTrackedSplit addr isWrite 0).1.2.2.1 ++ _)
    rw [reported_append]
    exact List.mem_append_right _ hl
  rcases List.mem_cons.mp ht with rfl | ht
  · rcases hp.losses (heff.sound hs) t hheld with h | ⟨l, hl, h⟩
    · exact .inl h
    · exact .inr ⟨l, hmore l hl, by rw [← heff.lineBytes]; exact h⟩
  · rcases prefetched he' (heff.sound hs) ht with h | ⟨l, hl, h⟩
    · exact .inl h
    · exact .inr ⟨l, hmore l hl, by rw [← heff.lineBytes]; exact h⟩

end Accesses

end CacheSim

end Rvsim
