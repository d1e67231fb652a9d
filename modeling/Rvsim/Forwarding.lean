/-
# Store-to-load forwarding

What the store buffer answers to a load, against the memory it stands for. Laid
over memory, the stores that are older than the load and resolved give the memory
that the load has to see. A hit is what the load reads there; on a miss no such
store touches the bytes that the load reads.

Key definitions:
  - `StoreBufferEntry.patch`, `StoreBuffer.seen`
Key theorems:
  - `StoreBuffer.forwardLoad_hit`, `StoreBuffer.forwardLoad_miss`
  - `StoreBuffer.seen_replace`, `StoreBuffer.seen_drain`
-/
import Rvsim.LoadStore
import Rvsim.Lib.Overlay

namespace Rvsim

/-! ### Bytes -/

namespace Mem

/-- The addresses of `n` bytes from `a` on. -/
def span (a : U64) (n : Nat) : Set U64 := {x | (x - a).toNat < n}

/-- A write of the low `n` bytes of `v` at `a`. -/
def patch (a : U64) (n : Nat) (v : U64) : U64 → Option U8 := fun x =>
  if (x - a).toNat < n then some ((v >>> (8 * (x - a).toNat)).setWidth 8) else none

theorem write_eq_put (m : Mem) (a : U64) (n : Nat) (v : U64) : m.write a n v = Overlay.put m (patch a n v) := by
  funext x
  unfold write Overlay.put patch
  split <;> rfl

theorem add_sub_toNat (a : U64) {i : Nat} (hi : i < 2 ^ 64) : (a + BitVec.ofNat 64 i - a).toNat = i := by
  rw [BitVec.add_comm, BitVec.add_sub_cancel, BitVec.toNat_ofNat]
  exact Nat.mod_eq_of_lt hi

theorem read_congr {m m' : Mem} {a : U64} {n : Nat} (h : Set.EqOn m m' (span a n)) : m.read a n = m'.read a n := by
  apply BitVec.eq_of_getLsbD_eq
  intro i hi
  rw [getLsbD_read, getLsbD_read]
  by_cases hn : i < 8 * n
  · have hin : a + BitVec.ofNat 64 (i / 8) ∈ span a n := by
      show (a + BitVec.ofNat 64 (i / 8) - a).toNat < n
      rw [add_sub_toNat a (by omega)]
      omega
    rw [h hin]
  · simp [hn]

/-- Two accesses that share a byte overlap. -/
theorem overlaps_of_mem {a b x : U64} {n k : Nat} (ha : a.toNat + n < 2 ^ 64) (hb : b.toNat + k < 2 ^ 64)
    (hxa : x ∈ span a n) (hxb : x ∈ span b k) : overlaps a n b k = true := by
  change (x - a).toNat < n at hxa
  change (x - b).toNat < k at hxb
  rw [BitVec.toNat_sub] at hxa hxb
  have hx := x.isLt
  unfold overlaps
  rw [Bool.and_eq_true, decide_eq_true_eq, decide_eq_true_eq, BitVec.lt_def, gt_iff_lt, BitVec.lt_def,
    BitVec.toNat_add, BitVec.toNat_add, BitVec.toNat_ofNat, BitVec.toNat_ofNat]
  omega

end Mem

/-! ### One store -/

namespace StoreBufferEntry

/-- What the store leaves in memory, once it is resolved. -/
def patch (e : StoreBufferEntry) : U64 → Option U8 :=
  match e.resolution.access with
  | none => fun _ => none
  | some (a, d) => Mem.patch a e.width.bytes d

/-- The store ends below the top of the address space. -/
def Fits (e : StoreBufferEntry) : Prop := ∀ a d, e.resolution.access = some (a, d) → a.toNat + e.width.bytes < 2 ^ 64

variable {e : StoreBufferEntry} {a : PhysAddr} {w : MemWidth}

theorem patch_of_access {a : PhysAddr} {d : U64} (h : e.resolution.access = some (a, d)) :
    e.patch = Mem.patch a e.width.bytes d := by
  unfold patch
  rw [h]

theorem spares_of_unresolved {s : Set U64} (h : e.resolution.access = none) : Overlay.Spares e.patch s := by
  intro x _
  unfold patch
  rw [h]

/-- A store that does not overlap leaves the bytes alone. -/
theorem spares_of_apart {b : PhysAddr} {d : U64} {n : Nat} (he : e.Fits) (ha : a.toNat + n < 2 ^ 64)
    (hacc : e.resolution.access = some (b, d)) (hover : overlaps a n b e.width.bytes = false) :
    Overlay.Spares e.patch (Mem.span a n) := by
  intro x hx
  rw [patch_of_access hacc]
  refine if_neg fun hxb => ?_
  have htrue := Mem.overlaps_of_mem ha (he b d hacc) hx hxb
  rw [hover] at htrue
  exact absurd htrue Bool.false_ne_true

end StoreBufferEntry

namespace StoreBuffer

variable {e : StoreBufferEntry} {a : PhysAddr} {w : MemWidth}

theorem getLsbD_extract (v off : U64) (w : MemWidth) {i : Nat} (hi : i < 64) :
    (extract v off w).getLsbD i = (decide (i < 8 * w.bytes) && v.getLsbD (8 * off.toNat + i)) := by
  unfold extract
  rw [BitVec.getLsbD_and, BitVec.getLsbD_ushiftRight, Nat.mul_comm off.toNat 8, Bool.and_comm]
  congr 1
  cases w <;> simp only [MemWidth.bytes] <;> revert hi <;> revert i <;> decide

theorem forwardFrom_none (he : e.Fits) (ha : a.toNat + w.bytes < 2 ^ 64) (h : forwardFrom e a w = none) :
    Overlay.Spares e.patch (Mem.span a w.bytes) := by
  unfold forwardFrom at h
  split at h
  · next hacc => exact StoreBufferEntry.spares_of_unresolved hacc
  · next b d hacc =>
    cases hover : overlaps a w.bytes b e.width.bytes with
    | false => exact StoreBufferEntry.spares_of_apart he ha hacc hover
    | true =>
      rw [hover, if_pos rfl] at h
      split at h <;> exact absurd h (by simp)

/-- A store that covers the load gives it its bytes, whatever lies below. -/
theorem forwardFrom_hit {v : U64} (he : e.Fits) (ha : a.toNat + w.bytes < 2 ^ 64)
    (h : forwardFrom e a w = some (.hit v))
    (m : Mem) : Mem.read (Overlay.put m e.patch) a w.bytes = v := by
  unfold forwardFrom at h
  split at h
  · exact absurd h (by simp)
  · next b d hacc =>
    have hb := he b d hacc
    split at h
    · split at h
      · next hcover =>
        obtain ⟨hlo, hhi⟩ := hcover
        rw [BitVec.le_def] at hlo
        rw [ge_iff_le, BitVec.le_def, BitVec.toNat_add, BitVec.toNat_add, BitVec.toNat_ofNat, BitVec.toNat_ofNat] at hhi
        have hoff : (a - b).toNat = a.toNat - b.toNat := BitVec.toNat_sub_of_le (BitVec.le_def.mpr hlo)
        have hend : a.toNat + w.bytes ≤ b.toNat + e.width.bytes := by omega
        simp only [Option.some.injEq, ForwardResult.hit.injEq] at h
        subst h
        apply BitVec.eq_of_getLsbD_eq
        intro i hi
        rw [Mem.getLsbD_read, getLsbD_extract _ _ _ hi]
        by_cases hn : i < 8 * w.bytes
        · -- byte `i / 8` of the load is byte `a - b + i / 8` of the store
          have hbyte : (a + BitVec.ofNat 64 (i / 8) - b).toNat = (a - b).toNat + i / 8 := by
            have hle : b.toNat ≤ (a + BitVec.ofNat 64 (i / 8)).toNat := by
              rw [BitVec.toNat_add, BitVec.toNat_ofNat]
              omega
            rw [BitVec.toNat_sub_of_le (BitVec.le_def.mpr hle), BitVec.toNat_add, BitVec.toNat_ofNat]
            omega
          have hin : (a + BitVec.ofNat 64 (i / 8) - b).toNat < e.width.bytes := by omega
          have hput : Overlay.put m e.patch (a + BitVec.ofNat 64 (i / 8)) =
              (d >>> (8 * ((a - b).toNat + i / 8))).setWidth 8 := by
            unfold Overlay.put
            rw [StoreBufferEntry.patch_of_access hacc]
            unfold Mem.patch
            rw [if_pos hin, hbyte]
            rfl
          have hmod : i % 8 < 8 := Nat.mod_lt _ (by decide)
          have hpos : 8 * ((a - b).toNat + i / 8) + i % 8 = 8 * (a - b).toNat + i := by omega
          rw [hput, BitVec.getLsbD_setWidth, BitVec.getLsbD_ushiftRight, hpos]
          simp [hn, hi, hmod]
        · simp [hn]
      · exact absurd h (by simp)
    · exact absurd h (by simp)

/-! ### The memory that a load sees -/

/-- The stores older than the tag. -/
def olderThan (b : StoreBuffer) (t : RobTag) : List StoreBufferEntry :=
  b.entries.filter fun e => RobTag.isOlderThan e.robTag t

/-- Memory as the instruction with this tag sees it: under the resolved older stores. -/
def seen (b : StoreBuffer) (m : Mem) (t : RobTag) : Mem := Overlay.lay StoreBufferEntry.patch m (b.olderThan t)

/-- The scan stops at a store that covers the load, or passes over stores that spare it. -/
theorem forwardScan_sound {t : RobTag} (es : List StoreBufferEntry) (hes : ∀ e ∈ es, e.Fits)
    (ha : a.toNat + w.bytes < 2 ^ 64)
    (m : Mem) :
    (∀ v, forwardScan a w t es = .hit v →
      Mem.read (Overlay.lay StoreBufferEntry.patch m
        (es.reverse.filter fun e => RobTag.isOlderThan e.robTag t)) a w.bytes = v) ∧
    (forwardScan a w t es = .miss → ∀ e ∈ es, RobTag.isOlderThan e.robTag t = true →
      Overlay.Spares e.patch (Mem.span a w.bytes)) := by
  induction es with
  | nil => exact ⟨fun v h => absurd h (by simp [forwardScan]), fun _ e he => absurd he (by simp)⟩
  | cons e es ih =>
    obtain ⟨hhit, hmiss⟩ := ih fun e he => hes e (List.mem_cons_of_mem _ he)
    have hfit := hes e List.mem_cons_self
    rw [List.reverse_cons, List.filter_append]
    cases hold : RobTag.isOlderThan e.robTag t with
    | false =>
      rw [List.filter_cons_of_neg (by simp [hold]), List.filter_nil, List.append_nil]
      unfold forwardScan
      rw [hold, if_neg Bool.false_ne_true]
      refine ⟨hhit, fun h u hu hut => ?_⟩
      rcases List.mem_cons.mp hu with rfl | hu
      · rw [hold] at hut
        exact absurd hut Bool.false_ne_true
      · exact hmiss h u hu hut
    | true =>
      rw [List.filter_cons_of_pos (by simp [hold]), List.filter_nil, Overlay.lay_append]
      unfold forwardScan
      rw [hold, if_pos rfl]
      cases hf : forwardFrom e a w with
      | some r =>
        constructor
        · rintro v rfl
          exact forwardFrom_hit hfit ha hf _
        · rintro rfl
          unfold forwardFrom at hf
          split at hf
          · exact absurd hf (by simp)
          · split at hf
            · split at hf <;> exact absurd hf (by simp)
            · exact absurd hf (by simp)
      | none =>
        have hspare := forwardFrom_none hfit ha hf
        constructor
        · intro v h
          rw [← hhit v h]
          exact Mem.read_congr (hspare.put _)
        · intro h u hu hut
          rcases List.mem_cons.mp hu with rfl | hu
          · exact hspare
          · exact hmiss h u hu hut

variable {b : StoreBuffer} {t : RobTag}

/-- **A hit is what the load reads under the older stores.** -/
theorem forwardLoad_hit {v : U64} (hb : ∀ e ∈ b.entries, e.Fits) (ha : a.toNat + w.bytes < 2 ^ 64)
    (h : b.forwardLoad a w t = .hit v) (m : Mem) : (b.seen m t).read a w.bytes = v := by
  have hscan := (forwardScan_sound b.entries.reverse (fun e he => hb e (List.mem_reverse.mp he)) ha m).1 v h
  rwa [List.reverse_reverse] at hscan

/-- **On a miss, memory holds what the load reads under the older stores.** -/
theorem forwardLoad_miss (hb : ∀ e ∈ b.entries, e.Fits) (ha : a.toNat + w.bytes < 2 ^ 64)
    (h : b.forwardLoad a w t = .miss) (m : Mem) : (b.seen m t).read a w.bytes = m.read a w.bytes := by
  have hscan := (forwardScan_sound b.entries.reverse (fun e he => hb e (List.mem_reverse.mp he)) ha m).2 h
  refine Mem.read_congr (Overlay.lay_spared fun e he => ?_)
  obtain ⟨hmem, hold⟩ := List.mem_filter.mp he
  exact hscan e (List.mem_reverse.mpr hmem) hold

/-! ### Changes of the buffer -/

variable {m : Mem}

theorem seen_push {es : List StoreBufferEntry} {n k : Nat} (h : RobTag.isOlderThan e.robTag t = false) :
    seen ⟨n, es ++ [e]⟩ m t = seen ⟨k, es⟩ m t := by
  unfold seen olderThan
  rw [List.filter_append, List.filter_cons_of_neg (by simp [h]), List.filter_nil, List.append_nil]

/-- Rewriting the first entry with its tag. -/
theorem modifyFirst_append {us vs : List StoreBufferEntry} (h : ∀ u ∈ us, u.robTag ≠ e.robTag)
    (f : StoreBufferEntry → StoreBufferEntry) : modifyFirst e.robTag f (us ++ e :: vs) = us ++ f e :: vs := by
  induction us with
  | nil => exact if_pos rfl
  | cons u us ih =>
    rw [List.cons_append, modifyFirst, if_neg (h u List.mem_cons_self), ih fun x hx => h x (List.mem_cons_of_mem _ hx)]
    rfl

/-- The store `e` becomes `e'`: bytes that neither writes are seen as before. -/
theorem seen_replace {us vs : List StoreBufferEntry} {e' : StoreBufferEntry} {n : Nat} {s : Set U64}
    (htag : e'.robTag = e.robTag)
    (h : RobTag.isOlderThan e.robTag t = true → Overlay.Spares e.patch s ∧ Overlay.Spares e'.patch s) :
    Set.EqOn (seen ⟨n, us ++ e' :: vs⟩ m t) (seen ⟨n, us ++ e :: vs⟩ m t) s := by
  unfold seen olderThan
  rw [List.filter_append, List.filter_append]
  cases hold : RobTag.isOlderThan e.robTag t with
  | false =>
    rw [List.filter_cons_of_neg (by simp [htag, hold]), List.filter_cons_of_neg (by simp [hold])]
    exact Set.eqOn_refl _ _
  | true =>
    rw [List.filter_cons_of_pos (by simp [htag, hold]), List.filter_cons_of_pos (by simp [hold])]
    exact Overlay.lay_replace (h hold).1 (h hold).2

/-- The store `e` becomes `e'`, which writes the same. -/
theorem seen_same {us vs : List StoreBufferEntry} {e' : StoreBufferEntry} {n : Nat} (htag : e'.robTag = e.robTag)
    (hpatch : e'.patch = e.patch) : seen ⟨n, us ++ e' :: vs⟩ m t = seen ⟨n, us ++ e :: vs⟩ m t := by
  unfold seen olderThan
  refine Overlay.lay_congr ?_
  rw [List.filter_append, List.filter_append, List.map_append, List.map_append, List.filter_cons,
      List.filter_cons, htag]
  congr 1
  split
  · rw [List.map_cons, List.map_cons, hpatch]
  · rfl

/-- The oldest store goes to memory. -/
theorem seen_drain {es : List StoreBufferEntry} {n : Nat} (h : RobTag.isOlderThan e.robTag t = true) :
    seen ⟨n, es⟩ (Overlay.put m e.patch) t = seen ⟨n, e :: es⟩ m t := by
  unfold seen olderThan
  rw [List.filter_cons_of_pos (by simp [h])]
  rfl

/-- What is squashed is not older than what stays. -/
theorem seen_filter {es : List StoreBufferEntry} {n : Nat} {keep : StoreBufferEntry → Bool}
    (h : ∀ e ∈ es, RobTag.isOlderThan e.robTag t = true → keep e = true) :
    seen ⟨n, es.filter keep⟩ m t = seen ⟨n, es⟩ m t := by
  unfold seen olderThan
  rw [List.filter_filter]
  congr 1
  refine List.filter_congr fun e he => ?_
  cases hold : RobTag.isOlderThan e.robTag t with
  | false => rfl
  | true => rw [h e he hold, Bool.true_and]

end StoreBuffer

end Rvsim
