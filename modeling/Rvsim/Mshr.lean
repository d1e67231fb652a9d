/-
# Misses and the accesses that wait for them

The miss registers over any sequence of requests, completions and flushes.
An accepted access has one fate: the first event after it that returns it,
because its line has arrived, or removes it, because it was squashed. What
a completion returns is exactly the accesses whose fate it is, so none is lost,
none is returned twice and none outlives its squash. A fill itself is not
squashed, and remembers whether it was asked for by a write. Cycles are natural
numbers: in the source a sum past `u64::MAX` overflows.

Key definitions:
  - `MshrOp`, `MshrFile.run`, `Ticket`, `waiterEnds`, `missEnds`
  - `MshrFile.Conserved`
Key theorems:
  - `MshrFile.Tracks.apply`, `MshrFile.run_tracks`, `MshrFile.new_conserved`
-/
import Rvsim.Lib.Lives
import Rvsim.Cpu

namespace Rvsim

inductive MshrOp where
  | request (addr : U64) (isWrite : Bool) (missLatency currentCycle : Nat) (waiter : MshrWaiter)
  | drainCompletions (currentCycle : Nat)
  | flushAfter (keepTag : RobTag)
  | flush

/-- An access the file has accepted: the number of its request, the line it waits
for and the cycle at which the line arrives. -/
structure Ticket where
  step : Nat
  line : U64
  due : Nat
  isWrite : Bool
  waiter : MshrWaiter

inductive MshrEnd where
  | returned
  | removed
  deriving DecidableEq, Repr

/-- What ends the wait of an access. -/
def waiterEnds : MshrOp → Ticket → Option MshrEnd
  | .request .., _ => none
  | .drainCompletions now, t => if t.due ≤ now then some .returned else none
  | .flushAfter keep, t => if RobTag.isOlderOrEq t.waiter.robTag keep then none else some .removed
  | .flush, _ => some .removed

/-- What ends the miss an access was accepted into: a partial flush leaves it outstanding. -/
def missEnds : MshrOp → Ticket → Option MshrEnd
  | .flushAfter _, _ => none
  | op, t => waiterEnds op t

namespace MshrFile

variable {m : MshrFile}

def apply (m : MshrFile) : MshrOp → MshrFile
  | .request addr isWrite lat now w => (m.request addr isWrite lat now w).2
  | .drainCompletions now => (m.drainCompletions now).2
  | .flushAfter keep => m.flushAfter keep
  | .flush => m.flush

def run (m : MshrFile) (ops : List MshrOp) : MshrFile := ops.foldl apply m

/-- The misses outstanding. -/
def live (m : MshrFile) : List MshrEntry := m.entries.filter (·.valid)

/-- The completion cycle a request is answered with: that of the miss it joins, or its own. -/
def fillCycle (m : MshrFile) (addr : U64) (missLatency currentCycle : Nat) : Nat :=
  match m.live.find? fun e => e.lineAddr == m.lineAlign addr with
  | some e => e.completeCycle
  | none => (currentCycle + missLatency) % 2 ^ 64

/-- The access that the operation number `step` hands over, if the file accepts it. -/
def admits (m : MshrFile) (step : Nat) : MshrOp → Option Ticket
  | .request addr isWrite lat now w =>
    if (m.request addr isWrite lat now w).1 = .mshrFull then none
    else some ⟨step, m.lineAlign addr, m.fillCycle addr lat now, isWrite, w⟩
  | _ => none

/-- Every access accepted in a run and what ends its wait. -/
def waiterLives (m : MshrFile) (ops : List MshrOp) : List (Ticket × Option (Nat × MshrEnd)) :=
  Lives.lives apply admits waiterEnds m 0 ops

/-- Every access accepted in a run and what ends the miss it was accepted into. -/
def missLives (m : MshrFile) (ops : List MshrOp) : List (Ticket × Option (Nat × MshrEnd)) :=
  Lives.lives apply admits missEnds m 0 ops

/-- What the operation number `k` returns. -/
def returnedBy (m : MshrFile) (ops : List MshrOp) (k now : Nat) : List MshrEntry :=
  ((m.run (ops.take k)).drainCompletions now).1

/-- The accounts of a run. -/
structure Conserved (m : MshrFile) (ops : List MshrOp) : Prop where
  /-- No line has two misses outstanding. -/
  oneLine : ((m.run ops).live.map (·.lineAddr)).Nodup
  /-- The count is the number of valid entries. -/
  counted : (m.run ops).count = (m.run ops).entries.countP (·.valid)
  /-- A completion returns the accepted accesses whose fate it is, each once, and no others. -/
  returned : ∀ k now, ops[k]? = some (.drainCompletions now) →
    ((m.returnedBy ops k now).flatMap (·.waiters)).Perm
      (((m.waiterLives ops).filter fun l => l.2 = some (k, .returned)).map (·.1.waiter))
  /-- The accesses without a fate yet are those in the file. -/
  held : ((m.run ops).live.flatMap (·.waiters)).Perm (((m.waiterLives ops).filter fun l => l.2.isNone).map (·.1.waiter))
  /-- The fate is the first event after the request that ends the wait. -/
  fate : ∀ l ∈ m.waiterLives ops, ∀ k r, l.2 = some (k, r) ↔
    l.1.step < k ∧ (∃ op, ops[k]? = some op ∧ waiterEnds op l.1 = some r) ∧
      ∀ j op, l.1.step < j → j < k → ops[j]? = some op → waiterEnds op l.1 = none
  /-- Nothing squashed is returned later. -/
  squashed : ∀ l ∈ m.waiterLives ops, ∀ j keep, l.1.step < j → ops[j]? = some (.flushAfter keep) →
    RobTag.isNewerThan l.1.waiter.robTag keep = true → ∀ k, l.2 = some (k, .returned) → k < j
  /-- A miss that a write was accepted into completes with its write flag set. -/
  written : ∀ l ∈ m.missLives ops, l.1.isWrite = true → ∀ k now, ops[k]? = some (.drainCompletions now) →
    l.2 = some (k, .returned) →
    ∃ e ∈ m.returnedBy ops k now, e.lineAddr = l.1.line ∧ e.completeCycle = l.1.due ∧ e.isWrite = true
  /-- And only such a miss does. -/
  unwritten : ∀ k now, ops[k]? = some (.drainCompletions now) → ∀ e ∈ m.returnedBy ops k now, e.isWrite = true →
    ∃ l ∈ m.missLives ops, l.2 = some (k, .returned) ∧ l.1.line = e.lineAddr ∧ l.1.isWrite = true

/-! ### The misses outstanding, one operation at a time -/

/-- An access joins a miss. -/
def joined (isWrite : Bool) (w : MshrWaiter) (e : MshrEntry) : MshrEntry :=
  { e with waiters := e.waiters ++ [w], isWrite := e.isWrite || isWrite }

/-- A squash leaves the accesses up to the tag. -/
def retain (keep : RobTag) (e : MshrEntry) : MshrEntry :=
  { e with waiters := e.waiters.filter fun w => RobTag.isOlderOrEq w.robTag keep }

theorem live_coalesce (line : U64) (isWrite : Bool) (w : MshrWaiter) {es : List MshrEntry}
    (hnd : ((es.filter (·.valid)).map (·.lineAddr)).Nodup) :
    (coalesce line isWrite w es).filter (·.valid) =
      (es.filter (·.valid)).map fun e => if e.lineAddr = line then joined isWrite w e else e := by
  induction es with
  | nil => rfl
  | cons e es ih =>
    by_cases hv : e.valid
    · rw [List.filter_cons_of_pos hv, List.map_cons, List.nodup_cons] at hnd
      by_cases hl : e.lineAddr = line
      · -- the other misses are of other lines
        have hothers : (es.filter (·.valid)).map (fun e => if e.lineAddr = line then joined isWrite w e else e) =
            es.filter (·.valid) := by
          refine (List.map_congr_left fun x hx => ?_).trans (List.map_id _)
          have hne : x.lineAddr ≠ line := fun heq => hnd.1 (List.mem_map.mpr ⟨x, hx, heq.trans hl.symm⟩)
          rw [if_neg hne, id]
        rw [coalesce, if_pos (by simp [hv, hl]), List.filter_cons_of_pos (by exact hv), List.filter_cons_of_pos hv,
          List.map_cons, if_pos hl, hothers]
        rfl
      · rw [coalesce, if_neg (by simp [hl]), List.filter_cons_of_pos hv, List.filter_cons_of_pos hv, List.map_cons,
          if_neg hl, ih hnd.2]
    · rw [List.filter_cons_of_neg hv] at hnd
      rw [coalesce, if_neg (by simp [hv]), List.filter_cons_of_neg hv, List.filter_cons_of_neg hv, ih hnd]

theorem live_allocateSlot {new : MshrEntry} (hn : new.valid = true) {es es' : List MshrEntry}
    (h : allocateSlot new es = some es') : (es'.filter (·.valid)).Perm (new :: es.filter (·.valid)) := by
  induction es generalizing es' with
  | nil => simp [allocateSlot] at h
  | cons e es ih =>
    by_cases hv : e.valid
    · rw [allocateSlot, if_pos hv] at h
      obtain ⟨fs, hfs, rfl⟩ := Option.map_eq_some_iff.mp h
      rw [List.filter_cons_of_pos hv, List.filter_cons_of_pos hv]
      exact ((ih hfs).cons e).trans (List.Perm.swap ..)
    · rw [allocateSlot, if_neg hv] at h
      obtain rfl := Option.some.inj h
      rw [List.filter_cons_of_neg hv, List.filter_cons_of_pos hn]

theorem drainCompletions_fst (m : MshrFile) (now : Nat) :
    (m.drainCompletions now).1 = m.live.filter fun e => e.completeCycle ≤ now := by
  rw [live, List.filter_filter]
  refine List.filter_congr fun e _ => ?_
  rw [isDone, Bool.and_comm]

theorem live_drainCompletions (m : MshrFile) (now : Nat) :
    (m.drainCompletions now).2.live = m.live.filter fun e => !decide (e.completeCycle ≤ now) := by
  simp only [live, drainCompletions]
  induction m.entries with
  | nil => rfl
  | cons e es ih =>
    by_cases hv : e.valid
    · by_cases hc : e.completeCycle ≤ now
      · rw [List.map_cons, if_pos (by simp [isDone, hv, hc]), List.filter_cons_of_neg (by simp), ih,
          List.filter_cons_of_pos hv, List.filter_cons_of_neg (by simpa using hc)]
      · rw [List.map_cons, if_neg (by simp [isDone, hc]), List.filter_cons_of_pos hv, ih,
          List.filter_cons_of_pos hv, List.filter_cons_of_pos (by simpa using hc)]
    · rw [List.map_cons, if_neg (by simp [isDone, hv]), List.filter_cons_of_neg hv, ih, List.filter_cons_of_neg hv]

theorem live_flushAfter (m : MshrFile) (keep : RobTag) : (m.flushAfter keep).live = m.live.map (retain keep) := by
  simp only [live, flushAfter]
  induction m.entries with
  | nil => rfl
  | cons e es ih =>
    by_cases hv : e.valid
    · simp [hv, ih, retain]
    · simp [hv, ih]

theorem live_flush (m : MshrFile) : m.flush.live = [] := by
  refine List.filter_eq_nil_iff.mpr fun e he => ?_
  obtain ⟨x, -, rfl⟩ := List.mem_map.mp he
  simp

/-- What a request does: the access joins the miss of its line, opens one, or is refused. -/
theorem request_cases (m : MshrFile) (hnd : (m.live.map (·.lineAddr)).Nodup) (addr : U64) (isWrite : Bool)
    (lat now : Nat) (w : MshrWaiter) :
    let r := m.request addr isWrite lat now w
    (r.1 = .mshrCoalesced ∧ (∃ e ∈ m.live, e.lineAddr = m.lineAlign addr ∧ e.completeCycle = m.fillCycle addr lat now) ∧
      r.2.live = m.live.map (fun e => if e.lineAddr = m.lineAlign addr then joined isWrite w e else e) ∧
      r.2.count = m.count) ∨
    (r.1 = .mshrAllocated ∧ (∀ e ∈ m.live, e.lineAddr ≠ m.lineAlign addr) ∧
      r.2.live.Perm (⟨m.lineAlign addr, m.fillCycle addr lat now, [w], true, isWrite⟩ :: m.live) ∧
      r.2.count = m.count + 1) ∨
    (r.1 = .mshrFull ∧ r.2 = m) := by
  unfold request
  by_cases hc : m.entries.any fun e => e.valid && e.lineAddr == m.lineAlign addr
  · simp only [if_pos hc]
    refine Or.inl ⟨trivial, ?_, live_coalesce _ isWrite w hnd, trivial⟩
    have hfound : (m.live.find? fun e => e.lineAddr == m.lineAlign addr).isSome := by
      obtain ⟨e, he, hel⟩ := List.any_eq_true.mp hc
      rw [Bool.and_eq_true] at hel
      exact List.find?_isSome.mpr ⟨e, List.mem_filter.mpr ⟨he, hel.1⟩, hel.2⟩
    obtain ⟨e, he⟩ := Option.isSome_iff_exists.mp hfound
    refine ⟨e, List.mem_of_find?_eq_some he, by simpa using List.find?_some he, ?_⟩
    rw [fillCycle, he]
  · simp only [if_neg hc]
    have hnone : ∀ e ∈ m.live, e.lineAddr ≠ m.lineAlign addr := by
      intro e he heq
      obtain ⟨hm, hv⟩ := List.mem_filter.mp he
      exact hc (List.any_eq_true.mpr ⟨e, hm, by simp [hv, heq]⟩)
    have hcycle : m.fillCycle addr lat now = (now + lat) % 2 ^ 64 := by
      rw [fillCycle, List.find?_eq_none.mpr fun e he => by simpa using hnone e he]
    rw [hcycle]
    by_cases hf : m.count ≥ m.cap
    · rw [if_pos hf]
      exact Or.inr (Or.inr ⟨rfl, rfl⟩)
    · rw [if_neg hf]
      cases ha : allocateSlot ⟨m.lineAlign addr, (now + lat) % 2 ^ 64, [w], true, isWrite⟩ m.entries with
      | none => exact Or.inr (Or.inr ⟨rfl, rfl⟩)
      | some es => exact Or.inr (Or.inl ⟨rfl, hnone, live_allocateSlot rfl ha, rfl⟩)

/-! ### The file and the accesses accepted -/

/-- The misses outstanding are those of the accesses accepted into them, and hold those still waiting. -/
structure Tracks (es : List MshrEntry) (misses held : List Ticket) : Prop where
  lines : (es.map (·.lineAddr)).Nodup
  sub : held ⊆ misses
  owned : ∀ t ∈ misses, ∃ e ∈ es, e.lineAddr = t.line ∧ e.completeCycle = t.due
  waiters : ∀ e ∈ es, e.waiters = (held.filter fun t => t.line = e.lineAddr).map (·.waiter)
  writes : ∀ e ∈ es, (e.isWrite = true ↔ ∃ t ∈ misses, t.line = e.lineAddr ∧ t.isWrite = true)

namespace Tracks

variable {es es' : List MshrEntry} {misses held : List Ticket}

theorem nil : Tracks [] [] [] := ⟨List.nodup_nil, by simp, by simp, by simp, by simp⟩

theorem perm (h : Tracks es misses held) (hp : es'.Perm es) : Tracks es' misses held where
  lines := (hp.map _).nodup_iff.mpr h.lines
  sub := h.sub
  owned t ht := by
    obtain ⟨e, he, hle⟩ := h.owned t ht
    exact ⟨e, hp.mem_iff.mpr he, hle⟩
  waiters e he := h.waiters e (hp.mem_iff.mp he)
  writes e he := h.writes e (hp.mem_iff.mp he)

/-- A miss of an access's line is the one it was accepted into. -/
theorem due_eq (h : Tracks es misses held) {t : Ticket} (ht : t ∈ misses) {e : MshrEntry} (he : e ∈ es)
    (hl : e.lineAddr = t.line) : e.completeCycle = t.due := by
  obtain ⟨e', he', hl', hd'⟩ := h.owned t ht
  have heq : e = e' := List.inj_on_of_nodup_map h.lines he he' (hl.trans hl'.symm)
  rw [heq, hd']

/-- An access joins the miss of its line. -/
theorem join (h : Tracks es misses held) (t : Ticket) (hex : ∃ e ∈ es, e.lineAddr = t.line ∧ e.completeCycle = t.due) :
    Tracks (es.map fun e => if e.lineAddr = t.line then joined t.isWrite t.waiter e else e) (misses ++ [t])
      (held ++ [t]) where
  lines := by
    have hsame : (es.map fun e => if e.lineAddr = t.line then joined t.isWrite t.waiter e else e).map (·.lineAddr) =
        es.map (·.lineAddr) := by
      rw [List.map_map]
      refine List.map_congr_left fun e _ => ?_
      by_cases hl : e.lineAddr = t.line <;> simp [hl, joined]
    rw [hsame]
    exact h.lines
  sub x hx := by
    rcases List.mem_append.mp hx with hx | hx
    · exact List.mem_append_left _ (h.sub hx)
    · exact List.mem_append_right _ hx
  owned x hx := by
    have hown : ∃ e ∈ es, e.lineAddr = x.line ∧ e.completeCycle = x.due := by
      rcases List.mem_append.mp hx with hx | hx
      · exact h.owned x hx
      · exact List.mem_singleton.mp hx ▸ hex
    obtain ⟨e, he, hl, hd⟩ := hown
    refine ⟨_, List.mem_map_of_mem he, ?_, ?_⟩
    · by_cases hl' : e.lineAddr = t.line
      · rw [if_pos hl']
        exact hl
      · rwa [if_neg hl']
    · by_cases hl' : e.lineAddr = t.line
      · rw [if_pos hl']
        exact hd
      · rwa [if_neg hl']
  waiters e' he' := by
    obtain ⟨e, he, rfl⟩ := List.mem_map.mp he'
    by_cases hl : e.lineAddr = t.line
    · simp [joined, h.waiters e he, hl]
    · have hl' : ¬t.line = e.lineAddr := fun heq => hl heq.symm
      simp [if_neg hl, h.waiters e he, hl']
  writes e' he' := by
    obtain ⟨e, he, rfl⟩ := List.mem_map.mp he'
    by_cases hl : e.lineAddr = t.line
    · simp [joined, h.writes e he, hl, or_and_right, exists_or]
    · have hl' : ¬t.line = e.lineAddr := fun heq => hl heq.symm
      simp [if_neg hl, h.writes e he, hl', or_and_right, exists_or]

/-- An access opens a miss of its own. -/
theorem opened (h : Tracks es misses held) (t : Ticket) (hnew : ∀ e ∈ es, e.lineAddr ≠ t.line) :
    Tracks (⟨t.line, t.due, [t.waiter], true, t.isWrite⟩ :: es) (misses ++ [t]) (held ++ [t]) := by
  -- no access accepted before waits for this line
  have hother : ∀ x ∈ misses, x.line ≠ t.line := fun x hx heq => by
    obtain ⟨e, he, hl, -⟩ := h.owned x hx
    exact hnew e he (hl.trans heq)
  refine ⟨?_, ?_, ?_, ?_, ?_⟩
  · rw [List.map_cons, List.nodup_cons]
    refine ⟨fun hmem => ?_, h.lines⟩
    obtain ⟨e, he, hl⟩ := List.mem_map.mp hmem
    exact hnew e he hl
  · intro x hx
    rcases List.mem_append.mp hx with hx | hx
    · exact List.mem_append_left _ (h.sub hx)
    · exact List.mem_append_right _ hx
  · intro x hx
    rcases List.mem_append.mp hx with hx | hx
    · obtain ⟨e, he, hle⟩ := h.owned x hx
      exact ⟨e, List.mem_cons_of_mem _ he, hle⟩
    · obtain rfl := List.mem_singleton.mp hx
      exact ⟨_, List.mem_cons_self, rfl, rfl⟩
  · intro e he
    rcases List.mem_cons.mp he with rfl | he
    · have hnil : (held.filter fun x => x.line = t.line) = [] :=
        List.filter_eq_nil_iff.mpr fun x hx => by simpa using hother x (h.sub hx)
      simp [hnil]
    · have hne : ¬t.line = e.lineAddr := fun heq => hnew e he heq.symm
      simp [h.waiters e he, hne]
  · intro e he
    rcases List.mem_cons.mp he with rfl | he
    · constructor
      · exact fun hw => ⟨t, List.mem_append_right _ (List.mem_singleton.mpr rfl), rfl, hw⟩
      · rintro ⟨x, hx, hl, hw⟩
        rcases List.mem_append.mp hx with hx | hx
        · exact absurd hl (hother x hx)
        · exact List.mem_singleton.mp hx ▸ hw
    · have hne : ¬t.line = e.lineAddr := fun heq => hnew e he heq.symm
      simp [h.writes e he, hne, or_and_right, exists_or]

/-- The misses that are not due yet. -/
theorem narrow (h : Tracks es misses held) (now : Nat) :
    Tracks (es.filter fun e => !decide (e.completeCycle ≤ now)) (misses.filter fun t => !decide (t.due ≤ now))
      (held.filter fun t => !decide (t.due ≤ now)) where
  lines := h.lines.sublist (List.filter_sublist.map _)
  sub x hx := by
    obtain ⟨hm, hd⟩ := List.mem_filter.mp hx
    exact List.mem_filter.mpr ⟨h.sub hm, hd⟩
  owned x hx := by
    obtain ⟨hm, hd⟩ := List.mem_filter.mp hx
    obtain ⟨e, he, hl, hdue⟩ := h.owned x hm
    exact ⟨e, List.mem_filter.mpr ⟨he, by rwa [hdue]⟩, hl, hdue⟩
  waiters e he := by
    obtain ⟨he, hd⟩ := List.mem_filter.mp he
    rw [h.waiters e he, List.filter_filter]
    refine congrArg _ (List.filter_congr fun x hx => ?_)
    by_cases hl : x.line = e.lineAddr
    · rw [h.due_eq (h.sub hx) he hl.symm] at hd
      simp [hd, hl]
    · simp [hl]
  writes e he := by
    obtain ⟨he, hd⟩ := List.mem_filter.mp he
    rw [h.writes e he]
    constructor
    · rintro ⟨x, hx, hl, hw⟩
      rw [h.due_eq hx he hl.symm] at hd
      exact ⟨x, List.mem_filter.mpr ⟨hx, hd⟩, hl, hw⟩
    · rintro ⟨x, hx, hl, hw⟩
      exact ⟨x, (List.mem_filter.mp hx).1, hl, hw⟩

/-- The accesses a squash leaves; the misses stay. -/
theorem squash (h : Tracks es misses held) (keep : RobTag) :
    Tracks (es.map (retain keep)) misses (held.filter fun t => RobTag.isOlderOrEq t.waiter.robTag keep) where
  lines := by
    rw [List.map_map]
    exact h.lines
  sub x hx := h.sub (List.mem_filter.mp hx).1
  owned x hx := by
    obtain ⟨e, he, hle⟩ := h.owned x hx
    exact ⟨retain keep e, List.mem_map_of_mem he, hle⟩
  waiters e' he' := by
    obtain ⟨e, he, rfl⟩ := List.mem_map.mp he'
    simp only [retain, h.waiters e he, List.filter_map, List.filter_filter]
    refine congrArg _ (List.filter_congr fun x _ => ?_)
    rw [Bool.and_comm]
    rfl
  writes e' he' := by
    obtain ⟨e, he, rfl⟩ := List.mem_map.mp he'
    exact h.writes e he

/-- Some of the misses hold the waiting accesses of their lines. -/
theorem collect (h : Tracks es misses held) (hs : es'.Sublist es) :
    (es'.flatMap (·.waiters)).Perm ((held.filter fun t => t.line ∈ es'.map (·.lineAddr)).map (·.waiter)) := by
  have hflat : es'.flatMap (·.waiters) =
      ((es'.map (·.lineAddr)).flatMap fun k => held.filter fun t => t.line = k).map (·.waiter) := by
    rw [List.flatMap_map, List.map_flatMap]
    exact List.flatMap_congr fun e he => h.waiters e (hs.subset he)
  rw [hflat]
  exact (Lives.flatMap_filter_perm held (·.line) (h.lines.sublist (hs.map _))).map _

/-- The misses due hold the waiting accesses that are due. -/
theorem due_waiters (h : Tracks es misses held) (now : Nat) :
    ((es.filter fun e => e.completeCycle ≤ now).flatMap (·.waiters)).Perm
      ((held.filter fun t => t.due ≤ now).map (·.waiter)) := by
  refine (h.collect List.filter_sublist).trans ((List.Perm.of_eq ?_).map _)
  refine List.filter_congr fun t ht => decide_eq_decide.mpr ?_
  constructor
  · intro hmem
    obtain ⟨e, he, hl⟩ := List.mem_map.mp hmem
    obtain ⟨he, hd⟩ := List.mem_filter.mp he
    rw [h.due_eq (h.sub ht) he hl] at hd
    exact of_decide_eq_true hd
  · intro hd
    obtain ⟨e, he, hl, hdue⟩ := h.owned t (h.sub ht)
    exact List.mem_map.mpr ⟨e, List.mem_filter.mpr ⟨he, decide_eq_true (hdue ▸ hd)⟩, hl⟩

/-- All the misses hold all the waiting accesses. -/
theorem all_waiters (h : Tracks es misses held) : (es.flatMap (·.waiters)).Perm (held.map (·.waiter)) := by
  refine (h.collect (List.Sublist.refl es)).trans ((List.Perm.of_eq ?_).map _)
  refine List.filter_eq_self.mpr fun t ht => decide_eq_true ?_
  obtain ⟨e, he, hl, -⟩ := h.owned t (h.sub ht)
  exact List.mem_map.mpr ⟨e, he, hl⟩

/-- **One operation.** The file and the accesses accepted move together. -/
theorem apply (h : Tracks m.live misses held) (i : Nat) (op : MshrOp) :
    Tracks (m.apply op).live (Lives.advance admits missEnds m i op misses)
      (Lives.advance admits waiterEnds m i op held) := by
  have hkeep : ∀ (l : List Ticket), l.filter (fun _ => true) = l := fun l => List.filter_true l
  cases op with
  | request addr isWrite lat now w =>
    simp only [Lives.advance, missEnds, waiterEnds, Option.isNone_none, hkeep, admits, MshrFile.apply]
    obtain ⟨hr, hex, hlive, -⟩ | ⟨hr, hnew, hlive, -⟩ | ⟨hr, heq⟩ := m.request_cases h.lines addr isWrite lat now w
    · rw [hr, if_neg (by decide), hlive]
      exact h.join ⟨i, m.lineAlign addr, m.fillCycle addr lat now, isWrite, w⟩ hex
    · rw [hr, if_neg (by decide)]
      exact (h.opened ⟨i, m.lineAlign addr, m.fillCycle addr lat now, isWrite, w⟩ hnew).perm hlive
    · rw [hr, if_pos rfl, heq]
      simpa using h
  | drainCompletions now =>
    have hopen :
        ∀ t : Ticket, (if t.due ≤ now then some MshrEnd.returned else none).isNone = !decide (t.due ≤ now) := by
      intro t
      by_cases hd : t.due ≤ now <;> simp [hd]
    simp only [Lives.advance, missEnds, waiterEnds, hopen, admits, Option.toList_none, List.append_nil,
      MshrFile.apply, live_drainCompletions]
    exact h.narrow now
  | flushAfter keep =>
    have hopen : ∀ t : Ticket, (if RobTag.isOlderOrEq t.waiter.robTag keep then none else some MshrEnd.removed).isNone =
        RobTag.isOlderOrEq t.waiter.robTag keep := by
      intro t
      by_cases hd : RobTag.isOlderOrEq t.waiter.robTag keep <;> simp [hd]
    simp only [Lives.advance, missEnds, waiterEnds, hopen, hkeep, Option.isNone_none, admits, Option.toList_none,
      List.append_nil, MshrFile.apply, live_flushAfter]
    exact h.squash keep
  | flush =>
    have hnone : ∀ l : List Ticket, l.filter (fun _ => false) = [] := fun l => List.filter_false l
    simp only [Lives.advance, missEnds, waiterEnds, Option.isNone_some, hnone, admits, Option.toList_none,
      List.append_nil, MshrFile.apply, live_flush]
    exact nil

end Tracks

theorem live_new (capacity lineBytes : Nat) : (new capacity lineBytes).live = [] :=
  List.filter_eq_nil_iff.mpr fun e he => by simp [List.eq_of_mem_replicate he]

/-- The accesses whose miss is outstanding after the operations. -/
def misses (m : MshrFile) (ops : List MshrOp) : List Ticket := Lives.waiting apply admits missEnds m 0 ops []

/-- The accesses that wait after the operations. -/
def holding (m : MshrFile) (ops : List MshrOp) : List Ticket := Lives.waiting apply admits waiterEnds m 0 ops []

/-- **A run.** -/
theorem run_tracks (ops : List MshrOp) (i : Nat) {misses held : List Ticket} (h : Tracks m.live misses held) :
    Tracks (m.run ops).live (Lives.waiting apply admits missEnds m i ops misses)
      (Lives.waiting apply admits waiterEnds m i ops held) := by
  induction ops generalizing m i misses held with
  | nil => exact h
  | cons op ops ih => exact ih (i + 1) (h.apply i op)

/-- The count follows the misses outstanding. -/
theorem counted_apply {misses held : List Ticket} (h : Tracks m.live misses held) (hc : m.count = m.live.length)
    (op : MshrOp) : (m.apply op).count = (m.apply op).live.length := by
  cases op with
  | request addr isWrite lat now w =>
    simp only [MshrFile.apply]
    obtain ⟨-, -, hlive, hn⟩ | ⟨-, -, hlive, hn⟩ | ⟨-, heq⟩ := m.request_cases h.lines addr isWrite lat now w
    · rw [hn, hlive, List.length_map, hc]
    · rw [hn, hlive.length_eq, List.length_cons, hc]
    · rwa [heq]
  | drainCompletions now =>
    simp only [MshrFile.apply, live_drainCompletions]
    have hdone : m.entries.countP (isDone now) = (m.live.filter fun e => e.completeCycle ≤ now).length := by
      rw [← drainCompletions_fst, List.countP_eq_length_filter]
      rfl
    have hsplit := List.length_eq_length_filter_add (l := m.live) fun e => decide (e.completeCycle ≤ now)
    show m.count - m.entries.countP (isDone now) = _
    omega
  | flushAfter keep =>
    simp only [MshrFile.apply, live_flushAfter, List.length_map]
    exact hc
  | flush =>
    simp only [MshrFile.apply, live_flush]
    rfl

theorem counted_run (ops : List MshrOp) {misses held : List Ticket} (h : Tracks m.live misses held)
    (hc : m.count = m.live.length) : (m.run ops).count = (m.run ops).live.length := by
  induction ops generalizing m misses held with
  | nil => exact hc
  | cons op ops ih => exact ih (h.apply 0 op) (counted_apply h hc op)

/-! ### The accounts -/

theorem admits_step {i : Nat} {op : MshrOp} {t : Ticket} (h : m.admits i op = some t) : t.step = i := by
  cases op with
  | request addr isWrite lat now w =>
    simp only [admits] at h
    by_cases hf : (m.request addr isWrite lat now w).1 = .mshrFull
    · rw [if_pos hf] at h
      cases h
    · rw [if_neg hf] at h
      obtain rfl := Option.some.inj h
      rfl
  | drainCompletions _ => cases h
  | flushAfter _ => cases h
  | flush => cases h

/-- A fate is the first event after the request that ends the wait. -/
theorem fate_iff {ops : List MshrOp} {l : Ticket × Option (Nat × MshrEnd)} (hl : l ∈ m.waiterLives ops) (k : Nat)
    (r : MshrEnd) :
    l.2 = some (k, r) ↔ l.1.step < k ∧ (∃ op, ops[k]? = some op ∧ waiterEnds op l.1 = some r) ∧
      ∀ j op, l.1.step < j → j < k → ops[j]? = some op → waiterEnds op l.1 = none := by
  obtain ⟨j₀, e, -, ha, hf⟩ := Lives.mem_lives hl
  have hstep : l.1.step = j₀ := (admits_step ha).trans (Nat.zero_add j₀)
  rw [hf, Nat.zero_add, Lives.fate_eq_some_iff, hstep]
  simp only [List.getElem?_drop]
  constructor
  · rintro ⟨hk, ⟨op, hget, hend⟩, hbefore⟩
    rw [show j₀ + 1 + (k - (j₀ + 1)) = k by omega] at hget
    refine ⟨by omega, ⟨op, hget, hend⟩, fun j op' hj hjk hget' => ?_⟩
    refine hbefore (j - (j₀ + 1)) op' (by omega) ?_
    rwa [show j₀ + 1 + (j - (j₀ + 1)) = j by omega]
  · rintro ⟨hk, ⟨op, hget, hend⟩, hbefore⟩
    refine ⟨by omega, ⟨op, ?_, hend⟩, fun j op' hj hget' => hbefore (j₀ + 1 + j) op' (by omega) (by omega) hget'⟩
    rwa [show j₀ + 1 + (k - (j₀ + 1)) = k by omega]

theorem split_at {ops : List MshrOp} {k : Nat} {op : MshrOp} (h : ops[k]? = some op) :
    ops = ops.take k ++ op :: ops.drop (k + 1) ∧ (ops.take k).length = k := by
  obtain ⟨hk, hget⟩ := List.getElem?_eq_some_iff.mp h
  refine ⟨?_, by rw [List.length_take]; omega⟩
  rw [← hget, ← List.drop_eq_getElem_cons hk, List.take_append_drop]

/-- What ends at a completion is what is outstanding and due there. -/
theorem ended_due {ends : MshrOp → Ticket → Option MshrEnd} (ops : List MshrOp) {k now : Nat}
    (hk : ops[k]? = some (.drainCompletions now))
    (hends : ∀ t, ends (.drainCompletions now) t = if t.due ≤ now then some .returned else none) :
    ((Lives.lives apply admits ends m 0 ops).filter fun l => l.2 = some (k, .returned)).map Prod.fst =
      (Lives.waiting apply admits ends m 0 (ops.take k) []).filter fun t => t.due ≤ now := by
  obtain ⟨hops, hlen⟩ := split_at hk
  have hend := Lives.ended_at apply admits ends m (ops.take k)
    (ops.drop (k + 1)) (.drainCompletions now) .returned
  rw [← hops, hlen] at hend
  refine hend.trans (List.filter_congr fun t _ => ?_)
  by_cases hd : t.due ≤ now <;> simp [hends, hd]

theorem returned_waiters (ops : List MshrOp) {k now : Nat} (hk : ops[k]? = some (.drainCompletions now)) :
    ((m.waiterLives ops).filter fun l => l.2 = some (k, .returned)).map Prod.fst =
      (m.holding (ops.take k)).filter fun t => t.due ≤ now :=
  ended_due ops hk fun _ => rfl

theorem returned_misses (ops : List MshrOp) {k now : Nat} (hk : ops[k]? = some (.drainCompletions now)) :
    ((m.missLives ops).filter fun l => l.2 = some (k, .returned)).map Prod.fst =
      (m.misses (ops.take k)).filter fun t => t.due ≤ now :=
  ended_due ops hk fun _ => rfl

/-- **Conservation.** From an empty file of any size, over every sequence of
requests, completions and flushes: one miss a line, a true count, every
accepted access returned once or squashed, and the write flag of a fill kept. -/
theorem new_conserved (capacity lineBytes : Nat) (ops : List MshrOp) : (new capacity lineBytes).Conserved ops := by
  have hstart : Tracks (new capacity lineBytes).live [] [] := by
    rw [live_new]
    exact Tracks.nil
  have hcount : (new capacity lineBytes).count = (new capacity lineBytes).live.length := by
    rw [live_new]
    rfl
  generalize new capacity lineBytes = m at hstart hcount
  have htracks : ∀ pre, Tracks (m.run pre).live (m.misses pre) (m.holding pre) := fun pre => run_tracks pre 0 hstart
  refine ⟨(htracks ops).lines, ?_, ?_, ?_, fun l hl k r => fate_iff hl k r, ?_, ?_, ?_⟩
  · rw [counted_run ops hstart hcount, live, List.countP_eq_length_filter]
  · -- what is returned
    intro k now hk
    rw [returnedBy, drainCompletions_fst]
    refine ((htracks (ops.take k)).due_waiters now).trans (List.Perm.of_eq ?_)
    rw [← returned_waiters ops hk, List.map_map]
    rfl
  · -- what is held
    refine (htracks ops).all_waiters.trans (List.Perm.of_eq ?_)
    rw [holding, ← Lives.still_open apply admits waiterEnds m ops, List.map_map]
    rfl
  · -- a squash comes after the return, or the return does not come
    intro l hl j keep hj hget hnew k hret
    obtain ⟨hk, ⟨op, hop, hend⟩, hbefore⟩ := (fate_iff hl k .returned).mp hret
    have hsq : waiterEnds (.flushAfter keep) l.1 = some .removed := by
      have hold : RobTag.isOlderOrEq l.1.waiter.robTag keep = false := by
        simpa [RobTag.isOlderOrEq, RobTag.isNewerThan] using hnew
      rw [waiterEnds, hold]
      rfl
    rcases Nat.lt_trichotomy k j with hlt | heq | hgt
    · exact hlt
    · subst heq
      rw [hget] at hop
      rw [← Option.some.inj hop, hsq] at hend
      cases hend
    · rw [hbefore j _ hj hgt hget] at hsq
      cases hsq
  · -- a write is remembered
    intro l hl hw k now hk hret
    have hmem : l.1 ∈ (m.misses (ops.take k)).filter fun t => t.due ≤ now := by
      rw [← returned_misses ops hk]
      exact List.mem_map_of_mem (List.mem_filter.mpr ⟨hl, decide_eq_true hret⟩)
    obtain ⟨hopen, hdue⟩ := List.mem_filter.mp hmem
    obtain ⟨e, he, hline, hcycle⟩ := (htracks (ops.take k)).owned l.1 hopen
    refine ⟨e, ?_, hline, hcycle, ((htracks (ops.take k)).writes e he).mpr ⟨l.1, hopen, hline.symm, hw⟩⟩
    rw [returnedBy, drainCompletions_fst]
    exact List.mem_filter.mpr ⟨he, by rwa [hcycle]⟩
  · -- and comes from one
    intro k now hk e he hw
    rw [returnedBy, drainCompletions_fst] at he
    obtain ⟨he, hdue⟩ := List.mem_filter.mp he
    obtain ⟨t, ht, hline, htw⟩ := ((htracks (ops.take k)).writes e he).mp hw
    have hmem : t ∈ ((m.missLives ops).filter fun l => l.2 = some (k, .returned)).map Prod.fst := by
      rw [returned_misses ops hk]
      refine List.mem_filter.mpr ⟨ht, ?_⟩
      rwa [← (htracks (ops.take k)).due_eq ht he hline.symm]
    obtain ⟨l, hl, rfl⟩ := List.mem_map.mp hmem
    obtain ⟨hl, hret⟩ := List.mem_filter.mp hl
    exact ⟨l, hl, of_decide_eq_true hret, hline, htw⟩

end MshrFile

end Rvsim
