/-
# Where instructions are

Between rename and the write of its result an instruction is in one of seven
places: waiting for dispatch, in the issue queue, in its functional unit, in
the latch of memory1, memory2 or writeback, or parked in a miss register. It
leaves its unit only when the latency is over, though its result may have been
written, and it may have retired, long before; and a store that missed goes
on while the miss register keeps its tag. Neither is held there any more.

Key definitions:
  - `O3State.places`, `O3State.named`
Key theorems:
  - `O3Pipeline.Run.placed`
-/
import Rvsim.O3Run

namespace Rvsim

variable {U : Type} {D : Prop} {total : Nat}

namespace O3State

/-- The tags held in each of the seven places. -/
def places (s : O3State U) : List (List RobTag) :=
  [s.renameOutput.map (·.robTag),
    s.eng.iq.entries.map (·.entry.robTag),
    (s.eng.pendingResults.filter fun p => !p.speculativeWritten).map (·.entry.robTag),
    s.eng.executeMem1.map (·.robTag),
    s.eng.mem1Mem2.map (·.robTag),
    s.eng.mem2Wb.map (·.robTag),
    s.cpu.l1dMshrs.parked.map (·.robTag)]

/-- The tags named there, by results that have been written and stores that have gone on as well. -/
def named (s : O3State U) : List RobTag :=
  s.places.flatten ++ s.eng.pendingResults.map (·.entry.robTag) ++
    s.cpu.l1dMshrs.entries.flatMap fun e => e.waiters.map (·.robTag)

/-- The places hold what is in flight. -/
theorem places_perm (s : O3State U) : s.places.flatten.Perm s.flight.tags := by
  have hqueue : s.eng.iq.bares.map (·.robTag) = s.eng.iq.entries.map (·.entry.robTag) := by
    unfold IssueQueue.bares
    rw [List.map_map]
    rfl
  refine List.perm_iff_count.mpr fun t => ?_
  simp only [places, List.flatten_cons, List.flatten_nil, List.append_nil, Flight.tags, Flight.held, flight, waiting,
    flying, List.map_append, List.map_map, List.count_append, Function.comp_def, RenameIssueEntry.bare_robTag,
    RenameIssueEntry.dest, ExMem1Entry.dest, Mem1Mem2Entry.dest, Mem2WbEntry.dest, hqueue]
  omega

end O3State

/-- No instruction is in two places, and each has an entry in the buffer that is not complete. -/
theorem O3Inv.places {s : O3State U} (h : O3Inv D total s) : s.places.flatten.Nodup ∧
    ∀ t ∈ s.places.flatten, ∃ e ∈ s.eng.rob.entries, e.tag = t ∧ e.state ≠ .completed := by
  refine ⟨s.places_perm.nodup_iff.mpr h.flight.nodup, fun t ht => ?_⟩
  obtain ⟨x, hx, rfl⟩ := List.mem_map.mp (s.places_perm.mem_iff.mp ht)
  obtain ⟨e, he, htag, -, hst⟩ := h.flight.held x hx
  exact ⟨e, he, htag, hst⟩

/-- Where the counter does not wrap inside the buffer, whatever is still to execute is in one place. -/
theorem O3Inv.onePlace {s : O3State U} (h : O3Inv True total s) {e : RobEntry} (he : e ∈ s.eng.rob.entries)
    (hst : e.state = .issued) : s.places.flatten.count e.tag = 1 := by
  have hin : e.tag ∈ s.places.flatten := s.places_perm.mem_iff.mpr (h.flight.covered trivial e he hst)
  exact List.count_eq_one_of_mem h.places.1 hin

namespace O3Pipeline

/-- The tags stay within half the tag space, and the counter does not wrap inside the buffer. -/
def UnwrappedStep (p q : O3Pipeline U) : Prop := SpanStep p q ∧ q.core.eng.rob.NoWrap

/-- **No instruction is lost or duplicated.** In every state of every run the places hold every instruction at
most once, and no tag that is not in the buffer; while the counter does not wrap inside the buffer, they hold each
instruction that is still to execute exactly once. -/
theorem Run.placed [Units U] {cfg : Config} {p : O3Pipeline U} (h : Run cfg SpanStep p) :
    (p.core.places.flatten.Nodup ∧
      ∀ t ∈ p.core.places.flatten, ∃ e ∈ p.core.eng.rob.entries, e.tag = t ∧ e.state ≠ .completed) ∧
    (Run cfg UnwrappedStep p →
      ∀ e ∈ p.core.eng.rob.entries, e.state = .issued → p.core.places.flatten.count e.tag = 1) := by
  refine ⟨(Run.inv (D := False) (fun _ _ hs => hs) (fun hf => hf.elim) h).core.places, fun hn e he hst => ?_⟩
  have hinv := Run.inv (D := True) (fun _ _ hs => hs.1) (fun _ _ _ hs => hs.2) hn
  exact hinv.core.onePlace he hst

/-! ### A multiplication -/

instance (r : Rob) : Decidable r.NoWrap := inferInstanceAs (Decidable (List.Pairwise _ _))

instance (p q : O3Pipeline U) : Decidable (UnwrappedStep p q) := inferInstanceAs (Decidable (_ ∧ _))

/-- A multiplication in front of a loop. -/
def multiplying : O3Pipeline Bench :=
  .init smallO3 (Cpu.new smallO3
    -- mul x7,x7,x7; jal x0,0
    (memOfWords 0x80000000 [0x027383b3, 0x0000006f]) { btb := [(0x80000004, 0x80000004)] })

/-- In the sixth cycle two instructions wait in the queue, and nowhere else. -/
theorem placed_multiplying :
    (((multiplying.ticks 6).core.eng.rob.entries.filter fun e => e.state == .issued).map (·.tag) = [3, 4]) ∧
      ∀ e ∈ (multiplying.ticks 6).core.eng.rob.entries, e.state = .issued →
        (multiplying.ticks 6).core.places.flatten.count e.tag = 1 := by
  have hinit : Run smallO3 UnwrappedStep multiplying := .init _ (loaded_new _ _ _)
  have hrun : Run smallO3 UnwrappedStep (multiplying.ticks 6) := Run.ticks 6 hinit (by decide +kernel)
  exact ⟨by decide +kernel, (Run.placed (hrun.mono fun _ _ h => h.1)).2 hrun⟩

/-- One cycle later the multiplication has retired, and is still in its unit. -/
theorem named_multiplying : ¬∀ p : O3Pipeline Bench, Reach smallO3 p →
    ∀ t ∈ p.core.named, t ∈ p.core.eng.rob.entries.map (·.tag) := by
  intro h
  have hinit : Run smallO3 SpanStep multiplying := .init _ (loaded_new _ _ _)
  have hrun : Run smallO3 SpanStep (multiplying.ticks 7) := Run.ticks 7 hinit (by decide)
  have hin := h _ hrun.reach 1 (by decide)
  exact absurd hin (by decide)

end O3Pipeline

end Rvsim
