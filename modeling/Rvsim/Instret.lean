/-
# The retired-instruction counter

Commit counts the instructions it retires, but for the invalid word 0 and the
canonical NOP, which decode drops before it gets that far. A read of `instret`
or `minstret` takes the counter when it executes; completed instructions in
front of it may still wait for commit then.

A ledger runs beside the pipeline and counts as the ISA does: every retired
instruction, the dropped NOPs with the instruction they stand in front of, no
instruction that traps, and from the value last written to `minstret`. It keeps
what each retired read returned beside what it should have returned.

Key definitions:
  - `Ledger`, `Ledger.commit`, `Ledger.decode`, `Ledger.Right`
  - `Rob.Settles`, `Executed`, `Counting`
Key theorems:
  - `CommitState.commitStage_counts`
  - `Counting.settles`, `Counting.execute`, `Counting.append`
-/
import Rvsim.Frontend
import Rvsim.InOrder
import Rvsim.O3Commit

namespace Rvsim

variable {U : Type}

/-! ### Words and reads -/

/-- The words commit counts. -/
def counted (inst : U32) : Bool := inst != 0 && inst != Inst.nop

namespace ControlSignals

/-- A CSR instruction on the counter. -/
def readsInstret (c : ControlSignals) : Bool :=
  c.systemOp == .system && c.csrOp != .none && (c.csrAddr == Csr.instret || c.csrAddr == Csr.minstret)

end ControlSignals

/-- It returns the counter in a register. -/
def RobEntry.readsInstret (e : RobEntry) : Bool := e.ctrl.readsInstret && e.writesGpr

def RenameIssueEntry.readsInstret (w : RenameIssueEntry) : Bool :=
  w.ctrl.readsInstret && (w.ctrl.regWrite && !w.rd.isZero)

/-- What the entry writes to `minstret` when it retires. -/
def RobEntry.instretWrite (e : RobEntry) : Option U64 :=
  match e.csrUpdate with
  | some u => if u.addr = Csr.minstret ∧ u.applied = false then some u.newVal else none
  | none => none

/-! ### The ledger -/

structure Ledger where
  /-- `minstret` as the ISA counts. -/
  isa : U64
  /-- NOPs decode dropped in front of the instruction with this tag. -/
  ahead : RobTag → Nat := fun _ => 0
  /-- The same for the instructions that wait for rename. -/
  latched : List Nat := []
  /-- NOPs dropped in front of the instruction decode takes next. -/
  trailing : Nat := 0
  /-- What each retired read returned, and what it should have returned. -/
  reads : List (U64 × U64) := []

namespace Ledger

/-- The NOPs in front of the instruction with this tag have retired. -/
def passNops (l : Ledger) (t : RobTag) : Ledger := { l with isa := l.isa + BitVec.ofNat 64 (l.ahead t) }

/-- The instruction retires, behind its NOPs. -/
def retire (l : Ledger) (e : RobEntry) : Ledger :=
  let l := l.passNops e.tag
  { l with
    isa := e.instretWrite.getD (l.isa + 1)
    reads := if e.readsInstret then l.reads ++ [(e.result.getD 0, l.isa)] else l.reads }

/-- An entry leaves the buffer at its head: it retires, or it is at fault and its trap is taken. -/
def leave (l : Ledger) (e : RobEntry) : Ledger := if e.state = .faulted then l.passNops e.tag else l.retire e

/-- Commit took `c` to `c'`. An interrupt is taken in front of the head, and a core that waits takes it where
it waits. -/
def commit (l : Ledger) (c c' : CommitState U) : Ledger :=
  if (checkInterrupts c.cpu).isSome then
    if c.cpu.wfiWaiting then l
    else
      match c.rob.entries with
      | [] => l
      | e :: _ => l.passNops e.tag
  else (c.rob.entries.take (c.rob.len - c'.rob.len)).foldl leave l

/-- Fetch goes elsewhere: `n` NOPs lie behind what is left. -/
def redirect (l : Ledger) (n : Nat) : Ledger := { l with latched := [], trailing := n }

/-- Rename gave these tags to the instructions in front of its latch. -/
def rename (l : Ledger) (tags : List RobTag) : Ledger :=
  { l with
    ahead := (tags.zip l.latched).foldl (fun a x => Function.update a x.1 x.2) l.ahead
    latched := l.latched.drop tags.length }

/-- Every retired read returned what it should have. -/
def Right (l : Ledger) : Prop := ∀ x ∈ l.reads, x.1 = x.2

instance (l : Ledger) : Decidable l.Right := List.decidableBAll _ _

/-- No NOP has been dropped in front of anything in flight. -/
structure Clean (l : Ledger) : Prop where
  ahead : ∀ t, l.ahead t = 0
  latched : ∀ n ∈ l.latched, n = 0
  trailing : l.trailing = 0

end Ledger

/-! ### NOPs that decode drops -/

/-- `decode_stage` once more: for each instruction it hands on, the NOPs it dropped right before, with
`n` of them already behind it; and those behind the last. -/
def decodeNops (renames : Bool) (writes : List (RegIdx × Bool)) (n : Nat) : List IfIdEntry → List Nat × Nat
  | [] => ([], n)
  | e :: rest =>
    match e.trap with
    | some _ => ([n], 0)
    | none =>
      if e.inst = Inst.nop then decodeNops renames writes (n + 1) rest
      else
        let d := decode e.inst
        let id := decodeEntry e
        if !renames && bundleHazard writes d id.rs3 id.ctrl then ([], n)
        else if id.trap.isSome then ([n], 0)
        else
          let (ns, last) := decodeNops renames (writes ++ bundleWrites d id.ctrl) 0 rest
          (n :: ns, last)

/-- Decode works in this cycle on `f`, which rename has left. -/
def Ledger.decode (l : Ledger) (f : Frontend) (renames : Bool) : Ledger :=
  if f.decodeRename.isEmpty then
    let (ns, last) := decodeNops renames [] l.trailing f.fetch2Decode
    { l with latched := ns, trailing := last }
  else l

/-- Decode drops no NOP in this cycle. -/
def Frontend.DropsNoNop (f : Frontend) (renames : Bool) : Prop :=
  f.decodeRename.isEmpty = true →
    (∀ n ∈ (decodeNops renames [] 0 f.fetch2Decode).1, n = 0) ∧ (decodeNops renames [] 0 f.fetch2Decode).2 = 0

instance (f : Frontend) (renames : Bool) : Decidable (f.DropsNoNop renames) :=
  inferInstanceAs (Decidable (_ → _))

namespace Ledger.Clean

variable {l : Ledger}

theorem passNops (h : l.Clean) (t : RobTag) : l.passNops t = l := by
  unfold Ledger.passNops
  rw [h.ahead t, BitVec.add_zero]

theorem retire (h : l.Clean) (e : RobEntry) : (l.retire e).Clean := by
  unfold Ledger.retire
  rw [h.passNops]
  exact ⟨h.ahead, h.latched, h.trailing⟩

theorem leave (h : l.Clean) (e : RobEntry) : (l.leave e).Clean := by
  unfold Ledger.leave
  split
  · rw [h.passNops]
    exact h
  · exact h.retire e

theorem redirect (h : l.Clean) : (l.redirect 0).Clean := ⟨h.ahead, fun _ hn => absurd hn List.not_mem_nil, rfl⟩

theorem rename (h : l.Clean) (tags : List RobTag) : (l.rename tags).Clean := by
  have hfold : ∀ (xs : List (RobTag × Nat)) (a : RobTag → Nat), (∀ t, a t = 0) → (∀ x ∈ xs, x.2 = 0) →
      ∀ t, xs.foldl (fun a x => Function.update a x.1 x.2) a t = 0 := by
    intro xs
    induction xs with
    | nil => exact fun a ha _ => ha
    | cons x xs ih =>
      intro a ha hx
      refine ih _ (fun t => ?_) fun y hy => hx y (List.mem_cons_of_mem _ hy)
      dsimp only
      by_cases ht : t = x.1
      · rw [ht, Function.update_self]
        exact hx x List.mem_cons_self
      · rw [Function.update_of_ne ht]
        exact ha t
  refine ⟨hfold _ _ h.ahead fun x hx => ?_, fun n hn => h.latched n (List.mem_of_mem_drop hn), h.trailing⟩
  exact h.latched x.2 (List.of_mem_zip hx).2

theorem decode (h : l.Clean) {f : Frontend} {renames : Bool} (hd : f.DropsNoNop renames) :
    (l.decode f renames).Clean := by
  unfold Ledger.decode
  split
  · rename_i he
    rw [h.trailing]
    exact ⟨h.ahead, (hd he).1, (hd he).2⟩
  · exact h

end Ledger.Clean

/-! ### What stages do to the buffer -/

/-- Results on their way: the tag, and the value unless memory brings it. -/
abbrev Coming : Type := List (RobTag × Option U64)

/-- What may become of an entry while the results `cs` are on their way: it may fault, and completes with
one of them only. -/
structure RobEntry.Settled (cs : Coming) (e e' : RobEntry) : Prop where
  live : e'.state ≠ .faulted → e.state ≠ .faulted
  done : e'.state = .completed → (e.state = .completed ∧ e'.result = e.result) ∨
    ∃ v ov, e'.result = some v ∧ (e.tag, ov) ∈ cs ∧ ∀ x ∈ ov, x = v

namespace RobEntry.Settled

variable {cs : Coming} {e e' e'' : RobEntry}

theorem same (hst : e'.state = e.state) (hres : e'.result = e.result) : Settled cs e e' :=
  ⟨fun h => hst ▸ h, fun h => Or.inl ⟨hst ▸ h, hres⟩⟩

theorem trans (htag : e'.tag = e.tag) (h : Settled cs e e') (h' : Settled cs e' e'') : Settled cs e e'' := by
  refine ⟨fun hf => h.live (h'.live hf), fun hc => ?_⟩
  rcases h'.done hc with ⟨hst, hres⟩ | ⟨v, ov, hres, hmem, hov⟩
  · rcases h.done hst with ⟨hst', hres'⟩ | ⟨v, ov, hres', hmem, hov⟩
    · exact Or.inl ⟨hst', hres.trans hres'⟩
    · exact Or.inr ⟨v, ov, hres.trans hres', hmem, hov⟩
  · exact Or.inr ⟨v, ov, hres, htag ▸ hmem, hov⟩

theorem mono {cs' : Coming} (hsub : ∀ x ∈ cs, x ∈ cs') (h : Settled cs e e') : Settled cs' e e' := by
  refine ⟨h.live, fun hc => (h.done hc).imp_right ?_⟩
  rintro ⟨v, ov, hres, hmem, hov⟩
  exact ⟨v, ov, hres, hsub _ hmem, hov⟩

end RobEntry.Settled

/-- The buffer keeps a front part, whose entries settle. -/
def Rob.Settles (cs : Coming) (r r' : Rob) : Prop :=
  ∃ g : RobEntry → RobEntry, r'.entries <+: r.entries.map g ∧ RobEntry.Fixes g ∧ ∀ e, RobEntry.Settled cs e (g e)

namespace Rob.Settles

variable {cs cs' : Coming} {r r' r'' : Rob}

theorem front (h : r'.entries <+: r.entries) : Settles cs r r' :=
  ⟨id, by simpa using h, fun _ => rfl, fun _ => RobEntry.Settled.same rfl rfl⟩

theorem of_entries (h : r'.entries = r.entries) : Settles cs r r' := front (h ▸ List.prefix_rfl)

theorem refl (r : Rob) : Settles cs r r := front List.prefix_rfl

theorem trans (h : Settles cs r r') (h' : Settles cs r' r'') : Settles cs r r'' := by
  obtain ⟨g, hg, hfix, hset⟩ := h
  obtain ⟨g', hg', hfix', hset'⟩ := h'
  refine ⟨g' ∘ g, ?_, fun e => (hfix' (g e)).trans (hfix e), fun e => (hset e).trans (hfix.tag e) (hset' (g e))⟩
  rw [← List.map_map]
  exact hg'.trans (hg.map g')

theorem mono (h : Settles cs r r') (hsub : ∀ x ∈ cs, x ∈ cs') : Settles cs' r r' := by
  obtain ⟨g, hg, hfix, hset⟩ := h
  exact ⟨g, hg, hfix, fun e => (hset e).mono hsub⟩

/-- Every entry is updated, and its result is left alone. -/
theorem of_map {g : RobEntry → RobEntry} (hr : r'.entries = r.entries.map g) (hfix : RobEntry.Fixes g)
    (hst : ∀ e, (g e).state = e.state) (hres : ∀ e, (g e).result = e.result) : Settles cs r r' :=
  ⟨g, hr ▸ List.prefix_rfl, hfix, fun e => RobEntry.Settled.same (hst e) (hres e)⟩

theorem modify_of {tag : RobTag} {f : RobEntry → RobEntry} (hfix : RobEntry.Fixes f)
    (hf : ∀ e, e.tag = tag → RobEntry.Settled cs e (f e)) : Settles cs r (r.modify tag f) := by
  refine ⟨fun e => if e.tag = tag then f e else e, List.prefix_rfl, hfix.ite _, fun e => ?_⟩
  dsimp only
  split
  · exact hf e ‹_›
  · exact RobEntry.Settled.same rfl rfl

/-- A record that leaves state and result alone. -/
theorem modify (tag : RobTag) {f : RobEntry → RobEntry} (hfix : RobEntry.Fixes f) (hst : ∀ e, (f e).state = e.state)
    (hres : ∀ e, (f e).result = e.result) : Settles cs r (r.modify tag f) :=
  modify_of hfix fun e _ => RobEntry.Settled.same (hst e) (hres e)

theorem fault (tag : RobTag) (t : Trap) : Settles cs r (r.fault tag t) :=
  modify_of (f := fun e => { e with state := .faulted, trap := some t }) (fun _ => rfl) fun e _ =>
    ⟨fun h => absurd rfl h, fun h => absurd h (by simp)⟩

theorem complete {tag : RobTag} {v : U64} {ov : Option U64} (hmem : (tag, ov) ∈ cs) (hov : ∀ x ∈ ov, x = v) :
    Settles cs r (r.complete tag v) := by
  refine modify_of (fun e => ?_) fun e ht => ?_
  · split
    · rfl
    · rfl
  · by_cases hf : e.state = .faulted
    · rw [if_pos hf]
      exact RobEntry.Settled.same rfl rfl
    · rw [if_neg hf]
      exact ⟨fun _ => hf, fun _ => Or.inr ⟨v, ov, rfl, ht ▸ hmem, hov⟩⟩

/-- What is left at all has its head left. -/
theorem head (h : Settles cs r r') (hne : r'.entries ≠ []) :
    r'.entries.head?.map (·.tag) = r.entries.head?.map (·.tag) := by
  obtain ⟨g, hg, hfix, -⟩ := h
  cases hr' : r'.entries with
  | nil => exact absurd hr' hne
  | cons e' es' =>
    cases hr : r.entries with
    | nil =>
      rw [hr', hr] at hg
      exact absurd hg (by simp)
    | cons e es =>
      rw [hr', hr, List.map_cons, List.cons_prefix_cons] at hg
      rw [List.head?_cons, List.head?_cons, Option.map_some, Option.map_some, hg.1, hfix.tag]

theorem mem (h : Settles cs r r') {e' : RobEntry} (he' : e' ∈ r'.entries) :
    ∃ e ∈ r.entries, e'.bare = e.bare ∧ RobEntry.Settled cs e e' := by
  obtain ⟨g, hg, hfix, hset⟩ := h
  obtain ⟨e, he, rfl⟩ := List.mem_map.mp (hg.subset he')
  exact ⟨e, he, hfix e, hset e⟩

end Rob.Settles

/-! ### What the counter needs -/

/-- With the result `v` the entry may retire: commit counts it, and a read is at the head and has `n`. -/
structure RobEntry.Counts (r : Rob) (n : U64) (e : RobEntry) (v : Option U64) : Prop where
  counted : counted e.inst = true
  read : e.readsInstret = true → r.entries.head?.map (·.tag) = some e.tag ∧ v = some n

/-- A word commit does not count faulted in front of the buffer; a read goes past the memory stages. -/
structure RenameIssueEntry.Sound (w : RenameIssueEntry) : Prop where
  counted : w.trap = none → counted w.inst = true
  read : w.ctrl.readsInstret = true → w.ctrl.memRead = false ∧ w.ctrl.controlFlow = .sequential

/-- The instruction that waits is that of the entry. -/
def RenameIssueEntry.Describes (w : RenameIssueEntry) (e : RobEntry) : Prop :=
  w.inst = e.inst ∧ w.rd = e.rd ∧ w.ctrl = e.ctrl

/-- The counter stands at `n`, the results `cs` are on their way, the instructions `ws` wait. -/
structure Counting (r : Rob) (cs : Coming) (ws : List RenameIssueEntry) (n : U64) : Prop where
  done : ∀ e ∈ r.entries, e.state = .completed → e.Counts r n e.result
  coming : ∀ x ∈ cs, ∀ e ∈ r.entries, e.tag = x.1 → e.state ≠ .faulted → e.Counts r n x.2
  sound : ∀ w ∈ ws, w.Sound
  describes : ∀ w ∈ ws, ∀ e ∈ r.entries, e.tag = w.robTag → w.Describes e

/-- What rename fixed of an entry. -/
theorem RobEntry.fixed_of_bare {e e' : RobEntry} (h : e'.bare = e.bare) :
    e'.tag = e.tag ∧ e'.inst = e.inst ∧ e'.readsInstret = e.readsInstret := by
  have htag : e'.bare.tag = e.bare.tag := by rw [h]
  have hinst : e'.bare.inst = e.bare.inst := by rw [h]
  have hread : e'.bare.readsInstret = e.bare.readsInstret := by rw [h]
  exact ⟨htag, hinst, hread⟩

/-- Entries that settle count as before. -/
theorem RobEntry.Counts.settles {cs : Coming} {r r' : Rob} {n : U64} {e e' : RobEntry} {v v' : Option U64}
    (h : e.Counts r n v) (hs : r.Settles cs r') (he' : e' ∈ r'.entries) (hb : e'.bare = e.bare)
    (hv : ∀ x, v = some x → v' = some x) : e'.Counts r' n v' := by
  obtain ⟨htag, hinst, hread⟩ := RobEntry.fixed_of_bare hb
  refine ⟨hinst ▸ h.counted, fun hr => ?_⟩
  obtain ⟨hhead, hval⟩ := h.read (hread ▸ hr)
  refine ⟨?_, hv n hval⟩
  rw [hs.head (List.ne_nil_of_mem he'), hhead, htag]

namespace Counting

variable {r r' : Rob} {cs cs' : Coming} {ws ws' : List RenameIssueEntry} {n : U64}

/-- **Stages move results and settle entries.** -/
theorem settles (h : Counting r cs ws n) (hs : r.Settles cs r') (hc : ∀ x ∈ cs', x ∈ cs)
    (hw : ∀ w ∈ ws', ∃ w₀ ∈ ws, w₀.bare = w.bare) : Counting r' cs' ws' n := by
  refine ⟨fun e' he' hst => ?_, fun x hx e' he' ht hf => ?_, fun w hwm => ?_, fun w hwm e' he' ht => ?_⟩
  · obtain ⟨e, he, hb, hset⟩ := hs.mem he'
    rcases hset.done hst with ⟨hst', hres⟩ | ⟨v, ov, hres, hmem, hov⟩
    · refine (h.done e he hst').settles hs he' hb fun x hx => ?_
      rw [hres, hx]
    · have hlive := hset.live (by rw [hst]; decide)
      refine (h.coming _ hmem e he rfl hlive).settles hs he' hb fun x hx => ?_
      rw [hres, hov x hx]
  · obtain ⟨e, he, hb, hset⟩ := hs.mem he'
    have htag := (RobEntry.fixed_of_bare hb).1
    exact (h.coming x (hc x hx) e he (htag ▸ ht) (hset.live hf)).settles hs he' hb fun _ hx => hx
  · obtain ⟨w₀, hw₀, hb⟩ := hw w hwm
    have hsound : w₀.bare.Sound := ⟨(h.sound w₀ hw₀).counted, (h.sound w₀ hw₀).read⟩
    rw [hb] at hsound
    exact ⟨hsound.counted, hsound.read⟩
  · obtain ⟨w₀, hw₀, hbw⟩ := hw w hwm
    obtain ⟨e, he, hb, -⟩ := hs.mem he'
    have htag : e'.bare.tag = e.bare.tag := congrArg RobEntry.tag hb
    have hwtag : w₀.bare.robTag = w.bare.robTag := congrArg RenameIssueEntry.robTag hbw
    have hd : w₀.bare.Describes e.bare := h.describes w₀ hw₀ e he (htag.symm.trans (ht.trans hwtag.symm))
    rw [hbw, ← hb] at hd
    exact hd

/-- A head that leaves may move the counter: no read is completed or about to be behind it. -/
theorem pop (h : Counting r cs ws n) {e : RobEntry} {rest : List RobEntry} (he : r.entries = e :: rest)
    (hnd : (r.entries.map (·.tag)).Nodup) (hr' : r'.entries = rest) (m : U64) : Counting r' cs ws m := by
  have hold : ∀ x ∈ r'.entries, x ∈ r.entries := fun x hx => by
    rw [he]
    exact List.mem_cons_of_mem _ (hr' ▸ hx)
  have hmove : ∀ x ∈ r'.entries, ∀ v, x.Counts r n v → x.Counts r' m v := by
    intro x hx v hc
    refine ⟨hc.counted, fun hread => ?_⟩
    have hhead := (hc.read hread).1
    rw [he, List.head?_cons, Option.map_some, Option.some.injEq] at hhead
    rw [he, List.map_cons] at hnd
    exact absurd (List.mem_map.mpr ⟨x, hr' ▸ hx, hhead.symm⟩) (List.nodup_cons.mp hnd).1
  exact ⟨fun x hx hst => hmove x hx _ (h.done x (hold x hx) hst),
    fun y hy x hx ht hf => hmove x hx _ (h.coming y hy x (hold x hx) ht hf), h.sound,
    fun w hw x hx ht => h.describes w hw x (hold x hx) ht⟩

/-- Instructions behind the others, each with the entry rename gave it. -/
theorem append (h : Counting r cs ws n) {g : RobEntry → RobEntry} {es : List RobEntry}
    {new : List RenameIssueEntry} (hr' : r'.entries = r.entries.map g ++ es) (hfix : RobEntry.Fixes g)
    (hst : ∀ e, (g e).state = e.state) (hres : ∀ e, (g e).result = e.result)
    (hissued : ∀ e ∈ es, e.state = .issued) (hnd : (r'.entries.map (·.tag)).Nodup)
    (hcs : ∀ x ∈ cs, x.1 ∈ r.entries.map (·.tag)) (hws : ∀ w ∈ ws, w.robTag ∈ r.entries.map (·.tag))
    (hsound : ∀ w ∈ new, w.Sound) (hnew : ∀ w ∈ new, ∃ e ∈ es, e.tag = w.robTag ∧ w.Describes e) :
    Counting r' cs (ws ++ new) n := by
  have hfront : r.Settles cs { r with entries := r.entries.map g } := Rob.Settles.of_map rfl hfix hst hres
  have hold := h.settles hfront (fun _ hx => hx) fun w hw => ⟨w, hw, rfl⟩
  have htags : (r.entries.map g).map (·.tag) = r.entries.map (·.tag) := by
    rw [List.map_map]
    exact List.map_congr_left fun e _ => hfix.tag e
  have hnd' : (r.entries.map (·.tag) ++ es.map (·.tag)).Nodup := by rwa [hr', List.map_append, htags] at hnd
  have hapart : ∀ e ∈ es, e.tag ∉ r.entries.map (·.tag) := fun e he hin =>
    (List.nodup_append.mp hnd').2.2 _ hin _ (List.mem_map_of_mem he) rfl
  -- entries there were count as before, whatever stands behind them
  have hcount : ∀ e ∈ r.entries.map g, ∀ v, e.Counts { r with entries := r.entries.map g } n v → e.Counts r' n v := by
    intro e he v hc
    refine ⟨hc.counted, fun hread => ⟨?_, (hc.read hread).2⟩⟩
    have hhead := (hc.read hread).1
    rw [hr', List.head?_append_of_ne_nil _ (List.ne_nil_of_mem he)]
    exact hhead
  have hcases : ∀ e ∈ r'.entries, e ∈ r.entries.map g ∨ e ∈ es := fun e he => List.mem_append.mp (hr' ▸ he)
  refine ⟨fun e he hc => ?_, fun x hx e he ht hf => ?_, fun w hw => ?_, fun w hw e he ht => ?_⟩
  · rcases hcases e he with ho | hn
    · exact hcount e ho _ (hold.done e ho hc)
    · rw [hissued e hn] at hc
      exact absurd hc (by decide)
  · rcases hcases e he with ho | hn
    · exact hcount e ho _ (hold.coming x hx e ho ht hf)
    · exact absurd (ht ▸ hcs x hx) (hapart e hn)
  · exact (List.mem_append.mp hw).elim (h.sound w) (hsound w)
  · rcases List.mem_append.mp hw with hw' | hw'
    · rcases hcases e he with ho | hn
      · exact hold.describes w hw' e ho ht
      · exact absurd (ht ▸ hws w hw') (hapart e hn)
    · obtain ⟨e₀, he₀, ht₀, hd⟩ := hnew w hw'
      have hin₀ : e₀ ∈ r'.entries := hr' ▸ List.mem_append_right _ he₀
      rw [List.inj_on_of_nodup_map hnd he hin₀ (ht.trans ht₀.symm)]
      exact hd

end Counting

/-! ### Commit -/

namespace Cpu

theorem trap_instret (c : Cpu U) (t : Trap) (epc : U64) :
    (c.trap t epc).instructionsRetired = c.instructionsRetired := by
  simp only [trap, trapToS, trapToM, apply_ite Cpu.instructionsRetired, ite_self]

section

variable [Units U]

/-- Only a write to `minstret` changes the counter. -/
theorem csrWrite_minstret (c : Cpu U) (v : U64) : (c.csrWrite Csr.minstret v).instructionsRetired = v := rfl

theorem csrWrite_instret (c : Cpu U) {a : CsrAddr} (ha : a ≠ Csr.minstret) (v : U64) :
    (c.csrWrite a v).instructionsRetired = c.instructionsRetired := by
  simp only [csrWrite, if_neg ha, apply_ite Cpu.instructionsRetired, trap_instret, ite_self]

theorem writeStoreToMemory_instret (c : Cpu U) (a : PhysAddr) (d : U64) (w : MemWidth) :
    (c.writeStoreToMemory a d w).instructionsRetired = c.instructionsRetired := by
  simp only [writeStoreToMemory, apply_ite Cpu.instructionsRetired, ite_self]

end

end Cpu

section

variable [Units U]

theorem drainOneStore_instret (c : Cpu U) (sb : StoreBuffer) :
    (drainOneStore c sb).1.instructionsRetired = c.instructionsRetired := by
  unfold drainOneStore
  split
  · rfl
  · split
    · dsimp only
      rw [Cpu.writeStoreToMemory_instret]
      split <;> rfl
    · rfl

theorem drainCommitted_instret (c : Cpu U) (es : List StoreBufferEntry) :
    (drainCommitted c es).1.instructionsRetired = c.instructionsRetired := by
  induction es generalizing c with
  | nil => rfl
  | cons e rest ih =>
    rw [drainCommitted_cons]
    cases e.resolution with
    | committed a d =>
      rw [ih, Cpu.writeStoreToMemory_instret]
      split <;> rfl
    | cancelled => exact ih c
    | _ => rfl

namespace CommitState

theorem drainAll_instret (c : CommitState U) :
    c.drainAll.cpu.instructionsRetired = c.cpu.instructionsRetired :=
  drainCommitted_instret c.cpu c.sb.entries

omit [Units U] in
theorem retireReg_instret (c : CommitState U) (e : RobEntry) :
    (c.retireReg e).cpu.instructionsRetired = c.cpu.instructionsRetired := by
  unfold retireReg
  dsimp only
  split
  · rfl
  · split <;> rfl

theorem retireRecords_instret (c : CommitState U) (e : RobEntry) :
    (c.retireRecords e).cpu.instructionsRetired = c.cpu.instructionsRetired := by
  unfold retireRecords
  dsimp only
  split
  · split
    · exact Cpu.writeStoreToMemory_instret _ _ _ _
    · rfl
  · split
    · exact Cpu.writeStoreToMemory_instret _ _ _ _
    · rfl

omit [Units U] in
theorem retireMem_instret (c : CommitState U) (e : RobEntry) :
    (c.retireMem e).cpu.instructionsRetired = c.cpu.instructionsRetired := by
  have hst : ∀ b : Bool, (if b then c.cpu.clearReservation else c.cpu).instructionsRetired =
      c.cpu.instructionsRetired := fun b => by cases b <;> rfl
  unfold retireMem
  dsimp only
  split <;> split <;> split <;> first | exact hst _ | rfl

theorem retireFence_instret (c : CommitState U) (e : RobEntry) :
    (c.retireFence e).2.cpu.instructionsRetired = c.cpu.instructionsRetired := by
  have hdrain : (if e.ctrl.systemOp = .fence ∧ ((fencePred e.inst).1 ∨ (fencePred e.inst).2) then c.drainAll
      else c).cpu.instructionsRetired = c.cpu.instructionsRetired := by
    split
    · exact drainAll_instret c
    · rfl
  unfold retireFence
  split
  · exact drainAll_instret c
  · dsimp only
    split
    · exact hdrain
    · exact hdrain

theorem retireTail_instret (c : CommitState U) (e : RobEntry) :
    (c.retireTail e).2.cpu.instructionsRetired = c.cpu.instructionsRetired :=
  (retireFence_instret _ e).trans (retireMem_instret c e)

theorem retireCsr_instret (c : CommitState U) (e : RobEntry) (u : CsrUpdate) :
    (c.retireCsr e u).cpu.instructionsRetired =
      if u.addr = Csr.minstret ∧ u.applied = false then u.newVal else c.cpu.instructionsRetired := by
  have hdrain : (if u.addr = Csr.satp then c.drainAll else c).cpu.instructionsRetired =
      c.cpu.instructionsRetired := by
    split
    · exact drainAll_instret c
    · rfl
  have hsatp : ∀ c' : CommitState U, (if u.addr = Csr.satp then c'.redirectAfter e else c').cpu.instructionsRetired =
      c'.cpu.instructionsRetired := fun c' => by split <;> rfl
  unfold retireCsr
  dsimp only
  rw [hsatp]
  cases u.applied with
  | true => simpa using hdrain
  | false =>
    by_cases ha : u.addr = Csr.minstret
    · simp only [ha, Bool.false_eq_true, if_false, and_self, if_true]
      exact Cpu.csrWrite_minstret _ _
    · simp only [ha, Bool.false_eq_true, if_false, false_and]
      exact (Cpu.csrWrite_instret _ ha _).trans hdrain

theorem retireEffects_instret (c : CommitState U) (e : RobEntry) :
    (c.retireEffects e).2.cpu.instructionsRetired = e.instretWrite.getD c.cpu.instructionsRetired := by
  unfold retireEffects RobEntry.instretWrite
  cases e.csrUpdate with
  | some u =>
    dsimp only
    rw [retireCsr_instret]
    split <;> rfl
  | none =>
    dsimp only
    split
    · rfl
    · rfl
    · unfold retireWfi
      dsimp only
      split <;> rfl
    · split
      · exact retireTail_instret _ e
      · split
        · exact retireTail_instret _ e
        · unfold failSc redirectAfter
          dsimp only
          split <;> rfl
      · exact retireTail_instret c e

/-- **Retiring moves the counter** by one, for a word that counts, or to what the instruction writes. -/
theorem retire_instret (c : CommitState U) (e : RobEntry) (hc : counted e.inst = true) :
    (c.retire e).2.cpu.instructionsRetired = e.instretWrite.getD (c.cpu.instructionsRetired + 1) := by
  have hword : e.inst ≠ 0 ∧ e.inst ≠ 0x13 := by simpa [counted, Inst.nop] using hc
  unfold retire
  rw [retireEffects_instret, retireRecords_instret, retireReg_instret]
  unfold retirePc
  rw [if_pos hword]

end CommitState

/-- The ledger follows the counter. -/
structure Ledger.Follows (l : Ledger) (n : U64) : Prop where
  clean : l.Clean
  isa : l.isa = n
  right : l.Right

namespace Ledger.Follows

variable {l : Ledger} {n : U64}

theorem redirect (h : l.Follows n) : (l.redirect 0).Follows n := ⟨h.clean.redirect, h.isa, h.right⟩

theorem rename (h : l.Follows n) (tags : List RobTag) : (l.rename tags).Follows n :=
  ⟨h.clean.rename tags, h.isa, h.right⟩

theorem decode (h : l.Follows n) {f : Frontend} {renames : Bool} (hd : f.DropsNoNop renames) :
    (l.decode f renames).Follows n := by
  have hclean := h.clean.decode hd
  unfold Ledger.decode at hclean ⊢
  split
  · rename_i he
    rw [if_pos he] at hclean
    exact ⟨hclean, h.isa, h.right⟩
  · exact h

end Ledger.Follows

/-- **The commit loop.** -/
theorem commitLoop_counts {cs : Coming} {ws : List RenameIssueEntry} (k : Nat) (c : CommitState U) (l : Ledger)
    (h : Counting c.rob cs ws c.cpu.instructionsRetired) (hnd : (c.rob.entries.map (·.tag)).Nodup)
    (hl : l.Follows c.cpu.instructionsRetired) : ∃ gone, c.rob.entries = gone ++ (commitLoop k c).2.rob.entries ∧
      (gone.foldl Ledger.leave l).Follows (commitLoop k c).2.cpu.instructionsRetired ∧
      Counting (commitLoop k c).2.rob cs ws (commitLoop k c).2.cpu.instructionsRetired := by
  induction k generalizing c l with
  | zero => exact ⟨[], rfl, hl, h⟩
  | succ k ih =>
    rw [commitLoop]
    cases he : c.rob.entries with
    | nil => exact ⟨[], he.symm, hl, h⟩
    | cons e rest =>
      dsimp only
      by_cases hb : c.headBlocked e
      · rw [if_pos hb]
        exact ⟨[], he.symm, hl, h⟩
      · rw [if_neg hb]
        have hpop : ∀ m, Counting { c.rob with entries := rest } cs ws m := fun m => h.pop he hnd rfl m
        by_cases hf : e.state = .faulted
        · -- a faulted head leaves without retiring
          rw [if_pos hf]
          have hleave : l.leave e = l := by
            unfold Ledger.leave
            rw [if_pos hf, hl.clean.passNops]
          refine ⟨[e], ?_, ?_, ?_⟩
          · unfold CommitState.retireFault
            cases e.trap <;> rfl
          · rw [List.foldl_cons, List.foldl_nil, hleave]
            unfold CommitState.retireFault
            cases e.trap <;> exact hl
          · unfold CommitState.retireFault
            cases e.trap <;> exact hpop _
        · rw [if_neg hf]
          have hst : e.state = .completed := by
            cases hs : e.state with
            | issued => simp [CommitState.headBlocked, hs] at hb
            | completed => rfl
            | faulted => exact absurd hs hf
          have hcount := h.done e (he ▸ List.mem_cons_self) hst
          have hinst := CommitState.retire_instret { c with rob := { c.rob with entries := rest } } e hcount.counted
          have hrob := (CommitState.retire_frame { c with rob := { c.rob with entries := rest } } e).1
          rcases hr : CommitState.retire { c with rob := { c.rob with entries := rest } } e with ⟨go, c'⟩
          rw [hr] at hinst hrob
          dsimp only at hinst hrob
          -- the ledger retires the same instruction, and a read has what the counter was
          have hl' : (l.leave e).Follows c'.cpu.instructionsRetired := by
            unfold Ledger.leave
            rw [if_neg hf]
            refine ⟨hl.clean.retire e, ?_, ?_⟩
            · unfold Ledger.retire
              dsimp only
              rw [hl.clean.passNops, hl.isa, hinst]
            · unfold Ledger.retire Ledger.Right
              dsimp only
              rw [hl.clean.passNops]
              by_cases hread : e.readsInstret = true
              · rw [if_pos hread]
                intro x hx
                rcases List.mem_append.mp hx with hx' | hx'
                · exact hl.right x hx'
                · rw [List.mem_singleton.mp hx', (hcount.read hread).2, hl.isa]
                  rfl
              · rw [if_neg hread]
                exact hl.right
          have h' : Counting c'.rob cs ws c'.cpu.instructionsRetired := hrob ▸ hpop _
          have hentries : c'.rob.entries = rest := by rw [hrob]
          cases go with
          | true =>
            have hnd' : (c'.rob.entries.map (·.tag)).Nodup := by
              rw [hentries]
              rw [he, List.map_cons] at hnd
              exact (List.nodup_cons.mp hnd).2
            obtain ⟨gone, hgone, hfol, hc⟩ := ih c' (l.leave e) h' hnd' hl'
            exact ⟨e :: gone, by rw [List.cons_append, ← hgone, hentries], hfol, hc⟩
          | false => exact ⟨[e], by rw [hentries]; rfl, hl', h'⟩

/-- **Commit.** The ledger follows, and what is left still counts. -/
theorem commitStage_counts {cs : Coming} {ws : List RenameIssueEntry} {c : CommitState U} {l : Ledger} (width : Nat)
    (h : Counting c.rob cs ws c.cpu.instructionsRetired) (hnd : (c.rob.entries.map (·.tag)).Nodup)
    (hl : l.Follows c.cpu.instructionsRetired) :
    (l.commit c (commitStage c width).2).Follows (commitStage c width).2.cpu.instructionsRetired ∧
      Counting (commitStage c width).2.rob cs ws (commitStage c width).2.cpu.instructionsRetired := by
  unfold Ledger.commit commitStage
  cases hi : checkInterrupts c.cpu with
  | some t =>
    simp only [Option.isSome_some, if_true]
    refine ⟨?_, h⟩
    split
    · exact hl
    · split
      · exact hl
      · rw [hl.clean.passNops]
        exact hl
  | none =>
    simp only [Option.isSome_none, Bool.false_eq_true, if_false]
    by_cases hw : c.cpu.wfiWaiting = true
    · rw [if_pos hw]
      have hwake : (wfiWake c.cpu).instructionsRetired = c.cpu.instructionsRetired := by
        unfold wfiWake
        split <;> rfl
      dsimp only
      rw [Nat.sub_self, List.take_zero, List.foldl_nil, hwake]
      exact ⟨hl, h⟩
    · rw [if_neg hw]
      obtain ⟨gone, hgone, hfol, hc⟩ := commitLoop_counts width c l h hnd hl
      dsimp only
      have htake : c.rob.entries.take (c.rob.len - (commitLoop width c).2.rob.len) = gone := by
        unfold Rob.len
        rw [hgone, List.length_append, Nat.add_sub_cancel_right]
        exact List.take_left
      rw [htake, drainOneStore_instret]
      exact ⟨hfol, hc⟩

end

end Rvsim
