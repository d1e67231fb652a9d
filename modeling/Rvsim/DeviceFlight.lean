/-
# Device loads in flight

What both engines share of a tick in an orderly state. The loads that have read
and those that memory2 passes lie along the buffer, and a load that retires has
been noted: every completed load came past memory2, and what is noted of it is
what its control signals stand for where its access landed.

Key definitions:
  - `DeviceView.Sound`, `DeviceView.Reaches`, `DeviceTick.From`
  - `Tracked`, `DeviceLog.Knows`, `DeviceLog.Accounts`
Key theorems:
  - `DeviceView.Sound.along`, `DeviceView.Reaches.passes`, `DeviceView.Orderly.commits`
  - `DeviceLog.served`, `DeviceLog.Accounts.after`, `DeviceLog.Accounts.append`
-/
import Rvsim.DeviceStages

namespace Rvsim

variable {U : Type}

/-! ### Orderly states -/

namespace Rob

variable {r : Rob} {t keep violating : RobTag}

/-- A squash behind `keep` keeps what is in front of it. -/
theorem mem_flushAfter (hnd : r.tags.Nodup) (h : Ledger.InFront r.tags t keep) : t ∈ (r.flushAfter keep).tags := by
  obtain ⟨e, he, rfl⟩ := List.mem_map.mp h.right
  obtain ⟨pre, post, hsplit⟩ := List.append_of_mem he
  have htags : r.tags = pre.map (·.tag) ++ e.tag :: post.map (·.tag) := by
    unfold tags
    rw [hsplit, List.map_append, List.map_cons]
  have hpre : t ∈ pre.map (·.tag) := by
    rw [htags] at h hnd
    exact h.mem_front hnd
  unfold flushAfter tags
  rw [keepThrough_split hsplit hnd, List.map_append]
  exact List.mem_append_left _ hpre

/-- A squash from a load on keeps what is in front of the load. -/
theorem prevTagOf_inFront (hnd : r.tags.Nodup) (h : Ledger.InFront r.tags t violating) :
    ∃ keep, r.prevTagOf violating = some keep ∧ t ∈ (r.flushAfter keep).tags := by
  have hscan : ∀ (pre : List RobEntry) (prev : Option RobTag) (e x : RobEntry) (post : List RobEntry),
      (∀ y ∈ pre, y.tag ≠ violating) → e.tag ≠ violating → x.tag = violating →
        prevTagFrom violating prev (pre ++ e :: x :: post) = some e.tag := by
    intro pre
    induction pre with
    | nil =>
      intro prev e x post _ he hx
      rw [List.nil_append, prevTagFrom, if_neg he, prevTagFrom, if_pos hx]
    | cons y pre ih =>
      intro prev e x post hpre he hx
      rw [List.cons_append, prevTagFrom, if_neg (hpre y List.mem_cons_self)]
      exact ih _ e x post (fun z hz => hpre z (List.mem_cons_of_mem _ hz)) he hx
  obtain ⟨x, hx, hxt⟩ := List.mem_map.mp h.right
  obtain ⟨front, post, hsplit⟩ := List.append_of_mem hx
  have htags : r.tags = front.map (·.tag) ++ violating :: post.map (·.tag) := by
    unfold tags
    rw [hsplit, List.map_append, List.map_cons, hxt]
  have hnd' := hnd
  rw [htags] at h hnd'
  have hfront : t ∈ front.map (·.tag) := h.mem_front hnd'
  have hne : ∀ y ∈ front, y.tag ≠ violating := fun y hy heq =>
    (List.nodup_append.mp hnd').2.2 y.tag (List.mem_map_of_mem hy) violating List.mem_cons_self heq
  rcases List.eq_nil_or_concat front with rfl | ⟨pre, e, rfl⟩
  · exact absurd hfront List.not_mem_nil
  · rw [List.concat_eq_append] at hsplit hfront hne
    rw [List.append_assoc, List.singleton_append] at hsplit
    refine ⟨e.tag, ?_, ?_⟩
    · unfold prevTagOf
      rw [hsplit]
      exact hscan pre none e x post (fun y hy => hne y (List.mem_append_left _ hy))
        (hne e (List.mem_append_right _ (List.mem_singleton_self e))) hxt
    · unfold flushAfter tags
      rw [keepThrough_split hsplit hnd]
      exact hfront

end Rob

namespace DeviceView

/-- What waits to issue and what is in front of memory2 or behind it is in the buffer, unfinished, and there once. -/
structure Sound (v : DeviceView U) (waiting : List RobTag) : Prop where
  named : v.rob.tags.Nodup
  front : (v.front.map (·.robTag)).Nodup
  apart : ∀ t ∈ waiting ++ v.front.map (·.robTag), t ∉ v.past
  waits : ∀ t ∈ waiting, t ∉ v.front.map (·.robTag)
  unfinished : ∀ t ∈ waiting ++ v.front.map (·.robTag), ∃ e ∈ v.rob.entries, e.tag = t ∧ e.state ≠ .completed

variable {v : DeviceView U} {w : List RobTag} {pend : List (RobTag × DeviceRead)} {t : RobTag} {m m' : Mem1Mem2Entry}

/-- The latch in front of memory2 and what is parked, around the latch behind it. -/
theorem nodup_front {a b c : List RobTag} (h : (a ++ (b ++ c)).Nodup) : (a ++ c).Nodup ∧ ∀ t ∈ a ++ c, t ∉ b := by
  obtain ⟨ha, hbc, hapart⟩ := List.nodup_append.mp h
  obtain ⟨-, hc, hbc'⟩ := List.nodup_append.mp hbc
  refine ⟨List.nodup_append.mpr ⟨ha, hc, fun x hx y hy => hapart x hx y (List.mem_append_right _ hy)⟩, ?_⟩
  intro t ht hb
  rcases List.mem_append.mp ht with ht | ht
  · exact hapart t ht t (List.mem_append_left _ hb) rfl
  · exact hbc' t hb t ht rfl

theorem mem_reading : m ∈ v.reading ↔ m ∈ v.front ∧ m.trap = none ∧ (m.deviceRead v.cpu).isSome = true := by
  unfold reading
  rw [List.mem_filter, Bool.and_eq_true, Option.isNone_iff_eq_none]

theorem mem_storing : m ∈ v.storing ↔ m ∈ v.front ∧ m.trap = none ∧ m.ctrl.resolves = true := by
  unfold storing
  rw [List.mem_filter, Bool.and_eq_true, Option.isNone_iff_eq_none]

namespace Sound

theorem mem_tags (hv : v.Sound w) (ht : t ∈ w ++ v.front.map (·.robTag)) : t ∈ v.rob.tags := by
  obtain ⟨e, he, rfl, -⟩ := hv.unfinished t ht
  exact List.mem_map_of_mem he

/-- What waits, or is in front of memory2, is through only with its tag among the others. -/
theorem mem_past (hv : v.Sound w) (ht : t ∈ w ++ v.front.map (·.robTag)) {past : List RobTag} {e : RobEntry}
    (he : e ∈ v.rob.entries) (htag : e.tag = t) (h : e.Through past) : t ∈ past := by
  obtain ⟨x, hx, hxt, hst⟩ := hv.unfinished t ht
  have heq : e = x := List.inj_on_of_nodup_map hv.named he hx (htag.trans hxt.symm)
  rcases h.ran with hc | ⟨-, hin⟩
  · exact absurd (heq ▸ hc) hst
  · exact htag ▸ hin

/-- A load that has read stands in front of what waits and of what is in front of memory2. -/
theorem pend_inFront (hv : v.Sound w) (ho : v.Orderly pend) (hal : Ledger.Along v.rob.tags pend)
    {x : RobTag × DeviceRead} (hx : x ∈ pend) (ht : t ∈ w ++ v.front.map (·.robTag)) :
    Ledger.InFront v.rob.tags x.1 t := by
  have hout : ∀ e ∈ v.rob.entries, e.tag = t → ¬(e.tag = x.1 ∨ Ledger.InFront v.rob.tags e.tag x.1) :=
    fun e he htag h => hv.apart t ht (hv.mem_past ht he htag (ho.read x hx e he h))
  obtain ⟨e, he, htag, -⟩ := hv.unfinished t ht
  have hno := hout e he htag
  rw [htag] at hno
  refine (Ledger.InFront.total (hal.mem hx) (hv.mem_tags ht) fun heq => hno (Or.inl heq.symm)).resolve_right ?_
  exact fun h => hno (Or.inr h)

theorem mem_front_of_ahead (h : t ∈ v.ahead m) : t ∈ v.front.map (·.robTag) := by
  obtain ⟨a, ha, rfl⟩ := List.mem_map.mp h
  exact List.mem_map_of_mem (List.mem_of_mem_filter ha)

/-- So does a load about to read, of what waits. -/
theorem reading_inFront_waiting (hv : v.Sound w) (ho : v.Orderly pend) (hm : m ∈ v.reading) (ht : t ∈ w) :
    Ledger.InFront v.rob.tags m.robTag t := by
  have hfront : m.robTag ∈ v.front.map (·.robTag) := List.mem_map_of_mem (mem_reading.mp hm).1
  have ht' : t ∈ w ++ v.front.map (·.robTag) := List.mem_append_left _ ht
  have hne : m.robTag ≠ t := fun heq => hv.waits t ht (heq ▸ hfront)
  refine (Ledger.InFront.total (hv.mem_tags (List.mem_append_right _ hfront)) (hv.mem_tags ht') hne).resolve_right ?_
  intro h
  obtain ⟨e, he, htag, -⟩ := hv.unfinished t ht'
  have hpast := hv.mem_past ht' he htag (ho.next m hm e he (htag ▸ h))
  rcases List.mem_append.mp hpast with hp | hp
  · exact hv.apart t ht' hp
  · exact hv.waits t ht (mem_front_of_ahead hp)

/-- Two loads about to read stand in the order in which memory2 takes them. -/
theorem reading_inFront (hv : v.Sound w) (ho : v.Orderly pend) (hm : m ∈ v.reading) (hm' : m' ∈ v.reading)
    (hne : m.robTag ≠ m'.robTag) (hle : m.robTag.toNat ≤ m'.robTag.toNat) :
    Ledger.InFront v.rob.tags m.robTag m'.robTag := by
  have hin : ∀ x ∈ v.reading, x.robTag ∈ w ++ v.front.map (·.robTag) := fun x hx =>
    List.mem_append_right _ (List.mem_map_of_mem (mem_reading.mp hx).1)
  refine (Ledger.InFront.total (hv.mem_tags (hin m hm)) (hv.mem_tags (hin m' hm')) hne).resolve_right ?_
  intro h
  obtain ⟨e, he, htag, -⟩ := hv.unfinished m'.robTag (hin m' hm')
  have hpast := hv.mem_past (hin m' hm') he htag (ho.next m hm e he (htag ▸ h))
  rcases List.mem_append.mp hpast with hp | hp
  · exact hv.apart _ (hin m' hm') hp
  · -- memory2 takes it before
    obtain ⟨a, ha, hat⟩ := List.mem_map.mp hp
    have hlt := (List.mem_filter.mp ha).2
    rw [Bool.and_eq_true, decide_eq_true_eq, hat] at hlt
    omega

/-- **In the order of the buffer.** The loads that have read, and those that memory2 passes, lie along it. -/
theorem along (hv : v.Sound w) (ho : v.Orderly pend) (hal : Ledger.Along v.rob.tags pend)
    {passed : List (RobTag × DeviceRead)} (hnd : (passed.map Prod.fst).Nodup)
    (hsorted : (passed.map Prod.fst).Pairwise fun a b => a.toNat ≤ b.toNat)
    (hread : ∀ x ∈ passed, x.1 ∈ v.reading.map (·.robTag)) : Ledger.Along v.rob.tags (pend ++ passed) := by
  have hfront : ∀ t ∈ v.reading.map (·.robTag), t ∈ w ++ v.front.map (·.robTag) := by
    intro t ht
    obtain ⟨m, hm, rfl⟩ := List.mem_map.mp ht
    exact List.mem_append_right _ (List.mem_map_of_mem (mem_reading.mp hm).1)
  have hpassed : ∀ t ∈ passed.map Prod.fst, t ∈ v.reading.map (·.robTag) := by
    intro t ht
    obtain ⟨x, hx, rfl⟩ := List.mem_map.mp ht
    exact hread x hx
  unfold Ledger.Along
  rw [List.map_append]
  refine Ledger.sublist_of_inFront hv.named (fun t ht => ?_) (List.pairwise_append.mpr ⟨?_, ?_, fun a ha b hb => ?_⟩)
  · rcases List.mem_append.mp ht with ht | ht
    · exact List.Sublist.subset hal ht
    · exact hv.mem_tags (hfront t (hpassed t ht))
  · exact List.pairwise_iff_forall_sublist.mpr fun hab => List.Sublist.trans hab hal
  · refine (hsorted.and hnd).imp_of_mem fun {a b} ha hb hab => ?_
    obtain ⟨m, hm, rfl⟩ := List.mem_map.mp (hpassed a ha)
    obtain ⟨m', hm', rfl⟩ := List.mem_map.mp (hpassed b hb)
    exact hv.reading_inFront ho hm hm' hab.2 hab.1
  · obtain ⟨x, hx, rfl⟩ := List.mem_map.mp ha
    exact hv.pend_inFront ho hal hx (hfront b (hpassed b hb))

end Sound

end DeviceView

/-! ### Memory2 and commit in an orderly state -/

/-- Memory2 runs in `s` with the latch `es`, in a tick from `v` in which commit leaves the buffer `r`. -/
structure DeviceView.Reaches (v : DeviceView U) (r : Rob) (s : Mem2State U) (es : List Mem1Mem2Entry) : Prop where
  bounds : s.cpu.bounds = v.cpu.bounds
  sb : v.sb.Eases s.sb
  loads : ∀ t ∈ s.loads, t ∈ v.loads
  latch : ∀ m ∈ es, ∃ m' ∈ v.front, ∃ now, m = { m' with completeCycle := now }
  named : (es.map (·.robTag)).Nodup
  buffer : ∀ m ∈ es, m.robTag ∈ r.tags

/-- What memory2 passes in a tick from `v`. -/
structure DeviceView.Passes (v : DeviceView U) (r : Rob) (as : List DeviceAccess) : Prop where
  named : (as.map (·.tag)).Nodup
  sorted : (as.map (·.tag)).Pairwise fun a b => a.toNat ≤ b.toNat
  reading : ∀ a ∈ as, ∃ m ∈ v.reading, a.tag = m.robTag ∧ m.deviceRead v.cpu = some a.read
  buffer : ∀ a ∈ as, a.tag ∈ r.tags
  bus : ∀ a ∈ as, a.bus = true

/-- The tick `t` is from `v`, and commit leaves the buffer `r`. -/
structure DeviceTick.From (t : DeviceTick) (v : DeviceView U) (r : Rob) : Prop where
  split : v.rob.entries = t.popped ++ r.entries
  finished : ∀ e ∈ t.popped, e.state ≠ .issued
  buffer : t.buffer = r.tags
  landed : t.landed = v.landed
  left : t.left.Sublist r.tags
  passes : v.Passes r t.passed

/-- What goes on was parked, and is due. -/
theorem mem_unpark {now : Nat} {done : List MshrEntry} {x : Mem1Mem2Entry} (hx : x ∈ O3.unpark now done) :
    ∃ x' ∈ done.flatMap MshrEntry.parked, x = { x' with completeCycle := now } := by
  obtain ⟨e, he, hx⟩ := List.mem_flatMap.mp hx
  obtain ⟨w, hw, hx⟩ := List.mem_filterMap.mp hx
  obtain ⟨p, hp, rfl⟩ := Option.map_eq_some_iff.mp hx
  exact ⟨p, List.mem_flatMap.mpr ⟨e, he, List.mem_filterMap.mpr ⟨w, hw, hp⟩⟩, rfl⟩

namespace DeviceView

variable {v : DeviceView U} {w : List RobTag} {r : Rob} {s : Mem2State U} {es : List Mem1Mem2Entry}
  {pend : List (RobTag × DeviceRead)}

theorem Passes.nil (v : DeviceView U) (r : Rob) : v.Passes r [] :=
  ⟨List.nodup_nil, List.Pairwise.nil, fun _ h => absurd h List.not_mem_nil, fun _ h => absurd h List.not_mem_nil,
    fun _ h => absurd h List.not_mem_nil⟩

namespace Reaches

theorem deviceRead (h : v.Reaches r s es) (m : Mem1Mem2Entry) : m.deviceRead s.cpu = m.deviceRead v.cpu := by
  unfold Mem1Mem2Entry.deviceRead
  rw [Cpu.landsAt_of_bounds h.bounds]

/-- What the latch holds reads, or resolves, as in `v`. -/
theorem mem_reading (h : v.Reaches r s es) {m : Mem1Mem2Entry} (hm : m ∈ es) (ht : m.trap = none)
    (hr : (m.deviceRead s.cpu).isSome = true) : ∃ m' ∈ v.reading, ∃ now, m = { m' with completeCycle := now } := by
  obtain ⟨m', hm', now, rfl⟩ := h.latch m hm
  rw [h.deviceRead] at hr
  exact ⟨m', DeviceView.mem_reading.mpr ⟨hm', ht, hr⟩, now, rfl⟩

theorem mem_storing (h : v.Reaches r s es) {m : Mem1Mem2Entry} (hm : m ∈ es) (ht : m.trap = none)
    (hr : m.ctrl.resolves = true) : ∃ m' ∈ v.storing, m'.robTag = m.robTag := by
  obtain ⟨m', hm', now, rfl⟩ := h.latch m hm
  exact ⟨m', DeviceView.mem_storing.mpr ⟨hm', ht, hr⟩, rfl⟩

variable [Units U]

/-- **Memory2 in an orderly state** passes loads about to read, in the order of their tags and over the bus. -/
theorem passes (h : v.Reaches r s es) (ho : v.Orderly pend) : v.Passes r (mem2Devices s (sortByRawTag es)) := by
  have hsub := mem2Devices_sublist s (sortByRawTag es)
  have hperm : (sortByRawTag es).Perm es := List.perm_insertionSort _ es
  have hsorted : ((sortByRawTag es).map (·.robTag)).Pairwise fun a b => a.toNat ≤ b.toNat :=
    List.pairwise_map.mpr (List.pairwise_insertionSort (fun a b : Mem1Mem2Entry => a.robTag.toNat ≤ b.robTag.toNat) es)
  have hmem : ∀ a ∈ mem2Devices s (sortByRawTag es), ∃ m ∈ es, m.trap = none ∧ a.tag = m.robTag ∧
      m.deviceRead s.cpu = some a.read := by
    intro a ha
    obtain ⟨m, hm, hrest⟩ := mem_mem2Devices ha
    exact ⟨m, hperm.mem_iff.mp hm, hrest⟩
  refine ⟨((hperm.map _).nodup_iff.mpr h.named).sublist hsub, hsorted.sublist hsub, fun a ha => ?_, fun a ha => ?_,
    mem2Devices_bus fun m hm ht hr hop => ?_⟩
  · obtain ⟨m, hm, ht, htag, hread⟩ := hmem a ha
    obtain ⟨m', hm', now, rfl⟩ := h.mem_reading hm ht (hread ▸ rfl)
    exact ⟨m', hm', htag, (h.deviceRead m').symm.trans hread⟩
  · obtain ⟨m, hm, -, htag, -⟩ := hmem a ha
    exact htag ▸ h.buffer m hm
  · obtain ⟨m', hm', now, rfl⟩ := h.mem_reading (hperm.mem_iff.mp hm) ht hr
    obtain ⟨hno, hnew⟩ := ho.stored m' hm' hop
    refine ⟨h.sb.none hno, fun x hx hxt hres => ?_⟩
    obtain ⟨x', hx', htag⟩ := h.mem_storing (hperm.mem_iff.mp hx) hxt hres
    exact htag ▸ hnew x' hx'

/-- **A violation** squashes behind the loads that have read, and behind those about to. -/
theorem violation (h : v.Reaches r s es) (ho : v.Orderly pend) (hnone : s.violation = none) {t : RobTag} {pc : U64}
    (hv : (memory2Stage s es).2.2.violation = some (t, pc)) :
    ∀ u ∈ pend.map Prod.fst ++ v.reading.map (·.robTag), Ledger.InFront v.rob.tags u t := by
  rcases memory2Loop_violation hv with hold | ⟨m, hm, ht, hres, hload, hnew⟩
  · rw [hnone] at hold
    exact absurd hold (by simp)
  · obtain ⟨m', hm', htag⟩ := h.mem_storing (mem_sortByRawTag.mp hm) ht hres
    exact ho.replay m' hm' t (h.loads t hload) (htag ▸ hnew)

end Reaches

end DeviceView

section

variable [Units U] {v : DeviceView U} {w : List RobTag} {pend : List (RobTag × DeviceRead)} {c : CommitState U}
  {width : Nat}

/-- **Commit stops** neither for a trap nor for a redirect, while a load that has read is in the buffer. -/
theorem DeviceView.Orderly.commits (ho : v.Orderly pend) (hv : v.Sound w) (hrob : c.rob = v.rob)
    (hint : checkInterrupts c.cpu = checkInterrupts v.cpu) (hwait : c.cpu.wfiWaiting = v.cpu.wfiWaiting)
    {x : RobTag × DeviceRead} (hx : x ∈ pend) (hin : x.1 ∈ (commitStage c width).2.rob.tags) :
    (commitStage c width).1 = none ∧ (commitStage c width).2.cpu.pc = c.cpu.pc := by
  obtain ⟨e, he, htag⟩ := List.mem_map.mp hin
  obtain ⟨gone, hgone, -⟩ := commitStage_head c width
  have hmem : e ∈ v.rob.entries := by
    rw [← hrob, hgone]
    exact List.mem_append_right gone he
  obtain ⟨pre, post, hsplit⟩ := List.append_of_mem hmem
  have htags : v.rob.tags = pre.map (·.tag) ++ e.tag :: post.map (·.tag) := by
    unfold Rob.tags
    rw [hsplit, List.map_append, List.map_cons]
  have hnd := hv.named
  rw [htags] at hnd
  have hpost : e ∉ post := fun hp =>
    (List.nodup_cons.mp (List.nodup_append.mp hnd).2.1).1 (List.mem_map_of_mem hp)
  have hpre : ∀ y ∈ pre, y.state ≠ .faulted ∧ (y.state = .completed → y.goesOn = true) := by
    intro y hy
    have hfront : Ledger.InFront v.rob.tags y.tag x.1 := by
      rw [htags, ← htag]
      exact Ledger.InFront.of_mem (List.mem_map_of_mem hy) _
    have hthrough := ho.read x hx y (hsplit ▸ List.mem_append_left _ hy) (Or.inr hfront)
    refine ⟨fun hf => ?_, fun _ => hthrough.goesOn⟩
    rcases hthrough.ran with hst | ⟨hst, -⟩
    · rw [hst] at hf
      exact absurd hf (by decide)
    · rw [hst] at hf
      exact absurd hf (by decide)
  obtain ⟨hquiet, hgoes⟩ := ho.quiet (List.ne_nil_of_mem hx)
  exact commitStage_through (hrob ▸ hsplit) hpost hpre (hint.trans hquiet) (hwait.trans hgoes) he

/-- A tick that commits from the buffer of `v`. -/
theorem DeviceTick.ofRobs_from {after : Rob} {passed : List DeviceAccess} (hrob : c.rob = v.rob)
    (hleft : after.tags.Sublist (commitStage c width).2.rob.tags) (hp : v.Passes (commitStage c width).2.rob passed) :
    (DeviceTick.ofRobs v (commitStage c width).2.rob after passed).From v (commitStage c width).2.rob := by
  obtain ⟨gone, hgone, hfin⟩ := commitStage_head c width
  rw [hrob] at hgone
  have htake : (DeviceTick.ofRobs v (commitStage c width).2.rob after passed).popped = gone := by
    unfold DeviceTick.ofRobs
    have hlen : v.rob.len - (commitStage c width).2.rob.len = gone.length := by
      unfold Rob.len
      rw [hgone, List.length_append]
      omega
    dsimp only
    rw [hlen, hgone, List.take_left]
  refine ⟨?_, ?_, rfl, rfl, hleft, hp⟩
  · rw [htake]
    exact hgone
  · rw [htake]
    exact hfin

end

namespace DeviceLog

variable {l : DeviceLog} {t : DeviceTick} {v : DeviceView U} {r : Rob} {w : List RobTag}

/-- A load that has read, or reads in the tick, was pending or about to read, and is left by commit. -/
theorem mem_held (hf : t.From v r) (hnd : v.rob.tags.Nodup) {x : RobTag × DeviceRead} (hx : x ∈ l.held t) :
    x.1 ∈ l.pend.map Prod.fst ++ v.reading.map (·.robTag) ∧ x.1 ∉ t.popped.map (·.tag) := by
  rcases List.mem_append.mp hx with hx | hx
  · obtain ⟨hpend, hout⟩ := List.mem_filter.mp hx
    exact ⟨List.mem_append_left _ (List.mem_map_of_mem hpend), of_decide_eq_true hout⟩
  · obtain ⟨a, ha, rfl⟩ := List.mem_map.mp hx
    obtain ⟨m, hm, htag, -⟩ := hf.passes.reading a ha
    refine ⟨List.mem_append_right _ (htag ▸ List.mem_map_of_mem hm), fun hin => ?_⟩
    have htags : v.rob.tags = t.popped.map (·.tag) ++ r.tags := by
      unfold Rob.tags
      rw [hf.split, List.map_append]
    rw [htags] at hnd
    exact (List.nodup_append.mp hnd).2.2 a.tag hin a.tag (hf.passes.buffer a ha) rfl

/-- It is in the buffer that commit leaves. -/
theorem mem_committed (hf : t.From v r) (hv : v.Sound w) (hal : Ledger.Along v.rob.tags l.pend)
    {x : RobTag × DeviceRead} (hx : x ∈ l.held t) : x.1 ∈ r.tags := by
  obtain ⟨hin, hout⟩ := mem_held hf hv.named hx
  have hmem : x.1 ∈ v.rob.tags := by
    rcases List.mem_append.mp hin with hp | hp
    · exact List.Sublist.subset hal hp
    · obtain ⟨m, hm, heq⟩ := List.mem_map.mp hp
      exact heq ▸ hv.mem_tags (List.mem_append_right _ (List.mem_map_of_mem (DeviceView.mem_reading.mp hm).1))
  unfold Rob.tags at hmem
  rw [hf.split, List.map_append] at hmem
  exact (List.mem_append.mp hmem).resolve_left hout

/-- What stands behind all these stands behind them when commit is done. -/
theorem held_inFront (hf : t.From v r) (hnd : v.rob.tags.Nodup) {u : RobTag}
    (h : ∀ u' ∈ l.pend.map Prod.fst ++ v.reading.map (·.robTag), Ledger.InFront v.rob.tags u' u) :
    ∀ x ∈ l.held t, Ledger.InFront r.tags x.1 u := by
  intro x hx
  obtain ⟨hin, hout⟩ := mem_held hf hnd hx
  have htags : v.rob.tags = t.popped.map (·.tag) ++ r.tags := by
    unfold Rob.tags
    rw [hf.split, List.map_append]
  exact (htags ▸ h x.1 hin).behind hout

/-- What waits to issue stands behind them. -/
theorem held_inFront_waiting (hf : t.From v r) (hv : v.Sound w) (ho : v.Orderly l.pend)
    (hal : Ledger.Along v.rob.tags l.pend) {u : RobTag} (hu : u ∈ w) :
    ∀ x ∈ l.held t, Ledger.InFront r.tags x.1 u := by
  refine held_inFront hf hv.named fun u' hu' => ?_
  rcases List.mem_append.mp hu' with hu' | hu'
  · obtain ⟨x, hx, rfl⟩ := List.mem_map.mp hu'
    exact hv.pend_inFront ho hal hx (List.mem_append_left _ hu)
  · obtain ⟨m, hm, rfl⟩ := List.mem_map.mp hu'
    exact hv.reading_inFront_waiting ho hm hu

end DeviceLog

/-! ### The committed loads -/

/-- Of every instruction in flight the table `F` has the control signals; `K` holds of the loads that have completed,
and of those that are past memory2. -/
structure Tracked (F : RobTag → Option ControlSignals) (K : RobTag → Prop) (r : Rob)
    (cs : List (RobTag × ControlSignals)) (wbs : List Mem2WbEntry) : Prop where
  entries : ∀ e ∈ r.entries, F e.tag = some e.ctrl
  signals : ∀ x ∈ cs, F x.1 = some x.2
  done : ∀ e ∈ r.entries, e.state = .completed → e.ctrl.loads = true → K e.tag
  written : ∀ wb ∈ wbs, wb.trap = none → wb.ctrl.loads = true → K wb.robTag

namespace Tracked

variable {F : RobTag → Option ControlSignals} {K : RobTag → Prop} {r r' : Rob} {cs cs' : List (RobTag × ControlSignals)}
  {wbs wbs' : List Mem2WbEntry} {d : Coming}

/-- **Stages** complete what is no load, or what is past memory2. -/
theorem settles (h : Tracked F K r cs wbs) (hs : r.Settles d r')
    (hco : ∀ x ∈ d, ∀ c, F x.1 = some c → c.loads = true → K x.1) (hcs : ∀ x ∈ cs', x ∈ cs)
    (hwb : ∀ wb ∈ wbs', wb ∈ wbs) : Tracked F K r' cs' wbs' := by
  have hfixed : ∀ {e e' : RobEntry}, e'.bare = e.bare → e'.tag = e.tag ∧ e'.ctrl = e.ctrl := fun hb =>
    ⟨by simpa using congrArg RobEntry.tag hb, by simpa using congrArg RobEntry.ctrl hb⟩
  refine ⟨fun e' he' => ?_, fun x hx => h.signals x (hcs x hx), fun e' he' hst hl => ?_,
    fun wb hw => h.written wb (hwb wb hw)⟩
  · obtain ⟨e, he, hb, -⟩ := hs.mem he'
    obtain ⟨htag, hctrl⟩ := hfixed hb
    rw [htag, hctrl]
    exact h.entries e he
  · obtain ⟨e, he, hb, hset⟩ := hs.mem he'
    obtain ⟨htag, hctrl⟩ := hfixed hb
    rw [hctrl] at hl
    rw [htag]
    rcases hset.done hst with ⟨hc, -⟩ | ⟨v, ov, -, hmem, -⟩
    · exact h.done e he hc hl
    · exact hco _ hmem e.ctrl (h.entries e he) hl

/-- Nothing completes. -/
theorem front (h : Tracked F K r cs wbs) (hr : r'.entries <+: r.entries) (hcs : ∀ x ∈ cs', x ∈ cs)
    (hwb : ∀ wb ∈ wbs', wb ∈ wbs) : Tracked F K r' cs' wbs' :=
  h.settles (d := []) (Rob.Settles.front hr) (fun _ hx => absurd hx List.not_mem_nil) hcs hwb

/-- Everything is dropped. -/
theorem emptied {K' : RobTag → Prop} (h : Tracked F K r cs wbs) (hr : r'.entries = []) (hwb : wbs' = [])
    (hcs : ∀ x ∈ cs', x ∈ cs) : Tracked F K' r' cs' wbs' := by
  refine ⟨?_, fun x hx => h.signals x (hcs x hx), ?_, ?_⟩
  · rw [hr]
    exact fun _ h => absurd h List.not_mem_nil
  · rw [hr]
    exact fun _ h => absurd h List.not_mem_nil
  · rw [hwb]
    exact fun _ h => absurd h List.not_mem_nil

theorem mono {K' : RobTag → Prop} (h : Tracked F K r cs wbs) (hdone : ∀ e ∈ r.entries, K e.tag → K' e.tag)
    (hwb : ∀ wb ∈ wbs, K wb.robTag → K' wb.robTag) : Tracked F K' r cs wbs :=
  ⟨h.entries, h.signals, fun e he hst hl => hdone e he (h.done e he hst hl),
    fun wb hw ht hl => hwb wb hw (h.written wb hw ht hl)⟩

/-- Writeback. -/
theorem writebackOne {wb : Mem2WbEntry} (h : Tracked F K r cs (wb :: wbs)) (hin : (wb.robTag, wb.ctrl) ∈ cs)
    (hcs : ∀ x ∈ cs', x ∈ cs) : Tracked F K (Rvsim.writebackOne r wb) cs' wbs := by
  cases ht : wb.trap with
  | some t =>
    refine h.settles (d := []) ?_ (fun _ hx => absurd hx List.not_mem_nil) hcs fun _ hx => List.mem_cons_of_mem _ hx
    unfold Rvsim.writebackOne
    rw [ht]
    exact Rob.Settles.fault _ _
  | none =>
    refine h.settles (writebackOne_settles r (List.mem_singleton_self wb.coming)) (fun x hx c hc hl => ?_) hcs
      fun _ hx => List.mem_cons_of_mem _ hx
    rw [List.mem_singleton.mp hx] at hc ⊢
    have hctrl : some wb.ctrl = some c := (h.signals _ hin).symm.trans hc
    exact h.written wb List.mem_cons_self ht (Option.some.inj hctrl ▸ hl)

end Tracked

namespace DeviceLog

variable {l : DeviceLog} {t : DeviceTick}

/-- Where the access of the instruction lands is known, and if it reads a device there, its read is pending. -/
def Knows (F : RobTag → Option ControlSignals) (landings : RobTag → Option Landing)
    (pend : List (RobTag × DeviceRead)) (t : RobTag) : Prop :=
  ∃ c p, F t = some c ∧ landings t = some p ∧ ∀ r, c.deviceRead p = some r → (t, r) ∈ pend

/-- The read of a pending load is that of its control signals where its access landed. -/
def Recorded (F : RobTag → Option ControlSignals) (landings : RobTag → Option Landing)
    (pend : List (RobTag × DeviceRead)) : Prop :=
  ∀ x ∈ pend, ∃ c p, F x.1 = some c ∧ landings x.1 = some p ∧ c.deviceRead p = some x.2

theorem recordOf_mem {T A : Type} [DecidableEq T] {pend : List (T × A)} {t : T} {a : A}
    (h : Ledger.recordOf pend t = some a) : (t, a) ∈ pend := by
  obtain ⟨x, hx, rfl⟩ := Option.map_eq_some_iff.mp h
  have ht : x.1 = t := by simpa using List.find?_some hx
  rw [← ht]
  exact List.mem_of_find?_eq_some hx

theorem recordOf_isSome {T A : Type} [DecidableEq T] {pend : List (T × A)} {x : T × A} (h : x ∈ pend) :
    (Ledger.recordOf pend x.1).isSome = true := by
  unfold Ledger.recordOf
  rw [Option.isSome_map, List.find?_isSome]
  exact ⟨x, h, by simp⟩

/-- A retiring instruction should have read what is pending under its tag. -/
theorem loadsOf_eq {F : RobTag → Option ControlSignals} {e : RobEntry} (hF : F e.tag = some e.ctrl)
    (hknows : e.ctrl.loads = true → Knows F l.landings l.pend e.tag) (hrec : Recorded F l.landings l.pend) :
    l.loadsOf e = (Ledger.recordOf l.pend e.tag).toList.map some := by
  have hpending : ∀ r, Ledger.recordOf l.pend e.tag = some r → ∃ p, l.landings e.tag = some p ∧
      e.ctrl.deviceRead p = some r := by
    intro r hr
    obtain ⟨c, p, hc, hp, hread⟩ := hrec _ (recordOf_mem hr)
    rw [hF] at hc
    exact ⟨p, hp, Option.some.inj hc ▸ hread⟩
  unfold loadsOf
  by_cases hl : e.ctrl.loads = true
  · obtain ⟨c, p, hc, hp, hpend⟩ := hknows hl
    rw [hF] at hc
    obtain rfl := Option.some.inj hc
    rw [if_pos hl, hp]
    dsimp only
    congr 2
    cases hr : Ledger.recordOf l.pend e.tag with
    | some r =>
      obtain ⟨p', hp', hread⟩ := hpending r hr
      rw [hp] at hp'
      rw [Option.some.inj hp', hread]
    | none =>
      cases hread : e.ctrl.deviceRead p with
      | none => rfl
      | some r =>
        have hsome := recordOf_isSome (hpend r hread)
        rw [hr] at hsome
        exact absurd hsome Bool.false_ne_true
  · rw [if_neg hl]
    cases hr : Ledger.recordOf l.pend e.tag with
    | none => rfl
    | some r =>
      obtain ⟨p, -, hread⟩ := hpending r hr
      exact absurd (ControlSignals.loads_of_deviceRead hread) hl

theorem flatMap_loadsOf {es : List RobEntry}
    (h : ∀ e ∈ es, l.loadsOf e = (Ledger.recordOf l.pend e.tag).toList.map some) :
    es.flatMap l.loadsOf = ((es.map (·.tag)).filterMap (Ledger.recordOf l.pend)).map some := by
  induction es with
  | nil => rfl
  | cons e es ih =>
    rw [List.flatMap_cons, h e List.mem_cons_self, ih fun x hx => h x (List.mem_cons_of_mem _ hx), List.map_cons]
    cases hr : Ledger.recordOf l.pend e.tag with
    | none => rw [List.filterMap_cons_none hr]; rfl
    | some r => rw [List.filterMap_cons_some hr]; rfl

/-! ### What a tick notes -/

section

variable {landings : RobTag → Option Landing} {new : List (RobTag × Landing)} {u : RobTag} {p : Landing}

theorem note_of_not_mem (h : u ∉ new.map Prod.fst) : note landings new u = landings u := by
  induction new generalizing landings with
  | nil => rfl
  | cons x new ih =>
    rw [List.map_cons, List.mem_cons, not_or] at h
    exact (ih h.2).trans (Function.update_of_ne h.1 _ _)

theorem note_of_mem (hnd : (new.map Prod.fst).Nodup) (h : (u, p) ∈ new) : note landings new u = some p := by
  induction new generalizing landings with
  | nil => exact absurd h List.not_mem_nil
  | cons x new ih =>
    obtain ⟨hx, hnd'⟩ := List.nodup_cons.mp hnd
    rcases List.mem_cons.mp h with rfl | h
    · exact (note_of_not_mem hx).trans (Function.update_self _ _ _)
    · exact ih hnd' h

end

section

variable {v : DeviceView U} {r : Rob} {w : List RobTag} {F : RobTag → Option ControlSignals}
  {cs cs' : List (RobTag × ControlSignals)} {wbs wbs' : List Mem2WbEntry}

/-- Of what is not in front of memory2 nothing new is noted. -/
theorem landings_of_not_front (hf : t.From v r) {u : RobTag} (hu : u ∉ v.front.map (·.robTag)) :
    (l.after t).landings u = l.landings u := by
  refine note_of_not_mem ?_
  rw [hf.landed]
  unfold DeviceView.landed
  rw [List.map_map]
  exact hu

theorem landings_of_front (hf : t.From v r) (hv : v.Sound w) {m : Mem1Mem2Entry} (hm : m ∈ v.front) :
    (l.after t).landings m.robTag = some (v.cpu.landsAt m.paddr) := by
  refine note_of_mem ?_ ?_
  · rw [hf.landed]
    unfold DeviceView.landed
    rw [List.map_map]
    exact hv.front
  · rw [hf.landed]
    exact List.mem_map_of_mem (f := fun m : Mem1Mem2Entry => (m.robTag, v.cpu.landsAt m.paddr)) hm

/-- **What is pending** is what the log knows of it, behind a tick too. -/
theorem Recorded.held (h : Recorded F l.landings l.pend) (hf : t.From v r) (hv : v.Sound w) (ho : v.Orderly l.pend)
    (hal : Ledger.Along v.rob.tags l.pend) (hsig : ∀ m ∈ v.front, F m.robTag = some m.ctrl) :
    Recorded F (l.after t).landings (l.held t) := by
  intro x hx
  rcases List.mem_append.mp hx with hx | hx
  · have hpend := List.mem_of_mem_filter hx
    have hout : x.1 ∉ v.front.map (·.robTag) := fun hin =>
      (hv.pend_inFront ho hal hpend (List.mem_append_right _ hin)).ne hv.named rfl
    rw [landings_of_not_front hf hout]
    exact h x hpend
  · obtain ⟨a, ha, rfl⟩ := List.mem_map.mp hx
    obtain ⟨m, hm, htag, hread⟩ := hf.passes.reading a ha
    have hfront := (DeviceView.mem_reading.mp hm).1
    refine ⟨m.ctrl, v.cpu.landsAt m.paddr, ?_, ?_, hread⟩
    · exact (congrArg F htag).trans (hsig m hfront)
    · exact (congrArg (l.after t).landings htag).trans (landings_of_front hf hv hfront)

/-- **Commit** leaves what the log knows of the others. -/
theorem Knows.committed (h : Tracked F (Knows F l.landings l.pend) v.rob cs wbs) (hf : t.From v r) (hv : v.Sound w)
    (hpast : ∀ wb ∈ wbs, wb.robTag ∈ v.past) (hwbs : ∀ wb ∈ wbs, wb.robTag ∈ r.tags) (hcs : ∀ x ∈ cs', x ∈ cs) :
    Tracked F (Knows F (l.after t).landings (l.held t)) r cs' wbs := by
  have htags : v.rob.tags = t.popped.map (·.tag) ++ r.tags := by
    unfold Rob.tags
    rw [hf.split, List.map_append]
  have hnd := hv.named
  rw [htags] at hnd
  have hkeep : ∀ u ∈ r.tags, u ∉ v.front.map (·.robTag) → Knows F l.landings l.pend u →
      Knows F (l.after t).landings (l.held t) u := by
    rintro u hu hout ⟨c, p, hc, hp, hpend⟩
    refine ⟨c, p, hc, (landings_of_not_front hf hout).trans hp, fun d hd => List.mem_append_left _ ?_⟩
    refine List.mem_filter.mpr ⟨hpend d hd, decide_eq_true fun hin => ?_⟩
    exact (List.nodup_append.mp hnd).2.2 u hin u hu rfl
  have hin : ∀ e ∈ r.entries, e ∈ v.rob.entries := fun e he => hf.split ▸ List.mem_append_right _ he
  refine ⟨fun e he => h.entries e (hin e he), fun x hx => h.signals x (hcs x hx), fun e he hst hl => ?_,
    fun wb hwb ht hl => ?_⟩
  · refine hkeep e.tag (List.mem_map_of_mem he) (fun hfront => ?_) (h.done e (hin e he) hst hl)
    obtain ⟨x, hx, hxt, hxs⟩ := hv.unfinished e.tag (List.mem_append_right _ hfront)
    have heq : x = e := List.inj_on_of_nodup_map hv.named hx (hin e he) hxt
    exact hxs (heq ▸ hst)
  · exact hkeep wb.robTag (hwbs wb hwb) (fun hfront => hv.apart _ (List.mem_append_right _ hfront) (hpast wb hwb))
      (h.written wb hwb ht hl)

/-- **Memory2** leaves what the log has just noted. -/
theorem Knows.memory2 [Units U] {r' : Rob} {s : Mem2State U} {es : List Mem1Mem2Entry}
    (h : Tracked F (Knows F (l.after t).landings (l.held t)) r' cs []) (hf : t.From v r) (hv : v.Sound w)
    (hr : v.Reaches r s es) (hpassed : t.passed = mem2Devices s (sortByRawTag es))
    (hsig : ∀ m ∈ v.front, F m.robTag = some m.ctrl) (hcs : ∀ x ∈ cs', x ∈ cs) :
    Tracked F (Knows F (l.after t).landings (l.held t)) r' cs' (memory2Stage s es).2.1 := by
  refine ⟨h.entries, fun x hx => h.signals x (hcs x hx), h.done, fun wb hwb ht hl => ?_⟩
  obtain ⟨m, hm, hmt, htag, hctrl, hnote⟩ := memory2Loop_noted wb hwb ht
  obtain ⟨m', hm', now, rfl⟩ := hr.latch m (mem_sortByRawTag.mp hm)
  rw [htag]
  refine ⟨m'.ctrl, v.cpu.landsAt m'.paddr, hsig m' hm', landings_of_front hf hv (m := m') hm', fun d hd => ?_⟩
  obtain ⟨a, ha, hat, har⟩ := hnote d ((hr.deviceRead m').trans hd)
  refine List.mem_append_right _ (List.mem_map.mpr ⟨a, hpassed ▸ ha, ?_⟩)
  rw [hat, har]

/-- **An orderly tick** serves the loads that commit. -/
theorem served (hf : t.From v r) (hv : v.Sound w) (ho : v.Orderly l.pend) (hal : Ledger.Along v.rob.tags l.pend)
    (h : Tracked F (Knows F l.landings l.pend) v.rob cs wbs) (hrec : Recorded F l.landings l.pend)
    (hkept : ∀ x ∈ l.held t, x.1 ∈ t.left) : t.live = v.rob.tags ∧ l.Served t := by
  have htags : v.rob.tags = t.popped.map (·.tag) ++ r.tags := by
    unfold Rob.tags
    rw [hf.split, List.map_append]
  have hlive : t.live = v.rob.tags := by
    rw [htags]
    unfold DeviceTick.live
    rw [hf.buffer]
  have hnd := hv.named
  rw [htags] at hnd
  have hin : ∀ e ∈ t.popped, e ∈ v.rob.entries := fun e he => hf.split ▸ List.mem_append_left _ he
  refine ⟨hlive, ⟨hlive ▸ hv.named, hf.buffer ▸ hf.left, fun x hx hpop => ?_, flatMap_loadsOf fun e he => ?_, ?_, hkept,
    hf.passes.bus⟩⟩
  · -- its entry has run, and has not faulted
    obtain ⟨e, he, htag⟩ := List.mem_map.mp hpop
    refine List.mem_map.mpr ⟨e, List.mem_filter.mpr ⟨he, ?_⟩, htag⟩
    rcases (ho.read x hx e (hin e he) (Or.inl htag)).ran with hst | ⟨hst, -⟩
    · rw [hst]
      rfl
    · rw [hst]
      rfl
  · obtain ⟨hpop, hst⟩ := List.mem_filter.mp he
    refine loadsOf_eq (h.entries e (hin e hpop)) (fun hl => h.done e (hin e hpop) ?_ hl) hrec
    have hissued := hf.finished e hpop
    cases hs : e.state with
    | issued => exact absurd hs hissued
    | completed => rfl
    | faulted =>
      rw [hs] at hst
      exact absurd hst (by decide)
  · -- what is pending and what memory2 passes lies along the buffer
    have hall : Ledger.Along v.rob.tags (l.pend ++ t.notes) := by
      have hfst : t.notes.map Prod.fst = t.passed.map (·.tag) := by
        unfold DeviceTick.notes
        rw [List.map_map]
        rfl
      refine hv.along ho hal (hfst ▸ hf.passes.named) (hfst ▸ hf.passes.sorted) fun x hx => ?_
      obtain ⟨a, ha, rfl⟩ := List.mem_map.mp hx
      obtain ⟨m, hm, htag, -⟩ := hf.passes.reading a ha
      exact htag ▸ List.mem_map_of_mem hm
    have hheld : (l.pend ++ t.notes).filter (fun x => x.1 ∉ t.popped.map (·.tag)) = l.held t := by
      rw [List.filter_append]
      refine congrArg _ (List.filter_eq_self.mpr fun x hx => decide_eq_true ?_)
      have hin : x ∈ l.held t := List.mem_append_right _ hx
      exact (mem_held hf hv.named hin).2
    rw [htags] at hall
    rw [hf.buffer, ← hheld]
    exact (hall.serve hnd (List.Sublist.refl _) fun _ _ h => h).2

end

/-! ### Runs -/

section

variable {r r' : Rob} {cs cs' : List (RobTag × ControlSignals)} {wbs wbs' : List Mem2WbEntry}

/-- The log has what the instructions in flight will account for. -/
def Accounts (l : DeviceLog) (r : Rob) (cs : List (RobTag × ControlSignals)) (wbs : List Mem2WbEntry) : Prop :=
  ∃ F, Tracked F (Knows F l.landings l.pend) r cs wbs ∧ Recorded F l.landings l.pend

theorem accounts_init (hr : r.entries = []) : ({} : DeviceLog).Accounts r [] [] := by
  refine ⟨fun _ => none, ⟨?_, fun _ h => absurd h List.not_mem_nil, ?_, fun _ h => absurd h List.not_mem_nil⟩,
    fun _ h => absurd h List.not_mem_nil⟩
  · rw [hr]
    exact fun _ h => absurd h List.not_mem_nil
  · rw [hr]
    exact fun _ h => absurd h List.not_mem_nil

/-- At the end of a tick. -/
theorem Accounts.after {F : RobTag → Option ControlSignals}
    (h : Tracked F (Knows F (l.after t).landings (l.held t)) r cs wbs)
    (hrec : Recorded F (l.after t).landings (l.held t)) (hleft : t.left = r.tags)
    (hwbs : ∀ wb ∈ wbs, wb.robTag ∈ r.tags) : (l.after t).Accounts r cs wbs := by
  have hkeep : ∀ u ∈ r.tags, Knows F (l.after t).landings (l.held t) u →
      Knows F (l.after t).landings (l.after t).pend u := by
    rintro u hu ⟨c, p, hc, hp, hpend⟩
    exact ⟨c, p, hc, hp, fun d hd => List.mem_filter.mpr ⟨hpend d hd, decide_eq_true (hleft ▸ hu)⟩⟩
  exact ⟨F, h.mono (fun e he => hkeep e.tag (List.mem_map_of_mem he)) fun wb hwb => hkeep wb.robTag (hwbs wb hwb),
    fun x hx => hrec x (List.mem_of_mem_filter hx)⟩

/-- What a step leaves as it was. -/
theorem Accounts.steady (h : l.Accounts r cs wbs) (hr : r'.entries <+: r.entries) (hcs : ∀ x ∈ cs', x ∈ cs)
    (hwb : ∀ wb ∈ wbs', wb ∈ wbs) : l.Accounts r' cs' wbs' := by
  obtain ⟨F, htrack, hrec⟩ := h
  exact ⟨F, htrack.front hr hcs hwb, hrec⟩

/-- **Rename** puts unfinished entries behind the others, each with what waits for it. -/
theorem Accounts.append (h : l.Accounts r cs wbs) {g : RobEntry → RobEntry} {es : List RobEntry}
    {new : List (RobTag × ControlSignals)} (hent : r'.entries = r.entries.map g ++ es) (hfix : RobEntry.Fixes g)
    (hst : ∀ e, (g e).state = e.state) (hissued : ∀ e ∈ es, e.state = .issued) (hnd : r'.tags.Nodup)
    (hcs : ∀ x ∈ cs, x.1 ∈ r.tags) (hwbs : ∀ wb ∈ wbs, wb.robTag ∈ r.tags) (hal : Ledger.Along r.tags l.pend)
    (hnew : ∀ x ∈ new, ∃ e ∈ es, x = (e.tag, e.ctrl)) : l.Accounts r' (cs ++ new) wbs := by
  obtain ⟨F, htrack, hrec⟩ := h
  have hg : ∀ e, (g e).tag = e.tag ∧ (g e).ctrl = e.ctrl := fun e =>
    ⟨hfix.tag e, by simpa using congrArg RobEntry.ctrl (hfix e)⟩
  have htags : r'.tags = r.tags ++ es.map (·.tag) := by
    unfold Rob.tags
    rw [hent, List.map_append, List.map_map]
    exact congrArg (· ++ es.map (·.tag)) (List.map_congr_left fun e _ => (hg e).1)
  rw [htags] at hnd
  obtain ⟨-, hnd', hapart⟩ := List.nodup_append.mp hnd
  -- the table with the new entries
  let F' : RobTag → Option ControlSignals := fun u => ((es.find? fun e => e.tag = u).map (·.ctrl)).or (F u)
  have hold : ∀ u ∈ r.tags, F' u = F u := by
    intro u hu
    have hnone : es.find? (fun e => e.tag = u) = none := List.find?_eq_none.mpr fun e he heq =>
      hapart u hu e.tag (List.mem_map_of_mem he) (of_decide_eq_true heq).symm
    show ((es.find? fun e => e.tag = u).map (·.ctrl)).or (F u) = F u
    rw [hnone]
    rfl
  have hfresh : ∀ e ∈ es, F' e.tag = some e.ctrl := by
    intro e he
    have hsome : es.find? (fun x => x.tag = e.tag) = some e := by
      have hfound : (es.find? fun x => x.tag = e.tag).isSome := List.find?_isSome.mpr ⟨e, he, by simp⟩
      obtain ⟨x, hx⟩ := Option.isSome_iff_exists.mp hfound
      have heq : x.tag = e.tag := by simpa using List.find?_some hx
      rw [hx, List.inj_on_of_nodup_map hnd' (List.mem_of_find?_eq_some hx) he heq]
    show ((es.find? fun x => x.tag = e.tag).map (·.ctrl)).or (F e.tag) = some e.ctrl
    rw [hsome]
    rfl
  have hknows : ∀ u ∈ r.tags, Knows F l.landings l.pend u → Knows F' l.landings l.pend u := by
    rintro u hu ⟨c, p, hc, hrest⟩
    exact ⟨c, p, (hold u hu).trans hc, hrest⟩
  refine ⟨F', ⟨fun e he => ?_, fun x hx => ?_, fun e he hst' hl => ?_, fun wb hwb ht hl => ?_⟩, fun x hx => ?_⟩
  · rw [hent] at he
    rcases List.mem_append.mp he with he | he
    · obtain ⟨e₀, he₀, rfl⟩ := List.mem_map.mp he
      rw [(hg e₀).1, (hg e₀).2, hold e₀.tag (List.mem_map_of_mem he₀)]
      exact htrack.entries e₀ he₀
    · exact hfresh e he
  · rcases List.mem_append.mp hx with hx | hx
    · exact (hold x.1 (hcs x hx)).trans (htrack.signals x hx)
    · obtain ⟨e, he, rfl⟩ := hnew x hx
      exact hfresh e he
  · rw [hent] at he
    rcases List.mem_append.mp he with he | he
    · obtain ⟨e₀, he₀, rfl⟩ := List.mem_map.mp he
      rw [hst] at hst'
      rw [(hg e₀).2] at hl
      rw [(hg e₀).1]
      exact hknows e₀.tag (List.mem_map_of_mem he₀) (htrack.done e₀ he₀ hst' hl)
    · rw [hissued e he] at hst'
      exact absurd hst' (by decide)
  · exact hknows wb.robTag (hwbs wb hwb) (htrack.written wb hwb ht hl)
  · obtain ⟨c, p, hc, hrest⟩ := hrec x hx
    exact ⟨c, p, (hold x.1 (hal.mem hx)).trans hc, hrest⟩

end

end DeviceLog

end Rvsim
