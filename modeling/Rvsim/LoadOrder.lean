/-
# Loads see the stores before them

In every run of the load-store unit, each load, LR and AMO that retires has read
what the stores retired before it left, for every mix of widths and overlaps.
While it waits, its value is what the older resolved stores give: no older store
is left unresolved, or the load queue watches the bytes and the store that comes
late finds the load out.

Key definitions:
  - `LoadStoreUnit.Inv`, `LoadStoreUnit.Ordered`
Key theorems:
  - `LoadStoreUnit.Inv.resolve`, `LoadStoreUnit.Inv.step`, `LoadStoreUnit.run_ordered`
-/
import Rvsim.Lib.Runs
import Rvsim.LoadStoreUnit
import Rvsim.StoreRing

namespace Rvsim

variable {U : Type}

/-! ### The invariant -/

theorem Mem1Mem2Entry.readFrom_congr {m : Mem1Mem2Entry} {a b : Mem}
    (h : Set.EqOn a b (Mem.span m.paddr m.ctrl.width.bytes)) :
    m.readFrom a = m.readFrom b := by
  unfold readFrom
  rw [Mem.read_congr h]

namespace LoadStoreUnit

/-- Memory as the instruction sees it, under the resolved stores before it. -/
def view (s : LoadStoreUnit U) (t : RobTag) : Mem := s.sb.seen s.cpu.mem t

/-- The load queue holds the load as one that has read these bytes. -/
def Watched (s : LoadStoreUnit U) (m : Mem1Mem2Entry) : Prop :=
  ∃ q, s.lq = some q ∧
    ∃ e ∈ q.entries, e.robTag = m.robTag ∧ e.paddr = some m.paddr ∧ e.width = m.ctrl.width ∧ e.state = .executed

/-- The instruction is older than any load found to have read too early. -/
def Trusted (s : LoadStoreUnit U) (t : RobTag) : Prop := ∀ v, s.mem2.violation = some v →
    RobTag.isOlderThan t v.1 = true

/-- What every run keeps. Both queues are in program order with the retired stores in front; RAM under the
retired stores is the memory of program order; each read is what the older resolved stores give, and stays
so because the load queue watches it or because no older store is left unresolved. -/
structure Inv (s : LoadStoreUnit U) : Prop where
  stores : Serial.Window s.next (s.sb.entries.map (·.robTag))
  loads : ∀ q, s.lq = some q → Serial.Window s.next (q.entries.map (·.robTag)) ∧ ∀ e ∈ q.entries, e.valid = true
  live : ∀ d ∈ s.done, s.Live d.1.robTag
  front : s.sb.entries.Pairwise fun a b => b.resolution.isCommitted = true → a.resolution.isCommitted = true
  behind : ∀ e ∈ s.sb.entries, e.resolution.isCommitted = true →
      ∀ d ∈ s.done, RobTag.isOlderThan e.robTag d.1.robTag = true
  fits : ∀ e ∈ s.sb.entries, e.Fits
  ram : ∀ e ∈ s.sb.entries, ∀ a d, e.resolution.access = some (a, d) → s.cpu.isRam a = true ∧ s.cpu.inHtif a = false
  memory : Overlay.lay StoreBufferEntry.patch s.cpu.mem (s.sb.entries.filter fun e => e.resolution.isCommitted) =
      s.retired
  readFits : ∀ d ∈ s.done, d.1.paddr.toNat + d.1.ctrl.width.bytes < 2 ^ 64
  guarded : ∀ d ∈ s.done, s.Watched d.1 ∨ s.sb.hasUnresolvedStoreBefore d.1.robTag = false
  value : ∀ d ∈ s.done, s.Trusted d.1.robTag → d.2 = d.1.readFrom (s.view d.1.robTag)
  suspect : ∀ v, s.mem2.violation = some v → s.Live v.1

variable {s : LoadStoreUnit U} {m : Mem1Mem2Entry}

theorem Inv.liveStore (h : s.Inv) {e : StoreBufferEntry} (he : e ∈ s.sb.entries) : s.Live e.robTag :=
  h.stores.bounded _ (List.mem_map_of_mem he)

/-- A read joins the others. -/
theorem Inv.note (h : s.Inv) {v : U64} (hl : s.Live m.robTag)
    (hb : ∀ e ∈ s.sb.entries, e.resolution.isCommitted = true → RobTag.isOlderThan e.robTag m.robTag = true)
    (hr : m.paddr.toNat + m.ctrl.width.bytes < 2 ^ 64)
    (hg : s.Watched m ∨ s.sb.hasUnresolvedStoreBefore m.robTag = false) (hv : v = m.readFrom (s.view m.robTag)) :
    Inv { s with done := s.done ++ [(m, v)] } := by
  have hall : ∀ P : Mem1Mem2Entry × U64 → Prop, (∀ d ∈ s.done, P d) → P (m, v) → ∀ d ∈ s.done ++ [(m, v)], P d := by
    intro P hold hnew d hd
    rcases List.mem_append.mp hd with hd | hd
    · exact hold d hd
    · exact List.mem_singleton.mp hd ▸ hnew
  exact {
    stores := h.stores
    loads := h.loads
    live := hall _ h.live hl
    front := h.front
    behind := fun e he hc => hall _ (h.behind e he hc) (hb e he hc)
    fits := h.fits
    ram := h.ram
    memory := h.memory
    readFits := hall _ h.readFits hr
    guarded := hall _ h.guarded hg
    value := hall _ h.value fun _ => hv
    suspect := h.suspect }

/-- The load queue changes, and goes on watching what it watched. -/
theorem Inv.ofLq (h : s.Inv) (lq : Option LoadQueue)
    (hlq : ∀ q, lq = some q → Serial.Window s.next (q.entries.map (·.robTag)) ∧ ∀ e ∈ q.entries, e.valid = true)
    (hw : ∀ d ∈ s.done, s.Watched d.1 → Watched { s with mem2 := { s.mem2 with lq } } d.1) :
    Inv { s with mem2 := { s.mem2 with lq } } := {
  stores := h.stores
  loads := hlq
  live := h.live
  front := h.front
  behind := h.behind
  fits := h.fits
  ram := h.ram
  memory := h.memory
  readFits := h.readFits
  guarded := fun d hd => (h.guarded d hd).imp_left (hw d hd)
  value := h.value
  suspect := h.suspect }

/-- A field of one entry changes. -/
theorem Inv.modifyLq (h : s.Inv) (tag : RobTag) (f : LoadQueueEntry → LoadQueueEntry)
    (htag : ∀ e, (f e).robTag = e.robTag)
    (hvalid : ∀ e, (f e).valid = e.valid)
    (hf : ∀ d ∈ s.done, d.1.robTag = tag → ∀ q, s.lq = some q → ∀ e ∈ q.entries, e.robTag = tag → e.state = .executed →
      (f e).paddr = e.paddr ∧ (f e).width = e.width ∧ (f e).state = .executed) :
    Inv { s with
      mem2 := { s.mem2 with
        lq := s.lq.map fun q => { q with entries := LoadQueue.modifyFirst tag f q.entries } } } := by
  refine h.ofLq _ ?_ ?_
  · intro q' hq'
    obtain ⟨q, hq, rfl⟩ := Option.map_eq_some_iff.mp hq'
    obtain ⟨hwin, hval⟩ := h.loads q hq
    exact ⟨by rw [LoadQueue.tags_modifyFirst htag]; exact hwin, LoadQueue.valid_modifyFirst hvalid hval⟩
  · rintro d hd ⟨q, hq, e, he, hed, hpa, hwd, hex⟩
    obtain ⟨hwin, hval⟩ := h.loads q hq
    refine ⟨_, congrArg (Option.map _) hq, ?_⟩
    by_cases hne : e.robTag = tag
    · subst hne
      obtain ⟨hp, hw, hst⟩ := hf d hd hed.symm q hq e he rfl hex
      exact ⟨f e, LoadQueue.mem_modifyFirst_self hwin.nodup he (hval e he), (htag e).trans hed, hp.trans hpa,
          hw.trans hwd, hst⟩
    · exact ⟨e, LoadQueue.mem_modifyFirst_of_ne he hne, hed, hpa, hwd, hex⟩

/-! ### Resolving a store -/

theorem window_split_ne {now : RobTag} {us vs : List StoreBufferEntry} {e : StoreBufferEntry}
    (h : Serial.Window now ((us ++ e :: vs).map (·.robTag))) : ∀ u ∈ us, u.robTag ≠ e.robTag := by
  intro u hu
  have hnd := h.nodup
  rw [List.map_append, List.map_cons, List.nodup_append] at hnd
  exact hnd.2.2 _ (List.mem_map_of_mem hu) _ List.mem_cons_self

/-- The violation kept is at least as old as the one before and as every load that read too early. -/
theorem checkViolation_spec (t : Mem2State U) {now : RobTag}
    (hq : ∀ q, t.lq = some q → Serial.Window now (q.entries.map (·.robTag)))
    (hv : ∀ v, t.violation = some v → 0 < Serial.age now v.1 ∧ Serial.age now v.1 < Serial.half 32) :
    ∃ V, t.checkViolation m = { t with violation := V } ∧
      (∀ y, V = some y → 0 < Serial.age now y.1 ∧ Serial.age now y.1 < Serial.half 32) ∧
      (∀ x, t.violation = some x → ∃ y, V = some y ∧ Serial.age now x.1 ≤ Serial.age now y.1) ∧
      ∀ q, t.lq = some q → ∀ e ∈ q.entries, LoadQueue.violates m.paddr m.ctrl.width m.robTag e = true →
        ∃ y, V = some y ∧ Serial.age now e.robTag ≤ Serial.age now y.1 := by
  unfold Mem2State.checkViolation
  cases hc : t.lq.bind fun q => q.checkOrderingViolation m.paddr m.ctrl.width m.robTag with
  | none =>
    refine ⟨t.violation, rfl, hv, fun x hx => ⟨x, hx, le_refl _⟩, fun q hq' e he hviol => ?_⟩
    obtain ⟨u, -, hu, -⟩ := LoadQueue.checkOrderingViolation_oldest (hq q hq') he hviol
    rw [hq', Option.bind_some, hu] at hc
    exact absurd hc (by simp)
  | some u =>
    obtain ⟨q, hq', hu⟩ := Option.bind_eq_some_iff.mp hc
    have hwin := hq q hq'
    have hmem : u ∈ q.entries.map (·.robTag) := by
      rw [LoadQueue.checkOrderingViolation_eq hwin] at hu
      obtain ⟨e, he, rfl⟩ := Option.map_eq_some_iff.mp hu
      exact List.mem_map_of_mem (List.mem_of_find?_eq_some he)
    have hlive := hwin.bounded u hmem
    have hfound : ∀ r, t.lq = some r → ∀ e ∈ r.entries, LoadQueue.violates m.paddr m.ctrl.width m.robTag e = true →
        Serial.age now e.robTag ≤ Serial.age now u := by
      intro r hr e he hviol
      obtain rfl := Option.some.inj (hq'.symm.trans hr)
      obtain ⟨w, -, hw, hle⟩ := LoadQueue.checkOrderingViolation_oldest hwin he hviol
      rw [hu] at hw
      exact Option.some.inj hw ▸ hle
    cases hviol : t.violation with
    | none =>
      refine ⟨some (u, m.pc), rfl, ?_, fun x hx => absurd hx (by simp),
          fun r hr e he hve => ⟨_, rfl, hfound r hr e he hve⟩⟩
      intro y hy
      exact Option.some.inj hy ▸ hlive
    | some x =>
      have hx := hv x hviol
      show ∃ V, (if RobTag.isOlderThan u x.1 = true then { t with violation := some (u, m.pc) } else t) = _ ∧ _
      cases hold : RobTag.isOlderThan u x.1 with
      | true =>
        rw [if_pos rfl]
        have hlt := (RobTag.isOlderThan_iff hlive.2 hx.2).mp hold
        refine ⟨some (u, m.pc), rfl, ?_, ?_, fun r hr e he hve => ⟨_, rfl, hfound r hr e he hve⟩⟩
        · intro y hy
          exact Option.some.inj hy ▸ hlive
        · intro y hy
          obtain rfl := Option.some.inj hy
          exact ⟨_, rfl, hlt.le⟩
      | false =>
        rw [if_neg Bool.false_ne_true]
        have hge := mt (RobTag.isOlderThan_iff hlive.2 hx.2).mpr (by rw [hold]; exact Bool.false_ne_true)
        refine ⟨some x, by rw [← hviol], ?_, ?_, ?_⟩
        · intro y hy
          exact Option.some.inj hy ▸ hx
        · intro y hy
          exact ⟨y, hy, le_refl _⟩
        · exact fun r hr e he hve => ⟨x, rfl, (hfound r hr e he hve).trans (not_lt.mp hge)⟩

/-- Filters that agree on the store that is replaced. -/
theorem filter_replace {us vs : List StoreBufferEntry} {e e' : StoreBufferEntry} (f : StoreBufferEntry → Bool)
    (he : f e = false)
    (he' : f e' = false) : (us ++ e' :: vs).filter f = (us ++ e :: vs).filter f := by
  rw [List.filter_append, List.filter_append, List.filter_cons_of_neg (by simp [he']),
      List.filter_cons_of_neg (by simp [he])]

/-- The slot that a store's resolution fills. -/
theorem Inv.resolve_slot (h : s.Inv) (v : U64)
    (hp : ∃ e ∈ s.sb.entries, e.robTag = m.robTag ∧ e.resolution = .pending ∧ e.width = m.ctrl.width) :
    ∃ us e e' vs, s.sb.entries = us ++ e :: vs ∧ e.resolution = .pending ∧ e.robTag = m.robTag ∧ e'.robTag = e.robTag ∧
      e'.width = m.ctrl.width ∧ e'.resolution = .ready m.paddr v ∧
      s.mem2.resolve m v = { s.mem2 with sb := ⟨s.sb.capacity, us ++ e' :: vs⟩ } := by
  obtain ⟨e, he, htag, hpend, hwidth⟩ := hp
  obtain ⟨us, vs, hsb⟩ := List.append_of_mem he
  have hne := window_split_ne (hsb ▸ h.stores)
  refine ⟨us, e, { e with vaddr := m.vaddr, resolution := .ready m.paddr v }, vs, hsb, hpend, htag, rfl,
      hwidth, rfl, ?_⟩
  have hbuf : s.sb.resolve m.robTag m.vaddr m.paddr v =
      ⟨s.sb.capacity, us ++ { e with vaddr := m.vaddr, resolution := .ready m.paddr v } :: vs⟩ := by
    unfold StoreBuffer.resolve
    rw [hsb, ← htag, StoreBuffer.modifyFirst_append hne]
  show { s.mem2 with sb := s.sb.resolve m.robTag m.vaddr m.paddr v } = _
  rw [hbuf]

/-- **A store resolves**: what a read does not see of it is either watched, and found out now, or was
settled before. -/
theorem Inv.resolve (h : s.Inv) (hr : s.InRam m) (v : U64)
    (hp : ∃ e ∈ s.sb.entries, e.robTag = m.robTag ∧ e.resolution = .pending ∧ e.width = m.ctrl.width) :
    Inv { s with mem2 := (s.mem2.resolve m v).checkViolation m } := by
  obtain ⟨us, e, e', vs, hsb, hpend, htag, htag', hwidth, hready, hres⟩ := h.resolve_slot v hp
  obtain ⟨hram, hhtif, hfit⟩ := hr
  have he : e ∈ s.sb.entries := hsb ▸ List.mem_append_right _ List.mem_cons_self
  have hacc : e'.resolution.access = some (m.paddr, v) := by rw [hready]; rfl
  have hfits' : e'.Fits := by
    intro a d had
    rw [hacc] at had
    obtain ⟨rfl, rfl⟩ := Prod.mk.inj (Option.some.inj had)
    rw [hwidth]
    exact hfit
  obtain ⟨V, hV, hVlive, hVold, hVnew⟩ := checkViolation_spec (m := m) (s.mem2.resolve m v)
    (fun q hq => (h.loads q hq).1) h.suspect
  rw [hV, hres]
  -- an entry of the new buffer is the resolved store or one of the old
  have hmem : ∀ P : StoreBufferEntry → Prop, (∀ x ∈ s.sb.entries, P x) → P e' → ∀ x ∈ us ++ e' :: vs, P x := by
    intro P hold hnew x hx
    rw [hsb] at hold
    rcases List.mem_append.mp hx with hx | hx
    · exact hold x (List.mem_append_left _ hx)
    · rcases List.mem_cons.mp hx with rfl | hx
      · exact hnew
      · exact hold x (List.mem_append_right _ (List.mem_cons_of_mem _ hx))
  have hnc : e.resolution.isCommitted = false := by rw [hpend]; rfl
  have hnc' : e'.resolution.isCommitted = false := by rw [hready]; rfl
  have hfront : (us ++ e' :: vs).Pairwise fun a b => b.resolution.isCommitted = true →
      a.resolution.isCommitted = true := by
    have hf := h.front
    rw [hsb, List.pairwise_append, List.pairwise_cons] at hf
    rw [List.pairwise_append, List.pairwise_cons]
    refine ⟨hf.1, ⟨fun y hy hyc => absurd (hf.2.1.1 y hy hyc) (by simp [hnc]), hf.2.1.2⟩, fun x hx y hy hyc => ?_⟩
    rcases List.mem_cons.mp hy with rfl | hy
    · exact absurd hyc (by simp [hnc'])
    · exact hf.2.2 x hx y (List.mem_cons_of_mem _ hy) hyc
  exact {
    stores := by
      have hst := h.stores
      rw [hsb, List.map_append, List.map_cons, ← htag', ← List.map_cons, ← List.map_append] at hst
      exact hst
    loads := h.loads
    live := h.live
    front := hfront
    behind := hmem _ h.behind fun hc => absurd hc (by simp [hnc'])
    fits := hmem _ h.fits hfits'
    ram := hmem _ h.ram fun a d had => by
      rw [hacc] at had
      obtain ⟨rfl, rfl⟩ := Prod.mk.inj (Option.some.inj had)
      exact ⟨hram, hhtif⟩
    memory := by
      show Overlay.lay _ s.cpu.mem ((us ++ e' :: vs).filter fun e => e.resolution.isCommitted) = _
      rw [filter_replace (e := e) _ hnc hnc', ← hsb]
      exact h.memory
    readFits := h.readFits
    guarded := fun d hd => (h.guarded d hd).imp id fun hun => by
      unfold StoreBuffer.hasUnresolvedStoreBefore at hun ⊢
      rw [List.any_eq_false] at hun ⊢
      exact hmem _ hun (by rw [hready]; simp [StoreResolution.isPending])
    value := by
      intro d hd htrust
      -- trusted now, trusted before
      have htrust' : s.Trusted d.1.robTag := by
        intro x hx
        obtain ⟨y, hy, hle⟩ := hVold x hx
        have hlt := (RobTag.isOlderThan_iff (h.live d hd).2 (hVlive y hy).2).mp (htrust y hy)
        exact (RobTag.isOlderThan_iff (h.live d hd).2 (h.suspect x hx).2).mpr (lt_of_le_of_lt hle hlt)
      rw [h.value d hd htrust']
      refine Mem1Mem2Entry.readFrom_congr (Set.EqOn.symm ?_)
      show Set.EqOn (StoreBuffer.seen ⟨s.sb.capacity, us ++ e' :: vs⟩ s.cpu.mem _)
          (StoreBuffer.seen ⟨s.sb.capacity, s.sb.entries⟩ _ _) _
      rw [hsb]
      refine StoreBuffer.seen_replace htag' fun hold =>
        ⟨StoreBufferEntry.spares_of_unresolved (by rw [hpend]; rfl), ?_⟩
      refine StoreBufferEntry.spares_of_apart hfits' (h.readFits d hd) hacc ?_
      rw [← Bool.not_eq_true]
      intro hover
      rcases h.guarded d hd with ⟨q, hq, u, hu, hut, hup, huw, hus⟩ | hun
      · -- the watched load would have been found out
        have hviol : LoadQueue.violates m.paddr m.ctrl.width m.robTag u = true := by
          unfold LoadQueue.violates
          rw [(h.loads q hq).2 u hu, hus, hup, hut, huw, ← hwidth, RobTag.isNewerThan, ← htag, hold]
          exact hover
        obtain ⟨y, hy, hle⟩ := hVnew q hq u hu hviol
        have hlt := (RobTag.isOlderThan_iff (h.live d hd).2 (hVlive y hy).2).mp (htrust y hy)
        rw [hut] at hle
        omega
      · unfold StoreBuffer.hasUnresolvedStoreBefore at hun
        rw [List.any_eq_false] at hun
        exact hun e he (by rw [hold, hpend]; rfl)
    suspect := hVlive }

/-! ### Memory2 -/

/-- An atomic waits until no older store is unresolved or touches its bytes; it then reads what they give. -/
theorem Inv.atomic_view (h : s.Inv) (hr : s.InRam m) (ho : s.sb.hasOlderStoreTo m.paddr m.ctrl.width m.robTag = false) :
    s.sb.hasUnresolvedStoreBefore m.robTag = false ∧ m.readFrom s.cpu.mem = m.readFrom (s.view m.robTag) := by
  unfold StoreBuffer.hasOlderStoreTo at ho
  rw [List.any_eq_false] at ho
  constructor
  · unfold StoreBuffer.hasUnresolvedStoreBefore
    rw [List.any_eq_false]
    intro e he hbad
    rw [Bool.and_eq_true] at hbad
    refine ho e he ?_
    rw [hbad.1, Bool.true_and]
    unfold StoreBuffer.conflicts
    cases hres : e.resolution with
    | pending => rfl
    | _ => rw [hres] at hbad; exact absurd hbad.2 Bool.false_ne_true
  · refine Mem1Mem2Entry.readFrom_congr (Set.EqOn.symm (Overlay.lay_spared fun e he => ?_))
    obtain ⟨hmem, hold⟩ := List.mem_filter.mp he
    have hno := ho e hmem
    rw [hold, Bool.true_and, Bool.not_eq_true] at hno
    cases hacc : e.resolution.access with
    | none => exact StoreBufferEntry.spares_of_unresolved hacc
    | some p =>
      obtain ⟨b, d⟩ := p
      refine StoreBufferEntry.spares_of_apart (h.fits e hmem) hr.2.2 hacc ?_
      unfold StoreBuffer.conflicts at hno
      cases hres : e.resolution with
      | ready a v => rw [hres] at hacc hno; obtain ⟨rfl, rfl⟩ := Prod.mk.inj (Option.some.inj hacc); exact hno
      | committed a v => rw [hres] at hacc hno; obtain ⟨rfl, rfl⟩ := Prod.mk.inj (Option.some.inj hacc); exact hno
      | pending => rw [hres] at hacc; exact absurd hacc (by simp [StoreResolution.access])
      | cancelled => rw [hres] at hacc; exact absurd hacc (by simp [StoreResolution.access])

section Access

variable [Units U]

theorem atomicRead_ram (c : Cpu U) (hop : m.ctrl.atomicOp ≠ .none) (hram : c.isRam m.paddr = true)
    (hhtif : c.inHtif m.paddr = false) :
    atomicRead c m.paddr m.ctrl.width = (m.readFrom c.mem, c) := by
  have hbus : ∀ w, c.busRead m.paddr w = (c.mem.read m.paddr w.bytes, c) := fun w => if_pos (by simp [hram, hhtif])
  unfold atomicRead Mem1Mem2Entry.readFrom
  rw [if_pos hop]
  cases m.ctrl.width <;> simp [hbus]

theorem mem2Atomic_amo (t : Mem2State U) (hlr : m.ctrl.atomicOp ≠ .lr) (hsc : m.ctrl.atomicOp ≠ .sc) :
    mem2Atomic t m =
      if t.sb.hasOlderStoreTo m.paddr m.ctrl.width m.robTag then none
      else
        let r := atomicRead t.cpu m.paddr m.ctrl.width
        some (m.toWb r.1, (({ t with cpu := r.2 } : Mem2State U).resolve m
          (Lsu.atomicAlu m.ctrl.atomicOp r.1 m.storeData m.ctrl.width)).checkViolation m) := by
  unfold mem2Atomic
  split
  · next h => exact absurd h hlr
  · next h => exact absurd h hsc
  · rfl

/-- A load takes its bytes from a store that covers it, or from RAM when no older store touches them. -/
theorem Inv.load_view (h : s.Inv) (hr : s.InRam m) (hop : m.ctrl.atomicOp = .none) {wb : Mem2WbEntry} {t : Mem2State U}
    (hm : mem2Load s.mem2 m = some (wb, t)) :
    wb.loadData = m.readFrom (s.view m.robTag) ∧
      t = { s.mem2 with lq := s.lq.map fun q => q.fillData m.robTag wb.loadData } := by
  have hval : ∀ mem : Mem, m.readFrom mem = extendLoad m.ctrl (mem.read m.paddr m.ctrl.width.bytes) := fun mem =>
    if_neg (not_not_intro hop)
  unfold mem2Load at hm
  split at hm
  · next v hf =>
    obtain ⟨rfl, rfl⟩ := Prod.mk.inj (Option.some.inj hm)
    refine ⟨?_, rfl⟩
    rw [hval, show (s.view m.robTag).read m.paddr m.ctrl.width.bytes = v from
      StoreBuffer.forwardLoad_hit h.fits hr.2.2 hf s.cpu.mem]
    rfl
  · exact absurd hm (by simp)
  · next hf =>
    have hphys : s.mem2.cpu.loadPhys m.paddr m.ctrl.width = (s.cpu.mem.read m.paddr m.ctrl.width.bytes, s.mem2.cpu) :=
      if_pos hr.1
    rw [hphys] at hm
    obtain ⟨rfl, rfl⟩ := Prod.mk.inj (Option.some.inj hm)
    refine ⟨?_, rfl⟩
    rw [hval, show (s.view m.robTag).read m.paddr m.ctrl.width.bytes = s.cpu.mem.read m.paddr m.ctrl.width.bytes from
      StoreBuffer.forwardLoad_miss h.fits hr.2.2 hf s.cpu.mem]
    rfl

theorem step_access : s.step (.access m) =
    match memory2One s.mem2 m with
    | none => s
    | some (wb, mem2) => { s with mem2, done := if m.reads then s.done ++ [(m, wb.loadData)] else s.done } := rfl

/-- **An entry passes memory2.** -/
theorem Inv.access (h : s.Inv) (hl : s.Legal (.access m)) : (s.step (.access m)).Inv := by
  obtain ⟨-, hshape, hlive, hr, hbehind, hnew, hguard, hslot⟩ := hl
  rw [step_access]
  cases hm : memory2One s.mem2 m with
  | none => exact h
  | some r =>
    obtain ⟨wb, t⟩ := r
    show Inv { s with mem2 := t, done := if m.reads = true then s.done ++ [(m, wb.loadData)] else s.done }
    unfold memory2One at hm
    unfold ControlSignals.MemShape at hshape
    by_cases hop : m.ctrl.atomicOp = .none
    · rw [if_neg (not_not_intro hop)] at hm
      rw [hop] at hshape
      by_cases hread : m.ctrl.memRead = true
      · -- a load
        rw [if_pos hread] at hm
        have hreads : m.reads = true := by
          unfold Mem1Mem2Entry.reads
          rw [hread, hop]
          rfl
        obtain ⟨hval, rfl⟩ := h.load_view hr hop hm
        rw [if_pos hreads]
        have hfilled := h.modifyLq m.robTag (fun e => { e with data := wb.loadData, state := .executed })
          (fun _ => rfl) (fun _ => rfl) fun _ _ _ _ _ _ _ _ _ => ⟨rfl, rfl, rfl⟩
        refine hfilled.note hlive hbehind hr.2.2 ?_ hval
        have hg := hguard hreads hop
        unfold Guarded at hg
        cases hq : s.lq with
        | none =>
          rw [hq] at hg
          exact Or.inr hg
        | some q =>
          rw [hq] at hg
          obtain ⟨e, he, htag, hpa, hw⟩ := hg
          obtain ⟨hwin, hvalid⟩ := h.loads q hq
          refine Or.inl ⟨q.fillData m.robTag wb.loadData, rfl, { e with data := wb.loadData, state := .executed },
              ?_, htag, hpa, hw, rfl⟩
          show _ ∈ LoadQueue.modifyFirst m.robTag _ q.entries
          rw [← htag]
          exact LoadQueue.mem_modifyFirst_self hwin.nodup he (hvalid e he)
      · rw [if_neg hread] at hm
        have hreads : m.reads = false := by
          unfold Mem1Mem2Entry.reads
          rw [Bool.not_eq_true] at hread
          rw [hread]
          rfl
        rw [hreads, if_neg Bool.false_ne_true]
        by_cases hwrite : m.ctrl.memWrite = true
        · -- a store
          rw [if_pos hwrite] at hm
          obtain ⟨rfl, rfl⟩ := Prod.mk.inj (Option.some.inj hm)
          exact h.resolve hr m.storeData (hslot hwrite)
        · rw [if_neg hwrite] at hm
          obtain ⟨rfl, rfl⟩ := Prod.mk.inj (Option.some.inj hm)
          exact h
    · rw [if_pos hop] at hm
      by_cases hsc : m.ctrl.atomicOp = .sc
      · -- a store-conditional
        have hreads : m.reads = false := by
          unfold Mem1Mem2Entry.reads
          rw [hsc]
          exact Bool.and_false _
        rw [hsc] at hshape
        unfold mem2Atomic at hm
        rw [hsc] at hm
        obtain ⟨rfl, rfl⟩ := Prod.mk.inj (Option.some.inj hm)
        rw [hreads, if_neg Bool.false_ne_true]
        exact h.resolve hr m.storeData (hslot hshape.2)
      · have hmemRead : m.ctrl.memRead = true := by
          split at hshape
          · next hnone => exact absurd hnone hop
          · exact hshape.1
          · exact hshape.1
        have hreads : m.reads = true := by
          unfold Mem1Mem2Entry.reads
          rw [hmemRead, Bool.true_and]
          exact bne_iff_ne.mpr hsc
        rw [if_pos hreads]
        have hread := atomicRead_ram s.mem2.cpu hop hr.1 hr.2.1
        by_cases hlr : m.ctrl.atomicOp = .lr
        · unfold mem2Atomic at hm
          rw [hlr] at hm
          dsimp only at hm
          split at hm
          · exact absurd hm (by simp)
          · next ho =>
            rw [hread] at hm
            obtain ⟨rfl, rfl⟩ := Prod.mk.inj (Option.some.inj hm)
            obtain ⟨hun, hview⟩ := h.atomic_view hr (Bool.not_eq_true _ ▸ ho)
            exact h.note hlive hbehind hr.2.2 (Or.inr hun) hview
        · -- a read and a write
          have hmemWrite : m.ctrl.memWrite = true := by
            split at hshape
            · next hnone => exact absurd hnone hop
            · next hl => exact absurd hl hlr
            · exact hshape.2
          rw [mem2Atomic_amo _ hlr hsc] at hm
          split at hm
          · exact absurd hm (by simp)
          · next ho =>
            simp only [hread] at hm
            obtain ⟨rfl, rfl⟩ := Prod.mk.inj (Option.some.inj hm)
            obtain ⟨hun, hview⟩ := h.atomic_view hr (Bool.not_eq_true _ ▸ ho)
            exact (h.note hlive hbehind hr.2.2 (Or.inr hun) hview).resolve hr _ (hslot hmemWrite)

end Access

/-! ### Rename and memory1 -/

/-- The next tag is given out. -/
theorem Inv.advance (h : s.Inv) (hnone : s.mem2.violation = none)
    (hspan : ∀ t ∈ s.tags, Serial.age s.next t + 2 < Serial.half 32) :
    Inv { s with next := RobTag.next s.next } ∧
      Serial.Window (RobTag.next s.next) (s.sb.entries.map (·.robTag) ++ [s.next]) ∧
      (∀ q, s.lq = some q → Serial.Window (RobTag.next s.next) (q.entries.map (·.robTag) ++ [s.next])) := by
  obtain ⟨k, hk, hk2, hnext⟩ := RobTag.next_eq s.next
  have hsb : ∀ t ∈ s.sb.entries.map (·.robTag), t ∈ s.tags := fun t ht =>
    List.mem_append_left _ (List.mem_append_left _ ht)
  have hlq : ∀ q, s.lq = some q → ∀ t ∈ q.entries.map (·.robTag), t ∈ s.tags := fun q hq t ht =>
    List.mem_append_left _ (List.mem_append_right _ (by rw [hq]; exact ht))
  have hage : ∀ t, s.Live t → Serial.age s.next t + 2 < Serial.half 32 →
      Live { s with next := RobTag.next s.next } t := by
    intro t ht hs
    unfold Live
    show 0 < Serial.age (RobTag.next s.next) t ∧ Serial.age (RobTag.next s.next) t < _
    have hfit : Serial.age s.next t + k < 2 ^ 32 := by
      have hhalf : Serial.half 32 = 2 ^ 31 := rfl
      omega
    rw [hnext, Serial.age_advance k hfit]
    have hpos := ht.1
    omega
  have hhalf : k < Serial.half 32 := by
    have hval : Serial.half 32 = 2 ^ 31 := rfl
    omega
  have hstores : Serial.Window (RobTag.next s.next) (s.sb.entries.map (·.robTag) ++ [s.next]) := by
    rw [hnext]
    exact h.stores.push (by decide) hk (fun t ht => by have := hspan t (hsb t ht); omega) hhalf
  have hloads : ∀ q, s.lq = some q → Serial.Window (RobTag.next s.next) (q.entries.map (·.robTag) ++ [s.next]) := by
    intro q hq
    rw [hnext]
    exact (h.loads q hq).1.push (by decide) hk (fun t ht => by have := hspan t (hlq q hq t ht); omega) hhalf
  refine ⟨?_, hstores, hloads⟩
  exact {
    stores := hstores.sublist (List.sublist_append_left _ _)
    loads := fun q hq => ⟨(hloads q hq).sublist (List.sublist_append_left _ _), (h.loads q hq).2⟩
    live := fun d hd => hage _ (h.live d hd) (hspan _ (List.mem_append_right _ (List.mem_map.mpr ⟨d, hd, rfl⟩)))
    front := h.front
    behind := h.behind
    fits := h.fits
    ram := h.ram
    memory := h.memory
    readFits := h.readFits
    guarded := h.guarded
    value := h.value
    suspect := fun v hv => absurd (hnone.symm.trans hv) (by simp) }

/-- A slot at the tail of the store buffer, under a tag that no read comes after. -/
theorem Inv.pushStore (h : s.Inv) {e : StoreBufferEntry} (hp : e.resolution = .pending)
    (hw : Serial.Window s.next (s.sb.entries.map (·.robTag) ++ [e.robTag]))
    (ht : ∀ d ∈ s.done, RobTag.isOlderThan e.robTag d.1.robTag = false) :
    Inv { s with mem2 := { s.mem2 with sb := ⟨s.sb.capacity, s.sb.entries ++ [e]⟩ } } := by
  have hall : ∀ P : StoreBufferEntry → Prop, (∀ x ∈ s.sb.entries, P x) → P e → ∀ x ∈ s.sb.entries ++ [e], P x := by
    intro P hold hnew x hx
    rcases List.mem_append.mp hx with hx | hx
    · exact hold x hx
    · exact List.mem_singleton.mp hx ▸ hnew
  have hnc : e.resolution.isCommitted = false := by rw [hp]; rfl
  have hacc : e.resolution.access = none := by rw [hp]; rfl
  exact {
    stores := by
      show Serial.Window s.next ((s.sb.entries ++ [e]).map (·.robTag))
      rw [List.map_append]
      exact hw
    loads := h.loads
    live := h.live
    front := List.pairwise_append.mpr ⟨h.front, List.pairwise_singleton _ _, fun x _ y hy hyc => by
      rw [List.mem_singleton.mp hy, hnc] at hyc
      exact absurd hyc Bool.false_ne_true⟩
    behind := hall (fun x => x.resolution.isCommitted = true →
        ∀ d ∈ s.done, RobTag.isOlderThan x.robTag d.1.robTag = true) h.behind
      fun hc => absurd (hnc.symm.trans hc) Bool.false_ne_true
    fits := hall StoreBufferEntry.Fits h.fits fun a d had => absurd (hacc.symm.trans had) (by simp)
    ram := hall (fun x => ∀ a d, x.resolution.access = some (a, d) → s.cpu.isRam a = true ∧
        s.cpu.inHtif a = false) h.ram
      fun a d had => absurd (hacc.symm.trans had) (by simp)
    memory := by
      show Overlay.lay _ s.cpu.mem ((s.sb.entries ++ [e]).filter fun e => e.resolution.isCommitted) = s.retired
      rw [List.filter_append, List.filter_cons_of_neg (by simp [hnc]), List.filter_nil, List.append_nil]
      exact h.memory
    readFits := h.readFits
    guarded := fun d hd => (h.guarded d hd).imp id fun hun => by
      unfold StoreBuffer.hasUnresolvedStoreBefore at hun ⊢
      rw [List.any_eq_false] at hun ⊢
      exact hall _ hun (by rw [ht d hd]; exact Bool.false_ne_true)
    value := fun d hd htrust => by
      rw [h.value d hd htrust]
      exact congrArg d.1.readFrom (StoreBuffer.seen_push (n := s.sb.capacity) (k := s.sb.capacity) (ht d hd)).symm
    suspect := h.suspect }

/-- **Rename gives out slots.** -/
theorem Inv.dispatch [Units U] (h : s.Inv) {c : ControlSignals} (hl : s.Legal (.dispatch c)) :
    (s.step (.dispatch c)).Inv := by
  obtain ⟨hnone, hsbFree, hlqFree, hspan⟩ := hl
  obtain ⟨hnext, hstores, hloads⟩ := h.advance hnone hspan
  have hyoung : ∀ d ∈ s.done, RobTag.isOlderThan s.next d.1.robTag = false := fun d hd =>
    RobTag.not_older_next (h.live d hd).2
  have hsb : Inv { s with
      mem2 := { s.mem2 with sb := if c.memWrite then (s.sb.allocate s.next c.width).2 else s.sb }, next :=
        RobTag.next s.next } := by
    cases hw : c.memWrite with
    | false => exact hnext
    | true =>
      have halloc : (s.sb.allocate s.next c.width).2 =
          ⟨s.sb.capacity, s.sb.entries ++ [{ robTag := s.next, width := c.width }]⟩ := by
        unfold StoreBuffer.allocate
        rw [hsbFree hw]
        rfl
      rw [if_pos rfl, halloc]
      exact hnext.pushStore rfl hstores hyoung
  refine hsb.ofLq (if c.memRead then s.lq.map fun q => (q.allocate s.next c.width).2 else s.lq) ?_ ?_
  · cases hr : c.memRead with
    | false =>
      rw [if_neg Bool.false_ne_true]
      exact fun q hq => ⟨(hloads q hq).sublist (List.sublist_append_left _ _), (h.loads q hq).2⟩
    | true =>
      rw [if_pos rfl]
      intro q' hq'
      obtain ⟨q, hq, rfl⟩ := Option.map_eq_some_iff.mp hq'
      unfold LoadQueue.allocate
      rw [hlqFree q hq hr]
      show Serial.Window _ ((q.entries ++ [_]).map _) ∧ ∀ e ∈ q.entries ++ [_], e.valid = true
      rw [List.map_append]
      refine ⟨hloads q hq, fun e he => ?_⟩
      rcases List.mem_append.mp he with he | he
      · exact (h.loads q hq).2 e he
      · rw [List.mem_singleton.mp he]
  · cases hr : c.memRead with
    | false =>
      rw [if_neg Bool.false_ne_true]
      exact fun d _ hw => hw
    | true =>
      rw [if_pos rfl]
      rintro d hd ⟨q, hq, e, he, hwatch⟩
      have hmap : (s.lq.map fun q => (q.allocate s.next c.width).2) = some (q.allocate s.next c.width).2 :=
        Option.map_eq_some_iff.mpr ⟨q, hq, rfl⟩
      refine ⟨(q.allocate s.next c.width).2, hmap, e, ?_, hwatch⟩
      unfold LoadQueue.allocate
      rw [hlqFree q hq hr]
      exact List.mem_append_left _ he

theorem Inv.translate [Units U] (h : s.Inv) (hl : s.Legal (.translate m)) : (s.step (.translate m)).Inv := by
  show Inv { s with
    mem2 := { s.mem2 with
      lq := if m.ctrl.memRead then s.lq.map fun q => q.fillAddress m.robTag m.vaddr m.paddr else s.lq } }
  cases hr : m.ctrl.memRead with
  | false => exact h
  | true =>
    rw [if_pos rfl]
    refine h.modifyLq m.robTag (fun e => { e with vaddr := m.vaddr, paddr := some m.paddr, state := .translated })
      (fun _ => rfl) (fun _ => rfl) ?_
    exact fun d _ _ q hq e he htag hex => absurd hex (hl q hq e he htag)

/-! ### Recovery -/

/-- What is newer than the tag goes, and with it every load found to have read too early. -/
theorem Inv.cutAfter (h : s.Inv) {keep : RobTag} (hk : s.Live keep)
    (hc : ∀ e ∈ s.sb.entries, e.resolution.isCommitted = true → RobTag.isOlderOrEq e.robTag keep = true)
    (hv : ∀ v, s.mem2.violation = some v → ∀ d ∈ s.done, RobTag.isOlderOrEq d.1.robTag keep = true →
      RobTag.isOlderThan d.1.robTag v.1 = true) : (s.cutAfter keep).Inv := by
  have hsub : (s.cutAfter keep).sb.entries.Sublist s.sb.entries := List.filter_sublist
  have hdone : ∀ d ∈ (s.cutAfter keep).done, d ∈ s.done ∧ RobTag.isOlderOrEq d.1.robTag keep = true :=
    fun d hd => List.mem_filter.mp hd
  exact {
    stores := h.stores.sublist (hsub.map _)
    loads := by
      intro q' hq'
      obtain ⟨q, hq, rfl⟩ := Option.map_eq_some_iff.mp hq'
      obtain ⟨hwin, hvalid⟩ := h.loads q hq
      exact ⟨hwin.sublist (List.filter_sublist.map _), fun e he => hvalid e (List.filter_sublist.subset he)⟩
    live := fun d hd => h.live d (hdone d hd).1
    front := h.front.sublist hsub
    behind := fun e he hec d hd => h.behind e (hsub.subset he) hec d (hdone d hd).1
    fits := fun e he => h.fits e (hsub.subset he)
    ram := fun e he => h.ram e (hsub.subset he)
    memory := by
      show Overlay.lay _ s.cpu.mem ((s.sb.entries.filter _).filter _) = s.retired
      rw [List.filter_filter, ← h.memory]
      refine congrArg _ (List.filter_congr fun e he => ?_)
      cases hec : e.resolution.isCommitted with
      | false => rfl
      | true => rw [hc e he hec]; rfl
    readFits := fun d hd => h.readFits d (hdone d hd).1
    guarded := by
      intro d hd
      obtain ⟨hin, hkeep⟩ := hdone d hd
      rcases h.guarded d hin with ⟨q, hq, e, he, htag, hwatch⟩ | hun
      · have hmap : (s.lq.map fun q => q.flushAfter keep) = some (q.flushAfter keep) :=
          Option.map_eq_some_iff.mpr ⟨q, hq, rfl⟩
        refine Or.inl ⟨q.flushAfter keep, hmap, e, ?_, htag, hwatch⟩
        refine List.mem_filter.mpr ⟨he, ?_⟩
        rw [(h.loads q hq).2 e he, htag, hkeep]
        rfl
      · unfold StoreBuffer.hasUnresolvedStoreBefore at hun ⊢
        rw [List.any_eq_false] at hun ⊢
        exact Or.inr fun e he => hun e (hsub.subset he)
    value := by
      intro d hd _
      obtain ⟨hin, hkeep⟩ := hdone d hd
      rw [h.value d hin fun v hviol => hv v hviol d hin hkeep]
      refine congrArg d.1.readFrom (StoreBuffer.seen_filter (n := s.sb.capacity) fun e he hold => ?_).symm
      have hd' := h.live d hin
      have he' := h.liveStore he
      have hlt := (RobTag.isOlderThan_iff he'.2 hd'.2).mp hold
      have hle := (RobTag.isOlderOrEq_iff hd'.2 hk.2).mp hkeep
      exact (RobTag.isOlderOrEq_iff he'.2 hk.2).mpr (by omega)
    suspect := fun v hviol => absurd hviol (by simp [LoadStoreUnit.cutAfter]) }

/-- Everything goes that has not retired. -/
theorem cutAll_inv (hst : Serial.Window s.next (s.sb.entries.map (·.robTag))) (hf : ∀ e ∈ s.sb.entries, e.Fits)
    (hr : ∀ e ∈ s.sb.entries, ∀ a d, e.resolution.access = some (a, d) → s.cpu.isRam a = true ∧ s.cpu.inHtif a = false)
    (hm : Overlay.lay StoreBufferEntry.patch s.cpu.mem (s.sb.entries.filter fun e => e.resolution.isCommitted) =
        s.retired) :
    s.cutAll.Inv := by
  have hsub : s.cutAll.sb.entries.Sublist s.sb.entries := List.filter_sublist
  exact {
    stores := hst.sublist (hsub.map _)
    loads := by
      intro q' hq'
      obtain ⟨q, -, rfl⟩ := Option.map_eq_some_iff.mp hq'
      exact ⟨Serial.Window.nil, fun e he => absurd he (by simp [LoadQueue.flush])⟩
    live := fun d hd => absurd hd (by simp [cutAll])
    front := List.pairwise_of_forall_mem_list fun a ha _ _ _ => (List.mem_filter.mp ha).2
    behind := fun e _ _ d hd => absurd hd (by simp [cutAll])
    fits := fun e he => hf e (hsub.subset he)
    ram := fun e he => hr e (hsub.subset he)
    memory := by
      show Overlay.lay _ s.cpu.mem ((s.sb.entries.filter _).filter _) = s.retired
      rw [List.filter_filter, ← hm]
      simp only [Bool.and_self]
    readFits := fun d hd => absurd hd (by simp [cutAll])
    guarded := fun d hd => absurd hd (by simp [cutAll])
    value := fun d hd => absurd hd (by simp [cutAll])
    suspect := fun v hviol => absurd hviol (by simp [cutAll]) }

/-! ### Commit -/

/-- Reads that retire are forgotten. -/
theorem Inv.forget (h : s.Inv) (keep : Mem1Mem2Entry × U64 → Bool) : Inv { s with done := s.done.filter keep } := by
  have hdone : ∀ d ∈ s.done.filter keep, d ∈ s.done := fun d hd => List.mem_of_mem_filter hd
  exact {
    stores := h.stores
    loads := h.loads
    live := fun d hd => h.live d (hdone d hd)
    front := h.front
    behind := fun e he hc d hd => h.behind e he hc d (hdone d hd)
    fits := h.fits
    ram := h.ram
    memory := h.memory
    readFits := fun d hd => h.readFits d (hdone d hd)
    guarded := fun d hd => h.guarded d (hdone d hd)
    value := fun d hd => h.value d (hdone d hd)
    suspect := h.suspect }

/-- The stores before an entry are older, those behind it newer. -/
theorem Inv.split_older (h : s.Inv) {us vs : List StoreBufferEntry} {e : StoreBufferEntry}
    (hsb : s.sb.entries = us ++ e :: vs) :
    ∀ u ∈ us, RobTag.isOlderThan u.robTag e.robTag = true := by
  intro u hu
  have hst := h.stores
  rw [hsb] at hst
  have hord := hst.ordered
  rw [List.map_append, List.map_cons, List.pairwise_append] at hord
  have hlt := hord.2.2 _ (List.mem_map_of_mem hu) _ List.mem_cons_self
  have hu' := h.liveStore (e := u) (hsb ▸ List.mem_append_left _ hu)
  have he' := h.liveStore (e := e) (hsb ▸ List.mem_append_right _ List.mem_cons_self)
  exact (RobTag.isOlderThan_iff hu'.2 he'.2).mpr hlt

/-- The committed stores are those in front of one that is not. -/
theorem Inv.committed_eq (h : s.Inv) {us vs : List StoreBufferEntry} {e : StoreBufferEntry}
    (hsb : s.sb.entries = us ++ e :: vs)
    (hnc : e.resolution.isCommitted = false) (hus : ∀ u ∈ us, u.resolution.isCommitted = true) :
    (s.sb.entries.filter fun e => e.resolution.isCommitted) = us ∧
        (vs.filter fun e => e.resolution.isCommitted) = [] := by
  have hf := h.front
  rw [hsb, List.pairwise_append, List.pairwise_cons] at hf
  have hvs : (vs.filter fun e => e.resolution.isCommitted) = [] :=
    List.filter_eq_nil_iff.mpr fun y hy hyc => absurd (hf.2.1.1 y hy hyc) (by simp [hnc])
  refine ⟨?_, hvs⟩
  rw [hsb, List.filter_append, List.filter_cons_of_neg (by simp [hnc]), hvs, List.append_nil]
  exact List.filter_eq_self.mpr hus

/-- **The oldest store that has not retired retires**, and reaches the memory of program order. -/
theorem Inv.commitStore (h : s.Inv) {tag : RobTag} (hold : ∀ e ∈ s.sb.entries, RobTag.isOlderThan e.robTag tag = true →
    e.resolution.isCommitted = true)
    (hdone : ∀ d ∈ s.done, RobTag.isOlderThan tag d.1.robTag = true)
    (hr : ∃ e ∈ s.sb.entries, e.robTag = tag ∧ e.resolution.isCommitted = false ∧ e.resolution.isPending = false) :
    Inv { s with mem2 := { s.mem2 with sb := s.sb.markCommitted tag }, retired := s.retireStore tag } := by
  obtain ⟨e, he, rfl, hnc, hnp⟩ := hr
  obtain ⟨us, vs, hsb⟩ := List.append_of_mem he
  have hne := window_split_ne (hsb ▸ h.stores)
  have hus : ∀ u ∈ us, u.resolution.isCommitted = true := fun u hu =>
    hold u (hsb ▸ List.mem_append_left _ hu) (h.split_older hsb u hu)
  obtain ⟨hfront, hvs⟩ := h.committed_eq hsb hnc hus
  -- it is resolved, and commits with its address and data
  obtain ⟨a, d, hready⟩ : ∃ a d, e.resolution = .ready a d := by
    cases hres : e.resolution with
    | pending => rw [hres] at hnp; exact absurd hnp.symm Bool.false_ne_true
    | ready a d => exact ⟨a, d, rfl⟩
    | committed a d => rw [hres] at hnc; exact absurd hnc.symm Bool.false_ne_true
    | cancelled => rw [hres] at hnc; exact absurd hnc.symm Bool.false_ne_true
  obtain ⟨e', he', hready', htag', hwidth'⟩ : ∃ e', StoreBuffer.commitEntry e = e' ∧ e'.resolution = .committed a d ∧
      e'.robTag = e.robTag ∧ e'.width = e.width := by
    refine ⟨_, rfl, ?_⟩
    unfold StoreBuffer.commitEntry
    rw [hready]
    exact ⟨rfl, rfl, rfl⟩
  have hbuf : s.sb.markCommitted e.robTag = ⟨s.sb.capacity, us ++ e' :: vs⟩ := by
    unfold StoreBuffer.markCommitted
    rw [hsb, StoreBuffer.modifyFirst_append hne, he']
  have hacc : e.resolution.access = some (a, d) := by rw [hready]; rfl
  have hacc' : e'.resolution.access = some (a, d) := by rw [hready']; rfl
  have hpatch : e'.patch = e.patch := by
    rw [StoreBufferEntry.patch_of_access hacc', StoreBufferEntry.patch_of_access hacc, hwidth']
  have hret : s.retireStore e.robTag = Overlay.put s.retired e.patch := by
    unfold retireStore
    have hfind : s.sb.entries.find? (fun x => x.robTag == e.robTag) = some e :=
      List.find?_eq_some_iff_append.mpr ⟨by simp, us, vs, hsb, fun u hu => by simpa using hne u hu⟩
    rw [hfind]
  have hmem : ∀ P : StoreBufferEntry → Prop, (∀ x ∈ s.sb.entries, P x) → P e' → ∀ x ∈ us ++ e' :: vs, P x := by
    intro P hall hnew x hx
    rw [hsb] at hall
    rcases List.mem_append.mp hx with hx | hx
    · exact hall x (List.mem_append_left _ hx)
    · rcases List.mem_cons.mp hx with rfl | hx
      · exact hnew
      · exact hall x (List.mem_append_right _ (List.mem_cons_of_mem _ hx))
  rw [hbuf, hret]
  exact {
    stores := by
      have hst := h.stores
      rw [hsb, List.map_append, List.map_cons, ← htag', ← List.map_cons, ← List.map_append] at hst
      exact hst
    loads := h.loads
    live := h.live
    front := by
      have hf := h.front
      rw [hsb, List.pairwise_append, List.pairwise_cons] at hf
      refine List.pairwise_append.mpr
          ⟨hf.1, List.pairwise_cons.mpr ⟨fun y _ _ => ?_, hf.2.1.2⟩, fun x hx _ _ _ => hus x hx⟩
      rw [hready']
      rfl
    behind := hmem (fun x => x.resolution.isCommitted = true →
        ∀ d ∈ s.done, RobTag.isOlderThan x.robTag d.1.robTag = true) h.behind
      fun _ d hd => htag' ▸ hdone d hd
    fits := hmem StoreBufferEntry.Fits h.fits fun b v hb => by
      rw [hwidth']
      exact h.fits e he b v (hacc.trans (hacc'.symm.trans hb))
    ram := hmem (fun x => ∀ a d, x.resolution.access = some (a, d) → s.cpu.isRam a = true ∧
        s.cpu.inHtif a = false) h.ram
      fun b v hb => h.ram e he b v (hacc.trans (hacc'.symm.trans hb))
    memory := by
      show Overlay.lay _ s.cpu.mem ((us ++ e' :: vs).filter fun e => e.resolution.isCommitted) =
          Overlay.put s.retired e.patch
      rw [List.filter_append, List.filter_cons_of_pos (by rw [hready']; rfl), hvs, List.filter_eq_self.mpr hus,
          Overlay.lay_append,
        ← hpatch, ← h.memory, hfront]
      rfl
    readFits := h.readFits
    guarded := fun d hd => (h.guarded d hd).imp id fun hun => by
      unfold StoreBuffer.hasUnresolvedStoreBefore at hun ⊢
      rw [List.any_eq_false] at hun ⊢
      exact hmem _ hun (by rw [hready']; simp [StoreResolution.isPending])
    value := fun d hd htrust => by
      rw [h.value d hd htrust]
      refine congrArg d.1.readFrom ?_
      show StoreBuffer.seen ⟨s.sb.capacity, s.sb.entries⟩ s.cpu.mem _ =
          StoreBuffer.seen ⟨s.sb.capacity, us ++ e' :: vs⟩ s.cpu.mem _
      rw [hsb]
      exact (StoreBuffer.seen_same htag' hpatch).symm
    suspect := h.suspect }

/-- **A memory instruction retires.** -/
theorem Inv.retire [Units U] (h : s.Inv) (hl : s.Legal (.retire m)) : (s.step (.retire m)).Inv := by
  obtain ⟨-, -, hold, hdone, -, hready, hhead⟩ := hl
  have hforget := h.forget fun d => d.1.robTag != m.robTag
  have hyounger :
      ∀ d ∈ s.done.filter fun d => d.1.robTag != m.robTag, RobTag.isOlderThan m.robTag d.1.robTag = true := by
    intro d hd
    obtain ⟨hin, hne⟩ := List.mem_filter.mp hd
    exact hdone d hin (by simpa using hne)
  have hstore : Inv { s with
      mem2 := { s.mem2 with sb := if m.ctrl.memWrite then s.sb.markCommitted m.robTag else s.sb }
      retired := if m.ctrl.memWrite then s.retireStore m.robTag else s.retired
      done := s.done.filter fun d => d.1.robTag != m.robTag } := by
    cases hw : m.ctrl.memWrite with
    | false => exact hforget
    | true =>
      rw [if_pos rfl, if_pos rfl]
      exact hforget.commitStore hold hyounger (hready hw)
  refine hstore.ofLq (if m.ctrl.memRead then s.lq.map fun q => q.deallocate m.robTag else s.lq) ?_ ?_
  · cases hr : m.ctrl.memRead with
    | false => exact h.loads
    | true =>
      rw [if_pos rfl]
      intro q' hq'
      obtain ⟨q, hq, rfl⟩ := Option.map_eq_some_iff.mp hq'
      obtain ⟨hwin, hvalid⟩ := h.loads q hq
      obtain ⟨e, rest, hrest, -, hdealloc⟩ := LoadQueue.deallocate_head hvalid (hhead hr q hq)
      rw [hdealloc]
      rw [hrest] at hwin hvalid
      exact ⟨hwin.sublist (List.sublist_cons_self _ _), fun e he => hvalid e (List.mem_cons_of_mem _ he)⟩
  · cases hr : m.ctrl.memRead with
    | false => exact fun _ _ hw => hw
    | true =>
      rw [if_pos rfl]
      rintro d hd ⟨q, hq, e, he, htag, hwatch⟩
      have hne : d.1.robTag ≠ m.robTag := by simpa using (List.mem_filter.mp hd).2
      obtain ⟨u, rest, hrest, hu, hdealloc⟩ := LoadQueue.deallocate_head (h.loads q hq).2 (hhead hr q hq)
      have hmap : (s.lq.map fun q => q.deallocate m.robTag) = some (q.deallocate m.robTag) :=
        Option.map_eq_some_iff.mpr ⟨q, hq, rfl⟩
      refine ⟨q.deallocate m.robTag, hmap, e, ?_, htag, hwatch⟩
      rw [hdealloc]
      rw [hrest] at he
      rcases List.mem_cons.mp he with rfl | he
      · exact absurd (htag.symm.trans hu) hne
      · exact he

/-- A store-conditional fails: its store is dropped, with everything behind it. -/
theorem Inv.failSc [Units U] (h : s.Inv) {tag : RobTag} (hl : s.Legal (.failSc tag)) : (s.step (.failSc tag)).Inv := by
  obtain ⟨-, ⟨e, he, rfl, hnc⟩, hold⟩ := hl
  obtain ⟨us, vs, hsb⟩ := List.append_of_mem he
  have hne := window_split_ne (hsb ▸ h.stores)
  have hus : ∀ u ∈ us, u.resolution.isCommitted = true := fun u hu =>
    hold u (hsb ▸ List.mem_append_left _ hu) (h.split_older hsb u hu)
  obtain ⟨hfront, hvs⟩ := h.committed_eq hsb hnc hus
  have hcancel : (s.sb.cancel e.robTag).entries = if vs.isEmpty then us else
      us ++ { e with resolution := .cancelled } :: vs := by
    unfold StoreBuffer.cancel
    rw [hsb]
    exact StoreLog.cancelFirst_append hne
  have hmem : ∀ P : StoreBufferEntry → Prop, (∀ x ∈ s.sb.entries, P x) → P { e with resolution := .cancelled } →
      ∀ x ∈ (s.sb.cancel e.robTag).entries, P x := by
    intro P hall hnew x hx
    rw [hcancel] at hx
    rw [hsb] at hall
    split at hx
    · exact hall x (List.mem_append_left _ hx)
    · rcases List.mem_append.mp hx with hx | hx
      · exact hall x (List.mem_append_left _ hx)
      · rcases List.mem_cons.mp hx with rfl | hx
        · exact hnew
        · exact hall x (List.mem_append_right _ (List.mem_cons_of_mem _ hx))
  show (LoadStoreUnit.cutAll { s with mem2 := { s.mem2 with sb := s.sb.cancel e.robTag } }).Inv
  refine cutAll_inv ?_ (hmem _ h.fits fun a d had => absurd had (by simp [StoreResolution.access]))
    (hmem _ h.ram fun a d had => absurd had (by simp [StoreResolution.access])) ?_
  · show Serial.Window s.next ((s.sb.cancel e.robTag).entries.map (·.robTag))
    have hst := h.stores
    rw [hsb] at hst
    rw [hcancel]
    split
    · exact hst.sublist ((List.sublist_append_left _ _).map _)
    · rw [List.map_append, List.map_cons] at hst ⊢
      exact hst
  · show Overlay.lay _ s.cpu.mem ((s.sb.cancel e.robTag).entries.filter fun e => e.resolution.isCommitted) = s.retired
    rw [hcancel, ← h.memory, hfront]
    split
    · rw [List.filter_eq_self.mpr hus]
    · -- the cancelled slot writes nothing
      rw [List.filter_append, List.filter_eq_self.mpr hus, List.filter_cons_of_pos rfl, hvs, Overlay.lay_append]
      funext x
      rfl

/-- **The oldest store drains** to RAM, where program order has it already. -/
theorem Inv.drain [Units U] (h : s.Inv) : (s.step .drain).Inv := by
  show Inv { s with mem2 := { s.mem2 with cpu := (drainOneStore s.cpu s.sb).1, sb := (drainOneStore s.cpu s.sb).2 } }
  cases hd : s.sb.drainOne with
  | none =>
    have hsame : drainOneStore s.cpu s.sb = (s.cpu, s.sb) := by
      unfold drainOneStore
      rw [hd]
    rw [hsame]
    exact h
  | some r =>
    obtain ⟨e, sb⟩ := r
    -- the head of the buffer has retired
    obtain ⟨rest, hsb, hc, rfl⟩ : ∃ rest, s.sb.entries = e :: rest ∧ e.resolution.isCommitted = true ∧
        sb = { s.sb with entries := rest } := by
      unfold StoreBuffer.drainOne at hd
      split at hd
      · exact absurd hd (by simp)
      · next u rest hsb =>
        split at hd
        · next hc =>
          obtain ⟨rfl, rfl⟩ := Prod.mk.inj (Option.some.inj hd)
          exact ⟨rest, hsb, hc, rfl⟩
        · exact absurd hd (by simp)
    have he : e ∈ s.sb.entries := hsb ▸ List.mem_cons_self
    have hrest : ∀ x ∈ rest, x ∈ s.sb.entries := fun x hx => hsb ▸ List.mem_cons_of_mem _ hx
    obtain ⟨c, hdrain, hcmem, hcram, hchtif⟩ : ∃ c, drainOneStore s.cpu s.sb = (c, { s.sb with entries := rest }) ∧
        c.mem = Overlay.put s.cpu.mem e.patch ∧ c.isRam = s.cpu.isRam ∧ c.inHtif = s.cpu.inHtif := by
      cases hres : e.resolution with
      | pending => rw [hres] at hc; exact absurd hc Bool.false_ne_true
      | ready a d => rw [hres] at hc; exact absurd hc Bool.false_ne_true
      | cancelled =>
        refine ⟨s.cpu, by simp only [drainOneStore, hd, hres], ?_, rfl, rfl⟩
        funext x
        unfold Overlay.put StoreBufferEntry.patch
        rw [hres]
        rfl
      | committed a d =>
        obtain ⟨hram, hhtif⟩ := h.ram e he a d (by rw [hres]; rfl)
        have hwrite : ∀ c : Cpu U, c.isRam a = true → c.inHtif a = false →
            c.writeStoreToMemory a d e.width = { c with mem := c.mem.write a e.width.bytes d } := fun c hr hh =>
          if_pos (by simp [hr, hh])
        refine ⟨Cpu.writeStoreToMemory
            { s.cpu with units := Units.storeTraffic s.cpu.units a d e.width.bytes } a d e.width,
          by simp only [drainOneStore, hd, hres, hram, if_true], ?_⟩
        rw [hwrite { s.cpu with units := Units.storeTraffic s.cpu.units a d e.width.bytes } hram hhtif]
        refine ⟨?_, rfl, rfl⟩
        rw [StoreBufferEntry.patch_of_access (by rw [hres]; rfl), ← Mem.write_eq_put]
    rw [hdrain]
    have hf := h.front
    have hst := h.stores
    have hm := h.memory
    rw [hsb] at hf hst hm
    exact {
      stores := hst.sublist (List.sublist_cons_self _ _)
      loads := h.loads
      live := h.live
      front := (List.pairwise_cons.mp hf).2
      behind := fun x hx => h.behind x (hrest x hx)
      fits := fun x hx => h.fits x (hrest x hx)
      ram := fun x hx a d had => by
        show c.isRam a = true ∧ c.inHtif a = false
        rw [hcram, hchtif]
        exact h.ram x (hrest x hx) a d had
      memory := by
        show Overlay.lay _ c.mem (rest.filter fun e => e.resolution.isCommitted) = s.retired
        rw [hcmem, ← hm, List.filter_cons_of_pos (by simp [hc])]
        rfl
      readFits := h.readFits
      guarded := fun d hd => (h.guarded d hd).imp id fun hun => by
        unfold StoreBuffer.hasUnresolvedStoreBefore at hun ⊢
        rw [List.any_eq_false] at hun ⊢
        exact fun x hx => hun x (hrest x hx)
      value := fun d hd htrust => by
        rw [h.value d hd htrust]
        refine congrArg d.1.readFrom ?_
        show StoreBuffer.seen ⟨s.sb.capacity, s.sb.entries⟩ s.cpu.mem _ = StoreBuffer.seen ⟨s.sb.capacity, rest⟩ c.mem _
        rw [hsb, hcmem]
        exact (StoreBuffer.seen_drain (h.behind e he hc d hd)).symm
      suspect := h.suspect }

/-! ### Runs -/

/-- Empty queues before RAM; the in-order backend has no load queue. -/
def start (cpu : Cpu U) (stores : Nat) (loads : Option Nat) (next : RobTag) : LoadStoreUnit U where
  mem2 := { cpu, sb := .new stores, lq := loads.map LoadQueue.new }
  next
  retired := cpu.mem
  done := []

theorem Inv.start (cpu : Cpu U) (stores : Nat) (loads : Option Nat) (next : RobTag) :
    (start cpu stores loads next).Inv := {
  stores := Serial.Window.nil
  loads := by
    intro q hq
    obtain ⟨n, -, rfl⟩ := Option.map_eq_some_iff.mp hq
    exact ⟨Serial.Window.nil, fun e he => absurd he (by simp [LoadQueue.new])⟩
  live := fun d hd => absurd hd (by simp [LoadStoreUnit.start])
  front := List.Pairwise.nil
  behind := fun e he => absurd he (by simp [LoadStoreUnit.start, LoadStoreUnit.sb, StoreBuffer.new])
  fits := fun e he => absurd he (by simp [LoadStoreUnit.start, LoadStoreUnit.sb, StoreBuffer.new])
  ram := fun e he => absurd he (by simp [LoadStoreUnit.start, LoadStoreUnit.sb, StoreBuffer.new])
  memory := rfl
  readFits := fun d hd => absurd hd (by simp [LoadStoreUnit.start])
  guarded := fun d hd => absurd hd (by simp [LoadStoreUnit.start])
  value := fun d hd => absurd hd (by simp [LoadStoreUnit.start])
  suspect := fun v hv => absurd hv (by simp [LoadStoreUnit.start]) }

section Runs

variable [Units U]

/-- **Every call that the pipelines make keeps the invariant.** -/
theorem Inv.step (h : s.Inv) {e : LoadStoreEvent} (hl : s.Legal e) : (s.step e).Inv := by
  cases e with
  | dispatch c => exact h.dispatch hl
  | translate m => exact h.translate hl
  | access m => exact h.access hl
  | recover keep =>
    cases keep with
    | none => exact cutAll_inv h.stores h.fits h.ram h.memory
    | some keep =>
      refine h.cutAfter hl.1 hl.2.1 fun v hv => ?_
      have hcut := hl.2.2
      unfold CutsViolation at hcut
      rw [hv] at hcut
      exact hcut
  | flushAfter keep => exact h.cutAfter hl.2.1 hl.2.2 fun v hv => absurd (hl.1.symm.trans hv) (by simp)
  | flush => exact cutAll_inv h.stores h.fits h.ram h.memory
  | retire m => exact h.retire hl
  | failSc tag => exact h.failSc hl
  | drain => exact h.drain

/-- A load, an LR or an AMO that retires has read the memory of program order. -/
def Ordered (s : LoadStoreUnit U) : LoadStoreEvent → Prop
  | .retire m => m.reads = true → ∀ v, (m, v) ∈ s.done → v = m.readFrom s.retired
  | _ => True

/-- At retirement the stores before the instruction are the retired ones. -/
theorem Inv.ordered (h : s.Inv) {e : LoadStoreEvent} (hl : s.Legal e) : s.Ordered e := by
  cases e with
  | retire m =>
    intro _ v hv
    obtain ⟨hnone, -, hold, -⟩ := hl
    have hval : v = m.readFrom (s.view m.robTag) := h.value (m, v) hv fun x hx => absurd (hnone.symm.trans hx) (by simp)
    rw [hval]
    refine congrArg m.readFrom ?_
    show Overlay.lay _ s.cpu.mem (s.sb.entries.filter fun e => RobTag.isOlderThan e.robTag m.robTag) = s.retired
    rw [← h.memory]
    refine congrArg _ (List.filter_congr fun e he => ?_)
    exact Bool.eq_iff_iff.mpr ⟨hold e he, fun hc => h.behind e he hc (m, v) hv⟩
  | _ => trivial

/-- **Loads see the stores before them.** In every run of the unit, each load, LR and AMO that retires
has the value that the stores and AMOs retired before it leave at its address; and RAM, with the retired
stores that still wait to drain, holds what they leave. -/
theorem run_ordered (cpu : Cpu U) (stores : Nat) (loads : Option Nat) (next : RobTag) (es : List LoadStoreEvent)
    (hl : Runs.Always step Legal (start cpu stores loads next) es) :
    Runs.Always step Ordered (start cpu stores loads next) es ∧
      let s := es.foldl step (start cpu stores loads next)
      Overlay.lay StoreBufferEntry.patch s.cpu.mem (s.sb.entries.filter fun e => e.resolution.isCommitted) =
          s.retired := by
  have hstart := Inv.start cpu stores loads next
  have hend := Runs.inv_of_always Inv hstart (fun s e _ h => h.step) hl
  exact ⟨Runs.always_imp Inv hstart (fun s e _ h => h.step) (fun s e _ h => h.ordered) hl, hend.memory⟩

/-- The loop of memory2 lets through some entries of its latch, in their order. -/
theorem memory2Loop_accesses (s : LoadStoreUnit U) (ms : List Mem1Mem2Entry) :
    ∃ through, through <+: ms ∧ ((through.map .access).foldl step s).mem2 = (memory2Loop s.mem2 ms).2.2 := by
  induction ms generalizing s with
  | nil => exact ⟨[], List.prefix_refl _, rfl⟩
  | cons m ms ih =>
    unfold memory2Loop
    cases m.trap with
    | some t => exact ⟨[], List.nil_prefix, rfl⟩
    | none =>
      cases hone : memory2One s.mem2 m with
      | none => exact ⟨[], List.nil_prefix, rfl⟩
      | some r =>
        obtain ⟨wb, t⟩ := r
        obtain ⟨through, hprefix, hrest⟩ := ih (s.step (.access m))
        have hmem2 : (s.step (.access m)).mem2 = t := by
          rw [step_access, hone]
        refine ⟨m :: through, List.cons_prefix_cons.mpr ⟨rfl, hprefix⟩, ?_⟩
        rw [hmem2] at hrest
        exact hrest

end Runs

/-- A store word and a load of its upper half that reads ahead of it, across the wrap of the tags: the load is
found out, squashed, and reads again from the store buffer. -/
def readAhead : List LoadStoreEvent :=
  let store : ControlSignals := { memWrite := true, width := .word }
  let load : ControlSignals := { memRead := true, regWrite := true, width := .half, signedLoad := true }
  let entry (tag : RobTag) (c : ControlSignals) (a : PhysAddr) : Mem1Mem2Entry :=
    { robTag := tag, pc := 0, inst := 0, instSize := .standard, rd := 1, rdPhys := 1, alu := a, vaddr := a, paddr := a
      storeData := 0x80011234, ctrl := c, trap := none, fpFlags := 0, completeCycle := 0, pteUpdate :=
        none, sfenceVma := none }
  let early := entry 1 load 0x80000002
  let late := entry 2 load 0x80000002
  let stored := entry 0xFFFFFFFF store 0x80000000
  [.dispatch store, .dispatch load, .translate early, .access early, .access stored,
      .recover (some 0xFFFFFFFF), .dispatch load,
    .translate late, .access late, .retire stored, .drain, .retire late]

/-- The core before the run. -/
def quietCore : Cpu Bench := Cpu.new { backend := .outOfOrder } (fun _ => 0) {}

theorem run_ordered_readAhead : Runs.Always step Ordered (start quietCore 4 (some 4) 0xFFFFFFFF) readAhead :=
  (run_ordered quietCore 4 (some 4) 0xFFFFFFFF readAhead (by decide)).1

end LoadStoreUnit

end Rvsim
