/-
  The sector cache is transparent.

  `expected` is the bytes of the last write accepted for a sector, or what the device held at first.
  `Coherent`: a sector has at most one slot, a slot holds the expected bytes, a clean one those of the device,
  and a sector without a slot is as expected on the device itself.

  A buffer that is too SMALL is not refused: the sectors past its last page go to physical address 0.
-/
import Aegir.Block.Driver

namespace Aegir.VirtioBlk

open List Function

/-! ## What is expected -/

variable {log log' : List Event}

/-- The bytes of the last accepted write to each sector. -/
def newest (log : List Event) : UInt64 → Option SectorData :=
  log.foldl (fun m e => match e with
    | .accept s x => update m s (some x)
    | _ => m) fun _ => none

/-- What a sector should read as. -/
def expected (initial : UInt64 → SectorData) (log : List Event) (s : UInt64) : SectorData :=
  (newest log s).getD (initial s)

@[simp]
theorem newest_accept (log : List Event) (s : UInt64) (x : SectorData) :
    newest (log ++ [.accept s x]) = update (newest log) s (some x) := by
  rw [newest, foldl_append]
  rfl

/-- The second log goes on from the first with device requests only. -/
def Requests (log log' : List Event) : Prop := ∃ E, log' = log ++ E ∧ ∀ s x, Event.accept s x ∉ E

theorem Requests.refl (log : List Event) : Requests log log := ⟨[], (append_nil _).symm, fun _ _ h => (nomatch h)⟩

theorem Requests.one (log : List Event) {e : Event} (he : ∀ s x, e ≠ .accept s x) : Requests log (log ++ [e]) :=
  ⟨[e], rfl, fun s x h => he s x (mem_singleton.mp h).symm⟩

theorem Requests.trans {log'' : List Event} (h : Requests log log') (h' : Requests log' log'') :
    Requests log log'' := by
  obtain ⟨E, hE, hno⟩ := h
  obtain ⟨E', hE', hno'⟩ := h'
  refine ⟨E ++ E', by rw [hE', hE, append_assoc], fun s x hm => ?_⟩
  rcases mem_append.mp hm with hm | hm
  · exact hno s x hm
  · exact hno' s x hm

theorem Requests.newest (h : Requests log log') : newest log' = newest log := by
  obtain ⟨E, rfl, hno⟩ := h
  rw [VirtioBlk.newest, foldl_append]
  induction E with
  | nil => rfl
  | cons e E ih =>
    have hrest := ih fun s x hm => hno s x (mem_cons_of_mem _ hm)
    cases e with
    | accept s x => exact absurd mem_cons_self (hno s x)
    | devWrite s x st => exact hrest
    | devRead s n st => exact hrest
    | devFlush st => exact hrest

theorem expected_accept_self (initial : UInt64 → SectorData) (log : List Event) (s : UInt64) (x : SectorData) :
    expected initial (log ++ [.accept s x]) s = x := by
  rw [expected, newest_accept, update_self]
  rfl

theorem expected_accept_ne (initial : UInt64 → SectorData) (log : List Event) {s t : UInt64} (x : SectorData)
    (h : t ≠ s) : expected initial (log ++ [.accept s x]) t = expected initial log t := by
  rw [expected, newest_accept, update_of_ne h]
  rfl

/-! ## The invariant -/

variable {d' : Driver}

/-- The cache and the device against what is expected. -/
structure Coherent (initial : UInt64 → SectorData) (d : Driver) : Prop where
  uniq : ∀ i j, (d.slot i).valid = true → (d.slot j).valid = true → (d.slot i).sector = (d.slot j).sector → i = j
  clean : ∀ i, (d.slot i).valid = true → (d.slot i).dirty = false → (d.slot i).data = d.device (d.slot i).sector
  holds : ∀ i, (d.slot i).valid = true → (d.slot i).data = expected initial d.log (d.slot i).sector
  absent : ∀ t, (∀ i, (d.slot i).valid = true → (d.slot i).sector ≠ t) → d.device t = expected initial d.log t

/-- What stays through every run: whether the flush feature was negotiated, and how the device answers. -/
def Driver.setup (d : Driver) : Bool × (Nat → UInt8) := (d.haveFlush, d.fate)

/-- Two drivers whose caches differ in the ages at most. -/
structure SameCache (d d' : Driver) : Prop where
  valid : ∀ i, (d'.slot i).valid = (d.slot i).valid
  dirty : ∀ i, (d'.slot i).dirty = (d.slot i).dirty
  sector : ∀ i, (d'.slot i).sector = (d.slot i).sector
  data : ∀ i, (d'.slot i).data = (d.slot i).data
  device : d'.device = d.device
  log : Requests d.log d'.log
  setup : d'.setup = d.setup

theorem SameCache.refl (d : Driver) : SameCache d d :=
  ⟨fun _ => rfl, fun _ => rfl, fun _ => rfl, fun _ => rfl, rfl, Requests.refl _, rfl⟩

theorem SameCache.trans {d d'' : Driver} (h : SameCache d d') (h' : SameCache d' d'') : SameCache d d'' where
  valid i := (h'.valid i).trans (h.valid i)
  dirty i := (h'.dirty i).trans (h.dirty i)
  sector i := (h'.sector i).trans (h.sector i)
  data i := (h'.data i).trans (h.data i)
  device := h'.device.trans h.device
  log := h.log.trans h'.log
  setup := h'.setup.trans h.setup

theorem SameCache.expected {d : Driver} (h : SameCache d d') (initial : UInt64 → SectorData) :
    expected initial d'.log = expected initial d.log := by
  funext s
  rw [VirtioBlk.expected, h.log.newest]
  rfl

theorem SameCache.coherent {initial : UInt64 → SectorData} {d : Driver} (h : SameCache d d')
    (hc : Coherent initial d) : Coherent initial d' := by
  refine ⟨?_, ?_, ?_, ?_⟩
  · intro i j hi hj hs
    rw [h.valid] at hi hj
    rw [h.sector, h.sector] at hs
    exact hc.uniq i j hi hj hs
  · intro i hi hd
    rw [h.valid] at hi
    rw [h.dirty] at hd
    rw [h.data, h.sector, h.device]
    exact hc.clean i hi hd
  · intro i hi
    rw [h.valid] at hi
    rw [h.data, h.sector, h.expected]
    exact hc.holds i hi
  · intro t ht
    rw [h.device, h.expected]
    refine hc.absent t fun i hi => ?_
    rw [← h.sector]
    exact ht i ((h.valid i).trans hi)

theorem touch_same (d : Driver) (s : Fin cacheSlots) : SameCache d (d.touch s) := by
  have hslot : ∀ i, (d.touch s).slot i = { d.slot i with age := ((d.touch s).slot i).age } := by
    intro i
    by_cases h : i = s
    · rw [h]
      simp only [Driver.touch, update_self]
    · simp only [Driver.touch, update_of_ne h]
  refine ⟨?_, ?_, ?_, ?_, rfl, Requests.refl _, rfl⟩
  all_goals
    intro i
    rw [hslot i]

theorem readDone_same (d : Driver) (sector : UInt64) (count : Nat) : SameCache d (d.readDone sector count).1 :=
  ⟨fun _ => rfl, fun _ => rfl, fun _ => rfl, fun _ => rfl, rfl, Requests.one _ fun _ _ h => (nomatch h), rfl⟩

theorem deviceFlush_same (d : Driver) : SameCache d d.deviceFlush :=
  ⟨fun _ => rfl, fun _ => rfl, fun _ => rfl, fun _ => rfl, rfl, Requests.one _ fun _ _ h => (nomatch h), rfl⟩

theorem online_coherent (device : UInt64 → SectorData) (fate : Nat → UInt8) (capacity : UInt64)
    (haveFlush : Bool) : Coherent device (Driver.online device fate capacity haveFlush) :=
  ⟨fun _ _ hi => (nomatch hi), fun _ hi => (nomatch hi), fun _ hi => (nomatch hi), fun _ _ => rfl⟩

/-! ## The parts of the driver one write at a time -/

section Parts

variable {initial : UInt64 → SectorData} {d : Driver} {sector : UInt64}

theorem findSlot_some {s : Fin cacheSlots} (h : d.findSlot sector = some s) :
    (d.slot s).valid = true ∧ (d.slot s).sector = sector := by
  have hp := find?_some h
  simpa using hp

theorem findSlot_none (h : d.findSlot sector = none) :
    ∀ i, (d.slot i).valid = true → (d.slot i).sector ≠ sector := by
  intro i hi hs
  have hp := find?_eq_none.mp h i (mem_finRange i)
  exact hp (by simp [hi, hs])

theorem writeSector_fst (d : Driver) (sector : UInt64) (data : SectorData) :
    (d.writeSector sector data).1.slot = d.slot ∧ Requests d.log (d.writeSector sector data).1.log :=
  ⟨rfl, Requests.one _ fun _ _ h => (nomatch h)⟩

theorem writeSector_device (d : Driver) (sector : UInt64) (data : SectorData) :
    ((d.writeSector sector data).2 = 0 ∧ (d.writeSector sector data).1.device = update d.device sector data) ∨
      ((d.writeSector sector data).2 ≠ 0 ∧ (d.writeSector sector data).1.device = d.device) := by
  by_cases h : d.fate d.requests = 0
  · exact .inl ⟨h, if_pos h⟩
  · exact .inr ⟨h, if_neg h⟩

/-- The write of a valid slot keeps the invariant, with the slot marked clean when it succeeded. -/
theorem Coherent.writeSlot (hc : Coherent initial d) {s : Fin cacheSlots} (hs : (d.slot s).valid = true) :
    let w := d.writeSector (d.slot s).sector (d.slot s).data
    (w.2 ≠ 0 → Coherent initial w.1) ∧ (w.2 = 0 → Coherent initial (w.1.setSlot s false (d.slot s).sector)) := by
  intro w
  obtain ⟨hslot, hnew⟩ := writeSector_fst d (d.slot s).sector (d.slot s).data
  have hexp : expected initial w.1.log = expected initial d.log := by
    funext t
    rw [expected, hnew.newest]
    rfl
  rcases writeSector_device d (d.slot s).sector (d.slot s).data with ⟨h0, hdev⟩ | ⟨h0, hdev⟩
  · refine ⟨fun h => absurd h0 h, fun _ => ?_⟩
    have hset : ∀ i, (w.1.setSlot s false (d.slot s).sector).slot i
        = if i = s then { d.slot s with valid := true, dirty := false } else d.slot i := by
      intro i
      split_ifs with hi
      · rw [hi]
        show update w.1.slot s _ s = _
        rw [update_self, hslot]
      · show update w.1.slot s _ i = _
        rw [update_of_ne hi, hslot]
    have hvalid : ∀ i, ((w.1.setSlot s false (d.slot s).sector).slot i).valid = (d.slot i).valid := by
      intro i
      rw [hset]
      split_ifs with hi
      · rw [hi, hs]
      · rfl
    have hsector : ∀ i, ((w.1.setSlot s false (d.slot s).sector).slot i).sector = (d.slot i).sector := by
      intro i
      rw [hset]
      split_ifs with hi
      · rw [hi]
      · rfl
    have hdata : ∀ i, ((w.1.setSlot s false (d.slot s).sector).slot i).data = (d.slot i).data := by
      intro i
      rw [hset]
      split_ifs with hi
      · rw [hi]
      · rfl
    have hdevice : (w.1.setSlot s false (d.slot s).sector).device
        = update d.device (d.slot s).sector (d.slot s).data := hdev
    refine ⟨?_, ?_, ?_, ?_⟩
    · intro i j hi hj hij
      rw [hvalid] at hi hj
      rw [hsector, hsector] at hij
      exact hc.uniq i j hi hj hij
    · intro i hi hd
      rw [hvalid] at hi
      rw [hdata, hsector, hdevice]
      by_cases his : i = s
      · rw [his, update_self]
      · have hne : (d.slot i).sector ≠ (d.slot s).sector := fun h => his (hc.uniq i s hi hs h)
        rw [hset, if_neg his] at hd
        rw [update_of_ne hne]
        exact hc.clean i hi hd
    · intro i hi
      rw [hvalid] at hi
      show _ = expected initial w.1.log _
      rw [hdata, hsector, hexp]
      exact hc.holds i hi
    · intro t ht
      have ht' : ∀ i, (d.slot i).valid = true → (d.slot i).sector ≠ t := by
        intro i hi
        rw [← hsector]
        exact ht i ((hvalid i).trans hi)
      show _ = expected initial w.1.log _
      rw [hdevice, hexp, update_of_ne (Ne.symm (ht' s hs))]
      exact hc.absent t ht'
  · refine ⟨fun _ => ?_, fun h => absurd h h0⟩
    have hsame : SameCache d w.1 := ⟨fun _ => rfl, fun _ => rfl, fun _ => rfl, fun _ => rfl, hdev, hnew, rfl⟩
    exact hsame.coherent hc

/-- The slot `s` belongs to `sector` and everything else is coherent. -/
structure Ready (initial : UInt64 → SectorData) (d : Driver) (s : Fin cacheSlots) (sector : UInt64) : Prop where
  valid : (d.slot s).valid = true
  sector_eq : (d.slot s).sector = sector
  uniq : ∀ i j, (d.slot i).valid = true → (d.slot j).valid = true → (d.slot i).sector = (d.slot j).sector → i = j
  clean : ∀ i, i ≠ s → (d.slot i).valid = true → (d.slot i).dirty = false →
    (d.slot i).data = d.device (d.slot i).sector
  holds : ∀ i, i ≠ s → (d.slot i).valid = true → (d.slot i).data = expected initial d.log (d.slot i).sector
  absent : ∀ t, t ≠ sector → (∀ i, (d.slot i).valid = true → (d.slot i).sector ≠ t) →
    d.device t = expected initial d.log t

theorem Coherent.setSlot_ready (hc : Coherent initial d) {s : Fin cacheSlots}
    (hnone : ∀ i, (d.slot i).valid = true → (d.slot i).sector ≠ sector)
    (hold : (d.slot s).valid = true → d.device (d.slot s).sector = expected initial d.log (d.slot s).sector) :
    Ready initial (d.setSlot s false sector) s sector := by
  have hself : (d.setSlot s false sector).slot s = { d.slot s with valid := true, dirty := false, sector := sector } :=
    update_self _ _ _
  have hother : ∀ i, i ≠ s → (d.setSlot s false sector).slot i = d.slot i := fun i hi =>
    update_of_ne hi _ _
  have hcases : ∀ i, ((d.setSlot s false sector).slot i).valid = true → i = s ∨ i ≠ s ∧ (d.slot i).valid = true := by
    intro i hi
    by_cases his : i = s
    · exact .inl his
    · rw [hother i his] at hi
      exact .inr ⟨his, hi⟩
  refine ⟨by rw [hself], by rw [hself], ?_, ?_, ?_, ?_⟩
  · intro i j hi hj hij
    rcases hcases i hi with rfl | ⟨his, hi'⟩ <;> rcases hcases j hj with rfl | ⟨hjs, hj'⟩
    · rfl
    · rw [hself, hother j hjs] at hij
      exact absurd hij.symm (hnone j hj')
    · rw [hself, hother i his] at hij
      exact absurd hij (hnone i hi')
    · rw [hother i his, hother j hjs] at hij
      exact hc.uniq i j hi' hj' hij
  · intro i his hi hd
    rw [hother i his] at hi hd ⊢
    exact hc.clean i hi hd
  · intro i his hi
    rw [hother i his] at hi ⊢
    exact hc.holds i hi
  · intro t hts ht
    by_cases hold' : (d.slot s).valid = true ∧ (d.slot s).sector = t
    · rw [← hold'.2]
      exact hold hold'.1
    · refine hc.absent t fun i hi hit => ?_
      by_cases his : i = s
      · exact hold' ⟨his ▸ hi, his ▸ hit⟩
      · exact ht i (by rw [hother i his]; exact hi) (by rw [hother i his]; exact hit)

theorem Ready.same {s : Fin cacheSlots} (hr : Ready initial d s sector)
    (h : SameCache d d') : Ready initial d' s sector := by
  refine ⟨(h.valid s).trans hr.valid, (h.sector s).trans hr.sector_eq, ?_, ?_, ?_, ?_⟩
  · intro i j hi hj hs
    rw [h.valid] at hi hj
    rw [h.sector, h.sector] at hs
    exact hr.uniq i j hi hj hs
  · intro i his hi hd
    rw [h.valid] at hi
    rw [h.dirty] at hd
    rw [h.data, h.sector, h.device]
    exact hr.clean i his hi hd
  · intro i his hi
    rw [h.valid] at hi
    rw [h.data, h.sector, h.expected]
    exact hr.holds i his hi
  · intro t hts ht
    rw [h.device, h.expected]
    refine hr.absent t hts fun i hi => ?_
    rw [← h.sector]
    exact ht i ((h.valid i).trans hi)

theorem Ready.store {s : Fin cacheSlots} (hr : Ready initial d s sector) (data : SectorData) :
    Coherent initial (d.storeSector s sector data) := by
  have hself : (d.storeSector s sector data).slot s = { d.slot s with dirty := true, data := data } :=
    update_self _ _ _
  have hother : ∀ i, i ≠ s → (d.storeSector s sector data).slot i = d.slot i := fun i hi =>
    update_of_ne hi _ _
  have hvalid : ∀ i, ((d.storeSector s sector data).slot i).valid = (d.slot i).valid := by
    intro i
    by_cases his : i = s
    · rw [his, hself]
    · rw [hother i his]
  have hsector : ∀ i, ((d.storeSector s sector data).slot i).sector = (d.slot i).sector := by
    intro i
    by_cases his : i = s
    · rw [his, hself]
    · rw [hother i his]
  have hne : ∀ i, i ≠ s → (d.slot i).valid = true → (d.slot i).sector ≠ sector := by
    intro i his hi h
    exact his (hr.uniq i s hi hr.valid (h.trans hr.sector_eq.symm))
  refine ⟨?_, ?_, ?_, ?_⟩
  · intro i j hi hj hij
    rw [hvalid] at hi hj
    rw [hsector, hsector] at hij
    exact hr.uniq i j hi hj hij
  · intro i hi hd
    by_cases his : i = s
    · rw [his, hself] at hd
      cases hd
    · rw [hvalid] at hi
      rw [hother i his] at hd ⊢
      exact hr.clean i his hi hd
  · intro i hi
    rw [hvalid] at hi
    show _ = expected initial (d.log ++ [.accept sector data]) _
    by_cases his : i = s
    · rw [hsector, his, hself, hr.sector_eq, expected_accept_self]
    · rw [hsector, hother i his, expected_accept_ne _ _ _ (hne i his hi)]
      exact hr.holds i his hi
  · intro t ht
    have ht' : ∀ i, (d.slot i).valid = true → (d.slot i).sector ≠ t := by
      intro i hi
      rw [← hsector]
      exact ht i ((hvalid i).trans hi)
    have hts : t ≠ sector := fun h => ht' s hr.valid (hr.sector_eq.trans h.symm)
    show d.device t = expected initial (d.log ++ [.accept sector data]) t
    rw [expected_accept_ne _ _ _ hts]
    exact hr.absent t hts ht'

section

variable (hc : Coherent initial d)

include hc

theorem Coherent.slotFor (sector : UInt64) :
    match d.slotFor sector with
    | (d', none) => Coherent initial d'
    | (d', some s) => Ready initial d' s sector := by
  unfold Driver.slotFor
  cases hf : d.findSlot sector with
  | some s =>
    obtain ⟨hv, hs⟩ := findSlot_some hf
    exact ⟨hv, hs, hc.uniq, fun i _ => hc.clean i, fun i _ => hc.holds i, fun t _ => hc.absent t⟩
  | none =>
    have hnone := findSlot_none hf
    unfold Driver.allocSlot
    cases hfree : (finRange cacheSlots).find? fun s => ¬ (d.slot s).valid with
    | some s =>
      have hinv : (d.slot s).valid = false := by simpa using find?_some hfree
      refine Ready.same ?_ (touch_same _ s)
      exact hc.setSlot_ready hnone fun h => absurd h (by rw [hinv]; exact Bool.false_ne_true)
    | none =>
      have hall : ∀ i, (d.slot i).valid = true := by
        intro i
        have hp := find?_eq_none.mp hfree i (mem_finRange i)
        simpa using hp
      generalize hvic : d.oldest = victim
      by_cases hdirty : (d.slot victim).dirty = true
      · rw [if_pos hdirty]
        have hw := hc.writeSlot (hall victim)
        have hfst := writeSector_fst d (d.slot victim).sector (d.slot victim).data
        cases hws : d.writeSector (d.slot victim).sector (d.slot victim).data with
        | mk d1 status =>
          rw [hws] at hw hfst
          simp only [] at hw hfst ⊢
          split_ifs with hst
          · exact hw.1 hst
          · -- the slot marked clean is coherent, so its old sector is on the device
            have hc1 := hw.2 (not_not.mp hst)
            have hslot : d1.slot = d.slot := hfst.1
            have hmark : (d1.setSlot victim false (d.slot victim).sector).slot victim
                = { d.slot victim with valid := true, dirty := false } := by
              show update d1.slot victim _ victim = _
              rw [update_self, hslot]
            have hsame : d1.setSlot victim false sector
                = (d1.setSlot victim false (d.slot victim).sector).setSlot victim false sector := by
              simp only [Driver.setSlot, update_idem, update_self]
            refine Ready.same ?_ (touch_same _ victim)
            rw [hsame]
            refine hc1.setSlot_ready ?_ ?_
            · intro i hi
              by_cases hiv : i = victim
              · rw [hiv, hmark]
                exact hnone victim (hall victim)
              · have hother : (d1.setSlot victim false (d.slot victim).sector).slot i = d.slot i := by
                  show update d1.slot victim _ i = _
                  rw [update_of_ne hiv, hslot]
                rw [hother]
                exact hnone i (hall i)
            · intro hv
              have hclean : ((d1.setSlot victim false (d.slot victim).sector).slot victim).dirty = false := by
                rw [hmark]
              exact (hc1.clean victim hv hclean).symm.trans (hc1.holds victim hv)
      · rw [if_neg hdirty]
        refine Ready.same ?_ (touch_same _ victim)
        refine hc.setSlot_ready hnone fun hv => ?_
        rw [← hc.clean victim hv (Bool.eq_false_iff.mpr hdirty)]
        exact hc.holds victim hv

theorem Coherent.writeSectors (sector : UInt64) (b : Buffer) (is : List Nat) :
    Coherent initial (Driver.writeSectors sector b is d).1 := by
  induction is generalizing d with
  | nil => exact hc
  | cons i is ih =>
    unfold Driver.writeSectors
    have hslot := hc.slotFor (sector + UInt64.ofNat i)
    cases hs : d.slotFor (sector + UInt64.ofNat i) with
    | mk d' found =>
      rw [hs] at hslot
      cases found with
      | none => exact hslot
      | some s => exact ih ((touch_same _ s).coherent (hslot.store (b.content i)))

theorem Coherent.writeBack (is : List (Fin cacheSlots)) :
    Coherent initial (Driver.writeBack is d).1 := by
  induction is generalizing d with
  | nil => exact hc
  | cons s is ih =>
    unfold Driver.writeBack
    split_ifs with hd
    · have hw := hc.writeSlot hd.1
      cases hws : d.writeSector (d.slot s).sector (d.slot s).data with
      | mk d' status =>
        rw [hws] at hw
        have hslot : d'.slot = d.slot := by
          have := (writeSector_fst d (d.slot s).sector (d.slot s).data).1
          rw [hws] at this
          exact this
        simp only [] at hw ⊢
        split_ifs with hst
        · exact hw.1 hst
        · rw [hslot]
          exact ih (hw.2 (not_not.mp hst))
    · exact ih hc

theorem Coherent.flushDirty (force : Bool) : Coherent initial (d.flushDirty force).1 := by
  unfold Driver.flushDirty
  split
  · exact hc
  · have hw := hc.writeBack (finRange cacheSlots)
    cases hwb : Driver.writeBack (finRange cacheSlots) d with
    | mk d' ok =>
      rw [hwb] at hw
      cases ok with
      | false => exact hw
      | true =>
        simp only []
        split
        · exact (deviceFlush_same d').coherent hw
        · exact hw

end

end Parts

end Aegir.VirtioBlk
