/-
  What a flush promises.

  When `Op_Flush` answers 0, the last bytes accepted for each sector have been written with status 0.  Two
  things do NOT follow: the status of `VIRTIO_BLK_T_FLUSH` is not looked at, and a pass ends at the first
  write that fails, so a slot that keeps failing keeps every slot BEHIND it from the device.  `FlushOk` and
  `PassOk` exclude the two.
-/
import Aegir.Block.Reads

namespace Aegir.VirtioBlk

open List Function

/-! ## The last write to a sector -/

variable {B log log' : List Event} {x : SectorData}

/-- `x` is what was last accepted for `s`, and `B` happened since. -/
def Lasts (log : List Event) (s : UInt64) (x : SectorData) (B : List Event) : Prop :=
  ∃ A, log = A ++ .accept s x :: B ∧ ∀ y, Event.accept s y ∉ B

/-- The last bytes accepted for each sector have since been written with status 0. -/
def Persisted (log : List Event) : Prop := ∀ s x B, Lasts log s x B → Event.devWrite s x 0 ∈ B

theorem Lasts.of_requests {s : UInt64} (h : Lasts log' s x B) (hr : Requests log log') :
    ∃ B0 E, B = B0 ++ E ∧ log' = log ++ E ∧ Lasts log s x B0 := by
  obtain ⟨E, hE, hno⟩ := hr
  obtain ⟨A, hA, hlast⟩ := h
  rw [hE] at hA
  rcases append_eq_append_iff.mp hA with ⟨as, -, hEA⟩ | ⟨bs, hlog, hcons⟩
  · -- the acceptance would be one of the requests
    exact absurd (hEA ▸ mem_append_right _ mem_cons_self) (hno s x)
  · cases bs with
    | nil => exact absurd ((nil_append E ▸ hcons) ▸ mem_cons_self) (hno s x)
    | cons b bs =>
      injection hcons with hb hB
      subst hb
      exact ⟨bs, E, hB, hE, A, hlog, fun y hy => hlast y (hB ▸ mem_append_left _ hy)⟩

theorem Lasts.of_accept {s t : UInt64} {y : SectorData} (h : Lasts (log ++ [.accept t y]) s x B) :
    (s = t ∧ x = y) ∨ s ≠ t ∧ ∃ B0, B = B0 ++ [.accept t y] ∧ Lasts log s x B0 := by
  obtain ⟨A, hA, hlast⟩ := h
  rcases eq_nil_or_concat B with rfl | ⟨B0, e, rfl⟩
  · have hend := append_inj_right' hA rfl
    injection hend with hend
    injection hend with hs hx
    exact .inl ⟨hs.symm, hx.symm⟩
  · rw [concat_eq_append] at hA hlast ⊢
    rw [← cons_append, ← append_assoc] at hA
    have hend := append_inj_right' hA rfl
    have hrest := append_inj_left' hA rfl
    injection hend with hend
    refine .inr ⟨?_, B0, by rw [hend], A, hrest, fun y' hy => hlast y' (mem_append_left _ hy)⟩
    rintro rfl
    exact hlast y (hend ▸ mem_append_right _ (mem_singleton_self _))

/-! ## Until it is written, it is in a dirty slot -/

/-- The bytes accepted last wait in a dirty slot, or have been written. -/
def Pending (d : Driver) : Prop :=
  ∀ s x B, Lasts d.log s x B →
    (∃ i, (d.slot i).valid = true ∧ (d.slot i).dirty = true ∧ (d.slot i).sector = s ∧ (d.slot i).data = x) ∨
      Event.devWrite s x 0 ∈ B

section Keeps

variable {initial : UInt64 → SectorData} {d d' : Driver}

theorem Pending.requests {E : List Event} (h : Pending d) (hlog : d'.log = d.log ++ E)
    (hno : ∀ s x, Event.accept s x ∉ E)
    (hslot : ∀ i, (d.slot i).valid = true → (d.slot i).dirty = true →
      ((d'.slot i).valid = true ∧ (d'.slot i).dirty = true ∧ (d'.slot i).sector = (d.slot i).sector ∧
        (d'.slot i).data = (d.slot i).data) ∨ Event.devWrite (d.slot i).sector (d.slot i).data 0 ∈ E) :
    Pending d' := by
  intro s x B hlast
  obtain ⟨B0, E', rfl, hE', hold⟩ := hlast.of_requests ⟨E, hlog, hno⟩
  have hEE : E' = E := append_cancel_left (hE'.symm.trans hlog)
  subst hEE
  rcases h s x B0 hold with ⟨i, hv, hd, hs, hx⟩ | hw
  · rcases hslot i hv hd with ⟨hv', hd', hs', hx'⟩ | hw
    · exact .inl ⟨i, hv', hd', hs'.trans hs, hx'.trans hx⟩
    · rw [hs, hx] at hw
      exact .inr (mem_append_right _ hw)
  · exact .inr (mem_append_left _ hw)

theorem SameCache.pending (h : SameCache d d') (hp : Pending d) : Pending d' := by
  obtain ⟨E, hE, hno⟩ := h.log
  refine hp.requests hE hno fun i hv hd => .inl ?_
  exact ⟨(h.valid i).trans hv, (h.dirty i).trans hd, h.sector i, h.data i⟩

section

variable (h : Pending d)

include h

theorem Pending.setSlot {s : Fin cacheSlots} (sector : UInt64)
    (hs : (d.slot s).valid = true → (d.slot s).dirty = false) : Pending (d.setSlot s false sector) := by
  refine h.requests (append_nil _).symm (fun _ _ hm => (nomatch hm)) fun i hv hd => .inl ?_
  have hne : i ≠ s := by
    rintro rfl
    rw [hs hv] at hd
    cases hd
  have hslot : (d.setSlot s false sector).slot i = d.slot i := update_of_ne hne _ _
  rw [hslot]
  exact ⟨hv, hd, rfl, rfl⟩

theorem Pending.writeSlot {s : Fin cacheSlots} (sector : UInt64) :
    ((d.writeSector (d.slot s).sector (d.slot s).data).2 ≠ 0 →
        Pending (d.writeSector (d.slot s).sector (d.slot s).data).1) ∧
      ((d.writeSector (d.slot s).sector (d.slot s).data).2 = 0 →
        Pending ((d.writeSector (d.slot s).sector (d.slot s).data).1.setSlot s false sector)) := by
  have hno : ∀ t x, Event.accept t x ∉
      [Event.devWrite (d.slot s).sector (d.slot s).data (d.fate d.requests)] := fun t x hm => by
    cases mem_singleton.mp hm
  constructor
  · intro _
    exact h.requests rfl hno fun i hv hd => .inl ⟨hv, hd, rfl, rfl⟩
  · intro h0
    refine h.requests rfl hno fun i hv hd => ?_
    by_cases hi : i = s
    · right
      have hst : d.fate d.requests = 0 := h0
      rw [hi, hst]
      exact mem_singleton_self _
    · left
      have hslot : ((d.writeSector (d.slot s).sector (d.slot s).data).1.setSlot s false sector).slot i = d.slot i :=
        update_of_ne hi _ _
      rw [hslot]
      exact ⟨hv, hd, rfl, rfl⟩

theorem Pending.slotFor (sector : UInt64) : Pending (d.slotFor sector).1 := by
  unfold Driver.slotFor
  cases d.findSlot sector with
  | some s => exact h
  | none =>
    unfold Driver.allocSlot
    cases hfree : (finRange cacheSlots).find? fun s => ¬ (d.slot s).valid with
    | some s =>
      have hinv : (d.slot s).valid = false := by simpa using find?_some hfree
      refine (touch_same _ s).pending (h.setSlot sector fun hv => ?_)
      rw [hinv] at hv
      cases hv
    | none =>
      generalize d.oldest = victim
      by_cases hdirty : (d.slot victim).dirty = true
      · rw [if_pos hdirty]
        have hw := h.writeSlot (s := victim) sector
        cases hws : d.writeSector (d.slot victim).sector (d.slot victim).data with
        | mk d1 status =>
          rw [hws] at hw
          simp only [] at hw ⊢
          split_ifs with hst
          · exact hw.1 hst
          · exact (touch_same _ victim).pending (hw.2 (not_not.mp hst))
      · rw [if_neg hdirty]
        exact (touch_same _ victim).pending (h.setSlot sector fun _ => Bool.eq_false_iff.mpr hdirty)

theorem Pending.store {s : Fin cacheSlots} {sector : UInt64} (hr : Ready initial d s sector)
    (data : SectorData) : Pending (d.storeSector s sector data) := by
  intro t x B hlast
  have hself : (d.storeSector s sector data).slot s = { d.slot s with dirty := true, data := data } :=
    update_self _ _ _
  rcases hlast.of_accept with ⟨rfl, rfl⟩ | ⟨hne, B0, rfl, hold⟩
  · refine .inl ⟨s, ?_, ?_, ?_, ?_⟩
    · rw [hself]
      exact hr.valid
    · rw [hself]
    · rw [hself]
      exact hr.sector_eq
    · rw [hself]
  · rcases h t x B0 hold with ⟨i, hv, hd, hs, hx⟩ | hw
    · have his : i ≠ s := by
        rintro rfl
        exact hne (hs.symm.trans hr.sector_eq)
      have hslot : (d.storeSector s sector data).slot i = d.slot i := update_of_ne his _ _
      refine .inl ⟨i, ?_⟩
      rw [hslot]
      exact ⟨hv, hd, hs, hx⟩
    · exact .inr (mem_append_left _ hw)

theorem Pending.writeSectors (hc : Coherent initial d) (sector : UInt64) (b : Buffer)
    (is : List Nat) : Pending (Driver.writeSectors sector b is d).1 := by
  induction is generalizing d with
  | nil => exact h
  | cons i is ih =>
    unfold Driver.writeSectors
    have hslot := hc.slotFor (sector + UInt64.ofNat i)
    have hp := h.slotFor (sector + UInt64.ofNat i)
    cases hs : d.slotFor (sector + UInt64.ofNat i) with
    | mk d1 found =>
      rw [hs] at hslot hp
      cases found with
      | none => exact hp
      | some s =>
        have htouch := touch_same (d1.storeSector s (sector + UInt64.ofNat i) (b.content i)) s
        exact ih (htouch.pending (hp.store hslot (b.content i))) (htouch.coherent (hslot.store (b.content i)))

theorem Pending.writeBack (is : List (Fin cacheSlots)) : Pending (Driver.writeBack is d).1 := by
  induction is generalizing d with
  | nil => exact h
  | cons s is ih =>
    unfold Driver.writeBack
    split_ifs with hd
    · have hw := h.writeSlot (s := s) (d.slot s).sector
      have hslot := (writeSector_fst d (d.slot s).sector (d.slot s).data).1
      cases hws : d.writeSector (d.slot s).sector (d.slot s).data with
      | mk d1 status =>
        rw [hws] at hw hslot
        simp only [] at hw hslot ⊢
        split_ifs with hst
        · exact hw.1 hst
        · rw [hslot]
          exact ih (hw.2 (not_not.mp hst))
    · exact ih h

theorem Pending.flushDirty (force : Bool) : Pending (d.flushDirty force).1 := by
  unfold Driver.flushDirty
  split
  · exact h
  · have hw := h.writeBack (finRange cacheSlots)
    cases hwb : Driver.writeBack (finRange cacheSlots) d with
    | mk d1 ok =>
      rw [hwb] at hw
      cases ok with
      | false => exact hw
      | true =>
        simp only []
        split
        · exact (deviceFlush_same d1).pending hw
        · exact hw

theorem Pending.serve (hc : Coherent initial d) (r : Request) : Pending (d.serve r).1 :=
  serve_induct d r (fun _ hsame => hsame.pending h) (h.flushDirty true) fun sector b is =>
    h.writeSectors hc sector b is

theorem Pending.turn (hc : Coherent initial d) (r : Request) : Pending (d.turn r).1 :=
  (h.flushDirty false).serve (hc.flushDirty false) r

end

end Keeps

/-! ## A pass that comes to its end -/

theorem writeBack_clean (is : List (Fin cacheSlots)) (d : Driver) (h : (Driver.writeBack is d).2 = true) :
    (∀ s ∈ is, (Driver.writeBack is d).1.dirtySlot s = false) ∧
      ∀ s, d.dirtySlot s = false → (Driver.writeBack is d).1.dirtySlot s = false := by
  induction is generalizing d with
  | nil => exact ⟨fun s hs => (nomatch hs), fun s hs => hs⟩
  | cons t is ih =>
    unfold Driver.writeBack at h ⊢
    by_cases hd : (d.slot t).valid = true ∧ (d.slot t).dirty = true
    · rw [if_pos hd] at h ⊢
      have hslot := (writeSector_fst d (d.slot t).sector (d.slot t).data).1
      cases hws : d.writeSector (d.slot t).sector (d.slot t).data with
      | mk d1 status =>
        rw [hws] at h hslot
        simp only [] at h hslot ⊢
        by_cases hst : status ≠ 0
        · rw [if_pos hst] at h
          cases h
        · rw [if_neg hst] at h ⊢
          obtain ⟨hin, hkeep⟩ := ih _ h
          have hclean : ∀ s, s = t ∨ d.dirtySlot s = false →
              (d1.setSlot t false (d1.slot t).sector).dirtySlot s = false := by
            intro s hs
            by_cases hst' : s = t
            · rw [hst']
              show ((update d1.slot t _ t).valid && (update d1.slot t _ t).dirty) = false
              rw [update_self]
              rfl
            · rcases hs with hs | hs
              · exact absurd hs hst'
              · show ((update d1.slot t _ s).valid && (update d1.slot t _ s).dirty) = false
                rw [update_of_ne hst', hslot]
                exact hs
          refine ⟨?_, fun s hs => hkeep s (hclean s (.inr hs))⟩
          intro s hs
          rcases mem_cons.mp hs with rfl | hs
          · exact hkeep s (hclean s (.inl rfl))
          · exact hin s hs
    · rw [if_neg hd] at h ⊢
      obtain ⟨hin, hkeep⟩ := ih d h
      refine ⟨?_, hkeep⟩
      intro s hs
      rcases mem_cons.mp hs with rfl | hs
      · refine hkeep s ?_
        unfold Driver.dirtySlot
        cases hv : (d.slot s).valid with
        | false => rfl
        | true =>
          cases hd' : (d.slot s).dirty with
          | false => rfl
          | true => exact absurd ⟨hv, hd'⟩ hd
      · exact hin s hs

/-- **`Op_Flush` with status 0 leaves nothing unwritten.** -/
theorem Pending.persisted {d : Driver} (h : Pending d) (force : Bool)
    (hok : (d.flushDirty force).2 = true) : Persisted (d.flushDirty force).1.log := by
  have hclean : ∀ s, (d.flushDirty force).1.dirtySlot s = false := by
    unfold Driver.flushDirty at hok ⊢
    by_cases hidle : (finRange cacheSlots).all (fun s => !d.dirtySlot s) = true ∧ force = false
    · rw [if_pos hidle]
      intro s
      have hs := all_eq_true.mp hidle.1 s (mem_finRange s)
      simpa using hs
    · rw [if_neg hidle] at hok ⊢
      have hwb := writeBack_clean (finRange cacheSlots) d
      cases hw : Driver.writeBack (finRange cacheSlots) d with
      | mk d1 ok =>
        rw [hw] at hok hwb
        cases ok with
        | false => cases hok
        | true =>
          have hall : ∀ s, d1.dirtySlot s = false := fun s => (hwb rfl).1 s (mem_finRange s)
          simp only []
          split
          · exact hall
          · exact hall
  intro s x B hlast
  rcases (h.flushDirty force) s x B hlast with ⟨i, hv, hd, -, -⟩ | hw
  · have hc := hclean i
    rw [Driver.dirtySlot, hv, hd] at hc
    cases hc
  · exact hw

/-! ## Passes that reach every slot -/

variable {is : List (Fin cacheSlots)}

/-- The slots a pass has to write, in its order. -/
def Driver.dirtySlots (d : Driver) : List (Fin cacheSlots) := (finRange cacheSlots).filter d.dirtySlot

/-- Of the writes the next pass issues, none but the last one fails. -/
def Driver.PassOk (d : Driver) : Prop := ∀ j, j + 1 < d.dirtySlots.length → d.fate (d.requests + j) = 0

/-- `Op_Flush` comes next and the device completes its flush request with status 0: it is the one after the
    writes of the two passes. -/
def Driver.FlushOk (d : Driver) : Prop :=
  (d.flushDirty false).1.fate ((d.flushDirty false).1.requests + (d.flushDirty false).1.dirtySlots.length) = 0

theorem writeBack_step {d : Driver} {t : Fin cacheSlots} (hnd : (t :: is).Nodup)
    (s : Fin cacheSlots) (hs : s ∈ is) :
    ((d.writeSector (d.slot t).sector (d.slot t).data).1.setSlot t false (d.slot t).sector).slot s = d.slot s := by
  have hne : s ≠ t := by
    rintro rfl
    exact (nodup_cons.mp hnd).1 hs
  exact update_of_ne hne _ _

theorem writeBack_step_filter {d : Driver} {t : Fin cacheSlots} (hnd : (t :: is).Nodup) :
    is.filter ((d.writeSector (d.slot t).sector (d.slot t).data).1.setSlot t false (d.slot t).sector).dirtySlot
      = is.filter d.dirtySlot := by
  refine filter_congr fun s hs => ?_
  unfold Driver.dirtySlot
  rw [writeBack_step hnd s hs]

/-- **Every dirty slot is offered to the device** when no write but the last one fails. -/
theorem writeBack_attempts (is : List (Fin cacheSlots)) (hnd : is.Nodup) (d : Driver)
    (hok : ∀ j, j + 1 < (is.filter d.dirtySlot).length → d.fate (d.requests + j) = 0) :
    ∃ E, (Driver.writeBack is d).1.log = d.log ++ E ∧
      ∀ s ∈ is, d.dirtySlot s = true → ∃ st, Event.devWrite (d.slot s).sector (d.slot s).data st ∈ E := by
  induction is generalizing d with
  | nil => exact ⟨[], (append_nil _).symm, fun s hs => (nomatch hs)⟩
  | cons t is ih =>
    have hnd' := (nodup_cons.mp hnd).2
    unfold Driver.writeBack
    by_cases hd : d.dirtySlot t = true
    · have hd' : (d.slot t).valid = true ∧ (d.slot t).dirty = true := by
        simpa [Driver.dirtySlot] using hd
      have hfilter := writeBack_step_filter (d := d) hnd
      have hcount : ((t :: is).filter d.dirtySlot).length = (is.filter d.dirtySlot).length + 1 := by
        rw [filter_cons_of_pos hd, length_cons]
      rw [if_pos hd']
      show ∃ E, (if d.fate d.requests ≠ 0 then
          ((d.writeSector (d.slot t).sector (d.slot t).data).1, false)
        else Driver.writeBack is ((d.writeSector (d.slot t).sector (d.slot t).data).1.setSlot t false
          (d.slot t).sector)).1.log = d.log ++ E ∧ _
      split_ifs with hst
      · -- a failed write is the last one
        have hlast : is.filter d.dirtySlot = [] := by
          refine eq_nil_of_length_eq_zero ?_
          by_contra hne
          exact hst (hok 0 (by omega))
        refine ⟨[_], rfl, ?_⟩
        intro s hs hds
        rcases mem_cons.mp hs with rfl | hs
        · exact ⟨_, mem_singleton_self _⟩
        · have hmem : s ∈ is.filter d.dirtySlot := mem_filter.mpr ⟨hs, hds⟩
          rw [hlast] at hmem
          cases hmem
      · obtain ⟨E, hE, hall⟩ := ih hnd'
          ((d.writeSector (d.slot t).sector (d.slot t).data).1.setSlot t false (d.slot t).sector) (by
            intro j hj
            rw [hfilter] at hj
            show d.fate (d.requests + 1 + j) = 0
            rw [Nat.add_assoc, Nat.add_comm 1 j]
            exact hok (j + 1) (by omega))
        refine ⟨Event.devWrite (d.slot t).sector (d.slot t).data (d.fate d.requests) :: E, ?_, ?_⟩
        · rw [hE]
          show (d.log ++ [_]) ++ E = _
          rw [append_assoc]
          rfl
        · intro s hs hds
          rcases mem_cons.mp hs with rfl | hs
          · exact ⟨_, mem_cons_self⟩
          · have hslot := writeBack_step (d := d) hnd s hs
            obtain ⟨st, hst'⟩ := hall s hs (by
              unfold Driver.dirtySlot
              rw [hslot]
              exact hds)
            rw [hslot] at hst'
            exact ⟨st, mem_cons_of_mem _ hst'⟩
    · have hd' : ¬ ((d.slot t).valid = true ∧ (d.slot t).dirty = true) := by
        simpa [Driver.dirtySlot] using hd
      rw [if_neg hd']
      rw [filter_cons_of_neg hd] at hok
      obtain ⟨E, hE, hall⟩ := ih hnd' d hok
      refine ⟨E, hE, ?_⟩
      intro s hs hds
      rcases mem_cons.mp hs with rfl | hs
      · exact absurd hds hd
      · exact hall s hs hds

theorem Driver.PassOk.attempts {d : Driver} (hok : d.PassOk) : ∃ E, (d.flushDirty false).1.log = d.log ++ E ∧
    ∀ s, d.dirtySlot s = true → ∃ st, Event.devWrite (d.slot s).sector (d.slot s).data st ∈ E := by
  unfold Driver.flushDirty
  split_ifs with hidle
  · refine ⟨[], (append_nil _).symm, fun s hs => ?_⟩
    have hclean := all_eq_true.mp hidle.1 s (mem_finRange s)
    rw [hs] at hclean
    cases hclean
  · obtain ⟨E, hE, hall⟩ := writeBack_attempts (finRange cacheSlots) (nodup_finRange _) d hok
    refine ⟨E, ?_, fun s hs => hall s (mem_finRange s) hs⟩
    rw [← hE]
    cases Driver.writeBack (finRange cacheSlots) d with
    | mk d1 ok => cases ok <;> rfl

/-! ## The setup stays -/

theorem writeBack_setup (is : List (Fin cacheSlots)) (d : Driver) :
    (Driver.writeBack is d).1.setup = d.setup := by
  induction is generalizing d with
  | nil => rfl
  | cons s is ih =>
    unfold Driver.writeBack
    split
    · show (if d.fate d.requests ≠ 0 then ((d.writeSector (d.slot s).sector (d.slot s).data).1, false)
        else Driver.writeBack is ((d.writeSector (d.slot s).sector (d.slot s).data).1.setSlot s false
          (d.slot s).sector)).1.setup = d.setup
      split
      · rfl
      · exact ih _
    · exact ih d

theorem flushDirty_setup (d : Driver) (force : Bool) : (d.flushDirty force).1.setup = d.setup := by
  unfold Driver.flushDirty
  split
  · rfl
  · have hw := writeBack_setup (finRange cacheSlots) d
    cases hwb : Driver.writeBack (finRange cacheSlots) d with
    | mk d1 ok =>
      rw [hwb] at hw
      cases ok with
      | false => exact hw
      | true =>
        simp only []
        split
        · exact hw
        · exact hw

theorem slotFor_setup (d : Driver) (sector : UInt64) : (d.slotFor sector).1.setup = d.setup := by
  unfold Driver.slotFor
  cases d.findSlot sector with
  | some s => rfl
  | none =>
    unfold Driver.allocSlot
    cases (finRange cacheSlots).find? fun s => ¬ (d.slot s).valid with
    | some s => rfl
    | none =>
      simp only []
      split
      · split
        · rfl
        · rfl
      · rfl

theorem writeSectors_setup (sector : UInt64) (b : Buffer) (is : List Nat) (d : Driver) :
    (Driver.writeSectors sector b is d).1.setup = d.setup := by
  induction is generalizing d with
  | nil => rfl
  | cons i is ih =>
    have hslot := slotFor_setup d (sector + UInt64.ofNat i)
    unfold Driver.writeSectors
    cases hs : d.slotFor (sector + UInt64.ofNat i) with
    | mk d1 found =>
      rw [hs] at hslot
      cases found with
      | none => exact hslot
      | some s => exact (ih _).trans hslot

theorem serve_setup (d : Driver) (r : Request) : (d.serve r).1.setup = d.setup :=
  serve_induct d r (fun _ hsame => hsame.setup) (flushDirty_setup d true) fun sector b is =>
    writeSectors_setup sector b is d

theorem writeBack_count (is : List (Fin cacheSlots)) (hnd : is.Nodup) (d : Driver)
    (h : (Driver.writeBack is d).2 = true) :
    (Driver.writeBack is d).1.requests = d.requests + (is.filter d.dirtySlot).length := by
  induction is generalizing d with
  | nil => rfl
  | cons t is ih =>
    have hnd' := (nodup_cons.mp hnd).2
    unfold Driver.writeBack at h ⊢
    by_cases hd : d.dirtySlot t = true
    · have hd' : (d.slot t).valid = true ∧ (d.slot t).dirty = true := by
        simpa [Driver.dirtySlot] using hd
      rw [if_pos hd'] at h ⊢
      by_cases hst : d.fate d.requests ≠ 0
      · have hfail : (Prod.snd (α := Driver) (if d.fate d.requests ≠ 0 then
            ((d.writeSector (d.slot t).sector (d.slot t).data).1, false)
          else Driver.writeBack is ((d.writeSector (d.slot t).sector (d.slot t).data).1.setSlot t false
            (d.slot t).sector))) = true := h
        rw [if_pos hst] at hfail
        cases hfail
      · have hrun : ∀ x : Driver × Bool, (if d.fate d.requests ≠ 0 then x
            else Driver.writeBack is ((d.writeSector (d.slot t).sector (d.slot t).data).1.setSlot t false
              (d.slot t).sector)) = Driver.writeBack is ((d.writeSector (d.slot t).sector
                (d.slot t).data).1.setSlot t false (d.slot t).sector) := fun x => if_neg hst
        have hgo := hrun ((d.writeSector (d.slot t).sector (d.slot t).data).1, false)
        have h' : (Driver.writeBack is ((d.writeSector (d.slot t).sector (d.slot t).data).1.setSlot t false
            (d.slot t).sector)).2 = true := by
          rw [← hgo]
          exact h
        have hreq := ih hnd' _ h'
        rw [writeBack_step_filter hnd, ← hgo] at hreq
        rw [filter_cons_of_pos hd, length_cons]
        refine hreq.trans ?_
        show d.requests + 1 + _ = _
        omega
    · have hd' : ¬ ((d.slot t).valid = true ∧ (d.slot t).dirty = true) := by
        simpa [Driver.dirtySlot] using hd
      rw [if_neg hd'] at h ⊢
      rw [filter_cons_of_neg hd]
      exact ih hnd' d h

theorem flushDirty_last {d : Driver} (h : (d.flushDirty true).2 = true) (hf : d.haveFlush = true) :
    ∃ L, (d.flushDirty true).1.log = L ++ [.devFlush (d.fate (d.requests + d.dirtySlots.length))] := by
  unfold Driver.flushDirty at h ⊢
  have hgo : ¬ ((finRange cacheSlots).all (fun s => !d.dirtySlot s) = true ∧ true = false) := fun hc => by
    cases hc.2
  rw [if_neg hgo] at h ⊢
  have hcount := writeBack_count (finRange cacheSlots) (nodup_finRange _) d
  have hsetup := writeBack_setup (finRange cacheSlots) d
  cases hwb : Driver.writeBack (finRange cacheSlots) d with
  | mk d1 ok =>
    rw [hwb] at h hcount hsetup
    obtain ⟨hflush, hfate⟩ := Prod.ext_iff.mp hsetup
    cases ok with
    | false => cases h
    | true =>
      have hreq : d1.requests = _ := hcount rfl
      have hboth : True ∧ d1.haveFlush = true := ⟨trivial, hflush.trans hf⟩
      simp only []
      rw [if_pos hboth]
      refine ⟨d1.log, ?_⟩
      show d1.log ++ [.devFlush (d1.fate d1.requests)] = _
      rw [show d1.fate = d.fate from hfate, hreq]
      rfl

/-! ## Endless runs -/

/-- The driver before the `n`-th turn of a run. -/
def Driver.nth (d : Driver) (r : Nat → Request) : Nat → Driver
  | 0 => d
  | n + 1 => ((d.nth r n).turn (r n)).1

/-- From some turn on the sector waits in a dirty slot, and no turn ever writes it to the device. -/
def Starved (d : Driver) (r : Nat → Request) (s : UInt64) : Prop :=
  ∃ n, ∀ m, n ≤ m → (∃ i, (d.nth r m).dirtySlot i = true ∧ ((d.nth r m).slot i).sector = s) ∧
    ∀ x st, Event.devWrite s x st ∉ (d.nth r (m + 1)).log.drop (d.nth r m).log.length

theorem writeSectors_log (sector : UInt64) (b : Buffer) (is : List Nat) (d : Driver) :
    d.log <+: (Driver.writeSectors sector b is d).1.log := by
  induction is generalizing d with
  | nil => exact prefix_refl _
  | cons i is ih =>
    have hslot : d.log <+: (d.slotFor (sector + UInt64.ofNat i)).1.log := by
      unfold Driver.slotFor
      cases d.findSlot (sector + UInt64.ofNat i) with
      | some s => exact prefix_refl _
      | none =>
        unfold Driver.allocSlot
        cases (finRange cacheSlots).find? fun s => ¬ (d.slot s).valid with
        | some s => exact prefix_refl _
        | none =>
          simp only []
          split
          · split
            · exact prefix_append _ _
            · exact prefix_append _ _
          · exact prefix_refl _
    unfold Driver.writeSectors
    cases hs : d.slotFor (sector + UInt64.ofNat i) with
    | mk d1 found =>
      rw [hs] at hslot
      cases found with
      | none => exact hslot
      | some s =>
        have hstore : d1.log <+: ((d1.storeSector s (sector + UInt64.ofNat i) (b.content i)).touch s).log :=
          prefix_append _ _
        exact (List.IsPrefix.trans hslot hstore).trans (ih _)

theorem Requests.isPrefix (h : Requests log log') : log <+: log' := by
  obtain ⟨E, rfl, -⟩ := h
  exact prefix_append _ _

theorem serve_log (d : Driver) (r : Request) : d.log <+: (d.serve r).1.log :=
  serve_induct d r (fun _ hsame => hsame.log.isPrefix) (flushDirty_requests d true).isPrefix fun sector b is =>
    writeSectors_log sector b is d

section Run

variable {initial : UInt64 → SectorData} {d : Driver} {r : Nat → Request}

theorem nth_coherent (hc : Coherent initial d) (r : Nat → Request) (n : Nat) : Coherent initial (d.nth r n) := by
  induction n with
  | zero => exact hc
  | succ n ih => exact ih.turn (r n)

theorem nth_pending (hc : Coherent initial d) (hp : Pending d) (r : Nat → Request) (n : Nat) : Pending (d.nth r n) := by
  induction n with
  | zero => exact hp
  | succ n ih => exact ih.turn (nth_coherent hc r n) (r n)

theorem not_starved (hok : ∀ n, (d.nth r n).PassOk) (s : UInt64) : ¬ Starved d r s := by
  rintro ⟨n, hn⟩
  obtain ⟨⟨i, hi, hs⟩, hno⟩ := hn n (Nat.le_refl n)
  obtain ⟨E, hE, hall⟩ := (hok n).attempts
  obtain ⟨st, hst⟩ := hall i hi
  rw [hs] at hst
  refine hno ((d.nth r n).slot i).data st ?_
  -- the events of the pass are among those of the turn
  have hgrow := serve_log ((d.nth r n).flushDirty false).1 (r n)
  rw [hE] at hgrow
  obtain ⟨E', hE'⟩ := hgrow
  show _ ∈ drop _ (((d.nth r n).flushDirty false).1.serve (r n)).1.log
  rw [← hE', append_assoc, drop_left]
  exact mem_append_left _ hst

theorem nth_setup (d : Driver) (r : Nat → Request) (n : Nat) : (d.nth r n).setup = d.setup := by
  induction n with
  | zero => rfl
  | succ n ih =>
    refine (serve_setup _ (r n)).trans ?_
    exact (flushDirty_setup _ _).trans ih

end Run

/-- What `Op_Flush` promises in the turn after `d`. -/
def Driver.FlushKept (d : Driver) : Prop :=
  ∀ reply, (d.turn .flush).2 = some reply → reply.status = 0 →
    Persisted (d.turn .flush).1.log ∧ (d.haveFlush = true → ∃ L, (d.turn .flush).1.log = L ++ [.devFlush 0])

/-- **Flushed writes are durable and no sector is starved**, in every run in which the passes and the device
    flushes go well. -/
theorem flush_durable (device : UInt64 → SectorData) (fate : Nat → UInt8) (capacity : UInt64) (haveFlush : Bool)
    (r : Nat → Request) (hpass : ∀ n, ((Driver.online device fate capacity haveFlush).nth r n).PassOk)
    (hflush : haveFlush = true → ∀ n, r n = .flush → ((Driver.online device fate capacity haveFlush).nth r n).FlushOk) :
    (∀ n, r n = .flush → ((Driver.online device fate capacity haveFlush).nth r n).FlushKept) ∧
      ∀ s, ¬ Starved (Driver.online device fate capacity haveFlush) r s := by
  have hc := online_coherent device fate capacity haveFlush
  have hp : Pending (Driver.online device fate capacity haveFlush) := by
    rintro s x B ⟨A, hA, -⟩
    cases A <;> cases hA
  refine ⟨?_, fun s => not_starved hpass s⟩
  intro n hn reply hreply h0
  have hhave := congrArg Prod.fst (nth_setup (Driver.online device fate capacity haveFlush) r n)
  have hpn := (nth_pending hc hp r n).flushDirty false
  have hfo := fun h => hflush h n hn
  generalize (Driver.online device fate capacity haveFlush).nth r n = d at *
  -- the second pass of the turn is the one that is answered for
  have hok : ((d.flushDirty false).1.flushDirty true).2 = true := by
    have hr : some (Reply.mk (if ((d.flushDirty false).1.flushDirty true).2 then 0 else 1) 0 none) = some reply := hreply
    injection hr with hr
    by_contra hno
    rw [if_neg hno] at hr
    rw [← hr] at h0
    exact absurd (show (1 : UInt64) = 0 from h0) (by decide)
  refine ⟨hpn.persisted true hok, fun hf => ?_⟩
  obtain ⟨L, hL⟩ := flushDirty_last hok ((congrArg Prod.fst (flushDirty_setup d false)).trans hf)
  refine ⟨L, hL.trans ?_⟩
  have hstatus : (d.flushDirty false).1.fate
      ((d.flushDirty false).1.requests + (d.flushDirty false).1.dirtySlots.length) = 0 := hfo (hhave.symm.trans hf)
  rw [hstatus]

/-- Three sectors are written, another one while they are written behind, then one of the three again; all that
    follows are flushes. -/
def writesThenFlush : Nat → Request
  | 0 => .write 2 3 (some onePage) fun _ => true
  | 1 => .write 9 1 (some onePage) fun _ => true
  | 2 => .read 0 8 (some onePage) fun _ => true
  | 3 => .write 3 1 (some onePage) fun _ => true
  | _ => .flush

/-- A driver whose device takes every request. -/
def willing : Driver := Driver.online (fun _ _ => 0) (fun _ => 0) 16 true

/-- The first of the flushes answers 0 after five accepted writes, five writes to the device, two reads and its
    flush. -/
theorem flush_durable_writes :
    ((∀ n, writesThenFlush n = .flush → (willing.nth writesThenFlush n).FlushKept) ∧
      ∀ s, ¬ Starved willing writesThenFlush s) ∧
    ((willing.nth writesThenFlush 4).turn .flush).2.map Reply.status = some 0 ∧
    ((willing.nth writesThenFlush 4).turn .flush).1.log.length = 13 := by
  have hgood : ∀ n, (willing.nth writesThenFlush n).fate = fun _ => 0 :=
    fun n => congrArg Prod.snd (nth_setup willing writesThenFlush n)
  refine ⟨flush_durable _ _ _ _ writesThenFlush (fun n j _ => congrFun (hgood n) _) fun _ n _ => ?_,
    by decide +kernel, by decide +kernel⟩
  have hpass := congrArg Prod.snd (flushDirty_setup (willing.nth writesThenFlush n) false)
  exact congrFun (hpass.trans (hgood n)) _

/-! ## A refused device flush, and a slot that keeps failing -/

/-- A device that refuses every request. -/
def refusing : Driver := Driver.online (fun _ _ => 0) (fun _ => 1) 16 true

/-- Sectors 2 and 5 are written, and sector 2 again and again. -/
def starving : Nat → Request
  | 1 => .write 5 1 (some onePage) fun _ => true
  | _ => .write 2 1 (some onePage) fun _ => true

/-- Sector 2 waits in the first slot, sector 5 behind it, and the device refuses. -/
structure Blocked (d : Driver) : Prop where
  fate : d.fate = fun _ => 1
  capacity : d.capacity = 16
  first : (d.slot ⟨0, by decide⟩).valid = true ∧ (d.slot ⟨0, by decide⟩).dirty = true ∧
    (d.slot ⟨0, by decide⟩).sector = 2
  second : (d.slot ⟨1, by decide⟩).valid = true ∧ (d.slot ⟨1, by decide⟩).dirty = true ∧
    (d.slot ⟨1, by decide⟩).sector = 5

theorem Blocked.pass {d : Driver} (h : Blocked d) :
    (d.flushDirty false).1 = (d.writeSector 2 (d.slot ⟨0, by decide⟩).data).1 := by
  have hslots : finRange cacheSlots = ⟨0, by decide⟩ :: (finRange cacheSlots).tail := by decide +kernel
  have hdirty : d.dirtySlot ⟨0, by decide⟩ = true := by
    rw [Driver.dirtySlot, h.first.1, h.first.2.1]
    rfl
  have hgo : ¬ ((finRange cacheSlots).all (fun s => !d.dirtySlot s) = true ∧ false = false) := by
    intro hall
    have hs := all_eq_true.mp hall.1 ⟨0, by decide⟩ (mem_finRange _)
    rw [hdirty] at hs
    cases hs
  have hst : d.fate d.requests ≠ 0 := by
    rw [h.fate]
    exact (by decide : (1 : UInt8) ≠ 0)
  have hback : Driver.writeBack (finRange cacheSlots) d
      = ((d.writeSector 2 (d.slot ⟨0, by decide⟩).data).1, false) := by
    rw [hslots, Driver.writeBack, if_pos ⟨h.first.1, h.first.2.1⟩, h.first.2.2]
    show (if d.fate d.requests ≠ 0 then _ else _) = _
    rw [if_pos hst]
    rfl
  unfold Driver.flushDirty
  rw [if_neg hgo, hback]

theorem Blocked.write {d : Driver} (h : Blocked d) : (d.serve (.write 2 1 (some onePage) fun _ => true)).1
      = (d.storeSector ⟨0, by decide⟩ 2 (onePage.content 0)).touch ⟨0, by decide⟩ := by
  have hslots : finRange cacheSlots = ⟨0, by decide⟩ :: (finRange cacheSlots).tail := by decide +kernel
  have hfind : d.findSlot (2 + UInt64.ofNat 0) = some ⟨0, by decide⟩ := by
    unfold Driver.findSlot
    rw [hslots, find?_cons_of_pos]
    simp [h.first.1, h.first.2.2]
  have hrange : rangeOk d.capacity 2 1 8 = true := by
    rw [h.capacity]
    decide
  unfold Driver.serve
  simp only []
  rw [if_neg (fun hf => by rw [hrange] at hf; cases hf), if_pos (by decide)]
  show (Driver.writeSectors 2 onePage [0] d).1 = _
  rw [Driver.writeSectors, Driver.slotFor, hfind]
  rfl

theorem Blocked.turn {d : Driver} (h : Blocked d) : Blocked (d.turn (.write 2 1 (some onePage) fun _ => true)).1 ∧
      ∀ x st, Event.devWrite 5 x st ∉ (d.turn (.write 2 1 (some onePage) fun _ => true)).1.log.drop d.log.length := by
  have hpass := h.pass
  have hmid : Blocked (d.writeSector 2 (d.slot ⟨0, by decide⟩).data).1 := ⟨h.fate, h.capacity, h.first, h.second⟩
  have hturn : (d.turn (.write 2 1 (some onePage) fun _ => true)).1
      = ((d.writeSector 2 (d.slot ⟨0, by decide⟩).data).1.storeSector ⟨0, by decide⟩ 2 (onePage.content 0)).touch
        ⟨0, by decide⟩ := by
    show ((d.flushDirty false).1.serve _).1 = _
    rw [hpass]
    exact hmid.write
  rw [hturn]
  refine ⟨⟨h.fate, h.capacity, ⟨h.first.1, rfl, h.first.2.2⟩, ?_⟩, ?_⟩
  · exact h.second
  · intro x st hm
    have hlog : (((d.writeSector 2 (d.slot ⟨0, by decide⟩).data).1.storeSector ⟨0, by decide⟩ 2
        (onePage.content 0)).touch ⟨0, by decide⟩).log
        = d.log ++ [.devWrite 2 (d.slot ⟨0, by decide⟩).data (d.fate d.requests), .accept 2 (onePage.content 0)] := by
      show (d.log ++ [_]) ++ [_] = _
      rw [append_assoc]
      rfl
    rw [hlog, drop_left] at hm
    simp at hm

/-- **The answer is 0 although the device refused the flush; and sector 5, acknowledged, is never written**
    as long as the device refuses sector 2, whose writes go on being accepted. -/
theorem flush_not_durable :
    (¬ ∀ (device : UInt64 → SectorData) (fate : Nat → UInt8) (capacity : UInt64) (haveFlush : Bool)
      (r : Nat → Request) (n : Nat), r n = .flush →
        ((Driver.online device fate capacity haveFlush).nth r n).FlushKept) ∧
    ¬ ∀ (device : UInt64 → SectorData) (fate : Nat → UInt8) (capacity : UInt64) (haveFlush : Bool)
      (r : Nat → Request) (s : UInt64), ¬ Starved (Driver.online device fate capacity haveFlush) r s := by
  constructor
  · intro hall
    have hkept : refusing.FlushKept := hall (fun _ _ => 0) (fun _ => 1) 16 true (fun _ => .flush) 0 rfl
    have hrun : (refusing.turn .flush).2.map Reply.status = some 0 := by decide +kernel
    obtain ⟨reply, hreply, h0⟩ := Option.map_eq_some_iff.mp hrun
    obtain ⟨L, hL⟩ := (hkept reply hreply h0).2 rfl
    have hend := append_inj_right' (show [] ++ [Event.devFlush 1] = L ++ [Event.devFlush 0] from hL) rfl
    cases hend
  · intro hall
    refine hall (fun _ _ => 0) (fun _ => 1) 16 true starving 5 ⟨2, ?_⟩
    have hblocked : ∀ m, Blocked (refusing.nth starving (m + 2)) := by
      intro m
      induction m with
      | zero => exact ⟨rfl, rfl, by decide +kernel, by decide +kernel⟩
      | succ m ih => exact ih.turn.1
    intro m hm
    obtain ⟨m, rfl⟩ : ∃ k, m = k + 2 := ⟨m - 2, by omega⟩
    have hb := hblocked m
    refine ⟨⟨⟨1, by decide⟩, ?_, hb.second.2.2⟩, hb.turn.2⟩
    show (refusing.nth starving (m + 2)).dirtySlot ⟨1, by decide⟩ = true
    rw [Driver.dirtySlot, hb.second.1, hb.second.2.1]
    rfl

end Aegir.VirtioBlk
