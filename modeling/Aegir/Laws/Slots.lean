/-
  Spawn, thread creation and reap keep the invariant.

  While a process is being built its slot is still on the free list but its table already fills:
  `Building s` is the invariant with the slot `s` exempt from having an empty table.  A spawn that
  fails empties the table again, a spawn that succeeds takes the slot.
-/
import Aegir.Laws.Death
import Aegir.Laws.SlotCases

namespace Aegir.Kernel

open Aegir.Arch Ledger Roster List Function

namespace Life

variable {l : Life} {s i P : Nat}

theorem Sound.setProcState (hl : l.Sound) (hu : l.used s = false) (x : ProcessState) :
    { l with procState := update l.procState (s + 1) x }.Sound := by
  refine { hl with home := fun j hj => ?_, count := fun j hj ha => ?_ }
  · obtain ⟨h1, h2, h3, h4, h5⟩ := hl.home j hj
    refine ⟨h1, h2, h3, h4, ?_⟩
    have hne : l.process (j + 1) ≠ s + 1 := by
      intro he
      rw [he, Nat.add_sub_cancel, hu] at h4
      cases h4
    exact (update_of_ne hne _ _).trans h5
  · have hne : j + 1 ≠ s + 1 := by
      intro he
      have : j = s := by omega
      rw [this] at hj
      exact absurd (hj.symm.trans hu) (by simp)
    exact hl.count j hj ((update_of_ne hne _ _).symm.trans ha)

theorem Sound.setProcess (hl : l.Sound) (hi : i < maxThreadSlots) (hf : l.threadUsed i = false)
    (hP : P ≤ initProcess) (hprim : l.used i = true → P = i + 1) (d : Nat → Bool) (g : Nat → Nat) :
    { l with
      process := update l.process (i + 1) P, dead := d, threadSlotGeneration := g }.Sound := by
  have hne : ∀ j, l.threadUsed j = true → update l.process (i + 1) P (j + 1) = l.process (j + 1) := by
    intro j hj
    refine update_of_ne ?_ _ _
    intro he
    have : j = i := by omega
    rw [this, hf] at hj
    cases hj
  refine ⟨fun t => ?_, ?_, fun j hj => ?_, fun j hj => ?_, fun j hj hu => ?_, hl.free, hl.free_nodup,
    hl.threadFree, hl.threadFree_nodup, fun j hj ha => ?_⟩
  · show update l.process (i + 1) P t ≤ initProcess
    by_cases ht : t = i + 1
    · subst ht
      rw [update_self]
      exact hP
    · rw [update_of_ne ht]
      exact hl.process_le t
  · refine (update_of_ne ?_ _ _).trans hl.init
    unfold initThread
    omega
  · dsimp only at hj ⊢
    rw [hne j hj]
    exact hl.home j hj
  · refine ⟨(hl.initial j hj).1, ?_⟩
    show update l.process (i + 1) P (j + 1) = j + 1
    by_cases hji : j = i
    · subst hji
      rw [update_self]
      exact hprim hj
    · rw [update_of_ne (by omega)]
      exact (hl.initial j hj).2
  · exact (hne j hu).trans (hl.primary j hj hu)
  · refine (hl.count j hj ha).trans (congrArg Finset.card (threadsOf_congr fun k => ?_)).symm
    refine and_congr_right fun hk => ?_
    dsimp only at hk ⊢
    rw [hne k hk]

/-- **The slot at the head of the free list becomes a process with one thread.** -/
theorem Sound.commit (hl : l.Sound) {rest : List Nat} (hfree : l.freeSlots = s :: rest)
    (hproc : l.process (s + 1) = s + 1) (halive : l.procState (s + 1) = .alive) :
    { l with
      threadUsed := update l.threadUsed s true
      processThreadCount := update l.processThreadCount s 1
      used := update l.used s true
      freeSlots := rest }.Sound := by
  obtain ⟨hs, hu⟩ := (hl.free s).mp (by rw [hfree]; exact mem_cons_self)
  have htu := hl.threadUsed_of_unused hs hu
  have hnd := hl.free_nodup
  rw [hfree] at hnd
  have hsmax : s < maxThreadSlots := by
    unfold maxProcessSlots at hs
    unfold maxThreadSlots
    omega
  -- no other thread belongs to the process
  have hother : ∀ j, l.threadUsed j = true → l.process (j + 1) ≠ s + 1 := by
    intro j hj he
    have h4 := (hl.home j hj).2.2.2.1
    rw [he, Nat.add_sub_cancel, hu] at h4
    cases h4
  refine ⟨hl.process_le, hl.init, fun j hj => ?_, fun j hj => ?_, fun j hj hju => ?_, fun j => ?_,
    (nodup_cons.mp hnd).2, fun j => ?_, hl.threadFree_nodup, fun j hj ha => ?_⟩
  · by_cases hjs : j = s
    · subst hjs
      show j < maxThreadSlots ∧ 1 ≤ l.process (j + 1) ∧ l.process (j + 1) ≤ maxProcessSlots ∧
        update l.used j true (l.process (j + 1) - 1) = true ∧
        l.procState (l.process (j + 1)) = .alive
      rw [hproc, Nat.add_sub_cancel, update_self]
      exact ⟨hsmax, by omega, by omega, rfl, halive⟩
    · have hj : l.threadUsed j = true := (update_of_ne hjs _ _).symm.trans hj
      obtain ⟨h1, h2, h3, h4, h5⟩ := hl.home j hj
      refine ⟨h1, h2, h3, ?_, h5⟩
      have hne : l.process (j + 1) - 1 ≠ s := by
        have := hother j hj
        omega
      exact (update_of_ne hne _ _).trans h4
  · by_cases hjs : j = s
    · subst hjs
      exact ⟨hs, hproc⟩
    · exact hl.initial j ((update_of_ne hjs _ _).symm.trans hj)
  · by_cases hjs : j = s
    · subst hjs
      exact hproc
    · exact hl.primary j hj ((update_of_ne hjs _ _).symm.trans hju)
  · have hmem : j ∈ l.freeSlots ↔ j = s ∨ j ∈ rest := by rw [hfree, mem_cons]
    show j ∈ rest ↔ j < maxProcessSlots ∧ update l.used s true j = false
    by_cases hjs : j = s
    · subst hjs
      exact iff_of_false (nodup_cons.mp hnd).1 (by simp)
    · rw [update_of_ne hjs, ← hl.free j, hmem]
      exact ⟨.inr, fun h => h.resolve_left hjs⟩
  · rw [hl.threadFree]
    refine and_congr_right fun h1 => and_congr_right fun _ => ?_
    show l.threadUsed j = false ↔ update l.threadUsed s true j = false
    rw [update_of_ne (by omega)]
  · by_cases hjs : j = s
    · subst hjs
      refine (update_self j 1 _).trans ?_
      symm
      refine Finset.card_eq_one.mpr ⟨j, Finset.ext fun i => ?_⟩
      rw [mem_threadsOf, Finset.mem_singleton]
      show i < maxThreadSlots ∧ update l.threadUsed j true i = true ∧ _ ↔ i = j
      constructor
      · rintro ⟨-, hiu, hip⟩
        by_contra hij
        rw [update_of_ne hij] at hiu
        exact hother i hiu hip
      · rintro rfl
        exact ⟨hsmax, update_self _ _ _, hproc⟩
    · refine (update_of_ne hjs _ _).trans ?_
      rw [hl.count j ((update_of_ne hjs _ _).symm.trans hj) ha]
      refine congrArg Finset.card (threadsOf_congr fun i => ?_).symm
      show update l.threadUsed s true i = true ∧ _ ↔ _
      by_cases his : i = s
      · subst his
        refine iff_of_false (fun hh => ?_) fun hh => ?_
        · have := hh.2
          change l.process (i + 1) = j + 1 at this
          omega
        · rw [htu] at hh
          exact absurd hh.1 (by simp)
      · rw [update_of_ne his]

end Life

namespace Life

variable {l : Life} {s : Nat}

/-- The process slot is given back. -/
def discard (l : Life) (s : Nat) : Life :=
  { l with
    procState := update l.procState (s + 1) .dead
    threadUsed := update l.threadUsed s false
    processThreadCount := update l.processThreadCount s 0
    used := update l.used s false
    freeSlots := if l.used s then s :: l.freeSlots else l.freeSlots }

/-- **A slot whose process has no thread is given back.** -/
theorem Sound.discard (hl : l.Sound) (hs : s < maxProcessSlots)
    (hthread : ∀ j, l.threadUsed j = true → l.process (j + 1) ≠ s + 1) : (l.discard s).Sound := by
  have htu : l.threadUsed s = false := by
    by_contra hu
    rw [Bool.not_eq_false] at hu
    exact hthread s hu (hl.primary s hs hu)
  have hsame : (l.discard s).threadUsed = l.threadUsed := by
    show update l.threadUsed s false = l.threadUsed
    rw [← htu, update_eq_self]
  have hmem : ∀ j, j ∈ (l.discard s).freeSlots ↔ j = s ∨ j ∈ l.freeSlots := by
    intro j
    show (j ∈ if l.used s then s :: l.freeSlots else l.freeSlots) ↔ _
    split
    · exact mem_cons
    · rename_i hu
      refine ⟨.inr, ?_⟩
      rintro (rfl | hj)
      · exact (hl.free j).mpr ⟨hs, by simpa using hu⟩
      · exact hj
  have hself : (l.discard s).used s = false := by
    show update l.used s false s = false
    rw [update_self]
  refine ⟨hl.process_le, hl.init, fun j hj => ?_, fun j hj => ?_, fun j hj hju => ?_, fun j => ?_, ?_,
    fun j => ?_, hl.threadFree_nodup, fun j hj ha => ?_⟩
  · rw [hsame] at hj
    obtain ⟨h1, h2, h3, h4, h5⟩ := hl.home j hj
    have hne := hthread j hj
    refine ⟨h1, h2, h3, (update_of_ne ?_ _ _).trans h4, (update_of_ne hne _ _).trans h5⟩
    show l.process (j + 1) - 1 ≠ s
    omega
  · have hjs : j ≠ s := by
      rintro rfl
      rw [hself] at hj
      cases hj
    exact hl.initial j ((update_of_ne hjs _ _).symm.trans hj)
  · rw [hsame] at hju
    exact hl.primary j hj hju
  · rw [hmem, hl.free]
    show _ ↔ j < maxProcessSlots ∧ update l.used s false j = false
    by_cases hjs : j = s
    · subst hjs
      rw [update_self]
      exact iff_of_true (.inl rfl) ⟨hs, rfl⟩
    · rw [update_of_ne hjs]
      exact ⟨fun h => h.resolve_left hjs, .inr⟩
  · show (if l.used s then s :: l.freeSlots else l.freeSlots).Nodup
    split
    · rename_i hu
      refine nodup_cons.mpr ⟨fun hm => ?_, hl.free_nodup⟩
      rw [((hl.free s).mp hm).2] at hu
      cases hu
    · exact hl.free_nodup
  · rw [hsame]
    exact hl.threadFree j
  · have hjs : j ≠ s := by
      rintro rfl
      rw [hself] at hj
      cases hj
    refine (update_of_ne hjs _ _).trans ?_
    rw [hl.count j ((update_of_ne hjs _ _).symm.trans hj) ((update_of_ne (by omega) _ _).symm.trans ha)]
    refine congrArg Finset.card (threadsOf_congr fun i => ?_).symm
    rw [hsame]
    rfl

end Life

namespace Ledger

/-- The ledger of a state in which a thread block was filled. -/
def seat (L : Ledger) (slot process top generation : Nat) : Ledger :=
  { L with
    process := update L.process (slot + 1) process
    dead := update L.dead (slot + 1) false
    stackTop := update L.stackTop (slot + 1) top
    threadSlotGeneration := update L.threadSlotGeneration slot generation }

theorem Counted.seat_kept {L : Ledger} {fresh : Option (Pool × Nat)} (hL : L.Counted fresh)
    (slot process top generation : Nat) : Kept L (L.seat slot process top generation) :=
  ⟨fun _ => rfl, hL.table, hL.pmm, rfl, rfl⟩

end Ledger

namespace Roster

variable {R : Roster} {t : Nat}

/-- The thread is given to the scheduler. -/
def schedule (R : Roster) (s : Nat) : Roster :=
  { R with threadUsed := update R.threadUsed s true }

theorem Sound.schedule (hR : R.Sound) (s : Nat) : (R.schedule s).Sound := by
  refine ⟨fun o ho => ?_, hR.caller, hR.receiver, hR.awaiting, fun u h1 h2 => ?_,
    fun u hu => ?_, hR.bound, hR.ntfn, hR.line⟩
  · obtain ⟨l, hl⟩ := hR.queue o ho
    exact ⟨l, hl.congr rfl rfl (fun _ _ => rfl) fun _ => Iff.rfl⟩
  · rcases hR.scheduled u h1 h2 with hu | ⟨h3, h4, h5⟩
    · exact .inl hu
    · refine .inr ⟨h3, h4, ?_⟩
      show update R.threadUsed s true (u - 1) = true
      by_cases hus : u - 1 = s
      · rw [hus, update_self]
      · rw [update_of_ne hus]
        exact h5
  · obtain ⟨l, hl⟩ := hR.waiters u hu
    exact ⟨l, hl.of_vigil (fun _ => rfl) fun _ h => h⟩

/-- The thread is dead or ready: it waits for nothing. -/
def Quiet (R : Roster) (t : Nat) : Prop := (R.thread t).state = .dead ∨ (R.thread t).state = .ready

theorem Quiet.ne {s : ThreadState} (h : R.Quiet t) (hd : s ≠ .dead) (hr : s ≠ .ready) :
    (R.thread t).state ≠ s := by
  rintro rfl
  exact h.elim hd hr

theorem Quiet.detached (h : R.Quiet t) (hR : R.Sound) : R.Detached t :=
  hR.detached_of_state (h.ne (by simp) (by simp)) (h.ne (by simp) (by simp))

theorem Quiet.unlisted (h : R.Quiet t) : R.Unlisted t :=
  unlisted_of_state (h.ne (by simp) (by simp))

/-- The waiting-related fields of a new thread. -/
def freshIpc (generation : Nat) : ThreadIpc :=
  { state := .ready, awaiting := false, generation := UInt64.ofNat generation, next := 0
    queuedOn := 0, recvEp := 0, vigil := ⟨0, 0, 0⟩, boundNtfn := 0 }

theorem Sound.seat (hR : R.Sound) (hq : R.Quiet t)
    (generation : Nat) : (R.setThread t (freshIpc generation)).Sound := by
  have hd := hq.detached hR
  exact hR.setThread hd.queuedOn rfl (fun o ho hr he => absurd he (hd.receiver o ho hr))
    (fun h => by cases h) (fun _ h => absurd rfl h) hq.unlisted (.inr rfl) rfl

end Roster

/-- A process block without its table. -/
def Pcb.header (c : Pcb) : Pcb := { c with caps := .empty }

namespace State

variable {k k' : State} {s cur slot : Nat}

theorem Waits.of_sound (hw : k.Waits) (hep : k'.roster.ep = k.roster.ep) (hs : k'.endpointSlab = k.endpointSlab)
    (hsound : k'.roster.Sound) : k'.Waits := by
  refine ⟨hsound, fun o ho hf => ?_, fun o ho hf => ?_⟩
  · rw [hep] at hf
    unfold Idle
    rw [hep]
    exact hw.failed o ho hf
  · unfold Idle
    rw [hep]
    refine hw.free o ho ?_
    unfold EpFree at hf ⊢
    rwa [hs] at hf

/-- **The invariant while the process slot `s` is being filled.** -/
structure Building (s : Nat) (k : State) : Prop where
  counted : k.ledger.Counted none
  life : k.ledger.life.Sound
  vacant : ∀ i, i ≠ s → i < maxProcessSlots → k.used i = false →
    ∀ h, (k.ledger.entry (i + 1) h).valid = false
  waits : k.Waits
  lt : s < maxProcessSlots
  unused : k.used s = false

namespace Building

theorem process_le (h : Building s k) (t : Nat) : (k.tcb t).process ≤ initProcess :=
  h.life.process_le t

theorem threadUsed (h : Building s k) : k.threadUsed s = false :=
  h.life.threadUsed_of_unused h.lt h.unused

theorem steps {actor : Nat} {target : Nat → Prop} (h : Building s k)
    (hs : k.ledger.CapSteps actor target k'.ledger)
    (htarget : ∀ p, target p → p = s + 1 ∨ k.ledger.life.Open p) (hw : k'.Waits) : Building s k' := by
  have hle : ∀ p, target p → p ≤ initProcess := by
    intro p hp
    rcases htarget p hp with rfl | hp
    · have := h.lt
      unfold initProcess
      omega
    · exact open_le h.process_le p hp
  have hused : k'.used = k.used := congrArg Life.used hs.life
  refine ⟨hs.counted hle h.counted, by rw [hs.life]; exact h.life, fun i his hi hu j => ?_, hw, h.lt,
    by rw [hused]; exact h.unused⟩
  rw [hused] at hu
  by_contra hv
  rw [Bool.not_eq_false] at hv
  have hnot : ¬ target (i + 1) := fun ht => (htarget _ ht).elim (fun he => his (by omega)) (h.life.not_open hi hu)
  rw [hs.entry_untouched hnot j hv, h.vacant i his hi hu j] at hv
  cases hv

theorem kept (h : Building s k) (hk : Kept k.ledger k'.ledger) (hl : k'.ledger.life.Sound)
    (hu : k'.used = k.used) (hw : k'.Waits) : Building s k' := by
  refine ⟨hk.counted h.counted, hl, fun i his hi hui j => ?_, hw, h.lt, by rw [hu]; exact h.unused⟩
  rw [hk.entry]
  exact h.vacant i his hi (hu ▸ hui) j

end Building

theorem Inv.building (h : k.Inv) {rest : List Nat} (hfree : k.freeSlots = s :: rest) :
    Building s k := by
  obtain ⟨hs, hu⟩ := (h.life.free s).mp (by
    show s ∈ k.freeSlots
    rw [hfree]
    exact mem_cons_self)
  exact ⟨h.counted, h.life, fun i _ => h.vacant i, h.waits, hs, hu⟩

/-! ## The control blocks of a slot -/

variable {p : Nat}

theorem Waits.quiet_unscheduled (hw : k.Waits) (hs : slot < maxThreadSlots)
    (hu : k.threadUsed slot = false) : k.roster.Quiet (slot + 1) := by
  have hnot : ¬ k.roster.Scheduled (slot + 1) := by
    rintro (he | ⟨-, -, hu'⟩)
    · unfold initThread at he
      omega
    · rw [Nat.add_sub_cancel] at hu'
      exact absurd (hu'.symm.trans hu) (by simp)
  by_cases hd : (k.roster.thread (slot + 1)).state = .dead
  · exact .inl hd
  · refine .inr ?_
    by_contra hr
    exact hnot (hw.sound.scheduled _ hd hr)

theorem roster_initializeSlotThread (k : State) (slot id process buffer va top : Nat) :
    (k.initializeSlotThread slot id process buffer va top).roster =
      k.roster.setThread (slot + 1) (freshIpc (k.threadSlotGeneration slot)) := by
  unfold initializeSlotThread initializeThread slotAddress
  refine Roster.ext ?_ rfl rfl rfl rfl
  funext u
  by_cases hu : u = slot + 1
  · subst hu
    simp [modTcb, freshIpc, Tcb.ipc]
  · simp [roster, modTcb, hu]

theorem ledger_initializeSlotThread (k : State) (slot id process buffer va top : Nat) :
    (k.initializeSlotThread slot id process buffer va top).ledger = k.ledger.seat slot process top
      ((k.threadSlotGeneration slot + 1) % generationWrap) := by
  unfold initializeSlotThread initializeThread slotAddress ledger Ledger.seat
  congr 1
  · funext u
    by_cases hu : u = slot + 1
    · subst hu; simp [modTcb]
    · simp [modTcb, hu]
  · funext u
    by_cases hu : u = slot + 1
    · subst hu; simp [modTcb]
    · simp [modTcb, hu]
  · funext u
    by_cases hu : u = slot + 1
    · subst hu; simp [modTcb]
    · simp [modTcb, hu]

theorem Waits.seat (hw : k.Waits) (hq : k.roster.Quiet (slot + 1)) (id process buffer va top : Nat) :
    (k.initializeSlotThread slot id process buffer va top).Waits := by
  have hl := ledger_initializeSlotThread k slot id process buffer va top
  refine hw.of_setThread (roster_initializeSlotThread k slot id process buffer va top)
    (endpointSlab_of_ledger (by rw [hl]; rfl)) ?_
  exact hw.sound.seat hq _

/-- The blocks of a new process, before its address-space cap. -/
def blankProcess (k : State) (parent slot root : Nat) : State :=
  let k₁ := { k with
    slotGeneration := update k.slotGeneration slot
      ((k.slotGeneration slot + 1) % generationWrap) }
  (k₁.initializeProcess (slot + 1) (k.slotGeneration slot * pidSlotRange + (slot + 4))).modPcb
    (slot + 1) fun p => { p with spawner := (k₁.pcb (k₁.tcb parent).process).id, root := root }

theorem initializeSlotProcess_eq (k : State) (parent slot root : Nat) : k.initializeSlotProcess parent slot root =
      (k.blankProcess parent slot root).installAddressSpaceCap (slot + 1) := rfl

theorem roster_blankProcess (k : State) (parent slot root : Nat) :
    (k.blankProcess parent slot root).roster = k.roster := rfl

theorem life_blankProcess (k : State) (parent slot root : Nat) :
    (k.blankProcess parent slot root).ledger.life = { k.ledger.life with
      procState := update k.ledger.life.procState (slot + 1) .initializing } := by
  unfold blankProcess initializeProcess ledger Ledger.life
  congr 1
  funext p
  by_cases hp : p = slot + 1
  · subst hp; simp [modPcb]
  · simp [modPcb, hp]

theorem ledger_caps_blankProcess (k : State) (parent slot root p : Nat) :
    (k.blankProcess parent slot root).ledger.caps p =
      if p = slot + 1 then .empty else k.ledger.caps p := by
  by_cases hp : p = slot + 1
  · subst hp; simp [blankProcess, initializeProcess, modPcb]
  · simp [blankProcess, initializeProcess, modPcb, hp]

theorem blankProcess_kept (hL : k.ledger.Counted none)
    (hempty : ∀ i, (k.ledger.entry (slot + 1) i).valid = false) (parent root : Nat) :
    Kept k.ledger (k.blankProcess parent slot root).ledger := by
  have hcaps := ledger_caps_blankProcess k parent slot root
  refine ⟨fun p => ?_, fun p => ?_, hL.pmm, rfl, rfl⟩
  · rw [hcaps]
    split
    · rename_i hp
      funext i
      rw [hp]
      exact ((hL.table (slot + 1)).null i (hempty i)).symm
    · rfl
  · rw [hcaps]
    split
    · exact CapTable.wf_empty
    · exact hL.table p

theorem installAddressSpaceCap_cases {fresh : Option (Pool × Nat)} (hL : k.ledger.Counted fresh) :
    ((k.installAddressSpaceCap p).1 = .ok ∧
      k.ledger.Inserted (k.installAddressSpaceCap p).2.ledger p addressSpaceCapHandle
        ⟨true, .addressSpaceObject, (k.pcb p).root, addressSpaceRights, UInt64.ofNat (k.pcb p).id⟩) ∨
    ((k.installAddressSpaceCap p).1 ≠ .ok ∧
      k.ledger.SameCaps (k.installAddressSpaceCap p).2.ledger) := by
  by_cases hroot : (k.pcb p).root = 0
  · refine .inr ?_
    unfold installAddressSpaceCap
    rw [if_pos hroot]
    exact ⟨by simp, .refl hL⟩
  · rw [installAddressSpaceCap_eq k hroot]
    cases hins : k.insertProcessCapAt p addressSpaceCapHandle .addressSpaceObject (k.pcb p).root
      addressSpaceRights (UInt64.ofNat (k.pcb p).id) with
    | mk status k' =>
      by_cases hok : status = .ok
      · subst hok
        exact .inl ⟨rfl, insertProcessCapAt_ok hL (by decide) (fun P hP => by cases hP) hins⟩
      · exact .inr ⟨hok, insertProcessCapAt_error hL hok hins⟩

/-! ## Spawn -/

variable {parent root : Nat}

theorem initializeSlotProcess_building {rest : List Nat} {status : CapStatus}
    (h : k.Inv) (hfree : k.freeSlots = s :: rest)
    (hinit : k.initializeSlotProcess parent s root = (status, k')) :
    Building s k' ∧ k'.roster = k.roster ∧ k'.freeSlots = k.freeSlots ∧
      (status ≠ .ok → ∀ i, (k'.ledger.entry (s + 1) i).valid = false) := by
  have hb := h.building hfree
  have hempty := h.vacant s hb.lt hb.unused
  rw [initializeSlotProcess_eq] at hinit
  have hkept := blankProcess_kept h.counted hempty parent root
  have hlife := life_blankProcess k parent s root
  have hr := roster_blankProcess k parent s root
  have hu : (k.blankProcess parent s root).used = k.used := rfl
  have hf : (k.blankProcess parent s root).freeSlots = k.freeSlots := rfl
  generalize k.blankProcess parent s root = k₁ at hinit hkept hlife hr hu hf
  have hw₁ : k₁.Waits := h.waits.of_eq hr (endpointSlab_of_ledger hkept.slab)
  have hb1 : Building s k₁ := hb.kept hkept (by
    rw [hlife]
    exact h.life.setProcState hb.unused _) hu hw₁
  have hr' : k'.roster = k₁.roster := by
    have := roster_installAddressSpaceCap k₁ (s + 1)
    rwa [hinit] at this
  have hcases := installAddressSpaceCap_cases (k := k₁) (p := s + 1) hb1.counted
  rw [hinit] at hcases
  have hsteps : k₁.ledger.CapSteps kernelActor (fun p => p = s + 1) k'.ledger := by
    rcases hcases with ⟨-, hins⟩ | ⟨-, hsame⟩
    · exact .insert (.refl _) rfl (.made (.inr (.inl rfl)) rfl) hins
    · exact .of_same hsame
  have hw' : k'.Waits := by
    refine hw₁.of_eq hr' (endpointSlab_of_ledger ?_)
    rcases hcases with ⟨-, hins⟩ | ⟨-, hsame⟩
    · obtain ⟨t, pmm, hl, -⟩ := hins
      rw [hl]
      rfl
    · exact hsame.slab
  refine ⟨hb1.steps hsteps (fun p hp => .inl hp) hw', hr'.trans hr, ?_, fun hne i => ?_⟩
  · exact (congrArg Life.freeSlots hsteps.life).trans hf
  · rcases hcases with ⟨hok, -⟩ | ⟨-, hsame⟩
    · exact absurd hok hne
    · rw [hsame.entry, hkept.entry]
      exact hempty i

theorem Building.seatThread (h : Building s k) (buffer stack : Nat) :
    Building s (k.seatThread s buffer stack) := by
  have hs : s < maxThreadSlots := by
    have := h.lt
    unfold maxProcessSlots at this
    unfold maxThreadSlots
    omega
  have hq := h.waits.quiet_unscheduled hs h.threadUsed
  have hw : (k.seatThread s buffer stack).Waits := h.waits.seat hq _ _ _ _ _
  have hl : (k.seatThread s buffer stack).ledger = _ := ledger_initializeSlotThread k s _ _ _ _ _
  refine h.kept (by rw [hl]; exact h.counted.seat_kept _ _ _ _) ?_ (congrArg Ledger.used hl) hw
  rw [hl]
  refine h.life.setProcess hs h.threadUsed ?_ (fun _ => rfl) _ _
  have := h.lt
  unfold initProcess
  omega

/-! ### Giving a slot back -/

variable {closeAll : Bool}

/-- The first part of `Discard_Slot`: the thread is dead, its stack is freed. -/
def discardThread (k : State) (slot : Nat) : State :=
  let top := (k.tcb (slot + 1)).kernelStackTop
  (if top ≠ 0 then (k.freeStack top).modTcb (slot + 1) fun c => { c with kernelStackTop := 0 }
    else k).modTcb (slot + 1) fun c => { c with state := .dead }

/-- The last part of `Discard_Slot`. -/
def discardProcess (k : State) (slot : Nat) : State :=
  let k₁ := k.modPcb (slot + 1) fun p => { p with state := .dead }
  { k₁ with
    threadUsed := update k₁.threadUsed slot false
    processThreadCount := update k₁.processThreadCount slot 0
    used := update k₁.used slot false
    freeSlots := if k₁.used slot then slot :: k₁.freeSlots else k₁.freeSlots }

theorem discardSlot_eq (k : State) (slot : Nat) (closeAll : Bool) :
    k.discardSlot slot closeAll = State.discardProcess (if closeAll then
      (k.discardThread slot).closeCaps (slot + 1) 0 (handleLast + 1)
      else (k.discardThread slot).resetProcessCaps (slot + 1)) slot := rfl

theorem discardThread_spec {fresh : Option (Pool × Nat)} (hL : k.ledger.Counted fresh) (slot : Nat) :
    Kept k.ledger (k.discardThread slot).ledger ∧
    (k.discardThread slot).ledger.life = { k.ledger.life with dead := update k.ledger.life.dead (slot + 1) true } ∧
    (k.discardThread slot).roster = k.roster.slay (slot + 1) := by
  have hretire : k.discardThread slot =
      (k.retireStack (slot + 1) false).modTcb (slot + 1) fun c => { c with state := .dead } := by
    unfold discardThread retireStack
    dsimp only
    by_cases htop : (k.tcb (slot + 1)).kernelStackTop = 0
    · rw [if_neg (by simp [htop]), if_pos htop]
    · rw [if_pos htop, if_neg htop]
      rfl
  have hl := ledger_retireStack k (slot + 1) false
  have hp := pmm_retireStack hL.pmm (slot + 1) false
  have hr := roster_retireStack k (slot + 1) false
  rw [hretire]
  rw [ledger_kill, hl, roster_modTcb]
  refine ⟨⟨fun _ => rfl, hL.table, hp, rfl, rfl⟩, rfl, ?_⟩
  rw [← hr]
  rfl

theorem discardProcess_spec {fresh : Option (Pool × Nat)} (hL : k.ledger.Counted fresh) (slot : Nat) :
    Kept k.ledger (k.discardProcess slot).ledger ∧
    (k.discardProcess slot).ledger.life = k.ledger.life.discard slot ∧
    (k.discardProcess slot).roster = k.roster.unschedule slot := by
  have hl : (k.modPcb (slot + 1) fun p => { p with state := .dead }).ledger =
      { k.ledger with procState := update k.ledger.procState (slot + 1) .dead } :=
    ledger_modPcb _ _ _ rfl rfl
  unfold discardProcess
  have hr : (k.modPcb (slot + 1) fun p => { p with state := .dead }).roster = k.roster := rfl
  generalize (k.modPcb (slot + 1) fun p => { p with state := .dead }) = k₁ at hl hr ⊢
  refine ⟨?_, ?_, ?_⟩
  · have hk : Kept k.ledger k₁.ledger := by
      rw [hl]
      exact ⟨fun _ => rfl, hL.table, hL.pmm, rfl, rfl⟩
    exact ⟨hk.get, hk.table, hk.pmm, hk.count, hk.slab⟩
  · have hlife : k₁.ledger.life = { k.ledger.life with
        procState := update k.ledger.life.procState (slot + 1) .dead } := by rw [hl]; rfl
    show ({ k₁.ledger.life with
      threadUsed := update k₁.ledger.life.threadUsed slot false
      processThreadCount := update k₁.ledger.life.processThreadCount slot 0
      used := update k₁.ledger.life.used slot false
      freeSlots := if k₁.ledger.life.used slot then slot :: k₁.ledger.life.freeSlots
        else k₁.ledger.life.freeSlots } : Life) = _
    rw [hlife]
    rfl
  · rw [← hr]
    rfl

theorem resetProcessCaps_same {fresh : Option (Pool × Nat)} (hL : k.ledger.Counted fresh)
    (hempty : ∀ i, (k.ledger.entry p i).valid = false) :
    k.ledger.SameCaps (k.resetProcessCaps p).ledger := by
  obtain ⟨hget, hwf, hpmm⟩ := CapTable.reset_spec (hL.table p) hL.pmm
  unfold resetProcessCaps
  rw [ledger_setCaps]
  refine ⟨fun q => ?_, fun q => ?_, hpmm, rfl, rfl, rfl⟩
  · show (update k.ledger.caps p _ q).get = _
    by_cases hq : q = p
    · subst hq
      rw [update_self]
      refine hget.trans (funext fun i => ?_)
      exact ((hL.table q).null i (hempty i)).symm
    · rw [update_of_ne hq]
  · show (update k.ledger.caps p _ q).Wf
    by_cases hq : q = p
    · subst hq
      rw [update_self]
      exact hwf
    · rw [update_of_ne hq]
      exact hL.table q

/-- The caps of the slot are closed, or its empty table is reset. -/
def discardCaps (k : State) (slot : Nat) (closeAll : Bool) : State :=
  if closeAll then k.closeCaps (slot + 1) 0 (handleLast + 1) else k.resetProcessCaps (slot + 1)

theorem discardCaps_spec (hL : k.ledger.Counted none) (hw : k.Waits)
    (hd : k.roster.Detached (slot + 1)) (closeAll : Bool)
    (hproc : closeAll = true → (k.tcb (slot + 1)).process = slot + 1)
    (hempty : closeAll = false → ∀ i, (k.ledger.entry (slot + 1) i).valid = false) :
    k.ledger.CapSteps 0 (fun _ => False) (k.discardCaps slot closeAll).ledger ∧
    Calms (fun _ => True) k (k.discardCaps slot closeAll) ∧
    ∀ i, ((k.discardCaps slot closeAll).ledger.entry (slot + 1) i).valid = false := by
  unfold discardCaps
  cases closeAll with
  | true =>
    have hproc := hproc rfl
    rw [if_pos rfl]
    generalize hn : handleLast + 1 = n
    have hs := closeCaps_steps 0 (fun _ => False) (Nat.succ_ne_zero slot) (fun _ hf => hf.elim) n 0 k hL
    refine ⟨hs, closeCaps_calms (by omega) n 0 k hL hw hd, fun i => ?_⟩
    by_contra hv
    rw [Bool.not_eq_false] at hv
    have hrange := ((hs.counted (fun _ hf => hf.elim) hL).table (slot + 1)).handle i hv
    have := closeCaps_empty (t := slot + 1) (by omega) n 0 k hL (by rw [hproc]; omega) i (by omega) (by omega)
    rw [hproc] at this
    exact absurd (this.symm.trans hv) (by simp)
  | false =>
    have hempty := hempty rfl
    have hsame := resetProcessCaps_same hL hempty
    refine ⟨.of_same hsame, .of_eq hw rfl (endpointSlab_of_ledger hsame.slab), fun i => ?_⟩
    exact (congrArg CapEntry.valid (hsame.entry (slot + 1) i)).trans (hempty i)

/-- The first thread of a slot that is given back is dead, and detached. -/
theorem discardThread_dead (hL : k.ledger.Counted none) (hw : k.Waits) (hq : k.roster.Quiet (slot + 1)) :
    (k.discardThread slot).ledger.Counted none ∧ (k.discardThread slot).Waits ∧
    ((k.discardThread slot).roster.thread (slot + 1)).state = .dead ∧
    (k.discardThread slot).roster.Detached (slot + 1) ∧
    ∀ u, ((k.discardThread slot).tcb u).process = (k.tcb u).process := by
  obtain ⟨hkept, hlife, hr⟩ := discardThread_spec hL slot
  have hw₁ := hw.of_setThread hr (endpointSlab_of_ledger hkept.slab)
    (hw.sound.slay (hq.detached hw.sound) hq.unlisted)
  have hdead : ((k.discardThread slot).roster.thread (slot + 1)).state = .dead := by
    rw [hr]
    exact slay_self _ _
  exact ⟨hkept.counted hL, hw₁, hdead, hw₁.sound.detached_of_state (by rw [hdead]; simp) (by rw [hdead]; simp),
    fun u => congrFun (congrArg Life.process hlife) u⟩

/-- **`Discard_Slot`** of a process without threads gives the slot back with an empty table. -/
theorem discardSlot_building (hL : k.ledger.Counted none) (hl : k.ledger.life.Sound) (hw : k.Waits)
    (hvacant : ∀ i, i ≠ slot → i < maxProcessSlots → k.used i = false →
      ∀ h, (k.ledger.entry (i + 1) h).valid = false)
    (hs : slot < maxProcessSlots) (hq : k.roster.Quiet (slot + 1))
    (hthread : ∀ j, k.threadUsed j = true → (k.tcb (j + 1)).process ≠ slot + 1)
    (hproc : closeAll = true → (k.tcb (slot + 1)).process = slot + 1)
    (hempty : closeAll = false → ∀ i, (k.ledger.entry (slot + 1) i).valid = false) :
    (k.discardSlot slot closeAll).Inv := by
  change (((k.discardThread slot).discardCaps slot closeAll).discardProcess slot).Inv
  obtain ⟨hkept1, hlife1, -⟩ := discardThread_spec hL slot
  obtain ⟨hL1, hw₁, hdead1, hd1, hproc1⟩ := discardThread_dead hL hw hq
  generalize k.discardThread slot = k₁ at hkept1 hlife1 hL1 hw₁ hdead1 hd1 hproc1 ⊢
  obtain ⟨hsteps, hcalm, hnone⟩ := discardCaps_spec hL1 hw₁ hd1 closeAll
    (fun hc => (hproc1 _).trans (hproc hc)) (fun hc i => by rw [hkept1.entry]; exact hempty hc i)
  generalize k₁.discardCaps slot closeAll = k₂ at hsteps hcalm hnone ⊢
  have hL2 := hsteps.counted (fun _ hf => hf.elim) hL1
  have hlife2 := hsteps.life
  rw [hlife1] at hlife2
  have hdead2 : (k₂.roster.thread (slot + 1)).state = .dead :=
    (hcalm.calm.dead_iff (slot + 1)).mpr hdead1
  obtain ⟨hkept3, hlife3, hr3⟩ := discardProcess_spec hL2 slot
  generalize k₂.discardProcess slot = k₃ at hkept3 hlife3 hr3 ⊢
  have hw₂ := hcalm.waits hw₁
  refine ⟨hkept3.counted hL2, ?_, fun i hi hu j => ?_, ?_⟩
  · rw [hlife3, hlife2]
    refine Life.Sound.discard ?_ hs hthread
    exact { hl with }
  · rw [hkept3.entry]
    by_cases his : i = slot
    · subst his
      exact hnone j
    · refine hsteps.entry_invalid ?_
      rw [hkept1.entry]
      refine hvacant i his hi ?_ j
      have hu' : (k₂.ledger.life.discard slot).used i = false :=
        (congrFun (congrArg Life.used hlife3) i).symm.trans hu
      rw [hlife2] at hu'
      exact (update_of_ne his _ _).symm.trans hu'
  · have hr3' : k₃.endpointSlab = k₂.endpointSlab := endpointSlab_of_ledger hkept3.slab
    exact hw₂.of_sound (by rw [hr3]; rfl) hr3' (by rw [hr3]; exact hw₂.sound.unschedule hdead2)

/-! ### Grants and the commit -/

section

variable (k : State)

theorem retainCap_pcb (e : CapEntry) : (k.retainCap e).pcb = k.pcb := by
  unfold retainCap
  cases e.valid with
  | false => rfl
  | true =>
    cases e.kind with
    | endpointObject =>
      show State.pcb (if e.object = 0 ∨ (k.endpoint e.object).count = pinnedRefcount then _ else _) = _
      split <;> rfl
    | memoryObject =>
      show State.pcb (if e.object = 0 then _ else _) = _
      split <;> rfl
    | notificationObject =>
      show State.pcb (if k.isNotificationSlot e.object then _ else _) = _
      split <;> rfl
    | _ => rfl

theorem setCaps_header (process : Nat) (t : CapTable) (p : Pmm) (q : Nat) :
    ((k.setCaps process t p).pcb q).header = (k.pcb q).header := by
  show (update k.pcb process { k.pcb process with caps := t } q).header = _
  by_cases hq : q = process
  · subst hq
    rw [update_self]
    rfl
  · rw [update_of_ne hq]

theorem insertProcessCapAt_header (process cap : Nat) (kind : ObjectKind) (object : Nat)
    (rights : Rights) (badge : U64) (q : Nat) :
    ((k.insertProcessCapAt process cap kind object rights badge).2.pcb q).header = (k.pcb q).header := by
  unfold insertProcessCapAt
  split
  · rw [retainCap_pcb, setCaps_header]
  · rw [setCaps_header]

theorem insertCap_header (t : Nat) (kind : ObjectKind) (object : Nat) (rights : Rights)
    (badge : U64) (q : Nat) : ((k.insertCap t kind object rights badge).2.pcb q).header = (k.pcb q).header :=
  insertCap_ind (R := fun j => (j.pcb q).header = (k.pcb q).header) rfl fun cap =>
    insertProcessCapAt_header k _ cap kind object rights badge q

theorem grantListCaps_header (parent child : Nat) (grantCount : U64) (q : Nat) :
    ((k.grantListCaps parent child grantCount).2.pcb q).header = (k.pcb q).header := by
  apply grantListCaps_keeps (Q := fun j => (j.pcb q).header = (k.pcb q).header) rfl
  intro j _ cap e mask badge hj _ _ _ _
  exact (insertProcessCapAt_header ..).trans hj

theorem initializeSlotProcess_header (parent slot root : Nat) :
    ((k.initializeSlotProcess parent slot root).2.pcb (slot + 1)).header =
      ((k.blankProcess parent slot root).pcb (slot + 1)).header := by
  rw [initializeSlotProcess_eq]
  unfold installAddressSpaceCap
  dsimp only
  split
  · rfl
  · rw [setCaps_header]

theorem grantListCaps_frame (parent child : Nat) (grantCount : U64) :
    (k.grantListCaps parent child grantCount).2.roster = k.roster ∧
    (k.grantListCaps parent child grantCount).2.endpointSlab = k.endpointSlab := by
  apply grantListCaps_keeps (Q := fun j => j.roster = k.roster ∧ j.endpointSlab = k.endpointSlab) ⟨rfl, rfl⟩
  intro j _ cap e mask badge hj _ _ _ _
  exact ⟨(roster_insertProcessCapAt ..).trans hj.1, (endpointSlab_insertProcessCapAt ..).trans hj.2⟩

end

namespace Building

section

variable (h : Building s k)

include h

theorem no_thread (j : Nat) (hj : k.threadUsed j = true) : (k.tcb (j + 1)).process ≠ s + 1 := by
  intro he
  have h4 := (h.life.home j hj).2.2.2.1
  rw [show k.ledger.life.process (j + 1) = s + 1 from he, Nat.add_sub_cancel] at h4
  exact absurd (h.unused.symm.trans h4) (by simp)

theorem quiet : k.roster.Quiet (s + 1) := by
  refine h.waits.quiet_unscheduled ?_ h.threadUsed
  have := h.lt
  unfold maxProcessSlots at this
  unfold maxThreadSlots
  omega

theorem undoSpawn (root : Nat) (hproc : closeAll = true → (k.tcb (s + 1)).process = s + 1)
    (hempty : closeAll = false → ∀ i, (k.ledger.entry (s + 1) i).valid = false) :
    (k.undoSpawn s root closeAll).Inv :=
  (discardSlot_building h.counted h.life h.waits h.vacant h.lt h.quiet h.no_thread hproc
    hempty).paged (destroyAddressSpace_paged _ _)

theorem grants (parent : Nat) (grantCount : U64) :
    Building s (k.grantListCaps parent (s + 1) grantCount).2 := by
  obtain ⟨hr, he⟩ := grantListCaps_frame k parent (s + 1) grantCount
  refine h.steps (grantListCaps_steps (fun p => p = s + 1) _ grantCount ?_ k h.counted rfl)
    (fun p hp => .inl hp) (h.waits.of_eq hr he)
  rintro p rfl
  have := h.lt
  unfold initProcess
  omega

theorem reviveProcess : Building s (k.reviveProcess s) ∧
    (k.reviveProcess s).ledger.life = { k.ledger.life with
      procState := update k.ledger.life.procState (s + 1) .alive } := by
  have hl : (k.reviveProcess s).ledger = { k.ledger with procState := update k.ledger.procState (s + 1) .alive } :=
    ledger_modPcb _ _ _ rfl rfl
  refine ⟨h.kept ?_ ?_ rfl (h.waits.of_eq rfl rfl), by rw [hl]; rfl⟩
  · rw [hl]
    exact ⟨fun _ => rfl, h.counted.table, h.counted.pmm, rfl, rfl⟩
  · rw [hl]
    exact h.life.setProcState h.unused _

end

end Building

theorem Building.commitSlot (h : Building s k) {rest : List Nat} (hfree : k.freeSlots = s :: rest)
    (hproc : (k.tcb (s + 1)).process = s + 1) (halive : (k.pcb (s + 1)).state = .alive)
    (hready : (k.tcb (s + 1)).state = .ready) : (k.commitSlot s).Inv := by
  have hl1 : (k.modTcb (s + 1) fun c => { c with state := .ready }).ledger = k.ledger :=
    ledger_modTcb _ _ _ rfl (by simp [hready]) rfl
  have hr1 : (k.modTcb (s + 1) fun c => { c with state := .ready }).roster = k.roster :=
    roster_modTcb_same _ _ _ (by simp [Tcb.ipc, hready])
  unfold State.commitSlot slotAddress
  generalize (k.modTcb (s + 1) fun c => { c with state := .ready }) = k₁ at hl1 hr1 ⊢
  have hlife : Life.Sound { k₁.ledger.life with
      threadUsed := update k.ledger.life.threadUsed s true
      processThreadCount := update k.ledger.life.processThreadCount s 1
      used := update k.ledger.life.used s true
      freeSlots := k.freeSlots.tail } := by
    rw [hl1, hfree]
    exact h.life.commit hfree hproc halive
  have hL1 : k₁.ledger.Counted none := by rw [hl1]; exact h.counted
  refine ⟨hL1.congr rfl rfl rfl hL1.pmm, hlife, fun i hi hu j => ?_, ?_⟩
  · have hu : update k.used s true i = false := hu
    have his : i ≠ s := by
      rintro rfl
      rw [update_self] at hu
      cases hu
    rw [update_of_ne his] at hu
    show (k₁.ledger.entry (i + 1) j).valid = false
    rw [hl1]
    exact h.vacant i his hi hu j
  · have hR := h.waits.sound.schedule s
    have he : k₁.endpointSlab = k.endpointSlab := endpointSlab_of_ledger (by rw [hl1])
    have hroster : ({ k₁.roster with threadUsed := update k.threadUsed s true } : Roster) =
        k.roster.schedule s := by rw [hr1]; rfl
    have hep : k₁.roster.ep = k.roster.ep := by rw [hr1]
    exact h.waits.of_sound hep he (Eq.subst (motive := Roster.Sound) hroster.symm hR)

theorem spawn_granted {image : ImageSource} {size buffer stack : Nat} {rest : List Nat}
    {grantCount : U64} {status : ProcStatus} {k₁ k₂ k₃ : State} (h : k.Inv)
    (hfree : k.freeSlots = s :: rest)
    (hbuild : k.buildAddressSpace image size = (some (root, buffer, stack), k₁))
    (hinit : k₁.initializeSlotProcess parent s root = (.ok, k₂))
    (hgrant : (k₂.seatThread s buffer stack).grantListCaps parent (slotAddress s) grantCount = (status, k₃)) :
    Building s k₃ ∧ (k₃.tcb (s + 1)).process = s + 1 ∧ (k₃.tcb (s + 1)).state = .ready ∧ k₃.freeSlots = s :: rest ∧
      k₃.roster = k.roster.setThread (s + 1) (freshIpc (k₂.threadSlotGeneration s)) := by
  have hp := built_paged hbuild
  have h1 := h.paged hp
  have hfree1 : k₁.freeSlots = s :: rest := by rw [hp.same]; exact hfree
  obtain ⟨hb2, hr2, hf2, -⟩ := initializeSlotProcess_building h1 hfree1 hinit
  have hb := hb2.seatThread buffer stack
  have hl : (k₂.seatThread s buffer stack).ledger = _ := ledger_initializeSlotThread k₂ s _ _ _ _ _
  have hr : (k₂.seatThread s buffer stack).roster = _ := roster_initializeSlotThread k₂ s _ _ _ _ _
  generalize k₂.seatThread s buffer stack = k2' at hb hl hr hgrant
  have hb3 := hb.grants parent grantCount
  have hframe := grantListCaps_frame k2' parent (s + 1) grantCount
  have hsteps := grantListCaps_steps (fun p => p = s + 1) parent grantCount (fun p hp => by
      have := hb.lt
      unfold initProcess
      omega) k2' hb.counted rfl
  rw [show s + 1 = slotAddress s from rfl, hgrant] at hb3 hframe hsteps
  have hr3 : k₃.roster = k.roster.setThread (s + 1) (freshIpc (k₂.threadSlotGeneration s)) := by
    rw [hframe.1, hr, hr2, hp.roster]
  refine ⟨hb3, ?_, ?_, ?_, hr3⟩
  · refine (congrFun (congrArg Life.process hsteps.life) (s + 1)).trans ?_
    rw [hl]
    exact update_self (s + 1) _ _
  · have := congrArg (fun R => (Roster.thread R (s + 1)).state) hr3
    exact this.trans (by simp [freshIpc])
  · refine (congrArg Life.freeSlots hsteps.life).trans ?_
    rw [hl]
    exact hf2.trans hfree1

theorem Building.hold {k₄ : State} {r : Except CapStatus Nat} (h : Building s k)
    (hsched : k.roster.Scheduled parent)
    (hhold : (k.reviveProcess s).insertProcessHandle parent s = (r, k₄)) :
    Building s k₄ ∧ k₄.roster = k.roster ∧
    k₄.ledger.life = { k.ledger.life with
      procState := update k.ledger.life.procState (s + 1) .alive } := by
  obtain ⟨hb, hlife⟩ := h.reviveProcess
  have hr : (k.reviveProcess s).roster = k.roster := rfl
  generalize k.reviveProcess s = k' at hb hlife hr hhold
  unfold insertProcessHandle at hhold
  have hopen : k'.ledger.life.Open (k'.tcb parent).process :=
    open_of_scheduled (by rw [hr]; exact hsched)
  have horig : k'.ledger.Origin kernelActor ⟨true, .processObject, slotAddress s, processRights,
      UInt64.ofNat (k'.pcb (slotAddress s)).id⟩ := .made (.inl rfl) rfl
  have hs := insertCap_steps k'.ledger.life.Open hb.counted hopen horig
  have hr' := roster_insertCap k' parent .processObject (slotAddress s) processRights
    (UInt64.ofNat (k'.pcb (slotAddress s)).id)
  have he := endpointSlab_insertCap k' parent .processObject (slotAddress s) processRights
    (UInt64.ofNat (k'.pcb (slotAddress s)).id)
  rw [hhold] at hs hr' he
  exact ⟨hb.steps hs (fun p hp => .inr hp) (hb.waits.of_eq hr' he), hr'.trans hr, hs.life.trans hlife⟩

/-- **Spawn keeps the invariant.** -/
theorem spawnBootImage_inv (h : k.Inv) (hrun : (k.tcb cur).state = .running) (cap : Nat)
    (grantCount : U64) : (k.spawnBootImage cur cap grantCount).2.2.Inv := by
  have hout := spawnBootImage_outcome k cur cap grantCount
  generalize k.spawnBootImage cur cap grantCount = r at hout ⊢
  have hsched : ∀ {slot : Nat} {x : ThreadIpc} {j : State},
      j.roster = k.roster.setThread (slot + 1) x → j.roster.Scheduled cur := by
    intro slot x j hr
    rw [hr]
    exact scheduled_of_running h.waits hrun
  cases hout with
  | refused => exact h
  | unbuilt build => exact h.paged (built_paged build)
  | @unseated _ _ _ root _ _ _ _ _ _ free build init bad =>
    have hp := built_paged build
    obtain ⟨hb, -, -, hempty⟩ := initializeSlotProcess_building (h.paged hp) (by rw [hp.same]; exact free) init
    exact hb.undoSpawn root (fun hc => by cases hc) fun _ => hempty bad
  | seated free build init grant ending =>
    obtain ⟨hb, hproc, hready, hfree, hr⟩ := spawn_granted h free build init grant
    cases ending with
    | ungranted => exact hb.undoSpawn _ (fun _ => hproc) fun hc => by cases hc
    | unheld hold =>
      obtain ⟨hb4, -, hlife⟩ := hb.hold (hsched hr) hold
      refine hb4.undoSpawn _ (fun _ => ?_) fun hc => by cases hc
      exact (congrFun (congrArg Life.process hlife) _).trans hproc
    | spawned hold =>
      obtain ⟨hb4, hr4, hlife⟩ := hb.hold (hsched hr) hold
      refine hb4.commitSlot ((congrArg Life.freeSlots hlife).trans hfree)
        ((congrFun (congrArg Life.process hlife) _).trans hproc) ?_ ?_
      · refine (congrFun (congrArg Life.procState hlife) _).trans ?_
        exact update_self _ _ _
      · exact (congrArg (fun R => (Roster.thread R _).state) hr4).trans hready

theorem handleSpawn_inv (h : k.Inv) (hrun : (k.tcb cur).state = .running) (f : TrapFrame) :
    (k.handleSpawn cur f).Inv := by
  unfold handleSpawn
  split
  · exact (h.setA0 _ _).setA1 _ _
  · exact ((spawnBootImage_inv h hrun _ _).setA0 _ _).setA1 _ _

/-! ## Reap -/

theorem Inv.clearRoot (h : k.Inv) (P : Nat) : (k.modPcb P fun p => { p with root := 0 }).Inv ∧
    (k.modPcb P fun p => { p with root := 0 }).ledger.life = k.ledger.life := by
  have hp : ∀ q, ((k.modPcb P fun p => { p with root := 0 }).pcb q).caps = (k.pcb q).caps ∧
      ((k.modPcb P fun p => { p with root := 0 }).pcb q).state = (k.pcb q).state := by
    intro q
    by_cases hq : q = P
    · subst hq; simp [modPcb]
    · simp [modPcb, hq]
  have hlife : (k.modPcb P fun p => { p with root := 0 }).ledger.life = k.ledger.life := by
    unfold Ledger.life ledger
    congr 1
    exact funext fun q => (hp q).2
  have hkept : Kept k.ledger (k.modPcb P fun p => { p with root := 0 }).ledger := by
    refine ⟨fun q => ?_, fun q => ?_, h.counted.pmm, rfl, rfl⟩
    · rw [ledger_caps, (hp q).1]
      rfl
    · rw [ledger_caps, (hp q).1]
      exact h.counted.table q
  exact ⟨h.kept hkept (by rw [hlife]; exact h.life) rfl (h.waits.of_eq rfl rfl), hlife⟩

theorem reclaim_inv (h : k.Inv) (hproc : (k.tcb (s + 1)).process = s + 1) (hdead : (k.tcb (s + 1)).state = .dead) :
    (k.reclaim (s + 1)).Inv ∧ (k.reclaim (s + 1)).ledger.life = k.ledger.life ∧
    ((k.reclaim (s + 1)).tcb (s + 1)).state = .dead ∧
    ∀ i, ((k.reclaim (s + 1)).ledger.entry (s + 1) i).valid = false := by
  have hd : k.roster.Detached (s + 1) :=
    h.waits.sound.detached_of_state (by simp [Tcb.ipc, hdead]) (by simp [Tcb.ipc, hdead])
  have hs := cleanupCapRefs_steps 0 (fun _ => False) (s + 1) (fun _ hf => hf.elim) k h.counted
  have hc := cleanupCapRefs_calms h.counted h.waits hd
  have hempty := cleanupCapRefs_empty (t := s + 1) (by omega) h.counted (by rw [hproc]; omega)
  rw [hproc] at hempty
  unfold reclaim
  dsimp only
  generalize k.cleanupCapRefs (s + 1) = k₁ at hs hc hempty ⊢
  have h1 := h.closing hs hc
  have hdead1 : (k₁.tcb (s + 1)).state = .dead := (hc.calm.dead_iff (s + 1)).mpr hdead
  have hp := destroyAddressSpace_paged k₁ (k₁.pcb (s + 1)).root
  generalize k₁.destroyAddressSpace (k₁.pcb (s + 1)).root = k₂ at hp ⊢
  have h2 := h1.paged hp
  obtain ⟨h3, hlife3⟩ := h2.clearRoot (s + 1)
  have hsame := hp.ledger_same h1.counted
  refine ⟨h3, ?_, ?_, fun i => ?_⟩
  · rw [hlife3, hsame.life, hs.life]
  · rw [hp.same]
    exact hdead1
  · have hcaps : (k₂.modPcb (s + 1) fun p => { p with root := 0 }).ledger.entry (s + 1) i =
        k₂.ledger.entry (s + 1) i := by
      simp [Ledger.entry, modPcb]
    rw [hcaps, hsame.entry]
    exact hempty i

section

variable {cap : Nat} {s : CapStatus} {k₁ : State}

/-- A cap that is not closed leaves everything as it was. -/
theorem closeCap_failed (h : k.Inv) (hcur : cur ≠ 0) (close : k.closeCap cur cap false = (s, k₁)) (bad : s ≠ .ok) :
    k₁ = k := by
  rcases closeCap_cases cap h.counted hcur false with ⟨-, hsame, -⟩ | ⟨hok, -⟩
  · rwa [close] at hsame
  · rw [close] at hok
    exact absurd hok bad

/-- The cap of a dead process is closed: its slot is still its own, and its first thread dead. -/
theorem closeCap_dead (h : k.Inv) (hrun : (k.tcb cur).state = .running) {slot : Nat} (used : k.used slot = true)
    (gone : (k.tcb (slot + 1)).state = .dead) (close : k.closeCap cur cap false = (s, k₁)) :
    k₁.Inv ∧ (k₁.tcb (slot + 1)).process = slot + 1 ∧ (k₁.tcb (slot + 1)).state = .dead ∧
      k₁.ledger.life = k.ledger.life := by
  have hcur := (h.process_ne_zero hrun).1
  have hs := closeCap_steps 0 (fun _ => False) cap h.counted hcur false
  have hc := closeCap_calms h.counted h.waits hcur (detached_of_running h.waits hrun) cap false
  rw [close] at hs hc
  exact ⟨h.of_steps (hs.mono fun _ hf => hf.elim) (hc.waits h.waits),
    (congrFun (congrArg Life.process hs.life) _).trans (h.life.initial slot used).2,
    (hc.calm.dead_iff (slot + 1)).mpr gone, hs.life⟩

end

/-- **Reap keeps the invariant.** -/
theorem reapProcess_inv (h : k.Inv) (hrun : (k.tcb cur).state = .running) (cap : Nat) :
    (k.reapProcess cur cap).2.2.Inv := by
  have hout := reapProcess_outcome k cur cap
  generalize k.reapProcess cur cap = r at hout ⊢
  cases hout with
  | refused => exact h
  | unclosed close bad => exact closeCap_failed h (h.process_ne_zero hrun).1 close bad ▸ h
  | @reaped e slot k₁ look kind object slot_lt used dead gone close =>
    obtain ⟨h1, hproc, hdead1, hlife1⟩ := closeCap_dead h hrun used gone close
    obtain ⟨h2, hlife2, hdead2, hempty⟩ := reclaim_inv h1 hproc hdead1
    generalize k₁.reclaim (slot + 1) = k₂ at h2 hlife2 hdead2 hempty ⊢
    have hlife : k₂.ledger.life = k.ledger.life := hlife2.trans hlife1
    refine discardSlot_building h2.counted h2.life h2.waits (fun i _ => h2.vacant i) slot_lt
      (.inl hdead2) (fun j hj he => ?_) (fun hf => by cases hf) fun _ => hempty
    -- a thread of the table belongs to a process that is alive
    have halive := (h2.life.home j hj).2.2.2.2
    rw [show k₂.ledger.life.process (j + 1) = slot + 1 from he, hlife] at halive
    exact absurd (dead.symm.trans halive) (by simp)

theorem handleReapProcess_inv (h : k.Inv) (hrun : (k.tcb cur).state = .running) (f : TrapFrame) :
    (k.handleReapProcess cur f).Inv := by
  unfold handleReapProcess
  split
  · exact (h.setA0 _ _).setA1 _ _
  · exact ((reapProcess_inv h hrun _).setA1 _ _).setA0 _ _

end State

end Aegir.Kernel
