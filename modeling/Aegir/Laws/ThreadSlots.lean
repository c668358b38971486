/-
  Thread creation keeps the invariant.

  The slot of the new thread is taken before its block is filled, and a creation that fails puts it
  back; a failure after the block was filled leaves a block in state `ready` that is on no run queue.
-/
import Aegir.Laws.Slots

namespace Aegir.Kernel

open Aegir.Arch Ledger Roster List Function

namespace Life

variable {l : Life} {i P : Nat}

/-- **A process gets one more thread.** -/
theorem Sound.addThread (hl : l.Sound) {rest : List Nat} (hfree : l.threadFreeSlots = i :: rest)
    (hproc : l.process (i + 1) = P) (h1 : 1 ≤ P) (hmax : P ≤ maxProcessSlots)
    (hused : l.used (P - 1) = true) (halive : l.procState P = .alive) :
    { l with
      threadUsed := update l.threadUsed i true
      threadFreeSlots := rest
      processThreadCount :=
        update l.processThreadCount (P - 1) (l.processThreadCount (P - 1) + 1) }.Sound := by
  obtain ⟨hi1, hi2, hif⟩ := (hl.threadFree i).mp (by rw [hfree]; exact mem_cons_self)
  have hnd := hl.threadFree_nodup
  rw [hfree] at hnd
  have hmem : ∀ j, j ∈ l.threadFreeSlots ↔ j = i ∨ j ∈ rest := by
    intro j
    rw [hfree, mem_cons]
  refine ⟨hl.process_le, hl.init, fun j hj => ?_, hl.initial, fun j hj hju => ?_, hl.free,
    hl.free_nodup, fun j => ?_, (nodup_cons.mp hnd).2, fun j hj ha => ?_⟩
  · by_cases hji : j = i
    · subst hji
      rw [hproc]
      exact ⟨hi2, h1, hmax, hused, halive⟩
    · exact hl.home j ((update_of_ne hji _ _).symm.trans hj)
  · exact hl.primary j hj ((update_of_ne (by omega) _ _).symm.trans hju)
  · show j ∈ rest ↔ maxProcessSlots ≤ j ∧ j < maxThreadSlots ∧ update l.threadUsed i true j = false
    by_cases hji : j = i
    · subst hji
      exact iff_of_false (nodup_cons.mp hnd).1 (by simp)
    · rw [update_of_ne hji, ← hl.threadFree j, hmem]
      exact ⟨.inr, fun h => h.resolve_left hji⟩
  · have hthreads : ∀ p, p ≠ P → ({ l with
        threadUsed := update l.threadUsed i true
        threadFreeSlots := rest
        processThreadCount :=
          update l.processThreadCount (P - 1) (l.processThreadCount (P - 1) + 1) } :
        Life).threadsOf p = l.threadsOf p := by
      intro p hp
      refine threadsOf_congr fun m => ?_
      show update l.threadUsed i true m = true ∧ _ ↔ _
      by_cases hm : m = i
      · subst hm
        refine iff_of_false (fun hh => hp ?_) fun hh => hp ?_
        · exact hh.2.symm.trans hproc
        · exact hh.2.symm.trans hproc
      · rw [update_of_ne hm]
    by_cases hjP : j + 1 = P
    · have hj' : j = P - 1 := by omega
      have hinsert : ({ l with
          threadUsed := update l.threadUsed i true
          threadFreeSlots := rest
          processThreadCount :=
            update l.processThreadCount (P - 1) (l.processThreadCount (P - 1) + 1) } :
          Life).threadsOf (j + 1) = insert i (l.threadsOf (j + 1)) := by
        ext m
        rw [Finset.mem_insert, mem_threadsOf, mem_threadsOf]
        show m < maxThreadSlots ∧ update l.threadUsed i true m = true ∧ _ ↔ _
        by_cases hm : m = i
        · subst hm
          rw [update_self]
          exact iff_of_true ⟨hi2, rfl, hproc.trans hjP.symm⟩ (.inl rfl)
        · rw [update_of_ne hm]
          exact ⟨.inr, fun h => h.resolve_left hm⟩
      have hnot : i ∉ l.threadsOf (j + 1) := by
        rw [mem_threadsOf, hif]
        simp
      rw [hinsert, Finset.card_insert_of_notMem hnot, ← hl.count j hj ha, hj']
      exact update_self (P - 1) _ _
    · rw [hthreads (j + 1) hjP, ← hl.count j hj ha]
      exact update_of_ne (by omega) _ _

end Life

namespace State

variable {k k' : State} {cur slot stack : Nat} {rest : List Nat}

/-! ## Taking the slot and putting it back -/

theorem abandonThread_same {k₁ k₂ : State} (hL : k.ledger.Counted none) (hl : k.ledger.life.Sound)
    (hbefore : Paged k k₁) (hfree : k₁.threadFreeSlots = slot :: rest)
    (hafter : Paged (k₁.reserveThread slot rest) k₂) :
    k.ledger.SameCaps (k₂.abandonThread slot stack).ledger ∧
    (k₂.abandonThread slot stack).roster = k.roster := by
  have hp1 := hbefore.wf hL.pmm
  have hp2 : k₂.pmm.Wf := hafter.wf hp1
  have hfree' : k.threadFreeSlots = slot :: rest := by
    rw [hbefore.same] at hfree
    exact hfree
  have hf : k.threadUsed slot = false := ((hl.threadFree slot).mp (by
    show slot ∈ k.threadFreeSlots
    rw [hfree']
    exact mem_cons_self)).2.2
  have hused : update (update k.threadUsed slot true) slot false = k.threadUsed := by
    rw [update_idem, ← hf, update_eq_self]
  have hk2 := hafter.same
  rw [hbefore.same] at hk2
  refine ⟨?_, ?_⟩
  · rw [hk2]
    refine ⟨fun _ => rfl, hL.table, hp2.deallocateFrame _, rfl, rfl, ?_⟩
    show ({ k.ledger.life with
      threadUsed := update (update k.threadUsed slot true) slot false
      threadFreeSlots := slot :: rest } : Life) = k.ledger.life
    rw [hused, ← hfree']
    rfl
  · rw [hk2]
    show ({ k.roster with
      threadUsed := update (update k.threadUsed slot true) slot false } : Roster) = k.roster
    rw [hused]
    rfl

/-! ## Filling the block -/

/-- **`installThread`**: the block is filled, then a cap on it goes to the creator. -/
theorem installThread_cases (stack object : Nat) (ipcVA : U64) (priority : Int) {fresh : Option (Pool × Nat)}
    (hL : k.ledger.Counted fresh) (hcur : cur ≠ slot + 1) :
    ∃ k₁ : State, Kept k.ledger k₁.ledger ∧ (∃ top, k₁.ledger.life = (k.ledger.seat slot (k.tcb cur).process top
        ((k.threadSlotGeneration slot + 1) % generationWrap)).life) ∧
      k₁.roster = k.roster.setThread (slot + 1) (freshIpc (k.threadSlotGeneration slot)) ∧
      (k.installThread cur slot stack object ipcVA priority).2.roster = k₁.roster ∧
      ((∃ cap badge, (k.installThread cur slot stack object ipcVA priority).1 = .ok cap ∧
        k₁.ledger.Inserted (k.installThread cur slot stack object ipcVA priority).2.ledger (k.tcb cur).process
          cap ⟨true, .threadObject, slot + 1, threadCapRights, badge⟩) ∨
      (∃ e, (k.installThread cur slot stack object ipcVA priority).1 = .error e ∧
        k₁.ledger.SameCaps (k.installThread cur slot stack object ipcVA priority).2.ledger)) := by
  unfold installThread
  dsimp only
  generalize hk2 : ({ (if k.nextThreadId + 1 = 2 ^ 31 then k.halt else k) with
    nextThreadId := k.nextThreadId + 1 } : State) = k₂
  have hr2 : k₂.roster = k.roster := by
    rw [← hk2]
    split <;> rfl
  have hkept2 : Kept k.ledger k₂.ledger := by
    rw [← hk2]
    split <;> exact ⟨fun _ => rfl, hL.table, hL.pmm, rfl, rfl⟩
  have hlife2 : k₂.ledger.life = k.ledger.life := by
    rw [← hk2]
    split <;> rfl
  have hgen : k₂.threadSlotGeneration = k.threadSlotGeneration :=
    congrArg Life.threadSlotGeneration hlife2
  have hproc2 : (k₂.tcb cur).process = (k.tcb cur).process := congrFun (congrArg Life.process hlife2) cur
  have hproc : ((if k.nextThreadId + 1 = 2 ^ 31 then k.halt else k).tcb cur).process =
      (k.tcb cur).process := by split <;> rfl
  rw [hproc]
  have hl3 := ledger_initializeSlotThread k₂ slot k.nextThreadId (k.tcb cur).process
    (k₂.frameAt object 0) ipcVA.toNat (stack + pageSize)
  have hr3 := roster_initializeSlotThread k₂ slot k.nextThreadId (k.tcb cur).process
    (k₂.frameAt object 0) ipcVA.toNat (stack + pageSize)
  generalize k₂.initializeSlotThread slot k.nextThreadId (k.tcb cur).process (k₂.frameAt object 0)
    ipcVA.toNat (stack + pageSize) = k₃ at hl3 hr3 ⊢
  have hkept3 : Kept k.ledger k₃.ledger := by
    rw [hl3]
    exact hkept2.trans ((hkept2.counted hL).seat_kept _ _ _ _)
  have hproc3 : (k₃.tcb cur).process = (k.tcb cur).process := by
    have : k₃.ledger.process cur = k₂.ledger.process cur := by
      rw [hl3]
      exact update_of_ne hcur _ _
    exact this.trans hproc2
  have hL3 := hkept3.counted hL
  have hmod : ∀ (j : State) (c : Nat), (j.modTcb (slotAddress slot) fun t =>
      { t with userThreadCap := c, priority := priority }).ledger = j.ledger ∧ (j.modTcb (slotAddress slot) fun t =>
      { t with userThreadCap := c, priority := priority }).roster = j.roster :=
    fun j c => ⟨ledger_modTcb _ _ _ rfl Iff.rfl rfl, roster_modTcb_same _ _ _ rfl⟩
  have hr4 := roster_insertCap k₃ cur .threadObject (slotAddress slot) threadCapRights
    (UInt64.ofNat k.nextThreadId)
  refine ⟨k₃, hkept3, ⟨stack + pageSize, ?_⟩, ?_, ?_, ?_⟩
  · rw [hl3, ← hgen]
    show ({ k₂.ledger.life with
      process := update k₂.ledger.life.process (slot + 1) _
      dead := update k₂.ledger.life.dead (slot + 1) false
      threadSlotGeneration := update k₂.ledger.life.threadSlotGeneration slot _ } : Life) = _
    rw [hlife2]
    rfl
  · rw [hr3, hr2, hgen]
  · rw [(hmod _ _).2]
    exact hr4
  · cases hins : k₃.insertCap cur .threadObject (slotAddress slot) threadCapRights
      (UInt64.ofNat k.nextThreadId) with
    | mk r k₄ =>
      cases r with
      | ok cap =>
        refine .inl ⟨cap, UInt64.ofNat k.nextThreadId, rfl, ?_⟩
        have := insertCap_ok hL3 (fun P hP => by cases hP) hins
        rw [hproc3] at this
        rw [(hmod _ _).1]
        exact this
      | error e =>
        refine .inr ⟨e, rfl, ?_⟩
        rw [(hmod _ _).1]
        exact insertCap_error hL3 hins

theorem reserveThread_spec {k₁ k₂ : State} (hL : k.ledger.Counted none) (hbefore : Paged k k₁)
    (hafter : Paged (k₁.reserveThread slot rest) k₂) :
    Kept k.ledger k₂.ledger ∧ k₂.tcb = k.tcb ∧ k₂.roster = k.roster.schedule slot ∧
    k₂.ledger.life = { k.ledger.life with
      threadUsed := update k.ledger.life.threadUsed slot true, threadFreeSlots := rest } := by
  have hp2 : k₂.pmm.Wf := hafter.wf (hbefore.wf hL.pmm)
  have hk2 := hafter.same
  rw [hbefore.same] at hk2
  refine ⟨?_, ?_, ?_, ?_⟩
  · rw [hk2]
    exact ⟨fun _ => rfl, hL.table, hp2, rfl, rfl⟩
  · rw [hk2]
    rfl
  · rw [hk2]
    rfl
  · rw [hk2]
    rfl

theorem Waits.seated (hw : k.Waits) (hq : k.roster.Quiet (slot + 1)) (generation : Nat)
    (hr : k'.roster = k.roster.setThread (slot + 1) (freshIpc generation) ∨
      k'.roster = (k.roster.schedule slot).setThread (slot + 1) (freshIpc generation))
    (hs : k'.endpointSlab = k.endpointSlab) : k'.Waits := by
  rcases hr with hr | hr
  · exact hw.of_sound (by rw [hr]; rfl) hs (by rw [hr]; exact hw.sound.seat hq _)
  · have hq' : (k.roster.schedule slot).Quiet (slot + 1) := hq
    exact hw.of_sound (by rw [hr]; rfl) hs (by rw [hr]; exact (hw.sound.schedule slot).seat hq' _)

/-- The block of a free slot: it is not the creator's. -/
theorem Inv.free_block {k₁ : State} (h : k.Inv) (hrun : (k.tcb cur).state = .running) (hp : Paged k k₁)
    (hfree : k₁.threadFreeSlots = slot :: rest) : k.threadFreeSlots = slot :: rest ∧
      maxProcessSlots ≤ slot ∧ slot < maxThreadSlots ∧ k.threadUsed slot = false ∧ cur ≠ slot + 1 := by
  rw [hp.same] at hfree
  obtain ⟨h1, h2, h3⟩ := (h.life.threadFree slot).mp (by
    show slot ∈ k.threadFreeSlots
    rw [hfree]
    exact mem_cons_self)
  refine ⟨hfree, h1, h2, h3, fun he => ?_⟩
  rcases h.running_cases hrun with hc | ⟨-, -, hu⟩
  · unfold initThread at hc
    omega
  · rw [he, Nat.add_sub_cancel] at hu
    exact absurd (hu.symm.trans h3) (by simp)

/-- **Thread creation keeps the invariant.** -/
theorem threadCreate_inv (h : k.Inv) (hrun : (k.tcb cur).state = .running) :
    (k.threadCreate cur).2.2.Inv := by
  have hout := threadCreate_outcome k cur
  generalize k.threadCreate cur = r at hout ⊢
  cases hout with
  | refused => exact h
  | halted =>
    exact h.of_same ⟨fun _ => rfl, h.counted.table, h.counted.pmm, rfl, rfl, rfl⟩ (h.waits.of_eq rfl rfl)
  | unmapped _ paged => exact h.paged paged
  | abandoned _ before free after =>
    obtain ⟨hsame, hr⟩ := abandonThread_same h.counted h.life before free after
    exact h.of_same hsame (h.waits.of_eq hr (endpointSlab_of_ledger hsame.slab))
  | @installed slot stack object ipcVA priority rest _ _ k₂ k₃ _ home before free mapped install ending =>
    obtain ⟨hfree, hs1, hs2, hf, hne⟩ := h.free_block hrun before free
    have hq := h.waits.quiet_unscheduled hs2 hf
    obtain ⟨hkept2, htcb2, hr2, hlife2⟩ := reserveThread_spec h.counted before mapped
    have hcases := installThread_cases stack object ipcVA priority (hkept2.counted h.counted) hne
    rw [install] at hcases
    obtain ⟨k3', hkept3, ⟨top, hlife3⟩, hr3, hr3', hins⟩ := hcases
    cases ending with
    | @unheld _ _ k₄ _ after =>
      rcases hins with ⟨_, _, hok, -⟩ | ⟨_, -, hsame⟩
      · cases hok
      · have hL3 := hkept3.counted (hkept2.counted h.counted)
        have hsame4 := after.ledger_same (hsame.counted hL3)
        have hlife4 := (hsame4.life.trans hsame.life).trans hlife3
        have hkept4 : Kept k.ledger k₄.ledger := ⟨fun p => ((hsame4.get p).trans (hsame.get p)).trans
          (((hkept2.trans hkept3).get p)), hsame4.table, hsame4.pmm,
          (hsame4.count.trans hsame.count).trans (hkept2.trans hkept3).count,
          (hsame4.slab.trans hsame.slab).trans (hkept2.trans hkept3).slab⟩
        have hr4 : k₄.roster = (k.roster.schedule slot).setThread (slot + 1)
            (freshIpc (k₂.threadSlotGeneration slot)) := by
          rw [after.roster, hr3', hr3, hr2]
        have hused : update (update k.threadUsed slot true) slot false = k.threadUsed := by
          rw [update_idem, ← hf, update_eq_self]
        have hlife : (k₄.abandonThread slot stack).ledger.life = { k.ledger.life with
            process := update k.ledger.life.process (slot + 1) (k₂.tcb cur).process
            dead := update k.ledger.life.dead (slot + 1) false
            threadSlotGeneration := update k.ledger.life.threadSlotGeneration slot
              ((k₂.threadSlotGeneration slot + 1) % generationWrap) } := by
          show ({ k₄.ledger.life with
            threadUsed := update k₄.ledger.life.threadUsed slot false
            threadFreeSlots := slot :: k₄.ledger.life.threadFreeSlots } : Life) = _
          rw [hlife4]
          show ({ k₂.ledger.life with
            process := update k₂.ledger.life.process (slot + 1) (k₂.tcb cur).process
            dead := update k₂.ledger.life.dead (slot + 1) false
            threadSlotGeneration := update k₂.ledger.life.threadSlotGeneration slot
              ((k₂.threadSlotGeneration slot + 1) % generationWrap)
            threadUsed := update k₂.ledger.life.threadUsed slot false
            threadFreeSlots := slot :: k₂.ledger.life.threadFreeSlots } : Life) = _
          rw [hlife2]
          show ({ k.ledger.life with
            process := _, dead := _, threadSlotGeneration := _
            threadUsed := update (update k.threadUsed slot true) slot false
            threadFreeSlots := slot :: rest } : Life) = _
          rw [hused, ← hfree]
          rfl
        refine h.kept ?_ ?_ ?_ ?_
        · exact ⟨hkept4.get, hkept4.table, hkept4.pmm.deallocateFrame _, hkept4.count, hkept4.slab⟩
        · rw [hlife]
          refine h.life.setProcess hs2 hf ?_ (fun hu => ?_) _ _
          · rw [htcb2]
            exact h.process_le cur
          · have := (h.life.initial slot hu).1
            omega
        · exact congrArg Life.used hlife
        · refine h.waits.seated hq (k₂.threadSlotGeneration slot) (.inl ?_) (endpointSlab_of_ledger hkept4.slab)
          show ({ k₄.roster with threadUsed := update k₄.roster.threadUsed slot false } : Roster) = _
          rw [hr4]
          show ({ (k.roster.setThread (slot + 1) (freshIpc (k₂.threadSlotGeneration slot))) with
            threadUsed := update (update k.threadUsed slot true) slot false } : Roster) = _
          rw [hused]
          rfl
    | created =>
      rcases hins with ⟨cap', badge, -, hins⟩ | ⟨_, herr, -⟩
      · have hkept := hkept2.trans hkept3
        have hL3 := hkept.counted h.counted
        rw [htcb2] at hins
        have hP : (k.tcb cur).process ≤ initProcess := h.process_le cur
        have horig : k3'.ledger.Origin kernelActor ⟨true, .threadObject, slot + 1, threadCapRights, badge⟩ :=
          .made (.inr (.inr rfl)) rfl
        have hL := hins.counted hL3 hP horig
        have hlife := hins.life.trans hlife3
        have hproc3 : (k₃.tcb cur).process = (k.tcb cur).process := by
          refine (congrFun (congrArg Life.process hlife) cur).trans ?_
          exact (update_of_ne hne _ _).trans (congrArg (fun c => (c cur).process) htcb2)
        -- the creator's process is alive
        have hin := home
        simp only [inProcessTable, Bool.and_eq_true, bne_iff_ne, ne_eq, decide_eq_true_eq] at hin
        have hcur : 1 ≤ cur ∧ k.threadUsed (cur - 1) = true := by
          rcases h.running_cases hrun with rfl | ⟨h1, -, hu⟩
          · have hinit : (k.tcb initThread).process = initProcess := h.life.init
            rw [hinit] at hin
            unfold initProcess at hin
            omega
          · exact ⟨h1, hu⟩
        obtain ⟨-, hp1, hpmax, hpused, hpalive⟩ := h.life.home (cur - 1) hcur.2
        rw [Nat.sub_add_cancel hcur.1] at hp1 hpmax hpused hpalive
        have hsound : (k₃.countThread cur).ledger.life.Sound := by
          have hsetp := h.life.setProcess hs2 hf hP (fun hu => by
            have := (h.life.initial slot hu).1
            omega) (update k.ledger.life.dead (slot + 1) false)
            (update k.ledger.life.threadSlotGeneration slot ((k₂.threadSlotGeneration slot + 1) % generationWrap))
          have hadd := hsetp.addThread (i := slot) (P := (k.tcb cur).process) hfree
            (update_self _ _ _) hp1 hpmax hpused hpalive
          refine Eq.subst (motive := Life.Sound) ?_ hadd
          symm
          show ({ k₃.ledger.life with
            processThreadCount := update k₃.ledger.life.processThreadCount ((k₃.tcb cur).process - 1)
              (k₃.ledger.life.processThreadCount ((k₃.tcb cur).process - 1) + 1) } : Life) = _
          rw [hproc3, hlife]
          show ({ k₂.ledger.life with
            process := update k₂.ledger.life.process (slot + 1) (k₂.tcb cur).process
            dead := update k₂.ledger.life.dead (slot + 1) false
            threadSlotGeneration := update k₂.ledger.life.threadSlotGeneration slot
              ((k₂.threadSlotGeneration slot + 1) % generationWrap)
            processThreadCount := update k₂.ledger.life.processThreadCount ((k.tcb cur).process - 1)
              (k₂.ledger.life.processThreadCount ((k.tcb cur).process - 1) + 1) } : Life) = _
          rw [hlife2, htcb2]
        refine ⟨hL.congr rfl rfl rfl hL.pmm, hsound, fun i hi hu j => ?_, ?_⟩
        · have hu : k.used i = false := by
            have hused3 : k₃.used = k.used := (congrArg Life.used hlife).trans (congrArg Life.used hlife2)
            exact (congrFun hused3 i).symm.trans hu
          show (k₃.ledger.entry (i + 1) j).valid = false
          have hnot : ¬ (i + 1 = (k.tcb cur).process ∧ j = cap') := fun he =>
            h.life.not_open hi hu (he.1 ▸ open_of_running h.waits hrun)
          rw [hins.entry, if_neg hnot, hkept.entry]
          exact h.vacant i hi hu j
        · refine h.waits.seated hq (k₂.threadSlotGeneration slot) (.inr ?_) ?_
          · show k₃.roster = _
            rw [hr3', hr3, hr2]
          · show k₃.endpointSlab = _
            exact (endpointSlab_of_inserted hins).trans (endpointSlab_of_ledger hkept.slab)
      · cases herr

theorem handleThreadCreate_inv (h : k.Inv) (hrun : (k.tcb cur).state = .running) :
    (k.handleThreadCreate cur).Inv := (threadCreate_inv h hrun).setA0 _ _

end State

end Aegir.Kernel
