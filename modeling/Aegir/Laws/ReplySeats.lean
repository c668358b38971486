/-
  What deaths and births do to the reply caps, and every STEP of the machine.

  A thread that dies takes its wait with it and leaves its reply cap behind, stale.  A spawn and a
  thread creation fill the control block of a free slot, on which nobody waits, with the generation
  that the slot's counter shows, and count it up; a spawn that fails later on gives the slot back,
  counted all the same.
-/
import Aegir.Laws.ReplyTurns

namespace Aegir.Kernel

open Aegir.Arch Aegir.Lib Ledger Roster

namespace State

variable {k k' k₁ : State} {fresh : Option (Pool × Nat)} {cur t s : Nat} {M : Nat → Prop}

theorem book_of_tcb (hc : k'.ledger.caps = k.ledger.caps) (ht : k'.tcb = k.tcb) : k'.book = k.book := by
  unfold book Ledger.entry
  rw [hc, ht]

/-! ## Exit -/

theorem exiting_generation (h : k.Inv) (cur : Nat) (code : U64) :
    (k.exiting cur code).threadSlotGeneration = k.threadSlotGeneration := by
  have hm := condemned k (k.tcb cur).process code
  unfold exiting
  dsimp only
  generalize (k.modPcb (k.tcb cur).process fun p => { p with exitCode := code, state := .dead }) = k₁ at hm ⊢
  have hgen : k₁.threadSlotGeneration = k.threadSlotGeneration := congrArg Ledger.threadSlotGeneration hm.ledger
  have hkill := (killThreads_spec (P := (k.tcb cur).process) cur maxThreadSlots 0 k₁ (hm.counted h)
    (hm.roster ▸ h.waits.sound)).2.1.generation
  generalize k₁.killThreads (k.tcb cur).process cur 0 maxThreadSlots = k₂ at hkill ⊢
  split
  · exact hkill.trans hgen
  · exact hkill.trans hgen

theorem handleExit_turns (h : k.Inv) (hrun : (k.tcb cur).state = .running) (hB : k.book.Exact)
    (f : TrapFrame) : Turns M k (k.handleExit cur f) := by
  have h1 := exiting_inv h cur f.a0
  obtain ⟨hkept, -, hdies, -, -⟩ := exiting_spec h cur f.a0
  have hgen := exiting_generation h cur f.a0
  have hd1 := hdies.detached (detached_of_running h.waits hrun)
  have hw₁ := dies_wanes hdies hkept.sameReplies
  have hlife := (cleanupCapRefs_steps 0 (fun _ => False) cur (fun _ hf => hf.elim)
    (k.exiting cur f.a0) h1.counted).life
  have hw₂ := cleanupCapRefs_wanes h1.counted h1.waits hd1 (hw₁.exact hB)
  unfold handleExit
  rw [markExited_eq h hrun]
  refine .wanes ((hw₁.trans hw₂).trans (slay_wanes (t := cur) (.of_caps rfl) (roster_modTcb ..))) ?_
  exact (congrArg Life.threadSlotGeneration hlife).trans hgen

theorem handleThreadExit_turns (h : k.Inv) (hrun : (k.tcb cur).state = .running)
    (hB : k.book.Exact) : Turns M k (k.handleThreadExit cur) := by
  -- the answer of a call that failed moves nothing
  have hret : ∀ {r : ProcStatus × State}, k.book.Wanes r.2.book ∧
      r.2.threadSlotGeneration = k.threadSlotGeneration →
      Turns M k (if r.1 = .ok then r.2 else r.2.setA0 cur 1) := by
    rintro r ⟨hw, hg⟩
    split
    · exact .wanes hw hg
    · refine .wanes ?_ hg
      rw [book_setA0]
      exact hw
  apply hret
  rcases h.running_cases hrun with rfl | ⟨h1, h2, hu⟩
  · -- init is not in the table
    have hinit : (k.tcb initThread).process = initProcess := h.life.init
    unfold threadExit
    rw [hinit, if_neg (by decide), if_pos (by decide)]
    exact ⟨.refl _, rfl⟩
  · obtain ⟨s, rfl⟩ : ∃ s, cur = s + 1 := ⟨cur - 1, by omega⟩
    rw [Nat.add_sub_cancel] at hu
    have hd := detached_of_running h.waits hrun
    generalize hP : (k.tcb (s + 1)).process = P
    -- the thread dies last
    have hlast : ∀ {j : State}, j.ledger.Counted none → j.roster.Sound → k.book.Wanes j.book →
        j.threadSlotGeneration = k.threadSlotGeneration →
        k.book.Wanes (j.killThread s (s + 1)).book ∧
          (j.killThread s (s + 1)).threadSlotGeneration = k.threadSlotGeneration := by
      intro j hL hR hw hg
      obtain ⟨hkept, hkill, hdies⟩ := killThread_spec (s := s) hL hR (s + 1)
      have hgen := hkill.generation
      have hwane := dies_wanes hdies hkept.sameReplies
      generalize j.killThread s (s + 1) = j' at hgen hwane ⊢
      exact ⟨hw.trans hwane, (show j'.threadSlotGeneration = _ from hgen).trans hg⟩
    have hcases := threadExit_cases h hu
    rw [hP] at hcases
    rcases hcases with ⟨-, heq⟩ | ⟨-, heq⟩
    · -- the last thread closes the caps of its process
      rw [heq, leaving_eq]
      have hm := condemned k P 0
      generalize (k.modPcb P fun p => { p with exitCode := 0, state := .dead }) = k₁ at hm ⊢
      have hb1 : k₁.book = k.book := book_of_tcb (by rw [hm.ledger]) hm.tcb
      have hL1 := hm.counted h
      have hw₁ := h.waits.of_eq hm.roster hm.endpoints
      have hd1 : k₁.roster.Detached (s + 1) := hm.roster ▸ hd
      have hs := cleanupCapRefs_steps 0 (fun _ => False) (s + 1) (fun _ hf => hf.elim) k₁ hL1
      have hc := cleanupCapRefs_calms hL1 hw₁ hd1
      have hwane := cleanupCapRefs_wanes hL1 hw₁ hd1 (hb1 ▸ hB)
      rw [hb1] at hwane
      generalize k₁.cleanupCapRefs (s + 1) = k₂ at hs hc hwane ⊢
      have hL2 := hs.counted (fun _ hf => hf.elim) hL1
      have hg2 : k₂.threadSlotGeneration = k.threadSlotGeneration :=
        (congrArg Life.threadSlotGeneration hs.life).trans (congrArg Ledger.threadSlotGeneration hm.ledger)
      have hb3 : (k₂.setThreadCount P 0).book = k₂.book := book_of_tcb rfl rfl
      have hg3 : (k₂.setThreadCount P 0).threadSlotGeneration = k₂.threadSlotGeneration := rfl
      have hw3 : (k₂.setThreadCount P 0).Waits := (hc.waits hw₁).of_eq rfl rfl
      have hL3 := (setThreadCount_kept hL2 P 0).counted hL2
      exact hlast hL3 hw3.sound (hb3 ▸ hwane) (hg3.trans hg2)
    · rw [heq, leaving_eq]
      generalize k.processThreadCount (P - 1) - 1 = n
      have hb1 : (k.setThreadCount P n).book = k.book := book_of_tcb rfl rfl
      have hg1 : (k.setThreadCount P n).threadSlotGeneration = k.threadSlotGeneration := rfl
      have hw₁ : (k.setThreadCount P n).Waits := h.waits.of_eq rfl rfl
      have hL1 := (setThreadCount_kept h.counted P n).counted h.counted
      exact hlast hL1 hw₁.sound (hb1 ▸ .refl _) hg1

/-! ## Giving a slot back -/

section Discard

variable {slot : Nat} (closeAll : Bool) (hL : k.ledger.Counted none) (hw : k.Waits)
  (hq : k.roster.Quiet (slot + 1)) (hproc : closeAll = true → (k.tcb (slot + 1)).process = slot + 1)
  (hempty : closeAll = false → ∀ i, (k.ledger.entry (slot + 1) i).valid = false) (hn : k.Replyless (slot + 1))

include hL hw hq hproc hempty hn

/-- After its thread was marked dead, giving a slot back moves no reply: its table has no reply cap. -/
theorem discardSlot_same : (k.discardThread slot).book.Same (k.discardSlot slot closeAll).book ∧
    (∀ u, (k.discardThread slot).book.ready u → (k.discardSlot slot closeAll).book.ready u) ∧
    (k.discardSlot slot closeAll).threadSlotGeneration = k.threadSlotGeneration := by
  have heq : k.discardSlot slot closeAll =
      ((k.discardThread slot).discardCaps slot closeAll).discardProcess slot := discardSlot_eq ..
  rw [heq]
  obtain ⟨hkept1, hlife1, -⟩ := discardThread_spec hL slot
  obtain ⟨hL1, hw₁, -, hd1, hproc1⟩ := discardThread_dead hL hw hq
  generalize k.discardThread slot = k₁ at hkept1 hlife1 hL1 hw₁ hd1 hproc1 ⊢
  have hn1 : k₁.Replyless (slot + 1) := by
    intro i u g
    rw [hkept1.entry]
    exact hn i u g
  have hempty1 : closeAll = false → ∀ i, (k₁.ledger.entry (slot + 1) i).valid = false := by
    intro hc i
    rw [hkept1.entry]
    exact hempty hc i
  obtain ⟨hsteps, hcalm, -⟩ := discardCaps_spec hL1 hw₁ hd1 closeAll
    (fun hc => (hproc1 _).trans (hproc hc)) hempty1
  have hsame : k₁.book.Same (k₁.discardCaps slot closeAll).book := by
    unfold discardCaps
    cases closeAll with
    | true =>
      rw [if_pos rfl]
      have hp : (k₁.tcb (slot + 1)).process = slot + 1 := (hproc1 _).trans (hproc rfl)
      generalize handleLast + 1 = n
      exact closeCaps_same (Nat.succ_ne_zero slot) n 0 k₁ hL1 hw₁ hd1 (hp.symm ▸ hn1)
    | false =>
      exact book_same (resetProcessCaps_same hL1 (hempty1 rfl)).sameReplies (.of_eq rfl)
  generalize k₁.discardCaps slot closeAll = k₂ at hsteps hcalm hsame ⊢
  have hL2 := hsteps.counted (fun _ hf => hf.elim) hL1
  have hlife2 := hsteps.life
  obtain ⟨hkept3, hlife3, hr3⟩ := discardProcess_spec hL2 slot
  generalize k₂.discardProcess slot = k₃ at hkept3 hlife3 hr3 ⊢
  have hthread : k₃.roster.thread = k₂.roster.thread := by
    rw [hr3]
    rfl
  refine ⟨hsame.trans (book_same hkept3.sameReplies (.of_thread hthread)), fun u hu => ?_, ?_⟩
  · show (k₃.roster.thread u).state = .ready
    rw [hthread]
    exact hcalm.ready u hu
  · have hgen := congrArg Life.threadSlotGeneration hlife3
    rw [hlife2, hlife1] at hgen
    exact hgen

theorem discardSlot_wanes : k.book.Wanes (k.discardSlot slot closeAll).book ∧
    (k.discardSlot slot closeAll).threadSlotGeneration = k.threadSlotGeneration := by
  obtain ⟨hkept, -, hr⟩ := discardThread_spec hL slot
  obtain ⟨hsame, hready, hgen⟩ := discardSlot_same closeAll hL hw hq hproc hempty hn
  exact ⟨(slay_wanes hkept.sameReplies hr).trans (hsame.wanes fun u _ => hready u), hgen⟩

theorem discardSlot_renews (hcalm : (k.tcb (slot + 1)).awaitingReply = false) :
    k.book.Renews (k.discardSlot slot closeAll).book (slot + 1) ∧
      (k.discardSlot slot closeAll).book.stamp (slot + 1) = k.book.stamp (slot + 1) ∧
      (k.discardSlot slot closeAll).threadSlotGeneration = k.threadSlotGeneration := by
  obtain ⟨hkept, -, hr⟩ := discardThread_spec hL slot
  obtain ⟨hsame, -, hgen⟩ := discardSlot_same closeAll hL hw hq hproc hempty hn
  have hslay := slay_renews hkept.sameReplies hr hcalm
  have hstamp : (k.discardThread slot).book.stamp (slot + 1) = k.book.stamp (slot + 1) := by
    show ((k.discardThread slot).roster.thread (slot + 1)).generation = _
    rw [hr, slay_at]
    rfl
  exact ⟨hslay.before (.of_same hsame hslay.calm), (hsame.stamp _).trans hstamp, hgen⟩

end Discard

/-! ## Reap -/

theorem book_reclaim (k : State) (p : Nat) : (k.reclaim p).book = (k.cleanupCapRefs p).book := by
  have hrest : ∀ j : State, ((j.destroyAddressSpace (j.pcb p).root).modPcb p
      fun b => { b with root := 0 }).book = j.book := by
    intro j
    have hp := destroyAddressSpace_paged j (j.pcb p).root
    generalize j.destroyAddressSpace (j.pcb p).root = j' at hp ⊢
    have hb : j'.book = j.book := by
      rw [hp.same]
      rfl
    rw [← hb]
    refine book_of_tcb (funext fun q => ?_) rfl
    by_cases hq : q = p
    · subst hq
      simp [ledger_caps, modPcb]
    · simp [ledger_caps, modPcb, hq]
  exact hrest (k.cleanupCapRefs p)

theorem reapProcess_wanes (h : k.Inv) (hcur : cur ≠ 0) (hrun : (k.tcb cur).state = .running)
    (hB : k.book.Exact) (cap : Nat) : k.book.Wanes (k.reapProcess cur cap).2.2.book ∧
      (k.reapProcess cur cap).2.2.threadSlotGeneration = k.threadSlotGeneration := by
  have hout := reapProcess_outcome k cur cap
  generalize k.reapProcess cur cap = r at hout ⊢
  cases hout with
  | refused => exact ⟨.refl _, rfl⟩
  | unclosed close bad =>
    rw [closeCap_failed h hcur close bad]
    exact ⟨.refl _, rfl⟩
  | @reaped e slot k₁ look kind object slot_lt used dead gone close =>
    have hwane := closeCap_wanes h.counted h.waits hcur (detached_of_running h.waits hrun) hB cap false
    rw [close] at hwane
    obtain ⟨h1, hproc, hdead1, hlife1⟩ := closeCap_dead h hrun used gone close
    have hd1 : k₁.roster.Detached (slot + 1) :=
      h1.waits.sound.detached_of_state (by simp [Tcb.ipc, hdead1]) (by simp [Tcb.ipc, hdead1])
    -- the caps of the process are closed, its address space goes
    have hclean := cleanupCapRefs_wanes h1.counted h1.waits hd1 (hwane.exact hB)
    have hbook := book_reclaim k₁ (slot + 1)
    obtain ⟨h2, hlife2, hdead2, hempty⟩ := reclaim_inv h1 hproc hdead1
    rw [← hbook] at hclean
    generalize k₁.reclaim (slot + 1) = k₂ at h2 hlife2 hdead2 hempty hclean ⊢
    have hn : k₂.Replyless (slot + 1) := by
      intro i u g hr
      exact absurd (hr.1.symm.trans (hempty i)) (by simp)
    have hq : k₂.roster.Quiet (slot + 1) := .inl hdead2
    obtain ⟨hlast, hgen⟩ := discardSlot_wanes false h2.counted h2.waits hq (fun hf => by cases hf) (fun _ => hempty) hn
    exact ⟨(hwane.trans hclean).trans hlast, hgen.trans (congrArg Life.threadSlotGeneration
      (hlife2.trans hlife1))⟩

theorem handleReapProcess_turns (h : k.Inv) (hcur : cur ≠ 0) (hrun : (k.tcb cur).state = .running)
    (hB : k.book.Exact) (f : TrapFrame) : Turns M k (k.handleReapProcess cur f) := by
  unfold handleReapProcess
  split
  · exact .rests (((Rests.refl k).setA0 _).setA1 _)
  · rename_i cap _
    obtain ⟨hw, hg⟩ := reapProcess_wanes h hcur hrun hB cap
    refine .wanes ?_ hg
    rw [book_setA0, book_setA1]
    exact hw

/-! ## Spawn -/

variable {child parent root : Nat} {rest : List Nat} {k₂ k₃ : State}

theorem grantListCaps_sameReplies (parent : Nat) (grantCount : U64)
    (hchild : child ≤ initProcess) (k : State) (hL : k.ledger.Counted fresh) :
    k.ledger.SameReplies (k.grantListCaps parent child grantCount).2.ledger := by
  refine (grantListCaps_keeps (Q := fun j => j.ledger.Counted fresh ∧ k.ledger.SameReplies j.ledger)
    ⟨hL, .refl _⟩ ?_).2
  intro j source cap e mask badge ⟨hj, hsame⟩ hcap hlook hkind hrights
  rcases insertProcessCapAt_grant child badge hj hcap hlook hkind hrights with hkept | ⟨e', hkind', horig, hput⟩
  · exact ⟨hkept.counted hj, hsame.trans hkept.sameReplies⟩
  · exact ⟨hput.counted hj hchild horig, hsame.trans (hput.sameReplies hkind')⟩

theorem Paged.book (h : Paged k k') : k'.book = k.book := by
  rw [h.same]
  rfl

theorem Paged.rests (h : Paged k k') : Rests k k' := by
  refine ⟨h.book ▸ .refl _, ?_⟩
  rw [h.same]

theorem Replyless.same {p : Nat} (hn : k.Replyless p) (hl : k.ledger.SameReplies k'.ledger) :
    k'.Replyless p := fun i u g hr => hn i u g ((hl p i u g).mp hr)

theorem Inv.replyless (h : k.Inv) (hfree : k.freeSlots = s :: rest) : k.Replyless (s + 1) := by
  have hb := h.building hfree
  intro i u g hr
  exact absurd (hr.1.symm.trans (h.vacant s hb.lt hb.unused i)) (by simp)

theorem Waits.not_awaits (hw : k.Waits) {slot : Nat} (hs : slot < maxThreadSlots)
    (hu : k.threadUsed slot = false) : ¬ k.book.Awaits (slot + 1) := by
  rintro ⟨hlive, haw⟩
  rcases hw.quiet_unscheduled hs hu with hd | hr
  · exact hlive hd
  · have hno := hw.sound.awaiting_eq_false (t := slot + 1) (by rw [hr]; simp) (by rw [hr]; simp)
    exact absurd (Eq.trans (Eq.symm haw) hno) (by simp)

theorem initializeSlotProcess_rests {status : CapStatus} (h : k.Inv) (hfree : k.freeSlots = s :: rest)
    (hinit : k.initializeSlotProcess parent s root = (status, k')) : Rests k k' := by
  have hb := h.building hfree
  have hroster := (initializeSlotProcess_building h hfree hinit).2.1
  have hkept := blankProcess_kept h.counted (h.vacant s hb.lt hb.unused) parent root
  have hlife := life_blankProcess k parent s root
  rw [initializeSlotProcess_eq] at hinit
  generalize k.blankProcess parent s root = k₁ at hinit hkept hlife
  have hgen1 : k₁.threadSlotGeneration = k.threadSlotGeneration :=
    congrArg Life.threadSlotGeneration hlife
  have hcases := installAddressSpaceCap_cases (k := k₁) (p := s + 1) (hkept.counted h.counted)
  rw [hinit] at hcases
  rcases hcases with ⟨-, hins⟩ | ⟨-, hsame⟩
  · exact ⟨book_same (hkept.sameReplies.trans (hins.sameReplies (by simp))) (.of_eq hroster),
      (congrArg Life.threadSlotGeneration hins.life).trans hgen1⟩
  · exact ⟨book_same (hkept.sameReplies.trans hsame.sameReplies) (.of_eq hroster),
      (congrArg Life.threadSlotGeneration hsame.life).trans hgen1⟩

theorem Building.lt_threads (h : Building s k) : s < maxThreadSlots := by
  have := h.lt
  unfold maxProcessSlots at this
  unfold maxThreadSlots
  omega

theorem spawn_seats {image : ImageSource} {size buffer stack : Nat}
    {grantCount : U64} {status : ProcStatus} {k₁ : State} (h : k.Inv)
    (hfree : k.freeSlots = s :: rest)
    (hbuild : k.buildAddressSpace image size = (some (root, buffer, stack), k₁))
    (hinit : k₁.initializeSlotProcess parent s root = (.ok, k₂))
    (hgrant : (k₂.seatThread s buffer stack).grantListCaps parent (slotAddress s) grantCount = (status, k₃)) :
    Seats s k k₃ ∧ k₃.Replyless (s + 1) ∧ (k₃.tcb (s + 1)).awaitingReply = false := by
  have hp := built_paged hbuild
  have h1 := h.paged hp
  have hfree1 : k₁.freeSlots = s :: rest := by rw [hp.same]; exact hfree
  have hb := h.building hfree
  have hroster := (spawn_granted h hfree hbuild hinit hgrant).2.2.2.2
  have hrest := hp.rests.trans (initializeSlotProcess_rests h1 hfree1 hinit)
  have hb2 := (initializeSlotProcess_building h1 hfree1 hinit).1
  have hbseat := hb2.seatThread buffer stack
  have hl : (k₂.seatThread s buffer stack).ledger = _ := ledger_initializeSlotThread k₂ s _ _ _ _ _
  generalize k₂.seatThread s buffer stack = k2' at hbseat hl hgrant
  have hchild : s + 1 ≤ initProcess := by
    have := hb.lt
    unfold initProcess
    omega
  have hgrants := grantListCaps_sameReplies parent grantCount hchild k2' hbseat.counted
  have hsteps := grantListCaps_steps (fun p => p = s + 1) parent grantCount
    (fun p hp => hp ▸ hchild) k2' hbseat.counted rfl
  rw [show s + 1 = slotAddress s from rfl, hgrant] at hgrants hsteps
  have hkept : Kept k₂.ledger k2'.ledger := by
    rw [hl]
    exact hb2.counted.seat_kept _ _ _ _
  have hreplies : k.ledger.SameReplies k₃.ledger := by
    refine Ledger.SameReplies.trans (fun p i u g => hrest.book.holds (p, i) u g) (hkept.sameReplies.trans hgrants)
  obtain ⟨hrenew, hstamp⟩ := seat_renews hreplies (h.waits.not_awaits hb.lt_threads hb.threadUsed)
    (congrArg Roster.thread hroster)
  rw [hrest.generation] at hstamp
  refine ⟨⟨hrenew, hstamp, ?_⟩, (h.replyless hfree).same hreplies, ?_⟩
  · have hgen : k₃.threadSlotGeneration = k2'.threadSlotGeneration :=
      congrArg Life.threadSlotGeneration hsteps.life
    have hgen' : k2'.threadSlotGeneration = Function.update k₂.threadSlotGeneration s
        ((k₂.threadSlotGeneration s + 1) % generationWrap) := congrArg Ledger.threadSlotGeneration hl
    rw [hgen, hgen', hrest.generation]
  · have hself := congrArg (fun R => (Roster.thread R (s + 1)).awaiting) hroster
    exact hself.trans (by simp [freshIpc])

theorem undoSpawn_seats (h : Seats s k k₃) (hb : Building s k₃)
    (hproc : (k₃.tcb (s + 1)).process = s + 1) (hn : k₃.Replyless (s + 1))
    (hcalm : (k₃.tcb (s + 1)).awaitingReply = false) : Seats s k (k₃.undoSpawn s root true) := by
  obtain ⟨hrenew, hstamp, hgen⟩ := discardSlot_renews true hb.counted hb.waits hb.quiet (fun _ => hproc) nofun hn hcalm
  have hdiscard : Seats s k (k₃.discardSlot s true) :=
    ⟨h.book.before hrenew, hstamp.trans h.stamp, hgen.trans h.generation⟩
  exact hdiscard.rests (destroyAddressSpace_paged _ root).rests

theorem hold_rests {k₄ : State} {r : Except CapStatus Nat} (hb : Building s k₃)
    (hhold : (k₃.reviveProcess s).insertProcessHandle parent s = (r, k₄)) : Rests k₃ k₄ := by
  have hl : (k₃.reviveProcess s).ledger =
      { k₃.ledger with procState := Function.update k₃.ledger.procState (s + 1) .alive } :=
    ledger_modPcb _ _ _ rfl rfl
  have hrevive : Rests k₃ (k₃.reviveProcess s) := .of_tcb (by rw [hl]) rfl rfl
  have hins : Rests (k₃.reviveProcess s) ((k₃.reviveProcess s).insertProcessHandle parent s).2 :=
    insertCap_rests hb.reviveProcess.1.counted (by simp) fun P hP => by cases hP
  rw [hhold] at hins
  exact hrevive.trans hins

theorem commitSlot_rests (hready : (k.tcb (s + 1)).state = .ready) : Rests k (k.commitSlot s) := by
  have hmod : Rests k (k.modTcb (s + 1) fun c => { c with state := .ready }) :=
    modTcb_rests k (s + 1) _ (by simp [hready]) rfl rfl
  exact hmod.trans (.of_tcb rfl rfl rfl)

theorem handleSpawn_turns (h : k.Inv) (hrun : (k.tcb cur).state = .running) (f : TrapFrame) :
    Turns M k (k.handleSpawn cur f) := by
  have hsched : ∀ {slot : Nat} {x : ThreadIpc} {j : State},
      j.roster = k.roster.setThread (slot + 1) x → j.roster.Scheduled cur := by
    intro slot x j hr
    rw [hr]
    exact scheduled_of_running h.waits hrun
  unfold handleSpawn
  split
  · exact .rests (((Rests.refl k).setA0 _).setA1 _)
  · rename_i cap _
    have hout := spawnBootImage_outcome k cur cap f.a1
    generalize k.spawnBootImage cur cap f.a1 = r at hout ⊢
    cases hout with
    | refused => exact .rests (((Rests.refl k).setA0 _).setA1 _)
    | unbuilt build => exact .rests (((built_paged build).rests.setA0 _).setA1 _)
    | @unseated _ _ slot root _ _ rest _ k₁ k₂ free build init bad =>
      -- no thread was seated: the slot is given back uncounted
      have hp := built_paged build
      have hfree1 : k₁.freeSlots = slot :: rest := by rw [hp.same]; exact free
      obtain ⟨hb, hr, -, hempty⟩ := initializeSlotProcess_building (h.paged hp) hfree1 init
      have hrest := hp.rests.trans (initializeSlotProcess_rests (h.paged hp) hfree1 init)
      have hn : k₂.Replyless (slot + 1) :=
        (h.replyless free).same fun p i u g => hrest.book.holds (p, i) u g
      have hready : ∀ u, k.book.ready u → k₂.book.ready u := by
        intro u hu
        show (k₂.roster.thread u).state = .ready
        rw [hr, hp.roster]
        exact hu
      obtain ⟨hwane, hgen⟩ := discardSlot_wanes false hb.counted hb.waits hb.quiet nofun (fun _ => hempty bad) hn
      have hwane := (hrest.book.wanes fun u _ => hready u).trans hwane
      have hundo := destroyAddressSpace_paged (k₂.discardSlot slot false) root
      refine .wanes ?_ (hundo.rests.generation.trans (hgen.trans hrest.generation))
      rw [book_setA1, book_setA0]
      exact hundo.book ▸ hwane
    | @seated _ _ slot _ _ _ _ _ _ _ k₃ _ free build init grant ending =>
      obtain ⟨hb, hproc, hready, -, hr⟩ := spawn_granted h free build init grant
      obtain ⟨hseat, hn, hcalm⟩ := spawn_seats h free build init grant
      cases ending with
      | ungranted =>
        exact .seats slot hb.lt_threads ((undoSpawn_seats hseat hb hproc hn hcalm).rests
          (((Rests.refl _).setA0 _).setA1 _))
      | @unheld _ k₄ hold =>
        obtain ⟨hb4, hr4, hlife⟩ := hb.hold (hsched hr) hold
        have hrest := hold_rests hb hold
        have hproc4 : (k₄.tcb (slot + 1)).process = slot + 1 :=
          (congrFun (congrArg Life.process hlife) _).trans hproc
        have hcalm4 : (k₄.tcb (slot + 1)).awaitingReply = false :=
          (congrArg (fun R => (Roster.thread R (slot + 1)).awaiting) hr4).trans hcalm
        have hn4 : k₄.Replyless (slot + 1) := hn.same fun p i u g => hrest.book.holds (p, i) u g
        exact .seats slot hb.lt_threads ((undoSpawn_seats (hseat.rests hrest) hb4 hproc4 hn4 hcalm4).rests
          (((Rests.refl _).setA0 _).setA1 _))
      | @spawned _ k₄ hold =>
        obtain ⟨-, hr4, -⟩ := hb.hold (hsched hr) hold
        have hready4 : (k₄.tcb (slot + 1)).state = .ready :=
          (congrArg (fun R => (Roster.thread R (slot + 1)).state) hr4).trans hready
        exact .seats slot hb.lt_threads (((hseat.rests (hold_rests hb hold)).rests
          (commitSlot_rests hready4)).rests (((Rests.refl _).setA0 _).setA1 _))

/-! ## Thread creation -/

theorem installThread_seats {slot : Nat} {k₁ : State} (h : k.Inv) (hs : slot < maxThreadSlots)
    (hu : k.threadUsed slot = false) (hcur : cur ≠ slot + 1) (before : Paged k k₁)
    (mapped : Paged (k₁.reserveThread slot rest) k₂) (stack object : Nat) (ipcVA : U64)
    (priority : Int) : Seats slot k (k₂.installThread cur slot stack object ipcVA priority).2 := by
  obtain ⟨hkept2, -, hr2, hlife2⟩ := reserveThread_spec h.counted before mapped
  have hgen2 : k₂.threadSlotGeneration = k.threadSlotGeneration :=
    congrArg Life.threadSlotGeneration hlife2
  obtain ⟨k₃, hkept3, ⟨top, hlife3⟩, hr3, hr4, hins⟩ := installThread_cases stack object ipcVA priority
    (hkept2.counted h.counted) hcur
  have hthread : k₃.roster.thread =
      (k.roster.setThread (slot + 1) (freshIpc (k.threadSlotGeneration slot))).thread := by
    rw [hr3, hr2, hgen2]
    rfl
  obtain ⟨hrenew, hstamp⟩ := seat_renews (hkept2.trans hkept3).sameReplies (h.waits.not_awaits hs hu) hthread
  have hgen3 : k₃.threadSlotGeneration = Function.update k.threadSlotGeneration slot
      ((k.threadSlotGeneration slot + 1) % generationWrap) := by
    rw [← hgen2]
    exact congrArg Life.threadSlotGeneration hlife3
  have hseat : Seats slot k k₃ := ⟨hrenew, hstamp, hgen3⟩
  rcases hins with ⟨cap, badge, -, hput⟩ | ⟨e, -, hsame⟩
  · exact hseat.rests (.of_life (hput.sameReplies (by simp)) (.of_eq hr4) hput.life)
  · exact hseat.rests (.of_life hsame.sameReplies (.of_eq hr4) hsame.life)

theorem handleThreadCreate_turns (h : k.Inv) (hrun : (k.tcb cur).state = .running) :
    Turns M k (k.handleThreadCreate cur) := by
  unfold handleThreadCreate
  have hout := threadCreate_outcome k cur
  generalize k.threadCreate cur = r at hout ⊢
  cases hout with
  | refused => exact .rests ((Rests.refl k).setA0 _)
  | halted =>
    have hhalt : Rests k k.halt := .of_tcb rfl rfl rfl
    exact .rests (hhalt.setA0 _)
  | unmapped _ paged => exact .rests (paged.rests.setA0 _)
  | abandoned _ before free after =>
    obtain ⟨hsame, hr⟩ := abandonThread_same h.counted h.life before free after
    have hrest : Rests k _ := .of_life hsame.sameReplies (.of_eq hr) hsame.life
    exact .rests (hrest.setA0 _)
  | @installed slot stack object ipcVA priority _ _ _ _ k₃ _ _ before free mapped install ending =>
    obtain ⟨-, -, hs, hu, hne⟩ := h.free_block hrun before free
    have hseat := installThread_seats h hs hu hne before mapped stack object ipcVA priority
    rw [install] at hseat
    cases ending with
    | @unheld _ _ k₄ _ after =>
      have habandon : Rests k₄ (k₄.abandonThread slot stack) := .of_tcb rfl rfl rfl
      exact .seats slot hs (hseat.rests ((after.rests.trans habandon).setA0 _))
    | created =>
      have hcount : Rests k₃ (k₃.countThread cur) := .of_tcb rfl rfl rfl
      exact .seats slot hs (hseat.rests (hcount.setA0 _))

/-! ## Every step -/

theorem Answers.rests (h : Answers k k') : Rests k k' := by
  obtain ⟨k₁, hp, hl, hr⟩ := h
  exact hp.rests.trans (.of_eq hl hr)

theorem handleCapMint_rests (h : k.Inv) (f : TrapFrame) : Rests k (k.handleCapMint cur f) := by
  apply handleCapMint_ind (R := Rests k) (fun _ _ hj => hj.setA0 _) (.refl k)
  intro cap e hlook hkind _
  obtain ⟨hent, hv⟩ := lookupCap_eq_some hlook
  refine insertCap_rests h.counted hkind fun P hP => ?_
  have := h.counted.slot _ _ P (by rw [hent]; exact hv) (by rw [hent]; exact hP)
  rwa [hent] at this

theorem handleThreadWait_rests (hrun : (k.tcb cur).state = .running) (f : TrapFrame) :
    Rests k (k.handleThreadWait cur f) := by
  have hwait : Rests (k.setA0 cur 0) ((k.setA0 cur 0).threadWait cur f.a0.toNat).2 := by
    have hrun0 : ((k.setA0 cur 0).tcb cur).state = .running := by simp [State.setA0, modTcb, hrun]
    generalize k.setA0 cur 0 = j at hrun0 ⊢
    unfold threadWait
    split
    · exact .refl j
    · rename_i e _
      split
      · exact .refl j
      · split
        · exact .refl j
        · split
          · exact .refl j
          · rename_i hne
            generalize hj1 : (j.modTcb cur fun c => { c with
              waitingFor := e.object, waitersNext := (j.tcb e.object).waitersHead }) = j1
            have h1 : Rests j j1 := by
              rw [← hj1]
              exact modTcb_rests j cur _ Iff.rfl rfl rfl
            have hrun1 : (j1.tcb cur).state = .running := by
              rw [← hj1]
              simp [modTcb, hrun0]
            refine (h1.trans (modTcb_rests j1 e.object (fun c => { c with waitersHead := cur })
              Iff.rfl rfl rfl)).trans (modTcb_rests _ cur (fun c =>
              { c with state := .blockedThreadWait }) ?_ rfl rfl)
            simp [modTcb, Ne.symm hne, hrun1]
  unfold handleThreadWait
  split
  · exact .of_tcb rfl rfl rfl
  · exact ((Rests.refl k).setA0 (t := cur) 0).trans hwait

theorem handleSetPriority_rests (f : TrapFrame) : Rests k (k.handleSetPriority cur f) := by
  have hmod : ∀ (t : Nat) (priority : Int), Rests k (k.modTcb t fun c => { c with priority := priority }) :=
    fun t _ => modTcb_rests k t _ Iff.rfl rfl rfl
  apply handleSetPriority_ind (Q := Rests k)
  · intro j v w hj
    exact (hj.setA0 _).setA1 _
  · exact .refl k
  · intro _
    exact hmod _ _
  · intro cap e _ _
    unfold setThreadPriority
    split
    · exact .refl k
    · exact hmod _ _

theorem failEndpoint_rests (h : k.Inv) (o : Nat) : Rests k (k.failEndpoint o) := by
  by_cases ho : o = 0
  · unfold failEndpoint
    rw [if_pos (.inl ho)]
    exact .refl k
  · have hl := ledger_failEndpoint k o
    exact .of_life (.of_eq hl) ((failEndpoint_calm h.waits.sound ho).1.sameWaits h.waits.sound) (by rw [hl])

end State

/-- Whose waits for a reply a call of the thread `cur` can begin: its own, or those of queued callers. -/
def Syscall.Mints (call : Syscall) (cur t : Nat) : Prop :=
  match call with
  | .ipcCall => t = cur
  | .ipcRecv => True
  | _ => False

/-- Whose waits for a reply a step can begin. -/
def Action.Mints : Action → Nat → Prop
  | .syscall call cur _ => call.Mints cur
  | _ => fun _ => False

namespace State

/-- **Every system call** either moves no reply, ends waits with their caps, begins one wait with its
    cap, or seats a new thread. -/
theorem handleSyscall_turns (h : k.Inv) (hcur : cur ≠ 0) (hrun : (k.tcb cur).state = .running)
    (hB : k.book.Exact) (f : TrapFrame) (call : Syscall) :
    Turns (call.Mints cur) k (k.handleSyscall cur f call) := by
  cases call with
  | epCreate =>
    refine .rests (grantFresh_rests rfl (createEndpoint_prepared h).2 ?_ fun j o => ?_)
    · unfold createEndpoint
      split <;> exact .of_tcb rfl rfl rfl
    · unfold discardEndpoint
      split <;> exact .of_tcb rfl rfl rfl
  | epSetStampIdentity =>
    refine .rests ?_
    show Rests k (k.handleEpSetStampIdentity cur f)
    unfold handleEpSetStampIdentity
    split
    · exact (Rests.refl k).setA0 _
    · split
      · exact (Rests.refl k).setA0 _
      · split
        · exact (Rests.refl k).setA0 _
        · obtain ⟨hl, hr⟩ := setStampIdentity_same k ‹CapEntry›.object (f.a1 != 0)
          exact (Rests.of_eq hl hr).setA0 _
  | ntfnCreate =>
    refine .rests (grantFresh_rests rfl (createNotification_prepared h).2 ?_ fun j o => ?_)
    · unfold createNotification
      split <;> exact .of_tcb rfl rfl rfl
    · unfold discardNotification
      split <;> exact .of_tcb rfl rfl rfl
  | memAlloc =>
    refine .rests (grantFresh_rests rfl (createMemory_prepared h f.a0).2 (createMemory_rests k _) fun j o => ?_)
    unfold discardMemory
    split
    · exact .refl j
    · exact (freeFrames_rests j o).trans (.of_tcb rfl rfl rfl)
  | memMap => exact .rests (handleMemMap_answers k cur f).rests
  | memUnmap => exact .rests (handleMemUnmap_answers k cur f).rests
  | mapMmio => exact .rests (handleMapMmio_answers k cur f).rests
  | ioMap =>
    refine .rests ?_
    show Rests k (k.handleIoMap cur f)
    unfold handleIoMap
    split
    · exact (Rests.refl k).setA0 _
    · split
      · exact (Rests.refl k).setA0 _
      · refine grantFresh_rests rfl (createMmio_prepared h _ _ _).2 ?_ releaseDevice_rests
        unfold createMmio
        dsimp only
        split
        · exact allocateDevice_rests k
        · exact (allocateDevice_rests k).trans (.of_tcb rfl rfl rfl)
  | irqCreate =>
    refine .rests ?_
    show Rests k (k.handleIrqCreate cur f)
    unfold handleIrqCreate
    split
    · exact (Rests.refl k).setA0 _
    · exact grantLine_rests h _
  | irqMsiCreate vector =>
    refine .rests ?_
    show Rests k (k.handleIrqMsiCreate cur f vector)
    unfold handleIrqMsiCreate
    split
    · exact (Rests.refl k).setA0 _
    · split
      · exact (Rests.refl k).setA0 _
      · exact grantLine_rests h _
  | capMint => exact .rests (handleCapMint_rests h f)
  | capDelete => exact handleCapDelete_turns h hcur hrun hB f
  | ipcCall => exact handleIpcCall_turns h hcur hrun f
  | ipcSend => exact handleIpcSend_turns h hcur hrun f
  | ipcRecv =>
    show Turns (fun _ => True) k (k.handleIpcRecv cur f)
    rw [handleIpcRecv_eq h.waits]
    exact receiveEndpoint_turns h hcur hrun f
  | ipcReply => exact handleIpcReply_turns h hB f
  | spawn => exact handleSpawn_turns h hrun f
  | exit => exact handleExit_turns h hrun hB f
  | threadCreate => exact handleThreadCreate_turns h hrun
  | threadExit => exact handleThreadExit_turns h hrun hB
  | threadWait => exact .rests (handleThreadWait_rests hrun f)
  | reapProcess => exact handleReapProcess_turns h hcur hrun hB f
  | setPriority => exact .rests (handleSetPriority_rests f)

/-- **Every step turns the book.** -/
theorem step_turns {a : Action} (h : k.Inv) (hB : k.book.Exact) (hs : k.step a = some k') :
    Turns a.Mints k k' := by
  cases step_cases hs with
  | syscall ht hrun => exact handleSyscall_turns h ht hrun hB _ _
  | dispatch hready => exact .rests (modTcb_rests k _ _ (by simp [hready]) rfl rfl)
  | preempt hrun => exact .rests (modTcb_rests k _ _ (by simp [hrun]) rfl rfl)
  | drainStack => exact .rests (.of_tcb rfl rfl rfl)
  | failEndpoint o => exact .rests (failEndpoint_rests h o)
  | userWrite => exact .rests (.of_tcb rfl rfl rfl)

end State

end Aegir.Kernel
