/-
  The death of threads: exit, thread exit.

  `Dies D R R'` says what the roster looks like after the threads of `D` died: they are dead, in no
  queue, and have left the scheduler; everybody else goes on as before.  `Kept` is the ledger's side:
  tables, counts and slabs are as before, only the lifecycle moved.
-/
import Aegir.Laws.Creation

namespace Aegir.Kernel

open Aegir.Arch Ledger Roster List Function

namespace Roster

variable {R R' R'' : Roster} {D D' : Nat → Prop} {o t : Nat} {l : List Nat}

/-- **The threads of `D` died**; those who waited for them may have woken. -/
structure Dies (D : Nat → Prop) (R R' : Roster) : Prop where
  sound : R'.Sound
  dead : ∀ u, D u → (R'.thread u).state = .dead
  state : ∀ u, ¬ D u → (R'.thread u).state = (R.thread u).state ∨
    ((R.thread u).state = .blockedThreadWait ∧ (R'.thread u).state = .ready)
  awaiting : ∀ u, (R'.thread u).awaiting = (R.thread u).awaiting
  generation : ∀ u, (R'.thread u).generation = (R.thread u).generation
  queuedOn : ∀ u, (R'.thread u).queuedOn = (R.thread u).queuedOn ∨ (R'.thread u).queuedOn = 0
  receiver : ∀ o, (R'.ep o).receiver = (R.ep o).receiver ∨ (R'.ep o).receiver = 0
  queue : ∀ o, o ≠ 0 → ∀ l, R.Queue o l →
    ∃ l', R'.Queue o l' ∧ l'.Sublist l ∧ ∀ u ∈ l, ¬ D u → u ∈ l'
  failed : ∀ o, (R'.ep o).failed = (R.ep o).failed
  used : ∀ s, R'.threadUsed s = true ↔ R.threadUsed s = true ∧ ¬ D (s + 1)

namespace Dies

theorem refl (hR : R.Sound) : Dies (fun _ => False) R R :=
  ⟨hR, fun _ h => h.elim, fun _ _ => .inl rfl, fun _ => rfl, fun _ => rfl, fun _ => .inl rfl,
    fun _ => .inl rfl, fun _ _ l hl => ⟨l, hl, .refl l, fun _ hu _ => hu⟩, fun _ => rfl,
    fun _ => ⟨fun h => ⟨h, id⟩, fun h => h.1⟩⟩

section

variable (h : Dies D R R')

include h

theorem trans (h' : Dies D' R' R'') : Dies (fun u => D u ∨ D' u) R R'' := by
  refine ⟨h'.sound, fun u hu => ?_, fun u hu => ?_, fun u => (h'.awaiting u).trans (h.awaiting u),
    fun u => (h'.generation u).trans (h.generation u), fun u => ?_, fun o => ?_,
    fun o ho l hl => ?_, fun o => (h'.failed o).trans (h.failed o), fun s => ?_⟩
  · by_cases hu' : D' u
    · exact h'.dead u hu'
    · have hdead := h.dead u (hu.resolve_right hu')
      rcases h'.state u hu' with e | ⟨e, -⟩
      · exact e.trans hdead
      · cases hdead.symm.trans e
  · rw [not_or] at hu
    rcases h'.state u hu.2 with e' | ⟨e', hr⟩
    · rw [e']
      exact h.state u hu.1
    · rcases h.state u hu.1 with e | ⟨e, -⟩
      · exact .inr ⟨e.symm.trans e', hr⟩
      · exact .inr ⟨e, hr⟩
  · rcases h'.queuedOn u with e | e
    · rw [e]; exact h.queuedOn u
    · exact .inr e
  · rcases h'.receiver o with e | e
    · rw [e]; exact h.receiver o
    · exact .inr e
  · obtain ⟨l1, hl1, hsub1, hkeep1⟩ := h.queue o ho l hl
    obtain ⟨l2, hl2, hsub2, hkeep2⟩ := h'.queue o ho l1 hl1
    refine ⟨l2, hl2, hsub2.trans hsub1, fun u hu hD => ?_⟩
    rw [not_or] at hD
    exact hkeep2 u (hkeep1 u hu hD.1) hD.2
  · rw [h'.used, h.used, not_or, and_assoc]

theorem mono (hD : ∀ u, D' u ↔ D u) : Dies D' R R' := by
  have : D' = D := funext fun u => propext (hD u)
  rw [this]
  exact h

theorem detached (hd : R.Detached t) : R'.Detached t := by
  refine ⟨?_, fun o ho hr => ?_⟩
  · rcases h.queuedOn t with e | e
    · rw [e]; exact hd.queuedOn
    · exact e
  · rcases h.receiver o with e | e
    · rw [e] at hr ⊢
      exact hd.receiver o ho hr
    · exact absurd e hr

theorem not_waiting (ht : (R.thread t).state ≠ .blockedThreadWait) :
    (R'.thread t).state ≠ .blockedThreadWait := by
  intro hs
  by_cases hD : D t
  · cases (h.dead t hD).symm.trans hs
  · rcases h.state t hD with e | ⟨-, e⟩
    · exact ht (e.symm.trans hs)
    · cases e.symm.trans hs

theorem idle (hR : R.Sound) (ho : o ≠ 0) (hi : R.Idle o) : R'.Idle o := by
  refine ⟨?_, ?_⟩
  · obtain ⟨l, hl⟩ := hR.queue o ho
    obtain ⟨l', hl', hsub, -⟩ := h.queue o ho l hl
    rw [hl.eq_nil_iff.mpr hi.1] at hsub
    exact hl'.eq_nil_iff.mp (sublist_nil.mp hsub)
  · rcases h.receiver o with e | e
    · rw [e]; exact hi.2
    · exact e

end

end Dies

/-- The thread leaves the scheduler. -/
def unschedule (R : Roster) (s : Nat) : Roster :=
  { R with threadUsed := update R.threadUsed s false }

theorem Sound.unschedule (hR : R.Sound) {s : Nat} (hdead : (R.thread (s + 1)).state = .dead) :
    (R.unschedule s).Sound := by
  refine ⟨fun o ho => ?_, hR.caller, hR.receiver, hR.awaiting, fun u h1 h2 => ?_,
    fun u hu => ?_, hR.bound, hR.ntfn, hR.line⟩
  · obtain ⟨l, hl⟩ := hR.queue o ho
    exact ⟨l, hl.congr rfl rfl (fun _ _ => rfl) fun _ => Iff.rfl⟩
  · rcases hR.scheduled u h1 h2 with hu | ⟨h3, h4, h5⟩
    · exact .inl hu
    · refine .inr ⟨h3, h4, ?_⟩
      have hne : u - 1 ≠ s := by
        intro he
        rw [← he, Nat.sub_add_cancel h3] at hdead
        exact h1 hdead
      show update R.threadUsed s false (u - 1) = true
      rw [update_of_ne hne]
      exact h5
  · obtain ⟨l, hl⟩ := hR.waiters u hu
    exact ⟨l, hl.of_vigil (fun _ => rfl) fun _ h => h⟩

/-- Mark a thread dead. -/
def slay (R : Roster) (t : Nat) : Roster := R.setThread t { R.thread t with state := .dead }

theorem slay_self (R : Roster) (t : Nat) : ((R.slay t).thread t).state = .dead :=
  congrArg ThreadIpc.state (update_self t _ R.thread)

theorem slay_thread (R : Roster) (t u : Nat) :
    (R.slay t).thread u = { R.thread u with state := ((R.slay t).thread u).state } := by
  by_cases hu : u = t
  · subst hu
    rw [slay_self]
    exact update_self u _ R.thread
  · rw [show (R.slay t).thread u = R.thread u from update_of_ne hu _ _]

theorem Sound.slay (hR : R.Sound) (hd : R.Detached t) (hun : R.Unlisted t) : (R.slay t).Sound :=
  hR.setThread hd.queuedOn hd.queuedOn (fun o ho hr he => absurd he (hd.receiver o ho hr))
    (fun _ => .inr rfl) (fun hn => absurd rfl hn) hun (.inl rfl) (hR.bound _)

theorem Detaches.dies {s : Nat} (h : Detaches (s + 1) R R') (hd : R'.Detached (s + 1))
    (hun : R'.Unlisted (s + 1)) :
    Dies (fun u => u = s + 1) R ((R'.slay (s + 1)).unschedule s) := by
  have hfield := R'.slay_thread (s + 1)
  refine ⟨(h.sound.slay hd hun).unschedule (slay_self _ _), fun u hu => ?_, fun u hu => ?_, fun u => ?_,
    fun u => ?_, fun u => ?_, fun o => h.receiver o, fun o ho l hl => ?_, fun o => h.failed o,
    fun i => ?_⟩
  · subst hu
    exact slay_self _ _
  · have hkeep : (R'.slay (s + 1)).thread u = R'.thread u := update_of_ne hu _ _
    have hs : (((R'.slay (s + 1)).unschedule s).thread u).state = (R'.thread u).state :=
      congrArg ThreadIpc.state hkeep
    rw [hs]
    exact h.state u
  · exact (congrArg ThreadIpc.awaiting (hfield u)).trans (h.awaiting u)
  · exact (congrArg ThreadIpc.generation (hfield u)).trans (h.generation u)
  · have hq : ((R'.slay (s + 1)).thread u).queuedOn = (R'.thread u).queuedOn :=
      (congrArg ThreadIpc.queuedOn (hfield u)).trans rfl
    exact (h.queuedOn u).imp hq.trans hq.trans
  · refine ⟨l.erase (s + 1), (h.queue o ho l hl).congr rfl rfl
      (fun u _ => (congrArg ThreadIpc.next (hfield u)).trans rfl) fun u => ?_, erase_sublist,
      fun u hu hne => (mem_erase_of_ne hne).mpr hu⟩
    have hq : ((R'.slay (s + 1)).thread u).queuedOn = (R'.thread u).queuedOn :=
      (congrArg ThreadIpc.queuedOn (hfield u)).trans rfl
    exact ⟨hq.symm.trans, hq.trans⟩
  · show update R'.threadUsed s false i = true ↔ _
    rw [h.used]
    by_cases hi : i = s
    · subst hi
      simp
    · rw [update_of_ne hi]
      simp [hi]

end Roster

/-! ## The ledger's side -/

namespace Ledger

variable {L L' L'' : Ledger} {fresh : Option (Pool × Nat)}

/-- Tables, counts and slabs are as before. -/
structure Kept (L L' : Ledger) : Prop where
  get : ∀ p, (L'.caps p).get = (L.caps p).get
  table : ∀ p, (L'.caps p).Wf
  pmm : L'.pmm.Wf
  count : L'.count = L.count
  slab : L'.slab = L.slab

theorem Kept.refl (hL : L.Counted fresh) : Kept L L := ⟨fun _ => rfl, hL.table, hL.pmm, rfl, rfl⟩

theorem Kept.trans (h : Kept L L') (h' : Kept L' L'') : Kept L L'' :=
  ⟨fun p => (h'.get p).trans (h.get p), h'.table, h'.pmm, h'.count.trans h.count, h'.slab.trans h.slab⟩

theorem Kept.entry (h : Kept L L') (p i : Nat) : L'.entry p i = L.entry p i := congrFun (h.get p) i

theorem Kept.counted (h : Kept L L') (hL : L.Counted fresh) : L'.Counted fresh := by
  have hsame : SameCaps L { L' with
      process := L.process, dead := L.dead, procState := L.procState, used := L.used
      threadUsed := L.threadUsed, processThreadCount := L.processThreadCount
      freeSlots := L.freeSlots, threadFreeSlots := L.threadFreeSlots
      threadSlotGeneration := L.threadSlotGeneration } :=
    ⟨h.get, h.table, h.pmm, h.count, h.slab, rfl⟩
  exact (hsame.counted hL).congr rfl rfl rfl h.pmm

end Ledger

namespace Life

variable {l l' l'' : Life} {S S' : Nat → Prop}

/-- **The threads in the slots `S` gave their slots back.** -/
structure Kills (S : Nat → Prop) (l l' : Life) : Prop where
  process : l'.process = l.process
  procState : l'.procState = l.procState
  used : l'.used = l.used
  count : l'.processThreadCount = l.processThreadCount
  freeSlots : l'.freeSlots = l.freeSlots
  generation : l'.threadSlotGeneration = l.threadSlotGeneration
  threadUsed : ∀ s, l'.threadUsed s = true ↔ l.threadUsed s = true ∧ ¬ S s
  threadFree : ∀ s, s ∈ l'.threadFreeSlots ↔ s ∈ l.threadFreeSlots ∨ (S s ∧ maxProcessSlots ≤ s)
  nodup : (∀ s, S s → s ∉ l.threadFreeSlots) → l.threadFreeSlots.Nodup → l'.threadFreeSlots.Nodup

theorem Kills.refl (l : Life) : Kills (fun _ => False) l l :=
  ⟨rfl, rfl, rfl, rfl, rfl, rfl, fun _ => by simp, fun _ => by simp, fun _ h => h⟩

theorem Kills.trans (h : Kills S l l') (h' : Kills S' l' l'') (hdis : ∀ s, S s → ¬ S' s) :
    Kills (fun s => S s ∨ S' s) l l'' := by
  refine ⟨h'.process.trans h.process, h'.procState.trans h.procState, h'.used.trans h.used,
    h'.count.trans h.count, h'.freeSlots.trans h.freeSlots, h'.generation.trans h.generation,
    fun s => ?_, fun s => ?_, fun hS hnd => ?_⟩
  · rw [h'.threadUsed, h.threadUsed, not_or, and_assoc]
  · rw [h'.threadFree, h.threadFree, or_and_right, or_assoc]
  · refine h'.nodup (fun s hs hm => ?_) (h.nodup (fun s hs => hS s (.inl hs)) hnd)
    rcases (h.threadFree s).mp hm with hm | hm
    · exact hS s (.inr hs) hm
    · exact hdis s hm.1 hs

theorem Kills.mono (h : Kills S l l') (hS : ∀ s, S' s ↔ S s) : Kills S' l l' := by
  have : S' = S := funext fun s => propext (hS s)
  rw [this]
  exact h

theorem mem_threadsOf {p s : Nat} :
    s ∈ l.threadsOf p ↔ s < maxThreadSlots ∧ l.threadUsed s = true ∧ l.process (s + 1) = p := by
  unfold threadsOf
  rw [Finset.mem_filter, Finset.mem_range]

theorem threadsOf_congr {p : Nat} (h : ∀ s, (l'.threadUsed s = true ∧ l'.process (s + 1) = p) ↔
    (l.threadUsed s = true ∧ l.process (s + 1) = p)) : l'.threadsOf p = l.threadsOf p :=
  Finset.ext fun s => by rw [mem_threadsOf, mem_threadsOf, h s]

/-- **A process dies with all its threads.** -/
theorem Sound.exit {P : Nat} (hl : l.Sound) (hprocess : l'.process = l.process)
    (hstate : l'.procState = update l.procState P .dead) (hused : l'.used = l.used)
    (hfree : l'.freeSlots = l.freeSlots)
    (hcount : ∀ s, s + 1 ≠ P → l'.processThreadCount s = l.processThreadCount s)
    (hthread : ∀ s, l'.threadUsed s = true ↔ l.threadUsed s = true ∧ l.process (s + 1) ≠ P)
    (htfree : ∀ s, s ∈ l'.threadFreeSlots ↔
      s ∈ l.threadFreeSlots ∨ ((l.threadUsed s = true ∧ l.process (s + 1) = P) ∧ maxProcessSlots ≤ s))
    (hnodup : l'.threadFreeSlots.Nodup) : l'.Sound := by
  refine ⟨by rw [hprocess]; exact hl.process_le, by rw [hprocess]; exact hl.init, fun s hs => ?_,
    fun s hs => ?_, fun s hs hu => ?_, by rw [hfree, hused]; exact hl.free, by rw [hfree]; exact hl.free_nodup,
    fun s => ?_, hnodup, fun s hs ha => ?_⟩
  · obtain ⟨hu, hne⟩ := (hthread s).mp hs
    rw [hprocess, hused, hstate, update_of_ne hne]
    exact hl.home s hu
  · rw [hused] at hs
    rw [hprocess]
    exact hl.initial s hs
  · rw [hprocess]
    exact hl.primary s hs ((hthread s).mp hu).1
  · rw [htfree, hl.threadFree]
    have hiff : l'.threadUsed s = false ↔ l.threadUsed s = false ∨ l.process (s + 1) = P := by
      rw [← Bool.not_eq_true, hthread, not_and_or, Bool.not_eq_true, not_not]
    rw [hiff]
    constructor
    · rintro (⟨h1, h2, h3⟩ | ⟨⟨h1, h2⟩, h3⟩)
      · exact ⟨h1, h2, .inl h3⟩
      · exact ⟨h3, (hl.home s h1).1, .inr h2⟩
    · rintro ⟨h1, h2, h3⟩
      by_cases hu : l.threadUsed s = true
      · exact .inr ⟨⟨hu, h3.resolve_left (by simp [hu])⟩, h1⟩
      · exact .inl ⟨h1, h2, by simpa using hu⟩
  · have hne : s + 1 ≠ P := by
      intro he
      rw [hstate, he, update_self] at ha
      cases ha
    rw [hused] at hs
    rw [hstate, update_of_ne hne] at ha
    rw [hcount s hne, hl.count s hs ha, threadsOf_congr]
    intro i
    rw [hthread, hprocess]
    constructor
    · rintro ⟨h1, h2⟩
      exact ⟨⟨h1, by rw [h2]; exact hne⟩, h2⟩
    · rintro ⟨⟨h1, -⟩, h2⟩
      exact ⟨h1, h2⟩

/-- **One thread of several leaves its process.** -/
theorem Sound.leave {i P : Nat} (hl : l.Sound) (hi : l.threadUsed i = true)
    (hP : l.process (i + 1) = P) (h : Kills (fun s => s = i) l { l' with
      processThreadCount := l.processThreadCount })
    (hcount : ∀ s, l'.processThreadCount s =
      if s + 1 = P then l.processThreadCount s - 1 else l.processThreadCount s) : l'.Sound := by
  have hprocess : l'.process = l.process := h.process
  have hstate : l'.procState = l.procState := h.procState
  have hused : l'.used = l.used := h.used
  have hfree : l'.freeSlots = l.freeSlots := h.freeSlots
  have hthread : ∀ s, l'.threadUsed s = true ↔ l.threadUsed s = true ∧ s ≠ i := h.threadUsed
  have hnotfree : ∀ s, s = i → s ∉ l.threadFreeSlots := by
    rintro s rfl hm
    have := ((hl.threadFree s).mp hm).2.2
    rw [hi] at this
    cases this
  have hhome := hl.home i hi
  refine ⟨by rw [hprocess]; exact hl.process_le, by rw [hprocess]; exact hl.init, fun s hs => ?_,
    fun s hs => ?_, fun s hs hu => ?_, by rw [hfree, hused]; exact hl.free, by rw [hfree]; exact hl.free_nodup,
    fun s => ?_, h.nodup hnotfree hl.threadFree_nodup, fun s hs ha => ?_⟩
  · rw [hprocess, hused, hstate]
    exact hl.home s ((hthread s).mp hs).1
  · rw [hused] at hs
    rw [hprocess]
    exact hl.initial s hs
  · rw [hprocess]
    exact hl.primary s hs ((hthread s).mp hu).1
  · have htf : s ∈ l'.threadFreeSlots ↔ s ∈ l.threadFreeSlots ∨ (s = i ∧ maxProcessSlots ≤ s) :=
      h.threadFree s
    rw [htf, hl.threadFree]
    have hiff : l'.threadUsed s = false ↔ l.threadUsed s = false ∨ s = i := by
      rw [← Bool.not_eq_true, hthread, not_and_or, Bool.not_eq_true, not_not]
    rw [hiff]
    constructor
    · rintro (⟨h1, h2, h3⟩ | ⟨rfl, h3⟩)
      · exact ⟨h1, h2, .inl h3⟩
      · exact ⟨h3, hhome.1, .inr rfl⟩
    · rintro ⟨h1, h2, h3 | h3⟩
      · exact .inl ⟨h1, h2, h3⟩
      · exact .inr ⟨h3, h1⟩
  · rw [hused] at hs
    rw [hstate] at ha
    rw [hcount, hl.count s hs ha]
    by_cases hsP : s + 1 = P
    · have hmem : i ∈ l.threadsOf (s + 1) := mem_threadsOf.mpr ⟨hhome.1, hi, hP.trans hsP.symm⟩
      have herase : l'.threadsOf (s + 1) = (l.threadsOf (s + 1)).erase i := by
        ext j
        rw [Finset.mem_erase, mem_threadsOf, mem_threadsOf, hthread, hprocess]
        constructor
        · rintro ⟨h1, ⟨h2, h3⟩, h4⟩
          exact ⟨h3, h1, h2, h4⟩
        · rintro ⟨h3, h1, h2, h4⟩
          exact ⟨h1, ⟨h2, h3⟩, h4⟩
      rw [if_pos hsP, herase, Finset.card_erase_of_mem hmem]
    · rw [if_neg hsP, threadsOf_congr]
      intro j
      rw [hthread, hprocess]
      constructor
      · rintro ⟨h1, h2⟩
        refine ⟨⟨h1, ?_⟩, h2⟩
        rintro rfl
        exact hsP (h2.symm.trans hP)
      · rintro ⟨⟨h1, -⟩, h2⟩
        exact ⟨h1, h2⟩

end Life

namespace State

variable {k k' : State} {fresh : Option (Pool × Nat)} {cur t : Nat} {D : Nat → Prop}

theorem Waits.dies (hw : k.Waits) (h : Dies D k.roster k'.roster)
    (hs : k'.endpointSlab = k.endpointSlab) : k'.Waits := by
  refine ⟨h.sound, fun o ho hf => ?_, fun o ho hf => ?_⟩
  · rw [h.failed o] at hf
    exact h.idle hw.sound ho (hw.failed o ho hf)
  · unfold EpFree at hf
    rw [hs] at hf
    exact h.idle hw.sound ho (hw.free o ho hf)

/-! ## One thread -/

theorem ledger_kill (k : State) (t : Nat) : (k.modTcb t fun c => { c with state := .dead }).ledger =
      { k.ledger with dead := update k.ledger.dead t true } := by
  have h : ∀ u, ((k.modTcb t fun c => { c with state := .dead }).tcb u) =
      if u = t then { k.tcb t with state := .dead } else k.tcb u := by
    intro u
    by_cases hu : u = t
    · subst hu; simp [modTcb]
    · simp [modTcb, hu]
  unfold ledger
  congr 1
  · funext u
    rw [h]
    split
    · rename_i hu; rw [hu]
    · rfl
  · funext u
    rw [h]
    by_cases hu : u = t
    · subst hu; simp
    · simp [hu]
  · funext u
    rw [h]
    split
    · rename_i hu; rw [hu]
    · rfl

theorem ledger_retireStack (k : State) (t : Nat) (inUse : Bool) :
    (k.retireStack t inUse).ledger = { k.ledger with
      pmm := (k.retireStack t inUse).pmm, stackTop := (k.retireStack t inUse).ledger.stackTop
      deferredStacks := (k.retireStack t inUse).deferredStacks } := by
  have hmod : ∀ j : State, (j.modTcb t fun c => { c with kernelStackTop := 0 }).ledger = { j.ledger with
      stackTop := (j.modTcb t fun c => { c with kernelStackTop := 0 }).ledger.stackTop } := by
    intro j
    have h : ∀ u, ((j.modTcb t fun c => { c with kernelStackTop := 0 }).tcb u).process =
        (j.tcb u).process ∧ ((j.modTcb t fun c => { c with kernelStackTop := 0 }).tcb u).state =
        (j.tcb u).state := by
      intro u
      by_cases hu : u = t
      · subst hu; simp [modTcb]
      · simp [modTcb, hu]
    unfold ledger
    congr 1
    · funext u; rw [(h u).1]
    · funext u; rw [(h u).2]
  unfold retireStack
  dsimp only
  split
  · rfl
  · rename_i htop
    rw [hmod]
    cases inUse
    · rfl
    · simp only [deferStack, if_true, if_neg htop]
      rfl

theorem pmm_retireStack (hp : k.pmm.Wf) (t : Nat) (inUse : Bool) : (k.retireStack t inUse).pmm.Wf := by
  unfold retireStack
  dsimp only
  split
  · exact hp
  · cases inUse
    · exact hp.deallocateFrame _
    · unfold deferStack
      simp only [if_true]
      split
      · exact hp
      · exact hp

@[simp] theorem roster_retireStack (k : State) (t : Nat) (inUse : Bool) :
    (k.retireStack t inUse).roster = k.roster := by
  unfold retireStack
  dsimp only
  split
  · rfl
  · rw [roster_modTcb_same]
    · cases inUse
      · rfl
      · unfold deferStack
        split <;> rfl
    · rfl

/-- **A killed thread**: it dies, its slot is free, tables and counts stay. -/
theorem killThread_spec {s : Nat} (hL : k.ledger.Counted fresh) (hR : k.roster.Sound) (thread : Nat) :
    Kept k.ledger (k.killThread s thread).ledger ∧
    k.ledger.life.Kills (fun i => i = s) (k.killThread s thread).ledger.life ∧
    Dies (fun u => u = s + 1) k.roster (k.killThread s thread).roster := by
  unfold killThread slotAddress
  dsimp only
  generalize hin : (s + 1 == thread || (k.tcb (s + 1)).state == ThreadState.running) = inUse
  have hl1 := ledger_retireStack k (s + 1) inUse
  have hp1 := pmm_retireStack hL.pmm (s + 1) inUse
  have hr1 := roster_retireStack k (s + 1) inUse
  generalize k.retireStack (s + 1) inUse = k₁ at hl1 hp1 hr1 ⊢
  have hl2 := ledger_teardownThread k₁ (s + 1)
  obtain ⟨hdet, hd, hun⟩ := teardownThread_detaches (k := k₁) (t := s + 1) (by rw [hr1]; exact hR) (by omega)
  generalize k₁.teardownThread (s + 1) = k₂ at hl2 hdet hd hun ⊢
  have hl3 := ledger_kill k₂ (s + 1)
  have hr3 : (k₂.modTcb (s + 1) fun c => { c with state := .dead }).roster = k₂.roster.slay (s + 1) :=
    roster_modTcb _ _ _
  generalize (k₂.modTcb (s + 1) fun c => { c with state := .dead }) = k₃ at hl3 hr3 ⊢
  have hl4 : (k₃.freeThreadSlot s).ledger = { k₃.ledger with
      threadUsed := update k₃.ledger.threadUsed s false
      threadFreeSlots := if maxProcessSlots ≤ s then s :: k₃.ledger.threadFreeSlots
        else k₃.ledger.threadFreeSlots } := rfl
  have hr4 : (k₃.freeThreadSlot s).roster = k₃.roster.unschedule s := rfl
  rw [hl3, hl2, hl1] at hl4
  refine ⟨?_, ?_, ?_⟩
  · rw [hl4]
    exact ⟨fun _ => rfl, hL.table, hp1, rfl, rfl⟩
  · rw [hl4]
    refine ⟨rfl, rfl, rfl, rfl, rfl, rfl, fun i => ?_, fun i => ?_, fun hS hnd => ?_⟩
    · show update k.threadUsed s false i = true ↔ k.threadUsed i = true ∧ ¬ i = s
      by_cases hi : i = s
      · subst hi; simp
      · simp [hi]
    · show (i ∈ if maxProcessSlots ≤ s then s :: k.threadFreeSlots else k.threadFreeSlots) ↔
        i ∈ k.threadFreeSlots ∨ (i = s ∧ maxProcessSlots ≤ i)
      split
      · rename_i hs
        rw [mem_cons]
        constructor
        · rintro (rfl | h)
          · exact .inr ⟨rfl, hs⟩
          · exact .inl h
        · rintro (h | h)
          · exact .inr h
          · exact .inl h.1
      · rename_i hs
        exact ⟨.inl, fun h => h.resolve_right fun h => hs (h.1 ▸ h.2)⟩
    · show (if maxProcessSlots ≤ s then s :: k.threadFreeSlots else k.threadFreeSlots).Nodup
      split
      · exact nodup_cons.mpr ⟨hS s rfl, hnd⟩
      · exact hnd
  · rw [hr4, hr3, ← hr1]
    exact hdet.dies hd hun

/-- **The loop over the threads of a process.** -/
theorem killThreads_spec {P : Nat} (thread n slot : Nat) (k : State) (hL : k.ledger.Counted fresh)
    (hR : k.roster.Sound) :
    Kept k.ledger (k.killThreads P thread slot n).ledger ∧
    k.ledger.life.Kills (fun s => (slot ≤ s ∧ s < slot + n) ∧ k.threadUsed s = true ∧
      (k.tcb (s + 1)).process = P) (k.killThreads P thread slot n).ledger.life ∧
    Dies (fun u => ∃ s, u = s + 1 ∧ (slot ≤ s ∧ s < slot + n) ∧ k.threadUsed s = true ∧
      (k.tcb (s + 1)).process = P) k.roster (k.killThreads P thread slot n).roster := by
  induction n generalizing k slot with
  | zero =>
    refine ⟨.refl hL, (Life.Kills.refl _).mono fun s => ?_, (Dies.refl hR).mono fun u => ?_⟩
    · exact iff_of_false (fun h => by omega) id
    · exact iff_of_false (fun ⟨s, _, h, _⟩ => by omega) id
  | succ n ih =>
    unfold killThreads
    split
    · rename_i hk
      obtain ⟨hkept, hkill, hdies⟩ := killThread_spec (s := slot) hL hR thread
      generalize k.killThread slot thread = k₁ at hkept hkill hdies ⊢
      obtain ⟨hkept', hkill', hdies'⟩ := ih (slot + 1) k₁ (hkept.counted hL) hdies.sound
      have hproc : ∀ u, (k₁.tcb u).process = (k.tcb u).process := fun u => congrFun hkill.process u
      have hused : ∀ s, k₁.threadUsed s = true ↔ k.threadUsed s = true ∧ ¬ s = slot := hkill.threadUsed
      have hset : ∀ s, ((slot ≤ s ∧ s < slot + (n + 1)) ∧ k.threadUsed s = true ∧
          (k.tcb (s + 1)).process = P) ↔ (s = slot ∨ ((slot + 1 ≤ s ∧ s < slot + 1 + n) ∧
          k₁.threadUsed s = true ∧ (k₁.tcb (s + 1)).process = P)) := by
        intro s
        rw [hused, hproc]
        constructor
        · rintro ⟨h1, h2, h3⟩
          by_cases hs : s = slot
          · exact .inl hs
          · exact .inr ⟨by omega, ⟨h2, hs⟩, h3⟩
        · rintro (rfl | ⟨h1, ⟨h2, h3⟩, h4⟩)
          · exact ⟨by omega, hk.1, hk.2⟩
          · exact ⟨by omega, h2, h4⟩
      refine ⟨hkept.trans hkept', ?_, ?_⟩
      · refine (hkill.trans hkill' fun s hs h => ?_).mono hset
        omega
      · refine (hdies.trans hdies').mono fun u => ?_
        constructor
        · rintro ⟨s, rfl, hs⟩
          exact ((hset s).mp hs).imp (congrArg (· + 1)) fun h => ⟨s, rfl, h⟩
        · rintro (rfl | ⟨s, rfl, hs⟩)
          · exact ⟨slot, rfl, (hset slot).mpr (.inl rfl)⟩
          · exact ⟨s, rfl, (hset s).mpr (.inr hs)⟩
    · rename_i hk
      obtain ⟨hkept, hkill, hdies⟩ := ih (slot + 1) k hL hR
      have hset : ∀ s, ((slot ≤ s ∧ s < slot + (n + 1)) ∧ k.threadUsed s = true ∧
          (k.tcb (s + 1)).process = P) ↔ ((slot + 1 ≤ s ∧ s < slot + 1 + n) ∧
          k.threadUsed s = true ∧ (k.tcb (s + 1)).process = P) := by
        intro s
        constructor
        · rintro ⟨h1, h2⟩
          have hs : s ≠ slot := by
            rintro rfl
            exact hk h2
          exact ⟨by omega, h2⟩
        · rintro ⟨h1, h2⟩
          exact ⟨by omega, h2⟩
      exact ⟨hkept, hkill.mono hset, hdies.mono fun u => exists_congr fun s => and_congr_right fun _ => hset s⟩

/-! ## Closing a whole table -/

theorem closeCaps_calms (ht : t ≠ 0) (n cap : Nat) (k : State) (hL : k.ledger.Counted fresh)
    (hw : k.Waits) (hd : k.roster.Detached t) :
    Calms (fun _ => True) k (k.closeCaps t cap n) := by
  induction n generalizing k cap with
  | zero => exact .refl hw
  | succ n ih =>
    have hc := closeCap_calms hL hw ht hd cap true
    have hc' : Calms (fun _ => True) k (k.closeCap t cap true).2 :=
      ⟨hc.calm.mono fun _ _ => trivial, hc.free⟩
    have hs := closeCap_steps 0 (fun _ => False) cap hL ht true
    exact hc'.trans (ih (cap + 1) _ (hs.counted (fun _ h => h.elim) hL) (hc'.waits hw) (hc.calm.detached hd))

theorem closeCaps_empty (ht : t ≠ 0) (n cap : Nat) (k : State) (hL : k.ledger.Counted fresh)
    (hp : (k.tcb t).process ≠ 0) (i : Nat) (h1 : cap ≤ i) (h2 : i < cap + n) :
    ((k.closeCaps t cap n).ledger.entry (k.tcb t).process i).valid = false := by
  induction n generalizing k cap with
  | zero => omega
  | succ n ih =>
    have hs := closeCap_steps 0 (fun _ => False) cap hL ht true
    have hL' := hs.counted (fun _ h => h.elim) hL
    have hproc := process_of_steps hs t
    by_cases hi : i = cap
    · subst hi
      have hv : ((k.closeCap t i true).2.ledger.entry (k.tcb t).process i).valid = false := by
        rcases closeCap_cases i hL ht true with ⟨-, hsame, hinv⟩ | ⟨-, hrem⟩
        · rw [hsame]
          exact hinv hp
        · rw [hrem.entry, if_pos ⟨rfl, rfl⟩]
          rfl
      have hrest := closeCaps_steps 0 (fun _ => False) ht (fun _ h => h.elim) n (i + 1) _ hL'
      exact hrest.entry_invalid hv
    · have := ih (cap + 1) _ hL' (by rw [hproc]; exact hp) (by omega) (by omega)
      rwa [hproc] at this

/-- **`Cleanup_Cap_Refs`** closes every cap of the thread's process. -/
theorem cleanupCapRefs_empty (ht : t ≠ 0) (hL : k.ledger.Counted fresh) (hp : (k.tcb t).process ≠ 0) (i : Nat) :
    ((k.cleanupCapRefs t).ledger.entry (k.tcb t).process i).valid = false := by
  have hs := cleanupCapRefs_steps 0 (fun _ => False) t (fun _ h => h.elim) k hL
  by_contra hv
  rw [Bool.not_eq_false] at hv
  have hrange := ((hs.counted (fun _ h => h.elim) hL).table (k.tcb t).process).handle i hv
  unfold cleanupCapRefs at hv
  rw [if_neg (by simp [ht, hp]), closeCaps_empty ht _ _ _ hL hp i hrange.1 (by omega)] at hv
  cases hv

theorem cleanupCapRefs_calms (hL : k.ledger.Counted fresh) (hw : k.Waits)
    (hd : k.roster.Detached t) : Calms (fun _ => True) k (k.cleanupCapRefs t) := by
  unfold cleanupCapRefs
  split
  · exact .refl hw
  · rename_i h0
    rw [not_or] at h0
    exact closeCaps_calms h0.1 _ _ _ hL hw hd

/-! ## Exit -/

theorem Inv.running_cases (h : k.Inv) (hrun : (k.tcb cur).state = .running) :
    cur = initThread ∨ (1 ≤ cur ∧ cur ≤ maxThreadSlots ∧ k.threadUsed (cur - 1) = true) :=
  scheduled_of_running h.waits hrun

theorem Inv.process_of_scheduled (h : k.Inv) {t : Nat} (hs : k.roster.Scheduled t) :
    t ≠ 0 ∧ (k.tcb t).process ≠ 0 := by
  rcases hs with rfl | ⟨h1, -, hu⟩
  · have : (k.tcb initThread).process = initProcess := h.life.init
    rw [this]
    exact ⟨by decide, by decide⟩
  · have := (h.life.home (t - 1) hu).2.1
    rw [Nat.sub_add_cancel h1] at this
    exact ⟨by omega, Nat.ne_of_gt this⟩

theorem Inv.process_ne_zero (h : k.Inv) (hrun : (k.tcb cur).state = .running) :
    cur ≠ 0 ∧ (k.tcb cur).process ≠ 0 := h.process_of_scheduled (h.running_cases hrun)

/-- The state of `Mark_Exited` before it closes the caps: the process and its threads are dead. -/
def exiting (k : State) (thread : Nat) (code : U64) : State :=
  let process := (k.tcb thread).process
  let k₁ := k.modPcb process fun p => { p with exitCode := code, state := .dead }
  let k₂ := k₁.killThreads process thread 0 maxThreadSlots
  if inProcessTable process then
    { k₂ with processThreadCount := update k₂.processThreadCount (process - 1) 0 }
  else k₂

/-- The threads of a process. -/
def ThreadOf (k : State) (P u : Nat) : Prop :=
  ∃ s, u = s + 1 ∧ k.threadUsed s = true ∧ (k.tcb (s + 1)).process = P

theorem ledger_modPcb (k : State) (P : Nat) (f : Pcb → Pcb)
    (hc : (f (k.pcb P)).caps = (k.pcb P).caps) (hr : (f (k.pcb P)).root = (k.pcb P).root) :
    (k.modPcb P f).ledger = { k.ledger with procState := update k.ledger.procState P (f (k.pcb P)).state } := by
  unfold ledger
  congr 1
  · funext q
    by_cases hq : q = P
    · subst hq; simpa [modPcb] using hc
    · simp [modPcb, hq]
  · funext q
    by_cases hq : q = P
    · subst hq; simpa [modPcb] using hr
    · simp [modPcb, hq]
  · funext q
    by_cases hq : q = P
    · subst hq; simp [modPcb]
    · simp [modPcb, hq]

/-- The process `P` has been marked dead, and nothing else has changed. -/
structure Condemned (k k₁ : State) (P : Nat) : Prop where
  ledger : k₁.ledger = { k.ledger with procState := update k.ledger.procState P .dead }
  roster : k₁.roster = k.roster
  endpoints : k₁.endpointSlab = k.endpointSlab
  tcb : k₁.tcb = k.tcb

theorem condemned (k : State) (P : Nat) (code : U64) :
    Condemned k (k.modPcb P fun p => { p with exitCode := code, state := .dead }) P :=
  ⟨ledger_modPcb k P _ rfl rfl, rfl, rfl, rfl⟩

theorem Condemned.counted {k₁ : State} {P : Nat} (hm : Condemned k k₁ P) (h : k.Inv) : k₁.ledger.Counted none := by
  rw [hm.ledger]
  exact h.counted.congr rfl rfl rfl h.counted.pmm

section

variable (h : k.Inv)

include h

/-- **A process dies**: all its threads are dead, tables and counts are as before. -/
theorem exiting_spec (cur : Nat) (code : U64) :
    Kept k.ledger (k.exiting cur code).ledger ∧ (k.exiting cur code).ledger.life.Sound ∧
    Dies (k.ThreadOf (k.tcb cur).process) k.roster (k.exiting cur code).roster ∧
    (k.exiting cur code).used = k.used ∧
    (k.exiting cur code).ledger.process = k.ledger.process := by
  unfold exiting
  dsimp only
  generalize hP : (k.tcb cur).process = P
  have hm := condemned k P code
  generalize (k.modPcb P fun p => { p with exitCode := code, state := .dead }) = k₁ at hm ⊢
  obtain ⟨hl1, hr1, -, -⟩ := hm
  have hkept1 : Kept k.ledger k₁.ledger := by
    rw [hl1]
    exact ⟨fun _ => rfl, h.counted.table, h.counted.pmm, rfl, rfl⟩
  have hlife1 : k₁.ledger.life = { k.ledger.life with
      procState := update k.ledger.life.procState P .dead } := by rw [hl1]; rfl
  have hthread : k₁.threadUsed = k.threadUsed := congrArg Life.threadUsed hlife1
  have hproc : ∀ u, (k₁.tcb u).process = (k.tcb u).process :=
    fun u => congrFun (congrArg Life.process hlife1) u
  obtain ⟨hkept, hkill, hdies⟩ := killThreads_spec (P := P) cur maxThreadSlots 0 k₁
    (hkept1.counted h.counted) (by rw [hr1]; exact h.waits.sound)
  generalize k₁.killThreads P cur 0 maxThreadSlots = k₂ at hkept hkill hdies ⊢
  -- the killed slots are those of the process
  have hset : ∀ s, ((0 ≤ s ∧ s < 0 + maxThreadSlots) ∧ k₁.threadUsed s = true ∧
      (k₁.tcb (s + 1)).process = P) ↔ (k.threadUsed s = true ∧ (k.tcb (s + 1)).process = P) := by
    intro s
    rw [hthread, hproc]
    refine ⟨fun hh => hh.2, fun hh => ⟨?_, hh⟩⟩
    have := (h.life.home s hh.1).1
    omega
  have hkill := hkill.mono fun s => (hset s).symm
  rw [hlife1] at hkill
  have hdies : Dies (k.ThreadOf P) k.roster k₂.roster := by
    rw [← hr1]
    exact hdies.mono fun u => exists_congr fun s => and_congr_right fun _ => (hset s).symm
  have hnotfree : ∀ s, (k.threadUsed s = true ∧ (k.tcb (s + 1)).process = P) →
      s ∉ k.ledger.life.threadFreeSlots := by
    rintro s ⟨hu, -⟩ hm
    have := ((h.life.threadFree s).mp hm).2.2
    rw [show k.ledger.life.threadUsed s = true from hu] at this
    cases this
  have hsound : ∀ l' : Life, l'.process = k₂.ledger.life.process →
      l'.procState = k₂.ledger.life.procState → l'.used = k₂.ledger.life.used →
      l'.freeSlots = k₂.ledger.life.freeSlots → l'.threadUsed = k₂.ledger.life.threadUsed →
      l'.threadFreeSlots = k₂.ledger.life.threadFreeSlots →
      (∀ s, s + 1 ≠ P → l'.processThreadCount s = k₂.ledger.life.processThreadCount s) →
      l'.Sound := by
    intro l' h1 h2 h3 h4 h5 h6 h7
    refine h.life.exit (P := P) (h1.trans hkill.process) (h2.trans hkill.procState)
      (h3.trans hkill.used) (h4.trans hkill.freeSlots)
      (fun s hs => (h7 s hs).trans (congrFun hkill.count s)) (fun s => ?_) (fun s => ?_) ?_
    · rw [h5, hkill.threadUsed]
      refine and_congr_right fun hu => not_congr ?_
      exact and_iff_right hu
    · rw [h6]
      exact hkill.threadFree s
    · rw [h6]
      exact hkill.nodup hnotfree h.life.threadFree_nodup
  have hkept2 := hkept1.trans hkept
  split
  · rename_i hin
    refine ⟨⟨hkept2.get, hkept2.table, hkept2.pmm, hkept2.count, hkept2.slab⟩,
      hsound _ rfl rfl rfl rfl rfl rfl fun s hs => ?_, hdies, hkill.used, hkill.process⟩
    refine update_of_ne ?_ _ _
    simp only [inProcessTable, Bool.and_eq_true, bne_iff_ne, ne_eq] at hin
    omega
  · exact ⟨hkept2, hsound _ rfl rfl rfl rfl rfl rfl fun _ _ => rfl, hdies, hkill.used, hkill.process⟩

theorem Inv.kept (hk : Kept k.ledger k'.ledger) (hl : k'.ledger.life.Sound)
    (hu : k'.used = k.used) (hw : k'.Waits) : k'.Inv := by
  refine ⟨hk.counted h.counted, hl, fun s hs hus i => ?_, hw⟩
  rw [hk.entry]
  exact h.vacant s hs (hu ▸ hus) i

theorem Inv.closing (hs : k.ledger.CapSteps 0 (fun _ => False) k'.ledger)
    (hc : Calms (fun _ => True) k k') : k'.Inv :=
  h.of_steps (hs.mono fun _ hf => hf.elim) (hc.waits h.waits)

theorem exiting_inv (cur : Nat) (code : U64) : (k.exiting cur code).Inv := by
  obtain ⟨hkept, hlife, hdies, hused, -⟩ := exiting_spec h cur code
  exact h.kept hkept hlife hused (h.waits.dies hdies (endpointSlab_of_ledger hkept.slab))

theorem markExited_eq (hrun : (k.tcb cur).state = .running) (code : U64) :
    k.markExited cur code = (k.exiting cur code).cleanupCapRefs cur := by
  obtain ⟨h0, hp⟩ := h.process_ne_zero hrun
  unfold markExited exiting
  rw [if_neg (by simp [h0, hp])]

theorem Inv.slay (hd : k.roster.Detached t) (hs : (k.tcb t).state ≠ .blockedThreadWait) :
    (k.modTcb t fun c => { c with state := .dead }).Inv := by
  have hl := ledger_kill k t
  have hr : (k.modTcb t fun c => { c with state := .dead }).roster = k.roster.slay t :=
    roster_modTcb _ _ _
  generalize (k.modTcb t fun c => { c with state := .dead }) = k' at hl hr ⊢
  have hkept : Kept k.ledger k'.ledger := by
    rw [hl]
    exact ⟨fun _ => rfl, h.counted.table, h.counted.pmm, rfl, rfl⟩
  refine h.kept hkept ?_ ?_ (h.waits.of_setThread hr (endpointSlab_of_ledger hkept.slab)
    (h.waits.sound.slay hd (unlisted_of_state hs)))
  · rw [hl]
    exact { h.life with }
  · exact congrArg Ledger.used hl

/-- **Exit keeps the invariant.** -/
theorem handleExit_inv (hrun : (k.tcb cur).state = .running) (f : TrapFrame) :
    (k.handleExit cur f).Inv := by
  have h1 := exiting_inv h cur f.a0
  have hdies := (exiting_spec h cur f.a0).2.2.1
  have hd1 := hdies.detached (detached_of_running h.waits hrun)
  have hs1 := hdies.not_waiting (t := cur) (by simp [Tcb.ipc, hrun])
  unfold handleExit
  rw [markExited_eq h hrun]
  have hc := cleanupCapRefs_calms h1.counted h1.waits hd1
  exact (h1.closing (cleanupCapRefs_steps 0 _ _ (fun _ hf => hf.elim) _ h1.counted) hc).slay
    (hc.calm.detached hd1) (hc.calm.not_waiting hs1)

end

/-! ## Thread exit -/

/-- The last part of `Thread_Exit`: the thread dies and gives its slot back. -/
def leaving (k : State) (thread : Nat) : State :=
  (((k.retireStack thread true).teardownThread thread).modTcb thread fun c =>
    { c with state := .dead }).freeThreadSlot (thread - 1)

theorem leaving_eq (k : State) {s : Nat} : k.leaving (s + 1) = k.killThread s (s + 1) := by
  unfold leaving killThread slotAddress
  simp

/-- The thread counter of a process is set. -/
def setThreadCount (k : State) (process n : Nat) : State :=
  { k with processThreadCount := update k.processThreadCount (process - 1) n }

/-- **`Thread_Exit`** of a thread in a slot of the table: the last thread of a process closes the
    caps and dies with it, another one just leaves. -/
theorem threadExit_cases (h : k.Inv) {s : Nat} (hs : k.threadUsed s = true) :
    let P := (k.tcb (s + 1)).process
    (k.processThreadCount (P - 1) = 1 ∧ k.threadExit (s + 1) =
      (.ok, ((((k.modPcb P fun p => { p with exitCode := 0, state := .dead }).cleanupCapRefs
        (s + 1)).setThreadCount P 0).leaving (s + 1)))) ∨
    (1 < k.processThreadCount (P - 1) ∧ k.threadExit (s + 1) =
      (.ok, (k.setThreadCount P (k.processThreadCount (P - 1) - 1)).leaving (s + 1))) := by
  intro P
  obtain ⟨hlt, hp1, hpmax, hused, halive⟩ := h.life.home s hs
  have hP : k.ledger.life.process (s + 1) = P := rfl
  rw [hP] at hp1 hpmax hused halive
  have hcount : k.processThreadCount (P - 1) = (k.ledger.life.threadsOf P).card := by
    have := h.life.count (P - 1) hused (by rw [Nat.sub_add_cancel hp1]; exact halive)
    rwa [Nat.sub_add_cancel hp1] at this
  have hpos : 0 < k.processThreadCount (P - 1) := by
    rw [hcount]
    exact Finset.card_pos.mpr ⟨s, Life.mem_threadsOf.mpr ⟨hlt, hs, hP⟩⟩
  have hin : inProcessTable P = true := by
    simp only [inProcessTable, Bool.and_eq_true, bne_iff_ne, decide_eq_true_eq]
    omega
  unfold threadExit
  dsimp only
  rw [show (k.tcb (s + 1)).process = P from rfl, if_neg (by omega), if_neg (by simp [hin]),
    Nat.add_sub_cancel, if_neg (by simp [hs]; omega)]
  by_cases h1 : k.processThreadCount (P - 1) = 1
  · refine .inl ⟨h1, ?_⟩
    rw [if_pos h1]
    have hm := condemned k P 0
    generalize (k.modPcb P fun p => { p with exitCode := 0, state := .dead }) = k₁ at hm ⊢
    have hlife := (cleanupCapRefs_steps 0 (fun _ => False) (s + 1) (fun _ hf => hf.elim) k₁ (hm.counted h)).life
    have hc : (k₁.cleanupCapRefs (s + 1)).processThreadCount (P - 1) = 1 := by
      have := congrFun (congrArg Life.processThreadCount hlife) (P - 1)
      rw [hm.ledger] at this
      exact this.trans h1
    rw [if_neg (by omega), hc]
    rfl
  · refine .inr ⟨by omega, ?_⟩
    rw [if_neg h1, if_neg (by omega)]
    rfl

theorem setThreadCount_kept (hL : k.ledger.Counted fresh) (P n : Nat) :
    Kept k.ledger (k.setThreadCount P n).ledger :=
  ⟨fun _ => rfl, hL.table, hL.pmm, rfl, rfl⟩

/-- **Thread exit keeps the invariant.** -/
theorem handleThreadExit_inv (h : k.Inv) (hrun : (k.tcb cur).state = .running) :
    (k.handleThreadExit cur).Inv := by
  have hret : ∀ {r : ProcStatus × State}, r.2.Inv → (if r.1 = .ok then r.2 else r.2.setA0 cur 1).Inv := by
    intro r hr
    split
    · exact hr
    · exact hr.setA0 _ _
  refine hret ?_
  rcases h.running_cases hrun with rfl | ⟨h1, h2, hu⟩
  · -- init is not in the table
    have hinit : (k.tcb initThread).process = initProcess := h.life.init
    unfold threadExit
    rw [hinit, if_neg (by decide), if_pos (by decide)]
    exact h
  · obtain ⟨s, rfl⟩ : ∃ s, cur = s + 1 := ⟨cur - 1, by omega⟩
    rw [Nat.add_sub_cancel] at hu
    obtain ⟨hlt, hp1, hpmax, hused, halive⟩ := h.life.home s hu
    have hd := detached_of_running h.waits hrun
    generalize hP : (k.tcb (s + 1)).process = P
    rw [show k.ledger.life.process (s + 1) = P from hP] at hp1 hpmax hused halive
    have hcases := threadExit_cases h hu
    rw [hP] at hcases
    rcases hcases with ⟨hone, heq⟩ | ⟨hmore, heq⟩
    · rw [heq, leaving_eq]
      have hm := condemned k P 0
      generalize (k.modPcb P fun p => { p with exitCode := 0, state := .dead }) = k₁ at hm ⊢
      have hL1 := hm.counted h
      have hw₁ := h.waits.of_eq hm.roster hm.endpoints
      -- the caps are closed
      have hs := cleanupCapRefs_steps 0 (fun _ => False) (s + 1) (fun _ hf => hf.elim) k₁ hL1
      have hc := cleanupCapRefs_calms hL1 hw₁ (hm.roster ▸ hd)
      generalize k₁.cleanupCapRefs (s + 1) = k₂ at hs hc ⊢
      have hL2 := hs.counted (fun _ hf => hf.elim) hL1
      have hlife2 := hs.life
      rw [hm.ledger] at hlife2
      -- the counter is cleared
      have hkept3 := setThreadCount_kept hL2 P 0
      have hlife3 : (k₂.setThreadCount P 0).ledger.life =
          { k₂.ledger.life with
            processThreadCount := update k₂.processThreadCount (P - 1) 0 } := rfl
      have hr3 : (k₂.setThreadCount P 0).roster = k₂.roster := rfl
      have hw3 : (k₂.setThreadCount P 0).Waits := (hc.waits hw₁).of_eq rfl rfl
      generalize k₂.setThreadCount P 0 = k₃ at hkept3 hlife3 hr3 hw3 ⊢
      -- the thread dies
      obtain ⟨hkept, hkill, hdies⟩ := killThread_spec (s := s) (hkept3.counted hL2) hw3.sound (s + 1)
      generalize k₃.killThread s (s + 1) = k₄ at hkept hkill hdies ⊢
      rw [hlife3, hlife2] at hkill
      have hone' : k.ledger.life.threadsOf P = {s} := by
        have hcard := h.life.count (P - 1) hused (by rw [Nat.sub_add_cancel hp1]; exact halive)
        rw [Nat.sub_add_cancel hp1] at hcard
        obtain ⟨x, hx⟩ := Finset.card_eq_one.mp (hcard.symm.trans hone)
        have hmem : s ∈ k.ledger.life.threadsOf P := Life.mem_threadsOf.mpr ⟨hlt, hu, hP⟩
        rw [hx, Finset.mem_singleton] at hmem
        rw [hx, hmem]
      have hmem : ∀ i, (k.threadUsed i = true ∧ (k.tcb (i + 1)).process = P) ↔ i = s := by
        intro i
        have hone'' : i ∈ k.ledger.life.threadsOf P ↔ i = s := by rw [hone', Finset.mem_singleton]
        rw [← hone'', Life.mem_threadsOf]
        exact ⟨fun hh => ⟨(h.life.home i hh.1).1, hh⟩, fun hh => hh.2⟩
      refine ⟨hkept.counted (hkept3.counted hL2), ?_, fun i hi hui j => ?_,
        hw3.dies hdies (endpointSlab_of_ledger hkept.slab)⟩
      · refine h.life.exit (P := P) hkill.process hkill.procState hkill.used hkill.freeSlots
          (fun i hi => ?_) (fun i => ?_) (fun i => ?_) (hkill.nodup ?_ h.life.threadFree_nodup)
        · rw [hkill.count]
          refine (update_of_ne (by omega) _ _).trans ?_
          exact congrFun (congrArg Life.processThreadCount hlife2) i
        · rw [hkill.threadUsed, ← hmem i]
          refine and_congr_right fun hui => not_congr ?_
          exact and_iff_right hui
        · rw [hkill.threadFree, ← hmem i]
          rfl
        · rintro i rfl hm
          have := ((h.life.threadFree i).mp hm).2.2
          rw [show k.ledger.life.threadUsed i = true from hu] at this
          cases this
      · rw [hkept.entry, hkept3.entry]
        refine hs.entry_invalid ?_
        rw [hm.ledger]
        exact h.vacant i hi ((congrFun hkill.used i).symm.trans hui) j
    · rw [heq, leaving_eq]
      have hkept1 := setThreadCount_kept h.counted P (k.processThreadCount (P - 1) - 1)
      have hlife1 : (k.setThreadCount P (k.processThreadCount (P - 1) - 1)).ledger.life =
          { k.ledger.life with
            processThreadCount := update k.processThreadCount (P - 1) (k.processThreadCount (P - 1) - 1) } := rfl
      have hr1 : (k.setThreadCount P (k.processThreadCount (P - 1) - 1)).roster = k.roster := rfl
      generalize k.setThreadCount P (k.processThreadCount (P - 1) - 1) = k₁ at hkept1 hlife1 hr1 ⊢
      obtain ⟨hkept, hkill, hdies⟩ := killThread_spec (s := s) (hkept1.counted h.counted)
        (by rw [hr1]; exact h.waits.sound) (s + 1)
      generalize k₁.killThread s (s + 1) = k₂ at hkept hkill hdies ⊢
      rw [hlife1] at hkill
      rw [hr1] at hdies
      refine h.kept (hkept1.trans hkept) (h.life.leave hu hP ?_ fun i => ?_) hkill.used
        (h.waits.dies hdies (endpointSlab_of_ledger (hkept1.trans hkept).slab))
      · exact ⟨hkill.process, hkill.procState, hkill.used, rfl, hkill.freeSlots, hkill.generation,
          hkill.threadUsed, hkill.threadFree, hkill.nodup⟩
      · rw [hkill.count]
        show update k.processThreadCount (P - 1) _ i = _
        split_ifs with hi
        · rw [show i = P - 1 by omega, update_self]
          rfl
        · rw [update_of_ne (by omega)]
          rfl

end State

end Aegir.Kernel
