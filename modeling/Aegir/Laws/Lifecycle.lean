/-
  The lifecycle law: process and thread slots.

  `Life.Sound` says which slots are taken, that a taken thread slot belongs to a live process of the
  table, that the thread in a process's own slot belongs to it, and that the thread counter of a live
  process counts its threads.  `k.Inv` is the invariant of all runs: the reference-count law, the
  lifecycle law, the law of who waits where, and that an unused process slot has an empty table.
-/
import Mathlib.Data.Finset.Card
import Mathlib.Data.Finset.Range
import Mathlib.Data.Finset.Filter
import Aegir.Laws.IpcSteps
import Aegir.Laws.Paging

namespace Aegir.Kernel

open Aegir.Arch Ledger Roster

namespace Life

variable {l : Life}

/-- The taken thread slots of a process. -/
def threadsOf (l : Life) (p : Nat) : Finset Nat :=
  (Finset.range maxThreadSlots).filter fun s => l.threadUsed s = true ∧ l.process (s + 1) = p

/-- **The lifecycle law.** -/
structure Sound (l : Life) : Prop where
  process_le : ∀ t, l.process t ≤ initProcess
  init : l.process initThread = initProcess
  home : ∀ s, l.threadUsed s = true → s < maxThreadSlots ∧ 1 ≤ l.process (s + 1) ∧
    l.process (s + 1) ≤ maxProcessSlots ∧ l.used (l.process (s + 1) - 1) = true ∧
    l.procState (l.process (s + 1)) = .alive
  initial : ∀ s, l.used s = true → s < maxProcessSlots ∧ l.process (s + 1) = s + 1
  primary : ∀ s, s < maxProcessSlots → l.threadUsed s = true → l.process (s + 1) = s + 1
  free : ∀ s, s ∈ l.freeSlots ↔ s < maxProcessSlots ∧ l.used s = false
  free_nodup : l.freeSlots.Nodup
  threadFree : ∀ s, s ∈ l.threadFreeSlots ↔
    maxProcessSlots ≤ s ∧ s < maxThreadSlots ∧ l.threadUsed s = false
  threadFree_nodup : l.threadFreeSlots.Nodup
  count : ∀ s, l.used s = true → l.procState (s + 1) = .alive →
    l.processThreadCount s = (l.threadsOf (s + 1)).card

theorem Sound.not_open (hl : l.Sound) {s : Nat} (hs : s < maxProcessSlots) (hu : l.used s = false) :
    ¬ l.Open (s + 1) := by
  rintro ⟨t, ht | ⟨h1, h2, hused⟩, hp⟩
  · subst ht
    rw [hl.init] at hp
    unfold initProcess at hp
    omega
  · obtain ⟨-, -, -, hu', -⟩ := hl.home (t - 1) hused
    rw [show t - 1 + 1 = t by omega, hp, Nat.add_sub_cancel] at hu'
    rw [hu] at hu'
    cases hu'

theorem Sound.threadUsed_of_unused (hl : l.Sound) {s : Nat} (hs : s < maxProcessSlots)
    (hu : l.used s = false) : l.threadUsed s = false := by
  by_contra ht
  rw [Bool.not_eq_false] at ht
  obtain ⟨-, -, -, hu', -⟩ := hl.home s ht
  rw [hl.primary s hs ht, Nat.add_sub_cancel, hu] at hu'
  cases hu'

end Life

namespace State

variable {k k' : State} {cur : Nat}

/-- **The invariant of all runs.** -/
structure Inv (k : State) : Prop where
  counted : k.ledger.Counted none
  life : k.ledger.life.Sound
  vacant : ∀ s, s < maxProcessSlots → k.used s = false →
    ∀ h, (k.ledger.entry (s + 1) h).valid = false
  waits : k.Waits

theorem Inv.process_le (h : k.Inv) (t : Nat) : (k.tcb t).process ≤ initProcess := h.life.process_le t

/-- **Cap steps into open processes keep the invariant**, if the waits are kept. -/
theorem Inv.of_steps {actor : Nat} (h : k.Inv)
    (hs : k.ledger.CapSteps actor k.ledger.life.Open k'.ledger) (hw : k'.Waits) : k'.Inv := by
  refine ⟨hs.counted (open_le h.process_le) h.counted, by rw [hs.life]; exact h.life, fun s hlt hu i => ?_, hw⟩
  have hu : k.used s = false := by
    have := congrFun (congrArg Life.used hs.life) s
    exact this.symm.trans hu
  by_contra hv
  rw [Bool.not_eq_false] at hv
  rw [hs.entry_untouched (h.life.not_open hlt hu) i hv, h.vacant s hlt hu i] at hv
  cases hv

theorem Inv.of_same (h : k.Inv) (hs : k.ledger.SameCaps k'.ledger) (hw : k'.Waits) : k'.Inv :=
  h.of_steps (CapSteps.of_same hs : k.ledger.CapSteps 0 _ k'.ledger) hw

theorem Inv.of_ledger (h : k.Inv) (hl : k'.ledger = k.ledger) (hw : k'.Waits) : k'.Inv :=
  h.of_steps (CapSteps.of_eq hl : k.ledger.CapSteps 0 _ k'.ledger) hw

theorem Paged.ledger_same {fresh : Option (Pool × Nat)} (hp : Paged k k')
    (hL : k.ledger.Counted fresh) : k.ledger.SameCaps k'.ledger := by
  have hwf := hp.wf hL.pmm
  rw [hp.same]
  exact ⟨fun _ => rfl, hL.table, hwf, rfl, rfl, rfl⟩

theorem Paged.roster (hp : Paged k k') : k'.roster = k.roster := by
  rw [hp.same]
  rfl

theorem Paged.endpointSlab (hp : Paged k k') : k'.endpointSlab = k.endpointSlab := by
  rw [hp.same]

theorem Inv.paged (h : k.Inv) (hp : Paged k k') : k'.Inv :=
  h.of_same (hp.ledger_same h.counted) (h.waits.of_eq hp.roster hp.endpointSlab)

theorem Inv.of_eq (h : k.Inv) (hl : k'.ledger = k.ledger) (hr : k'.roster = k.roster) : k'.Inv :=
  h.of_ledger hl (h.waits.of_eq hr (endpointSlab_of_ledger (by rw [hl])))

theorem Inv.setA0 (h : k.Inv) (t : Nat) (v : U64) : (k.setA0 t v).Inv := h.of_eq (by simp) (by simp)

theorem Inv.setA1 (h : k.Inv) (t : Nat) (v : U64) : (k.setA1 t v).Inv := h.of_eq (by simp) (by simp)

/-! ## IPC -/

theorem ledger_block (k : State) (t : Nat) {s : ThreadState} (hs : s ≠ .dead)
    (ht : (k.tcb t).state ≠ .dead) : (k.block t s).ledger = k.ledger := by
  unfold block
  rw [ledger_modTcb, ledger_setA0]
  · rfl
  · simp [State.setA0, modTcb, hs, ht]
  · rfl

theorem not_dead_of_steps {actor : Nat} {target : Nat → Prop}
    (hs : k.ledger.CapSteps actor target k'.ledger) (hrun : (k.tcb cur).state = .running) :
    (k'.tcb cur).state ≠ .dead := by
  have h := congrFun (congrArg Life.dead hs.life) cur
  rw [show k.ledger.life.dead cur = false from decide_eq_false (by rw [hrun]; simp)] at h
  exact of_decide_eq_false h

theorem conclude_steps {cap : Nat} {wanted : Bool} {r : IpcStatus × State}
    (hout : MessageOutcome k cur cap wanted r) (h : k.Inv) (hrun : (k.tcb cur).state = .running) :
    k.ledger.CapSteps (k.tcb cur).process k.ledger.life.Open (conclude cur r).ledger := by
  have hs := message_steps hout h.counted h.waits h.process_le
  unfold conclude
  split
  · rw [ledger_block _ _ (by simp) (not_dead_of_steps hs hrun)]
    exact hs
  · rw [ledger_setIpcResult]
    exact hs

theorem handleIpcCall_steps (h : k.Inv) (hrun : (k.tcb cur).state = .running) (f : TrapFrame) :
    k.ledger.CapSteps (k.tcb cur).process k.ledger.life.Open (k.handleIpcCall cur f).ledger := by
  obtain ⟨-, he⟩ | ⟨cap, r, -, hout, he⟩ := handleIpcCall_cases k cur f
  · exact .of_eq (by simp [he])
  · exact he ▸ conclude_steps hout h hrun

theorem handleIpcSend_steps (h : k.Inv) (hrun : (k.tcb cur).state = .running) (f : TrapFrame) :
    k.ledger.CapSteps (k.tcb cur).process k.ledger.life.Open (k.handleIpcSend cur f).ledger := by
  obtain ⟨-, he⟩ | ⟨cap, r, -, hout, he⟩ := handleIpcSend_cases k cur f
  · exact .of_eq (by simp [he])
  · exact he ▸ conclude_steps hout h hrun

/-- The process whose caps a receive copies: that of the caller at the head of the queue. -/
def receiveActor (k : State) (cur : Nat) (f : TrapFrame) : Nat :=
  match decodeHandle f.a0 with
  | none => 0
  | some cap => (k.tcb (k.queuedCaller cur cap)).process

theorem handleIpcRecv_steps (h : k.Inv) (hcur : cur ≠ 0) (hrun : (k.tcb cur).state = .running) (f : TrapFrame) :
    k.ledger.CapSteps (k.receiveActor cur f) k.ledger.life.Open (k.handleIpcRecv cur f).ledger := by
  rw [handleIpcRecv_eq h.waits]
  unfold receiveEndpoint receiveActor
  cases decodeHandle f.a0 with
  | none => exact .of_eq (by simp)
  | some cap =>
    dsimp only
    have hs := receive_steps cap h.counted h.waits h.process_le hcur hrun
    split
    · rename_i k' heq
      rw [heq] at hs
      rw [ledger_setA1, ledger_block _ _ (by simp) (not_dead_of_steps hs hrun)]
      exact hs
    · rename_i heq
      rw [heq] at hs
      rw [ledger_setIpcResult, ledger_setA1]
      exact hs

theorem handleIpcReply_steps (cur : Nat) (h : k.Inv) (f : TrapFrame) :
    k.ledger.CapSteps (k.tcb cur).process k.ledger.life.Open (k.handleIpcReply cur f).ledger := by
  unfold handleIpcReply
  split
  · exact .of_eq (by simp)
  · rw [ledger_setIpcResult]
    exact reply_steps h.counted h.waits h.process_le

/-! ## Caps of one table -/

/-- **Mint inserts once, and answers.** -/
theorem handleCapMint_ind {R : State → Prop} {f : TrapFrame} (hset : ∀ j v, R j → R (j.setA0 cur v)) (hk : R k)
    (hins : ∀ cap e, k.lookupCap cur cap = some e → e.kind ≠ .replyObject → hasRights e.rights (toRights f.a1) = true →
      R (k.insertCap cur e.kind e.object (toRights f.a1) f.a2).2) : R (k.handleCapMint cur f) := by
  unfold handleCapMint
  split
  · exact hset _ _ hk
  · split
    · exact hset _ _ hk
    · split
      · exact hset _ _ hk
      · rename_i e hlook
        split
        · exact hset _ _ hk
        · rename_i hkind
          split
          · exact hset _ _ hk
          · rename_i hrights
            have h := hins _ e hlook hkind (by simpa using hrights)
            split <;> rename_i heq <;> rw [heq] at h <;> exact hset _ _ h

/-- **Delete closes one cap, and answers.** -/
theorem handleCapDelete_cases (k : State) (cur : Nat) (f : TrapFrame) : ∃ v,
    k.handleCapDelete cur f = match decodeHandle f.a0 with
      | none => k.setA0 cur v
      | some cap => (k.closeCap cur cap false).2.setA0 cur v := by
  unfold handleCapDelete
  cases decodeHandle f.a0 with
  | none => exact ⟨_, rfl⟩
  | some cap =>
    dsimp only
    split <;> rename_i heq <;> rw [heq] <;> exact ⟨_, rfl⟩

theorem handleCapMint_steps (h : k.Inv) (hrun : (k.tcb cur).state = .running) (f : TrapFrame) :
    k.ledger.CapSteps (k.tcb cur).process k.ledger.life.Open (k.handleCapMint cur f).ledger := by
  apply handleCapMint_ind (R := fun j => k.ledger.CapSteps _ _ j.ledger)
  · intro j v hj
    rwa [ledger_setA0]
  · exact .of_eq rfl
  · intro cap e hlook hkind hrights
    obtain ⟨hent, hv⟩ := lookupCap_eq_some hlook
    have horig : k.ledger.Origin (k.tcb cur).process ⟨true, e.kind, e.object, toRights f.a1, f.a2⟩ :=
      .copy _ (by rw [hent]; exact hv) (by rw [hent]) (by rw [hent]) hkind (by rw [hent]; exact hrights)
    exact insertCap_steps (t := cur) k.ledger.life.Open h.counted (open_of_running h.waits hrun) horig

theorem handleCapMint_roster (k : State) (cur : Nat) (f : TrapFrame) : (k.handleCapMint cur f).roster = k.roster :=
  handleCapMint_ind (R := fun j => j.roster = k.roster) (fun j v hj => (roster_setA0 j cur v).trans hj) rfl
    fun _ e _ _ _ => roster_insertCap k cur e.kind e.object _ _

theorem handleCapMint_slab (k : State) (cur : Nat) (f : TrapFrame) :
    (k.handleCapMint cur f).endpointSlab = k.endpointSlab :=
  handleCapMint_ind (R := fun j => j.endpointSlab = k.endpointSlab) (fun _ _ hj => hj) rfl
    fun _ e _ _ _ => endpointSlab_insertCap k cur e.kind e.object _ _

theorem handleCapDelete_steps (actor : Nat) (target : Nat → Prop) (h : k.Inv) (hcur : cur ≠ 0)
    (f : TrapFrame) : k.ledger.CapSteps actor target (k.handleCapDelete cur f).ledger := by
  obtain ⟨v, heq⟩ := handleCapDelete_cases k cur f
  rw [heq]
  split <;> rw [ledger_setA0]
  · exact .of_eq rfl
  · exact closeCap_steps actor target _ h.counted hcur false

theorem handleCapDelete_waits (h : k.Inv) (hcur : cur ≠ 0) (hrun : (k.tcb cur).state = .running)
    (f : TrapFrame) : (k.handleCapDelete cur f).Waits := by
  obtain ⟨v, heq⟩ := handleCapDelete_cases k cur f
  rw [heq]
  split
  · exact h.waits.setA0 _ _
  · exact ((closeCap_calms h.counted h.waits hcur (detached_of_running h.waits hrun) _ false).waits h.waits).setA0 _ _

end State

end Aegir.Kernel
