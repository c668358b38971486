/-
  The kernel as a whole keeps its invariant: every step, every run from boot.

  A step is a system call of a running thread, or what the scheduler, the deferred-stack drain, an
  endpoint failure or user code do in between.
-/
import Aegir.Laws.ThreadSlots

namespace Aegir.Kernel

open Aegir.Arch Aegir.Lib Ledger Roster List

namespace State

variable {k k' : State} {cur t : Nat}

/-! ## System calls that map pages -/

/-- The state is changed by paging, then the caller gets its answer. -/
def Answers (k k' : State) : Prop :=
  ∃ k₁, Paged k k₁ ∧ k'.ledger = k₁.ledger ∧ k'.roster = k₁.roster

theorem Paged.setA0_answers (h : Paged k k') (v : U64) : Answers k (k'.setA0 cur v) :=
  ⟨k', h, by simp, by simp⟩

theorem refuse_answers (k : State) (v : U64) : Answers k (k.setA0 cur v) := (Paged.refl k).setA0_answers v

theorem Answers.inv (h : Answers k k') (hk : k.Inv) : k'.Inv := by
  obtain ⟨k₁, hp, hl, hr⟩ := h
  exact (hk.paged hp).of_eq hl hr

theorem handleMemMap_answers (k : State) (cur : Nat) (f : TrapFrame) :
    Answers k (k.handleMemMap cur f) := by
  unfold handleMemMap
  split
  · split
    · exact refuse_answers k _
    · split
      · exact refuse_answers k _
      · rename_i e _
        split
        · exact refuse_answers k _
        · split
          · unfold mapBootFile
            split
            · exact refuse_answers k _
            · split
              · exact refuse_answers k _
              · dsimp only
                split
                · rename_i heq
                  exact (mapPages_paged_of heq).setA0_answers _
                · rename_i heq
                  exact ⟨_, mapPages_paged_of heq, by simp, by simp⟩
          · unfold mapMemoryObject
            split
            · exact refuse_answers k _
            · split
              · rename_i heq
                exact (mapPages_paged_of heq).setA0_answers _
              · rename_i heq
                exact (mapPages_paged_of heq).setA0_answers _
  · exact refuse_answers k _

theorem handleMemUnmap_answers (k : State) (cur : Nat) (f : TrapFrame) :
    Answers k (k.handleMemUnmap cur f) := by
  unfold handleMemUnmap
  split
  · exact refuse_answers k _
  · split
    · exact refuse_answers k _
    · split
      · exact refuse_answers k _
      · have hp := unmapPages_paged (k.addressSpaceRoot cur) (pageVA f.a1) (f.a2.toNat / pageSize) 0 k
        split
        · rename_i heq
          rw [heq] at hp
          exact hp.setA0_answers _
        · rename_i heq
          rw [heq] at hp
          exact hp.setA0_answers _

theorem handleMapMmio_answers (k : State) (cur : Nat) (f : TrapFrame) :
    Answers k (k.handleMapMmio cur f) := by
  unfold handleMapMmio
  split
  · split
    · exact refuse_answers k _
    · split
      · exact refuse_answers k _
      · split
        · exact refuse_answers k _
        · dsimp only
          split
          · exact refuse_answers k _
          · split
            · rename_i heq
              exact (mapPages_paged_of heq).setA0_answers _
            · rename_i heq
              exact (mapPages_paged_of heq).setA0_answers _
  · exact refuse_answers k _

/-! ## The other steps -/

section

variable (h : k.Inv)

include h

theorem handleCapMint_inv (hrun : (k.tcb cur).state = .running) (f : TrapFrame) :
    (k.handleCapMint cur f).Inv := by
  have hr := handleCapMint_roster k cur f
  have he : (k.handleCapMint cur f).endpointSlab = k.endpointSlab := handleCapMint_slab k cur f
  exact h.of_steps (handleCapMint_steps h hrun f) (h.waits.of_eq hr he)

theorem Inv.setState {s : ThreadState} (hd : k.roster.Detached t)
    (hold : (k.tcb t).state ≠ .dead) (hwait : (k.tcb t).state ≠ .blockedThreadWait)
    (hnew : s ≠ .dead) (haw : (k.tcb t).awaitingReply = false)
    (hsched : s ≠ .ready → k.roster.Scheduled t) :
    (k.modTcb t fun c => { c with state := s }).Inv := by
  have hl : (k.modTcb t fun c => { c with state := s }).ledger = k.ledger :=
    ledger_modTcb _ _ _ rfl (by simp [hold, hnew]) rfl
  have hr : (k.modTcb t fun c => { c with state := s }).roster =
      k.roster.setThread t { k.roster.thread t with state := s } := roster_modTcb _ _ _
  refine h.of_ledger hl (h.waits.of_setThread hr (endpointSlab_of_ledger (by rw [hl])) ?_)
  refine h.waits.sound.setThread hd.queuedOn hd.queuedOn
    (fun o ho hr he => absurd he (hd.receiver o ho hr)) (fun ha => ?_) (fun _ hs => hsched hs)
    (unlisted_of_state hwait) (.inl rfl) (h.waits.sound.bound t)
  exact absurd (haw.symm.trans ha) (by simp)

theorem dispatch_inv (hready : (k.tcb t).state = .ready) (hsched : k.isScheduled t = true) :
    (k.modTcb t fun c => { c with state := .running }).Inv := by
  refine h.setState (h.waits.sound.detached_of_state (by simp [Tcb.ipc, hready])
    (by simp [Tcb.ipc, hready])) (by simp [hready]) (by simp [hready]) (by simp) ?_ (fun _ => ?_)
  · exact h.waits.sound.awaiting_eq_false (t := t) (by simp [Tcb.ipc, hready]) (by simp [Tcb.ipc, hready])
  · unfold isScheduled at hsched
    simp only [Bool.or_eq_true, beq_iff_eq, Bool.and_eq_true, bne_iff_ne, ne_eq, decide_eq_true_eq] at hsched
    rcases hsched with hs | ⟨⟨h1, h2⟩, h3⟩
    · exact .inl hs
    · exact .inr ⟨by omega, h2, h3⟩

theorem preempt_inv (hrun : (k.tcb t).state = .running) :
    (k.modTcb t fun c => { c with state := .ready }).Inv :=
  h.setState (detached_of_running h.waits hrun) (by simp [hrun]) (by simp [hrun]) (by simp)
    (h.waits.sound.awaiting_eq_false (t := t) (by simp [Tcb.ipc, hrun]) (by simp [Tcb.ipc, hrun]))
    (fun hs => absurd rfl hs)

theorem failEndpoint_inv (o : Nat) : (k.failEndpoint o).Inv := by
  by_cases ho : o = 0
  · unfold failEndpoint
    rw [if_pos (.inl ho)]
    exact h
  · have hc : Calms (fun _ => False) k (k.failEndpoint o) :=
      ⟨(failEndpoint_calm h.waits.sound ho).1, fun p _ hf => .inl (by
        unfold EpFree at hf ⊢
        rwa [endpointSlab_of_ledger (k := k) (by rw [ledger_failEndpoint])] at hf)⟩
    exact h.of_ledger (ledger_failEndpoint k o) (hc.waits h.waits)

theorem Inv.setPriority (t : Nat) (priority : Int) :
    (k.modTcb t fun c => { c with priority := priority }).Inv :=
  h.of_eq (ledger_modTcb _ _ _ rfl Iff.rfl rfl) (roster_modTcb_same _ _ _ rfl)

theorem handleSetPriority_inv (f : TrapFrame) : (k.handleSetPriority cur f).Inv := by
  apply handleSetPriority_ind (Q := Inv)
  · intro j v w hj
    exact (hj.setA0 _ _).setA1 _ _
  · exact h
  · intro _
    exact h.setPriority _ _
  · intro cap e _ _
    unfold setThreadPriority
    split
    · exact h
    · exact h.setPriority _ _

end

theorem setStampIdentity_same (k : State) (o : Nat) (stamp : Bool) :
    (k.setStampIdentity o stamp).ledger = k.ledger ∧
    (k.setStampIdentity o stamp).roster = k.roster := by
  unfold setStampIdentity
  split
  · exact ⟨rfl, rfl⟩
  · exact ⟨ledger_modEndpoint _ _ _ rfl, roster_modEndpoint_same _ _ _ rfl rfl rfl rfl⟩

theorem handleEpSetStampIdentity_inv (h : k.Inv) (f : TrapFrame) :
    (k.handleEpSetStampIdentity cur f).Inv := by
  unfold handleEpSetStampIdentity
  split
  · exact h.setA0 _ _
  · split
    · exact h.setA0 _ _
    · split
      · exact h.setA0 _ _
      · obtain ⟨hl, hr⟩ := setStampIdentity_same k ‹CapEntry›.object (f.a1 != 0)
        exact (h.of_eq hl hr).setA0 _ _

theorem threadWait_inv (h : k.Inv) (hcur : cur ≠ 0) (hrun : (k.tcb cur).state = .running) (cap : Nat) :
    (k.threadWait cur cap).2.Inv := by
  unfold threadWait
  split
  · exact h
  · rename_i e _
    split
    · exact h
    · split
      · exact h
      · split
        · exact h
        · rename_i hne
          dsimp only
          generalize hk : (((k.modTcb cur fun c =>
            { c with waitingFor := e.object, waitersNext := (k.tcb e.object).waitersHead }).modTcb
            e.object fun c => { c with waitersHead := cur }).modTcb cur
            fun c => { c with state := .blockedThreadWait }) = k'
          have hl : k'.ledger = k.ledger := by
            rw [← hk, ledger_modTcb _ _ _ rfl ?_ rfl, ledger_modTcb _ _ _ rfl Iff.rfl rfl,
              ledger_modTcb _ _ _ rfl Iff.rfl rfl]
            simp [modTcb, Ne.symm hne, hrun]
          have hr : k'.roster = k.roster.watch e.object cur := by
            rw [← hk, roster_modTcb, roster_modTcb, roster_modTcb]
            refine Roster.ext ?_ rfl rfl rfl rfl
            funext v
            by_cases hv : v = cur
            · subst hv
              simp [watch, modTcb, Ne.symm hne, Tcb.ipc]
            · by_cases hvo : v = e.object
              · subst hvo
                simp [watch, modTcb, hv, Tcb.ipc]
              · simp [watch, hv, hvo]
          refine h.of_ledger hl (h.waits.of_sound (by rw [hr]; rfl) (endpointSlab_of_ledger (by rw [hl])) ?_)
          rw [hr]
          exact h.waits.sound.watch hcur hrun

theorem handleThreadWait_inv (h : k.Inv) (hcur : cur ≠ 0) (hrun : (k.tcb cur).state = .running)
    (f : TrapFrame) : (k.handleThreadWait cur f).Inv := by
  unfold handleThreadWait
  split
  · exact h.of_same ⟨fun _ => rfl, h.counted.table, h.counted.pmm, rfl, rfl, rfl⟩ (h.waits.of_eq rfl rfl)
  · exact threadWait_inv (h.setA0 cur 0) hcur (by simp [setA0, modTcb, hrun]) f.a0.toNat

/-- **Every system call keeps the invariant.** -/
theorem handleSyscall_inv (h : k.Inv) (hcur : cur ≠ 0) (hrun : (k.tcb cur).state = .running)
    (f : TrapFrame) (call : Syscall) :
    (k.handleSyscall cur f call).Inv := by
  cases call with
  | epCreate => exact handleEpCreate_inv h hrun
  | epSetStampIdentity => exact handleEpSetStampIdentity_inv h f
  | ntfnCreate => exact handleNtfnCreate_inv h hrun
  | memAlloc => exact handleMemAlloc_inv h hrun f
  | memMap => exact (handleMemMap_answers k cur f).inv h
  | memUnmap => exact (handleMemUnmap_answers k cur f).inv h
  | mapMmio => exact (handleMapMmio_answers k cur f).inv h
  | ioMap => exact handleIoMap_inv h hrun f
  | irqCreate => exact handleIrqCreate_inv h hrun f
  | irqMsiCreate vector => exact handleIrqMsiCreate_inv h hrun f vector
  | capMint => exact handleCapMint_inv h hrun f
  | capDelete =>
    have hc : CapSteps 0 k.ledger.life.Open k.ledger (k.handleCapDelete cur f).ledger :=
      handleCapDelete_steps _ _ h hcur f
    exact h.of_steps hc (handleCapDelete_waits h hcur hrun f)
  | ipcCall =>
    have hc := handleIpcCall_steps h hrun f
    exact h.of_steps hc (handleIpcCall_waits h.counted h.waits h.process_le hcur hrun f)
  | ipcSend =>
    have hc := handleIpcSend_steps h hrun f
    exact h.of_steps hc (handleIpcSend_waits h.counted h.waits h.process_le hcur hrun f)
  | ipcRecv =>
    refine h.of_steps (handleIpcRecv_steps h hcur hrun f) ?_
    show (k.handleIpcRecv cur f).Waits
    rw [handleIpcRecv_eq h.waits]
    exact receiveEndpoint_waits h.counted h.waits h.process_le hcur hrun f
  | ipcReply =>
    have hc := handleIpcReply_steps cur h f
    exact h.of_steps hc (handleIpcReply_waits h.counted h.waits h.process_le f)
  | spawn => exact handleSpawn_inv h hrun f
  | exit => exact handleExit_inv h hrun f
  | threadCreate => exact handleThreadCreate_inv h hrun
  | threadExit => exact handleThreadExit_inv h hrun
  | threadWait => exact handleThreadWait_inv h hcur hrun f
  | reapProcess => exact handleReapProcess_inv h hrun f
  | setPriority => exact handleSetPriority_inv h f

/-- **Every step keeps the invariant.** -/
theorem step_inv {a : Action} (h : k.Inv) (hs : k.step a = some k') : k'.Inv := by
  cases step_cases hs with
  | syscall ht hrun => exact handleSyscall_inv h ht hrun _ _
  | dispatch hready hsched => exact dispatch_inv h hready hsched
  | preempt hrun => exact preempt_inv h hrun
  | drainStack =>
    exact h.of_same ⟨fun _ => rfl, h.counted.table, h.counted.pmm.deallocateFrame _, rfl, rfl, rfl⟩ (h.waits.of_eq rfl rfl)
  | failEndpoint o => exact failEndpoint_inv h o
  | userWrite => exact h.of_eq rfl rfl

/-! ## Boot -/

theorem Inv.insertInit {cap o : Nat} {kind : ObjectKind} {rights : Rights} {badge : U64}
    {status : CapStatus} (h : k.Inv) (hcap : cap ≤ handleLast) (hkind : kind.pool = none)
    (hins : k.insertProcessCapAt initProcess cap kind o rights badge = (status, k')) : k'.Inv := by
  have hr : k'.roster = k.roster := by
    have := roster_insertProcessCapAt k initProcess cap kind o rights badge
    rwa [hins] at this
  have he : k'.endpointSlab = k.endpointSlab := by
    have := endpointSlab_insertProcessCapAt k initProcess cap kind o rights badge
    rwa [hins] at this
  have hslot : ∀ P, kind.pool = some P → 1 ≤ o ∧ o ≤ (k.ledger.slab P).carved := by
    intro P hP
    rw [hkind] at hP
    cases hP
  by_cases hok : status = .ok
  · subst hok
    have hi := insertProcessCapAt_ok h.counted hcap hslot hins
    have hlife := hi.life
    refine ⟨?_, by rw [hlife]; exact h.life, fun s hs hu i => ?_, h.waits.of_eq hr he⟩
    · obtain ⟨t, pmm, hl, ht, hpmm, hget, hh, hnull, hv⟩ := hi
      have := h.counted.insert (Nat.le_refl _) hh hnull ht hget hpmm hv fun P hP => by
        rw [hkind] at hP
        cases hP
      rw [← hl, show clear none ⟨true, kind, o, rights, badge⟩ = none by
        unfold clear; split <;> rfl] at this
      exact this
    · have hu' : k.used s = false := (congrFun (congrArg Life.used hlife) s).symm.trans hu
      rw [hi.entry, if_neg (by unfold initProcess; omega)]
      exact h.vacant s hs hu' i
  · exact h.of_same (insertProcessCapAt_error h.counted hok hins) (h.waits.of_eq hr he)

section

variable (c : BootConfig)

theorem setupInit_caps (p : Nat) : (((bare c).setupInit c).pcb p).caps = .empty := by
  by_cases hp : p = initProcess
  · subst hp; simp [setupInit, initializeThread, initializeProcess, modTcb, modPcb]
  · simp [setupInit, initializeThread, initializeProcess, modTcb, modPcb, hp, bare, blankPcb]

theorem setupInit_tcb : (∀ t, t ≠ initThread → ((bare c).setupInit c).tcb t = blankTcb) ∧
    ((bare c).setupInit c).tcb initThread = { blankTcb with
      id := 3, process := initProcess, state := .running, ipcBuffer := c.ipcBuffer
      kernelStackTop := c.kernelStackTop } := by
  refine ⟨fun t ht => ?_, ?_⟩
  · simp [setupInit, initializeThread, initializeProcess, modTcb, modPcb, ht, bare]
  · simp [setupInit, initializeThread, initializeProcess, modTcb, modPcb, bare, blankTcb]

theorem setupInit_inv : ((bare c).setupInit c).Inv := by
  have hpcb := setupInit_caps c
  have hentry : ∀ p h, ((bare c).setupInit c).ledger.entry p h = nullCap := by
    intro p h
    show (((bare c).setupInit c).pcb p).caps.get h = nullCap
    rw [hpcb]
    rfl
  have hrefs : ∀ P o, ((bare c).setupInit c).ledger.refs P o = 0 := by
    intro P o
    refine refs_eq_zero_iff.mpr fun i _ => CapEntry.not_refersTo_of_invalid ?_ P o
    rw [hentry]
    rfl
  have hslab : ∀ P, (((bare c).setupInit c).ledger.slab P).Full := by
    intro P
    cases P with
    | endpoint => exact c.endpointSlab_full
    | _ => exact Slab.full_empty
  have hcount : ∀ P o, ((bare c).setupInit c).ledger.count P o = 0 := by
    intro P o
    cases P <;> rfl
  obtain ⟨htcb, hself⟩ := setupInit_tcb c
  refine ⟨⟨c.pmm_wf, fun p => ?_, ?_, ?_, fun P => (hslab P).nodup,
    fun P o ho => ((hslab P).mem_free o).mp ho, ?_, ?_, ?_, fun P o _ => hcount P o⟩, ?_, ?_, ?_⟩
  · show (((bare c).setupInit c).pcb p).caps.Wf
    rw [hpcb]
    exact CapTable.wf_empty
  · intro p h hv
    rw [hentry] at hv
    cases hv
  · intro p h P hv
    rw [hentry] at hv
    cases hv
  · intro P o _ _
    rw [hcount, hrefs]
  · intro P o h1 h2
    rw [(hslab P).mem_free, hrefs]
    exact ⟨fun _ => ⟨rfl, by simp⟩, fun _ => ⟨h1, h2⟩⟩
  · intro P o hf
    cases hf
  · refine ⟨fun t => ?_, ?_, ?_, ?_, ?_, fun s => ?_, nodup_range, fun s => ?_, nodup_range', ?_⟩
    · show (((bare c).setupInit c).tcb t).process ≤ initProcess
      by_cases ht : t = initThread
      · subst ht; rw [hself]
      · rw [htcb t ht]; exact Nat.zero_le _
    · show (((bare c).setupInit c).tcb initThread).process = initProcess
      rw [hself]
    · intro s hs; cases hs
    · intro s hs; cases hs
    · intro s _ hs; cases hs
    · show s ∈ range maxProcessSlots ↔ s < maxProcessSlots ∧ false = false
      simp
    · show s ∈ range' maxProcessSlots (maxThreadSlots - maxProcessSlots) ↔
        maxProcessSlots ≤ s ∧ s < maxThreadSlots ∧ false = false
      rw [mem_range'_1, eq_self_iff_true, and_true]
      omega
    · intro s hs; cases hs
  · intro s _ _ h
    rw [hentry]
    rfl
  · have hthread : ∀ t, t ≠ initThread → ((bare c).setupInit c).roster.thread t = blankTcb.ipc := by
      intro t ht
      show (((bare c).setupInit c).tcb t).ipc = _
      rw [htcb t ht]
    have hinit : ((bare c).setupInit c).roster.thread initThread = { blankTcb.ipc with state := .running } := by
      rfl
    have hfield : ∀ {α : Type} (f : ThreadIpc → α) (a : α), f blankTcb.ipc = a →
        f { blankTcb.ipc with state := .running } = a →
        ∀ t, f (((bare c).setupInit c).roster.thread t) = a := by
      intro α f a h1 h2 t
      by_cases ht : t = initThread
      · subst ht; rw [hinit, h2]
      · rw [hthread t ht, h1]
    have hqueued := hfield ThreadIpc.queuedOn 0 rfl rfl
    have hidle : ∀ o, ((bare c).setupInit c).roster.Idle o := fun _ => ⟨rfl, rfl⟩
    refine ⟨⟨fun o ho => ⟨[], rfl, rfl, fun t => ?_⟩, fun t ht => absurd (hqueued t) ht, ?_, ?_, ?_,
      fun t _ => ⟨[], hfield (fun x => x.vigil.head) 0 rfl rfl t, fun _ hu => absurd hu not_mem_nil⟩,
      hfield _ 0 rfl rfl, fun _ => rfl, fun _ => rfl⟩, ?_,
      fun o _ _ => hidle o⟩
    · rw [hqueued]
      simp [Ne.symm ho]
    · intro o _ hr
      exact absurd rfl hr
    · intro t ha
      rw [hfield ThreadIpc.awaiting false rfl rfl] at ha
      cases ha
    · intro t hd _
      by_cases ht : t = initThread
      · exact .inl ht
      · rw [hthread t ht] at hd
        exact absurd rfl hd
    · intro o _ _
      exact hidle o

/-- **The state after boot satisfies the invariant.** -/
theorem boot_inv : (boot c).Inv := by
  have hpool : ∀ kind ∈ bootKinds, kind.pool = none := by decide
  exact boot_ind (fun _ _ _ kind _ _ hkind hcap h => h.insertInit hcap (hpool kind hkind) rfl) c (setupInit_inv c)

/-- **The invariant holds in every state of every run from boot.** -/
theorem run_inv {n : Nat} (r : Run step n) (hboot : r.state 0 = boot c)
    (i : Nat) (hi : i ≤ n) : (r.state i).Inv :=
  r.invariant Inv (hboot ▸ boot_inv c) (fun j hj h => step_inv h (r.step_eq j hj)) i hi

end

/-- **Reference counts count caps.**  In every state of every run from boot, the count of a carved
    slot of any of the four slabs is the number of valid entries of all tables that name it, and the
    slot is on the free list exactly when there is none.  All valid entries are at the places that
    `refs` counts over, and name carved slots. -/
theorem refcounts_count_caps (c : BootConfig) {n : Nat} (r : Run step n)
    (hboot : r.state 0 = boot c) (i : Nat) (hi : i ≤ n) :
    (∀ P o, 1 ≤ o → o ≤ ((r.state i).poolSlab P).carved →
      (r.state i).poolCount P o = (r.state i).ledger.refs P o ∧
      (o ∈ ((r.state i).poolSlab P).free ↔ (r.state i).ledger.refs P o = 0)) ∧
    (∀ p h, (((r.state i).pcb p).caps.get h).valid = true → (p, h) ∈ places ∧
      ∀ P, (((r.state i).pcb p).caps.get h).kind.pool = some P →
        1 ≤ (((r.state i).pcb p).caps.get h).object ∧
        (((r.state i).pcb p).caps.get h).object ≤ ((r.state i).poolSlab P).carved) := by
  have h := (run_inv c r hboot i hi).counted
  refine ⟨fun P o h1 h2 => ⟨h.count P o h1 h2, ?_⟩, fun p cap hv => ⟨h.mem_places hv, ?_⟩⟩
  · rw [show o ∈ ((r.state i).poolSlab P).free ↔ _ from h.free P o h1 h2]
    simp
  · exact fun P hP => h.slot p cap P hv hP

theorem step_syscall {call : Syscall} {f : TrapFrame} (hlive : k.halted = false) (ht : t ≠ 0)
    (hrun : (k.tcb t).state = .running) :
    k.step (.syscall call t f) = some (k.handleSyscall t f call) := by
  simp [step, hlive, ht, hrun]

theorem step_create (i : Nat) (hi : i < 1) :
    (if i = 0 then boot smallMachine else (boot smallMachine).handleEpCreate initThread).step
      (.syscall .epCreate initThread ⟨0, 0, 0, 0, 0, 0⟩) =
    some (if i + 1 = 0 then boot smallMachine else (boot smallMachine).handleEpCreate initThread) := by
  obtain rfl : i = 0 := by omega
  have hlive : (boot smallMachine).halted = false := by decide +kernel
  have hrun : ((boot smallMachine).tcb initThread).state = .running := by decide +kernel
  exact step_syscall hlive (by decide) hrun

/-- Init creates an endpoint. -/
def createRun : Run step 1 where
  state := fun i => if i = 0 then boot smallMachine else (boot smallMachine).handleEpCreate initThread
  action := fun _ => .syscall .epCreate initThread ⟨0, 0, 0, 0, 0, 0⟩
  step_eq := step_create

/-- The new endpoint is counted once, by init's cap, and is not free. -/
theorem refcounts_count_caps_create :
    (1 ≤ (((createRun.state 1).poolSlab .endpoint).carved)) ∧
    (createRun.state 1).poolCount .endpoint 1 = (createRun.state 1).ledger.refs .endpoint 1 ∧
    (1 ∈ ((createRun.state 1).poolSlab .endpoint).free ↔
      (createRun.state 1).ledger.refs .endpoint 1 = 0) := by
  have hcarved : 1 ≤ ((createRun.state 1).poolSlab .endpoint).carved := by decide +kernel
  exact ⟨hcarved, (refcounts_count_caps smallMachine createRun rfl 1 (Nat.le_refl _)).1 .endpoint 1 (Nat.le_refl _) hcarved⟩

end State

/-!
## What a NEW endpoint keeps of the slot it is put into

The slots of the endpoint slab are handed out again without being cleared, and the frames they are
carved from are not zeroed.  `Initialize` resets the fields one by one; the IDENTITY MARK is not
among them.  So an endpoint starts with empty queues, without a receiver and not failed, whatever
was in the slot, but it stamps the identity of its callers if the slot's last owner asked for that.

`EndpointView` is what can be observed of an endpoint; nothing is assumed of the states in which
the endpoints are created, so all pasts of a slot are covered.
-/

/-- What can be observed of an endpoint: the blocked callers and the queued copies in order, whether it
    failed, who waits to receive, and which badge a cap surfaces for the process with an id. -/
structure EndpointView where
  callers : List Nat
  copies : List Nat
  failed : Bool
  receiver : Nat
  badge : U64 → Nat → U64

/-- The links from `start` on, up to null. -/
def followLinks (next : Nat → Nat) : Nat → Nat → List Nat
  | _, 0 => []
  | start, n + 1 => if start = 0 then [] else start :: followLinks next (next start) n

namespace State

/-- What can be observed of the endpoint at `o`. -/
def endpointView (k : State) (o : Nat) : EndpointView where
  callers := followLinks (fun t => (k.tcb t).queueNext) (k.endpoint o).queueHead threadBound
  copies := followLinks (fun s => (k.queuedSend s).next) (k.endpoint o).sendQueueHead k.sendSlab.carved
  failed := (k.endpoint o).failed
  receiver := (k.endpoint o).waitingReceiver
  badge := fun badge id => if badge = 0 ∧ (k.endpoint o).stampIdentity then UInt64.ofNat id else badge

/-! ## The slot of the next endpoint -/

/-- The slot that the next endpoint is put into: the head of the free list, or the last slot of a new
    frame. -/
def nextEndpoint (k : State) : Nat :=
  if k.endpointSlab.free = [] then k.endpointSlab.carved + endpointsPerFrame
  else k.endpointSlab.free.headD 0

/-- The identity mark that is left in that slot. -/
def stampLeft (k : State) : Bool := (k.endpoint k.nextEndpoint).stampIdentity

/-- **`Create_Endpoint`** initialises the slot and nothing else of it. -/
theorem createEndpoint_endpoint {k k' : State} {o : Nat} (h : k.createEndpoint = (o, k'))
    (ho : o ≠ 0) : o = k.nextEndpoint ∧ k'.endpoint o = initializeEndpoint (k.endpoint o) := by
  unfold createEndpoint Slab.ensureFree Slab.grow at h
  unfold nextEndpoint
  by_cases hf : k.endpointSlab.free = []
  · rw [if_pos hf] at h ⊢
    cases halloc : k.pmm.allocateFrame with
    | mk r p =>
      rw [halloc] at h
      cases r with
      | error s =>
        cases h
        exact absurd rfl ho
      | ok f =>
        -- the slots of the new frame are pushed in order, so the last one is on top
        cases h
        refine ⟨?_, ?_⟩
        · simp [endpointsPerFrame, List.range_succ_eq_map]
        · simp [modEndpoint]
  · rw [if_neg hf] at h ⊢
    cases h
    exact ⟨rfl, by simp [modEndpoint]⟩

theorem createEndpoint_view {k k' : State} {o : Nat} (h : k.createEndpoint = (o, k')) (ho : o ≠ 0) :
    k'.endpointView o = ⟨[], [], false, 0, fun badge id =>
      if badge = 0 ∧ k.stampLeft then UInt64.ofNat id else badge⟩ := by
  obtain ⟨hslot, hep⟩ := createEndpoint_endpoint h ho
  have hnone : ∀ next n, followLinks next 0 n = [] := by
    intro next n
    cases n with
    | zero => rfl
    | succ n => exact if_pos rfl
  unfold endpointView stampLeft
  rw [hep, ← hslot]
  simp only [initializeEndpoint, hnone]
  rfl

/-- **A new endpoint shows its slot's past exactly through the identity mark.**  Two endpoints, created
    in any two states, are observed alike if and only if the slots they were put into held the same
    mark. -/
theorem fresh_endpoint_alike_iff (k₁ k₂ k₁' k₂' : State) (o₁ o₂ : Nat)
    (h₁ : k₁.createEndpoint = (o₁, k₁')) (ho₁ : o₁ ≠ 0)
    (h₂ : k₂.createEndpoint = (o₂, k₂')) (ho₂ : o₂ ≠ 0) :
    k₁'.endpointView o₁ = k₂'.endpointView o₂ ↔ k₁.stampLeft = k₂.stampLeft := by
  rw [createEndpoint_view h₁ ho₁, createEndpoint_view h₂ ho₂]
  constructor
  · intro h
    -- the badge that an unbadged cap surfaces for process 1 tells the marks apart
    have hb := congrFun (congrFun (congrArg EndpointView.badge h) 0) 1
    cases hs₁ : k₁.stampLeft <;> cases hs₂ : k₂.stampLeft <;> rw [hs₁, hs₂] at hb <;>
      first | rfl | exact absurd hb (by decide)
  · intro h
    rw [h]

/-- Init creates an endpoint, marks it, deletes its only cap, and creates another one. -/
def stampScript : List Action :=
  [ .syscall .epCreate initThread ⟨0, 0, 0, 0, 0, 0⟩,
    .syscall .epSetStampIdentity initThread ⟨3, 1, 0, 0, 0, 0⟩,
    .syscall .capDelete initThread ⟨3, 0, 0, 0, 0, 0⟩,
    .syscall .epCreate initThread ⟨0, 0, 0, 0, 0, 0⟩ ]

def stampRun : Run step 4 :=
  Run.ofList step (boot smallMachine) (.dispatch 0) stampScript (by decide +kernel)

/-- The first and the second endpoint of this run are put into one slot, with different marks. -/
theorem fresh_endpoint_alike_stamped :
    (stampRun.state 0).createEndpoint.1 ≠ 0 ∧ (stampRun.state 3).createEndpoint.1 ≠ 0 ∧
    ((stampRun.state 0).createEndpoint.2.endpointView (stampRun.state 0).createEndpoint.1 =
        (stampRun.state 3).createEndpoint.2.endpointView (stampRun.state 3).createEndpoint.1 ↔
      (stampRun.state 0).stampLeft = (stampRun.state 3).stampLeft) := by
  have h0 : (stampRun.state 0).createEndpoint.1 ≠ 0 := by decide +kernel
  have h3 : (stampRun.state 3).createEndpoint.1 ≠ 0 := by decide +kernel
  exact ⟨h0, h3, fresh_endpoint_alike_iff _ _ _ _ _ _ rfl h0 rfl h3⟩

/-- The second endpoint has the slot of the first one, and an unbadged cap on it surfaces the id of
    init's process, where one on the first surfaced badge 0. -/
theorem fresh_endpoint_inherits_mark :
    stampRun.state 0 = boot smallMachine ∧
    (stampRun.state 3).createEndpoint.1 = (stampRun.state 0).createEndpoint.1 ∧
    (stampRun.state 3).createEndpoint.1 ≠ 0 ∧
    ((stampRun.state 1).resolveEndpoint initThread 3 sendRight).toOption = some (64, 0) ∧
    ((stampRun.state 4).resolveEndpoint initThread 3 sendRight).toOption = some (64, 3) ∧
    (stampRun.state 3).createEndpoint.2.endpointView 64 ≠
      (stampRun.state 0).createEndpoint.2.endpointView 64 := by
  have hfacts : (stampRun.state 3).createEndpoint.1 = (stampRun.state 0).createEndpoint.1 ∧
      (stampRun.state 3).createEndpoint.1 ≠ 0 ∧
      ((stampRun.state 1).resolveEndpoint initThread 3 sendRight).toOption = some (64, 0) ∧
      ((stampRun.state 4).resolveEndpoint initThread 3 sendRight).toOption = some (64, 3) ∧
      ((stampRun.state 3).createEndpoint.2.endpointView 64).badge 0 3 ≠
        ((stampRun.state 0).createEndpoint.2.endpointView 64).badge 0 3 := by
    decide +kernel
  obtain ⟨h1, h2, h3, h4, h5⟩ := hfacts
  exact ⟨rfl, h1, h2, h3, h4, fun h => h5 (congrFun (congrFun (congrArg EndpointView.badge h) 0) 3)⟩

end State

end Aegir.Kernel
