/-
  Nobody who waits for an interrupt is forgotten: whole runs.

  DELIVERY walks the chain of a source: every line of it is poked once, and whoever slept there is ready in the
  end.  The DEATH of a thread takes it off every line.  With the laws of the calls these give the step law, and
  the step law gives the run law, under the conditions of `Safe`.
-/
import Aegir.Laws.IrqWaits
import Aegir.Laws.SlotCases

namespace Aegir.Kernel

open Aegir.Lib List

namespace State

variable {k k' : State} {o t : Nat} {kernelHandled : Nat → Bool}

/-! ## Delivery -/

theorem wake_ready (ht : t ≠ 0) (h : (k.tcb t).state = .blockedIrq ∨ (k.tcb t).state = .ready) :
    ((k.wake t).tcb t).state = .ready := by
  unfold wake
  rw [if_neg ht]
  rcases h with h | h
  · rw [h]
    simp [modTcb]
  · rw [h]
    exact h

/-- **What poking one line does**: the line is in flight without a waiter, threads become ready, and the
    waiter does if it slept there. -/
structure Poked (o : Nat) (k k' : State) : Prop where
  self : k'.device o = { k.device o with pending := true, inFlight := true, waiter := 0 }
  device : ∀ q, q ≠ o → k'.device q = k.device q
  lines : k'.lines = k.lines
  slab : k'.deviceSlab = k.deviceSlab
  state : ∀ u, (k'.tcb u).state = (k.tcb u).state ∨ (k'.tcb u).state = .ready
  woken : (k.device o).waiter ≠ 0 → (k.tcb (k.device o).waiter).state = .blockedIrq →
    (k'.tcb (k.device o).waiter).state = .ready

theorem deliverLine_poked (k : State) (o : Nat) : Poked o k (k.deliverLine o) := by
  unfold deliverLine
  dsimp only
  -- the flags are set, and a bound notification is signalled
  have hset : (k.modDevice o fun d => { d with pending := true, inFlight := true }).device o =
      { k.device o with pending := true, inFlight := true } := modDevice_self _ _ _
  have hothers : ∀ q, q ≠ o → (k.modDevice o fun d =>
      { d with pending := true, inFlight := true }).device q = k.device q := fun q hq => modDevice_ne _ _ hq
  have hlines : (k.modDevice o fun d => { d with pending := true, inFlight := true }).lines = k.lines := rfl
  have hslab : (k.modDevice o fun d => { d with pending := true, inFlight := true }).deviceSlab = k.deviceSlab := rfl
  have htcb : (k.modDevice o fun d => { d with pending := true, inFlight := true }).tcb = k.tcb := rfl
  generalize k.modDevice o (fun d => { d with pending := true, inFlight := true }) = k₁ at hset hothers hlines hslab htcb ⊢
  have hnudge : Nudges k₁ (if (k₁.device o).ntfn ≠ 0 then k₁.signal (k₁.device o).ntfn (k₁.device o).ntfnBadge
      else k₁) := by
    split
    · exact .signal _ _ _
    · exact .refl _
  generalize (if (k₁.device o).ntfn ≠ 0 then k₁.signal (k₁.device o).ntfn (k₁.device o).ntfnBadge else k₁) = k₂
    at hnudge ⊢
  have hself2 : k₂.device o = { k.device o with pending := true, inFlight := true } := by rw [hnudge.device, hset]
  have hdev2 : ∀ q, q ≠ o → k₂.device q = k.device q := by
    intro q hq
    rw [hnudge.device]
    exact hothers q hq
  have hstate2 : ∀ u, (k₂.tcb u).state = (k.tcb u).state ∨ (k₂.tcb u).state = .ready := by
    intro u
    have hu := hnudge.state u
    rwa [htcb] at hu
  have hwaiter : (k₂.device o).waiter = (k.device o).waiter := by rw [hself2]
  split_ifs with hw
  · have hwake := Nudges.wake k₂ (k₂.device o).waiter
    have hready : (k.tcb (k.device o).waiter).state = .blockedIrq →
        ((k₂.wake (k₂.device o).waiter).tcb (k.device o).waiter).state = .ready := by
      intro hb
      rw [hwaiter] at hw ⊢
      refine wake_ready hw ?_
      rcases hstate2 (k.device o).waiter with e | e
      · exact .inl (e.trans hb)
      · exact .inr e
    refine ⟨?_, fun q hq => ?_, ?_, ?_, fun u => ?_, fun _ hb => hready hb⟩
    · rw [modDevice_self, hwake.device, hself2]
    · rw [modDevice_ne _ _ hq, hwake.device]
      exact hdev2 q hq
    · exact hwake.lines.trans (hnudge.lines.trans hlines)
    · exact hwake.slab.trans (hnudge.slab.trans hslab)
    · rcases hwake.state u with e | e
      · rcases hstate2 u with e' | e'
        · exact .inl (e.trans e')
        · exact .inr (e.trans e')
      · exact .inr e
  · have hzero : (k.device o).waiter = 0 := by
      rw [← hwaiter]
      exact not_not.mp hw
    refine ⟨?_, hdev2, hnudge.lines.trans hlines, hnudge.slab.trans hslab, hstate2, fun hne => absurd hzero hne⟩
    rw [hself2, ← hzero]

theorem Poked.law (hp : Poked o k k') (h : IrqLaw kernelHandled 0 k) : IrqLaw kernelHandled 0 k' := by
  refine h.renewed hp.self (fun _ => rfl) hp.device hp.lines hp.slab fun u hu => .inl ?_
  have hb : (k.tcb u).state = .blockedIrq := by
    rcases hp.state u with e | e
    · exact e.symm.trans hu
    · rw [e] at hu
      cases hu
  refine ⟨hb, ?_⟩
  rintro rfl
  have hne := (h.waits _ hb).1
  rw [hp.woken hne hb] at hu
  cases hu

/-- **The walk along a chain** keeps the law, and whoever slept on a line of it is ready. -/
theorem deliverChain_spec {l : List Nat} {cur n : Nat} (h : IrqLaw kernelHandled 0 k)
    (hl : IsChain 0 (fun o => (k.device o).next) cur l) (hn : l.length ≤ n) :
    IrqLaw kernelHandled 0 (k.deliverChain cur n) ∧ (∀ u, ((k.deliverChain cur n).tcb u).state = (k.tcb u).state ∨
        ((k.deliverChain cur n).tcb u).state = .ready) ∧
      ∀ o ∈ l, (k.tcb (k.device o).waiter).state = .blockedIrq →
        ((k.deliverChain cur n).tcb (k.device o).waiter).state = .ready := by
  induction n generalizing k cur l with
  | zero =>
    have hnil : l = [] := length_eq_zero_iff.mp (by omega)
    subst hnil
    exact ⟨h, fun _ => .inl rfl, fun _ ho => absurd ho not_mem_nil⟩
  | succ n ih =>
    cases l with
    | nil =>
      have h0 : cur = 0 := hl
      have hstop : k.deliverChain cur (n + 1) = k := if_pos h0
      rw [hstop]
      exact ⟨h, fun _ => .inl rfl, fun _ ho => absurd ho not_mem_nil⟩
    | cons y ys =>
      have hnot := (nodup_cons.mp hl.nodup).1
      obtain ⟨rfl, h0, hrest⟩ := hl
      have hgo : k.deliverChain cur (n + 1) =
          (k.deliverLine cur).deliverChain ((k.deliverLine cur).device cur).next n := if_neg h0
      have hp := deliverLine_poked k cur
      rw [hgo]
      generalize k.deliverLine cur = k₁ at hp ⊢
      have hnext : (k₁.device cur).next = (k.device cur).next := by rw [hp.self]
      have hkeep : ∀ q ∈ ys, k₁.device q = k.device q := by
        intro q hq
        exact hp.device q fun e => hnot (e ▸ hq)
      have hl1 : IsChain 0 (fun o => (k₁.device o).next) (k₁.device cur).next ys := by
        rw [hnext]
        exact IsChain.congr hrest fun q hq => by rw [hkeep q hq]
      obtain ⟨hlaw, hstate, hwoken⟩ := ih (hp.law h) hl1 (by simpa using hn)
      refine ⟨hlaw, fun u => ?_, fun q hq hb => ?_⟩
      · rcases hstate u with e | e
        · rw [e]
          exact hp.state u
        · exact .inr e
      · -- whoever is ready after the head of the chain stays so
        have hafter : (k₁.tcb (k.device q).waiter).state = .ready →
            ((k₁.deliverChain (k₁.device cur).next n).tcb (k.device q).waiter).state = .ready := by
          intro hr
          rcases hstate (k.device q).waiter with e | e
          · exact e.trans hr
          · exact e
        rcases mem_cons.mp hq with rfl | hq
        · exact hafter (hp.woken (h.waits _ hb).1 hb)
        · rcases hp.state (k.device q).waiter with e | e
          · rw [← hkeep q hq] at hb e ⊢
            exact hwoken q hq (e.trans hb)
          · exact hafter e

/-- **`Deliver`** keeps the law, and whoever slept on a line of the source is ready. -/
theorem deliver_spec (h : IrqLaw kernelHandled 0 k) (source : Nat) : IrqLaw kernelHandled 0 (k.deliver source) ∧
      ∀ o, Line 0 k o → k.sourceOf o = source → (k.tcb (k.device o).waiter).state = .blockedIrq →
        ((k.deliver source).tcb (k.device o).waiter).state = .ready := by
  unfold deliver
  split_ifs with hs
  · refine ⟨h, fun o ho hsrc _ => ?_⟩
    have hlt := h.sources o ho
    omega
  · obtain ⟨l, hl, hmem⟩ := h.chain source (by omega)
    obtain ⟨hlaw, -, hwoken⟩ := deliverChain_spec h hl (Chained.length_le hl hmem)
    exact ⟨hlaw, fun o ho hsrc hb => hwoken o ((hmem o).mpr ⟨ho, hsrc⟩) hb⟩

theorem deliverFrom_law (h : IrqLaw kernelHandled 0 k) (source : Nat) :
    IrqLaw kernelHandled 0 (k.deliverFrom kernelHandled source) := by
  unfold deliverFrom
  split
  · exact h
  · exact (deliver_spec h source).1

/-! ## The death of a thread -/

/-- Lines whose waiter is the thread may lose it, nothing else happens. -/
structure Clears (t : Nat) (k k' : State) : Prop where
  same : k' = { k with device := k'.device }
  device : ∀ q, k'.device q = { k.device q with waiter := (k'.device q).waiter }
  waiter : ∀ q, (k'.device q).waiter = (k.device q).waiter ∨
    ((k.device q).waiter = t ∧ (k'.device q).waiter = 0)

namespace Clears

theorem refl (t : Nat) (k : State) : Clears t k k := ⟨rfl, fun _ => rfl, fun _ => .inl rfl⟩

theorem trans {k'' : State} (h : Clears t k k') (h' : Clears t k' k'') : Clears t k k'' := by
  refine ⟨?_, fun q => ?_, fun q => ?_⟩
  · rw [h'.same, h.same]
  · rw [h'.device q, h.device q]
  · rcases h.waiter q with e | ⟨e, e'⟩
    · rcases h'.waiter q with w | ⟨w, w'⟩
      · exact .inl (w.trans e)
      · exact .inr ⟨e.symm.trans w, w'⟩
    · rcases h'.waiter q with w | ⟨-, w'⟩
      · exact .inr ⟨e, w.trans e'⟩
      · exact .inr ⟨e, w'⟩

theorem law (hc : Clears t k k') (h : IrqLaw kernelHandled 0 k) :
    IrqLaw kernelHandled 0 (k'.modTcb t fun c => { c with state := .dead }) := by
  generalize hk'' : (k'.modTcb t fun c => { c with state := .dead }) = k''
  have hdev : k''.device = k'.device := by
    rw [← hk'']
    rfl
  have hslab : k''.deviceSlab = k.deviceSlab := by
    rw [← hk'']
    show k'.deviceSlab = _
    rw [hc.same]
  have hlines : k''.lines = k.lines := by
    rw [← hk'']
    show k'.lines = _
    rw [hc.same]
  -- the dead thread sleeps nowhere
  have hstate : ∀ u, (k''.tcb u).state = .blockedIrq → (k.tcb u).state = .blockedIrq ∧ u ≠ t := by
    intro u hu
    rw [← hk''] at hu
    by_cases hut : u = t
    · subst hut
      simp [modTcb] at hu
    · refine ⟨?_, hut⟩
      have hu : (k'.tcb u).state = .blockedIrq := by simpa [modTcb, hut] using hu
      rw [hc.same] at hu
      exact hu
  have hs : SameLines 0 k 0 k'' := by
    refine .of_shape 0 hlines hslab fun q => ?_
    rw [hdev, hc.device q]
    exact ⟨rfl, rfl, rfl⟩
  refine ⟨h.toChained.same hs (hslab ▸ h.nodup) (hslab ▸ h.range), fun q hq => ?_, fun q hq hf => ?_, fun u hu => ?_⟩
  · rw [hdev, hc.device q]
    exact h.level q ((hs.line q).mp hq)
  · rw [hdev, hc.device q] at hf
    rw [hdev]
    have hz := h.flight q ((hs.line q).mp hq) hf
    rcases hc.waiter q with e | ⟨-, e⟩
    · exact e.trans hz
    · exact e
  · obtain ⟨hb, hut⟩ := hstate u hu
    obtain ⟨h0, q, hq, hw, hsrc⟩ := h.waits u hb
    refine ⟨h0, q, (hs.line q).mpr hq, ?_, ?_⟩
    · rw [hdev]
      rcases hc.waiter q with e | ⟨e, -⟩
      · exact e.trans hw
      · exact absurd (hw.symm.trans e) hut
    · rw [hs.source q hq]
      exact hsrc

end Clears

theorem clearLineWaiters_clears (k : State) (t cur n : Nat) : Clears t k (k.clearLineWaiters t cur n) := by
  induction n generalizing k cur with
  | zero => exact .refl t k
  | succ n ih =>
    unfold clearLineWaiters
    split
    · exact .refl t k
    · dsimp only
      have hone : Clears t k (if (k.device cur).waiter = t then k.modDevice cur fun d => { d with waiter := 0 }
          else k) := by
        split
        · rename_i hw
          refine ⟨rfl, fun q => ?_, fun q => ?_⟩
          · by_cases hq : q = cur
            · subst hq
              rw [modDevice_self]
            · rw [modDevice_ne _ _ hq]
          · by_cases hq : q = cur
            · subst hq
              rw [modDevice_self]
              exact .inr ⟨hw, rfl⟩
            · rw [modDevice_ne _ _ hq]
              exact .inl rfl
        · exact .refl t k
      exact hone.trans (ih _ _)

theorem cleanupIrqThread_clears (k : State) (t : Nat) : Clears t k (k.cleanupIrqThread t) := by
  have hfold : ∀ (sources : List Nat) (j : State), Clears t j
      (sources.foldl (fun j source => j.clearLineWaiters t (j.lines source) j.deviceSlab.carved) j) := by
    intro sources
    induction sources with
    | nil => exact fun j => .refl t j
    | cons source sources ih =>
      intro j
      exact (clearLineWaiters_clears j t _ _).trans (ih _)
  unfold cleanupIrqThread
  split
  · exact .refl t k
  · exact hfold _ k

/-! ## Steps -/

/-- **What keeps waiters from being forgotten**: nobody waits on a source that the kernel handles, nobody
    acknowledges a line on which a thread sleeps, and nobody closes the last cap on such a line. -/
def Safe (kernelHandled : Nat → Bool) (k : State) : IrqAction → Prop
  | .wait t f => ∀ line, k.lookupLine t f.a0 Rights.wait = some line → kernelHandled (k.sourceOf line) = false
  | .ack t f => ∀ line, k.lookupLine t f.a0 Rights.ack = some line → k.Quiet line
  | .close t cap _ => ∀ e, (k.capsOf t).lookup cap = some e → (k.device e.object).kind = .irq →
      (k.device e.object).count ≤ 1 → k.Quiet e.object
  | _ => True

/-- **The step law.** -/
theorem IrqStep.law {a : IrqAction} (hstep : IrqStep kernelHandled k a k') (hsafe : Safe kernelHandled k a)
    (h : IrqLaw kernelHandled 0 k) : IrqLaw kernelHandled 0 k' := by
  cases hstep with
  | create f hrun => exact handleIrqCreate_law h _ f
  | createMsi f vector hrun => exact handleIrqMsiCreate_law h _ f vector
  | ioMap f hrun => exact handleIoMap_law h _ f
  | copy t he => exact (insertCap_elsewhere k t _ _ _ _).law h
  | wait f hrun hcap => exact handleIrqWait_law h hrun f hcap hsafe
  | ack f hrun hcap => exact handleIrqAck_law h f hsafe
  | interrupt source => exact deliverFrom_law h source
  | close dying hawake hcap => exact closeCap_law h dying hawake hcap hsafe
  | die t => exact (cleanupIrqThread_clears k t).law h
  | elsewhere he => exact h.elsewhere he

/-! ## Runs -/

theorem setupInit_law (c : BootConfig) : IrqLaw kernelHandled 0 ((bare c).setupInit c) := by
  have hnone : ∀ o, ¬ Line 0 ((bare c).setupInit c) o := by
    rintro o ⟨⟨h1, h2, -⟩, -, -⟩
    have h2 : o ≤ 0 := h2
    omega
  refine ⟨⟨nodup_nil, fun o ho => absurd ho not_mem_nil, fun o ho => absurd ho (hnone o), fun s _ => ?_⟩,
    fun o ho => absurd ho (hnone o), fun o ho => absurd ho (hnone o), fun t ht => ?_⟩
  · exact ⟨[], rfl, fun o => ⟨fun ho => absurd ho not_mem_nil, fun ho => absurd ho.1 (hnone o)⟩⟩
  · by_cases hi : t = initThread
    · subst hi
      simp [setupInit, initializeThread, modTcb] at ht
    · simp [setupInit, initializeThread, initializeProcess, modTcb, modPcb, hi, bare, blankTcb] at ht

theorem boot_law (c : BootConfig) : IrqLaw kernelHandled 0 (boot c) :=
  boot_ind (fun k cap o kind rights badge _ _ h =>
    (insertProcessCapAt_elsewhere k initProcess cap kind o rights badge).law h) c (setupInit_law c)

/-- The states of the runs from boot whose steps are all allowed. -/
inductive IrqReached (kernelHandled : Nat → Bool) (allowed : State → IrqAction → Prop) (c : BootConfig) : State → Prop
  | boot : IrqReached kernelHandled allowed c (boot c)
  | step {k k' : State} {a : IrqAction} (hr : IrqReached kernelHandled allowed c k) (ha : allowed k a)
    (hstep : IrqStep kernelHandled k a k') : IrqReached kernelHandled allowed c k'

theorem IrqReached.mono {allowed allowed' : State → IrqAction → Prop} {c : BootConfig}
    (hsub : ∀ k a, allowed k a → allowed' k a) (hr : IrqReached kernelHandled allowed c k) :
    IrqReached kernelHandled allowed' c k := by
  induction hr with
  | boot => exact .boot
  | step hr ha hstep ih => exact .step ih (hsub _ _ ha) hstep

/-- **The run law.** -/
theorem IrqReached.law {c : BootConfig} (hr : IrqReached kernelHandled (Safe kernelHandled) c k) :
    IrqLaw kernelHandled 0 k := by
  induction hr with
  | boot => exact boot_law c
  | step hr hsafe hstep ih => exact hstep.law hsafe ih

/-- The line is in the chain of its source. -/
def Registered (k : State) (o : Nat) : Prop :=
  k.sourceOf o < maxSources ∧ ∃ l, IsChain 0 (fun o => (k.device o).next) (k.lines (k.sourceOf o)) l ∧ o ∈ l

theorem registered_iff (h : Chained 0 k) : k.Registered o ↔ Line 0 k o := by
  constructor
  · rintro ⟨hs, l, hl, ho⟩
    obtain ⟨l', hl', hmem⟩ := h.chain _ hs
    rw [hl.unique hl'] at ho
    exact ((hmem o).mp ho).1
  · intro ho
    have hs := h.sources o ho
    obtain ⟨l, hl, hmem⟩ := h.chain _ hs
    exact ⟨hs, l, hl, (hmem o).mpr ⟨ho, rfl⟩⟩

/-- The flags of every line agree, and whoever waits for an interrupt is woken by the next delivery of its
    source. -/
def NoneStranded (kernelHandled : Nat → Bool) (k : State) : Prop :=
  (∀ o, k.Registered o → (k.device o).pending = (k.device o).inFlight) ∧
  ∀ t, (k.tcb t).state = .blockedIrq → ∃ o, k.Registered o ∧ (k.device o).waiter = t ∧
    ((k.deliverFrom kernelHandled (k.sourceOf o)).tcb t).state = .ready

/-- **No waiter is stranded** in any run whose steps are all safe. -/
theorem irq_waiters_reachable {c : BootConfig} (hr : IrqReached kernelHandled (Safe kernelHandled) c k) :
    NoneStranded kernelHandled k := by
  have h := hr.law
  refine ⟨fun o ho => h.level o ((registered_iff h.toChained).mp ho), fun t ht => ?_⟩
  obtain ⟨-, o, ho, rfl, hsrc⟩ := h.waits t ht
  refine ⟨o, (registered_iff h.toChained).mpr ho, rfl, ?_⟩
  unfold deliverFrom
  rw [if_neg (by rw [hsrc]; simp)]
  exact (deliver_spec h _).2 o ho rfl ht

/-! ## A line with two holders -/

theorem Paged.elsewhere (h : Paged k k') : Elsewhere k k' := by
  rw [h.same]
  exact .of_eq rfl rfl rfl rfl

/-- A spawn that succeeds lets the lines alone: its grants count references. -/
theorem handleSpawn_elsewhere {cur : Nat} (cap : Nat) {f : TrapFrame} (hcap : decodeHandle f.a0 = some cap)
    (hok : (k.spawnBootImage cur cap f.a1).1 = .ok) : Elsewhere k (k.handleSpawn cur f) := by
  have hout := spawnBootImage_outcome k cur cap f.a1
  unfold handleSpawn
  rw [hcap]
  dsimp only
  generalize k.spawnBootImage cur cap f.a1 = r at hout hok ⊢
  refine Elsewhere.trans ?_ ((Elsewhere.setA0 _ _ _).trans (.modTcb _ _ _ id))
  cases hout with
  | refused bad => exact absurd hok bad
  | unbuilt | unseated => cases hok
  | @seated _ _ slot root buffer stack _ _ k₁ k₂ k₃ _ free build init grant ending =>
    cases ending with
    | ungranted bad => exact absurd hok bad
    | unheld => cases hok
    | @spawned _ k₄ hold =>
      have hinit : Elsewhere k₁ (k₁.initializeSlotProcess cur slot root).2 := by
        unfold initializeSlotProcess installAddressSpaceCap
        dsimp only
        split <;> exact .of_eq rfl rfl rfl rfl
      have hseat : Elsewhere k₂ (k₂.seatThread slot buffer stack) := by
        refine ⟨fun _ => rfl, rfl, rfl, fun u hu => ?_⟩
        by_cases hut : u = slotAddress slot
        · subst hut
          simp [seatThread, initializeSlotThread, initializeThread, modTcb] at hu
        · simpa [seatThread, initializeSlotThread, initializeThread, modTcb, hut] using hu
      have hgrant : Elsewhere (k₂.seatThread slot buffer stack)
          ((k₂.seatThread slot buffer stack).grantListCaps cur (slotAddress slot) f.a1).2 :=
        grantListCaps_keeps (.refl _) fun j _ _ _ _ _ hj _ _ _ _ => hj.trans (insertProcessCapAt_elsewhere ..)
      have hhold := insertCap_elsewhere (k₃.reviveProcess slot) cur .processObject (slotAddress slot) processRights
        (UInt64.ofNat ((k₃.reviveProcess slot).pcb (slotAddress slot)).id)
      rw [init] at hinit
      rw [grant] at hgrant
      rw [show (k₃.reviveProcess slot).insertCap cur .processObject (slotAddress slot) processRights _ = _ from hold]
        at hhold
      have hrevive : Elsewhere k₃ (k₃.reviveProcess slot) := .of_eq rfl rfl rfl rfl
      have hcommit : Elsewhere k₄ (k₄.commitSlot slot) :=
        Elsewhere.trans (.modTcb k₄ _ (fun c => { c with state := .ready }) fun h => by cases h)
          (.of_eq rfl rfl rfl rfl)
      exact (built_paged build).elsewhere.trans (hinit.trans (hseat.trans (hgrant.trans (hrevive.trans
        (hhold.trans hcommit)))))

/-- Init creates a line for source 5 with its device authority, as its cap 4, and spawns a process to which it grants
    the line; it waits on the line, and the process, which holds it as its cap 1, acknowledges it. -/
def createRequest : TrapFrame := ⟨2, 5, 0, 0, 0, 0⟩
def spawnRequest : TrapFrame := ⟨1, 1, 0, 0, 0, 0⟩
def waitRequest : TrapFrame := ⟨4, 0, 0, 0, 0, 0⟩
def ackRequest : TrapFrame := ⟨1, 0, 0, 0, 0, 0⟩

/-- The thread of the new process. -/
def childThread : Nat := 1

/-- The states of this run; the grant is with Wait and Ack. -/
def lineCreated : State := (boot imageMachine).handleIrqCreate initThread createRequest
def grantWritten : State :=
  { lineCreated with memory := Function.update lineCreated.memory imageMachine.ipcBuffer (grantPage 4 192) }
def childSpawned : State := grantWritten.handleSpawn initThread spawnRequest
def childRuns : State := childSpawned.modTcb childThread fun c => { c with state := .running }
def lineAwaited : State := childRuns.handleIrqWait initThread waitRequest
def lineAcked : State := lineAwaited.handleIrqAck childThread ackRequest

theorem lineAwaited_reached : IrqReached (fun _ => false) (Safe fun _ => false) imageMachine lineAwaited := by
  have hcreate : IrqStep (fun _ => false) (boot imageMachine) (.create initThread createRequest) lineCreated :=
    .create _ ⟨by decide, by decide +kernel⟩
  have hwrite : IrqStep (fun _ => false) lineCreated .elsewhere grantWritten := .elsewhere (.of_eq rfl rfl rfl rfl)
  have hspawn : IrqStep (fun _ => false) grantWritten .elsewhere childSpawned :=
    .elsewhere (handleSpawn_elsewhere 1 (by decide) (by decide +kernel))
  have hdispatch : IrqStep (fun _ => false) childSpawned .elsewhere childRuns :=
    .elsewhere (.modTcb _ _ _ fun h => by cases h)
  have hwait : IrqStep (fun _ => false) childRuns (.wait initThread waitRequest) lineAwaited := by
    refine .wait _ ⟨by decide, by decide +kernel⟩ fun line hline => ?_
    have h42 : childRuns.lookupLine initThread waitRequest.a0 Rights.wait = some 42 := by decide +kernel
    obtain rfl : 42 = line := Option.some.inj (h42.symm.trans hline)
    decide +kernel
  refine .step (.step (.step (.step (.step .boot ?_ hcreate) ?_ hwrite) ?_ hspawn) ?_ hdispatch) ?_ hwait
  · exact trivial
  · exact trivial
  · exact trivial
  · exact trivial
  · exact fun _ _ => rfl

/-- Init sleeps, and the next interrupt of its source wakes it. -/
theorem irq_waiters_reachable_asleep : (lineAwaited.tcb initThread).state = .blockedIrq ∧
    NoneStranded (fun _ => false) lineAwaited :=
  ⟨by decide +kernel, irq_waiters_reachable lineAwaited_reached⟩

theorem handleIrqAck_chained (h : Chained 0 k) (t : Nat) (f : TrapFrame) : Chained 0 (k.handleIrqAck t f) := by
  have hmod : ∀ (line : Nat) (g : DeviceSlot → DeviceSlot) (v : U64),
      (∀ d, (g d).kind = d.kind ∧ (g d).source = d.source ∧ (g d).next = d.next) →
      Chained 0 ((k.modDevice line g).setA0 t v) := by
    intro line g v hg
    refine h.same (.of_shape 0 rfl rfl fun q => ?_) h.nodup h.range
    show ((k.modDevice line g).device q).kind = _ ∧ ((k.modDevice line g).device q).source = _ ∧
      ((k.modDevice line g).device q).next = _
    by_cases hq : q = line
    · subst hq
      rw [modDevice_self]
      exact hg _
    · rw [modDevice_ne _ _ hq]
      exact ⟨rfl, rfl, rfl⟩
  unfold handleIrqAck
  cases k.lookupLine t f.a0 Rights.ack with
  | none => exact h.same (.of_shape 0 rfl rfl fun _ => ⟨rfl, rfl, rfl⟩) h.nodup h.range
  | some line =>
    unfold irqAck
    dsimp only
    split_ifs with hf
    · exact hmod line (fun d => { d with pending := false, waiter := 0 }) 2 fun _ => ⟨rfl, rfl, rfl⟩
    · exact hmod line (fun d => { d with pending := false, inFlight := false, waiter := 0 }) 0
        fun _ => ⟨rfl, rfl, rfl⟩

/-- **The acknowledgement strands init**: nothing was in flight, and no line has it as its waiter any more. -/
theorem irq_ack_strands : ¬ ∀ (kernelHandled : Nat → Bool) (c : BootConfig) (k : State),
    IrqReached kernelHandled (fun _ _ => True) c k → NoneStranded kernelHandled k := by
  intro hall
  have hack : IrqStep (fun _ => false) lineAwaited (.ack childThread ackRequest) lineAcked := by
    refine .ack _ ⟨by decide, by decide +kernel⟩ fun line hline => ?_
    have h42 : lineAwaited.lookupLine childThread ackRequest.a0 Rights.ack = some 42 := by decide +kernel
    obtain rfl : 42 = line := Option.some.inj (h42.symm.trans hline)
    decide +kernel
  have hreached : IrqReached (fun _ => false) (fun _ _ => True) imageMachine lineAwaited :=
    lineAwaited_reached.mono (fun _ _ _ => trivial)
  obtain ⟨-, hwaits⟩ := hall (fun _ => false) imageMachine lineAcked (.step hreached trivial hack)
  obtain ⟨o, ho, hw, -⟩ := hwaits initThread (by decide +kernel)
  have hchained : Chained 0 lineAcked := handleIrqAck_chained lineAwaited_reached.law.toChained _ _
  obtain ⟨⟨h1, h2, -⟩, -, -⟩ := (registered_iff hchained).mp ho
  have hcarved : lineAcked.deviceSlab.carved = devicesPerFrame := by decide +kernel
  have hnone : ∀ q < devicesPerFrame + 1, (lineAcked.device q).waiter ≠ initThread := by decide +kernel
  exact hnone o (by omega) hw

end State

end Aegir.Kernel
