/-
  The four IPC system calls keep the law of who waits where.

  In a hand-over TWO threads move: the receiver wakes and the caller blocks.  In between the caller
  awaits a reply while it is still running, which no state between two system calls shows; the lemmas
  here describe the whole move at once.
-/
import Aegir.Laws.IpcWaits

namespace Aegir.Kernel

open Aegir.Lib Roster Ledger Function

namespace State

variable {k : State} {fresh : Option (Pool × Nat)} {o t cur caller receiver : Nat}

/-! ## Resolving an endpoint -/

variable {badge : U64} {cap h : Nat} {needed : Rights}

theorem resolveEndpoint_ok (h : k.resolveEndpoint caller cap needed = .ok (o, badge)) :
    ∃ e, k.lookupCap caller cap = some e ∧ e.kind = .endpointObject ∧ e.object = o ∧ o ≠ 0 ∧
      hasRights e.rights needed = true ∧
      badge = if e.badge = 0 ∧ (k.endpoint o).stampIdentity = true then
        UInt64.ofNat (k.pcb (k.tcb caller).process).id else e.badge := by
  unfold resolveEndpoint at h
  split at h
  · cases h
  · split at h
    · cases h
    · rename_i e hlook
      split at h
      · cases h
      · rename_i hkind
        split at h
        · cases h
        · rename_i hrights
          split at h
          · cases h
          · rename_i ho
            refine ⟨e, hlook, not_not.mp hkind, ?_⟩
            split at h
            · rename_i hst
              cases h
              exact ⟨rfl, ho, by simpa using hrights, by rw [if_pos hst]⟩
            · rename_i hst
              cases h
              exact ⟨rfl, ho, by simpa using hrights, by rw [if_neg hst]⟩

theorem not_epFree_of_entry (hL : k.ledger.Counted none) {p : Nat}
    (hv : (k.ledger.entry p h).valid = true) (hk : (k.ledger.entry p h).kind = .endpointObject) :
    ¬ k.EpFree (k.ledger.entry p h).object := by
  have hP : (k.ledger.entry p h).kind.pool = some .endpoint := by rw [hk]; rfl
  obtain ⟨h1, h2⟩ := hL.slot p h .endpoint hv hP
  have hpos := hL.refs_pos hv hP
  rintro (hf | hf)
  · have := ((hL.free .endpoint _ h1 h2).mp hf).1
    omega
  · have h2 : (k.ledger.entry p h).object ≤ k.endpointSlab.carved := h2
    omega

theorem resolveEndpoint_not_free (hL : k.ledger.Counted none) (h : k.resolveEndpoint caller cap needed = .ok (o, badge)) :
    o ≠ 0 ∧ ¬ k.EpFree o := by
  obtain ⟨e, hlook, hk, ho, h0, -⟩ := resolveEndpoint_ok h
  obtain ⟨hent, hv⟩ := lookupCap_eq_some hlook
  have := not_epFree_of_entry hL (by rw [hent]; exact hv) (by rw [hent]; exact hk)
  rw [hent, ho] at this
  exact ⟨h0, this⟩

/-! ## Handing over -/

variable {k₃ k' k₄ : State} {s : IpcStatus} {wanted : Bool}

@[simp] theorem roster_wanting (k : State) (t : Nat) (b : Bool) : (k.wanting t b).roster = k.roster :=
  roster_modTcb_same _ _ _ rfl

@[simp] theorem ledger_wanting (k : State) (t : Nat) (b : Bool) : (k.wanting t b).ledger = k.ledger :=
  ledger_modTcb _ _ _ rfl Iff.rfl rfl

@[simp] theorem endpoint_wanting (k : State) (t : Nat) (b : Bool) : (k.wanting t b).endpoint = k.endpoint := rfl

theorem roster_taking (k : State) (o : Nat) :
    (k.taking o).roster = k.roster.setEp o { k.roster.ep o with receiver := 0 } :=
  roster_modEndpoint _ _ _

@[simp] theorem ledger_taking (k : State) (o : Nat) : (k.taking o).ledger = k.ledger :=
  ledger_modEndpoint _ _ _ rfl

theorem Waits.wanting (hw : k.Waits) (t : Nat) (b : Bool) : (k.wanting t b).Waits :=
  hw.of_eq (by simp) rfl

theorem taking_calms (hw : k.Waits) (o : Nat) : Calms (fun _ => False) k (k.taking o) := by
  refine ⟨?_, fun p _ hf => .inl hf⟩
  rw [roster_taking]
  refine ⟨.unregister hw.sound o, fun p _ hf => .inl ?_⟩
  by_cases hp : p = o
  · subst hp
    simpa using hf
  · simpa [hp] using hf

theorem receiverReady_ne_zero (h : k.receiverReady o = true) : (k.endpoint o).waitingReceiver ≠ 0 := by
  unfold receiverReady at h
  simp only [Bool.and_eq_true, bne_iff_ne, ne_eq] at h
  exact h.1.1.1

theorem handOver_calms (hL : k.ledger.Counted fresh) (hw : k.Waits) (hp : ∀ t, (k.tcb t).process ≤ initProcess)
    (ho : o ≠ 0) (hready : (k.wanting caller wanted).receiverReady o = true)
    (htrans : ((k.wanting caller wanted).taking o).transferMessage caller
      (k.endpoint o).waitingReceiver badge = (s, k₃)) :
    (k.endpoint o).waitingReceiver ≠ 0 ∧ Calms (fun _ => False) k k₃ ∧
      k₃.roster.Detached (k.endpoint o).waitingReceiver ∧
      (k₃.tcb (k.endpoint o).waitingReceiver).state = .blockedReceive := by
  have hr := receiverReady_ne_zero hready
  rw [endpoint_wanting] at hr
  have hreg := hw.sound.receiver o ho hr
  have hw₁ := hw.wanting caller wanted
  have hc1 : Calms (fun _ => False) k (k.wanting caller wanted) := .of_eq hw (by simp) rfl
  have hc2 := taking_calms hw₁ o
  have hd2 : ((k.wanting caller wanted).taking o).roster.Detached (k.endpoint o).waitingReceiver := by
    rw [roster_taking, roster_wanting]
    exact hw.sound.detached_unregister ho hr
  have hled : ((k.wanting caller wanted).taking o).ledger = k.ledger := by simp
  have hc3 := transferMessage_calms (k := (k.wanting caller wanted).taking o) caller hr
    badge (hled ▸ hL) (hc2.waits hw₁) hd2
    (by rw [process_of_ledger_eq hled]; exact hp _)
  rw [htrans] at hc3
  refine ⟨hr, (hc1.trans hc2).trans hc3, hc3.calm.detached hd2, ?_⟩
  have hs := hc3.calm.state_of_detached hd2 id
  rw [roster_taking, roster_wanting] at hs
  exact Eq.trans hs hreg.1

theorem roster_wake_receiver (hr : t ≠ 0) (hs : (k₃.tcb t).state = .blockedReceive)
    (v : U64) : (k₃.wakeWithResult t v).roster = k₃.roster.setThread t (k₃.roster.thread t).woken :=
  roster_wakeWithResult _ v hr (by rw [hs]; rfl)

theorem Waits.of_awaiting (hw : k.Waits) (hd : k.roster.Detached t)
    (hold : (k.tcb t).state ≠ .blockedThreadWait) (hsched : k.roster.Scheduled t) (hs : k'.endpointSlab = k.endpointSlab)
    (hr : k'.roster = k.roster.setThread t
      { k.roster.thread t with state := .blockedSend, awaiting := true }) : k'.Waits :=
  hw.of_setThread hr hs (hw.sound.setThread hd.queuedOn hd.queuedOn
    (fun o ho hr e => absurd e (hd.receiver o ho hr)) (fun _ => .inl rfl) (fun _ _ => hsched)
    (unlisted_of_state hold) (.inl rfl) (hw.sound.bound t))

theorem mintReplyCap_roster (hm : k₃.mintReplyCap receiver caller = (.ok h, k₄)) :
    k₄.roster = k₃.roster.setThread caller { k₃.roster.thread caller with awaiting := true } := by
  unfold mintReplyCap at hm
  have hins := roster_insertCap k₃ receiver .replyObject caller noRights (k₃.tcb caller).replyGeneration
  split at hm
  · cases hm
  · rename_i h' k' hi
    rw [hi] at hins
    cases hm
    rw [roster_modTcb, hins]
    have hx : (k'.tcb caller).ipc = k₃.roster.thread caller :=
      congrFun (congrArg Roster.thread hins) caller
    show k₃.roster.setThread caller { (k'.tcb caller).ipc with awaiting := true } = _
    rw [hx]

/-- A minted reply cap is one new entry, without rights and tagged with the caller's generation. -/
theorem mintReplyCap_inserted (hL : k₃.ledger.Counted fresh) (hm : k₃.mintReplyCap receiver caller = (.ok h, k₄)) :
    k₃.ledger.Inserted k₄.ledger (k₃.tcb receiver).process h
      ⟨true, .replyObject, caller, noRights, (k₃.tcb caller).replyGeneration⟩ := by
  unfold mintReplyCap at hm
  split at hm
  · cases hm
  · rename_i h' k' hi
    cases hm
    rw [ledger_modTcb _ _ _ rfl Iff.rfl rfl]
    exact insertCap_ok hL (fun P hP => by cases hP) hi

/-- The hand-over of a call, up to the block of the caller: the receiver woke and the caller awaits
    its reply. -/
theorem handedOver_roster {r : Nat} (badge : U64)
    (hmint : k₃.mintReplyCap r caller = (.ok h, k₄)) (hr : r ≠ 0) (hne : r ≠ caller)
    (hs : (k₃.tcb r).state = .blockedReceive) :
    ((((k₄.modTcb caller fun c => { c with callBadge := badge }).setA1 r
      (UInt64.ofNat h)).wakeWithResult r resultOk).block caller .blockedSend).roster =
    (k₃.roster.setThread r (k₃.roster.thread r).woken).setThread caller
      { k₃.roster.thread caller with state := .blockedSend, awaiting := true } := by
  have hr4 := mintReplyCap_roster hmint
  have hr5 : ((k₄.modTcb caller fun c => { c with callBadge := badge }).setA1 r
      (UInt64.ofNat h)).roster = k₄.roster := by
    rw [roster_setA1]
    exact roster_modTcb_same _ _ _ rfl
  generalize ((k₄.modTcb caller fun c => { c with callBadge := badge }).setA1 r (UInt64.ofNat h)) = k5 at hr5 ⊢
  rw [hr4] at hr5
  have hs5 : (k5.tcb r).state = .blockedReceive := by
    have := congrArg (fun R => (R.thread r).state) hr5
    simp only [setThread_thread, update_of_ne hne] at this
    exact Eq.trans this hs
  rw [roster_block, roster_wake_receiver hr hs5, hr5]
  refine Roster.ext ?_ rfl rfl rfl rfl
  funext u
  by_cases hu : u = caller
  · subst hu
    simp [Ne.symm hne]
  · by_cases hur : u = r
    · subst hur
      simp [hu]
    · simp [hu, hur]

/-! ## Call and send -/

variable {k₂ : State}

@[simp] theorem roster_setIpcResult (k : State) (t : Nat) (s : IpcStatus) :
    (k.setIpcResult t s).roster = k.roster := roster_setA0 _ _ _

@[simp] theorem ledger_setIpcResult (k : State) (t : Nat) (s : IpcStatus) :
    (k.setIpcResult t s).ledger = k.ledger := ledger_setA0 _ _ _

theorem Waits.setIpcResult (hw : k.Waits) (t : Nat) (s : IpcStatus) : (k.setIpcResult t s).Waits :=
  hw.of_eq (by simp) rfl

theorem Waits.setA0 (hw : k.Waits) (t : Nat) (v : U64) : (k.setA0 t v).Waits :=
  hw.of_eq (by simp) rfl

theorem Waits.setA1 (hw : k.Waits) (t : Nat) (v : U64) : (k.setA1 t v).Waits :=
  hw.of_eq (by simp) rfl

theorem roster_dropStaleReceiver (hw : k.Waits) (ho : o ≠ 0) (h : k.receiverReady o = false) :
    (k.dropStaleReceiver o).roster = k.roster := by
  have h0 : (k.endpoint o).waitingReceiver = 0 := by
    by_contra hr
    obtain ⟨hs, hep⟩ := hw.sound.receiver o ho hr
    have hs : (k.tcb (k.endpoint o).waitingReceiver).state = .blockedReceive := hs
    have hep : (k.tcb (k.endpoint o).waitingReceiver).recvEp = o := hep
    unfold receiverReady isDead at h
    dsimp only at h
    rw [hs, hep] at h
    simp [hr] at h
  unfold dropStaleReceiver
  dsimp only
  rw [h0, if_neg (by simp)]
  exact roster_modEndpoint_same _ _ _ rfl rfl h0.symm rfl

theorem mintReplyCap_slab {r : Except IpcStatus Nat}
    (h : k₃.mintReplyCap receiver caller = (r, k₄)) : k₄.endpointSlab = k₃.endpointSlab := by
  have := endpointSlab_insertCap k₃ receiver .replyObject caller noRights (k₃.tcb caller).replyGeneration
  unfold mintReplyCap at h
  split at h
  · rename_i hi
    rw [hi] at this
    cases h
    exact this
  · rename_i hi
    rw [hi] at this
    cases h
    exact this

theorem mintReplyCap_error (h : k₃.mintReplyCap receiver caller = (.error s, k₄)) :
    k₄.roster = k₃.roster ∧ k₄.endpointSlab = k₃.endpointSlab := by
  refine ⟨?_, mintReplyCap_slab h⟩
  unfold mintReplyCap at h
  have hins := roster_insertCap k₃ receiver .replyObject caller noRights (k₃.tcb caller).replyGeneration
  split at h
  · rename_i s' k' hi
    rw [hi] at hins
    cases h
    exact hins
  · cases h

theorem scheduled_of_running (hw : k.Waits) (hrun : (k.tcb t).state = .running) : k.roster.Scheduled t :=
  hw.sound.scheduled t (by simp [Tcb.ipc, hrun]) (by simp [Tcb.ipc, hrun])

theorem detached_of_running (hw : k.Waits) (hrun : (k.tcb t).state = .running) : k.roster.Detached t :=
  hw.sound.detached_of_state (by simp [Tcb.ipc, hrun]) (by simp [Tcb.ipc, hrun])

theorem Calms.running {A : Nat → Prop} (h : Calms A k k') (hw : k.Waits) (hA : ¬ A t)
    (hrun : (k.tcb t).state = .running) : (k'.tcb t).state = .running :=
  (h.calm.state_of_detached (detached_of_running hw hrun) hA).trans hrun

theorem Waits.block_queued (hw : k.Waits) (hr : k₂.roster = k.roster)
    (hs : k₂.endpointSlab = k.endpointSlab) (ho : o ≠ 0) (hfree : ¬ k.EpFree o) (hcur : cur ≠ 0)
    (hrun : (k.tcb cur).state = .running) (alive : (k.endpoint o).failed = false) (badge : U64) :
    ((k₂.blockCaller o cur badge).2.block cur .blockedSend).Waits ∧
    ((k₂.blockCaller o cur badge).2.block cur .blockedSend).roster = k.roster.enqueue o cur
      { k.roster.thread cur with next := 0, queuedOn := o, state := .blockedSend } := by
  have hw₂ : k₂.Waits := hw.of_eq hr hs
  have hrun2 : (k₂.tcb cur).state = .running :=
    (congrArg (fun R => (R.thread cur).state) hr).trans hrun
  have hf2 : (k₂.endpoint o).failed = false :=
    (congrArg (fun R => (R.ep o).failed) hr).trans alive
  have hfree2 : ¬ k₂.EpFree o := by
    unfold EpFree
    rw [hs]
    exact hfree
  have h := hw₂.block_enqueued ho hcur hrun2 (scheduled_of_running hw₂ hrun2) hf2 hfree2 badge
  rw [hr] at h
  exact h

theorem dropStale_same (hw : k.Waits) (ho : o ≠ 0) (unready : (k.wanting cur wanted).receiverReady o = false) :
    ((k.wanting cur wanted).dropStaleReceiver o).roster = k.roster ∧
    ((k.wanting cur wanted).dropStaleReceiver o).endpointSlab = k.endpointSlab := by
  refine ⟨?_, ?_⟩
  · rw [roster_dropStaleReceiver (hw.wanting cur wanted) ho unready, roster_wanting]
  · refine endpointSlab_of_ledger ?_
    rw [ledger_dropStaleReceiver, ledger_wanting]

theorem endpointSlab_queueSendCopy (k : State) (t : Nat) (badge : U64) :
    (k.queueSendCopy t badge).2.endpointSlab = k.endpointSlab := by
  have h : k.allocQueuedSend.2.endpointSlab = k.endpointSlab := by
    unfold allocQueuedSend
    split <;> rfl
  unfold queueSendCopy
  dsimp only
  split
  · exact h
  · exact h

/-- What a caller or a sender gets of an outcome: it blocks or is told the status. -/
abbrev conclude (cur : Nat) : IpcStatus × State → State
  | (.wouldBlock, k') => k'.block cur .blockedSend
  | (s, k') => k'.setIpcResult cur s

theorem conclude_answer {s : IpcStatus} (hs : s ≠ .wouldBlock) (k' : State) :
    conclude cur (s, k') = k'.setIpcResult cur s := by
  cases s with
  | wouldBlock => exact absurd rfl hs
  | _ => rfl

/-- **A call**: its capability is no handle, or it concludes one of the outcomes. -/
theorem handleIpcCall_cases (k : State) (cur : Nat) (f : TrapFrame) :
    decodeHandle f.a0 = none ∧ k.handleIpcCall cur f = k.setA0 cur resultInvalid ∨
    ∃ cap r, decodeHandle f.a0 = some cap ∧ MessageOutcome k cur cap true r ∧
      k.handleIpcCall cur f = conclude cur r := by
  unfold handleIpcCall
  cases decodeHandle f.a0 with
  | none => exact .inl ⟨rfl, rfl⟩
  | some cap => exact .inr ⟨cap, _, rfl, call_outcome k cur cap, rfl⟩

theorem handleIpcSend_cases (k : State) (cur : Nat) (f : TrapFrame) :
    decodeHandle f.a0 = none ∧ k.handleIpcSend cur f = k.setA0 cur resultInvalid ∨
    ∃ cap r, decodeHandle f.a0 = some cap ∧ MessageOutcome k cur cap false r ∧
      k.handleIpcSend cur f = conclude cur r := by
  unfold handleIpcSend
  cases decodeHandle f.a0 with
  | none => exact .inl ⟨rfl, rfl⟩
  | some cap => exact .inr ⟨cap, _, rfl, send_outcome k cur cap, rfl⟩

theorem conclude_waits {cap : Nat} {wanted : Bool} {r : IpcStatus × State}
    (hout : MessageOutcome k cur cap wanted r) (hL : k.ledger.Counted none) (hw : k.Waits)
    (hp : ∀ t, (k.tcb t).process ≤ initProcess) (hcur : cur ≠ 0)
    (hrun : (k.tcb cur).state = .running) : (conclude cur r).Waits := by
  cases hout with
  | rejected s refusal =>
    rw [conclude_answer refusal.2.1]
    exact hw.setIpcResult _ _
  | gone o badge resolved failed => exact (hw.wanting cur wanted).setIpcResult _ _
  | handed o badge s k₃ r resolved alive ready transfer rest =>
    obtain ⟨ho, -⟩ := resolveEndpoint_not_free hL resolved
    obtain ⟨hr, hc, hd, hs⟩ := handOver_calms hL hw hp ho ready transfer
    have hw3 := hc.waits hw
    have hwake := fun v => hw3.wakeWithResult hd (by rw [hs]; simp) v
    cases rest with
    | refused s failure =>
      rcases failure with rfl | rfl
      · exact (hwake _).setIpcResult _ _
      · exact (hwake _).setIpcResult _ _
    | unminted k₄ mint =>
      obtain ⟨hr4, hs4⟩ := mintReplyCap_error mint
      have hst : (k₄.tcb (k.endpoint o).waitingReceiver).state = .blockedReceive :=
        (congrArg (fun R => (R.thread (k.endpoint o).waitingReceiver).state) hr4).trans hs
      exact ((hw3.of_eq hr4 hs4).wakeWithResult (hr4 ▸ hd) (by rw [hst]; simp)
        resultTransferFailed).setIpcResult _ _
    | called h k₄ mint =>
      have hrun3 := hc.running hw id hrun
      have hne : (k.endpoint o).waitingReceiver ≠ cur := by
        intro e
        rw [e, hrun3] at hs
        cases hs
      have hw' := hwake resultOk
      -- the caller blocks after the receiver woke
      have hcall := handedOver_roster badge mint hr hne hs
      have hr' := roster_wake_receiver hr hs resultOk
      have hself : (k₃.wakeWithResult (k.endpoint o).waitingReceiver resultOk).roster.thread cur =
          k₃.roster.thread cur := by
        rw [hr']
        simp [Ne.symm hne]
      have hcur' : ((k₃.wakeWithResult (k.endpoint o).waitingReceiver resultOk).tcb cur).state =
          .running := (congrArg ThreadIpc.state hself).trans hrun3
      refine hw'.of_awaiting (t := cur) ?_ (by rw [hcur']; simp) ?_ ?_ ?_
      · refine hw'.sound.detached_of_state ?_ ?_
        · rw [hself]; simp [Tcb.ipc, hrun3]
        · rw [hself]; simp [Tcb.ipc, hrun3]
      · refine hw'.sound.scheduled cur ?_ ?_
        · rw [hself]; simp [Tcb.ipc, hrun3]
        · rw [hself]; simp [Tcb.ipc, hrun3]
      · have hslab4 := mintReplyCap_slab mint
        simp [conclude, hslab4, State.setA1, modTcb]
      · rw [hself, hr']
        exact hcall
    | sent =>
      have hw' := (hw3.setA1 (k.endpoint o).waitingReceiver 0).wakeWithResult
        (t := (k.endpoint o).waitingReceiver) (by rw [roster_setA1]; exact hd)
        (by simp [State.setA1, modTcb, hs]) resultOk
      exact hw'.setIpcResult _ _
  | queued o badge r resolved alive unready rest =>
    obtain ⟨ho, hfree⟩ := resolveEndpoint_not_free hL resolved
    obtain ⟨hr2, hs2⟩ := dropStale_same hw ho unready
    cases rest with
    | blocked => exact (hw.block_queued hr2 hs2 ho hfree hcur hrun alive badge).1
    | unpooled =>
      exact (hw.block_queued ((roster_queueSendCopy _ _ _).trans hr2)
        ((endpointSlab_queueSendCopy _ _ _).trans hs2) ho hfree hcur hrun alive badge).1
    | copied =>
      generalize (k.wanting cur false).dropStaleReceiver o = k₂ at hr2 hs2 ⊢
      have hslab : ((k₂.queueSendCopy cur badge).2.appendSend o
          (k₂.queueSendCopy cur badge).1).endpointSlab = k.endpointSlab := by
        refine Eq.trans ?_ ((endpointSlab_queueSendCopy k₂ cur badge).trans hs2)
        exact endpointSlab_of_ledger (by rw [ledger_appendSend])
      refine Waits.setIpcResult (hw.of_eq ?_ hslab) _ _
      rw [roster_appendSend, roster_queueSendCopy, hr2]

theorem handleIpcCall_waits (hL : k.ledger.Counted none) (hw : k.Waits)
    (hp : ∀ t, (k.tcb t).process ≤ initProcess) (hcur : cur ≠ 0)
    (hrun : (k.tcb cur).state = .running) (f : TrapFrame) : (k.handleIpcCall cur f).Waits := by
  obtain ⟨-, he⟩ | ⟨cap, r, -, hout, he⟩ := handleIpcCall_cases k cur f
  · exact he ▸ hw.setA0 _ _
  · exact he ▸ conclude_waits hout hL hw hp hcur hrun

theorem handleIpcSend_waits (hL : k.ledger.Counted none) (hw : k.Waits)
    (hp : ∀ t, (k.tcb t).process ≤ initProcess) (hcur : cur ≠ 0)
    (hrun : (k.tcb cur).state = .running) (f : TrapFrame) : (k.handleIpcSend cur f).Waits := by
  obtain ⟨-, he⟩ | ⟨cap, r, -, hout, he⟩ := handleIpcSend_cases k cur f
  · exact he ▸ hw.setA0 _ _
  · exact he ▸ conclude_waits hout hL hw hp hcur hrun

/-! ## Receive -/

variable {cs : List Nat} {c : Nat} {k₁ : State}

theorem popCaller_waits (hw : k.Waits) (ho : o ≠ 0) (hq : k.roster.Queue o (c :: cs)) :
    (k.popCaller o).Waits ∧ (k.popCaller o).roster.Detached c ∧ ((k.popCaller o).tcb c).state = .blockedSend ∧
      ((k.popCaller o).tcb c).awaitingReply = false ∧
      Detaches c k.roster (k.popCaller o).roster := by
  have hr := roster_popCaller hq
  have hdet : Detaches c k.roster (k.popCaller o).roster := by
    rw [hr]
    exact hw.sound.unlinkAt_detaches ho [] hq
  have hcaller := hw.sound.caller c (by rw [(hq.mem c).mp (by simp)]; exact ho)
  have hc0 : c ≠ 0 := hq.chain.2.1
  have hun := unlinked_unlinkAt k.roster o c 0 (Ne.symm hc0)
  have hep : ∀ p, p ≠ o → (k.popCaller o).roster.ep p = k.roster.ep p := by
    intro p hp
    rw [hr]
    exact hun.ep p hp
  -- an endpoint with a queue is neither failed nor free
  have hbusy : ¬ k.roster.Idle o := fun hi => by
    have := hq.eq_nil_iff.mpr hi.1
    cases this
  refine ⟨⟨hdet.sound, fun p hp hf => ?_, fun p hp hf => ?_⟩, ⟨?_, fun p hp hrp e => ?_⟩,
    hdet.state_eq hcaller.1 (by simp), (hdet.awaiting c).trans hcaller.2, hdet⟩
  · have hpo : p ≠ o := by
      rintro rfl
      rw [hdet.failed] at hf
      exact hbusy (hw.failed p hp hf)
    unfold Idle
    rw [hep p hpo] at hf ⊢
    exact hw.failed p hp hf
  · unfold EpFree at hf
    have hpo : p ≠ o := by
      rintro rfl
      exact hbusy (hw.free p hp hf)
    unfold Idle
    rw [hep p hpo]
    exact hw.free p hp hf
  · rw [hr, hun.thread c]
    exact if_pos rfl
  · have hsr := hdet.sound.receiver p hp hrp
    rw [e, hdet.state_eq hcaller.1 (by simp)] at hsr
    cases hsr.1

theorem Waits.block_registered (hw : k.Waits) (ho : o ≠ 0) (hfree : ¬ k.EpFree o)
    (hrun : (k.tcb cur).state = .running) (alive : (k.endpoint o).failed = false) :
    (((k.modEndpoint o fun e => { e with waitingReceiver := cur }).modTcb cur
      fun c => { c with recvEp := o }).block cur .blockedReceive).Waits ∧
    (((k.modEndpoint o fun e => { e with waitingReceiver := cur }).modTcb cur
      fun c => { c with recvEp := o }).block cur .blockedReceive).roster =
      (k.roster.setThread cur { k.roster.thread cur with recvEp := o, state := .blockedReceive }).setEp
        o { k.roster.ep o with receiver := cur } := by
  have hd := detached_of_running hw hrun
  have hsched := scheduled_of_running hw hrun
  have hr : (((k.modEndpoint o fun e => { e with waitingReceiver := cur }).modTcb cur
      fun c => { c with recvEp := o }).block cur .blockedReceive).roster =
      (k.roster.setThread cur { k.roster.thread cur with recvEp := o, state := .blockedReceive }).setEp
        o { k.roster.ep o with receiver := cur } := by
    rw [roster_block, roster_modTcb, roster_modEndpoint, setThread_setThread, setThread_thread, update_self]
    rfl
  have hs1 : (k.roster.setThread cur { k.roster.thread cur with recvEp := o, state := .blockedReceive }).Sound :=
    hw.sound.setThread hd.queuedOn hd.queuedOn (fun p hp hrp e => absurd e (hd.receiver p hp hrp)) (fun ha => by
        have := hw.sound.awaiting_eq_false (t := cur) (by simp [Tcb.ipc, hrun]) (by simp [Tcb.ipc, hrun])
        rw [this] at ha
        cases ha)
      (fun _ _ => hsched) (unlisted_of_state (by simp [Tcb.ipc, hrun])) (.inl rfl)
      (hw.sound.bound cur)
  refine ⟨⟨?_, fun p hp hf => ?_, fun p hp hf => ?_⟩, hr⟩
  · rw [hr]
    exact hs1.setReceiver (o := o) cur fun _ => by simp
  · have hpo : p ≠ o := by
      rintro rfl
      rw [hr] at hf
      have hf : (k.endpoint p).failed = true := by simpa [Endpoint.ipc] using hf
      rw [alive] at hf
      cases hf
    unfold Idle
    rw [hr] at hf ⊢
    simp only [setEp_ep, update_of_ne hpo] at hf ⊢
    exact hw.failed p hp hf
  · have hf : k.EpFree p := hf
    have hpo : p ≠ o := by
      rintro rfl
      exact hfree hf
    unfold Idle
    rw [hr]
    simp only [setEp_ep, update_of_ne hpo]
    exact hw.free p hp hf

theorem dequeueCaller_none (hw : k.Waits) (ho : o ≠ 0)
    (h : k.dequeueCaller o threadBound = (0, k₁)) : k₁ = k ∧ k.roster.Queue o [] := by
  rcases dequeueCaller_cases hw.sound ho with ⟨hq, h'⟩ | ⟨c, cs, -, hc, h'⟩
  · rw [h'] at h
    cases h
    exact ⟨rfl, hq⟩
  · rw [h'] at h
    cases h
    exact absurd rfl hc

theorem dequeueCaller_some (hw : k.Waits) (ho : o ≠ 0) (h : k.dequeueCaller o threadBound = (c, k₁)) (hc : c ≠ 0) :
    k₁ = k.popCaller o ∧ ∃ cs, k.roster.Queue o (c :: cs) := by
  rcases dequeueCaller_cases hw.sound ho with ⟨-, h'⟩ | ⟨d, cs, hq, -, h'⟩
  · rw [h'] at h
    cases h
    exact absurd rfl hc
  · rw [h'] at h
    cases h
    exact ⟨rfl, cs, hq⟩

/-- A message is taken from the head of the queue: up to the wakeup of its sender, all is calm. -/
theorem takeOver_calms (hL : k.ledger.Counted fresh) (hw : k.Waits) (hp : ∀ t, (k.tcb t).process ≤ initProcess)
    (hcur : cur ≠ 0) (hrun : (k.tcb cur).state = .running) (ho : o ≠ 0)
    (hq : k.roster.Queue o (c :: cs))
    (htrans : (k.popCaller o).transferMessage c cur badge = (s, k₂)) :
    Calms (fun _ => False) (k.popCaller o) k₂ ∧ k₂.Waits ∧ k₂.roster.Detached c ∧
      (k₂.tcb c).state = .blockedSend ∧ (k₂.tcb c).awaitingReply = false := by
  obtain ⟨hw₁, hd1, hs1, ha1, hdet⟩ := popCaller_waits hw ho hq
  have hrun1 : ((k.popCaller o).tcb cur).state = .running :=
    hdet.state_eq (u := cur) hrun (by simp)
  have hc := transferMessage_calms c hcur badge
    (k := k.popCaller o) (by rw [ledger_popCaller]; exact hL) hw₁ (detached_of_running hw₁ hrun1)
    (by rw [process_of_ledger_eq (ledger_popCaller k o)]; exact hp cur)
  rw [htrans] at hc
  exact ⟨hc, hc.waits hw₁, hc.calm.detached hd1, (hc.calm.state_of_detached hd1 id).trans hs1,
    (hc.calm.awaiting_eq hw₁.sound id).trans ha1⟩

theorem receiveEndpoint_waits (hL : k.ledger.Counted none) (hw : k.Waits)
    (hp : ∀ t, (k.tcb t).process ≤ initProcess) (hcur : cur ≠ 0)
    (hrun : (k.tcb cur).state = .running) (f : TrapFrame) : (k.receiveEndpoint cur f).Waits := by
  unfold receiveEndpoint
  split
  · exact hw.setA0 _ _
  · rename_i cap _
    have hout := receive_outcome k cur cap
    generalize k.receive cur cap = r at hout ⊢
    cases hout with
    | rejected s refusal =>
      split
      · rename_i k' he
        cases he
        exact absurd rfl refusal.2.1
      · rename_i he
        cases he
        exact (hw.setA1 _ _).setIpcResult _ _
    | gone o badge resolved failed => exact (hw.setA1 _ _).setIpcResult _ _
    | idle o badge k₁ r resolved alive dequeued rest =>
      obtain ⟨ho, hfree⟩ := resolveEndpoint_not_free hL resolved
      obtain ⟨rfl, -⟩ := dequeueCaller_none hw ho dequeued
      cases rest with
      | copied frame =>
        have hslab : (k₁.deliverSend o frame).endpointSlab = k₁.endpointSlab :=
          endpointSlab_of_ledger (by rw [ledger_deliverSend])
        exact ((hw.of_eq (roster_deliverSend _ _ _) hslab).setA1 _ _).setIpcResult _ _
      | occupied => exact (hw.setA1 _ _).setIpcResult _ _
      | registered => exact (hw.block_registered ho hfree hrun alive).1.setA1 _ _
    | taken o badge caller s k₁ k₂ r resolved alive dequeued someone transfer rest =>
      obtain ⟨ho, -⟩ := resolveEndpoint_not_free hL resolved
      obtain ⟨rfl, cs, hq⟩ := dequeueCaller_some hw ho dequeued someone
      obtain ⟨-, hw₂, hd, hs, -⟩ := takeOver_calms hL hw hp hcur hrun ho hq transfer
      have hwake := fun v => hw₂.wakeWithResult hd (by rw [hs]; simp) v
      cases rest with
      | refused s failure =>
        rcases failure with rfl | rfl
        · exact ((hwake _).setA1 _ _).setIpcResult _ _
        · exact ((hwake _).setA1 _ _).setIpcResult _ _
      | sent => exact ((hwake _).setA1 _ _).setIpcResult _ _
      | unminted k₃ wanted mint =>
        obtain ⟨hr3, hs3⟩ := mintReplyCap_error mint
        have hst : (k₃.tcb caller).state = .blockedSend :=
          (congrArg (fun R => (R.thread caller).state) hr3).trans hs
        exact (((hw₂.of_eq hr3 hs3).wakeWithResult (hr3 ▸ hd) (by rw [hst]; simp)
          resultTransferFailed).setA1 _ _).setIpcResult _ _
      | called h k₃ wanted mint =>
        have hs : (k₂.roster.thread caller).state = .blockedSend := hs
        have hsched : k₂.roster.Scheduled caller :=
          hw₂.sound.scheduled caller (by rw [hs]; simp) (by rw [hs]; simp)
        have hw3 : k₃.Waits := by
          refine hw₂.of_awaiting hd (fun he => by cases hs.symm.trans he) hsched (mintReplyCap_slab mint) ?_
          rw [mintReplyCap_roster mint, ← hs]
        exact (hw3.setA1 _ _).setIpcResult _ _

theorem handleIpcRecv_eq (hw : k.Waits) (f : TrapFrame) : k.handleIpcRecv cur f = k.receiveEndpoint cur f := by
  exact if_pos (hw.sound.bound cur)

/-! ## Reply -/

theorem endpointSlab_forgetCap (k : State) (t cap : Nat) : (k.forgetCap t cap).endpointSlab = k.endpointSlab := by
  unfold forgetCap
  split <;> rfl

theorem roster_wake_replied (k : State) (ht : t ≠ 0) (hs : (k.tcb t).state = .blockedSend) :
    ((k.modTcb t fun c => { c with awaitingReply := false, savedA0 := resultOk }).wake t).roster =
      k.roster.setThread t (k.roster.thread t).woken := by
  have hs' : isBlocked ((k.modTcb t fun c =>
      { c with awaitingReply := false, savedA0 := resultOk }).tcb t).state = true := by
    have : ((k.modTcb t fun c => { c with awaitingReply := false, savedA0 := resultOk }).tcb t).state =
        (k.tcb t).state := by simp [modTcb]
    rw [this, hs]
    rfl
  rw [roster_wake _ ht hs', roster_modTcb, setThread_setThread, setThread_thread, update_self]
  rfl

theorem answer_calms (hw : k.Waits) (hp : ∀ t, (k.tcb t).process ≤ initProcess)
    (hL1 : (k.forgetCap cur cap).ledger.Counted fresh) (live : k.isDead c = false)
    (awaiting : (k.tcb c).awaitingReply = true)
    (htrans : (k.forgetCap cur cap).transferMessage cur c 0 = (s, k₁)) :
    c ≠ 0 ∧ Calms (fun _ => False) k k₁ ∧ k₁.roster.Detached c ∧
      (k₁.tcb c).state = .blockedSend ∧ (k₁.tcb c).awaitingReply = true := by
  have hc : c ≠ 0 ∧ (k.tcb c).state ≠ .dead := by simpa [isDead] using live
  have hd := hw.sound.detached_of_awaiting (t := c) awaiting
  have hs : (k.tcb c).state = .blockedSend := (hw.sound.awaiting c awaiting).resolve_right hc.2
  have hc1 : Calms (fun _ => False) k (k.forgetCap cur cap) :=
    .of_eq hw (roster_forgetCap _ _ _) (endpointSlab_forgetCap _ _ _)
  have hproc : ((k.forgetCap cur cap).tcb c).process ≤ initProcess := by
    have : (k.forgetCap cur cap).tcb = k.tcb := by
      unfold forgetCap
      split <;> rfl
    rw [this]
    exact hp c
  have hc2 := transferMessage_calms cur hc.1 0 hL1 (hc1.waits hw) (hc1.calm.detached hd) hproc
  rw [htrans] at hc2
  have hall := hc1.trans hc2
  exact ⟨hc.1, hall, hall.calm.detached hd, (hall.calm.state_of_detached hd id).trans hs,
    (hall.calm.awaiting_eq hw.sound id).trans awaiting⟩

theorem handleIpcReply_waits (hL : k.ledger.Counted none) (hw : k.Waits)
    (hp : ∀ t, (k.tcb t).process ≤ initProcess) (f : TrapFrame) :
    (k.handleIpcReply cur f).Waits := by
  unfold handleIpcReply
  split
  · exact hw.setA0 _ _
  · rename_i cap _
    refine Waits.setIpcResult ?_ _ _
    have hout := reply_outcome k cur cap
    -- forgetting a reply cap keeps the reference counts
    have hcount : ∀ e, k.lookupCap cur cap = some e → e.kind = .replyObject →
        (k.forgetCap cur cap).ledger.Counted none := by
      intro e he hk
      obtain ⟨hent, -⟩ := lookupCap_eq_some he
      have hsteps : k.ledger.CapSteps 0 (fun _ => False) (k.forgetCap cur cap).ledger :=
        forgetCap_steps hL (by rw [hent, hk]; rfl)
      exact hsteps.counted (fun _ hf => hf.elim) hL
    have hw₁ : (k.forgetCap cur cap).Waits :=
      hw.of_eq (roster_forgetCap _ _ _) (endpointSlab_forgetCap _ _ _)
    generalize k.reply cur cap = r at hout ⊢
    cases hout with
    | rejected s refusal => exact hw
    | stale e found kind mismatch => exact hw₁
    | unbuffered e found kind live awaiting current buffer =>
      have hc : e.object ≠ 0 ∧ (k.tcb e.object).state ≠ .dead := by simpa [isDead] using live
      have hs := (hw.sound.awaiting e.object awaiting).resolve_right hc.2
      have hs1 : ((k.forgetCap cur cap).roster.thread e.object).state = .blockedSend := by
        rw [roster_forgetCap]
        exact hs
      refine hw₁.wakeWithResult ?_ (fun he => by cases hs1.symm.trans he) _
      rw [roster_forgetCap]
      exact hw.sound.detached_of_awaiting awaiting
    | refused e s k₁ found kind live awaiting current transfer failure =>
      obtain ⟨-, hc, hd, hs, -⟩ := answer_calms hw hp (hcount e found kind) live awaiting transfer
      exact (hc.waits hw).wakeWithResult hd (by rw [hs]; simp) _
    | delivered e k₁ found kind live awaiting current transfer =>
      obtain ⟨h0, hc, hd, hs, -⟩ := answer_calms hw hp (hcount e found kind) live awaiting transfer
      have hw' := hc.waits hw
      refine hw'.of_setThread (roster_wake_replied k₁ h0 hs) ?_ (hw'.sound.wake hd (by simp [Tcb.ipc, hs]))
      exact endpointSlab_of_ledger (by rw [ledger_wake, ledger_modTcb _ _ _ rfl Iff.rfl rfl])

end State

end Aegir.Kernel
