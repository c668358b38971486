/-
  When a failed message delivers NOTHING.

  Call, Send, Receive and Reply tell a party that the transfer failed in three places: the caps were
  refused, the reply cap was refused, or the caps of a reply were refused.  In every other outcome
  nobody is told so: a thread is only woken with another code, and the acting thread gets another
  result.  With the laws of the transfer itself this gives, for every step of every run, the exact
  condition under which a failed message leaves the receiver untouched.
-/
import Aegir.Laws.FailedTransfer

namespace Aegir.Kernel

open Aegir.Arch Aegir.Lib Ledger Roster

namespace State

variable {k k' : State} {cur : Nat}

/-! ## Who is told -/

/-- Some party of a system call of `cur` is told that the transfer failed: the caller itself, or a
    thread that it wakes. -/
def TellsFailure (k k' : State) (cur : Nat) : Prop :=
  (k'.tcb cur).savedA0 = resultTransferFailed ∨
  ∃ u, u ≠ cur ∧ isBlocked (k.tcb u).state = true ∧ (k'.tcb u).state = .ready ∧
    (k'.tcb u).savedA0 = resultTransferFailed

/-- Nobody is told so if the caller gets another result and every other thread stays as it is or is
    woken with another code. -/
theorem not_tellsFailure (hcur : (k'.tcb cur).savedA0 ≠ resultTransferFailed)
    (hother : ∀ u, u ≠ cur → (k'.tcb u).state = (k.tcb u).state ∨
      (k'.tcb u).savedA0 ≠ resultTransferFailed) : ¬ TellsFailure k k' cur := by
  rintro (h | ⟨u, hu, hb, hr, ha⟩)
  · exact hcur h
  · rcases hother u hu with hs | hn
    · rw [← hs, hr] at hb
      cases hb
    · exact hn ha

theorem tcb_setA0 (k : State) (t : Nat) (v : U64) (u : Nat) :
    (k.setA0 t v).tcb u = if u = t then { k.tcb t with savedA0 := v } else k.tcb u := by
  unfold setA0 modTcb
  by_cases h : u = t
  · subst h
    simp
  · simp [h]

/-- The state of every thread stays. -/
def KeepsStates (k k' : State) : Prop := ∀ u, (k'.tcb u).state = (k.tcb u).state

theorem KeepsStates.refl (k : State) : KeepsStates k k := fun _ => rfl

theorem KeepsStates.trans {k'' : State} (h : KeepsStates k k') (h' : KeepsStates k' k'') :
    KeepsStates k k'' := fun u => (h' u).trans (h u)

theorem KeepsStates.of_roster (h : k'.roster = k.roster) : KeepsStates k k' :=
  fun u => congrArg (fun R => (R.thread u).state) h

section

variable (k : State)

theorem keepsStates_modTcb (t : Nat) (f : Tcb → Tcb) (hf : ∀ c, (f c).state = c.state) :
    KeepsStates k (k.modTcb t f) := by
  intro u
  unfold modTcb
  dsimp only
  by_cases h : u = t
  · subst h
    rw [Function.update_self, hf]
  · rw [Function.update_of_ne h]

theorem keepsStates_modEndpoint (o : Nat) (f : Endpoint → Endpoint) :
    KeepsStates k (k.modEndpoint o f) := fun _ => rfl

theorem keepsStates_dropStaleReceiver (o : Nat) :
    KeepsStates k (k.dropStaleReceiver o) := by
  unfold dropStaleReceiver
  refine KeepsStates.trans ?_ (keepsStates_modEndpoint _ _ _)
  split
  · apply keepsStates_modTcb
    intro c
    rfl
  · exact .refl _

theorem keepsStates_enqueueCaller (o t : Nat) : KeepsStates k (k.enqueueCaller o t) := by
  unfold enqueueCaller
  refine KeepsStates.trans ?_ (keepsStates_modEndpoint _ _ _)
  have hk1 := keepsStates_modTcb k t (fun c => { c with queueNext := 0, queuedOnEp := o }) fun _ => rfl
  generalize (k.modTcb t fun c => { c with queueNext := 0, queuedOnEp := o }) = k₁ at hk1 ⊢
  generalize (if k₁.suspiciousTail o = true then
    k₁.rebuildTail o (k₁.endpoint o).queueHead maxThreadSlots else (k₁.endpoint o).queueTail) = tail
  have hk2 : KeepsStates k₁ (if k₁.suspiciousTail o = true ∧ tail = 0 then
      k₁.modEndpoint o fun e => { e with queueHead := 0 } else k₁) := by
    split
    · exact keepsStates_modEndpoint _ _ _
    · exact .refl _
  refine (hk1.trans hk2).trans ?_
  generalize (if k₁.suspiciousTail o = true ∧ tail = 0 then
    k₁.modEndpoint o fun e => { e with queueHead := 0 } else k₁) = k₂
  split
  · exact keepsStates_modEndpoint _ _ _
  · apply keepsStates_modTcb
    intro c
    rfl

theorem keepsStates_blockCaller (o t : Nat) (badge : U64) :
    KeepsStates k (k.blockCaller o t badge).2 := by
  refine KeepsStates.trans ?_ (keepsStates_enqueueCaller _ _ _)
  apply keepsStates_modTcb
  intro c
  rfl

theorem keepsStates_popCaller (o : Nat) : KeepsStates k (k.popCaller o) := by
  intro u
  unfold popCaller
  rw [keepsStates_modTcb _ _ _ (by intro c; rfl) u]
  rfl

end

theorem keepsStates_dequeueCaller (o n : Nat) (k : State) : KeepsStates k (k.dequeueCaller o n).2 := by
  induction n generalizing k with
  | zero => exact .refl k
  | succ n ih =>
    unfold dequeueCaller
    dsimp only
    split
    · exact .refl k
    · split
      · exact (keepsStates_popCaller k o).trans (ih _)
      · exact keepsStates_popCaller k o

/-! ## How the handlers end -/

variable {s : IpcStatus} {t : Nat} {v : U64} {j : State}

theorem not_tellsFailure_setIpcResult (hs : s ≠ .transferFailed)
    (h : ∀ u, u ≠ cur → (k'.tcb u).state = (k.tcb u).state ∨
      (k'.tcb u).savedA0 ≠ resultTransferFailed) : ¬ TellsFailure k (k'.setIpcResult cur s) cur := by
  unfold setIpcResult
  refine not_tellsFailure ?_ fun u hu => ?_
  · rw [tcb_setA0, if_pos rfl]
    cases s <;> first | exact absurd rfl hs | (dsimp only; decide)
  · rw [tcb_setA0, if_neg hu]
    exact h u hu

theorem not_tellsFailure_block {st : ThreadState} (h : ∀ u, u ≠ cur → (k'.tcb u).state = (k.tcb u).state ∨
      (k'.tcb u).savedA0 ≠ resultTransferFailed) : ¬ TellsFailure k (k'.block cur st) cur := by
  have htcb : ∀ u, (k'.block cur st).tcb u =
      if u = cur then { k'.tcb cur with savedA0 := resultOk, state := st } else k'.tcb u := by
    intro u
    unfold block setA0 modTcb
    by_cases hu : u = cur
    · subst hu
      simp
    · simp [hu]
  refine not_tellsFailure ?_ fun u hu => ?_
  · rw [htcb, if_pos rfl]
    show resultOk ≠ resultTransferFailed
    decide
  · rw [htcb, if_neg hu]
    exact h u hu

theorem wake_tells (hv : v ≠ resultTransferFailed) {g : Tcb → Tcb}
    (hg : ∀ c, (g c).savedA0 = v) (h : KeepsStates k k') (u : Nat) :
    (((k'.modTcb t g).wake t).tcb u).state = (k.tcb u).state ∨
      (((k'.modTcb t g).wake t).tcb u).savedA0 ≠ resultTransferFailed := by
  by_cases hu : u = t
  · subst hu
    refine .inr ?_
    have hsaved : ∀ j : State, ((j.wake u).tcb u).savedA0 = (j.tcb u).savedA0 := by
      intro j
      unfold wake
      split
      · rfl
      · split <;> simp [modTcb]
    rw [hsaved]
    simpa [modTcb, hg] using hv
  · refine .inl ?_
    have hstate : ∀ j : State, ((j.wake t).tcb u).state = (j.tcb u).state := by
      intro j
      unfold wake
      split
      · rfl
      · split <;> simp [modTcb, hu]
    rw [hstate, ← h u]
    simp [modTcb, hu]

theorem wakeWithResult_tells (hv : v ≠ resultTransferFailed) (h : KeepsStates k k') (u : Nat) :
    ((k'.wakeWithResult t v).tcb u).state = (k.tcb u).state ∨
      ((k'.wakeWithResult t v).tcb u).savedA0 ≠ resultTransferFailed := by
  unfold wakeWithResult
  split
  · exact .inl (h u)
  · split
    · exact wake_tells hv (fun _ => rfl) h u
    · exact .inl (h u)

theorem setA1_same (j : State) (t : Nat) (v : U64) (u : Nat) : ((j.setA1 t v).tcb u).state = (j.tcb u).state ∧
      ((j.setA1 t v).tcb u).savedA0 = (j.tcb u).savedA0 := by
  unfold setA1 modTcb
  by_cases hu : u = t
  · subst hu
    simp
  · simp [hu]

theorem setA1_tells (t : Nat) (v : U64) {u : Nat}
    (h : (j.tcb u).state = (k.tcb u).state ∨ (j.tcb u).savedA0 ≠ resultTransferFailed) :
    ((j.setA1 t v).tcb u).state = (k.tcb u).state ∨ ((j.setA1 t v).tcb u).savedA0 ≠ resultTransferFailed := by
  rw [(setA1_same j t v u).1, (setA1_same j t v u).2]
  exact h

theorem not_tellsFailure_setA1 (t : Nat) (v : U64) (h : ¬ TellsFailure k j cur) :
    ¬ TellsFailure k (j.setA1 t v) cur := by
  intro htold
  refine h ?_
  unfold TellsFailure at htold ⊢
  simp only [setA1_same] at htold
  exact htold

/-! ## The states on the way -/

variable {badge : U64} {k₃ : State} {receiver sender o : Nat}

section

variable (k : State)

theorem alike_taking (cur : Nat) (wanted : Bool) (o : Nat) :
    Alike k ((k.wanting cur wanted).taking o) := by
  have hthread : ∀ t, (((k.wanting cur wanted).taking o).tcb t).process = (k.tcb t).process ∧
      (((k.wanting cur wanted).taking o).tcb t).ipcBuffer = (k.tcb t).ipcBuffer := by
    intro t
    unfold taking wanting modEndpoint modTcb
    by_cases ht : t = cur
    · subst ht
      simp
    · simp [ht]
  exact ⟨rfl, rfl, fun t => (hthread t).1, by simp, rfl, fun t => (hthread t).2⟩

theorem alike_popCaller (o : Nat) : Alike k (k.popCaller o) := by
  have hthread : ∀ t, ((k.popCaller o).tcb t).process = (k.tcb t).process ∧
      ((k.popCaller o).tcb t).ipcBuffer = (k.tcb t).ipcBuffer := by
    intro t
    unfold popCaller modEndpoint modTcb
    by_cases ht : t = (k.endpoint o).queueHead
    · rw [ht]
      simp
    · simp [ht]
  exact ⟨rfl, rfl, fun t => (hthread t).1, ledger_popCaller k o, rfl, fun t => (hthread t).2⟩

theorem callBadge_popCaller (o t : Nat) : ((k.popCaller o).tcb t).callBadge = (k.tcb t).callBadge := by
  unfold popCaller modEndpoint modTcb
  by_cases ht : t = (k.endpoint o).queueHead
  · rw [ht]
    simp
  · simp [ht]

theorem replyWanted_popCaller (o t : Nat) :
    ((k.popCaller o).tcb t).replyWanted = (k.tcb t).replyWanted := by
  unfold popCaller modEndpoint modTcb
  by_cases ht : t = (k.endpoint o).queueHead
  · rw [ht]
    simp
  · simp [ht]

theorem restored_wakeWithResult (t : Nat) (v : U64) : Restored k (k.wakeWithResult t v) :=
  .of_ledger (ledger_wakeWithResult k t v) (congrArg Marks.memory (marks_wakeWithResult k t v))

theorem restored_setIpcResult (t : Nat) (s : IpcStatus) : Restored k (k.setIpcResult t s) :=
  .of_ledger (ledger_setIpcResult k t s) rfl

theorem restored_setA1 (t : Nat) (v : U64) : Restored k (k.setA1 t v) :=
  .of_ledger (ledger_setA1 k t v) rfl

end

theorem tcb_transferMessage (h : k.transferMessage sender receiver badge = (.ok, k₃)) : k₃.tcb = k.tcb := by
  obtain ⟨-, -, handles, k₁, hcaps, rfl⟩ := transferMessage_ok h
  have htcb : k₁.tcb = k.tcb := tcb_transferCaps _ _ _ k hcaps
  exact htcb

theorem transferMessage_keepsStates (h : k.transferMessage sender receiver badge = (.ok, k₃)) : KeepsStates k k₃ :=
  fun u => by rw [tcb_transferMessage h]

theorem keepsStates_taking (k : State) (cur : Nat) (wanted : Bool) (o : Nat) :
    KeepsStates k ((k.wanting cur wanted).taking o) := by
  refine KeepsStates.trans ?_ (keepsStates_modEndpoint _ _ _)
  apply keepsStates_modTcb
  intro c
  rfl

theorem Inv.receiver_process (h : k.Inv) (ho : o ≠ 0) (hr : (k.endpoint o).waitingReceiver ≠ 0) :
    (k.tcb (k.endpoint o).waitingReceiver).process ≠ 0 := by
  have hs : (k.roster.thread (k.endpoint o).waitingReceiver).state = .blockedReceive :=
    (h.waits.sound.receiver o ho hr).1
  exact (h.process_of_scheduled (h.waits.sound.scheduled _ (by rw [hs]; simp) (by rw [hs]; simp))).2

/-! ## The four operations -/

variable {wanted : Bool}

/-- The conclusion about one system call: its transfer is the one `transferOf` names, and the receiver
    is left alone exactly under the condition. -/
def Settled (k k' : State) (call : Syscall) (cur : Nat) (f : TrapFrame) : Prop :=
  ∃ m, k.transferOf call cur f = some m ∧
    (Undelivered m.receiver k k' ↔ k.SparesReceiver m)

theorem handOver_refused (h : k.Inv) (ho : o ≠ 0) (hready : (k.wanting cur wanted).receiverReady o = true)
    (htrans : ((k.wanting cur wanted).taking o).transferMessage cur (k.endpoint o).waitingReceiver badge = (s, k₃))
    (hs : s = .transferFailed ∨ s = .invalidTask) (hk' : Restored k₃ k') (mints : Bool) :
    Undelivered (k.endpoint o).waitingReceiver k k' ↔
      k.SparesReceiver ⟨cur, (k.endpoint o).waitingReceiver, badge, mints, false⟩ := by
  have hr := receiverReady_ne_zero hready
  exact undelivered_of_refused (m := ⟨cur, (k.endpoint o).waitingReceiver, badge, mints, false⟩)
    (alike_taking k cur wanted o) hr (h.receiver_process ho hr) (h.process_le _) h.counted rfl htrans hs
    hk'

/-- After a message was handed to the registered receiver, everybody is in the state it was in. -/
theorem handOver_keepsStates (htrans : ((k.wanting cur wanted).taking o).transferMessage cur
      (k.endpoint o).waitingReceiver badge = (.ok, k₃)) : KeepsStates k k₃ :=
  (keepsStates_taking k cur wanted o).trans (transferMessage_keepsStates htrans)

theorem mintReplyCap_keepsStates {k₄ : State} {caller handle : Nat}
    (hmint : k₃.mintReplyCap receiver caller = (.ok handle, k₄)) : KeepsStates k₃ k₄ := by
  intro u
  have hr := congrArg (fun R => (R.thread u).state) (mintReplyCap_roster hmint)
  refine hr.trans ?_
  by_cases hu : u = caller
  · subst hu
    simp [Tcb.ipc]
  · simp [Tcb.ipc, hu]

theorem Refusal.ne_transferFailed (h : Refusal s) : s ≠ .transferFailed := h.2.2.1

theorem not_tellsFailure_undecoded (k : State) (cur : Nat) : ¬ TellsFailure k (k.setA0 cur resultInvalid) cur := by
  refine not_tellsFailure ?_ fun u hu => .inl ?_
  · rw [tcb_setA0, if_pos rfl]
    show resultInvalid ≠ resultTransferFailed
    decide
  · rw [tcb_setA0, if_neg hu]

theorem conclude_settled {cap : Nat} {r : IpcStatus × State} (hout : MessageOutcome k cur cap wanted r)
    (h : k.Inv) (htold : TellsFailure k (conclude cur r) cur) :
    ∃ o badge, k.resolveEndpoint cur cap sendRight = .ok (o, badge) ∧
      (Undelivered (k.endpoint o).waitingReceiver k (conclude cur r) ↔
        k.SparesReceiver ⟨cur, (k.endpoint o).waitingReceiver, badge, wanted, false⟩) := by
  have hk1 := KeepsStates.of_roster (roster_wanting k cur wanted)
  cases hout with
  | rejected s refusal =>
    rw [conclude_answer refusal.2.1] at htold
    exact absurd htold (not_tellsFailure_setIpcResult refusal.ne_transferFailed fun _ _ => .inl rfl)
  | gone o badge resolved failed =>
    exact absurd htold (not_tellsFailure_setIpcResult (by simp) fun u _ => .inl (hk1 u))
  | handed o badge s k₃ r resolved alive ready transfer rest =>
    obtain ⟨ho, -⟩ := resolveEndpoint_not_free h.counted resolved
    refine ⟨o, badge, resolved, ?_⟩
    cases rest with
    | refused s failure =>
      have hk' : ∀ s', Restored k₃ ((k₃.wakeWithResult (k.endpoint o).waitingReceiver
          resultTransferFailed).setIpcResult cur s') := fun s' =>
        (restored_wakeWithResult _ _ _).trans (restored_setIpcResult _ _ s')
      rcases failure with rfl | rfl
      · exact handOver_refused h ho ready transfer (.inl rfl) (hk' _) wanted
      · exact handOver_refused h ho ready transfer (.inr rfl) (hk' _) wanted
    | unminted k₄ mint =>
      obtain ⟨hsteps, -⟩ := handOver_steps h.counted h.waits h.process_le ho ready transfer
      have hr := receiverReady_ne_zero ready
      exact undelivered_of_unminted
        (m := ⟨cur, (k.endpoint o).waitingReceiver, badge, true, false⟩) (alike_taking k cur true o)
        (h.receiver_process ho hr) (h.process_le _) h.counted (hsteps.counted (open_le h.process_le) h.counted) rfl rfl transfer mint
        ((restored_wakeWithResult _ _ _).trans (restored_setIpcResult _ _ _))
    | called handle k₄ mint =>
      refine absurd htold (not_tellsFailure_block fun u _ => wakeWithResult_tells (by decide) ?_ u)
      have hk4 := (handOver_keepsStates transfer).trans (mintReplyCap_keepsStates mint)
      have hk5 := keepsStates_modTcb k₄ cur (fun c => { c with callBadge := badge }) fun _ => rfl
      exact (hk4.trans hk5).trans (KeepsStates.of_roster (roster_setA1 _ _ _))
    | sent =>
      refine absurd htold (not_tellsFailure_setIpcResult (by simp) fun u _ =>
        wakeWithResult_tells (by decide) ?_ u)
      exact (handOver_keepsStates transfer).trans (KeepsStates.of_roster (roster_setA1 _ _ _))
  | queued o badge r resolved alive unready rest =>
    have hk2 := hk1.trans (keepsStates_dropStaleReceiver _ o)
    have hk3 := hk2.trans (.of_roster (roster_queueSendCopy _ cur badge))
    cases rest with
    | blocked =>
      exact absurd htold (not_tellsFailure_block fun u _ => .inl
        (hk2.trans (keepsStates_blockCaller _ o cur badge) u))
    | unpooled =>
      exact absurd htold (not_tellsFailure_block fun u _ => .inl
        (hk3.trans (keepsStates_blockCaller _ o cur badge) u))
    | copied =>
      exact absurd htold (not_tellsFailure_setIpcResult (by simp) fun u _ => .inl
        (hk3.trans (.of_roster (roster_appendSend _ _ _)) u))

theorem handleIpcCall_settled (h : k.Inv) (f : TrapFrame) (htold : TellsFailure k (k.handleIpcCall cur f) cur) :
    Settled k (k.handleIpcCall cur f) .ipcCall cur f := by
  obtain ⟨-, he⟩ | ⟨cap, r, hcap, hout, he⟩ := handleIpcCall_cases k cur f <;> rw [he] at htold ⊢
  · exact absurd htold (not_tellsFailure_undecoded k cur)
  · obtain ⟨o, badge, resolved, hiff⟩ := conclude_settled hout h htold
    exact ⟨⟨cur, (k.endpoint o).waitingReceiver, badge, true, false⟩, by simp only [transferOf, hcap, resolved], hiff⟩

theorem handleIpcSend_settled (h : k.Inv) (f : TrapFrame) (htold : TellsFailure k (k.handleIpcSend cur f) cur) :
    Settled k (k.handleIpcSend cur f) .ipcSend cur f := by
  obtain ⟨-, he⟩ | ⟨cap, r, hcap, hout, he⟩ := handleIpcSend_cases k cur f <;> rw [he] at htold ⊢
  · exact absurd htold (not_tellsFailure_undecoded k cur)
  · obtain ⟨o, badge, resolved, hiff⟩ := conclude_settled hout h htold
    exact ⟨⟨cur, (k.endpoint o).waitingReceiver, badge, false, false⟩, by simp only [transferOf, hcap, resolved], hiff⟩

theorem receiveEndpoint_settled (h : k.Inv) (hcur : cur ≠ 0) (hrun : (k.tcb cur).state = .running)
    (f : TrapFrame) (htold : TellsFailure k (k.receiveEndpoint cur f) cur) :
    Settled k (k.receiveEndpoint cur f) .ipcRecv cur f := by
  have hP := (h.process_ne_zero hrun).2
  cases hcap : decodeHandle f.a0 with
  | none =>
    unfold receiveEndpoint at htold
    rw [hcap] at htold
    exact absurd htold (not_tellsFailure_undecoded k cur)
  | some cap =>
    unfold receiveEndpoint at htold ⊢
    unfold Settled transferOf
    rw [hcap] at htold ⊢
    dsimp only at htold ⊢
    have hout := receive_outcome k cur cap
    generalize k.receive cur cap = r at hout htold ⊢
    cases hout with
    | rejected s refusal =>
      split at htold
      · rename_i he
        cases he
        exact absurd rfl refusal.2.1
      · rename_i he
        cases he
        exact absurd htold (not_tellsFailure_setIpcResult refusal.ne_transferFailed fun u _ => .inl
          (KeepsStates.of_roster (roster_setA1 _ _ _) u))
    | gone o badge resolved failed =>
      exact absurd htold (not_tellsFailure_setIpcResult (by simp) fun u _ => .inl
        (KeepsStates.of_roster (roster_setA1 _ _ _) u))
    | idle o badge k₁ r resolved alive dequeued rest =>
      have hk1 := keepsStates_dequeueCaller o threadBound k
      rw [dequeued] at hk1
      cases rest with
      | copied =>
        refine absurd htold (not_tellsFailure_setIpcResult (by simp) fun u _ => .inl ?_)
        exact ((hk1.trans (KeepsStates.of_roster (roster_deliverSend _ _ _))).trans
          (KeepsStates.of_roster (roster_setA1 _ _ _))) u
      | occupied =>
        refine absurd htold (not_tellsFailure_setIpcResult (by simp) fun u _ => .inl ?_)
        exact (hk1.trans (KeepsStates.of_roster (roster_setA1 _ _ _))) u
      | registered =>
        refine absurd htold (not_tellsFailure_setA1 _ _ (not_tellsFailure_block fun u _ => .inl ?_))
        have hk2 := keepsStates_modEndpoint k₁ o fun e => { e with waitingReceiver := cur }
        have hk3 := keepsStates_modTcb (k₁.modEndpoint o fun e => { e with waitingReceiver := cur }) cur
          (fun c => { c with recvEp := o }) fun _ => rfl
        exact ((hk1.trans hk2).trans hk3) u
    | taken o badge caller s k₁ k₂ r resolved alive dequeued someone transfer rest =>
      obtain ⟨ho, -⟩ := resolveEndpoint_not_free h.counted resolved
      rw [resolved]
      dsimp only
      have hk1 := keepsStates_dequeueCaller o threadBound k
      rw [dequeued] at hk1
      obtain ⟨rfl, cs, hq⟩ := dequeueCaller_some h.waits ho dequeued someone
      have hhead : (k.endpoint o).queueHead = caller := hq.chain.1
      rw [hhead]
      have ha := alike_popCaller k o
      rw [callBadge_popCaller] at transfer
      cases rest with
      | refused s failure =>
        refine ⟨_, rfl, ?_⟩
        have hk' : ∀ v s', Restored k₂ (((k₂.wakeWithResult caller resultTransferFailed).setA1 cur
            v).setIpcResult cur s') := fun v s' =>
          ((restored_wakeWithResult _ _ _).trans (restored_setA1 _ _ v)).trans (restored_setIpcResult _ _ s')
        rcases failure with rfl | rfl
        · exact undelivered_of_refused (m := ⟨caller, cur, (k.tcb caller).callBadge,
            (k.tcb caller).replyWanted, false⟩) ha hcur hP (h.process_le _) h.counted rfl transfer
            (.inl rfl) (hk' _ _)
        · exact undelivered_of_refused (m := ⟨caller, cur, (k.tcb caller).callBadge,
            (k.tcb caller).replyWanted, false⟩) ha hcur hP (h.process_le _) h.counted rfl transfer
            (.inr rfl) (hk' _ _)
      | sent unwanted =>
        refine absurd htold (not_tellsFailure_setIpcResult (by simp) fun u _ => setA1_tells _ _ ?_)
        exact wakeWithResult_tells (by decide) (hk1.trans (transferMessage_keepsStates transfer)) u
      | unminted k₃ wanted mint =>
        refine ⟨_, rfl, ?_⟩
        have hwanted : (k.tcb caller).replyWanted = true := by
          rw [tcb_transferMessage transfer, replyWanted_popCaller] at wanted
          exact wanted
        have hsteps := transferMessage_steps (fun p => p = (k.tcb cur).process) caller hcur
          (by rintro p rfl; exact h.process_le cur) (k.popCaller o) (k.tcb caller).callBadge
          (by rw [ha.ledger]; exact h.counted) (ha.process cur)
        rw [transfer, ha.ledger] at hsteps
        exact undelivered_of_unminted (m := ⟨caller, cur, (k.tcb caller).callBadge,
          (k.tcb caller).replyWanted, false⟩) ha hP (h.process_le _) h.counted
          (hsteps.counted (by rintro p rfl; exact h.process_le cur) h.counted) hwanted rfl transfer mint
          (((restored_wakeWithResult _ _ _).trans (restored_setA1 _ _ _)).trans (restored_setIpcResult _ _ _))
      | called handle k₃ wanted mint =>
        refine absurd htold (not_tellsFailure_setIpcResult (by simp) fun u _ =>
          setA1_tells _ _ (.inl ?_))
        exact ((hk1.trans (transferMessage_keepsStates transfer)).trans (mintReplyCap_keepsStates mint)) u

theorem handleIpcReply_settled (h : k.Inv) (f : TrapFrame) (htold : TellsFailure k (k.handleIpcReply cur f) cur) :
    Settled k (k.handleIpcReply cur f) .ipcReply cur f := by
  cases hcap : decodeHandle f.a0 with
  | none =>
    unfold handleIpcReply at htold
    rw [hcap] at htold
    exact absurd htold (not_tellsFailure_undecoded k cur)
  | some cap =>
    unfold handleIpcReply at htold ⊢
    unfold Settled transferOf
    rw [hcap] at htold ⊢
    dsimp only at htold ⊢
    have hout := reply_outcome k cur cap
    have hk1 := KeepsStates.of_roster (roster_forgetCap k cur cap)
    generalize k.reply cur cap = r at hout htold ⊢
    cases hout with
    | rejected s refusal =>
      exact absurd htold (not_tellsFailure_setIpcResult refusal.ne_transferFailed fun _ _ => .inl rfl)
    | stale e found kind mismatch =>
      exact absurd htold (not_tellsFailure_setIpcResult (by simp) fun u _ => .inl (hk1 u))
    | unbuffered e found kind live awaiting current buffer =>
      exact absurd htold (not_tellsFailure_setIpcResult (by simp) fun u _ =>
        wakeWithResult_tells (by decide) hk1 u)
    | refused e s k₁ found kind live awaiting current transfer failure =>
      have hc : e.object ≠ 0 ∧ (k.tcb e.object).state ≠ .dead := by simpa [isDead] using live
      have hs : (k.tcb e.object).state = .blockedSend :=
        (h.waits.sound.awaiting e.object awaiting).resolve_right hc.2
      have hP := h.process_of_scheduled (h.waits.sound.scheduled e.object
        (fun he => by cases hs.symm.trans he) (fun he => by cases hs.symm.trans he))
      rw [found]
      refine ⟨_, rfl, ?_⟩
      exact undelivered_of_reply (m := ⟨cur, e.object, 0, false, true⟩) found kind hc.1 hP.2
        (h.process_le _) h.counted rfl rfl transfer failure
        ((restored_wakeWithResult _ _ _).trans (restored_setIpcResult _ _ _))
    | delivered e k₁ found kind live awaiting current transfer =>
      refine absurd htold (not_tellsFailure_setIpcResult (by simp) fun u _ => ?_)
      have hok : resultOk ≠ resultTransferFailed := by decide
      exact wake_tells hok (fun _ => rfl) (hk1.trans (transferMessage_keepsStates transfer)) u

end State

/-! ## In every run -/

/-- The system calls that transfer a message. -/
def Syscall.IsMessage : Syscall → Prop
  | .ipcCall | .ipcSend | .ipcRecv | .ipcReply => True
  | _ => False

namespace State

/-- **When a failed message delivers nothing.**  In every run from boot, for every Call, Send, Receive
    or Reply on which a party is told that the transfer failed: the receiver's caps, all counts and
    the receiver's buffer are as before EXACTLY if it was not the reply cap that was refused after the
    message was handed over, and the reply cap that was used up was not the receiver's own. -/
theorem failed_transfer_delivers_nothing_iff (c : BootConfig) {n : Nat} (r : Run step n)
    (hboot : r.state 0 = boot c) (i : Nat) (hi : i < n) (call : Syscall) (cur : Nat) (f : TrapFrame)
    (hact : r.action i = .syscall call cur f) (hmsg : call.IsMessage)
    (htold : TellsFailure (r.state i) (r.state (i + 1)) cur) :
    ∃ m, (r.state i).transferOf call cur f = some m ∧
      (Undelivered m.receiver (r.state i) (r.state (i + 1)) ↔ (r.state i).SparesReceiver m) := by
  have h := run_inv c r hboot i (Nat.le_of_lt hi)
  have hs := r.step_eq i hi
  rw [hact] at hs
  unfold step at hs
  split at hs
  · cases hs
  · dsimp only at hs
    split at hs
    · rename_i hrun
      have hk' : r.state (i + 1) = (r.state i).handleSyscall cur f call := (Option.some.inj hs).symm
      rw [hk'] at htold ⊢
      cases call with
      | ipcCall => exact handleIpcCall_settled h f htold
      | ipcSend => exact handleIpcSend_settled h f htold
      | ipcRecv =>
        have heq : (r.state i).handleIpcRecv cur f = (r.state i).receiveEndpoint cur f :=
          handleIpcRecv_eq h.waits f
        unfold handleSyscall at htold ⊢
        rw [heq] at htold ⊢
        exact receiveEndpoint_settled h hrun.1 hrun.2 f htold
      | ipcReply => exact handleIpcReply_settled h f htold
      | _ => exact hmsg.elim
    · cases hs

/-- A message whose first cap slot names a handle without a cap. -/
def badCapPage : Page := fun w => if w = 56 then 99 else 0

/-- Init calls a new process with a cap it does not have. -/
def badCapScript : List Action :=
  [ .syscall .epCreate initThread ⟨0, 0, 0, 0, 0, 0⟩,
    .userWrite imageMachine.ipcBuffer (grantPage 4 32),
    .syscall .spawn initThread ⟨1, 1, 0, 0, 0, 0⟩,
    .dispatch 1,
    .syscall .ipcRecv 1 ⟨1, 0, 0, 0, 0, 0⟩,
    .userWrite imageMachine.ipcBuffer badCapPage,
    .syscall .ipcCall initThread ⟨4, 0, 0, 0, 0, 0⟩ ]

def badCapRun : Run step 7 :=
  Run.ofList step (boot imageMachine) (.dispatch 0) badCapScript (by decide +kernel)

/-- Both are told that the transfer failed. -/
theorem failed_transfer_bad_cap :
    badCapRun.state 0 = boot imageMachine ∧
    TellsFailure (badCapRun.state 6) (badCapRun.state 7) initThread ∧
    ∃ m, (badCapRun.state 6).transferOf .ipcCall initThread ⟨4, 0, 0, 0, 0, 0⟩ = some m ∧
      (Undelivered m.receiver (badCapRun.state 6) (badCapRun.state 7) ↔
        (badCapRun.state 6).SparesReceiver m) := by
  have htold : TellsFailure (badCapRun.state 6) (badCapRun.state 7) initThread := by
    refine .inl ?_
    decide +kernel
  exact ⟨rfl, htold, failed_transfer_delivers_nothing_iff imageMachine badCapRun rfl 6 (by decide)
    .ipcCall initThread ⟨4, 0, 0, 0, 0, 0⟩ rfl trivial htold⟩

/-! ## A message that failed and was delivered -/

/-- A machine with few frames. -/
def tightMachine : BootConfig :=
  { imageMachine with
    pmm := { baseFrame := 0x80400000, nextFrame := 0x80500000, limit := 0x80555000, freeListHead := 0
             freeListCount := 0, isReady := true, link := fun _ => 0, reserved := [] }
    pmm_wf := ⟨by decide, by decide, by decide, by decide, by decide, by simp, [], rfl, by simp⟩ }

/-- The parameter block of the thread that the new process creates. -/
def siblingPage : Page := fun w =>
  if w = 8 then 0x50001000 else if w = 16 then 1 else if w = 56 then 2 else if w = 64 then 2
  else if w = 72 then 0x50002000 else 0

/-- A message without caps. -/
def plainPage : Page := fun w => if w = 8 then 7 else 0

/-- A new process waits in a receive; a sibling thread deletes its caps, so that the page of the
    table is given back; init takes the last frames and calls. -/
def unmintedScript : List Action :=
  [ .syscall .epCreate initThread ⟨0, 0, 0, 0, 0, 0⟩,
    .userWrite imageMachine.ipcBuffer (grantPage 4 32),
    .syscall .spawn initThread ⟨1, 1, 0, 0, 0, 0⟩,
    .dispatch 1,
    .syscall .memAlloc 1 ⟨1, 0, 0, 0, 0, 0⟩,
    .userWrite 0x80548000 siblingPage,
    .syscall .threadCreate 1 ⟨0, 0, 0, 0, 0, 0⟩,
    .syscall .ipcRecv 1 ⟨1, 0, 0, 0, 0, 0⟩,
    .dispatch 129,
    .syscall .capDelete 129 ⟨3, 0, 0, 0, 0, 0⟩,
    .syscall .capDelete 129 ⟨2, 0, 0, 0, 0, 0⟩,
    .syscall .capDelete 129 ⟨1, 0, 0, 0, 0, 0⟩,
    .syscall .memAlloc initThread ⟨4, 0, 0, 0, 0, 0⟩,
    .userWrite imageMachine.ipcBuffer plainPage,
    .syscall .ipcCall initThread ⟨4, 0, 0, 0, 0, 0⟩ ]

def unmintedRun : Run step 15 :=
  Run.ofList step (boot tightMachine) (.dispatch 0) unmintedScript (by decide +kernel)

/-- Both parties are told that the transfer failed, and yet the message is in the receiver's
    buffer. -/
theorem failed_transfer_delivered :
    unmintedRun.state 0 = boot tightMachine ∧
    unmintedRun.action 14 = .syscall .ipcCall initThread ⟨4, 0, 0, 0, 0, 0⟩ ∧
    TellsFailure (unmintedRun.state 14) (unmintedRun.state 15) initThread ∧
    ((unmintedRun.state 14).transferOf .ipcCall initThread ⟨4, 0, 0, 0, 0, 0⟩).map Transfer.receiver =
      some 1 ∧
    ((unmintedRun.state 15).tcb 1).savedA0 = resultTransferFailed ∧
    ¬ Undelivered 1 (unmintedRun.state 14) (unmintedRun.state 15) := by
  have hfacts : ((unmintedRun.state 15).tcb initThread).savedA0 = resultTransferFailed ∧
      ((unmintedRun.state 14).transferOf .ipcCall initThread ⟨4, 0, 0, 0, 0, 0⟩).map Transfer.receiver =
        some 1 ∧
      ((unmintedRun.state 15).tcb 1).savedA0 = resultTransferFailed ∧
      (unmintedRun.state 15).memory ((unmintedRun.state 14).tcb 1).ipcBuffer 8 ≠
        (unmintedRun.state 14).memory ((unmintedRun.state 14).tcb 1).ipcBuffer 8 := by
    decide +kernel
  obtain ⟨h1, h2, h3, h4⟩ := hfacts
  exact ⟨rfl, rfl, .inl h1, h2, h3, fun h => h4 (congrFun h.buffer 8)⟩

end State

end Aegir.Kernel
