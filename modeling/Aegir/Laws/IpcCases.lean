/-
  What Call, Send, Receive and Reply can end in, one constructor per outcome.

  The operations are nests of checks; every law about them needs the same case analysis.  It is made
  here once: each outcome says which checks were passed, through which states the operation went, and
  what it returns.
-/
import Aegir.Kernel.Ipc

namespace Aegir.Kernel

namespace State

variable {caller receiver : Nat} {s : IpcStatus} {k k' : State}

/-- The caller notes whether it wants a reply. -/
def wanting (k : State) (caller : Nat) (wanted : Bool) : State :=
  k.modTcb caller fun c => { c with replyWanted := wanted }

/-- The endpoint forgets its receiver, which is about to get a message. -/
def taking (k : State) (o : Nat) : State := k.modEndpoint o fun e => { e with waitingReceiver := 0 }

/-- A status that says that nothing was attempted. -/
def Refusal (s : IpcStatus) : Prop := s ≠ .ok ∧ s ≠ .wouldBlock ∧ s ≠ .transferFailed ∧ s ≠ .endpointGone

theorem resolveEndpoint_refusal {cap : Nat} {needed : Rights}
    (h : k.resolveEndpoint caller cap needed = .error s) : Refusal s := by
  unfold resolveEndpoint at h
  split at h
  · cases h
    simp [Refusal]
  · split at h
    · cases h
      simp [Refusal]
    · split at h
      · cases h
        simp [Refusal]
      · split at h
        · cases h
          simp [Refusal]
        · split at h
          · cases h
            simp [Refusal]
          · split at h <;> cases h

theorem transferMessage_status {sender : Nat} {badge : U64}
    (h : k.transferMessage sender receiver badge = (s, k')) (hs : s ≠ .ok) :
    s = .transferFailed ∨ s = .invalidTask := by
  unfold transferMessage at h
  split at h
  · dsimp only at h
    split at h
    · cases h
      exact .inl rfl
    · cases h
      exact absurd rfl hs
  · cases h
    exact .inr rfl

theorem mintReplyCap_status (h : k.mintReplyCap receiver caller = (.error s, k')) : s = .transferFailed := by
  unfold mintReplyCap at h
  split at h <;> cases h
  rfl

/-! ## Call and send -/

/-- What follows when the waiting `receiver` was handed the message, which `k₃` has transferred with status `s`. -/
inductive HandedOutcome (k₃ : State) (caller receiver : Nat) (badge : U64) :
    Bool → IpcStatus → IpcStatus × State → Prop
  | refused {wanted : Bool} (s : IpcStatus) (failure : s = .transferFailed ∨ s = .invalidTask) :
      HandedOutcome k₃ caller receiver badge wanted s (s, k₃.wakeWithResult receiver resultTransferFailed)
  | unminted (k₄ : State) (mint : k₃.mintReplyCap receiver caller = (.error .transferFailed, k₄)) :
      HandedOutcome k₃ caller receiver badge true .ok
        (.transferFailed, k₄.wakeWithResult receiver resultTransferFailed)
  | called (h : Nat) (k₄ : State) (mint : k₃.mintReplyCap receiver caller = (.ok h, k₄)) :
      HandedOutcome k₃ caller receiver badge true .ok (.wouldBlock,
        ((k₄.modTcb caller fun c => { c with callBadge := badge }).setA1 receiver
          (UInt64.ofNat h)).wakeWithResult receiver resultOk)
  | sent : HandedOutcome k₃ caller receiver badge false .ok
      (.ok, (k₃.setA1 receiver 0).wakeWithResult receiver resultOk)

/-- What follows when nobody receives; `k₂` has forgotten a stale receiver. -/
inductive QueuedOutcome (k₂ : State) (caller o : Nat) (badge : U64) : Bool → IpcStatus × State → Prop
  | blocked {wanted : Bool} (caps : wanted = false → k₂.hasCaps caller = true) :
      QueuedOutcome k₂ caller o badge wanted (k₂.blockCaller o caller badge)
  | unpooled (caps : k₂.hasCaps caller = false) (full : (k₂.queueSendCopy caller badge).1 = 0) :
      QueuedOutcome k₂ caller o badge false ((k₂.queueSendCopy caller badge).2.blockCaller o caller badge)
  | copied (caps : k₂.hasCaps caller = false) (pooled : (k₂.queueSendCopy caller badge).1 ≠ 0) :
      QueuedOutcome k₂ caller o badge false
        (.ok, (k₂.queueSendCopy caller badge).2.appendSend o (k₂.queueSendCopy caller badge).1)

/-- The outcomes of a call, whose caller wants a reply, and of a send. -/
inductive MessageOutcome (k : State) (caller cap : Nat) : Bool → IpcStatus × State → Prop
  | rejected {wanted : Bool} (s : IpcStatus) (refusal : Refusal s) : MessageOutcome k caller cap wanted (s, k)
  | gone {wanted : Bool} (o : Nat) (badge : U64)
      (resolved : k.resolveEndpoint caller cap sendRight = .ok (o, badge))
      (failed : (k.endpoint o).failed = true) :
      MessageOutcome k caller cap wanted (.endpointGone, k.wanting caller wanted)
  | handed {wanted : Bool} (o : Nat) (badge : U64) (s : IpcStatus) (k₃ : State) (r : IpcStatus × State)
      (resolved : k.resolveEndpoint caller cap sendRight = .ok (o, badge))
      (alive : (k.endpoint o).failed = false) (ready : (k.wanting caller wanted).receiverReady o = true)
      (transfer : ((k.wanting caller wanted).taking o).transferMessage caller
        (k.endpoint o).waitingReceiver badge = (s, k₃))
      (rest : HandedOutcome k₃ caller (k.endpoint o).waitingReceiver badge wanted s r) :
      MessageOutcome k caller cap wanted r
  | queued {wanted : Bool} (o : Nat) (badge : U64) (r : IpcStatus × State)
      (resolved : k.resolveEndpoint caller cap sendRight = .ok (o, badge))
      (alive : (k.endpoint o).failed = false) (unready : (k.wanting caller wanted).receiverReady o = false)
      (rest : QueuedOutcome ((k.wanting caller wanted).dropStaleReceiver o) caller o badge wanted r) :
      MessageOutcome k caller cap wanted r

theorem call_outcome (k : State) (caller cap : Nat) : MessageOutcome k caller cap true (k.call caller cap) := by
  unfold call
  split
  · exact .rejected _ (by simp [Refusal])
  · split
    · rename_i s hres
      exact .rejected s (resolveEndpoint_refusal hres)
    · rename_i o badge hres
      dsimp only
      split
      · rename_i hf
        exact .gone o badge hres hf
      · rename_i hf
        have hf : (k.endpoint o).failed = false := by simpa [modTcb] using hf
        split
        · rename_i hready
          split
          · rename_i k₃ htrans
            refine .handed o badge _ k₃ _ hres hf hready htrans ?_
            split
            · rename_i s k₄ hmint
              obtain rfl := mintReplyCap_status hmint
              exact .unminted k₄ hmint
            · rename_i h k₄ hmint
              exact .called h k₄ hmint
          · rename_i s k₃ hs htrans
            exact .handed o badge s k₃ _ hres hf hready htrans (.refused s (transferMessage_status htrans hs))
        · rename_i hready
          exact .queued o badge _ hres hf (Bool.eq_false_iff.mpr hready) (.blocked nofun)

theorem send_outcome (k : State) (caller cap : Nat) : MessageOutcome k caller cap false (k.send caller cap) := by
  unfold send
  split
  · exact .rejected _ (by simp [Refusal])
  · split
    · rename_i s hres
      exact .rejected s (resolveEndpoint_refusal hres)
    · rename_i o badge hres
      dsimp only
      split
      · rename_i hf
        exact .gone o badge hres hf
      · rename_i hf
        have hf : (k.endpoint o).failed = false := by simpa [modTcb] using hf
        split
        · rename_i hready
          split
          · rename_i k₃ htrans
            exact .handed o badge _ k₃ _ hres hf hready htrans .sent
          · rename_i s k₃ hs htrans
            exact .handed o badge s k₃ _ hres hf hready htrans (.refused s (transferMessage_status htrans hs))
        · rename_i hready
          refine .queued o badge _ hres hf (Bool.eq_false_iff.mpr hready) ?_
          split
          · rename_i hcaps
            exact .blocked fun _ => hcaps
          · rename_i hcaps
            have hcaps := Bool.eq_false_iff.mpr hcaps
            split
            · rename_i hfull
              exact .unpooled hcaps hfull
            · rename_i hpool
              exact .copied hcaps hpool

/-! ## Receive -/

/-- What a receive does when nobody is queued; `k₁` is the state after the look into the queue. -/
inductive IdleOutcome (k k₁ : State) (receiver o : Nat) : IpcStatus × Nat × State → Prop
  | copied (frame : Nat) (buffer : k.bufferOf receiver = some frame)
      (copies : (k₁.endpoint o).sendQueueHead ≠ 0) :
      IdleOutcome k k₁ receiver o (.ok, 0, k₁.deliverSend o frame)
  | occupied (copies : (k₁.endpoint o).sendQueueHead = 0)
      (other : (k₁.endpoint o).waitingReceiver ≠ 0 ∧ (k₁.endpoint o).waitingReceiver ≠ receiver) :
      IdleOutcome k k₁ receiver o (.invalidTask, 0, k₁)
  | registered (copies : (k₁.endpoint o).sendQueueHead = 0)
      (free : (k₁.endpoint o).waitingReceiver = 0 ∨ (k₁.endpoint o).waitingReceiver = receiver ∨
        k₁.isDead (k₁.endpoint o).waitingReceiver = true) :
      IdleOutcome k k₁ receiver o (.wouldBlock, 0,
        (k₁.modEndpoint o fun e => { e with waitingReceiver := receiver }).modTcb receiver
          fun c => { c with recvEp := o })

/-- What a receive does with a queued caller, whose message `k₂` has transferred with status `s`. -/
inductive TakenOutcome (k₂ : State) (receiver caller : Nat) : IpcStatus → IpcStatus × Nat × State → Prop
  | refused (s : IpcStatus) (failure : s = .transferFailed ∨ s = .invalidTask) :
      TakenOutcome k₂ receiver caller s (s, 0, k₂.wakeWithResult caller resultTransferFailed)
  | sent (unwanted : (k₂.tcb caller).replyWanted = false) :
      TakenOutcome k₂ receiver caller .ok (.ok, 0, k₂.wakeWithResult caller resultOk)
  | unminted (k₃ : State) (wanted : (k₂.tcb caller).replyWanted = true)
      (mint : k₂.mintReplyCap receiver caller = (.error .transferFailed, k₃)) :
      TakenOutcome k₂ receiver caller .ok (.transferFailed, 0, k₃.wakeWithResult caller resultTransferFailed)
  | called (h : Nat) (k₃ : State) (wanted : (k₂.tcb caller).replyWanted = true)
      (mint : k₂.mintReplyCap receiver caller = (.ok h, k₃)) : TakenOutcome k₂ receiver caller .ok (.ok, h, k₃)

/-- The outcomes of a receive. -/
inductive ReceiveOutcome (k : State) (receiver cap : Nat) : IpcStatus × Nat × State → Prop
  | rejected (s : IpcStatus) (refusal : Refusal s) : ReceiveOutcome k receiver cap (s, 0, k)
  | gone (o : Nat) (badge : U64)
      (resolved : k.resolveEndpoint receiver cap receiveRight = .ok (o, badge))
      (failed : (k.endpoint o).failed = true) : ReceiveOutcome k receiver cap (.endpointGone, 0, k)
  | idle (o : Nat) (badge : U64) (k₁ : State) (r : IpcStatus × Nat × State)
      (resolved : k.resolveEndpoint receiver cap receiveRight = .ok (o, badge))
      (alive : (k.endpoint o).failed = false) (dequeued : k.dequeueCaller o threadBound = (0, k₁))
      (rest : IdleOutcome k k₁ receiver o r) : ReceiveOutcome k receiver cap r
  | taken (o : Nat) (badge : U64) (caller : Nat) (s : IpcStatus) (k₁ k₂ : State) (r : IpcStatus × Nat × State)
      (resolved : k.resolveEndpoint receiver cap receiveRight = .ok (o, badge))
      (alive : (k.endpoint o).failed = false)
      (dequeued : k.dequeueCaller o threadBound = (caller, k₁)) (someone : caller ≠ 0)
      (transfer : k₁.transferMessage caller receiver (k₁.tcb caller).callBadge = (s, k₂))
      (rest : TakenOutcome k₂ receiver caller s r) : ReceiveOutcome k receiver cap r

theorem receive_outcome (k : State) (receiver cap : Nat) :
    ReceiveOutcome k receiver cap (k.receive receiver cap) := by
  unfold receive
  split
  · exact .rejected _ (by simp [Refusal])
  · rename_i frame hbuf
    split
    · rename_i s hres
      exact .rejected s (resolveEndpoint_refusal hres)
    · rename_i o badge hres
      split
      · rename_i hf
        exact .gone o badge hres hf
      · rename_i hf
        have hf := Bool.eq_false_iff.mpr hf
        cases hdeq : k.dequeueCaller o threadBound with
        | mk caller k₁ =>
          dsimp only
          split
          · rename_i h0
            subst h0
            refine .idle o badge k₁ _ hres hf hdeq ?_
            split
            · rename_i hcopies
              exact .copied frame hbuf hcopies
            · rename_i hcopies
              have hcopies := not_not.mp hcopies
              split
              · rename_i hother
                exact .occupied hcopies ⟨hother.1, hother.2.1⟩
              · rename_i hfree
                refine .registered hcopies ?_
                by_contra hn
                simp only [not_or] at hn
                exact hfree ⟨hn.1, hn.2.1, by simpa using hn.2.2⟩
          · rename_i hsome
            split
            · rename_i k₂ htrans
              refine .taken o badge caller _ k₁ k₂ _ hres hf hdeq hsome htrans ?_
              split
              · rename_i hwant
                exact .sent hwant
              · rename_i hwant
                have hwant : (k₂.tcb caller).replyWanted = true := by simpa using hwant
                split
                · rename_i s k₃ hmint
                  obtain rfl := mintReplyCap_status hmint
                  exact .unminted k₃ hwant hmint
                · rename_i h k₃ hmint
                  exact .called h k₃ hwant hmint
            · rename_i s k₂ hs htrans
              exact .taken o badge caller s k₁ k₂ _ hres hf hdeq hsome htrans
                (.refused s (transferMessage_status htrans hs))

/-! ## Reply -/

/-- The outcomes of a reply. -/
inductive ReplyOutcome (k : State) (replier cap : Nat) : IpcStatus × State → Prop
  | rejected (s : IpcStatus) (refusal : Refusal s) : ReplyOutcome k replier cap (s, k)
  | stale (e : CapEntry) (found : k.lookupCap replier cap = some e) (kind : e.kind = .replyObject)
      (mismatch : k.isDead e.object = true ∨ (k.tcb e.object).awaitingReply = false ∨
        e.badge ≠ (k.tcb e.object).replyGeneration) :
      ReplyOutcome k replier cap (.replyMissing, k.forgetCap replier cap)
  | unbuffered (e : CapEntry) (found : k.lookupCap replier cap = some e) (kind : e.kind = .replyObject)
      (live : k.isDead e.object = false) (awaiting : (k.tcb e.object).awaitingReply = true)
      (current : e.badge = (k.tcb e.object).replyGeneration) (buffer : k.bufferOf e.object = none) :
      ReplyOutcome k replier cap
        (.replyMissing, (k.forgetCap replier cap).wakeWithResult e.object resultReplyGone)
  | refused (e : CapEntry) (s : IpcStatus) (k₁ : State) (found : k.lookupCap replier cap = some e)
      (kind : e.kind = .replyObject) (live : k.isDead e.object = false)
      (awaiting : (k.tcb e.object).awaitingReply = true)
      (current : e.badge = (k.tcb e.object).replyGeneration)
      (transfer : (k.forgetCap replier cap).transferMessage replier e.object 0 = (s, k₁))
      (failure : s = .transferFailed ∨ s = .invalidTask) :
      ReplyOutcome k replier cap (.ok, k₁.wakeWithResult e.object resultTransferFailed)
  | delivered (e : CapEntry) (k₁ : State) (found : k.lookupCap replier cap = some e)
      (kind : e.kind = .replyObject) (live : k.isDead e.object = false)
      (awaiting : (k.tcb e.object).awaitingReply = true)
      (current : e.badge = (k.tcb e.object).replyGeneration)
      (transfer : (k.forgetCap replier cap).transferMessage replier e.object 0 = (.ok, k₁)) :
      ReplyOutcome k replier cap (.ok, (k₁.modTcb e.object fun c =>
        { c with awaitingReply := false, savedA0 := resultOk }).wake e.object)

theorem reply_outcome (k : State) (replier cap : Nat) :
    ReplyOutcome k replier cap (k.reply replier cap) := by
  unfold reply
  split
  · exact .rejected _ (by simp [Refusal])
  · split
    · exact .rejected _ (by simp [Refusal])
    · rename_i e hfound
      split
      · exact .rejected _ (by simp [Refusal])
      · rename_i hkind
        have hkind := not_not.mp hkind
        dsimp only
        split
        · rename_i hstale
          exact .stale e hfound hkind hstale
        · rename_i hok
          simp only [not_or, Bool.not_eq_true, Bool.not_eq_false, ne_eq, not_not] at hok
          split
          · rename_i hbuf
            exact .unbuffered e hfound hkind hok.1 hok.2.1 hok.2.2 hbuf
          · split
            · rename_i k₁ htrans
              exact .delivered e k₁ hfound hkind hok.1 hok.2.1 hok.2.2 htrans
            · rename_i s k₁ hs htrans
              exact .refused e s k₁ hfound hkind hok.1 hok.2.1 hok.2.2 htrans (transferMessage_status htrans hs)

end State

end Aegir.Kernel
