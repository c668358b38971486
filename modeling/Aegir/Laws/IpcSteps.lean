/-
  The four IPC operations are cap steps.

  The ACTOR of a call, a send or a reply is the process of the thread that makes it; the actor of a
  receive is the process of the caller whose message is taken from the queue.  All inserts go to OPEN
  processes, those of threads that were given to the scheduler: a receiver, a caller that awaits a
  reply and the acting thread are such threads by the law of who waits where.
-/
import Aegir.Laws.Rendezvous

namespace Aegir.Kernel

open Aegir.Arch Ledger Roster

/-- Some thread of the process was given to the scheduler and has not left it. -/
def Life.Open (l : Life) (p : Nat) : Prop :=
  ∃ t, (t = initThread ∨ (1 ≤ t ∧ t ≤ maxThreadSlots ∧ l.threadUsed (t - 1) = true)) ∧
    l.process t = p

namespace State

variable {k : State} {fresh : Option (Pool × Nat)} {cur o : Nat} {badge : U64} {s : IpcStatus}

theorem open_of_scheduled {t : Nat} (h : k.roster.Scheduled t) :
    k.ledger.life.Open (k.tcb t).process := ⟨t, h, rfl⟩

theorem open_le (hp : ∀ t, (k.tcb t).process ≤ initProcess) (p : Nat) (h : k.ledger.life.Open p) :
    p ≤ initProcess := by
  obtain ⟨t, -, rfl⟩ := h
  exact hp t

theorem open_of_running (hw : k.Waits) (hrun : (k.tcb cur).state = .running) :
    k.ledger.life.Open (k.tcb cur).process := open_of_scheduled (scheduled_of_running hw hrun)

theorem open_of_receiver (hw : k.Waits) (ho : o ≠ 0) (hr : (k.endpoint o).waitingReceiver ≠ 0) :
    k.ledger.life.Open (k.tcb (k.endpoint o).waitingReceiver).process := by
  have hs : (k.roster.thread (k.endpoint o).waitingReceiver).state = .blockedReceive :=
    (hw.sound.receiver o ho hr).1
  exact open_of_scheduled (hw.sound.scheduled _ (by rw [hs]; simp) (by rw [hs]; simp))

theorem handOver_steps {wanted : Bool} {k₃ : State}
    (hL : k.ledger.Counted fresh) (hw : k.Waits) (hp : ∀ t, (k.tcb t).process ≤ initProcess)
    (ho : o ≠ 0) (hready : (k.wanting cur wanted).receiverReady o = true)
    (htrans : ((k.wanting cur wanted).taking o).transferMessage cur
      (k.endpoint o).waitingReceiver badge = (s, k₃)) :
    k.ledger.CapSteps (k.tcb cur).process k.ledger.life.Open k₃.ledger ∧
    k.ledger.life.Open (k₃.tcb (k.endpoint o).waitingReceiver).process := by
  have hr := receiverReady_ne_zero hready
  rw [endpoint_wanting] at hr
  have hled : ((k.wanting cur wanted).taking o).ledger = k.ledger := by simp
  have hopen := open_of_receiver hw ho hr
  have hstep := transferMessage_steps k.ledger.life.Open cur hr (open_le hp)
    ((k.wanting cur wanted).taking o) badge (hled ▸ hL)
    (by rw [process_of_ledger_eq hled]; exact hopen)
  rw [htrans, hled, process_of_ledger_eq hled cur] at hstep
  exact ⟨hstep, by rw [process_of_steps hstep]; exact hopen⟩

/-! ## Call and send -/

theorem allocQueuedSend_steps (hL : k.ledger.Counted fresh) :
    k.ledger.SameCaps k.allocQueuedSend.2.ledger := by
  have hsame : ∀ (k' : State), k'.ledger = { k.ledger with
      pmm := k'.pmm, sendFrames := k'.sendSlab.frames } → k'.pmm.Wf → k.ledger.SameCaps k'.ledger := by
    intro k' h hp
    rw [h]
    exact ⟨fun _ => rfl, hL.table, hp, rfl, rfl, rfl⟩
  unfold allocQueuedSend Slab.ensureFree Slab.grow
  split_ifs with hf
  · cases halloc : k.pmm.allocateFrame with
    | mk r p =>
      cases r with
      | error s => exact hsame _ rfl (Pmm.allocateFrame_error hL.pmm halloc).1
      | ok f => exact hsame _ rfl (Pmm.allocateFrame_ok hL.pmm halloc).1
  · exact hsame _ rfl hL.pmm

theorem queueSendCopy_steps (caller : Nat) (badge : U64) (hL : k.ledger.Counted fresh) :
    k.ledger.SameCaps (k.queueSendCopy caller badge).2.ledger := by
  have h := allocQueuedSend_steps hL
  unfold queueSendCopy
  dsimp only
  split
  · exact h
  · rw [ledger_modQueuedSend]
    exact h

theorem message_steps {r : IpcStatus × State} (hout : MessageOutcome k cur cap wanted r)
    (hL : k.ledger.Counted none) (hw : k.Waits) (hp : ∀ t, (k.tcb t).process ≤ initProcess) :
    k.ledger.CapSteps (k.tcb cur).process k.ledger.life.Open r.2.ledger := by
  -- the state in which a message is queued has the ledger of `k`
  have hled : ∀ o, ((k.wanting cur wanted).dropStaleReceiver o).ledger = k.ledger := by
    intro o
    rw [ledger_dropStaleReceiver, ledger_wanting]
  cases hout with
  | rejected s refusal => exact .refl _
  | gone o badge resolved failed => exact .of_eq (by simp)
  | handed o badge s k₃ r resolved alive ready transfer rest =>
    obtain ⟨ho, -⟩ := resolveEndpoint_not_free hL resolved
    obtain ⟨hstep, hopen⟩ := handOver_steps hL hw hp ho ready transfer
    have hmint := mintReplyCap_steps (k.tcb cur).process cur k₃ (hstep.counted (open_le hp) hL) hopen
    cases rest with
    | refused =>
      rw [ledger_wakeWithResult]
      exact hstep
    | unminted k₄ mint =>
      rw [mint] at hmint
      rw [ledger_wakeWithResult]
      exact hstep.trans hmint
    | called h k₄ mint =>
      rw [mint] at hmint
      rw [ledger_wakeWithResult, ledger_setA1, ledger_modTcb _ _ _ rfl Iff.rfl rfl]
      exact hstep.trans hmint
    | sent =>
      rw [ledger_wakeWithResult, ledger_setA1]
      exact hstep
  | queued o badge r resolved alive unready rest =>
    have hcopy := queueSendCopy_steps (k := (k.wanting cur wanted).dropStaleReceiver o) cur
      badge (by rw [hled]; exact hL)
    rw [hled] at hcopy
    cases rest with
    | blocked =>
      rw [ledger_blockCaller]
      exact .of_eq (hled o)
    | unpooled =>
      rw [ledger_blockCaller]
      exact .of_same hcopy
    | copied =>
      rw [ledger_appendSend]
      exact .of_same hcopy

/-! ## Receive and reply -/

variable {k₁ : State} {caller cap : Nat} {e : CapEntry}

/-- The caller whose message a receive takes. -/
def queuedCaller (k : State) (receiver cap : Nat) : Nat :=
  match k.resolveEndpoint receiver cap receiveRight with
  | .error _ => 0
  | .ok (object, _) => (k.dequeueCaller object threadBound).1

theorem queuedCaller_eq (resolved : k.resolveEndpoint cur cap receiveRight = .ok (o, badge))
    (dequeued : k.dequeueCaller o threadBound = (caller, k₁)) :
    k.queuedCaller cur cap = caller ∧ k₁.ledger = k.ledger := by
  have hled := ledger_dequeueCaller k o threadBound
  unfold queuedCaller
  rw [resolved]
  dsimp only
  rw [dequeued] at hled ⊢
  exact ⟨rfl, hled⟩

theorem takeOver_steps {k₂ : State}
    (hL : k.ledger.Counted fresh) (hw : k.Waits) (hp : ∀ t, (k.tcb t).process ≤ initProcess)
    (hcur : cur ≠ 0) (hrun : (k.tcb cur).state = .running) (hled : k₁.ledger = k.ledger)
    (htrans : k₁.transferMessage caller cur badge = (s, k₂)) :
    k.ledger.CapSteps (k.tcb caller).process k.ledger.life.Open k₂.ledger ∧
    k.ledger.life.Open (k₂.tcb cur).process := by
  have hopen := open_of_running hw hrun
  have hstep := transferMessage_steps k.ledger.life.Open caller hcur
    (open_le hp) k₁ badge (hled ▸ hL) (by rw [process_of_ledger_eq hled]; exact hopen)
  rw [htrans, hled, process_of_ledger_eq hled caller] at hstep
  exact ⟨hstep, by rw [process_of_steps hstep]; exact hopen⟩

theorem receive_steps (cap : Nat) (hL : k.ledger.Counted none) (hw : k.Waits)
    (hp : ∀ t, (k.tcb t).process ≤ initProcess) (hcur : cur ≠ 0)
    (hrun : (k.tcb cur).state = .running) :
    k.ledger.CapSteps (k.tcb (k.queuedCaller cur cap)).process k.ledger.life.Open
      (k.receive cur cap).2.2.ledger := by
  have hout := receive_outcome k cur cap
  generalize k.receive cur cap = r at hout ⊢
  cases hout with
  | rejected s refusal => exact .refl _
  | gone o badge resolved failed => exact .refl _
  | idle o badge k₁ r resolved alive dequeued rest =>
    have hled := (queuedCaller_eq resolved dequeued).2
    cases rest with
    | copied =>
      rw [ledger_deliverSend]
      exact .of_eq hled
    | occupied => exact .of_eq hled
    | registered =>
      rw [ledger_modTcb _ _ _ rfl Iff.rfl rfl, ledger_modEndpoint _ _ _ rfl]
      exact .of_eq hled
  | taken o badge caller s k₁ k₂ r resolved alive dequeued someone transfer rest =>
    obtain ⟨hc, hled⟩ := queuedCaller_eq resolved dequeued
    obtain ⟨hstep, hopen⟩ := takeOver_steps hL hw hp hcur hrun hled transfer
    have hmint := mintReplyCap_steps (k.tcb caller).process caller k₂ (hstep.counted (open_le hp) hL) hopen
    rw [hc]
    cases rest with
    | refused | sent =>
      rw [ledger_wakeWithResult]
      exact hstep
    | unminted k₃ wanted mint =>
      rw [mint] at hmint
      rw [ledger_wakeWithResult]
      exact hstep.trans hmint
    | called h k₃ wanted mint =>
      rw [mint] at hmint
      exact hstep.trans hmint

theorem forgetReply_steps (actor : Nat) (target : Nat → Prop)
    (hL : k.ledger.Counted fresh) (found : k.lookupCap cur cap = some e)
    (kind : e.kind = .replyObject) :
    k.ledger.CapSteps actor target (k.forgetCap cur cap).ledger := by
  obtain ⟨hent, -⟩ := lookupCap_eq_some found
  exact forgetCap_steps hL (by rw [hent, kind]; rfl)

theorem answer_steps (hL : k.ledger.Counted none) (hw : k.Waits) (hp : ∀ t, (k.tcb t).process ≤ initProcess)
    (found : k.lookupCap cur cap = some e) (kind : e.kind = .replyObject)
    (live : k.isDead e.object = false) (awaiting : (k.tcb e.object).awaitingReply = true)
    (htrans : (k.forgetCap cur cap).transferMessage cur e.object 0 = (s, k₁)) :
    k.ledger.CapSteps (k.tcb cur).process k.ledger.life.Open k₁.ledger := by
  have hc : e.object ≠ 0 ∧ (k.tcb e.object).state ≠ .dead := by simpa [isDead] using live
  have hs : (k.roster.thread e.object).state = .blockedSend :=
    (hw.sound.awaiting e.object awaiting).resolve_right hc.2
  have hopen : k.ledger.life.Open (k.tcb e.object).process :=
    open_of_scheduled (hw.sound.scheduled _ (by rw [hs]; simp) (by rw [hs]; simp))
  have hforget := forgetReply_steps (k.tcb cur).process k.ledger.life.Open hL found kind
  have hstep := transferMessage_steps k.ledger.life.Open cur hc.1 (open_le hp)
    (k.forgetCap cur cap) 0 (hforget.counted (open_le hp) hL)
    (by rw [process_of_steps hforget]; exact hopen)
  rw [htrans, process_of_steps hforget] at hstep
  exact hforget.trans hstep

theorem reply_steps (hL : k.ledger.Counted none) (hw : k.Waits) (hp : ∀ t, (k.tcb t).process ≤ initProcess) :
    k.ledger.CapSteps (k.tcb cur).process k.ledger.life.Open (k.reply cur cap).2.ledger := by
  have hout := reply_outcome k cur cap
  generalize k.reply cur cap = r at hout ⊢
  cases hout with
  | rejected s refusal => exact .refl _
  | stale e found kind mismatch => exact forgetReply_steps _ _ hL found kind
  | unbuffered e found kind live awaiting current buffer =>
    rw [ledger_wakeWithResult]
    exact forgetReply_steps _ _ hL found kind
  | refused e s k₁ found kind live awaiting current transfer failure =>
    rw [ledger_wakeWithResult]
    exact answer_steps hL hw hp found kind live awaiting transfer
  | delivered e k₁ found kind live awaiting current transfer =>
    rw [ledger_wake, ledger_modTcb _ _ _ rfl Iff.rfl rfl]
    exact answer_steps hL hw hp found kind live awaiting transfer

end State

end Aegir.Kernel
