/-
  Two ways for a signal to complete a receive.

  A thread bound to a notification gets its bits through `ipc_recv`: at once when bits are PENDING
  (the fast path of the trap handler, which writes the live registers), or later, when a signal finds
  it BLOCKED in the receive (and edits its saved context).  Servers look at `a1` to see whether there
  is a reply cap.  The fast path clears it; the signal leaves what user mode passed in, and it also
  completes the receive when no bit is set.

  A signal first goes to the thread RECORDED by the last `ntfn_wait`, and that record can be stale: the
  thread was woken by a signal on the notification it is bound to, which clears no record elsewhere.  The
  bits then go to `a0` of whatever the thread is blocked in by now.
-/
import Aegir.Laws.Rendezvous
import Aegir.Traps.Notifications

namespace Aegir.Kernel

open Aegir.Arch Aegir.Lib

namespace State

variable {k : State} {t n frame : Nat} {f : TrapFrame} {bits : U64}

/-- **What user mode is promised** of a receive that a notification completes: `Ok`, no reply handle,
    the notification label, a non-zero word of bits, and nothing else in the message. -/
structure Presents (k : State) (t frame : Nat) : Prop where
  a0 : (k.tcb t).savedA0 = resultOk
  a1 : (k.tcb t).savedA1 = 0
  label : (k.memory frame).label = notificationLabel
  bits : (k.memory frame).word 0 ≠ 0
  words : ∀ i, 1 ≤ i → i < 6 → (k.memory frame).word i = 0
  caps : ∀ i, i < 4 → (k.memory frame).cap i = 0

/-- **A signal completes a receive as promised**: the thread is ready, it has left the endpoint, and it is
    presented its bits. -/
structure Completes (k : State) (t frame : Nat) : Prop extends Presents k t frame where
  ready : (k.tcb t).state = .ready
  left : (k.tcb t).recvEp = 0

/-- The receive blocks: no bits are pending, and the endpoint has nothing for the thread. -/
def BlocksInRecv (k : State) (t : Nat) (f : TrapFrame) : Prop :=
  (k.notification (k.tcb t).boundNtfn).bits = 0 ∧
  ∃ cap k', decodeHandle f.a0 = some cap ∧
    (k.takeNotification (k.tcb t).boundNtfn).2.receive t cap = (.wouldBlock, 0, k')

/-- The thread still waits in the receive in which it blocked. -/
structure WaitsSince (blocked k : State) (t : Nat) : Prop where
  state : (k.tcb t).state = (blocked.tcb t).state
  a1 : (k.tcb t).savedA1 = (blocked.tcb t).savedA1
  recvEp : (k.tcb t).recvEp = (blocked.tcb t).recvEp

/-! ## The synthetic message -/

theorem memory_writeNotificationMessage (bits : U64) (hbuf : k.bufferOf t = some frame) :
    (k.writeNotificationMessage t bits).memory = Function.update k.memory frame
      ((k.memory frame).putMessage notificationLabel (fun i => if i = 0 then bits else 0) (fun _ => 0)
        (k.memory frame).badge) := by
  unfold writeNotificationMessage
  rw [hbuf]
  rfl

theorem presents_iff {w : Page} (ha0 : (k.tcb t).savedA0 = resultOk)
    (hmem : k.memory frame = w.putMessage notificationLabel (fun i => if i = 0 then bits else 0)
      (fun _ => 0) w.badge) : Presents k t frame ↔ (k.tcb t).savedA1 = 0 ∧ bits ≠ 0 := by
  have hword : ∀ i, i < 6 → (k.memory frame).word i = if i = 0 then bits else 0 := by
    intro i hi
    unfold Page.word
    rw [hmem]
    unfold Page.putMessage
    rw [if_neg (by omega), if_pos (by omega)]
    have : (8 + 8 * i - 8) / 8 = i := by omega
    rw [this]
  constructor
  · intro h
    have hb := h.bits
    rw [hword 0 (by omega), if_pos rfl] at hb
    exact ⟨h.a1, hb⟩
  · rintro ⟨ha1, hb⟩
    refine ⟨ha0, ha1, ?_, ?_, ?_, ?_⟩
    · unfold Page.label
      rw [hmem]
      rfl
    · rw [hword 0 (by omega), if_pos rfl]
      exact hb
    · intro i h1 h6
      rw [hword i h6, if_neg (by omega)]
    · intro i hi
      unfold Page.cap
      rw [hmem]
      unfold Page.putMessage
      rw [if_neg (by omega), if_neg (by omega), if_pos (by omega)]

/-! ## The fast path -/

theorem takeNotification_slot (hn : k.isNotificationSlot n = true) :
    k.takeNotification n = ((k.notification n).bits, k.modNotification n fun m => { m with bits := 0 }) := by
  unfold takeNotification
  rw [if_pos hn]

theorem handleIpcRecv_presents (hn : k.isNotificationSlot (k.tcb t).boundNtfn = true)
    (hbuf : k.bufferOf t = some frame) (hbits : (k.notification (k.tcb t).boundNtfn).bits ≠ 0)
    (f : TrapFrame) : Presents (k.handleIpcRecv t f) t frame := by
  have h0 : (k.tcb t).boundNtfn ≠ 0 := by
    intro h
    rw [h] at hn
    exact absurd hn (by simp [isNotificationSlot])
  unfold handleIpcRecv
  rw [if_neg h0, takeNotification_slot hn, if_pos hbits]
  have hmem := memory_writeNotificationMessage (k := k.modNotification (k.tcb t).boundNtfn
    fun m => { m with bits := 0 }) (k.notification (k.tcb t).boundNtfn).bits hbuf
  generalize ((k.modNotification (k.tcb t).boundNtfn fun m => { m with bits := 0 }).writeNotificationMessage
    t (k.notification (k.tcb t).boundNtfn).bits) = k₁ at hmem ⊢
  have hregs : (((k₁.setA0 t resultOk).setA1 t 0).tcb t).savedA0 = resultOk ∧
      (((k₁.setA0 t resultOk).setA1 t 0).tcb t).savedA1 = 0 := by
    simp [setA0, setA1, modTcb]
  refine (presents_iff hregs.1 (w := k.memory frame) ?_).mpr ⟨hregs.2, hbits⟩
  show k₁.memory frame = _
  rw [hmem, Function.update_self]
  rfl

/-! ## The blocked receive -/

theorem handleIpcRecv_blocked (hn : k.isNotificationSlot (k.tcb t).boundNtfn = true)
    (hblock : k.BlocksInRecv t f) :
    ((k.handleIpcRecv t f).tcb t).state = .blockedReceive ∧
    ((k.handleIpcRecv t f).tcb t).savedA1 = f.a1 ∧ ((k.handleIpcRecv t f).tcb t).recvEp ≠ 0 := by
  obtain ⟨hbits, cap, k', hcap, hrecv⟩ := hblock
  have h0 : (k.tcb t).boundNtfn ≠ 0 := by
    intro h
    rw [h] at hn
    exact absurd hn (by simp [isNotificationSlot])
  unfold handleIpcRecv
  have htake : (k.takeNotification (k.tcb t).boundNtfn).1 = 0 := by
    rw [takeNotification_slot hn]
    exact hbits
  rw [if_neg h0, if_neg (not_not.mpr htake)]
  unfold receiveEndpoint
  rw [hcap]
  dsimp only
  rw [hrecv]
  -- the thread is registered with the endpoint that its cap names
  have hreg : (k'.tcb t).recvEp ≠ 0 := by
    have hout := receive_outcome (k.takeNotification (k.tcb t).boundNtfn).2 t cap
    rw [hrecv] at hout
    cases hout with
    | rejected _ refusal => exact absurd rfl refusal.2.1
    | idle o badge _ _ resolved _ _ rest =>
      cases rest with
      | registered =>
        obtain ⟨e, -, -, -, ho, -⟩ := resolveEndpoint_ok resolved
        simpa [modTcb] using ho
    | taken _ _ _ _ _ _ _ _ _ _ _ _ rest =>
      cases rest with
      | refused _ failure => rcases failure with h | h <;> cases h
  simp [block, setA0, setA1, modTcb, hreg]

theorem cancelReceive_tcb (ht : t ≠ 0) : (k.cancelReceive t).tcb t = { k.tcb t with recvEp := 0 } ∧
    (k.cancelReceive t).memory = k.memory ∧ (k.cancelReceive t).notification = k.notification ∧
    (k.cancelReceive t).notificationSlab = k.notificationSlab := by
  unfold cancelReceive
  rw [if_neg ht]
  dsimp only
  split
  · rename_i h0
    refine ⟨?_, rfl, rfl, rfl⟩
    rw [← h0]
  · have htcb : ∀ j : State, j.tcb t = k.tcb t →
        (j.modTcb t fun c => { c with recvEp := 0 }).tcb t = { k.tcb t with recvEp := 0 } := by
      intro j hj
      simp [modTcb, hj]
    split
    · exact ⟨htcb _ rfl, rfl, rfl, rfl⟩
    · exact ⟨htcb _ rfl, rfl, rfl, rfl⟩

theorem wake_receiver (hs : (k.tcb t).state = .blockedReceive) (ht : t ≠ 0) :
    k.wake t = k.modTcb t fun c => { c with state := .ready } := by
  unfold wake
  rw [if_neg ht, hs]

theorem wakeWithMessage_completes {j : State} (ht : t ≠ 0) (hn : j.isNotificationSlot n = true)
    (hs : (j.tcb t).state = .blockedReceive) (hbuf : j.bufferOf t = some frame) :
    (j.wakeWithMessage t n).tcb t = { j.tcb t with recvEp := 0, savedA0 := resultOk, state := .ready } ∧
    (j.wakeWithMessage t n).memory frame = (j.memory frame).putMessage notificationLabel
      (fun i => if i = 0 then (j.notification n).bits else 0) (fun _ => 0) (j.memory frame).badge := by
  obtain ⟨htcb, hmem, hntfn, hslab⟩ := cancelReceive_tcb (k := j) ht
  unfold wakeWithMessage
  generalize j.cancelReceive t = j1 at htcb hmem hntfn hslab ⊢
  have hn1 : j1.isNotificationSlot n = true := by
    unfold isNotificationSlot at hn ⊢
    rw [hslab]
    exact hn
  have hbuf1 : (j1.modNotification n fun m => { m with bits := 0 }).bufferOf t = some frame := by
    have hsame : (j1.modNotification n fun m => { m with bits := 0 }).bufferOf t = j1.bufferOf t := rfl
    rw [hsame, ← hbuf]
    unfold bufferOf
    rw [htcb]
  rw [takeNotification_slot hn1]
  dsimp only
  have hw := memory_writeNotificationMessage (j1.notification n).bits hbuf1
  have hregs : ((j1.modNotification n fun m => { m with bits := 0 }).writeNotificationMessage t
      (j1.notification n).bits).tcb = j1.tcb := by
    unfold writeNotificationMessage
    split <;> rfl
  generalize ((j1.modNotification n fun m => { m with bits := 0 }).writeNotificationMessage t
      (j1.notification n).bits) = j2 at hw hregs ⊢
  have hself : (j2.setA0 t resultOk).tcb t = { j.tcb t with recvEp := 0, savedA0 := resultOk } := by
    simp [setA0, modTcb, hregs, htcb]
  rw [wake_receiver (by rw [hself]; exact hs) ht]
  refine ⟨?_, ?_⟩
  · show Function.update _ t _ t = _
    rw [Function.update_self, hself]
  · show j2.memory frame = _
    rw [hw, Function.update_self, hntfn]
    show (j1.memory frame).putMessage _ _ _ (j1.memory frame).badge = _
    rw [hmem]

section

variable (hn : k.isNotificationSlot n = true)

include hn

/-- The bits go to the recorded waiter, if there is one, and what that thread is blocked in stays as it was. -/
theorem signal_recorded (hw : (k.notification n).waiting ≠ 0)
    (hs : (k.tcb t).state = .blockedReceive) (bits : U64) :
    ((k.signal n bits).tcb t).recvEp = (k.tcb t).recvEp ∧
    (((k.signal n bits).tcb t).state ≠ .blockedReceive ↔ (k.notification n).waiting = t) := by
  unfold signal
  rw [if_pos hn]
  dsimp only
  have hwait : ((k.modNotification n fun m => { m with bits := m.bits ||| bits }).notification n).waiting =
      (k.notification n).waiting := by
    simp [modNotification]
  rw [hwait, if_pos hw]
  generalize (k.notification n).waiting = w at hw ⊢
  have htake : ∀ j : State, (j.takeNotification n).2.tcb = j.tcb := by
    intro j
    unfold takeNotification
    split <;> rfl
  have htcb : ∀ {j : State} (v : U64), j.tcb = k.tcb → (((j.setA0 w v).wake w).tcb t).recvEp = (k.tcb t).recvEp ∧
      ((((j.setA0 w v).wake w).tcb t).state ≠ .blockedReceive ↔ w = t) := by
    intro j v hj
    by_cases hwt : w = t
    · subst hwt
      rw [wake_receiver (by simp [setA0, modTcb, hj, hs]) hw]
      simp [setA0, modTcb, hj]
    · have hother : ((j.setA0 w v).wake w).tcb t = k.tcb t := by
        unfold wake
        rw [if_neg hw]
        split <;> simp [setA0, modTcb, Ne.symm hwt, hj]
      rw [hother, hs]
      simp [hwt]
  exact htcb _ (htake _)

theorem signal_bound
    (hbound : (k.notification n).boundThread = t) (ht : t ≠ 0) (hwait : (k.notification n).waiting = 0)
    (hs : (k.tcb t).state = .blockedReceive) (hbuf : k.bufferOf t = some frame) (bits : U64) :
    (k.signal n bits).tcb t = { k.tcb t with recvEp := 0, savedA0 := resultOk, state := .ready } ∧
    (k.signal n bits).memory frame = (k.memory frame).putMessage notificationLabel
      (fun i => if i = 0 then (k.notification n).bits ||| bits else 0) (fun _ => 0)
      (k.memory frame).badge := by
  have hk1 : (k.modNotification n fun m => { m with bits := m.bits ||| bits }).notification n =
      { k.notification n with bits := (k.notification n).bits ||| bits } := by
    simp [modNotification]
  have htcb : (k.modNotification n fun m => { m with bits := m.bits ||| bits }).tcb = k.tcb := rfl
  unfold signal
  rw [if_pos hn]
  dsimp only
  rw [hk1]
  rw [hwait, hbound, if_neg (by simp), if_neg ht, htcb, hs, if_neg (by simp), if_pos rfl]
  have hdone := wakeWithMessage_completes (j := k.modNotification n fun m =>
    { m with bits := m.bits ||| bits }) ht hn hs hbuf
  rw [hk1] at hdone
  exact hdone

/-- What the signal of a notification does to a receive: it leaves it alone exactly if another thread is recorded as
    waiter, and completes it as promised exactly if none is, user mode passed 0 in `a1` and some bit is set. -/
theorem signal_completes_iff (hbound : (k.notification n).boundThread = t)
    (ht : t ≠ 0) (hs : (k.tcb t).state = .blockedReceive) (hrecv : (k.tcb t).recvEp ≠ 0)
    (hbuf : k.bufferOf t = some frame) (bits : U64) :
    (((k.signal n bits).tcb t).state ≠ .blockedReceive → Completes (k.signal n bits) t frame) ↔
      ((k.notification n).waiting ≠ 0 ∧ (k.notification n).waiting ≠ t) ∨
      ((k.notification n).waiting = 0 ∧ (k.tcb t).savedA1 = 0 ∧ (k.notification n).bits ||| bits ≠ 0) := by
  by_cases hw : (k.notification n).waiting = 0
  · obtain ⟨htcb, hmem⟩ := signal_bound hn hbound ht hw hs hbuf bits
    have hpresents := presents_iff (k := k.signal n bits) (t := t) (by rw [htcb]) hmem
    rw [htcb] at hpresents
    constructor
    · intro h
      have hc := h (by rw [htcb]; simp)
      exact .inr ⟨hw, hpresents.mp hc.toPresents⟩
    · rintro (⟨h, -⟩ | ⟨-, h⟩) -
      · exact absurd hw h
      · exact ⟨hpresents.mpr h, by rw [htcb], by rw [htcb]⟩
  · obtain ⟨hep, hleaves⟩ := signal_recorded hn hw hs bits
    rw [hleaves]
    constructor
    · intro h
      refine .inl ⟨hw, fun hwt => hrecv ?_⟩
      exact hep.symm.trans (h hwt).left
    · rintro (⟨-, h⟩ | ⟨h, -⟩) hwt
      · exact absurd hwt h
      · exact absurd h hw

end

/-- Init binds itself to a notification, gives a new process the right to signal it, and receives on
    an endpoint with `a1` in its second register; then the process signals `bits`. -/
def recvScript (a1 bits : U64) : List SignalAction :=
  [ .kernel (.syscall .ntfnCreate initThread ⟨0, 0, 0, 0, 0, 0⟩),
    .kernel (.syscall .epCreate initThread ⟨0, 0, 0, 0, 0, 0⟩),
    .ntfn .bindThread initThread ⟨4, 0, 0, 0, 0, 0⟩,
    .kernel (.userWrite imageMachine.ipcBuffer (grantPage 4 2)),
    .kernel (.syscall .spawn initThread ⟨1, 1, 0, 0, 0, 0⟩),
    .kernel (.dispatch 1),
    .kernel (.syscall .ipcRecv initThread ⟨5, a1, 0, 0, 0, 0⟩),
    .ntfn .signal 1 ⟨1, bits, 0, 0, 0, 0⟩ ]

/-- Init passes 9 in `a1`, and one bit is signalled. -/
def staleRun : Run signalStep 8 :=
  Run.ofList signalStep (boot imageMachine) (.interrupt 0) (recvScript 9 1) (by decide +kernel)

/-- Init passes 0 in `a1`, and no bit is signalled. -/
def emptyRun : Run signalStep 8 :=
  Run.ofList signalStep (boot imageMachine) (.interrupt 0) (recvScript 0 0) (by decide +kernel)

theorem blocksInRecv_of {k : State} {t cap : Nat} {f : TrapFrame}
    (hbits : (k.notification (k.tcb t).boundNtfn).bits = 0) (hcap : decodeHandle f.a0 = some cap)
    (hrecv : ((k.takeNotification (k.tcb t).boundNtfn).2.receive t cap).1 = .wouldBlock ∧
      ((k.takeNotification (k.tcb t).boundNtfn).2.receive t cap).2.1 = 0) : k.BlocksInRecv t f :=
  ⟨hbits, cap, _, hcap, Prod.ext hrecv.1 (Prod.ext hrecv.2 rfl)⟩

end State

end Aegir.Kernel
