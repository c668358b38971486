/-
  The ROSTER of a kernel state: what every thread is doing, and who is queued where.

  This is the counterpart of the ledger.  The operations on tables, counts and memory leave it
  alone; the queueing, waking and teardown code is described by what it does to it.

  The roster keeps, of a thread block, the fields by which threads wait for each other, and of an
  endpoint its caller queue and its registered receiver.
-/
import Aegir.Kernel.Boot
import Aegir.Kernel.Threads
import Aegir.Kernel.Ipc

namespace Aegir.Kernel

open Aegir.Arch Function

/-- The links of `Thread_Wait`: the head of the list of those who wait for the thread, its successor
    in the list it is in, and whom it waits for. -/
structure Vigil where
  head : Nat
  next : Nat
  target : Nat

/-- The waiting-related fields of a thread block. -/
structure ThreadIpc where
  state : ThreadState
  awaiting : Bool
  generation : U64
  next : Nat
  queuedOn : Nat
  recvEp : Nat
  vigil : Vigil
  boundNtfn : Nat

/-- The caller queue and the receiver of an endpoint. -/
structure EndpointIpc where
  head : Nat
  tail : Nat
  receiver : Nat
  failed : Bool

/-- Who waits where. -/
@[ext] structure Roster where
  thread : Nat → ThreadIpc
  ep : Nat → EndpointIpc
  ntfnWaiting : Nat → Nat
  lineWaiter : Nat → Nat
  threadUsed : Nat → Bool

def Tcb.ipc (c : Tcb) : ThreadIpc :=
  { state := c.state, awaiting := c.awaitingReply, generation := c.replyGeneration
    next := c.queueNext, queuedOn := c.queuedOnEp, recvEp := c.recvEp
    vigil := ⟨c.waitersHead, c.waitersNext, c.waitingFor⟩, boundNtfn := c.boundNtfn }

def Endpoint.ipc (e : Endpoint) : EndpointIpc :=
  { head := e.queueHead, tail := e.queueTail, receiver := e.waitingReceiver, failed := e.failed }

namespace Roster

/-- Change one thread. -/
def setThread (R : Roster) (t : Nat) (x : ThreadIpc) : Roster :=
  { R with thread := update R.thread t x }

/-- Change one endpoint. -/
def setEp (R : Roster) (o : Nat) (e : EndpointIpc) : Roster :=
  { R with ep := update R.ep o e }

section

variable (R : Roster)

@[simp] theorem setThread_self (t : Nat) : R.setThread t (R.thread t) = R := by
  unfold setThread
  rw [update_eq_self]

@[simp] theorem setEp_self (o : Nat) : R.setEp o (R.ep o) = R := by
  unfold setEp
  rw [update_eq_self]

@[simp] theorem setThread_setThread (t : Nat) (x y : ThreadIpc) :
    (R.setThread t x).setThread t y = R.setThread t y := by
  unfold setThread
  rw [update_idem]

@[simp] theorem setEp_setEp (o : Nat) (d e : EndpointIpc) :
    (R.setEp o d).setEp o e = R.setEp o e := by
  unfold setEp
  rw [update_idem]

@[simp] theorem setThread_thread (t : Nat) (x : ThreadIpc) :
    (R.setThread t x).thread = update R.thread t x := rfl

@[simp] theorem setThread_ep (t : Nat) (x : ThreadIpc) : (R.setThread t x).ep = R.ep := rfl

@[simp] theorem setEp_thread (o : Nat) (e : EndpointIpc) : (R.setEp o e).thread = R.thread := rfl

@[simp] theorem setEp_ep (o : Nat) (e : EndpointIpc) : (R.setEp o e).ep = update R.ep o e := rfl

end

end Roster

namespace State

/-- The part of a state that says who waits where. -/
def roster (k : State) : Roster where
  thread := fun t => (k.tcb t).ipc
  ep := fun o => (k.endpoint o).ipc
  ntfnWaiting := fun o => (k.notification o).waiting
  lineWaiter := fun o => (k.device o).waiter
  threadUsed := k.threadUsed

@[simp] theorem roster_thread (k : State) (t : Nat) : k.roster.thread t = (k.tcb t).ipc := rfl

@[simp] theorem roster_ep (k : State) (o : Nat) : k.roster.ep o = (k.endpoint o).ipc := rfl

/-! ## Changes of one record -/

section

variable (k : State) (o : Nat)

theorem roster_modTcb (t : Nat) (f : Tcb → Tcb) :
    (k.modTcb t f).roster = k.roster.setThread t (f (k.tcb t)).ipc := by
  unfold roster Roster.setThread
  congr 1
  funext u
  by_cases hu : u = t
  · subst hu; simp [modTcb]
  · simp [modTcb, hu]

theorem roster_modEndpoint (f : Endpoint → Endpoint) :
    (k.modEndpoint o f).roster = k.roster.setEp o (f (k.endpoint o)).ipc := by
  unfold roster Roster.setEp
  congr 1
  funext u
  by_cases hu : u = o
  · subst hu; simp [modEndpoint]
  · simp [modEndpoint, hu]

theorem roster_modTcb_same (t : Nat) (f : Tcb → Tcb)
    (h : (f (k.tcb t)).ipc = (k.tcb t).ipc) : (k.modTcb t f).roster = k.roster := by
  rw [roster_modTcb, h]
  exact Roster.setThread_self k.roster t

/-- A change of an endpoint outside the roster. -/
@[simp] theorem roster_modEndpoint_same (f : Endpoint → Endpoint)
    (hh : (f (k.endpoint o)).queueHead = (k.endpoint o).queueHead)
    (ht : (f (k.endpoint o)).queueTail = (k.endpoint o).queueTail)
    (hr : (f (k.endpoint o)).waitingReceiver = (k.endpoint o).waitingReceiver)
    (hf : (f (k.endpoint o)).failed = (k.endpoint o).failed) :
    (k.modEndpoint o f).roster = k.roster := by
  rw [roster_modEndpoint, Endpoint.ipc, hh, ht, hr, hf]
  exact Roster.setEp_self k.roster o

@[simp] theorem roster_modNotification_same (f : Notification → Notification)
    (h : (f (k.notification o)).waiting = (k.notification o).waiting) :
    (k.modNotification o f).roster = k.roster := by
  unfold roster
  congr 1
  funext u
  by_cases hu : u = o
  · subst hu; simpa [modNotification] using h
  · simp [modNotification, hu]

@[simp] theorem roster_modDevice_same (f : DeviceSlot → DeviceSlot)
    (h : (f (k.device o)).waiter = (k.device o).waiter) : (k.modDevice o f).roster = k.roster := by
  unfold roster
  congr 1
  funext u
  by_cases hu : u = o
  · subst hu; simpa [modDevice] using h
  · simp [modDevice, hu]

@[simp] theorem roster_modPcb (p : Nat) (f : Pcb → Pcb) : (k.modPcb p f).roster = k.roster := rfl

@[simp] theorem roster_modMemoryObject (f : MemoryObject → MemoryObject) :
    (k.modMemoryObject o f).roster = k.roster := rfl

@[simp] theorem roster_modQueuedSend (f : QueuedSend → QueuedSend) :
    (k.modQueuedSend o f).roster = k.roster := rfl

@[simp] theorem roster_setCaps (p : Nat) (t : CapTable) (pmm : Pmm) :
    (k.setCaps p t pmm).roster = k.roster := rfl

@[simp] theorem roster_setA0 (t : Nat) (v : U64) : (k.setA0 t v).roster = k.roster :=
  roster_modTcb_same k t _ rfl

@[simp] theorem roster_setA1 (t : Nat) (v : U64) : (k.setA1 t v).roster = k.roster :=
  roster_modTcb_same k t _ rfl

end

/-! ## Tables, counts and memory -/

section

variable (k : State) (o : Nat)

@[simp] theorem roster_retainCap (e : CapEntry) : (k.retainCap e).roster = k.roster := by
  unfold retainCap
  split
  · rfl
  · split <;> simp [retainEndpoint, retainMemory, retainNotification, retainDevice, apply_ite roster]

@[simp] theorem roster_insertProcessCap (p : Nat) (kind : ObjectKind) (o : Nat)
    (r : Rights) (b : U64) : (k.insertProcessCap p kind o r b).2.roster = k.roster := by
  unfold insertProcessCap
  split <;> simp

@[simp] theorem roster_insertCap (t : Nat) (kind : ObjectKind) (o : Nat)
    (r : Rights) (b : U64) : (k.insertCap t kind o r b).2.roster = k.roster := by
  unfold insertCap
  split <;> simp

@[simp] theorem roster_insertProcessCapAt (p cap : Nat) (kind : ObjectKind) (o : Nat)
    (r : Rights) (b : U64) : (k.insertProcessCapAt p cap kind o r b).2.roster = k.roster := by
  unfold insertProcessCapAt
  split <;> simp

@[simp] theorem roster_forgetCap (t cap : Nat) : (k.forgetCap t cap).roster = k.roster := by
  simp [forgetCap, apply_ite roster]

@[simp] theorem roster_resetProcessCaps (p : Nat) : (k.resetProcessCaps p).roster = k.roster := rfl

@[simp] theorem roster_installAddressSpaceCap (p : Nat) :
    (k.installAddressSpaceCap p).2.roster = k.roster := by
  unfold installAddressSpaceCap
  dsimp only
  split <;> rfl

@[simp] theorem roster_initializeProcess (p id : Nat) :
    (k.initializeProcess p id).roster = k.roster := rfl

@[simp] theorem roster_freeFrames : (k.freeFrames o).roster = k.roster := by
  unfold freeFrames
  dsimp only
  split <;> rfl

@[simp] theorem roster_releaseMemory : (k.releaseMemory o).roster = k.roster := by
  have h : ∀ j : State, (j.freeMemorySlot o).roster = j.roster := fun _ => rfl
  simp [releaseMemory, apply_ite roster, h]

@[simp] theorem roster_unchainLine (o cur n : Nat) : (k.unchainLine o cur n).roster = k.roster := by
  induction n generalizing cur with
  | zero => rfl
  | succ n ih =>
    unfold unchainLine
    simp [apply_ite roster, ih]

@[simp] theorem roster_unregisterLine : (k.unregisterLine o).roster = k.roster := by
  have h : ∀ (j : State) (l : Nat → Nat), ({ j with lines := l } : State).roster = j.roster :=
    fun _ _ => rfl
  simp [unregisterLine, apply_ite roster, h]

@[simp] theorem roster_finalizeDevice : (k.finalizeDevice o).roster = k.roster := by
  have h : ∀ (j : State) (s : Slab), ({ j with deviceSlab := s } : State).roster = j.roster :=
    fun _ _ => rfl
  simp [finalizeDevice, apply_ite roster, h]

@[simp] theorem roster_releaseDevice : (k.releaseDevice o).roster = k.roster := by
  simp [releaseDevice, apply_ite roster]

end

/-! ## Messages -/

section

variable (k : State) (o : Nat)

@[simp] theorem roster_writeMessage (frame : Nat) (label : U64) (words caps : Nat → U64)
    (badge : U64) : (k.writeMessage frame label words caps badge).roster = k.roster := rfl

@[simp] theorem roster_zeroFrame (frame : Nat) : (k.zeroFrame frame).roster = k.roster := rfl

@[simp] theorem roster_freeQueuedSend (slot : Nat) : (k.freeQueuedSend slot).roster = k.roster := rfl

@[simp] theorem roster_dropSends (slot n : Nat) : (k.dropSends slot n).roster = k.roster := by
  induction n generalizing k slot with
  | zero => rfl
  | succ n ih =>
    unfold dropSends
    simp [apply_ite roster, ih]

@[simp] theorem roster_allocQueuedSend : k.allocQueuedSend.2.roster = k.roster := by
  unfold allocQueuedSend
  split <;> rfl

@[simp] theorem roster_queueSendCopy (t : Nat) (b : U64) :
    (k.queueSendCopy t b).2.roster = k.roster := by
  simp [queueSendCopy, apply_ite Prod.snd, apply_ite roster]

@[simp] theorem roster_appendSend (o slot : Nat) : (k.appendSend o slot).roster = k.roster := by
  simp [appendSend, apply_ite roster]

@[simp] theorem roster_deliverSend (o frame : Nat) : (k.deliverSend o frame).roster = k.roster := by
  simp [deliverSend]

end

/-! ## Page tables -/

@[simp] theorem roster_mapPage (k : State) (root va pa : Nat) (flags : PageFlags) (b : Bool) :
    (k.mapPage root va pa flags b).2.roster = k.roster := rfl

@[simp] theorem roster_unmapBorrowedPage (k : State) (root va : Nat) :
    (k.unmapBorrowedPage root va).2.roster = k.roster := rfl

end State

end Aegir.Kernel
