/-
  The LEDGER of a kernel state: who holds which caps, who counts them, which slots and frames are taken.

  `State.ledger` projects a state to the part that the laws about caps, processes and memory talk about; an
  operation that only moves threads gets ONE lemma here, that it keeps the ledger.  The four kinds of counted
  objects are the four values of `Pool`.
-/
import Aegir.Kernel.Threads
import Aegir.Kernel.Ipc

namespace Aegir.Kernel

open Aegir.Arch

/-- The slabs of reference-counted objects. -/
inductive Pool where
  | endpoint
  | memory
  | notification
  | device
deriving DecidableEq, Repr

/-- The slab that objects of a kind live in; the other kinds are not counted. -/
def ObjectKind.pool : ObjectKind → Option Pool
  | .endpointObject => some .endpoint
  | .memoryObject => some .memory
  | .notificationObject => some .notification
  | .mmioObject => some .device
  | .irqObject => some .device
  | _ => none

/-- Caps, counts, slots and frames of a state. -/
structure Ledger where
  pmm : Pmm
  space : Nat → PageTable
  caps : Nat → CapTable
  root : Nat → Nat
  procState : Nat → ProcessState
  process : Nat → Nat
  dead : Nat → Bool
  stackTop : Nat → Nat
  count : Pool → Nat → Nat
  slab : Pool → Slab
  sendFrames : List Nat
  pages : Nat → Nat
  frames : Nat → Nat → Nat
  used : Nat → Bool
  threadUsed : Nat → Bool
  processThreadCount : Nat → Nat
  freeSlots : List Nat
  threadFreeSlots : List Nat
  threadSlotGeneration : Nat → Nat
  deferredStacks : List Nat
  halted : Bool

namespace State

/-- The reference count of an object of a pool. -/
def poolCount (k : State) : Pool → Nat → Nat
  | .endpoint, o => (k.endpoint o).count
  | .memory, o => (k.memoryObject o).count
  | .notification, o => (k.notification o).count
  | .device, o => (k.device o).count

/-- The slab of a pool. -/
def poolSlab (k : State) : Pool → Slab
  | .endpoint => k.endpointSlab
  | .memory => k.memorySlab
  | .notification => k.notificationSlab
  | .device => k.deviceSlab

/-- The part of a state that the laws about caps, processes and memory talk about. -/
def ledger (k : State) : Ledger where
  pmm := k.pmm
  space := k.space
  caps := fun p => (k.pcb p).caps
  root := fun p => (k.pcb p).root
  procState := fun p => (k.pcb p).state
  process := fun t => (k.tcb t).process
  dead := fun t => decide ((k.tcb t).state = .dead)
  stackTop := fun t => (k.tcb t).kernelStackTop
  count := k.poolCount
  slab := k.poolSlab
  sendFrames := k.sendSlab.frames
  pages := fun o => (k.memoryObject o).pages
  frames := fun o => (k.memoryObject o).frames
  used := k.used
  threadUsed := k.threadUsed
  processThreadCount := k.processThreadCount
  freeSlots := k.freeSlots
  threadFreeSlots := k.threadFreeSlots
  threadSlotGeneration := k.threadSlotGeneration
  deferredStacks := k.deferredStacks
  halted := k.halted

/-! ## Changes of one record -/

/-- A change of a thread block that keeps its process, its stack and whether it is dead. -/
@[simp] theorem ledger_modTcb (k : State) (t : Nat) (f : Tcb → Tcb)
    (hp : (f (k.tcb t)).process = (k.tcb t).process)
    (hd : (f (k.tcb t)).state = .dead ↔ (k.tcb t).state = .dead)
    (hs : (f (k.tcb t)).kernelStackTop = (k.tcb t).kernelStackTop) :
    (k.modTcb t f).ledger = k.ledger := by
  have h : ∀ u, ((k.modTcb t f).tcb u).process = (k.tcb u).process ∧
      (((k.modTcb t f).tcb u).state = .dead ↔ (k.tcb u).state = .dead) ∧
      ((k.modTcb t f).tcb u).kernelStackTop = (k.tcb u).kernelStackTop := by
    intro u
    by_cases hu : u = t
    · subst hu
      simpa [modTcb] using ⟨hp, hd, hs⟩
    · simp [modTcb, hu]
  unfold ledger
  congr 1
  · exact funext fun u => (h u).1
  · exact funext fun u => decide_eq_decide.mpr (h u).2.1
  · exact funext fun u => (h u).2.2

/-- A change of an endpoint that keeps its count. -/
@[simp] theorem ledger_modEndpoint (k : State) (o : Nat) (f : Endpoint → Endpoint)
    (hc : (f (k.endpoint o)).count = (k.endpoint o).count) :
    (k.modEndpoint o f).ledger = k.ledger := by
  unfold ledger
  congr 1
  funext P u
  cases P with
  | endpoint =>
    show ((k.modEndpoint o f).endpoint u).count = (k.endpoint u).count
    by_cases hu : u = o
    · subst hu
      simpa [modEndpoint] using hc
    · simp [modEndpoint, hu]
  | _ => rfl

/-- A change of a notification that keeps its count. -/
@[simp] theorem ledger_modNotification (k : State) (o : Nat) (f : Notification → Notification)
    (hc : (f (k.notification o)).count = (k.notification o).count) :
    (k.modNotification o f).ledger = k.ledger := by
  unfold ledger
  congr 1
  funext P u
  cases P with
  | notification =>
    show ((k.modNotification o f).notification u).count = (k.notification u).count
    by_cases hu : u = o
    · subst hu
      simpa [modNotification] using hc
    · simp [modNotification, hu]
  | _ => rfl

/-- A change of a device slot that keeps its count. -/
@[simp] theorem ledger_modDevice (k : State) (o : Nat) (f : DeviceSlot → DeviceSlot)
    (hc : (f (k.device o)).count = (k.device o).count) :
    (k.modDevice o f).ledger = k.ledger := by
  unfold ledger
  congr 1
  funext P u
  cases P with
  | device =>
    show ((k.modDevice o f).device u).count = (k.device u).count
    by_cases hu : u = o
    · subst hu
      simpa [modDevice] using hc
    · simp [modDevice, hu]
  | _ => rfl

@[simp] theorem ledger_modQueuedSend (k : State) (o : Nat) (f : QueuedSend → QueuedSend) :
    (k.modQueuedSend o f).ledger = k.ledger := rfl

/-! ## Waking threads -/

@[simp] theorem ledger_setA0 (k : State) (t : Nat) (v : U64) : (k.setA0 t v).ledger = k.ledger :=
  ledger_modTcb k t _ rfl Iff.rfl rfl

@[simp] theorem ledger_setA1 (k : State) (t : Nat) (v : U64) : (k.setA1 t v).ledger = k.ledger :=
  ledger_modTcb k t _ rfl Iff.rfl rfl

@[simp] theorem ledger_wake (k : State) (t : Nat) : (k.wake t).ledger = k.ledger := by
  unfold wake
  split
  · rfl
  · cases hs : (k.tcb t).state <;> first | rfl | exact ledger_modTcb k t _ rfl (by simp [hs]) rfl

@[simp] theorem ledger_wakeWithResult (k : State) (t : Nat) (v : U64) :
    (k.wakeWithResult t v).ledger = k.ledger := by
  unfold wakeWithResult
  split
  · rfl
  · split
    · simp
    · rfl

/-! ## Endpoint queues -/

section

variable (k : State) (o t : Nat)

@[simp] theorem ledger_freeQueuedSend (slot : Nat) : (k.freeQueuedSend slot).ledger = k.ledger := rfl

@[simp] theorem ledger_drainCallers (o n : Nat) : (k.drainCallers o n).ledger = k.ledger := by
  induction n generalizing k with
  | zero => rfl
  | succ n ih =>
    unfold drainCallers
    dsimp only
    split
    · rfl
    · simp [ih]

@[simp] theorem ledger_dropSends (slot n : Nat) : (k.dropSends slot n).ledger = k.ledger := by
  induction n generalizing k slot with
  | zero => rfl
  | succ n ih =>
    unfold dropSends
    split
    · rfl
    · simp [ih]

@[simp] theorem ledger_failEndpoint : (k.failEndpoint o).ledger = k.ledger := by
  unfold failEndpoint
  split
  · rfl
  · simp

@[simp] theorem ledger_enqueueCaller : (k.enqueueCaller o t).ledger = k.ledger := by
  simp [enqueueCaller, apply_ite ledger]

@[simp] theorem ledger_popCaller : (k.popCaller o).ledger = k.ledger := by
  simp [popCaller]

@[simp] theorem ledger_dequeueCaller (o n : Nat) : (k.dequeueCaller o n).2.ledger = k.ledger := by
  induction n generalizing k with
  | zero => rfl
  | succ n ih =>
    unfold dequeueCaller
    simp [apply_ite Prod.snd, apply_ite ledger, ih]

@[simp] theorem ledger_unlinkCaller (o t prev scan n : Nat) :
    (k.unlinkCaller o t prev scan n).ledger = k.ledger := by
  induction n generalizing prev scan with
  | zero => rfl
  | succ n ih =>
    unfold unlinkCaller
    simp [apply_ite ledger, ih]

@[simp] theorem ledger_cleanupEndpointWaiter (t o : Nat) :
    (k.cleanupEndpointWaiter t o).ledger = k.ledger := by
  simp [cleanupEndpointWaiter, apply_ite ledger]

@[simp] theorem ledger_cancelReceive : (k.cancelReceive t).ledger = k.ledger := by
  simp [cancelReceive, apply_ite ledger]

@[simp] theorem ledger_failReplyTarget (badge : U64) :
    (k.failReplyTarget t badge).ledger = k.ledger := by
  simp [failReplyTarget, apply_ite ledger]

end

/-! ## Detaching a thread -/

section

variable (k : State) (o t : Nat)

@[simp] theorem ledger_cleanupNotificationWaiter (t o : Nat) (unbind : Bool) :
    (k.cleanupNotificationWaiter t o unbind).ledger = k.ledger := by
  simp [cleanupNotificationWaiter, apply_ite ledger]

@[simp] theorem ledger_unbindNotification : (k.unbindNotification t).ledger = k.ledger := by
  simp [unbindNotification, apply_ite ledger]

@[simp] theorem ledger_clearNotificationWaits :
    (k.clearNotificationWaits t).ledger = k.ledger := by
  unfold ledger
  congr 1
  funext P o
  cases P with
  | notification =>
    show ((k.clearNotificationWaits t).notification o).count = (k.notification o).count
    dsimp only [clearNotificationWaits]
    split <;> rfl
  | _ => rfl

@[simp] theorem ledger_cleanupNotificationThread :
    (k.cleanupNotificationThread t).ledger = k.ledger := by
  simp [cleanupNotificationThread, apply_ite ledger]

@[simp] theorem ledger_clearLineWaiters (t cur n : Nat) :
    (k.clearLineWaiters t cur n).ledger = k.ledger := by
  induction n generalizing k cur with
  | zero => rfl
  | succ n ih =>
    unfold clearLineWaiters
    simp [apply_ite ledger, ih]

@[simp] theorem ledger_cleanupIrqThread : (k.cleanupIrqThread t).ledger = k.ledger := by
  have hfold : ∀ (sources : List Nat) (j : State),
      (sources.foldl (fun j source => j.clearLineWaiters t (j.lines source) j.deviceSlab.carved)
        j).ledger = j.ledger := by
    intro sources
    induction sources with
    | nil => exact fun _ => rfl
    | cons source sources ih => exact fun j => (ih _).trans (ledger_clearLineWaiters j t _ _)
  unfold cleanupIrqThread
  rw [apply_ite ledger, hfold, ite_self]

@[simp] theorem ledger_unlinkWaiter (target t prev scan n : Nat) :
    (k.unlinkWaiter target t prev scan n).ledger = k.ledger := by
  induction n generalizing prev scan with
  | zero => rfl
  | succ n ih =>
    unfold unlinkWaiter
    simp [apply_ite ledger, ih]

@[simp] theorem ledger_removeAsWaiter : (k.removeAsWaiter t).ledger = k.ledger := by
  simp [removeAsWaiter, apply_ite ledger]

@[simp] theorem ledger_wakeWaiters (t n : Nat) : (k.wakeWaiters t n).ledger = k.ledger := by
  induction n generalizing k t with
  | zero => rfl
  | succ n ih =>
    unfold wakeWaiters
    simp [apply_ite ledger, ih]

@[simp] theorem ledger_wakeThreadWaiters : (k.wakeThreadWaiters t).ledger = k.ledger := by
  simp [wakeThreadWaiters]

@[simp] theorem ledger_teardownThread : (k.teardownThread t).ledger = k.ledger := by
  simp [teardownThread, apply_ite ledger]

@[simp] theorem ledger_cleanupLineWaiter (t o : Nat) :
    (k.cleanupLineWaiter t o).ledger = k.ledger := by
  simp [cleanupLineWaiter, apply_ite ledger]

@[simp] theorem ledger_unchainLine (o cur n : Nat) : (k.unchainLine o cur n).ledger = k.ledger := by
  induction n generalizing cur with
  | zero => rfl
  | succ n ih =>
    unfold unchainLine
    simp [apply_ite ledger, ih]

@[simp] theorem ledger_unregisterLine : (k.unregisterLine o).ledger = k.ledger := by
  have hlines : ∀ (j : State) (l : Nat → Nat), ({ j with lines := l } : State).ledger = j.ledger :=
    fun _ _ => rfl
  simp [unregisterLine, apply_ite ledger, hlines]

end

/-! ## Messages -/

section

variable (k : State) (o t : Nat)

@[simp] theorem ledger_writeMessage (frame : Nat) (label : U64) (words caps : Nat → U64)
    (badge : U64) : (k.writeMessage frame label words caps badge).ledger = k.ledger := rfl

@[simp] theorem ledger_zeroFrame (frame : Nat) : (k.zeroFrame frame).ledger = k.ledger := rfl

@[simp] theorem ledger_dropStaleReceiver : (k.dropStaleReceiver o).ledger = k.ledger := by
  simp [dropStaleReceiver, apply_ite ledger]

@[simp] theorem ledger_blockCaller (badge : U64) :
    (k.blockCaller o t badge).2.ledger = k.ledger := by
  simp [blockCaller]

@[simp] theorem ledger_appendSend (o slot : Nat) : (k.appendSend o slot).ledger = k.ledger := by
  simp [appendSend, apply_ite ledger]

@[simp] theorem ledger_deliverSend (o frame : Nat) : (k.deliverSend o frame).ledger = k.ledger := by
  simp [deliverSend]

end

end State

end Aegir.Kernel
