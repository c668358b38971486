/-
  Endpoint objects (`Kernel.IPC`, the half below the rendezvous operations).

  An endpoint holds TWO queues.  Blocked callers are chained through their thread control blocks
  (`Queue_Next`, with the back-pointer `Queued_On_EP`); fire-and-forget sends are copies in slots of
  a pool, chained through `Next`.  Each queue has a head and a tail pointer on the endpoint.

  The loops of the source over a chain are bounded here by the number of things that can be on it:
  a chain without repetition ends before the bound does.
-/
import Aegir.Kernel.State

namespace Aegir.Kernel

/-- Result codes surfaced in user `a0`. -/
def resultOk : U64 := 0
def resultInvalid : U64 := 1
def resultTransferFailed : U64 := 2
def resultEndpointGone : U64 := 3
def resultReplyGone : U64 := 4

/-- `Max_Thread_Slots`. -/
def maxThreadSlots : Nat := 512

/-- More links than there are threads (the table's and the kernel's own). -/
def threadBound : Nat := 1024

namespace State

variable (k : State) (object : Nat)

/-- The states `Wake_With_Result` acts on. -/
def isBlocked : ThreadState → Bool
  | .blockedSend | .blockedReceive | .blockedIrq | .blockedNotification | .blockedSleeping
  | .blockedThreadWait => true
  | _ => false

/-- `Wake_With_Result`: deliver a result code to a blocked thread and wake it. -/
def wakeWithResult (t : Nat) (value : U64) : State :=
  if k.isDead t then k
  else if isBlocked (k.tcb t).state then
    (k.modTcb t fun c => { c with savedA0 := value, awaitingReply := false }).wake t
  else k

/-! ## The pool of queued sends -/

/-- Slots of `Queued_Send` in a frame. -/
def sendsPerFrame : Nat := 42

/-- `Free_Queued_Send`. -/
def freeQueuedSend (slot : Nat) : State :=
  { k.modQueuedSend slot fun q => { q with inUse := false, next := 0 } with
    sendSlab := k.sendSlab.put slot }

/-- `Alloc_Queued_Send`: a slot (`0` when even a grown pool has none). -/
def allocQueuedSend : Nat × State :=
  match k.sendSlab.ensureFree sendsPerFrame k.pmm with
  | (none, p) => (0, { k with pmm := p })
  | (some s, p) =>
    let (slot, s') := s.take
    (slot, { k.modQueuedSend slot fun q => { q with inUse := true, next := 0 } with
      sendSlab := s', pmm := p })

/-! ## The endpoint slab -/

/-- Slots of `Endpoint` in a frame. -/
def endpointsPerFrame : Nat := 64

/-- `Free_Endpoint`. -/
def freeEndpoint : State :=
  { k with endpointSlab := k.endpointSlab.put object }

/-- `Initialize (Object, Pinned => False)`; the identity stamp of the slot stays. -/
def initializeEndpoint (e : Endpoint) : Endpoint :=
  { e with
    count := 0, queueHead := 0, queueTail := 0, waitingReceiver := 0
    sendQueueHead := 0, sendQueueTail := 0, failed := false }

/-- `Create_Endpoint`: an unreferenced endpoint, or null. -/
def createEndpoint : Nat × State :=
  match k.endpointSlab.ensureFree endpointsPerFrame k.pmm with
  | (none, p) => (0, { k with pmm := p })
  | (some s, p) =>
    let (object, s') := s.take
    (object, { k.modEndpoint object initializeEndpoint with endpointSlab := s', pmm := p })

/-- `Discard` of an endpoint no cap refers to. -/
def discardEndpoint : State :=
  if object = 0 then k else k.freeEndpoint object

/-- `Kernel.IPC.Retain`. -/
def retainEndpoint : State :=
  if object = 0 ∨ (k.endpoint object).count = pinnedRefcount then k
  else k.modEndpoint object fun e => { e with count := e.count + 1 }

/-- `Set_Stamp_Identity`. -/
def setStampIdentity (stamp : Bool) : State :=
  if object = 0 then k else k.modEndpoint object fun e => { e with stampIdentity := stamp }

/-! ## Failing an endpoint -/

/-- The loop that empties the caller queue, waking each caller. -/
def drainCallers (k : State) (object : Nat) : Nat → State
  | 0 => k
  | n + 1 =>
    let caller := (k.endpoint object).queueHead
    if caller = 0 then k
    else
      let k₁ := k.modEndpoint object fun e => { e with queueHead := (k.tcb caller).queueNext }
      let k₂ := k₁.modTcb caller fun c => { c with queueNext := 0, queuedOnEp := 0 }
      drainCallers (k₂.wakeWithResult caller resultEndpointGone) object n

/-- The loop that drops the queued send copies from `slot` on. -/
def dropSends (k : State) : Nat → Nat → State
  | _, 0 => k
  | slot, n + 1 =>
    if slot = 0 then k
    else
      let next := (k.queuedSend slot).next
      dropSends (k.freeQueuedSend slot) next n

/-- `Fail_Endpoint`: wake every queued caller and the waiting receiver, drop the send copies. -/
def failEndpoint : State :=
  if object = 0 ∨ (k.endpoint object).failed = true then k
  else
    let k₁ := k.modEndpoint object fun e => { e with failed := true }
    let k₂ := (k₁.drainCallers object threadBound).modEndpoint object
      fun e => { e with queueTail := 0 }
    let k₃ := (k₂.dropSends (k₂.endpoint object).sendQueueHead k₂.sendSlab.carved).modEndpoint object
      fun e => { e with sendQueueHead := 0, sendQueueTail := 0 }
    let k₄ := k₃.wakeWithResult (k₃.endpoint object).waitingReceiver resultEndpointGone
    k₄.modEndpoint object fun e => { e with waitingReceiver := 0 }

/-- `Kernel.IPC.Release`: drop one reference; the last one fails the endpoint and frees its slot. -/
def releaseEndpoint : State :=
  if object = 0 ∨ (k.endpoint object).count = pinnedRefcount ∨ (k.endpoint object).count = 0 then k
  else
    let k' := k.modEndpoint object fun e => { e with count := e.count - 1 }
    if (k'.endpoint object).count ≠ 0 then k'
    else (k'.failEndpoint object).freeEndpoint object

/-! ## The caller queue -/

/-- The bounded walk of `Enqueue_Caller` that rebuilds a suspicious tail: the last thread of the
    chain from `scan`, or null if the chain is not one of this endpoint. -/
def rebuildTail (k : State) (object : Nat) : Nat → Nat → Nat
  | _, 0 => 0
  | scan, n + 1 =>
    if scan = 0 then 0
    else if (k.tcb scan).queuedOnEp ≠ object then 0
    else if (k.tcb scan).queueNext = 0 then scan
    else rebuildTail k object (k.tcb scan).queueNext n

/-- A stored tail is trusted only while it is queued here with no successor. -/
def suspiciousTail : Bool :=
  let e := k.endpoint object
  (e.queueTail == 0 && e.queueHead != 0) ||
  (e.queueTail != 0 &&
    ((k.tcb e.queueTail).queuedOnEp != object || (k.tcb e.queueTail).queueNext != 0))

/-- `Enqueue_Caller`. -/
def enqueueCaller (object caller : Nat) : State :=
  let k₁ := k.modTcb caller fun c => { c with queueNext := 0, queuedOnEp := object }
  let suspicious := k₁.suspiciousTail object
  let tail := if suspicious then k₁.rebuildTail object (k₁.endpoint object).queueHead maxThreadSlots
    else (k₁.endpoint object).queueTail
  let k₂ := if suspicious ∧ tail = 0 then k₁.modEndpoint object fun e => { e with queueHead := 0 }
    else k₁
  let k₃ := if tail = 0 then k₂.modEndpoint object fun e => { e with queueHead := caller }
    else k₂.modTcb tail fun c => { c with queueNext := caller }
  k₃.modEndpoint object fun e => { e with queueTail := caller }

/-- The head caller leaves the queue; an emptied queue has no tail. -/
def popCaller : State :=
  let caller := (k.endpoint object).queueHead
  let next := (k.tcb caller).queueNext
  let tail := if next = 0 then 0 else (k.endpoint object).queueTail
  (k.modEndpoint object fun e => { e with queueHead := next, queueTail := tail }).modTcb caller
    fun c => { c with queueNext := 0, queuedOnEp := 0 }

/-- `Dequeue_Caller`: pop the head, skipping dead entries; null when the queue is empty. -/
def dequeueCaller (k : State) (object : Nat) : Nat → Nat × State
  | 0 => (0, k)
  | n + 1 =>
    let caller := (k.endpoint object).queueHead
    if caller = 0 then (0, k)
    else if (k.popCaller object).isDead caller then dequeueCaller (k.popCaller object) object n
    else (caller, k.popCaller object)

/-- The unlinking walk of `Cleanup_Thread_Cap`. -/
def unlinkCaller (k : State) (object thread : Nat) : Nat → Nat → Nat → State
  | _, _, 0 => k
  | previous, scan, n + 1 =>
    if scan = 0 then k
    else if scan = thread then
      let next := (k.tcb scan).queueNext
      let k₁ := if previous = 0 then k.modEndpoint object fun e => { e with queueHead := next }
        else k.modTcb previous fun c => { c with queueNext := next }
      let k₂ := if (k₁.endpoint object).queueTail = thread then
          k₁.modEndpoint object fun e => { e with queueTail := previous }
        else k₁
      k₂.modTcb thread fun c => { c with queueNext := 0, queuedOnEp := 0 }
    else unlinkCaller k object thread scan (k.tcb scan).queueNext n

/-- `Kernel.IPC.Cleanup_Thread_Cap`: the thread stops waiting on the endpoint in any way. -/
def cleanupEndpointWaiter (thread object : Nat) : State :=
  if thread = 0 ∨ object = 0 then k
  else
    let k₁ := if (k.endpoint object).waitingReceiver = thread then
        k.modEndpoint object fun e => { e with waitingReceiver := 0 }
      else k
    let k₂ := k₁.modTcb thread fun c => { c with recvEp := 0 }
    k₂.unlinkCaller object thread 0 (k₂.endpoint object).queueHead threadBound

/-- `Cancel_Receive`. -/
def cancelReceive (thread : Nat) : State :=
  if thread = 0 then k
  else
    let object := (k.tcb thread).recvEp
    if object = 0 then k
    else
      let k₁ := if (k.endpoint object).waitingReceiver = thread then
          k.modEndpoint object fun e => { e with waitingReceiver := 0 }
        else k
      k₁.modTcb thread fun c => { c with recvEp := 0 }

/-- `Fail_Reply_Target`: the caller a closed reply cap points at wakes, unless the cap is stale. -/
def failReplyTarget (caller : Nat) (badge : U64) : State :=
  if k.isDead caller ∨ (k.tcb caller).awaitingReply = false ∨
      badge ≠ (k.tcb caller).replyGeneration then k
  else k.wakeWithResult caller resultReplyGone

end State

end Aegir.Kernel
