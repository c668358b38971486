/-
  The remaining system calls of `Arch.Traps`, and the kernel as a TRANSITION SYSTEM.

  A run of the machine is a sequence of whole system calls, each made by some RUNNING thread, interleaved with
  what the scheduler does and with user code writing memory.  Which ready thread runs next is left open, among
  those given to the scheduler: the block of a thread whose creation failed is `ready`, but on no run queue.
-/
import Aegir.Kernel.Ipc
import Aegir.Kernel.Boot
import Aegir.Kernel.Threads
import Aegir.Traps.Objects

namespace Aegir.Kernel

open Aegir.Arch

/-- `Notification_Label`. -/
def notificationLabel : U64 := u64Last

namespace State

variable (k : State) (cur : Nat) (f : TrapFrame)

/-! ## IPC -/

/-- `Set_IPC_Result`. -/
def setIpcResult (status : IpcStatus) : State :=
  k.setA0 cur (match status with
    | .ok => resultOk
    | .transferFailed => resultTransferFailed
    | .endpointGone => resultEndpointGone
    | _ => resultInvalid)

/-- The caller blocks; `Ok` is preset in case its waker leaves `a0` alone. -/
def block (state : ThreadState) : State :=
  (k.setA0 cur resultOk).modTcb cur fun c => { c with state := state }

/-- `Handle_IPC_Call`. -/
def handleIpcCall : State :=
  match decodeHandle f.a0 with
  | none => k.setA0 cur resultInvalid
  | some cap =>
    match k.call cur cap with
    | (.wouldBlock, k') => k'.block cur .blockedSend
    | (s, k') => k'.setIpcResult cur s

/-- `Handle_IPC_Send`. -/
def handleIpcSend : State :=
  match decodeHandle f.a0 with
  | none => k.setA0 cur resultInvalid
  | some cap =>
    match k.send cur cap with
    | (.wouldBlock, k') => k'.block cur .blockedSend
    | (s, k') => k'.setIpcResult cur s

/-- `Notifications.Take`: the pending bits, cleared. -/
def takeNotification (object : Nat) : U64 × State :=
  if k.isNotificationSlot object then
    ((k.notification object).bits, k.modNotification object fun n => { n with bits := 0 })
  else (0, k)

/-- `Write_Notification_Message`: the badge of the buffer stays. -/
def writeNotificationMessage (receiver : Nat) (bits : U64) : State :=
  match k.bufferOf receiver with
  | none => k
  | some frame =>
    k.writeMessage frame notificationLabel (fun i => if i = 0 then bits else 0) (fun _ => 0)
      (k.memory frame).badge

/-- `Handle_IPC_Recv` after its notification path.  A receive that blocks is saved with the `a1` that
    user mode passed. -/
def receiveEndpoint : State :=
  match decodeHandle f.a0 with
  | none => k.setA0 cur resultInvalid
  | some cap =>
    match k.receive cur cap with
    | (.wouldBlock, _, k') => (k'.block cur .blockedReceive).setA1 cur f.a1
    | (s, h, k') =>
      (k'.setA1 cur (if s = .ok then UInt64.ofNat h else 0)).setIpcResult cur s

/-- `Handle_IPC_Recv`: pending bits of a bound notification beat the endpoint. -/
def handleIpcRecv : State :=
  let bound := (k.tcb cur).boundNtfn
  if bound = 0 then k.receiveEndpoint cur f
  else
    let r := k.takeNotification bound
    if r.1 ≠ 0 then ((r.2.writeNotificationMessage cur r.1).setA0 cur resultOk).setA1 cur 0
    else r.2.receiveEndpoint cur f

/-- `Handle_IPC_Reply`. -/
def handleIpcReply : State :=
  match decodeHandle f.a0 with
  | none => k.setA0 cur resultInvalid
  | some cap => (k.reply cur cap).2.setIpcResult cur (k.reply cur cap).1

/-! ## Processes and threads -/

/-- `Handle_Spawn`. -/
def handleSpawn : State :=
  match decodeHandle f.a0 with
  | none => (k.setA0 cur 1).setA1 cur 0
  | some cap =>
    let r := k.spawnBootImage cur cap f.a1
    (r.2.2.setA0 cur r.1.code).setA1 cur (if r.1 = .ok then UInt64.ofNat r.2.1 else 0)

/-- `Handle_Exit`. -/
def handleExit : State :=
  (k.markExited cur f.a0).modTcb cur fun c => { c with state := .dead }

/-- `Handle_Thread_Create`. -/
def handleThreadCreate : State :=
  let r := k.threadCreate cur
  r.2.2.setA0 cur (if r.1 = .ok then UInt64.ofNat r.2.1 else u64Last)

/-- `Handle_Thread_Exit`. -/
def handleThreadExit : State :=
  let r := k.threadExit cur
  if r.1 = .ok then r.2 else r.2.setA0 cur 1

/-- `Handle_Thread_Wait`: the register is converted to a handle without a check of its range.  The context
    saved before the wait, with `a0` zero, is restored over the error that a refusal writes to the frame. -/
def handleThreadWait : State :=
  if f.a0.toNat > handleLast then k.halt else ((k.setA0 cur 0).threadWait cur f.a0.toNat).2

/-- `Handle_Reap_Process`. -/
def handleReapProcess : State :=
  match decodeHandle f.a0 with
  | none => (k.setA0 cur 1).setA1 cur 0
  | some cap =>
    let r := k.reapProcess cur cap
    (r.2.2.setA1 cur r.2.1).setA0 cur (match r.1 with
      | .ok => 0
      | .notExited => 2
      | _ => 1)

/-- `Handle_Set_Priority`: the caller's own priority, or that of the first thread of the process that
    a cap with Manage names; the old priority goes to `a1`. -/
def handleSetPriority : State :=
  let priority := priorityFromBits f.a1
  let r : Option Int × State :=
    if f.a0 = u64Last then
      (some (k.tcb cur).priority, k.modTcb cur fun c => { c with priority := priority })
    else
      match decodeHandle f.a0 with
      | none => (none, k)
      | some cap =>
        match k.lookupCap cur cap with
        | none => (none, k)
        | some e =>
          if e.kind ≠ .processObject ∨ e.rights.manage = false then (none, k)
          else k.setThreadPriority e.object priority
  match r with
  | (none, k') => (k'.setA0 cur 1).setA1 cur 0
  | (some old, k') => (k'.setA0 cur 0).setA1 cur (.ofBitVec (BitVec.ofInt 64 old))

/-- The call sets one priority or none, and then answers. -/
theorem handleSetPriority_ind {k : State} {cur : Nat} {f : TrapFrame} {P Q : State → Prop}
    (hanswer : ∀ j v w, Q j → P ((j.setA0 cur v).setA1 cur w)) (hstay : Q k)
    (hself : f.a0 = u64Last → Q (k.modTcb cur fun c => { c with priority := priorityFromBits f.a1 }))
    (hset : ∀ cap e, decodeHandle f.a0 = some cap → k.lookupCap cur cap = some e →
      Q (k.setThreadPriority e.object (priorityFromBits f.a1)).2) : P (k.handleSetPriority cur f) := by
  have hr : ∀ r : Option Int × State, Q r.2 → P (match r with
      | (none, k') => (k'.setA0 cur 1).setA1 cur 0
      | (some old, k') => (k'.setA0 cur 0).setA1 cur (.ofBitVec (BitVec.ofInt 64 old))) := by
    rintro ⟨_ | old, k'⟩ hk
    · exact hanswer _ _ _ hk
    · exact hanswer _ _ _ hk
  refine hr _ ?_
  split
  · exact hself ‹_›
  · split
    · exact hstay
    · split
      · exact hstay
      · split
        · exact hstay
        · exact hset _ _ ‹_› ‹_›

end State

/-! ## The transition system -/

/-- The system calls of the model.  `irqMsiCreate` carries the answer of the IOMMU. -/
inductive Syscall where
  | epCreate
  | epSetStampIdentity
  | ntfnCreate
  | memAlloc
  | memMap
  | memUnmap
  | mapMmio
  | ioMap
  | irqCreate
  | irqMsiCreate (vector : Option U64)
  | capMint
  | capDelete
  | ipcCall
  | ipcSend
  | ipcRecv
  | ipcReply
  | spawn
  | exit
  | threadCreate
  | threadExit
  | threadWait
  | reapProcess
  | setPriority
deriving DecidableEq, Repr

/-- What can happen next: a running thread traps with the given registers; the scheduler starts or
    preempts a thread; a deferred kernel stack is freed; an endpoint is failed; user code writes a
    page of memory. -/
inductive Action where
  | syscall (call : Syscall) (thread : Nat) (frame : TrapFrame)
  | dispatch (thread : Nat)
  | preempt (thread : Nat)
  | drainStack (top : Nat)
  | failEndpoint (object : Nat)
  | userWrite (frame : Nat) (page : Page)

namespace State

variable (k : State) (cur : Nat) (f : TrapFrame)

/-- `Handle_Syscall`: one system call of the thread `cur`. -/
def handleSyscall : Syscall → State
  | .epCreate => k.handleEpCreate cur
  | .epSetStampIdentity => k.handleEpSetStampIdentity cur f
  | .ntfnCreate => k.handleNtfnCreate cur
  | .memAlloc => k.handleMemAlloc cur f
  | .memMap => k.handleMemMap cur f
  | .memUnmap => k.handleMemUnmap cur f
  | .mapMmio => k.handleMapMmio cur f
  | .ioMap => k.handleIoMap cur f
  | .irqCreate => k.handleIrqCreate cur f
  | .irqMsiCreate vector => k.handleIrqMsiCreate cur f vector
  | .capMint => k.handleCapMint cur f
  | .capDelete => k.handleCapDelete cur f
  | .ipcCall => k.handleIpcCall cur f
  | .ipcSend => k.handleIpcSend cur f
  | .ipcRecv => k.handleIpcRecv cur f
  | .ipcReply => k.handleIpcReply cur f
  | .spawn => k.handleSpawn cur f
  | .exit => k.handleExit cur f
  | .threadCreate => k.handleThreadCreate cur
  | .threadExit => k.handleThreadExit cur
  | .threadWait => k.handleThreadWait cur f
  | .reapProcess => k.handleReapProcess cur f
  | .setPriority => k.handleSetPriority cur f

/-- The thread was given to the scheduler and has not left it. -/
def isScheduled (t : Nat) : Bool :=
  t == initThread || (t != 0 && t ≤ maxThreadSlots && k.threadUsed (t - 1))

/-- One step of the machine; a halted machine does not move. -/
def step (a : Action) : Option State :=
  if k.halted then none
  else
    match a with
    | .syscall call t f =>
      if t ≠ 0 ∧ (k.tcb t).state = .running then some (k.handleSyscall t f call) else none
    | .dispatch t =>
      if (k.tcb t).state = .ready ∧ k.isScheduled t then
        some (k.modTcb t fun c => { c with state := .running })
      else none
    | .preempt t =>
      if (k.tcb t).state = .running then some (k.modTcb t fun c => { c with state := .ready })
      else none
    | .drainStack top =>
      if top ∈ k.deferredStacks then
        some { k.freeStack top with deferredStacks := k.deferredStacks.erase top }
      else none
    | .failEndpoint object => some (k.failEndpoint object)
    | .userWrite frame page => some { k with memory := Function.update k.memory frame page }

/-- The steps, each with what the machine must be in to take it. -/
inductive Stepped (k : State) : Action → State → Prop
  | syscall {call : Syscall} {t : Nat} {f : TrapFrame} (ht : t ≠ 0) (hrun : (k.tcb t).state = .running) :
    Stepped k (.syscall call t f) (k.handleSyscall t f call)
  | dispatch {t : Nat} (hready : (k.tcb t).state = .ready) (hsched : k.isScheduled t) :
    Stepped k (.dispatch t) (k.modTcb t fun c => { c with state := .running })
  | preempt {t : Nat} (hrun : (k.tcb t).state = .running) :
    Stepped k (.preempt t) (k.modTcb t fun c => { c with state := .ready })
  | drainStack {top : Nat} (htop : top ∈ k.deferredStacks) :
    Stepped k (.drainStack top) { k.freeStack top with deferredStacks := k.deferredStacks.erase top }
  | failEndpoint (o : Nat) : Stepped k (.failEndpoint o) (k.failEndpoint o)
  | userWrite (frame : Nat) (page : Page) :
    Stepped k (.userWrite frame page) { k with memory := Function.update k.memory frame page }

theorem step_cases {k k' : State} {a : Action} (hs : k.step a = some k') : Stepped k a k' := by
  unfold step at hs
  split at hs
  · cases hs
  · cases a <;> dsimp only at hs
    case failEndpoint | userWrite =>
      cases hs
      constructor
    all_goals
      split at hs
      · rename_i hc
        cases hs
        first | exact .syscall hc.1 hc.2 | exact .dispatch hc.1 hc.2 | exact .preempt hc | exact .drainStack hc
      · cases hs

end State

end Aegir.Kernel
