/-
  The kernel's state.

  The variables of the kernel's packages are the fields of ONE record here, and every procedure becomes a
  function on it.  Objects are named by ADDRESS (a number, `0` is null) inside their kind: slot `i` of the
  thread or process table has address `i + 1`, and the slots of a slab count from 1 in the order of carving.
  A page that the kernel reads or writes for a user is a function from byte offsets to words.

  A failed range or overflow check HALTS the machine: it raises the flag `halted`, and what the model
  computes after that is never observed.
-/
import Mathlib.Logic.Function.Basic
import Aegir.Arch.Mmu
import Aegir.Kernel.Capabilities

namespace Aegir.Kernel

open Aegir.Arch Function

/-- `Thread_State`. -/
inductive ThreadState where
  | ready
  | running
  | blockedSend
  | blockedReceive
  | blockedIrq
  | blockedNotification
  | blockedSleeping
  | blockedThreadWait
  | dead
deriving DecidableEq, Repr

/-- `Process_State`. -/
inductive ProcessState where
  | initializing
  | alive
  | dead
deriving DecidableEq, Repr

/-- `Thread_Control_Block`, less what only the scheduler's run queue and the debug console use.
    `savedA0` and `savedA1` are the result registers of the thread's trap frame. -/
structure Tcb where
  id : Nat
  userThreadCap : Nat
  state : ThreadState
  process : Nat
  kernelStackTop : Nat
  ipcBuffer : Nat
  ipcBufferVa : Nat
  awaitingReply : Bool
  replyGeneration : U64
  replyWanted : Bool
  queueNext : Nat
  callBadge : U64
  savedA0 : U64
  savedA1 : U64
  boundNtfn : Nat
  recvEp : Nat
  queuedOnEp : Nat
  waitingFor : Nat
  waitersHead : Nat
  waitersNext : Nat
  priority : Int

/-- `Process_Control_Block`. -/
structure Pcb where
  id : Nat
  spawner : Nat
  root : Nat
  caps : CapTable
  state : ProcessState
  exitCode : U64

/-- `Pinned_Refcount`: the count of an endpoint that is never destroyed. -/
def pinnedRefcount : Nat := 2 ^ 31 - 1

/-- `Kernel.IPC.Endpoint`. -/
structure Endpoint where
  count : Nat
  queueHead : Nat
  queueTail : Nat
  waitingReceiver : Nat
  sendQueueHead : Nat
  sendQueueTail : Nat
  failed : Bool
  stampIdentity : Bool

/-- `Kernel.IPC.Queued_Send`: the kernel's copy of a fire-and-forget message. -/
structure QueuedSend where
  label : U64
  words : Fin 6 → U64
  badge : U64
  next : Nat
  inUse : Bool

/-- `Kernel.Memory.Memory_Object`, less its DMA backlinks (read by the IOMMU only). -/
structure MemoryObject where
  count : Nat
  pages : Nat
  frames : Nat → Nat

/-- `Kernel.Notifications.Notification`. -/
structure Notification where
  count : Nat
  bits : U64
  boundThread : Nat
  waiting : Nat
  inUse : Bool

/-- What a device slot is. -/
inductive DeviceKind where
  | mmio
  | irq
deriving DecidableEq, Repr

/-- `Kernel.Devices.Device_Slot`, its MMIO region and its IRQ line. -/
structure DeviceSlot where
  count : Nat
  kind : DeviceKind
  physicalBase : U64
  length : U64
  deviceId : U64
  source : U64
  pending : Bool
  inFlight : Bool
  waiter : Nat
  ntfn : Nat
  ntfnBadge : U64
  next : Nat

/-- `Kernel.Objects.Boot_File`: a slice of the boot image.  The enumeration publishes only slices
    that lie in the physmap and end below the top of the address space. -/
structure BootFile where
  base : Nat
  length : Nat
  base_mem : physmapBase ≤ base
  end_lt : base + length < 2 ^ 64

/-- The free slots of a slab, the next one to be taken first, and how many were carved so far;
    `frames` are the frames it was carved from. -/
structure Slab where
  free : List Nat
  carved : Nat
  frames : List Nat

/-- A page of memory: the 64-bit word at each byte offset that is a multiple of 8. -/
abbrev Page := Nat → U64

/-- The part of `Allocate_Frame` that is seen in memory: a frame taken off the free list held its
    link in its first word, which is cleared. -/
def Pmm.clearLink (p : Pmm) (frame : Nat) (memory : Nat → Page) : Nat → Page :=
  if p.freeListHead = 0 then memory
  else update memory frame (update (memory frame) 0 0)

/-- The kernel's variables. -/
structure State where
  pmm : Pmm
  /-- the page table whose root is the given frame -/
  space : Nat → PageTable
  /-- the contents of frames -/
  memory : Nat → Page
  tcb : Nat → Tcb
  pcb : Nat → Pcb
  endpoint : Nat → Endpoint
  endpointSlab : Slab
  queuedSend : Nat → QueuedSend
  sendSlab : Slab
  memoryObject : Nat → MemoryObject
  memorySlab : Slab
  notification : Nat → Notification
  notificationSlab : Slab
  device : Nat → DeviceSlot
  deviceSlab : Slab
  /-- `Interrupts.Lines`: the device slot that heads the chain of a source -/
  lines : Nat → Nat
  bootFile : Nat → BootFile
  /-- `Used`, by process slot -/
  used : Nat → Bool
  /-- `Thread_Used`, by thread slot -/
  threadUsed : Nat → Bool
  processThreadCount : Nat → Nat
  /-- the free list over process slots -/
  freeSlots : List Nat
  /-- the free list over the slots of secondary threads -/
  threadFreeSlots : List Nat
  slotGeneration : Nat → Nat
  threadSlotGeneration : Nat → Nat
  nextThreadId : Nat
  /-- kernel stacks whose frames wait for the hart to leave them -/
  deferredStacks : List Nat
  /-- the trap trampoline's kernel addresses `[first, last)` -/
  trampolineFirst : Nat
  trampolineLast : Nat
  /-- a failed range or overflow check of the kernel's own code stopped the machine -/
  halted : Bool

namespace State

variable (k : State)

/-- The last-chance handler: a failed check in the kernel stops the machine. -/
def halt : State := { k with halted := true }

/-- Change one thread control block. -/
def modTcb (t : Nat) (f : Tcb → Tcb) : State :=
  { k with tcb := update k.tcb t (f (k.tcb t)) }

/-- Change one process control block. -/
def modPcb (p : Nat) (f : Pcb → Pcb) : State :=
  { k with pcb := update k.pcb p (f (k.pcb p)) }

/-- Change one endpoint. -/
def modEndpoint (o : Nat) (f : Endpoint → Endpoint) : State :=
  { k with endpoint := update k.endpoint o (f (k.endpoint o)) }

/-- Change one queued-send slot. -/
def modQueuedSend (o : Nat) (f : QueuedSend → QueuedSend) : State :=
  { k with queuedSend := update k.queuedSend o (f (k.queuedSend o)) }

/-- Change one memory object. -/
def modMemoryObject (o : Nat) (f : MemoryObject → MemoryObject) : State :=
  { k with memoryObject := update k.memoryObject o (f (k.memoryObject o)) }

/-- Change one notification. -/
def modNotification (o : Nat) (f : Notification → Notification) : State :=
  { k with notification := update k.notification o (f (k.notification o)) }

/-- Change one device slot. -/
def modDevice (o : Nat) (f : DeviceSlot → DeviceSlot) : State :=
  { k with device := update k.device o (f (k.device o)) }

/-- The capability table of a thread's process. -/
def capsOf (t : Nat) : CapTable := (k.pcb (k.tcb t).process).caps

/-- Write the result registers of a thread. -/
def setA0 (t : Nat) (v : U64) : State := k.modTcb t fun c => { c with savedA0 := v }

def setA1 (t : Nat) (v : U64) : State := k.modTcb t fun c => { c with savedA1 := v }

/-- `Scheduler.Wake`: a thread that is not dead, running or ready becomes ready. -/
def wake (t : Nat) : State :=
  if t = 0 then k
  else
    match (k.tcb t).state with
    | .dead => k
    | .running => k
    | .ready => k
    | _ => k.modTcb t fun c => { c with state := .ready }

/-- `Is_Dead`. -/
def isDead (t : Nat) : Bool := t == 0 || (k.tcb t).state == .dead

end State

namespace Slab

/-- `Grow_Pool`: carve one frame into `slotsPerFrame` slots, each pushed on the free list. -/
def grow (s : Slab) (slotsPerFrame : Nat) (p : Pmm) : Option Slab × Pmm :=
  match p.allocateFrame with
  | (.error _, p') => (none, p')
  | (.ok frame, p') =>
    (some {
      free := ((List.range slotsPerFrame).map fun i => s.carved + slotsPerFrame - i) ++ s.free
      carved := s.carved + slotsPerFrame
      frames := frame :: s.frames }, p')

/-- The slab with a free slot in it: unchanged if there is one, grown otherwise. -/
def ensureFree (s : Slab) (slotsPerFrame : Nat) (p : Pmm) : Option Slab × Pmm :=
  if s.free = [] then s.grow slotsPerFrame p else (some s, p)

/-- Pop the free list's head (`0` when the list is empty). -/
def take (s : Slab) : Nat × Slab := (s.free.headD 0, { s with free := s.free.tail })

/-- `Free_Slot`. -/
def put (s : Slab) (object : Nat) : Slab := { s with free := object :: s.free }

end Slab

end Aegir.Kernel
