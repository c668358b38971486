/-
  Reference-counted kernel objects and the close dispatcher (`Kernel.Memory`,
  `Kernel.Notifications`, `Kernel.Devices`, `Kernel.Interrupts`, `Kernel.Objects`).

  Every dynamic object lives in a slab slot and counts the capability entries that refer to it.
  `retainCap` and `cleanupThreadCapObject` dispatch on the kind of an entry: the first is called
  after an insert, the second before a close.  The last release runs the object's finaliser and
  returns the slot to its slab.
-/
import Aegir.Kernel.Endpoints

namespace Aegir.Kernel

namespace State

variable (k : State) (object : Nat)

/-! ## Memory objects -/

/-- `Kernel.Memory.Max_Pages`. -/
def maxPages : Nat := 256

/-- A memory object fills a frame of the slab. -/
def memoryObjectsPerFrame : Nat := 1

def freeMemorySlot : State :=
  { k with memorySlab := k.memorySlab.put object }

/-- The loop of `Free_Frames` over the frames `index, index + 1, ..`. -/
def freeFramesFrom (frames : Nat → Nat) : Nat → Nat → Pmm → Pmm
  | _, 0, p => p
  | index, n + 1, p => freeFramesFrom frames (index + 1) n (p.deallocateFrame (frames index)).2

/-- `Free_Frames`.  The loop runs over `0 .. Pages - 1` in modular arithmetic, so with no page it
    runs into the index check of the frame array. -/
def freeFrames : State :=
  let m := k.memoryObject object
  let k' := { k with pmm := freeFramesFrom m.frames 0 m.pages k.pmm }
  if m.pages = 0 then k'.halt else k'

/-- `Zero_Frame`. -/
def zeroFrame (frame : Nat) : State :=
  { k with memory := Function.update k.memory frame fun _ => 0 }

/-- The loop of `Create` over the frames `index, index + 1, ..` of the object; `false` when the
    allocator ran out, with the frames taken so far as the object's pages. -/
def allocateFrames (k : State) (object : Nat) : Nat → Nat → Bool × State
  | _, 0 => (true, k)
  | index, n + 1 =>
    match k.pmm.allocateFrame with
    | (.error _, p) =>
      (false, { k with pmm := p }.modMemoryObject object fun m => { m with pages := index })
    | (.ok frame, p) =>
      let k' := ({ k with pmm := p }.zeroFrame frame).modMemoryObject object fun m =>
        { m with frames := Function.update m.frames index frame }
      allocateFrames k' object (index + 1) n

/-- `Kernel.Memory.Create`: an unreferenced object of `pages` zeroed frames, or null. -/
def createMemory (pages : U64) : Nat × State :=
  if pages.toNat = 0 ∨ pages.toNat > maxPages then (0, k)
  else
    match k.memorySlab.ensureFree memoryObjectsPerFrame k.pmm with
    | (none, p) => (0, { k with pmm := p })
    | (some s, p) =>
      let (object, s') := s.take
      let k₁ := { k with memorySlab := s', pmm := p }.modMemoryObject object
        fun _ => ⟨0, pages.toNat, fun _ => 0⟩
      match k₁.allocateFrames object 0 pages.toNat with
      | (true, k₂) => (object, k₂)
      | (false, k₂) => (0, (k₂.freeFrames object).freeMemorySlot object)

/-- `Kernel.Memory.Discard`. -/
def discardMemory : State :=
  if object = 0 then k else (k.freeFrames object).freeMemorySlot object

/-- `Kernel.Memory.Retain`. -/
def retainMemory : State :=
  if object = 0 then k else k.modMemoryObject object fun m => { m with count := m.count + 1 }

/-- `Kernel.Memory.Release`: the last reference returns the frames and the slot. -/
def releaseMemory : State :=
  if object = 0 ∨ (k.memoryObject object).count = 0 then k
  else
    let k' := k.modMemoryObject object fun m => { m with count := m.count - 1 }
    if (k'.memoryObject object).count ≠ 0 then k'
    else (k'.freeFrames object).freeMemorySlot object

/-- `Page_Count`. -/
def pageCount : Nat :=
  if object = 0 then 0 else (k.memoryObject object).pages

/-- `Frame_At`: frame `index` of the object, 0 when out of range. -/
def frameAt (object index : Nat) : Nat :=
  if object = 0 ∨ (k.memoryObject object).pages ≤ index then 0
  else (k.memoryObject object).frames index

/-! ## Notifications -/

/-- Slots of `Notification` in a frame, less the one that heads the frame. -/
def notificationsPerFrame : Nat := 84

/-- `Slot_Access`: the address names a slot of some slab frame. -/
def isNotificationSlot : Bool :=
  object != 0 && object ≤ k.notificationSlab.carved

/-- `Free_Notification`. -/
def freeNotification : State :=
  { k.modNotification object fun n => { n with inUse := false, waiting := 0 } with
    notificationSlab := k.notificationSlab.put object }

/-- `Kernel.Notifications.Create`. -/
def createNotification : Nat × State :=
  match k.notificationSlab.ensureFree notificationsPerFrame k.pmm with
  | (none, p) => (0, { k with pmm := p })
  | (some s, p) =>
    let (object, s') := s.take
    (object, { k.modNotification object fun _ => ⟨0, 0, 0, 0, true⟩ with
      notificationSlab := s', pmm := p })

/-- `Kernel.Notifications.Discard`. -/
def discardNotification : State :=
  if k.isNotificationSlot object then k.freeNotification object else k

/-- `Kernel.Notifications.Retain`. -/
def retainNotification : State :=
  if k.isNotificationSlot object then
    k.modNotification object fun n => { n with count := n.count + 1 }
  else k

/-- `Kernel.Notifications.Release`: a waiter of the dying object wakes with the failure result. -/
def releaseNotification : State :=
  if k.isNotificationSlot object then
    let k₁ := k.modNotification object fun n => { n with count := n.count - 1 }
    if (k₁.notification object).count = 0 then
      let k₂ := k₁.modNotification object fun n => { n with boundThread := 0, bits := 0 }
      let waiter := (k₂.notification object).waiting
      let k₃ := if waiter ≠ 0 then (k₂.setA0 waiter (0 - 1)).wake waiter else k₂
      k₃.freeNotification object
    else k₁
  else k

/-- `Kernel.Notifications.Cleanup_Thread_Cap`. -/
def cleanupNotificationWaiter (thread object : Nat) (unbind : Bool) : State :=
  if !unbind then k
  else
    let k₁ := if k.isNotificationSlot object then
        k.modNotification object fun n =>
          { n with
            boundThread := if n.boundThread = thread then 0 else n.boundThread
            waiting := if n.waiting = thread then 0 else n.waiting }
      else k
    if thread ≠ 0 ∧ (k₁.tcb thread).boundNtfn = object then
      k₁.modTcb thread fun c => { c with boundNtfn := 0 }
    else k₁

/-- The thread leaves the notification it is bound to. -/
def unbindNotification (thread : Nat) : State :=
  let bound := (k.tcb thread).boundNtfn
  if bound = 0 then k
  else
    let k₁ := if k.isNotificationSlot bound ∧ (k.notification bound).boundThread = thread then
        k.modNotification bound fun n => { n with boundThread := 0 }
      else k
    k₁.modTcb thread fun c => { c with boundNtfn := 0 }

/-- The scan over all notifications in use that forgets the thread as a waiter. -/
def clearNotificationWaits (thread : Nat) : State :=
  let clear := fun o =>
    if k.isNotificationSlot o ∧ (k.notification o).inUse ∧ (k.notification o).waiting = thread then
      { k.notification o with waiting := 0 }
    else k.notification o
  { k with notification := clear }

/-- `Kernel.Notifications.Cleanup_Thread`: the scan runs only for a thread that is blocked on a
    notification. -/
def cleanupNotificationThread (thread : Nat) : State :=
  if thread = 0 then k
  else
    let k₁ := k.unbindNotification thread
    if (k₁.tcb thread).state = .blockedNotification then k₁.clearNotificationWaits thread else k₁

/-! ## Device slots and interrupt lines -/

/-- Slots of `Device_Slot` in a frame. -/
def devicesPerFrame : Nat := 42

/-- `Interrupts.Max_Sources`. -/
def maxSources : Nat := 2048

/-- `Allocate_Slot`. -/
def allocateDevice : Nat × State :=
  match k.deviceSlab.ensureFree devicesPerFrame k.pmm with
  | (none, p) => (0, { k with pmm := p })
  | (some s, p) =>
    let (object, s') := s.take
    (object, { k.modDevice object fun d => { d with count := 0 } with deviceSlab := s', pmm := p })

/-- `Devices.No_Device`. -/
def noDevice : U64 := 0xFFFFFF

/-- `Create_MMIO`. -/
def createMmio (base length deviceId : U64) : Nat × State :=
  let r := k.allocateDevice
  if r.1 = 0 then r
  else (r.1, r.2.modDevice r.1 fun d =>
    { d with kind := .mmio, physicalBase := base, length := length, deviceId := deviceId })

/-- `Create_IRQ`. -/
def createIrq (source : U64) : Nat × State :=
  let r := k.allocateDevice
  if r.1 = 0 then r
  else (r.1, r.2.modDevice r.1 fun d =>
    { d with
      kind := .irq, deviceId := noDevice, source := source, pending := false, inFlight := false
      waiter := 0, ntfn := 0, ntfnBadge := 0, next := 0 })

/-- `Devices.Retain`. -/
def retainDevice : State :=
  k.modDevice object fun d => { d with count := d.count + 1 }

/-- The walk of `Unregister` along a source's chain. -/
def unchainLine (k : State) (object : Nat) : Nat → Nat → State
  | _, 0 => k
  | cur, n + 1 =>
    if cur = 0 then k
    else if (k.device cur).next = object then
      k.modDevice cur fun d => { d with next := (k.device object).next }
    else unchainLine k object (k.device cur).next n

/-- `Interrupts.Unregister`. -/
def unregisterLine : State :=
  let source := (k.device object).source.toNat
  if maxSources ≤ source then k
  else
    let k' := if k.lines source = object then
        { k with lines := Function.update k.lines source (k.device object).next }
      else k.unchainLine object (k.lines source) k.deviceSlab.carved
    k'.modDevice object fun d => { d with next := 0 }

/-- What the last reference (or a failed install) does: unregister a line, free the slot. -/
def finalizeDevice : State :=
  let k' := if (k.device object).kind = .irq then k.unregisterLine object else k
  { k' with deviceSlab := k'.deviceSlab.put object }

/-- `Devices.Release`. -/
def releaseDevice : State :=
  if (k.device object).count = 0 then k.finalizeDevice object
  else
    let k' := k.modDevice object fun d => { d with count := d.count - 1 }
    if (k'.device object).count = 0 then k'.finalizeDevice object else k'

/-- `Interrupts.Cleanup_Thread_Cap` on the line of an IRQ object. -/
def cleanupLineWaiter (thread object : Nat) : State :=
  if object ≠ 0 ∧ (k.device object).kind = .irq ∧ (k.device object).waiter = thread then
    k.modDevice object fun d => { d with waiter := 0 }
  else k

/-- The inner loop of `Cleanup_Thread`, along the chain of one source. -/
def clearLineWaiters (k : State) (thread : Nat) : Nat → Nat → State
  | _, 0 => k
  | cur, n + 1 =>
    if cur = 0 then k
    else
      let k' := if (k.device cur).waiter = thread then
          k.modDevice cur fun d => { d with waiter := 0 }
        else k
      clearLineWaiters k' thread (k'.device cur).next n

/-- `Interrupts.Cleanup_Thread`: a thread blocked on a line is taken off every line. -/
def cleanupIrqThread (thread : Nat) : State :=
  if thread = 0 ∨ (k.tcb thread).state ≠ .blockedIrq then k
  else (List.range maxSources).foldl
    (fun k source => k.clearLineWaiters thread (k.lines source) k.deviceSlab.carved) k

/-! ## Dispatch on the kind of an entry -/

/-- `Retain_Cap`. -/
def retainCap (cap : CapEntry) : State :=
  if !cap.valid then k
  else
    match cap.kind with
    | .endpointObject => k.retainEndpoint cap.object
    | .memoryObject => k.retainMemory cap.object
    | .notificationObject => k.retainNotification cap.object
    | .mmioObject => k.retainDevice cap.object
    | .irqObject => k.retainDevice cap.object
    | _ => k

/-- `Cleanup_Thread_Cap_Object`. -/
def cleanupThreadCapObject (thread : Nat) (cap : CapEntry) (threadDying : Bool) :
    State :=
  if thread = 0 ∨ cap.valid = false then k
  else
    match cap.kind with
    | .endpointObject =>
      let k' := if threadDying ∧ cap.rights.receive then k.failEndpoint cap.object else k
      (k'.cleanupEndpointWaiter thread cap.object).releaseEndpoint cap.object
    | .replyObject => k.failReplyTarget cap.object cap.badge
    | .irqObject => (k.cleanupLineWaiter thread cap.object).releaseDevice cap.object
    | .mmioObject => k.releaseDevice cap.object
    | .memoryObject => k.releaseMemory cap.object
    | .notificationObject =>
      (k.cleanupNotificationWaiter thread cap.object threadDying).releaseNotification cap.object
    | _ => k

end State

end Aegir.Kernel
