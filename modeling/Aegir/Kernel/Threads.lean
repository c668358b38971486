/-
  Thread and process death (`Kernel.Processes`, second half).

  A dying thread is first detached from every object that may point at its control block and only then marked
  dead; the process's caps are closed one by one; the address space and the slot stay until the parent reaps
  them.  A kernel stack that may still be in use goes on a DEFERRED list, here one for all harts, from which
  the drain may pick any member.
-/
import Aegir.Kernel.Processes

namespace Aegir.Kernel

open Aegir.Arch Function

namespace State

variable (k : State) (t : Nat)

/-! ## Thread_Wait lists -/

/-- The walk of `Remove_As_Waiter` along the target's list. -/
def unlinkWaiter (k : State) (target waiter : Nat) : Nat → Nat → Nat → State
  | _, _, 0 => k
  | previous, scan, n + 1 =>
    if scan = 0 then k
    else if scan = waiter then
      let next := (k.tcb scan).waitersNext
      if previous = 0 then k.modTcb target fun c => { c with waitersHead := next }
      else k.modTcb previous fun c => { c with waitersNext := next }
    else unlinkWaiter k target waiter scan (k.tcb scan).waitersNext n

/-- `Remove_As_Waiter`. -/
def removeAsWaiter (waiter : Nat) : State :=
  let target := (k.tcb waiter).waitingFor
  if target = 0 then k
  else
    (k.unlinkWaiter target waiter 0 (k.tcb target).waitersHead threadBound).modTcb waiter fun c =>
      { c with waitingFor := 0, waitersNext := 0 }

/-- The loop of `Wake_Thread_Waiters`. -/
def wakeWaiters (k : State) : Nat → Nat → State
  | _, 0 => k
  | waiter, n + 1 =>
    if waiter = 0 then k
    else
      let next := (k.tcb waiter).waitersNext
      let k' := (k.modTcb waiter fun c =>
        { c with waitingFor := 0, waitersNext := 0, savedA0 := 0 }).wake waiter
      wakeWaiters k' next n

/-- `Wake_Thread_Waiters`. -/
def wakeThreadWaiters (target : Nat) : State :=
  (k.wakeWaiters (k.tcb target).waitersHead threadBound).modTcb target fun c =>
    { c with waitersHead := 0 }

/-! ## Exit -/

/-- `Teardown_Thread`. -/
def teardownThread : State :=
  let k₁ := if (k.tcb t).queuedOnEp ≠ 0 then k.cleanupEndpointWaiter t (k.tcb t).queuedOnEp else k
  ((((k₁.cancelReceive t).cleanupNotificationThread t).cleanupIrqThread t).removeAsWaiter
    t).wakeThreadWaiters t

/-- `Free_Kernel_Stack_Later`. -/
def deferStack (top : Nat) : State :=
  if top = 0 then k else { k with deferredStacks := top :: k.deferredStacks }

/-- The kernel stack of a dying thread: kept for later while a hart still runs on it. -/
def retireStack (inUse : Bool) : State :=
  let top := (k.tcb t).kernelStackTop
  if top = 0 then k
  else
    (if inUse then k.deferStack top else k.freeStack top).modTcb t fun c =>
      { c with kernelStackTop := 0 }

/-- A thread slot is given back; only slots of secondary threads go on the free list. -/
def freeThreadSlot (slot : Nat) : State :=
  { k with
    threadUsed := update k.threadUsed slot false
    threadFreeSlots :=
      if maxProcessSlots ≤ slot then slot :: k.threadFreeSlots else k.threadFreeSlots }

/-- What `Mark_Exited` does to one thread of the process. -/
def killThread (slot thread : Nat) : State :=
  let t := slotAddress slot
  let inUse := t == thread || (k.tcb t).state == .running
  (((k.retireStack t inUse).teardownThread t).modTcb t fun c => { c with state := .dead }).freeThreadSlot
    slot

/-- The loop of `Mark_Exited` over the thread slots `slot, slot + 1, ..`. -/
def killThreads (k : State) (process thread : Nat) : Nat → Nat → State
  | _, 0 => k
  | slot, n + 1 =>
    let k' := if k.threadUsed slot ∧ (k.tcb (slotAddress slot)).process = process then
        k.killThread slot thread
      else k
    killThreads k' process thread (slot + 1) n

/-- The process has a slot in the table. -/
def inProcessTable (process : Nat) : Bool := process != 0 && process ≤ maxProcessSlots

/-- `Mark_Exited`. -/
def markExited (thread : Nat) (code : U64) : State :=
  let process := (k.tcb thread).process
  if thread = 0 ∨ process = 0 then k
  else
    let k₁ := k.modPcb process fun p => { p with exitCode := code, state := .dead }
    let k₂ := k₁.killThreads process thread 0 maxThreadSlots
    let k₃ := if inProcessTable process then
        { k₂ with processThreadCount := update k₂.processThreadCount (process - 1) 0 }
      else k₂
    k₃.cleanupCapRefs thread

/-- `Thread_Exit`.  The last thread takes the process down. -/
def threadExit (thread : Nat) : ProcStatus × State :=
  let process := (k.tcb thread).process
  if thread = 0 ∨ process = 0 then (.invalidParent, k)
  else if inProcessTable process = false then (.invalidProgram, k)
  else if maxThreadSlots < thread ∨ k.threadUsed (thread - 1) = false then (.invalidProgram, k)
  else
    let k₁ := if k.processThreadCount (process - 1) = 1 then
        (k.modPcb process fun p => { p with exitCode := 0, state := .dead }).cleanupCapRefs thread
      else k
    -- the counter is a Natural: decrementing 0 fails its range check
    let k₂ := if k₁.processThreadCount (process - 1) = 0 then k₁.halt else k₁
    let count := k₂.processThreadCount (process - 1) - 1
    let k₃ := { k₂ with
      processThreadCount := update k₂.processThreadCount (process - 1) count }
    let k₄ := ((k₃.retireStack thread true).teardownThread thread).modTcb thread fun c =>
      { c with state := .dead }
    (.ok, k₄.freeThreadSlot (thread - 1))

/-! ## Creating a thread -/

/-- The address of stack page `page`: the stack descends from `va`. -/
def stackPageVA (va pages : U64) (page : Nat) : Nat := (va - (pages - UInt64.ofNat page) * 4096).toNat

/-- The stack loop of `Thread_Create`; the page that could not be mapped, if any.  The leaves are
    NOT marked as borrowed, although the frames belong to the memory object. -/
def mapObjectStack (k : State) (root object : Nat) (va pages : U64) :
    Nat → Nat → Option Nat × State
  | _, 0 => (none, k)
  | page, n + 1 =>
    match k.mapPage root (stackPageVA va pages page) (k.frameAt object page) userRWX false with
    | (.ok, k') => mapObjectStack k' root object va pages (page + 1) n
    | (_, k') => (some page, k')

/-- The loop of `Undo_Stack_Map`. -/
def undoStackPages (k : State) (root : Nat) (va pages : U64) : Nat → Nat → State
  | _, 0 => k
  | page, n + 1 =>
    undoStackPages (k.unmapBorrowedPage root (stackPageVA va pages page)).2 root va pages (page + 1) n

/-- `Undo_Stack_Map`.  Its loop runs over `0 .. Mapped - 1` in modular arithmetic: with nothing
    mapped that is the whole range. -/
def undoStackMap (root : Nat) (va pages : U64) (mapped : Nat) : State :=
  k.undoStackPages root va pages 0 (if mapped = 0 then 2 ^ 64 else mapped)

/-- Give back the reserved thread slot and the kernel stack of a thread that could not be built. -/
def abandonThread (slot stack : Nat) : State :=
  { k with
    threadUsed := update k.threadUsed slot false
    threadFreeSlots := slot :: k.threadFreeSlots
    pmm := (k.pmm.deallocateFrame stack).2 }

/-- The cap names a memory object that may be mapped, read and written. -/
def isMappableMemory (e : CapEntry) : Bool :=
  e.kind == .memoryObject && e.rights.map && e.rights.read && e.rights.write

/-- `Priority_From_Bits`: the word as a signed number, clamped into `-128 .. 127`. -/
def priorityFromBits (bits : U64) : Int := max (-128) (min 127 bits.toBitVec.toInt)

/-- The control block of the new thread, its id and its cap in the caller's table. -/
def installThread (cur slot stack object : Nat) (ipcVA : U64) (priority : Int) :
    Except CapStatus Nat × State :=
  let id := k.nextThreadId
  let k₁ := if id + 1 = 2 ^ 31 then k.halt else k
  let k₂ := { k₁ with nextThreadId := id + 1 }
  let k₃ := k₂.initializeSlotThread slot id (k₂.tcb cur).process (k₂.frameAt object 0) ipcVA.toNat
    (stack + pageSize)
  let r := k₃.insertCap cur .threadObject (slotAddress slot) threadCapRights (UInt64.ofNat id)
  let cap := match r.1 with
    | .ok h => h
    | .error _ => 0
  (r.1, r.2.modTcb (slotAddress slot) fun c => { c with userThreadCap := cap, priority := priority })

/-- `Thread_Create` from the point where its arguments are checked. -/
def buildThread (cur stackObject ipcObject : Nat) (stackVA stackPages ipcVA : U64)
    (priority : Int) : ProcStatus × Nat × State :=
  let root := k.addressSpaceRoot cur
  match k.pmm.allocateFrame with
  | (.error _, p) => (.loadFailed, 0, { k with pmm := p })
  | (.ok stack, p) =>
    let k₀ := { k with pmm := p }
    match k₀.mapPage root (physToVirt stack) stack kernelRW false with
    | (.ok, k₁) =>
      match k₁.threadFreeSlots with
      | [] => (.noSlot, 0, { k₁ with pmm := (k₁.pmm.deallocateFrame stack).2 })
      | slot :: rest =>
        let k₂ := { k₁ with
          threadFreeSlots := rest, threadUsed := update k₁.threadUsed slot true }
        match k₂.mapObjectStack root stackObject stackVA stackPages 0 stackPages.toNat with
        | (some page, k₃) =>
          (.loadFailed, 0, (k₃.undoStackMap root stackVA stackPages page).abandonThread slot stack)
        | (none, k₃) =>
          match k₃.mapPage root ipcVA.toNat (k₃.frameAt ipcObject 0) userRW false with
          | (.ok, k₄) =>
            match k₄.installThread cur slot stack ipcObject ipcVA priority with
            | (.ok cap, k₅) =>
              let owner := (k₅.tcb cur).process - 1
              let counts :=
                update k₅.processThreadCount owner (k₅.processThreadCount owner + 1)
              (.ok, cap, { k₅ with processThreadCount := counts })
            | (.error _, k₅) =>
              let k₆ := (k₅.unmapBorrowedPage root ipcVA.toNat).2
              (.capFailed, 0,
                (k₆.undoStackMap root stackVA stackPages stackPages.toNat).abandonThread slot stack)
          | (_, k₄) =>
            (.loadFailed, 0,
              (k₄.undoStackMap root stackVA stackPages stackPages.toNat).abandonThread slot stack)
    | (_, k₁) => (.loadFailed, 0, { k₁ with pmm := (k₁.pmm.deallocateFrame stack).2 })

/-- `Thread_Create`; the parameter block lies in the caller's IPC buffer.  The two cap words are
    converted to handles without a check of their range. -/
def threadCreate (cur : Nat) : ProcStatus × Nat × State :=
  let c := k.tcb cur
  if cur = 0 ∨ c.process = 0 then (.invalidParent, 0, k)
  else if inProcessTable c.process = false then (.noSlot, 0, k)
  else if c.ipcBuffer = 0 then (.invalidProgram, 0, k)
  else
    let block := k.memory c.ipcBuffer
    let stackVA := block 8
    let stackPages := block 16
    let ipcVA := block 72
    if (block 56).toNat > handleLast ∨ (block 64).toNat > handleLast then
      (.invalidProgram, 0, k.halt)
    else if stackVA % 4096 ≠ 0 ∨ stackVA < 0x40000000 ∨ stackVA > 0x80000000 ∨
        stackPages * 4096 > stackVA - 0x40000000 then (.invalidProgram, 0, k)
    else if ipcVA % 4096 ≠ 0 ∨ ipcVA < 0x40000000 ∨ ipcVA > 0x80000000 then (.invalidProgram, 0, k)
    else
      match k.lookupCap cur (block 56).toNat with
      | none => (.invalidProgram, 0, k)
      | some stackInfo =>
        if isMappableMemory stackInfo = false ∨ stackPages = 0 ∨
            stackPages.toNat > k.pageCount stackInfo.object then (.invalidProgram, 0, k)
        else
          match k.lookupCap cur (block 64).toNat with
          | none => (.invalidProgram, 0, k)
          | some ipcInfo =>
            if isMappableMemory ipcInfo = false ∨ k.pageCount ipcInfo.object < 1 then
              (.invalidProgram, 0, k)
            else k.buildThread cur stackInfo.object ipcInfo.object stackVA stackPages ipcVA
              (priorityFromBits (block 48))

/-! ## Waiting for a thread -/

/-- `Thread_Wait`: already exited threads return at once. -/
def threadWait (cur cap : Nat) : ProcStatus × State :=
  match k.lookupCap cur cap with
  | none => (.invalidCap, k)
  | some e =>
    if e.kind ≠ .threadObject ∨ e.rights.wait = false then (.invalidCap, k)
    else if (k.tcb e.object).state = .dead then (.ok, k)
    else if e.object = cur then (.invalidCap, k)
    else
      let k₁ := k.modTcb cur fun c =>
        { c with waitingFor := e.object, waitersNext := (k.tcb e.object).waitersHead }
      let k₂ := k₁.modTcb e.object fun c => { c with waitersHead := cur }
      (.ok, k₂.modTcb cur fun c => { c with state := .blockedThreadWait })

/-! ## Priorities -/

/-- `Set_Thread_Priority`: the old priority of the initial thread of the process, when the address is
    that of a used slot. -/
def setThreadPriority (object : Nat) (priority : Int) : Option Int × State :=
  if inProcessTable object = false ∨ k.used (object - 1) = false then (none, k)
  else (some (k.tcb object).priority, k.modTcb object fun c => { c with priority := priority })

/-! ## Reap -/

/-- `Reap_Process`: the exit code, and the slot given back. -/
def reapProcess (parent cap : Nat) : ProcStatus × U64 × State :=
  match k.lookupCap parent cap with
  | none => (.capFailed, 0, k)
  | some e =>
    if e.kind ≠ .processObject ∨ e.rights.manage = false then (.capFailed, 0, k)
    else if inProcessTable e.object = false ∨ k.used (e.object - 1) = false then
      (.invalidProgram, 0, k)
    else if (k.pcb e.object).state ≠ .dead ∨ (k.tcb e.object).state ≠ .dead then
      (.notExited, 0, k)
    else
      let code := (k.pcb e.object).exitCode
      match k.closeCap parent cap false with
      | (.ok, k₁) =>
        let k₂ := k₁.cleanupCapRefs e.object
        let k₃ := (k₂.destroyAddressSpace (k₂.pcb e.object).root).modPcb e.object fun p =>
          { p with root := 0 }
        (.ok, code, k₃.discardSlot (e.object - 1) false)
      | (_, k₁) => (.capFailed, code, k₁)

end State

end Aegir.Kernel
