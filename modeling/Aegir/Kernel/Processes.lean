/-
  Process and thread lifecycle (`Kernel.Processes`): spawn, exit, thread creation and exit, reap.

  A spawn builds the new process from the outside in: address space, stacks, image, the control blocks in a
  slot that is only PEEKED from the free list, the granted caps, and at the very end the process cap in the
  parent's table.  Each failure on the way undoes by hand what was built.
-/
import Aegir.Kernel.Elf

namespace Aegir.Kernel

open Aegir.Arch Function

/-- `Kernel.Processes.Status`. -/
inductive ProcStatus where
  | ok
  | invalidProgram
  | noSlot
  | loadFailed
  | capFailed
  | schedulerFailed
  | invalidParent
  | invalidCap
  | notExited
deriving DecidableEq, Repr

/-- `Status'Pos`. -/
def ProcStatus.code : ProcStatus → U64
  | .ok => 0
  | .invalidProgram => 1
  | .noSlot => 2
  | .loadFailed => 3
  | .capFailed => 4
  | .schedulerFailed => 5
  | .invalidParent => 6
  | .invalidCap => 7
  | .notExited => 8

def maxGrants : Nat := 32
def grantListOffset : Nat := 128
def generationWrap : Nat := 2 ^ 23
def pidSlotRange : Nat := 256

/-- `Max_Process_Slots`. -/
def maxProcessSlots : Nat := 128

def processRights : Rights := { read := true, manage := true }
def threadCapRights : Rights := { wait := true, manage := true }

/-- Slot `i` of the process and thread tables, as an address. -/
def slotAddress (i : Nat) : Nat := i + 1

namespace State

variable (k : State)

/-! ## Spawn -/

/-- The grant loop over the entries `index, index + 1, ..` of the parent's list. -/
def grantCaps (k : State) (parent child : Nat) (buf : Page) : Nat → Nat → ProcStatus × State
  | _, 0 => (.ok, k)
  | index, n + 1 =>
    let source := buf (grantListOffset + 24 * index)
    let mask := buf (grantListOffset + 24 * index + 8)
    let badge := buf (grantListOffset + 24 * index + 16)
    if source.toNat > handleLast then (.capFailed, k)
    else
      match k.lookupCap parent source.toNat with
      | none => (.capFailed, k)
      | some e =>
        if e.kind = .replyObject ∨ mask &&& ~~~validRightsMask ≠ 0 then (.capFailed, k)
        else if hasRights e.rights (toRights mask) = false then (.capFailed, k)
        else
          match k.insertProcessCapAt child (index + 1) e.kind e.object (toRights mask) badge with
          | (.ok, k') => grantCaps k' parent child buf (index + 1) n
          | (_, k') => (.capFailed, k')

/-- `Grant_List_Caps`: the list lies in the parent's IPC buffer page. -/
def grantListCaps (parent child : Nat) (grantCount : U64) : ProcStatus × State :=
  if grantCount = 0 then (.ok, k)
  else if grantCount.toNat > maxGrants then (.capFailed, k)
  else if (k.tcb parent).ipcBuffer = 0 then (.capFailed, k)
  else k.grantCaps parent child (k.memory (k.tcb parent).ipcBuffer) 0 grantCount.toNat

/-- `Destroy_Address_Space`. -/
def destroyAddressSpace (root : Nat) : State :=
  if root = 0 ∨ root % pageSize ≠ 0 then k
  else { k with
    pmm := (destroyUserAddressSpace root (k.space root) k.pmm).2
    space := update k.space root .zero }

/-- Close the handles `cap, cap + 1, ..` of a thread's process, as part of its death. -/
def closeCaps (k : State) (thread : Nat) : Nat → Nat → State
  | _, 0 => k
  | cap, n + 1 => closeCaps (k.closeCap thread cap true).2 thread (cap + 1) n

/-- `Cleanup_Cap_Refs`: every handle but the invalid one. -/
def cleanupCapRefs (thread : Nat) : State :=
  if thread = 0 ∨ (k.tcb thread).process = 0 then k else k.closeCaps thread 1 handleLast

/-- Give back the frame below a kernel stack top. -/
def freeStack (top : Nat) : State :=
  { k with pmm := (k.pmm.deallocateFrame (top - pageSize)).2 }

/-- `Discard_Slot`. -/
def discardSlot (slot : Nat) (closeAll : Bool) : State :=
  let thread := slotAddress slot
  let top := (k.tcb thread).kernelStackTop
  let k₁ := if top ≠ 0 then
      (k.freeStack top).modTcb thread fun c => { c with kernelStackTop := 0 }
    else k
  let k₂ := k₁.modTcb thread fun c => { c with state := .dead }
  let k₃ := if closeAll then k₂.closeCaps thread 0 (handleLast + 1)
    else k₂.resetProcessCaps (slotAddress slot)
  let k₄ := k₃.modPcb (slotAddress slot) fun p => { p with state := .dead }
  { k₄ with
    threadUsed := update k₄.threadUsed slot false
    processThreadCount := update k₄.processThreadCount slot 0
    used := update k₄.used slot false
    freeSlots := if k₄.used slot then slot :: k₄.freeSlots else k₄.freeSlots }

/-- The stack loop of `Spawn_Image`: pages `i, i + 1, ..` below the stack top.  The frames are mapped
    with what is in them. -/
def mapStack (k : State) (root : Nat) : Nat → Nat → Bool × State
  | _, 0 => (true, k)
  | i, n + 1 =>
    match k.pmm.allocateFrame with
    | (.error _, p) => (false, { k with pmm := p })
    | (.ok frame, p) =>
      let k₁ := { k with pmm := p, memory := k.pmm.clearLink frame k.memory }
      match k₁.mapPage root (userStackTop - i * pageSize) frame userRWX false with
      | (.ok, k') => mapStack k' root (i + 1) n
      | (_, k') => (false, { k' with pmm := (k'.pmm.deallocateFrame frame).2 })

/-- Allocate a frame and map it; the frame goes back when it cannot be mapped. -/
def mapFresh (root : Nat) (virtual : Nat → Nat) (flags : PageFlags) :
    Option Nat × State :=
  match k.pmm.allocateFrame with
  | (.error _, p) => (none, { k with pmm := p })
  | (.ok frame, p) =>
    let k₁ := { k with pmm := p }
    match k₁.mapPage root (virtual frame) frame flags false with
    | (.ok, k') => (some frame, k')
    | (_, k') => (none, { k' with pmm := (k'.pmm.deallocateFrame frame).2 })

/-- The address space of a new process: trampoline, user stack, IPC buffer, kernel stack, image.
    The result is its root, buffer frame and kernel-stack frame; on failure the space is destroyed
    again. -/
def buildAddressSpace (image : ImageSource) (size : Nat) :
    Option (Nat × Nat × Nat) × State :=
  match newUserAddressSpace k.trampolineFirst k.trampolineLast k.pmm with
  | (.error _, p) => (none, { k with pmm := p })
  | (.ok (root, table), p) =>
    let k₁ := { k with pmm := p, space := update k.space root table }
    match k₁.mapStack root 1 userStackPages with
    | (false, k₂) => (none, k₂.destroyAddressSpace root)
    | (true, k₂) =>
      match k₂.mapFresh root (fun _ => ipcBufferVA) userRW with
      | (none, k₃) => (none, k₃.destroyAddressSpace root)
      | (some buffer, k₃) =>
        match (k₃.zeroFrame buffer).mapFresh root physToVirt kernelRW with
        | (none, k₄) => (none, k₄.destroyAddressSpace root)
        | (some stack, k₄) =>
          match k₄.loadIntoAddressSpace image size root with
          | (true, k₅) => (some (root, buffer, stack), k₅)
          | (false, k₅) =>
            (none, (k₅.freeStack (stack + pageSize)).destroyAddressSpace root)

/-- The control blocks of the process slot, and the address-space cap. -/
def initializeSlotProcess (parent slot root : Nat) : CapStatus × State :=
  let pid := k.slotGeneration slot * pidSlotRange + (slot + 4)
  let generation := (k.slotGeneration slot + 1) % generationWrap
  let k₁ := { k with slotGeneration := update k.slotGeneration slot generation }
  let k₂ := (k₁.initializeProcess (slotAddress slot) pid).modPcb (slotAddress slot) fun p =>
    { p with spawner := (k₁.pcb (k₁.tcb parent).process).id, root := root }
  k₂.installAddressSpaceCap (slotAddress slot)

/-- A thread slot's control block for a new thread, with the slot's next generation. -/
def initializeSlotThread (slot id process buffer bufferVA stackTop : Nat) : State :=
  let generation := k.threadSlotGeneration slot
  let next := (generation + 1) % generationWrap
  let k₁ := k.initializeThread (slotAddress slot) id process
  let k₂ := { k₁ with threadSlotGeneration := update k₁.threadSlotGeneration slot next }
  k₂.modTcb (slotAddress slot) fun c =>
    { c with
      replyGeneration := UInt64.ofNat generation, kernelStackTop := stackTop
      ipcBuffer := buffer, ipcBufferVa := bufferVA }

/-- The commit point of a spawn: the slot leaves the free list. -/
def commitSlot (slot : Nat) : State :=
  { k.modTcb (slotAddress slot) fun c => { c with state := .ready } with
    threadUsed := update k.threadUsed slot true
    processThreadCount := update k.processThreadCount slot 1
    used := update k.used slot true
    freeSlots := k.freeSlots.tail }

/-- `Spawn_Image`; the handle of the process cap (0 when the spawn failed).  `Add_Task` never refuses
    a thread that was just initialised. -/
def spawnImage (parent : Nat) (image : ImageSource) (size : Nat) (grantCount : U64) :
    ProcStatus × Nat × State :=
  match k.freeSlots with
  | [] => (.noSlot, 0, k)
  | slot :: _ =>
    match k.buildAddressSpace image size with
    | (none, k₁) => (.loadFailed, 0, k₁)
    | (some (root, buffer, stack), k₁) =>
      match k₁.initializeSlotProcess parent slot root with
      | (.ok, k₂) =>
        let k₃ := k₂.initializeSlotThread slot (slot + 4) (slotAddress slot) buffer ipcBufferVA
          (stack + pageSize)
        match k₃.grantListCaps parent (slotAddress slot) grantCount with
        | (.ok, k₄) =>
          let k₅ := k₄.modPcb (slotAddress slot) fun p => { p with state := .alive }
          match k₅.insertCap parent .processObject (slotAddress slot) processRights
              (UInt64.ofNat (k₅.pcb (slotAddress slot)).id) with
          | (.error _, k₆) => (.capFailed, 0, (k₆.discardSlot slot true).destroyAddressSpace root)
          | (.ok cap, k₆) => (.ok, cap, k₆.commitSlot slot)
        | (s, k₄) => (s, 0, (k₄.discardSlot slot true).destroyAddressSpace root)
      | (_, k₂) => (.capFailed, 0, (k₂.discardSlot slot false).destroyAddressSpace root)

/-- `Spawn_Boot_Image`: the image is a boot file (Read and Execute) or a memory object (Read). -/
def spawnBootImage (parent imageCap : Nat) (grantCount : U64) :
    ProcStatus × Nat × State :=
  match k.lookupCap parent imageCap with
  | none => (.invalidProgram, 0, k)
  | some e =>
    if e.rights.read = false ∨ (e.kind ≠ .bootFileObject ∧ e.kind ≠ .memoryObject) then
      (.invalidProgram, 0, k)
    else if e.kind = .bootFileObject then
      let file := k.bootFile e.object
      if e.rights.execute = false ∨ e.object = 0 ∨ file.length = 0 then (.invalidProgram, 0, k)
      else k.spawnImage parent (.physmapBytes file.base) file.length grantCount
    else if k.pageCount e.object = 0 then (.invalidProgram, 0, k)
    else
      k.spawnImage parent (.objectFrames e.object) (k.pageCount e.object * pageSize) grantCount

end State

end Aegir.Kernel
