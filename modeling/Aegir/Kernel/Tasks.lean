/-
  Capability operations on threads and processes (`Kernel.Tasks`).

  The wrappers here are the only places where reference counts change: an insert that succeeded
  RETAINS the object, a close first runs the CLEANUP of the entry's kind and then clears the entry.
  `forgetCap` (the reply path) and `resetProcessCaps` (slot teardown) go to the table directly.
-/
import Aegir.Kernel.Objects

namespace Aegir.Kernel

open Aegir.Arch

/-- `Address_Space_Cap_Handle`: the handle userspace hardcodes. -/
def addressSpaceCapHandle : Nat := 255

/-- `Address_Space_Rights`. -/
def addressSpaceRights : Rights := { read := true, map := true, manage := true }

/-- `IPC_Buffer_VA`. -/
def ipcBufferVA : Nat := 0x6FFF0000

namespace State

variable (k : State)

/-- Replace a process's capability table, with the allocator it drew its pages from. -/
def setCaps (process : Nat) (caps : CapTable) (p : Pmm) : State :=
  { k.modPcb process fun c => { c with caps := caps } with pmm := p }

/-- `Insert_Process_Cap`. -/
def insertProcessCap (process : Nat) (kind : ObjectKind) (object : Nat)
    (rights : Rights) (badge : U64) : Except CapStatus Nat × State :=
  match (k.pcb process).caps.insert kind object rights badge k.pmm with
  | (.ok cap, t, p) =>
    (.ok cap, (k.setCaps process t p).retainCap ⟨true, kind, object, rights, badge⟩)
  | (.error s, t, p) => (.error s, k.setCaps process t p)

/-- `Insert_Cap`: into the table of a thread's process. -/
def insertCap (thread : Nat) (kind : ObjectKind) (object : Nat) (rights : Rights)
    (badge : U64) : Except CapStatus Nat × State :=
  if (k.tcb thread).process = 0 then (.error .invalidObject, k)
  else k.insertProcessCap (k.tcb thread).process kind object rights badge

/-- `Insert_Process_Cap_At`. -/
def insertProcessCapAt (process cap : Nat) (kind : ObjectKind) (object : Nat)
    (rights : Rights) (badge : U64) : CapStatus × State :=
  match (k.pcb process).caps.insertAt cap kind object rights badge k.pmm with
  | (.ok, t, p) => (.ok, (k.setCaps process t p).retainCap ⟨true, kind, object, rights, badge⟩)
  | (s, t, p) => (s, k.setCaps process t p)

/-- `Install_Address_Space_Cap`: the process's own address space at the fixed handle. -/
def installAddressSpaceCap (process : Nat) : CapStatus × State :=
  let c := k.pcb process
  if c.root = 0 then (.invalidObject, k)
  else
    let r := c.caps.insertAt addressSpaceCapHandle .addressSpaceObject c.root addressSpaceRights
      (UInt64.ofNat c.id) k.pmm
    (r.1, k.setCaps process r.2.1 r.2.2)

/-- `Lookup_Cap`. -/
def lookupCap (thread cap : Nat) : Option CapEntry :=
  if (k.tcb thread).process = 0 then none else (k.capsOf thread).lookup cap

/-- `Close_Cap`: the cleanup of the entry's kind, then the entry. -/
def closeCap (thread cap : Nat) (threadDying : Bool) : CapStatus × State :=
  if (k.tcb thread).process = 0 then (.invalidObject, k)
  else
    match (k.capsOf thread).lookup cap with
    | none => (.invalidCap, k)
    | some e =>
      let k₁ := k.cleanupThreadCapObject thread e threadDying
      let r := (k₁.capsOf thread).close cap k₁.pmm
      (r.1, k₁.setCaps (k₁.tcb thread).process r.2.1 r.2.2)

/-- `Forget_Cap`: the entry only, no hook. -/
def forgetCap (thread cap : Nat) : State :=
  if (k.tcb thread).process = 0 then k
  else
    let r := (k.capsOf thread).close cap k.pmm
    k.setCaps (k.tcb thread).process r.2.1 r.2.2

/-- `Reset_Process_Caps`. -/
def resetProcessCaps (process : Nat) : State :=
  let r := (k.pcb process).caps.reset k.pmm
  k.setCaps process r.1 r.2

/-- `Initialize_Process`. -/
def initializeProcess (process id : Nat) : State :=
  k.modPcb process fun _ => ⟨id, 0, 0, .empty, .initializing, 0⟩

/-- `Initialize_Thread`: the thread cap of the user survives, everything else is reset. -/
def initializeThread (thread id process : Nat) : State :=
  k.modTcb thread fun c =>
    { id := id, userThreadCap := c.userThreadCap, state := .ready, process := process
      kernelStackTop := 0, ipcBuffer := 0, ipcBufferVa := 0, awaitingReply := false
      replyGeneration := 0, replyWanted := false, queueNext := 0, callBadge := 0
      savedA0 := 0, savedA1 := 0, boundNtfn := 0, recvEp := 0, queuedOnEp := 0
      waitingFor := 0, waitersHead := 0, waitersNext := 0, priority := 0 }

/-- `Has_Address_Space_Map_Authority`: the cap names the caller's own address space, with Map. -/
def hasAddressSpaceMapAuthority (thread cap : Nat) : Bool :=
  let c := k.tcb thread
  c.process != 0 &&
    match (k.pcb c.process).caps.lookup cap with
    | none => false
    | some e => e.kind == .addressSpaceObject && e.rights.map && e.object == (k.pcb c.process).root

/-! ## Page tables of processes -/

/-- `Address_Space_Root` of a thread. -/
def addressSpaceRoot (thread : Nat) : Nat :=
  if (k.tcb thread).process = 0 then 0 else (k.pcb (k.tcb thread).process).root

/-- `Map_Page` in the space with the given root. -/
def mapPage (k : State) (root virtual physical : Nat) (flags : PageFlags) (borrowed : Bool) :
    MmuStatus × State :=
  let r := (k.space root).mapPage root virtual physical flags borrowed k.pmm
  (r.1, { k with space := Function.update k.space root r.2.1, pmm := r.2.2 })

/-- `Unmap_Borrowed_Page` in the space with the given root. -/
def unmapBorrowedPage (k : State) (root virtual : Nat) : MmuStatus × State :=
  let r := (k.space root).unmapBorrowedPage root virtual
  (r.1, { k with space := Function.update k.space root r.2 })

end State

end Aegir.Kernel
