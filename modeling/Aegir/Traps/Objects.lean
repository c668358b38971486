/-
  The object and capability system calls of `Arch.Traps`: the calls that create a kernel object and
  hand out its first cap, `cap_mint` and `cap_delete`.

  All creating calls have ONE shape: make an unreferenced object, insert a cap on it into the
  caller's table, and give the object back if the insert failed.
-/
import Aegir.Kernel.Tasks

namespace Aegir.Kernel

/-- The argument registers of a trap frame. -/
structure TrapFrame where
  a0 : U64
  a1 : U64
  a2 : U64
  a3 : U64
  a4 : U64
  a5 : U64
deriving DecidableEq, Repr

/-- `U64'Last`, the failure result of the calls that return a handle. -/
def u64Last : U64 := 0xFFFFFFFFFFFFFFFF

/-- `Decode_Handle`. -/
def decodeHandle (value : U64) : Option Nat :=
  if value.toNat > handleLast then none else some value.toNat

def isPageAligned (value : U64) : Bool := value.toNat % pageSize == 0

/-- `Endpoint_Full_Rights`. -/
def endpointFullRights : Rights := { send := true, receive := true, transfer := true, manage := true }

/-- `Notification_Full_Rights`. -/
def notificationFullRights : Rights := { write := true, wait := true, transfer := true, manage := true }

/-- `MMIO_Device_Rights`. -/
def mmioDeviceRights : Rights :=
  { read := true, write := true, map := true, transfer := true, manage := true }

/-- `IRQ_Device_Rights`. -/
def irqDeviceRights : Rights := { wait := true, ack := true, transfer := true, manage := true }

namespace State

variable (k : State) (cur : Nat) (f : TrapFrame)

/-! ## Creating objects -/

/-- The shape of all creating calls: insert a cap on the object `created.1` (null when the creation
    failed), or discard it. -/
def grantFresh (kind : ObjectKind) (rights : Rights) (discard : State → Nat → State)
    (created : Nat × State) : State :=
  if created.1 = 0 then created.2.setA0 cur u64Last
  else
    match created.2.insertCap cur kind created.1 rights 0 with
    | (.error _, k') => (discard k' created.1).setA0 cur u64Last
    | (.ok cap, k') => k'.setA0 cur (UInt64.ofNat cap)

/-- `Handle_EP_Create`. -/
def handleEpCreate : State :=
  grantFresh cur .endpointObject endpointFullRights discardEndpoint k.createEndpoint

/-- `Handle_EP_Set_Stamp_Identity`. -/
def handleEpSetStampIdentity : State :=
  match decodeHandle f.a0 with
  | none => k.setA0 cur u64Last
  | some cap =>
    match k.lookupCap cur cap with
    | none => k.setA0 cur u64Last
    | some e =>
      if e.kind ≠ .endpointObject ∨ e.rights.manage = false then k.setA0 cur u64Last
      else (k.setStampIdentity e.object (f.a1 != 0)).setA0 cur 0

/-- `Handle_Ntfn_Create`. -/
def handleNtfnCreate : State :=
  grantFresh cur .notificationObject notificationFullRights discardNotification k.createNotification

/-- `Has_Device_Resource`: the raw register names a kernel-object cap with Manage. -/
def hasDeviceResource (raw : U64) : Bool :=
  match decodeHandle raw with
  | none => false
  | some cap =>
    match k.lookupCap cur cap with
    | none => false
    | some e => e.kind == .kernelObject && e.rights.manage

/-- `Handle_IO_Map`. -/
def handleIoMap : State :=
  if f.a3 ≠ u64Last ∧ f.a3 > 0xFFFFFE then k.setA0 cur u64Last
  else if k.hasDeviceResource cur f.a0 = false ∨ f.a2 = 0 ∨ f.a2 > 64 * 4096 ∨
      isPageAligned f.a1 = false ∨ isPageAligned f.a2 = false then k.setA0 cur u64Last
  else
    let deviceId := if f.a3 ≠ u64Last then f.a3 else noDevice
    grantFresh cur .mmioObject mmioDeviceRights releaseDevice (k.createMmio f.a1 f.a2 deviceId)

/-- The duplicate check of `Register` along a source's chain. -/
def isChained (k : State) (object : Nat) : Nat → Nat → Bool
  | _, 0 => false
  | cur, n + 1 => cur != 0 && (cur == object || isChained k object (k.device cur).next n)

/-- `Interrupts.Register`; `false` when the line is refused. -/
def registerLine (object : Nat) : Bool × State :=
  let source := (k.device object).source.toNat
  if maxSources ≤ source then (false, k)
  else if k.isChained object (k.lines source) k.deviceSlab.carved then (false, k)
  else
    let k' := k.modDevice object fun d =>
      { d with
        pending := false, inFlight := false, waiter := 0, ntfn := 0, ntfnBadge := 0
        next := k.lines source }
    (true, { k' with lines := Function.update k'.lines source object })

/-- The tail that `irq_create` and `irq_msi_create` share: an IRQ slot on `source`, registered. -/
def grantLine (source : U64) : State :=
  let r := k.createIrq source
  if r.1 = 0 then r.2.setA0 cur u64Last
  else
    match r.2.registerLine r.1 with
    | (false, k') => (k'.releaseDevice r.1).setA0 cur u64Last
    | (true, k') => grantFresh cur .irqObject irqDeviceRights releaseDevice (r.1, k')

/-- `Handle_IRQ_Create`. -/
def handleIrqCreate : State :=
  if k.hasDeviceResource cur f.a0 = false ∨ f.a1 = 0 ∨ f.a1 ≥ 1024 then k.setA0 cur u64Last
  else k.grantLine cur f.a1

/-- `Handle_IRQ_MSI_Create`; `vector` is the IOMMU's answer, the source it assigned to the vector
    or nothing. -/
def handleIrqMsiCreate (vector : Option U64) : State :=
  if k.hasDeviceResource cur f.a0 = false ∨ f.a1 > 0xFFFFFFFF ∨ f.a2 > 0x7FFFFFFF then
    k.setA0 cur u64Last
  else
    match vector with
    | none => k.setA0 cur u64Last
    | some source => k.grantLine cur source

/-! ## Deriving and closing caps -/

/-- `Handle_Cap_Mint`: derive a cap with attenuated rights and a badge in the caller's table. -/
def handleCapMint : State :=
  match decodeHandle f.a0 with
  | none => k.setA0 cur u64Last
  | some cap =>
    if f.a1 &&& ~~~validRightsMask ≠ 0 then k.setA0 cur u64Last
    else
      match k.lookupCap cur cap with
      | none => k.setA0 cur u64Last
      | some e =>
        if e.kind = .replyObject then k.setA0 cur u64Last
        else if hasRights e.rights (toRights f.a1) = false then k.setA0 cur u64Last
        else
          match k.insertCap cur e.kind e.object (toRights f.a1) f.a2 with
          | (.error _, k') => k'.setA0 cur u64Last
          | (.ok h, k') => k'.setA0 cur (UInt64.ofNat h)

/-- `Handle_Cap_Delete`. -/
def handleCapDelete : State :=
  match decodeHandle f.a0 with
  | none => k.setA0 cur u64Last
  | some cap =>
    match k.closeCap cur cap false with
    | (.ok, k') => k'.setA0 cur 0
    | (_, k') => k'.setA0 cur u64Last

end State

/-!
## The mapping system calls of `Arch.Traps`: `mem_alloc`, `mem_map`, `mem_unmap`, `map_mmio`

Every argument is a raw 64-bit register.  The handlers check the window, the length and the
alignment on SUMS of such registers, and those sums are modular; then they write one leaf per page
into the caller's own page table.  All leaves are borrowed: the frame stays with its object.
-/

open Aegir.Arch

/-- `Memory_Full_Rights`. -/
def memoryFullRights : Rights :=
  { read := true, write := true, map := true, transfer := true, manage := true }

namespace State

variable (k : State) (cur : Nat) (f : TrapFrame)

/-- The mapping loop of the handlers: pages `page, page + 1, ..` of the request, until one fails. -/
def mapPages (k : State) (root : Nat) (virtual physical : Nat → Nat) (flags : PageFlags) :
    Nat → Nat → Bool × State
  | _, 0 => (true, k)
  | page, n + 1 =>
    match k.mapPage root (virtual page) (physical page) flags true with
    | (.ok, k') => mapPages k' root virtual physical flags (page + 1) n
    | (_, k') => (false, k')

/-- The unmapping loop of `Handle_Mem_Unmap`. -/
def unmapPages (k : State) (root : Nat) (virtual : Nat → Nat) : Nat → Nat → Bool × State
  | _, 0 => (true, k)
  | page, n + 1 =>
    match k.unmapBorrowedPage root (virtual page) with
    | (.ok, k') => unmapPages k' root virtual (page + 1) n
    | (_, k') => (false, k')

/-- The virtual address of page `page` of a request at `va`. -/
def pageVA (va : U64) (page : Nat) : Nat := add64 va.toNat (page * pageSize)

/-- `Handle_Mem_Alloc`. -/
def handleMemAlloc : State :=
  grantFresh cur .memoryObject memoryFullRights discardMemory (k.createMemory f.a0)

/-- The file's page span of `Handle_Mem_Map`: the lead-in can push data one page further. -/
def fileSpan (b : BootFile) : Nat :=
  sub64 (add64 (add64 (b.base % pageSize) b.length) pageSize) 1 / pageSize * pageSize

/-- `Handle_Mem_Map`, boot-file branch: read-only pages over the boot image. -/
def mapBootFile (e : CapEntry) (va offset length flags : U64) : State :=
  if e.rights.read = false ∨ flags ≠ 1 then k.setA0 cur 1
  else if e.object = 0 ∨ (offset + length).toNat > fileSpan (k.bootFile e.object) then
    k.setA0 cur 1
  else
    let pa := add64 (sub64 (k.bootFile e.object).base physmapBase) offset.toNat
    let leadIn := pa % pageSize
    match k.mapPages (k.addressSpaceRoot cur) (pageVA va)
        (fun page => add64 (sub64 pa leadIn) (page * pageSize))
        ⟨true, false, false, true, false⟩ 0 (length.toNat / pageSize) with
    | (false, k') => k'.setA0 cur 1
    | (true, k') => (k'.setA1 cur (UInt64.ofNat leadIn)).setA0 cur 0

/-- `Handle_Mem_Map`, memory-object branch. -/
def mapMemoryObject (e : CapEntry) (va offset length flags : U64) : State :=
  if e.kind ≠ .memoryObject ∨ e.rights.map = false ∨
      (flags &&& 1 ≠ 0 ∧ e.rights.read = false) ∨ (flags &&& 2 ≠ 0 ∧ e.rights.write = false) ∨
      (offset + length).toNat > k.pageCount e.object * pageSize then k.setA0 cur 1
  else
    match k.mapPages (k.addressSpaceRoot cur) (pageVA va)
        (fun page => k.frameAt e.object (offset.toNat / pageSize + page))
        ⟨flags &&& 1 != 0, flags &&& 2 != 0, false, true, false⟩ 0 (length.toNat / pageSize) with
    | (false, k') => k'.setA0 cur 1
    | (true, k') => k'.setA0 cur 0

/-- `Handle_Mem_Map`: `a0` = address-space cap, `a1` = memory cap, `a2` = VA, `a3` = offset,
    `a4` = length, `a5` = flags (bit 0 read, bit 1 write). -/
def handleMemMap : State :=
  match decodeHandle f.a0, decodeHandle f.a1 with
  | some asCap, some cap =>
    if k.hasAddressSpaceMapAuthority cur asCap = false then k.setA0 cur 1
    else
      match k.lookupCap cur cap with
      | none => k.setA0 cur 1
      | some e =>
        if f.a5 &&& ~~~3 ≠ 0 ∨ f.a5 = 0 ∨ f.a5 &&& 3 = 2 ∨ f.a2 < 0x40000000 ∨
            f.a2 + f.a4 > 0x80000000 ∨ f.a4 = 0 ∨ isPageAligned f.a2 = false ∨
            isPageAligned f.a3 = false ∨ isPageAligned f.a4 = false then k.setA0 cur 1
        else if e.kind = .bootFileObject then k.mapBootFile cur e f.a2 f.a3 f.a4 f.a5
        else k.mapMemoryObject cur e f.a2 f.a3 f.a4 f.a5
  | _, _ => k.setA0 cur 1

/-- `Handle_Mem_Unmap`. -/
def handleMemUnmap : State :=
  match decodeHandle f.a0 with
  | none => k.setA0 cur 1
  | some asCap =>
    if k.hasAddressSpaceMapAuthority cur asCap = false then k.setA0 cur 1
    else if f.a1 < 0x40000000 ∨ f.a1 + f.a2 > 0x80000000 ∨ f.a2 = 0 ∨
        isPageAligned f.a1 = false ∨ isPageAligned f.a2 = false then k.setA0 cur 1
    else
      match k.unmapPages (k.addressSpaceRoot cur) (pageVA f.a1) 0 (f.a2.toNat / pageSize) with
      | (false, k') => k'.setA0 cur 1
      | (true, k') => k'.setA0 cur 0

/-- `Handle_Map_MMIO`: one page of a device region, always mapped read-write. -/
def handleMapMmio : State :=
  match decodeHandle f.a0, decodeHandle f.a1 with
  | some asCap, some cap =>
    if k.hasAddressSpaceMapAuthority cur asCap = false then k.setA0 cur 1
    else
      match k.lookupCap cur cap with
      | none => k.setA0 cur 1
      | some e =>
        if e.kind ≠ .mmioObject ∨ e.rights.map = false ∨
            (f.a5 &&& 1 ≠ 0 ∧ e.rights.read = false) ∨
            (f.a5 &&& 2 ≠ 0 ∧ e.rights.write = false) ∨ f.a5 &&& ~~~3 ≠ 0 then k.setA0 cur 1
        else
          let d := k.device e.object
          if e.object = 0 ∨ d.kind ≠ .mmio ∨ f.a2 < 0x40000000 ∨ f.a2 + f.a4 > 0x80000000 ∨
              f.a4 = 0 ∨ f.a3 + f.a4 > d.length ∨ isPageAligned f.a2 = false ∨
              isPageAligned f.a3 = false ∨ isPageAligned f.a4 = false ∨ f.a4 ≠ 4096 then
            k.setA0 cur 1
          else
            match k.mapPages (k.addressSpaceRoot cur) (pageVA f.a2)
                (fun page => add64 (d.physicalBase + f.a3).toNat (page * pageSize)) userRW 0
                (f.a4.toNat / pageSize) with
            | (false, k') => k'.setA0 cur 1
            | (true, k') => k'.setA0 cur 0
  | _, _ => k.setA0 cur 1

end State

end Aegir.Kernel
