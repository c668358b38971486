/-
  The IOMMU driver (`Arch.IOMMU`): device contexts and message-signalled interrupts.

  The hardware finds the CONTEXT of a device through a directory of three levels, which the driver builds
  lazily.  A message-signalled interrupt is a write to a page that the hardware is told to fault on: the
  driver turns the address and the data of the fault record back into a virtual interrupt source.

  Tables are pages of words (`Arch.Ram`).  Commands that only invalidate caches are left out.
-/
import Aegir.Arch.Tables
import Aegir.Kernel.Objects

namespace Aegir.Arch

open Aegir.Kernel Aegir.Kernel.State

/-! ## Constants -/

/-- `No_Device`. -/
def noDeviceId : Nat := 0xFFFFFF

def maxDevices : Nat := 16
def maxMsiVectors : Nat := 64

/-- `Kernel.Interrupts.MSI_Vector_Base`. -/
def msiVectorBase : Nat := 1024

def msiIovaBase : Nat := 0x00000003FFFF0000

/-- `MSI_IOVA_Mask` keeps all but the offset in the page. -/
def msiIovaMask (iova : Nat) : Nat := iova - iova % 0x1000

def dcTcV : Nat := 1
def fscSv39 : Nat := 8
def msiptpModeFlat : Nat := 1

/-- `Queue_Entries`. -/
def queueEntries : Nat := 16

/-- `Natural'Last`. -/
def naturalLast : Nat := 0x7FFFFFFF

/-! ## Words -/

/-- `PPN_Field`. -/
def ppnField (pa : Nat) : Nat := (pa >>> 12) <<< 10 % 2 ^ 64

/-- `PPN_Of`. -/
def ppnOf (tableEntry : Nat) : Nat := ((tableEntry >>> 10) &&& 0xFFFFFFFFFFF) <<< 12 % 2 ^ 64

namespace Ram

/-- `Write64` through the physmap. -/
def write64 (m : Ram) (va value : Nat) : Ram :=
  let pa := sub64 va physmapBase
  m.store (pa - pa % pageSize) (pa % pageSize / 8) value

/-- `Alloc_Page`: a page of zeros. -/
def allocPage (m : Ram) : Option Nat × Ram :=
  match m.pmm.allocateFrame with
  | (.error _, p) => (none, { m with pmm := p })
  | (.ok frame, p) => (some frame, ({ m with pmm := p } : Ram).zeroPage frame)

end Ram

/-! ## The driver's variables -/

/-- `Device_Record`. -/
structure DeviceRecord where
  deviceId : Nat
  dcVa : Nat
  ioRootPa : Nat
deriving DecidableEq, Repr

/-- `MSI_Record`. -/
structure MsiRecord where
  deviceId : Nat
  data : Nat
  source : Nat
deriving DecidableEq, Repr

structure Iommu where
  isAvailable : Bool
  msiSupported : Bool
  dcStride : Nat
  ddtRoot : Nat
  msiPt : Nat
  devices : List DeviceRecord
  /-- The entries `1 .. MSI_Next_Index` of the vector table. -/
  msiVectors : List MsiRecord
  ram : Ram

namespace Iommu

variable (s : Iommu) (deviceId : Nat)

/-! ## Device contexts -/

/-- `Find_Device`. -/
def findDevice : Option DeviceRecord := s.devices.find? fun d => d.deviceId == deviceId

/-- The indices that `Ensure_DC` takes from a device id. -/
def index2 : Nat := deviceId >>> 15 % 512
def index1 : Nat := deviceId >>> 6 % 512
def index0 : Nat := deviceId % 64

/-- The loop of `Ensure_DC`: the page that a path of indices leads to, with the tables that are missing. -/
def ensurePath (m : Ram) : List Nat → Nat → Option Nat × Ram
  | [], cur => (some cur, m)
  | i :: is, cur =>
    let ent := m.words cur i
    if ent % 2 = 0 then
      match m.allocPage with
      | (none, m') => (none, m')
      | (some pa, m') =>
        let ent := 1 ||| ppnField pa
        ensurePath (m'.store cur i ent) is (ppnOf ent)
    else ensurePath m is (ppnOf ent)

/-- `Ensure_DC`; 0 when a table cannot be had. -/
def ensureDc : Nat × Iommu :=
  match ensurePath s.ram [index2 deviceId, index1 deviceId] s.ddtRoot with
  | (none, m) => (0, { s with ram := m })
  | (some cur, m) => (add64 (physToVirt cur) (index0 deviceId * s.dcStride), { s with ram := m })

/-- A new context: valid, first-stage tables under `root`, no message translation. -/
def writeContext (m : Ram) (stride dcVa root : Nat) : Ram :=
  let m := m.write64 dcVa dcTcV
  let m := m.write64 (add64 dcVa 8) 0
  let m := m.write64 (add64 dcVa 16) 0
  let m := m.write64 (add64 dcVa 24) (root / 4096 ||| fscSv39 <<< 60)
  if stride = 64 then
    (((m.write64 (add64 dcVa 32) 0).write64 (add64 dcVa 40) 0).write64 (add64 dcVa 48) 0).write64 (add64 dcVa 56) 0
  else m

/-- `Ensure_Device`. -/
def ensureDevice : Option DeviceRecord × Iommu :=
  match s.findDevice deviceId with
  | some d => (some d, s)
  | none =>
    if maxDevices ≤ s.devices.length then (none, s)
    else
      match s.ensureDc deviceId with
      | (0, s₁) => (none, s₁)
      | (dcVa, s₁) =>
        match s₁.ram.allocPage with
        | (none, m) => (none, { s₁ with ram := m })
        | (some root, m) =>
          let d : DeviceRecord := ⟨deviceId, dcVa, root⟩
          (some d, { s₁ with ram := writeContext m s₁.dcStride dcVa root, devices := s₁.devices ++ [d] })

/-! ## Message-signalled interrupts -/

/-- `MSI_Address_For`. -/
def msiAddressFor : Nat := add64 msiIovaBase (deviceId * 16)

/-- `MSI_Data_For`. -/
def msiDataFor (vector : Nat) : Nat := vector % 2 ^ 32

/-- What `MSI_Vector_Create` returns on success. -/
structure MsiVector where
  source : Nat
  address : Nat
  data : Nat
deriving DecidableEq, Repr

/-- `MSI_Vector_Create`. -/
def msiVectorCreate (deviceId vector : Nat) : Option MsiVector × Iommu :=
  if s.isAvailable = false ∨ s.msiSupported = false ∨ deviceId = noDeviceId ∨ vector > naturalLast / 2 then (none, s)
  else
    match s.ensureDevice deviceId with
    | (none, s₁) => (none, s₁)
    | (some d, s₁) =>
      if maxMsiVectors ≤ s₁.msiVectors.length then (none, s₁)
      else
        let source := msiVectorBase + (s₁.msiVectors.length + 1) - 1
        if maxSources ≤ source then (none, s₁)
        else
          let data := msiDataFor vector
          let m := s₁.ram.write64 (add64 d.dcVa 32) (ppnField s₁.msiPt ||| msiptpModeFlat)
          let m := m.write64 (add64 d.dcVa 40) (2 ^ 64 - 0x1000)
          let m := m.write64 (add64 d.dcVa 48) msiIovaBase
          (some ⟨source, msiAddressFor deviceId, data⟩,
            { s₁ with msiVectors := s₁.msiVectors ++ [⟨deviceId, data, source⟩], ram := m })

/-- The words of a fault record that the driver looks at. -/
structure FaultRecord where
  iova : Nat
  data : Nat
deriving DecidableEq, Repr

/-- What `Handle_Fault_Interrupt` does with one record: the source that it delivers, if it delivers one. -/
def serveFault (r : FaultRecord) : Option Nat :=
  if s.msiSupported ∧ msiIovaMask r.iova = msiIovaBase then
    let deviceId := (r.iova - msiIovaBase) / 16
    let data := r.data % 2 ^ 32
    (s.msiVectors.find? fun v => v.deviceId == deviceId && v.data == data).map MsiRecord.source
  else none

/-- The loop of `Handle_Fault_Interrupt` over the queue, from `head` up to `tail`: what is done with each record. -/
def drainFaults (s : Iommu) (queue : Nat → FaultRecord) (tail : Nat) : Nat → Nat → List (Option Nat)
  | _, 0 => []
  | head, n + 1 =>
    if head = tail then []
    else s.serveFault (queue head) :: drainFaults s queue tail ((head + 1) % queueEntries) n

/-- `Handle_Fault_Interrupt`. -/
def handleFaultInterrupt (queue : Nat → FaultRecord) (head tail : Nat) : List (Option Nat) :=
  s.drainFaults queue tail head queueEntries

end Iommu

end Aegir.Arch
