/-
  The state the kernel starts user code in (the end of the main procedure).

  At that point ONE user process exists, init: its address space is loaded, its thread is running,
  and its capability table holds its own address space, one cap per boot file, the device-plumbing
  authority and the admin authority.  The process and thread tables are empty.

  Everything the boot code found out from the machine (memory, boot image, frames it took) is a
  field of `BootConfig`; the table is built by the same inserts as in the source.
-/
import Aegir.Kernel.PmmLaws
import Aegir.Kernel.Processes

namespace Aegir.Kernel

open Aegir.Arch

/-- The address of init's thread and process: above the tables of `Kernel.Processes`. -/
def initThread : Nat := maxThreadSlots + 1
def initProcess : Nat := maxProcessSlots + 1

/-- The static objects behind the two authority tokens. -/
def deviceResourceObject : Nat := 1
def adminResourceObject : Nat := 1

def bootFileRights : Rights := { read := true, execute := true, transfer := true }
def deviceResourceRights : Rights := { manage := true }
def adminResourceRights : Rights := { transfer := true, manage := true }

namespace Slab

/-- Every slot carved so far is free, once. -/
structure Full (s : Slab) : Prop where
  nodup : s.free.Nodup
  mem_free : ∀ o, o ∈ s.free ↔ 1 ≤ o ∧ o ≤ s.carved

def empty : Slab := ⟨[], 0, []⟩

theorem full_empty : empty.Full := ⟨List.nodup_nil, fun o => by simp [empty]; omega⟩

end Slab

/-- `Kernel.Boot_Files.Max_Files`. -/
def maxFiles : Nat := 256

/-- What the boot code hands over: the allocator, the contents of memory, init's loaded address
    space with its buffer and kernel stack, the boot files, and the endpoint slab that the boot
    self-test may have grown. -/
structure BootConfig where
  pmm : Pmm
  pmm_wf : pmm.Wf
  memory : Nat → Page
  root : Nat
  table : PageTable
  ipcBuffer : Nat
  kernelStackTop : Nat
  files : List BootFile
  files_le : files.length ≤ maxFiles
  endpointSlab : Slab
  endpointSlab_full : endpointSlab.Full
  trampolineFirst : Nat
  trampolineLast : Nat

/-- A thread block that was never initialised. -/
def blankTcb : Tcb :=
  { id := 0, userThreadCap := 0, state := .dead, process := 0, kernelStackTop := 0, ipcBuffer := 0
    ipcBufferVa := 0, awaitingReply := false, replyGeneration := 0, replyWanted := false
    queueNext := 0, callBadge := 0, savedA0 := 0, savedA1 := 0, boundNtfn := 0, recvEp := 0
    queuedOnEp := 0, waitingFor := 0, waitersHead := 0, waitersNext := 0, priority := 0 }

/-- A process block that was never initialised. -/
def blankPcb : Pcb := ⟨0, 0, 0, .empty, .dead, 0⟩

/-- The boot file at an address (files are numbered from 1). -/
def fileAt (files : List BootFile) (object : Nat) : BootFile :=
  files.getD (object - 1) ⟨physmapBase, 0, Nat.le_refl _, by decide⟩

namespace State

/-- The kernel's variables before init is set up, after `Kernel.Processes.Initialize`. -/
def bare (c : BootConfig) : State where
  pmm := c.pmm
  space := Function.update (fun _ => .zero) c.root c.table
  memory := c.memory
  tcb := fun _ => blankTcb
  pcb := fun _ => blankPcb
  endpoint := fun _ => ⟨0, 0, 0, 0, 0, 0, false, false⟩
  endpointSlab := c.endpointSlab
  queuedSend := fun _ => ⟨0, fun _ => 0, 0, 0, false⟩
  sendSlab := .empty
  memoryObject := fun _ => ⟨0, 0, fun _ => 0⟩
  memorySlab := .empty
  notification := fun _ => ⟨0, 0, 0, 0, false⟩
  notificationSlab := .empty
  device := fun _ => ⟨0, .mmio, 0, 0, 0, 0, false, false, 0, 0, 0, 0⟩
  deviceSlab := .empty
  lines := fun _ => 0
  bootFile := fileAt c.files
  used := fun _ => false
  threadUsed := fun _ => false
  processThreadCount := fun _ => 0
  freeSlots := List.range maxProcessSlots
  threadFreeSlots := List.range' maxProcessSlots (maxThreadSlots - maxProcessSlots)
  slotGeneration := fun _ => 0
  threadSlotGeneration := fun _ => 0
  nextThreadId := 1024
  deferredStacks := []
  trampolineFirst := c.trampolineFirst
  trampolineLast := c.trampolineLast
  halted := false

/-- The boot-file loop: one cap per file at handles `index, index + 1, ..`, until one fails. -/
def insertBootFiles (k : State) : Nat → Nat → Bool × State
  | _, 0 => (true, k)
  | index, n + 1 =>
    match k.insertProcessCapAt initProcess index .bootFileObject index bootFileRights 0 with
    | (.ok, k') => insertBootFiles k' (index + 1) n
    | (_, k') => (false, k')

/-- Init's process and thread, before its table is filled. -/
def setupInit (k : State) (c : BootConfig) : State :=
  let k₁ := (k.initializeProcess initProcess 3).modPcb initProcess fun p =>
    { p with root := c.root, state := .alive }
  (k₁.initializeThread initThread 3 initProcess).modTcb initThread fun t =>
    { t with state := .running, ipcBuffer := c.ipcBuffer, kernelStackTop := c.kernelStackTop }

/-- **The state after boot.** -/
def boot (c : BootConfig) : State :=
  let k₁ := (((bare c).setupInit c).installAddressSpaceCap initProcess).2
  match k₁.insertBootFiles 1 c.files.length with
  | (false, k₂) => k₂
  | (true, k₂) =>
    match k₂.insertProcessCapAt initProcess (c.files.length + 1) .kernelObject deviceResourceObject
        deviceResourceRights 0 with
    | (.ok, k₃) =>
      (k₃.insertProcessCapAt initProcess (c.files.length + 2) .adminObject adminResourceObject
        adminResourceRights 0).2
    | (_, k₃) => k₃

theorem installAddressSpaceCap_eq {p : Nat} (k : State) (hroot : (k.pcb p).root ≠ 0) :
    k.installAddressSpaceCap p = k.insertProcessCapAt p addressSpaceCapHandle .addressSpaceObject
      (k.pcb p).root addressSpaceRights (UInt64.ofNat (k.pcb p).id) := by
  unfold installAddressSpaceCap insertProcessCapAt
  rw [if_neg hroot]
  split
  · rename_i hins
    rw [hins]
    rfl
  · rename_i hins
    rw [hins]

/-- The kinds of the caps in init's first table. -/
def bootKinds : List ObjectKind := [.addressSpaceObject, .bootFileObject, .kernelObject, .adminObject]

section

variable {R : State → Prop}
  (hstep : ∀ (k : State) (cap o : Nat) (kind : ObjectKind) (rights : Rights) (badge : U64), kind ∈ bootKinds → cap ≤ handleLast → R k → R (k.insertProcessCapAt initProcess cap kind o rights badge).2)

include hstep

theorem insertBootFiles_ind (n index : Nat) (k : State) (hle : index + n ≤ maxFiles + 1) (hk : R k) :
    R (k.insertBootFiles index n).2 := by
  induction n generalizing index k with
  | zero => exact hk
  | succ n ih =>
    have hmax : maxFiles ≤ handleLast := by decide
    have h := hstep k index index .bootFileObject bootFileRights 0 (by decide) (by omega) hk
    unfold insertBootFiles
    split <;> rename_i heq <;> rw [heq] at h
    · exact ih _ _ (by omega) h
    · exact h

/-- **Boot fills init's table insert by insert.** -/
theorem boot_ind (c : BootConfig) (h0 : R ((bare c).setupInit c)) : R (boot c) := by
  have hroot : R (((bare c).setupInit c).installAddressSpaceCap initProcess).2 := by
    by_cases hz : (((bare c).setupInit c).pcb initProcess).root = 0
    · unfold installAddressSpaceCap
      rw [if_pos hz]
      exact h0
    · rw [installAddressSpaceCap_eq _ hz]
      exact hstep _ _ _ _ _ _ (by decide) (by decide) h0
  have hle := c.files_le
  have hmax : maxFiles + 2 ≤ handleLast := by decide
  have hfiles := insertBootFiles_ind hstep c.files.length 1 _ (by omega) hroot
  unfold boot
  dsimp only
  split <;> rename_i k₂ heq <;> rw [heq] at hfiles
  · exact hfiles
  · have hdevice := hstep k₂ (c.files.length + 1) deviceResourceObject .kernelObject deviceResourceRights 0
      (by decide) (by omega) hfiles
    split <;> rename_i heq' <;> rw [heq'] at hdevice
    · exact hstep _ _ _ _ _ _ (by decide) (by omega) hdevice
    · exact hdevice

end

end State

/-- A machine with 512 free frames from 0x8050_0000 on and no boot file; init's root table, IPC
    buffer and kernel stack are the frames just below. -/
def smallMachine : BootConfig where
  pmm := {
    baseFrame := 0x80400000, nextFrame := 0x80500000, limit := 0x80700000, freeListHead := 0
    freeListCount := 0, isReady := true, link := fun _ => 0, reserved := [] }
  pmm_wf := ⟨by decide, by decide, by decide, by decide, by decide, by simp, [], rfl, by simp⟩
  memory := fun _ _ => 0
  root := 0x80400000
  table := .zero
  ipcBuffer := 0x80401000
  kernelStackTop := 0x80403000
  files := []
  files_le := by decide
  endpointSlab := .empty
  endpointSlab_full := Slab.full_empty
  trampolineFirst := 0xFFFFFFFF80210000
  trampolineLast := 0xFFFFFFFF80211000

/-- The smallest image the loader takes: an ELF header for RISC-V whose one program header, the
    file header itself, is of no loadable type. -/
def headerPage : Page := fun w =>
  if w = 0 then 0x010246_4C457F
  else if w = 16 then 0xF30000
  else if w = 48 then 0x38000000000000
  else if w = 56 then 1
  else 0

/-- The small machine with that image as its one boot file. -/
def imageMachine : BootConfig :=
  { smallMachine with
    memory := fun frame => if frame = 0x80404000 then headerPage else fun _ => 0
    files := [⟨physmapBase + 0x80404000, 64, Nat.le_add_right _ _, by decide⟩]
    files_le := by decide }

/-- An image of 128 bytes: the file header, and the header of a segment that maps the whole image at the bottom
    of the window, to be read and executed. -/
def loadablePage : Page := fun w =>
  if w = 32 then 64
  else if w = 64 then 0x500000001
  else if w = 80 then 0x40000000
  else if w = 96 ∨ w = 104 then 128
  else headerPage w

def loadableMachine : BootConfig :=
  { imageMachine with
    memory := fun frame => if frame = 0x80404000 then loadablePage else fun _ => 0
    files := [⟨physmapBase + 0x80404000, 128, Nat.le_add_right _ _, by decide⟩]
    files_le := by decide }

/-- A page with one entry in its grant list: the source handle and the mask of rights. -/
def grantPage (handle mask : U64) : Page := fun w =>
  if w = grantListOffset then handle else if w = grantListOffset + 8 then mask else 0

end Aegir.Kernel
