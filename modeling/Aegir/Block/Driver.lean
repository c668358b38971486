/-
  The virtio block driver: its write-back sector cache and its service loop.

  WRITES are copied into 64 cache slots and acknowledged; a slot reaches the device when it is evicted, in
  the pass at the top of the loop, or on `Op_Flush`.  READS go to the device run by run, and cached sectors
  are copied over the result.

  `fate n` is the status byte of the device's `n`-th request; a request is issued and completed in one step.
  `log` is the history that statements are about; no function reads it.
-/
import Mathlib.Data.List.FinRange
import Mathlib.Logic.Function.Basic

namespace Aegir.VirtioBlk

open List Function

/-- The bytes of a sector. -/
abbrev SectorData : Type := Fin 512 → UInt8

/-- `Cache_Slots`. -/
def cacheSlots : Nat := 64

/-- One index of the arrays `Slot_Valid`, `Slot_Dirty`, `Slot_Sector`, `Slot_Age`, and its 512 bytes of
    `Cache_Mem`. -/
structure Slot where
  valid : Bool
  dirty : Bool
  sector : UInt64
  age : UInt64
  data : SectorData

/-- What happened: a sector's bytes entered the cache, or the device completed a request. -/
inductive Event
  | accept (sector : UInt64) (data : SectorData)
  | devWrite (sector : UInt64) (data : SectorData) (status : UInt8)
  | devRead (sector : UInt64) (count : Nat) (status : UInt8)
  | devFlush (status : UInt8)

/-- The driver and its device. -/
structure Driver where
  slot : Fin cacheSlots → Slot
  ageTick : UInt64
  capacity : UInt64
  haveFlush : Bool
  device : UInt64 → SectorData
  fate : Nat → UInt8
  requests : Nat
  log : List Event

/-- The client's buffer object: as many pages of eight sectors as it has. -/
structure Buffer where
  pages : Nat
  content : Nat → SectorData

/-- The sector at a position, if the buffer has a page there. -/
def Buffer.get (b : Buffer) (i : Nat) : Option SectorData := if i / 8 < b.pages then some (b.content i) else none

/-- A store to a position; what goes to a missing page is lost. -/
def Buffer.put (b : Buffer) (i : Nat) (x : SectorData) : Buffer :=
  if i / 8 < b.pages then { b with content := update b.content i x } else b

namespace Driver

variable (d : Driver)

/-! ## The device -/

/-- `Do_Request (Req_Write, ..)` of one sector: a failed one leaves the sector as it was. -/
def writeSector (sector : UInt64) (data : SectorData) : Driver × UInt8 :=
  let status := d.fate d.requests
  ({ d with
      device := if status = 0 then update d.device sector data else d.device
      requests := d.requests + 1
      log := d.log ++ [.devWrite sector data status] }, status)

/-- A read request completed by the device. -/
def readDone (sector : UInt64) (count : Nat) : Driver × UInt8 :=
  let status := d.fate d.requests
  ({ d with
      requests := d.requests + 1
      log := d.log ++ [.devRead sector count status] }, status)

/-- `Do_Device_Flush`.  The status byte is not looked at. -/
def deviceFlush : Driver :=
  { d with
    requests := d.requests + 1
    log := d.log ++ [.devFlush (d.fate d.requests)] }

/-! ## The cache -/

/-- `Find_Slot`. -/
def findSlot (sector : UInt64) : Option (Fin cacheSlots) :=
  (finRange cacheSlots).find? fun s => (d.slot s).valid ∧ (d.slot s).sector = sector

/-- `Touch`. -/
def touch (s : Fin cacheSlots) : Driver :=
  { d with
    ageTick := d.ageTick + 1
    slot := update d.slot s { d.slot s with age := d.ageTick + 1 } }

/-- A slot's flags and sector set; its bytes stay. -/
def setSlot (s : Fin cacheSlots) (dirty : Bool) (sector : UInt64) : Driver :=
  { d with slot := update d.slot s { d.slot s with valid := true, dirty := dirty, sector := sector } }

/-- The least recently used slot. -/
def oldest : Fin cacheSlots :=
  (finRange cacheSlots).tail.foldl
    (fun victim s => if (d.slot s).age < (d.slot victim).age then s else victim) ⟨0, by decide⟩

/-- `Alloc_Slot`: `none` when the victim's bytes could not be written back. -/
def allocSlot (sector : UInt64) : Driver × Option (Fin cacheSlots) :=
  match (finRange cacheSlots).find? fun s => ¬ (d.slot s).valid with
  | some s => ((d.setSlot s false sector).touch s, some s)
  | none =>
    let victim := d.oldest
    if (d.slot victim).dirty then
      match d.writeSector (d.slot victim).sector (d.slot victim).data with
      | (d, status) =>
        if status ≠ 0 then (d, none) else ((d.setSlot victim false sector).touch victim, some victim)
    else ((d.setSlot victim false sector).touch victim, some victim)

/-- The write loop of `Flush_Dirty`: it ends at the first write that fails. -/
def writeBack : List (Fin cacheSlots) → Driver → Driver × Bool
  | [], d => (d, true)
  | s :: rest, d =>
    if (d.slot s).valid ∧ (d.slot s).dirty then
      match d.writeSector (d.slot s).sector (d.slot s).data with
      | (d, status) =>
        if status ≠ 0 then (d, false) else writeBack rest (d.setSlot s false (d.slot s).sector)
    else writeBack rest d

/-- A valid dirty slot. -/
def dirtySlot (s : Fin cacheSlots) : Bool := (d.slot s).valid && (d.slot s).dirty

/-- `Flush_Dirty`. -/
def flushDirty (forceDevice : Bool) : Driver × Bool :=
  if (finRange cacheSlots).all (fun s => !d.dirtySlot s) ∧ forceDevice = false then (d, true)
  else
    match writeBack (finRange cacheSlots) d with
    | (d, false) => (d, false)
    | (d, true) => (if forceDevice ∧ d.haveFlush then d.deviceFlush else d, true)

/-! ## Reading -/

/-- The read of `count` sectors from position `first` of a request on, into the same positions of the
    buffer. -/
def readRun (sector : UInt64) (b : Buffer) (first count : Nat) : Driver × Buffer × UInt8 :=
  match d.readDone (sector + UInt64.ofNat first) count with
  | (d, status) =>
    (d, if status = 0 then
        (range' first count).foldl (fun b i => b.put i (d.device (sector + UInt64.ofNat i))) b
      else b, status)

/-- The miss loop's variables: `Run_From` and `Rd_St` beside the driver and the buffer. -/
structure ReadLoop where
  driver : Driver
  buf : Buffer
  runFrom : Option Nat
  status : UInt8

/-- The run that ends before position `i` is read, unless an earlier one failed. -/
def ReadLoop.endRun (l : ReadLoop) (sector : UInt64) (first i : Nat) : ReadLoop :=
  if l.status = 0 then
    match l.driver.readRun sector l.buf first (i - first) with
    | (d, b, status) => ⟨d, b, none, status⟩
  else { l with runFrom := none }

/-- One position of the miss loop. -/
def ReadLoop.step (hit : Nat → Option (Fin cacheSlots)) (sector : UInt64) (l : ReadLoop) (i : Nat) : ReadLoop :=
  match hit i, l.runFrom with
  | none, none => { l with runFrom := some i }
  | some _, some first => l.endRun sector first i
  | _, _ => l

/-- The miss loop over all positions, and the run that is still open after it. -/
def readMisses (hit : Nat → Option (Fin cacheSlots)) (sector : UInt64) (b : Buffer) (count : Nat) :
    ReadLoop :=
  let l := (range count).foldl (ReadLoop.step hit sector) ⟨d, b, none, 0⟩
  match l.runFrom with
  | some first => l.endRun sector first count
  | none => l

/-- The cached sectors copied over the buffer. -/
def copyHits (hit : Nat → Option (Fin cacheSlots)) : List Nat → Driver × Buffer → Driver × Buffer
  | [], x => x
  | i :: rest, (d, b) =>
    match hit i with
    | none => copyHits hit rest (d, b)
    | some s => copyHits hit rest (d.touch s, b.put i (d.slot s).data)

/-- A read of up to eight sectors; `mapped` is whether the buffer could be mapped. -/
def readSmall (sector : UInt64) (count : Nat) (b : Buffer) (mapped : Bool) :
    Driver × Buffer × UInt8 :=
  let hit := fun i => d.findSlot (sector + UInt64.ofNat i)
  let l := d.readMisses hit sector b count
  if l.status = 0 ∧ (range count).any (fun i => (hit i).isSome) then
    if mapped then
      match copyHits hit (range count) (l.driver, l.buf) with
      | (d, b) => (d, b, 0)
    else (l.driver, l.buf, 1)
  else (l.driver, l.buf, l.status)

/-- The hits of a large read copied over the buffer page by page; a page that is not there cannot be
    mapped. -/
def copyPages (sector : UInt64) (maps : Nat → Bool) : List Nat → Driver × Buffer × UInt8 → Driver × Buffer × UInt8
  | [], x => x
  | i :: rest, (d, b, status) =>
    match d.findSlot (sector + UInt64.ofNat i) with
    | none => copyPages sector maps rest (d, b, status)
    | some s =>
      if maps i ∧ i / 8 < b.pages then copyPages sector maps rest (d.touch s, b.put i (d.slot s).data, status)
      else copyPages sector maps rest (d, b, 1)

/-- A read of 9 to 64 sectors in one descriptor chain.  The physical address of a page the buffer does not
    have is 0, and the chain is submitted all the same. -/
def readLarge (sector : UInt64) (count : Nat) (b : Buffer) (maps : Nat → Bool) :
    Driver × Buffer × UInt8 :=
  match d.readRun sector b 0 count with
  | (d, b, status) => if status = 0 then copyPages sector maps (range count) (d, b, 0) else (d, b, status)

/-! ## Writing -/

/-- One sector copied into its slot. -/
def storeSector (s : Fin cacheSlots) (sector : UInt64) (data : SectorData) : Driver :=
  { d with
    slot := update d.slot s { d.slot s with dirty := true, data := data }
    log := d.log ++ [.accept sector data] }

/-- The sector's slot, or a new one. -/
def slotFor (sector : UInt64) : Driver × Option (Fin cacheSlots) :=
  match d.findSlot sector with
  | some s => (d, some s)
  | none => d.allocSlot sector

/-- The copy loop of `Op_Write`: it ends at the first sector that gets no slot. -/
def writeSectors (sector : UInt64) (b : Buffer) : List Nat → Driver → Driver × UInt64
  | [], d => (d, 0)
  | i :: rest, d =>
    match d.slotFor (sector + UInt64.ofNat i) with
    | (d, none) => (d, 1)
    | (d, some s) =>
      writeSectors sector b rest ((d.storeSector s (sector + UInt64.ofNat i) (b.content i)).touch s)

end Driver

/-! ## The service loop -/

/-- The range check of `Op_Read` and `Op_Write`; `limit` is the largest count. -/
def rangeOk (capacity sector count limit : UInt64) : Bool :=
  count ≠ 0 ∧ count ≤ limit ∧ sector + count ≤ capacity

/-- A message at the service endpoint; a buffer of no pages stands for a cap that gives no physical address,
    `maps` for what `Mem_Map` answers. -/
inductive Request
  | notification
  | info
  | flush
  | read (sector count : UInt64) (buf : Option Buffer) (maps : Nat → Bool)
  | write (sector count : UInt64) (buf : Option Buffer) (maps : Nat → Bool)
  | other

/-- A reply, with the client's buffer as it is then. -/
structure Reply where
  status : UInt64
  value : UInt64
  buf : Option Buffer

namespace Driver

variable (d : Driver)

/-- A message answered. -/
def serve : Request → Driver × Option Reply
  | .notification => (d, none)
  | .info => (d, some ⟨0, d.capacity, none⟩)
  | .flush =>
    match d.flushDirty true with
    | (d, ok) => (d, some ⟨if ok then 0 else 1, 0, none⟩)
  | .read sector count buf maps =>
    match buf with
    | none => (d, some ⟨3, 0, none⟩)
    | some b =>
      if rangeOk d.capacity sector count 64 = false ∨ b.pages = 0 then (d, some ⟨3, 0, some b⟩)
      else
        match (if count ≤ 8 then d.readSmall sector count.toNat b (maps 0)
          else d.readLarge sector count.toNat b maps) with
        | (d, b, status) => (d, some ⟨if status = 0 then 0 else 1, 0, some b⟩)
  | .write sector count buf maps =>
    match buf with
    | none => (d, some ⟨3, 0, none⟩)
    | some b =>
      if rangeOk d.capacity sector count 8 = false then (d, some ⟨3, 0, some b⟩)
      else if maps 0 ∧ 0 < b.pages then
        match writeSectors sector b (range count.toNat) d with
        | (d, status) => (d, some ⟨status, 0, some b⟩)
      else (d, some ⟨1, 0, some b⟩)
  | .other => (d, some ⟨3, 0, none⟩)

/-- One turn of the service loop: the write-behind pass, whose result is only printed, then a message. -/
def turn (r : Request) : Driver × Option Reply := (d.flushDirty false).1.serve r

/-- The driver after these messages. -/
def after (rs : List Request) : Driver := rs.foldl (fun d r => (d.turn r).1) d

/-- The driver when it comes online. -/
def online (device : UInt64 → SectorData) (fate : Nat → UInt8) (capacity : UInt64) (haveFlush : Bool) : Driver where
  slot _ := ⟨false, false, 0, 0, fun _ => 0⟩
  ageTick := 0
  capacity := capacity
  haveFlush := haveFlush
  device := device
  fate := fate
  requests := 0
  log := []

end Driver

end Aegir.VirtioBlk
