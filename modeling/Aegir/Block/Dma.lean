/-
  What the block driver lets the device touch.

  The functions follow those of `Block.Driver` and list the data DESCRIPTORS that they submit.  A buffer with too
  few pages is not refused: the address of a page that it does not have is 0, and the chain is submitted with it.
  And the range check adds sector and count modulo 2^64.
-/
import Mathlib.Algebra.Group.Nat.Defs
import Aegir.Block.Driver

namespace Aegir.VirtioBlk

open List

/-! ## Memory objects -/

/-- The address of a page frame. -/
def IsFrame (pa : Nat) : Prop := pa % 4096 = 0 ∧ pa ≠ 0 ∧ pa < 2 ^ 64

instance (pa : Nat) : Decidable (IsFrame pa) := inferInstanceAs (Decidable (_ ∧ _))

/-- A memory object: frames, one for each page. -/
structure MemObject where
  pages : Nat
  frame : Nat → Nat
  isFrame : ∀ i, i < pages → IsFrame (frame i)

/-- `Mem_Object_PA`: 0 for a page that the object does not have. -/
def MemObject.physAddr (o : MemObject) (page : Nat) : Nat := if page < o.pages then o.frame page else 0

/-- An address in one of the object's frames. -/
def MemObject.Holds (o : MemObject) (a : Nat) : Prop := ∃ i, i < o.pages ∧ o.frame i ≤ a ∧ a < o.frame i + 4096

/-- The driver's own objects: the sector cache and the rings with the request header. -/
structure OwnObjects where
  cache : MemObject
  dma : MemObject
  cache_pages : cache.pages = 8

/-! ## Submissions -/

/-- A data descriptor. -/
structure Descriptor where
  addr : Nat
  len : Nat
deriving DecidableEq

/-- A request as it goes to the device: a write or a read from a sector on, and its data descriptors. -/
structure Submission where
  isWrite : Bool
  sector : UInt64
  data : List Descriptor

/-- The bytes that a descriptor covers belong to the client's buffer or to the driver. -/
def Covered (own : OwnObjects) (o : MemObject) (x : Descriptor) : Prop :=
  ∀ a, x.addr ≤ a → a < x.addr + x.len → o.Holds a ∨ own.cache.Holds a ∨ own.dma.Holds a

namespace Driver

variable (own : OwnObjects) (o : MemObject)

/-- `Slot_PA`, and the slot's 512 bytes. -/
def slotData (s : Fin cacheSlots) : Descriptor := ⟨own.cache.physAddr (s / 8) + s % 8 * 512, 512⟩

/-- A slot goes to its sector. -/
def slotWrite (d : Driver) (s : Fin cacheSlots) : Submission := ⟨true, (d.slot s).sector, [slotData own s]⟩

/-- What the write loop of `Flush_Dirty` submits. -/
def writeBackSubs : List (Fin cacheSlots) → Driver → List Submission
  | [], _ => []
  | s :: rest, d =>
    if (d.slot s).valid ∧ (d.slot s).dirty then
      d.slotWrite own s ::
        match d.writeSector (d.slot s).sector (d.slot s).data with
        | (d, status) => if status ≠ 0 then [] else writeBackSubs rest (d.setSlot s false (d.slot s).sector)
    else writeBackSubs rest d

/-- What `Flush_Dirty` submits; a device flush has no data. -/
def flushSubs (d : Driver) (forceDevice : Bool) : List Submission :=
  if (finRange cacheSlots).all (fun s => !d.dirtySlot s) ∧ forceDevice = false then []
  else writeBackSubs own (finRange cacheSlots) d

/-- What `Alloc_Slot` submits. -/
def allocSubs (d : Driver) : List Submission :=
  match (finRange cacheSlots).find? fun s => ¬ (d.slot s).valid with
  | some _ => []
  | none => if (d.slot d.oldest).dirty then [d.slotWrite own d.oldest] else []

/-- What the copy loop of `Op_Write` submits. -/
def writeSubs (sector : UInt64) (b : Buffer) : List Nat → Driver → List Submission
  | [], _ => []
  | i :: rest, d =>
    (match d.findSlot (sector + UInt64.ofNat i) with
      | some _ => []
      | none => d.allocSubs own) ++
    match d.slotFor (sector + UInt64.ofNat i) with
    | (_, none) => []
    | (d, some s) => writeSubs sector b rest ((d.storeSector s (sector + UInt64.ofNat i) (b.content i)).touch s)

/-- The run of missing sectors that ends before position `i`, straight into the first page. -/
def runSubs (l : ReadLoop) (sector : UInt64) (first i : Nat) : List Submission :=
  if l.status = 0 then
    [⟨false, sector + UInt64.ofNat first, [⟨o.physAddr 0 + first * 512, (i - first) * 512⟩]⟩]
  else []

/-- What the miss loop of a small read submits. -/
def missSubs (hit : Nat → Option (Fin cacheSlots)) (sector : UInt64) (count : Nat) :
    List Nat → ReadLoop → List Submission
  | [], l =>
    match l.runFrom with
    | some first => runSubs o l sector first count
    | none => []
  | i :: rest, l =>
    (match hit i, l.runFrom with
      | some _, some first => runSubs o l sector first i
      | _, _ => []) ++ missSubs hit sector count rest (l.step hit sector i)

/-- The data descriptors of `Do_Request_Chain`: one for each page, as many as the bytes need.  The queue has
    room for all of them. -/
def chain : Nat → Nat → Nat → List Descriptor
  | 0, _, _ => []
  | n + 1, remain, pg =>
    if 0 < remain then ⟨o.physAddr pg, min remain 4096⟩ :: chain n (remain - min remain 4096) (pg + 1) else []

/-- What a large read submits. -/
def chainSub (sector : UInt64) (count : Nat) : Submission := ⟨false, sector, chain o (count * 512) (count * 512) 0⟩

/-- What is submitted for a message. -/
def serveSubs (d : Driver) : Request → List Submission
  | .notification => []
  | .info => []
  | .flush => d.flushSubs own true
  | .read sector count buf _ =>
    match buf with
    | none => []
    | some b =>
      if rangeOk d.capacity sector count 64 = false ∨ b.pages = 0 then []
      else if count ≤ 8 then
        missSubs o (fun i => d.findSlot (sector + UInt64.ofNat i)) sector count.toNat (range count.toNat)
          ⟨d, b, none, 0⟩
      else [chainSub o sector count.toNat]
  | .write sector count buf maps =>
    match buf with
    | none => []
    | some b =>
      if rangeOk d.capacity sector count 8 = false then []
      else if maps 0 ∧ 0 < b.pages then writeSubs own sector b (range count.toNat) d
      else []
  | .other => []

/-- What one turn of the service loop submits. -/
def turnSubs (d : Driver) (r : Request) : List Submission :=
  d.flushSubs own false ++ (d.flushDirty false).1.serveSubs own o r

end Driver

end Aegir.VirtioBlk
