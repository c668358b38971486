/-
  The physical frame allocator (`Kernel.Physical_Memory`).

  One range of RAM `[Base_Frame, Limit)` is handed out page by page, from TWO sources: the FREE LIST, an
  intrusive stack whose links are the first words of free frames, and the BUMP POINTER `Next_Frame`, at and
  above which nothing was handed out.  The bump pointer skips RESERVED ranges.

  The sums that the source computes modulo 2^64 are written so here.
-/
import Mathlib.Algebra.Group.Nat.Defs
import Mathlib.Logic.Function.Basic

namespace Aegir

/-- The page (and frame) size in bytes. -/
def pageSize : Nat := 4096

/-- Unsigned 64-bit addition of the source. -/
def add64 (a b : Nat) : Nat := (a + b) % 2 ^ 64

/-- Unsigned 64-bit subtraction of the source. -/
def sub64 (a b : Nat) : Nat := (a + 2 ^ 64 - b) % 2 ^ 64

namespace Kernel

/-- `Physical_Memory.Status`. -/
inductive PmmStatus where
  | ok
  | notInitialized
  | outOfMemory
  | invalidRange
  | tooManyRanges
deriving DecidableEq, Repr

/-- A range the bump pointer must not enter, `last` exclusive. -/
structure ReservedRange where
  base : Nat
  last : Nat
deriving DecidableEq, Repr

/-- The allocator's variables.  `link f` is the word stored in the free frame `f`. -/
structure Pmm where
  baseFrame : Nat
  nextFrame : Nat
  limit : Nat
  freeListHead : Nat
  freeListCount : Nat
  isReady : Bool
  link : Nat → Nat
  reserved : List ReservedRange

namespace Pmm

/-- `Max_Reserved`. -/
def maxReserved : Nat := 8

def alignUp (value alignment : Nat) : Nat :=
  sub64 (add64 value alignment) 1 / alignment * alignment

/-- `Initialize (First_Free, Last_Byte)`: the reserved ranges recorded so far stay. -/
def initializePmm (p : Pmm) (firstFree lastByte : Nat) : PmmStatus × Pmm :=
  let base := alignUp firstFree pageSize
  let limit := lastByte - lastByte % pageSize
  let p' := { p with
    baseFrame := base, nextFrame := base, limit := limit, freeListHead := 0, freeListCount := 0 }
  if limit ≤ base then (.invalidRange, { p' with isReady := false })
  else (.ok, { p' with isReady := true })

/-- `Reserve (Base, Length)`, widened to whole pages. -/
def reserve (p : Pmm) (base length : Nat) : PmmStatus × Pmm :=
  if length = 0 then (.ok, p)
  else if p.reserved.length = maxReserved then (.tooManyRanges, p)
  else (.ok, { p with
    reserved := p.reserved ++ [⟨base - base % pageSize, alignUp (add64 base length) pageSize⟩] })

def validFrame (p : Pmm) (frame : Nat) : Bool :=
  p.baseFrame ≤ frame && frame < p.nextFrame && frame % pageSize == 0

/-- The walk of `Is_In_Free_List` from `current`, at most `fuel` links. -/
def inFreeListFrom (link : Nat → Nat) (frame : Nat) : Nat → Nat → Bool
  | _, 0 => false
  | current, fuel + 1 =>
    if current = 0 then false
    else if current = frame then true
    else inFreeListFrom link frame (link current) fuel

/-- `Is_In_Free_List`.  A list of distinct frames below the bump pointer is no longer than the
    fuel. -/
def isInFreeList (p : Pmm) (frame : Nat) : Bool :=
  inFreeListFrom p.link frame p.freeListHead (p.nextFrame / pageSize + 1)

/-- The first reserved range that overlaps `[candidate, runLast)`. -/
def firstOverlap (candidate runLast : Nat) (ranges : List ReservedRange) : Option ReservedRange :=
  ranges.find? fun r => candidate < r.last && r.base < runLast

/-- The restarting scan of `Skip_Reserved`.  Every restart leaves one more range behind
    `candidate`, so one round per range (and a last one) is enough. -/
def skipReservedFrom (ranges : List ReservedRange) (pages : Nat) : Nat → Nat → Nat
  | candidate, 0 => candidate
  | candidate, fuel + 1 =>
    match firstOverlap candidate (add64 candidate (pages * pageSize)) ranges with
    | none => candidate
    | some r => skipReservedFrom ranges pages r.last fuel

/-- `Skip_Reserved`. -/
def skipReserved (p : Pmm) (candidate pages : Nat) : Nat :=
  skipReservedFrom p.reserved pages candidate (p.reserved.length + 1)

/-- `Allocate_Frame`: the head of the free list first, else the bump pointer past the reserved
    ranges. -/
def allocateFrame (p : Pmm) : Except PmmStatus Nat × Pmm :=
  if !p.isReady then (.error .notInitialized, p)
  else if p.freeListHead ≠ 0 then
    let frame := p.freeListHead
    (.ok frame, { p with
      freeListHead := p.link frame
      freeListCount := p.freeListCount - 1
      link := Function.update p.link frame 0 })
  else
    let next := p.skipReserved p.nextFrame 1
    if add64 next pageSize > p.limit then
      (.error .outOfMemory, { p with nextFrame := next })
    else (.ok next, { p with nextFrame := add64 next pageSize })

/-- `Allocate_Contiguous`: a run of pages from the bump pointer, never from the free list. -/
def allocateContiguous (p : Pmm) (pages : Nat) : Except PmmStatus Nat × Pmm :=
  if !p.isReady then (.error .notInitialized, p)
  else
    let next := p.skipReserved p.nextFrame pages
    if add64 next (pages * pageSize) > p.limit then
      (.error .outOfMemory, { p with nextFrame := next })
    else (.ok next, { p with nextFrame := add64 next (pages * pageSize) })

/-- `Deallocate_Frame`: only a frame below the bump pointer that is not free already is taken back. -/
def deallocateFrame (p : Pmm) (frame : Nat) : PmmStatus × Pmm :=
  if !p.isReady then (.notInitialized, p)
  else if !p.validFrame frame || p.isInFreeList frame then (.invalidRange, p)
  else if add64 frame pageSize = p.nextFrame then (.ok, { p with nextFrame := frame })
  else
    (.ok, { p with
      link := Function.update p.link frame p.freeListHead
      freeListHead := frame
      freeListCount := p.freeListCount + 1 })

/-- `Free_Bytes`: what is above the bump pointer, and the free list. -/
def freeBytes (p : Pmm) : Nat :=
  if !p.isReady then 0
  else
    let bumpFree := if p.nextFrame < p.limit then p.limit - p.nextFrame else 0
    add64 bumpFree (p.freeListCount * pageSize % 2 ^ 64)

/-- `Free_Frame_Count`. -/
def freeFrameCount (p : Pmm) : Nat := if !p.isReady then 0 else p.freeBytes / pageSize

end Pmm

end Kernel

end Aegir
