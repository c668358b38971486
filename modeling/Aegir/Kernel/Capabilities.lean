/-
  Capability entries and the paged capability table (`Kernel.Capabilities`).

  A table has 16384 handles, handle 0 being INVALID for ever.  Its entries live in 128 pages of 128
  entries each; a page is a frame of the allocator that is taken when its first entry is put and
  given back when its last one is closed.  An absent page (`root p = 0`) reads as all-null, so a
  fresh table owns no memory at all.

  Everything that fails does so BEFORE it changes the table: an insert allocates the page first and
  writes the entry only then.
-/
import Mathlib.Logic.Function.Basic
import Aegir.Kernel.PhysicalMemory

namespace Aegir.Kernel

open Function

/-- User-visible words are the source's `Unsigned_64`. -/
abbrev U64 := UInt64

/-- `Object_Kind`, in declaration order. -/
inductive ObjectKind where
  | nullObject
  | frameObject
  | addressSpaceObject
  | processObject
  | threadObject
  | endpointObject
  | replyObject
  | irqObject
  | mmioObject
  | dmaObject
  | kernelObject
  | bootFileObject
  | memoryObject
  | notificationObject
  | adminObject
deriving DecidableEq, Repr

/-- `Rights`: ten independent permissions. -/
structure Rights where
  read : Bool := false
  write : Bool := false
  execute : Bool := false
  map : Bool := false
  send : Bool := false
  receive : Bool := false
  wait : Bool := false
  ack : Bool := false
  transfer : Bool := false
  manage : Bool := false
deriving DecidableEq, Repr

def noRights : Rights := {}

/-- `Has_Rights (Have, Need)`: every right of `need` is in `have`. -/
def hasRights (hav need : Rights) : Bool :=
  (!need.read || hav.read) && (!need.write || hav.write) && (!need.execute || hav.execute) &&
  (!need.map || hav.map) && (!need.send || hav.send) && (!need.receive || hav.receive) &&
  (!need.wait || hav.wait) && (!need.ack || hav.ack) && (!need.transfer || hav.transfer) &&
  (!need.manage || hav.manage)

/-- `To_Rights`: bit `i` of the mask is component `i`. -/
def toRights (mask : U64) : Rights where
  read := mask &&& 1 != 0
  write := mask &&& 2 != 0
  execute := mask &&& 4 != 0
  map := mask &&& 8 != 0
  send := mask &&& 16 != 0
  receive := mask &&& 32 != 0
  wait := mask &&& 64 != 0
  ack := mask &&& 128 != 0
  transfer := mask &&& 256 != 0
  manage := mask &&& 512 != 0

/-- `Valid_Rights_Mask`. -/
def validRightsMask : U64 := 0x3FF

/-- `Cap_Entry`.  `object` is the address of the object, 0 being `Null_Address`. -/
structure CapEntry where
  valid : Bool
  kind : ObjectKind
  object : Nat
  rights : Rights
  badge : U64
deriving DecidableEq, Repr

/-- `Null_Cap`, also what a zeroed page reads as. -/
def nullCap : CapEntry := ⟨false, .nullObject, 0, noRights, 0⟩

/-- `Capabilities.Status`. -/
inductive CapStatus where
  | ok
  | invalidCap
  | invalidObject
  | tableFull
  | slotOccupied
  | rightsDenied
deriving DecidableEq, Repr

/-- `Handle'Last`. -/
def handleLast : Nat := 16383

/-- `Caps_Per_Page`. -/
def capsPerPage : Nat := 128

/-- `Page_Count = Max_Caps / Caps_Per_Page`. -/
def tablePages : Nat := 128

/-- `Cap_Table`.  `slots h` is the entry stored for handle `h` in its page, meaningful only while
    the page is present. -/
structure CapTable where
  root : Nat → Nat
  count : Nat → Nat
  total : Nat
  slots : Nat → CapEntry

namespace CapTable

variable (t : CapTable)

/-- `Initialize`: no page, no entry. -/
def empty : CapTable := ⟨fun _ => 0, fun _ => 0, 0, fun _ => nullCap⟩

def pageNo (cap : Nat) : Nat := cap / capsPerPage

/-- `Get`: an absent page reads as null entries. -/
def get (cap : Nat) : CapEntry :=
  if t.root (pageNo cap) = 0 then nullCap else t.slots cap

/-- `Ensure_Page`: take a zeroed frame for a page that is absent. -/
def ensurePage (page : Nat) (p : Pmm) : CapStatus × CapTable × Pmm :=
  if t.root page ≠ 0 then (.ok, t, p)
  else
    match p.allocateFrame with
    | (.error _, p') => (.tableFull, t, p')
    | (.ok frame, p') =>
      (.ok, { t with
        root := update t.root page frame
        slots := fun h => if pageNo h = page then nullCap else t.slots h }, p')

/-- `Put` and the counters that every insert bumps. -/
def putNew (cap : Nat) (e : CapEntry) : CapTable :=
  { t with
    slots := update t.slots cap e
    count := update t.count (pageNo cap) (t.count (pageNo cap) + 1)
    total := t.total + 1 }

/-- The candidate loop of `Insert`: the lowest handle from `cap` on that is not valid. -/
def lowestFree (t : CapTable) : Nat → Nat → Option Nat
  | _, 0 => none
  | cap, n + 1 => if (t.get cap).valid then lowestFree t (cap + 1) n else some cap

/-- `Insert`: put the entry at the lowest free handle. -/
def insert (kind : ObjectKind) (object : Nat) (rights : Rights) (badge : U64)
    (p : Pmm) : Except CapStatus Nat × CapTable × Pmm :=
  if kind = .nullObject ∨ object = 0 then (.error .invalidObject, t, p)
  else
    match t.lowestFree 1 handleLast with
    | none => (.error .tableFull, t, p)
    | some cap =>
      match t.ensurePage (pageNo cap) p with
      | (.ok, t', p') => (.ok cap, t'.putNew cap ⟨true, kind, object, rights, badge⟩, p')
      | (s, t', p') => (.error s, t', p')

/-- `Insert_At`: put the entry at a named handle. -/
def insertAt (cap : Nat) (kind : ObjectKind) (object : Nat) (rights : Rights)
    (badge : U64) (p : Pmm) : CapStatus × CapTable × Pmm :=
  if cap = 0 then (.invalidCap, t, p)
  else if kind = .nullObject ∨ object = 0 then (.invalidObject, t, p)
  else if t.root (pageNo cap) ≠ 0 ∧ (t.get cap).valid then (.slotOccupied, t, p)
  else
    match t.ensurePage (pageNo cap) p with
    | (.ok, t', p') => (.ok, t'.putNew cap ⟨true, kind, object, rights, badge⟩, p')
    | (s, t', p') => (s, t', p')

/-- `Lookup`: the valid entry at a handle. -/
def lookup (cap : Nat) : Option CapEntry :=
  if cap = 0 ∨ (t.get cap).valid = false then none else some (t.get cap)

/-- `Duplicate`: a second cap on the object of `source`, with rights that the source has. -/
def duplicate (source : Nat) (newRights : Rights) (newBadge : U64) (p : Pmm) :
    Except CapStatus Nat × CapTable × Pmm :=
  match t.lookup source with
  | none => (.error .invalidCap, t, p)
  | some e =>
    if !e.rights.transfer || !hasRights e.rights newRights then (.error .rightsDenied, t, p)
    else t.insert e.kind e.object newRights newBadge p

/-- `Release_Page`. -/
def releasePage (page : Nat) (p : Pmm) : CapTable × Pmm :=
  ({ t with root := update t.root page 0 }, (p.deallocateFrame (t.root page)).2)

/-- `Close`: null the entry, and give back its page when it was the last one there. -/
def close (cap : Nat) (p : Pmm) : CapStatus × CapTable × Pmm :=
  if cap = 0 ∨ (t.get cap).valid = false then (.invalidCap, t, p)
  else
    let page := pageNo cap
    let t' := { t with
      slots := update t.slots cap nullCap
      count := update t.count page (t.count page - 1)
      total := t.total - 1 }
    if t'.count page = 0 then (.ok, t'.releasePage page p)
    else (.ok, t', p)

/-- The loop of `Reset` over the pages `page, page + 1, ..`: every present page goes back. -/
def resetPages (t : CapTable) (p : Pmm) : Nat → Nat → CapTable × Pmm
  | _, 0 => (t, p)
  | page, n + 1 =>
    if t.root page ≠ 0 then
      let (t', p') := t.releasePage page p
      resetPages t' p' (page + 1) n
    else resetPages t p (page + 1) n

/-- `Reset`: drop all pages without any hook. -/
def reset (p : Pmm) : CapTable × Pmm :=
  let (t', p') := t.resetPages p 0 tablePages
  ({ t' with count := fun _ => 0, total := 0 }, p')

end CapTable

end Aegir.Kernel
