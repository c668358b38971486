/-
  The partition manager.

  `Probe` reads a GPT, else an MBR, else takes the whole device as one slot; the loop then checks a request
  against the slot of its badge, adds the slot's first sector and passes it on.  All of it is arithmetic on
  64-bit words, most of them raw words from the disk.  A part records the range [lo, hi) its entry names, and
  `sums` what `Probe` computed, for the statements.
-/
import Aegir.Block.Driver
import Aegir.Lib.LittleEndian

namespace Aegir.Partmgr

open Aegir.Lib List

/-! ## Probing -/

/-- A sum or a difference that was computed. -/
inductive Arith
  | add (a b : UInt64)
  | sub (a b : UInt64)
deriving DecidableEq

/-- It did not wrap. -/
def Arith.Exact : Arith → Prop
  | .add a b => a.toNat + b.toNat < 2 ^ 64
  | .sub a b => b.toNat ≤ a.toNat

/-- `First_LBA` and `Part_Size` of a slot, and the range its entry names. -/
structure Part where
  first : UInt64
  size : UInt64
  lo : Nat
  hi : Nat
deriving DecidableEq

structure Probed where
  parts : List Part
  sums : List Arith
deriving DecidableEq

/-- `Max_Parts`. -/
def maxParts : Nat := 8

/-- The device behind the driver: its capacity and what a read of one sector gives. -/
structure Disk where
  capacity : UInt64
  sector : UInt64 → Option Bytes

/-- `Blk_Read_Sectors (Sector, 1)`. -/
def Disk.read (d : Disk) (sector : UInt64) : Option Bytes :=
  if VirtioBlk.rangeOk d.capacity sector 1 64 then d.sector sector else none

def le32 (b : Bytes) (off : Nat) : UInt64 := UInt64.ofNat (le b off 4)
def le64 (b : Bytes) (off : Nat) : UInt64 := UInt64.ofNat (le b off 8)

/-- "EFI PART". -/
def gptMagic (b : Bytes) : Bool :=
  b 0 = 0x45 ∧ b 1 = 0x46 ∧ b 2 = 0x49 ∧ b 3 = 0x20 ∧ b 4 = 0x50 ∧ b 5 = 0x41 ∧ b 6 = 0x52 ∧ b 7 = 0x54

/-- Where entry `ent` lies, for entries of 128 bytes. -/
def entrySector (array : UInt64) (ent : Nat) : UInt64 := array + UInt64.ofNat (ent * 128 / 512)
def entryOff (ent : Nat) : Nat := ent * 128 % 512

/-- The type GUID is not all zero. -/
def used (b : Bytes) (ent : Nat) : Bool := !(range 16).all fun j => b (entryOff ent + j) = 0

def entryFirst (b : Bytes) (ent : Nat) : UInt64 := le64 b (entryOff ent + 32)
def entryLast (b : Bytes) (ent : Nat) : UInt64 := le64 b (entryOff ent + 40)

/-- The slot of an entry. -/
def gptPart (b : Bytes) (ent : Nat) : Part :=
  ⟨entryFirst b ent, entryLast b ent - entryFirst b ent + 1, (entryFirst b ent).toNat, (entryLast b ent).toNat + 1⟩

/-- What one turn of the walk computes, the driver's range check included. -/
def entrySums (array : UInt64) (b : Bytes) (ent : Nat) : List Arith :=
  [.add array (UInt64.ofNat (ent * 128 / 512)), .add (entrySector array ent) 1] ++
    if used b ent then
      [.sub (entryLast b ent) (entryFirst b ent), .add (entryLast b ent - entryFirst b ent) 1]
    else []

/-- The walk over the entry array, `left` entries from `ent` on. -/
def gptWalk (d : Disk) (array : UInt64) : Nat → Nat → Probed → Option Probed
  | 0, _, p => some p
  | left + 1, ent, p =>
    if p.parts.length < maxParts then
      match d.read (entrySector array ent) with
      | none => none
      | some b =>
        gptWalk d array left (ent + 1)
          ⟨if used b ent then p.parts ++ [gptPart b ent] else p.parts, p.sums ++ entrySums array b ent⟩
    else some p

/-- The slot of primary entry `i` of an MBR. -/
def mbrPart (b : Bytes) (i : Nat) : Option Part :=
  let off := 446 + i * 16
  if b (off + 4) ≠ 0 ∧ le32 b (off + 12) ≠ 0 then
    some ⟨le32 b (off + 8), le32 b (off + 12), (le32 b (off + 8)).toNat,
      (le32 b (off + 8)).toNat + (le32 b (off + 12)).toNat⟩
  else none

/-- The whole device as one slot. -/
def wholeDevice (d : Disk) : Part := ⟨0, d.capacity, 0, d.capacity.toNat⟩

/-- `Probe`: `none` where it fails and the process ends. -/
def probe (d : Disk) : Option Probed :=
  match d.read 1 with
  | none => none
  | some b =>
    if gptMagic b then
      if le32 b 80 > 512 ∨ le32 b 84 ≠ 128 then none
      else gptWalk d (le64 b 72) (le32 b 80).toNat 0 ⟨[], [.add 1 1]⟩
    else
      match d.read 0 with
      | none => none
      | some b =>
        let parts := if b 510 = 0x55 ∧ b 511 = 0xAA then (range 4).filterMap (mbrPart b) else []
        some ⟨if parts = [] then [wholeDevice d] else parts, [.add 1 1, .add 0 1]⟩

/-! ## The service loop -/

structure Message where
  badge : UInt64
  label : UInt64
  word0 : UInt64
  word1 : UInt64
  cap0 : UInt64

/-- What partmgr does with a message: it replies, or calls the driver and passes its status on. -/
inductive Action
  | reply (status value : UInt64)
  | query (status first size populated : UInt64)
  | flush
  | forward (op sector count buf : UInt64)
deriving DecidableEq

def blkInfo : UInt64 := 0
def blkRead : UInt64 := 1
def blkWrite : UInt64 := 2
def blkPartQuery : UInt64 := 3
def blkFlush : UInt64 := 4

/-- `Badge_Base`. -/
def badgeBase : UInt64 := 0x1000

/-- `First_LBA` and `Part_Size`, 0 where no slot is. -/
def firstLba (parts : List Part) (i : Nat) : UInt64 := ((parts[i]?).map Part.first).getD 0
def partSize (parts : List Part) (i : Nat) : UInt64 := ((parts[i]?).map Part.size).getD 0

/-- One turn of the loop. -/
def serve (parts : List Part) (m : Message) : Action :=
  let p := (m.badge - badgeBase).toNat
  if m.badge < badgeBase ∨ m.badge ≥ badgeBase + UInt64.ofNat maxParts then .reply 1 0
  else if m.label = blkPartQuery then
    let populated := UInt64.ofNat ((range maxParts).countP fun i => partSize parts i ≠ 0)
    if m.word0 ≥ UInt64.ofNat maxParts ∨ partSize parts m.word0.toNat = 0 then .query 1 0 0 populated
    else .query 0 (firstLba parts m.word0.toNat) (partSize parts m.word0.toNat) populated
  else if partSize parts p = 0 then .reply 1 0
  else if m.label = blkInfo then .reply 0 (partSize parts p)
  else if m.label = blkFlush then .flush
  else if m.label = blkRead ∨ m.label = blkWrite then
    if m.cap0 = 0 ∨ m.word1 = 0 ∨ (m.label = blkRead ∧ m.word1 > 64) ∨ (m.label = blkWrite ∧ m.word1 > 8) ∨
        m.word0 ≥ partSize parts p ∨ m.word1 > partSize parts p - m.word0 then .reply 1 0
    else .forward m.label (m.word0 + firstLba parts p) m.word1 m.cap0
  else .reply 1 0

/-- The driver's own checks let the request through to the device. -/
def executes (capacity op sector count : UInt64) : Bool :=
  VirtioBlk.rangeOk capacity sector count (if op = blkRead then 64 else 8)

/-- The sums and differences on the way of a forwarded request, the driver's last. -/
def forwardSums (parts : List Part) (m : Message) : List Arith :=
  let p := (m.badge - badgeBase).toNat
  [.sub m.badge badgeBase, .sub (partSize parts p) m.word0, .add m.word0 (firstLba parts p),
    .add (m.word0 + firstLba parts p) m.word1]

/-- **Isolation**: nothing wraps on the way of a forwarded request, and what is executed on behalf of a
    slot stays in the range its entry names and below the capacity. -/
structure Isolated (capacity : UInt64) (p : Probed) : Prop where
  sums : ∀ a ∈ p.sums, a.Exact
  forwarded : ∀ (m : Message) (op sector count buf : UInt64), serve p.parts m = .forward op sector count buf →
    ∀ a ∈ forwardSums p.parts m, a.Exact
  io : ∀ (m : Message) (op sector count buf : UInt64), serve p.parts m = .forward op sector count buf →
    executes capacity op sector count = true →
      ∃ part, p.parts[(m.badge - badgeBase).toNat]? = some part ∧
        ∀ i, i < count.toNat → part.lo ≤ (sector + UInt64.ofNat i).toNat ∧
          (sector + UInt64.ofNat i).toNat < part.hi ∧ (sector + UInt64.ofNat i).toNat < capacity.toNat

/-! ## The condition -/

/-- How many entries before `ent` are used. -/
def usedBefore (d : Disk) (array : UInt64) (ent : Nat) : Nat :=
  (range ent).countP fun e => ((d.read (entrySector array e)).map fun b => used b e).getD false

/-- A GPT entry has its sector below the end of the 64-bit range, and names a range of sectors that does
    not end there either. -/
def EntrySound (d : Disk) (array : UInt64) (ent : Nat) : Prop :=
  array.toNat + ent / 4 + 1 < 2 ^ 64 ∧
    ∀ b, d.read (entrySector array ent) = some b → used b ent = true →
      (entryFirst b ent).toNat ≤ (entryLast b ent).toNat ∧ (entryLast b ent).toNat + 1 < 2 ^ 64

/-- Every GPT entry up to the eighth used one is sound; an MBR has nothing that could wrap. -/
def LayoutSound (d : Disk) : Prop :=
  ∀ b, d.read 1 = some b → gptMagic b = true →
    ∀ ent, ent < (le32 b 80).toNat → usedBefore d (le64 b 72) ent < maxParts → EntrySound d (le64 b 72) ent

end Aegir.Partmgr
