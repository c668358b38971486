/-
  The BFS volume and the engine state that serves it.

  A volume is an array of 4 KiB blocks.  Block 0 holds the superblock at byte 512; it names the
  allocation-group size, the LOG AREA and the two positions in it, and the root directory's inode.  The
  OVERLAY of the open transaction holds the blocks modified so far; every read sees them first.

  The device records the requests in the order they are issued; what it may lose is said by `Lib.Medium`.
-/
import Aegir.Lib.LittleEndian
import Aegir.Lib.Medium

namespace Aegir.Bfs

open Aegir.Lib

/-- A block, byte by byte. -/
abbrev Block : Type := Bytes

/-- The blocks of a volume by number. -/
abbrev Medium : Type := Nat → Block

/-! ## The device -/

/-- What was durable when the engine started, and the requests issued since. -/
structure Device where
  start : Medium
  issued : List (StoreOp Nat Block)

namespace Device

/-- The store behind the block service after the requests issued so far. -/
def store (d : Device) : Store Nat Block := (Store.mk d.start []).run d.issued

/-- `Blk_Read` of one block. -/
def read (d : Device) (num : Nat) : Block := d.store.view num

/-- A write that the block service carries out. -/
def write (d : Device) (num : Nat) (b : Block) : Device :=
  { d with issued := d.issued ++ [.write num b] }

/-- A flush that it carries out. -/
def flush (d : Device) : Device := { d with issued := d.issued ++ [.flush] }

def writeAll (d : Device) (ws : List (Nat × Block)) : Device :=
  ws.foldl (fun d w => d.write w.1 w.2) d

/-- The store when the power fails right after the first `n` requests. -/
def storeAt (d : Device) (n : Nat) : Store Nat Block := (Store.mk d.start []).run (d.issued.take n)

end Device

/-! ## Block runs -/

/-- `block_run`: allocation group, first block in the group, number of blocks. -/
structure BlockRun where
  ag : Nat
  start : Nat
  length : Nat
deriving DecidableEq

/-- `Run_At`. -/
def runAt (b : Block) (off : Nat) : BlockRun :=
  ⟨le b off 4, le b (off + 4) 2, le b (off + 6) 2⟩

/-- The first block of a run, in 64-bit arithmetic. -/
def blockOf (agShift : Nat) (r : BlockRun) : Nat := (r.ag * 2 ^ agShift + r.start) % 2 ^ 64

def putRun (b : Block) (off : Nat) (r : BlockRun) : Block :=
  putLe (putLe (putLe b off 4 r.ag) (off + 4) 2 r.start) (off + 6) 2 r.length

/-! ## The engine -/

/-- The superblock's fields that the engine keeps. -/
structure Volume where
  agShift : Nat
  numBlocks : Nat
  usedBlocks : Nat
  logBase : Nat
  logLen : Nat
  logPosStart : Nat
  logPosEnd : Nat
  rootBlock : Nat
  indexBlock : Nat
deriving DecidableEq

namespace Volume

def groupSize (v : Volume) : Nat := 2 ^ v.agShift

/-- `To_Block`. -/
def toBlock (v : Volume) (r : BlockRun) : Nat := blockOf v.agShift r

/-- `Run_At_Block`. -/
def runAtBlock (v : Volume) (b len : Nat) : BlockRun :=
  ⟨b / v.groupSize % 2 ^ 32, b % v.groupSize % 2 ^ 16, len % 2 ^ 16⟩

/-- The log area. -/
def InLog (v : Volume) (num : Nat) : Prop := v.logBase ≤ num ∧ num < v.logBase + v.logLen

instance (v : Volume) (num : Nat) : Decidable (v.InLog num) := inferInstanceAs (Decidable (_ ∧ _))

end Volume

/-- `Max_Trans_Blocks`. -/
def maxTransBlocks : Nat := 40

/-- The open transaction: one snapshot for each block it modified. -/
structure Overlay where
  entries : List (Nat × Block)
  nodup : (entries.map Prod.fst).Nodup
  length_le : entries.length ≤ maxTransBlocks

/-- No open transaction. -/
def Overlay.empty : Overlay := ⟨[], List.nodup_nil, Nat.zero_le _⟩

/-- The snapshot of a block. -/
def Overlay.get? (o : Overlay) (num : Nat) : Option Block := o.entries.lookup num

structure Engine where
  vol : Volume
  usedPending : Nat
  trans : Overlay
  transOverflowed : Bool
  dev : Device

namespace Engine

/-- What a block reads as inside the open transaction. -/
def block (e : Engine) (num : Nat) : Block := (e.trans.get? num).getD (e.dev.read num)

/-- `Get_Block`: the bounds guard, then the disk under the overlay. -/
def getBlock (e : Engine) (num : Nat) : Option Block :=
  if 0 < e.vol.numBlocks ∧ e.vol.numBlocks ≤ num then none else some (e.block num)

def write (e : Engine) (num : Nat) (b : Block) : Engine := { e with dev := e.dev.write num b }

def writeAll (e : Engine) (ws : List (Nat × Block)) : Engine := { e with dev := e.dev.writeAll ws }

def flush (e : Engine) : Engine := { e with dev := e.dev.flush }

end Engine

/-! ## The superblock -/

def sbClean : Nat := 0x434C454E
def sbDirty : Nat := 0x44495254

/-- The magic numbers and the block size that `Init` asks for. -/
def superOk (b : Block) : Bool :=
  le b (512 + 32) 4 = 0x42465331 ∧ le b (512 + 36) 4 = 0x42494745 ∧ le b (512 + 68) 4 = 0xDD121031 ∧
    le b (512 + 112) 4 = 0x15B6830E ∧ le b (512 + 40) 4 = 4096

/-- The fields `Init` takes from block 0. -/
def readSuper (b : Block) : Volume where
  agShift := le b (512 + 76) 4
  numBlocks := le b (512 + 48) 8
  usedBlocks := le b (512 + 56) 8
  logBase := blockOf (le b (512 + 76) 4) (runAt b (512 + 88))
  logLen := (runAt b (512 + 88)).length
  logPosStart := le b (512 + 96) 8
  logPosEnd := le b (512 + 104) 8
  rootBlock := blockOf (le b (512 + 76) 4) (runAt b (512 + 116))
  indexBlock := blockOf (le b (512 + 76) 4) (runAt b (512 + 124))

/-- Block 0 as `Write_Super` leaves it: flag and log positions, and the used count at a clean
    checkpoint. -/
def superBlock (b : Block) (dirty : Bool) (v : Volume) : Block :=
  let b := if dirty then b else putLe b (512 + 56) 8 v.usedBlocks
  let b := putLe b (512 + 84) 4 (if dirty then sbDirty else sbClean)
  let b := putLe b (512 + 96) 8 v.logPosStart
  putLe b (512 + 104) 8 v.logPosEnd

/-- What `Write_Super` does to the engine before it writes. -/
def Engine.checkpoint (e : Engine) (dirty : Bool) : Engine :=
  if dirty then e else
    { e with
      vol := { e.vol with usedBlocks := (e.vol.usedBlocks + e.usedPending) % 2 ^ 64 }
      usedPending := 0 }

/-- `Write_Super`, when the block is written.  Its `Get_Block (0)` passes the bounds guard on every volume. -/
def Engine.writeSuper (e : Engine) (dirty : Bool) : Engine :=
  (e.checkpoint dirty).write 0 (superBlock ((e.checkpoint dirty).block 0) dirty (e.checkpoint dirty).vol)

/-! ## Inodes -/

def inodeMagic : Nat := 0x3BBE0AD9

/-- `Read_Inode`'s test: the magic number, and the in-use flag. -/
def inodeOk (b : Block) : Bool := le b 0 4 = inodeMagic ∧ le b 24 4 % 2 = 1

end Aegir.Bfs
