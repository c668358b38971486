/-
  The small_data region of an inode: its attributes, packed.

  From byte 232 on lie the entries: le32 type, le16 name size, le16 data size, the name, three pad bytes, the
  data, one pad byte.  A header with name size 0 ends the list.  The first entry of an inode is the NAME
  PSEUDO-ATTRIBUTE.  Each operation walks the region in the block cache; a commit that fails drops the changed
  block, unless it has already gone to its place on the disk.
-/
import Aegir.Bfs.BlockChecks

namespace Aegir.Bfs.SmallData

open Aegir.Lib

/-- `Small_Data_Off`. -/
def smallDataOff : Nat := 232

/-- `File_Name_Type`, 'CSTR'. -/
def fileNameType : Nat := 0x43535452

/-- `File_Name_Name`. -/
def fileNameName : UInt8 := 0x13

/-- The bytes of an entry: header, name, three pad bytes, data, one pad byte. -/
def entryBytes (nlen dlen : Nat) : Nat := 8 + nlen + 3 + dlen + 1

inductive Status where
  | ok
  | notFound
  | badArgs
deriving DecidableEq

/-! ## Looking at an entry -/

/-- `Is_Name_Attr`. -/
def isNameAttr (b : Block) (pos nlen : Nat) : Except Raised Bool :=
  if nlen = 1 then do
    let x ← byteAt b (pos + 8)
    pure (x == fileNameName)
  else pure false

/-- Whether the bytes at `pos` are those of `attr`, up to the first that differs. -/
def matchesAt (b : Block) (pos : Nat) : List UInt8 → Except Raised Bool
  | [] => pure true
  | c :: cs => do
    let x ← byteAt b pos
    if x = c then matchesAt b (pos + 1) cs else pure false

/-- The entry at `pos` is the one looked for: `not Is_Name_Attr`, still `wanted`, and of that name. -/
def isHit (b : Block) (attr : List UInt8) (wanted : Bool) (pos nlen : Nat) : Except Raised Bool := do
  let hidden ← isNameAttr b pos nlen
  if !hidden ∧ wanted ∧ nlen = attr.length then matchesAt b (pos + 8) attr else pure false

/-! ## The walks -/

structure Listed where
  name : List UInt8
  type : Nat
  size : Nat
deriving DecidableEq

/-- The loop of `Attr_List`, into a name buffer of `nameLen` characters. -/
def listFrom (b : Block) (index nameLen pos seen : Nat) : Except Raised (Option Listed) :=
  if h : pos + 8 ≤ blockSize then do
    let nlen ← leAt b (pos + 4) 2
    let dlen ← leAt b (pos + 6) 2
    if nlen = 0 then pure none
    else if pos + entryBytes nlen dlen > blockSize then pure none
    else do
      let hidden ← isNameAttr b pos nlen
      if hidden then listFrom b index nameLen (pos + entryBytes nlen dlen) seen
      else if seen = index then do
        let type ← leAt b pos 4
        let name ← bytesAt b (pos + 8) (min nlen nameLen)
        pure (some ⟨name, type, dlen⟩)
      else listFrom b index nameLen (pos + entryBytes nlen dlen) (seen + 1)
  else pure none
termination_by blockSize - pos
decreasing_by all_goals (unfold entryBytes; omega)

/-- `Attr_List`. -/
def attrList (b : Block) (index nameLen : Nat) : Except Raised (Option Listed) :=
  listFrom b index nameLen smallDataOff 0

/-- What `Attr_Read` answers: the type, the full size and the bytes copied. -/
structure Reading where
  type : Nat
  size : Nat
  bytes : List UInt8
deriving DecidableEq

/-- The loop of `Attr_Read`, into a buffer of `bufLen` bytes. -/
def readFrom (b : Block) (attr : List UInt8) (bufLen pos : Nat) : Except Raised (Option Reading) :=
  if h : pos + 8 ≤ blockSize then do
    let nlen ← leAt b (pos + 4) 2
    let dlen ← leAt b (pos + 6) 2
    if nlen = 0 then pure none
    else if pos + entryBytes nlen dlen > blockSize then pure none
    else do
      let found ← isHit b attr true pos nlen
      if found then do
        let type ← leAt b pos 4
        let bytes ← bytesAt b (pos + 8 + nlen + 3) (min dlen bufLen)
        pure (some ⟨type, dlen, bytes⟩)
      else readFrom b attr bufLen (pos + entryBytes nlen dlen)
  else pure none
termination_by blockSize - pos
decreasing_by all_goals (unfold entryBytes; omega)

/-- `Attr_Read`. -/
def attrRead (b : Block) (attr : List UInt8) (bufLen : Nat) : Except Raised (Option Reading) :=
  readFrom b attr bufLen smallDataOff

/-- What the search of `Attr_Write` ends with: where it stopped, the last name size it read, and the entry it
    hit with its size. -/
structure Search where
  endPos : Nat
  nlen : Nat
  hit : Option (Nat × Nat)

/-- The loop of `Attr_Write`. -/
def searchFrom (b : Block) (attr : List UInt8) (pos last : Nat) (hit : Option (Nat × Nat)) : Except Raised Search :=
  if h : pos + 8 ≤ blockSize then do
    let nlen ← leAt b (pos + 4) 2
    let dlen ← leAt b (pos + 6) 2
    if nlen = 0 then pure ⟨pos, nlen, hit⟩
    else if pos + entryBytes nlen dlen > blockSize then pure ⟨pos, nlen, hit⟩
    else do
      let found ← isHit b attr hit.isNone pos nlen
      searchFrom b attr (pos + entryBytes nlen dlen) nlen (if found then some (pos, entryBytes nlen dlen) else hit)
  else pure ⟨pos, last, hit⟩
termination_by blockSize - pos
decreasing_by all_goals (unfold entryBytes; omega)

/-- The scan of `Rename_Name_Attr` for the end of the list. -/
def endFrom (b : Block) (pos : Nat) : Except Raised Nat :=
  if h : pos + 8 ≤ blockSize then do
    let nlen ← leAt b (pos + 4) 2
    let dlen ← leAt b (pos + 6) 2
    if nlen = 0 then pure pos else endFrom b (pos + entryBytes nlen dlen)
  else pure pos
termination_by blockSize - pos
decreasing_by all_goals (unfold entryBytes; omega)

/-! ## The edits -/

/-- The tail moves from `src` to `dst`, minding the overlap.  It is never empty: it ends with the terminator. -/
def shiftTail (b : Block) (src dst len : Nat) : Except Raised Block :=
  if dst > src then moveUp b src dst len
  else if dst < src then moveDown b src dst 0 len
  else pure b

/-- The new entry: header, name, pads and data. -/
def putEntry (b : Block) (pos : Nat) (attr : List UInt8) (type : Nat) (data : List UInt8) : Except Raised Block := do
  let b ← setLe b pos 4 type
  let b ← setLe b (pos + 4) 2 attr.length
  let b ← setLe b (pos + 6) 2 data.length
  let b ← setBytes b (pos + 8) attr
  let b ← setBytes b (pos + 8 + attr.length) [0, 0, 0]
  let b ← setBytes b (pos + 8 + attr.length + 3) data
  setByte b (pos + entryBytes attr.length data.length - 1) 0

/-- The end of `Attr_Write`: the `tot` bytes at `hit` become the new entry, or nothing when the data are empty. -/
def writeAt (b : Block) (attr : List UInt8) (type : Nat) (data : List UInt8) (hit tot endPos : Nat) :
    Except Raised (Status × Block) :=
  let newTot := entryBytes attr.length data.length
  let tailFrom := hit + tot
  let tailLen := endPos + 8 - tailFrom
  if data.length > 0 ∧ hit + newTot + tailLen > blockSize then pure (.badArgs, b)
  else if data.length = 0 then do
    let b ← moveDown b tailFrom hit 0 tailLen
    pure (.ok, b)
  else do
    let b ← shiftTail b tailFrom (hit + newTot) tailLen
    let b ← putEntry b hit attr (type % 2 ^ 32) data
    pure (.ok, b)

/-- `Attr_Write`, as far as the block cache; empty data removes the attribute. -/
def attrWrite (b : Block) (attr : List UInt8) (type : Nat) (data : List UInt8) : Except Raised (Status × Block) :=
  if attr.length = 0 ∨ attr.length > 255 ∨ attr = [fileNameName] ∨ data.length > blockSize then pure (.badArgs, b)
  else do
    let s ← searchFrom b attr smallDataOff 0 none
    if s.nlen ≠ 0 then pure (.badArgs, b)
    else
      match s.hit with
      | some (hit, tot) => writeAt b attr type data hit tot s.endPos
      | none => if data.length = 0 then pure (.notFound, b) else writeAt b attr type data s.endPos 0 s.endPos

/-- `Rename_Name_Attr`. -/
def renameNameAttr (b : Block) (newName : List UInt8) : Except Raised (Bool × Block) := do
  let type ← leAt b 232 4
  let nlen ← leAt b 236 2
  let name ← byteAt b 240
  if type ≠ fileNameType ∨ nlen ≠ 1 ∨ name ≠ fileNameName then pure (true, b)
  else do
    let oldLen ← leAt b 238 2
    let oldTotal := entryBytes 1 oldLen
    let newTotal := entryBytes 1 newName.length
    let scan ← endFrom b (232 + oldTotal)
    let tailFrom := 232 + oldTotal
    let tailLen := scan + 8 - tailFrom
    if 232 + newTotal + tailLen > blockSize then pure (false, b)
    else do
      let b ← shiftTail b tailFrom (232 + newTotal) tailLen
      let b ← setLe b 238 2 newName.length
      let b ← setBytes b 244 newName
      pure (true, b)

/-! ## Whole operations -/

/-- `Max_Path_Len` bounds the names. -/
abbrev FileName : Type := { name : List UInt8 // name.length ≤ 255 }

/-- `Build_Inode`: what is before the region is `head`, the rest of the block is 0 except for the name entry. -/
def buildInode (head : Block) (name : FileName) : Block :=
  let b : Block := fun i => if i < smallDataOff then head i else 0
  let b := putLe b 232 4 fileNameType
  let b := putLe b 236 2 1
  let b := putLe b 238 2 (name.1.length % 256)
  let b := Function.update b 240 fileNameName
  putBytes b 244 name.1

/-- What the rest of an operation writes into the inode block: nothing in the region. -/
structure Elsewhere where
  write : Block → Block
  keeps : ∀ b i, smallDataOff ≤ i → write b i = b i

inductive Call where
  | write (attr : List UInt8) (type : Nat) (data : List UInt8)
  | rename (name : FileName) (rest : Elsewhere)

/-- How the commit of an operation ends: well; with the overlay dropped; or failing after the block has gone to its
    place. -/
inductive Commit where
  | done
  | dropped
  | late
deriving DecidableEq

/-- What became of a call: it was done, it was refused, or it answers an error and was done all the same. -/
inductive Answer where
  | done
  | refused
  | late
deriving DecidableEq

/-- `Trans_Commit` of the changed block. -/
def commit (old new : Block) : Commit → Answer × Block
  | .done => (.done, new)
  | .dropped => (.refused, old)
  | .late => (.late, new)

/-- `Attr_Write` or `Rename`, on the inode block of its entry. -/
def step (b : Block) (call : Call) (c : Commit) : Except Raised (Answer × Block) :=
  match call with
  | .write attr type data => do
    let (status, b') ← attrWrite b attr type data
    if status ≠ .ok then pure (.refused, b') else pure (commit b b' c)
  | .rename name rest => do
    let (ok, b') ← renameNameAttr (rest.write b) name.1
    -- `Trans_Abort`
    if ok then pure (commit b b' c) else pure (.refused, b)

/-- One call after the other. -/
def run (b : Block) : List (Call × Commit) → Except Raised (List Answer × Block)
  | [] => pure ([], b)
  | (call, c) :: calls => do
    let (answer, b) ← step b call c
    let (answers, b) ← run b calls
    pure (answer :: answers, b)

end Aegir.Bfs.SmallData
