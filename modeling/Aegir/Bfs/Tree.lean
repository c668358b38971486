/-
  The BFS B+tree: search, insertion, removal, and the scan of its leaf chain.

  A tree lives in the data stream of an inode: block 0 is the HEADER, every other block a node, and links are
  offsets into the stream.  An inner entry `(k, v)` stands to the right of the child `v`; the overflow link is
  the rightmost child.  Descent follows the first separator STRICTLY greater than the key, a split moves the
  lower half to a new LEFT node, and removal never merges.

  `Stream` is the stream inside the open transaction; `room` is how often growing it still succeeds.
-/
import Aegir.Bfs.Node

namespace Aegir.Bfs

open Aegir.Lib

/-- The blocks of a data stream, as many as its direct runs cover. -/
structure Stream where
  block : Nat → Block
  size : Nat

/-- Twelve direct runs of 16-bit length. -/
def streamMax : Nat := 12 * 65535

namespace Stream

/-- The block that holds a stream offset. -/
def node (s : Stream) (off : Nat) : Block := s.block (off / blockSize)

/-- `Node_Load`: the node and where to store it. -/
def nodeLoad (s : Stream) (off : Nat) : Option (Block × Nat) :=
  if off / blockSize < s.size then some (s.node off, off / blockSize) else none

/-- `Leaf_Store`. -/
def leafStore (s : Stream) (blk : Nat) (b : Block) : Stream :=
  { s with block := Function.update s.block blk b }

/-- `Hdr_Put64` and `Hdr_Put32`, by the width of the field. -/
def hdrPut (s : Stream) (off width v : Nat) : Stream := s.leafStore 0 (putLe (s.block 0) off width v)

/-- `Stream_Read` of a whole block's bytes at an offset. -/
def streamRead (s : Stream) (off : Nat) : Option Block :=
  if off + blockSize ≤ blockSize * s.size then
    some (if off % blockSize = 0 then s.node off
      else fun i => s.node (off + i) ((off + i) % blockSize))
  else none

end Stream

/-- `Tree_Ctx`, with the stream it is about and what growth is still possible. -/
structure TreeCtx where
  stream : Stream
  depth : Nat
  root : Nat
  total : Nat
  room : Nat

/-- `Tree_Open`. -/
def treeOpen (s : Stream) (room : Nat) : Option TreeCtx :=
  match s.streamRead 0 with
  | none => none
  | some hdr =>
    if le hdr 0 4 ≠ btreeMagic then none else some ⟨s, le hdr 8 4, le hdr 16 8, le hdr 32 8, room⟩

namespace TreeCtx

def store (c : TreeCtx) (blk : Nat) (b : Block) : TreeCtx := { c with stream := c.stream.leafStore blk b }

/-- `Tree_Alloc_Node`: the node at the next free offset, in a new block when the stream is full.
    Answers the offset and the block; a refusal leaves everything as it was. -/
def treeAllocNode (c : TreeCtx) : Except TreeCtx (TreeCtx × Nat × Nat) :=
  let full := (c.total + blockSize) % 2 ^ 64 > blockSize * c.stream.size
  if full ∧ (c.room = 0 ∨ c.stream.size = streamMax) then .error c
  else
    let c := if full then
        { c with stream := { c.stream with size := c.stream.size + 1 }, room := c.room - 1 }
      else c
    if c.total / blockSize < c.stream.size then
      let total := (c.total + blockSize) % 2 ^ 64
      .ok ({ c with stream := c.stream.hdrPut 32 8 total, total := total }, c.total, c.total / blockSize)
    else .error c

end TreeCtx

/-! ## Descent -/

/-- One inner level of a descent: the node and the entry followed (their number: the overflow link). -/
structure PathElem where
  off : Nat
  idx : Nat
deriving DecidableEq

/-- `Path_Max`. -/
def pathMax : Nat := 4

/-- Where a descent ends: the inner levels, the nearest first, and the leaf. -/
structure Descent where
  above : List PathElem
  off : Nat
  buf : Block
  blk : Nat

/-- The child an inner node is left by. -/
def childOff (b : Block) (idx : Nat) : Nat :=
  match (leafDecode b)[idx]? with
  | some e => e.val
  | none => le b 16 8

/-- `Tree_Descend` from the node at `off`, with `levels` levels left before `Path_Max`. -/
def descendFrom (s : Stream) (k : SearchKey) : Nat → Nat → List PathElem → Option Descent
  | 0, _, _ => none
  | levels + 1, off, above =>
    match s.nodeLoad off with
    | none => none
    | some (b, blk) =>
      if le b 16 8 = btreeNull then some ⟨above, off, b, blk⟩
      else
        let idx := passed k (leafDecode b)
        descendFrom s k levels (childOff b idx) (⟨off, idx⟩ :: above)

/-- `Tree_Descend`. -/
def treeDescend (c : TreeCtx) (k : SearchKey) : Option Descent :=
  descendFrom c.stream k pathMax c.root []

/-! ## Search -/

/-- The first entry of a leaf with the key (and the value, when `matchValue`). -/
def findEntry (k : SearchKey) (value : Nat) (matchValue : Bool) : Nat → List Entry → Option Nat
  | _, [] => none
  | i, e :: es =>
    if skCmp k e = .lt then none
    else if skCmp k e = .eq ∧ (matchValue = false ∨ e.val = value) then some i
    else findEntry k value matchValue (i + 1) es

/-- A leaf, where it is stored, and an entry of it. -/
structure Located where
  buf : Block
  blk : Nat
  idx : Nat

/-- The leaf at hand, then its left neighbours while their last key still equals the key: `steps` of
    them at most. -/
def locateFrom (s : Stream) (k : SearchKey) (value : Nat) (matchValue : Bool) (steps : Nat) (buf : Block)
    (blk : Nat) : Option Located :=
  match findEntry k value matchValue 0 (leafDecode buf) with
  | some i => some ⟨buf, blk, i⟩
  | none =>
    let left := le buf 0 8
    if left = btreeNull then none
    else
      match steps with
      | 0 => none
      | steps + 1 =>
        match s.nodeLoad left with
        | none => none
        | some (pbuf, pblk) =>
          match (leafDecode pbuf).getLast? with
          | none => none
          | some e => if skCmp k e ≠ .eq then none else locateFrom s k value matchValue steps pbuf pblk

/-- The bound of the left walk. -/
def locateSteps : Nat := 40

/-- `Tree_Locate`. -/
def treeLocate (c : TreeCtx) (k : SearchKey) (value : Nat) (matchValue : Bool) : Option Located :=
  match treeDescend c k with
  | none => none
  | some d => locateFrom c.stream k value matchValue locateSteps d.buf d.blk

/-- `Tree_Find`: the value of an entry with the key. -/
def treeFind (s : Stream) (k : SearchKey) : Option Nat :=
  match treeOpen s 0 with
  | none => none
  | some c =>
    match treeLocate c k 0 false with
    | none => none
    | some f => (leafDecode f.buf)[f.idx]?.map Entry.val

/-! ## Insertion -/

/-- A node that is inserted into: its entries, where the new one goes, and the new one. -/
structure Target where
  off : Nat
  blk : Nat
  buf : Block
  entries : List Entry
  pos : Nat
  push : SearchKey
  pushV : Nat

namespace TreeCtx

/-- In-place insert; the node's links are preserved. -/
def insertHere (c : TreeCtx) (x : Target) : Except TreeCtx TreeCtx :=
  match leafEncode (entryInsertAt x.entries x.pos x.push x.pushV) with
  | none => .error c
  | some b => .ok (c.store x.blk (setLinks b (le x.buf 0 8) (le x.buf 8 8) (le x.buf 16 8)))

/-- The old left neighbour's right link moves to the new node. -/
def relinkLeft (c : TreeCtx) (left new : Nat) : Except TreeCtx TreeCtx :=
  if left = btreeNull then .ok c
  else
    match c.stream.nodeLoad left with
    | none => .error c
    | some (b, blk) => .ok (c.store blk (putLe b 8 8 new))

/-- Leaf split of the combined entries `es` at `m`: the separator is the upper half's first key and
    stays in the leaf. -/
def splitLeaf (c : TreeCtx) (x : Target) (es : List Entry) (m new newBlk : Nat) :
    Except TreeCtx (TreeCtx × SearchKey) :=
  match leafEncode (es.take m), leafEncode (es.drop m), (es.drop m).head? with
  | some lo, some hi, some e =>
    let c := c.store newBlk (setLinks lo (le x.buf 0 8) x.off btreeNull)
    let c := c.store x.blk (setLinks hi new (le x.buf 8 8) (le x.buf 16 8))
    match c.relinkLeft (le x.buf 0 8) new with
    | .error c => .error c
    | .ok c => .ok (c, skEntry e x.push.numeric)
  | _, _, _ => .error c

/-- Inner split: entry `m` leaves the level, and its child becomes the left half's rightmost. -/
def splitInner (c : TreeCtx) (x : Target) (es : List Entry) (m newBlk : Nat) :
    Except TreeCtx (TreeCtx × SearchKey) :=
  match leafEncode (es.take m), leafEncode (es.drop (m + 1)), es[m]? with
  | some lo, some hi, some e =>
    let c := c.store newBlk (setLinks lo btreeNull btreeNull e.val)
    let c := c.store x.blk (setLinks hi btreeNull btreeNull (le x.buf 16 8))
    .ok (c, skEntry e x.push.numeric)
  | _, _, _ => .error c

/-- The split of a full node: the tree, the separator and the new left node. -/
def splitNode (c : TreeCtx) (atRoot isLeaf : Bool) (x : Target) :
    Except TreeCtx (TreeCtx × SearchKey × Nat) :=
  let es := entryInsertAt x.entries x.pos x.push x.pushV
  let m := splitPoint es
  if m = 0 then .error c
  else if atRoot ∧ c.depth ≥ 3 then .error c
  else
    match c.treeAllocNode with
    | .error c => .error c
    | .ok (c, new, newBlk) =>
      match (if isLeaf then c.splitLeaf x es m new newBlk else c.splitInner x es m newBlk) with
      | .error c => .error c
      | .ok (c, sep) => .ok (c, sep, new)

/-- New root: one entry for the left node, the old root behind the overflow link. -/
def growRoot (c : TreeCtx) (sep : SearchKey) (left old : Nat) : Except TreeCtx TreeCtx :=
  match c.treeAllocNode with
  | .error c => .error c
  | .ok (c, new, newBlk) =>
    match leafEncode [⟨sep.bytes, left⟩] with
    | none => .error c
    | some b =>
      let c := c.store newBlk (setLinks b btreeNull btreeNull old)
      let s := (c.stream.hdrPut 16 8 new).hdrPut 8 4 ((c.depth + 1) % 2 ^ 32)
      .ok { c with stream := s, root := new, depth := (c.depth + 1) % 2 ^ 32 }

/-- The loop of `Tree_Insert`, from the leaf to the root. -/
def insertLoop (above : List PathElem) (c : TreeCtx) (isLeaf : Bool) (x : Target) : Except TreeCtx TreeCtx :=
  if nodeFits x.entries x.push.bytes.length then c.insertHere x
  else
    match c.splitNode above.isEmpty isLeaf x with
    | .error c => .error c
    | .ok (c, sep, new) =>
      match above with
      | [] => c.growRoot sep new x.off
      | p :: above =>
        match c.stream.nodeLoad p.off with
        | none => .error c
        | some (b, blk) => insertLoop above c false ⟨p.off, blk, b, leafDecode b, p.idx, sep, new⟩

end TreeCtx

/-- The leaf a descent ended in, with the new entry after the keys not past it. -/
def Descent.target (d : Descent) (k : SearchKey) (value : Nat) : Target :=
  ⟨d.off, d.blk, d.buf, leafDecode d.buf, passed k (leafDecode d.buf), k, value⟩

/-- `Tree_Insert`: the stream afterwards; a refusal keeps what was stored so far. -/
def treeInsert (s : Stream) (room : Nat) (k : SearchKey) (value : Nat) : Except Stream Stream :=
  match treeOpen s room with
  | none => .error s
  | some c =>
    match treeDescend c k with
    | none => .error s
    | some d =>
      match TreeCtx.insertLoop d.above c true (d.target k value) with
      | .error c => .error c.stream
      | .ok c => .ok c.stream

/-- `Tree_Remove`. -/
def treeRemove (s : Stream) (k : SearchKey) (value : Nat) (matchValue : Bool) : Option Stream :=
  match treeOpen s 0 with
  | none => none
  | some c =>
    match treeLocate c k value matchValue with
    | none => none
    | some f =>
      match leafEncode ((leafDecode f.buf).eraseIdx f.idx) with
      | none => none
      | some b => some (s.leafStore f.blk (setLinks b (le f.buf 0 8) (le f.buf 8 8) (le f.buf 16 8)))

/-! ## The chain scan -/

/-- `Tree_It`, while it is valid. -/
structure TreeIt where
  node : Block
  keyIdx : Nat
  count : Nat
  keyPos : Nat
  lens : Nat
  vals : Nat
  hops : Nat
  entries : Nat

/-- The iterator at the start of a node. -/
def startNode (b : Block) (hops entries : Nat) : TreeIt :=
  ⟨b, 0, le b 24 2, 28, lensOff (le b 26 2), lensOff (le b 26 2) + 2 * le b 24 2, hops, entries⟩

/-- Down the first children to the leftmost leaf, through `levels` nodes at most. -/
def leftmostFrom (s : Stream) : Nat → Nat → Option Block
  | 0, _ => none
  | levels + 1, off =>
    match s.streamRead off with
    | none => none
    | some b =>
      if le b 16 8 = btreeNull then some b
      else leftmostFrom s levels (le b (startNode b 0 0).vals 8)

/-- `Tree_Rewind`. -/
def treeRewind (s : Stream) : Option TreeIt :=
  match s.streamRead 0 with
  | none => none
  | some hdr =>
    if le hdr 0 4 ≠ btreeMagic then none
    else (leftmostFrom s 8 (le hdr 16 8)).map fun b => startNode b 0 0

/-- Right-link hops and entries after which a scan gives up. -/
def maxHops : Nat := 10000
def maxEntries : Nat := 100000

/-- Over exhausted and empty nodes, `hops` of them at most. -/
def skipEmpty (s : Stream) (hops : Nat) (it : TreeIt) : Option TreeIt :=
  if it.keyIdx < it.count then some it
  else
    let right := le it.node 8 8
    if right = btreeNull then none
    else
      match hops with
      | 0 => none
      | hops + 1 =>
        match s.streamRead right with
        | none => none
        | some b => skipEmpty s hops (startNode b (it.hops + 1) it.entries)

/-- `Max_Path_Len`, the length of the buffers names are read into. -/
def maxPathLen : Nat := 255

/-- `Tree_Next`. -/
def treeNext (s : Stream) (it : TreeIt) : Option (Entry × TreeIt) :=
  match skipEmpty s (maxHops - it.hops) it with
  | none => none
  | some it =>
    let len := le it.node (it.lens + 2 * it.keyIdx) 2
    if it.entries + 1 > maxEntries then none
    else
      some (⟨slice it.node it.keyPos (min len maxPathLen), le it.node (it.vals + 8 * it.keyIdx) 8⟩,
        { it with entries := it.entries + 1, keyPos := it.keyPos + len, keyIdx := it.keyIdx + 1 })

/-- Every entry `Tree_Next` still answers; `n` bounds the calls. -/
def scanFrom (s : Stream) : Nat → TreeIt → List Entry
  | 0, _ => []
  | n + 1, it =>
    match treeNext s it with
    | none => []
    | some (e, it) => e :: scanFrom s n it

/-- A whole scan: `Tree_Rewind`, then `Tree_Next` until it answers False, which its own entry count
    makes it do. -/
def treeScan (s : Stream) : Option (List Entry) :=
  (treeRewind s).map fun it => scanFrom s (maxEntries + 1) it

/-- The component search of `Lookup`: the first entry of the scan with the name. -/
def lookupIn (s : Stream) (name : List UInt8) : Option Nat :=
  match treeScan s with
  | none => none
  | some es => (es.find? fun e => e.key = name).map Entry.val

end Aegir.Bfs
