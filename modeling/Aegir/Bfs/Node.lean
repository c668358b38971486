/-
  The nodes of a BFS B+tree: keys, and how a node lies in its block.

  A node is one block: LEFT, RIGHT and OVERFLOW links, the number of entries and the bytes of their keys, the
  keys one after another, their 16-bit lengths from the next multiple of 8 on, and the 64-bit values.  The
  overflow link is `Btree_Null` exactly in a leaf.  Keys are STRINGS or, in the size and last_modified indices,
  eight little-endian bytes compared as a NUMBER.
-/
import Aegir.Bfs.Volume

namespace Aegir.Bfs

open Aegir.Lib

/-- `Block_Size`. -/
def blockSize : Nat := 4096

/-- `Btree_Null`. -/
def btreeNull : Nat := 0xFFFFFFFFFFFFFFFF

/-- `Btree_Magic`. -/
def btreeMagic : Nat := 0x69F6C2E8

/-- `Leaf_Max`. -/
def leafMax : Nat := blockSize / 8

/-- `Leaf_Key_Max`. -/
def leafKeyMax : Nat := 64

/-- One entry of a node: the key's bytes and the value. -/
structure Entry where
  key : List UInt8
  val : Nat
deriving DecidableEq

/-! ## Search keys -/

/-- `Search_Key`; the bytes are the first `Len` of the row. -/
structure SearchKey where
  bytes : List UInt8
  num : Nat
  numeric : Bool
deriving DecidableEq

/-- Bytes as a little-endian number (`Entry_Num`, for a key of eight). -/
def keyNum : List UInt8 → Nat
  | [] => 0
  | b :: bs => b.toNat + 256 * keyNum bs

/-- The `n` low bytes of a number, lowest first. -/
def leBytes : Nat → Nat → List UInt8
  | 0, _ => []
  | n + 1, v => UInt8.ofNat v :: leBytes n (v / 256)

/-- `SK_Str`. -/
def skStr (name : List UInt8) : SearchKey := ⟨name, 0, false⟩

/-- `SK_Int`. -/
def skInt (v : UInt64) : SearchKey := ⟨leBytes 8 v.toNat, v.toNat, true⟩

/-- `SK_Entry`. -/
def skEntry (e : Entry) (numeric : Bool) : SearchKey :=
  ⟨e.key, if numeric ∧ e.key.length = 8 then keyNum e.key else 0, numeric⟩

/-- String order: bytewise, the shorter first on an equal prefix. -/
def cmpBytes : List UInt8 → List UInt8 → Ordering
  | [], [] => .eq
  | [], _ :: _ => .lt
  | _ :: _, [] => .gt
  | a :: as, b :: bs => if a < b then .lt else if b < a then .gt else cmpBytes as bs

/-- `SK_Cmp`: the search key against an entry's key. -/
def skCmp (k : SearchKey) (e : Entry) : Ordering :=
  if k.numeric then
    -- a malformed entry sorts first
    if e.key.length ≠ 8 then .gt else compare k.num (keyNum e.key)
  else cmpBytes k.bytes e.key

/-- How many leading entries are not past the key: `while Pos < E.N and then SK_Cmp (K, E, Pos) >= 0`. -/
def passed (k : SearchKey) : List Entry → Nat
  | [] => 0
  | e :: es => if skCmp k e = .lt then 0 else passed k es + 1

/-! ## The codec -/

/-- The bytes of a buffer from `pos` on. -/
def slice (b : Block) (pos : Nat) : Nat → List UInt8
  | 0 => []
  | n + 1 => b pos :: slice b (pos + 1) n

def putBytes (b : Block) (pos : Nat) : List UInt8 → Block
  | [] => b
  | x :: xs => putBytes (Function.update b pos x) (pos + 1) xs

/-- `(28 + K + 7) and not 7`: where the key lengths begin. -/
def lensOff (keyBytes : Nat) : Nat := (28 + keyBytes + 7) / 8 * 8

def keyTotal (es : List Entry) : Nat := (es.map fun e => e.key.length).sum

/-- `Entries_Bytes`: the encoded size of entries as a node. -/
def nodeBytes (es : List Entry) : Nat := lensOff (keyTotal es) + 10 * es.length

/-- The entries from the `i`-th on, the next key at `pos`.  The loop stops at `Leaf_Max` entries and
    at a key longer than `Leaf_Key_Max`. -/
def decodeFrom (b : Block) (lens count : Nat) : Nat → Nat → Nat → List Entry
  | 0, _, _ => []
  | left + 1, i, pos =>
    if i = leafMax then []
    else
      let len := le b (lens + 2 * i) 2
      if len > leafKeyMax then []
      else ⟨slice b pos len, le b (lens + 2 * count + 8 * i) 8⟩ ::
        decodeFrom b lens count left (i + 1) (pos + len)

/-- `Leaf_Decode`. -/
def leafDecode (b : Block) : List Entry :=
  decodeFrom b (lensOff (le b 26 2)) (le b 24 2) (le b 24 2) 0 28

/-- The keys and their lengths, from the `i`-th on. -/
def putKeys (lens : Nat) (b : Block) : Nat → Nat → List Entry → Block
  | _, _, [] => b
  | i, pos, e :: es =>
    putKeys lens (putLe (putBytes b pos e.key) (lens + 2 * i) 2 e.key.length) (i + 1)
      (pos + e.key.length) es

def putVals (b : Block) : Nat → List Entry → Block
  | _, [] => b
  | pos, e :: es => putVals (putLe b pos 8 e.val) (pos + 8) es

/-- `Set_Links`. -/
def setLinks (b : Block) (left right overflow : Nat) : Block :=
  putLe (putLe (putLe b 0 8 left) 8 8 right) 16 8 overflow

/-- `Leaf_Encode`: refused when the node overflows its block. -/
def leafEncode (es : List Entry) : Option Block :=
  if nodeBytes es > blockSize then none
  else
    let lens := lensOff (keyTotal es)
    let b := setLinks (fun _ => 0) btreeNull btreeNull btreeNull
    let b := putLe (putLe b 24 2 es.length) 26 2 (keyTotal es)
    some (putVals (putKeys lens b 0 28 es) (lens + 2 * es.length) es)

/-! ## Room in a node -/

/-- `Node_Fits`: one more entry with `addLen` key bytes. -/
def nodeFits (es : List Entry) (addLen : Nat) : Bool :=
  es.length ≠ leafMax ∧ lensOff (addLen + keyTotal es) + 10 * (es.length + 1) ≤ blockSize

/-- The greedy half-node fill of `Split_Point`. -/
def greedyFill (c : List Entry) : Nat → Nat → Nat
  | 0, m => m
  | fuel + 1, m =>
    if m < c.length - 1 ∧ nodeBytes (c.take m) < blockSize / 2 then greedyFill c fuel (m + 1) else m

/-- Both halves encode. -/
def LegalSplit (c : List Entry) (m : Nat) : Prop :=
  m ≤ leafMax ∧ c.length - m ≤ leafMax ∧ nodeBytes (c.take m) ≤ blockSize ∧
    nodeBytes (c.drop m) ≤ blockSize

instance (c : List Entry) (m : Nat) : Decidable (LegalSplit c m) :=
  inferInstanceAs (Decidable (_ ∧ _ ∧ _ ∧ _))

/-- `Split_Point`: how many entries go to the new left node; 0 when no split is legal. -/
def splitPoint (c : List Entry) : Nat :=
  let m := greedyFill c c.length 1
  if LegalSplit c m then m
  else ((List.range' 1 (c.length - 1)).find? fun try' => LegalSplit c try').getD 0

/-- `Entry_Insert_At`. -/
def entryInsertAt (es : List Entry) (pos : Nat) (k : SearchKey) (v : Nat) : List Entry :=
  es.take pos ++ ⟨k.bytes, v⟩ :: es.drop pos

end Aegir.Bfs
