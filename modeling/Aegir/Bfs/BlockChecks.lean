/-
  Access to the bytes of a block, with the index checks the program makes.

  A block has `Block_Size` bytes, and every index is checked: reading or writing past the end RAISES.  Here are the
  reads and the writes of single bytes, of little-endian words and of stretches of bytes, the copying loops in both
  directions, and what each of them does inside the block.
-/
import Aegir.Bfs.NodeLaws
import Aegir.Lib.Checked
import Aegir.Bfs.Tree

namespace Aegir.Bfs

open Aegir.Lib Function

/-- The index that failed its check: of a block, of a key row, of the scratch arrays or of the descent path. -/
inductive Raised where
  | byte (index : Nat)
  | row (index : Nat)
  | scratch (index : Nat)
  | path (index : Nat)
deriving DecidableEq

/-! ## Reading -/

variable {i n off pos dst src : Nat} {b b' : Block}

/-- `Node (I)`, `Cache_Data (Slot, I)`. -/
def byteAt (b : Block) (i : Nat) : Except Raised UInt8 := do
  inRange i blockSize (.byte i)
  pure (b i)

/-- `LE16`, `LE32`, `Buf_LE16`, `Buf_LE64`, `It_LE16`, `It_LE64`. -/
def leAt (b : Block) (off : Nat) : Nat → Except Raised Nat
  | 0 => pure 0
  | n + 1 => do
    let low ← byteAt b off
    let high ← leAt b (off + 1) n
    pure (low.toNat + 256 * high)

/-- `n` bytes from `pos` on. -/
def bytesAt (b : Block) (pos : Nat) : Nat → Except Raised (List UInt8)
  | 0 => pure []
  | n + 1 => do
    let x ← byteAt b pos
    let xs ← bytesAt b (pos + 1) n
    pure (x :: xs)

section

variable (b : Block)

theorem byteAt_decides (i : Nat) : Decides (byteAt b i) (i < blockSize) fun x => x = b i :=
  (inRange_decides i blockSize (Raised.byte i)).bind_yields fun _ _ => yields_ok rfl

theorem leAt_decides (off n : Nat) :
    Decides (leAt b off n) (n = 0 ∨ off + n ≤ blockSize) fun v => v = le b off n := by
  induction n generalizing off with
  | zero => exact decides_eq 0 (.inl rfl)
  | succ n ih =>
    have hrest : Decides (leAt b (off + 1) n >>= fun high => pure ((b off).toNat + 256 * high))
        (n = 0 ∨ off + 1 + n ≤ blockSize) fun v => v = le b off (n + 1) := by
      refine (ih (off + 1)).bind_yields fun high hhigh => ?_
      rw [hhigh]
      exact yields_ok rfl
    refine ((byteAt_decides b off).bind_eq fun _ => hrest).congr ?_
    omega

theorem leAt_yields (off n : Nat) (h : off + n ≤ blockSize) : Yields (leAt b off n) fun v => v = le b off n :=
  (leAt_decides b off n).1 (.inr h)

theorem leAt_word (off n : Nat) :
    Decides (leAt b off (n + 1)) (off + (n + 1) ≤ blockSize) fun v => v = le b off (n + 1) :=
  (leAt_decides b off (n + 1)).congr (by omega)

theorem bytesAt_decides (pos n : Nat) :
    Decides (bytesAt b pos n) (n = 0 ∨ pos + n ≤ blockSize) fun xs => xs = slice b pos n := by
  induction n generalizing pos with
  | zero => exact decides_eq [] (.inl rfl)
  | succ n ih =>
    have hrest : Decides (bytesAt b (pos + 1) n >>= fun xs => pure (b pos :: xs))
        (n = 0 ∨ pos + 1 + n ≤ blockSize) fun xs => xs = slice b pos (n + 1) := by
      refine (ih (pos + 1)).bind_yields fun xs hxs => ?_
      rw [hxs]
      exact yields_ok rfl
    refine ((byteAt_decides b pos).bind_eq fun _ => hrest).congr ?_
    omega

theorem byteAt_eq (h : i < blockSize) : byteAt b i = .ok (b i) := by
  obtain ⟨x, hx, hval⟩ := (byteAt_decides b i).1 h
  rw [hx, hval]

theorem leAt_eq (h : off + n ≤ blockSize) : leAt b off n = .ok (le b off n) := by
  obtain ⟨v, hv, hval⟩ := leAt_yields b off n h
  rw [hv, hval]

theorem bytesAt_eq (h : pos + n ≤ blockSize) : bytesAt b pos n = .ok (slice b pos n) := by
  obtain ⟨xs, hxs, hval⟩ := (bytesAt_decides b pos n).1 (.inr h)
  rw [hxs, hval]

end

theorem le_shift (h : ∀ i < n, b' (dst + i) = b (src + i)) : le b' dst n = le b src n := by
  induction n generalizing src dst with
  | zero => rfl
  | succ n ih =>
    have hfirst : b' dst = b src := h 0 (Nat.succ_pos n)
    have hrest : le b' (dst + 1) n = le b (src + 1) n := by
      refine ih fun i hi => ?_
      have hb := h (i + 1) (by omega)
      rw [Nat.add_right_comm dst, Nat.add_right_comm src]
      exact hb
    rw [le, le, hfirst, hrest]

theorem le_update (b : Block) (x : UInt8) (h : i < off ∨ off + n ≤ i) : le (update b i x) off n = le b off n :=
  le_congr _ _ _ _ fun j h1 h2 => update_of_ne (by omega) x b

theorem slice_shift (h : ∀ i < n, b' (dst + i) = b (src + i)) : slice b' dst n = slice b src n := by
  induction n generalizing src dst with
  | zero => rfl
  | succ n ih =>
    have hfirst : b' dst = b src := h 0 (Nat.succ_pos n)
    have hrest : slice b' (dst + 1) n = slice b (src + 1) n := by
      refine ih fun i hi => ?_
      have hb := h (i + 1) (by omega)
      rw [Nat.add_right_comm dst, Nat.add_right_comm src]
      exact hb
    rw [slice, slice, hfirst, hrest]

theorem slice_take (b : Block) (pos n m : Nat) : (slice b pos n).take m = slice b pos (min n m) := by
  induction n generalizing pos m with
  | zero => rw [Nat.zero_min, slice, List.take_nil]
  | succ n ih =>
    cases m with
    | zero => rfl
    | succ m => rw [Nat.add_min_add_right, slice, slice, List.take_succ_cons, ih]

/-! ## Writing -/

/-- `Cache_Data (Slot, I) := X`. -/
def setByte (b : Block) (i : Nat) (x : UInt8) : Except Raised Block := do
  inRange i blockSize (.byte i)
  pure (update b i x)

/-- `Put_LE16`, `Put_LE32`. -/
def setLe (b : Block) (off : Nat) : Nat → Nat → Except Raised Block
  | 0, _ => pure b
  | n + 1, v => do
    let b' ← setByte b off (UInt8.ofNat v)
    setLe b' (off + 1) n (v / 256)

/-- The bytes of a string, one after another. -/
def setBytes (b : Block) (pos : Nat) : List UInt8 → Except Raised Block
  | [] => pure b
  | x :: xs => do
    let b' ← setByte b pos x
    setBytes b' (pos + 1) xs

theorem setByte_eq (b : Block) (x : UInt8) (h : i < blockSize) : setByte b i x = .ok (update b i x) := by
  unfold setByte inRange
  rw [if_pos h]
  rfl

theorem setLe_eq (b : Block) (v : Nat) (h : off + n ≤ blockSize) : setLe b off n v = .ok (putLe b off n v) := by
  induction n generalizing b off v with
  | zero => rfl
  | succ n ih =>
    unfold setLe putLe
    rw [setByte_eq b _ (by omega)]
    exact ih _ _ (by omega)

theorem setBytes_eq (b : Block) (xs : List UInt8) (h : pos + xs.length ≤ blockSize) :
    setBytes b pos xs = .ok (putBytes b pos xs) := by
  induction xs generalizing b pos with
  | nil => rfl
  | cons x xs ih =>
    rw [List.length_cons] at h
    unfold setBytes putBytes
    rw [setByte_eq b _ (by omega)]
    exact ih _ (by omega)

/-! ## Moving -/

/-- `for I in .. loop B (Dst + I) := B (Src + I)`, upwards from `i` on. -/
def moveDown (b : Block) (src dst i : Nat) : Nat → Except Raised Block
  | 0 => pure b
  | n + 1 => do
    let x ← byteAt b (src + i)
    let b' ← setByte b (dst + i) x
    moveDown b' src dst (i + 1) n

/-- The same in reverse: from the last byte to the first. -/
def moveUp (b : Block) (src dst : Nat) : Nat → Except Raised Block
  | 0 => pure b
  | n + 1 => do
    let x ← byteAt b (src + n)
    let b' ← setByte b (dst + n) x
    moveUp b' src dst n

/-- The block with the `n` bytes at `src` also at `dst`. -/
def moved (b : Block) (src dst n : Nat) : Block := fun i => if dst ≤ i ∧ i < dst + n then b (src + (i - dst)) else b i

theorem moved_inside (b : Block) (src dst n : Nat) (h : i < n) : moved b src dst n (dst + i) = b (src + i) := by
  unfold moved
  rw [if_pos (by omega), Nat.add_sub_cancel_left]

theorem moved_outside (b : Block) (src dst n : Nat) (h : i < dst ∨ dst + n ≤ i) :
    moved b src dst n i = b i := if_neg (by omega)

/-- **Moving down** may overlap: a byte is read before it is overwritten. -/
theorem moveDown_eq (b : Block) (i n : Nat) (hle : dst ≤ src) (h : src + i + n ≤ blockSize) :
    moveDown b src dst i n = .ok (moved b (src + i) (dst + i) n) := by
  induction n generalizing b i with
  | zero =>
    refine congrArg Except.ok (funext fun j => ?_)
    exact (moved_outside b _ _ 0 (by omega)).symm
  | succ n ih =>
    unfold moveDown
    rw [byteAt_eq b (by omega)]
    show (setByte b (dst + i) (b (src + i)) >>= fun b' => moveDown b' src dst (i + 1) n) = _
    rw [setByte_eq b _ (by omega)]
    refine (ih _ (i + 1) (by omega)).trans (congrArg Except.ok (funext fun j => ?_))
    unfold moved
    rcases Nat.lt_trichotomy j (dst + i) with hj | hj | hj
    · rw [if_neg (by omega), if_neg (by omega), update_of_ne (by omega)]
    · rw [if_neg (by omega), if_pos (by omega), hj, update_self, Nat.sub_self]
      rfl
    · by_cases hin : j < dst + i + (n + 1)
      · have hsrc : src + (i + 1) + (j - (dst + (i + 1))) = src + i + (j - (dst + i)) := by omega
        rw [if_pos (by omega), if_pos (by omega), hsrc, update_of_ne (by omega)]
      · rw [if_neg (by omega), if_neg (by omega), update_of_ne (by omega)]

/-- **Moving up** in reverse may overlap. -/
theorem moveUp_eq (b : Block) (n : Nat) (hle : src ≤ dst) (h : dst + n ≤ blockSize) :
    moveUp b src dst n = .ok (moved b src dst n) := by
  induction n generalizing b with
  | zero =>
    refine congrArg Except.ok (funext fun j => ?_)
    exact (moved_outside b _ _ 0 (by omega)).symm
  | succ n ih =>
    unfold moveUp
    rw [byteAt_eq b (by omega)]
    show (setByte b (dst + n) (b (src + n)) >>= fun b' => moveUp b' src dst n) = _
    rw [setByte_eq b _ (by omega)]
    refine (ih _ (by omega)).trans (congrArg Except.ok (funext fun j => ?_))
    unfold moved
    rcases Nat.lt_trichotomy j (dst + n) with hj | hj | hj
    · by_cases hin : dst ≤ j
      · rw [if_pos (by omega), if_pos (by omega), update_of_ne (by omega)]
      · rw [if_neg (by omega), if_neg (by omega), update_of_ne (by omega)]
    · rw [if_neg (by omega), if_pos (by omega), hj, update_self, Nat.add_sub_cancel_left]
    · rw [if_neg (by omega), if_neg (by omega), update_of_ne (by omega)]

/-!
## The tree walks of BFS, with the index checks the program makes

These are the functions of `Node` and `Tree` once more, as the file server runs them: every index into a node,
into the rows of the entry scratch and into the descent path is CHECKED, and a check that fails raises.  The
loops are the source's own: `for I in 0 .. N - 1` over an unsigned word `N` wraps around when `N` is 0.
-/

/-- `Scratch_Cap`. -/
def scratchCap : Nat := leafMax + 1

/-- The rounds of `for I in 0 .. N - 1`, `N` an unsigned 64-bit word. -/
def rounds (n : Nat) : Nat := (n + (2 ^ 64 - 1)) % 2 ^ 64 + 1

/-! ## Key rows -/

/-- `n` bytes from `pos` on into a key row, from its column `k` on. -/
def rowAt (b : Block) (pos k : Nat) : Nat → Except Raised (List UInt8)
  | 0 => pure []
  | n + 1 => do
    let x ← byteAt b (pos + k)
    inRange k leafKeyMax (.row k)
    let xs ← rowAt b pos (k + 1) n
    pure (x :: xs)

/-! ## Decoding and comparing -/

/-- The loop of `Leaf_Decode` from the `i`-th entry on. -/
def decodeFromChecked (b : Block) (lens count : Nat) : Nat → Nat → Nat → Except Raised (List Entry)
  | 0, _, _ => pure []
  | left + 1, i, pos =>
    if i = leafMax then pure []
    else do
      let len ← leAt b (lens + 2 * i) 2
      if len > leafKeyMax then pure []
      else do
        inRange i scratchCap (.scratch i)
        let key ← rowAt b pos 0 (rounds len)
        let val ← leAt b (lens + 2 * count + 8 * i) 8
        let rest ← decodeFromChecked b lens count left (i + 1) (pos + len)
        pure (⟨key, val⟩ :: rest)

/-- `Leaf_Decode`. -/
def leafDecodeChecked (b : Block) : Except Raised (List Entry) := do
  let count ← leAt b 24 2
  let keyBytes ← leAt b 26 2
  decodeFromChecked b (lensOff keyBytes) count count 0 28

/-- The loop of `SK_Cmp` from column `j` on. -/
def cmpBytesChecked (j : Nat) : List UInt8 → List UInt8 → Except Raised Ordering
  | [], [] => pure .eq
  | [], _ :: _ => pure .lt
  | _ :: _, [] => pure .gt
  | a :: as, b :: bs => do
    inRange j leafKeyMax (.row j)
    if a < b then pure .lt else if b < a then pure .gt else cmpBytesChecked (j + 1) as bs

/-- `SK_Cmp` against the entry at index `i`. -/
def skCmpChecked (k : SearchKey) (i : Nat) (e : Entry) : Except Raised Ordering := do
  inRange i scratchCap (.scratch i)
  if k.numeric then pure (skCmp k e) else cmpBytesChecked 0 k.bytes e.key

/-- How many entries from the `i`-th on are not past the key. -/
def passedChecked (k : SearchKey) : Nat → List Entry → Except Raised Nat
  | _, [] => pure 0
  | i, e :: es => do
    let o ← skCmpChecked k i e
    if o = .lt then pure 0
    else do
      let n ← passedChecked k (i + 1) es
      pure (n + 1)

/-! ## Descent and search -/

/-- `Tree_Descend` from the node at `off`, the path written as far as `above`. -/
def descendFromChecked (s : Stream) (k : SearchKey) : Nat → Nat → List PathElem → Except Raised (Option Descent)
  | 0, _, _ => pure none
  | levels + 1, off, above =>
    match s.nodeLoad off with
    | none => pure none
    | some (b, blk) => do
      inRange above.length pathMax (.path above.length)
      let overflow ← leAt b 16 8
      if overflow = btreeNull then pure (some ⟨above, off, b, blk⟩)
      else do
        let es ← leafDecodeChecked b
        let idx ← passedChecked k 0 es
        match es[idx]? with
        | some e => do
          inRange idx scratchCap (.scratch idx)
          descendFromChecked s k levels e.val (⟨off, idx⟩ :: above)
        | none => descendFromChecked s k levels overflow (⟨off, idx⟩ :: above)

/-- The search of `Tree_Locate` in one leaf, from its `i`-th entry on. -/
def findEntryChecked (k : SearchKey) (value : Nat) (matchValue : Bool) : Nat → List Entry → Except Raised (Option Nat)
  | _, [] => pure none
  | i, e :: es => do
    let o ← skCmpChecked k i e
    if o = .lt then pure none
    else if o = .eq ∧ (matchValue = false ∨ e.val = value) then pure (some i)
    else findEntryChecked k value matchValue (i + 1) es

/-- The leaf at hand, then its left neighbours. -/
def locateFromChecked (s : Stream) (k : SearchKey) (value : Nat) (matchValue : Bool) (steps : Nat) (buf : Block)
    (blk : Nat) : Except Raised (Option Located) := do
  let es ← leafDecodeChecked buf
  let found ← findEntryChecked k value matchValue 0 es
  match found with
  | some i => pure (some ⟨buf, blk, i⟩)
  | none => do
    let left ← leAt buf 0 8
    if left = btreeNull then pure none
    else
      match steps with
      | 0 => pure none
      | steps + 1 =>
        match s.nodeLoad left with
        | none => pure none
        | some (pbuf, pblk) => do
          let pes ← leafDecodeChecked pbuf
          match pes.getLast? with
          | none => pure none
          | some e => do
            let o ← skCmpChecked k (pes.length - 1) e
            if o ≠ .eq then pure none else locateFromChecked s k value matchValue steps pbuf pblk

/-- `Tree_Locate`. -/
def treeLocateChecked (c : TreeCtx) (k : SearchKey) (value : Nat) (matchValue : Bool) :
    Except Raised (Option Located) := do
  let d ← descendFromChecked c.stream k pathMax c.root []
  match d with
  | none => pure none
  | some d => locateFromChecked c.stream k value matchValue locateSteps d.buf d.blk

/-! ## The chain scan -/

/-- `Load_Node`: the iterator at the start of a node. -/
def startNodeChecked (b : Block) (hops entries : Nat) : Except Raised TreeIt := do
  let count ← leAt b 24 2
  let keyBytes ← leAt b 26 2
  pure ⟨b, 0, count, 28, lensOff keyBytes, lensOff keyBytes + 2 * count, hops, entries⟩

/-- Down the first children to the leftmost leaf, through `levels` nodes at most. -/
def leftmostFromChecked (s : Stream) (hops entries : Nat) : Nat → Nat → Except Raised (Option TreeIt)
  | 0, _ => pure none
  | levels + 1, off =>
    match s.streamRead off with
    | none => pure none
    | some b => do
      let it ← startNodeChecked b hops entries
      let overflow ← leAt it.node 16 8
      if overflow = btreeNull then pure (some it)
      else do
        let child ← leAt it.node it.vals 8
        leftmostFromChecked s hops entries levels child

/-- `Depth > 8`. -/
def rewindLevels : Nat := 8

/-- `Tree_Rewind`; the iterator keeps the counts of its loop guards. -/
def treeRewindChecked (s : Stream) (hops entries : Nat) : Except Raised (Option TreeIt) :=
  match s.streamRead 0 with
  | none => pure none
  | some hdr => do
    let magic ← leAt hdr 0 4
    if magic ≠ btreeMagic then pure none
    else do
      let root ← leAt hdr 16 8
      leftmostFromChecked s hops entries rewindLevels root

/-- Over exhausted and empty nodes, `hops` of them at most. -/
def skipEmptyChecked (s : Stream) (hops : Nat) (it : TreeIt) : Except Raised (Option TreeIt) :=
  if it.keyIdx < it.count then pure (some it)
  else do
    let right ← leAt it.node 8 8
    if right = btreeNull then pure none
    else
      match hops with
      | 0 => pure none
      | hops + 1 =>
        match s.streamRead right with
        | none => pure none
        | some b => do
          let it' ← startNodeChecked b (it.hops + 1) it.entries
          skipEmptyChecked s hops it'

/-- An entry `Tree_Next` answers (the name: `Name (1 .. Name_Len)`), the rounds its copying loop made, and the
    iterator behind it. -/
structure Yielded where
  name : List UInt8
  block : Nat
  copied : Nat
  it : TreeIt

/-- The iterator behind the entry it stands at. -/
def TreeIt.advance (it : TreeIt) : TreeIt :=
  { it with entries := it.entries + 1, keyPos := it.keyPos + le it.node (it.lens + 2 * it.keyIdx) 2,
            keyIdx := it.keyIdx + 1 }

/-- `Tree_Next` into a buffer of `nameLen` characters.  Rounds past the end of the buffer do nothing. -/
def treeNextChecked (s : Stream) (nameLen : Nat) (it : TreeIt) : Except Raised (Option Yielded) := do
  let stand ← skipEmptyChecked s (maxHops - it.hops) it
  match stand with
  | none => pure none
  | some it => do
    let len ← leAt it.node (it.lens + 2 * it.keyIdx) 2
    if it.entries + 1 > maxEntries then pure none
    else do
      let block ← leAt it.node (it.vals + 8 * it.keyIdx) 8
      let name ← bytesAt it.node it.keyPos (min (rounds len) nameLen)
      pure (some ⟨name.take (min len nameLen), block, rounds len, it.advance⟩)

/-- `while Tree_Next loop`: `calls` of them at most. -/
def scanChecked (s : Stream) (nameLen : Nat) : Nat → TreeIt → Except Raised (List Yielded)
  | 0, _ => pure []
  | calls + 1, it => do
    let answer ← treeNextChecked s nameLen it
    match answer with
    | none => pure []
    | some y => do
      let rest ← scanChecked s nameLen calls y.it
      pure (y :: rest)

end Aegir.Bfs
