/-
  Split virtqueues, as the drivers see them.

  Three flat arrays: the descriptor table and the used ring as 32-bit words, the available ring as 16-bit
  words.  Descriptor `i` has its words at `4 i ..`: address low and high, length, and `flags | next << 16`.
  ONE half-word serves both lists: `next` links the free descriptors, and under `Desc_F_Next` a chain.

  Every access is checked; `none` is a check that fails.  The rings' counters are 16 bits wide.
-/
import Mathlib.Algebra.Group.Nat.Defs
import Mathlib.Logic.Function.Basic
import Aegir.Lib.Pool
import Mathlib.Data.List.Basic

open Function (update)

namespace Aegir.Virtio

def descFNext : UInt16 := 1
def descFWrite : UInt16 := 2
def noDesc : UInt16 := 0xFFFF

/-- `Queue`, with the contents of its three areas. -/
structure Queue where
  desc : Nat → UInt32
  avail : Nat → UInt16
  used : Nat → UInt32
  num : UInt16
  freeHead : UInt16
  freeCount : UInt16
  availIdx : UInt16
  usedIdx : UInt16

/-! ## The overlays -/

/-- An element of a `U32_Array`. -/
def wordAt (m : Nat → UInt32) (i : UInt16) : Option UInt32 := if i ≤ 1023 then some (m i.toNat) else none

def setWord (m : Nat → UInt32) (i : UInt16) (w : UInt32) : Option (Nat → UInt32) :=
  if i ≤ 1023 then some (update m i.toNat w) else none

/-- A store to a `U16_Array`. -/
def setHalf (m : Nat → UInt16) (i h : UInt16) : Option (Nat → UInt16) :=
  if i ≤ 2047 then some (update m i.toNat h) else none

/-- The conversion `U16 (W)`. -/
def toU16 (w : UInt32) : Option UInt16 := if w ≤ 0xFFFF then some w.toUInt16 else none

/-- `for I in 0 .. N - 1 loop`. -/
def forRange {σ : Type} (f : UInt16 → σ → Option σ) : Nat → σ → Option σ
  | 0, s => some s
  | n + 1, s => (forRange f n s).bind (f (UInt16.ofNat n))

/-! ## The fourth word of a descriptor -/

/-- `U16 (W / 16#1_0000#)`. -/
def nextHalf (w : UInt32) : UInt16 := (w / 0x10000).toUInt16

/-- Whether `Desc_F_Next` is set. -/
def hasNext (w : UInt32) : Bool := w &&& descFNext.toUInt32 ≠ 0

/-- `U32 (N) * 16#1_0000#`. -/
def linkWord (n : UInt16) : UInt32 := n.toUInt32 * 0x10000

namespace Queue

/-! ## Descriptors -/

/-- The words of descriptor `I` in `Initialize`. -/
def initDesc (num i : UInt16) (m : Nat → UInt32) : Option (Nat → UInt32) := do
  let m ← setWord m (i * 4) 0
  let m ← setWord m (i * 4 + 1) 0
  let m ← setWord m (i * 4 + 2) 0
  setWord m (i * 4 + 3) (linkWord (if i = num - 1 then noDesc else i + 1))

/-- `Initialize`, whatever the areas hold. -/
def initializeQueue (desc : Nat → UInt32) (avail : Nat → UInt16) (used : Nat → UInt32) (num : UInt16) :
    Option Queue := do
  let desc ← forRange (initDesc num) ((num - 1).toNat + 1) desc
  let used ← forRange (fun i m => setWord m i 0) ((2 * num + 1).toNat + 1) used
  let avail ← forRange (fun i m => setHalf m i 0) ((num + 1).toNat + 1) avail
  some ⟨desc, avail, used, num, if num = 0 then noDesc else 0, num, 0, 0⟩

/-- `Alloc`. -/
def alloc (q : Queue) : Option (UInt16 × Queue) :=
  if q.freeHead = noDesc then some (noDesc, q)
  else do
    let w ← wordAt q.desc (q.freeHead * 4 + 3)
    let desc ← setWord q.desc (q.freeHead * 4 + 3) (linkWord noDesc)
    some (q.freeHead, { q with desc := desc, freeHead := nextHalf w, freeCount := q.freeCount - 1 })

/-- The walk of `Free` from `cursor` on; `fuel` is the number of turns it may take. -/
def freeLoop : Nat → Queue → UInt16 → Option Queue
  | 0, _, _ => none
  | fuel + 1, q, cursor =>
    if cursor = noDesc then some q
    else do
      let w ← wordAt q.desc (cursor * 4 + 3)
      let desc ← setWord q.desc (cursor * 4 + 3) (linkWord q.freeHead)
      freeLoop fuel { q with desc := desc, freeHead := cursor, freeCount := q.freeCount + 1 }
        (if hasNext w then nextHalf w else noDesc)

/-- `Free`: a walk of 2^16 descriptors would have come back to one it has freed. -/
def free (q : Queue) (head : UInt16) : Option Queue := freeLoop (2 ^ 16) q head

/-- `Set_Buffer`. -/
def setBuffer (q : Queue) (index : UInt16) (pa : UInt64) (length : UInt32) (deviceWrites : Bool) :
    Option Queue := do
  let desc ← setWord q.desc (index * 4) pa.toUInt32
  let desc ← setWord desc (index * 4 + 1) (pa >>> 32).toUInt32
  let desc ← setWord desc (index * 4 + 2) length
  let desc ← setWord desc (index * 4 + 3) (if deviceWrites then descFWrite.toUInt32 else 0)
  some { q with desc := desc }

/-- `Chain_Next`. -/
def chainNext (q : Queue) (index next : UInt16) : Option Queue := do
  let w ← wordAt q.desc (index * 4 + 3)
  let desc ← setWord q.desc (index * 4 + 3) ((w &&& 0xFFFF) ||| descFNext.toUInt32 ||| linkWord next)
  some { q with desc := desc }

/-! ## The rings -/

/-- `Submit`. -/
def submit (q : Queue) (head : UInt16) : Option Queue :=
  if q.num = 0 then none
  else do
    let avail ← setHalf q.avail (2 + q.availIdx % q.num) head
    let avail ← setHalf avail 1 (q.availIdx + 1)
    some { q with avail := avail, availIdx := q.availIdx + 1 }

/-- `Has_Completed`. -/
def hasCompleted (q : Queue) : Bool := nextHalf (q.used 0) ≠ q.usedIdx

/-- `Pop`. -/
def pop (q : Queue) : Option ((UInt16 × UInt32) × Queue) :=
  if q.num = 0 then none
  else do
    let id ← wordAt q.used (1 + q.usedIdx % q.num * 2)
    let head ← toU16 id
    let length ← wordAt q.used (2 + q.usedIdx % q.num * 2)
    some ((head, length), { q with usedIdx := q.usedIdx + 1 })

end Queue

/-!
## A driver, a virtqueue and its device, running in any order

The driver holds some chains and has LENT the others to the device by submitting them.  Only chains that it
holds are written to, extended, submitted or freed.  The device reads heads from the available ring when it
likes, and returns what it has read in any order.

`submitted`, `taken`, `returned` and `popped` are histories, for the statements alone; so are the lists of
chains, which no function of the queue reads.
-/

open Aegir.Lib

/-- The device: its two counters, and the heads it has read and not returned. -/
structure Device where
  seen : UInt16
  usedIdx : UInt16
  inFlight : List UInt16

structure World where
  q : Queue
  dev : Device
  held : List (List UInt16)
  lent : List (List UInt16)
  submitted : List UInt16
  taken : List UInt16
  returned : List (UInt16 × UInt32)
  popped : List (UInt16 × UInt32)

namespace World

/-- A queue just initialized, with its device. -/
def start (q : Queue) : World := ⟨q, ⟨0, 0, []⟩, [], [], [], [], [], []⟩

/-- The head at the device's place in the available ring. -/
def nextHead (w : World) : UInt16 := w.q.avail (2 + (w.dev.seen % w.q.num).toNat)

/-- The used ring once the device has returned `head` with `length`; the flags of the ring are its own. -/
def usedAfter (w : World) (head flags : UInt16) (length : UInt32) : Nat → UInt32 :=
  let slot := (w.dev.usedIdx % w.q.num).toNat
  update
    (update (update w.q.used (1 + slot * 2) head.toUInt32) (2 + slot * 2) length)
    0 (flags.toUInt32 ||| linkWord (w.dev.usedIdx + 1))

end World

/-- One step of the driver or of the device. -/
inductive Step : World → World → Prop
  | alloc (w : World) {d : UInt16} {q : Queue} (hcall : w.q.alloc = some (d, q)) (hsome : d ≠ noDesc) :
      Step w { w with q := q, held := [d] :: w.held }
  | exhausted (w : World) {q : Queue} (hcall : w.q.alloc = some (noDesc, q)) : Step w { w with q := q }
  | setBuffer (w : World) (pa : UInt64) (length : UInt32) (deviceWrites : Bool) {p s : List UInt16} {i : UInt16}
      {rest : List (List UInt16)} {q : Queue} (hheld : w.held.Perm ((p ++ i :: s) :: rest))
      (hcall : w.q.setBuffer i pa length deviceWrites = some q) :
      Step w { w with q := q, held := (p ++ [i]) :: (orNone s ++ rest) }
  | chainNext (w : World) {p r s : List UInt16} {i x : UInt16} {old rest : List (List UInt16)} {q : Queue}
      (hheld : w.held.Perm ((p ++ i :: s) :: old)) (hnext : (orNone s ++ old).Perm ((x :: r) :: rest))
      (hcall : w.q.chainNext i x = some q) : Step w { w with q := q, held := (p ++ i :: x :: r) :: rest }
  | submit (w : World) {h : UInt16} {t : List UInt16} {rest : List (List UInt16)} {q : Queue}
      (hheld : w.held.Perm ((h :: t) :: rest)) (hcall : w.q.submit h = some q) :
      Step w { w with q := q, held := rest, lent := (h :: t) :: w.lent, submitted := w.submitted ++ [h] }
  | pop (w : World) {h : UInt16} {t : List UInt16} {length : UInt32} {rest : List (List UInt16)} {q : Queue}
      (hready : w.q.hasCompleted = true) (hcall : w.q.pop = some ((h, length), q))
      (hlent : w.lent.Perm ((h :: t) :: rest)) :
      Step w { w with q := q, held := (h :: t) :: w.held, lent := rest, popped := w.popped ++ [(h, length)] }
  | free (w : World) {h : UInt16} {t : List UInt16} {rest : List (List UInt16)} {q : Queue}
      (hheld : w.held.Perm ((h :: t) :: rest)) (hcall : w.q.free h = some q) :
      Step w { w with q := q, held := rest }
  | devTake (w : World) (hmore : w.q.avail 1 ≠ w.dev.seen) :
      Step w
        { w with
          dev := { w.dev with seen := w.dev.seen + 1, inFlight := w.nextHead :: w.dev.inFlight }
          taken := w.taken ++ [w.nextHead] }
  | devReturn (w : World) (flags : UInt16) (length : UInt32) {h : UInt16} {rest : List UInt16}
      (hflight : w.dev.inFlight.Perm (h :: rest)) :
      Step w
        { w with
          q := { w.q with used := w.usedAfter h flags length }
          dev := { w.dev with usedIdx := w.dev.usedIdx + 1, inFlight := rest }
          returned := w.returned ++ [(h, length)] }

/-- Any number of steps. -/
inductive Run : World → World → Prop
  | refl (w : World) : Run w w
  | step {w w' w'' : World} (hrun : Run w w') (hstep : Step w' w'') : Run w w''

end Aegir.Virtio
