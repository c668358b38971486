/-
  The file server's tables, and how it reads a request.

  The program is compiled with its checks on, and nothing catches what they raise: a failed check ENDS it, as
  does an access to memory that is not mapped, a call that is never answered, or `Process_Exit`.  So every
  handler is a computation that ends in a `Stop` or in a result.  Strings are arrays from 1 on with a fixed
  size and a length of their own.
-/
import Aegir.Fileserver.Pipes
import Aegir.Lib.CharWords
import Aegir.Lib.Checked
import Aegir.Lib.FixedStrings

namespace Aegir.Fileserver

open Aegir.Lib

/-! ## Checks -/

inductive Stop
  /-- A range, index or overflow check failed. -/
  | check
  /-- Memory was touched that is not mapped. -/
  | fault
  /-- A call is never answered. -/
  | silence
  /-- The program left its loop. -/
  | exit
deriving DecidableEq

abbrev Act := Except Stop

/-- The smaller of two words, as a number. -/
theorem toNat_min (a b : UInt64) : (min a b).toNat = min a.toNat b.toNat := by
  show (if a ≤ b then a else b).toNat = _
  split_ifs with hab
  · rw [Nat.min_eq_left (UInt64.le_iff_toNat_le.mp hab)]
  · rw [Nat.min_eq_right (by rw [UInt64.le_iff_toNat_le] at hab; omega)]

def demand (p : Prop) [Decidable p] (stop : Stop) : Act Unit := if p then .ok () else .error stop

/-- The conversion `Natural (V)`. -/
def natural (v : UInt64) : Act Nat := if v.toNat < 2 ^ 31 then .ok v.toNat else .error .check

/-- A slice of a string of size `cap`. -/
def sliceOf (cap : Nat) (f : Nat → UInt8) (lo hi : Nat) : Act (List UInt8) :=
  match slice cap f lo hi with
  | some chars => .ok chars
  | none => .error .check

/-- A string and its length. -/
structure Text where
  chars : Nat → UInt8
  len : Nat

def Text.empty : Text := ⟨fun _ => 0, 0⟩

/-- `Len := Len + 1; S (Len) := C`. -/
def Text.put (cap : Nat) (t : Text) (c : UInt8) : Act Text :=
  if t.len < cap then .ok ⟨Function.update t.chars (t.len + 1) c, t.len + 1⟩ else .error .check

/-- A text from a list, as `S (1 .. N) := L` leaves it. -/
def Text.ofList (chars : List UInt8) : Text := ⟨overlay (fun _ => 0) 1 chars, chars.length⟩

/-! ## Constants -/

def maxName : Nat := 32
def maxPath : Nat := 255
def maxExpanded : Nat := 288
def pageSize : Nat := 4096
def fileWinPages : UInt64 := 64
def pathInBuf : UInt64 := 0xFFFFFFFFFFFFFFFF
def colon : UInt8 := 58
def slash : UInt8 := 47

def statusOutOfRange : Nat := 4

/-! ## Tables -/

/-- `Volume_Entry`. -/
structure Volume where
  valid : Bool
  device : Nat → UInt8
  devLen : Nat
  label : Nat → UInt8
  labLen : Nat
  caseInsensitive : Bool
  isBlock : Bool
  blkEp : UInt64
  blkSize : UInt64
  isFs : Bool
  fsEp : UInt64
  isPipe : Bool
  isNil : Bool

/-- A slot as the arena gives it out. -/
def Volume.zero : Volume :=
  ⟨false, fun _ => 0, 0, fun _ => 0, 0, false, false, 0, 0, false, 0, false, false⟩

/-- `Assign_Entry`. -/
structure Assign where
  valid : Bool
  name : Nat → UInt8
  nameLen : Nat
  target : Nat → UInt8
  tgtLen : Nat

/-- `File_Entry`. -/
structure FileEntry where
  valid : Bool
  handle : UInt64
  name : Nat → UInt8
  nameLen : Nat
  size : UInt64
  leadKnown : Bool
  leadIn : UInt64

def FileEntry.zero : FileEntry := ⟨false, 0, fun _ => 0, 0, 0, false, 0⟩

/-- `Forward_Cap_Entry`. -/
structure ForwardCap where
  volume : Nat
  badge : UInt64
  cap : UInt64
deriving DecidableEq

/-- The variables of the server; `server` has the pipes and `Names_Done`. -/
structure Vfs where
  files : List FileEntry
  volumes : List Volume
  assigns : List Assign
  forwards : List ForwardCap
  server : Server
  blkBuf : Bool
  stagePage : Bool

/-- A file of the boot image: where it begins in its first page, and its size. -/
structure BootFile where
  leadIn : UInt64
  size : UInt64
  lead_lt : leadIn.toNat < pageSize
  size_lt : size.toNat < 2 ^ 62

/-- A memory object of the kernel: how many pages it has. -/
structure MemoryObject where
  pages : UInt64
  pages_pos : 0 < pages.toNat
  pages_le : pages.toNat ≤ 256

/-- What the handle that came with a name stands for.  A client sends the cap that it likes, and nothing looks
    at its kind. -/
inductive FileCap
  | boot (b : BootFile)
  | memory (m : MemoryObject)
  | other

/-- `Boot_File_Size`: of a cap that is no boot file it answers the failure word, which is stored as a size. -/
def bootFileSize : FileCap → UInt64
  | .boot b => b.size
  | _ => 0xFFFFFFFFFFFFFFFF

/-- The lead-in that a successful `Mem_Map_File` gives: for a memory object the kernel leaves the register as
    it was, and there was the HANDLE. -/
def FileCap.leadIn (handle : UInt64) : FileCap → Option UInt64
  | .boot b => some b.leadIn
  | .memory _ => some handle
  | .other => none

/-- The pages that `Mem_Map_File` counts. -/
def FileCap.pages : FileCap → Option UInt64
  | .boot b => some ((b.leadIn + b.size + 4096 - 1) / 4096)
  | .memory m => some m.pages
  | .other => none

/-- Does the kernel take a range of the file?  The sum is not guarded: it may come round. -/
def FileCap.accepts (c : FileCap) (offset length : UInt64) : Bool :=
  match c.pages with
  | some n => decide (length ≠ 0 ∧ offset + length ≤ n * 4096)
  | none => false

/-- The page with this number has memory behind it; of a page that the object does not have the kernel maps
    physical address 0. -/
def FileCap.Backs (c : FileCap) (page : Nat) : Prop := ∀ n, c.pages = some n → page < n.toNat

instance (c : FileCap) (page : Nat) : Decidable (c.Backs page) :=
  match h : c.pages with
  | some n => decidable_of_iff (page < n.toNat) (by simp [FileCap.Backs, h])
  | none => isTrue (by simp [FileCap.Backs, h])

/-! ## Requests -/

/-- A message: label, six words, badge, the handles of the caps that came with it (0 for none), and the
    handle of its reply cap. -/
structure Request where
  label : UInt64
  words : Words
  badge : UInt64
  caps : Nat → UInt64
  reply : Nat

inductive Call
  | never
  | failed
  | replied (words : Words)

/-- What the kernel, the clients' memory and the drivers answer while one request is served. -/
structure Kernel where
  /-- The receive, and the reply. -/
  received : Bool
  replied : Bool
  /-- The path page of the client. -/
  pathMap : Bool
  pathPage : Nat → UInt8
  /-- The buffer of the client. -/
  bufMap : Bool
  buffer : Nat → UInt8
  /-- The arena has room. -/
  room : Bool
  /-- The server's own path page, and its page for block drivers. -/
  stagePage : Bool
  blkBuf : Bool
  /-- `Cap_Mint`. -/
  mint : Option UInt64
  /-- `Mem_Map_File` and `Mem_Unmap`, for the first page and for each pass of a read: has the kernel the
      tables that it needs? -/
  leadMap : Bool
  passMap : Nat → Bool
  passUnmap : Nat → Bool
  /-- The calls, in their order. -/
  call : Nat → Call

/-- `Message.Words (I)`. -/
def wordAt (words : Words) (i : Nat) : Act UInt64 := if i ≤ 5 then .ok (words i) else .error .check

/-- `Unpack_Char`. -/
def unpackChar (words : Words) (first pos : Nat) : Act UInt8 :=
  if first + pos / 8 ≤ 5 then .ok (charAt words first pos) else .error .check

/-- The loop of `Name_Of` over the next `n` positions. -/
def nameFrom (words : Words) (first cap : Nat) : Nat → Nat → Text → Act (Option Text)
  | 0, _, t => .ok (some t)
  | n + 1, pos, t => do
    let c ← unpackChar words first pos
    if c = 0 then .ok (some t)
    else if t.len ≥ cap then .ok none
    else
      let t ← t.put cap c
      nameFrom words first cap n (pos + 1) t

/-- `Name_Of`, for a string of size `cap`. -/
def nameOf (words : Words) (first last cap : Nat) : Act (Option Text) := do
  let t ← nameFrom words first cap ((last - first + 1) * 8) 0 Text.empty
  .ok (t.filter fun t => t.len > 0)

/-- The loop of `Fetch_Path` over the page. -/
def pageFrom (page : Nat → UInt8) : Nat → Nat → Text → Act Text
  | 0, _, t => .ok t
  | n + 1, i, t =>
    if page i = 0 then .ok t
    else if t.len ≥ maxPath then .ok { t with len := 0 }
    else do
      let t ← t.put maxPath (page i)
      pageFrom page n (i + 1) t

/-- `Fetch_Path`. -/
def fetchPath (r : Request) (k : Kernel) (first last slot : Nat) : Act (Option Text) := do
  let w ← wordAt r.words first
  if w ≠ pathInBuf then nameOf r.words first last maxPath
  else if r.caps slot = 0 ∨ k.pathMap = false then .ok none
  else
    let t ← pageFrom k.pathPage (maxPath + 1) 0 Text.empty
    .ok (if t.len > 0 then some t else none)

/-! ## Names -/

/-- `To_Lower`. -/
def toLower (c : UInt8) : UInt8 := if 65 ≤ c ∧ c ≤ 90 then c + 32 else c

/-- `Match`, for a text in a string of size `cap`. -/
def matchText (cap : Nat) (t : Nat → UInt8) (len : Nat) (against : List UInt8) (insensitive : Bool) :
    Act Bool :=
  if len ≠ against.length then .ok false
  else do
    let text ← sliceOf cap t 1 len
    .ok (if insensitive then text.map toLower = against.map toLower else text = against)

/-- The position of the first colon, 0 for none. -/
def colonOf (t : Text) : Nat := ((List.range' 1 t.len).find? fun i => t.chars i = colon).getD 0

/-- The loop of `Resolve_Volume` over the volumes from number `v` on. -/
def volumeFrom (t : Nat → UInt8) (len : Nat) : Nat → List Volume → Act Nat
  | _, [] => .ok 0
  | v, x :: xs =>
    if x.valid then do
      let device ← sliceOf 16 x.device 1 x.devLen
      if ← matchText maxExpanded t len device true then .ok v
      else
        let label ← sliceOf 16 x.label 1 x.labLen
        if ← matchText maxExpanded t len label true then .ok v else volumeFrom t len (v + 1) xs
    else volumeFrom t len (v + 1) xs

/-- `Resolve_Volume`: the number of the volume, 0 for none, and where the path begins. -/
def resolveVolume (volumes : List Volume) (t : Text) : Act (Nat × Nat) := do
  demand (t.len ≤ maxExpanded) .check
  let mark := colonOf t
  if mark = 0 then .ok (0, 1)
  else
    let v ← volumeFrom t.chars (mark - 1) 1 volumes
    .ok (if v = 0 then (0, 1) else (v, mark + 1))

/-- The loop of `Find_Assign`. -/
def assignFrom (front : List UInt8) : Nat → List Assign → Act Nat
  | _, [] => .ok 0
  | i, a :: as =>
    if a.valid then do
      if ← matchText 16 a.name a.nameLen front true then .ok i else assignFrom front (i + 1) as
    else assignFrom front (i + 1) as

/-- `Find_Assign`. -/
def findAssign (assigns : List Assign) (front : List UInt8) : Act Nat := assignFrom front 1 assigns

/-- The substitution of `Resolve_Full`: the target, a separator where there is none, and the rest.  The
    result is `none` where it does not fit. -/
def substitute (a : Assign) (t : Text) (mark : Nat) : Act (Option Text) := do
  demand (1 ≤ a.tgtLen ∧ a.tgtLen ≤ 48) .check
  let needSep := mark + 1 ≤ t.len ∧ a.target a.tgtLen ≠ colon ∧ a.target a.tgtLen ≠ slash
  let add := a.tgtLen + (if needSep then 1 else 0) + (t.len - mark)
  if add > maxExpanded then .ok none
  else
    let target ← sliceOf 48 a.target 1 a.tgtLen
    demand (target.length ≤ maxExpanded) .check
    let front := if needSep then target ++ [slash] else target
    demand (front.length ≤ maxExpanded) .check
    let rest ← sliceOf maxExpanded t.chars (mark + 1) t.len
    demand (front.length + rest.length ≤ maxExpanded) .check
    .ok (some (Text.ofList (front ++ rest)))

/-- A name that was looked up: the volume (0 for none), the expanded name and where its path begins. -/
structure Resolved where
  volume : Nat
  name : Text
  pos : Nat

/-- The loop of `Resolve_Full`. -/
def resolveFrom (volumes : List Volume) (assigns : List Assign) : Nat → Text → Act Resolved
  | 0, t => .ok ⟨0, t, 1⟩
  | depth + 1, t => do
    let r ← resolveVolume volumes t
    if r.1 ≠ 0 then .ok ⟨r.1, t, r.2⟩
    else
      let mark := colonOf t
      if mark = 0 then .ok ⟨0, t, 1⟩
      else
        let front ← sliceOf maxExpanded t.chars 1 (mark - 1)
        let i ← findAssign assigns front
        if i = 0 then .ok ⟨0, t, 1⟩
        else
          match assigns[i - 1]? with
          | none => .error .check
          | some a =>
            match ← substitute a t mark with
            | none => .ok ⟨0, { t with len := 0 }, 1⟩
            | some t => resolveFrom volumes assigns depth t

/-- `Resolve_Full`. -/
def resolveFull (volumes : List Volume) (assigns : List Assign) (t : Text) : Act Resolved :=
  if t.len = 0 ∨ t.len > maxExpanded then .ok ⟨0, Text.empty, 1⟩
  else do
    demand (t.len ≤ maxPath) .check
    resolveFrom volumes assigns 4 t

end Aegir.Fileserver
