/-
  How a PATH crosses the virtual file system.

  The client library qualifies the name, the file server finds the volume and forwards what stands behind the
  colon to the volume's driver.  On each hop the path travels INLINE in a range of message words or, where it
  does not fit, in a page whose cap is sent along, with a marker in the first word.  Each program decides for
  itself, and the drivers read 32 characters, whatever the range was.

  A `Setting` holds what a request does not say: the file server's tables, and what the kernel answers.
-/
import Aegir.Lib.CharWords
import Aegir.Lib.LittleEndian

namespace Aegir.Vfs

open Aegir.Lib Function

/-- Characters are bytes. -/
abbrev Path := List UInt8

def colon : UInt8 := 58
def slash : UInt8 := 47

/-- `Files.Max_Path`. -/
def maxPath : Nat := 255

/-- `Max_Expanded`. -/
def maxExpanded : Nat := 288

/-- `Files.Path_In_Buf`. -/
def pathInBuf : UInt64 := 0xFFFFFFFFFFFFFFFF

/-- `Buf_Bytes`. -/
def bufBytes : UInt64 := 32768

/-- The words of a message, and what lies behind the caps in its slots. -/
structure Message where
  words : Words
  caps : Nat → Option Bytes

def noCaps : Nat → Option Bytes := fun _ => none

/-! ## The operations -/

inductive Op
  | stat
  | open
  | read
  | write
  | delete
  | truncate
  | mkdir
  | rmdir
  | readDir
  | rename
deriving DecidableEq

/-- The words that carry the path, and the cap slot for its page. -/
structure Wire where
  first : Nat
  last : Nat
  slot : Nat

/-- The client library and the file server use these numbers, in both directions; the drivers use `first`
    and `slot`. -/
def Op.wire : Op → Wire
  | .read | .write => ⟨2, 5, 1⟩
  | .readDir => ⟨0, 3, 0⟩
  | .rename => ⟨0, 5, 1⟩
  | .stat | .open | .delete | .truncate | .mkdir | .rmdir => ⟨0, 5, 0⟩

/-- How many characters the words carry. -/
def Wire.room (w : Wire) : Nat := (w.last + 1 - w.first) * 8

/-- `target` is the new name of a rename, `offset` and `length` are for reads and writes,
    `index` for a directory read. -/
structure Request where
  op : Op
  name : Path
  target : Path
  offset : UInt64
  length : UInt64
  index : UInt64

/-! ## The file server's tables -/

structure Volume where
  valid : Bool
  device : Path
  label : Path
  isFS : Bool

/-- The target is a text: it comes out of message words or of the mount table, up to a NUL. -/
structure Assign where
  valid : Bool
  name : Path
  target : Path
  target_text : ∀ c ∈ target, c ≠ 0

inductive Driver
  | fat
  | bfs
deriving DecidableEq

structure Setting where
  defaultVolume : Path
  defaultVolume_text : ∀ c ∈ defaultVolume, c ≠ 0
  volumes : List Volume
  assigns : List Assign
  namesDone : Bool
  driver : Driver
  /-- The client has a file-server cap, its buffer and its path page. -/
  bound : Bool
  clientBuf : Option Bytes
  clientPage : Option Bytes
  /-- The file server can map the client's path page and the client's buffer, and has its own path page. -/
  serverMap : Bool
  serverBuf : Bool
  serverPage : Option Bytes
  /-- The driver is mounted, and can map a path page and the client's buffer. -/
  mounted : Bool
  driverMap : Bool
  driverBuf : Bool
  /-- The two calls. -/
  reached : Bool
  forwarded : Bool
  /-- What the message buffer held before. -/
  stale : Words

/-! ## Resolving a name -/

/-- `To_Lower`. -/
def toLower (c : UInt8) : UInt8 := if 65 ≤ c ∧ c ≤ 90 then c + 32 else c

/-- `Match`, case-insensitive. -/
def matchText (text against : Path) : Bool := text.map toLower == against.map toLower

/-- The text in front of the first colon and the text behind it. -/
def splitColon (name : Path) : Option (Path × Path) :=
  match name.span (· ≠ colon) with
  | (_, []) => none
  | (front, _ :: rest) => some (front, rest)

/-- `Resolve_Volume`: the number of the volume, and the name behind its colon. -/
def resolveVolume (volumes : List Volume) (name : Path) : Option (Nat × Path) :=
  match splitColon name with
  | none => none
  | some (front, rest) =>
    match volumes.findIdx? fun v => v.valid && (matchText front v.device || matchText front v.label) with
    | none => none
    | some v => some (v, rest)

/-- `Find_Assign`. -/
def findAssign (assigns : List Assign) (front : Path) : Option Assign :=
  assigns.find? fun a => a.valid && matchText a.name front

/-- What a name becomes when its prefix stands for `target`. -/
def expand (target rest : Path) : Path :=
  if rest ≠ [] ∧ target.getLast? ≠ some colon ∧ target.getLast? ≠ some slash then target ++ slash :: rest
  else target ++ rest

/-- The loop of `Resolve_Full`. -/
def resolveFrom (volumes : List Volume) (assigns : List Assign) : Nat → Path → Option (Nat × Path)
  | 0, _ => none
  | depth + 1, name =>
    match resolveVolume volumes name with
    | some r => some r
    | none =>
      match splitColon name with
      | none => none
      | some (front, rest) =>
        match findAssign assigns front with
        | none => none
        | some a =>
          if (expand a.target rest).length > maxExpanded then none
          else resolveFrom volumes assigns depth (expand a.target rest)

/-- `Resolve_Full`. -/
def resolveFull (s : Setting) (name : Path) : Option (Nat × Path) :=
  if name.length = 0 ∨ name.length > maxExpanded then none
  else resolveFrom s.volumes s.assigns 4 name

/-! ## Senders -/

/-- A text and a NUL, written over what a page held. -/
def textPage (old : Bytes) (text : Path) : Bytes := fun i =>
  if i < text.length then text.getD i 0 else if i = text.length then 0 else old i

/-- A path is staged: inline when it fits, else in the page, with the marker. -/
def stage (m : Message) (path : Path) (w : Wire) (page : Option Bytes) : Option Message :=
  if path.length ≤ w.room then some { m with words := pack m.words w.first w.last path }
  else if path.length > maxPath then none
  else
    match page with
    | none => none
    | some old =>
      some
        { words := update (clearWords m.words w.first w.last) w.first pathInBuf
          caps := update m.caps w.slot (some (textPage old path)) }

/-- `Qualified`; `[]` where the result does not fit. -/
def qualified (defaultVolume name : Path) : Path :=
  if colon ∈ name then if name.length ≤ maxPath then name else []
  else if defaultVolume.length + 1 + name.length ≤ maxPath then defaultVolume ++ colon :: name
  else []

/-- `Stage_Path` of the client library. -/
def stagePath (m : Message) (q : Path) (w : Wire) (page : Option Bytes) : Option Message := stage m q w page

/-- `Stage_Forward_Path` of the file server. -/
def stageForwardPath (m : Message) (path : Path) (w : Wire) (page : Option Bytes) : Option Message :=
  stage m path w page

/-- A request that fails a check is answered with an error. -/
def check (p : Prop) [Decidable p] : Option Unit := if p then some () else none

/-! ## The client library -/

/-- The message that the client library sends. -/
def clientMessage (s : Setting) (r : Request) : Option Message := do
  let q := qualified s.defaultVolume r.name
  check (s.bound = true ∧ q ≠ [])
  match r.op with
  | .read | .write =>
    check (r.length ≠ 0)
    let buf ← s.clientBuf
    stagePath
      { words := update (update s.stale 0 r.offset) 1 (min r.length bufBytes)
        caps := update noCaps 0 (some buf) } q r.op.wire s.clientPage
  | .readDir =>
    let m ← stagePath ⟨fun _ => 0, noCaps⟩ q r.op.wire s.clientPage
    some { m with words := update m.words 4 r.index }
  | .rename =>
    let qt := qualified s.defaultVolume r.target
    check (qt ≠ [])
    let buf ← s.clientBuf
    stagePath ⟨s.stale, update noCaps 0 (some (textPage buf qt))⟩ q r.op.wire s.clientPage
  | .stat | .open | .delete | .truncate | .mkdir | .rmdir =>
    stagePath ⟨s.stale, noCaps⟩ q r.op.wire s.clientPage

/-! ## The file server -/

/-- `Name_Of`. -/
def nameOf (words : Words) (w : Wire) : Option Path :=
  let text := untilNul (charAt words w.first) w.room
  if text.length > maxPath ∨ text = [] then none else some text

/-- `Fetch_Path`. -/
def fetchPath (m : Message) (w : Wire) (mapped : Bool) : Option Path :=
  if m.words w.first ≠ pathInBuf then nameOf m.words w
  else
    match m.caps w.slot with
    | none => none
    | some page =>
      if mapped = false then none
      else
        let text := untilNul page (maxPath + 1)
        if text.length > maxPath ∨ text = [] then none else some text

/-- The volume of a name, if a driver serves it. -/
def resolveFS (s : Setting) (name : Path) : Option (Nat × Path) := do
  let r ← resolveFull s name
  let volume ← s.volumes[r.1]?
  check (volume.isFS = true)
  some r

/-- The path in the rename buffer becomes the bare one: 256 bytes are written. -/
def rewriteTo (old : Bytes) (path : Path) : Bytes := fun i => if i ≤ maxPath then path.getD i 0 else old i

/-- The message that the file server forwards to the driver; the words that a handler sets to 0 before are
    among those that staging clears. -/
def serverMessage (s : Setting) (op : Op) (m : Message) : Option Message := do
  check (s.namesDone = true)
  match op with
  | .read | .write =>
    let buf ← m.caps 0
    check (m.words 1 ≠ 0)
    let name ← fetchPath m op.wire s.serverMap
    let r ← resolveFS s name
    stageForwardPath ⟨m.words, update noCaps 0 (some buf)⟩ r.2 op.wire s.serverPage
  | .rename =>
    let buf ← m.caps 0
    let name ← fetchPath m op.wire s.serverMap
    let r ← resolveFS s name
    check (s.serverBuf = true)
    let r' ← resolveFull s (untilNul buf maxPath)
    check (r'.1 = r.1)
    stageForwardPath ⟨m.words, update noCaps 0 (some (rewriteTo buf r'.2))⟩ r.2 op.wire
      s.serverPage
  | .readDir =>
    let name ← fetchPath m op.wire s.serverMap
    let r ← resolveFS s name
    let m' ← stageForwardPath ⟨m.words, noCaps⟩ r.2 op.wire s.serverPage
    some { m' with words := update m'.words 4 (m.words 4) }
  | .stat | .open | .delete | .truncate | .mkdir | .rmdir =>
    let name ← fetchPath m op.wire s.serverMap
    let r ← resolveFS s name
    stageForwardPath ⟨m.words, noCaps⟩ r.2 op.wire s.serverPage

/-! ## The drivers -/

/-- A character as the drivers take it: the word divided by a power of two, the low byte. -/
def driverChar (words : Words) (first pos : Nat) : UInt8 :=
  (words (first + pos / 8) / (1 <<< UInt64.ofNat (8 * (pos % 8))) &&& 0xFF).toUInt8

/-- `Path_Of`, in both drivers.  `none` is a failed index check: a page without NUL in its first 256
    bytes. -/
def pathOf (m : Message) (w : Wire) (mapped : Bool) : Option Path :=
  if m.words w.first ≠ pathInBuf then some (untilNul (driverChar m.words w.first) 32)
  else
    match m.caps w.slot with
    | none => some []
    | some page =>
      if mapped = false then some []
      else
        let text := untilNul page (maxPath + 1)
        if text.length > maxPath then none else some text

/-- The path, and for a rename the new one, with which the driver runs its operation; `none` where it
    answers with an error before.  BFS has no mount check here. -/
def driverPaths (s : Setting) (op : Op) (m : Message) : Option (Path × Option Path) := do
  check (s.driver = .fat → s.mounted = true)
  match op with
  | .read | .write =>
    let _ ← m.caps 0
    check (m.words 1 ≠ 0)
    let path ← pathOf m op.wire s.driverMap
    check (path ≠ [])
    some (path, none)
  | .rename =>
    let buf ← m.caps 0
    let path ← pathOf m op.wire s.driverMap
    check (path ≠ [])
    check (s.driverBuf = true)
    let target := untilNul buf maxPath
    check (target ≠ [])
    some (path, some target)
  | .readDir =>
    let path ← pathOf m op.wire s.driverMap
    some (path, none)
  | .stat | .open | .delete | .truncate | .mkdir | .rmdir =>
    let path ← pathOf m op.wire s.driverMap
    check (path ≠ [])
    some (path, none)

/-- **The whole way**: what the driver runs its operation with, `none` where the request is answered with
    an error and no driver operation runs. -/
def cross (s : Setting) (r : Request) : Option (Path × Option Path) := do
  let m ← clientMessage s r
  check (s.reached = true)
  let m' ← serverMessage s r.op m
  check (s.forwarded = true)
  driverPaths s r.op m'

end Aegir.Vfs
