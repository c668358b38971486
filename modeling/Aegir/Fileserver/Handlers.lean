/-
  The handlers of the file server, and its loop.

  Requests for PIPE: go to the model of the pipes, whose rings are indexed modulo their size.  For the other
  volumes what matters here is which checks a handler makes, which calls it waits for, and what it leaves in
  the tables; the words that travel to a driver are the subject of `Vfs`.
-/
import Aegir.Fileserver.Tables

namespace Aegir.Fileserver

open Aegir.Lib

/-- How a handler answers: `Reply2`, words passed on, or the pipes' own way, which may be later. -/
inductive Answer
  | status (status : Nat) (value : UInt64)
  | words (words : Words)
  | pipe

abbrev Handled := Act (Vfs × Answer)

def refuse (s : Vfs) (status : Nat) : Handled := .ok (s, .status status 0)

namespace Vfs

variable (s : Vfs) (k : Kernel) (r : Request)

/-! ## Mounts -/

/-- The loop that unpacks `n` characters into a string of size `cap`. -/
def fill (words : Words) (first off cap : Nat) : Nat → Nat → (Nat → UInt8) → Act (Nat → UInt8)
  | 0, _, f => .ok f
  | n + 1, pos, f => do
    let c ← unpackChar words first (off + pos)
    demand (pos + 1 ≤ cap) .check
    fill words first off cap n (pos + 1) (Function.update f (pos + 1) c)

/-- `Alloc_Volume`. -/
def allocVolume (volumes : List Volume) (room : Bool) : Option (Nat × List Volume) :=
  match volumes.findIdx? fun v => !v.valid with
  | some i => some (i, volumes)
  | none => if room then some (volumes.length, volumes ++ [.zero]) else none

/-- What `Handle_Mount`, `Handle_Add_Block` and `Handle_Add_FS` begin with: the lengths are converted in the
    declarations, then checked; the volume gets its names.  `none` is a refusal. -/
def mountVolume (needsCap : Bool) :
    Act (Option (Nat × Volume × List Volume)) := do
  let devLen ← natural (r.words 0)
  let labLen ← natural (r.words 1)
  if devLen = 0 ∨ devLen > 16 ∨ labLen = 0 ∨ labLen > 16 ∨ devLen + labLen > 24 ∨
      needsCap = true ∧ r.caps 0 = 0 then .ok none
  else
    match allocVolume s.volumes k.room with
    | none => .ok none
    | some (i, volumes) =>
      match volumes[i]? with
      | none => .error .check
      | some v =>
        let device ← fill r.words 3 0 16 devLen 0 v.device
        let label ← fill r.words 3 devLen 16 labLen 0 v.label
        let v :=
          { v with
            valid := true, device := device, devLen := devLen, label := label, labLen := labLen
            caseInsensitive := decide (r.words 2 ≠ 0) }
        .ok (some (i, v, volumes))

def setVolume (volumes : List Volume) (i : Nat) (v : Volume) : Vfs :=
  { s with volumes := volumes.set i v }

/-- `Handle_Mount`. -/
def handleMount : Handled := do
  match ← mountVolume s k r false with
  | none => refuse s statusBadArgs
  | some (i, v, volumes) => .ok (s.setVolume volumes i v, .status statusOk 0)

/-- `IPC_Call`, the `n`-th of a request. -/
def call (k : Kernel) (n : Nat) : Act (Option Words) :=
  match k.call n with
  | .never => .error .silence
  | .failed => .ok none
  | .replied words => .ok (some words)

/-- `Handle_Add_Block`. -/
def handleAddBlock : Handled := do
  match ← mountVolume s k r true with
  | none => refuse s statusBadArgs
  | some (i, v, volumes) =>
    let info ← call k 0
    let size :=
      match info with
      | some w => if w 0 = 0 then w 1 * 512 else 0
      | none => 0
    .ok (s.setVolume volumes i { v with isBlock := true, blkEp := r.caps 0, blkSize := size },
      .status statusOk 0)

/-! ## Assigns -/

/-- `S := (others => NUL); S (1 .. L'Length) := L`. -/
def store (cap : Nat) (chars : List UInt8) : Act (Nat → UInt8) :=
  match assign cap (fun _ => 0) 1 chars.length chars with
  | some f => .ok f
  | none => .error .check

/-- The loop of `Set_Assign`: the entry of that name, and the first free one. -/
def slotFrom (name : List UInt8) : Nat → Nat → List Assign → Act (Nat × Nat)
  | _, free, [] => .ok (0, free)
  | i, free, a :: as =>
    if a.valid then do
      if ← matchText 16 a.name a.nameLen name true then .ok (i, free) else slotFrom name (i + 1) free as
    else slotFrom name (i + 1) (if free = 0 then i else free) as

/-- `Set_Assign`. -/
def setAssign (assigns : List Assign) (room : Bool) (name target : List UInt8) : Act (Option (List Assign)) :=
  if name.length = 0 ∨ name.length > 16 ∨ target.length = 0 ∨ target.length > 48 then .ok none
  else do
    let (found, free) ← slotFrom name 1 0 assigns
    let text ← store 16 name
    let goal ← store 48 target
    let a : Assign := ⟨true, text, name.length, goal, target.length⟩
    let slot := if found ≠ 0 then found else free
    if slot ≠ 0 then .ok (some (assigns.set (slot - 1) a))
    else if room then .ok (some (assigns ++ [a]))
    else .ok none

/-- `Set_Assign` where the result does not matter. -/
def seedAssign (assigns : List Assign) (room : Bool) (name target : List UInt8) : Act (List Assign) := do
  let i ← findAssign assigns name
  if i ≠ 0 then .ok assigns
  else
    let set ← setAssign assigns room name target
    .ok (set.getD assigns)

def nameSys : List UInt8 := [115, 121, 115]
def nameC : List UInt8 := [67]
def nameEnv : List UInt8 := [69, 78, 86]
/-- `:C` and `:Prefs/Env`. -/
def tailC : List UInt8 := [58, 67]
def tailEnv : List UInt8 := [58, 80, 114, 101, 102, 115, 47, 69, 110, 118]

/-- The session assigns of the system volume, put together in a string of size 24. -/
def seedAssigns (assigns : List Assign) (room : Bool) (v : Volume) : Act (List Assign) := do
  let label ← sliceOf 16 v.label 1 v.labLen
  if ← matchText 3 (Text.ofList nameSys).chars 3 label true then
    demand (v.labLen + tailC.length ≤ 24) .check
    let assigns ← seedAssign assigns room nameC (label ++ tailC)
    demand (v.labLen + tailEnv.length ≤ 24) .check
    seedAssign assigns room nameEnv (label ++ tailEnv)
  else .ok assigns

/-- `Handle_Add_FS`. -/
def handleAddFs : Handled := do
  match ← mountVolume s k r true with
  | none => refuse s statusBadArgs
  | some (i, v, volumes) =>
    let v := { v with isFs := true, fsEp := r.caps 0 }
    let assigns ← seedAssigns s.assigns k.room v
    .ok ({ s.setVolume volumes i v with assigns := assigns }, .status statusOk 0)

/-- The target loop of `Handle_Assign`. -/
def targetFrom (words : Words) : Nat → Nat → Text → Act Text
  | 0, _, t => .ok t
  | n + 1, pos, t => do
    let c ← unpackChar words 2 pos
    if c = 0 then .ok t
    else
      let t ← t.put 32 c
      targetFrom words n (pos + 1) t

/-- `Handle_Assign`. -/
def handleAssign : Handled := do
  match ← nameOf r.words 0 1 16 with
  | none => refuse s statusBadArgs
  | some t =>
    let name ← sliceOf 16 t.chars 1 t.len
    if colon ∈ name then refuse s statusBadArgs
    else
      let target ← targetFrom r.words 32 0 Text.empty
      if target.len = 0 then
        let i ← findAssign s.assigns name
        if i = 0 then refuse s statusNotFound
        else
          .ok ({ s with assigns := s.assigns.modify (i - 1) fun a => { a with valid := false } },
            .status statusOk 0)
      else
        let goal ← sliceOf 32 target.chars 1 target.len
        match ← setAssign s.assigns k.room name goal with
        | some assigns => .ok ({ s with assigns := assigns }, .status statusOk 0)
        | none => refuse s statusBadArgs

/-- The characters go into a string of size `cap` until it has `stop` of them. -/
def putUpTo (cap stop : Nat) : List UInt8 → Text → Act Text
  | [], t => .ok t
  | c :: cs, t =>
    if t.len ≥ stop then .ok t
    else do
      let t ← t.put cap c
      putUpTo cap stop cs t

/-- The loop that packs a string into the words from `first` on, with the check of the last index. -/
def packWords (first cap : Nat) (t : Text) : Act Words := do
  let chars ← sliceOf cap t.chars 1 t.len
  demand (first + (t.len - 1) / 8 ≤ 5) .check
  .ok (pack (fun _ => 0) first 5 chars)

/-- `Handle_Assign_List`. -/
def handleAssignList : Handled :=
  match (s.assigns.filter fun a => a.valid)[(r.words 0).toNat]? with
  | none => refuse s statusNotFound
  | some a => do
    let name ← sliceOf 16 a.name 1 a.nameLen
    let line ← putUpTo 40 38 name Text.empty
    let line ← line.put 40 58
    let line ← line.put 40 32
    let target ← sliceOf 48 a.target 1 a.tgtLen
    let line ← putUpTo 40 40 target line
    let words ← packWords 1 40 line
    .ok (s, .words words)

/-! ## Volumes and files -/

def volKindBoot : UInt64 := 0
def volKindBlock : UInt64 := 1
def volKindFs : UInt64 := 2
def volKindVirtual : UInt64 := 3

/-- `Handle_Volume_List`. -/
def handleVolumeList : Handled :=
  match (s.volumes.filter fun v => v.valid)[(r.words 0).toNat]? with
  | none => refuse s statusNotFound
  | some v => do
    let kind :=
      if v.isFs then volKindFs
      else if v.isBlock then volKindBlock
      else if v.isPipe ∨ v.isNil then volKindVirtual
      else volKindBoot
    let name ← if v.labLen > 0 then sliceOf 16 v.label 1 v.labLen else sliceOf 16 v.device 1 v.devLen
    let words ← packWords 2 16 (Text.ofList name)
    .ok (s, .words (Function.update words 1 kind))

/-- `Alloc_File`. -/
def allocFile (files : List FileEntry) (room : Bool) : Option (Nat × List FileEntry) :=
  match files.findIdx? fun f => !f.valid with
  | some i => some (i, files)
  | none => if room then some (files.length, files ++ [.zero]) else none

/-- `Handle_Set_Name`; `file` says what the handle of a cap stands for. -/
def handleSetName (file : UInt64 → FileCap) (s : Vfs) (k : Kernel) (r : Request) : Handled := do
  let len ← natural (r.words 1)
  if len = 0 ∨ len > maxName ∨ r.caps 0 = 0 then refuse s statusBadArgs
  else
    match allocFile s.files k.room with
    | none => refuse s statusBadArgs
    | some (i, files) =>
      match files[i]? with
      | none => .error .check
      | some f =>
        let name ← fill r.words 2 0 maxName len 0 f.name
        let f :=
          { f with
            valid := true, handle := r.caps 0, nameLen := len, name := name
            size := bootFileSize (file (r.caps 0)) }
        .ok ({ s with files := files.set i f }, .status statusOk 0)

/-- The loop of `Find`. -/
def fileFrom (path : List UInt8) (insensitive : Bool) : Nat → List FileEntry → Act Nat
  | _, [] => .ok 0
  | i, f :: fs =>
    if f.valid then do
      let _ ← sliceOf maxName f.name 1 f.nameLen
      if ← matchText maxName f.name f.nameLen path insensitive then .ok i
      else fileFrom path insensitive (i + 1) fs
    else fileFrom path insensitive (i + 1) fs

/-- `Find`. -/
def findFile (files : List FileEntry) (path : List UInt8) (insensitive : Bool) : Act Nat :=
  fileFrom path insensitive 1 files

/-- The loop of `Handle_Sync`. -/
def syncFrom (k : Kernel) : Nat → List Volume → Nat → Act Nat
  | _, [], status => .ok status
  | n, v :: vs, status =>
    if v.valid ∧ v.isFs then do
      match ← call k n with
      | none => syncFrom k (n + 1) vs statusNotFound
      | some w => syncFrom k (n + 1) vs (if w 0 = 0 then status else statusNotFound)
    else syncFrom k n vs status

/-- `Handle_Sync`. -/
def handleSync : Handled := do
  let status ← syncFrom k 0 s.volumes statusOk
  .ok (s, .status status 0)

/-! ## Names of requests -/

/-- What a request's path stands for. -/
inductive Place
  | refused
  | unknown
  | found (volume : Volume) (number : Nat) (name : Text) (pos : Nat)

/-- `Fetch_Path` and `Resolve_Full`, as the handlers of paths begin. -/
def locate (first last slot : Nat) : Act Place := do
  match ← fetchPath r k first last slot with
  | none => .ok .refused
  | some t =>
    let x ← resolveFull s.volumes s.assigns t
    if x.volume = 0 then .ok .unknown
    else
      match s.volumes[x.volume - 1]? with
      | none => .error .check
      | some v => .ok (.found v x.volume x.name x.pos)

/-- The slice of the path, `Exp (Pos .. E_Len)`. -/
def pathAt (name : Text) (pos : Nat) : Act (List UInt8) := sliceOf maxExpanded name.chars pos name.len

/-- `Stage_Forward_Path`; `none` where the path cannot travel. -/
def stageForwardPath (name : Text) (pos first last : Nat) : Act (Option Vfs) := do
  demand (pos ≤ name.len + 1) .check
  let _ ← pathAt name pos
  demand (last ≤ 5) .check
  let len := name.len + 1 - pos
  if len ≤ (last - first + 1) * 8 then .ok (some s)
  else if len > maxPath then .ok none
  else if s.stagePage = false ∧ k.stagePage = false then .ok none
  else
    demand (len < pageSize) .fault
    .ok (some { s with stagePage := true })

def nameProc : List UInt8 := [80, 114, 111, 99]

/-- `Is_Proc_Volume`. -/
def isProcVolume (v : Volume) : Act Bool :=
  if v.labLen = 4 then do
    let label ← sliceOf 16 v.label 1 4
    matchText 4 (Text.ofList nameProc).chars 4 label true
  else .ok false

/-- The endpoint that `Forward_To_FS` calls, if there is one: for the Proc volume a cap with the caller's
    badge, cached or new. -/
def forwardEndpoint (proc : Bool) (v : Volume) (number : Nat) (badge : UInt64) :
    Option Vfs :=
  if proc then
    match s.forwards.find? fun c => c.volume = number ∧ c.badge = badge with
    | some _ => some s
    | none =>
      match k.mint with
      | none => none
      | some cap => if k.room then some { s with forwards := s.forwards ++ [⟨number, badge, cap⟩] } else none
  else if v.fsEp = 0xFFFFFFFFFFFFFFFF then none
  else some s

inductive Forwarded
  | unstaged
  | failed
  | answered (words : Words)

/-- `Stage_Forward_Path` and `Forward_To_FS`. -/
def forwardPath (v : Volume) (number : Nat) (name : Text)
    (pos first last : Nat) : Act (Vfs × Forwarded) := do
  match ← stageForwardPath s k name pos first last with
  | none => .ok (s, .unstaged)
  | some s =>
    let proc ← isProcVolume v
    match forwardEndpoint s k proc v number r.badge with
    | none => .ok (s, .failed)
    | some s =>
      match ← call k 0 with
      | none => .ok (s, .failed)
      | some w => .ok (s, .answered w)

/-! ## Requests that are passed on as they are -/

/-- The handlers that pass a driver's reply on: they need `caps`, have their path in words 0 to 3 with its
    page in `slot`, answer `notFs` for other volumes, and leave the program when the reply fails. -/
def relay (caps : Bool) (slot notFs : Nat) : Handled :=
  if caps = false then refuse s statusBadArgs
  else do
    match ← locate s k r 0 3 slot with
    | .refused => refuse s statusBadArgs
    | .unknown => refuse s statusNotFound
    | .found v number name pos =>
      if v.isFs = false then refuse s notFs
      else
        match ← forwardPath s k r v number name pos 0 3 with
        | (s, .unstaged) => refuse s statusBadArgs
        | (s, .failed) => refuse s statusNotFound
        | (s, .answered w) => if k.replied then .ok (s, .words w) else .error .exit

def hasBuf : Bool := decide (r.caps 0 ≠ 0)

def handleReadDir : Handled := relay s k r true 0 statusNotFound
def handleAttrList : Handled := relay s k r true 0 statusNotFound
def handleAttrRead : Handled := relay s k r (hasBuf r) 1 statusBadArgs
def handleAttrWrite : Handled := relay s k r (hasBuf r) 1 statusBadArgs
def handleQuery : Handled := relay s k r (hasBuf r) 1 statusBadArgs
def handleQueryOpen : Handled :=
  relay s k r (hasBuf r && decide (r.caps 1 ≠ 0)) 2 statusBadArgs
def handleQueryPoll : Handled := relay s k r (hasBuf r) 1 statusBadArgs
def handleQueryClose : Handled := relay s k r true 0 statusBadArgs

/-! ## Pipes -/

/-- A request for a pipe; `path` is the name behind PIPE:. -/
def pipe (s : Vfs) (k : Kernel) (r : Request) (op : Op) (path : List UInt8) : Vfs × Answer :=
  ({ s with
      server := s.server.turn
        { op := op
          path := some (path.map fun c => Char.ofNat c.toNat)
          length := (r.words 1).toNat
          buf := (r.caps 0).toNat
          reply := r.reply
          window := if k.bufMap then some k.buffer else none
          grow := k.room } }, .pipe)

/-! ## Block volumes -/

def nameDisk : List UInt8 := [100, 105, 115, 107]

/-- Is the path `disk`? -/
def isDisk (v : Volume) (path : List UInt8) : Act Bool :=
  matchText 4 (Text.ofList nameDisk).chars 4 path v.caseInsensitive

/-- The sectors of one pass: how far into the first one, how many, and how many bytes move. -/
structure Pass where
  skip : Nat
  sectors : Nat
  chunk : Nat

/-- A pass at `offset + done`, with `count` bytes to move in all. -/
def passAt (offset count done : Nat) : Pass :=
  let skip := (offset + done) % 512
  let sectors := min 8 ((count - done + skip + 511) / 512)
  ⟨skip, sectors, min (sectors * 512 - skip) (count - done)⟩

/-- The copy of a pass stays in the server's page and in the client's buffer. -/
def Pass.move (p : Pass) (done : Nat) : Act Unit :=
  demand (1 ≤ p.chunk ∧ p.skip + p.chunk ≤ pageSize ∧ done + p.chunk ≤ bufBytes) .fault

/-- A call to the block driver: has it worked? -/
def blockCall (n : Nat) : Act Bool := do
  let answer ← call k n
  .ok (match answer with
    | some w => w 0 = 0
    | none => false)

/-- The loop of `Handle_Block_Read`; the offset and the count end inside the volume, so that nothing wraps.
    `n` is the number of the next call. -/
def blockRead (k : Kernel) (offset count : Nat) : Nat → Nat → Nat → Act Bool
  | 0, _, _ => .error .silence
  | fuel + 1, n, done =>
    if done < count then do
      let p := passAt offset count done
      if ← blockCall k n then
        p.move done
        blockRead k offset count fuel (n + 1) (done + p.chunk)
      else .ok false
    else .ok true

/-- A pass that changes sectors only in part reads them first. -/
def Pass.isPartial (p : Pass) (count done : Nat) : Bool :=
  decide (p.skip ≠ 0 ∨ (count - done + p.skip) % 512 ≠ 0)

/-- The loop of `Handle_Block_Write`. -/
def blockWrite (k : Kernel) (offset count : Nat) : Nat → Nat → Nat → Act Bool
  | 0, _, _ => .error .silence
  | fuel + 1, n, done =>
    if done < count then do
      let p := passAt offset count done
      if p.isPartial count done then
        if ← blockCall k n then
          p.move done
          if ← blockCall k (n + 1) then blockWrite k offset count fuel (n + 2) (done + p.chunk) else .ok false
        else .ok false
      else
        p.move done
        if ← blockCall k n then blockWrite k offset count fuel (n + 1) (done + p.chunk) else .ok false
    else .ok true

/-- `Handle_Block_Read` and `Handle_Block_Write` around their loops. -/
def blockIo (v : Volume) (offset length : UInt64)
    (loop : Nat → Nat → Nat → Nat → Nat → Act Bool) : Handled :=
  if v.blkSize = 0 ∨ offset ≥ v.blkSize then refuse s statusOutOfRange
  else if s.blkBuf = false ∧ k.blkBuf = false then refuse s statusBadArgs
  else
    let s := { s with blkBuf := true }
    if k.bufMap = false then refuse s statusNotFound
    else do
      let count := min (min length (v.blkSize - offset)).toNat bufBytes
      if ← loop offset.toNat count (count + 1) 0 0 then .ok (s, .status statusOk count.toUInt64)
      else refuse s statusNotFound

/-! ## Files -/

/-- `Ensure_Lead_In`: where the file begins in its first page, learnt by mapping it. -/
def ensureLeadIn (file : UInt64 → FileCap) (k : Kernel) (f : FileEntry) : Option FileEntry :=
  if f.leadKnown then some f
  else
    match (file f.handle).leadIn f.handle with
    | some lead => if k.leadMap then some { f with leadIn := lead, leadKnown := true } else none
    | none => none

/-- A pass through the file window: its first page, how many pages are mapped, how far into them, and how many
    bytes. -/
structure FilePass where
  base : UInt64
  span : UInt64
  skip : UInt64
  chunk : UInt64

/-- The pages that the server counts for a file. -/
def filePages (lead size : UInt64) : UInt64 := (lead + size + 4096 - 1) / 4096

/-- The pass at `pos`, with `left` bytes still to move.  All of it is arithmetic of words. -/
def filePassAt (lead size pos left : UInt64) : FilePass :=
  let pageBase := (lead + pos) / 4096
  let span := min fileWinPages (filePages lead size - pageBase)
  let skip := (lead + pos) % 4096
  ⟨pageBase, span, skip, min left (span * 4096 - skip)⟩

/-- What the copy of a pass touches: the client's buffer, and pages that are there. -/
def FilePass.InBounds (p : FilePass) (cap : FileCap) (done : Nat) : Prop :=
  (1 ≤ p.chunk.toNat ∧ p.skip.toNat + p.chunk.toNat ≤ p.span.toNat * pageSize ∧
    done + p.chunk.toNat ≤ bufBytes) ∧
    cap.Backs (p.base.toNat + (p.skip.toNat + p.chunk.toNat - 1) / pageSize)

instance (p : FilePass) (cap : FileCap) (done : Nat) : Decidable (p.InBounds cap done) :=
  inferInstanceAs (Decidable (_ ∧ _))

/-- The loop of `Handle_Read` over the window. -/
def readPasses (k : Kernel) (cap : FileCap) (lead size : UInt64) : Nat → Nat → Nat → UInt64 → UInt64 → Act Bool
  | 0, _, _, _, _ => .error .silence
  | fuel + 1, n, done, pos, left =>
    if left > 0 then do
      let p := filePassAt lead size pos left
      if cap.accepts (p.base * 4096) (p.span * 4096) ∧ k.passMap n then
        demand (p.InBounds cap done) .fault
        if k.passUnmap n then
          readPasses k cap lead size fuel (n + 1) (done + p.chunk.toNat) (pos + p.chunk) (left - p.chunk)
        else .ok false
      else .ok false
    else .ok true

/-- `Handle_Read` for a file that was named. -/
def readFile (file : UInt64 → FileCap) (s : Vfs) (k : Kernel) (v : Volume) (path : List UInt8)
    (offset length : UInt64) : Handled := do
  let i ← findFile s.files path v.caseInsensitive
  if i = 0 then refuse s statusNotFound
  else
    match s.files[i - 1]? with
    | none => .error .check
    | some f =>
      if offset ≥ f.size then refuse s statusOutOfRange
      else
        match ensureLeadIn file k f with
        | none => refuse s statusNotFound
        | some f =>
          let s := { s with files := s.files.set (i - 1) f }
          if k.bufMap = false then refuse s statusNotFound
          else
            let count := min (min length (f.size - offset)) (UInt64.ofNat bufBytes)
            if ← readPasses k (file f.handle) f.leadIn f.size (count.toNat + 1) 0 0 offset count then
              .ok (s, .status statusOk count)
            else refuse s statusNotFound

/-! ## Reads and writes -/

/-- `Handle_Write`. -/
def handleWrite : Handled :=
  if s.server.namesDone = false then refuse s statusNotReady
  else if r.caps 0 = 0 ∨ r.words 1 = 0 then refuse s statusBadArgs
  else do
    match ← locate s k r 2 5 1 with
    | .refused => refuse s statusBadArgs
    | .unknown => refuse s statusNotFound
    | .found v number name pos =>
      if v.isFs then
        match ← forwardPath s k r v number name pos 2 5 with
        | (s, .unstaged) => refuse s statusBadArgs
        | (s, .failed) => refuse s statusNotFound
        | (s, .answered w) => .ok (s, .status (w 0).toNat (w 1))
      else
        if v.isBlock then
          if ← isDisk v (← pathAt name pos) then blockIo s k v (r.words 0) (r.words 1) (blockWrite k)
          else refuse s statusNotFound
        else if v.isNil then .ok (s, .status statusOk (r.words 1))
        else if v.isPipe then .ok (s.pipe k r .write (← pathAt name pos))
        else refuse s statusBadArgs

/-- `Handle_Read`. -/
def handleRead (file : UInt64 → FileCap) (s : Vfs) (k : Kernel) (r : Request) : Handled :=
  if s.server.namesDone = false then refuse s statusNotReady
  else if r.caps 0 = 0 ∨ r.words 1 = 0 then refuse s statusBadArgs
  else do
    match ← locate s k r 2 5 1 with
    | .refused => refuse s statusBadArgs
    | .unknown => refuse s statusNotFound
    | .found v number name pos =>
      if v.isFs then
        match ← forwardPath s k r v number name pos 2 5 with
        | (s, .unstaged) => refuse s statusBadArgs
        | (s, .failed) => refuse s statusNotFound
        | (s, .answered w) => .ok (s, .status (w 0).toNat (w 1))
      else
        if v.isBlock then
          if ← isDisk v (← pathAt name pos) then blockIo s k v (r.words 0) (r.words 1) (blockRead k)
          else refuse s statusNotFound
        else if v.isNil then .ok (s, .status statusOk 0)
        else if v.isPipe then .ok (s.pipe k r .read (← pathAt name pos))
        else readFile file s k v (← pathAt name pos) (r.words 0) (r.words 1)

/-! ## Paths -/

/-- `Handle_Stat_Or_Open`; `op` is one of the two. -/
def handleStatOrOpen (op : Op) : Handled := do
  match ← locate s k r 0 5 0 with
  | .refused => refuse s statusBadArgs
  | .unknown => refuse s statusNotFound
  | .found v number name pos =>
    if v.isNil then .ok (s, .status statusOk 0)
    else if v.isPipe then .ok (s.pipe k r op (← pathAt name pos))
    else if v.isFs then
      match ← forwardPath s k r v number name pos 0 5 with
      | (s, .unstaged) => refuse s statusBadArgs
      | (s, .failed) => refuse s statusNotFound
      | (s, .answered w) => .ok (s, .status (w 0).toNat (w 1))
    else if v.isBlock then
      if ← isDisk v (← pathAt name pos) then .ok (s, .status statusOk v.blkSize)
      else refuse s statusNotFound
    else
      let i ← findFile s.files (← pathAt name pos) v.caseInsensitive
      match if i = 0 then none else s.files[i - 1]? with
      | none => refuse s statusNotFound
      | some f => .ok (s, .status statusOk f.size)

/-- `Handle_Path_Op`. -/
def handlePathOp (op : Op) : Handled :=
  if s.server.namesDone = false then refuse s statusNotReady
  else do
    match ← locate s k r 0 5 0 with
    | .refused => refuse s statusBadArgs
    | .unknown => refuse s statusNotFound
    | .found v number name pos =>
      if v.isNil then
        if op = .delete ∨ op = .truncate then .ok (s, .status statusOk 0) else refuse s statusBadArgs
      else if v.isPipe then .ok (s.pipe k r op (← pathAt name pos))
      else if v.isFs then
        match ← forwardPath s k r v number name pos 0 5 with
        | (s, .unstaged) => refuse s statusBadArgs
        | (s, .failed) => refuse s statusNotFound
        | (s, .answered w) => .ok (s, .status (w 0).toNat (w 1))
      else refuse s statusBadArgs

/-- The loop of `Handle_Rename` over the client's buffer. -/
def bufferFrom (buffer : Nat → UInt8) : Nat → Nat → Text → Act Text
  | 0, _, t => .ok t
  | n + 1, i, t =>
    if buffer i = 0 then .ok t
    else do
      let t ← t.put maxPath (buffer i)
      bufferFrom buffer n (i + 1) t

/-- `Handle_Rename`. -/
def handleRename : Handled :=
  if s.server.namesDone = false then refuse s statusNotReady
  else if r.caps 0 = 0 then refuse s statusBadArgs
  else do
    match ← locate s k r 0 5 1 with
    | .refused => refuse s statusBadArgs
    | .unknown => refuse s statusNotFound
    | .found v number name pos =>
      if v.isFs = false then refuse s statusBadArgs
      else if k.bufMap = false then refuse s statusNotFound
      else
        let goal ← bufferFrom k.buffer maxPath 0 Text.empty
        if goal.len = 0 then refuse s statusBadArgs
        else
          let x ← resolveFull s.volumes s.assigns goal
          if x.volume = 0 then refuse s statusNotFound
          else if x.volume ≠ number then refuse s statusBadArgs
          else
            -- the bare path is written back
            demand (x.pos ≤ x.name.len + 1) .check
            let _ ← pathAt x.name x.pos
            match ← forwardPath s k r v number name pos 0 5 with
            | (s, .unstaged) => refuse s statusBadArgs
            | (s, .failed) => refuse s statusNotFound
            | (s, .answered w) => .ok (s, .status (w 0).toNat 0)

/-- `Handle_Volume_Info`. -/
def handleVolumeInfo : Handled :=
  if s.server.namesDone = false then refuse s statusNotReady
  else do
    match ← locate s k r 0 5 0 with
    | .refused => refuse s statusBadArgs
    | .unknown => refuse s statusNotFound
    | .found v number name pos =>
      if v.isFs then
        match ← forwardPath s k r v number name pos 0 5 with
        | (s, .unstaged) => refuse s statusBadArgs
        | (s, .failed) => refuse s statusNotFound
        | (s, .answered w) => if w 0 = 0 then .ok (s, .words w) else refuse s statusNotFound
      else refuse s statusBadArgs

/-- `Handle_Volume_Case`. -/
def handleVolumeCase : Handled :=
  if s.server.namesDone = false then refuse s statusNotReady
  else do
    match ← locate s k r 0 5 0 with
    | .refused => refuse s statusBadArgs
    | .unknown => refuse s statusNotFound
    | .found v _ _ _ => .ok (s, .status statusOk (if v.caseInsensitive then 1 else 0))

/-- `Handle_Close`. -/
def handleClose : Handled := do
  match ← locate s k r 0 5 0 with
  | .refused => refuse s statusBadArgs
  | .unknown => refuse s statusNotFound
  | .found v _ name pos =>
    if v.isPipe then .ok (s.pipe k r .close (← pathAt name pos))
    else .ok (s, .status statusOk 0)

/-! ## The service loop -/

/-- `Op_Set_Name`: with a first word 0 it says that the names are complete. -/
def setNames (file : UInt64 → FileCap) (s : Vfs) (k : Kernel) (r : Request) : Handled :=
  if r.words 0 = 0 then .ok ({ s with server := { s.server with namesDone := true } }, .status statusOk 0)
  else s.handleSetName file k r

/-- A handler that the loop calls only when the names are complete. -/
def whenNamed (handled : Handled) : Handled :=
  if s.server.namesDone = false then refuse s statusNotReady else handled

/-- The dispatch of the loop. -/
def serve (file : UInt64 → FileCap) (s : Vfs) (k : Kernel) (r : Request) : Handled :=
  match r.label.toNat with
  | 0 => s.setNames file k r
  | 1 => s.whenNamed (s.handleStatOrOpen k r .stat)
  | 2 => s.whenNamed (s.handleStatOrOpen k r .open)
  | 3 => s.handleRead file k r
  | 4 => s.handleMount k r
  | 5 => s.handleAddBlock k r
  | 6 => s.handleAddFs k r
  | 7 => s.handleWrite k r
  | 8 => s.handlePathOp k r .delete
  | 9 => s.handlePathOp k r .truncate
  | 10 => s.handlePathOp k r .mkdir
  | 11 => s.handlePathOp k r .rmdir
  | 12 => s.handleSync k
  | 13 => s.whenNamed (s.handleReadDir k r)
  | 14 => s.handleAssign k r
  | 15 => s.handleAssignList r
  | 16 => s.handleRename k r
  | 17 => s.handleVolumeInfo k r
  | 18 => s.handleClose k r
  | 19 => s.whenNamed (s.handleAttrList k r)
  | 20 => s.whenNamed (s.handleAttrRead k r)
  | 21 => s.whenNamed (s.handleQuery k r)
  | 22 => s.whenNamed (s.handleQueryOpen k r)
  | 23 => s.whenNamed (s.handleQueryPoll k r)
  | 24 => s.whenNamed (s.handleQueryClose k r)
  | 25 => s.whenNamed (s.handleAttrWrite k r)
  | 26 => s.handleVolumeList r
  | 27 => s.handleVolumeCase k r
  | _ => refuse s statusBadArgs

/-- One iteration: a receive that fails ends the loop. -/
def turn (file : UInt64 → FileCap) (s : Vfs) (k : Kernel) (r : Request) : Handled :=
  if k.received then s.serve file k r else .error .exit

/-- A volume of `Seed_Virtual_Volumes`: PIPE: or NIL:. -/
def virtualVolume (name : List UInt8) (isPipe : Bool) : Volume :=
  { Volume.zero with
    valid := true
    device := (Text.ofList name).chars
    devLen := name.length
    label := (Text.ofList name).chars
    labLen := name.length
    caseInsensitive := true
    isPipe := isPipe
    isNil := !isPipe }

/-- Before the loop; the arena may have no room for the volumes. -/
def start (room : Bool) : Vfs where
  files := []
  volumes :=
    if room then [virtualVolume [80, 73, 80, 69] true, virtualVolume [78, 73, 76] false] else []
  assigns := []
  forwards := []
  server := Fileserver.start
  blkBuf := false
  stagePage := false

end Vfs

end Aegir.Fileserver
