/-
  Lookup in the FAT driver: a directory's clusters are scanned entry by entry.

  `findInDir` looks for one path component, `dirEntryAt` for the entry with a given number, and
  `resolvePath` takes a path apart.  All of them pass the long-name buffer on, because the process keeps it
  between requests: only `dirEntryAt` clears it before it starts.

  A volume is what its sectors hold; reads succeed.  A result carries everything the source returns, the
  place of the entry and of its run too.
-/
import Aegir.Fat32.Names
import Mathlib.Data.List.SplitOn

namespace Aegir.Fat32

open Aegir.Lib

/-! ## The volume -/

/-- The sectors, and the geometry the probe read from the first of them. -/
structure Volume where
  disk : Nat → Bytes
  secPerClus : Nat
  fatStart : Nat
  dataStart : Nat
  rootClus : Nat

namespace Volume

/-- `Cluster_Sector`, in 64-bit words: for cluster 0 this is a sector in front of the data area. -/
def clusterSector (v : Volume) (c : Nat) : Nat :=
  (v.dataStart + (c + 2 ^ 64 - 2) % 2 ^ 64 * v.secPerClus) % 2 ^ 64

/-- `Next_Cluster`: 0 at the end of a chain. -/
def nextCluster (v : Volume) (c : Nat) : Nat :=
  let next := le (v.disk (v.fatStart + c * 4 / 512)) (c * 4 % 512) 4 % 2 ^ 28
  if 0x0FFFFFF8 ≤ next ∨ next < 2 then 0 else next

/-- Entries to a cluster. -/
def entries (v : Volume) : Nat := v.secPerClus * 16

/-- The 32 bytes of an entry of a cluster. -/
def entry (v : Volume) (c ent : Nat) : Bytes :=
  fun j => v.disk (v.clusterSector c + ent / 16) (ent % 16 * 32 + j)

end Volume

/-- What a lookup returns about the entry itself and about its place. -/
structure Found where
  clus : Nat
  size : Nat
  isDir : Bool
  dirSector : Nat
  dirOff : Nat
  foundClus : Nat
  foundEnt : Nat
deriving DecidableEq

/-- ... and where the run in front of it starts. -/
structure Hit where
  found : Found
  runClus : Nat
  runEnt : Nat
deriving DecidableEq

def Volume.found (v : Volume) (c ent : Nat) : Found :=
  let s := v.entry c ent
  { clus := le s 20 2 * 0x10000 + le s 26 2
    size := le s 28 4
    isDir := s 11 &&& 0x10 ≠ 0
    dirSector := v.clusterSector c + ent / 16
    dirOff := ent % 16 * 32
    foundClus := c
    foundEnt := ent }

/-! ## Finding a component -/

/-- The loop's own state: the buffer, and where the run of the entry to come would start. -/
structure Scan where
  lfn : Lfn
  runClus : Nat
  runEnt : Nat

/-- A plain, deleted or label entry is behind us. -/
def Scan.past (r : Scan) (c ent : Nat) : Scan := { lfn := r.lfn.reset, runClus := c, runEnt := ent + 1 }

inductive Verdict
  | hit (t : Lfn) (h : Hit)
  | ended (t : Lfn)
  | more (r : Scan)

/-- One entry, in the loop of `Find_In_Dir`. -/
def scanEntry (v : Volume) (comp : List UInt8) (c ent : Nat) (r : Scan) : Verdict :=
  let s := v.entry c ent
  if s 0 = 0 then .ended r.lfn
  else if s 0 = 0xE5 then .more (r.past c ent)
  else if s 11 = 0x0F then .more { r with lfn := collectLfn s r.lfn }
  else if s 11 &&& 0x08 ≠ 0 then .more (r.past c ent)
  -- on a hit the buffer is left as it is
  else if matchComponent comp s r.lfn then
    .hit r.lfn { found := v.found c ent, runClus := r.runClus, runEnt := r.runEnt }
  else .more (r.past c ent)

def scanCluster (v : Volume) (comp : List UInt8) (c : Nat) : List Nat → Scan → Verdict
  | [], r => .more r
  | ent :: ents, r =>
    match scanEntry v comp c ent r with
    | .more r' => scanCluster v comp c ents r'
    | done => done

/-- A run that ends with the cluster before goes on at this one's head. -/
def Scan.enter (r : Scan) (v : Volume) (c : Nat) : Scan :=
  if v.entries ≤ r.runEnt then { r with runClus := c, runEnt := 0 } else r

/-- The loop of `Find_In_Dir` over the clusters, with `guard` rounds left.  The last component is
`Last_Clus`. -/
def findLoop (v : Volume) (comp : List UInt8) : Nat → Nat → Nat → Scan → Lfn × Option Hit × Nat
  | 0, _, last, r => (r.lfn, none, last)
  | guard + 1, c, last, r =>
    match scanCluster v comp c (List.range v.entries) (r.enter v c) with
    | .hit t h => (t, some h, last)
    | .ended t => (t, none, last)
    | .more r =>
      if v.nextCluster c = 0 then (r.lfn, none, c) else findLoop v comp guard (v.nextCluster c) c r

/-- `for Guard in 0 .. 512`. -/
def maxDirClusters : Nat := 513

/-- `Find_In_Dir`. -/
def findInDir (v : Volume) (dir : Nat) (comp : List UInt8) (t : Lfn) : Lfn × Option Hit × Nat :=
  findLoop v comp maxDirClusters dir dir { lfn := t, runClus := dir, runEnt := 0 }

/-! ## Listing -/

/-- `Dos_Epoch`. -/
def dosEpoch (date16 time16 : Nat) : Nat :=
  let y := 1980 + date16 / 512
  let m := date16 / 32 % 16
  let d := date16 % 32
  let h := time16 / 2048
  let mi := time16 / 32 % 64
  let s := time16 % 32 * 2
  if m = 0 ∨ 12 < m ∨ d = 0 ∨ 31 < d ∨ y < 1980 ∨ 2107 < y ∨ 23 < h ∨ 59 < mi then 0
  else
    let mp := if 2 < m then m - 3 else m + 9
    let yy := y - if m ≤ 2 then 1 else 0
    let era := yy / 400
    let yoe := yy - era * 400
    let doy := (153 * mp + 2) / 5 + d - 1
    let doe := yoe * 365 + yoe / 4 - yoe / 100 + doy
    (era * 146097 + doe - 719468) * 86400 + h * 3600 + mi * 60 + s

structure Listed where
  name : List UInt8
  size : Nat
  isDir : Bool
  modified : Nat
deriving DecidableEq

/-- The test for "." and "..". -/
def isDots (s : Bytes) : Bool := s 0 = 0x2E ∧ (s 1 = 0x20 ∨ (s 1 = 0x2E ∧ s 2 = 0x20))

/-- The answer of `Dir_Entry_At` for an entry; `cap` is `Name'Length`. -/
def listedAt (s : Bytes) (cap : Nat) (t : Lfn) : Listed :=
  { name := (if 0 < t.len then t.text else shortNameOf s).take cap
    size := le s 28 4
    isDir := s 11 &&& 0x10 ≠ 0
    modified := dosEpoch (le s 24 2) (le s 22 2) }

inductive Listing
  | answer (t : Lfn) (l : Listed)
  | ended (t : Lfn)
  | more (t : Lfn) (n : Nat)

/-- One entry, in the loop of `Dir_Entry_At`; `n` entries have been counted. -/
def listEntry (v : Volume) (cap index c ent : Nat) (t : Lfn) (n : Nat) : Listing :=
  let s := v.entry c ent
  if s 0 = 0 then .ended t
  else if s 0 = 0xE5 then .more t.reset n
  else if s 11 = 0x0F then .more (collectLfn s t) n
  else if s 11 &&& 0x08 ≠ 0 then .more t.reset n
  else if isDots s then .more t.reset n
  else if n = index then .answer t (listedAt s cap t)
  else .more t.reset (n + 1)

def listCluster (v : Volume) (cap index c : Nat) : List Nat → Lfn → Nat → Listing
  | [], t, n => .more t n
  | ent :: ents, t, n =>
    match listEntry v cap index c ent t n with
    | .more t' n' => listCluster v cap index c ents t' n'
    | done => done

def listLoop (v : Volume) (cap index : Nat) : Nat → Nat → Lfn → Nat → Lfn × Option Listed
  | 0, _, t, _ => (t, none)
  | guard + 1, c, t, n =>
    match listCluster v cap index c (List.range v.entries) t n with
    | .answer t l => (t, some l)
    | .ended t => (t, none)
    | .more t n =>
      if v.nextCluster c = 0 then (t, none) else listLoop v cap index guard (v.nextCluster c) t n

/-- `Dir_Entry_At`. -/
def dirEntryAt (v : Volume) (dir index cap : Nat) (t : Lfn) : Lfn × Option Listed :=
  listLoop v cap index maxDirClusters dir t.reset 0

/-! ## Resolving a path -/

inductive Resolved
  | hit (h : Hit)
  /-- The last component is missing: `Parent_Clus`, `Parent_Last` and `Comp_First`. -/
  | missing (parent last first : Nat)
  | refused
deriving DecidableEq

/-- The loop of `Resolve_Path`, over the components that are left; `pos` is where the next one starts.  An
empty component is refused, and so is what a trailing '/' leaves. -/
def resolveFrom (v : Volume) : List (List UInt8) → Nat → Nat → Lfn → Lfn × Resolved
  | [], _, _, t => (t, .refused)
  | comp :: rest, cur, pos, t =>
    if comp = [] then (t, .refused)
    else
      match findInDir v cur comp t, rest with
      | (t, some h, _), [] => (t, .hit h)
      | (t, none, last), [] => (t, .missing cur last pos)
      | (t, some h, _), _ :: _ =>
        if h.found.isDir then resolveFrom v rest h.found.clus (pos + comp.length + 1) t
        else (t, .refused)
      | (t, none, _), _ :: _ => (t, .refused)

/-- The components of a path: it is cut at each '/'. -/
def components (path : List UInt8) : List (List UInt8) := path.splitOn 0x2F

/-- `Resolve_Path`. -/
def resolvePath (v : Volume) (path : List UInt8) (t : Lfn) : Lfn × Resolved :=
  resolveFrom v (components path) v.rootClus 1 t

end Aegir.Fat32
