/-
  What a consistent volume holds: directories as lists of ITEMS, and a tree of them.

  An item is a deleted entry, a label, or a live entry with its long name and the run that spells it.  A
  `Directory` says that the entries of a cluster chain are such items, up to the end of the chain or an entry
  that starts with 0; `Consistent` puts the directories into a tree.  The second half reads a directory the
  way the tree means it.
-/
import Aegir.Fat32.Lookup
import Mathlib.Data.List.Pairwise

namespace Aegir.Fat32

open Aegir.Lib List

/-! ## Places -/

/-- A cluster and the number of an entry in it. -/
abbrev Pos := Nat × Nat

namespace Volume

def slot (v : Volume) (p : Pos) : Bytes := v.entry p.1 p.2

/-- The entries of a cluster, in their order. -/
def positions (v : Volume) (c : Nat) : List Pos := (range v.entries).map fun ent => (c, ent)

/-- `cs` are the clusters from `c` to the end of its chain. -/
def Linked (v : Volume) : Nat → List Nat → Prop
  | _, [] => False
  | c, x :: cs => x = c ∧ if v.nextCluster c = 0 then cs = [] else Linked v (v.nextCluster c) cs

end Volume

/-! ## Items -/

/-- A live entry: its long name (none if this is empty), the places of its run, its own place. -/
structure Entry where
  long : List UInt16
  run : List Pos
  place : Pos
deriving DecidableEq

inductive Item
  | free (p : Pos)
  | label (p : Pos)
  | live (e : Entry)
deriving DecidableEq

def Item.places : Item → List Pos
  | .free p => [p]
  | .label p => [p]
  | .live e => e.run ++ [e.place]

def Item.entry? : Item → Option Entry
  | .live e => some e
  | _ => none

def liveEntries (items : List Item) : List Entry := items.filterMap Item.entry?

/-- `ps` spell the first `q` pieces of the name, in descending order. -/
def Spells (v : Volume) (long : List UInt16) : Nat → List Pos → Prop
  | 0, ps => ps = []
  | _ + 1, [] => False
  | q + 1, p :: ps =>
    v.slot p 0 = UInt8.ofNat (if q + 1 = pieces long then 0x40 + (q + 1) else q + 1) ∧
    v.slot p 11 = 0x0F ∧
    (range 13).map (unit (v.slot p)) = padded (piece long q) ∧
    Spells v long q ps

structure Entry.Sound (v : Volume) (e : Entry) : Prop where
  short : e.long.length ≤ 255
  spelt : Spells v e.long (pieces e.long) e.run
  used : v.slot e.place 0 ≠ 0 ∧ v.slot e.place 0 ≠ 0xE5
  plain : v.slot e.place 11 ≠ 0x0F ∧ v.slot e.place 11 &&& 0x08 = 0

def Item.Sound (v : Volume) : Item → Prop
  | .free p => v.slot p 0 = 0xE5
  | .label p => (v.slot p 0 ≠ 0 ∧ v.slot p 0 ≠ 0xE5) ∧
      v.slot p 11 ≠ 0x0F ∧ v.slot p 11 &&& 0x08 ≠ 0
  | .live e => e.Sound v

/-! ## Names -/

def foldUnit (u : UInt16) : UInt16 := if 97 ≤ u ∧ u ≤ 122 then u - 32 else u

/-- A component, folded, as UTF-16. -/
def folded (comp : List UInt8) : List UInt16 := comp.map fun c => (upper c).toUInt16

namespace Entry

def shortName (v : Volume) (e : Entry) : List UInt8 := shortNameOf (v.slot e.place)

/-- The names of an entry, folded. -/
def names (v : Volume) (e : Entry) : List (List UInt16) :=
  if e.long = [] then [folded (e.shortName v)] else [e.long.map foldUnit, folded (e.shortName v)]

/-- Ignoring case, the component is one of the entry's names. -/
def Named (v : Volume) (e : Entry) (comp : List UInt8) : Prop := folded comp ∈ e.names v

instance (v : Volume) (comp : List UInt8) : DecidablePred fun e : Entry => e.Named v comp :=
  fun e => inferInstanceAs (Decidable (folded comp ∈ e.names v))

def found (v : Volume) (e : Entry) : Found := v.found e.place.1 e.place.2

def dots (v : Volume) (e : Entry) : Bool := isDots (v.slot e.place)

/-- The cluster the entry stands for: a directory at cluster 0 is the root. -/
def target (v : Volume) (e : Entry) : Nat :=
  if (e.found v).isDir ∧ (e.found v).clus = 0 then v.rootClus else (e.found v).clus

theorem named_shortName (v : Volume) (e : Entry) : e.Named v (e.shortName v) := by
  rw [Named, names]
  split
  · exact mem_singleton_self _
  · exact mem_cons_of_mem _ (mem_singleton_self _)

end Entry

/-! ## Directories and the tree -/

/-- The directory that starts at cluster `c`. -/
structure Directory (v : Volume) (c : Nat) where
  chain : List Nat
  linked : v.Linked c chain
  nodup : chain.Nodup
  items : List Item
  tail : List Pos
  laid : chain.flatMap v.positions = items.flatMap Item.places ++ tail
  ended : ∀ p ∈ tail.head?, v.slot p 0 = 0
  sound : ∀ i ∈ items, i.Sound v
  distinct : (liveEntries items).Pairwise fun e f => (e.names v).Disjoint (f.names v)

/-- "." and "..". -/
def dot : List UInt8 := [0x2E]
def dotdot : List UInt8 := [0x2E, 0x2E]

/-- The directories of the volume are a tree below the root. -/
structure Consistent (v : Volume) where
  dir : (c : Nat) → Option (Directory v c)
  parent : Nat → Nat
  real : dir 0 = none
  root : (dir v.rootClus).isSome
  up : ∀ c, (dir c).isSome → (dir (parent c)).isSome
  child : ∀ c d, dir c = some d → ∀ e ∈ liveEntries d.items, (e.found v).isDir → e.dots v = false →
    (e.found v).clus ≠ 0 ∧ (dir (e.found v).clus).isSome ∧ parent (e.found v).clus = c
  dots : ∀ c d, dir c = some d → ∀ e ∈ liveEntries d.items, e.dots v →
    (e.found v).isDir ∧ ((e.shortName v = dot ∧ (e.found v).clus = c) ∨
      (e.shortName v = dotdot ∧ (e.found v).clus = if parent c = v.rootClus then 0 else parent c))
  hasDots : ∀ c d, dir c = some d → c ≠ v.rootClus →
    (∃ e ∈ liveEntries d.items, e.dots v ∧ e.shortName v = dot) ∧
    ∃ e ∈ liveEntries d.items, e.dots v ∧ e.shortName v = dotdot

theorem Consistent.target_isSome {v : Volume} (C : Consistent v) {c : Nat} {d : Directory v c}
    (hd : C.dir c = some d) {e : Entry} (he : e ∈ liveEntries d.items) (hdir : (e.found v).isDir = true) :
    (C.dir (e.target v)).isSome := by
  by_cases hz : (e.found v).isDir ∧ (e.found v).clus = 0
  · rw [Entry.target, if_pos hz]
    exact C.root
  · rw [Entry.target, if_neg hz]
    by_cases hdots : e.dots v = true
    · obtain ⟨-, ⟨-, hclus⟩ | ⟨-, hclus⟩⟩ := C.dots c d hd e he hdots
      · rw [hclus, hd]
        rfl
      · by_cases hp : C.parent c = v.rootClus
        · exact absurd ⟨hdir, by rw [hclus, if_pos hp]⟩ hz
        · rw [hclus, if_neg hp]
          exact C.up c (by rw [hd]; rfl)
    · exact (C.child c d hd e he hdir (by simpa using hdots)).2.1

/-! ## What a path denotes -/

/-- The entry a component names. -/
def lookup (v : Volume) (items : List Item) (comp : List UInt8) : Option Entry :=
  (liveEntries items).find? fun e => decide (e.Named v comp)

/-- What a lookup of the entry ought to return. -/
def Entry.answer (v : Volume) (e : Entry) : Found := { e.found v with clus := e.target v }

/-- What `Resolve_Path` ought to return, from directory `cur` on. -/
def expectedFrom {v : Volume} (C : Consistent v) : List (List UInt8) → Nat → Option Found
  | [], _ => none
  | comp :: rest, cur =>
    if comp = [] then none
    else
      match (C.dir cur).bind fun d => lookup v d.items comp, rest with
      | none, _ => none
      | some e, [] => some (e.answer v)
      | some e, _ :: _ => if (e.found v).isDir then expectedFrom C rest (e.target v) else none

end Aegir.Fat32
