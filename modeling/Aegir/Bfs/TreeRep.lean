/-
  What a stream that holds a B+tree looks like.

  `Stands` is the invariant: the nodes of a tree value stand in the stream, each in its own block below
  the header's next free offset, the tree's marks are in order, every branch down the first children
  has one, and the leaves are doubly linked in order.  The BODY of a node is everything but its left
  and right links; a split changes the link of a leaf that may lie in a different subtree, and nothing
  else there.
-/
import Aegir.Bfs.NodeLaws
import Aegir.Bfs.Tree
import Aegir.Lib.BPlusInsert
import Aegir.Lib.Ring
import Mathlib.Data.List.Lex
import Mathlib.Order.Nat

open Function (update update_of_ne update_self)

namespace Aegir.Bfs

open Aegir.Lib Aegir.Lib.BPlus List

/-! ## Keys in order -/

variable {a : List UInt8} {numeric : Bool} {k : SearchKey} {e : Entry} {es : List Entry}

/-- A key of a tree: what `Tree_Insert_Str` and `Tree_Insert_Int` let in. -/
structure KeyOk (numeric : Bool) (key : List UInt8) : Prop where
  pos : 1 ≤ key.length
  le_max : key.length ≤ leafKeyMax
  eight : numeric = true → key.length = 8

/-- A search key that says the same in all its fields. -/
structure SearchKey.Ok (numeric : Bool) (k : SearchKey) : Prop where
  mode : k.numeric = numeric
  key : KeyOk numeric k.bytes
  num : numeric = true → k.num = keyNum k.bytes

/-- What keys are ordered by: the number, or the bytes. -/
def rank (numeric : Bool) (key : List UInt8) : List Nat :=
  if numeric then [keyNum key] else key.map UInt8.toNat

theorem cmpBytes_lt (a b : List UInt8) : cmpBytes a b = .lt ↔ a.map UInt8.toNat < b.map UInt8.toNat := by
  induction a generalizing b with
  | nil => cases b <;> simp [cmpBytes]
  | cons x xs ih =>
    cases b with
    | nil => simp [cmpBytes]
    | cons y ys =>
      rw [cmpBytes, map_cons, map_cons, cons_lt_cons_iff, ← ih]
      by_cases h1 : x < y
      · simp [h1, UInt8.lt_iff_toNat_lt.mp h1]
      · by_cases h2 : y < x
        · have h3 := UInt8.lt_iff_toNat_lt.mp h2
          have h4 : ¬ x.toNat < y.toNat := by omega
          have h5 : x.toNat ≠ y.toNat := by omega
          simp [h1, h2, h4, h5]
        · have h3 : ¬ x.toNat < y.toNat := fun h => h1 (UInt8.lt_iff_toNat_lt.mpr h)
          have h4 : ¬ y.toNat < x.toNat := fun h => h2 (UInt8.lt_iff_toNat_lt.mpr h)
          have h5 : x.toNat = y.toNat := by omega
          simp [h1, h2, h5]

theorem cmpBytes_eq (a b : List UInt8) : cmpBytes a b = .eq ↔ a = b := by
  induction a generalizing b with
  | nil => cases b <;> simp [cmpBytes]
  | cons x xs ih =>
    cases b with
    | nil => simp [cmpBytes]
    | cons y ys =>
      rw [cmpBytes, cons.injEq, ← ih]
      by_cases h1 : x < y
      · have hne : x ≠ y := fun he => by
          have := UInt8.lt_iff_toNat_lt.mp h1
          rw [he] at this
          omega
        simp [h1, hne]
      · by_cases h2 : y < x
        · have hne : x ≠ y := fun he => by
            have := UInt8.lt_iff_toNat_lt.mp h2
            rw [he] at this
            omega
          simp [h1, h2, hne]
        · have h3 : ¬ x.toNat < y.toNat := fun h => h1 (UInt8.lt_iff_toNat_lt.mpr h)
          have h4 : ¬ y.toNat < x.toNat := fun h => h2 (UInt8.lt_iff_toNat_lt.mpr h)
          have h5 : x = y := UInt8.toNat_inj.mp (by omega)
          simp [h5]

theorem keyNum_inj {b : List UInt8} (hlen : a.length = b.length) (h : keyNum a = keyNum b) : a = b := by
  induction a generalizing b with
  | nil =>
    cases b with
    | nil => rfl
    | cons y ys => cases hlen
  | cons x xs ih =>
    cases b with
    | nil => cases hlen
    | cons y ys =>
      have hx := x.toNat_lt
      have hy := y.toNat_lt
      simp only [keyNum] at h
      have hxy : x = y := UInt8.toNat_inj.mp (by omega)
      rw [hxy, ih (Nat.succ.inj hlen) (by omega)]

theorem rank_inj {b : List UInt8} (ha : KeyOk numeric a) (hb : KeyOk numeric b)
    (h : rank numeric a = rank numeric b) : a = b := by
  cases numeric with
  | true =>
    have hnum : keyNum a = keyNum b := by simpa [rank] using h
    exact keyNum_inj ((ha.eight rfl).trans (hb.eight rfl).symm) hnum
  | false =>
    have hmap : a.map UInt8.toNat = b.map UInt8.toNat := h
    exact map_injective_iff.mpr (fun x y hxy => UInt8.toNat_inj.mp hxy) hmap

theorem skCmp_lt (hk : k.Ok numeric) (he : KeyOk numeric e.key) :
    skCmp k e = .lt ↔ rank numeric k.bytes < rank numeric e.key := by
  unfold skCmp rank
  rw [hk.mode]
  cases numeric with
  | true =>
    have hlen : ¬ e.key.length ≠ 8 := fun hne => hne (he.eight rfl)
    rw [if_pos rfl, if_neg hlen, if_pos rfl, if_pos rfl, hk.num rfl, cons_lt_cons_iff, compare_lt_iff_lt]
    simp
  | false => exact cmpBytes_lt _ _

theorem skCmp_eq (hk : k.Ok numeric) (he : KeyOk numeric e.key) : skCmp k e = .eq ↔ k.bytes = e.key := by
  unfold skCmp
  rw [hk.mode]
  cases numeric with
  | true =>
    have hlen : ¬ e.key.length ≠ 8 := fun hne => hne (he.eight rfl)
    rw [if_pos rfl, if_neg hlen, hk.num rfl, compare_eq_iff_eq]
    constructor
    · intro hnum
      exact keyNum_inj ((hk.key.eight rfl).trans (he.eight rfl).symm) hnum
    · intro heq
      rw [heq]
  | false => exact cmpBytes_eq _ _

/-- The entries not past a key. -/
def upTo (numeric : Bool) (k : SearchKey) (e : Entry) : Bool :=
  passes (rank numeric) (rank numeric k.bytes) e.key

theorem passed_eq (hk : k.Ok numeric)
    (hes : ∀ e ∈ es, KeyOk numeric e.key) : passed k es = (es.takeWhile (upTo numeric k)).length := by
  induction es with
  | nil => rfl
  | cons e es ih =>
    have hlt := skCmp_lt hk (hes e mem_cons_self)
    rw [passed, takeWhile_cons]
    by_cases h : skCmp k e = .lt
    · have hnot : upTo numeric k e = false := decide_eq_false (not_le.mpr (hlt.mp h))
      rw [if_pos h, hnot]
      rfl
    · have hyes : upTo numeric k e = true := decide_eq_true (not_lt.mp fun hr => h (hlt.mpr hr))
      rw [if_neg h, hyes, ih fun e' he' => hes e' (mem_cons_of_mem _ he')]
      rfl

theorem skEntry_ok (he : KeyOk numeric e.key) : (skEntry e numeric).Ok numeric := by
  refine ⟨rfl, he, fun hn => ?_⟩
  show (if numeric ∧ e.key.length = 8 then keyNum e.key else 0) = keyNum e.key
  rw [if_pos ⟨hn, he.eight hn⟩]

/-! ## Nodes in the stream -/

variable {s s' : Stream} {off h : Nat}

/-- Everything of a node but its left and right links. -/
structure Holds (s : Stream) (off overflow : Nat) (es : List Entry) : Prop where
  overflow : le (s.node off) 16 8 = overflow
  entries : leafDecode (s.node off) = es
  count : le (s.node off) 24 2 = es.length

/-- The body of a node is the same in both streams. -/
def SameBody (s s' : Stream) (off : Nat) : Prop := ∀ j, 16 ≤ j → s'.node off j = s.node off j

theorem Holds.congr {overflow : Nat} (h : Holds s off overflow es)
    (hb : SameBody s s' off) : Holds s' off overflow es := by
  constructor
  · rw [← h.overflow]
    exact le_congr _ _ _ _ fun j h1 _ => hb j h1
  · rw [← h.entries]
    exact leafDecode_congr _ _ fun j h1 => hb j (by omega)
  · rw [← h.count]
    exact le_congr _ _ _ _ fun j h1 _ => hb j (by omega)

theorem SameBody.trans {s'' : Stream} (h : SameBody s s' off) (h' : SameBody s' s'' off) :
    SameBody s s'' off := fun j hj => (h' j hj).trans (h j hj)

theorem SameBody.of_node_eq (h : s'.node off = s.node off) : SameBody s s' off :=
  fun j _ => by rw [h]

/-- The trees of this file system. -/
abbrev BTree (h : Nat) : Type := Tree (List UInt8) Entry h

structure LeafStored (numeric : Bool) (s : Stream) (l : Leaf Entry) : Prop where
  holds : Holds s l.off btreeNull l.items
  keys : ∀ e ∈ l.items, KeyOk numeric e.key
  vals : ∀ e ∈ l.items, e.val < 2 ^ 64

/-- The entries of a branch: separators and the offsets of the kids left of them. -/
def storedEntries (b : Branch (List UInt8) Nat) : List Entry := b.kids.map fun p => ⟨p.1, p.2⟩

structure BranchStored (numeric : Bool) (s : Stream) (b : Branch (List UInt8) Nat) : Prop where
  holds : Holds s b.off b.last (storedEntries b)
  keys : ∀ p ∈ b.kids, KeyOk numeric p.1

/-- The nodes of the tree stand in the stream. -/
def Rep (numeric : Bool) (s : Stream) {h : Nat} (t : BTree h) : Prop :=
  t.Every (LeafStored numeric s) (BranchStored numeric s)

theorem Rep.congr {t : BTree h} (ht : Rep numeric s t) (hb : ∀ o ∈ t.offs, SameBody s s' o) : Rep numeric s' t :=
  ht.imp (fun l hl hs => ⟨hs.holds.congr (hb _ hl), hs.keys, hs.vals⟩)
    fun b hl hs => ⟨hs.holds.congr (hb _ hl), hs.keys⟩

/-- Where the leaves stand. -/
def leafOffs {h : Nat} (t : BTree h) : List Nat := t.fold (fun l => [l.off]) fun _ => []

theorem leafOffs_eq (t : BTree h) : leafOffs t = t.leaves.map Leaf.off := by
  rw [map_eq_flatMap, Tree.leaves, Tree.flatMap_fold]
  rfl

theorem leafOffs_sublist (t : BTree h) : (leafOffs t).Sublist t.offs := by
  induction h with
  | zero => exact List.Sublist.refl _
  | succ h ih =>
    refine List.Sublist.cons _ ?_
    show (Branch.fold leafOffs (fun _ => []) t).Sublist ((Branch.trees t).flatMap Tree.offs)
    rw [Branch.fold_trees]
    generalize Branch.trees t = us
    induction us with
    | nil => exact List.Sublist.refl _
    | cons u us ihu => exact (ih u).append ihu

theorem leafOffs_subset (t : BTree h) : ∀ o ∈ leafOffs t, o ∈ t.offs := fun _ ho =>
  (leafOffs_sublist t).subset ho

/-! ## Links -/

def leftOf (s : Stream) (off : Nat) : Nat := le (s.node off) 0 8
def rightOf (s : Stream) (off : Nat) : Nat := le (s.node off) 8 8

/-- The leaves at these offsets are doubly linked in this order, null at both ends. -/
def Linked (s : Stream) (l : List Nat) : Prop :=
  Links (update (rightOf s) btreeNull (l.headD btreeNull))
    (update (leftOf s) btreeNull (l.getLastD btreeNull)) btreeNull l btreeNull

/-! ## The file -/

variable {c : TreeCtx} {total total' off' : Nat}

/-- A node's place: a block behind the header, below the next free offset. -/
structure InFile (total off : Nat) : Prop where
  aligned : off % blockSize = 0
  pos : 0 < off
  lt : off < total

theorem treeOpen_eq_some {room : Nat} : treeOpen s room = some c ↔ 1 ≤ s.size ∧ le (s.node 0) 0 4 = btreeMagic ∧
      c = ⟨s, le (s.node 0) 8 4, le (s.node 0) 16 8, le (s.node 0) 32 8, room⟩ := by
  unfold treeOpen Stream.streamRead
  rw [if_pos (Nat.zero_mod _)]
  by_cases hsize : 1 ≤ s.size
  · have hfull : 0 + blockSize ≤ blockSize * s.size := by
      unfold blockSize
      omega
    rw [if_pos hfull]
    simp only []
    by_cases hmagic : le (s.node 0) 0 4 = btreeMagic
    · rw [if_neg (not_not.mpr hmagic), Option.some.injEq]
      exact ⟨fun h => ⟨hsize, hmagic, h.symm⟩, fun h => h.2.2.symm⟩
    · rw [if_pos hmagic]
      exact ⟨fun h => (nomatch h), fun h => absurd h.2.1 hmagic⟩
  · have hfull : ¬ 0 + blockSize ≤ blockSize * s.size := by
      unfold blockSize
      omega
    rw [if_neg hfull]
    exact ⟨fun h => (nomatch h), fun h => absurd h.1 hsize⟩

/-- The header says what the context holds, and the free offset lies in the stream. -/
structure FileOk (c : TreeCtx) : Prop where
  header : treeOpen c.stream c.room = some c
  aligned : c.total % blockSize = 0
  pos : blockSize ≤ c.total
  le_size : c.total ≤ blockSize * c.stream.size
  size_le : c.stream.size ≤ streamMax

/-- **The invariant**: the stream of `c` holds the tree `t`. -/
structure Stands (numeric : Bool) (c : TreeCtx) {h : Nat} (t : BTree h) : Prop where
  file : FileOk c
  rep : Rep numeric c.stream t
  root : t.off = c.root
  depth : c.depth = h + 1
  height : h < pathMax
  ordered : InOrder (rank numeric) (t.marks Entry.key)
  nodup : t.offs.Nodup
  inFile : ∀ o ∈ t.offs, InFile c.total o
  spined : t.Spined
  linked : Linked c.stream (leafOffs t)

theorem InFile.mono (h : InFile total off) (hle : total ≤ total') :
    InFile total' off := ⟨h.aligned, h.pos, Nat.lt_of_lt_of_le h.lt hle⟩

theorem InFile.div_ne (h : InFile total off) (h' : InFile total' off')
    (hne : off ≠ off') : off / blockSize ≠ off' / blockSize := by
  have h1 := h.aligned
  have h2 := h'.aligned
  unfold blockSize at *
  omega

theorem InFile.div_pos (h : InFile total off) : off / blockSize ≠ 0 := by
  have h1 := h.aligned
  have h2 := h.pos
  unfold blockSize at *
  omega

theorem FileOk.total_lt (h : FileOk c) : c.total < 2 ^ 32 := by
  have h1 := h.le_size
  have h2 := h.size_le
  unfold blockSize at h1
  unfold streamMax at h2
  omega

theorem FileOk.load (h : FileOk c) (ho : InFile c.total off) :
    c.stream.nodeLoad off = some (c.stream.node off, off / blockSize) := by
  have h1 := h.le_size
  have h2 := ho.lt
  rw [Stream.nodeLoad, if_pos]
  unfold blockSize at *
  omega

theorem FileOk.ne_null (h : FileOk c) (ho : InFile c.total off) : off ≠ btreeNull := by
  have h1 := h.total_lt
  have h2 := ho.lt
  unfold btreeNull
  omega

/-! ## Stores -/

theorem node_leafStore (s : Stream) (blk : Nat) (b : Block) (off : Nat) :
    (s.leafStore blk b).node off = if off / blockSize = blk then b else s.node off := by
  unfold Stream.leafStore Stream.node
  split_ifs with h
  · rw [h]
    exact update_self _ _ _
  · exact update_of_ne h _ _

theorem node_store_self {b : Block} (off : Nat) : (s.leafStore (off / blockSize) b).node off = b := by
  rw [node_leafStore, if_pos rfl]

theorem node_store_ne {b : Block} (h : InFile total off) (h' : InFile total' off') (hne : off' ≠ off) :
    (s.leafStore (off / blockSize) b).node off' = s.node off' := by
  rw [node_leafStore, if_neg (h'.div_ne h hne)]

theorem FileOk.store (h : FileOk c) (ho : InFile total off) (b : Block) :
    FileOk (c.store (off / blockSize) b) := by
  have hzero : (c.stream.leafStore (off / blockSize) b).node 0 = c.stream.node 0 := by
    rw [node_leafStore, if_neg]
    intro he
    exact ho.div_pos (he ▸ Nat.zero_div _)
  obtain ⟨hsize, hmagic, hc⟩ := treeOpen_eq_some.mp h.header
  rw [TreeCtx.mk.injEq] at hc
  refine ⟨treeOpen_eq_some.mpr ⟨hsize, ?_, ?_⟩, h.aligned, h.pos, h.le_size, h.size_le⟩
  · rw [← hmagic, ← hzero]
    rfl
  · have hstream : (c.store (off / blockSize) b).stream = c.stream.leafStore (off / blockSize) b := rfl
    rw [hstream, hzero, ← hc.2.1, ← hc.2.2.1, ← hc.2.2.2.1]
    rfl

/-!
## What the writes of a B+tree do to the stream

Three kinds of writes happen: the header's free offset moves when a node is allocated, a node is
stored with entries and links of its own, and the right link of a leaf is patched.  Each is described
by what it leaves: the nodes elsewhere, the header, the chain of the leaves.
-/

/-! ## Allocating a node -/

variable {v width new : Nat}

/-- The context after `Tree_Alloc_Node`: one more node's worth of file, every node as before. -/
structure Alloced (c c' : TreeCtx) : Prop where
  file : FileOk c'
  total : c'.total = c.total + blockSize
  depth : c'.depth = c.depth
  root : c'.root = c.root
  node : ∀ off, off / blockSize ≠ 0 → c'.stream.node off = c.stream.node off

theorem treeOpen_hdrPut {s : Stream} {room off : Nat} {c : TreeCtx} (h : treeOpen s room = some c)
    (hoff : 4 ≤ off) :
    treeOpen (s.hdrPut off width v) room = some ⟨s.hdrPut off width v, le (putLe (s.node 0) off width v) 8 4,
      le (putLe (s.node 0) off width v) 16 8, le (putLe (s.node 0) off width v) 32 8, room⟩ := by
  obtain ⟨hsize, hmagic, -⟩ := treeOpen_eq_some.mp h
  have hzero : s.node 0 = s.block 0 := by
    unfold Stream.node
    rw [Nat.zero_div]
  have hnode : (s.hdrPut off width v).node 0 = putLe (s.node 0) off width v := by
    unfold Stream.hdrPut
    rw [node_leafStore, if_pos (Nat.zero_div _), hzero]
  refine treeOpen_eq_some.mpr ⟨hsize, ?_, ?_⟩
  · rw [hnode, le_putLe_disjoint _ _ _ _ _ _ (by omega), hmagic]
  · rw [hnode]

theorem treeOpen_hdrPut_total {s : Stream} {room : Nat} {c : TreeCtx} (h : treeOpen s room = some c)
    {total : Nat} (ht : total < 2 ^ 64) :
    treeOpen (s.hdrPut 32 8 total) room = some { c with stream := s.hdrPut 32 8 total, total := total } := by
  obtain ⟨-, -, hc⟩ := treeOpen_eq_some.mp h
  rw [treeOpen_hdrPut h (by omega), le_putLe_disjoint _ _ _ _ _ _ (by omega),
    le_putLe_disjoint _ _ _ _ _ _ (by omega), le_putLe, Nat.mod_eq_of_lt (by omega), hc]

theorem treeOpen_hdrPut_root {s : Stream} {room : Nat} {c : TreeCtx} (h : treeOpen s room = some c)
    {root : Nat} (hr : root < 2 ^ 64) :
    treeOpen (s.hdrPut 16 8 root) room = some { c with stream := s.hdrPut 16 8 root, root := root } := by
  obtain ⟨-, -, hc⟩ := treeOpen_eq_some.mp h
  rw [treeOpen_hdrPut h (by omega), le_putLe_disjoint _ _ _ _ _ _ (by omega), le_putLe,
    le_putLe_disjoint _ _ _ _ _ _ (by omega), Nat.mod_eq_of_lt (by omega), hc]

theorem treeOpen_hdrPut_depth {s : Stream} {room : Nat} {c : TreeCtx} (h : treeOpen s room = some c)
    {depth : Nat} (hd : depth < 2 ^ 32) :
    treeOpen (s.hdrPut 8 4 depth) room = some { c with stream := s.hdrPut 8 4 depth, depth := depth } := by
  obtain ⟨-, -, hc⟩ := treeOpen_eq_some.mp h
  rw [treeOpen_hdrPut h (by omega), le_putLe, le_putLe_disjoint _ _ _ _ _ _ (by omega),
    le_putLe_disjoint _ _ _ _ _ _ (by omega), Nat.mod_eq_of_lt (by omega), hc]

theorem node_hdrPut {s : Stream} {off y : Nat} (hy : y / blockSize ≠ 0) :
    (s.hdrPut off width v).node y = s.node y := by
  unfold Stream.hdrPut
  rw [node_leafStore, if_neg hy]

theorem treeOpen_grow {s : Stream} {room : Nat} {c : TreeCtx} (h : treeOpen s room = some c) :
    treeOpen { s with size := s.size + 1 } (room - 1)
      = some { c with stream := { s with size := s.size + 1 }, room := room - 1 } := by
  obtain ⟨hsize, hmagic, hc⟩ := treeOpen_eq_some.mp h
  refine treeOpen_eq_some.mpr ⟨Nat.le_add_left _ _, hmagic, ?_⟩
  rw [hc]
  rfl

theorem treeAllocNode_spec {c c' : TreeCtx} {blk : Nat} (hc : FileOk c)
    (h : c.treeAllocNode = .ok (c', new, blk)) :
    new = c.total ∧ blk = c.total / blockSize ∧ Alloced c c' := by
  have hlt := hc.total_lt
  have hmod : (c.total + blockSize) % 2 ^ 64 = c.total + blockSize := by
    refine Nat.mod_eq_of_lt ?_
    unfold blockSize
    omega
  have haligned := hc.aligned
  have hsize := hc.le_size
  have hmax := hc.size_le
  unfold TreeCtx.treeAllocNode at h
  simp only [hmod] at h
  by_cases hfull : c.total + blockSize > blockSize * c.stream.size
  · by_cases hno : c.room = 0 ∨ c.stream.size = streamMax
    · rw [if_pos ⟨hfull, hno⟩] at h
      cases h
    · rw [if_neg fun hand => hno hand.2, if_pos hfull] at h
      have hin : c.total / blockSize < c.stream.size + 1 := by
        unfold blockSize at *
        omega
      rw [if_pos hin] at h
      simp only [hmod] at h
      injection h with h
      obtain ⟨rfl, rfl, rfl⟩ := h
      refine ⟨rfl, rfl, ⟨?_, ?_, ?_, ?_, ?_⟩, rfl, rfl, rfl, fun off hoff => node_hdrPut hoff⟩
      · exact treeOpen_hdrPut_total (treeOpen_grow hc.header) (by unfold blockSize; omega)
      · show (c.total + blockSize) % blockSize = 0
        rw [Nat.add_mod_right]
        exact haligned
      · show blockSize ≤ c.total + blockSize
        omega
      · show c.total + blockSize ≤ blockSize * (c.stream.size + 1)
        unfold blockSize at *
        omega
      · show c.stream.size + 1 ≤ streamMax
        omega
  · rw [if_neg fun hand => hfull hand.1, if_neg hfull] at h
    have hin : c.total / blockSize < c.stream.size := by
      unfold blockSize at *
      omega
    rw [if_pos hin] at h
    simp only [hmod] at h
    injection h with h
    obtain ⟨rfl, rfl, rfl⟩ := h
    refine ⟨rfl, rfl, ⟨?_, ?_, ?_, ?_, hmax⟩, rfl, rfl, rfl, fun off hoff => node_hdrPut hoff⟩
    · exact treeOpen_hdrPut_total hc.header (by unfold blockSize; omega)
    · show (c.total + blockSize) % blockSize = 0
      rw [Nat.add_mod_right]
      exact haligned
    · show blockSize ≤ c.total + blockSize
      omega
    · show c.total + blockSize ≤ blockSize * c.stream.size
      omega

theorem FileOk.inFile_total {c : TreeCtx} (h : FileOk c) : InFile (c.total + blockSize) c.total :=
  ⟨h.aligned, Nat.lt_of_lt_of_le (by decide) h.pos, Nat.lt_add_of_pos_right (by decide)⟩

/-! ## Storing a node -/

theorem stored_node {es : List Entry} {b : Block} (h : leafEncode es = some b) (hok : ∀ e ∈ es, e.Ok)
    (s : Stream) (off l r o : Nat) (ho : o < 2 ^ 64) :
    Holds (s.leafStore (off / blockSize) (setLinks b l r o)) off o es ∧
      leftOf (s.leafStore (off / blockSize) (setLinks b l r o)) off = l % 256 ^ 8 ∧
      rightOf (s.leafStore (off / blockSize) (setLinks b l r o)) off = r % 256 ^ 8 := by
  obtain ⟨hdec, hcount⟩ := leafDecode_setLinks h hok l r o
  have hnode := node_store_self (s := s) (b := setLinks b l r o) off
  refine ⟨⟨?_, ?_, ?_⟩, ?_, ?_⟩
  · rw [hnode, setLinks_overflow]
    exact Nat.mod_eq_of_lt ho
  · rw [hnode, hdec]
  · rw [hnode, hcount]
  · rw [leftOf, hnode, setLinks_left]
  · rw [rightOf, hnode, setLinks_right]

theorem leftOf_lt (s : Stream) (off : Nat) : leftOf s off < 256 ^ 8 := le_lt _ _ _
theorem rightOf_lt (s : Stream) (off : Nat) : rightOf s off < 256 ^ 8 := le_lt _ _ _

/-! ## The chain -/

variable {A B : List Nat} {x : Nat}

theorem Linked.congr {s s' : Stream} {l : List Nat} (h : Linked s l)
    (hs : ∀ o ∈ l, leftOf s' o = leftOf s o ∧ rightOf s' o = rightOf s o) : Linked s' l := by
  refine Links.congr h (fun x hx => ?_) (fun x hx => ?_)
  · by_cases hn : x = btreeNull
    · rw [hn, update_self, update_self]
    · rcases hx with hx | hx
      · exact absurd hx hn
      · rw [update_of_ne hn, update_of_ne hn, (hs x hx).2]
  · by_cases hn : x = btreeNull
    · rw [hn, update_self, update_self]
    · rcases hx with hx | hx
      · rw [update_of_ne hn, update_of_ne hn, (hs x hx).1]
      · exact absurd hx hn

theorem Linked.leftOf_eq {s : Stream} (h : Linked s (A ++ x :: B))
    (hx : x ≠ btreeNull) : leftOf s x = A.getLastD btreeNull := by
  obtain ⟨hA, -⟩ := Links.append_iff.mp h
  have hprev := hA.prev_eq
  rw [update_of_ne hx] at hprev
  exact hprev

theorem Linked.rightOf_eq {s : Stream} (h : Linked s (A ++ x :: B))
    (hx : x ≠ btreeNull) : rightOf s x = B.headD btreeNull := by
  obtain ⟨-, hB⟩ := Links.append_iff.mp h
  have hnext := hB.next_eq
  rw [update_of_ne hx] at hnext
  exact hnext

theorem getLastD_eq_or_mem (d : Nat) (l : List Nat) : (l = [] ∧ l.getLastD d = d) ∨ l.getLastD d ∈ l := by
  rcases List.eq_nil_or_concat l with rfl | ⟨as, a, rfl⟩
  · exact .inl ⟨rfl, rfl⟩
  · right
    simp [List.getLastD_eq_getLast?]

/-- **A new leaf before `x`**: its own links, the left link of `x`, and the right link of the leaf
    before, if there is one. -/
theorem Linked.insertBefore {s s' : Stream} (h : Linked s (A ++ x :: B))
    (hnd : (A ++ x :: B).Nodup) (hnull : btreeNull ∉ A ++ x :: B) (hnew : new ∉ A ++ x :: B)
    (hnn : new ≠ btreeNull) (hnl : leftOf s' new = leftOf s x) (hnr : rightOf s' new = x)
    (hxl : leftOf s' x = new) (hlr : leftOf s x ≠ btreeNull → rightOf s' (leftOf s x) = new)
    (hls : ∀ o ∈ A ++ x :: B, o ≠ x → leftOf s' o = leftOf s o)
    (hrs : ∀ o ∈ A ++ x :: B, o ≠ leftOf s x → rightOf s' o = rightOf s o) :
    Linked s' (A ++ new :: x :: B) := by
  have hxn : x ≠ btreeNull := fun he => hnull (he ▸ List.mem_append_right _ List.mem_cons_self)
  have hleft := h.leftOf_eq hxn
  have hprevx := update_of_ne hxn ((A ++ x :: B).getLastD btreeNull) (leftOf s)
  have hmemne : ∀ y ∈ A ++ x :: B, y ≠ btreeNull := fun y hy he => hnull (he ▸ hy)
  refine Links.insertBefore h (List.nodup_cons.mpr ⟨hnull, hnd⟩) hnull hnew ?_ ?_ ?_ ?_ ?_ ?_
  · rw [hprevx, hleft]
    rcases getLastD_eq_or_mem btreeNull A with ⟨hA, hnil⟩ | hin
    · -- `x` was the first leaf: the head moves
      rw [hnil, update_self, hA]
      rfl
    · have hne := hmemne _ (List.mem_append_left _ hin)
      rw [update_of_ne hne, ← hleft]
      exact hlr (hleft ▸ hne)
  · rw [update_of_ne hnn, hnr]
  · rw [update_of_ne hnn, hprevx, hnl]
  · rw [update_of_ne hxn, hxl]
  · intro y hy hyp
    rw [hprevx] at hyp
    rcases hy with rfl | hy
    · rw [update_self, update_self]
      cases A with
      | nil => exact absurd hleft.symm hyp
      | cons a as => rfl
    · have hne := hmemne y hy
      rw [update_of_ne hne, update_of_ne hne, hrs y hy hyp]
  · intro y hy hyx
    rcases hy with hy | rfl
    · have hne := hmemne y hy
      rw [update_of_ne hne, update_of_ne hne, hls y hy hyx]
    · rw [update_self, update_self]
      simp [List.getLastD_eq_getLast?, List.getLast?_append]

end Aegir.Bfs
