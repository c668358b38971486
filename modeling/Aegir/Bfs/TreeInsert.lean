/-
  `Tree_Insert` adds one pair to the tree.

  The insertion works from the leaf to the root, but its effect is described from a subtree's root down:
  `Site` says where in the chain a subtree's leaves stand, `Outcome` what its levels have become when the loop
  leaves them, one tree or two.  The induction is on the height: the grown kid goes back into its hole, with
  one more entry in the branch if it is two, or a split of that branch in turn.
-/
import Aegir.Bfs.TreeRep

namespace Aegir.Bfs

open Aegir.Lib Aegir.Lib.BPlus List

/-- Where the leaves of a grown subtree stand. -/
def leafOffsOf {h : Nat} (G : Grown (List UInt8) (BTree h)) : List Nat := G.fold leafOffs fun _ => []

/-- A subtree in its tree: the leaves of `P` stand left of its own, those of `Q` right of them. -/
structure Site (numeric : Bool) (P Q : List Nat) {h : Nat} (t : BTree h) (c : TreeCtx) : Prop where
  file : FileOk c
  rep : Rep numeric c.stream t
  ordered : InOrder (rank numeric) (t.marks Entry.key)
  nodup : t.offs.Nodup
  inFile : ∀ o ∈ t.offs, InFile c.total o
  linked : Linked c.stream (P ++ leafOffs t ++ Q)
  chain : (P ++ leafOffs t ++ Q).Nodup
  around : ∀ o ∈ P ++ Q, InFile c.total o ∧ o ∉ t.offs

/-- The subtree `t` has become `G`, with `x` in it, whatever the nodes of `G` hold. -/
structure Grew (numeric : Bool) (x : Entry) (P Q : List Nat) {h : Nat} (t : BTree h) (c c' : TreeCtx)
    (G : Grown (List UInt8) (BTree h)) : Prop where
  adds : Adds (rank numeric) Entry.key x t G
  fresh : Fresh c.total c'.total t G
  inFile : ∀ o ∈ G.offs, InFile c'.total o
  main_off : G.main.off = t.off
  spined : t.Spined → G.first.Spined
  linked : Linked c'.stream (P ++ leafOffsOf G ++ Q)
  frame : ∀ y, InFile c.total y → y ∉ t.offs → SameBody c.stream c'.stream y
  depth : c'.depth = c.depth
  root : c'.root = c.root
  file : FileOk c'
  total_le : c.total ≤ c'.total

/-- The subtree `t` has become `G`, and the nodes of `G` hold it. -/
structure Outcome (numeric : Bool) (x : Entry) (P Q : List Nat) {h : Nat} (t : BTree h) (c c' : TreeCtx)
    (G : Grown (List UInt8) (BTree h)) : Prop extends Grew numeric x P Q t c c' G where
  rep : ∀ u ∈ G.trees, Rep numeric c'.stream u

theorem Site.chain_ne_null {numeric : Bool} {P Q : List Nat} {h : Nat} {t : BTree h} {c : TreeCtx}
    (hs : Site numeric P Q t c) : ∀ o ∈ P ++ leafOffs t ++ Q, InFile c.total o := by
  intro o ho
  simp only [mem_append] at ho
  rcases ho with (ho | ho) | ho
  · exact (hs.around o (mem_append_left _ ho)).1
  · exact hs.inFile o (leafOffs_subset t o ho)
  · exact (hs.around o (mem_append_right _ ho)).1

/-! ## The new entry -/

section Entry

variable {numeric : Bool} {k : SearchKey} {v : Nat} {es : List Entry}

theorem entryInsertAt_passed (hk : k.Ok numeric) (hes : ∀ e ∈ es, KeyOk numeric e.key) :
    entryInsertAt es (passed k es) k v
      = es.takeWhile (upTo numeric k) ++ ⟨k.bytes, v⟩ :: es.dropWhile (upTo numeric k) := by
  have happ := takeWhile_append_dropWhile (p := upTo numeric k) (l := es)
  rw [entryInsertAt, passed_eq hk hes]
  generalize hlow : es.takeWhile (upTo numeric k) = low at happ ⊢
  generalize es.dropWhile (upTo numeric k) = high at happ ⊢
  rw [← happ, take_left, drop_left]

theorem KeyOk.entry {key : List UInt8} {val : Nat} (h : KeyOk numeric key) (hv : val < 2 ^ 64) :
    Entry.Ok ⟨key, val⟩ := ⟨h.pos, h.le_max, hv⟩

end Entry

/-! ## One node stored -/

theorem insertHere_spec {c c' : TreeCtx} {x : Target} (h : c.insertHere x = .ok c') :
    ∃ b, leafEncode (entryInsertAt x.entries x.pos x.push x.pushV) = some b ∧
      c' = c.store x.blk (setLinks b (le x.buf 0 8) (le x.buf 8 8) (le x.buf 16 8)) := by
  unfold TreeCtx.insertHere at h
  split at h
  · cases h
  · rename_i b henc
    injection h with h
    exact ⟨b, henc, h.symm⟩

/-- A new node has been allocated, and it and the node at `off` have been written. -/
structure Paired (c c' : TreeCtx) (off new newBlk : Nat) : Prop where
  new_eq : new = c.total
  blk : newBlk = new / blockSize
  new_ne : new ≠ off
  inFile : InFile c'.total new
  total : c'.total = c.total + blockSize
  le : c.total ≤ c'.total
  depth : c'.depth = c.depth
  root : c'.root = c.root
  file : FileOk c'

theorem store_pair {c c₁ c₂ c₃ : TreeCtx} {off new newBlk : Nat} {lo hi : Block} (hc : FileOk c)
    (hin : InFile c.total off) (halloc : c.treeAllocNode = .ok (c₁, new, newBlk)) (hc₂ : c₂ = c₁.store newBlk lo)
    (hc₃ : c₃ = c₂.store (off / blockSize) hi) :
    Paired c c₃ off new newBlk ∧ c₃.stream.node new = c₂.stream.node new ∧
      ∀ y, InFile c.total y → y ≠ off → c₃.stream.node y = c.stream.node y := by
  obtain ⟨hnew, hblk, hal⟩ := treeAllocNode_spec hc halloc
  rw [← hnew] at hblk
  subst hblk hc₂ hc₃
  have htotal := hal.total
  have hbs : 0 < blockSize := by decide
  have hnewin : InFile c₁.total new := by
    rw [htotal, hnew]
    exact hc.inFile_total
  have hle : c.total ≤ c₁.total := by omega
  have hne : new ≠ off := by
    have := hin.lt
    omega
  have hoff := hin.mono hle
  refine ⟨⟨hnew, rfl, hne, hnewin, htotal, hle, hal.depth, hal.root, (hal.file.store hnewin _).store hoff _⟩,
    node_store_ne hoff hnewin hne, fun y hy hyne => ?_⟩
  have hynew : y ≠ new := by
    have := hy.lt
    omega
  have hy1 := hy.mono hle
  exact (node_store_ne hoff hy1 hyne).trans ((node_store_ne hnewin hy1 hynew).trans (hal.node y hy.div_pos))

theorem links_of_node_eq {s s' : Stream} {o : Nat} (h : s'.node o = s.node o) :
    leftOf s' o = leftOf s o ∧ rightOf s' o = rightOf s o := by
  unfold leftOf rightOf
  rw [h]
  exact ⟨rfl, rfl⟩

/-! ## At the leaf -/

section Leaf

variable {numeric : Bool} {P Q : List Nat} {l : Leaf Entry} {c c' : TreeCtx} {k : SearchKey}
  {v left new m newBlk : Nat}

/-- The leaf with the new entry. -/
def leafWith (numeric : Bool) (l : Leaf Entry) (k : SearchKey) (v : Nat) : Leaf Entry :=
  ⟨l.off, l.items.takeWhile (upTo numeric k) ++ ⟨k.bytes, v⟩ :: l.items.dropWhile (upTo numeric k)⟩

/-- The insertion into a leaf, as the loop sees it. -/
def leafTarget (c : TreeCtx) (l : Leaf Entry) (k : SearchKey) (v : Nat) : Target :=
  ⟨l.off, l.off / blockSize, c.stream.node l.off, l.items, passed k l.items, k, v⟩

section

variable (hs : Site numeric P Q (h := 0) l c)

include hs

theorem leafWith_items (hk : k.Ok numeric) :
    entryInsertAt l.items (passed k l.items) k v = (leafWith numeric l k v).items :=
  entryInsertAt_passed hk (LeafStored.keys hs.rep)

theorem leafWith_ok (hk : k.Ok numeric) (hv : v < 2 ^ 64) :
    (∀ e ∈ (leafWith numeric l k v).items, KeyOk numeric e.key) ∧
      ∀ e ∈ (leafWith numeric l k v).items, e.val < 2 ^ 64 := by
  have hrep : LeafStored numeric c.stream l := hs.rep
  rw [← leafWith_items hs hk]
  constructor
  · intro e he
    rcases mem_entryInsertAt he with he | rfl
    · exact hrep.keys e he
    · exact hk.key
  · intro e he
    rcases mem_entryInsertAt he with he | rfl
    · exact hrep.vals e he
    · exact hv

theorem leafWith_adds :
    Adds (rank numeric) Entry.key ⟨k.bytes, v⟩ (h := 0) l (.one (leafWith numeric l k v)) :=
  Adds.leaf l hs.ordered (upTo numeric k) fun _ _ => decide_eq_true_iff

theorem leaf_insertHere (hk : k.Ok numeric) (hv : v < 2 ^ 64) (h : c.insertHere (leafTarget c l k v) = .ok c') :
    Outcome numeric ⟨k.bytes, v⟩ P Q (h := 0) l c c' (.one (leafWith numeric l k v)) := by
  have hrep : LeafStored numeric c.stream l := hs.rep
  have hin : InFile c.total l.off := hs.inFile _ (mem_singleton_self _)
  obtain ⟨hkeys, hvals⟩ := leafWith_ok hs hk hv
  have hok : ∀ e ∈ (leafWith numeric l k v).items, e.Ok := fun e he => (hkeys e he).entry (hvals e he)
  obtain ⟨b, henc, hc'⟩ := insertHere_spec h
  have hover : le (c.stream.node l.off) 16 8 = btreeNull := hrep.holds.overflow
  rw [leafTarget, leafWith_items hs hk] at henc
  obtain ⟨hholds, hleft, hright⟩ := stored_node henc hok c.stream l.off (leftOf c.stream l.off)
    (rightOf c.stream l.off) btreeNull (by decide)
  rw [Nat.mod_eq_of_lt (leftOf_lt _ _)] at hleft
  rw [Nat.mod_eq_of_lt (rightOf_lt _ _)] at hright
  rw [show le (leafTarget c l k v).buf 16 8 = btreeNull from hover] at hc'
  have hnode : ∀ y, InFile c.total y → y ≠ l.off → c'.stream.node y = c.stream.node y := by
    intro y hy hne
    rw [hc']
    exact node_store_ne hin hy hne
  subst hc'
  refine ⟨⟨leafWith_adds hs, ⟨nodup_singleton _, fun o ho => .inl ho⟩, ?_, rfl, fun _ => trivial, ?_, ?_, rfl, rfl,
    hs.file.store hin _, Nat.le_refl _⟩, ?_⟩
  · intro o ho
    rw [mem_singleton.mp ho]
    exact hin
  · refine hs.linked.congr fun o ho => ?_
    by_cases he : o = l.off
    · rw [he]
      exact ⟨hleft, hright⟩
    · exact links_of_node_eq (hnode o (hs.chain_ne_null o ho) he)
  · intro y hy hny
    exact .of_node_eq (hnode y hy fun he => hny (he ▸ mem_singleton_self _))
  · intro u hu
    rw [mem_singleton.mp hu]
    exact ⟨hholds, hkeys, hvals⟩

end

theorem relinkLeft_spec {c : TreeCtx} (h : c.relinkLeft left new = .ok c') : (left = btreeNull ∧ c' = c) ∨
      (left ≠ btreeNull ∧ c' = c.store (left / blockSize) (putLe (c.stream.node left) 8 8 new)) := by
  unfold TreeCtx.relinkLeft at h
  split_ifs at h with hl
  · injection h with h
    exact .inl ⟨hl, h.symm⟩
  · unfold Stream.nodeLoad at h
    by_cases hin : left / blockSize < c.stream.size
    · rw [if_pos hin] at h
      injection h with h
      exact .inr ⟨hl, h.symm⟩
    · rw [if_neg hin] at h
      cases h

theorem relinkLeft_frame {c : TreeCtx} (hc : FileOk c) (h : c.relinkLeft left new = .ok c')
    (hleft : left ≠ btreeNull → InFile c.total left) (hnew : new < 256 ^ 8) :
    (FileOk c' ∧ c'.total = c.total ∧ c'.depth = c.depth ∧ c'.root = c.root) ∧
      (∀ y, InFile c.total y → SameBody c.stream c'.stream y ∧ leftOf c'.stream y = leftOf c.stream y ∧
        (y ≠ left → rightOf c'.stream y = rightOf c.stream y)) ∧
      (left ≠ btreeNull → rightOf c'.stream left = new) := by
  rcases relinkLeft_spec h with ⟨hl, rfl⟩ | ⟨hl, rfl⟩
  · exact ⟨⟨hc, rfl, rfl, rfl⟩, fun y _ => ⟨fun _ _ => rfl, rfl, fun _ => rfl⟩, fun hne => absurd hl hne⟩
  · have hin := hleft hl
    refine ⟨⟨hc.store hin _, rfl, rfl, rfl⟩, ?_, ?_⟩
    · intro y hy
      by_cases he : y = left
      · subst he
        have hnode := node_store_self (s := c.stream) (b := putLe (c.stream.node y) 8 8 new) y
        refine ⟨fun j hj => ?_, ?_, fun hne => absurd rfl hne⟩
        · show (c.stream.leafStore _ _).node y j = _
          rw [hnode, putLe_outside _ _ _ _ _ (by omega)]
        · show le ((c.stream.leafStore _ _).node y) 0 8 = _
          rw [hnode, le_putLe_disjoint _ _ _ _ _ _ (by omega)]
          rfl
      · have hnode := node_store_ne (s := c.stream) (b := putLe (c.stream.node left) 8 8 new) hin hy he
        refine ⟨.of_node_eq hnode, ?_, fun _ => ?_⟩
        · show le ((c.stream.leafStore _ _).node y) 0 8 = _
          rw [hnode]
          rfl
        · show le ((c.stream.leafStore _ _).node y) 8 8 = _
          rw [hnode]
          rfl
    · intro _
      show le ((c.stream.leafStore _ _).node left) 8 8 = new
      rw [node_store_self, le_putLe, Nat.mod_eq_of_lt hnew]

theorem splitLeaf_spec {c : TreeCtx} {x : Target} {es : List Entry} {sep : SearchKey}
    (h : c.splitLeaf x es m new newBlk = .ok (c', sep)) :
    ∃ lo hi e rest, leafEncode (es.take m) = some lo ∧ leafEncode (es.drop m) = some hi ∧
      es.drop m = e :: rest ∧ sep = skEntry e x.push.numeric ∧
      ((c.store newBlk (setLinks lo (le x.buf 0 8) x.off btreeNull)).store x.blk
        (setLinks hi new (le x.buf 8 8) (le x.buf 16 8))).relinkLeft (le x.buf 0 8) new = .ok c' := by
  unfold TreeCtx.splitLeaf at h
  split at h
  · rename_i lo hi e hlo hhi he
    obtain ⟨rest, hdrop⟩ := head?_eq_some_iff.mp he
    dsimp only at h
    split at h
    · cases h
    · rename_i c₁ hlink
      injection h with h
      rw [Prod.mk.injEq] at h
      exact ⟨lo, hi, e, rest, hlo, hhi, hdrop, h.2.symm, h.1 ▸ hlink⟩
  · cases h

theorem leaf_split (hs : Site numeric P Q (h := 0) l c) (hk : k.Ok numeric) (hv : v < 2 ^ 64) {c₁ : TreeCtx}
    {sep : SearchKey} (halloc : c.treeAllocNode = .ok (c₁, new, newBlk))
    (h : c₁.splitLeaf (leafTarget c l k v) (leafWith numeric l k v).items m new newBlk = .ok (c', sep)) :
    sep.Ok numeric ∧ Outcome numeric ⟨k.bytes, v⟩ P Q (h := 0) l c c'
      (.two (Leaf.mk new ((leafWith numeric l k v).items.take m)) sep.bytes
        (Leaf.mk l.off ((leafWith numeric l k v).items.drop m))) := by
  have hrep : LeafStored numeric c.stream l := hs.rep
  have hin : InFile c.total l.off := hs.inFile _ (mem_singleton_self _)
  obtain ⟨hkeys, hvals⟩ := leafWith_ok hs hk hv
  have hadds := leafWith_adds (v := v) (k := k) hs
  have hlwoff : (leafWith numeric l k v).off = l.off := rfl
  generalize leafWith numeric l k v = lw at *
  have hok : ∀ e ∈ lw.items, e.Ok := fun e he => (hkeys e he).entry (hvals e he)
  obtain ⟨lo, hi, e, rest, henc, henc', hdrop, hsep, hrel⟩ := splitLeaf_spec h
  have hemem : e ∈ lw.items := mem_of_mem_drop (hdrop ▸ mem_cons_self)
  have hover : le (c.stream.node l.off) 16 8 = btreeNull := hrep.holds.overflow
  rw [show le (leafTarget c l k v).buf 16 8 = btreeNull from hover] at hrel
  -- the two halves, stored
  obtain ⟨c₂, c₃, hc₂, hc₃, hrel⟩ : ∃ c₂ c₃,
      c₂ = c₁.store newBlk (setLinks lo (leftOf c.stream l.off) l.off btreeNull) ∧
      c₃ = c₂.store (l.off / blockSize) (setLinks hi new (rightOf c.stream l.off) btreeNull) ∧
      c₃.relinkLeft (leftOf c.stream l.off) new = .ok c' := ⟨_, _, rfl, rfl, hrel⟩
  obtain ⟨hp, hnewnode, hnode⟩ := store_pair hs.file hin halloc hc₂ hc₃
  rw [hp.blk] at hc₂
  have hle := hp.le
  have hlt := hp.file.total_lt
  have hnewlt := hp.inFile.lt
  have hofflt := hin.lt
  obtain ⟨hlo, hlol, hlor⟩ := stored_node henc (fun e he => hok e (mem_of_mem_take he)) c₁.stream new
    (leftOf c.stream l.off) l.off btreeNull (by decide)
  obtain ⟨hhi, hhil, hhir⟩ := stored_node henc' (fun e he => hok e (mem_of_mem_drop he)) c₂.stream l.off
    new (rightOf c.stream l.off) btreeNull (by decide)
  rw [Nat.mod_eq_of_lt (leftOf_lt _ _)] at hlol
  rw [Nat.mod_eq_of_lt (by omega)] at hhil
  rw [Nat.mod_eq_of_lt (rightOf_lt _ _)] at hhir
  rw [Nat.mod_eq_of_lt (by omega)] at hlor
  -- the leaf before, whose right link is patched
  have hchain : P ++ leafOffs (h := 0) l ++ Q = P ++ l.off :: Q := append_assoc ..
  have hlinked := hs.linked
  have hnd := hs.chain
  have hall := hs.chain_ne_null
  rw [hchain] at hlinked hnd hall
  have hleft := hlinked.leftOf_eq (hs.file.ne_null hin)
  have hleftin : leftOf c.stream l.off ≠ btreeNull → InFile c.total (leftOf c.stream l.off) := by
    intro hne
    rw [hleft] at hne ⊢
    rcases getLastD_eq_or_mem btreeNull P with ⟨-, hnil⟩ | hmem
    · exact absurd hnil hne
    · exact (hs.around _ (mem_append_left _ hmem)).1
  obtain ⟨⟨hfile', htotal', hdepth', hroot'⟩, hframe', hright'⟩ := relinkLeft_frame hp.file hrel
    (fun hne => (hleftin hne).mono hle) (by omega)
  have hmono : ∀ y, InFile c.total y → InFile c₃.total y := fun y hy => hy.mono hle
  have hnewne := hp.new_ne
  have hnew := hp.new_eq
  refine ⟨?_, ⟨?_, ⟨?_, ?_⟩, ?_, rfl, fun _ => trivial, ?_, ?_, hdepth'.trans hp.depth, hroot'.trans hp.root, hfile',
    htotal' ▸ hle⟩, ?_⟩
  · rw [hsep, show (leafTarget c l k v).push.numeric = numeric from hk.mode]
    exact skEntry_ok (hkeys e hemem)
  · rw [hsep, ← hlwoff]
    exact hadds.cutLeaf new m hdrop
  · show [new, l.off].Nodup
    simp [hnewne]
  · exact forall_mem_cons.mpr ⟨.inr ⟨hp.new_eq.ge, htotal' ▸ hnewlt⟩, fun o ho => .inl ho⟩
  · rw [htotal']
    exact forall_mem_cons.mpr ⟨hp.inFile, forall_mem_singleton.mpr (hmono _ hin)⟩
  · rw [show P ++ leafOffsOf (h := 0) (.two (Leaf.mk new (lw.items.take m)) sep.bytes
        (Leaf.mk l.off (lw.items.drop m))) ++ Q = P ++ new :: l.off :: Q from append_assoc ..]
    refine hlinked.insertBefore hnd ?_ ?_ ?_ ?_ ?_ ?_ ?_ ?_ ?_
    · intro hmem
      exact hs.file.ne_null (hall _ hmem) rfl
    · intro hmem
      have := (hall _ hmem).lt
      omega
    · exact hp.file.ne_null hp.inFile
    · rw [(hframe' new hp.inFile).2.1, leftOf, hnewnode, hc₂]
      exact hlol
    · rw [(hframe' new hp.inFile).2.2 fun he => ?_, rightOf, hnewnode, hc₂]
      · exact hlor
      · have := (hleftin (he ▸ hp.file.ne_null hp.inFile)).lt
        omega
    · rw [(hframe' l.off (hmono _ hin)).2.1, hc₃]
      exact hhil
    · exact hright'
    · intro o ho hne
      rw [(hframe' o (hmono o (hall o ho))).2.1, leftOf, leftOf, hnode o (hall o ho) hne]
    · intro o ho hne
      rw [(hframe' o (hmono o (hall o ho))).2.2 hne]
      by_cases he : o = l.off
      · rw [he, hc₃]
        exact hhir
      · rw [rightOf, rightOf, hnode o (hall o ho) he]
  · intro y hy hny
    refine SameBody.trans (.of_node_eq (hnode y hy fun he => hny (he ▸ mem_singleton_self _))) ?_
    exact (hframe' y (hmono y hy)).1
  · refine forall_mem_cons.mpr ⟨⟨?_, fun e he => hkeys e (mem_of_mem_take he),
      fun e he => hvals e (mem_of_mem_take he)⟩, forall_mem_singleton.mpr ⟨?_,
      fun e he => hkeys e (mem_of_mem_drop he), fun e he => hvals e (mem_of_mem_drop he)⟩⟩
    · refine Holds.congr (hlo.congr (.of_node_eq ?_)) (hframe' new hp.inFile).1
      rw [hnewnode, hc₂]
      rfl
    · refine Holds.congr ?_ (hframe' l.off (hmono _ hin)).1
      rw [hc₃]
      exact hhi

end Leaf

/-! ## One level up -/

section Branch

variable {numeric : Bool} {P Q : List Nat} {h o : Nat} {b : Branch (List UInt8) (BTree h)} {c c₂ : TreeCtx}
  {k : SearchKey}

/-- The kid a search leaves a branch by, with the rest of the branch. -/
def holeFor (numeric : Bool) (k : SearchKey) (b : Branch (List UInt8) (BTree h)) :
    Hole (List UInt8) (BTree h) × BTree h := b.hole (passes (rank numeric) (rank numeric k.bytes))

theorem holeFor_plug (numeric : Bool) (k : SearchKey) (b : Branch (List UInt8) (BTree h)) :
    (holeFor numeric k b).1.plug (holeFor numeric k b).2 = b := b.plug_hole _

theorem holeFor_mem (numeric : Bool) (k : SearchKey) (b : Branch (List UInt8) (BTree h)) :
    (holeFor numeric k b).2 ∈ b.trees := by
  have htrees := Hole.trees_plug (holeFor numeric k b).1 (holeFor numeric k b).2
  rw [holeFor_plug] at htrees
  rw [htrees]
  exact mem_append_left _ (mem_append_right _ (mem_singleton_self _))

theorem offs_holeFor (numeric : Bool) (k : SearchKey) (b : Branch (List UInt8) (BTree h)) :
    Tree.offs (h := h + 1) b = b.off ::
      ((holeFor numeric k b).1.foldBefore Tree.offs (fun _ => []) ++ (holeFor numeric k b).2.offs
        ++ (holeFor numeric k b).1.foldAfter Tree.offs fun _ => []) := by
  have hfold := Hole.fold_plug Tree.offs (fun _ => []) (holeFor numeric k b).1 (holeFor numeric k b).2
  rw [holeFor_plug] at hfold
  show b.off :: b.trees.flatMap Tree.offs = _
  rw [← Branch.fold_trees, hfold]

theorem leafOffs_holeFor (numeric : Bool) (k : SearchKey) (b : Branch (List UInt8) (BTree h)) :
    leafOffs (h := h + 1) b = (holeFor numeric k b).1.foldBefore leafOffs (fun _ => [])
      ++ leafOffs (holeFor numeric k b).2 ++ (holeFor numeric k b).1.foldAfter leafOffs fun _ => [] := by
  have hfold := Hole.fold_plug leafOffs (fun _ => []) (holeFor numeric k b).1 (holeFor numeric k b).2
  rw [holeFor_plug] at hfold
  exact hfold

theorem mem_foldBefore_offs {H : Hole (List UInt8) (BTree h)}
    (ho : o ∈ H.foldBefore leafOffs fun _ => []) : o ∈ H.foldBefore Tree.offs fun _ => [] := by
  rw [Hole.foldBefore_trees] at ho ⊢
  obtain ⟨t, ht, hot⟩ := mem_flatMap.mp ho
  exact mem_flatMap.mpr ⟨t, ht, leafOffs_subset t o hot⟩

theorem mem_foldAfter_offs {H : Hole (List UInt8) (BTree h)}
    (ho : o ∈ H.foldAfter leafOffs fun _ => []) : o ∈ H.foldAfter Tree.offs fun _ => [] := by
  rw [Hole.foldAfter_trees] at ho ⊢
  obtain ⟨t, ht, hot⟩ := mem_flatMap.mp ho
  exact mem_flatMap.mpr ⟨t, ht, leafOffs_subset t o hot⟩

theorem Site.kid (hs : Site numeric P Q (h := h + 1) b c) (k : SearchKey) :
    Site numeric (P ++ (holeFor numeric k b).1.foldBefore leafOffs fun _ => [])
      ((holeFor numeric k b).1.foldAfter leafOffs (fun _ => []) ++ Q) (holeFor numeric k b).2 c := by
  have hoffs := offs_holeFor numeric k b
  have hleaf := leafOffs_holeFor numeric k b
  have hmem := holeFor_mem numeric k b
  have hord := InOrder.parts (b := b) hs.ordered _ _ (holeFor_plug numeric k b)
  have hnd := hs.nodup
  have hin := hs.inFile
  have haround := hs.around
  have hchain : P ++ leafOffs (h := h + 1) b ++ Q
      = P ++ (holeFor numeric k b).1.foldBefore leafOffs (fun _ => []) ++ leafOffs (holeFor numeric k b).2
        ++ ((holeFor numeric k b).1.foldAfter leafOffs (fun _ => []) ++ Q) := by
    rw [hleaf]
    simp only [append_assoc]
  have hrep := hs.rep.2 _ hmem
  generalize (holeFor numeric k b) = q at *
  obtain ⟨H, t⟩ := q
  rw [hoffs] at hnd hin haround
  rw [nodup_cons, nodup_append, nodup_append] at hnd
  obtain ⟨-, ⟨-, hndt, hBt⟩, -, hBA⟩ := hnd
  refine ⟨hs.file, hrep, hord.2.1, hndt, ?_, hchain ▸ hs.linked, hchain ▸ hs.chain, ?_⟩
  · intro o ho
    exact hin o (mem_cons_of_mem _ (mem_append_left _ (mem_append_right _ ho)))
  · intro o ho
    simp only [mem_append] at ho
    have houter : o ∈ P ++ Q → InFile c.total o ∧ o ∉ t.offs := fun hPQ =>
      ⟨(haround o hPQ).1, fun hot => (haround o hPQ).2
        (mem_cons_of_mem _ (mem_append_left _ (mem_append_right _ hot)))⟩
    rcases ho with (ho | ho) | (ho | ho)
    · exact houter (mem_append_left _ ho)
    · have ho' := mem_foldBefore_offs ho
      refine ⟨hin o (mem_cons_of_mem _ (mem_append_left _ (mem_append_left _ ho'))), ?_⟩
      exact fun hot => hBt o ho' o hot rfl
    · have ho' := mem_foldAfter_offs ho
      refine ⟨hin o (mem_cons_of_mem _ (mem_append_right _ ho')), ?_⟩
      exact fun hot => hBA o (mem_append_right _ hot) o ho' rfl
    · exact houter (mem_append_right _ ho)

/-- A branch whose kid has grown: the kids stand, the branch's own node is not written yet. -/
structure Wide (numeric : Bool) (x : Entry) (P Q : List Nat) {h : Nat} (b : Branch (List UInt8) (BTree h))
    (c c' : TreeCtx) (W : Branch (List UInt8) (BTree h)) : Prop
    extends Grew numeric x P Q (h := h + 1) b c c' (.one W) where
  kids : ∀ u ∈ W.trees, Rep numeric c'.stream u
  own : SameBody c.stream c'.stream b.off

section

variable (hs : Site numeric P Q (h := h + 1) b c)

include hs

theorem Outcome.wide {v : Nat} {c' : TreeCtx}
    {G : Grown (List UInt8) (BTree h)}
    (hO : Outcome numeric ⟨k.bytes, v⟩ (P ++ (holeFor numeric k b).1.foldBefore leafOffs fun _ => [])
      ((holeFor numeric k b).1.foldAfter leafOffs (fun _ => []) ++ Q) (holeFor numeric k b).2 c c' G) :
    Wide numeric ⟨k.bytes, v⟩ P Q b c c' ((holeFor numeric k b).1.plugGrown G) := by
  have hadds : Adds (rank numeric) Entry.key ⟨k.bytes, v⟩ (h := h + 1) b
      (.one ((holeFor numeric k b).1.plugGrown G)) := Adds.plug hs.ordered hO.adds
  have hoffs := offs_holeFor numeric k b
  have hplug := holeFor_plug numeric k b
  have hhole : (holeFor numeric k b).1.off = b.off := b.hole_off _
  generalize holeFor numeric k b = q at *
  obtain ⟨H, t⟩ := q
  have hnd := hs.nodup
  have hin := hs.inFile
  have hrep := hs.rep.2
  have hlt : ∀ o ∈ Tree.offs (h := h + 1) (H.plug t), o < c.total := by
    rw [hplug]
    exact fun o ho => (hin o ho).lt
  have hfresh := Fresh.plugAt (by rw [hplug]; exact hnd) hlt hO.fresh
  rw [hplug] at hfresh
  rw [hoffs] at hnd hin
  rw [nodup_cons, nodup_append, nodup_append] at hnd
  obtain ⟨hroot, ⟨-, -, hBt⟩, -, hBA⟩ := hnd
  have hnewoffs : Tree.offs (h := h + 1) (H.plugGrown G) = H.off ::
      (H.foldBefore Tree.offs (fun _ => []) ++ G.offs ++ H.foldAfter Tree.offs fun _ => []) := by
    show (H.plugGrown G).off :: (H.plugGrown G).trees.flatMap Tree.offs = _
    rw [H.plugGrown_off, H.trees_plugGrown, flatMap_append, flatMap_append,
      ← H.foldBefore_trees Tree.offs, ← H.foldAfter_trees Tree.offs]
    rfl
  have hframe : ∀ o, o ∈ H.foldBefore Tree.offs (fun _ => []) ∨ o ∈ H.foldAfter Tree.offs (fun _ => []) →
      SameBody c.stream c'.stream o := by
    intro o ho
    rcases ho with ho | ho
    · refine hO.frame o (hin o (mem_cons_of_mem _ (mem_append_left _ (mem_append_left _ ho)))) ?_
      exact fun hot => hBt o ho o hot rfl
    · refine hO.frame o (hin o (mem_cons_of_mem _ (mem_append_right _ ho))) ?_
      exact fun hot => hBA o (mem_append_right _ hot) o ho rfl
  refine ⟨⟨hadds, hfresh, ?_, (H.plugGrown_off G).trans hhole, ?_, ?_, ?_, hO.depth, hO.root, hO.file,
    hO.total_le⟩, ?_, ?_⟩
  · intro o ho
    rw [Grown.offs_one, hnewoffs, hhole] at ho
    simp only [mem_cons, mem_append] at ho
    rcases ho with ho | (ho | ho) | ho
    · exact (hin o (ho ▸ mem_cons_self)).mono hO.total_le
    · exact (hin o (mem_cons_of_mem _ (mem_append_left _ (mem_append_left _ ho)))).mono hO.total_le
    · exact hO.inFile o ho
    · exact (hin o (mem_cons_of_mem _ (mem_append_right _ ho))).mono hO.total_le
  · intro hsp
    rw [← hplug] at hsp
    exact Spined.plugAt hsp hO.spined
  · have hlist : P ++ leafOffs (h := h + 1) (H.plugGrown G) ++ Q
        = P ++ (H.foldBefore leafOffs fun _ => []) ++ leafOffsOf G
          ++ (H.foldAfter leafOffs (fun _ => []) ++ Q) := by
      rw [show leafOffs (h := h + 1) (H.plugGrown G) = _ from H.fold_plugGrown leafOffs (fun _ => []) G]
      simp only [leafOffsOf, append_assoc]
    rw [leafOffsOf, Grown.fold, hlist]
    exact hO.linked
  · intro y hy hny
    refine hO.frame y hy fun hyt => hny ?_
    rw [hoffs]
    exact mem_cons_of_mem _ (mem_append_left _ (mem_append_right _ hyt))
  · intro u hu
    rw [H.trees_plugGrown, mem_append, mem_append] at hu
    have hold : ∀ u, u ∈ (H.foldBefore (fun t => [t]) fun _ => []) ∨ u ∈ (H.foldAfter (fun t => [t]) fun _ => []) →
        Rep numeric c'.stream u := by
      intro u hu
      have hmem : u ∈ b.trees := by
        rw [← hplug, H.trees_plug, mem_append, mem_append]
        rcases hu with hu | hu
        · exact .inl (.inl hu)
        · exact .inr hu
      refine Rep.congr (hrep u hmem) fun o ho => hframe o ?_
      rw [H.foldBefore_trees, H.foldAfter_trees]
      exact hu.imp (fun hu => mem_flatMap.mpr ⟨u, hu, ho⟩) fun hu => mem_flatMap.mpr ⟨u, hu, ho⟩
    rcases hu with (hu | hu) | hu
    · exact hold u (.inl hu)
    · exact hO.rep u hu
    · exact hold u (.inr hu)
  · refine hO.frame b.off (hin _ mem_cons_self) fun hbt => hroot ?_
    exact mem_append_left _ (mem_append_right _ hbt)

section

variable {x : Entry} {c₁ : TreeCtx} {W : Branch (List UInt8) (BTree h)} (hW : Wide numeric x P Q b c c₁ W)
  (hsame : ∀ y, InFile c₁.total y → y ≠ b.off → c₂.stream.node y = c₁.stream.node y)

include hW hsame

/-- Writing the branch's own node leaves the rest of the tree. -/
theorem Wide.elsewhere : (∀ u ∈ W.trees, Rep numeric c₂.stream u) ∧
    Linked c₂.stream (P ++ leafOffs (h := h + 1) W ++ Q) ∧
    ∀ y, InFile c.total y → y ∉ Tree.offs (h := h + 1) b → SameBody c.stream c₂.stream y := by
  have hoffs : Tree.offs (h := h + 1) W = b.off :: W.trees.flatMap Tree.offs := by
    rw [← show W.off = b.off from hW.main_off]
    rfl
  have hboff : b.off ∈ Tree.offs (h := h + 1) b := mem_cons_self
  have hnd := hW.fresh.nodup
  have hin := hW.inFile
  rw [Grown.offs_one, hoffs] at hnd hin
  rw [nodup_cons] at hnd
  have hkid : ∀ u ∈ W.trees, ∀ o ∈ Tree.offs u, InFile c₁.total o ∧ o ≠ b.off := by
    intro u hu o ho
    have hmem : o ∈ W.trees.flatMap Tree.offs := mem_flatMap.mpr ⟨u, hu, ho⟩
    exact ⟨hin o (mem_cons_of_mem _ hmem), fun he => hnd.1 (he ▸ hmem)⟩
  refine ⟨fun u hu => ?_, hW.linked.congr fun o ho => ?_, fun y hy hny => ?_⟩
  · refine Rep.congr (hW.kids u hu) fun o ho => .of_node_eq ?_
    exact hsame o (hkid u hu o ho).1 (hkid u hu o ho).2
  · have hgood : InFile c₁.total o ∧ o ≠ b.off := by
      have houter : o ∈ P ++ Q → InFile c₁.total o ∧ o ≠ b.off := fun hPQ =>
        ⟨(hs.around o hPQ).1.mono hW.total_le, fun he => (hs.around o hPQ).2 (he ▸ hboff)⟩
      simp only [mem_append] at ho
      rcases ho with (ho | ho) | ho
      · exact houter (mem_append_left _ ho)
      · have ho' : o ∈ W.fold leafOffs fun _ => [] := ho
        rw [Branch.fold_trees] at ho'
        obtain ⟨u, hu, hou⟩ := mem_flatMap.mp ho'
        exact hkid u hu o (leafOffs_subset u o hou)
      · exact houter (mem_append_right _ ho)
    exact links_of_node_eq (hsame o hgood.1 hgood.2)
  · refine SameBody.trans (hW.frame y hy hny) (.of_node_eq (hsame y (hy.mono hW.total_le) fun he => hny ?_))
    rw [he]
    exact hboff

theorem Wide.one (hB : BranchStored numeric c₂.stream (W.map Tree.off)) (hfile : FileOk c₂)
    (htotal : c₂.total = c₁.total) (hdepth : c₂.depth = c₁.depth) (hroot : c₂.root = c₁.root) :
    Outcome numeric x P Q (h := h + 1) b c c₂ (.one W) := by
  obtain ⟨hkids, hlinked, hframe⟩ := hW.elsewhere hs hsame
  refine ⟨⟨hW.adds, htotal ▸ hW.fresh, htotal ▸ hW.inFile, hW.main_off, hW.spined, hlinked, hframe,
    hdepth.trans hW.depth, hroot.trans hW.root, hfile, htotal ▸ hW.total_le⟩, ?_⟩
  intro u hu
  rw [mem_singleton.mp hu]
  exact ⟨hB, hkids⟩

theorem Wide.two {m : Nat} (hm : m < W.kids.length) (hpos : 1 ≤ m)
    (hL : BranchStored numeric c₂.stream ((W.cutLeft c₁.total m hm).map Tree.off))
    (hR : BranchStored numeric c₂.stream ((W.cutRight m).map Tree.off)) (hfile : FileOk c₂)
    (htotal : c₂.total = c₁.total + blockSize) (hdepth : c₂.depth = c₁.depth) (hroot : c₂.root = c₁.root) :
    Outcome numeric x P Q (h := h + 1) b c c₂
      (.two (W.cutLeft c₁.total m hm) (W.cutSep m hm) (W.cutRight m)) := by
  obtain ⟨hkids, hlinked, hframe⟩ := hW.elsewhere hs hsame
  have hbs : 0 < blockSize := by decide
  have htrees : (W.cutLeft c₁.total m hm).trees ++ (W.cutRight m).trees = W.trees := by
    have hcut := W.fold_cut (fun t => [t]) (fun _ => []) c₁.total m hm
    rw [append_nil] at hcut
    exact hcut
  have hlt : c₁.total < c₂.total := by
    omega
  have hold : ∀ o ∈ W.trees.flatMap Tree.offs, InFile c₂.total o := fun o ho =>
    (hW.inFile o (mem_append_left _ (mem_cons_of_mem _ ho))).mono hlt.le
  rw [← htrees, flatMap_append] at hold
  refine ⟨⟨hW.adds.cut _ m hm, Fresh.cut hW.fresh hm hW.total_le (fun o ho => (hs.inFile o ho).lt) (Nat.le_refl _) hlt,
    ?_, hW.main_off, fun hsp => Spined.cutLeft (hW.spined hsp) _ m hm hpos, ?_, hframe, hdepth.trans hW.depth,
    hroot.trans hW.root, hfile, hW.total_le.trans hlt.le⟩, ?_⟩
  · intro o ho
    rw [Grown.offs_two, mem_append] at ho
    rcases ho with ho | ho
    · rcases mem_cons.mp ho with rfl | ho
      · rw [htotal]
        exact hW.file.inFile_total
      · exact hold o (mem_append_left _ ho)
    · rcases mem_cons.mp ho with rfl | ho
      · exact (hW.inFile _ mem_cons_self).mono hlt.le
      · exact hold o (mem_append_right _ ho)
  · have hcut := W.fold_cut leafOffs (fun _ => []) c₁.total m hm
    rw [show leafOffsOf (h := h + 1) (.two (W.cutLeft c₁.total m hm) (W.cutSep m hm) (W.cutRight m))
      = leafOffs (h := h + 1) W from hcut]
    exact hlinked
  · exact forall_mem_cons.mpr ⟨⟨hL, fun u hu => hkids u (htrees ▸ mem_append_left _ hu)⟩,
      forall_mem_singleton.mpr ⟨hR, fun u hu => hkids u (htrees ▸ mem_append_right _ hu)⟩⟩

end

end

/-! ### The entries of a branch -/

variable {l r : BTree h} {sep : SearchKey} {v : Nat} {c₁ : TreeCtx}

theorem holeFor_length (hk : k.Ok numeric) (hkeys : ∀ p ∈ b.kids, KeyOk numeric p.1) :
    passed k (storedEntries (b.map Tree.off)) = (holeFor numeric k b).1.before.length := by
  have hok : ∀ e ∈ storedEntries (b.map Tree.off), KeyOk numeric e.key := by
    intro e he
    obtain ⟨p, hp, rfl⟩ := mem_map.mp he
    obtain ⟨q, hq, rfl⟩ := mem_map.mp hp
    exact hkeys q hq
  rw [passed_eq hk hok, holeFor, Branch.hole_before]
  simp only [storedEntries, Branch.map, map_map, takeWhile_map, length_map]
  rfl

theorem storedEntries_widen {l r : BTree h} (sep : SearchKey) (hr : r.off = (holeFor numeric k b).2.off) :
    entryInsertAt (storedEntries (b.map Tree.off)) (holeFor numeric k b).1.before.length sep l.off
        = storedEntries (((holeFor numeric k b).1.plugGrown (.two l sep.bytes r)).map Tree.off) ∧
      (((holeFor numeric k b).1.plugGrown (.two l sep.bytes r)).map Tree.off).last = (b.map Tree.off).last := by
  have hplug := holeFor_plug numeric k b
  generalize (holeFor numeric k b) = q at *
  obtain ⟨H, t⟩ := q
  have hb : b.map Tree.off = (H.map Tree.off).plug t.off := by
    rw [← hplug]
    exact H.map_plug Tree.off t
  have hW : (H.plugGrown (.two l sep.bytes r)).map Tree.off
      = ((H.map Tree.off).widen sep.bytes l.off).plug t.off := by
    show ((H.widen sep.bytes l).plug r).map Tree.off = _
    rw [Hole.map_plug, Hole.map_widen, hr]
  rw [hb, hW]
  refine ⟨?_, Hole.widen_plug_last _ _ _ _⟩
  rw [storedEntries, storedEntries, Hole.widen_plug_kids, map_append, map_cons, entryInsertAt, map_take, map_drop]
  simp only [Hole.map, length_map]

/-- The insertion into a branch, as the loop sees it. -/
def branchTarget (c : TreeCtx) (b : Branch (List UInt8) (BTree h)) (pos : Nat) (sep : SearchKey) (v : Nat) :
    Target := ⟨b.off, b.off / blockSize, c.stream.node b.off, storedEntries (b.map Tree.off), pos, sep, v⟩

variable (hs : Site numeric P Q (h := h + 1) b c) (hr : r.off = (holeFor numeric k b).2.off)
  (hW : Wide numeric ⟨k.bytes, v⟩ P Q b c c₁ ((holeFor numeric k b).1.plugGrown (.two l sep.bytes r)))

include hs hr hW

theorem wide_entries_ok (hsep : sep.Ok numeric) :
    (∀ p ∈ (((holeFor numeric k b).1.plugGrown (.two l sep.bytes r)).map Tree.off).kids, KeyOk numeric p.1) ∧
      ∀ e ∈ storedEntries (((holeFor numeric k b).1.plugGrown (.two l sep.bytes r)).map Tree.off), e.Ok := by
  have hentries := (storedEntries_widen (l := l) sep hr).1
  generalize (holeFor numeric k b).1.plugGrown (.two l sep.bytes r) = W at *
  have hkeys : ∀ e ∈ storedEntries (W.map Tree.off), KeyOk numeric e.key := by
    intro e he
    rw [← hentries] at he
    rcases mem_entryInsertAt he with he | rfl
    · obtain ⟨p, hp, rfl⟩ := mem_map.mp he
      exact hs.rep.1.keys p hp
    · exact hsep.key
  refine ⟨fun p hp => hkeys ⟨p.1, p.2⟩ (mem_map.mpr ⟨p, hp, rfl⟩), ?_⟩
  intro e he
  refine KeyOk.entry (hkeys e he) ?_
  obtain ⟨p, hp, rfl⟩ := mem_map.mp he
  obtain ⟨q, hq, rfl⟩ := mem_map.mp hp
  have hmem : q.2.off ∈ Tree.offs (h := h + 1) W := by
    refine mem_cons_of_mem _ (mem_flatMap.mpr ⟨q.2, ?_, q.2.off_mem_offs⟩)
    exact Branch.mem_trees.mpr (.inl ⟨q, hq, rfl⟩)
  have hlt := (hW.inFile _ (mem_append_left _ hmem)).lt
  have htot := hW.file.total_lt
  show q.2.off < 2 ^ 64
  omega

theorem wide_last :
    le (c₁.stream.node b.off) 16 8 = (((holeFor numeric k b).1.plugGrown (.two l sep.bytes r)).map Tree.off).last ∧
      (((holeFor numeric k b).1.plugGrown (.two l sep.bytes r)).map Tree.off).last < 2 ^ 64 := by
  have hlast := (storedEntries_widen (l := l) sep hr).2
  have hover := (hs.rep.1.holds.congr hW.own).overflow
  have hsame : le (c₁.stream.node b.off) 16 8 = (b.map Tree.off).last := hover
  rw [hlast]
  refine ⟨hsame, ?_⟩
  rw [← hsame]
  exact le_lt _ _ _

theorem branch_insertHere (hsep : sep.Ok numeric)
    (h2 : c₁.insertHere (branchTarget c₁ b (holeFor numeric k b).1.before.length sep l.off) = .ok c₂) :
    Outcome numeric ⟨k.bytes, v⟩ P Q (h := h + 1) b c c₂
      (.one ((holeFor numeric k b).1.plugGrown (.two l sep.bytes r))) := by
  obtain ⟨hkeys, hok⟩ := wide_entries_ok hs hr hW hsep
  obtain ⟨hover, hlast⟩ := wide_last hs hr hW
  have hentries := (storedEntries_widen (l := l) sep hr).1
  have hin : InFile c₁.total b.off := (hs.inFile _ mem_cons_self).mono hW.total_le
  obtain ⟨blk, henc, rfl⟩ := insertHere_spec h2
  simp only [branchTarget] at henc ⊢
  rw [hentries] at henc
  rw [hover]
  generalize (holeFor numeric k b).1.plugGrown (.two l sep.bytes r) = W at *
  have hstored := (stored_node henc hok c₁.stream b.off (le (c₁.stream.node b.off) 0 8)
    (le (c₁.stream.node b.off) 8 8) (W.map Tree.off).last hlast).1
  refine hW.one hs (fun y hy hne => node_store_ne hin hy hne) ⟨?_, hkeys⟩ (hW.file.store hin _) rfl rfl rfl
  rw [show (W.map Tree.off).off = b.off from hW.main_off]
  exact hstored

omit hs hr hW in
theorem splitInner_spec {c c' : TreeCtx} {x : Target} {es : List Entry} {m newBlk : Nat} {sep : SearchKey}
    (h : c.splitInner x es m newBlk = .ok (c', sep)) :
    ∃ lo hi e, leafEncode (es.take m) = some lo ∧ leafEncode (es.drop (m + 1)) = some hi ∧
      es[m]? = some e ∧ sep = skEntry e x.push.numeric ∧
      c' = (c.store newBlk (setLinks lo btreeNull btreeNull e.val)).store x.blk
        (setLinks hi btreeNull btreeNull (le x.buf 16 8)) := by
  unfold TreeCtx.splitInner at h
  split at h
  · rename_i lo hi e hlo hhi hget
    injection h with h
    rw [Prod.mk.injEq] at h
    exact ⟨lo, hi, e, hlo, hhi, hget, h.2.symm, h.1.symm⟩
  · cases h

theorem branch_split (hsep : sep.Ok numeric) {c₃ : TreeCtx} {new newBlk m pos : Nat} {sep' : SearchKey}
    (halloc : c₁.treeAllocNode = .ok (c₂, new, newBlk)) (hpos : 1 ≤ m)
    (h3 : c₂.splitInner (branchTarget c₁ b pos sep l.off)
      (storedEntries (((holeFor numeric k b).1.plugGrown (.two l sep.bytes r)).map Tree.off)) m newBlk
        = .ok (c₃, sep')) :
    sep'.Ok numeric ∧ ∃ L R : Branch (List UInt8) (BTree h), L.off = new ∧
      Outcome numeric ⟨k.bytes, v⟩ P Q (h := h + 1) b c c₃ (.two L sep'.bytes R) := by
  obtain ⟨hkeys, hok⟩ := wide_entries_ok hs hr hW hsep
  obtain ⟨hover, hlast⟩ := wide_last hs hr hW
  have hin : InFile c₁.total b.off := (hs.inFile _ mem_cons_self).mono hW.total_le
  generalize (holeFor numeric k b).1.plugGrown (.two l sep.bytes r) = W at *
  obtain ⟨lo, hi, e, henc, henc', hget, hsep', hc₃⟩ := splitInner_spec h3
  obtain ⟨hp, hnewnode, hnode⟩ := store_pair hW.file hin halloc rfl hc₃
  rw [show le (branchTarget c₁ b pos sep l.off).buf 16 8 = (W.map Tree.off).last from hover] at hc₃
  have hm : m < W.kids.length := by
    simpa [storedEntries, Branch.map] using (List.getElem?_eq_some_iff.mp hget).1
  have he : e = ⟨W.cutSep m hm, (W.kids.get ⟨m, hm⟩).2.off⟩ := by
    have := (List.getElem?_eq_some_iff.mp hget).2
    rw [← this]
    simp [storedEntries, Branch.map, Branch.cutSep]
  have hval : e.val < 2 ^ 64 := (hok e (mem_of_getElem? hget)).val_lt
  subst he
  have hleft := (stored_node henc (fun e he => hok e (mem_of_mem_take he)) c₂.stream new btreeNull
    btreeNull _ hval).1
  rw [← hp.blk] at hleft
  have hright := (stored_node henc' (fun e he => hok e (mem_of_mem_drop he))
    (c₂.stream.leafStore newBlk (setLinks lo btreeNull btreeNull (W.kids.get ⟨m, hm⟩).2.off)) b.off btreeNull
    btreeNull (W.map Tree.off).last hlast).1
  have hsepok : sep'.Ok numeric ∧ sep'.bytes = W.cutSep m hm := by
    rw [hsep', show (branchTarget c₁ b pos sep l.off).push.numeric = numeric from hsep.mode]
    exact ⟨skEntry_ok (hkeys (W.cutSep m hm, (W.kids.get ⟨m, hm⟩).2.off)
      (mem_map.mpr ⟨W.kids.get ⟨m, hm⟩, get_mem _ _, rfl⟩)), rfl⟩
  refine ⟨hsepok.1, W.cutLeft c₁.total m hm, W.cutRight m, hp.new_eq.symm, ?_⟩
  rw [hsepok.2]
  have htake : storedEntries ((W.cutLeft c₁.total m hm).map Tree.off) = (storedEntries (W.map Tree.off)).take m := by
    rw [Branch.map_cutLeft]
    exact map_take
  have hdrop : storedEntries ((W.cutRight m).map Tree.off) = (storedEntries (W.map Tree.off)).drop (m + 1) := by
    rw [Branch.map_cutRight]
    exact map_drop
  refine hW.two hs hnode hm hpos ⟨?_, ?_⟩ ⟨?_, ?_⟩ hp.file hp.total hp.depth hp.root
  · rw [htake, Branch.map_cutLeft, ← hp.new_eq]
    exact hleft.congr (.of_node_eq hnewnode)
  · intro p hp
    rw [Branch.map_cutLeft] at hp
    exact hkeys p (mem_of_mem_take hp)
  · rw [hdrop, Branch.map_cutRight, hc₃]
    show Holds _ W.off _ _
    rw [show W.off = b.off from hW.main_off]
    exact hright
  · intro p hp
    rw [Branch.map_cutRight] at hp
    exact hkeys p (mem_of_mem_drop hp)

end Branch

/-! ## Down the tree -/

section Descend

variable {numeric : Bool} {P Q : List Nat} {c : TreeCtx} {k : SearchKey}

theorem descend_leaf {l : Leaf Entry} (hs : Site numeric P Q (h := 0) l c) (levels : Nat)
    (above : List PathElem) : descendFrom c.stream k (levels + 1) l.off above
      = some ⟨above, l.off, c.stream.node l.off, l.off / blockSize⟩ := by
  have hrep : LeafStored numeric c.stream l := hs.rep
  have hin : InFile c.total l.off := hs.inFile _ (mem_singleton_self _)
  rw [descendFrom, hs.file.load hin]
  simp only []
  rw [if_pos hrep.holds.overflow]

theorem descend_branch {h : Nat} {b : Branch (List UInt8) (BTree h)} (hs : Site numeric P Q (h := h + 1) b c)
    (hk : k.Ok numeric) (levels : Nat) (above : List PathElem) :
    descendFrom c.stream k (levels + 1) b.off above = descendFrom c.stream k levels (holeFor numeric k b).2.off
      (⟨b.off, (holeFor numeric k b).1.before.length⟩ :: above) := by
  have hrep := hs.rep.1
  have hin : InFile c.total b.off := hs.inFile _ mem_cons_self
  -- an inner node's overflow link is a place in the file
  have hlastin : InFile c.total b.last.off := by
    refine hs.inFile _ (Tree.offs_sub (b := b) ?_ _ b.last.off_mem_offs)
    exact Branch.mem_trees.mpr (.inr rfl)
  have hover : le (c.stream.node b.off) 16 8 = b.last.off := hrep.holds.overflow
  have hdec : leafDecode (c.stream.node b.off) = storedEntries (b.map Tree.off) := hrep.holds.entries
  have hkeys : ∀ p ∈ b.kids, KeyOk numeric p.1 := fun p hp =>
    hrep.keys (p.1, p.2.off) (mem_map.mpr ⟨p, hp, rfl⟩)
  have hlen := holeFor_length (b := b) hk hkeys
  have hchild : childOff (c.stream.node b.off) (holeFor numeric k b).1.before.length
      = (holeFor numeric k b).2.off := by
    unfold childOff
    rw [hdec, hover]
    have hplug := holeFor_plug numeric k b
    generalize (holeFor numeric k b) = q at *
    obtain ⟨H, u⟩ := q
    have hkids : storedEntries (b.map Tree.off) = storedEntries ((H.map Tree.off).plug u.off) := by
      rw [← Hole.map_plug, hplug]
    have hlast : b.last.off = ((H.map Tree.off).plug u.off).last := by
      rw [← Hole.map_plug, hplug]
      rfl
    rw [hkids, hlast]
    unfold storedEntries Hole.plug Hole.map
    cases H.after with
    | none => simp
    | some a => simp
  rw [descendFrom, hs.file.load hin]
  simp only []
  rw [hover, if_neg (hs.file.ne_null hlastin), hdec, hlen, hchild]

end Descend

/-! ## The whole way up -/

variable {cEnd : TreeCtx}

/-- How the loop goes on after a split. -/
def afterSplit (above : List PathElem) (c : TreeCtx) (sep : SearchKey) (new off : Nat) :
    Except TreeCtx TreeCtx :=
  match above with
  | [] => c.growRoot sep new off
  | p :: above =>
    match c.stream.nodeLoad p.off with
    | none => .error c
    | some (b, blk) => TreeCtx.insertLoop above c false ⟨p.off, blk, b, leafDecode b, p.idx, sep, new⟩

theorem insertLoop_ok {above : List PathElem} {c c' : TreeCtx} {isLeaf : Bool} {x : Target}
    (h : TreeCtx.insertLoop above c isLeaf x = .ok c') :
    (nodeFits x.entries x.push.bytes.length = true ∧ c.insertHere x = .ok c') ∨
      (nodeFits x.entries x.push.bytes.length ≠ true ∧ ∃ c₁ c₂ new newBlk sep,
        splitPoint (entryInsertAt x.entries x.pos x.push x.pushV) ≠ 0 ∧ (above = [] → c.depth < 3) ∧
        c.treeAllocNode = .ok (c₁, new, newBlk) ∧
        (if isLeaf then c₁.splitLeaf x (entryInsertAt x.entries x.pos x.push x.pushV)
            (splitPoint (entryInsertAt x.entries x.pos x.push x.pushV)) new newBlk
          else c₁.splitInner x (entryInsertAt x.entries x.pos x.push x.pushV)
            (splitPoint (entryInsertAt x.entries x.pos x.push x.pushV)) newBlk) = .ok (c₂, sep) ∧
        afterSplit above c₂ sep new x.off = .ok c') := by
  rw [TreeCtx.insertLoop.eq_def] at h
  split_ifs at h with hfits
  · exact .inl ⟨hfits, h⟩
  · refine .inr ⟨hfits, ?_⟩
    unfold TreeCtx.splitNode at h
    by_cases hm : splitPoint (entryInsertAt x.entries x.pos x.push x.pushV) = 0
    · rw [if_pos hm] at h
      cases h
    rw [if_neg hm] at h
    by_cases hcap : above.isEmpty = true ∧ c.depth ≥ 3
    · rw [if_pos hcap] at h
      cases h
    rw [if_neg hcap] at h
    have hdepth : above = [] → c.depth < 3 := by
      intro hnil
      rw [hnil] at hcap
      exact Nat.lt_of_not_le fun hge => hcap ⟨rfl, hge⟩
    split at h
    · cases h
    · rename_i c₂ sep new hnode
      split at hnode
      · cases hnode
      · rename_i c₁ new' newBlk halloc
        split at hnode
        · cases hnode
        · rename_i hsplit
          cases hnode
          refine ⟨c₁, c₂, new, newBlk, sep, hm, hdepth, halloc, hsplit, ?_⟩
          cases above with
          | nil => exact h
          | cons p above => exact h

/-- **A subtree after the loop has gone through its levels**: the insertion ended in it, or it was split
    and the loop goes on with the separator. -/
theorem insert_subtree {numeric : Bool} {k : SearchKey} {v : Nat} (hk : k.Ok numeric) (hv : v < 2 ^ 64) {c : TreeCtx} (h : Nat) (t : BTree h) (levels : Nat) (above : List PathElem) (d : Descent)
    (P Q : List Nat) (hs : Site numeric P Q t c) (hd : descendFrom c.stream k levels t.off above = some d)
    (hloop : TreeCtx.insertLoop d.above c true (d.target k v) = .ok cEnd) :
    (∃ t', Outcome numeric ⟨k.bytes, v⟩ P Q t c cEnd (.one t')) ∨
      ∃ c' sep, ∃ l r : BTree h, sep.Ok numeric ∧ Outcome numeric ⟨k.bytes, v⟩ P Q t c c' (.two l sep.bytes r) ∧
        (above = [] → c.depth < 3) ∧ afterSplit above c' sep l.off t.off = .ok cEnd := by
  induction h generalizing levels above P Q with
  | zero =>
    cases levels with
    | zero => cases hd
    | succ levels =>
      have hrep : LeafStored numeric c.stream t := hs.rep
      rw [show descendFrom c.stream k (levels + 1) (Tree.off t) above = _ from descend_leaf hs levels above] at hd
      injection hd with hd
      have htarget : d.target k v = leafTarget c t k v := by
        have hdec : leafDecode (c.stream.node t.off) = Leaf.items t := hrep.holds.entries
        rw [← hd]
        show Target.mk _ _ _ (leafDecode (c.stream.node t.off)) (passed k (leafDecode (c.stream.node t.off))) _ _
          = _
        rw [hdec]
        rfl
      have habove : d.above = above := by rw [← hd]
      rw [htarget, habove] at hloop
      have hitems := leafWith_items (v := v) hs hk
      rcases insertLoop_ok hloop with ⟨-, hhere⟩ | ⟨hnot, c₁, c₂, new, newBlk, sep, hm, hcap, halloc, hsplit, hgo⟩
      · exact .inl ⟨_, leaf_insertHere hs hk hv hhere⟩
      · rw [if_pos rfl, show entryInsertAt (leafTarget c t k v).entries (leafTarget c t k v).pos
          (leafTarget c t k v).push (leafTarget c t k v).pushV = (leafWith numeric t k v).items from hitems] at hsplit
        obtain ⟨hsep, hO⟩ := leaf_split hs hk hv halloc hsplit
        exact .inr ⟨c₂, sep, _, _, hsep, hO, hcap, hgo⟩
  | succ h ih =>
    cases levels with
    | zero => cases hd
    | succ levels =>
      have hrep := hs.rep.1
      have hin : InFile c.total (Branch.off t) := hs.inFile _ mem_cons_self
      rw [show descendFrom c.stream k (levels + 1) (Tree.off t) above = _ from descend_branch hs hk levels above] at hd
      have hsite := hs.kid k
      rcases ih _ levels _ _ _ hsite hd with ⟨t', hO⟩ | ⟨c₁, sep, l, r, hsep, hO, -, hgo⟩
      · -- the insertion ended below: the branch's own node is as it was
        have hW := hO.wide hs
        left
        refine ⟨_, hW.one hs (fun _ _ _ => rfl) ?_ hW.file rfl rfl rfl⟩
        have hmap : ((holeFor numeric k t).1.plugGrown (.one t')).map Tree.off = Branch.map Tree.off t := by
          have hplug := holeFor_plug numeric k t
          show ((holeFor numeric k t).1.plug t').map Tree.off = _
          rw [Hole.map_plug, show t'.off = (holeFor numeric k t).2.off from hO.main_off, ← Hole.map_plug, hplug]
        rw [hmap]
        exact ⟨hrep.holds.congr hW.own, hrep.keys⟩
      · have hW := hO.wide hs
        have hr : r.off = (holeFor numeric k t).2.off := hO.main_off
        -- the loop loads the branch again and finds the entries it had
        have hin1 : InFile c₁.total (Branch.off t) := hin.mono hW.total_le
        have hdec1 : leafDecode (c₁.stream.node (Branch.off t)) = storedEntries (Branch.map Tree.off t) :=
          (hrep.holds.congr hW.own).entries
        have hloop1 : TreeCtx.insertLoop above c₁ false
            (branchTarget c₁ t (holeFor numeric k t).1.before.length sep l.off) = .ok cEnd := by
          unfold afterSplit at hgo
          simp only [] at hgo
          rw [hW.file.load hin1] at hgo
          simp only [] at hgo
          rw [hdec1] at hgo
          exact hgo
        have hentries := (storedEntries_widen (b := t) (l := l) sep hr).1
        rcases insertLoop_ok hloop1 with ⟨-, hhere⟩ |
            ⟨hnot, c₂, c3, new, newBlk, sep', hm, hcap, halloc, hsplit, hgo'⟩
        · exact .inl ⟨_, branch_insertHere hs hr hW hsep hhere⟩
        · have hbounds := splitPoint_bounds hm (two_le_of_not_fits hsep.key.le_max hnot)
          simp only [branchTarget] at hsplit hbounds
          rw [hentries] at hsplit hbounds
          obtain ⟨hsep', L, R, hL, hO'⟩ := branch_split hs hr hW hsep halloc hbounds.1 hsplit
          right
          refine ⟨c3, sep', L, R, hsep', hO', fun hnil => ?_, ?_⟩
          · rw [← hW.depth]
            exact hcap hnil
          · show afterSplit above c3 sep' (Branch.off L) (Branch.off t) = .ok cEnd
            rw [hL]
            exact hgo'

/-! ## A new root -/

theorem growRoot_spec {c c' : TreeCtx} {sep : SearchKey} {left old : Nat} (h : c.growRoot sep left old = .ok c') :
    ∃ c₁ newBlk b new, c.treeAllocNode = .ok (c₁, new, newBlk) ∧ leafEncode [⟨sep.bytes, left⟩] = some b ∧
      c' = { c₁ with
        stream := (((c₁.store newBlk (setLinks b btreeNull btreeNull old)).stream.hdrPut 16 8 new).hdrPut 8 4
          ((c₁.depth + 1) % 2 ^ 32))
        root := new
        depth := (c₁.depth + 1) % 2 ^ 32 } := by
  unfold TreeCtx.growRoot at h
  split at h
  · cases h
  · rename_i c₁ new newBlk halloc
    split at h
    · cases h
    · rename_i b henc
      injection h with h
      exact ⟨c₁, newBlk, b, new, halloc, henc, h.symm⟩

/-- **A new root** over the two halves of the old one. -/
theorem growRoot_stands {numeric : Bool} {x : Entry} {h : Nat} {t l r : BTree h} {c c' : TreeCtx}
    {sep : SearchKey} (hst : Stands numeric c t) (hcap : c.depth < 3) (hsep : sep.Ok numeric)
    (hO : Outcome numeric x [] [] t c c' (.two l sep.bytes r)) (hg : c'.growRoot sep l.off t.off = .ok cEnd) :
    ∃ t' : BTree (h + 1), Stands numeric cEnd t' ∧ t'.items.Perm (x :: t.items) := by
  obtain ⟨c₁, newBlk, b, new, halloc, henc, hcEnd⟩ := growRoot_spec hg
  obtain ⟨hnew, hblk, hal⟩ := treeAllocNode_spec hO.file halloc
  have hroff : r.off = t.off := hO.main_off
  have hoffs : (Grown.offs (.two l sep.bytes r) : List Nat) = l.offs ++ r.offs := Grown.offs_two l r sep.bytes
  have hin : ∀ o ∈ l.offs ++ r.offs, InFile c'.total o := hoffs ▸ hO.inFile
  have hin1 : ∀ o ∈ l.offs ++ r.offs, InFile c₁.total o := fun o ho =>
    (hin o ho).mono (by rw [hal.total]; omega)
  have hnewin : InFile c₁.total new := by
    rw [hal.total, hnew]
    exact hO.file.inFile_total
  have hloff : l.off ∈ l.offs ++ r.offs := mem_append_left _ l.off_mem_offs
  have hroff' : r.off ∈ l.offs ++ r.offs := mem_append_right _ r.off_mem_offs
  have hlt1 := hal.file.total_lt
  rw [show newBlk = new / blockSize by rw [hblk, hnew], ← hroff] at hcEnd
  -- the context before the two header fields
  have hfile2 := hal.file.store hnewin (setLinks b btreeNull btreeNull r.off)
  have hstored := (stored_node henc (fun e he => by
    rw [mem_singleton.mp he]
    have := (hin _ hloff).lt
    have := hO.file.total_lt
    exact hsep.key.entry (by omega)) c₁.stream new btreeNull btreeNull r.off (by
      have := (hin _ hroff').lt
      have := hO.file.total_lt
      omega)).1
  have hdepth1 : c₁.depth = h + 1 := by rw [hal.depth, hO.depth, hst.depth]
  have hdlt : (c₁.depth + 1) % 2 ^ 32 = c₁.depth + 1 := Nat.mod_eq_of_lt (by
    rw [hst.depth] at hcap
    omega)
  have hstream : cEnd.stream = ((c₁.stream.leafStore (new / blockSize) (setLinks b btreeNull btreeNull r.off)).hdrPut
      16 8 new).hdrPut 8 4 (c₁.depth + 1) := by
    rw [hcEnd, hdlt]
    rfl
  have htotal : cEnd.total = c₁.total := by rw [hcEnd]
  have hnode : ∀ y, InFile c'.total y → cEnd.stream.node y = c'.stream.node y := by
    intro y hy
    have hyne : y ≠ new := by
      have := hy.lt
      omega
    have hy1 : InFile c₁.total y := hy.mono (by rw [hal.total]; omega)
    rw [hstream, node_hdrPut hy.div_pos, node_hdrPut hy.div_pos, node_store_ne hnewin hy1 hyne]
    exact hal.node y hy.div_pos
  have hkid : ∀ u : BTree h, (∀ o ∈ u.offs, o ∈ l.offs ++ r.offs) → Rep numeric c'.stream u →
      Rep numeric cEnd.stream u := fun u hu hrep =>
    Rep.congr hrep fun o ho => .of_node_eq (hnode o (hin o (hu o ho)))
  refine ⟨Branch.mk new [(sep.bytes, l)] r, ⟨?_, ⟨⟨?_, ?_⟩, ?_⟩, ?_, ?_, ?_, ?_, ?_, ?_, ?_, ?_⟩, ?_⟩
  · refine ⟨?_, ?_, ?_, ?_, ?_⟩
    · have hnewlt : new < 2 ^ 64 := by
        have := hnewin.lt
        omega
      have hdepthlt : c₁.depth + 1 < 2 ^ 32 := by
        omega
      have h1 := treeOpen_hdrPut_root hfile2.header hnewlt
      have h2 := treeOpen_hdrPut_depth h1 hdepthlt
      rw [hcEnd, hdlt]
      exact h2
    · rw [htotal]
      exact hal.file.aligned
    · rw [htotal]
      exact hal.file.pos
    · rw [htotal, hstream]
      exact hal.file.le_size
    · rw [hstream]
      exact hal.file.size_le
  · refine Holds.congr hstored (.of_node_eq ?_)
    show cEnd.stream.node new = _
    rw [hstream, node_hdrPut hnewin.div_pos, node_hdrPut hnewin.div_pos]
    rfl
  · intro p hp
    rw [mem_singleton.mp hp]
    exact hsep.key
  · obtain ⟨hl, hr⟩ := forall_mem_cons.mp hO.rep
    exact forall_mem_cons.mpr ⟨hkid l (fun o ho => mem_append_left _ ho) hl, forall_mem_singleton.mpr
      (hkid r (fun o ho => mem_append_right _ ho) (forall_mem_singleton.mp hr))⟩
  · show new = cEnd.root
    rw [hcEnd]
  · rw [hcEnd]
    rw [hdlt, hdepth1]
  · rw [hst.depth] at hcap
    unfold pathMax
    omega
  · have hord := hO.adds.ordered
    show InOrder (rank numeric) (((l.marks Entry.key ++ [sep.bytes]) ++ []) ++ r.marks Entry.key)
    rw [append_nil]
    exact hord
  · have hnd := hO.fresh.nodup
    rw [hoffs] at hnd
    show (new :: (l.offs ++ (r.offs ++ []))).Nodup
    rw [append_nil, nodup_cons]
    refine ⟨fun hmem => ?_, hnd⟩
    have := (hin new hmem).lt
    omega
  · intro o ho
    have ho' : o ∈ new :: (l.offs ++ (r.offs ++ [])) := ho
    rw [append_nil] at ho'
    rw [htotal]
    rcases mem_cons.mp ho' with rfl | ho'
    · exact hnewin
    · exact hin1 o ho'
  · exact ⟨(sep.bytes, l), rfl, hO.spined hst.spined⟩
  · have hlinked := hO.linked
    rw [nil_append, append_nil] at hlinked
    have hlist : leafOffs (h := h + 1) (Branch.mk new [(sep.bytes, l)] r) = leafOffsOf (.two l sep.bytes r) := by
      show ((leafOffs l ++ []) ++ []) ++ leafOffs r = (leafOffs l ++ []) ++ leafOffs r
      rw [append_nil (leafOffs l ++ [])]
    rw [hlist]
    refine hlinked.congr fun o ho => ?_
    refine links_of_node_eq (hnode o (hin o ?_))
    have ho' : o ∈ (leafOffs l ++ []) ++ leafOffs r := ho
    rw [append_nil, mem_append] at ho'
    exact mem_append.mpr (ho'.imp (leafOffs_subset l o) (leafOffs_subset r o))
  · have hperm := hO.adds.items_perm
    show (((l.items ++ []) ++ []) ++ r.items).Perm (x :: t.items)
    rw [append_nil (l.items ++ [])]
    exact hperm

/-- A stream holds a tree, whatever growth is possible. -/
def Holding (numeric : Bool) (s : Stream) {h : Nat} (t : BTree h) : Prop :=
  ∀ room, ∃ c, treeOpen s room = some c ∧ Stands numeric c t

theorem Stands.holding {numeric : Bool} {c : TreeCtx} {h : Nat} {t : BTree h} (hst : Stands numeric c t) :
    Holding numeric c.stream t := by
  intro room
  obtain ⟨hsize, hmagic, hc⟩ := treeOpen_eq_some.mp hst.file.header
  have hopen : treeOpen c.stream room = some { c with room := room } := by
    refine treeOpen_eq_some.mpr ⟨hsize, hmagic, ?_⟩
    rw [TreeCtx.mk.injEq] at hc ⊢
    exact ⟨rfl, hc.2.1, hc.2.2.1, hc.2.2.2.1, rfl⟩
  have hf := hst.file
  exact ⟨_, hopen, ⟨hopen, hf.aligned, hf.pos, hf.le_size, hf.size_le⟩, hst.rep, hst.root, hst.depth, hst.height,
    hst.ordered, hst.nodup, hst.inFile, hst.spined, hst.linked⟩

theorem Stands.site {numeric : Bool} {c : TreeCtx} {h : Nat} {t : BTree h} (hst : Stands numeric c t) :
    Site numeric [] [] t c := by
  refine ⟨hst.file, hst.rep, hst.ordered, hst.nodup, hst.inFile, ?_, ?_, ?_⟩
  · rw [nil_append, append_nil]
    exact hst.linked
  · rw [nil_append, append_nil]
    exact hst.nodup.sublist (leafOffs_sublist t)
  · intro o ho
    cases ho

/-- **`Tree_Insert` adds its pair** to the tree in the stream, and nothing else. -/
theorem treeInsert_holding {numeric : Bool} {s s' : Stream} {room : Nat} {k : SearchKey} {v : Nat} {h : Nat}
    {t : BTree h} (hk : k.Ok numeric) (hv : v < 2 ^ 64) (hst : Holding numeric s t)
    (hins : treeInsert s room k v = .ok s') :
    ∃ h', ∃ t' : BTree h', Holding numeric s' t' ∧ t'.items.Perm (⟨k.bytes, v⟩ :: t.items) := by
  obtain ⟨c, hopen, hc⟩ := hst room
  unfold treeInsert treeDescend at hins
  rw [hopen] at hins
  simp only [] at hins
  split at hins
  · cases hins
  · rename_i d hd
    split at hins
    · cases hins
    · rename_i cEnd hloop
      injection hins with hins
      rw [← hc.root] at hd
      rw [← hins]
      rcases insert_subtree hk hv h t _ _ d [] [] hc.site hd hloop with ⟨t', hO⟩ | ⟨c', sep, l, r, hsep, hO, hcap, hgo⟩
      · refine ⟨h, t', Stands.holding ⟨hO.file, hO.rep t' (mem_singleton_self _), ?_, ?_, hc.height, ?_, ?_, ?_,
          hO.spined hc.spined, ?_⟩, hO.adds.items_perm⟩
        · rw [hO.root, ← hc.root]
          exact hO.main_off
        · rw [hO.depth, hc.depth]
        · exact hO.adds.ordered
        · have hnd := hO.fresh.nodup
          rw [Grown.offs_one] at hnd
          exact hnd
        · intro o ho
          refine hO.inFile o ?_
          rw [Grown.offs_one]
          exact ho
        · have hlinked := hO.linked
          rw [nil_append, append_nil] at hlinked
          exact hlinked
      · obtain ⟨t', hst', hperm⟩ := growRoot_stands hc (hcap rfl) hsep hO hgo
        exact ⟨h + 1, t', hst'.holding, hperm⟩

end Aegir.Bfs
