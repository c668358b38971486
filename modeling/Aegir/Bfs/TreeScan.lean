/-
  The scan of the leaf chain.

  `Tree_Rewind` goes down the first children to the leftmost leaf and `Tree_Next` answers one entry after
  the other, over the right links.  Two counters bound it: 10 000 hops and 100 000 entries.  What a scan
  yields is therefore the entries of the first 10 001 leaves, and of these the first 100 000, EMPTY leaves
  costing a hop like any other.
-/
import Aegir.Bfs.TreeSearch

namespace Aegir.Bfs

open Aegir.Lib Aegir.Lib.BPlus List

/-! ## One node -/

theorem decodeFrom_cons {b : Block} {lens count left i pos : Nat} {e : Entry} {es : List Entry}
    (h : decodeFrom b lens count (left + 1) i pos = e :: es) :
    e.key.length = le b (lens + 2 * i) 2 ∧ e.key.length ≤ leafKeyMax ∧ e.key = slice b pos e.key.length ∧
      e.val = le b (lens + 2 * count + 8 * i) 8 ∧
      decodeFrom b lens count left (i + 1) (pos + e.key.length) = es := by
  rw [decodeFrom] at h
  by_cases hi : i = leafMax
  · rw [if_pos hi] at h
    cases h
  rw [if_neg hi] at h
  by_cases hlen : le b (lens + 2 * i) 2 > leafKeyMax
  · rw [if_pos hlen] at h
    cases h
  rw [if_neg hlen] at h
  injection h with he hes
  have hkey : e.key.length = le b (lens + 2 * i) 2 := by
    rw [← he]
    exact slice_length _ _ _
  refine ⟨hkey, ?_, ?_, ?_, ?_⟩
  · omega
  · rw [hkey, ← he]
  · rw [← he]
  · rw [hkey]
    exact hes

theorem first_child {s : Stream} {off overflow : Nat} {e : Entry} {es : List Entry} (h : Holds s off overflow (e :: es)) :
    le (s.node off) (startNode (s.node off) 0 0).vals 8 = e.val := by
  have hdec := h.entries
  unfold leafDecode at hdec
  rw [h.count, length_cons] at hdec
  obtain ⟨-, -, -, hval, -⟩ := decodeFrom_cons hdec
  rw [hval]
  show le _ (lensOff _ + 2 * le (s.node off) 24 2) 8 = _
  rw [h.count, length_cons]
  rfl

theorem FileOk.read {c : TreeCtx} (h : FileOk c) {off : Nat} (ho : InFile c.total off) :
    c.stream.streamRead off = some (c.stream.node off) := by
  have h1 := h.le_size
  have h3 := ho.lt
  have h4 := ho.aligned
  have hfit : off + blockSize ≤ blockSize * c.stream.size := by
    unfold blockSize at *
    omega
  rw [Stream.streamRead, if_pos hfit, if_pos h4]

/-! ## The leftmost leaf -/

theorem leftmost_eq {numeric : Bool} {c : TreeCtx} {h : Nat} {t : BTree h} (hc : FileOk c)
    (ht : Rep numeric c.stream t) (hin : ∀ o ∈ t.offs, InFile c.total o) (hsp : t.Spined) {levels : Nat}
    (hl : h ≤ levels) :
    ∃ y R, t.leaves = y :: R ∧ leftmostFrom c.stream (levels + 1) t.off = some (c.stream.node y.off) := by
  induction h generalizing levels with
  | zero =>
    have hleaf : LeafStored numeric c.stream t := ht
    refine ⟨t, [], rfl, ?_⟩
    rw [leftmostFrom, hc.read (hin _ (Tree.off_mem_offs _))]
    simp only []
    rw [if_pos (show le (c.stream.node (Tree.off t)) 16 8 = btreeNull from hleaf.holds.overflow)]
    rfl
  | succ h ih =>
    cases levels with
    | zero => omega
    | succ levels =>
      obtain ⟨p, hp, hsp'⟩ := hsp
      obtain ⟨kids, hkids⟩ : ∃ kids, Branch.kids t = p :: kids := by
        cases hk : Branch.kids t with
        | nil =>
          rw [hk] at hp
          cases hp
        | cons q kids =>
          rw [hk] at hp
          cases hp
          exact ⟨kids, rfl⟩
      have hmem : p.2 ∈ Branch.trees t := Branch.mem_trees.mpr (.inl ⟨p, hkids ▸ mem_cons_self, rfl⟩)
      obtain ⟨y, R, hleaves, hleft⟩ := ih (ht.2 p.2 hmem) (fun o ho => hin o (Tree.offs_sub hmem o ho)) hsp'
        (Nat.le_of_succ_le_succ hl)
      refine ⟨y, R ++ ((kids.flatMap fun q => q.2.leaves ++ []) ++ (Branch.last t).leaves), ?_, ?_⟩
      · show Branch.fold Tree.leaves (fun _ => []) t = _
        rw [Branch.fold, hkids, flatMap_cons, hleaves, append_nil]
        simp only [cons_append, append_assoc]
      · have hlast : le (c.stream.node (Branch.off t)) 16 8 = (Branch.last t).off := ht.1.holds.overflow
        have hne : (Branch.last t).off ≠ btreeNull := by
          refine hc.ne_null (hin _ (Tree.offs_sub (b := t) ?_ _ (Tree.off_mem_offs _)))
          exact Branch.mem_trees.mpr (.inr rfl)
        have hes : storedEntries (Branch.map Tree.off t) = ⟨p.1, p.2.off⟩ :: kids.map fun q => ⟨q.1, q.2.off⟩ := by
          unfold storedEntries Branch.map
          rw [hkids]
          simp
        have hholds := ht.1.holds
        rw [hes] at hholds
        have hchild := first_child hholds
        rw [leftmostFrom, hc.read (hin _ (Tree.off_mem_offs _))]
        simp only []
        rw [show le (c.stream.node (Tree.off t)) 16 8 = (Branch.last t).off from hlast, if_neg hne,
          show le (c.stream.node (Tree.off t)) (startNode (c.stream.node (Tree.off t)) 0 0).vals 8 = p.2.off
            from hchild]
        exact hleft

/-! ## Along the chain -/

variable {numeric : Bool} {c : TreeCtx} {y : Leaf Entry} {es : List Entry} {R : List (Leaf Entry)}
  {it : TreeIt}

/-- The place a leaf's right link leads to. -/
def After (c : TreeCtx) : Leaf Entry → List (Leaf Entry) → Prop
  | y, [] => rightOf c.stream y.off = btreeNull
  | y, q :: qs => rightOf c.stream y.off = q.off ∧ After c q qs

theorem after_of_linked {c : TreeCtx} (hc : FileOk c) {A B : List (Leaf Entry)} {y : Leaf Entry}
    (h : Linked c.stream ((A ++ y :: B).map Leaf.off)) (hin : ∀ l ∈ A ++ y :: B, InFile c.total l.off) :
    After c y B := by
  induction B generalizing A y with
  | nil =>
    rw [map_append, map_cons] at h
    exact h.rightOf_eq (hc.ne_null (hin y (mem_append_right _ mem_cons_self)))
  | cons q qs ih =>
    have hlink := h
    rw [map_append, map_cons] at hlink
    refine ⟨hlink.rightOf_eq (hc.ne_null (hin y (mem_append_right _ mem_cons_self))), ?_⟩
    have happ : A ++ y :: q :: qs = (A ++ [y]) ++ q :: qs := by
      rw [append_assoc]
      rfl
    rw [happ] at h hin
    exact ih h hin

/-- The iterator stands in the leaf `y` with the entries `es` of it still to come, and the leaves `R`. -/
structure Scanning (numeric : Bool) (c : TreeCtx) (y : Leaf Entry) (es : List Entry) (R : List (Leaf Entry))
    (it : TreeIt) : Prop where
  node : it.node = c.stream.node y.off
  count : it.count = it.keyIdx + es.length
  vals : it.vals = it.lens + 2 * it.count
  rest : decodeFrom it.node it.lens it.count es.length it.keyIdx it.keyPos = es
  after : After c y R
  stored : ∀ q ∈ R, LeafStored numeric c.stream q
  inFile : ∀ q ∈ R, InFile c.total q.off

theorem startNode_scanning (hy : LeafStored numeric c.stream y) (ha : After c y R)
    (hst : ∀ q ∈ R, LeafStored numeric c.stream q) (hin : ∀ q ∈ R, InFile c.total q.off) (hops entries : Nat) :
    Scanning numeric c y y.items R (startNode (c.stream.node y.off) hops entries) := by
  have hdec := hy.holds.entries
  unfold leafDecode at hdec
  refine ⟨rfl, ?_, rfl, ?_, ha, hst, hin⟩
  · rw [startNode, hy.holds.count, Nat.zero_add]
  · rw [hy.holds.count] at hdec
    show decodeFrom _ (lensOff _) (le (c.stream.node y.off) 24 2) _ 0 28 = _
    rw [hy.holds.count]
    exact hdec

/-- What is still to come within `m` hops. -/
def toCome (m : Nat) (es : List Entry) (R : List (Leaf Entry)) : List Entry := es ++ (R.take m).flatMap Leaf.items

theorem skipEmpty_spec (hc : FileOk c) {m : Nat} (h : Scanning numeric c y es R it) :
    (skipEmpty c.stream m it = none ∧ toCome m es R = []) ∨
      ∃ y' e es' R' it' m', skipEmpty c.stream m it = some it' ∧ Scanning numeric c y' (e :: es') R' it' ∧
        toCome m es R = toCome m' (e :: es') R' ∧ it'.entries = it.entries ∧ m + it.hops = m' + it'.hops := by
  induction R generalizing y es it m with
  | nil =>
    cases es with
    | cons e es =>
      have hlt : it.keyIdx < it.count := by
        rw [h.count, length_cons]
        omega
      refine .inr ⟨y, e, es, [], it, m, ?_, h, rfl, rfl, rfl⟩
      rw [skipEmpty.eq_def, if_pos hlt]
    | nil =>
      have hlt : ¬ it.keyIdx < it.count := by
        rw [h.count, length_nil]
        omega
      refine .inl ⟨?_, ?_⟩
      · rw [skipEmpty.eq_def, if_neg hlt, h.node]
        rw [if_pos (show le (c.stream.node y.off) 8 8 = btreeNull from h.after)]
      · rw [toCome, take_nil]
        rfl
  | cons q qs ih =>
    cases es with
    | cons e es =>
      have hlt : it.keyIdx < it.count := by
        rw [h.count, length_cons]
        omega
      refine .inr ⟨y, e, es, q :: qs, it, m, ?_, h, rfl, rfl, rfl⟩
      rw [skipEmpty.eq_def, if_pos hlt]
    | nil =>
      have hlt : ¬ it.keyIdx < it.count := by
        rw [h.count, length_nil]
        omega
      have hq := h.inFile q mem_cons_self
      have hright : le it.node 8 8 = q.off := by
        rw [h.node]
        exact h.after.1
      cases m with
      | zero =>
        refine .inl ⟨?_, rfl⟩
        rw [skipEmpty.eq_def, if_neg hlt]
        rw [hright, if_neg (hc.ne_null hq)]
      | succ m =>
        have hstep : skipEmpty c.stream (m + 1) it
            = skipEmpty c.stream m (startNode (c.stream.node q.off) (it.hops + 1) it.entries) := by
          rw [skipEmpty.eq_def, if_neg hlt]
          rw [hright, if_neg (hc.ne_null hq), hc.read hq]
        have hscan := startNode_scanning (h.stored q mem_cons_self) h.after.2
          (fun r hr => h.stored r (mem_cons_of_mem _ hr)) (fun r hr => h.inFile r (mem_cons_of_mem _ hr))
          (it.hops + 1) it.entries
        have hcome : toCome (m + 1) [] (q :: qs) = toCome m q.items qs := by
          rfl
        rw [hstep, hcome]
        rcases ih (m := m) hscan with hnone | ⟨y', e, es', R', it', m', hsome, hscan', hto, hent, hhops⟩
        · exact .inl hnone
        · refine .inr ⟨y', e, es', R', it', m', hsome, hscan', hto, hent, ?_⟩
          rw [show m + 1 + it.hops = m + (it.hops + 1) by omega]
          exact hhops

theorem scanFrom_eq (hc : FileOk c) (n m : Nat) (h : Scanning numeric c y es R it)
    (hn : n + it.entries = maxEntries + 1) (hm : m + it.hops = maxHops) :
    scanFrom c.stream n it = (toCome m es R).take (maxEntries - it.entries) := by
  induction n generalizing y es R it m with
  | zero =>
    rw [show maxEntries - it.entries = 0 by omega, take_zero]
    rfl
  | succ n ih =>
    rw [scanFrom, treeNext, show maxHops - it.hops = m by omega]
    rcases skipEmpty_spec hc (m := m) h with ⟨hnone, hempty⟩ | ⟨y', e, es', R', it', m', hsome, hscan, hto, hent, hhops⟩
    · rw [hnone, hempty, take_nil]
    · rw [hsome, hto]
      simp only []
      have hrest := hscan.rest
      obtain ⟨hlen, hle, hkey, hval, hrest'⟩ := decodeFrom_cons hrest
      split_ifs with hfull
      · rw [show maxEntries - it.entries = 0 by omega, take_zero]
      · simp only []
        have hmin : min (le it'.node (it'.lens + 2 * it'.keyIdx) 2) maxPathLen = e.key.length := by
          unfold leafKeyMax at hle
          unfold maxPathLen
          omega
        have hnext : Scanning numeric c y' es' R' { it' with
            entries := it'.entries + 1
            keyPos := it'.keyPos + le it'.node (it'.lens + 2 * it'.keyIdx) 2
            keyIdx := it'.keyIdx + 1 } := by
          refine ⟨hscan.node, ?_, hscan.vals, ?_, hscan.after, hscan.stored, hscan.inFile⟩
          · have hcount := hscan.count
            rw [length_cons] at hcount
            show it'.count = it'.keyIdx + 1 + es'.length
            omega
          · rw [← hlen]
            exact hrest'
        have hval' : e.val = le it'.node (it'.vals + 8 * it'.keyIdx) 8 := by
          rw [hval, hscan.vals]
        rw [hmin, ← hkey, ← hval', ih m' hnext ?_ ?_]
        · show e :: take (maxEntries - (it'.entries + 1)) _ = _
          rw [show maxEntries - it.entries = (maxEntries - (it'.entries + 1)) + 1 by omega]
          rfl
        · show n + (it'.entries + 1) = _
          omega
        · show m' + it'.hops = _
          omega

/-- What a whole scan of a tree yields. -/
def scanned {h : Nat} (t : BTree h) : List Entry :=
  ((t.leaves.take (maxHops + 1)).flatMap Leaf.items).take maxEntries

/-- **The scan yields the entries of the first leaves**, within its two bounds. -/
theorem treeScan_eq {h : Nat} {t : BTree h} (hst : Stands numeric c t) : treeScan c.stream = some (scanned t) := by
  obtain ⟨hsize, hmagic, hctx⟩ := treeOpen_eq_some.mp hst.file.header
  have hlevels : h ≤ 7 := by
    have := hst.height
    unfold pathMax at this
    omega
  obtain ⟨y, R, hleaves, hleft⟩ := leftmost_eq hst.file hst.rep hst.inFile hst.spined hlevels
  have hread : c.stream.streamRead 0 = some (c.stream.node 0) := by
    have hfit : 0 + blockSize ≤ blockSize * c.stream.size := by
      unfold blockSize
      omega
    rw [Stream.streamRead, if_pos hfit, if_pos (Nat.zero_mod _)]
  have hroot : le (c.stream.node 0) 16 8 = t.off := by
    rw [TreeCtx.mk.injEq] at hctx
    rw [hst.root, ← hctx.2.2.1]
  have hmem : ∀ l ∈ y :: R, l ∈ t.leaves := fun l hl => hleaves ▸ hl
  have hin : ∀ l ∈ [] ++ y :: R, InFile c.total l.off := fun l hl => hst.inFile _ (t.leaf_off_mem (hmem l hl))
  have hlinked := hst.linked
  rw [leafOffs_eq, hleaves] at hlinked
  have hafter := after_of_linked (A := []) hst.file hlinked hin
  have hscan := startNode_scanning (hst.rep.leaf (hmem y mem_cons_self)) hafter
    (fun q hq => hst.rep.leaf (hmem q (mem_cons_of_mem _ hq)))
    (fun q hq => hin q (mem_cons_of_mem _ hq)) 0 0
  unfold treeScan treeRewind
  rw [hread]
  simp only []
  rw [if_neg (not_not.mpr hmagic), hroot, hleft, Option.map_some, Option.map_some,
    scanFrom_eq hst.file (maxEntries + 1) maxHops hscan rfl rfl, scanned, hleaves, take_succ_cons,
    flatMap_cons]
  rfl

end Aegir.Bfs
