/-
  `Tree_Locate` and `Tree_Remove`.

  Everything left of the leaf that a search ends in has a key at most the one searched for, so equal keys
  further left are the END of what stands there; `Tree_Locate` walks left for them, up to the first EMPTY
  neighbour and at most 40 steps.  `InReach` is what it can therefore find.  Removal takes one entry out of
  one leaf and leaves the rest of the tree as it is.
-/
import Mathlib.Data.List.Induction
import Aegir.Bfs.TreeInsert

namespace Aegir.Bfs

open Aegir.Lib Aegir.Lib.BPlus List

variable {numeric mv : Bool} {k : SearchKey} {v : Nat}

/-- An entry that a search accepts. -/
def Hit (k : SearchKey) (v : Nat) (matchValue : Bool) (e : Entry) : Prop :=
  e.key = k.bytes ∧ (matchValue = false ∨ e.val = v)

/-! ## In a leaf -/

variable {i : Nat}

theorem findEntry_sound (hk : k.Ok numeric) {es : List Entry} (hes : ∀ e ∈ es, KeyOk numeric e.key) {j : Nat}
    (h : findEntry k v mv i es = some j) : i ≤ j ∧ ∃ e, es[j - i]? = some e ∧ Hit k v mv e := by
  induction es generalizing i with
  | nil => cases h
  | cons e es ih =>
    rw [findEntry] at h
    by_cases hlt : skCmp k e = .lt
    · rw [if_pos hlt] at h
      cases h
    rw [if_neg hlt] at h
    split_ifs at h with hhit
    · injection h with h
      subst h
      refine ⟨Nat.le_refl _, e, ?_, ((skCmp_eq hk (hes e mem_cons_self)).mp hhit.1).symm, hhit.2⟩
      rw [Nat.sub_self]
      rfl
    · obtain ⟨hle, e', hget, hok⟩ := ih (fun e' he' => hes e' (mem_cons_of_mem _ he')) h
      refine ⟨by omega, e', ?_, hok⟩
      rw [show j - i = (j - (i + 1)) + 1 by omega, getElem?_cons_succ]
      exact hget

theorem findEntry_complete (hk : k.Ok numeric) {es : List Entry} (hes : ∀ e ∈ es, KeyOk numeric e.key)
    (hord : InOrder (rank numeric) (es.map Entry.key)) (h : findEntry k v mv i es = none) :
    ∀ e ∈ es, ¬ Hit k v mv e := by
  induction es generalizing i with
  | nil =>
    intro e he
    cases he
  | cons e es ih =>
    rw [findEntry] at h
    unfold InOrder at hord
    rw [map_cons, pairwise_cons] at hord
    have hlt := skCmp_lt hk (hes e mem_cons_self)
    by_cases hpast : skCmp k e = .lt
    · -- every later key is greater still
      have hgt := hlt.mp hpast
      intro e' he' hhit
      rcases mem_cons.mp he' with rfl | he'
      · rw [hhit.1] at hgt
        exact lt_irrefl _ hgt
      · have hle := hord.1 e'.key (mem_map_of_mem he')
        rw [hhit.1] at hle
        exact not_lt.mpr hle hgt
    rw [if_neg hpast] at h
    by_cases hhit : skCmp k e = .eq ∧ (mv = false ∨ e.val = v)
    · rw [if_pos hhit] at h
      cases h
    · rw [if_neg hhit] at h
      intro e' he' hok
      rcases mem_cons.mp he' with rfl | he'
      · exact hhit ⟨(skCmp_eq hk (hes _ mem_cons_self)).mpr hok.1.symm, hok.2⟩
      · exact ih (fun e' he' => hes e' (mem_cons_of_mem _ he')) hord.2 h e' he' hok

/-! ## The walk to the left -/

variable {A B prevs ps : List (Leaf Entry)} {y p : Leaf Entry} {steps : Nat} {e₀ : Entry}

/-- `locateFrom` on the leaves themselves, the ones to the left nearest first. -/
def walkLeft (k : SearchKey) (v : Nat) (mv : Bool) (steps : Nat) (y : Leaf Entry) (prevs : List (Leaf Entry)) :
    Option (Leaf Entry × Nat) :=
  match findEntry k v mv 0 y.items with
  | some i => some (y, i)
  | none =>
    match prevs, steps with
    | [], _ => none
    | _ :: _, 0 => none
    | p :: prevs, steps + 1 =>
      match p.items.getLast? with
      | none => none
      | some e => if skCmp k e ≠ .eq then none else walkLeft k v mv steps p prevs

/-- The place a leaf's left link leads to. -/
def Before (c : TreeCtx) : Leaf Entry → List (Leaf Entry) → Prop
  | y, [] => leftOf c.stream y.off = btreeNull
  | y, p :: ps => leftOf c.stream y.off = p.off ∧ Before c p ps

theorem before_of_linked {c : TreeCtx} (hc : FileOk c)
    (h : Linked c.stream ((A ++ y :: B).map Leaf.off)) (hin : ∀ l ∈ A ++ y :: B, InFile c.total l.off) :
    Before c y A.reverse := by
  induction A using reverseRecOn generalizing y B with
  | nil =>
    rw [map_append, map_cons] at h
    exact h.leftOf_eq (hc.ne_null (hin y (mem_append_right _ mem_cons_self)))
  | append_singleton A p ih =>
    rw [reverse_append]
    have hlink := h
    rw [map_append, map_cons] at hlink
    refine ⟨?_, ?_⟩
    · rw [hlink.leftOf_eq (hc.ne_null (hin y (mem_append_right _ mem_cons_self)))]
      simp [getLastD_eq_getLast?]
    · rw [append_assoc] at h hin
      exact ih h hin

theorem locateFrom_eq {c : TreeCtx} (hc : FileOk c)
    (hy : LeafStored numeric c.stream y) (hps : ∀ p ∈ prevs, LeafStored numeric c.stream p)
    (hin : ∀ p ∈ prevs, InFile c.total p.off) (hb : Before c y prevs) (steps : Nat) :
    locateFrom c.stream k v mv steps (c.stream.node y.off) (y.off / blockSize)
      = (walkLeft k v mv steps y prevs).map fun r =>
        ⟨c.stream.node r.1.off, r.1.off / blockSize, r.2⟩ := by
  induction prevs generalizing y steps with
  | nil =>
    rw [locateFrom.eq_def, walkLeft, hy.holds.entries]
    cases findEntry k v mv 0 y.items with
    | some i => rfl
    | none =>
      rw [if_pos (show le (c.stream.node y.off) 0 8 = btreeNull from hb)]
      rfl
  | cons p ps ih =>
    rw [locateFrom.eq_def, walkLeft.eq_def, hy.holds.entries]
    cases findEntry k v mv 0 y.items with
    | some i => rfl
    | none =>
      have hpin := hin p mem_cons_self
      have hleft : le (c.stream.node y.off) 0 8 = p.off := hb.1
      rw [hleft, if_neg (hc.ne_null hpin)]
      cases steps with
      | zero => rfl
      | succ steps =>
        have hp := hps p mem_cons_self
        rw [hc.load hpin]
        simp only []
        rw [hp.holds.entries]
        cases hlast : p.items.getLast? with
        | none => rfl
        | some e =>
          simp only []
          by_cases he : skCmp k e ≠ .eq
          · rw [if_pos he, if_pos he]
            rfl
          · rw [if_neg he, if_neg he]
            exact ih hp (fun q hq => hps q (mem_cons_of_mem _ hq))
              (fun q hq => hin q (mem_cons_of_mem _ hq)) hb.2 steps

/-- What the walk can find: a hit in the leaf, or in one at most `steps` to the left of it with no
    empty leaf between. -/
def InReach (k : SearchKey) (v : Nat) (mv : Bool) (steps : Nat) (y : Leaf Entry) (prevs : List (Leaf Entry)) :
    Prop :=
  (∃ e ∈ y.items, Hit k v mv e) ∨
    ∃ between p further, prevs = between ++ p :: further ∧ between.length < steps ∧
      (∀ q ∈ between, q.items ≠ []) ∧ ∃ e ∈ p.items, Hit k v mv e

theorem walkLeft_sound (hk : k.Ok numeric) {z : Leaf Entry}
    (hkeys : ∀ q ∈ y :: prevs, ∀ e ∈ q.items, KeyOk numeric e.key)
    (h : walkLeft k v mv steps y prevs = some (z, i)) :
    z ∈ y :: prevs ∧ InReach k v mv steps y prevs ∧ ∃ e, z.items[i]? = some e ∧ Hit k v mv e := by
  induction prevs generalizing y steps with
  | nil =>
    rw [walkLeft.eq_def] at h
    cases hf : findEntry k v mv 0 y.items with
    | none =>
      rw [hf] at h
      cases h
    | some j =>
      rw [hf] at h
      injection h with h
      rw [Prod.mk.injEq] at h
      obtain ⟨rfl, rfl⟩ := h
      obtain ⟨-, e, hget, hhit⟩ := findEntry_sound hk (hkeys y mem_cons_self) hf
      exact ⟨mem_cons_self, .inl ⟨e, mem_of_getElem? hget, hhit⟩, e, hget, hhit⟩
  | cons p ps ih =>
    rw [walkLeft.eq_def] at h
    cases hf : findEntry k v mv 0 y.items with
    | some j =>
      rw [hf] at h
      injection h with h
      rw [Prod.mk.injEq] at h
      obtain ⟨rfl, rfl⟩ := h
      obtain ⟨-, e, hget, hhit⟩ := findEntry_sound hk (hkeys y mem_cons_self) hf
      exact ⟨mem_cons_self, .inl ⟨e, mem_of_getElem? hget, hhit⟩, e, hget, hhit⟩
    | none =>
      rw [hf] at h
      cases steps with
      | zero => cases h
      | succ steps =>
        simp only [] at h
        split at h
        · cases h
        · rename_i e hlast
          by_cases he : skCmp k e ≠ .eq
          · rw [if_pos he] at h
            cases h
          · rw [if_neg he] at h
            obtain ⟨hz, hreach, hfound⟩ := ih (fun q hq => hkeys q (mem_cons_of_mem _ hq)) h
            have hne : p.items ≠ [] := by
              intro hnil
              rw [hnil] at hlast
              cases hlast
            refine ⟨mem_cons_of_mem _ hz, .inr ?_, hfound⟩
            rcases hreach with hp | ⟨between, q, further, rfl, hlen, hbet, hq⟩
            · exact ⟨[], p, ps, rfl, Nat.succ_pos _, fun q hq => (nomatch hq), hp⟩
            · refine ⟨p :: between, q, further, rfl, Nat.succ_lt_succ hlen, ?_, hq⟩
              intro q' hq'
              rcases mem_cons.mp hq' with rfl | hq'
              · exact hne
              · exact hbet q' hq'

/-- The chain from the leftmost of these leaves to `y`, nearest first: ranks fall from `K` on. -/
structure Falling (numeric : Bool) (k : SearchKey) (prevs : List (Leaf Entry)) : Prop where
  keys : ∀ q ∈ prevs, ∀ e ∈ q.items, KeyOk numeric e.key
  ordered : InOrder (rank numeric) ((prevs.reverse.flatMap Leaf.items).map Entry.key)
  le : ∀ q ∈ prevs, ∀ e ∈ q.items, rank numeric e.key ≤ rank numeric k.bytes

theorem Falling.tail (h : Falling numeric k (p :: ps)) :
    Falling numeric k ps := by
  refine ⟨fun q hq => h.keys q (mem_cons_of_mem _ hq), ?_, fun q hq => h.le q (mem_cons_of_mem _ hq)⟩
  have hord := h.ordered
  unfold InOrder at hord ⊢
  rw [reverse_cons, flatMap_append, map_append, pairwise_append] at hord
  exact hord.1

theorem Falling.head (h : Falling numeric k (p :: ps)) :
    InOrder (rank numeric) (p.items.map Entry.key) := by
  have hord := h.ordered
  unfold InOrder at hord ⊢
  rw [reverse_cons, flatMap_append, map_append, pairwise_append] at hord
  simpa using hord.2.1

theorem Falling.eq_of_later (between : List (Leaf Entry)) {further : List (Leaf Entry)}
    (hk : k.Ok numeric) (h : Falling numeric k (between ++ p :: further)) (he0 : e₀ ∈ p.items)
    (hkey : e₀.key = k.bytes) : ∀ q ∈ between, ∀ e ∈ q.items, e.key = k.bytes := by
  intro q hq e he
  have hord := h.ordered
  unfold InOrder at hord
  rw [reverse_append, reverse_cons, flatMap_append, map_append, pairwise_append] at hord
  have hle := hord.2.2 e₀.key (mem_map_of_mem (mem_flatMap.mpr ⟨p, mem_append_right _
    (mem_singleton_self _), he0⟩)) e.key (mem_map_of_mem (mem_flatMap.mpr
    ⟨q, mem_reverse.mpr hq, he⟩))
  rw [hkey] at hle
  have hmem : q ∈ between ++ p :: further := mem_append_left _ hq
  exact rank_inj (h.keys q hmem e he) hk.key (le_antisymm (h.le q hmem e he) hle)

theorem Falling.last_eq (hk : k.Ok numeric)
    (h : Falling numeric k (p :: ps)) {e : Entry} (he0 : e₀ ∈ p.items) (hkey : e₀.key = k.bytes)
    (hlast : p.items.getLast? = some e) : e.key = k.bytes := by
  have hmem : e ∈ p.items := mem_of_getLast? hlast
  have hle := h.le p mem_cons_self e hmem
  obtain ⟨init, hinit⟩ := getLast?_eq_some_iff.mp hlast
  have hge : rank numeric k.bytes ≤ rank numeric e.key := by
    have hord := h.head
    unfold InOrder at hord
    rw [hinit, map_append, pairwise_append] at hord
    rw [hinit] at he0
    rcases mem_append.mp he0 with he0 | he0
    · rw [← hkey]
      exact hord.2.2 _ (mem_map_of_mem he0) _ (mem_singleton_self _)
    · rw [← hkey, mem_singleton.mp he0]
  exact rank_inj (h.keys p mem_cons_self e hmem) hk.key (le_antisymm hle hge)

/-- **The walk finds whatever is in reach.** -/
theorem walkLeft_complete (hk : k.Ok numeric)
    (hy : ∀ e ∈ y.items, KeyOk numeric e.key) (hyord : InOrder (rank numeric) (y.items.map Entry.key))
    (hfall : Falling numeric k prevs) (h : InReach k v mv steps y prevs) :
    (walkLeft k v mv steps y prevs).isSome = true := by
  induction prevs generalizing y steps with
  | nil =>
    rw [walkLeft.eq_def]
    cases hf : findEntry k v mv 0 y.items with
    | some i => rfl
    | none =>
      rcases h with ⟨e, he, hhit⟩ | ⟨between, p, further, hnil, -⟩
      · exact absurd hhit (findEntry_complete hk hy hyord hf e he)
      · cases between <;> cases hnil
  | cons p ps ih =>
    rw [walkLeft.eq_def]
    cases hf : findEntry k v mv 0 y.items with
    | some i => rfl
    | none =>
      rcases h with ⟨e, he, hhit⟩ | ⟨between, q, further, hprevs, hlen, hbet, e₀, he0, hhit⟩
      · exact absurd hhit (findEntry_complete hk hy hyord hf e he)
      · cases steps with
        | zero => cases hlen
        | succ steps =>
          simp only []
          have hpkeys := hfall.keys p mem_cons_self
          -- the neighbour is not empty, and its last key is the one searched for
          have hnext : ∃ e, p.items.getLast? = some e ∧ e.key = k.bytes ∧ InReach k v mv steps p ps := by
            cases between with
            | nil =>
              injection hprevs with hpq hps
              subst hpq
              obtain ⟨e, he⟩ : ∃ e, p.items.getLast? = some e := by
                cases hl : p.items.getLast? with
                | none =>
                  rw [getLast?_eq_none_iff.mp hl] at he0
                  cases he0
                | some e => exact ⟨e, rfl⟩
              exact ⟨e, he, hfall.last_eq hk he0 hhit.1 he, .inl ⟨e₀, he0, hhit⟩⟩
            | cons p' between =>
              injection hprevs with hpq hps
              subst hpq
              have hne := hbet p mem_cons_self
              obtain ⟨e, he⟩ : ∃ e, p.items.getLast? = some e := by
                cases hl : p.items.getLast? with
                | none => exact absurd (getLast?_eq_none_iff.mp hl) hne
                | some e => exact ⟨e, rfl⟩
              have hfall' := hfall
              rw [hps] at hfall'
              have heq := Falling.eq_of_later (p :: between) hk hfall' he0 hhit.1 p mem_cons_self e
                (mem_of_getLast? he)
              refine ⟨e, he, heq, .inr ⟨between, q, further, hps, Nat.lt_of_succ_lt_succ hlen, ?_, e₀, he0, hhit⟩⟩
              exact fun q' hq' => hbet q' (mem_cons_of_mem _ hq')
          obtain ⟨e, hlast, hkey, hreach⟩ := hnext
          have hcmp : ¬ skCmp k e ≠ .eq := not_not.mpr
            ((skCmp_eq hk (hpkeys e (mem_of_getLast? hlast))).mpr hkey.symm)
          rw [hlast]
          simp only []
          rw [if_neg hcmp]
          exact ih hpkeys hfall.head hfall.tail hreach

/-! ## In a tree -/

section InTree

variable (numeric k) {h : Nat} (t : BTree h)

/-- The leaf a search ends in, the leaves left of it and those right of it. -/
def searched : Leaf Entry := t.leafFor (passes (rank numeric) (rank numeric k.bytes))
def leftLeaves : List (Leaf Entry) :=
  t.foldLeft (passes (rank numeric) (rank numeric k.bytes)) (fun l => [l]) fun _ => []
def rightLeaves : List (Leaf Entry) :=
  t.foldRight (passes (rank numeric) (rank numeric k.bytes)) (fun l => [l]) fun _ => []

theorem leaves_eq : t.leaves = leftLeaves numeric k t ++ searched numeric k t :: rightLeaves numeric k t := by
  rw [Tree.leaves, t.fold_eq (passes (rank numeric) (rank numeric k.bytes)), append_assoc]
  rfl

end InTree

section Stands

variable {c : TreeCtx} {h : Nat} {t : BTree h}

theorem searched_mem : searched numeric k t ∈ t.leaves := by
  rw [leaves_eq numeric k t]
  exact mem_append_right _ mem_cons_self

theorem leftLeaves_subset : ∀ l ∈ leftLeaves numeric k t, l ∈ t.leaves := by
  intro l hl
  rw [leaves_eq numeric k t]
  exact mem_append_left _ hl

section

variable (hst : Stands numeric c t)

include hst

theorem Stands.items_ordered : InOrder (rank numeric) (t.items.map Entry.key) :=
  List.Pairwise.sublist (t.items_sublist_marks Entry.key) hst.ordered

theorem Stands.leaf_ordered (hAB : t.leaves = A ++ B) :
    InOrder (rank numeric) ((A.flatMap Leaf.items).map Entry.key) ∧
      InOrder (rank numeric) ((B.flatMap Leaf.items).map Entry.key) := by
  have hord := hst.items_ordered
  unfold InOrder at hord
  rw [t.items_eq, hAB, flatMap_append, map_append, pairwise_append] at hord
  exact ⟨hord.1, hord.2.1⟩

theorem Stands.falling : Falling numeric k (leftLeaves numeric k t).reverse := by
  refine ⟨?_, ?_, ?_⟩
  · intro q hq
    exact (hst.rep.leaf (leftLeaves_subset q (mem_reverse.mp hq))).keys
  · rw [reverse_reverse]
    exact (hst.leaf_ordered (leaves_eq numeric k t)).1
  · intro q hq e he
    refine marks_left hst.ordered e.key ?_
    exact t.mem_foldLeft _ _ _ (mem_reverse.mp hq) (mem_map_of_mem he)

theorem Stands.reach_keys :
    ∀ q ∈ searched numeric k t :: (leftLeaves numeric k t).reverse, ∀ e ∈ q.items, KeyOk numeric e.key := by
  intro q hq
  rcases mem_cons.mp hq with rfl | hq
  · exact (hst.rep.leaf searched_mem).keys
  · exact hst.falling.keys q hq

end

theorem descend_searched {P Q : List Nat} (hs : Site numeric P Q t c) (hk : k.Ok numeric) {levels : Nat}
    (hl : h ≤ levels) (above : List PathElem) : ∃ above', descendFrom c.stream k (levels + 1) t.off above
      = some ⟨above', (searched numeric k t).off, c.stream.node (searched numeric k t).off,
        (searched numeric k t).off / blockSize⟩ := by
  induction h generalizing P Q levels above with
  | zero => exact ⟨above, descend_leaf hs levels above⟩
  | succ h ih =>
    cases levels with
    | zero => omega
    | succ levels =>
      obtain ⟨above', hd⟩ := ih (hs.kid k) (Nat.le_of_succ_le_succ hl)
        (⟨Branch.off t, (holeFor numeric k t).1.before.length⟩ :: above)
      refine ⟨above', ?_⟩
      rw [show descendFrom c.stream k (levels + 1 + 1) (Tree.off t) above = _ from
        descend_branch hs hk (levels + 1) above, hd]
      rfl

theorem treeLocate_eq (hst : Stands numeric c t) (hk : k.Ok numeric) : treeLocate c k v mv
      = (walkLeft k v mv locateSteps (searched numeric k t) (leftLeaves numeric k t).reverse).map fun r =>
        ⟨c.stream.node r.1.off, r.1.off / blockSize, r.2⟩ := by
  have hlevels : h ≤ pathMax - 1 := by
    have := hst.height
    omega
  obtain ⟨above, hd⟩ := descend_searched hst.site hk hlevels []
  have hin : ∀ l ∈ t.leaves, InFile c.total l.off := fun l hl => hst.inFile _ (t.leaf_off_mem hl)
  rw [hst.root] at hd
  unfold treeLocate treeDescend
  rw [show descendFrom c.stream k pathMax c.root [] = _ from hd]
  refine locateFrom_eq hst.file (hst.rep.leaf searched_mem) ?_ ?_ ?_ _
  · intro p hp
    exact hst.rep.leaf (leftLeaves_subset p (mem_reverse.mp hp))
  · intro p hp
    exact hin p (leftLeaves_subset p (mem_reverse.mp hp))
  · have hlinked := hst.linked
    rw [leafOffs_eq, leaves_eq numeric k t] at hlinked
    rw [leaves_eq numeric k t] at hin
    exact before_of_linked hst.file hlinked hin

/-- **`Tree_Locate` succeeds exactly on what is in reach.** -/
theorem treeLocate_isSome (hst : Stands numeric c t) (hk : k.Ok numeric) : (treeLocate c k v mv).isSome = true ↔
      InReach k v mv locateSteps (searched numeric k t) (leftLeaves numeric k t).reverse := by
  have hkeys := hst.reach_keys (k := k)
  rw [treeLocate_eq hst hk, Option.isSome_map]
  constructor
  · intro hsome
    obtain ⟨⟨z, i⟩, hw⟩ := Option.isSome_iff_exists.mp hsome
    exact (walkLeft_sound hk hkeys hw).2.1
  · intro hreach
    refine walkLeft_complete hk (hkeys _ mem_cons_self) ?_ hst.falling hreach
    have hord := (hst.leaf_ordered (leaves_eq numeric k t)).2
    unfold InOrder at hord ⊢
    rw [flatMap_cons, map_append, pairwise_append] at hord
    exact hord.1

theorem treeLocate_spec (hst : Stands numeric c t) (hk : k.Ok numeric) {f : Located}
    (hf : treeLocate c k v mv = some f) : ∃ y ∈ t.leaves, ∃ e, y.items[f.idx]? = some e ∧ Hit k v mv e ∧
      f.buf = c.stream.node y.off ∧ f.blk = y.off / blockSize := by
  rw [treeLocate_eq hst hk] at hf
  obtain ⟨⟨y, i⟩, hw, rfl⟩ := Option.map_eq_some_iff.mp hf
  have hkeys := hst.reach_keys (k := k)
  obtain ⟨hy, -, e, hget, hhit⟩ := walkLeft_sound hk hkeys hw
  refine ⟨y, ?_, e, hget, hhit, rfl, rfl⟩
  rcases mem_cons.mp hy with rfl | hy
  · exact searched_mem
  · exact leftLeaves_subset y (mem_reverse.mp hy)

/-! ## Removal -/

variable {s : Stream}

theorem Rep.inner (ht : Rep numeric s t) (hc : FileOk c) (hin : ∀ o ∈ t.offs, InFile c.total o) :
    t.Every (LeafStored numeric s) fun b => BranchStored numeric s b ∧ b.last ≠ btreeNull := by
  induction h with
  | zero => exact ht
  | succ h ih =>
    refine ⟨⟨ht.1, ?_⟩, ?_⟩
    · refine hc.ne_null (hin _ (Tree.offs_sub (b := t) ?_ _ (Tree.off_mem_offs _)))
      exact Branch.mem_trees.mpr (.inr rfl)
    · intro u hu
      exact ih (ht.2 u hu) fun o ho => hin o (Tree.offs_sub hu o ho)

theorem Sublist.keys_ok {es es' : List Entry} (hsub : es'.Sublist es) (hkeys : ∀ e ∈ es, KeyOk numeric e.key)
    (hvals : ∀ e ∈ es, e.val < 2 ^ 64) : ∀ e ∈ es', e.Ok := by
  intro e he
  have hkey := hkeys e (hsub.subset he)
  exact ⟨hkey.pos, hkey.le_max, hvals e (hsub.subset he)⟩

theorem Stands.setItems (hst : Stands numeric c t) (hy : y ∈ t.leaves)
    (f : List Entry → List Entry) (hf : ∀ es, (f es).Sublist es) {b : Block} (hb : leafEncode (f y.items) = some b) :
    Stands numeric (c.store (y.off / blockSize) (setLinks b (leftOf c.stream y.off) (rightOf c.stream y.off)
      btreeNull)) (t.setItems y.off f) := by
  have hin := hst.inFile _ (t.leaf_off_mem hy)
  have hleaf := hst.rep.leaf hy
  have hstored := stored_node hb (Sublist.keys_ok (hf _) hleaf.keys hleaf.vals) c.stream y.off
    (leftOf c.stream y.off) (rightOf c.stream y.off) btreeNull (by unfold btreeNull; omega)
  rw [Nat.mod_eq_of_lt (leftOf_lt _ _), Nat.mod_eq_of_lt (rightOf_lt _ _)] at hstored
  obtain ⟨hholds, hleft, hright⟩ := hstored
  have hsame : ∀ o ∈ t.offs, o ≠ y.off → (c.store (y.off / blockSize) (setLinks b (leftOf c.stream y.off)
      (rightOf c.stream y.off) btreeNull)).stream.node o = c.stream.node o := fun o ho hne =>
    node_store_ne hin (hst.inFile o ho) hne
  refine ⟨hst.file.store hin _, ?_, ?_, hst.depth, hst.height, ?_, ?_, ?_, hst.spined.setItems _ _, ?_⟩
  · refine Tree.Every.setItems (hst.rep.inner hst.file hst.inFile) _ _ ?_ ?_
    · intro l hl hs
      by_cases hly : l.off = y.off
      · -- the leaf stored at this place has the same items
        have hitems : l.items = y.items := by rw [← hs.holds.entries, hly, hleaf.holds.entries]
        rw [Leaf.replace, if_pos hly, hitems, hly]
        exact ⟨hholds, fun e he => hleaf.keys e ((hf _).subset he), fun e he => hleaf.vals e ((hf _).subset he)⟩
      · rw [Leaf.replace, if_neg hly]
        exact ⟨hs.holds.congr (SameBody.of_node_eq (hsame _ hl hly)), hs.keys, hs.vals⟩
    · intro br hbr hs
      have hne : br.off ≠ y.off := by
        intro he
        refine hs.2 ?_
        rw [← hs.1.holds.overflow, he]
        exact hleaf.holds.overflow
      exact ⟨hs.1.holds.congr (SameBody.of_node_eq (hsame _ hbr hne)), hs.1.keys⟩
  · rw [Tree.setItems_off]
    exact hst.root
  · exact List.Pairwise.sublist (t.setItems_marks Entry.key _ f hf) hst.ordered
  · rw [Tree.setItems_offs]
    exact hst.nodup
  · rw [Tree.setItems_offs]
    exact hst.inFile
  · have hoffs : leafOffs (t.setItems y.off f) = leafOffs t := by
      rw [leafOffs_eq, leafOffs_eq, Tree.setItems_leaves, map_map]
      exact map_congr_left fun l _ => Leaf.replace_off _ _ l
    rw [hoffs]
    refine hst.linked.congr ?_
    intro o ho
    by_cases hoy : o = y.off
    · rw [hoy]
      exact ⟨hleft, hright⟩
    · have hnode := hsame o (leafOffs_subset t o ho) hoy
      exact ⟨congrArg (fun b => le b 0 8) hnode, congrArg (fun b => le b 8 8) hnode⟩

theorem setItems_items (hnd : t.offs.Nodup) (hy : y ∈ t.leaves) (f : List Entry → List Entry) :
    ∃ A B, t.items = A ++ y.items ++ B ∧ (t.setItems y.off f).items = A ++ f y.items ++ B := by
  obtain ⟨L, R, hLR⟩ := append_of_mem hy
  have hleaf : (t.leaves.map Leaf.off).Nodup := by
    rw [← leafOffs_eq]
    exact hnd.sublist (leafOffs_sublist t)
  rw [hLR, map_append, map_cons, nodup_append, nodup_cons] at hleaf
  obtain ⟨-, ⟨hyR, -⟩, hL⟩ := hleaf
  have hkeep : ∀ l : Leaf Entry, l.off ≠ y.off → l.replace y.off f = l := fun l hne => if_neg hne
  refine ⟨L.flatMap Leaf.items, R.flatMap Leaf.items, ?_, ?_⟩
  · rw [t.items_eq, hLR, flatMap_append, flatMap_cons, append_assoc]
  · have hyy : y.replace y.off f = ⟨y.off, f y.items⟩ := if_pos rfl
    have hmapL : L.map (Leaf.replace y.off f) = L.map id := by
      refine map_congr_left fun l hl => hkeep l ?_
      exact hL _ (mem_map_of_mem hl) _ mem_cons_self
    have hmapR : R.map (Leaf.replace y.off f) = R.map id := by
      refine map_congr_left fun l hl => hkeep l ?_
      intro he
      exact hyR (he ▸ mem_map_of_mem hl)
    rw [Tree.items_eq, Tree.setItems_leaves, hLR, map_append, map_cons, hyy, hmapL, hmapR,
      map_id, map_id, flatMap_append, flatMap_cons, append_assoc]

theorem perm_eraseIdx {α : Type} (A B : List α) {es : List α} {e : α} (h : es[i]? = some e) :
    (A ++ es ++ B).Perm (e :: (A ++ es.eraseIdx i ++ B)) := by
  obtain ⟨hi, rfl⟩ := List.getElem?_eq_some_iff.mp h
  have hes : es.Perm (es[i] :: es.eraseIdx i) := (getElem_cons_eraseIdx_perm hi).symm
  have hmid : (A ++ es).Perm (es[i] :: (A ++ es.eraseIdx i)) :=
    (hes.append_left A).trans perm_middle
  exact hmid.append_right B

/-- **`Tree_Remove` takes out one hit** of its search, and nothing else. -/
theorem treeRemove_holding {s' : Stream} (hk : k.Ok numeric) (hst : Holding numeric s t)
    (hrem : treeRemove s k v mv = some s') :
    ∃ t' : BTree h, ∃ e, Holding numeric s' t' ∧ Hit k v mv e ∧ t.items.Perm (e :: t'.items) := by
  obtain ⟨c, hopen, hc⟩ := hst 0
  have hstream : c.stream = s := by
    have heq := (treeOpen_eq_some.mp hopen).2.2
    rw [heq]
  unfold treeRemove at hrem
  rw [hopen] at hrem
  simp only [] at hrem
  split at hrem
  · cases hrem
  · rename_i f hf
    obtain ⟨y, hy, e, hget, hhit, hbuf, hblk⟩ := treeLocate_spec hc hk hf
    have hleaf := hc.rep.leaf hy
    rw [hbuf, hblk, hleaf.holds.entries] at hrem
    split at hrem
    · cases hrem
    · rename_i b henc
      injection hrem with hrem
      have hst' := hc.setItems hy (fun es => es.eraseIdx f.idx) (fun es => eraseIdx_sublist es _) henc
      obtain ⟨A, B, hitems, hitems'⟩ := setItems_items hc.nodup hy fun es => es.eraseIdx f.idx
      refine ⟨t.setItems y.off fun es => es.eraseIdx f.idx, e, ?_, hhit, ?_⟩
      · rw [← hrem, hleaf.holds.overflow, ← hstream]
        exact hst'.holding
      · rw [hitems, hitems']
        exact perm_eraseIdx A B hget

end Stands

end Aegir.Bfs
