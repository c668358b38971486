/-
  Searching a B+tree and inserting into it.

  Keys are compared by their RANK.  With the marks of a tree in order, everything left of the leaf that
  a search for `K` ends in has rank at most `K`, everything right of it a greater one: that leaf is
  where a new item belongs.  `Adds` says what an insertion has done to a subtree, which is then one tree
  or two; it goes up one level by plugging the grown kid into the branch it came from, and again by
  cutting the branch when that has become too wide.
-/
import Mathlib.Order.Lattice
import Aegir.Lib.BPlusTree
import Mathlib.Data.List.Pairwise
import Mathlib.Data.List.TakeWhile

namespace Aegir.Lib.BPlus

open List

variable {κ α ρ τ : Type} [LinearOrder ρ] (r : κ → ρ) (key : α → κ)

/-- Ranks do not fall. -/
def InOrder (l : List κ) : Prop := l.Pairwise fun a b => r a ≤ r b

/-- The separators a search for rank `K` passes. -/
def passes (K : ρ) (k : κ) : Bool := decide (r k ≤ K)

/-! ## Around the leaf of a search -/

section Search

variable {r} {K : ρ} {f : τ → List κ} {b : Branch κ τ}

section

variable (h : InOrder r (b.fold f fun k => [k]))

include h

theorem InOrder.parts (H : Hole κ τ) (t : τ) (hb : H.plug t = b) :
    InOrder r (H.foldBefore f fun k => [k]) ∧ InOrder r (f t) ∧ InOrder r (H.foldAfter f fun k => [k]) := by
  rw [← hb, Hole.fold_plug] at h
  unfold InOrder at h ⊢
  rw [pairwise_append, pairwise_append] at h
  exact ⟨h.1.1, h.1.2.1, h.2.1⟩

/-- Left of the kid a search takes, ranks are at most the one searched for. -/
theorem foldBefore_le :
    ∀ m ∈ (b.hole (passes r K)).1.foldBefore f (fun k => [k]), r m ≤ K := by
  intro m hm
  have hord := (h.parts _ _ (b.plug_hole (passes r K))).1
  obtain ⟨p, hp, hmp⟩ := mem_flatMap.mp hm
  have hsep : r p.1 ≤ K := by
    rw [Branch.hole_before] at hp
    have hpass := mem_takeWhile_imp hp
    exact of_decide_eq_true hpass
  rcases mem_append.mp hmp with hmf | hmk
  · have hpair := (pairwise_flatMap.mp hord).1 p hp
    exact le_trans ((pairwise_append.mp hpair).2.2 m hmf p.1 (mem_singleton_self _)) hsep
  · rw [mem_singleton.mp hmk]
    exact hsep

/-- Right of it, they are greater. -/
theorem foldAfter_gt :
    ∀ m ∈ (b.hole (passes r K)).1.foldAfter f (fun k => [k]), K < r m := by
  intro m hm
  have hord := (h.parts _ _ (b.plug_hole (passes r K))).2.2
  cases ha : (b.hole (passes r K)).1.after with
  | none =>
    rw [Hole.foldAfter, ha] at hm
    cases hm
  | some q =>
    obtain ⟨k, rest, last⟩ := q
    have hk : K < r k := by
      have hnot := Branch.hole_after (passes r K) b ha
      exact not_le.mp (of_decide_eq_false hnot)
    simp only [Hole.foldAfter, ha, cons_append] at hm hord
    rcases mem_cons.mp hm with rfl | hm
    · exact hk
    · exact lt_of_lt_of_le hk ((pairwise_cons.mp hord).1 m hm)

end

variable {key} {h : Nat} {t : Tree κ α h}

theorem marks_left (ht : InOrder r (t.marks key)) :
    ∀ m ∈ t.foldLeft (passes r K) (fun l => l.items.map key) (fun k => [k]), r m ≤ K := by
  induction h with
  | zero =>
    intro m hm
    cases hm
  | succ h ih =>
    intro m hm
    have hord := InOrder.parts (b := t) ht _ _ (Branch.plug_hole (passes r K) t)
    rcases mem_append.mp hm with hm | hm
    · exact foldBefore_le (b := t) ht m hm
    · exact ih hord.2.1 m hm

end Search

/-! ## What an insertion adds -/

/-- `x` was added to the subtree `t`, which has become `G`. -/
structure Adds (x : α) {h : Nat} (t : Tree κ α h) (G : Grown κ (Tree κ α h)) : Prop where
  ordered : InOrder r (G.fold (Tree.marks key) fun k => [k])
  marks_from : ∀ m ∈ G.fold (Tree.marks key) (fun k => [k]), m ∈ t.marks key ∨ m = key x
  items_perm : (G.fold Tree.items fun _ => []).Perm (x :: t.items)

variable {r key} {x : α}

/-- Into a leaf, after the items that are not past it. -/
theorem Adds.leaf (l : Leaf α) (hl : InOrder r (l.items.map key)) (p : α → Bool)
    (hp : ∀ e ∈ l.items, p e = true ↔ r (key e) ≤ r (key x)) :
    Adds r key x (h := 0) l (.one ⟨l.off, l.items.takeWhile p ++ x :: l.items.dropWhile p⟩) := by
  have happ := takeWhile_append_dropWhile (p := p) (l := l.items)
  constructor
  · show InOrder r ((l.items.takeWhile p ++ x :: l.items.dropWhile p).map key)
    rw [← happ] at hl
    unfold InOrder at hl ⊢
    rw [map_append, pairwise_append] at hl
    rw [map_append, map_cons, pairwise_append, pairwise_cons]
    have hlow : ∀ e ∈ l.items.takeWhile p, r (key e) ≤ r (key x) := fun e he =>
      (hp e ((takeWhile_sublist p).subset he)).mp (mem_takeWhile_imp he)
    have hhigh : ∀ e ∈ l.items.dropWhile p, r (key x) ≤ r (key e) := by
      intro e he
      cases hd : l.items.dropWhile p with
      | nil =>
        rw [hd] at he
        cases he
      | cons y ys =>
        have hne : l.items.dropWhile p ≠ [] := by
          rw [hd]
          exact cons_ne_nil _ _
        have hhead := head_dropWhile_not p hne
        simp only [hd, head_cons] at hhead
        have hymem : y ∈ l.items := (dropWhile_sublist p).subset (by rw [hd]; exact mem_cons_self)
        have hy : r (key x) ≤ r (key y) := by
          refine le_of_lt (not_le.mp fun hle => ?_)
          rw [(hp y hymem).mpr hle] at hhead
          cases hhead
        rw [hd] at he hl
        rcases mem_cons.mp he with rfl | he
        · exact hy
        · exact le_trans hy ((pairwise_cons.mp hl.2.1).1 _ (mem_map_of_mem he))
    refine ⟨hl.1, ⟨?_, hl.2.1⟩, ?_⟩
    · intro m hm
      obtain ⟨e, he, rfl⟩ := mem_map.mp hm
      exact hhigh e he
    · intro a ha m hm
      obtain ⟨e, he, rfl⟩ := mem_map.mp ha
      rcases mem_cons.mp hm with rfl | hm
      · exact hlow e he
      · obtain ⟨e', he', rfl⟩ := mem_map.mp hm
        exact le_trans (hlow e he) (hhigh e' he')
  · intro m hm
    have hm' : m ∈ (l.items.takeWhile p ++ x :: l.items.dropWhile p).map key := hm
    rw [map_append, map_cons, mem_append, mem_cons] at hm'
    show m ∈ l.items.map key ∨ m = key x
    rw [← happ, map_append, mem_append]
    tauto
  · show (l.items.takeWhile p ++ x :: l.items.dropWhile p).Perm (x :: l.items)
    refine perm_middle.trans (.cons x ?_)
    rw [happ]

/-- A leaf cut in two: the upper half's first key is copied up. -/
theorem Adds.cutLeaf {t : Tree κ α 0} {l : Leaf α} (h : Adds r key x t (.one l)) (new m : Nat) {e : α}
    {es : List α} (hm : l.items.drop m = e :: es) :
    Adds r key x t (.two (Leaf.mk new (l.items.take m)) (key e) (Leaf.mk l.off (l.items.drop m))) := by
  have happ := take_append_drop m l.items
  have hfold : Grown.fold (Tree.marks key) (fun k => [k])
      (Grown.two (τ := Tree κ α 0) (Leaf.mk new (l.items.take m)) (key e) (Leaf.mk l.off (l.items.drop m)))
      = (l.items.take m).map key ++ [key e] ++ (l.items.drop m).map key := rfl
  have hord : InOrder r (l.items.map key) := h.ordered
  have hfrom : ∀ k ∈ l.items.map key, k ∈ t.marks key ∨ k = key x := h.marks_from
  constructor
  · rw [hfold]
    rw [← happ, hm] at hord
    rw [hm]
    unfold InOrder at hord ⊢
    rw [map_append, map_cons, pairwise_append] at hord
    rw [append_assoc, map_cons, singleton_append, pairwise_append, pairwise_cons]
    refine ⟨hord.1, ⟨?_, hord.2.1⟩, ?_⟩
    · intro k hk
      rcases mem_cons.mp hk with rfl | hk
      · exact le_refl _
      · exact (pairwise_cons.mp hord.2.1).1 k hk
    · intro a ha k hk
      rcases mem_cons.mp hk with rfl | hk
      · exact hord.2.2 a ha _ mem_cons_self
      · exact hord.2.2 a ha k hk
  · intro k hk
    rw [hfold] at hk
    refine hfrom k ?_
    rw [← happ, map_append]
    simp only [mem_append, mem_singleton] at hk ⊢
    rcases hk with (hk | rfl) | hk
    · exact .inl hk
    · right
      rw [hm]
      exact mem_map_of_mem mem_cons_self
    · exact .inr hk
  · have hperm : l.items.Perm (x :: t.items) := h.items_perm
    show (l.items.take m ++ [] ++ l.items.drop m).Perm (x :: t.items)
    rw [append_nil, happ]
    exact hperm

/-- A grown kid back in its hole, when the new key stands between what is before and after. -/
theorem Adds.plugAt {h : Nat} {H : Hole κ (Tree κ α h)} {t : Tree κ α h} {G : Grown κ (Tree κ α h)}
    (hb : InOrder r ((H.plug t).fold (Tree.marks key) fun k => [k]))
    (hle : ∀ m ∈ H.foldBefore (Tree.marks key) (fun k => [k]), r m ≤ r (key x))
    (hgt : ∀ m ∈ H.foldAfter (Tree.marks key) (fun k => [k]), r (key x) < r m) (hG : Adds r key x t G) :
    Adds r key x (h := h + 1) (H.plug t) (.one (H.plugGrown G)) := by
  have hmarks := H.fold_plug (Tree.marks key) (fun k => [k]) t
  have hfold := H.fold_plugGrown (Tree.marks key) (fun k => [k]) G
  constructor
  · show InOrder r ((H.plugGrown G).fold (Tree.marks key) fun k => [k])
    rw [hfold]
    rw [hmarks] at hb
    unfold InOrder at hb ⊢
    rw [pairwise_append, pairwise_append] at hb ⊢
    refine ⟨⟨hb.1.1, hG.ordered, ?_⟩, hb.2.1, ?_⟩
    · intro a ha m hm
      rcases hG.marks_from m hm with hm | rfl
      · exact hb.1.2.2 a ha m hm
      · exact hle a ha
    · intro a ha m hm
      rcases mem_append.mp ha with ha | ha
      · exact hb.2.2 a (mem_append_left _ ha) m hm
      · rcases hG.marks_from a ha with ha | rfl
        · exact hb.2.2 a (mem_append_right _ ha) m hm
        · exact le_of_lt (hgt m hm)
  · intro m hm
    have hm' : m ∈ (H.plugGrown G).fold (Tree.marks key) fun k => [k] := hm
    show m ∈ (H.plug t).fold (Tree.marks key) (fun k => [k]) ∨ m = key x
    rw [hfold, mem_append, mem_append] at hm'
    rw [hmarks, mem_append, mem_append]
    rcases hm' with (hm' | hm') | hm'
    · exact .inl (.inl (.inl hm'))
    · rcases hG.marks_from m hm' with h1 | h1
      · exact .inl (.inl (.inr h1))
      · exact .inr h1
    · exact .inl (.inr hm')
  · show ((H.plugGrown G).fold Tree.items fun _ => []).Perm (x :: (H.plug t).fold Tree.items fun _ => [])
    rw [H.fold_plugGrown, H.fold_plug]
    have hmid := (hG.items_perm.append_left (H.foldBefore Tree.items fun _ => [])).append_right
      (H.foldAfter Tree.items fun _ => [])
    refine hmid.trans ?_
    rw [append_assoc, append_assoc]
    exact perm_middle

/-- One level up: the grown kid goes back where the search took it from. -/
theorem Adds.plug {h : Nat} {b : Branch κ (Tree κ α h)} {G : Grown κ (Tree κ α h)}
    (hb : InOrder r (b.fold (Tree.marks key) fun k => [k]))
    (hG : Adds r key x (b.hole (passes r (r (key x)))).2 G) :
    Adds r key x (h := h + 1) b (.one ((b.hole (passes r (r (key x)))).1.plugGrown G)) := by
  have hle := foldBefore_le (K := r (key x)) hb
  have hgt := foldAfter_gt (K := r (key x)) hb
  have hplug := b.plug_hole (passes r (r (key x)))
  have h := Adds.plugAt (H := (b.hole (passes r (r (key x)))).1) (by rw [hplug]; exact hb) hle hgt hG
  rw [hplug] at h
  exact h

/-- A branch cut in two: the separator goes up and leaves the level. -/
theorem Adds.cut {h : Nat} {t : Tree κ α (h + 1)} {b : Branch κ (Tree κ α h)}
    (hb : Adds r key x t (.one b)) (new m : Nat) (hm : m < b.kids.length) :
    Adds r key x t (.two (b.cutLeft new m hm) (b.cutSep m hm) (b.cutRight m)) := by
  have hmarks := b.fold_cut (Tree.marks key) (fun k => [k]) new m hm
  have hitems := b.fold_cut Tree.items (fun _ => []) new m hm
  constructor
  · show InOrder r ((b.cutLeft new m hm).fold (Tree.marks key) (fun k => [k]) ++ [b.cutSep m hm]
      ++ (b.cutRight m).fold (Tree.marks key) fun k => [k])
    rw [hmarks]
    exact hb.ordered
  · intro k hk
    have hk' : k ∈ (b.cutLeft new m hm).fold (Tree.marks key) (fun k => [k]) ++ [b.cutSep m hm]
        ++ (b.cutRight m).fold (Tree.marks key) (fun k => [k]) := hk
    rw [hmarks] at hk'
    exact hb.marks_from k hk'
  · show ((b.cutLeft new m hm).fold Tree.items (fun _ => []) ++ []
      ++ (b.cutRight m).fold Tree.items fun _ => []).Perm (x :: t.items)
    rw [hitems]
    exact hb.items_perm

/-! ## Branches as they are stored -/

section Stored

variable {σ : Type} (w : τ → σ)

def Hole.map (H : Hole κ τ) : Hole κ σ :=
  ⟨H.off, H.before.map fun p => (p.1, w p.2),
    H.after.map fun q => (q.1, q.2.1.map (fun p => (p.1, w p.2)), w q.2.2)⟩

theorem Hole.map_plug (H : Hole κ τ) (t : τ) : (H.plug t).map w = (H.map w).plug (w t) := by
  unfold plug map
  cases H.after with
  | none => rfl
  | some q => simp [Branch.map]

theorem Hole.map_widen (H : Hole κ τ) (sep : κ) (t : τ) : (H.widen sep t).map w = (H.map w).widen sep (w t) := by
  simp [widen, map]

theorem Branch.map_cutLeft (b : Branch κ τ) (new m : Nat) (hm : m < b.kids.length) :
    (b.cutLeft new m hm).map w = ⟨new, (b.map w).kids.take m, w (b.kids.get ⟨m, hm⟩).2⟩ := by
  simp [cutLeft, map, map_take]

theorem Branch.map_cutRight (b : Branch κ τ) (m : Nat) :
    (b.cutRight m).map w = ⟨b.off, (b.map w).kids.drop (m + 1), (b.map w).last⟩ := by
  simp [cutRight, map, map_drop]

end Stored

/-- A kid more, in its place. -/
theorem Hole.widen_plug_kids (H : Hole κ τ) (sep : κ) (l t : τ) : ((H.widen sep l).plug t).kids
      = (H.plug t).kids.take H.before.length ++ (sep, l) :: (H.plug t).kids.drop H.before.length := by
  unfold plug widen
  cases H.after with
  | none => simp
  | some q => simp

theorem Hole.widen_plug_last (H : Hole κ τ) (sep : κ) (l t : τ) :
    ((H.widen sep l).plug t).last = (H.plug t).last := by
  unfold plug widen
  cases H.after <;> rfl

/-! ## Where the nodes are stored -/

/-- The trees of a grown kid. -/
def Grown.trees (G : Grown κ τ) : List τ := G.fold (fun t => [t]) fun _ => []

def Grown.offs {h : Nat} (G : Grown κ (Tree κ α h)) : List Nat := G.trees.flatMap Tree.offs

theorem Grown.offs_one {h : Nat} (t : Tree κ α h) : (Grown.one t : Grown κ (Tree κ α h)).offs = t.offs :=
  append_nil _

theorem Grown.offs_two {h : Nat} (l r : Tree κ α h) (sep : κ) :
    (Grown.two l sep r : Grown κ (Tree κ α h)).offs = l.offs ++ r.offs := by
  show l.offs ++ (r.offs ++ []) = _
  rw [append_nil]

/-- Old places, and new ones from `lo` up to `hi`. -/
structure Fresh (lo hi : Nat) {h : Nat} (t : Tree κ α h) (G : Grown κ (Tree κ α h)) : Prop where
  nodup : G.offs.Nodup
  from_or : ∀ o ∈ G.offs, o ∈ t.offs ∨ lo ≤ o ∧ o < hi

section Fresh

variable {lo hi h : Nat}

/-- The trees around a hole. -/
theorem Hole.trees_plug (H : Hole κ τ) (t : τ) : (H.plug t).trees =
    (H.foldBefore (fun t => [t]) fun _ => []) ++ [t] ++ H.foldAfter (fun t => [t]) fun _ => [] :=
  H.fold_plug _ _ t

theorem Hole.trees_plugGrown (H : Hole κ τ) (G : Grown κ τ) : (H.plugGrown G).trees =
    (H.foldBefore (fun t => [t]) fun _ => []) ++ G.trees ++ H.foldAfter (fun t => [t]) fun _ => [] :=
  H.fold_plugGrown _ _ G

theorem Fresh.plugAt {H : Hole κ (Tree κ α h)} {t : Tree κ α h} {G : Grown κ (Tree κ α h)}
    (hnd : (Tree.offs (h := h + 1) (H.plug t)).Nodup)
    (hlt : ∀ o ∈ Tree.offs (h := h + 1) (H.plug t), o < lo) (hG : Fresh lo hi t G) :
    Fresh lo hi (h := h + 1) (H.plug t) (.one (H.plugGrown G)) := by
  have hoffs : Tree.offs (h := h + 1) (H.plug t) = H.off ::
      ((H.foldBefore (fun t => [t]) fun _ => []).flatMap Tree.offs ++ t.offs
        ++ (H.foldAfter (fun t => [t]) fun _ => []).flatMap Tree.offs) := by
    show (H.plug t).off :: (H.plug t).trees.flatMap Tree.offs = _
    rw [H.plug_off, H.trees_plug]
    simp [flatMap_append]
  have hnew : Tree.offs (h := h + 1) (H.plugGrown G) = H.off ::
      ((H.foldBefore (fun t => [t]) fun _ => []).flatMap Tree.offs ++ G.offs
        ++ (H.foldAfter (fun t => [t]) fun _ => []).flatMap Tree.offs) := by
    show (H.plugGrown G).off :: (H.plugGrown G).trees.flatMap Tree.offs = _
    rw [H.plugGrown_off, H.trees_plugGrown, flatMap_append, flatMap_append]
    rfl
  rw [hoffs] at hnd hlt
  constructor
  · rw [Grown.offs_one, hnew]
    rw [nodup_cons, nodup_append, nodup_append] at hnd ⊢
    obtain ⟨hroot, ⟨hA, -, hAt⟩, hC, hABC⟩ := hnd
    -- a new place is not below `lo`, where everything else is
    have hsplit : ∀ o ∈ G.offs, o ∈ t.offs ∨ lo ≤ o := fun o ho =>
      (hG.from_or o ho).imp id fun hle => hle.1
    refine ⟨?_, ⟨hA, hG.nodup, ?_⟩, hC, ?_⟩
    · intro hmem
      simp only [mem_append] at hmem hroot
      rcases hmem with (hmem | hmem) | hmem
      · exact hroot (.inl (.inl hmem))
      · rcases hsplit _ hmem with ho | ho
        · exact hroot (.inl (.inr ho))
        · exact absurd (hlt _ mem_cons_self) (Nat.not_lt.mpr ho)
      · exact hroot (.inr hmem)
    · intro a ha o ho hao
      rcases hsplit o ho with ho | ho
      · exact hAt a ha o ho hao
      · have := hlt a (mem_cons_of_mem _ (mem_append_left _ (mem_append_left _ ha)))
        omega
    · intro a ha o ho hao
      rcases mem_append.mp ha with ha | ha
      · exact hABC a (mem_append_left _ ha) o ho hao
      · rcases hsplit a ha with ha | ha
        · exact hABC a (mem_append_right _ ha) o ho hao
        · have := hlt o (mem_cons_of_mem _ (mem_append_right _ ho))
          omega
  · intro o ho
    rw [Grown.offs_one, hnew] at ho
    rw [hoffs]
    simp only [mem_cons, mem_append] at ho ⊢
    rcases ho with ho | (ho | ho) | ho
    · exact .inl (.inl ho)
    · exact .inl (.inr (.inl (.inl ho)))
    · rcases hG.from_or o ho with ho | ho
      · exact .inl (.inr (.inl (.inr ho)))
      · exact .inr ho
    · exact .inl (.inr (.inr ho))

/-- A cut puts its left half at a new place. -/
theorem Fresh.cut {new m : Nat} {t : Tree κ α (h + 1)} {b : Branch κ (Tree κ α h)}
    (hb : Fresh lo hi t (.one b)) (hm : m < b.kids.length) (hlo : lo ≤ hi) (hlt : ∀ o ∈ t.offs, o < lo)
    (hnew : hi ≤ new) {hi' : Nat} (hhi : new < hi') :
    Fresh lo hi' t (.two (b.cutLeft new m hm) (b.cutSep m hm) (b.cutRight m)) := by
  have hcut := b.fold_cut (fun t => [t]) (fun _ => []) new m hm
  rw [append_nil] at hcut
  have hperm : (Grown.offs (h := h + 1) (.two (b.cutLeft new m hm) (b.cutSep m hm) (b.cutRight m))).Perm
      (new :: Tree.offs (h := h + 1) b) := by
    have hright : Tree.offs (h := h + 1) b
        = b.off :: ((b.cutLeft new m hm).trees ++ (b.cutRight m).trees).flatMap Tree.offs := by
      show b.off :: b.trees.flatMap Tree.offs = _
      rw [Branch.trees, ← hcut]
      rfl
    rw [Grown.offs_two, hright, flatMap_append]
    have hmiddle : (new :: (b.cutLeft new m hm).trees.flatMap Tree.offs ++ b.off ::
        (b.cutRight m).trees.flatMap Tree.offs).Perm (b.off :: (new :: (b.cutLeft new m hm).trees.flatMap Tree.offs ++
          (b.cutRight m).trees.flatMap Tree.offs)) := perm_middle
    exact hmiddle.trans (.swap _ _ _)
  have hbelow : ∀ o ∈ Tree.offs (h := h + 1) b, o < hi := by
    intro o ho
    rcases hb.from_or o (by rw [Grown.offs_one]; exact ho) with ho | ho
    · have := hlt o ho
      omega
    · exact ho.2
  constructor
  · rw [hperm.nodup_iff, nodup_cons]
    refine ⟨?_, by have := hb.nodup; rwa [Grown.offs_one] at this⟩
    intro hmem
    have := hbelow new hmem
    omega
  · intro o ho
    rcases mem_cons.mp (hperm.mem_iff.mp ho) with rfl | ho
    · exact .inr ⟨by omega, hhi⟩
    · exact (hb.from_or o (by rw [Grown.offs_one]; exact ho)).imp id fun hr => ⟨hr.1, by omega⟩

end Fresh

/-! ## The leftmost kids -/

theorem Spined.plugAt {h : Nat} {H : Hole κ (Tree κ α h)} {t : Tree κ α h} {G : Grown κ (Tree κ α h)}
    (hb : Tree.Spined (h := h + 1) (H.plug t)) (hG : t.Spined → G.first.Spined) :
    Tree.Spined (h := h + 1) (H.plugGrown G) := by
  obtain ⟨p, hp, hsp⟩ := hb
  cases hbef : H.before with
  | cons q qs =>
    -- the first kid is left of the hole
    have hq : p = q := by
      have hp' : p ∈ (H.plug t).kids.head? := hp
      unfold Hole.plug at hp'
      cases ha : H.after with
      | none =>
        rw [ha, hbef] at hp'
        exact (Option.mem_some.mp hp').symm
      | some a =>
        rw [ha, hbef] at hp'
        exact (Option.mem_some.mp hp').symm
    subst hq
    refine ⟨p, ?_, hsp⟩
    cases G with
    | one u =>
      show p ∈ (H.plug u).kids.head?
      unfold Hole.plug
      cases ha : H.after <;> rw [hbef] <;> rfl
    | two l sep u =>
      show p ∈ ((H.widen sep l).plug u).kids.head?
      unfold Hole.plug Hole.widen
      cases ha : H.after <;> simp only [hbef] <;> rfl
  | nil =>
    cases ha : H.after with
    | none =>
      have hp' : p ∈ (H.plug t).kids.head? := hp
      unfold Hole.plug at hp'
      rw [ha, hbef] at hp'
      cases hp'
    | some a =>
      have hpt : p.2 = t := by
        have hp' : p ∈ (H.plug t).kids.head? := hp
        unfold Hole.plug at hp'
        rw [ha, hbef] at hp'
        rw [← Option.mem_some.mp hp']
      rw [hpt] at hsp
      cases G with
      | one u =>
        refine ⟨(a.1, u), ?_, hG hsp⟩
        show _ ∈ (H.plug u).kids.head?
        unfold Hole.plug
        rw [ha, hbef]
        rfl
      | two l sep u =>
        refine ⟨(sep, l), ?_, hG hsp⟩
        show _ ∈ ((H.widen sep l).plug u).kids.head?
        unfold Hole.plug Hole.widen
        simp only [ha, hbef]
        rfl

theorem Spined.cutLeft {h : Nat} {b : Branch κ (Tree κ α h)} (hb : Tree.Spined (h := h + 1) b) (new m : Nat)
    (hm : m < b.kids.length) (hpos : 1 ≤ m) : Tree.Spined (h := h + 1) (b.cutLeft new m hm) := by
  obtain ⟨p, hp, hsp⟩ := hb
  refine ⟨p, ?_, hsp⟩
  show p ∈ (b.kids.take m).head?
  rw [head?_take, if_neg (by omega)]
  exact hp

end Aegir.Lib.BPlus
