/-
  B+trees as values: leaves in order, separators between them.

  `Tree κ α h` is a leaf with its items, or a branch whose kids each stand to the LEFT of a separator, with one
  last kid to the right of all.  Every node carries the OFFSET it is stored at.  What is read from a tree in
  order (leaves, offsets, marks) is one fold with two parameters.

  A tree is SEARCHABLE when its marks are in order; a key may stand on both sides of a separator equal to it.
-/
import Mathlib.Data.List.Nodup
import Mathlib.Data.List.Perm.Basic
import Mathlib.Order.Defs.LinearOrder

namespace Aegir.Lib.BPlus

open List

/-- A leaf: where it is stored, and its items. -/
structure Leaf (α : Type) where
  off : Nat
  items : List α

/-- A branch: kids with the separators to their right, and the last kid. -/
structure Branch (κ τ : Type) where
  off : Nat
  kids : List (κ × τ)
  last : τ

/-- The items of the leaf stored at `x` replaced. -/
def Leaf.replace {α : Type} (x : Nat) (f : List α → List α) (l : Leaf α) : Leaf α :=
  if l.off = x then ⟨l.off, f l.items⟩ else l

theorem Leaf.replace_off {α : Type} (x : Nat) (f : List α → List α) (l : Leaf α) :
    (l.replace x f).off = l.off := by
  unfold replace
  split <;> rfl

/-- Every kid replaced. -/
def Branch.map {κ τ σ : Type} (f : τ → σ) (b : Branch κ τ) : Branch κ σ :=
  ⟨b.off, b.kids.map fun p => (p.1, f p.2), f b.last⟩

/-- A tree of the given height. -/
@[reducible]
def Tree (κ α : Type) : Nat → Type
  | 0 => Leaf α
  | h + 1 => Branch κ (Tree κ α h)

/-! ## In order -/

section Fold

variable {κ τ β σ : Type} (f : τ → List β) (g : κ → List β)

/-- What the kids and separators of a branch give, in order. -/
def Branch.fold (b : Branch κ τ) : List β := (b.kids.flatMap fun p => f p.2 ++ g p.1) ++ f b.last

theorem Branch.fold_map (u : σ → τ) (b : Branch κ σ) : (b.map u).fold f g = b.fold (fun t => f (u t)) g := by
  simp only [fold, map, flatMap_map]

/-- All kids of a branch, in order. -/
def Branch.trees (b : Branch κ τ) : List τ := b.fold (fun t => [t]) fun _ => []

theorem Branch.mem_trees {b : Branch κ τ} {t : τ} : t ∈ b.trees ↔ (∃ p ∈ b.kids, p.2 = t) ∨ b.last = t := by
  simp [trees, fold, eq_comm]

theorem Branch.trees_map (u : σ → τ) (b : Branch κ σ) : (b.map u).trees = b.trees.map u := by
  simp [trees, fold, map, flatMap_map, map_flatMap]

/-- Without separators, a fold goes over the kids. -/
theorem Branch.fold_trees (b : Branch κ τ) : b.fold f (fun _ => []) = b.trees.flatMap f := by
  simp [trees, fold, flatMap_append, flatMap_assoc]

/-- A branch without one of its kids. -/
structure Hole (κ τ : Type) where
  off : Nat
  before : List (κ × τ)
  after : Option (κ × List (κ × τ) × τ)

namespace Hole

def plug (H : Hole κ τ) (t : τ) : Branch κ τ :=
  match H.after with
  | none => ⟨H.off, H.before, t⟩
  | some (k, r, last) => ⟨H.off, H.before ++ (k, t) :: r, last⟩

/-- One more kid, left of the hole. -/
def widen (H : Hole κ τ) (sep : κ) (t : τ) : Hole κ τ := { H with before := H.before ++ [(sep, t)] }

def foldBefore (H : Hole κ τ) : List β := H.before.flatMap fun p => f p.2 ++ g p.1

def foldAfter (H : Hole κ τ) : List β :=
  match H.after with
  | none => []
  | some (k, r, last) => g k ++ (r.flatMap fun p => f p.2 ++ g p.1) ++ f last

section

variable (H : Hole κ τ)

include H

theorem plug_off (t : τ) : (H.plug t).off = H.off := by
  unfold plug
  cases H.after <;> rfl

/-- The kid in the hole stands between what is before and after it. -/
theorem fold_plug (t : τ) : (H.plug t).fold f g = H.foldBefore f g ++ f t ++ H.foldAfter f g := by
  unfold plug foldBefore foldAfter
  cases H.after with
  | none => simp [Branch.fold]
  | some r => simp [Branch.fold, flatMap_append]

theorem foldBefore_trees : H.foldBefore f (fun _ => []) = (H.foldBefore (fun t => [t]) fun _ => []).flatMap f := by
  simp [foldBefore, flatMap_assoc]

theorem foldAfter_trees : H.foldAfter f (fun _ => []) = (H.foldAfter (fun t => [t]) fun _ => []).flatMap f := by
  unfold foldAfter
  cases H.after with
  | none => rfl
  | some q => simp [flatMap_append, flatMap_assoc]

theorem foldBefore_widen (sep : κ) (t : τ) :
    (H.widen sep t).foldBefore f g = H.foldBefore f g ++ f t ++ g sep := by
  simp [widen, foldBefore, flatMap_append]

theorem foldAfter_widen (sep : κ) (t : τ) : (H.widen sep t).foldAfter f g = H.foldAfter f g := rfl

end

end Hole

namespace Branch

variable (passed : κ → Bool)

/-- The kid that a search leaves a branch by, and the rest: the first whose separator is not
    `passed`. -/
def hole (passed : κ → Bool) (b : Branch κ τ) : Hole κ τ × τ :=
  match b.kids.dropWhile fun p => passed p.1 with
  | [] => (⟨b.off, b.kids.takeWhile fun p => passed p.1, none⟩, b.last)
  | p :: r => (⟨b.off, b.kids.takeWhile fun p => passed p.1, some (p.1, r, b.last)⟩, p.2)

section

variable (b : Branch κ τ)

theorem plug_hole : (b.hole passed).1.plug (b.hole passed).2 = b := by
  have happ := takeWhile_append_dropWhile (p := fun p => passed p.1) (l := b.kids)
  unfold hole
  cases hd : b.kids.dropWhile fun p => passed p.1 with
  | nil =>
    rw [hd, append_nil] at happ
    show (⟨b.off, _, b.last⟩ : Branch κ τ) = b
    rw [happ]
  | cons p r =>
    rw [hd] at happ
    show (⟨b.off, _ ++ p :: r, b.last⟩ : Branch κ τ) = b
    rw [happ]

theorem hole_off : (b.hole passed).1.off = b.off := by
  unfold hole
  cases b.kids.dropWhile fun p => passed p.1 <;> rfl

theorem hole_before : (b.hole passed).1.before = b.kids.takeWhile fun p => passed p.1 := by
  unfold hole
  cases b.kids.dropWhile fun p => passed p.1 <;> rfl

/-- The separator right of the hole was not passed. -/
theorem hole_after {k : κ} {r : List (κ × τ)} {last : τ}
    (h : (b.hole passed).1.after = some (k, r, last)) : passed k = false := by
  unfold hole at h
  split at h
  · cases h
  · rename_i p r' hd
    injection h with h
    injection h with hk _
    have hne : (b.kids.dropWhile fun p => passed p.1) ≠ [] := by
      rw [hd]
      exact cons_ne_nil _ _
    have hhead := head_dropWhile_not _ hne
    simp only [hd, head_cons] at hhead
    rw [← hk]
    exact hhead

end

/-- The left half of a cut before kid `m`, whose child it takes as its last. -/
def cutLeft (b : Branch κ τ) (new m : Nat) (hm : m < b.kids.length) : Branch κ τ :=
  ⟨new, b.kids.take m, (b.kids.get ⟨m, hm⟩).2⟩

def cutRight (b : Branch κ τ) (m : Nat) : Branch κ τ := ⟨b.off, b.kids.drop (m + 1), b.last⟩

/-- The separator between the halves. -/
def cutSep (b : Branch κ τ) (m : Nat) (hm : m < b.kids.length) : κ := (b.kids.get ⟨m, hm⟩).1

/-- Nothing is lost or moved by a cut. -/
theorem fold_cut (b : Branch κ τ) (new m : Nat) (hm : m < b.kids.length) :
    (b.cutLeft new m hm).fold f g ++ g (b.cutSep m hm) ++ (b.cutRight m).fold f g = b.fold f g := by
  have hsplit : b.kids = b.kids.take m ++ b.kids.get ⟨m, hm⟩ :: b.kids.drop (m + 1) := by
    rw [get_eq_getElem, getElem_cons_drop, take_append_drop]
  have hfold : b.fold f g = ((b.kids.take m ++ b.kids.get ⟨m, hm⟩ :: b.kids.drop (m + 1)).flatMap
      fun p => f p.2 ++ g p.1) ++ f b.last := by
    rw [← hsplit]
    rfl
  rw [hfold, flatMap_append, flatMap_cons]
  simp only [fold, cutLeft, cutSep, cutRight, append_assoc]

end Branch

/-- A kid after an insertion into it: still one tree, or two with a separator between them. -/
inductive Grown (κ τ : Type) where
  | one (t : τ)
  | two (l : τ) (sep : κ) (r : τ)

def Grown.fold : Grown κ τ → List β
  | .one t => f t
  | .two l sep r => f l ++ g sep ++ f r

/-- The part that keeps its place. -/
def Grown.main : Grown κ τ → τ
  | .one t => t
  | .two _ _ r => r

/-- The leftmost part. -/
def Grown.first : Grown κ τ → τ
  | .one t => t
  | .two l _ _ => l

/-- A hole with the grown kid in it. -/
def Hole.plugGrown (H : Hole κ τ) : Grown κ τ → Branch κ τ
  | .one t => H.plug t
  | .two l sep r => (H.widen sep l).plug r

theorem Hole.fold_plugGrown (H : Hole κ τ) (G : Grown κ τ) :
    (H.plugGrown G).fold f g = H.foldBefore f g ++ G.fold f g ++ H.foldAfter f g := by
  cases G with
  | one t => exact H.fold_plug f g t
  | two l sep r =>
    show ((H.widen sep l).plug r).fold f g = _
    rw [Hole.fold_plug, foldBefore_widen, foldAfter_widen]
    simp only [Grown.fold, append_assoc]

theorem Hole.plugGrown_off (H : Hole κ τ) (G : Grown κ τ) : (H.plugGrown G).off = H.off := by
  cases G <;> exact Hole.plug_off _ _

end Fold

/-! ## Trees -/

namespace Tree

variable {κ α β : Type} {h : Nat} {x : β} {B B' : Branch κ Nat → Prop}

/-- Where the root is stored. -/
def off : {h : Nat} → Tree κ α h → Nat
  | 0, l => Leaf.off l
  | _ + 1, b => Branch.off b

/-- What the leaves and the separators of a tree give, in order. -/
def fold (f : Leaf α → List β) (g : κ → List β) : {h : Nat} → Tree κ α h → List β
  | 0, l => f l
  | _ + 1, b => Branch.fold (fold f g) g b

/-- The leaves in order. -/
def leaves {h : Nat} (t : Tree κ α h) : List (Leaf α) := t.fold (fun l => [l]) fun _ => []

/-- The items in order. -/
def items {h : Nat} (t : Tree κ α h) : List α := t.fold Leaf.items fun _ => []

/-- The keys of the items and the separators, in order. -/
def marks (key : α → κ) {h : Nat} (t : Tree κ α h) : List κ := t.fold (fun l => l.items.map key) fun k => [k]

/-- Where the nodes are stored. -/
def offs : {h : Nat} → Tree κ α h → List Nat
  | 0, l => [Leaf.off l]
  | _ + 1, b => Branch.off b :: (Branch.trees b).flatMap offs

/-- Every node is as `L` and `B` ask; a branch is known by its separators and its kids' offsets. -/
def Every (L : Leaf α → Prop) (B : Branch κ Nat → Prop) : {h : Nat} → Tree κ α h → Prop
  | 0, l => L l
  | _ + 1, b => B (Branch.map off b) ∧ ∀ t ∈ Branch.trees b, Every L B t

/-- Every branch down the first kids has a first kid. -/
def Spined : {h : Nat} → Tree κ α h → Prop
  | 0, _ => True
  | _ + 1, b => ∃ p ∈ (Branch.kids b).head?, Spined p.2

/-- One leaf's items replaced. -/
def setItems (x : Nat) (f : List α → List α) : {h : Nat} → Tree κ α h → Tree κ α h
  | 0, l => Leaf.replace x f l
  | _ + 1, b => Branch.map (setItems x f) b

/-- The leaf a search ends in. -/
def leafFor (passed : κ → Bool) : {h : Nat} → Tree κ α h → Leaf α
  | 0, l => l
  | _ + 1, b => leafFor passed (Branch.hole passed b).2

/-- What is left of that leaf, and right of it. -/
def foldLeft (passed : κ → Bool) (f : Leaf α → List β) (g : κ → List β) :
    {h : Nat} → Tree κ α h → List β
  | 0, _ => []
  | _ + 1, b => (Branch.hole passed b).1.foldBefore (fold f g) g ++ foldLeft passed f g (Branch.hole passed b).2

def foldRight (passed : κ → Bool) (f : Leaf α → List β) (g : κ → List β) :
    {h : Nat} → Tree κ α h → List β
  | 0, _ => []
  | _ + 1, b => foldRight passed f g (Branch.hole passed b).2 ++ (Branch.hole passed b).1.foldAfter (fold f g) g

/-- The leaf splits everything read in order. -/
theorem fold_eq (passed : κ → Bool) (f : Leaf α → List β) (g : κ → List β) (t : Tree κ α h) :
    t.fold f g = t.foldLeft passed f g ++ f (t.leafFor passed) ++ t.foldRight passed f g := by
  induction h with
  | zero => simp only [foldLeft, leafFor, foldRight, nil_append, append_nil]; rfl
  | succ h ih =>
    have hplug := Hole.fold_plug (fold f g) g (Branch.hole passed t).1 (Branch.hole passed t).2
    rw [Branch.plug_hole passed t] at hplug
    show Branch.fold (fold f g) g t = _
    rw [hplug, ih (Branch.hole passed t).2]
    simp only [foldLeft, leafFor, foldRight, append_assoc]

/-- A fold may be mapped afterwards or at once. -/
theorem flatMap_fold {γ : Type} (f : Leaf α → List β) (g : κ → List β) (ψ : β → List γ) (t : Tree κ α h) :
    (t.fold f g).flatMap ψ = t.fold (fun l => (f l).flatMap ψ) fun k => (g k).flatMap ψ := by
  induction h with
  | zero => rfl
  | succ h ih =>
    show (Branch.fold (fold f g) g t).flatMap ψ = Branch.fold (fold _ _) _ t
    simp only [Branch.fold, flatMap_append, flatMap_assoc, ih]

theorem items_eq (t : Tree κ α h) : t.items = t.leaves.flatMap Leaf.items := by
  rw [leaves, flatMap_fold]
  simp only [flatMap_cons, flatMap_nil, append_nil]
  rfl

theorem fold_sublist (f : Leaf α → List β) (g g' : κ → List β) (hg : ∀ k, (g k).Sublist (g' k))
    (t : Tree κ α h) : (t.fold f g).Sublist (t.fold f g') := by
  induction h with
  | zero => exact List.Sublist.refl _
  | succ h ih =>
    refine List.Sublist.append ?_ (ih _)
    generalize Branch.kids t = kids
    induction kids with
    | nil => exact List.Sublist.refl _
    | cons p ps ihk => exact ((ih p.2).append (hg p.1)).append ihk

/-- The items' keys stand among the marks in the same order. -/
theorem items_sublist_marks (key : α → κ) (t : Tree κ α h) :
    (t.items.map key).Sublist (t.marks key) := by
  have hmap : t.items.map key = t.fold (fun l => l.items.map key) fun _ => [] := by
    have hfold := flatMap_fold Leaf.items (fun _ => []) (fun x => [key x]) t
    simp only [← map_eq_flatMap, flatMap_nil] at hfold
    exact hfold
  rw [hmap]
  exact fold_sublist _ _ _ (fun k => nil_sublist _) t

theorem off_mem_offs (t : Tree κ α h) : t.off ∈ t.offs := by
  cases h with
  | zero => exact mem_singleton_self _
  | succ h => exact mem_cons_self

theorem mem_leaves_succ {b : Branch κ (Tree κ α h)} {l : Leaf α} :
    l ∈ leaves (h := h + 1) b ↔ ∃ t ∈ b.trees, l ∈ t.leaves := by
  show l ∈ b.fold leaves (fun _ => []) ↔ _
  rw [Branch.fold_trees, mem_flatMap]

/-- What a leaf gives stands in what the tree gives. -/
theorem mem_fold (f : Leaf α → List β) (g : κ → List β) (t : Tree κ α h) {l : Leaf α} (hl : l ∈ t.leaves) (hx : x ∈ f l) : x ∈ t.fold f g := by
  induction h with
  | zero =>
    rw [mem_singleton.mp hl] at hx
    exact hx
  | succ h ih =>
    obtain ⟨u, hu, hlu⟩ := mem_leaves_succ.mp hl
    have hxu := ih u hlu
    rcases Branch.mem_trees.mp hu with ⟨p, hp, rfl⟩ | rfl
    · exact mem_append_left _ (mem_flatMap.mpr ⟨p, hp, mem_append_left _ hxu⟩)
    · exact mem_append_right _ hxu

/-- The same left of the leaf a search ends in. -/
theorem mem_foldLeft (passed : κ → Bool) (f : Leaf α → List β) (g : κ → List β) (t : Tree κ α h)
    {l : Leaf α} (hl : l ∈ t.foldLeft passed (fun l => [l]) fun _ => []) (hx : x ∈ f l) :
    x ∈ t.foldLeft passed f g := by
  induction h with
  | zero => cases hl
  | succ h ih =>
    rcases mem_append.mp hl with hl | hl
    · refine mem_append_left _ ?_
      obtain ⟨p, hp, hlp⟩ := mem_flatMap.mp hl
      rw [append_nil] at hlp
      exact mem_flatMap.mpr ⟨p, hp, mem_append_left _ (mem_fold f g p.2 hlp hx)⟩
    · exact mem_append_right _ (ih _ hl)

theorem offs_sub {b : Branch κ (Tree κ α h)} {t : Tree κ α h} (ht : t ∈ b.trees) :
    ∀ o ∈ t.offs, o ∈ offs (h := h + 1) b := fun _ ho =>
  mem_cons_of_mem _ (mem_flatMap.mpr ⟨t, ht, ho⟩)

/-- A leaf is stored where the tree says. -/
theorem leaf_off_mem (t : Tree κ α h) {l : Leaf α} (hl : l ∈ t.leaves) : l.off ∈ t.offs := by
  induction h with
  | zero =>
    rw [mem_singleton.mp hl]
    exact mem_singleton_self _
  | succ h ih =>
    obtain ⟨u, hu, hlu⟩ := mem_leaves_succ.mp hl
    exact offs_sub hu _ (ih u hlu)

/-- The leaves of a tree are as `L` asks. -/
theorem Every.leaf {L : Leaf α → Prop} {t : Tree κ α h}
    (ht : t.Every L B) {l : Leaf α} (hl : l ∈ t.leaves) : L l := by
  induction h with
  | zero =>
    rw [mem_singleton.mp hl]
    exact ht
  | succ h ih =>
    obtain ⟨u, hu, hlu⟩ := mem_leaves_succ.mp hl
    exact ih (ht.2 u hu) hlu

theorem Every.imp {L L' : Leaf α → Prop} {t : Tree κ α h}
    (ht : t.Every L B) (hL : ∀ l, l.off ∈ t.offs → L l → L' l)
    (hB : ∀ b, b.off ∈ t.offs → B b → B' b) : t.Every L' B' := by
  induction h with
  | zero => exact hL _ (mem_singleton_self _) ht
  | succ h ih =>
    refine ⟨hB _ mem_cons_self ht.1, ?_⟩
    intro u hu
    exact ih (ht.2 u hu) (fun l hl => hL l (offs_sub hu _ hl)) fun b hb => hB b (offs_sub hu _ hb)

/-! ### One leaf's items replaced -/

theorem setItems_off (x : Nat) (f : List α → List α) (t : Tree κ α h) : (setItems x f t).off = t.off := by
  cases h with
  | zero => exact Leaf.replace_off x f t
  | succ h => rfl

theorem setItems_offs (x : Nat) (f : List α → List α) (t : Tree κ α h) : (setItems x f t).offs = t.offs := by
  induction h with
  | zero =>
    show [Leaf.off (Leaf.replace x f t)] = [Leaf.off t]
    rw [Leaf.replace_off]
  | succ h ih =>
    show Branch.off t :: (Branch.trees (Branch.map (setItems x f) t)).flatMap offs = _
    rw [Branch.trees_map, flatMap_map]
    simp only [ih]
    rfl

theorem setItems_leaves (x : Nat) (f : List α → List α) (t : Tree κ α h) :
    (setItems x f t).leaves = t.leaves.map (Leaf.replace x f) := by
  induction h with
  | zero => rfl
  | succ h ih =>
    have ih' : ∀ t : Tree κ α h, fold (fun l => [l]) (fun _ => []) (setItems x f t)
        = (fold (fun l => [l]) (fun _ => []) t).map (Leaf.replace x f) := ih
    show Branch.fold (fold (fun l => [l]) fun _ => []) (fun _ => []) (Branch.map (setItems x f) t)
      = (Branch.fold (fold (fun l => [l]) fun _ => []) (fun _ => []) t).map (Leaf.replace x f)
    rw [Branch.fold_map]
    simp only [Branch.fold, ih', map_append, map_flatMap, append_nil]

/-- Removing items removes marks. -/
theorem setItems_marks (key : α → κ) (x : Nat) (f : List α → List α) (hf : ∀ es, (f es).Sublist es) (t : Tree κ α h) : ((setItems x f t).marks key).Sublist (t.marks key) := by
  induction h with
  | zero =>
    show ((Leaf.replace x f t).items.map key).Sublist ((Leaf.items t).map key)
    unfold Leaf.replace
    split
    · exact (hf _).map key
    · exact List.Sublist.refl _
  | succ h ih =>
    show (Branch.fold (marks key) (fun k => [k]) (Branch.map (setItems x f) t)).Sublist
      (Branch.fold (marks key) (fun k => [k]) t)
    rw [Branch.fold_map]
    refine List.Sublist.append ?_ (ih _)
    generalize Branch.kids t = kids
    induction kids with
    | nil => exact List.Sublist.refl _
    | cons p ps ihk => exact ((ih p.2).append (List.Sublist.refl _)).append ihk

theorem Spined.setItems (x : Nat) (f : List α → List α) {t : Tree κ α h} (ht : t.Spined) :
    (setItems x f t).Spined := by
  induction h with
  | zero => trivial
  | succ h ih =>
    obtain ⟨p, hp, hsp⟩ := ht
    refine ⟨(p.1, Tree.setItems x f p.2), ?_, ih hsp⟩
    show _ ∈ (Branch.map (Tree.setItems x f) t).kids.head?
    rw [Branch.map, head?_map]
    exact Option.mem_map_of_mem _ hp

theorem Every.setItems {L L' : Leaf α → Prop} {t : Tree κ α h} (ht : t.Every L B) (x : Nat) (f : List α → List α)
    (hL : ∀ l, l.off ∈ t.offs → L l → L' (Leaf.replace x f l))
    (hB : ∀ b, b.off ∈ t.offs → B b → B' b) : (setItems x f t).Every L' B' := by
  induction h with
  | zero => exact hL _ (mem_singleton_self _) ht
  | succ h ih =>
    have hmap : Branch.map off (Branch.map (Tree.setItems x f) t) = Branch.map off t := by
      simp only [Branch.map, map_map, Function.comp_def, setItems_off]
    refine ⟨?_, ?_⟩
    · have hroot := hB _ mem_cons_self ht.1
      show B' (Branch.map off (Branch.map (Tree.setItems x f) t))
      rw [hmap]
      exact hroot
    · intro u hu
      have hu' : u ∈ (Branch.map (Tree.setItems x f) t).trees := hu
      rw [Branch.trees_map] at hu'
      obtain ⟨v, hv, rfl⟩ := mem_map.mp hu'
      exact ih (ht.2 v hv) (fun l hl => hL l (offs_sub hv _ hl)) fun b hb => hB b (offs_sub hv _ hb)

end Tree

end Aegir.Lib.BPlus
