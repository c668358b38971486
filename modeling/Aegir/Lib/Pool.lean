/-
  A pool of cells: ONE free list and any number of chains.

  Every cell is in the free list or in exactly one chain.  The free list goes through one "next" function and
  the chains through another, over the same cells; code that keeps both in one field tells them apart by a
  flag, and then a store to that field changes both functions at one cell.

  Each lemma is one such store: a cell taken from the free list, a chain cut after a cell, two chains joined,
  the head of a chain given back.
-/
import Aegir.Lib.Chain
import Mathlib.Data.List.Perm.Basic
import Mathlib.Data.List.Flatten

namespace Aegir.Lib

open List

variable {α : Type*} {null head d i x : α} {half half' link link' : α → α} {cells : α → Prop}
  {free c p r s : List α} {chains chains' : List (List α)}

/-- A non-empty chain from its own first member. -/
def Strung (null : α) (link : α → α) : List α → Prop
  | [] => False
  | h :: t => IsChain null link h (h :: t)

/-- The chain that a list is, if it is not empty. -/
def orNone : List α → List (List α)
  | [] => []
  | h :: t => [h :: t]

@[simp] theorem flatten_orNone (c : List α) : (orNone c).flatten = c := by
  cases c with
  | nil => rfl
  | cons h t => exact append_nil _

/-- `free` is the free list from `head`, and with the chains it holds every cell once. -/
structure Pool (null : α) (half link : α → α) (cells : α → Prop) (head : α) (free : List α)
    (chains : List (List α)) : Prop where
  freeList : IsChain null half head free
  strung : ∀ c ∈ chains, Strung null link c
  nodup : (free ++ chains.flatten).Nodup
  all : ∀ d, d ∈ free ++ chains.flatten ↔ cells d

namespace Strung

theorem congr (h : Strung null link c) (hl : ∀ y ∈ c, link' y = link y) : Strung null link' c := by
  cases c with
  | nil => exact h
  | cons y ys => exact IsChain.congr h hl

theorem of_isChain (h : IsChain null link d c) : ∀ c' ∈ orNone c, Strung null link c' := by
  intro c' hc'
  cases c with
  | nil => cases hc'
  | cons y ys =>
    rw [orNone, mem_singleton] at hc'
    obtain ⟨rfl, hne, hys⟩ := h
    rw [hc']
    exact ⟨rfl, hne, hys⟩

theorem of_middle (h : IsChain null link d (p ++ i :: s)) : Strung null link (p ++ i :: s) := by
  cases p with
  | nil => exact ⟨rfl, h.2.1, h.2.2⟩
  | cons y ys => exact ⟨rfl, h.2.1, h.2.2⟩

theorem isChain (h : Strung null link c) : ∃ a, IsChain null link a c := by
  cases c with
  | nil => exact h.elim
  | cons y ys => exact ⟨y, h⟩

end Strung

namespace Pool

/-- The order in which the chains are listed does not matter. -/
theorem perm (h : Pool null half link cells head free chains) (hperm : chains.Perm chains') :
    Pool null half link cells head free chains' := by
  have hcells : (free ++ chains.flatten).Perm (free ++ chains'.flatten) := hperm.flatten.append_left free
  constructor
  · exact h.freeList
  · exact fun c hc => h.strung c (hperm.mem_iff.mpr hc)
  · exact hcells.nodup_iff.mp h.nodup
  · exact fun d => hcells.mem_iff.symm.trans (h.all d)

/-- **A store at one cell.**  The free list and the chains `old` become `free'` and `new`, with the same cells
    among them `i`; the other chains are as they were. -/
theorem store {free' : List α} {head' : α} (i : α) (old new : List (List α))
    (h : Pool null half link cells head free (old ++ chains)) (hi : i ∈ free ++ old.flatten)
    (hlink : ∀ y, y ≠ i → link' y = link y)
    (hcells : (free ++ old.flatten).Perm (free' ++ new.flatten))
    (hfree : IsChain null half' head' free') (hnew : ∀ c ∈ new, Strung null link' c) :
    Pool null half' link' cells head' free' (new ++ chains) := by
  have hperm : (free ++ (old ++ chains).flatten).Perm (free' ++ (new ++ chains).flatten) := by
    rw [flatten_append, flatten_append, ← append_assoc, ← append_assoc]
    exact hcells.append_right _
  have hrest : i ∉ chains.flatten := by
    have hnodup := h.nodup
    rw [flatten_append, ← append_assoc] at hnodup
    exact fun hmem => disjoint_of_nodup_append hnodup hi hmem
  constructor
  · exact hfree
  · intro c hc
    rcases mem_append.mp hc with hc | hc
    · exact hnew c hc
    · have hni : i ∉ c := fun hmem => hrest (mem_flatten.mpr ⟨c, hc, hmem⟩)
      exact (h.strung c (mem_append_right _ hc)).congr fun y hy => hlink y fun heq => hni (heq ▸ hy)
  · exact hperm.nodup_iff.mp h.nodup
  · exact fun d => hperm.mem_iff.symm.trans (h.all d)

theorem nodup_old (old : List (List α)) (h : Pool null half link cells head free (old ++ chains)) :
    (free ++ old.flatten).Nodup := by
  have hnodup := h.nodup
  rw [flatten_append, ← append_assoc] at hnodup
  exact hnodup.of_append_left

/-- A store among the chains: the free list is as it was. -/
theorem relink (i : α) (old new : List (List α)) (h : Pool null half link cells head free (old ++ chains))
    (hi : i ∈ old.flatten) (hhalf : ∀ y, y ≠ i → half' y = half y) (hlink : ∀ y, y ≠ i → link' y = link y)
    (hcells : old.flatten.Perm new.flatten) (hnew : ∀ c ∈ new, Strung null link' c) :
    Pool null half' link' cells head free (new ++ chains) := by
  have hfree : i ∉ free := fun hmem => disjoint_of_nodup_append (h.nodup_old old) hmem hi
  refine store i old new h (mem_append_right _ hi) hlink (hcells.append_left free) ?_ hnew
  exact h.freeList.congr fun y hy => hhalf y fun heq => hfree (heq ▸ hy)

/-- The first free cell becomes a chain of its own. -/
theorem take (h : Pool null half link cells head (d :: free) chains) (hhalf : ∀ y, y ≠ d → half' y = half y)
    (hlink : ∀ y, y ≠ d → link' y = link y) (hd : link' d = null) :
    Pool null half' link' cells (half d) free ([d] :: chains) := by
  apply store d [] [[d]] h mem_cons_self hlink
  · rw [flatten_nil, append_nil, flatten_singleton]
    exact (perm_append_singleton d free).symm
  · exact h.freeList.pop hhalf
  · intro c hc
    rw [mem_singleton.mp hc]
    exact ⟨rfl, h.freeList.2.1, hd⟩

/-- A chain is cut after a cell. -/
theorem cut (h : Pool null half link cells head free ((p ++ i :: s) :: chains))
    (hhalf : ∀ y, y ≠ i → half' y = half y) (hlink : ∀ y, y ≠ i → link' y = link y) (hi : link' i = null) :
    Pool null half' link' cells head free ((p ++ [i]) :: (orNone s ++ chains)) := by
  have hnodup : (p ++ i :: s).Nodup := by simpa using (h.nodup_old [p ++ i :: s]).of_append_right
  have hrest : ∀ y ∈ p ++ s, link' y = link y := fun y hy =>
    hlink y fun heq => (nodup_cons.mp (nodup_middle.mp hnodup)).1 (heq ▸ hy)
  apply relink i [p ++ i :: s] ((p ++ [i]) :: orNone s) h
  · simp
  · exact hhalf
  · exact hlink
  · simp
  · obtain ⟨a, ha⟩ := (h.strung _ mem_cons_self).isChain
    intro c hc
    rcases mem_cons.mp hc with rfl | hc
    · exact .of_middle (ha.resume link' hi fun y hy => hrest y (mem_append_left _ hy))
    · exact Strung.of_isChain (ha.after.congr fun y hy => hrest y (mem_append_right _ hy)) c hc

/-- The last cell of a chain points at the head of another. -/
theorem join (h : Pool null half link cells head free ((p ++ [i]) :: (x :: r) :: chains))
    (hhalf : ∀ y, y ≠ i → half' y = half y) (hlink : ∀ y, y ≠ i → link' y = link y) (hi : link' i = x) :
    Pool null half' link' cells head free ((p ++ i :: x :: r) :: chains) := by
  have hnodup : (p ++ i :: x :: r).Nodup := by simpa using (h.nodup_old [p ++ [i], x :: r]).of_append_right
  have hrest : ∀ y ∈ p ++ x :: r, link' y = link y := fun y hy =>
    hlink y fun heq => (nodup_cons.mp (nodup_middle.mp hnodup)).1 (heq ▸ hy)
  apply relink i [p ++ [i], x :: r] [p ++ i :: x :: r] h
  · simp
  · exact hhalf
  · exact hlink
  · simp
  · obtain ⟨a, ha⟩ := (h.strung _ mem_cons_self).isChain
    have hsecond := h.strung (x :: r) (by simp)
    intro c hc
    rw [mem_singleton.mp hc]
    refine .of_middle (ha.resume link' ?_ fun y hy => hrest y (mem_append_left _ hy))
    rw [hi]
    exact IsChain.congr hsecond fun y hy => hrest y (mem_append_right _ hy)

/-- The head of a chain goes back to the free list. -/
theorem release (h : Pool null half link cells head free ((d :: r) :: chains))
    (hhalf : ∀ y, y ≠ d → half' y = half y) (hlink : ∀ y, y ≠ d → link' y = link y) (hd : half' d = head) :
    Pool null half' link' cells d (d :: free) (orNone r ++ chains) := by
  have hnodup : (free ++ d :: r).Nodup := by
    have hall := h.nodup
    rw [flatten_cons, ← append_assoc] at hall
    exact hall.of_append_left
  have hfree : d ∉ free := fun hmem => disjoint_of_nodup_append hnodup hmem mem_cons_self
  have hr : d ∉ r := (nodup_cons.mp hnodup.of_append_right).1
  have hold := h.strung _ mem_cons_self
  apply store d [d :: r] (orNone r) h
  · simp
  · exact hlink
  · simp only [flatten_singleton, flatten_orNone]
    exact perm_middle
  · exact h.freeList.push hold.2.1 hd fun y hy => hhalf y fun heq => hfree (heq ▸ hy)
  · exact Strung.of_isChain (hold.2.2.congr fun y hy => hlink y fun heq => hr (heq ▸ hy))

end Pool

end Aegir.Lib
