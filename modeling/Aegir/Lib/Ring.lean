/-
  Doubly linked lists, as rings through a sentinel.

  A list with head and tail pointers and `next`/`prev` fields in its members is a RING once the two
  pointers count as the fields of a sentinel: the head is the sentinel's `next`, the tail its `prev`.
  Code that tests for null and moves the head or the tail instead of a neighbour's field is then one
  and the same update everywhere.

  `Links next prev p l q` says that the members of `l` stand in this order between `p` and `q`, each
  pointing at both neighbours.  The whole list is `Links next prev null l null`.
-/
import Mathlib.Logic.Function.Basic
import Mathlib.Data.List.Nodup

namespace Aegir.Lib

open List Function

variable {α : Type*} {next prev next' prev' : α → α} {p q t : α} {l r : List α}

/-- The members of `l` stand between `p` and `q`. -/
def Links (next prev : α → α) : α → List α → α → Prop
  | p, [], q => next p = q ∧ prev q = p
  | p, t :: l, q => next p = t ∧ prev t = p ∧ Links next prev t l q

namespace Links

variable [DecidableEq α]

theorem append_iff : Links next prev p (l ++ t :: r) q ↔ Links next prev p l t ∧ Links next prev t r q := by
  induction l generalizing p with
  | nil => exact ⟨fun h => ⟨⟨h.1, h.2.1⟩, h.2.2⟩, fun h => ⟨h.1.1, h.1.2, h.2⟩⟩
  | cons y ys ih =>
    constructor
    · intro h
      have hrest := ih.mp h.2.2
      exact ⟨⟨h.1, h.2.1, hrest.1⟩, hrest.2⟩
    · intro h
      exact ⟨h.1.1, h.1.2.1, ih.mpr ⟨h.1.2.2, h.2⟩⟩

section

variable (h : Links next prev p l q)

include h

/-- Fields outside the list do not matter: the `next` of `q` and the `prev` of `p` are not read. -/
theorem congr (hn : ∀ x, x = p ∨ x ∈ l → next' x = next x)
    (hp : ∀ x, x ∈ l ∨ x = q → prev' x = prev x) : Links next' prev' p l q := by
  induction l generalizing p with
  | nil => exact ⟨(hn p (.inl rfl)).trans h.1, (hp q (.inr rfl)).trans h.2⟩
  | cons y ys ih =>
    refine ⟨(hn p (.inl rfl)).trans h.1, (hp y (.inl mem_cons_self)).trans h.2.1, ?_⟩
    refine ih h.2.2 (fun x hx => hn x (.inr ?_)) (fun x hx => hp x ?_)
    · rcases hx with rfl | hx
      · exact mem_cons_self
      · exact mem_cons_of_mem _ hx
    · rcases hx with hx | hx
      · exact .inl (mem_cons_of_mem _ hx)
      · exact .inr hx

/-- The first member, or the far end. -/
theorem next_eq : next p = l.headD q := by
  cases l with
  | nil => exact h.1
  | cons y ys => exact h.1

theorem prev_eq : prev q = l.getLastD p := by
  induction l generalizing p with
  | nil => exact h.2
  | cons y ys ih =>
    rw [ih h.2.2]
    cases ys with
    | nil => rfl
    | cons z zs => simp [getLastD]

/-- The far end replaced by `w`: the last member's `next` and the `prev` of `w` change. -/
theorem setEnd (hnd : (p :: l).Nodup) {w : α} (hw : w ∉ l) :
    Links (Function.update next (prev q) w) (Function.update prev w (prev q)) p l w := by
  induction l generalizing p with
  | nil => rw [h.2]; exact ⟨update_self _ _ _, update_self _ _ _⟩
  | cons y ys ih =>
    rw [nodup_cons] at hnd
    have hlast : prev q ∈ y :: ys := by
      rw [h.2.2.prev_eq]
      exact getLastD_mem_cons
    have hp : p ≠ prev q := fun he => hnd.1 (he ▸ hlast)
    have hy : y ≠ w := fun he => hw (he ▸ mem_cons_self)
    refine ⟨?_, ?_, ih h.2.2 hnd.2 fun hmem => hw (mem_cons_of_mem _ hmem)⟩
    · rw [update_of_ne hp]
      exact h.1
    · rw [update_of_ne hy]
      exact h.2.1

end

/-- **Unlink.**  The neighbours of a member point past it. -/
theorem unlink (h : Links next prev p (l ++ t :: r) q) (hnd : (p :: (l ++ t :: r)).Nodup) (hq : q ∉ l ++ t :: r) :
    Links (Function.update next (prev t) (next t)) (Function.update prev (next t) (prev t)) p (l ++ r) q := by
  obtain ⟨hl, hr⟩ := append_iff.mp h
  have hndl : (p :: l).Nodup := by
    refine List.Nodup.sublist (cons_sublist_cons.mpr (sublist_append_left _ _)) hnd
  have hleft : prev t ∈ p :: l := by
    rw [hl.prev_eq]
    exact getLastD_mem_cons
  cases r with
  | nil =>
    rw [append_nil, hr.1]
    exact hl.setEnd hndl fun hmem => hq (mem_append_left _ hmem)
  | cons y ys =>
    rw [hr.1]
    rw [nodup_cons, nodup_append] at hnd
    obtain ⟨hpout, -, hright, hdisj⟩ := hnd
    rw [nodup_cons, nodup_cons] at hright
    have hyl : y ∉ l := fun hmem =>
      hdisj y hmem y (mem_cons_of_mem _ mem_cons_self) rfl
    refine append_iff.mpr ⟨hl.setEnd hndl hyl, hr.2.2.congr (fun x hx => ?_) (fun x hx => ?_)⟩
    · -- the left neighbour is not to the right of `t`
      refine update_of_ne (fun he => ?_) _ _
      have hx' : x ∈ t :: y :: ys := by
        rcases hx with rfl | hx
        · exact mem_cons_of_mem _ mem_cons_self
        · exact mem_cons_of_mem _ (mem_cons_of_mem _ hx)
      rw [← he] at hleft
      rcases mem_cons.mp hleft with rfl | hmem
      · exact hpout (mem_append_right _ hx')
      · exact hdisj x hmem x hx' rfl
    · refine update_of_ne (fun he => ?_) _ _
      rcases hx with hx | rfl
      · exact hright.2.1 (he ▸ hx)
      · exact hq (mem_append_right _ (he ▸ mem_cons_of_mem _ mem_cons_self))

/-- **Push at the front.** -/
theorem pushFront (h : Links next prev p l q) (ht : t ∉ l) (htp : t ≠ p) (htq : t ≠ q)
    (hp : p ∉ l) (hnd : l.Nodup) (hq : q ∉ l) :
    Links (Function.update (Function.update next p t) t (next p))
      (Function.update (Function.update prev (next p) t) t p) p (t :: l) q := by
  refine ⟨?_, update_self _ _ _, ?_⟩
  · rw [update_of_ne htp.symm, update_self]
  · cases l with
    | nil =>
      refine ⟨?_, ?_⟩
      · rw [update_self]
        exact h.1
      · rw [update_of_ne htq.symm, h.1, update_self]
    | cons y ys =>
      rw [nodup_cons] at hnd
      have hty : y ≠ t := fun he => ht (he ▸ mem_cons_self)
      refine ⟨?_, ?_, h.2.2.congr (fun x hx => ?_) (fun x hx => ?_)⟩
      · rw [update_self]
        exact h.1
      · rw [update_of_ne hty, h.1, update_self]
      · have hmem : x ∈ y :: ys := by
          rcases hx with rfl | hx
          · exact mem_cons_self
          · exact mem_cons_of_mem _ hx
        have hxt : x ≠ t := fun he => ht (he ▸ hmem)
        have hxp : x ≠ p := fun he => hp (he ▸ hmem)
        rw [update_of_ne hxt, update_of_ne hxp]
      · rw [h.1]
        rcases hx with hx | rfl
        · have hxt : x ≠ t := fun he => ht (he ▸ mem_cons_of_mem _ hx)
          have hxy : x ≠ y := fun he => hnd.1 (he ▸ hx)
          rw [update_of_ne hxt, update_of_ne hxy]
        · have hxy : x ≠ y := fun he => hq (he ▸ mem_cons_self)
          rw [update_of_ne htq.symm, update_of_ne hxy]

/-- **Push at the back.** -/
theorem pushBack (h : Links next prev p l q) (ht : t ∉ l) (htp : t ≠ p) (htq : t ≠ q)
    (hnd : (p :: l).Nodup) (hq : q ∉ l) :
    Links (Function.update (Function.update next (prev q) t) t q)
      (Function.update (Function.update prev q t) t (prev q)) p (l ++ [t]) q := by
  refine append_iff.mpr ⟨?_, ?_, ?_⟩
  · refine (h.setEnd hnd ht).congr (fun x hx => ?_) (fun x hx => ?_)
    · have hxt : x ≠ t := by
        rintro rfl
        rcases hx with hx | hx
        · exact htp hx
        · exact ht hx
      rw [update_of_ne hxt]
    · rcases hx with hx | rfl
      · have hxt : x ≠ t := fun he => ht (he ▸ hx)
        have hxq : x ≠ q := fun he => hq (he ▸ hx)
        rw [update_of_ne hxt, update_of_ne hxt, update_of_ne hxq]
      · rw [update_self, update_self]
  · exact update_self _ _ _
  · rw [update_of_ne htq.symm, update_self]

/-- **Insert before a member.**  Four fields change, whatever way they are stored. -/
theorem insertBefore {x : α} (h : Links next prev p (l ++ t :: r) q) (hnd : (p :: (l ++ t :: r)).Nodup)
    (hq : q ∉ l ++ t :: r) (hx : x ∉ l ++ t :: r) (hn : next' (prev t) = x)
    (hnx : next' x = t) (hpx : prev' x = prev t) (hp : prev' t = x)
    (hns : ∀ y, y = p ∨ y ∈ l ++ t :: r → y ≠ prev t → next' y = next y)
    (hps : ∀ y, y ∈ l ++ t :: r ∨ y = q → y ≠ t → prev' y = prev y) :
    Links next' prev' p (l ++ x :: t :: r) q := by
  obtain ⟨hl, hr⟩ := append_iff.mp h
  have hndl : (p :: l).Nodup :=
    List.Nodup.sublist (cons_sublist_cons.mpr (sublist_append_left _ _)) hnd
  have hleft : prev t ∈ p :: l := by
    rw [hl.prev_eq]
    exact getLastD_mem_cons
  have hxl : x ∉ l := fun hmem => hx (mem_append_left _ hmem)
  have hsplit : ∀ y ∈ p :: l, y ∉ t :: r := by
    intro y hy hmem
    rcases mem_cons.mp hy with rfl | hy
    · exact (nodup_cons.mp hnd).1 (mem_append_right _ hmem)
    · exact (nodup_append.mp (nodup_cons.mp hnd).2).2.2 y hy y hmem rfl
  refine append_iff.mpr ⟨?_, hnx, hp, ?_⟩
  · refine (hl.setEnd hndl hxl).congr (fun y hy => ?_) (fun y hy => ?_)
    · by_cases hyt : y = prev t
      · rw [hyt, update_self, hn]
      · rw [update_of_ne hyt]
        exact hns y (hy.imp id fun hy => mem_append_left _ hy) hyt
    · rcases hy with hy | rfl
      · have hyx : y ≠ x := fun he => hxl (he ▸ hy)
        have hyt : y ≠ t := fun he => hsplit y (mem_cons_of_mem _ hy) (he ▸ mem_cons_self)
        rw [update_of_ne hyx]
        exact hps y (.inl (mem_append_left _ hy)) hyt
      · rw [update_self, hpx]
  · refine hr.congr (fun y hy => ?_) (fun y hy => ?_)
    · have hmem : y ∈ t :: r := by
        rcases hy with rfl | hy
        · exact mem_cons_self
        · exact mem_cons_of_mem _ hy
      exact hns y (.inr (mem_append_right _ hmem)) fun he => hsplit _ hleft (he ▸ hmem)
    · have htr : t ∉ r :=
        (nodup_cons.mp (nodup_append.mp (nodup_cons.mp hnd).2).2.1).1
      rcases hy with hy | rfl
      · exact hps y (.inl (mem_append_right _ (mem_cons_of_mem _ hy))) fun he => htr (he ▸ hy)
      · exact hps y (.inr rfl) fun he => hq (he ▸ mem_append_right _ mem_cons_self)

end Links

end Aegir.Lib
