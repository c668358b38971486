/-
  A stack with a cap, against one without.

  `none` pops, and `some a` pushes.  The capped stack passes over a push when it is full, and later pops take what is
  left; so it ends with the same content exactly when no push was passed over since the stack was last empty.
-/
import Mathlib.Data.List.Induction

namespace Aegir.Lib

open List

universe u

variable {α : Type u} {cap : Nat} {ops : List (Option α)}

/-- One step of the stack, its top at the end of the list. -/
def stackStep (st : List α) : Option α → List α
  | none => st.dropLast
  | some a => st ++ [a]

/-- One step of the stack that holds `cap` at most. -/
def cappedStep (cap : Nat) (st : List α) : Option α → List α
  | none => st.dropLast
  | some a => if st.length = cap then st else st ++ [a]

def stackRun (ops : List (Option α)) : List α := ops.foldl stackStep []

def cappedRun (cap : Nat) (ops : List (Option α)) : List α := ops.foldl (cappedStep cap) []

/-- Since the stack was last empty it has held `cap` at most. -/
def Shallow (cap : Nat) (ops : List (Option α)) : Prop :=
  ∃ xs ys, ops = xs ++ ys ∧ stackRun xs = [] ∧ ∀ zs, zs <+: ys → (stackRun (xs ++ zs)).length ≤ cap

theorem stackRun_snoc (ops : List (Option α)) (op : Option α) :
    stackRun (ops ++ [op]) = stackStep (stackRun ops) op := by
  rw [stackRun, foldl_append]
  rfl

theorem cappedRun_snoc (ops : List (Option α)) (op : Option α) :
    cappedRun cap (ops ++ [op]) = cappedStep cap (cappedRun cap ops) op := by
  rw [cappedRun, foldl_append]
  rfl

theorem shallow_nil : Shallow cap ([] : List (Option α)) := by
  refine ⟨[], [], rfl, rfl, fun zs hzs => ?_⟩
  rw [prefix_nil.mp hzs]
  exact Nat.zero_le _

/-- One more step: the stack is empty now, or it was shallow before and is not too deep. -/
theorem shallow_snoc_iff (op : Option α) : Shallow cap (ops ++ [op]) ↔
      stackRun (ops ++ [op]) = [] ∨ Shallow cap ops ∧ (stackRun (ops ++ [op])).length ≤ cap := by
  constructor
  · rintro ⟨xs, ys, hops, hempty, hdepth⟩
    cases ys using reverseRecOn with
    | nil =>
      rw [append_nil] at hops
      rw [hops]
      exact .inl hempty
    | append_singleton ys y =>
      rw [← append_assoc] at hops
      obtain ⟨rfl, hy⟩ := append_inj' hops rfl
      refine .inr ⟨⟨xs, ys, rfl, hempty, fun zs hzs => hdepth zs (hzs.trans (prefix_append _ _))⟩, ?_⟩
      rw [hops, append_assoc]
      exact hdepth _ prefix_rfl
  · rintro (hempty | ⟨⟨xs, ys, rfl, hempty, hdepth⟩, hlast⟩)
    · refine ⟨ops ++ [op], [], (append_nil _).symm, hempty, fun zs hzs => ?_⟩
      rw [prefix_nil.mp hzs, append_nil, hempty]
      exact Nat.zero_le _
    · refine ⟨xs, ys ++ [op], append_assoc _ _ _, hempty, fun zs hzs => ?_⟩
      rcases prefix_concat_iff.mp hzs with rfl | hzs
      · rw [append_assoc] at hlast
        exact hlast
      · exact hdepth zs hzs

theorem dropLast_sublist_dropLast {as bs : List α} (h : as.Sublist bs) : as.dropLast.Sublist bs.dropLast := by
  have htails := h.reverse.tail
  rw [tail_reverse, tail_reverse] at htails
  exact reverse_sublist.mp htails

/-- What is left when a push has been passed over: a shorter stack, of the same entries. -/
structure Lost (st full : List α) : Prop where
  sub : st.Sublist full
  shorter : st.length < full.length

/-- **The capped stack** follows the other while it is shallow, and has lost entries otherwise. -/
theorem cappedRun_cases (cap : Nat) (ops : List (Option α)) :
    Shallow cap ops ∧ (stackRun ops).length ≤ cap ∧ cappedRun cap ops = stackRun ops ∨
      ¬ Shallow cap ops ∧ Lost (cappedRun cap ops) (stackRun ops) := by
  induction ops using reverseRecOn with
  | nil => exact .inl ⟨shallow_nil, Nat.zero_le _, rfl⟩
  | append_singleton ops op ih =>
    rw [shallow_snoc_iff, stackRun_snoc, cappedRun_snoc]
    rcases ih with ⟨hshallow, hdepth, hsame⟩ | ⟨hdeep, hsub, hshorter⟩
    · rw [hsame]
      cases op with
      | none =>
        have hle : (stackStep (stackRun ops) none).length ≤ cap := by
          show (stackRun ops).dropLast.length ≤ cap
          rw [length_dropLast]
          omega
        exact .inl ⟨.inr ⟨hshallow, hle⟩, hle, rfl⟩
      | some a =>
        have hlen : (stackRun ops ++ [a]).length = (stackRun ops).length + 1 := length_append
        by_cases hfull : (stackRun ops).length = cap
        · -- the push is passed over
          refine .inr ⟨?_, ?_⟩
          · rintro (hempty | ⟨-, hle⟩)
            · exact append_ne_nil_of_right_ne_nil _ (cons_ne_nil _ _) hempty
            · have hle' : (stackRun ops ++ [a]).length ≤ cap := hle
              omega
          · rw [cappedStep, if_pos hfull]
            exact ⟨sublist_append_left _ _, by rw [stackStep, hlen]; exact Nat.lt_succ_self _⟩
        · have hle : (stackStep (stackRun ops) (some a)).length ≤ cap := by
            rw [stackStep, hlen]
            omega
          rw [cappedStep, if_neg hfull]
          exact .inl ⟨.inr ⟨hshallow, hle⟩, hle, rfl⟩
    · cases op with
      | none =>
        show (_ ∨ _) ∧ (stackRun ops).dropLast.length ≤ cap ∧ (cappedRun cap ops).dropLast = (stackRun ops).dropLast ∨
          ¬ (_ ∨ _) ∧ Lost (cappedRun cap ops).dropLast (stackRun ops).dropLast
        by_cases hone : (stackRun ops).length = 1
        · -- both are empty now
          have hnil : (stackRun ops).dropLast = [] := by
            apply eq_nil_of_length_eq_zero
            rw [length_dropLast, hone]
          have hcapped : (cappedRun cap ops).dropLast = [] := by
            apply eq_nil_of_length_eq_zero
            rw [length_dropLast]
            omega
          rw [hcapped, hnil]
          exact .inl ⟨.inl hnil, Nat.zero_le _, rfl⟩
        · refine .inr ⟨?_, dropLast_sublist_dropLast hsub, ?_⟩
          · rintro (hempty | ⟨hshallow, -⟩)
            · have hlen := congrArg length (show (stackRun ops).dropLast = [] from hempty)
              rw [length_dropLast, length_nil] at hlen
              omega
            · exact hdeep hshallow
          · rw [length_dropLast, length_dropLast]
            omega
      | some a =>
        refine .inr ⟨?_, ?_⟩
        · rintro (hempty | ⟨hshallow, -⟩)
          · exact append_ne_nil_of_right_ne_nil _ (cons_ne_nil _ _) hempty
          · exact hdeep hshallow
        · rw [stackStep, cappedStep]
          split
          · exact ⟨hsub.trans (sublist_append_left _ _), by rw [length_append]; omega⟩
          · refine ⟨hsub.append (List.Sublist.refl _), ?_⟩
            rw [length_append, length_append]
            exact Nat.add_lt_add_right hshorter _

/-- The entries of a stack were pushed. -/
theorem mem_stackRun {a : α} (h : a ∈ stackRun ops) : some a ∈ ops := by
  induction ops using reverseRecOn with
  | nil => exact absurd h not_mem_nil
  | append_singleton ops op ih =>
    rw [stackRun_snoc] at h
    cases op with
    | none => exact mem_append_left _ (ih (dropLast_subset _ h))
    | some b =>
      rcases mem_append.mp h with h | h
      · exact mem_append_left _ (ih h)
      · rw [mem_singleton.mp h]
        exact mem_append_right _ (mem_singleton.mpr rfl)

/-- Pushes alone stack up. -/
theorem stackRun_pushes (as : List α) : stackRun (as.map some) = as := by
  induction as using reverseRecOn with
  | nil => rfl
  | append_singleton as a ih =>
    rw [map_append]
    show stackRun (as.map some ++ [some a]) = _
    rw [stackRun_snoc, ih]
    rfl

end Aegir.Lib
