/-
  Glob patterns.

  A pattern is a list in which one letter stands for any run and another for any single letter.  `Glob` says which
  lists a pattern matches; the three rules read a pattern from its head, as a matcher does.
-/
import Mathlib.Data.List.Basic

namespace Aegir.Lib

open List

universe u

variable {α : Type u} {any one p : α} {ps s : List α}

/-- `Glob any one p s`: the pattern `p` matches `s`. -/
inductive Glob {α : Type u} (any one : α) : List α → List α → Prop where
  | nil : Glob any one [] []
  | any {ps s : List α} (run : List α) (h : Glob any one ps s) : Glob any one (any :: ps) (run ++ s)
  | one {ps s : List α} (c : α) (h : Glob any one ps s) : Glob any one (one :: ps) (c :: s)
  | same {ps s : List α} (c : α) (h : Glob any one ps s) : Glob any one (c :: ps) (c :: s)

/-- The empty pattern matches the empty list. -/
theorem glob_nil_iff : Glob any one [] s ↔ s = [] := by
  constructor
  · intro h
    cases h
    rfl
  · rintro rfl
    exact .nil

/-- A run may be of any length. -/
theorem glob_any_iff : Glob any one (any :: ps) s ↔ ∃ k ≤ s.length, Glob any one ps (s.drop k) := by
  constructor
  · intro h
    cases h with
    | @any _ s' run h =>
      refine ⟨run.length, ?_, ?_⟩
      · rw [List.length_append]
        exact Nat.le_add_right _ _
      · rw [List.drop_left]
        exact h
    | one c h => exact ⟨1, Nat.succ_le_succ (Nat.zero_le _), h⟩
    | same _ h => exact ⟨1, Nat.succ_le_succ (Nat.zero_le _), h⟩
  · rintro ⟨k, -, h⟩
    have hrun := Glob.any (s.take k) h
    rwa [List.take_append_drop] at hrun

/-- Any other letter takes one letter. -/
theorem glob_cons_iff (hp : p ≠ any) :
    Glob any one (p :: ps) s ↔ ∃ c cs, s = c :: cs ∧ (p = one ∨ p = c) ∧ Glob any one ps cs := by
  constructor
  · intro h
    cases h with
    | any run h => exact absurd rfl hp
    | one c h => exact ⟨c, _, rfl, .inl rfl, h⟩
    | same _ h => exact ⟨p, _, rfl, .inr rfl, h⟩
  · rintro ⟨c, cs, rfl, hone | hsame, h⟩
    · rw [hone]
      exact .one c h
    · rw [hsame]
      exact .same c h

end Aegir.Lib
