/-
  Products and repetitions of languages, cut by cut.

  A word lies in `L * M` when one of its cuts does, and in `L∗ * M` when it lies in `M` or a first part of it, not
  empty, lies in `L` and the rest in `L∗ * M` again: this is how a matcher goes through them.
-/
import Mathlib.Computability.Language
import Mathlib.Data.List.Basic

namespace Aegir.Lib

open Computability List

universe u

variable {α : Type u} {L M : Language α} {x : List α}

theorem mem_mul_iff_cut : x ∈ L * M ↔ ∃ k ≤ x.length, x.take k ∈ L ∧ x.drop k ∈ M := by
  constructor
  · rintro ⟨a, ha, b, hb, rfl⟩
    refine ⟨a.length, ?_, ?_, ?_⟩
    · rw [length_append]
      exact Nat.le_add_right _ _
    · rw [take_left]
      exact ha
    · rw [drop_left]
      exact hb
  · rintro ⟨k, -, ha, hb⟩
    exact ⟨_, ha, _, hb, take_append_drop k x⟩

theorem mem_kstar_mul_iff : x ∈ L∗ * M ↔ x ∈ M ∨ ∃ k, 0 < k ∧ k ≤ x.length ∧ x.take k ∈ L ∧ x.drop k ∈ L∗ * M := by
  constructor
  · intro h
    obtain ⟨a, ha, b, hb, rfl⟩ := Language.mem_mul.mp h
    obtain ⟨parts, rfl, hparts⟩ := Language.mem_kstar_iff_exists_nonempty.mp ha
    cases parts with
    | nil => exact .inl hb
    | cons p ps =>
      obtain ⟨hp, hne⟩ := hparts p mem_cons_self
      refine .inr ⟨p.length, length_pos_iff.mpr hne, ?_, ?_, ?_⟩
      · rw [flatten_cons, append_assoc, length_append]
        exact Nat.le_add_right _ _
      · rw [flatten_cons, append_assoc, take_left]
        exact hp
      · rw [flatten_cons, append_assoc, drop_left]
        refine Language.append_mem_mul ?_ hb
        exact Language.join_mem_kstar fun y hy => (hparts y (mem_cons_of_mem _ hy)).1
  · rintro (h | ⟨k, -, -, hfirst, hrest⟩)
    · have hnil : ([] : List α) ∈ L∗ := Language.nil_mem_kstar L
      exact Language.append_mem_mul hnil h
    · obtain ⟨a, ha, b, hb, hab⟩ := Language.mem_mul.mp hrest
      obtain ⟨parts, rfl, hparts⟩ := Language.mem_kstar.mp ha
      have hall : ∀ y ∈ x.take k :: parts, y ∈ L := by
        intro y hy
        rcases mem_cons.mp hy with rfl | hy
        · exact hfirst
        · exact hparts y hy
      refine Language.mem_mul.mpr ⟨_, Language.join_mem_kstar hall, b, hb, ?_⟩
      rw [flatten_cons, append_assoc, hab, take_append_drop]

/-- Any word stands before a word of `M`. -/
theorem mem_top_mul_iff : x ∈ (⊤ : Language α) * M ↔ ∃ k ≤ x.length, x.drop k ∈ M := by
  rw [mem_mul_iff_cut]
  constructor
  · rintro ⟨k, hk, -, h⟩
    exact ⟨k, hk, h⟩
  · rintro ⟨k, hk, h⟩
    exact ⟨k, hk, trivial, h⟩

end Aegir.Lib
