/-
  Copies between byte ranges.

  A memory is a function from positions, of any type of cell.  `copyRange src i dst j n` is `dst` with the
  `n` cells from `j` on replaced by those of `src` from `i` on.

  The law behind READ-MODIFY-WRITE: a range copied out, overwritten in its middle and copied back leaves the
  memory as if the middle alone had been overwritten (`copyRange_through`).
-/
import Mathlib.Order.Basic

namespace Aegir.Lib

variable {α : Type*}

/-- `n` cells of `src`, from `i` on, over those of `dst` from `j` on. -/
def copyRange (src : Nat → α) (i : Nat) (dst : Nat → α) (j n : Nat) : Nat → α :=
  fun k => if j ≤ k ∧ k < j + n then src (i + (k - j)) else dst k

section CopyRange

variable (src dst mid : Nat → α) (i j m n k : Nat)

theorem copyRange_inside (h : j ≤ k ∧ k < j + n) : copyRange src i dst j n k = src (i + (k - j)) := if_pos h

theorem copyRange_outside (h : ¬ (j ≤ k ∧ k < j + n)) : copyRange src i dst j n k = dst k := if_neg h

@[simp] theorem copyRange_zero : copyRange src i dst j 0 = dst := by
  funext k
  exact copyRange_outside src dst i j 0 k (by omega)

/-- Two copies of neighbouring ranges are one copy. -/
theorem copyRange_append :
    copyRange src (i + m) (copyRange src i dst j m) (j + m) n = copyRange src i dst j (m + n) := by
  funext k
  by_cases hlast : j + m ≤ k ∧ k < j + m + n
  · rw [copyRange_inside _ _ _ _ _ _ hlast, copyRange_inside _ _ _ _ _ _ (by omega)]
    congr 1
    omega
  · rw [copyRange_outside _ _ _ _ _ _ hlast]
    by_cases hfirst : j ≤ k ∧ k < j + m
    · rw [copyRange_inside _ _ _ _ _ _ hfirst, copyRange_inside _ _ _ _ _ _ (by omega)]
    · rw [copyRange_outside _ _ _ _ _ _ hfirst, copyRange_outside _ _ _ _ _ _ (by omega)]

/-- **Read, modify, write.**  The range of `m` cells from `j` on goes through the buffer `mid`; in between
    `n` cells of it, from `k` on, are overwritten. -/
theorem copyRange_through (h : k + n ≤ m) :
    copyRange (copyRange src i (copyRange dst j mid 0 m) k n) 0 dst j m = copyRange src i dst (j + k) n := by
  funext x
  by_cases hx : j ≤ x ∧ x < j + m
  · rw [copyRange_inside _ _ _ _ _ _ hx, Nat.zero_add]
    by_cases hin : k ≤ x - j ∧ x - j < k + n
    · rw [copyRange_inside _ _ _ _ _ _ hin, copyRange_inside _ _ _ _ _ _ (by omega)]
      congr 1
      omega
    · rw [copyRange_outside _ _ _ _ _ _ hin, copyRange_inside _ _ _ _ _ _ (by omega),
        copyRange_outside _ _ _ _ _ _ (by omega)]
      congr 1
      omega
  · rw [copyRange_outside _ _ _ _ _ _ hx, copyRange_outside _ _ _ _ _ _ (by omega)]

/-- A range copied into a buffer and on from there. -/
theorem copyRange_copyRange (h : k + n ≤ m) :
    copyRange (copyRange src i mid 0 m) k dst j n = copyRange src (i + k) dst j n := by
  funext x
  by_cases hx : j ≤ x ∧ x < j + n
  · rw [copyRange_inside _ _ _ _ _ _ hx, copyRange_inside _ _ _ _ _ _ hx, copyRange_inside _ _ _ _ _ _ (by omega)]
    congr 1
    omega
  · rw [copyRange_outside _ _ _ _ _ _ hx, copyRange_outside _ _ _ _ _ _ hx]

end CopyRange

end Aegir.Lib
