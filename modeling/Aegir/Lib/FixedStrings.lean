/-
  Fixed arrays with a counted front: strings of a fixed size with a length, tables with a number of
  entries in use.

  An array is a function on positions; positions 1 … `cap` exist, and every access names the check it
  passes.  A SLICE `lo .. hi` is checked unless it is null; an assignment to a slice asks for a source of
  the same length.  `stretch` reads a run of elements as a list, and the lemmas say what a list read
  becomes after an assignment, and after the loops that shift a table by some places.
-/
import Mathlib.Data.List.Basic
import Mathlib.Logic.Function.Basic

namespace Aegir.Lib

open List Function

variable {α : Type*} {f g : Nat → α} {src : List α} {cap lo hi n i k : Nat}

/-! ## Reading -/

/-- The `n` elements from position `lo` on. -/
def stretch (f : Nat → α) (lo n : Nat) : List α := (range n).map fun i => f (lo + i)

@[simp] theorem stretch_length : (stretch f lo n).length = n := by simp [stretch]

@[simp] theorem stretch_getElem? : (stretch f lo n)[i]? = if i < n then some (f (lo + i)) else none := by
  unfold stretch
  by_cases h : i < n
  · simp [h]
  · simp [h]

@[simp] theorem stretch_zero : stretch f lo 0 = [] := rfl

theorem stretch_congr (h : ∀ i, lo ≤ i → i < lo + n → f i = g i) : stretch f lo n = stretch g lo n := by
  apply ext_getElem?
  intro i
  rw [stretch_getElem?, stretch_getElem?]
  by_cases hi : i < n
  · rw [if_pos hi, if_pos hi, h _ (by omega) (by omega)]
  · rw [if_neg hi, if_neg hi]

theorem stretch_take (h : k ≤ n) : (stretch f lo n).take k = stretch f lo k := by
  apply ext_getElem?
  intro i
  rw [getElem?_take, stretch_getElem?, stretch_getElem?]
  by_cases hi : i < k
  · rw [if_pos hi, if_pos hi, if_pos (by omega)]
  · rw [if_neg hi, if_neg hi]

theorem stretch_drop : (stretch f lo n).drop k = stretch f (lo + k) (n - k) := by
  apply ext_getElem?
  intro i
  rw [getElem?_drop, stretch_getElem?, stretch_getElem?]
  by_cases hi : i < n - k
  · rw [if_pos hi, if_pos (by omega), Nat.add_assoc]
  · rw [if_neg hi, if_neg (by omega)]

theorem stretch_append {m : Nat} : stretch f lo (n + m) = stretch f lo n ++ stretch f (lo + n) m := by
  have hcut := take_append_drop n (stretch f lo (n + m))
  rw [stretch_take (by omega), stretch_drop] at hcut
  rw [← hcut, Nat.add_sub_cancel_left]

@[simp] theorem stretch_one : stretch f lo 1 = [f lo] := rfl

@[simp] theorem stretch_two : stretch f lo 2 = [f lo, f (lo + 1)] := rfl

theorem stretch_getD {d : α} (h : i < n) : (stretch f lo n).getD i d = f (lo + i) := by
  rw [getD_eq_getElem?_getD, stretch_getElem?, if_pos h, Option.getD_some]

/-- **Splicing**: the front stays, `mid` stands behind it, and then what stood behind `k` before. -/
theorem stretch_splice {a b : Nat} {mid : List α} (hn : n = a + mid.length + b)
    (hfront : ∀ i, 1 ≤ i → i ≤ a → g i = f i) (hmid : stretch g (a + 1) mid.length = mid)
    (hback : ∀ j, j < b → g (a + mid.length + 1 + j) = f (k + 1 + j)) :
    stretch g 1 n = stretch f 1 a ++ mid ++ stretch f (k + 1) b := by
  have hfront' : stretch g 1 a = stretch f 1 a := stretch_congr fun i hi hlt => hfront i hi (by omega)
  have hback' : stretch g (a + 1 + mid.length) b = stretch f (k + 1) b := by
    apply ext_getElem?
    intro j
    rw [stretch_getElem?, stretch_getElem?]
    by_cases hj : j < b
    · rw [if_pos hj, if_pos hj, Nat.add_right_comm a, hback j hj]
    · rw [if_neg hj, if_neg hj]
  rw [hn, Nat.add_assoc, stretch_append, stretch_append, hfront', Nat.add_comm 1 a, hmid, hback', append_assoc]

/-- A slice; `none` is a failed check. -/
def slice (cap : Nat) (f : Nat → α) (lo hi : Nat) : Option (List α) :=
  if hi < lo then some []
  else if 1 ≤ lo ∧ hi ≤ cap then some (stretch f lo (hi + 1 - lo))
  else none

theorem slice_eq (hlo : 1 ≤ lo) (hhi : hi ≤ cap) : slice cap f lo hi = some (stretch f lo (hi + 1 - lo)) := by
  unfold slice
  by_cases h : hi < lo
  · have h0 : hi + 1 - lo = 0 := by omega
    rw [if_pos h, h0, stretch_zero]
  · rw [if_neg h, if_pos ⟨hlo, hhi⟩]

/-! ## Assigning -/

/-- The array with `src` written from position `lo` on. -/
def overlay (f : Nat → α) (lo : Nat) (src : List α) : Nat → α := fun i =>
  if lo ≤ i then src[i - lo]?.getD (f i) else f i

/-- Assignment to a slice. -/
def assign (cap : Nat) (f : Nat → α) (lo hi : Nat) (src : List α) : Option (Nat → α) :=
  if src.length ≠ hi + 1 - lo then none
  else if hi < lo then some f
  else if 1 ≤ lo ∧ hi ≤ cap then some (overlay f lo src)
  else none

@[simp] theorem overlay_nil : overlay f lo [] = f := by
  funext i
  simp [overlay]

theorem assign_eq (hlo : 1 ≤ lo) (hhi : hi ≤ cap) (hsrc : src.length = hi + 1 - lo) :
    assign cap f lo hi src = some (overlay f lo src) := by
  unfold assign
  rw [if_neg (by omega)]
  by_cases h : hi < lo
  · have h0 : src = [] := length_eq_zero_iff.mp (by omega)
    rw [if_pos h, h0, overlay_nil]
  · rw [if_neg h, if_pos ⟨hlo, hhi⟩]

theorem overlay_before (h : i < lo) : overlay f lo src i = f i := by
  unfold overlay
  rw [if_neg (by omega)]

theorem overlay_after (h : lo + src.length ≤ i) : overlay f lo src i = f i := by
  unfold overlay
  rw [if_pos (by omega), getElem?_eq_none (by omega), Option.getD_none]

theorem stretch_overlay : stretch (overlay f lo src) lo src.length = src := by
  apply ext_getElem?
  intro i
  rw [stretch_getElem?]
  split_ifs with h
  · unfold overlay
    rw [if_pos (by omega), Nat.add_sub_cancel_left, getElem?_eq_getElem h, Option.getD_some]
  · rw [getElem?_eq_none (by omega)]

/-- **The counted front after an assignment**: what was in front, the source, what was behind. -/
theorem stretch_one_overlay (h : k + src.length ≤ n) : stretch (overlay f (k + 1) src) 1 n =
      stretch f 1 k ++ src ++ stretch f (k + 1 + src.length) (n - k - src.length) := by
  have hn : n = k + (src.length + (n - k - src.length)) := by omega
  have hfront : stretch (overlay f (k + 1) src) 1 k = stretch f 1 k :=
    stretch_congr fun i _ hi => overlay_before (by omega)
  have hback : stretch (overlay f (k + 1) src) (k + 1 + src.length) (n - k - src.length) =
      stretch f (k + 1 + src.length) (n - k - src.length) :=
    stretch_congr fun i hi _ => overlay_after hi
  conv_lhs => rw [hn]
  rw [stretch_append, stretch_append, hfront, Nat.add_comm 1 k, stretch_overlay, hback, append_assoc]

/-! ## Shifting -/

/-- `for I in … loop A (I) := A (from (I)); end loop`, with the checks of both indices. -/
def copyLoop (cap : Nat) (source : Nat → Nat) : List Nat → (Nat → α) → Option (Nat → α)
  | [], f => some f
  | i :: is, f =>
    if (1 ≤ i ∧ i ≤ cap) ∧ 1 ≤ source i ∧ source i ≤ cap then
      copyLoop cap source is (update f i (f (source i)))
    else none

/-- Moving `n` entries down by `k` places, from the front. -/
theorem copyLoop_down (hlo : 1 ≤ lo) (hcap : lo + n + k ≤ cap + 1) : copyLoop cap (· + k) (range' lo n) f =
      some fun i => if lo ≤ i ∧ i < lo + n then f (i + k) else f i := by
  induction n generalizing lo f with
  | zero =>
    rw [range'_zero, copyLoop]
    congr 1
    funext i
    rw [if_neg (by omega)]
  | succ n ih =>
    rw [range'_succ, copyLoop, if_pos (by omega), ih (by omega) (by omega)]
    congr 1
    funext i
    by_cases hi : i = lo
    · subst hi
      rw [if_neg (by omega), if_pos (by omega), update_self]
    · by_cases hin : lo + 1 ≤ i ∧ i < lo + 1 + n
      · rw [if_pos hin, if_pos (by omega), update_of_ne (by omega)]
      · rw [if_neg hin, if_neg (by omega), update_of_ne hi]

/-- Moving `n` entries up by one place, from the back. -/
theorem copyLoop_up (hlo : 2 ≤ lo) (hcap : lo + n ≤ cap + 1) : copyLoop cap (· - 1) (range' lo n).reverse f =
      some fun i => if lo ≤ i ∧ i < lo + n then f (i - 1) else f i := by
  induction n generalizing f with
  | zero =>
    rw [range'_zero, reverse_nil, copyLoop]
    congr 1
    funext i
    rw [if_neg (by omega)]
  | succ n ih =>
    rw [range'_concat, reverse_append, reverse_singleton, singleton_append, copyLoop,
      Nat.one_mul, if_pos (by omega), ih (by omega)]
    congr 1
    funext i
    by_cases hi : i = lo + n
    · subst hi
      rw [if_neg (by omega), if_pos (by omega), update_self]
    · by_cases hin : lo ≤ i ∧ i < lo + n
      · rw [if_pos hin, if_pos (by omega), update_of_ne (by omega)]
      · rw [if_neg hin, if_neg (by omega), update_of_ne hi]

end Aegir.Lib
