/-
  Null-terminated chains: the abstract contents of an intrusive linked list.

  `IsChain next h l` says that following `next` from `h` visits exactly the members of `l`, in order, and then
  reaches null.  Because `next` is a function, the list is unique and CANNOT repeat a member
  (`IsChain.nodup`).  The lemmas are the updates that list code performs; each says which single `next` field
  changes.
-/
import Mathlib.Logic.Function.Basic
import Mathlib.Data.List.Nodup

namespace Aegir.Lib

open List

variable {α : Type*} {null h x : α} {next next' : α → α} {l l' : List α}

/-- Following `next` from `h` visits the members of `l` and then reaches `null`. -/
def IsChain (null : α) (next : α → α) : α → List α → Prop
  | h, [] => h = null
  | h, y :: ys => h = y ∧ y ≠ null ∧ IsChain null next (next y) ys

namespace IsChain

section

variable (hl : IsChain null next h l)

include hl

/-- A chain is determined by its head. -/
theorem unique (hl' : IsChain null next h l') : l = l' := by
  induction l generalizing h l' with
  | nil =>
    cases l' with
    | nil => rfl
    | cons y ys => exact absurd (hl'.1.symm.trans hl) hl'.2.1
  | cons y ys ih =>
    cases l' with
    | nil => exact absurd (hl.1.symm.trans hl') hl.2.1
    | cons z zs =>
      obtain ⟨rfl, -, hys⟩ := hl
      obtain ⟨rfl, -, hzs⟩ := hl'
      rw [ih hys hzs]

theorem ne_null (hx : x ∈ l) : x ≠ null := by
  induction l generalizing h with
  | nil => cases hx
  | cons y ys ih =>
    rcases mem_cons.mp hx with rfl | hx
    · exact hl.2.1
    · exact ih hl.2.2 hx

theorem eq_nil_iff : l = [] ↔ h = null := by
  cases l with
  | nil => exact ⟨fun _ => hl, fun _ => rfl⟩
  | cons y ys => exact ⟨fun e => (by cases e), fun e => absurd (hl.1.symm.trans e) hl.2.1⟩

/-- From a member on, the rest of the list is a chain again. -/
theorem suffix (hx : x ∈ l) : ∃ ys, IsChain null next x (x :: ys) ∧ (x :: ys).length ≤ l.length := by
  induction l generalizing h with
  | nil => cases hx
  | cons y ys ih =>
    rcases mem_cons.mp hx with rfl | hx
    · exact ⟨ys, ⟨rfl, hl.2.1, hl.2.2⟩, Nat.le_refl _⟩
    · obtain ⟨zs, hzs, hlen⟩ := ih hl.2.2 hx
      exact ⟨zs, hzs, Nat.le_trans hlen (Nat.le_succ _)⟩

/-- **A chain repeats no member.** -/
theorem nodup : l.Nodup := by
  induction l generalizing h with
  | nil => exact nodup_nil
  | cons y ys ih =>
    refine nodup_cons.mpr ⟨fun hy => ?_, ih hl.2.2⟩
    -- a second visit of `y` would be a chain from `y` that is shorter than the one it has
    obtain ⟨zs, hzs, hlen⟩ := suffix hl.2.2 hy
    have heq : y :: ys = y :: zs := unique ⟨rfl, hl.2.1, hl.2.2⟩ hzs
    rw [← heq] at hlen
    exact absurd hlen (Nat.not_succ_le_self _)

/-- Only the `next` fields of members matter. -/
theorem congr (hn : ∀ y ∈ l, next' y = next y) : IsChain null next' h l := by
  induction l generalizing h with
  | nil => exact hl
  | cons y ys ih =>
    refine ⟨hl.1, hl.2.1, ?_⟩
    rw [hn y mem_cons_self]
    exact ih hl.2.2 fun z hz => hn z (mem_cons_of_mem _ hz)

/-- Push: the new head points at the old one. -/
theorem push (hx : x ≠ null) (hnext : next' x = h)
    (hn : ∀ y ∈ l, next' y = next y) : IsChain null next' x (x :: l) :=
  ⟨rfl, hx, hnext ▸ hl.congr hn⟩

end

/-- Pop: the tail of a chain, whatever happens to the field of the popped member. -/
theorem pop {ys : List α} (hl : IsChain null next h (x :: ys))
    (hn : ∀ y, y ≠ x → next' y = next y) : IsChain null next' (next x) ys := by
  have hx : x ∉ ys := (nodup_cons.mp hl.nodup).1
  exact IsChain.congr hl.2.2 fun y hy => hn y (fun e => hx (e ▸ hy))

/-- The last member points at null. -/
theorem next_getLast {ys : List α} (hl : IsChain null next h (ys ++ [x])) : next x = null := by
  induction ys generalizing h with
  | nil => exact hl.2.2
  | cons y ys ih => exact ih hl.2.2

/-- A chain that goes on another way behind a member. -/
theorem resume (next' : α → α) {ys zs r : List α} {b : α} (hl : IsChain null next h (ys ++ b :: zs))
    (hr : IsChain null next' (next' b) r) (hn : ∀ y ∈ ys, next' y = next y) :
    IsChain null next' h (ys ++ b :: r) := by
  induction ys generalizing h with
  | nil => exact ⟨hl.1, hl.2.1, hr⟩
  | cons y ys ih =>
    refine ⟨hl.1, hl.2.1, ?_⟩
    rw [hn y mem_cons_self]
    exact ih hl.2.2 fun z hz => hn z (mem_cons_of_mem _ hz)

/-- Append at the tail `t` of a non-empty chain. -/
theorem append (next' : α → α) {ys : List α} {t : α} (hl : IsChain null next h (ys ++ [t])) (hx : x ≠ null)
    (ht : next' t = x) (hnext : next' x = null) (hn : ∀ y ∈ ys, next' y = next y) :
    IsChain null next' h (ys ++ [t] ++ [x]) := by
  rw [append_assoc]
  exact hl.resume next' ⟨ht, hx, hnext⟩ hn

/-- What follows a member. -/
theorem after {ys zs : List α} (hl : IsChain null next h (ys ++ x :: zs)) : IsChain null next (next x) zs := by
  induction ys generalizing h with
  | nil => exact hl.2.2
  | cons y ys ih => exact ih hl.2.2

/-- Unlink a member that has a predecessor `b`: the predecessor takes over its successor. -/
theorem unlink (next' : α → α) {ys zs : List α} {b : α} (hl : IsChain null next h (ys ++ b :: x :: zs))
    (hb : next' b = next x) (hn : ∀ y ∈ ys ++ zs, next' y = next y) :
    IsChain null next' h (ys ++ b :: zs) := by
  refine hl.resume next' ?_ fun y hy => hn y (mem_append_left _ hy)
  rw [hb]
  exact IsChain.congr hl.after.2.2 fun z hz => hn z (mem_append_right _ hz)

/-- What follows the last of `a`, which may be the start `p`. -/
theorem rest {p : α} {a b : List α} (hl : IsChain null next (next p) (a ++ b)) :
    IsChain null next (next (a.getLastD p)) b := by
  induction a generalizing p with
  | nil => exact hl
  | cons y ys ih =>
    rw [getLastD_cons]
    exact ih hl.2.2

/-- What follows the last of `a`, which may be the start `p`, is exchanged for another chain. -/
theorem splice (next' : α → α) {p : α} {a b c : List α} (hl : IsChain null next (next p) (a ++ b))
    (hnd : (p :: (a ++ b)).Nodup) (hc : IsChain null next' (next' (a.getLastD p)) c)
    (hn : ∀ y ∈ p :: a, y ≠ a.getLastD p → next' y = next y) : IsChain null next' (next' p) (a ++ c) := by
  induction a generalizing p with
  | nil => exact hc
  | cons y ys ih =>
    rw [getLastD_cons] at hc hn
    obtain ⟨hp, hnd'⟩ := nodup_cons.mp hnd
    have hmem : ys.getLastD y ∈ y :: ys := getLastD_mem_cons
    have hne : p ≠ ys.getLastD y := by
      intro e
      exact hp (mem_append_left _ (e ▸ hmem))
    rw [cons_append, hn p mem_cons_self hne]
    exact ⟨hl.1, hl.2.1, ih hl.2.2 hnd' hc fun z hz => hn z (mem_cons_of_mem _ hz)⟩

/-- A member behind the last of `a` is not that node. -/
theorem ne_getLastD {p y : α} {a b : List α} (hnd : (p :: (a ++ b)).Nodup) (hy : y ∈ b) : y ≠ a.getLastD p := by
  have hmem : a.getLastD p ∈ p :: a := getLastD_mem_cons
  rw [← cons_append] at hnd
  exact fun e => (nodup_append'.mp hnd).2.2 hmem (e ▸ hy)

/-- Unlink a member: the node before it, which may be the start `p`, takes over its successor. -/
theorem unlinkAfter (next' : α → α) {p : α} {a b : List α} (hl : IsChain null next (next p) (a ++ x :: b))
    (hnd : (p :: (a ++ x :: b)).Nodup) (hlast : next' (a.getLastD p) = next x)
    (hn : ∀ y ∈ p :: (a ++ b), y ≠ a.getLastD p → next' y = next y) : IsChain null next' (next' p) (a ++ b) := by
  refine hl.splice next' hnd ?_ fun y hy => hn y (by simp only [mem_cons, mem_append] at hy ⊢; tauto)
  rw [hlast]
  refine IsChain.congr hl.rest.2.2 fun y hy => hn y (mem_cons_of_mem _ (mem_append_right _ hy)) ?_
  exact ne_getLastD hnd (mem_cons_of_mem _ hy)

/-- Insert a node behind a member, or behind the start `p`. -/
theorem insertAfter (next' : α → α) {p : α} {a b : List α} (hl : IsChain null next (next p) (a ++ b))
    (hnd : (p :: (a ++ b)).Nodup) (hx : x ≠ null) (hlast : next' (a.getLastD p) = x)
    (hnext : next' x = next (a.getLastD p)) (hn : ∀ y ∈ p :: (a ++ b), y ≠ a.getLastD p → next' y = next y) :
    IsChain null next' (next' p) (a ++ x :: b) := by
  refine hl.splice next' hnd ⟨hlast, hx, ?_⟩ fun y hy => hn y (by simp only [mem_cons, mem_append] at hy ⊢; tauto)
  rw [hnext]
  exact hl.rest.congr fun y hy => hn y (mem_cons_of_mem _ (mem_append_right _ hy)) (ne_getLastD hnd hy)

/-! A walk follows a chain, with the node before it in hand, until it meets `t`. -/

section Walk

variable {β : Type*} {g : α → α → Nat → β} {t cur : α}
  (hstep : ∀ p cur n, cur ≠ null → cur ≠ t → g p cur (n + 1) = g cur (next cur) n)

include hstep

/-- It comes to a member. -/
theorem walk_to {ys zs : List α} {p : α} {n : Nat} (hl : IsChain null next cur (ys ++ t :: zs)) (ht : t ∉ ys)
    (hn : ys.length < n) : ∃ m, g p cur n = g (ys.getLastD p) t (m + 1) := by
  induction ys generalizing cur p n with
  | nil =>
    obtain ⟨m, rfl⟩ : ∃ m, n = m + 1 := Nat.exists_eq_succ_of_ne_zero (Nat.ne_zero_of_lt hn)
    exact ⟨m, by rw [hl.1]; rfl⟩
  | cons y ys ih =>
    obtain ⟨m, rfl⟩ : ∃ m, n = m + 1 := Nat.exists_eq_succ_of_ne_zero (Nat.ne_zero_of_lt hn)
    obtain ⟨rfl, h0, hrest⟩ := hl
    rw [hstep p cur m h0 fun e => ht (e ▸ mem_cons_self), getLastD_cons]
    exact ih hrest (fun hm => ht (mem_cons_of_mem _ hm)) (Nat.lt_of_succ_lt_succ hn)

/-- It runs off a chain without it. -/
theorem walk_past {r : β} {p : α} (hend : ∀ p n, g p null n = r) (hzero : ∀ p cur, g p cur 0 = r)
    (hl : IsChain null next cur l) (ht : t ∉ l) (n : Nat) : g p cur n = r := by
  induction l generalizing cur p n with
  | nil => exact hl ▸ hend p n
  | cons y ys ih =>
    obtain ⟨rfl, h0, hrest⟩ := hl
    cases n with
    | zero => exact hzero p cur
    | succ n =>
      rw [hstep p cur n h0 fun e => ht (e ▸ mem_cons_self)]
      exact ih hrest (fun hm => ht (mem_cons_of_mem _ hm)) n

end Walk

end IsChain

end Aegir.Lib
