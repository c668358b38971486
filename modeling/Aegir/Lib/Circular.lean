/-
  Circular buffers.

  `n` cells, the index of the next element to leave, and how many there are.  Both indices go round modulo
  `n`; the CONTENTS are the list of the elements in the order in which they will leave.  A push appends to
  it, a pop takes its head.
-/
import Mathlib.Logic.Function.Basic
import Mathlib.Data.Nat.ModEq

namespace Aegir.Lib

open List

variable {α : Type*}

structure Circular (α : Type*) where
  cells : Nat → α
  head : Nat
  count : Nat

namespace Circular

variable {n : Nat} {b : Circular α}

/-! ## Operations -/

def push (n : Nat) (b : Circular α) (x : α) : Circular α :=
  { b with cells := Function.update b.cells ((b.head + b.count) % n) x, count := b.count + 1 }

def pop (n : Nat) (b : Circular α) : Option (α × Circular α) :=
  if b.count = 0 then none
  else some (b.cells b.head, { b with head := (b.head + 1) % n, count := b.count - 1 })

/-- No element is left. -/
def clear (b : Circular α) : Circular α := { b with head := 0, count := 0 }

def pushAll (n : Nat) (b : Circular α) (xs : List α) : Circular α := xs.foldl (push n) b

/-- At most `k` pops, until the buffer is empty. -/
def popUpTo (n : Nat) : Nat → Circular α → List α × Circular α
  | 0, b => ([], b)
  | k + 1, b =>
    match pop n b with
    | none => ([], b)
    | some (x, b') => (x :: (popUpTo n k b').1, (popUpTo n k b').2)

/-! ## Contents -/

def contents (n : Nat) (b : Circular α) : List α := (range b.count).map fun i => b.cells ((b.head + i) % n)

/-- The indices are in range. -/
structure Sound (n : Nat) (b : Circular α) : Prop where
  head : b.head < n
  count : b.count ≤ n

@[simp] theorem length_contents : (contents n b).length = b.count := by
  simp [contents]

theorem clear_sound (hn : 0 < n) : (clear b).Sound n := ⟨hn, Nat.zero_le n⟩

@[simp] theorem contents_clear : contents n (clear b) = [] := rfl

theorem push_sound (h : b.Sound n) (hroom : b.count < n) (x : α) : (push n b x).Sound n := ⟨h.head, hroom⟩

/-- **A push appends.** -/
theorem contents_push (hroom : b.count < n) (x : α) : contents n (push n b x) = contents n b ++ [x] := by
  unfold contents push
  rw [range_succ, map_append]
  congr 1
  · refine map_congr_left ?_
    intro i hi
    rw [mem_range] at hi
    refine Function.update_of_ne ?_ _ _
    intro heq
    -- two positions less than `n` apart are not the same cell
    have hmod : b.head + i ≡ b.head + b.count [MOD n] := heq
    have hcancel : i ≡ b.count [MOD n] := Nat.ModEq.add_left_cancel' b.head hmod
    have hsame := Nat.ModEq.eq_of_lt_of_lt hcancel (by omega) hroom
    omega
  · rw [map_singleton]
    congr 1
    exact Function.update_self _ _ _

/-- **A pop takes the head.** -/
theorem pop_spec (h : b.Sound n) (hne : 0 < b.count) :
    ∃ x b', pop n b = some (x, b') ∧ contents n b = x :: contents n b' ∧ b'.Sound n := by
  refine ⟨b.cells b.head, { b with head := (b.head + 1) % n, count := b.count - 1 }, ?_, ?_, ?_⟩
  · rw [pop, if_neg (by omega)]
  · unfold contents
    obtain ⟨k, hk⟩ : ∃ k, b.count = k + 1 := ⟨b.count - 1, by omega⟩
    rw [hk, range_succ_eq_map, map_cons, map_map]
    congr 1
    · show b.cells ((b.head + 0) % n) = _
      rw [Nat.add_zero, Nat.mod_eq_of_lt h.head]
    · refine map_congr_left ?_
      intro i _
      show b.cells ((b.head + (i + 1)) % n) = b.cells (((b.head + 1) % n + i) % n)
      rw [Nat.mod_add_mod]
      congr 2
      omega
  · have hpos : 0 < n := Nat.lt_of_le_of_lt (Nat.zero_le _) h.head
    have hle := h.count
    exact ⟨Nat.mod_lt _ hpos, by show b.count - 1 ≤ n; omega⟩

theorem pushAll_spec (xs : List α) (h : b.Sound n) (hroom : b.count + xs.length ≤ n) :
    contents n (pushAll n b xs) = contents n b ++ xs ∧ (pushAll n b xs).Sound n := by
  induction xs generalizing b with
  | nil => exact ⟨(append_nil _).symm, h⟩
  | cons x xs ih =>
    rw [length_cons] at hroom
    have hlt : b.count < n := by omega
    have hcount : (push n b x).count + xs.length ≤ n := by
      show b.count + 1 + xs.length ≤ n
      omega
    obtain ⟨hcontents, hsound⟩ := ih (push_sound h hlt x) hcount
    refine ⟨?_, hsound⟩
    show contents n (pushAll n (push n b x) xs) = _
    rw [hcontents, contents_push hlt, append_assoc]
    rfl

theorem popUpTo_spec (k : Nat) (h : b.Sound n) (hk : k ≤ b.count) :
    contents n b = (popUpTo n k b).1 ++ contents n (popUpTo n k b).2 ∧ (popUpTo n k b).1.length = k ∧
      (popUpTo n k b).2.Sound n := by
  induction k generalizing b with
  | zero => exact ⟨rfl, rfl, h⟩
  | succ k ih =>
    obtain ⟨x, b', hpop, hcontents, hsound⟩ := pop_spec h (by omega)
    have hlen : b.count = b'.count + 1 := by
      rw [← length_contents (n := n), hcontents, length_cons, length_contents]
    obtain ⟨ih1, ih2, ih3⟩ := ih hsound (by omega)
    simp only [popUpTo, hpop]
    refine ⟨?_, ?_, ih3⟩
    · rw [hcontents, ih1]
      rfl
    · rw [length_cons, ih2]

end Circular

/-!
## A log that passes through a ring

A writer puts the entry number `k` of an ever growing log into the cell `k % n`; a reader has taken the
first `taken` entries.  While it is at most `n` entries behind, every entry it has still to take is in its
cell.

Both sides count modulo `2 ^ w`, and `n` divides that: a counter finds the right cell after any number of
rounds, and two counters are equal only when the reader has taken everything (`count_eq_iff`).
-/

variable {α : Type*} {n taken : Nat} {cells cells' : Nat → α} {log : List α}

/-- The entries from `taken` on are in their cells. -/
structure RingLog (n : Nat) (cells : Nat → α) (log : List α) (taken : Nat) : Prop where
  le : taken ≤ log.length
  lag : log.length ≤ taken + n
  holds : ∀ k, taken ≤ k → k < log.length → log[k]? = some (cells (k % n))

namespace RingLog

theorem empty (n : Nat) (cells : Nat → α) : RingLog n cells [] 0 := ⟨Nat.le_refl _, Nat.zero_le _, nofun⟩

/-- The next entry is written; the others keep their cells. -/
theorem push (h : RingLog n cells log taken) (hroom : log.length < taken + n) (x : α)
    (hnew : cells' (log.length % n) = x) (hold : ∀ i, i < n → i ≠ log.length % n → cells' i = cells i) :
    RingLog n cells' (log ++ [x]) taken := by
  have hlen : (log ++ [x]).length = log.length + 1 := by rw [List.length_append, List.length_singleton]
  have hn : 0 < n := by have := h.le; omega
  constructor
  · rw [hlen]
    exact h.le.trans (Nat.le_succ _)
  · rw [hlen]
    exact hroom
  · intro k hk hlt
    by_cases hlast : k = log.length
    · rw [hlast, List.getElem?_concat_length, hnew]
    · have hk' : k < log.length := by omega
      rw [List.getElem?_append_left hk', h.holds k hk hk']
      refine congrArg some (hold _ (Nat.mod_lt _ hn) fun heq => hlast ?_).symm
      -- two entries less than `n` apart are not in the same cell
      have hmod : k - taken ≡ log.length - taken [MOD n] := by
        refine Nat.ModEq.add_right_cancel' taken ?_
        rw [Nat.sub_add_cancel hk, Nat.sub_add_cancel h.le]
        exact heq
      have := Nat.ModEq.eq_of_lt_of_lt hmod (by omega) (by omega)
      omega

/-- The reader takes the next entry from its cell. -/
theorem take (h : RingLog n cells log taken) (hmore : taken < log.length) :
    log[taken]? = some (cells (taken % n)) ∧ RingLog n cells log (taken + 1) :=
  ⟨h.holds taken (Nat.le_refl _) hmore, hmore, by have := h.lag; omega, fun k hk => h.holds k (by omega)⟩

/-- Two counters modulo a larger power are equal when nothing is left to take, and only then. -/
theorem count_eq_iff (h : RingLog n cells log taken) {m : Nat} (hm : n < m) :
    log.length % m = taken % m ↔ log.length = taken := by
  refine ⟨fun heq => ?_, fun heq => by rw [heq]⟩
  have hmod : log.length - taken ≡ 0 [MOD m] := by
    refine Nat.ModEq.add_right_cancel' taken ?_
    rw [Nat.sub_add_cancel h.le, Nat.zero_add]
    exact heq
  have hlag := h.lag
  have hle := h.le
  have := Nat.ModEq.eq_of_lt_of_lt hmod (by omega) (by omega)
  omega

end RingLog

/-- What has been taken of a log is a prefix of it, and one entry more is one too. -/
theorem take_succ_eq {x : α} (h : log[taken]? = some x) : log.take (taken + 1) = log.take taken ++ [x] := by
  rw [List.take_add_one, h]
  rfl

end Aegir.Lib
