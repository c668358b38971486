/-
  CHARACTERS IN WORDS, and characters up to a NUL.

  A message word of 64 bits carries eight characters, the first in its lowest byte.  A packer clears a
  range of words and ORS the characters in, one after the other, until the range is full; a reader takes
  characters until it meets a NUL or has taken as many as it looks at.  `unpack_pack` is the round trip:
  the reader sees the text, cut at the number of characters IT looks at.

  The packer's capacity and the reader's are two numbers, and nothing here says that they agree.
-/
import Mathlib.Data.Nat.Bitwise
import Mathlib.Data.List.TakeWhile
import Mathlib.Logic.Function.Basic
import Mathlib.Tactic.IntervalCases

namespace Aegir.Lib

open List Function

/-- The words of a message, by their number. -/
abbrev Words : Type := Nat → UInt64

/-- Byte `k` of a word. -/
def wordByte (w : UInt64) (k : Nat) : UInt8 := (w >>> UInt64.ofNat (8 * k)).toUInt8

/-- The word with the character `c` or-ed into byte `k`. -/
def orByte (w : UInt64) (k : Nat) (c : UInt8) : UInt64 := w ||| c.toUInt64 <<< UInt64.ofNat (8 * k)

/-! ## One word -/

variable {k i j : Nat}

theorem shift_toNat (hk : k < 8) : (UInt64.ofNat (8 * k)).toNat % 64 = 8 * k := by
  rw [UInt64.toNat_ofNat_of_lt' (by unfold UInt64.size; omega), Nat.mod_eq_of_lt (by omega)]

theorem wordByte_toNat (w : UInt64) (hk : k < 8) : (wordByte w k).toNat = w.toNat >>> (8 * k) % 2 ^ 8 := by
  unfold wordByte
  rw [UInt64.toNat_toUInt8, UInt64.toNat_shiftRight, shift_toNat hk]

/-- The bits of a byte. -/
theorem testBit_wordByte (w : UInt64) (hk : k < 8) (i : Nat) :
    (wordByte w k).toNat.testBit i = (decide (i < 8) && w.toNat.testBit (8 * k + i)) := by
  rw [wordByte_toNat w hk, Nat.testBit_mod_two_pow, Nat.testBit_shiftRight]

theorem testBit_orByte (w : UInt64) (hk : k < 8) (c : UInt8) (hi : i < 64) : (orByte w k c).toNat.testBit i =
      (w.toNat.testBit i || (decide (8 * k ≤ i) && c.toNat.testBit (i - 8 * k))) := by
  unfold orByte
  rw [UInt64.toNat_or, Nat.testBit_lor, UInt64.toNat_shiftLeft, shift_toNat hk,
    Nat.testBit_mod_two_pow, Nat.testBit_shiftLeft, UInt8.toNat_toUInt64]
  simp [hi]

/-- A character has eight bits. -/
theorem testBit_char (c : UInt8) (hi : 8 ≤ i) : c.toNat.testBit i = false := by
  apply Nat.testBit_eq_false_of_lt
  have h1 := c.toNat_lt
  have h2 : 2 ^ 8 ≤ 2 ^ i := Nat.pow_le_pow_right (by decide) hi
  omega

/-- **Or-ing into one byte** leaves the other seven alone. -/
theorem wordByte_orByte (w : UInt64) (c : UInt8) (hj : j < 8) (hk : k < 8) :
    wordByte (orByte w k c) j = if j = k then wordByte w j ||| c else wordByte w j := by
  apply UInt8.toNat_inj.mp
  apply Nat.eq_of_testBit_eq
  intro i
  rw [testBit_wordByte _ hj]
  by_cases hi : i < 8
  · rw [testBit_orByte w hk c (by omega)]
    by_cases hjk : j = k
    · subst hjk
      rw [if_pos rfl, UInt8.toNat_or, Nat.testBit_lor, testBit_wordByte w hj]
      have hle : 8 * j ≤ 8 * j + i := by omega
      simp [hi, hle]
    · rw [if_neg hjk, testBit_wordByte w hj]
      -- the character lies in another byte
      rcases Nat.lt_or_gt_of_ne hjk with hlt | hgt
      · have hle : ¬ 8 * k ≤ 8 * j + i := by omega
        simp [hle]
      · rw [testBit_char c (i := 8 * j + i - 8 * k) (by omega)]
        simp
  · -- past the byte there is nothing on either side
    have hlast : (if j = k then wordByte w j ||| c else wordByte w j).toNat.testBit i = false :=
      testBit_char _ (by omega)
    rw [hlast]
    simp [hi]

/-- A word of all ones is eight characters 255. -/
theorem eq_ones_iff (w : UInt64) : w = 0xFFFFFFFFFFFFFFFF ↔ ∀ k, k < 8 → wordByte w k = 255 := by
  constructor
  · rintro rfl k hk
    interval_cases k <;> decide
  · intro h
    apply UInt64.toNat_inj.mp
    apply Nat.eq_of_testBit_eq
    intro i
    have hones : (0xFFFFFFFFFFFFFFFF : UInt64).toNat = 2 ^ 64 - 1 := by decide
    rw [hones, Nat.testBit_two_pow_sub_one]
    by_cases hi : i < 64
    · have hbyte := testBit_wordByte w (k := i / 8) (by omega) (i % 8)
      have h255 : (255 : UInt8).toNat = 2 ^ 8 - 1 := by decide
      rw [h _ (by omega), h255, Nat.testBit_two_pow_sub_one, show 8 * (i / 8) + i % 8 = i by omega] at hbyte
      have hlow : i % 8 < 8 := by omega
      simp only [hlow, decide_true, Bool.true_and] at hbyte
      rw [← hbyte]
      simp [hi]
    · rw [Nat.testBit_eq_false_of_lt (Nat.lt_of_lt_of_le w.toNat_lt (Nat.pow_le_pow_right (by decide) (by omega)))]
      simp [hi]

/-! ## A range of words -/

variable {first last : Nat}

/-- The character at position `pos` behind word `first`. -/
def charAt (ws : Words) (first pos : Nat) : UInt8 := wordByte (ws (first + pos / 8)) (pos % 8)

def orChar (ws : Words) (first pos : Nat) (c : UInt8) : Words :=
  update ws (first + pos / 8) (orByte (ws (first + pos / 8)) (pos % 8) c)

theorem charAt_orChar (ws : Words) (first pos j : Nat) (c : UInt8) : charAt (orChar ws first pos c) first j =
      if j = pos then charAt ws first j ||| c else charAt ws first j := by
  unfold charAt orChar
  by_cases hw : j / 8 = pos / 8
  · rw [hw, update_self, wordByte_orByte _ _ (by omega) (by omega)]
    by_cases hj : j = pos
    · rw [if_pos hj, if_pos (by rw [hj])]
    · rw [if_neg hj, if_neg (by omega)]
  · rw [update_of_ne (by omega), if_neg (by rintro rfl; exact hw rfl)]

/-- The words `first .. last` are set to 0. -/
def clearWords (ws : Words) (first last : Nat) : Words := fun w => if first ≤ w ∧ w ≤ last then 0 else ws w

/-- Characters from position `pos` on, until `cap`. -/
def packFrom (first cap : Nat) : List UInt8 → Nat → Words → Words
  | [], _, ws => ws
  | c :: cs, pos, ws => if pos ≥ cap then ws else packFrom first cap cs (pos + 1) (orChar ws first pos c)

/-- **The packer**: the words are cleared, then the characters are put in. -/
def pack (ws : Words) (first last : Nat) (cs : List UInt8) : Words :=
  packFrom first ((last + 1 - first) * 8) cs 0 (clearWords ws first last)

theorem charAt_packFrom (first cap : Nat) (cs : List UInt8) (pos j : Nat) (ws : Words) :
    charAt (packFrom first cap cs pos ws) first j =
      if pos ≤ j ∧ j < cap then charAt ws first j ||| cs.getD (j - pos) 0 else charAt ws first j := by
  induction cs generalizing pos ws with
  | nil => simp [packFrom]
  | cons c cs ih =>
    rw [packFrom]
    by_cases hcap : pos ≥ cap
    · rw [if_pos hcap, if_neg (by omega)]
    · rw [if_neg hcap, ih, charAt_orChar]
      by_cases hj : j = pos
      · subst hj
        rw [if_neg (by omega), if_pos rfl, if_pos (by omega), Nat.sub_self]
        rfl
      · by_cases hin : pos ≤ j ∧ j < cap
        · rw [if_pos (by omega), if_pos hin, if_neg hj, show j - pos = j - (pos + 1) + 1 by omega, getD_cons_succ]
        · rw [if_neg (by omega), if_neg hin, if_neg hj]

/-- What lies at each position that the packer fills. -/
theorem charAt_pack (ws : Words) (cs : List UInt8) (hj : j < (last + 1 - first) * 8) :
    charAt (pack ws first last cs) first j = cs.getD j 0 := by
  have hzero : charAt (clearWords ws first last) first j = 0 := by
    unfold charAt clearWords
    rw [if_pos (by omega)]
    have hlt : j % 8 < 8 := by omega
    generalize j % 8 = k at hlt ⊢
    interval_cases k <;> decide
  unfold pack
  rw [charAt_packFrom, if_pos (by omega), hzero, Nat.sub_zero]
  simp

/-- Words outside the range stay. -/
theorem packFrom_outside (first cap w : Nat) (cs : List UInt8) (pos : Nat) (ws : Words)
    (hw : w < first ∨ first + (cap + 7) / 8 ≤ w) : packFrom first cap cs pos ws w = ws w := by
  induction cs generalizing pos ws with
  | nil => rfl
  | cons c cs ih =>
    rw [packFrom]
    split_ifs with hcap
    · rfl
    · rw [ih]
      exact update_of_ne (by omega) _ _

theorem pack_outside (ws : Words) {w : Nat} (cs : List UInt8) (hle : first ≤ last + 1)
    (hw : w < first ∨ last < w) : pack ws first last cs w = ws w := by
  unfold pack
  rw [packFrom_outside _ _ _ _ _ _ (by omega)]
  unfold clearWords
  rw [if_neg (by omega)]

/-- The first word of the range is all ones exactly when the text begins with eight characters 255. -/
theorem pack_eq_ones_iff (ws : Words) (cs : List UInt8) (hle : first ≤ last) :
    pack ws first last cs first = 0xFFFFFFFFFFFFFFFF ↔ ∀ k, k < 8 → cs.getD k 0 = 255 := by
  rw [eq_ones_iff]
  refine forall_congr' fun k => forall_congr' fun hk => ?_
  have hchar : charAt (pack ws first last cs) first k = cs.getD k 0 := charAt_pack ws cs (by omega)
  unfold charAt at hchar
  rw [Nat.div_eq_of_lt hk, Nat.add_zero, Nat.mod_eq_of_lt hk] at hchar
  rw [hchar]

/-! ## Readers -/

variable {f : Nat → UInt8} {n : Nat} {cs : List UInt8}

/-- Characters until a NUL, at most `n`. -/
def untilNul (f : Nat → UInt8) (n : Nat) : List UInt8 := ((range n).map f).takeWhile (· ≠ 0)

theorem untilNul_succ (f : Nat → UInt8) (n : Nat) :
    untilNul f (n + 1) = if f 0 = 0 then [] else f 0 :: untilNul (fun i => f (i + 1)) n := by
  unfold untilNul
  rw [range_succ_eq_map, map_cons, map_map, takeWhile_cons]
  by_cases h : f 0 = 0
  · simp [h]
  · simp [h, comp_def]

theorem untilNul_congr {g : Nat → UInt8} (h : ∀ j, j < n → f j = g j) : untilNul f n = untilNul g n := by
  have hmap : (range n).map f = (range n).map g :=
    map_congr_left fun j hj => h j (mem_range.mp hj)
  unfold untilNul
  rw [hmap]

/-- **A text laid out from position 0 on, with a NUL behind it, is read back** up to `n`; what lies behind
    the NUL does not matter. -/
theorem untilNul_eq_take (n : Nat) (hcs : ∀ c ∈ cs, c ≠ 0)
    (hf : ∀ j, j < n → j ≤ cs.length → f j = cs.getD j 0) : untilNul f n = cs.take n := by
  induction cs generalizing f n with
  | nil =>
    cases n with
    | zero => rfl
    | succ n =>
      have h0 : f 0 = 0 := hf 0 (by omega) (Nat.le_refl _)
      rw [untilNul_succ, if_pos h0]
      rfl
  | cons c cs ih =>
    cases n with
    | zero => rfl
    | succ n =>
      have h0 : f 0 = c := hf 0 (by omega) (Nat.zero_le _)
      have hc : c ≠ 0 := hcs c mem_cons_self
      rw [untilNul_succ, h0, if_neg hc, take_succ_cons]
      congr 1
      apply ih n (fun d hd => hcs d (mem_cons_of_mem _ hd))
      intro j hj hle
      have hnext := hf (j + 1) (by omega) (by simp; omega)
      rwa [getD_cons_succ] at hnext

/-- **The round trip through words**, cut at what the reader looks at. -/
theorem unpack_pack (ws : Words) (hcs : ∀ c ∈ cs, c ≠ 0) (hn : n ≤ (last + 1 - first) * 8) :
    untilNul (charAt (pack ws first last cs) first) n = cs.take n :=
  untilNul_eq_take n hcs fun _ hj _ => charAt_pack ws cs (by omega)

end Aegir.Lib
