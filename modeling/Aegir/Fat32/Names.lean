/-
  Names in a FAT directory.

  A directory entry is 32 bytes.  A live entry holds an 8.3 name; a RUN of entries with attribute 0x0F in
  front of it spells a long name, thirteen UTF-16 units to an entry, the last piece first.  The driver puts
  the pieces together in `LFN_Buf`, one buffer of 64 characters for the whole process.  Forgetting a name
  only sets `LFN_Len` to 0, the characters stay.

  `overlay` says what the buffer holds after a run, in terms of the long name alone: the pieces lie over what
  the buffer held before.
-/
import Aegir.Lib.LittleEndian
import Mathlib.Algebra.Order.Group.Nat
import Mathlib.Data.List.TakeWhile
import Mathlib.Tactic.IntervalCases

namespace Aegir.Fat32

open Aegir.Lib List

/-- `Upper`: only 'a' .. 'z' are folded. -/
def upper (c : UInt8) : UInt8 := if 97 ≤ c ∧ c ≤ 122 then c - 32 else c

/-! ## The long-name buffer -/

/-- `LFN_Buf` (positions from 1 on) and `LFN_Len`. -/
structure Lfn where
  buf : Nat → UInt8
  len : Nat

namespace Lfn

/-- `LFN_Len := 0`. -/
def reset (t : Lfn) : Lfn := { t with len := 0 }

/-- Character `ch` at position `pos`, unless the buffer ends before. -/
def put (t : Lfn) (pos : Nat) (ch : UInt8) : Lfn :=
  if pos ≤ 64 then { buf := Function.update t.buf pos ch, len := max t.len pos } else t

/-- `LFN_Buf (1 .. LFN_Len)`. -/
def text (t : Lfn) : List UInt8 := (range t.len).map fun i => t.buf (i + 1)

end Lfn

/-- Where the `j`-th character of a long-name entry lies. -/
def charOff (j : Nat) : Nat :=
  if j ≤ 4 then 1 + j * 2 else if j ≤ 10 then 14 + (j - 5) * 2 else 28 + (j - 11) * 2

/-- The loop of `Collect_LFN` over the characters that are left. -/
def collectFrom (s : Bytes) (base : Nat) : List Nat → Lfn → Lfn
  | [], t => t
  | j :: js, t =>
    let hi := s (charOff j + 1)
    let lo := s (charOff j)
    if hi = 0 ∧ (lo = 0 ∨ lo = 0xFF) then t
    -- 63 is '?': a character outside Latin-1
    else collectFrom s base js (t.put (base + j + 1) (if hi ≠ 0 then 63 else lo))

/-- `Seq` of a long-name entry.  It is 1 at least, on a volume that is as it should be. -/
def seqOf (s : Bytes) : Nat := (s 0 &&& 0x1F).toNat

/-- `Collect_LFN`. -/
def collectLfn (s : Bytes) (t : Lfn) : Lfn := collectFrom s ((seqOf s - 1) * 13) (range 13) t

/-! ## Comparing -/

/-- `Short_Name_Of`: the dotted 8.3 name. -/
def shortNameOf (s : Bytes) : List UInt8 :=
  let name := ((range 8).map s).takeWhile (· ≠ 0x20)
  if s 8 ≠ 0x20 then name ++ 0x2E :: ((range 3).map fun j => s (8 + j)).takeWhile (· ≠ 0x20)
  else name

/-- `Match_Component`: a component as long as the name in the buffer is compared with that name and nothing
else. -/
def matchComponent (comp : List UInt8) (s : Bytes) (t : Lfn) : Bool :=
  if 0 < t.len ∧ comp.length = t.len then comp.map upper = t.text.map upper
  else comp.map upper = (shortNameOf s).map upper

/-! ## Pieces of a long name -/

/-- The unit a long-name entry holds at its `j`-th character. -/
def unit (s : Bytes) (j : Nat) : UInt16 :=
  UInt16.ofNat ((s (charOff j)).toNat + 256 * (s (charOff j + 1)).toNat)

/-- Where `Collect_LFN` stops: at the end of the name, but also at U+00FF. -/
def Stops (u : UInt16) : Prop := u = 0 ∨ u = 0xFF

instance : DecidablePred Stops := fun u => inferInstanceAs (Decidable (u = 0 ∨ u = 0xFF))

/-- How a unit is kept: '?' stands for what is outside Latin-1. -/
def glyph (u : UInt16) : UInt8 := if u.toNat < 256 then UInt8.ofNat u.toNat else 63

/-- What of a piece reaches the buffer. -/
def legible (us : List UInt16) : List UInt8 := (us.takeWhile fun u => ¬ Stops u).map glyph

/-- The characters `cs`, put behind position `base`. -/
def lay (t : Lfn) (base : Nat) : List UInt8 → Lfn
  | [] => t
  | c :: cs => lay (t.put (base + 1) c) (base + 1) cs

/-- Thirteen units of the name. -/
def piece (long : List UInt16) (q : Nat) : List UInt16 := (long.drop (q * 13)).take 13

/-- How many pieces the name has. -/
def pieces (long : List UInt16) : Nat := (long.length + 12) / 13

/-- The first `q` pieces over the buffer, the last of them first. -/
def overlayFrom (long : List UInt16) : Nat → Lfn → Lfn
  | 0, t => t
  | q + 1, t => overlayFrom long q (lay t (q * 13) (legible (piece long q)))

/-- The long name over what the buffer holds. -/
def overlay (long : List UInt16) (t : Lfn) : Lfn := overlayFrom long (pieces long) t

/-- A piece as an entry holds it: ended by 0 and filled up with 0xFFFF when there is room. -/
def padded (us : List UInt16) : List UInt16 := (us ++ 0 :: replicate 12 0xFFFF).take 13

theorem unit_toNat (s : Bytes) (j : Nat) :
    (unit s j).toNat = (s (charOff j)).toNat + 256 * (s (charOff j + 1)).toNat := by
  have h1 := (s (charOff j)).toNat_lt
  have h2 := (s (charOff j + 1)).toNat_lt
  exact UInt16.toNat_ofNat_of_lt' (by simp [UInt16.size]; omega)

theorem stops_unit_iff (s : Bytes) (j : Nat) :
    Stops (unit s j) ↔ s (charOff j + 1) = 0 ∧ (s (charOff j) = 0 ∨ s (charOff j) = 0xFF) := by
  have hu := unit_toNat s j
  simp only [Stops, ← UInt16.toNat_inj, ← UInt8.toNat_inj, hu]
  simp only [UInt16.reduceToNat, UInt8.reduceToNat]
  omega

theorem glyph_unit (s : Bytes) (j : Nat) :
    glyph (unit s j) = if s (charOff j + 1) ≠ 0 then 63 else s (charOff j) := by
  have hu := unit_toNat s j
  have h1 := (s (charOff j)).toNat_lt
  by_cases hhi : s (charOff j + 1) = 0
  · have hz : (s (charOff j + 1)).toNat = 0 := by rw [hhi]; rfl
    have hlt : (unit s j).toNat < 256 := by omega
    have heq : (unit s j).toNat = (s (charOff j)).toNat := by omega
    rw [glyph, if_pos hlt, if_neg (not_not_intro hhi), heq]
    exact UInt8.ofNat_toNat
  · have hnz : (s (charOff j + 1)).toNat ≠ 0 := by
      intro h
      exact hhi (UInt8.toNat_inj.mp h)
    rw [glyph, if_neg (by omega), if_pos hhi]

theorem collectFrom_eq_lay (s : Bytes) (base : Nat) : ∀ (n j : Nat) (t : Lfn), collectFrom s base (range' j n) t
      = lay t (base + j) (legible ((range' j n).map (unit s))) := by
  intro n
  induction n with
  | zero => intro j t; rfl
  | succ n ih =>
    intro j t
    rw [range'_succ]
    show (if s (charOff j + 1) = 0 ∧ (s (charOff j) = 0 ∨ s (charOff j) = 0xFF) then t else _) = _
    by_cases hs : Stops (unit s j)
    · rw [if_pos ((stops_unit_iff s j).mp hs)]
      simp [legible, hs, lay]
    · rw [if_neg fun h => hs ((stops_unit_iff s j).mpr h), ih, ← glyph_unit]
      simp [legible, hs, lay, Nat.add_assoc]

theorem legible_padded (us : List UInt16) (hlen : us.length ≤ 13) : legible (padded us) = legible us := by
  have hstop : Stops 0 := Or.inl rfl
  rcases Nat.lt_or_ge us.length 13 with h | h
  · have hp : padded us = us ++ 0 :: replicate (12 - us.length) 0xFFFF := by
      rw [padded, take_append, take_of_length_le hlen]
      obtain ⟨k, hk⟩ : ∃ k, 13 - us.length = k + 1 := ⟨12 - us.length, by omega⟩
      rw [hk, take_succ_cons, take_replicate]
      congr 3
      omega
    rw [hp, legible, legible, takeWhile_append]
    split
    · rename_i hall
      rw [takeWhile_cons_of_neg (by simp [hstop]), append_nil, (List.takeWhile_prefix _).eq_of_length hall]
    · rfl
  · rw [padded, take_append_of_le_length h, take_of_length_le hlen]

/-- **One entry of a run**: it lays its piece. -/
theorem collectLfn_eq_lay (s : Bytes) (t : Lfn) (us : List UInt16)
    (hs : (range 13).map (unit s) = padded us) (hlen : us.length ≤ 13) :
    collectLfn s t = lay t ((seqOf s - 1) * 13) (legible us) := by
  rw [collectLfn, range_eq_range', collectFrom_eq_lay, ← range_eq_range', hs, legible_padded us hlen]
  rfl

end Aegir.Fat32
