/-
  Little-endian fields of a byte buffer.

  A buffer gives its byte at each offset.  `le b off n` reads the `n` bytes at `off` as one number and
  `putLe b off n v` writes the `n` low bytes of `v` there.  Reading back what was written gives `v`
  modulo `256 ^ n`; reading anything that does not overlap the written field gives what was there
  before.
-/
import Mathlib.Logic.Function.Basic
import Mathlib.Data.Nat.Bitwise

open Function

namespace Aegir.Lib

/-- A buffer, byte by byte. -/
abbrev Bytes : Type := Nat → UInt8

/-- The number in the `n` bytes at `off`. -/
def le (b : Bytes) (off : Nat) : Nat → Nat
  | 0 => 0
  | n + 1 => (b off).toNat + 256 * le b (off + 1) n

/-- The buffer with the `n` low bytes of `v` at `off`. -/
def putLe (b : Bytes) (off : Nat) : Nat → Nat → Bytes
  | 0, _ => b
  | n + 1, v => putLe (update b off (UInt8.ofNat v)) (off + 1) n (v / 256)

theorem le_lt (b : Bytes) (off n : Nat) : le b off n < 256 ^ n := by
  induction n generalizing off with
  | zero => exact Nat.one_pos
  | succ n ih =>
    have hb : (b off).toNat < 256 := (b off).toNat_lt
    have hr := ih (off + 1)
    show (b off).toNat + 256 * le b (off + 1) n < 256 ^ (n + 1)
    omega

/-- Only the bytes of the field are read. -/
theorem le_congr (b b' : Bytes) (off n : Nat) (h : ∀ i, off ≤ i → i < off + n → b i = b' i) :
    le b off n = le b' off n := by
  induction n generalizing off with
  | zero => rfl
  | succ n ih =>
    show (b off).toNat + 256 * le b (off + 1) n = (b' off).toNat + 256 * le b' (off + 1) n
    rw [h off (Nat.le_refl _) (by omega), ih (off + 1) fun i h1 h2 => h i (by omega) (by omega)]

/-- Bytes outside the field are left alone. -/
theorem putLe_outside (b : Bytes) (off n v i : Nat) (h : i < off ∨ off + n ≤ i) : putLe b off n v i = b i := by
  induction n generalizing b off v with
  | zero => rfl
  | succ n ih =>
    show putLe (update b off (UInt8.ofNat v)) (off + 1) n (v / 256) i = b i
    rw [ih _ (off + 1) _ (by omega)]
    exact update_of_ne (by omega) _ _

/-- **Read back.** -/
@[simp]
theorem le_putLe (b : Bytes) (off n v : Nat) : le (putLe b off n v) off n = v % 256 ^ n := by
  induction n generalizing b off v with
  | zero => rw [Nat.pow_zero, Nat.mod_one]; rfl
  | succ n ih =>
    have hfirst : (putLe b off (n + 1) v off).toNat = v % 256 := by
      show (putLe (update b off (UInt8.ofNat v)) (off + 1) n (v / 256) off).toNat = _
      rw [putLe_outside _ _ _ _ _ (by omega), update_self]
      exact UInt8.toNat_ofNat'
    have hrest : le (putLe b off (n + 1) v) (off + 1) n = v / 256 % 256 ^ n := ih _ _ _
    show (putLe b off (n + 1) v off).toNat + 256 * le (putLe b off (n + 1) v) (off + 1) n = _
    rw [hfirst, hrest, Nat.pow_succ, Nat.mul_comm (256 ^ n) 256, Nat.mod_mul]

/-- Fields that do not overlap do not disturb each other. -/
theorem le_putLe_disjoint (b : Bytes) (off n v off' n' : Nat) (h : off' + n' ≤ off ∨ off + n ≤ off') :
    le (putLe b off n v) off' n' = le b off' n' :=
  le_congr _ _ _ _ fun i h1 h2 => putLe_outside b off n v i (by omega)

/-!
## Bits of a byte buffer

Bit `i` of a buffer is bit `i % 8` of its byte `i / 8`.  Tests and updates are written with masks, as programs
write them; `bitTest_setBit` and `bitTest_setBits` say what they mean: a set bit is set, the others are as
they were.
-/

/-- The mask of one bit. -/
def bitMask (i : Nat) : UInt8 := 1 <<< UInt8.ofNat i

/-- Whether bit `i` is set. -/
def bitTest (b : Bytes) (i : Nat) : Bool := b (i / 8) &&& bitMask (i % 8) ≠ 0

/-- The buffer with bit `i` set. -/
def setBit (b : Bytes) (i : Nat) : Bytes := update b (i / 8) (b (i / 8) ||| bitMask (i % 8))

/-- The buffer with the `n` bits from `off` on set. -/
def setBits (b : Bytes) (off : Nat) : Nat → Bytes
  | 0 => b
  | n + 1 => setBit (setBits b off n) (off + n)

theorem toNat_bitMask {i : Nat} (h : i < 8) : (bitMask i).toNat = 2 ^ i := by
  revert i
  decide

/-- A masked byte tells its bit. -/
theorem and_bitMask {x : UInt8} {i : Nat} (h : i < 8) : decide (x &&& bitMask i ≠ 0) = x.toNat.testBit i := by
  have hzero : x &&& bitMask i = 0 ↔ (x.toNat.testBit i).toNat * 2 ^ i = 0 := by
    rw [← Nat.and_two_pow, ← toNat_bitMask h, ← UInt8.toNat_and, ← UInt8.toNat_inj]
    rfl
  have hpos : 2 ^ i ≠ 0 := (Nat.two_pow_pos i).ne'
  cases hbit : x.toNat.testBit i with
  | false =>
    rw [decide_eq_false_iff_not, not_not, hzero, hbit]
    exact Nat.zero_mul _
  | true =>
    rw [decide_eq_true_iff]
    intro hz
    rw [hzero, hbit, Bool.toNat_true, Nat.one_mul] at hz
    exact hpos hz

theorem bitTest_eq (b : Bytes) (i : Nat) : bitTest b i = (b (i / 8)).toNat.testBit (i % 8) :=
  and_bitMask (Nat.mod_lt i (by decide))

/-- **Setting a bit** sets that one. -/
theorem bitTest_setBit (b : Bytes) (i j : Nat) : bitTest (setBit b i) j = (decide (j = i) || bitTest b j) := by
  have hi := Nat.mod_lt i (by decide : 0 < 8)
  rw [bitTest_eq, bitTest_eq]
  unfold setBit
  by_cases hbyte : j / 8 = i / 8
  · rw [hbyte, update_self, UInt8.toNat_or, Nat.testBit_or, toNat_bitMask hi, Nat.testBit_two_pow, Bool.or_comm]
    have hsame : (i % 8 = j % 8) = (j = i) := by
      rw [eq_iff_iff]
      omega
    simp only [hsame]
  · have hne : j ≠ i := fun heq => hbyte (heq ▸ rfl)
    rw [update_of_ne hbyte, decide_eq_false hne, Bool.false_or]

/-- **Setting a run of bits** sets those. -/
theorem bitTest_setBits (b : Bytes) (off n j : Nat) :
    bitTest (setBits b off n) j = (decide (off ≤ j ∧ j < off + n) || bitTest b j) := by
  induction n with
  | zero =>
    rw [decide_eq_false (by omega), Bool.false_or]
    rfl
  | succ n ih =>
    unfold setBits
    rw [bitTest_setBit, ih, ← Bool.or_assoc, ← Bool.decide_or]
    have hrun : (j = off + n ∨ off ≤ j ∧ j < off + n) = (off ≤ j ∧ j < off + (n + 1)) := by
      rw [eq_iff_iff]
      omega
    simp only [hrun]

end Aegir.Lib
