/-
  Raw block volumes: reads and writes at byte offsets of a device that knows sectors.

  A request moves up to `Buf_Bytes` bytes, in pieces of at most eight sectors, through ONE PAGE of the
  server's own; a write whose range does not end at sector bounds reads the sectors first.

  `fate n` is how the device answers the `n`-th call.  A write that fails may have stored any of its sectors,
  a read that fails may leave anything in the bounce buffer.  `log` is for the statements alone.
-/
import Aegir.Block.Driver
import Aegir.Fileserver.Tables
import Aegir.Lib.Ranges
import Mathlib.Order.Interval.Set.Defs

namespace Aegir.Fileserver.Blocks

open Aegir.Lib

/-! ## The device behind its endpoint -/

/-- `Files.Buf_Pages * Syscalls.Page_Size`. -/
def bufBytes : Nat := 8 * pageSize

/-- How a call ends. -/
inductive Fate
  | done
  /-- What a failed write has stored, by sector, and what a failed read leaves in the bounce buffer. -/
  | failed (stored : Nat → Bool) (left : Nat → UInt8)

/-- What a handler did: a call to the device, or a copy between the bounce buffer and the client's. -/
inductive Event
  | call (sector nsec : Nat)
  | copy (bounceAt windowAt chunk : Nat)

/-- The device, the bounce buffer `Blk_Buf`, and the client's buffer as mapped at `Buf_Win_VA`; `size` is
    `Blk_Size`. -/
structure Side where
  size : UInt64
  disk : Nat → UInt8
  bounce : Nat → UInt8
  window : Nat → UInt8
  fate : Nat → Fate
  calls : Nat
  log : List Event

namespace Side

/-- The driver's own check of a request, with the largest count it takes. -/
def accepts (s : Side) (sector nsec limit : Nat) : Bool :=
  VirtioBlk.rangeOk (s.size / 512) (UInt64.ofNat sector) (UInt64.ofNat nsec) (UInt64.ofNat limit)

/-- A call made. -/
def called (s : Side) (sector nsec : Nat) : Side :=
  { s with calls := s.calls + 1, log := s.log ++ [.call sector nsec] }

/-- `Blk_Read` of `nsec` sectors into the bounce buffer; whether it succeeded. -/
def blkRead (s : Side) (sector nsec : Nat) : Side × Bool :=
  if s.accepts sector nsec 64 then
    match s.fate s.calls with
    | .done => ({ s.called sector nsec with bounce := copyRange s.disk (sector * 512) s.bounce 0 (nsec * 512) }, true)
    | .failed _ left => ({ s.called sector nsec with bounce := left }, false)
  else (s.called sector nsec, false)

/-- `Blk_Write` of `nsec` sectors from the bounce buffer. -/
def blkWrite (s : Side) (sector nsec : Nat) : Side × Bool :=
  let written := copyRange s.bounce 0 s.disk (sector * 512) (nsec * 512)
  if s.accepts sector nsec 8 then
    match s.fate s.calls with
    | .done => ({ s.called sector nsec with disk := written }, true)
    | .failed stored _ =>
      ({ s.called sector nsec with disk := fun i => if stored (i / 512) then written i else s.disk i }, false)
  else (s.called sector nsec, false)

/-- `Dst := Src` from the bounce buffer to the client's. -/
def copyOut (s : Side) (skip done chunk : Nat) : Side :=
  { s with
    window := copyRange s.bounce skip s.window done chunk
    log := s.log ++ [.copy skip done chunk] }

/-- `Dst := Src` from the client's buffer to the bounce buffer. -/
def copyIn (s : Side) (skip done chunk : Nat) : Side :=
  { s with
    bounce := copyRange s.window done s.bounce skip chunk
    log := s.log ++ [.copy skip done chunk] }

end Side

/-! ## The pieces of a request -/

/-- `Skip`. -/
def skipAt (offset done : Nat) : Nat := (offset + done) % 512

/-- `NSec`. -/
def nsecAt (offset count done : Nat) : Nat := min 8 ((count - done + skipAt offset done + 511) / 512)

/-- `Chunk`. -/
def chunkAt (offset count done : Nat) : Nat :=
  min (nsecAt offset count done * 512 - skipAt offset done) (count - done)

/-- Whether a write reads its sectors first. -/
def partialAt (offset count done : Nat) : Bool :=
  skipAt offset done ≠ 0 ∨ (count - done + skipAt offset done) % 512 ≠ 0

theorem nsecAt_pos (offset count done : Nat) (h : done < count) : 1 ≤ nsecAt offset count done := by
  have hround : 1 ≤ (count - done + skipAt offset done + 511) / 512 := by omega
  exact le_min (by decide) hround

theorem nsecAt_le (offset count done : Nat) : nsecAt offset count done ≤ 8 := min_le_left _ _

theorem skipAt_lt (offset done : Nat) : skipAt offset done < 512 := Nat.mod_lt _ (by decide)

theorem chunkAt_pos (offset count done : Nat) (h : done < count) : 0 < chunkAt offset count done := by
  have hn := nsecAt_pos offset count done h
  have hs := skipAt_lt offset done
  exact lt_min (by omega) (by omega)

theorem chunkAt_le (offset count done : Nat) : chunkAt offset count done ≤ count - done := min_le_right _ _

/-! ## The loops -/

namespace Side

/-- The loop of both handlers: `piece` is what one turn does, and whether it goes on. -/
def pieceLoop (piece : Side → Nat → Side × Bool) (offset count : Nat) (s : Side) (done : Nat) : Side × Bool :=
  if done < count then
    let turn := piece s done
    if turn.2 then pieceLoop piece offset count turn.1 (done + chunkAt offset count done) else turn
  else (s, true)
termination_by count - done
decreasing_by
  have hpos := chunkAt_pos offset count done (by assumption)
  omega

/-- One turn of the loop of `Handle_Block_Read`. -/
def readPiece (offset count : Nat) (s : Side) (done : Nat) : Side × Bool :=
  match s.blkRead ((offset + done) / 512) (nsecAt offset count done) with
  | (s, false) => (s, false)
  | (s, true) => (s.copyOut (skipAt offset done) done (chunkAt offset count done), true)

/-- The sectors of a piece read first, where the piece does not cover them. -/
def preRead (offset count : Nat) (s : Side) (done : Nat) : Side × Bool :=
  if partialAt offset count done then s.blkRead ((offset + done) / 512) (nsecAt offset count done) else (s, true)

/-- One turn of the loop of `Handle_Block_Write`. -/
def writePiece (offset count : Nat) (s : Side) (done : Nat) : Side × Bool :=
  match preRead offset count s done with
  | (s, false) => (s, false)
  | (s, true) =>
    (s.copyIn (skipAt offset done) done (chunkAt offset count done)).blkWrite
      ((offset + done) / 512) (nsecAt offset count done)

/-- The loop of `Handle_Block_Read`. -/
def readLoop (s : Side) (offset count : Nat) : Side × Bool :=
  pieceLoop (readPiece offset count) offset count s 0

/-- The loop of `Handle_Block_Write`. -/
def writeLoop (s : Side) (offset count : Nat) : Side × Bool :=
  pieceLoop (writePiece offset count) offset count s 0

end Side

/-! ## The handlers -/

/-- What a handler leaves: `Status`, `Count`, `Mapped`. -/
structure Answered where
  side : Side
  status : Nat
  count : UInt64
  mapped : Bool

/-- `Count`, once both minima are taken. -/
def countOf (size offset length : UInt64) : UInt64 := min (min length (size - offset)) (UInt64.ofNat bufBytes)

/-- The frame of both handlers around their loop; `ensured` and `mapped` are what `Ensure_Blk_Buf` and
    `Map_Buf` return. -/
def Side.handle (s : Side) (loop : Nat → Side × Bool) (offset length : UInt64) (ensured mapped : Bool) :
    Answered :=
  if s.size = 0 ∨ s.size ≤ offset then ⟨s, statusOutOfRange, 0, false⟩
  else if ensured = false then ⟨s, statusBadArgs, 0, false⟩
  else if mapped = false then ⟨s, statusNotFound, 0, false⟩
  else
    match loop (countOf s.size offset length).toNat with
    | (s', true) => ⟨s', statusOk, countOf s.size offset length, true⟩
    | (s', false) => ⟨s', statusNotFound, 0, true⟩

/-- `Handle_Block_Read`. -/
def Side.handleBlockRead (s : Side) (offset length : UInt64) (ensured mapped : Bool) : Answered :=
  s.handle (s.readLoop offset.toNat) offset length ensured mapped

/-- `Handle_Block_Write`. -/
def Side.handleBlockWrite (s : Side) (offset length : UInt64) (ensured mapped : Bool) : Answered :=
  s.handle (s.writeLoop offset.toNat) offset length ensured mapped

/-!
## A raw block volume is an array of bytes

One PIECE of a request moves its own range of bytes and no other: with the sectors read first by the law of
read-modify-write, without because it covers them.  The loop is a run of pieces, and its invariant is that
the range from `Offset` to `Offset + Done` has been moved.
-/

/-! ## What stays inside -/

/-- A call of one to eight sectors inside the device; a copy inside the bounce page and the window. -/
def Event.Inside (size : Nat) : Event → Prop
  | .call sector nsec => 1 ≤ nsec ∧ nsec ≤ 8 ∧ (sector + nsec) * 512 ≤ size
  | .copy bounceAt windowAt chunk => bounceAt + chunk ≤ pageSize ∧ windowAt + chunk ≤ bufBytes

/-- A request whose range lies in the device and in the window. -/
structure InDevice (size offset count : Nat) : Prop where
  sectors : size % 512 = 0
  range : offset + count ≤ size
  window : count ≤ bufBytes

section Pieces

variable {size offset count done : Nat}

theorem call_inside (h : InDevice size offset count) (hdone : done < count) :
    (Event.call ((offset + done) / 512) (nsecAt offset count done)).Inside size := by
  have hsectors := h.sectors
  have hrange := h.range
  have hround : nsecAt offset count done ≤ (count - done + (offset + done) % 512 + 511) / 512 := min_le_right _ _
  exact ⟨nsecAt_pos offset count done hdone, nsecAt_le offset count done, by omega⟩

theorem piece_le (offset : Nat) (hdone : done < count) :
    skipAt offset done + chunkAt offset count done ≤ nsecAt offset count done * 512 := by
  have hpos := nsecAt_pos offset count done hdone
  have hskip := skipAt_lt offset done
  have hchunk : chunkAt offset count done ≤ nsecAt offset count done * 512 - skipAt offset done := min_le_left _ _
  omega

theorem copy_inside (h : InDevice size offset count) (hdone : done < count) :
    (Event.copy (skipAt offset done) done (chunkAt offset count done)).Inside size := by
  have hpiece := piece_le offset hdone
  have hn := nsecAt_le offset count done
  have hchunk := chunkAt_le offset count done
  have hwindow := h.window
  exact ⟨show _ ≤ 4096 by omega, by omega⟩

theorem whole_piece (hdone : done < count) (h : partialAt offset count done = false) :
    skipAt offset done = 0 ∧ chunkAt offset count done = nsecAt offset count done * 512 := by
  simp only [partialAt, decide_eq_false_iff_not, not_or, ne_eq, not_not] at h
  obtain ⟨hskip, hrest⟩ := h
  refine ⟨hskip, ?_⟩
  have hn : nsecAt offset count done ≤ (count - done + skipAt offset done + 511) / 512 := min_le_right _ _
  rw [chunkAt, hskip]
  exact min_eq_left (by omega)

end Pieces

/-! ## The device -/

theorem accepts_of_inside {s : Side} {sector nsec limit : Nat}
    (h : (Event.call sector nsec).Inside s.size.toNat) (hlimit : 8 ≤ limit) (hword : limit < 2 ^ 64) :
    s.accepts sector nsec limit = true := by
  obtain ⟨hpos, hmax, hin⟩ := h
  have hsize := s.size.toNat_lt
  have hcapacity : (s.size / 512).toNat = s.size.toNat / 512 := UInt64.toNat_div _ _
  have hsector : (UInt64.ofNat sector).toNat = sector := UInt64.toNat_ofNat_of_lt' (show sector < 2 ^ 64 by omega)
  have hnsec : (UInt64.ofNat nsec).toNat = nsec := UInt64.toNat_ofNat_of_lt' (show nsec < 2 ^ 64 by omega)
  have hlim : (UInt64.ofNat limit).toNat = limit := UInt64.toNat_ofNat_of_lt' hword
  simp only [Side.accepts, VirtioBlk.rangeOk, decide_eq_true_eq]
  refine ⟨fun h0 => ?_, ?_, ?_⟩
  · rw [h0] at hnsec
    have hzero : (0 : UInt64).toNat = 0 := rfl
    omega
  · rw [UInt64.le_iff_toNat_le]
    omega
  · rw [UInt64.le_iff_toNat_le, UInt64.toNat_add, hsector, hnsec, hcapacity, Nat.mod_eq_of_lt (by omega)]
    omega

/-- `s'` is `s` after calls and copies that stay inside, with bytes changed in these places only. -/
structure OnlyWithin (disk window : Set Nat) (s s' : Side) : Prop where
  size : s'.size = s.size
  fate : s'.fate = s.fate
  calls : s.calls ≤ s'.calls
  disk : ∀ i, i ∉ disk → s'.disk i = s.disk i
  window : ∀ i, i ∉ window → s'.window i = s.window i
  log : ∃ es, s'.log = s.log ++ es ∧ ∀ e ∈ es, e.Inside s.size.toNat

namespace OnlyWithin

variable {disk window : Set Nat} {s s' s'' : Side}

theorem refl (disk window : Set Nat) (s : Side) : OnlyWithin disk window s s :=
  ⟨rfl, rfl, Nat.le_refl _, fun _ _ => rfl, fun _ _ => rfl, [], by simp, by simp⟩

theorem trans (h : OnlyWithin disk window s s') (h' : OnlyWithin disk window s' s'') :
    OnlyWithin disk window s s'' := by
  obtain ⟨es, hes, hin⟩ := h.log
  obtain ⟨es', hes', hin'⟩ := h'.log
  constructor
  · exact h'.size.trans h.size
  · exact h'.fate.trans h.fate
  · exact h.calls.trans h'.calls
  · exact fun i hi => (h'.disk i hi).trans (h.disk i hi)
  · exact fun i hi => (h'.window i hi).trans (h.window i hi)
  · refine ⟨es ++ es', by rw [hes', hes, List.append_assoc], fun e he => ?_⟩
    rcases List.mem_append.mp he with he | he
    · exact hin e he
    · rw [← h.size]
      exact hin' e he

end OnlyWithin

/-- Some call from now on fails. -/
def SomeFails (s : Side) : Prop := ∃ n, s.calls ≤ n ∧ s.fate n ≠ .done

theorem SomeFails.of_later {disk window : Set Nat} {s s' : Side} (h : OnlyWithin disk window s s')
    (hfails : SomeFails s') : SomeFails s := by
  obtain ⟨n, hle, hne⟩ := hfails
  rw [h.fate] at hne
  exact ⟨n, h.calls.trans hle, hne⟩

section Device

variable {disk window : Set Nat} {s s' : Side} {sector nsec : Nat}

theorem blkRead_spec (h : (Event.call sector nsec).Inside s.size.toNat) {ok : Bool}
    (hread : s.blkRead sector nsec = (s', ok)) :
    OnlyWithin disk window s s' ∧ s'.disk = s.disk ∧ s'.window = s.window ∧
      (ok = true → s'.bounce = copyRange s.disk (sector * 512) s.bounce 0 (nsec * 512)) ∧
      (ok = false → SomeFails s) := by
  rw [Side.blkRead, if_pos (accepts_of_inside h (by decide) (by decide))] at hread
  have hlog : ∃ es, (s.called sector nsec).log = s.log ++ es ∧ ∀ e ∈ es, e.Inside s.size.toNat :=
    ⟨[.call sector nsec], rfl, fun e he => by rw [List.mem_singleton.mp he]; exact h⟩
  have hcalls : s.calls ≤ s.calls + 1 := Nat.le_succ _
  split at hread <;> obtain ⟨rfl, rfl⟩ := Prod.mk.inj hread
  · exact ⟨⟨rfl, rfl, hcalls, fun _ _ => rfl, fun _ _ => rfl, hlog⟩, rfl, rfl, fun _ => rfl, nofun⟩
  · rename_i hfate
    exact ⟨⟨rfl, rfl, hcalls, fun _ _ => rfl, fun _ _ => rfl, hlog⟩, rfl, rfl, nofun,
      fun _ => ⟨s.calls, Nat.le_refl _, by rw [hfate]; exact nofun⟩⟩

/-- A write inside the device stores the bounce buffer; one that fails stores some of its sectors. -/
theorem blkWrite_spec (h : (Event.call sector nsec).Inside s.size.toNat) {ok : Bool}
    (hkeep : ∀ i, i ∉ disk → copyRange s.bounce 0 s.disk (sector * 512) (nsec * 512) i = s.disk i)
    (hwrite : s.blkWrite sector nsec = (s', ok)) :
    OnlyWithin disk window s s' ∧ s'.window = s.window ∧
      (ok = true → s'.disk = copyRange s.bounce 0 s.disk (sector * 512) (nsec * 512)) ∧
      (ok = false → SomeFails s) := by
  simp only [Side.blkWrite] at hwrite
  rw [if_pos (accepts_of_inside h (by decide) (by decide))] at hwrite
  have hlog : ∃ es, (s.called sector nsec).log = s.log ++ es ∧ ∀ e ∈ es, e.Inside s.size.toNat :=
    ⟨[.call sector nsec], rfl, fun e he => by rw [List.mem_singleton.mp he]; exact h⟩
  have hcalls : s.calls ≤ s.calls + 1 := Nat.le_succ _
  split at hwrite <;> obtain ⟨rfl, rfl⟩ := Prod.mk.inj hwrite
  · exact ⟨⟨rfl, rfl, hcalls, hkeep, fun _ _ => rfl, hlog⟩, rfl, fun _ => rfl, nofun⟩
  · rename_i stored left hfate
    refine ⟨⟨rfl, rfl, hcalls, fun i hi => ?_, fun _ _ => rfl, hlog⟩, rfl, nofun,
      fun _ => ⟨s.calls, Nat.le_refl _, by rw [hfate]; exact nofun⟩⟩
    show (if stored (i / 512) then _ else _) = _
    rw [hkeep i hi, ite_self]

end Device

/-! ## The loop -/

/-- **The rule of the loop.**  `I` holds before every turn, of the state and of what is done; a turn that ends
    the loop early leaves `Q`. -/
theorem pieceLoop_rule {piece : Side → Nat → Side × Bool} {offset count : Nat} {I : Nat → Side → Prop}
    {Q : Side → Prop}
    (hgoes : ∀ s done, done < count → I done s → (piece s done).2 = true →
      I (done + chunkAt offset count done) (piece s done).1)
    (hstops : ∀ s done, done < count → I done s → (piece s done).2 = false → Q (piece s done).1)
    (s : Side) (done : Nat) (hle : done ≤ count) (hI : I done s) :
    ((Side.pieceLoop piece offset count s done).2 = true → I count (Side.pieceLoop piece offset count s done).1) ∧
      ((Side.pieceLoop piece offset count s done).2 = false → Q (Side.pieceLoop piece offset count s done).1) := by
  fun_induction Side.pieceLoop piece offset count s done with
  | case1 s done hlt turn hok ih =>
    have hchunk := chunkAt_le offset count done
    exact ih (by omega) (hgoes s done hlt hI hok)
  | case2 s done hlt turn hfail =>
    exact ⟨fun hok => absurd hok hfail, fun hno => hstops s done hlt hI hno⟩
  | case3 s done hend =>
    have heq : done = count := by omega
    exact ⟨fun _ => heq ▸ hI, nofun⟩

section Loops

variable {s s₀ : Side} {offset count done : Nat}

/-- The bytes a request is about. -/
def span (offset count : Nat) : Set Nat := Set.Ico offset (offset + count)

/-- Before each turn of the read loop. -/
structure ReadSoFar (s₀ : Side) (count offset done : Nat) (s : Side) : Prop where
  within : OnlyWithin ∅ (span 0 count) s₀ s
  moved : s.window = copyRange s₀.disk offset s₀.window 0 done

/-- Before each turn of the write loop. -/
structure WrittenSoFar (s₀ : Side) (count offset done : Nat) (s : Side) : Prop where
  within : OnlyWithin (span offset count) ∅ s₀ s
  moved : s.disk = copyRange s₀.window 0 s₀.disk offset done

theorem ReadSoFar.disk (h : ReadSoFar s₀ count offset done s) : s.disk = s₀.disk :=
  funext fun i => h.within.disk i (by simp)

theorem WrittenSoFar.window (h : WrittenSoFar s₀ count offset done s) : s.window = s₀.window :=
  funext fun i => h.within.window i (by simp)

theorem readPiece_spec (hdev : InDevice s₀.size.toNat offset count) (hlt : done < count)
    (h : ReadSoFar s₀ count offset done s) :
    ((Side.readPiece offset count s done).2 = true →
      ReadSoFar s₀ count offset (done + chunkAt offset count done) (Side.readPiece offset count s done).1) ∧
    ((Side.readPiece offset count s done).2 = false →
      OnlyWithin ∅ (span 0 count) s₀ (Side.readPiece offset count s done).1 ∧ SomeFails s₀) := by
  have hdev' : InDevice s.size.toNat offset count := by rw [h.within.size]; exact hdev
  have hpiece := piece_le offset hlt
  have hchunk := chunkAt_le offset count done
  have hpos : (offset + done) / 512 * 512 + skipAt offset done = offset + done := Nat.div_add_mod' _ _
  generalize hread : s.blkRead ((offset + done) / 512) (nsecAt offset count done) = r
  obtain ⟨s', ok⟩ := r
  obtain ⟨hwithin, hdisk, hwindow, hbounce, hfails⟩ := blkRead_spec (call_inside hdev' hlt) hread
  rw [Side.readPiece, hread]
  cases ok with
  | false => exact ⟨nofun, fun _ => ⟨h.within.trans hwithin, (hfails rfl).of_later h.within⟩⟩
  | true =>
    refine ⟨fun _ => ?_, nofun⟩
    have hbytes : copyRange s'.bounce (skipAt offset done) s'.window done (chunkAt offset count done) =
        copyRange s₀.disk (offset + done) s.window done (chunkAt offset count done) := by
      rw [hbounce rfl, copyRange_copyRange _ _ _ _ _ _ _ _ hpiece, hpos, hwindow, h.disk]
    constructor
    · refine (h.within.trans hwithin).trans ⟨rfl, rfl, Nat.le_refl _, fun _ _ => rfl, fun i hi => ?_, ?_⟩
      · refine copyRange_outside _ _ _ _ _ _ fun hin => hi ?_
        exact ⟨Nat.zero_le _, by omega⟩
      · refine ⟨[_], rfl, fun e he => ?_⟩
        rw [List.mem_singleton.mp he, hwithin.size]
        exact copy_inside hdev' hlt
    · show copyRange _ _ _ _ _ = _
      rw [hbytes, h.moved]
      have happend := copyRange_append s₀.disk s₀.window offset 0 done (chunkAt offset count done)
      rwa [Nat.zero_add] at happend

/-- One turn of the write loop changes the bytes of its piece: whatever was read first, what goes back to the
    device is what it had with the piece laid over it. -/
theorem writePiece_bytes (hlt : done < count) {s' : Side} (hwindow : s'.window = s.window)
    (hdisk : s'.disk = s.disk)
    (hbounce : partialAt offset count done = true →
      s'.bounce = copyRange s.disk ((offset + done) / 512 * 512) s.bounce 0 (nsecAt offset count done * 512)) :
    copyRange (s'.copyIn (skipAt offset done) done (chunkAt offset count done)).bounce 0 s'.disk
        ((offset + done) / 512 * 512) (nsecAt offset count done * 512) =
      copyRange s.window done s.disk (offset + done) (chunkAt offset count done) := by
  have hpos : (offset + done) / 512 * 512 + skipAt offset done = offset + done := Nat.div_add_mod' _ _
  have hpiece := piece_le offset hlt
  show copyRange (copyRange s'.window done s'.bounce (skipAt offset done) (chunkAt offset count done)) 0 s'.disk
    ((offset + done) / 512 * 512) (nsecAt offset count done * 512) = _
  rw [hwindow, hdisk]
  cases hpart : partialAt offset count done with
  | true =>
    rw [hbounce hpart, copyRange_through _ _ _ _ _ _ _ _ hpiece, hpos]
  | false =>
    obtain ⟨hskip, hwhole⟩ := whole_piece hlt hpart
    rw [hskip, Nat.add_zero] at hpos
    rw [hskip, hwhole, hpos, copyRange_copyRange _ _ _ _ _ _ _ _ (by omega), Nat.add_zero]

theorem preRead_spec (hin : (Event.call ((offset + done) / 512) (nsecAt offset count done)).Inside s.size.toNat)
    {s' : Side} {ok : Bool} (hpre : Side.preRead offset count s done = (s', ok)) (disk window : Set Nat) :
    OnlyWithin disk window s s' ∧ s'.disk = s.disk ∧ s'.window = s.window ∧
      (ok = true → partialAt offset count done = true →
        s'.bounce = copyRange s.disk ((offset + done) / 512 * 512) s.bounce 0 (nsecAt offset count done * 512)) ∧
      (ok = false → SomeFails s) := by
  rw [Side.preRead] at hpre
  cases hpart : partialAt offset count done with
  | true =>
    rw [if_pos hpart] at hpre
    obtain ⟨hwithin, hdisk, hwindow, hbounce, hfails⟩ := blkRead_spec hin hpre
    exact ⟨hwithin, hdisk, hwindow, fun hok _ => hbounce hok, hfails⟩
  | false =>
    rw [if_neg (by rw [hpart]; decide)] at hpre
    obtain ⟨rfl, rfl⟩ := Prod.mk.inj hpre
    exact ⟨.refl _ _ _, rfl, rfl, nofun, nofun⟩

theorem writePiece_spec (hdev : InDevice s₀.size.toNat offset count) (hlt : done < count)
    (h : WrittenSoFar s₀ count offset done s) :
    ((Side.writePiece offset count s done).2 = true →
      WrittenSoFar s₀ count offset (done + chunkAt offset count done) (Side.writePiece offset count s done).1) ∧
    ((Side.writePiece offset count s done).2 = false →
      OnlyWithin (span offset count) ∅ s₀ (Side.writePiece offset count s done).1 ∧ SomeFails s₀) := by
  have hdev' : InDevice s.size.toNat offset count := by rw [h.within.size]; exact hdev
  have hchunk := chunkAt_le offset count done
  have hin := call_inside hdev' hlt
  generalize hpre : Side.preRead offset count s done = r
  obtain ⟨s', ok⟩ := r
  obtain ⟨hwithin, hdisk, hwindow, hbounce, hfails⟩ := preRead_spec hin hpre (span offset count) ∅
  rw [Side.writePiece, hpre]
  cases ok with
  | false => exact ⟨nofun, fun _ => ⟨h.within.trans hwithin, (hfails rfl).of_later h.within⟩⟩
  | true =>
    dsimp only
    have hbytes := writePiece_bytes hlt hwindow hdisk (hbounce rfl)
    have hcopied : OnlyWithin (span offset count) ∅ s'
        (s'.copyIn (skipAt offset done) done (chunkAt offset count done)) := by
      refine ⟨rfl, rfl, Nat.le_refl _, fun _ _ => rfl, fun _ _ => rfl, [_], rfl, fun e he => ?_⟩
      rw [List.mem_singleton.mp he, hwithin.size]
      exact copy_inside hdev' hlt
    have hbefore := (h.within.trans hwithin).trans hcopied
    generalize hwrite : (s'.copyIn (skipAt offset done) done (chunkAt offset count done)).blkWrite
      ((offset + done) / 512) (nsecAt offset count done) = w
    obtain ⟨s'', ok⟩ := w
    have hkeep : ∀ i, i ∉ span offset count →
        copyRange (s'.copyIn (skipAt offset done) done (chunkAt offset count done)).bounce 0 s'.disk
          ((offset + done) / 512 * 512) (nsecAt offset count done * 512) i = s'.disk i := by
      intro i hi
      rw [hbytes, hdisk]
      refine copyRange_outside _ _ _ _ _ _ fun hpiece => hi ?_
      exact ⟨by omega, by omega⟩
    rw [← hwithin.size] at hin
    obtain ⟨hwithin', hwindow', hstored, hfails'⟩ := blkWrite_spec (s := s'.copyIn _ _ _) hin hkeep hwrite
    refine ⟨fun hok => ⟨hbefore.trans hwithin', ?_⟩, fun hno => ?_⟩
    · show s''.disk = _
      rw [hstored hok]
      refine hbytes.trans ?_
      rw [h.moved, h.window]
      have happend := copyRange_append s₀.window s₀.disk 0 offset done (chunkAt offset count done)
      rwa [Nat.zero_add] at happend
    · exact ⟨hbefore.trans hwithin', (hfails' hno).of_later hbefore⟩

theorem readLoop_spec (hdev : InDevice s.size.toNat offset count) :
    ((s.readLoop offset count).2 = true → ReadSoFar s count offset count (s.readLoop offset count).1) ∧
      ((s.readLoop offset count).2 = false →
        OnlyWithin ∅ (span 0 count) s (s.readLoop offset count).1 ∧ SomeFails s) := by
  apply pieceLoop_rule (I := ReadSoFar s count offset)
    (Q := fun s' => OnlyWithin ∅ (span 0 count) s s' ∧ SomeFails s)
  · exact fun s' done hlt h => (readPiece_spec hdev hlt h).1
  · exact fun s' done hlt h => (readPiece_spec hdev hlt h).2
  · exact Nat.zero_le _
  · exact ⟨.refl _ _ _, (copyRange_zero _ _ _ _).symm⟩

theorem writeLoop_spec (hdev : InDevice s.size.toNat offset count) :
    ((s.writeLoop offset count).2 = true → WrittenSoFar s count offset count (s.writeLoop offset count).1) ∧
      ((s.writeLoop offset count).2 = false →
        OnlyWithin (span offset count) ∅ s (s.writeLoop offset count).1 ∧ SomeFails s) := by
  apply pieceLoop_rule (I := WrittenSoFar s count offset)
    (Q := fun s' => OnlyWithin (span offset count) ∅ s s' ∧ SomeFails s)
  · exact fun s' done hlt h => (writePiece_spec hdev hlt h).1
  · exact fun s' done hlt h => (writePiece_spec hdev hlt h).2
  · exact Nat.zero_le _
  · exact ⟨.refl _ _ _, (copyRange_zero _ _ _ _).symm⟩

end Loops

/-! ## The handlers -/

theorem countOf_toNat {size offset : UInt64} (length : UInt64) (h : offset < size) :
    (countOf size offset length).toNat = min (min length.toNat (size.toNat - offset.toNat)) bufBytes := by
  have hsub : (size - offset).toNat = size.toNat - offset.toNat :=
    UInt64.toNat_sub_of_le _ _ (UInt64.le_iff_toNat_le.mpr (Nat.le_of_lt (UInt64.lt_iff_toNat_lt.mp h)))
  have hbuf : (UInt64.ofNat bufBytes).toNat = bufBytes := by decide
  rw [countOf, toNat_min, toNat_min, hsub, hbuf]

/-- What a request asks for, as a count of bytes. -/
def asked (size offset length : UInt64) : Nat :=
  min (min length.toNat (size.toNat - offset.toNat)) bufBytes

theorem asked_inDevice {size offset : UInt64} (length : UInt64) (hsectors : size.toNat % 512 = 0)
    (h : offset < size) : InDevice size.toNat offset.toNat (asked size offset length) := by
  have hlt := UInt64.lt_iff_toNat_lt.mp h
  have hrest : asked size offset length ≤ size.toNat - offset.toNat := (min_le_left _ _).trans (min_le_right _ _)
  exact ⟨hsectors, by omega, min_le_right _ _⟩

/-- What a handler may do with a request for `count` bytes at `offset`: `ready` says that both buffers are
    there, `moved` what a success means. -/
structure Answers (s : Side) (disk window : Set Nat) (count : Nat) (ready : Bool) (moved : Side → Prop)
    (a : Answered) : Prop where
  /-- With its buffers and a device that answers, the request succeeds. -/
  succeeds : ready = true → (∀ n, s.calls ≤ n → s.fate n = .done) → a.status = statusOk
  /-- A success reports its bytes and has moved them. -/
  moves : a.status = statusOk → a.count.toNat = count ∧ moved a.side
  /-- A failure reports none. -/
  fails : a.status ≠ statusOk → a.count = 0
  /-- In every case nothing else changes, and no call or copy leaves its bounds. -/
  within : OnlyWithin disk window s a.side

theorem handle_answers {s : Side} {offset : UInt64} (length : UInt64) (ensured mapped : Bool)
    (hoffset : offset < s.size) {loop : Nat → Side × Bool} {disk window : Set Nat} {moved : Side → Prop}
    (hok : (loop (asked s.size offset length)).2 = true →
      OnlyWithin disk window s (loop (asked s.size offset length)).1 ∧ moved (loop (asked s.size offset length)).1)
    (hfail : (loop (asked s.size offset length)).2 = false →
      OnlyWithin disk window s (loop (asked s.size offset length)).1 ∧ SomeFails s) :
    Answers s disk window (asked s.size offset length) (ensured && mapped) moved
      (s.handle loop offset length ensured mapped) := by
  have hlt := UInt64.lt_iff_toNat_lt.mp hoffset
  have hcount : (countOf s.size offset length).toNat = asked s.size offset length := countOf_toNat length hoffset
  have hin : ¬ (s.size = 0 ∨ s.size ≤ offset) := by
    rintro (h0 | hle)
    · rw [h0] at hlt
      exact absurd hlt (Nat.not_lt_zero _)
    · have := UInt64.le_iff_toNat_le.mp hle
      omega
  rw [Side.handle, if_neg hin, hcount]
  cases ensured with
  | false => exact ⟨nofun, nofun, fun _ => rfl, .refl _ _ _⟩
  | true =>
    cases mapped with
    | false => exact ⟨nofun, nofun, fun _ => rfl, .refl _ _ _⟩
    | true =>
      generalize hloop : loop (asked s.size offset length) = r at hok hfail
      obtain ⟨s', ok⟩ := r
      cases ok with
      | true =>
        obtain ⟨hwithin, hmoved⟩ := hok rfl
        exact ⟨fun _ _ => rfl, fun _ => ⟨hcount, hmoved⟩, fun hne => absurd rfl hne, hwithin⟩
      | false =>
        obtain ⟨hwithin, n, hle, hne⟩ := hfail rfl
        exact ⟨fun _ hdone => absurd (hdone n hle) hne, nofun, fun _ => rfl, hwithin⟩

/-- **A raw block volume is an array of bytes.**  A write that succeeds has changed the bytes
    `offset .. offset + count - 1` of the device to the client's, a read has given the client the bytes that
    stand there; whatever fails, no other byte of the device changes, nor any other of the client's buffer,
    every call is for one to eight sectors of the device and every copy stays in the bounce page. -/
theorem block_volume_is_byte_array (s : Side) (offset length : UInt64) (ensured mapped : Bool)
    (hsectors : s.size.toNat % 512 = 0) (hoffset : offset < s.size) :
    Answers s (span offset.toNat (asked s.size offset length)) ∅ (asked s.size offset length) (ensured && mapped)
        (fun s' => ∀ i, s'.disk i =
          if offset.toNat ≤ i ∧ i < offset.toNat + asked s.size offset length then s.window (i - offset.toNat)
          else s.disk i)
        (s.handleBlockWrite offset length ensured mapped) ∧
      Answers s ∅ (span 0 (asked s.size offset length)) (asked s.size offset length) (ensured && mapped)
        (fun s' => ∀ i, s'.window i =
          if i < asked s.size offset length then s.disk (offset.toNat + i) else s.window i)
        (s.handleBlockRead offset length ensured mapped) := by
  have hdev := asked_inDevice length hsectors hoffset
  constructor
  · apply handle_answers length ensured mapped hoffset
    · intro hok
      have hrun := (writeLoop_spec hdev).1 hok
      refine ⟨hrun.within, fun i => ?_⟩
      rw [hrun.moved, copyRange, Nat.zero_add]
    · exact (writeLoop_spec hdev).2
  · apply handle_answers length ensured mapped hoffset
    · intro hok
      have hrun := (readLoop_spec hdev).1 hok
      refine ⟨hrun.within, fun i => ?_⟩
      rw [hrun.moved, copyRange]
      simp only [Nat.zero_le, true_and, Nat.zero_add, Nat.sub_zero]
    · exact (readLoop_spec hdev).2

/-- Sixteen sectors of zeros, and a device that answers every call. -/
def blankSide : Side where
  size := 8192
  disk _ := 0
  bounce _ := 0
  window _ := 1
  fate _ := .done
  calls := 0
  log := []

/-- A request for 5000 bytes at 700, in two pieces with an unaligned head and tail. -/
theorem block_volume_is_byte_array_unaligned :
    Answers blankSide (span 700 5000) ∅ 5000 true
        (fun s' => ∀ i, s'.disk i = if 700 ≤ i ∧ i < 700 + 5000 then 1 else 0)
        (blankSide.handleBlockWrite 700 5000 true true) ∧
      Answers blankSide ∅ (span 0 5000) 5000 true
        (fun s' => ∀ i, s'.window i = if i < 5000 then 0 else 1)
        (blankSide.handleBlockRead 700 5000 true true) :=
  block_volume_is_byte_array blankSide 700 5000 true true (by decide) (by decide)

end Aegir.Fileserver.Blocks
