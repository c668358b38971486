/-
  Line input from a file or a pipe (`Aegir_User.CLI.Get_Line`).

  A 4 KiB staging buffer slides over the input.  A call that finds no LF there moves what is left to the front
  and reads on; a line that fills the whole buffer is returned in pieces.  A piece is cut to the caller's
  buffer; of a line that stood in the staging buffer whole, the rest is LOST.

  Whatever the chunks are, a call depends only on the bytes that were not returned yet (`next`).
-/
import Mathlib.Data.List.Infix
import Mathlib.Data.List.TakeWhile

namespace Aegir.Cli

open List

/-- `ASCII.LF`. -/
def lf : UInt8 := 10

/-- The length of `In_Buf`. -/
def inBufLength : Nat := 4096

/-- The bytes before the first LF. -/
def line (l : List UInt8) : List UInt8 := l.takeWhile (· ≠ lf)

/-- How often a pipe is asked. -/
def maxTries : Nat := 1000000

/-- What the standard input is connected to: the bytes, how many of them a read at a place delivers at most,
    and how often a pipe answers `Not_Ready` there. -/
structure Source where
  isPipe : Bool
  bytes : List UInt8
  chunk : Nat → Nat
  notReady : Nat → Nat

namespace Source

/-- Every read delivers in the end, and then a byte at least. -/
def Delivers (src : Source) : Prop :=
  ∀ p, 0 < src.chunk p ∧ (src.isPipe = true → src.notReady p < maxTries)

/-- `Files.Read` at a place, with the polling of a pipe.  Nothing comes back at the end of the input, from a
    pipe that was asked too often, and with an error. -/
def read (src : Source) (pos room : Nat) : List UInt8 :=
  if src.isPipe = true ∧ maxTries ≤ src.notReady pos then []
  else (src.bytes.drop pos).take (min (src.chunk pos) room)

theorem read_drop (src : Source) (pos room : Nat) :
    src.read pos room ++ src.bytes.drop (pos + (src.read pos room).length) = src.bytes.drop pos := by
  rw [← drop_drop]
  unfold read
  split
  · rfl
  · have hcut := take_append_drop (min (src.chunk pos) room) (src.bytes.drop pos)
    by_cases hlong : min (src.chunk pos) room ≤ (src.bytes.drop pos).length
    · rw [length_take, Nat.min_eq_left hlong]
      exact hcut
    · rw [take_of_length_le (by omega), drop_length, append_nil]

theorem read_length (src : Source) (pos room : Nat) : (src.read pos room).length ≤ room := by
  unfold read
  split
  · exact Nat.zero_le _
  · rw [length_take]
    omega

end Source

/-- The state of the package: the staging buffer with its two places (counted from 0), the mark for the end
    of the input, and how much was read. -/
structure LineInput where
  inBuf : List UInt8
  inPos : Nat
  inEnd : Nat
  inEof : Bool
  taken : Nat

/-- What a call delivers.  Whether the piece ended at a newline is not told to the caller. -/
structure Piece where
  text : List UInt8
  newline : Bool
  deriving DecidableEq

namespace LineInput

variable {src : Source} {s : LineInput} {n : Nat}

/-- The state of a new process. -/
def start : LineInput := ⟨replicate inBufLength 0, 0, 0, false, 0⟩

/-- `In_Buf (In_Pos .. In_End)`. -/
def held (s : LineInput) : List UInt8 := (s.inBuf.take s.inEnd).drop s.inPos

/-- What is held moves to the front. -/
def compact (s : LineInput) : LineInput :=
  if 0 < s.inPos then
    if s.inPos < s.inEnd then
      { s with inBuf := s.held ++ s.inBuf.drop s.held.length, inEnd := s.inEnd - s.inPos, inPos := 0 }
    else { s with inEnd := 0, inPos := 0 }
  else s

/-- What was read goes behind it. -/
def append (s : LineInput) (bs : List UInt8) : LineInput :=
  { s with
    inBuf := s.inBuf.take s.inEnd ++ bs ++ s.inBuf.drop (s.inEnd + bs.length)
    inEnd := s.inEnd + bs.length
    taken := s.taken + bs.length }

/-- A line longer than the staging buffer: the buffer is delivered as a split line. -/
def split (s : LineInput) (n : Nat) : Piece × LineInput :=
  let l := min n s.inEnd
  (⟨s.inBuf.take l, false⟩,
    if l = s.inEnd then { s with inPos := 0, inEnd := 0 }
    else { s with
      inBuf := (s.inBuf.take s.inEnd).drop l ++ s.inBuf.drop (s.inEnd - l)
      inEnd := s.inEnd - l })

@[simp]
theorem compact_taken (s : LineInput) : s.compact.taken = s.taken := by
  unfold compact
  split
  · split <;> rfl
  · rfl

/-- The loop of `Get_Line`, for a buffer of length `n`: the piece, or nothing for `End_Of_Input`. -/
def lineLoop (src : Source) (n : Nat) (s : LineInput) : Option Piece × LineInput :=
  if (line s.held).length < s.held.length then
    (some ⟨s.held.take (min n (line s.held).length), true⟩,
      { s with inPos := s.inPos + (line s.held).length + 1 })
  else if heof : s.inEof = true then
    if s.inPos < s.inEnd then
      (some ⟨s.held.take (min n (s.inEnd - s.inPos)), false⟩, { s with inPos := s.inEnd })
    else (none, s)
  else if s.compact.inEnd = inBufLength then
    (some (s.compact.split n).1, (s.compact.split n).2)
  else
    match hread : src.read s.compact.taken (inBufLength - s.compact.inEnd) with
    | [] => lineLoop src n { s.compact with inEof := true }
    | b :: bs => lineLoop src n (s.compact.append (b :: bs))
termination_by (src.bytes.length - s.taken, if s.inEof = true then 0 else 1)
decreasing_by
  · rw [compact_taken, if_neg heof]
    exact Prod.Lex.right _ (by simp)
  · apply Prod.Lex.left
    have hlen := congrArg length (src.read_drop s.compact.taken (inBufLength - s.compact.inEnd))
    rw [hread, length_append, length_drop, length_drop, compact_taken] at hlen
    simp only [append, compact_taken, length_cons] at hlen ⊢
    omega

/-- `Get_Line`: without a standard input there is no line. -/
def getLine (src : Option Source) (n : Nat) (s : LineInput) : Option Piece × LineInput :=
  match src with
  | none => (none, s)
  | some src => lineLoop src n s

/-- A sequence of calls, by the lengths of their buffers. -/
def getLines (src : Option Source) : List Nat → LineInput → List (Option Piece)
  | [], _ => []
  | n :: ns, s => (getLine src n s).1 :: getLines src ns (getLine src n s).2

/-! ## What a call does to the bytes that were not returned yet -/

variable {held more : List UInt8}

/-- The answer of a call, from the bytes that were not returned yet: the piece, and what of the line is lost
    behind it; and the bytes that are left. -/
def next (n : Nat) (rest : List UInt8) : Option (Piece × List UInt8) × List UInt8 :=
  if rest = [] then (none, [])
  else if (line rest).length < inBufLength then
    (some (⟨(line rest).take n, (line rest).length < rest.length⟩, (line rest).drop n),
      rest.drop ((line rest).length + 1))
  else (some (⟨rest.take (min n inBufLength), false⟩, []), rest.drop (min n inBufLength))

theorem line_append (h : (line held).length < held.length) : line (held ++ more) = line held := by
  unfold line at h ⊢
  rw [takeWhile_append, if_neg (Nat.ne_of_lt h)]

theorem take_line {k : Nat} (h : k ≤ (line held).length) : held.take k = (line held).take k := by
  have hline : line held = held.take (line held).length :=
    prefix_iff_eq_take.mp (List.takeWhile_prefix _)
  rw [hline, take_take, Nat.min_eq_left h]

/-- A line that was read up to its LF. -/
theorem next_found (h : (line held).length < held.length) (hfit : held.length ≤ inBufLength) :
    next n (held ++ more) = (some (⟨held.take (min n (line held).length), true⟩, (line held).drop n),
      held.drop ((line held).length + 1) ++ more) := by
  have hlong : (line held).length < (held ++ more).length := by
    rw [length_append]
    omega
  have hne : held ++ more ≠ [] := ne_nil_of_length_pos (by omega)
  rw [next, if_neg hne, line_append h, if_pos (by omega), drop_append_of_le_length h,
    take_line (Nat.min_le_right _ _), take_eq_take_min]
  simp only [hlong, decide_true]

section

variable (h : ¬ (line held).length < held.length)

include h

theorem line_whole : line held = held := by
  have hline : line held <+: held := List.takeWhile_prefix _
  exact hline.eq_of_length_le (by omega)

/-- The last line, which has no LF. -/
theorem next_last (hne : held ≠ [])
    (hfit : held.length < inBufLength) : next n held = (some (⟨held.take n, false⟩, held.drop n), []) := by
  have hline := line_whole h
  rw [next, if_neg hne, hline, if_pos hfit, drop_eq_nil_of_le (Nat.le_succ _)]
  simp

/-- A line that fills the staging buffer. -/
theorem next_full (hfull : held.length = inBufLength) :
    next n (held ++ more) = (some (⟨held.take (min n inBufLength), false⟩, []),
      held.drop (min n inBufLength) ++ more) := by
  have hline : line (held ++ more) = held ++ line more := by
    have hwhole : takeWhile (· ≠ lf) held = held := line_whole h
    rw [line, takeWhile_append, hwhole, if_pos rfl]
    rfl
  have hpos : 0 < inBufLength := Nat.zero_lt_succ _
  have hle : min n inBufLength ≤ held.length := by omega
  have hne : held ++ more ≠ [] := ne_nil_of_length_pos (by rw [length_append]; omega)
  rw [next, if_neg hne, hline, if_neg (by rw [length_append]; omega),
    take_append_of_le_length hle, drop_append_of_le_length hle]

end

/-- The answers of a sequence of calls. -/
def nexts : List Nat → List UInt8 → List (Option (Piece × List UInt8))
  | [], _ => []
  | n :: ns, rest => (next n rest).1 :: nexts ns (next n rest).2

/-- The bytes that were not returned yet. -/
def rest (src : Source) (s : LineInput) : List UInt8 := s.held ++ src.bytes.drop s.taken

/-- The staging buffer is in order. -/
structure Sound (src : Source) (s : LineInput) : Prop where
  length : s.inBuf.length = inBufLength
  pos : s.inPos ≤ s.inEnd
  stop : s.inEnd ≤ inBufLength
  eof : s.inEof = true → src.bytes.drop s.taken = [] ∧ s.inEnd < inBufLength

theorem start_sound (src : Source) : Sound src start :=
  ⟨by simp [start], Nat.le_refl _, Nat.zero_le _, nofun⟩

theorem held_length (h : Sound src s) : s.held.length = s.inEnd - s.inPos := by
  have := h.length
  have := h.stop
  simp only [held, length_drop, length_take]
  omega

theorem compact_spec (h : Sound src s) : Sound src s.compact ∧ s.compact.inPos = 0 ∧
    s.compact.held = s.held ∧ s.compact.inEof = s.inEof := by
  have hheld := held_length h
  obtain ⟨hlen, hpos, hstop, heof⟩ := h
  unfold compact
  by_cases hp : 0 < s.inPos
  · rw [if_pos hp]
    split_ifs with hend
    · refine ⟨⟨?_, Nat.zero_le _, by dsimp only; omega, fun he => ⟨(heof he).1, ?_⟩⟩, rfl, ?_, rfl⟩
      · simp only [length_append, length_drop]
        omega
      · have := (heof he).2
        dsimp only
        omega
      · show drop 0 (take (s.inEnd - s.inPos) (s.held ++ _)) = s.held
        rw [drop_zero, ← hheld, take_left]
    · refine ⟨⟨hlen, Nat.le_refl _, Nat.zero_le _, fun he => ⟨(heof he).1, Nat.zero_lt_succ _⟩⟩, rfl, ?_, rfl⟩
      have hnil : s.held = [] := eq_nil_of_length_eq_zero (by omega)
      rw [hnil]
      rfl
  · rw [if_neg hp]
    exact ⟨⟨hlen, hpos, hstop, heof⟩, by omega, rfl, rfl⟩

theorem append_spec {bs : List UInt8} (h : Sound src s) (hpos : s.inPos = 0) (heof : s.inEof = false)
    (hfit : s.inEnd + bs.length ≤ inBufLength) :
    Sound src (s.append bs) ∧ (s.append bs).held = s.held ++ bs := by
  have hlen := h.length
  refine ⟨⟨?_, ?_, hfit, ?_⟩, ?_⟩
  · simp only [append, length_append, length_take, length_drop]
    omega
  · show s.inPos ≤ _
    omega
  · intro he
    rw [show (s.append bs).inEof = s.inEof from rfl, heof] at he
    cases he
  · have htake : (s.inBuf.take s.inEnd ++ bs).length = s.inEnd + bs.length := by
      rw [length_append, length_take]
      omega
    simp only [held, append, hpos, drop_zero]
    rw [← htake, take_left]

theorem split_spec (h : Sound src s) (hpos : s.inPos = 0) (heof : s.inEof = false) (n : Nat) :
    (s.split n).1 = ⟨s.held.take (min n s.inEnd), false⟩ ∧ Sound src (s.split n).2 ∧
      (s.split n).2.held = s.held.drop (min n s.inEnd) ∧ (s.split n).2.taken = s.taken := by
  have hlen := h.length
  have hstop := h.stop
  have hheld : s.held = s.inBuf.take s.inEnd := by rw [held, hpos, drop_zero]
  have hno : s.inEof ≠ true := by rw [heof]; decide
  have hpiece : (s.split n).1 = ⟨s.held.take (min n s.inEnd), false⟩ := by
    simp only [split, hheld, take_take, min_assoc, min_self]
  refine ⟨hpiece, ?_⟩
  unfold split
  dsimp only
  split_ifs with hl
  · refine ⟨⟨hlen, Nat.le_refl _, Nat.zero_le _, fun he => absurd he hno⟩, ?_, rfl⟩
    rw [hl, drop_eq_nil_of_le (by rw [hheld, length_take]; omega)]
    rfl
  · have hcut : s.inEnd - min n s.inEnd = (s.held.drop (min n s.inEnd)).length := by
      simp only [hheld, length_drop, length_take]
      omega
    refine ⟨⟨?_, ?_, ?_, fun he => absurd he hno⟩, ?_, rfl⟩
    · simp only [length_append, length_drop, length_take]
      omega
    · show s.inPos ≤ _
      omega
    · show s.inEnd - min n s.inEnd ≤ inBufLength
      omega
    · simp only [held, hpos, drop_zero] at hcut ⊢
      rw [hcut, take_left]

/-- **A call** answers what `next` says, whatever the chunks are. -/
theorem lineLoop_spec (hsrc : src.Delivers) (n : Nat) (h : Sound src s) :
    (lineLoop src n s).1 = (next n (rest src s)).1.map Prod.fst ∧
      rest src (lineLoop src n s).2 = (next n (rest src s)).2 ∧ Sound src (lineLoop src n s).2 := by
  fun_induction lineLoop src n s with
  | case1 s hfound =>
    -- the line stands in the buffer
    have hheld := held_length h
    have hstop := h.stop
    rw [rest, next_found hfound (by omega)]
    refine ⟨rfl, ?_, h.length, ?_, h.stop, h.eof⟩
    · simp only [rest, held, drop_drop, Nat.add_assoc]
    · show s.inPos + _ + 1 ≤ s.inEnd
      omega
  | case2 s hfound heof hpos =>
    -- the end of the input, behind a line without LF
    have hheld := held_length h
    obtain ⟨hdone, hstop⟩ := h.eof heof
    have hne : s.held ≠ [] := ne_nil_of_length_pos (by omega)
    rw [rest, hdone, append_nil, next_last hfound hne (by omega)]
    refine ⟨?_, ?_, h.length, Nat.le_refl _, h.stop, h.eof⟩
    · rw [← hheld, ← take_eq_take_min]
      rfl
    · show drop s.inEnd (s.inBuf.take s.inEnd) ++ src.bytes.drop s.taken = []
      rw [hdone, drop_eq_nil_of_le (length_take_le _ _)]
      rfl
  | case3 s hfound heof hpos =>
    -- nothing is left
    have hnil : s.held = [] := eq_nil_of_length_eq_zero (by rw [held_length h]; omega)
    have hrest : rest src s = [] := by rw [rest, hnil, (h.eof heof).1]; rfl
    have hnext : next n [] = (none, []) := if_pos rfl
    refine ⟨by rw [hrest, hnext]; rfl, by rw [hrest, hnext], h⟩
  | case4 s hfound heof hfull =>
    -- a line that fills the buffer
    obtain ⟨hc, hpos, hheld, he⟩ := compact_spec h
    have hlen := held_length hc
    obtain ⟨hpiece, hsound, hleft, htaken⟩ := split_spec hc hpos (by rw [he]; simpa using heof) n
    rw [rest, next_full hfound (by rw [← hheld]; omega)]
    refine ⟨?_, ?_, hsound⟩
    · rw [hpiece, hheld, hfull]
      rfl
    · rw [rest, hleft, htaken, compact_taken, hheld, hfull]
  | case5 s hfound heof hroom hread ih =>
    -- the read finds the end of the input
    obtain ⟨hc, hpos, hheld, he⟩ := compact_spec h
    have hstop := hc.stop
    have hdone : src.bytes.drop s.compact.taken = [] := by
      obtain ⟨hchunk, hpipe⟩ := hsrc s.compact.taken
      have hasked : ¬ (src.isPipe = true ∧ maxTries ≤ src.notReady s.compact.taken) := by
        intro hno
        have := hpipe hno.1
        omega
      rw [Source.read, if_neg hasked, take_eq_nil_iff] at hread
      rcases hread with hnone | hdone
      · omega
      · exact hdone
    have hrest : rest src { s.compact with inEof := true } = rest src s := by
      show s.compact.held ++ src.bytes.drop s.compact.taken = _
      rw [hheld, compact_taken, rest]
    rw [← hrest]
    exact ih ⟨hc.length, hc.pos, hc.stop, fun _ => ⟨hdone, by dsimp only; omega⟩⟩
  | case6 s hfound heof hroom b bs hread ih =>
    -- more of the input comes in
    obtain ⟨hc, hpos, hheld, he⟩ := compact_spec h
    have hmore := src.read_drop s.compact.taken (inBufLength - s.compact.inEnd)
    have hshort := src.read_length s.compact.taken (inBufLength - s.compact.inEnd)
    rw [hread] at hmore hshort
    have hstop := hc.stop
    obtain ⟨ha, hheld'⟩ := append_spec hc hpos (by rw [he]; simpa using heof)
      (show s.compact.inEnd + (b :: bs).length ≤ inBufLength by omega)
    have hrest : rest src (s.compact.append (b :: bs)) = rest src s := by
      rw [rest, rest, hheld', hheld, append_assoc, ← compact_taken s, ← hmore]
      rfl
    rw [← hrest]
    exact ih ha

/-- The calls of a process answer what `nexts` says. -/
theorem getLines_eq (hsrc : src.Delivers) (ns : List Nat) (h : Sound src s) :
    getLines (some src) ns s = (nexts ns (rest src s)).map (Option.map Prod.fst) := by
  induction ns generalizing s with
  | nil => rfl
  | cons n ns ih =>
    obtain ⟨hanswer, hleft, hsound⟩ := lineLoop_spec hsrc n h
    show (lineLoop src n s).1 :: getLines (some src) ns (lineLoop src n s).2 = _
    rw [nexts, map_cons, hanswer, ih hsound, hleft]

/-! ## Nothing but the rest of a truncated line is lost -/

/-- The bytes that an answer accounts for. -/
def spell : Option (Piece × List UInt8) → List UInt8
  | none => []
  | some (p, lost) => p.text ++ lost ++ if p.newline = true then [lf] else []

theorem line_split (l : List UInt8) :
    line l ++ (if (line l).length < l.length then [lf] else []) ++ l.drop ((line l).length + 1) = l := by
  induction l with
  | nil => rfl
  | cons c l ih =>
    unfold line at ih ⊢
    by_cases hc : c = lf
    · simp [hc]
    · simpa [hc] using ih

theorem next_spell (n : Nat) (l : List UInt8) : spell (next n l).1 ++ (next n l).2 = l := by
  unfold next
  split_ifs with hnil hshort
  · rw [hnil]
    rfl
  · simpa [spell] using line_split l
  · simp [spell]

theorem next_none (n : Nat) (l : List UInt8) : (next n l).1 = none ↔ l = [] := by
  unfold next
  by_cases hnil : l = []
  · simp [hnil]
  · by_cases hshort : (line l).length < inBufLength <;> simp [hnil, hshort]

theorem next_lost {l : List UInt8} {p : Piece} {lost : List UInt8} (h : (next n l).1 = some (p, lost)) (hlost : lost ≠ []) :
    p.text.length = n ∧ (p.text ++ lost).length < inBufLength ∧ lf ∉ p.text ++ lost := by
  unfold next at h
  split at h
  · cases h
  · split at h
    · rename_i hshort
      obtain ⟨rfl, rfl⟩ := h
      have hn : n < (line l).length := by
        by_contra hn
        exact hlost (drop_eq_nil_of_le (by omega))
      rw [take_append_drop]
      refine ⟨by rw [length_take]; omega, hshort, fun hmem => ?_⟩
      simpa using mem_takeWhile_imp hmem
    · simp only [Option.some.injEq, Prod.mk.injEq] at h
      exact absurd h.2.symm hlost

/-- The law of line input for calls with buffers of the lengths `ns`.  `lost` is what goes with the rest of a
    truncated line: the answers, with what is lost, spell the input; the end is told exactly when every byte
    was accounted for; and a line is truncated only where it is longer than the buffer of the call and
    shorter than the staging buffer. -/
structure Accounts (ns : List Nat) (input : List UInt8) (as : List (Option (Piece × List UInt8))) : Prop where
  conserved : (as.map spell).flatten <+: input
  ended : ∀ k : Nat, as[k]? = some none ↔ k < as.length ∧ ((as.take k).map spell).flatten = input
  truncated : ∀ (k : Nat) (p : Piece) (lost : List UInt8), as[k]? = some (some (p, lost)) → lost ≠ [] →
    ns[k]? = some p.text.length ∧ (p.text ++ lost).length < inBufLength ∧ lf ∉ p.text ++ lost

theorem nexts_accounts (ns : List Nat) (l : List UInt8) : Accounts ns l (nexts ns l) := by
  induction ns generalizing l with
  | nil => exact ⟨List.nil_prefix, by simp [nexts], by simp [nexts]⟩
  | cons n ns ih =>
    have hspell := next_spell n l
    obtain ⟨hcons, hended, htrunc⟩ := ih (next n l).2
    refine ⟨?_, fun k => ?_, fun k p lost hk hlost => ?_⟩
    · rw [nexts, map_cons, flatten_cons]
      exact (prefix_append_right_inj _).mpr hcons |>.trans (by rw [hspell])
    · cases k with
      | zero =>
        have hnone := next_none n l
        simpa [nexts, eq_comm] using hnone
      | succ k =>
        have hcancel (x : List UInt8) : x = (next n l).2 ↔ spell (next n l).1 ++ x = l :=
          ⟨fun h => by rw [h, hspell], fun h => append_cancel_left (h.trans hspell.symm)⟩
        rw [nexts, getElem?_cons_succ, hended k, length_cons, take_succ_cons, map_cons,
          flatten_cons, Nat.succ_lt_succ_iff, hcancel]
    · cases k with
      | zero =>
        obtain ⟨hlen, hrest⟩ := next_lost (by simpa [nexts] using hk) hlost
        exact ⟨by simp [hlen], hrest⟩
      | succ k => exact htrunc k p lost (by simpa [nexts] using hk) hlost

/-- **Line input**, for every input, every way it is delivered, and every sequence of calls: the answers do
    not depend on the chunks, and only the rest of a truncated line is lost. -/
theorem getLines_accounts (src : Source) (hsrc : src.Delivers) (ns : List Nat) :
    getLines (some src) ns start = (nexts ns src.bytes).map (Option.map Prod.fst) ∧
      Accounts ns src.bytes (nexts ns src.bytes) := by
  have hrest : rest src start = src.bytes := rfl
  have hrun := getLines_eq hsrc ns (start_sound src)
  exact ⟨hrun, nexts_accounts ns src.bytes⟩

/-- "ab" and an LF, delivered byte by byte. -/
def twoBytes : Source := ⟨false, [97, 98, lf], fun _ => 1, fun _ => 0⟩

theorem getLines_accounts_twoBytes : twoBytes.Delivers ∧
    getLines (some twoBytes) [1, 1] start = [some ⟨[97], true⟩, none] ∧
    Accounts [1, 1] twoBytes.bytes (nexts [1, 1] twoBytes.bytes) := by
  have hsrc : twoBytes.Delivers := fun _ => ⟨Nat.one_pos, nofun⟩
  obtain ⟨hrun, hacc⟩ := getLines_accounts twoBytes hsrc [1, 1]
  exact ⟨hsrc, hrun.trans (by decide), hacc⟩

/-- A buffer of one byte gets the first byte of the line, and then the end of the input: the second byte is
    never returned. -/
theorem short_buffer_loses : twoBytes.Delivers ∧
    getLines (some twoBytes) [1, 1] start = [some ⟨[97], true⟩, none] ∧
    [97] ++ [lf] ≠ twoBytes.bytes := by
  have hsrc : twoBytes.Delivers := fun _ => ⟨Nat.one_pos, nofun⟩
  refine ⟨hsrc, ?_, by decide⟩
  rw [getLines_eq hsrc [1, 1] (start_sound twoBytes), show rest twoBytes start = twoBytes.bytes from rfl]
  decide

end LineInput

end Aegir.Cli
