/-
  Words of a script line.

  A string is the list of its characters; a slice `S (First .. Last)` is a list too, empty when `First > Last`.
  Keywords and names are compared without regard to case.
-/
import Mathlib.Data.List.Basic

namespace Aegir.Scripting

abbrev Chars := List UInt8

def space : UInt8 := 32

/-- `Lower`. -/
def lower (c : UInt8) : UInt8 := if 65 ≤ c ∧ c ≤ 90 then c + 32 else c

/-- `Same_Word`. -/
def sameWord (a b : Chars) : Bool := a.map lower == b.map lower

/-- `Lower_Less`. -/
def lowerLess : Chars → Chars → Bool
  | a :: as, b :: bs => if lower a ≠ lower b then lower a < lower b else lowerLess as bs
  | [], b => b ≠ []
  | _ :: _, [] => false

/-- `Is_Ident_Start`. -/
def isIdentStart (c : UInt8) : Bool := (97 ≤ c ∧ c ≤ 122) ∨ (65 ≤ c ∧ c ≤ 90) ∨ c = 95

/-- `Is_Ident`. -/
def isIdent (c : UInt8) : Bool := isIdentStart c || (48 ≤ c ∧ c ≤ 57)

/-- `Trim`, as the slice between its two results. -/
def trim (s : Chars) : Chars := ((s.dropWhile (· = space)).reverse.dropWhile (· = space)).reverse

/-- The first word of `Split_Cmd`. -/
def firstWord (s : Chars) : Chars := s.takeWhile (· ≠ space)

/-- What `Split_Cmd` leaves, from the second word on. -/
def restWords (s : Chars) : Chars := (s.dropWhile (· ≠ space)).dropWhile (· = space)

/-- The loop of `Parse_Nat`. -/
def parseDigits : Chars → Nat → Option Nat
  | [], n => some n
  | c :: cs, n => if ¬ (48 ≤ c ∧ c ≤ 57) ∨ 100000 < n then none else parseDigits cs (n * 10 + (c.toNat - 48))

/-- `Parse_Nat`; `none` is `Ok = False`. -/
def parseNat (s : Chars) : Option Nat := if s = [] then none else parseDigits s 0

/-- The last word of a trimmed text and what stands before it, when something does. -/
def lastWord (s : Chars) : Option (Chars × Chars) :=
  let word := (s.reverse.takeWhile (· ≠ space)).reverse
  if word.length < s.length then some (s.take (s.length - word.length), word) else none

/-!
## Variables of a script, and their substitution

A script has up to sixteen LOCALS, names with values of bounded length; beside them stand the variables of
ENV:, which are files.  `<name>` in a line is the local, else the variable; `<$name>` is the variable.

`env` is what the file server answers: the contents of `ENV:<Name>`, if there is such a file.  A name too
long for a path has none.
-/

/-! ## Locals -/

def maxName : Nat := 32
def maxValue : Nat := 128
def maxLocals : Nat := 16

/-- `Local_Rec`, up to its two lengths. -/
structure Local where
  name : Chars
  value : Chars
  name_le : name.length ≤ maxName
  value_le : value.length ≤ maxValue

/-- `Locals (1 .. NLoc)`. -/
structure Locals where
  slots : List Local
  slots_le : slots.length ≤ maxLocals

/-- `Find_Local`, as a position from 0 on. -/
def Locals.find (ls : Locals) (name : Chars) : Option Nat := ls.slots.findIdx? fun l => sameWord l.name name

/-- `Add_Local`: the new slot's position. -/
def Locals.add (ls : Locals) (name : Chars) : Option (Nat × Locals) :=
  if hname : name = [] ∨ maxName < name.length then none
  else if hfull : ls.slots.length = maxLocals then none
  else some (ls.slots.length,
    { slots := ls.slots ++ [⟨name, [], by omega, Nat.zero_le _⟩]
      slots_le := by
        have := ls.slots_le
        rw [List.length_append, List.length_singleton]
        omega })

/-- `Set_Value`. -/
def Locals.setValue (ls : Locals) (slot : Nat) (value : Chars) : Option Locals :=
  if hlong : maxValue < value.length then none
  else some
    { slots := ls.slots.modify slot fun l => ⟨l.name, value, l.name_le, by omega⟩
      slots_le := by
        rw [List.length_modify]
        exact ls.slots_le }

/-! ## Lookup -/

/-- `Env_Buf'Length`, of `Get_Env`. -/
def envBuf : Nat := 256

/-- `VBuf.all'Length`. -/
def valueBuf : Nat := 256

/-- `CLI.Get_Env`: the file as far as the buffer holds it. -/
def getEnv (env : Chars → Option Chars) (name : Chars) : Chars := ((env name).getD []).take envBuf

/-- `Lookup`. -/
def lookup (ls : Locals) (env : Chars → Option Chars) (name : Chars) (envOnly : Bool) : Option Chars :=
  match if envOnly then none else ls.find name with
  | some slot => (ls.slots[slot]?).map Local.value
  | none => if (env name).isSome then some ((getEnv env name).take valueBuf) else none

/-! ## Expand -/

variable {envOnly : Bool} {after name rest : Chars}

def less : UInt8 := 60
def greater : UInt8 := 62
def dollar : UInt8 := 36

/-- `Put_Char` and `Put_Str` into a buffer of `cap` characters; what a failing one has put is not looked at. -/
def put (cap : Nat) (out s : Chars) : Option Chars :=
  if (out ++ s).length ≤ cap then some (out ++ s) else none

/-- What follows a `<`: the name, whether `$` came first, and what follows the `>`. -/
def reference (rest : Chars) : Option (Bool × Chars × Chars) :=
  let envOnly := rest.head? = some dollar
  let s := if envOnly then rest.tail else rest
  match s with
  | [] => none
  | c :: cs =>
    if isIdentStart c then
      match cs.dropWhile isIdent with
      | [] => none
      | d :: after => if d = greater then some (envOnly, c :: cs.takeWhile isIdent, after) else none
    else none

theorem reference_length (h : reference rest = some (envOnly, name, after)) : after.length < rest.length := by
  have htail : ∀ b : Prop, [Decidable b] → (if b then rest.tail else rest).length ≤ rest.length := by
    intro b _
    split
    · rw [List.length_tail]
      omega
    · exact Nat.le_refl _
  have hs := htail (rest.head? = some dollar)
  simp only [reference] at h
  generalize (if rest.head? = some dollar then rest.tail else rest) = s at h hs
  cases s with
  | nil => cases h
  | cons c cs =>
    have hdrop := (List.dropWhile_suffix isIdent (l := cs)).length_le
    dsimp only at h
    split at h
    · split at h
      · cases h
      · rename_i d after' hd
        rw [hd, List.length_cons] at hdrop
        rw [List.length_cons] at hs
        split at h
        · cases h
          omega
        · cases h
    · cases h

/-- The reference that opens at the first character, if one does. -/
def opens (c : UInt8) (rest : Chars) : Option (Bool × Chars × Chars) := if c = less then reference rest else none

theorem opens_length {c : UInt8}
    (h : opens c rest = some (envOnly, name, after)) : after.length < rest.length := by
  rw [opens] at h
  split at h
  · exact reference_length h
  · cases h

/-- The loop of `Expand`, from a place in the line on; `out` is what has been put. -/
def expandFrom (look : Chars → Bool → Option Chars) (cap : Nat) (line out : Chars) : Option Chars :=
  match line with
  | [] => some out
  | c :: rest =>
    match _h : opens c rest with
    | some (envOnly, name, after) =>
      match look name envOnly with
      | none => none
      | some value => (put cap out value).bind (expandFrom look cap after)
    | none => (put cap out [c]).bind (expandFrom look cap rest)
termination_by line.length
decreasing_by
  · have := opens_length _h
    rw [List.length_cons]
    omega
  · exact Nat.lt_succ_self _

/-- `XBuf.all'Length`. -/
def expandedBuf : Nat := 512

/-- `Expand`; `none` is `Bad`. -/
def expand (ls : Locals) (env : Chars → Option Chars) (line : Chars) : Option Chars :=
  expandFrom (lookup ls env) expandedBuf line []

end Aegir.Scripting
