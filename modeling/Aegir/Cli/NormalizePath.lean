/-
  `Normalize_Path`, and what it is for.

  The text up to the first `:` names the volume; the rest is a row of components between `/`.  The function keeps the
  components in an array of 16 slices and writes the result into a buffer of 256 characters: `RLen` is one ahead of
  the buffer after a copy that did not fit, and the next index check raises.

  `canonicalPath` is the purpose: the same components on a stack without a cap, joined with `/`.
-/
import Aegir.Lib.CappedStack

namespace Aegir.Cli

open Aegir.Lib

/-- `:` -/
def colon : UInt8 := 0x3A

/-- `/` -/
def slash : UInt8 := 0x2F

/-- `..` -/
def dotdot : List UInt8 := [0x2E, 0x2E]

/-- `Max_Comps`. -/
def maxComps : Nat := 16

/-- The length of `Result`. -/
def resultLast : Nat := 256

/-- An index into `Result` that failed its check. -/
inductive RangeError where
  | result (index : Nat)
deriving DecidableEq

/-! ## The two parts of a path -/

/-- `Path'First .. Colon`. -/
def volumePart : List UInt8 → List UInt8
  | [] => []
  | c :: cs => if c = colon then [c] else if colon ∈ cs then c :: volumePart cs else []

/-- From behind the colon on, or the whole path. -/
def componentPart (path : List UInt8) : List UInt8 := path.drop (volumePart path).length

/-! ## The components -/

/-- `Push`, onto `Comps (1 .. NComp)`. -/
def push (comps : List (List UInt8)) (comp : List UInt8) : List (List UInt8) :=
  if comp.length = 0 ∨ comps.length = maxComps then comps else comps ++ [comp]

/-- `Component`. -/
def component (comps : List (List UInt8)) (comp : List UInt8) : List (List UInt8) :=
  if comp.length = 0 ∨ comp = dotdot then
    if comps.length > 0 then comps.dropLast else comps
  else push comps comp

/-- The loop over the components; `comp` is what has been passed over since the last `/`. -/
def scan (comps : List (List UInt8)) (comp : List UInt8) : List UInt8 → List (List UInt8)
  | [] => if comp.length > 0 then component comps comp else comps
  | c :: cs => if c = slash then scan (component comps comp) [] cs else scan comps (comp ++ [c]) cs

/-! ## The result -/

/-- `Result` and `RLen`: `text` is what has been written, and `RLen` is its length unless a copy did not fit. -/
structure Result where
  text : List UInt8
  rlen : Nat
deriving DecidableEq

/-- `RLen := RLen + 1; Result (RLen) := C;` -/
def putChar (r : Result) (c : UInt8) : Except RangeError Result :=
  if r.rlen + 1 ≤ resultLast then .ok ⟨r.text ++ [c], r.rlen + 1⟩ else .error (.result (r.rlen + 1))

/-- The copy of the volume. -/
def putAll (r : Result) : List UInt8 → Except RangeError Result
  | [] => .ok r
  | c :: cs => do
    let r ← putChar r c
    putAll r cs

/-- The copy of a component: it stops when the buffer is full. -/
def copyComp (r : Result) : List UInt8 → Result
  | [] => r
  | c :: cs => if r.rlen + 1 > resultLast then ⟨r.text, r.rlen + 1⟩ else copyComp ⟨r.text ++ [c], r.rlen + 1⟩ cs

/-- `Result (RLen)`. -/
def lastChar (r : Result) : Except RangeError UInt8 :=
  if r.rlen ≤ resultLast then .ok (r.text.getLast?.getD 0) else .error (.result r.rlen)

/-- The separator before a component. -/
def putSlash (r : Result) : Except RangeError Result :=
  if r.rlen > 0 then do
    let c ← lastChar r
    if c ≠ colon then putChar r slash else pure r
  else pure r

def putComps (r : Result) : List (List UInt8) → Except RangeError Result
  | [] => .ok r
  | comp :: comps => do
    let r ← putSlash r
    putComps (copyComp r comp) comps

/-- `Normalize_Path`. -/
def normalizePath (path : List UInt8) : Except RangeError (List UInt8) := do
  let comps := scan [] [] (componentPart path)
  let r ← putAll ⟨[], 0⟩ (volumePart path)
  let r ← putComps r comps
  -- `Result (1 .. RLen)`
  if r.rlen ≤ resultLast then pure r.text else .error (.result r.rlen)

/-! ## The purpose -/

/-- The components of a path; an empty one at the end is none. -/
def fields (path : List UInt8) : List (List UInt8) :=
  if ((componentPart path).splitOn slash).getLast? = some [] then ((componentPart path).splitOn slash).dropLast
  else (componentPart path).splitOn slash

/-- Empty components and `..` pop, the others are pushed. -/
def pathOp (field : List UInt8) : Option (List UInt8) := if field = [] ∨ field = dotdot then none else some field

/-- The components that are left. -/
def pathStack (path : List UInt8) : List (List UInt8) := stackRun ((fields path).map pathOp)

/-- **The canonical form** of a path. -/
def canonicalPath (path : List UInt8) : List UInt8 := volumePart path ++ [slash].intercalate (pathStack path)

/-- **What the function promises** of a path: it answers the canonical form, which is its own canonical form, names
    the same volume and has no component that is empty or `..`. -/
structure Canonical (path : List UInt8) : Prop where
  answers : normalizePath path = .ok (canonicalPath path)
  again : normalizePath (canonicalPath path) = .ok (canonicalPath path)
  volume : volumePart (canonicalPath path) = volumePart path
  plain : ∀ f ∈ fields (canonicalPath path), f ≠ [] ∧ f ≠ dotdot

/-- The stack has stayed within its array since it was last empty, no component of it but the last ends in `:`, and
    the canonical form fits into the buffer. -/
structure Fits (path : List UInt8) : Prop where
  shallow : Shallow maxComps ((fields path).map pathOp)
  colons : ∀ f ∈ (pathStack path).dropLast, f.getLast? ≠ some colon
  length : (canonicalPath path).length ≤ resultLast

end Aegir.Cli
