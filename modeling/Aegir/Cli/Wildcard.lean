/-
  `Aegir_User.Glob`: wildcard matching.

  The matcher goes through slices of the pattern and of the name; here a slice is a list.  `MS`, `Group_Match` and
  `Item_Match` call each other: each is given the matcher it calls, and `msAt` lets them call each other so many
  levels deep.  Every call takes a character off the pattern or off the name, so that there are levels enough.
-/
import Mathlib.Data.List.Basic
import Aegir.Lib.Languages

namespace Aegir.Cli.Wildcard

/-- `#` -/
def hash : UInt8 := 0x23
/-- `%` -/
def percent : UInt8 := 0x25
/-- `'` -/
def escape : UInt8 := 0x27
/-- `(` -/
def opening : UInt8 := 0x28
/-- `)` -/
def closing : UInt8 := 0x29
/-- `*` -/
def star : UInt8 := 0x2A
/-- `?` -/
def question : UInt8 := 0x3F
/-- `|` -/
def bar : UInt8 := 0x7C
/-- `~` -/
def tilde : UInt8 := 0x7E

/-- `Up`. -/
def up (c : UInt8) : UInt8 := if 0x61 ≤ c ∧ c ≤ 0x7A then c - 32 else c

/-- `Group_End`, behind the opening bracket: what stands in the group, and what behind it. -/
def groupEnd : List UInt8 → Option (List UInt8 × List UInt8)
  | [] => none
  | [c] => if c = closing then some ([], []) else none
  | c :: d :: cs =>
    if c = escape then (groupEnd cs).map fun (inner, rest) => (c :: d :: inner, rest)
    else if c = closing then some ([], d :: cs)
    else (groupEnd (d :: cs)).map fun (inner, rest) => (c :: inner, rest)

/-- The slices between the delimiters of `Group_Match`; `alt` is what has been passed over since the last. -/
def alternatives (alt : List UInt8) : List UInt8 → List (List UInt8)
  | [] => [alt]
  | [c] => if c = bar then [alt, []] else [alt ++ [c]]
  | c :: d :: cs =>
    if c = bar then alt :: alternatives [] (d :: cs)
    else if c = escape then alternatives (alt ++ [c, d]) cs
    else alternatives (alt ++ [c]) (d :: cs)

/-- `Group_Match`, of what stands in the group. -/
def groupMatch (ms : List UInt8 → List UInt8 → Bool) (inner s : List UInt8) : Bool :=
  (alternatives [] inner).any fun alt => ms alt s

/-- `Item_Match`, of the pattern from the item on. -/
def itemMatch (ms : List UInt8 → List UInt8 → Bool) (item s : List UInt8) : Bool :=
  match item with
  | [] => false
  | c :: cs =>
    if c = opening then
      match groupEnd cs with
      | none => false
      | some (inner, _) => groupMatch ms inner s
    else if c = escape then
      match cs, s with
      | d :: _, [x] => up x == up d
      | _, _ => false
    else if c = question then s.length == 1
    else if c = percent then s.isEmpty
    else
      match s with
      | [x] => up x == up c
      | _ => false

/-- `After`: what stands behind the item.  An escape takes two characters, be the second there or not. -/
def afterItem (item : List UInt8) : Option (List UInt8) :=
  match item with
  | [] => none
  | c :: cs =>
    if c = opening then (groupEnd cs).map Prod.snd
    else if c = escape then some (cs.drop 1)
    else some cs

/-- How many characters one repetition may take: only groups take more than one. -/
def repetitions (item s : List UInt8) : List Nat :=
  ((List.range s.length).map (· + 1)).filter fun k => item.head? = some opening || k == 1

/-- The body of `MS`. -/
def msStep (ms : List UInt8 → List UInt8 → Bool) (p s : List UInt8) : Bool :=
  match p with
  | [] => s.isEmpty
  | c :: cs =>
    if c = escape then
      match cs, s with
      | d :: ds, x :: xs => up x == up d && ms ds xs
      | _, _ => false
    else if c = question then
      match s with
      | [] => false
      | _ :: xs => ms cs xs
    else if c = percent then ms cs s
    else if c = tilde then !ms cs s
    else if c = opening then
      match groupEnd cs with
      | none => false
      | some (inner, rest) =>
        (List.range (s.length + 1)).any fun k => groupMatch ms inner (s.take k) && ms rest (s.drop k)
    else if c = star then
      ms cs s ||
        match s with
        | [] => false
        | _ :: xs => ms (c :: cs) xs
    else if c = hash then
      match afterItem cs with
      | none => false
      | some after =>
        ms after s || (repetitions cs s).any fun k => itemMatch ms cs (s.take k) && ms (c :: cs) (s.drop k)
    else
      match s with
      | [] => false
      | x :: xs => up x == up c && ms cs xs

/-- `MS`, so many levels deep. -/
def msAt : Nat → List UInt8 → List UInt8 → Bool
  | 0, _, _ => false
  | levels + 1, p, s => msStep (msAt levels) p s

/-- `MS`. -/
def ms (p s : List UInt8) : Bool := msAt (p.length + s.length + 1) p s

/-- `Match`. -/
def globMatch (pattern name : List UInt8) : Bool :=
  if pattern.length = 0 then name.length == 0 else ms pattern name

/-!
## The pattern syntax of the package, and the language of a pattern

?        any single character
*        any sequence
#x       zero or more occurrences of the single item x (a literal, ?, %, an escaped char, or a group)
%        the empty string
(a|b|c)  any one of the alternatives
~pat     whatever pat does not match
'x       literal x

Everything else is a literal character; groups do not nest, a bare `|` or `)` is literal.  A pattern that cannot be
read this way (a trailing escape, an unterminated group, a `#` at the end) has the EMPTY language, and so has such
an alternative.  Characters are compared without regard to their ASCII case.
-/

open Computability

/-! ## Reading patterns -/

/-- What a `#` may repeat. -/
inductive Item where
  | char (c : UInt8)
  | one
  | empty
  | group (alts : List (List UInt8))

inductive Token where
  | item (i : Item)
  | any
  | not
  | rep (i : Item)

/-- The text of an alternative: no bare `|` or `)`, and an escape has its character. -/
inductive AltText : List UInt8 → Prop where
  | nil : AltText []
  | plain {a : List UInt8} {c : UInt8} (hbar : c ≠ bar) (hclosing : c ≠ closing) (hescape : c ≠ escape)
    (h : AltText a) : AltText (c :: a)
  | escaped {a : List UInt8} (c : UInt8) (h : AltText a) : AltText (escape :: c :: a)

/-- What stands in a group, and its alternatives. -/
inductive Alts : List UInt8 → List (List UInt8) → Prop where
  | one {a : List UInt8} (h : AltText a) : Alts a [a]
  | more {a g : List UInt8} {as : List (List UInt8)} (h : AltText a) (hs : Alts g as) : Alts (a ++ bar :: g) (a :: as)

inductive ReadsItem : List UInt8 → Item → Prop where
  | one : ReadsItem [question] .one
  | empty : ReadsItem [percent] .empty
  | escaped (c : UInt8) : ReadsItem [escape, c] (.char c)
  | group {g : List UInt8} {alts : List (List UInt8)} (h : Alts g alts) :
    ReadsItem (opening :: (g ++ [closing])) (.group alts)

/-- The characters that never stand for themselves. -/
def StartsItem (c : UInt8) : Prop := c = question ∨ c = percent ∨ c = escape ∨ c = opening

inductive ReadsToken : List UInt8 → Token → Prop where
  | item {w : List UInt8} {i : Item} (h : ReadsItem w i) : ReadsToken w (.item i)
  | char {c : UInt8} (h : ¬ StartsItem c) (hstar : c ≠ star) (htilde : c ≠ tilde) (hhash : c ≠ hash) :
    ReadsToken [c] (.item (.char c))
  | any : ReadsToken [star] .any
  | not : ReadsToken [tilde] .not
  | rep {w : List UInt8} {i : Item} (h : ReadsItem w i) : ReadsToken (hash :: w) (.rep i)
  | repChar {c : UInt8} (h : ¬ StartsItem c) : ReadsToken [hash, c] (.rep (.char c))

/-- A pattern, and its tokens. -/
inductive Reads : List UInt8 → List Token → Prop where
  | nil : Reads [] []
  | cons {w p : List UInt8} {t : Token} {ts : List Token} (ht : ReadsToken w t) (hs : Reads p ts) :
    Reads (w ++ p) (t :: ts)

/-- A pattern that can be read. -/
def Readable (p : List UInt8) : Prop := ∃ ts, Reads p ts

/-! ## Languages -/

/-- The language of an item, over one of groups. -/
def Item.lang (G : List (List UInt8) → Language UInt8) : Item → Language UInt8
  | .char c => {s | ∃ d, s = [d] ∧ up d = up c}
  | .one => {s | ∃ d, s = [d]}
  | .empty => 1
  | .group alts => G alts

/-- The language of a token before a language. -/
def Token.before (G : List (List UInt8) → Language UInt8) (M : Language UInt8) : Token → Language UInt8
  | .item i => i.lang G * M
  | .any => ⊤ * M
  | .not => Mᶜ
  | .rep i => (i.lang G)∗ * M

def denote (G : List (List UInt8) → Language UInt8) : List Token → Language UInt8
  | [] => 1
  | t :: ts => t.before G (denote G ts)

/-- The language of a pattern: of its tokens, or nothing. -/
def langOver (G : List (List UInt8) → Language UInt8) (p : List UInt8) : Language UInt8 :=
  {s | ∃ ts, Reads p ts ∧ s ∈ denote G ts}

/-- The union of the alternatives, read as patterns; there are no groups in them. -/
def groupLang (alts : List (List UInt8)) : Language UInt8 := {s | ∃ alt ∈ alts, s ∈ langOver (fun _ => 0) alt}

/-- **The language of a pattern.** -/
def lang (p : List UInt8) : Language UInt8 := langOver groupLang p

/-! ## The parts of a pattern -/

/-- The alternatives in a token. -/
def Token.alts : Token → List (List UInt8)
  | .item (.group alts) => alts
  | .rep (.group alts) => alts
  | _ => []

/-- `q` is a part of the pattern `p`: what stands behind some tokens, or in an alternative. -/
inductive Part : List UInt8 → List UInt8 → Prop where
  | refl (p : List UInt8) : Part p p
  | tail {w p q : List UInt8} {t : Token} (ht : ReadsToken w t) (h : Part p q) : Part (w ++ p) q
  | alt {w p q a : List UInt8} {t : Token} (ht : ReadsToken w t) (ha : a ∈ t.alts) (h : Part a q) : Part (w ++ p) q

/-- **What the package promises** of a pattern: its matching comes to an end, and it and every part of it match
    exactly the names of its language. -/
structure Means (p : List UInt8) : Prop where
  ends : ∀ name levels, p.length + name.length < levels → msAt levels p name = ms p name
  matches_iff : ∀ q, Part p q → ∀ name, globMatch q name = true ↔ name ∈ lang q

/-- The parts that are matched wrong: what cannot be read and begins with `~`, and a `#` before a trailing escape. -/
def Broken (q : List UInt8) : Prop := (∃ r, q = tilde :: r ∧ ¬ Readable q) ∨ q = [hash, escape]

end Aegir.Cli.Wildcard
