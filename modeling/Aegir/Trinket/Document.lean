/-
  The DOCUMENT that a text editor edits: lines of characters, a cursor, an anchor.

  One operation changes the text: `replace` puts something, a `Glue` between two pieces, in the place of the
  text between two positions.  An operation whose result has a line of more than `maxCols` characters or more
  than `maxLines` lines is REFUSED: nothing changes.  Rows and columns count from 0; a column is the gap in
  front of a character.
-/
import Mathlib.Data.List.TakeDrop

namespace Aegir.Trinket

/-- `Max_Lines`. -/
def maxLines : Nat := 512

/-- `Max_Cols`. -/
def maxCols : Nat := 128

abbrev Line := List UInt8

structure Pos where
  row : Nat
  col : Nat
deriving DecidableEq

structure Doc where
  lines : List Line
  cur : Pos
  anchor : Pos
  sel : Bool
  dragging : Bool
deriving DecidableEq

/-- What stands in the place of the replaced text, between what is left of its first and its last line. -/
abbrev Glue := Line → Line → List Line

def joined : Glue := fun front back => [front ++ back]
def around (c : UInt8) : Glue := fun front back => [front ++ c :: back]
def broken : Glue := fun front back => [front, back]

/-- The lines with the text from `p` to `q` replaced. -/
def replace (ls : List Line) (p q : Pos) (glue : Glue) : List Line :=
  ls.take p.row ++ glue ((ls.getD p.row []).take p.col) ((ls.getD q.row []).drop q.col) ++
    ls.drop (q.row + 1)

theorem getD_mid (front rest : List Line) (x : Line) : (front ++ [x] ++ rest).getD front.length [] = x := by
  simp

theorem replace_mid (front rest : List Line) (a b : Line) (glue : Glue) :
    replace (front ++ [a ++ b] ++ rest) ⟨front.length, a.length⟩ ⟨front.length, a.length⟩ glue =
      front ++ glue a b ++ rest := by
  have hline := getD_mid front rest (a ++ b)
  have htake : (front ++ [a ++ b] ++ rest).take front.length = front := by simp
  have hdrop : (front ++ [a ++ b] ++ rest).drop (front.length + 1) = rest := by simp
  unfold replace
  rw [hline, htake, hdrop, List.take_left, List.drop_left]

/-- What the editor can hold. -/
def Fits (ls : List Line) : Prop := ls.length ≤ maxLines ∧ ∀ l ∈ ls, l.length ≤ maxCols

instance (ls : List Line) : Decidable (Fits ls) := inferInstanceAs (Decidable (_ ∧ _))

namespace Doc

variable (d : Doc)

def line (row : Nat) : Line := d.lines.getD row []

/-- Is the anchor in front of the cursor, or on it? -/
def anchorFirst : Prop :=
  d.anchor.row < d.cur.row ∨ d.anchor.row = d.cur.row ∧ d.anchor.col ≤ d.cur.col

instance (d : Doc) : Decidable d.anchorFirst := inferInstanceAs (Decidable (_ ∨ _))

/-- The two ends of the selection, or twice the cursor. -/
def start : Pos := if d.sel then if d.anchorFirst then d.anchor else d.cur else d.cur
def stop : Pos := if d.sel then if d.anchorFirst then d.cur else d.anchor else d.cur

/-- A replacement that leaves the cursor at `cur`; `none` is a refusal. -/
def edit (p q : Pos) (glue : Glue) (cur : Pos) : Option Doc :=
  if Fits (replace d.lines p q glue) then
    some { d with lines := replace d.lines p q glue, cur := cur, sel := false }
  else none

theorem edit_sel {d d' : Doc} {p q : Pos} {glue : Glue} {cur : Pos} (h : d.edit p q glue cur = some d') :
    d'.sel = false := by
  unfold edit at h
  split at h
  · cases h
    rfl
  · cases h

/-- Typing replaces the selection. -/
def type (c : UInt8) : Option Doc :=
  d.edit d.start d.stop (around c) ⟨d.start.row, d.start.col + 1⟩

/-- Enter splits. -/
def enter : Option Doc := d.edit d.start d.stop broken ⟨d.start.row + 1, 0⟩

/-- Taking out the text between two positions. -/
def cut (p q : Pos) : Option Doc := d.edit p q joined p

/-- The selection goes, or the character in front of the cursor, or the break in front of the line. -/
def backspace : Option Doc :=
  if d.sel then d.cut d.start d.stop
  else if 0 < d.cur.col then d.cut ⟨d.cur.row, d.cur.col - 1⟩ d.cur
  else if 0 < d.cur.row then d.cut ⟨d.cur.row - 1, (d.line (d.cur.row - 1)).length⟩ d.cur
  else some d

/-- The selection goes, or the character behind the cursor, or the break behind the line. -/
def delete : Option Doc :=
  if d.sel then d.cut d.start d.stop
  else if d.cur.col < (d.line d.cur.row).length then d.cut d.cur ⟨d.cur.row, d.cur.col + 1⟩
  else if d.cur.row + 1 < d.lines.length then d.cut d.cur ⟨d.cur.row + 1, 0⟩
  else some d

/-- A text is typed, CR LF being one break; `prev` is the character before. -/
def typeAll : Option UInt8 → List UInt8 → Doc → Option Doc
  | _, [], d => some d
  | prev, c :: cs, d =>
    if c = 13 ∨ c = 10 then
      if c = 10 ∧ prev = some 13 then typeAll (some c) cs d
      else d.enter.bind (typeAll (some c) cs)
    else (d.type c).bind (typeAll (some c) cs)

/-- There is a line to edit. -/
def opened : Doc := if d.lines = [] then { d with lines := [[]], cur := ⟨0, 0⟩ } else d

theorem opened_of_ne {d : Doc} (h : d.lines ≠ []) : d.opened = d := if_neg h

/-- The cursor alone moves. -/
def moveTo (p : Pos) : Doc := { d with cur := p, sel := false }

/-- The cursor on line `row`, or the last one, in its column where the line is long enough. -/
def toRow (row : Nat) : Doc :=
  d.moveTo ⟨min row (d.lines.length - 1), min d.cur.col (d.line (min row (d.lines.length - 1))).length⟩

end Doc

/-- What can happen to a document. -/
inductive Command
  | clear
  | append (text : Line)
  | insert (text : List UInt8)
  | type (c : UInt8)
  | backspace
  | enter
  | delete
  | up
  | down
  | left
  | right
  | home
  | «end»
  | top
  | bottom
  | row (r : Nat)
  | press (p : Pos)
  | drag (p : Pos)
  | release
  | none
deriving DecidableEq

/-- Commands that need a line. -/
def Command.opens : Command → Bool
  | .clear | .append _ | .insert _ => false
  | _ => true

namespace Doc

variable (d : Doc)

theorem toRow_eq {d : Doc} {r r' : Nat} (h : min r (d.lines.length - 1) = min r' (d.lines.length - 1)) :
    d.toRow r = d.toRow r' := by
  unfold toRow
  rw [h]

def left : Doc :=
  if 0 < d.cur.col then d.moveTo ⟨d.cur.row, d.cur.col - 1⟩
  else if 0 < d.cur.row then d.moveTo ⟨d.cur.row - 1, (d.line (d.cur.row - 1)).length⟩
  else d.moveTo d.cur

def right : Doc :=
  if d.cur.col < (d.line d.cur.row).length then d.moveTo ⟨d.cur.row, d.cur.col + 1⟩
  else if d.cur.row + 1 < d.lines.length then d.moveTo ⟨d.cur.row + 1, 0⟩
  else d.moveTo d.cur

/-- **One command**; a refused one changes nothing. -/
def run (c : Command) (d : Doc) : Doc :=
  match c with
  | .clear => { d with lines := [], cur := ⟨0, 0⟩, sel := false }
  | .append text => if Fits (d.lines ++ [text]) then { d with lines := d.lines ++ [text] } else d
  | .insert text => (d.typeAll none text).getD d
  | .type c => (d.opened.type c).getD d.opened
  | .backspace => d.opened.backspace.getD d.opened
  | .enter => d.opened.enter.getD d.opened
  | .delete => d.opened.delete.getD d.opened
  | .up => d.opened.toRow (d.opened.cur.row - 1)
  | .down => d.opened.toRow (d.opened.cur.row + 1)
  | .left => d.opened.left
  | .right => d.opened.right
  | .home => d.opened.moveTo ⟨d.opened.cur.row, 0⟩
  | .end => d.opened.moveTo ⟨d.opened.cur.row, (d.opened.line d.opened.cur.row).length⟩
  | .top => d.opened.moveTo ⟨0, 0⟩
  | .bottom =>
    d.opened.moveTo ⟨d.opened.lines.length - 1, (d.opened.line (d.opened.lines.length - 1)).length⟩
  | .row r => d.opened.toRow r
  | .press p => { d.opened with cur := p, anchor := p, sel := false, dragging := true }
  | .drag p => if p = d.opened.cur then d.opened else { d.opened with cur := p, sel := true }
  | .release =>
    { d.opened with dragging := false, sel := d.opened.sel && decide (d.opened.anchor ≠ d.opened.cur) }
  | .none => d.opened

theorem run_opened {c : Command} (h : c.opens = true) (d : Doc) : d.opened.run c = d.run c := by
  have hopen : d.opened.opened = d.opened := by
    by_cases hlines : d.lines = []
    · have heq : d.opened = { d with lines := [[]], cur := ⟨0, 0⟩ } := if_pos hlines
      rw [heq]
      rfl
    · rw [opened_of_ne hlines, opened_of_ne hlines]
  cases c with
  | clear | append _ | insert _ => cases h
  | _ =>
    unfold run
    rw [hopen]

def runAll (cs : List Command) (d : Doc) : Doc := cs.foldl (fun d c => d.run c) d

/-- The document of a new widget: one empty line. -/
def new : Doc := ⟨[[]], ⟨0, 0⟩, ⟨0, 0⟩, false, false⟩

end Doc

end Aegir.Trinket
