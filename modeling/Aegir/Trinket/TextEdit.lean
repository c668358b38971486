/-
  The text editor widget, with every check of its runtime.

  Lines stand in a table of 512 records, each a buffer of 128 characters with the length in use; records
  behind the last line keep what they held.  `none` is a FAILED CHECK: an index, a slice, the length of an
  assignment, a number that must not be negative, a conversion to a number that does not fit, a division
  by zero.

  A `Screen` is what the widget finds when it is called: its place and size, and the font.
-/
import Mathlib.Algebra.Group.Nat.Defs
import Aegir.Lib.FixedStrings
import Aegir.Trinket.Document

namespace Aegir.Trinket

open Aegir.Lib Function

/-- `Line_Rec`; positions count from 1. -/
structure LineRec where
  buf : Nat → UInt8
  len : Nat

/-- Drawing's dirty flag is left out, and the callback that hears of modifications. -/
structure TextEdit where
  lines : Nat → LineRec
  n : Nat
  curL : Nat
  curC : Nat
  top : UInt64
  hOff : UInt64
  sel : Bool
  anchL : Nat
  anchC : Nat
  dragging : Bool
  dirtyF : Bool

structure Screen where
  x : UInt64
  y : UInt64
  w : UInt64
  h : UInt64
  lineHeight : UInt64
  textWidth : List UInt8 → UInt64

def pad : UInt64 := 6

/-- A check that may fail. -/
def check (p : Prop) [Decidable p] : Option Unit := if p then some () else none

/-- `Natural (…)`. -/
def natural (x : UInt64) : Option Nat := if x.toNat < 2 ^ 31 then some x.toNat else none

/-- `Inside`. -/
def Screen.inside (g : Screen) (px py : UInt64) : Bool :=
  decide (px ≥ g.x ∧ px < g.x + g.w ∧ py ≥ g.y ∧ py < g.y + g.h)

def Screen.visibleWidth (g : Screen) : UInt64 := if g.w > 2 * pad + 2 then g.w - 2 * pad - 2 else 0

def Screen.visibleRows (g : Screen) : Option UInt64 :=
  if g.h > 2 * pad + g.lineHeight then
    if g.lineHeight = 0 then none else some ((g.h - 2 * pad) / g.lineHeight)
  else some 1

namespace TextEdit

variable (g : Screen) (w : TextEdit)

/-! ## Content -/

/-- `New_Text_Edit`; the buffers are not initialised. -/
def new (bufs : Nat → Nat → UInt8) : TextEdit where
  lines l := ⟨bufs l, 0⟩
  n := 1
  curL := 1
  curC := 0
  top := 0
  hOff := 0
  sel := false
  anchL := 1
  anchC := 0
  dragging := false
  dirtyF := false

/-- `Lines (L)`, with the index check. -/
def line (l : Nat) : Option LineRec := if 1 ≤ l ∧ l ≤ maxLines then some (w.lines l) else none

def setLine (l : Nat) (r : LineRec) : TextEdit := { w with lines := update w.lines l r }

/-- `Clear`. -/
def clear : TextEdit :=
  { w with n := 0, curL := 1, curC := 0, top := 0, hOff := 0, sel := false, dirtyF := false }

/-- `Append_Line`. -/
def appendLine (s : List UInt8) : Option TextEdit :=
  if w.n ≥ maxLines then some w
  else do
    let r ← w.line (w.n + 1)
    let len := min s.length maxCols
    let buf ← assign maxCols r.buf 1 len (s.take len)
    some { w.setLine (w.n + 1) ⟨buf, len⟩ with n := w.n + 1 }

/-- `Ensure_Line`. -/
def ensureLine : TextEdit :=
  if w.n = 0 then
    { w with n := 1, lines := update w.lines 1 ⟨(w.lines 1).buf, 0⟩, curL := 1, curC := 0 }
  else w

/-! ## Editing -/

/-- `Sel_Bounds`: L1, C1, L2, C2. -/
def selBounds : Nat × Nat × Nat × Nat :=
  if w.anchL < w.curL ∨ w.anchL = w.curL ∧ w.anchC ≤ w.curC then (w.anchL, w.anchC, w.curL, w.curC)
  else (w.curL, w.curC, w.anchL, w.anchC)

/-- `Delete_Selection`.  The tail of the last line is clipped to what the first line can take. -/
def deleteSelection : Option TextEdit :=
  if w.sel = false then some w
  else
    match w.selBounds with
    | (l1, c1, l2, c2) =>
      if l1 = l2 then do
        let b ← w.line l1
        check (c2 - c1 ≤ b.len)
        let front ← slice maxCols b.buf 1 c1
        let rest ← slice maxCols b.buf (c2 + 1) b.len
        let buf ← assign maxCols b.buf 1 (b.len - (c2 - c1)) (front ++ rest)
        some { w.setLine l1 ⟨buf, b.len - (c2 - c1)⟩ with curL := l1, curC := c1, sel := false, dirtyF := true }
      else do
        let last ← w.line l2
        check (c2 ≤ last.len ∧ c1 ≤ maxCols)
        let tail ← slice maxCols last.buf (c2 + 1) (c2 + min (last.len - c2) (maxCols - c1))
        let first ← w.line l1
        let buf ← assign maxCols first.buf (c1 + 1) (c1 + tail.length) tail
        let lines ← copyLoop maxLines (· + (l2 - l1)) (List.range' (l1 + 1) (w.n - (l2 - l1) - l1))
          (update w.lines l1 ⟨buf, c1 + tail.length⟩)
        check (l2 - l1 ≤ w.n)
        some
          { w with
            lines := lines, n := w.n - (l2 - l1), curL := l1, curC := c1, sel := false, dirtyF := true }

/-- The second half of `Insert_Char`, when the selection is gone. -/
def putChar (ch : UInt8) (w : TextEdit) : Option TextEdit := do
  let ll ← w.line w.curL
  let moved ← slice maxCols ll.buf (w.curC + 1) ll.len
  let buf ← assign maxCols ll.buf (w.curC + 2) (ll.len + 1) moved
  let buf ← assign maxCols buf (w.curC + 1) (w.curC + 1) [ch]
  some { w.setLine w.curL ⟨buf, ll.len + 1⟩ with curC := w.curC + 1, dirtyF := true }

/-- `Insert_Char`.  The line is asked for room before the selection goes. -/
def insertChar (ch : UInt8) : Option TextEdit := do
  let l ← w.line w.curL
  if l.len ≥ maxCols then some w else w.deleteSelection.bind (putChar ch)

/-- `Backspace`. -/
def backspace : Option TextEdit :=
  if w.sel then w.deleteSelection
  else if w.curC > 0 then do
    let l ← w.line w.curL
    check (1 ≤ l.len)
    let moved ← slice maxCols l.buf (w.curC + 1) l.len
    let buf ← assign maxCols l.buf w.curC (l.len - 1) moved
    some { w.setLine w.curL ⟨buf, l.len - 1⟩ with curC := w.curC - 1, dirtyF := true }
  else if w.curL > 1 then do
    -- join with the previous line
    let prev ← w.line (w.curL - 1)
    let last ← w.line w.curL
    let cur ← slice maxCols last.buf 1 last.len
    if prev.len + cur.length ≤ maxCols then
      let buf ← assign maxCols prev.buf (prev.len + 1) (prev.len + cur.length) cur
      let lines ← copyLoop maxLines (· + 1) (List.range' w.curL (w.n - w.curL))
        (update w.lines (w.curL - 1) ⟨buf, prev.len + cur.length⟩)
      check (1 ≤ w.n)
      some { w with lines := lines, n := w.n - 1, curL := w.curL - 1, curC := prev.len, dirtyF := true }
    else some w
  else some w

/-- The second half of `Split_Line`. -/
def breakLine : Option TextEdit := do
  let l ← w.line w.curL
  let rest ← slice maxCols l.buf (w.curC + 1) l.len
  let lines ← copyLoop maxLines (· - 1) (List.range' (w.curL + 1) (w.n + 1 - w.curL)).reverse w.lines
  let moved := { w with lines := lines }
  let l ← moved.line w.curL
  let cut := moved.setLine w.curL ⟨l.buf, w.curC⟩
  let next ← cut.line (w.curL + 1)
  let buf ← assign maxCols next.buf 1 rest.length rest
  some
    { cut.setLine (w.curL + 1) ⟨buf, rest.length⟩ with
      n := w.n + 1, curL := w.curL + 1, curC := 0, dirtyF := true }

/-- `Split_Line`.  The table is asked for room before the selection goes. -/
def splitLine : Option TextEdit :=
  if w.n ≥ maxLines then some w else w.deleteSelection.bind breakLine

/-- `Forward_Delete`. -/
def forwardDelete : Option TextEdit :=
  if w.sel then w.deleteSelection
  else do
    let l ← w.line w.curL
    if w.curC < l.len then backspace { w with curC := w.curC + 1 }
    else if w.curL < w.n then backspace { w with curL := w.curL + 1, curC := 0 }
    else some w

/-! ## The view -/

/-- `Col_X` on the characters in use of a line. -/
def colX (r : LineRec) (col : Nat) : Option UInt64 :=
  if col = 0 then some 0
  else do
    let s ← slice r.len r.buf 1 col
    some (g.textWidth s)

/-- The first visible line that shows line `row`. -/
def topFor (row : UInt64) : Option UInt64 :=
  if row < w.top then some row
  else do
    let rows ← g.visibleRows
    some (if row ≥ w.top + rows then row - rows + 1 else w.top)

/-- The scroll offset that shows the gap at pixel `cx`. -/
def hOffFor (cx : UInt64) : UInt64 :=
  if cx < w.hOff then cx
  else if cx + 2 > w.hOff + g.visibleWidth then cx + 2 - g.visibleWidth
  else w.hOff

/-- `Ensure_Cursor_Visible`. -/
def ensureCursorVisible : Option TextEdit := do
  check (1 ≤ w.curL)
  let top ← topFor g w (UInt64.ofNat (w.curL - 1))
  if g.visibleWidth > 0 then
    let l ← w.line w.curL
    check (l.len ≤ maxCols)
    let cx ← colX g l w.curC
    some { w with top := top, hOff := hOffFor g w cx }
  else some { w with top := top }

/-- `Set_Top`. -/
def setTop (t : UInt64) : Option TextEdit := do
  let rows ← g.visibleRows
  let maxTop := if UInt64.ofNat w.n > rows then UInt64.ofNat w.n - rows else 0
  some { w with top := min t maxTop }

/-- The view a page up, and a page down. -/
def pageUp : Option TextEdit := do
  let rows ← g.visibleRows
  some { w with top := if w.top > rows then w.top - rows else 0 }

def pageDown : Option TextEdit := do
  let rows ← g.visibleRows
  setTop g w (w.top + rows)

/-- `Clamp_Cursor`. -/
def clampCursor : Option TextEdit := do
  let curL := if w.curL > w.n then w.n else w.curL
  let l ← w.line curL
  some { w with curL := curL, curC := if w.curC > l.len then l.len else w.curC }

/-- `Collapse`. -/
def collapse : TextEdit := { w with sel := false }

/-! ## Texts and keys -/

/-- The loop of `Insert_Text`; `prev` is the character before. -/
def insertLoop : Option UInt8 → List UInt8 → TextEdit → Option TextEdit
  | _, [], w => some w
  | prev, c :: cs, w =>
    if c = 13 ∨ c = 10 then
      if c = 10 ∧ prev = some 13 then insertLoop (some c) cs w
      else w.splitLine.bind (insertLoop (some c) cs)
    else (w.insertChar c).bind (insertLoop (some c) cs)

/-- `Insert_Text`. -/
def insertText (s : List UInt8) : Option TextEdit :=
  (insertLoop none s w).bind (ensureCursorVisible g)

/-- The branches of `On_Key`. -/
inductive Key
  | char (c : UInt8)
  | backspace
  | «return»
  | delete
  | up
  | down
  | left
  | right
  | home
  | «end»
  | ctrlHome
  | ctrlEnd
  | pageup
  | pagedown
deriving DecidableEq

/-- `none` is a code that is not consumed. -/
def keyOf (code : UInt64) : Option Key :=
  if 32 ≤ code ∧ code ≤ 126 then some (.char code.toUInt8)
  else if code = 8 then some .backspace
  else if code = 10 then some .return
  else if code = 0x88 then some .delete
  else if code = 0x80 then some .up
  else if code = 0x81 then some .down
  else if code = 0x82 then some .left
  else if code = 0x83 then some .right
  else if code = 0x84 then some .home
  else if code = 0x85 then some .end
  else if code = 0x89 then some .ctrlHome
  else if code = 0x8A then some .ctrlEnd
  else if code = 0x86 then some .pageup
  else if code = 0x87 then some .pagedown
  else none

/-- What a key does before the cursor is made visible. -/
def onKeyBranch : Key → Option TextEdit
  | .char c => w.insertChar c
  | .backspace => w.backspace
  | .return => w.splitLine
  | .delete => w.forwardDelete
  | .up => clampCursor { w.collapse with curL := if w.curL > 1 then w.curL - 1 else w.curL }
  | .down => clampCursor { w.collapse with curL := if w.curL < w.n then w.curL + 1 else w.curL }
  | .left =>
    if w.curC > 0 then some { w.collapse with curC := w.curC - 1 }
    else if w.curL > 1 then do
      let l ← w.line (w.curL - 1)
      some { w.collapse with curL := w.curL - 1, curC := l.len }
    else some w.collapse
  | .right => do
    let l ← w.line w.curL
    if w.curC < l.len then some { w.collapse with curC := w.curC + 1 }
    else if w.curL < w.n then some { w.collapse with curL := w.curL + 1, curC := 0 }
    else some w.collapse
  | .home => some { w.collapse with curC := 0 }
  | .end => do
    let l ← w.line w.curL
    some { w.collapse with curC := l.len }
  | .ctrlHome => some { w.collapse with top := 0, curL := 1, curC := 0 }
  | .ctrlEnd => do
    let l ← w.line w.n
    some { w.collapse with curL := w.n, curC := l.len }
  | .pageup => do
    let w ← pageUp g w.collapse
    let row ← natural w.top
    clampCursor { w with curL := row + 1 }
  | .pagedown => do
    let w ← pageDown g w.collapse
    let row ← natural w.top
    clampCursor { w with curL := row + 1 }

/-- `On_Key`, with the answer whether the key was consumed. -/
def onKey (code : UInt64) : Option (Bool × TextEdit) :=
  match keyOf code with
  | none => some (false, w.ensureLine)
  | some key => do
    let w ← onKeyBranch g w.ensureLine key
    let w ← ensureCursorVisible g w
    some (true, w)

/-! ## The pointer -/

/-- The loop of `Locate`: `left` characters are ahead, `p` is the next, `acc` pixels are behind. -/
def gapLoop (g : Screen) (r : LineRec) (t : UInt64) : Nat → Nat → UInt64 → Option Nat
  | 0, _, _ => some r.len
  | left + 1, p, acc => do
    let s ← slice maxCols r.buf p p
    if acc + g.textWidth s / 2 ≥ t then some (p - 1)
    else gapLoop g r t left (p + 1) (acc + g.textWidth s)

/-- The row under the pointer, from the first visible one. -/
def pointedRow (py : UInt64) : Option UInt64 :=
  if py > g.y + pad then if g.lineHeight = 0 then none else some ((py - g.y - pad) / g.lineHeight)
  else some 0

/-- `Locate`: line and column. -/
def locate (px py : UInt64) : Option (Nat × Nat) := do
  let row ← pointedRow g py
  let top ← natural w.top
  let row ← natural row
  check (top + row + 1 < 2 ^ 31)
  let l := min (top + row + 1) w.n
  let r ← w.line l
  let t := (if px > g.x + pad then px - g.x - pad else 0) + w.hOff
  let col ← gapLoop g r t r.len 1 0
  some (l, col)

inductive PointerKind
  | press
  | move
  | release
deriving DecidableEq

/-- What `On_Pointer` does when there is a line. -/
def onPointerBranch (k : PointerKind) (px py : UInt64) :
    Option (Bool × TextEdit) :=
  match k with
  | .press =>
    if g.inside px py then do
      let p ← locate g w px py
      some
        (true, { w with curL := p.1, curC := p.2, anchL := p.1, anchC := p.2, sel := false, dragging := true })
    else some (false, w)
  | .move =>
    if w.dragging then do
      let p ← locate g w px py
      if p.1 ≠ w.curL ∨ p.2 ≠ w.curC then
        let w ← ensureCursorVisible g { w with curL := p.1, curC := p.2, sel := true }
        some (true, w)
      else some (true, w)
    else some (false, w)
  | .release =>
    if w.dragging then
      some (true, { w with dragging := false, sel := w.sel && !decide (w.anchL = w.curL ∧ w.anchC = w.curC) })
    else some (false, w)

/-- `On_Pointer`, with the answer whether the event was consumed. -/
def onPointer (k : PointerKind) (px py : UInt64) : Option (Bool × TextEdit) :=
  onPointerBranch g w.ensureLine k px py

/-! ## Calls -/

inductive Action
  | clear
  | appendLine (s : List UInt8)
  | insertText (s : List UInt8)
  | onKey (code : UInt64)
  | onPointer (k : PointerKind) (px py : UInt64)

/-- One call; the screen is the one of its time. -/
def step : Action → Option TextEdit
  | .clear => some w.clear
  | .appendLine s => w.appendLine s
  | .insertText s => insertText g w s
  | .onKey code => (onKey g w code).map Prod.snd
  | .onPointer k px py => (onPointer g w k px py).map Prod.snd

/-- The calls one after the other. -/
def run : List (Screen × Action) → TextEdit → Option TextEdit
  | [], w => some w
  | (g, a) :: rest, w => (step g w a).bind (run rest)

end TextEdit

end Aegir.Trinket
