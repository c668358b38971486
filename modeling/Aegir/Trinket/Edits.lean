/-
  What each editing operation does to the document.

  A line changes (`edited_setLine`), several become one (`edited_join`), one becomes two
  (`edited_split`); every operation is one of these after `deleteSelection_edited`.  The code does what the
  document's operation does in the states where it looks at the right thing: `left` is how much of the
  selection's first and last line stays, and it has to fit in one line.
-/
import Aegir.Trinket.Table

namespace Aegir.Trinket

open Aegir.Lib List Option Function

namespace TextEdit

variable {w w' : TextEdit} {l c l1 c1 l2 c2 : Nat} {ch : UInt8}

/-! ## The selection -/

variable {ls : List Line} {glue : Glue} {r : LineRec}

/-- The two ends of the selection, in order, or twice the cursor. -/
structure Ends (w : TextEdit) (l1 c1 l2 c2 : Nat) : Prop where
  bounds : w.sel = true → w.selBounds = (l1, c1, l2, c2)
  single : w.sel = false → (l1 = w.curL ∧ c1 = w.curC) ∧ l2 = w.curL ∧ c2 = w.curC
  first : w.At l1 c1
  last : w.At l2 c2
  order : l1 < l2 ∨ l1 = l2 ∧ c1 ≤ c2
  start : w.doc.start = ⟨l1 - 1, c1⟩
  stop : w.doc.stop = ⟨l2 - 1, c2⟩

theorem Inv.ends_cursor (h : Inv w) (hn : 0 < w.n) (hsel : w.sel = false) :
    w.Ends w.curL w.curC w.curL w.curC := by
  have hdoc : ¬ w.doc.sel = true := by
    show ¬ w.sel = true
    simp [hsel]
  refine ⟨fun hs => by simp [hsel] at hs, fun _ => ⟨⟨rfl, rfl⟩, rfl, rfl⟩, h.cursor hn, h.cursor hn,
    .inr ⟨rfl, Nat.le_refl _⟩, ?_, ?_⟩
  · unfold Doc.start
    rw [if_neg hdoc]
    rfl
  · unfold Doc.stop
    rw [if_neg hdoc]
    rfl

theorem Inv.ends (h : Inv w) (hn : 0 < w.n) : ∃ l1 c1 l2 c2, w.Ends l1 c1 l2 c2 := by
  cases hsel : w.sel with
  | false => exact ⟨_, _, _, _, h.ends_cursor hn hsel⟩
  | true =>
  have hfalse : ¬ w.sel = false := by simp [hsel]
  have hcur := h.cursor hn
  have hanch := h.anchor hsel
  have hpos := hcur.pos
  have hpos' := hanch.pos
  have hsame : w.doc.anchorFirst ↔ w.anchL < w.curL ∨ w.anchL = w.curL ∧ w.anchC ≤ w.curC := by
    show (w.anchL - 1 < w.curL - 1 ∨ w.anchL - 1 = w.curL - 1 ∧ w.anchC ≤ w.curC) ↔ _
    omega
  have hdoc : w.doc.sel = true := hsel
  by_cases hfirst : w.anchL < w.curL ∨ w.anchL = w.curL ∧ w.anchC ≤ w.curC
  · refine ⟨w.anchL, w.anchC, w.curL, w.curC, fun _ => if_pos hfirst, fun hs => absurd hs hfalse, hanch, hcur, hfirst, ?_, ?_⟩
    · unfold Doc.start
      rw [if_pos hdoc, if_pos (hsame.mpr hfirst)]
      rfl
    · unfold Doc.stop
      rw [if_pos hdoc, if_pos (hsame.mpr hfirst)]
      rfl
  · refine ⟨w.curL, w.curC, w.anchL, w.anchC, fun _ => if_neg hfirst, fun hs => absurd hs hfalse, hcur, hanch,
      by omega, ?_, ?_⟩
    · unfold Doc.start
      rw [if_pos hdoc, if_neg (hsame.not.mpr hfirst)]
      rfl
    · unfold Doc.stop
      rw [if_pos hdoc, if_neg (hsame.not.mpr hfirst)]
      rfl

/-- What an edit leaves: a text, a cursor, no selection. -/
structure Edited (w w' : TextEdit) (ls : List Line) (l c : Nat) : Prop where
  inv : Inv w'
  pos : 0 < w'.n
  text : w'.text = ls
  curL : w'.curL = l
  curC : w'.curC = c
  sel : w'.sel = false
  anchL : w'.anchL = w.anchL
  anchC : w'.anchC = w.anchC
  dragging : w'.dragging = w.dragging

theorem Edited.doc (h : Edited w w' ls l c) :
    w'.doc = { w.doc with lines := ls, cur := ⟨l - 1, c⟩, sel := false } := by
  unfold TextEdit.doc
  rw [h.text, h.curL, h.curC, h.sel, h.anchL, h.anchC, h.dragging]

/-- What no editing operation touches. -/
structure Kept (w w' : TextEdit) : Prop where
  anchL : w'.anchL = w.anchL
  anchC : w'.anchC = w.anchC
  dragging : w'.dragging = w.dragging
  top : w'.top = w.top

theorem edited_of (h : Inv w) (hkept : Kept w w') (htext : w'.text = ls)
    (hlens : ∀ l, (w'.lines l).len ≤ maxCols) (hcount : w'.n ≤ maxLines) (hat : w'.At w'.curL w'.curC)
    (hsel : w'.sel = false) : Edited w w' ls w'.curL w'.curC where
  inv :=
    { lens := hlens
      count := hcount
      empty := fun h0 => by
        have := hat.pos
        have := hat.le
        omega
      cursor := fun _ => hat
      anchor := fun hs => by simp [hsel] at hs
      anchL := hkept.anchL ▸ h.anchL
      top := hkept.top ▸ h.top }
  pos := by
    have := hat.pos
    have := hat.le
    omega
  text := htext
  curL := rfl
  curC := rfl
  sel := hsel
  anchL := hkept.anchL
  anchC := hkept.anchC
  dragging := hkept.dragging

theorem text_setLine (h1 : w.At l c1) (h2 : w.At l c2) (hglue : glue (w.front l c1) (w.back l c2) = [r.text]) :
    (w.setLine l r).text = replace w.text ⟨l - 1, c1⟩ ⟨l - 1, c2⟩ glue := by
  have hpos := h1.pos
  have hle := h1.le
  apply text_splice h1 h2
  · rw [hglue]
    show w.n = _ + 1 + _
    omega
  · intro i _ hi
    show update w.lines l r i = _
    rw [update_of_ne (by omega)]
  · rw [hglue]
    show [(update w.lines l r l).text] = _
    rw [update_self]
  · intro j _
    rw [hglue]
    show update w.lines l r (l + 1 + j) = _
    rw [update_of_ne (by omega)]

theorem setLine_lens (h : Inv w) (hr : r.len ≤ maxCols) (l i : Nat) : ((w.setLine l r).lines i).len ≤ maxCols := by
  show (update w.lines l r i).len ≤ maxCols
  by_cases hi : i = l
  · rw [hi, update_self]
    exact hr
  · rw [update_of_ne hi]
    exact h.lens i

theorem edited_setLine (h : Inv w) (h1 : w.At l c1) (h2 : w.At l c2)
    (hglue : glue (w.front l c1) (w.back l c2) = [r.text]) (hr : r.len ≤ maxCols) (hc : c ≤ r.len)
    (hkept : Kept w w') (hlines : w'.lines = (w.setLine l r).lines) (hn : w'.n = w.n)
    (hcurL : w'.curL = l) (hcurC : w'.curC = c) (hsel : w'.sel = false) :
    Edited w w' (replace w.text ⟨l - 1, c1⟩ ⟨l - 1, c2⟩ glue) l c := by
  have hle := h1.le
  have htext : w'.text = replace w.text ⟨l - 1, c1⟩ ⟨l - 1, c2⟩ glue := by
    rw [← text_setLine h1 h2 hglue]
    unfold text
    rw [hlines, hn]
    rfl
  have hat : w'.At w'.curL w'.curC := by
    rw [hcurL, hcurC]
    refine ⟨h1.pos, by rw [hn]; exact hle, ?_⟩
    rw [hlines]
    show c ≤ (update w.lines l r l).len
    rw [update_self]
    exact hc
  have hedited := edited_of h hkept htext (fun i => by rw [hlines]; exact setLine_lens h hr l i)
    (by rw [hn]; exact h.count) hat hsel
  rw [hcurL, hcurC] at hedited
  exact hedited

theorem edited_join (h : Inv w) (h1 : w.At l1 c1) (h2 : w.At l2 c2) (hlt : l1 < l2)
    (hr : r.text = w.front l1 c1 ++ w.back l2 c2) (hlen : r.len ≤ maxCols) (hkept : Kept w w')
    (hlines : w'.lines = fun i =>
      if l1 + 1 ≤ i ∧ i < l1 + 1 + (w.n - l2) then update w.lines l1 r (i + (l2 - l1))
      else update w.lines l1 r i)
    (hn : w'.n = w.n - (l2 - l1)) (hcurL : w'.curL = l1) (hcurC : w'.curC = c1) (hsel : w'.sel = false) :
    Edited w w' (replace w.text ⟨l1 - 1, c1⟩ ⟨l2 - 1, c2⟩ joined) l1 c1 := by
  have hle := h2.le
  have hpos := h1.pos
  have hcount := h.count
  have hself : w'.lines l1 = r := by
    rw [hlines]
    dsimp only
    rw [if_neg (by omega), update_self]
  have hrlen : r.len = c1 + ((w.lines l2).len - c2) := by
    rw [← r.text_length, hr, length_append, front_length, back_length]
  have htext : w'.text = replace w.text ⟨l1 - 1, c1⟩ ⟨l2 - 1, c2⟩ joined := by
    apply text_splice h1 h2
    · show w'.n = _ + 1 + _
      omega
    · intro i _ hi
      rw [hlines]
      dsimp only
      rw [if_neg (by omega), update_of_ne (by omega)]
    · show stretch _ l1 1 = [w.front l1 c1 ++ w.back l2 c2]
      rw [stretch_one, hself, hr]
    · intro j hj
      have hrow : l1 + 1 + j + (l2 - l1) = l2 + 1 + j := by omega
      have hone : (joined (w.front l1 c1) (w.back l2 c2)).length = 1 := rfl
      rw [hlines, hone]
      dsimp only
      rw [if_pos (by omega), hrow, update_of_ne (by omega)]
  have hat : w'.At w'.curL w'.curC := by
    rw [hcurL, hcurC]
    refine ⟨h1.pos, by omega, ?_⟩
    rw [hself]
    omega
  have hlens : ∀ i, (w'.lines i).len ≤ maxCols := by
    intro i
    rw [hlines]
    dsimp only
    split
    · exact setLine_lens h hlen l1 _
    · exact setLine_lens h hlen l1 _
  have hedited := edited_of h hkept htext hlens (by omega) hat hsel
  rw [hcurL, hcurC] at hedited
  exact hedited

theorem replace_joined_self (h1 : w.At l c) : replace w.text ⟨l - 1, c⟩ ⟨l - 1, c⟩ joined = w.text := by
  have hline : w.setLine l (w.lines l) = w := by
    unfold setLine
    rw [update_eq_self]
  have hglue : joined (w.front l c) (w.back l c) = [(w.lines l).text] := by
    rw [← front_eq h1.col, ← back_eq]
    show [_ ++ _] = _
    rw [take_append_drop]
  rw [← text_setLine h1 h1 hglue, hline]

theorem Edited.trans {w₁ : TextEdit} {ls' : List Line} (h : Edited w w₁ ls' l1 c1)
    (h' : Edited w₁ w' ls l c) : Edited w w' ls l c :=
  ⟨h'.inv, h'.pos, h'.text, h'.curL, h'.curC, h'.sel, h'.anchL.trans h.anchL, h'.anchC.trans h.anchC,
    h'.dragging.trans h.dragging⟩

theorem deleteSelection_edited (h : Inv w) (e : w.Ends l1 c1 l2 c2)
    (hroom : c1 + ((w.lines l2).len - c2) ≤ maxCols) :
    ∃ w', w.deleteSelection = some w' ∧ Kept w w' ∧
      Edited w w' (replace w.text ⟨l1 - 1, c1⟩ ⟨l2 - 1, c2⟩ joined) l1 c1 := by
  have hcount := h.count
  have hfirst := e.first
  have hlast := e.last
  have hpos := hfirst.pos
  have hle := hlast.le
  have hcol' := hlast.col
  have hlen := h.lens l1
  have hlen2 := h.lens l2
  unfold deleteSelection
  cases hsel : w.sel with
  | false =>
    obtain ⟨⟨rfl, rfl⟩, rfl, rfl⟩ := e.single hsel
    refine ⟨w, if_pos rfl, ⟨rfl, rfl, rfl, rfl⟩, h, Nat.lt_of_lt_of_le hpos hle, (replace_joined_self hfirst).symm, rfl, rfl, hsel, rfl, rfl,
      rfl⟩
  | true =>
  rw [if_neg (by simp), e.bounds hsel]
  dsimp only
  by_cases hsame : l1 = l2
  · -- inside one line
    subst hsame
    have horder : c1 ≤ c2 := by
      have := e.order
      omega
    have hnew : (w.lines l1).len - (c2 - c1) = (w.front l1 c1 ++ w.back l1 c2).length := by
      rw [length_append, front_length, back_length]
      omega
    have hback : (w.lines l1).len + 1 - (c2 + 1) = (w.lines l1).len - c2 := by omega
    have hcheck : check (c2 - c1 ≤ (w.lines l1).len) = some () := if_pos (by omega)
    rw [if_pos rfl, h.line hpos hfirst.le]
    simp only [bind_eq_bind, bind_some, hcheck]
    rw [slice_eq (by omega) (by omega), slice_eq (by omega) hlen]
    simp only [bind_some, Nat.add_sub_cancel, hback]
    rw [assign_eq (by omega) (by omega) (by rw [Nat.add_sub_cancel, hnew]; rfl)]
    refine ⟨_, rfl, ⟨rfl, rfl, rfl, rfl⟩, ?_⟩
    refine edited_setLine (r := ⟨_, _⟩) h hfirst hlast ?_ ?_ ?_ ⟨rfl, rfl, rfl, rfl⟩ rfl rfl rfl rfl rfl
    · show [w.front l1 c1 ++ w.back l1 c2] = [stretch _ 1 ((w.lines l1).len - (c2 - c1))]
      rw [hnew]
      exact congrArg (fun x => [x]) stretch_overlay.symm
    · show (w.lines l1).len - (c2 - c1) ≤ maxCols
      omega
    · show c1 ≤ (w.lines l1).len - (c2 - c1)
      omega
  · -- over several lines
    have hlt : l1 < l2 := by
      have := e.order
      omega
    have hcheck : check (c2 ≤ (w.lines l2).len ∧ c1 ≤ maxCols) = some () := if_pos (by omega)
    have hcheck' : check (l2 - l1 ≤ w.n) = some () := if_pos (by omega)
    have htail : min ((w.lines l2).len - c2) (maxCols - c1) = (w.lines l2).len - c2 := by omega
    have hslice : slice maxCols (w.lines l2).buf (c2 + 1) (c2 + ((w.lines l2).len - c2)) =
        some (w.back l2 c2) := by
      rw [slice_eq (by omega) (by omega)]
      congr 2
      omega
    have hrest : w.n - (l2 - l1) - l1 = w.n - l2 := by omega
    rw [if_neg hsame, h.line hlast.pos hlast.le, h.line hpos hfirst.le]
    simp only [bind_eq_bind, bind_some, hcheck, hcheck', htail, hslice]
    rw [assign_eq (by omega) (by rw [back_length]; omega) (by omega)]
    simp only [bind_some, hrest]
    rw [copyLoop_down (by omega) (by omega)]
    refine ⟨_, rfl, ⟨rfl, rfl, rfl, rfl⟩, ?_⟩
    refine edited_join (r := ⟨_, _⟩) h hfirst hlast hlt ?_ ?_ ⟨rfl, rfl, rfl, rfl⟩ rfl rfl rfl rfl rfl
    · show stretch _ 1 (c1 + (w.back l2 c2).length) = _
      rw [stretch_one_overlay (Nat.le_refl _), Nat.add_sub_cancel_left, Nat.sub_self, stretch_zero, append_nil]
      rfl
    · show c1 + (w.back l2 c2).length ≤ maxCols
      rw [back_length]
      exact hroom

/-! ## Typing -/

theorem putChar_edited (h : Inv w) (hat : w.At w.curL w.curC) (hsel : w.sel = false)
    (hroom : (w.lines w.curL).len < maxCols) (ch : UInt8) :
    ∃ w', w.putChar ch = some w' ∧ Kept w w' ∧
      Edited w w' (replace w.text ⟨w.curL - 1, w.curC⟩ ⟨w.curL - 1, w.curC⟩ (around ch)) w.curL (w.curC + 1) := by
  have hcol := hat.col
  have hmoved : slice maxCols (w.lines w.curL).buf (w.curC + 1) (w.lines w.curL).len =
      some (w.back w.curL w.curC) := by
    rw [slice_eq (by omega) (by omega)]
    congr 2
    omega
  unfold putChar
  rw [h.line hat.pos hat.le]
  simp only [bind_eq_bind, bind_some, hmoved]
  rw [assign_eq (by omega) (by omega) (by rw [back_length]; omega), bind_some,
    assign_eq (by omega) (by omega) (by simp), bind_some]
  refine ⟨_, rfl, ⟨rfl, rfl, rfl, rfl⟩, ?_⟩
  refine edited_setLine (r := ⟨_, _⟩) h hat hat ?_ ?_ ?_ ⟨rfl, rfl, rfl, rfl⟩ rfl rfl rfl rfl hsel
  · show [w.front w.curL w.curC ++ ch :: w.back w.curL w.curC] = [stretch _ 1 ((w.lines w.curL).len + 1)]
    have hfront : stretch (overlay (w.lines w.curL).buf (w.curC + 2) (w.back w.curL w.curC)) 1 w.curC =
        w.front w.curL w.curC := stretch_congr fun i _ hi => overlay_before (by omega)
    have hback : stretch (overlay (w.lines w.curL).buf (w.curC + 2) (w.back w.curL w.curC)) (w.curC + 2)
        ((w.lines w.curL).len - w.curC) = w.back w.curL w.curC := by
      have hall : stretch (overlay (w.lines w.curL).buf (w.curC + 2) (w.back w.curL w.curC)) (w.curC + 2)
          (w.back w.curL w.curC).length = w.back w.curL w.curC := stretch_overlay
      rwa [back_length] at hall
    have hrest : (w.lines w.curL).len + 1 - w.curC - 1 = (w.lines w.curL).len - w.curC := by omega
    rw [stretch_one_overlay (by simp; omega), hfront, length_singleton, hrest, hback]
    simp
  · show (w.lines w.curL).len + 1 ≤ maxCols
    omega
  · show w.curC + 1 ≤ (w.lines w.curL).len + 1
    omega

theorem replace_replace (h1 : w.At l1 c1) (h2 : w.At l2 c2) (glue : Glue) :
    replace (replace w.text ⟨l1 - 1, c1⟩ ⟨l2 - 1, c2⟩ joined) ⟨l1 - 1, c1⟩ ⟨l1 - 1, c1⟩ glue =
      replace w.text ⟨l1 - 1, c1⟩ ⟨l2 - 1, c2⟩ glue := by
  have hmid := replace_mid (stretch (fun l => (w.lines l).text) 1 (l1 - 1))
    (stretch (fun l => (w.lines l).text) (l2 + 1) (w.n - l2)) (w.front l1 c1) (w.back l2 c2) glue
  rw [stretch_length, front_length] at hmid
  rw [replace_text h1 h2, replace_text h1 h2]
  exact hmid

theorem Edited.rest (e : w.Ends l1 c1 l2 c2)
    (hd : Edited w w' (replace w.text ⟨l1 - 1, c1⟩ ⟨l2 - 1, c2⟩ joined) l1 c1) :
    w'.At l1 c1 ∧ (w'.lines l1).len = c1 + ((w.lines l2).len - c2) ∧ w'.n = w.n - (l2 - l1) := by
  have hpos := e.first.pos
  have hle := e.last.le
  have horder := e.order
  have htext := hd.text
  rw [replace_text e.first e.last] at htext
  have hn : w'.n = w.n - (l2 - l1) := by
    rw [← text_length (w := w'), htext]
    simp [joined]
    omega
  have hat : w'.At l1 c1 := by
    have hcur := hd.inv.cursor (by omega)
    rwa [hd.curL, hd.curC] at hcur
  refine ⟨hat, ?_, hn⟩
  have hline : (w'.lines l1).text = w.front l1 c1 ++ w.back l2 c2 := by
    have hmid := getD_mid (stretch (fun l => (w.lines l).text) 1 (l1 - 1))
      (stretch (fun l => (w.lines l).text) (l2 + 1) (w.n - l2)) (w.front l1 c1 ++ w.back l2 c2)
    rw [stretch_length] at hmid
    rw [← text_getD hat.pos hat.le, htext]
    exact hmid
  rw [← LineRec.text_length, hline, length_append, front_length, back_length]

/-- What an operation does to the document; it never fails a check. -/
def Does (o : Option TextEdit) (d : Doc) : Prop := ∃ w', o = some w' ∧ Inv w' ∧ 0 < w'.n ∧ w'.doc = d

theorem does_refused (h : Inv w) (hn : 0 < w.n) {o : Option Doc} (ho : o = none) :
    Does (some w) (o.getD w.doc) := by
  rw [ho]
  exact ⟨w, rfl, h, hn, rfl⟩

theorem Edited.does {p q : Pos} {o : Option TextEdit}
    (hd : Edited w w' (replace w.text p q glue) l c) (ho : o = some w') :
    Does o ((w.doc.edit p q glue ⟨l - 1, c⟩).getD w.doc) := by
  refine ⟨w', ho, hd.inv, hd.pos, ?_⟩
  have hfits : Fits (replace w.doc.lines p q glue) := hd.text ▸ hd.inv.fits
  unfold Doc.edit
  rw [if_pos hfits, getD_some, hd.doc]
  rfl

/-- How much is left of the first and of the last line of the selection. -/
def left (w : TextEdit) : Nat :=
  match w.selBounds with
  | (_, c1, l2, c2) => c1 + ((w.lines l2).len - c2)

/-- How many lines the selection joins to its first. -/
def spanned (w : TextEdit) : Nat :=
  match w.selBounds with
  | (l1, _, l2, _) => l2 - l1

theorem Ends.left (e : w.Ends l1 c1 l2 c2) (hsel : w.sel = true) : w.left = c1 + ((w.lines l2).len - c2) := by
  unfold TextEdit.left
  rw [e.bounds hsel]

theorem Ends.spanned (e : w.Ends l1 c1 l2 c2) (hsel : w.sel = true) : w.spanned = l2 - l1 := by
  unfold TextEdit.spanned
  rw [e.bounds hsel]

/-- **`Insert_Char` types**, when the line of the cursor is full just when what is left of the selection's
    lines is. -/
theorem insertChar_does (h : Inv w) (hn : 0 < w.n) (ch : UInt8)
    (hroom : w.sel = true → (maxCols ≤ (w.lines w.curL).len ↔ maxCols ≤ w.left)) :
    Does (w.insertChar ch) ((w.doc.type ch).getD w.doc) := by
  obtain ⟨l1, c1, l2, c2, e⟩ := h.ends hn
  have hcur := h.cursor hn
  have hfull : maxCols ≤ (w.lines w.curL).len ↔ maxCols ≤ c1 + ((w.lines l2).len - c2) := by
    cases hsel : w.sel with
    | true =>
      rw [← e.left hsel]
      exact hroom hsel
    | false =>
      obtain ⟨⟨rfl, rfl⟩, rfl, rfl⟩ := e.single hsel
      have := hcur.col
      omega
  unfold insertChar
  rw [h.line hcur.pos hcur.le, bind_eq_bind, bind_some]
  split_ifs with hlen
  · -- a full line
    apply does_refused h hn
    have hbad : ¬ Fits (replace w.doc.lines w.doc.start w.doc.stop (around ch)) := by
      rw [e.start, e.stop]
      show ¬ Fits (replace w.text _ _ _)
      rw [fits_replace_iff h e.first e.last]
      rintro ⟨-, hall⟩
      have hline := hall _ mem_cons_self
      rw [length_append, length_cons, front_length, back_length] at hline
      omega
    unfold Doc.type Doc.edit
    rw [if_neg hbad]
  · obtain ⟨w₁, hdel, hkept, hd⟩ := deleteSelection_edited h e (by omega)
    obtain ⟨hat, hlen1, hn1⟩ := hd.rest e
    obtain ⟨w₂, hput, hkept2, hd2⟩ := putChar_edited hd.inv (by rw [hd.curL, hd.curC]; exact hat) hd.sel
      (by rw [hd.curL]; omega) ch
    rw [hd.curL, hd.curC, hd.text, replace_replace e.first e.last] at hd2
    unfold Doc.type
    rw [e.start, e.stop]
    exact (hd.trans hd2).does (by rw [hdel]; exact hput)

/-! ## Splitting -/

theorem edited_split (h : Inv w) (hat : w.At w.curL w.curC) (hroom : w.n < maxLines) {F : Nat → LineRec} {q : LineRec} (hF : ∀ i, (i ≤ w.curL → F i = w.lines i) ∧
      (w.curL + 1 ≤ i → i ≤ w.n + 1 → F i = w.lines (i - 1)) ∧ (F i).len ≤ maxCols)
    (hq : q.text = w.front w.curL w.curC) (hr : r.text = w.back w.curL w.curC) (hkept : Kept w w')
    (hlines : w'.lines = update (update F w.curL q) (w.curL + 1) r)
    (hn : w'.n = w.n + 1) (hcurL : w'.curL = w.curL + 1) (hcurC : w'.curC = 0) (hsel : w'.sel = false) :
    Edited w w' (replace w.text ⟨w.curL - 1, w.curC⟩ ⟨w.curL - 1, w.curC⟩ broken) (w.curL + 1) 0 := by
  have hpos := hat.pos
  have hle := hat.le
  have hcol := hat.col
  have hlen := h.lens w.curL
  have hlen0 : q.len = w.curC := by rw [← q.text_length, hq, front_length]
  have hlen1 : r.len = (w.lines w.curL).len - w.curC := by rw [← r.text_length, hr, back_length]
  have hother : ∀ i, i ≠ w.curL → i ≠ w.curL + 1 → w'.lines i = F i := by
    intro i hi hi'
    rw [hlines, update_of_ne hi', update_of_ne hi]
  have hline0 : w'.lines w.curL = q := by rw [hlines, update_of_ne (by omega), update_self]
  have hline1 : w'.lines (w.curL + 1) = r := by rw [hlines, update_self]
  have htext : w'.text = replace w.text ⟨w.curL - 1, w.curC⟩ ⟨w.curL - 1, w.curC⟩ broken := by
    apply text_splice hat hat
    · show w'.n = _ + 2 + _
      omega
    · intro i _ hi
      rw [hother i (by omega) (by omega), (hF i).1 (by omega)]
    · show stretch _ w.curL 2 = [w.front w.curL w.curC, w.back w.curL w.curC]
      rw [stretch_two, hline0, hline1, hq, hr]
    · intro j hj
      have htwo : (broken (w.front w.curL w.curC) (w.back w.curL w.curC)).length = 2 := rfl
      have hrow : w.curL + 2 + j - 1 = w.curL + 1 + j := by omega
      rw [htwo, hother _ (by omega) (by omega), (hF _).2.1 (by omega) (by omega), hrow]
  have hat' : w'.At w'.curL w'.curC := by
    rw [hcurL, hcurC]
    exact ⟨by omega, by omega, Nat.zero_le _⟩
  have hlens : ∀ i, (w'.lines i).len ≤ maxCols := by
    intro i
    by_cases hi : i = w.curL
    · rw [hi, hline0]
      omega
    · by_cases hi' : i = w.curL + 1
      · rw [hi', hline1]
        omega
      · rw [hother i hi hi']
        exact (hF i).2.2
  have hedited := edited_of h hkept htext hlens (by omega) hat' hsel
  rw [hcurL, hcurC] at hedited
  exact hedited

theorem breakLine_edited (h : Inv w) (hat : w.At w.curL w.curC) (hsel : w.sel = false) (hroom : w.n < maxLines) :
    ∃ w', w.breakLine = some w' ∧ Kept w w' ∧
      Edited w w' (replace w.text ⟨w.curL - 1, w.curC⟩ ⟨w.curL - 1, w.curC⟩ broken) (w.curL + 1) 0 := by
  have hpos := hat.pos
  have hle := hat.le
  have hlen := h.lens w.curL
  have hrest : slice maxCols (w.lines w.curL).buf (w.curC + 1) (w.lines w.curL).len =
      some (w.back w.curL w.curC) := by
    rw [slice_eq (by omega) hlen]
    congr 2
    omega
  have hshort : (w.back w.curL w.curC).length ≤ maxCols := by
    rw [back_length]
    omega
  unfold breakLine
  rw [h.line hpos hle]
  simp only [bind_eq_bind, bind_some, hrest]
  rw [copyLoop_up (by omega) (by omega)]
  simp only [bind_some]
  generalize hF : (fun i => if w.curL + 1 ≤ i ∧ i < w.curL + 1 + (w.n + 1 - w.curL) then w.lines (i - 1)
    else w.lines i) = F
  have hmoved : ∀ i, (i ≤ w.curL → F i = w.lines i) ∧
      (w.curL + 1 ≤ i → i ≤ w.n + 1 → F i = w.lines (i - 1)) ∧ (F i).len ≤ maxCols := by
    intro i
    rw [← hF]
    dsimp only
    refine ⟨fun hi => if_neg (by omega), fun hi hin => if_pos (by omega), ?_⟩
    split
    · exact h.lens _
    · exact h.lens _
  have hline : line { w with lines := F } w.curL = some (w.lines w.curL) := by
    unfold line
    rw [if_pos (by omega)]
    exact congrArg some ((hmoved _).1 (Nat.le_refl _))
  have hnext : line (setLine { w with lines := F } w.curL ⟨(w.lines w.curL).buf, w.curC⟩) (w.curL + 1) =
      some (w.lines w.curL) := by
    unfold line
    rw [if_pos (by omega)]
    show some (update F w.curL _ (w.curL + 1)) = _
    rw [update_of_ne (by omega), (hmoved _).2.1 (Nat.le_refl _) (by omega), Nat.add_sub_cancel]
  rw [hline, bind_some, hnext, bind_some, assign_eq (by omega) hshort (by omega), bind_some]
  refine ⟨_, rfl, ⟨rfl, rfl, rfl, rfl⟩, ?_⟩
  refine edited_split (q := ⟨_, _⟩) (r := ⟨_, _⟩) h hat hroom hmoved rfl ?_ ⟨rfl, rfl, rfl, rfl⟩ rfl rfl rfl
    rfl hsel
  exact stretch_overlay

/-- **`Split_Line` splits**, when what is left of the selection's lines fits in one, and a full table does
    not have a selection over several lines. -/
theorem splitLine_does (h : Inv w) (hn : 0 < w.n) (hroom : w.sel = true → w.left ≤ maxCols)
    (hfull : w.sel = true → maxLines ≤ w.n → w.spanned = 0) :
    Does w.splitLine (w.doc.enter.getD w.doc) := by
  obtain ⟨l1, c1, l2, c2, e⟩ := h.ends hn
  have hcur := h.cursor hn
  have hpos := e.first.pos
  have hleft : c1 + ((w.lines l2).len - c2) ≤ maxCols := by
    cases hsel : w.sel with
    | true =>
      rw [← e.left hsel]
      exact hroom hsel
    | false =>
      obtain ⟨⟨rfl, rfl⟩, rfl, rfl⟩ := e.single hsel
      have := hcur.col
      have := h.lens w.curL
      omega
  unfold splitLine
  by_cases hlines : w.n ≥ maxLines
  · -- a full table
    have hsame : l2 - l1 = 0 := by
      cases hsel : w.sel with
      | true =>
        rw [← e.spanned hsel]
        exact hfull hsel hlines
      | false =>
        obtain ⟨⟨rfl, rfl⟩, rfl, rfl⟩ := e.single hsel
        omega
    rw [if_pos hlines]
    apply does_refused h hn
    have hbad : ¬ Fits (replace w.doc.lines w.doc.start w.doc.stop broken) := by
      rw [e.start, e.stop]
      show ¬ Fits (replace w.text _ _ _)
      rw [fits_replace_iff h e.first e.last]
      rintro ⟨hcount, -⟩
      change l1 - 1 + 2 + (w.n - l2) ≤ maxLines at hcount
      omega
    unfold Doc.enter Doc.edit
    rw [if_neg hbad]
  · rw [if_neg hlines]
    obtain ⟨w₁, hdel, hkept, hd⟩ := deleteSelection_edited h e hleft
    obtain ⟨hat, hlen1, hn1⟩ := hd.rest e
    obtain ⟨w₂, hbreak, hkept2, hd2⟩ := breakLine_edited hd.inv (by rw [hd.curL, hd.curC]; exact hat) hd.sel
      (by omega)
    rw [hd.curL, hd.curC, hd.text, replace_replace e.first e.last] at hd2
    have hrow : l1 - 1 + 1 = l1 + 1 - 1 := by omega
    unfold Doc.enter
    rw [e.start, e.stop, hrow]
    exact (hd.trans hd2).does (by rw [hdel]; exact hbreak)

/-! ## Deleting -/

/-- **`Delete_Selection` cuts**, when what is left of the selection's lines fits in one. -/
theorem deleteSelection_does (h : Inv w) (hsel : w.sel = true) (hroom : w.left ≤ maxCols) :
    Does w.deleteSelection ((w.doc.cut w.doc.start w.doc.stop).getD w.doc) := by
  obtain ⟨l1, c1, l2, c2, e⟩ := h.ends (h.sel_pos hsel)
  rw [e.left hsel] at hroom
  obtain ⟨w', hdel, -, hd⟩ := deleteSelection_edited h e hroom
  rw [e.start, e.stop]
  exact hd.does hdel

theorem backspace_char_edited (h : Inv w) (hat : w.At w.curL w.curC) (hsel : w.sel = false) (hc : 0 < w.curC) :
    ∃ w', w.backspace = some w' ∧
      Edited w w' (replace w.text ⟨w.curL - 1, w.curC - 1⟩ ⟨w.curL - 1, w.curC⟩ joined) w.curL (w.curC - 1) := by
  have hcol := hat.col
  have hlen := h.lens w.curL
  have hbefore : w.At w.curL (w.curC - 1) := ⟨hat.pos, hat.le, by omega⟩
  have hmoved : slice maxCols (w.lines w.curL).buf (w.curC + 1) (w.lines w.curL).len =
      some (w.back w.curL w.curC) := by
    rw [slice_eq (by omega) hlen]
    congr 2
    omega
  have hcheck : check (1 ≤ (w.lines w.curL).len) = some () := if_pos (by omega)
  unfold backspace
  rw [hsel, if_neg (by simp), if_pos hc, h.line hat.pos hat.le]
  simp only [bind_eq_bind, bind_some, hcheck, hmoved]
  rw [assign_eq hc (by omega) (by rw [back_length]; omega), bind_some]
  refine ⟨_, rfl, ?_⟩
  refine edited_setLine (r := ⟨_, _⟩) h hbefore hat ?_ ?_ ?_ ⟨rfl, rfl, rfl, rfl⟩ rfl rfl rfl rfl hsel
  · show [w.front w.curL (w.curC - 1) ++ w.back w.curL w.curC] = [stretch _ 1 ((w.lines w.curL).len - 1)]
    have hlo : w.curC = w.curC - 1 + 1 := by omega
    have hrest : (w.lines w.curL).len - 1 - (w.curC - 1) - (w.back w.curL w.curC).length = 0 := by
      rw [back_length]
      omega
    have hall : stretch (overlay (w.lines w.curL).buf (w.curC - 1 + 1) (w.back w.curL w.curC)) 1
        ((w.lines w.curL).len - 1) = _ := stretch_one_overlay (k := w.curC - 1) (by rw [back_length]; omega)
    rw [← hlo, hrest, stretch_zero, append_nil] at hall
    rw [hall]
    rfl
  · show (w.lines w.curL).len - 1 ≤ maxCols
    omega
  · show w.curC - 1 ≤ (w.lines w.curL).len - 1
    omega

theorem backspace_join_edited (h : Inv w) (hat : w.At w.curL w.curC) (hsel : w.sel = false)
    (hc : w.curC = 0) (hl : 1 < w.curL)
    (hroom : (w.lines (w.curL - 1)).len + (w.lines w.curL).len ≤ maxCols) :
    ∃ w', w.backspace = some w' ∧
      Edited w w' (replace w.text ⟨w.curL - 1 - 1, (w.lines (w.curL - 1)).len⟩ ⟨w.curL - 1, w.curC⟩ joined)
        (w.curL - 1) (w.lines (w.curL - 1)).len := by
  have hle := hat.le
  have hcount := h.count
  have hlen := h.lens w.curL
  have hprev : w.At (w.curL - 1) (w.lines (w.curL - 1)).len := ⟨by omega, by omega, Nat.le_refl _⟩
  have hslice : slice maxCols (w.lines w.curL).buf 1 (w.lines w.curL).len = some (w.back w.curL w.curC) := by
    rw [slice_eq (by omega) hlen, hc]
    rfl
  have hlength : (w.back w.curL w.curC).length = (w.lines w.curL).len := by
    rw [back_length, hc]
    rfl
  have hcheck : check (1 ≤ w.n) = some () := if_pos (by omega)
  unfold backspace
  rw [hsel, if_neg (by simp), if_neg (by omega), if_pos hl, h.line hprev.pos hprev.le, h.line hat.pos hat.le]
  simp only [bind_eq_bind, bind_some, hcheck, hslice]
  rw [hlength, if_pos hroom, assign_eq (by omega) hroom (by rw [hlength]; omega), bind_some,
    copyLoop_down (by omega) (by omega), bind_some]
  refine ⟨_, rfl, ?_⟩
  have hlo : w.curL - 1 + 1 = w.curL := by omega
  have hone : w.curL - (w.curL - 1) = 1 := by omega
  refine edited_join (r := ⟨overlay (w.lines (w.curL - 1)).buf ((w.lines (w.curL - 1)).len + 1)
    (w.back w.curL w.curC), (w.lines (w.curL - 1)).len + (w.lines w.curL).len⟩) h hprev hat (by omega) ?_ hroom ⟨rfl, rfl, rfl, rfl⟩ ?_ ?_ rfl rfl rfl
  · show stretch _ 1 ((w.lines (w.curL - 1)).len + (w.lines w.curL).len) = _
    have hall : stretch (overlay (w.lines (w.curL - 1)).buf ((w.lines (w.curL - 1)).len + 1)
        (w.back w.curL w.curC)) 1 ((w.lines (w.curL - 1)).len + (w.back w.curL w.curC).length) = _ :=
      stretch_one_overlay (Nat.le_refl _)
    rw [Nat.add_sub_cancel_left, Nat.sub_self, stretch_zero, append_nil, hlength] at hall
    exact hall
  · rw [hlo, hone]
  · rw [hone]

/-- **`Backspace` joins or removes**, when what is left of a selection's lines fits in one. -/
theorem backspace_does (h : Inv w) (hn : 0 < w.n) (hroom : w.sel = true → w.left ≤ maxCols) :
    Does w.backspace (w.doc.backspace.getD w.doc) := by
  have hat := h.cursor hn
  cases hsel : w.sel with
  | true =>
    have hdoc : w.doc.backspace = w.doc.cut w.doc.start w.doc.stop := if_pos hsel
    have hcode : w.backspace = w.deleteSelection := if_pos hsel
    rw [hdoc, hcode]
    exact deleteSelection_does h hsel (hroom hsel)
  | false =>
    have hdoc : ¬ w.doc.sel = true := by
      show ¬ w.sel = true
      simp [hsel]
    by_cases hc : 0 < w.curC
    · have hwhat : w.doc.backspace = w.doc.cut ⟨w.curL - 1, w.curC - 1⟩ ⟨w.curL - 1, w.curC⟩ := by
        unfold Doc.backspace
        rw [if_neg hdoc]
        exact if_pos hc
      obtain ⟨w', hback, hd⟩ := backspace_char_edited h hat hsel hc
      rw [hwhat]
      exact hd.does hback
    · by_cases hl : 1 < w.curL
      · have hprev : w.At (w.curL - 1) (w.lines (w.curL - 1)).len := by
          have := hat.le
          exact ⟨by omega, by omega, Nat.le_refl _⟩
        have hline : (w.doc.line (w.curL - 1 - 1)).length = (w.lines (w.curL - 1)).len := by
          show (w.text.getD _ []).length = _
          rw [text_getD hprev.pos hprev.le, LineRec.text_length]
        have hwhat : w.doc.backspace =
            w.doc.cut ⟨w.curL - 1 - 1, (w.lines (w.curL - 1)).len⟩ ⟨w.curL - 1, w.curC⟩ := by
          have hrow : 0 < w.doc.cur.row := by
            show 0 < w.curL - 1
            omega
          unfold Doc.backspace
          rw [if_neg hdoc, if_neg (show ¬ 0 < w.doc.cur.col from hc), if_pos hrow, ← hline]
          rfl
        rw [hwhat]
        by_cases hroom : (w.lines (w.curL - 1)).len + (w.lines w.curL).len ≤ maxCols
        · obtain ⟨w', hback, hd⟩ := backspace_join_edited h hat hsel (by omega) hl hroom
          exact hd.does hback
        · -- the two lines do not fit in one
          have hlen := h.lens w.curL
          have hslice : slice maxCols (w.lines w.curL).buf 1 (w.lines w.curL).len =
              some (w.lines w.curL).text := by
            rw [slice_eq (by omega) hlen]
            rfl
          have hcode : w.backspace = some w := by
            unfold backspace
            rw [hsel, if_neg (by simp), if_neg hc, if_pos hl, h.line hprev.pos hprev.le, h.line hat.pos hat.le]
            simp only [bind_eq_bind, bind_some, hslice]
            rw [LineRec.text_length, if_neg hroom]
          rw [hcode]
          apply does_refused h hn
          have hbad : ¬ Fits (replace w.text ⟨w.curL - 1 - 1, (w.lines (w.curL - 1)).len⟩ ⟨w.curL - 1, w.curC⟩
              joined) := by
            rw [fits_replace_iff h hprev hat]
            rintro ⟨-, hall⟩
            have hjoined := hall _ mem_cons_self
            rw [length_append, front_length, back_length] at hjoined
            omega
          exact if_neg hbad
      · have hwhat : w.doc.backspace = some w.doc := by
          have hrow : ¬ 0 < w.doc.cur.row := by
            show ¬ 0 < w.curL - 1
            omega
          unfold Doc.backspace
          rw [if_neg hdoc, if_neg (show ¬ 0 < w.doc.cur.col from hc), if_neg hrow]
        have hcode : w.backspace = some w := by
          unfold backspace
          rw [hsel, if_neg (by simp), if_neg hc, if_neg hl]
        rw [hwhat, hcode]
        exact ⟨w, rfl, h, hn, rfl⟩

end TextEdit

end Aegir.Trinket
