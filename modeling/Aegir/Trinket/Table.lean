/-
  The widget's table and the document's text.

  `doc` reads the document out of the table.  `Sound` is what the widget promises of its state, `Inv` adds
  what carries it along: records behind the last line are bounded too, and an empty widget has its cursor
  on the line that comes first.

  `text_splice` is the bridge: an edit of the table that keeps the records in front, puts some lines behind
  them and keeps the records that follow is `replace` on the text.
-/
import Mathlib.Data.List.TakeDrop
import Aegir.Trinket.TextEdit

namespace Aegir.Trinket

open Aegir.Lib List

def LineRec.text (r : LineRec) : Line := stretch r.buf 1 r.len

@[simp] theorem LineRec.text_length (r : LineRec) : r.text.length = r.len := stretch_length

namespace TextEdit

/-! ## The document in the widget -/

variable {w w' : TextEdit} {l c l1 c1 l2 c2 : Nat}

def text (w : TextEdit) : List Line := stretch (fun l => (w.lines l).text) 1 w.n

def doc (w : TextEdit) : Doc where
  lines := w.text
  cur := ⟨w.curL - 1, w.curC⟩
  anchor := ⟨w.anchL - 1, w.anchC⟩
  sel := w.sel
  dragging := w.dragging

/-- A position in the text. -/
structure At (w : TextEdit) (l c : Nat) : Prop where
  pos : 1 ≤ l
  le : l ≤ w.n
  col : c ≤ (w.lines l).len

/-- **What the state promises.** -/
structure Sound (w : TextEdit) : Prop where
  lens : ∀ l, 1 ≤ l → l ≤ w.n → (w.lines l).len ≤ maxCols
  cursor : 0 < w.n → w.At w.curL w.curC
  ends : w.sel = true → w.At w.curL w.curC ∧ w.At w.anchL w.anchC

structure Inv (w : TextEdit) : Prop where
  lens : ∀ l, (w.lines l).len ≤ maxCols
  count : w.n ≤ maxLines
  empty : w.n = 0 → w.curL = 1 ∧ w.curC = 0 ∧ w.sel = false
  cursor : 0 < w.n → w.At w.curL w.curC
  anchor : w.sel = true → w.At w.anchL w.anchC
  anchL : 1 ≤ w.anchL
  top : w.top.toNat ≤ maxLines

theorem Inv.sel_pos (h : Inv w) (hsel : w.sel = true) : 0 < w.n := by
  have := (h.anchor hsel).pos
  have := (h.anchor hsel).le
  omega

theorem Inv.sound (h : Inv w) : Sound w :=
  ⟨fun l _ _ => h.lens l, h.cursor, fun hsel => ⟨h.cursor (h.sel_pos hsel), h.anchor hsel⟩⟩

@[simp] theorem text_length : w.text.length = w.n := stretch_length

theorem text_getD (hpos : 1 ≤ l) (hle : l ≤ w.n) : w.text.getD (l - 1) [] = (w.lines l).text := by
  unfold text
  rw [stretch_getD (by omega)]
  have hl : 1 + (l - 1) = l := by omega
  rw [hl]

theorem mem_text {x : Line} (hx : x ∈ w.text) : ∃ l, x = (w.lines l).text := by
  obtain ⟨i, -, rfl⟩ := mem_map.mp hx
  exact ⟨1 + i, rfl⟩

theorem Inv.fits (h : Inv w) : Fits w.text := by
  refine ⟨by rw [text_length]; exact h.count, ?_⟩
  intro x hx
  obtain ⟨l, rfl⟩ := mem_text hx
  rw [LineRec.text_length]
  exact h.lens l

theorem Inv.line (h : Inv w) (hpos : 1 ≤ l) (hle : l ≤ w.n) : w.line l = some (w.lines l) := by
  have := h.count
  unfold TextEdit.line
  rw [if_pos ⟨hpos, by omega⟩]

/-! ## Replacing, on the table -/

theorem text_take (h : l1 ≤ w.n) : w.text.take (l1 - 1) = stretch (fun l => (w.lines l).text) 1 (l1 - 1) :=
  stretch_take (by omega)

theorem text_drop (hpos : 1 ≤ l2) :
    w.text.drop (l2 - 1 + 1) = stretch (fun l => (w.lines l).text) (l2 + 1) (w.n - l2) := by
  have hl : l2 - 1 + 1 = l2 := by omega
  unfold text
  rw [hl, stretch_drop, Nat.add_comm 1 l2]

/-- What is left of two lines. -/
def front (w : TextEdit) (l c : Nat) : Line := stretch (w.lines l).buf 1 c
def back (w : TextEdit) (l c : Nat) : Line := stretch (w.lines l).buf (c + 1) ((w.lines l).len - c)

@[simp] theorem front_length : (w.front l c).length = c := stretch_length

@[simp] theorem back_length : (w.back l c).length = (w.lines l).len - c := stretch_length

theorem front_eq (h : c ≤ (w.lines l).len) : (w.lines l).text.take c = w.front l c := stretch_take h

theorem back_eq : (w.lines l).text.drop c = w.back l c := by
  unfold LineRec.text back
  rw [stretch_drop, Nat.add_comm 1 c]

theorem replace_text (h1 : w.At l1 c1) (h2 : w.At l2 c2) (glue : Glue) :
    replace w.text ⟨l1 - 1, c1⟩ ⟨l2 - 1, c2⟩ glue =
      stretch (fun l => (w.lines l).text) 1 (l1 - 1) ++ glue (w.front l1 c1) (w.back l2 c2) ++
        stretch (fun l => (w.lines l).text) (l2 + 1) (w.n - l2) := by
  unfold replace
  rw [text_getD h1.pos h1.le, text_getD h2.pos h2.le, front_eq h1.col, back_eq, text_take h1.le, text_drop h2.pos]

theorem fits_replace_iff (h : Inv w) (h1 : w.At l1 c1) (h2 : w.At l2 c2) (glue : Glue) :
    Fits (replace w.text ⟨l1 - 1, c1⟩ ⟨l2 - 1, c2⟩ glue) ↔
      l1 - 1 + (glue (w.front l1 c1) (w.back l2 c2)).length + (w.n - l2) ≤ maxLines ∧
        ∀ x ∈ glue (w.front l1 c1) (w.back l2 c2), x.length ≤ maxCols := by
  have hold : ∀ lo m, ∀ x ∈ stretch (fun l => (w.lines l).text) lo m, x.length ≤ maxCols := by
    intro lo m x hx
    obtain ⟨i, -, rfl⟩ := mem_map.mp hx
    rw [LineRec.text_length]
    exact h.lens _
  rw [replace_text h1 h2]
  unfold Fits
  rw [length_append, length_append, stretch_length, stretch_length]
  refine and_congr_right fun _ => ?_
  constructor
  · intro hall x hx
    exact hall x (mem_append_left _ (mem_append_right _ hx))
  · intro hall x hx
    rcases mem_append.mp hx with hx | hx
    · rcases mem_append.mp hx with hx | hx
      · exact hold _ _ x hx
      · exact hall x hx
    · exact hold _ _ x hx

/-- **Any edit of the table** that keeps the front, puts `mid` behind it and keeps the rest is a
    replacement in the text. -/
theorem text_splice (h1 : w.At l1 c1) (h2 : w.At l2 c2) {glue : Glue}
    (hn : w'.n = l1 - 1 + (glue (w.front l1 c1) (w.back l2 c2)).length + (w.n - l2))
    (hfront : ∀ l, 1 ≤ l → l < l1 → w'.lines l = w.lines l)
    (hmid : stretch (fun l => (w'.lines l).text) l1 (glue (w.front l1 c1) (w.back l2 c2)).length =
      glue (w.front l1 c1) (w.back l2 c2))
    (hback : ∀ j, j < w.n - l2 →
      w'.lines (l1 + (glue (w.front l1 c1) (w.back l2 c2)).length + j) = w.lines (l2 + 1 + j)) :
    w'.text = replace w.text ⟨l1 - 1, c1⟩ ⟨l2 - 1, c2⟩ glue := by
  have hpos := h1.pos
  have hl : l1 - 1 + 1 = l1 := by omega
  rw [replace_text h1 h2]
  refine stretch_splice hn ?_ ?_ ?_
  · intro i hi hle
    rw [hfront i hi (by omega)]
  · rw [hl]
    exact hmid
  · intro j hj
    have hrow : l1 - 1 + (glue (w.front l1 c1) (w.back l2 c2)).length + 1 + j =
        l1 + (glue (w.front l1 c1) (w.back l2 c2)).length + j := by omega
    rw [hrow, hback j hj]

end TextEdit

end Aegir.Trinket
