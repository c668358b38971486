/-
  Keys and texts: what `On_Key` and `Insert_Text` do to the document.

  `Sane` asks of the screen that the font has a height, and that the rows of the widget can be added to a
  line number without wrapping around.  `Takes` and `KeyMeets` say where an edit looks at the right thing:
  the code asks the cursor's line for room while the selection still stands, and moves the cursor of a
  forward delete before it knows whether the lines can be joined.
-/
import Aegir.Trinket.Edits

namespace Aegir.Trinket

open Aegir.Lib Option

/-- A screen on which no view computation fails or wraps. -/
structure Screen.Sane (g : Screen) : Prop where
  font : g.lineHeight ≠ 0
  rows : ∀ rows, g.visibleRows = some rows → rows.toNat + maxLines < 2 ^ 64

theorem Screen.Sane.visibleRows {g : Screen} (h : g.Sane) : ∃ rows, g.visibleRows = some rows := by
  unfold Screen.visibleRows
  split
  · rw [if_neg h.font]
    exact ⟨_, rfl⟩
  · exact ⟨_, rfl⟩

namespace TextEdit

variable {w w' : TextEdit} {g : Screen} {l c : Nat} {d d' : Doc}

theorem Does.bind {o : Option TextEdit} {f : TextEdit → Option TextEdit} (h : Does o d)
    (hf : ∀ w', Inv w' → 0 < w'.n → w'.doc = d → Does (f w') d') : Does (o.bind f) d' := by
  obtain ⟨w', rfl, hinv, hn, hdoc⟩ := h
  exact hf w' hinv hn hdoc

/-! ## Moving the cursor -/

theorem Inv.moved (h : Inv w) (hat : w.At l c) {top hOff : UInt64} (htop : top.toNat ≤ maxLines) :
    Inv { w with curL := l, curC := c, top := top, hOff := hOff } where
  lens := h.lens
  count := h.count
  empty h0 := by
    have := hat.pos
    have := hat.le
    have hn : w.n = 0 := h0
    omega
  cursor _ := ⟨hat.pos, hat.le, hat.col⟩
  anchor hs := ⟨(h.anchor hs).pos, (h.anchor hs).le, (h.anchor hs).col⟩
  anchL := h.anchL
  top := htop

theorem Inv.collapse (h : Inv w) : Inv w.collapse where
  lens := h.lens
  count := h.count
  empty h0 := ⟨(h.empty h0).1, (h.empty h0).2.1, rfl⟩
  cursor hn := ⟨(h.cursor hn).pos, (h.cursor hn).le, (h.cursor hn).col⟩
  anchor hs := by cases hs
  anchL := h.anchL
  top := h.top

theorem moveTo_does (h : Inv w) (hat : w.At l c) {top : UInt64} (htop : top.toNat ≤ maxLines) :
    Does (some { w.collapse with curL := l, curC := c, top := top }) (w.doc.moveTo ⟨l - 1, c⟩) := by
  have hpos : 0 < w.n := Nat.lt_of_lt_of_le hat.pos hat.le
  exact ⟨_, rfl, h.collapse.moved ⟨hat.pos, hat.le, hat.col⟩ htop, hpos, rfl⟩

/-- **`Clamp_Cursor`** takes the cursor to a row. -/
theorem clampCursor_does (h : Inv w) (hn : 0 < w.n) {top : UInt64} (htop : top.toNat ≤ maxLines) {k : Nat}
    (hk : 1 ≤ k) : Does (clampCursor { w.collapse with top := top, curL := k }) (w.doc.toRow (k - 1)) := by
  have hrow : (if k > w.n then w.n else k) = min k w.n := by
    split <;> omega
  have hcol : (if w.curC > (w.lines (min k w.n)).len then (w.lines (min k w.n)).len else w.curC) =
      min w.curC (w.lines (min k w.n)).len := by
    split <;> omega
  have hat : w.At (min k w.n) (min w.curC (w.lines (min k w.n)).len) :=
    ⟨by omega, by omega, Nat.min_le_right _ _⟩
  have hline : line { w.collapse with top := top, curL := k } (min k w.n) = some (w.lines (min k w.n)) :=
    h.line hat.pos hat.le
  have hto : w.doc.toRow (k - 1) = w.doc.moveTo ⟨min k w.n - 1, min w.curC (w.lines (min k w.n)).len⟩ := by
    have hmin : min (k - 1) (w.n - 1) = min k w.n - 1 := by omega
    show w.doc.moveTo ⟨min (k - 1) (w.text.length - 1),
      min w.curC (w.text.getD (min (k - 1) (w.text.length - 1)) []).length⟩ = _
    rw [text_length, hmin, text_getD hat.pos hat.le, LineRec.text_length]
  unfold clampCursor
  dsimp only
  rw [show (if k > w.collapse.n then w.collapse.n else k) = min k w.n from hrow, hline, bind_eq_bind,
    bind_some, hto]
  rw [show (if w.collapse.curC > (w.lines (min k w.n)).len then (w.lines (min k w.n)).len else w.collapse.curC) =
    min w.curC (w.lines (min k w.n)).len from hcol]
  exact moveTo_does h hat htop

/-! ## The view -/

theorem topFor_le (h : w.top.toNat ≤ maxLines) (hg : g.Sane) {row : Nat} (hrow : row < maxLines) :
    ∃ top, topFor g w (UInt64.ofNat row) = some top ∧ top.toNat ≤ maxLines := by
  obtain ⟨rows, hrows⟩ := hg.visibleRows
  have hsum := hg.rows rows hrows
  have hrowNat : (UInt64.ofNat row).toNat = row :=
    UInt64.toNat_ofNat_of_lt' (Nat.lt_trans hrow (by decide))
  have hadd : (w.top + rows).toNat = w.top.toNat + rows.toNat := by
    rw [UInt64.toNat_add]
    exact Nat.mod_eq_of_lt (by omega)
  unfold topFor
  split_ifs with hup
  · exact ⟨_, rfl, by omega⟩
  · rw [hrows, bind_eq_bind, bind_some]
    refine ⟨_, rfl, ?_⟩
    by_cases hdown : UInt64.ofNat row ≥ w.top + rows
    · have hle : (w.top + rows).toNat ≤ (UInt64.ofNat row).toNat := UInt64.le_iff_toNat_le.mp hdown
      have hsub : (UInt64.ofNat row - rows).toNat = row - rows.toNat := by
        rw [UInt64.toNat_sub_of_le _ _ (UInt64.le_iff_toNat_le.mpr (by omega)), hrowNat]
      have hnew : (UInt64.ofNat row - rows + 1).toNat = row - rows.toNat + 1 := by
        rw [UInt64.toNat_add, hsub]
        exact Nat.mod_eq_of_lt (by show _ + 1 < _; omega)
      rw [if_pos hdown]
      omega
    · rw [if_neg hdown]
      exact h

/-- **`Ensure_Cursor_Visible`** never fails, and only moves the view. -/
theorem ensureCursorVisible_eq (h : Inv w) (hg : g.Sane) :
    ∃ top hOff, ensureCursorVisible g w = some { w with top := top, hOff := hOff } ∧ top.toNat ≤ maxLines := by
  have hcount := h.count
  have hcur : 1 ≤ w.curL ∧ w.curL ≤ maxLines ∧ w.curC ≤ (w.lines w.curL).len := by
    rcases Nat.eq_zero_or_pos w.n with h0 | hn
    · obtain ⟨hl, hc, -⟩ := h.empty h0
      rw [hl, hc]
      exact ⟨Nat.le_refl 1, by decide, Nat.zero_le _⟩
    · have hat := h.cursor hn
      have := hat.le
      exact ⟨hat.pos, by omega, hat.col⟩
  obtain ⟨hpos, hle, hcol⟩ := hcur
  obtain ⟨top, htop, htopLe⟩ := topFor_le h.top hg (show w.curL - 1 < maxLines by omega)
  have hcheck : check (1 ≤ w.curL) = some () := if_pos hpos
  have hlen := h.lens w.curL
  have hcheckLen : check ((w.lines w.curL).len ≤ maxCols) = some () := if_pos hlen
  have hline : w.line w.curL = some (w.lines w.curL) := if_pos ⟨hpos, hle⟩
  have hx : ∃ x, colX g (w.lines w.curL) w.curC = some x := by
    unfold colX
    split
    · exact ⟨_, rfl⟩
    · rw [slice_eq (Nat.le_refl 1) hcol]
      exact ⟨_, rfl⟩
  obtain ⟨x, hx⟩ := hx
  unfold ensureCursorVisible
  simp only [bind_eq_bind, bind_some, hcheck, htop]
  by_cases hwidth : g.visibleWidth > 0
  · rw [if_pos hwidth, hline]
    simp only [bind_some, hcheckLen, hx]
    exact ⟨top, _, rfl, htopLe⟩
  · rw [if_neg hwidth]
    exact ⟨top, w.hOff, rfl, htopLe⟩

theorem ensureCursorVisible_does (h : Inv w) (hn : 0 < w.n) (hg : g.Sane) :
    Does (ensureCursorVisible g w) w.doc := by
  obtain ⟨top, hOff, heq, htop⟩ := ensureCursorVisible_eq h hg
  have hat := h.cursor hn
  refine ⟨_, heq, h.moved (l := w.curL) (c := w.curC) hat htop, hn, rfl⟩

theorem natural_eq {x : UInt64} (h : x.toNat ≤ maxLines) : natural x = some x.toNat := by
  have hmax : maxLines = 512 := rfl
  unfold natural
  rw [if_pos (by omega)]

theorem pageUp_eq (h : w.top.toNat ≤ maxLines) (hg : g.Sane) :
    ∃ top : UInt64, pageUp g w = some { w with top := top } ∧ top.toNat ≤ maxLines := by
  obtain ⟨rows, hrows⟩ := hg.visibleRows
  unfold pageUp
  rw [hrows, bind_eq_bind, bind_some]
  refine ⟨_, rfl, ?_⟩
  split
  · rename_i hlt
    have hlt' : rows.toNat < w.top.toNat := UInt64.lt_iff_toNat_lt.mp hlt
    rw [UInt64.toNat_sub_of_le _ _ (UInt64.le_iff_toNat_le.mpr (Nat.le_of_lt hlt'))]
    omega
  · exact Nat.zero_le _

theorem pageDown_eq (hcount : w.n ≤ maxLines) (hg : g.Sane) :
    ∃ top : UInt64, pageDown g w = some { w with top := top } ∧ top.toNat ≤ maxLines := by
  obtain ⟨rows, hrows⟩ := hg.visibleRows
  have hn : (UInt64.ofNat w.n).toNat = w.n :=
    UInt64.toNat_ofNat_of_lt' (Nat.lt_of_le_of_lt hcount (by decide))
  unfold pageDown setTop
  rw [hrows, bind_eq_bind, bind_some]
  refine ⟨_, rfl, ?_⟩
  generalize hmax : (if UInt64.ofNat w.n > rows then UInt64.ofNat w.n - rows else 0) = m
  have hm : m.toNat ≤ maxLines := by
    rw [← hmax]
    split
    · rename_i hlt
      have hlt' : rows.toNat < (UInt64.ofNat w.n).toNat := UInt64.lt_iff_toNat_lt.mp hlt
      rw [UInt64.toNat_sub_of_le _ _ (UInt64.le_iff_toNat_le.mpr (Nat.le_of_lt hlt'))]
      omega
    · exact Nat.zero_le _
  show (if w.top + rows ≤ m then w.top + rows else m).toNat ≤ maxLines
  split
  · rename_i hle
    exact Nat.le_trans (UInt64.le_iff_toNat_le.mp hle) hm
  · exact hm

/-! ## The first line -/

theorem ensureLine_of_pos (hn : 0 < w.n) : w.ensureLine = w := by
  unfold ensureLine
  rw [if_neg (by omega)]

/-- **`Ensure_Line`** opens the document. -/
theorem ensureLine_spec (h : Inv w) : Inv w.ensureLine ∧ 0 < w.ensureLine.n ∧ w.ensureLine.doc = w.doc.opened := by
  rcases Nat.eq_zero_or_pos w.n with h0 | hn
  · have hline : w.ensureLine =
        { w with n := 1, lines := Function.update w.lines 1 ⟨(w.lines 1).buf, 0⟩, curL := 1, curC := 0 } :=
      if_pos h0
    have hsel := (h.empty h0).2.2
    have hlens : ∀ l, (Function.update w.lines 1 ⟨(w.lines 1).buf, 0⟩ l).len ≤ maxCols :=
      setLine_lens h (r := ⟨(w.lines 1).buf, 0⟩) (Nat.zero_le _) 1
    have hnone : w.text = [] := by
      unfold text
      rw [h0, stretch_zero]
    have hopen : w.doc.opened = { w.doc with lines := [[]], cur := ⟨0, 0⟩ } := if_pos hnone
    rw [hline, hopen]
    refine ⟨⟨hlens, (by decide : 1 ≤ maxLines), (fun h1 => by cases h1), fun _ => ?_, fun hs => ?_, h.anchL, h.top⟩,
      Nat.zero_lt_one, ?_⟩
    · exact ⟨Nat.le_refl 1, Nat.le_refl 1, Nat.zero_le _⟩
    · have hs' : w.sel = true := hs
      rw [hsel] at hs'
      cases hs'
    · unfold doc text
      rfl
  · rw [ensureLine_of_pos hn]
    have hlines : w.doc.lines ≠ [] := by
      intro h0
      have hlen := text_length (w := w)
      rw [show w.text = [] from h0] at hlen
      simp at hlen
      omega
    exact ⟨h, hn, (if_neg hlines).symm⟩

/-! ## Deleting forward -/

theorem Edited.base {w₁ : TextEdit} {ls : List Line} (hd : Edited w₁ w' ls l c) (hkept : Kept w w₁) :
    Edited w w' ls l c :=
  ⟨hd.inv, hd.pos, hd.text, hd.curL, hd.curC, hd.sel, hd.anchL.trans hkept.anchL, hd.anchC.trans hkept.anchC,
    hd.dragging.trans hkept.dragging⟩

/-- **`Forward_Delete` joins or removes**, when a line at its end can take the next one. -/
theorem forwardDelete_does (h : Inv w) (hn : 0 < w.n) (hroom : w.sel = true → w.left ≤ maxCols)
    (hnext : w.sel = false → w.curC = (w.lines w.curL).len → w.curL < w.n →
      (w.lines w.curL).len + (w.lines (w.curL + 1)).len ≤ maxCols) :
    Does w.forwardDelete (w.doc.delete.getD w.doc) := by
  have hat := h.cursor hn
  have hcol := hat.col
  have hle := hat.le
  have hpos := hat.pos
  cases hsel : w.sel with
  | true =>
    have hdoc : w.doc.delete = w.doc.cut w.doc.start w.doc.stop := if_pos hsel
    have hcode : w.forwardDelete = w.deleteSelection := if_pos hsel
    rw [hdoc, hcode]
    exact deleteSelection_does h hsel (hroom hsel)
  | false =>
    have hdoc : ¬ w.doc.sel = true := by
      show ¬ w.sel = true
      simp [hsel]
    have hline : (w.doc.line w.doc.cur.row).length = (w.lines w.curL).len := by
      show (w.text.getD (w.curL - 1) []).length = _
      rw [text_getD hpos hle, LineRec.text_length]
    unfold forwardDelete Doc.delete
    rw [if_neg (show ¬ w.sel = true by simp [hsel]), if_neg hdoc, hline, h.line hpos hle, bind_eq_bind, bind_some]
    by_cases hc : w.curC < (w.lines w.curL).len
    · -- a character behind the cursor
      have hafter : w.At w.curL (w.curC + 1) := ⟨hpos, hle, hc⟩
      have hmoved : Inv { w with curC := w.curC + 1 } := h.moved hafter h.top
      obtain ⟨w', hback, hd⟩ := backspace_char_edited hmoved ⟨hpos, hle, hc⟩ hsel (Nat.succ_pos _)
      rw [if_pos hc, if_pos (show w.doc.cur.col < _ from hc)]
      exact (hd.base (w := w) ⟨rfl, rfl, rfl, rfl⟩).does hback
    · rw [if_neg hc, if_neg (show ¬ w.doc.cur.col < _ from hc)]
      by_cases hl : w.curL < w.n
      · -- the next line
        have hnextAt : w.At (w.curL + 1) 0 := ⟨by omega, hl, Nat.zero_le _⟩
        have hmoved : Inv { w with curL := w.curL + 1, curC := 0 } := h.moved hnextAt h.top
        have hend : w.curC = (w.lines w.curL).len := by omega
        obtain ⟨w', hback, hd⟩ := backspace_join_edited hmoved ⟨by show 1 ≤ w.curL + 1; omega, hl, Nat.zero_le _⟩
          hsel rfl (by show 1 < w.curL + 1; omega) (hnext hsel hend hl)
        have hrow : w.doc.cur.row + 1 < w.doc.lines.length := by
          show w.curL - 1 + 1 < w.text.length
          rw [text_length]
          omega
        have hup : w.curL - 1 + 1 = w.curL := by omega
        have hdoes := (hd.base (w := w) ⟨rfl, rfl, rfl, rfl⟩).does hback
        rw [if_pos hl, if_pos hrow]
        show Does _ ((w.doc.edit ⟨w.curL - 1, w.curC⟩ ⟨w.curL - 1 + 1, 0⟩ joined ⟨w.curL - 1, w.curC⟩).getD w.doc)
        rw [hup, hend]
        exact hdoes
      · have hrow : ¬ w.doc.cur.row + 1 < w.doc.lines.length := by
          show ¬ w.curL - 1 + 1 < w.text.length
          rw [text_length]
          omega
        rw [if_neg hl, if_neg hrow]
        exact ⟨w, rfl, h, hn, rfl⟩

/-! ## Texts -/

/-- Is a character a break? -/
def IsBreak (c : UInt8) : Prop := c = 13 ∨ c = 10

instance (c : UInt8) : Decidable (IsBreak c) := inferInstanceAs (Decidable (_ ∨ _))

/-- Where typing `c` over a selection looks at the right thing: a full line is full without the selection
    too, and a break does not lose the end of a line, nor meet a full table that the selection would make
    room in. -/
def Takes (w : TextEdit) (c : UInt8) : Prop :=
  w.sel = true →
    if IsBreak c then w.left ≤ maxCols ∧ (maxLines ≤ w.n → w.spanned = 0)
    else (maxCols ≤ (w.lines w.curL).len ↔ maxCols ≤ w.left)

/-- **A text that goes in whole.** -/
theorem insertLoop_does {s : List UInt8} {prev : Option UInt8} (h : Inv w) (hn : 0 < w.n)
    (htakes : w.sel = true → prev = none ∧ ∀ c ∈ s.head?, w.Takes c) (hs : w.doc.typeAll prev s = some d) :
    Does (insertLoop prev s w) d := by
  induction s generalizing w prev with
  | nil =>
    cases hs
    exact ⟨w, rfl, h, hn, rfl⟩
  | cons c cs ih =>
    have hnext : ∀ {w'}, Inv w' → 0 < w'.n → w'.doc.sel = false → w'.doc.typeAll (some c) cs = some d →
        Does (insertLoop (some c) cs w') d := by
      intro w' h' hn' hsel hrest
      have hsel' : w'.sel = false := hsel
      exact ih h' hn' (fun hs => by simp [hsel'] at hs) hrest
    have hhead : ∀ hs : w.sel = true, w.Takes c := fun hs => (htakes hs).2 c rfl
    unfold Doc.typeAll at hs
    unfold insertLoop
    by_cases hbreak : c = 13 ∨ c = 10
    · rw [if_pos hbreak] at hs ⊢
      by_cases hskip : c = 10 ∧ prev = some 13
      · -- LF behind CR: there is no selection any more
        rw [if_pos hskip] at hs ⊢
        have hsel : w.sel = false := by
          by_contra hsel
          have hnone := (htakes (by simpa using hsel)).1
          rw [hskip.2] at hnone
          cases hnone
        exact hnext h hn hsel hs
      · rw [if_neg hskip] at hs ⊢
        obtain ⟨d1, henter, hrest⟩ := bind_eq_some_iff.mp hs
        have htake : ∀ hs : w.sel = true, w.left ≤ maxCols ∧ (maxLines ≤ w.n → w.spanned = 0) := by
          intro hs
          have := hhead hs hs
          rwa [if_pos (show IsBreak c from hbreak)] at this
        have hsplit := splitLine_does h hn (fun hs => (htake hs).1) fun hs => (htake hs).2
        rw [henter, getD_some] at hsplit
        refine hsplit.bind fun w' h' hn' hdoc => hnext h' hn' ?_ ?_
        · rw [hdoc]
          exact Doc.edit_sel henter
        · rw [hdoc]
          exact hrest
    · rw [if_neg hbreak] at hs ⊢
      obtain ⟨d1, htype, hrest⟩ := bind_eq_some_iff.mp hs
      have htake : w.sel = true → (maxCols ≤ (w.lines w.curL).len ↔ maxCols ≤ w.left) := by
        intro hs
        have := hhead hs hs
        rwa [if_neg (show ¬ IsBreak c from hbreak)] at this
      have hinsert := insertChar_does h hn c htake
      rw [htype, getD_some] at hinsert
      refine hinsert.bind fun w' h' hn' hdoc => hnext h' hn' ?_ ?_
      · rw [hdoc]
        exact Doc.edit_sel htype
      · rw [hdoc]
        exact hrest

/-- Nothing of the text goes in: no character into a full line, no break into a full table. -/
def Rejects (w : TextEdit) (s : List UInt8) : Prop :=
  ∀ c ∈ s, if IsBreak c then maxLines ≤ w.n else maxCols ≤ (w.lines w.curL).len

theorem insertLoop_rejects {s : List UInt8} {prev : Option UInt8} (h : Inv w) (hn : 0 < w.n)
    (hs : w.Rejects s) : insertLoop prev s w = some w := by
  have hat := h.cursor hn
  induction s generalizing prev with
  | nil => rfl
  | cons c cs ih =>
    have hrest : w.Rejects cs := fun d hd => hs d (List.mem_cons_of_mem _ hd)
    have hc := hs c List.mem_cons_self
    unfold insertLoop
    by_cases hbreak : c = 13 ∨ c = 10
    · have hfull : w.splitLine = some w := by
        rw [if_pos (show IsBreak c from hbreak)] at hc
        exact if_pos hc
      rw [if_pos hbreak, hfull, bind_some, ih hrest, ite_self]
    · have hfull : w.insertChar c = some w := by
        rw [if_neg (show ¬ IsBreak c from hbreak)] at hc
        unfold insertChar
        rw [h.line hat.pos hat.le, bind_eq_bind, bind_some, if_pos hc]
      rw [if_neg hbreak, hfull, bind_some, ih hrest]

/-! ## Keys -/

/-- Where a key looks at the right thing. -/
def KeyMeets (w : TextEdit) : Key → Prop
  | .char _ => w.sel = true → (maxCols ≤ (w.lines w.curL).len ↔ maxCols ≤ w.left)
  | .return => w.sel = true → w.left ≤ maxCols ∧ (maxLines ≤ w.n → w.spanned = 0)
  | .backspace => w.sel = true → w.left ≤ maxCols
  | .delete =>
    (w.sel = true → w.left ≤ maxCols) ∧
      (w.sel = false → w.curC = (w.lines w.curL).len → w.curL < w.n →
        (w.lines w.curL).len + (w.lines (w.curL + 1)).len ≤ maxCols)
  | .up | .down | .left | .right | .home | .end | .ctrlHome | .ctrlEnd | .pageup | .pagedown => True

/-- The row to which a page key takes the cursor. -/
def pageRow (w : Option TextEdit) : Command :=
  match w with
  | some w => .row w.top.toNat
  | none => .none

/-- What a key means for the document. -/
def keyCommand (g : Screen) (w : TextEdit) : Key → Command
  | .char c => .type c
  | .backspace => .backspace
  | .return => .enter
  | .delete => .delete
  | .up => .up
  | .down => .down
  | .left => .left
  | .right => .right
  | .home => .home
  | .end => .end
  | .ctrlHome => .top
  | .ctrlEnd => .bottom
  | .pageup => pageRow (pageUp g w.collapse)
  | .pagedown => pageRow (pageDown g w.collapse)

theorem doc_opened (hn : 0 < w.n) : w.doc.opened = w.doc := by
  apply Doc.opened_of_ne
  intro h0
  have hlen := text_length (w := w)
  rw [show w.text = [] from h0] at hlen
  simp at hlen
  omega

theorem page_does (h : Inv w) (hn : 0 < w.n) {top : UInt64} (htop : top.toNat ≤ maxLines) :
    Does ((natural top).bind fun row => clampCursor { w.collapse with top := top, curL := row + 1 })
      (w.doc.run (.row top.toNat)) := by
  have hclamp := clampCursor_does h hn htop (k := top.toNat + 1) (by omega)
  show Does _ (w.doc.opened.toRow top.toNat)
  rw [natural_eq htop, doc_opened hn]
  exact hclamp

/-- **Every key does what it means.** -/
theorem onKeyBranch_does (h : Inv w) (hn : 0 < w.n) (hg : g.Sane) {key : Key} (hkey : w.KeyMeets key) :
    Does (onKeyBranch g w key) (w.doc.run (keyCommand g w key)) := by
  have hat := h.cursor hn
  have hpos := hat.pos
  have hle := hat.le
  have hcount := h.count
  have hopen := doc_opened hn
  have htop := h.top
  have hlength := text_length (w := w)
  have hline : ∀ {l}, 1 ≤ l → l ≤ w.n → (w.doc.line (l - 1)).length = (w.lines l).len := by
    intro l hpos hle
    show (w.text.getD (l - 1) []).length = _
    rw [text_getD hpos hle, LineRec.text_length]
  cases key with
  | char c =>
    show Does (w.insertChar c) ((w.doc.opened.type c).getD w.doc.opened)
    rw [hopen]
    exact insertChar_does h hn c hkey
  | backspace =>
    show Does w.backspace (w.doc.opened.backspace.getD w.doc.opened)
    rw [hopen]
    exact backspace_does h hn hkey
  | «return» =>
    show Does w.splitLine (w.doc.opened.enter.getD w.doc.opened)
    rw [hopen]
    exact splitLine_does h hn (fun hs => (hkey hs).1) fun hs => (hkey hs).2
  | delete =>
    show Does w.forwardDelete (w.doc.opened.delete.getD w.doc.opened)
    rw [hopen]
    exact forwardDelete_does h hn hkey.1 hkey.2
  | up =>
    have hk : (if w.curL > 1 then w.curL - 1 else w.curL) - 1 = w.curL - 1 - 1 := by split <;> omega
    have hclamp := clampCursor_does h hn htop (k := if w.curL > 1 then w.curL - 1 else w.curL) (by split <;> omega)
    show Does _ (w.doc.opened.toRow (w.doc.opened.cur.row - 1))
    rw [hk] at hclamp
    rw [hopen]
    exact hclamp
  | down =>
    have hclamp := clampCursor_does h hn htop (k := if w.curL < w.n then w.curL + 1 else w.curL)
      (by split <;> omega)
    have hrow : w.doc.toRow (w.curL - 1 + 1) =
        w.doc.toRow ((if w.curL < w.n then w.curL + 1 else w.curL) - 1) := by
      apply Doc.toRow_eq
      show min _ (w.text.length - 1) = min _ (w.text.length - 1)
      split <;> omega
    show Does _ (w.doc.opened.toRow (w.doc.opened.cur.row + 1))
    rw [← hrow] at hclamp
    rw [hopen]
    exact hclamp
  | left =>
    show Does _ w.doc.opened.left
    rw [hopen]
    rw [onKeyBranch]
    unfold Doc.left
    by_cases hc : w.curC > 0
    · rw [if_pos hc, if_pos (show 0 < w.doc.cur.col from hc)]
      exact moveTo_does h ⟨hpos, hle, by have := hat.col; omega⟩ htop
    · rw [if_neg hc, if_neg (show ¬ 0 < w.doc.cur.col from hc)]
      by_cases hl : w.curL > 1
      · have hprev : w.At (w.curL - 1) (w.lines (w.curL - 1)).len := ⟨by omega, by omega, Nat.le_refl _⟩
        have hrow : 0 < w.doc.cur.row := by
          show 0 < w.curL - 1
          omega
        rw [if_pos hl, if_pos hrow, h.line hprev.pos hprev.le, bind_eq_bind, bind_some,
          show (w.doc.line (w.doc.cur.row - 1)).length = _ from hline hprev.pos hprev.le]
        exact moveTo_does h hprev htop
      · have hrow : ¬ 0 < w.doc.cur.row := by
          show ¬ 0 < w.curL - 1
          omega
        rw [if_neg hl, if_neg hrow]
        exact moveTo_does h hat htop
  | right =>
    show Does _ w.doc.opened.right
    rw [hopen]
    unfold Doc.right
    rw [onKeyBranch, h.line hpos hle, bind_eq_bind, bind_some,
      show (w.doc.line w.doc.cur.row).length = _ from hline hpos hle]
    by_cases hc : w.curC < (w.lines w.curL).len
    · rw [if_pos hc, if_pos (show w.doc.cur.col < _ from hc)]
      exact moveTo_does h ⟨hpos, hle, hc⟩ htop
    · rw [if_neg hc, if_neg (show ¬ w.doc.cur.col < _ from hc)]
      by_cases hl : w.curL < w.n
      · have hrow : w.doc.cur.row + 1 < w.doc.lines.length := by
          show w.curL - 1 + 1 < w.text.length
          omega
        have hup : w.doc.cur.row + 1 = w.curL + 1 - 1 := by
          show w.curL - 1 + 1 = _
          omega
        rw [if_pos hl, if_pos hrow, hup]
        exact moveTo_does h ⟨by omega, hl, Nat.zero_le _⟩ htop
      · have hrow : ¬ w.doc.cur.row + 1 < w.doc.lines.length := by
          show ¬ w.curL - 1 + 1 < w.text.length
          omega
        rw [if_neg hl, if_neg hrow]
        exact moveTo_does h hat htop
  | home =>
    show Does _ (w.doc.opened.moveTo ⟨w.doc.opened.cur.row, 0⟩)
    rw [hopen]
    exact moveTo_does h ⟨hpos, hle, Nat.zero_le _⟩ htop
  | «end» =>
    show Does _ (w.doc.opened.moveTo ⟨w.doc.opened.cur.row, (w.doc.opened.line w.doc.opened.cur.row).length⟩)
    rw [hopen, show (w.doc.line w.doc.cur.row).length = _ from hline hpos hle]
    rw [onKeyBranch, h.line hpos hle, bind_eq_bind, bind_some]
    exact moveTo_does h ⟨hpos, hle, Nat.le_refl _⟩ htop
  | ctrlHome =>
    show Does _ (w.doc.opened.moveTo ⟨0, 0⟩)
    rw [hopen]
    exact moveTo_does h (l := 1) ⟨Nat.le_refl 1, hn, Nat.zero_le _⟩ (Nat.zero_le _)
  | ctrlEnd =>
    have hlast : w.doc.lines.length - 1 = w.n - 1 := by
      show w.text.length - 1 = _
      rw [hlength]
    show Does _ (w.doc.opened.moveTo
      ⟨w.doc.opened.lines.length - 1, (w.doc.opened.line (w.doc.opened.lines.length - 1)).length⟩)
    rw [hopen, hlast, hline hn (Nat.le_refl _)]
    rw [onKeyBranch, h.line hn (Nat.le_refl _), bind_eq_bind, bind_some]
    exact moveTo_does h ⟨hn, Nat.le_refl _, Nat.le_refl _⟩ htop
  | pageup =>
    obtain ⟨top, hup, hle'⟩ := pageUp_eq (w := w.collapse) htop hg
    rw [onKeyBranch, keyCommand, hup]
    exact page_does h hn hle'
  | pagedown =>
    obtain ⟨top, hdown, hle'⟩ := pageDown_eq (w := w.collapse) hcount hg
    rw [onKeyBranch, keyCommand, hdown]
    exact page_does h hn hle'

end TextEdit

end Aegir.Trinket
