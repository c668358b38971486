/-
  Runs of the text editor.

  `Meets` says of a call where it keeps to the document; `command` is what the call means for it.  The
  positions under the pointer and the row of a page key come from the view, so `command` reads them there.

  **The result.**  In a run whose calls all meet their condition no check fails, every state is `Sound`,
  and the text, the cursor and the selection are those of the document under the same commands.
-/
import Aegir.Trinket.Keys

namespace Aegir.Trinket

open Aegir.Lib List Option Function

namespace TextEdit

variable {w w' : TextEdit} {g : Screen} {l c : Nat} {px py : UInt64}

/-! ## The pointer -/

theorem gapLoop_le {r : LineRec} (hlen : r.len ≤ maxCols) (t : UInt64) {left p : Nat} (hp : 1 ≤ p)
    (hsum : p + left = r.len + 1) (acc : UInt64) : ∃ col, gapLoop g r t left p acc = some col ∧ col ≤ r.len := by
  induction left generalizing p acc with
  | zero => exact ⟨r.len, rfl, Nat.le_refl _⟩
  | succ left ih =>
    rw [gapLoop, slice_eq hp (by omega), bind_eq_bind, bind_some]
    split
    · exact ⟨p - 1, rfl, by omega⟩
    · exact ih (by omega) (by omega) _

/-- The pointer's row is one that the code can count to. -/
def Points (g : Screen) (w : TextEdit) (py : UInt64) : Prop :=
  ∃ row, pointedRow g py = some row ∧ w.top.toNat + row.toNat + 1 < 2 ^ 31

/-- **`Locate`** finds a position of the text. -/
theorem locate_at (h : Inv w) (hn : 0 < w.n) (px : UInt64) (hpoints : Points g w py) :
    ∃ l c, locate g w px py = some (l, c) ∧ w.At l c := by
  obtain ⟨row, hrow, hsum⟩ := hpoints
  have htop : natural w.top = some w.top.toNat := if_pos (by omega)
  have hrowNat : natural row = some row.toNat := if_pos (by omega)
  have hcheck : check (w.top.toNat + row.toNat + 1 < 2 ^ 31) = some () := if_pos hsum
  have hline := h.line (l := min (w.top.toNat + row.toNat + 1) w.n) (by omega) (by omega)
  obtain ⟨col, hcol, hle⟩ := gapLoop_le (g := g) (h.lens (min (w.top.toNat + row.toNat + 1) w.n))
    ((if px > g.x + pad then px - g.x - pad else 0) + w.hOff) (Nat.le_refl 1) (Nat.add_comm 1 _) 0
  refine ⟨_, col, ?_, ⟨by omega, Nat.min_le_right _ _, hle⟩⟩
  unfold locate
  simp only [bind_eq_bind, bind_some, hrow, htop, hrowNat, hcheck, hline, hcol]

/-- What the pointer means for the document. -/
def pointerCommand (g : Screen) (w : TextEdit) (k : PointerKind) (px py : UInt64) : Command :=
  match k with
  | .press =>
    if g.inside px py then (locate g w px py).elim .none fun p => .press ⟨p.1 - 1, p.2⟩ else .none
  | .move => if w.dragging then (locate g w px py).elim .none fun p => .drag ⟨p.1 - 1, p.2⟩ else .none
  | .release => if w.dragging then .release else .none

/-- Where the pointer keeps to the document: a drag to another position has an anchor in the text. -/
def PointerMeets (g : Screen) (w : TextEdit) (k : PointerKind) (px py : UInt64) : Prop :=
  match k with
  | .press => g.inside px py = true → Points g w py
  | .move =>
    w.dragging = true → g.Sane ∧ Points g w py ∧
      ∀ l c, locate g w px py = some (l, c) → l ≠ w.curL ∨ c ≠ w.curC → w.At w.anchL w.anchC
  | .release => True

theorem Inv.placed (h : Inv w) (hlines : w'.lines = w.lines) (hn : w'.n = w.n) (htop : w'.top = w.top)
    (hat : w.At w'.curL w'.curC) (hanch : w'.sel = true → w.At w'.anchL w'.anchC) (hpos : 1 ≤ w'.anchL) :
    Inv w' where
  lens := by
    rw [hlines]
    exact h.lens
  count := by
    rw [hn]
    exact h.count
  empty h0 := by
    have := hat.pos
    have := hat.le
    omega
  cursor _ := ⟨hat.pos, by rw [hn]; exact hat.le, by rw [hlines]; exact hat.col⟩
  anchor hs := ⟨(hanch hs).pos, by rw [hn]; exact (hanch hs).le, by rw [hlines]; exact (hanch hs).col⟩
  anchL := hpos
  top := by
    rw [htop]
    exact h.top

theorem onPointerBranch_does (h : Inv w) (hn : 0 < w.n) {k : PointerKind} (hk : PointerMeets g w k px py) :
    Does ((onPointerBranch g w k px py).map Prod.snd) (w.doc.run (pointerCommand g w k px py)) := by
  have hopen := doc_opened hn
  have hat := h.cursor hn
  have hnone : w.doc.run .none = w.doc := hopen
  cases k with
  | press =>
    rw [onPointerBranch, pointerCommand]
    by_cases hinside : g.inside px py = true
    · obtain ⟨l, c, hlocate, hat'⟩ := locate_at h hn px (hk hinside)
      rw [if_pos hinside, if_pos hinside, hlocate]
      refine ⟨_, rfl, h.placed rfl rfl rfl hat' (fun hs => by cases hs) hat'.pos, hn, ?_⟩
      show _ = ({ w.doc.opened with cur := _, anchor := _, sel := _, dragging := _ } : Doc)
      rw [hopen]
      rfl
    · rw [if_neg hinside, if_neg hinside, hnone]
      exact ⟨w, rfl, h, hn, rfl⟩
  | move =>
    rw [onPointerBranch, pointerCommand]
    by_cases hdrag : w.dragging = true
    · obtain ⟨hg, hpoints, hanchor⟩ := hk hdrag
      obtain ⟨l, c, hlocate, hat'⟩ := locate_at h hn px hpoints
      rw [if_pos hdrag, if_pos hdrag, hlocate]
      show Does (Option.map Prod.snd (if l ≠ w.curL ∨ c ≠ w.curC then _ else _)) (w.doc.run (.drag ⟨l - 1, c⟩))
      have hrun : w.doc.run (.drag ⟨l - 1, c⟩) =
          if (⟨l - 1, c⟩ : Pos) = w.doc.cur then w.doc else { w.doc with cur := ⟨l - 1, c⟩, sel := true } := by
        show (if _ = w.doc.opened.cur then w.doc.opened else _) = _
        rw [hopen]
      have hsame : (⟨l - 1, c⟩ : Pos) = w.doc.cur ↔ ¬ (l ≠ w.curL ∨ c ≠ w.curC) := by
        have := hat.pos
        have := hat'.pos
        show (⟨l - 1, c⟩ : Pos) = ⟨w.curL - 1, w.curC⟩ ↔ _
        rw [Pos.mk.injEq]
        omega
      rw [hrun]
      by_cases hmove : l ≠ w.curL ∨ c ≠ w.curC
      · have hmoved : Inv { w with curL := l, curC := c, sel := true } :=
          h.placed rfl rfl rfl hat' (fun _ => hanchor l c hlocate hmove) h.anchL
        obtain ⟨w', hshow, hinv, hn', hdoc⟩ := ensureCursorVisible_does hmoved hn hg
        rw [if_pos hmove, if_neg (hsame.not.mpr (not_not.mpr hmove)), hshow]
        exact ⟨w', rfl, hinv, hn', hdoc⟩
      · rw [if_neg hmove, if_pos (hsame.mpr hmove)]
        exact ⟨w, rfl, h, hn, rfl⟩
    · rw [if_neg hdrag, if_neg hdrag, hnone]
      exact ⟨w, rfl, h, hn, rfl⟩
  | release =>
    rw [onPointerBranch, pointerCommand]
    by_cases hdrag : w.dragging = true
    · rw [if_pos hdrag, if_pos hdrag]
      have hsame : w.doc.anchor = w.doc.cur ↔ w.anchL = w.curL ∧ w.anchC = w.curC := by
        have := hat.pos
        have := h.anchL
        show (⟨w.anchL - 1, w.anchC⟩ : Pos) = ⟨w.curL - 1, w.curC⟩ ↔ _
        rw [Pos.mk.injEq]
        omega
      refine ⟨_, rfl, h.placed rfl rfl rfl hat ?_ h.anchL, hn, ?_⟩
      · intro hs
        exact h.anchor (Bool.and_eq_true_iff.mp hs).1
      · show _ = ({ w.doc.opened with dragging := _, sel := _ } : Doc)
        rw [hopen]
        by_cases hclick : w.doc.anchor = w.doc.cur
        · rw [decide_eq_false (not_not.mpr hclick)]
          rw [decide_eq_true (hsame.mp hclick)]
          rfl
        · rw [decide_eq_true hclick]
          rw [decide_eq_false (hsame.not.mp hclick)]
          rfl
    · rw [if_neg hdrag, if_neg hdrag, hnone]
      exact ⟨w, rfl, h, hn, rfl⟩

/-! ## Calls -/

/-- What a call means for the document. -/
def command (g : Screen) (w : TextEdit) : Action → Command
  | .clear => .clear
  | .appendLine s => .append s
  | .insertText s => .insert s
  | .onKey code => (keyOf code).elim .none (keyCommand g w.ensureLine)
  | .onPointer k px py => pointerCommand g w.ensureLine k px py

/-- **Where a call keeps to the document.** -/
def Meets (g : Screen) (w : TextEdit) : Action → Prop
  | .clear => True
  | .appendLine s => s.length ≤ maxCols ∨ maxLines ≤ w.n
  | .insertText s =>
    g.Sane ∧
      (s = [] ∨
        0 < w.n ∧
          ((w.doc.typeAll none s).isSome = true ∧ (∀ c ∈ s.head?, w.Takes c) ∨
            w.doc.typeAll none s = none ∧ w.Rejects s))
  | .onKey code => ∀ key, keyOf code = some key → g.Sane ∧ w.ensureLine.KeyMeets key
  | .onPointer k px py => PointerMeets g w.ensureLine k px py

theorem keyCommand_opens (g : Screen) (w : TextEdit) (key : Key) : Command.opens (keyCommand g w key) = true := by
  cases key <;> first | rfl | skip
  · show Command.opens (pageRow _) = true
    unfold pageRow
    split <;> rfl
  · show Command.opens (pageRow _) = true
    unfold pageRow
    split <;> rfl

theorem pointerCommand_opens (g : Screen) (w : TextEdit) (k : PointerKind) (px py : UInt64) :
    Command.opens (pointerCommand g w k px py) = true := by
  cases k with
  | press =>
    rw [pointerCommand]
    split
    · cases locate g w px py <;> rfl
    · rfl
  | move =>
    rw [pointerCommand]
    split
    · cases locate g w px py <;> rfl
    · rfl
  | release =>
    rw [pointerCommand]
    split <;> rfl

theorem appended_inv (h : Inv w) (hfull : w.n < maxLines) {r : LineRec} (hr : r.len ≤ maxCols) :
    Inv { w.setLine (w.n + 1) r with n := w.n + 1 } := by
  have hold : ∀ {l c}, w.At l c → At { w.setLine (w.n + 1) r with n := w.n + 1 } l c := by
    intro l c hat
    have hle := hat.le
    refine ⟨hat.pos, Nat.le_succ_of_le hle, ?_⟩
    show c ≤ (update w.lines (w.n + 1) r l).len
    rw [update_of_ne (by omega)]
    exact hat.col
  refine ⟨setLine_lens h hr _, hfull, fun h0 => absurd h0 (Nat.succ_ne_zero _), fun _ => ?_, fun hs => hold (h.anchor hs), h.anchL,
    h.top⟩
  rcases Nat.eq_zero_or_pos w.n with h0 | hn
  · obtain ⟨hl, hc, -⟩ := h.empty h0
    show At _ w.curL w.curC
    rw [hl, hc]
    exact ⟨Nat.le_refl 1, by show 1 ≤ w.n + 1; omega, Nat.zero_le _⟩
  · exact hold (h.cursor hn)

theorem appended_doc (h : Inv w) (hfull : w.n < maxLines) {r : LineRec} {s : Line} (hlen : s.length ≤ maxCols)
    (hr : r.text = s) : doc { w.setLine (w.n + 1) r with n := w.n + 1 } = w.doc.run (.append s) := by
  have htext : text { w.setLine (w.n + 1) r with n := w.n + 1 } = w.text ++ [s] := by
    show stretch (fun l => (update w.lines (w.n + 1) r l).text) 1 (w.n + 1) = _
    have hlast : stretch (fun l => (update w.lines (w.n + 1) r l).text) (1 + w.n) 1 = [s] := by
      rw [stretch_one, Nat.add_comm 1 w.n, update_self, hr]
    rw [stretch_append, hlast]
    congr 1
    apply stretch_congr
    intro l _ hl
    rw [update_of_ne (by omega)]
  have hfits : Fits (w.doc.lines ++ [s]) := by
    have hold := h.fits
    refine ⟨?_, ?_⟩
    · show (w.text ++ [s]).length ≤ maxLines
      rw [length_append, text_length]
      exact hfull
    · intro x hx
      rcases mem_append.mp hx with hx | hx
      · exact hold.2 x hx
      · rw [mem_singleton.mp hx]
        exact hlen
  show _ = if Fits (w.doc.lines ++ [s]) then { w.doc with lines := w.doc.lines ++ [s] } else w.doc
  rw [if_pos hfits]
  unfold doc
  rw [htext]
  rfl

theorem appendLine_spec (h : Inv w) {s : List UInt8} (hs : s.length ≤ maxCols ∨ maxLines ≤ w.n) :
    ∃ w', w.appendLine s = some w' ∧ Inv w' ∧ w'.doc = w.doc.run (.append s) := by
  unfold appendLine
  by_cases hfull : w.n ≥ maxLines
  · -- a full table
    have hbad : ¬ Fits (w.doc.lines ++ [s]) := by
      rintro ⟨hcount, -⟩
      rw [length_append] at hcount
      have hlen : w.doc.lines.length = w.n := text_length
      simp only [length_singleton] at hcount
      omega
    rw [if_pos hfull]
    exact ⟨w, rfl, h, (if_neg hbad).symm⟩
  · have hlen : s.length ≤ maxCols := by omega
    have hmin : min s.length maxCols = s.length := by omega
    have hline : w.line (w.n + 1) = some (w.lines (w.n + 1)) := if_pos (by omega)
    rw [if_neg hfull, hline, bind_eq_bind, bind_some]
    dsimp only
    rw [hmin, take_length, assign_eq (Nat.le_refl 1) hlen (by omega)]
    refine ⟨_, rfl, ?_⟩
    generalize hr : (⟨overlay (w.lines (w.n + 1)).buf 1 s, s.length⟩ : LineRec) = r
    have htext : r.text = s := by
      rw [← hr]
      exact stretch_overlay
    have hrlen : r.len ≤ maxCols := by
      rw [← hr]
      exact hlen
    exact ⟨appended_inv h (by omega) hrlen, appended_doc h (by omega) hlen htext⟩

theorem insertText_spec (h : Inv w) (hg : g.Sane) {s : List UInt8}
    (hs : s = [] ∨ 0 < w.n ∧ ((w.doc.typeAll none s).isSome = true ∧ (∀ c ∈ s.head?, w.Takes c) ∨
      w.doc.typeAll none s = none ∧ w.Rejects s)) :
    ∃ w', insertText g w s = some w' ∧ Inv w' ∧ w'.doc = w.doc.run (.insert s) := by
  rcases hs with rfl | ⟨hn, hs⟩
  · -- the view is set right, on an empty widget too
    obtain ⟨top, hOff, hshow, htop⟩ := ensureCursorVisible_eq h hg
    refine ⟨_, hshow, ?_, rfl⟩
    exact ⟨h.lens, h.count, h.empty, fun hn => ⟨(h.cursor hn).pos, (h.cursor hn).le, (h.cursor hn).col⟩,
      fun hs => ⟨(h.anchor hs).pos, (h.anchor hs).le, (h.anchor hs).col⟩, h.anchL, htop⟩
  · have hloop : Does (insertLoop none s w) (w.doc.run (.insert s)) := by
      show Does _ ((w.doc.typeAll none s).getD w.doc)
      rcases hs with ⟨hsome, htakes⟩ | ⟨hnone, hrejects⟩
      · obtain ⟨d, hd⟩ := isSome_iff_exists.mp hsome
        rw [hd, getD_some]
        exact insertLoop_does h hn (fun _ => ⟨rfl, htakes⟩) hd
      · rw [insertLoop_rejects h hn hrejects]
        exact does_refused h hn hnone
    have hall : Does (insertText g w s) (w.doc.run (.insert s)) := by
      refine hloop.bind fun w' h' hn' hdoc => ?_
      rw [← hdoc]
      exact ensureCursorVisible_does h' hn' hg
    obtain ⟨w', hinsert, hinv, -, hdoc⟩ := hall
    exact ⟨w', hinsert, hinv, hdoc⟩

/-- **One call.** -/
theorem step_refines (h : Inv w) {a : Action} (ha : Meets g w a) :
    ∃ w', step g w a = some w' ∧ Inv w' ∧ w'.doc = w.doc.run (command g w a) := by
  obtain ⟨hinv, hn, hdoc⟩ := ensureLine_spec h
  cases a with
  | clear =>
    refine ⟨_, rfl, ⟨h.lens, Nat.zero_le _, fun _ => ⟨rfl, rfl, rfl⟩, fun h0 => ?_, fun hs => ?_, h.anchL,
      Nat.zero_le _⟩, rfl⟩
    · cases h0
    · cases hs
  | appendLine s => exact appendLine_spec h ha
  | insertText s =>
    obtain ⟨hg, ha⟩ := ha
    exact insertText_spec h hg ha
  | onKey code =>
    show ∃ w', Option.map Prod.snd (onKey g w code) = some w' ∧ Inv w' ∧ _
    cases hkey : keyOf code with
    | none =>
      refine ⟨w.ensureLine, ?_, hinv, ?_⟩
      · unfold onKey
        rw [hkey]
        rfl
      · rw [hdoc, command, hkey]
        rfl
    | some key =>
      obtain ⟨hg, hmeets⟩ := ha key hkey
      obtain ⟨w₁, hbranch, hinv1, hn1, hdoc1⟩ := onKeyBranch_does hinv hn hg hmeets
      obtain ⟨w', hshow, hinv', -, hdoc'⟩ := ensureCursorVisible_does hinv1 hn1 hg
      refine ⟨w', ?_, hinv', ?_⟩
      · unfold onKey
        rw [hkey]
        dsimp only
        rw [hbranch, bind_eq_bind, bind_some, hshow]
        rfl
      · rw [hdoc', hdoc1, hdoc, command, hkey]
        exact Doc.run_opened (keyCommand_opens g _ key) _
  | onPointer k px py =>
    obtain ⟨w', hstep, hinv', -, hdoc'⟩ := onPointerBranch_does hinv hn ha
    refine ⟨w', hstep, hinv', ?_⟩
    rw [hdoc', hdoc]
    exact Doc.run_opened (pointerCommand_opens g _ k px py) _

/-! ## Runs -/

/-- Every call of a run meets its condition, in the state in which it is made. -/
def MeetsAll : List (Screen × Action) → TextEdit → Prop
  | [], _ => True
  | (g, a) :: rest, w => Meets g w a ∧ ∀ w', step g w a = some w' → MeetsAll rest w'

/-- What the calls of a run mean for the document. -/
def commands : List (Screen × Action) → TextEdit → List Command
  | [], _ => []
  | (g, a) :: rest, w => command g w a :: (step g w a).elim [] (commands rest)

theorem MeetsAll.of_append {script rest : List (Screen × Action)} (h : MeetsAll (script ++ rest) w) :
    MeetsAll script w := by
  induction script generalizing w with
  | nil => trivial
  | cons call script ih => exact ⟨h.1, fun w' hstep => ih (h.2 w' hstep)⟩

theorem run_refines {script : List (Screen × Action)} (h : Inv w) (hmeets : MeetsAll script w) :
    ∃ w', run script w = some w' ∧ Inv w' ∧ w'.doc = w.doc.runAll (commands script w) := by
  induction script generalizing w with
  | nil => exact ⟨w, rfl, h, rfl⟩
  | cons call script ih =>
    obtain ⟨w₁, hstep, hinv, hdoc⟩ := step_refines h hmeets.1
    obtain ⟨w', hrun, hinv', hdoc'⟩ := ih hinv (hmeets.2 w₁ hstep)
    refine ⟨w', ?_, hinv', ?_⟩
    · rw [run, hstep, bind_some, hrun]
    · rw [commands, hstep, hdoc', hdoc]
      rfl

theorem new_inv (bufs : Nat → Nat → UInt8) : Inv (new bufs) where
  lens _ := Nat.zero_le _
  count := Nat.le_of_ble_eq_true rfl
  empty h := by cases h
  cursor _ := ⟨Nat.le_refl 1, Nat.le_refl 1, Nat.zero_le _⟩
  anchor hs := by cases hs
  anchL := Nat.le_refl 1
  top := Nat.zero_le _

/-- **The text editor refines the document**: in every state of a run whose calls meet their condition, no
    check failed, the state is sound, and it is the document's state after the same commands. -/
theorem editor_refines_document (bufs : Nat → Nat → UInt8) (script rest : List (Screen × Action))
    (h : MeetsAll (script ++ rest) (new bufs)) :
    ∃ w, run script (new bufs) = some w ∧ Sound w ∧
      w.doc = Doc.new.runAll (commands script (new bufs)) := by
  obtain ⟨w, hrun, hinv, hdoc⟩ := run_refines (new_inv bufs) h.of_append
  exact ⟨w, hrun, hinv.sound, hdoc⟩

/-! ## Two runs -/

/-- A widget of 200 by 100 pixels with a font of 8 by 8. -/
def plainScreen : Screen where
  x := 0
  y := 0
  w := 200
  h := 100
  lineHeight := 8
  textWidth s := UInt64.ofNat (8 * s.length)

def blank : TextEdit := new fun _ _ => 32

theorem plainScreen_sane : plainScreen.Sane where
  font := by decide
  rows := by
    intro rows hrows
    cases hrows
    decide

/-- `a` and a press of Backspace. -/
def keysScript : List (Screen × Action) := [(plainScreen, .onKey 97), (plainScreen, .onKey 8)]

theorem keysScript_meets : MeetsAll keysScript blank := by
  refine ⟨fun key hkey => ⟨plainScreen_sane, ?_⟩, fun w₁ h1 => ⟨fun key hkey => ⟨plainScreen_sane, ?_⟩,
    fun _ _ => trivial⟩⟩
  · cases hkey
    intro hs
    cases hs
  · cases hkey
    cases h1
    intro hs
    cases hs

theorem editor_refines_document_keys : ∃ w, run keysScript blank = some w ∧ Sound w ∧
    w.doc = Doc.new.runAll (commands keysScript blank) :=
  editor_refines_document _ keysScript [] keysScript_meets

/-- After `Clear` there is no line, and a text that is pasted is not in the document. -/
theorem pasted_text_lost : ¬ ∀ (bufs : Nat → Nat → UInt8) (script : List (Screen × Action)),
    (∀ call ∈ script, call.1.Sane) → ∃ w, run script (new bufs) = some w ∧ Sound w ∧
      w.doc = Doc.new.runAll (commands script (new bufs)) := by
  intro h
  obtain ⟨w, hrun, -, hdoc⟩ := h (fun _ _ => 32) [(plainScreen, .clear), (plainScreen, .insertText [97])]
    (by
      intro call hcall
      have : call.1 = plainScreen := by
        rcases mem_cons.mp hcall with rfl | hcall
        · rfl
        · rw [mem_singleton.mp hcall]
      rw [this]
      exact plainScreen_sane)
  have hempty : w.doc.lines = [] := by
    cases hrun
    rfl
  rw [hdoc] at hempty
  exact absurd hempty (by decide)

end TextEdit

end Aegir.Trinket
