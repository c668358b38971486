/-
  What the small_data region holds, and what its walks and edits make of it.

  `Region b name es` says that the region of `b` holds the name entry for `name`, then the entries `es`, and a
  terminator within the block.  Every walk of the region is a search in that list, and every edit replaces one
  stretch of the list: the entries before it stay where they are, the ones behind it move as they are.
-/
import Aegir.Bfs.SmallData

namespace Aegir.Bfs.SmallData

open Aegir.Lib List Function

/-- An attribute: its type, its name and its bytes. -/
structure Attr where
  type : Nat
  name : List UInt8
  data : List UInt8
deriving DecidableEq

def Attr.size (a : Attr) : Nat := entryBytes a.name.length a.data.length

/-- The bytes of entries. -/
def total : List Attr → Nat
  | [] => 0
  | a :: as => a.size + total as

/-- The entry at `pos` is that attribute; what its pads hold does not matter. -/
structure EntryAt (b : Block) (pos : Nat) (a : Attr) : Prop where
  type : le b pos 4 = a.type
  nlen : le b (pos + 4) 2 = a.name.length
  dlen : le b (pos + 6) 2 = a.data.length
  name : slice b (pos + 8) a.name.length = a.name
  data : slice b (pos + 8 + a.name.length + 3) a.data.length = a.data
  named : 0 < a.name.length

/-- The entries from `pos` on are these. -/
def Entries (b : Block) : Nat → List Attr → Prop
  | _, [] => True
  | pos, a :: as => EntryAt b pos a ∧ Entries b (pos + a.size) as

/-- The entries from `pos` on are these, and then the list ends, within the block. -/
structure Holds (b : Block) (pos : Nat) (as : List Attr) : Prop where
  entries : Entries b pos as
  ended : le b (pos + total as + 4) 2 = 0
  fits : pos + total as + 8 ≤ blockSize

/-! ## Entries -/

variable {dst src pos : Nat} {b b' : Block} {a : Attr} {as old post pre : List Attr}

theorem total_append (as bs : List Attr) : total (as ++ bs) = total as + total bs := by
  induction as with
  | nil => rw [nil_append, total, Nat.zero_add]
  | cons a as ih => rw [cons_append, total, total, ih, Nat.add_assoc]

theorem EntryAt.shift (h : EntryAt b src a)
    (hb : ∀ i < a.size, b' (dst + i) = b (src + i)) : EntryAt b' dst a := by
  have hsize : a.size = 8 + a.name.length + 3 + a.data.length + 1 := rfl
  have hmove : ∀ k i, k + i < a.size → b' (dst + k + i) = b (src + k + i) := by
    intro k i hi
    rw [Nat.add_assoc, Nat.add_assoc]
    exact hb (k + i) hi
  refine ⟨?_, ?_, ?_, ?_, ?_, h.named⟩
  · exact (le_shift fun i hi => hb i (by omega)).trans h.type
  · exact (le_shift fun i hi => hmove 4 i (by omega)).trans h.nlen
  · exact (le_shift fun i hi => hmove 6 i (by omega)).trans h.dlen
  · exact (slice_shift fun i hi => hmove 8 i (by omega)).trans h.name
  · refine (slice_shift fun i hi => ?_).trans h.data
    have hd := hb (8 + a.name.length + 3 + i) (by omega)
    have hdst : dst + 8 + a.name.length + 3 + i = dst + (8 + a.name.length + 3 + i) := by omega
    have hsrc : src + 8 + a.name.length + 3 + i = src + (8 + a.name.length + 3 + i) := by omega
    rw [hdst, hsrc]
    exact hd

theorem Entries.shift (h : Entries b src as)
    (hb : ∀ i < total as, b' (dst + i) = b (src + i)) : Entries b' dst as := by
  induction as generalizing src dst with
  | nil => trivial
  | cons a as ih =>
    rw [total] at hb
    refine ⟨h.1.shift fun i hi => hb i (by omega), ih h.2 fun i hi => ?_⟩
    have hm := hb (a.size + i) (by omega)
    rw [Nat.add_assoc, Nat.add_assoc]
    exact hm

theorem entries_append {bs : List Attr} :
    Entries b pos (as ++ bs) ↔ Entries b pos as ∧ Entries b (pos + total as) bs := by
  induction as generalizing pos with
  | nil => exact ⟨fun h => ⟨trivial, h⟩, fun h => h.2⟩
  | cons a as ih =>
    rw [cons_append, Entries, ih, Entries, total, Nat.add_assoc, and_assoc]

theorem Holds.tail (h : Holds b pos (a :: as)) : Holds b (pos + a.size) as := by
  have hend : pos + a.size + total as = pos + total (a :: as) := by rw [total, Nat.add_assoc]
  refine ⟨h.entries.2, ?_, ?_⟩
  · rw [hend]
    exact h.ended
  · rw [hend]
    exact h.fits

/-- **Splicing.**  The stretch `old` of the list becomes `new`: what is before it is the same, what is behind it has
    moved, terminator included. -/
theorem Holds.splice (new : List Attr) (h : Holds b pos (pre ++ old ++ post))
    (hpre : ∀ i, i < pos + total pre → b' i = b i) (hnew : Entries b' (pos + total pre) new)
    (hpost : ∀ i < total post + 8, b' (pos + total pre + total new + i) = b (pos + total pre + total old + i))
    (hfits : pos + total pre + total new + total post + 8 ≤ blockSize) : Holds b' pos (pre ++ new ++ post) := by
  have hall := entries_append.mp h.entries
  have hparts := entries_append.mp hall.1
  have hended := h.ended
  have hold : pos + total (pre ++ old ++ post) + 4 = pos + total pre + total old + (total post + 4) := by
    rw [total_append, total_append]
    omega
  have hnow : pos + total (pre ++ new ++ post) + 4 = pos + total pre + total new + (total post + 4) := by
    rw [total_append, total_append]
    omega
  rw [hold] at hended
  refine ⟨entries_append.mpr ⟨entries_append.mpr ⟨?_, hnew⟩, ?_⟩, ?_, ?_⟩
  · exact hparts.1.shift fun i hi => hpre (pos + i) (by omega)
  · rw [total_append, ← Nat.add_assoc]
    rw [total_append, ← Nat.add_assoc] at hall
    exact hall.2.shift fun i hi => hpost i (by omega)
  · rw [hnow]
    refine (le_shift fun i hi => ?_).trans hended
    rw [Nat.add_assoc _ (total post + 4), Nat.add_assoc _ (total post + 4)]
    exact hpost (total post + 4 + i) (by omega)
  · rw [total_append, total_append]
    omega

/-! ## Looking at an entry -/

theorem isNameAttr_eq (h : EntryAt b pos a) (hfits : pos + a.size ≤ blockSize) :
    isNameAttr b pos a.name.length = .ok (decide (a.name = [fileNameName])) := by
  have hsize : a.size = 8 + a.name.length + 3 + a.data.length + 1 := rfl
  unfold isNameAttr
  by_cases hone : a.name.length = 1
  · have hname := h.name
    rw [hone] at hname
    rw [if_pos hone, byteAt_eq b (by omega), ← hname]
    show Except.ok (b (pos + 8) == fileNameName) = .ok (decide ([b (pos + 8)] = [fileNameName]))
    simp only [cons.injEq, and_true]
    rfl
  · rw [if_neg hone]
    have hne : a.name ≠ [fileNameName] := fun heq => hone (by rw [heq]; rfl)
    rw [decide_eq_false hne]
    rfl

theorem matchesAt_eq (attr : List UInt8) (hfits : pos + attr.length ≤ blockSize) :
    matchesAt b pos attr = .ok (decide (slice b pos attr.length = attr)) := by
  induction attr generalizing pos with
  | nil => rfl
  | cons c cs ih =>
    rw [length_cons] at hfits
    unfold matchesAt
    rw [byteAt_eq b (by omega), length_cons, slice]
    show (if b pos = c then matchesAt b (pos + 1) cs else .ok false) = _
    by_cases hc : b pos = c
    · rw [if_pos hc, ih (by omega)]
      simp only [cons.injEq, hc, true_and]
    · have hne : ¬ b pos :: slice b (pos + 1) cs.length = c :: cs := fun heq => hc (cons.inj heq).1
      rw [if_neg hc, decide_eq_false hne]

theorem EntryAt.matches (h : EntryAt b pos a) (hfits : pos + a.size ≤ blockSize)
    {attr : List UInt8} (hlen : a.name.length = attr.length) :
    matchesAt b (pos + 8) attr = .ok (decide (a.name = attr)) := by
  have hsize : a.size = 8 + a.name.length + 3 + a.data.length + 1 := rfl
  have hname := h.name
  rw [matchesAt_eq attr (by omega), ← hlen, hname]

theorem isHit_eq (attr : List UInt8) (wanted : Bool) (h : EntryAt b pos a) (hfits : pos + a.size ≤ blockSize) :
    isHit b attr wanted pos a.name.length =
      .ok (decide (wanted = true ∧ a.name ≠ [fileNameName] ∧ a.name = attr)) := by
  unfold isHit
  rw [isNameAttr_eq h hfits]
  show (if (!decide (a.name = [fileNameName])) = true ∧ wanted = true ∧ a.name.length = attr.length then
    matchesAt b (pos + 8) attr else .ok false) = _
  by_cases hlooked : a.name ≠ [fileNameName] ∧ wanted = true ∧ a.name.length = attr.length
  · obtain ⟨hshown, hwanted, hlen⟩ := hlooked
    rw [if_pos ⟨by simp [hshown], hwanted, hlen⟩, h.matches hfits hlen]
    simp only [hwanted, true_and, ne_eq, hshown, not_false_eq_true]
  · rw [if_neg (by simpa using hlooked), decide_eq_false]
    rintro ⟨hwanted, hshown, hname⟩
    exact hlooked ⟨hshown, hwanted, by rw [hname]⟩

/-! ## The walks -/

/-- What the walks show: all but the name pseudo-attribute. -/
def visible (as : List Attr) : List Attr := as.filter fun a => a.name ≠ [fileNameName]

theorem listFrom_eq (index nameLen seen : Nat) (h : Holds b pos as) (hseen : seen ≤ index) :
    listFrom b index nameLen pos seen =
      .ok ((visible as)[index - seen]?.map fun a => ⟨a.name.take nameLen, a.type, a.data.length⟩) := by
  induction as generalizing pos seen with
  | nil =>
    have hfits := h.fits
    have hended : le b (pos + 4) 2 = 0 := h.ended
    unfold listFrom
    rw [dif_pos (by omega), leAt_eq b (by omega), leAt_eq b (by omega), hended]
    rfl
  | cons a as ih =>
    have hfits := h.fits
    rw [total] at hfits
    have hentry := h.entries.1
    have hnamed := hentry.named
    have hsize : a.size = 8 + a.name.length + 3 + a.data.length + 1 := rfl
    unfold listFrom
    rw [dif_pos (by omega), leAt_eq b (by omega), leAt_eq b (by omega), hentry.nlen, hentry.dlen]
    show (if a.name.length = 0 then _ else if pos + a.size > blockSize then _ else _) = _
    rw [if_neg (by omega), if_neg (by omega), isNameAttr_eq hentry (by omega)]
    show (if decide (a.name = [fileNameName]) = true then listFrom b index nameLen (pos + a.size) seen else _) = _
    by_cases hhidden : a.name = [fileNameName]
    · -- the name pseudo-attribute is passed over
      have hvisible : visible (a :: as) = visible as := filter_cons_of_neg (by simp [hhidden])
      rw [if_pos (decide_eq_true hhidden), hvisible]
      exact ih seen h.tail hseen
    · have hvisible : visible (a :: as) = a :: visible as := filter_cons_of_pos (by simp [hhidden])
      rw [if_neg (by simp [hhidden]), hvisible]
      by_cases hat : seen = index
      · rw [if_pos hat, leAt_eq b (by omega), bytesAt_eq b (by omega), hat, Nat.sub_self, ← slice_take,
          hentry.name, hentry.type]
        rfl
      · have hstep : index - seen = index - (seen + 1) + 1 := by omega
        rw [if_neg hat, hstep, getElem?_cons_succ]
        exact ih (seen + 1) h.tail (by omega)

theorem readFrom_eq (attr : List UInt8) (bufLen : Nat) (h : Holds b pos as) :
    readFrom b attr bufLen pos = .ok (((visible as).find? fun a => a.name = attr).map fun a =>
      ⟨a.type, a.data.length, a.data.take bufLen⟩) := by
  induction as generalizing pos with
  | nil =>
    have hfits := h.fits
    have hended : le b (pos + 4) 2 = 0 := h.ended
    unfold readFrom
    rw [dif_pos (by omega), leAt_eq b (by omega), leAt_eq b (by omega), hended]
    rfl
  | cons a as ih =>
    have hfits := h.fits
    rw [total] at hfits
    have hentry := h.entries.1
    have hnamed := hentry.named
    have hsize : a.size = 8 + a.name.length + 3 + a.data.length + 1 := rfl
    unfold readFrom
    rw [dif_pos (by omega), leAt_eq b (by omega), leAt_eq b (by omega), hentry.nlen, hentry.dlen]
    show (if a.name.length = 0 then _ else if pos + a.size > blockSize then _ else _) = _
    rw [if_neg (by omega), if_neg (by omega), isHit_eq attr true hentry (by omega)]
    show (if decide (true = true ∧ a.name ≠ [fileNameName] ∧ a.name = attr) = true then _ else
      readFrom b attr bufLen (pos + a.size)) = _
    by_cases hhit : a.name ≠ [fileNameName] ∧ a.name = attr
    · have hvisible : visible (a :: as) = a :: visible as := filter_cons_of_pos (by simp [hhit.1])
      rw [if_pos (decide_eq_true ⟨rfl, hhit⟩), leAt_eq b (by omega), bytesAt_eq b (by omega), hvisible,
        find?_cons_of_pos (by simp [hhit.2]), ← slice_take, hentry.data, hentry.type]
      rfl
    · have hmiss : ¬ decide (true = true ∧ a.name ≠ [fileNameName] ∧ a.name = attr) = true :=
        fun hd => hhit (of_decide_eq_true hd).2
      rw [if_neg hmiss, ih h.tail]
      by_cases hhidden : a.name = [fileNameName]
      · have hvisible : visible (a :: as) = visible as := filter_cons_of_neg (by simp [hhidden])
        rw [hvisible]
      · have hvisible : visible (a :: as) = a :: visible as := filter_cons_of_pos (by simp [hhidden])
        have hother : a.name ≠ attr := fun heq => hhit ⟨hhidden, heq⟩
        rw [hvisible, find?_cons_of_neg (by simp [hother])]

/-- Where the search of `Attr_Write` hits. -/
def hitIn (attr : List UInt8) : Nat → List Attr → Option (Nat × Nat)
  | _, [] => none
  | pos, a :: as => if a.name ≠ [fileNameName] ∧ a.name = attr then some (pos, a.size) else hitIn attr (pos + a.size) as

theorem searchFrom_eq (attr : List UInt8) (last : Nat) (hit : Option (Nat × Nat)) (h : Holds b pos as) :
    searchFrom b attr pos last hit = .ok ⟨pos + total as, 0, hit.or (hitIn attr pos as)⟩ := by
  induction as generalizing pos last hit with
  | nil =>
    have hfits := h.fits
    have hended : le b (pos + 4) 2 = 0 := h.ended
    unfold searchFrom
    rw [dif_pos (by omega), leAt_eq b (by omega), leAt_eq b (by omega), hended, hitIn, Option.or_none]
    rfl
  | cons a as ih =>
    have hfits := h.fits
    have hentry := h.entries.1
    have hnamed := hentry.named
    have hend : pos + a.size + total as = pos + total (a :: as) := by rw [total, Nat.add_assoc]
    unfold searchFrom
    rw [dif_pos (by omega), leAt_eq b (by omega), leAt_eq b (by omega), hentry.nlen, hentry.dlen]
    show (if a.name.length = 0 then _ else if pos + a.size > blockSize then _ else _) = _
    rw [if_neg (by omega), if_neg (by omega), isHit_eq attr _ hentry (by omega)]
    refine (ih _ _ h.tail).trans ?_
    rw [hend, hitIn]
    cases hit with
    | some p =>
      rfl
    | none =>
      by_cases hhit : a.name ≠ [fileNameName] ∧ a.name = attr
      · rw [if_pos (decide_eq_true ⟨rfl, hhit⟩), if_pos hhit]
        rfl
      · have hmiss : ¬ decide ((none : Option (Nat × Nat)).isNone = true ∧ a.name ≠ [fileNameName] ∧ a.name = attr)
            = true := fun hd => hhit (of_decide_eq_true hd).2
        rw [if_neg hmiss, if_neg hhit]

theorem endFrom_eq (h : Holds b pos as) : endFrom b pos = .ok (pos + total as) := by
  induction as generalizing pos with
  | nil =>
    have hfits := h.fits
    have hended : le b (pos + 4) 2 = 0 := h.ended
    unfold endFrom
    rw [dif_pos (by omega), leAt_eq b (by omega), leAt_eq b (by omega), hended]
    rfl
  | cons a as ih =>
    have hfits := h.fits
    have hentry := h.entries.1
    have hnamed := hentry.named
    unfold endFrom
    rw [dif_pos (by omega), leAt_eq b (by omega), leAt_eq b (by omega), hentry.nlen, hentry.dlen]
    show (if a.name.length = 0 then _ else endFrom b (pos + a.size)) = _
    rw [if_neg (by omega), ih h.tail, total, Nat.add_assoc]

/-! ## The edits -/

variable {i : Nat}

theorem shiftTail_eq (b : Block) {len : Nat} (hsrc : src + len ≤ blockSize) (hdst : dst + len ≤ blockSize) :
    shiftTail b src dst len = .ok (moved b src dst len) := by
  unfold shiftTail
  by_cases hup : dst > src
  · rw [if_pos hup]
    exact moveUp_eq b len (by omega) hdst
  · rw [if_neg hup]
    by_cases hdown : dst < src
    · rw [if_pos hdown]
      exact moveDown_eq b 0 len (by omega) (by omega)
    · have hsame : dst = src := by omega
      rw [if_neg hdown, hsame]
      refine congrArg Except.ok (funext fun i => ?_)
      by_cases hin : src ≤ i ∧ i < src + len
      · obtain ⟨k, rfl⟩ := Nat.exists_eq_add_of_le hin.1
        exact (moved_inside b src src len (by omega)).symm
      · exact (moved_outside b src src len (by omega)).symm

/-- An attribute that the headers can describe. -/
structure Attr.Ok (a : Attr) : Prop where
  type : a.type < 2 ^ 32
  named : 0 < a.name.length
  name : a.name.length < 2 ^ 16
  data : a.data.length < 2 ^ 16

/-- The block with the header of an entry put at `pos`. -/
def headPut (b : Block) (pos : Nat) (a : Attr) : Block :=
  putLe (putLe (putLe b pos 4 a.type) (pos + 4) 2 a.name.length) (pos + 6) 2 a.data.length

/-- And with its name and pads. -/
def namePut (b : Block) (pos : Nat) (a : Attr) : Block :=
  putBytes (putBytes (headPut b pos a) (pos + 8) a.name) (pos + 8 + a.name.length) [0, 0, 0]

/-- The block with an entry put at `pos`. -/
def entryPut (b : Block) (pos : Nat) (a : Attr) : Block :=
  update (putBytes (namePut b pos a) (pos + 8 + a.name.length + 3) a.data) (pos + a.size - 1) 0

theorem putEntry_eq (b : Block) (a : Attr) (h : pos + a.size ≤ blockSize) :
    putEntry b pos a.name a.type a.data = .ok (entryPut b pos a) := by
  have hsize : a.size = 8 + a.name.length + 3 + a.data.length + 1 := rfl
  have hpads : pos + 8 + a.name.length + [(0 : UInt8), 0, 0].length ≤ blockSize := by
    show pos + 8 + a.name.length + 3 ≤ blockSize
    omega
  unfold putEntry
  rw [setLe_eq _ _ (by omega)]
  show (setLe _ (pos + 4) 2 _ >>= _) = _
  rw [setLe_eq _ _ (by omega)]
  show (setLe _ (pos + 6) 2 _ >>= _) = _
  rw [setLe_eq _ _ (by omega)]
  show (setBytes _ (pos + 8) _ >>= _) = _
  rw [setBytes_eq _ _ (by omega)]
  show (setBytes _ (pos + 8 + a.name.length) _ >>= _) = _
  rw [setBytes_eq _ _ hpads]
  show (setBytes _ (pos + 8 + a.name.length + 3) _ >>= _) = _
  rw [setBytes_eq _ _ (by omega)]
  exact setByte_eq _ _ (show pos + a.size - 1 < blockSize by omega)

theorem entryPut_lt (b : Block) (pos : Nat) (a : Attr) (hi : i < pos + 8 + a.name.length + 3) :
    entryPut b pos a i = namePut b pos a i := by
  have hsize : a.size = 8 + a.name.length + 3 + a.data.length + 1 := rfl
  unfold entryPut
  rw [update_of_ne (by omega), putBytes_outside _ _ _ _ (by omega)]

theorem entryPut_header (b : Block) (pos : Nat) (a : Attr) (hi : i < pos + 8) :
    entryPut b pos a i = headPut b pos a i := by
  rw [entryPut_lt b pos a (by omega), namePut, putBytes_outside _ _ _ _ (by omega), putBytes_outside _ _ _ _ (by omega)]

theorem entryPut_outside (b : Block) (pos : Nat) (a : Attr) (hi : i < pos ∨ pos + a.size ≤ i) :
    entryPut b pos a i = b i := by
  have hsize : a.size = 8 + a.name.length + 3 + a.data.length + 1 := rfl
  have hpads : [(0 : UInt8), 0, 0].length = 3 := rfl
  unfold entryPut namePut headPut
  rw [update_of_ne (by omega), putBytes_outside _ _ _ _ (by omega), putBytes_outside _ _ _ _ (by omega),
    putBytes_outside _ _ _ _ (by omega), putLe_outside _ _ _ _ _ (by omega), putLe_outside _ _ _ _ _ (by omega),
    putLe_outside _ _ _ _ _ (by omega)]

theorem entryPut_entry (b : Block) (pos : Nat) (ha : a.Ok) : EntryAt (entryPut b pos a) pos a := by
  have hsize : a.size = 8 + a.name.length + 3 + a.data.length + 1 := rfl
  have htype := ha.type
  have hname := ha.name
  have hdata := ha.data
  refine ⟨?_, ?_, ?_, ?_, ?_, ha.named⟩
  · rw [le_congr _ _ pos 4 fun i h1 h2 => entryPut_header b pos a (by omega), headPut,
      le_putLe_disjoint _ _ _ _ _ _ (by omega), le_putLe_disjoint _ _ _ _ _ _ (by omega), le_putLe]
    exact Nat.mod_eq_of_lt htype
  · rw [le_congr _ _ (pos + 4) 2 fun i h1 h2 => entryPut_header b pos a (by omega), headPut,
      le_putLe_disjoint _ _ _ _ _ _ (by omega), le_putLe]
    exact Nat.mod_eq_of_lt hname
  · rw [le_congr _ _ (pos + 6) 2 fun i h1 h2 => entryPut_header b pos a (by omega), headPut, le_putLe]
    exact Nat.mod_eq_of_lt hdata
  · refine (slice_congr _ _ (pos + 8) a.name.length fun i h1 h2 => ?_).trans
      (slice_putBytes (headPut b pos a) (pos + 8) a.name)
    rw [entryPut_lt b pos a (by omega), namePut, putBytes_outside _ _ _ _ (by omega)]
  · refine (slice_congr _ _ _ a.data.length fun i h1 h2 => ?_).trans
      (slice_putBytes (namePut b pos a) (pos + 8 + a.name.length + 3) a.data)
    exact update_of_ne (by omega) _ _

/-- **Putting an entry** in the place of a stretch of the list. -/
theorem Holds.put (h : Holds b pos (pre ++ old ++ post))
    (ha : a.Ok) (hfits : pos + total pre + a.size + (total post + 8) ≤ blockSize) :
    ∃ b', (shiftTail b (pos + total pre + total old) (pos + total pre + a.size) (total post + 8) >>= fun b1 =>
        putEntry b1 (pos + total pre) a.name a.type a.data) = .ok b' ∧ Holds b' pos (pre ++ [a] ++ post) := by
  have hall := h.fits
  rw [total_append, total_append] at hall
  have hnew : total [a] = a.size := by rw [total, total, Nat.add_zero]
  refine ⟨_, ?_, h.splice [a] ?_ ⟨entryPut_entry (moved b (pos + total pre + total old)
    (pos + total pre + a.size) (total post + 8)) (pos + total pre) ha, trivial⟩ ?_ ?_⟩
  · rw [shiftTail_eq b (by omega) (by omega)]
    exact putEntry_eq _ a (by omega)
  · intro i hi
    rw [entryPut_outside _ _ _ (.inl hi), moved_outside _ _ _ _ (by omega)]
  · intro i hi
    rw [hnew, entryPut_outside _ _ _ (by omega), moved_inside _ _ _ _ hi]
  · rw [hnew]
    omega

/-- **Removing** a stretch of the list. -/
theorem Holds.remove (h : Holds b pos (pre ++ old ++ post)) :
    ∃ b', moveDown b (pos + total pre + total old) (pos + total pre) 0 (total post + 8) = .ok b' ∧
      Holds b' pos (pre ++ [] ++ post) := by
  have hall := h.fits
  rw [total_append, total_append] at hall
  refine ⟨_, moveDown_eq b 0 _ (Nat.le_add_right _ _) (by omega), h.splice [] ?_ trivial ?_ ?_⟩
  · intro i hi
    exact moved_outside _ _ _ _ (by omega)
  · intro i hi
    exact moved_inside b (pos + total pre + total old + 0) (pos + total pre + 0) _ hi
  · rw [total]
    omega

end Aegir.Bfs.SmallData
