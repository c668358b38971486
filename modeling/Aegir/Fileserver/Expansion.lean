/-
  Expanding a name is bounded substitution.

  `expansion` says it on plain strings: the text in front of the first colon is a volume, or an assign whose
  target takes its place, at most so many times.  The program does the same on arrays in its loop.  Its fourth
  substitution is of no use, as no look-up follows it: THREE substitutions count.
-/
import Aegir.Fileserver.Survival

namespace Aegir.Fileserver

open Aegir.Lib List

variable {s front rest chars target name : List UInt8} {f : Nat → UInt8} {len number mark i j free : Nat}
  {t : Text} {a b : Assign} {v : Volume} {volumes : List Volume} {assigns : List Assign} {room : Bool}

/-! ## The meaning, on strings -/

/-- Equal, ignoring case. -/
def sameName (s t : List UInt8) : Bool := s.map toLower = t.map toLower

/-- What stands in front of the first colon, and what stands behind it. -/
def cutColon : List UInt8 → Option (List UInt8 × List UInt8)
  | [] => none
  | c :: cs => if c = colon then some ([], cs) else (cutColon cs).map fun p => (c :: p.1, p.2)

def Volume.deviceText (v : Volume) : List UInt8 := stretch v.device 1 v.devLen
def Volume.labelText (v : Volume) : List UInt8 := stretch v.label 1 v.labLen
def Assign.nameText (a : Assign) : List UInt8 := stretch a.name 1 a.nameLen
def Assign.targetText (a : Assign) : List UInt8 := stretch a.target 1 a.tgtLen
def Text.content (t : Text) : List UInt8 := stretch t.chars 1 t.len

/-- A volume in use that `front` names, by its device or by its label. -/
def Volume.named (front : List UInt8) (v : Volume) : Bool :=
  v.valid && (sameName front v.deviceText || sameName front v.labelText)

/-- An assign in use that `front` names. -/
def Assign.named (front : List UInt8) (a : Assign) : Bool := a.valid && sameName a.nameText front

/-- The target and the rest, with a separator where there is a rest and the target has none. -/
def joined (target rest : List UInt8) : List UInt8 :=
  if rest ≠ [] ∧ target.getLast? ≠ some colon ∧ target.getLast? ≠ some slash then target ++ slash :: rest
  else target ++ rest

/-- What a name stands for, with at most `rounds` substitutions: the number of the volume, the string and
    the position behind its first colon. -/
def expansion (volumes : List Volume) (assigns : List Assign) : Nat → List UInt8 → Option (Nat × List UInt8 × Nat)
  | rounds, s =>
    if s.length > maxExpanded then none
    else
      match cutColon s with
      | none => none
      | some (front, rest) =>
        match volumes.findIdx? (Volume.named front) with
        | some v => some (v + 1, s, front.length + 2)
        | none =>
          match rounds with
          | 0 => none
          | rounds + 1 =>
            match assigns.find? (Assign.named front) with
            | none => none
            | some a => expansion volumes assigns rounds (joined a.targetText rest)

/-- What the program answers, with volume 0 for no volume. -/
def Resolved.outcome (x : Resolved) : Option (Nat × List UInt8 × Nat) :=
  if x.volume = 0 then none else some (x.volume, x.name.content, x.pos)

/-! ## Tables of assigns -/

/-- The tables that setting and removing assigns leads to. -/
inductive Built : List Assign → Prop
  | empty : Built []
  | set {assigns as : List Assign} (room : Bool) (name target : List UInt8) (hbuilt : Built assigns)
      (hset : Vfs.setAssign assigns room name target = .ok (some as)) : Built as
  | removed {assigns : List Assign} (name : List UInt8) (i : Nat) (hbuilt : Built assigns)
      (hfind : findAssign assigns name = .ok i) (hi : i ≠ 0) :
      Built (assigns.modify (i - 1) fun a => { a with valid := false })

/-- Entries in use have different names, ignoring case. -/
def Distinct (assigns : List Assign) : Prop :=
  ∀ (i j : Nat) (a b : Assign), assigns[i]? = some a → assigns[j]? = some b → a.valid → b.valid →
    sameName a.nameText b.nameText → i = j

theorem sameName_iff {s t : List UInt8} : sameName s t = true ↔ s.map toLower = t.map toLower :=
  decide_eq_true_iff

theorem sameName_symm {s t : List UInt8} (h : sameName s t) : sameName t s :=
  sameName_iff.mpr (sameName_iff.mp h).symm

theorem sameName_trans {s t u : List UInt8} (h : sameName s t) (h' : sameName t u) : sameName s u :=
  sameName_iff.mpr ((sameName_iff.mp h).trans (sameName_iff.mp h'))

/-! ## Matching -/

theorem ok_bind {α β : Type} {x : α} {g : α → Act β} : ((.ok x : Act α) >>= g) = g x := rfl

theorem sliceOf_eq {cap hi : Nat} (hhi : hi ≤ cap) : sliceOf cap f 1 hi = .ok (stretch f 1 hi) := by
  unfold sliceOf
  rw [slice_eq (Nat.le_refl 1) hhi, Nat.add_sub_cancel]

theorem matchText_eq {cap : Nat} (h : len ≤ cap) :
    matchText cap f len chars true = .ok (sameName (stretch f 1 len) chars) := by
  unfold matchText
  by_cases hlen : len ≠ chars.length
  · have hne : sameName (stretch f 1 len) chars = false := by
      apply Bool.eq_false_iff.mpr
      intro hsame
      have hlens := congrArg length (sameName_iff.mp hsame)
      rw [length_map, length_map, stretch_length] at hlens
      exact hlen hlens
    rw [if_pos hlen, hne]
  · rw [if_neg hlen, sliceOf_eq h]
    rfl

theorem stretch_succ {n k : Nat} : stretch f k (n + 1) = f k :: stretch f (k + 1) n := by
  rw [Nat.add_comm n 1, stretch_append, stretch_one, singleton_append]

/-! ## The first colon -/

theorem find_colon {k n : Nat} : ((range' k n).find? fun i => decide (f i = colon)) =
      (cutColon (stretch f k n)).map fun p => k + p.1.length := by
  induction n generalizing k with
  | zero => rfl
  | succ n ih =>
    rw [range'_succ, stretch_succ, cutColon, find?_cons]
    split_ifs with hc
    · rw [decide_eq_true hc]
      rfl
    · rw [decide_eq_false hc, Option.map_map]
      refine ih.trans ?_
      congr 1
      funext p
      show k + 1 + p.1.length = k + (p.1.length + 1)
      omega

theorem cutColon_eq (h : cutColon s = some (front, rest)) : s = front ++ colon :: rest := by
  induction s generalizing front with
  | nil => cases h
  | cons c cs ih =>
    rw [cutColon] at h
    split_ifs at h with hc
    · cases h
      rw [hc, nil_append]
    · obtain ⟨p, hp, heq⟩ := Option.map_eq_some_iff.mp h
      cases heq
      rw [ih hp, cons_append]

theorem colonOf_none (h : cutColon t.content = none) : colonOf t = 0 := by
  have hfind := find_colon (f := t.chars) (k := 1) (n := t.len)
  unfold Text.content at h
  rw [h] at hfind
  unfold colonOf
  rw [hfind]
  rfl

theorem colonOf_some (h : cutColon t.content = some (front, rest)) :
    colonOf t = front.length + 1 ∧ stretch t.chars 1 front.length = front ∧
      stretch t.chars (front.length + 2) (t.len - (front.length + 1)) = rest ∧ front.length + 1 ≤ t.len := by
  have hfind := find_colon (f := t.chars) (k := 1) (n := t.len)
  have htext := cutColon_eq h
  have hlen := congrArg length htext
  unfold Text.content at h htext hlen
  rw [stretch_length, length_append, length_cons] at hlen
  rw [h] at hfind
  refine ⟨?_, ?_, ?_, by omega⟩
  · unfold colonOf
    rw [hfind]
    show 1 + front.length = _
    omega
  · have htake := congrArg (take front.length) htext
    rwa [stretch_take (by omega), take_left' rfl] at htake
  · have hdrop := congrArg (drop (front.length + 1)) htext
    rw [stretch_drop, append_cons, drop_left' (by simp)] at hdrop
    rwa [show front.length + 2 = 1 + (front.length + 1) from by omega]

/-! ## Looking up -/

/-- The number of a position, 0 for none. -/
def numberOf (first : Nat) (found : Option Nat) : Nat :=
  match found with
  | some i => first + i
  | none => 0

theorem numberOf_some : numberOf number (some i) = number + i := rfl

theorem numberOf_succ (found : Option Nat) : numberOf (number + 1) found = numberOf number (found.map (· + 1)) := by
  cases found with
  | none => rfl
  | some i =>
    show number + 1 + i = number + (i + 1)
    omega

theorem volumeFrom_eq (hv : ∀ v ∈ volumes, VolumeFits v) (hlen : len ≤ maxExpanded) :
    volumeFrom f len number volumes =
      .ok (numberOf number (volumes.findIdx? (Volume.named (stretch f 1 len)))) := by
  induction volumes generalizing number with
  | nil => rfl
  | cons v vs ih =>
    have hfits := hv v mem_cons_self
    have hrest : volumeFrom f len (number + 1) vs =
        .ok (numberOf (number + 1) (vs.findIdx? (Volume.named (stretch f 1 len)))) :=
      ih fun x hx => hv x (mem_cons_of_mem _ hx)
    rw [volumeFrom, findIdx?_cons, sliceOf_eq hfits.device, sliceOf_eq hfits.label, hrest]
    simp only [ok_bind, matchText_eq hlen]
    by_cases hvalid : v.valid = true
    · rw [if_pos hvalid]
      have hnamed : Volume.named (stretch f 1 len) v =
          (sameName (stretch f 1 len) v.deviceText || sameName (stretch f 1 len) v.labelText) := by
        rw [Volume.named, hvalid, Bool.true_and]
      rw [hnamed]
      unfold Volume.deviceText Volume.labelText
      cases sameName (stretch f 1 len) (stretch v.device 1 v.devLen) with
      | true => rfl
      | false =>
        cases sameName (stretch f 1 len) (stretch v.label 1 v.labLen) with
        | true => rfl
        | false => exact congrArg Except.ok (numberOf_succ _)
    · have hnamed : Volume.named (stretch f 1 len) v = false := by
        rw [Volume.named, Bool.eq_false_iff.mpr hvalid, Bool.false_and]
      rw [if_neg hvalid, hnamed]
      exact congrArg Except.ok (numberOf_succ _)

theorem assignFrom_eq (ha : ∀ a ∈ assigns, AssignFits a) :
    assignFrom front number assigns = .ok (numberOf number (assigns.findIdx? (Assign.named front))) := by
  induction assigns generalizing number with
  | nil => rfl
  | cons a as ih =>
    have hrest : assignFrom front (number + 1) as =
        .ok (numberOf (number + 1) (as.findIdx? (Assign.named front))) :=
      ih fun x hx => ha x (mem_cons_of_mem _ hx)
    rw [assignFrom, findIdx?_cons, matchText_eq (ha a mem_cons_self).name, hrest]
    by_cases hvalid : a.valid = true
    · have hnamed : Assign.named front a = sameName (stretch a.name 1 a.nameLen) front := by
        rw [Assign.named, hvalid, Bool.true_and, Assign.nameText]
      rw [if_pos hvalid, hnamed]
      cases sameName (stretch a.name 1 a.nameLen) front with
      | true => rfl
      | false => exact congrArg Except.ok (numberOf_succ _)
    · have hnamed : Assign.named front a = false := by
        rw [Assign.named, Bool.eq_false_iff.mpr hvalid, Bool.false_and]
      rw [if_neg hvalid, hnamed]
      exact congrArg Except.ok (numberOf_succ _)

theorem find_of_findIdx {α : Type} {p : α → Bool} {l : List α} (h : l.findIdx? p = some i) :
    ∃ x, l[i]? = some x ∧ l.find? p = some x := by
  have hi := findIdx?_eq_some_iff_getElem.mp h
  obtain ⟨hlt, hp, hbefore⟩ := hi
  refine ⟨l[i], getElem?_eq_getElem hlt, ?_⟩
  rw [find?_eq_some_iff_getElem]
  exact ⟨hp, i, hlt, rfl, fun j hj => by simpa using hbefore j hj⟩

/-! ## Substituting -/

theorem last_targetText (h : 1 ≤ a.tgtLen) : a.targetText.getLast? = some (a.target a.tgtLen) := by
  unfold Assign.targetText
  rw [getLast?_eq_getElem?, stretch_length, stretch_getElem?, if_pos (by omega)]
  congr 2
  omega

theorem demand_eq {p : Prop} [Decidable p] {stop : Stop} (hp : p) : demand p stop = .ok () := by
  unfold demand
  rw [if_pos hp]

theorem written_eq (hrest : sliceOf maxExpanded t.chars (mark + 1) t.len = .ok rest)
    (hlen : (front ++ rest).length ≤ maxExpanded) :
    (do
      demand (front.length ≤ maxExpanded) .check
      let rest ← sliceOf maxExpanded t.chars (mark + 1) t.len
      demand (front.length + rest.length ≤ maxExpanded) .check
      .ok (some (Text.ofList (front ++ rest))) : Act (Option Text)) = .ok (some (Text.ofList (front ++ rest))) := by
  rw [length_append] at hlen
  rw [demand_eq (by omega), hrest]
  simp only [ok_bind]
  rw [demand_eq hlen]
  rfl

/-- **One substitution** writes the target, the separator where it is needed, and the rest; it is refused
    exactly when that does not fit. -/
theorem substitute_eq (ha : AssignFits a) (ht : t.len ≤ maxExpanded) (hcut : cutColon t.content = some (front, rest)) :
    substitute a t (colonOf t) = .ok (if (joined a.targetText rest).length > maxExpanded then none
        else some (Text.ofList (joined a.targetText rest))) := by
  obtain ⟨hmark, -, hback, hle⟩ := colonOf_some hcut
  have hlast := last_targetText ha.target.1
  have htgt := ha.target.2
  have htarget : a.targetText.length = a.tgtLen := stretch_length
  have hrest : rest.length = t.len - (front.length + 1) := by rw [← hback, stretch_length]
  have hslice : sliceOf maxExpanded t.chars (front.length + 1 + 1) t.len = .ok rest := by
    unfold sliceOf
    rw [slice_eq (by omega) ht, show t.len + 1 - (front.length + 1 + 1) = t.len - (front.length + 1) from by omega,
      hback]
  have hnonempty : front.length + 1 + 1 ≤ t.len ↔ rest ≠ [] := by
    rw [← length_pos_iff, hrest]
    omega
  have hcond : (front.length + 1 + 1 ≤ t.len ∧ a.target a.tgtLen ≠ colon ∧ a.target a.tgtLen ≠ slash) ↔
      (rest ≠ [] ∧ a.targetText.getLast? ≠ some colon ∧ a.targetText.getLast? ≠ some slash) := by
    rw [hnonempty, hlast]
    simp
  unfold substitute
  rw [demand_eq ha.target, sliceOf_eq htgt, hmark]
  simp only [ok_bind]
  by_cases hsep : front.length + 1 + 1 ≤ t.len ∧ a.target a.tgtLen ≠ colon ∧ a.target a.tgtLen ≠ slash
  · -- A separator goes between.
    have hjoined : joined a.targetText rest = (a.targetText ++ [slash]) ++ rest := by
      rw [joined, if_pos (hcond.mp hsep), append_assoc, singleton_append]
    have hlength : (joined a.targetText rest).length = a.tgtLen + 1 + (t.len - (front.length + 1)) := by
      rw [hjoined, length_append, length_append, htarget, hrest, length_singleton]
    simp only [if_pos hsep]
    rw [← hlength]
    by_cases hadd : (joined a.targetText rest).length > maxExpanded
    · rw [if_pos hadd, if_pos hadd]
    · have hfits : (joined a.targetText rest).length ≤ maxExpanded := Nat.not_lt.mp hadd
      have hfirst : (stretch a.target 1 a.tgtLen).length ≤ maxExpanded := by
        rw [stretch_length]
        omega
      rw [if_neg hadd, if_neg hadd, demand_eq hfirst]
      rw [hjoined] at hfits ⊢
      exact written_eq hslice hfits
  · have hjoined : joined a.targetText rest = a.targetText ++ rest := by
      rw [joined, if_neg fun h => hsep (hcond.mpr h)]
    have hlength : (joined a.targetText rest).length = a.tgtLen + 0 + (t.len - (front.length + 1)) := by
      rw [hjoined, length_append, htarget, hrest]
      omega
    simp only [if_neg hsep]
    rw [← hlength]
    by_cases hadd : (joined a.targetText rest).length > maxExpanded
    · rw [if_pos hadd, if_pos hadd]
    · have hfits : (joined a.targetText rest).length ≤ maxExpanded := Nat.not_lt.mp hadd
      rw [if_neg hadd, if_neg hadd]
      rw [hjoined] at hfits ⊢
      have hfirst : (stretch a.target 1 a.tgtLen).length ≤ maxExpanded := by
        rw [stretch_length]
        omega
      have hwritten := written_eq hslice hfits
      unfold Assign.targetText at hwritten ⊢
      rw [demand_eq hfirst] at hwritten ⊢
      exact hwritten

/-! ## Expanding -/

theorem ofList_content : (Text.ofList s).content = s := stretch_overlay

theorem resolveVolume_eq (hv : ∀ v ∈ volumes, VolumeFits v) (ht : t.len ≤ maxExpanded)
    (hcut : cutColon t.content = some (front, rest)) :
    resolveVolume volumes t = .ok (match volumes.findIdx? (Volume.named front) with
        | some v => (v + 1, front.length + 2)
        | none => (0, 1)) := by
  obtain ⟨hmark, hfront, -, hle⟩ := colonOf_some hcut
  unfold resolveVolume
  rw [demand_eq ht, hmark]
  rw [if_neg (by omega), Nat.add_sub_cancel, volumeFrom_eq hv (by omega), hfront]
  cases volumes.findIdx? (Volume.named front) with
  | none => rfl
  | some i =>
    simp only [ok_bind, numberOf]
    rw [if_neg (by omega), Nat.add_comm 1 i]

theorem resolveVolume_plain (ht : t.len ≤ maxExpanded) (hcut : cutColon t.content = none) :
    resolveVolume volumes t = .ok (0, 1) := by
  unfold resolveVolume
  rw [demand_eq ht, colonOf_none hcut]
  rfl

theorem expansion_long {rounds : Nat} (h : s.length > maxExpanded) : expansion volumes assigns rounds s = none := by
  rw [expansion.eq_def]
  exact if_pos h

theorem expansion_short {rounds : Nat} (h : ¬ s.length > maxExpanded) : expansion volumes assigns rounds s =
      match cutColon s with
      | none => none
      | some (front, rest) =>
        match volumes.findIdx? (Volume.named front) with
        | some v => some (v + 1, s, front.length + 2)
        | none =>
          match rounds with
          | 0 => none
          | rounds + 1 =>
            match assigns.find? (Assign.named front) with
            | none => none
            | some a => expansion volumes assigns rounds (joined a.targetText rest) := by
  rw [expansion.eq_def]
  exact if_neg h

/-- What the rounds that are left give. -/
def answerOf (rounds : Nat) (volumes : List Volume) (assigns : List Assign) (s : List UInt8) :
    Option (Nat × List UInt8 × Nat) :=
  match rounds with
  | 0 => none
  | rounds + 1 => expansion volumes assigns rounds s

/-- **The loop of `Resolve_Full`**: `depth` rounds are one substitution less. -/
theorem resolveFrom_outcome (hv : ∀ v ∈ volumes, VolumeFits v) (ha : ∀ a ∈ assigns, AssignFits a) (depth : Nat)
    (ht : t.len ≤ maxExpanded) :
    Yields (resolveFrom volumes assigns depth t) fun x => x.outcome = answerOf depth volumes assigns t.content := by
  induction depth generalizing t with
  | zero => exact yields_ok rfl
  | succ depth ih =>
    have hlen : ¬ t.content.length > maxExpanded := by
      unfold Text.content
      rw [stretch_length]
      omega
    rw [resolveFrom, answerOf, expansion_short hlen]
    cases hcut : cutColon t.content with
    | none =>
      rw [resolveVolume_plain ht hcut]
      simp only [ok_bind]
      rw [if_neg (by simp), if_pos (colonOf_none hcut)]
      exact yields_ok rfl
    | some p =>
      obtain ⟨front, rest⟩ := p
      obtain ⟨hmark, hfront, -, hle⟩ := colonOf_some hcut
      rw [resolveVolume_eq hv ht hcut]
      simp only [ok_bind]
      cases hvol : volumes.findIdx? (Volume.named front) with
      | some v =>
        -- A volume ends the search, whatever assigns there are.
        refine yields_ok ?_
        unfold Resolved.outcome
        rw [if_neg (by simp)]
      | none =>
        rw [if_neg (by simp), if_neg (by omega), hmark, Nat.add_sub_cancel, sliceOf_eq (by omega), hfront]
        simp only [ok_bind, findAssign, assignFrom_eq ha]
        cases hassign : assigns.findIdx? (Assign.named front) with
        | none =>
          have hfind : assigns.find? (Assign.named front) = none := by
            rw [find?_eq_none]
            intro a hmem
            have hnot := findIdx?_eq_none_iff.mp hassign a hmem
            simp [hnot]
          rw [hfind]
          refine yields_ok ?_
          cases depth with
          | zero => rfl
          | succ _ => rfl
        | some i =>
          obtain ⟨a, hat, hfind⟩ := find_of_findIdx hassign
          have hfits := ha a (mem_of_getElem? hat)
          rw [hfind]
          rw [numberOf_some, if_neg (by omega), Nat.add_sub_cancel_left, hat]
          dsimp only
          rw [← hmark, substitute_eq hfits ht hcut]
          by_cases hlong : (joined a.targetText rest).length > maxExpanded
          · rw [if_pos hlong]
            refine yields_ok ?_
            cases depth with
            | zero => rfl
            | succ depth =>
              dsimp only
              rw [expansion_long hlong]
              rfl
          · rw [if_neg hlong]
            have hnext := ih (t := Text.ofList (joined a.targetText rest)) (Nat.not_lt.mp hlong)
            rw [ofList_content] at hnext
            refine hnext.mono fun x hx => hx.trans ?_
            cases depth with
            | zero => rfl
            | succ depth => rfl

/-! ## Setting and removing assigns -/

theorem store_text {cap : Nat} (h : chars.length ≤ cap) :
    Yields (Vfs.store cap chars) fun f => stretch f 1 chars.length = chars := by
  unfold Vfs.store
  rw [assign_eq (Nat.le_refl 1) h (by omega)]
  exact yields_ok stretch_overlay

/-- What the search of `Set_Assign` finds: an entry of the name, or that there is none, and a free entry. -/
structure Slots (assigns : List Assign) (name : List UInt8) (number free : Nat) (r : Nat × Nat) : Prop where
  found : r.1 ≠ 0 → ∃ i a, r.1 = number + i ∧ assigns[i]? = some a ∧ a.valid = true ∧ sameName a.nameText name = true
  absent : r.1 = 0 → ∀ a ∈ assigns, a.valid = true → sameName a.nameText name = false
  vacant : r.2 ≠ free → ∃ i a, r.2 = number + i ∧ assigns[i]? = some a ∧ a.valid = false

theorem Slots.cons {free' : Nat} {r : Nat × Nat} (h : Slots assigns name (number + 1) free' r)
    (hother : a.valid = true → sameName a.nameText name = false)
    (hfree : free' ≠ free → free' = number ∧ a.valid = false) : Slots (a :: assigns) name number free r where
  found hr := by
    obtain ⟨i, x, hi, hx, hvalid, hsame⟩ := h.found hr
    exact ⟨i + 1, x, by omega, hx, hvalid, hsame⟩
  absent hr x hx := by
    rcases mem_cons.mp hx with rfl | hx
    · exact hother
    · exact h.absent hr x hx
  vacant hr := by
    by_cases hmoved : r.2 = free'
    · obtain ⟨hnumber, hvalid⟩ := hfree fun h => hr (hmoved.trans h)
      exact ⟨0, a, hmoved.trans hnumber, rfl, hvalid⟩
    · obtain ⟨i, x, hi, hx, hvalid⟩ := h.vacant hmoved
      exact ⟨i + 1, x, by omega, hx, hvalid⟩

theorem slotFrom_spec (ha : ∀ a ∈ assigns, AssignFits a) (hnumber : 1 ≤ number) :
    Yields (Vfs.slotFrom name number free assigns) (Slots assigns name number free) := by
  induction assigns generalizing number free with
  | nil =>
    refine yields_ok ⟨fun h => absurd rfl h, fun _ a hmem => ?_, fun h => absurd rfl h⟩
    exact absurd hmem not_mem_nil
  | cons a as ih =>
    have hrest := fun x hx => ha x (mem_cons_of_mem a hx)
    rw [Vfs.slotFrom]
    by_cases hvalid : a.valid = true
    · rw [if_pos hvalid, matchText_eq (ha a mem_cons_self).name]
      cases hsame : sameName (stretch a.name 1 a.nameLen) name with
      | true =>
        refine yields_ok ⟨fun _ => ⟨0, a, rfl, rfl, hvalid, hsame⟩, fun h => ?_, fun h => absurd rfl h⟩
        exact absurd h (Nat.pos_iff_ne_zero.mp hnumber)
      | false =>
        refine (ih hrest (by omega)).mono fun r hr => ?_
        exact hr.cons (fun _ => hsame) fun h => absurd rfl h
    · rw [if_neg hvalid]
      refine (ih hrest (by omega)).mono fun r hr => ?_
      refine hr.cons (fun h => absurd h hvalid) fun h => ?_
      by_cases hfree : free = 0
      · rw [if_pos hfree]
        exact ⟨rfl, Bool.eq_false_iff.mpr hvalid⟩
      · rw [if_neg hfree] at h
        exact absurd rfl h

/-- Writing an entry keeps the names apart, if the entry was the name's own or the name is new. -/
theorem Distinct.set (h : Distinct assigns)
    (hother : ∀ j b, assigns[j]? = some b → j ≠ i → b.valid = true → sameName b.nameText a.nameText = false) :
    Distinct (assigns.set i a) := by
  intro j k x y hx hy hvx hvy hsame
  rw [getElem?_set] at hx hy
  by_cases hj : i = j
  · by_cases hk : i = k
    · exact hj.symm.trans hk
    · -- The new entry and an old one.
      rw [if_neg hk] at hy
      rw [if_pos hj] at hx
      have hnew : a = x := by
        split at hx
        · exact Option.some.inj hx
        · cases hx
      have hne := hother k y hy (fun h => hk h.symm) hvy
      rw [hnew, sameName_symm hsame] at hne
      cases hne
  · rw [if_neg hj] at hx
    by_cases hk : i = k
    · rw [if_pos hk] at hy
      have hnew : a = y := by
        split at hy
        · exact Option.some.inj hy
        · cases hy
      have hne := hother j x hx (fun h => hj h.symm) hvx
      rw [hnew, hsame] at hne
      cases hne
    · rw [if_neg hk] at hy
      exact h j k x y hx hy hvx hvy hsame

theorem Distinct.append (h : Distinct assigns)
    (hother : ∀ b ∈ assigns, b.valid = true → sameName b.nameText a.nameText = false) :
    Distinct (assigns ++ [a]) := by
  have hlast : ∀ j x, (assigns ++ [a])[j]? = some x → assigns[j]? = some x ∨ j = assigns.length ∧ x = a := by
    intro j x hx
    by_cases hj : j < assigns.length
    · rw [getElem?_append_left hj] at hx
      exact .inl hx
    · rw [getElem?_append_right (by omega), getElem?_singleton] at hx
      split at hx
      · exact .inr ⟨by omega, (Option.some.inj hx).symm⟩
      · cases hx
  intro j k x y hx hy hvx hvy hsame
  rcases hlast j x hx with hj | ⟨hj, hnewx⟩
  · rcases hlast k y hy with hk | ⟨hk, hnewy⟩
    · exact h j k x y hj hk hvx hvy hsame
    · have hne := hother x (mem_of_getElem? hj) hvx
      rw [← hnewy, hsame] at hne
      cases hne
  · rcases hlast k y hy with hk | ⟨hk, hnewy⟩
    · have hne := hother y (mem_of_getElem? hk) hvy
      rw [← hnewx, sameName_symm hsame] at hne
      cases hne
    · exact hj.trans hk.symm

/-- **`Set_Assign` keeps the names apart.** -/
theorem setAssign_distinct {as : List Assign} (ha : ∀ a ∈ assigns, AssignFits a) (h : Distinct assigns)
    (hset : Vfs.setAssign assigns room name target = .ok (some as)) : Distinct as := by
  unfold Vfs.setAssign at hset
  by_cases hlens : name.length = 0 ∨ name.length > 16 ∨ target.length = 0 ∨ target.length > 48
  · rw [if_pos hlens] at hset
    cases hset
  · rw [if_neg hlens] at hset
    have hsearch : Yields (Vfs.slotFrom name 1 0 assigns) (Slots assigns name 1 0) :=
      slotFrom_spec ha (Nat.le_refl 1)
    have hnames : Yields (Vfs.store 16 name) fun f => stretch f 1 name.length = name := store_text (by omega)
    have hgoals : Yields (Vfs.store 48 target) fun f => stretch f 1 target.length = target := store_text (by omega)
    obtain ⟨r, hr, hslots⟩ := hsearch
    obtain ⟨text, htext, hname⟩ := hnames
    obtain ⟨goal, hgoal, -⟩ := hgoals
    rw [hr, htext, hgoal] at hset
    simp only [ok_bind] at hset
    have hnew : (⟨true, text, name.length, goal, target.length⟩ : Assign).nameText = name := hname
    by_cases hfound : r.1 ≠ 0
    · -- The entry of the name is written again.
      obtain ⟨i, b, hi, hb, hvalid, hsame⟩ := hslots.found hfound
      rw [if_pos hfound, if_pos hfound] at hset
      cases hset
      rw [hi, Nat.add_sub_cancel_left]
      apply h.set
      intro j x hx hj hvx
      apply Bool.eq_false_iff.mpr
      intro hsame'
      rw [hnew] at hsame'
      exact hj (h j i x b hx hb hvx hvalid (sameName_trans hsame' (sameName_symm hsame)))
    · have habsent := hslots.absent (Nat.eq_zero_of_not_pos fun hpos => hfound (Nat.pos_iff_ne_zero.mp hpos))
      rw [if_neg hfound] at hset
      split_ifs at hset with hfree hroom
      · cases hset
        apply h.set
        intro j x hx _ hvx
        rw [hnew]
        exact habsent x (mem_of_getElem? hx) hvx
      · cases hset
        apply h.append
        intro x hx hvx
        rw [hnew]
        exact habsent x hx hvx
      · cases hset

theorem Distinct.removed (h : Distinct assigns) :
    Distinct (assigns.modify i fun a => { a with valid := false }) := by
  have hold : ∀ (j : Nat) (x : Assign),
      (assigns.modify i fun a => { a with valid := false })[j]? = some x → x.valid = true →
      assigns[j]? = some x := by
    intro j x hx hvalid
    rw [getElem?_modify] at hx
    obtain ⟨b, hb, rfl⟩ := Option.map_eq_some_iff.mp hx
    by_cases hij : i = j
    · rw [if_pos hij] at hvalid
      cases hvalid
    · rw [if_neg hij]
      exact hb
  intro j k x y hx hy hvx hvy hsame
  exact h j k x y (hold j x hx hvx) (hold k y hy hvy) hvx hvy hsame

/-- **Every table that setting and removing leads to** fits and has no name twice. -/
theorem Built.invariant (h : Built assigns) : (∀ a ∈ assigns, AssignFits a) ∧ Distinct assigns := by
  induction h with
  | empty =>
    refine ⟨fun a hmem => absurd hmem not_mem_nil, fun i j a b hi => ?_⟩
    cases hi
  | set room name target _ hset ih =>
    have hyields : Yields (Vfs.setAssign _ room name target) fun o => ∀ as, o = some as → ∀ a ∈ as, AssignFits a :=
      Vfs.yields_setAssign ih.1
    obtain ⟨as', has', hfits⟩ := hyields
    rw [hset] at has'
    cases has'
    exact ⟨hfits _ rfl, setAssign_distinct ih.1 ih.2 hset⟩
  | removed name i _ _ _ ih =>
    refine ⟨fun a hmem => ?_, ih.2.removed⟩
    obtain ⟨j, hj⟩ := getElem?_of_mem hmem
    rw [getElem?_modify] at hj
    obtain ⟨b, hb, rfl⟩ := Option.map_eq_some_iff.mp hj
    have hfits := ih.1 b (mem_of_getElem? hb)
    split
    · exact ⟨hfits.name, hfits.target⟩
    · exact hfits

/-- **`Resolve_Full` is bounded substitution.**  In every table of assigns that was set up by setting and
    removing, no two assigns in use have one name; and every name is resolved, whatever the volumes are,
    to what at most three substitutions of the text in front of its first colon make of it: the volume, the
    expanded string and the position behind its first colon, or no volume. -/
theorem resolveFull_is_bounded_substitution (hv : ∀ v ∈ volumes, VolumeFits v) (hbuilt : Built assigns)
    (ht : t.len ≤ maxPath) :
    Distinct assigns ∧
      Yields (resolveFull volumes assigns t) fun x => x.outcome = expansion volumes assigns 3 t.content := by
  obtain ⟨ha, hdistinct⟩ := hbuilt.invariant
  have hle : t.len ≤ maxExpanded := by
    unfold maxPath at ht
    unfold maxExpanded
    omega
  refine ⟨hdistinct, ?_⟩
  unfold resolveFull
  by_cases hempty : t.len = 0 ∨ t.len > maxExpanded
  · -- An empty name has no colon.
    have hlen : t.len = 0 := by omega
    rw [if_pos hempty]
    refine yields_ok ?_
    unfold Text.content
    rw [hlen, expansion_short (by simp)]
    rfl
  · rw [if_neg hempty, demand_eq ht]
    exact resolveFrom_outcome hv ha 4 hle

/-! ## A system volume and its assign -/

/-- `Sys`, on `RD0`. -/
def sysVolume : Volume :=
  { Volume.zero with
    valid := true, device := overlay (fun _ => 0) 1 [82, 68, 48], devLen := 3
    label := overlay (fun _ => 0) 1 [83, 121, 115], labLen := 3 }

/-- `Sys:C`. -/
def targetC : List UInt8 := [83, 121, 115, 58, 67]

def tableC : List Assign := [⟨true, overlay (fun _ => 0) 1 Vfs.nameC, 1, overlay (fun _ => 0) 1 targetC, 5⟩]

theorem tableC_built : Built tableC := Built.set true Vfs.nameC targetC Built.empty rfl

/-- `c:Dir` is `Sys:C/Dir` on the first volume. -/
theorem resolveFull_is_bounded_substitution_dir :
    Distinct tableC ∧
      Yields (resolveFull [sysVolume] tableC (Text.ofList [99, 58, 68, 105, 114])) fun x =>
        x.outcome = some (1, [83, 121, 115, 58, 67, 47, 68, 105, 114], 5) := by
  have hv : ∀ v ∈ [sysVolume], VolumeFits v := by
    intro v hmem
    rw [mem_singleton.mp hmem]
    exact ⟨by decide, by decide⟩
  have hdir := resolveFull_is_bounded_substitution (t := Text.ofList [99, 58, 68, 105, 114]) hv tableC_built
    (by decide)
  exact hdir

end Aegir.Fileserver
