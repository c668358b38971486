/-
  Reading a request passes all checks.

  In tables whose strings have lengths that fit (`VolumeFits`, `AssignFits`), names and paths can be
  unpacked, volumes and assigns be looked up and names be expanded without a failed check, whatever the
  message says; a name that is found has its path inside the string.
-/
import Aegir.Fileserver.Handlers

namespace Aegir.Fileserver

open Aegir.Lib List

variable {words : Words} {first last cap n pos len number : Nat} {t : Text} {chars : Nat → UInt8}
  {against front : List UInt8} {insensitive : Bool} {volumes : List Volume} {assigns : List Assign}
  {r : Request} {k : Kernel}

theorem yields_demand {p : Prop} [Decidable p] {stop : Stop} (hp : p) : Yields (demand p stop) fun _ => p := by
  unfold demand
  rw [if_pos hp]
  exact yields_ok hp

theorem yields_slice {lo hi : Nat} (hlo : 1 ≤ lo) (hhi : hi ≤ cap) :
    Yields (sliceOf cap chars lo hi) fun l => l.length = hi + 1 - lo := by
  unfold sliceOf
  rw [slice_eq hlo hhi]
  exact yields_ok (by simp)

/-! ## Unpacking -/

theorem yields_unpack (h : first + pos / 8 ≤ 5) : Yields (unpackChar words first pos) fun _ => True := by
  unfold unpackChar
  rw [if_pos h]
  exact yields_ok trivial

theorem yields_put {c : UInt8} (h : t.len < cap) : Yields (t.put cap c) fun t' => t'.len = t.len + 1 := by
  unfold Text.put
  rw [if_pos h]
  exact yields_ok rfl

theorem yields_nameFrom (hwords : pos + n ≤ (6 - first) * 8) (ht : t.len ≤ cap) :
    Yields (nameFrom words first cap n pos t) fun o => ∀ t', o = some t' → t'.len ≤ cap := by
  induction n generalizing pos t with
  | zero =>
    refine yields_ok fun t' h => ?_
    cases h
    exact ht
  | succ n ih =>
    refine (yields_unpack (by omega)).bind fun c _ => ?_
    by_cases hc : c = 0
    · rw [if_pos hc]
      refine yields_ok fun t' h => ?_
      cases h
      exact ht
    · rw [if_neg hc]
      by_cases hfull : t.len ≥ cap
      · rw [if_pos hfull]
        exact yields_ok fun t' h => by cases h
      · rw [if_neg hfull]
        refine (yields_put (by omega)).bind fun t' ht' => ?_
        exact ih (by omega) (by omega)

/-- A text that is not empty and fits into `cap` characters. -/
def Fits (cap : Nat) (o : Option Text) : Prop := ∀ t, o = some t → 0 < t.len ∧ t.len ≤ cap

theorem yields_nameOf (hle : first ≤ last) (hlast : last ≤ 5) :
    Yields (nameOf words first last cap) (Fits cap) := by
  refine (yields_nameFrom (t := Text.empty) (by omega) (Nat.zero_le _)).bind fun o ho => ?_
  refine yields_ok fun t ht => ?_
  obtain ⟨h, hpos⟩ := Option.filter_eq_some_iff.mp ht
  exact ⟨by simpa using hpos, ho t h⟩

theorem yields_pageFrom {page : Nat → UInt8} (ht : t.len ≤ maxPath) :
    Yields (pageFrom page n pos t) fun t' => t'.len ≤ maxPath := by
  induction n generalizing pos t with
  | zero => exact yields_ok ht
  | succ n ih =>
    rw [pageFrom]
    by_cases hc : page pos = 0
    · rw [if_pos hc]
      exact yields_ok ht
    · rw [if_neg hc]
      by_cases hfull : t.len ≥ maxPath
      · rw [if_pos hfull]
        exact yields_ok (Nat.zero_le _)
      · rw [if_neg hfull]
        refine (yields_put (by omega)).bind fun t' ht' => ?_
        exact ih (by omega)

/-- **Every request's path can be fetched**, or is refused. -/
theorem yields_fetchPath (hle : first ≤ last) (hlast : last ≤ 5) (slot : Nat) :
    Yields (fetchPath r k first last slot) (Fits maxPath) := by
  have hword : Yields (wordAt r.words first) fun _ => True := by
    unfold wordAt
    rw [if_pos (by omega)]
    exact yields_ok trivial
  refine hword.bind fun w _ => ?_
  by_cases hmark : w ≠ pathInBuf
  · rw [if_pos hmark]
    exact yields_nameOf hle hlast
  · rw [if_neg hmark]
    by_cases hpage : r.caps slot = 0 ∨ k.pathMap = false
    · rw [if_pos hpage]
      exact yields_ok fun t ht => by cases ht
    · rw [if_neg hpage]
      refine (yields_pageFrom (t := Text.empty) (Nat.zero_le _)).bind fun t ht => ?_
      refine yields_ok fun t' ht' => ?_
      split at ht'
      · rename_i hpos
        cases ht'
        exact ⟨hpos, ht⟩
      · cases ht'

/-! ## Looking up -/

theorem yields_matchText (h : len ≤ cap) : Yields (matchText cap chars len against insensitive) fun _ => True := by
  unfold matchText
  by_cases hlen : len ≠ against.length
  · rw [if_pos hlen]
    exact yields_ok trivial
  · rw [if_neg hlen]
    exact (yields_slice (Nat.le_refl 1) h).bind fun _ _ => yields_ok trivial

structure VolumeFits (v : Volume) : Prop where
  device : v.devLen ≤ 16
  label : v.labLen ≤ 16

structure AssignFits (a : Assign) : Prop where
  name : a.nameLen ≤ 16
  target : 1 ≤ a.tgtLen ∧ a.tgtLen ≤ 48

theorem yields_volumeFrom (hv : ∀ v ∈ volumes, VolumeFits v) (hlen : len ≤ maxExpanded) :
    Yields (volumeFrom chars len number volumes) fun x =>
      x = 0 ∨ number ≤ x ∧ x < number + volumes.length := by
  induction volumes generalizing number with
  | nil => exact yields_ok (.inl rfl)
  | cons v vs ih =>
    have hfits := hv v mem_cons_self
    have hrest : Yields (volumeFrom chars len (number + 1) vs) fun x =>
        x = 0 ∨ number ≤ x ∧ x < number + (v :: vs).length := by
      refine (ih fun x hx => hv x (mem_cons_of_mem _ hx)).mono fun x hx => ?_
      rw [length_cons]
      omega
    have hhere : number = 0 ∨ number ≤ number ∧ number < number + (v :: vs).length := by
      rw [length_cons]
      omega
    rw [volumeFrom]
    by_cases hvalid : v.valid = true
    · rw [if_pos hvalid]
      refine (yields_slice (Nat.le_refl 1) hfits.device).bind fun device _ => ?_
      refine (yields_matchText hlen).bind fun b _ => ?_
      cases b with
      | true => exact yields_ok hhere
      | false =>
        refine (yields_slice (Nat.le_refl 1) hfits.label).bind fun label _ => ?_
        refine (yields_matchText hlen).bind fun b _ => ?_
        cases b with
        | true => exact yields_ok hhere
        | false => exact hrest
    · rw [if_neg hvalid]
      exact hrest

theorem colonOf_le (t : Text) : colonOf t ≤ t.len := by
  unfold colonOf
  cases hfind : (range' 1 t.len).find? fun i => decide (t.chars i = colon) with
  | none => exact Nat.zero_le _
  | some i =>
    have hmem := mem_of_find?_eq_some hfind
    rw [mem_range'_1] at hmem
    rw [Option.getD_some]
    omega

theorem yields_resolveVolume (hv : ∀ v ∈ volumes, VolumeFits v) (ht : t.len ≤ maxExpanded) :
    Yields (resolveVolume volumes t) fun x =>
      x.1 = 0 ∨ x.1 ≤ volumes.length ∧ 1 ≤ x.2 ∧ x.2 ≤ t.len + 1 := by
  have hcolon := colonOf_le t
  refine (yields_demand ht).bind fun _ _ => ?_
  by_cases hnone : colonOf t = 0
  · rw [if_pos hnone]
    exact yields_ok (.inl rfl)
  · rw [if_neg hnone]
    refine (yields_volumeFrom hv (by omega)).bind fun x hx => ?_
    refine yields_ok ?_
    by_cases h0 : x = 0
    · rw [if_pos h0]
      exact .inl rfl
    · rw [if_neg h0]
      exact .inr ⟨by omega, by omega, by omega⟩

theorem yields_assignFrom (ha : ∀ a ∈ assigns, AssignFits a) :
    Yields (assignFrom front number assigns) fun x => x = 0 ∨ number ≤ x ∧ x < number + assigns.length := by
  induction assigns generalizing number with
  | nil => exact yields_ok (.inl rfl)
  | cons a as ih =>
    have hrest : Yields (assignFrom front (number + 1) as) fun x =>
        x = 0 ∨ number ≤ x ∧ x < number + (a :: as).length := by
      refine (ih fun x hx => ha x (mem_cons_of_mem _ hx)).mono fun x hx => ?_
      rw [length_cons]
      omega
    rw [assignFrom]
    by_cases hvalid : a.valid = true
    · rw [if_pos hvalid]
      refine (yields_matchText (ha a mem_cons_self).name).bind fun b _ => ?_
      cases b with
      | true =>
        refine yields_ok ?_
        rw [length_cons]
        omega
      | false => exact hrest
    · rw [if_neg hvalid]
      exact hrest

theorem yields_findAssign (ha : ∀ a ∈ assigns, AssignFits a) :
    Yields (findAssign assigns front) fun x => x = 0 ∨ 1 ≤ x ∧ x ≤ assigns.length := by
  refine (yields_assignFrom ha).mono fun x hx => ?_
  omega

/-! ## Expanding -/

theorem yields_joined (target sep : List UInt8) (mark : Nat) (ht : t.len ≤ maxExpanded)
    (hfits : target.length + sep.length + (t.len - mark) ≤ maxExpanded) :
    Yields (do
      demand ((target ++ sep).length ≤ maxExpanded) .check
      let rest ← sliceOf maxExpanded t.chars (mark + 1) t.len
      demand ((target ++ sep).length + rest.length ≤ maxExpanded) .check
      .ok (some (Text.ofList (target ++ sep ++ rest))) : Act (Option Text))
      fun o => ∀ t', o = some t' → t'.len ≤ maxExpanded := by
  have hlen : (target ++ sep).length = target.length + sep.length := length_append
  refine (yields_demand (by omega)).bind fun _ _ => ?_
  refine (yields_slice (by omega) ht).bind fun rest hrest => ?_
  refine (yields_demand (by omega)).bind fun _ hrest => ?_
  refine yields_ok fun t' h => ?_
  cases h
  unfold Text.ofList
  rw [length_append]
  exact hrest

theorem yields_substitute {a : Assign} {mark : Nat} (ha : AssignFits a) (ht : t.len ≤ maxExpanded) :
    Yields (substitute a t mark) fun o => ∀ t', o = some t' → t'.len ≤ maxExpanded := by
  have htgt := ha.target.2
  refine (yields_demand ha.target).bind fun _ _ => ?_
  by_cases hsep : mark + 1 ≤ t.len ∧ a.target a.tgtLen ≠ colon ∧ a.target a.tgtLen ≠ slash
  · simp only [if_pos hsep]
    by_cases hadd : a.tgtLen + 1 + (t.len - mark) > maxExpanded
    · rw [if_pos hadd]
      exact yields_ok fun t' h => by cases h
    · rw [if_neg hadd]
      refine (yields_slice (Nat.le_refl 1) htgt).bind fun target htarget => ?_
      refine (yields_demand (by unfold maxExpanded; omega)).bind fun _ _ => ?_
      exact yields_joined _ _ _ ht (by rw [length_singleton]; omega)
  · simp only [if_neg hsep]
    by_cases hadd : a.tgtLen + 0 + (t.len - mark) > maxExpanded
    · rw [if_pos hadd]
      exact yields_ok fun t' h => by cases h
    · rw [if_neg hadd]
      refine (yields_slice (Nat.le_refl 1) htgt).bind fun target htarget => ?_
      refine (yields_demand (by unfold maxExpanded; omega)).bind fun _ _ => ?_
      have hjoined := yields_joined target [] mark ht (by rw [length_nil]; omega)
      rwa [append_nil] at hjoined

/-- A resolved name is in the table, and its path is inside the string. -/
def Resolved.Fits (volumes : List Volume) (x : Resolved) : Prop :=
  x.volume = 0 ∨ x.volume ≤ volumes.length ∧ 1 ≤ x.pos ∧ x.pos ≤ x.name.len + 1 ∧ x.name.len ≤ maxExpanded

theorem yields_resolveFrom (hv : ∀ v ∈ volumes, VolumeFits v) (ha : ∀ a ∈ assigns, AssignFits a) (depth : Nat)
    (ht : t.len ≤ maxExpanded) : Yields (resolveFrom volumes assigns depth t) (Resolved.Fits volumes) := by
  induction depth generalizing t with
  | zero => exact yields_ok (.inl rfl)
  | succ depth ih =>
    refine (yields_resolveVolume hv ht).bind fun x hx => ?_
    by_cases hvolume : x.1 ≠ 0
    · rw [if_pos hvolume]
      refine yields_ok (.inr ?_)
      rcases hx with hx | ⟨h1, h2, h3⟩
      · exact absurd hx hvolume
      · exact ⟨h1, h2, h3, ht⟩
    · rw [if_neg hvolume]
      have hcolon := colonOf_le t
      by_cases hnone : colonOf t = 0
      · rw [if_pos hnone]
        exact yields_ok (.inl rfl)
      · rw [if_neg hnone]
        refine (yields_slice (Nat.le_refl 1) (by omega)).bind fun front _ => ?_
        refine (yields_findAssign ha).bind fun i hi => ?_
        by_cases h0 : i = 0
        · rw [if_pos h0]
          exact yields_ok (.inl rfl)
        · have hlt : i - 1 < assigns.length := by omega
          rw [if_neg h0, getElem?_eq_getElem hlt]
          refine (yields_substitute (ha _ (getElem_mem hlt)) ht).bind fun o ho => ?_
          cases o with
          | none => exact yields_ok (.inl rfl)
          | some t' => exact ih (ho t' rfl)

/-- **Every name is resolved**, to a volume of the table or to none. -/
theorem yields_resolveFull (hv : ∀ v ∈ volumes, VolumeFits v) (ha : ∀ a ∈ assigns, AssignFits a)
    (ht : t.len ≤ maxPath) : Yields (resolveFull volumes assigns t) (Resolved.Fits volumes) := by
  unfold resolveFull
  split
  · exact yields_ok (.inl rfl)
  · refine (yields_demand ht).bind fun _ _ => ?_
    exact yields_resolveFrom hv ha 4 (by unfold maxPath at ht; unfold maxExpanded; omega)

end Aegir.Fileserver
