/-
  `Normalize_Path` answers the canonical form, exactly when the path fits.

  The array of components is a capped stack, so that a push it passes over is lost until the stack is empty again.
  The result is the components behind the volume, with a `/` before each of them unless the text so far ends in `:`;
  when it does not fit, an index check fails.
-/
import Mathlib.Algebra.GroupWithZero.Nat
import Aegir.Cli.NormalizePath

namespace Aegir.Cli

open Aegir.Lib List

/-! ## The components -/

variable {fs : List (List UInt8)} {f s path : List UInt8} {c : UInt8}

theorem component_eq (comps : List (List UInt8)) (comp : List UInt8) :
    component comps comp = cappedStep maxComps comps (pathOp comp) := by
  by_cases h : comp = [] ∨ comp = dotdot
  · have hguard : comp.length = 0 ∨ comp = dotdot := h.imp_left (congrArg length)
    rw [component, if_pos hguard, pathOp, if_pos h, cappedStep]
    split
    · rfl
    · next hlen =>
      rw [eq_nil_of_length_eq_zero (by omega : comps.length = 0)]
      rfl
  · have hguard : ¬ (comp.length = 0 ∨ comp = dotdot) := fun hg => h (hg.imp_left eq_nil_of_length_eq_zero)
    have hlen : ¬ comp.length = 0 := fun h0 => hguard (.inl h0)
    rw [component, if_neg hguard, pathOp, if_neg h, push, cappedStep]
    by_cases hfull : comps.length = maxComps
    · rw [if_pos (Or.inr hfull), if_pos hfull]
    · rw [if_neg (not_or.mpr ⟨hlen, hfull⟩), if_neg hfull]

/-- Without an empty component at the end. -/
def trimmed (fs : List (List UInt8)) : List (List UInt8) := if fs.getLast? = some [] then fs.dropLast else fs

theorem trimmed_cons (h : fs ≠ []) : trimmed (f :: fs) = f :: trimmed fs := by
  obtain ⟨g, gs, rfl⟩ := exists_cons_of_ne_nil h
  rw [trimmed, trimmed, getLast?_cons_cons]
  split
  · rfl
  · rfl

theorem scan_eq (comps : List (List UInt8)) (comp s : List UInt8) : scan comps comp s =
      ((trimmed ((s.splitOn slash).modifyHead (comp ++ ·))).map pathOp).foldl (cappedStep maxComps) comps := by
  induction s generalizing comps comp with
  | nil =>
    rw [scan, splitOn_nil]
    show _ = ((trimmed [comp ++ []]).map pathOp).foldl (cappedStep maxComps) comps
    rw [append_nil, trimmed, getLast?_singleton]
    by_cases h : comp = []
    · rw [if_neg (by rw [h]; exact Nat.lt_irrefl 0), if_pos (congrArg some h)]
      rfl
    · rw [if_pos (length_pos_iff.mpr h), if_neg fun heq => h (Option.some.inj heq), component_eq]
      rfl
  | cons c cs ih =>
    rw [scan, splitOn_cons_eq_if_modifyHead]
    by_cases hc : c = slash
    · rw [if_pos hc, if_pos (beq_iff_eq.mpr hc), ih, component_eq]
      show _ = ((trimmed ((comp ++ []) :: cs.splitOn slash)).map pathOp).foldl (cappedStep maxComps) comps
      rw [trimmed_cons (splitOn_ne_nil _ _), append_nil, map_cons, foldl_cons]
      have hhead : (cs.splitOn slash).modifyHead ([] ++ ·) = cs.splitOn slash := by
        cases cs.splitOn slash <;> rfl
      rw [hhead]
    · rw [if_neg hc, if_neg (by simpa using hc), ih, modifyHead_modifyHead]
      congr 4
      funext x
      exact append_assoc _ _ _

theorem scan_path (path : List UInt8) :
    scan [] [] (componentPart path) = cappedRun maxComps ((fields path).map pathOp) := by
  have hhead : ((componentPart path).splitOn slash).modifyHead ([] ++ ·) = (componentPart path).splitOn slash := by
    cases (componentPart path).splitOn slash <;> rfl
  rw [scan_eq, hhead]
  rfl

theorem pathOp_some {g : List UInt8} (h : pathOp f = some g) : f = g ∧ f ≠ [] ∧ f ≠ dotdot := by
  rw [pathOp] at h
  split at h
  · cases h
  · next hno =>
    cases h
    exact ⟨rfl, not_or.mp hno⟩

theorem mem_splitOn (h : f ∈ s.splitOn slash) (hc : c ∈ f) : c ∈ s ∧ c ≠ slash := by
  induction s generalizing f with
  | nil =>
    rw [splitOn_nil, mem_singleton] at h
    rw [h] at hc
    exact absurd hc not_mem_nil
  | cons d ds ih =>
    rw [splitOn_cons_eq_if_modifyHead] at h
    split at h
    · rcases mem_cons.mp h with rfl | h
      · exact absurd hc not_mem_nil
      · exact ⟨mem_cons_of_mem _ (ih h hc).1, (ih h hc).2⟩
    · next hd =>
      obtain ⟨g, gs, hsplit⟩ := exists_cons_of_ne_nil (splitOn_ne_nil slash ds)
      rw [hsplit] at h ih
      rcases mem_cons.mp h with rfl | h
      · rcases mem_cons.mp hc with rfl | hc
        · exact ⟨mem_cons_self, by simpa using hd⟩
        · exact ⟨mem_cons_of_mem _ (ih mem_cons_self hc).1, (ih mem_cons_self hc).2⟩
      · have hrest := ih (mem_cons_of_mem _ h) hc
        exact ⟨mem_cons_of_mem _ hrest.1, hrest.2⟩

theorem mem_fields (h : f ∈ fields path) : f ∈ (componentPart path).splitOn slash := by
  rw [fields] at h
  split at h
  · exact dropLast_subset _ h
  · exact h

theorem mem_pathStack (h : f ∈ pathStack path) : f ∈ fields path ∧ f ≠ [] ∧ f ≠ dotdot := by
  obtain ⟨g, hg, hop⟩ := mem_map.mp (mem_stackRun h)
  obtain ⟨rfl, hplain⟩ := pathOp_some hop
  exact ⟨hg, hplain⟩

/-! ## The text -/

variable {t : List UInt8}

/-- The text so far, and a `/` unless it is empty or ends in `:`. -/
def led (t : List UInt8) : List UInt8 := if t ≠ [] ∧ t.getLast? ≠ some colon then t ++ [slash] else t

/-- The text that the components are put behind. -/
def joined (t : List UInt8) : List (List UInt8) → List UInt8
  | [] => t
  | comp :: comps => joined (led t ++ comp) comps

theorem led_length (t : List UInt8) : t.length ≤ (led t).length ∧ (led t).length ≤ t.length + 1 := by
  rw [led]
  split
  · rw [length_append]
    exact ⟨Nat.le_add_right _ _, Nat.le_refl _⟩
  · exact ⟨Nat.le_refl _, Nat.le_succ _⟩

theorem joined_ge (t : List UInt8) (comps : List (List UInt8)) : t.length ≤ (joined t comps).length := by
  induction comps generalizing t with
  | nil => exact Nat.le_refl _
  | cons comp comps ih =>
    have hled := (led_length t).1
    have hrest := ih (led t ++ comp)
    rw [length_append] at hrest
    rw [joined]
    omega

theorem putSlash_eq (h : t.length ≤ resultLast) :
    ((led t).length ≤ resultLast → putSlash ⟨t, t.length⟩ = .ok ⟨led t, (led t).length⟩) ∧
      (resultLast < (led t).length → ∃ e, putSlash ⟨t, t.length⟩ = .error e) := by
  rw [putSlash]
  by_cases hnil : t = []
  · rw [if_neg (by rw [hnil]; exact Nat.lt_irrefl 0), led, if_neg fun hs => hs.1 hnil]
    exact ⟨fun _ => rfl, fun hlt => absurd hlt (by omega)⟩
  · have hchar : lastChar ⟨t, t.length⟩ = .ok (t.getLast?.getD 0) := by rw [lastChar, if_pos h]
    rw [if_pos (length_pos_iff.mpr hnil), hchar]
    obtain ⟨c, hc⟩ := Option.ne_none_iff_exists'.mp fun h => hnil (getLast?_eq_none_iff.mp h)
    rw [led, hc, Option.getD_some]
    show (_ → (if c ≠ colon then putChar ⟨t, t.length⟩ slash else .ok ⟨t, t.length⟩) = _) ∧
      (_ → ∃ e, (if c ≠ colon then putChar ⟨t, t.length⟩ slash else .ok ⟨t, t.length⟩) = .error e)
    by_cases hcolon : c = colon
    · have hsame : ¬ c ≠ colon := fun hne => hne hcolon
      have hno : ¬ (t ≠ [] ∧ some c ≠ some colon) := fun hs => hs.2 (congrArg some hcolon)
      rw [if_neg hsame, if_neg hno]
      exact ⟨fun _ => rfl, fun hlt => absurd hlt (by omega)⟩
    · rw [if_pos hcolon, if_pos ⟨hnil, fun heq => hcolon (Option.some.inj heq)⟩, length_append, putChar]
      show (t.length + 1 ≤ resultLast → _) ∧ (resultLast < t.length + 1 → _)
      constructor
      · intro hle
        rw [if_pos hle]
        rfl
      · intro hlt
        rw [if_neg (Nat.not_le_of_lt hlt)]
        exact ⟨_, rfl⟩

theorem copyComp_eq {u : List UInt8} (comp : List UInt8) (h : u.length ≤ resultLast) :
    ((u ++ comp).length ≤ resultLast → copyComp ⟨u, u.length⟩ comp = ⟨u ++ comp, (u ++ comp).length⟩) ∧
      (resultLast < (u ++ comp).length → (copyComp ⟨u, u.length⟩ comp).rlen = resultLast + 1) := by
  induction comp generalizing u with
  | nil =>
    rw [append_nil]
    exact ⟨fun _ => rfl, fun hlt => absurd hlt (by omega)⟩
  | cons c cs ih =>
    have hsplit : u ++ c :: cs = (u ++ [c]) ++ cs := by rw [append_assoc]; rfl
    have hlen : (u ++ [c]).length = u.length + 1 := length_append
    rw [copyComp]
    by_cases hfull : u.length + 1 > resultLast
    · rw [if_pos hfull, length_append, length_cons]
      refine ⟨fun hle => absurd hle (by omega), fun _ => ?_⟩
      show u.length + 1 = resultLast + 1
      omega
    · rw [if_neg hfull, hsplit, ← hlen]
      exact ih (by omega)

/-- The end of the function: the text, unless `RLen` is one ahead. -/
def finish (x : Except RangeError Result) : Except RangeError (List UInt8) := do
  let r ← x
  if r.rlen ≤ resultLast then pure r.text else .error (.result r.rlen)

theorem putComps_over {r : Result} (h : r.rlen = resultLast + 1) (comps : List (List UInt8)) :
    ∃ e, finish (putComps r comps) = .error e := by
  have hover : ¬ r.rlen ≤ resultLast := by omega
  cases comps with
  | nil =>
    show ∃ e, (if r.rlen ≤ resultLast then _ else _) = _
    rw [if_neg hover]
    exact ⟨_, rfl⟩
  | cons comp comps =>
    rw [putComps, putSlash, if_pos (by omega), lastChar, if_neg hover]
    exact ⟨_, rfl⟩

/-- **The components are put behind the text**, if they fit. -/
theorem putComps_eq (comps : List (List UInt8)) (h : t.length ≤ resultLast) :
    ((joined t comps).length ≤ resultLast → finish (putComps ⟨t, t.length⟩ comps) = .ok (joined t comps)) ∧
      (resultLast < (joined t comps).length → ∃ e, finish (putComps ⟨t, t.length⟩ comps) = .error e) := by
  induction comps generalizing t with
  | nil =>
    refine ⟨fun hle => ?_, fun hlt => absurd hlt (by rw [joined]; omega)⟩
    show (if t.length ≤ resultLast then _ else _) = _
    rw [if_pos h]
    rfl
  | cons comp comps ih =>
    have hge := joined_ge (led t ++ comp) comps
    obtain ⟨hput, hfail⟩ := putSlash_eq h
    rw [putComps, joined]
    by_cases hslash : (led t).length ≤ resultLast
    · rw [hput hslash]
      obtain ⟨hcopy, hover⟩ := copyComp_eq comp hslash
      by_cases hcomp : (led t ++ comp).length ≤ resultLast
      · show (_ → finish (putComps (copyComp _ _) comps) = _) ∧ (_ → ∃ e, finish (putComps (copyComp _ _) comps) = _)
        rw [hcopy hcomp]
        exact ih hcomp
      · refine ⟨fun hle => absurd hle (by omega), fun _ => ?_⟩
        exact putComps_over (hover (by omega)) comps
    · obtain ⟨e, he⟩ := hfail (by omega)
      rw [length_append] at hge
      refine ⟨fun hle => absurd hle (by omega), fun _ => ⟨e, ?_⟩⟩
      rw [he]
      rfl

theorem putAll_eq (t s : List UInt8) :
    ((t ++ s).length ≤ resultLast → putAll ⟨t, t.length⟩ s = .ok ⟨t ++ s, (t ++ s).length⟩) ∧
      (t.length ≤ resultLast → resultLast < (t ++ s).length → ∃ e, putAll ⟨t, t.length⟩ s = .error e) := by
  induction s generalizing t with
  | nil =>
    rw [append_nil]
    exact ⟨fun _ => rfl, fun hle hlt => absurd hlt (by omega)⟩
  | cons c cs ih =>
    have hsplit : t ++ c :: cs = (t ++ [c]) ++ cs := by rw [append_assoc]; rfl
    have hlen : (t ++ [c]).length = t.length + 1 := length_append
    obtain ⟨hput, hfail⟩ := ih (t ++ [c])
    have hall : (t ++ [c] ++ cs).length = t.length + 1 + cs.length := by rw [length_append, hlen]
    rw [putAll, hsplit, putChar]
    by_cases hfull : t.length + 1 ≤ resultLast
    · rw [if_pos hfull]
      rw [← hlen]
      exact ⟨hput, fun _ hlt => hfail (by omega) hlt⟩
    · rw [if_neg hfull]
      exact ⟨fun hle => absurd hle (by omega), fun _ _ => ⟨_, rfl⟩⟩

/-- **What `Normalize_Path` computes**: the capped stack behind the volume, if that fits. -/
theorem normalizePath_eq (path : List UInt8) :
    ((joined (volumePart path) (cappedRun maxComps ((fields path).map pathOp))).length ≤ resultLast →
      normalizePath path = .ok (joined (volumePart path) (cappedRun maxComps ((fields path).map pathOp)))) ∧
      (resultLast < (joined (volumePart path) (cappedRun maxComps ((fields path).map pathOp))).length →
        ∃ e, normalizePath path = .error e) := by
  obtain ⟨hput, hfail⟩ := putAll_eq [] (volumePart path)
  rw [nil_append, length_nil] at hput hfail
  have hge := joined_ge (volumePart path) (cappedRun maxComps ((fields path).map pathOp))
  rw [normalizePath, scan_path]
  by_cases hvolume : (volumePart path).length ≤ resultLast
  · have hcomps := putComps_eq (cappedRun maxComps ((fields path).map pathOp)) hvolume
    rw [hput hvolume]
    exact hcomps
  · obtain ⟨e, he⟩ := hfail (Nat.zero_le _) (by omega)
    refine ⟨fun hle => absurd hle (by omega), fun _ => ⟨e, ?_⟩⟩
    rw [he]
    rfl

/-! ## Against the canonical form -/

theorem joined_le (t comp : List UInt8) (comps : List (List UInt8)) :
    (joined t (comp :: comps)).length ≤ (led t).length + ([slash].intercalate (comp :: comps)).length := by
  induction comps generalizing t comp with
  | nil =>
    simp only [joined, intercalate_singleton, length_append, Nat.le_refl]
  | cons d ds ih =>
    have hrest := ih (led t ++ comp) d
    have hled := (led_length (led t ++ comp)).2
    rw [joined, intercalate_cons_cons]
    simp only [length_append, length_singleton] at hled hrest ⊢
    omega

/-- **When the separators are all there.** -/
theorem joined_eq_iff (t comp : List UInt8) (comps : List (List UInt8)) (hne : ∀ f ∈ comp :: comps, f ≠ []) :
    joined t (comp :: comps) = led t ++ [slash].intercalate (comp :: comps) ↔
      ∀ f ∈ (comp :: comps).dropLast, f.getLast? ≠ some colon := by
  induction comps generalizing t comp with
  | nil =>
    rw [joined, joined, intercalate_singleton]
    exact ⟨fun _ f hf => absurd hf not_mem_nil, fun _ => rfl⟩
  | cons d ds ih =>
    have hcomp : comp ≠ [] := hne comp mem_cons_self
    have hlast : (led t ++ comp).getLast? = comp.getLast? := by
      obtain ⟨c, hc⟩ := Option.ne_none_iff_exists'.mp fun h => hcomp (getLast?_eq_none_iff.mp h)
      rw [getLast?_append, hc]
      rfl
    have hnil : led t ++ comp ≠ [] := append_ne_nil_of_right_ne_nil _ hcomp
    rw [joined, intercalate_cons_cons, dropLast_cons_cons, forall_mem_cons]
    by_cases hcolon : comp.getLast? = some colon
    · -- the separator is missing, and the text is too short
      refine ⟨fun heq => ?_, fun h => absurd hcolon h.1⟩
      have hled : led (led t ++ comp) = led t ++ comp := by
        rw [led, if_neg]
        rw [hlast]
        exact fun hs => hs.2 hcolon
      have hle := joined_le (led t ++ comp) d ds
      rw [heq, hled] at hle
      simp only [length_append, length_singleton] at hle
      omega
    · have hled : led (led t ++ comp) = led t ++ comp ++ [slash] := by
        rw [led, if_pos ⟨hnil, by rw [hlast]; exact hcolon⟩]
      have hrest := ih (led t ++ comp) d fun f hf => hne f (mem_cons_of_mem _ hf)
      rw [hled] at hrest
      rw [← hrest, and_iff_right hcolon]
      simp only [append_assoc]

/-- The characters and separators of a row of components. -/
def weight (fs : List (List UInt8)) : Nat := (fs.map fun f => f.length + 1).sum

theorem intercalate_length (fs : List (List UInt8)) : ([slash].intercalate fs).length = weight fs - 1 := by
  cases fs with
  | nil => rfl
  | cons f fs =>
    induction fs generalizing f with
    | nil =>
      rw [intercalate_singleton]
      show f.length = f.length + 1 + 0 - 1
      omega
    | cons g gs ih =>
      have hrest := ih g
      have hpos : weight (g :: gs) = g.length + 1 + weight gs := rfl
      have hsum : weight (f :: g :: gs) = f.length + 1 + weight (g :: gs) := rfl
      rw [intercalate_cons_cons, length_append, length_append, hrest, hsum, length_singleton]
      omega

theorem weight_lt_of_lost {gs : List (List UInt8)} (h : Lost fs gs) : weight fs < weight gs := by
  have hsub : weight fs + gs.length ≤ weight gs + fs.length := by
    have hs := h.sub
    clear h
    induction hs with
    | slnil => exact Nat.le_refl _
    | @cons l1 l2 a _ ih =>
      have hw : weight (a :: l2) = a.length + 1 + weight l2 := rfl
      rw [hw, length_cons]
      omega
    | @cons_cons l1 l2 a _ ih =>
      have hw : weight (a :: l2) = a.length + 1 + weight l2 := rfl
      have hw' : weight (a :: l1) = a.length + 1 + weight l1 := rfl
      rw [hw, hw', length_cons, length_cons]
      omega
  have hlt := h.shorter
  omega

theorem led_volumePart (path : List UInt8) : led (volumePart path) = volumePart path := by
  have hlast : volumePart path = [] ∨ (volumePart path).getLast? = some colon := by
    induction path with
    | nil => exact .inl rfl
    | cons c cs ih =>
      rw [volumePart]
      split
      · next hc =>
        rw [hc]
        exact .inr rfl
      · split
        · next hmem =>
          have hne : volumePart cs ≠ [] := by
            cases cs with
            | nil => exact absurd hmem not_mem_nil
            | cons d ds =>
              rw [volumePart]
              split
              · exact cons_ne_nil _ _
              · next hd =>
                rw [if_pos ((mem_cons.mp hmem).resolve_left fun heq => hd heq.symm)]
                exact cons_ne_nil _ _
          refine .inr ?_
          rw [getLast?_cons_of_ne_nil hne]
          exact ih.resolve_left hne
        · exact .inl rfl
  rw [led, if_neg]
  rintro ⟨hne, hcolon⟩
  exact hcolon (hlast.resolve_left hne)

/-- **The row the function puts together is the canonical one**, exactly when the stack was shallow and no separator
    is missing. -/
theorem joined_canonical_iff (path : List UInt8) :
    joined (volumePart path) (cappedRun maxComps ((fields path).map pathOp)) = canonicalPath path ↔
      Shallow maxComps ((fields path).map pathOp) ∧ ∀ f ∈ (pathStack path).dropLast, f.getLast? ≠ some colon := by
  have hplain : ∀ f ∈ pathStack path, f ≠ [] := fun f hf => (mem_pathStack hf).2.1
  rcases cappedRun_cases maxComps ((fields path).map pathOp) with ⟨hshallow, -, hsame⟩ | ⟨hdeep, hlost⟩
  · rw [hsame, and_iff_right hshallow]
    show joined _ (pathStack path) = volumePart path ++ _ ↔ _
    cases hstack : pathStack path with
    | nil =>
      rw [joined, intercalate_nil, append_nil]
      exact ⟨fun _ f hf => absurd hf not_mem_nil, fun _ => rfl⟩
    | cons f fs =>
      rw [hstack] at hplain
      have hiff := joined_eq_iff (volumePart path) f fs hplain
      rw [led_volumePart] at hiff
      exact hiff
  · refine ⟨fun heq => ?_, fun h => absurd h.1 hdeep⟩
    -- fewer components give a shorter text
    exfalso
    have hweight := weight_lt_of_lost hlost
    have hfull : weight (pathStack path) = weight (stackRun ((fields path).map pathOp)) := rfl
    have hlen := congrArg length heq
    rw [canonicalPath, length_append, intercalate_length, hfull] at hlen
    obtain ⟨g, gs, hgs⟩ : ∃ g gs, pathStack path = g :: gs :=
      exists_cons_of_length_pos (Nat.lt_of_le_of_lt (Nat.zero_le _) hlost.shorter)
    have hheavy : 2 ≤ weight (pathStack path) := by
      have hg := length_pos_iff.mpr (hplain g (by rw [hgs]; exact mem_cons_self))
      have hw : weight (g :: gs) = g.length + 1 + weight gs := rfl
      rw [hgs, hw]
      omega
    cases hcapped : cappedRun maxComps ((fields path).map pathOp) with
    | nil =>
      rw [hcapped, joined] at hlen
      omega
    | cons f fs =>
      rw [hcapped] at hlen hweight
      have hle := joined_le (volumePart path) f fs
      rw [led_volumePart, intercalate_length] at hle
      omega

/-! ## The canonical form is its own -/

theorem volumePart_append (path : List UInt8) (h : volumePart path ≠ []) (s : List UInt8) :
    volumePart (volumePart path ++ s) = volumePart path := by
  have hmem : ∀ p : List UInt8, volumePart p ≠ [] → colon ∈ volumePart p := by
    intro p hp
    have hl := led_volumePart p
    rw [led] at hl
    split at hl
    · have hlen := congrArg length hl
      rw [length_append] at hlen
      exact absurd hlen (Nat.succ_ne_self _)
    · next hno =>
      have hlast : (volumePart p).getLast? = some colon := by
        by_contra hc
        exact hno ⟨hp, hc⟩
      exact mem_of_getLast? hlast
  induction path with
  | nil => exact absurd rfl h
  | cons c cs ih =>
    rw [volumePart] at h ⊢
    split
    · next hc =>
      show volumePart (c :: s) = [c]
      rw [volumePart, if_pos hc]
    · next hc =>
      rw [if_neg hc] at h
      split
      · next hcs =>
        have hne : volumePart cs ≠ [] := by
          intro hnil
          obtain ⟨d, ds, rfl⟩ := exists_cons_of_ne_nil (ne_nil_of_mem hcs)
          rw [volumePart] at hnil
          split at hnil
          · cases hnil
          · next hd =>
            rw [if_pos ((mem_cons.mp hcs).resolve_left fun heq => hd heq.symm)] at hnil
            cases hnil
        show volumePart (c :: (volumePart cs ++ s)) = _
        rw [volumePart, if_neg hc, if_pos (mem_append_left _ (hmem cs hne)), ih hne]
      · next hcs =>
        rw [if_neg hcs] at h
        exact absurd rfl h

theorem volumePart_none (h : colon ∉ s) : volumePart s = [] := by
  cases s with
  | nil => rfl
  | cons c cs =>
    rw [mem_cons, not_or] at h
    rw [volumePart, if_neg fun hc => h.1 hc.symm, if_neg h.2]

theorem not_mem_of_volumePart (h : volumePart path = []) : colon ∉ path := by
  intro hmem
  obtain ⟨d, ds, rfl⟩ := exists_cons_of_ne_nil (ne_nil_of_mem hmem)
  rw [volumePart] at h
  split at h
  · cases h
  · next hd =>
    rw [if_pos ((mem_cons.mp hmem).resolve_left fun heq => hd heq.symm)] at h
    cases h

theorem mem_intercalate (h : c ∈ [slash].intercalate fs) : c = slash ∨ ∃ f ∈ fs, c ∈ f := by
  cases fs with
  | nil => exact absurd h not_mem_nil
  | cons f fs =>
    induction fs generalizing f with
    | nil =>
      rw [intercalate_singleton] at h
      exact .inr ⟨f, mem_cons_self, h⟩
    | cons g gs ih =>
      rw [intercalate_cons_cons] at h
      rcases mem_append.mp h with h | h
      · rcases mem_append.mp h with h | h
        · exact .inr ⟨f, mem_cons_self, h⟩
        · exact .inl (mem_singleton.mp h)
      · rcases ih g h with hs | ⟨k, hk, hc⟩
        · exact .inl hs
        · exact .inr ⟨k, mem_cons_of_mem _ hk, hc⟩

/-- **The canonical form names the same volume.** -/
theorem volumePart_canonical (path : List UInt8) : volumePart (canonicalPath path) = volumePart path := by
  by_cases h : volumePart path = []
  · rw [canonicalPath, h, nil_append]
    apply volumePart_none
    intro hmem
    rcases mem_intercalate hmem with hs | ⟨f, hf, hc⟩
    · exact absurd hs (by decide)
    · have hpath := (mem_splitOn (mem_fields (mem_pathStack hf).1) hc).1
      exact not_mem_of_volumePart h (mem_of_mem_drop hpath)
  · exact volumePart_append path h _

/-- **Its components are the stack.** -/
theorem fields_canonical (path : List UInt8) : fields (canonicalPath path) = pathStack path := by
  have hpart : componentPart (canonicalPath path) = [slash].intercalate (pathStack path) := by
    rw [componentPart, volumePart_canonical, canonicalPath, drop_left]
  rw [fields, hpart]
  by_cases hnil : pathStack path = []
  · rw [hnil]
    rfl
  · have hsplit : ([slash].intercalate (pathStack path)).splitOn slash = pathStack path := by
      apply splitOn_intercalate
      · intro f hf hc
        exact (mem_splitOn (mem_fields (mem_pathStack hf).1) hc).2 rfl
      · exact hnil
    rw [hsplit, if_neg]
    intro hlast
    exact (mem_pathStack (mem_of_getLast? hlast)).2.1 rfl

theorem pathOp_plain (h : f ≠ [] ∧ f ≠ dotdot) : pathOp f = some f := by
  rw [pathOp, if_neg (not_or.mpr h)]

theorem map_pathOp_canonical (path : List UInt8) :
    (fields (canonicalPath path)).map pathOp = (pathStack path).map some := by
  rw [fields_canonical]
  exact map_congr_left fun f hf => pathOp_plain (mem_pathStack hf).2

theorem pathStack_canonical (path : List UInt8) : pathStack (canonicalPath path) = pathStack path := by
  rw [pathStack, map_pathOp_canonical, stackRun_pushes]

theorem canonicalPath_canonical (path : List UInt8) : canonicalPath (canonicalPath path) = canonicalPath path := by
  rw [canonicalPath, volumePart_canonical, pathStack_canonical]
  rfl

theorem shallow_pushes (h : fs.length ≤ maxComps) : Shallow maxComps (fs.map some) := by
  refine ⟨[], fs.map some, rfl, rfl, fun zs hzs => ?_⟩
  obtain ⟨gs, hgs, rfl⟩ := prefix_map_iff.mp hzs
  rw [nil_append, stackRun_pushes]
  exact Nat.le_trans hgs.length_le h

theorem Fits.canonical (h : Fits path) : Fits (canonicalPath path) := by
  have hdepth : (pathStack path).length ≤ maxComps := by
    rcases cappedRun_cases maxComps ((fields path).map pathOp) with ⟨-, hle, -⟩ | ⟨hdeep, -⟩
    · exact hle
    · exact absurd h.shallow hdeep
  refine ⟨?_, ?_, ?_⟩
  · rw [map_pathOp_canonical]
    exact shallow_pushes hdepth
  · rw [pathStack_canonical]
    exact h.colons
  · rw [canonicalPath_canonical]
    exact h.length

theorem Fits.answers (h : Fits path) : normalizePath path = .ok (canonicalPath path) := by
  have heq := (joined_canonical_iff path).mpr ⟨h.shallow, h.colons⟩
  have hrun := (normalizePath_eq path).1
  rw [heq] at hrun
  exact hrun h.length

/-- **`Normalize_Path` is canonical, exactly when the path fits.** -/
theorem normalizePath_canonical_iff (path : List UInt8) : Canonical path ↔ Fits path := by
  constructor
  · intro h
    obtain ⟨hput, hfail⟩ := normalizePath_eq path
    by_cases hle : (joined (volumePart path) (cappedRun maxComps ((fields path).map pathOp))).length ≤ resultLast
    · have heq : joined (volumePart path) (cappedRun maxComps ((fields path).map pathOp)) = canonicalPath path :=
        Except.ok.inj ((hput hle).symm.trans h.answers)
      obtain ⟨hshallow, hcolons⟩ := (joined_canonical_iff path).mp heq
      rw [heq] at hle
      exact ⟨hshallow, hcolons, hle⟩
    · obtain ⟨e, he⟩ := hfail (by omega)
      rw [h.answers] at he
      cases he
  · intro h
    have hagain := h.canonical.answers
    rw [canonicalPath_canonical] at hagain
    refine ⟨h.answers, hagain, volumePart_canonical path, ?_⟩
    rw [fields_canonical]
    exact fun f hf => (mem_pathStack hf).2

/-- `v:` and 17 components `a`: the last one is dropped. -/
def seventeen : List UInt8 := [0x76, colon] ++ [slash].intercalate (replicate 17 [0x61])

theorem seventeenth_is_dropped : ¬ ∀ path, Canonical path := by
  intro h
  have hanswer := (h seventeen).answers
  have hlen : (canonicalPath seventeen).length = 35 := by decide +kernel
  have hrun : (normalizePath seventeen).map length = .ok 33 := by decide +kernel
  rw [hanswer] at hrun
  have h33 : (canonicalPath seventeen).length = 33 := Except.ok.inj hrun
  omega

end Aegir.Cli
