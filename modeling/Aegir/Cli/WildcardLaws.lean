/-
  The matcher, token by token.

  `codeLang p` is what `MS` accepts of a pattern.  Before any pattern, a token makes of it what the language of the
  token makes of a language (`codeLang_token`), and what cannot be read at its head is accepted nowhere, but for a `#`
  before a trailing escape.
-/
import Aegir.Cli.Wildcard

namespace Aegir.Cli.Wildcard

open Aegir.Lib Computability List Option

/-! ## Groups -/

variable {c : UInt8} {a cs inner rest : List UInt8} {alts : List (List UInt8)}

theorem groupEnd_cons (hescape : c ≠ escape) (hclosing : c ≠ closing) (y : List UInt8) :
    groupEnd (c :: y) = (groupEnd y).map fun x => (c :: x.1, x.2) := by
  cases y with
  | nil =>
    show (if c = closing then some ([], []) else none) = none
    rw [if_neg hclosing]
  | cons d cs => rw [groupEnd, if_neg hescape, if_neg hclosing]

theorem groupEnd_escape (d : UInt8) (y : List UInt8) :
    groupEnd (escape :: d :: y) = (groupEnd y).map fun x => (escape :: d :: x.1, x.2) := by
  rw [groupEnd, if_pos rfl]

theorem groupEnd_closing (y : List UInt8) : groupEnd (closing :: y) = some ([], y) := by
  cases y with
  | nil => rw [groupEnd, if_pos rfl]
  | cons d cs => rw [groupEnd, if_neg (by decide), if_pos rfl]

theorem groupEnd_altText (h : AltText a) (y : List UInt8) :
    groupEnd (a ++ y) = (groupEnd y).map fun x => (a ++ x.1, x.2) := by
  induction h with
  | nil =>
    show groupEnd y = (groupEnd y).map fun x => x
    rw [Option.map_id']
  | @plain a c hbar hclosing hescape h ih =>
    rw [cons_append, groupEnd_cons hescape hclosing, ih, Option.map_map]
    rfl
  | escaped c h ih =>
    rw [cons_append, cons_append, groupEnd_escape, ih, Option.map_map]
    rfl

/-- **A group ends at its bracket.** -/
theorem groupEnd_alts {g : List UInt8} (h : Alts g alts) (rest : List UInt8) :
    groupEnd (g ++ closing :: rest) = some (g, rest) := by
  induction h with
  | @one a h => rw [groupEnd_altText h, groupEnd_closing, map_some, append_nil]
  | @more a g as h hs ih =>
    rw [append_assoc, groupEnd_altText h, cons_append, groupEnd_cons (by decide) (by decide), ih,
      map_some, map_some]

/-- **What stands in a group are alternatives.** -/
theorem groupEnd_sound (h : groupEnd cs = some (inner, rest)) :
    cs = inner ++ closing :: rest ∧ ∃ alts, Alts inner alts := by
  induction hn : cs.length using Nat.strongRecOn generalizing cs inner with
  | ind n ih =>
    cases cs with
    | nil =>
      cases h
    | cons c y =>
      by_cases hclosing : c = closing
      · rw [hclosing, groupEnd_closing] at h
        cases h
        exact ⟨by rw [hclosing]; rfl, [[]], .one .nil⟩
      · by_cases hescape : c = escape
        · subst hescape
          cases y with
          | nil =>
            cases h
          | cons d ds =>
            obtain ⟨⟨inner', rest'⟩, hsome, hpair⟩ := map_eq_some_iff.mp h
            cases hpair
            have hlen : ds.length < n := by
              rw [← hn, length_cons, length_cons]
              omega
            obtain ⟨hds, alts, halts⟩ := ih ds.length hlen hsome rfl
            refine ⟨by rw [hds]; rfl, ?_⟩
            cases halts with
            | one ha => exact ⟨_, .one (.escaped d ha)⟩
            | more ha hs => exact ⟨_, .more (.escaped d ha) hs⟩
        · rw [groupEnd_cons hescape hclosing] at h
          obtain ⟨⟨inner', rest'⟩, hsome, hpair⟩ := map_eq_some_iff.mp h
          cases hpair
          have hlen : y.length < n := by
            rw [← hn, length_cons]
            omega
          obtain ⟨hy, alts, halts⟩ := ih y.length hlen hsome rfl
          refine ⟨by rw [hy]; rfl, ?_⟩
          by_cases hbar : c = bar
          · rw [hbar]
            exact ⟨_, .more .nil halts⟩
          · cases halts with
            | one ha => exact ⟨_, .one (.plain hbar hclosing hescape ha)⟩
            | more ha hs => exact ⟨_, .more (.plain hbar hclosing hescape ha) hs⟩

theorem alternatives_cons (hbar : c ≠ bar) (hescape : c ≠ escape) (alt y : List UInt8) :
    alternatives alt (c :: y) = alternatives (alt ++ [c]) y := by
  cases y with
  | nil =>
    show (if c = bar then [alt, []] else [alt ++ [c]]) = [alt ++ [c]]
    rw [if_neg hbar]
  | cons d cs => rw [alternatives, if_neg hbar, if_neg hescape]

theorem alternatives_escape (alt : List UInt8) (d : UInt8) (y : List UInt8) :
    alternatives alt (escape :: d :: y) = alternatives (alt ++ [escape, d]) y := by
  rw [alternatives, if_neg (by decide), if_pos rfl]

theorem alternatives_bar (alt y : List UInt8) : alternatives alt (bar :: y) = alt :: alternatives [] y := by
  cases y with
  | nil => rfl
  | cons d cs => rw [alternatives, if_pos rfl]

theorem alternatives_altText (h : AltText a) (alt y : List UInt8) :
    alternatives alt (a ++ y) = alternatives (alt ++ a) y := by
  induction h generalizing alt with
  | nil => rw [nil_append, append_nil]
  | @plain a c hbar hclosing hescape h ih =>
    rw [cons_append, alternatives_cons hbar hescape, ih, append_assoc]
    rfl
  | escaped c h ih =>
    rw [cons_append, cons_append, alternatives_escape, ih, append_assoc]
    rfl

/-- **The slices are the alternatives.** -/
theorem alternatives_eq {g : List UInt8} (h : Alts g alts) : alternatives [] g = alts := by
  induction h with
  | @one a h =>
    have hrun := alternatives_altText h [] []
    rw [append_nil] at hrun
    rw [hrun, alternatives, nil_append]
  | @more a g as h hs ih => rw [alternatives_altText h, alternatives_bar, ih, nil_append]

/-! ## Levels -/

variable {item s p : List UInt8} {m m' : List UInt8 → List UInt8 → Bool} {n : Nat}

theorem groupEnd_length (h : groupEnd cs = some (inner, rest)) : inner.length + rest.length + 1 = cs.length := by
  rw [(groupEnd_sound h).1, length_append, length_cons]
  omega

theorem alts_length {g : List UInt8} (h : Alts g alts) (ha : a ∈ alts) : a.length ≤ g.length := by
  induction h with
  | one h =>
    rw [mem_singleton.mp ha]
  | @more b g as h hs ih =>
    rw [length_append, length_cons]
    rcases mem_cons.mp ha with rfl | ha
    · omega
    · have hle := ih ha
      omega

theorem afterItem_length {after : List UInt8} (h : afterItem item = some after) : after.length < item.length := by
  cases item with
  | nil => cases h
  | cons c cs =>
    rw [afterItem] at h
    split at h
    · obtain ⟨⟨inner, rest⟩, hsome, rfl⟩ := map_eq_some_iff.mp h
      have hlen := groupEnd_length hsome
      rw [length_cons]
      show rest.length < _
      omega
    · split at h
      · cases h
        rw [length_drop, length_cons]
        omega
      · cases h
        exact Nat.lt_succ_self _

theorem any_congr_mem {α : Type} {f g : α → Bool} {l : List α} (h : ∀ a ∈ l, f a = g a) : l.any f = l.any g := by
  induction l with
  | nil => rfl
  | cons a l ih =>
    rw [any_cons, any_cons, h a mem_cons_self, ih fun b hb => h b (mem_cons_of_mem _ hb)]

/-- Two matchers agree on slices of fewer than `n` characters. -/
def Agree (n : Nat) (m m' : List UInt8 → List UInt8 → Bool) : Prop :=
  ∀ q t, q.length + t.length < n → m q t = m' q t

theorem groupMatch_agree (h : Agree n m m') (hend : groupEnd cs = some (inner, rest)) (hn : inner.length + s.length < n) :
    groupMatch m inner s = groupMatch m' inner s := by
  obtain ⟨-, alts, halts⟩ := groupEnd_sound hend
  apply any_congr_mem
  intro a ha
  rw [alternatives_eq halts] at ha
  have hle := alts_length halts ha
  exact h a s (by omega)

theorem itemMatch_agree (h : Agree n m m')
    (hn : item.length + s.length ≤ n) : itemMatch m item s = itemMatch m' item s := by
  cases item with
  | nil => rfl
  | cons c cs =>
    rw [itemMatch.eq_def, itemMatch.eq_def]
    dsimp only
    by_cases hc : c = opening
    · rw [if_pos hc, if_pos hc]
      cases hend : groupEnd cs with
      | none => rfl
      | some x =>
        have hlen := groupEnd_length hend
        rw [length_cons] at hn
        exact groupMatch_agree h hend (by omega)
    · rw [if_neg hc, if_neg hc]

theorem msStep_agree (h : Agree (p.length + s.length) m m') : msStep m p s = msStep m' p s := by
  cases p with
  | nil => rfl
  | cons c cs =>
    rw [length_cons] at h
    have hdrop : ∀ k, (s.drop k).length = s.length - k := fun k => length_drop
    have htake : ∀ k, (s.take k).length ≤ s.length := fun k => length_take_le' _ _
    rw [msStep.eq_def, msStep.eq_def]
    dsimp only
    by_cases hescape : c = escape
    · rw [if_pos hescape, if_pos hescape]
      cases cs with
      | nil => rfl
      | cons d ds =>
        cases s with
        | nil => rfl
        | cons x xs =>
          dsimp only
          rw [h ds xs (by simp only [length_cons]; omega)]
    rw [if_neg hescape, if_neg hescape]
    by_cases hquestion : c = question
    · rw [if_pos hquestion, if_pos hquestion]
      cases s with
      | nil => rfl
      | cons x xs => exact h cs xs (by simp only [length_cons]; omega)
    rw [if_neg hquestion, if_neg hquestion]
    by_cases hpercent : c = percent
    · rw [if_pos hpercent, if_pos hpercent]
      exact h cs s (by omega)
    rw [if_neg hpercent, if_neg hpercent]
    by_cases htilde : c = tilde
    · rw [if_pos htilde, if_pos htilde, h cs s (by omega)]
    rw [if_neg htilde, if_neg htilde]
    by_cases hopening : c = opening
    · rw [if_pos hopening, if_pos hopening]
      cases hend : groupEnd cs with
      | none => rfl
      | some x =>
        obtain ⟨inner, rest⟩ := x
        have hlen := groupEnd_length hend
        apply any_congr_mem
        intro k _
        have ht := htake k
        have hd := hdrop k
        rw [groupMatch_agree h hend (by omega), h rest (s.drop k) (by omega)]
    rw [if_neg hopening, if_neg hopening]
    by_cases hstar : c = star
    · rw [if_pos hstar, if_pos hstar, h cs s (by omega)]
      cases s with
      | nil => rfl
      | cons x xs =>
        dsimp only
        rw [h (c :: cs) xs (by simp only [length_cons]; omega)]
    rw [if_neg hstar, if_neg hstar]
    by_cases hhash : c = hash
    · rw [if_pos hhash, if_pos hhash]
      cases hafter : afterItem cs with
      | none => rfl
      | some after =>
        have hlen := afterItem_length hafter
        dsimp only
        rw [h after s (by omega)]
        congr 1
        apply any_congr_mem
        intro k hk
        obtain ⟨hk, -⟩ := mem_filter.mp hk
        obtain ⟨i, hi, rfl⟩ := mem_map.mp hk
        have hi := mem_range.mp hi
        have ht := htake (i + 1)
        have hd := hdrop (i + 1)
        rw [itemMatch_agree h (by omega), h (c :: cs) (s.drop (i + 1)) (by rw [length_cons]; omega)]
    rw [if_neg hhash, if_neg hhash]
    cases s with
    | nil => rfl
    | cons x xs =>
      dsimp only
      rw [h cs xs (by simp only [length_cons]; omega)]

/-- **There are levels enough.** -/
theorem msAt_eq (n levels : Nat) (h : n ≤ levels) : Agree n (msAt levels) (msAt n) := by
  induction n generalizing levels with
  | zero => exact fun q t hlt => absurd hlt (Nat.not_lt_zero _)
  | succ n ih =>
    intro q t hlt
    obtain ⟨levels, rfl⟩ := Nat.exists_eq_succ_of_ne_zero (by omega : levels ≠ 0)
    apply msStep_agree
    intro q' t' hlt'
    exact ih levels (by omega) q' t' (by omega)

theorem ms_ends {levels : Nat} (h : p.length + s.length < levels) : msAt levels p s = ms p s :=
  msAt_eq _ _ h p s (Nat.lt_succ_self _)

/-- **`MS` is its body.** -/
theorem ms_eq (p s : List UInt8) : ms p s = msStep ms p s := by
  apply msStep_agree
  intro q t hlt
  exact ms_ends hlt

end Aegir.Cli.Wildcard
