/-
  What a pattern matches.

  Token by token, the matcher makes of a language what the token means (`codeLang_token`).  So a pattern that can be
  read matches its language, if its alternatives do.  What cannot be read is matched nowhere as long as no `~` turns
  that round, and no `#` takes a trailing escape for an item.
-/
import Aegir.Cli.WildcardLaws

namespace Aegir.Cli.Wildcard

open Aegir.Lib Computability List

/-! ## One character at a time -/

section Heads

variable (cs s : List UInt8)

theorem ms_nil : ms [] s = s.isEmpty := ms_eq _ _

theorem ms_escape (d : UInt8) :
    ms (escape :: d :: cs) s = match s with | [] => false | x :: xs => up x == up d && ms cs xs := by
  rw [ms_eq]
  cases s <;> rfl

theorem ms_question : ms (question :: cs) s = match s with | [] => false | _ :: xs => ms cs xs := by
  rw [ms_eq]
  cases s <;> rfl

theorem ms_percent : ms (percent :: cs) s = ms cs s := by
  rw [ms_eq]
  rfl

theorem ms_tilde : ms (tilde :: cs) s = !ms cs s := by
  rw [ms_eq]
  rfl

theorem ms_opening : ms (opening :: cs) s =
      match groupEnd cs with
      | none => false
      | some (inner, rest) =>
        (range (s.length + 1)).any fun k => groupMatch ms inner (s.take k) && ms rest (s.drop k) := by
  rw [ms_eq]
  rfl

theorem ms_star : ms (star :: cs) s = (ms cs s || match s with | [] => false | _ :: xs => ms (star :: cs) xs) := by
  rw [ms_eq]
  rfl

theorem ms_hash : ms (hash :: cs) s =
      match afterItem cs with
      | none => false
      | some after =>
        ms after s ||
          (repetitions cs s).any fun k => itemMatch ms cs (s.take k) && ms (hash :: cs) (s.drop k) := by
  exact (ms_eq _ _).trans rfl

theorem ms_char {c : UInt8} (h : ¬ StartsItem c) (hstar : c ≠ star) (htilde : c ≠ tilde) (hhash : c ≠ hash) :
    ms (c :: cs) s = match s with | [] => false | x :: xs => up x == up c && ms cs xs := by
  rw [StartsItem, not_or, not_or, not_or] at h
  obtain ⟨hquestion, hpercent, hescape, hopening⟩ := h
  rw [ms_eq, msStep.eq_def]
  dsimp only
  refine (if_neg hescape).trans ((if_neg hquestion).trans ((if_neg hpercent).trans ((if_neg htilde).trans
    ((if_neg hopening).trans ((if_neg hstar).trans ((if_neg hhash).trans ?_))))))
  cases s <;> rfl

end Heads

/-! ## Languages of the code -/

variable {p g w : List UInt8} {alts : List (List UInt8)} {i : Item} {t : Token}

/-- What `MS` accepts of a pattern. -/
def codeLang (p : List UInt8) : Language UInt8 := {s | ms p s = true}

/-- What `Group_Match` accepts of alternatives. -/
def codeGroup (alts : List (List UInt8)) : Language UInt8 := {s | ∃ alt ∈ alts, ms alt s = true}

theorem mem_codeLang {s : List UInt8} : s ∈ codeLang p ↔ ms p s = true := Iff.rfl

theorem codeLang_nil : codeLang [] = 1 := by
  ext s
  rw [mem_codeLang, ms_nil, List.isEmpty_iff, Language.mem_one]

theorem globMatch_eq (p s : List UInt8) : globMatch p s = ms p s := by
  rw [globMatch]
  split
  · next h =>
    rw [eq_nil_of_length_eq_zero h, ms_nil]
    cases s <;> rfl
  · rfl

theorem groupMatch_iff {s : List UInt8} (h : Alts g alts) : groupMatch ms g s = true ↔ s ∈ codeGroup alts := by
  rw [groupMatch, alternatives_eq h, any_eq_true]
  rfl

/-- The single characters with a property. -/
def singles (P : UInt8 → Prop) : Language UInt8 := {t | ∃ d, t = [d] ∧ P d}

theorem mem_single_mul {P : UInt8 → Prop} {M : Language UInt8} {s : List UInt8} :
    s ∈ singles P * M ↔ ∃ x xs, s = x :: xs ∧ P x ∧ xs ∈ M := by
  constructor
  · rintro ⟨a, ⟨d, rfl, hd⟩, b, hb, rfl⟩
    exact ⟨d, b, rfl, hd, hb⟩
  · rintro ⟨x, xs, rfl, hx, hxs⟩
    exact ⟨[x], ⟨x, rfl, hx⟩, xs, hxs, rfl⟩

theorem head_iff {f : UInt8 → List UInt8 → Bool} {s : List UInt8} :
    (match s with | [] => false | x :: xs => f x xs) = true ↔ ∃ x xs, s = x :: xs ∧ f x xs = true := by
  cases s with
  | nil =>
    refine ⟨fun h => (by cases h), ?_⟩
    rintro ⟨x, xs, heq, -⟩
    cases heq
  | cons x xs =>
    refine ⟨fun h => ⟨x, xs, rfl, h⟩, ?_⟩
    rintro ⟨y, ys, heq, h⟩
    cases heq
    exact h

theorem char_iff {c : UInt8} {cs s : List UInt8} :
    (match s with | [] => false | x :: xs => up x == up c && ms cs xs) = true ↔
      s ∈ (Item.char c).lang codeGroup * codeLang cs := by
  rw [head_iff]
  show _ ↔ s ∈ singles (fun d => up d = up c) * codeLang cs
  rw [mem_single_mul]
  refine exists_congr fun x => exists_congr fun xs => and_congr_right fun _ => ?_
  rw [Bool.and_eq_true, beq_iff_eq]
  rfl

/-- **An item before a pattern.** -/
theorem codeLang_item (h : ReadsItem w i) (p : List UInt8) :
    codeLang (w ++ p) = i.lang codeGroup * codeLang p := by
  ext s
  rw [mem_codeLang]
  cases h with
  | one =>
    show ms (question :: p) s = true ↔ _
    rw [ms_question, head_iff]
    have hone : Item.one.lang codeGroup = singles fun _ => True := by
      ext t
      show (∃ d, t = [d]) ↔ ∃ d, t = [d] ∧ True
      simp only [and_true]
    rw [hone, mem_single_mul]
    simp only [true_and]
    rfl
  | empty =>
    show ms (percent :: p) s = true ↔ s ∈ 1 * codeLang p
    rw [ms_percent, one_mul]
    rfl
  | escaped c =>
    show ms (escape :: c :: p) s = true ↔ _
    rw [ms_escape]
    exact char_iff
  | @group g alts h =>
    have htext : opening :: (g ++ [closing]) ++ p = opening :: (g ++ closing :: p) := by
      rw [cons_append, append_assoc]
      rfl
    rw [htext, ms_opening, groupEnd_alts h]
    rw [any_eq_true, mem_mul_iff_cut]
    refine exists_congr fun k => and_congr ?_ ?_
    · rw [mem_range, Nat.lt_succ_iff]
    · rw [Bool.and_eq_true, groupMatch_iff h]
      rfl

theorem codeLang_any (p : List UInt8) : codeLang (star :: p) = ⊤ * codeLang p := by
  ext s
  rw [mem_codeLang, mem_top_mul_iff]
  induction s with
  | nil =>
    rw [ms_star, Bool.or_false]
    constructor
    · intro h
      exact ⟨0, Nat.le_refl _, h⟩
    · rintro ⟨k, -, h⟩
      rwa [drop_nil] at h
  | cons x xs ih =>
    rw [ms_star, Bool.or_eq_true]
    rw [ih]
    constructor
    · rintro (h | ⟨k, hk, h⟩)
      · exact ⟨0, Nat.zero_le _, h⟩
      · exact ⟨k + 1, Nat.succ_le_succ hk, h⟩
    · rintro ⟨k, hk, h⟩
      cases k with
      | zero => exact .inl h
      | succ k => exact .inr ⟨k, Nat.le_of_succ_le_succ hk, h⟩

/-- What the loop over repetitions needs of an item: where it ends, what one repetition is, and how long. -/
structure Repeats (item : List UInt8) (L : Language UInt8) (p : List UInt8) : Prop where
  after : afterItem item = some p
  one : ∀ s, itemMatch ms item s = true ↔ s ∈ L
  short : ∀ s, s ∈ L → s.length ≤ 1 ∨ item.head? = some opening

theorem repeats_item (h : ReadsItem w i) (p : List UInt8) : Repeats (w ++ p) (i.lang codeGroup) p := by
  cases h with
  | one =>
    refine ⟨rfl, fun s => ?_, ?_⟩
    · show (s.length == 1) = true ↔ ∃ d, s = [d]
      rw [beq_iff_eq, length_eq_one_iff]
    · rintro s ⟨d, rfl⟩
      exact .inl (Nat.le_refl _)
  | empty =>
    refine ⟨rfl, fun s => ?_, ?_⟩
    · show s.isEmpty = true ↔ s ∈ (1 : Language UInt8)
      rw [List.isEmpty_iff, Language.mem_one]
    · intro s hs
      rw [show s = [] from hs]
      exact .inl (Nat.zero_le _)
  | escaped c =>
    refine ⟨rfl, fun s => ?_, ?_⟩
    · show itemMatch ms (escape :: c :: p) s = true ↔ ∃ d, s = [d] ∧ up d = up c
      rw [itemMatch.eq_def]
      dsimp only
      rw [if_neg (by decide), if_pos rfl]
      cases s with
      | nil => simp
      | cons x xs =>
        cases xs with
        | nil => simp
        | cons y ys => simp
    · rintro s ⟨d, rfl, -⟩
      exact .inl (Nat.le_refl _)
  | @group g alts h =>
    have htext : opening :: (g ++ [closing]) ++ p = opening :: (g ++ closing :: p) := by
      rw [cons_append, append_assoc]
      rfl
    rw [htext]
    refine ⟨?_, fun s => ?_, fun s _ => .inr rfl⟩
    · rw [afterItem, if_pos rfl, groupEnd_alts h]
      rfl
    · rw [itemMatch.eq_def]
      dsimp only
      rw [if_pos rfl, groupEnd_alts h]
      exact groupMatch_iff h

theorem repeats_char {c : UInt8} (h : ¬ StartsItem c) (p : List UInt8) :
    Repeats (c :: p) ((Item.char c).lang codeGroup) p := by
  rw [StartsItem, not_or, not_or, not_or] at h
  obtain ⟨hquestion, hpercent, hescape, hopening⟩ := h
  refine ⟨?_, fun s => ?_, ?_⟩
  · rw [afterItem, if_neg hopening, if_neg hescape]
  · rw [itemMatch.eq_def]
    dsimp only
    rw [if_neg hopening, if_neg hescape, if_neg hquestion, if_neg hpercent]
    show _ ↔ ∃ d, s = [d] ∧ up d = up c
    cases s with
    | nil => simp
    | cons x xs =>
      cases xs with
      | nil => simp
      | cons y ys => simp
  · rintro s ⟨d, rfl, -⟩
    exact .inl (Nat.le_refl _)

/-- **Repetitions before a pattern.** -/
theorem codeLang_rep {item : List UInt8} {L : Language UInt8} (h : Repeats item L p) :
    codeLang (hash :: item) = L∗ * codeLang p := by
  ext s
  rw [mem_codeLang]
  induction hn : s.length using Nat.strongRecOn generalizing s with
  | ind n ih =>
    rw [ms_hash, h.after, mem_kstar_mul_iff]
    rw [Bool.or_eq_true, any_eq_true]
    refine or_congr_right ?_
    have hrest : ∀ k, 0 < k → k ≤ s.length → (ms (hash :: item) (s.drop k) = true ↔ s.drop k ∈ L∗ * codeLang p) := by
      intro k hk hle
      have hlen : (s.drop k).length = s.length - k := length_drop
      exact ih (s.drop k).length (by omega) (s.drop k) rfl
    constructor
    · rintro ⟨k, hmem, hboth⟩
      obtain ⟨hmem, -⟩ := mem_filter.mp hmem
      obtain ⟨i, hi, rfl⟩ := mem_map.mp hmem
      have hi := mem_range.mp hi
      rw [Bool.and_eq_true, h.one, hrest (i + 1) (Nat.succ_pos _) hi] at hboth
      exact ⟨i + 1, Nat.succ_pos _, hi, hboth⟩
    · rintro ⟨k, hk, hle, hfirst, hlast⟩
      refine ⟨k, mem_filter.mpr ⟨mem_map.mpr ⟨k - 1, mem_range.mpr (by omega), by omega⟩, ?_⟩, ?_⟩
      · have hlen : (s.take k).length = k := length_take_of_le hle
        rcases h.short _ hfirst with hshort | hgroup
        · have hone : k = 1 := by omega
          rw [hone, beq_self_eq_true, Bool.or_true]
        · rw [hgroup, decide_eq_true rfl, Bool.true_or]
      · rw [Bool.and_eq_true, h.one, hrest k hk hle]
        exact ⟨hfirst, hlast⟩

/-- **A token before a pattern.** -/
theorem codeLang_token (h : ReadsToken w t) (p : List UInt8) :
    codeLang (w ++ p) = t.before codeGroup (codeLang p) := by
  cases h with
  | item h => exact codeLang_item h p
  | @char c h hstar htilde hhash =>
    ext s
    show ms (c :: p) s = true ↔ _
    rw [ms_char p s h hstar htilde hhash]
    exact char_iff
  | any => exact codeLang_any p
  | not =>
    ext s
    show ms (tilde :: p) s = true ↔ ¬ ms p s = true
    rw [ms_tilde, Bool.not_eq_true', Bool.not_eq_true]
  | rep h => exact codeLang_rep (repeats_item h p)
  | repChar h => exact codeLang_rep (repeats_char h p)

/-! ## What cannot be read -/

variable {q : List UInt8}

/-- The heads at which reading stops. -/
inductive Stuck : List UInt8 → Prop where
  | escape : Stuck [escape]
  | group {cs : List UInt8} (h : groupEnd cs = none) : Stuck (opening :: cs)
  | hash : Stuck [hash]
  | hashGroup {cs : List UInt8} (h : groupEnd cs = none) : Stuck (hash :: opening :: cs)
  | hashEscape : Stuck [hash, Wildcard.escape]

theorem item_cases {c : UInt8} (h : StartsItem c) (cs : List UInt8) :
    (∃ w i p, c :: cs = w ++ p ∧ ReadsItem w i) ∨ (c = escape ∧ cs = []) ∨ (c = opening ∧ groupEnd cs = none) := by
  rcases h with rfl | rfl | rfl | rfl
  · exact .inl ⟨[question], .one, cs, rfl, .one⟩
  · exact .inl ⟨[percent], .empty, cs, rfl, .empty⟩
  · cases cs with
    | nil => exact .inr (.inl ⟨rfl, rfl⟩)
    | cons d ds => exact .inl ⟨[escape, d], .char d, ds, rfl, .escaped d⟩
  · cases hend : groupEnd cs with
    | none => exact .inr (.inr ⟨rfl, rfl⟩)
    | some x =>
      obtain ⟨inner, rest⟩ := x
      obtain ⟨rfl, alts, halts⟩ := groupEnd_sound hend
      refine .inl ⟨opening :: (inner ++ [closing]), .group alts, rest, ?_, .group halts⟩
      rw [cons_append, append_assoc]
      rfl

/-- **A pattern is empty, begins with a token, or is stuck.** -/
theorem pattern_cases (q : List UInt8) : q = [] ∨ (∃ w t p, q = w ++ p ∧ ReadsToken w t) ∨ Stuck q := by
  cases q with
  | nil => exact .inl rfl
  | cons c cs =>
    refine .inr ?_
    by_cases hitem : StartsItem c
    · rcases item_cases hitem cs with ⟨w, i, p, heq, hread⟩ | ⟨rfl, rfl⟩ | ⟨rfl, hend⟩
      · exact .inl ⟨w, _, p, heq, .item hread⟩
      · exact .inr .escape
      · exact .inr (.group hend)
    · by_cases hstar : c = star
      · rw [hstar]
        exact .inl ⟨[star], _, cs, rfl, .any⟩
      · by_cases htilde : c = tilde
        · rw [htilde]
          exact .inl ⟨[tilde], _, cs, rfl, .not⟩
        · by_cases hhash : c = hash
          · rw [hhash]
            cases cs with
            | nil => exact .inr .hash
            | cons d ds =>
              by_cases hrep : StartsItem d
              · rcases item_cases hrep ds with ⟨w, i, p, heq, hread⟩ | ⟨rfl, rfl⟩ | ⟨rfl, hend⟩
                · refine .inl ⟨hash :: w, _, p, ?_, .rep hread⟩
                  rw [heq]
                  rfl
                · exact .inr .hashEscape
                · exact .inr (.hashGroup hend)
              · exact .inl ⟨[hash, d], _, ds, rfl, .repChar hrep⟩
          · exact .inl ⟨[c], _, cs, rfl, .char hitem hstar htilde hhash⟩

theorem readsToken_ne_nil (h : ReadsToken w t) : 0 < w.length := by
  cases h with
  | item h => cases h <;> exact Nat.succ_pos _
  | char => exact Nat.succ_pos _
  | any => exact Nat.succ_pos _
  | not => exact Nat.succ_pos _
  | rep h => exact Nat.succ_pos _
  | repChar => exact Nat.succ_pos _

theorem stuck_not_token (h : ReadsToken w t) : ¬ Stuck (w ++ p) := by
  intro hs
  cases h with
  | item h =>
    cases h with
    | one => cases hs
    | empty => cases hs
    | escaped c => cases hs
    | @group g alts h =>
      have htext : opening :: (g ++ [closing]) ++ p = opening :: (g ++ closing :: p) := by
        rw [cons_append, append_assoc]
        rfl
      rw [htext] at hs
      cases hs with
      | group hend =>
        rw [groupEnd_alts h] at hend
        cases hend
  | @char c h hstar htilde hhash =>
    cases hs with
    | escape => exact h (.inr (.inr (.inl rfl)))
    | group _ => exact h (.inr (.inr (.inr rfl)))
    | hash => exact hhash rfl
    | hashGroup _ => exact hhash rfl
    | hashEscape => exact hhash rfl
  | any => cases hs
  | not => cases hs
  | rep h =>
    cases h with
    | one => cases hs
    | empty => cases hs
    | escaped c => cases hs
    | @group g alts h =>
      have htext : hash :: (opening :: (g ++ [closing])) ++ p = hash :: opening :: (g ++ closing :: p) := by
        rw [cons_append, cons_append, append_assoc]
        rfl
      rw [htext] at hs
      cases hs with
      | hashGroup hend =>
        rw [groupEnd_alts h] at hend
        cases hend
  | @repChar c h =>
    cases hs with
    | hashGroup _ => exact h (.inr (.inr (.inr rfl)))
    | hashEscape => exact h (.inr (.inr (.inl rfl)))

theorem stuck_unreadable (h : Stuck q) : ¬ Readable q := by
  rintro ⟨ts, hread⟩
  cases hread with
  | nil => cases h
  | cons ht _ => exact stuck_not_token ht h

theorem codeLang_stuck (h : Stuck q) (hne : q ≠ [hash, escape]) : codeLang q = 0 := by
  ext s
  rw [mem_codeLang]
  refine iff_of_false ?_ (Language.notMem_zero s)
  cases h with
  | escape =>
    cases s <;> exact Bool.false_ne_true
  | group hend =>
    rw [ms_opening, hend]
    exact Bool.false_ne_true
  | hash =>
    exact Bool.false_ne_true
  | hashGroup hend =>
    rw [ms_hash, afterItem, if_pos rfl, hend]
    exact Bool.false_ne_true
  | hashEscape => exact absurd rfl hne

/-! ## Languages -/

variable {G : List (List UInt8) → Language UInt8} {ts : List Token}

theorem langOver_unreadable (G : List (List UInt8) → Language UInt8) (h : ¬ Readable q) : langOver G q = 0 := by
  ext s
  refine iff_of_false ?_ (Language.notMem_zero s)
  rintro ⟨ts, hread, -⟩
  exact h ⟨ts, hread⟩

theorem before_congr {G' : List (List UInt8) → Language UInt8}
    (h : t.alts ≠ [] → G t.alts = G' t.alts) (hempty : G [] = G' []) (M : Language UInt8) :
    t.before G M = t.before G' M := by
  have hitem : ∀ i : Item, (Token.item i).alts = t.alts → i.lang G = i.lang G' := by
    intro i halts
    cases i with
    | char c => rfl
    | one => rfl
    | empty => rfl
    | group alts =>
      have heq : alts = t.alts := halts
      rw [heq]
      by_cases hnil : t.alts = []
      · rw [hnil]
        exact hempty
      · exact h hnil
  cases t with
  | item i =>
    show i.lang G * M = i.lang G' * M
    rw [hitem i rfl]
  | any => rfl
  | not => rfl
  | rep i =>
    have halts : (Token.item i).alts = (Token.rep i).alts := by cases i <;> rfl
    show (i.lang G)∗ * M = (i.lang G')∗ * M
    rw [hitem i halts]

/-- **A pattern that can be read** matches its language, if its groups do. -/
theorem codeLang_reads (h : Reads q ts)
    (hG : ∀ t ∈ ts, ∀ M, t.before codeGroup M = t.before G M) : codeLang q = denote G ts := by
  induction h with
  | nil => exact codeLang_nil
  | @cons w p t ts ht hs ih =>
    rw [codeLang_token ht, ih fun t' ht' => hG t' (mem_cons_of_mem _ ht'), hG t mem_cons_self]
    rfl

theorem codeLang_readable (h : Readable q)
    (hG : ∀ ts, Reads q ts → ∀ t ∈ ts, ∀ M, t.before codeGroup M = t.before G M) : codeLang q = langOver G q := by
  obtain ⟨ts, hread⟩ := h
  ext s
  constructor
  · intro hs
    rw [codeLang_reads hread (hG ts hread)] at hs
    exact ⟨ts, hread, hs⟩
  · rintro ⟨ts', hread', hs⟩
    rw [codeLang_reads hread' (hG ts' hread')]
    exact hs

theorem before_zero (G : List (List UInt8) → Language UInt8) (h : t ≠ .not) : t.before G 0 = 0 := by
  cases t with
  | item i => exact mul_zero _
  | any => exact mul_zero _
  | not => exact absurd rfl h
  | rep i => exact mul_zero _

theorem Part.trans {r : List UInt8} (h : Part p q) (h' : Part q r) : Part p r := by
  induction h with
  | refl p => exact h'
  | tail ht _ ih => exact .tail ht (ih h')
  | alt ht ha _ ih => exact .alt ht ha (ih h')

/-- **What cannot be read is matched nowhere**, if no part of it is broken. -/
theorem codeLang_unreadable (h : ¬ Readable q) (hparts : ∀ r, Part q r → ¬ Broken r) : codeLang q = 0 := by
  induction hn : q.length using Nat.strongRecOn generalizing q with
  | ind n ih =>
    rcases pattern_cases q with rfl | ⟨w, t, p, rfl, ht⟩ | hstuck
    · exact absurd ⟨[], .nil⟩ h
    · have hp : ¬ Readable p := fun ⟨ts, hread⟩ => h ⟨t :: ts, .cons ht hread⟩
      have hpos := readsToken_ne_nil ht
      rw [length_append] at hn
      have hrest := ih p.length (by omega) hp (fun r hr => hparts r (.tail ht hr)) rfl
      have hnot : t ≠ .not := by
        rintro rfl
        cases ht
        exact hparts _ (.refl _) (.inl ⟨p, rfl, h⟩)
      rw [codeLang_token ht, hrest, before_zero _ hnot]
    · exact codeLang_stuck hstuck fun heq => hparts q (.refl q) (.inr heq)

/-! ## Alternatives have no groups -/

variable {y a : List UInt8}

theorem altText_tail {c : UInt8} (hc : c ≠ escape) (h : AltText (c :: y)) : AltText y := by
  cases h with
  | plain _ _ _ h => exact h
  | escaped d h => exact absurd rfl hc

theorem altText_escaped {c : UInt8} (h : AltText (escape :: c :: y)) : AltText y := by
  cases h with
  | plain _ _ hescape _ => exact absurd rfl hescape
  | escaped d h => exact h

theorem altText_append (ha : AltText a) (h : AltText (a ++ y)) : AltText y := by
  induction ha with
  | nil => exact h
  | plain hbar hclosing hescape ha ih => exact ih (altText_tail hescape h)
  | escaped c ha ih => exact ih (altText_escaped h)

theorem altText_no_group (h : Alts g alts) : ¬ AltText (g ++ closing :: p) := by
  induction h with
  | one ha =>
    intro hall
    have htail := altText_append ha hall
    cases htail with
    | plain _ hclosing _ _ => exact hclosing rfl
  | @more a g as ha hs ih =>
    intro hall
    rw [append_assoc] at hall
    have htail : AltText (bar :: (g ++ closing :: p)) := altText_append ha hall
    cases htail with
    | plain hbar _ _ _ => exact hbar rfl

/-- A token in an alternative has no alternatives of its own, and an alternative stands behind it. -/
theorem altText_item (h : ReadsItem w i) (ha : AltText (w ++ p)) : (∀ alts, i ≠ .group alts) ∧ AltText p := by
  cases h with
  | one => exact ⟨fun _ h => (by cases h), altText_tail (by decide) ha⟩
  | empty => exact ⟨fun _ h => (by cases h), altText_tail (by decide) ha⟩
  | escaped c =>
    exact ⟨fun _ h => (by cases h), altText_escaped ha⟩
  | @group g alts h =>
    exfalso
    have htext : opening :: (g ++ [closing]) ++ p = opening :: (g ++ closing :: p) := by
      rw [cons_append, append_assoc]
      rfl
    rw [htext] at ha
    exact altText_no_group h (altText_tail (by decide) ha)

theorem altText_token (h : ReadsToken w t) (ha : AltText (w ++ p)) :
    (∀ G G' M, t.before G M = t.before G' M) ∧ AltText p := by
  have hitem : ∀ i : Item, (∀ alts, i ≠ .group alts) → ∀ G G', i.lang G = i.lang G' := by
    intro i hi G G'
    cases i with
    | char c => rfl
    | one => rfl
    | empty => rfl
    | group alts => exact absurd rfl (hi alts)
  cases h with
  | @item w i h =>
    obtain ⟨hno, hp⟩ := altText_item h ha
    refine ⟨fun G G' M => ?_, hp⟩
    show i.lang G * M = i.lang G' * M
    rw [hitem i hno G G']
  | char h hstar htilde hhash => exact ⟨fun _ _ _ => rfl, altText_tail (fun hc => h (.inr (.inr (.inl hc)))) ha⟩
  | any => exact ⟨fun _ _ _ => rfl, altText_tail (by decide) ha⟩
  | not => exact ⟨fun _ _ _ => rfl, altText_tail (by decide) ha⟩
  | @rep w i h =>
    obtain ⟨hno, hp⟩ := altText_item h (altText_tail (by decide) ha)
    refine ⟨fun G G' M => ?_, hp⟩
    show (i.lang G)∗ * M = (i.lang G')∗ * M
    rw [hitem i hno G G']
  | repChar h =>
    have htail := altText_tail (by decide) ha
    exact ⟨fun _ _ _ => rfl, altText_tail (fun hc => h (.inr (.inr (.inl hc)))) htail⟩

theorem altText_reads (h : Reads a ts) (ha : AltText a) : ∀ t ∈ ts, ∀ G G' M, t.before G M = t.before G' M := by
  induction h with
  | nil => exact fun t ht => absurd ht not_mem_nil
  | cons ht hs ih =>
    obtain ⟨hsame, htail⟩ := altText_token ht ha
    intro t ht
    rcases mem_cons.mp ht with rfl | ht
    · exact hsame
    · exact ih htail t ht

theorem alts_altText (h : Alts g alts) (ha : a ∈ alts) : AltText a := by
  induction h with
  | one h =>
    rw [mem_singleton.mp ha]
    exact h
  | more h hs ih =>
    rcases mem_cons.mp ha with rfl | ha
    · exact h
    · exact ih ha

/-- **An alternative** is matched as the pattern that it is. -/
theorem codeLang_alternative (ha : AltText a) (hparts : ∀ r, Part a r → ¬ Broken r)
    (G : List (List UInt8) → Language UInt8) : codeLang a = langOver G a := by
  by_cases h : Readable a
  · exact codeLang_readable h fun ts hread t ht M => altText_reads hread ha t ht _ _ M
  · rw [codeLang_unreadable h hparts, langOver_unreadable G h]

/-! ## Patterns -/

theorem token_altText (h : ReadsToken w t) (ha : a ∈ t.alts) :
    AltText a := by
  cases h with
  | item h =>
    cases h with
    | group h => exact alts_altText h ha
    | _ => exact absurd ha not_mem_nil
  | rep h =>
    cases h with
    | group h => exact alts_altText h ha
    | _ => exact absurd ha not_mem_nil
  | _ => exact absurd ha not_mem_nil

theorem codeGroup_eq (htext : ∀ a ∈ alts, AltText a)
    (hparts : ∀ a ∈ alts, ∀ r, Part a r → ¬ Broken r) : codeGroup alts = groupLang alts := by
  ext s
  refine exists_congr fun a => and_congr_right fun ha => ?_
  exact iff_of_eq (congrArg (s ∈ ·) (codeLang_alternative (htext a ha) (hparts a ha) fun _ => 0))

theorem reads_groups (h : Reads q ts) (hparts : ∀ r, Part q r → ¬ Broken r) :
    ∀ t ∈ ts, ∀ M, t.before codeGroup M = t.before groupLang M := by
  induction h with
  | nil => exact fun t ht => absurd ht not_mem_nil
  | cons htoken hs ih =>
    intro t ht M
    rcases mem_cons.mp ht with rfl | ht
    · refine before_congr (fun _ => ?_) ?_ M
      · exact codeGroup_eq (fun a ha => token_altText htoken ha) fun a ha r hr => hparts r (.alt htoken ha hr)
      · exact codeGroup_eq (fun a ha => absurd ha not_mem_nil) fun a ha => absurd ha not_mem_nil
    · exact ih (fun r hr => hparts r (.tail htoken hr)) t ht M

/-- **A pattern none of whose parts is broken matches its language.** -/
theorem codeLang_eq (hparts : ∀ r, Part q r → ¬ Broken r) : codeLang q = lang q := by
  by_cases h : Readable q
  · exact codeLang_readable h fun ts hread => reads_groups hread hparts
  · rw [codeLang_unreadable h hparts]
    exact (langOver_unreadable groupLang h).symm

/-- **Matching has the documented meaning, exactly when no part of the pattern is broken.** -/
theorem wildcard_means_iff (p : List UInt8) : Means p ↔ ∀ r, Part p r → ¬ Broken r := by
  constructor
  · rintro ⟨-, hmatches⟩ r hr hbroken
    have hlang : ∀ q, Part p q → codeLang q = lang q := by
      intro q hq
      ext s
      have hiff := hmatches q hq s
      rw [globMatch_eq] at hiff
      exact hiff
    rcases hbroken with ⟨r', rfl, hno⟩ | rfl
    · -- the complement of nothing
      have htail : Part (tilde :: r') r' := .tail .not (.refl r')
      have hrest : ¬ Readable r' := by
        rintro ⟨ts, hread⟩
        exact hno ⟨.not :: ts, .cons .not hread⟩
      have hcode := hlang _ hr
      have hcode' := hlang _ (hr.trans htail)
      have hzero : lang (tilde :: r') = 0 := langOver_unreadable _ hno
      have hzero' : lang r' = 0 := langOver_unreadable _ hrest
      rw [hzero] at hcode
      rw [hzero'] at hcode'
      have hnil : ms (tilde :: r') [] = true := by
        rw [ms_tilde]
        have hno' : ¬ ms r' [] = true := by
          intro h
          have hmem : [] ∈ codeLang r' := h
          rw [hcode'] at hmem
          exact Language.notMem_zero _ hmem
        rw [Bool.not_eq_true] at hno'
        rw [hno']
        rfl
      have hmem : [] ∈ codeLang (tilde :: r') := hnil
      rw [hcode] at hmem
      exact Language.notMem_zero _ hmem
    · -- no repetition of an escape without its character
      have hcode := hlang _ hr
      have hzero : lang [hash, escape] = 0 := langOver_unreadable _ (stuck_unreadable .hashEscape)
      have hmem : [] ∈ codeLang [hash, escape] := by
        rw [mem_codeLang]
        decide
      rw [hcode, hzero] at hmem
      exact Language.notMem_zero _ hmem
  · intro hparts
    refine ⟨fun name levels h => ms_ends h, fun q hq name => ?_⟩
    rw [globMatch_eq]
    have hcode := codeLang_eq fun r hr => hparts r (hq.trans hr)
    exact iff_of_eq (congrArg (name ∈ ·) hcode)

/-- The pattern `#'` has a trailing escape, and matches the empty name. -/
theorem hash_takes_trailing_escape : ¬ ∀ p, Means p := by
  intro h
  have hmatch : globMatch [hash, escape] [] = true := by decide
  have hmem := ((h [hash, escape]).matches_iff _ (.refl _) []).mp hmatch
  rw [show lang [hash, escape] = 0 from langOver_unreadable _ (stuck_unreadable .hashEscape)] at hmem
  exact Language.notMem_zero _ hmem

end Aegir.Cli.Wildcard
