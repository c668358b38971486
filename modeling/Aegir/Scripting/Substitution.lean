/-
  Expansion is a single-pass substitution.

  A line falls into SEGMENTS in exactly one way: references, which are a name between `<` or `<$` and `>`, and
  single characters at which no reference opens.  The expanded line is what the segments give one after
  another, when every reference has a value and the whole fits the buffer; a value's own characters are
  nobody's segments.
-/
import Aegir.Scripting.Interp
import Mathlib.Data.List.TakeWhile

namespace Aegir.Scripting

open List Option

/-! ## Segments -/

/-- An identifier. -/
def IsName (name : Chars) : Prop :=
  ∃ c cs, name = c :: cs ∧ isIdentStart c = true ∧ ∀ d ∈ cs, isIdent d = true

inductive Segment
  | char (c : UInt8)
  | ref (envOnly : Bool) (name : Chars)

/-- How a segment is written. -/
def Segment.text : Segment → Chars
  | .char c => [c]
  | .ref envOnly name => less :: ((if envOnly then [dollar] else []) ++ name ++ [greater])

/-- A line in segments; a character stands for itself only where no reference opens. -/
inductive Segmented : Chars → List Segment → Prop
  | nil : Segmented [] []
  | ref {envOnly : Bool} {name after : Chars} {segs : List Segment} (hname : IsName name)
      (hafter : Segmented after segs) : Segmented ((Segment.ref envOnly name).text ++ after) (.ref envOnly name :: segs)
  | char {c : UInt8} {rest : Chars} {segs : List Segment}
      (hnone : ∀ envOnly name after, IsName name → c :: rest ≠ (Segment.ref envOnly name).text ++ after)
      (hrest : Segmented rest segs) : Segmented (c :: rest) (.char c :: segs)

/-! ## The scanner -/

variable {c : UInt8} {after name rest line : Chars} {envOnly : Bool} {segs : List Segment}

theorem span_ident {cs : Chars} {d : UInt8} (after : Chars) (hcs : ∀ e ∈ cs, isIdent e = true)
    (hd : isIdent d = false) :
    (cs ++ d :: after).takeWhile isIdent = cs ∧ (cs ++ d :: after).dropWhile isIdent = d :: after := by
  induction cs with
  | nil =>
    rw [nil_append, takeWhile_cons, dropWhile_cons, hd]
    exact ⟨rfl, rfl⟩
  | cons c cs ih =>
    obtain ⟨htake, hdrop⟩ := ih fun e he => hcs e (mem_cons_of_mem _ he)
    rw [cons_append, takeWhile_cons, dropWhile_cons, hcs c mem_cons_self]
    exact ⟨congrArg _ htake, hdrop⟩

theorem head_ne_dollar (h : isIdentStart c = true) : c ≠ dollar := by
  rintro rfl
  exact absurd h (by decide)

/-- **The scanner finds the references**, and nothing else. -/
theorem opens_iff : opens c rest = some (envOnly, name, after) ↔
      IsName name ∧ c :: rest = (Segment.ref envOnly name).text ++ after := by
  constructor
  · intro h
    rw [opens] at h
    split at h
    · rename_i hc
      simp only [reference] at h
      have hrest : rest = (if rest.head? = some dollar then [dollar] else []) ++
          (if rest.head? = some dollar then rest.tail else rest) := by
        cases rest with
        | nil => rfl
        | cons d ds =>
          by_cases hd : d = dollar
          · rw [if_pos (by rw [hd]; rfl), if_pos (by rw [hd]; rfl), hd]
            rfl
          · have hne : ¬ (d :: ds).head? = some dollar := fun heq => hd (Option.some.inj heq)
            rw [if_neg hne, if_neg hne]
            rfl
      generalize (if rest.head? = some dollar then rest.tail else rest) = s at h hrest
      cases s with
      | nil => cases h
      | cons x xs =>
        dsimp only at h
        split at h
        · rename_i hx
          have hspan := takeWhile_append_dropWhile (p := isIdent) (l := xs)
          split at h
          · cases h
          · rename_i d after' hdrop
            split at h
            · rename_i hd
              rw [Option.some.injEq, Prod.mk.injEq, Prod.mk.injEq] at h
              obtain ⟨henv, rfl, rfl⟩ := h
              rw [hdrop, hd] at hspan
              refine ⟨⟨x, _, rfl, hx, fun e he => mem_takeWhile_imp he⟩, ?_⟩
              rw [hc, hrest, ← henv]
              simp [Segment.text, hspan]
            · cases h
        · cases h
    · cases h
  · rintro ⟨⟨x, xs, rfl, hx, hxs⟩, heq⟩
    have hgreater : isIdent greater = false := by decide
    obtain ⟨htake, hdrop⟩ := span_ident after hxs hgreater
    cases envOnly with
    | false =>
      have heq' : c :: rest = less :: x :: (xs ++ greater :: after) := by
        rw [heq]
        simp [Segment.text]
      obtain ⟨rfl, rfl⟩ := cons.inj heq'
      have hne : ¬ (x :: (xs ++ greater :: after)).head? = some dollar := fun h =>
        head_ne_dollar hx (Option.some.inj h)
      rw [opens, if_pos rfl, reference]
      simp only [if_neg hne, if_pos hx, hdrop, htake, if_true, decide_eq_false hne]
    | true =>
      have heq' : c :: rest = less :: dollar :: x :: (xs ++ greater :: after) := by
        rw [heq]
        simp [Segment.text]
      obtain ⟨rfl, rfl⟩ := cons.inj heq'
      rw [opens, if_pos rfl, reference]
      simp only [head?_cons, if_true, tail_cons, if_pos hx, hdrop, htake, decide_true]

theorem opens_none (h : opens c rest = none) (envOnly : Bool) (name after : Chars)
    (hname : IsName name) : c :: rest ≠ (Segment.ref envOnly name).text ++ after := by
  intro heq
  rw [opens_iff.mpr ⟨hname, heq⟩] at h
  cases h

theorem exists_segmented (line : Chars) : ∃ segs, Segmented line segs := by
  induction hlen : line.length using Nat.strongRecOn generalizing line with
  | ind n ih =>
    cases line with
    | nil => exact ⟨[], .nil⟩
    | cons c rest =>
      rw [length_cons] at hlen
      cases hopens : opens c rest with
      | none =>
        obtain ⟨segs, hsegs⟩ := ih rest.length (by omega) rest rfl
        exact ⟨.char c :: segs, .char (opens_none hopens) hsegs⟩
      | some r =>
        obtain ⟨envOnly, name, after⟩ := r
        obtain ⟨hname, heq⟩ := opens_iff.mp hopens
        have hshort := opens_length hopens
        obtain ⟨segs, hsegs⟩ := ih after.length (by omega) after rfl
        exact ⟨.ref envOnly name :: segs, heq ▸ .ref hname hsegs⟩

theorem segmented_unique {segs' : List Segment} (h : Segmented line segs)
    (h' : Segmented line segs') : segs = segs' := by
  induction h generalizing segs' with
  | nil =>
    cases h' with
    | nil => rfl
  | @ref envOnly name after segs hname _ ih =>
    generalize hline : (Segment.ref envOnly name).text ++ after = line at h'
    cases h' with
    | nil => cases hline
    | @ref envOnly' name' after' segs' hname' hafter' =>
      -- both are what the scanner finds here
      obtain ⟨c, rest, hcr⟩ : ∃ c rest, (Segment.ref envOnly name).text ++ after = c :: rest := ⟨less, _, rfl⟩
      have hopens := opens_iff.mpr ⟨hname, hcr.symm⟩
      have hopens' := opens_iff.mpr ⟨hname', hcr.symm.trans hline⟩
      rw [hopens, Option.some.injEq, Prod.mk.injEq, Prod.mk.injEq] at hopens'
      obtain ⟨rfl, rfl, rfl⟩ := hopens'
      rw [ih hafter']
    | char hnone _ => exact absurd hline.symm (hnone _ _ _ hname)
  | @char c rest segs hnone _ ih =>
    generalize hline : c :: rest = line at h'
    cases h' with
    | nil => cases hline
    | ref hname' _ => exact absurd hline (hnone _ _ _ hname')
    | char _ hrest' =>
      obtain ⟨rfl, rfl⟩ := cons.inj hline
      rw [ih hrest']

/-! ## Values -/

/-- What a reference stands for: without `$` the local of that name, if there is one; else the variable of
    ENV:, of which `whole` is as much as is taken. -/
def valueOf (whole : Chars → Chars) (ls : Locals) (env : Chars → Option Chars) (envOnly : Bool) (name : Chars) :
    Option Chars :=
  match if envOnly then none else ls.slots.find? fun l => sameWord l.name name with
  | some l => some l.value
  | none => (env name).map whole

/-- What a segment gives. -/
def Segment.subst (value : Bool → Chars → Option Chars) : Segment → Chars
  | .char c => [c]
  | .ref envOnly name => (value envOnly name).getD []

/-- Every reference has a value. -/
def AllDefined (value : Bool → Chars → Option Chars) (segs : List Segment) : Prop :=
  ∀ envOnly name, Segment.ref envOnly name ∈ segs → (value envOnly name).isSome = true

/-- What the segments give one after another. -/
def rendered (value : Bool → Chars → Option Chars) (segs : List Segment) : Chars := segs.flatMap (Segment.subst value)

theorem lookup_eq (ls : Locals) (env : Chars → Option Chars) (name : Chars) (envOnly : Bool) :
    lookup ls env name envOnly = valueOf (take envBuf) ls env envOnly name := by
  have henv : (if (env name).isSome then some ((getEnv env name).take valueBuf) else none) =
      (env name).map (take envBuf) := by
    cases hv : env name with
    | none => rfl
    | some v =>
      simp only [isSome_some, if_true, getEnv, hv, map_some, getD_some, valueBuf, envBuf, take_take, Nat.min_self]
  cases envOnly with
  | true =>
    exact henv
  | false =>
    simp only [lookup, valueOf, Bool.false_eq_true, if_false, Locals.find]
    cases hfind : ls.slots.findIdx? fun l => sameWord l.name name with
    | none =>
      have hnone : (ls.slots.find? fun l => sameWord l.name name) = none := by
        rw [find?_eq_none]
        exact fun l hl => by simpa using (findIdx?_eq_none_iff.mp hfind) l hl
      rw [hnone]
      exact henv
    | some slot =>
      obtain ⟨hlt, hslot, hbefore⟩ := findIdx?_eq_some_iff_getElem.mp hfind
      have hsome : (ls.slots.find? fun l => sameWord l.name name) = some ls.slots[slot] := by
        rw [find?_eq_some_iff_getElem]
        refine ⟨hslot, slot, hlt, rfl, fun j hj => ?_⟩
        simpa using hbefore j hj
      rw [hsome]
      show (ls.slots[slot]?).map Local.value = some ls.slots[slot].value
      rw [getElem?_eq_getElem hlt, map_some]

/-! ## Expand -/

section Expand

variable {look : Chars → Bool → Option Chars} {cap : Nat} {out : Chars}

theorem put_bind {s : Chars} {f : Chars → Option Chars} :
    (put cap out s).bind f = if (out ++ s).length ≤ cap then f (out ++ s) else none := by
  rw [put]
  split <;> rfl

theorem expandFrom_ref (h : opens c rest = some (envOnly, name, after)) : expandFrom look cap (c :: rest) out =
      (look name envOnly).bind fun value => (put cap out value).bind (expandFrom look cap after) := by
  rw [expandFrom]
  split
  · rename_i envOnly' name' after' h'
    rw [h, Option.some.injEq, Prod.mk.injEq, Prod.mk.injEq] at h'
    obtain ⟨rfl, rfl, rfl⟩ := h'
    cases look name envOnly <;> rfl
  · rename_i h'
    rw [h] at h'
    cases h'

theorem expandFrom_char (h : opens c rest = none) :
    expandFrom look cap (c :: rest) out = (put cap out [c]).bind (expandFrom look cap rest) := by
  rw [expandFrom]
  split
  · rename_i h'
    rw [h] at h'
    cases h'
  · rfl

theorem expandFrom_iff {value : Bool → Chars → Option Chars} (hvalue : ∀ e n, look n e = value e n) (h : Segmented line segs) {res : Chars} (hout : out.length ≤ cap) :
    expandFrom look cap line out = some res ↔ AllDefined value segs ∧ (out ++ rendered value segs).length ≤ cap ∧
        res = out ++ rendered value segs := by
  induction h generalizing out with
  | nil =>
    rw [expandFrom, rendered, flatMap_nil, append_nil, Option.some.injEq]
    constructor
    · exact fun heq => ⟨fun _ _ hmem => absurd hmem not_mem_nil, hout, heq.symm⟩
    · exact fun hres => hres.2.2.symm
  | @ref envOnly name after segs hname hafter ih =>
    obtain ⟨c, rest, hcr⟩ : ∃ c rest, (Segment.ref envOnly name).text ++ after = c :: rest := ⟨less, _, rfl⟩
    rw [hcr, expandFrom_ref (opens_iff.mpr ⟨hname, hcr.symm⟩), hvalue]
    cases hlook : value envOnly name with
    | none =>
      refine ⟨fun h => (by cases h), fun h => ?_⟩
      have hdefined := h.1 envOnly name mem_cons_self
      rw [hlook] at hdefined
      cases hdefined
    | some val =>
      have hcons : rendered value (.ref envOnly name :: segs) = val ++ rendered value segs := by
        rw [rendered, flatMap_cons, Segment.subst, hlook]
        rfl
      have hall : AllDefined value (.ref envOnly name :: segs) ↔
          AllDefined value segs := by
        refine ⟨fun h e n hmem => h e n (mem_cons_of_mem _ hmem), fun h e n hmem => ?_⟩
        rcases mem_cons.mp hmem with heq | hmem
        · cases heq
          rw [hlook]
          rfl
        · exact h e n hmem
      rw [bind_some, put_bind, hall, hcons, ← append_assoc]
      split
      · exact ih ‹_›
      · refine ⟨fun h => (by cases h), fun h => ?_⟩
        have hlong := h.2.1
        rw [length_append] at hlong
        omega
  | @char c rest segs hnone _ ih =>
    have hopens : opens c rest = none := by
      cases ho : opens c rest with
      | none => rfl
      | some r =>
        obtain ⟨hname, heq⟩ := opens_iff.mp ho
        exact absurd heq (hnone _ _ _ hname)
    have hcons : rendered value (.char c :: segs) = [c] ++ rendered value segs := by
      rfl
    have hall : AllDefined value (.char c :: segs) ↔
        AllDefined value segs := by
      refine ⟨fun h e n hmem => h e n (mem_cons_of_mem _ hmem), fun h e n hmem => ?_⟩
      rcases mem_cons.mp hmem with heq | hmem
      · cases heq
      · exact h e n hmem
    rw [expandFrom_char hopens, put_bind, hall, hcons, ← append_assoc]
    split
    · exact ih ‹_›
    · refine ⟨fun h => (by cases h), fun h => ?_⟩
      have hlong := h.2.1
      rw [length_append] at hlong
      omega

end Expand

/-- A line that fails to expand is not acted on: neither as a command line nor as a condition. -/
def NeverDispatched {σ : Type} (h : Host σ) (text : Chars) (lo : Nat) (line : Chars) (v : Vars σ) : Prop :=
  executeLine h text lo line v = .of (v.note (.expand lo)) true ∧
    executeIf h lo line v = (v.note (.expand lo), none)

/-- What the expansion of a line is, with `whole` of the variables taken. -/
def ExpandsTo (whole : Chars → Chars) (ls : Locals) (env : Chars → Option Chars) (line : Chars) : Prop :=
  ∃ segs, Segmented line segs ∧ (∀ segs', Segmented line segs' → segs' = segs) ∧
    ∀ res, expand ls env line = some res ↔
      AllDefined (valueOf whole ls env) segs ∧ (rendered (valueOf whole ls env) segs).length ≤ expandedBuf ∧
        res = rendered (valueOf whole ls env) segs

/-- **Expansion is a single-pass substitution.**  For every line, locals and environment: `Expand` succeeds
    exactly when every reference of the line has a value and the result fits, and then gives the line with each
    reference replaced and every other character copied; a line it fails on is dispatched nowhere. -/
theorem expand_substitutes {σ : Type} (h : Host σ) (text : Chars) (lo : Nat) (line : Chars) (v : Vars σ) :
    ExpandsTo (take envBuf) v.locals (h.env v.world) line ∧
      (expand v.locals (h.env v.world) line = none → NeverDispatched h text lo line v) := by
  constructor
  · obtain ⟨segs, hsegs⟩ := exists_segmented line
    refine ⟨segs, hsegs, fun segs' hsegs' => segmented_unique hsegs' hsegs, fun res => ?_⟩
    rw [expand, expandFrom_iff (fun _ _ => lookup_eq _ _ _ _) hsegs (Nat.zero_le _), nil_append]
  · intro hnone
    constructor
    · rw [executeLine, hnone]
    · rw [executeIf, hnone]

/-- Not with whole values: a variable of 257 characters fits the line twice over, and loses its last. -/
theorem long_variable_is_cut :
    ¬ ∀ (ls : Locals) (env : Chars → Option Chars) (line : Chars), line.length ≤ lineMax →
      ExpandsTo id ls env line := by
  intro h
  have hsegs : Segmented ((Segment.ref true [65]).text ++ []) [.ref true [65]] :=
    .ref ⟨65, [], rfl, by decide, nofun⟩ .nil
  obtain ⟨segs, hsegs', -, hiff⟩ :=
    h ⟨[], Nat.zero_le _⟩ (fun _ => some (replicate 257 120)) [60, 36, 65, 62] (by decide)
  obtain rfl := segmented_unique hsegs hsegs'
  have hdefined : AllDefined (valueOf id ⟨[], Nat.zero_le _⟩ fun _ => some (replicate 257 120))
      [.ref true [65]] := by
    intro e n hmem
    rw [mem_singleton] at hmem
    cases hmem
    rfl
  have hwhole := (hiff _).mpr ⟨hdefined, by decide +kernel, rfl⟩
  have hcut := ((expandFrom_iff (fun _ _ => lookup_eq _ _ _ _) hsegs (Nat.zero_le _)).mp hwhole).2.2
  exact absurd (congrArg length hcut) (by decide +kernel)

end Aegir.Scripting
