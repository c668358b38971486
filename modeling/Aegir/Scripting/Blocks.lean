/-
  The block structure of a script, and what it means.

  Which BRANCHES are open at a line depends on the text alone, from the place on where the run last started.
  A line runs when EVERY branch around it was selected: the branch of an if when its condition held, the
  branch of an else when it did not.  `Course` is the run this prescribes.  It has no stack and no counter,
  only the text and those conditions.
-/
import Aegir.Scripting.Interp
import Mathlib.Order.Monotone.Basic
import Mathlib.Logic.Function.Iterate

namespace Aegir.Scripting

open List Option Function

/-! ## Branches -/

/-- A branch: the place of its if, and whether it is the one after the else. -/
structure Branch where
  opener : Nat
  isElse : Bool

/-- The keyword of a line. -/
def keywordAt (text : Chars) (lo : Nat) : Option Keyword := (lineAt text lo).bind keywordOf

/-- The branches open after a line, the innermost first; `none` when the line's keyword does not fit there. -/
def branchesAfter (kw : Option Keyword) (lo : Nat) (branches : List Branch) : Option (List Branch) :=
  match kw, branches with
  | none, bs => some bs
  | some .opens, bs => some (⟨lo, false⟩ :: bs)
  | some .turns, ⟨i, false⟩ :: bs => some (⟨i, true⟩ :: bs)
  | some .closes, _ :: bs => some bs
  | _, _ => none

/-- The branches open after `k` lines from `first` on. -/
def openAfter (text : Chars) (first : Nat) : Nat → Option (List Branch)
  | 0 => some []
  | k + 1 => (openAfter text first k).bind
      (branchesAfter (keywordAt text ((nextLine text)^[k] first)) ((nextLine text)^[k] first))

/-- Of the lines from `first` up to the one at `lo`, these branches are still open. -/
def Encloses (text : Chars) (first lo : Nat) (branches : List Branch) : Prop :=
  ∃ k, (nextLine text)^[k] first = lo ∧ openAfter text first k = some branches

/-- A line starts there. -/
def LineStart (text : Chars) (lo : Nat) : Prop := ∃ k, (nextLine text)^[k] 0 = lo

/-- No if has a second else: from whatever line on one reads, an else never stands in the branch of an else. -/
def OneElse (text : Chars) : Prop :=
  ∀ first lo i bs, LineStart text first → keywordAt text lo = some .turns →
    ¬ Encloses text first lo (⟨i, true⟩ :: bs)

theorem LineStart.zero (text : Chars) : LineStart text 0 := ⟨0, rfl⟩

theorem LineStart.iterate {text : Chars} {lo : Nat} (h : LineStart text lo) (k : Nat) :
    LineStart text ((nextLine text)^[k] lo) := by
  obtain ⟨j, rfl⟩ := h
  exact ⟨k + j, iterate_add_apply _ k j 0⟩

theorem LineStart.next {text : Chars} {lo : Nat} (h : LineStart text lo) : LineStart text (nextLine text lo) :=
  h.iterate 1

namespace Encloses

variable {text : Chars} {first lo : Nat} {bs bs' : List Branch}

theorem start (text : Chars) (first : Nat) : Encloses text first first [] := ⟨0, rfl, rfl⟩

theorem lt_nextLine (text : Chars) (lo : Nat) : lo < nextLine text lo := by
  rw [nextLine]
  omega

theorem strictMono_lines (text : Chars) (first : Nat) : StrictMono fun k => (nextLine text)^[k] first := by
  refine strictMono_nat_of_lt_succ fun k => ?_
  rw [iterate_succ_apply']
  exact lt_nextLine text _

section

variable (h : Encloses text first lo bs)

include h

/-- **The branches around a line depend on the text alone.** -/
theorem unique (h' : Encloses text first lo bs') : bs = bs' := by
  obtain ⟨k, hk, hbs⟩ := h
  obtain ⟨k', hk', hbs'⟩ := h'
  have heq : k = k' := (strictMono_lines text first).injective (hk.trans hk'.symm)
  rw [← heq, hbs] at hbs'
  exact Option.some.inj hbs'

theorem next (hafter : branchesAfter (keywordAt text lo) lo bs = some bs') :
    Encloses text first (nextLine text lo) bs' := by
  obtain ⟨k, rfl, hbs⟩ := h
  refine ⟨k + 1, iterate_succ_apply' _ _ _, ?_⟩
  rw [openAfter, hbs, bind_some, hafter]

theorem next_iff :
    Encloses text first (nextLine text lo) bs' ↔ branchesAfter (keywordAt text lo) lo bs = some bs' := by
  refine ⟨fun h' => ?_, h.next⟩
  obtain ⟨k, rfl, hbs⟩ := h
  obtain ⟨k', hk', hbs'⟩ := h'
  have heq : k' = k + 1 := (strictMono_lines text first).injective (hk'.trans (iterate_succ_apply' _ _ _).symm)
  rw [heq, openAfter, hbs, bind_some] at hbs'
  exact hbs'

theorem opener_lt : ∀ b ∈ bs, b.opener < lo := by
  obtain ⟨k, rfl, hbs⟩ := h
  induction k generalizing bs with
  | zero =>
    rw [openAfter, Option.some.injEq] at hbs
    subst hbs
    exact nofun
  | succ k ih =>
    rw [openAfter, bind_eq_some_iff] at hbs
    obtain ⟨before, hbefore, hafter⟩ := hbs
    rw [iterate_succ_apply']
    have hlt := lt_nextLine text ((nextLine text)^[k] first)
    have hold : ∀ b ∈ before, b.opener < nextLine text ((nextLine text)^[k] first) := fun b hb =>
      (ih hbefore b hb).trans hlt
    intro b hb
    generalize (nextLine text)^[k] first = lo at hafter hlt hold
    cases hkw : keywordAt text lo with
    | none =>
      rw [hkw] at hafter
      cases hafter
      exact hold b hb
    | some kw =>
      rw [hkw] at hafter
      cases kw with
      | opens =>
        cases hafter
        rcases mem_cons.mp hb with rfl | hb
        · exact hlt
        · exact hold b hb
      | turns =>
        cases before with
        | nil => cases hafter
        | cons top rest =>
          obtain ⟨i, isElse⟩ := top
          cases isElse with
          | true => cases hafter
          | false =>
            cases hafter
            rcases mem_cons.mp hb with rfl | hb
            · exact hold ⟨i, false⟩ mem_cons_self
            · exact hold b (mem_cons_of_mem _ hb)
      | closes =>
        cases before with
        | nil => cases hafter
        | cons top rest =>
          cases hafter
          exact hold b (mem_cons_of_mem _ hb)

theorem exists_turn {i : Nat} (hi : ⟨i, true⟩ ∈ bs) : ∃ p, p < lo ∧ keywordAt text p = some .turns := by
  obtain ⟨k, rfl, hbs⟩ := h
  induction k generalizing bs i with
  | zero =>
    rw [openAfter, Option.some.injEq] at hbs
    subst hbs
    cases hi
  | succ k ih =>
    rw [openAfter, bind_eq_some_iff] at hbs
    obtain ⟨before, hbefore, hafter⟩ := hbs
    rw [iterate_succ_apply']
    have hlt := lt_nextLine text ((nextLine text)^[k] first)
    have hold : ∀ {j}, ⟨j, true⟩ ∈ before →
        ∃ p, p < nextLine text ((nextLine text)^[k] first) ∧ keywordAt text p = some .turns := fun hj => by
      obtain ⟨p, hp, hturn⟩ := ih hj hbefore
      exact ⟨p, hp.trans hlt, hturn⟩
    generalize (nextLine text)^[k] first = lo at hafter hlt hold
    cases hkw : keywordAt text lo with
    | none =>
      rw [hkw] at hafter
      cases hafter
      exact hold hi
    | some kw =>
      rw [hkw] at hafter
      cases kw with
      | opens =>
        cases hafter
        rcases mem_cons.mp hi with heq | hi
        · cases heq
        · exact hold hi
      | turns => exact ⟨lo, hlt, hkw⟩
      | closes =>
        cases before with
        | nil => cases hafter
        | cons top rest =>
          cases hafter
          exact hold (mem_cons_of_mem _ hi)

end

end Encloses

/-! ## The course of a script -/

variable {σ : Type}

/-- The state of the prescribed run: where it last started, and what the conditions since then came to. -/
structure Course (σ : Type) where
  vars : Vars σ
  lo : Nat
  first : Nat
  held : Nat → Option Bool
  aborted : Bool

namespace Course

/-- A branch was selected: its if was evaluated, to true for the first branch and to false for the else. -/
def Selected (c : Course σ) (b : Branch) : Prop := c.held b.opener = some (!b.isElse)

/-- The line runs: every branch around it was selected. -/
def Runs (c : Course σ) (text : Chars) : Prop := ∃ bs, Encloses text c.first c.lo bs ∧ ∀ b ∈ bs, c.Selected b

/-- The line's keyword fits where it stands, and no more than eight ifs are open after it. -/
def Fits (c : Course σ) (text : Chars) : Prop :=
  ∃ bs, Encloses text c.first (nextLine text c.lo) bs ∧ bs.length ≤ maxIf

/-- Some if is still open. -/
def Unclosed (c : Course σ) (text : Chars) : Prop := ∃ b bs, Encloses text c.first c.lo (b :: bs)

def goOn (c : Course σ) (text : Chars) : Course σ := { c with lo := nextLine text c.lo }

def abort (c : Course σ) (text : Chars) : Course σ :=
  { c with vars := { c.vars with rc := rcError }, aborted := true, lo := nextLine text c.lo }

open Classical in
/-- What a line of a script means. -/
noncomputable def turn (h : Host σ) (text args : Chars) (c : Course σ) : Course σ :=
  match lineAt text c.lo with
  | none => c.goOn text
  | some line =>
    match directive line c.vars with
    | some none => c.abort text
    | some (some v) => { c with vars := v }.goOn text
    | none =>
      match leaveHeader args c.vars with
      | none => { c with vars := { c.vars with inHeader := false } }.abort text
      | some v =>
        let c := { c with vars := v }
        match keywordOf line with
        | some .turns | some .closes => if c.Fits text then c.goOn text else c.abort text
        | some .opens =>
          if c.Runs text then
            match executeIf h c.lo line c.vars with
            | (v, none) => { c with vars := v }.abort text
            | (v, some result) =>
              if c.Fits text then
                { c with vars := { v with rc := 0 }, held := update c.held c.lo (some result) }.goOn text
              else { c with vars := v }.abort text
          else if c.Fits text then c.goOn text
          else c.abort text
        | none =>
          if c.Runs text then
            match executeLine h text c.lo line c.vars with
            | ⟨v, true, _⟩ => { c with vars := v }.abort text
            | ⟨v, false, none⟩ => { c with vars := v }.goOn text
            | ⟨v, false, some target⟩ => { c with vars := v, lo := target, first := target, held := fun _ => none }
          else c.goOn text

/-- It stops after `quit`, after an error, and at the first return code at or above failat. -/
def goes (c : Course σ) (text : Chars) : Bool :=
  decide (c.lo < text.length) && !(c.vars.done || c.aborted || c.vars.failMax ≤ c.vars.rc)

def start (world : σ) : Course σ := ⟨(Loop.start world).vars, 0, 0, fun _ => none, false⟩

/-- The states of the prescribed run. -/
inductive Reached (h : Host σ) (text args : Chars) (world : σ) : Nat → Course σ → Prop
  | start : Reached h text args world 0 (.start world)
  | turn {n : Nat} {c : Course σ} (hc : Reached h text args world n c) (hgoes : c.goes text = true) :
      Reached h text args world (n + 1) (c.turn h text args)

open Classical in
/-- The return code: an error when a line was bad or did not fit, or an if is still open where the run ends of
    itself; else the last return code. -/
noncomputable def result (c : Course σ) (text : Chars) : UInt64 :=
  if c.aborted = true ∨ c.vars.done = false ∧ c.Unclosed text then rcError else c.vars.rc

end Course

/-! ## Labels -/

/-- The first of the lines from `first` on and below `limit` that is `lab <Label>`. -/
def FirstLab (text label : Chars) (first limit lo : Nat) : Prop :=
  ∃ k, (nextLine text)^[k] first = lo ∧ lo < limit ∧ isLab text label lo = true ∧
    ∀ j < k, isLab text label ((nextLine text)^[j] first) = false

/-- Where `skip <rest>` at `lo` goes: to the first label after the line, or before it. -/
def SkipsTo (text : Chars) (lo : Nat) (rest : Chars) (target : Nat) : Prop :=
  rest ≠ [] ∧
    (restWords rest = [] ∧ FirstLab text (firstWord rest) (nextLine text lo) text.length target ∨
      restWords rest ≠ [] ∧ sameWord (firstWord (restWords rest)) [98, 97, 99, 107] = true ∧
        FirstLab text (firstWord rest) 0 lo target)

end Aegir.Scripting
