/-
  Trees of tables in memory.

  A table is named by its address; a word of it is empty or names another table.  `TableTree` says that the
  tables reached from a root form a tree, `node p` being the one at the end of the path `p`, and that NO TWO
  PATHS share a table: so a walk finds its own table and no other, and a fresh one may be hung below an empty
  entry.
-/
import Mathlib.Data.Option.Basic
import Mathlib.Data.List.Basic
import Mathlib.Logic.Function.Basic

namespace Aegir.Lib

open List Function

variable {A I W : Type*}

/-- Follow a path of indices from a table, with `next` reading a word. -/
def walkTables (words : A → I → W) (next : W → Option A) : List I → A → Option A
  | [], a => some a
  | i :: is, a => (next (words a i)).bind (walkTables words next is)

/-- The words of the tables at paths shorter than `depth` encode the tables one step further. -/
structure TableTree (words : A → I → W) (encode : Option A → W) (depth : ℕ) (node : List I → Option A) : Prop where
  distinct : ∀ {p q : List I} {a : A}, node p = some a → node q = some a → p = q
  entry : ∀ {p : List I} {a : A}, node p = some a → p.length < depth → ∀ i, words a i = encode (node (p ++ [i]))
  closed : ∀ {p : List I} (i : I), node p = none → node (p ++ [i]) = none

namespace TableTree

variable {words words' : A → I → W} {encode : Option A → W} {next : W → Option A} {depth : ℕ}
  {node : List I → Option A} {p : List I} {a b : A} {i : I}

section

variable (h : TableTree words encode depth node)

include h

/-- Below a missing table there is none. -/
theorem none_append (hp : node p = none) (q : List I) :
    node (p ++ q) = none := by
  induction q generalizing p with
  | nil => rwa [append_nil]
  | cons i q ih =>
    have hstep : node ((p ++ [i]) ++ q) = none := ih (h.closed i hp)
    rwa [append_assoc] at hstep

/-- **A walk finds the table of its path.** -/
theorem walk_eq (hnext : ∀ q, next (encode (node q)) = node q)
    (hp : node p = some a) {is : List I} (hlen : p.length + is.length ≤ depth) :
    walkTables words next is a = node (p ++ is) := by
  induction is generalizing p a with
  | nil =>
    rw [append_nil]
    exact hp.symm
  | cons i is ih =>
    have hlt : p.length < depth := by
      rw [length_cons] at hlen
      omega
    have hassoc : p ++ i :: is = (p ++ [i]) ++ is := by rw [append_assoc]; rfl
    unfold walkTables
    rw [h.entry hp hlt, hnext, hassoc]
    cases hb : node (p ++ [i]) with
    | none => exact (h.none_append hb is).symm
    | some b =>
      refine ih hb ?_
      rw [length_append, length_singleton]
      rw [length_cons] at hlen
      omega

/-- Only the words of the inner tables matter. -/
theorem congr
    (hsame : ∀ q a, node q = some a → q.length < depth → words' a = words a) :
    TableTree words' encode depth node := by
  refine ⟨h.distinct, fun hq hlt i => ?_, h.closed⟩
  rw [hsame _ _ hq hlt]
  exact h.entry hq hlt i

/-- **A new table**: a fresh table of empty words, hung below an empty entry. -/
theorem grow [DecidableEq I] (hp : node p = some a)
    (hnone : node (p ++ [i]) = none) (hfresh : ∀ q, node q ≠ some b) (hempty : ∀ j, words' b j = encode none)
    (hentry : words' a = update (words a) i (encode (some b)))
    (hother : ∀ c, c ≠ a → c ≠ b → words' c = words c) :
    TableTree words' encode depth (update node (p ++ [i]) (some b)) := by
  have hold : ∀ {q c}, update node (p ++ [i]) (some b) q = some c → q ≠ p ++ [i] → node q = some c := by
    intro q c hq hne
    rwa [update_of_ne hne] at hq
  have hnew : ∀ {c}, update node (p ++ [i]) (some b) (p ++ [i]) = some c → c = b := by
    intro c hc
    rw [update_self] at hc
    exact (Option.some.inj hc).symm
  refine ⟨?_, ?_, ?_⟩
  · -- no two paths share a table
    intro q r c hq hr
    by_cases hqp : q = p ++ [i]
    · by_cases hrp : r = p ++ [i]
      · rw [hqp, hrp]
      · subst hqp
        rw [hnew hq] at hr
        exact absurd (hold hr hrp) (hfresh r)
    · by_cases hrp : r = p ++ [i]
      · subst hrp
        rw [hnew hr] at hq
        exact absurd (hold hq hqp) (hfresh q)
      · exact h.distinct (hold hq hqp) (hold hr hrp)
  · -- the words
    intro q c hq hlt j
    by_cases hqp : q = p ++ [i]
    · subst hqp
      have hdeeper : p ++ [i] ++ [j] ≠ p ++ [i] := by
        intro heq
        have := congrArg length heq
        rw [length_append, length_singleton] at this
        omega
      rw [hnew hq, hempty, update_of_ne hdeeper, h.closed j hnone]
    · have hc := hold hq hqp
      have hcb : c ≠ b := fun heq => hfresh q (heq ▸ hc)
      by_cases hca : c = a
      · subst hca
        obtain rfl := h.distinct hc hp
        rw [hentry]
        by_cases hji : j = i
        · subst hji
          rw [update_self, update_self]
        · have hne : q ++ [j] ≠ q ++ [i] := fun heq => hji (append_singleton_inj.mp heq).2
          rw [update_of_ne hji, update_of_ne hne]
          exact h.entry hc hlt j
      · have hne : q ++ [j] ≠ p ++ [i] := by
          intro heq
          obtain ⟨rfl, -⟩ := append_singleton_inj.mp heq
          exact hca (Option.some.inj (hc.symm.trans hp))
        rw [hother c hca hcb, update_of_ne hne]
        exact h.entry hc hlt j
  · -- below a missing table
    intro q j hq
    have hqp : q ≠ p ++ [i] := by
      rintro rfl
      rw [update_self] at hq
      cases hq
    rw [update_of_ne hqp] at hq
    have hne : q ++ [j] ≠ p ++ [i] := by
      intro heq
      obtain ⟨rfl, -⟩ := append_singleton_inj.mp heq
      rw [hp] at hq
      cases hq
    rw [update_of_ne hne]
    exact h.closed j hq

end

/-- A root alone. -/
theorem single [DecidableEq I] (hempty : ∀ i, words a i = encode none) :
    TableTree words encode depth (update (fun _ : List I => none) [] (some a)) := by
  have hroot : ∀ {q c}, update (fun _ : List I => none) [] (some a) q = some c → q = [] := by
    intro q c hq
    by_contra hne
    rw [update_of_ne hne] at hq
    cases hq
  have hdeep : ∀ (q : List I) (j : I),
      update (fun _ : List I => (none : Option A)) [] (some a) (q ++ [j]) = none := by
    intro q j
    have hne : q ++ [j] ≠ [] := append_ne_nil_of_right_ne_nil q (cons_ne_nil j [])
    rw [update_of_ne hne]
  refine ⟨fun hq hr => (hroot hq).trans (hroot hr).symm, fun hq _ i => ?_, fun i _ => hdeep _ i⟩
  obtain rfl := hroot hq
  rw [hdeep, ← Option.some.inj hq]
  exact hempty i

end TableTree

end Aegir.Lib
