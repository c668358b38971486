/-
  Counting the references in a finite store.

  A store is a function from a finite set `S` of places to values; `refs S f R` is the number of
  places whose value satisfies `R` ("refers to the object").  A reference-counted object keeps that
  number in a field, and every operation changes ONE place: the lemmas say by how much the number
  changes then.
-/
import Mathlib.Data.Finset.Card
import Mathlib.Data.Finset.Filter
import Mathlib.Data.List.Count
import Mathlib.Data.List.Perm.Basic

namespace Aegir.Lib

variable {ι α : Type*} {S : Finset ι} {f g : ι → α} {R : α → Prop} [DecidablePred R] {i : ι} [DecidableEq ι]

/-- The number of places whose value satisfies `R`. -/
def refs (S : Finset ι) (f : ι → α) (R : α → Prop) [DecidablePred R] : Nat :=
  (S.filter fun i => R (f i)).card

theorem refs_congr (h : ∀ i ∈ S, (R (g i) ↔ R (f i))) : refs S g R = refs S f R := by
  unfold refs
  rw [Finset.filter_congr h]

theorem refs_pos (hi : i ∈ S) (h : R (f i)) : 0 < refs S f R :=
  Finset.card_pos.mpr ⟨i, Finset.mem_filter.mpr ⟨hi, h⟩⟩

theorem refs_eq_zero_iff : refs S f R = 0 ↔ ∀ i ∈ S, ¬ R (f i) := by
  unfold refs
  rw [Finset.card_eq_zero, Finset.filter_eq_empty_iff]

theorem refs_le_card : refs S f R ≤ S.card := Finset.card_filter_le _ _

/-- One place starts to refer. -/
theorem refs_gain (hi : i ∈ S) (hf : ¬ R (f i)) (hg : R (g i)) (hne : ∀ j, j ≠ i → g j = f j) :
    refs S g R = refs S f R + 1 := by
  have hset : (S.filter fun j => R (g j)) = insert i (S.filter fun j => R (f j)) := by
    ext j
    by_cases hj : j = i
    · subst hj
      simp [hi, hg]
    · simp [hj, hne j hj]
  unfold refs
  rw [hset, Finset.card_insert_of_notMem (by simp [hf])]

/-- One place stops to refer. -/
theorem refs_lose (hi : i ∈ S) (hf : R (f i)) (hg : ¬ R (g i)) (hne : ∀ j, j ≠ i → g j = f j) :
    refs S f R = refs S g R + 1 :=
  refs_gain hi hg hf fun j hj => (hne j hj).symm

/-- One place changes without starting or stopping to refer. -/
theorem refs_keep (h : R (g i) ↔ R (f i)) (hne : ∀ j, j ≠ i → g j = f j) : refs S g R = refs S f R := by
  refine refs_congr fun j _ => ?_
  by_cases hj : j = i
  · rw [hj]; exact h
  · rw [hne j hj]

/-!
## Opening and closing, counted

A history is a list of openings and closings of tokens, the newest first.  It is `Fair` when nobody
closed a token more often than it was open.  Tokens have keys (many clients, one name): under each key
the openings are the closings and what is `outstanding`.
-/

variable {α β : Type*} [DecidableEq α] [DecidableEq β]

inductive Deed (α : Type*)
  | opened (a : α)
  | closed (a : α)
deriving DecidableEq

namespace Deed

/-- How often a token was opened, and how often closed. -/
def opens (ds : List (Deed α)) (a : α) : Nat := ds.count (.opened a)
def closes (ds : List (Deed α)) (a : α) : Nat := ds.count (.closed a)

/-- The same under a key. -/
def opensAt (key : α → β) (ds : List (Deed α)) (b : β) : Nat :=
  ds.countP fun d => match d with
    | .opened a => key a = b
    | .closed _ => false

def closesAt (key : α → β) (ds : List (Deed α)) (b : β) : Nat :=
  ds.countP fun d => match d with
    | .opened _ => false
    | .closed a => key a = b

section Counting

variable (key : α → β) (ds : List (Deed α)) (a : α) (b : β)

theorem opensAt_opened : opensAt key (.opened a :: ds) b = opensAt key ds b + if key a = b then 1 else 0 := by
  unfold opensAt
  rw [List.countP_cons]
  simp

theorem opensAt_closed : opensAt key (.closed a :: ds) b = opensAt key ds b := by
  unfold opensAt
  simp

theorem closesAt_opened : closesAt key (.opened a :: ds) b = closesAt key ds b := by
  unfold closesAt
  simp

theorem closesAt_closed : closesAt key (.closed a :: ds) b = closesAt key ds b + if key a = b then 1 else 0 := by
  unfold closesAt
  rw [List.countP_cons]
  simp

end Counting

/-- Every closing closes something that the same party has open. -/
def Fair : List (Deed α) → Prop
  | [] => True
  | .opened _ :: ds => Fair ds
  | .closed a :: ds => closes ds a < opens ds a ∧ Fair ds

/-- What is open. -/
def outstanding : List (Deed α) → List α
  | [] => []
  | .opened a :: ds => a :: outstanding ds
  | .closed a :: ds => (outstanding ds).erase a

variable {ds : List (Deed α)}

theorem opens_eq (h : Fair ds) (a : α) : opens ds a = closes ds a + (outstanding ds).count a := by
  induction ds with
  | nil => rfl
  | cons d ds ih =>
    cases d with
    | opened c =>
      have hrest := ih h
      unfold opens closes at *
      rw [outstanding, List.count_cons, List.count_cons, List.count_cons]
      by_cases hc : c = a
      · subst hc
        simp
        omega
      · simp [hc]
        omega
    | closed c =>
      obtain ⟨hlt, hfair⟩ := h
      have hrest := ih hfair
      unfold opens closes at *
      rw [outstanding, List.count_cons, List.count_cons, List.count_erase]
      by_cases hc : c = a
      · subst hc
        simp
        omega
      · simp [hc]
        omega

/-- **Under a key too.** -/
theorem opensAt_eq (h : Fair ds) (key : α → β) (b : β) :
    opensAt key ds b = closesAt key ds b + (outstanding ds).countP fun a => key a = b := by
  induction ds with
  | nil => rfl
  | cons d ds ih =>
    cases d with
    | opened c =>
      have hrest := ih h
      rw [opensAt_opened, closesAt_opened, outstanding, List.countP_cons]
      simp only [decide_eq_true_eq]
      omega
    | closed c =>
      obtain ⟨hlt, hfair⟩ := h
      have hrest := ih hfair
      have hmem : c ∈ outstanding ds := by
        have := opens_eq hfair c
        exact List.count_pos_iff.mp (by omega)
      have hperm := (List.perm_cons_erase hmem).countP_eq fun a => decide (key a = b)
      rw [List.countP_cons] at hperm
      simp only [decide_eq_true_eq] at hperm
      rw [opensAt_closed, closesAt_closed, outstanding]
      omega

theorem closesAt_le (h : Fair ds) (key : α → β) (b : β) : closesAt key ds b ≤ opensAt key ds b := by
  have := opensAt_eq h key b
  omega

/-- **A token that is open leaves its key open.** -/
theorem closesAt_lt (h : Fair ds) (key : α → β) {a : α} (ha : closes ds a < opens ds a) :
    closesAt key ds (key a) < opensAt key ds (key a) := by
  have hcount := opens_eq h a
  have hmem : a ∈ outstanding ds := List.count_pos_iff.mp (by omega)
  have hpos : 0 < (outstanding ds).countP fun c => decide (key c = key a) :=
    List.countP_pos_iff.mpr ⟨a, hmem, by simp⟩
  have := opensAt_eq h key (key a)
  omega

end Deed

end Aegir.Lib
