/-
  Runs of a transition system, and invariants of all their states.

  A system is a partial step function.  A run of length `n` is the sequence of its states and
  actions; the states past the end are junk that nothing talks about.  Properties of single states
  and properties of TWO states of a run both come by induction on the length.
-/
import Mathlib.Data.List.Basic

namespace Aegir.Lib

open List

universe u v

variable {σ : Type u} {α : Type v}

/-- `n` steps of a system, with all the states on the way. -/
structure Run (step : σ → α → Option σ) (n : Nat) where
  state : Nat → σ
  action : Nat → α
  step_eq : ∀ i, i < n → step (state i) (action i) = some (state (i + 1))

namespace Run

variable {step : σ → α → Option σ} {n : Nat}

/-- **Invariants.**  What holds initially and is kept by every step of the run holds in all its
    states. -/
theorem invariant (r : Run step n) (P : σ → Prop) (h0 : P (r.state 0))
    (hstep : ∀ i, i < n → P (r.state i) → P (r.state (i + 1))) : ∀ i, i ≤ n → P (r.state i) := by
  intro i
  induction i with
  | zero => exact fun _ => h0
  | succ i ih => exact fun hi => hstep i hi (ih (Nat.le_of_succ_le hi))

/-! ## Runs by execution -/

/-- The state after a list of actions, if all of them are possible. -/
def execute (step : σ → α → Option σ) (s : σ) : List α → Option σ
  | [] => some s
  | a :: as => (step s a).bind fun s' => execute step s' as

theorem execute_append (s : σ) (as bs : List α) :
    execute step s (as ++ bs) = (execute step s as).bind fun s' => execute step s' bs := by
  induction as generalizing s with
  | nil => rfl
  | cons a as ih =>
    show (step s a).bind (fun s' => execute step s' (as ++ bs)) = _
    cases h : step s a with
    | none => simp [execute, h]
    | some s' => simp [execute, h, ih]

/-- A list of actions that can be executed is a run. -/
def ofList (step : σ → α → Option σ) (s : σ) (a₀ : α) (as : List α)
    (h : (execute step s as).isSome = true) : Run step as.length where
  state := fun i => (execute step s (as.take i)).getD s
  action := fun i => as.getD i a₀
  step_eq := by
    intro i hi
    have hget : as.getD i a₀ = as[i] := by simp [getD, hi]
    have hsplit : as = as.take i ++ as.getD i a₀ :: as.drop (i + 1) := by
      rw [hget, ← drop_eq_getElem_cons hi, take_append_drop]
    have htake : as.take (i + 1) = as.take i ++ [as.getD i a₀] := by
      rw [hget, take_append_getElem hi]
    rw [hsplit, execute_append] at h
    rw [htake, execute_append]
    cases hpre : execute step s (as.take i) with
    | none =>
      rw [hpre] at h
      cases h
    | some s' =>
      rw [hpre] at h
      show step s' _ = some (((step s' (as.getD i a₀)).bind some).getD s)
      change ((step s' (as.getD i a₀)).bind _).isSome = true at h
      cases hlast : step s' (as.getD i a₀) with
      | none =>
        rw [hlast] at h
        cases h
      | some s'' => rfl

end Run

/-!
## Computations that leave a trace

A program that looks at an input computes a value and, on the way, a LOG of what it looked at, oldest first.
Forgetting the log gives the program back; what holds of every entry of the log is proved step by step.
-/

/-- A value, and what was looked at for it. -/
structure Traced (β : Type u) (α : Type u) where
  value : α
  log : List β

namespace Traced

variable {β α γ : Type u} {p : β → Prop}

instance : Monad (Traced β) where
  pure a := ⟨a, []⟩
  bind m f := ⟨(f m.value).value, m.log ++ (f m.value).log⟩

/-- Looking at one thing. -/
def look (b : β) (a : α) : Traced β α := ⟨a, [b]⟩

@[simp] theorem look_log (b : β) (a : α) : (look b a).log = [b] := rfl

@[simp] theorem pure_value (a : α) : (pure a : Traced β α).value = a := rfl
@[simp] theorem bind_value (m : Traced β α) (f : α → Traced β γ) : (m >>= f).value = (f m.value).value := rfl
@[simp] theorem bind_log (m : Traced β α) (f : α → Traced β γ) : (m >>= f).log = m.log ++ (f m.value).log := rfl

@[simp] theorem ite_value (c : Prop) [Decidable c] (x y : Traced β α) :
    (if c then x else y).value = if c then x.value else y.value := apply_ite _ _ _ _

/-- Every entry of the log satisfies `p`. -/
def Every (p : β → Prop) (m : Traced β α) : Prop := ∀ b ∈ m.log, p b

theorem every_pure (a : α) : Every p (pure a : Traced β α) := fun _ hb => absurd hb List.not_mem_nil

theorem every_look {b : β} {a : α} : Every p (look b a) ↔ p b := by
  constructor
  · intro h
    exact h b List.mem_cons_self
  · intro h b' hb'
    rw [look_log, List.mem_singleton] at hb'
    rw [hb']
    exact h

/-- **One step after the other.** -/
theorem every_bind {m : Traced β α} {f : α → Traced β γ} : Every p (m >>= f) ↔ Every p m ∧ Every p (f m.value) := by
  unfold Every
  constructor
  · intro h
    exact ⟨fun b hb => h b (List.mem_append_left _ hb), fun b hb => h b (List.mem_append_right _ hb)⟩
  · rintro ⟨h1, h2⟩ b hb
    rcases List.mem_append.mp hb with hb | hb
    · exact h1 b hb
    · exact h2 b hb

end Traced

end Aegir.Lib
