/-
  Checked computations.

  A program whose checks can fail is a computation in `Except`.  `Yields x p` says that `x` passes all its
  checks and ends in something of which `p` holds; `Completes x` forgets the result.  `Decides x c p` is the
  exact statement: under `c` it yields `p`, and it completes only under `c`.
-/
import Mathlib.Logic.Basic

namespace Aegir.Lib

universe u v

variable {ε : Type v} {α β : Type u} {x : Except ε α} {f : α → Except ε β} {p q : α → Prop} {r : β → Prop}
  {c d : Prop} {a : α}

/-- The computation comes to an end, with a result of which `p` holds. -/
def Yields (x : Except ε α) (p : α → Prop) : Prop := ∃ a, x = .ok a ∧ p a

def Completes (x : Except ε α) : Prop := ∃ a, x = .ok a

theorem Yields.completes (h : Yields x p) : Completes x := by
  obtain ⟨a, ha, -⟩ := h
  exact ⟨a, ha⟩

theorem yields_ok (h : p a) : Yields (.ok a : Except ε α) p := ⟨a, rfl, h⟩

theorem Yields.mono (h : Yields x p) (hpq : ∀ a, p a → q a) : Yields x q := by
  obtain ⟨a, ha, hp⟩ := h
  exact ⟨a, ha, hpq a hp⟩

/-- **One step after the other.** -/
theorem Yields.bind (h : Yields x p) (hf : ∀ a, p a → Yields (f a) r) : Yields (x >>= f) r := by
  obtain ⟨a, rfl, hp⟩ := h
  exact hf a hp

/-! ## Exactly when -/

variable {v : α} {b : Prop} {y : Except ε α}

/-- `x` comes to an end exactly when `c` holds, and then `p` holds of its result. -/
def Decides (x : Except ε α) (c : Prop) (p : α → Prop) : Prop := (c → Yields x p) ∧ (Completes x → c)

theorem Decides.completes_iff (h : Decides x c p) : Completes x ↔ c := ⟨h.2, fun hc => (h.1 hc).completes⟩

theorem Decides.result (h : Decides x c p) (ha : x = .ok a) : p a := by
  obtain ⟨b, hb, hp⟩ := h.1 (h.2 ⟨a, ha⟩)
  rw [ha] at hb
  cases hb
  exact hp

theorem Yields.decides (h : Yields x p) : Decides x True p := ⟨fun _ => h, fun _ => trivial⟩

/-- A result decides whatever holds. -/
theorem decides_eq (a : α) (hc : c) : Decides (.ok a : Except ε α) c fun v => v = a :=
  ⟨fun _ => yields_ok rfl, fun _ => hc⟩

theorem decides_error {e : ε} (hc : ¬ c) : Decides (.error e : Except ε α) c p :=
  ⟨fun h => absurd h hc, fun ⟨_, h⟩ => by cases h⟩

theorem Decides.congr (h : Decides x c p) (hcd : d ↔ c) : Decides x d p :=
  ⟨fun hd => h.1 (hcd.mp hd), fun hx => hcd.mpr (h.2 hx)⟩

/-- A decided computation yields `q` exactly when it passes and `q` holds of its result. -/
theorem Decides.yields_iff (h : Decides x c fun a => a = v) : Yields x q ↔ c ∧ q v := by
  constructor
  · rintro ⟨a, ha, hq⟩
    rw [← h.result ha]
    exact ⟨h.2 ⟨a, ha⟩, hq⟩
  · rintro ⟨hc, hq⟩
    refine (h.1 hc).mono fun a ha => ?_
    rw [ha]
    exact hq

/-- A step that passes, and then one that decides. -/
theorem Yields.bind_decides (h : Yields x p) (hf : ∀ a, x = .ok a → p a → Decides (f a) c r) :
    Decides (x >>= f) c r := by
  obtain ⟨a, rfl, hp⟩ := h
  exact hf a rfl hp

/-- **A step that decides, and then one whose condition depends on the result.** -/
theorem Decides.bind {e : α → Prop} (h : Decides x c p) (hf : ∀ a, x = .ok a → p a → Decides (f a) (e a) r) :
    Decides (x >>= f) (c ∧ ∀ a, x = .ok a → e a) r := by
  constructor
  · rintro ⟨hc, he⟩
    obtain ⟨a, ha, hp⟩ := h.1 hc
    have hrun := (hf a ha hp).1 (he a ha)
    rw [ha]
    exact hrun
  · rintro ⟨b, hb⟩
    cases hx : x with
    | ok a =>
      have hc := h.2 ⟨a, hx⟩
      refine ⟨hc, fun a' ha' => ?_⟩
      cases ha'
      rw [hx] at hb
      exact (hf a hx (h.result hx)).2 ⟨b, hb⟩
    | error e =>
      rw [hx] at hb
      cases hb

/-- A step that passes, and then one whose condition depends on the result. -/
theorem Yields.bind_when {e : α → Prop} (h : Yields x p)
    (hf : ∀ a, x = .ok a → p a → Decides (f a) (e a) r) : Decides (x >>= f) (∀ a, x = .ok a → e a) r :=
  (h.decides.bind hf).congr (by simp)

/-- A step that decides, and then one that passes. -/
theorem Decides.bind_yields (h : Decides x c p) (hf : ∀ a, p a → Yields (f a) r) : Decides (x >>= f) c r := by
  constructor
  · intro hc
    exact (h.1 hc).bind hf
  · rintro ⟨b, hb⟩
    cases hx : x with
    | ok a => exact h.2 ⟨a, hx⟩
    | error e =>
      rw [hx] at hb
      cases hb

/-- A branch decides as its two sides do. -/
theorem Decides.ite [Decidable b] (hx : b → Decides x c p) (hy : ¬ b → Decides y d p) :
    Decides (if b then x else y) ((b → c) ∧ (¬ b → d)) p := by
  by_cases hb : b
  · rw [if_pos hb]
    refine (hx hb).congr ⟨fun h => h.1 hb, fun hc => ⟨fun _ => hc, fun hn => absurd hb hn⟩⟩
  · rw [if_neg hb]
    refine (hy hb).congr ⟨fun h => h.2 hb, fun hd => ⟨fun h => absurd h hb, fun _ => hd⟩⟩

theorem Yields.ite [Decidable b] (hx : b → Yields x p) (hy : ¬ b → Yields y p) :
    Yields (if b then x else y) p := by
  by_cases hb : b
  · rw [if_pos hb]
    exact hx hb
  · rw [if_neg hb]
    exact hy hb

/-- Two branches that are taken together. -/
theorem Yields.ite_eq [Decidable b] {v w : α} (hx : b → Yields x fun o => o = v)
    (hy : ¬ b → Yields y fun o => o = w) : Yields (if b then x else y) fun o => o = if b then v else w := by
  by_cases hb : b
  · simpa only [if_pos hb] using hx hb
  · simpa only [if_neg hb] using hy hb

section Members

variable {γ : Type u} {l : List γ} {g : γ → Prop}

theorem decides_nil (a : α) : Decides (.ok a : Except ε α) (∀ n ∈ ([] : List γ), g n) fun v => v = a :=
  decides_eq a nofun

theorem Decides.ite_nil [Decidable b] {v w : α} (hy : ¬ b → Decides y (∀ n ∈ l, g n) fun o => o = w) :
    Decides (if b then .ok v else y) (∀ n ∈ if b then [] else l, g n) fun o => o = if b then v else w := by
  by_cases hb : b
  · simpa only [if_pos hb] using decides_nil v
  · simpa only [if_neg hb] using hy hb

end Members

theorem Decides.bind_yields_iff (h : Decides x c fun a => a = v) : Yields (x >>= f) r ↔ c ∧ Yields (f v) r := by
  constructor
  · rintro ⟨b, hb, hr⟩
    cases hx : x with
    | ok a =>
      have hc := h.2 ⟨a, hx⟩
      rw [hx, h.result hx] at hb
      exact ⟨hc, b, hb, hr⟩
    | error e =>
      rw [hx] at hb
      cases hb
  · rintro ⟨hc, hf⟩
    refine (h.1 hc).bind fun a ha => ?_
    rw [ha]
    exact hf

/-- A computation and a function of its result. -/
theorem yields_map_iff {g : α → β} : Yields (x >>= fun a => pure (g a)) r ↔ Yields x fun a => r (g a) := by
  constructor
  · rintro ⟨b, hb, hr⟩
    cases hx : x with
    | ok a =>
      rw [hx] at hb
      cases hb
      exact ⟨a, rfl, hr⟩
    | error e =>
      rw [hx] at hb
      cases hb
  · intro h
    exact h.bind fun a ha => yields_ok ha

/-- A step that decides with a known result, and then one that decides from there. -/
theorem Decides.bind_eq (h : Decides x c fun a => a = v) (hf : c → Decides (f v) d r) :
    Decides (x >>= f) (c ∧ d) r := by
  constructor
  · rintro ⟨hc, hd⟩
    refine (h.1 hc).bind fun a ha => ?_
    rw [ha]
    exact (hf hc).1 hd
  · rintro ⟨b, hb⟩
    cases hx : x with
    | ok a =>
      have hc := h.2 ⟨a, hx⟩
      rw [hx, h.result hx] at hb
      exact ⟨hc, (hf hc).2 ⟨b, hb⟩⟩
    | error e =>
      rw [hx] at hb
      cases hb

/-- A step that passes with a known result, and then one that decides from there. -/
theorem Yields.bind_eq (h : Yields x fun a => a = v) (hf : Decides (f v) d r) : Decides (x >>= f) d r :=
  (h.decides.bind_eq fun _ => hf).congr (true_and d).symm.to_iff

/-! ## Index checks -/

/-- The check that `i` is an index of `0 .. n - 1`. -/
def inRange (i n : Nat) (e : ε) : Except ε PUnit.{u + 1} := if i < n then .ok ⟨⟩ else .error e

theorem inRange_decides (i n : Nat) (e : ε) : Decides (inRange i n e) (i < n) fun a => a = PUnit.unit.{u + 1} := by
  unfold inRange
  by_cases h : i < n
  · rw [if_pos h]
    exact ⟨fun _ => yields_ok rfl, fun _ => h⟩
  · rw [if_neg h]
    exact decides_error h

end Aegir.Lib
