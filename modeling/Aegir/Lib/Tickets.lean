/-
  ONE-SHOT TICKETS with stamps.

  A client that starts to wait is issued a ticket; handing it in ends the wait.  A seat taken by a new client
  gets a new stamp, and a ticket bears the stamp of the client it was issued for: it may be STALE, and must
  then do nothing.

  `Exact` is the law: whoever waits has exactly one ticket with his stamp, and whoever is there and has such
  a ticket waits.  Five kinds of turns keep it (`Same`, `Drops`, `Wanes`, `Issues`, `Renews`); the last needs
  a stamp that no ticket bears, which `Numbered` gives.
-/
import Mathlib.Logic.Function.Basic

namespace Aegir.Lib

universe u v w

/-- Who is there, who waits, who was woken, the stamps, and which ticket lies at which place. -/
structure Tickets (π : Type u) (τ : Type v) (γ : Type w) where
  live : τ → Prop
  waiting : τ → Prop
  ready : τ → Prop
  stamp : τ → γ
  holds : π → τ → γ → Prop

namespace Tickets

variable {π : Type u} {τ : Type v} {γ : Type w} {B B' B'' : Tickets π τ γ} {p : π} {t : τ}

/-- The client is there and waits. -/
def Awaits (B : Tickets π τ γ) (t : τ) : Prop := B.live t ∧ B.waiting t

/-- **The law**: one current ticket for everybody who waits, none for anybody else who is there. -/
structure Exact (B : Tickets π τ γ) : Prop where
  one : ∀ t, B.Awaits t → ∃ p, B.holds p t (B.stamp t) ∧ ∀ q, B.holds q t (B.stamp t) → q = p
  only : ∀ t p, B.live t → B.holds p t (B.stamp t) → B.waiting t

/-! ## Turns -/

/-- Neither a wait nor a ticket moves. -/
structure Same (B B' : Tickets π τ γ) : Prop where
  live : ∀ t, B'.live t ↔ B.live t
  waiting : ∀ t, B'.waiting t ↔ B.waiting t
  stamp : ∀ t, B'.stamp t = B.stamp t
  holds : ∀ p t g, B'.holds p t g ↔ B.holds p t g

/-- The ticket at `p` is gone, and whoever waited with it is woken. -/
structure Drops (B B' : Tickets π τ γ) (p : π) : Prop where
  live : ∀ t, B'.live t ↔ B.live t
  waiting : ∀ t, B'.waiting t ↔ B.waiting t ∧ ¬ (B.live t ∧ B.holds p t (B.stamp t))
  stamp : ∀ t, B'.stamp t = B.stamp t
  holds : ∀ q t g, B'.holds q t g ↔ B.holds q t g ∧ q ≠ p
  ready : ∀ t, B.ready t → B'.ready t
  woken : ∀ t, B.Awaits t → B.holds p t (B.stamp t) → B'.ready t

/-- Clients leave, tickets go, and a wait of somebody who stays ends exactly with his ticket. -/
structure Wanes (B B' : Tickets π τ γ) : Prop where
  live : ∀ t, B'.live t → B.live t
  waiting : ∀ t, B'.Awaits t → B.waiting t
  stamp : ∀ t, B'.stamp t = B.stamp t
  holds : ∀ p t g, B'.holds p t g → B.holds p t g
  ready : ∀ t, B'.live t → B.ready t → B'.ready t
  kept : ∀ t, B'.Awaits t → ∀ p, B.holds p t (B.stamp t) → B'.holds p t (B.stamp t)
  spent : ∀ t, B'.live t → B.waiting t → ¬ B'.waiting t →
    B'.ready t ∧ ∀ p, ¬ B'.holds p t (B.stamp t)

/-- A client who did not wait starts to, with a ticket at a place that was free. -/
structure Issues (B B' : Tickets π τ γ) (p : π) (t : τ) : Prop where
  present : B.live t
  idle : ¬ B.waiting t
  vacant : ∀ u g, ¬ B.holds p u g
  live : ∀ u, B'.live u ↔ B.live u
  waiting : ∀ u, B'.waiting u ↔ B.waiting u ∨ u = t
  stamp : ∀ u, B'.stamp u = B.stamp u
  holds : ∀ q u g, B'.holds q u g ↔ B.holds q u g ∨ (q = p ∧ u = t ∧ g = B.stamp t)

/-- A seat on which nobody waits gets a client who does not wait, and perhaps a new stamp. -/
structure Renews (B B' : Tickets π τ γ) (t : τ) : Prop where
  idle : ¬ B.Awaits t
  calm : ¬ B'.waiting t
  live : ∀ u, u ≠ t → (B'.live u ↔ B.live u)
  waiting : ∀ u, u ≠ t → (B'.waiting u ↔ B.waiting u)
  stamp : ∀ u, u ≠ t → B'.stamp u = B.stamp u
  holds : ∀ p u g, B'.holds p u g ↔ B.holds p u g

/-! ## Composition -/

namespace Same

theorem refl (B : Tickets π τ γ) : Same B B :=
  ⟨fun _ => Iff.rfl, fun _ => Iff.rfl, fun _ => rfl, fun _ _ _ => Iff.rfl⟩

theorem trans (h : Same B B') (h' : Same B' B'') : Same B B'' :=
  ⟨fun t => (h'.live t).trans (h.live t), fun t => (h'.waiting t).trans (h.waiting t),
    fun t => (h'.stamp t).trans (h.stamp t), fun p t g => (h'.holds p t g).trans (h.holds p t g)⟩

theorem awaits (h : Same B B') (t : τ) : B'.Awaits t ↔ B.Awaits t :=
  and_congr (h.live t) (h.waiting t)

/-- Nothing that moves nothing moves a wait. -/
theorem wanes (h : Same B B') (hready : ∀ t, B'.live t → B.ready t → B'.ready t) : Wanes B B' where
  live t := (h.live t).mp
  waiting t ht := (h.waiting t).mp ht.2
  stamp := h.stamp
  holds p t g := (h.holds p t g).mp
  ready := hready
  kept t _ p := (h.holds p t _).mpr
  spent t _ hw hn := absurd ((h.waiting t).mpr hw) hn

/-- The law only looks at what stays. -/
theorem exact (h : Same B B') (hB : Exact B) : Exact B' := by
  refine ⟨fun t ht => ?_, fun t p hl hp => ?_⟩
  · obtain ⟨p, hp, hone⟩ := hB.one t ((h.awaits t).mp ht)
    refine ⟨p, ?_, fun q hq => hone q ?_⟩
    · rw [h.stamp]
      exact (h.holds p t _).mpr hp
    · rw [h.stamp] at hq
      exact (h.holds q t _).mp hq
  · rw [h.stamp] at hp
    exact (h.waiting t).mpr (hB.only t p ((h.live t).mp hl) ((h.holds p t _).mp hp))

end Same

/-- Handing in one ticket, under the law. -/
theorem Drops.wanes (h : Drops B B' p) (hB : Exact B) : Wanes B B' where
  live t := (h.live t).mp
  waiting t ht := ((h.waiting t).mp ht.2).1
  stamp := h.stamp
  holds q t g hq := ((h.holds q t g).mp hq).1
  ready t _ := h.ready t
  kept t ht q hq := by
    -- a client who still waits did not wait with the ticket at `p`
    have hnot := ((h.waiting t).mp ht.2).2
    refine (h.holds q t _).mpr ⟨hq, ?_⟩
    rintro rfl
    exact hnot ⟨(h.live t).mp ht.1, hq⟩
  spent t hl hw hn := by
    have hlive := (h.live t).mp hl
    have hp : B.holds p t (B.stamp t) := by
      by_contra hp
      exact hn ((h.waiting t).mpr ⟨hw, fun hc => hp hc.2⟩)
    refine ⟨h.woken t ⟨hlive, hw⟩ hp, fun q hq => ?_⟩
    -- the ticket at `p` was the only one
    obtain ⟨r, -, hone⟩ := hB.one t ⟨hlive, hw⟩
    obtain ⟨hq, hne⟩ := (h.holds q t _).mp hq
    exact hne ((hone q hq).trans (hone p hp).symm)

namespace Wanes

theorem refl (B : Tickets π τ γ) : Wanes B B := (Same.refl B).wanes fun _ _ h => h

theorem trans (h : Wanes B B') (h' : Wanes B' B'') : Wanes B B'' where
  live t ht := h.live t (h'.live t ht)
  waiting t ht := h.waiting t ⟨h'.live t ht.1, h'.waiting t ht⟩
  stamp t := (h'.stamp t).trans (h.stamp t)
  holds p t g hp := h.holds p t g (h'.holds p t g hp)
  ready t hl hr := h'.ready t hl (h.ready t (h'.live t hl) hr)
  kept t ht p hp := by
    have hmid := h.kept t ⟨h'.live t ht.1, h'.waiting t ht⟩ p hp
    have hlast := h'.kept t ht p
    rw [h.stamp] at hlast
    exact hlast hmid
  spent t hl hw hn := by
    by_cases hmid : B'.waiting t
    · have hs := h'.spent t hl hmid hn
      rw [h.stamp] at hs
      exact hs
    · obtain ⟨hr, hs⟩ := h.spent t (h'.live t hl) hw hmid
      exact ⟨h'.ready t hl hr, fun p hp => hs p (h'.holds p t _ hp)⟩

/-- **Whatever goes, the law stays.** -/
theorem exact (h : Wanes B B') (hB : Exact B) : Exact B' := by
  refine ⟨fun t ht => ?_, fun t p hl hp => ?_⟩
  · obtain ⟨p, hp, hone⟩ := hB.one t ⟨h.live t ht.1, h.waiting t ht⟩
    rw [h.stamp]
    exact ⟨p, h.kept t ht p hp, fun q hq => hone q (h.holds q t _ hq)⟩
  · rw [h.stamp] at hp
    have hw := hB.only t p (h.live t hl) (h.holds p t _ hp)
    by_contra hn
    exact (h.spent t hl hw hn).2 p hp

end Wanes

/-- Nothing moves before the ticket is issued. -/
theorem Issues.after (h : Same B B') (h' : Issues B' B'' p t) : Issues B B'' p t where
  present := (h.live t).mp h'.present
  idle ht := h'.idle ((h.waiting t).mpr ht)
  vacant u g hp := h'.vacant u g ((h.holds p u g).mpr hp)
  live u := (h'.live u).trans (h.live u)
  waiting u := (h'.waiting u).trans (or_congr_left (h.waiting u))
  stamp u := (h'.stamp u).trans (h.stamp u)
  holds q u g := by
    rw [h'.holds, h.holds, h.stamp]

theorem Issues.exact (h : Issues B B' p t) (hB : Exact B) : Exact B' := by
  -- whoever does not wait has no current ticket
  have hnone : ∀ q, ¬ B.holds q t (B.stamp t) := fun q hq => h.idle (hB.only t q h.present hq)
  refine ⟨fun u hu => ?_, fun u q hl hq => ?_⟩
  · rw [h.stamp]
    by_cases hut : u = t
    · subst hut
      refine ⟨p, (h.holds p u _).mpr (.inr ⟨rfl, rfl, rfl⟩), fun q hq => ?_⟩
      rcases (h.holds q u _).mp hq with hq | ⟨hq, -⟩
      · exact absurd hq (hnone q)
      · exact hq
    · obtain ⟨q, hq, hone⟩ := hB.one u ⟨(h.live u).mp hu.1, ((h.waiting u).mp hu.2).resolve_right hut⟩
      refine ⟨q, (h.holds q u _).mpr (.inl hq), fun r hr => ?_⟩
      rcases (h.holds r u _).mp hr with hr | ⟨-, hr, -⟩
      · exact hone r hr
      · exact absurd hr hut
  · rw [h.stamp] at hq
    rcases (h.holds q u _).mp hq with hq | ⟨-, hut, -⟩
    · exact (h.waiting u).mpr (.inl (hB.only u q ((h.live u).mp hl) hq))
    · exact (h.waiting u).mpr (.inr hut)

namespace Renews

/-- Nothing but the new client moves afterwards. -/
theorem before (h : Renews B B' t) (h' : Renews B' B'' t) : Renews B B'' t where
  idle := h.idle
  calm := h'.calm
  live u hu := (h'.live u hu).trans (h.live u hu)
  waiting u hu := (h'.waiting u hu).trans (h.waiting u hu)
  stamp u hu := (h'.stamp u hu).trans (h.stamp u hu)
  holds p u g := (h'.holds p u g).trans (h.holds p u g)

/-- A turn that moves nothing may be seen as one at a seat on which nobody waits. -/
theorem of_same (h : Same B B') (hcalm : ¬ B.waiting t) : Renews B B' t where
  idle ht := hcalm ht.2
  calm ht := hcalm ((h.waiting t).mp ht)
  live u _ := h.live u
  waiting u _ := h.waiting u
  stamp u _ := h.stamp u
  holds := h.holds

theorem exact (h : Renews B B' t) (hfresh : ∀ p, ¬ B.holds p t (B'.stamp t)) (hB : Exact B) : Exact B' := by
  refine ⟨fun u hu => ?_, fun u p hl hp => ?_⟩
  · have hut : u ≠ t := by
      rintro rfl
      exact h.calm hu.2
    obtain ⟨p, hp, hone⟩ := hB.one u ⟨(h.live u hut).mp hu.1, (h.waiting u hut).mp hu.2⟩
    rw [h.stamp u hut]
    exact ⟨p, (h.holds p u _).mpr hp, fun q hq => hone q ((h.holds q u _).mp hq)⟩
  · have hp := (h.holds p u _).mp hp
    have hut : u ≠ t := by
      rintro rfl
      exact hfresh p hp
    rw [h.stamp u hut] at hp
    exact (h.waiting u hut).mpr (hB.only u p ((h.live u hut).mp hl) hp)

end Renews

/-! ## Stamps in order -/

variable {val : γ → Nat} {N N' : τ → Nat}

/-- `N t` stamps were given out for the seat `t`: the current one and those on its tickets. -/
structure Numbered (val : γ → Nat) (N : τ → Nat) (B : Tickets π τ γ) : Prop where
  ticket : ∀ p t g, B.holds p t g → val g < N t
  client : ∀ t, B.live t → val (B.stamp t) < N t

/-- One turn, with the number of stamps given out. -/
inductive Turn (val : γ → Nat) (B B' : Tickets π τ γ) (N N' : τ → Nat) : Prop
  | same (h : Same B B') (count : ∀ t, N' t = N t)
  | wanes (h : Wanes B B') (count : ∀ t, N' t = N t)
  | issues (p : π) (t : τ) (h : Issues B B' p t) (count : ∀ u, N' u = N u)
  | renews (t : τ) (h : Renews B B' t) (next : val (B'.stamp t) = N t) (one : N' t = N t + 1)
      (count : ∀ u, u ≠ t → N' u = N u)

namespace Turn

/-- **Every turn keeps the law.** -/
theorem exact (h : Turn val B B' N N') (hB : Exact B) (hN : Numbered val N B) : Exact B' ∧ Numbered val N' B' := by
  cases h with
  | same h count =>
    refine ⟨h.exact hB, fun p t g hp => ?_, fun t hl => ?_⟩
    · rw [count]
      exact hN.ticket p t g ((h.holds p t g).mp hp)
    · rw [count, h.stamp]
      exact hN.client t ((h.live t).mp hl)
  | wanes h count =>
    refine ⟨h.exact hB, fun p t g hp => ?_, fun t hl => ?_⟩
    · rw [count]
      exact hN.ticket p t g (h.holds p t g hp)
    · rw [count, h.stamp]
      exact hN.client t (h.live t hl)
  | issues p t h count =>
    refine ⟨h.exact hB, fun q u g hq => ?_, fun u hl => ?_⟩
    · rw [count]
      rcases (h.holds q u g).mp hq with hq | ⟨-, rfl, rfl⟩
      · exact hN.ticket q u g hq
      · exact hN.client u h.present
    · rw [count, h.stamp]
      exact hN.client u ((h.live u).mp hl)
  | renews t h next one count =>
    -- the new stamp has the next number, and all tickets bear earlier ones
    have hfresh : ∀ p, ¬ B.holds p t (B'.stamp t) := by
      intro p hp
      have := hN.ticket p t _ hp
      omega
    refine ⟨h.exact hfresh hB, fun p u g hp => ?_, fun u hl => ?_⟩
    · have hold := hN.ticket p u g ((h.holds p u g).mp hp)
      by_cases hut : u = t
      · subst hut
        omega
      · rw [count u hut]
        exact hold
    · by_cases hut : u = t
      · subst hut
        omega
      · rw [count u hut, h.stamp u hut]
        exact hN.client u ((h.live u hut).mp hl)

/-- **A wait ends with its ticket, and only with it**: whoever waited and is still there either goes on
    waiting with the same ticket, or was woken and the ticket is gone. -/
theorem ends (h : Turn val B B' N N') (ht : B.Awaits t) (hp : B.holds p t (B.stamp t)) (hl : B'.live t) :
    (B'.waiting t ∧ B'.stamp t = B.stamp t ∧ B'.holds p t (B.stamp t)) ∨
    (¬ B'.waiting t ∧ ¬ B'.holds p t (B.stamp t) ∧ B'.ready t) := by
  cases h with
  | same h count => exact .inl ⟨(h.waiting t).mpr ht.2, h.stamp t, (h.holds p t _).mpr hp⟩
  | wanes h count =>
    by_cases hw : B'.waiting t
    · exact .inl ⟨hw, h.stamp t, h.kept t ⟨hl, hw⟩ p hp⟩
    · obtain ⟨hr, hs⟩ := h.spent t hl ht.2 hw
      exact .inr ⟨hw, hs p, hr⟩
  | issues q u h count =>
    exact .inl ⟨(h.waiting t).mpr (.inl ht.2), h.stamp t, (h.holds p t _).mpr (.inl hp)⟩
  | renews u h next one count =>
    have htu : t ≠ u := by
      rintro rfl
      exact h.idle ht
    exact .inl ⟨(h.waiting t htu).mpr ht.2, h.stamp t htu, (h.holds p t _).mpr hp⟩

end Turn

/-! ## Histories -/

/-- In a sequence of turns: the ticket at `p` was issued by turn `m`, when `t` did not wait, and ever
    since, up to `i`, it has been there and `t` has waited, with the stamp `g`. -/
structure Since (B : Nat → Tickets π τ γ) (m i : Nat) (p : π) (t : τ) (g : γ) : Prop where
  before : m < i
  unissued : ¬ (B m).holds p t g
  idle : ¬ (B m).Awaits t
  throughout : ∀ j, m < j → j ≤ i → (B j).Awaits t ∧ (B j).stamp t = g ∧ (B j).holds p t g

theorem Since.extend {B : Nat → Tickets π τ γ} {m i : Nat} {g : γ} (h : Since B m i p t g)
    (hw : (B (i + 1)).Awaits t) (hg : (B (i + 1)).stamp t = g) (hp : (B (i + 1)).holds p t g) :
    Since B m (i + 1) p t g := by
  refine ⟨by have := h.before; omega, h.unissued, h.idle, fun j hj hji => ?_⟩
  rcases Nat.lt_or_eq_of_le hji with hlt | rfl
  · exact h.throughout j hj (by omega)
  · exact ⟨hw, hg, hp⟩

section Runs

variable {B : Nat → Tickets π τ γ} {N : Nat → τ → Nat} {n : Nat}

/-- The law holds all along, together with whatever else the turns need. -/
theorem exact_throughout {Q : Nat → Prop} (h0 : Exact (B 0)) (hN : Numbered val (N 0) (B 0)) (hQ : Q 0)
    (hturn : ∀ i, i < n → Exact (B i) → Q i → Turn val (B i) (B (i + 1)) (N i) (N (i + 1)) ∧ Q (i + 1)) :
    ∀ i, i ≤ n → Exact (B i) ∧ Numbered val (N i) (B i) ∧ Q i := by
  intro i
  induction i with
  | zero => exact fun _ => ⟨h0, hN, hQ⟩
  | succ i ih =>
    intro hi
    obtain ⟨hB, hNi, hQi⟩ := ih (by omega)
    obtain ⟨hnext, hQ'⟩ := hturn i hi hB hQi
    obtain ⟨hB', hN'⟩ := hnext.exact hB hNi
    exact ⟨hB', hN', hQ'⟩

/-- **A current ticket was issued when the wait began.** -/
theorem exists_since (h0 : ∀ t, ¬ (B 0).Awaits t) (hexact : ∀ i, i ≤ n → Exact (B i))
    (hturn : ∀ i, i < n → Turn val (B i) (B (i + 1)) (N i) (N (i + 1))) :
    ∀ i, i ≤ n → ∀ p t, (B i).Awaits t → (B i).holds p t ((B i).stamp t) →
      ∃ m, Since B m i p t ((B i).stamp t) := by
  intro i
  induction i with
  | zero => exact fun _ p t ht => absurd ht (h0 t)
  | succ i ih =>
    intro hi p t ht hp
    -- where the wait and the ticket were there before, the history goes on
    have hmore : (B i).Awaits t → (B (i + 1)).stamp t = (B i).stamp t →
        (B i).holds p t ((B i).stamp t) → ∃ m, Since B m (i + 1) p t ((B (i + 1)).stamp t) := by
      intro hw hg hold
      obtain ⟨m, hm⟩ := ih (by omega) p t hw hold
      rw [← hg] at hm
      exact ⟨m, hm.extend ht rfl hp⟩
    cases hturn i hi with
    | same h count =>
      have hg := h.stamp t
      rw [hg] at hp
      exact hmore ((h.awaits t).mp ht) hg ((h.holds p t _).mp hp)
    | wanes h count =>
      have hg := h.stamp t
      rw [hg] at hp
      exact hmore ⟨h.live t ht.1, h.waiting t ht⟩ hg (h.holds p t _ hp)
    | issues q u h count =>
      have hg := h.stamp t
      rw [hg] at hp
      by_cases htu : t = u
      · -- this very turn issued the ticket
        subst htu
        have hnew : p = q := by
          rcases (h.holds p t _).mp hp with hold | ⟨hpq, -⟩
          · exact absurd ((hexact i (by omega)).only t p h.present hold) h.idle
          · exact hpq
        subst hnew
        refine ⟨i, by omega, h.vacant t _, fun hw => h.idle hw.2, fun j hj hji => ?_⟩
        obtain rfl : j = i + 1 := by omega
        refine ⟨ht, rfl, ?_⟩
        rw [hg]
        exact hp
      · have hw : (B i).Awaits t := ⟨(h.live t).mp ht.1, ((h.waiting t).mp ht.2).resolve_right htu⟩
        refine hmore hw hg ?_
        rcases (h.holds p t _).mp hp with hold | ⟨-, htu', -⟩
        · exact hold
        · exact absurd htu' htu
    | renews u h next one count =>
      have htu : t ≠ u := by
        rintro rfl
        exact h.calm ht.2
      have hg := h.stamp t htu
      rw [hg] at hp
      exact hmore ⟨(h.live t htu).mp ht.1, (h.waiting t htu).mp ht.2⟩ hg ((h.holds p t _).mp hp)

end Runs

end Tickets

end Aegir.Lib
