/-
  The operations of `Kernel.Tasks` and the loops over them are cap steps.

  Bottom up: one insert, one close, one raw close; then the cap loop of a message, its rollback, the
  grant loop of a spawn, and the loop that closes a whole table.
-/
import Aegir.Laws.CapSteps

namespace Aegir.Kernel

open Aegir.Arch Ledger

namespace Ledger

variable {L L' : Ledger} {fresh : Option (Pool × Nat)}

theorem SameCaps.refl (hL : L.Counted fresh) : SameCaps L L :=
  ⟨fun _ => rfl, hL.table, hL.pmm, rfl, rfl, rfl⟩

theorem SameCaps.setCaps_self (hL : L.Counted fresh) (p : Nat) {pmm : Pmm} (hpmm : pmm.Wf) :
    SameCaps L (L.setCaps p (L.caps p) pmm) := by
  have hcaps : (L.setCaps p (L.caps p) pmm).caps = L.caps := Function.update_eq_self p L.caps
  exact ⟨fun q => by rw [hcaps], fun q => by rw [hcaps]; exact hL.table q, hpmm, rfl, rfl, rfl⟩

theorem CapSteps.of_same {actor : Nat} {target : Nat → Prop} (h : SameCaps L L') :
    CapSteps actor target L L' := .frame (.refl L) h

theorem CapSteps.of_eq {actor : Nat} {target : Nat → Prop} (h : L' = L) : CapSteps actor target L L' := by
  subst h
  exact .refl _

end Ledger

namespace State

variable {k k' : State} {fresh : Option (Pool × Nat)} {actor : Nat} {target : Nat → Prop}

/-! ## Insert -/

variable {e : CapEntry} {rights : Rights} {badge : U64} {cap o p t : Nat} {kind : ObjectKind} {s : CapStatus}

theorem slotted_of_range (hL : k.ledger.Counted fresh)
    (hs : ∀ P, e.kind.pool = some P → 1 ≤ e.object ∧ e.object ≤ (k.ledger.slab P).carved) :
    k.ledger.Slotted e := by
  intro P hP
  obtain ⟨h1, h2⟩ := hs P hP
  refine ⟨h1, h2, ?_⟩
  rw [hL.count P _ h1 h2]
  exact refs_lt_pinned _ P _

theorem insertProcessCapAt_ok (hL : k.ledger.Counted fresh) (hcap : cap ≤ handleLast)
    (hs : ∀ P, kind.pool = some P → 1 ≤ o ∧ o ≤ (k.ledger.slab P).carved)
    (h : k.insertProcessCapAt p cap kind o rights badge = (.ok, k')) :
    k.ledger.Inserted k'.ledger p cap ⟨true, kind, o, rights, badge⟩ := by
  unfold insertProcessCapAt at h
  split at h
  · rename_i t pmm hins
    cases h
    obtain ⟨-, -, hnull, hget, ht, hpmm⟩ := CapTable.insertAt_ok (hL.table p) hL.pmm hcap hins
    have hsl : (k.setCaps p t pmm).ledger.Slotted ⟨true, kind, o, rights, badge⟩ := by
      rw [ledger_setCaps]
      exact slotted_of_range hL hs
    exact ⟨t, pmm, by rw [ledger_retainCap _ _ rfl hsl, ledger_setCaps], ht, hpmm, hget, hcap, hnull,
      rfl⟩
  · rename_i s t pmm hne hins
    cases h
    exact absurd rfl hne

theorem insertProcessCapAt_error (hL : k.ledger.Counted fresh) (hne : s ≠ .ok)
    (h : k.insertProcessCapAt p cap kind o rights badge = (s, k')) :
    k.ledger.SameCaps k'.ledger := by
  unfold insertProcessCapAt at h
  split at h
  · cases h
    exact absurd rfl hne
  · rename_i s' t pmm _ hins
    cases h
    obtain ⟨rfl, hpmm⟩ := CapTable.insertAt_error hL.pmm hne hins
    rw [ledger_setCaps]
    exact SameCaps.setCaps_self hL p hpmm

/-- **An insert is one at the lowest free handle**, or leaves the state alone. -/
theorem insertCap_cases (k : State) (t : Nat) (kind : ObjectKind) (o : Nat) (rights : Rights) (badge : U64) :
    (∃ s, k.insertCap t kind o rights badge = (.error s, k)) ∨
      ∃ cap, cap ≤ handleLast ∧ k.insertCap t kind o rights badge =
        match k.insertProcessCapAt (k.tcb t).process cap kind o rights badge with
        | (.ok, k') => (.ok cap, k')
        | (s, k') => (.error s, k') := by
  unfold insertCap
  split
  · exact .inl ⟨_, rfl⟩
  · unfold insertProcessCap insertProcessCapAt
    rcases CapTable.insert_cases (k.pcb (k.tcb t).process).caps kind o rights badge k.pmm with
      ⟨s, heq⟩ | ⟨cap, hfree, heq⟩ <;> rw [heq]
    · refine .inl ⟨s, congrArg (Prod.mk _) ?_⟩
      have hpcb := Function.update_eq_self (k.tcb t).process k.pcb
      show { k with pcb := Function.update k.pcb _ _ } = k
      rw [hpcb]
    · obtain ⟨-, hlt, -⟩ := CapTable.lowestFree_some hfree
      refine .inr ⟨cap, by omega, ?_⟩
      cases (k.pcb (k.tcb t).process).caps.insertAt cap kind o rights badge k.pmm with
      | mk s r => cases s <;> rfl

theorem insertCap_ind {R : State → Prop} (hk : R k)
    (hat : ∀ cap, R (k.insertProcessCapAt (k.tcb t).process cap kind o rights badge).2) :
    R (k.insertCap t kind o rights badge).2 := by
  rcases insertCap_cases k t kind o rights badge with ⟨s, heq⟩ | ⟨cap, -, heq⟩ <;> rw [heq]
  · exact hk
  · have h := hat cap
    split <;> rename_i hins <;> rw [hins] at h <;> exact h

theorem insertCap_ok (hL : k.ledger.Counted fresh)
    (hs : ∀ P, kind.pool = some P → 1 ≤ o ∧ o ≤ (k.ledger.slab P).carved)
    (h : k.insertCap t kind o rights badge = (.ok cap, k')) :
    k.ledger.Inserted k'.ledger (k.tcb t).process cap ⟨true, kind, o, rights, badge⟩ := by
  rcases insertCap_cases k t kind o rights badge with ⟨s, heq⟩ | ⟨c, hcap, heq⟩ <;> rw [heq] at h
  · cases h
  · split at h <;> cases h
    exact insertProcessCapAt_ok hL hcap hs ‹_›

theorem insertCap_error (hL : k.ledger.Counted fresh)
    (h : k.insertCap t kind o rights badge = (.error s, k')) : k.ledger.SameCaps k'.ledger := by
  rcases insertCap_cases k t kind o rights badge with ⟨s, heq⟩ | ⟨c, -, heq⟩ <;> rw [heq] at h
  · cases h
    exact .refl hL
  · split at h <;> cases h
    exact insertProcessCapAt_error hL ‹_› ‹_›

theorem insertCap_steps (target : Nat → Prop) (hL : k.ledger.Counted fresh) (ht : target (k.tcb t).process)
    (ho : k.ledger.Origin actor ⟨true, kind, o, rights, badge⟩) :
    k.ledger.CapSteps actor target (k.insertCap t kind o rights badge).2.ledger := by
  cases h : k.insertCap t kind o rights badge with
  | mk r k' =>
    cases r with
    | error s => exact .of_same (insertCap_error hL h)
    | ok cap =>
      refine .insert (.refl _) ht ho (insertCap_ok hL (fun P hP => ?_) h)
      obtain ⟨h1, h2, -⟩ := ho.referenced hL P hP
      exact ⟨h1, h2⟩

/-! ## Close -/

/-- **`Close_Cap`** removes a valid entry, and does nothing else to the ledger. -/
theorem closeCap_cases (cap : Nat) (hL : k.ledger.Counted fresh) (ht : t ≠ 0) (dying : Bool) :
    ((k.closeCap t cap dying).1 ≠ .ok ∧ (k.closeCap t cap dying).2 = k ∧
      ((k.tcb t).process ≠ 0 → (k.ledger.entry (k.tcb t).process cap).valid = false)) ∨
    ((k.closeCap t cap dying).1 = .ok ∧
      k.ledger.Removed (k.closeCap t cap dying).2.ledger (k.tcb t).process cap) := by
  unfold closeCap
  split
  · rename_i h0
    exact .inl ⟨by simp, rfl, fun h => absurd h0 h⟩
  · split
    · rename_i hlook
      refine .inl ⟨by simp, rfl, fun _ => ?_⟩
      by_contra hv
      rw [Bool.not_eq_false] at hv
      have hcap := ((hL.table (k.tcb t).process).handle cap hv).1
      unfold CapTable.lookup at hlook
      rw [if_neg (by rw [not_or]; exact ⟨by omega, by rw [Bool.not_eq_false]; exact hv⟩)] at hlook
      cases hlook
    · rename_i e hlook
      obtain ⟨-, hget, hv⟩ := CapTable.lookup_eq_some hlook
      -- `e` is the entry at the handle, so its object can be released
      have hent : k.ledger.entry (k.tcb t).process cap = e := hget
      have hve : (k.ledger.entry (k.tcb t).process cap).valid = true := by rw [hent]; exact hv
      have hled : (k.cleanupThreadCapObject t e dying).ledger = k.ledger.release e :=
        ledger_cleanupThreadCapObject k t e dying ht hv (hent ▸ hL.slotted hve) fun P hP => by
            have := hL.count_ne_zero hve (P := P) (by rw [hent]; exact hP)
            rw [hent] at this
            exact this
      generalize k.cleanupThreadCapObject t e dying = k₁ at hled ⊢
      have hproc : (k₁.tcb t).process = (k.tcb t).process := by
        have := congrArg (fun M => M.life.process t) hled
        simp only [release_life] at this
        exact this
      have hcaps : ∀ p, (k₁.pcb p).caps = (k.pcb p).caps := by
        intro p
        have := congrArg (fun M => M.caps p) hled
        simp only [release_caps] at this
        exact this
      have hpmm : k₁.pmm.Wf := by
        have := release_pmm hL.pmm e
        rw [← hled] at this
        exact this
      have hof : k₁.capsOf t = (k.pcb (k.tcb t).process).caps := by
        unfold capsOf
        rw [hproc, hcaps]
      dsimp only
      rw [hof, hproc]
      obtain ⟨hok, hget', hwf', hpmm'⟩ := CapTable.close_valid cap (hL.table (k.tcb t).process) hpmm hve
      refine .inr ⟨hok, _, _, ?_, hwf', hpmm', hget', hve⟩
      rw [ledger_setCaps, hled, hent]
      rfl

theorem closeCap_steps (actor : Nat) (target : Nat → Prop) (cap : Nat)
    (hL : k.ledger.Counted fresh) (ht : t ≠ 0) (dying : Bool) :
    k.ledger.CapSteps actor target (k.closeCap t cap dying).2.ledger := by
  rcases closeCap_cases cap hL ht dying with ⟨-, h, -⟩ | ⟨-, h⟩
  · exact .of_eq (by rw [h])
  · exact .remove (.refl _) h

theorem forgetCap_removed (hL : k.ledger.Counted fresh) (hp : (k.tcb t).process ≠ 0)
    (hv : (k.ledger.entry (k.tcb t).process cap).valid = true)
    (hkind : (k.ledger.entry (k.tcb t).process cap).kind.pool = none) :
    k.ledger.Removed (k.forgetCap t cap).ledger (k.tcb t).process cap := by
  unfold forgetCap
  rw [if_neg hp]
  rw [ledger_setCaps]
  obtain ⟨-, hget', hwf', hpmm'⟩ := CapTable.close_valid cap (hL.table (k.tcb t).process) hL.pmm hv
  refine ⟨_, _, ?_, hwf', hpmm', hget', hv⟩
  have hrel : k.ledger.release (k.ledger.entry (k.tcb t).process cap) = k.ledger := by
    unfold release
    rw [hkind]
  rw [hrel]
  rfl

theorem forgetCap_steps (hL : k.ledger.Counted fresh)
    (hkind : (k.ledger.entry (k.tcb t).process cap).kind.pool = none) :
    k.ledger.CapSteps actor target (k.forgetCap t cap).ledger := by
  by_cases hp : (k.tcb t).process = 0
  · unfold forgetCap
    rw [if_pos hp]
    exact .refl _
  · by_cases hv : (k.ledger.entry (k.tcb t).process cap).valid = true
    · exact .remove (.refl _) (forgetCap_removed hL hp hv hkind)
    · unfold forgetCap
      rw [if_neg hp]
      rw [ledger_setCaps]
      have hv : ((k.capsOf t).get cap).valid = false := by simpa [entry, capsOf] using hv
      rw [CapTable.close_invalid hv]
      exact .of_same (SameCaps.setCaps_self hL _ hL.pmm)

/-! ## Loops -/

variable {receiver child parent : Nat}

theorem hasRights_refl (r : Rights) : hasRights r r = true := by
  simp [hasRights]

theorem lookupCap_eq_some (h : k.lookupCap t cap = some e) :
    k.ledger.entry (k.tcb t).process cap = e ∧ e.valid = true := by
  unfold lookupCap at h
  split at h
  · cases h
  · obtain ⟨-, hget, hv⟩ := CapTable.lookup_eq_some h
    exact ⟨hget, hv⟩

/-- A cap with fewer rights comes from the one that is looked up. -/
theorem lookupCap_copied {rights : Rights} (badge : U64) (h : k.lookupCap t cap = some e) (hkind : e.kind ≠ .replyObject)
    (hrights : hasRights e.rights rights = true) :
    k.ledger.Origin (k.tcb t).process ⟨true, e.kind, e.object, rights, badge⟩ := by
  obtain ⟨hent, hv⟩ := lookupCap_eq_some h
  subst hent
  exact .copy cap hv rfl rfl hkind hrights

theorem process_of_steps (h : k.ledger.CapSteps actor target k'.ledger) (t : Nat) :
    (k'.tcb t).process = (k.tcb t).process :=
  congrFun (congrArg Life.process h.life) t

theorem rollback_steps (hr : receiver ≠ 0)
    (htarget : ∀ p, target p → p ≤ initProcess) (handles : List Nat) (k : State)
    (hL : k.ledger.Counted fresh) :
    k.ledger.CapSteps actor target (k.rollback receiver handles).ledger := by
  induction handles generalizing k with
  | nil => exact .refl _
  | cons h hs ih =>
    have hstep : k.ledger.CapSteps actor target (if h ≠ 0 then (k.closeCap receiver h false).2 else k).ledger := by
      split
      · exact closeCap_steps _ _ _ hL hr false
      · exact .refl _
    exact hstep.trans (ih _ (hstep.counted htarget hL))

theorem transferCaps_steps (sender : Nat) (hr : receiver ≠ 0)
    (htarget : ∀ p, target p → p ≤ initProcess) (raws : List U64) (done : List Nat) (k : State)
    (hL : k.ledger.Counted fresh) (ht : target (k.tcb receiver).process) :
    k.ledger.CapSteps (k.tcb sender).process target
      (k.transferCaps sender receiver raws done).2.ledger := by
  induction raws generalizing k done with
  | nil => exact .refl _
  | cons raw raws ih =>
    unfold transferCaps
    split
    · exact ih _ k hL ht
    · split
      · exact rollback_steps hr htarget done k hL
      · split
        · exact rollback_steps hr htarget done k hL
        · rename_i e hlook
          split
          · exact rollback_steps hr htarget done k hL
          · rename_i hok
            rw [not_or] at hok
            have horig := lookupCap_copied e.badge hlook hok.2 (hasRights_refl _)
            have hstep := insertCap_steps target hL ht horig
            split
            · rename_i s k₁ hins
              rw [hins] at hstep
              exact hstep.trans (rollback_steps hr htarget done k₁ (hstep.counted htarget hL))
            · rename_i h k₁ hins
              rw [hins] at hstep
              have hproc := process_of_steps hstep
              have hrest := ih (done ++ [h]) k₁ (hstep.counted htarget hL) (by rw [hproc]; exact ht)
              rw [hproc] at hrest
              exact hstep.trans hrest

theorem transferMessage_steps (target : Nat → Prop) (sender : Nat) (hr : receiver ≠ 0)
    (htarget : ∀ p, target p → p ≤ initProcess) (k : State) (badge : U64)
    (hL : k.ledger.Counted fresh) (ht : target (k.tcb receiver).process) :
    k.ledger.CapSteps (k.tcb sender).process target
      (k.transferMessage sender receiver badge).2.ledger := by
  unfold transferMessage
  split
  · rename_i sf rf _ _
    have hstep := transferCaps_steps sender hr htarget ((List.range 4).map (k.memory sf).cap) [] k hL ht
    dsimp only
    split
    · rename_i k₁ hcaps
      rw [hcaps] at hstep
      exact hstep
    · rename_i handles k₁ hcaps
      rw [hcaps] at hstep
      exact hstep
  · exact .refl _

theorem mintReplyCap_steps (actor caller : Nat) (k : State)
    (hL : k.ledger.Counted fresh) (ht : target (k.tcb receiver).process) :
    k.ledger.CapSteps actor target (k.mintReplyCap receiver caller).2.ledger := by
  have horig : k.ledger.Origin actor ⟨true, .replyObject, caller, noRights,
      (k.tcb caller).replyGeneration⟩ := .reply rfl rfl
  have hstep := insertCap_steps (k := k) target hL ht horig
  unfold mintReplyCap
  split
  · rename_i s k₁ hins
    rw [hins] at hstep
    exact hstep
  · rename_i h k₁ hins
    rw [hins] at hstep
    rw [ledger_modTcb _ _ _ rfl Iff.rfl rfl]
    exact hstep

theorem closeCaps_steps (actor : Nat) (target : Nat → Prop) {thread : Nat} (ht : thread ≠ 0)
    (htarget : ∀ p, target p → p ≤ initProcess) (n cap : Nat) (k : State)
    (hL : k.ledger.Counted fresh) :
    k.ledger.CapSteps actor target (k.closeCaps thread cap n).ledger := by
  induction n generalizing k cap with
  | zero => exact .refl _
  | succ n ih =>
    have hstep := closeCap_steps (k := k) actor target cap hL ht true
    exact hstep.trans (ih (cap + 1) _ (hstep.counted htarget hL))

theorem cleanupCapRefs_steps (actor : Nat) (target : Nat → Prop) (thread : Nat)
    (htarget : ∀ p, target p → p ≤ initProcess) (k : State) (hL : k.ledger.Counted fresh) :
    k.ledger.CapSteps actor target (k.cleanupCapRefs thread).ledger := by
  unfold cleanupCapRefs
  split
  · exact .refl _
  · rename_i h
    exact closeCaps_steps _ _ (fun h0 => h (.inl h0)) htarget handleLast 1 k hL

/-- **What the grants of a spawn keep**: what every grant of a cap that the parent holds keeps. -/
theorem grantListCaps_keeps {Q : State → Prop} {grantCount : U64} (hk : Q k)
    (hgrant : ∀ (j : State) (source cap : Nat) (e : CapEntry) (mask badge : U64), Q j → cap ≤ handleLast →
      j.lookupCap parent source = some e → e.kind ≠ .replyObject → hasRights e.rights (toRights mask) = true →
      Q (j.insertProcessCapAt child cap e.kind e.object (toRights mask) badge).2) :
    Q (k.grantListCaps parent child grantCount).2 := by
  have hloop : ∀ (buf : Page) (n index : Nat) (j : State), index + n ≤ maxGrants → Q j →
      Q (j.grantCaps parent child buf index n).2 := by
    intro buf n
    induction n with
    | zero => exact fun _ _ _ hj => hj
    | succ n ih =>
      intro index j hn hj
      unfold grantCaps
      dsimp only
      split
      · exact hj
      · split
        · exact hj
        · rename_i e hlook
          split
          · exact hj
          · rename_i hok
            rw [not_or] at hok
            split
            · exact hj
            · rename_i hrights
              have hcap : index + 1 ≤ handleLast := by
                unfold maxGrants at hn
                unfold handleLast
                omega
              have hput := hgrant j _ (index + 1) e (buf (grantListOffset + 24 * index + 8))
                (buf (grantListOffset + 24 * index + 16)) hj hcap hlook hok.1 (Bool.eq_true_of_not_eq_false hrights)
              split
              · rename_i hins
                rw [hins] at hput
                exact ih _ _ (by omega) hput
              · rename_i hins
                rw [hins] at hput
                exact hput
  unfold grantListCaps
  split
  · exact hk
  · split
    · exact hk
    · rename_i hmax
      split
      · exact hk
      · exact hloop _ _ 0 k (by omega) hk

/-- A grant copies a cap of the parent, or leaves every table as it is. -/
theorem insertProcessCapAt_grant (child : Nat) {source cap : Nat} {mask : U64} (badge : U64) (hL : k.ledger.Counted fresh)
    (hcap : cap ≤ handleLast) (hlook : k.lookupCap parent source = some e) (hkind : e.kind ≠ .replyObject)
    (hrights : hasRights e.rights (toRights mask) = true) :
    k.ledger.SameCaps (k.insertProcessCapAt child cap e.kind e.object (toRights mask) badge).2.ledger ∨
    ∃ e', e'.kind ≠ .replyObject ∧ k.ledger.Origin (k.tcb parent).process e' ∧
      k.ledger.Inserted (k.insertProcessCapAt child cap e.kind e.object (toRights mask) badge).2.ledger
        child cap e' := by
  have horig := lookupCap_copied badge hlook hkind hrights
  rcases hins : k.insertProcessCapAt child cap e.kind e.object (toRights mask) badge with ⟨s, k₁⟩
  by_cases hs : s = .ok
  · subst hs
    exact .inr ⟨⟨true, _, _, _, badge⟩, hkind, horig, insertProcessCapAt_ok hL hcap
      (fun P hP => ⟨(horig.referenced hL P hP).1, (horig.referenced hL P hP).2.1⟩) hins⟩
  · exact .inl (insertProcessCapAt_error hL hs hins)

theorem grantListCaps_steps (target : Nat → Prop) (parent : Nat) (grantCount : U64)
    (htarget : ∀ p, target p → p ≤ initProcess) (k : State) (hL : k.ledger.Counted fresh)
    (ht : target child) :
    k.ledger.CapSteps (k.tcb parent).process target
      (k.grantListCaps parent child grantCount).2.ledger := by
  refine grantListCaps_keeps (Q := fun j => k.ledger.CapSteps (k.tcb parent).process target j.ledger) (.refl _) ?_
  intro j source cap e mask badge hj hcap hlook hkind hrights
  rcases insertProcessCapAt_grant child badge (hj.counted htarget hL) hcap hlook hkind hrights
    with hsame | ⟨e', -, horig, hput⟩
  · exact hj.trans (.of_same hsame)
  · rw [process_of_steps hj] at horig
    exact .insert hj ht horig hput

end State

end Aegir.Kernel
