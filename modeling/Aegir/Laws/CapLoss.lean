/-
  What an operation can LOSE.

  Closing a cap, undoing a transfer, exit, thread exit and reap leave no entry in any table that was
  not there before.  Nothing is assumed of the state: the facts are read off the tables as they are,
  page by page.
-/
import Aegir.Laws.Runs

namespace Aegir.Kernel

open Aegir.Arch Aegir.Lib Ledger Function

/-! ## Tables -/

namespace CapTable

/-- Entries are only lost. -/
def Sheds (t t' : CapTable) : Prop := ∀ h, (t'.get h).valid = true → t'.get h = t.get h

/-- Entries are only lost, but for one that is put. -/
def Gains (t t' : CapTable) (e : CapEntry) : Prop :=
  ∀ h, (t'.get h).valid = true → t'.get h = t.get h ∨ t'.get h = e

theorem Sheds.gains {t t' : CapTable} (h : Sheds t t') (e : CapEntry) : Gains t t' e :=
  fun i hv => .inl (h i hv)

theorem ensurePage_sheds (t : CapTable) (page : Nat) (p : Pmm) : Sheds t (t.ensurePage page p).2.1 := by
  intro h hv
  unfold ensurePage at hv ⊢
  split
  · rfl
  · rename_i hroot
    rw [if_neg hroot] at hv
    split
    · rfl
    · rename_i frame p' halloc
      rw [halloc] at hv
      unfold get at hv ⊢
      dsimp only at hv ⊢
      by_cases hpage : pageNo h = page
      · rw [if_pos hpage, ite_self] at hv
        cases hv
      · simp [hpage]

theorem putNew_gains (t : CapTable) (cap : Nat) (e : CapEntry) : Gains t (t.putNew cap e) e := by
  intro h hv
  unfold putNew get at hv ⊢
  split
  · exact .inl rfl
  · by_cases hcap : h = cap
    · subst hcap
      exact .inr (update_self _ _ _)
    · exact .inl (update_of_ne hcap _ _)

theorem Sheds.putNew {t t' : CapTable} (h : Sheds t t') (cap : Nat) (e : CapEntry) :
    Gains t (t'.putNew cap e) e := by
  intro i hv
  rcases putNew_gains t' cap e i hv with h' | h'
  · rw [h'] at hv ⊢
    exact .inl (h i hv)
  · exact .inr h'

theorem insert_sheds {t t' : CapTable} {kind : ObjectKind} {object : Nat} {rights : Rights}
    {badge : U64} {p p' : Pmm} {s : CapStatus}
    (h : t.insert kind object rights badge p = (.error s, t', p')) : Sheds t t' := by
  unfold insert at h
  split at h
  · cases h
    exact fun _ _ => rfl
  · split at h
    · cases h
      exact fun _ _ => rfl
    · rename_i cap _
      have he := ensurePage_sheds t (pageNo cap) p
      split at h
      · cases h
      · rename_i heq
        rw [heq] at he
        cases h
        exact he

theorem insertAt_gains (t : CapTable) (cap : Nat) (kind : ObjectKind) (object : Nat) (rights : Rights)
    (badge : U64) (p : Pmm) :
    Gains t (t.insertAt cap kind object rights badge p).2.1 ⟨true, kind, object, rights, badge⟩ := by
  unfold insertAt
  split
  · exact fun _ _ => .inl rfl
  · split
    · exact fun _ _ => .inl rfl
    · split
      · exact fun _ _ => .inl rfl
      · have h := ensurePage_sheds t (pageNo cap) p
        split
        · rename_i heq
          rw [heq] at h
          exact h.putNew _ _
        · rename_i heq
          rw [heq] at h
          exact h.gains _

theorem releasePage_sheds (t : CapTable) (page : Nat) (p : Pmm) : Sheds t (t.releasePage page p).1 := by
  intro h hv
  unfold releasePage get at hv ⊢
  by_cases hpage : pageNo h = page
  · subst hpage
    simp [nullCap] at hv
  · simp [hpage]

theorem close_sheds (t : CapTable) (cap : Nat) (p : Pmm) : Sheds t (t.close cap p).2.1 := by
  have hnull : Sheds t { t with
      slots := update t.slots cap nullCap
      count := update t.count (pageNo cap) (t.count (pageNo cap) - 1)
      total := t.total - 1 } := by
    intro h hv
    unfold get at hv ⊢
    dsimp only at hv ⊢
    split
    · rfl
    · rename_i hroot
      rw [if_neg hroot] at hv
      by_cases hcap : h = cap
      · subst hcap
        rw [update_self] at hv
        cases hv
      · exact update_of_ne hcap _ _
  unfold close
  split
  · exact fun _ _ => rfl
  · dsimp only
    split
    · intro h hv
      have hrel := releasePage_sheds { t with
        slots := update t.slots cap nullCap
        count := update t.count (pageNo cap) (t.count (pageNo cap) - 1)
        total := t.total - 1 } (pageNo cap) p h hv
      rw [hrel] at hv ⊢
      exact hnull h hv
    · exact hnull

theorem resetPages_sheds (n page : Nat) (t : CapTable) (p : Pmm) :
    Sheds t (t.resetPages p page n).1 := by
  induction n generalizing t p page with
  | zero => exact fun _ _ => rfl
  | succ n ih =>
    unfold resetPages
    split
    · intro h hv
      have h1 := ih (page + 1) (t.releasePage page p).1 (t.releasePage page p).2 h hv
      rw [h1] at hv ⊢
      exact releasePage_sheds t page p h hv
    · exact ih _ _ _

theorem reset_sheds (t : CapTable) (p : Pmm) : Sheds t (t.reset p).1 :=
  resetPages_sheds tablePages 0 t p

end CapTable

/-! ## Losing entries -/

namespace Ledger

variable {L L' L'' : Ledger}

/-- Every valid entry was there before. -/
def Loses (L L' : Ledger) : Prop :=
  ∀ p h, (L'.entry p h).valid = true → L'.entry p h = L.entry p h

theorem Loses.trans (h : Loses L L') (h' : Loses L' L'') : Loses L L'' := by
  intro p i hv
  have he := h' p i hv
  rw [he] at hv ⊢
  exact h p i hv

theorem Loses.of_entry (h : ∀ p i, L'.entry p i = L.entry p i) : Loses L L' := fun p i _ => h p i

theorem Loses.of_caps (h : L'.caps = L.caps) : Loses L L' := by
  intro p i _
  unfold entry
  rw [h]

theorem Loses.of_eq (h : L' = L) : Loses L L' := h ▸ fun _ _ _ => rfl

end Ledger

namespace State

variable {k k' : State}

/-! ## Hooks -/

section

variable (k : State)

theorem ledger_caps_retainCap (e : CapEntry) : (k.retainCap e).ledger.caps = k.ledger.caps := by
  unfold retainCap
  split
  · rfl
  · split
    · unfold retainEndpoint
      split <;> rfl
    · unfold retainMemory
      split <;> rfl
    · unfold retainNotification
      split <;> rfl
    · rfl
    · rfl
    · rfl

theorem ledger_caps_releaseEndpoint (o : Nat) : (k.releaseEndpoint o).ledger.caps = k.ledger.caps := by
  unfold releaseEndpoint
  split
  · rfl
  · have hfree : ∀ j : State, (j.freeEndpoint o).ledger.caps = j.ledger.caps := fun _ => rfl
    dsimp only
    split
    · rfl
    · rw [hfree, ledger_failEndpoint]
      rfl

theorem ledger_caps_releaseMemory (o : Nat) : (k.releaseMemory o).ledger.caps = k.ledger.caps := by
  have hfree : ∀ j : State, (j.freeFrames o).ledger.caps = j.ledger.caps := by
    intro j
    unfold freeFrames
    dsimp only
    split <;> rfl
  unfold releaseMemory
  split
  · rfl
  · dsimp only
    split
    · rfl
    · exact hfree _

theorem ledger_caps_releaseNotification (o : Nat) :
    (k.releaseNotification o).ledger.caps = k.ledger.caps := by
  have hfree : ∀ j : State, (j.freeNotification o).ledger.caps = j.ledger.caps := fun _ => rfl
  unfold releaseNotification
  split
  · dsimp only
    split
    · rw [hfree]
      split
      · rw [ledger_wake, ledger_setA0]
        rfl
      · rfl
    · rfl
  · rfl

theorem ledger_caps_releaseDevice (o : Nat) : (k.releaseDevice o).ledger.caps = k.ledger.caps := by
  have hfin : ∀ j : State, (j.finalizeDevice o).ledger.caps = j.ledger.caps := by
    intro j
    unfold finalizeDevice
    split
    · show (j.unregisterLine o).ledger.caps = _
      rw [ledger_unregisterLine]
    · rfl
  unfold releaseDevice
  split
  · exact hfin k
  · dsimp only
    split
    · exact hfin _
    · rfl

theorem ledger_caps_cleanupThreadCapObject (t : Nat) (e : CapEntry) (dying : Bool) :
    (k.cleanupThreadCapObject t e dying).ledger.caps = k.ledger.caps := by
  unfold cleanupThreadCapObject
  split
  · rfl
  · split
    · dsimp only
      rw [ledger_caps_releaseEndpoint, ledger_cleanupEndpointWaiter]
      split
      · rw [ledger_failEndpoint]
      · rfl
    · rw [ledger_failReplyTarget]
    · rw [ledger_caps_releaseDevice, ledger_cleanupLineWaiter]
    · exact ledger_caps_releaseDevice k _
    · exact ledger_caps_releaseMemory k _
    · rw [ledger_caps_releaseNotification, ledger_cleanupNotificationWaiter]
    · rfl

end

/-! ## Single caps -/

theorem setCaps_loses (k : State) (p : Nat) {t : CapTable} (pmm : Pmm)
    (ht : CapTable.Sheds (k.pcb p).caps t) : k.ledger.Loses (k.setCaps p t pmm).ledger := by
  intro q i hv
  rw [ledger_setCaps] at hv ⊢
  unfold entry Ledger.setCaps at hv ⊢
  dsimp only at hv ⊢
  by_cases hq : q = p
  · subst hq
    rw [update_self] at hv ⊢
    exact ht i hv
  · rw [update_of_ne hq]

theorem insertCap_loses {t object : Nat} {kind : ObjectKind} {rights : Rights} {badge : U64}
    {s : CapStatus} (h : k.insertCap t kind object rights badge = (.error s, k')) :
    k.ledger.Loses k'.ledger := by
  unfold insertCap at h
  split at h
  · cases h
    exact .of_eq rfl
  · unfold insertProcessCap at h
    split at h
    · cases h
    · rename_i heq
      cases h
      exact setCaps_loses k _ _ (CapTable.insert_sheds heq)

theorem closeCap_loses (k : State) (t cap : Nat) (dying : Bool) :
    k.ledger.Loses (k.closeCap t cap dying).2.ledger := by
  unfold closeCap
  split
  · exact .of_eq rfl
  · split
    · exact .of_eq rfl
    · dsimp only
      exact (Loses.of_caps (ledger_caps_cleanupThreadCapObject _ _ _ _)).trans
        (setCaps_loses _ _ _ (CapTable.close_sheds _ _ _))

theorem forgetCap_loses (k : State) (t cap : Nat) : k.ledger.Loses (k.forgetCap t cap).ledger := by
  unfold forgetCap
  split
  · exact .of_eq rfl
  · exact setCaps_loses _ _ _ (CapTable.close_sheds _ _ _)

theorem resetProcessCaps_loses (k : State) (p : Nat) :
    k.ledger.Loses (k.resetProcessCaps p).ledger := setCaps_loses _ _ _ (CapTable.reset_sheds _ _)

theorem rollback_loses (hs : List Nat) (k : State) (receiver : Nat) :
    k.ledger.Loses (k.rollback receiver hs).ledger := by
  induction hs generalizing k with
  | nil => exact .of_eq rfl
  | cons h hs ih =>
    refine Loses.trans ?_ (ih _)
    split
    · exact closeCap_loses k receiver h false
    · exact .of_eq rfl

/-! ## Processes and threads -/

theorem modPcb_loses (k : State) (P : Nat) (f : Pcb → Pcb) (hc : (f (k.pcb P)).caps = (k.pcb P).caps) :
    k.ledger.Loses (k.modPcb P f).ledger := by
  refine .of_entry fun p i => ?_
  show ((update k.pcb P (f (k.pcb P))) p).caps.get i = (k.pcb p).caps.get i
  by_cases hp : p = P
  · subst hp
    rw [update_self, hc]
  · rw [update_of_ne hp]

theorem Paged.ledger_caps (h : Paged k k') : k'.ledger.caps = k.ledger.caps := by
  rw [h.same]
  rfl

theorem closeCaps_loses (n t cap : Nat) (k : State) :
    k.ledger.Loses (k.closeCaps t cap n).ledger := by
  induction n generalizing k cap with
  | zero => exact .of_eq rfl
  | succ n ih => exact (closeCap_loses k t cap true).trans (ih (cap + 1) _)

theorem cleanupCapRefs_loses (k : State) (t : Nat) : k.ledger.Loses (k.cleanupCapRefs t).ledger := by
  unfold cleanupCapRefs
  split
  · exact .of_eq rfl
  · exact closeCaps_loses _ _ _ _

theorem discardSlot_loses (k : State) (slot : Nat) (closeAll : Bool) :
    k.ledger.Loses (k.discardSlot slot closeAll).ledger := by
  have hthread : (k.discardThread slot).ledger.caps = k.ledger.caps := by
    unfold discardThread
    dsimp only
    split <;> rfl
  have hcaps : (k.discardThread slot).ledger.Loses
      ((k.discardThread slot).discardCaps slot closeAll).ledger := by
    unfold discardCaps
    split
    · exact closeCaps_loses _ _ _ _
    · exact resetProcessCaps_loses _ _
  exact ((Loses.of_caps hthread).trans hcaps).trans
    (modPcb_loses _ (slot + 1) (fun p => { p with state := .dead }) rfl)

theorem retireStack_caps (k : State) (t : Nat) (inUse : Bool) :
    (k.retireStack t inUse).ledger.caps = k.ledger.caps := by
  unfold retireStack
  dsimp only
  split
  · rfl
  · cases inUse with
    | false => rfl
    | true =>
      unfold deferStack
      split <;> rfl

theorem bury_caps (k : State) (t slot : Nat) (inUse : Bool) :
    ((((k.retireStack t inUse).teardownThread t).modTcb t fun c =>
      { c with state := .dead }).freeThreadSlot slot).ledger.caps = k.ledger.caps := by
  have hkill : ∀ j : State, ((j.modTcb t fun c => { c with state := .dead }).freeThreadSlot slot).ledger.caps =
        j.ledger.caps := fun _ => rfl
  rw [hkill, ledger_teardownThread]
  exact retireStack_caps k t inUse

theorem killThread_caps (k : State) (slot thread : Nat) :
    (k.killThread slot thread).ledger.caps = k.ledger.caps := bury_caps k _ slot _

theorem killThreads_caps (n slot process thread : Nat) (k : State) :
    (k.killThreads process thread slot n).ledger.caps = k.ledger.caps := by
  induction n generalizing k slot with
  | zero => rfl
  | succ n ih =>
    unfold killThreads
    rw [ih]
    split
    · exact killThread_caps k slot thread
    · rfl

section

variable (k : State)

theorem markExited_loses (t : Nat) (code : U64) :
    k.ledger.Loses (k.markExited t code).ledger := by
  unfold markExited
  dsimp only
  split
  · exact .of_eq rfl
  · refine Loses.trans ?_ (cleanupCapRefs_loses _ _)
    have hcount : ∀ (j : State) (counts : Nat → Nat),
        (if inProcessTable (k.tcb t).process then { j with processThreadCount := counts }
          else j).ledger.caps = j.ledger.caps := by
      intro j counts
      split <;> rfl
    refine Loses.trans ?_ (.of_caps (hcount _ _))
    exact (modPcb_loses k _ _ rfl).trans (.of_caps (killThreads_caps _ _ _ _ _))

theorem handleExit_loses (cur : Nat) (f : TrapFrame) :
    k.ledger.Loses (k.handleExit cur f).ledger := by
  have hdead : ∀ j : State, j.ledger.Loses (j.modTcb cur fun c => { c with state := .dead }).ledger :=
    fun _ => .of_caps rfl
  exact (markExited_loses k cur f.a0).trans (hdead _)

theorem handleThreadExit_loses (cur : Nat) :
    k.ledger.Loses (k.handleThreadExit cur).ledger := by
  have hret : ∀ {r : ProcStatus × State}, k.ledger.Loses r.2.ledger →
      k.ledger.Loses (if r.1 = .ok then r.2 else r.2.setA0 cur 1).ledger := by
    intro r hr
    split
    · exact hr
    · rw [ledger_setA0]
      exact hr
  refine hret ?_
  unfold threadExit
  dsimp only
  split
  · exact .of_eq rfl
  · split
    · exact .of_eq rfl
    · split
      · exact .of_eq rfl
      · have hlose : k.ledger.Loses (if k.processThreadCount ((k.tcb cur).process - 1) = 1 then
            (k.modPcb (k.tcb cur).process fun p =>
              { p with exitCode := 0, state := .dead }).cleanupCapRefs cur
          else k).ledger := by
          split
          · exact (modPcb_loses k _ _ rfl).trans (cleanupCapRefs_loses _ _)
          · exact .of_eq rfl
        refine hlose.trans (.of_caps ?_)
        rw [bury_caps]
        generalize (if k.processThreadCount ((k.tcb cur).process - 1) = 1 then
          (k.modPcb (k.tcb cur).process fun p =>
            { p with exitCode := 0, state := .dead }).cleanupCapRefs cur else k) = k₁
        split <;> rfl

theorem reapProcess_loses (cur cap : Nat) :
    k.ledger.Loses (k.reapProcess cur cap).2.2.ledger := by
  have hout := reapProcess_outcome k cur cap
  generalize k.reapProcess cur cap = r at hout ⊢
  cases hout with
  | refused => exact .of_eq rfl
  | unclosed close =>
    have h := closeCap_loses k cur cap false
    rw [close] at h
    exact h
  | @reaped e slot k₁ _ _ _ _ _ _ _ close =>
    have h := closeCap_loses k cur cap false
    rw [close] at h
    refine (h.trans ?_).trans (discardSlot_loses _ slot false)
    exact ((cleanupCapRefs_loses k₁ _).trans
      (.of_caps (destroyAddressSpace_paged _ _).ledger_caps)).trans (modPcb_loses _ _ _ rfl)

theorem blankProcess_loses (parent slot root : Nat) :
    k.ledger.Loses (k.blankProcess parent slot root).ledger := by
  intro p i hv
  unfold entry at hv ⊢
  rw [ledger_caps_blankProcess] at hv ⊢
  split at hv
  · cases hv
  · rename_i hp
    rw [if_neg hp]

theorem undoSpawn_loses (slot root : Nat) (closeAll : Bool) :
    k.ledger.Loses (k.undoSpawn slot root closeAll).ledger :=
  (discardSlot_loses k slot closeAll).trans (.of_caps (destroyAddressSpace_paged _ _).ledger_caps)

end

end State

end Aegir.Kernel
