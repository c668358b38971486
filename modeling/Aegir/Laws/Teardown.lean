/-
  Tearing a thread down, seen on the roster.

  A dying thread leaves its queue, its registration and its links BEFORE it is marked dead: nothing
  in the roster refers to a dead thread.
-/
import Aegir.Laws.Vigils

namespace Aegir.Kernel

open Aegir.Lib Roster List

namespace Roster

variable {R R' R'' : Roster} {o t : Nat} {l : List Nat}

/-- `t` stops waiting; everybody else goes on as before, except that those who wait for a thread may
    wake. -/
structure Detaches (t : Nat) (R R' : Roster) : Prop where
  sound : R'.Sound
  state : ∀ u, (R'.thread u).state = (R.thread u).state ∨
    ((R.thread u).state = .blockedThreadWait ∧ (R'.thread u).state = .ready)
  awaiting : ∀ u, (R'.thread u).awaiting = (R.thread u).awaiting
  generation : ∀ u, (R'.thread u).generation = (R.thread u).generation
  queuedOn : ∀ u, (R'.thread u).queuedOn = (R.thread u).queuedOn ∨ (R'.thread u).queuedOn = 0
  receiver : ∀ o, (R'.ep o).receiver = (R.ep o).receiver ∨ (R'.ep o).receiver = 0
  queue : ∀ o, o ≠ 0 → ∀ l, R.Queue o l → R'.Queue o (l.erase t)
  failed : ∀ o, (R'.ep o).failed = (R.ep o).failed
  used : R'.threadUsed = R.threadUsed

namespace Detaches

theorem trans (h : Detaches t R R') (h' : Detaches t R' R'') (hq : (R'.thread t).queuedOn = 0) :
    Detaches t R R'' := by
  refine ⟨h'.sound, fun u => ?_, fun u => (h'.awaiting u).trans (h.awaiting u),
    fun u => (h'.generation u).trans (h.generation u), fun u => ?_, fun o => ?_, fun o ho l hl => ?_,
    fun o => (h'.failed o).trans (h.failed o), h'.used.trans h.used⟩
  · rcases h'.state u with e' | ⟨e', hr⟩
    · rw [e']
      exact h.state u
    · rcases h.state u with e | ⟨e, -⟩
      · exact .inr ⟨e.symm.trans e', hr⟩
      · exact .inr ⟨e, hr⟩
  · rcases h'.queuedOn u with e | e
    · rw [e]; exact h.queuedOn u
    · exact .inr e
  · rcases h'.receiver o with e | e
    · rw [e]; exact h.receiver o
    · exact .inr e
  · have h1 := h.queue o ho l hl
    have h2 := h'.queue o ho _ h1
    rwa [erase_of_not_mem fun hm => ho (((h1.mem t).mp hm).symm.trans hq)] at h2

theorem state_eq (h : Detaches t R R') {u : Nat} {s : ThreadState} (hs : (R.thread u).state = s)
    (hne : s ≠ .blockedThreadWait) : (R'.thread u).state = s := by
  rcases h.state u with e | ⟨e, -⟩
  · exact e.trans hs
  · exact absurd (hs.symm.trans e) hne

theorem of_settles (hs : Settles (fun _ => False) R R') (hq : (R.thread t).queuedOn = 0)
    (hf : ∀ o, (R'.ep o).failed = (R.ep o).failed)
    (hkeep : ∀ o, o ≠ 0 → ∀ l, R.Queue o l → R'.Queue o l) : Detaches t R R' := by
  refine ⟨hs.sound, fun u => .inl (hs.state_of_not id), fun u => (hs.awaiting u).resolve_right fun h => h.1,
    hs.generation, hs.queuedOn, hs.receiver, fun o ho l hl => ?_, hf, hs.used⟩
  rw [erase_of_not_mem fun hm => ho (((hl.mem t).mp hm).symm.trans hq)]
  exact hkeep o ho l hl

theorem detached (h : Detaches t R R') {u : Nat} (hd : R.Detached u) : R'.Detached u := by
  refine ⟨?_, fun o ho hr => ?_⟩
  · rcases h.queuedOn u with e | e
    · rw [e]; exact hd.queuedOn
    · exact e
  · rcases h.receiver o with e | e
    · rw [e] at hr ⊢
      exact hd.receiver o ho hr
    · exact absurd e hr

end Detaches

theorem Rewatches.detaches (h : Rewatches R R') (hR : R.Sound) (hq : (R.thread t).queuedOn = 0) :
    Detaches t R R' := by
  refine ⟨h.sound hR, h.state, fun u => by rw [h.thread u], fun u => by rw [h.thread u],
    fun u => .inl (h.queuedOn u), fun o => .inl (by rw [h.ep]), fun o ho l hl => ?_,
    fun o => by rw [h.ep], h.used⟩
  rw [erase_of_not_mem fun hm => ho (((hl.mem t).mp hm).symm.trans hq)]
  exact h.queue hl

theorem Sound.unlinkAt_detaches (hR : R.Sound) (ho : o ≠ 0) (xs : List Nat) {ys : List Nat}
    (h : R.Queue o (xs ++ t :: ys)) : Detaches t R (R.unlinkAt o t (xs.getLastD 0)) := by
  have hun := unlinked_unlinkAt R o t (xs.getLastD 0) h.prev_ne
  have htx : t ∉ xs := fun hm =>
    (nodup_append.mp h.chain.nodup).2.2 t hm t mem_cons_self rfl
  refine ⟨hR.unlinkAt ho h, fun u => ?_, fun u => ?_, fun u => ?_, fun u => ?_,
    fun p => .inl (hun.receiver p), fun p hp l hl => ?_, hun.failed, hun.used⟩
  · exact .inl (by rw [hun.thread u])
  · rw [hun.thread u]
  · rw [hun.thread u]
  · rw [hun.thread u]
    by_cases hu : u = t
    · exact .inr (if_pos hu)
    · exact .inl (if_neg hu)
  · by_cases hpo : p = o
    · subst hpo
      rw [hl.unique h, erase_append_right _ htx, erase_cons_head]
      exact h.unlinkAt ho
    · rw [erase_of_not_mem fun hm =>
        hpo (((hl.mem t).mp hm).symm.trans ((h.mem t).mp (by simp)))]
      exact h.unlinkAt_other hl hp hpo

theorem Sound.unregister_detaches (hR : R.Sound) (hq : (R.thread t).queuedOn = 0) (o : Nat) :
    Detaches t R (R.setEp o { R.ep o with receiver := 0 }) := by
  have hat : ∀ p, (R.setEp o { R.ep o with receiver := 0 }).ep p =
      { R.ep p with receiver := if p = o then 0 else (R.ep p).receiver } := by
    intro p
    by_cases hp : p = o
    · subst hp; simp
    · simp [hp]
  refine .of_settles (.unregister hR o) hq (fun p => by rw [hat]) fun p hp l hl => ?_
  exact hl.congr (by rw [hat]) (by rw [hat]) (fun _ _ => rfl) fun _ => Iff.rfl

theorem Sound.setRecvEp_detaches (hR : R.Sound) (hd : R.Detached t) (p : Nat) :
    Detaches t R (R.setThread t { R.thread t with recvEp := p }) := by
  have hat : ∀ u, (R.setThread t { R.thread t with recvEp := p }).thread u =
      { R.thread u with recvEp := if u = t then p else (R.thread u).recvEp } := by
    intro u
    by_cases hu : u = t
    · subst hu; simp
    · simp [hu]
  refine .of_settles (.setRecvEp hR hd.receiver p) hd.queuedOn (fun _ => rfl) fun q hq l hl => ?_
  exact hl.congr rfl rfl (fun u _ => by rw [hat]) fun u => by rw [hat]

end Roster

namespace State

variable {k : State} {o t : Nat}

/-! ## Leaving the queue and the registration -/

theorem cleanupEndpointWaiter_detaches (hR : k.roster.Sound) (ht : t ≠ 0)
    (hq : (k.tcb t).queuedOnEp = o) (ho : o ≠ 0) :
    Detaches t k.roster (k.cleanupEndpointWaiter t o).roster ∧
    ((k.cleanupEndpointWaiter t o).tcb t).queuedOnEp = 0 := by
  have hs : (k.roster.thread t).state = .blockedSend :=
    (hR.caller t (by show (k.tcb t).queuedOnEp ≠ 0; rw [hq]; exact ho)).1
  have hrecv : ∀ p, p ≠ 0 → (k.roster.ep p).receiver ≠ 0 → (k.roster.ep p).receiver ≠ t := by
    intro p hp hr e
    have := (hR.receiver p hp hr).1
    rw [e, hs] at this
    cases this
  unfold cleanupEndpointWaiter
  rw [if_neg (by simp [ht, ho])]
  have hne : (k.endpoint o).waitingReceiver ≠ t := fun e =>
    hrecv o ho (fun h0 => ht (e.symm.trans h0)) e
  rw [if_neg hne]
  dsimp only
  have hr1 : (k.modTcb t fun c => { c with recvEp := 0 }).roster =
      k.roster.setThread t { k.roster.thread t with recvEp := 0 } := roster_modTcb _ _ _
  have hq1 : ((k.modTcb t fun c => { c with recvEp := 0 }).tcb t).queuedOnEp = o := by
    simpa [modTcb] using hq
  generalize (k.modTcb t fun c => { c with recvEp := 0 }) = k₁ at hr1 hq1 ⊢
  have hs1 : Settles (fun _ => False) k.roster k₁.roster := by
    rw [hr1]
    exact .setRecvEp hR hrecv 0
  have hkeep : ∀ p, p ≠ 0 → ∀ l, k.roster.Queue p l → k₁.roster.Queue p l := by
    intro p hp l hl
    rw [hr1]
    refine hl.congr rfl rfl (fun u _ => ?_) fun u => ?_
    · by_cases hu : u = t
      · subst hu; simp
      · simp [hu]
    · by_cases hu : u = t
      · subst hu; simp
      · simp [hu]
  -- split the queue at the thread
  obtain ⟨l, hl⟩ := hs1.sound.queue o ho
  obtain ⟨xs, ys, rfl⟩ := append_of_mem ((hl.mem t).mpr hq1)
  have htx : t ∉ xs := fun hm =>
    (nodup_append.mp hl.chain.nodup).2.2 t hm t mem_cons_self rfl
  have hwalk : (k₁.unlinkCaller o t 0 (k₁.endpoint o).queueHead threadBound).roster =
      k₁.roster.unlinkAt o t (xs.getLastD 0) :=
    unlinkCaller_mem threadBound xs ys 0 _ (length_le_threadBound hs1.sound ho hl) hl.chain htx
  have hdet := hs1.sound.unlinkAt_detaches ho _ hl
  rw [← hwalk] at hdet
  refine ⟨⟨hdet.sound, fun u => by rw [← hs1.state_of_not id]; exact hdet.state u,
    fun u => (hdet.awaiting u).trans ((hs1.awaiting u).resolve_right fun h => h.1),
    fun u => (hdet.generation u).trans (hs1.generation u), fun u => ?_, fun p => ?_,
    fun p hp l hl => hdet.queue p hp l (hkeep p hp l hl), fun p => ?_,
    hdet.used.trans hs1.used⟩, ?_⟩
  · rcases hdet.queuedOn u with e | e
    · rw [e]; exact hs1.queuedOn u
    · exact .inr e
  · rcases hdet.receiver p with e | e
    · rw [e]; exact hs1.receiver p
    · exact .inr e
  · rw [hdet.failed p, hr1]
    rfl
  · have := (unlinked_unlinkAt k₁.roster o t (xs.getLastD 0) hl.prev_ne).thread t
    rw [← hwalk] at this
    have := congrArg ThreadIpc.queuedOn this
    simpa [Tcb.ipc] using this

theorem cancelReceive_detaches (hR : k.roster.Sound) (ht : t ≠ 0) (hq : (k.tcb t).queuedOnEp = 0) :
    Detaches t k.roster (k.cancelReceive t).roster ∧ (k.cancelReceive t).roster.Detached t := by
  unfold cancelReceive
  rw [if_neg ht]
  dsimp only
  split
  · rename_i h0
    refine ⟨.of_settles (.refl hR) hq (fun _ => rfl) fun _ _ _ hl => hl, hq, fun p hp hr e => ?_⟩
    -- a registered thread receives on its endpoint, and this one receives on none
    have := (hR.receiver p hp hr).2
    rw [e] at this
    exact hp (this.symm.trans h0)
  · have h1 : Detaches t k.roster (if (k.endpoint (k.tcb t).recvEp).waitingReceiver = t then
        k.modEndpoint (k.tcb t).recvEp fun e => { e with waitingReceiver := 0 } else k).roster ∧
        (if (k.endpoint (k.tcb t).recvEp).waitingReceiver = t then
          k.modEndpoint (k.tcb t).recvEp fun e => { e with waitingReceiver := 0 }
        else k).roster.Detached t := by
      split
      · rename_i h0 hr
        have hr' : (k.roster.ep (k.tcb t).recvEp).receiver = t := hr
        have hdet := hR.detached_unregister h0 (by rw [hr']; exact ht)
        rw [hr'] at hdet
        rw [roster_modEndpoint]
        exact ⟨hR.unregister_detaches hq _, hdet⟩
      · rename_i hr
        refine ⟨.of_settles (.refl hR) hq (fun _ => rfl) fun _ _ _ hl => hl, hq, fun p hp hrp e => ?_⟩
        have := (hR.receiver p hp hrp).2
        rw [e] at this
        have this : (k.tcb t).recvEp = p := this
        exact hr (this ▸ e)
    generalize (if (k.endpoint (k.tcb t).recvEp).waitingReceiver = t then
        k.modEndpoint (k.tcb t).recvEp fun e => { e with waitingReceiver := 0 } else k) = k₁ at h1 ⊢
    obtain ⟨h1, hd⟩ := h1
    have h2 := h1.sound.setRecvEp_detaches hd 0
    have hr2 : (k₁.modTcb t fun c => { c with recvEp := 0 }).roster =
        k₁.roster.setThread t { k₁.roster.thread t with recvEp := 0 } := roster_modTcb _ _ _
    rw [hr2]
    exact ⟨h1.trans h2 hd.queuedOn, h2.detached hd⟩

/-! ## The other waits -/

theorem roster_cleanupNotificationThread (hR : k.roster.Sound) (t : Nat) :
    (k.cleanupNotificationThread t).roster = k.roster := by
  have hb : k.unbindNotification t = k := by
    unfold unbindNotification
    have : (k.tcb t).boundNtfn = 0 := hR.bound t
    simp [this]
  unfold cleanupNotificationThread
  rw [hb]
  split
  · rfl
  · dsimp only
    split
    · refine Roster.ext rfl rfl ?_ rfl rfl
      funext o
      show (if _ then _ else k.notification o).waiting = (k.notification o).waiting
      split
      · exact (hR.ntfn o).symm
      · rfl
    · rfl

theorem roster_clearLineWaiters (n t cur : Nat) (k : State) (hR : k.roster.Sound) :
    (k.clearLineWaiters t cur n).roster = k.roster := by
  induction n generalizing k cur with
  | zero => rfl
  | succ n ih =>
    unfold clearLineWaiters
    split
    · rfl
    · dsimp only
      have h1 : (if (k.device cur).waiter = t then k.modDevice cur fun d => { d with waiter := 0 }
          else k).roster = k.roster := by
        split
        · exact roster_modDevice_same _ _ _ (hR.line cur).symm
        · rfl
      exact (ih _ _ (h1 ▸ hR)).trans h1

theorem roster_cleanupIrqThread (hR : k.roster.Sound) (t : Nat) : (k.cleanupIrqThread t).roster = k.roster := by
  have hfold : ∀ (sources : List Nat) (j : State), j.roster.Sound →
      (sources.foldl (fun j source => j.clearLineWaiters t (j.lines source) j.deviceSlab.carved)
        j).roster = j.roster := by
    intro sources
    induction sources with
    | nil => exact fun _ _ => rfl
    | cons source sources ih =>
      intro j hj
      have h := roster_clearLineWaiters j.deviceSlab.carved t (j.lines source) j hj
      exact (ih _ (h ▸ hj)).trans h
  unfold cleanupIrqThread
  split
  · rfl
  · exact hfold _ _ hR

/-- **`Teardown_Thread`**: the thread waits nowhere any more; those who waited for it wake, and nobody
    else is disturbed. -/
theorem teardownThread_detaches (hR : k.roster.Sound) (ht : t ≠ 0) :
    Detaches t k.roster (k.teardownThread t).roster ∧ (k.teardownThread t).roster.Detached t ∧
    (k.teardownThread t).roster.Unlisted t := by
  unfold teardownThread
  dsimp only
  have h1 : Detaches t k.roster (if (k.tcb t).queuedOnEp ≠ 0 then
      k.cleanupEndpointWaiter t (k.tcb t).queuedOnEp else k).roster ∧
      ((if (k.tcb t).queuedOnEp ≠ 0 then
        k.cleanupEndpointWaiter t (k.tcb t).queuedOnEp else k).tcb t).queuedOnEp = 0 := by
    by_cases hq : (k.tcb t).queuedOnEp = 0
    · rw [if_neg (by simp [hq])]
      exact ⟨.of_settles (.refl hR) hq (fun _ => rfl) fun _ _ _ hl => hl, hq⟩
    · rw [if_pos hq]
      exact cleanupEndpointWaiter_detaches hR ht rfl hq
  generalize (if (k.tcb t).queuedOnEp ≠ 0 then
      k.cleanupEndpointWaiter t (k.tcb t).queuedOnEp else k) = k₁ at h1 ⊢
  obtain ⟨h1, hq⟩ := h1
  obtain ⟨h2, hd⟩ := cancelReceive_detaches h1.sound ht hq
  generalize k₁.cancelReceive t = k₂ at h2 hd ⊢
  have h3 := roster_cleanupNotificationThread h2.sound t
  generalize k₂.cleanupNotificationThread t = k₃ at h3 ⊢
  have h4 := roster_cleanupIrqThread (h3 ▸ h2.sound) t
  rw [← h3, ← h4] at h2 hd
  -- the lists of waiters: first the one it is in, then its own
  obtain ⟨h5, hun⟩ := removeAsWaiter_rewatches h2.sound t
  have h6 := wakeThreadWaiters_rewatches (h5.sound h2.sound) ht
  have hd5 := h5.detached hd
  refine ⟨((h1.trans h2 hq).trans (h5.detaches h2.sound hd.queuedOn) hd.queuedOn).trans
    (h6.detaches (h5.sound h2.sound) hd5.queuedOn) hd5.queuedOn, h6.detached hd5, h6.unlisted hun⟩

end State

end Aegir.Kernel
