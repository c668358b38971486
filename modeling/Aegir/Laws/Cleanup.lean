/-
  Failing an endpoint, closing a cap and tearing a thread down, seen on the roster.

  The loops over a caller queue are bounded walks in the model; a queue repeats no thread and all its
  members were given to the scheduler, so the bounds are never reached.
-/
import Mathlib.Data.Finset.Card
import Mathlib.Data.Finset.Range
import Aegir.Laws.Waking

namespace Aegir.Kernel

open Aegir.Lib Roster List Function

namespace State

variable {k : State} {o t : Nat} {l : List Nat}

/-! ## Waking one thread -/

theorem roster_wake (k : State) (ht : t ≠ 0) (hb : isBlocked (k.tcb t).state = true) :
    (k.wake t).roster = k.roster.setThread t { k.roster.thread t with state := .ready } := by
  unfold wake
  rw [if_neg ht]
  cases hs : (k.tcb t).state <;> rw [hs] at hb <;>
    first | exact roster_modTcb k t _ | exact absurd hb (by decide)

theorem roster_wakeWithResult (k : State) (v : U64) (ht : t ≠ 0) (hb : isBlocked (k.tcb t).state = true) :
    (k.wakeWithResult t v).roster = k.roster.setThread t (k.roster.thread t).woken := by
  have hdead : k.isDead t = false := by
    unfold isDead
    cases hs : (k.tcb t).state <;> rw [hs] at hb <;>
      first | exact absurd hb (by decide) | simp [ht]
  unfold wakeWithResult
  rw [if_neg (by simp [hdead]), if_pos hb, roster_wake _ ht (by simpa [modTcb] using hb),
    roster_modTcb, setThread_setThread, setThread_thread, update_self]
  rfl

theorem roster_wakeWithResult_awake (k : State) (v : U64)
    (h : t = 0 ∨ isBlocked (k.tcb t).state = false) : (k.wakeWithResult t v).roster = k.roster := by
  unfold wakeWithResult
  split
  · rfl
  · rename_i hd
    rcases h with h | h
    · simp [isDead, h] at hd
    · simp [h]

/-! ## Emptying a queue -/

variable {A : Nat → Prop}

theorem drainCallers_roster (n : Nat) (l : List Nat) (k : State) (hn : l.length ≤ n)
    (hchain : IsChain 0 (fun t => (k.roster.thread t).next) (k.roster.ep o).head l)
    (hblocked : ∀ t ∈ l, isBlocked (k.tcb t).state = true) :
    (k.drainCallers o n).roster = { k.roster with
      thread := fun u => if u ∈ l then { (k.roster.thread u).woken with next := 0, queuedOn := 0 }
        else k.roster.thread u
      ep := update k.roster.ep o { k.roster.ep o with head := 0 } } := by
  induction l generalizing k n with
  | nil =>
    have h0 : (k.endpoint o).queueHead = 0 := hchain
    have hself : { k.roster.ep o with head := 0 } = k.roster.ep o := by
      rw [show (0 : Nat) = (k.roster.ep o).head from h0.symm]
    have hk : k.drainCallers o n = k := by
      cases n with
      | zero => rfl
      | succ n => unfold drainCallers; simp [h0]
    rw [hk, hself, update_eq_self]
    rfl
  | cons t ys ih =>
    cases n with
    | zero => simp at hn
    | succ n =>
      obtain ⟨hhead, ht, hys⟩ := hchain
      have hhead : (k.endpoint o).queueHead = t := hhead
      have hnd : t ∉ ys := by
        have := IsChain.nodup (show IsChain 0 _ t (t :: ys) from ⟨rfl, ht, hys⟩)
        exact (nodup_cons.mp this).1
      unfold drainCallers
      dsimp only
      rw [hhead, if_neg ht]
      -- the state after one turn of the loop
      generalize hk' : (((k.modEndpoint o fun e => { e with queueHead := (k.tcb t).queueNext }).modTcb t
        fun c => { c with queueNext := 0, queuedOnEp := 0 }).wakeWithResult t resultEndpointGone) = k'
      have hr : k'.roster = (k.roster.setEp o { k.roster.ep o with
          head := (k.roster.thread t).next }).setThread t
          { (k.roster.thread t).woken with next := 0, queuedOn := 0 } := by
        rw [← hk', roster_wakeWithResult _ _ ht (by
          simpa [modTcb, modEndpoint] using hblocked t mem_cons_self), roster_modTcb,
          roster_modEndpoint, setThread_setThread, setThread_thread, update_self]
        rfl
      have hthread : ∀ u, u ≠ t → k'.roster.thread u = k.roster.thread u := by
        intro u hu
        rw [hr]
        simp [hu]
      have hchain' : IsChain 0 (fun u => (k'.roster.thread u).next) (k'.roster.ep o).head ys := by
        have hh : (k'.roster.ep o).head = (k.roster.thread t).next := by rw [hr]; simp
        rw [hh]
        exact hys.congr fun u hu => by rw [hthread u fun e => hnd (e ▸ hu)]
      rw [ih n k' (by simpa using hn) hchain' fun u hu => by
        have : k'.roster.thread u = k.roster.thread u := hthread u fun e => hnd (e ▸ hu)
        have hs : (k'.tcb u).state = (k.tcb u).state := congrArg ThreadIpc.state this
        rw [hs]
        exact hblocked u (mem_cons_of_mem _ hu)]
      rw [hr]
      refine Roster.ext ?_ ?_ rfl rfl rfl
      · funext u
        by_cases hu : u = t
        · subst hu
          simp [hnd]
        · simp [hu]
      · funext p
        by_cases hp : p = o
        · subst hp; simp
        · simp [hp]

section

variable (hR : k.roster.Sound)

include hR

theorem length_le_threadBound (ho : o ≠ 0) (hl : k.roster.Queue o l) :
    l.length ≤ threadBound := by
  have hsub : l.toFinset ⊆ Finset.range (initThread + 1) := by
    intro t ht
    rw [mem_toFinset] at ht
    have hq := (hl.mem t).mp ht
    have hs := (hR.caller t (by rw [hq]; exact ho)).1
    rw [Finset.mem_range]
    rcases hR.scheduled t (by rw [hs]; simp) (by rw [hs]; simp) with h | ⟨-, h, -⟩
    · omega
    · unfold initThread
      omega
  have hcard := Finset.card_le_card hsub
  rw [toFinset_card_of_nodup hl.chain.nodup, Finset.card_range] at hcard
  exact hcard.trans (by decide)

theorem roster_drain (ho : o ≠ 0) (hl : k.roster.Queue o l) :
    ((k.drainCallers o threadBound).modEndpoint o fun e => { e with queueTail := 0 }).roster =
      k.roster.clearQueue o l := by
  have hblocked : ∀ t ∈ l, isBlocked (k.tcb t).state = true := by
    intro t ht
    have hs : (k.tcb t).state = .blockedSend :=
      (hR.caller t (by rw [(hl.mem t).mp ht]; exact ho)).1
    rw [hs]
    rfl
  have hd := drainCallers_roster threadBound l k (length_le_threadBound hR ho hl) hl.chain hblocked
  have hep : ((k.drainCallers o threadBound).endpoint o).ipc = { k.roster.ep o with head := 0 } := by
    have := congrFun (congrArg Roster.ep hd) o
    simpa using this
  rw [roster_modEndpoint, hd]
  refine Roster.ext rfl ?_ rfl rfl rfl
  show update (update k.roster.ep o _) o _ = _
  rw [update_idem]
  show update k.roster.ep o { ((k.drainCallers o threadBound).endpoint o).ipc with tail := 0 } = _
  rw [hep]
  rfl

theorem roster_wakeReceiver (ho : o ≠ 0) (v : U64) :
    ((k.wakeWithResult (k.endpoint o).waitingReceiver v).modEndpoint o
      fun e => { e with waitingReceiver := 0 }).roster = k.roster.releaseReceiver o := by
  have hep : (k.wakeWithResult (k.endpoint o).waitingReceiver v).endpoint = k.endpoint := by
    unfold wakeWithResult wake
    split
    · rfl
    · split
      · split
        · rfl
        · split <;> rfl
      · rfl
  rw [roster_modEndpoint, hep]
  unfold releaseReceiver
  split
  · rename_i h0
    have h0 : (k.endpoint o).waitingReceiver = 0 := h0
    rw [roster_wakeWithResult_awake _ _ (.inl h0)]
    have hself : Endpoint.ipc { k.endpoint o with waitingReceiver := 0 } = k.roster.ep o := by
      show EndpointIpc.mk _ _ 0 _ = EndpointIpc.mk _ _ (k.endpoint o).waitingReceiver _
      rw [h0]
    rw [hself, setEp_self]
  · rename_i hr
    have hr : (k.endpoint o).waitingReceiver ≠ 0 := hr
    have hb : isBlocked (k.tcb (k.endpoint o).waitingReceiver).state = true := by
      have hs : (k.tcb (k.endpoint o).waitingReceiver).state = .blockedReceive :=
        (hR.receiver o ho hr).1
      rw [hs]
      rfl
    rw [roster_wakeWithResult _ _ hr hb]
    rfl

/-- **`Fail_Endpoint`** wakes whoever waits on the endpoint and leaves it idle. -/
theorem failEndpoint_calm (ho : o ≠ 0) : Calm A k.roster (k.failEndpoint o).roster ∧
    ((k.endpoint o).failed = false → (k.failEndpoint o).roster.Idle o) := by
  unfold failEndpoint
  split
  · rename_i h
    refine ⟨.refl hR, fun hf => absurd h ?_⟩
    simp [ho, hf]
  · obtain ⟨l, hl⟩ := hR.queue o ho
    dsimp only
    -- the flag first, then the queue with its tail pointer
    have hs1 : ∀ W, Settles W k.roster (k.modEndpoint o fun e => { e with failed := true }).roster := by
      intro W
      rw [roster_modEndpoint]
      exact .setEp (hR.setFailed true) rfl rfl (.inl rfl) fun _ => rfl
    have hr1 : (k.modEndpoint o fun e => { e with failed := true }).roster =
        k.roster.setEp o { k.roster.ep o with failed := true } := roster_modEndpoint _ _ _
    generalize (k.modEndpoint o fun e => { e with failed := true }) = k₁ at hs1 hr1 ⊢
    have hl1 : k₁.roster.Queue o l := by
      rw [hr1]
      exact hl.congr (by simp) (by simp) (fun _ _ => rfl) fun _ => Iff.rfl
    have hr2 := roster_drain (hs1 fun _ => True).sound ho hl1
    generalize (k₁.drainCallers o threadBound).modEndpoint o (fun e => { e with queueTail := 0 }) = k₂ at hr2 ⊢
    have hr3 : ((k₂.dropSends (k₂.endpoint o).sendQueueHead k₂.sendSlab.carved).modEndpoint o
        fun e => { e with sendQueueHead := 0, sendQueueTail := 0 }).roster = k₂.roster := by simp
    generalize ((k₂.dropSends (k₂.endpoint o).sendQueueHead k₂.sendSlab.carved).modEndpoint o
        fun e => { e with sendQueueHead := 0, sendQueueTail := 0 }) = k₃ at hr3 ⊢
    rw [hr2] at hr3
    have hs3 : ∀ W, (∀ t ∈ l, W t) → Settles W k.roster k₃.roster := by
      intro W hW
      rw [hr3]
      refine (hs1 W).trans (.clearQueue (hs1 W).sound ho hl1 ?_ hW)
      rw [hr1]
      simp
    have hsound := (hs3 (fun _ => True) fun _ _ => trivial).sound
    have hep3 : k₃.roster.ep = update k.roster.ep o
        { head := 0, tail := 0, receiver := (k.roster.ep o).receiver, failed := true } := by
      rw [hr3, hr1]
      show update (update k.roster.ep o _) o _ = _
      rw [update_idem, setEp_ep, update_self]
    have hrecv : (k₃.roster.ep o).receiver = (k.roster.ep o).receiver := by rw [hep3]; simp
    rw [roster_wakeReceiver hsound ho]
    -- who wakes was queued or registered
    have hqueued : ∀ t ∈ l, ¬ k.roster.Detached t := fun t ht hd =>
      ho (((hl.mem t).mp ht).symm.trans hd.queuedOn)
    have hcalm : Settles (fun t => ¬ k.roster.Detached t ∨ A t) k.roster
        (k₃.roster.releaseReceiver o) := by
      refine (hs3 _ fun t ht => .inl (hqueued t ht)).trans (.releaseReceiver hsound ho fun hr => .inl fun hd => ?_)
      rw [hrecv] at hr hd
      exact hd.receiver o ho hr rfl
    have hep : (k₃.roster.releaseReceiver o).ep =
        update k.roster.ep o { head := 0, tail := 0, receiver := 0, failed := true } := by
      rw [releaseReceiver_ep, hep3, update_idem, update_self]
    have hidle : (k₃.roster.releaseReceiver o).Idle o := by
      unfold Idle
      rw [hep, update_self]
      exact ⟨rfl, rfl⟩
    refine ⟨⟨hcalm, fun p _ hf => ?_⟩, fun _ => hidle⟩
    by_cases hpo : p = o
    · subst hpo
      exact .inr hidle
    · rw [hep, update_of_ne hpo] at hf
      exact .inl hf

end

/-! ## Leaving a queue -/

theorem unlinkCaller_step (prev scan n : Nat) (h0 : scan ≠ 0) (ht : scan ≠ t) :
    k.unlinkCaller o t prev scan (n + 1) = k.unlinkCaller o t scan (k.roster.thread scan).next n := by
  rw [unlinkCaller, if_neg h0, if_neg ht]
  rfl

theorem unlinkCaller_notMem (n : Nat) (l : List Nat) (prev scan : Nat)
    (hchain : IsChain 0 (fun t => (k.roster.thread t).next) scan l) (ht : t ∉ l) :
    k.unlinkCaller o t prev scan n = k := by
  refine IsChain.walk_past unlinkCaller_step (fun p n => ?_) (fun _ _ => rfl) hchain ht n
  cases n <;> simp [unlinkCaller]

theorem unlinkCaller_found (k : State) (prev n : Nat) (ht : t ≠ 0) :
    (k.unlinkCaller o t prev t (n + 1)).roster = k.roster.unlinkAt o t prev := by
  unfold unlinkCaller Roster.unlinkAt
  dsimp only
  rw [if_neg ht, if_pos rfl]
  have h1 : (if prev = 0 then k.modEndpoint o fun e => { e with queueHead := (k.tcb t).queueNext }
      else k.modTcb prev fun c => { c with queueNext := (k.tcb t).queueNext }).roster =
      if prev = 0 then k.roster.setEp o { k.roster.ep o with head := (k.roster.thread t).next }
      else k.roster.setThread prev { k.roster.thread prev with next := (k.roster.thread t).next } := by
    split
    · exact roster_modEndpoint _ _ _
    · exact roster_modTcb _ _ _
  rw [← h1]
  generalize (if prev = 0 then k.modEndpoint o fun e => { e with queueHead := (k.tcb t).queueNext }
    else k.modTcb prev fun c => { c with queueNext := (k.tcb t).queueNext }) = k₁
  have h2 : (if (k₁.endpoint o).queueTail = t then
        k₁.modEndpoint o fun e => { e with queueTail := prev } else k₁).roster =
      if (k₁.roster.ep o).tail = t then k₁.roster.setEp o { k₁.roster.ep o with tail := prev }
      else k₁.roster := by
    by_cases htail : (k₁.endpoint o).queueTail = t
    · rw [if_pos htail, if_pos (show (k₁.roster.ep o).tail = t from htail)]
      exact roster_modEndpoint _ _ _
    · rw [if_neg htail, if_neg (show ¬ (k₁.roster.ep o).tail = t from htail)]
  rw [← h2]
  exact roster_modTcb _ _ _

theorem unlinkCaller_mem (n : Nat) (xs ys : List Nat) (prev scan : Nat) (hn : (xs ++ t :: ys).length ≤ n)
    (hchain : IsChain 0 (fun t => (k.roster.thread t).next) scan (xs ++ t :: ys)) (ht : t ∉ xs) :
    (k.unlinkCaller o t prev scan n).roster = k.roster.unlinkAt o t (xs.getLastD prev) := by
  have hlen : xs.length < n := by
    simp only [length_append, length_cons] at hn
    omega
  obtain ⟨m, hwalk⟩ := IsChain.walk_to (p := prev) (unlinkCaller_step (k := k) (o := o)) hchain ht hlen
  rw [hwalk]
  exact unlinkCaller_found k _ m (hchain.ne_null (by simp))

/-! ## Endpoint caps -/

theorem cleanupEndpointWaiter_calm (hR : k.roster.Sound)
    (hd : k.roster.Detached t) : Calm A k.roster (k.cleanupEndpointWaiter t o).roster := by
  unfold cleanupEndpointWaiter
  split
  · exact .refl hR
  · rename_i hcond
    rw [not_or] at hcond
    obtain ⟨ht, ho⟩ := hcond
    have hr : (k.endpoint o).waitingReceiver ≠ t := by
      intro e
      exact hd.receiver o ho (fun h0 => ht (e.symm.trans h0)) e
    rw [if_neg hr]
    dsimp only
    generalize hk1 : (k.modTcb t fun c => { c with recvEp := 0 }) = k₁
    have hr1 : k₁.roster = k.roster.setThread t { k.roster.thread t with recvEp := 0 } := by
      rw [← hk1]
      exact roster_modTcb _ _ _
    have hs : ∀ W, Settles W k.roster k₁.roster := by
      intro W
      rw [hr1]
      exact .setRecvEp hR hd.receiver 0
    obtain ⟨l, hl⟩ := (hs fun _ => True).sound.queue o ho
    have hd1 := (hs fun _ => True).detached hd
    have hnot : k₁.unlinkCaller o t 0 (k₁.endpoint o).queueHead threadBound = k₁ :=
      unlinkCaller_notMem _ l 0 _ hl.chain fun hm =>
        ho (((hl.mem t).mp hm).symm.trans hd1.queuedOn)
    rw [hnot]
    exact ⟨hs _, fun p _ hf => .inl (by rw [hr1] at hf; exact hf)⟩

theorem releaseEndpoint_calm (hR : k.roster.Sound) (o : Nat) :
    Calm A k.roster (k.releaseEndpoint o).roster := by
  unfold releaseEndpoint
  split
  · exact .refl hR
  · rename_i hcond
    have ho : o ≠ 0 := fun h => hcond (.inl h)
    dsimp only
    have hr : (k.modEndpoint o fun e => { e with count := e.count - 1 }).roster = k.roster := by simp
    rw [← hr] at hR ⊢
    split
    · exact .refl hR
    · exact (failEndpoint_calm hR ho).1

theorem releaseEndpoint_idle (hR : k.roster.Sound) (hF : k.roster.FailedIdle) (ho : o ≠ 0)
    (hc : (k.endpoint o).count = 1) : (k.releaseEndpoint o).roster.Idle o := by
  unfold releaseEndpoint
  rw [if_neg (by simp [ho, hc, pinnedRefcount])]
  have hr : (k.modEndpoint o fun e => { e with count := e.count - 1 }).roster = k.roster := by simp
  have hc' : ((k.modEndpoint o fun e => { e with count := e.count - 1 }).endpoint o).count = 0 := by
    simp [modEndpoint, hc]
  generalize (k.modEndpoint o fun e => { e with count := e.count - 1 }) = k₁ at hr hc' ⊢
  rw [← hr] at hR hF
  rw [if_neg (by simp [hc'])]
  by_cases hf : (k₁.endpoint o).failed = true
  · exact (failEndpoint_calm (A := fun _ => False) hR ho).1.idle_mono ho (hF o ho hf) hR
  · exact (failEndpoint_calm (A := fun _ => False) hR ho).2 (by simpa using hf)

/-! ## Reply caps -/

variable {badge : U64}

/-- A reply cap whose target awaits this very reply. -/
def Matches (k : State) (caller : Nat) (badge : U64) : Prop :=
  k.isDead caller = false ∧ (k.tcb caller).awaitingReply = true ∧
    badge = (k.tcb caller).replyGeneration

theorem failReplyTarget_matching (hR : k.roster.Sound) (h : k.Matches t badge) :
    (k.failReplyTarget t badge).roster = k.roster.setThread t (k.roster.thread t).woken := by
  obtain ⟨hlive, haw, hb⟩ := h
  have ht : t ≠ 0 ∧ (k.tcb t).state ≠ .dead := by simpa [isDead] using hlive
  have hs : (k.tcb t).state = .blockedSend := (hR.awaiting t haw).resolve_right ht.2
  unfold failReplyTarget
  rw [if_neg (by simp [hlive, haw, hb])]
  exact roster_wakeWithResult k _ ht.1 (by rw [hs]; rfl)

theorem failReplyTarget_stale (h : ¬ k.Matches t badge) : k.failReplyTarget t badge = k := by
  unfold failReplyTarget
  rw [if_pos]
  by_contra hn
  simp only [not_or, Bool.not_eq_true, Bool.not_eq_false, ne_eq, not_not] at hn
  exact h hn

theorem failReplyTarget_calm (hR : k.roster.Sound) (badge : U64) :
    Calm (· = t) k.roster (k.failReplyTarget t badge).roster := by
  by_cases h : k.Matches t badge
  · rw [failReplyTarget_matching hR h]
    obtain ⟨hlive, haw, -⟩ := h
    have ht : t ≠ 0 ∧ (k.tcb t).state ≠ .dead := by simpa [isDead] using hlive
    have hs : (k.roster.thread t).state = .blockedSend := (hR.awaiting t haw).resolve_right ht.2
    have hd := hR.detached_of_awaiting haw
    refine ⟨.setThread (hR.wake hd (by rw [hs]; simp)) (.inr ⟨.inr rfl, rfl⟩) rfl
      (.inr ⟨.inr rfl, by rw [hs]; rfl, rfl⟩) rfl rfl, fun p _ hf => .inl hf⟩
  · rw [failReplyTarget_stale h]
    exact .refl hR

/-! ## Notifications and lines -/

theorem roster_cleanupNotificationWaiter (hR : k.roster.Sound) (t o : Nat) (unbind : Bool) :
    (k.cleanupNotificationWaiter t o unbind).roster = k.roster := by
  have hw : (k.notification o).waiting = 0 := hR.ntfn o
  unfold cleanupNotificationWaiter
  split
  · rfl
  · dsimp only
    have h1 : (if k.isNotificationSlot o then
        k.modNotification o fun n =>
          { n with
            boundThread := if n.boundThread = t then 0 else n.boundThread
            waiting := if n.waiting = t then 0 else n.waiting }
      else k).roster = k.roster := by
      split
      · exact roster_modNotification_same _ _ _ (by simp [hw])
      · rfl
    generalize (if k.isNotificationSlot o then
        k.modNotification o fun n =>
          { n with
            boundThread := if n.boundThread = t then 0 else n.boundThread
            waiting := if n.waiting = t then 0 else n.waiting }
      else k) = k₁ at h1 ⊢
    split
    · have hb : (k₁.tcb t).boundNtfn = 0 := by
        rw [← h1] at hR
        exact hR.bound t
      refine (roster_modTcb_same _ _ _ ?_).trans h1
      unfold Tcb.ipc
      rw [hb]
    · exact h1

theorem roster_releaseNotification (hR : k.roster.Sound) (o : Nat) :
    (k.releaseNotification o).roster = k.roster := by
  have hw : (k.notification o).waiting = 0 := hR.ntfn o
  have hfree : ∀ j : State, (j.notification o).waiting = 0 → (j.freeNotification o).roster = j.roster := by
    intro j hj
    have h : (j.modNotification o fun n => { n with inUse := false, waiting := 0 }).roster =
        j.roster := roster_modNotification_same j o _ hj.symm
    exact h
  unfold releaseNotification
  split
  · dsimp only
    split
    · rw [if_neg (by simp [modNotification, hw]), hfree _ (by simp [modNotification, hw])]
      simp
    · simp
  · rfl

theorem roster_cleanupLineWaiter (hR : k.roster.Sound) (t o : Nat) :
    (k.cleanupLineWaiter t o).roster = k.roster := by
  unfold cleanupLineWaiter
  split
  · exact roster_modDevice_same _ _ _ (hR.line o).symm
  · rfl

/-! ## The close dispatcher -/

/-- **`Cleanup_Thread_Cap_Object`** for a thread that waits nowhere is calm; only the target of a
    reply cap may stop awaiting. -/
theorem cleanupThreadCapObject_calm (hR : k.roster.Sound) (hd : k.roster.Detached t) (e : CapEntry)
    (dying : Bool) :
    Calm (fun u => e.kind = .replyObject ∧ u = e.object) k.roster
      (k.cleanupThreadCapObject t e dying).roster := by
  unfold cleanupThreadCapObject
  split
  · exact .refl hR
  · cases hk : e.kind with
    | endpointObject =>
      have h1 : Calm (fun u => ObjectKind.endpointObject = .replyObject ∧ u = e.object) k.roster
          (if dying = true ∧ e.rights.receive = true then k.failEndpoint e.object else k).roster := by
        split
        · by_cases ho : e.object = 0
          · unfold failEndpoint
            rw [if_pos (.inl ho)]
            exact .refl hR
          · exact (failEndpoint_calm hR ho).1
        · exact .refl hR
      have h2 := cleanupEndpointWaiter_calm (o := e.object) (A := fun u =>
        ObjectKind.endpointObject = .replyObject ∧ u = e.object) h1.sound (h1.detached hd)
      exact (h1.trans h2).trans (releaseEndpoint_calm h2.sound e.object)
    | replyObject =>
      exact (failReplyTarget_calm hR e.badge).mono fun u hu => ⟨rfl, hu⟩
    | irqObject =>
      rw [roster_releaseDevice, roster_cleanupLineWaiter hR]
      exact .refl hR
    | mmioObject =>
      rw [roster_releaseDevice]
      exact .refl hR
    | memoryObject =>
      rw [roster_releaseMemory]
      exact .refl hR
    | notificationObject =>
      have h1 := roster_cleanupNotificationWaiter hR t e.object dying
      rw [roster_releaseNotification (h1 ▸ hR), h1]
      exact .refl hR
    | _ => exact .refl hR

theorem roster_closeCap (k : State) (t cap : Nat) (dying : Bool) : (k.closeCap t cap dying).2 = k ∨
    ∃ e, k.lookupCap t cap = some e ∧
      (k.closeCap t cap dying).2.roster = (k.cleanupThreadCapObject t e dying).roster := by
  unfold closeCap lookupCap
  split
  · exact .inl rfl
  · cases (k.capsOf t).lookup cap with
    | none => exact .inl rfl
    | some e => exact .inr ⟨e, rfl, roster_setCaps _ _ _ _⟩

theorem closeCap_calm (hR : k.roster.Sound) (hd : k.roster.Detached t) (cap : Nat) (dying : Bool) :
    Calm (fun u => ∃ e, k.lookupCap t cap = some e ∧ e.kind = .replyObject ∧ u = e.object) k.roster
      (k.closeCap t cap dying).2.roster := by
  rcases roster_closeCap k t cap dying with h | ⟨e, he, h⟩
  · rw [h]
    exact .refl hR
  · rw [h]
    exact (cleanupThreadCapObject_calm hR hd e dying).mono fun u ⟨hk, hu⟩ => ⟨e, he, hk, hu⟩

end State

end Aegir.Kernel
