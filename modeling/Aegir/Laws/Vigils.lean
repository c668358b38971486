/-
  The lists of `Thread_Wait`, seen on the roster.

  A thread that dies wakes everybody in its own list (`Wake_Thread_Waiters`) and leaves the list it
  is in (`Remove_As_Waiter`).  Both change the links of `thread_wait` only, and wake only threads that
  are blocked there: `Rewatches R R'` says so, and that is all the callers need.
-/
import Aegir.Laws.Cleanup

namespace Aegir.Kernel

open Aegir.Lib Roster List Function

namespace Roster

variable {R R' : Roster} {o t u : Nat} {l : List Nat}

/-- **Only the links of `thread_wait` change, and some who were blocked there become ready.** -/
structure Rewatches (R R' : Roster) : Prop where
  thread : ∀ v, R'.thread v =
    { R.thread v with state := (R'.thread v).state, vigil := (R'.thread v).vigil }
  state : ∀ v, (R'.thread v).state = (R.thread v).state ∨
    ((R.thread v).state = .blockedThreadWait ∧ (R'.thread v).state = .ready)
  ep : R'.ep = R.ep
  ntfn : R'.ntfnWaiting = R.ntfnWaiting
  line : R'.lineWaiter = R.lineWaiter
  used : R'.threadUsed = R.threadUsed
  waiters : ∀ v, v ≠ 0 → ∃ l, R'.Waiters v l ∧ ∀ w ∈ l, ∃ l', R.Waiters v l' ∧ w ∈ l'

namespace Rewatches

theorem refl (hR : R.Sound) : Rewatches R R := by
  refine ⟨fun _ => rfl, fun _ => .inl rfl, rfl, rfl, rfl, rfl, fun v hv => ?_⟩
  obtain ⟨l, hl⟩ := hR.waiters v hv
  exact ⟨l, hl, fun w hw => ⟨l, hl, hw⟩⟩

section

variable (h : Rewatches R R')

include h

theorem unlisted (hun : R.Unlisted t) : R'.Unlisted t := by
  intro v l hv hl hm
  obtain ⟨l1, hl1, hsub⟩ := h.waiters v hv
  rw [hl.chain.unique hl1.chain] at hm
  obtain ⟨l2, hl2, hm2⟩ := hsub t hm
  exact hun v l2 hv hl2 hm2

theorem state_eq {s : ThreadState} (hs : (R.thread t).state = s)
    (hne : s ≠ .blockedThreadWait) : (R'.thread t).state = s := by
  rcases h.state t with e | ⟨e, -⟩
  · exact e.trans hs
  · exact absurd (hs.symm.trans e) hne

theorem queuedOn (v : Nat) : (R'.thread v).queuedOn = (R.thread v).queuedOn := by
  rw [h.thread v]

theorem queue (hl : R.Queue o l) : R'.Queue o l :=
  hl.congr (by rw [h.ep]) (by rw [h.ep]) (fun v _ => by rw [h.thread v]) fun v => by rw [h.queuedOn]

theorem detached (hd : R.Detached t) : R'.Detached t := by
  refine ⟨(h.queuedOn t).trans hd.queuedOn, ?_⟩
  rw [h.ep]
  exact hd.receiver

theorem sound (hR : R.Sound) : R'.Sound := by
  refine ⟨fun p hp => ?_, fun v hv => ?_, fun p hp hr => ?_, fun v hv => ?_, fun v h1 h2 => ?_,
    fun v hv => (h.waiters v hv).imp fun _ hl => hl.1, fun v => ?_, ?_, ?_⟩
  · obtain ⟨l, hl⟩ := hR.queue p hp
    exact ⟨l, h.queue hl⟩
  · rw [h.queuedOn] at hv
    obtain ⟨hs, ha⟩ := hR.caller v hv
    refine ⟨h.state_eq hs (by simp), ?_⟩
    rw [h.thread v]
    exact ha
  · rw [h.ep] at hr ⊢
    obtain ⟨hs, he⟩ := hR.receiver p hp hr
    refine ⟨h.state_eq hs (by simp), ?_⟩
    rw [h.thread]
    exact he
  · have hv : (R.thread v).awaiting = true := by
      rw [h.thread v] at hv
      exact hv
    rcases hR.awaiting v hv with hs | hs
    · exact .inl (h.state_eq hs (by simp))
    · exact .inr (h.state_eq hs (by simp))
  · have hsched : R.Scheduled v := by
      rcases h.state v with e | ⟨-, e⟩
      · rw [e] at h1 h2
        exact hR.scheduled v h1 h2
      · exact absurd e h2
    unfold Scheduled at hsched ⊢
    rw [h.used]
    exact hsched
  · rw [h.thread v]
    exact hR.bound v
  · rw [h.ntfn]
    exact hR.ntfn
  · rw [h.line]
    exact hR.line

end

end Rewatches

/-! ## Leaving a list -/

/-- `t` leaves the list of `u`, in which `prev` is its predecessor (null at the head). -/
def unwatch (R : Roster) (u t prev : Nat) : Roster :=
  let next := (R.thread t).vigil.next
  let R₁ := if prev = 0 then
      R.setThread u { R.thread u with vigil := { (R.thread u).vigil with head := next } }
    else R.setThread prev { R.thread prev with vigil := { (R.thread prev).vigil with next := next } }
  R₁.setThread t { R₁.thread t with vigil := { (R₁.thread t).vigil with next := 0, target := 0 } }

theorem unwatch_thread (R : Roster) (u t prev v : Nat) :
    (R.unwatch u t prev).thread v = { R.thread v with vigil :=
      { head := if prev = 0 ∧ v = u then (R.thread t).vigil.next else (R.thread v).vigil.head
        next := if v = t then 0 else if prev ≠ 0 ∧ v = prev then (R.thread t).vigil.next
          else (R.thread v).vigil.next
        target := if v = t then 0 else (R.thread v).vigil.target } } := by
  unfold unwatch
  by_cases h0 : prev = 0
  · by_cases hvt : v = t
    · subst hvt
      by_cases hvu : v = u
      · subst hvu; simp [h0]
      · simp [h0, hvu]
    · by_cases hvu : v = u
      · subst hvu; simp [h0, hvt]
      · simp [h0, hvt, hvu]
  · by_cases hvt : v = t
    · subst hvt
      by_cases hvp : v = prev
      · subst hvp; simp [h0]
      · simp [h0, hvp]
    · by_cases hvp : v = prev
      · subst hvp; simp [h0, hvt]
      · simp [h0, hvt, hvp]

theorem unwatch_rest (R : Roster) (u t prev : Nat) :
    (R.unwatch u t prev).ep = R.ep ∧ (R.unwatch u t prev).ntfnWaiting = R.ntfnWaiting ∧
    (R.unwatch u t prev).lineWaiter = R.lineWaiter ∧
    (R.unwatch u t prev).threadUsed = R.threadUsed := by
  unfold unwatch
  split <;> exact ⟨rfl, rfl, rfl, rfl⟩

theorem Waiters.unwatch {xs ys : List Nat} (h : R.Waiters u (xs ++ t :: ys)) :
    (R.unwatch u t (xs.getLastD 0)).Waiters u (xs ++ ys) := by
  have hnd := h.chain.nodup
  have htx : t ∉ xs := fun hm => (nodup_append.mp hnd).2.2 t hm t mem_cons_self rfl
  have hty : t ∉ ys := (nodup_cons.mp (nodup_append.mp hnd).2.1).1
  have hout : ∀ v ∈ xs ++ ys, v ≠ t := by
    rintro v hv rfl
    rcases mem_append.mp hv with hv | hv
    · exact htx hv
    · exact hty hv
  refine ⟨?_, fun v hv => ?_⟩
  · rcases eq_nil_or_concat xs with rfl | ⟨zs, b, rfl⟩
    · -- the head of the list
      have hhead : ((R.unwatch u t ([].getLastD 0)).thread u).vigil.head =
          (R.thread t).vigil.next := by
        rw [unwatch_thread]
        exact if_pos ⟨rfl, rfl⟩
      rw [hhead]
      refine IsChain.pop h.chain fun v hv => ?_
      rw [unwatch_thread]
      exact (if_neg hv).trans (if_neg fun e => e.1 rfl)
    · have hlast : (zs.concat b).getLastD 0 = b := by simp
      have hchain : IsChain 0 (fun v => (R.thread v).vigil.next) (R.thread u).vigil.head
          (zs ++ b :: t :: ys) := by simpa using h.chain
      have hb0 : b ≠ 0 := hchain.ne_null (by simp)
      have hbt : b ≠ t := hout b (by simp)
      have hbz : b ∉ zs ++ ys := by
        have := hchain.nodup
        rw [nodup_append] at this
        intro hm
        rcases mem_append.mp hm with hm | hm
        · exact this.2.2 b hm b mem_cons_self rfl
        · exact (nodup_cons.mp this.2.1).1 (mem_cons_of_mem _ hm)
      have hunlink := hchain.unlink (fun v => ((R.unwatch u t b).thread v).vigil.next) (by
          rw [unwatch_thread]
          show (if b = t then 0 else if b ≠ 0 ∧ b = b then _ else _) = _
          rw [if_neg hbt, if_pos ⟨hb0, rfl⟩])
        fun v hv => by
          have hvt : v ≠ t := by
            rcases mem_append.mp hv with hm | hm
            · exact hout v (by simp [hm])
            · exact hout v (by simp [hm])
          have hvb : v ≠ b := fun e => hbz (e ▸ hv)
          rw [unwatch_thread]
          show (if v = t then 0 else if b ≠ 0 ∧ v = b then _ else _) = _
          rw [if_neg hvt, if_neg fun e => hvb e.2]
      rw [hlast, unwatch_thread]
      rw [if_neg fun e => hb0 e.1]
      simpa using hunlink
  · have hmem : v ∈ xs ++ t :: ys := by
      rcases mem_append.mp hv with hm | hm
      · exact mem_append_left _ hm
      · exact mem_append_right _ (mem_cons_of_mem _ hm)
    rw [unwatch_thread]
    refine ⟨(h.mem v hmem).1, ?_⟩
    show (if v = t then 0 else _) = u
    rw [if_neg (hout v hv)]
    exact (h.mem v hmem).2

theorem Waiters.unwatch_other {v : Nat} {xs ys : List Nat} (h : R.Waiters u (xs ++ t :: ys))
    (hl : R.Waiters v l) (hv : v ≠ u) : (R.unwatch u t (xs.getLastD 0)).Waiters v l := by
  have hne : ∀ w ∈ l, ∀ m ∈ xs ++ t :: ys, w ≠ m := by
    rintro w hw m hm rfl
    exact hv ((hl.mem w hw).2.symm.trans (h.mem w hm).2)
  have ht : ∀ w ∈ l, w ≠ t := fun w hw => hne w hw t (by simp)
  have hprev : ∀ w ∈ l, ¬ (xs.getLastD 0 ≠ 0 ∧ w = xs.getLastD 0) := by
    rintro w hw ⟨h0, e⟩
    rcases eq_nil_or_concat xs with rfl | ⟨zs, b, rfl⟩
    · exact h0 rfl
    · have hlast : (zs.concat b).getLastD 0 = b := by simp
      exact hne w hw b (by simp) (e.trans hlast)
  refine hl.congr ?_ (fun w hw => ?_) (fun w hw => ?_) fun w hw => ?_
  · rw [unwatch_thread]
    exact if_neg fun e => hv e.2
  · rw [unwatch_thread]
    rw [if_neg (ht w hw), if_neg (hprev w hw)]
  · rw [unwatch_thread]
    exact if_neg (ht w hw)
  · rw [unwatch_thread]
    exact (hl.mem w hw).1

/-- **Leaving a list** keeps the law, and the thread is in no list any more. -/
theorem Waiters.unwatch_rewatches (hR : R.Sound) {xs ys : List Nat} (h : R.Waiters u (xs ++ t :: ys)) :
    Rewatches R (R.unwatch u t (xs.getLastD 0)) ∧ (R.unwatch u t (xs.getLastD 0)).Unlisted t := by
  obtain ⟨hep, hntfn, hline, hused⟩ := unwatch_rest R u t (xs.getLastD 0)
  refine ⟨⟨fun v => ?_, fun v => .inl ?_, hep, hntfn, hline, hused, fun v hv => ?_⟩, fun v l hv hl hm => ?_⟩
  · rw [unwatch_thread]
  · rw [unwatch_thread]
  · by_cases hvu : v = u
    · subst hvu
      refine ⟨_, h.unwatch, fun w hw => ⟨_, h, ?_⟩⟩
      rcases mem_append.mp hw with hm | hm
      · exact mem_append_left _ hm
      · exact mem_append_right _ (mem_cons_of_mem _ hm)
    · obtain ⟨l, hl⟩ := hR.waiters v hv
      exact ⟨l, h.unwatch_other hl hvu, fun w hw => ⟨l, hl, hw⟩⟩
  · have htarget := (hl.mem t hm).2
    rw [unwatch_thread] at htarget
    exact hv (htarget.symm.trans (if_pos rfl))

theorem Sound.forgetTarget (hR : R.Sound) (hun : R.Unlisted t) :
    Rewatches R (R.setThread t { R.thread t with
      vigil := { (R.thread t).vigil with next := 0, target := 0 } }) := by
  have hat : ∀ v, ((R.setThread t { R.thread t with
      vigil := { (R.thread t).vigil with next := 0, target := 0 } }).thread v) =
      { R.thread v with vigil := if v = t then { (R.thread t).vigil with next := 0, target := 0 }
        else (R.thread v).vigil } := by
    intro v
    by_cases hv : v = t
    · subst hv; simp
    · simp [hv]
  refine ⟨fun v => ?_, fun v => .inl ?_, rfl, rfl, rfl, rfl, fun v hv => ?_⟩
  · rw [hat]
  · rw [hat]
  · obtain ⟨l, hl⟩ := hR.waiters v hv
    have hne : ∀ w ∈ l, w ≠ t := fun w hw e => hun v l hv hl (e ▸ hw)
    refine ⟨l, hl.congr ?_ (fun w hw => ?_) (fun w hw => ?_) fun w hw => ?_, fun w hw => ⟨l, hl, hw⟩⟩
    · rw [hat]
      split
      · rename_i e; rw [e]
      · rfl
    · rw [hat, if_neg (hne w hw)]
    · rw [hat, if_neg (hne w hw)]
    · rw [hat]
      exact (hl.mem w hw).1

/-! ## Waking a list -/

/-- The members of `l` wake and forget whom they waited for. -/
def relieve (R : Roster) (l : List Nat) : Roster :=
  { R with thread := fun v => if v ∈ l then { R.thread v with
      state := .ready, vigil := { (R.thread v).vigil with next := 0, target := 0 } }
    else R.thread v }

/-- **The list of `u` wakes.** -/
theorem Waiters.relieve_rewatches (hR : R.Sound) (h : R.Waiters u l) :
    Rewatches R ((R.relieve l).setThread u { (R.relieve l).thread u with
      vigil := { ((R.relieve l).thread u).vigil with head := 0 } }) := by
  have hin : ∀ v, v ∈ l → (R.relieve l).thread v = { R.thread v with
      state := .ready, vigil := { (R.thread v).vigil with next := 0, target := 0 } } :=
    fun v hv => if_pos hv
  have hout : ∀ v, v ∉ l → (R.relieve l).thread v = R.thread v := fun v hv => if_neg hv
  generalize hR' : (R.relieve l).setThread u { (R.relieve l).thread u with
      vigil := { ((R.relieve l).thread u).vigil with head := 0 } } = R'
  have hself : R'.thread u = { (R.relieve l).thread u with
      vigil := { ((R.relieve l).thread u).vigil with head := 0 } } := by
    rw [← hR']
    exact update_self _ _ _
  have hat : ∀ v, v ≠ u → R'.thread v = (R.relieve l).thread v := by
    intro v hv
    rw [← hR']
    exact update_of_ne hv _ _
  -- everything but the head of `u` is as in the relieved roster
  have hlinks : ∀ v, R'.thread v = { (R.relieve l).thread v with vigil :=
      { ((R.relieve l).thread v).vigil with head := (R'.thread v).vigil.head } } := by
    intro v
    by_cases hv : v = u
    · subst hv; rw [hself]
    · rw [hat v hv]
  refine ⟨fun v => ?_, fun v => ?_, ?_, ?_, ?_, ?_, fun v hv => ?_⟩
  · rw [hlinks v]
    by_cases hm : v ∈ l
    · rw [hin v hm]
    · rw [hout v hm]
  · rw [hlinks v]
    by_cases hm : v ∈ l
    · rw [hin v hm]
      exact .inr ⟨(h.mem v hm).1, rfl⟩
    · rw [hout v hm]
      exact .inl rfl
  · rw [← hR']; rfl
  · rw [← hR']; rfl
  · rw [← hR']; rfl
  · rw [← hR']; rfl
  · by_cases hvu : v = u
    · subst hvu
      refine ⟨[], ⟨?_, fun w hw => absurd hw not_mem_nil⟩, fun w hw => absurd hw not_mem_nil⟩
      rw [hself]
      rfl
    · obtain ⟨l', hl'⟩ := hR.waiters v hv
      have hdis : ∀ w ∈ l', w ∉ l := fun w hw hm =>
        hvu ((hl'.mem w hw).2.symm.trans (h.mem w hm).2)
      have hhead : ((R.relieve l).thread v).vigil.head = (R.thread v).vigil.head := by
        by_cases hm : v ∈ l
        · rw [hin v hm]
        · rw [hout v hm]
      refine ⟨l', hl'.congr (by rw [hat v hvu, hhead]) (fun w hw => ?_) (fun w hw => ?_)
        (fun w hw => ?_), fun w hw => ⟨l', hl', hw⟩⟩
      · rw [hlinks w, hout w (hdis w hw)]
      · rw [hlinks w, hout w (hdis w hw)]
      · rw [hlinks w, hout w (hdis w hw)]
        exact (hl'.mem w hw).1

/-! ## Joining a list -/

/-- `t` goes to the head of the list of `u` and blocks. -/
def watch (R : Roster) (u t : Nat) : Roster :=
  { R with thread := fun v => { R.thread v with
      state := if v = t then .blockedThreadWait else (R.thread v).state
      vigil :=
        { head := if v = u then t else (R.thread v).vigil.head
          next := if v = t then (R.thread u).vigil.head else (R.thread v).vigil.next
          target := if v = t then u else (R.thread v).vigil.target } } }

/-- **A running thread that starts to wait for another keeps the queueing law.** -/
theorem Sound.watch (hR : R.Sound) (ht : t ≠ 0) (hrun : (R.thread t).state = .running) :
    (R.watch u t).Sound := by
  have hun : R.Unlisted t := unlisted_of_state (by rw [hrun]; simp)
  have hstate : ∀ v s, (R.thread v).state = s → s ≠ .running → ((R.watch u t).thread v).state = s := by
    intro v s hs hne
    have hvt : v ≠ t := by
      rintro rfl
      exact hne (hs.symm.trans hrun)
    exact (if_neg hvt).trans hs
  refine ⟨fun o ho => ?_, fun v hv => ?_, fun o ho hr => ?_, fun v hv => ?_, fun v h1 h2 => ?_,
    fun v hv => ?_, hR.bound, hR.ntfn, hR.line⟩
  · obtain ⟨l, hl⟩ := hR.queue o ho
    exact ⟨l, hl.congr rfl rfl (fun _ _ => rfl) fun _ => Iff.rfl⟩
  · obtain ⟨hs, ha⟩ := hR.caller v hv
    exact ⟨hstate v _ hs (by simp), ha⟩
  · obtain ⟨hs, he⟩ := hR.receiver o ho hr
    exact ⟨hstate _ _ hs (by simp), he⟩
  · exact (hR.awaiting v hv).imp (fun hs => hstate v _ hs (by simp)) fun hs => hstate v _ hs (by simp)
  · by_cases hvt : v = t
    · subst hvt
      exact hR.scheduled v (by rw [hrun]; simp) (by rw [hrun]; simp)
    · rw [show ((R.watch u t).thread v).state = (R.thread v).state from if_neg hvt] at h1 h2
      exact hR.scheduled v h1 h2
  · obtain ⟨l, hl⟩ := hR.waiters v hv
    have hne : ∀ w ∈ l, w ≠ t := fun w hw e => hun v l hv hl (e ▸ hw)
    by_cases hvu : v = u
    · subst hvu
      refine ⟨t :: l, ?_, fun w hw => ?_⟩
      · rw [show ((R.watch v t).thread v).vigil.head = t from if_pos rfl]
        exact hl.chain.push ht (if_pos rfl) fun w hw => if_neg (hne w hw)
      · rcases mem_cons.mp hw with rfl | hw
        · exact ⟨if_pos rfl, if_pos rfl⟩
        · exact ⟨(if_neg (hne w hw)).trans (hl.mem w hw).1, (if_neg (hne w hw)).trans (hl.mem w hw).2⟩
    · exact ⟨l, hl.congr (if_neg hvu) (fun w hw => if_neg (hne w hw)) (fun w hw => if_neg (hne w hw))
        fun w hw => (if_neg (hne w hw)).trans (hl.mem w hw).1⟩

theorem Waiters.length_le (hR : R.Sound) (h : R.Waiters u l) : l.length ≤ threadBound := by
  have hsub : l.toFinset ⊆ Finset.range (initThread + 1) := by
    intro v hv
    rw [mem_toFinset] at hv
    have hs := (h.mem v hv).1
    rw [Finset.mem_range]
    rcases hR.scheduled v (by rw [hs]; simp) (by rw [hs]; simp) with hi | ⟨-, hi, -⟩
    · omega
    · unfold initThread
      omega
  have hcard := Finset.card_le_card hsub
  rw [toFinset_card_of_nodup h.chain.nodup, Finset.card_range] at hcard
  exact hcard.trans (by decide)

end Roster

namespace State

variable {k : State} {t u : Nat} {l : List Nat}

theorem unlinkWaiter_step (prev scan n : Nat) (h0 : scan ≠ 0) (ht : scan ≠ t) :
    k.unlinkWaiter u t prev scan (n + 1) = k.unlinkWaiter u t scan (k.roster.thread scan).vigil.next n := by
  rw [unlinkWaiter, if_neg h0, if_neg ht]
  rfl

theorem unlinkWaiter_notMem (n : Nat) (l : List Nat) (prev scan : Nat)
    (hchain : IsChain 0 (fun v => (k.roster.thread v).vigil.next) scan l) (ht : t ∉ l) :
    k.unlinkWaiter u t prev scan n = k := by
  refine IsChain.walk_past unlinkWaiter_step (fun p n => ?_) (fun _ _ => rfl) hchain ht n
  cases n <;> simp [unlinkWaiter]

theorem unlinkWaiter_found (k : State) (prev n : Nat) (ht : t ≠ 0) :
    ((k.unlinkWaiter u t prev t (n + 1)).modTcb t fun c =>
      { c with waitingFor := 0, waitersNext := 0 }).roster = k.roster.unwatch u t prev := by
  unfold unlinkWaiter Roster.unwatch
  dsimp only
  rw [if_neg ht, if_pos rfl]
  have h1 : (if prev = 0 then k.modTcb u fun c => { c with waitersHead := (k.tcb t).waitersNext }
      else k.modTcb prev fun c => { c with waitersNext := (k.tcb t).waitersNext }).roster =
      if prev = 0 then k.roster.setThread u { k.roster.thread u with
        vigil := { (k.roster.thread u).vigil with head := (k.roster.thread t).vigil.next } }
      else k.roster.setThread prev { k.roster.thread prev with
        vigil := { (k.roster.thread prev).vigil with next := (k.roster.thread t).vigil.next } } := by
    split
    · exact roster_modTcb _ _ _
    · exact roster_modTcb _ _ _
  rw [← h1]
  exact roster_modTcb _ _ _

theorem unlinkWaiter_mem (n : Nat) (xs ys : List Nat) (prev scan : Nat) (hn : (xs ++ t :: ys).length ≤ n)
    (hchain : IsChain 0 (fun v => (k.roster.thread v).vigil.next) scan (xs ++ t :: ys))
    (ht : t ∉ xs) :
    ((k.unlinkWaiter u t prev scan n).modTcb t fun c =>
      { c with waitingFor := 0, waitersNext := 0 }).roster =
      k.roster.unwatch u t (xs.getLastD prev) := by
  have hlen : xs.length < n := by
    simp only [length_append, length_cons] at hn
    omega
  obtain ⟨m, hwalk⟩ := IsChain.walk_to (p := prev) (unlinkWaiter_step (k := k) (u := u)) hchain ht hlen
  rw [hwalk]
  exact unlinkWaiter_found k _ m (hchain.ne_null (by simp))

/-- **`Remove_As_Waiter`**: the thread is in no list any more. -/
theorem removeAsWaiter_rewatches (hR : k.roster.Sound) (t : Nat) :
    Rewatches k.roster (k.removeAsWaiter t).roster ∧ (k.removeAsWaiter t).roster.Unlisted t := by
  unfold removeAsWaiter
  dsimp only
  split
  · rename_i h0
    refine ⟨.refl hR, fun v l hv hl hm => ?_⟩
    exact hv ((hl.mem t hm).2.symm.trans h0)
  · rename_i h0
    obtain ⟨l, hl⟩ := hR.waiters _ h0
    by_cases hm : t ∈ l
    · obtain ⟨xs, ys, rfl⟩ := append_of_mem hm
      have htx : t ∉ xs := fun hm =>
        (nodup_append.mp hl.chain.nodup).2.2 t hm t mem_cons_self rfl
      have hwalk := unlinkWaiter_mem (u := (k.tcb t).waitingFor) threadBound xs ys 0 _
        (hl.length_le hR) hl.chain htx
      have h := hl.unwatch_rewatches hR
      rw [← hwalk] at h
      exact h
    · have hwalk := unlinkWaiter_notMem (k := k) (u := (k.tcb t).waitingFor) threadBound l 0 _ hl.chain hm
      have hun : k.roster.Unlisted t := by
        intro v l' hv hl' hm'
        have hvt : v = (k.tcb t).waitingFor := (hl'.mem t hm').2.symm
        subst hvt
        exact hm (hl'.chain.unique hl.chain ▸ hm')
      have hr : ((k.unlinkWaiter (k.tcb t).waitingFor t 0 (k.tcb (k.tcb t).waitingFor).waitersHead
          threadBound).modTcb t fun c => { c with waitingFor := 0, waitersNext := 0 }).roster =
          k.roster.setThread t { k.roster.thread t with
            vigil := { (k.roster.thread t).vigil with next := 0, target := 0 } } := by
        rw [show k.unlinkWaiter (k.tcb t).waitingFor t 0 (k.tcb (k.tcb t).waitingFor).waitersHead
          threadBound = k from hwalk]
        exact roster_modTcb _ _ _
      rw [hr]
      refine ⟨hR.forgetTarget hun, fun v l' hv hl' hm' => ?_⟩
      have htarget := (hl'.mem t hm').2
      simp only [setThread_thread, update_self] at htarget
      exact hv htarget.symm

theorem wakeWaiters_roster (n : Nat) (l : List Nat) (k : State) (scan : Nat) (hn : l.length ≤ n)
    (hchain : IsChain 0 (fun v => (k.roster.thread v).vigil.next) scan l)
    (hblocked : ∀ v ∈ l, (k.tcb v).state = .blockedThreadWait) :
    (k.wakeWaiters scan n).roster = k.roster.relieve l := by
  induction l generalizing k n scan with
  | nil =>
    have h0 : scan = 0 := hchain
    have hk : k.wakeWaiters scan n = k := by
      cases n with
      | zero => rfl
      | succ n => unfold wakeWaiters; rw [if_pos h0]
    rw [hk]
    refine Roster.ext ?_ rfl rfl rfl rfl
    funext v
    simp [relieve]
  | cons y ys ih =>
    cases n with
    | zero => simp at hn
    | succ n =>
      obtain ⟨rfl, h0, hys⟩ := hchain
      have hnd : scan ∉ ys := by
        have := IsChain.nodup (show IsChain 0 _ scan (scan :: ys) from ⟨rfl, h0, hys⟩)
        exact (nodup_cons.mp this).1
      unfold wakeWaiters
      rw [if_neg h0]
      generalize hk' : ((k.modTcb scan fun c =>
        { c with waitingFor := 0, waitersNext := 0, savedA0 := 0 }).wake scan) = k'
      have hb : isBlocked ((k.modTcb scan fun c =>
          { c with waitingFor := 0, waitersNext := 0, savedA0 := 0 }).tcb scan).state = true := by
        have := hblocked scan mem_cons_self
        simp [modTcb, this, isBlocked]
      have hr : k'.roster = k.roster.setThread scan { k.roster.thread scan with
          state := .ready, vigil := { (k.roster.thread scan).vigil with next := 0, target := 0 } } := by
        rw [← hk', roster_wake _ h0 hb, roster_modTcb, setThread_setThread, setThread_thread, update_self]
        rfl
      have hthread : ∀ v, v ≠ scan → k'.roster.thread v = k.roster.thread v := by
        intro v hv
        rw [hr]
        simp [hv]
      have hne : ∀ v ∈ ys, v ≠ scan := fun v hv e => hnd (e ▸ hv)
      have hblocked' : ∀ v ∈ ys, (k'.tcb v).state = .blockedThreadWait := by
        intro v hv
        have hs : (k'.tcb v).state = (k.tcb v).state :=
          congrArg ThreadIpc.state (hthread v (hne v hv))
        rw [hs]
        exact hblocked v (mem_cons_of_mem _ hv)
      have hys' : IsChain 0 (fun v => (k'.roster.thread v).vigil.next) (k.tcb scan).waitersNext ys :=
        hys.congr fun v hv => by rw [hthread v (hne v hv)]
      rw [ih n k' _ (by simpa using hn) hys' hblocked', hr]
      refine Roster.ext ?_ rfl rfl rfl rfl
      funext v
      by_cases hv : v = scan
      · subst hv
        simp [relieve, hnd]
      · simp [relieve, hv]

/-- **`Wake_Thread_Waiters`.** -/
theorem wakeThreadWaiters_rewatches (hR : k.roster.Sound) (ht : t ≠ 0) :
    Rewatches k.roster (k.wakeThreadWaiters t).roster := by
  obtain ⟨l, hl⟩ := hR.waiters t ht
  have hr := wakeWaiters_roster threadBound l k _ (hl.length_le hR) hl.chain fun v hv => (hl.mem v hv).1
  unfold wakeThreadWaiters
  rw [roster_modTcb]
  have h := hl.relieve_rewatches hR
  rw [← hr] at h
  exact h

end State

end Aegir.Kernel
