/-
  The queueing law: every thread waits where the roster says it waits.

  `R.Queue o l` says that `l` is the caller queue of the endpoint `o`, with the threads whose back-pointer
  names `o` as its members.  `R.Sound` is the law for the whole roster: queued threads are blocked in a call
  or send, registered receivers in a receive, and whoever is neither ready nor dead was given to the
  scheduler.  Nobody waits for a notification or an interrupt line in the runs studied here.
-/
import Aegir.Kernel.Roster

namespace Aegir.Kernel

open Aegir.Lib List Function

namespace Roster

variable {R R' : Roster} {o t : Nat} {l : List Nat} {x : ThreadIpc}

/-- The thread was given to the scheduler and has not left it. -/
def Scheduled (R : Roster) (t : Nat) : Prop :=
  t = initThread ∨ (1 ≤ t ∧ t ≤ maxThreadSlots ∧ R.threadUsed (t - 1) = true)

/-- `l` is the caller queue of `o`. -/
structure Queue (R : Roster) (o : Nat) (l : List Nat) : Prop where
  chain : IsChain 0 (fun t => (R.thread t).next) (R.ep o).head l
  tail : (R.ep o).tail = l.getLastD 0
  mem : ∀ t, t ∈ l ↔ (R.thread t).queuedOn = o

/-- `l` is the list of those who wait for `t`.  Not everybody who waits for `t` need be in it: a new
    thread in the slot starts with an empty list. -/
structure Waiters (R : Roster) (t : Nat) (l : List Nat) : Prop where
  chain : IsChain 0 (fun u => (R.thread u).vigil.next) (R.thread t).vigil.head l
  mem : ∀ u, u ∈ l → (R.thread u).state = .blockedThreadWait ∧ (R.thread u).vigil.target = t

/-- The thread is in nobody's list of waiters. -/
def Unlisted (R : Roster) (t : Nat) : Prop := ∀ u l, u ≠ 0 → R.Waiters u l → t ∉ l

/-- **The queueing law.** -/
structure Sound (R : Roster) : Prop where
  queue : ∀ o, o ≠ 0 → ∃ l, R.Queue o l
  caller : ∀ t, (R.thread t).queuedOn ≠ 0 →
    (R.thread t).state = .blockedSend ∧ (R.thread t).awaiting = false
  receiver : ∀ o, o ≠ 0 → (R.ep o).receiver ≠ 0 →
    (R.thread (R.ep o).receiver).state = .blockedReceive ∧ (R.thread (R.ep o).receiver).recvEp = o
  awaiting : ∀ t, (R.thread t).awaiting = true →
    (R.thread t).state = .blockedSend ∨ (R.thread t).state = .dead
  scheduled : ∀ t, (R.thread t).state ≠ .dead → (R.thread t).state ≠ .ready → R.Scheduled t
  waiters : ∀ t, t ≠ 0 → ∃ l, R.Waiters t l
  bound : ∀ t, (R.thread t).boundNtfn = 0
  ntfn : ∀ o, R.ntfnWaiting o = 0
  line : ∀ o, R.lineWaiter o = 0

/-! ## Queues -/

variable {l' : List Nat}

theorem Queue.unique (h : R.Queue o l) (h' : R.Queue o l') : l = l' :=
  h.chain.unique h'.chain

theorem Queue.eq_nil_iff (h : R.Queue o l) : l = [] ↔ (R.ep o).head = 0 := h.chain.eq_nil_iff

theorem Queue.congr (h : R.Queue o l) (hhead : (R'.ep o).head = (R.ep o).head)
    (htail : (R'.ep o).tail = (R.ep o).tail)
    (hnext : ∀ u ∈ l, (R'.thread u).next = (R.thread u).next)
    (hmem : ∀ u, (R'.thread u).queuedOn = o ↔ (R.thread u).queuedOn = o) : R'.Queue o l := by
  refine ⟨?_, htail.trans h.tail, fun u => (h.mem u).trans (hmem u).symm⟩
  rw [hhead]
  exact h.chain.congr hnext

theorem Sound.queuedOn_eq_zero (hR : R.Sound) (h : (R.thread t).state ≠ .blockedSend) :
    (R.thread t).queuedOn = 0 := by
  by_contra hq
  exact h (hR.caller t hq).1

theorem Sound.awaiting_eq_false (hR : R.Sound) (h1 : (R.thread t).state ≠ .blockedSend)
    (h2 : (R.thread t).state ≠ .dead) : (R.thread t).awaiting = false := by
  by_contra ha
  rw [Bool.not_eq_false] at ha
  rcases hR.awaiting t ha with h | h
  · exact h1 h
  · exact h2 h

/-! ## Lists of waiters -/

theorem Waiters.congr (h : R.Waiters t l) (hhead : (R'.thread t).vigil.head = (R.thread t).vigil.head)
    (hnext : ∀ u ∈ l, (R'.thread u).vigil.next = (R.thread u).vigil.next)
    (htarget : ∀ u ∈ l, (R'.thread u).vigil.target = (R.thread u).vigil.target)
    (hstate : ∀ u ∈ l, (R'.thread u).state = .blockedThreadWait) : R'.Waiters t l := by
  refine ⟨?_, fun u hu => ⟨hstate u hu, (htarget u hu).trans (h.mem u hu).2⟩⟩
  rw [hhead]
  exact h.chain.congr hnext

theorem Waiters.of_vigil (h : R.Waiters t l) (hv : ∀ u, (R'.thread u).vigil = (R.thread u).vigil)
    (hs : ∀ u, (R.thread u).state = .blockedThreadWait → (R'.thread u).state = .blockedThreadWait) :
    R'.Waiters t l :=
  h.congr (by rw [hv]) (fun u _ => by rw [hv]) (fun u _ => by rw [hv]) fun u hu => hs u (h.mem u hu).1

theorem unlisted_of_state (h : (R.thread t).state ≠ .blockedThreadWait) : R.Unlisted t :=
  fun _ _ _ hl hm => h (hl.mem t hm).1

theorem waiters_setThread (hw : ∀ u, u ≠ 0 → ∃ l, R.Waiters u l) (hun : R.Unlisted t)
    (hv : x.vigil.head = (R.thread t).vigil.head ∨ x.vigil.head = 0) (u : Nat) (h0 : u ≠ 0) :
    ∃ l, (R.setThread t x).Waiters u l := by
  have hat : ∀ v, v ≠ t → (R.setThread t x).thread v = R.thread v :=
    fun v hv => update_of_ne hv _ _
  have hself : (R.setThread t x).thread t = x := update_self _ _ _
  obtain ⟨l, hl⟩ := hw u h0
  have hne : ∀ v ∈ l, v ≠ t := fun v hm e => hun u l h0 hl (e ▸ hm)
  have hlist : ((R.setThread t x).thread u).vigil.head = (R.thread u).vigil.head →
      (R.setThread t x).Waiters u l := fun hhead =>
    hl.congr hhead (fun v hm => by rw [hat v (hne v hm)]) (fun v hm => by rw [hat v (hne v hm)])
      fun v hm => by rw [hat v (hne v hm)]; exact (hl.mem v hm).1
  by_cases hu : u = t
  · subst hu
    rcases hv with hsame | hzero
    · exact ⟨l, hlist (by rw [hself, hsame])⟩
    · refine ⟨[], ?_, fun v hm => absurd hm not_mem_nil⟩
      rw [hself]
      exact hzero
  · exact ⟨l, hlist (by rw [hat u hu])⟩

/-! ## One thread changes -/

theorem Sound.setThread (hR : R.Sound) (hold : (R.thread t).queuedOn = 0) (hnew : x.queuedOn = 0)
    (hrecv : ∀ o, o ≠ 0 → (R.ep o).receiver ≠ 0 → (R.ep o).receiver = t → x.state = .blockedReceive ∧ x.recvEp = o)
    (haw : x.awaiting = true → x.state = .blockedSend ∨ x.state = .dead)
    (hsched : x.state ≠ .dead → x.state ≠ .ready → R.Scheduled t)
    (hun : R.Unlisted t) (hv : x.vigil.head = (R.thread t).vigil.head ∨ x.vigil.head = 0)
    (hb : x.boundNtfn = 0) : (R.setThread t x).Sound := by
  -- `f` of the new thread function: the new block at `t`, the old one elsewhere
  have hat : ∀ u, u ≠ t → (R.setThread t x).thread u = R.thread u :=
    fun u hu => update_of_ne hu _ _
  have hself : (R.setThread t x).thread t = x := update_self _ _ _
  have hqueued : ∀ u o, o ≠ 0 → (((R.setThread t x).thread u).queuedOn = o ↔ (R.thread u).queuedOn = o) := by
    intro u o ho
    by_cases hu : u = t
    · subst hu
      rw [hself, hnew, hold]
    · rw [hat u hu]
  refine ⟨fun o ho => ?_, fun u hu => ?_, fun o ho hr => ?_, fun u hu => ?_, fun u h1 h2 => ?_,
    waiters_setThread hR.waiters hun hv, fun u => ?_, hR.ntfn, hR.line⟩
  · obtain ⟨l, hl⟩ := hR.queue o ho
    refine ⟨l, hl.congr rfl rfl (fun u hu => ?_) fun u => hqueued u o ho⟩
    have hut : u ≠ t := by
      intro e
      rw [e, hl.mem, hold] at hu
      exact ho hu.symm
    rw [hat u hut]
  · by_cases hut : u = t
    · subst hut
      rw [hself] at hu
      exact absurd hnew hu
    · rw [hat u hut] at hu ⊢
      exact hR.caller u hu
  · by_cases hrt : (R.ep o).receiver = t
    · have := hrecv o ho hr hrt
      show ((R.setThread t x).thread (R.ep o).receiver).state = _ ∧
        ((R.setThread t x).thread (R.ep o).receiver).recvEp = o
      rw [hrt, hself]
      exact this
    · show ((R.setThread t x).thread (R.ep o).receiver).state = _ ∧
        ((R.setThread t x).thread (R.ep o).receiver).recvEp = o
      rw [hat _ hrt]
      exact hR.receiver o ho hr
  · by_cases hut : u = t
    · subst hut
      rw [hself] at hu ⊢
      exact haw hu
    · rw [hat u hut] at hu ⊢
      exact hR.awaiting u hu
  · by_cases hut : u = t
    · subst hut
      rw [hself] at h1 h2
      exact hsched h1 h2
    · rw [hat u hut] at h1 h2
      exact hR.scheduled u h1 h2
  · by_cases hut : u = t
    · subst hut; rw [hself]; exact hb
    · rw [hat u hut]; exact hR.bound u

theorem waiters_setEp {e : EndpointIpc} (hR : R.Sound) (u : Nat) (h0 : u ≠ 0) :
    ∃ l, (R.setEp o e).Waiters u l := by
  obtain ⟨l, hl⟩ := hR.waiters u h0
  exact ⟨l, hl.of_vigil (fun _ => rfl) fun _ h => h⟩

theorem Sound.setReceiver (hR : R.Sound) (r : Nat)
    (hr : r ≠ 0 → (R.thread r).state = .blockedReceive ∧ (R.thread r).recvEp = o) :
    (R.setEp o { R.ep o with receiver := r }).Sound := by
  have hat : ∀ u, u ≠ o → (R.setEp o { R.ep o with receiver := r }).ep u = R.ep u :=
    fun u hu => update_of_ne hu _ _
  have hself : (R.setEp o { R.ep o with receiver := r }).ep o = { R.ep o with receiver := r } :=
    update_self _ _ _
  refine ⟨fun u hu => ?_, hR.caller, fun u hu hru => ?_, hR.awaiting, hR.scheduled,
    waiters_setEp hR, hR.bound, hR.ntfn, hR.line⟩
  · obtain ⟨l, hl⟩ := hR.queue u hu
    refine ⟨l, hl.congr ?_ ?_ (fun _ _ => rfl) fun _ => Iff.rfl⟩
    · by_cases huo : u = o
      · subst huo; rw [hself]
      · rw [hat u huo]
    · by_cases huo : u = o
      · subst huo; rw [hself]
      · rw [hat u huo]
  · by_cases huo : u = o
    · subst huo
      rw [hself] at hru ⊢
      exact hr hru
    · rw [hat u huo] at hru ⊢
      exact hR.receiver u hu hru

theorem Sound.setFailed (hR : R.Sound) (b : Bool) : (R.setEp o { R.ep o with failed := b }).Sound := by
  have hep : ∀ u, ((R.setEp o { R.ep o with failed := b }).ep u).head = (R.ep u).head ∧
      ((R.setEp o { R.ep o with failed := b }).ep u).tail = (R.ep u).tail ∧
      ((R.setEp o { R.ep o with failed := b }).ep u).receiver = (R.ep u).receiver := by
    intro u
    by_cases hu : u = o
    · subst hu; simp
    · simp [hu]
  refine ⟨fun u hu => ?_, hR.caller, fun u hu hru => ?_, hR.awaiting, hR.scheduled,
    waiters_setEp hR, hR.bound, hR.ntfn, hR.line⟩
  · obtain ⟨l, hl⟩ := hR.queue u hu
    exact ⟨l, hl.congr (hep u).1 (hep u).2.1 (fun _ _ => rfl) fun _ => Iff.rfl⟩
  · rw [(hep u).2.2] at hru ⊢
    exact hR.receiver u hu hru

/-! ## Leaving a queue -/

variable {u p : Nat} {xs ys : List Nat}

/-- `t` leaves the queue of `o`, in which `prev` is its predecessor (null at the head). -/
def unlinkAt (R : Roster) (o t prev : Nat) : Roster :=
  let next := (R.thread t).next
  let R₁ := if prev = 0 then R.setEp o { R.ep o with head := next }
    else R.setThread prev { R.thread prev with next := next }
  let R₂ := if (R₁.ep o).tail = t then R₁.setEp o { R₁.ep o with tail := prev } else R₁
  R₂.setThread t { R₂.thread t with next := 0, queuedOn := 0 }

/-- What changes when `t` leaves the queue of `o`. -/
structure Unlinked (R R' : Roster) (o t : Nat) : Prop where
  thread : ∀ u, R'.thread u = { R.thread u with
    next := (R'.thread u).next, queuedOn := if u = t then 0 else (R.thread u).queuedOn }
  receiver : ∀ u, (R'.ep u).receiver = (R.ep u).receiver
  failed : ∀ u, (R'.ep u).failed = (R.ep u).failed
  ep : ∀ u, u ≠ o → R'.ep u = R.ep u
  used : R'.threadUsed = R.threadUsed
  ntfn : R'.ntfnWaiting = R.ntfnWaiting
  line : R'.lineWaiter = R.lineWaiter

theorem unlinked_unlinkAt (R : Roster) (o t prev : Nat) (hprev : prev ≠ t) :
    Unlinked R (R.unlinkAt o t prev) o t := by
  unfold unlinkAt
  dsimp only
  refine ⟨fun u => ?_, fun u => ?_, fun u => ?_, fun u hu => ?_, ?_, ?_, ?_⟩
  · by_cases hut : u = t
    · subst hut
      split <;> split <;> simp [Ne.symm hprev]
    · by_cases hup : u = prev
      · subst hup
        split <;> split <;> simp [hut]
      · split <;> split <;> simp [hut, hup]
  · by_cases huo : u = o
    · subst huo; split <;> split <;> simp
    · split <;> split <;> simp [huo]
  · by_cases huo : u = o
    · subst huo; split <;> split <;> simp
    · split <;> split <;> simp [huo]
  · split <;> split <;> simp [hu]
  · split <;> split <;> rfl
  · split <;> split <;> rfl
  · split <;> split <;> rfl

theorem unlinkAt_head (R : Roster) (o t prev : Nat) :
    ((R.unlinkAt o t prev).ep o).head = if prev = 0 then (R.thread t).next else (R.ep o).head := by
  unfold unlinkAt
  dsimp only
  split <;> split <;> simp

theorem unlinkAt_tail (R : Roster) (o t prev : Nat) :
    ((R.unlinkAt o t prev).ep o).tail = if (R.ep o).tail = t then prev else (R.ep o).tail := by
  unfold unlinkAt
  by_cases hp : prev = 0
  · simp only [if_pos hp]
    split <;> rename_i h <;> simp at h <;> simp [h]
  · simp only [if_neg hp]
    split <;> rename_i h <;> simp at h <;> simp [h]

theorem unlinkAt_next (R : Roster) (o t prev : Nat) (hu : u ≠ t) : ((R.unlinkAt o t prev).thread u).next =
      if prev ≠ 0 ∧ u = prev then (R.thread t).next else (R.thread u).next := by
  unfold unlinkAt
  by_cases hp : prev = 0
  · simp only [if_pos hp]
    split <;> simp [hu, hp]
  · simp only [if_neg hp]
    by_cases hup : u = prev
    · subst hup
      split <;> simp [hu, hp]
    · split <;> simp [hu, hp, hup]

theorem Queue.prev_ne (h : R.Queue o (xs ++ t :: ys)) : xs.getLastD 0 ≠ t := by
  intro e
  rcases eq_nil_or_concat xs with rfl | ⟨zs, b, rfl⟩
  · exact h.chain.ne_null (by simp) e.symm
  · have hb : b = t := by simpa using e
    have := h.chain.nodup
    rw [nodup_append] at this
    exact this.2.2 b (by simp) t mem_cons_self hb

/-- **Unlinking removes one member and keeps the order of the others.** -/
theorem Queue.unlinkAt (h : R.Queue o (xs ++ t :: ys)) (ho : o ≠ 0) :
    (R.unlinkAt o t (xs.getLastD 0)).Queue o (xs ++ ys) := by
  have hnd := h.chain.nodup
  have htx : t ∉ xs := fun hm => (nodup_append.mp hnd).2.2 t hm t mem_cons_self rfl
  have hty : t ∉ ys := (nodup_cons.mp (nodup_append.mp hnd).2.1).1
  have hprev := h.prev_ne
  have hun := unlinked_unlinkAt R o t (xs.getLastD 0) hprev
  refine ⟨?_, ?_, fun u => ?_⟩
  · rw [unlinkAt_head]
    rcases eq_nil_or_concat xs with rfl | ⟨zs, b, rfl⟩
    · rw [if_pos (show [].getLastD 0 = 0 from rfl)]
      exact IsChain.pop h.chain fun u hu => by rw [unlinkAt_next R o t _ hu, if_neg (by simp)]
    · have hb0 : b ≠ 0 := h.chain.ne_null (by simp)
      have hlast : (zs.concat b).getLastD 0 = b := by simp
      have hbt : b ≠ t := hlast ▸ hprev
      rw [hlast, if_neg hb0]
      have hchain : IsChain 0 (fun u => (R.thread u).next) (R.ep o).head (zs ++ b :: t :: ys) := by
        simpa using h.chain
      have hout : b ∉ zs ++ ys := by
        have := hchain.nodup
        rw [nodup_append] at this
        intro hm
        rcases mem_append.mp hm with hm | hm
        · exact this.2.2 b hm b mem_cons_self rfl
        · exact (nodup_cons.mp this.2.1).1 (mem_cons_of_mem _ hm)
      have := hchain.unlink (fun u => ((R.unlinkAt o t b).thread u).next)
        (by rw [unlinkAt_next R o t b hbt, if_pos ⟨hb0, rfl⟩])
        fun u hu => by
          have hut : u ≠ t := by
            rintro rfl
            rcases mem_append.mp hu with hm | hm
            · exact htx (by simp [hm])
            · exact hty hm
          rw [unlinkAt_next R o t b hut, if_neg]
          rintro ⟨-, rfl⟩
          exact hout hu
      simpa using this
  · rw [unlinkAt_tail, h.tail]
    rcases eq_nil_or_concat ys with rfl | ⟨zs, b, rfl⟩
    · simp
    · have hbt : b ≠ t := by
        rintro rfl
        exact hty (by simp)
      have h1 : (xs ++ t :: zs.concat b).getLastD 0 = b := by
        rw [concat_eq_append, ← cons_append, ← append_assoc]
        exact getLastD_concat
      have h2 : (xs ++ zs.concat b).getLastD 0 = b := by
        rw [concat_eq_append, ← append_assoc]
        exact getLastD_concat
      rw [h1, h2, if_neg hbt]
  · rw [hun.thread u]
    by_cases hut : u = t
    · subst hut
      rw [if_pos rfl]
      exact iff_of_false (by simp [htx, hty]) (Ne.symm ho)
    · rw [if_neg hut, ← h.mem u]
      simp [hut]

theorem Queue.unlinkAt_other {l : List Nat} (h : R.Queue o (xs ++ t :: ys))
    (hl : R.Queue p l) (hp : p ≠ 0) (hpo : p ≠ o) : (R.unlinkAt o t (xs.getLastD 0)).Queue p l := by
  have ht : (R.thread t).queuedOn = o := (h.mem t).mp (by simp)
  -- the predecessor is queued on `o`, or null
  have hprev : ∀ u, u ∈ l → u ≠ t ∧ ¬ (xs.getLastD 0 ≠ 0 ∧ u = xs.getLastD 0) := by
    intro u hu
    have huq := (hl.mem u).mp hu
    refine ⟨fun e => hpo (huq.symm.trans (e ▸ ht)), ?_⟩
    rintro ⟨h0, rfl⟩
    rcases eq_nil_or_concat xs with rfl | ⟨zs, b, rfl⟩
    · exact h0 rfl
    · have hb := (h.mem b).mp (by simp)
      have hlast : (zs.concat b).getLastD 0 = b := by simp
      rw [hlast] at huq
      exact hpo (huq.symm.trans hb)
  have hun := unlinked_unlinkAt R o t (xs.getLastD 0) h.prev_ne
  refine hl.congr (by rw [hun.ep p hpo]) (by rw [hun.ep p hpo]) (fun u hu => ?_) fun u => ?_
  · rw [unlinkAt_next R o t _ (hprev u hu).1, if_neg (hprev u hu).2]
  · rw [hun.thread u]
    by_cases hut : u = t
    · subst hut
      rw [if_pos rfl, ht]
      exact iff_of_false (Ne.symm hp) (Ne.symm hpo)
    · rw [if_neg hut]

theorem Sound.unlinkAt (hR : R.Sound) (ho : o ≠ 0)
    (h : R.Queue o (xs ++ t :: ys)) : (R.unlinkAt o t (xs.getLastD 0)).Sound := by
  have hun := unlinked_unlinkAt R o t (xs.getLastD 0) h.prev_ne
  refine ⟨fun p hp => ?_, fun u hu => ?_, fun p hp hr => ?_, fun u hu => ?_, fun u h1 h2 => ?_,
    fun u h0 => ?_, fun u => ?_, ?_, ?_⟩
  · by_cases hpo : p = o
    · subst hpo
      exact ⟨_, h.unlinkAt ho⟩
    · obtain ⟨l, hl⟩ := hR.queue p hp
      exact ⟨l, h.unlinkAt_other hl hp hpo⟩
  · rw [hun.thread u] at hu ⊢
    refine hR.caller u fun h0 => hu ?_
    rw [h0, ite_self]
  · rw [hun.receiver] at hr ⊢
    rw [hun.thread]
    exact hR.receiver p hp hr
  · rw [hun.thread u] at hu ⊢
    exact hR.awaiting u hu
  · rw [hun.thread u] at h1 h2
    have := hR.scheduled u h1 h2
    unfold Scheduled at this ⊢
    rw [hun.used]
    exact this
  · obtain ⟨l, hl⟩ := hR.waiters u h0
    exact ⟨l, hl.of_vigil (fun v => by rw [hun.thread v]) fun v hv => by rw [hun.thread v]; exact hv⟩
  · rw [hun.thread u]; exact hR.bound u
  · rw [hun.ntfn]; exact hR.ntfn
  · rw [hun.line]; exact hR.line

/-! ## Joining a queue -/

/-- `t` joins the queue of `o` at the tail, with the block `x` of a queued thread. -/
def enqueue (R : Roster) (o t : Nat) (x : ThreadIpc) : Roster :=
  let tail := (R.ep o).tail
  let R₁ := R.setThread t x
  let R₂ := if tail = 0 then R₁.setEp o { R₁.ep o with head := t }
    else R₁.setThread tail { R₁.thread tail with next := t }
  R₂.setEp o { R₂.ep o with tail := t }

theorem enqueue_thread_self (R : Roster) (o t : Nat) (x : ThreadIpc) (h : (R.ep o).tail ≠ t) :
    (R.enqueue o t x).thread t = x := by
  unfold enqueue
  dsimp only
  split <;> simp [Ne.symm h]

theorem enqueue_thread (R : Roster) (o t : Nat) (x : ThreadIpc) (hu : u ≠ t) : (R.enqueue o t x).thread u =
      if (R.ep o).tail ≠ 0 ∧ u = (R.ep o).tail then { R.thread u with next := t }
      else R.thread u := by
  unfold enqueue
  by_cases h0 : (R.ep o).tail = 0
  · simp [h0, hu]
  · by_cases hut : u = (R.ep o).tail
    · subst hut
      simp [h0, hu]
    · simp [h0, hu, hut]

theorem enqueue_ep (R : Roster) (o t : Nat) (x : ThreadIpc) :
    (R.enqueue o t x).ep o = { R.ep o with
      head := if (R.ep o).tail = 0 then t else (R.ep o).head, tail := t } := by
  unfold enqueue
  dsimp only
  split <;> simp

theorem enqueue_ep_ne (R : Roster) (o t : Nat) (x : ThreadIpc) (hp : p ≠ o) : (R.enqueue o t x).ep p = R.ep p := by
  unfold enqueue
  dsimp only
  split <;> simp [hp]

theorem Queue.tail_eq_zero_iff (h : R.Queue o l) : (R.ep o).tail = 0 ↔ l = [] := by
  rw [h.tail]
  rcases eq_nil_or_concat l with rfl | ⟨zs, b, rfl⟩
  · simp
  · have hb : b ≠ 0 := h.chain.ne_null (by simp)
    simp [hb]

theorem Queue.tail_ne (h : R.Queue o l) (ht : t ≠ 0) (htl : t ∉ l) : (R.ep o).tail ≠ t := by
  rw [h.tail]
  rcases eq_nil_or_concat l with rfl | ⟨zs, b, rfl⟩
  · exact Ne.symm ht
  · rintro rfl
    exact htl (by simp)

/-- **Joining appends at the end.** -/
theorem Queue.enqueue (h : R.Queue o l) (ht : t ≠ 0) (hq : (R.thread t).queuedOn ≠ o)
    (hx : x.queuedOn = o) (hnext : x.next = 0) : (R.enqueue o t x).Queue o (l ++ [t]) := by
  have htl : t ∉ l := fun hm => hq ((h.mem t).mp hm)
  have htail := h.tail_ne ht htl
  have hself := enqueue_thread_self R o t x htail
  refine ⟨?_, ?_, fun u => ?_⟩
  · rw [enqueue_ep]
    rcases eq_nil_or_concat l with rfl | ⟨zs, b, rfl⟩
    · rw [if_pos (h.tail_eq_zero_iff.mpr rfl)]
      refine ⟨rfl, ht, ?_⟩
      show ((R.enqueue o t x).thread t).next = 0
      rw [hself, hnext]
    · have hb : (R.ep o).tail = b := by rw [h.tail]; simp
      have hb0 : b ≠ 0 := h.chain.ne_null (by simp)
      have hbt : b ≠ t := hb ▸ htail
      have hch : IsChain 0 (fun u => (R.thread u).next) (R.ep o).head (zs ++ [b]) := by
        simpa using h.chain
      rw [hb, if_neg hb0]
      have := hch.append (fun u => ((R.enqueue o t x).thread u).next) (x := t) ht
        (by rw [enqueue_thread R o t x hbt, if_pos ⟨hb.symm ▸ hb0, hb.symm⟩])
        (by rw [hself, hnext])
        fun u hu => by
          have hut : u ≠ t := by
            rintro rfl
            exact htl (by simp [hu])
          have hub : u ≠ b := by
            rintro rfl
            have := hch.nodup
            rw [nodup_append] at this
            exact this.2.2 u hu u (by simp) rfl
          rw [enqueue_thread R o t x hut, if_neg (fun hh => hub (hh.2.trans hb))]
      simpa using this
  · rw [enqueue_ep]
    exact getLastD_concat.symm
  · by_cases hut : u = t
    · subst hut
      rw [hself, hx]
      simp
    · have hq' : ((R.enqueue o t x).thread u).queuedOn = (R.thread u).queuedOn := by
        rw [enqueue_thread R o t x hut]
        split <;> rfl
      rw [hq', ← h.mem u]
      simp [hut]

theorem Queue.enqueue_other (h : R.Queue o l) (hl : R.Queue p l')
    (ho : o ≠ 0) (hp : p ≠ 0) (hpo : p ≠ o) (ht : t ≠ 0) (hq : (R.thread t).queuedOn = 0)
    (hx : x.queuedOn = o) : (R.enqueue o t x).Queue p l' := by
  have htl : t ∉ l := fun hm => ho (((h.mem t).mp hm).symm.trans hq)
  have htail := h.tail_ne ht htl
  refine hl.congr (by rw [enqueue_ep_ne R o t x hpo]) (by rw [enqueue_ep_ne R o t x hpo])
    (fun u hu => ?_) fun u => ?_
  · have huq := (hl.mem u).mp hu
    have hut : u ≠ t := by
      rintro rfl
      exact hp (huq.symm.trans hq)
    rw [enqueue_thread R o t x hut, if_neg]
    rintro ⟨h0, rfl⟩
    have hne : l ≠ [] := fun e => h0 (h.tail_eq_zero_iff.mpr e)
    have hmem : (R.ep o).tail ∈ l := by
      rw [h.tail]
      rcases eq_nil_or_concat l with rfl | ⟨zs, b, rfl⟩
      · exact absurd rfl hne
      · simp
    exact hpo (huq.symm.trans ((h.mem _).mp hmem))
  · by_cases hut : u = t
    · subst hut
      rw [enqueue_thread_self R o u x htail, hx, hq]
      exact iff_of_false (Ne.symm hpo) (Ne.symm hp)
    · rw [enqueue_thread R o t x hut]
      split <;> rfl

theorem Sound.enqueue (hR : R.Sound) (ho : o ≠ 0) (ht : t ≠ 0) (hq : (R.thread t).queuedOn = 0)
    (hrecv : ∀ p, p ≠ 0 → (R.ep p).receiver ≠ t) (hsched : R.Scheduled t)
    (hx : x.queuedOn = o) (hnext : x.next = 0) (hstate : x.state = .blockedSend)
    (haw : x.awaiting = false) (hold : (R.thread t).state ≠ .blockedThreadWait)
    (hv : x.vigil = (R.thread t).vigil) (hb : x.boundNtfn = 0) : (R.enqueue o t x).Sound := by
  obtain ⟨l, h⟩ := hR.queue o ho
  have hqo : (R.thread t).queuedOn ≠ o := fun e => ho (e.symm.trans hq)
  have htail := h.tail_ne ht fun hm => hqo ((h.mem t).mp hm)
  have hself := enqueue_thread_self R o t x htail
  -- everything but the links of the other threads is as before
  have hother : ∀ u, u ≠ t → (R.enqueue o t x).thread u =
      { R.thread u with next := ((R.enqueue o t x).thread u).next } := by
    intro u hu
    rw [enqueue_thread R o t x hu]
    split <;> rfl
  have hep : ∀ p, ((R.enqueue o t x).ep p).receiver = (R.ep p).receiver := by
    intro p
    by_cases hpo : p = o
    · subst hpo; rw [enqueue_ep]
    · rw [enqueue_ep_ne R o t x hpo]
  have hused : (R.enqueue o t x).threadUsed = R.threadUsed := by
    unfold Roster.enqueue
    dsimp only
    split <;> rfl
  have hntfn : (R.enqueue o t x).ntfnWaiting = R.ntfnWaiting := by
    unfold Roster.enqueue
    dsimp only
    split <;> rfl
  have hline : (R.enqueue o t x).lineWaiter = R.lineWaiter := by
    unfold Roster.enqueue
    dsimp only
    split <;> rfl
  refine ⟨fun p hp => ?_, fun u hu => ?_, fun p hp hr => ?_, fun u hu => ?_, fun u h1 h2 => ?_,
    fun u h0 => ?_, fun u => ?_, ?_, ?_⟩
  · by_cases hpo : p = o
    · subst hpo
      exact ⟨_, h.enqueue ht hqo hx hnext⟩
    · obtain ⟨l', hl'⟩ := hR.queue p hp
      exact ⟨l', h.enqueue_other hl' ho hp hpo ht hq hx⟩
  · by_cases hut : u = t
    · subst hut
      rw [hself]
      exact ⟨hstate, haw⟩
    · rw [hother u hut] at hu ⊢
      exact hR.caller u hu
  · rw [hep] at hr ⊢
    have hrt : (R.ep p).receiver ≠ t := hrecv p hp
    rw [hother _ hrt]
    exact hR.receiver p hp hr
  · by_cases hut : u = t
    · subst hut
      rw [hself] at hu
      rw [haw] at hu
      cases hu
    · rw [hother u hut] at hu ⊢
      exact hR.awaiting u hu
  · unfold Scheduled
    rw [hused]
    by_cases hut : u = t
    · subst hut
      exact hsched
    · rw [hother u hut] at h1 h2
      exact hR.scheduled u h1 h2
  · obtain ⟨l, hl⟩ := hR.waiters u h0
    refine ⟨l, hl.of_vigil (fun v => ?_) fun v hs => ?_⟩
    · by_cases hvt : v = t
      · subst hvt; rw [hself, hv]
      · rw [hother v hvt]
    · have hvt : v ≠ t := fun e => hold (e ▸ hs)
      rw [hother v hvt]
      exact hs
  · by_cases hut : u = t
    · subst hut; rw [hself]; exact hb
    · rw [hother u hut]; exact hR.bound u
  · rw [hntfn]; exact hR.ntfn
  · rw [hline]; exact hR.line

end Roster

end Aegir.Kernel
