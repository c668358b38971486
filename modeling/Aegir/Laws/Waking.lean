/-
  What the code that wakes and detaches threads may do to the roster.

  Failing an endpoint, closing a cap and tearing a thread down WAKE threads and take them off queues;
  they never put a thread to sleep, and never join or reorder a queue.  `Calm A R R'` says so, once,
  for all of them: only threads that were queued or registered wake, or threads of `A`, the targets
  of the reply caps that were closed; and a queue either stays as it is or is emptied because its
  endpoint failed.
-/
import Aegir.Laws.Queues

namespace Aegir.Kernel

open Aegir.Lib Function

/-- A woken thread. -/
def ThreadIpc.woken (x : ThreadIpc) : ThreadIpc := { x with state := .ready, awaiting := false }

namespace Roster

variable {R R' R'' : Roster} {W : Nat → Prop} {o t : Nat} {l : List Nat}

/-- The thread is in no queue and registered nowhere. -/
structure Detached (R : Roster) (t : Nat) : Prop where
  queuedOn : (R.thread t).queuedOn = 0
  receiver : ∀ o, o ≠ 0 → (R.ep o).receiver ≠ 0 → (R.ep o).receiver ≠ t

/-- Nobody is queued on the endpoint or registered with it. -/
def Idle (R : Roster) (o : Nat) : Prop := (R.ep o).head = 0 ∧ (R.ep o).receiver = 0

/-- Threads of `W` may wake and leave their queues; endpoints may fail. -/
structure Settles (W : Nat → Prop) (R R' : Roster) : Prop where
  sound : R'.Sound
  awaiting : ∀ t, (R'.thread t).awaiting = (R.thread t).awaiting ∨
    (W t ∧ (R'.thread t).awaiting = false)
  generation : ∀ t, (R'.thread t).generation = (R.thread t).generation
  state : ∀ t, (R'.thread t).state = (R.thread t).state ∨
    (W t ∧ State.isBlocked (R.thread t).state = true ∧ (R'.thread t).state = .ready)
  queuedOn : ∀ t, (R'.thread t).queuedOn = (R.thread t).queuedOn ∨ (R'.thread t).queuedOn = 0
  receiver : ∀ o, (R'.ep o).receiver = (R.ep o).receiver ∨ (R'.ep o).receiver = 0
  queue : ∀ o, o ≠ 0 → (∀ l, R.Queue o l → R'.Queue o l) ∨
    ((R'.ep o).head = 0 ∧ (R'.ep o).failed = true)
  failed : ∀ o, (R.ep o).failed = true → (R'.ep o).failed = true
  used : R'.threadUsed = R.threadUsed

/-- **Only threads that waited or are in `A` wake, and an endpoint that fails is idle.** -/
structure Calm (A : Nat → Prop) (R R' : Roster) : Prop
    extends Settles (fun t => ¬ R.Detached t ∨ A t) R R' where
  idle : ∀ o, o ≠ 0 → (R'.ep o).failed = true → (R.ep o).failed = true ∨ R'.Idle o

namespace Settles

theorem refl (hR : R.Sound) : Settles W R R :=
  ⟨hR, fun _ => .inl rfl, fun _ => rfl, fun _ => .inl rfl, fun _ => .inl rfl, fun _ => .inl rfl,
    fun _ _ => .inl fun _ h => h, fun _ h => h, rfl⟩

section

variable (h : Settles W R R')

include h

theorem trans (h' : Settles W R' R'') : Settles W R R'' := by
  refine ⟨h'.sound, fun t => ?_, fun t => (h'.generation t).trans (h.generation t), fun t => ?_,
    fun t => ?_, fun o => ?_, fun o ho => ?_, fun o hf => h'.failed o (h.failed o hf),
    h'.used.trans h.used⟩
  · rcases h'.awaiting t with e' | ⟨hw, ha⟩
    · rw [e']
      exact h.awaiting t
    · exact .inr ⟨hw, ha⟩
  · rcases h'.state t with e' | ⟨hw, hb, hr⟩
    · rw [e']
      exact h.state t
    · rcases h.state t with e | ⟨-, -, hr'⟩
      · exact .inr ⟨hw, e ▸ hb, hr⟩
      · rw [hr'] at hb
        cases hb
  · rcases h'.queuedOn t with e | e
    · rw [e]
      exact h.queuedOn t
    · exact .inr e
  · rcases h'.receiver o with e | e
    · rw [e]
      exact h.receiver o
    · exact .inr e
  · rcases h'.queue o ho with keep | gone
    · rcases h.queue o ho with keep' | ⟨h0, hf⟩
      · exact .inl fun l hl => keep l (keep' l hl)
      · -- an emptied queue stays empty
        obtain ⟨l, hl⟩ := h.sound.queue o ho
        exact .inr ⟨(keep l hl).eq_nil_iff.mp (hl.eq_nil_iff.mpr h0), h'.failed o hf⟩
    · exact .inr gone

theorem mono {W' : Nat → Prop} (hW : ∀ t, W t → W' t) : Settles W' R R' :=
  { h with
    awaiting := fun t => (h.awaiting t).imp_right fun ⟨hw, hrest⟩ => ⟨hW t hw, hrest⟩
    state := fun t => (h.state t).imp_right fun ⟨hw, hrest⟩ => ⟨hW t hw, hrest⟩ }

theorem detached (hd : R.Detached t) : R'.Detached t := by
  refine ⟨?_, fun o ho hr => ?_⟩
  · rcases h.queuedOn t with e | e
    · rw [e]; exact hd.queuedOn
    · exact e
  · rcases h.receiver o with e | e
    · rw [e] at hr ⊢
      exact hd.receiver o ho hr
    · exact absurd e hr

theorem idle_mono (ho : o ≠ 0) (hi : R.Idle o) (hR : R.Sound) : R'.Idle o := by
  refine ⟨?_, ?_⟩
  · rcases h.queue o ho with keep | gone
    · obtain ⟨l, hl⟩ := hR.queue o ho
      exact (keep l hl).eq_nil_iff.mp (hl.eq_nil_iff.mpr hi.1)
    · exact gone.1
  · rcases h.receiver o with e | e
    · exact e.trans hi.2
    · exact e

theorem state_of_not (hw : ¬ W t) : (R'.thread t).state = (R.thread t).state :=
  (h.state t).resolve_right fun hh => hw hh.1

theorem not_waiting (ht : (R.thread t).state ≠ .blockedThreadWait) : (R'.thread t).state ≠ .blockedThreadWait := by
  intro hs
  rcases h.state t with e | ⟨-, -, e⟩
  · exact ht (e.symm.trans hs)
  · cases e.symm.trans hs

theorem dead_iff (t : Nat) : (R'.thread t).state = .dead ↔ (R.thread t).state = .dead := by
  rcases h.state t with e | ⟨-, hb, hr⟩
  · rw [e]
  · rw [hr]
    refine iff_of_false (by simp) fun hd => ?_
    rw [hd] at hb
    cases hb

end

end Settles

theorem Sound.detached_of_state (hR : R.Sound) (h1 : (R.thread t).state ≠ .blockedSend)
    (h2 : (R.thread t).state ≠ .blockedReceive) : R.Detached t := by
  refine ⟨hR.queuedOn_eq_zero h1, fun o ho hr e => h2 ?_⟩
  rw [← e]
  exact (hR.receiver o ho hr).1

theorem Sound.detached_of_awaiting (hR : R.Sound) (h : (R.thread t).awaiting = true) :
    R.Detached t := by
  refine ⟨?_, fun o ho hr e => ?_⟩
  · by_contra hq
    have := (hR.caller t hq).2
    rw [h] at this
    cases this
  · have hs := (hR.receiver o ho hr).1
    rw [e] at hs
    rcases hR.awaiting t h with h' | h' <;> rw [hs] at h' <;> cases h'

namespace Calm

variable {A : Nat → Prop}

theorem refl (hR : R.Sound) : Calm A R R := ⟨.refl hR, fun _ _ hf => .inl hf⟩

theorem trans (h : Calm A R R') (h' : Calm A R' R'') : Calm A R R'' := by
  have hW : ∀ t, ¬ R'.Detached t ∨ A t → ¬ R.Detached t ∨ A t :=
    fun t ht => ht.imp_left fun hn hd => hn (h.detached hd)
  refine ⟨h.toSettles.trans (h'.toSettles.mono hW), fun o ho hf => ?_⟩
  rcases h'.idle o ho hf with hf' | hi
  · exact (h.idle o ho hf').imp_right fun hi => h'.idle_mono ho hi h.sound
  · exact .inr hi

theorem mono {A' : Nat → Prop} (h : Calm A R R') (hA : ∀ t, A t → A' t) : Calm A' R R' :=
  ⟨h.toSettles.mono fun t => Or.imp_right (hA t), h.idle⟩

theorem state_of_detached (h : Calm A R R') (hd : R.Detached t) (hA : ¬ A t) :
    (R'.thread t).state = (R.thread t).state :=
  h.state_of_not fun hn => hn.elim (fun hn => hn hd) hA

theorem awaiting_eq (h : Calm A R R') (hR : R.Sound) (hA : ¬ A t) :
    (R'.thread t).awaiting = (R.thread t).awaiting := by
  rcases h.awaiting t with e | ⟨hw, ha⟩
  · exact e
  · rw [ha]
    by_contra hne
    have hw := hw.resolve_right hA
    exact hw (hR.detached_of_awaiting (by simpa using Ne.symm hne))

end Calm

/-- Failed endpoints are idle. -/
def FailedIdle (R : Roster) : Prop := ∀ o, o ≠ 0 → (R.ep o).failed = true → R.Idle o

theorem FailedIdle.calm {A : Nat → Prop} (hF : R.FailedIdle) (hR : R.Sound) (h : Calm A R R') :
    R'.FailedIdle := by
  intro o ho hf
  rcases h.idle o ho hf with hf' | hi
  · exact h.idle_mono ho (hF o ho hf') hR
  · exact hi

/-! ## The moves -/

theorem Sound.wake (hR : R.Sound) (hd : R.Detached t)
    (hs : (R.thread t).state ≠ .blockedThreadWait) : (R.setThread t (R.thread t).woken).Sound :=
  hR.setThread hd.queuedOn hd.queuedOn (fun o ho hr e => absurd e (hd.receiver o ho hr))
    (fun h => by cases h) (fun _ h => absurd rfl h) (unlisted_of_state hs) (.inl rfl) (hR.bound t)

theorem Settles.setThread {x : ThreadIpc} (hsound : (R.setThread t x).Sound)
    (haw : x.awaiting = (R.thread t).awaiting ∨ (W t ∧ x.awaiting = false)) (hgen : x.generation = (R.thread t).generation)
    (hstate : x.state = (R.thread t).state ∨ (W t ∧ State.isBlocked (R.thread t).state = true ∧ x.state = .ready))
    (hnext : x.next = (R.thread t).next) (hq : x.queuedOn = (R.thread t).queuedOn) :
    Settles W R (R.setThread t x) := by
  have hat : ∀ u, (R.setThread t x).thread u = if u = t then x else R.thread u := by
    intro u
    by_cases hu : u = t
    · subst hu; simp
    · simp [hu]
  have hqueued : ∀ u, ((R.setThread t x).thread u).queuedOn = (R.thread u).queuedOn := by
    intro u
    rw [hat]
    split
    · rename_i hu
      rw [hu]
      exact hq
    · rfl
  refine ⟨hsound, fun u => ?_, fun u => ?_, fun u => ?_, fun u => .inl (hqueued u), fun _ => .inl rfl,
    fun p hp => .inl fun l hl => hl.congr rfl rfl (fun u _ => ?_) fun u => by rw [hqueued u],
    fun _ h => h, rfl⟩
  · rw [hat]; split <;> simp_all
  · rw [hat]; split <;> simp_all
  · rw [hat]; split <;> simp_all
  · rw [hat]; split <;> simp_all

theorem Settles.setRecvEp (hR : R.Sound)
    (hd : ∀ o, o ≠ 0 → (R.ep o).receiver ≠ 0 → (R.ep o).receiver ≠ t) (p : Nat) :
    Settles W R (R.setThread t { R.thread t with recvEp := p }) := by
  have hat : ∀ u, (R.setThread t { R.thread t with recvEp := p }).thread u =
      { R.thread u with recvEp := if u = t then p else (R.thread u).recvEp } := by
    intro u
    by_cases hu : u = t
    · subst hu; simp
    · simp [hu]
  refine .setThread ?_ (.inl rfl) rfl (.inl rfl) rfl rfl
  refine ⟨fun q hq => ?_, fun u hu => ?_, fun q hq hr => ?_, fun u hu => ?_, fun u h1 h2 => ?_,
    fun u h0 => ?_, fun u => ?_, hR.ntfn, hR.line⟩
  · obtain ⟨l, hl⟩ := hR.queue q hq
    exact ⟨l, hl.congr rfl rfl (fun u _ => by rw [hat]) fun u => by rw [hat]⟩
  · rw [hat] at hu ⊢
    exact hR.caller u hu
  · rw [hat]
    have hne : (R.ep q).receiver ≠ t := hd q hq hr
    show _ ∧ (if (R.ep q).receiver = t then p else _) = q
    rw [if_neg hne]
    exact hR.receiver q hq hr
  · rw [hat] at hu ⊢
    exact hR.awaiting u hu
  · rw [hat] at h1 h2
    exact hR.scheduled u h1 h2
  · obtain ⟨l, hl⟩ := hR.waiters u h0
    exact ⟨l, hl.of_vigil (fun v => by rw [hat]) fun v hv => by rw [hat]; exact hv⟩
  · rw [hat]; exact hR.bound u

theorem Settles.setEp {e : EndpointIpc} (hsound : (R.setEp o e).Sound)
    (hhead : e.head = (R.ep o).head) (htail : e.tail = (R.ep o).tail)
    (hr : e.receiver = (R.ep o).receiver ∨ e.receiver = 0)
    (hf : (R.ep o).failed = true → e.failed = true) : Settles W R (R.setEp o e) := by
  have hat : ∀ u, (R.setEp o e).ep u = if u = o then e else R.ep u := by
    intro u
    by_cases hu : u = o
    · subst hu; simp
    · simp [hu]
  refine ⟨hsound, fun _ => .inl rfl, fun _ => rfl, fun _ => .inl rfl, fun _ => .inl rfl, fun u => ?_,
    fun u _ => .inl fun l hl => hl.congr ?_ ?_ (fun _ _ => rfl) fun _ => Iff.rfl, fun u hu => ?_, rfl⟩
  · rw [hat]
    split
    · rename_i huo
      rw [huo]
      exact hr
    · exact .inl rfl
  · rw [hat]; split <;> simp_all
  · rw [hat]; split <;> simp_all
  · rw [hat]; split <;> simp_all

theorem Settles.unregister (hR : R.Sound) (o : Nat) : Settles W R (R.setEp o { R.ep o with receiver := 0 }) :=
  .setEp (hR.setReceiver 0 fun h => absurd rfl h) rfl rfl (.inr rfl) id

/-- The registered receiver, if there is one, is forgotten and woken. -/
def releaseReceiver (R : Roster) (o : Nat) : Roster :=
  if (R.ep o).receiver = 0 then R
  else (R.setEp o { R.ep o with receiver := 0 }).setThread (R.ep o).receiver
    (R.thread (R.ep o).receiver).woken

theorem releaseReceiver_ep (R : Roster) (o : Nat) :
    (R.releaseReceiver o).ep = update R.ep o { R.ep o with receiver := 0 } := by
  unfold releaseReceiver
  split
  · rename_i h0
    have hself : { R.ep o with receiver := 0 } = R.ep o := by rw [← h0]
    rw [hself, update_eq_self]
  · rfl

theorem Sound.detached_unregister (hR : R.Sound) (ho : o ≠ 0) (hr : (R.ep o).receiver ≠ 0) :
    (R.setEp o { R.ep o with receiver := 0 }).Detached (R.ep o).receiver := by
  have hreg := hR.receiver o ho hr
  refine ⟨hR.queuedOn_eq_zero (by rw [hreg.1]; simp), fun p hp hrp e => ?_⟩
  by_cases hpo : p = o
  · subst hpo
    simp at hrp
  · simp only [setEp_ep, update_of_ne hpo] at hrp e
    have := (hR.receiver p hp hrp).2
    rw [e, hreg.2] at this
    exact hpo this.symm

theorem Settles.releaseReceiver (hR : R.Sound) (ho : o ≠ 0)
    (hW : (R.ep o).receiver ≠ 0 → W (R.ep o).receiver) : Settles W R (R.releaseReceiver o) := by
  unfold Roster.releaseReceiver
  split
  · exact .refl hR
  · rename_i hr
    have hreg := hR.receiver o ho hr
    have h1 : Settles W R (R.setEp o { R.ep o with receiver := 0 }) := .unregister hR o
    have hs : (R.thread (R.ep o).receiver).state ≠ .blockedThreadWait := by
      rw [hreg.1]
      simp
    refine h1.trans (.setThread (h1.sound.wake (hR.detached_unregister ho hr) hs) (.inr ⟨hW hr, rfl⟩) rfl
      (.inr ⟨hW hr, ?_, rfl⟩) rfl rfl)
    show State.isBlocked (R.thread (R.ep o).receiver).state = true
    rw [hreg.1]
    rfl

/-! ## Emptying a queue -/

/-- All members of `l`, the queue of `o`, leave it and wake. -/
def clearQueue (R : Roster) (o : Nat) (l : List Nat) : Roster :=
  { R with
    thread := fun u => if u ∈ l then { (R.thread u).woken with next := 0, queuedOn := 0 }
      else R.thread u
    ep := update R.ep o { R.ep o with head := 0, tail := 0 } }

theorem Settles.clearQueue (hR : R.Sound) (ho : o ≠ 0) (hl : R.Queue o l)
    (hf : (R.ep o).failed = true) (hW : ∀ t ∈ l, W t) : Settles W R (R.clearQueue o l) := by
  have hin : ∀ u, u ∈ l → (R.clearQueue o l).thread u =
      { (R.thread u).woken with next := 0, queuedOn := 0 } := fun u hu => if_pos hu
  have hout : ∀ u, u ∉ l → (R.clearQueue o l).thread u = R.thread u := fun u hu => if_neg hu
  have hep : ∀ p, p ≠ o → (R.clearQueue o l).ep p = R.ep p := fun p hp => update_of_ne hp _ _
  have hself : (R.clearQueue o l).ep o = { R.ep o with head := 0, tail := 0 } :=
    update_self _ _ _
  have hrecv : ∀ p, ((R.clearQueue o l).ep p).receiver = (R.ep p).receiver := by
    intro p
    by_cases hp : p = o
    · subst hp; rw [hself]
    · rw [hep p hp]
  have hcaller : ∀ u ∈ l, (R.thread u).state = .blockedSend ∧ (R.thread u).awaiting = false :=
    fun u hu => hR.caller u (by rw [(hl.mem u).mp hu]; exact ho)
  -- the members of another queue are not in `l`
  have hkeep : ∀ p, p ≠ o → p ≠ 0 → ∀ l', R.Queue p l' → (R.clearQueue o l).Queue p l' := by
    intro p hpo hp l' hl'
    refine hl'.congr (by rw [hep p hpo]) (by rw [hep p hpo]) (fun u hu => ?_) fun u => ?_
    · rw [hout u]
      exact fun hm => hpo (((hl'.mem u).mp hu).symm.trans ((hl.mem u).mp hm))
    · by_cases hu : u ∈ l
      · rw [hin u hu, (hl.mem u).mp hu]
        exact iff_of_false (Ne.symm hp) (Ne.symm hpo)
      · rw [hout u hu]
  have hempty : (R.clearQueue o l).Queue o [] := by
    refine ⟨?_, ?_, fun u => ?_⟩
    · rw [hself]; rfl
    · rw [hself]; rfl
    · by_cases hu : u ∈ l
      · rw [hin u hu]
        exact iff_of_false List.not_mem_nil (Ne.symm ho)
      · rw [hout u hu]
        exact iff_of_false List.not_mem_nil fun e => hu ((hl.mem u).mpr e)
  have hsound : (R.clearQueue o l).Sound := by
    refine ⟨fun p hp => ?_, fun u hu => ?_, fun p hp hr => ?_, fun u hu => ?_, fun u h1 h2 => ?_,
      fun u h0 => ?_, fun u => ?_, hR.ntfn, hR.line⟩
    · by_cases hpo : p = o
      · subst hpo
        exact ⟨[], hempty⟩
      · obtain ⟨l', hl'⟩ := hR.queue p hp
        exact ⟨l', hkeep p hpo hp l' hl'⟩
    · by_cases hm : u ∈ l
      · rw [hin u hm] at hu
        exact absurd rfl hu
      · rw [hout u hm] at hu ⊢
        exact hR.caller u hu
    · rw [hrecv] at hr ⊢
      have hb := hR.receiver p hp hr
      rw [hout]
      · exact hb
      · intro hm
        have := (hcaller _ hm).1
        rw [hb.1] at this
        cases this
    · by_cases hm : u ∈ l
      · rw [hin u hm] at hu
        cases hu
      · rw [hout u hm] at hu ⊢
        exact hR.awaiting u hu
    · by_cases hm : u ∈ l
      · rw [hin u hm] at h2
        exact absurd rfl h2
      · rw [hout u hm] at h1 h2
        exact hR.scheduled u h1 h2
    · obtain ⟨l', hl'⟩ := hR.waiters u h0
      refine ⟨l', hl'.of_vigil (fun v => ?_) fun v hv => ?_⟩
      · by_cases hm : v ∈ l
        · rw [hin v hm]; rfl
        · rw [hout v hm]
      · rw [hout v]
        · exact hv
        · intro hm
          rw [(hcaller v hm).1] at hv
          cases hv
    · by_cases hm : u ∈ l
      · rw [hin u hm]; exact hR.bound u
      · rw [hout u hm]; exact hR.bound u
  refine ⟨hsound, fun u => ?_, fun u => ?_, fun u => ?_, fun u => ?_, fun p => .inl (hrecv p),
    fun p hp => ?_, fun p hp => ?_, rfl⟩
  · by_cases hm : u ∈ l
    · exact .inr ⟨hW u hm, by rw [hin u hm]; rfl⟩
    · exact .inl (by rw [hout u hm])
  · by_cases hm : u ∈ l
    · rw [hin u hm]; rfl
    · rw [hout u hm]
  · by_cases hm : u ∈ l
    · rw [hin u hm]
      exact .inr ⟨hW u hm, by rw [(hcaller u hm).1]; rfl, rfl⟩
    · exact .inl (by rw [hout u hm])
  · by_cases hm : u ∈ l
    · exact .inr (by rw [hin u hm])
    · exact .inl (by rw [hout u hm])
  · by_cases hpo : p = o
    · subst hpo
      exact .inr ⟨by rw [hself], by rw [hself]; exact hf⟩
    · exact .inl (hkeep p hpo hp)
  · by_cases hpo : p = o
    · subst hpo
      rw [hself]
      exact hf
    · rw [hep p hpo]
      exact hp

end Roster

end Aegir.Kernel
