/-
  Which thread `Pop` takes.

  `Pop` keeps the first best entry, so among equals POSITION decides.  Unboosted threads join at the tail,
  boosted ones at the HEAD.  So the order of service is priority, then boost, then arrival (`InOrder`), except
  among boosted threads of one priority, which are served newest first (`pop_inOrder_iff`).

  `Track` is a scheduler with a clock that stamps every thread when it enters the ready list.
-/
import Aegir.Laws.RunQueue

namespace Aegir.Scheduler

open Aegir.Lib List
open Aegir.Kernel (ThreadState threadBound)

/-! ## The order of `Better` -/

/-- Priority first, then boost, as one number. -/
def rank (c : Task) : Int := 2 * c.priority + if c.boosted then 1 else 0

theorem better_iff (cand best : Task) : Sched.better cand best = true ↔ rank best < rank cand := by
  unfold Sched.better rank
  cases hc : cand.boosted <;> cases hb : best.boosted <;> simp <;> omega

/-- **The scan keeps the first of the best.** -/
theorem foldl_pick (s : Sched) (l : List Nat) (h0 : 0 ∉ l) : (l = [] ∧ l.foldl (pick s) 0 = 0) ∨
      ∃ a c, l = a ++ l.foldl (pick s) 0 :: c ∧ (∀ u ∈ a, rank (s.task u) < rank (s.task (l.foldl (pick s) 0))) ∧
        ∀ u ∈ c, rank (s.task u) ≤ rank (s.task (l.foldl (pick s) 0)) := by
  induction l using reverseRecOn with
  | nil => exact .inl ⟨rfl, rfl⟩
  | append_singleton l t ih =>
    right
    rw [foldl_append, foldl_cons, foldl_nil]
    have h0' : 0 ∉ l := fun h => h0 (mem_append_left _ h)
    rcases ih h0' with ⟨rfl, hz⟩ | ⟨a, c, hl, ha, hc⟩
    · rw [hz]
      exact ⟨[], [], by simp [pick], fun u hu => absurd hu not_mem_nil, fun u hu => absurd hu not_mem_nil⟩
    · generalize hbest : l.foldl (pick s) 0 = best at hl ha hc
      have hne : best ≠ 0 := by
        rintro rfl
        exact h0' (hl ▸ mem_append_right a mem_cons_self)
      have hle : ∀ u ∈ l, rank (s.task u) ≤ rank (s.task best) := by
        intro u hu
        rw [hl] at hu
        rcases mem_append.mp hu with hu | hu
        · exact (ha u hu).le
        · rcases mem_cons.mp hu with rfl | hu
          · exact le_refl _
          · exact hc u hu
      by_cases hb : Sched.better (s.task t) (s.task best) = true
      · -- the new one is better than all before
        have hp : pick s best t = t := if_pos (.inr hb)
        rw [hp]
        refine ⟨l, [], rfl, fun u hu => ?_, fun u hu => absurd hu not_mem_nil⟩
        exact (hle u hu).trans_lt ((better_iff _ _).mp hb)
      · have hp : pick s best t = best := if_neg (by rintro (h | h); exacts [hne h, hb h])
        rw [hp]
        refine ⟨a, c ++ [t], ?_, ha, fun u hu => ?_⟩
        · rw [hl, append_assoc, cons_append]
        · rcases mem_append.mp hu with hu | hu
          · exact hc u hu
          · rw [mem_singleton.mp hu]
            exact Int.not_lt.mp fun h => hb ((better_iff _ _).mpr h)

/-! ## The ready list -/

/-- A thread off the list has no boost to spend. -/
def Spent (listed : Prop) (m : Mark) : Prop := ¬ listed → m.boosted = true → m.state = .dead

abbrev Lined : Sched → List Nat → Prop := Listed Spent

variable {s s' : Sched} {a b l l' : List Nat} {t h : Nat}

/-- The threads of `l` have the boosts they had, and none of them has been queued. -/
def Calm (l : List Nat) (s s' : Sched) : Prop :=
  ∀ x ∈ l, (s'.task x).boosted = (s.task x).boosted ∧ ((s'.task x).queued = true → (s.task x).queued = true)

namespace Calm

theorem refl (l : List Nat) (s : Sched) : Calm l s s := fun _ _ => ⟨rfl, id⟩

theorem trans {s₁ s₂ s₃ : Sched} (h : Calm l s₁ s₂) (h' : Calm l s₂ s₃) : Calm l s₁ s₃ :=
  fun x hx => ⟨(h' x hx).1.trans (h x hx).1, fun hq => (h x hx).2 ((h' x hx).2 hq)⟩

theorem of_same (hs : SameQueue s s') : Calm l s s' := fun x _ => ⟨hs.boosted x, (hs.queued x).symm.trans⟩

theorem of_weeded (hw : Weeded s s') : Calm l s s' := fun x _ => ⟨hw.boosted x, hw.queued x⟩

theorem off (hout : t ∉ l) (f : Task → Task) : Calm l s (s.modTask t f) := by
  intro x hx
  rw [task_modTask_ne s f fun e : x = t => hout (e ▸ hx)]
  exact ⟨rfl, id⟩

theorem kill (l : List Nat) (s : Sched) (t : Nat) :
    Calm l s (s.modTask t fun c => { c with state := .dead, queued := false }) := by
  intro x _
  rw [task_modTask]
  split_ifs with e
  · exact ⟨by rw [e], fun h => by cases h⟩
  · exact ⟨rfl, id⟩

end Calm

/-! ## `Pop` -/

/-- What `Pop` does to the list `l`: it takes the first of the best live entries, and drops the dead ones. -/
structure Popped (s : Sched) (l : List Nat) (p : Sched × Nat) (l' : List Nat) : Prop where
  lined : Lined p.1 l'
  taken : p.2 = (live s l).foldl (pick s) 0
  sublist : l'.Sublist l
  gone : p.2 ∉ l'
  calm : Calm l' s p.1
  mem : p.2 ≠ 0 → p.2 ∈ live s l
  spent : p.2 ≠ 0 → (p.1.task p.2).boosted = false

/-- **`Pop`, on the list.** -/
theorem Lined.pop (hl : Lined s l) : ∃ l', Popped s l s.pop l' := by
  obtain ⟨s₁, h1, hw, hpop⟩ := hl.pop_cases fun m _ hd _ _ => hd
  rcases hpop with ⟨hz, hpop⟩ | ⟨a, t, b, ht, hbest, hsplit, hpop⟩
  · -- no thread is ready
    rw [hpop]
    exact ⟨live s l, h1, hz.symm, live_sublist, h1.zero_notMem, .of_weeded hw, absurd rfl, absurd rfl⟩
  · rw [hsplit] at h1
    rw [hpop]
    obtain ⟨-, hout⟩ := nodup_middle h1.nodup
    refine ⟨a ++ b, h1.unlink (fun c => { c with boosted := false }) fun c hc => ⟨congrArg Mark.queued hc, fun _ h => ?_⟩,
      hbest.symm, ?_, hout, (Calm.of_weeded (hw.trans (unlinkReady_weeded s₁ t))).trans
        (.off hout fun c => { c with boosted := false }), fun _ => ?_, fun _ => ?_⟩
    · cases h
    · have hsub : (a ++ b).Sublist (a ++ t :: b) := List.Sublist.append_left (sublist_cons_self t b) a
      exact (hsplit ▸ hsub).trans live_sublist
    · rw [hsplit]
      simp
    · rw [task_modTask_self]

/-! ## Operations and their stamps -/

/-- The walk along the ready list. -/
def Sched.entriesFrom (s : Sched) : Nat → Nat → List Nat
  | 0, _ => []
  | fuel + 1, cand => if cand = 0 then [] else cand :: s.entriesFrom fuel (s.task cand).readyNext

/-- What is on the ready list. -/
def Sched.entries (s : Sched) : List Nat := s.entriesFrom threadBound s.readyHead

theorem Lined.entriesFrom (hl : Lined s l) (fuel : Nat) (done rest : List Nat) (hsplit : l = done ++ rest)
    (hfuel : rest.length < fuel) : s.entriesFrom fuel (rest.headD 0) = rest := by
  induction fuel generalizing done rest with
  | zero => omega
  | succ fuel ih =>
    cases rest with
    | nil => rfl
    | cons t rest =>
      have ht : t ≠ 0 := hl.ne_zero (by rw [hsplit]; simp)
      rw [length_cons] at hfuel
      rw [headD_cons, Sched.entriesFrom, if_neg ht, hl.next_eq hsplit,
        ih (done ++ [t]) rest (by rw [hsplit]; simp) (by omega)]

theorem Lined.entries (hl : Lined s l) : s.entries = l := by
  unfold Sched.entries
  rw [hl.head]
  exact hl.entriesFrom threadBound [] l rfl hl.length_lt

/-- The first half of `Yield`: the running thread of the hart goes back to the list. -/
def Sched.requeue (s : Sched) (h : Nat) : Sched :=
  if s.current h ≠ 0 ∧ (s.task (s.current h)).state = .running then
    ((s.modTask (s.current h) fun c => { c with state := .ready }).push (s.current h) false).1
  else s

/-- What happens to the scheduler. -/
inductive Op where
  /-- `Push` of a ready thread, as in `Add_Task` -/
  | push (t : Nat)
  | wake (t : Nat)
  /-- the two halves of `Yield` -/
  | requeue (h : Nat)
  | takeNext (h : Nat)
  | pop
  | setPriority (t : Nat) (priority : Int)
  /-- a handler blocks the running thread -/
  | block (h : Nat) (state : ThreadState)
  | exit (h : Nat)
  /-- `Mark_Exited` or `Thread_Exit` marks a thread dead, `Remove_Thread` comes after it -/
  | kill (t : Nat)
  | remove (t : Nat)
  /-- a slot gets a new thread -/
  | create (t process : Nat)

/-- What the callers see to. -/
def Fits (s : Sched) : Op → Prop
  | .push t => (s.task t).state = .ready
  | .block h _ => s.current h = 0 ∨ (s.task (s.current h)).state = .running
  | .remove t => (s.task t).state = .dead
  | .create t _ => t ≠ 0 ∧ t < threadBound ∧ t ∉ s.entries
  | _ => True

instance (s : Sched) (op : Op) : Decidable (Fits s op) := by
  cases op <;> (unfold Fits; infer_instance)

def Sched.perform (s : Sched) : Op → Sched
  | .push t => (s.push t false).1
  | .wake t => s.wake t
  | .requeue h => s.requeue h
  | .takeNext h => (s.takeNext h).1
  | .pop => s.pop.1
  | .setPriority t priority => s.modTask t fun c => { c with priority := priority }
  | .block h state => s.blockCurrent h state
  | .exit h => s.exitCurrent h
  | .kill t => s.modTask t fun c => { c with state := .dead, queued := false }
  | .remove t => s.removeThread t
  | .create t process => s.initializeThread t process

/-- A scheduler, and when each thread was last put on the ready list. -/
structure Track where
  sched : Sched
  arrived : Nat → Nat
  clock : Nat

/-- The scheduler goes on to `s`; threads that have come onto the list are stamped. -/
def Track.to (r : Track) (s : Sched) : Track where
  sched := s
  arrived := fun t => if (s.task t).queued ∧ ¬ (r.sched.task t).queued then r.clock else r.arrived t
  clock := r.clock + 1

def Track.step (r : Track) (op : Op) : Track := r.to (r.sched.perform op)

/-- From the boot state, by operations that their callers may do. -/
inductive Reached : Track → Prop
  | start : Reached ⟨bootSched, fun _ => 0, 0⟩
  | step {r : Track} (hr : Reached r) (op : Op) (hfits : Fits r.sched op) : Reached (r.step op)

/-! ## The invariant -/

variable {r : Track}

/-- The list is in order of arrival as far as boosts allow: unboosted threads from the head to the tail,
    boosted ones from the tail to the head. -/
structure Arrivals (r : Track) (l : List Nat) : Prop where
  older : ∀ t ∈ l, r.arrived t < r.clock
  order : l.Pairwise fun a b =>
    ((r.sched.task a).boosted = true → (r.sched.task b).boosted = true → r.arrived b < r.arrived a) ∧
    ((r.sched.task a).boosted = false → (r.sched.task b).boosted = false → r.arrived a < r.arrived b)

structure Stamped (r : Track) (l : List Nat) : Prop extends Arrivals r l where
  lined : Lined r.sched l

theorem Calm.arrived (hc : Calm l r.sched s) : ∀ x ∈ l, (r.to s).arrived x = r.arrived x := by
  refine fun x hx => if_neg ?_
  rintro ⟨hq, hn⟩
  exact hn ((hc x hx).2 hq)

theorem Arrivals.keep (hr : Arrivals r l) (hsub : l'.Sublist l) (hc : Calm l' r.sched s) : Arrivals (r.to s) l' := by
  refine ⟨fun t ht => ?_, (hr.order.sublist hsub).imp_of_mem fun {a b} ha hb hab => ?_⟩
  · rw [hc.arrived t ht]
    exact Nat.lt_succ_of_lt (hr.older t (hsub.subset ht))
  · rw [hc.arrived a ha, hc.arrived b hb]
    show ((s.task a).boosted = true → (s.task b).boosted = true → _) ∧
      ((s.task a).boosted = false → (s.task b).boosted = false → _)
    rw [(hc a ha).1, (hc b hb).1]
    exact hab

theorem Stamped.keep (hr : Stamped r l) (hl' : Lined s l') (hsub : l'.Sublist l) (hc : Calm l' r.sched s) :
    Stamped (r.to s) l' :=
  ⟨hr.toArrivals.keep hsub hc, hl'⟩

/-- The same threads are on the list. -/
theorem Stamped.stay (hr : Stamped r l) (hl' : Lined s l) (hc : Calm l r.sched s) : Stamped (r.to s) l :=
  hr.keep hl' (List.Sublist.refl l) hc

theorem Stamped.join {boost : Bool} (hr : Stamped r l) (hout : t ∉ l) (hl' : Lined s (enlist t boost l))
    (hself : (s.task t).queued = true) (hboost : (s.task t).boosted = boost) (hc : Calm l r.sched s) :
    Stamped (r.to s) (enlist t boost l) := by
  have hnew : (r.to s).arrived t = r.clock := if_pos ⟨hself, by rw [hr.lined.not_queued hout]; decide⟩
  obtain ⟨holder, hold⟩ := hr.toArrivals.keep (List.Sublist.refl l) hc
  have hlt : ∀ x ∈ l, (r.to s).arrived x < (r.to s).arrived t := by
    intro x hx
    rw [hnew, hc.arrived x hx]
    exact hr.older x hx
  refine ⟨⟨fun x hx => ?_, ?_⟩, hl'⟩
  · rcases (mem_enlist boost).mp hx with rfl | hx
    · rw [hnew]
      exact Nat.lt_succ_self _
    · exact holder x hx
  · cases boost with
    | true =>
      -- in front of the others, and younger than all of them
      exact pairwise_cons.mpr ⟨fun x hx => ⟨fun _ _ => hlt x hx, fun hf => absurd (hboost.symm.trans hf) (by decide)⟩,
        hold⟩
    | false =>
      -- behind the others
      refine pairwise_append.mpr ⟨hold, pairwise_singleton _ _, fun x hx y hy => ?_⟩
      rw [mem_singleton] at hy
      subst hy
      exact ⟨fun _ hf => absurd (hboost.symm.trans hf) (by decide), fun _ _ => hlt x hx⟩

/-! ## One operation -/

section

variable (hr : Stamped r l)

include hr

/-- `Push` of a thread that `f` makes ready. -/
theorem Stamped.pushed (hs : SameQueue r.sched s) (boost : Bool) (f : Task → Task) (hout : t ∉ l)
    (hd : (r.sched.task t).state ≠ .dead) (hf : (f (s.task t)).state = .ready)
    (hq : (f (s.task t)).queued = (s.task t).queued) (hb : (f (s.task t)).boosted = boost) :
    ∃ l', Stamped (r.to ((s.modTask t f).push t boost).1) l' := by
  have hl := hs.listed hr.lined
  obtain ⟨ht, hlt⟩ := hr.lined.inside hd
  have hpush : (s.modTask t f).push t boost = ((s.modTask t f).pushed t boost, .ok) := by
    refine push_ok boost ht ?_ ?_
    · rw [task_modTask_self, hf]
      decide
    · rw [task_modTask_self, hq]
      exact hl.not_queued hout
  have hmark := pushed_mark (s.modTask t f) t boost
  have hself : (((s.modTask t f).pushed t boost).task t).mark = { (f (s.task t)).mark with queued := true } := by
    rw [hmark, if_pos rfl, task_modTask_self]
    rfl
  rw [hpush]
  refine ⟨_, hr.join hout (hl.push ht hlt hout boost f hf fun h => absurd trivial h) (congrArg Mark.queued hself)
    ((congrArg Mark.boosted hself).trans hb) ((Calm.of_same hs).trans fun x hx => ?_)⟩
  have hne : x ≠ t := fun e => hout (e ▸ hx)
  have hold := hmark x
  rw [if_neg hne, task_modTask_ne s f hne] at hold
  exact ⟨congrArg Mark.boosted hold, (congrArg Mark.queued hold).symm.trans⟩

theorem Stamped.unboosted (hout : t ∉ l) (hd : (r.sched.task t).state ≠ .dead) :
    (r.sched.task t).boosted = false := by
  rw [← Bool.not_eq_true]
  exact fun hb => hd (hr.lined.more t hout hb)

theorem Stamped.push (hready : (r.sched.task t).state = .ready) :
    ∃ l', Stamped (r.to (r.sched.push t false).1) l' := by
  have hd : (r.sched.task t).state ≠ .dead := by rw [hready]; decide
  cases hq : (r.sched.task t).queued with
  | true =>
    have hpush : (r.sched.push t false).1 = r.sched := by
      unfold Sched.push
      rw [if_neg (by simp [(hr.lined.inside hd).1, hready]), if_pos hq]
    rw [hpush]
    exact ⟨l, hr.stay hr.lined (.refl l _)⟩
  | false =>
    have hout : t ∉ l := by
      intro ht
      rcases (hr.lined.sits t).entry ht with h | h
      · exact Bool.false_ne_true (hq.symm.trans h.2)
      · exact hd h.1
    have hpushed := hr.pushed (.refl _) false id hout hd hready rfl (hr.unboosted hout hd)
    rwa [modTask_id] at hpushed

theorem Stamped.wake (t : Nat) : ∃ l', Stamped (r.to (r.sched.wake t)) l' := by
  rcases wake_cases r.sched t with ⟨-, hwake⟩ | ⟨-, hd, -, hready, hwake⟩
  · rw [hwake]
    exact ⟨l, hr.stay hr.lined (.refl l _)⟩
  · -- a blocked thread: it leaves the sleep list, is boosted and goes to the front
    rw [hwake]
    exact hr.pushed (roused_same r.sched t) true _ (hr.lined.notMem_of_state hready hd) hd rfl rfl rfl

theorem Stamped.requeue (h : Nat) : ∃ l', Stamped (r.to (r.sched.requeue h)) l' := by
  unfold Sched.requeue
  split_ifs with hrun
  · have hd : (r.sched.task (r.sched.current h)).state ≠ .dead := by rw [hrun.2]; decide
    have hout := hr.lined.notMem_of_state (by rw [hrun.2]; decide) hd
    exact hr.pushed (.refl _) false _ hout hd rfl rfl (hr.unboosted hout hd)
  · exact ⟨l, hr.stay hr.lined (.refl l _)⟩

theorem Stamped.takeNext (h : Nat) : ∃ l', Stamped (r.to (r.sched.takeNext h).1) l' := by
  obtain ⟨l', hp⟩ := hr.lined.pop
  refine ⟨l', ?_⟩
  unfold Sched.takeNext
  generalize r.sched.pop = p at hp
  obtain ⟨s₁, t⟩ := p
  dsimp only
  split_ifs with hz hrun
  · exact hr.keep hp.lined hp.sublist hp.calm
  · exact hr.keep (hp.lined.setCurrent _) hp.sublist hp.calm
  · -- the thread that was taken runs now
    have hlt := hr.lined.bound t (mem_live.mp (hp.mem hz)).1
    refine hr.keep ((hp.lined.setCurrent _).change hz hp.gone (fun c => { c with queued := false, state := .running }) rfl
      (fun hge => absurd hlt (by omega)) fun _ hb => ?_) hp.sublist
      (hp.calm.trans (Calm.off (s := s₁) hp.gone fun c => { c with queued := false, state := .running }))
    exact absurd ((hp.spent hz).symm.trans hb) (by decide)

/-- **One operation** keeps the list in order. -/
theorem Stamped.step {op : Op} (hfits : Fits r.sched op) : ∃ l', Stamped (r.step op) l' := by
  have hsame : Stamped (r.to r.sched) l := hr.stay hr.lined (.refl l _)
  cases op with
  | push t => exact hr.push hfits
  | wake t => exact hr.wake t
  | requeue h => exact hr.requeue h
  | takeNext h => exact hr.takeNext h
  | pop =>
    obtain ⟨l', hp⟩ := hr.lined.pop
    exact ⟨l', hr.keep hp.lined hp.sublist hp.calm⟩
  | setPriority t priority =>
    have hs : SameQueue r.sched (r.sched.modTask t fun c => { c with priority := priority }) := .modTask _ _ fun _ => rfl
    exact ⟨l, hr.stay (hs.listed hr.lined) (.of_same hs)⟩
  | block h state =>
    refine ⟨l, ?_⟩
    show Stamped (r.to (r.sched.blockCurrent h state)) l
    unfold Sched.blockCurrent
    split_ifs with h0
    · exact hsame
    · have hrun : (r.sched.task (r.sched.current h)).state = .running := hfits.resolve_left h0
      have hd : (r.sched.task (r.sched.current h)).state ≠ .dead := by rw [hrun]; decide
      have hout := hr.lined.notMem_of_state (by rw [hrun]; decide) hd
      have hin := hr.lined.inside hd
      exact hr.stay ((hr.lined.change h0 hout (fun c => { c with state := state, boosted := false })
        (hr.lined.not_queued hout) (fun hge => absurd hin.2 (by omega)) fun _ hb => by cases hb).setCurrent _)
        (Calm.off (s := r.sched) hout fun c => { c with state := state, boosted := false })
  | exit h =>
    refine ⟨l, ?_⟩
    show Stamped (r.to (r.sched.exitCurrent h)) l
    unfold Sched.exitCurrent
    split_ifs with h0
    · exact hsame
    · have hs := removeSleeper_same r.sched (r.sched.current h)
      exact hr.stay (((hs.listed hr.lined).kill _ _ rfl rfl rfl rfl fun _ _ => rfl).setCurrent _)
        ((Calm.of_same hs).trans (.kill l _ _))
  | kill t =>
    exact ⟨l, hr.stay (hr.lined.kill t (fun c => { c with state := .dead, queued := false }) rfl rfl rfl rfl
      fun _ _ => rfl) (.kill l _ t)⟩
  | remove t =>
    refine ⟨l, ?_⟩
    show Stamped (r.to (r.sched.removeThread t)) l
    by_cases ht : t = 0
    · unfold Sched.removeThread
      rw [if_pos ht]
      exact hsame
    · have hs := removeThread_same ht (hr.lined.dead_unqueued hfits)
      exact hr.stay (hs.listed (hr.lined.setCurrent _)) fun x hx => Calm.of_same hs x hx
  | create t process =>
    obtain ⟨ht, hlt, hout⟩ := hfits
    rw [hr.lined.entries] at hout
    refine ⟨l, hr.stay (s := r.sched.initializeThread t process) ?_ (.off hout _)⟩
    exact hr.lined.change ht hout _ rfl (fun hge => absurd hlt (by omega)) fun _ hb => by cases hb

end

/-! ## The order of service -/

theorem boot_lined : Lined bootSched [] :=
  { boot_mid.listed with more := fun t _ hb => by cases hb }

/-- **Every reached state is in order.** -/
theorem Reached.stamped (hr : Reached r) : ∃ l, Stamped r l := by
  induction hr with
  | start => exact ⟨[], ⟨fun t ht => absurd ht not_mem_nil, List.Pairwise.nil⟩, boot_lined⟩
  | step _ op hfits ih =>
    obtain ⟨l, hl⟩ := ih
    exact hl.step hfits

/-- A live thread on the ready list. -/
def Waiting (s : Sched) (t : Nat) : Prop := (s.task t).queued = true ∧ (s.task t).state ≠ .dead

instance (s : Sched) (t : Nat) : Decidable (Waiting s t) := inferInstanceAs (Decidable (_ ∧ _))

/-- **Priority, then boost, then arrival**: what the thread that `Pop` takes has to be. -/
structure InOrder (r : Track) : Prop where
  none : (∀ t, ¬ Waiting r.sched t) → r.sched.pop.2 = 0
  found : (∃ t, Waiting r.sched t) → Waiting r.sched r.sched.pop.2
  ready : (∃ t, Waiting r.sched t) → (r.sched.task r.sched.pop.2).state = .ready
  priority : ∀ u, Waiting r.sched u → (r.sched.task u).priority ≤ (r.sched.task r.sched.pop.2).priority
  boost : ∀ u, Waiting r.sched u → (r.sched.task u).priority = (r.sched.task r.sched.pop.2).priority →
    (r.sched.task u).boosted = true → (r.sched.task r.sched.pop.2).boosted = true
  first : ∀ u, Waiting r.sched u → (r.sched.task u).priority = (r.sched.task r.sched.pop.2).priority →
    (r.sched.task u).boosted = (r.sched.task r.sched.pop.2).boosted → u ≠ r.sched.pop.2 →
    r.arrived r.sched.pop.2 < r.arrived u

/-- No live thread on the list has a higher priority. -/
def Foremost (s : Sched) (t : Nat) : Prop :=
  Waiting s t ∧ ∀ u, Waiting s u → (s.task u).priority ≤ (s.task t).priority

/-- Of the waiting threads of the highest priority, at most one is boosted. -/
def OneBoosted (s : Sched) : Prop :=
  ∀ a b, Foremost s a → Foremost s b → (s.task a).boosted = true → (s.task b).boosted = true → a = b

theorem Lined.waiting_iff (hl : Lined s l) : Waiting s t ↔ t ∈ live s l := by
  rw [mem_live]
  constructor
  · rintro ⟨hq, hd⟩
    exact ⟨(hl.sits t).queued hq, hd⟩
  · rintro ⟨ht, hd⟩
    rcases (hl.sits t).entry ht with h | h
    · exact ⟨h.2, hd⟩
    · exact absurd h.1 hd

theorem rank_eq_iff (c d : Task) : rank c = rank d ↔ c.priority = d.priority ∧ c.boosted = d.boosted := by
  unfold rank
  cases c.boosted <;> cases d.boosted <;> simp <;> omega

theorem priority_le_of_rank {c d : Task} (h : rank c ≤ rank d) : c.priority ≤ d.priority := by
  unfold rank at h
  split at h <;> split at h <;> omega

/-- What the scan has found: the first of the best. -/
structure Chosen (r : Track) (t : Nat) : Prop where
  waiting : Waiting r.sched t
  best : ∀ u, Waiting r.sched u → rank (r.sched.task u) ≤ rank (r.sched.task t)
  ahead : ∀ u, Waiting r.sched u → rank (r.sched.task u) = rank (r.sched.task t) → u ≠ t →
    ((r.sched.task t).boosted = true → r.arrived u < r.arrived t) ∧
    ((r.sched.task t).boosted = false → r.arrived t < r.arrived u)

/-- **`Pop` takes the first of the best**: among equals the last arrival if they are boosted, the first
    otherwise. -/
theorem Stamped.chosen (hr : Stamped r l) (hsome : ∃ t, Waiting r.sched t) : Chosen r r.sched.pop.2 := by
  obtain ⟨l', hp⟩ := hr.lined.pop
  have h0 : 0 ∉ live r.sched l := fun h => hr.lined.zero_notMem (mem_live.mp h).1
  rcases foldl_pick r.sched (live r.sched l) h0 with ⟨hnil, -⟩ | ⟨a, c, hlive, ha, hc⟩
  · obtain ⟨t, ht⟩ := hsome
    rw [hr.lined.waiting_iff, hnil] at ht
    exact absurd ht not_mem_nil
  · rw [← hp.taken] at hlive ha hc
    generalize r.sched.pop.2 = best at hlive ha hc
    have hmem : ∀ u, Waiting r.sched u ↔ u ∈ a ∨ u = best ∨ u ∈ c := by
      intro u
      rw [hr.lined.waiting_iff, hlive, mem_append, mem_cons]
    have horder := hr.order.sublist (live_sublist (s := r.sched))
    rw [hlive] at horder
    have hbehind := (pairwise_cons.mp (pairwise_append.mp horder).2.1).1
    constructor
    · exact (hmem best).mpr (.inr (.inl rfl))
    · intro u hu
      rcases (hmem u).mp hu with h | rfl | h
      · exact (ha u h).le
      · exact le_refl _
      · exact hc u h
    · intro u hu hrank hne
      rcases (hmem u).mp hu with h | h | h
      · have hlt := ha u h
        omega
      · exact absurd h hne
      · -- behind the chosen one, with the same boost
        have hboost := ((rank_eq_iff _ _).mp hrank).2
        obtain ⟨h1, h2⟩ := hbehind u h
        exact ⟨fun hb => h1 hb (hboost.trans hb), fun hb => h2 hb (hboost.trans hb)⟩

/-- **`Pop` serves by priority, then boost, then arrival** exactly when, of the waiting threads of the highest
    priority, at most one is boosted: boosted threads are served newest first. -/
theorem pop_inOrder_iff (hr : Reached r) : InOrder r ↔ OneBoosted r.sched := by
  obtain ⟨l, hl⟩ := hr.stamped
  obtain ⟨l', hp⟩ := hl.lined.pop
  by_cases hsome : ∃ t, Waiting r.sched t
  · have hch := hl.chosen hsome
    generalize hbest : r.sched.pop.2 = best at hch
    have hpri : ∀ u, Waiting r.sched u → (r.sched.task u).priority ≤ (r.sched.task best).priority :=
      fun u hu => priority_le_of_rank (hch.best u hu)
    have hboost : ∀ u, Waiting r.sched u → (r.sched.task u).priority = (r.sched.task best).priority →
        (r.sched.task u).boosted = true → (r.sched.task best).boosted = true := by
      intro u hu heq hb
      have hle := hch.best u hu
      unfold rank at hle
      rw [heq, hb, if_pos rfl] at hle
      by_contra hnb
      rw [if_neg hnb] at hle
      omega
    constructor
    · intro hin a b ha hb hba hbb
      -- a boosted thread of the highest priority is the one that was taken
      have htaken : ∀ x, Foremost r.sched x → (r.sched.task x).boosted = true → x = best := by
        intro x hx hxb
        have heq : (r.sched.task x).priority = (r.sched.task best).priority :=
          Int.le_antisymm (hpri x hx.1) (hx.2 best hch.waiting)
        have hbestb := hboost x hx.1 heq hxb
        by_contra hne
        have hlater := (hch.ahead x hx.1 ((rank_eq_iff _ _).mpr ⟨heq, hxb.trans hbestb.symm⟩) hne).1 hbestb
        have hfirst := hin.first x hx.1
        rw [hbest] at hfirst
        have hearlier := hfirst heq (hxb.trans hbestb.symm) hne
        omega
      rw [htaken a ha hba, htaken b hb hbb]
    · intro hone
      have hfore : Foremost r.sched best := ⟨hch.waiting, hpri⟩
      refine ⟨fun h => absurd hch.waiting (h best), fun _ => ?_, fun _ => ?_, ?_, ?_, ?_⟩
      · rw [hbest]
        exact hch.waiting
      · rw [hbest]
        exact hl.lined.ready_of_mem ((hl.lined.sits best).queued hch.waiting.1) hch.waiting.2
      · rw [hbest]
        exact hpri
      · rw [hbest]
        exact hboost
      · rw [hbest]
        intro u hu heq hb hne
        have hahead := hch.ahead u hu ((rank_eq_iff _ _).mpr ⟨heq, hb⟩) hne
        cases hbb : (r.sched.task best).boosted with
        | false => exact hahead.2 hbb
        | true =>
          refine absurd (hone u best ⟨hu, fun x hx => ?_⟩ hfore (hb.trans hbb) hbb) hne
          rw [heq]
          exact hpri x hx
  · -- nothing waits
    have hnone : ∀ t, ¬ Waiting r.sched t := fun t ht => hsome ⟨t, ht⟩
    refine iff_of_true ⟨fun _ => ?_, fun h => absurd h hsome, fun h => absurd h hsome,
      fun u hu => absurd hu (hnone u), fun u hu => absurd hu (hnone u), fun u hu => absurd hu (hnone u)⟩
      fun a b ha => absurd ha.1 (hnone a)
    by_contra hne
    exact hnone _ (hl.lined.waiting_iff.mpr (hp.mem hne))

/-- Two threads start, wait for a notification each, and are woken, the first one first. -/
def twoWakes : List Op :=
  [.push 1, .takeNext 1, .block 1 .blockedNotification, .push 2, .takeNext 1, .block 1 .blockedNotification,
    .wake 1, .wake 2]

/-- A list of operations whose callers keep their word. -/
def fitsAll (r : Track) : List Op → Bool
  | [] => true
  | op :: ops => decide (Fits r.sched op) && fitsAll (r.step op) ops

theorem Reached.run {ops : List Op} (hr : Reached r) (hfits : fitsAll r ops = true) :
    Reached (ops.foldl Track.step r) := by
  induction ops generalizing r with
  | nil => exact hr
  | cons op ops ih =>
    rw [fitsAll, Bool.and_eq_true, decide_eq_true_eq] at hfits
    exact ih (hr.step op hfits.1) hfits.2

/-- With one of them woken the order is the documented one. -/
theorem pop_inOrder_iff_oneWake : ∃ r, Reached r ∧ Waiting r.sched 1 ∧ InOrder r := by
  have hr : Reached ((twoWakes.take 7).foldl Track.step ⟨bootSched, fun _ => 0, 0⟩) :=
    Reached.start.run (by decide +kernel)
  refine ⟨_, hr, by decide +kernel, (pop_inOrder_iff hr).mpr fun a b ha hb _ _ => ?_⟩
  obtain ⟨l, hl⟩ := hr.stamped
  have hlist : l = [1] := by
    rw [← hl.lined.entries]
    decide +kernel
  have hmem : ∀ x, Foremost _ x → x = 1 := fun x hx =>
    mem_singleton.mp (hlist ▸ (hl.lined.sits x).queued hx.1.1)
  rw [hmem a ha, hmem b hb]

/-- **Two boosted threads**: the one that was woken LAST is served first. -/
theorem pop_newest_first : ¬ ∀ r, Reached r → InOrder r := by
  intro hall
  have hr : Reached (twoWakes.foldl Track.step ⟨bootSched, fun _ => 0, 0⟩) :=
    Reached.start.run (by decide +kernel)
  have hfirst := (hall _ hr).first 1 (by decide +kernel) (by decide +kernel) (by decide +kernel) (by decide +kernel)
  exact absurd hfirst (by decide +kernel)

end Aegir.Scheduler
