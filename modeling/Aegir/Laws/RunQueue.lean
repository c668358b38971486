/-
  The ready list through every trap.

  `Mid` is the invariant, with two parameters for the middle of a trap: `H` names the harts whose current thread is
  accounted for, and `dirty` allows DEAD entries, which only the pass of `Pop` takes off again.  Between traps every
  hart counts and nothing is dirty.  Each trap is put together from waking, blocking, killing and scheduling, so that
  between traps the list is clean whatever the rest of the kernel asked for.
-/
import Aegir.Laws.ReadyList

namespace Aegir.Scheduler

open Aegir.Lib List Function
open Aegir.Kernel (ThreadState maxThreadSlots threadBound initThread initProcess)

/-- What traps see to: entries are in use, a ready thread in use is an entry, and a vacant slot is ready or dead. -/
structure Placed (dirty listed : Prop) (m : Mark) : Prop where
  clean : listed → m.state = .dead → dirty
  entry : listed → m.state = .ready → m.used = true
  ready : m.used = true → m.state = .ready → listed
  vacant : m.used = false → m.state = .ready ∨ m.state = .dead

/-- The ready list is `l`, up to dead entries when `dirty`, and the harts of `H` run threads of their
    own. -/
structure Mid (H : Nat → Prop) (dirty : Prop) (s : Sched) (l : List Nat) : Prop where
  listed : Listed (Placed dirty) s l
  running : ∀ h, H h → s.current h ≠ 0 → (s.task (s.current h)).state = .running
  distinct : ∀ h h', H h → H h' → s.current h = s.current h' → s.current h ≠ 0 → h = h'

/-- Every hart counts. -/
def allHarts : Nat → Prop := fun _ => True

/-- Every hart but `h` counts. -/
def butHart (h : Nat) : Nat → Prop := fun h' => h' ≠ h

variable {H H' : Nat → Prop} {dirty dirty' listed : Prop} {s s' : Sched} {l l' : List Nat} {t h : Nat} {m : Mark}

namespace Placed

theorem awake (hr : m.state ≠ .ready) (hd : m.state ≠ .dead) (hu : m.used = true) : Placed dirty listed m :=
  ⟨fun _ h => absurd h hd, fun _ h => absurd h hr, fun _ h => absurd h hr, fun h => absurd (hu.symm.trans h) (by decide)⟩

theorem dead (hd : m.state = .dead) (hl : listed → dirty) : Placed dirty listed m :=
  ⟨fun h _ => hl h, fun _ h => absurd (hd.symm.trans h) (by decide), fun _ h => absurd (hd.symm.trans h) (by decide),
    fun _ => .inr hd⟩

theorem entered (hd : m.state ≠ .dead) (hu : m.used = true) : Placed dirty True m :=
  ⟨fun _ h => absurd h hd, fun _ _ => hu, fun _ _ => trivial, fun h => absurd (hu.symm.trans h) (by decide)⟩

theorem drop (m : Mark) (_ : Placed dirty True m) (hd : m.state = .dead) :
    Placed dirty False { m with queued := false } := .dead hd False.elim

end Placed

namespace Mid

section

variable (hm : Mid H dirty s l)

include hm

theorem used_of_state (hr : (s.task t).state ≠ .ready) (hd : (s.task t).state ≠ .dead) : (s.task t).used = true := by
  by_contra hu
  exact ((hm.listed.more t).vacant (Bool.not_eq_true _ ▸ hu)).elim hr hd

/-- **One thread changes**, and no hart of `H'` runs it; harts may have been set idle. -/
theorem touch (t : Nat) (hl : Listed (Placed dirty') s' l')
    (hcur : ∀ h, H' h → (H h ∧ s'.current h = s.current h) ∨ s'.current h = 0)
    (hself : ∀ h, H' h → s'.current h ≠ 0 → s'.current h ≠ t)
    (hstate : ∀ x, x ≠ t → (s'.task x).state = (s.task x).state) : Mid H' dirty' s' l' := by
  refine ⟨hl, fun h hh h0 => ?_, fun h₁ h₂ hh1 hh2 he h0 => ?_⟩
  · obtain ⟨hH, hc⟩ := (hcur h hh).resolve_right h0
    rw [hstate _ (hself h hh h0), hc]
    exact hm.running h hH (hc ▸ h0)
  · obtain ⟨hH1, hc1⟩ := (hcur h₁ hh1).resolve_right h0
    obtain ⟨hH2, hc2⟩ := (hcur h₂ hh2).resolve_right (he ▸ h0)
    exact hm.distinct h₁ h₂ hH1 hH2 (by rw [← hc1, ← hc2, he]) (hc1 ▸ h0)

theorem weaken (hH : ∀ h, H' h → H h) (hd : dirty → dirty') : Mid H' dirty' s l where
  listed := hm.listed.weaken fun _ _ h => { h with clean := fun hl hs => hd (h.clean hl hs) }
  running h hh := hm.running h (hH h hh)
  distinct h h' hh hh' := hm.distinct h h' (hH h hh) (hH h' hh')

theorem same (hs : SameQueue s s') : Mid H dirty s' l :=
  hm.touch 0 (hs.listed hm.listed) (fun h hh => .inl ⟨hh, congrFun hs.current h⟩) (fun _ _ h => h) fun x _ => hs.state x

/-- A thread that no hart runs becomes ready and is pushed. -/
theorem push (hr : (s.task t).state ≠ .ready) (hd : (s.task t).state ≠ .dead) (hcur : ∀ h, H h → s.current h ≠ t)
    (boost : Bool) (f : Task → Task) (hf : (f (s.task t)).state = .ready)
    (hq : (f (s.task t)).queued = (s.task t).queued) (hu : (f (s.task t)).used = (s.task t).used) :
    (s.modTask t f).push t boost = ((s.modTask t f).pushed t boost, .ok) ∧
      Mid H dirty ((s.modTask t f).pushed t boost) (enlist t boost l) := by
  have hout := hm.listed.notMem_of_state hr hd
  obtain ⟨ht, hb⟩ := hm.listed.inside hd
  have hself : (s.modTask t f).task t = f (s.task t) := task_modTask_self s t f
  constructor
  · refine push_ok boost ht ?_ ?_
    · rw [hself, hf]
      decide
    · rw [hself, hq]
      exact hm.listed.not_queued hout
  · have hcurrent : ((s.modTask t f).pushed t boost).current = s.current := pushed_current _ t boost
    refine hm.touch t (hm.listed.push ht hb hout boost f hf (.entered ?_ (hu.trans (hm.used_of_state hr hd))))
      (fun h hh => .inl ⟨hh, congrFun hcurrent h⟩) (fun h hh _ => ?_) fun x hx => ?_
    · show (f (s.task t)).state ≠ .dead
      rw [hf]
      decide
    · rw [hcurrent]
      exact hcur h hh
    · rw [pushed_state, task_modTask_ne s f hx]

end

theorem integrity (hm : Mid allHarts False s l) : Integrity s := by
  have hl := hm.listed
  have hdead : ∀ t ∈ l, (s.task t).state ≠ .dead := fun t ht hd => (hl.more t).clean ht hd
  refine ⟨l, hl.links, hl.nodup, hl.count, fun t => ⟨fun ht => ?_, (hl.sits t).queued⟩, fun t => (hl.more t).ready, hdead,
    fun h h' => hm.distinct h h' trivial trivial⟩
  rcases (hl.sits t).entry ht with hr | hd
  · exact hr.2
  · exact absurd hd.1 (hdead t ht)

theorem setIdle (hm : Mid (butHart h) dirty s l) : Mid allHarts dirty (s.setCurrent h 0) l := by
  refine hm.touch 0 (hm.listed.setCurrent _) (fun h' _ => ?_) (fun _ _ h => h) fun _ _ => rfl
  by_cases hh : h' = h
  · subst hh
    exact .inr (update_self _ _ _)
  · exact .inl ⟨hh, update_of_ne hh _ _⟩

/-- No other hart runs what runs here. -/
theorem elsewhere (hm : Mid allHarts dirty s l) (h0 : s.current h ≠ 0) :
    ∀ h', butHart h h' → s.current h' ≠ s.current h :=
  fun h' hne he => hne (hm.distinct h' h trivial trivial he (he ▸ h0))

end Mid

/-! ## Waking -/

theorem wake_mid (hm : Mid H dirty s l) (t : Nat) : ∃ l', Mid H dirty (s.wake t) l' := by
  rcases wake_cases s t with ⟨-, hwake⟩ | ⟨ht, hdead, hrunning, hready, hwake⟩
  · rw [hwake]
    exact ⟨l, hm⟩
  · rw [hwake]
    have hsame := roused_same s t
    generalize s.roused t = s₁ at hsame ⊢
    rw [← hsame.state] at hdead hready hrunning
    have hm1 := hm.same hsame
    -- a blocked thread is neither on the list nor running
    obtain ⟨hpush, hmid⟩ := hm1.push hready hdead (fun h hh he => hrunning (he ▸ hm1.running h hh (he ▸ ht))) true
      (fun c => { c with state := .ready, boosted := true }) rfl rfl rfl
    rw [hpush]
    exact ⟨_, hmid⟩

theorem push_current (s : Sched) (t : Nat) (boost : Bool) : (s.push t boost).1.current = s.current := by
  unfold Sched.push
  split_ifs
  · rfl
  · rfl
  · exact pushed_current s t boost

theorem wake_current (s : Sched) (t : Nat) : (s.wake t).current = s.current := by
  rcases wake_cases s t with ⟨-, hwake⟩ | ⟨-, -, -, -, hwake⟩
  · rw [hwake]
  · rw [hwake, push_current]
    exact (roused_same s t).current

theorem wakeAll_mid (ts : List Nat) (hm : Mid H dirty s l) : ∃ l', Mid H dirty (s.wakeAll ts) l' := by
  induction ts generalizing s l with
  | nil => exact ⟨l, hm⟩
  | cons t ts ih =>
    obtain ⟨l1, hl1⟩ := wake_mid hm t
    exact ih hl1

theorem wakeAll_current (ts : List Nat) (s : Sched) : (s.wakeAll ts).current = s.current := by
  induction ts generalizing s with
  | nil => rfl
  | cons t ts ih => exact (ih (s.wake t)).trans (wake_current s t)

theorem checkSleepers_mid (now fuel : Nat) (hm : Mid H dirty s l) :
    ∃ l', Mid H dirty (Sched.checkSleepers now fuel s) l' := by
  induction fuel generalizing s l with
  | zero => exact ⟨l, hm⟩
  | succ fuel ih =>
    rw [Sched.checkSleepers]
    split
    · obtain ⟨l1, hl1⟩ := wake_mid (hm.same (removeSleeper_same s s.sleepHead)) s.sleepHead
      exact ih hl1
    · exact ⟨l, hm⟩

theorem checkSleepers_current (now fuel : Nat) (s : Sched) :
    (Sched.checkSleepers now fuel s).current = s.current := by
  induction fuel generalizing s with
  | zero => rfl
  | succ fuel ih =>
    rw [Sched.checkSleepers]
    split
    · exact (ih _).trans ((wake_current _ _).trans (removeSleeper_same s s.sleepHead).current)
    · rfl

/-! ## Scheduling -/

/-- **The thread taken from the list becomes the current one of the hart.** -/
theorem Mid.dispatch {a b : List Nat} (hm : Mid (butHart h) False s (a ++ t :: b)) : Mid allHarts False
    (((s.unlinkReady t).modTask t fun c => { c with boosted := false, queued := false, state := .running }).setCurrent
      h t) (a ++ b) := by
  have hl := hm.listed
  have ht : t ∈ a ++ t :: b := by simp
  have hready := hl.ready_of_mem ht fun hd => (hl.more t).clean ht hd
  have hw := unlinkReady_weeded s t
  generalize hf : (fun c : Task => { c with boosted := false, queued := false, state := ThreadState.running }) = f
  have hlist : Listed (Placed False) ((s.unlinkReady t).modTask t f) (a ++ b) := by
    refine hl.unlink f fun c hc => ?_
    rw [← hf]
    exact ⟨rfl, .awake nofun nofun ((congrArg Mark.used hc).trans ((hl.more t).entry ht hready))⟩
  have hother : ∀ h', h' ≠ h → s.current h' ≠ 0 → s.current h' ≠ t := by
    intro h' hne h0 he
    have hrunning := hm.running h' hne h0
    rw [he, hready] at hrunning
    cases hrunning
  have hnew : ∀ h', (((s.unlinkReady t).modTask t f).setCurrent h t).current h' = if h' = h then t else s.current h' := by
    intro h'
    show update (s.unlinkReady t).current h t h' = _
    rw [hw.current, update_apply]
  refine ⟨hlist.setCurrent _, fun h' _ h0 => ?_, fun h₁ h₂ _ _ he h0 => ?_⟩
  · rw [hnew] at h0 ⊢
    rw [task_setCurrent]
    split_ifs at h0 ⊢ with hh
    · rw [task_modTask_self, ← hf]
    · rw [task_modTask_ne _ f (hother h' hh h0), hw.state]
      exact hm.running h' hh h0
  · rw [hnew] at he h0
    rw [hnew] at he
    split_ifs at he h0 with hh1 hh2 hh2
    · rw [hh1, hh2]
    · exact absurd he.symm (hother h₂ hh2 (he ▸ h0))
    · exact absurd he (hother h₁ hh1 h0)
    · exact hm.distinct h₁ h₂ hh1 hh2 he h0

/-- **The next thread is taken**: the list is clean again and every hart counts. -/
theorem takeNext_mid (hm : Mid (butHart h) dirty s l)
    (hcur : s.current h = 0 ∨ (s.task (s.current h)).state ≠ .running) :
    ∃ l', Mid allHarts False (s.takeNext h).1 l' := by
  obtain ⟨s₁, hl1, hw, hpop⟩ := hm.listed.pop_cases Placed.drop
  have hm1 : Mid (butHart h) False s₁ (live s l) := by
    refine hm.touch 0 { hl1 with more := fun t => { hl1.more t with clean := fun ht hd => ?_ } }
      (fun h' hh => .inl ⟨hh, congrFun hw.current h'⟩) (fun _ _ h => h) fun x _ => hw.state x
    exact (mem_live.mp ht).2 ((hw.state t).symm.trans hd)
  unfold Sched.takeNext
  rcases hpop with ⟨-, hpop⟩ | ⟨a, t, b, ht, -, hsplit, hpop⟩
  · rw [hpop]
    dsimp only
    have hnot : ¬ (s₁.current h ≠ 0 ∧ (s₁.task (s₁.current h)).state = .running) := by
      rw [hw.current, hw.state]
      exact fun hand => hcur.elim hand.1 fun hn => hn hand.2
    rw [if_pos rfl, if_neg hnot]
    exact ⟨_, hm1.setIdle⟩
  · rw [hpop]
    dsimp only
    rw [if_neg ht]
    have hdispatch := (hsplit ▸ hm1).dispatch
    rw [← modTask_modTask _ t (fun c => { c with boosted := false })
      fun c => { c with queued := false, state := .running }] at hdispatch
    exact ⟨_, hdispatch⟩

theorem schedule_gone (hm : Mid (butHart h) dirty s l)
    (hcur : s.current h = 0 ∨ (s.task (s.current h)).state ≠ .running) :
    ∃ l', Mid allHarts False (s.schedule h) l' := by
  unfold Sched.schedule Sched.yield
  rw [if_neg (by rintro ⟨h0, hr⟩; exact hcur.elim h0 fun hn => hn hr)]
  exact takeNext_mid hm hcur

theorem schedule_mid (hm : Mid allHarts False s l) : ∃ l', Mid allHarts False (s.schedule h) l' := by
  have hbut : Mid (butHart h) False s l := hm.weaken (fun _ _ => trivial) id
  by_cases h0 : s.current h = 0
  · exact schedule_gone hbut (.inl h0)
  have hrun := hm.running h trivial h0
  obtain ⟨hpush, hmid⟩ := hbut.push (by rw [hrun]; decide) (by rw [hrun]; decide) (hm.elsewhere h0) false
    (fun c => { c with state := .ready }) rfl rfl rfl
  unfold Sched.schedule Sched.yield
  rw [if_pos ⟨h0, hrun⟩, hpush]
  refine takeNext_mid hmid (.inr ?_)
  -- it is ready now, and still the hart's current thread
  rw [pushed_state, pushed_current]
  show ((s.modTask (s.current h) _).task (s.current h)).state ≠ _
  rw [task_modTask_self]
  exact nofun

theorem syscallExit_mid (hm : Mid allHarts False s l) (entering : Nat) :
    ∃ l', Mid allHarts False (s.syscallExit h entering) l' := by
  unfold Sched.syscallExit
  split
  · exact schedule_mid hm
  · exact ⟨l, hm⟩

theorem handlePreemption_mid (hm : Mid allHarts False s l) (user : Bool) :
    ∃ l', Mid allHarts False (s.handlePreemption h user) l' := by
  unfold Sched.handlePreemption
  split
  · exact ⟨l, hm⟩
  · exact schedule_mid hm

/-! ## Blocking -/

/-- The current thread of a hart leaves the ready and running states; the hart no longer counts. -/
theorem Mid.leave (hm : Mid allHarts dirty s l) (h0 : s.current h ≠ 0) (f : Task → Task)
    (hstate : (f (s.task (s.current h))).state ≠ .ready ∧ (f (s.task (s.current h))).state ≠ .dead)
    (hqueued : (f (s.task (s.current h))).queued = (s.task (s.current h)).queued)
    (hused : (f (s.task (s.current h))).used = (s.task (s.current h)).used) :
    Mid (butHart h) dirty (s.modTask (s.current h) f) l := by
  have hrun := hm.running h trivial h0
  have hready : (s.task (s.current h)).state ≠ .ready := by rw [hrun]; decide
  have hdead : (s.task (s.current h)).state ≠ .dead := by rw [hrun]; decide
  have hl := hm.listed
  have hout := hl.notMem_of_state hready hdead
  have hlist : Listed (Placed dirty) (s.modTask (s.current h) f) l :=
    hl.change h0 hout f (hqueued.trans (hl.not_queued hout)) (fun hge => absurd (hl.inside hdead).2 (by omega))
      (.awake hstate.1 hstate.2 (hused.trans (hm.used_of_state hready hdead)))
  exact hm.touch (s.current h) hlist (fun _ _ => .inl ⟨trivial, rfl⟩) (fun h' hne _ => hm.elsewhere h0 h' hne)
    fun x hx => by rw [task_modTask_ne s f hx]

theorem blockCurrent_mid (hm : Mid allHarts False s l) {state : ThreadState} (hs : state ≠ .ready)
    (hd : state ≠ .dead) : Mid allHarts False (s.blockCurrent h state) l := by
  unfold Sched.blockCurrent
  split_ifs with h0
  · exact hm
  · exact (hm.leave h0 _ ⟨hs, hd⟩ rfl rfl).setIdle

theorem block_mid (hm : Mid allHarts False s l) (h0 : s.current h ≠ 0) (wakes : List Nat) (wait : Wait) :
    ∃ l', Mid allHarts False (((s.wakeAll wakes).modTask (s.current h) fun c => { c with
      state := wait.state, boosted := false }).schedule h) l' := by
  obtain ⟨l1, hl1⟩ := wakeAll_mid wakes hm
  have hcur : (s.wakeAll wakes).current h = s.current h := congrFun (wakeAll_current wakes s) h
  have hwait : wait.state ≠ .ready ∧ wait.state ≠ .dead ∧ wait.state ≠ .running := by
    cases wait <;> decide
  have hleave := hl1.leave (h := h) (by rw [hcur]; exact h0)
    (fun c => { c with state := wait.state, boosted := false })
    ⟨hwait.1, hwait.2.1⟩ rfl rfl
  rw [← hcur]
  refine schedule_gone hleave (.inr ?_)
  show (((s.wakeAll wakes).modTask _ _).task ((s.wakeAll wakes).current h)).state ≠ _
  rw [task_modTask_self]
  exact hwait.2.2

theorem sleepUntil_mid (hm : Mid allHarts False s l) (deadline now : Nat) :
    ∃ l', Mid allHarts False (s.sleepUntil h deadline now) l' := by
  unfold Sched.sleepUntil
  split
  · exact ⟨l, hm⟩
  · have hset : SameQueue s (s.modTask (s.current h) fun c => { c with deadline := deadline }) :=
      .modTask _ _ fun _ => rfl
    obtain ⟨l1, hl1⟩ := checkSleepers_mid now threadBound (hm.same (hset.trans (insertSleeper_same _ _)))
    exact ⟨l1, blockCurrent_mid hl1 (by decide) (by decide)⟩

/-! ## New threads -/

theorem Mid.of_vacant (hm : Mid allHarts False s l) (hv : s.Vacant t) :
    t ≠ 0 ∧ t < threadBound ∧ t ∉ l ∧ ∀ h, s.current h ≠ t := by
  obtain ⟨h1, h2, hu⟩ := hv
  have hslots : maxThreadSlots < threadBound := by decide
  have hl := hm.listed
  refine ⟨by omega, by omega, fun ht => ?_, fun h he => ?_⟩
  · have hready := hl.ready_of_mem ht fun hd => (hl.more t).clean ht hd
    exact Bool.false_ne_true (hu.symm.trans ((hl.more t).entry ht hready))
  · have hrun := hm.running h trivial (by omega)
    rw [he] at hrun
    have hused := hm.used_of_state (t := t) (by rw [hrun]; decide) (by rw [hrun]; decide)
    exact Bool.false_ne_true (hu.symm.trans hused)

/-- A slot as `Initialize_Thread` leaves it, with its priority. -/
def Task.fresh (process : Nat) (priority : Int) (c : Task) : Task :=
  { c with
    state := .ready, queued := false, boosted := false, readyNext := 0, readyPrev := 0
    sleepNext := 0, sleepPrev := 0, priority := priority, process := process }

theorem createThread_eq (s : Sched) (t process : Nat) (priority : Int) (added : Bool) :
    s.createThread t process priority added = if added then
      (if t = 0 then (s.modTask t (Task.fresh process priority), .invalidTask)
        else (s.modTask t (Task.fresh process priority)).push t false).1.modTask t fun c => { c with used := true }
      else s.modTask t (Task.fresh process priority) := by
  unfold Sched.createThread Sched.initializeThread Sched.addTask
  rw [modTask_modTask]
  dsimp only
  rw [modTask_modTask]
  rfl

theorem createThread_mid (hm : Mid allHarts False s l) (hv : s.Vacant t) (process : Nat) (priority : Int)
    (added : Bool) : ∃ l', Mid allHarts False (s.createThread t process priority added) l' := by
  obtain ⟨ht, hb, hout, hcur⟩ := hm.of_vacant hv
  have hl := hm.listed
  rw [createThread_eq]
  cases added with
  | false =>
    -- the slot stays vacant, off the list
    rw [if_neg (by decide)]
    refine ⟨l, hm.touch t (hl.change ht hout _ rfl (fun h => absurd hb (by omega)) ?_) (fun _ _ => .inl ⟨trivial, rfl⟩)
      (fun h _ _ => hcur h) fun x hx => by rw [task_modTask_ne s _ hx]⟩
    exact ⟨fun h _ => absurd h hout, fun h => absurd h hout, fun h => absurd (hv.2.2.symm.trans h) (by decide),
      fun _ => .inl rfl⟩
  | true =>
    rw [if_pos rfl, if_neg ht, push_ok false ht]
    · have hcurrent : ((s.modTask t (Task.fresh process priority)).pushed t false).current = s.current :=
        pushed_current _ t false
      refine ⟨_, hm.touch t (hl.join ht hb hout false (Task.fresh process priority) _ rfl (fun _ => ⟨rfl, rfl, rfl, rfl⟩)
        fun c hc => .entered ?_ rfl) (fun h _ => .inl ⟨trivial, congrFun hcurrent h⟩) (fun h _ _ => ?_) fun x hx => ?_⟩
      · exact (congrArg Mark.state hc).trans_ne nofun
      · exact (congrFun hcurrent h).trans_ne (hcur h)
      · rw [task_modTask_ne _ _ hx, pushed_state, task_modTask_ne s _ hx]
    · rw [task_modTask_self]
      exact nofun
    · rw [task_modTask_self]
      rfl

/-! ## Dying threads -/

variable {caller : Nat}

/-- `Remove_Thread` of a thread whose flag is already cleared takes it from the harts, not from the
    list. -/
theorem removeThread_eq (ht : t ≠ 0) (hq : (s.task t).queued = false) : s.removeThread t =
    ({ s with current := fun h => if s.current h = t then 0 else s.current h } : Sched).removeSleeper t := by
  have hsame := removeSleeper_same { s with current := fun h => if s.current h = t then 0 else s.current h } t
  unfold Sched.removeThread
  rw [if_neg ht]
  refine if_neg ?_
  rw [hsame.queued, hq]
  decide

theorem removeThread_same (ht : t ≠ 0) (hq : (s.task t).queued = false) :
    SameQueue { s with current := fun h => if s.current h = t then 0 else s.current h } (s.removeThread t) := by
  rw [removeThread_eq ht hq]
  exact removeSleeper_same _ t

/-- The thread is marked dead, taken from the harts and its slot vacated. -/
def Sched.buried (s : Sched) (t : Nat) : Sched :=
  ((s.modTask t fun c => { c with state := .dead, queued := false }).removeThread t).modTask t fun c =>
    { c with used := false }

theorem buried_same (ht : t ≠ 0) (s : Sched) :
    SameQueue { s.modTask t fun c => { c with state := .dead, queued := false } with
      current := fun h => if s.current h = t then 0 else s.current h }
      ((s.modTask t fun c => { c with state := .dead, queued := false }).removeThread t) :=
  removeThread_same ht (by rw [task_modTask_self])

theorem buried_current (ht : t ≠ 0) (s : Sched) :
    (s.buried t).current = fun h => if s.current h = t then 0 else s.current h := (buried_same ht s).current

theorem Mid.buried (hm : Mid (butHart h) True s l) (ht : t ≠ 0) : Mid (butHart h) True (s.buried t) l := by
  have hdead := hm.listed.kill t (fun c => { c with state := .dead, queued := false }) rfl rfl rfl rfl
    (.dead rfl fun _ => trivial)
  have hsame := buried_same ht s
  have hmark : (((s.modTask t fun c => { c with state := .dead, queued := false }).removeThread t).task t).mark =
      ⟨.dead, false, (s.task t).used, (s.task t).boosted⟩ :=
    (hsame.mark t).trans (congrArg Task.mark
      (task_modTask_self s t fun c => { c with state := .dead, queued := false }))
  refine hm.touch t ((hsame.listed (hdead.setCurrent _)).kill t (fun c => { c with used := false }) rfl rfl
    (congrArg Mark.state hmark) (congrArg Mark.queued hmark) (.dead (congrArg Mark.state hmark) fun _ => trivial))
    (fun h' hh => ?_) (fun h' hh h0 he => ?_) fun x hx => ?_
  · rw [buried_current ht]
    dsimp only
    split_ifs with hc
    · exact .inr rfl
    · exact .inl ⟨hh, rfl⟩
  · rw [buried_current ht] at h0 he
    dsimp only at h0 he
    split_ifs at h0 he with hc
    · exact h0 rfl
    · exact hc he
  · rw [Sched.buried, task_modTask_ne _ _ hx, hsame.state]
    exact congrArg Task.state (task_modTask_ne s (fun c => { c with state := .dead, queued := false }) hx)

theorem Mid.kill_caller (hm : Mid (butHart h) True s l) (hcur : ∀ h', butHart h h' → s.current h' ≠ t) :
    Mid (butHart h) True ((s.modTask t fun c => { c with state := .dead, queued := false }).modTask t fun c =>
      { c with used := false }) l := by
  rw [modTask_modTask]
  exact hm.touch t (hm.listed.kill t _ rfl rfl rfl rfl (.dead rfl fun _ => trivial)) (fun h' hh => .inl ⟨hh, rfl⟩) (fun h' hh _ => hcur h' hh)
    fun x hx => by rw [task_modTask_ne s _ hx]

/-- While a process dies: the invariant without the caller's hart, and no other hart runs the caller. -/
def Dying (h caller : Nat) (s : Sched) : Prop :=
  (∃ l, Mid (butHart h) True s l) ∧ (∀ h', butHart h h' → s.current h' ≠ caller) ∧ s.current h = caller

section

variable (hd : Dying h caller s)

include hd

theorem Dying.wakeAll (ts : List Nat) :
    Dying h caller (s.wakeAll ts) := by
  obtain ⟨⟨l, hm⟩, hcur, hself⟩ := hd
  refine ⟨wakeAll_mid ts hm, fun h' hh' => ?_, ?_⟩
  · rw [wakeAll_current]
    exact hcur h' hh'
  · rw [wakeAll_current]
    exact hself

theorem Dying.killSibling (h0 : caller ≠ 0) (process : Nat) (teardown : Nat → List Nat) (ht : t ≠ 0) :
    Dying h caller (Sched.killSibling caller process teardown s t) := by
  unfold Sched.killSibling
  split
  · obtain ⟨⟨l, hm⟩, hcur, hself⟩ := hd.wakeAll (teardown t)
    simp only []
    by_cases htc : t = caller
    · subst htc
      rw [if_neg (fun hne => hne rfl)]
      exact ⟨⟨l, hm.kill_caller hcur⟩, hcur, hself⟩
    · rw [if_pos htc]
      have hcurrent := buried_current ht (s.wakeAll (teardown t))
      refine ⟨⟨l, hm.buried ht⟩, fun h' hh' => ?_, ?_⟩
      · show ((s.wakeAll (teardown t)).buried t).current h' ≠ caller
        rw [hcurrent]
        show (if _ then 0 else _) ≠ caller
        split
        · exact h0.symm
        · exact hcur h' hh'
      · show ((s.wakeAll (teardown t)).buried t).current h = caller
        rw [hcurrent]
        show (if _ then 0 else _) = caller
        rw [hself, if_neg fun he => htc he.symm]
  · exact hd

theorem Dying.killAll (h0 : caller ≠ 0) (process : Nat)
    (teardown : Nat → List Nat) (ts : List Nat) (hts : ∀ t ∈ ts, t ≠ 0) :
    Dying h caller (ts.foldl (Sched.killSibling caller process teardown) s) := by
  induction ts generalizing s with
  | nil => exact hd
  | cons t ts ih =>
    exact ih (hd.killSibling h0 process teardown (hts t mem_cons_self)) fun x hx => hts x (mem_cons_of_mem _ hx)

theorem Dying.markExited (h0 : caller ≠ 0) (teardown : Nat → List Nat) (cleanup : List Nat) :
    Dying h caller (s.markExited caller teardown cleanup) := by
  unfold Sched.markExited
  simp only []
  split
  · exact hd
  · refine (hd.killAll h0 _ teardown _ fun t ht => ?_).wakeAll cleanup
    have := mem_range'_1.mp ht
    omega

theorem Dying.exitCurrent (h0 : caller ≠ 0) :
    (∃ l, Mid (butHart h) True (s.exitCurrent h) l) ∧ (s.exitCurrent h).current h = 0 := by
  obtain ⟨⟨l, hm⟩, hcur, rfl⟩ := hd
  have hsame := removeSleeper_same s (s.current h)
  have hm1 := hm.same hsame
  unfold Sched.exitCurrent
  rw [if_neg h0]
  refine ⟨⟨l, hm1.touch (s.current h) ((hm1.listed.kill _ _ rfl rfl rfl rfl
    (.dead rfl fun _ => trivial)).setCurrent _) (fun h' hh => ?_)
    (fun h' hh _ => ?_) fun x hx => ?_⟩, update_self _ _ _⟩
  · exact .inl ⟨hh, update_of_ne hh _ _⟩
  · refine (update_of_ne hh _ _).trans_ne ?_
    rw [show ((s.removeSleeper (s.current h)).modTask _ _).current = s.current from hsame.current]
    exact hcur h' hh
  · rw [task_setCurrent, task_modTask_ne _ _ hx]

end

theorem exit_mid (hm : Mid allHarts False s l) (h0 : s.current h ≠ 0) (teardown : Nat → List Nat)
    (cleanup : List Nat) : ∃ l', Mid allHarts False
      (((s.markExited (s.current h) teardown cleanup).exitCurrent h).schedule h) l' := by
  have hstart : Dying h (s.current h) s :=
    ⟨⟨l, hm.weaken (fun _ _ => trivial) fun _ => trivial⟩,
      fun h' hne he => hne (hm.distinct h' h trivial trivial he (he ▸ h0)), rfl⟩
  obtain ⟨⟨l1, hm1⟩, hgone⟩ := (hstart.markExited h0 teardown cleanup).exitCurrent h0
  exact schedule_gone hm1 (.inl hgone)

theorem threadExit_mid (hm : Mid allHarts False s l) (h0 : s.current h ≠ 0) (cleanup teardown : List Nat) :
    ∃ l', Mid allHarts False ((s.threadExit (s.current h) cleanup teardown).schedule h) l' := by
  have hbut : Mid (butHart h) True s l := hm.weaken (fun _ _ => trivial) fun _ => trivial
  obtain ⟨l1, hm1⟩ := wakeAll_mid cleanup hbut
  obtain ⟨l2, hm2⟩ := wakeAll_mid teardown hm1
  have hcur : ((s.wakeAll cleanup).wakeAll teardown).current = s.current :=
    (wakeAll_current _ _).trans (wakeAll_current _ _)
  have hgone : (((s.wakeAll cleanup).wakeAll teardown).buried (s.current h)).current h = 0 := by
    rw [buried_current h0, hcur]
    exact if_pos rfl
  exact schedule_gone (hm2.buried h0) (.inl hgone)

/-! ## Every trap -/

theorem mid_ite {p : Prop} [Decidable p] (hm : Mid allHarts False s l)
    (hs' : ¬ p → ∃ l', Mid allHarts False s' l') : ∃ l', Mid allHarts False (if p then s else s') l' := by
  split
  · exact ⟨l, hm⟩
  · exact hs' ‹_›

/-- **One trap keeps the run queue.** -/
theorem trap_mid (hm : Mid allHarts False s l) (trap : Trap) : ∃ l', Mid allHarts False (s.trap trap) l' := by
  cases trap with
  | yield h => exact schedule_mid hm
  | call h wakes =>
    refine mid_ite hm fun _ => ?_
    obtain ⟨l1, hl1⟩ := wakeAll_mid wakes hm
    exact syscallExit_mid hl1 _
  | complete h wakes => exact mid_ite hm fun _ => wakeAll_mid wakes hm
  | block h wakes wait => exact mid_ite hm fun h0 => block_mid hm h0 wakes wait
  | setPriority h t priority =>
    refine mid_ite hm fun _ => ?_
    have hsame : SameQueue s (s.modTask t fun c => { c with priority := priority }) :=
      .modTask _ _ fun _ => rfl
    exact syscallExit_mid (hm.same hsame) _
  | create h t process priority wakes added =>
    refine mid_ite hm fun _ => ?_
    split
    · rename_i hv
      obtain ⟨l1, hl1⟩ := createThread_mid hm hv process priority added
      obtain ⟨l2, hl2⟩ := wakeAll_mid wakes hl1
      exact syscallExit_mid hl2 _
    · exact ⟨l, hm⟩
  | threadWait h blocks =>
    refine mid_ite hm fun _ => ?_
    cases blocks with
    | true => exact schedule_mid (blockCurrent_mid hm (by decide) (by decide))
    | false => exact schedule_mid hm
  | sleepUntil h deadline time now =>
    refine mid_ite hm fun _ => ?_
    obtain ⟨l1, hl1⟩ := sleepUntil_mid hm deadline now
    exact schedule_mid hl1
  | threadExit h cleanup teardown =>
    exact mid_ite hm fun hcond => threadExit_mid hm (fun h0 => hcond (.inl h0)) cleanup teardown
  | exit h teardown cleanup => exact mid_ite hm fun h0 => exit_mid hm h0 teardown cleanup
  | timer h now user =>
    obtain ⟨l1, hl1⟩ := checkSleepers_mid now threadBound hm
    exact handlePreemption_mid hl1 user
  | external h wakes uniprocessor user =>
    obtain ⟨l1, hl1⟩ := wakeAll_mid wakes hm
    simp only [Sched.trap]
    split
    · exact handlePreemption_mid hl1 user
    · exact ⟨l1, hl1⟩
  | software h user =>
    simp only [Sched.trap]
    split
    · exact handlePreemption_mid hm user
    · exact ⟨l, hm⟩
  | idle h wakes now =>
    refine mid_ite hm fun _ => ?_
    obtain ⟨l1, hl1⟩ := schedule_mid (h := h) hm
    refine mid_ite hl1 fun _ => ?_
    obtain ⟨l2, hl2⟩ := wakeAll_mid wakes hl1
    exact checkSleepers_mid now threadBound hl2

theorem boot_mid : Mid allHarts False bootSched [] := by
  have hslots : maxThreadSlots < threadBound := by decide
  have hinit : initThread ≠ 0 ∧ initThread < threadBound := by decide
  have hzero : ∀ h, bootSched.current h ≠ 0 → h = 0 := by
    intro h h0
    by_contra hne
    exact h0 (if_neg hne)
  refine ⟨⟨⟨rfl, rfl⟩, nodup_cons.mpr ⟨not_mem_nil, nodup_nil⟩, fun t ht => absurd ht not_mem_nil, rfl, fun t => ?_,
    fun t => ?_⟩, fun h _ h0 => ?_, fun h h' _ _ he h0 => ?_⟩
  · refine .off rfl (fun ht => ?_) not_mem_nil
    show (if t = initThread then _ else _) = _
    rw [if_neg (by omega), if_neg (by omega)]
  · by_cases ht : t = initThread
    · subst ht
      exact .awake (by decide) (by decide) rfl
    · refine ⟨fun h => absurd h not_mem_nil, fun h => absurd h not_mem_nil,
        fun hu => absurd (of_decide_eq_true hu) ht, fun _ => ?_⟩
      show (if t = initThread then _ else _) = _ ∨ (if t = initThread then _ else _) = _
      rw [if_neg ht]
      split
      · exact .inl rfl
      · exact .inr rfl
  · rw [hzero h h0]
    decide
  · rw [hzero h h0, hzero h' (he ▸ h0)]

/-- **Run queue integrity.**  After any sequence of traps on any harts the ready list is a well-formed
    doubly linked list of `Ready_N` threads, it holds exactly the threads whose `Queued` flag is set,
    every used ready thread and no dead one, and no thread is current on two harts. -/
theorem run_queue_integrity (traps : List Trap) : Integrity (bootSched.runTraps traps) := by
  have hrun : ∀ (s : Sched) (l : List Nat), Mid allHarts False s l →
      ∃ l', Mid allHarts False (s.runTraps traps) l' := by
    induction traps with
    | nil => exact fun s l hm => ⟨l, hm⟩
    | cons trap traps ih =>
      intro s l hm
      obtain ⟨l₁, hl₁⟩ := trap_mid hm trap
      exact ih _ l₁ hl₁
  obtain ⟨l, hl⟩ := hrun bootSched [] boot_mid
  exact hl.integrity

end Aegir.Scheduler
