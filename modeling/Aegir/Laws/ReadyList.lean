/-
  The ready list, operation by operation.

  `Listed R s l` says that the ready list is `l`: a ring of distinct threads, of which each thread knows whether it
  is on it (`Sits`).  `R` is what a proof asks beyond that of every thread and its place.  An operation moves ONE
  thread, so that the invariant is kept when that thread sits where it should (`Listed.touch`).  Head and tail are
  the fields of a sentinel (thread 0).
-/
import Aegir.Traps.Scheduling
import Aegir.Lib.Ring
import Mathlib.Data.Finset.Card
import Mathlib.Data.Finset.Range

namespace Aegir.Scheduler

open Aegir.Lib List Function
open Aegir.Kernel (ThreadState maxThreadSlots threadBound initThread initProcess)

namespace Sched

def nextOf (s : Sched) (t : Nat) : Nat := if t = 0 then s.readyHead else (s.task t).readyNext

def prevOf (s : Sched) (t : Nat) : Nat := if t = 0 then s.readyTail else (s.task t).readyPrev

/-- The fields that the links do not touch. -/
def rest (s : Sched) : Nat × (Nat → Nat) × Nat := (s.readyN, s.current, s.sleepHead)

end Sched

/-- **The run queue between traps.** -/
def Integrity (s : Sched) : Prop :=
  ∃ l : List Nat, Links s.nextOf s.prevOf 0 l 0 ∧ (0 :: l).Nodup ∧ s.readyN = l.length ∧
    (∀ t, t ∈ l ↔ (s.task t).queued = true) ∧
    (∀ t, (s.task t).used = true → (s.task t).state = .ready → t ∈ l) ∧
    (∀ t ∈ l, (s.task t).state ≠ .dead) ∧
    (∀ h h', s.current h = s.current h' → s.current h ≠ 0 → h = h')

/-! ## Threads and their places -/

/-- What the ready list asks of a thread. -/
structure Mark where
  state : ThreadState
  queued : Bool
  used : Bool
  boosted : Bool

namespace Task

def mark (c : Task) : Mark := ⟨c.state, c.queued, c.used, c.boosted⟩

/-- A task without its links in the ready list. -/
def bare (c : Task) : Task := { c with readyNext := 0, readyPrev := 0 }

/-- A task apart from the ready list. -/
def self (c : Task) : Task := { c.bare with queued := false }

end Task

/-- An entry is a ready thread, or a dead one that waits for the next `Pop`; who is queued is on the list. -/
structure Sits (listed : Prop) (t : Nat) (m : Mark) : Prop where
  entry : listed → (m.state = .ready ∧ m.queued = true) ∨ (m.state = .dead ∧ m.queued = false)
  queued : m.queued = true → listed
  outside : t = 0 ∨ threadBound ≤ t → m.state = .dead

/-- **The ready list is `l`.** -/
structure Listed (R : Prop → Mark → Prop) (s : Sched) (l : List Nat) : Prop where
  links : Links s.nextOf s.prevOf 0 l 0
  nodup : (0 :: l).Nodup
  bound : ∀ t ∈ l, t < threadBound
  count : s.readyN = l.length
  sits : ∀ t, Sits (t ∈ l) t (s.task t).mark
  more : ∀ t, R (t ∈ l) (s.task t).mark

variable {R R' : Prop → Mark → Prop} {s s' : Sched} {a b l l' : List Nat} {t x h : Nat}

theorem length_lt_bound {l : List Nat} (hnd : (0 :: l).Nodup) (hb : ∀ t ∈ l, t < threadBound) :
    l.length < threadBound := by
  have hcard : ((0 :: l).toFinset).card = l.length + 1 := toFinset_card_of_nodup hnd
  have hsub : (0 :: l).toFinset ⊆ Finset.range threadBound := by
    intro x hx
    rw [mem_toFinset, mem_cons] at hx
    rw [Finset.mem_range]
    rcases hx with rfl | hx
    · decide
    · exact hb x hx
  have hle := Finset.card_le_card hsub
  rw [hcard, Finset.card_range] at hle
  omega

theorem mem_middle (hx : x ≠ t) : x ∈ a ++ b ↔ x ∈ a ++ t :: b := by
  simp [hx]

theorem nodup_middle (hnd : (0 :: (a ++ t :: b)).Nodup) : (0 :: (a ++ b)).Nodup ∧ t ∉ a ++ b := by
  have hsub : (a ++ b).Sublist (a ++ t :: b) := List.Sublist.append_left (sublist_cons_self t b) a
  refine ⟨hnd.sublist (cons_sublist_cons.mpr hsub), ?_⟩
  rw [nodup_cons, List.nodup_middle, nodup_cons] at hnd
  exact hnd.2.1

namespace Listed

section

variable (hl : Listed R s l)

include hl

theorem zero_notMem : 0 ∉ l := (nodup_cons.mp hl.nodup).1

theorem ne_zero (ht : t ∈ l) : t ≠ 0 := by
  rintro rfl
  exact hl.zero_notMem ht

theorem length_lt : l.length < threadBound := length_lt_bound hl.nodup hl.bound

theorem head : s.readyHead = l.headD 0 := hl.links.next_eq

theorem notMem_of_state (hr : (s.task t).state ≠ .ready) (hd : (s.task t).state ≠ .dead) : t ∉ l := by
  intro ht
  rcases (hl.sits t).entry ht with h | h
  · exact hr h.1
  · exact hd h.1

theorem inside (hd : (s.task t).state ≠ .dead) : t ≠ 0 ∧ t < threadBound := by
  constructor
  · exact fun h0 => hd ((hl.sits t).outside (.inl h0))
  · by_contra hge
    exact hd ((hl.sits t).outside (.inr (by omega)))

theorem not_queued (ht : t ∉ l) : (s.task t).queued = false := by
  rw [← Bool.not_eq_true]
  exact fun h => ht ((hl.sits t).queued h)

theorem dead_unqueued (hd : (s.task t).state = .dead) : (s.task t).queued = false := by
  rw [← Bool.not_eq_true]
  intro hq
  have hd' : (s.task t).mark.state = .dead := hd
  have hq' : (s.task t).mark.queued = true := hq
  rcases (hl.sits t).entry ((hl.sits t).queued hq) with h | h
  · exact absurd (hd'.symm.trans h.1) (by decide)
  · exact absurd (hq'.symm.trans h.2) (by decide)

theorem ready_of_mem (ht : t ∈ l) (hd : (s.task t).state ≠ .dead) : (s.task t).state = .ready := by
  rcases (hl.sits t).entry ht with h | h
  · exact h.1
  · exact absurd h.1 hd

/-- The entry behind a member. -/
theorem next_eq (hsplit : l = a ++ t :: b) : (s.task t).readyNext = b.headD 0 := by
  subst hsplit
  have hn : s.nextOf t = (s.task t).readyNext := if_neg (hl.ne_zero (by simp))
  rw [← hn, (Links.append_iff.mp hl.links).2.next_eq]

theorem weaken (hR : ∀ p m, R p m → R' p m) : Listed R' s l := { hl with more := fun t => hR _ _ (hl.more t) }

/-- **One thread moves**: the others are as they were, and it sits where it should. -/
theorem touch (t : Nat) (hlinks : Links s'.nextOf s'.prevOf 0 l' 0) (hnd : (0 :: l').Nodup)
    (hb : ∀ x ∈ l', x < threadBound) (hcount : s'.readyN = l'.length) (hmem : ∀ x, x ≠ t → (x ∈ l' ↔ x ∈ l))
    (hmark : ∀ x, x ≠ t → (s'.task x).mark = (s.task x).mark) (hsits : Sits (t ∈ l') t (s'.task t).mark)
    (hmore : R (t ∈ l') (s'.task t).mark) : Listed R s' l' := by
  have hall : ∀ x, Sits (x ∈ l') x (s'.task x).mark ∧ R (x ∈ l') (s'.task x).mark := by
    intro x
    by_cases hx : x = t
    · subst hx
      exact ⟨hsits, hmore⟩
    · rw [hmark x hx, propext (hmem x hx)]
      exact ⟨hl.sits x, hl.more x⟩
  exact ⟨hlinks, hnd, hb, hcount, fun x => (hall x).1, fun x => (hall x).2⟩

theorem setCurrent (current : Nat → Nat) : Listed R { s with current := current } l :=
  ⟨hl.links, hl.nodup, hl.bound, hl.count, hl.sits, hl.more⟩

end

end Listed

theorem Sits.off {m : Mark} (hq : m.queued = false) (hin : t = 0 ∨ threadBound ≤ t → m.state = .dead)
    {listed : Prop} (hout : ¬ listed) : Sits listed t m := by
  refine ⟨fun h => absurd h hout, fun h => ?_, hin⟩
  rw [hq] at h
  cases h

/-! ## Steps that leave the ready list alone -/

/-- The fields of a task the ready list depends on. -/
def core (c : Task) : Mark × Nat × Nat := (c.mark, c.readyNext, c.readyPrev)

/-- The two states agree on all that concerns the ready list. -/
structure SameQueue (s s' : Sched) : Prop where
  head : s'.readyHead = s.readyHead
  tail : s'.readyTail = s.readyTail
  count : s'.readyN = s.readyN
  current : s'.current = s.current
  core : ∀ t, core (s'.task t) = core (s.task t)

section

variable (s : Sched)

theorem task_modTask (t : Nat) (f : Task → Task) (x : Nat) :
    (s.modTask t f).task x = if x = t then f (s.task t) else s.task x := by
  show update s.task t (f (s.task t)) x = _
  rw [update_apply]

@[simp] theorem task_modTask_self (t : Nat) (f : Task → Task) : (s.modTask t f).task t = f (s.task t) :=
  update_self _ _ _

theorem task_modTask_ne (f : Task → Task) (hx : x ≠ t) : (s.modTask t f).task x = s.task x :=
  update_of_ne hx _ _

theorem task_setCurrent (h t : Nat) : (s.setCurrent h t).task = s.task := rfl

theorem modTask_id (t : Nat) : s.modTask t id = s := by
  unfold Sched.modTask
  rw [id, update_eq_self]

theorem modTask_modTask (t : Nat) (f g : Task → Task) :
    (s.modTask t f).modTask t g = s.modTask t fun c => g (f c) := by
  simp [Sched.modTask]

end

/-- A view of the tasks is the same everywhere. -/
def Keeps {β : Type} (view : Task → β) (s s' : Sched) : Prop := ∀ x, view (s'.task x) = view (s.task x)

section Views

variable {β : Type} {view : Task → β}

theorem Keeps.refl (s : Sched) : Keeps view s s := fun _ => rfl

theorem Keeps.trans {s₁ s₂ s₃ : Sched} (h : Keeps view s₁ s₂) (h' : Keeps view s₂ s₃) : Keeps view s₁ s₃ :=
  fun x => (h' x).trans (h x)

theorem Keeps.modTask (s : Sched) (t : Nat) {f : Task → Task} (hf : ∀ c, view (f c) = view c) :
    Keeps view s (s.modTask t f) := by
  intro x
  rw [task_modTask]
  split_ifs with e
  · rw [hf, e]
  · rfl

end Views

namespace SameQueue

theorem refl (s : Sched) : SameQueue s s := ⟨rfl, rfl, rfl, rfl, fun _ => rfl⟩

theorem trans {s₁ s₂ s₃ : Sched} (h : SameQueue s₁ s₂) (h' : SameQueue s₂ s₃) : SameQueue s₁ s₃ :=
  ⟨h'.head.trans h.head, h'.tail.trans h.tail, h'.count.trans h.count, h'.current.trans h.current,
    fun t => (h'.core t).trans (h.core t)⟩

theorem modTask (s : Sched) (t : Nat) {f : Task → Task} (hf : ∀ c, Scheduler.core (f c) = Scheduler.core c) :
    SameQueue s (s.modTask t f) := ⟨rfl, rfl, rfl, rfl, Keeps.modTask s t hf⟩

section

variable (hs : SameQueue s s')

include hs

theorem mark (t : Nat) : (s'.task t).mark = (s.task t).mark := congrArg Prod.fst (hs.core t)

theorem state (t : Nat) : (s'.task t).state = (s.task t).state := congrArg Mark.state (hs.mark t)

theorem queued (t : Nat) : (s'.task t).queued = (s.task t).queued := congrArg Mark.queued (hs.mark t)

theorem boosted (t : Nat) : (s'.task t).boosted = (s.task t).boosted := congrArg Mark.boosted (hs.mark t)

theorem nextOf : s'.nextOf = s.nextOf := by
  funext t
  have hc : (s'.task t).readyNext = (s.task t).readyNext := congrArg (fun p => p.2.1) (hs.core t)
  unfold Sched.nextOf
  rw [hs.head, hc]

theorem prevOf : s'.prevOf = s.prevOf := by
  funext t
  have hc : (s'.task t).readyPrev = (s.task t).readyPrev := congrArg (fun p => p.2.2) (hs.core t)
  unfold Sched.prevOf
  rw [hs.tail, hc]

theorem listed (hl : Listed R s l) : Listed R s' l := by
  refine ⟨?_, hl.nodup, hl.bound, hs.count.trans hl.count, fun t => ?_, fun t => ?_⟩
  · rw [hs.nextOf, hs.prevOf]
    exact hl.links
  · rw [hs.mark]
    exact hl.sits t
  · rw [hs.mark]
    exact hl.more t

end

theorem setSleepHead (s : Sched) (t : Nat) : SameQueue s { s with sleepHead := t } :=
  ⟨rfl, rfl, rfl, rfl, fun _ => rfl⟩

end SameQueue

/-- `P` is kept by the stores of the sleep list: the sleep links of a task, and the head. -/
structure SleepRule (P : Sched → Prop) : Prop where
  links : ∀ s t (n p : Task → Nat), P s → P (s.modTask t fun c => { c with sleepNext := n c, sleepPrev := p c })
  head : ∀ s t, P s → P { s with sleepHead := t }

theorem SleepRule.remove {P : Sched → Prop} (hP : SleepRule P) (hs : P s) (t fuel prev cur : Nat) :
    P (s.removeSleeperAt t fuel prev cur) := by
  induction fuel generalizing prev cur with
  | zero => exact hs
  | succ fuel ih =>
    rw [Sched.removeSleeperAt]
    split
    · exact hs
    · split
      · refine hP.links _ _ _ _ ?_
        have h1 : P (if prev ≠ 0 then s.modTask prev fun c => { c with sleepNext := (s.task cur).sleepNext }
            else { s with sleepHead := (s.task cur).sleepNext }) := by
          split
          · exact hP.links _ _ _ _ hs
          · exact hP.head _ _ hs
        split
        · exact hP.links _ _ _ _ h1
        · exact h1
      · exact ih _ _

theorem SleepRule.insert {P : Sched → Prop} (hP : SleepRule P) (hs : P s) : P (s.insertSleeper t) := by
  unfold Sched.insertSleeper
  generalize s.sleepPlace (s.task t).deadline threadBound 0 s.sleepHead = place
  obtain ⟨prev, cur⟩ := place
  have h1 : P (s.modTask t fun c => { c with sleepPrev := prev, sleepNext := cur }) := hP.links _ _ _ _ hs
  dsimp only
  generalize s.modTask t _ = s₁ at h1 ⊢
  have h2 : P (if prev ≠ 0 then s₁.modTask prev fun c => { c with sleepNext := t } else { s₁ with sleepHead := t }) := by
    split
    · exact hP.links _ _ _ _ h1
    · exact hP.head _ _ h1
  split
  · exact hP.links _ _ _ _ h2
  · exact h2

/-- A task without its links in the sleep list. -/
def Task.sleepless (c : Task) : Task := { c with sleepNext := 0, sleepPrev := 0 }

theorem SameQueue.sleepRule (s : Sched) : SleepRule fun s' => SameQueue s s' ∧ Keeps Task.sleepless s s' :=
  ⟨fun _ _ _ _ h => ⟨h.1.trans (.modTask _ _ fun _ => rfl), h.2.trans (.modTask _ _ fun _ => rfl)⟩,
    fun _ t h => ⟨h.1.trans (.setSleepHead _ t), h.2⟩⟩

theorem removeSleeper_same (s : Sched) (t : Nat) : SameQueue s (s.removeSleeper t) :=
  ((SameQueue.sleepRule s).remove ⟨.refl s, .refl s⟩ _ _ _ _).1

theorem removeSleeper_keeps (s : Sched) (t : Nat) : Keeps Task.sleepless s (s.removeSleeper t) :=
  ((SameQueue.sleepRule s).remove ⟨.refl s, .refl s⟩ _ _ _ _).2

theorem insertSleeper_same (s : Sched) (t : Nat) : SameQueue s (s.insertSleeper t) :=
  ((SameQueue.sleepRule s).insert ⟨.refl s, .refl s⟩).1

theorem insertSleeper_keeps (s : Sched) (t : Nat) : Keeps Task.sleepless s (s.insertSleeper t) :=
  ((SameQueue.sleepRule s).insert ⟨.refl s, .refl s⟩).2

/-! ## What the links leave alone -/

theorem setNext_bare (s : Sched) (p n : Nat) : Keeps Task.bare s (s.setNext p n) ∧ (s.setNext p n).rest = s.rest := by
  unfold Sched.setNext
  split
  · exact ⟨.modTask _ _ fun _ => rfl, rfl⟩
  · exact ⟨.refl s, rfl⟩

theorem setPrev_bare (s : Sched) (n p : Nat) : Keeps Task.bare s (s.setPrev n p) ∧ (s.setPrev n p).rest = s.rest := by
  unfold Sched.setPrev
  split
  · exact ⟨.modTask _ _ fun _ => rfl, rfl⟩
  · exact ⟨.refl s, rfl⟩

/-- The neighbours of a thread point past it. -/
def Sched.bypass (s : Sched) (t : Nat) : Sched :=
  (s.setNext (s.task t).readyPrev (s.task t).readyNext).setPrev (s.task t).readyNext (s.task t).readyPrev

theorem bypass_bare (s : Sched) (t : Nat) : Keeps Task.bare s (s.bypass t) ∧ (s.bypass t).rest = s.rest :=
  ⟨(setNext_bare _ _ _).1.trans (setPrev_bare _ _ _).1, (setPrev_bare _ _ _).2.trans (setNext_bare _ _ _).2⟩

/-- **`Unlink_Ready`** takes the flag of its thread. -/
theorem unlinkReady_bare (s : Sched) (t x : Nat) : ((s.unlinkReady t).task x).bare =
    (if x = t then { s.task t with queued := false } else s.task x).bare := by
  have hlinks := (bypass_bare s t).1
  have htask := task_modTask (s.bypass t) t (fun c => { c with readyNext := 0, readyPrev := 0, queued := false }) x
  refine (congrArg Task.bare htask).trans ?_
  split_ifs with hx
  · exact congrArg (fun c : Task => { c with queued := false }) (hlinks t)
  · exact hlinks x

theorem unlinkReady_rest (s : Sched) (t : Nat) : (s.unlinkReady t).rest = (s.readyN - 1, s.current, s.sleepHead) :=
  congrArg (fun r : Nat × (Nat → Nat) × Nat => (r.1 - 1, r.2)) (bypass_bare s t).2

theorem insertReady_bare (s : Sched) (t : Nat) (boost : Bool) :
    Keeps Task.bare s (s.insertReady t boost) ∧ (s.insertReady t boost).rest = s.rest := by
  cases boost with
  | true =>
    have hset : Keeps Task.bare s (s.modTask t fun c => { c with readyPrev := 0, readyNext := s.readyHead }) :=
      .modTask _ _ fun _ => rfl
    exact ⟨hset.trans (setPrev_bare _ s.readyHead t).1, (setPrev_bare _ s.readyHead t).2⟩
  | false =>
    have hset : Keeps Task.bare s (s.modTask t fun c => { c with readyNext := 0, readyPrev := s.readyTail }) :=
      .modTask _ _ fun _ => rfl
    exact ⟨hset.trans (setNext_bare _ s.readyTail t).1, (setNext_bare _ s.readyTail t).2⟩

/-- The state after a `Push` that links the thread in. -/
def Sched.pushed (s : Sched) (t : Nat) (boost : Bool) : Sched :=
  let s₁ := (s.insertReady t boost).modTask t fun c => { c with queued := true }
  { s₁ with readyN := s₁.readyN + 1 }

section

variable (s : Sched)

/-- **`Push`** sets the flag of its thread. -/
theorem pushed_bare (t : Nat) (boost : Bool) (x : Nat) : ((s.pushed t boost).task x).bare =
    (if x = t then { s.task t with queued := true } else s.task x).bare := by
  have hlinks := (insertReady_bare s t boost).1
  have htask := task_modTask (s.insertReady t boost) t (fun c => { c with queued := true }) x
  refine (congrArg Task.bare htask).trans ?_
  split_ifs with hx
  · exact congrArg (fun c : Task => { c with queued := true }) (hlinks t)
  · exact hlinks x

theorem pushed_rest (t : Nat) (boost : Bool) :
    (s.pushed t boost).rest = (s.readyN + 1, s.current, s.sleepHead) :=
  congrArg (fun r : Nat × (Nat → Nat) × Nat => (r.1 + 1, r.2)) (insertReady_bare s t boost).2

theorem pushed_self (t : Nat) (boost : Bool) : Keeps Task.self s (s.pushed t boost) := by
  intro x
  refine (congrArg (fun c : Task => { c with queued := false }) (pushed_bare s t boost x)).trans ?_
  split_ifs with hx
  · rw [hx]
    rfl
  · rfl

theorem pushed_mark (t : Nat) (boost : Bool) (x : Nat) : ((s.pushed t boost).task x).mark =
    (if x = t then { s.task t with queued := true } else s.task x).mark :=
  (congrArg Task.mark (pushed_bare s t boost x) :)

theorem pushed_state (t : Nat) (boost : Bool) (x : Nat) :
    ((s.pushed t boost).task x).state = (s.task x).state := (congrArg Task.state (pushed_self s t boost x) :)

theorem pushed_current (t : Nat) (boost : Bool) : (s.pushed t boost).current = s.current :=
  congrArg (fun r => r.2.1) (pushed_rest s t boost)

end

theorem push_ok (boost : Bool) (ht : t ≠ 0) (hd : (s.task t).state ≠ .dead)
    (hq : (s.task t).queued = false) : s.push t boost = (s.pushed t boost, .ok) := by
  unfold Sched.push
  rw [if_neg (by simp [ht, hd]), if_neg (by simp [hq])]
  rfl

/-- A thread that sleeps leaves the sleep list. -/
def Sched.roused (s : Sched) (t : Nat) : Sched :=
  if (s.task t).state = .blockedSleeping then s.removeSleeper t else s

theorem roused_same (s : Sched) (t : Nat) : SameQueue s (s.roused t) := by
  unfold Sched.roused
  split_ifs
  · exact removeSleeper_same s t
  · exact .refl s

/-- **What `Wake` does**: nothing, or a blocked thread leaves the sleep list, is boosted and pushed. -/
theorem wake_cases (s : Sched) (t : Nat) :
    ((t ≠ 0 → (s.task t).state ≠ .blockedSleeping) ∧ s.wake t = s) ∨ (t ≠ 0 ∧ (s.task t).state ≠ .dead ∧
    (s.task t).state ≠ .running ∧ (s.task t).state ≠ .ready ∧ s.wake t =
      (((s.roused t).modTask t fun c => { c with state := .ready, boosted := true }).push t true).1) := by
  unfold Sched.wake Sched.roused
  by_cases ht : t = 0
  · exact .inl ⟨fun h0 => absurd ht h0, if_pos ht⟩
  · rw [if_neg ht]
    cases (s.task t).state with
    | dead => exact .inl ⟨fun _ => by decide, rfl⟩
    | running => exact .inl ⟨fun _ => by decide, rfl⟩
    | ready => exact .inl ⟨fun _ => by decide, rfl⟩
    | _ => exact .inr ⟨ht, by decide, by decide, by decide, rfl⟩

/-! ## The links -/

section

variable (s : Sched)

theorem nextOf_setNext (p n : Nat) : (s.setNext p n).nextOf = update s.nextOf p n := by
  funext x
  unfold Sched.setNext Sched.nextOf
  by_cases hp : p = 0
  · subst hp
    by_cases hx : x = 0 <;> simp [hx]
  · by_cases hx : x = 0
    · simp [hp, hx, Sched.modTask, Ne.symm hp]
    · by_cases hxp : x = p <;> simp [hp, hx, hxp, task_modTask]

theorem prevOf_setNext (p n : Nat) : (s.setNext p n).prevOf = s.prevOf := by
  funext x
  unfold Sched.setNext Sched.prevOf
  by_cases hp : p = 0
  · simp [hp]
  · by_cases hx : x = 0
    · simp [hp, hx, Sched.modTask]
    · by_cases hxp : x = p <;> simp [hp, hx, hxp, task_modTask]

theorem prevOf_setPrev (n p : Nat) : (s.setPrev n p).prevOf = update s.prevOf n p := by
  funext x
  unfold Sched.setPrev Sched.prevOf
  by_cases hp : n = 0
  · subst hp
    by_cases hx : x = 0 <;> simp [hx]
  · by_cases hx : x = 0
    · simp [hp, hx, Sched.modTask, Ne.symm hp]
    · by_cases hxp : x = n <;> simp [hp, hx, hxp, task_modTask]

theorem nextOf_setPrev (n p : Nat) : (s.setPrev n p).nextOf = s.nextOf := by
  funext x
  unfold Sched.setPrev Sched.nextOf
  by_cases hp : n = 0
  · simp [hp]
  · by_cases hx : x = 0
    · simp [hp, hx, Sched.modTask]
    · by_cases hxp : x = n <;> simp [hp, hx, hxp, task_modTask]

theorem nextOf_modTask {t : Nat} (ht : t ≠ 0) (f : Task → Task) :
    (s.modTask t f).nextOf = update s.nextOf t (f (s.task t)).readyNext := by
  funext x
  unfold Sched.nextOf
  by_cases hx : x = 0
  · simp [hx, Ne.symm ht, Sched.modTask]
  · by_cases hxt : x = t <;> simp [hxt, ht, hx, task_modTask]

theorem prevOf_modTask {t : Nat} (ht : t ≠ 0) (f : Task → Task) :
    (s.modTask t f).prevOf = update s.prevOf t (f (s.task t)).readyPrev := by
  funext x
  unfold Sched.prevOf
  by_cases hx : x = 0
  · simp [hx, Ne.symm ht, Sched.modTask]
  · by_cases hxt : x = t <;> simp [hxt, ht, hx, task_modTask]

end

theorem links_modTask (hl : Links s.nextOf s.prevOf 0 l 0) (t : Nat) {f : Task → Task}
    (hn : (f (s.task t)).readyNext = (s.task t).readyNext) (hp : (f (s.task t)).readyPrev = (s.task t).readyPrev) :
    Links (s.modTask t f).nextOf (s.modTask t f).prevOf 0 l 0 := by
  refine hl.congr (fun x _ => ?_) (fun x _ => ?_)
  · unfold Sched.nextOf
    rw [task_modTask]
    split_ifs with h0 hx
    · rfl
    · rw [hx, hn]
    · rfl
  · unfold Sched.prevOf
    rw [task_modTask]
    split_ifs with h0 hx
    · rfl
    · rw [hx, hp]
    · rfl

/-- Fields of a thread off the list do not matter. -/
theorem Links.off_list {next prev : Nat → Nat} (hl : Links next prev 0 l 0) (ht : t ≠ 0) (hout : t ∉ l) (n p : Nat) :
    Links (update next t n) (update prev t p) 0 l 0 := by
  have hne : ∀ x, x = 0 ∨ x ∈ l → x ≠ t := by
    rintro x hx rfl
    exact hx.elim ht hout
  exact hl.congr (fun x hx => update_of_ne (hne x hx) _ _) fun x hx => update_of_ne (hne x hx.symm) _ _

theorem links_off_list (hl : Links s.nextOf s.prevOf 0 l 0) (ht : t ≠ 0) (hout : t ∉ l) (f : Task → Task) :
    Links (s.modTask t f).nextOf (s.modTask t f).prevOf 0 l 0 := by
  rw [nextOf_modTask _ ht, prevOf_modTask _ ht]
  exact Links.off_list hl ht hout _ _

/-- **Unlinking a member.** -/
theorem links_unlinkReady (hl : Links s.nextOf s.prevOf 0 (a ++ t :: b) 0) (hnd : (0 :: (a ++ t :: b)).Nodup) :
    Links (s.unlinkReady t).nextOf (s.unlinkReady t).prevOf 0 (a ++ b) 0 := by
  have h0 := (nodup_cons.mp hnd).1
  have ht : t ≠ 0 := by
    rintro rfl
    exact h0 (by simp)
  have hn : s.nextOf t = (s.task t).readyNext := if_neg ht
  have hp : s.prevOf t = (s.task t).readyPrev := if_neg ht
  have hnext : (s.unlinkReady t).nextOf = update (update s.nextOf (s.prevOf t) (s.nextOf t)) t 0 := by
    refine (nextOf_modTask (s.bypass t) ht fun c => { c with readyNext := 0, readyPrev := 0, queued := false }).trans ?_
    rw [Sched.bypass, nextOf_setPrev, nextOf_setNext, hn, hp]
  have hprev : (s.unlinkReady t).prevOf = update (update s.prevOf (s.nextOf t) (s.prevOf t)) t 0 := by
    refine (prevOf_modTask (s.bypass t) ht fun c => { c with readyNext := 0, readyPrev := 0, queued := false }).trans ?_
    rw [Sched.bypass, prevOf_setPrev, prevOf_setNext, hn, hp]
  rw [hnext, hprev]
  exact Links.off_list (hl.unlink hnd h0) ht (nodup_middle hnd).2 0 0

theorem setHead_eq (s : Sched) (t : Nat) : { s with readyHead := t } = s.setNext 0 t := by
  simp [Sched.setNext]

theorem setTail_eq (s : Sched) (t : Nat) : { s with readyTail := t } = s.setPrev 0 t := by
  simp [Sched.setPrev]

theorem insertReady_front (ht : t ≠ 0) (hhead : s.readyHead ≠ t) : (s.insertReady t true).nextOf
        = update (update s.nextOf 0 t) t (s.nextOf 0) ∧
      (s.insertReady t true).prevOf = update (update s.prevOf (s.nextOf 0) t) t 0 := by
  have heq : s.insertReady t true = ((s.modTask t fun c =>
      { c with readyPrev := 0, readyNext := s.readyHead }).setPrev s.readyHead t).setNext 0 t :=
    setHead_eq _ _
  have h0 : s.nextOf 0 = s.readyHead := if_pos rfl
  rw [heq, h0]
  constructor
  · rw [nextOf_setNext, nextOf_setPrev, nextOf_modTask _ ht, update_comm ht]
  · rw [prevOf_setNext, prevOf_setPrev, prevOf_modTask _ ht, update_comm hhead.symm]

theorem insertReady_back (ht : t ≠ 0) (htail : s.readyTail ≠ t) : (s.insertReady t false).nextOf
        = update (update s.nextOf (s.prevOf 0) t) t 0 ∧
      (s.insertReady t false).prevOf = update (update s.prevOf 0 t) t (s.prevOf 0) := by
  have heq : s.insertReady t false = ((s.modTask t fun c =>
      { c with readyNext := 0, readyPrev := s.readyTail }).setNext s.readyTail t).setPrev 0 t :=
    setTail_eq _ _
  have h0 : s.prevOf 0 = s.readyTail := if_pos rfl
  rw [heq, h0]
  constructor
  · rw [nextOf_setPrev, nextOf_setNext, nextOf_modTask _ ht, update_comm htail.symm]
  · rw [prevOf_setPrev, prevOf_setNext, prevOf_modTask _ ht, update_comm ht]

/-- The list with a new entry: boosted threads go to the front. -/
def enlist (t : Nat) (boost : Bool) (l : List Nat) : List Nat := if boost then t :: l else l ++ [t]

@[simp] theorem mem_enlist (boost : Bool) : x ∈ enlist t boost l ↔ x = t ∨ x ∈ l := by
  cases boost <;> simp [enlist, or_comm]

theorem nodup_enlist (hnd : (0 :: l).Nodup) (ht : t ≠ 0) (hout : t ∉ l) (boost : Bool) :
    (0 :: enlist t boost l).Nodup := by
  rw [nodup_cons] at hnd
  rw [nodup_cons, mem_enlist]
  refine ⟨fun h => h.elim ht.symm hnd.1, ?_⟩
  cases boost with
  | true => exact nodup_cons.mpr ⟨hout, hnd.2⟩
  | false => exact nodup_append'.mpr ⟨hnd.2, nodup_singleton t, by simpa using hout⟩

theorem links_insertReady (hl : Links s.nextOf s.prevOf 0 l 0) (hnd : (0 :: l).Nodup) (ht : t ≠ 0)
    (hout : t ∉ l) (boost : Bool) :
    Links (s.insertReady t boost).nextOf (s.insertReady t boost).prevOf 0 (enlist t boost l) 0 := by
  obtain ⟨h0, hnd'⟩ := nodup_cons.mp hnd
  cases boost with
  | true =>
    have hhead : s.readyHead ≠ t := by
      have hn : s.readyHead = l.headD 0 := hl.next_eq
      rw [hn]
      cases l with
      | nil => exact ht.symm
      | cons x xs => exact fun he => hout (he ▸ mem_cons_self)
    obtain ⟨hn, hp⟩ := insertReady_front ht hhead
    rw [hn, hp]
    exact hl.pushFront hout ht ht h0 hnd' h0
  | false =>
    have htail : s.readyTail ≠ t := by
      have hn : s.readyTail = l.getLastD 0 := hl.prev_eq
      rw [hn]
      intro he
      rcases mem_cons.mp (he ▸ getLastD_mem_cons) with h | h
      · exact ht h
      · exact hout h
    obtain ⟨hn, hp⟩ := insertReady_back ht htail
    rw [hn, hp]
    exact hl.pushBack hout ht ht hnd h0

/-! ## Operations -/

namespace Listed

section

variable (hl : Listed R s l)

include hl

/-- A thread off the list changes. -/
theorem change (ht : t ≠ 0) (hout : t ∉ l) (f : Task → Task)
    (hq : (f (s.task t)).queued = false) (hin : threadBound ≤ t → (f (s.task t)).state = .dead)
    (hR : R (t ∈ l) (f (s.task t)).mark) : Listed R (s.modTask t f) l := by
  refine hl.touch t (links_off_list hl.links ht hout f) hl.nodup hl.bound hl.count (fun _ _ => Iff.rfl)
    (fun x hx => by rw [task_modTask_ne s f hx]) ?_ ?_
  · rw [task_modTask_self]
    exact .off hq (fun h => hin (h.resolve_left ht)) hout
  · rw [task_modTask_self]
    exact hR

/-- A thread changes, but not its links. -/
theorem adjust (t : Nat) (f : Task → Task) (hn : (f (s.task t)).readyNext = (s.task t).readyNext)
    (hp : (f (s.task t)).readyPrev = (s.task t).readyPrev) (hsits : Sits (t ∈ l) t (f (s.task t)).mark)
    (hR : R (t ∈ l) (f (s.task t)).mark) : Listed R (s.modTask t f) l :=
  hl.touch t (links_modTask hl.links t hn hp) hl.nodup hl.bound hl.count (fun _ _ => Iff.rfl)
    (fun x hx => by rw [task_modTask_ne s f hx]) (by rw [task_modTask_self]; exact hsits)
    (by rw [task_modTask_self]; exact hR)

/-- A thread dies where it is; an entry of it stays on the list. -/
theorem kill (t : Nat) (f : Task → Task) (hn : (f (s.task t)).readyNext = (s.task t).readyNext)
    (hp : (f (s.task t)).readyPrev = (s.task t).readyPrev) (hd : (f (s.task t)).state = .dead)
    (hq : (f (s.task t)).queued = false) (hR : R (t ∈ l) (f (s.task t)).mark) : Listed R (s.modTask t f) l :=
  hl.adjust t f hn hp ⟨fun _ => .inr ⟨hd, hq⟩, fun h => absurd (hq.symm.trans h) (by decide), fun _ => hd⟩ hR

/-- **A thread joins**: `f` makes it ready, `Push` links it in, `g` comes after. -/
theorem join (ht : t ≠ 0) (hb : t < threadBound) (hout : t ∉ l) (boost : Bool)
    (f g : Task → Task) (hf : (f (s.task t)).state = .ready)
    (hg : ∀ c, (g c).state = c.state ∧ (g c).queued = c.queued ∧ (g c).readyNext = c.readyNext ∧
      (g c).readyPrev = c.readyPrev)
    (hR : ∀ c : Task, c.mark = { (f (s.task t)).mark with queued := true } → R True (g c).mark) :
    Listed R (((s.modTask t f).pushed t boost).modTask t g) (enlist t boost l) := by
  have hmark := pushed_mark (s.modTask t f) t boost
  have hself : (((s.modTask t f).pushed t boost).task t).mark = { (f (s.task t)).mark with queued := true } := by
    rw [hmark, if_pos rfl, task_modTask_self]
    rfl
  have hlist : (t ∈ enlist t boost l) = True := eq_true (by simp)
  have hlinks : Links ((s.modTask t f).pushed t boost).nextOf ((s.modTask t f).pushed t boost).prevOf 0
      (enlist t boost l) 0 :=
    links_modTask (f := fun c => { c with queued := true })
      (links_insertReady (links_off_list hl.links ht hout f) hl.nodup ht hout boost) t rfl rfl
  refine hl.touch t (links_modTask hlinks t (hg _).2.2.1 (hg _).2.2.2) (nodup_enlist hl.nodup ht hout boost) ?_ ?_ ?_ ?_
    ?_ ?_
  · intro x hx
    rcases (mem_enlist boost).mp hx with rfl | hx
    · exact hb
    · exact hl.bound x hx
  · refine (congrArg Prod.fst (pushed_rest (s.modTask t f) t boost)).trans ?_
    show s.readyN + 1 = _
    rw [hl.count]
    cases boost <;> simp [enlist]
  · intro x hx
    simp [hx]
  · intro x hx
    rw [task_modTask_ne _ g hx, hmark, if_neg hx, task_modTask_ne s f hx]
  · rw [hlist, task_modTask_self]
    refine ⟨fun _ => .inl ⟨?_, ?_⟩, fun _ => trivial, fun h => ?_⟩
    · exact ((hg _).1.trans (congrArg Mark.state hself)).trans hf
    · exact (hg _).2.1.trans (congrArg Mark.queued hself)
    · omega
  · rw [hlist, task_modTask_self]
    exact hR _ hself

theorem push (ht : t ≠ 0) (hb : t < threadBound) (hout : t ∉ l) (boost : Bool) (f : Task → Task)
    (hf : (f (s.task t)).state = .ready) (hR : R True { (f (s.task t)).mark with queued := true }) :
    Listed R ((s.modTask t f).pushed t boost) (enlist t boost l) := by
  have hjoin := hl.join ht hb hout boost f id hf (fun _ => ⟨rfl, rfl, rfl, rfl⟩) fun c hc => by
    rw [id, hc]
    exact hR
  rwa [modTask_id] at hjoin

end

/-- **A thread leaves**: it is unlinked, and `f` comes after. -/
theorem unlink (hl : Listed R s (a ++ t :: b)) (f : Task → Task)
    (hf : ∀ c : Task, c.mark = { (s.task t).mark with queued := false } → (f c).queued = false ∧ R False (f c).mark) :
    Listed R ((s.unlinkReady t).modTask t f) (a ++ b) := by
  have hbare := unlinkReady_bare s t
  have hself : ((s.unlinkReady t).task t).mark = { (s.task t).mark with queued := false } := by
    have hmark := congrArg Task.mark (hbare t)
    rw [if_pos rfl] at hmark
    exact hmark
  obtain ⟨hnd, hout⟩ := nodup_middle hl.nodup
  have ht := hl.ne_zero (t := t) (by simp)
  have hlt := hl.bound t (by simp)
  have hsub : (a ++ b).Sublist (a ++ t :: b) := List.Sublist.append_left (sublist_cons_self t b) a
  refine hl.touch t (links_off_list (links_unlinkReady hl.links hl.nodup) ht hout f) hnd
    (fun x hx => hl.bound x (hsub.subset hx)) ?_ (fun x hx => mem_middle hx) (fun x hx => ?_) ?_ ?_
  · refine (congrArg Prod.fst (unlinkReady_rest s t)).trans ?_
    show s.readyN - 1 = _
    rw [hl.count]
    simp
  · rw [task_modTask_ne _ f hx]
    have hmark := congrArg Task.mark (hbare x)
    rw [if_neg hx] at hmark
    exact hmark
  · rw [task_modTask_self]
    exact .off (hf _ hself).1 (fun h => by omega) hout
  · rw [task_modTask_self, eq_false hout]
    exact (hf _ hself).2

end Listed

/-! ## `Pop` -/

/-- One turn of the scan. -/
def pick (s : Sched) (best t : Nat) : Nat :=
  if best = 0 ∨ Sched.better (s.task t) (s.task best) then t else best

/-- The entries that are alive. -/
def live (s : Sched) (l : List Nat) : List Nat := l.filter fun t => decide ((s.task t).state ≠ .dead)

theorem mem_live : x ∈ live s l ↔ x ∈ l ∧ (s.task x).state ≠ .dead := by
  simp [live]

theorem live_sublist : (live s l).Sublist l := filter_sublist

/-- What an operation that only takes threads off the list leaves alone. -/
structure Weeded (s s' : Sched) : Prop where
  self : Keeps Task.self s s'
  current : s'.current = s.current
  sleepHead : s'.sleepHead = s.sleepHead
  queued : ∀ x, (s'.task x).queued = true → (s.task x).queued = true

namespace Weeded

theorem refl (s : Sched) : Weeded s s := ⟨.refl s, rfl, rfl, fun _ h => h⟩

theorem trans {s₁ s₂ s₃ : Sched} (h : Weeded s₁ s₂) (h' : Weeded s₂ s₃) : Weeded s₁ s₃ :=
  ⟨h.self.trans h'.self, h'.current.trans h.current, h'.sleepHead.trans h.sleepHead,
    fun x hx => h.queued x (h'.queued x hx)⟩

theorem state (h : Weeded s s') (x : Nat) : (s'.task x).state = (s.task x).state := (congrArg Task.state (h.self x) :)

theorem boosted (h : Weeded s s') (x : Nat) : (s'.task x).boosted = (s.task x).boosted :=
  (congrArg Task.boosted (h.self x) :)

theorem priority (h : Weeded s s') (x : Nat) : (s'.task x).priority = (s.task x).priority :=
  (congrArg Task.priority (h.self x) :)

theorem live (h : Weeded s s') (l : List Nat) : live s' l = live s l := by
  unfold Scheduler.live
  congr 1
  funext x
  rw [h.state]

theorem pick (h : Weeded s s') : pick s' = pick s := by
  funext best t
  unfold Scheduler.pick Sched.better
  rw [h.boosted, h.boosted, h.priority, h.priority]

end Weeded

theorem unlinkReady_weeded (s : Sched) (t : Nat) : Weeded s (s.unlinkReady t) := by
  have hbare := unlinkReady_bare s t
  refine ⟨fun x => ?_, congrArg (fun r => r.2.1) (unlinkReady_rest s t),
    congrArg (fun r => r.2.2) (unlinkReady_rest s t), fun x hx => ?_⟩
  · refine (congrArg (fun c : Task => { c with queued := false }) (hbare x)).trans ?_
    split_ifs with e
    · rw [e]
      rfl
    · rfl
  · have hq := congrArg Task.queued (hbare x)
    split_ifs at hq with e
    · exact absurd (hq.symm.trans hx) Bool.false_ne_true
    · exact hq.symm.trans hx

/-- **The pass of `Pop`** takes the dead entries off the list and keeps the first of the best. -/
theorem popScan_listed (hR : ∀ m : Mark, R True m → m.state = .dead → R False { m with queued := false }) (fuel : Nat)
    (s : Sched) (done rest : List Nat) (best : Nat) (hl : Listed R s (done ++ rest)) (hfuel : rest.length < fuel) :
    Listed R (Sched.popScan fuel s (rest.headD 0) best).1 (done ++ live s rest) ∧
      (Sched.popScan fuel s (rest.headD 0) best).2 = (live s rest).foldl (pick s) best ∧
      Weeded s (Sched.popScan fuel s (rest.headD 0) best).1 := by
  induction fuel generalizing s done rest best with
  | zero => omega
  | succ fuel ih =>
    cases rest with
    | nil => exact ⟨hl, rfl, .refl s⟩
    | cons t rest =>
      have ht : t ≠ 0 := hl.ne_zero (by simp)
      have hnext := hl.next_eq rfl
      rw [length_cons] at hfuel
      rw [headD_cons, Sched.popScan, if_neg ht, hnext]
      by_cases hdead : (s.task t).state = .dead
      · -- a dead entry is taken off
        rw [if_pos hdead]
        have hmore := hl.more t
        rw [eq_true (show t ∈ done ++ t :: rest by simp)] at hmore
        have hleave := hl.unlink id fun c hc => by
          rw [id, hc]
          exact ⟨congrArg Mark.queued hc, hR _ hmore hdead⟩
        rw [modTask_id] at hleave
        have hw := unlinkReady_weeded s t
        obtain ⟨h1, h2, h3⟩ := ih (s.unlinkReady t) done rest best hleave (by omega)
        have hlive : live s (t :: rest) = live s rest := filter_cons_of_neg (by simp [hdead])
        rw [hw.live] at h1 h2
        rw [hw.pick] at h2
        rw [hlive]
        exact ⟨h1, h2, hw.trans h3⟩
      · rw [if_neg hdead]
        have hlive : live s (t :: rest) = t :: live s rest := filter_cons_of_pos (by simp [hdead])
        rw [append_cons] at hl
        rw [hlive, append_cons, foldl_cons, pick]
        split_ifs with hb
        · exact ih s (done ++ [t]) rest t hl (by omega)
        · exact ih s (done ++ [t]) rest best hl (by omega)

theorem foldl_pick_mem (s : Sched) (l : List Nat) (best : Nat) : l.foldl (pick s) best = best ∨
    l.foldl (pick s) best ∈ l := by
  induction l generalizing best with
  | nil => exact .inl rfl
  | cons t l ih =>
    rw [foldl_cons]
    rcases ih (pick s best t) with h | h
    · rw [h, pick]
      split_ifs
      · exact .inr mem_cons_self
      · exact .inl rfl
    · exact .inr (mem_cons_of_mem t h)

/-- **`Pop`, on the list**: the dead entries go, and the thread that is taken, if one is. -/
theorem Listed.pop_cases (hR : ∀ m : Mark, R True m → m.state = .dead → R False { m with queued := false })
    (hl : Listed R s l) : ∃ s₁, Listed R s₁ (live s l) ∧ Weeded s s₁ ∧
      ((live s l).foldl (pick s) 0 = 0 ∧ s.pop = (s₁, 0) ∨ ∃ a t b, t ≠ 0 ∧ (live s l).foldl (pick s) 0 = t ∧
        live s l = a ++ t :: b ∧
        s.pop = ((s₁.unlinkReady t).modTask t fun c => { c with boosted := false }, t)) := by
  obtain ⟨h1, h2, h3⟩ := popScan_listed hR threadBound s [] l 0 hl hl.length_lt
  rw [← hl.head] at h1 h2 h3
  unfold Sched.pop
  generalize Sched.popScan threadBound s s.readyHead 0 = scan at h1 h2 h3
  obtain ⟨s₁, best⟩ := scan
  dsimp only at h1 h2 h3 ⊢
  refine ⟨s₁, h1, h3, ?_⟩
  rw [← h2]
  split_ifs with hbest
  · exact .inl ⟨hbest, rfl⟩
  · have hmem := (foldl_pick_mem s (live s l) 0).resolve_left (h2 ▸ hbest)
    obtain ⟨a, b, hsplit⟩ := append_of_mem (h2 ▸ hmem)
    exact .inr ⟨a, best, b, hbest, rfl, hsplit, rfl⟩

end Aegir.Scheduler
