/-
  The scheduler: the ready list, the sleep list and the running thread of each hart.

  Both lists are INTRUSIVE: they are linked through fields of the thread control blocks, with thread 0 as the
  null pointer.  Everything runs under the big kernel lock, so a trap is one atomic step.  `Notify_Work` is
  left out, and loops along a list take `threadBound` as fuel: there are fewer control blocks than that.
-/
import Aegir.Kernel.Boot

namespace Aegir.Scheduler

open Aegir.Kernel (ThreadState maxThreadSlots threadBound initThread initProcess)

/-- The scheduler's fields of a thread control block. -/
structure Task where
  state : ThreadState
  queued : Bool
  boosted : Bool
  readyNext : Nat
  readyPrev : Nat
  sleepNext : Nat
  sleepPrev : Nat
  deadline : Nat
  priority : Int
  process : Nat
  used : Bool

structure Sched where
  readyHead : Nat
  readyTail : Nat
  readyN : Nat
  sleepHead : Nat
  /-- `Current_TCBS`, by hart. -/
  current : Nat → Nat
  task : Nat → Task

/-- `Scheduler.Status`, as far as it is answered. -/
inductive Status where
  | ok
  | queueEmpty
  | invalidTask
deriving DecidableEq, Repr

namespace Sched

variable (s : Sched) (t : Nat)

def modTask (f : Task → Task) : Sched :=
  { s with task := Function.update s.task t (f (s.task t)) }

def setCurrent (h t : Nat) : Sched := { s with current := Function.update s.current h t }

/-! ## The ready list -/

/-- `Better`: strictly higher priority, or boosted at equal priority. -/
def better (cand best : Task) : Bool :=
  cand.priority > best.priority ∨ (cand.priority = best.priority ∧ cand.boosted ∧ ¬ best.boosted)

/-- `Set_Ready_Next` of `p`, or the head of the list when `p` is null. -/
def setNext (p n : Nat) : Sched :=
  if p ≠ 0 then s.modTask p fun c => { c with readyNext := n } else { s with readyHead := n }

/-- `Set_Ready_Prev` of `n`, or the tail of the list when `n` is null. -/
def setPrev (n p : Nat) : Sched :=
  if n ≠ 0 then s.modTask n fun c => { c with readyPrev := p } else { s with readyTail := p }

/-- `Unlink_Ready`. -/
def unlinkReady : Sched :=
  let p := (s.task t).readyPrev
  let n := (s.task t).readyNext
  let s₁ := ((s.setNext p n).setPrev n p).modTask t fun c =>
    { c with readyNext := 0, readyPrev := 0, queued := false }
  { s₁ with readyN := s₁.readyN - 1 }

/-- The links of `Push`: boosted threads go to the front. -/
def insertReady (boost : Bool) : Sched :=
  if boost then
    let s₁ := s.modTask t fun c => { c with readyPrev := 0, readyNext := s.readyHead }
    { s₁.setPrev s.readyHead t with readyHead := t }
  else
    let s₁ := s.modTask t fun c => { c with readyNext := 0, readyPrev := s.readyTail }
    { s₁.setNext s.readyTail t with readyTail := t }

/-- `Push`. -/
def push (boost : Bool) : Sched × Status :=
  if t = 0 ∨ (s.task t).state = .dead then (s, .invalidTask)
  else if (s.task t).queued then (s, .ok)
  else
    let s₁ := (s.insertReady t boost).modTask t fun c => { c with queued := true }
    ({ s₁ with readyN := s₁.readyN + 1 }, .ok)

/-- The pass of `Pop`: dead entries are unlinked, the best of the others is found. -/
def popScan : Nat → Sched → Nat → Nat → Sched × Nat
  | 0, s, _, best => (s, best)
  | fuel + 1, s, cand, best =>
    if cand = 0 then (s, best)
    else if (s.task cand).state = .dead then
      popScan fuel (s.unlinkReady cand) (s.task cand).readyNext best
    else if best = 0 ∨ better (s.task cand) (s.task best) then
      popScan fuel s (s.task cand).readyNext cand
    else popScan fuel s (s.task cand).readyNext best

/-- `Pop`: the thread taken from the list, 0 when it is empty. -/
def pop : Sched × Nat :=
  let (s₁, best) := popScan threadBound s s.readyHead 0
  if best = 0 then (s₁, 0)
  else ((s₁.unlinkReady best).modTask best fun c => { c with boosted := false }, best)

/-! ## The sleep list -/

/-- Where a sleeper with this deadline goes: behind `prev`, before `cur`. -/
def sleepPlace (s : Sched) (deadline : Nat) : Nat → Nat → Nat → Nat × Nat
  | 0, prev, cur => (prev, cur)
  | fuel + 1, prev, cur =>
    if cur ≠ 0 ∧ (s.task cur).deadline ≤ deadline then
      sleepPlace s deadline fuel cur (s.task cur).sleepNext
    else (prev, cur)

/-- `Insert_Sleeper`. -/
def insertSleeper : Sched :=
  let (prev, cur) := s.sleepPlace (s.task t).deadline threadBound 0 s.sleepHead
  let s₁ := s.modTask t fun c => { c with sleepPrev := prev, sleepNext := cur }
  let s₂ := if prev ≠ 0 then s₁.modTask prev fun c => { c with sleepNext := t } else { s₁ with sleepHead := t }
  if cur ≠ 0 then s₂.modTask cur fun c => { c with sleepPrev := t } else s₂

/-- The walk of `Remove_Sleeper`. -/
def removeSleeperAt (s : Sched) (t : Nat) : Nat → Nat → Nat → Sched
  | 0, _, _ => s
  | fuel + 1, prev, cur =>
    if cur = 0 then s
    else if cur = t then
      let n := (s.task cur).sleepNext
      let s₁ := if prev ≠ 0 then s.modTask prev fun c => { c with sleepNext := n } else { s with sleepHead := n }
      let s₂ := if n ≠ 0 then s₁.modTask n fun c => { c with sleepPrev := prev } else s₁
      s₂.modTask cur fun c => { c with sleepNext := 0, sleepPrev := 0 }
    else removeSleeperAt s t fuel cur (s.task cur).sleepNext

/-- `Remove_Sleeper`. -/
def removeSleeper : Sched := s.removeSleeperAt t threadBound 0 s.sleepHead

/-! ## Scheduling -/

/-- `Add_Task`. -/
def addTask : Sched × Status :=
  if t = 0 then (s, .invalidTask)
  else (s.modTask t fun c => { c with state := .ready }).push t false

/-- Whether some queued thread satisfies `test`: the walk of `Should_Preempt`. -/
def anyReady (s : Sched) (test : Task → Bool) : Nat → Nat → Bool
  | 0, _ => false
  | fuel + 1, cand =>
    if cand = 0 then false
    else if (s.task cand).state ≠ .dead ∧ test (s.task cand) then true
    else anyReady s test fuel (s.task cand).readyNext

/-- `Should_Preempt`. -/
def shouldPreempt (h : Nat) : Bool :=
  let cur := s.task (s.current h)
  if s.current h = 0 ∨ cur.state ≠ .running then false
  else s.anyReady (fun c => c.priority > cur.priority) threadBound s.readyHead

/-- `Should_Boost_Preempt`. -/
def shouldBoostPreempt (h : Nat) : Bool :=
  let cur := s.task (s.current h)
  if s.current h = 0 ∨ cur.state ≠ .running ∨ cur.boosted then false
  else s.anyReady (fun c => c.boosted ∧ c.priority ≥ cur.priority) threadBound s.readyHead

/-- The second half of `Yield`: the best ready thread becomes current.  An empty list leaves a hart
    whose thread runs on, and clears the current of any other. -/
def takeNext (h : Nat) : Sched × Status :=
  let (s₁, next) := s.pop
  if next = 0 then
    if s₁.current h ≠ 0 ∧ (s₁.task (s₁.current h)).state = .running then (s₁, .ok)
    else (s₁.setCurrent h 0, .queueEmpty)
  else
    ((s₁.setCurrent h next).modTask next fun c => { c with queued := false, state := .running }, .ok)

/-- `Yield`. -/
def yield (h : Nat) : Sched × Status :=
  if s.current h ≠ 0 ∧ (s.task (s.current h)).state = .running then
    let (s₁, result) := (s.modTask (s.current h) fun c => { c with state := .ready }).push (s.current h) false
    if result ≠ .ok then (s₁, result) else s₁.takeNext h
  else s.takeNext h

/-- `Block_Current`. -/
def blockCurrent (h : Nat) (state : ThreadState) : Sched :=
  if s.current h = 0 then s
  else (s.modTask (s.current h) fun c => { c with state := state, boosted := false }).setCurrent h 0

/-- `Exit_Current`. -/
def exitCurrent (h : Nat) : Sched :=
  if s.current h = 0 then s
  else
    let s₁ := s.removeSleeper (s.current h)
    (s₁.modTask (s.current h) fun c => { c with state := .dead, queued := false }).setCurrent h 0

/-- `Wake`. -/
def wake : Sched :=
  if t = 0 then s
  else
    match (s.task t).state with
    | .dead | .running | .ready => s
    | state =>
      let s₁ := if state = .blockedSleeping then s.removeSleeper t else s
      ((s₁.modTask t fun c => { c with state := .ready, boosted := true }).push t true).1

def wakeAll (ts : List Nat) : Sched := ts.foldl wake s

/-- `Check_Sleepers`. -/
def checkSleepers (now : Nat) : Nat → Sched → Sched
  | 0, s => s
  | fuel + 1, s =>
    if s.sleepHead ≠ 0 ∧ (s.task s.sleepHead).deadline ≤ now then
      checkSleepers now fuel ((s.removeSleeper s.sleepHead).wake s.sleepHead)
    else s

/-- The `Next_Deadline` that `Check_Sleepers` reports: that of the first sleeper, the last word without one. -/
def nextDeadline : Nat := if s.sleepHead = 0 then 2 ^ 64 - 1 else (s.task s.sleepHead).deadline

/-- `Quantum_Interval`. -/
def quantumInterval : Nat := 500000

/-- `Next_Timer_Deadline`. -/
def nextTimerDeadline (now : Nat) : Sched × Nat :=
  let s₁ := checkSleepers now threadBound s
  (s₁, min (add64 now quantumInterval) s₁.nextDeadline)

/-- `Sleep_Until` at time `now`. -/
def sleepUntil (h deadline now : Nat) : Sched :=
  if s.current h = 0 ∨ deadline ≤ now then s
  else
    let cur := s.current h
    let s₁ := (s.modTask cur fun c => { c with deadline := deadline }).insertSleeper cur
    (s₁.nextTimerDeadline now).1.blockCurrent h .blockedSleeping

/-- `Remove_Thread`. -/
def removeThread : Sched :=
  if t = 0 then s
  else
    let s₁ := ({ s with current := fun h => if s.current h = t then 0 else s.current h }).removeSleeper t
    if (s₁.task t).queued then s₁.unlinkReady t else s₁

end Sched

end Aegir.Scheduler
