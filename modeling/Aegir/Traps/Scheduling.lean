/-
  Traps as the scheduler sees them.

  What the rest of the kernel decides on the way is a PARAMETER of the trap here: which threads an operation
  wakes, whether an IPC call blocks, which slot a new thread gets.  Every list of wakes is allowed, so every
  trap of the kernel is among these.

  `Mark_Exited` clears `Queued` BEFORE it calls `Remove_Thread`, which therefore finds nothing to unlink: the
  dead entry stays on the ready list until the `Pop` of the same trap.
-/
import Aegir.Kernel.Scheduler

namespace Aegir.Scheduler

open Aegir.Kernel (ThreadState maxThreadSlots threadBound initThread initProcess)

/-- What a blocking handler waits for. -/
inductive Wait where
  | send
  | receive
  | irq
  | notification
deriving DecidableEq, Repr

def Wait.state : Wait → ThreadState
  | .send => .blockedSend
  | .receive => .blockedReceive
  | .irq => .blockedIrq
  | .notification => .blockedNotification

namespace Sched

/-! ## Threads come and go -/

/-- `Initialize_Thread`. -/
def initializeThread (s : Sched) (t process : Nat) : Sched :=
  s.modTask t fun c => { c with
    state := .ready, queued := false, boosted := false, readyNext := 0, readyPrev := 0
    sleepNext := 0, sleepPrev := 0, priority := 0, process := process }

/-- Whether the slot can be given to a new thread. -/
def Vacant (s : Sched) (t : Nat) : Prop := 1 ≤ t ∧ t ≤ maxThreadSlots ∧ (s.task t).used = false

instance (s : Sched) (t : Nat) : Decidable (s.Vacant t) := inferInstanceAs (Decidable (_ ∧ _ ∧ _))

/-- The scheduler's part of `Spawn_Image` and `Thread_Create`: with `added` false the operation fails
    after the slot was initialised. -/
def createThread (s : Sched) (t process : Nat) (priority : Int) (added : Bool) : Sched :=
  let s₁ := (s.initializeThread t process).modTask t fun c => { c with priority := priority }
  if added then (s₁.addTask t).1.modTask t fun c => { c with used := true } else s₁

/-- One round of the loop in `Mark_Exited`. -/
def killSibling (caller process : Nat) (teardown : Nat → List Nat) (s : Sched) (t : Nat) : Sched :=
  if (s.task t).used ∧ (s.task t).process = process then
    let s₁ := s.wakeAll (teardown t)
    let s₂ := s₁.modTask t fun c => { c with state := .dead, queued := false }
    let s₃ := if t ≠ caller then s₂.removeThread t else s₂
    s₃.modTask t fun c => { c with used := false }
  else s

/-- `Mark_Exited`: every thread of the process dies, then its capabilities are closed. -/
def markExited (s : Sched) (caller : Nat) (teardown : Nat → List Nat) (cleanup : List Nat) : Sched :=
  let process := (s.task caller).process
  if process = 0 then s
  else
    ((List.range' 1 maxThreadSlots).foldl (killSibling caller process teardown) s).wakeAll cleanup

/-- `Thread_Exit` of a thread in the table. -/
def threadExit (s : Sched) (t : Nat) (cleanup teardown : List Nat) : Sched :=
  let s₁ := (s.wakeAll cleanup).wakeAll teardown
  let s₂ := s₁.modTask t fun c => { c with state := .dead, queued := false }
  (s₂.removeThread t).modTask t fun c => { c with used := false }

end Sched

/-! ## Traps -/

/-- A trap on hart `h`, with what the rest of the kernel decides during it. -/
inductive Trap where
  | yield (h : Nat)
  /-- A system call that returns to its caller. -/
  | call (h : Nat) (wakes : List Nat)
  /-- An `ipc_call`, `ipc_send`, `ipc_recv`, `irq_wait` or `ntfn_wait` that completes at once. -/
  | complete (h : Nat) (wakes : List Nat)
  /-- One of those that blocks. -/
  | block (h : Nat) (wakes : List Nat) (wait : Wait)
  | setPriority (h t : Nat) (priority : Int)
  /-- `spawn` or `thread_create`; with `added` false it fails after the slot was initialised. -/
  | create (h t process : Nat) (priority : Int) (wakes : List Nat) (added : Bool)
  | threadWait (h : Nat) (blocks : Bool)
  | sleepUntil (h deadline time now : Nat)
  | threadExit (h : Nat) (cleanup teardown : List Nat)
  | exit (h : Nat) (teardown : Nat → List Nat) (cleanup : List Nat)
  | timer (h now : Nat) (user : Bool)
  | external (h : Nat) (wakes : List Nat) (uniprocessor user : Bool)
  | software (h : Nat) (user : Bool)
  /-- A pass of the idle loop. -/
  | idle (h : Nat) (wakes : List Nat) (now : Nat)

namespace Sched

/-- `Schedule_Saved_Context`: a hart that finds no thread goes to its idle loop. -/
def schedule (s : Sched) (h : Nat) : Sched := (s.yield h).1

/-- The tail of `Handle_Syscall`. -/
def syscallExit (s : Sched) (h entering : Nat) : Sched :=
  if s.current h = entering ∧ s.shouldPreempt h then s.schedule h else s

/-- `Handle_Preemption`. -/
def handlePreemption (s : Sched) (h : Nat) (user : Bool) : Sched :=
  if s.current h = 0 ∨ user = false then s else s.schedule h

/-- One trap.  A handler that finds no current thread answers an error and changes nothing. -/
def trap (s : Sched) : Trap → Sched
  | .yield h => s.schedule h
  | .call h wakes => if s.current h = 0 then s else (s.wakeAll wakes).syscallExit h (s.current h)
  | .complete h wakes => if s.current h = 0 then s else s.wakeAll wakes
  | .block h wakes wait =>
    if s.current h = 0 then s
    else
      let s₁ := s.wakeAll wakes
      let s₂ := s₁.modTask (s.current h) fun c => { c with
        state := wait.state, boosted := false }
      s₂.schedule h
  | .setPriority h t priority =>
    if s.current h = 0 then s
    else (s.modTask t fun c => { c with priority := priority }).syscallExit h (s.current h)
  | .create h t process priority wakes added =>
    if s.current h = 0 then s
    else if s.Vacant t then
      ((s.createThread t process priority added).wakeAll wakes).syscallExit h (s.current h)
    else s
  | .threadWait h blocks =>
    if s.current h = 0 then s
    else (if blocks then s.blockCurrent h .blockedThreadWait else s).schedule h
  | .sleepUntil h deadline time now =>
    if s.current h = 0 ∨ deadline ≤ time then s else (s.sleepUntil h deadline now).schedule h
  | .threadExit h cleanup teardown =>
    if s.current h = 0 ∨ ¬ (1 ≤ s.current h ∧ s.current h ≤ maxThreadSlots) then s
    else (s.threadExit (s.current h) cleanup teardown).schedule h
  | .exit h teardown cleanup =>
    if s.current h = 0 then s
    else ((s.markExited (s.current h) teardown cleanup).exitCurrent h).schedule h
  | .timer h now user => (checkSleepers now threadBound s).handlePreemption h user
  | .external h wakes uniprocessor user =>
    let s₁ := s.wakeAll wakes
    if s₁.shouldPreempt h ∨ (uniprocessor ∧ s₁.shouldBoostPreempt h) then s₁.handlePreemption h user else s₁
  | .software h user => if s.shouldPreempt h then s.handlePreemption h user else s
  | .idle h wakes now =>
    if s.current h ≠ 0 then s
    else
      let s₁ := s.schedule h
      if s₁.current h ≠ 0 then s₁ else checkSleepers now threadBound (s₁.wakeAll wakes)

def runTraps (s : Sched) (traps : List Trap) : Sched := traps.foldl trap s

end Sched

/-- The tasks at the first trap: the slots are vacant, init runs. -/
def bootTask (t : Nat) : Task where
  state := if t = initThread then .running else if 1 ≤ t ∧ t ≤ maxThreadSlots then .ready else .dead
  queued := false
  boosted := false
  readyNext := 0
  readyPrev := 0
  sleepNext := 0
  sleepPrev := 0
  deadline := 0
  priority := 0
  process := if t = initThread then initProcess else 0
  used := t = initThread

/-- The scheduler when the boot hart enters init. -/
def bootSched : Sched where
  readyHead := 0
  readyTail := 0
  readyN := 0
  sleepHead := 0
  current := fun h => if h = 0 then initThread else 0
  task := bootTask

end Aegir.Scheduler
