/-
  What closing a cap leaves alone, in any state whatever.

  The close dispatcher reaches into endpoints, notifications, lines, memory objects and the blocks of
  waiting threads.  It takes no slot of the process table, changes no priority, starts no wait for a
  thread, and writes into no frame.
-/
import Aegir.Laws.Runs

namespace Aegir.Kernel

open Aegir.Arch Aegir.Lib Ledger

namespace State

/-- The part of the state that tells which slots are taken, how urgent a thread is, whom it waits for,
    and what the frames hold. -/
structure Marks where
  used : Nat → Bool
  priority : Nat → Int
  waitingFor : Nat → Nat
  memory : Nat → Page

def marks (k : State) : Marks :=
  ⟨k.used, fun t => (k.tcb t).priority, fun t => (k.tcb t).waitingFor, k.memory⟩

section

variable (k : State) (t o : Nat)

@[simp] theorem marks_modTcb (f : Tcb → Tcb)
    (hp : (f (k.tcb t)).priority = (k.tcb t).priority)
    (hw : (f (k.tcb t)).waitingFor = (k.tcb t).waitingFor) : (k.modTcb t f).marks = k.marks := by
  have h : ∀ u, ((k.modTcb t f).tcb u).priority = (k.tcb u).priority ∧
      ((k.modTcb t f).tcb u).waitingFor = (k.tcb u).waitingFor := by
    intro u
    by_cases hu : u = t
    · subst hu
      simpa [modTcb] using ⟨hp, hw⟩
    · simp [modTcb, hu]
  unfold marks
  congr 1
  · exact funext fun u => (h u).1
  · exact funext fun u => (h u).2

@[simp] theorem marks_modEndpoint (f : Endpoint → Endpoint) :
    (k.modEndpoint o f).marks = k.marks := rfl

@[simp] theorem marks_modNotification (f : Notification → Notification) :
    (k.modNotification o f).marks = k.marks := rfl

@[simp] theorem marks_modDevice (f : DeviceSlot → DeviceSlot) :
    (k.modDevice o f).marks = k.marks := rfl

@[simp] theorem marks_setA0 (v : U64) : (k.setA0 t v).marks = k.marks :=
  marks_modTcb k t _ rfl rfl

@[simp] theorem marks_setA1 (v : U64) : (k.setA1 t v).marks = k.marks :=
  marks_modTcb k t _ rfl rfl

@[simp] theorem marks_wake : (k.wake t).marks = k.marks := by
  unfold wake
  split
  · rfl
  · split
    · rfl
    · rfl
    · rfl
    · simp

@[simp] theorem marks_wakeWithResult (v : U64) : (k.wakeWithResult t v).marks = k.marks := by
  unfold wakeWithResult
  split
  · rfl
  · split
    · simp
    · rfl

@[simp] theorem marks_drainCallers (o n : Nat) : (k.drainCallers o n).marks = k.marks := by
  induction n generalizing k with
  | zero => rfl
  | succ n ih =>
    unfold drainCallers
    dsimp only
    split
    · rfl
    · simp [ih]

@[simp] theorem marks_dropSends (slot n : Nat) : (k.dropSends slot n).marks = k.marks := by
  induction n generalizing k slot with
  | zero => rfl
  | succ n ih =>
    unfold dropSends
    split
    · rfl
    · exact ih _ _

@[simp] theorem marks_failEndpoint : (k.failEndpoint o).marks = k.marks := by
  unfold failEndpoint
  split
  · rfl
  · simp

@[simp] theorem marks_unlinkCaller (o t prev scan n : Nat) :
    (k.unlinkCaller o t prev scan n).marks = k.marks := by
  induction n generalizing prev scan with
  | zero => rfl
  | succ n ih =>
    unfold unlinkCaller
    simp [apply_ite marks, ih]

@[simp] theorem marks_cleanupEndpointWaiter :
    (k.cleanupEndpointWaiter t o).marks = k.marks := by
  simp [cleanupEndpointWaiter, apply_ite marks]

@[simp] theorem marks_releaseEndpoint : (k.releaseEndpoint o).marks = k.marks := by
  have hfree : ∀ j : State, (j.freeEndpoint o).marks = j.marks := fun _ => rfl
  simp [releaseEndpoint, apply_ite marks, hfree]

@[simp] theorem marks_failReplyTarget (badge : U64) :
    (k.failReplyTarget t badge).marks = k.marks := by
  simp [failReplyTarget, apply_ite marks]

@[simp] theorem marks_unchainLine (o cur n : Nat) : (k.unchainLine o cur n).marks = k.marks := by
  induction n generalizing cur with
  | zero => rfl
  | succ n ih =>
    unfold unchainLine
    simp [apply_ite marks, ih]

@[simp] theorem marks_releaseDevice : (k.releaseDevice o).marks = k.marks := by
  have hlines : ∀ (j : State) (l : Nat → Nat), ({ j with lines := l } : State).marks = j.marks :=
    fun _ _ => rfl
  have hslab : ∀ (j : State) (s : Slab), ({ j with deviceSlab := s } : State).marks = j.marks :=
    fun _ _ => rfl
  simp [releaseDevice, finalizeDevice, unregisterLine, apply_ite marks, hlines, hslab]

@[simp] theorem marks_releaseMemory : (k.releaseMemory o).marks = k.marks := by
  have hfree : ∀ j : State, ((j.freeFrames o).freeMemorySlot o).marks = j.marks := by
    intro j
    unfold freeFrames
    dsimp only
    split <;> rfl
  unfold releaseMemory
  split
  · rfl
  · dsimp only
    split
    · rfl
    · exact hfree _

@[simp] theorem marks_cleanupNotificationWaiter (unbind : Bool) :
    (k.cleanupNotificationWaiter t o unbind).marks = k.marks := by
  simp [cleanupNotificationWaiter, apply_ite marks]

@[simp] theorem marks_releaseNotification : (k.releaseNotification o).marks = k.marks := by
  have hfree : ∀ j : State, (j.freeNotification o).marks = j.marks := fun _ => rfl
  simp [releaseNotification, apply_ite marks, hfree]

@[simp] theorem marks_cleanupThreadCapObject (e : CapEntry) (dying : Bool) :
    (k.cleanupThreadCapObject t e dying).marks = k.marks := by
  unfold cleanupThreadCapObject
  split
  · rfl
  · split
    · simp [apply_ite marks]
    · simp
    · simp [cleanupLineWaiter, apply_ite marks]
    · simp
    · simp
    · simp
    · rfl

theorem marks_closeCap (t cap : Nat) (dying : Bool) : (k.closeCap t cap dying).2.marks = k.marks := by
  have hset : ∀ (j : State) (p : Nat) (c : CapTable) (pmm : Pmm), (j.setCaps p c pmm).marks = j.marks :=
    fun _ _ _ _ => rfl
  unfold closeCap
  split
  · rfl
  · split
    · rfl
    · dsimp only
      rw [hset, marks_cleanupThreadCapObject]

end

theorem marks_closeCaps (n t cap : Nat) (k : State) : (k.closeCaps t cap n).marks = k.marks := by
  induction n generalizing k cap with
  | zero => rfl
  | succ n ih =>
    unfold closeCaps
    rw [ih, marks_closeCap]

theorem marks_destroyAddressSpace (k : State) (root : Nat) : (k.destroyAddressSpace root).marks = k.marks := by
  unfold destroyAddressSpace
  split <;> rfl

theorem marks_cleanupCapRefs (k : State) (t : Nat) : (k.cleanupCapRefs t).marks = k.marks := by
  unfold cleanupCapRefs
  split
  · rfl
  · exact marks_closeCaps _ _ _ _

end State

end Aegir.Kernel
