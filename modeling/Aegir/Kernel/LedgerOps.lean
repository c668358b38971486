/-
  The cap operations of `Kernel.Tasks`, seen on the ledger.

  `retain` and `release` are the two ways in which a reference count changes.  An insert is "set the
  table, then retain"; a close is "release, then set the table"; the last release frees the slot,
  and for a memory object its frames too.  The lemmas here equate what the code does with these
  operations, UNDER the side conditions that the code's own guards test (the object is a slot of its
  slab, its count is neither zero nor pinned).
-/
import Aegir.Kernel.Ledger

namespace Aegir.Kernel

open Aegir.Arch Function

namespace Ledger

variable (L : Ledger) (P : Pool) (o : Nat)

/-- The entry at a handle of a process. -/
def entry (p h : Nat) : CapEntry := (L.caps p).get h

/-- Replace a process's table, with the allocator it drew its pages from. -/
def setCaps (p : Nat) (t : CapTable) (pmm : Pmm) : Ledger :=
  { L with caps := update L.caps p t, pmm := pmm }

/-- Set one reference count. -/
def setCount (o n : Nat) : Ledger :=
  { L with count := update L.count P (update (L.count P) o n) }

/-- One more entry refers to the object of `e`. -/
def retain (e : CapEntry) : Ledger :=
  match e.kind.pool with
  | none => L
  | some P => L.setCount P e.object (L.count P e.object + 1)

/-- The slot goes back to its slab. -/
def putSlot : Ledger :=
  { L with slab := update L.slab P ((L.slab P).put o) }

/-- `Free_Frames` of a memory object. -/
def freeFrames : Ledger :=
  { L with
    pmm := State.freeFramesFrom (L.frames o) 0 (L.pages o) L.pmm
    halted := if L.pages o = 0 then true else L.halted }

/-- What the last reference does. -/
def finalize : Ledger :=
  match P with
  | .memory => (L.freeFrames o).putSlot .memory o
  | _ => L.putSlot P o

/-- One reference to an object is dropped. -/
def dropRef : Ledger :=
  let L' := L.setCount P o (L.count P o - 1)
  if L.count P o - 1 = 0 then L'.finalize P o else L'

theorem dropRef_last {L : Ledger} {P : Pool} {o : Nat} (h : L.count P o - 1 = 0) :
    L.dropRef P o = (L.setCount P o (L.count P o - 1)).finalize P o := if_pos h

theorem dropRef_more {L : Ledger} {P : Pool} {o : Nat} (h : L.count P o - 1 ≠ 0) :
    L.dropRef P o = L.setCount P o (L.count P o - 1) := if_neg h

/-- One entry less refers to the object of `e`. -/
def release (e : CapEntry) : Ledger :=
  match e.kind.pool with
  | none => L
  | some P => L.dropRef P e.object

/-- The object of the entry is a slot of its slab with a count that is not pinned. -/
def Slotted (e : CapEntry) : Prop :=
  ∀ P, e.kind.pool = some P →
    1 ≤ e.object ∧ e.object ≤ (L.slab P).carved ∧ L.count P e.object < pinnedRefcount

end Ledger

namespace State

/-! ## Projections -/

@[simp] theorem ledger_caps (k : State) (p : Nat) : k.ledger.caps p = (k.pcb p).caps := rfl

@[simp] theorem ledger_pmm (k : State) : k.ledger.pmm = k.pmm := rfl

@[simp] theorem ledger_process (k : State) (t : Nat) : k.ledger.process t = (k.tcb t).process := rfl

theorem process_of_ledger_eq {k k' : State} (h : k'.ledger = k.ledger) (t : Nat) :
    (k'.tcb t).process = (k.tcb t).process := by
  have := congrFun (congrArg Ledger.process h) t
  simpa using this

theorem caps_of_ledger_eq {k k' : State} (h : k'.ledger = k.ledger) (p : Nat) :
    (k'.pcb p).caps = (k.pcb p).caps := by
  have := congrFun (congrArg Ledger.caps h) p
  simpa using this

/-! ## Setting a table, a count, a slab -/

section

variable (k : State)

@[simp] theorem ledger_setCaps (p : Nat) (t : CapTable) (pmm : Pmm) :
    (k.setCaps p t pmm).ledger = k.ledger.setCaps p t pmm := by
  unfold ledger Ledger.setCaps
  congr 1
  · funext q
    by_cases hq : q = p
    · subst hq; simp [setCaps, modPcb]
    · simp [setCaps, modPcb, hq]
  · funext q
    by_cases hq : q = p
    · subst hq; simp [setCaps, modPcb]
    · simp [setCaps, modPcb, hq]
  · funext q
    by_cases hq : q = p
    · subst hq; simp [setCaps, modPcb]
    · simp [setCaps, modPcb, hq]

theorem ledger_modEndpoint_count (o : Nat) (f : Endpoint → Endpoint) :
    (k.modEndpoint o f).ledger = k.ledger.setCount .endpoint o (f (k.endpoint o)).count := by
  unfold ledger Ledger.setCount
  congr 1
  funext P u
  cases P with
  | endpoint =>
    show ((k.modEndpoint o f).endpoint u).count = _
    by_cases hu : u = o
    · subst hu; simp [modEndpoint]
    · simp [modEndpoint, hu, poolCount]
  | _ => rfl

theorem ledger_modNotification_count (o : Nat) (f : Notification → Notification) :
    (k.modNotification o f).ledger =
      k.ledger.setCount .notification o (f (k.notification o)).count := by
  unfold ledger Ledger.setCount
  congr 1
  funext P u
  cases P with
  | notification =>
    show ((k.modNotification o f).notification u).count = _
    by_cases hu : u = o
    · subst hu; simp [modNotification]
    · simp [modNotification, hu, poolCount]
  | _ => rfl

theorem ledger_modDevice_count (o : Nat) (f : DeviceSlot → DeviceSlot) :
    (k.modDevice o f).ledger = k.ledger.setCount .device o (f (k.device o)).count := by
  unfold ledger Ledger.setCount
  congr 1
  funext P u
  cases P with
  | device =>
    show ((k.modDevice o f).device u).count = _
    by_cases hu : u = o
    · subst hu; simp [modDevice]
    · simp [modDevice, hu, poolCount]
  | _ => rfl

theorem ledger_modMemoryObject_count (o n : Nat) :
    (k.modMemoryObject o fun m => { m with count := n }).ledger =
      k.ledger.setCount .memory o n := by
  unfold ledger Ledger.setCount
  congr 1
  · funext P u
    cases P with
    | memory =>
      show ((k.modMemoryObject o _).memoryObject u).count = _
      by_cases hu : u = o
      · subst hu; simp [modMemoryObject]
      · simp [modMemoryObject, hu, poolCount]
    | _ => rfl
  · funext u
    by_cases hu : u = o
    · subst hu; simp [modMemoryObject]
    · simp [modMemoryObject, hu]
  · funext u
    by_cases hu : u = o
    · subst hu; simp [modMemoryObject]
    · simp [modMemoryObject, hu]

theorem ledger_freeEndpoint (o : Nat) : (k.freeEndpoint o).ledger = k.ledger.putSlot .endpoint o := by
  unfold ledger Ledger.putSlot
  congr 1
  funext P
  cases P <;> rfl

theorem ledger_freeMemorySlot (o : Nat) :
    (k.freeMemorySlot o).ledger = k.ledger.putSlot .memory o := by
  unfold ledger Ledger.putSlot
  congr 1
  funext P
  cases P <;> rfl

theorem ledger_putDevice (o : Nat) :
    ({ k with deviceSlab := k.deviceSlab.put o } : State).ledger = k.ledger.putSlot .device o := by
  unfold ledger Ledger.putSlot
  congr 1
  funext P
  cases P <;> rfl

theorem ledger_freeNotification (o : Nat) :
    (k.freeNotification o).ledger = k.ledger.putSlot .notification o := by
  have hput : ∀ j : State, ({ j with notificationSlab := j.notificationSlab.put o } : State).ledger =
      j.ledger.putSlot .notification o := by
    intro j
    unfold ledger Ledger.putSlot
    congr 1
    funext P
    cases P <;> rfl
  refine (hput _).trans ?_
  rw [ledger_modNotification _ _ _ rfl]

theorem ledger_freeFrames (o : Nat) : (k.freeFrames o).ledger = k.ledger.freeFrames o := by
  unfold freeFrames Ledger.freeFrames
  dsimp only
  split
  · rename_i h
    rw [if_pos (show k.ledger.pages o = 0 from h)]
    rfl
  · rename_i h
    rw [if_neg (show ¬ k.ledger.pages o = 0 from h)]
    rfl

end

/-! ## Retain and release -/

section

variable (k : State)

/-- **`Retain_Cap`.** -/
theorem ledger_retainCap (e : CapEntry) (hv : e.valid = true)
    (hs : k.ledger.Slotted e) : (k.retainCap e).ledger = k.ledger.retain e := by
  unfold retainCap Ledger.retain
  rw [if_neg (by simp [hv])]
  cases hk : e.kind with
  | endpointObject =>
    obtain ⟨h1, -, h3⟩ := hs .endpoint (by rw [hk]; rfl)
    have h3 : (k.endpoint e.object).count < pinnedRefcount := h3
    unfold retainEndpoint
    rw [if_neg (by omega), ledger_modEndpoint_count]
    rfl
  | memoryObject =>
    obtain ⟨h1, -, -⟩ := hs .memory (by rw [hk]; rfl)
    unfold retainMemory
    rw [if_neg (by omega)]
    exact ledger_modMemoryObject_count k e.object _
  | notificationObject =>
    obtain ⟨h1, h2, -⟩ := hs .notification (by rw [hk]; rfl)
    have h2 : e.object ≤ k.notificationSlab.carved := h2
    unfold retainNotification isNotificationSlot
    rw [if_pos (by simp [h2]; omega), ledger_modNotification_count]
    rfl
  | mmioObject => exact ledger_modDevice_count k e.object _
  | irqObject => exact ledger_modDevice_count k e.object _
  | _ => rfl

theorem ledger_releaseEndpoint (o : Nat) (h1 : 1 ≤ o)
    (hpin : (k.endpoint o).count < pinnedRefcount) (hpos : (k.endpoint o).count ≠ 0) :
    (k.releaseEndpoint o).ledger = k.ledger.dropRef .endpoint o := by
  unfold releaseEndpoint
  rw [if_neg (by omega)]
  have hcount : ((k.modEndpoint o fun e => { e with count := e.count - 1 }).endpoint o).count =
      (k.endpoint o).count - 1 := by simp [modEndpoint]
  dsimp only
  rw [hcount]
  by_cases h0 : (k.endpoint o).count - 1 = 0
  · rw [if_neg (by simpa using h0), Ledger.dropRef_last h0, ledger_freeEndpoint,
      ledger_failEndpoint, ledger_modEndpoint_count]
    rfl
  · rw [if_pos h0, Ledger.dropRef_more h0, ledger_modEndpoint_count]
    rfl

theorem ledger_releaseMemory (o : Nat) (h1 : 1 ≤ o) (hpos : (k.memoryObject o).count ≠ 0) :
    (k.releaseMemory o).ledger = k.ledger.dropRef .memory o := by
  unfold releaseMemory
  rw [if_neg (by omega)]
  have hcount : ((k.modMemoryObject o fun m => { m with count := m.count - 1 }).memoryObject o).count =
      (k.memoryObject o).count - 1 := by simp [modMemoryObject]
  have hled : (k.modMemoryObject o fun m => { m with count := m.count - 1 }).ledger =
      k.ledger.setCount .memory o ((k.memoryObject o).count - 1) :=
    ledger_modMemoryObject_count k o ((k.memoryObject o).count - 1)
  dsimp only
  rw [hcount]
  by_cases h0 : (k.memoryObject o).count - 1 = 0
  · rw [if_neg (by simpa using h0), Ledger.dropRef_last h0, ledger_freeMemorySlot, ledger_freeFrames, hled]
    rfl
  · rw [if_pos h0, Ledger.dropRef_more h0, hled]
    rfl

theorem ledger_releaseNotification (o : Nat) (h1 : 1 ≤ o) (h2 : o ≤ k.notificationSlab.carved) :
    (k.releaseNotification o).ledger = k.ledger.dropRef .notification o := by
  unfold releaseNotification
  rw [if_pos (by simp [isNotificationSlot, h2]; omega)]
  have hcount : ((k.modNotification o fun n => { n with count := n.count - 1 }).notification o).count =
      (k.notification o).count - 1 := by simp [modNotification]
  dsimp only
  rw [hcount]
  by_cases h0 : (k.notification o).count - 1 = 0
  · rw [if_pos h0, Ledger.dropRef_last h0, ledger_freeNotification, apply_ite ledger]
    simp only [ledger_wake, ledger_setA0, ite_self]
    rw [ledger_modNotification _ _ _ rfl, ledger_modNotification_count]
    rfl
  · rw [if_neg h0, Ledger.dropRef_more h0, ledger_modNotification_count]
    rfl

theorem ledger_finalizeDevice (o : Nat) :
    (k.finalizeDevice o).ledger = k.ledger.putSlot .device o := by
  unfold finalizeDevice
  rw [ledger_putDevice, apply_ite ledger, ledger_unregisterLine, ite_self]

theorem ledger_releaseDevice (o : Nat) (hpos : (k.device o).count ≠ 0) :
    (k.releaseDevice o).ledger = k.ledger.dropRef .device o := by
  unfold releaseDevice
  rw [if_neg hpos]
  have hcount : ((k.modDevice o fun d => { d with count := d.count - 1 }).device o).count =
      (k.device o).count - 1 := by simp [modDevice]
  dsimp only
  rw [hcount]
  split_ifs with h0
  · rw [Ledger.dropRef_last h0, ledger_finalizeDevice, ledger_modDevice_count]
    rfl
  · rw [Ledger.dropRef_more h0, ledger_modDevice_count]
    rfl

/-- **`Cleanup_Thread_Cap_Object`**: whatever it wakes on the way, it releases the object. -/
theorem ledger_cleanupThreadCapObject (t : Nat) (e : CapEntry) (dying : Bool)
    (ht : t ≠ 0) (hv : e.valid = true) (hs : k.ledger.Slotted e)
    (hpos : ∀ P, e.kind.pool = some P → k.ledger.count P e.object ≠ 0) :
    (k.cleanupThreadCapObject t e dying).ledger = k.ledger.release e := by
  unfold cleanupThreadCapObject Ledger.release
  rw [if_neg (by simp [ht, hv])]
  cases hk : e.kind with
  | endpointObject =>
    obtain ⟨h1, -, h3⟩ := hs .endpoint (by rw [hk]; rfl)
    have hp := hpos .endpoint (by rw [hk]; rfl)
    dsimp only [ObjectKind.pool]
    -- failing the endpoint and unlinking the thread keep the ledger, so also the count
    have hpre : ((if dying = true ∧ e.rights.receive = true then k.failEndpoint e.object
        else k).cleanupEndpointWaiter t e.object).ledger = k.ledger := by
      rw [ledger_cleanupEndpointWaiter, apply_ite ledger, ledger_failEndpoint, ite_self]
    rw [ledger_releaseEndpoint _ _ h1, hpre]
    · show Ledger.count (ledger _) .endpoint e.object < _
      rw [hpre]
      exact h3
    · show Ledger.count (ledger _) .endpoint e.object ≠ 0
      rw [hpre]
      exact hp
  | memoryObject =>
    obtain ⟨h1, -, -⟩ := hs .memory (by rw [hk]; rfl)
    exact ledger_releaseMemory k e.object h1 (hpos .memory (by rw [hk]; rfl))
  | notificationObject =>
    obtain ⟨h1, h2, -⟩ := hs .notification (by rw [hk]; rfl)
    dsimp only [ObjectKind.pool]
    have hpre := ledger_cleanupNotificationWaiter k t e.object dying
    rw [ledger_releaseNotification _ _ h1, hpre]
    show e.object ≤ (Ledger.slab (ledger _) .notification).carved
    rw [hpre]
    exact h2
  | irqObject =>
    have hp := hpos .device (by rw [hk]; rfl)
    dsimp only [ObjectKind.pool]
    have hpre := ledger_cleanupLineWaiter k t e.object
    rw [ledger_releaseDevice, hpre]
    show Ledger.count (ledger _) .device e.object ≠ 0
    rw [hpre]
    exact hp
  | mmioObject => exact ledger_releaseDevice k e.object (hpos .device (by rw [hk]; rfl))
  | replyObject => exact ledger_failReplyTarget k e.object e.badge
  | _ => rfl

end

end State

end Aegir.Kernel
