/-
  Signals: the notification and interrupt-binding calls of `Arch.Traps`, `Signal` itself, and the
  delivery of an interrupt (`Kernel.Notifications`, `Kernel.Interrupts`).

  A notification is a word of bits.  A signal sets bits and hands the word to ONE thread: to the
  recorded waiter of an `ntfn_wait`, else to the BOUND thread if that is blocked on a notification or
  in a receive.  A blocked receive is cancelled then, and the bits arrive as a synthetic message.

  The machine of `Traps.Syscalls` is extended here by these calls and by interrupts.
-/
import Aegir.Traps.Syscalls

namespace Aegir.Kernel

open Aegir.Arch

/-- `Kernel.Notifications.Status`. -/
inductive NtfnStatus where
  | ok
  | noSlot
  | alreadyBound
  | alreadyWaiting
deriving DecidableEq, Repr

namespace State

variable (k : State) (cur : Nat) (f : TrapFrame)

/-! ## `Kernel.Notifications` -/

/-- The consumed bits go to `a0` of a blocked waiter, which wakes. -/
def wakeWithBits (thread object : Nat) : State :=
  let r := k.takeNotification object
  (r.2.setA0 thread r.1).wake thread

/-- A blocked receive of the bound thread is cancelled and completed by a synthetic message. -/
def wakeWithMessage (thread object : Nat) : State :=
  let r := (k.cancelReceive thread).takeNotification object
  ((r.2.writeNotificationMessage thread r.1).setA0 thread resultOk).wake thread

/-- `Signal`. -/
def signal (object : Nat) (bits : U64) : State :=
  if k.isNotificationSlot object then
    let k₁ := k.modNotification object fun n => { n with bits := n.bits ||| bits }
    let waiting := (k₁.notification object).waiting
    if waiting ≠ 0 then
      (k₁.modNotification object fun n => { n with waiting := 0 }).wakeWithBits waiting object
    else
      let thread := (k₁.notification object).boundThread
      if thread = 0 then k₁
      else if (k₁.tcb thread).state = .blockedNotification then k₁.wakeWithBits thread object
      else if (k₁.tcb thread).state = .blockedReceive then k₁.wakeWithMessage thread object
      else k₁
  else k

/-- `Record_Waiter`. -/
def recordWaiter (object thread : Nat) : NtfnStatus × State :=
  if k.isNotificationSlot object = false ∨ thread = 0 then (.noSlot, k)
  else if (k.notification object).waiting ≠ 0 ∧ (k.notification object).waiting ≠ thread then
    (.alreadyWaiting, k)
  else (.ok, k.modNotification object fun n => { n with waiting := thread })

/-- `Bind_Thread`. -/
def bindThread (object thread : Nat) : NtfnStatus × State :=
  if k.isNotificationSlot object = false ∨ thread = 0 then (.noSlot, k)
  else if (k.notification object).boundThread ≠ 0 ∨ (k.tcb thread).boundNtfn ≠ 0 then
    (.alreadyBound, k)
  else
    (.ok, (k.modNotification object fun n => { n with boundThread := thread }).modTcb thread
      fun c => { c with boundNtfn := object })

/-! ## The calls -/

/-- `Lookup_Ntfn_Cap`: the notification that the register names through a cap with the right. -/
def lookupNtfnCap (raw : U64) (right : Rights → Bool) : Option Nat :=
  match decodeHandle raw with
  | none => none
  | some cap =>
    match k.lookupCap cur cap with
    | none => none
    | some e => if e.kind ≠ .notificationObject ∨ right e.rights = false then none else some e.object

/-- `Handle_Ntfn_Wait`. -/
def handleNtfnWait : State :=
  match k.lookupNtfnCap cur f.a0 Rights.wait with
  | none => k.setA0 cur u64Last
  | some object =>
    let r := k.takeNotification object
    if r.1 ≠ 0 then r.2.setA0 cur r.1
    else
      match (r.2.setA0 cur f.a0).recordWaiter object cur with
      | (.ok, k') => k'.modTcb cur fun c => { c with state := .blockedNotification }
      | (_, k') => k'.setA0 cur u64Last

/-- `Handle_Ntfn_Signal`. -/
def handleNtfnSignal : State :=
  match k.lookupNtfnCap cur f.a0 Rights.write with
  | none => k.setA0 cur 1
  | some object => (k.signal object f.a1).setA0 cur 0

/-- `Handle_Ntfn_Bind_Thread`. -/
def handleNtfnBindThread : State :=
  match k.lookupNtfnCap cur f.a0 Rights.manage with
  | none => k.setA0 cur 1
  | some object =>
    let r := k.bindThread object cur
    r.2.setA0 cur (if r.1 = .ok then 0 else 1)

/-- `Line_Of` an IRQ object. -/
def isLine (object : Nat) : Bool := object != 0 && (k.device object).kind == .irq

/-- `Handle_IRQ_Bind_Ntfn`. -/
def handleIrqBindNtfn : State :=
  match decodeHandle f.a0 with
  | none => k.setA0 cur 1
  | some cap =>
    match k.lookupCap cur cap with
    | none => k.setA0 cur 1
    | some e =>
      if e.kind ≠ .irqObject ∨ e.rights.ack = false then k.setA0 cur 1
      else
        match k.lookupNtfnCap cur f.a1 Rights.write with
        | none => k.setA0 cur 1
        | some object =>
          if k.isLine e.object = false then k.setA0 cur 1
          else (k.modDevice e.object fun d => { d with ntfn := object, ntfnBadge := f.a2 }).setA0 cur 0

/-! ## Interrupts -/

/-- One line of a source is poked. -/
def deliverLine (line : Nat) : State :=
  let k₁ := k.modDevice line fun d => { d with pending := true, inFlight := true }
  let d := k₁.device line
  let k₂ := if d.ntfn ≠ 0 then k₁.signal d.ntfn d.ntfnBadge else k₁
  if (k₂.device line).waiter ≠ 0 then
    (k₂.wake (k₂.device line).waiter).modDevice line fun d => { d with waiter := 0 }
  else k₂

/-- The walk of `Deliver` along the chain of a source. -/
def deliverChain (k : State) : Nat → Nat → State
  | _, 0 => k
  | line, n + 1 =>
    if line = 0 then k
    else deliverChain (k.deliverLine line) ((k.deliverLine line).device line).next n

/-- `Deliver` of a source that no kernel handler claims. -/
def deliver (source : Nat) : State :=
  if maxSources ≤ source then k else k.deliverChain (k.lines source) k.deviceSlab.carved

end State

/-! ## The extended machine -/

/-- The calls on notifications. -/
inductive NtfnCall where
  | wait
  | signal
  | bindThread
  | irqBind
deriving DecidableEq, Repr

/-- What can happen on the machine with signals. -/
inductive SignalAction where
  | kernel (action : Action)
  | ntfn (call : NtfnCall) (thread : Nat) (frame : TrapFrame)
  | interrupt (source : Nat)

namespace State

/-- One notification call of the thread `cur`. -/
def handleNtfn (k : State) (cur : Nat) (f : TrapFrame) : NtfnCall → State
  | .wait => k.handleNtfnWait cur f
  | .signal => k.handleNtfnSignal cur f
  | .bindThread => k.handleNtfnBindThread cur f
  | .irqBind => k.handleIrqBindNtfn cur f

/-- One step of the machine with signals. -/
def signalStep (k : State) : SignalAction → Option State
  | .kernel a => k.step a
  | .ntfn call t f =>
    if k.halted then none
    else if t ≠ 0 ∧ (k.tcb t).state = .running then some (k.handleNtfn t f call) else none
  | .interrupt source => if k.halted then none else some (k.deliver source)

end State

/-!
## Waiting for interrupts: `irq_wait`, `irq_ack` and everything that touches an IRQ line (`Kernel.Interrupts`, `Arch.Traps`)

A line belongs to a SOURCE and is linked into the source's chain.  `Wait` registers the caller as the line's
waiter and the handler blocks it; `Deliver` marks every line of the chain as in flight and wakes its waiter;
`Ack` clears all of it.  The machine here is that of these operations, of the calls that create, copy and
close caps on devices, and of a thread's death; WHATEVER ELSE runs is one action that leaves the lines alone
and puts no thread to sleep on one.  It may WAKE a thread that sleeps there, as a signal can.
-/

/-- `Kernel.Interrupts.Status`, as `Wait` and `Ack` answer it. -/
inductive IrqStatus where
  | ok
  | invalidIrq
  | wouldBlock
  | alreadyWaiting
deriving DecidableEq, Repr

namespace State

variable (k : State) (cur : Nat) (f : TrapFrame)

/-! ## `Kernel.Interrupts` -/

/-- The first test of `Wait`: a waiter that died is forgotten. -/
def dropDeadWaiter (line : Nat) : State :=
  if (k.device line).waiter ≠ 0 ∧ (k.tcb (k.device line).waiter).state = .dead then
    k.modDevice line fun d => { d with waiter := 0 }
  else k

/-- `Wait`. -/
def irqWait (line thread : Nat) : IrqStatus × State :=
  if thread = 0 then (.invalidIrq, k)
  else
    let k₁ := k.dropDeadWaiter line
    let d := k₁.device line
    if d.pending ∧ d.inFlight then (.ok, k₁)
    else if d.inFlight ∧ ¬ d.pending then (.wouldBlock, k₁)
    else if d.waiter ≠ 0 ∧ d.waiter ≠ thread then (.alreadyWaiting, k₁)
    else if (k₁.tcb thread).state = .dead then (.invalidIrq, k₁)
    else (.wouldBlock, k₁.modDevice line fun d => { d with pending := false, waiter := thread })

/-- `Ack`, with the source to complete. -/
def irqAck (line : Nat) : IrqStatus × U64 × State :=
  let source := (k.device line).source
  if (k.device line).inFlight = false then
    (.wouldBlock, source, k.modDevice line fun d => { d with pending := false, waiter := 0 })
  else
    (.ok, source, k.modDevice line fun d => { d with pending := false, inFlight := false, waiter := 0 })

/-! ## The calls -/

/-- The line that a register names through an IRQ cap with the right. -/
def lookupLine (raw : U64) (right : Rights → Bool) : Option Nat :=
  match decodeHandle raw with
  | none => none
  | some cap =>
    match k.lookupCap cur cap with
    | none => none
    | some e =>
      if e.kind ≠ .irqObject ∨ right e.rights = false then none
      else if k.isLine e.object then some e.object else none

/-- `Handle_IRQ_Wait`. -/
def handleIrqWait : State :=
  match k.lookupLine cur f.a0 Rights.wait with
  | none => k.setA0 cur 1
  | some line =>
    match k.irqWait line cur with
    | (.ok, k') => k'.setA0 cur 0
    | (.wouldBlock, k') => (k'.setA0 cur 0).modTcb cur fun c => { c with state := .blockedIrq }
    | (_, k') => k'.setA0 cur 1

/-- `Handle_IRQ_Ack`; completing the source at the interrupt controller is not modelled. -/
def handleIrqAck : State :=
  match k.lookupLine cur f.a0 Rights.ack with
  | none => k.setA0 cur 1
  | some line =>
    match k.irqAck line with
    | (.ok, _, k') => k'.setA0 cur 0
    | (.wouldBlock, _, k') => k'.setA0 cur 2
    | (_, _, k') => k'.setA0 cur 1

/-- `Deliver`; a source with a handler of the kernel's own pokes no line. -/
def deliverFrom (kernelHandled : Nat → Bool) (source : Nat) : State :=
  if kernelHandled source then k else k.deliver source

/-! ## The machine -/

/-- A device slot that was handed out. -/
def Handed (o : Nat) : Prop := 1 ≤ o ∧ o ≤ k.deviceSlab.carved ∧ o ∉ k.deviceSlab.free

instance (k : State) (o : Nat) : Decidable (k.Handed o) := inferInstanceAs (Decidable (_ ∧ _ ∧ _))

/-- The device that a cap is on was handed out: what the reference counts are for. -/
def DeviceCap (e : CapEntry) : Prop := (e.kind = .irqObject ∨ e.kind = .mmioObject) ∧ k.Handed e.object

/-- The rest of the kernel: of the device slots it changes the reference counts and the bindings to notifications
    only, it leaves the chains alone, and it puts no thread to sleep on a line. -/
structure Elsewhere (k k' : State) : Prop where
  device : ∀ o, k'.device o = { k.device o with
    count := (k'.device o).count, ntfn := (k'.device o).ntfn, ntfnBadge := (k'.device o).ntfnBadge }
  lines : k'.lines = k.lines
  slab : k'.deviceSlab = k.deviceSlab
  state : ∀ t, (k'.tcb t).state = .blockedIrq → (k.tcb t).state = .blockedIrq

/-- What happens to IRQ lines. -/
inductive IrqAction where
  | create (thread : Nat) (frame : TrapFrame)
  | createMsi (thread : Nat) (frame : TrapFrame) (vector : Option U64)
  | ioMap (thread : Nat) (frame : TrapFrame)
  /-- A mint, a grant or a transfer of a cap on a device. -/
  | copy (thread : Nat) (e : CapEntry)
  | wait (thread : Nat) (frame : TrapFrame)
  | ack (thread : Nat) (frame : TrapFrame)
  | interrupt (source : Nat)
  /-- `cap_delete`, or a cap of a process that ends. -/
  | close (thread cap : Nat) (dying : Bool)
  | die (thread : Nat)
  | elsewhere

/-- The caller is running. -/
def Runs (t : Nat) : Prop := t ≠ 0 ∧ (k.tcb t).state = .running

/-- **One action.**  Caps on devices name slots that were handed out, and only a thread that is not asleep on a
    line closes one. -/
inductive IrqStep (kernelHandled : Nat → Bool) (k : State) : IrqAction → State → Prop
  | create {t : Nat} (f : TrapFrame) (hrun : k.Runs t) : IrqStep kernelHandled k (.create t f) (k.handleIrqCreate t f)
  | createMsi {t : Nat} (f : TrapFrame) (vector : Option U64) (hrun : k.Runs t) :
    IrqStep kernelHandled k (.createMsi t f vector) (k.handleIrqMsiCreate t f vector)
  | ioMap {t : Nat} (f : TrapFrame) (hrun : k.Runs t) : IrqStep kernelHandled k (.ioMap t f) (k.handleIoMap t f)
  | copy (t : Nat) {e : CapEntry} (he : k.DeviceCap e) :
    IrqStep kernelHandled k (.copy t e) (k.insertCap t e.kind e.object e.rights e.badge).2
  | wait {t : Nat} (f : TrapFrame) (hrun : k.Runs t)
    (hcap : ∀ line, k.lookupLine t f.a0 Rights.wait = some line → k.Handed line) :
    IrqStep kernelHandled k (.wait t f) (k.handleIrqWait t f)
  | ack {t : Nat} (f : TrapFrame) (hrun : k.Runs t)
    (hcap : ∀ line, k.lookupLine t f.a0 Rights.ack = some line → k.Handed line) :
    IrqStep kernelHandled k (.ack t f) (k.handleIrqAck t f)
  | interrupt (source : Nat) : IrqStep kernelHandled k (.interrupt source) (k.deliverFrom kernelHandled source)
  | close {t cap : Nat} (dying : Bool) (hawake : (k.tcb t).state ≠ .blockedIrq)
    (hcap : ∀ e, (k.capsOf t).lookup cap = some e → k.DeviceCap e) :
    IrqStep kernelHandled k (.close t cap dying) (k.closeCap t cap dying).2
  | die (t : Nat) :
    IrqStep kernelHandled k (.die t) ((k.cleanupIrqThread t).modTcb t fun c => { c with state := .dead })
  | elsewhere {k' : State} (h : Elsewhere k k') : IrqStep kernelHandled k .elsewhere k'

end State

end Aegir.Kernel
