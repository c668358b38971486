/-
  Rendezvous IPC (`Kernel.IPC`): Call, Send, Receive, Reply.

  A message is the first 96 bytes of a thread's IPC buffer page: a label, six words, four cap slots, and the
  badge.  A transfer inserts the caps ONE BY ONE and copies the message after the last one; a failure on the
  way closes the caps inserted so far.

  A call or send goes to a blocked receiver or is queued: a call queues the caller, a send without caps a
  COPY.  A receive takes the head caller, then the head copy, or registers.  A call that was received leaves
  a one-shot REPLY cap, whose badge is the generation of the caller's slot.
-/
import Aegir.Kernel.Tasks

namespace Aegir.Kernel

/-- `Kernel.IPC.Status`. -/
inductive IpcStatus where
  | ok
  | invalidTask
  | invalidCap
  | wrongObject
  | rightsDenied
  | wouldBlock
  | transferFailed
  | endpointGone
  | replyMissing
  | noEndpoints
deriving DecidableEq, Repr

/-- `Send_Right` and `Receive_Right`. -/
def sendRight : Rights := { send := true }
def receiveRight : Rights := { receive := true }

/-! ## The IPC buffer overlay -/

namespace Page

def label (b : Page) : U64 := b 0
def word (b : Page) (i : Nat) : U64 := b (8 + 8 * i)
def cap (b : Page) (i : Nat) : U64 := b (56 + 8 * i)
def badge (b : Page) : U64 := b 88

/-- Overwrite the message of a buffer page; the rest of the page stays. -/
def putMessage (b : Page) (label : U64) (words : Nat → U64) (caps : Nat → U64) (badge : U64) :
    Page := fun off =>
  if off = 0 then label
  else if off < 56 then words ((off - 8) / 8)
  else if off < 88 then caps ((off - 56) / 8)
  else if off = 88 then badge
  else b off

end Page

namespace State

variable (k : State)

/-- `Buffer_Of`: the frame of a thread's IPC buffer. -/
def bufferOf (thread : Nat) : Option Nat :=
  if thread = 0 ∨ (k.tcb thread).ipcBuffer = 0 then none else some (k.tcb thread).ipcBuffer

/-- Write a message into the buffer page at a frame. -/
def writeMessage (frame : Nat) (label : U64) (words caps : Nat → U64) (badge : U64) :
    State :=
  { k with memory :=
      Function.update k.memory frame ((k.memory frame).putMessage label words caps badge) }

/-- `Resolve_Endpoint`: the endpoint a cap names, and the badge the message will carry.  A zero
    badge on an identity endpoint is stamped with the caller's process id. -/
def resolveEndpoint (caller cap : Nat) (needed : Rights) :
    Except IpcStatus (Nat × U64) :=
  if k.isDead caller then .error .invalidTask
  else
    match k.lookupCap caller cap with
    | none => .error .invalidCap
    | some e =>
      if e.kind ≠ .endpointObject then .error .wrongObject
      else if hasRights e.rights needed = false then .error .rightsDenied
      else if e.object = 0 then .error .wrongObject
      else if e.badge = 0 ∧ (k.endpoint e.object).stampIdentity then
        .ok (e.object, UInt64.ofNat (k.pcb (k.tcb caller).process).id)
      else .ok (e.object, e.badge)

/-! ## Message transfer -/

/-- `Rollback`: close every cap inserted so far. -/
def rollback (k : State) (receiver : Nat) : List Nat → State
  | [] => k
  | h :: hs => rollback (if h ≠ 0 then (k.closeCap receiver h false).2 else k) receiver hs

/-- The cap loop of `Transfer_Message` over the slots of `raws`, `done` being the handles of the
    slots before.  `none` when a cap could not be transferred, after the rollback. -/
def transferCaps (k : State) (sender receiver : Nat) : List U64 → List Nat → Option (List Nat) × State
  | [], done => (some done, k)
  | raw :: raws, done =>
    if raw = 0 then transferCaps k sender receiver raws (done ++ [0])
    else if raw.toNat > handleLast then (none, k.rollback receiver done)
    else
      match k.lookupCap sender raw.toNat with
      | none => (none, k.rollback receiver done)
      | some e =>
        if e.rights.transfer = false ∨ e.kind = .replyObject then (none, k.rollback receiver done)
        else
          match k.insertCap receiver e.kind e.object e.rights e.badge with
          | (.error _, k') => (none, k'.rollback receiver done)
          | (.ok h, k') => transferCaps k' sender receiver raws (done ++ [h])

/-- `Transfer_Message`: caps first, then the copy. -/
def transferMessage (sender receiver : Nat) (badge : U64) : IpcStatus × State :=
  match k.bufferOf sender, k.bufferOf receiver with
  | some sf, some rf =>
    let raws := (List.range 4).map (k.memory sf).cap
    match k.transferCaps sender receiver raws [] with
    | (none, k') => (.transferFailed, k')
    | (some handles, k') =>
      let sb := k'.memory sf
      (.ok, k'.writeMessage rf sb.label sb.word (fun i => UInt64.ofNat (handles.getD i 0)) badge)
  | _, _ => (.invalidTask, k)

/-- `Mint_Reply_Cap`: a reply cap on `caller` in the receiver's table, tagged with the generation
    of the caller's slot. -/
def mintReplyCap (receiver caller : Nat) : Except IpcStatus Nat × State :=
  match k.insertCap receiver .replyObject caller noRights (k.tcb caller).replyGeneration with
  | (.error _, k') => (.error .transferFailed, k')
  | (.ok h, k') => (.ok h, k'.modTcb caller fun c => { c with awaitingReply := true })

/-! ## Rendezvous operations -/

/-- The recorded receiver is really blocked in `receive` on this endpoint. -/
def receiverReady (object : Nat) : Bool :=
  let r := (k.endpoint object).waitingReceiver
  r != 0 && !k.isDead r && (k.tcb r).state == .blockedReceive && (k.tcb r).recvEp == object

/-- Drop a recorded receiver that is not blocked in `receive` any more. -/
def dropStaleReceiver (object : Nat) : State :=
  let r := (k.endpoint object).waitingReceiver
  let k' := if r ≠ 0 ∧ k.isDead r = false then k.modTcb r fun c => { c with recvEp := 0 } else k
  k'.modEndpoint object fun e => { e with waitingReceiver := 0 }

/-- Record the badge and queue the caller itself. -/
def blockCaller (object caller : Nat) (badge : U64) : IpcStatus × State :=
  (.wouldBlock, (k.modTcb caller fun c => { c with callBadge := badge }).enqueueCaller object caller)

/-- `Call`. -/
def call (caller cap : Nat) : IpcStatus × State :=
  if k.bufferOf caller = none then (.invalidTask, k)
  else
    match k.resolveEndpoint caller cap sendRight with
    | .error s => (s, k)
    | .ok (object, badge) =>
      let k₁ := k.modTcb caller fun c => { c with replyWanted := true }
      if (k₁.endpoint object).failed then (.endpointGone, k₁)
      else if k₁.receiverReady object then
        let receiver := (k₁.endpoint object).waitingReceiver
        let k₂ := k₁.modEndpoint object fun e => { e with waitingReceiver := 0 }
        match k₂.transferMessage caller receiver badge with
        | (.ok, k₃) =>
          match k₃.mintReplyCap receiver caller with
          | (.error s, k₄) => (s, k₄.wakeWithResult receiver resultTransferFailed)
          | (.ok h, k₄) =>
            let k₅ := k₄.modTcb caller fun c => { c with callBadge := badge }
            (.wouldBlock, (k₅.setA1 receiver (UInt64.ofNat h)).wakeWithResult receiver resultOk)
        | (s, k₃) => (s, k₃.wakeWithResult receiver resultTransferFailed)
      else (k₁.dropStaleReceiver object).blockCaller object caller badge

/-- Append a filled send copy to an endpoint's send queue. -/
def appendSend (object slot : Nat) : State :=
  let tail := (k.endpoint object).sendQueueTail
  let k' := if tail = 0 then k.modEndpoint object fun e => { e with sendQueueHead := slot }
    else k.modQueuedSend tail fun q => { q with next := slot }
  k'.modEndpoint object fun e => { e with sendQueueTail := slot }

/-- `Queue_Send_Copy`: the caller's message in a pool slot (`0` when there is none). -/
def queueSendCopy (caller : Nat) (badge : U64) : Nat × State :=
  let b := k.memory (k.tcb caller).ipcBuffer
  let r := k.allocQueuedSend
  if r.1 = 0 then r
  else (r.1, r.2.modQueuedSend r.1 fun q =>
    { q with label := b.label, words := fun i => b.word i, badge := badge })

/-- Some cap slot of the caller's message is filled. -/
def hasCaps (caller : Nat) : Bool :=
  (List.range 4).any fun i => (k.memory (k.tcb caller).ipcBuffer).cap i != 0

/-- `Send`. -/
def send (caller cap : Nat) : IpcStatus × State :=
  if k.bufferOf caller = none then (.invalidTask, k)
  else
    match k.resolveEndpoint caller cap sendRight with
    | .error s => (s, k)
    | .ok (object, badge) =>
      let k₁ := k.modTcb caller fun c => { c with replyWanted := false }
      if (k₁.endpoint object).failed then (.endpointGone, k₁)
      else if k₁.receiverReady object then
        let receiver := (k₁.endpoint object).waitingReceiver
        let k₂ := k₁.modEndpoint object fun e => { e with waitingReceiver := 0 }
        match k₂.transferMessage caller receiver badge with
        | (.ok, k₃) => (.ok, (k₃.setA1 receiver 0).wakeWithResult receiver resultOk)
        | (s, k₃) => (s, k₃.wakeWithResult receiver resultTransferFailed)
      else
        let k₂ := k₁.dropStaleReceiver object
        if k₂.hasCaps caller then k₂.blockCaller object caller badge
        else
          let r := k₂.queueSendCopy caller badge
          if r.1 = 0 then r.2.blockCaller object caller badge
          else (.ok, r.2.appendSend object r.1)

/-- The branch of `Receive` that delivers the head send copy into the receiver's buffer. -/
def deliverSend (object frame : Nat) : State :=
  let slot := (k.endpoint object).sendQueueHead
  let q := k.queuedSend slot
  let k₁ := k.modEndpoint object fun e =>
    { e with sendQueueHead := q.next, sendQueueTail := if q.next = 0 then 0 else e.sendQueueTail }
  let words : Nat → U64 := fun i => if h : i < 6 then q.words ⟨i, h⟩ else 0
  (k₁.writeMessage frame q.label words (fun _ => 0) q.badge).freeQueuedSend slot

/-- `Receive`; the second component is the handle of the minted reply cap (0 for none). -/
def receive (receiver cap : Nat) : IpcStatus × Nat × State :=
  match k.bufferOf receiver with
  | none => (.invalidTask, 0, k)
  | some frame =>
    match k.resolveEndpoint receiver cap receiveRight with
    | .error s => (s, 0, k)
    | .ok (object, _) =>
      if (k.endpoint object).failed then (.endpointGone, 0, k)
      else
        let caller := (k.dequeueCaller object threadBound).1
        let k₁ := (k.dequeueCaller object threadBound).2
        if caller = 0 then
          if (k₁.endpoint object).sendQueueHead ≠ 0 then (.ok, 0, k₁.deliverSend object frame)
          else
            let r := (k₁.endpoint object).waitingReceiver
            if r ≠ 0 ∧ r ≠ receiver ∧ k₁.isDead r = false then (.invalidTask, 0, k₁)
            else
              let k₂ := k₁.modEndpoint object fun e => { e with waitingReceiver := receiver }
              (.wouldBlock, 0, k₂.modTcb receiver fun c => { c with recvEp := object })
        else
          match k₁.transferMessage caller receiver (k₁.tcb caller).callBadge with
          | (.ok, k₂) =>
            if (k₂.tcb caller).replyWanted = false then
              (.ok, 0, k₂.wakeWithResult caller resultOk)
            else
              match k₂.mintReplyCap receiver caller with
              | (.error s, k₃) => (s, 0, k₃.wakeWithResult caller resultTransferFailed)
              | (.ok h, k₃) => (.ok, h, k₃)
          | (s, k₂) => (s, 0, k₂.wakeWithResult caller resultTransferFailed)

/-- `Reply`: consume the reply cap, transfer into the caller's buffer, wake it. -/
def reply (replier cap : Nat) : IpcStatus × State :=
  if k.bufferOf replier = none then (.invalidTask, k)
  else
    match k.lookupCap replier cap with
    | none => (.replyMissing, k)
    | some e =>
      if e.kind ≠ .replyObject then (.replyMissing, k)
      else
        let caller := e.object
        if k.isDead caller ∨ (k.tcb caller).awaitingReply = false ∨
            e.badge ≠ (k.tcb caller).replyGeneration then
          (.replyMissing, k.forgetCap replier cap)
        else if k.bufferOf caller = none then
          (.replyMissing, (k.forgetCap replier cap).wakeWithResult caller resultReplyGone)
        else
          match (k.forgetCap replier cap).transferMessage replier caller 0 with
          | (.ok, k₁) =>
            (.ok, (k₁.modTcb caller fun c =>
              { c with awaitingReply := false, savedA0 := resultOk }).wake caller)
          | (_, k₁) => (.ok, k₁.wakeWithResult caller resultTransferFailed)

end State

end Aegir.Kernel
