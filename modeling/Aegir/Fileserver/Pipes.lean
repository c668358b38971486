/-
  Pipes of the file server.

  PIPE: is a volume of named rings of 16 KiB.  A read of an empty pipe and a write that does not fit are
  DEFERRED: their caps go to the pending table, whose slots are reused first-free, and `drainPipe` walks it in
  slot order until a pass completes nothing.

  A message carries the name behind PIPE:, what `Map_Buf` shows, and whether the arena has memory left.
  `clock` counts messages; the log records replies and cap deletions.
-/
import Aegir.Lib.Circular

namespace Aegir.Fileserver

open Aegir.Lib

/-! ## Constants -/

def pipeBytes : Nat := 16384
def maxPipeName : Nat := 40
def bufBytes : Nat := 32768

def statusOk : Nat := 0
def statusNotFound : Nat := 1
def statusNotReady : Nat := 2
def statusBadArgs : Nat := 3

/-! ## Tables -/

abbrev Name := List Char

structure Pipe where
  valid : Bool
  name : Name
  ring : Circular UInt8
  eof : Bool

inductive PendingKind
  | read
  | write
deriving DecidableEq

/-- A deferred request.  `window` is what a mapping of `buf` shows, if it can be mapped. -/
structure Pending where
  kind : PendingKind
  pipe : Nat
  reply : Nat
  buf : Nat
  length : Nat
  window : Option (Nat → UInt8)
  ticket : Nat

/-- What a reply says was moved through a ring. -/
inductive Io
  | nothing
  | took (pipe : Nat) (bytes : List UInt8)
  | gave (pipe : Nat) (bytes : List UInt8)
deriving DecidableEq

inductive Event
  | replied (ticket reply status count : Nat) (io : Io)
  | deleted (ticket buf : Nat)
  | emptied (pipe : Nat)
deriving DecidableEq

/-- Lower case of A to Z. -/
def lower (c : Char) : Char := if 'A' ≤ c ∧ c ≤ 'Z' then Char.ofNat (c.toNat + 32) else c

def Pipe.matches (p : Pipe) (name : Name) : Bool := p.name.map lower = name.map lower

def Pipe.buffered (p : Pipe) : Nat := p.ring.count
def Pipe.spaceLeft (p : Pipe) : Nat := pipeBytes - p.ring.count
def Pipe.contents (p : Pipe) : List UInt8 := p.ring.contents pipeBytes

def find (pipes : List Pipe) (name : Name) : Option Nat := pipes.findIdx? fun p => p.valid && p.matches name

def emptyRing : Circular UInt8 := ⟨fun _ => 0, 0, 0⟩

/-- `Find_Or_Create`: the pipe, the table, and whether it is new.  `grow` is the arena's answer. -/
def findOrCreate (pipes : List Pipe) (name : Name) (grow : Bool) : Option (Nat × List Pipe × Bool) :=
  match find pipes name with
  | some i => some (i, pipes, false)
  | none =>
    if name.length = 0 ∨ name.length > maxPipeName then none
    else
      match pipes.findIdx? fun p => !p.valid with
      | some i =>
        some (i, pipes.modify i fun p => ⟨true, name, p.ring.clear, false⟩, true)
      | none => if grow then some (pipes.length, pipes ++ [⟨true, name, emptyRing, false⟩], true) else none

/-- `Stash`: the first free slot, or a new one. -/
def stash (pending : List (Option Pending)) (e : Pending) (grow : Bool) : Option (List (Option Pending)) :=
  match pending.findIdx? Option.isNone with
  | some k => some (pending.set k (some e))
  | none => if grow then some (pending ++ [some e]) else none

/-! ## Draining -/

/-- The bytes of a window. -/
def windowBytes (window : Nat → UInt8) (length : Nat) : List UInt8 := (List.range length).map window

def Pipe.push (p : Pipe) (bytes : List UInt8) : Pipe := { p with ring := p.ring.pushAll pipeBytes bytes }

/-- Up to `count` bytes. -/
def Pipe.popped (p : Pipe) (count : Nat) : List UInt8 := (p.ring.popUpTo pipeBytes count).1
def Pipe.pop (p : Pipe) (count : Nat) : Pipe := { p with ring := (p.ring.popUpTo pipeBytes count).2 }

/-- How many bytes a read moves. -/
def readCount (p : Pipe) (length : Nat) : Nat := min (min length p.buffered) bufBytes

def Pending.finish (e : Pending) (status count : Nat) (io : Io) : List Event :=
  [.replied e.ticket e.reply status count io, .deleted e.ticket e.buf]

/-- One slot of `Drain_Pipe`: the pipe afterwards and what was sent, if the request can be completed. -/
def drainSlot (i : Nat) (p : Pipe) (e : Pending) : Option (Pipe × List Event) :=
  if e.pipe ≠ i then none
  else
    match e.kind with
    | .read =>
      if p.buffered > 0 ∨ p.eof = true then
        if readCount p e.length > 0 then
          match e.window with
          | none => some (p, e.finish statusNotFound 0 .nothing)
          | some _ =>
            let bytes := p.popped (readCount p e.length)
            some (p.pop (readCount p e.length), e.finish statusOk bytes.length (.gave i bytes))
        else some (p, e.finish statusOk 0 .nothing)
      else none
    | .write =>
      if p.spaceLeft ≥ e.length then
        match e.window with
        | none => some (p, e.finish statusNotFound e.length .nothing)
        | some w =>
          some (p.push (windowBytes w e.length),
            e.finish statusOk e.length (.took i (windowBytes w e.length)))
      else none

structure Drained where
  pipe : Pipe
  slots : List (Option Pending)
  log : List Event
  progress : Bool

/-- One pass over the table. -/
def drainPass (i : Nat) : Pipe → List (Option Pending) → Drained
  | p, [] => ⟨p, [], [], false⟩
  | p, none :: slots =>
    let d := drainPass i p slots
    ⟨d.pipe, none :: d.slots, d.log, d.progress⟩
  | p, some e :: slots =>
    match drainSlot i p e with
    | none =>
      let d := drainPass i p slots
      ⟨d.pipe, some e :: d.slots, d.log, d.progress⟩
    | some (p', sent) =>
      let d := drainPass i p' slots
      ⟨d.pipe, none :: d.slots, sent ++ d.log, true⟩

/-- Passes until one makes no progress. -/
def drain (i : Nat) : Nat → Pipe → List (Option Pending) → Drained
  | 0, p, slots => ⟨p, slots, [], false⟩
  | fuel + 1, p, slots =>
    let d := drainPass i p slots
    if d.progress then
      let r := drain i fuel d.pipe d.slots
      ⟨r.pipe, r.slots, d.log ++ r.log, true⟩
    else d

/-! ## The server -/

structure Server where
  namesDone : Bool
  pipes : List Pipe
  pending : List (Option Pending)
  clock : Nat
  log : List Event

inductive Op
  | namesDone
  | stat
  | open
  | read
  | write
  | delete
  | truncate
  | mkdir
  | rmdir
  | close
deriving DecidableEq

/-- `path` is the name behind PIPE:, `none` where `Fetch_Path` refuses. -/
structure Message where
  op : Op
  path : Option Name
  length : Nat
  buf : Nat
  reply : Nat
  window : Option (Nat → UInt8)
  grow : Bool

def start : Server := ⟨false, [], [], 0, []⟩

/-! ## Handlers -/

variable (s : Server) (m : Message)

def Server.emit (events : List Event) : Server := { s with log := s.log ++ events }

def Server.setPipe (i : Nat) (p : Pipe) : Server := { s with pipes := s.pipes.set i p }

/-- `Reply2`. -/
def Server.reply2 (status count : Nat) : Server :=
  s.emit [.replied s.clock m.reply status count .nothing]

/-- The end of `Handle_Read` and `Handle_Write`: the buffer cap is deleted, then the reply is sent. -/
def Server.conclude (status count : Nat) (io : Io) : Server :=
  s.emit ((if m.buf ≠ 0 then [.deleted s.clock m.buf] else []) ++ [.replied s.clock m.reply status count io])

/-- `Drain_Pipe`.  Every pass but the last frees a slot. -/
def Server.drainPipe (i : Nat) : Server :=
  match s.pipes[i]? with
  | none => s
  | some p =>
    let d := drain i (s.pending.length + 1) p s.pending
    { s with
      pipes := s.pipes.set i d.pipe
      pending := d.slots
      log := s.log ++ d.log }

/-- `Fail_Pipe_Pendings`. -/
def Server.failPipePendings (i : Nat) : Server :=
  { s with
    pending := s.pending.map fun slot => slot.bind fun e => if e.pipe = i then none else some e
    log := s.log ++ (s.pending.flatMap fun slot => match slot with
      | none => []
      | some e => if e.pipe = i then e.finish statusNotFound 0 .nothing else []) }

/-- `Destroy` and `Reset`. -/
def Server.destroy (i : Nat) : Server :=
  { s with
    pipes := s.pipes.modify i fun p => ⟨false, [], p.ring.clear, false⟩
    log := s.log ++ [.emptied i] }

def Server.reset (i : Nat) : Server :=
  { s with
    pipes := s.pipes.modify i fun p => { p with ring := p.ring.clear, eof := false }
    log := s.log ++ [.emptied i] }

def Server.setEof (i : Nat) : Server :=
  { s with pipes := s.pipes.modify i fun p => { p with eof := true } }

/-- The pipe of a name, created where there is none. -/
def Server.findOrCreate (s : Server) (name : Name) (grow : Bool) : Option (Nat × Server) :=
  match Fileserver.findOrCreate s.pipes name grow with
  | none => none
  | some (i, pipes, new) =>
    some (i, { s with pipes := pipes, log := if new then s.log ++ [.emptied i] else s.log })

/-- The entry that keeps a deferred request. -/
def Server.deferred (kind : PendingKind) (i : Nat) : Pending :=
  ⟨kind, i, m.reply, m.buf, m.length, m.window, s.clock⟩

/-- `Stash`, with the poll answer where the arena is out. -/
def Server.defer (kind : PendingKind) (i : Nat) : Server :=
  match stash s.pending (s.deferred m kind i) m.grow with
  | some pending => { s with pending := pending }
  | none => s.conclude m statusNotReady 0 .nothing

/-- `Handle_Write` for a name on PIPE:. -/
def Server.handleWrite : Server :=
  if ¬ s.namesDone then s.conclude m statusNotReady 0 .nothing
  else if m.buf = 0 ∨ m.length = 0 then s.conclude m statusBadArgs 0 .nothing
  else
    match m.path with
    | none => s.conclude m statusBadArgs 0 .nothing
    | some name =>
      if name = [] ∨ m.length > pipeBytes then s.conclude m statusBadArgs 0 .nothing
      else
        match s.findOrCreate name m.grow with
        | none => s.conclude m statusNotReady 0 .nothing
        | some (i, s) =>
          match s.pipes[i]? with
          | none => s
          | some p =>
            if p.spaceLeft < m.length then s.defer m .write i
            else
              match m.window with
              | none => s.conclude m statusNotFound 0 .nothing
              | some w =>
                let bytes := windowBytes w m.length
                ((s.setPipe i (p.push bytes)).drainPipe i).conclude m
                  statusOk m.length (.took i bytes)

/-- `Handle_Read` for a name on PIPE:. -/
def Server.handleRead : Server :=
  if ¬ s.namesDone then s.conclude m statusNotReady 0 .nothing
  else if m.buf = 0 ∨ m.length = 0 then s.conclude m statusBadArgs 0 .nothing
  else
    match m.path with
    | none => s.conclude m statusBadArgs 0 .nothing
    | some name =>
      match find s.pipes name with
      | none => s.conclude m statusNotFound 0 .nothing
      | some i =>
        match s.pipes[i]? with
        | none => s
        | some p =>
          if p.buffered = 0 then
            if p.eof then s.conclude m statusOk 0 .nothing
            else s.defer m .read i
          else
            match m.window with
            | none => s.conclude m statusNotFound 0 .nothing
            | some _ =>
              let bytes := p.popped (readCount p m.length)
              ((s.setPipe i (p.pop (readCount p m.length))).drainPipe i).conclude m
                statusOk bytes.length (.gave i bytes)

/-- `Handle_Stat_Or_Open` for a name on PIPE:. -/
def Server.handleStatOrOpen : Server :=
  if ¬ s.namesDone then s.reply2 m statusNotReady 0
  else
    match m.path with
    | none => s.reply2 m statusBadArgs 0
    | some name =>
      if name = [] then s.reply2 m statusBadArgs 0
      else if m.op = .open then
        match s.findOrCreate name m.grow with
        | none => s.reply2 m statusNotReady 0
        | some (_, s) => s.reply2 m statusOk 0
      else
        match (find s.pipes name).bind fun i => s.pipes[i]? with
        | none => s.reply2 m statusNotFound 0
        | some p => s.reply2 m statusOk p.buffered

/-- `Handle_Path_Op` for a name on PIPE:. -/
def Server.handlePathOp : Server :=
  if ¬ s.namesDone then s.reply2 m statusNotReady 0
  else
    match m.path with
    | none => s.reply2 m statusBadArgs 0
    | some name =>
      if m.op = .delete then
        match find s.pipes name with
        | none => s.reply2 m statusNotFound 0
        | some i => ((s.failPipePendings i).destroy i).reply2 m statusOk 0
      else if m.op = .truncate then
        match find s.pipes name with
        | none => s.reply2 m statusNotFound 0
        | some i => ((s.reset i).drainPipe i).reply2 m statusOk 0
      else s.reply2 m statusBadArgs 0

/-- `Handle_Close` for a name on PIPE:. -/
def Server.handleClose : Server :=
  match m.path with
  | none => s.reply2 m statusBadArgs 0
  | some name =>
    match find s.pipes name with
    | none => s.reply2 m statusNotFound 0
    | some i => ((s.setEof i).drainPipe i).reply2 m statusOk 0

def Server.serve : Server :=
  match m.op with
  | .namesDone => ({ s with namesDone := true } : Server).reply2 m statusOk 0
  | .stat | .open => s.handleStatOrOpen m
  | .read => s.handleRead m
  | .write => s.handleWrite m
  | .delete | .truncate | .mkdir | .rmdir => s.handlePathOp m
  | .close => s.handleClose m

/-- One turn of the receive loop. -/
def Server.turn : Server := { s.serve m with clock := s.clock + 1 }

def after (ms : List Message) : Server := ms.foldl Server.turn start

end Aegir.Fileserver
