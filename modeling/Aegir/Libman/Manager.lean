/-
  LIBMAN, the manager of shared libraries, and the libraries it runs.

  Open stages the library's file, spawns it, waits for its service endpoint and hands out minted caps; Close
  counts down, and at 0 the library is told to leave its loop and its process is reaped.

  A request comes with an `Env`: what the kernel, the file server and the new program answer; handles come
  from there too, and 0 or a handle in use stands for a failed call.  `none` is a handler that never returns, or a fault that ends libman.
-/
import Aegir.Lib.Counting
import Aegir.Lib.CharWords

open Function (update update_apply update_comm update_eq_self update_idem)

namespace Aegir.Libman

open Aegir.Lib

abbrev Name := List UInt8

/-! ## Libraries -/

/-- `Libserv.Shutdown_Label`. -/
def shutdownLabel : UInt64 := 0

/-- What a message does to a program: it stays, it gives its service endpoint back and ends, or it ends with
    the endpoint in its hands. -/
inductive Ending
  | stays
  | leaves
  | dies
deriving DecidableEq

/-- A library's process: does the program run `Libserv.Run`, has it ended, and did its endpoint fail with
    it?  The kernel fails an endpoint when a thread dies that may receive from it. -/
structure Library where
  follows : Bool
  left : Bool
  gone : Bool
deriving DecidableEq

/-- One message in the service loop of `Libserv.Run`.  The management label ends it; other messages go to
    the library's own code, which may end the program, as any other program may. -/
def Library.receive (lib : Library) (label : UInt64) (ending : Ending) : Library :=
  if lib.left then lib
  else if lib.follows ∧ label = shutdownLabel then { lib with left := true }
  else
    match ending with
    | .stays => lib
    | .leaves => { lib with left := true }
    | .dies => { lib with left := true, gone := true }

/-! ## The manager's state -/

/-- What a cap refers to; processes are numbered as they are spawned. -/
inductive Obj
  | memory
  | endpoint
  | service (pid : Nat)
  | client (pid : Nat)
  | process (pid : Nat)
  | other
deriving DecidableEq

/-- `Library_Entry`; an empty name is the free marker. -/
structure LibEntry where
  name : Name
  version : UInt64
  revision : UInt64
  openCount : Nat
  serviceCap : Nat
  processCap : Nat
  resident : Bool
deriving DecidableEq

def LibEntry.free : LibEntry := ⟨[], 0, 0, 0, 0, 0, false⟩

/-- The label of a reply, version and revision, and the library behind its cap. -/
structure Answer where
  label : UInt64
  version : UInt64
  revision : UInt64
  cap : Option Nat
deriving DecidableEq

/-- `procs` holds the processes that are not reaped; the windows are the two address ranges in which the
    manager maps memory; `answers` are the replies, with the number of the request. -/
structure State where
  entries : List LibEntry
  caps : Nat → Option Obj
  procs : Nat → Option Library
  spawned : Nat
  stageWindow : Bool
  argsWindow : Bool
  asked : Nat
  answers : List (Nat × Answer)

/-- What comes through the rendezvous endpoint: nothing ever, a failed receive, or a message with a cap
    (handle 0 for none). -/
inductive Rendezvous
  | silent
  | failed
  | sent (version revision : UInt64) (cap : Nat)
deriving DecidableEq

structure Env where
  /-- The table can grow. -/
  arena : Bool
  /-- `Stage`: the size of the file, if there is one; the image's handle; the answers of `Open` and of the
      successive `Read`s. -/
  stat : Option UInt64
  image : Nat
  stageMap : Bool
  opened : Bool
  openSize : UInt64
  reads : List (Bool × UInt64)
  stageUnmap : Bool
  rendez : Nat
  /-- `Make_Args_Cap`. -/
  args : Nat
  argsMap : Bool
  argsUnmap : Bool
  /-- The process cap, and what the program is. -/
  spawn : Nat
  follows : Bool
  rendezvous : Rendezvous
  /-- `Cap_Mint`. -/
  client : Nat
  /-- What a program that is not `Libserv.Run` does when it is told to leave. -/
  exits : Ending

/-! ## Requests -/

structure Request where
  client : Nat
  label : UInt64
  words : Nat → UInt64

/-- Character `i` of the name, in the words from 0 on. -/
def nameByte (words : Nat → UInt64) (i : Nat) : UInt8 :=
  (words (i / 8) / UInt64.ofNat (2 ^ (i % 8 * 8)) % 256).toUInt8

/-- The name of a request: up to 40 characters. -/
def Request.name (r : Request) : Name := untilNul (nameByte r.words) 40

namespace State

variable (s : State) (env : Env)

/-! ## Caps and replies -/

/-- A new cap under a handle that the kernel chose. -/
def alloc (h : Nat) (o : Obj) : Option State :=
  if h = 0 ∨ s.caps h ≠ none then none else some { s with caps := update s.caps h (some o) }

/-- `Cap_Delete`. -/
def delete (h : Nat) : State := { s with caps := update s.caps h none }

/-- `IPC_Reply`. -/
def reply (h : Nat) (a : Answer) : State := { s with answers := s.answers ++ [(h, a)] }

/-- `Reply_Fail`. -/
def replyFail (h : Nat) : State := s.reply h ⟨0, 0, 0, none⟩

/-- A reply without a cap. -/
def replyOk (h : Nat) : State := s.reply h ⟨1, 0, 0, none⟩

/-! ## The table -/

/-- `Entry_By_Name`. -/
def entryByName (name : Name) : Option Nat :=
  s.entries.findIdx? fun e => decide (e.name = name ∧ e.name ≠ [])

/-- `Free_Entry`. -/
def freeEntry (arena : Bool) : Option Nat × State :=
  match s.entries.findIdx? fun e => decide (e.name = []) with
  | some i => (some i, s)
  | none =>
    if arena then (some s.entries.length, { s with entries := s.entries ++ [LibEntry.free] }) else (none, s)

def setEntry (i : Nat) (e : LibEntry) : State := { s with entries := s.entries.set i e }

/-- `Clipboard_Resident_Name`: `Sys:Libs/Clipboard`. -/
def clipboardResidentName : Name :=
  [83, 121, 115, 58, 76, 105, 98, 115, 47, 67, 108, 105, 112, 98, 111, 97, 114, 100]

/-- `Resident_Name`. -/
def residentName (name : Name) : Bool := decide (name = clipboardResidentName)

/-! ## Loading -/

/-- The loop of `Stage`: how far the file was read.  A read that writes past its chunk or past the `mapped` bytes
    faults, and libman is gone. -/
def readLoop (mapped size : Nat) : List (Bool × UInt64) → Nat → Option Nat
  | [], off => some off
  | (ok, count) :: rest, off =>
    if off < size then
      if ok = false then some off
      else if min (size - off) 32768 < count.toNat ∨ mapped < off + count.toNat then none
      else if count.toNat ≠ min (size - off) 32768 then some off
      else readLoop mapped size rest (off + count.toNat)
    else some off

/-- The bytes that `Stage` maps for a file of the size that `Stat` gave. -/
def stageBytes (size : UInt64) : Nat := ((size + 4095) / 4096 * 4096).toNat

/-- `Stage`; no answer if libman faults.  The file is mapped with the size of `Stat`, and read with that of `Open`. -/
def stage : Option (Option Nat × State) :=
  match env.stat with
  | none => some (none, s)
  | some size =>
    if size = 0 then some (none, s)
    else
      match s.alloc env.image .memory with
      | none => some (none, s)
      | some s =>
        if env.stageMap = false then some (none, s.delete env.image)
        else
          match if env.opened then readLoop (stageBytes size) env.openSize.toNat env.reads 0 else some 0 with
          | none => none
          | some off =>
            if env.stageUnmap = false then some (none, { s.delete env.image with stageWindow := true })
            else if off < env.openSize.toNat then some (none, s.delete env.image)
            else some (some env.image, s)

/-- `Make_Args_Cap`. -/
def makeArgsCap : Option Nat × State :=
  match s.alloc env.args .memory with
  | none => (none, s)
  | some s =>
    if env.argsMap = false then (none, s.delete env.args)
    else if env.argsUnmap = false then (none, { s.delete env.args with argsWindow := true })
    else (some env.args, s)

/-- `Load_And_Open` up to the spawn: image, rendezvous endpoint and argument page. -/
def prepare : Option (Option (Nat × Nat × Nat) × State) :=
  match s.stage env with
  | none => none
  | some (none, s) => some (none, s)
  | some (some image, s) =>
    match s.alloc env.rendez .endpoint with
    | none => some (none, s.delete image)
    | some s =>
      match s.makeArgsCap env with
      | (none, s) => some (none, (s.delete image).delete env.rendez)
      | (some args, s) => some (some (image, env.rendez, args), s)

/-- `Spawn`: a new process, and its cap. -/
def spawn (s : State) (env : Env) : Option State :=
  (s.alloc env.spawn (.process s.spawned)).map fun s' =>
    { s' with
      procs := update s.procs s.spawned (some ⟨env.follows, false, false⟩)
      spawned := s.spawned + 1 }

/-- `Load_And_Open` from the receive on; `pid` is the new process. -/
def meet (pid i : Nat) (name : Name) (minVersion : UInt64) (rendez h : Nat) :
    Option State :=
  match env.rendezvous with
  | .silent => none
  | .failed => some (((s.delete rendez).delete env.spawn).replyFail h)
  | .sent version revision cap =>
    match s.alloc cap (.service pid) with
    | none => some (((s.delete rendez).delete env.spawn).replyFail h)
    | some s =>
      let s := s.delete rendez
      if version < minVersion then some (((s.delete cap).delete env.spawn).replyFail h)
      else
        match s.alloc env.client (.client pid) with
        | none => some (((s.delete cap).delete env.spawn).replyFail h)
        | some s =>
          let s := s.setEntry i ⟨name, version, revision, 1, cap, env.spawn, residentName name⟩
          some ((s.reply h ⟨1, version, revision, some pid⟩).delete env.client)

/-- `Load_And_Open`. -/
def loadAndOpen (name : Name) (minVersion : UInt64) (h : Nat) : Option State :=
  match s.freeEntry env.arena with
  | (none, s) => some (s.replyFail h)
  | (some i, s) =>
    match s.prepare env with
    | none => none
    | some (none, s) => some (s.replyFail h)
    | some (some (image, rendez, args), s) =>
      match s.spawn env with
      | none => some ((((s.delete args).delete image).delete rendez).replyFail h)
      | some s' => ((s'.delete image).delete args).meet env s.spawned i name minVersion rendez h

/-! ## Opening and closing -/

/-- `Natural'Last`. -/
def naturalLast : Nat := 2 ^ 31 - 1

/-- `Handle_Open`. -/
def handleOpen (name : Name) (minVersion : UInt64) (h : Nat) : Option State :=
  match s.entryByName name with
  | some i =>
    match s.entries[i]? with
    | none => none
    | some e =>
      if e.version < minVersion then some (s.replyFail h)
      else
        match s.caps e.serviceCap with
        | some (.service pid) =>
          match s.alloc env.client (.client pid) with
          | none => some (s.replyFail h)
          | some s =>
            if e.openCount ≥ naturalLast then none
            else
              let s := s.setEntry i
                { e with openCount := e.openCount + 1, resident := e.resident || residentName name }
              some ((s.reply h ⟨1, e.version, e.revision, some pid⟩).delete env.client)
        | _ => some (s.replyFail h)
  | none => s.loadAndOpen env name minVersion h

/-- `IPC_Call` with the management label.  To a library that has left, the call fails if the endpoint did;
    otherwise it waits behind an endpoint from which nobody receives. -/
def callShutdown (cap : Nat) (exits : Ending) : Option State :=
  match s.caps cap with
  | some (.service pid) =>
    match s.procs pid with
    | some lib =>
      if lib.left then if lib.gone then some s else none
      else some { s with procs := update s.procs pid (some (lib.receive shutdownLabel exits)) }
    | none => some s
  | _ => some s

/-- The reap loop: it ends when the process has exited. -/
def reap (cap : Nat) : Option State :=
  match s.caps cap with
  | some (.process pid) =>
    match s.procs pid with
    | some lib => if lib.left then some { s.delete cap with procs := update s.procs pid none } else none
    | none => none
  | _ => none

/-- `Expunge`. -/
def expunge (i : Nat) (e : LibEntry) : Option State :=
  let s :=
    if e.serviceCap ≠ 0 then (s.callShutdown e.serviceCap env.exits).map fun s => s.delete e.serviceCap
    else some s
  let s := s.bind fun s =>
    if e.processCap ≠ 0 then (s.reap e.processCap).map fun s => s.delete e.processCap else some s
  s.map fun s => s.setEntry i LibEntry.free

/-- `Handle_Close`. -/
def handleClose (name : Name) (h : Nat) : Option State :=
  match s.entryByName name with
  | none => some (s.replyOk h)
  | some i =>
    match s.entries[i]? with
    | none => none
    | some e =>
      let e := { e with openCount := e.openCount - 1 }
      let s := s.setEntry i e
      if e.openCount = 0 ∧ e.resident = false then (s.expunge env i e).map fun s => s.replyOk h
      else some (s.replyOk h)

/-! ## The service loop -/

/-- A request has been received. -/
def asking : State := { s with asked := s.asked + 1 }

/-- One turn of the loop; the reply handle is the number of the request. -/
def serve (r : Request) : Option State :=
  let h := s.asked
  let s := s.asking
  if r.label = 1 then
    if r.name ≠ [] then s.handleOpen env r.name (r.words 5) h else some (s.replyFail h)
  else if r.label = 2 then
    if r.name ≠ [] then s.handleClose env r.name h else some (s.replyFail h)
  else some (s.replyFail h)

/-- A client's message to a library. -/
def dispatch (pid : Nat) (label : UInt64) (ending : Ending) : State :=
  { s with procs := update s.procs pid ((s.procs pid).map fun lib => lib.receive label ending) }

end State

/-!
## What an open leaves behind

Up to the spawn every failure gives back what was taken: `prepare_cases` says that the state is the one
before, where a window that was mapped is unmapped again.  Behind the spawn it is different: the process
runs, and no failure takes it back.  `meet_welcome` is the case without one.
-/

namespace State

variable {s s' : State} {env : Env} {h h' pid i : Nat} {o : Obj} {name : Name} {minVersion : UInt64}

/-! ## Caps -/

theorem alloc_some (ha : s.alloc h o = some s') :
    h ≠ 0 ∧ s.caps h = none ∧ s' = { s with caps := update s.caps h (some o) } := by
  unfold alloc at ha
  split at ha
  · cases ha
  · rename_i hfree
    push Not at hfree
    cases ha
    exact ⟨hfree.1, hfree.2, rfl⟩

theorem delete_alloc (ha : s.alloc h o = some s') : s'.delete h = s := by
  obtain ⟨-, hfree, rfl⟩ := alloc_some ha
  unfold delete
  rw [update_idem]
  have hsame : update s.caps h none = s.caps := by
    rw [← hfree]
    exact update_eq_self h s.caps
  rw [hsame]

theorem delete_comm (s : State) (h h' : Nat) : (s.delete h).delete h' = (s.delete h').delete h := by
  by_cases heq : h = h'
  · rw [heq]
  · unfold delete
    rw [update_comm heq]

/-! ## Before the spawn -/

/-- If `Stage` maps its window, it unmaps it again. -/
def StageUnmaps (s : State) (env : Env) : Prop :=
  (∃ size, env.stat = some size ∧ size ≠ 0) → s.alloc env.image .memory ≠ none → env.stageMap = true →
    env.stageUnmap = true

/-- If `Make_Args_Cap` maps its window, it unmaps it again. -/
def ArgsUnmaps (s : State) (env : Env) : Prop :=
  s.alloc env.args .memory ≠ none → env.argsMap = true → env.argsUnmap = true

/-- If `Stage` reads the file, every byte of it has its place: the file is no longer than the pages that were mapped
    for it, and no read answers more than it was asked for. -/
def StageFits (s : State) (env : Env) : Prop :=
  ∀ size, env.stat = some size → size ≠ 0 → s.alloc env.image .memory ≠ none → env.stageMap = true →
    env.opened = true → env.openSize.toNat ≤ stageBytes size ∧
      ∀ i count, env.reads[i]? = some (true, count) → 32768 * i < env.openSize.toNat →
        count.toNat ≤ min (env.openSize.toNat - 32768 * i) 32768

theorem readLoop_some {mapped size : Nat} (hsize : size ≤ mapped) (reads : List (Bool × UInt64)) (off : Nat)
    (hreads : ∀ i count, reads[i]? = some (true, count) → off + 32768 * i < size →
      count.toNat ≤ min (size - (off + 32768 * i)) 32768) : ∃ off', readLoop mapped size reads off = some off' := by
  induction reads generalizing off with
  | nil => exact ⟨off, rfl⟩
  | cons read rest ih =>
    obtain ⟨ok, count⟩ := read
    unfold readLoop
    by_cases hoff : off < size
    · rw [if_pos hoff]
      cases ok with
      | false => exact ⟨off, rfl⟩
      | true =>
        have hcount := hreads 0 count rfl (by omega)
        rw [if_neg (by decide), if_neg (by omega)]
        split
        · exact ⟨off, rfl⟩
        · rename_i hfull
          -- a chunk that is not the last one has the full length
          refine ih (off + count.toNat) fun i c hi hlt => ?_
          have hnext := hreads (i + 1) c hi (by omega)
          omega
    · rw [if_neg hoff]
      exact ⟨off, rfl⟩

theorem stage_cases (hu : StageUnmaps s env) (hfits : StageFits s env) : s.stage env = some (none, s) ∨
      ∃ s', s.stage env = some (some env.image, s') ∧ s.alloc env.image .memory = some s' := by
  unfold stage
  cases hstat : env.stat with
  | none => exact .inl rfl
  | some size =>
    dsimp only
    by_cases hsize : size = 0
    · rw [if_pos hsize]
      exact .inl rfl
    · rw [if_neg hsize]
      cases ha : s.alloc env.image .memory with
      | none => exact .inl rfl
      | some s' =>
        have hback := delete_alloc ha
        dsimp only
        by_cases hmap : env.stageMap = false
        · rw [if_pos hmap, hback]
          exact .inl rfl
        · have hmap' : env.stageMap = true := by simpa using hmap
          have hunmap : ¬ env.stageUnmap = false := by
            rw [hu ⟨size, hstat, hsize⟩ (by rw [ha]; simp) hmap']
            simp
          have hread : ∃ off, (if env.opened = true then readLoop (stageBytes size) env.openSize.toNat env.reads 0
              else some 0) = some off := by
            by_cases hopen : env.opened = true
            · obtain ⟨hlong, hreads⟩ := hfits size hstat hsize (by rw [ha]; simp) hmap' hopen
              rw [if_pos hopen]
              exact readLoop_some hlong _ _ (by simpa using hreads)
            · rw [if_neg hopen]
              exact ⟨0, rfl⟩
          obtain ⟨off, hread⟩ := hread
          rw [if_neg hmap, hread]
          dsimp only
          rw [if_neg hunmap]
          split_ifs with hshort
          · rw [hback]
            exact .inl rfl
          · exact .inr ⟨s', rfl, rfl⟩

theorem makeArgsCap_cases (hu : ArgsUnmaps s env) : s.makeArgsCap env = (none, s) ∨
      ∃ s', s.makeArgsCap env = (some env.args, s') ∧ s.alloc env.args .memory = some s' := by
  unfold makeArgsCap
  cases ha : s.alloc env.args .memory with
  | none => exact .inl rfl
  | some s' =>
    have hback := delete_alloc ha
    dsimp only
    by_cases hmap : env.argsMap = false
    · rw [if_pos hmap, hback]
      exact .inl rfl
    · have hunmap : ¬ env.argsUnmap = false := by
        rw [hu (by rw [ha]; simp) (by simpa using hmap)]
        simp
      rw [if_neg hmap, if_neg hunmap]
      exact .inr ⟨s', rfl, rfl⟩

/-- Image, endpoint and argument page, one after the other. -/
inductive Prepared (s : State) (env : Env) : State → Prop
  | mk {s₁ s₂ s₃ : State} (image : s.alloc env.image .memory = some s₁)
      (rendez : s₁.alloc env.rendez .endpoint = some s₂) (args : s₂.alloc env.args .memory = some s₃) :
      Prepared s env s₃

/-- **Before the spawn a failure leaves nothing.** -/
theorem prepare_cases (hstage : StageUnmaps s env) (hfits : StageFits s env)
    (hargs : ∀ s₁ s₂, s.stage env = some (some env.image, s₁) → s₁.alloc env.rendez .endpoint = some s₂ →
      ArgsUnmaps s₂ env) :
    s.prepare env = some (none, s) ∨
      ∃ s', s.prepare env = some (some (env.image, env.rendez, env.args), s') ∧ Prepared s env s' := by
  unfold prepare
  rcases stage_cases hstage hfits with hfile | ⟨s₁, hfile, himage⟩
  · rw [hfile]
    exact .inl rfl
  · rw [hfile]
    dsimp only
    cases hrendez : s₁.alloc env.rendez .endpoint with
    | none =>
      rw [delete_alloc himage]
      exact .inl rfl
    | some s₂ =>
      dsimp only
      rcases makeArgsCap_cases (hargs s₁ s₂ hfile hrendez) with hpage | ⟨s₃, hpage, halloc⟩
      · rw [hpage]
        dsimp only
        rw [delete_comm, delete_alloc hrendez, delete_alloc himage]
        exact .inl rfl
      · rw [hpage]
        exact .inr ⟨s₃, rfl, .mk himage hrendez halloc⟩

theorem Prepared.give (hp : Prepared s env s') :
    ((s'.delete env.args).delete env.image).delete env.rendez = s := by
  cases hp with
  | mk himage hrendez hargs =>
    rw [delete_alloc hargs, delete_comm, delete_alloc hrendez, delete_alloc himage]

/-! ## The new process -/

/-- The state with a new process, and its cap. -/
def withProcess (s : State) (env : Env) : State :=
  { s with
    caps := update s.caps env.spawn (some (.process s.spawned))
    procs := update s.procs s.spawned (some ⟨env.follows, false, false⟩)
    spawned := s.spawned + 1 }

theorem spawn_some (hs : s.spawn env = some s') :
    env.spawn ≠ 0 ∧ s.caps env.spawn = none ∧ s' = s.withProcess env := by
  obtain ⟨t, ha, rfl⟩ := Option.map_eq_some_iff.mp hs
  obtain ⟨h0, hfree, rfl⟩ := alloc_some ha
  exact ⟨h0, hfree, rfl⟩

/-- The new library answers as it should: a message with a cap, a version that is high enough, and a mint
    that works. -/
def Welcomes (t : State) (env : Env) (pid rendez : Nat) (minVersion : UInt64) : Prop :=
  ∃ version revision cap t', env.rendezvous = .sent version revision cap ∧
    t.alloc cap (.service pid) = some t' ∧ ¬ version < minVersion ∧
    (t'.delete rendez).alloc env.client (.client pid) ≠ none

/-- The state with a library loaded into entry `i`, before the reply. -/
def loaded (s : State) (env : Env) (i : Nat) (name : Name) (version revision : UInt64) (cap : Nat) : State :=
  { s with
    caps := update (update s.caps env.spawn (some (.process s.spawned))) cap
      (some (.service s.spawned))
    procs := update s.procs s.spawned (some ⟨env.follows, false, false⟩)
    spawned := s.spawned + 1
    entries := s.entries.set i ⟨name, version, revision, 1, cap, env.spawn, residentName name⟩ }

/-- The caps of a load, taken and given back one after the other: `i`, `r` and `a` for image, rendezvous and
    arguments, `sp` and `cap` for the process and the service, `cl` for the minted cap.  Each was free when
    it was taken; the last two of the library stay. -/
theorem caps_after_load {c : Nat → Option Obj} {i r a sp cap cl : Nat} {P S K : Obj} (hi : c i = none)
    (hr : update c i (some Obj.memory) r = none)
    (ha : update (update c i (some Obj.memory)) r (some Obj.endpoint) a = none)
    (hsp : update (update (update c i (some Obj.memory)) r (some Obj.endpoint)) a (some Obj.memory) sp = none)
    (hcap : update (update (update (update (update
      (update c i (some Obj.memory)) r (some Obj.endpoint)) a (some Obj.memory)) sp (some P)) i none)
        a none cap = none)
    (hcl : update (update (update (update (update (update
      (update (update c i (some Obj.memory)) r (some Obj.endpoint)) a (some Obj.memory)) sp
        (some P)) i none) a none) cap (some S)) r none cl = none) :
    cap ≠ sp ∧ c cap = none ∧ c sp = none ∧ update (update (update (update (update (update
        (update (update (update (update c i (some Obj.memory)) r
          (some Obj.endpoint)) a (some Obj.memory)) sp (some P)) i none) a none) cap (some S)) r none) cl
            (some K)) cl none = update (update c sp (some P)) cap (some S) := by
  have hri : r ≠ i := by grind
  have har : a ≠ r := by grind
  have hai : a ≠ i := by grind
  have hspNew : sp ≠ a ∧ sp ≠ r ∧ sp ≠ i ∧ c sp = none := by grind
  have hcapNew : cap ≠ sp ∧ cap ≠ r ∧ c cap = none := by grind
  have hclNew : cl ≠ cap ∧ cl ≠ sp ∧ c cl = none := by grind
  refine ⟨hcapNew.1, hcapNew.2.2, hspNew.2.2.2, ?_⟩
  funext h
  simp only [update_apply]
  by_cases hc : h = cap
  · subst hc
    simp [hclNew.1.symm, hcapNew.2.1]
  · by_cases hs : h = sp
    · subst hs
      simp [hc, hclNew.2.1.symm, hspNew.1, hspNew.2.1, hspNew.2.2.1]
    · simp only [hc, hs, if_false]
      split_ifs <;> simp_all

/-- **A load that goes through** leaves the process, its two caps and the entry, and nothing else. -/
theorem meet_welcome (i h : Nat) (name : Name) (hp : Prepared s env s') {t : State} (hs : s'.spawn env = some t)
    (hw : Welcomes ((t.delete env.image).delete env.args) env s'.spawned env.rendez minVersion) :
    ∃ version revision cap, (cap ≠ 0 ∧ cap ≠ env.spawn ∧ s.caps cap = none) ∧
      (env.spawn ≠ 0 ∧ s.caps env.spawn = none) ∧
      ((t.delete env.image).delete env.args).meet env s'.spawned i name minVersion env.rendez h =
        some ((s.loaded env i name version revision cap).reply h ⟨1, version, revision, some s.spawned⟩) := by
  obtain ⟨version, revision, cap, t', hrendezvous, hcap, hversion, hclient⟩ := hw
  obtain ⟨hspawn0, hspawnFree, rfl⟩ := spawn_some hs
  cases hp with
  | @mk s₁ s₂ s₃ himage hrendez hargs =>
    obtain ⟨-, himageFree, rfl⟩ := alloc_some himage
    obtain ⟨-, hrendezFree, rfl⟩ := alloc_some hrendez
    obtain ⟨-, hargsFree, rfl⟩ := alloc_some hargs
    obtain ⟨hcap0, hcapFree, rfl⟩ := alloc_some hcap
    obtain ⟨t', hclient⟩ := Option.ne_none_iff_exists'.mp hclient
    have hcl := alloc_some hclient
    obtain ⟨hne, hcapOld, hspawnOld, hcaps⟩ := caps_after_load (K := .client s.spawned) himageFree hrendezFree
      hargsFree hspawnFree hcapFree hcl.2.1
    refine ⟨version, revision, cap, ⟨hcap0, hne, hcapOld⟩, ⟨hspawn0, hspawnOld⟩, ?_⟩
    unfold meet
    rw [hrendezvous]
    dsimp only
    rw [hcap]
    dsimp only
    rw [if_neg hversion, hclient]
    rw [hcl.2.2]
    unfold loaded reply setEntry delete withProcess
    dsimp only
    rw [← hcaps]

end State

end Aegir.Libman
