/-
  The BFS journal: `Trans_Add`, `Trans_Commit`, `Replay_Log` and the mount in `Init`.

  A commit puts the RUN ARRAY and the contents into the log, writes the superblock DIRT with the new log end,
  writes the blocks to their destinations, and writes the superblock CLEN with an empty log.  A mount that
  finds a log replays it.  The device is FLUSHED after the last three stages, and at the end of a replay.

  The block service may refuse any request: a commit is then given up where it stands, and so is a replay.
-/
import Aegir.Bfs.Volume

namespace Aegir.Bfs

open Aegir.Lib List

/-! ## The open transaction -/

/-- A later snapshot of a block replaces the earlier one. -/
def replaceEntry (num : Nat) (b : Block) : List (Nat × Block) → List (Nat × Block)
  | [] => []
  | w :: ws => if w.1 = num then (num, b) :: ws else w :: replaceEntry num b ws

theorem replaceEntry_fst (num : Nat) (b : Block) (ws : List (Nat × Block)) :
    (replaceEntry num b ws).map Prod.fst = ws.map Prod.fst := by
  induction ws with
  | nil => rfl
  | cons w ws ih =>
    by_cases hw : w.1 = num
    · simp [replaceEntry, hw]
    · simp [replaceEntry, hw, ih]

/-- `Trans_Add`: a block beyond `Max_Trans_Blocks` is refused and remembered. -/
def Engine.transAdd (e : Engine) (num : Nat) (b : Block) : Engine :=
  if h : num ∈ e.trans.entries.map Prod.fst then
    { e with trans :=
        { entries := replaceEntry num b e.trans.entries
          nodup := by rw [replaceEntry_fst]; exact e.trans.nodup
          length_le := by
            have hlen := congrArg length (replaceEntry_fst num b e.trans.entries)
            rw [length_map, length_map] at hlen
            rw [hlen]
            exact e.trans.length_le } }
  else if hlen : e.trans.entries.length < maxTransBlocks then
    { e with trans :=
        { entries := e.trans.entries ++ [(num, b)]
          nodup := by
            rw [map_append, nodup_append]
            refine ⟨e.trans.nodup, nodup_cons.mpr ⟨not_mem_nil, nodup_nil⟩, ?_⟩
            intro x hx y hy hxy
            rw [hxy, mem_singleton.mp hy] at hx
            exact h hx
          length_le := by
            rw [length_append]
            exact hlen } }
  else { e with transOverflowed := true }

/-- `Trans_Abort`. -/
def Engine.transAbort (e : Engine) : Engine :=
  { e with trans := .empty, transOverflowed := false, usedPending := 0 }

/-! ## Requests -/

/-- What becomes of a request: it is done; it is refused and nothing happened; or it is reported as failed although
    it was carried out (a write that a crash may still lose, like any other). -/
inductive Answer where
  | done
  | refused
  | failed

namespace Engine

/-- One request, which takes the engine to `e'`.  `answers` goes by how many requests were carried out before. -/
def request (answers : Nat → Answer) (e e' : Engine) : Except Engine Engine :=
  match answers e.dev.issued.length with
  | .done => .ok e'
  | .refused => .error e
  | .failed => .error e'

/-- `Write_Raw`: False stands with the engine it leaves. -/
def writeRaw (answers : Nat → Answer) (e : Engine) (num : Nat) (b : Block) : Except Engine Engine :=
  e.request answers (e.write num b)

/-- `Flush_Device`. -/
def flushDevice (answers : Nat → Answer) (e : Engine) : Except Engine Engine := e.request answers e.flush

/-- Writes one after another, up to the first that fails. -/
def writeRaws (answers : Nat → Answer) : Engine → List (Nat × Block) → Except Engine Engine
  | e, [] => .ok e
  | e, w :: ws => do
    let e ← e.writeRaw answers w.1 w.2
    writeRaws answers e ws

/-- `Write_Super`; False also if block 0 cannot be read. -/
def writeSuperRaw (answers : Nat → Answer) (e : Engine) (dirty : Bool) : Except Engine Engine :=
  (e.checkpoint dirty).request answers (e.writeSuper dirty)

end Engine

/-! ## The order of the entries -/

/-- One round of the exchange sort: the smallest entry, and what the others became. -/
def exchange (x : Nat × Block) : List (Nat × Block) → (Nat × Block) × List (Nat × Block)
  | [] => (x, [])
  | y :: ys =>
    if y.1 < x.1 then ((exchange y ys).1, x :: (exchange y ys).2)
    else ((exchange x ys).1, y :: (exchange x ys).2)

def sortFrom : Nat → List (Nat × Block) → List (Nat × Block)
  | _, [] => []
  | 0, ws => ws
  | n + 1, x :: xs => (exchange x xs).1 :: sortFrom n (exchange x xs).2

/-- The entries by block number, as `Trans_Commit` orders them. -/
def exchangeSort (ws : List (Nat × Block)) : List (Nat × Block) := sortFrom ws.length ws

/-! ## The run array -/

/-- Destinations merged into runs, from the open run `start, len` on: a run is extended by the block
    that follows it unless that block begins an allocation group. -/
def mergeFrom (group start len : Nat) : List Nat → List (Nat × Nat)
  | [] => [(start, len)]
  | num :: nums =>
    if num = start + len ∧ (start + len) % group ≠ 0 then mergeFrom group start (len + 1) nums
    else (start, len) :: mergeFrom group num 1 nums

def mergeRuns (group : Nat) : List Nat → List (Nat × Nat)
  | [] => []
  | num :: nums => mergeFrom group num 1 nums

/-- The runs from the `i`-th slot of the array on. -/
def putRuns (v : Volume) (arr : Block) : Nat → List (Nat × Nat) → Block
  | _, [] => arr
  | i, r :: rs => putRuns v (putRun arr (8 + i * 8) (v.runAtBlock r.1 r.2)) (i + 1) rs

/-- The run-array block: count, `max_runs = 127`, runs. -/
def runArray (v : Volume) (runs : List (Nat × Nat)) : Block :=
  putLe (putLe (putRuns v (fun _ => 0) 0 runs) 0 4 runs.length) 4 4 127

/-- The transaction as it stands in the log: its run array, then the contents in run order. -/
def logBlocks (v : Volume) (ws : List (Nat × Block)) : List Block :=
  runArray v (mergeRuns v.groupSize (ws.map Prod.fst)) :: ws.map Prod.snd

/-! ## The commit -/

/-- Blocks written one after another into the log from position `pos` on, around its end. -/
def logWrites (v : Volume) : Nat → List Block → List (Nat × Block)
  | _, [] => []
  | pos, b :: bs => (v.logBase + pos, b) :: logWrites v ((pos + 1) % v.logLen) bs

/-- The log position `n` blocks further on. -/
def logAdvance (v : Volume) (pos : Nat) : Nat → Nat
  | 0 => pos
  | n + 1 => logAdvance v ((pos + 1) % v.logLen) n

namespace Engine

variable (answers : Nat → Answer) (e : Engine)

/-- The entries in the order they are logged. -/
def order : List (Nat × Block) := exchangeSort e.trans.entries

/-- What stage 1 puts into the log. -/
def logged : List Block := logBlocks e.vol e.order

/-- Log_Pos_End moves on when the transaction is in the log. -/
def logMoved (logPosEnd : Nat) : Engine := { e with vol := { e.vol with logPosEnd := logPosEnd } }

/-- Stage 1: run array and contents into the log. -/
def logStage : Except Engine Engine := do
  let e' ← e.writeRaws answers (logWrites e.vol e.vol.logPosEnd e.logged)
  pure (e'.logMoved (logAdvance e.vol e.vol.logPosEnd e.logged.length))

/-- Stage 2: the DIRT superblock pins the new log end. -/
def dirtyStage : Except Engine Engine := do
  let e ← e.writeSuperRaw answers true
  e.flushDevice answers

/-- Stage 3: blocks to their destinations. -/
def dataStage : Except Engine Engine := do
  let e ← e.writeRaws answers e.order
  e.flushDevice answers

/-- The log is empty. -/
def emptied : Engine := { e with vol := { e.vol with logPosStart := e.vol.logPosEnd } }

/-- Stage 4: clean checkpoint. -/
def cleanStage : Except Engine Engine := do
  let e ← e.emptied.writeSuperRaw answers false
  let e ← e.flushDevice answers
  pure { e with trans := .empty }

/-- The four stages, when every request is done. -/
def commitLog : Engine :=
  (e.writeAll (logWrites e.vol e.vol.logPosEnd e.logged)).logMoved
    (logAdvance e.vol e.vol.logPosEnd e.logged.length)

def commitDirty : Engine := (e.writeSuper true).flush

def commitData : Engine := (e.writeAll e.order).flush

def commitClean : Engine := { (e.emptied.writeSuper false).flush with trans := .empty }

/-- `Trans_Commit` takes the transaction. -/
def Accepted : Prop :=
  e.transOverflowed = false ∧ e.trans.entries ≠ [] ∧ e.trans.entries.length + 1 < e.vol.logLen

/-- The stages in order, up to the first request that fails. -/
def commitStages : Except Engine Engine := do
  let e ← e.logStage answers
  let e ← e.dirtyStage answers
  let e ← e.dataStage answers
  e.cleanStage answers

/-- `Trans_Commit`. -/
def transCommit : Engine × Bool :=
  if e.transOverflowed then (e.transAbort, false)
  else if e.trans.entries = [] then (e, true)
  else if e.trans.entries.length + 1 ≥ e.vol.logLen then (e.transAbort, false)
  else
    match e.commitStages answers with
    | .error e' => (e'.transAbort, false)
    | .ok e' => (e', true)

/-! ## The mount -/

/-- As many run slots as the count says. -/
def runSlots (arr : Block) : List BlockRun :=
  (range (le arr 0 4)).map fun i => runAt arr (8 + i * 8)

/-- The runs of a run-array block: `none` when the replay gives up on it. -/
def readRuns (arr : Block) : Option (List BlockRun) :=
  if le arr 0 4 = 0 ∨ le arr 0 4 > 127 ∨ le arr 4 4 ≠ 127 then none
  else if ∃ r ∈ runSlots arr,
      r.length = 0 ∨ (e.vol.toBlock r + r.length) % 2 ^ 64 > e.vol.numBlocks then none
  else some (runSlots arr)

/-- The logged contents from position `pos` on go to the destinations `dests`.  A failure keeps the
    requests issued so far. -/
def copyOut (answers : Nat → Answer) (e : Engine) : List Nat → Nat → Except Engine (Engine × Nat)
  | [], pos => .ok (e, pos)
  | dest :: dests, pos =>
    match e.getBlock (e.vol.logBase + pos) with
    | none => .error e
    | some b => do
      let e ← e.writeRaw answers dest b
      copyOut answers e dests ((pos + 1) % e.vol.logLen)

/-- The blocks of a run. -/
def destinations (v : Volume) (runs : List BlockRun) : List Nat :=
  runs.flatMap fun r => range' (v.toBlock r) r.length

/-- The loop of `Replay_Log`.  A log that never meets `stop` keeps it going; out of fuel the model
    answers as if it had failed there. -/
def replayLoop (answers : Nat → Answer) : Nat → Engine → Nat → Nat → Except Engine Engine
  | 0, e, _, _ => .error e
  | fuel + 1, e, pos, stop =>
    if pos = stop then .ok e
    else
      match e.getBlock (e.vol.logBase + pos) with
      | none => .error e
      | some arr =>
        match e.readRuns arr with
        | none => .error e
        | some runs => do
          let r ← copyOut answers e (destinations e.vol runs) ((pos + 1) % e.vol.logLen)
          replayLoop answers fuel r.1 r.2 stop

/-- `Replay_Log`. -/
def replayLog (fuel : Nat) (e : Engine) : Except Engine Engine := do
  let e ← replayLoop answers fuel e (e.vol.logPosStart % e.vol.logLen) (e.vol.logPosEnd % e.vol.logLen)
  let e ← e.emptied.writeSuperRaw answers false
  e.flushDevice answers

end Engine

/-- The engine right after it read the superblock. -/
def opened (m : Medium) : Engine := ⟨readSuper (m 0), 0, .empty, false, ⟨m, []⟩⟩

/-- A log that is not empty is replayed. -/
def Engine.recovered (answers : Nat → Answer) (fuel : Nat) (e : Engine) : Except Engine Engine :=
  if e.vol.logPosStart ≠ e.vol.logPosEnd then e.replayLog answers fuel else .ok e

/-- The root inode is read, and must be one. -/
def Engine.checkRoot (e : Engine) : Except Engine Engine :=
  match e.getBlock e.vol.rootBlock with
  | none => .error e
  | some b => if inodeOk b then .ok e else .error e

/-- `Init`, up to the test of the root inode: `.ok` is a mounted volume. -/
def init (answers : Nat → Answer) (fuel : Nat) (m : Medium) : Except Engine Engine :=
  if superOk (m 0) = false then .error (opened m)
  else do
    let e ← (opened m).recovered answers fuel
    e.checkRoot

/-- Every request is done. -/
def taken (_ : Nat) : Answer := .done

/-!
## The block allocator of BFS (`Alloc`)

The bitmap of allocation group `g` is block `1 + g`; a set bit is a block in use.  `Alloc` looks for `Count`
free blocks in a row inside one group: a first pass goes from the HINT up to the end of the volume, a second
one from the end of the log up to the hint.  Its change of the bitmap joins the open transaction.

The source keeps the bitmap block of the current group in a cache slot; here it is looked up again at every
position.  Loops over 64-bit positions get `2 ^ 64` rounds: one that takes more never ends.
-/

/-- The inner loop: how many blocks from `b` on are free, up to `count` and to the end of the group.  `off` is
    the bit of block `b`. -/
def freeRun (bitmap : Block) (off b count grpEnd : Nat) : Nat → Nat → Nat
  | 0, run => run
  | n + 1, run =>
    if run < count ∧ b + run < grpEnd ∧ bitTest bitmap (off + run) = false then
      freeRun bitmap off b count grpEnd n (run + 1)
    else run

/-- How a pass ends: with enough free blocks at a position (and the bitmap block there), at the end, or with a
    bitmap block that cannot be read. -/
inductive PassEnd where
  | found (b : Nat) (bitmap : Block)
  | ended
  | readFailed

/-- What `Alloc` returns: True with the start, and the new hint; or False, either way. -/
inductive AllocOutcome where
  | found (start allocHint : Nat) (e : Engine)
  | noRoom
  | readFailed

namespace Engine

variable (answers : Nat → Answer) (e : Engine)

/-- The end of the log area. -/
def logEnd : Nat := (e.vol.logBase + e.vol.logLen) % 2 ^ 64

/-- One pass of `Alloc`, from position `b` on. -/
def allocPass (e : Engine) (count stop : Nat) : Nat → Nat → Option PassEnd
  | 0, _ => none
  | n + 1, b =>
    if (b + count) % 2 ^ 64 ≤ stop then
      let grp := b / e.vol.groupSize
      match e.getBlock (1 + grp) with
      | none => some .readFailed
      | some bitmap =>
        let off := b - grp * e.vol.groupSize
        let grpEnd := min ((grp + 1) * e.vol.groupSize % 2 ^ 64) stop
        if bitTest bitmap off = false then
          let run := freeRun bitmap off b count grpEnd count 0
          if run = count then some (.found b bitmap)
          else allocPass e count stop n ((b + max run 1) % 2 ^ 64)
        else allocPass e count stop n ((b + 1) % 2 ^ 64)
    else some .ended

/-- The blocks are taken: their bits are set and the bitmap block joins the transaction. -/
def allocTake (b count : Nat) (bitmap : Block) : Engine :=
  let grp := b / e.vol.groupSize
  let e' := e.transAdd (1 + grp) (setBits bitmap (b - grp * e.vol.groupSize) count)
  { e' with usedPending := (e.usedPending + count) % 2 ^ 64 }

/-- `Alloc`; `none` where it does not return. -/
def alloc (allocHint count : Nat) : Option AllocOutcome :=
  match e.allocPass count e.vol.numBlocks (2 ^ 64) (max allocHint e.logEnd) with
  | none => none
  | some .readFailed => some .readFailed
  | some (.found b bitmap) => some (.found b ((b + count) % 2 ^ 64) (e.allocTake b count bitmap))
  | some .ended =>
    match e.allocPass count (min allocHint e.vol.numBlocks) (2 ^ 64) e.logEnd with
    | none => none
    | some .readFailed => some .readFailed
    | some (.found b bitmap) => some (.found b ((b + count) % 2 ^ 64) (e.allocTake b count bitmap))
    | some .ended => some .noRoom

end Engine

end Aegir.Bfs
