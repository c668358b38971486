/-
  The script interpreter.

  `Run` is ONE FLAT LOOP over the lines of a text.  Open ifs are a stack of booleans, with `Skip_Count` beside
  it; while it is not zero a line is not even expanded.  `skip` moves the loop to another line and forgets the
  stack.  The host, which runs command lines and answers `ask`, is a parameter; messages on the console are
  left out, but for `echo`.
-/
import Aegir.Scripting.Words
import Mathlib.Data.List.SplitOn

namespace Aegir.Scripting

/-! ## The host -/

/-- What a script can ask for. -/
structure Host (σ : Type) where
  runLine : Chars → σ → UInt64 × σ
  askLine : Chars → σ → Chars × σ
  /-- `Stat` of the resolved path answers `Status_Ok`. -/
  stat : Chars → σ → Bool
  /-- The contents of `ENV:<Name>`. -/
  env : σ → Chars → Option Chars
  echo : Chars → (newline : Bool) → σ → σ

def rcWarn : UInt64 := 5
def rcError : UInt64 := 10

/-- `Has_Metachar`: an operator character outside parentheses. -/
def hasMetachar : Chars → (depth : Nat) → Bool
  | [], _ => false
  | c :: cs, depth =>
    if c = 40 then hasMetachar cs (depth + 1)
    else if c = 41 ∧ 0 < depth then hasMetachar cs (depth - 1)
    else if depth = 0 ∧ (c = 124 ∨ c = 62 ∨ c = 60) then true
    else hasMetachar cs depth

/-! ## What lines change -/

variable {σ : Type}

/-- An event: the line at a place was expanded, or what it gave was acted on. -/
inductive Event
  | expand (lo : Nat)
  | act (lo : Nat) (line : Chars)

/-- The variables of `Run`, but for the control flow. -/
structure Vars (σ : Type) where
  locals : Locals
  /-- `Order (1 .. Template)`. -/
  order : List Nat
  bound : Bool
  inHeader : Bool
  cond : Bool
  failMax : UInt64
  rc : UInt64
  done : Bool
  world : σ
  log : List Event

/-- A local's position, added when it is not there. -/
def Locals.findOrAdd (ls : Locals) (name : Chars) : Option (Nat × Locals) :=
  match ls.find name with
  | some slot => some (slot, ls)
  | none => ls.add name

/-- The loop of `Parse_Key` over the names between commas. -/
def keyNames : List Chars → Vars σ → Option (Vars σ)
  | [], v => some v
  | part :: parts, v =>
    if trim part = [] then keyNames parts v
    else do
      let (slot, locals) ← v.locals.findOrAdd (trim part)
      if v.order.length = maxLocals then none
      else keyNames parts { v with locals := locals, order := v.order ++ [slot] }

/-- `Parse_Key`; `none` is `Bad`, and what it has added by then is of no use to a script that is aborted. -/
def parseKey (rest : Chars) (v : Vars σ) : Option (Vars σ) := keyNames (rest.splitOn 44) v

/-- `Parse_Def`. -/
def parseDef (rest : Chars) (v : Vars σ) : Option (Vars σ) :=
  let name := trim (rest.takeWhile (· ≠ 61))
  let value := trim ((rest.dropWhile (· ≠ 61)).drop 1)
  if 61 ∉ rest ∨ name = [] then none
  else do
    let (slot, locals) ← v.locals.findOrAdd name
    if value = [] then some { v with locals := locals }
    else do
      let locals ← locals.setValue slot value
      some { v with locals := locals }

/-- The loop of `Bind_Args`: the template's slots take the words in order, as far as there are any. -/
def bindSlots : List Nat → List Chars → Locals → Option Locals
  | slot :: slots, word :: words, ls => (ls.setValue slot word).bind (bindSlots slots words)
  | _, _, ls => some ls

/-- `Bind_Args`. -/
def bindArgs (args : Chars) (v : Vars σ) : Option (Vars σ) := do
  let locals ← bindSlots v.order ((args.splitOn space).filter (· ≠ [])) v.locals
  some { v with locals := locals, bound := true }

/-- The end of the header: the first line that is not a directive binds the arguments. -/
def leaveHeader (args : Chars) (v : Vars σ) : Option (Vars σ) :=
  if v.inHeader ∧ ¬ v.bound then (bindArgs args v).map fun v => { v with inHeader := false }
  else some { v with inHeader := false }

/-- `Handle_Set`. -/
def handleSet (rest : Chars) (v : Vars σ) : Option (Vars σ) :=
  if rest = [] then none
  else do
    let (slot, locals) ← v.locals.findOrAdd (firstWord rest)
    let locals ← locals.setValue slot (trim (restWords rest))
    some { v with locals := locals }

/-! ## Conditions -/

/-- The operators of `if <a> <op> <b>`. -/
inductive Compare
  | eq | ne | gt | ge | lt | le

def compareOf (w : Chars) : Option Compare :=
  if sameWord w [101, 113] then some .eq
  else if sameWord w [110, 101] then some .ne
  else if sameWord w [103, 116] then some .gt
  else if sameWord w [103, 101] then some .ge
  else if sameWord w [108, 116] then some .lt
  else if sameWord w [108, 101] then some .le
  else none

def Compare.nats : Compare → Nat → Nat → Bool
  | .eq, a, b => a = b
  | .ne, a, b => a ≠ b
  | .gt, a, b => a > b
  | .ge, a, b => a ≥ b
  | .lt, a, b => a < b
  | .le, a, b => a ≤ b

def Compare.words : Compare → Chars → Chars → Bool
  | .eq, a, b => sameWord a b
  | .ne, a, b => !sameWord a b
  | .gt, a, b => lowerLess b a
  | .ge, a, b => !lowerLess a b
  | .lt, a, b => lowerLess a b
  | .le, a, b => !lowerLess b a

/-- Trailing spaces taken off. -/
def trimEnd (s : Chars) : Chars := (s.reverse.dropWhile (· = space)).reverse

/-- `<a> <op> <b> [val]`, from the text after the operator on; `none` is `Bad`. -/
def compareRest (op : Compare) (a r2 : Chars) : Option Bool :=
  let b := trim r2
  if b = [] then none
  else
    match lastWord b with
    | some (before, w) =>
      if sameWord w [118, 97, 108] then
        if trimEnd before = [] then none
        else do
          let na ← parseNat a
          let nb ← parseNat (trimEnd before)
          some (op.nats na nb)
      else some (op.words a b)
    | none => some (op.words a b)

/-- A command as a condition: true when its return code is below failat. -/
def runCondition (h : Host σ) (s : Chars) (v : Vars σ) : Vars σ × Option Bool :=
  match h.runLine s v.world with
  | (rc, world) => ({ v with world := world }, some (rc < v.failMax))

/-- The subject of an if, after any `not`. -/
def subject (h : Host σ) (s : Chars) (v : Vars σ) : Vars σ × Option Bool :=
  let w1 := firstWord s
  let r1 := restWords s
  if sameWord w1 [101, 120, 105, 115, 116, 115] then
    (v, if r1 = [] then none else some (h.stat (trim r1) v.world))
  else if r1 = [] then runCondition h s v
  else
    match compareOf (firstWord r1) with
    | some op => (v, compareRest op w1 (restWords r1))
    | none => runCondition h s v

/-- `Handle_If` up to the frame it pushes: the result, which is also the condition flag then. -/
def evalIf (h : Host σ) (rest : Chars) (v : Vars σ) : Vars σ × Option Bool :=
  let invert := rest ≠ [] ∧ sameWord (firstWord rest) [110, 111, 116]
  let s := if invert then restWords rest else rest
  match if s = [] then (v, some v.cond) else subject h s v with
  | (v, none) => (v, none)
  | (v, some result) =>
    let result := result ^^ decide invert
    ({ v with cond := result }, some result)

/-! ## Lines of the text -/

def lineFeed : UInt8 := 10
def carriageReturn : UInt8 := 13
def lineMax : Nat := 256

/-- `Buf (Lo .. Hi - 1)`: up to the next line feed, or the end. -/
def rawLine (text : Chars) (lo : Nat) : Chars := (text.drop lo).takeWhile (· ≠ lineFeed)

/-- A carriage return at the end taken off. -/
def chopCr (raw : Chars) : Chars := if raw.getLast? = some carriageReturn then raw.dropLast else raw

/-- The line at a place, when the loop looks at it at all: not empty, not too long, not a comment. -/
def lineAt (text : Chars) (lo : Nat) : Option Chars :=
  let line := chopCr (rawLine text lo)
  if line = [] ∨ lineMax < line.length ∨ line.head? = some 59 then none else some line

/-- Where the next line starts. -/
def nextLine (text : Chars) (lo : Nat) : Nat := lo + (rawLine text lo).length + 1

/-- Whether the line at a place is `lab <Label>`. -/
def isLab (text : Chars) (label : Chars) (lo : Nat) : Bool :=
  match lineAt text lo with
  | none => false
  | some line =>
    sameWord (firstWord line) [108, 97, 98] && restWords line ≠ [] && sameWord (firstWord (restWords line)) label

/-- The loop of `Find_Label`, from `p` on and below `limit`. -/
def findLabel (text label : Chars) (limit p : Nat) : Option Nat :=
  if p < limit then
    if isLab text label p then some p else findLabel text label limit (nextLine text p)
  else none
termination_by limit - p
decreasing_by
  rw [nextLine]
  omega

/-! ## Executed lines -/

/-- What a line comes to: the variables, whether it was bad, and where it jumps. -/
structure Effect (σ : Type) where
  vars : Vars σ
  bad : Bool
  jump : Option Nat

/-- No jump. -/
def Effect.of (v : Vars σ) (bad : Bool) : Effect σ := ⟨v, bad, none⟩

/-- To a label, if it was found. -/
def Effect.jumpTo (v : Vars σ) (found : Option Nat) : Effect σ :=
  match found with
  | none => .of v true
  | some target => ⟨{ v with rc := 0 }, false, some target⟩

/-- `Bad` or new variables. -/
def Effect.orBad (v : Vars σ) (r : Option (Vars σ)) : Effect σ :=
  match r with
  | none => .of v true
  | some v => .of v false

/-- An event. -/
def Vars.note (v : Vars σ) (e : Event) : Vars σ := { v with log := v.log ++ [e] }

/-- `skip <label> [back]`. -/
def handleSkip (text : Chars) (lo : Nat) (rest : Chars) (v : Vars σ) : Effect σ :=
  let label := firstWord rest
  let more := restWords rest
  if rest = [] ∨ (more ≠ [] ∧ ¬ sameWord (firstWord more) [98, 97, 99, 107]) then .of v true
  else
    .jumpTo v (if more ≠ [] then findLabel text label lo 0
      else findLabel text label text.length (nextLine text lo))

/-- `quit [rc]`. -/
def handleQuit (rest : Chars) (v : Vars σ) : Effect σ :=
  if rest = [] then .of { v with rc := 0, done := true } false
  else .orBad v ((parseNat rest).map fun n => { v with rc := UInt64.ofNat n, done := true })

/-- `failat <n>`. -/
def handleFailat (rest : Chars) (v : Vars σ) : Effect σ :=
  .orBad v ((parseNat rest).map fun n => { v with failMax := UInt64.ofNat n, rc := 0 })

/-- `echo <text> [noline]`. -/
def handleEcho (h : Host σ) (rest : Chars) (v : Vars σ) : Vars σ :=
  let txt := trimEnd rest
  let world :=
    match lastWord txt with
    | some (before, w) =>
      if sameWord w [110, 111, 108, 105, 110, 101] then h.echo (trimEnd before) false v.world
      else h.echo txt true v.world
    | none => h.echo txt true v.world
  { v with world := world, rc := 0 }

/-- `ask <prompt>`. -/
def handleAsk (h : Host σ) (rest : Chars) (v : Vars σ) : Vars σ :=
  match h.askLine rest v.world with
  | (reply, world) =>
    let yes : Bool := reply.head? = some 121 ∨ reply.head? = some 89
    { v with world := world, cond := yes, rc := if yes then 0 else rcWarn }

/-- A line that has been expanded, to something, is dispatched on its first word. -/
def dispatch (h : Host σ) (text : Chars) (lo : Nat) (x : Chars) (v : Vars σ) : Effect σ :=
  let w := firstWord x
  let rest := restWords x
  if x.head? = some 46 ∧ sameWord w [46, 115, 101, 116] then
    .orBad v ((handleSet rest v).map fun v => { v with rc := 0 })
  else if sameWord w [108, 97, 98] then .of { v with rc := 0 } false
  else if sameWord w [115, 107, 105, 112] then handleSkip text lo rest v
  else if sameWord w [113, 117, 105, 116] then handleQuit rest v
  else if sameWord w [102, 97, 105, 108, 97, 116] then handleFailat rest v
  else if sameWord w [101, 99, 104, 111] ∧ hasMetachar x 0 = false then .of (handleEcho h rest v) false
  else if sameWord w [97, 115, 107] then .of (handleAsk h rest v) false
  else
    match h.runLine x v.world with
    | (rc, world) => .of { v with world := world, rc := rc } false

/-- A line that is executed: expanded, and dispatched unless that fails or nothing is left of it. -/
def executeLine (h : Host σ) (text : Chars) (lo : Nat) (line : Chars) (v : Vars σ) : Effect σ :=
  match expand v.locals (h.env v.world) line with
  | none => .of (v.note (.expand lo)) true
  | some x =>
    if x = [] then .of (v.note (.expand lo)) false
    else dispatch h text lo x ((v.note (.expand lo)).note (.act lo x))

/-- The condition of an `if` line, in a script that executes: `none` when the line is bad. -/
def executeIf (h : Host σ) (lo : Nat) (line : Chars) (v : Vars σ) : Vars σ × Option Bool :=
  match expand v.locals (h.env v.world) line with
  | none => (v.note (.expand lo), none)
  | some x => evalIf h (restWords x) ((v.note (.expand lo)).note (.act lo x))

/-! ## The loop -/

/-- `Max_If`. -/
def maxIf : Nat := 8

/-- The state at the top of the loop; `ifStack` is `If_Stack (If_Depth .. 1)`, the innermost first. -/
structure Loop (σ : Type) where
  vars : Vars σ
  lo : Nat
  ifStack : List Bool
  skipCount : Nat
  aborted : Bool

/-- `Push_If`. -/
def Loop.pushIf (s : Loop σ) (taken : Bool) : Option (Loop σ) :=
  if s.ifStack.length = maxIf then none
  else some { s with ifStack := taken :: s.ifStack, skipCount := if taken then s.skipCount else s.skipCount + 1 }

/-- `Handle_Else`. -/
def Loop.handleElse (s : Loop σ) : Option (Loop σ) :=
  match s.ifStack with
  | [] => none
  | true :: stack => some { s with ifStack := false :: stack, skipCount := s.skipCount + 1 }
  | false :: stack => some { s with ifStack := true :: stack, skipCount := s.skipCount - 1 }

/-- `Handle_Endif`. -/
def Loop.handleEndif (s : Loop σ) : Option (Loop σ) :=
  match s.ifStack with
  | [] => none
  | top :: stack => some { s with ifStack := stack, skipCount := if top then s.skipCount else s.skipCount - 1 }

/-- The next line, after a line that was not bad. -/
def Loop.goOn (s : Loop σ) (text : Chars) : Loop σ := { s with lo := nextLine text s.lo }

/-- `RC := RC_Error; Abort_Run := True`. -/
def Loop.abort (s : Loop σ) (text : Chars) : Loop σ :=
  { s with vars := { s.vars with rc := rcError }, aborted := true, lo := nextLine text s.lo }

def Loop.orAbort (s : Loop σ) (text : Chars) (r : Option (Loop σ)) : Loop σ :=
  match r with
  | none => s.abort text
  | some s => s.goOn text

/-- The words that the loop knows even in a block it skips. -/
inductive Keyword
  | opens | turns | closes
deriving DecidableEq

def keywordOf (line : Chars) : Option Keyword :=
  if sameWord (firstWord line) [105, 102] then some .opens
  else if sameWord (firstWord line) [101, 108, 115, 101] then some .turns
  else if sameWord (firstWord line) [101, 110, 100, 105, 102] then some .closes
  else none

/-- An `if`: a dead frame in a block that is skipped, else the frame of its condition. -/
def Loop.handleIf (h : Host σ) (s : Loop σ) (text line : Chars) : Loop σ :=
  if 0 < s.skipCount then s.orAbort text (s.pushIf false)
  else
    match executeIf h s.lo line s.vars with
    | (v, none) => { s with vars := v }.abort text
    | (v, some result) =>
      match { s with vars := v }.pushIf result with
      | none => { s with vars := v }.abort text
      | some s => { s with vars := { s.vars with rc := 0 } }.goOn text

/-- Any other line, unless it is skipped. -/
def Loop.handleLine (h : Host σ) (s : Loop σ) (text line : Chars) : Loop σ :=
  if 0 < s.skipCount then s.goOn text
  else
    match executeLine h text s.lo line s.vars with
    | ⟨v, true, _⟩ => { s with vars := v }.abort text
    | ⟨v, false, none⟩ => { s with vars := v }.goOn text
    | ⟨v, false, some target⟩ => { s with vars := v, lo := target, ifStack := [], skipCount := 0 }

/-- A header directive. -/
def directive (line : Chars) (v : Vars σ) : Option (Option (Vars σ)) :=
  let w := firstWord line
  if v.inHeader ∧ line.head? = some 46 then
    if sameWord w [46, 107, 101, 121] ∨ sameWord w [46, 107] then some (parseKey (restWords line) v)
    else if sameWord w [46, 100, 101, 102] then some (parseDef (restWords line) v)
    else none
  else none

/-- One turn of the loop. -/
def Loop.turn (h : Host σ) (text args : Chars) (s : Loop σ) : Loop σ :=
  match lineAt text s.lo with
  | none => s.goOn text
  | some line =>
    match directive line s.vars with
    | some none => s.abort text
    | some (some v) => { s with vars := v }.goOn text
    | none =>
      match leaveHeader args s.vars with
      | none => { s with vars := { s.vars with inHeader := false } }.abort text
      | some v =>
        let s := { s with vars := v }
        match keywordOf line with
        | some .turns => s.orAbort text s.handleElse
        | some .closes => s.orAbort text s.handleEndif
        | some .opens => s.handleIf h text line
        | none => s.handleLine h text line

/-- `exit when Done or else Abort_Run or else RC >= Fail_Max`. -/
def Loop.stops (s : Loop σ) : Bool := s.vars.done || s.aborted || s.vars.failMax ≤ s.vars.rc

/-- Whether there is a turn. -/
def Loop.goes (s : Loop σ) (text : Chars) : Bool := decide (s.lo < text.length) && !s.stops

/-- The state before the first turn. -/
def Loop.start (world : σ) : Loop σ where
  vars := ⟨⟨[], Nat.zero_le _⟩, [], false, true, false, rcError, 0, false, world, []⟩
  lo := 0
  ifStack := []
  skipCount := 0
  aborted := false

/-- The loop's states, from the first on. -/
inductive Loop.Reached (h : Host σ) (text args : Chars) (world : σ) : Nat → Loop σ → Prop
  | start : Loop.Reached h text args world 0 (.start world)
  | turn {n : Nat} {s : Loop σ} (hs : Loop.Reached h text args world n s) (hgoes : s.goes text = true) :
      Loop.Reached h text args world (n + 1) (s.turn h text args)

/-- What `Run` returns once the loop has ended. -/
def Loop.result (s : Loop σ) : UInt64 :=
  if s.aborted = false ∧ s.vars.done = false ∧ 0 < s.ifStack.length then rcError else s.vars.rc

end Aegir.Scripting
