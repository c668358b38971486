/-
  The query predicates of BFS: parser and evaluation.

  A predicate is at most 255 characters long.  The parser descends recursively and leaves the syntax tree in a pool
  of 24 nodes: a node is the number of its place there, counted from 1, and 0 is no node.  Every failure of the
  parser is final, `Pred_Ok` or not: a 0 is answered through all levels, and the query is refused.

  A term looks at the name, the size or the time of the entry, or walks the small_data region of its inode for the
  attribute.  Evaluation runs on the pool.
-/
import Aegir.Bfs.SmallDataLaws
import Aegir.Lib.Globs

namespace Aegir.Bfs.Query

open Aegir.Lib

/-! ## Characters -/

def tab : UInt8 := 0x09
def space : UInt8 := 0x20
/-- `!` -/
def bang : UInt8 := 0x21
/-- `"` -/
def quote : UInt8 := 0x22
/-- `&` -/
def amp : UInt8 := 0x26
/-- `(` -/
def opening : UInt8 := 0x28
/-- `)` -/
def closing : UInt8 := 0x29
/-- `*` -/
def star : UInt8 := 0x2A
/-- `<` -/
def less : UInt8 := 0x3C
/-- `=` -/
def equals : UInt8 := 0x3D
/-- `>` -/
def greater : UInt8 := 0x3E
/-- `?` -/
def question : UInt8 := 0x3F
/-- `\` -/
def backslash : UInt8 := 0x5C
/-- `|` -/
def bar : UInt8 := 0x7C

/-- What `Pred_Skip_Ws` passes over. -/
def isBlank (c : UInt8) : Bool := c == space || c == tab

def isDigit (c : UInt8) : Bool := 0x30 ≤ c && c ≤ 0x39

/-- `'A' .. 'Z' | 'a' .. 'z' | '0' .. '9' | '_' | ':' | '.'` -/
def isIdent (c : UInt8) : Bool :=
  (0x41 ≤ c && c ≤ 0x5A) || (0x61 ≤ c && c ≤ 0x7A) || isDigit c || c == 0x5F || c == 0x3A || c == 0x2E

/-! ## Nodes -/

/-- `Cmp_Op`. -/
inductive CmpOp where
  | eq
  | ne
  | lt
  | le
  | gt
  | ge
deriving DecidableEq

/-- `Node_Kind`. -/
inductive NodeKind where
  | term
  | and
  | or
  | not
deriving DecidableEq

/-- `Pred_Node`; `attr` is `Attr (1 .. Attr_L)` and `str` is `Str (1 .. Str_L)`. -/
structure PredNode where
  kind : NodeKind
  left : Nat := 0
  right : Nat := 0
  attr : List UInt8 := []
  cmp : CmpOp := .eq
  isNum : Bool := false
  num : Nat := 0
  str : List UInt8 := []
deriving DecidableEq

/-- `Pred_Max`. -/
def predMax : Nat := 255

/-- `Pred_Node_Max`. -/
def predNodeMax : Nat := 24

/-- The length of `Attr`. -/
def attrMax : Nat := 24

/-- The length of `Str`. -/
def strMax : Nat := 48

/-- The parser's state: what is left from `Pred_Pos` on, and `Pred_Nodes (1 .. Pred_Count)`. -/
structure Parser where
  rest : List UInt8
  nodes : List PredNode
deriving DecidableEq

/-- `Pred_Skip_Ws`. -/
def skipWs (s : List UInt8) : List UInt8 := s.dropWhile isBlank

/-- `Pred_New`, with what the caller then writes into the node. -/
def predNew (p : Parser) (node : PredNode) : Option (Nat × Parser) :=
  if p.nodes.length = predNodeMax then none
  else some (p.nodes.length + 1, ⟨p.rest, p.nodes ++ [node]⟩)

/-! ## Terms -/

/-- The loop over the identifier, with room for so many characters. -/
def takeIdent : Nat → List UInt8 → List UInt8 × List UInt8
  | _, [] => ([], [])
  | 0, c :: cs => ([], c :: cs)
  | room + 1, c :: cs =>
    if isIdent c then (c :: (takeIdent room cs).1, (takeIdent room cs).2) else ([], c :: cs)

/-- A second `=`, or not. -/
def takeEquals : List UInt8 → Option (List UInt8)
  | [] => none
  | c :: cs => if c = equals then some cs else none

def takeCmp : List UInt8 → Option (CmpOp × List UInt8)
  | [] => none
  | c :: cs =>
    if c = equals then (takeEquals cs).map fun rest => (.eq, rest)
    else if c = bang then (takeEquals cs).map fun rest => (.ne, rest)
    else if c = less ∨ c = greater then
      match takeEquals cs with
      | some rest => some (if c = less then .le else .ge, rest)
      | none => some (if c = less then .lt else .gt, cs)
    else none

/-- `Value_Loop`, behind the opening quote, with room for so many characters. -/
def takeString : Nat → List UInt8 → Option (List UInt8 × List UInt8)
  | _, [] => none
  | room, c :: cs =>
    if c = quote then some ([], cs)
    else if c = backslash then
      match cs with
      | [] => none
      | d :: ds =>
        if d ≠ backslash ∧ d ≠ quote then none
        else
          match room with
          | 0 => none
          | room + 1 => (takeString room ds).map fun (str, rest) => (d :: str, rest)
    else
      match room with
      | 0 => none
      | room + 1 => (takeString room cs).map fun (str, rest) => (c :: str, rest)

/-- `Dig := Dig * 10 + …`, an unsigned 64-bit word. -/
def addDigit (dig : Nat) (c : UInt8) : Nat := (dig * 10 + (c.toNat - 0x30)) % 2 ^ 64

def takeDigits (dig : Nat) : List UInt8 → Nat × List UInt8
  | [] => (dig, [])
  | c :: cs => if isDigit c then takeDigits (addDigit dig c) cs else (dig, c :: cs)

/-- The value behind the operator: it goes into the node. -/
def takeValue (node : PredNode) : List UInt8 → Option (PredNode × List UInt8)
  | [] => none
  | c :: cs =>
    if c = quote then (takeString strMax cs).map fun (str, rest) => ({ node with isNum := false, str }, rest)
    else if isDigit c then
      let (num, rest) := takeDigits 0 (c :: cs)
      some ({ node with isNum := true, num }, rest)
    else none

/-- `Parse_Term`.  The node is taken first and filled afterwards. -/
def parseTerm (p : Parser) : Option (Nat × Parser) := do
  let (n, p) ← predNew ⟨skipWs p.rest, p.nodes⟩ { kind := .term }
  let (attr, rest) := takeIdent attrMax p.rest
  if attr.length = 0 then none
  else do
    let (cmp, rest) ← takeCmp (skipWs rest)
    let (node, rest) ← takeValue { kind := .term, attr, cmp } (skipWs rest)
    pure (n, ⟨rest, p.nodes.set (n - 1) node⟩)

/-! ## Expressions -/

/-- The loop of `Parse_And` and of `Parse_Or` behind the operand `l`, in so many rounds. -/
def chain (operand : Parser → Option (Nat × Parser)) (sign : UInt8) (kind : NodeKind) :
    Nat → Nat → Parser → Option (Nat × Parser)
  | 0, _, _ => none
  | rounds + 1, l, p =>
    match skipWs p.rest with
    | c :: d :: cs =>
      if c = sign ∧ d = sign then do
        let (r, p) ← operand ⟨cs, p.nodes⟩
        let (n, p) ← predNew p { kind, left := l, right := r }
        chain operand sign kind rounds n p
      else some (l, ⟨c :: d :: cs, p.nodes⟩)
    | rest => some (l, ⟨rest, p.nodes⟩)

/-- An operand, then any number of signs and operands.  A round takes two characters and more. -/
def parseChain (operand : Parser → Option (Nat × Parser)) (sign : UInt8) (kind : NodeKind) (p : Parser) :
    Option (Nat × Parser) := do
  let (l, p) ← operand p
  chain operand sign kind (p.rest.length + 1) l p

/-- `Parse_And`, over its `Parse_Unary`. -/
def parseAnd (unary : Parser → Option (Nat × Parser)) (p : Parser) : Option (Nat × Parser) :=
  parseChain unary amp .and p

/-- `Parse_Or`. -/
def parseOr (unary : Parser → Option (Nat × Parser)) (p : Parser) : Option (Nat × Parser) :=
  parseChain (parseAnd unary) bar .or p

/-- The bracket behind an expression. -/
def takeClosing (n : Nat) (p : Parser) : Option (Nat × Parser) :=
  match skipWs p.rest with
  | [] => none
  | c :: cs => if c = closing then some (n, ⟨cs, p.nodes⟩) else none

/-- `Parse_Unary`, through so many levels of `!` and brackets. -/
def parseUnary : Nat → Parser → Option (Nat × Parser)
  | 0, _ => none
  | levels + 1, p =>
    match skipWs p.rest with
    | [] => parseTerm ⟨[], p.nodes⟩
    | c :: cs =>
      if c = bang then do
        let (sub, p) ← parseUnary levels ⟨cs, p.nodes⟩
        predNew p { kind := .not, left := sub }
      else if c = opening then do
        let (n, p) ← parseOr (parseUnary levels) ⟨cs, p.nodes⟩
        takeClosing n p
      else parseTerm ⟨c :: cs, p.nodes⟩

inductive Refusal where
  | notFound
  | badArgs
deriving DecidableEq

/-- A parsed predicate: the pool and the number of the root. -/
structure Parsed where
  nodes : List PredNode
  root : Nat
deriving DecidableEq

/-- The first half of `Query`, on a mounted volume.  Every level takes a character, so that there are enough. -/
def parse (predicate : List UInt8) : Except Refusal Parsed :=
  if predicate.length = 0 ∨ predicate.length > predMax then .error .notFound
  else
    match parseOr (parseUnary predicate.length) ⟨predicate, []⟩ with
    | none => .error .badArgs
    | some (root, p) => if (skipWs p.rest).length = 0 then .ok ⟨p.nodes, root⟩ else .error .badArgs

/-! ## Evaluation -/

/-- `Glob_Match`. -/
def globMatch : List UInt8 → List UInt8 → Bool
  | [], s => s.isEmpty
  | p :: ps, s =>
    if p = star then (List.range (s.length + 1)).any fun k => globMatch ps (s.drop k)
    else
      match s with
      | [] => false
      | c :: cs => if p = question ∨ p = c then globMatch ps cs else false

/-- `Cmp_Apply`. -/
def cmpApply (op : CmpOp) (a b : Nat) : Bool :=
  match op with
  | .eq => a == b
  | .ne => a != b
  | .lt => a < b
  | .le => a ≤ b
  | .gt => a > b
  | .ge => a ≥ b

/-- An entry, as a query sees it: its name, size and time, and the block of its inode, if it can be had. -/
structure Entry where
  name : List UInt8
  size : Nat
  mtime : Nat
  inode : Option Block

/-- "name" -/
def nameIdent : List UInt8 := [0x6E, 0x61, 0x6D, 0x65]

/-- "size" -/
def sizeIdent : List UInt8 := [0x73, 0x69, 0x7A, 0x65]

/-- "last_modified" -/
def modifiedIdent : List UInt8 :=
  [0x6C, 0x61, 0x73, 0x74, 0x5F, 0x6D, 0x6F, 0x64, 0x69, 0x66, 0x69, 0x65, 0x64]

/-- The length of the text `S` an attribute is copied to. -/
def textMax : Nat := 64

/-- `n` bytes from `pos` on into `S`, from its column `k` on. -/
def textAt (b : Block) (pos k : Nat) : Nat → Except Raised (List UInt8)
  | 0 => pure []
  | n + 1 => do
    let x ← byteAt b (pos + k)
    inRange k textMax (.row k)
    let xs ← textAt b pos (k + 1) n
    pure (x :: xs)

/-- What a term makes of the attribute it has found, the data of which lie at `pos`. -/
def evalData (node : PredNode) (b : Block) (pos dlen : Nat) : Except Raised Bool :=
  if node.isNum then
    if dlen = 8 then do
      let v ← leAt b pos 8
      pure (cmpApply node.cmp v node.num)
    else if dlen = 4 then do
      let v ← leAt b pos 4
      pure (cmpApply node.cmp v node.num)
    else pure false
  else if dlen ≤ textMax then do
    let text ← textAt b pos 0 (rounds dlen)
    pure (globMatch node.str (text.take dlen))
  else pure false

/-- The walk of `Eval_Term`. -/
def evalFrom (node : PredNode) (b : Block) (pos : Nat) : Except Raised Bool :=
  if h : pos + 8 ≤ blockSize then do
    let nlen ← leAt b (pos + 4) 2
    let dlen ← leAt b (pos + 6) 2
    if nlen = 0 then pure false
    else if pos + SmallData.entryBytes nlen dlen > blockSize then pure false
    else do
      let hit ← SmallData.isHit b node.attr true pos nlen
      if hit then evalData node b (pos + 8 + nlen + 3) dlen
      else evalFrom node b (pos + SmallData.entryBytes nlen dlen)
  else pure false
termination_by blockSize - pos
decreasing_by all_goals (unfold SmallData.entryBytes; omega)

/-- `Eval_Term`. -/
def evalTerm (node : PredNode) (e : Entry) : Except Raised Bool :=
  if node.attr = nameIdent then pure (!node.isNum && globMatch node.str e.name)
  else if node.attr = sizeIdent then pure (node.isNum && cmpApply node.cmp e.size node.num)
  else if node.attr = modifiedIdent then pure (node.isNum && cmpApply node.cmp (e.mtime / 2 ^ 16) node.num)
  else
    match e.inode with
    | none => pure false
    | some b => evalFrom node b SmallData.smallDataOff

/-- Why an evaluation has no answer: a check has failed, there is no such node, or it is not done after so many
    levels. -/
inductive Stop where
  | raised (r : Raised)
  | noNode (n : Nat)
  | noLevel
deriving DecidableEq

/-- `Nodes (N)`. -/
def nodeAt (nodes : List PredNode) (n : Nat) : Except Stop PredNode :=
  if n = 0 then .error (.noNode n)
  else
    match nodes[n - 1]? with
    | some node => .ok node
    | none => .error (.noNode n)

/-- `Eval_Node`, through so many levels of the tree. -/
def evalNode (nodes : List PredNode) (e : Entry) : Nat → Nat → Except Stop Bool
  | 0, _ => .error .noLevel
  | levels + 1, n => do
    let node ← nodeAt nodes n
    match node.kind with
    | .term => (evalTerm node e).mapError .raised
    | .and => do
      let l ← evalNode nodes e levels node.left
      if l then evalNode nodes e levels node.right else pure false
    | .or => do
      let l ← evalNode nodes e levels node.left
      if l then pure true else evalNode nodes e levels node.right
    | .not => do
      let l ← evalNode nodes e levels node.left
      pure (!l)

/-!
## The grammar of query predicates, and what a predicate says of an entry

expr  := or_expr
or    := and_expr ('||' and_expr)*
and   := unary ('&&' unary)*
unary := '!' unary | '(' expr ')' | term
term  := IDENT (=='|'!='|'<'|'<='|'>'|'>=') VALUE

Blanks may stand before every token and at the end.  `&&` binds tighter than `||`, and both group to the left.
What a predicate says is said here without the parser: a literal is the number its digits write, and an entry has
the attributes that lie in its inode.
-/

/-! ## Syntax trees -/

inductive Value where
  | num (n : Nat)
  | str (text : List UInt8)
deriving DecidableEq

inductive Joint where
  | and
  | or
deriving DecidableEq

inductive Expr where
  | term (ident : List UInt8) (cmp : CmpOp) (value : Value)
  | join (j : Joint) (l r : Expr)
  | not (t : Expr)
deriving DecidableEq

def Joint.sign : Joint → UInt8
  | .and => amp
  | .or => bar

/-- The nodes of a tree. -/
def Expr.size : Expr → Nat
  | .term _ _ _ => 1
  | .join _ l r => l.size + r.size + 1
  | .not t => t.size + 1

/-- A value that fits its field. -/
def Value.Short : Value → Prop
  | .num _ => True
  | .str text => text.length ≤ strMax

/-- Identifiers and strings fit their fields. -/
def Expr.Short : Expr → Prop
  | .term ident _ value => ident.length ≤ attrMax ∧ value.Short
  | .join _ l r => l.Short ∧ r.Short
  | .not t => t.Short

/-! ## The grammar -/

def Blank (w : List UInt8) : Prop := ∀ c ∈ w, isBlank c = true

def CmpOp.sign : CmpOp → List UInt8
  | .eq => [equals, equals]
  | .ne => [bang, equals]
  | .lt => [less]
  | .le => [less, equals]
  | .gt => [greater]
  | .ge => [greater, equals]

/-- What stands between quotes, and the text it means. -/
inductive Quoted : List UInt8 → List UInt8 → Prop where
  | nil : Quoted [] []
  | plain {raw text : List UInt8} {c : UInt8} (hquote : c ≠ quote) (hback : c ≠ backslash) (h : Quoted raw text) :
    Quoted (c :: raw) (c :: text)
  | escaped {raw text : List UInt8} {c : UInt8} (hc : c = backslash ∨ c = quote) (h : Quoted raw text) :
    Quoted (backslash :: c :: raw) (c :: text)

/-- The number that digits write. -/
def decimal (digits : List UInt8) : Nat := digits.foldl (fun n c => n * 10 + (c.toNat - 0x30)) 0

inductive Literal : List UInt8 → Value → Prop where
  | str {raw text : List UInt8} (h : Quoted raw text) : Literal (quote :: (raw ++ [quote])) (.str text)
  | num {digits : List UInt8} (hne : digits ≠ []) (hdigits : ∀ c ∈ digits, isDigit c = true) :
    Literal digits (.num (decimal digits))

/-- `IDENT (…) VALUE`. -/
inductive Term : List UInt8 → List UInt8 → CmpOp → Value → Prop where
  | mk {w w₁ w₂ ident lit : List UInt8} {value : Value} (cmp : CmpOp) (hw : Blank w) (hne : ident ≠ [])
    (hident : ∀ c ∈ ident, isIdent c = true) (hw₁ : Blank w₁) (hw₂ : Blank w₂) (hlit : Literal lit value) :
    Term (w ++ ident ++ w₁ ++ cmp.sign ++ w₂ ++ lit) ident cmp value

/-- `operand (sign operand)*`, to the left. -/
inductive Chain (j : Joint) (Operand : List UInt8 → Expr → Prop) : List UInt8 → Expr → Prop where
  | one {s : List UInt8} {t : Expr} (h : Operand s t) : Chain j Operand s t
  | more {s s' w : List UInt8} {l r : Expr} (hl : Chain j Operand s l) (hw : Blank w) (hr : Operand s' r) :
    Chain j Operand (s ++ w ++ j.sign :: j.sign :: s') (.join j l r)

inductive Unary : List UInt8 → Expr → Prop where
  | not {s w : List UInt8} {t : Expr} (hw : Blank w) (h : Unary s t) : Unary (w ++ bang :: s) (.not t)
  | paren {s w w' : List UInt8} {t : Expr} (hw : Blank w) (h : Chain .or (Chain .and Unary) s t) (hw' : Blank w') :
    Unary (w ++ opening :: (s ++ w' ++ [closing])) t
  | term {s ident : List UInt8} {cmp : CmpOp} {value : Value} (h : Term s ident cmp value) :
    Unary s (.term ident cmp value)

def And : List UInt8 → Expr → Prop := Chain .and Unary

def Or : List UInt8 → Expr → Prop := Chain .or And

/-- A predicate, with its tree. -/
inductive Predicate : List UInt8 → Expr → Prop where
  | mk {s w : List UInt8} {t : Expr} (h : Or s t) (hw : Blank w) : Predicate (s ++ w) t

/-- A predicate within the caps on its length, its nodes, its identifiers and its strings. -/
structure Within (s : List UInt8) (t : Expr) : Prop where
  derived : Predicate s t
  length : s.length ≤ predMax
  nodes : t.size ≤ predNodeMax
  short : t.Short

/-! ## What a predicate says -/

/-- The attributes that lie in a block from `pos` on. -/
def attrsFrom (b : Block) (pos : Nat) : List SmallData.Attr :=
  if h : pos + 8 ≤ blockSize then
    let nlen := le b (pos + 4) 2
    let dlen := le b (pos + 6) 2
    if nlen = 0 ∨ pos + SmallData.entryBytes nlen dlen > blockSize then []
    else
      ⟨le b pos 4, slice b (pos + 8) nlen, slice b (pos + 8 + nlen + 3) dlen⟩ ::
        attrsFrom b (pos + SmallData.entryBytes nlen dlen)
  else []
termination_by blockSize - pos
decreasing_by all_goals (unfold SmallData.entryBytes; omega)

/-- The data of an attribute of the entry; the name entry is none. -/
def Entry.data (e : Entry) (ident : List UInt8) : Option (List UInt8) :=
  match e.inode with
  | none => none
  | some b =>
    ((SmallData.visible (attrsFrom b SmallData.smallDataOff)).find? fun a => a.name = ident).map SmallData.Attr.data

/-- The number that bytes mean, the lowest first. -/
def wordOf (bytes : List UInt8) : Nat := bytes.foldr (fun c n => c.toNat + 256 * n) 0

/-- What string predicates on `ident` are about. -/
def Entry.text (e : Entry) (ident : List UInt8) : Option (List UInt8) :=
  if ident = nameIdent then some e.name
  else if ident = sizeIdent ∨ ident = modifiedIdent then none
  else e.data ident

/-- What numeric predicates on `ident` are about: only data of 4 and of 8 bytes are numbers. -/
def Entry.number (e : Entry) (ident : List UInt8) : Option Nat :=
  if ident = nameIdent then none
  else if ident = sizeIdent then some e.size
  else if ident = modifiedIdent then some (e.mtime / 2 ^ 16)
  else (e.data ident).bind fun bytes => if bytes.length = 8 ∨ bytes.length = 4 then some (wordOf bytes) else none

/-- The six comparisons. -/
def CmpOp.Compares : CmpOp → Nat → Nat → Prop
  | .eq, a, b => a = b
  | .ne, a, b => a ≠ b
  | .lt, a, b => a < b
  | .le, a, b => a ≤ b
  | .gt, a, b => b < a
  | .ge, a, b => b ≤ a

/-- `==` is the match and `!=` its negation; the grammar gives no meaning to the others. -/
def CmpOp.Matches : CmpOp → List UInt8 → List UInt8 → Prop
  | .eq, pattern, text => Glob star question pattern text
  | .ne, pattern, text => ¬ Glob star question pattern text
  | _, _, _ => False

def Value.Holds (ident : List UInt8) (cmp : CmpOp) (e : Entry) : Value → Prop
  | .num n => ∃ a, e.number ident = some a ∧ cmp.Compares a n
  | .str pattern => ∃ text, e.text ident = some text ∧ cmp.Matches pattern text

/-- **The denotation** of a predicate. -/
def Expr.Holds (e : Entry) : Expr → Prop
  | .term ident cmp value => value.Holds ident cmp e
  | .join .and l r => l.Holds e ∧ r.Holds e
  | .join .or l r => l.Holds e ∨ r.Holds e
  | .not t => ¬ t.Holds e

/-- Strings are compared with `==` and `!=` only. -/
def Value.Meant (cmp : CmpOp) : Value → Prop
  | .num _ => True
  | .str _ => cmp = .eq ∨ cmp = .ne

/-- The predicates that have a denotation. -/
def Expr.Meant : Expr → Prop
  | .term _ cmp value => value.Meant cmp
  | .join _ l r => l.Meant ∧ r.Meant
  | .not t => t.Meant

end Aegir.Bfs.Query
