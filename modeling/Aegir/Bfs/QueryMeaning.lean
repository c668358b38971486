/-
  What the evaluation of a query predicate answers.

  The evaluation runs on the pool, node by node.  At every node of an accepted predicate its answer is the denotation
  of the expression there EXACTLY WHEN each term of the predicate is answered right, and a term goes wrong in four
  ways: a literal of 2^64 and more is read modulo 2^64, `!=` on strings is taken for `==`, data of more than 64
  bytes match nothing, and empty data raise.
-/
import Aegir.Bfs.QueryParse
import Aegir.Bfs.WalkSafety
import Aegir.Bfs.AttributeMap

namespace Aegir.Bfs.Query

open Aegir.Lib List

/-! ## Comparing and matching -/

theorem globMatch_iff (p s : List UInt8) : globMatch p s = true ↔ Glob star question p s := by
  induction p generalizing s with
  | nil => rw [globMatch, List.isEmpty_iff, glob_nil_iff]
  | cons p ps ih =>
    rw [globMatch.eq_def]
    dsimp only
    split_ifs with hp
    · rw [any_eq_true, hp, glob_any_iff]
      constructor
      · rintro ⟨k, hk, h⟩
        exact ⟨k, Nat.le_of_lt_succ (mem_range.mp hk), (ih _).mp h⟩
      · rintro ⟨k, hk, h⟩
        exact ⟨k, mem_range.mpr (Nat.lt_succ_of_le hk), (ih _).mpr h⟩
    · rw [glob_cons_iff hp]
      cases s with
      | nil =>
        refine ⟨fun h => (by cases h), ?_⟩
        rintro ⟨c, cs, heq, -⟩
        cases heq
      | cons c cs =>
        dsimp only
        split_ifs with hc
        · rw [ih]
          constructor
          · intro h
            exact ⟨c, cs, rfl, hc, h⟩
          · rintro ⟨d, ds, heq, -, h⟩
            cases heq
            exact h
        · refine ⟨fun h => (by cases h), ?_⟩
          rintro ⟨d, ds, heq, hd, -⟩
          cases heq
          exact absurd hd hc

theorem cmpApply_iff (op : CmpOp) (a b : Nat) : cmpApply op a b = true ↔ op.Compares a b := by
  cases op with
  | eq => exact beq_iff_eq
  | ne => exact bne_iff_ne
  | lt => exact decide_eq_true_iff
  | le => exact decide_eq_true_iff
  | gt => exact decide_eq_true_iff
  | ge => exact decide_eq_true_iff

/-! ## The data of an attribute -/

variable {data : List UInt8} {pos : Nat} {node : PredNode}

theorem wordOf_slice (b : Block) (pos n : Nat) : wordOf (slice b pos n) = le b pos n := by
  induction n generalizing pos with
  | zero => rfl
  | succ n ih =>
    show (b pos).toNat + 256 * wordOf (slice b (pos + 1) n) = _
    rw [ih]
    rfl

theorem textAt_decides (b : Block) (pos k n : Nat) :
    Decides (textAt b pos k n) (n = 0 ∨ (pos + k + n ≤ blockSize ∧ k + n ≤ textMax)) fun xs =>
      xs = slice b (pos + k) n := by
  induction n generalizing k with
  | zero => exact decides_eq [] (.inl rfl)
  | succ n ih =>
    have hrest : Decides (textAt b pos (k + 1) n >>= fun xs => pure (b (pos + k) :: xs))
        (n = 0 ∨ (pos + (k + 1) + n ≤ blockSize ∧ k + 1 + n ≤ textMax)) fun xs =>
          xs = slice b (pos + k) (n + 1) := by
      refine (ih (k + 1)).bind_yields fun xs hxs => ?_
      rw [hxs]
      exact yields_ok rfl
    refine ((byteAt_decides b (pos + k)).bind_eq fun _ =>
      (inRange_decides k textMax (Raised.row k)).bind_eq fun _ => hrest).congr ?_
    omega

theorem evalData_number (b : Block) (hnum : node.isNum = true)
    (hdata : slice b pos data.length = data) (hfits : pos + data.length ≤ blockSize) :
    evalData node b pos data.length =
      .ok (decide (data.length = 8 ∨ data.length = 4) && cmpApply node.cmp (wordOf data) node.num) := by
  rw [evalData, if_pos hnum]
  have hword : le b pos data.length = wordOf data := by rw [← wordOf_slice, hdata]
  by_cases h8 : data.length = 8
  · have hread : leAt b pos 8 = .ok (wordOf data) := by
      rw [← hword, h8]
      exact leAt_eq b (by omega)
    rw [if_pos h8, hread, decide_eq_true (Or.inl h8), Bool.true_and]
    rfl
  · by_cases h4 : data.length = 4
    · have hread : leAt b pos 4 = .ok (wordOf data) := by
        rw [← hword, h4]
        exact leAt_eq b (by omega)
      rw [if_neg h8, if_pos h4, hread, decide_eq_true (Or.inr h4), Bool.true_and]
      rfl
    · rw [if_neg h8, if_neg h4, decide_eq_false (by tauto), Bool.false_and]
      rfl

theorem evalData_text (b : Block) (hnum : node.isNum = false)
    (hdata : slice b pos data.length = data) (hfits : pos + data.length ≤ blockSize) (hpos : data ≠ [])
    (hlen : data.length ≤ textMax) : evalData node b pos data.length = .ok (globMatch node.str data) := by
  have hlpos := length_pos_iff.mpr hpos
  have hmax : textMax = 64 := rfl
  have hrounds : rounds data.length = data.length := rounds_pos hlpos (by omega)
  obtain ⟨text, htext, heq⟩ := (textAt_decides b pos 0 data.length).1 (.inr ⟨by omega, by omega⟩)
  rw [Nat.add_zero, hdata] at heq
  rw [evalData, if_neg (by rw [hnum]; exact Bool.false_ne_true), if_pos hlen, hrounds, htext, heq]
  show Except.ok (globMatch node.str (data.take data.length)) = _
  rw [take_length]

theorem evalData_empty (node : PredNode) (b : Block) (pos : Nat) (hnum : node.isNum = false) :
    ∃ r, evalData node b pos 0 = .error r := by
  rw [evalData, if_neg (by rw [hnum]; exact Bool.false_ne_true), if_pos (Nat.zero_le _)]
  cases htext : textAt b pos 0 (rounds 0) with
  | error r => exact ⟨r, rfl⟩
  | ok text =>
    have hmax : textMax = 64 := rfl
    have hdone := (textAt_decides b pos 0 (rounds 0)).2 ⟨text, htext⟩
    rw [rounds_zero] at hdone
    omega

theorem evalData_long (b : Block) (pos : Nat) {dlen : Nat} (hnum : node.isNum = false)
    (hlen : textMax < dlen) : evalData node b pos dlen = .ok false := by
  rw [evalData, if_neg (by rw [hnum]; exact Bool.false_ne_true), if_neg (by omega)]
  rfl

/-! ## The walk -/

/-- The walk looks at the data of the attribute, wherever they lie. -/
inductive Walked (node : PredNode) (b : Block) (x : Except Raised Bool) : Option SmallData.Attr → Prop where
  | none (h : x = .ok false) : Walked node b x none
  | some {a : SmallData.Attr} (pos : Nat) (hdata : slice b pos a.data.length = a.data)
    (hfits : pos + a.data.length ≤ blockSize) (h : x = evalData node b pos a.data.length) : Walked node b x (some a)

theorem evalFrom_walked (node : PredNode) (b : Block) (pos : Nat) : Walked node b (evalFrom node b pos)
      ((SmallData.visible (attrsFrom b pos)).find? fun a => a.name = node.attr) := by
  induction hm : blockSize - pos using Nat.strongRecOn generalizing pos with
  | ind m ih =>
    rw [evalFrom, attrsFrom]
    by_cases h : pos + 8 ≤ blockSize
    · rw [dif_pos h, dif_pos h, leAt_eq b (by omega), leAt_eq b (by omega)]
      show Walked node b (if _ then _ else _) _
      by_cases hzero : le b (pos + 4) 2 = 0
      · rw [if_pos hzero, if_pos (Or.inl hzero)]
        exact .none rfl
      · by_cases hbig : pos + SmallData.entryBytes (le b (pos + 4) 2) (le b (pos + 6) 2) > blockSize
        · rw [if_neg hzero, if_pos hbig, if_pos (Or.inr hbig)]
          exact .none rfl
        · rw [if_neg hzero, if_neg hbig, if_neg (by tauto)]
          generalize ha : SmallData.Attr.mk (le b pos 4) (slice b (pos + 8) (le b (pos + 4) 2))
            (slice b (pos + 8 + le b (pos + 4) 2 + 3) (le b (pos + 6) 2)) = a
          have hname : a.name.length = le b (pos + 4) 2 := by rw [← ha]; exact slice_length _ _ _
          have hdata : a.data.length = le b (pos + 6) 2 := by rw [← ha]; exact slice_length _ _ _
          have hslice : slice b (pos + 8 + a.name.length + 3) a.data.length = a.data := by
            rw [hname, hdata, ← ha]
          have hentry : SmallData.EntryAt b pos a := by
            refine ⟨?_, hname.symm, hdata.symm, ?_, hslice, ?_⟩
            · rw [← ha]
            · rw [hname, ← ha]
            · rw [hname]
              exact Nat.pos_of_ne_zero hzero
          have hsize : a.size = 8 + le b (pos + 4) 2 + 3 + le b (pos + 6) 2 + 1 := by
            rw [← hname, ← hdata]
            rfl
          have hbytes : SmallData.entryBytes (le b (pos + 4) 2) (le b (pos + 6) 2) = a.size := by
            rw [hsize]
            rfl
          rw [hbytes] at hbig ⊢
          rw [← hname, SmallData.isHit_eq node.attr true hentry (by omega), ← hdata]
          show Walked node b (if decide _ = true then _ else _) _
          by_cases hhit : a.name ≠ [SmallData.fileNameName] ∧ a.name = node.attr
          · have hvisible : SmallData.visible (a :: attrsFrom b (pos + a.size)) =
                a :: SmallData.visible (attrsFrom b (pos + a.size)) := filter_cons_of_pos (by simp [hhit.1])
            rw [if_pos (decide_eq_true ⟨rfl, hhit⟩), hvisible, find?_cons_of_pos (by simp [hhit.2])]
            exact .some _ hslice (by omega) rfl
          · have hrest := ih (blockSize - (pos + a.size)) (by omega) (pos + a.size) rfl
            rw [if_neg fun hd => hhit (of_decide_eq_true hd).2]
            by_cases hhidden : a.name = [SmallData.fileNameName]
            · have hvisible : SmallData.visible (a :: attrsFrom b (pos + a.size)) =
                  SmallData.visible (attrsFrom b (pos + a.size)) := filter_cons_of_neg (by simp [hhidden])
              rw [hvisible]
              exact hrest
            · have hvisible : SmallData.visible (a :: attrsFrom b (pos + a.size)) =
                  a :: SmallData.visible (attrsFrom b (pos + a.size)) := filter_cons_of_pos (by simp [hhidden])
              have hother : ¬ a.name = node.attr := fun heq => hhit ⟨hhidden, heq⟩
              rw [hvisible, find?_cons_of_neg (by simp [hother])]
              exact hrest
    · rw [dif_neg h, dif_neg h]
      exact .none rfl

/-! ## Terms -/

variable {P : Prop} {ε : Type} {cmp : CmpOp} {n : Nat} {ident : List UInt8} {value : Value}

/-- The computation answers a truth value, and it is that of `P`. -/
def Answers {ε : Type} (x : Except ε Bool) (P : Prop) : Prop := (x = .ok true ∧ P) ∨ (x = .ok false ∧ ¬ P)

theorem answers_ok {b : Bool} : Answers (.ok b : Except ε Bool) P ↔ (b = true ↔ P) := by
  cases b with
  | true => simp [Answers]
  | false => simp [Answers]

theorem answers_error {e : ε} : ¬ Answers (.error e : Except ε Bool) P := by
  rintro (⟨h, -⟩ | ⟨h, -⟩) <;> cases h

/-- **The terms that are answered right**: the literal is a word, or its word compares alike; on the name, strings
    are compared with `==`; on an attribute there are data, and `==` is not asked of data too long that match, nor
    `!=` of any but those. -/
def Value.Right (ident : List UInt8) (cmp : CmpOp) (e : Entry) : Value → Prop
  | .num n => ∀ a, e.number ident = some a → (cmp.Compares a (n % 2 ^ 64) ↔ cmp.Compares a n)
  | .str pattern => ∀ text, e.text ident = some text →
    if ident = nameIdent then cmp = .eq
    else if cmp = .eq then text ≠ [] ∧ (text.length ≤ textMax ∨ ¬ Glob star question pattern text)
    else textMax < text.length ∧ Glob star question pattern text

theorem answers_compare {number : Option Nat} {x : Except ε Bool}
    (hsome : ∀ a, number = some a → x = .ok (cmpApply cmp a (n % 2 ^ 64))) (hnone : number = none → x = .ok false) :
    Answers x (∃ a, number = some a ∧ cmp.Compares a n) ↔
      ∀ a, number = some a → (cmp.Compares a (n % 2 ^ 64) ↔ cmp.Compares a n) := by
  cases hnumber : number with
  | none =>
    rw [hnone hnumber, answers_ok]
    simp
  | some a =>
    rw [hsome a hnumber, answers_ok, cmpApply_iff]
    simp

theorem term_data_iff (e : Entry) (hname : ident ≠ nameIdent)
    (hsize : ident ≠ sizeIdent) (hmodified : ident ≠ modifiedIdent) (hmeant : value.Meant cmp) :
    Answers (evalTerm (termNode ident cmp value) e) (value.Holds ident cmp e) ↔ value.Right ident cmp e := by
  have hident : (termNode ident cmp value).attr = ident := by cases value <;> rfl
  have htext : e.text ident = e.data ident := by
    rw [Entry.text, if_neg hname, if_neg (by tauto)]
  -- the walk, when there is a block: nothing is found, or the data of the attribute
  have hwalk : (e.data ident = none ∧ evalTerm (termNode ident cmp value) e = .ok false) ∨
      ∃ b pos data, e.data ident = some data ∧ slice b pos data.length = data ∧ pos + data.length ≤ blockSize ∧
        evalTerm (termNode ident cmp value) e = evalData (termNode ident cmp value) b pos data.length := by
    rw [evalTerm, hident, if_neg hname, if_neg hsize, if_neg hmodified]
    cases hinode : e.inode with
    | none => exact .inl ⟨by rw [Entry.data, hinode], rfl⟩
    | some b =>
      have hwalked := evalFrom_walked (termNode ident cmp value) b SmallData.smallDataOff
      rw [hident] at hwalked
      have hdata : e.data ident = ((SmallData.visible (attrsFrom b SmallData.smallDataOff)).find?
          fun a => a.name = ident).map SmallData.Attr.data := by rw [Entry.data, hinode]
      generalize hfound : (SmallData.visible (attrsFrom b SmallData.smallDataOff)).find? (fun a => a.name = ident) =
        found at hwalked hdata
      cases hwalked with
      | none h => exact .inl ⟨hdata, h⟩
      | some pos hslice hfits h => exact .inr ⟨b, pos, _, hdata, hslice, hfits, h⟩
  cases value with
  | num n =>
    have hnumber : e.number ident = (e.data ident).bind fun bytes =>
        if bytes.length = 8 ∨ bytes.length = 4 then some (wordOf bytes) else none := by
      rw [Entry.number, if_neg hname, if_neg hsize, if_neg hmodified]
    refine answers_compare ?_ ?_
    · intro a ha
      rw [hnumber] at ha
      rcases hwalk with ⟨hnone, -⟩ | ⟨b, pos, data, hdata, hslice, hfits, h⟩
      · rw [hnone] at ha
        cases ha
      · rw [hdata, Option.bind_some] at ha
        split at ha
        · next hlen =>
          cases ha
          rw [h, evalData_number b rfl hslice hfits, decide_eq_true hlen, Bool.true_and]
          rfl
        · cases ha
    · intro hnone
      rw [hnumber] at hnone
      rcases hwalk with ⟨-, h⟩ | ⟨b, pos, data, hdata, hslice, hfits, h⟩
      · exact h
      · rw [hdata, Option.bind_some] at hnone
        split at hnone
        · cases hnone
        · next hlen => rw [h, evalData_number b rfl hslice hfits, decide_eq_false hlen, Bool.false_and]
  | str pattern =>
    have hcmp : cmp = .eq ∨ cmp = .ne := hmeant
    show Answers _ (∃ text, e.text ident = some text ∧ cmp.Matches pattern text) ↔ ∀ text, e.text ident = some text → _
    rw [htext]
    rcases hwalk with ⟨hnone, h⟩ | ⟨b, pos, data, hdata, hslice, hfits, h⟩
    · rw [h, answers_ok, hnone]
      simp
    · rw [h, hdata]
      have hsimple : ∀ P : List UInt8 → Prop, (∀ text, some data = some text → P text) ↔ P data := by
        intro P
        refine ⟨fun hall => hall data rfl, ?_⟩
        rintro hp text heq
        cases heq
        exact hp
      have hexists : (∃ text, some data = some text ∧ cmp.Matches pattern text) ↔ cmp.Matches pattern data := by
        refine ⟨?_, fun hm => ⟨data, rfl, hm⟩⟩
        rintro ⟨text, heq, hm⟩
        cases heq
        exact hm
      rw [hsimple, hexists, if_neg hname]
      by_cases hempty : data = []
      · -- empty data raise
        obtain ⟨r, hr⟩ := evalData_empty (termNode ident cmp (.str pattern)) b pos rfl
        rw [hempty, length_nil, hr]
        refine ⟨fun ha => absurd ha answers_error, ?_⟩
        intro hright
        split at hright
        · exact absurd rfl hright.1
        · exact absurd hright.1 (Nat.not_lt_zero _)
      · by_cases hlong : textMax < data.length
        · -- long data match nothing
          have hnot : ¬ data.length ≤ textMax := by omega
          rw [evalData_long b pos rfl hlong, answers_ok]
          rcases hcmp with rfl | rfl
          · rw [if_pos rfl]
            simp [CmpOp.Matches, hempty, hnot]
          · rw [if_neg (by decide)]
            simp [CmpOp.Matches, hlong]
        · have hle : data.length ≤ textMax := by omega
          rw [evalData_text b rfl hslice hfits hempty hle, answers_ok]
          show (globMatch pattern data = true ↔ _) ↔ _
          rw [globMatch_iff]
          rcases hcmp with rfl | rfl
          · rw [if_pos rfl]
            simp [CmpOp.Matches, hempty, hle]
          · rw [if_neg (by decide)]
            simp [CmpOp.Matches, hlong]

/-- **A term is answered as it is meant, exactly when it is one of the right ones.** -/
theorem term_iff (e : Entry) (hmeant : value.Meant cmp) :
    Answers (evalTerm (termNode ident cmp value) e) (value.Holds ident cmp e) ↔ value.Right ident cmp e := by
  by_cases hname : ident = nameIdent
  · -- the name
    subst hname
    cases value with
    | num n => exact answers_compare (fun a ha => (by cases ha)) fun _ => rfl
    | str pattern =>
      have hcmp : cmp = .eq ∨ cmp = .ne := hmeant
      have hholds : Value.Holds nameIdent cmp e (.str pattern) ↔ cmp.Matches pattern e.name := by
        refine ⟨?_, fun hm => ⟨e.name, rfl, hm⟩⟩
        rintro ⟨text, heq, hm⟩
        cases heq
        exact hm
      have hright : Value.Right nameIdent cmp e (.str pattern) ↔ cmp = .eq := by
        refine ⟨fun h => ?_, fun h text _ => ?_⟩
        · have hr := h e.name rfl
          rwa [if_pos rfl] at hr
        · rw [if_pos rfl]
          exact h
      rw [hright, hholds]
      show Answers (.ok (globMatch pattern e.name)) _ ↔ _
      rw [answers_ok, globMatch_iff]
      rcases hcmp with rfl | rfl
      · simp [CmpOp.Matches]
      · simp [CmpOp.Matches]
  · by_cases hsize : ident = sizeIdent
    · -- the size
      subst hsize
      cases value with
      | num n =>
        refine answers_compare (fun a ha => ?_) fun hnone => (by cases hnone)
        cases ha
        rfl
      | str pattern =>
        show Answers (.ok false) (∃ text, none = some text ∧ _) ↔ ∀ text, none = some text → _
        rw [answers_ok]
        simp
    · by_cases hmodified : ident = modifiedIdent
      · -- the time
        subst hmodified
        cases value with
        | num n =>
          refine answers_compare (fun a ha => ?_) fun hnone => (by cases hnone)
          cases ha
          rfl
        | str pattern =>
          show Answers (.ok false) (∃ text, none = some text ∧ _) ↔ ∀ text, none = some text → _
          rw [answers_ok]
          simp
      · exact term_data_iff e hname hsize hmodified hmeant

/-! ## Trees -/

variable {base levels : Nat} {l r t : Expr} {pool : List PredNode} {j : Joint}

/-- Every term of the tree that has a meaning is one of the right ones. -/
def Expr.Right (e : Entry) : Expr → Prop
  | .term ident cmp value => value.Meant cmp → value.Right ident cmp e
  | .join _ l r => l.Right e ∧ r.Right e
  | .not t => t.Right e

/-- The root node of a tree in a pool that holds `base` nodes before it. -/
def Expr.root (base : Nat) : Expr → PredNode
  | .term ident cmp value => termNode ident cmp value
  | .join j l r => { kind := j.kind, left := base + l.size, right := base + l.size + r.size }
  | .not t => { kind := .not, left := base + t.size }

/-- The tree lies in the pool behind `base` nodes. -/
def Planted (pool : List PredNode) (base : Nat) (t : Expr) : Prop :=
  ∃ pre post, pool = pre ++ t.nodes base ++ post ∧ pre.length = base

theorem Planted.left (h : Planted pool base (.join j l r)) :
    Planted pool base l := by
  obtain ⟨pre, post, hpool, hpre⟩ := h
  refine ⟨pre, r.nodes (base + l.size) ++ [Expr.root base (.join j l r)] ++ post, ?_, hpre⟩
  rw [hpool, Expr.nodes]
  simp only [append_assoc, Expr.root]

theorem Planted.right (h : Planted pool base (.join j l r)) : Planted pool (base + l.size) r := by
  obtain ⟨pre, post, hpool, hpre⟩ := h
  refine ⟨pre ++ l.nodes base, [Expr.root base (.join j l r)] ++ post, ?_, ?_⟩
  · rw [hpool, Expr.nodes]
    simp only [append_assoc, Expr.root]
  · rw [length_append, nodes_length, hpre]

theorem Planted.sub (h : Planted pool base (.not t)) :
    Planted pool base t := by
  obtain ⟨pre, post, hpool, hpre⟩ := h
  refine ⟨pre, [Expr.root base (.not t)] ++ post, ?_, hpre⟩
  rw [hpool, Expr.nodes]
  simp only [append_assoc, Expr.root]

theorem nodes_root (t : Expr) (base : Nat) : ∃ front, t.nodes base = front ++ [t.root base] := by
  cases t with
  | term ident cmp value => exact ⟨[], rfl⟩
  | join j l r => exact ⟨l.nodes base ++ r.nodes (base + l.size), rfl⟩
  | not t => exact ⟨t.nodes base, rfl⟩

theorem Planted.nodeAt (h : Planted pool base t) : nodeAt pool (base + t.size) = .ok (t.root base) := by
  obtain ⟨pre, post, hpool, hpre⟩ := h
  obtain ⟨front, hfront⟩ := nodes_root t base
  have hlen : front.length + 1 = t.size := by
    have hl := congrArg length hfront
    rw [nodes_length, length_append] at hl
    exact hl.symm
  have hsplit : pool = (pre ++ front) ++ t.root base :: post := by
    rw [hpool, hfront]
    simp only [append_assoc, cons_append, nil_append]
  have hindex : base + t.size - 1 = (pre ++ front).length := by
    rw [length_append, hpre]
    omega
  rw [Query.nodeAt, if_neg (by omega), hindex, hsplit, getElem?_append_right (Nat.le_refl _), Nat.sub_self]
  rfl

theorem answers_mapError {x : Except Raised Bool} : Answers (x.mapError Stop.raised) P ↔ Answers x P := by
  cases x with
  | error r => exact ⟨fun h => absurd h answers_error, fun h => absurd h answers_error⟩
  | ok b => exact answers_ok.trans answers_ok.symm

theorem evalNode_term (e : Entry) (h : Planted pool base (.term ident cmp value)) :
    evalNode pool e (levels + 1) (base + 1) = (evalTerm (termNode ident cmp value) e).mapError .raised := by
  have hnode : nodeAt pool (base + 1) = .ok (termNode ident cmp value) := h.nodeAt
  rw [evalNode, hnode]
  cases value <;> rfl

/-- **The evaluation of a tree** all of whose terms are right. -/
theorem evalNode_right {e : Entry} (levels : Nat)
    (h : Planted pool base t) (hlevels : t.size ≤ levels) (hright : t.Right e) (hmeant : t.Meant) :
    Answers (evalNode pool e levels (base + t.size)) (t.Holds e) := by
  induction t generalizing base levels with
  | term ident cmp value =>
    obtain ⟨levels, rfl⟩ := Nat.exists_eq_succ_of_ne_zero (by
      have hsize : (Expr.term ident cmp value).size = 1 := rfl
      omega : levels ≠ 0)
    show Answers (evalNode pool e (levels + 1) (base + 1)) _
    rw [evalNode_term e h, answers_mapError]
    exact (term_iff e hmeant).mpr (hright hmeant)
  | join j l r ihl ihr =>
    have hsize : (Expr.join j l r).size = l.size + r.size + 1 := rfl
    obtain ⟨levels, rfl⟩ := Nat.exists_eq_succ_of_ne_zero (by omega : levels ≠ 0)
    have hl := ihl levels h.left (by omega) hright.1 hmeant.1
    have hr := ihr levels h.right (by omega) hright.2 hmeant.2
    rw [evalNode, h.nodeAt]
    cases j with
    | and =>
      show Answers (evalNode pool e levels (base + l.size) >>= fun x =>
        if x then evalNode pool e levels (base + l.size + r.size) else pure false) (l.Holds e ∧ r.Holds e)
      rcases hl with ⟨hrun, hp⟩ | ⟨hrun, hp⟩
      · rw [hrun]
        rw [and_iff_right hp]
        exact hr
      · rw [hrun]
        exact .inr ⟨rfl, fun hand => hp hand.1⟩
    | or =>
      show Answers (evalNode pool e levels (base + l.size) >>= fun x =>
        if x then pure true else evalNode pool e levels (base + l.size + r.size)) (l.Holds e ∨ r.Holds e)
      rcases hl with ⟨hrun, hp⟩ | ⟨hrun, hp⟩
      · rw [hrun]
        exact .inl ⟨rfl, .inl hp⟩
      · rw [hrun]
        rw [or_iff_right hp]
        exact hr
  | not t ih =>
    have hsize : (Expr.not t).size = t.size + 1 := rfl
    obtain ⟨levels, rfl⟩ := Nat.exists_eq_succ_of_ne_zero (by omega : levels ≠ 0)
    have hsub := ih levels h.sub (by omega) hright hmeant
    rw [evalNode, h.nodeAt]
    show Answers (evalNode pool e levels (base + t.size) >>= fun x => pure (!x)) (¬ t.Holds e)
    rcases hsub with ⟨hrun, hp⟩ | ⟨hrun, hp⟩
    · rw [hrun]
      exact .inr ⟨rfl, fun hn => hn hp⟩
    · rw [hrun]
      exact .inl ⟨rfl, hp⟩

/-! ## Whole predicates -/

/-- `u` occurs in the tree `t`, which lies behind `base` nodes, and `n` is its root. -/
inductive Occurs : Nat → Expr → Nat → Expr → Prop where
  | root (base : Nat) (t : Expr) : Occurs base t (base + t.size) t
  | left {base n : Nat} {l u : Expr} (j : Joint) (r : Expr) (h : Occurs base l n u) : Occurs base (.join j l r) n u
  | right {base n : Nat} {r u : Expr} (j : Joint) (l : Expr) (h : Occurs (base + l.size) r n u) :
    Occurs base (.join j l r) n u
  | sub {base n : Nat} {t u : Expr} (h : Occurs base t n u) : Occurs base (.not t) n u

/-- **What the query promises** of a predicate and an entry: the predicate is accepted exactly when it derives from
    the grammar, and at every node of its tree the evaluation answers what the expression there means. -/
structure Means (s : List UInt8) (e : Entry) : Prop where
  accepts : ∀ x, parse s = .ok x ↔ ∃ t, Within s t ∧ x = ⟨t.nodes 0, t.size⟩
  answers : ∀ t, Within s t → ∀ n u, Occurs 0 t n u → u.Meant →
    Answers (evalNode (t.nodes 0) e predNodeMax n) (u.Holds e)

theorem occurs_answers {e : Entry} {u : Expr} (ho : Occurs base t n u)
    (h : Planted pool base t) (hlevels : t.size ≤ levels) (hright : t.Right e) (hmeant : u.Meant) :
    Answers (evalNode pool e levels n) (u.Holds e) := by
  induction ho with
  | root base t => exact evalNode_right _ h hlevels hright hmeant
  | @left base n l u j r ho ih =>
    have hsize : (Expr.join j l r).size = l.size + r.size + 1 := rfl
    exact ih h.left (by omega) hright.1 hmeant
  | @right base n r u j l ho ih =>
    have hsize : (Expr.join j l r).size = l.size + r.size + 1 := rfl
    exact ih h.right (by omega) hright.2 hmeant
  | @sub base n t u ho ih =>
    have hsize : (Expr.not t).size = t.size + 1 := rfl
    exact ih h.sub (by omega) hright hmeant

theorem right_of_answers {e : Entry} (levels : Nat) (h : Planted pool base t)
    (hall : ∀ n u, Occurs base t n u → u.Meant → Answers (evalNode pool e (levels + 1) n) (u.Holds e)) :
    t.Right e := by
  induction t generalizing base with
  | term ident cmp value =>
    intro hmeant
    have ha := hall _ _ (.root base _) hmeant
    rw [show base + (Expr.term ident cmp value).size = base + 1 from rfl, evalNode_term e h, answers_mapError] at ha
    exact (term_iff e hmeant).mp ha
  | join j l r ihl ihr =>
    exact ⟨ihl h.left fun n u ho => hall n u (ho.left j r), ihr h.right fun n u ho => hall n u (ho.right j l)⟩
  | not t ih => exact ih h.sub fun n u ho => hall n u ho.sub

/-- **A predicate means what the grammar says, exactly when its terms are right ones.** -/
theorem query_means_iff (s : List UInt8) (e : Entry) : Means s e ↔ ∀ t, Within s t → t.Right e := by
  have hplanted : ∀ t : Expr, Planted (t.nodes 0) 0 t := fun t => ⟨[], [], by rw [append_nil, nil_append], rfl⟩
  constructor
  · intro h t ht
    exact right_of_answers 23 (hplanted t) (h.answers t ht)
  · intro h
    refine ⟨parse_iff s, fun t ht n u ho hmeant => ?_⟩
    exact occurs_answers ho (hplanted t) ht.nodes (h t ht) hmeant

/-- `name!="x"` -/
def notNamed : List UInt8 := nameIdent ++ [bang, equals, quote, 0x78, quote]

/-- The query `name!="x"` answers false at an entry named `y`. -/
theorem name_operator_is_ignored : ¬ ∀ s e, Means s e := by
  intro h
  have hlit : Literal (quote :: ([0x78] ++ [quote])) (.str [0x78]) := .str (.plain (by decide) (by decide) .nil)
  have hterm := Term.mk CmpOp.ne blank_nil (by decide : nameIdent ≠ []) (by decide +kernel) blank_nil blank_nil hlit
  have hpred : Predicate (notNamed ++ []) (.term nameIdent .ne (.str [0x78])) :=
    .mk (.one (.one (.term hterm))) blank_nil
  have hwithin : Within notNamed (.term nameIdent .ne (.str [0x78])) :=
    ⟨hpred, by decide, by decide, ⟨by decide, show 1 ≤ strMax by decide⟩⟩
  have hanswer := (h notNamed ⟨[0x79], 0, 0, none⟩).answers _ hwithin 1 _ (.root 0 _) (.inr rfl)
  have hrun : evalNode ((Expr.term nameIdent .ne (.str [0x78])).nodes 0) ⟨[0x79], 0, 0, none⟩ predNodeMax 1 =
      .ok false := by decide +kernel
  rw [hrun, answers_ok] at hanswer
  have hholds : (Expr.term nameIdent .ne (.str [0x78])).Holds ⟨[0x79], 0, 0, none⟩ := by
    refine ⟨[0x79], rfl, fun hg => ?_⟩
    have hmatch := (globMatch_iff [0x78] [0x79]).mpr hg
    exact absurd hmatch (by decide)
  exact absurd (hanswer.mpr hholds) Bool.false_ne_true

end Aegir.Bfs.Query
