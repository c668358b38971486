/-
  The parser of query predicates against the grammar.

  What a parsing function answers is the tree of what it has read, laid out in the pool behind what was there before:
  operands first, so that the root of a tree is the last of its nodes.  SOUNDNESS says so of every answer,
  COMPLETENESS that a text of the grammar within the caps is answered.
-/
import Aegir.Bfs.QueryTokens

namespace Aegir.Bfs.Query

open List Option

/-! ## Trees in the pool -/

variable {p p' : Parser} {n : Nat}

def Joint.kind : Joint → NodeKind
  | .and => .and
  | .or => .or

/-- The node of a term. -/
def termNode (ident : List UInt8) (cmp : CmpOp) (value : Value) : PredNode :=
  PredNode.given { kind := .term, attr := ident, cmp } value

/-- The nodes of a tree, in a pool that holds `base` nodes before it. -/
def Expr.nodes (base : Nat) : Expr → List PredNode
  | .term ident cmp value => [termNode ident cmp value]
  | .join j l r =>
    l.nodes base ++ r.nodes (base + l.size) ++
      [{ kind := j.kind, left := base + l.size, right := base + l.size + r.size }]
  | .not t => t.nodes base ++ [{ kind := .not, left := base + t.size }]

@[simp] theorem nodes_length (t : Expr) (base : Nat) : (t.nodes base).length = t.size := by
  induction t generalizing base with
  | term ident cmp value => rfl
  | join j l r ihl ihr =>
    rw [Expr.nodes, length_append, length_append, ihl, ihr]
    rfl
  | not t ih =>
    rw [Expr.nodes, length_append, ih]
    rfl

/-- What a parsing function has made of the state `p`: it read a text of the language, and perhaps blanks. -/
structure Read (L : List UInt8 → Expr → Prop) (p : Parser) (n : Nat) (p' : Parser) (s w : List UInt8) (t : Expr) :
    Prop where
  rest : p.rest = s ++ w ++ p'.rest
  derived : L s t
  blank : Blank w
  short : t.Short
  number : n = p.nodes.length + t.size
  nodes : p'.nodes = p.nodes ++ t.nodes p.nodes.length
  room : p'.nodes.length ≤ predNodeMax

/-- Every answer is the tree of what was read. -/
def Sound (f : Parser → Option (Nat × Parser)) (L : List UInt8 → Expr → Prop) : Prop :=
  ∀ p n p', p.nodes.length ≤ predNodeMax → f p = some (n, p') → ∃ s w t, Read L p n p' s w t

/-- Texts of the language up to `m` characters are read, before a text with `Next`. -/
def Complete (f : Parser → Option (Nat × Parser)) (L : List UInt8 → Expr → Prop) (Next : List UInt8 → Prop) (m : Nat) :
    Prop :=
  ∀ (s : List UInt8) (t : Expr) (r : List UInt8) (nodes : List PredNode), s.length ≤ m → L s t → t.Short →
    nodes.length + t.size ≤ predNodeMax → Next r →
    ∃ r', skipWs r' = skipWs r ∧ f ⟨s ++ r, nodes⟩ = some (nodes.length + t.size, ⟨r', nodes ++ t.nodes nodes.length⟩)

theorem predNew_some {node : PredNode} (h : predNew p node = some (n, p')) (hroom : p.nodes.length ≤ predNodeMax) :
    n = p.nodes.length + 1 ∧ p' = ⟨p.rest, p.nodes ++ [node]⟩ ∧ p.nodes.length + 1 ≤ predNodeMax := by
  rw [predNew] at h
  split at h
  · cases h
  · cases h
    exact ⟨rfl, rfl, by omega⟩

theorem predNew_room (p : Parser) (node : PredNode) (hroom : p.nodes.length + 1 ≤ predNodeMax) :
    predNew p node = some (p.nodes.length + 1, ⟨p.rest, p.nodes ++ [node]⟩) := by
  rw [predNew, if_neg (by omega)]

theorem set_last (nodes : List PredNode) (x y : PredNode) : (nodes ++ [x]).set nodes.length y = nodes ++ [y] := by
  rw [set_append_right _ _ (Nat.le_refl _), Nat.sub_self]
  rfl

/-! ## Terms -/

variable {s : List UInt8}

theorem parseTerm_sound : Sound parseTerm Unary := by
  intro p n p' hroom h
  obtain ⟨w, hw, hrest⟩ := skipWs_split p.rest
  obtain ⟨⟨m, q⟩, hnew, h⟩ := bind_eq_some_iff.mp h
  obtain ⟨rfl, rfl, hlen⟩ := predNew_some hnew hroom
  obtain ⟨hs, hident, hshort⟩ := takeIdent_sound attrMax (skipWs p.rest)
  dsimp only at h
  split at h
  · cases h
  · next hne =>
    obtain ⟨⟨cmp, rest⟩, hcmp, h⟩ := bind_eq_some_iff.mp h
    obtain ⟨⟨node, rest'⟩, hvalue, h⟩ := bind_eq_some_iff.mp h
    cases h
    obtain ⟨w₁, hw₁, hs1⟩ := skipWs_split (takeIdent attrMax (skipWs p.rest)).2
    obtain ⟨w₂, hw₂, hs2⟩ := skipWs_split rest
    have hcmp := takeCmp_sound hcmp
    obtain ⟨lit, value, hlit, hliteral, hfits, rfl⟩ := takeValue_sound hvalue
    have hterm := Term.mk cmp hw (fun h0 => hne (congrArg length h0)) hident hw₁ hw₂ hliteral
    refine ⟨_, [], _, ?_, .term hterm, blank_nil, ⟨hshort, hfits⟩, rfl, ?_, ?_⟩
    · rw [append_nil]
      simp only [append_assoc]
      rw [← hlit, ← hs2, ← hcmp, ← hs1, ← hs, ← hrest]
    · exact set_last _ _ _
    · rw [length_set, length_append]
      exact hlen

theorem parseTerm_complete {ident r : List UInt8} {cmp : CmpOp} {value : Value} (nodes : List PredNode)
    (h : Term s ident cmp value) (hident : ident.length ≤ attrMax) (hvalue : value.Short)
    (hroom : nodes.length + 1 ≤ predNodeMax) (hr : NotAt isDigit r) :
    parseTerm ⟨s ++ r, nodes⟩ = some (nodes.length + 1, ⟨r, nodes ++ [termNode ident cmp value]⟩) := by
  cases h with
  | @mk w w₁ w₂ _ lit _ _ hw hne hall hw₁ hw₂ hlit =>
    obtain ⟨c, cs, hcons⟩ := exists_cons_of_ne_nil hne
    obtain ⟨o, os, hsign, hblank, hnot⟩ := sign_head cmp
    obtain ⟨l, ls, hlits, hlblank, hleq⟩ := literal_head hlit
    have hc : isBlank c = false := ident_not_blank (hall c (by rw [hcons]; exact mem_cons_self))
    -- the identifier, behind its blanks
    have hstart : skipWs (w ++ ident ++ w₁ ++ cmp.sign ++ w₂ ++ lit ++ r) =
        ident ++ (w₁ ++ (cmp.sign ++ (w₂ ++ (lit ++ r)))) := by
      simp only [append_assoc]
      rw [hcons]
      exact skipWs_token hw hc _
    have htake : takeIdent attrMax (ident ++ (w₁ ++ (cmp.sign ++ (w₂ ++ (lit ++ r))))) =
        (ident, w₁ ++ (cmp.sign ++ (w₂ ++ (lit ++ r)))) := by
      refine takeIdent_complete hall hident (notAt_blank blank_not_ident hw₁ ?_)
      rw [hsign]
      exact hnot
    -- the operator
    have hop : skipWs (w₁ ++ (cmp.sign ++ (w₂ ++ (lit ++ r)))) = cmp.sign ++ (w₂ ++ (lit ++ r)) := by
      rw [hsign]
      exact skipWs_token hw₁ hblank _
    have hcmp : takeCmp (cmp.sign ++ (w₂ ++ (lit ++ r))) = some (cmp, w₂ ++ (lit ++ r)) := by
      refine takeCmp_complete cmp (notAt_blank blank_not_equals hw₂ ?_)
      rw [hlits]
      exact hleq
    -- the value
    have hval : skipWs (w₂ ++ (lit ++ r)) = lit ++ r := by
      rw [hlits]
      exact skipWs_token hw₂ hlblank _
    have hpos : ¬ ident.length = 0 := fun h0 => hne (eq_nil_of_length_eq_zero h0)
    rw [parseTerm, predNew_room _ _ hroom]
    show (if (takeIdent attrMax (skipWs _)).1.length = 0 then _ else _) = _
    rw [hstart, htake]
    rw [if_neg hpos, hop, hcmp]
    show (takeValue _ (skipWs _) >>= _) = _
    rw [hval, takeValue_complete _ hlit hvalue hr]
    exact congrArg (fun l => some (nodes.length + 1, (⟨r, l⟩ : Parser))) (set_last _ _ _)

/-! ## Chains -/

variable {j : Joint} {t : Expr} {w : List UInt8} {operand : Parser → Option (Nat × Parser)}
  {L : List UInt8 → Expr → Prop} {m : Nat} {Next : List UInt8 → Prop}

theorem chain_sound (hop : Sound operand L) (rounds : Nat) {p0 : Parser} {l : Nat}
    (hread : Read (Chain j L) p0 l p s w t) (h : chain operand j.sign j.kind rounds l p = some (n, p')) :
    ∃ s w t, Read (Chain j L) p0 n p' s w t := by
  induction rounds generalizing l p s w t with
  | zero => cases h
  | succ rounds ih =>
    obtain ⟨w₁, hw₁, hrest⟩ := skipWs_split p.rest
    -- nothing but blanks has been passed over when the loop ends
    have hend : ∀ rest, skipWs p.rest = rest → some (l, (⟨rest, p.nodes⟩ : Parser)) = some (n, p') →
        ∃ s w t, Read (Chain j L) p0 n p' s w t := by
      rintro rest hskip heq
      cases heq
      refine ⟨s, w ++ w₁, t, ?_, hread.derived, hread.blank.append hw₁, hread.short, hread.number, hread.nodes,
        hread.room⟩
      rw [hread.rest, hrest, hskip]
      simp only [append_assoc]
    rw [chain] at h
    split at h
    · next c d cs hskip =>
      split at h
      · next hsign =>
        obtain ⟨rfl, rfl⟩ := hsign
        obtain ⟨⟨r, q⟩, hr, h⟩ := bind_eq_some_iff.mp h
        obtain ⟨⟨m, q'⟩, hnew, h⟩ := bind_eq_some_iff.mp h
        obtain ⟨s', w', t', hread'⟩ := hop ⟨cs, p.nodes⟩ _ _ hread.room hr
        obtain ⟨rfl, rfl, hlen⟩ := predNew_some hnew hread'.room
        have hp : p.nodes.length = p0.nodes.length + t.size := by
          rw [hread.nodes, length_append, nodes_length]
        have hq : q.nodes.length = p0.nodes.length + t.size + t'.size := by
          rw [hread'.nodes, length_append, nodes_length, hp]
        refine ih ⟨?_, .more hread.derived (hread.blank.append hw₁) hread'.derived, hread'.blank,
          ⟨hread.short, hread'.short⟩, ?_, ?_, ?_⟩ h
        · have hcs : cs = s' ++ w' ++ q.rest := hread'.rest
          rw [hread.rest, hrest, hskip, hcs]
          simp only [append_assoc, cons_append]
        · rw [hq]
          show _ = _ + (t.size + t'.size + 1)
          omega
        · have hnumber : r = p.nodes.length + t'.size := hread'.number
          rw [hread'.nodes, hread.nodes, Expr.nodes, hread.number, hnumber, hread.nodes]
          simp only [append_assoc, length_append, nodes_length]
        · show (q.nodes ++ _).length ≤ _
          rw [length_append]
          exact hlen
      · exact hend _ hskip h
    · exact hend _ rfl h

theorem parseChain_sound (j : Joint)
    (hop : Sound operand L) : Sound (parseChain operand j.sign j.kind) (Chain j L) := by
  intro p n p' hroom h
  obtain ⟨⟨l, q⟩, hl, h⟩ := bind_eq_some_iff.mp h
  obtain ⟨s, w, t, hread⟩ := hop _ _ _ hroom hl
  exact chain_sound hop _ ⟨hread.rest, .one hread.derived, hread.blank, hread.short, hread.number, hread.nodes,
    hread.room⟩ h

/-- The text does not go on with the sign. -/
def NoSign (j : Joint) (r : List UInt8) : Prop := ∀ cs, skipWs r ≠ j.sign :: j.sign :: cs

theorem chain_stops (operand : Parser → Option (Nat × Parser)) (j : Joint) {rounds : Nat} (l : Nat)
    (hrounds : 0 < rounds) (h : NoSign j p.rest) :
    chain operand j.sign j.kind rounds l p = some (l, ⟨skipWs p.rest, p.nodes⟩) := by
  obtain ⟨rounds, rfl⟩ := Nat.exists_eq_succ_of_ne_zero (Nat.pos_iff_ne_zero.mp hrounds)
  rw [chain]
  split
  · next c d cs hskip =>
    split
    · next hsign =>
      obtain ⟨rfl, rfl⟩ := hsign
      exact absurd hskip (h cs)
    · rw [hskip]
  · rfl

theorem chain_reaches (hop : Complete operand L Next m)
    (hsign : isBlank j.sign = false) (hnext : ∀ w rest, Blank w → Next (w ++ j.sign :: rest)) (h : Chain j L s t) (hlen : s.length ≤ m) (hshort : t.Short) (r : List UInt8)
    (nodes : List PredNode) (hroom : nodes.length + t.size ≤ predNodeMax) (hr : Next r) :
    ∃ rounds r', skipWs r' = skipWs r ∧ (skipWs r).length < rounds ∧
      parseChain operand j.sign j.kind ⟨s ++ r, nodes⟩ =
        chain operand j.sign j.kind rounds (nodes.length + t.size) ⟨r', nodes ++ t.nodes nodes.length⟩ := by
  induction h generalizing r with
  | @one s t h =>
    obtain ⟨r', hskip, hrun⟩ := hop s t r nodes hlen h hshort hroom hr
    refine ⟨r'.length + 1, r', hskip, ?_, ?_⟩
    · rw [← hskip]
      exact Nat.lt_succ_of_le (skipWs_length_le r')
    · rw [parseChain, hrun]
      rfl
  | @more s s' w l r2 hl hw hright ih =>
    rw [length_append, length_append, length_cons, length_cons] at hlen
    have hsize : (Expr.join j l r2).size = l.size + r2.size + 1 := rfl
    obtain ⟨rounds, r', hskip, hrounds, hrun⟩ := ih (by omega) hshort.1 (w ++ j.sign :: j.sign :: (s' ++ r))
      (by omega) (hnext w _ hw)
    have hfound : skipWs r' = j.sign :: j.sign :: (s' ++ r) := hskip.trans (skipWs_token hw hsign _)
    obtain ⟨r'', hskip', hrun'⟩ := hop s' r2 r (nodes ++ l.nodes nodes.length) (by omega) hright hshort.2
      (by rw [length_append, nodes_length]; omega) hr
    rw [← hskip, hfound, length_cons, length_cons, length_append] at hrounds
    obtain ⟨rounds, rfl⟩ := Nat.exists_eq_succ_of_ne_zero (by omega : rounds ≠ 0)
    have hle := skipWs_length_le r
    refine ⟨rounds, r'', hskip', by omega, ?_⟩
    have htext : s ++ w ++ j.sign :: j.sign :: s' ++ r = s ++ (w ++ j.sign :: j.sign :: (s' ++ r)) := by
      simp only [append_assoc, cons_append]
    rw [htext, hrun, chain, hfound]
    dsimp only
    rw [if_pos ⟨rfl, rfl⟩, hrun']
    show (predNew _ _ >>= _) = _
    rw [predNew_room _ _ (by
      rw [length_append, length_append, nodes_length, nodes_length]
      omega)]
    show chain operand j.sign j.kind rounds _ ⟨r'', _⟩ = _
    rw [hsize, Expr.nodes]
    simp only [length_append, nodes_length, append_assoc, Nat.add_assoc]

theorem parseChain_complete (hop : Complete operand L Next m)
    (hsign : isBlank j.sign = false) (hnext : ∀ w rest, Blank w → Next (w ++ j.sign :: rest)) :
    Complete (parseChain operand j.sign j.kind) (Chain j L) (fun r => Next r ∧ NoSign j r) m := by
  intro s t r nodes hlen h hshort hroom hr
  obtain ⟨rounds, r', hskip, hrounds, hrun⟩ := chain_reaches hop hsign hnext h hlen hshort r nodes hroom hr.1
  have hno : NoSign j r' := by
    intro cs
    rw [hskip]
    exact hr.2 cs
  refine ⟨skipWs r', ?_, ?_⟩
  · rw [skipWs_idem, hskip]
  · rw [hrun, chain_stops operand j _ (by omega) hno]

/-! ## Expressions -/

variable {unary : Parser → Option (Nat × Parser)}

theorem parseAnd_sound (h : Sound unary Unary) : Sound (parseAnd unary) And :=
  parseChain_sound .and h

theorem parseOr_sound (h : Sound unary Unary) : Sound (parseOr unary) Or :=
  parseChain_sound .or (parseAnd_sound h)

theorem parseUnary_sound (levels : Nat) : Sound (parseUnary levels) Unary := by
  induction levels with
  | zero =>
    intro p n p' _ h
    cases h
  | succ levels ih =>
    intro p n p' hroom h
    obtain ⟨w, hw, hrest⟩ := skipWs_split p.rest
    have hterm : parseTerm ⟨skipWs p.rest, p.nodes⟩ = some (n, p') → ∃ s w t, Read Unary p n p' s w t := by
      intro ht
      refine parseTerm_sound p n p' hroom ?_
      rw [parseTerm] at ht ⊢
      rw [skipWs_idem] at ht
      exact ht
    rw [parseUnary] at h
    split at h
    · next hskip =>
      rw [← hskip] at h
      exact hterm h
    · next c cs hskip =>
      split at h
      · -- `!`
        next hc =>
        obtain ⟨⟨sub, q⟩, hsub, h⟩ := bind_eq_some_iff.mp h
        obtain ⟨s, w', t, hread⟩ := ih ⟨cs, p.nodes⟩ _ _ hroom hsub
        obtain ⟨rfl, rfl, hlen⟩ := predNew_some h hread.room
        have hq : q.nodes.length = p.nodes.length + t.size := by
          rw [hread.nodes, length_append, nodes_length]
        refine ⟨w ++ bang :: s, w', .not t, ?_, .not hw hread.derived, hread.blank, hread.short, ?_, ?_, ?_⟩
        · have hcs : cs = s ++ w' ++ q.rest := hread.rest
          rw [hrest, hskip, hc, hcs]
          simp only [append_assoc, cons_append]
        · rw [hq]
          rfl
        · have hnumber : sub = p.nodes.length + t.size := hread.number
          rw [hread.nodes, Expr.nodes, hnumber]
          simp only [append_assoc]
        · show (q.nodes ++ _).length ≤ _
          rw [length_append]
          exact hlen
      · split at h
        · -- an expression in brackets
          next hc =>
          obtain ⟨⟨m, q⟩, hor, h⟩ := bind_eq_some_iff.mp h
          obtain ⟨s, w', t, hread⟩ := parseOr_sound ih ⟨cs, p.nodes⟩ _ _ hroom hor
          obtain ⟨w₁, hw₁, hrest1⟩ := skipWs_split q.rest
          dsimp only at h
          rw [takeClosing] at h
          split at h
          · cases h
          · next d ds hskip1 =>
            split at h
            · next hd =>
              cases h
              refine ⟨w ++ opening :: (s ++ (w' ++ w₁) ++ [closing]), [], t, ?_,
                .paren hw hread.derived (hread.blank.append hw₁), blank_nil, hread.short, hread.number, hread.nodes,
                hread.room⟩
              have hcs : cs = s ++ w' ++ q.rest := hread.rest
              rw [hrest, hskip, hc, hcs, hrest1, hskip1, hd]
              simp only [append_assoc, cons_append, nil_append]
            · cases h
        · rw [← hskip] at h
          exact hterm h

theorem blank_ne_amp : isBlank amp = false := by decide

theorem blank_ne_bar : isBlank bar = false := by decide

/-- What may follow an operand of `&&`, and of `||`. -/
def NextAnd (r : List UInt8) : Prop := NotAt isDigit r ∧ NoSign .and r

/-- What may follow a whole expression. -/
def NextOr (r : List UInt8) : Prop := NextAnd r ∧ NoSign .or r

theorem notAt_sign (j : Joint) (w rest : List UInt8) (hw : Blank w) : NotAt isDigit (w ++ j.sign :: rest) := by
  refine notAt_blank blank_not_digit hw ?_
  cases j <;> (show isDigit _ = false; decide)

theorem nextAnd_sign (w rest : List UInt8) (hw : Blank w) : NextAnd (w ++ Joint.or.sign :: rest) := by
  refine ⟨notAt_sign .or w rest hw, fun cs => ?_⟩
  have hfound : skipWs (w ++ Joint.or.sign :: rest) = Joint.or.sign :: rest := skipWs_token hw blank_ne_bar rest
  rw [hfound]
  intro heq
  have hhead : bar = amp := (cons.inj heq).1
  exact absurd hhead (by decide)

theorem parseOr_complete (h : Complete unary Unary (NotAt isDigit) m) : Complete (parseOr unary) Or NextOr m := by
  have hand : Complete (parseAnd unary) And NextAnd m := parseChain_complete h blank_ne_amp (notAt_sign .and)
  exact parseChain_complete hand blank_ne_bar nextAnd_sign

theorem nextOr_closing (w rest : List UInt8) (hw : Blank w) : NextOr (w ++ closing :: rest) := by
  have hfound : skipWs (w ++ closing :: rest) = closing :: rest := skipWs_token hw (by decide) rest
  have hno : ∀ j : Joint, NoSign j (w ++ closing :: rest) := by
    intro j cs heq
    rw [hfound] at heq
    have hhead : closing = j.sign := (cons.inj heq).1
    cases j <;> exact absurd hhead (by decide)
  exact ⟨⟨notAt_blank blank_not_digit hw (show isDigit closing = false by decide), hno .and⟩, hno .or⟩

theorem nextOr_blank (hw : Blank w) : NextOr w := by
  have hfound : skipWs w = [] := dropWhile_eq_nil_iff.mpr hw
  have hno : ∀ j : Joint, NoSign j w := by
    intro j cs heq
    rw [hfound] at heq
    cases heq
  have hdigit : NotAt isDigit w := by
    have h := notAt_blank (s := []) blank_not_digit hw trivial
    rwa [append_nil] at h
  exact ⟨⟨hdigit, hno .and⟩, hno .or⟩

theorem parseUnary_complete (levels : Nat) : Complete (parseUnary levels) Unary (NotAt isDigit) levels := by
  induction levels with
  | zero =>
    intro s t r nodes hlen h
    exfalso
    cases h with
    | not hw h =>
      rw [length_append, length_cons] at hlen
      omega
    | paren hw h hw' =>
      rw [length_append, length_cons] at hlen
      omega
    | term h =>
      cases h with
      | @mk w w₁ w₂ ident lit value cmp hw hne =>
        have hpos := length_pos_iff.mpr hne
        simp only [length_append] at hlen
        omega
  | succ levels ih =>
    intro s t r nodes hlen h hshort hroom hr
    cases h with
    | @not s w t hw h =>
      have hsize : (Expr.not t).size = t.size + 1 := rfl
      rw [length_append, length_cons] at hlen
      obtain ⟨r', hskip, hrun⟩ := ih s t r nodes (by omega) h hshort (by omega) hr
      refine ⟨r', hskip, ?_⟩
      have hfound : skipWs (w ++ bang :: s ++ r) = bang :: (s ++ r) := by
        rw [append_assoc]
        exact skipWs_token hw (by decide) _
      rw [parseUnary, hfound]
      dsimp only
      rw [if_pos rfl, hrun]
      show predNew _ _ = _
      rw [predNew_room _ _ (by
        rw [length_append, nodes_length]
        omega), Expr.nodes, hsize]
      simp only [length_append, nodes_length, append_assoc, Nat.add_assoc]
    | @paren s w w' t hw h hw' =>
      simp only [length_append, length_cons, length_nil] at hlen
      obtain ⟨r', hskip, hrun⟩ := parseOr_complete ih s t (w' ++ closing :: r) nodes (by omega) h hshort hroom
        (nextOr_closing w' r hw')
      refine ⟨r, rfl, ?_⟩
      have htext : w ++ opening :: (s ++ w' ++ [closing]) ++ r = w ++ opening :: (s ++ (w' ++ closing :: r)) := by
        simp only [append_assoc, cons_append, nil_append]
      have hfound : skipWs (w ++ opening :: (s ++ w' ++ [closing]) ++ r) = opening :: (s ++ (w' ++ closing :: r)) := by
        rw [htext]
        exact skipWs_token hw (by decide) _
      have hclose : skipWs r' = closing :: r := hskip.trans (skipWs_token hw' (by decide) _)
      rw [parseUnary, hfound]
      dsimp only
      rw [if_neg (by decide), if_pos rfl, hrun]
      show takeClosing _ ⟨r', _⟩ = _
      rw [takeClosing, hclose]
      dsimp only
      rw [if_pos rfl]
    | @term s ident cmp value h =>
      have hrun := parseTerm_complete nodes h hshort.1 hshort.2 hroom hr
      refine ⟨r, rfl, ?_⟩
      cases h with
      | @mk w w₁ w₂ _ lit _ _ hw hne hall hw₁ hw₂ hlit =>
        obtain ⟨c, cs, hcons⟩ := exists_cons_of_ne_nil hne
        have hc := hall c (by rw [hcons]; exact mem_cons_self)
        have hfound : skipWs (w ++ ident ++ w₁ ++ cmp.sign ++ w₂ ++ lit ++ r) =
            c :: (cs ++ w₁ ++ cmp.sign ++ w₂ ++ lit ++ r) := by
          rw [hcons]
          simp only [append_assoc, cons_append]
          exact skipWs_token hw (ident_not_blank hc) _
        have hbang : ¬ c = bang := by
          rintro rfl
          exact absurd hc (by decide)
        have hopening : ¬ c = opening := by
          rintro rfl
          exact absurd hc (by decide)
        rw [parseUnary, hfound]
        dsimp only
        rw [if_neg hbang, if_neg hopening, ← hfound]
        rw [parseTerm] at hrun ⊢
        rw [skipWs_idem]
        exact hrun

/-! ## Predicates -/

/-- **Soundness.**  An accepted predicate is one of the grammar, and the pool holds its tree. -/
theorem parse_sound {x : Parsed} (h : parse s = .ok x) : ∃ t, Within s t ∧ x = ⟨t.nodes 0, t.size⟩ := by
  rw [parse] at h
  split at h
  · cases h
  · next hcaps =>
    split at h
    · cases h
    · next root p hrun =>
      split at h
      · next hend =>
        cases h
        obtain ⟨s', w, t, hread⟩ := parseOr_sound (parseUnary_sound s.length) _ _ _ (Nat.zero_le _) hrun
        obtain ⟨w', hw', hrest⟩ := skipWs_split p.rest
        have hnodes : p.nodes = t.nodes 0 := hread.nodes
        have hnumber : root = t.size := hread.number.trans (Nat.zero_add _)
        have htext : s = s' ++ (w ++ w') := by
          have hr : s = s' ++ w ++ p.rest := hread.rest
          rw [eq_nil_of_length_eq_zero hend, append_nil] at hrest
          rw [hr, hrest, append_assoc]
        have hroom := hread.room
        rw [hnodes, nodes_length] at hroom
        refine ⟨t, ⟨?_, by omega, hroom, hread.short⟩, ?_⟩
        · rw [htext]
          exact .mk hread.derived (hread.blank.append hw')
        · rw [hnodes, hnumber]
      · cases h

/-- **Completeness.**  A predicate of the grammar, within the caps, is accepted. -/
theorem parse_complete (h : Within s t) : parse s = .ok ⟨t.nodes 0, t.size⟩ := by
  obtain ⟨hderived, hlength, hnodes, hshort⟩ := h
  cases hderived with
  | @mk s' w _ hor hw =>
    have hcomplete := parseOr_complete (parseUnary_complete (s' ++ w).length)
    obtain ⟨r', hskip, hrun⟩ := hcomplete s' t w [] (by rw [length_append]; omega) hor hshort (by
      rw [length_nil]
      omega) (nextOr_blank hw)
    have hpos : ¬ (s' ++ w).length = 0 := by
      intro h0
      have hnil := eq_nil_of_length_eq_zero h0
      rw [hnil] at hrun
      cases hrun
    have hend : (skipWs r').length = 0 := by
      rw [hskip, show skipWs w = [] from dropWhile_eq_nil_iff.mpr hw]
      rfl
    rw [parse, if_neg (by omega), hrun]
    dsimp only
    rw [if_pos hend, nil_append, length_nil, Nat.zero_add]

/-- **The parser accepts the grammar**, within the caps, and builds the tree. -/
theorem parse_iff (s : List UInt8) (x : Parsed) : parse s = .ok x ↔ ∃ t, Within s t ∧ x = ⟨t.nodes 0, t.size⟩ := by
  constructor
  · exact parse_sound
  · rintro ⟨t, h, rfl⟩
    exact parse_complete h

end Aegir.Bfs.Query
