/-
  The tokens of a query predicate: what the loops of the parser take, and that they take what the grammar has.

  Each loop comes with two lemmas.  The first says that what it took is a token of the grammar, and that what it
  left is the rest; the second that it takes a given token whole, when what stands behind cannot belong to it.
-/
import Aegir.Bfs.Query
import Mathlib.Data.List.DropRight

namespace Aegir.Bfs.Query

open List Option

/-- The text does not go on with such a character. -/
def NotAt (p : UInt8 → Bool) : List UInt8 → Prop
  | [] => True
  | c :: _ => p c = false

/-! ## Blanks -/

variable {w s : List UInt8} {c : UInt8}

theorem skipWs_blank (hw : Blank w) (s : List UInt8) : skipWs (w ++ s) = skipWs s :=
  dropWhile_append_of_pos hw

theorem skipWs_cons (hc : isBlank c = false) (cs : List UInt8) : skipWs (c :: cs) = c :: cs :=
  dropWhile_cons_of_neg (by rw [hc]; exact Bool.false_ne_true)

theorem skipWs_split (s : List UInt8) : ∃ w, Blank w ∧ s = w ++ skipWs s :=
  ⟨s.takeWhile isBlank, fun _ hc => (mem_takeWhile_imp hc), (takeWhile_append_dropWhile).symm⟩

theorem skipWs_idem (s : List UInt8) : skipWs (skipWs s) = skipWs s := dropWhile_idempotent _ _

theorem skipWs_length_le (s : List UInt8) : (skipWs s).length ≤ s.length := length_dropWhile_le _ _

theorem Blank.append {w' : List UInt8} (hw : Blank w) (hw' : Blank w') : Blank (w ++ w') := by
  intro c hc
  rcases mem_append.mp hc with h | h
  · exact hw c h
  · exact hw' c h

theorem blank_nil : Blank [] := fun c hc => absurd hc not_mem_nil

theorem skipWs_token (hw : Blank w) (hc : isBlank c = false) (cs : List UInt8) :
    skipWs (w ++ c :: cs) = c :: cs := by
  rw [skipWs_blank hw, skipWs_cons hc]

theorem notAt_blank {p : UInt8 → Bool} (hp : ∀ c, isBlank c = true → p c = false) (hw : Blank w)
    (hs : NotAt p s) : NotAt p (w ++ s) := by
  cases w with
  | nil => exact hs
  | cons c w => exact hp c (hw c mem_cons_self)

theorem blank_cases (h : isBlank c = true) : c = space ∨ c = tab := by
  simpa [isBlank] using h

theorem blank_not_digit (c : UInt8) (h : isBlank c = true) : isDigit c = false := by
  rcases blank_cases h with rfl | rfl <;> decide

theorem blank_not_ident (c : UInt8) (h : isBlank c = true) : isIdent c = false := by
  rcases blank_cases h with rfl | rfl <;> decide

theorem blank_not_equals (c : UInt8) (h : isBlank c = true) : (c == equals) = false := by
  rcases blank_cases h with rfl | rfl <;> decide

theorem digit_not_blank (h : isDigit c = true) : isBlank c = false := by
  cases hb : isBlank c with
  | false => rfl
  | true =>
    rw [blank_not_digit c hb] at h
    cases h

theorem ident_not_blank (h : isIdent c = true) : isBlank c = false := by
  cases hb : isBlank c with
  | false => rfl
  | true =>
    rw [blank_not_ident c hb] at h
    cases h

/-! ## Identifiers -/

variable {room : Nat} {r : List UInt8}

theorem takeIdent_sound (room : Nat) (s : List UInt8) :
    s = (takeIdent room s).1 ++ (takeIdent room s).2 ∧ (∀ c ∈ (takeIdent room s).1, isIdent c = true) ∧
      (takeIdent room s).1.length ≤ room := by
  induction s generalizing room with
  | nil => exact ⟨by rw [takeIdent]; rfl, fun c hc => absurd hc (by rw [takeIdent]; exact not_mem_nil),
      by rw [takeIdent]; exact Nat.zero_le _⟩
  | cons c cs ih =>
    cases room with
    | zero => exact ⟨rfl, fun c hc => absurd hc not_mem_nil, Nat.le_refl _⟩
    | succ room =>
      rw [takeIdent]
      split_ifs with hc
      · obtain ⟨hs, hall, hlen⟩ := ih room
        refine ⟨congrArg (c :: ·) hs, ?_, Nat.succ_le_succ hlen⟩
        intro d hd
        rcases mem_cons.mp hd with rfl | hd
        · exact hc
        · exact hall d hd
      · exact ⟨rfl, fun d hd => absurd hd not_mem_nil, Nat.zero_le _⟩

theorem takeIdent_complete {a : List UInt8} (ha : ∀ c ∈ a, isIdent c = true) (hlen : a.length ≤ room)
    (hr : NotAt isIdent r) : takeIdent room (a ++ r) = (a, r) := by
  induction a generalizing room with
  | nil =>
    cases r with
    | nil => cases room <;> rfl
    | cons c cs =>
      cases room with
      | zero => rfl
      | succ room =>
        have hc : ¬ isIdent c = true := by
          rw [show isIdent c = false from hr]
          exact Bool.false_ne_true
        rw [nil_append, takeIdent, if_neg hc]
  | cons c cs ih =>
    cases room with
    | zero => exact absurd hlen (Nat.not_succ_le_zero _)
    | succ room =>
      rw [cons_append, takeIdent, if_pos (ha c mem_cons_self),
        ih (fun d hd => ha d (mem_cons_of_mem _ hd)) (Nat.le_of_succ_le_succ hlen)]

/-! ## Operators -/

variable {rest : List UInt8}

theorem takeEquals_some (h : takeEquals s = some rest) : s = equals :: rest := by
  cases s with
  | nil => cases h
  | cons c cs =>
    rw [takeEquals] at h
    split at h
    · next hc =>
      cases h
      rw [hc]
    · cases h

theorem takeEquals_none (hr : NotAt (· == equals) r) : takeEquals r = none := by
  cases r with
  | nil => rfl
  | cons c cs =>
    have hc : (c == equals) = false := hr
    rw [takeEquals, if_neg (by simpa using hc)]

theorem takeCmp_sound {cmp : CmpOp} (h : takeCmp s = some (cmp, rest)) : s = cmp.sign ++ rest := by
  cases s with
  | nil => cases h
  | cons c cs =>
    rw [takeCmp] at h
    split at h
    · -- `==`
      next hc =>
      obtain ⟨tail, htail, hpair⟩ := map_eq_some_iff.mp h
      cases hpair
      rw [hc, takeEquals_some htail]
      rfl
    · split at h
      · -- `!=`
        next hc =>
        obtain ⟨tail, htail, hpair⟩ := map_eq_some_iff.mp h
        cases hpair
        rw [hc, takeEquals_some htail]
        rfl
      · split at h
        · -- `<`, `<=`, `>`, `>=`
          next hc =>
          have hg : ¬ greater = less := by decide
          cases htail : takeEquals cs with
          | some tail =>
            rw [htail] at h
            cases h
            rw [takeEquals_some htail]
            rcases hc with rfl | rfl
            · rw [if_pos rfl]
              rfl
            · rw [if_neg hg]
              rfl
          | none =>
            rw [htail] at h
            cases h
            rcases hc with rfl | rfl
            · rw [if_pos rfl]
              rfl
            · rw [if_neg hg]
              rfl
        · cases h

theorem takeCmp_complete (cmp : CmpOp) (hr : NotAt (· == equals) r) : takeCmp (cmp.sign ++ r) = some (cmp, r) := by
  cases cmp with
  | eq => rfl
  | ne => rfl
  | lt =>
    show takeCmp (less :: r) = _
    rw [takeCmp, if_neg (by decide), if_neg (by decide), if_pos (.inl rfl), takeEquals_none hr]
    rfl
  | le => rfl
  | gt =>
    show takeCmp (greater :: r) = _
    rw [takeCmp, if_neg (by decide), if_neg (by decide), if_pos (.inr rfl), takeEquals_none hr]
    rfl
  | ge => rfl

theorem sign_head (cmp : CmpOp) : ∃ c cs, cmp.sign = c :: cs ∧ isBlank c = false ∧ isIdent c = false := by
  cases cmp <;> exact ⟨_, _, rfl, by decide, by decide⟩

/-! ## Values -/

variable {text lit : List UInt8} {value : Value}

theorem takeString_sound (h : takeString room s = some (text, rest)) :
    ∃ raw, s = raw ++ quote :: rest ∧ Quoted raw text ∧ text.length ≤ room := by
  induction hn : s.length using Nat.strongRecOn generalizing room s text with
  | ind n ih =>
    cases s with
    | nil =>
      rw [takeString] at h
      cases h
    | cons c cs =>
      rw [takeString.eq_def] at h
      dsimp only at h
      split at h
      · -- the closing quote
        next hc =>
        cases h
        exact ⟨[], by rw [hc]; rfl, .nil, Nat.zero_le _⟩
      · next hquote =>
        split at h
        · -- an escape
          next hback =>
          cases cs with
          | nil => cases h
          | cons d ds =>
            dsimp only at h
            split at h
            · cases h
            · next hd =>
              cases room with
              | zero => cases h
              | succ room =>
                obtain ⟨⟨str, tail⟩, htail, hpair⟩ := map_eq_some_iff.mp h
                cases hpair
                have hlen : ds.length < n := by
                  rw [← hn, length_cons, length_cons]
                  omega
                obtain ⟨raw, hraw, hquoted, hroom⟩ := ih ds.length hlen htail rfl
                refine ⟨backslash :: d :: raw, by rw [hback, hraw]; rfl, .escaped (by tauto) hquoted, ?_⟩
                exact Nat.succ_le_succ hroom
        · -- a plain character
          next hback =>
          cases room with
          | zero => cases h
          | succ room =>
            obtain ⟨⟨str, tail⟩, htail, hpair⟩ := map_eq_some_iff.mp h
            cases hpair
            have hlen : cs.length < n := by
              rw [← hn, length_cons]
              omega
            obtain ⟨raw, hraw, hquoted, hroom⟩ := ih cs.length hlen htail rfl
            refine ⟨c :: raw, by rw [hraw]; rfl, .plain hquote hback hquoted, ?_⟩
            exact Nat.succ_le_succ hroom

theorem takeString_complete {raw : List UInt8} (h : Quoted raw text) (hlen : text.length ≤ room)
    (rest : List UInt8) : takeString room (raw ++ quote :: rest) = some (text, rest) := by
  induction h generalizing room with
  | nil =>
    rw [nil_append, takeString.eq_def]
    dsimp only
    rw [if_pos rfl]
  | @plain raw text c hquote hback h ih =>
    cases room with
    | zero => exact absurd hlen (Nat.not_succ_le_zero _)
    | succ room =>
      rw [cons_append, takeString.eq_def]
      dsimp only
      rw [if_neg hquote, if_neg hback, ih (Nat.le_of_succ_le_succ hlen)]
      rfl
  | @escaped raw text c hc h ih =>
    cases room with
    | zero => exact absurd hlen (Nat.not_succ_le_zero _)
    | succ room =>
      have hnot : ¬ (c ≠ backslash ∧ c ≠ quote) := by tauto
      rw [cons_append, cons_append, takeString.eq_def]
      dsimp only
      rw [if_neg (by decide), if_pos rfl, if_neg hnot, ih (Nat.le_of_succ_le_succ hlen)]
      rfl

theorem foldl_addDigit (digits : List UInt8) (n : Nat) :
    digits.foldl addDigit (n % 2 ^ 64) = digits.foldl (fun n c => n * 10 + (c.toNat - 0x30)) n % 2 ^ 64 := by
  induction digits generalizing n with
  | nil => rfl
  | cons c cs ih =>
    have hstep : addDigit (n % 2 ^ 64) c = (n * 10 + (c.toNat - 0x30)) % 2 ^ 64 := by
      unfold addDigit
      omega
    rw [foldl_cons, hstep, ih, foldl_cons]

theorem takeDigits_sound (dig : Nat) (s : List UInt8) :
    ∃ digits, s = digits ++ (takeDigits dig s).2 ∧ (∀ c ∈ digits, isDigit c = true) ∧
      (takeDigits dig s).1 = digits.foldl addDigit dig := by
  induction s generalizing dig with
  | nil => exact ⟨[], rfl, fun c hc => absurd hc not_mem_nil, rfl⟩
  | cons c cs ih =>
    rw [takeDigits]
    split_ifs with hc
    · obtain ⟨digits, hs, hall, hvalue⟩ := ih (addDigit dig c)
      refine ⟨c :: digits, congrArg (c :: ·) hs, ?_, hvalue⟩
      intro d hd
      rcases mem_cons.mp hd with rfl | hd
      · exact hc
      · exact hall d hd
    · exact ⟨[], rfl, fun d hd => absurd hd not_mem_nil, rfl⟩

theorem takeDigits_complete {digits : List UInt8} (hdigits : ∀ c ∈ digits, isDigit c = true)
    (hr : NotAt isDigit r) (dig : Nat) : takeDigits dig (digits ++ r) = (digits.foldl addDigit dig, r) := by
  induction digits generalizing dig with
  | nil =>
    cases r with
    | nil => rfl
    | cons c cs =>
      have hc : ¬ isDigit c = true := by
        rw [show isDigit c = false from hr]
        exact Bool.false_ne_true
      rw [nil_append, takeDigits, if_neg hc]
      rfl
  | cons c cs ih =>
    rw [cons_append, takeDigits, if_pos (hdigits c mem_cons_self), ih fun d hd => hdigits d (mem_cons_of_mem _ hd)]
    rfl

/-- A node with that value: of a number the word. -/
def PredNode.given (node : PredNode) : Value → PredNode
  | .num n => { node with isNum := true, num := n % 2 ^ 64 }
  | .str text => { node with isNum := false, str := text }

theorem digit_not_quote (h : isDigit c = true) : c ≠ quote := by
  rintro rfl
  exact absurd h (by decide)

theorem takeValue_sound {node node' : PredNode} (h : takeValue node s = some (node', rest)) :
    ∃ lit value, s = lit ++ rest ∧ Literal lit value ∧ value.Short ∧ node' = node.given value := by
  cases s with
  | nil => cases h
  | cons c cs =>
    rw [takeValue] at h
    split at h
    · -- a string
      next hc =>
      obtain ⟨⟨text, tail⟩, htail, hpair⟩ := map_eq_some_iff.mp h
      cases hpair
      obtain ⟨raw, hraw, hquoted, hlen⟩ := takeString_sound htail
      refine ⟨_, .str text, ?_, .str hquoted, hlen, rfl⟩
      rw [hc, hraw, cons_append, append_assoc]
      rfl
    · split at h
      · -- a number
        next hc =>
        have htaken : some ({ node with isNum := true, num := (takeDigits 0 (c :: cs)).1 },
            (takeDigits 0 (c :: cs)).2) = some (node', rest) := h
        cases htaken
        obtain ⟨digits, hs, hall, hvalue⟩ := takeDigits_sound 0 (c :: cs)
        refine ⟨digits, .num (decimal digits), hs, .num ?_ hall, trivial, ?_⟩
        · rintro rfl
          have hlen := congrArg length hs
          have hless : (takeDigits 0 (c :: cs)).2.length < (c :: cs).length := by
            obtain ⟨more, hmore, -, -⟩ := takeDigits_sound (addDigit 0 c) cs
            have hcs := congrArg length hmore
            rw [takeDigits, if_pos hc]
            rw [length_append] at hcs
            rw [length_cons]
            omega
          rw [nil_append] at hlen
          omega
        · have hword := foldl_addDigit digits 0
          rw [hvalue]
          exact congrArg (fun n => { node with isNum := true, num := n }) hword
      · cases h

theorem takeValue_complete (node : PredNode) (h : Literal lit value)
    (hshort : value.Short) (hr : NotAt isDigit r) : takeValue node (lit ++ r) = some (node.given value, r) := by
  cases h with
  | @str raw text h =>
    rw [cons_append, append_assoc, takeValue, if_pos rfl]
    show (takeString strMax (raw ++ quote :: r)).map _ = _
    rw [takeString_complete h hshort]
    rfl
  | num hne hdigits =>
    cases lit with
    | nil => exact absurd rfl hne
    | cons c cs =>
      have hc := hdigits c mem_cons_self
      have htake := takeDigits_complete hdigits hr 0
      have hword := foldl_addDigit (c :: cs) 0
      rw [cons_append] at htake
      rw [cons_append, takeValue, if_neg (digit_not_quote hc), if_pos hc, htake]
      exact congrArg (fun n => some ({ node with isNum := true, num := n }, r)) hword

theorem literal_head (h : Literal lit value) :
    ∃ c cs, lit = c :: cs ∧ isBlank c = false ∧ (c == equals) = false := by
  cases h with
  | str h => exact ⟨quote, _, rfl, by decide, by decide⟩
  | num hne hdigits =>
    cases lit with
    | nil => exact absurd rfl hne
    | cons c cs =>
      have hc := hdigits c mem_cons_self
      refine ⟨c, cs, rfl, digit_not_blank hc, ?_⟩
      rw [beq_eq_false_iff_ne]
      rintro rfl
      exact absurd hc (by decide)

end Aegir.Bfs.Query
