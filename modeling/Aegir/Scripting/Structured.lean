/-
  The flat loop runs a script by its block structure.

  The loop and the prescribed course go LINE BY LINE together.  A frame of the stack says whether its branch
  was selected, as long as everything outside it was: inside a block that is skipped the frames of nested ifs
  are dead, and an else turns them over to no effect.
-/
import Aegir.Scripting.Blocks
import Aegir.Scripting.Substitution

namespace Aegir.Scripting

open List Function

variable {σ : Type}

/-! ## Frames -/

/-- Each frame says of its branch whether it was selected, when the frames outside are all true. -/
def Frames (held : Nat → Option Bool) : List Branch → List Bool → Prop
  | [], [] => True
  | b :: bs, f :: fs => ((∀ g ∈ fs, g = true) → held b.opener = some (f ^^ b.isElse)) ∧ Frames held bs fs
  | _, _ => False

namespace Frames

variable {held held' : Nat → Option Bool} {bs : List Branch} {fs : List Bool}

theorem length_eq (h : Frames held bs fs) : bs.length = fs.length := by
  induction bs generalizing fs with
  | nil =>
    cases fs with
    | nil => rfl
    | cons f fs => exact h.elim
  | cons b bs ih =>
    cases fs with
    | nil => exact h.elim
    | cons f fs => rw [length_cons, length_cons, ih h.2]

/-- **All frames are true when every branch was selected**, and only then. -/
theorem all_iff (h : Frames held bs fs) : (∀ f ∈ fs, f = true) ↔ ∀ b ∈ bs, held b.opener = some (!b.isElse) := by
  induction bs generalizing fs with
  | nil =>
    cases fs with
    | nil => exact ⟨fun _ => nofun, fun _ => nofun⟩
    | cons f fs => exact h.elim
  | cons b bs ih =>
    cases fs with
    | nil => exact h.elim
    | cons f fs =>
      obtain ⟨htop, hrest⟩ := h
      rw [forall_mem_cons, forall_mem_cons, ih hrest]
      constructor
      · rintro ⟨rfl, hsel⟩
        refine ⟨?_, hsel⟩
        rw [htop ((ih hrest).mpr hsel), Bool.true_xor]
      · rintro ⟨hb, hsel⟩
        refine ⟨?_, hsel⟩
        rw [htop ((ih hrest).mpr hsel), Option.some.injEq] at hb
        cases f with
        | true => rfl
        | false =>
          cases hb' : b.isElse <;> rw [hb'] at hb <;> cases hb

theorem congr (h : Frames held bs fs) (heq : ∀ b ∈ bs, held' b.opener = held b.opener) : Frames held' bs fs := by
  induction bs generalizing fs with
  | nil =>
    cases fs with
    | nil => exact trivial
    | cons f fs => exact h.elim
  | cons b bs ih =>
    cases fs with
    | nil => exact h.elim
    | cons f fs =>
      refine ⟨fun hall => ?_, ih h.2 fun b hb => heq b (mem_cons_of_mem _ hb)⟩
      rw [heq b mem_cons_self]
      exact h.1 hall

end Frames

/-! ## Labels -/

variable {limit target lo : Nat} {label line : Chars} {v : Vars σ}

theorem findLabel_iff {text : Chars} {p : Nat} :
    findLabel text label limit p = some target ↔ FirstLab text label p limit target := by
  fun_induction findLabel text label limit p with
  | case1 p hlt hlab =>
    constructor
    · rintro ⟨⟩
      exact ⟨0, rfl, hlt, hlab, nofun⟩
    · rintro ⟨k, rfl, -, -, hfirst⟩
      cases k with
      | zero => rfl
      | succ k =>
        have hno := hfirst 0 (Nat.succ_pos k)
        rw [iterate_zero_apply, hlab] at hno
        cases hno
  | case2 p hlt hlab ih =>
    rw [ih]
    constructor
    · rintro ⟨k, hk, hbelow, htarget, hfirst⟩
      refine ⟨k + 1, hk, hbelow, htarget, fun j hj => ?_⟩
      cases j with
      | zero => exact Bool.eq_false_iff.mpr hlab
      | succ j => exact hfirst j (by omega)
    · rintro ⟨k, hk, hbelow, htarget, hfirst⟩
      cases k with
      | zero =>
        rw [iterate_zero_apply] at hk
        rw [hk] at hlab
        exact absurd htarget hlab
      | succ k => exact ⟨k, hk, hbelow, htarget, fun j hj => hfirst (j + 1) (by omega)⟩
  | case3 p hge =>
    refine ⟨nofun, ?_⟩
    rintro ⟨k, rfl, hbelow, -, -⟩
    have hle := (Encloses.strictMono_lines text p).monotone (Nat.zero_le k)
    dsimp only [iterate_zero_apply] at hle
    omega

theorem Effect.jumpTo_jump (v : Vars σ) (found : Option Nat) : (Effect.jumpTo v found).jump = found := by
  cases found <;> rfl

theorem handleSkip_jump_iff {text rest : Chars} :
    (handleSkip text lo rest v).jump = some target ↔ SkipsTo text lo rest target := by
  rw [SkipsTo]
  simp only [handleSkip]
  by_cases hrest : rest = []
  · rw [if_pos (Or.inl hrest)]
    exact ⟨nofun, fun hs => absurd hrest hs.1⟩
  · by_cases hmore : restWords rest = []
    · rw [if_neg (by simp [hrest, hmore]), if_neg (by simp [hmore]), Effect.jumpTo_jump, findLabel_iff]
      simp [hrest, hmore]
    · by_cases hback : sameWord (firstWord (restWords rest)) [98, 97, 99, 107] = true
      · rw [if_neg (by simp [hrest, hback]), if_pos hmore, Effect.jumpTo_jump, findLabel_iff]
        simp [hrest, hmore, hback]
      · rw [if_pos (Or.inr ⟨hmore, hback⟩)]
        exact ⟨nofun, by simp [hmore, hback]⟩

theorem FirstLab.lineStart {text : Chars} {first : Nat} (h : FirstLab text label first limit lo)
    (hfirst : LineStart text first) : LineStart text lo := by
  obtain ⟨k, rfl, -⟩ := h
  exact hfirst.iterate k

theorem Effect.orBad_jump (v : Vars σ) (r : Option (Vars σ)) : (Effect.orBad v r).jump = none := by
  cases r <;> rfl

theorem dispatch_lineStart {h : Host σ} {text x : Chars} (hlo : LineStart text lo)
    (hjump : (dispatch h text lo x v).jump = some target) : LineStart text target := by
  simp only [dispatch] at hjump
  split at hjump
  · rw [Effect.orBad_jump] at hjump
    cases hjump
  · split at hjump
    · cases hjump
    · split at hjump
      · rcases handleSkip_jump_iff.mp hjump with ⟨-, ⟨-, hlab⟩ | ⟨-, -, hlab⟩⟩
        · exact hlab.lineStart hlo.next
        · exact hlab.lineStart (.zero text)
      · split at hjump
        · rw [handleQuit] at hjump
          split at hjump
          · cases hjump
          · rw [Effect.orBad_jump] at hjump
            cases hjump
        · split at hjump
          · rw [handleFailat, Effect.orBad_jump] at hjump
            cases hjump
          · split at hjump
            · cases hjump
            · split at hjump <;> cases hjump

theorem executeLine_of_expand {h : Host σ} {text : Chars} {lo : Nat} {v : Vars σ} {x : Chars}
    (hx : expand v.locals (h.env v.world) line = some x) : executeLine h text lo line v =
      if x = [] then .of (v.note (.expand lo)) false
      else dispatch h text lo x ((v.note (.expand lo)).note (.act lo x)) := by
  rw [executeLine, hx]

theorem executeLine_lineStart {h : Host σ} {text : Chars}
    (hlo : LineStart text lo) (hjump : (executeLine h text lo line v).jump = some target) :
    LineStart text target := by
  rw [executeLine] at hjump
  split at hjump
  · cases hjump
  · split at hjump
    · cases hjump
    · exact dispatch_lineStart hlo hjump

/-! ## Loop and course -/

/-- The loop is where the course is; its stack is that of the branches around the line, and its counter counts
    the frames that are false. -/
structure Matches (text : Chars) (s : Loop σ) (c : Course σ) : Prop where
  vars : s.vars = c.vars
  lo : s.lo = c.lo
  aborted : s.aborted = c.aborted
  count : s.skipCount = s.ifStack.count false
  depth : s.ifStack.length ≤ maxIf
  frames : c.aborted = false → ∃ bs, Encloses text c.first c.lo bs ∧ Frames c.held bs s.ifStack
  error : c.aborted = true → c.vars.rc = rcError
  first : LineStart text c.first
  line : LineStart text c.lo

section Turn

variable {text : Chars} {s : Loop σ} {c : Course σ} {bs : List Branch}

section

variable (h : Matches text s c)

include h

theorem Matches.withVars (hc : c.aborted = false) (v : Vars σ) :
    Matches text { s with vars := v } { c with vars := v } :=
  ⟨rfl, h.lo, h.aborted, h.count, h.depth, h.frames, fun ha => absurd (hc.symm.trans ha) (by decide),
    h.first, h.line⟩

theorem Matches.abort : Matches text (s.abort text) (c.abort text) := by
  constructor
  · show { s.vars with rc := rcError } = { c.vars with rc := rcError }
    rw [h.vars]
  · show nextLine text s.lo = nextLine text c.lo
    rw [h.lo]
  · exact rfl
  · exact h.count
  · exact h.depth
  · exact nofun
  · exact fun _ => rfl
  · exact h.first
  · exact h.line.next

theorem Matches.goOn (hc : c.aborted = false) (hkw : keywordAt text c.lo = none) :
    Matches text (s.goOn text) (c.goOn text) := by
  obtain ⟨bs, hbs, hframes⟩ := h.frames hc
  refine ⟨h.vars, ?_, h.aborted, h.count, h.depth, fun _ => ⟨bs, hbs.next ?_, hframes⟩, h.error,
    h.first, h.line.next⟩
  · show nextLine text s.lo = nextLine text c.lo
    rw [h.lo]
  · rw [hkw]
    rfl

theorem Matches.runs_iff (hc : c.aborted = false) : c.Runs text ↔ s.skipCount = 0 := by
  obtain ⟨bs, hbs, hframes⟩ := h.frames hc
  have hall : s.skipCount = 0 ↔ ∀ f ∈ s.ifStack, f = true := by
    rw [h.count, count_eq_zero]
    constructor
    · intro hmem f hf
      cases f with
      | true => rfl
      | false => exact absurd hf hmem
    · intro hf hmem
      exact absurd (hf false hmem) (by decide)
  rw [hall, hframes.all_iff]
  constructor
  · rintro ⟨bs', hbs', hsel⟩
    rw [hbs.unique hbs']
    exact hsel
  · exact fun hsel => ⟨bs, hbs, hsel⟩

end

theorem Course.fits_iff (hbs : Encloses text c.first c.lo bs) :
    c.Fits text ↔ ∃ bs', branchesAfter (keywordAt text c.lo) c.lo bs = some bs' ∧ bs'.length ≤ maxIf :=
  exists_congr fun _ => and_congr_left fun _ => hbs.next_iff

theorem Matches.next {fs : List Bool} {k : Nat} {held : Nat → Option Bool} {bs' : List Branch}
    (h : Matches text s c) (hbs : Encloses text c.first c.lo bs)
    (hafter : branchesAfter (keywordAt text c.lo) c.lo bs = some bs') (hcount : k = fs.count false)
    (hdepth : fs.length ≤ maxIf) (hframes : Frames held bs' fs) :
    Matches text ({ s with ifStack := fs, skipCount := k }.goOn text) ({ c with held := held }.goOn text) := by
  refine ⟨h.vars, ?_, h.aborted, hcount, hdepth, fun _ => ⟨bs', hbs.next hafter, hframes⟩, h.error,
    h.first, h.line.next⟩
  show nextLine text s.lo = nextLine text c.lo
  rw [h.lo]

open Classical in
theorem matches_else (hone : OneElse text) (h : Matches text s c) (hc : c.aborted = false)
    (hkw : keywordAt text c.lo = some .turns) :
    Matches text (s.orAbort text s.handleElse) (if c.Fits text then c.goOn text else c.abort text) := by
  obtain ⟨bs, hbs, hframes⟩ := h.frames hc
  have hdepth := h.depth
  have hcount := h.count
  rw [Course.fits_iff hbs, hkw, Loop.handleElse]
  cases hstack : s.ifStack with
  | nil =>
    rw [hstack] at hframes
    cases bs with
    | cons b bs => exact hframes.elim
    | nil =>
      rw [if_neg (by rintro ⟨bs', hafter, -⟩; cases hafter)]
      exact h.abort
  | cons f fs =>
    rw [hstack] at hframes hdepth hcount
    cases bs with
    | nil => exact hframes.elim
    | cons b bs =>
      obtain ⟨i, isElse⟩ := b
      have hlen := hframes.length_eq
      cases isElse with
      | true => exact absurd hbs (hone _ _ i bs h.first hkw)
      | false =>
        obtain ⟨htop, hrest⟩ := hframes
        have hafter : branchesAfter (some .turns) c.lo (⟨i, false⟩ :: bs) = some (⟨i, true⟩ :: bs) := rfl
        rw [if_pos ⟨_, hafter, hlen.le.trans hdepth⟩]
        rw [← hkw] at hafter
        -- the frame turns over, and so does what it says of the if's condition
        have hturned : Frames c.held (⟨i, true⟩ :: bs) ((!f) :: fs) := by
          refine ⟨fun hall => ?_, hrest⟩
          rw [htop hall]
          cases f <;> rfl
        cases f with
        | true => exact h.next hbs hafter (by rw [hcount]; simp) hdepth hturned
        | false => exact h.next hbs hafter (by rw [hcount]; simp) hdepth hturned

open Classical in
theorem matches_endif (h : Matches text s c) (hc : c.aborted = false) (hkw : keywordAt text c.lo = some .closes) :
    Matches text (s.orAbort text s.handleEndif) (if c.Fits text then c.goOn text else c.abort text) := by
  obtain ⟨bs, hbs, hframes⟩ := h.frames hc
  have hdepth := h.depth
  have hcount := h.count
  rw [Course.fits_iff hbs, hkw, Loop.handleEndif]
  cases hstack : s.ifStack with
  | nil =>
    rw [hstack] at hframes
    cases bs with
    | cons b bs => exact hframes.elim
    | nil =>
      rw [if_neg (by rintro ⟨bs', hafter, -⟩; cases hafter)]
      exact h.abort
  | cons f fs =>
    rw [hstack] at hframes hdepth hcount
    rw [length_cons] at hdepth
    cases bs with
    | nil => exact hframes.elim
    | cons b bs =>
      have hafter : branchesAfter (some .closes) c.lo (b :: bs) = some bs := rfl
      have hlen := hframes.2.length_eq
      rw [if_pos ⟨_, hafter, by omega⟩]
      rw [← hkw] at hafter
      cases f with
      | true => exact h.next hbs hafter (by rw [hcount]; simp) (by omega) hframes.2
      | false => exact h.next hbs hafter (by rw [hcount]; simp) (by omega) hframes.2

open Classical in
theorem matches_if (h : Host σ) (line : Chars) (hm : Matches text s c) (hc : c.aborted = false)
    (hkw : keywordAt text c.lo = some .opens) :
    Matches text (s.handleIf h text line) (if c.Runs text then
        match executeIf h c.lo line c.vars with
        | (v, none) => { c with vars := v }.abort text
        | (v, some result) =>
          if c.Fits text then
            { c with vars := { v with rc := 0 }, held := update c.held c.lo (some result) }.goOn text
          else { c with vars := v }.abort text
      else if c.Fits text then c.goOn text
      else c.abort text) := by
  obtain ⟨bs, hbs, hframes⟩ := hm.frames hc
  have hdepth := hm.depth
  have hcount := hm.count
  have hlen := hframes.length_eq
  have hafter : branchesAfter (keywordAt text c.lo) c.lo bs = some (⟨c.lo, false⟩ :: bs) := by rw [hkw]; rfl
  have hfits : c.Fits text ↔ s.ifStack.length ≠ maxIf := by
    rw [Course.fits_iff hbs, hafter]
    constructor
    · rintro ⟨bs', heq, hle⟩
      cases heq
      rw [length_cons] at hle
      omega
    · exact fun hne => ⟨_, rfl, by rw [length_cons]; omega⟩
  have hcall : executeIf h s.lo line s.vars = executeIf h c.lo line c.vars := by rw [hm.lo, hm.vars]
  rw [Loop.handleIf, hm.runs_iff hc, hcall]
  by_cases hskip : s.skipCount = 0
  · rw [if_neg (by omega), if_pos hskip]
    generalize executeIf h c.lo line c.vars = r
    obtain ⟨v, cond⟩ := r
    cases cond with
    | none => exact (hm.withVars hc v).abort
    | some result =>
      dsimp only
      rw [Loop.pushIf]
      by_cases hfull : s.ifStack.length = maxIf
      · rw [if_pos hfull, if_neg (fun hf => hfits.mp hf hfull)]
        exact (hm.withVars hc v).abort
      · rw [if_neg hfull, if_pos (hfits.mpr hfull)]
        have hnew : Frames (update c.held c.lo (some result)) (⟨c.lo, false⟩ :: bs) (result :: s.ifStack) := by
          refine ⟨fun _ => ?_, hframes.congr fun b hb => ?_⟩
          · rw [update_self, Bool.xor_false]
          · exact update_of_ne (Nat.ne_of_lt (hbs.opener_lt b hb)) _ _
        have hnext := (hm.withVars hc { v with rc := 0 }).next (k := if result then s.skipCount else s.skipCount + 1)
          hbs hafter (by rw [hcount]; cases result <;> simp) (by rw [length_cons]; omega) hnew
        exact hnext
  · rw [if_pos (by omega), if_neg hskip, Loop.pushIf]
    by_cases hfull : s.ifStack.length = maxIf
    · rw [if_pos hfull, if_neg (fun hf => hfits.mp hf hfull)]
      exact hm.abort
    · rw [if_neg hfull, if_pos (hfits.mpr hfull)]
      -- the frame is dead: some frame outside it is false
      have hdead : Frames c.held (⟨c.lo, false⟩ :: bs) (false :: s.ifStack) := by
        refine ⟨fun hall => ?_, hframes⟩
        have hzero : s.ifStack.count false = 0 := by
          rw [count_eq_zero]
          exact fun hmem => absurd (hall false hmem) (by decide)
        exact absurd (hcount.trans hzero) hskip
      exact hm.next hbs hafter (by rw [hcount]; simp) (by rw [length_cons]; omega) hdead

open Classical in
theorem matches_line (h : Host σ) (line : Chars) (hm : Matches text s c) (hc : c.aborted = false)
    (hkw : keywordAt text c.lo = none) :
    Matches text (s.handleLine h text line) (if c.Runs text then
        match executeLine h text c.lo line c.vars with
        | ⟨v, true, _⟩ => { c with vars := v }.abort text
        | ⟨v, false, none⟩ => { c with vars := v }.goOn text
        | ⟨v, false, some target⟩ => { c with vars := v, lo := target, first := target, held := fun _ => none }
      else c.goOn text) := by
  have hcall : executeLine h text s.lo line s.vars = executeLine h text c.lo line c.vars := by rw [hm.lo, hm.vars]
  rw [Loop.handleLine, hm.runs_iff hc, hcall]
  by_cases hskip : s.skipCount = 0
  · rw [if_neg (by omega), if_pos hskip]
    have hstart : ∀ target, (executeLine h text c.lo line c.vars).jump = some target → LineStart text target :=
      fun target => executeLine_lineStart hm.line
    generalize executeLine h text c.lo line c.vars = r at hstart
    obtain ⟨v, bad, jump⟩ := r
    cases bad with
    | true => exact (hm.withVars hc v).abort
    | false =>
      cases jump with
      | none => exact (hm.withVars hc v).goOn hc hkw
      | some target =>
        exact ⟨rfl, rfl, hm.aborted, rfl, Nat.zero_le _, fun _ => ⟨[], .start text target, trivial⟩,
          fun ha => absurd (hc.symm.trans ha) (by decide), hstart target rfl, hstart target rfl⟩
  · rw [if_pos (by omega), if_neg hskip]
    exact hm.goOn hc hkw

theorem keywordOf_directive {r : Option (Vars σ)} (h : directive line v = some r) : keywordOf line = none := by
  simp only [directive] at h
  split at h
  · rename_i hhead
    have hword : ∃ w, firstWord line = 46 :: w := by
      cases line with
      | nil => cases hhead.2
      | cons x xs =>
        obtain rfl : x = 46 := Option.some.inj hhead.2
        exact ⟨_, rfl⟩
    obtain ⟨w, hw⟩ := hword
    rw [keywordOf, hw]
    rfl
  · cases h

/-- **One turn of the loop is one line of the course.** -/
theorem matches_turn (h : Host σ) (args : Chars) (hone : OneElse text) (hm : Matches text s c)
    (hc : c.aborted = false) : Matches text (s.turn h text args) (c.turn h text args) := by
  have hlo : lineAt text s.lo = lineAt text c.lo := by rw [hm.lo]
  have hdirective : ∀ line, directive line s.vars = directive line c.vars := fun line => by rw [hm.vars]
  have hbind : leaveHeader args s.vars = leaveHeader args c.vars := by rw [hm.vars]
  rw [Loop.turn, Course.turn, hlo]
  cases hline : lineAt text c.lo with
  | none => exact hm.goOn hc (by rw [keywordAt, hline]; rfl)
  | some line =>
    dsimp only
    rw [hdirective, hbind]
    have hkw : keywordAt text c.lo = keywordOf line := by
      rw [keywordAt, hline]
      rfl
    cases hdir : directive line c.vars with
    | some r =>
      cases r with
      | none => exact hm.abort
      | some v =>
        refine (hm.withVars hc v).goOn hc (hkw.trans ?_)
        exact keywordOf_directive hdir
    | none =>
      cases hleave : leaveHeader args c.vars with
      | none =>
        rw [hm.vars]
        exact (hm.withVars hc _).abort
      | some v =>
        have hv := hm.withVars hc v
        cases hkey : keywordOf line with
        | none => exact matches_line h line hv hc (hkw.trans hkey)
        | some kw =>
          cases kw with
          | opens => exact matches_if h line hv hc (hkw.trans hkey)
          | turns => exact matches_else hone hv hc (hkw.trans hkey)
          | closes => exact matches_endif hv hc (hkw.trans hkey)

end Turn

/-! ## Runs -/

section Run

variable {h : Host σ} {text args : Chars} {world : σ} {n : Nat} {s : Loop σ} {c : Course σ}

theorem matches_start (text : Chars) (world : σ) : Matches text (Loop.start world) (Course.start world) :=
  ⟨rfl, rfl, rfl, rfl, Nat.zero_le _, fun _ => ⟨[], .start text 0, trivial⟩, nofun, .zero text, .zero text⟩

theorem Matches.goes_eq (hm : Matches text s c) : s.goes text = c.goes text := by
  rw [Loop.goes, Loop.stops, Course.goes, hm.lo, hm.vars, hm.aborted]

theorem not_aborted_of_goes (hgoes : c.goes text = true) : c.aborted = false := by
  rw [Course.goes, Bool.and_eq_true, Bool.not_eq_true', Bool.or_eq_false_iff, Bool.or_eq_false_iff] at hgoes
  exact hgoes.2.1.2

theorem course_of_loop (hone : OneElse text) (hs : Loop.Reached h text args world n s) :
    ∃ c, Course.Reached h text args world n c ∧ Matches text s c := by
  induction hs with
  | start => exact ⟨_, .start, matches_start text world⟩
  | turn hs hgoes ih =>
    obtain ⟨c, hc, hm⟩ := ih
    rw [hm.goes_eq] at hgoes
    exact ⟨_, .turn hc hgoes, matches_turn h args hone hm (not_aborted_of_goes hgoes)⟩

theorem loop_of_course (hone : OneElse text) (hc : Course.Reached h text args world n c) :
    ∃ s, Loop.Reached h text args world n s ∧ Matches text s c := by
  induction hc with
  | start => exact ⟨_, .start, matches_start text world⟩
  | turn hc hgoes ih =>
    obtain ⟨s, hs, hm⟩ := ih
    have hgoes' := hgoes
    rw [← hm.goes_eq] at hgoes'
    exact ⟨_, .turn hs hgoes', matches_turn h args hone hm (not_aborted_of_goes hgoes)⟩

theorem Matches.result_eq (hm : Matches text s c) : s.result = c.result text := by
  rw [Loop.result, Course.result, hm.aborted, hm.vars]
  cases ha : c.aborted with
  | true =>
    exact hm.error ha
  | false =>
    obtain ⟨bs, hbs, hframes⟩ := hm.frames ha
    have hopen : 0 < s.ifStack.length ↔ c.Unclosed text := by
      rw [← hframes.length_eq]
      constructor
      · intro hpos
        cases bs with
        | nil => cases hpos
        | cons b bs => exact ⟨b, bs, hbs⟩
      · rintro ⟨b, bs', hbs'⟩
        rw [hbs.unique hbs']
        exact Nat.succ_pos _
    by_cases hcond : c.vars.done = false ∧ c.Unclosed text
    · rw [if_pos ⟨rfl, hcond.1, hopen.mpr hcond.2⟩, if_pos (Or.inr hcond)]
    · rw [if_neg fun hif => hcond ⟨hif.2.1, hopen.mp hif.2.2⟩, if_neg]
      rintro (hf | hif)
      · cases hf
      · exact hcond hif

end Run

/-! ## In step -/

/-- The loop and the course are in the same place, with the same variables and the same history. -/
structure InStep (text : Chars) (s : Loop σ) (c : Course σ) : Prop where
  vars : s.vars = c.vars
  lo : s.lo = c.lo
  aborted : s.aborted = c.aborted
  goes : s.goes text = c.goes text
  result : s.result = c.result text

theorem Matches.inStep {text : Chars} {s : Loop σ} {c : Course σ} (hm : Matches text s c) : InStep text s c :=
  ⟨hm.vars, hm.lo, hm.aborted, hm.goes_eq, hm.result_eq⟩

/-- **Control flow is structured.**  In every script in which no if has a second else, at every line of the
    run: the counter is the number of false frames, and the loop has expanded and acted on the lines that its
    blocks prescribe, has their variables, and would return what they say; it goes on as long as they do.
    `skip` goes to the first label of its name. -/
theorem script_runs_by_blocks (h : Host σ) (text args : Chars) (world : σ) (hone : OneElse text) :
    (∀ n s, Loop.Reached h text args world n s →
      s.skipCount = s.ifStack.count false ∧ ∃ c, Course.Reached h text args world n c ∧ InStep text s c) ∧
    (∀ n c, Course.Reached h text args world n c →
      ∃ s, Loop.Reached h text args world n s ∧ InStep text s c) ∧
    ∀ lo rest (v : Vars σ) target, (handleSkip text lo rest v).jump = some target ↔ SkipsTo text lo rest target := by
  refine ⟨fun n s hs => ?_, fun n c hc => ?_, fun lo rest v target => handleSkip_jump_iff⟩
  · obtain ⟨c, hc, hm⟩ := course_of_loop hone hs
    exact ⟨hm.count, c, hc, hm.inStep⟩
  · obtain ⟨s, hs, hm⟩ := loop_of_course hone hc
    exact ⟨s, hs, hm.inStep⟩

/-- A host on which every command returns `rc`. -/
def constHost (rc : UInt64) : Host Unit where
  runLine _ w := (rc, w)
  askLine _ w := ([], w)
  stat _ _ := false
  env _ _ := none
  echo _ _ w := w

theorem keywordAt_of_length_le {text : Chars} (h : text.length ≤ lo) : keywordAt text lo = none := by
  have hraw : rawLine text lo = [] := by rw [rawLine, drop_eq_nil_of_le h, takeWhile_nil]
  rw [keywordAt, lineAt, hraw]
  rfl

/-- `if`, `else` and `endif`, each on a line of its own. -/
def shortScript : Chars := [105, 102, 10, 101, 108, 115, 101, 10, 101, 110, 100, 105, 102]

theorem oneElse_shortScript : OneElse shortScript := by
  have hturns : ∀ lo, keywordAt shortScript lo = some .turns → lo = 3 := by
    intro lo hlo
    by_cases hlt : lo < 13
    · have hall : ∀ lo < 13, keywordAt shortScript lo = some .turns → lo = 3 := by decide
      exact hall lo hlt hlo
    · rw [keywordAt_of_length_le (show shortScript.length ≤ lo by show 13 ≤ lo; omega)] at hlo
      cases hlo
  intro first lo i bs _ hlo hbs
  obtain ⟨p, hp, hturn⟩ := hbs.exists_turn mem_cons_self
  have hlo3 := hturns lo hlo
  have hp3 := hturns p hturn
  omega

/-- An if with its else and endif. -/
theorem script_runs_by_blocks_short :
    (∀ n s, Loop.Reached (constHost 0) shortScript [] () n s →
      s.skipCount = s.ifStack.count false ∧
        ∃ c, Course.Reached (constHost 0) shortScript [] () n c ∧ InStep shortScript s c) ∧
    (∀ n c, Course.Reached (constHost 0) shortScript [] () n c →
      ∃ s, Loop.Reached (constHost 0) shortScript [] () n s ∧ InStep shortScript s c) ∧
    ∀ lo rest (v : Vars Unit) target,
      (handleSkip shortScript lo rest v).jump = some target ↔ SkipsTo shortScript lo rest target :=
  script_runs_by_blocks (constHost 0) shortScript [] () oneElse_shortScript

theorem handleLine_good {h : Host σ} {text : Chars} {s : Loop σ} (hskip : s.skipCount = 0)
    (hexec : executeLine h text s.lo line s.vars = .of v false) :
    s.handleLine h text line = { s with vars := v }.goOn text := by
  rw [Loop.handleLine, if_neg (by omega), hexec]
  rfl

/-- The return code of an error is not the sign of one: a command may return it. -/
theorem error_code_of_a_command :
    ¬ ∀ (h : Host Unit) (text args : Chars), OneElse text → ∀ n s, Loop.Reached h text args () n s →
      s.goes text = false →
      (s.result = rcError ↔ s.aborted = true ∨ s.vars.done = false ∧ s.ifStack ≠ []) := by
  intro h
  have hnone : ∀ lo, keywordAt [120] lo = none := by
    intro lo
    cases lo with
    | zero => decide
    | succ lo => exact keywordAt_of_length_le (Nat.succ_le_succ (Nat.zero_le lo))
  have hone : OneElse [120] := fun first lo i bs _ hlo => by
    rw [hnone] at hlo
    cases hlo
  have hexpand : expand ⟨[], Nat.zero_le _⟩ (fun _ => none) [120] = some [120] := by
    rw [expand, expandFrom_char (by decide), put_bind, if_pos (by decide), expandFrom]
    rfl
  have hexec : executeLine (constHost 10) [120] 0 [120] { (Loop.start ()).vars with bound := true, inHeader := false } =
      .of { (Loop.start ()).vars with
        bound := true, inHeader := false, rc := 10, log := [.expand 0, .act 0 [120]] } false := by
    refine (executeLine_of_expand (x := [120]) ?_).trans rfl
    exact hexpand
  have hturn : (Loop.start ()).turn (constHost 10) [120] [] =
      { Loop.start () with
        vars := { (Loop.start ()).vars with
          bound := true, inHeader := false, rc := 10, log := [.expand 0, .act 0 [120]] }
        lo := 2 } := by
    have hline := handleLine_good (s := { Loop.start () with
      vars := { (Loop.start ()).vars with bound := true, inHeader := false } }) rfl hexec
    exact hline
  have hreached : Loop.Reached (constHost 10) [120] [] () 1 ((Loop.start ()).turn (constHost 10) [120] []) :=
    .turn .start (by decide)
  rw [hturn] at hreached
  have hiff := h _ _ _ hone 1 _ hreached (by decide)
  rcases hiff.mp (by decide) with hf | ⟨-, hf⟩
  · cases hf
  · exact hf rfl

end Aegir.Scripting
