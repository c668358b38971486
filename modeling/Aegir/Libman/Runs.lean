/-
  Libraries live exactly as long as they are open.

  A run is a script of clients' requests and of clients' messages to the libraries, in any order.  Beside
  the state it keeps the history: who opened and who closed what.  `Counted` ties the table to it.

  The manager keeps its word in every run in which no step hits one of the failures that it does not undo
  (`runs_keep_libraries`).  The typical one is a library whose version is too low: the open fails, the
  library's process stays, and nobody holds its cap (`low_version_leaks`).
-/
import Aegir.Libman.Requests
import Mathlib.Data.List.Induction

namespace Aegir.Libman

open Aegir.Lib List Function
open Aegir.Lib.Deed

/-! ## Runs -/

inductive Event
  | request (r : Request) (env : Env)
  | message (pid : Nat) (label : UInt64) (ending : Ending)

def Event.isRequest : Event → Bool
  | .request _ _ => true
  | .message _ _ _ => false

/-- Clients and names. -/
abbrev History := List (Deed (Nat × Name))

namespace State

/-- Before the first request: the caps that the manager was given. -/
def start (boot : List Nat) : State where
  entries := []
  caps h := if h ∈ boot then some .other else none
  procs _ := none
  spawned := 0
  stageWindow := false
  argsWindow := false
  asked := 0
  answers := []

/-- Was request `h` answered with success? -/
def granted (s : State) (h : Nat) : Bool := s.answers.any fun x => x.1 = h && x.2.label = 1

/-- What a request that is over adds to the history. -/
def deed (s' : State) (h : Nat) (r : Request) (ds : History) : History :=
  if r.label = 1 ∧ s'.granted h then .opened (r.client, r.name) :: ds
  else if r.label = 2 ∧ r.name ≠ [] then .closed (r.client, r.name) :: ds
  else ds

def turn (w : State × History) : Event → Option (State × History)
  | .request r env => (w.1.serve env r).map fun s => (s, s.deed w.1.asked r w.2)
  | .message pid label ending => some (w.1.dispatch pid label ending, w.2)

def run (boot : List Nat) (script : List Event) : Option (State × History) :=
  script.foldlM turn (start boot, [])

theorem run_concat (boot : List Nat) (script : List Event) (event : Event) :
    run boot (script ++ [event]) = (run boot script).bind fun w => turn w event := by
  unfold run
  rw [foldlM_append]
  simp only [foldlM_cons, foldlM_nil, Option.bind_eq_bind, Option.pure_def, Option.bind_fun_some]

/-- `P` holds of every event of the script, in the state and with the history before it. -/
def Throughout (P : State → History → Event → Prop) (boot : List Nat) (script : List Event) : Prop :=
  ∀ before event after s ds, script = before ++ event :: after → run boot before = some (s, ds) → P s ds event

/-- A client closes only what it has open. -/
def Fairly (ds : History) : Event → Prop
  | .request r _ => r.label = 2 → r.name ≠ [] → closes ds (r.client, r.name) < opens ds (r.client, r.name)
  | .message _ _ _ => True

/-- Every client closes a name at most as often as it opened it. -/
def Balanced (boot : List Nat) (script : List Event) : Prop := Throughout (fun _ => Fairly) boot script

/-- No step of the script hits a failure that is not undone. -/
def Meets (s : State) : Event → Prop
  | .request r env => (r.label = 1 → r.name ≠ [] → s.asking.Opens env r.name (r.words 5)) ∧
      (r.label = 2 → r.name ≠ [] → s.asking.Closes env r.name)
  | .message _ _ _ => True

def AllMeet (boot : List Nat) (script : List Event) : Prop := Throughout (fun s _ => Meets s) boot script

section

variable {P : State → History → Event → Prop} {boot : List Nat} {script : List Event}

theorem Throughout.init {l : List Event} (h : Throughout P boot (script ++ l)) : Throughout P boot script :=
  fun before event after s ds hsplit => h before event (after ++ l) s ds (by rw [hsplit, append_assoc]; rfl)

theorem throughout_nil : Throughout P boot [] := fun before event after s ds hsplit => by simp at hsplit

theorem Throughout.concat (h : Throughout P boot script) (event : Event)
    (hlast : ∀ s ds, run boot script = some (s, ds) → P s ds event) : Throughout P boot (script ++ [event]) := by
  intro before ev after s ds hsplit hrun
  rcases eq_nil_or_concat after with rfl | ⟨after', last, rfl⟩
  · obtain ⟨rfl, hev⟩ := append_inj' hsplit rfl
    cases hev
    exact hlast s ds hrun
  · refine h before ev after' s ds ?_ hrun
    rw [concat_eq_append, ← cons_append, ← append_assoc] at hsplit
    exact (append_inj' hsplit rfl).1

end

/-! ## Table and history -/

variable {s s' : State} {ds : History} {env : Env} {i pid c : Nat} {e e' : LibEntry} {name : Name}
  {label : UInt64}

structure Counted (s : State) (ds : History) : Prop where
  fair : Fair ds
  count : ∀ {i e}, s.Live i e → e.openCount + closesAt Prod.snd ds e.name = opensAt Prod.snd ds e.name
  resident : ∀ {i e}, s.Live i e → e.resident = residentName e.name
  lives : ∀ name, name ≠ [] → ((∃ i e, s.Live i e ∧ e.name = name) ↔
    closesAt Prod.snd ds name < opensAt Prod.snd ds name ∨
      residentName name = true ∧ 0 < opensAt Prod.snd ds name)

theorem Counted.alike (hc : Counted s ds) (hs : Alike s s') : Counted s' ds where
  fair := hc.fair
  count hi := hc.count ((hs.live _ _).mp hi)
  resident hi := hc.resident ((hs.live _ _).mp hi)
  lives name hname := by
    rw [← hc.lives name hname]
    constructor
    · rintro ⟨i, e, hi, hn⟩
      exact ⟨i, e, (hs.live i e).mp hi, hn⟩
    · rintro ⟨i, e, hi, hn⟩
      exact ⟨i, e, (hs.live i e).mpr hi, hn⟩

/-- The entries under other names are the same. -/
structure Others (s s' : State) (name : Name) : Prop where
  back : ∀ {i e}, s'.Live i e → e.name ≠ name → s.Live i e
  keep : ∀ {i e}, s.Live i e → e.name ≠ name → s'.Live i e

theorem Counted.about {ds' : History} (hc : Counted s ds) (ho : Others s s' name) (hfair : Fair ds')
    (hrest : ∀ n, n ≠ name → opensAt Prod.snd ds' n = opensAt Prod.snd ds n ∧
      closesAt Prod.snd ds' n = closesAt Prod.snd ds n)
    (hat : ∀ {i e}, s'.Live i e → e.name = name → e.resident = residentName name ∧
      e.openCount + closesAt Prod.snd ds' name = opensAt Prod.snd ds' name)
    (hlives : (∃ i e, s'.Live i e ∧ e.name = name) ↔ closesAt Prod.snd ds' name < opensAt Prod.snd ds' name ∨
        residentName name = true ∧ 0 < opensAt Prod.snd ds' name) : Counted s' ds' where
  fair := hfair
  count := by
    intro i e hi
    by_cases hn : e.name = name
    · rw [hn]
      exact (hat hi hn).2
    · rw [(hrest _ hn).1, (hrest _ hn).2]
      exact hc.count (ho.back hi hn)
  resident := by
    intro i e hi
    by_cases hn : e.name = name
    · rw [hn]
      exact (hat hi hn).1
    · exact hc.resident (ho.back hi hn)
  lives := by
    intro n hempty
    by_cases hn : n = name
    · rw [hn]
      exact hlives
    · rw [(hrest n hn).1, (hrest n hn).2, ← hc.lives n hempty]
      constructor
      · rintro ⟨i, e, hi, rfl⟩
        exact ⟨i, e, ho.back hi hn, rfl⟩
      · rintro ⟨i, e, hi, rfl⟩
        exact ⟨i, e, ho.keep hi hn, rfl⟩

theorem Changed.others (hc : Changed s s' i e e') : Others s s' e.name where
  back := by
    intro j x hx hn
    rcases (hc.live j x).mp hx with ⟨rfl, rfl⟩ | ⟨-, hx⟩
    · exact absurd hc.name hn
    · exact hx
  keep := by
    intro j x hx hn
    refine (hc.live j x).mpr (.inr ⟨?_, hx⟩)
    rintro rfl
    rw [live_unique hx hc.before] at hn
    exact hn rfl

theorem Changed.at {j : Nat} {x : LibEntry} (hinv : Inv s) (hc : Changed s s' i e e')
    (hx : s'.Live j x) (hn : x.name = e.name) : x = e' := by
  rcases (hc.live j x).mp hx with ⟨-, hx⟩ | ⟨hj, hx⟩
  · exact hx
  · exact absurd (hinv.names hx hc.before hn) hj

theorem Added.others (ha : Added s s' i e) : Others s s' e.name where
  back := by
    intro j x hx hn
    rcases (ha.live j x).mp hx with ⟨-, rfl⟩ | ⟨-, hx⟩
    · exact absurd rfl hn
    · exact hx
  keep := by
    intro j x hx _
    refine (ha.live j x).mpr (.inr ⟨?_, hx⟩)
    rintro rfl
    exact ha.free x hx

theorem Removed.others (hr : Removed s s' i e pid) : Others s s' e.name where
  back hx _ := ((hr.live _ _).mp hx).2
  keep := by
    intro j x hx hn
    refine (hr.live j x).mpr ⟨?_, hx⟩
    rintro rfl
    rw [live_unique hx hr.before] at hn
    exact hn rfl

/-- **An open that succeeded**, in table and history. -/
theorem Counted.opened (hinv : Inv s) (hc : Counted s ds) (hname : name ≠ []) (ho : Opening s s' name 1) :
    Counted s' (.opened (c, name) :: ds) := by
  have hrest : ∀ n, n ≠ name → opensAt Prod.snd (.opened (c, name) :: ds) n = opensAt Prod.snd ds n ∧
      closesAt Prod.snd (.opened (c, name) :: ds) n = closesAt Prod.snd ds n := by
    intro n hn
    rw [opensAt_opened, closesAt_opened, if_neg (Ne.symm hn)]
    exact ⟨rfl, rfl⟩
  have hle := closesAt_le hc.fair Prod.snd name
  cases ho with
  | @again i e hchanged hnamed =>
    subst hnamed
    refine hc.about hchanged.others hc.fair hrest ?_ ?_
    · intro j x hx hn
      have hold := hc.count hchanged.before
      have hres := hc.resident hchanged.before
      rw [hchanged.at hinv hx hn, opensAt_opened, closesAt_opened, if_pos rfl]
      dsimp only
      exact ⟨by rw [hres, Bool.or_self], by omega⟩
    · rw [opensAt_opened, closesAt_opened, if_pos rfl]
      constructor
      · intro _
        exact .inl (by omega)
      · intro _
        exact ⟨i, _, (hchanged.live i _).mpr (.inl ⟨rfl, rfl⟩), rfl⟩
  | @loaded i e hadded hnamed hcount hresident =>
    subst hnamed
    -- nobody had it open before
    have hclosed : ¬ closesAt Prod.snd ds e.name < opensAt Prod.snd ds e.name := by
      intro hlt
      obtain ⟨j, x, hx, hn⟩ := (hc.lives e.name hname).mpr (.inl hlt)
      exact hadded.unknown hx hn
    refine hc.about hadded.others hc.fair hrest ?_ ?_
    · intro j x hx hn
      rcases (hadded.live j x).mp hx with ⟨-, rfl⟩ | ⟨-, hx⟩
      · rw [opensAt_opened, closesAt_opened, if_pos rfl]
        exact ⟨hresident, by omega⟩
      · exact absurd hn (hadded.unknown hx)
    · rw [opensAt_opened, closesAt_opened, if_pos rfl]
      constructor
      · intro _
        exact .inl (by omega)
      · intro _
        exact ⟨i, e, (hadded.live i e).mpr (.inl ⟨rfl, rfl⟩), rfl⟩

/-- **A close of something open**, in table and history. -/
theorem Counted.closed (hinv : Inv s) (hc : Counted s ds) (hname : name ≠ []) (hcl : Closing s s' name)
    (hopen : closes ds (c, name) < opens ds (c, name)) : Counted s' (.closed (c, name) :: ds) := by
  have hrest : ∀ n, n ≠ name → opensAt Prod.snd (.closed (c, name) :: ds) n = opensAt Prod.snd ds n ∧
      closesAt Prod.snd (.closed (c, name) :: ds) n = closesAt Prod.snd ds n := by
    intro n hn
    rw [opensAt_closed, closesAt_closed, if_neg (Ne.symm hn)]
    exact ⟨rfl, rfl⟩
  have hlt : closesAt Prod.snd ds name < opensAt Prod.snd ds name := closesAt_lt hc.fair Prod.snd hopen
  cases hcl with
  | unknown hsame hnone =>
    obtain ⟨j, x, hx, hn⟩ := (hc.lives name hname).mpr (.inl hlt)
    exact absurd hn (hnone hx)
  | @down i e hchanged hnamed hstays =>
    subst hnamed
    have hold := hc.count hchanged.before
    have hres := hc.resident hchanged.before
    refine hc.about hchanged.others ⟨hopen, hc.fair⟩ hrest ?_ ?_
    · intro j x hx hn
      rw [hchanged.at hinv hx hn, opensAt_closed, closesAt_closed, if_pos rfl]
      dsimp only
      exact ⟨hres, by omega⟩
    · rw [opensAt_closed, closesAt_closed, if_pos rfl]
      constructor
      · intro _
        by_cases hlast : e.openCount - 1 = 0
        · -- the last one has closed: only a resident library is still there
          have hresident : e.resident = true := by
            cases hr : e.resident with
            | false => exact absurd ⟨hlast, hr⟩ hstays
            | true => rfl
          exact .inr ⟨hres.symm.trans hresident, by omega⟩
        · exact .inl (by omega)
      · intro _
        exact ⟨i, _, (hchanged.live i _).mpr (.inl ⟨rfl, rfl⟩), rfl⟩
  | @expunged i e pid hremoved hnamed hlast hresident =>
    subst hnamed
    have hold := hc.count hremoved.before
    have hres := hc.resident hremoved.before
    have hnone : ∀ {j x}, s'.Live j x → x.name ≠ e.name := by
      intro j x hx hn
      obtain ⟨hj, hx⟩ := (hremoved.live j x).mp hx
      exact hj (hinv.names hx hremoved.before hn)
    refine hc.about hremoved.others ⟨hopen, hc.fair⟩ hrest ?_ ?_
    · intro j x hx hn
      exact absurd hn (hnone hx)
    · rw [opensAt_closed, closesAt_closed, if_pos rfl, ← hres, hresident]
      constructor
      · rintro ⟨j, x, hx, hn⟩
        exact absurd hn (hnone hx)
      · rintro (hmore | ⟨habsurd, -⟩)
        · omega
        · cases habsurd

/-! ## One step -/

variable {r : Request}

theorem same_asking (s : State) : Same s s.asking := { Same.refl s with }

theorem Same.trans {t : State} (h : Same s t) (h' : Same t s') : Same s s' where
  caps := h'.caps.trans h.caps
  procs pid := (h'.procs pid).trans (h.procs pid)
  spawned := h'.spawned.trans h.spawned
  stageWindow := h'.stageWindow.trans h.stageWindow
  argsWindow := h'.argsWindow.trans h.argsWindow
  live i e := (h'.live i e).trans (h.live i e)
  allProcs := h'.allProcs.trans h.allProcs

inductive Served (s s' : State) (r : Request) : UInt64 → Prop
  | opening {label : UInt64} (isOpen : r.label = 1) (named : r.name ≠ []) (does : Opening s s' r.name label) :
      Served s s' r label
  | closing (isClose : r.label = 2) (named : r.name ≠ []) (does : Closing s s' r.name) : Served s s' r 1
  | refused (noOpen : r.label = 1 → r.name = []) (noClose : r.label = 2 → r.name = []) (same : Same s s') :
      Served s s' r 0

/-- **A request comes back, with one reply.** -/
theorem serve_spec (hinv : Inv s) (hmeets : Meets s (.request r env)) :
    ∃ s' a, s.serve env r = some s' ∧ Replies s.asking s' s.asked a ∧ Served s.asking s' r a.label := by
  have hinv' := hinv.alike (same_asking s).toAlike
  have hrefused : (r.label = 1 → r.name = []) → (r.label = 2 → r.name = []) →
      ∃ s' a, some (s.asking.replyFail s.asked) = some s' ∧ Replies s.asking s' s.asked a ∧
        Served s.asking s' r a.label := by
    intro hopen hclose
    exact ⟨_, _, rfl, replies_reply _ _ _, .refused hopen hclose (same_reply _ _ _)⟩
  unfold serve
  by_cases hopen : r.label = 1
  · have hclose : r.label ≠ 2 := by
      rw [hopen]
      decide
    rw [if_pos hopen]
    by_cases hname : r.name ≠ []
    · rw [if_pos hname]
      obtain ⟨s', a, hrun, hreplies, hdoes⟩ := handleOpen_spec (h := s.asked) hinv' hname (hmeets.1 hopen hname)
      exact ⟨s', a, hrun, hreplies, .opening hopen hname hdoes⟩
    · rw [if_neg hname]
      exact hrefused (fun _ => not_not.mp hname) (fun h => absurd h hclose)
  · rw [if_neg hopen]
    by_cases hclose : r.label = 2
    · rw [if_pos hclose]
      split_ifs with hname
      · obtain ⟨s', a, hrun, hreplies, hlabel, hdoes⟩ :=
          handleClose_spec (h := s.asked) hinv' (hmeets.2 hclose hname)
        exact ⟨s', a, hrun, hreplies, by rw [hlabel]; exact .closing hclose hname hdoes⟩
      · exact hrefused (fun h => absurd h hopen) (fun _ => not_not.mp hname)
    · rw [if_neg hclose]
      exact hrefused (fun h => absurd h hopen) (fun h => absurd h hclose)

theorem Served.inv (hinv : Inv s) (hserved : Served s s' r label) : Inv s' := by
  cases hserved with
  | opening _ _ hdoes =>
    cases hdoes with
    | failed hsame => exact hinv.alike hsame.toAlike
    | again hchanged _ => exact hinv.changed hchanged
    | loaded hadded _ _ _ => exact Inv.added hadded hinv
  | closing _ _ hdoes =>
    cases hdoes with
    | unknown hsame _ => exact hinv.alike hsame.toAlike
    | down hchanged _ _ => exact hinv.changed hchanged
    | expunged hremoved _ _ _ => exact hinv.removed hremoved
  | refused _ _ hsame => exact hinv.alike hsame.toAlike

theorem Served.left {lib : Library} (hserved : Served s s' r label)
    (hlib : s'.procs pid = some lib) (hleft : lib.left = true) : s.procs pid = some lib := by
  cases hserved with
  | opening _ _ hdoes =>
    cases hdoes with
    | failed hsame => rwa [hsame.allProcs] at hlib
    | again hchanged _ => rwa [hchanged.procs] at hlib
    | loaded hadded _ _ _ =>
      obtain ⟨new, hstays, hprocs⟩ := hadded.procs
      rw [hprocs, update_apply] at hlib
      split at hlib
      · cases hlib
        rw [hleft] at hstays
        cases hstays
      · exact hlib
  | closing _ _ hdoes =>
    cases hdoes with
    | unknown hsame _ => rwa [hsame.allProcs] at hlib
    | down hchanged _ _ => rwa [hchanged.procs] at hlib
    | expunged hremoved _ _ _ =>
      rw [hremoved.procs, update_apply] at hlib
      split at hlib
      · cases hlib
      · exact hlib
  | refused _ _ hsame => rwa [hsame.allProcs] at hlib

theorem granted_reply {a : Answer} (hanswers : s'.answers = s.answers ++ [(s.asked, a)])
    (hold : s.answers.map Prod.fst = range s.asked) : s'.granted s.asked = true ↔ a.label = 1 := by
  have hnew : (s.answers.any fun x => x.1 = s.asked && x.2.label = 1) = false := by
    rw [any_eq_false]
    intro x hx
    have hmem : x.1 ∈ range s.asked := hold ▸ mem_map_of_mem hx
    have hlt := mem_range.mp hmem
    simp [Nat.ne_of_lt hlt]
  unfold granted
  rw [hanswers, any_append, hnew]
  simp

/-! ## Every run -/

variable {script : List Event} {boot : List Nat}

/-- What is promised of every state reached. -/
structure Sound (script : List Event) (s : State) (ds : History) : Prop where
  inv : Inv s
  counted : Counted s ds
  /-- One reply to each request. -/
  asked : s.asked = script.countP Event.isRequest
  answered : s.answers.map Prod.fst = range s.asked
  /-- A library that has left did so at a client's message. -/
  told : ∀ {pid lib}, s.procs pid = some lib → lib.left = true → ∃ label ending,
    .message pid label ending ∈ script ∧ (label = shutdownLabel ∨ ending ≠ .stays)

theorem sound_start (boot : List Nat) : Sound [] (start boot) [] := by
  have hnone : ∀ {i e}, ¬ (start boot).Live i e := by
    rintro i e ⟨hi, -⟩
    cases hi
  refine ⟨⟨?_, ?_, ?_, ?_, ?_, rfl, rfl⟩, ⟨trivial, ?_, ?_, ?_⟩, rfl, rfl, ?_⟩
  · exact fun hi => absurd hi hnone
  · exact fun hi => absurd hi hnone
  · exact fun hi => absurd hi hnone
  · exact fun hproc => absurd rfl hproc
  · intro pid _
    refine ⟨rfl, fun h => ?_⟩
    unfold start
    dsimp only
    split <;> simp
  · exact fun hi => absurd hi hnone
  · exact fun hi => absurd hi hnone
  · intro name _
    constructor
    · rintro ⟨i, e, hi, -⟩
      exact absurd hi hnone
    · rintro (hlt | ⟨-, hpos⟩)
      · cases hlt
      · cases hpos
  · intro pid lib hlib
    cases hlib

/-- One reply, and if it is not a success, the world is the old one. -/
def FailsClean (s s' : State) : Prop :=
  ∃ a, s'.answers = s.answers ++ [(s.asked, a)] ∧ (a.label ≠ 1 → Same s s')

theorem sound_request (hs : Sound script s ds) (hmeets : Meets s (.request r env))
    (hfair : r.label = 2 → r.name ≠ [] → closes ds (r.client, r.name) < opens ds (r.client, r.name)) :
    ∃ s', s.serve env r = some s' ∧ Sound (script ++ [.request r env]) s' (s'.deed s.asked r ds) ∧
      (r.label = 1 → FailsClean s s') := by
  obtain ⟨s', a, hrun, hreplies, hserved⟩ := serve_spec hs.inv hmeets
  have hinv := hs.inv.alike (same_asking s).toAlike
  have hcounted := hs.counted.alike (same_asking s).toAlike
  have hgranted := granted_reply (s := s) hreplies.answers hs.answered
  refine ⟨s', hrun, ⟨hserved.inv hinv, ?_, ?_, ?_, ?_⟩, ?_⟩
  · -- the history and the table go together
    unfold deed
    simp only [hgranted]
    generalize a.label = label at hserved ⊢
    cases hserved with
    | opening hopen hname hdoes =>
      cases hdoes with
      | failed hsame =>
        rw [if_neg (fun h => absurd h.2 (by decide)), if_neg (by rw [hopen]; exact fun h => absurd h.1 (by decide))]
        exact hcounted.alike hsame.toAlike
      | again hchanged hnamed =>
        rw [if_pos ⟨hopen, rfl⟩]
        exact hcounted.opened hinv hname (.again hchanged hnamed)
      | loaded hadded hnamed hcount hresident =>
        rw [if_pos ⟨hopen, rfl⟩]
        exact hcounted.opened hinv hname (.loaded hadded hnamed hcount hresident)
    | closing hclose hname hdoes =>
      rw [if_neg (by rw [hclose]; exact fun h => absurd h.1 (by decide)), if_pos ⟨hclose, hname⟩]
      exact hcounted.closed hinv hname hdoes (hfair hclose hname)
    | refused hopen hclose hsame =>
      rw [if_neg (fun h => absurd h.2 (by decide)), if_neg (fun h => h.2 (hclose h.1))]
      exact hcounted.alike hsame.toAlike
  · rw [hreplies.asked, countP_append, ← hs.asked]
    rfl
  · rw [hreplies.answers, hreplies.asked]
    show (s.answers ++ [(s.asked, a)]).map Prod.fst = range (s.asked + 1)
    rw [map_append, hs.answered, range_succ]
    rfl
  · intro pid lib hlib hleft
    obtain ⟨label, ending, hmem, hwhy⟩ := hs.told (hserved.left hlib hleft) hleft
    exact ⟨label, ending, mem_append_left _ hmem, hwhy⟩
  · intro hopen
    refine ⟨a, hreplies.answers, fun hlabel => ?_⟩
    generalize a.label = label at hserved hlabel
    cases hserved with
    | opening _ _ hdoes =>
      cases hdoes with
      | failed hsame => exact (same_asking s).trans hsame
      | again _ _ => exact absurd rfl hlabel
      | loaded _ _ _ _ => exact absurd rfl hlabel
    | closing _ _ _ => exact absurd rfl hlabel
    | refused _ _ hsame => exact (same_asking s).trans hsame

theorem alike_dispatch (s : State) (pid : Nat) (label : UInt64) (ending : Ending) :
    Alike s (s.dispatch pid label ending) :=
  { Same.refl s with
    procs := by
      intro p
      unfold dispatch
      dsimp only
      rw [update_apply]
      split
      · rename_i hp
        rw [hp, Option.map_eq_none_iff]
      · exact Iff.rfl }

theorem sound_message (hs : Sound script s ds) (pid : Nat) (label : UInt64) (ending : Ending) :
    Sound (script ++ [.message pid label ending]) (s.dispatch pid label ending) ds where
  inv := hs.inv.alike (alike_dispatch s pid label ending)
  counted := hs.counted.alike (alike_dispatch s pid label ending)
  asked := by
    rw [countP_append, ← hs.asked]
    rfl
  answered := hs.answered
  told := by
    intro p lib hlib hleft
    have hold : s.procs p = some lib → ∃ label' ending', .message p label' ending' ∈ script ++
        [.message pid label ending] ∧ (label' = shutdownLabel ∨ ending' ≠ .stays) := by
      intro hlib
      obtain ⟨label', ending', hmem, hwhy⟩ := hs.told hlib hleft
      exact ⟨label', ending', mem_append_left _ hmem, hwhy⟩
    unfold dispatch at hlib
    dsimp only at hlib
    rw [update_apply] at hlib
    split at hlib
    · rename_i hp
      obtain ⟨old, holdlib, hreceive⟩ := Option.map_eq_some_iff.mp hlib
      by_cases hwhy : label = shutdownLabel ∨ ending ≠ .stays
      · exact ⟨label, ending, by rw [hp]; simp, hwhy⟩
      · -- such a message leaves the library as it is
        push Not at hwhy
        have hsame : old.receive label ending = old := by
          unfold Library.receive
          rw [hwhy.2, if_neg (fun h : old.follows = true ∧ label = shutdownLabel => hwhy.1 h.2)]
          exact ite_self old
        exact hold (by rw [hp, holdlib, ← hreceive, hsame])
    · exact hold hlib

/-- **Every run of the manager is sound.** -/
theorem sound_run (hbalanced : Balanced boot script) (hmeet : AllMeet boot script) :
    ∃ s ds, run boot script = some (s, ds) ∧ Sound script s ds := by
  induction script using reverseRecOn with
  | nil => exact ⟨start boot, [], rfl, sound_start boot⟩
  | append_singleton script event ih =>
    -- what holds of the script holds of what came before its last event
    obtain ⟨s, ds, hrun, hs⟩ := ih hbalanced.init hmeet.init
    have hmeets := hmeet script event [] s ds rfl hrun
    rw [run_concat, hrun]
    cases event with
    | request r env =>
      obtain ⟨s', hserve, hsound, -⟩ := sound_request hs hmeets (hbalanced script _ [] s ds rfl hrun)
      refine ⟨s', _, ?_, hsound⟩
      show (s.serve env r).map _ = _
      rw [hserve]
      rfl
    | message pid label ending => exact ⟨_, _, rfl, sound_message hs pid label ending⟩

variable {event : Event}

theorem balanced_open (hopen : ∀ r env, event = .request r env → r.label ≠ 2) : Balanced boot [event] := by
  refine Throughout.concat throughout_nil event fun s ds _ => ?_
  cases event with
  | request r env => exact fun hclose => absurd hclose (hopen r env rfl)
  | message pid label ending => trivial

/-- A library `L` of version 1: everything works. -/
def wellEnv : Env where
  arena := true
  stat := some 1
  image := 2
  stageMap := true
  opened := true
  openSize := 1
  reads := [(true, 1)]
  stageUnmap := true
  rendez := 3
  args := 4
  argsMap := true
  argsUnmap := true
  spawn := 5
  follows := true
  rendezvous := .sent 1 0 6
  client := 7
  exits := .stays

/-- A request of client 0 about `L`. -/
def aboutL (label minVersion : UInt64) : Request :=
  ⟨0, label, fun i => if i = 0 then 76 else if i = 5 then minVersion else 0⟩

def openL : Event := .request (aboutL 1 1) wellEnv
def closeL : Event := .request (aboutL 2 0) wellEnv

theorem openL_meets : Meets (start [1]) openL := by
  refine ⟨fun _ _ => ⟨?_, ?_⟩, fun hclose => absurd hclose (by decide)⟩
  · intro i e hfind
    cases hfind
  · intro _ i t hslot
    cases hslot
    refine ⟨fun _ _ _ => rfl, ?_, fun _ _ _ _ _ _ => rfl, ?_⟩
    · intro size hsize _ _ _ _
      cases hsize
      refine ⟨by decide, fun i count hi hlt => ?_⟩
      obtain rfl : i = 0 := by
        have : wellEnv.openSize.toNat = 1 := rfl
        omega
      cases hi
      decide
    intro s' t hprepare hspawn
    cases hprepare
    cases hspawn
    exact ⟨1, 0, 6, _, rfl, rfl, by decide, by exact Option.some_ne_none _⟩

/-- The client wants version 2, and the library has version 1. -/
def openNewerL : Event := .request (aboutL 1 2) wellEnv

end State

end Aegir.Libman
