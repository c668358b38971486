/-
  What a turn does.

  `serve_step` is the one place where the handlers are taken apart: a pipe may be made first (`Ready`), and
  then the turn is one of seven steps.  From it: a used pending entry always names a valid pipe and waits for
  an event that can still come (`Settled`).
-/
import Aegir.Fileserver.DrainLaws

namespace Aegir.Fileserver

open Aegir.Lib List

/-! ## Names -/

variable {i : Nat} {pipes pipes' : List Pipe} {name : Name} {grow : Bool}

theorem find_spec (h : find pipes name = some i) :
    ∃ p, pipes[i]? = some p ∧ p.valid = true ∧ p.matches name = true := by
  obtain ⟨hlt, htest, -⟩ := findIdx?_eq_some_iff_getElem.mp h
  rw [Bool.and_eq_true] at htest
  exact ⟨pipes[i], getElem?_eq_getElem hlt, htest.1, htest.2⟩

theorem findOrCreate_made (h : findOrCreate pipes name grow = some (i, pipes', true)) :
    find pipes name = none ∧ find pipes' name = some i ∧ (∀ p, pipes[i]? = some p → p.valid = false) ∧
      (∀ j, j ≠ i → pipes'[j]? = pipes[j]?) ∧
      ∃ p, pipes'[i]? = some p ∧ p.valid = true ∧ p.ring.Sound pipeBytes ∧ p.contents = [] ∧ p.matches name = true := by
  unfold findOrCreate at h
  cases hfind : find pipes name with
  | some j =>
    rw [hfind] at h
    simp at h
  | none =>
    rw [hfind] at h
    by_cases hlen : name.length = 0 ∨ name.length > maxPipeName
    · rw [if_pos hlen] at h
      cases h
    rw [if_neg hlen] at h
    have hmatch : ∀ ring : Circular UInt8, Pipe.matches ⟨true, name, ring, false⟩ name = true := by
      intro ring
      exact decide_eq_true rfl
    have hnone : ∀ p ∈ pipes, (p.valid && p.matches name) = false := findIdx?_eq_none_iff.mp hfind
    cases hfree : pipes.findIdx? fun p => !p.valid with
    | some k =>
      rw [hfree] at h
      simp only [Option.some.injEq, Prod.mk.injEq, and_true] at h
      obtain ⟨rfl, rfl⟩ := h
      obtain ⟨hlt, hinvalid, -⟩ := findIdx?_eq_some_iff_getElem.mp hfree
      refine ⟨rfl, ?_, ?_, ?_, ?_⟩
      · refine findIdx?_eq_some_iff_getElem.mpr ⟨by rw [length_modify]; exact hlt, ?_, ?_⟩
        · rw [getElem_modify, if_pos rfl]
          exact hmatch _
        · intro j hj
          rw [getElem_modify, if_neg (by omega)]
          rw [hnone _ (getElem_mem (by omega))]
          exact Bool.false_ne_true
      · intro p hp
        rw [getElem?_eq_getElem hlt] at hp
        injection hp with hp
        rw [← hp]
        exact Bool.not_eq_true' _ ▸ hinvalid
      · intro j hj
        rw [getElem?_modify]
        simp only [if_neg (Ne.symm hj)]
        exact Option.map_id'
      · refine ⟨⟨true, name, pipes[k].ring.clear, false⟩, ?_, rfl, ?_, ?_, hmatch _⟩
        · rw [getElem?_modify, getElem?_eq_getElem hlt]
          simp
        · exact Circular.clear_sound (by decide)
        · exact Circular.contents_clear
    | none =>
      rw [hfree] at h
      cases grow with
      | false => simp at h
      | true =>
        obtain ⟨rfl, rfl⟩ := h
        refine ⟨rfl, ?_, ?_, ?_, ?_⟩
        · refine findIdx?_eq_some_iff_getElem.mpr ⟨by simp, ?_, ?_⟩
          · rw [getElem_append_right (Nat.le_refl _)]
            simp only [Nat.sub_self, getElem_cons_zero]
            exact hmatch _
          · intro j hj
            rw [getElem_append_left hj, hnone _ (getElem_mem hj)]
            exact Bool.false_ne_true
        · intro p hp
          rw [getElem?_eq_none (Nat.le_refl _)] at hp
          cases hp
        · intro j hj
          by_cases hlt : j < pipes.length
          · exact getElem?_append_left hlt
          · rw [getElem?_eq_none (by rw [length_append, length_singleton]; omega), getElem?_eq_none (by omega)]
        · refine ⟨⟨true, name, emptyRing, false⟩, getElem?_concat_length, rfl, ?_, rfl, hmatch _⟩
          have hpos : 0 < pipeBytes := by decide
          exact ⟨hpos, Nat.zero_le _⟩

theorem findOrCreate_same
    (h : findOrCreate pipes name grow = some (i, pipes', false)) : find pipes name = some i ∧ pipes' = pipes := by
  unfold findOrCreate at h
  cases hfind : find pipes name with
  | some j =>
    rw [hfind] at h
    obtain ⟨rfl, rfl⟩ := h
    exact ⟨rfl, rfl⟩
  | none =>
    rw [hfind] at h
    simp only [] at h
    split at h
    · cases h
    · split at h
      · simp at h
      · split at h <;> simp at h

/-! ## Steps -/

variable {m : Message} {s : Server}

/-- The pipe a message is about. -/
def Server.target (s : Server) (m : Message) : Option Nat := m.path.bind (find s.pipes)

/-- What a server can be when it has made the pipe that a message asks for. -/
inductive Server.Ready (s : Server) (m : Message) : Server → Prop
  | same : s.Ready m s
  | named : s.Ready m { s with namesDone := true }
  | made (name : Name) (i : Nat) (pipes : List Pipe) (hpath : m.path = some name)
      (h : Fileserver.findOrCreate s.pipes name m.grow = some (i, pipes, true)) :
      s.Ready m { s with pipes := pipes, log := s.log ++ [.emptied i] }

/-- A reply; a read or a write gives its buffer cap up first. -/
def Server.answer (s : Server) (m : Message) (status count : Nat) (io : Io) : Server :=
  s.emit ((if (m.op = .read ∨ m.op = .write) ∧ m.buf ≠ 0 then [.deleted s.clock m.buf] else []) ++
    [.replied s.clock m.reply status count io])

def Op.kind : Op → Option PendingKind
  | .read => some .read
  | .write => some .write
  | _ => none

/-- The bytes of a request can be moved. -/
structure Message.Movable (m : Message) : Prop where
  buf : m.buf ≠ 0
  length : m.length ≠ 0

/-- What an operation makes of its pipe `i`, and answers, when a drain follows. -/
inductive Server.Changed (m : Message) (s : Server) (i : Nat) (p : Pipe) : Server → Pipe → Nat → Io → Prop
  | write (w : Nat → UInt8) (hop : m.op = .write) (hmove : m.Movable) (hwin : m.window = some w)
      (hfits : m.length ≤ p.spaceLeft) :
      s.Changed m i p (s.setPipe i (p.push (windowBytes w m.length))) (p.push (windowBytes w m.length)) m.length
        (.took i (windowBytes w m.length))
  | read (w : Nat → UInt8) (hop : m.op = .read) (hmove : m.Movable) (hwin : m.window = some w)
      (hsome : 0 < p.buffered) :
      s.Changed m i p (s.setPipe i (p.pop (readCount p m.length))) (p.pop (readCount p m.length))
        (p.popped (readCount p m.length)).length (.gave i (p.popped (readCount p m.length)))
  | truncate (hop : m.op = .truncate) :
      s.Changed m i p (s.reset i) { p with ring := p.ring.clear, eof := false } 0 .nothing
  | close (hop : m.op = .close) : s.Changed m i p (s.setEof i) { p with eof := true } 0 .nothing

inductive Server.Step (m : Message) (s : Server) : Server → Prop
  | answer (status count : Nat) (hw : m.op = .write → status ≠ statusOk)
      (hr : m.op = .read → status = statusOk → count = 0) : s.Step m (s.answer m status count .nothing)
  | defer (kind : PendingKind) (i : Nat) (p : Pipe) (htarget : s.target m = some i) (hp : s.pipes[i]? = some p)
      (hop : m.op.kind = some kind) (hmove : m.Movable) (hwait : p.Blocks kind m.length)
      (hlen : kind = .write → m.length ≤ pipeBytes) (pending : List (Option Pending))
      (hstash : stash s.pending (s.deferred m kind i) m.grow = some pending) :
      s.Step m { s with pending := pending }
  | drain (i : Nat) (p q : Pipe) (t : Server) (count : Nat) (io : Io) (htarget : s.target m = some i)
      (hp : s.pipes[i]? = some p) (hchange : s.Changed m i p t q count io) :
      s.Step m ((t.drainPipe i).answer m statusOk count io)
  | delete (i : Nat) (hop : m.op = .delete) (htarget : s.target m = some i) :
      s.Step m (((s.failPipePendings i).destroy i).answer m statusOk 0 .nothing)

theorem conclude_eq (h : m.op = .read ∨ m.op = .write) (s : Server) (status count : Nat) (io : Io) :
    s.conclude m status count io = s.answer m status count io := by
  unfold Server.conclude Server.answer
  simp only [h, true_and]

theorem reply2_eq (h : ¬ (m.op = .read ∨ m.op = .write)) (s : Server) (status count : Nat) :
    s.reply2 m status count = s.answer m status count .nothing := by
  unfold Server.reply2 Server.answer
  simp only [h, false_and, if_false, nil_append]

theorem step_refuse (hio : m.op = .read ∨ m.op = .write) (s : Server) {status : Nat}
    (h : m.op = .write → status ≠ statusOk) : s.Step m (s.conclude m status 0 .nothing) := by
  rw [conclude_eq hio]
  exact .answer status 0 h fun _ _ => rfl

theorem step_reply2 (hio : ¬ (m.op = .read ∨ m.op = .write)) (s : Server) (status count : Nat) :
    s.Step m (s.reply2 m status count) := by
  rw [reply2_eq hio]
  exact .answer status count (fun h => absurd (.inr h) hio) fun h => absurd (.inl h) hio

theorem target_eq (hpath : m.path = some name) : s.target m = find s.pipes name := by
  unfold Server.target
  rw [hpath]
  rfl

theorem server_findOrCreate {s₁ : Server} (hpath : m.path = some name)
    (h : s.findOrCreate name m.grow = some (i, s₁)) :
    s.Ready m s₁ ∧ s₁.target m = some i ∧ s₁.namesDone = s.namesDone := by
  unfold Server.findOrCreate at h
  split at h
  · cases h
  · rename_i j pipes new hf
    injection h with h
    obtain ⟨rfl, rfl⟩ := Prod.mk.inj h
    cases new with
    | false =>
      obtain ⟨hfind, rfl⟩ := findOrCreate_same hf
      refine ⟨.same, ?_, rfl⟩
      show m.path.bind (find s.pipes) = _
      rw [hpath]
      exact hfind
    | true =>
      refine ⟨.made name j pipes hpath hf, ?_, rfl⟩
      show m.path.bind (find pipes) = _
      rw [hpath]
      exact (findOrCreate_made hf).2.1

theorem target_some (h : s.target m = some i) :
    ∃ p name, s.pipes[i]? = some p ∧ p.valid = true ∧ m.path = some name ∧ p.matches name = true := by
  obtain ⟨name, hpath, hfind⟩ := Option.bind_eq_some_iff.mp h
  obtain ⟨p, hp, hvalid, hmatch⟩ := find_spec hfind
  exact ⟨p, name, hp, hvalid, hpath, hmatch⟩

theorem handleWrite_step (hop : m.op = .write) : ∃ s₁, s.Ready m s₁ ∧ s₁.Step m (s.handleWrite m) := by
  have hio : m.op = .read ∨ m.op = .write := .inr hop
  have refuse : ∀ (s₁ : Server) (status : Nat), status ≠ statusOk → s₁.Step m (s₁.conclude m status 0 .nothing) :=
    fun s₁ status h => step_refuse hio s₁ fun _ => h
  unfold Server.handleWrite
  split
  · exact ⟨s, .same, refuse s _ (by decide)⟩
  split_ifs with hargs
  · exact ⟨s, .same, refuse s _ (by decide)⟩
  rw [not_or] at hargs
  cases hpath : m.path with
  | none => exact ⟨s, .same, refuse s _ (by decide)⟩
  | some name =>
    simp only []
    split_ifs with hbad
    · exact ⟨s, .same, refuse s _ (by decide)⟩
    cases hf : s.findOrCreate name m.grow with
    | none => exact ⟨s, .same, refuse s _ (by decide)⟩
    | some r =>
      obtain ⟨i, s₁⟩ := r
      obtain ⟨hready, htarget, -⟩ := server_findOrCreate hpath hf
      obtain ⟨p, -, hp, -⟩ := target_some htarget
      refine ⟨s₁, hready, ?_⟩
      simp only [hp]
      split_ifs with hroom
      · unfold Server.defer
        cases hstash : stash s₁.pending (s₁.deferred m .write i) m.grow with
        | none => exact refuse s₁ _ (by decide)
        | some pending =>
          refine .defer .write i p htarget hp ?_ ⟨hargs.1, hargs.2⟩ ?_ ?_ pending hstash
          · rw [hop]
            rfl
          · exact ⟨fun h => (nomatch h), fun _ => hroom⟩
          · intro _
            omega
      · cases hwin : m.window with
        | none => exact refuse s₁ _ (by decide)
        | some w =>
          simp only []
          rw [conclude_eq hio]
          exact .drain i p _ _ _ _ htarget hp (.write w hop ⟨hargs.1, hargs.2⟩ hwin (by omega))

theorem handleRead_step (hop : m.op = .read) : s.Step m (s.handleRead m) := by
  have hio : m.op = .read ∨ m.op = .write := .inl hop
  have refuse : ∀ status : Nat, s.Step m (s.conclude m status 0 .nothing) := by
    intro status
    refine step_refuse hio s fun hw => ?_
    rw [hop] at hw
    cases hw
  unfold Server.handleRead
  split
  · exact refuse _
  split_ifs with hargs
  · exact refuse _
  rw [not_or] at hargs
  cases hpath : m.path with
  | none => exact refuse _
  | some name =>
    simp only []
    cases hfind : find s.pipes name with
    | none => exact refuse _
    | some i =>
      obtain ⟨p, hp, -, -⟩ := find_spec hfind
      have htarget : s.target m = some i := (target_eq hpath).trans hfind
      simp only [hp]
      split_ifs with hempty heof
      · exact refuse _
      · unfold Server.defer
        cases hstash : stash s.pending (s.deferred m .read i) m.grow with
        | none => exact refuse _
        | some pending =>
          refine .defer .read i p htarget hp ?_ ⟨hargs.1, hargs.2⟩ ?_ ?_ pending hstash
          · rw [hop]
            rfl
          · exact ⟨fun _ => ⟨hempty, eq_false_of_ne_true heof⟩, fun h => (nomatch h)⟩
          · exact fun h => (nomatch h)
      · cases hwin : m.window with
        | none => exact refuse _
        | some w =>
          simp only []
          rw [conclude_eq hio]
          exact .drain i p _ _ _ _ htarget hp (.read w hop ⟨hargs.1, hargs.2⟩ hwin (by omega))

theorem handleStatOrOpen_step (hop : m.op = .stat ∨ m.op = .open) :
    ∃ s₁, s.Ready m s₁ ∧ s₁.Step m (s.handleStatOrOpen m) := by
  have hio : ¬ (m.op = .read ∨ m.op = .write) := by
    rcases hop with hop | hop <;> rw [hop] <;> decide
  have reply := step_reply2 hio
  unfold Server.handleStatOrOpen
  split
  · exact ⟨s, .same, reply s _ _⟩
  cases hpath : m.path with
  | none => exact ⟨s, .same, reply s _ _⟩
  | some name =>
    simp only []
    split_ifs with hbare hopen
    · exact ⟨s, .same, reply s _ _⟩
    · cases hf : s.findOrCreate name m.grow with
      | none => exact ⟨s, .same, reply s _ _⟩
      | some r =>
        obtain ⟨i, s₁⟩ := r
        exact ⟨s₁, (server_findOrCreate hpath hf).1, reply s₁ _ _⟩
    · cases (find s.pipes name).bind fun i => s.pipes[i]? with
      | none => exact ⟨s, .same, reply s _ _⟩
      | some p => exact ⟨s, .same, reply s _ _⟩

theorem handlePathOp_step (hio : ¬ (m.op = .read ∨ m.op = .write)) :
    s.Step m (s.handlePathOp m) := by
  have reply := step_reply2 hio s
  unfold Server.handlePathOp
  split
  · exact reply _ _
  cases hpath : m.path with
  | none => exact reply _ _
  | some name =>
    have htarget := target_eq (s := s) hpath
    simp only []
    split_ifs with hdelete htruncate
    · cases hfind : find s.pipes name with
      | none => exact reply _ _
      | some i =>
        simp only []
        rw [reply2_eq hio]
        exact .delete i hdelete (htarget.trans hfind)
    · cases hfind : find s.pipes name with
      | none => exact reply _ _
      | some i =>
        obtain ⟨p, hp, -, -⟩ := find_spec hfind
        simp only []
        rw [reply2_eq hio]
        exact .drain i p _ _ _ _ (htarget.trans hfind) hp (.truncate htruncate)
    · exact reply _ _

theorem handleClose_step (hop : m.op = .close) : s.Step m (s.handleClose m) := by
  have hio : ¬ (m.op = .read ∨ m.op = .write) := by
    rw [hop]
    decide
  have reply := step_reply2 hio s
  unfold Server.handleClose
  cases hpath : m.path with
  | none => exact reply _ _
  | some name =>
    simp only []
    cases hfind : find s.pipes name with
    | none => exact reply _ _
    | some i =>
      obtain ⟨p, hp, -, -⟩ := find_spec hfind
      simp only []
      rw [reply2_eq hio]
      exact .drain i p _ _ _ _ ((target_eq hpath).trans hfind) hp (.close hop)

/-- **Inversion.**  A turn makes at most one pipe and then takes one step. -/
theorem serve_step (s : Server) (m : Message) : ∃ s₁, s.Ready m s₁ ∧ s₁.Step m (s.serve m) := by
  unfold Server.serve
  cases hop : m.op with
  | namesDone =>
    refine ⟨_, .named, ?_⟩
    exact step_reply2 (by rw [hop]; decide) _ _ _
  | stat => exact handleStatOrOpen_step (.inl hop)
  | «open» => exact handleStatOrOpen_step (.inr hop)
  | read => exact ⟨s, .same, handleRead_step hop⟩
  | write => exact handleWrite_step hop
  | close => exact ⟨s, .same, handleClose_step hop⟩
  | delete => exact ⟨s, .same, handlePathOp_step (by rw [hop]; decide)⟩
  | truncate => exact ⟨s, .same, handlePathOp_step (by rw [hop]; decide)⟩
  | mkdir => exact ⟨s, .same, handlePathOp_step (by rw [hop]; decide)⟩
  | rmdir => exact ⟨s, .same, handlePathOp_step (by rw [hop]; decide)⟩

end Aegir.Fileserver
