/-
  Writes in turn.

  The server does not look at the pending table when a write arrives, `Stash` takes the first free slot, and
  `Drain_Pipe` goes by slots: a write can pass another that came before it.  `orderly` is the condition on a
  message and the table before it that excludes exactly this: a write that fits meets no waiting write, and
  with the room that a read or a truncate makes, the table lets in no write before an earlier one.
-/
import Aegir.Fileserver.Settled

namespace Aegir.Fileserver

open List

/-! ## The condition -/

variable {skipped : List Pending}

/-- A scan of `rest` with `room` bytes free lets in no write while an earlier one is left out. -/
def inTurn : Nat → List Pending → List Pending → Bool
  | _, _, [] => true
  | room, skipped, e :: rest =>
    if e.length ≤ room then
      if e.window.isNone then inTurn room skipped rest
      else (skipped ++ rest).all (fun v => e.ticket < v.ticket) && inTurn (room - e.length) skipped rest
    else inTurn room (skipped ++ [e]) rest

/-- Serving `m` lets no write pass an earlier one. -/
def Server.orderly (s : Server) (m : Message) : Bool :=
  match s.target m with
  | none => true
  | some i =>
    match s.pipes[i]? with
    | none => true
    | some p =>
      match m.op with
      | .write =>
        m.buf == 0 || m.length == 0 || m.window.isNone || decide (p.spaceLeft < m.length) ||
          (waiting i s.pending).isEmpty
      | .read =>
        m.buf == 0 || m.length == 0 || m.window.isNone || p.buffered == 0 ||
          inTurn (p.spaceLeft + readCount p m.length) [] (waiting i s.pending)
      | .truncate => inTurn pipeBytes [] (waiting i s.pending)
      | _ => true

theorem inTurn_of_long {room : Nat} {rest : List Pending} (h : ∀ e ∈ rest, room < e.length) :
    inTurn room skipped rest = true := by
  induction rest generalizing skipped with
  | nil => rfl
  | cons e rest ih =>
    have he := h e mem_cons_self
    rw [inTurn, if_neg (by omega)]
    exact ih fun v hv => h v (mem_cons_of_mem _ hv)

/-! ## Drains in turn -/

variable {i : Nat} {p p' : Pipe} {e : Pending} {sent : List Event} {slots : List (Option Pending)}

/-- All who wait on pipe `i` are writers. -/
def OnlyWrites (i : Nat) (slots : List (Option Pending)) : Prop := ∀ e, some e ∈ slots → e.pipe = i → e.kind = .write

theorem waiting_cons_none : waiting i (none :: slots) = waiting i slots := rfl

theorem waiting_cons_some : waiting i (some e :: slots) =
    (if e.pipe = i ∧ e.kind = .write then [e] else []) ++ waiting i slots := rfl

theorem drainSlot_write (h : drainSlot i p e = some (p', sent)) (hk : e.kind = .write) :
    e.length ≤ p.spaceLeft ∧ ((e.window = none ∧ p' = p ∧ took i sent = []) ∨
      ∃ w, e.window = some w ∧ p' = p.push (windowBytes w e.length) ∧
        took i sent = [(e.ticket, windowBytes w e.length)]) := by
  unfold drainSlot at h
  by_cases hi : e.pipe ≠ i
  · rw [if_pos hi] at h
    cases h
  rw [if_neg hi, hk] at h
  by_cases hfits : p.spaceLeft ≥ e.length
  · rw [if_pos hfits] at h
    refine ⟨hfits, ?_⟩
    cases hwin : e.window with
    | none =>
      rw [hwin] at h
      injection h with h
      obtain ⟨rfl, rfl⟩ := Prod.mk.inj h
      exact .inl ⟨rfl, rfl, by simp [Pending.finish, took]⟩
    | some w =>
      rw [hwin] at h
      injection h with h
      obtain ⟨rfl, rfl⟩ := Prod.mk.inj h
      exact .inr ⟨w, rfl, rfl, by simp [Pending.finish, took]⟩
  · rw [if_neg hfits] at h
    cases h

theorem push_spaceLeft {bytes : List UInt8} (hs : p.ring.Sound Fileserver.pipeBytes)
    (hfits : bytes.length ≤ p.spaceLeft) : (p.push bytes).spaceLeft = p.spaceLeft - bytes.length := by
  have hlen := congrArg length (push_spec hs hfits).1
  rw [length_append, length_contents, length_contents] at hlen
  unfold Pipe.spaceLeft
  unfold Pipe.buffered at hlen
  omega

/-- The writes of `log` came in order, before everyone of `later`. -/
structure InOrder (log : List (Nat × List UInt8)) (later : List Pending) : Prop where
  sorted : log.Pairwise (fun a b => a.1 < b.1)
  before : ∀ a ∈ log, ∀ v ∈ later, a.1 < v.ticket

/-- **One pass.**  The induction is on the table; `skipped` are the writes left out so far. -/
theorem drainPass_inTurn (hs : p.ring.Sound pipeBytes) (honly : OnlyWrites i slots)
    (h : inTurn p.spaceLeft skipped (waiting i slots) = true) :
    InOrder (took i (drainPass i p slots).log) (skipped ++ waiting i (drainPass i p slots).slots) ∧
      (∀ a ∈ took i (drainPass i p slots).log, ∃ v ∈ waiting i slots, v.ticket = a.1) ∧
      (∀ v ∈ waiting i (drainPass i p slots).slots, v ∈ waiting i slots) ∧
      (∀ v ∈ waiting i (drainPass i p slots).slots, (drainPass i p slots).pipe.spaceLeft < v.length) ∧
      (drainPass i p slots).pipe.spaceLeft ≤ p.spaceLeft := by
  induction slots generalizing p skipped with
  | nil =>
    refine ⟨⟨List.Pairwise.nil, fun a ha => (nomatch ha)⟩, fun a ha => (nomatch ha), fun v hv => hv,
      fun v hv => (nomatch hv), Nat.le_refl _⟩
  | cons slot slots ih =>
    have honly' : OnlyWrites i slots := fun e he => honly e (mem_cons_of_mem _ he)
    cases slot with
    | none => exact ih hs honly' h
    | some e =>
      cases hslot : drainSlot i p e with
      | none =>
        simp only [drainPass, hslot]
        by_cases hi : e.pipe = i
        · have hk := honly e mem_cons_self hi
          have hlong := (drainSlot_none hi hslot).2 hk
          rw [waiting_cons_some, if_pos ⟨hi, hk⟩] at h
          rw [cons_append, nil_append, inTurn, if_neg (by omega)] at h
          obtain ⟨⟨hsorted, hbefore⟩, hfrom, hkeeps, hleft, hspace⟩ := ih hs honly' h
          rw [waiting_cons_some, waiting_cons_some, if_pos ⟨hi, hk⟩]
          refine ⟨⟨hsorted, ?_⟩, ?_, ?_, ?_, hspace⟩
          · rw [← append_assoc]
            exact hbefore
          · intro a ha
            obtain ⟨v, hv, hva⟩ := hfrom a ha
            exact ⟨v, mem_append_right _ hv, hva⟩
          · intro v hv
            rcases mem_append.mp hv with hv | hv
            · exact mem_append_left _ hv
            · exact mem_append_right _ (hkeeps v hv)
          · intro v hv
            rcases mem_append.mp hv with hv | hv
            · rw [mem_singleton.mp hv]
              omega
            · exact hleft v hv
        · have hother : ∀ l : List (Option Pending), waiting i (some e :: l) = waiting i l := by
            intro l
            rw [waiting_cons_some, if_neg (fun hboth => hi hboth.1)]
            rfl
          rw [hother] at h
          rw [hother, hother]
          exact ih hs honly' h
      | some r =>
        obtain ⟨p', sent⟩ := r
        obtain ⟨hi, hcomp⟩ := drainSlot_completes hslot
        have hk := honly e mem_cons_self hi
        obtain ⟨hfits, hcase⟩ := drainSlot_write hslot hk
        have hsound := (hcomp.flow hs).1
        simp only [drainPass, hslot]
        rw [waiting_cons_some, if_pos ⟨hi, hk⟩] at h
        rw [cons_append, nil_append, inTurn, if_pos hfits] at h
        rw [waiting_cons_none, took_append, waiting_cons_some, if_pos ⟨hi, hk⟩]
        rcases hcase with ⟨hwin, rfl, htook⟩ | ⟨w, hwin, rfl, htook⟩
        · -- the buffer cannot be mapped: the write leaves without a byte
          rw [hwin] at h
          obtain ⟨hin, hfrom, hkeeps, hleft, hspace⟩ := ih hsound honly' h
          rw [htook, nil_append]
          refine ⟨hin, ?_, fun v hv => mem_append_right _ (hkeeps v hv), hleft, hspace⟩
          intro a ha
          obtain ⟨v, hv, hva⟩ := hfrom a ha
          exact ⟨v, mem_append_right _ hv, hva⟩
        · rw [hwin] at h
          simp only [Option.isNone_some, Bool.false_eq_true, if_false, Bool.and_eq_true, all_eq_true,
            decide_eq_true_eq] at h
          have hlen : (windowBytes w e.length).length ≤ p.spaceLeft := by
            rw [windowBytes_length]
            exact hfits
          have hroom := push_spaceLeft hs hlen
          rw [windowBytes_length] at hroom
          obtain ⟨⟨hsorted, hbefore⟩, hfrom, hkeeps, hleft, hspace⟩ := ih hsound honly' (hroom ▸ h.2)
          rw [htook]
          refine ⟨⟨?_, ?_⟩, ?_, fun v hv => mem_append_right _ (hkeeps v hv), hleft, by omega⟩
          · refine pairwise_cons.mpr ⟨?_, hsorted⟩
            intro a ha
            obtain ⟨v, hv, hva⟩ := hfrom a ha
            rw [← hva]
            exact h.1 v (mem_append_right _ hv)
          · intro a ha v hv
            rcases mem_cons.mp ha with rfl | ha
            · refine h.1 v ?_
              rcases mem_append.mp hv with hv | hv
              · exact mem_append_left _ hv
              · exact mem_append_right _ (hkeeps v hv)
            · exact hbefore a ha v hv
          · intro a ha
            rcases mem_cons.mp ha with rfl | ha
            · exact ⟨e, mem_append_left _ mem_cons_self, rfl⟩
            · obtain ⟨v, hv, hva⟩ := hfrom a ha
              exact ⟨v, mem_append_right _ hv, hva⟩

theorem drainPass_drains (hs : p.ring.Sound pipeBytes) :
    Drains i p slots (drainPass i p slots).pipe (drainPass i p slots).slots (drainPass i p slots).log := by
  have hstep : ∀ q pre e rest log q' sent, Drains i p slots q (pre ++ some e :: rest) log → e.pipe = i →
      Completes i q e q' sent → Drains i p slots q' (pre ++ none :: rest) (log ++ sent) := by
    intro q pre e rest log q' sent h hi hc
    exact h.step hi hc
  have hfirst : Drains i p slots p ([] ++ slots) [] := Drains.refl hs
  have hpass := drainPass_induct hstep [] hfirst
  simpa using hpass

/-- **A drain in turn.**  After the first pass nobody who is left fits. -/
theorem drain_inTurn (fuel : Nat) (hs : p.ring.Sound pipeBytes) (honly : OnlyWrites i slots)
    (h : inTurn p.spaceLeft [] (waiting i slots) = true) :
    InOrder (took i (drain i fuel p slots).log) (waiting i (drain i fuel p slots).slots) ∧
      (∀ a ∈ took i (drain i fuel p slots).log, ∃ v ∈ waiting i slots, v.ticket = a.1) ∧
      ∀ v ∈ waiting i (drain i fuel p slots).slots, v ∈ waiting i slots := by
  induction fuel generalizing p slots with
  | zero => exact ⟨⟨List.Pairwise.nil, fun a ha => (nomatch ha)⟩, fun a ha => (nomatch ha), fun v hv => hv⟩
  | succ fuel ih =>
    obtain ⟨⟨hsorted, hbefore⟩, hfrom, hkeeps, hleft, -⟩ := drainPass_inTurn hs honly h
    rw [drain]
    by_cases hprog : (drainPass i p slots).progress = true
    · simp only [if_pos hprog]
      have hd : Drains i p slots (drainPass i p slots).pipe (drainPass i p slots).slots (drainPass i p slots).log :=
        drainPass_drains hs
      have honly' : OnlyWrites i (drainPass i p slots).slots := fun e he => honly e (hd.keeps e he)
      obtain ⟨⟨hsorted', hbefore'⟩, hfrom', hkeeps'⟩ := ih hd.sound honly' (inTurn_of_long hleft)
      rw [took_append]
      refine ⟨⟨?_, ?_⟩, ?_, fun v hv => hkeeps v (hkeeps' v hv)⟩
      · refine pairwise_append.mpr ⟨hsorted, hsorted', ?_⟩
        intro a ha b hb
        obtain ⟨v, hv, hvb⟩ := hfrom' b hb
        rw [← hvb]
        exact hbefore a ha v hv
      · intro a ha v hv
        rcases mem_append.mp ha with ha | ha
        · exact hbefore a ha v (hkeeps' v hv)
        · exact hbefore' a ha v hv
      · intro a ha
        rcases mem_append.mp ha with ha | ha
        · exact hfrom a ha
        · obtain ⟨v, hv, hva⟩ := hfrom' a ha
          exact ⟨v, hkeeps v hv, hva⟩
    · simp only [if_neg hprog]
      exact ⟨⟨hsorted, hbefore⟩, hfrom, hkeeps⟩

/-! ## The server's drain in turn -/

variable {l : List Event} {slots' : List (Option Pending)}

section

variable (h : Drains i p slots p' slots' l)

include h

theorem Drains.mem_took
    {a : Nat × List UInt8} (ha : a ∈ took i l) : ∃ e w, some e ∈ slots ∧ e.pipe = i ∧ e.kind = .write ∧
      e.window = some w ∧ a = (e.ticket, windowBytes w e.length) := by
  obtain ⟨ev, hev, hmem⟩ := mem_flatMap.mp ha
  obtain ⟨e, q, q', sent, he, hi, hc, hin⟩ := h.origin ev hev
  have htook : a ∈ took i sent := mem_flatMap.mpr ⟨ev, hin, hmem⟩
  rcases hc.took_eq with ⟨hnil, -⟩ | ⟨w, hk, hwin, -, -, hone⟩
  · rw [hnil] at htook
    cases htook
  · rw [hone] at htook
    exact ⟨e, w, he, hi, hk, hwin, mem_singleton.mp htook⟩

theorem Drains.took_nil (hnone : waiting i slots = []) : took i l = [] := by
  refine eq_nil_iff_forall_not_mem.mpr ?_
  intro a ha
  obtain ⟨e, w, he, hi, hk, -, -⟩ := h.mem_took ha
  have hmem := mem_waiting.mpr ⟨he, hi, hk⟩
  rw [hnone] at hmem
  cases hmem

theorem Drains.gave_nil (honly : OnlyWrites i slots) : gave i l = [] := by
  refine flatMap_eq_nil_iff.mpr ?_
  intro ev hev
  obtain ⟨e, q, q', sent, he, hi, hc, hin⟩ := h.origin ev hev
  have hk := honly e he hi
  have hgave : gave i sent = [] := by
    cases hc with
    | nothing => simp [Pending.finish, gave]
    | read n hr =>
      rw [hk] at hr
      cases hr
    | write => simp [Pending.finish, gave]
  exact flatMap_eq_nil_iff.mp hgave ev hin

theorem Drains.keeps_waiting (j : Nat) : ∀ v ∈ waiting j slots', v ∈ waiting j slots := by
  intro v hv
  obtain ⟨hmem, hboth⟩ := mem_waiting.mp hv
  exact mem_waiting.mpr ⟨h.keeps v hmem, hboth⟩

end

/-- **Draining a pipe in turn.** -/
theorem drainPipe_inTurn {s : Server} (hp : s.pipes[i]? = some p) (hs : p.ring.Sound pipeBytes)
    (hkind : OnlyWrites i s.pending ∨ waiting i s.pending = [])
    (h : inTurn p.spaceLeft [] (waiting i s.pending) = true) :
    ∃ p' slots l, s.drainPipe i = { s with
        pipes := s.pipes.set i p'
        pending := slots
        log := s.log ++ l } ∧ Drains i p s.pending p' slots l ∧ InOrder (took i l) (waiting i slots) ∧
      ∀ a ∈ took i l, ∃ v ∈ waiting i s.pending, v.ticket = a.1 := by
  have hd : Drains i p s.pending (drain i (s.pending.length + 1) p s.pending).pipe
      (drain i (s.pending.length + 1) p s.pending).slots (drain i (s.pending.length + 1) p s.pending).log :=
    drain_drains (s.pending.length + 1) hs
  refine ⟨_, _, _, ?_, hd, ?_⟩
  · unfold Server.drainPipe
    rw [hp]
  · rcases hkind with honly | hnone
    · obtain ⟨horder, hfrom, -⟩ := drain_inTurn (s.pending.length + 1) hs honly h
      exact ⟨horder, hfrom⟩
    · rw [hd.took_nil hnone]
      exact ⟨⟨List.Pairwise.nil, fun a ha => (nomatch ha)⟩, fun a ha => (nomatch ha)⟩

theorem Server.Settled.oneKind {s : Server} (h : s.Settled) (i : Nat) :
    OnlyWrites i s.pending ∨ waiting i s.pending = [] := by
  by_cases hnone : waiting i s.pending = []
  · exact .inr hnone
  refine .inl ?_
  obtain ⟨v, hv⟩ := exists_mem_of_ne_nil _ hnone
  obtain ⟨hmem, hvi, hvk⟩ := mem_waiting.mp hv
  obtain ⟨p, hp, -, hblocks⟩ := h.waits v hmem
  have hlong := (hblocks (by simp)).2 hvk
  have hfits := h.fits v hmem hvk
  intro e he hei
  cases hk : e.kind with
  | write => rfl
  | read =>
    -- an empty ring has room for any write
    obtain ⟨q, hq, -, hread⟩ := h.waits e he
    rw [hei, ← hvi, hp] at hq
    injection hq with hq
    have hempty := ((hread (by simp)).1 hk).1
    rw [← hq] at hempty
    unfold Pipe.buffered at hempty
    unfold Pipe.spaceLeft at hlong
    omega

/-! ## What the condition says -/

section Orderly

variable {s s₁ : Server} {m : Message} {w : Nat → UInt8}

theorem orderly_eq (htarget : s.target m = some i) (hp : s.pipes[i]? = some p) : s.orderly m = (match m.op with
    | .write =>
      m.buf == 0 || m.length == 0 || m.window.isNone || decide (p.spaceLeft < m.length) ||
        (waiting i s.pending).isEmpty
    | .read =>
      m.buf == 0 || m.length == 0 || m.window.isNone || p.buffered == 0 ||
        inTurn (p.spaceLeft + readCount p m.length) [] (waiting i s.pending)
    | .truncate => inTurn pipeBytes [] (waiting i s.pending)
    | _ => true) := by
  unfold Server.orderly
  rw [htarget]
  simp only [hp]

theorem orderly_write (h : s.orderly m = true) (htarget : s.target m = some i) (hp : s.pipes[i]? = some p)
    (hop : m.op = .write) (hmove : m.Movable) (hwin : m.window = some w)
    (hfits : m.length ≤ p.spaceLeft) : waiting i s.pending = [] := by
  rw [orderly_eq htarget hp, hop] at h
  have hroom : ¬ p.spaceLeft < m.length := by omega
  simpa [hmove.buf, hmove.length, hwin, hroom] using h

theorem orderly_read (h : s.orderly m = true) (htarget : s.target m = some i) (hp : s.pipes[i]? = some p)
    (hop : m.op = .read) (hmove : m.Movable) (hwin : m.window = some w)
    (hsome : 0 < p.buffered) :
    inTurn (p.spaceLeft + readCount p m.length) [] (waiting i s.pending) = true := by
  rw [orderly_eq htarget hp, hop] at h
  have hne : p.buffered ≠ 0 := by omega
  simpa [hmove.buf, hmove.length, hwin, hne] using h

theorem orderly_truncate (h : s.orderly m = true) (htarget : s.target m = some i) (hp : s.pipes[i]? = some p)
    (hop : m.op = .truncate) : inTurn pipeBytes [] (waiting i s.pending) = true := by
  rw [orderly_eq htarget hp, hop] at h
  exact h

theorem orderly_ready (hset : s.Settled) (hr : s.Ready m s₁) (h : s.orderly m = true) : s₁.orderly m = true := by
  cases hr with
  | same => exact h
  | named => exact h
  | made name i pipes hpath hmade =>
    obtain ⟨-, hfind, hold, -, p, hp, -⟩ := findOrCreate_made hmade
    have hnone : waiting i s.pending = [] := by
      refine eq_nil_iff_forall_not_mem.mpr ?_
      intro v hv
      obtain ⟨hmem, hvi, -⟩ := mem_waiting.mp hv
      obtain ⟨q, hq, hvalid, -⟩ := hset.waits v hmem
      rw [hvi] at hq
      rw [hold q hq] at hvalid
      cases hvalid
    have htarget : ({ s with pipes := pipes, log := s.log ++ [.emptied i] } : Server).target m = some i := by
      show m.path.bind (find pipes) = _
      rw [hpath]
      exact hfind
    rw [orderly_eq htarget hp]
    simp only [hnone]
    cases m.op <;> simp [inTurn]

end Orderly

end Aegir.Fileserver
