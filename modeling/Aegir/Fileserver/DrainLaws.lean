/-
  What a drain does.

  A drain is a sequence of COMPLETIONS: at each the pipe changes and one slot becomes free.  `drain_induct`
  says so once; conservation of bytes and of replies follow from what one completion does.  Two facts need
  the passes themselves: a drain ends with nothing left that could be completed, and writes whose turn it is
  (`inTurn`) enter the ring in the order in which they arrived.
-/
import Aegir.Fileserver.Pipes

namespace Aegir.Fileserver

open Aegir.Lib List Option

/-! ## Reading the log -/

/-- The bytes handed to readers of pipe `i`. -/
def gave (i : Nat) (log : List Event) : List UInt8 :=
  log.flatMap fun ev => match ev with
    | .replied _ _ _ _ (.gave j bytes) => if j = i then bytes else []
    | _ => []

/-- The writes acknowledged by pipe `i`. -/
def took (i : Nat) (log : List Event) : List (Nat × List UInt8) :=
  log.flatMap fun ev => match ev with
    | .replied t _ _ _ (.took j bytes) => if j = i then [(t, bytes)] else []
    | _ => []

/-- A capability that a request hands over. -/
inductive Cap
  | reply (handle : Nat)
  | buf (handle : Nat)
deriving DecidableEq

/-- The caps of request `t` that were used up: its reply cap by a reply, its buffer cap by a deletion. -/
def spent (t : Nat) (log : List Event) : List Cap :=
  log.flatMap fun ev => match ev with
    | .replied u reply _ _ _ => if u = t then [.reply reply] else []
    | .deleted u buf => if u = t then [.buf buf] else []
    | .emptied _ => []

@[simp] theorem gave_append (i : Nat) (l r : List Event) : gave i (l ++ r) = gave i l ++ gave i r :=
  flatMap_append

@[simp] theorem took_append (i : Nat) (l r : List Event) : took i (l ++ r) = took i l ++ took i r :=
  flatMap_append

@[simp] theorem spent_append (t : Nat) (l r : List Event) : spent t (l ++ r) = spent t l ++ spent t r :=
  flatMap_append

/-- The caps that pending requests with ticket `t` hold. -/
def owed (t : Nat) (slots : List (Option Pending)) : List Cap :=
  slots.flatMap fun slot => match slot with
    | some e => if e.ticket = t then [.reply e.reply, .buf e.buf] else []
    | none => []

/-- The writes waiting on pipe `i`, in slot order. -/
def waiting (i : Nat) (slots : List (Option Pending)) : List Pending :=
  slots.flatMap fun slot => match slot with
    | some e => if e.pipe = i ∧ e.kind = .write then [e] else []
    | none => []

theorem mem_waiting {i : Nat} {slots : List (Option Pending)} {e : Pending} :
    e ∈ waiting i slots ↔ some e ∈ slots ∧ e.pipe = i ∧ e.kind = .write := by
  unfold waiting
  rw [mem_flatMap]
  constructor
  · rintro ⟨slot, hslot, he⟩
    cases slot with
    | none => cases he
    | some f =>
      by_cases hf : f.pipe = i ∧ f.kind = .write
      · simp only [if_pos hf, mem_singleton] at he
        rw [he]
        exact ⟨hslot, hf⟩
      · simp only [if_neg hf] at he
        cases he
  · rintro ⟨hslot, hboth⟩
    refine ⟨some e, hslot, ?_⟩
    simp only [if_pos hboth, mem_singleton]

/-! ## One completion -/

variable {i : Nat} {p p' : Pipe} {e : Pending} {sent : List Event}

/-- What completing a request can be. -/
inductive Completes (i : Nat) (p : Pipe) (e : Pending) : Pipe → List Event → Prop
  /-- Nothing moves: the buffer cannot be mapped, or a read meets the end. -/
  | nothing (status count : Nat) (hw : e.kind = .write → status ≠ statusOk)
      (hr : e.kind = .read → status = statusOk → count = 0) : Completes i p e p (e.finish status count .nothing)
  | read (n : Nat) (hkind : e.kind = .read) (hn : n ≤ p.buffered) :
      Completes i p e (p.pop n) (e.finish statusOk (p.popped n).length (.gave i (p.popped n)))
  | write (w : Nat → UInt8) (hkind : e.kind = .write) (hwin : e.window = some w) (hfits : e.length ≤ p.spaceLeft) :
      Completes i p e (p.push (windowBytes w e.length))
        (e.finish statusOk e.length (.took i (windowBytes w e.length)))

theorem drainSlot_completes (h : drainSlot i p e = some (p', sent)) : e.pipe = i ∧ Completes i p e p' sent := by
  unfold drainSlot at h
  by_cases hi : e.pipe ≠ i
  · rw [if_pos hi] at h
    cases h
  rw [if_neg hi] at h
  refine ⟨not_not.mp hi, ?_⟩
  cases hk : e.kind with
  | read =>
    rw [hk] at h
    by_cases hready : p.buffered > 0 ∨ p.eof = true
    · rw [if_pos hready] at h
      by_cases hcount : readCount p e.length > 0
      · rw [if_pos hcount] at h
        cases hwin : e.window with
        | none =>
          rw [hwin] at h
          injection h with h
          obtain ⟨rfl, rfl⟩ := Prod.mk.inj h
          refine .nothing _ _ ?_ ?_
          · intro _
            decide
          · intro _ _
            rfl
        | some w =>
          rw [hwin] at h
          injection h with h
          obtain ⟨rfl, rfl⟩ := Prod.mk.inj h
          refine .read _ hk ?_
          unfold readCount
          omega
      · rw [if_neg hcount] at h
        injection h with h
        obtain ⟨rfl, rfl⟩ := Prod.mk.inj h
        refine .nothing _ _ ?_ ?_
        · intro hw
          rw [hk] at hw
          cases hw
        · intro _ _
          rfl
    · rw [if_neg hready] at h
      cases h
  | write =>
    rw [hk] at h
    by_cases hfits : p.spaceLeft ≥ e.length
    · rw [if_pos hfits] at h
      cases hwin : e.window with
      | none =>
        rw [hwin] at h
        injection h with h
        obtain ⟨rfl, rfl⟩ := Prod.mk.inj h
        refine .nothing _ _ ?_ ?_
        · intro _
          decide
        · intro hr
          rw [hk] at hr
          cases hr
      | some w =>
        rw [hwin] at h
        injection h with h
        obtain ⟨rfl, rfl⟩ := Prod.mk.inj h
        exact .write w hk hwin hfits
    · rw [if_neg hfits] at h
      cases h

theorem drainSlot_none (hi : e.pipe = i) (h : drainSlot i p e = none) :
    (e.kind = .read → p.buffered = 0 ∧ p.eof = false) ∧ (e.kind = .write → p.spaceLeft < e.length) := by
  unfold drainSlot at h
  rw [if_neg (not_not.mpr hi)] at h
  constructor
  · intro hk
    rw [hk] at h
    simp only [] at h
    by_cases hready : p.buffered > 0 ∨ p.eof = true
    · rw [if_pos hready] at h
      split at h
      · split at h <;> cases h
      · cases h
    · rw [not_or] at hready
      exact ⟨by omega, Bool.eq_false_iff.mpr hready.2⟩
  · intro hk
    rw [hk] at h
    simp only [] at h
    by_cases hfits : p.spaceLeft ≥ e.length
    · rw [if_pos hfits] at h
      split at h <;> cases h
    · omega

theorem windowBytes_length (w : Nat → UInt8) (n : Nat) : (windowBytes w n).length = n := by
  simp [windowBytes]

theorem push_spec {bytes : List UInt8} (hs : p.ring.Sound pipeBytes) (hfits : bytes.length ≤ p.spaceLeft) :
    (p.push bytes).contents = p.contents ++ bytes ∧ (p.push bytes).ring.Sound pipeBytes := by
  have hle := hs.count
  unfold Pipe.spaceLeft at hfits
  exact Circular.pushAll_spec bytes hs (by omega)

theorem pop_spec {n : Nat} (hs : p.ring.Sound pipeBytes) (hn : n ≤ p.buffered) :
    p.contents = p.popped n ++ (p.pop n).contents ∧ (p.popped n).length = n ∧ (p.pop n).ring.Sound pipeBytes :=
  Circular.popUpTo_spec n hs hn

theorem push_window {w : Nat → UInt8} {n : Nat} (hs : p.ring.Sound pipeBytes) (hfits : n ≤ p.spaceLeft) :
    (p.push (windowBytes w n)).contents = p.contents ++ windowBytes w n ∧
    (p.push (windowBytes w n)).ring.Sound pipeBytes :=
  push_spec hs (by rw [windowBytes_length]; exact hfits)

theorem readCount_le (p : Pipe) (n : Nat) : readCount p n ≤ p.buffered := by
  unfold readCount
  omega

theorem length_contents : p.contents.length = p.buffered := Circular.length_contents

/-- **A completion moves bytes from the ring to a reader, or from a writer to the ring.** -/
theorem Completes.flow (h : Completes i p e p' sent) (hs : p.ring.Sound pipeBytes) :
    p'.ring.Sound pipeBytes ∧ gave i sent ++ p'.contents = p.contents ++ (took i sent).flatMap Prod.snd := by
  cases h with
  | nothing => exact ⟨hs, by simp [Pending.finish, gave, took]⟩
  | read n _ hn =>
    obtain ⟨hcontents, -, hsound⟩ := pop_spec hs hn
    refine ⟨hsound, ?_⟩
    simp only [Pending.finish, gave, took, flatMap_cons, flatMap_nil, if_true, append_nil]
    exact hcontents.symm
  | write w _ _ hfits =>
    have hlen : (windowBytes w e.length).length ≤ p.spaceLeft := by
      rw [windowBytes_length]
      exact hfits
    obtain ⟨hcontents, hsound⟩ := push_spec hs hlen
    refine ⟨hsound, ?_⟩
    simp only [Pending.finish, gave, took, flatMap_cons, flatMap_nil, if_true, append_nil, nil_append]
    exact hcontents

theorem Completes.frame (h : Completes i p e p' sent) : p'.valid = p.valid ∧ p'.name = p.name ∧ p'.eof = p.eof := by
  cases h with
  | nothing => exact ⟨rfl, rfl, rfl⟩
  | read => exact ⟨rfl, rfl, rfl⟩
  | write => exact ⟨rfl, rfl, rfl⟩

/-- Whatever was completed, one reply is sent and one cap deleted, and both were the request's. -/
theorem Completes.sent_eq (h : Completes i p e p' sent) : ∃ status count io, sent = e.finish status count io ∧
    (io = .nothing ∨ (∃ bytes, io = .gave i bytes) ∨ ∃ bytes, io = .took i bytes) := by
  cases h with
  | nothing status count => exact ⟨status, count, .nothing, rfl, .inl rfl⟩
  | read n => exact ⟨_, _, _, rfl, .inr (.inl ⟨_, rfl⟩)⟩
  | write w => exact ⟨_, _, _, rfl, .inr (.inr ⟨_, rfl⟩)⟩

theorem finish_spent (e : Pending) (status count : Nat) (io : Io) (t : Nat) :
    spent t (e.finish status count io) = if e.ticket = t then [.reply e.reply, .buf e.buf] else [] := by
  by_cases ht : e.ticket = t
  · simp [Pending.finish, spent, ht]
  · simp [Pending.finish, spent, ht]

theorem Completes.spent_eq (h : Completes i p e p' sent) (t : Nat) :
    spent t sent = if e.ticket = t then [.reply e.reply, .buf e.buf] else [] := by
  obtain ⟨status, count, io, rfl, -⟩ := h.sent_eq
  exact finish_spent e status count io t

theorem Completes.elsewhere (h : Completes i p e p' sent) :
    (∀ j, j ≠ i → gave j sent = [] ∧ took j sent = []) ∧ ∀ j, Event.emptied j ∉ sent := by
  obtain ⟨status, count, io, rfl, hio⟩ := h.sent_eq
  constructor
  · intro j hj
    rcases hio with rfl | ⟨bytes, rfl⟩ | ⟨bytes, rfl⟩
    · simp [Pending.finish, gave, took]
    · simp [Pending.finish, gave, took, Ne.symm hj]
    · simp [Pending.finish, gave, took, Ne.symm hj]
  · intro j hmem
    simp [Pending.finish] at hmem

theorem Completes.took_eq (h : Completes i p e p' sent) : (took i sent = [] ∧ (p' = p ∨ e.kind = .read)) ∨
    ∃ w, e.kind = .write ∧ e.window = some w ∧ e.length ≤ p.spaceLeft ∧
      p' = p.push (windowBytes w e.length) ∧ took i sent = [(e.ticket, windowBytes w e.length)] := by
  cases h with
  | nothing => exact .inl ⟨by simp [Pending.finish, took], .inl rfl⟩
  | read n hk => exact .inl ⟨by simp [Pending.finish, took], .inr hk⟩
  | write w hk hwin hfits => exact .inr ⟨w, hk, hwin, hfits, rfl, by simp [Pending.finish, took]⟩

/-! ## Induction over a drain -/

section Induct

variable {slots : List (Option Pending)} {log : List Event}
  {P : Pipe → List (Option Pending) → List Event → Prop}

theorem drainPass_induct
    (hstep : ∀ p pre e rest log p' sent, P p (pre ++ some e :: rest) log → e.pipe = i → Completes i p e p' sent →
      P p' (pre ++ none :: rest) (log ++ sent)) (pre : List (Option Pending)) (h : P p (pre ++ slots) log) :
    P (drainPass i p slots).pipe (pre ++ (drainPass i p slots).slots) (log ++ (drainPass i p slots).log) := by
  induction slots generalizing p pre log with
  | nil => simpa [drainPass] using h
  | cons slot slots ih =>
    cases slot with
    | none =>
      have hnow : P p (pre ++ [none] ++ slots) log := by simpa using h
      have hnext := ih (pre ++ [none]) hnow
      simpa [drainPass] using hnext
    | some e =>
      cases hslot : drainSlot i p e with
      | none =>
        have hnow : P p (pre ++ [some e] ++ slots) log := by simpa using h
        have hnext := ih (pre ++ [some e]) hnow
        simpa [drainPass, hslot] using hnext
      | some r =>
        obtain ⟨p', sent⟩ := r
        obtain ⟨hi, hcomp⟩ := drainSlot_completes hslot
        have hnow : P p' (pre ++ [none] ++ slots) (log ++ sent) := by
          simpa using hstep p pre e slots log p' sent h hi hcomp
        have hnext := ih (pre ++ [none]) hnow
        simpa [drainPass, hslot] using hnext

/-- **What every completion keeps, a drain keeps.** -/
theorem drain_induct
    (hstep : ∀ p pre e rest log p' sent, P p (pre ++ some e :: rest) log → e.pipe = i → Completes i p e p' sent →
      P p' (pre ++ none :: rest) (log ++ sent)) (fuel : Nat) (h : P p slots log) :
    P (drain i fuel p slots).pipe (drain i fuel p slots).slots (log ++ (drain i fuel p slots).log) := by
  induction fuel generalizing p slots log with
  | zero =>
    rw [drain, append_nil]
    exact h
  | succ fuel ih =>
    have hpass := drainPass_induct hstep [] (by simpa using h)
    rw [drain]
    by_cases hprog : (drainPass i p slots).progress = true
    · simp only [if_pos hprog]
      rw [← append_assoc]
      exact ih hpass
    · simp only [if_neg hprog]
      exact hpass

end Induct

/-! ## The last pass -/

section Settled

variable {slots : List (Option Pending)}

/-- How many slots are in use. -/
def inUse (slots : List (Option Pending)) : Nat := slots.countP isSome

theorem drainPass_inUse (i : Nat) (p : Pipe) (slots : List (Option Pending)) :
    inUse (drainPass i p slots).slots + (if (drainPass i p slots).progress then 1 else 0) ≤
    inUse slots := by
  induction slots generalizing p with
  | nil => simp [drainPass, inUse]
  | cons slot slots ih =>
    cases slot with
    | none =>
      have hle := ih p
      exact hle
    | some e =>
      cases hslot : drainSlot i p e with
      | none =>
        have hle := ih p
        simp only [drainPass, hslot, inUse, countP_cons, isSome_some, if_true] at hle ⊢
        omega
      | some r =>
        have hle := ih r.1
        simp only [drainPass, hslot, inUse, countP_cons, isSome_some, isSome_none, if_true] at hle ⊢
        simp only [Bool.false_eq_true, if_false]
        omega

theorem drainPass_idle (h : (drainPass i p slots).progress = false) :
    (drainPass i p slots).pipe = p ∧ (drainPass i p slots).slots = slots ∧
      ∀ e, some e ∈ slots → drainSlot i p e = none := by
  induction slots with
  | nil => exact ⟨rfl, rfl, fun e he => by cases he⟩
  | cons slot slots ih =>
    cases slot with
    | none =>
      obtain ⟨hpipe, hslots, hnone⟩ := ih (by simpa [drainPass] using h)
      refine ⟨by simpa [drainPass] using hpipe, by simpa [drainPass] using hslots, ?_⟩
      intro e he
      rcases mem_cons.mp he with he | he
      · cases he
      · exact hnone e he
    | some f =>
      cases hslot : drainSlot i p f with
      | none =>
        obtain ⟨hpipe, hslots, hnone⟩ := ih (by simpa [drainPass, hslot] using h)
        refine ⟨by simpa [drainPass, hslot] using hpipe, by simpa [drainPass, hslot] using hslots, ?_⟩
        intro e he
        rcases mem_cons.mp he with he | he
        · injection he with he
          rw [he]
          exact hslot
        · exact hnone e he
      | some r => simp [drainPass, hslot] at h

/-- **A drain ends with nothing left to complete.** -/
theorem drain_settled (fuel : Nat) (hfuel : inUse slots < fuel) :
    ∀ e, some e ∈ (drain i fuel p slots).slots → drainSlot i (drain i fuel p slots).pipe e = none := by
  induction fuel generalizing p slots with
  | zero => omega
  | succ fuel ih =>
    rw [drain]
    cases hprog : (drainPass i p slots).progress with
    | true =>
      have hle := drainPass_inUse i p slots
      rw [hprog, if_pos rfl] at hle
      exact ih (by omega)
    | false =>
      obtain ⟨hpipe, hslots, hnone⟩ := drainPass_idle hprog
      simp only [Bool.false_eq_true, if_false, hpipe, hslots]
      exact hnone

theorem inUse_lt : inUse slots < slots.length + 1 := by
  have hle : inUse slots ≤ slots.length := countP_le_length
  omega

/-- The loop of `Drain_Pipe` ends with `d`: only its last pass makes no progress. -/
inductive Finishes (i : Nat) : Pipe → List (Option Pending) → Drained → Prop
  | last {p : Pipe} {slots : List (Option Pending)} (h : (drainPass i p slots).progress = false) :
      Finishes i p slots (drainPass i p slots)
  | again {p : Pipe} {slots : List (Option Pending)} {r : Drained}
      (h : (drainPass i p slots).progress = true)
      (rest : Finishes i (drainPass i p slots).pipe (drainPass i p slots).slots r) :
      Finishes i p slots ⟨r.pipe, r.slots, (drainPass i p slots).log ++ r.log, true⟩

/-- **The loop ends**: every pass but the last frees a slot. -/
theorem drain_finishes (fuel : Nat) (hfuel : inUse slots < fuel) :
    Finishes i p slots (drain i fuel p slots) := by
  induction fuel generalizing p slots with
  | zero => omega
  | succ fuel ih =>
    rw [drain]
    cases hprog : (drainPass i p slots).progress with
    | true =>
      have hle := drainPass_inUse i p slots
      rw [hprog, if_pos rfl] at hle
      exact .again hprog (ih (by omega))
    | false => exact .last hprog

end Settled

/-! ## The server's drain -/

variable {l : List Event} {s : Server}

/-- What a pending request of this kind waits for has not come. -/
def Pipe.Blocks (p : Pipe) (kind : PendingKind) (length : Nat) : Prop :=
  (kind = .read → p.buffered = 0 ∧ p.eof = false) ∧ (kind = .write → p.spaceLeft < length)

/-- What a drain of pipe `i` makes of a pipe and a table, and sends. -/
structure Drains (i : Nat) (p : Pipe) (slots : List (Option Pending)) (p' : Pipe) (slots' : List (Option Pending))
    (l : List Event) : Prop where
  sound : p'.ring.Sound pipeBytes
  frame : p'.valid = p.valid ∧ p'.name = p.name ∧ p'.eof = p.eof
  flow : gave i l ++ p'.contents = p.contents ++ (took i l).flatMap Prod.snd
  keeps : ∀ e, some e ∈ slots' → some e ∈ slots
  origin : ∀ ev ∈ l, ∃ e q q' sent, some e ∈ slots ∧ e.pipe = i ∧ Completes i q e q' sent ∧ ev ∈ sent
  caps : ∀ t, (spent t l ++ owed t slots').Perm (owed t slots)

theorem owed_mid (t : Nat) (pre rest : List (Option Pending)) (e : Pending) : (owed t (pre ++ some e :: rest)).Perm
      ((if e.ticket = t then [.reply e.reply, .buf e.buf] else []) ++ owed t (pre ++ none :: rest)) := by
  unfold owed
  simp only [flatMap_append, flatMap_cons, nil_append]
  exact perm_append_comm_assoc _ _ _

theorem Drains.refl {slots : List (Option Pending)} (hs : p.ring.Sound pipeBytes) : Drains i p slots p slots [] where
  sound := hs
  frame := ⟨rfl, rfl, rfl⟩
  flow := by simp [gave, took]
  keeps := fun _ he => he
  origin := fun ev hev => by cases hev
  caps := fun t => List.Perm.refl _

theorem Drains.step {slots pre rest : List (Option Pending)} {p0 : Pipe}
    (h : Drains i p0 slots p (pre ++ some e :: rest) l) (hi : e.pipe = i) (hc : Completes i p e p' sent) :
    Drains i p0 slots p' (pre ++ none :: rest) (l ++ sent) where
  sound := (hc.flow h.sound).1
  frame := by
    obtain ⟨h1, h2, h3⟩ := hc.frame
    obtain ⟨g1, g2, g3⟩ := h.frame
    exact ⟨h1.trans g1, h2.trans g2, h3.trans g3⟩
  flow := by
    rw [gave_append, took_append, flatMap_append, append_assoc, (hc.flow h.sound).2, ← append_assoc,
      h.flow, append_assoc]
  keeps := by
    intro f hf
    refine h.keeps f ?_
    rcases mem_append.mp hf with hf | hf
    · exact mem_append_left _ hf
    · rcases mem_cons.mp hf with hf | hf
      · cases hf
      · exact mem_append_right _ (mem_cons_of_mem _ hf)
  origin := by
    intro ev hev
    rcases mem_append.mp hev with hev | hev
    · exact h.origin ev hev
    · exact ⟨e, p, p', sent, h.keeps e (mem_append_right _ mem_cons_self), hi, hc, hev⟩
  caps := by
    intro t
    rw [spent_append, hc.spent_eq t, append_assoc]
    exact ((owed_mid t pre rest e).symm.append_left _).trans (h.caps t)

theorem drain_drains {slots : List (Option Pending)} (fuel : Nat) (hs : p.ring.Sound pipeBytes) :
    Drains i p slots (drain i fuel p slots).pipe (drain i fuel p slots).slots (drain i fuel p slots).log := by
  have hstep : ∀ q pre e rest log q' sent, Drains i p slots q (pre ++ some e :: rest) log → e.pipe = i →
      Completes i q e q' sent → Drains i p slots q' (pre ++ none :: rest) (log ++ sent) := by
    intro q pre e rest log q' sent h hi hc
    exact h.step hi hc
  exact by simpa using drain_induct hstep fuel (.refl hs)

/-- **Draining a pipe of the server.** -/
theorem drainPipe_spec (hp : s.pipes[i]? = some p) (hs : p.ring.Sound pipeBytes) :
    ∃ p' slots l, s.drainPipe i = { s with
        pipes := s.pipes.set i p'
        pending := slots
        log := s.log ++ l } ∧ Drains i p s.pending p' slots l ∧
      ∀ e, some e ∈ slots → e.pipe = i → p'.Blocks e.kind e.length := by
  refine ⟨_, _, _, ?_, drain_drains (s.pending.length + 1) hs, ?_⟩
  · unfold Server.drainPipe
    rw [hp]
  · intro e he hi
    exact drainSlot_none hi (drain_settled _ inUse_lt e he)

theorem drainPipe_clock : (s.drainPipe i).clock = s.clock := by
  unfold Server.drainPipe
  cases s.pipes[i]? <;> rfl

theorem Drains.elsewhere {slots slots' : List (Option Pending)} (h : Drains i p slots p' slots' l) :
    (∀ j, j ≠ i → gave j l = [] ∧ took j l = []) ∧ ∀ j, Event.emptied j ∉ l := by
  constructor
  · intro j hj
    constructor
    · refine flatMap_eq_nil_iff.mpr ?_
      intro ev hev
      obtain ⟨e, q, q', sent, -, -, hc, hmem⟩ := h.origin ev hev
      exact flatMap_eq_nil_iff.mp (hc.elsewhere.1 j hj).1 ev hmem
    · refine flatMap_eq_nil_iff.mpr ?_
      intro ev hev
      obtain ⟨e, q, q', sent, -, -, hc, hmem⟩ := h.origin ev hev
      exact flatMap_eq_nil_iff.mp (hc.elsewhere.1 j hj).2 ev hmem
  · intro j hmem
    obtain ⟨e, q, q', sent, -, -, hc, hin⟩ := h.origin _ hmem
    exact hc.elsewhere.2 j hin

end Aegir.Fileserver
