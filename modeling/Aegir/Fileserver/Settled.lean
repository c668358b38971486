/-
  Nobody waits in vain.

  Whenever the server is back at its receive loop, a used pending entry names a valid pipe, and what it waits
  for has not come yet: a read sees an empty pipe without end mark, a write one without room.  A step that
  touches a ring breaks this for that pipe alone, and the drain that follows restores it.
-/
import Aegir.Fileserver.PipeSteps
import Mathlib.Data.List.Induction

namespace Aegir.Fileserver

open Aegir.Lib List

/-! ## The invariant -/

variable {e : Pending} {grow : Bool} {pending pending' : List (Option Pending)}

/-- Rings are sound, and everyone who waits on a pipe other than `i` waits for something. -/
structure Server.SettledBut (s : Server) (i : Option Nat) : Prop where
  sound : ∀ (j : Nat) (p : Pipe), s.pipes[j]? = some p → p.ring.Sound pipeBytes
  waits : ∀ e : Pending, some e ∈ s.pending → ∃ p : Pipe, s.pipes[e.pipe]? = some p ∧ p.valid = true ∧
    (some e.pipe ≠ i → p.Blocks e.kind e.length)
  fits : ∀ e : Pending, some e ∈ s.pending → e.kind = .write → e.length ≤ pipeBytes

abbrev Server.Settled (s : Server) : Prop := s.SettledBut none

theorem pipe_lt {s : Server} {i : Nat} {p : Pipe} (hp : s.pipes[i]? = some p) : i < s.pipes.length :=
  (List.getElem?_eq_some_iff.mp hp).1

theorem modify_eq_set {α : Type*} {l : List α} {i : Nat} {x : α} (h : l[i]? = some x) (f : α → α) :
    l.modify i f = l.set i (f x) := by
  refine ext_getElem? ?_
  intro j
  rw [getElem?_modify, getElem?_set]
  by_cases hj : i = j
  · have hlt : i < l.length := (List.getElem?_eq_some_iff.mp h).1
    rw [if_pos hj, if_pos hlt, ← hj, h]
    simp
  · rw [if_neg hj]
    simp [hj]

theorem stash_split (h : stash pending e grow = some pending') : ∃ pre post, pending' = pre ++ some e :: post ∧
      (pending = pre ++ none :: post ∨ pending = pre ∧ post = []) := by
  unfold stash at h
  cases hfree : pending.findIdx? Option.isNone with
  | some k =>
    rw [hfree] at h
    injection h with h
    obtain ⟨hlt, hnone, -⟩ := findIdx?_eq_some_iff_getElem.mp hfree
    refine ⟨pending.take k, pending.drop (k + 1), ?_, .inl ?_⟩
    · rw [← h, set_eq_take_append_cons_drop, if_pos hlt]
    · have hget : pending[k] = none := Option.isNone_iff_eq_none.mp hnone
      rw [← hget, ← drop_eq_getElem_cons hlt, take_append_drop]
  | none =>
    rw [hfree] at h
    cases grow with
    | false => simp at h
    | true =>
      injection h with h
      exact ⟨pending, [], h.symm, .inr ⟨rfl, rfl⟩⟩

theorem mem_stash {f : Pending}
    (h : stash pending e grow = some pending') (hf : some f ∈ pending') : f = e ∨ some f ∈ pending := by
  obtain ⟨pre, post, rfl, hold⟩ := stash_split h
  rcases mem_append.mp hf with hf | hf
  · rcases hold with rfl | ⟨rfl, -⟩
    · exact .inr (mem_append_left _ hf)
    · exact .inr hf
  · rcases mem_cons.mp hf with hf | hf
    · injection hf with hf
      exact .inl hf
    · rcases hold with rfl | ⟨-, rfl⟩
      · exact .inr (mem_append_right _ (mem_cons_of_mem _ hf))
      · cases hf

theorem mem_failPipePendings {s : Server} {i : Nat} (h : some e ∈ (s.failPipePendings i).pending) :
    some e ∈ s.pending ∧ e.pipe ≠ i := by
  obtain ⟨slot, hslot, heq⟩ := mem_map.mp h
  cases slot with
  | none => cases heq
  | some f =>
    by_cases hi : f.pipe = i
    · simp [hi] at heq
    · simp only [Option.bind_some, if_neg hi, Option.some.injEq] at heq
      rw [← heq]
      exact ⟨hslot, hi⟩

/-! ## Operations -/

variable {s s₁ s₂ : Server} {m : Message} {i : Nat} {p p' : Pipe}

theorem Server.SettledBut.of_same {j : Option Nat} (h : s.SettledBut j) (hpipes : s₁.pipes = s.pipes)
    (hpending : s₁.pending = s.pending) : s₁.SettledBut j := by
  constructor
  · rw [hpipes]
    exact h.sound
  · rw [hpipes, hpending]
    exact h.waits
  · rw [hpending]
    exact h.fits

/-- The pipe `i` has become `q`, and nothing else has changed. -/
structure Server.Became (s t : Server) (i : Nat) (p q : Pipe) : Prop where
  pipes : t.pipes = s.pipes.set i q
  pending : t.pending = s.pending
  log : t.log = s.log ∨ t.log = s.log ++ [.emptied i]
  clock : t.clock = s.clock
  name : q.name = p.name
  valid : q.valid = p.valid
  sound : q.ring.Sound pipeBytes

theorem Server.Changed.became {t : Server} {q : Pipe} {count : Nat} {io : Io} (hp : s.pipes[i]? = some p)
    (hs : p.ring.Sound pipeBytes) (hc : s.Changed m i p t q count io) : s.Became t i p q := by
  cases hc with
  | write w hop hmove hwin hfits => exact ⟨rfl, rfl, .inl rfl, rfl, rfl, rfl, (push_window hs hfits).2⟩
  | read => exact ⟨rfl, rfl, .inl rfl, rfl, rfl, rfl, (pop_spec hs (readCount_le p _)).2.2⟩
  | truncate => exact ⟨modify_eq_set hp _, rfl, .inr rfl, rfl, rfl, rfl, Circular.clear_sound (by decide)⟩
  | close => exact ⟨modify_eq_set hp _, rfl, .inl rfl, rfl, rfl, rfl, hs⟩

theorem Server.Became.get (hb : s.Became s₁ i p p') (hp : s.pipes[i]? = some p) : s₁.pipes[i]? = some p' := by
  rw [hb.pipes]
  exact List.getElem?_set_self (List.getElem?_eq_some_iff.mp hp).1

theorem Server.SettledBut.set (h : s.Settled) (hp : s.pipes[i]? = some p) (hb : s.Became s₁ i p p') :
    s₁.SettledBut (some i) := by
  have hlt := pipe_lt hp
  constructor
  · rw [hb.pipes]
    intro j q hq
    by_cases hj : i = j
    · rw [← hj, getElem?_set_self hlt] at hq
      injection hq with hq
      rw [← hq]
      exact hb.sound
    · rw [getElem?_set_ne hj] at hq
      exact h.sound j q hq
  · rw [hb.pipes, hb.pending]
    intro e he
    obtain ⟨q, hq, hqv, hblocks⟩ := h.waits e he
    by_cases hi : i = e.pipe
    · rw [← hi] at hq ⊢
      rw [hp] at hq
      injection hq with hq
      refine ⟨p', getElem?_set_self hlt, ?_, fun hne => absurd rfl hne⟩
      rw [hb.valid, hq]
      exact hqv
    · refine ⟨q, ?_, hqv, fun _ => hblocks (by simp)⟩
      rw [getElem?_set_ne hi]
      exact hq
  · rw [hb.pending]
    exact h.fits

/-- **A drain settles its pipe.** -/
theorem Server.SettledBut.drainPipe (h : s.SettledBut (some i)) (hp : s.pipes[i]? = some p) :
    (s.drainPipe i).Settled := by
  have hlt := pipe_lt hp
  obtain ⟨p', slots, l, heq, hd, hblocks⟩ := drainPipe_spec hp (h.sound i p hp)
  rw [heq]
  constructor
  · intro j q hq
    by_cases hj : i = j
    · rw [← hj, getElem?_set_self hlt] at hq
      injection hq with hq
      rw [← hq]
      exact hd.sound
    · rw [getElem?_set_ne hj] at hq
      exact h.sound j q hq
  · intro e he
    obtain ⟨q, hq, hqv, hother⟩ := h.waits e (hd.keeps e he)
    by_cases hi : i = e.pipe
    · rw [← hi] at hq ⊢
      rw [hp] at hq
      injection hq with hq
      refine ⟨p', getElem?_set_self hlt, ?_, fun _ => hblocks e he hi.symm⟩
      rw [hd.frame.1, hq]
      exact hqv
    · refine ⟨q, ?_, hqv, fun _ => hother ?_⟩
      · rw [getElem?_set_ne hi]
        exact hq
      · intro hsome
        injection hsome with hsome
        exact hi hsome.symm
  · intro e he
    exact h.fits e (hd.keeps e he)

theorem Server.Settled.ready (h : s.Settled) (hr : s.Ready m s₁) : s₁.Settled := by
  cases hr with
  | same => exact h
  | named => exact h.of_same rfl rfl
  | made name i pipes _ hmade =>
    obtain ⟨-, -, hold, hframe, q, hq, -, hsound, -⟩ := findOrCreate_made hmade
    constructor
    · intro j r hr
      by_cases hj : j = i
      · rw [hj] at hr
        rw [hq] at hr
        injection hr with hr
        rw [← hr]
        exact hsound
      · rw [hframe j hj] at hr
        exact h.sound j r hr
    · intro e he
      obtain ⟨r, hr, hrv, hblocks⟩ := h.waits e he
      have hne : e.pipe ≠ i := by
        -- the new pipe was not valid before
        intro heq
        rw [heq] at hr
        rw [hold r hr] at hrv
        cases hrv
      refine ⟨r, ?_, hrv, hblocks⟩
      rw [hframe _ hne]
      exact hr
    · exact h.fits

theorem Server.Settled.step (h : s.Settled) (hs : s.Step m s₂) : s₂.Settled := by
  cases hs with
  | answer => exact h.of_same rfl rfl
  | defer kind i p htarget hp hop hmove hwait hlen pending hstash =>
    obtain ⟨q, name, hq, hvalid, -, -⟩ := target_some htarget
    rw [hp] at hq
    injection hq with hq
    rw [← hq] at hvalid
    constructor
    · exact h.sound
    · intro e he
      rcases mem_stash hstash he with rfl | he
      · exact ⟨p, hp, hvalid, fun _ => hwait⟩
      · exact h.waits e he
    · intro e he hk
      rcases mem_stash hstash he with rfl | he
      · exact hlen hk
      · exact h.fits e he hk
  | drain i p q t count io htarget hp hchange =>
    have hb := hchange.became hp (h.sound i p hp)
    exact ((h.set hp hb).drainPipe (hb.get hp)).of_same rfl rfl
  | delete i hop htarget =>
    obtain ⟨p, name, hp, -, -, -⟩ := target_some htarget
    have hlt := pipe_lt hp
    constructor
    · intro j q hq
      simp only [Server.answer, Server.emit, Server.destroy, Server.failPipePendings] at hq
      rw [modify_eq_set hp] at hq
      by_cases hj : i = j
      · rw [← hj, getElem?_set_self hlt] at hq
        injection hq with hq
        rw [← hq]
        exact Circular.clear_sound (by decide)
      · rw [getElem?_set_ne hj] at hq
        exact h.sound j q hq
    · intro e he
      obtain ⟨hmem, hne⟩ := mem_failPipePendings he
      obtain ⟨q, hq, hqv, hblocks⟩ := h.waits e hmem
      refine ⟨q, ?_, hqv, hblocks⟩
      simp only [Server.answer, Server.emit, Server.destroy, Server.failPipePendings]
      rw [modify_eq_set hp, getElem?_set_ne (Ne.symm hne)]
      exact hq
    · intro e he
      exact h.fits e (mem_failPipePendings he).1

/-- **Every turn ends settled.** -/
theorem Server.Settled.turn (h : s.Settled) (m : Message) : (s.turn m).Settled := by
  obtain ⟨s₁, hready, hstep⟩ := serve_step s m
  exact ((h.ready hready).step hstep).of_same rfl rfl

theorem start_settled : start.Settled := by
  constructor
  · intro j p hp
    cases hp
  · intro e he
    cases he
  · intro e he
    cases he

theorem after_append (ms : List Message) (m : Message) : after (ms ++ [m]) = (after ms).turn m := by
  unfold after
  rw [foldl_append]
  rfl

/-- **At the receive loop, everybody who waits waits for something that can still come.** -/
theorem after_settled (ms : List Message) : (after ms).Settled := by
  induction ms using reverseRecOn with
  | nil => exact start_settled
  | append_singleton ms m ih =>
    rw [after_append]
    exact ih.turn m

/-- **No pipe request is stranded.**  After every sequence of requests a used pending entry names a valid
    pipe; a pending read sees no byte and no end mark, a pending write less room than it needs, but it would
    fit into the empty ring.  And every call of `Drain_Pipe`, on any ring and any table, ends. -/
theorem no_request_stranded (ms : List Message) :
    (∀ e : Pending, some e ∈ (after ms).pending →
      ∃ p : Pipe, (after ms).pipes[e.pipe]? = some p ∧ p.valid = true ∧
        (e.kind = .read → p.buffered = 0 ∧ p.eof = false) ∧
        (e.kind = .write → p.spaceLeft < e.length ∧ e.length ≤ pipeBytes)) ∧
    ∀ (i : Nat) (p : Pipe) (slots : List (Option Pending)),
      Finishes i p slots (drain i (slots.length + 1) p slots) := by
  have h := after_settled ms
  constructor
  · intro e he
    obtain ⟨p, hp, hvalid, hblocks⟩ := h.waits e he
    obtain ⟨hread, hwrite⟩ := hblocks (by simp)
    exact ⟨p, hp, hvalid, hread, fun hk => ⟨hwrite hk, h.fits e he hk⟩⟩
  · intro i p slots
    exact drain_finishes (slots.length + 1) inUse_lt

/-!
## Every cap is used once

A request hands over a reply cap, and a read or a write a buffer cap as well.  At every moment they are
either still with the pending entry of the request, or the reply was sent through the one and the other was
deleted, exactly once each.  `Balanced` says so as one equation between lists, up to order.
-/

/-! ## The equation -/

/-- The caps that a message brings. -/
def Message.caps (m : Message) : List Cap :=
  (if (m.op = .read ∨ m.op = .write) ∧ m.buf ≠ 0 then [.buf m.buf] else []) ++ [.reply m.reply]

/-- The caps of the `t`-th message. -/
def capsOf (ms : List Message) (t : Nat) : List Cap :=
  match ms[t]? with
  | some m => m.caps
  | none => []

/-- **The books balance.** -/
def Server.Balanced (s : Server) (ms : List Message) : Prop :=
  ∀ t, (spent t s.log ++ owed t s.pending).Perm (capsOf ms t)

theorem capsOf_append (ms : List Message) (m : Message) (t : Nat) :
    capsOf (ms ++ [m]) t = capsOf ms t ++ if ms.length = t then m.caps else [] := by
  unfold capsOf
  by_cases hlt : t < ms.length
  · rw [List.getElem?_append_left hlt, if_neg (by omega), List.append_nil]
  · by_cases heq : ms.length = t
    · rw [if_pos heq, ← heq, List.getElem?_concat_length, List.getElem?_eq_none (Nat.le_refl _)]
      rfl
    · rw [if_neg heq, List.getElem?_eq_none (by rw [List.length_append, List.length_singleton]; omega),
        List.getElem?_eq_none (by omega)]
      rfl

/-! ## Operations -/

variable {s s₁ s₂ : Server} {ms : List Message} {m : Message} {i : Nat} {p : Pipe}

theorem spent_emptied (t : Nat) (log : List Event) (j : Nat) : spent t (log ++ [.emptied j]) = spent t log := by
  rw [spent_append]
  exact List.append_nil _

section

variable (h : s.Balanced ms)

include h

theorem Server.Balanced.of_same (hlog : ∀ t, spent t s₁.log = spent t s.log)
    (hpending : s₁.pending = s.pending) : s₁.Balanced ms := by
  intro t
  rw [hlog t, hpending]
  exact h t

theorem Server.Balanced.ready (hr : s.Ready m s₁) : s₁.Balanced ms := by
  cases hr with
  | same => exact h
  | named => exact h
  | made name i pipes _ _ => exact h.of_same (fun t => spent_emptied t _ _) rfl

theorem Server.Balanced.drainPipe (hp : s.pipes[i]? = some p) (hs : p.ring.Sound pipeBytes) :
    (s.drainPipe i).Balanced ms := by
  obtain ⟨p', slots, l, heq, hd, -⟩ := drainPipe_spec hp hs
  intro t
  rw [heq]
  rw [spent_append, List.append_assoc]
  exact ((hd.caps t).append_left _).trans (h t)

theorem Server.Balanced.failPipePendings : (s.failPipePendings i).Balanced ms := by
  have hslots : ∀ (t : Nat) (slots : List (Option Pending)) (told : Option Pending → List Event), told none = [] →
      (∀ e, told (some e) = if e.pipe = i then e.finish statusNotFound 0 .nothing else []) →
      (spent t (slots.flatMap told) ++
        owed t (slots.map fun slot => slot.bind fun e => if e.pipe = i then none else some e)).Perm (owed t slots) := by
    intro t slots told hnone hsome
    induction slots with
    | nil => exact List.Perm.refl _
    | cons slot slots ih =>
      cases slot with
      | none => simpa [owed, hnone] using ih
      | some e =>
        by_cases hi : e.pipe = i
        · simp only [List.flatMap_cons, List.map_cons, Option.bind_some, hsome, if_pos hi, spent_append, finish_spent,
            List.append_assoc]
          exact ih.append_left _
        · simp only [List.flatMap_cons, List.map_cons, Option.bind_some, hsome, if_neg hi, List.nil_append]
          refine (List.perm_append_comm_assoc _ _ _).trans ?_
          exact ih.append_left _
  intro t
  unfold Server.failPipePendings
  simp only [spent_append, List.append_assoc]
  exact ((hslots t s.pending _ rfl fun _ => rfl).append_left _).trans (h t)

theorem Server.Balanced.answer (hclock : s.clock = ms.length) (status count : Nat) (io : Io) :
    (s.answer m status count io).Balanced (ms ++ [m]) := by
  have hpart : ∀ t, spent t ((if (m.op = .read ∨ m.op = .write) ∧ m.buf ≠ 0 then [.deleted s.clock m.buf] else []) ++
      [.replied s.clock m.reply status count io]) = if ms.length = t then m.caps else [] := by
    intro t
    unfold Message.caps
    by_cases ht : ms.length = t
    · split <;> simp [spent, hclock, ht]
    · split <;> simp [spent, hclock, ht]
  intro t
  show (spent t (s.log ++ _) ++ owed t s.pending).Perm _
  rw [spent_append, hpart t, capsOf_append, List.append_assoc]
  refine (List.Perm.append_left _ List.perm_append_comm).trans ?_
  rw [← List.append_assoc]
  exact (h t).append_right _

theorem Server.Balanced.defer (hclock : s.clock = ms.length) {kind : PendingKind}
    (hop : m.op.kind = some kind) (hmove : m.Movable) {grow : Bool} {pending : List (Option Pending)}
    (hstash : stash s.pending (s.deferred m kind i) grow = some pending) :
    ({ s with pending := pending } : Server).Balanced (ms ++ [m]) := by
  have hio : m.op = .read ∨ m.op = .write := by
    cases hm : m.op with
    | read => exact .inl rfl
    | write => exact .inr rfl
    | _ =>
      rw [hm] at hop
      cases hop
  have hcaps : m.caps = [.buf m.buf, .reply m.reply] := by
    unfold Message.caps
    rw [if_pos ⟨hio, hmove.buf⟩]
    rfl
  intro t
  obtain ⟨pre, post, rfl, hold⟩ := stash_split hstash
  have howed : (owed t (pre ++ none :: post)).Perm (owed t s.pending) := by
    rcases hold with heq | ⟨heq, rfl⟩
    · rw [heq]
    · rw [heq]
      unfold owed
      rw [List.flatMap_append]
      exact (List.append_nil _).symm ▸ List.Perm.refl _
  rw [capsOf_append]
  refine ((owed_mid t pre post (s.deferred m kind i)).append_left _).trans ?_
  refine ((howed.append_left _).append_left _).trans ?_
  refine (List.perm_append_comm_assoc _ _ _).trans ?_
  refine List.perm_append_comm.trans ?_
  refine (h t).append ?_
  show ((if s.clock = t then [Cap.reply m.reply, Cap.buf m.buf] else [])).Perm _
  rw [hclock, hcaps]
  by_cases ht : ms.length = t
  · rw [if_pos ht, if_pos ht]
    exact List.Perm.swap _ _ _
  · rw [if_neg ht, if_neg ht]

theorem Server.Balanced.step (hsettled : s.Settled) (hclock : s.clock = ms.length)
    (hs : s.Step m s₂) : s₂.Balanced (ms ++ [m]) := by
  cases hs with
  | answer => exact h.answer hclock _ _ _
  | defer kind i p htarget hp hop hmove hwait hlen pending hstash => exact h.defer hclock hop hmove hstash
  | drain i p q t count io htarget hp hchange =>
    have hb := hchange.became hp (hsettled.sound i p hp)
    have hset : t.Balanced ms := by
      refine h.of_same (fun _ => ?_) hb.pending
      rcases hb.log with hlog | hlog <;> rw [hlog]
      exact spent_emptied _ _ _
    have hdrain := hset.drainPipe (hb.get hp) hb.sound
    exact hdrain.answer (drainPipe_clock.trans (hb.clock.trans hclock)) _ _ _
  | delete i hop htarget =>
    have hdestroy : ((s.failPipePendings i).destroy i).Balanced ms :=
      (h.failPipePendings (i := i)).of_same (fun t => spent_emptied t _ _) rfl
    exact hdestroy.answer hclock _ _ _

end

/-! ## Runs -/

theorem start_balanced : start.Balanced [] := fun _ => List.Perm.refl _

theorem Server.Balanced.turn (h : s.Balanced ms) (hsettled : s.Settled) (hclock : s.clock = ms.length)
    (m : Message) : (s.turn m).Balanced (ms ++ [m]) := by
  obtain ⟨s₁, hready, hstep⟩ := serve_step s m
  have hclock1 : s₁.clock = ms.length := by
    cases hready <;> exact hclock
  exact ((h.ready hready).step (hsettled.ready hready) hclock1 hstep).of_same (fun _ => rfl) rfl

theorem after_clock (ms : List Message) : (after ms).clock = ms.length := by
  induction ms using List.reverseRecOn with
  | nil => rfl
  | append_singleton ms m ih =>
    rw [after_append, List.length_append, List.length_singleton, ← ih]
    rfl

/-- **In every run the books balance.** -/
theorem after_balanced (ms : List Message) : (after ms).Balanced ms := by
  induction ms using List.reverseRecOn with
  | nil => exact start_balanced
  | append_singleton ms m ih =>
    rw [after_append]
    exact ih.turn (after_settled ms) (after_clock ms) m

end Aegir.Fileserver
