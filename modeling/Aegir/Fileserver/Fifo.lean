/-
  A pipe is a FIFO stream, as long as writes come in turn.

  `accepted` are the writes acknowledged since the ring was last emptied, `delivered` the bytes handed to
  readers since then, both read off the log.  The invariant `Stream` says that what was delivered and what is
  in the ring are the accepted writes one after the other, in the order of their arrival.  It needs
  `orderly`: a write that passes an earlier one is there before it.
-/
import Aegir.Fileserver.Turns

namespace Aegir.Fileserver

open Aegir.Lib List

/-! ## Streams -/

/-- The log since the ring of pipe `i` was last emptied. -/
def sinceEmptied (i : Nat) (log : List Event) : List Event :=
  log.foldl (fun acc ev => if ev = .emptied i then [] else acc ++ [ev]) []

def delivered (i : Nat) (log : List Event) : List UInt8 := gave i (sinceEmptied i log)

def accepted (i : Nat) (log : List Event) : List (Nat × List UInt8) := took i (sinceEmptied i log)

theorem sinceEmptied_append {i : Nat} {l : List Event} (h : Event.emptied i ∉ l) (log : List Event) :
    sinceEmptied i (log ++ l) = sinceEmptied i log ++ l := by
  induction l using reverseRecOn with
  | nil => rw [append_nil, append_nil]
  | append_singleton l ev ih =>
    rw [mem_append, not_or] at h
    have hne : ev ≠ .emptied i := fun heq => h.2 (mem_singleton.mpr heq.symm)
    rw [← append_assoc, ← append_assoc, ← ih h.1]
    unfold sinceEmptied
    rw [foldl_append]
    simp only [foldl_cons, foldl_nil, if_neg hne]

theorem sinceEmptied_emptied (i : Nat) (log : List Event) : sinceEmptied i (log ++ [.emptied i]) = [] := by
  unfold sinceEmptied
  simp

theorem delivered_append {i : Nat} {l : List Event} (h : Event.emptied i ∉ l) (log : List Event) :
    delivered i (log ++ l) = delivered i log ++ gave i l := by
  unfold delivered
  rw [sinceEmptied_append h, gave_append]

theorem accepted_append {i : Nat} {l : List Event} (h : Event.emptied i ∉ l) (log : List Event) :
    accepted i (log ++ l) = accepted i log ++ took i l := by
  unfold accepted
  rw [sinceEmptied_append h, took_append]

/-- A request that named the pipe `i`. -/
def Server.Named (s : Server) (m : Message) (i : Nat) : Prop :=
  ∃ name p, m.path = some name ∧ s.pipes[i]? = some p ∧ p.matches name = true

/-- Where an accepted write comes from. -/
def Server.Source (s : Server) (ms : List Message) (i : Nat) (a : Nat × List UInt8) : Prop :=
  ∃ m w, ms[a.1]? = some m ∧ m.op = .write ∧ m.window = some w ∧ a.2 = windowBytes w m.length ∧ s.Named m i

/-- **The invariant of a pipe.** -/
structure Server.Stream (s : Server) (ms : List Message) (i : Nat) : Prop where
  flow : ∀ p, s.pipes[i]? = some p → delivered i s.log ++ p.contents = (accepted i s.log).flatMap Prod.snd
  lead : delivered i s.log <+: (accepted i s.log).flatMap Prod.snd
  source : ∀ a ∈ accepted i s.log, s.Source ms i a
  sorted : (accepted i s.log).Pairwise fun a b => a.1 < b.1
  before : ∀ a ∈ accepted i s.log, ∀ v ∈ waiting i s.pending, a.1 < v.ticket

/-- What a message is turned into when it is deferred. -/
def Message.entry (m : Message) (kind : PendingKind) (i t : Nat) : Pending :=
  ⟨kind, i, m.reply, m.buf, m.length, m.window, t⟩

/-- Pending entries are the deferred messages. -/
def Server.Traced (s : Server) (ms : List Message) : Prop :=
  ∀ e, some e ∈ s.pending → ∃ m kind, ms[e.ticket]? = some m ∧ m.op.kind = some kind ∧
    e = m.entry kind e.pipe e.ticket ∧ s.Named m e.pipe

/-- What a reply says is true. -/
def Honest (ms : List Message) : Event → Prop
  | .replied t _ status count io => ∃ m, ms[t]? = some m ∧ (io ≠ .nothing → status = statusOk) ∧
      (m.op = .write → status = statusOk →
        ∃ i w, m.window = some w ∧ io = .took i (windowBytes w m.length) ∧ count = m.length) ∧
      (m.op = .read → status = statusOk → (io = .nothing ∧ count = 0) ∨
        ∃ i bytes, io = .gave i bytes ∧ count = bytes.length)
  | _ => True

/-! ## How streams move -/

variable {s s₁ s₂ s' : Server} {ms ms' : List Message} {m : Message} {i j : Nat} {p p' : Pipe}
  {l : List Event}

/-- The messages stay where they are. -/
def Later (ms ms' : List Message) : Prop := ∀ (t : Nat) (m : Message), ms[t]? = some m → ms'[t]? = some m

theorem Later.refl : Later ms ms := fun _ _ h => h

theorem Later.append : Later ms (ms ++ [m]) := by
  intro t m' h
  rw [List.getElem?_append_left (List.getElem?_eq_some_iff.mp h).1]
  exact h

theorem Server.Named.of_pipe (h : s.Named m i) (hp : s.pipes[i]? = some p) (hp' : s'.pipes[i]? = some p')
    (hname : p'.name = p.name) : s'.Named m i := by
  obtain ⟨name, q, hpath, hq, hmatch⟩ := h
  rw [hp] at hq
  injection hq with hq
  refine ⟨name, p', hpath, hp', ?_⟩
  unfold Pipe.matches at hmatch ⊢
  rw [hname, hq]
  exact hmatch

theorem Server.Named.of_same (h : s.Named m i) (hp : s'.pipes[i]? = s.pipes[i]?) : s'.Named m i := by
  obtain ⟨name, q, hpath, hq, hmatch⟩ := h
  exact ⟨name, q, hpath, hp.trans hq, hmatch⟩

theorem Server.Stream.elsewhere (h : s.Stream ms i) (hpipe : s'.pipes[i]? = s.pipes[i]?) (hlog : s'.log = s.log ++ l)
    (hquiet : Event.emptied i ∉ l) (hgave : gave i l = []) (htook : took i l = [])
    (hwait : ∀ v ∈ waiting i s'.pending, v ∈ waiting i s.pending)
    (hms : Later ms ms') : s'.Stream ms' i := by
  have hd : delivered i s'.log = delivered i s.log := by
    rw [hlog, delivered_append hquiet, hgave, append_nil]
  have ha : accepted i s'.log = accepted i s.log := by
    rw [hlog, accepted_append hquiet, htook, append_nil]
  constructor
  · intro p hp
    rw [hd, ha]
    exact h.flow p (hpipe ▸ hp)
  · rw [hd, ha]
    exact h.lead
  · intro a hmem
    rw [ha] at hmem
    obtain ⟨m, w, hm, hop, hwin, hbytes, hnamed⟩ := h.source a hmem
    exact ⟨m, w, hms _ _ hm, hop, hwin, hbytes, hnamed.of_same hpipe⟩
  · rw [ha]
    exact h.sorted
  · rw [ha]
    intro a hmem v hv
    exact h.before a hmem v (hwait v hv)

theorem Server.Stream.emptied (hlog : s'.log = s.log ++ [.emptied i])
    (hpipe : ∀ p, s'.pipes[i]? = some p → p.contents = []) : s'.Stream ms i := by
  have hd : delivered i s'.log = [] := by
    unfold delivered
    rw [hlog, sinceEmptied_emptied]
    rfl
  have ha : accepted i s'.log = [] := by
    unfold accepted
    rw [hlog, sinceEmptied_emptied]
    rfl
  constructor
  · intro p hp
    rw [hd, ha, hpipe p hp]
    rfl
  · rw [hd]
    exact List.nil_prefix
  · rw [ha]
    intro a hmem
    cases hmem
  · rw [ha]
    exact List.Pairwise.nil
  · rw [ha]
    intro a hmem
    cases hmem

theorem Server.Stream.move (h : s.Stream ms i) (hp : s.pipes[i]? = some p) (hp' : s'.pipes[i]? = some p')
    (hname : p'.name = p.name) (hlog : s'.log = s.log ++ l) (hquiet : Event.emptied i ∉ l)
    (hflow : gave i l ++ p'.contents = p.contents ++ (took i l).flatMap Prod.snd)
    (hsource : ∀ a ∈ took i l, s'.Source ms' i a) (horder : InOrder (took i l) (waiting i s'.pending))
    (hafter : ∀ a ∈ accepted i s.log, ∀ b ∈ took i l, a.1 < b.1)
    (hwait : ∀ v ∈ waiting i s'.pending, v ∈ waiting i s.pending)
    (hms : Later ms ms') : s'.Stream ms' i := by
  have hd : delivered i s'.log = delivered i s.log ++ gave i l := by
    rw [hlog, delivered_append hquiet]
  have ha : accepted i s'.log = accepted i s.log ++ took i l := by
    rw [hlog, accepted_append hquiet]
  have hall : delivered i s'.log ++ p'.contents = (accepted i s'.log).flatMap Prod.snd := by
    rw [hd, ha, append_assoc, hflow, ← append_assoc, h.flow p hp, flatMap_append]
  constructor
  · intro q hq
    rw [hp'] at hq
    injection hq with hq
    rw [← hq]
    exact hall
  · exact ⟨p'.contents, hall⟩
  · rw [ha]
    intro a hmem
    rcases mem_append.mp hmem with hmem | hmem
    · obtain ⟨m, w, hm, hop, hwin, hbytes, hnamed⟩ := h.source a hmem
      exact ⟨m, w, hms _ _ hm, hop, hwin, hbytes, hnamed.of_pipe hp hp' hname⟩
    · exact hsource a hmem
  · rw [ha]
    exact pairwise_append.mpr ⟨h.sorted, horder.sorted, hafter⟩
  · rw [ha]
    intro a hmem v hv
    rcases mem_append.mp hmem with hmem | hmem
    · exact h.before a hmem v (hwait v hv)
    · exact horder.before a hmem v hv

/-! ## One step -/

variable {e : Pending} {w : Nat → UInt8} {kind : PendingKind}

/-- What `answer` adds to the log. -/
def parting (s : Server) (m : Message) (status count : Nat) (io : Io) : List Event :=
  (if (m.op = .read ∨ m.op = .write) ∧ m.buf ≠ 0 then [.deleted s.clock m.buf] else []) ++
    [.replied s.clock m.reply status count io]

theorem parting_quiet (s : Server) (m : Message) (status count : Nat) (io : Io) (j : Nat) :
    Event.emptied j ∉ parting s m status count io := by
  unfold parting
  split <;> simp

theorem gave_parting (s : Server) (m : Message) (status count : Nat) (io : Io) (j : Nat) :
    gave j (parting s m status count io) = match io with
      | .gave i bytes => if i = j then bytes else []
      | _ => [] := by
  unfold parting
  split <;> cases io <;> simp [gave]

theorem took_parting (s : Server) (m : Message) (status count : Nat) (io : Io) (j : Nat) :
    took j (parting s m status count io) = match io with
      | .took i bytes => if i = j then [(s.clock, bytes)] else []
      | _ => [] := by
  unfold parting
  split <;> cases io <;> simp [took]

theorem Server.Stream.answer (h : s.Stream ms j) (status count : Nat) :
    (s.answer m status count .nothing).Stream (ms ++ [m]) j :=
  h.elsewhere rfl rfl (parting_quiet s m status count .nothing j) (gave_parting s m status count .nothing j)
    (took_parting s m status count .nothing j) (fun _ hv => hv) .append

theorem Server.Stream.ready (h : s.Stream ms j) (hr : s.Ready m s₁) : s₁.Stream ms j := by
  cases hr with
  | same => exact h
  | named => exact h.elsewhere rfl (append_nil _).symm (by simp) rfl rfl (fun _ hv => hv) .refl
  | made name i pipes _ hmade =>
    obtain ⟨-, -, -, hframe, q, hq, -, -, hempty, -⟩ := findOrCreate_made hmade
    by_cases hj : j = i
    · subst hj
      refine .emptied rfl ?_
      intro p hp
      rw [hq] at hp
      injection hp with hp
      rw [← hp]
      exact hempty
    · exact h.elsewhere (hframe j hj) rfl (by simp [hj]) rfl rfl (fun _ hv => hv) .refl

theorem Server.Stream.past (h : s.Stream ms i) {a : Nat × List UInt8} (ha : a ∈ accepted i s.log) :
    a.1 < ms.length := by
  obtain ⟨m, w, hm, -⟩ := h.source a ha
  exact (List.getElem?_eq_some_iff.mp hm).1

theorem Server.Traced.source (h : s.Traced ms) (he : some e ∈ s.pending)
    (hi : e.pipe = i) (hk : e.kind = .write) (hwin : e.window = some w) (hp : s.pipes[i]? = some p)
    (hp' : s'.pipes[i]? = some p') (hname : p'.name = p.name) (hms : Later ms ms') :
    s'.Source ms' i (e.ticket, windowBytes w e.length) := by
  obtain ⟨m, kind, hm, hop, heq, hnamed⟩ := h e he
  have hkind : kind = .write := by
    rw [heq] at hk
    exact hk
  have hmop : m.op = .write := by
    rw [hkind] at hop
    cases hmo : m.op with
    | write => rfl
    | read =>
      rw [hmo] at hop
      cases hop
    | _ =>
      rw [hmo] at hop
      cases hop
  have hmwin : m.window = some w := by
    rw [heq] at hwin
    exact hwin
  have hlen : e.length = m.length := by
    rw [heq]
    rfl
  rw [hi] at hnamed
  refine ⟨m, w, hms _ _ hm, hmop, hmwin, ?_, hnamed.of_pipe hp hp' hname⟩
  rw [hlen]

theorem Server.Stream.drainPipe (h : ∀ j, s.Stream ms j) (htr : s.Traced ms) (hp : s.pipes[i]? = some p)
    (hs : p.ring.Sound pipeBytes) (hkind : OnlyWrites i s.pending ∨ waiting i s.pending = [])
    (hturn : inTurn p.spaceLeft [] (waiting i s.pending) = true) : ∀ j, (s.drainPipe i).Stream ms j := by
  obtain ⟨p', slots, l, heq, hd, horder, hfrom⟩ := drainPipe_inTurn hp hs hkind hturn
  have hlt := pipe_lt hp
  rw [heq]
  intro j
  by_cases hj : j = i
  · subst hj
    have hp' : (s.pipes.set j p')[j]? = some p' := getElem?_set_self hlt
    refine (h j).move hp hp' hd.frame.2.1 rfl (hd.elsewhere.2 j) hd.flow ?_ horder ?_ (hd.keeps_waiting j) .refl
    · intro a ha
      obtain ⟨e, w, he, hi, hk, hwin, rfl⟩ := hd.mem_took ha
      exact htr.source he hi hk hwin hp hp' hd.frame.2.1 .refl
    · intro a ha b hb
      obtain ⟨v, hv, hvb⟩ := hfrom b hb
      rw [← hvb]
      exact (h j).before a ha v hv
  · exact (h j).elsewhere (getElem?_set_ne (Ne.symm hj)) rfl (hd.elsewhere.2 j) (hd.elsewhere.1 j hj).1
      (hd.elsewhere.1 j hj).2 (hd.keeps_waiting j) .refl

theorem target_named (htarget : s.target m = some i) (hp : s.pipes[i]? = some p) (hp' : s'.pipes[i]? = some p')
    (hname : p'.name = p.name) : s'.Named m i := by
  obtain ⟨q, name, hq, -, hpath, hmatch⟩ := target_some htarget
  exact Server.Named.of_pipe ⟨name, q, hpath, hq, hmatch⟩ hp hp' hname

/-- A drain that the answer to a message follows moves the streams as far as the two add to the log. -/
theorem Server.Stream.drained {q : Pipe} {slots : List (Option Pending)} {status count : Nat} {io : Io}
    (h : ∀ j, s.Stream ms j) (hp : s.pipes[i]? = some p) (hname : q.name = p.name)
    (hd : Drains i q s.pending p' slots l)
    (helse : ∀ j, j ≠ i → gave j (parting s m status count io) = [] ∧ took j (parting s m status count io) = [])
    (hflow : gave i (l ++ parting s m status count io) ++ p'.contents =
      p.contents ++ (took i (l ++ parting s m status count io)).flatMap Prod.snd)
    (hsource : ∀ t : Server, t.pipes[i]? = some p' → p'.name = p.name →
      ∀ a ∈ took i (l ++ parting s m status count io), t.Source (ms ++ [m]) i a)
    (horder : InOrder (took i (l ++ parting s m status count io)) (waiting i slots))
    (hafter : ∀ a ∈ accepted i s.log, ∀ b ∈ took i (l ++ parting s m status count io), a.1 < b.1) (j : Nat) :
    (({ s.setPipe i q with
        pipes := (s.setPipe i q).pipes.set i p'
        pending := slots
        log := s.log ++ l } : Server).answer m status count io).Stream (ms ++ [m]) j := by
  have hlt := pipe_lt hp
  have hlog : (({ s.setPipe i q with
        pipes := (s.setPipe i q).pipes.set i p'
        pending := slots
        log := s.log ++ l } : Server).answer m status count io).log =
      s.log ++ (l ++ parting s m status count io) := by
    rw [← append_assoc]
    rfl
  have hquiet : Event.emptied j ∉ l ++ parting s m status count io := by
    intro hmem
    rcases mem_append.mp hmem with hmem | hmem
    · exact hd.elsewhere.2 j hmem
    · exact parting_quiet s m status count io j hmem
  by_cases hj : j = i
  · subst hj
    have hp' : ((s.pipes.set j q).set j p')[j]? = some p' := by
      refine getElem?_set_self ?_
      rw [length_set]
      exact hlt
    have hname' : p'.name = p.name := hd.frame.2.1.trans hname
    exact (h j).move hp hp' hname' hlog hquiet hflow (hsource _ hp' hname') horder hafter
      (hd.keeps_waiting j) .append
  · refine (h j).elsewhere ?_ hlog hquiet ?_ ?_ (hd.keeps_waiting j) .append
    · show ((s.pipes.set i _).set i p')[j]? = s.pipes[j]?
      rw [getElem?_set_ne (Ne.symm hj), getElem?_set_ne (Ne.symm hj)]
    · rw [gave_append, (hd.elsewhere.1 j hj).1, (helse j hj).1]
      rfl
    · rw [took_append, (hd.elsewhere.1 j hj).2, (helse j hj).2]
      rfl

theorem Server.Stream.write (h : ∀ j, s.Stream ms j) (hset : s.Settled) (hclock : s.clock = ms.length) (htarget : s.target m = some i) (hp : s.pipes[i]? = some p) (hop : m.op = .write)
    (hwin : m.window = some w) (hfits : m.length ≤ p.spaceLeft) (hnone : waiting i s.pending = []) :
    ∀ j, (((s.setPipe i (p.push (windowBytes w m.length))).drainPipe i).answer m statusOk m.length
      (.took i (windowBytes w m.length))).Stream (ms ++ [m]) j := by
  obtain ⟨hcontents, hsound⟩ := push_window (hset.sound i p hp) hfits
  have hlt := pipe_lt hp
  have hpush : (s.setPipe i (p.push (windowBytes w m.length))).pipes[i]? = some (p.push (windowBytes w m.length)) :=
    getElem?_set_self hlt
  have hnone' : waiting i (s.setPipe i (p.push (windowBytes w m.length))).pending = [] := hnone
  obtain ⟨p', slots, l, heq, hd, -, -⟩ := drainPipe_inTurn hpush hsound (.inr hnone') (by rw [hnone']; rfl)
  have htook : took i l = [] := hd.took_nil hnone'
  have hwait : waiting i slots = [] := by
    refine eq_nil_iff_forall_not_mem.mpr ?_
    intro v hv
    have hmem := hd.keeps_waiting i v hv
    rw [hnone'] at hmem
    cases hmem
  have hall : took i (l ++ parting s m statusOk m.length (.took i (windowBytes w m.length))) =
      [(s.clock, windowBytes w m.length)] := by
    rw [took_append, htook, took_parting]
    simp
  rw [heq]
  refine Server.Stream.drained h hp rfl hd (fun j hj => ?_) ?_ ?_ ?_ ?_
  · rw [gave_parting, took_parting]
    simp [Ne.symm hj]
  · rw [hall, gave_append, gave_parting, append_nil, hd.flow, htook, flatMap_nil, append_nil, hcontents]
    simp
  · intro t ht hname a ha
    rw [hall, mem_singleton] at ha
    rw [ha]
    refine ⟨m, w, ?_, hop, hwin, rfl, target_named htarget hp ht hname⟩
    rw [hclock]
    exact getElem?_concat_length
  · rw [hall]
    refine ⟨pairwise_singleton _ _, ?_⟩
    intro a _ v hv
    rw [hwait] at hv
    cases hv
  · intro a ha b hb
    rw [hall, mem_singleton] at hb
    rw [hb, hclock]
    exact (h i).past ha

/-- A read that finds bytes: they come out, waiting writers may fill the room, and it is answered. -/
theorem Server.Stream.read (h : ∀ j, s.Stream ms j) (hset : s.Settled) (htr : s.Traced ms) (hp : s.pipes[i]? = some p)
    (hsome : 0 < p.buffered)
    (hturn : inTurn (p.spaceLeft + readCount p m.length) [] (waiting i s.pending) = true) :
    ∀ j, (((s.setPipe i (p.pop (readCount p m.length))).drainPipe i).answer m statusOk
      (p.popped (readCount p m.length)).length (.gave i (p.popped (readCount p m.length)))).Stream (ms ++ [m]) j := by
  have hle := readCount_le p m.length
  generalize readCount p m.length = n at hle hturn ⊢
  obtain ⟨hcontents, hlen, hsound⟩ := pop_spec (hset.sound i p hp) hle
  have hlt := pipe_lt hp
  have hpop : (s.setPipe i (p.pop n)).pipes[i]? = some (p.pop n) := getElem?_set_self hlt
  have honly : OnlyWrites i s.pending := by
    intro e he hi
    cases hk : e.kind with
    | write => rfl
    | read =>
      -- a reader would wait for the bytes that are there
      obtain ⟨q, hq, -, hblocks⟩ := hset.waits e he
      rw [hi, hp] at hq
      injection hq with hq
      have hempty := ((hblocks (by simp)).1 hk).1
      rw [← hq] at hempty
      omega
  have hspace : (p.pop n).spaceLeft = p.spaceLeft + n := by
    have hcount := congrArg length hcontents
    rw [length_append, hlen, length_contents, length_contents] at hcount
    have hbound := (hset.sound i p hp).count
    unfold Pipe.buffered at hcount
    unfold Pipe.spaceLeft
    omega
  obtain ⟨p', slots, l, heq, hd, horder, hfrom⟩ :=
    drainPipe_inTurn hpop hsound (.inl honly) (by rw [hspace]; exact hturn)
  have hgave : gave i l = [] := hd.gave_nil honly
  have hall : took i (l ++ parting s m statusOk (p.popped n).length (.gave i (p.popped n))) = took i l := by
    rw [took_append, took_parting, append_nil]
  rw [heq]
  refine Server.Stream.drained h hp rfl hd (fun j hj => ?_) ?_ ?_ ?_ ?_
  · rw [gave_parting, took_parting]
    simp [Ne.symm hj]
  · have hflow := hd.flow
    rw [hgave, nil_append] at hflow
    rw [hall, gave_append, gave_parting, hgave, nil_append, hflow, hcontents, append_assoc]
    simp
  · intro t ht hname a ha
    rw [hall] at ha
    obtain ⟨e, w, he, hi, hk, hwin, rfl⟩ := hd.mem_took ha
    exact htr.source he hi hk hwin hp ht hname .append
  · rw [hall]
    exact horder
  · intro a ha b hb
    rw [hall] at hb
    obtain ⟨v, hv, hvb⟩ := hfrom b hb
    rw [← hvb]
    exact (h i).before a ha v hv

theorem Server.Stream.defer (h : s.Stream ms j) (hclock : s.clock = ms.length) {grow : Bool}
    {pending : List (Option Pending)} (hstash : stash s.pending (s.deferred m kind i) grow = some pending) :
    ({ s with pending := pending } : Server).Stream (ms ++ [m]) j := by
  refine ⟨h.flow, h.lead, ?_, h.sorted, ?_⟩
  · intro a ha
    obtain ⟨m', w, hm, hop, hwin, hbytes, hnamed⟩ := h.source a ha
    exact ⟨m', w, Later.append _ _ hm, hop, hwin, hbytes, hnamed⟩
  · intro a ha v hv
    obtain ⟨hmem, hboth⟩ := mem_waiting.mp hv
    rcases mem_stash hstash hmem with rfl | hmem
    · show a.1 < s.clock
      rw [hclock]
      exact h.past ha
    · exact h.before a ha v (mem_waiting.mpr ⟨hmem, hboth⟩)

theorem Server.Stream.failPipePendings (h : s.Stream ms j) : (s.failPipePendings i).Stream ms j := by
  have hsent : ∀ told : Option Pending → List Event, told none = [] →
      (∀ e, told (some e) = if e.pipe = i then e.finish statusNotFound 0 .nothing else []) →
      ∀ ev ∈ s.pending.flatMap told,
        (∃ t r, ev = .replied t r statusNotFound 0 .nothing) ∨ ∃ t b, ev = .deleted t b := by
    intro told hnone hsome ev hev
    obtain ⟨slot, -, hmem⟩ := mem_flatMap.mp hev
    cases slot with
    | none =>
      rw [hnone] at hmem
      cases hmem
    | some e =>
      rw [hsome] at hmem
      split at hmem
      · rcases mem_cons.mp hmem with rfl | hmem
        · exact .inl ⟨_, _, rfl⟩
        · exact .inr ⟨_, _, mem_singleton.mp hmem⟩
      · cases hmem
  refine h.elsewhere rfl rfl ?_ ?_ ?_ ?_ .refl
  · intro hmem
    rcases hsent _ rfl (fun _ => rfl) _ hmem with ⟨t, r, heq⟩ | ⟨t, b, heq⟩ <;> cases heq
  · refine flatMap_eq_nil_iff.mpr ?_
    intro ev hev
    rcases hsent _ rfl (fun _ => rfl) ev hev with ⟨t, r, rfl⟩ | ⟨t, b, rfl⟩ <;> rfl
  · refine flatMap_eq_nil_iff.mpr ?_
    intro ev hev
    rcases hsent _ rfl (fun _ => rfl) ev hev with ⟨t, r, rfl⟩ | ⟨t, b, rfl⟩ <;> rfl
  · intro v hv
    obtain ⟨hmem, hboth⟩ := mem_waiting.mp hv
    exact mem_waiting.mpr ⟨(mem_failPipePendings hmem).1, hboth⟩

theorem Server.Stream.emptiedAt (h : s.Stream ms j) (hp : s.pipes[i]? = some p) (hlog : s'.log = s.log ++ [.emptied i])
    (hpipes : s'.pipes = s.pipes.set i p') (hempty : p'.contents = []) (hpending : s'.pending = s.pending) :
    s'.Stream ms j := by
  have hlt := pipe_lt hp
  by_cases hj : j = i
  · subst hj
    refine .emptied hlog ?_
    intro q hq
    rw [hpipes, getElem?_set_self hlt] at hq
    injection hq with hq
    rw [← hq]
    exact hempty
  · refine h.elsewhere ?_ hlog (by simp [hj]) rfl rfl (fun v hv => hpending ▸ hv) .refl
    rw [hpipes, getElem?_set_ne (Ne.symm hj)]

theorem Server.Traced.of_same (h : s.Traced ms) (hpending : ∀ e, some e ∈ s'.pending → some e ∈ s.pending)
    (hnames : ∀ e, some e ∈ s'.pending → ∀ m, s.Named m e.pipe → s'.Named m e.pipe) (hms : Later ms ms') :
    s'.Traced ms' := by
  intro e he
  obtain ⟨m, kind, hm, hop, heq, hnamed⟩ := h e (hpending e he)
  exact ⟨m, kind, hms _ _ hm, hop, heq, hnames e he m hnamed⟩

theorem named_set (hp : s.pipes[i]? = some p) (hpipes : s'.pipes = s.pipes.set i p') (hname : p'.name = p.name)
    (m : Message) (j : Nat) (h : s.Named m j) : s'.Named m j := by
  have hlt := pipe_lt hp
  by_cases hj : i = j
  · subst hj
    refine h.of_pipe hp ?_ hname
    rw [hpipes]
    exact getElem?_set_self hlt
  · refine h.of_same ?_
    rw [hpipes]
    exact getElem?_set_ne hj

/-! ## All steps -/

section

variable (h : s.Traced ms)

include h

theorem Server.Traced.ready (hset : s.Settled) (hr : s.Ready m s₁) : s₁.Traced ms := by
  cases hr with
  | same => exact h
  | named => exact h.of_same (fun _ he => he) (fun _ _ _ hn => hn.of_same rfl) .refl
  | made name i pipes _ hmade =>
    obtain ⟨-, -, hold, hframe, -⟩ := findOrCreate_made hmade
    refine h.of_same (fun _ he => he) ?_ .refl
    intro e he m' hn
    refine hn.of_same (hframe _ ?_)
    intro heq
    obtain ⟨q, hq, hvalid, -⟩ := hset.waits e he
    rw [heq] at hq
    rw [hold q hq] at hvalid
    cases hvalid

theorem Server.Traced.drainPipe (hp : s.pipes[i]? = some p) (hs : p.ring.Sound pipeBytes) :
    (s.drainPipe i).Traced ms := by
  obtain ⟨p', slots, l, heq, hd, -⟩ := drainPipe_spec hp hs
  rw [heq]
  exact h.of_same hd.keeps (fun e _ m' hn => named_set hp rfl hd.frame.2.1 m' e.pipe hn) .refl

theorem Server.Traced.became (hp : s.pipes[i]? = some p) (hb : s.Became s' i p p') : s'.Traced ms :=
  h.of_same (fun _ he => hb.pending ▸ he) (fun e _ m' hn => named_set hp hb.pipes hb.name m' e.pipe hn) .refl

theorem Server.Traced.answer (status count : Nat) (io : Io) :
    (s.answer m status count io).Traced (ms ++ [m]) :=
  h.of_same (fun _ he => he) (fun _ _ _ hn => hn.of_same rfl) .append

theorem Server.Traced.step (hset : s.Settled) (hclock : s.clock = ms.length) (hs : s.Step m s₂) :
    s₂.Traced (ms ++ [m]) := by
  cases hs with
  | answer => exact h.answer _ _ _
  | defer kind i p htarget hp hop hmove hwait hlen pending hstash =>
    intro e he
    rcases mem_stash hstash he with rfl | he
    · refine ⟨m, kind, ?_, hop, rfl, target_named htarget hp hp rfl⟩
      show (ms ++ [m])[s.clock]? = some m
      rw [hclock]
      exact getElem?_concat_length
    · obtain ⟨m', kind', hm, hop', heq, hnamed⟩ := h e he
      exact ⟨m', kind', Later.append _ _ hm, hop', heq, hnamed.of_same rfl⟩
  | drain i p q t count io htarget hp hchange =>
    have hb := hchange.became hp (hset.sound i p hp)
    exact ((h.became hp hb).drainPipe (hb.get hp) hb.sound).answer _ _ _
  | delete i hop htarget =>
    obtain ⟨p, -, hp, -⟩ := target_some htarget
    have hgone : ((s.failPipePendings i).destroy i).Traced ms := by
      refine h.of_same (fun e he => (mem_failPipePendings he).1) ?_ .refl
      intro e he m' hn
      refine hn.of_same ?_
      show (s.pipes.modify i _)[e.pipe]? = _
      rw [modify_eq_set hp, getElem?_set_ne (Ne.symm (mem_failPipePendings he).2)]
    exact hgone.answer _ _ _

end

/-- **One step in turn keeps every stream.** -/
theorem Server.Stream.step (h : ∀ j, s.Stream ms j) (hset : s.Settled) (htr : s.Traced ms)
    (hclock : s.clock = ms.length) (horderly : s.orderly m = true) (hs : s.Step m s₂) :
    ∀ j, s₂.Stream (ms ++ [m]) j := by
  cases hs with
  | answer status count => exact fun j => (h j).answer status count
  | defer kind i p htarget hp hop hmove hwait hlen pending hstash => exact fun j => (h j).defer hclock hstash
  | delete i hop htarget =>
    obtain ⟨p, -, hp, -⟩ := target_some htarget
    intro j
    have hfail : (s.failPipePendings i).Stream ms j := (h j).failPipePendings
    have hgone : ((s.failPipePendings i).destroy i).Stream ms j :=
      hfail.emptiedAt hp rfl (modify_eq_set hp _) Circular.contents_clear rfl
    exact hgone.answer _ _
  | drain i p q t count io htarget hp hchange =>
    have hb := hchange.became hp (hset.sound i p hp)
    have htr' := htr.became hp hb
    cases hchange with
    | write w hop hmove hwin hfits =>
      exact Server.Stream.write h hset hclock htarget hp hop hwin hfits
        (orderly_write horderly htarget hp hop hmove hwin hfits)
    | read w hop hmove hwin hsome =>
      exact Server.Stream.read h hset htr hp hsome (orderly_read horderly htarget hp hop hmove hwin hsome)
    | truncate hop =>
      have hturn : inTurn pipeBytes [] (waiting i s.pending) = true := orderly_truncate horderly htarget hp hop
      have hdrain := Server.Stream.drainPipe (fun j => (h j).emptiedAt hp rfl hb.pipes Circular.contents_clear rfl) htr'
        (hb.get hp) hb.sound (hset.oneKind i) hturn
      exact fun j => (hdrain j).answer _ _
    | close hop =>
      have heof : ∀ j, (s.setEof i).Stream ms j := by
        intro j
        by_cases hj : i = j
        · subst hj
          refine ⟨?_, (h i).lead, ?_, (h i).sorted, (h i).before⟩
          · intro q hq
            rw [hb.get hp] at hq
            injection hq with hq
            rw [← hq]
            exact (h i).flow p hp
          · intro a ha
            obtain ⟨m', w, hm, hop', hwin, hbytes, hnamed⟩ := (h i).source a ha
            exact ⟨m', w, hm, hop', hwin, hbytes, hnamed.of_pipe hp (hb.get hp) rfl⟩
        · refine (h j).elsewhere ?_ (append_nil _).symm (by simp) rfl rfl (fun _ hv => hv) .refl
          rw [hb.pipes, getElem?_set_ne hj]
      -- nobody who waits fits: the ring has not changed
      have hlong : ∀ v ∈ waiting i s.pending, ({ p with eof := true } : Pipe).spaceLeft < v.length := by
        intro v hv
        obtain ⟨hmem, hvi, hvk⟩ := mem_waiting.mp hv
        obtain ⟨q, hq, -, hblocks⟩ := hset.waits v hmem
        rw [hvi, hp] at hq
        injection hq with hq
        rw [show ({ p with eof := true } : Pipe).spaceLeft = q.spaceLeft by rw [← hq]; rfl]
        exact (hblocks (by simp)).2 hvk
      have hdrain := Server.Stream.drainPipe heof htr' (hb.get hp) hb.sound (hset.oneKind i) (inTurn_of_long hlong)
      exact fun j => (hdrain j).answer _ _

/-! ## Honest replies -/

theorem honest_completes {sent : List Event} (hc : Completes i p e p' sent)
    (hm : ms[e.ticket]? = some m) (hop : m.op.kind = some kind) (he : e = m.entry kind e.pipe e.ticket) :
    ∀ ev ∈ sent, Honest ms ev := by
  have hkind : e.kind = kind := by rw [he]; rfl
  have hlen : e.length = m.length := by rw [he]; rfl
  have hwindow : e.window = m.window := by rw [he]; rfl
  have hwrite : m.op = .write → e.kind = .write := by
    intro h
    rw [h] at hop
    injection hop with hop
    rw [hkind, ← hop]
  have hread : m.op = .read → e.kind = .read := by
    intro h
    rw [h] at hop
    injection hop with hop
    rw [hkind, ← hop]
  have hdeleted : Honest ms (.deleted e.ticket e.buf) := trivial
  cases hc with
  | nothing status count hw hr =>
    intro ev hev
    rcases mem_cons.mp hev with rfl | hev
    · refine ⟨m, hm, fun hne => absurd rfl hne, ?_, ?_⟩
      · intro h hok
        exact absurd hok (hw (hwrite h))
      · intro h hok
        exact .inl ⟨rfl, hr (hread h) hok⟩
    · rw [mem_singleton.mp hev]
      exact hdeleted
  | read n hk hn =>
    intro ev hev
    rcases mem_cons.mp hev with rfl | hev
    · refine ⟨m, hm, fun _ => rfl, ?_, ?_⟩
      · intro h _
        rw [hwrite h] at hk
        cases hk
      · intro _ _
        exact .inr ⟨_, _, rfl, rfl⟩
    · rw [mem_singleton.mp hev]
      exact hdeleted
  | write w hk hwin hfits =>
    intro ev hev
    rcases mem_cons.mp hev with rfl | hev
    · refine ⟨m, hm, fun _ => rfl, ?_, ?_⟩
      · intro _ _
        refine ⟨i, w, ?_, ?_, hlen⟩
        · rw [← hwindow]
          exact hwin
        · rw [hlen]
      · intro h _
        rw [hread h] at hk
        cases hk
    · rw [mem_singleton.mp hev]
      exact hdeleted

theorem honest_later {ev : Event} (h : Honest ms ev) (hms : Later ms ms') : Honest ms' ev := by
  cases ev with
  | replied t r status count io =>
    obtain ⟨m, hm, hrest⟩ := h
    exact ⟨m, hms _ _ hm, hrest⟩
  | deleted t b => trivial
  | emptied j => trivial

/-- All events of the log are honest. -/
def Server.Honest (s : Server) (ms : List Message) : Prop := ∀ ev ∈ s.log, Fileserver.Honest ms ev

section

variable (h : s.Honest ms)

include h

theorem Server.Honest.drainPipe (htr : s.Traced ms) (hp : s.pipes[i]? = some p)
    (hs : p.ring.Sound pipeBytes) : (s.drainPipe i).Honest ms := by
  obtain ⟨p', slots, l, heq, hd, -⟩ := drainPipe_spec hp hs
  rw [heq]
  intro ev hev
  rcases mem_append.mp hev with hev | hev
  · exact h ev hev
  · obtain ⟨e, q, q', sent, he, -, hc, hin⟩ := hd.origin ev hev
    obtain ⟨m, kind, hm, hop, hentry, -⟩ := htr e he
    exact honest_completes hc hm hop hentry ev hin

theorem Server.Honest.emptied (hlog : s'.log = s.log ++ [.emptied i]) : s'.Honest ms := by
  intro ev hev
  rw [hlog] at hev
  rcases mem_append.mp hev with hev | hev
  · exact h ev hev
  · rw [mem_singleton.mp hev]
    trivial

theorem Server.Honest.answer (hclock : s.clock = ms.length) {status count : Nat} {io : Io}
    (hio : io ≠ .nothing → status = statusOk)
    (hw : m.op = .write → status = statusOk →
      ∃ i w, m.window = some w ∧ io = .took i (windowBytes w m.length) ∧ count = m.length)
    (hr : m.op = .read → status = statusOk → (io = .nothing ∧ count = 0) ∨
      ∃ i bytes, io = .gave i bytes ∧ count = bytes.length) :
    (s.answer m status count io).Honest (ms ++ [m]) := by
  intro ev hev
  rcases mem_append.mp hev with hev | hev
  · exact honest_later (h ev hev) .append
  · rcases mem_append.mp hev with hev | hev
    · split at hev
      · rw [mem_singleton.mp hev]
        trivial
      · cases hev
    · rw [mem_singleton.mp hev]
      refine ⟨m, ?_, hio, hw, hr⟩
      rw [hclock]
      exact getElem?_concat_length

theorem Server.Honest.answer_other (hclock : s.clock = ms.length)
    (hop : ¬ (m.op = .read ∨ m.op = .write)) (status count : Nat) :
    (s.answer m status count .nothing).Honest (ms ++ [m]) :=
  h.answer hclock (fun hne => absurd rfl hne) (fun hw => absurd (.inr hw) hop) (fun hr => absurd (.inl hr) hop)

theorem Server.Honest.ready (hr : s.Ready m s₁) : s₁.Honest ms := by
  cases hr with
  | same => exact h
  | named => exact h
  | made => exact h.emptied rfl

theorem Server.Honest.failPipePendings (htr : s.Traced ms) : (s.failPipePendings i).Honest ms := by
  intro ev hev
  rcases mem_append.mp hev with hev | hev
  · exact h ev hev
  · obtain ⟨slot, hslot, hmem⟩ := mem_flatMap.mp hev
    cases slot with
    | none => cases hmem
    | some e =>
      obtain ⟨m, kind, hm, -, -, -⟩ := htr e hslot
      have hbad : statusNotFound ≠ statusOk := by decide
      simp only [] at hmem
      split at hmem
      · rcases mem_cons.mp hmem with rfl | hmem
        · exact ⟨m, hm, fun hne => absurd rfl hne, fun _ hok => absurd hok hbad, fun _ hok => absurd hok hbad⟩
        · rw [mem_singleton.mp hmem]
          trivial
      · cases hmem

theorem Server.Honest.step (hset : s.Settled) (htr : s.Traced ms) (hclock : s.clock = ms.length)
    (hs : s.Step m s₂) : s₂.Honest (ms ++ [m]) := by
  cases hs with
  | answer status count hw hr =>
    refine h.answer hclock (fun hne => absurd rfl hne) ?_ ?_
    · intro hop hok
      exact absurd hok (hw hop)
    · intro hop hok
      exact .inl ⟨rfl, hr hop hok⟩
  | defer kind i p htarget hp hop hmove hwait hlen pending hstash =>
    intro ev hev
    exact honest_later (h ev hev) .append
  | drain i p q t count io htarget hp hchange =>
    have hb := hchange.became hp (hset.sound i p hp)
    have hput : t.Honest ms := by
      rcases hb.log with hlog | hlog
      · intro ev hev
        exact h ev (hlog ▸ hev)
      · exact h.emptied hlog
    have hdrain := hput.drainPipe (htr.became hp hb) (hb.get hp) hb.sound
    refine hdrain.answer (drainPipe_clock.trans (hb.clock.trans hclock)) (fun _ => rfl) ?_ ?_
    · intro hw _
      cases hchange with
      | write w hop hmove hwin hfits => exact ⟨i, w, hwin, rfl, rfl⟩
      | read w hop | truncate hop | close hop => cases hop.symm.trans hw
    · intro hr _
      cases hchange with
      | read => exact .inr ⟨i, _, rfl, rfl⟩
      | write w hop | truncate hop | close hop => cases hop.symm.trans hr
  | delete i hop htarget =>
    have hgone : ((s.failPipePendings i).destroy i).Honest ms := (h.failPipePendings htr).emptied rfl
    exact hgone.answer_other hclock (by rw [hop]; decide) _ _

end

/-! ## Runs -/

/-- The last turn of a run, taken apart. -/
theorem after_step (ms : List Message) (m : Message) : ∃ s₁ s₂, (after ms).Ready m s₁ ∧ s₁.Step m s₂ ∧
    s₁.clock = ms.length ∧ s₁.Settled ∧ after (ms ++ [m]) = { s₂ with clock := (after ms).clock + 1 } := by
  obtain ⟨s₁, hready, hstep⟩ := serve_step (after ms) m
  have hclock : s₁.clock = ms.length := by
    rw [← after_clock ms]
    cases hready <;> rfl
  exact ⟨s₁, _, hready, hstep, hclock, (after_settled ms).ready hready, after_append ms m⟩

theorem after_traced (ms : List Message) : (after ms).Traced ms := by
  induction ms using reverseRecOn with
  | nil =>
    intro e he
    cases he
  | append_singleton ms m ih =>
    obtain ⟨s₁, s₂, hready, hstep, hclock, hset, heq⟩ := after_step ms m
    have hnext := (ih.ready (after_settled ms) hready).step hset hclock hstep
    rw [heq]
    exact hnext.of_same (fun _ he => he) (fun _ _ _ hn => hn.of_same rfl) .refl

theorem after_honest (ms : List Message) : (after ms).Honest ms := by
  induction ms using reverseRecOn with
  | nil =>
    intro ev hev
    cases hev
  | append_singleton ms m ih =>
    obtain ⟨s₁, s₂, hready, hstep, hclock, hset, heq⟩ := after_step ms m
    have hnext := (ih.ready hready).step hset ((after_traced ms).ready (after_settled ms) hready) hclock hstep
    rw [heq]
    exact fun ev hev => hnext ev hev

/-- Every message of the run is served in turn. -/
def Orderly (ms : List Message) : Prop :=
  ∀ (k : Nat) (m : Message), ms[k]? = some m → (after (ms.take k)).orderly m = true

theorem Orderly.init (h : Orderly (ms ++ [m])) : Orderly ms ∧ (after ms).orderly m = true := by
  constructor
  · intro k m' hk
    have hlt : k < ms.length := (List.getElem?_eq_some_iff.mp hk).1
    have hget : (ms ++ [m])[k]? = some m' := by
      rw [getElem?_append_left hlt]
      exact hk
    have horderly := h k m' hget
    rw [take_append_of_le_length (Nat.le_of_lt hlt)] at horderly
    exact horderly
  · have horderly := h ms.length m getElem?_concat_length
    rw [take_left] at horderly
    exact horderly

theorem after_stream (ms : List Message) (h : Orderly ms) : ∀ j, (after ms).Stream ms j := by
  induction ms using reverseRecOn with
  | nil =>
    intro j
    refine ⟨?_, List.nil_prefix, ?_, List.Pairwise.nil, ?_⟩
    · intro p hp
      cases hp
    · intro a ha
      cases ha
    · intro a ha
      cases ha
  | append_singleton ms m ih =>
    obtain ⟨hinit, hlast⟩ := h.init
    obtain ⟨s₁, s₂, hready, hstep, hclock, hset, heq⟩ := after_step ms m
    have hnext := Server.Stream.step (fun j => (ih hinit j).ready hready) hset
      ((after_traced ms).ready (after_settled ms) hready) hclock (orderly_ready (after_settled ms) hready hlast) hstep
    intro j
    rw [heq]
    exact (hnext j).elsewhere rfl (append_nil _).symm (by simp) rfl rfl (fun _ hv => hv) .refl

/-- What was delivered after `k` messages, and the ring not emptied since. -/
def SameRing (ms : List Message) (k i : Nat) : Prop :=
  ∃ l, (after ms).log = (after (ms.take k)).log ++ l ∧ Event.emptied i ∉ l

/-- **The pipes of a run are reliable FIFO streams.** -/
structure FifoPipes (ms : List Message) : Prop where
  /-- What readers have, at any earlier time, is a prefix of the writes acknowledged until now. -/
  prefixes : ∀ k i, k ≤ ms.length → SameRing ms k i →
    delivered i (after (ms.take k)).log <+: (accepted i (after ms).log).flatMap Prod.snd
  /-- They were acknowledged in the order in which they arrived. -/
  arrival : ∀ i, (accepted i (after ms).log).Pairwise fun a b => a.1 < b.1
  /-- They are writes to this pipe, each with the bytes of its buffer. -/
  source : ∀ i, ∀ a ∈ accepted i (after ms).log, (after ms).Source ms i a
  /-- A write acknowledged Ok is among them, and a reader got the bytes that its reply counts. -/
  honest : (after ms).Honest ms
  /-- No byte is lost or doubled on the way. -/
  conserved : ∀ i p, (after ms).pipes[i]? = some p →
    delivered i (after ms).log ++ p.contents = (accepted i (after ms).log).flatMap Prod.snd
  /-- Reply caps and buffer caps are used up once, or still held by the one pending entry. -/
  caps : (after ms).Balanced ms

/-- **Writes in turn make FIFO pipes.** -/
theorem pipes_are_fifo (ms : List Message) (h : Orderly ms) : FifoPipes ms := by
  have hstream := after_stream ms h
  refine ⟨?_, fun i => (hstream i).sorted, fun i => (hstream i).source, after_honest ms, fun i => (hstream i).flow,
    after_balanced ms⟩
  intro k i hk ⟨l, hlog, hquiet⟩
  have htake : Orderly (ms.take k) := by
    intro n m hn
    have hlt : n < k := by
      have hlen := (List.getElem?_eq_some_iff.mp hn).1
      rw [length_take] at hlen
      omega
    rw [getElem?_take_of_lt hlt] at hn
    rw [take_take, Nat.min_eq_left (Nat.le_of_lt hlt)]
    exact h n m hn
  have hlead := (after_stream (ms.take k) htake i).lead
  rw [hlog, accepted_append hquiet, flatMap_append]
  exact hlead.trans (prefix_append _ _)

/-- The condition of a run, computed. -/
def orderlyRun (ms : List Message) : Bool :=
  (range ms.length).all fun k => match ms[k]? with
    | some m => (after (ms.take k)).orderly m
    | none => true

theorem orderly_of_run (h : orderlyRun ms = true) : Orderly ms := by
  intro k m hk
  have hlt := (List.getElem?_eq_some_iff.mp hk).1
  have hone := List.all_eq_true.mp h k (List.mem_range.mpr hlt)
  rw [hk] at hone
  exact hone

/-- The `n`-th request of a client, about `length` bytes with one value. -/
def request (op : Op) (length : Nat) (fill : UInt8) (n : Nat) : Message :=
  ⟨op, some ['P'], length, 2 * n + 10, 2 * n + 11, some fun _ => fill, true⟩

theorem pipes_are_fifo_simple :
    FifoPipes [request .namesDone 0 0 0, request .write 3 7 1, request .read 2 0 2] :=
  pipes_are_fifo _ (orderly_of_run (by decide +kernel))

/-- A byte, then a write that needs the whole ring, then another byte, then a read of two. -/
def overtaken : List Message :=
  [request .namesDone 0 0 0, request .write 1 1 1, request .write 16384 2 2, request .write 1 3 3, request .read 2 0 4]

/-- The third write passes the second. -/
theorem small_write_overtakes : delivered 0 (after overtaken).log = [1, 3] ∧
    (accepted 0 (after overtaken).log).map Prod.fst = [1, 3, 2] ∧ ¬ FifoPipes overtaken := by
  have htickets : (accepted 0 (after overtaken).log).map Prod.fst = [1, 3, 2] := by decide +kernel
  refine ⟨by decide +kernel, htickets, ?_⟩
  intro h
  have hsorted := pairwise_map.mpr (h.arrival 0)
  exact absurd hsorted (by decide)

end Aegir.Fileserver
